import Ylem.Client.YlemPutfile
import Ylem.Worker.ChunkedCopy

/-!
# An upload at the storage node

Every range that `putfile` sends is a `PUT` over a connection of its own, which the client closes without having looked
at the answer. The node handles those whose body has arrived as a whole, and as nothing orders one connection before
another, it may do so in any order.

Each of these requests writes where its header says, so that the order does not matter: a byte of the file is right if
the requests that cover it agree on it. What is stored is the file, whatever it contains and in whatever order the node
goes about the requests, exactly if the last attempt at every range has taken all of it and nothing longer was stored
there before (`putfile_stores_iff`). Otherwise some byte is not written at all, or something is left behind the end.
-/

namespace Ylem

/-! ### The requests -/

/-- An integer as a stream prints it. -/
def printInt (n : ℤ) : Text := if n < 0 then '-' :: Text.decimal n.natAbs else Text.decimal n.natAbs

/-- `Content-Range`. -/
def RangeHeader.value (h : RangeHeader) : Text :=
  "bytes ".toList ++ (printInt h.first ++ '-' :: (printInt h.last ++ '/' :: printInt h.total))

/-- `Content-Length`. -/
def RangeHeader.length (h : RangeHeader) : ℤ := h.last + 1 - h.first

/-- The request of an attempt, if its body is complete. -/
def Attempt.request (path : Text) (content : Bytes) (a : Attempt) : Option PutRequest :=
  match a.sent with
  | none => none
  | some (start, stop) =>
    if (stop : ℤ) - start = a.header.length then
      some ⟨path, a.header.value, (content.drop start).take (stop - start)⟩
    else none

/-- The requests of an upload that the node handles, in the order in which they were sent. -/
def uploadRequests (path : Text) (content : Bytes) (log : List (List Attempt)) : List PutRequest :=
  log.flatten.filterMap (Attempt.request path content)

theorem rangeOffset_value {h : RangeHeader} {n : ℕ} (hfirst : h.first = n) :
    rangeOffset h.value = some (min n maxOffset) := by
  have hprint : printInt h.first = Text.decimal n := by
    rw [hfirst, printInt, if_neg (by omega), Int.natAbs_natCast]
  unfold RangeHeader.value
  simp only [hprint]
  exact rangeOffset_decimal n _

/-! ### A node that takes what it gets -/

/-- Nothing goes wrong in the request. -/
structure PutEnv.Willing (env : PutEnv) : Prop where
  writable : env.isReadonly = false
  hasLock : env.hasLock = true
  opens : env.openErr = none
  creates : env.createErr = none
  seeks : env.lseekFails = false
  writes : ∀ offset, ∃ n, env.writes offset = .wrote n

/-- Nothing goes wrong in any request. -/
structure DestNode.Willing (node : DestNode) : Prop where
  env : ∀ n, (node.env n).Willing
  readable : ∀ n body, ∀ c ∈ node.queue n body, c.type ≠ .file false

/-- What the request writes. -/
def PutRequest.write (req : PutRequest) : Write := ⟨(rangeOffset req.contentRange).getD 0, req.body⟩

/-- The request has a range that does not reach too far. Without a body it is one for the start of the file. -/
structure PutRequest.Valid (req : PutRequest) : Prop where
  range : (rangeOffset req.contentRange).isSome
  within : req.write.offset + req.body.length ≤ maxOffset
  start : req.body = [] → req.write.offset = 0

section Node

variable {writes : ℕ → WriteOutcome} {fuel offset status : ℕ} {cs : List Chunk} {content : Bytes}

theorem writeLoop_succeeds (hwrites : ∀ offset, ∃ n, writes offset = .wrote n) (hfuel : (bodyBytes cs).length ≤ fuel)
    (hreadable : ∀ c ∈ cs, c.type ≠ .file false) (hmax : offset + (bodyBytes cs).length ≤ maxOffset) :
    (writeLoop writes fuel offset cs status content).1 = some status := by
  induction fuel generalizing offset cs content with
  | zero =>
    cases cs with
    | nil => rfl
    | cons c cs => rfl
  | succ fuel ih =>
    cases cs with
    | nil => rfl
    | cons c cs =>
      have hpos := bodyBytes_cons_length c cs
      obtain ⟨m, hm⟩ := hwrites offset
      have hwrite : writeAt (writes offset) offset c.data =
          .ok (min (max m 1) (min c.data.length (maxOffset - offset))) := by
        rw [hm, writeAt, if_neg (by omega)]
      generalize hn : min (max m 1) (min c.data.length (maxOffset - offset)) = n at hwrite
      obtain ⟨hpos', hle, hmax'⟩ := writeAt_eq_ok c.data_ne hwrite
      have hbytes := congrArg List.length (bodyBytes_removeWritten c n cs)
      rw [List.length_append, List.length_take, min_eq_left hle] at hbytes
      rw [writeLoop, if_neg (hreadable c List.mem_cons_self), hwrite]
      refine ih (by omega) (fun c' hc' => ?_) (by omega)
      unfold removeWritten at hc'
      split_ifs at hc'
      · rcases List.mem_cons.mp hc' with rfl | hc'
        · exact hreadable c List.mem_cons_self
        · exact hreadable c' (List.mem_cons_of_mem _ hc')
      · exact hreadable c' (List.mem_cons_of_mem _ hc')

theorem put_willing {env : PutEnv} {value : Text} {file : Option Bytes} (henv : env.Willing)
    (hreadable : ∀ c ∈ cs, c.type ≠ .file false) (hrange : rangeOffset value = some offset)
    (hmax : offset + (bodyBytes cs).length ≤ maxOffset) (hstart : cs = [] → offset = 0) :
    (put env (some value) cs file).2 = some (pwrite (file.getD []) offset (bodyBytes cs)) := by
  have hopen : openOrCreate env file = .ok (file.getD []) := by
    unfold openOrCreate
    cases file with
    | some content => rw [henv.opens]; rfl
    | none => rw [henv.opens, henv.creates]; rfl
  have hstatus := @writeLoop_succeeds _ _ _ 200 _ (file.getD []) henv.writes le_rfl hreadable hmax
  generalize hloop : writeLoop env.writes (bodyBytes cs).length offset cs 200 (file.getD []) = result at hstatus
  obtain ⟨status, content⟩ := result
  have hput : put env (some value) cs file = (status, some content) := by
    simp [put, henv.writable, henv.hasLock, hrange, hopen, henv.seeks, hloop]
  rw [hput]
  obtain rfl : status = some 200 := hstatus
  by_cases hne : cs = []
  · subst hne
    rw [hstart rfl] at hloop ⊢
    have hcontent : content = file.getD [] := (Prod.mk.inj hloop).2.symm
    rw [hcontent, show bodyBytes [] = [] from rfl, pwrite_nil (Nat.zero_le _)]
  · rw [(writeLoop_ok le_rfl hne hloop rfl).1]

end Node

namespace DestNode

variable {node : DestNode} {req : PutRequest} {reqs : List PutRequest}

theorem handle_willing (hnode : node.Willing) (hreq : req.Valid) (n : ℕ) (file : Option Bytes) :
    (node.handle n file req).2 = some (pwrite (file.getD []) req.write.offset req.body) := by
  obtain ⟨offset, hoffset⟩ := Option.isSome_iff_exists.mp hreq.range
  have hwrite : req.write.offset = offset := by rw [PutRequest.write, hoffset, Option.getD_some]
  have hbody := node.bodyBytes_queue n req.body
  have hmax := hreq.within
  have hstart := hreq.start
  rw [hwrite] at hmax hstart ⊢
  have hput := @put_willing offset (node.queue n req.body) _ _ file (hnode.env n) (hnode.readable n req.body) hoffset
    (by rw [hbody]; exact hmax) fun hnil => hstart (by rw [← hbody, hnil]; rfl)
  rw [hbody] at hput
  exact hput

theorem run_willing (hnode : node.Willing) (hreqs : ∀ req ∈ reqs, req.Valid) (n : ℕ) (file : Option Bytes) :
    (node.run n file reqs).getD [] = pwriteAll (file.getD []) (reqs.map PutRequest.write) ∧
      (reqs ≠ [] → (node.run n file reqs).isSome) := by
  induction reqs generalizing n file with
  | nil => exact ⟨rfl, fun h => absurd rfl h⟩
  | cons req reqs ih =>
    have hhandle := handle_willing hnode (hreqs req List.mem_cons_self) n file
    obtain ⟨hrun, hsome⟩ := ih (fun req' h => hreqs req' (List.mem_cons_of_mem _ h)) (n + 1) (node.handle n file req).2
    rw [run]
    constructor
    · rw [hrun, hhandle]
      rfl
    · intro _
      cases reqs with
      | nil => rw [hhandle]; rfl
      | cons req' reqs => exact hsome (List.cons_ne_nil _ _)

end DestNode

/-! ### The requests of an upload -/

section Requests

variable {size k loopNum left offset : ℕ} {filesize : ℤ} {net : ℕ → ℕ → SendOutcome} {path : Text} {content : Bytes}
  {req : PutRequest}

theorem sent_of_mem_dropLast (header : RangeHeader) (sendsize : ℤ) (outcomes : ℕ → SendOutcome) :
    ∀ a ∈ (sendRange size header sendsize outcomes left loopNum offset).1.dropLast, a.sent = none := by
  induction left generalizing loopNum with
  | zero => exact fun a ha => absurd ha List.not_mem_nil
  | succ left ih =>
    cases houtcome : outcomes loopNum with
    | error =>
      simp only [sendRange, houtcome, sectsendfile]
      rw [if_pos (by decide)]
      intro a ha
      have hne : (sendRange size header sendsize outcomes left (loopNum + 1) offset).1 ≠ [] := by
        intro hnil
        have hlast := (sendRange_spec size header sendsize outcomes left (loopNum + 1) offset).1
        rw [hnil] at hlast
        cases hlast
      rw [List.dropLast_cons_of_ne_nil hne] at ha
      rcases List.mem_cons.mp ha with rfl | ha
      · rfl
      · exact ih a ha
    | takes n =>
      simp only [sendRange, houtcome, sectsendfile]
      rw [if_neg (by omega)]
      exact fun a ha => absurd ha List.not_mem_nil

theorem sent_of_mem_run {s : PutLoop} (h : ∀ attempts ∈ s.log, ∀ a ∈ attempts.dropLast, a.sent = none) :
    ∀ attempts ∈ (s.run size filesize net k).log, ∀ a ∈ attempts.dropLast, a.sent = none := by
  induction k, s using PutLoop.run.induct size filesize net with
  | case1 k s hmore ih =>
    rw [PutLoop.run, if_pos hmore]
    refine ih fun attempts hattempts => ?_
    rcases List.mem_append.mp hattempts with hold | hnew
    · exact h attempts hold
    · obtain rfl := List.mem_singleton.mp hnew
      exact sent_of_mem_dropLast _ _ _
  | case2 k s hdone =>
    rw [PutLoop.run, if_neg hdone]
    intro attempts hattempts
    rcases List.mem_append.mp hattempts with hold | hnew
    · exact h attempts hold
    · obtain rfl := List.mem_singleton.mp hnew
      exact sent_of_mem_dropLast _ _ _

theorem mem_uploadRequests : req ∈ uploadRequests path content (putLoop size net).log ↔
    ∃ k < rangeCount (intOfSize size), (lastAttempt (intOfSize size) net k).request path content = some req := by
  obtain ⟨hsent, -⟩ := putLoop_spec size net
  have hunsent : ∀ attempts ∈ (putLoop size net).log, ∀ a ∈ attempts.dropLast, a.sent = none :=
    sent_of_mem_run fun _ h => absurd h List.not_mem_nil
  rw [uploadRequests, List.mem_filterMap]
  constructor
  · rintro ⟨a, ha, hreq⟩
    obtain ⟨attempts, hattempts, ha⟩ := List.mem_flatten.mp ha
    obtain ⟨k, hk⟩ := List.mem_iff_getElem?.mp hattempts
    have hlt : k < rangeCount (intOfSize size) := hsent.length ▸ (List.getElem?_eq_some_iff.mp hk).1
    obtain ⟨attempts', hk', hlast⟩ := hsent.log k hlt
    obtain rfl : attempts = attempts' := Option.some.inj (hk.symm.trans hk')
    refine ⟨k, hlt, ?_⟩
    obtain ⟨init, rfl⟩ := List.getLast?_eq_some_iff.mp hlast
    rcases List.mem_append.mp ha with hinit | hend
    · have hnone := hunsent _ hattempts a (by rwa [List.dropLast_concat])
      rw [Attempt.request, hnone] at hreq
      cases hreq
    · obtain rfl := List.mem_singleton.mp hend
      exact hreq
  · rintro ⟨k, hk, hreq⟩
    obtain ⟨attempts, hattempts, hlast⟩ := hsent.log k hk
    exact ⟨_, List.mem_flatten.mpr ⟨attempts, List.mem_of_getElem? hattempts, List.mem_of_getLast? hlast⟩, hreq⟩

theorem isRange_of_lt (hk : k < rangeCount filesize) : IsRange filesize k := by
  unfold rangeCount at hk
  unfold IsRange
  rw [maxFileBlock_eq] at *
  omega

/-- What a complete attempt at a range says: all of the range has been taken, from where the ranges before it ended. -/
structure Completes (size : ℕ) (net : ℕ → ℕ → SendOutcome) (content : Bytes) (k : ℕ) (req : PutRequest) : Prop where
  isRange : IsRange (intOfSize size) k
  took : PutfileEnv.outcome net k ≠ .error
  bytes : (sentBytes (intOfSize size) net k : ℤ) = sendSize (intOfSize size) k
  body : req.body = (content.drop (sentFrom (intOfSize size) net k)).take (sentBytes (intOfSize size) net k)
  range : rangeOffset req.contentRange = some (k * maxFileBlock)

theorem completes_of_request (hk : IsRange (intOfSize size) k)
    (h : (lastAttempt (intOfSize size) net k).request path content = some req) : Completes size net content k req := by
  rw [lastAttempt, Attempt.request] at h
  by_cases htook : PutfileEnv.outcome net k = .error
  · rw [if_pos htook] at h
    cases h
  · rw [if_neg htook] at h
    dsimp only at h
    split_ifs at h with hcomplete
    obtain rfl := Option.some.inj h
    have hmax : k * maxFileBlock ≤ maxOffset := by
      unfold IsRange at hk
      have hcases := intOfSize_cases size
      rw [maxFileBlock_eq] at *
      unfold maxOffset
      omega
    refine ⟨hk, htook, ?_, ?_, ?_⟩
    · rw [RangeHeader.length] at hcomplete
      push_cast at hcomplete
      omega
    · rw [Nat.add_sub_cancel_left]
    · rw [rangeOffset_value rfl, min_eq_left hmax]

namespace Completes

theorem write_offset (h : Completes size net content k req) : req.write.offset = k * maxFileBlock := by
  rw [PutRequest.write, h.range, Option.getD_some]

theorem length_body (h : Completes size net content k req) (hcontent : content.length = size) :
    (req.body.length : ℤ) = sendSize (intOfSize size) k := by
  have hfrom := @sentFrom_le size k net h.isRange
  have hbytes := h.bytes
  have hle := intOfSize_le size
  have hsize : sendSize (intOfSize size) k ≤ intOfSize size - (k * maxFileBlock : ℕ) := by
    unfold sendSize
    push_cast
    exact min_le_left _ _
  rw [h.body, List.length_take, List.length_drop, hcontent]
  omega

theorem end_le (h : Completes size net content k req) (hcontent : content.length = size) :
    ((req.write.offset + req.body.length : ℕ) : ℤ) ≤ max (intOfSize size) 0 := by
  have hlength := h.length_body hcontent
  have hsize : sendSize (intOfSize size) k ≤ intOfSize size - (k * maxFileBlock : ℕ) := by
    unfold sendSize
    push_cast
    exact min_le_left _ _
  rw [h.write_offset]
  push_cast at *
  omega

theorem valid (h : Completes size net content k req) (hcontent : content.length = size) : req.Valid := by
  have hend := h.end_le hcontent
  have hlength := h.length_body hcontent
  have hcases := intOfSize_cases size
  refine ⟨by rw [h.range]; rfl, ?_, fun hnil => ?_⟩
  · unfold maxOffset
    omega
  · rw [h.write_offset]
    rcases h.isRange with rfl | hlt
    · exact Nat.zero_mul _
    · rw [hnil, List.length_nil] at hlength
      unfold sendSize at hlength
      rw [maxFileBlock_eq] at *
      push_cast at *
      omega

end Completes

end Requests

/-! ### What is stored -/

section Stored

variable {size k : ℕ} {net : ℕ → ℕ → SendOutcome} {path : Text} {content : Bytes} {node : DestNode}

theorem TakesAll.lastAttempt_eq (h : TakesAll size net) (hk : k * maxFileBlock < size) :
    lastAttempt (intOfSize size) net k = ⟨⟨(k * maxFileBlock : ℕ), (rangeEnd size k : ℤ) - 1, size⟩,
      some (k * maxFileBlock, rangeEnd size k)⟩ := by
  obtain ⟨hsent, -⟩ := putLoop_spec size net
  obtain ⟨attempts, hlog, hlast⟩ := (sentWhole_iff hsent).mpr h k hk
  obtain ⟨hlt, -⟩ := List.getElem?_eq_some_iff.mp hlog
  obtain ⟨attempts', hlog', hlast'⟩ := hsent.log k (hsent.length ▸ hlt)
  obtain rfl : attempts = attempts' := Option.some.inj (hlog.symm.trans hlog')
  exact Option.some.inj (hlast'.symm.trans hlast)

theorem TakesAll.request_eq (h : TakesAll size net) (hk : k * maxFileBlock < size) :
    ∃ req, (lastAttempt (intOfSize size) net k).request path content = some req ∧
      req.body = (content.drop (k * maxFileBlock)).take (rangeEnd size k - k * maxFileBlock) := by
  have hend : k * maxFileBlock ≤ rangeEnd size k := by
    unfold rangeEnd
    rw [maxFileBlock_eq] at *
    omega
  rw [h.lastAttempt_eq hk, Attempt.request]
  dsimp only
  rw [if_pos (by dsimp only [RangeHeader.length]; omega)]
  exact ⟨_, rfl, rfl⟩

theorem exists_not_covered (h : ¬ TakesAll size net) : ∃ i < size, ∀ (content : Bytes) k req,
    content.length = size → Completes size net content k req → ¬ req.write.Covers i := by
  by_cases hsize : size < 2 ^ 31
  · have hint : intOfSize size = size := intOfSize_eq_iff.mpr hsize
    obtain ⟨j, hj, hshort⟩ : ∃ j, j * maxFileBlock < size ∧
        ∀ n, PutfileEnv.outcome net j = .takes n → ¬ rangeEnd size j - j * maxFileBlock ≤ n := by
      by_contra hnone
      refine h ⟨hsize, fun k hk => ?_⟩
      by_contra hall
      exact hnone ⟨k, hk, fun n hn hle => hall ⟨n, hn, hle⟩⟩
    refine ⟨j * maxFileBlock, hj, fun content k req hcontent hreq hcovers => ?_⟩
    -- the only range that it is in is its own
    have hlength := hreq.length_body hcontent
    have hblock : sendSize (intOfSize size) k ≤ maxFileBlock := min_le_right _ _
    obtain ⟨hlow, hhigh⟩ := hcovers
    rw [hreq.write_offset] at hlow hhigh
    have hdata : req.write.data.length = req.body.length := rfl
    obtain rfl : k = j := by
      rw [maxFileBlock_eq] at *
      omega
    have htaken : ∃ n, PutfileEnv.outcome net k = .takes n := by
      cases houtcome : PutfileEnv.outcome net k with
      | error => exact absurd houtcome hreq.took
      | takes n => exact ⟨n, rfl⟩
    obtain ⟨n, hn⟩ := htaken
    have hbytes := hreq.bytes
    have hle : sentBytes (intOfSize size) net k ≤ n := by
      rw [sentBytes, hn]
      exact min_le_left _ _
    refine hshort n hn ?_
    rw [hint, sendSize_eq hj] at hbytes
    rw [hint] at hle
    omega
  · refine ⟨size - 1, by omega, fun content k req hcontent hreq hcovers => ?_⟩
    have hend := hreq.end_le hcontent
    have hne : intOfSize size ≠ size := fun heq => hsize (intOfSize_eq_iff.mp heq)
    have hle := intOfSize_le size
    obtain ⟨-, hhigh⟩ := hcovers
    have hdata : req.write.data.length = req.body.length := rfl
    omega

theorem completes_of_mem {req : PutRequest} (h : req ∈ uploadRequests path content (putLoop size net).log) :
    ∃ k, Completes size net content k req := by
  obtain ⟨k, hk, hreq⟩ := mem_uploadRequests.mp h
  exact ⟨k, completes_of_request (isRange_of_lt hk) hreq⟩

theorem after_upload (hnode : node.Willing) (hcontent : content.length = size) {order : List PutRequest}
    (horder : order.Perm (uploadRequests path content (putLoop size net).log)) :
    (node.after order).getD [] = pwriteAll (node.file.getD []) (order.map PutRequest.write) ∧
      (order ≠ [] → (node.after order).isSome) :=
  DestNode.run_willing hnode (fun req hreq => by
    obtain ⟨k, hk⟩ := completes_of_mem (horder.mem_iff.mp hreq)
    exact hk.valid hcontent) 0 node.file

theorem maxFileBlock_pos : 0 < maxFileBlock := by
  rw [maxFileBlock_eq]
  exact Nat.succ_pos _

theorem div_lt_rangeCount {i : ℕ} (hi : i < size) : i / maxFileBlock < rangeCount (size : ℤ) := by
  have hle : i ≤ ((size : ℤ) - 1).toNat := by omega
  exact Nat.lt_succ_of_le (Nat.div_le_div_right hle)

theorem mul_lt_of_lt_rangeCount (hpos : 0 < size) (hk : k < rangeCount (size : ℤ)) : k * maxFileBlock < size := by
  have hle : k * maxFileBlock ≤ ((size : ℤ) - 1).toNat :=
    (Nat.le_div_iff_mul_le maxFileBlock_pos).mp (Nat.le_of_lt_succ hk)
  generalize k * maxFileBlock = start at *
  omega

theorem lt_rangeEnd {i : ℕ} (hi : i < size) : i < rangeEnd size (i / maxFileBlock) := by
  have hnext := Nat.lt_mul_div_succ i maxFileBlock_pos
  rw [Nat.mul_comm] at hnext
  exact lt_min hnext hi

/-- The last attempt at the range of a byte of the file has written it. -/
theorem TakesAll.covers (h : TakesAll size net) (hcontent : content.length = size) {req : PutRequest} {i : ℕ}
    (hi : i < size) (hreq : Completes size net content (i / maxFileBlock) req) : req.write.Covers i := by
  have hint : intOfSize size = size := intOfSize_eq_iff.mpr h.1
  have hstart : i / maxFileBlock * maxFileBlock ≤ i := Nat.div_mul_le_self _ _
  have hend := lt_rangeEnd hi
  have hlength := hreq.length_body hcontent
  rw [hint, sendSize_eq (hstart.trans_lt hi)] at hlength
  have hdata : req.write.data.length = req.body.length := rfl
  rw [Write.Covers, hreq.write_offset, hdata]
  generalize i / maxFileBlock * maxFileBlock = start at *
  omega

theorem TakesAll.byteAt_write (h : TakesAll size net) (hk : k * maxFileBlock < size) {req : PutRequest} {i : ℕ}
    (hrequest : (lastAttempt (intOfSize size) net k).request path content = some req)
    (hreq : Completes size net content k req) (hcovers : req.write.Covers i) :
    byteAt req.write.data (i - req.write.offset) = byteAt content i := by
  obtain ⟨req', hrequest', hbody⟩ := @TakesAll.request_eq _ _ _ path content h hk
  obtain rfl : req = req' := Option.some.inj (hrequest.symm.trans hrequest')
  obtain ⟨hlow, hhigh⟩ := hcovers
  have hdata : req.write.data = req.body := rfl
  rw [hreq.write_offset] at hlow hhigh ⊢
  rw [hdata, hbody, List.length_take] at hhigh
  rw [hdata, hbody]
  generalize k * maxFileBlock = start at *
  have hbefore : i - start < rangeEnd size k - start := by omega
  rw [byteAt, byteAt, List.getD_eq_getElem?_getD, List.getElem?_take_of_lt hbefore, List.getElem?_drop,
    List.getD_eq_getElem?_getD, Nat.add_sub_cancel' hlow]

theorem after_upload_of_takesAll (hnode : node.Willing) (hcontent : content.length = size) (hpos : 0 < size)
    (h : TakesAll size net) (hfile : (node.file.getD []).length ≤ size) {order : List PutRequest}
    (horder : order.Perm (uploadRequests path content (putLoop size net).log)) : node.after order = some content := by
  obtain ⟨hafter, hsome⟩ := after_upload hnode hcontent horder
  have hint : intOfSize size = size := intOfSize_eq_iff.mpr h.1
  have hcovered : ∀ i < size, ∃ req ∈ order, req.write.Covers i := by
    intro i hi
    have hrange : i / maxFileBlock < rangeCount (intOfSize size) := hint ▸ div_lt_rangeCount hi
    obtain ⟨req, hreq, -⟩ :=
      @TakesAll.request_eq _ _ _ path content h ((Nat.div_mul_le_self i maxFileBlock).trans_lt hi)
    refine ⟨req, horder.mem_iff.mpr (mem_uploadRequests.mpr ⟨_, hrange, hreq⟩), ?_⟩
    exact h.covers hcontent hi (completes_of_request (isRange_of_lt hrange) hreq)
  have hagree : ∀ i, ∀ req ∈ order, req.write.Covers i →
      byteAt req.write.data (i - req.write.offset) = byteAt content i := by
    intro i req hreq hcovers
    obtain ⟨k, hk, hrequest⟩ := mem_uploadRequests.mp (horder.mem_iff.mp hreq)
    have hcompletes := completes_of_request (isRange_of_lt hk) hrequest
    rw [hint] at hk
    exact h.byteAt_write (mul_lt_of_lt_rangeCount hpos hk) hrequest hcompletes hcovers
  obtain ⟨last, hlast, -, hhigh⟩ := hcovered (size - 1) (by omega)
  obtain ⟨result, hresult⟩ := Option.isSome_iff_exists.mp (hsome (List.ne_nil_of_mem hlast))
  rw [hresult, Option.getD_some] at hafter
  rw [hresult, hafter]
  refine congrArg some (eq_of_byteAt ?_ fun i hi => ?_)
  · refine le_antisymm ((pwriteAll_length_le hfile fun w hw => ?_).trans hcontent.ge) ?_
    · obtain ⟨req, hreq, rfl⟩ := List.mem_map.mp hw
      obtain ⟨k, hk⟩ := completes_of_mem (horder.mem_iff.mp hreq)
      have hend := hk.end_le hcontent
      rw [hint] at hend
      have hdata : req.write.data.length = req.body.length := rfl
      omega
    · have hend := @end_le_length_pwriteAll (node.file.getD []) _ _ (List.mem_map_of_mem (f := PutRequest.write) hlast)
      omega
  · refine byteAt_pwriteAll_of_agree (fun w hw hcovers => ?_) (.inr ?_)
    · obtain ⟨req, hreq, rfl⟩ := List.mem_map.mp hw
      exact hagree i req hreq hcovers
    · obtain ⟨req, hreq, hcovers⟩ := hcovered i (hcontent ▸ hi)
      exact ⟨req.write, List.mem_map_of_mem hreq, hcovers⟩

end Stored

/-- What a node that takes all requests has stored of an upload is the file, whatever it contains and in whatever order
the requests are handled, exactly if the last attempt at every range has taken all of it and what was stored there
before is not longer. -/
theorem putfile_stores_iff (env : PutfileEnv) (webPath key filePath : List Char) (path : Text) (size : ℕ)
    (node : DestNode) (hopened : env.opened = some size) (hreaches : Reaches env webPath key filePath)
    (hpos : 0 < size) (hnode : node.Willing) :
    (∀ content : Bytes, content.length = size →
      ∀ order, order.Perm (uploadRequests path content (putfile env webPath key filePath).2.2) →
        node.after order = some content) ↔
      TakesAll size env.net ∧ (node.file.getD []).length ≤ size := by
  rw [putfile_reached hopened hreaches, log_result]
  constructor
  · intro h
    constructor
    · by_contra hnot
      obtain ⟨i, hi, huncovered⟩ := exists_not_covered hnot
      -- a file whose byte there is not the one that is there already
      let content : Bytes := List.replicate size (byteAt (node.file.getD []) i + 1)
      have hcontent : content.length = size := List.length_replicate
      have hstored := h content hcontent _ (List.Perm.refl _)
      have hafter := (@after_upload _ env.net path _ _ hnode hcontent _ (List.Perm.refl _)).1
      rw [hstored, Option.getD_some] at hafter
      have hbyte : byteAt content i = byteAt (node.file.getD []) i := by
        rw [hafter]
        refine byteAt_pwriteAll_of_not_covered fun w hw => ?_
        obtain ⟨req, hreq, rfl⟩ := List.mem_map.mp hw
        obtain ⟨k, hk⟩ := completes_of_mem hreq
        exact huncovered content k req hcontent hk
      have hvalue : byteAt content i = byteAt (node.file.getD []) i + 1 := by
        rw [byteAt, List.getD_eq_getElem _ _ (by rw [hcontent]; exact hi)]
        exact List.getElem_replicate _
      rw [hvalue] at hbyte
      exact absurd hbyte (by simp)
    · have hcontent : (List.replicate size (0 : UInt8)).length = size := List.length_replicate
      have hstored := h _ hcontent _ (List.Perm.refl _)
      have hafter := (@after_upload _ env.net path _ _ hnode hcontent _ (List.Perm.refl _)).1
      rw [hstored, Option.getD_some] at hafter
      have hlength := congrArg List.length hafter
      rw [hcontent] at hlength
      rw [hlength]
      exact length_le_pwriteAll
  · rintro ⟨hall, hfile⟩ content hcontent order horder
    exact after_upload_of_takesAll hnode hcontent hpos hall hfile horder

theorem willing_calmNode (file : Option Bytes) : (calmNode file).Willing := by
  refine ⟨fun _ => ⟨rfl, rfl, rfl, rfl, rfl, fun _ => ⟨1, rfl⟩⟩, fun _ body c hc => ?_⟩
  unfold calmNode at hc
  dsimp only at hc
  split_ifs at hc
  · exact absurd hc List.not_mem_nil
  · obtain rfl := List.mem_singleton.mp hc
    exact ChunkType.noConfusion

/-- A network on which the first attempt at the second range fails. -/
def secondFails : ℕ → ℕ → SendOutcome := fun k attempt =>
  if k = 1 ∧ attempt = 1 then .error else .takes maxFileBlock

theorem takesAll_secondFails : TakesAll 3000000 secondFails := by
  refine ⟨by norm_num, fun k _ => ⟨maxFileBlock, ?_, ?_⟩⟩
  · by_cases hk : k = 1
    · subst hk
      rfl
    · have hfirst : secondFails k 1 = .takes maxFileBlock := if_neg fun h => hk h.1
      rw [PutfileEnv.outcome, loopNumber, finalOutcome, hfirst]
  · have hend : rangeEnd 3000000 k ≤ (k + 1) * maxFileBlock := min_le_left _ _
    rw [Nat.succ_mul] at hend
    omega

/-- A file of three ranges is stored over one of three bytes, whatever the order of the requests. -/
theorem putfile_stores_threeRanges :
    TakesAll 3000000 secondFails ∧ ∀ content : Bytes, content.length = 3000000 →
      ∀ order, order.Perm (uploadRequests "/f".toList content
          (putfile ⟨true, some 3000000, true, secondFails⟩ "http://h/f".toList "k".toList "f".toList).2.2) →
        (calmNode (some [7, 8, 9])).after order = some content :=
  ⟨takesAll_secondFails, (putfile_stores_iff ⟨true, some 3000000, true, secondFails⟩ "http://h/f".toList "k".toList
    "f".toList "/f".toList 3000000 (calmNode (some [7, 8, 9])) rfl ⟨by decide, rfl, rfl⟩ (by norm_num)
      (willing_calmNode _)).mpr ⟨takesAll_secondFails, by simp [calmNode]⟩⟩

end Ylem
