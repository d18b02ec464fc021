import Ylem.Storage.ModWebdav
import Ylem.Worker.HttpCopy

/-!
# A copy in blocks

`http_copy` against the `PUT` of a storage node. The requests of a copy that succeeds are consecutive pieces of the
file, each with its range (`Tiles`), however the reads of the source cut it. The node writes each of them at its
offset, so that together they are one write at the start of the file (`DestNode.run_tiles`). But it never cuts the
file off: what a longer file had behind the end of the new one stays there (`copied_exactly_iff`), where a `PUT` of
the whole file would have replaced it.
-/

namespace Ylem

/-! ### The requests -/

/-- The requests are the pieces of the contents from this offset on, in their order, none larger than a block. -/
inductive Tiles (path clen : Text) : ℕ → Bytes → List PutRequest → Prop where
  | nil {offset : ℕ} : Tiles path clen offset [] []
  | cons {offset : ℕ} {data rest : Bytes} {reqs : List PutRequest} (hne : data ≠ [])
      (hle : data.length ≤ webdavBlockSize) (htiles : Tiles path clen (offset + data.length) rest reqs) :
      Tiles path clen offset (data ++ rest)
        (⟨path, contentRange offset (offset + data.length - 1) clen, data⟩ :: reqs)

/-- The destination has answered each of the requests, after the ones before it, with success. -/
def Answered (respond : List PutRequest → PutRequest → Option Text) (past reqs : List PutRequest) : Prop :=
  ∀ before req after, reqs = before ++ req :: after →
    ∃ line status, respond (past ++ before) req = some line ∧ httpStatus line = some status ∧ okStatus status = true

theorem answered_cons {respond : List PutRequest → PutRequest → Option Text} {past reqs : List PutRequest}
    {req : PutRequest} {line status : Text} (hline : respond past req = some line)
    (hstatus : httpStatus line = some status) (hok : okStatus status = true)
    (h : Answered respond (past ++ [req]) reqs) : Answered respond past (req :: reqs) := by
  intro before req' after hsplit
  cases before with
  | nil =>
    obtain ⟨rfl, -⟩ := List.cons.inj hsplit
    rw [List.append_nil]
    exact ⟨line, status, hline, hstatus, hok⟩
  | cons first before =>
    obtain ⟨rfl, hrest⟩ := List.cons.inj hsplit
    have hanswered := h before req' after hrest
    rwa [List.append_assoc] at hanswered

theorem putBlocks_copied {w : CopyWorld} {dest : Peer} {dpath clen : Text} {turns : List Turn}
    {past reqs : List PutRequest} {written : ℕ} {rest : Bytes}
    (h : putBlocks w dest dpath clen turns past written rest.length (min rest.length webdavBlockSize) rest =
      (.copied, reqs)) :
    ∃ new, reqs = past ++ new ∧ new ≠ [] ∧ Tiles dpath clen written rest new ∧ Answered w.respond past new := by
  induction turns generalizing past written rest with
  | nil => cases (Prod.mk.inj h).1
  | cons turn turns ih =>
    unfold putBlocks at h
    extract_lets data bytes req at h
    split at h
    · cases (Prod.mk.inj h).1
    rename_i hdata
    split at h
    · cases (Prod.mk.inj h).1
    split at h
    · cases (Prod.mk.inj h).1
    split at h
    · cases (Prod.mk.inj h).1
    split at h
    · cases (Prod.mk.inj h).1
    split at h
    · cases (Prod.mk.inj h).1
    rename_i line hline
    split at h
    · cases (Prod.mk.inj h).1
    rename_i status hstatus
    split at h
    · cases (Prod.mk.inj h).1
    rename_i hok
    have hok' : okStatus status = true := by simpa using hok
    split at h
    · cases (Prod.mk.inj h).1
    have hpos : 0 < bytes := List.length_pos_iff.mpr hdata
    have hbytes : bytes = min (min turn.ready (min rest.length webdavBlockSize)) rest.length := List.length_take
    have hle : bytes ≤ webdavBlockSize := by omega
    have hrest : data ++ rest.drop bytes = rest := List.prefix_iff_eq_append.mp (List.take_prefix _ _)
    have hlen : (rest.drop bytes).length = rest.length - bytes := List.length_drop
    split at h
    · rename_i hdone
      have hnil : rest.drop bytes = [] := List.eq_nil_of_length_eq_zero (by omega)
      have htiles : Tiles dpath clen written (data ++ rest.drop bytes) [req] := by
        rw [hnil]
        exact .cons hdata hle .nil
      rw [hrest] at htiles
      obtain ⟨-, rfl⟩ := Prod.mk.inj h
      exact ⟨[req], rfl, List.cons_ne_nil _ _, htiles, answered_cons hline hstatus hok' fun _ _ _ h => absurd h (by simp)⟩
    · have hmin : min (rest.length - bytes) (min rest.length webdavBlockSize) =
          min (rest.drop bytes).length webdavBlockSize := by omega
      rw [hmin, ← hlen] at h
      obtain ⟨new, rfl, -, htiles, hanswered⟩ := ih h
      have hcons := Tiles.cons hdata hle htiles
      rw [hrest] at hcons
      exact ⟨req :: new, List.append_assoc _ _ _, List.cons_ne_nil _ _, hcons,
        answered_cons hline hstatus hok' hanswered⟩

/-! ### The node -/

/-- The file at the path of the requests, and what the node meets in each of them: its locks and system calls, and
how it queues the body. -/
structure DestNode where
  file : Option Bytes
  env : ℕ → PutEnv
  queue : ℕ → Bytes → List Chunk
  bodyBytes_queue : ∀ n body, bodyBytes (queue n body) = body
  reason : ℕ → Text

namespace DestNode

variable (node : DestNode)

/-- The `PUT` of the `n`th request. -/
def handle (n : ℕ) (file : Option Bytes) (req : PutRequest) : Option ℕ × Option Bytes :=
  put (node.env n) (some req.contentRange) (node.queue n req.body) file

/-- The file after the requests from the `n`th on. -/
def run (node : DestNode) : ℕ → Option Bytes → List PutRequest → Option Bytes
  | _, file, [] => file
  | n, file, req :: reqs => run node (n + 1) (node.handle n file req).2 reqs

/-- The file after the first requests. -/
def after (reqs : List PutRequest) : Option Bytes := node.run 0 node.file reqs

def statusLine (status : ℕ) : Text := "HTTP/1.1 ".toList ++ (Text.decimal status ++ ' ' :: node.reason status)

/-- The first line of the response to a request; nothing where the server sends none. -/
def respond (reqs : List PutRequest) (req : PutRequest) : Option Text :=
  (node.handle reqs.length (node.after reqs) req).1.map node.statusLine

variable {node}

theorem run_append {n : ℕ} {file : Option Bytes} {reqs reqs' : List PutRequest} :
    node.run n file (reqs ++ reqs') = node.run (n + reqs.length) (node.run n file reqs) reqs' := by
  induction reqs generalizing n file with
  | nil => rfl
  | cons req reqs ih =>
    rw [List.cons_append, run, ih, run, List.length_cons, Nat.add_assoc, Nat.add_comm 1]

theorem httpStatus_statusLine (status : ℕ) : httpStatus (node.statusLine status) = some (Text.decimal status) := by
  obtain ⟨c, t, hct, hc⟩ := Text.exists_cons_decimal status
  have hspan : (Text.decimal status ++ ' ' :: node.reason status).span Char.isDigit =
      (Text.decimal status, ' ' :: node.reason status) :=
    Text.span_decimal fun c hc => by
      obtain rfl : ' ' = c := by simpa using hc
      rfl
  rw [List.span_eq_takeWhile_dropWhile] at hspan
  have htake : (Text.decimal status ++ ' ' :: node.reason status).takeWhile Char.isDigit = Text.decimal status :=
    congrArg Prod.fst hspan
  have hne : Text.decimal status ≠ [] := by
    rw [hct]
    exact List.cons_ne_nil c t
  have hline : node.statusLine status = 'H' :: 'T' :: 'T' :: 'P' :: '/' :: '1' :: '.' :: '1' :: ' ' ::
      (Text.decimal status ++ ' ' :: node.reason status) := rfl
  have hblank : Text.isBlank c = false := Text.isBlank_of_isDigit hc
  have hdrop : (Text.decimal status ++ ' ' :: node.reason status).dropWhile Text.isBlank =
      Text.decimal status ++ ' ' :: node.reason status := by
    rw [hct, List.cons_append, List.dropWhile_cons_of_neg (by simp [hblank])]
  have hhead : (Text.decimal status ++ ' ' :: node.reason status).takeWhile Text.isBlank = [] := by
    rw [hct, List.cons_append, List.takeWhile_cons_of_neg (by simp [hblank])]
  have hspace : Text.isBlank ' ' = true := by decide
  have hone : Char.isDigit '1' = true := by decide
  have hdot : Char.isDigit '.' = false := by decide
  have hblankDigit : Char.isDigit ' ' = false := by decide
  rw [httpStatus, hline]
  generalize Text.decimal status ++ ' ' :: node.reason status = rest at htake hdrop hhead
  simp [List.isPrefixOf, List.span_eq_takeWhile_dropWhile, hone, hdot, hspace, hblankDigit, hdrop,
    hhead, htake, hne]

theorem okStatus_decimal (status : ℕ) : okStatus (Text.decimal status) = succeeded (some status) := by
  rw [okStatus, Text.ofDigits_decimal]
  rfl

theorem handle_of_answered {past : List PutRequest} {path clen line status : Text} {offset : ℕ} {data : Bytes}
    {file : Option Bytes} (hoffset : offset ≤ maxOffset) (hne : data ≠ [])
    (hline : (node.handle past.length file ⟨path, contentRange offset (offset + data.length - 1) clen, data⟩).1.map
      node.statusLine = some line) (hstatus : httpStatus line = some status) (hok : okStatus status = true) :
    offset + data.length ≤ maxOffset ∧
      (node.handle past.length file ⟨path, contentRange offset (offset + data.length - 1) clen, data⟩).2 =
        some (pwrite (file.getD []) offset data) := by
  unfold handle at hline ⊢
  dsimp only at hline ⊢
  generalize hput : put (node.env past.length) (some (contentRange offset (offset + data.length - 1) clen))
    (node.queue past.length data) file = result at hline ⊢
  obtain ⟨code, file'⟩ := result
  obtain ⟨code', hcode, rfl⟩ := Option.map_eq_some_iff.mp hline
  rw [httpStatus_statusLine, Option.some.injEq] at hstatus
  rw [← hstatus, okStatus_decimal] at hok
  have hbody := node.bodyBytes_queue past.length data
  have hqueue : node.queue past.length data ≠ [] := by
    intro hnil
    rw [hnil] at hbody
    exact hne hbody.symm
  obtain rfl : code = some code' := hcode
  obtain ⟨offset', hrange, hle, hfile⟩ := put_range_ok hqueue hput hok
  rw [contentRange, rangeOffset_decimal, Option.some.injEq, min_eq_left hoffset] at hrange
  rw [hbody, ← hrange] at hle hfile
  exact ⟨hle, hfile⟩

/-- The pieces of a file that the node has taken are one write. -/
theorem run_tiles {path clen : Text} {offset : ℕ} {rest : Bytes} {past reqs : List PutRequest}
    (hne : reqs ≠ []) (hoffset : offset ≤ maxOffset) (htiles : Tiles path clen offset rest reqs)
    (hanswered : Answered node.respond past reqs) :
    node.run past.length (node.after past) reqs = some (pwrite ((node.after past).getD []) offset rest) := by
  induction reqs generalizing past offset rest with
  | nil => exact absurd rfl hne
  | cons req reqs ih =>
    cases htiles with
    | cons hdata hle htiles =>
      rename_i data rest
      obtain ⟨line, status, hline, hstatus, hok⟩ := hanswered [] _ reqs rfl
      rw [List.append_nil] at hline
      obtain ⟨hmax, hfile⟩ := handle_of_answered hoffset hdata hline hstatus hok
      generalize hreq : (⟨path, contentRange offset (offset + data.length - 1) clen, data⟩ : PutRequest) = req at *
      have hafter : node.after (past ++ [req]) = some (pwrite ((node.after past).getD []) offset data) := by
        rw [after, run_append, Nat.zero_add]
        exact hfile
      have hrest : Answered node.respond (past ++ [req]) reqs := by
        intro before req' later hsplit
        have hpart := hanswered (req :: before) req' later (by rw [hsplit, List.cons_append])
        rwa [List.append_assoc]
      rw [run, hfile]
      cases reqs with
      | nil =>
        cases htiles
        rw [List.append_nil]
        rfl
      | cons req' reqs =>
        have hrun := ih (List.cons_ne_nil _ _) hmax htiles hrest
        rw [hafter, List.length_append, List.length_singleton, Option.getD_some, pwrite_append] at hrun
        exact hrun

end DestNode

/-! ### The copy and the node -/

section

variable {cfg : CopyConfig} {devs : DeviceMap} {sdevid ddevid fid : ℕ} {expectedClen : Option ℕ} {w : CopyWorld}

theorem tiles_of_copied {reqs : List PutRequest}
    (hlength : ∀ clen, readHead w.head none = .ok (some clen) → Text.ofDigits clen = w.body.length)
    (h : httpCopy cfg devs sdevid ddevid fid expectedClen w = (.copied, reqs)) :
    reqs ≠ [] ∧ Answered w.respond [] reqs ∧
      ∃ path clen, Text.ofDigits clen = w.body.length ∧ Tiles path clen 0 w.body reqs := by
  rcases httpCopy_cases cfg devs sdevid ddevid fid expectedClen w with ⟨-, source, dest, spath, dpath, heq⟩ | ⟨-, hnot⟩
  · rw [h, transfer] at heq
    split at heq
    · cases (Prod.mk.inj heq).1
    split at heq
    · cases (Prod.mk.inj heq).1
    split at heq
    · cases (Prod.mk.inj heq).1
    rename_i found hfound
    split at heq
    · cases (Prod.mk.inj heq).1
    rename_i clen hclen
    split at heq
    · cases (Prod.mk.inj heq).1
    have hsome : found = some clen := (Option.filter_eq_some_iff.mp hclen).1
    have htrue := hlength clen (hsome ▸ hfound)
    rw [htrue] at heq
    obtain ⟨new, rfl, hne, htiles, hanswered⟩ := putBlocks_copied heq.symm
    exact ⟨hne, hanswered, dpath, clen, htrue, htiles⟩
  · rw [h] at hnot
    exact absurd trivial hnot

/-- A copy that succeeds has sent the file in pieces that tile it. The file at the destination is then the one at
the source exactly if what was there before is not longer. -/
theorem copied_exactly_iff (cfg : CopyConfig) (devs : DeviceMap) (sdevid ddevid fid : ℕ) (expectedClen : Option ℕ)
    (w : CopyWorld) (node : DestNode) (hnode : w.respond = node.respond)
    (hlength : ∀ clen, readHead w.head none = .ok (some clen) → Text.ofDigits clen = w.body.length)
    (hcopied : (httpCopy cfg devs sdevid ddevid fid expectedClen w).1 = .copied) :
    (∃ path clen, Text.ofDigits clen = w.body.length ∧
        Tiles path clen 0 w.body (httpCopy cfg devs sdevid ddevid fid expectedClen w).2) ∧
      (node.after (httpCopy cfg devs sdevid ddevid fid expectedClen w).2 = some w.body ↔
        (node.file.getD []).length ≤ w.body.length) := by
  generalize hrun : httpCopy cfg devs sdevid ddevid fid expectedClen w = run at hcopied ⊢
  obtain ⟨result, reqs⟩ := run
  obtain rfl : result = .copied := hcopied
  obtain ⟨hne, hanswered, path, clen, hclen, htile⟩ := tiles_of_copied hlength hrun
  rw [hnode] at hanswered
  have hafter : node.after reqs = some (pwrite (node.file.getD []) 0 w.body) :=
    DestNode.run_tiles hne (Nat.zero_le _) htile hanswered
  have hwritten : pwrite (node.file.getD []) 0 w.body = w.body ++ (node.file.getD []).drop w.body.length := by
    rw [pwrite_eq (Nat.zero_le _), List.take_zero, List.nil_append, Nat.zero_add]
  refine ⟨⟨path, clen, hclen, htile⟩, ?_⟩
  rw [hafter, hwritten, Option.some.injEq, List.append_right_eq_self]
  exact List.drop_eq_nil_iff

end

/-! ### A longer file -/

/-- A tracker of volume 0. -/
def volumeZero : CopyConfig := ⟨some "0".toList, false⟩

/-- A source with a file of five bytes, which come in three reads. -/
def threeReads (respond : List PutRequest → PutRequest → Option Text) : CopyWorld where
  connects := true
  pipeClosed := false
  head := ["HTTP/1.0 200 OK\r\n".toList, "Content-length: 5\r\n".toList, "\r\n".toList]
  body := [1, 2, 3, 4, 5]
  turns := [⟨2, true, true, false, some 2, false⟩, ⟨2, true, true, false, some 2, false⟩,
    ⟨1, true, true, false, some 1, false⟩]
  readErr := []
  respond := respond

/-- A node on which nothing goes wrong. -/
def calmNode (file : Option Bytes) : DestNode where
  file := file
  env _ := ⟨false, true, none, none, false, fun _ => .wrote 1⟩
  queue _ body := if h : body = [] then [] else [⟨.mem, body, h⟩]
  bodyBytes_queue n body := by
    by_cases h : body = []
    · rw [dif_pos h, h]
      rfl
    · rw [dif_neg h]
      exact List.flatMap_singleton Chunk.data _
  reason _ := "OK".toList

theorem length_threeReads (respond : List PutRequest → PutRequest → Option Text) (clen : Text)
    (h : readHead (threeReads respond).head none = .ok (some clen)) :
    Text.ofDigits clen = (threeReads respond).body.length := by
  have hread : readHead (threeReads fun _ _ => none).head none = .ok (some "5".toList) := by decide +kernel
  obtain rfl : "5".toList = clen := Option.some.inj (Except.ok.inj (hread.symm.trans h))
  rfl

/-- Over a file of two bytes the copy is exact. -/
theorem copied_exactly_twoBytes :
    let node := calmNode (some [7, 8])
    let run := httpCopy volumeZero twoHosts 1 3 5 none (threeReads node.respond)
    run.2.length = 3 ∧ (∃ path clen, Text.ofDigits clen = 5 ∧ Tiles path clen 0 [1, 2, 3, 4, 5] run.2) ∧
      node.after run.2 = some [1, 2, 3, 4, 5] := by
  intro node run
  have hexact := copied_exactly_iff volumeZero twoHosts 1 3 5 none (threeReads node.respond) node rfl
    (length_threeReads _) (by decide +kernel)
  exact ⟨by decide +kernel, hexact.1, hexact.2.mpr (by decide)⟩

/-- Of a file with seven bytes the last two are still there after a copy of five. -/
theorem copied_not_exactly_sevenBytes :
    ¬ ∀ (cfg : CopyConfig) (devs : DeviceMap) (sdevid ddevid fid : ℕ) (w : CopyWorld) (node : DestNode),
      w.respond = node.respond →
      (∀ clen, readHead w.head none = .ok (some clen) → Text.ofDigits clen = w.body.length) →
      (httpCopy cfg devs sdevid ddevid fid none w).1 = .copied →
      node.after (httpCopy cfg devs sdevid ddevid fid none w).2 = some w.body := by
  intro h
  let node := calmNode (some [11, 12, 13, 14, 15, 16, 17])
  have hexact := h volumeZero twoHosts 1 3 5 (threeReads node.respond) node rfl (length_threeReads _)
    (by decide +kernel)
  have hafter : node.after (httpCopy volumeZero twoHosts 1 3 5 none (threeReads node.respond)).2 =
      some [1, 2, 3, 4, 5, 16, 17] := by
    decide +kernel
  rw [hafter] at hexact
  exact absurd hexact (by decide)

end Ylem
