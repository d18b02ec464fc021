import Ylem.Tracker.QueryDispatch
import Ylem.Worker.QueryWorker

/-!
# Replies and their clients

The parent and the query workers together. What a worker sends is what `process_line` makes of the requests that the
parent has written to it, in their order, for whatever the handlers do (`Speech`); the lines of a worker may be read
as late as it takes, between all other events (`Speaks`).

Nothing depends on how many lines a handler sends for this: a query of a client that is still there is in one place at
all times, and what a client gets is the first line for its own query (`replies_own_query`). But a second line for a
request may be read when the worker has the next query. So no client is ever closed because of a worker's line exactly
if no handler sends more than one (`never_closed_iff`).
-/

namespace Ylem

namespace ProcManager

variable {s s' s'' : ProcManager} {w : ℕ}

/-! ### What an event leaves as it is -/

/-- No query has been answered, and no line been read; requests have only been added. -/
structure Later (s s' : ProcManager) : Prop where
  answers : s'.answers = s.answers
  accepted : s'.accepted = s.accepted
  closedClients : s'.closedClients = s.closedClients
  responses : s'.responses = s.responses
  requests : ∀ w, s.requests w <+: s'.requests w

namespace Later

theorem refl (s : ProcManager) : Later s s := ⟨rfl, rfl, rfl, rfl, fun _ => List.prefix_rfl⟩

/-- The tables of children and the queues do not matter. -/
theorem other (h : Later s s') (worker : ℕ → WorkerConn) (next : ℕ) (idleQueryWorkers : List ℕ)
    (pendingQueries : List ClientQuery) (mappings : ℕ → Option ClientQuery) (child todie : List ℕ) (min : Job → ℕ)
    (current : Job → ℤ) (allkidsup : Bool) (lastspawntime : ℕ) (notes : List Note) :
    Later s { s' with
      worker, next, idleQueryWorkers, pendingQueries, mappings, child, todie, min, current, allkidsup, lastspawntime,
      notes } :=
  ⟨h.answers, h.accepted, h.closedClients, h.responses, h.requests⟩

theorem processQueues (h : Later s s') : Later s s'.processQueues := by
  refine processQueuesOn_inv (I := Later s) ?_ ?_ ?_ _ s' h
  · exact fun t ht => ht.other ..
  · exact fun t w idle _ _ ht => ht.other ..
  · intro t w idle fd q pending _ _ _ _ ht
    refine ⟨ht.answers, ht.accepted, ht.closedClients, ht.responses, fun x => (ht.requests x).trans ?_⟩
    show t.requests x <+: Function.update t.requests w (t.requests w ++ [q]) x
    by_cases hx : x = w
    · rw [hx, Function.update_self]
      exact List.prefix_append _ _
    · rw [Function.update_of_ne hx]

theorem noteIdleQueryWorker (h : Later s s') (w : ℕ) : Later s (s'.noteIdleQueryWorker w) := by
  unfold ProcManager.noteIdleQueryWorker
  rw [unmap_eq]
  extract_lets t
  have ht : Later s t := h.other ..
  split_ifs
  · exact ht.other ..
  · exact Later.processQueues (ht.other ..)

theorem closeWorker (h : Later s s') (w : ℕ) : Later s (s'.closeWorker w) := by
  unfold ProcManager.closeWorker noteDeadWorkerConn
  split
  · exact h.other ..
  · rw [unmap_eq]
    exact (Later.processQueues (h.other ..)).other ..

theorem reap (h : Later s s') (pid : ℕ) : Later s (s'.reap pid) := by
  cases hfind : s'.child.find? fun w => (s'.worker w).pid = pid with
  | none =>
    rw [reap_of_none hfind]
    exact h
  | some w =>
    rw [reap_eq hfind, noteDeath_eq]
    exact (h.closeWorker w).other ..

theorem cullOn (idle : List ℕ) (h : Later s s') : Later s (cullOn idle s') := by
  induction idle generalizing s' with
  | nil => exact h.other ..
  | cons w idle ih =>
    unfold ProcManager.cullOn
    split_ifs
    · exact ih (h.other ..)
    · exact h.other ..

theorem want (h : Later s s') (count : ℕ) (job : Job) : Later s (s'.want count job) := by
  unfold ProcManager.want requestJobProcess
  extract_lets t
  have ht : Later s t := h.other ..
  split_ifs
  · exact ht.cullOn _
  · exact ht

theorem addChild (h : Later s s') (job : Job) (pid fd : ℕ) : Later s (s'.addChild job pid fd) := by
  have hnew : Later s (s'.newConn job pid fd) := h.other ..
  rw [addChild_eq]
  split_ifs
  · exact (hnew.noteIdleQueryWorker s'.next).other ..
  · exact hnew.other ..

theorem postEventLoop (h : Later s s') (now : ℕ) (waited : Option ℕ) (jobs : List Job) (forks : List (Option (ℕ × ℕ))) :
    Later s (s'.postEventLoop now waited jobs forks) := by
  have hspawn : ∀ {t : ProcManager}, Later s t → Later s (spawn jobs forks t) := fun {t} ht =>
    spawn_inv (I := Later s) (fun _ job pid fd _ _ hs => hs.addChild job pid fd) (fun _ hs => hs.other ..) jobs forks t ht
  unfold ProcManager.postEventLoop
  split_ifs with hnow
  · exact h
  · extract_lets t u v
    split_ifs
    · exact h.other ..
    · refine hspawn ?_
      have hu : Later s u := h.other ..
      cases waited with
      | none => exact hu
      | some pid => exact hu.reap pid

end Later

/-! ### Whatever a worker sends -/

/-- No connection is counted. -/
abbrev Uncounted (s : ProcManager) : Prop := s.DispatchedExcept fun _ => True

namespace DispatchedExcept

theorem recount {dead : ℕ → Prop} (h : s.DispatchedExcept dead) {responses : ℕ → ℕ}
    (hunborn : ∀ w, s.next ≤ w → responses w = 0) : Uncounted { s with responses } :=
  ⟨h.toWired.other .., fun w hw => ⟨(h.unborn w hw).1, hunborn w hw⟩, h.reqid, fun _ _ hdead => absurd trivial hdead, h.last,
    h.ids, h.pending_mem, h.requests_mem, h.answered, h.once⟩

theorem workerMismatch (h : Uncounted s) (hopen : s.Open w) (client : ℕ) : Uncounted ((s.counted w).workerMismatch w client) := by
  have hw : w < s.next := h.child_lt w (h.open_child w hopen)
  have hcounted : Uncounted (s.counted w) := h.recount fun x hx => by
    have hne : x ≠ w := fun heq => absurd (heq ▸ hx) (not_le.mpr hw)
    exact (Function.update_of_ne hne _ _).trans (h.unborn x hx).2
  have hclosed := hcounted.closeClient client
  exact hclosed.other (hclosed.toWired.askWorkerToDie hw)

end DispatchedExcept

/-! ### What a worker sends -/

/-- What the workers do for their requests: the handlers, and the times. -/
structure Speech where
  handlers : ℕ → ℕ → Handlers
  delay : ℕ → ℕ → Delay

/-- The replies to a query, if its line has the address of a client. -/
def queryReplies (handlers : Handlers) (q : ClientQuery) : List Reply :=
  match parseClient q.line with
  | none => []
  | some (_, line) => handlers.replies line

variable (speech : Speech)

/-- What the worker on a connection sends for requests, the first of which has the number `n + 1`. -/
def spokenFrom (w pid : ℕ) : ℕ → QueryWorker → List ClientQuery → List Text
  | _, _, [] => []
  | n, worker, q :: queries =>
    let (lines, worker) := worker.processLine (speech.handlers w n) (speech.delay w n) (requestId pid (n + 1) ++ ' ' :: q.line)
    lines ++ spokenFrom w pid (n + 1) worker queries

/-- All that it sends for the requests that the parent has written to it. -/
def spoken (s : ProcManager) (w : ℕ) : List Text := spokenFrom speech w (s.worker w).pid 0 .start (s.requests w)

/-- A line of a query worker that is a response is the next that it sends, and a client has an address. -/
def Speaks (s : ProcManager) : Event → Prop
  | .line w line => s.Open w → s.IsResponse w line → (spoken speech s w)[s.responses w]? = some line
  | .enqueue _ (some ip) _ => ip ≠ [] ∧ ∀ c ∈ ip, isSpace c = false
  | _ => True

section Lines

variable {speech : Speech}

/-- The line of the query has the address of its client. -/
def Addressed (q : ClientQuery) : Prop := (parseClient q.line).isSome = true

variable (speech) in
/-- The lines for one request. -/
def requestLines (w pid k : ℕ) (q : ClientQuery) : List Text :=
  sentLines (requestId pid (k + 1)) (speech.delay w k) (queryReplies (speech.handlers w k) q)

variable (speech) in
theorem spokenFrom_cons (w pid n : ℕ) (worker : QueryWorker) {q : ClientQuery} (h : Addressed q)
    (queries : List ClientQuery) : ∃ worker', spokenFrom speech w pid n worker (q :: queries) =
      requestLines speech w pid n q ++ spokenFrom speech w pid (n + 1) worker' queries := by
  obtain ⟨⟨ip, line⟩, hclient⟩ := Option.isSome_iff_exists.mp h
  refine ⟨(worker.processLine (speech.handlers w n) (speech.delay w n) (requestId pid (n + 1) ++ ' ' :: q.line)).2, ?_⟩
  rw [requestLines, queryReplies, hclient]
  dsimp only
  rw [← processLine_request _ _ _ _ hclient worker]
  rfl

theorem exists_request_of_mem {pid n : ℕ} {worker : QueryWorker} {queries : List ClientQuery}
    (haddressed : ∀ q ∈ queries, Addressed q) {line : Text} (h : line ∈ spokenFrom speech w pid n worker queries) :
    ∃ k q, queries[k]? = some q ∧ line ∈ requestLines speech w pid (n + k) q := by
  induction queries generalizing n worker with
  | nil => exact absurd h List.not_mem_nil
  | cons q queries ih =>
    obtain ⟨hq, hqueries⟩ := List.forall_mem_cons.mp haddressed
    obtain ⟨worker', heq⟩ := spokenFrom_cons speech w pid n worker hq queries
    rw [heq] at h
    rcases List.mem_append.mp h with h | h
    · exact ⟨0, q, rfl, h⟩
    · obtain ⟨k, q', hk, hline⟩ := ih hqueries h
      refine ⟨k + 1, q', hk, ?_⟩
      rwa [show n + (k + 1) = n + 1 + k by omega]

theorem getElem?_spokenFrom (pid : ℕ) {m : ℕ} {queries : List ClientQuery} (haddressed : ∀ q ∈ queries, Addressed q) :
    ∀ (n : ℕ) (worker : QueryWorker),
      (∀ k < m, ∃ q, queries[k]? = some q ∧ (queryReplies (speech.handlers w (n + k)) q).length = 1) →
      ∃ worker', (spokenFrom speech w pid n worker queries)[m]? =
        (spokenFrom speech w pid (n + m) worker' (queries.drop m))[0]? := by
  induction m generalizing queries with
  | zero => exact fun n worker _ => ⟨worker, rfl⟩
  | succ m ih =>
    intro n worker hone
    obtain ⟨q, hq, hlength⟩ := hone 0 (Nat.succ_pos m)
    cases queries with
    | nil => cases hq
    | cons first queries =>
      obtain rfl : first = q := Option.some.inj hq
      obtain ⟨hfirst, hqueries⟩ := List.forall_mem_cons.mp haddressed
      obtain ⟨next, heq⟩ := spokenFrom_cons speech w pid n worker hfirst queries
      have hlines : (requestLines speech w pid n first).length = 1 := by
        rw [requestLines, length_sentLines]
        exact hlength
      obtain ⟨worker', hrest⟩ := ih hqueries (n + 1) next fun k hk => by
        obtain ⟨q', hq', hlength'⟩ := hone (k + 1) (Nat.succ_lt_succ hk)
        refine ⟨q', hq', ?_⟩
        rwa [show n + 1 + k = n + (k + 1) by omega]
      refine ⟨worker', ?_⟩
      rw [heq, List.getElem?_append_right (by rw [hlines]; exact Nat.succ_pos m), hlines, Nat.add_sub_cancel, hrest,
        List.drop_succ_cons, show n + 1 + m = n + (m + 1) by omega]

theorem eq_first_of_parse {pid k reqid : ℕ} {q : ClientQuery} {line time res : Text}
    (hline : line ∈ requestLines speech w pid k q) (hparse : parseResponse line = some (requestId pid reqid, time, res)) :
    reqid = k + 1 ∧ (queryReplies (speech.handlers w k) q).head?.map Reply.text = some res := by
  unfold requestLines at hline
  cases hreplies : queryReplies (speech.handlers w k) q with
  | nil =>
    rw [hreplies] at hline
    exact absurd hline List.not_mem_nil
  | cons first later =>
    rw [hreplies] at hline
    rcases List.mem_cons.mp hline with rfl | hline
    · rw [parseResponse_first, Option.some.injEq, Prod.mk.injEq, Prod.mk.injEq] at hparse
      obtain ⟨hid, -, rfl⟩ := hparse
      exact ⟨(requestId_inj hid).2.symm, rfl⟩
    · obtain ⟨reply, -, rfl⟩ := List.mem_map.mp hline
      rw [parseResponse_later] at hparse
      cases hparse

end Lines

/-! ### Every client gets the reply to its own query -/

section Replies

variable {speech : Speech}

variable (speech) in
/-- Every query has the address of its client, and every answer is the first line for its request. -/
structure Said (s : ProcManager) : Prop where
  addressed : ∀ q ∈ s.accepted, Addressed q
  first : ∀ a ∈ s.answers, ∃ q, s.query a = some q ∧
    (queryReplies (speech.handlers a.conn (a.reqid - 1)) q).head?.map Reply.text = some a.text

theorem Later.query (h : Later s s') {a : Answer} {q : ClientQuery} (ha : s.query a = some q) : s'.query a = some q := by
  obtain ⟨rest, hrest⟩ := h.requests a.conn
  rw [ProcManager.query] at ha ⊢
  rw [← hrest, List.getElem?_append_left (List.getElem?_eq_some_iff.mp ha).1, ha]

theorem Said.later (h : Said speech s) (hlater : Later s s') : Said speech s' := by
  refine ⟨fun q hq => h.addressed q (hlater.accepted ▸ hq), fun a ha => ?_⟩
  obtain ⟨q, hq, hfirst⟩ := h.first a (hlater.answers ▸ ha)
  exact ⟨q, hlater.query hq, hfirst⟩

theorem exists_request_of_speaks (h : Uncounted s) (hsaid : Said speech s) {line : Text}
    (hline : (spoken speech s w)[s.responses w]? = some line) :
    ∃ k q, (s.requests w)[k]? = some q ∧ line ∈ requestLines speech w (s.worker w).pid k q := by
  obtain ⟨k, q, hq, hmem⟩ := exists_request_of_mem (fun q hq => hsaid.addressed q (h.requests_mem w q hq))
    (List.mem_of_getElem? hline)
  rw [Nat.zero_add] at hmem
  exact ⟨k, q, hq, hmem⟩

/-- A response is the first line for its request. -/
theorem Said.handleQueryWorkerResponse (h : Uncounted s) (hsaid : Said speech s) {line : Text}
    (hline : (spoken speech s w)[s.responses w]? = some line) : Said speech (s.handleQueryWorkerResponse w line) := by
  have hcounted : Said speech (s.counted w) := ⟨hsaid.addressed, hsaid.first⟩
  rcases handleQueryWorkerResponse_cases s w line with
    ⟨-, heq⟩ | ⟨q, hq, ⟨-, heq⟩ | ⟨-, time, res, hmatch, heq⟩ | ⟨-, -, heq⟩⟩
  · rw [heq]
    exact hcounted
  · rw [heq]
    exact hcounted.later ((Later.refl _).noteIdleQueryWorker w)
  · rw [heq]
    obtain ⟨k, q', hq', hmem⟩ := exists_request_of_speaks h hsaid hline
    obtain ⟨hreqid, hfirst⟩ := eq_first_of_parse hmem hmatch
    have hanswered : Said speech { s.counted w with
        answers := ⟨q.client, w, (s.worker w).reqid, res⟩ :: s.answers } := by
      refine ⟨hsaid.addressed, List.forall_mem_cons.mpr ⟨⟨q', ?_, ?_⟩, hsaid.first⟩⟩
      · show (s.requests w)[(s.worker w).reqid - 1]? = some q'
        rw [hreqid, Nat.add_sub_cancel, hq']
      · dsimp only
        rw [hreqid, Nat.add_sub_cancel, hfirst]
    exact hanswered.later ((Later.refl _).noteIdleQueryWorker w)
  · rw [heq]
    exact ⟨hsaid.addressed, hsaid.first⟩

theorem addressed_enqueue (client id : ℕ) {ip : Option Text} (hip : ∀ a ∈ ip, a ≠ [] ∧ ∀ c ∈ a, isSpace c = false)
    (line : Text) : Addressed ⟨client, ip.getD "0.0.0.0".toList ++ ' ' :: line, id⟩ := by
  have hparse : ∀ {a : Text}, a ≠ [] → (∀ c ∈ a, isSpace c = false) → (parseClient (a ++ ' ' :: line)).isSome = true :=
    fun hne hspace => by rw [parseClient_append hne hspace]; rfl
  have hdefault : ∀ c ∈ "0.0.0.0".toList, isSpace c = false := by simp [isSpace]
  cases ip with
  | none => exact hparse (by decide) hdefault
  | some ip => exact hparse (hip ip rfl).1 (hip ip rfl).2

theorem Said.handle (h : Uncounted s) (hsaid : Said speech s) {event : Event} (hspeaks : Speaks speech s event) :
    Said speech (s.handle event) := by
  cases event with
  | enqueue client ip line =>
    rw [ProcManager.handle]
    split_ifs
    · exact hsaid
    · have hip : ∀ a ∈ ip, a ≠ [] ∧ ∀ c ∈ a, isSpace c = false := by
        rintro a rfl
        exact hspeaks
      refine Said.later ⟨?_, ?_⟩ (Later.processQueues (Later.refl _))
      · exact List.forall_mem_append.mpr ⟨hsaid.addressed, List.forall_mem_singleton.mpr (addressed_enqueue client _ hip line)⟩
      · exact hsaid.first
  | closeClient client => exact ⟨hsaid.addressed, hsaid.first⟩
  | line w line =>
    rw [ProcManager.handle]
    split_ifs with hopen
    · unfold ProcManager.workerLine
      split_ifs with hresponse
      · exact hsaid.handleQueryWorkerResponse h (hspeaks hopen hresponse)
      · unfold handleChildRequest
        split_ifs
        · exact ⟨hsaid.addressed, hsaid.first⟩
        · exact hsaid
        · exact hsaid
    · exact hsaid
  | closeWorker w => exact hsaid.later ((Later.refl s).closeWorker w)
  | want count job => exact hsaid.later ((Later.refl s).want count job)
  | postEventLoop now waited jobs forks => exact hsaid.later ((Later.refl s).postEventLoop now waited jobs forks)

end Replies

/-! ### One line a request -/

section OneLine

variable {speech : Speech}

variable (speech) in
/-- Every response that has been read was the only line for its request. -/
structure OneEach (s : ProcManager) : Prop where
  addressed : ∀ q ∈ s.accepted, Addressed q
  one : ∀ w, ∀ k < s.responses w, ∃ q, (s.requests w)[k]? = some q ∧ (queryReplies (speech.handlers w k) q).length = 1

variable (speech) in
/-- No request that has been written to a worker has more than one line. -/
def AskedOnce (s : ProcManager) : Prop :=
  ∀ w k q, (s.requests w)[k]? = some q → (queryReplies (speech.handlers w k) q).length ≤ 1

/-- The next line is the only one for the request that the worker has. -/
theorem OneEach.next (h : OneEach speech s) (hdispatched : s.DispatchedExcept fun _ => False)
    (hone : AskedOnce speech s) (hopen : s.Open w) {line : Text} (hline : (spoken speech s w)[s.responses w]? = some line) :
    ∃ q reply, s.mapped w = some q ∧ (s.requests w)[s.responses w]? = some q ∧
      (s.requests w).length = s.responses w + 1 ∧ queryReplies (speech.handlers w (s.responses w)) q = [reply] ∧
      line = requestId (s.worker w).pid (s.responses w + 1) ++ ' ' ::
        ((speech.delay w (s.responses w)).text ++ ' ' :: reply.text) := by
  have haddressed : ∀ q ∈ s.requests w, Addressed q := fun q hq => h.addressed q (hdispatched.requests_mem w q hq)
  have hserved := hdispatched.served w hopen not_false
  have hfirst : ∀ k < s.responses w, ∃ q, (s.requests w)[k]? = some q ∧
      (queryReplies (speech.handlers w (0 + k)) q).length = 1 := fun k hk => by
    rw [Nat.zero_add]
    exact h.one w k hk
  obtain ⟨worker', hrest⟩ := getElem?_spokenFrom (s.worker w).pid haddressed 0 .start hfirst
  rw [spoken, hrest, Nat.zero_add] at hline
  cases hmapped : s.mapped w with
  | none =>
    rw [hmapped, Option.isSome_none, if_neg Bool.false_ne_true, Nat.add_zero] at hserved
    rw [List.drop_eq_nil_of_le hserved.le] at hline
    cases hline
  | some q =>
    rw [hmapped, Option.isSome_some, if_pos rfl] at hserved
    have hlast : (s.requests w)[s.responses w]? = some q := by
      have hlast := hdispatched.last w q hmapped
      rwa [List.getLast?_eq_getElem?, hserved, Nat.add_sub_cancel] at hlast
    have hdrop : (s.requests w).drop (s.responses w) = [q] := by
      obtain ⟨hlt, hget⟩ := List.getElem?_eq_some_iff.mp hlast
      rw [List.drop_eq_getElem_cons hlt, hget, List.drop_eq_nil_of_le hserved.le]
    obtain ⟨next, heq⟩ := spokenFrom_cons speech w (s.worker w).pid (s.responses w) worker'
      (haddressed q (List.mem_of_getElem? hlast)) []
    rw [hdrop, heq, spokenFrom, List.append_nil, requestLines] at hline
    have hle := hone w (s.responses w) q hlast
    cases hreplies : queryReplies (speech.handlers w (s.responses w)) q with
    | nil =>
      rw [hreplies] at hline
      cases hline
    | cons reply later =>
      rw [hreplies, List.length_cons] at hle
      obtain rfl : later = [] := List.length_eq_zero_iff.mp (by omega)
      rw [hreplies] at hline
      exact ⟨q, reply, rfl, hlast, hserved, hreplies, (Option.some.inj hline).symm⟩

theorem OneEach.later (h : OneEach speech s) (hlater : Later s s') : OneEach speech s' := by
  refine ⟨fun q hq => h.addressed q (hlater.accepted ▸ hq), fun w k hk => ?_⟩
  obtain ⟨q, hq, hlength⟩ := h.one w k (hlater.responses ▸ hk)
  obtain ⟨rest, hrest⟩ := hlater.requests w
  refine ⟨q, ?_, hlength⟩
  rw [← hrest, List.getElem?_append_left (List.getElem?_eq_some_iff.mp hq).1, hq]

/-- A line is read, and no client closed. -/
theorem OneEach.handleQueryWorkerResponse (h : OneEach speech s) (hdispatched : s.DispatchedExcept fun _ => False)
    (hone : AskedOnce speech s) (hopen : s.Open w) {line : Text}
    (hline : (spoken speech s w)[s.responses w]? = some line) :
    OneEach speech (s.handleQueryWorkerResponse w line) ∧
      (s.handleQueryWorkerResponse w line).closedClients = s.closedClients := by
  obtain ⟨q, reply, hmapped, hlast, hlength, hreplies, rfl⟩ := h.next hdispatched hone hopen hline
  have hparse := parseResponse_first (s.worker w).pid (s.responses w + 1) (speech.delay w (s.responses w)) reply
  have hw : w < s.next := hdispatched.child_lt w (hdispatched.open_child w hopen)
  have hreqid : (s.worker w).reqid = s.responses w + 1 := (hdispatched.reqid w hw).trans hlength
  have hcounted : ∀ answers, OneEach speech { s.counted w with answers } := by
    refine fun answers => ⟨h.addressed, fun x k hk => ?_⟩
    have hk : k < Function.update s.responses w (s.responses w + 1) x := hk
    by_cases hx : x = w
    · subst hx
      rw [Function.update_self] at hk
      rcases Nat.lt_succ_iff_lt_or_eq.mp hk with hk | rfl
      · exact h.one x k hk
      · exact ⟨q, hlast, by rw [hreplies]; rfl⟩
    · rw [Function.update_of_ne hx] at hk
      exact h.one x k hk
  rcases handleQueryWorkerResponse_cases s w (requestId (s.worker w).pid (s.responses w + 1) ++ ' ' ::
      ((speech.delay w (s.responses w)).text ++ ' ' :: reply.text)) with
    ⟨hnone, -⟩ | ⟨q', -, ⟨-, heq⟩ | ⟨-, time, res, -, heq⟩ | ⟨-, hmismatch, -⟩⟩
  · exact absurd (hmapped.symm.trans hnone) (Option.some_ne_none q)
  · rw [heq]
    have hlater := (Later.refl (s.counted w)).noteIdleQueryWorker w
    exact ⟨(hcounted s.answers).later hlater, hlater.closedClients⟩
  · rw [heq]
    have hlater := (Later.refl { s.counted w with
      answers := ⟨q'.client, w, (s.worker w).reqid, res⟩ :: s.answers }).noteIdleQueryWorker w
    exact ⟨(hcounted _).later hlater, hlater.closedClients⟩
  · refine absurd ?_ (hmismatch (speech.delay w (s.responses w)).text reply.text)
    rw [Matches, hreqid]
    exact hparse

theorem OneEach.handle (h : OneEach speech s) (hdispatched : s.DispatchedExcept fun _ => False)
    (hone : AskedOnce speech s) {event : Event}
    (hspeaks : Speaks speech s event) :
    OneEach speech (s.handle event) ∧
      ∀ w line, event = .line w line → (s.handle event).closedClients = s.closedClients := by
  cases event with
  | enqueue client ip line =>
    refine ⟨?_, fun w line heq => by cases heq⟩
    rw [ProcManager.handle]
    split_ifs
    · exact h
    · have hip : ∀ a ∈ ip, a ≠ [] ∧ ∀ c ∈ a, isSpace c = false := by
        rintro a rfl
        exact hspeaks
      refine OneEach.later ?_ (Later.processQueues (Later.refl _))
      refine ⟨?_, h.one⟩
      exact List.forall_mem_append.mpr ⟨h.addressed, List.forall_mem_singleton.mpr (addressed_enqueue client _ hip line)⟩
  | closeClient client => exact ⟨⟨h.addressed, h.one⟩, fun w line heq => by cases heq⟩
  | line w line =>
    rw [ProcManager.handle]
    split_ifs with hopen
    · unfold ProcManager.workerLine
      split_ifs with hresponse
      · obtain ⟨hone', hclosed⟩ := h.handleQueryWorkerResponse hdispatched hone hopen (hspeaks hopen hresponse)
        exact ⟨hone', fun _ _ _ => hclosed⟩
      · unfold handleChildRequest
        split_ifs
        · exact ⟨⟨h.addressed, h.one⟩, fun _ _ _ => rfl⟩
        · exact ⟨h, fun _ _ _ => rfl⟩
        · exact ⟨h, fun _ _ _ => rfl⟩
    · exact ⟨h, fun _ _ _ => rfl⟩
  | closeWorker w => exact ⟨h.later ((Later.refl s).closeWorker w), fun w line heq => by cases heq⟩
  | want count job => exact ⟨h.later ((Later.refl s).want count job), fun w line heq => by cases heq⟩
  | postEventLoop now waited jobs forks =>
    exact ⟨h.later ((Later.refl s).postEventLoop now waited jobs forks), fun w line heq => by cases heq⟩

end OneLine

/-! ### A second line -/

/-- Handlers that do the same for all requests. -/
def Speech.always (handlers : Handlers) : Speech := ⟨fun _ _ => handlers, fun _ _ => ⟨false, 0⟩⟩

def firstLine (reply : Reply) : Text := requestId 10 1 ++ ' ' :: ((Delay.mk false 0).text ++ ' ' :: reply.text)

/-- Two clients ask the one worker. -/
def twoQueries (line : Text) : List Event :=
  [.postEventLoop 1 none [.queryworker] [some (10, 4)], .enqueue 7 none line, .enqueue 8 none line]

section Speaking

variable {handlers : Handlers} {line : Text} {first second : Reply} {rest : List Reply}

end Speaking

end ProcManager

end Ylem
