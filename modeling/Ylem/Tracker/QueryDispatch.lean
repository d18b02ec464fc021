import Ylem.Tracker.Connections

/-!
# No query is lost or answered twice

As long as every query worker answers its requests in their order, each with one response that has its id, a query of
a client that is still there is at all times in one place: it waits, one open worker connection has it, or it has been
answered. `DispatchedExcept` is the invariant; it counts the requests of each open connection against its responses,
so that the response that comes next is that to the query which the worker has. While the end of a connection is
noted, the count of this one connection is off.
-/

namespace Ylem

namespace ProcManager

variable {s : ProcManager} {w : ℕ} {dead : ℕ → Prop}

/-- The query that an answer is the response to. -/
def query (s : ProcManager) (a : Answer) : Option ClientQuery := (s.requests a.conn)[a.reqid - 1]?

/-- The worker connections that have the query. -/
def holders (s : ProcManager) (q : ClientQuery) : ℕ := (List.range s.next).countP fun w => decide (s.mapped w = some q)

/-- In how many places the query is. -/
def places (s : ProcManager) (q : ClientQuery) : ℕ :=
  s.pendingQueries.count q + s.holders q + s.answers.countP fun a => decide (s.query a = some q)

/-- Every query that was accepted from a client which is still there is in one place, an open connection if it is
that of a worker; every answer is that to a query of the client which got it; and no idle worker has a query. -/
structure Dispatched (s : ProcManager) : Prop where
  once : ∀ q ∈ s.accepted, ¬ s.ClientClosed q.client → s.places q = 1
  live : ∀ w q, s.mapped w = some q → s.Open w
  client : ∀ a ∈ s.answers, ∃ q ∈ s.accepted, s.query a = some q ∧ a.client = q.client
  idle : ∀ w ∈ s.idleQueryWorkers, s.mapped w = none

/-- The line is the response to the next request of the worker. -/
def Responds (s : ProcManager) : Event → Prop
  | .line w line => s.Open w → s.IsResponse w line → s.responses w < (s.requests w).length ∧
      ∃ time res, parseResponse line = some (requestId (s.worker w).pid (s.responses w + 1), time, res)
  | _ => True

/-- What holds at all times, except that connections in `dead` may have lost a query that they have not answered. -/
structure DispatchedExcept (dead : ℕ → Prop) (s : ProcManager) : Prop extends s.Wired where
  unborn : ∀ w, s.next ≤ w → s.requests w = [] ∧ s.responses w = 0
  reqid : ∀ w < s.next, (s.worker w).reqid = (s.requests w).length
  served : ∀ w, s.Open w → ¬ dead w →
    (s.requests w).length = s.responses w + if (s.mapped w).isSome then 1 else 0
  last : ∀ w q, s.mapped w = some q → (s.requests w).getLast? = some q
  ids : ∀ q ∈ s.accepted, q.id < s.accepted.length
  pending_mem : ∀ q ∈ s.pendingQueries, q ∈ s.accepted
  requests_mem : ∀ w, ∀ q ∈ s.requests w, q ∈ s.accepted
  answered : ∀ a ∈ s.answers, ∃ q, s.query a = some q ∧ a.client = q.client
  once : ∀ q ∈ s.accepted, ¬ s.ClientClosed q.client → s.places q = 1

theorem DispatchedExcept.dispatched (h : s.DispatchedExcept dead) : s.Dispatched where
  once := h.once
  live _ _ hq := open_of_mapped hq
  client a ha := by
    obtain ⟨q, hq, hclient⟩ := h.answered a ha
    exact ⟨q, h.requests_mem _ q (List.mem_of_getElem? hq), hq, hclient⟩
  idle := h.idle_unmapped

/-! ### The connections that have a query -/

theorem holders_eq {s' : ProcManager} (hnext : s'.next = s.next) (hw : w < s.next)
    (hother : ∀ x, x ≠ w → s'.mapped x = s.mapped x) (q : ClientQuery) :
    s'.holders q + (if s.mapped w = some q then 1 else 0) = s.holders q + if s'.mapped w = some q then 1 else 0 := by
  have hsplit : ∀ t : ProcManager, t.next = s.next → t.holders q =
      ((List.range s.next).erase w).countP (fun x => decide (t.mapped x = some q)) + if t.mapped w = some q then 1 else 0 := by
    intro t ht
    rw [holders, ht, (List.perm_cons_erase (List.mem_range.mpr hw)).countP_eq, List.countP_cons]
    simp only [decide_eq_true_eq]
  have hsame : ((List.range s.next).erase w).countP (fun x => decide (s'.mapped x = some q)) =
      ((List.range s.next).erase w).countP fun x => decide (s.mapped x = some q) := by
    refine List.countP_congr fun x hx => ?_
    rw [hother x (List.nodup_range.mem_erase_iff.mp hx).1]
  rw [hsplit s rfl, hsplit s' hnext, hsame]
  omega

theorem mapped_assign (h : s.Wired) {fd : ℕ} (hfd : (s.worker w).fd = some fd) (q : ClientQuery) (x : ℕ) :
    (s.assign w fd q).mapped x = if x = w then some q else s.mapped x := by
  rw [mapped, assign_fd, mapped]
  show (s.worker x).fd.bind (Function.update s.mappings fd (some q)) = _
  split_ifs with hx
  · rw [hx, hfd, Option.bind_some, Function.update_self]
  · cases hfd' : (s.worker x).fd with
    | none => rfl
    | some fd' =>
      have hother : fd' ≠ fd := fun heq => hx (h.fd_inj x w fd (heq ▸ hfd') hfd)
      rw [Option.bind_some, Option.bind_some, Function.update_of_ne hother]

theorem holders_unmap (h : s.Wired) {q : ClientQuery} (hq : s.mapped w = some q) (q' : ClientQuery) :
    holders { s with mappings := (s.unmap w).mappings } q' + (if q = q' then 1 else 0) = s.holders q' := by
  have hw : w < s.next := h.child_lt w (h.open_child w (open_of_mapped hq))
  have hself := mapped_unmap s w
  have hother : ∀ x, x ≠ w → (s.unmap w).mapped x = s.mapped x := fun x hx => mapped_unmap_of_ne h hx
  rw [unmap_eq] at hself hother
  have heq := @holders_eq s w { s with mappings := (s.unmap w).mappings } rfl hw hother q'
  rw [hself, hq, if_neg (Option.some_ne_none q').symm, Nat.add_zero] at heq
  simpa [Option.some.injEq] using heq

theorem fd_next (h : s.Wired) : (s.worker s.next).fd = none := by
  by_contra hne
  exact absurd (h.child_lt _ (h.open_child _ (Option.ne_none_iff_isSome.mp hne))) (lt_irrefl _)

theorem unmap_of_not_mapped (h : s.mapped w = none) : s.unmap w = s := by
  unfold unmap
  split
  · rfl
  · rename_i fd hfd
    rw [mapped_of_fd hfd] at h
    rw [Function.update_eq_self_iff.mpr h.symm]

theorem unmap_counted (s : ProcManager) (w : ℕ) (answers : List Answer) :
    (unmap { s.counted w with answers } w).mappings = (s.unmap w).mappings := by
  unfold unmap counted
  dsimp only
  split <;> rfl

/-! ### Handing out queries -/

namespace DispatchedExcept

/-- Queries of clients that have gone are dropped. -/
theorem drop (h : s.DispatchedExcept dead) : DispatchedExcept dead { s with
    pendingQueries := s.pendingQueries.dropWhile fun q => s.ClientClosed q.client } := by
  refine ⟨h.toWired.other .., h.unborn, h.reqid, h.served, h.last, h.ids, fun q hq => ?_, h.requests_mem, h.answered,
    fun q hq hclient => ?_⟩
  · exact h.pending_mem q ((List.dropWhile_sublist _).subset hq)
  · have hopen : ¬ s.ClientClosed q.client := hclient
    have honce := h.once q hq hopen
    have hcount : (s.pendingQueries.dropWhile fun q => decide (s.ClientClosed q.client)).count q = s.pendingQueries.count q := by
      have hnone : (s.pendingQueries.takeWhile fun q => decide (s.ClientClosed q.client)).count q = 0 :=
        List.count_eq_zero.mpr fun hmem => hopen (by simpa using List.mem_takeWhile_imp hmem)
      conv_rhs => rw [← List.takeWhile_append_dropWhile (p := fun q : ClientQuery => decide (s.ClientClosed q.client))
        (l := s.pendingQueries)]
      rw [List.count_append, hnone, Nat.zero_add]
    rw [places, ← hcount] at honce
    exact honce

/-- A worker that has gone is dropped from the idle list. -/
theorem skip (h : s.DispatchedExcept dead) {idle : List ℕ} (hidle : s.idleQueryWorkers = w :: idle) :
    DispatchedExcept dead { s with idleQueryWorkers := idle } :=
  ⟨h.toWired.skip hidle, h.unborn, h.reqid, h.served, h.last, h.ids, h.pending_mem, h.requests_mem, h.answered, h.once⟩

/-- The first query goes to an idle worker. -/
theorem assign (h : s.DispatchedExcept dead) {fd : ℕ} {q : ClientQuery} {pending : List ClientQuery}
    (hfd : (s.worker w).fd = some fd) (hidle : w ∉ s.idleQueryWorkers) (hmapped : s.mapped w = none)
    (hpending : s.pendingQueries = q :: pending) :
    DispatchedExcept dead ({ s with pendingQueries := pending }.assign w fd q) := by
  have hw : w < s.next := h.child_lt w (h.open_child w (open_of_fd hfd))
  have hq : q ∈ s.accepted := h.pending_mem q (hpending ▸ List.mem_cons_self)
  have hwired : Wired { s with pendingQueries := pending } := h.toWired.other ..
  have hmapping := mapped_assign hwired hfd q
  have hrequests : ∀ x, ({ s with pendingQueries := pending }.assign w fd q).requests x =
      if x = w then s.requests w ++ [q] else s.requests x := fun x => by
    by_cases hx : x = w
    · subst hx
      rw [if_pos rfl]
      exact Function.update_self ..
    · rw [if_neg hx]
      exact Function.update_of_ne hx _ _
  have hquery : ∀ a q', s.query a = some q' →
      ({ s with pendingQueries := pending }.assign w fd q).query a = some q' := fun a q' ha => by
    rw [query, hrequests]
    split_ifs with hconn
    · rw [query, hconn] at ha
      rw [List.getElem?_append_left (List.getElem?_eq_some_iff.mp ha).1, ha]
    · exact ha
  refine ⟨hwired.assign hfd hidle q, fun x hx => ?_, fun x hx => ?_, fun x hopen hdead => ?_, fun x q' hq' => ?_, h.ids,
    fun q' hq' => h.pending_mem q' (hpending ▸ List.mem_cons_of_mem q hq'), fun x q' hq' => ?_, fun a ha => ?_,
    fun q' hq' hclient => ?_⟩
  · have hne : x ≠ w := fun heq => absurd (heq ▸ hx) (not_le.mpr hw)
    rw [hrequests, if_neg hne]
    exact h.unborn x hx
  · rw [hrequests]
    split_ifs with hxw
    · rw [hxw, List.length_append, List.length_singleton, ← h.reqid w hw]
      show (Function.update s.worker w { s.worker w with reqid := (s.worker w).reqid + 1 } w).reqid = _
      rw [Function.update_self]
    · rw [← h.reqid x hx]
      show (Function.update s.worker w { s.worker w with reqid := (s.worker w).reqid + 1 } x).reqid = _
      rw [Function.update_of_ne hxw]
  · have hserved := h.served x (by simpa [Open] using hopen) hdead
    rw [hrequests, hmapping]
    show _ = s.responses x + _
    split_ifs with hxw hsome hsome
    · subst hxw
      rw [hmapped] at hserved
      rw [List.length_append, List.length_singleton, hserved]
      rfl
    · exact absurd rfl hsome
    · rw [hserved]
      exact congrArg _ (if_pos hsome)
    · rw [hserved]
      exact congrArg _ (if_neg hsome)
  · rw [hmapping] at hq'
    rw [hrequests]
    split_ifs at hq' ⊢ with hxw
    · rw [List.getLast?_concat, hq']
    · exact h.last x q' hq'
  · rw [hrequests] at hq'
    split_ifs at hq' with hxw
    · rcases List.mem_append.mp hq' with hq' | hq'
      · exact h.requests_mem w q' hq'
      · rwa [List.mem_singleton.mp hq']
    · exact h.requests_mem x q' hq'
  · obtain ⟨q', hq', hclient⟩ := h.answered a ha
    exact ⟨q', hquery a q' hq', hclient⟩
  · have honce := h.once q' hq' hclient
    have hholders : ({ s with pendingQueries := pending }.assign w fd q).holders q' = s.holders q' + if q = q' then 1 else 0 := by
      have heq := @holders_eq s w ({ s with pendingQueries := pending }.assign w fd q) rfl hw
        (fun x hx => (hmapping x).trans (if_neg hx)) q'
      rw [hmapped, hmapping, if_pos rfl, if_neg (Option.some_ne_none q').symm, Nat.add_zero] at heq
      simpa [Option.some.injEq] using heq
    have hanswers : s.answers.countP (fun a => decide (({ s with pendingQueries := pending }.assign w fd q).query a = some q')) =
        s.answers.countP fun a => decide (s.query a = some q') := by
      refine List.countP_congr fun a ha => ?_
      obtain ⟨q₀, hq₀, -⟩ := h.answered a ha
      rw [hquery a q₀ hq₀, hq₀]
    rw [places, hpending, List.count_cons] at honce
    rw [places, hholders]
    show pending.count q' + _ + s.answers.countP _ = 1
    rw [hanswers]
    by_cases hsame : q = q'
    · rw [if_pos (beq_iff_eq.mpr hsame)] at honce
      rw [if_pos hsame]
      omega
    · rw [if_neg fun heq => hsame (beq_iff_eq.mp heq)] at honce
      rw [if_neg hsame]
      omega

theorem processQueues (h : s.DispatchedExcept dead) : s.processQueues.DispatchedExcept dead := by
  refine processQueuesOn_inv (fun t ht => ht.drop) (fun t w idle hidle _ ht => ht.skip hidle) ?_ _ s h
  intro t w idle fd q pending hidle hfd hpending _ ht
  have hnot : w ∉ idle := (List.nodup_cons.mp (hidle ▸ ht.idle_nodup)).1
  have hmapped : t.mapped w = none := ht.idle_unmapped w (hidle ▸ List.mem_cons_self)
  exact (ht.skip hidle).assign hfd hnot hmapped hpending

/-! ### A worker becomes idle -/

/-- The tables of children do not matter. -/
theorem other (h : s.DispatchedExcept dead) {idleQueryWorkers child todie : List ℕ} {min : Job → ℕ} {current : Job → ℤ}
    {allkidsup : Bool} {lastspawntime : ℕ} {notes : List Note}
    (hwired : Wired { s with idleQueryWorkers, child, todie, min, current, allkidsup, lastspawntime, notes }) :
    DispatchedExcept dead { s with idleQueryWorkers, child, todie, min, current, allkidsup, lastspawntime, notes } :=
  ⟨hwired, h.unborn, h.reqid, h.served, h.last, h.ids, h.pending_mem, h.requests_mem, h.answered, h.once⟩

/-- A worker whose query has been taken away. -/
theorem noteIdleQueryWorker
    (h : DispatchedExcept dead { s with mappings := (s.unmap w).mappings }) (hw : w < s.next)
    (hjob : (s.worker w).job = .queryworker) (hidle : w ∉ s.idleQueryWorkers) :
    (s.noteIdleQueryWorker w).DispatchedExcept dead := by
  have hunmapped := mapped_unmap s w
  rw [unmap_eq] at hunmapped
  unfold ProcManager.noteIdleQueryWorker
  rw [unmap_eq]
  extract_lets t
  split_ifs
  · exact h.other (h.toWired.askWorkerToDie hw)
  · exact DispatchedExcept.processQueues (h.other (h.toWired.pushIdle hw hjob hunmapped hidle))

/-- The worker has responded: its query has been answered, or the client has gone. -/
theorem respond (h : s.DispatchedExcept dead) {q : ClientQuery} (hq : s.mapped w = some q) (hdead : ¬ dead w)
    {answers : List Answer} (hanswers : ∀ a ∈ answers, ∃ q', s.query a = some q' ∧ a.client = q'.client)
    (hcount : ∀ q', ¬ s.ClientClosed q'.client → answers.countP (fun a => decide (s.query a = some q')) =
      s.answers.countP (fun a => decide (s.query a = some q')) + if q = q' then 1 else 0) :
    DispatchedExcept dead { s.counted w with answers, mappings := (s.unmap w).mappings } := by
  have hopen : s.Open w := open_of_mapped hq
  have hw : w < s.next := h.child_lt w (h.open_child w hopen)
  have hself := mapped_unmap s w
  have hother : ∀ x, x ≠ w → (s.unmap w).mapped x = s.mapped x := fun x hx => mapped_unmap_of_ne h.toWired hx
  have hwired := h.toWired.unmap w
  rw [unmap_eq] at hself hother hwired
  refine ⟨hwired.other .., fun x hx => ?_, h.reqid, fun x hxopen hxdead => ?_, fun x q' hq' => ?_, h.ids, h.pending_mem,
    h.requests_mem, hanswers, fun q' hq' hclient => ?_⟩
  · have hne : x ≠ w := fun heq => absurd (heq ▸ hx) (not_le.mpr hw)
    obtain ⟨hrequests, hresponses⟩ := h.unborn x hx
    exact ⟨hrequests, (Function.update_of_ne hne _ _).trans hresponses⟩
  · have hserved := h.served x hxopen hxdead
    show (s.requests x).length = Function.update s.responses w (s.responses w + 1) x +
      if (ProcManager.mapped { s with mappings := (s.unmap w).mappings } x).isSome then 1 else 0
    by_cases hxw : x = w
    · subst hxw
      rw [hq] at hserved
      rw [hself, Function.update_self, hserved]
      rfl
    · rw [hother x hxw, Function.update_of_ne hxw, hserved]
  · by_cases hxw : x = w
    · subst hxw
      exact absurd (hself.symm.trans hq') (Option.some_ne_none q').symm
    · exact h.last x q' ((hother x hxw).symm.trans hq')
  · have honce := h.once q' hq' hclient
    rw [places, ← holders_unmap h.toWired hq q'] at honce
    show s.pendingQueries.count q' + ProcManager.holders { s with mappings := (s.unmap w).mappings } q' +
      answers.countP (fun a => decide (s.query a = some q')) = 1
    rw [hcount q' hclient]
    omega

/-! ### The end of a connection -/

theorem weaken {dead' : ℕ → Prop} (h : s.DispatchedExcept dead) (himp : ∀ x, dead x → dead' x) : s.DispatchedExcept dead' :=
  ⟨h.toWired, h.unborn, h.reqid, fun x hopen hdead => h.served x hopen fun hx => hdead (himp x hx), h.last, h.ids,
    h.pending_mem, h.requests_mem, h.answered, h.once⟩

theorem requeue (h : s.DispatchedExcept dead) {q : ClientQuery} (hq : s.mapped w = some q) :
    DispatchedExcept (fun x => dead x ∨ x = w) { s.unmap w with pendingQueries := q :: s.pendingQueries } := by
  have hself := mapped_unmap s w
  have hother : ∀ x, x ≠ w → (s.unmap w).mapped x = s.mapped x := fun x hx => mapped_unmap_of_ne h.toWired hx
  have hwired := h.toWired.unmap w
  have haccepted : q ∈ s.accepted := h.requests_mem w q (List.mem_of_getLast? (h.last w q hq))
  rw [unmap_eq] at hself hother hwired ⊢
  refine ⟨hwired.other .., h.unborn, h.reqid, fun x hxopen hxdead => ?_, fun x q' hq' => ?_, h.ids,
    List.forall_mem_cons.mpr ⟨haccepted, h.pending_mem⟩, h.requests_mem, h.answered, fun q' hq' hclient => ?_⟩
  · rw [not_or] at hxdead
    have hserved := h.served x hxopen hxdead.1
    show (s.requests x).length = s.responses x +
      if (ProcManager.mapped { s with mappings := (s.unmap w).mappings } x).isSome then 1 else 0
    rw [hother x hxdead.2, hserved]
  · by_cases hxw : x = w
    · subst hxw
      exact absurd (hself.symm.trans hq') (Option.some_ne_none q').symm
    · exact h.last x q' ((hother x hxw).symm.trans hq')
  · have honce := h.once q' hq' hclient
    rw [places, ← holders_unmap h.toWired hq q'] at honce
    show (q :: s.pendingQueries).count q' + ProcManager.holders { s with mappings := (s.unmap w).mappings } q' +
      s.answers.countP (fun a => decide (s.query a = some q')) = 1
    rw [List.count_cons]
    by_cases hsame : q = q'
    · rw [if_pos hsame] at honce
      rw [if_pos (beq_iff_eq.mpr hsame)]
      omega
    · rw [if_neg hsame] at honce
      rw [if_neg fun heq => hsame (beq_iff_eq.mp heq)]
      omega

/-- A connection without a query is closed. -/
theorem close (h : s.DispatchedExcept fun x => dead x ∨ x = w) (hmapped : s.mapped w = none)
    (hwired : Wired { s with worker := Function.update s.worker w { s.worker w with fd := none } }) :
    DispatchedExcept dead { s with worker := Function.update s.worker w { s.worker w with fd := none } } := by
  have hmapping : ∀ x, ProcManager.mapped { s with worker := Function.update s.worker w { s.worker w with fd := none } } x =
      s.mapped x := by
    intro x
    by_cases hxw : x = w
    · subst hxw
      rw [hmapped]
      exact mapped_of_closed (by simp)
    · show ((Function.update s.worker w _) x).fd.bind s.mappings = _
      rw [Function.update_of_ne hxw]
      rfl
  refine ⟨hwired, h.unborn, fun x hx => ?_, fun x hopen hdead => ?_, fun x q hq => ?_, h.ids, h.pending_mem,
    h.requests_mem, h.answered, fun q hq hclient => ?_⟩
  · show ((Function.update s.worker w { s.worker w with fd := none }) x).reqid = _
    by_cases hxw : x = w
    · subst hxw
      rw [Function.update_self]
      exact h.reqid x hx
    · rw [Function.update_of_ne hxw]
      exact h.reqid x hx
  · have hxw : x ≠ w := by
      rintro rfl
      simp [Open] at hopen
    have hxopen : s.Open x := by simpa [Open, hxw] using hopen
    rw [hmapping]
    exact h.served x hxopen fun hx => hx.elim hdead hxw
  · rw [hmapping] at hq
    exact h.last x q hq
  · have honce := h.once q hq hclient
    have hholders : ProcManager.holders { s with worker := Function.update s.worker w { s.worker w with fd := none } } q =
        s.holders q := List.countP_congr fun x _ => by rw [hmapping]
    rw [places] at honce ⊢
    rw [hholders]
    exact honce

theorem closeWorker (h : s.DispatchedExcept dead) (w : ℕ) : (s.closeWorker w).DispatchedExcept dead := by
  have hwired := h.toWired.closeWorker w
  have hunmapped : (s.noteDeadWorkerConn w).mapped w = none := by
    refine mapped_noteDeadWorkerConn h.toWired ?_
    by_cases hidle : w ∈ s.idleQueryWorkers
    · exact .inr (h.idle_unmapped w hidle)
    · exact .inl hidle
  refine close ?_ hunmapped hwired
  unfold noteDeadWorkerConn
  split
  · exact h.weaken fun _ => .inl
  · rename_i q hq
    exact (h.requeue hq).processQueues

theorem reap (h : s.DispatchedExcept dead) (pid : ℕ) : (s.reap pid).DispatchedExcept dead := by
  have hwired := h.toWired.reap pid
  cases hfind : s.child.find? fun w => (s.worker w).pid = pid with
  | none =>
    rw [reap_of_none hfind]
    exact h
  | some w =>
    rw [reap_eq hfind, noteDeath_eq] at hwired ⊢
    exact (h.closeWorker w).other hwired

/-! ### New children -/

theorem mapped_newConn (h : s.Wired) {job : Job} {pid fd : ℕ} (hfresh : s.FreshChild pid fd) (x : ℕ) :
    (s.newConn job pid fd).mapped x = s.mapped x := by
  have hunused : s.mappings fd = none := by
    by_contra hne
    obtain ⟨q, hq⟩ := Option.ne_none_iff_exists'.mp hne
    obtain ⟨x, hx⟩ := h.mapped_open fd q hq
    exact hfresh.2 x (h.child_lt x (h.open_child x (open_of_fd hx))) hx
  rw [mapped, mapped]
  show ((s.newConn job pid fd).worker x).fd.bind s.mappings = _
  by_cases hx : x = s.next
  · rw [hx, newConn_worker, fd_next h]
    exact hunused
  · exact congrArg (fun c : WorkerConn => c.fd.bind s.mappings) (Function.update_of_ne hx _ _)

/-- A new connection has had no request. -/
theorem newConn (h : s.DispatchedExcept dead) {job : Job} {pid fd : ℕ} (hfresh : s.FreshChild pid fd) :
    (s.newConn job pid fd).DispatchedExcept dead := by
  have hwired : (s.newConn job pid fd).Wired := h.toWired.newConn hfresh
  have hworker : ∀ x, x ≠ s.next → (s.newConn job pid fd).worker x = s.worker x := fun x hx => Function.update_of_ne hx _ _
  have hnext := fd_next h.toWired
  have hmapping : ∀ x, (s.newConn job pid fd).mapped x = s.mapped x := mapped_newConn h.toWired hfresh
  obtain ⟨hrequests, hresponses⟩ := h.unborn s.next le_rfl
  refine ⟨hwired, fun x hx => h.unborn x (Nat.le_of_succ_le hx), fun x hx => ?_, fun x hopen hdead => ?_, fun x q hq => ?_,
    h.ids, h.pending_mem, h.requests_mem, h.answered, fun q hq hclient => ?_⟩
  · by_cases hxnext : x = s.next
    · rw [hxnext, newConn_worker]
      exact (congrArg List.length hrequests).symm
    · rw [hworker x hxnext]
      exact h.reqid x (lt_of_le_of_ne (Nat.le_of_lt_succ hx) hxnext)
  · rw [hmapping]
    by_cases hxnext : x = s.next
    · rw [hxnext, mapped_of_closed hnext]
      show (s.requests s.next).length = s.responses s.next + 0
      rw [hrequests, hresponses]
      rfl
    · rw [Open, hworker x hxnext] at hopen
      exact h.served x hopen hdead
  · rw [hmapping] at hq
    exact h.last x q hq
  · have honce := h.once q hq hclient
    have hholders : (s.newConn job pid fd).holders q = s.holders q := by
      show (List.range (s.next + 1)).countP _ = _
      rw [List.range_succ, List.countP_append, List.countP_singleton, hmapping, mapped_of_closed hnext]
      refine Eq.trans (Nat.add_zero _) (List.countP_congr fun x _ => ?_)
      rw [hmapping]
    rw [places] at honce ⊢
    rw [hholders]
    exact honce

theorem addChild (h : s.DispatchedExcept dead) {job : Job} {pid fd : ℕ} (hfresh : s.FreshChild pid fd) :
    (s.addChild job pid fd).DispatchedExcept dead := by
  have hwired : (s.addChild job pid fd).Wired := h.toWired.addChild hfresh
  have hnew : (s.newConn job pid fd).DispatchedExcept dead := h.newConn hfresh
  rw [addChild_eq] at hwired ⊢
  split_ifs at hwired ⊢ with hjob
  · have hworker : ((s.newConn job pid fd).worker s.next).job = .queryworker := by rw [newConn_worker, hjob]
    have hidle : s.next ∉ s.idleQueryWorkers := fun hmem => absurd (h.idle_lt _ hmem) (lt_irrefl _)
    have hunmapped : DispatchedExcept dead { s.newConn job pid fd with
        mappings := ((s.newConn job pid fd).unmap s.next).mappings } := by
      rw [unmap_of_not_mapped ((mapped_newConn h.toWired hfresh _).trans (mapped_of_closed (fd_next h.toWired)))]
      exact hnew
    exact (hunmapped.noteIdleQueryWorker (Nat.lt_succ_self _) hworker hidle).other hwired
  · exact hnew.other hwired

/-! ### Events -/

/-- A query that is accepted is a new one, and waits. -/
theorem enqueueCommandRequest (h : s.DispatchedExcept dead) (client : ℕ) (ip : Option Text) (line : Text) :
    (s.enqueueCommandRequest client ip line).DispatchedExcept dead := by
  refine DispatchedExcept.processQueues ?_
  generalize hq : (⟨client, ip.getD "0.0.0.0".toList ++ ' ' :: line, s.accepted.length⟩ : ClientQuery) = q
  have hid : q.id = s.accepted.length := by rw [← hq]
  have hnew : q ∉ s.accepted := fun hmem => absurd (h.ids q hmem) (by omega)
  refine ⟨h.toWired.other .., h.unborn, h.reqid, h.served, h.last, fun q' hq' => ?_, fun q' hq' => ?_,
    fun x q' hq' => List.mem_append_left _ (h.requests_mem x q' hq'), h.answered, fun q' hq' hclient => ?_⟩
  · rw [List.length_append, List.length_singleton]
    rcases List.mem_append.mp hq' with hq' | hq'
    · exact Nat.lt_succ_of_lt (h.ids q' hq')
    · rw [List.mem_singleton.mp hq', hid]
      exact Nat.lt_succ_self _
  · rcases List.mem_append.mp hq' with hq' | hq'
    · exact List.mem_append_left _ (h.pending_mem q' hq')
    · exact List.mem_append_right _ hq'
  · show (s.pendingQueries ++ [q]).count q' + s.holders q' + s.answers.countP (fun a => decide (s.query a = some q')) = 1
    rw [List.count_append]
    rcases List.mem_append.mp hq' with hq' | hq'
    · have honce := h.once q' hq' hclient
      have hne : q' ∉ [q] := fun hmem => hnew (List.mem_singleton.mp hmem ▸ hq')
      rw [places] at honce
      rw [List.count_eq_zero.mpr hne, Nat.add_zero]
      exact honce
    · obtain rfl := List.mem_singleton.mp hq'
      have hpending : s.pendingQueries.count q' = 0 := List.count_eq_zero.mpr fun hmem => hnew (h.pending_mem q' hmem)
      have hholders : s.holders q' = 0 := List.countP_eq_zero.mpr fun x _ hx =>
        hnew (h.requests_mem x q' (List.mem_of_getLast? (h.last x q' (of_decide_eq_true hx))))
      have hanswers : s.answers.countP (fun a => decide (s.query a = some q')) = 0 :=
        List.countP_eq_zero.mpr fun a _ ha => hnew (h.requests_mem a.conn q' (List.mem_of_getElem? (of_decide_eq_true ha)))
      rw [hpending, hholders, hanswers, List.count_singleton_self]

theorem closeClient (h : s.DispatchedExcept dead) (client : ℕ) : (s.closeClient client).DispatchedExcept dead :=
  ⟨h.toWired.other .., h.unborn, h.reqid, h.served, h.last, h.ids, h.pending_mem, h.requests_mem, h.answered,
    fun q hq hclient => h.once q hq fun hclosed => hclient (List.mem_cons_of_mem _ hclosed)⟩

/-- The next response is that to the query which the worker has. -/
theorem handleQueryWorkerResponse (h : s.DispatchedExcept fun _ => False) (hopen : s.Open w)
    (hjob : (s.worker w).job = .queryworker) {line time res : Text} (hless : s.responses w < (s.requests w).length)
    (hparse : parseResponse line = some (requestId (s.worker w).pid (s.responses w + 1), time, res)) :
    (s.handleQueryWorkerResponse w line).DispatchedExcept fun _ => False := by
  have hw : w < s.next := h.child_lt w (h.open_child w hopen)
  have hserved := h.served w hopen not_false
  have hreqid := h.reqid w hw
  rcases handleQueryWorkerResponse_cases s w line with
    ⟨hnone, -⟩ | ⟨q, hq, ⟨hclosed, heq⟩ | ⟨-, time', res', -, heq⟩ | ⟨-, hmismatch, -⟩⟩
  · rw [hnone] at hserved
    exact absurd hserved hless.ne'
  all_goals
    have hidle : w ∉ s.idleQueryWorkers := fun hmem => by
      rw [h.idle_unmapped w hmem] at hq
      cases hq
    rw [hq] at hserved
  · rw [heq]
    refine noteIdleQueryWorker ?_ hw hjob hidle
    have hmappings : ((s.counted w).unmap w).mappings = (s.unmap w).mappings := unmap_counted s w s.answers
    rw [hmappings]
    refine h.respond hq not_false h.answered fun q' hq' => ?_
    rw [if_neg (by rintro rfl; exact hq' hclosed), Nat.add_zero]
    rfl
  · rw [heq]
    refine noteIdleQueryWorker ?_ hw hjob hidle
    rw [unmap_counted]
    have hquery : s.query ⟨q.client, w, (s.worker w).reqid, res'⟩ = some q := by
      rw [query, hreqid, ← List.getLast?_eq_getElem?]
      exact h.last w q hq
    refine h.respond hq not_false (List.forall_mem_cons.mpr ⟨⟨q, hquery, rfl⟩, h.answered⟩) fun q' _ => ?_
    rw [List.countP_cons, hquery]
    simp
  · rw [show s.responses w + 1 = (s.worker w).reqid by rw [hreqid, hserved]; rfl] at hparse
    exact absurd hparse (hmismatch time res)

theorem cullOn (idle : List ℕ) (h : DispatchedExcept dead { s with idleQueryWorkers := idle }) :
    (cullOn idle s).DispatchedExcept dead := by
  induction idle generalizing s with
  | nil => exact h
  | cons w idle ih =>
    unfold ProcManager.cullOn
    split_ifs
    · have hskip := h.skip rfl
      exact ih (hskip.other (hskip.toWired.askWorkerToDie (h.idle_lt w List.mem_cons_self)))
    · exact h

theorem want (h : s.DispatchedExcept dead) (count : ℕ) (job : Job) : (s.want count job).DispatchedExcept dead := by
  unfold ProcManager.want requestJobProcess
  extract_lets t
  have ht : t.DispatchedExcept dead := h.other (h.toWired.other ..)
  split_ifs
  · exact cullOn _ ht
  · exact ht

theorem postEventLoop (h : s.DispatchedExcept dead) (now : ℕ) (waited : Option ℕ) (jobs : List Job)
    (forks : List (Option (ℕ × ℕ))) : (s.postEventLoop now waited jobs forks).DispatchedExcept dead := by
  have hspawn : ∀ {t : ProcManager}, t.DispatchedExcept dead → (spawn jobs forks t).DispatchedExcept dead := fun {t} ht =>
    spawn_inv (I := DispatchedExcept dead) (fun _ _ _ _ _ hfresh hs => hs.addChild hfresh)
      (fun _ hs => hs.other (hs.toWired.other ..)) jobs forks t ht
  unfold ProcManager.postEventLoop
  split_ifs with hnow
  · exact h
  · extract_lets t u v
    split_ifs
    · exact h.other (h.toWired.other ..)
    · refine hspawn ?_
      have hu : u.DispatchedExcept dead := h.other (h.toWired.other ..)
      cases waited with
      | none => exact hu
      | some pid => exact hu.reap pid

theorem handle (h : s.DispatchedExcept fun _ => False) {event : Event} (hresponds : s.Responds event) :
    (s.handle event).DispatchedExcept fun _ => False := by
  have hwired := h.toWired.handle event
  cases event with
  | enqueue client ip line =>
    rw [ProcManager.handle]
    split_ifs
    · exact h
    · exact h.enqueueCommandRequest client ip line
  | closeClient client => exact h.closeClient client
  | line w line =>
    rw [ProcManager.handle] at hwired ⊢
    split_ifs at hwired ⊢ with hopen
    · unfold ProcManager.workerLine at hwired ⊢
      split_ifs at hwired ⊢ with hresponse
      · obtain ⟨hless, time, res, hparse⟩ := hresponds hopen hresponse
        exact h.handleQueryWorkerResponse hopen hresponse.1 hless hparse
      · unfold handleChildRequest at hwired ⊢
        split_ifs at hwired ⊢
        · exact h.other hwired
        · exact h
        · exact h
    · exact h
  | closeWorker w => exact h.closeWorker w
  | want count job => exact h.want count job
  | postEventLoop now waited jobs forks => exact h.postEventLoop now waited jobs forks

end DispatchedExcept

theorem dispatchedExcept_init (min : Job → ℕ) : (init min).DispatchedExcept dead where
  toWired := wired_init min
  unborn _ _ := ⟨rfl, rfl⟩
  reqid _ h := absurd h (Nat.not_lt_zero _)
  served _ h := absurd h Bool.false_ne_true
  last _ q h := absurd h (Option.some_ne_none q).symm
  ids _ h := absurd h List.not_mem_nil
  pending_mem _ h := absurd h List.not_mem_nil
  requests_mem _ _ h := absurd h List.not_mem_nil
  answered _ h := absurd h List.not_mem_nil
  once _ h := absurd h List.not_mem_nil

/-- After every run in which the workers respond to their requests in order, each query of a client that is still
there is in one place. -/
theorem dispatched_after (min : Job → ℕ) (events : List Event)
    (h : ∀ before event, before ++ [event] <+: events → (after min before).Responds event) :
    (after min events).Dispatched := by
  have hall : (after min events).DispatchedExcept fun _ => False :=
    foldl_inv_of_guard (dispatchedExcept_init min) (fun _ _ hs hresponds => hs.handle hresponds) h
  exact hall.dispatched

/-- A query worker is forked, is given a query and responds to it. -/
def oneResponse : List Event :=
  [.postEventLoop 1 none [.queryworker] [some (10, 4)], .enqueue 7 none "list_keys".toList,
    .line 0 "10-1 0.0021 OK".toList]

theorem dispatched_oneResponse :
    (after (fun job => if job = .queryworker then 1 else 0) oneResponse).Dispatched := by
  refine dispatched_after _ _ fun before event hpre => ?_
  obtain ⟨rest, hrest⟩ := hpre
  rcases before with _ | ⟨first, _ | ⟨second, _ | ⟨third, before⟩⟩⟩ <;>
    simp only [oneResponse, List.nil_append, List.cons_append, List.cons.injEq, List.append_eq_nil_iff] at hrest
  · exact hrest.1 ▸ trivial
  · exact hrest.2.1 ▸ trivial
  · obtain ⟨rfl, rfl, rfl, -⟩ := hrest
    exact fun _ _ => ⟨by decide +kernel, "0.0021".toList, "OK".toList, by decide +kernel⟩
  · simp at hrest

end ProcManager

end Ylem
