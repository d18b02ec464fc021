import Ylem.Tracker.ProcManager

/-!
# The parent's tables of connections

What holds of the connections, the mappings and the idle list at all times, whatever children and clients do
(`Wired`): open connections are those of children that were not reaped, no two have the same file descriptor, and
every mapping is that of an open connection; the idle list has no connection twice and none that has a mapping.

`processQueuesOn_inv` is the rule for the loop that hands out queries: what dropping the queries of clients that have
gone, dropping a closed connection and an assignment keep, the loop keeps.
-/

namespace Ylem

namespace ProcManager

variable {s s' : ProcManager} {w : ℕ}

/-! ### One assignment -/

section Assign

variable (s) (w fd : ℕ) (q : ClientQuery) (x : ℕ)

@[simp] theorem assign_fd : ((s.assign w fd q).worker x).fd = (s.worker x).fd := by
  by_cases hx : x = w
  · simp [assign, hx]
  · simp [assign, hx]

@[simp] theorem assign_pid : ((s.assign w fd q).worker x).pid = (s.worker x).pid := by
  by_cases hx : x = w
  · simp [assign, hx]
  · simp [assign, hx]

@[simp] theorem assign_job : ((s.assign w fd q).worker x).job = (s.worker x).job := by
  by_cases hx : x = w
  · simp [assign, hx]
  · simp [assign, hx]

end Assign

/-! ### Handing out queries -/

/-- The rule for the loop of `ProcessQueues`. -/
theorem processQueuesOn_inv {I : ProcManager → Prop}
    (hdrop : ∀ s, I s → I { s with
      pendingQueries := s.pendingQueries.dropWhile fun q => s.ClientClosed q.client })
    (hskip : ∀ s w idle, s.idleQueryWorkers = w :: idle → (s.worker w).fd = none → I s →
      I { s with idleQueryWorkers := idle })
    (hassign : ∀ s w idle fd q pending, s.idleQueryWorkers = w :: idle → (s.worker w).fd = some fd →
      s.pendingQueries = q :: pending → ¬ s.ClientClosed q.client → I s →
      I ({ s with idleQueryWorkers := idle, pendingQueries := pending }.assign w fd q))
    (idle : List ℕ) (s : ProcManager) (h : I { s with idleQueryWorkers := idle }) : I (processQueuesOn idle s) := by
  induction idle generalizing s with
  | nil => exact h
  | cons w idle ih =>
    have hdropped : I { s with
        idleQueryWorkers := w :: idle
        pendingQueries := s.pendingQueries.dropWhile fun q => decide (s.ClientClosed q.client) } := hdrop _ h
    rw [processQueuesOn]
    cases hpending : s.pendingQueries.dropWhile fun q => decide (s.ClientClosed q.client) with
    | nil =>
      rw [hpending] at hdropped
      exact hdropped
    | cons q pending =>
      have hclient : ¬ s.ClientClosed q.client := by
        have hne : (s.pendingQueries.dropWhile fun q => decide (s.ClientClosed q.client)) ≠ [] := by
          rw [hpending]
          exact List.cons_ne_nil _ _
        have hhead := List.head_dropWhile_not (fun q : ClientQuery => decide (s.ClientClosed q.client)) hne
        simpa [hpending] using hhead
      rw [hpending] at hdropped
      cases hfd : (s.worker w).fd with
      | none =>
        exact ih _ (hskip { s with idleQueryWorkers := w :: idle, pendingQueries := q :: pending } w idle rfl hfd hdropped)
      | some fd =>
        exact ih _ (hassign { s with idleQueryWorkers := w :: idle, pendingQueries := q :: pending } w idle fd q pending
          rfl hfd rfl hclient hdropped)

theorem processQueuesOn_child (child : List ℕ) (idle : List ℕ) (s : ProcManager) :
    processQueuesOn idle { s with child } = { processQueuesOn idle s with child } := by
  induction idle generalizing s with
  | nil => rfl
  | cons w idle ih =>
    have hclosed : (fun q : ClientQuery => decide (({ s with child } : ProcManager).ClientClosed q.client)) =
        fun q => decide (s.ClientClosed q.client) := rfl
    rw [processQueuesOn, processQueuesOn, hclosed]
    cases s.pendingQueries.dropWhile fun q => decide (s.ClientClosed q.client) with
    | nil => rfl
    | cons q pending =>
      cases (s.worker w).fd with
      | none => exact ih { s with pendingQueries := q :: pending }
      | some fd => exact ih ({ s with pendingQueries := pending }.assign w fd q)

/-- Only queries have moved, to workers that were idle. -/
structure Requeued (s s' : ProcManager) : Prop where
  next : s'.next = s.next
  closedClients : s'.closedClients = s.closedClients
  child : s'.child = s.child
  todie : s'.todie = s.todie
  min : s'.min = s.min
  current : s'.current = s.current
  accepted : s'.accepted = s.accepted
  responses : s'.responses = s.responses
  answers : s'.answers = s.answers
  notes : s'.notes = s.notes
  pid : ∀ w, (s'.worker w).pid = (s.worker w).pid
  fd : ∀ w, (s'.worker w).fd = (s.worker w).fd
  job : ∀ w, (s'.worker w).job = (s.worker w).job
  idle : s'.idleQueryWorkers <:+ s.idleQueryWorkers

theorem requeued_processQueues (s : ProcManager) : Requeued s s.processQueues := by
  refine processQueuesOn_inv (I := Requeued s) ?_ ?_ ?_ _ s ?_
  · rintro t ⟨⟩
    constructor <;> assumption
  · rintro t w idle hidle - h
    have hsuffix : idle <:+ s.idleQueryWorkers := (List.suffix_cons w idle).trans (hidle ▸ h.idle)
    exact ⟨h.next, h.closedClients, h.child, h.todie, h.min, h.current, h.accepted, h.responses, h.answers, h.notes,
      h.pid, h.fd, h.job, hsuffix⟩
  · rintro t w idle fd q pending hidle - - - h
    have hsuffix : idle <:+ s.idleQueryWorkers := (List.suffix_cons w idle).trans (hidle ▸ h.idle)
    exact ⟨h.next, h.closedClients, h.child, h.todie, h.min, h.current, h.accepted, h.responses, h.answers, h.notes,
      fun x => (assign_pid ..).trans (h.pid x), fun x => (assign_fd ..).trans (h.fd x),
      fun x => (assign_job ..).trans (h.job x), hsuffix⟩
  · exact ⟨rfl, rfl, rfl, rfl, rfl, rfl, rfl, rfl, rfl, rfl, fun _ => rfl, fun _ => rfl, fun _ => rfl,
      List.suffix_rfl⟩

/-! ### What always holds -/

/-- What the tables of connections keep. -/
structure Wired (s : ProcManager) : Prop where
  open_child : ∀ w, s.Open w → w ∈ s.child
  child_lt : ∀ w ∈ s.child, w < s.next
  child_nodup : s.child.Nodup
  pid_inj : ∀ w ∈ s.child, ∀ w' ∈ s.child, (s.worker w).pid = (s.worker w').pid → w = w'
  fd_inj : ∀ w w' fd, (s.worker w).fd = some fd → (s.worker w').fd = some fd → w = w'
  mapped_open : ∀ fd q, s.mappings fd = some q → ∃ w, (s.worker w).fd = some fd
  idle_lt : ∀ w ∈ s.idleQueryWorkers, w < s.next
  idle_job : ∀ w ∈ s.idleQueryWorkers, (s.worker w).job = .queryworker
  idle_nodup : s.idleQueryWorkers.Nodup
  idle_unmapped : ∀ w ∈ s.idleQueryWorkers, s.mapped w = none
  note_lt : ∀ n ∈ s.notes, n.conn < s.next

theorem mapped_of_fd {fd : ℕ} (h : (s.worker w).fd = some fd) : s.mapped w = s.mappings fd := by
  rw [mapped, h, Option.bind_some]

theorem mapped_of_closed (h : (s.worker w).fd = none) : s.mapped w = none := by
  rw [mapped, h, Option.bind_none]

theorem open_of_fd {fd : ℕ} (h : (s.worker w).fd = some fd) : s.Open w := by
  rw [Open, h]
  rfl

theorem open_of_mapped {q : ClientQuery} (h : s.mapped w = some q) : s.Open w := by
  cases hfd : (s.worker w).fd with
  | none =>
    rw [mapped_of_closed hfd] at h
    cases h
  | some fd => exact open_of_fd hfd

theorem wired_init (min : Job → ℕ) : (init min).Wired where
  open_child := fun _ h => absurd h Bool.false_ne_true
  child_lt := fun _ h => absurd h List.not_mem_nil
  child_nodup := List.nodup_nil
  pid_inj := fun _ h => absurd h List.not_mem_nil
  fd_inj := fun _ _ fd h => absurd h (Option.some_ne_none fd).symm
  mapped_open := fun _ q h => absurd h (Option.some_ne_none q).symm
  idle_lt := fun _ h => absurd h List.not_mem_nil
  idle_job := fun _ h => absurd h List.not_mem_nil
  idle_nodup := List.nodup_nil
  idle_unmapped := fun _ h => absurd h List.not_mem_nil
  note_lt := fun _ h => absurd h List.not_mem_nil

namespace Wired

/-- The other tables do not matter. -/
theorem other (h : s.Wired) (closedClients : List ℕ) (pendingQueries : List ClientQuery) (todie : List ℕ)
    (min : Job → ℕ) (current : Job → ℤ) (allkidsup : Bool) (lastspawntime : ℕ) (accepted : List ClientQuery)
    (requests : ℕ → List ClientQuery) (responses : ℕ → ℕ) (answers : List Answer) :
    Wired { s with
      closedClients, pendingQueries, todie, min, current, allkidsup, lastspawntime, accepted, requests, responses,
      answers } :=
  ⟨h.open_child, h.child_lt, h.child_nodup, h.pid_inj, h.fd_inj, h.mapped_open, h.idle_lt, h.idle_job, h.idle_nodup,
    h.idle_unmapped, h.note_lt⟩

theorem skip (h : s.Wired) {idle : List ℕ} (hidle : s.idleQueryWorkers = w :: idle) :
    Wired { s with idleQueryWorkers := idle } where
  open_child := h.open_child
  child_lt := h.child_lt
  child_nodup := h.child_nodup
  pid_inj := h.pid_inj
  fd_inj := h.fd_inj
  mapped_open := h.mapped_open
  idle_lt := fun x hx => h.idle_lt x (hidle ▸ List.mem_cons_of_mem w hx)
  idle_job := fun x hx => h.idle_job x (hidle ▸ List.mem_cons_of_mem w hx)
  idle_nodup := (List.nodup_cons.mp (hidle ▸ h.idle_nodup)).2
  idle_unmapped := fun x hx => h.idle_unmapped x (hidle ▸ List.mem_cons_of_mem w hx)
  note_lt := h.note_lt

/-- An idle worker gets a query. -/
theorem assign (h : s.Wired) {fd : ℕ} (hfd : (s.worker w).fd = some fd) (hidle : w ∉ s.idleQueryWorkers)
    (q : ClientQuery) : (s.assign w fd q).Wired where
  open_child := fun x hx => h.open_child x (by simpa [Open] using hx)
  child_lt := h.child_lt
  child_nodup := h.child_nodup
  pid_inj := fun x hx y hy hpid => h.pid_inj x hx y hy (by simpa using hpid)
  fd_inj := fun x y fd' hx hy => h.fd_inj x y fd' (by simpa using hx) (by simpa using hy)
  mapped_open := by
    intro fd' q' hq'
    by_cases hsame : fd' = fd
    · exact ⟨w, by rw [assign_fd, hfd, hsame]⟩
    · have hold : s.mappings fd' = some q' := (Function.update_of_ne hsame _ _).symm.trans hq'
      obtain ⟨x, hx⟩ := h.mapped_open fd' q' hold
      exact ⟨x, by rw [assign_fd, hx]⟩
  idle_lt := h.idle_lt
  idle_job := fun x hx => by
    rw [assign_job]
    exact h.idle_job x hx
  idle_nodup := h.idle_nodup
  idle_unmapped := by
    intro x hx
    have hne : x ≠ w := fun heq => hidle (heq ▸ hx)
    have hx' := h.idle_unmapped x hx
    cases hfd' : (s.worker x).fd with
    | none => exact mapped_of_closed (by rw [assign_fd, hfd'])
    | some fd' =>
      have hother : fd' ≠ fd := fun heq => hne (h.fd_inj x w fd (heq ▸ hfd') hfd)
      rw [mapped_of_fd hfd'] at hx'
      rw [mapped_of_fd (s := s.assign w fd q) (by rw [assign_fd, hfd']), ProcManager.assign]
      exact (Function.update_of_ne hother _ _).trans hx'
  note_lt := h.note_lt

theorem processQueues (h : s.Wired) : s.processQueues.Wired := by
  refine processQueuesOn_inv ?_ ?_ ?_ _ s h
  · intro t ht
    exact ht.other ..
  · intro t w idle hidle _ ht
    exact ht.skip hidle
  · intro t w idle fd q pending hidle hfd _ _ ht
    have hnot : w ∉ idle := (List.nodup_cons.mp (hidle ▸ ht.idle_nodup)).1
    exact ((ht.skip hidle).other ..).assign hfd hnot q

theorem unmap (h : s.Wired) (w : ℕ) : (s.unmap w).Wired := by
  unfold ProcManager.unmap
  split
  · exact h
  · rename_i fd hfd
    refine ⟨h.open_child, h.child_lt, h.child_nodup, h.pid_inj, h.fd_inj, ?_, h.idle_lt, h.idle_job, h.idle_nodup, ?_,
      h.note_lt⟩
    · intro fd' q hq
      have hmapped : Function.update s.mappings fd none fd' = some q := hq
      by_cases hsame : fd' = fd
      · rw [hsame, Function.update_self] at hmapped
        cases hmapped
      · rw [Function.update_of_ne hsame] at hmapped
        exact h.mapped_open fd' q hmapped
    · intro x hx
      have hx' := h.idle_unmapped x hx
      cases hfd' : (s.worker x).fd with
      | none => exact mapped_of_closed hfd'
      | some fd' =>
        rw [mapped_of_fd hfd'] at hx'
        show (s.worker x).fd.bind (Function.update s.mappings fd none) = none
        rw [hfd', Option.bind_some]
        by_cases hsame : fd' = fd
        · rw [hsame, Function.update_self]
        · rw [Function.update_of_ne hsame, hx']

theorem askWorkerToDie (h : s.Wired) (hw : w < s.next) : (s.askWorkerToDie w).Wired where
  open_child := h.open_child
  child_lt := h.child_lt
  child_nodup := h.child_nodup
  pid_inj := h.pid_inj
  fd_inj := h.fd_inj
  mapped_open := h.mapped_open
  idle_lt := h.idle_lt
  idle_job := h.idle_job
  idle_nodup := h.idle_nodup
  idle_unmapped := h.idle_unmapped
  note_lt := by
    intro n hn
    rcases List.mem_cons.mp hn with rfl | hn
    · exact hw
    · exact h.note_lt n hn

end Wired

/-! ### The mapping of a worker goes -/

theorem unmap_eq (s : ProcManager) (w : ℕ) : s.unmap w = { s with mappings := (s.unmap w).mappings } := by
  unfold unmap
  split <;> rfl

theorem mapped_unmap (s : ProcManager) (w : ℕ) : (s.unmap w).mapped w = none := by
  unfold unmap
  split
  · rename_i hfd
    exact mapped_of_closed hfd
  · rename_i fd hfd
    show (s.worker w).fd.bind (Function.update s.mappings fd none) = none
    rw [hfd, Option.bind_some, Function.update_self]

theorem mapped_unmap_of_ne (h : s.Wired) {x : ℕ} (hx : x ≠ w) : (s.unmap w).mapped x = s.mapped x := by
  unfold unmap
  split
  · rfl
  · rename_i fd hfd
    show (s.worker x).fd.bind (Function.update s.mappings fd none) = (s.worker x).fd.bind s.mappings
    cases hfd' : (s.worker x).fd with
    | none => rfl
    | some fd' =>
      have hother : fd' ≠ fd := fun heq => hx (h.fd_inj x w fd (heq ▸ hfd') hfd)
      rw [Option.bind_some, Option.bind_some, Function.update_of_ne hother]

namespace Wired

theorem pushIdle (h : s.Wired) (hw : w < s.next) (hjob : (s.worker w).job = .queryworker) (hmapped : s.mapped w = none)
    (hidle : w ∉ s.idleQueryWorkers) :
    Wired { s with idleQueryWorkers := s.idleQueryWorkers ++ [w], notes := .idle w :: s.notes } where
  open_child := h.open_child
  child_lt := h.child_lt
  child_nodup := h.child_nodup
  pid_inj := h.pid_inj
  fd_inj := h.fd_inj
  mapped_open := h.mapped_open
  idle_lt := List.forall_mem_append.mpr ⟨h.idle_lt, List.forall_mem_singleton.mpr hw⟩
  idle_job := List.forall_mem_append.mpr ⟨h.idle_job, List.forall_mem_singleton.mpr hjob⟩
  idle_nodup := by
    rw [List.nodup_append_comm, List.singleton_append]
    exact List.nodup_cons.mpr ⟨hidle, h.idle_nodup⟩
  idle_unmapped := List.forall_mem_append.mpr ⟨h.idle_unmapped, List.forall_mem_singleton.mpr hmapped⟩
  note_lt := List.forall_mem_cons.mpr ⟨hw, h.note_lt⟩

theorem noteIdleQueryWorker (h : s.Wired) (hw : w < s.next) (hjob : (s.worker w).job = .queryworker)
    (hidle : w ∉ s.idleQueryWorkers) : (s.noteIdleQueryWorker w).Wired := by
  have hunmapped := mapped_unmap s w
  have hwired := h.unmap w
  rw [unmap_eq] at hunmapped hwired
  unfold ProcManager.noteIdleQueryWorker
  rw [unmap_eq]
  extract_lets t
  split_ifs
  · exact hwired.askWorkerToDie hw
  · exact (hwired.pushIdle hw hjob hunmapped hidle).processQueues

theorem cullOn (idle : List ℕ) (h : Wired { s with idleQueryWorkers := idle }) : (cullOn idle s).Wired := by
  induction idle generalizing s with
  | nil => exact h
  | cons w idle ih =>
    unfold ProcManager.cullOn
    split_ifs
    · exact ih ((h.skip rfl).askWorkerToDie (h.idle_lt w List.mem_cons_self))
    · exact h

theorem want (h : s.Wired) (count : ℕ) (job : Job) : (s.want count job).Wired := by
  unfold ProcManager.want requestJobProcess
  extract_lets t
  have ht : t.Wired := h.other ..
  split_ifs
  · exact cullOn _ ht
  · exact ht

theorem noteDeadWorkerConn (h : s.Wired) (w : ℕ) : (s.noteDeadWorkerConn w).Wired := by
  unfold ProcManager.noteDeadWorkerConn
  split
  · exact h
  · exact Wired.processQueues ((h.unmap w).other ..)

end Wired

theorem requeued_noteDeadWorkerConn (s : ProcManager) (w : ℕ) : Requeued s (s.noteDeadWorkerConn w) := by
  unfold noteDeadWorkerConn
  split
  · exact ⟨rfl, rfl, rfl, rfl, rfl, rfl, rfl, rfl, rfl, rfl, fun _ => rfl, fun _ => rfl, fun _ => rfl,
      List.suffix_rfl⟩
  · rename_i q hq
    rw [unmap_eq]
    have h := requeued_processQueues { s with
      mappings := (s.unmap w).mappings
      pendingQueries := q :: s.pendingQueries }
    exact ⟨h.next, h.closedClients, h.child, h.todie, h.min, h.current, h.accepted, h.responses, h.answers, h.notes,
      h.pid, h.fd, h.job, h.idle⟩

theorem mapped_noteDeadWorkerConn (h : s.Wired) (hidle : w ∉ s.idleQueryWorkers ∨ s.mapped w = none) :
    (s.noteDeadWorkerConn w).mapped w = none := by
  unfold noteDeadWorkerConn
  split
  · assumption
  · rename_i q hq
    have hnot : w ∉ s.idleQueryWorkers := hidle.resolve_right fun hnone => by
      rw [hq] at hnone
      cases hnone
    -- a worker that is not idle gets no query
    refine (processQueuesOn_inv (I := fun t => t.mapped w = none ∧ t.Wired ∧ w ∉ t.idleQueryWorkers) ?_ ?_ ?_ _ _ ?_).1
    · rintro t ⟨hnone, hwired, hnot⟩
      exact ⟨hnone, hwired.other .., hnot⟩
    · rintro t x idle hidle - ⟨hnone, hwired, hnot⟩
      exact ⟨hnone, hwired.skip hidle, fun hmem => hnot (hidle ▸ List.mem_cons_of_mem x hmem)⟩
    · rintro t x idle fd q' pending hidle hfd - - ⟨hnone, hwired, hnot⟩
      have hx : x ∉ idle := (List.nodup_cons.mp (hidle ▸ hwired.idle_nodup)).1
      have hne : w ≠ x := fun heq => hnot (hidle ▸ heq ▸ List.mem_cons_self)
      refine ⟨?_, ((hwired.skip hidle).other ..).assign hfd hx q', fun hmem => hnot (hidle ▸ List.mem_cons_of_mem x hmem)⟩
      rw [mapped, assign_fd]
      show (t.worker w).fd.bind (Function.update t.mappings fd (some q')) = none
      cases hfd' : (t.worker w).fd with
      | none => rfl
      | some fd' =>
        have hother : fd' ≠ fd := fun heq => hne (hwired.fd_inj w x fd (heq ▸ hfd') hfd)
        rw [Option.bind_some, Function.update_of_ne hother]
        rwa [mapped_of_fd hfd'] at hnone
    · have hunmapped := mapped_unmap s w
      have hwired := h.unmap w
      rw [unmap_eq] at hunmapped hwired ⊢
      exact ⟨hunmapped, hwired.other .., hnot⟩

namespace Wired

theorem closeWorker (h : s.Wired) (w : ℕ) : (s.closeWorker w).Wired := by
  have hdead := h.noteDeadWorkerConn w
  have hunmapped : (s.noteDeadWorkerConn w).mapped w = none := by
    refine mapped_noteDeadWorkerConn h ?_
    by_cases hidle : w ∈ s.idleQueryWorkers
    · exact .inr (h.idle_unmapped w hidle)
    · exact .inl hidle
  unfold ProcManager.closeWorker
  extract_lets t
  have hfd : ∀ x, ((Function.update t.worker w { t.worker w with fd := none }) x).fd =
      if x = w then none else (t.worker x).fd := by
    intro x
    by_cases hx : x = w
    · simp [hx]
    · simp [hx]
  have hpid : ∀ x, ((Function.update t.worker w { t.worker w with fd := none }) x).pid = (t.worker x).pid := by
    intro x
    by_cases hx : x = w
    · simp [hx]
    · simp [hx]
  have hjob : ∀ x, ((Function.update t.worker w { t.worker w with fd := none }) x).job = (t.worker x).job := by
    intro x
    by_cases hx : x = w
    · simp [hx]
    · simp [hx]
  refine ⟨?_, hdead.child_lt, hdead.child_nodup, ?_, ?_, ?_, hdead.idle_lt, ?_, hdead.idle_nodup, ?_, hdead.note_lt⟩
  · intro x hx
    rw [Open, hfd] at hx
    split_ifs at hx with hsame
    · cases hx
    · exact hdead.open_child x hx
  · intro x hx y hy heq
    rw [hpid, hpid] at heq
    exact hdead.pid_inj x hx y hy heq
  · intro x y fd hx hy
    rw [hfd] at hx hy
    split_ifs at hx hy
    exact hdead.fd_inj x y fd hx hy
  · intro fd q hq
    obtain ⟨x, hx⟩ := hdead.mapped_open fd q hq
    refine ⟨x, ?_⟩
    rw [hfd, if_neg, hx]
    rintro rfl
    rw [mapped_of_fd hx] at hunmapped
    exact absurd (hunmapped.symm.trans hq) (Option.some_ne_none q).symm
  · intro x hx
    rw [hjob]
    exact hdead.idle_job x hx
  · intro x hx
    rw [mapped, hfd]
    split_ifs
    · rfl
    · exact hdead.idle_unmapped x hx

end Wired

/-! ### Children come and go -/

theorem processQueues_child (s : ProcManager) (child : List ℕ) :
    ({ s with child } : ProcManager).processQueues = { s.processQueues with child } :=
  processQueuesOn_child child s.idleQueryWorkers s

theorem unmap_child (s : ProcManager) (child : List ℕ) (w : ℕ) :
    ({ s with child } : ProcManager).unmap w = { s.unmap w with child } := by
  unfold unmap
  dsimp only
  split <;> rfl

theorem noteIdleQueryWorker_child (s : ProcManager) (child : List ℕ) (w : ℕ) :
    ({ s with child } : ProcManager).noteIdleQueryWorker w = { s.noteIdleQueryWorker w with child } := by
  have hneeds : ({ s.unmap w with child } : ProcManager).jobNeedsReduction .queryworker =
      (s.unmap w).jobNeedsReduction .queryworker := rfl
  rw [noteIdleQueryWorker, noteIdleQueryWorker, unmap_child]
  dsimp only
  rw [hneeds]
  split_ifs
  · rfl
  · exact processQueues_child { s.unmap w with
      idleQueryWorkers := (s.unmap w).idleQueryWorkers ++ [w]
      notes := .idle w :: (s.unmap w).notes } child

theorem closeWorker_child (s : ProcManager) (child : List ℕ) (w : ℕ) :
    ({ s with child } : ProcManager).closeWorker w = { s.closeWorker w with child } := by
  have hdead : ({ s with child } : ProcManager).noteDeadWorkerConn w = { s.noteDeadWorkerConn w with child } := by
    have hmapped : ({ s with child } : ProcManager).mapped w = s.mapped w := rfl
    rw [noteDeadWorkerConn, noteDeadWorkerConn, unmap_child, hmapped]
    cases s.mapped w with
    | none => rfl
    | some q => exact processQueues_child { s.unmap w with pendingQueries := q :: s.pendingQueries } child
  rw [closeWorker, hdead]
  rfl

/-- `reap` with the child found. -/
theorem reap_eq {pid : ℕ} (hfind : (s.child.find? fun w => (s.worker w).pid = pid) = some w) :
    s.reap pid = ProcManager.noteDeath { s.closeWorker w with
      child := s.child.filter fun w' => (s.worker w').pid ≠ pid } w := by
  rw [reap, hfind]
  dsimp only
  rw [closeWorker_child]

theorem reap_of_none {pid : ℕ} (hfind : (s.child.find? fun w => (s.worker w).pid = pid) = none) :
    s.reap pid = s := by
  rw [reap, hfind]

theorem closeWorker_conn (s : ProcManager) (w x : ℕ) :
    ((s.closeWorker w).worker x).fd = (if x = w then none else (s.worker x).fd) ∧
      ((s.closeWorker w).worker x).pid = (s.worker x).pid ∧ ((s.closeWorker w).worker x).job = (s.worker x).job := by
  have hdead := requeued_noteDeadWorkerConn s w
  by_cases hx : x = w
  · subst hx
    simp [closeWorker, hdead.pid, hdead.job]
  · simp [closeWorker, hx, hdead.pid, hdead.fd, hdead.job]

/-- A new child, before its connection is put to use. -/
def newConn (s : ProcManager) (job : Job) (pid fd : ℕ) : ProcManager :=
  { s with
    worker := Function.update s.worker s.next ⟨pid, some fd, job, 0⟩
    next := s.next + 1
    child := s.child ++ [s.next] }

theorem newConn_worker (s : ProcManager) (job : Job) (pid fd : ℕ) :
    (s.newConn job pid fd).worker s.next = ⟨pid, some fd, job, 0⟩ := Function.update_self ..

/-- A query worker is put into the idle list. -/
theorem addChild_eq (s : ProcManager) (job : Job) (pid fd : ℕ) :
    s.addChild job pid fd =
      let t := if job = .queryworker then (s.newConn job pid fd).noteIdleQueryWorker s.next else s.newConn job pid fd
      { t with current := Function.update t.current job (t.current job + 1) } := by
  have hcomm (child : List ℕ) := noteIdleQueryWorker_child { s with
    worker := Function.update s.worker s.next ⟨pid, some fd, job, 0⟩
    next := s.next + 1 } child s.next
  have hchild := congrArg ProcManager.child (hcomm s.child)
  rw [addChild, registerWorkerConn, newConn]
  dsimp only at hchild ⊢
  split_ifs
  · rw [hcomm (s.child ++ [s.next]), hchild]
  · rfl

theorem noteDeath_eq (s : ProcManager) (w : ℕ) :
    s.noteDeath w = { s with todie := (s.noteDeath w).todie, current := (s.noteDeath w).current } := by
  unfold noteDeath
  split_ifs <;> rfl

namespace Wired

theorem reap (h : s.Wired) (pid : ℕ) : (s.reap pid).Wired := by
  cases hfind : s.child.find? fun w => (s.worker w).pid = pid with
  | none =>
    rw [reap_of_none hfind]
    exact h
  | some w =>
    rw [reap_eq hfind, noteDeath_eq]
    have hclosed := h.closeWorker w
    have hchild : (s.closeWorker w).child = s.child := (requeued_noteDeadWorkerConn s w).child
    have hw : w ∈ s.child := List.mem_of_find?_eq_some hfind
    have hpid : (s.worker w).pid = pid := by simpa using List.find?_some hfind
    have hsub : ∀ x ∈ s.child.filter (fun w' => (s.worker w').pid ≠ pid), x ∈ s.child :=
      fun x hx => (List.mem_filter.mp hx).1
    refine ⟨?_, ?_, ?_, ?_, hclosed.fd_inj, hclosed.mapped_open, hclosed.idle_lt, hclosed.idle_job, hclosed.idle_nodup,
      hclosed.idle_unmapped, hclosed.note_lt⟩
    · intro x hx
      have hmem : x ∈ s.child := hchild ▸ hclosed.open_child x hx
      refine List.mem_filter.mpr ⟨hmem, ?_⟩
      rw [decide_eq_true_eq]
      intro heq
      have hsame : x = w := h.pid_inj x hmem w hw (heq.trans hpid.symm)
      rw [hsame, Open] at hx
      have hfd := (closeWorker_conn s w w).1
      rw [if_pos rfl] at hfd
      have hnone : ((s.closeWorker w).worker w).fd.isSome = true := hx
      rw [hfd] at hnone
      cases hnone
    · intro x hx
      exact hclosed.child_lt x (hchild.symm ▸ hsub x hx)
    · exact h.child_nodup.filter _
    · intro x hx y hy heq
      exact hclosed.pid_inj x (hchild.symm ▸ hsub x hx) y (hchild.symm ▸ hsub y hy) heq

/-- A new child with its connection. -/
theorem newConn (h : s.Wired) {job : Job} {pid fd : ℕ} (hfresh : s.FreshChild pid fd) :
    (s.newConn job pid fd).Wired := by
  have hold : ∀ x, x < s.next → Function.update s.worker s.next ⟨pid, some fd, job, 0⟩ x = s.worker x :=
    fun x hx => Function.update_of_ne (Nat.ne_of_lt hx) _ _
  have hnew : Function.update s.worker s.next ⟨pid, some fd, job, 0⟩ s.next = ⟨pid, some fd, job, 0⟩ :=
    Function.update_self ..
  have hopen_lt : ∀ x, s.Open x → x < s.next := fun x hx => h.child_lt x (h.open_child x hx)
  have hnext : (s.worker s.next).fd = none := by
    by_contra hne
    exact absurd (hopen_lt s.next (Option.ne_none_iff_isSome.mp hne)) (lt_irrefl _)
  -- the new connection, or an old one
  have hcases : ∀ x fd', ((Function.update s.worker s.next ⟨pid, some fd, job, 0⟩) x).fd = some fd' →
      (x = s.next ∧ fd' = fd) ∨ (x < s.next ∧ (s.worker x).fd = some fd') := by
    intro x fd' hx
    by_cases hsame : x = s.next
    · rw [hsame, hnew] at hx
      exact .inl ⟨hsame, (Option.some.inj hx).symm⟩
    · rw [Function.update_of_ne hsame] at hx
      exact .inr ⟨hopen_lt x (open_of_fd hx), hx⟩
  refine ⟨?_, ?_, ?_, ?_, ?_, ?_, ?_, ?_, h.idle_nodup, ?_, ?_⟩
  · intro x hx
    obtain ⟨fd', hfd'⟩ := Option.isSome_iff_exists.mp hx
    rcases hcases x fd' hfd' with ⟨rfl, -⟩ | ⟨-, hfd⟩
    · exact List.mem_append_right _ (List.mem_singleton_self _)
    · exact List.mem_append_left _ (h.open_child x (open_of_fd hfd))
  · refine List.forall_mem_append.mpr ⟨fun x hx => ?_, List.forall_mem_singleton.mpr (Nat.lt_succ_self _)⟩
    exact Nat.lt_succ_of_lt (h.child_lt x hx)
  · show (s.child ++ [s.next]).Nodup
    rw [List.nodup_append_comm, List.singleton_append]
    exact List.nodup_cons.mpr ⟨fun hmem => absurd (h.child_lt _ hmem) (lt_irrefl _), h.child_nodup⟩
  · have hpid : ∀ x ∈ s.child, ((Function.update s.worker s.next ⟨pid, some fd, job, 0⟩) x).pid ≠ pid := by
      intro x hx
      rw [hold x (h.child_lt x hx)]
      exact hfresh.1 x hx
    have hnewpid : ((Function.update s.worker s.next ⟨pid, some fd, job, 0⟩) s.next).pid = pid := by rw [hnew]
    intro x hx y hy heq
    rcases List.mem_append.mp hx with hx | hx
    · rcases List.mem_append.mp hy with hy | hy
      · refine h.pid_inj x hx y hy ?_
        rw [← hold x (h.child_lt x hx), ← hold y (h.child_lt y hy)]
        exact heq
      · rw [List.mem_singleton.mp hy] at heq
        exact absurd (heq.trans hnewpid) (hpid x hx)
    · rw [List.mem_singleton.mp hx] at heq ⊢
      rcases List.mem_append.mp hy with hy | hy
      · exact absurd (heq.symm.trans hnewpid) (hpid y hy)
      · exact (List.mem_singleton.mp hy).symm
  · intro x y fd' hx hy
    rcases hcases x fd' hx with ⟨rfl, rfl⟩ | ⟨hltx, hfdx⟩
    · rcases hcases y fd' hy with ⟨rfl, -⟩ | ⟨hlty, hfdy⟩
      · rfl
      · exact absurd hfdy (hfresh.2 y hlty)
    · rcases hcases y fd' hy with ⟨rfl, rfl⟩ | ⟨hlty, hfdy⟩
      · exact absurd hfdx (hfresh.2 x hltx)
      · exact h.fd_inj x y fd' hfdx hfdy
  · intro fd' q hq
    obtain ⟨x, hx⟩ := h.mapped_open fd' q hq
    refine ⟨x, ?_⟩
    show ((Function.update s.worker s.next ⟨pid, some fd, job, 0⟩) x).fd = some fd'
    rw [hold x (hopen_lt x (open_of_fd hx)), hx]
  · exact fun x hx => Nat.lt_succ_of_lt (h.idle_lt x hx)
  · intro x hx
    show ((Function.update s.worker s.next ⟨pid, some fd, job, 0⟩) x).job = .queryworker
    rw [hold x (h.idle_lt x hx)]
    exact h.idle_job x hx
  · intro x hx
    show ((Function.update s.worker s.next ⟨pid, some fd, job, 0⟩) x).fd.bind s.mappings = none
    rw [hold x (h.idle_lt x hx)]
    exact h.idle_unmapped x hx
  · exact fun n hn => Nat.lt_succ_of_lt (h.note_lt n hn)

theorem addChild (h : s.Wired) {job : Job} {pid fd : ℕ} (hfresh : s.FreshChild pid fd) :
    (s.addChild job pid fd).Wired := by
  have hnew : (s.newConn job pid fd).Wired := h.newConn hfresh
  have hidle : s.next ∉ s.idleQueryWorkers := fun hmem => absurd (h.idle_lt _ hmem) (lt_irrefl _)
  rw [addChild_eq]
  split_ifs with hjob
  · have hworker : ((s.newConn job pid fd).worker s.next).job = .queryworker := by
      rw [newConn_worker]
      exact hjob
    exact (hnew.noteIdleQueryWorker (Nat.lt_succ_self _) hworker hidle).other ..
  · exact hnew.other ..

end Wired

/-! ### A response -/

/-- A response has been read. -/
def counted (s : ProcManager) (w : ℕ) : ProcManager :=
  { s with responses := Function.update s.responses w (s.responses w + 1) }

/-- The line is the response to the request that the worker has. -/
def Matches (s : ProcManager) (w : ℕ) (line time res : Text) : Prop :=
  parseResponse line = some (requestId (s.worker w).pid (s.worker w).reqid, time, res)

/-- A response without a mapping is dropped; with one the worker becomes idle, the client gets the response unless it
has gone, and where the line does not match the client is closed and the worker asked to die. -/
theorem handleQueryWorkerResponse_cases (s : ProcManager) (w : ℕ) (line : Text) :
    (s.mapped w = none ∧ s.handleQueryWorkerResponse w line = s.counted w) ∨
      ∃ q, s.mapped w = some q ∧
        ((s.ClientClosed q.client ∧ s.handleQueryWorkerResponse w line = (s.counted w).noteIdleQueryWorker w) ∨
          (¬ s.ClientClosed q.client ∧ ∃ time res, s.Matches w line time res ∧
            s.handleQueryWorkerResponse w line = noteIdleQueryWorker { s.counted w with
              answers := ⟨q.client, w, (s.worker w).reqid, res⟩ :: s.answers } w) ∨
          (¬ s.ClientClosed q.client ∧ (∀ time res, ¬ s.Matches w line time res) ∧
            s.handleQueryWorkerResponse w line = (s.counted w).workerMismatch w q.client)) := by
  unfold handleQueryWorkerResponse
  extract_lets counted
  have hmapped : counted.mapped w = s.mapped w := rfl
  rw [hmapped]
  cases hq : s.mapped w with
  | none => exact .inl ⟨rfl, rfl⟩
  | some q =>
    refine .inr ⟨q, rfl, ?_⟩
    dsimp only
    by_cases hclosed : s.ClientClosed q.client
    · exact .inl ⟨hclosed, if_pos hclosed⟩
    · have hopen : ¬ counted.ClientClosed q.client := hclosed
      rw [if_neg hopen]
      refine .inr ?_
      cases hparse : parseResponse line with
      | none =>
        refine .inr ⟨hclosed, fun time res hmatch => ?_, rfl⟩
        rw [Matches, hparse] at hmatch
        cases hmatch
      | some parsed =>
        obtain ⟨id, time, res⟩ := parsed
        dsimp only
        by_cases hid : id = requestId (s.worker w).pid (s.worker w).reqid
        · exact .inl ⟨hclosed, time, res, by rw [Matches, hparse, hid], if_pos hid⟩
        · refine .inr ⟨hclosed, fun time' res' hmatch => hid ?_, if_neg hid⟩
          rw [Matches, hparse, Option.some.injEq, Prod.mk.injEq] at hmatch
          exact hmatch.1

/-! ### The check after the event loop -/

theorem noteIdleQueryWorker_of_not_needs (h : s.jobNeedsReduction .queryworker = false) (w : ℕ) :
    s.noteIdleQueryWorker w = ProcManager.processQueues { s with
      mappings := (s.unmap w).mappings
      idleQueryWorkers := s.idleQueryWorkers ++ [w]
      notes := .idle w :: s.notes } := by
  have hneeds : (s.unmap w).jobNeedsReduction .queryworker = false := by
    rw [unmap_eq]
    exact h
  rw [noteIdleQueryWorker, hneeds, unmap_eq]
  exact if_neg Bool.false_ne_true

theorem addChild_min_current (s : ProcManager) {job : Job} (pid fd : ℕ) (h : s.current job < s.min job) :
    (s.addChild job pid fd).min = s.min ∧
      (s.addChild job pid fd).current = Function.update s.current job (s.current job + 1) := by
  rw [addChild_eq]
  split_ifs with hjob
  · subst hjob
    have hneeds : (s.newConn .queryworker pid fd).jobNeedsReduction .queryworker = false :=
      decide_eq_false (not_lt.mpr h.le)
    rw [noteIdleQueryWorker_of_not_needs hneeds]
    have hqueued := requeued_processQueues { s.newConn .queryworker pid fd with
      mappings := ((s.newConn .queryworker pid fd).unmap s.next).mappings
      idleQueryWorkers := s.idleQueryWorkers ++ [s.next]
      notes := .idle s.next :: s.notes }
    exact ⟨hqueued.min, congrArg (fun current : Job → ℤ =>
      Function.update current .queryworker (current .queryworker + 1)) hqueued.current⟩
  · exact ⟨rfl, rfl⟩

section Spawn

variable {I : ProcManager → Prop}
  (hadd : ∀ s job pid fd, s.current job < s.min job → s.FreshChild pid fd → I s → I (s.addChild job pid fd))

include hadd

theorem addChildren_inv {job : Job} {need : ℕ} {forks : List (Option (ℕ × ℕ))} (s : ProcManager)
    (hneed : (need : ℤ) ≤ s.min job - s.current job) (h : I s) : I (addChildren job need forks s).1 := by
  induction need generalizing s forks with
  | zero => exact h
  | succ need ih =>
    cases forks with
    | nil => exact h
    | cons fork forks =>
      cases fork with
      | none => exact h
      | some fork =>
        obtain ⟨pid, fd⟩ := fork
        rw [addChildren]
        split_ifs with hfresh
        · have hless : s.current job < s.min job := by omega
          obtain ⟨hmin, hcurrent⟩ := s.addChild_min_current pid fd hless
          refine ih _ ?_ (hadd s job pid fd hless hfresh h)
          rw [hmin, hcurrent, Function.update_self]
          omega
        · exact h

theorem spawn_inv (hup : ∀ s, I s → I { s with allkidsup := true }) (jobs : List Job) (forks : List (Option (ℕ × ℕ)))
    (s : ProcManager) (h : I s) : I (spawn jobs forks s) := by
  induction jobs generalizing s forks with
  | nil => exact hup s h
  | cons job jobs ih =>
    have hadded : I (addChildren job (s.min job - s.current job).toNat forks s).1 := by
      by_cases hneed : 0 ≤ (s.min job : ℤ) - s.current job
      · exact addChildren_inv hadd s (by omega) h
      · rw [show (s.min job - s.current job : ℤ).toNat = 0 by omega]
        exact h
    rw [spawn]
    generalize addChildren job (s.min job - s.current job).toNat forks s = added at hadded ⊢
    obtain ⟨t, forks', up⟩ := added
    cases up with
    | true => exact ih forks' t hadded
    | false => exact hadded

end Spawn

namespace Wired

theorem workerLine (h : s.Wired) (hopen : s.Open w) (line : Text) : (s.workerLine w line).Wired := by
  have hw : w < s.next := h.child_lt w (h.open_child w hopen)
  unfold ProcManager.workerLine
  split_ifs with hresponse
  · have hcounted : (s.counted w).Wired := h.other ..
    rcases handleQueryWorkerResponse_cases s w line with
      ⟨-, heq⟩ | ⟨q, hq, ⟨-, heq⟩ | ⟨-, time, res, -, heq⟩ | ⟨-, -, heq⟩⟩
    · rw [heq]
      exact hcounted
    all_goals
      have hidle : w ∉ s.idleQueryWorkers := fun hmem => by
        rw [h.idle_unmapped w hmem] at hq
        cases hq
      rw [heq]
    · exact hcounted.noteIdleQueryWorker hw hresponse.1 hidle
    · exact Wired.noteIdleQueryWorker (h.other ..) hw hresponse.1 hidle
    · exact Wired.askWorkerToDie (h.other ..) hw
  · unfold ProcManager.handleChildRequest
    split_ifs
    · exact h.askWorkerToDie hw
    · exact h
    · exact h

theorem postEventLoop (h : s.Wired) (now : ℕ) (waited : Option ℕ) (jobs : List Job) (forks : List (Option (ℕ × ℕ))) :
    (s.postEventLoop now waited jobs forks).Wired := by
  have hspawn : ∀ {t : ProcManager}, t.Wired → (spawn jobs forks t).Wired := fun {t} ht =>
    spawn_inv (fun _ _ _ _ _ hfresh hs => hs.addChild hfresh) (fun _ hs => hs.other ..) jobs forks t ht
  unfold ProcManager.postEventLoop
  split_ifs with hnow
  · exact h
  · extract_lets t u v
    split_ifs
    · exact h.other ..
    · refine hspawn ?_
      have hu : u.Wired := h.other ..
      cases waited with
      | none => exact hu
      | some pid => exact hu.reap pid

theorem enqueueCommandRequest (h : s.Wired) (client : ℕ) (ip : Option Text) (line : Text) :
    (s.enqueueCommandRequest client ip line).Wired := Wired.processQueues (h.other ..)

theorem handle (h : s.Wired) (event : Event) : (s.handle event).Wired := by
  cases event with
  | enqueue client ip line =>
    rw [ProcManager.handle]
    split_ifs
    · exact h
    · exact h.enqueueCommandRequest client ip line
  | closeClient client => exact h.other ..
  | line w line =>
    rw [ProcManager.handle]
    split_ifs with hopen
    · exact h.workerLine hopen line
    · exact h
  | closeWorker w => exact h.closeWorker w
  | want count job => exact h.want count job
  | postEventLoop now waited jobs forks => exact h.postEventLoop now waited jobs forks

end Wired

theorem wired_after (min : Job → ℕ) (events : List Event) : (after min events).Wired :=
  foldl_inv (wired_init min) (fun _ event h => h.handle event) events

end ProcManager

end Ylem
