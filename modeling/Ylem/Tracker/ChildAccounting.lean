import Ylem.Tracker.Connections

/-!
# The count of children

The parent keeps a count of the running children of each job, from which it takes one when it asks a child to die
and, when a child dies, unless it had asked for that. The count is right, no child is asked to die twice and none is
put back into the idle list after it was asked (`Balanced`), as long as a child that was asked to die sends no more
lines that make the parent look at its job, and no idle worker is asked to die that has been reaped (`Careful`):
`balanced_iff`. The parent checks neither.
-/

namespace Ylem

namespace ProcManager

variable {s s' : ProcManager} {w : ℕ}

/-- The child has been asked to die. -/
def Asked (s : ProcManager) (w : ℕ) : Prop := .shutdown w ∈ s.notes

instance (s : ProcManager) (w : ℕ) : Decidable (s.Asked w) := inferInstanceAs (Decidable (_ ∈ _))

/-- The children of a job that have not been asked to die. -/
def running (s : ProcManager) (job : Job) : ℕ :=
  s.child.countP fun w => decide ((s.worker w).job = job) && !decide (s.Asked w)

/-- The count of each job is that of its children that have not been asked to die; and a child that was asked to die
is neither asked again nor put into the idle list. -/
structure Balanced (s : ProcManager) : Prop where
  count : ∀ job, s.current job = s.running job
  once : s.notes.Pairwise fun newer older => older ≠ .shutdown newer.conn

/-- A child that was asked to die does not respond to a query and does not ping while there are too many; where `!want`
asks idle workers to die, none of them has been reaped. -/
def Careful (s : ProcManager) : Event → Prop
  | .line w line => s.Open w → s.Asked w →
      if s.IsResponse w line then s.mapped w = none
      else ¬ (line = ":ping".toList ∧ s.jobNeedsReduction (s.worker w).job = true)
  | .want count .queryworker =>
      ∀ w ∈ s.idleQueryWorkers.take (s.current .queryworker - (if 500 < count then 500 else count : ℕ)).toNat, w ∈ s.child
  | _ => True

/-- What the accounts keep while they are balanced. -/
structure Accounted (s : ProcManager) : Prop extends s.Wired, s.Balanced where
  todie_iff : ∀ w ∈ s.child, (s.worker w).pid ∈ s.todie ↔ s.Asked w
  todie_child : ∀ pid ∈ s.todie, ∃ w ∈ s.child, (s.worker w).pid = pid
  idle_unasked : ∀ w ∈ s.idleQueryWorkers, ¬ s.Asked w

/-- Between two events no query worker is idle if there are too many. -/
structure Sound (s : ProcManager) : Prop extends s.Accounted where
  reduced : s.jobNeedsReduction .queryworker = true → s.idleQueryWorkers = []

/-! ### Steps that do not touch the accounts -/

/-- Nothing that the accounts depend on has changed, except that the idle list may be shorter. -/
structure SameAccounts (s s' : ProcManager) : Prop where
  child : s'.child = s.child
  todie : s'.todie = s.todie
  min : s'.min = s.min
  current : s'.current = s.current
  notes : s'.notes = s.notes
  pid : ∀ w, (s'.worker w).pid = (s.worker w).pid
  job : ∀ w, (s'.worker w).job = (s.worker w).job
  idle : s'.idleQueryWorkers <:+ s.idleQueryWorkers

theorem Requeued.sameAccounts (h : Requeued s s') : SameAccounts s s' :=
  ⟨h.child, h.todie, h.min, h.current, h.notes, h.pid, h.job, h.idle⟩

theorem SameAccounts.asked (h : SameAccounts s s') : s'.Asked w ↔ s.Asked w := by
  rw [Asked, h.notes]
  rfl

theorem SameAccounts.running (h : SameAccounts s s') (job : Job) : s'.running job = s.running job := by
  rw [ProcManager.running, ProcManager.running, h.child]
  refine List.countP_congr fun w _ => ?_
  simp only [h.job, h.asked]

theorem SameAccounts.accounted (h : SameAccounts s s') (hs : s.Accounted) (hwired : s'.Wired) : s'.Accounted where
  toWired := hwired
  count job := by rw [h.current, h.running, hs.count]
  once := h.notes ▸ hs.once
  todie_iff w hw := by
    rw [h.pid, h.todie, h.asked]
    exact hs.todie_iff w (h.child ▸ hw)
  todie_child pid hpid := by
    obtain ⟨w, hw, heq⟩ := hs.todie_child pid (h.todie ▸ hpid)
    exact ⟨w, h.child ▸ hw, (h.pid w).trans heq⟩
  idle_unasked w hw := by
    rw [h.asked]
    exact hs.idle_unasked w (h.idle.subset hw)

theorem SameAccounts.sound (h : SameAccounts s s') (hs : s.Sound) (hwired : s'.Wired) : s'.Sound where
  toAccounted := h.accounted hs.toAccounted hwired
  reduced hneeds := by
    rw [jobNeedsReduction, h.min, h.current] at hneeds
    have hidle := h.idle
    rw [hs.reduced hneeds] at hidle
    exact List.suffix_nil.mp hidle

/-- The other tables do not matter. -/
theorem Sound.other (h : s.Sound) (closedClients : List ℕ) (pendingQueries : List ClientQuery) (allkidsup : Bool)
    (lastspawntime : ℕ) (accepted : List ClientQuery) (requests : ℕ → List ClientQuery) (responses : ℕ → ℕ)
    (answers : List Answer) :
    Sound { s with
      closedClients, pendingQueries, allkidsup, lastspawntime, accepted, requests, responses, answers } :=
  ⟨⟨h.toWired.other .., ⟨h.count, h.once⟩, h.todie_iff, h.todie_child, h.idle_unasked⟩, h.reduced⟩

theorem Sound.processQueues (h : s.Sound) : s.processQueues.Sound :=
  (requeued_processQueues s).sameAccounts.sound h h.toWired.processQueues

theorem sameAccounts_unmap (s : ProcManager) (w : ℕ) : SameAccounts s (s.unmap w) := by
  rw [unmap_eq]
  exact ⟨rfl, rfl, rfl, rfl, rfl, fun _ => rfl, fun _ => rfl, List.suffix_rfl⟩

theorem sameAccounts_closeWorker (s : ProcManager) (w : ℕ) : SameAccounts s (s.closeWorker w) := by
  have h := requeued_noteDeadWorkerConn s w
  exact ⟨h.child, h.todie, h.min, h.current, h.notes, fun x => (closeWorker_conn s w x).2.1,
    fun x => (closeWorker_conn s w x).2.2, h.idle⟩

/-! ### Asking a child to die -/

theorem asked_askWorkerToDie (s : ProcManager) (w x : ℕ) : (s.askWorkerToDie w).Asked x ↔ x = w ∨ s.Asked x := by
  show Note.shutdown x ∈ Note.shutdown w :: s.notes ↔ _
  rw [List.mem_cons, Note.shutdown.injEq]
  rfl

theorem countP_eq_erase {l : List ℕ} (hw : w ∈ l) (p : ℕ → Bool) :
    l.countP p = (l.erase w).countP p + if p w then 1 else 0 := by
  rw [(List.perm_cons_erase hw).countP_eq, List.countP_cons]

theorem running_askWorkerToDie (hnodup : s.child.Nodup) (hasked : ¬ s.Asked w) (job : Job) :
    s.running job = (s.askWorkerToDie w).running job + if w ∈ s.child ∧ (s.worker w).job = job then 1 else 0 := by
  have hother : ∀ x, x ≠ w → ((s.askWorkerToDie w).Asked x ↔ s.Asked x) := fun x hx => by
    rw [asked_askWorkerToDie, or_iff_right hx]
  by_cases hchild : w ∈ s.child
  · have herase : (s.child.erase w).countP (fun x => decide ((s.worker x).job = job) && !decide (s.Asked x)) =
        (s.child.erase w).countP fun x => decide ((s.worker x).job = job) && !decide ((s.askWorkerToDie w).Asked x) := by
      refine List.countP_congr fun x hx => ?_
      simp only [hother x ((hnodup.mem_erase_iff.mp hx).1)]
    rw [running, countP_eq_erase hchild, herase]
    have hafter : (s.askWorkerToDie w).running job = (s.child.erase w).countP fun x =>
        decide ((s.worker x).job = job) && !decide ((s.askWorkerToDie w).Asked x) := by
      show s.child.countP _ = _
      rw [countP_eq_erase hchild]
      simp [asked_askWorkerToDie]
      rfl
    rw [hafter]
    simp [hchild, hasked]
  · rw [if_neg fun h => hchild h.1, Nat.add_zero]
    refine List.countP_congr fun x hx => ?_
    have hne : x ≠ w := fun heq => hchild (heq ▸ hx)
    simp only [hother x hne]
    rfl

namespace Accounted

/-- A child is asked to die, for the first time. -/
theorem askWorkerToDie (h : s.Accounted) (hchild : w ∈ s.child) (hasked : ¬ s.Asked w) (hidle : w ∉ s.idleQueryWorkers) :
    (s.askWorkerToDie w).Accounted where
  toWired := h.toWired.askWorkerToDie (h.child_lt w hchild)
  count job := by
    have hrunning := running_askWorkerToDie h.child_nodup hasked job
    have hcount := h.count job
    show Function.update s.current (s.worker w).job (s.current (s.worker w).job - 1) job = _
    by_cases hjob : job = (s.worker w).job
    · subst hjob
      rw [if_pos ⟨hchild, rfl⟩] at hrunning
      rw [Function.update_self, hcount, hrunning]
      push_cast
      ring
    · rw [if_neg fun hw => hjob hw.2.symm, Nat.add_zero] at hrunning
      rw [Function.update_of_ne hjob, hcount, hrunning]
  once := by
    refine List.pairwise_cons.mpr ⟨fun older holder heq => hasked ?_, h.once⟩
    have hsame : older = .shutdown w := heq
    rw [hsame] at holder
    exact holder
  todie_iff x hx := by
    rw [asked_askWorkerToDie]
    show (s.worker x).pid ∈ (s.worker w).pid :: s.todie ↔ _
    rw [List.mem_cons, h.todie_iff x hx]
    exact or_congr_left ⟨h.pid_inj x hx w hchild, fun heq => heq ▸ rfl⟩
  todie_child pid hpid := by
    rcases List.mem_cons.mp hpid with rfl | hpid
    · exact ⟨w, hchild, rfl⟩
    · exact h.todie_child pid hpid
  idle_unasked x hx := by
    rw [asked_askWorkerToDie, not_or]
    exact ⟨fun heq => hidle (heq ▸ hx), h.idle_unasked x hx⟩

theorem pushIdle (h : s.Accounted) (hw : w < s.next) (hjob : (s.worker w).job = .queryworker) (hmapped : s.mapped w = none)
    (hidle : w ∉ s.idleQueryWorkers) (hasked : ¬ s.Asked w) :
    Accounted { s with idleQueryWorkers := s.idleQueryWorkers ++ [w], notes := .idle w :: s.notes } := by
  have hsame : ∀ x, Asked { s with idleQueryWorkers := s.idleQueryWorkers ++ [w], notes := .idle w :: s.notes } x ↔
      s.Asked x := fun x => by
    show Note.shutdown x ∈ Note.idle w :: s.notes ↔ _
    rw [List.mem_cons]
    exact or_iff_right Note.noConfusion
  refine ⟨h.toWired.pushIdle hw hjob hmapped hidle, ⟨fun job => ?_, ?_⟩, fun x hx => ?_, h.todie_child, fun x hx => ?_⟩
  · have hrunning : ProcManager.running { s with
        idleQueryWorkers := s.idleQueryWorkers ++ [w]
        notes := .idle w :: s.notes } job = s.running job :=
      List.countP_congr fun x _ => by simp only [hsame]
    rw [hrunning]
    exact h.count job
  · refine List.pairwise_cons.mpr ⟨fun older holder heq => hasked ?_, h.once⟩
    have hsame : older = .shutdown w := heq
    rw [hsame] at holder
    exact holder
  · rw [hsame]
    exact h.todie_iff x hx
  · rw [hsame]
    rcases List.mem_append.mp hx with hx | hx
    · exact h.idle_unasked x hx
    · rw [List.mem_singleton.mp hx]
      exact hasked

end Accounted

/-- The idle workers that `CullQueryWorkers` would ask to die. -/
def surplus (s : ProcManager) (idle : List ℕ) : List ℕ :=
  idle.take (s.current .queryworker - s.min .queryworker).toNat

theorem surplus_of_needs {idle : List ℕ} (h : s.jobNeedsReduction .queryworker = true) (hjob : (s.worker w).job = .queryworker) :
    s.surplus (w :: idle) = w :: (s.askWorkerToDie w).surplus idle := by
  have hlt : (s.min .queryworker : ℤ) < s.current .queryworker := of_decide_eq_true h
  have hcurrent : (s.askWorkerToDie w).current .queryworker = s.current .queryworker - 1 := by
    show Function.update s.current (s.worker w).job (s.current (s.worker w).job - 1) .queryworker = _
    rw [hjob, Function.update_self]
  have hmin : (s.askWorkerToDie w).min = s.min := rfl
  obtain ⟨n, hn⟩ : ∃ n, (s.current .queryworker - s.min .queryworker).toNat = n + 1 :=
    Nat.exists_eq_add_one_of_ne_zero (by omega)
  have hrest : ((s.askWorkerToDie w).current .queryworker - (s.askWorkerToDie w).min .queryworker : ℤ).toNat = n := by
    rw [hcurrent, hmin]
    omega
  rw [surplus, surplus, hn, hrest, List.take_succ_cons]

theorem surplus_of_not_needs {idle : List ℕ} (h : ¬ s.jobNeedsReduction .queryworker = true) : s.surplus idle = [] := by
  have hle : ¬ (s.min .queryworker : ℤ) < s.current .queryworker := fun hlt => h (decide_eq_true hlt)
  rw [surplus, show (s.current .queryworker - s.min .queryworker : ℤ).toNat = 0 by omega, List.take_zero]

/-- Where none of the idle workers that are asked to die has been reaped. -/
theorem Accounted.cullOn (idle : List ℕ) (h : Accounted { s with idleQueryWorkers := idle })
    (hchild : ∀ w ∈ s.surplus idle, w ∈ s.child) : (cullOn idle s).Sound := by
  induction idle generalizing s with
  | nil => exact ⟨h, fun _ => rfl⟩
  | cons w idle ih =>
    have hnodup := List.nodup_cons.mp h.idle_nodup
    unfold ProcManager.cullOn
    split_ifs with hneeds
    · rw [surplus_of_needs hneeds (h.idle_job w List.mem_cons_self)] at hchild
      have hskip : Accounted { s with idleQueryWorkers := idle } :=
        SameAccounts.accounted (s := { s with idleQueryWorkers := w :: idle })
          ⟨rfl, rfl, rfl, rfl, rfl, fun _ => rfl, fun _ => rfl, List.suffix_cons w idle⟩ h
          (h.toWired.skip rfl)
      refine ih ?_ fun x hx => hchild x (List.mem_cons_of_mem _ hx)
      exact hskip.askWorkerToDie (hchild w List.mem_cons_self) (h.idle_unasked w List.mem_cons_self) hnodup.1
    · exact ⟨h, fun hneeds' => absurd hneeds' hneeds⟩

theorem running_cullOn (idle : List ℕ) (s : ProcManager) (hnodup : s.child.Nodup) (hidle : idle.Nodup)
    (hjob : ∀ w ∈ idle, (s.worker w).job = .queryworker) (hasked : ∀ w ∈ idle, ¬ s.Asked w) :
    ((cullOn idle s).running .queryworker : ℤ) - (cullOn idle s).current .queryworker =
      s.running .queryworker - s.current .queryworker + (s.surplus idle).countP fun w => decide (w ∉ s.child) := by
  induction idle generalizing s with
  | nil =>
    rw [surplus, List.take_nil, List.countP_nil]
    simp [ProcManager.cullOn]
    rfl
  | cons w idle ih =>
    have hnot := List.nodup_cons.mp hidle
    unfold ProcManager.cullOn
    split_ifs with hneeds
    · have hwjob := hjob w List.mem_cons_self
      have hrunning := running_askWorkerToDie hnodup (hasked w List.mem_cons_self) .queryworker
      have hcurrent : (s.askWorkerToDie w).current .queryworker = s.current .queryworker - 1 := by
        show Function.update s.current (s.worker w).job (s.current (s.worker w).job - 1) .queryworker = _
        rw [hwjob, Function.update_self]
      have hsame : (s.askWorkerToDie w).child = s.child := rfl
      rw [ih (s.askWorkerToDie w) hnodup hnot.2 (fun x hx => hjob x (List.mem_cons_of_mem _ hx)) fun x hx => ?_,
        surplus_of_needs hneeds hwjob, List.countP_cons, hcurrent, hrunning]
      · by_cases hchild : w ∈ s.child
        · simp [hchild, hwjob, hsame]
          ring
        · simp [hchild, hwjob, hsame]
          ring
      · rw [asked_askWorkerToDie, not_or]
        exact ⟨fun heq => hnot.1 (heq ▸ hx), hasked x (List.mem_cons_of_mem _ hx)⟩
    · rw [surplus_of_not_needs hneeds, List.countP_nil]
      simp
      rfl

/-! ### Becoming idle -/

theorem notes_noteIdleQueryWorker (s : ProcManager) (w : ℕ) :
    ∃ note : Note, note.conn = w ∧ (s.noteIdleQueryWorker w).notes = note :: s.notes := by
  rw [noteIdleQueryWorker, unmap_eq]
  dsimp only
  split_ifs
  · exact ⟨.shutdown w, rfl, rfl⟩
  · refine ⟨.idle w, rfl, ?_⟩
    have hqueued := requeued_processQueues { s with
      mappings := (s.unmap w).mappings
      idleQueryWorkers := s.idleQueryWorkers ++ [w]
      notes := .idle w :: s.notes }
    exact hqueued.notes

theorem not_balanced_of_notes {note : Note} (hnotes : s'.notes = note :: s.notes) (hasked : s.Asked note.conn) :
    ¬ s'.Balanced := by
  intro h
  have honce := h.once
  rw [hnotes] at honce
  exact (List.pairwise_cons.mp honce).1 _ hasked rfl

theorem Sound.noteIdleQueryWorker (h : s.Sound) (hw : w < s.next) (hjob : (s.worker w).job = .queryworker)
    (hchild : w ∈ s.child) (hidle : w ∉ s.idleQueryWorkers) (hasked : ¬ s.Asked w) : (s.noteIdleQueryWorker w).Sound := by
  have hunmapped := mapped_unmap s w
  have hsound := (sameAccounts_unmap s w).sound h (h.toWired.unmap w)
  rw [unmap_eq] at hunmapped hsound
  unfold ProcManager.noteIdleQueryWorker
  rw [unmap_eq]
  extract_lets t
  split_ifs with hneeds
  · refine ⟨hsound.toAccounted.askWorkerToDie hchild hasked hidle, fun hneeds' => ?_⟩
    exact hsound.reduced hneeds
  · have hpushed := hsound.toAccounted.pushIdle hw hjob hunmapped hidle hasked
    exact (requeued_processQueues _).sameAccounts.sound ⟨hpushed, fun hneeds' => absurd hneeds' hneeds⟩
      hpushed.toWired.processQueues

/-! ### Children come and go -/

theorem Sound.closeWorker (h : s.Sound) (w : ℕ) : (s.closeWorker w).Sound :=
  (sameAccounts_closeWorker s w).sound h (h.toWired.closeWorker w)

theorem filter_pid_eq_erase (h : s.Wired) (hw : w ∈ s.child) :
    (s.child.filter fun w' => (s.worker w').pid ≠ (s.worker w).pid) = s.child.erase w := by
  rw [h.child_nodup.erase_eq_filter]
  refine List.filter_congr fun x hx => ?_
  rw [Bool.eq_iff_iff, decide_eq_true_eq, bne_iff_ne]
  exact not_congr ⟨h.pid_inj x hx w hw, fun heq => heq ▸ rfl⟩

theorem mem_todie_noteDeath (s : ProcManager) (w pid : ℕ) :
    pid ∈ (s.noteDeath w).todie ↔ pid ∈ s.todie ∧ pid ≠ (s.worker w).pid := by
  unfold noteDeath
  split_ifs with hdie
  · rw [List.mem_filter, decide_eq_true_eq]
  · rw [List.contains_iff_mem] at hdie
    exact ⟨fun hpid => ⟨hpid, fun heq => hdie (heq ▸ hpid)⟩, And.left⟩

theorem current_noteDeath (s : ProcManager) (w : ℕ) (job : Job) : (s.noteDeath w).current job =
    s.current job - if (s.worker w).job = job ∧ (s.worker w).pid ∉ s.todie then 1 else 0 := by
  unfold noteDeath
  split_ifs with hdie hjob hjob
  · rw [List.contains_iff_mem] at hdie
    exact absurd hdie hjob.2
  · exact (sub_zero _).symm
  · rw [← hjob.1]
    exact Function.update_self ..
  · rw [List.contains_iff_mem] at hdie
    exact (Function.update_of_ne (fun heq => hjob ⟨heq.symm, hdie⟩) _ _).trans (sub_zero _).symm

theorem Sound.noteDeath (h : s.Sound) (hw : w ∈ s.child)
    (hwired : (ProcManager.noteDeath { s with child := s.child.erase w } w).Wired) :
    (ProcManager.noteDeath { s with child := s.child.erase w } w).Sound := by
  have hasked := h.todie_iff w hw
  have hcurrent := current_noteDeath { s with child := s.child.erase w } w
  have htodie := mem_todie_noteDeath { s with child := s.child.erase w } w
  rw [noteDeath_eq] at hwired ⊢
  have hmem : ∀ x, x ∈ s.child.erase w ↔ x ≠ w ∧ x ∈ s.child := fun x => h.child_nodup.mem_erase_iff
  refine ⟨⟨hwired, ⟨fun job => ?_, h.once⟩, fun x hx => ?_, fun pid hpid => ?_, h.idle_unasked⟩, fun hneeds => ?_⟩
  · have hrunning : s.running job = ProcManager.running { s with child := s.child.erase w } job +
        if (s.worker w).job = job ∧ (s.worker w).pid ∉ s.todie then 1 else 0 := by
      rw [ProcManager.running, countP_eq_erase hw]
      simp [hasked]
      rfl
    have hcount := h.count job
    rw [hrunning] at hcount
    show (ProcManager.noteDeath { s with child := s.child.erase w } w).current job = _
    rw [hcurrent, hcount]
    push_cast
    exact add_sub_cancel_right _ _
  · obtain ⟨hne, hx⟩ := (hmem x).mp hx
    show (s.worker x).pid ∈ (ProcManager.noteDeath { s with child := s.child.erase w } w).todie ↔ s.Asked x
    rw [htodie, ← h.todie_iff x hx]
    exact and_iff_left fun heq => hne (h.pid_inj x hx w hw heq)
  · obtain ⟨hpid, hne⟩ := (htodie pid).mp hpid
    obtain ⟨x, hx, rfl⟩ := h.todie_child pid hpid
    exact ⟨x, (hmem x).mpr ⟨fun heq => hne (heq ▸ rfl), hx⟩, rfl⟩
  · refine h.reduced ?_
    have hlt : (s.min .queryworker : ℤ) <
        (ProcManager.noteDeath { s with child := s.child.erase w } w).current .queryworker := of_decide_eq_true hneeds
    rw [hcurrent] at hlt
    refine decide_eq_true (hlt.trans_le ?_)
    show s.current .queryworker - _ ≤ s.current .queryworker
    split_ifs <;> omega

theorem Sound.reap (h : s.Sound) (pid : ℕ) : (s.reap pid).Sound := by
  have hwired := h.toWired.reap pid
  cases hfind : s.child.find? fun w => (s.worker w).pid = pid with
  | none =>
    rw [reap_of_none hfind]
    exact h
  | some w =>
    have hw : w ∈ s.child := List.mem_of_find?_eq_some hfind
    obtain rfl : (s.worker w).pid = pid := by simpa using List.find?_some hfind
    have hchild : (s.closeWorker w).child = s.child := (sameAccounts_closeWorker s w).child
    rw [reap_eq hfind, filter_pid_eq_erase h.toWired hw, ← hchild] at hwired ⊢
    exact (h.closeWorker w).noteDeath (hchild.symm ▸ hw) hwired

/-- A new child is counted. -/
theorem Sound.newConn (h : s.Sound) {job : Job} {pid fd : ℕ} (hless : s.current job < s.min job)
    (hfresh : s.FreshChild pid fd) :
    Sound { s.newConn job pid fd with current := Function.update s.current job (s.current job + 1) } := by
  have hold : ∀ x, x ≠ s.next → (s.newConn job pid fd).worker x = s.worker x := fun x hx => Function.update_of_ne hx _ _
  have hne : ∀ x ∈ s.child, x ≠ s.next := fun x hx => (h.child_lt x hx).ne
  have hnew : ¬ s.Asked s.next := fun hmem => absurd (h.note_lt _ hmem) (lt_irrefl _)
  refine ⟨⟨(h.toWired.newConn hfresh).other .., ⟨fun job' => ?_, h.once⟩, ?_, ?_, h.idle_unasked⟩, fun hneeds => ?_⟩
  · have hrunning : (s.newConn job pid fd).running job' = s.running job' + if job = job' then 1 else 0 := by
      have hcongr : s.child.countP (fun x => decide (((s.newConn job pid fd).worker x).job = job') && !decide (s.Asked x)) =
          s.running job' := List.countP_congr fun x hx => by rw [hold x (hne x hx)]
      show (s.child ++ [s.next]).countP (fun x => decide (((s.newConn job pid fd).worker x).job = job') &&
        !decide (s.Asked x)) = _
      rw [List.countP_append, hcongr, List.countP_singleton, newConn_worker]
      simp [hnew]
    show Function.update s.current job (s.current job + 1) job' = ((s.newConn job pid fd).running job' : ℤ)
    rw [hrunning]
    by_cases hjob : job' = job
    · subst hjob
      rw [Function.update_self, h.count, if_pos rfl]
      push_cast
      rfl
    · rw [Function.update_of_ne hjob, h.count, if_neg (Ne.symm hjob), Nat.add_zero]
  · intro x hx
    show ((s.newConn job pid fd).worker x).pid ∈ s.todie ↔ s.Asked x
    rcases List.mem_append.mp hx with hx | hx
    · rw [hold x (hne x hx)]
      exact h.todie_iff x hx
    · rw [List.mem_singleton.mp hx, newConn_worker]
      refine iff_of_false (fun hpid => ?_) hnew
      obtain ⟨y, hy, heq⟩ := h.todie_child pid hpid
      exact hfresh.1 y hy heq
  · intro pid' hpid
    obtain ⟨x, hx, heq⟩ := h.todie_child pid' hpid
    refine ⟨x, List.mem_append_left _ hx, ?_⟩
    show ((s.newConn job pid fd).worker x).pid = pid'
    rw [hold x (hne x hx), heq]
  · refine h.reduced ?_
    have hlt : (s.min .queryworker : ℤ) < Function.update s.current job (s.current job + 1) .queryworker :=
      of_decide_eq_true hneeds
    by_cases hjob : Job.queryworker = job
    · subst hjob
      rw [Function.update_self] at hlt
      omega
    · rw [Function.update_of_ne hjob] at hlt
      exact decide_eq_true hlt

theorem unmap_current (s : ProcManager) (current : Job → ℤ) (w : ℕ) :
    ({ s with current } : ProcManager).unmap w = { s.unmap w with current } := by
  unfold unmap
  dsimp only
  split <;> rfl

theorem Sound.addChild (h : s.Sound) {job : Job} {pid fd : ℕ} (hless : s.current job < s.min job)
    (hfresh : s.FreshChild pid fd) : (s.addChild job pid fd).Sound := by
  have hwired : (s.addChild job pid fd).Wired := h.toWired.addChild hfresh
  have hnew := h.newConn hless hfresh
  rw [addChild_eq] at hwired ⊢
  split_ifs at hwired ⊢ with hjob
  · have hidle : s.next ∉ s.idleQueryWorkers := fun hmem => absurd (h.idle_lt _ hmem) (lt_irrefl _)
    have hasked : ¬ s.Asked s.next := fun hmem => absurd (h.note_lt _ hmem) (lt_irrefl _)
    subst hjob
    have hneeds : (s.newConn .queryworker pid fd).jobNeedsReduction .queryworker = false :=
      decide_eq_false (not_lt.mpr hless.le)
    have hunmapped := mapped_unmap { s.newConn .queryworker pid fd with
      current := Function.update s.current .queryworker (s.current .queryworker + 1) } s.next
    have hsound := (sameAccounts_unmap _ s.next).sound hnew (hnew.toWired.unmap s.next)
    rw [unmap_current, unmap_eq] at hunmapped hsound
    have hworker : ((s.newConn .queryworker pid fd).worker s.next).job = .queryworker := by rw [newConn_worker]
    have hpushed := hsound.toAccounted.pushIdle (w := s.next) (Nat.lt_succ_self _) hworker hunmapped hidle hasked
    rw [noteIdleQueryWorker_of_not_needs hneeds] at hwired ⊢
    have hqueued := requeued_processQueues { s.newConn .queryworker pid fd with
      mappings := ((s.newConn .queryworker pid fd).unmap s.next).mappings
      idleQueryWorkers := s.idleQueryWorkers ++ [s.next]
      notes := .idle s.next :: s.notes }
    have hcurrent := congrArg (fun current : Job → ℤ => Function.update current .queryworker (current .queryworker + 1))
      hqueued.current
    refine SameAccounts.sound ?_ ⟨hpushed, fun hneeds' => ?_⟩ hwired
    · exact ⟨hqueued.child, hqueued.todie, hqueued.min, hcurrent, hqueued.notes, hqueued.pid, hqueued.job, hqueued.idle⟩
    · have hlt : (s.min .queryworker : ℤ) <
          Function.update s.current .queryworker (s.current .queryworker + 1) .queryworker := of_decide_eq_true hneeds'
      rw [Function.update_self] at hlt
      omega
  · exact hnew

/-! ### Events -/

namespace Sound

theorem askWorkerToDie (h : s.Sound) (hchild : w ∈ s.child) (hasked : ¬ s.Asked w) (hidle : w ∉ s.idleQueryWorkers) :
    (s.askWorkerToDie w).Sound := by
  refine ⟨h.toAccounted.askWorkerToDie hchild hasked hidle, fun hneeds => h.reduced ?_⟩
  have hlt : (s.min .queryworker : ℤ) <
      Function.update s.current (s.worker w).job (s.current (s.worker w).job - 1) .queryworker := of_decide_eq_true hneeds
  refine decide_eq_true (hlt.trans_le ?_)
  by_cases hjob : Job.queryworker = (s.worker w).job
  · rw [← hjob, Function.update_self]
    omega
  · rw [Function.update_of_ne hjob]

theorem workerLine (h : s.Sound) {line : Text} (hopen : s.Open w) (hcareful : s.Careful (.line w line)) :
    (s.workerLine w line).Sound := by
  have hchild : w ∈ s.child := h.open_child w hopen
  have hw : w < s.next := h.child_lt w hchild
  have hc := hcareful hopen
  unfold ProcManager.workerLine
  split_ifs with hresponse
  · rcases handleQueryWorkerResponse_cases s w line with
      ⟨-, heq⟩ | ⟨q, hq, ⟨-, heq⟩ | ⟨-, time, res, -, heq⟩ | ⟨-, -, heq⟩⟩
    · rw [heq]
      exact h.other ..
    all_goals
      have hasked : ¬ s.Asked w := fun hasked => by
        have hnone := hc hasked
        rw [if_pos hresponse, hq] at hnone
        cases hnone
      have hidle : w ∉ s.idleQueryWorkers := fun hmem => by
        rw [h.idle_unmapped w hmem] at hq
        cases hq
      rw [heq]
    · exact Sound.noteIdleQueryWorker (h.other ..) hw hresponse.1 hchild hidle hasked
    · exact Sound.noteIdleQueryWorker (h.other ..) hw hresponse.1 hchild hidle hasked
    · exact Sound.askWorkerToDie (h.other ..) hchild hasked hidle
  · unfold handleChildRequest
    split_ifs with hping hneeds
    · have hasked : ¬ s.Asked w := fun hasked => by
        have hnot := hc hasked
        rw [if_neg hresponse] at hnot
        exact hnot ⟨hping, hneeds⟩
      refine h.askWorkerToDie hchild hasked fun hmem => ?_
      rw [h.idle_job w hmem] at hneeds
      rw [h.reduced hneeds] at hmem
      exact List.not_mem_nil hmem
    · exact h
    · exact h

theorem want (h : s.Sound) {count : ℕ} {job : Job} (hcareful : s.Careful (.want count job)) : (s.want count job).Sound := by
  unfold ProcManager.want requestJobProcess
  extract_lets t
  have ht : t.Accounted := ⟨h.toWired.other .., ⟨h.count, h.once⟩, h.todie_iff, h.todie_child, h.idle_unasked⟩
  split_ifs with hjob
  · subst hjob
    have hmin : t.min .queryworker = if 500 < count then 500 else count := by
      show Function.update s.min .queryworker _ .queryworker = _
      exact Function.update_self ..
    refine ht.cullOn _ fun w hw => hcareful w ?_
    rwa [surplus, hmin] at hw
  · have hmin : t.min .queryworker = s.min .queryworker := by
      show Function.update s.min job _ .queryworker = _
      exact Function.update_of_ne (Ne.symm hjob) _ _
    refine ⟨ht, fun hneeds => h.reduced ?_⟩
    rwa [jobNeedsReduction, hmin] at hneeds

theorem postEventLoop (h : s.Sound) (now : ℕ) (waited : Option ℕ) (jobs : List Job) (forks : List (Option (ℕ × ℕ))) :
    (s.postEventLoop now waited jobs forks).Sound := by
  have hspawn : ∀ {t : ProcManager}, t.Sound → (spawn jobs forks t).Sound := fun {t} ht =>
    spawn_inv (I := Sound) (fun _ _ _ _ hless hfresh hs => hs.addChild hless hfresh) (fun _ hs => hs.other ..) jobs forks t ht
  unfold ProcManager.postEventLoop
  split_ifs with hnow
  · exact h
  · extract_lets t u v
    split_ifs
    · exact h.other ..
    · refine hspawn ?_
      have hu : u.Sound := h.other ..
      cases waited with
      | none => exact hu
      | some pid => exact hu.reap pid

theorem handle (h : s.Sound) {event : Event} (hcareful : s.Careful event) : (s.handle event).Sound := by
  cases event with
  | enqueue client ip line =>
    rw [ProcManager.handle]
    split_ifs
    · exact h
    · exact Sound.processQueues (h.other ..)
  | closeClient client => exact h.other ..
  | line w line =>
    rw [ProcManager.handle]
    split_ifs with hopen
    · exact h.workerLine hopen hcareful
    · exact h
  | closeWorker w => exact h.closeWorker w
  | want count job => exact h.want hcareful
  | postEventLoop now waited jobs forks => exact h.postEventLoop now waited jobs forks

end Sound

theorem sound_init (min : Job → ℕ) : (init min).Sound where
  toWired := wired_init min
  count _ := rfl
  once := List.Pairwise.nil
  todie_iff _ h := absurd h List.not_mem_nil
  todie_child _ h := absurd h List.not_mem_nil
  idle_unasked _ h := absurd h List.not_mem_nil
  reduced _ := rfl

/-! ### Where the accounts go wrong -/

theorem not_balanced_want (h : s.Sound) {count : ℕ} {job : Job} (hnot : ¬ s.Careful (.want count job)) :
    ¬ (s.want count job).Balanced := by
  by_cases hjob : job = .queryworker
  · subst hjob
    intro hbalanced
    refine hnot fun w hw => ?_
    unfold want requestJobProcess at hbalanced
    extract_lets t at hbalanced
    rw [if_pos rfl] at hbalanced
    have hmin : t.min .queryworker = if 500 < count then 500 else count := by
      show Function.update s.min .queryworker _ .queryworker = _
      exact Function.update_self ..
    have hcount := running_cullOn t.idleQueryWorkers t h.child_nodup h.idle_nodup h.idle_job h.idle_unasked
    have hbefore : (t.running .queryworker : ℤ) - t.current .queryworker = 0 := sub_eq_zero.mpr (h.count _).symm
    have hafter := hbalanced.count .queryworker
    rw [cullQueryWorkers] at hafter
    have hnone : (t.surplus t.idleQueryWorkers).countP (fun w => decide (w ∉ t.child)) = 0 := by omega
    rw [surplus, hmin] at hnone
    simpa using List.countP_eq_zero.mp hnone w hw
  · exact absurd (by cases job <;> first | exact trivial | exact absurd rfl hjob) hnot

theorem Sound.not_balanced_handle (h : s.Sound) {event : Event} (hnot : ¬ s.Careful event) :
    ¬ (s.handle event).Balanced := by
  cases event with
  | enqueue client ip line => exact absurd trivial hnot
  | closeClient client => exact absurd trivial hnot
  | closeWorker w => exact absurd trivial hnot
  | postEventLoop now waited jobs forks => exact absurd trivial hnot
  | want count job => exact not_balanced_want h hnot
  | line w line =>
    have hopen : s.Open w := by
      by_contra hclosed
      exact hnot fun hopen => absurd hopen hclosed
    have hasked : s.Asked w := by
      by_contra hasked
      exact hnot fun _ hasked' => absurd hasked' hasked
    rw [ProcManager.handle, if_pos hopen, ProcManager.workerLine]
    split_ifs with hresponse
    · have hidled : ∀ t : ProcManager, t.notes = s.notes → ¬ (t.noteIdleQueryWorker w).Balanced := by
        intro t ht
        obtain ⟨note, hconn, hnotes⟩ := notes_noteIdleQueryWorker t w
        rw [ht] at hnotes
        exact not_balanced_of_notes hnotes (hconn ▸ hasked)
      rcases handleQueryWorkerResponse_cases s w line with
        ⟨hnone, -⟩ | ⟨q, -, ⟨-, heq⟩ | ⟨-, time, res, -, heq⟩ | ⟨-, -, heq⟩⟩
      · exact absurd (fun _ _ => by rwa [if_pos hresponse]) hnot
      all_goals rw [heq]
      · exact hidled _ rfl
      · exact hidled _ rfl
      · exact @not_balanced_of_notes _ _ (.shutdown w) rfl hasked
    · unfold handleChildRequest
      split_ifs with hping hneeds
      · exact @not_balanced_of_notes _ _ (.shutdown w) rfl hasked
      · exact absurd (fun _ _ => by rw [if_neg hresponse]; exact fun h => hneeds h.2) hnot
      · exact absurd (fun _ _ => by rw [if_neg hresponse]; exact fun h => hping h.1) hnot

/-- The accounts of the children are balanced throughout a run exactly if every event of it is careful. -/
theorem balanced_iff (min : Job → ℕ) (events : List Event) :
    (∀ before, before <+: events → (after min before).Balanced) ↔
      ∀ before event, before ++ [event] <+: events → (after min before).Careful event :=
  foldl_forall_iff_of_guard (sound_init min) (fun _ h => h.toBalanced) (fun _ _ h hcareful => h.handle hcareful)
    (fun _ _ h hnot => h.not_balanced_handle hnot) events

/-- A query worker is forked and given a query, and responds with two lines that do not match it. -/
def twoLines : List Event :=
  [.postEventLoop 1 none [.queryworker] [some (10, 4)], .enqueue 7 none "list_keys".toList,
    .line 0 "ERR".toList, .line 0 "ERR".toList]

/-- The first line has it asked to die, and the second has it put back into the idle list. -/
theorem not_balanced_twoLines :
    (after (fun job => if job = .queryworker then 1 else 0) twoLines).notes = [.idle 0, .shutdown 0, .idle 0] ∧
      (after (fun job => if job = .queryworker then 1 else 0) twoLines).idleQueryWorkers = [0] ∧
      ¬ (after (fun job => if job = .queryworker then 1 else 0) twoLines).Balanced := by
  have hnotes : (after (fun job => if job = .queryworker then 1 else 0) twoLines).notes =
      [.idle 0, .shutdown 0, .idle 0] := by
    decide +kernel
  refine ⟨hnotes, by decide +kernel, fun h => ?_⟩
  have honce := h.once
  rw [hnotes] at honce
  exact absurd rfl ((List.pairwise_cons.mp honce).1 (.shutdown 0) List.mem_cons_self)

end ProcManager

end Ylem
