import Ylem.Query.Fsck
import Ylem.Worker.Fsck

/-!
# What a run of fsck covers

An fsck that ends by itself should have checked every file that was there when its position was last reset.
`FsckSystem` puts the commands, the workers of all hosts and the rest of the tracker side by side: every
statement of a command and every step of a worker is an event of its own, workers start and die at any time,
and anything else may happen to the tables. `FsckHistory` observes a run: which files were there at the last
reset of the position and still are, and which of them a worker has checked since.

A file is *behind* a worker that will not look at it any more, because of the position that the worker
remembers or the batch that it works on. As long as a reset leaves no file above its start behind the
settings or a worker, every file behind either has been checked since (`FsckInv`), and a worker that finds no
more files has all of them behind it. A start after a completed run leaves the position where the run ended,
and a reset does not reach the position that a worker remembers; both let a run end over files it has not
checked.
-/

namespace Ylem

/-- The database, the fsck workers of all hosts, and the commands that the query workers are carrying out. -/
structure FsckSystem where
  store : FsckStore
  workers : List FsckWorker
  commands : List (FsckProg Outcome)

inductive FsckEvent where
  /-- a query worker gets a command -/
  | request (c : FsckCommand)
  /-- a command issues its next statement -/
  | query (i : ℕ)
  /-- the query worker that carries out a command dies -/
  | abandon (i : ℕ)
  /-- a fsck worker is started on a host -/
  | spawn (hostname : Text)
  /-- a fsck worker makes a step -/
  | work (i : ℕ) (input : FsckInput)
  /-- a fsck worker dies -/
  | die (i : ℕ)
  /-- a finding is logged -/
  | finding (utime fid : ℕ) (evcode : Text) (devid : Option ℕ)
  /-- anything else that happens to the tables -/
  | other (s : Stmt)

namespace FsckSystem

/-- The system after an event; `none` where the event cannot happen. -/
def apply (σ : FsckSystem) : FsckEvent → Option FsckSystem
  | .request c => some { σ with commands := σ.commands ++ [c.prog] }
  | .query i =>
    match σ.commands[i]? with
    | some (.stmt s k) =>
      some { σ with store := (s.run σ.store).2, commands := σ.commands.set i (k (s.run σ.store).1) }
    | _ => none
  | .abandon i => if i < σ.commands.length then some { σ with commands := σ.commands.eraseIdx i } else none
  | .spawn hostname => some { σ with workers := σ.workers ++ [.start hostname] }
  | .work i input =>
    match σ.workers[i]? with
    | some w =>
      some { σ with
        store := ((w.work input).exec σ.store).2
        workers := σ.workers.set i ((w.work input).exec σ.store).1 }
    | none => none
  | .die i => if i < σ.workers.length then some { σ with workers := σ.workers.eraseIdx i } else none
  | .finding utime fid evcode devid =>
    some { σ with store := ((FsckStmt.insertFsckLog utime fid evcode devid).run σ.store).2 }
  | .other s => some { σ with store := { σ.store with db := (s.run σ.store.db).2 } }

/-- A worker ends the run by itself: it clears `fsck_host`. -/
def ends (σ : FsckSystem) : FsckEvent → Bool
  | .work i _ => (σ.workers[i]?).any fun w => w.phase = .ending
  | _ => false

/-- The file that a worker has been through with `HANDLED`. -/
def handles (σ : FsckSystem) : FsckEvent → List ℕ
  | .work i input =>
    match (σ.workers[i]?).map FsckWorker.phase with
    | some (.checking fid _) => if input.handled then [fid] else []
    | _ => []
  | _ => []

end FsckSystem

/-- The position that the settings hold. -/
def FsckStore.position (st : FsckStore) : ℚ := Text.numify ((st.setting .fsckHighestFidChecked).getD ['0'])

def FsckStore.files (st : FsckStore) : List ℕ := st.db.file.rows.map FileRow.fid

/-! ### The history of a run -/

/-- What has happened since the position was last reset to `startpos`: the files that were there and still
are, and the files that were checked. -/
structure FsckSince where
  startpos : ℚ
  present : List ℕ
  handled : List ℕ

def FsckSince.Covered (since : FsckSince) : Prop :=
  ∀ fid ∈ since.present, since.startpos < fid → fid ∈ since.handled

structure FsckHistory where
  /-- the last run was ended by the worker itself -/
  completed : Bool
  /-- nothing if the position has not been reset yet -/
  since : Option FsckSince

def FsckHistory.Covered (h : FsckHistory) : Prop := ∀ since ∈ h.since, since.Covered

/-- A reset of the position, and the position that the settings hold after it. -/
structure FsckReset where
  startpos : ℚ
  stored : ℚ

/-- The reset that an event is: a command that writes the position, or the request for a start after a
completed run. The code of the start leaves the stored position alone. -/
def FsckHistory.reset? (h : FsckHistory) (σ : FsckSystem) : FsckEvent → Option FsckReset
  | .request (.start _ _) => if h.completed then some ⟨0, σ.store.position⟩ else none
  | .query i =>
    match σ.commands[i]? with
    | some (.stmt (.setServerSetting .fsckHighestFidChecked val) _) =>
      some ⟨Text.numify (val.getD ['0']), Text.numify (val.getD ['0'])⟩
    | _ => none
  | _ => none

/-- The history after an event that takes `σ` to `σ'`. -/
def FsckHistory.observe (h : FsckHistory) (σ σ' : FsckSystem) (e : FsckEvent) : FsckHistory :=
  match h.reset? σ e with
  | some r => ⟨false, some ⟨r.startpos, σ'.store.files, []⟩⟩
  | none => ⟨h.completed || σ.ends e, h.since.map fun since =>
      { since with
        present := since.present.filter (σ'.store.files.contains ·)
        handled := σ.handles e ++ since.handled }⟩

/-- The runs that begin with `store`, no worker and no command, and in which every reset is allowed. -/
inductive FsckRun (allowed : FsckSystem → FsckReset → Prop) (store : FsckStore) :
    FsckSystem → FsckHistory → Prop
  | nil : FsckRun allowed store ⟨store, [], []⟩ ⟨false, none⟩
  | snoc {σ σ' h} (e : FsckEvent) (run : FsckRun allowed store σ h)
      (hreset : ∀ r, h.reset? σ e = some r → allowed σ r) (hstep : σ.apply e = some σ') :
      FsckRun allowed store σ' (h.observe σ σ' e)

/-! ### Behind a worker -/

namespace FsckWorker

variable (w : FsckWorker)

/-- The position that the worker remembers; it reads the settings where it has none. -/
def remembered : Option ℚ :=
  if (w.phase = .waiting ∨ w.phase = .enabled) ∧ Text.truthy (some w.maxChecked) = false then none
  else some (Text.numify w.maxChecked)

/-- The worker will not look at the file: it is about to end the run, the file is not above the position
that it remembers, or it is missing in the batch. -/
def Behind (fid : ℕ) : Prop :=
  w.phase = .ending ∨ (∃ pos ∈ w.remembered, (fid : ℚ) ≤ pos) ∨
    ((∃ fid' ∈ w.phase.batch, fid ≤ fid') ∧ fid ∉ w.phase.batch)

end FsckWorker

namespace FsckWorker

variable {w w' : FsckWorker} {fid : ℕ} {pos : ℚ}

theorem eq_of_mem_remembered (h : pos ∈ w.remembered) : pos = Text.numify w.maxChecked := by
  unfold remembered at h
  split_ifs at h
  · cases h
  · exact (Option.some.inj h).symm

theorem Behind.of_sub (h : w'.Behind fid) (hend : w'.phase ≠ .ending)
    (hpos : ∀ pos ∈ w'.remembered, pos ∈ w.remembered)
    (hbatch : w'.phase.batch = [] ∨ w'.phase.batch = w.phase.batch) : w.Behind fid := by
  rcases h with h | ⟨pos, hmem, hle⟩ | ⟨⟨fid', hmem, hle⟩, hnot⟩
  · exact absurd h hend
  · exact .inr (.inl ⟨pos, hpos pos hmem, hle⟩)
  · rcases hbatch with hbatch | hbatch
    · rw [hbatch] at hmem
      exact absurd hmem List.not_mem_nil
    · rw [hbatch] at hmem hnot
      exact .inr (.inr ⟨⟨fid', hmem, hle⟩, hnot⟩)

/-- What a step of a worker can do to what is behind it and behind the settings. -/
structure Follows (w : FsckWorker) (input : FsckInput) (st : FsckStore) (w' : FsckWorker) (st' : FsckStore) :
    Prop where
  sorted : w'.phase.batch.Pairwise (· < ·)
  position : ∀ fid : ℕ, fid ≤ st'.position → fid ≤ st.position ∨ w.Behind fid
  behind : ∀ fid ∈ st.files, w'.Behind fid →
    fid ≤ st.position ∨ w.Behind fid ∨ ∃ fids, w.phase = .checking fid fids ∧ input.handled = true

theorem Follows.of_sub {input : FsckInput} {st : FsckStore} (hsorted : w.phase.batch.Pairwise (· < ·))
    (hend : w'.phase ≠ .ending) (hpos : ∀ pos ∈ w'.remembered, pos ∈ w.remembered)
    (hbatch : w'.phase.batch = [] ∨ w'.phase.batch = w.phase.batch) : Follows w input st w' st where
  sorted := by
    rcases hbatch with h | h
    · rw [h]
      exact List.Pairwise.nil
    · rwa [h]
  position := fun _ h => .inl h
  behind := fun _ _ h => .inr (.inl (h.of_sub hend hpos hbatch))

end FsckWorker

/-! ### The stored position -/

namespace FsckStore

variable {st : FsckStore} {key : Setting} {val : Option Text}

theorem position_setSetting_self :
    (st.setSetting .fsckHighestFidChecked val).position = Text.numify (val.getD ['0']) := by
  rw [position, setting_setSetting_self]

theorem position_setSetting_ne (h : key ≠ .fsckHighestFidChecked) :
    (st.setSetting key val).position = st.position := by
  rw [position, setting_setSetting_ne h.symm, position]

@[simp] theorem files_setSetting : (st.setSetting key val).files = st.files := by
  rw [files, db_setSetting, files]

theorem numify_orZero : Text.numify (if Text.truthy val then val.getD [] else ['0']) = Text.numify (val.getD ['0']) := by
  cases val with
  | none => rfl
  | some t =>
    by_cases htrue : Text.truthy (some t)
    · rw [if_pos htrue]
      rfl
    · rw [if_neg htrue]
      have hfalse : t = [] ∨ t = ['0'] := by
        simp only [Text.truthy, Bool.and_eq_true, bne_iff_ne, ne_eq, not_and_or, not_not] at htrue
        exact htrue
      have hzero : Text.numify ['0'] = 0 := Text.numify_decimal 0
      rcases hfalse with rfl | rfl
      · rw [hzero]
        rfl
      · rfl

end FsckStore

namespace FsckWorker

variable {w w' : FsckWorker} (input : FsckInput) (st : FsckStore)

theorem remembered_of_eq (hmax : w'.maxChecked = w.maxChecked)
    (hread : w.phase = .waiting ∨ w.phase = .enabled → Text.truthy (some w.maxChecked) = false →
      w'.phase = .waiting ∨ w'.phase = .enabled) : ∀ pos ∈ w'.remembered, pos ∈ w.remembered := by
  intro pos hpos
  unfold remembered at hpos ⊢
  rw [hmax] at hpos
  by_cases hnone : (w.phase = .waiting ∨ w.phase = .enabled) ∧ Text.truthy (some w.maxChecked) = false
  · rw [if_pos ⟨hread hnone.1 hnone.2, hnone.2⟩] at hpos
    cases hpos
  · rw [if_neg hnone]
    split_ifs at hpos
    · cases hpos
    · exact hpos

theorem remembered_of_phase (hwaiting : w.phase ≠ .waiting) (henabled : w.phase ≠ .enabled) :
    w.remembered = some (Text.numify w.maxChecked) := by
  rw [remembered, if_neg]
  rintro ⟨h | h, _⟩
  · exact hwaiting h
  · exact henabled h

theorem Follows.of_setMaxChecked (hsorted : w.phase.batch.Pairwise (· < ·)) (hend : w'.phase ≠ .ending)
    (hpos : ∀ pos ∈ w'.remembered, pos ∈ w.remembered)
    (hbatch : w'.phase.batch = [] ∨ w'.phase.batch = w.phase.batch)
    (hmem : Text.numify w.maxChecked ∈ w.remembered) :
    w.Follows input st w' (st.setSetting .fsckHighestFidChecked (some w.maxChecked)) := by
  have hfollows : w.Follows input st w' st := .of_sub hsorted hend hpos hbatch
  refine ⟨hfollows.sorted, fun fid hle => ?_, hfollows.behind⟩
  rw [FsckStore.position_setSetting_self, Option.getD_some] at hle
  exact .inr (.inr (.inl ⟨_, hmem, hle⟩))

theorem Follows.of_setSetting {key : Setting} {val : Option Text} (h : w.Follows input st w' st)
    (hkey : key ≠ .fsckHighestFidChecked) : w.Follows input st w' (st.setSetting key val) where
  sorted := h.sorted
  position := fun fid hle => .inl (by rwa [FsckStore.position_setSetting_ne hkey] at hle)
  behind := h.behind

theorem follows_fetching (hphase : w.phase = .fetching) :
    w.Follows input st
      { w with phase := (if st.fidsAbove (Text.numify w.maxChecked) 5000 = [] then .ending
        else .looping (st.fidsAbove (Text.numify w.maxChecked) 5000)) } st := by
  have hmem : Text.numify w.maxChecked ∈ w.remembered := by
    rw [remembered_of_phase (by simp [hphase]) (by simp [hphase])]
    rfl
  split_ifs with hnil
  · refine ⟨List.Pairwise.nil, fun _ h => .inl h, fun fid hfile _ => ?_⟩
    have hle := FsckStore.not_lt_of_fidsAbove_eq_nil (by omega) hnil hfile
    exact .inr (.inl (.inr (.inl ⟨_, hmem, not_lt.mp hle⟩)))
  · refine ⟨FsckStore.pairwise_fidsAbove, fun _ h => .inl h, fun fid hfile hbehind => ?_⟩
    refine .inr (.inl (.inr (.inl ⟨_, hmem, ?_⟩)))
    rcases hbehind with h | ⟨pos, hpos, hle⟩ | ⟨⟨fid', hbatch, hle⟩, hnot⟩
    · cases h
    · rw [← eq_of_mem_remembered hpos]
      exact hle
    · by_contra habove
      exact hnot (FsckStore.mem_fidsAbove_of_le hfile (not_le.mp habove) hbatch hle)

theorem follows_handled {fid : ℕ} {fids : List ℕ} (hphase : w.phase = .checking fid fids)
    (hhandled : input.handled = true) (hsorted : w.phase.batch.Pairwise (· < ·)) :
    w.Follows input st { w with maxChecked := Text.decimal fid, nowish := input.now, phase := .noting fids } st := by
  rw [hphase] at hsorted
  obtain ⟨hfirst, hrest⟩ := List.pairwise_cons.mp hsorted
  refine ⟨hrest, fun _ h => .inl h, fun fid' _ hbehind => ?_⟩
  rcases eq_or_ne fid' fid with rfl | hne
  · exact .inr (.inr ⟨fids, hphase, hhandled⟩)
  refine .inr (.inl (.inr (.inr ?_)))
  rw [hphase]
  rcases hbehind with h | ⟨pos, hpos, hle⟩ | ⟨⟨fid'', hbatch, hle⟩, hnot⟩
  · cases h
  · -- what follows in the batch is above the file that was checked
    rw [eq_of_mem_remembered hpos, Text.numify_decimal, Nat.cast_le] at hle
    refine ⟨⟨fid, List.mem_cons_self, hle⟩, fun hmem => ?_⟩
    rcases List.mem_cons.mp hmem with heq | hmem
    · exact hne heq
    · have := hfirst fid' hmem
      omega
  · exact ⟨⟨fid'', List.mem_cons_of_mem _ hbatch, hle⟩, List.not_mem_cons_of_ne_of_not_mem hne hnot⟩

theorem work_follows (hsorted : w.phase.batch.Pairwise (· < ·)) :
    w.Follows input st ((w.work input).exec st).1 ((w.work input).exec st).2 := by
  -- `hnext`: a step on which the worker keeps its position
  have hnext : ∀ w' : FsckWorker, w'.maxChecked = w.maxChecked → w'.phase ≠ .ending →
      (w'.phase.batch = [] ∨ w'.phase.batch = w.phase.batch) →
      (w.phase = .waiting ∨ w.phase = .enabled → Text.truthy (some w.maxChecked) = false →
        w'.phase = .waiting ∨ w'.phase = .enabled) → w.Follows input st w' st :=
    fun w' hmax hend hbatch hread => .of_sub hsorted hend (remembered_of_eq hmax hread) hbatch
  cases hphase : w.phase with
  | waiting =>
    simp only [work, hphase, shouldBeRunning, serverSetting, FsckProg.exec, Prog.exec_bind, Prog.exec_issue,
      Prog.pure_eq, Prog.exec_ret, FsckStmt.run]
    split_ifs
    · exact hnext { w with nowish := input.now, phase := .enabled } rfl (by simp) (.inl rfl) fun _ _ => .inr rfl
    · show w.Follows input st { w with nowish := input.now, maxChecked := ['0'], phase := .waiting } st
      refine .of_sub hsorted (by simp) (fun pos h => ?_) (.inl rfl)
      simp [remembered, Text.truthy] at h
  | enabled =>
    simp only [work, hphase]
    split_ifs with hmonitor htrue
    · exact hnext { w with phase := .waiting } rfl (by simp) (.inl rfl) fun _ _ => .inl rfl
    · exact hnext { w with phase := .positioned } rfl (by simp) (.inl rfl) fun _ hfalse =>
        absurd htrue (by simp [hfalse])
    · refine ⟨List.Pairwise.nil, fun _ h => .inl h, fun fid _ hbehind => .inl ?_⟩
      rcases hbehind with h | ⟨pos, hpos, hle⟩ | ⟨⟨fid', hbatch, _⟩, _⟩
      · cases h
      · rw [eq_of_mem_remembered hpos] at hle
        exact hle.trans_eq FsckStore.numify_orZero
      · cases hbatch
  | positioned =>
    simp only [work, hphase, serverSetting, FsckProg.exec, Prog.exec_bind, Prog.exec_issue, Prog.pure_eq,
      Prog.exec_ret, FsckStmt.run]
    exact hnext _ rfl (by simp) (.inl rfl) (by simp [hphase])
  | fetching =>
    simp only [work, hphase]
    exact follows_fetching input st hphase
  | ending =>
    simp only [work, hphase, setServerSetting, FsckProg.exec, Prog.exec_bind, Prog.exec_issue, Prog.pure_eq,
      Prog.exec_ret, FsckStmt.run]
    have hkey : Setting.fsckHost ≠ .fsckHighestFidChecked := by simp
    exact .of_setSetting input st (hnext { w with phase := .stopping } rfl (by simp) (.inl rfl) (by simp [hphase]))
      hkey
  | stopping =>
    simp only [work, hphase, setServerSetting, FsckProg.exec, Prog.exec_bind, Prog.exec_issue, Prog.pure_eq,
      Prog.exec_ret, FsckStmt.run]
    have hkey : Setting.fsckStopTime ≠ .fsckHighestFidChecked := by simp
    exact .of_setSetting input st (hnext { w with phase := .saving } rfl (by simp) (.inl rfl) (by simp [hphase]))
      hkey
  | saving =>
    have hmem : Text.numify w.maxChecked ∈ w.remembered := by
      rw [remembered_of_phase (by simp [hphase]) (by simp [hphase])]
      rfl
    simp only [work, hphase]
    split_ifs
    · show w.Follows input st { w with phase := .waiting } (st.setSetting .fsckHighestFidChecked (some w.maxChecked))
      exact .of_setMaxChecked input st hsorted (by simp) (remembered_of_eq rfl (by simp [hphase])) (.inl rfl) hmem
    · exact hnext { w with phase := .waiting } rfl (by simp) (.inl rfl) (by simp [hphase])
  | looping fids =>
    cases fids with
    | nil =>
      simp only [work, hphase]
      exact hnext { w with phase := .waiting } rfl (by simp) (.inl rfl) (by simp [hphase])
    | cons fid fids =>
      simp only [work, hphase]
      split_ifs
      · exact hnext { w with phase := .checking fid fids } rfl (by simp) (.inr (by rw [hphase]; rfl))
          (by simp [hphase])
      · simp only [shouldBeRunning, serverSetting, FsckProg.exec, Prog.exec_bind, Prog.exec_issue, Prog.pure_eq,
          Prog.exec_ret, FsckStmt.run]
        split_ifs
        · exact hnext { w with lastStopCheck := w.nowish, phase := .checking fid fids } rfl (by simp)
            (.inr (by rw [hphase]; rfl)) (by simp [hphase])
        · exact hnext { w with lastStopCheck := w.nowish, phase := .waiting } rfl (by simp) (.inl rfl)
            (by simp [hphase])
  | checking fid fids =>
    simp only [work, hphase]
    split_ifs with hhandled
    · exact follows_handled input st hphase hhandled hsorted
    · exact hnext { w with nowish := input.now, phase := .waiting } rfl (by simp) (.inl rfl) (by simp [hphase])
  | noting fids =>
    have hmem : Text.numify w.maxChecked ∈ w.remembered := by
      rw [remembered_of_phase (by simp [hphase]) (by simp [hphase])]
      rfl
    have hbatch : (FsckPhase.looping fids).batch = w.phase.batch := by
      rw [hphase]
      rfl
    simp only [work, hphase]
    split_ifs
    · exact hnext { w with phase := .looping fids } rfl (by simp) (.inr hbatch) (by simp [hphase])
    · show w.Follows input st { w with lastMaxcheckWrite := w.nowish, phase := .looping fids }
        (st.setSetting .fsckHighestFidChecked (some w.maxChecked))
      exact .of_setMaxChecked input st hsorted (by simp) (remembered_of_eq rfl (by simp [hphase])) (.inr hbatch) hmem

end FsckWorker

theorem FsckStmt.position_run {s : FsckStmt} {st : FsckStore}
    (h : ∀ val, s ≠ .setServerSetting .fsckHighestFidChecked val) : (s.run st).2.position = st.position := by
  cases s with
  | setServerSetting key val =>
    refine FsckStore.position_setSetting_ne fun heq => ?_
    subst heq
    exact h val rfl
  | _ => rfl

/-- A reset that no file above its start gets lost by: neither the settings nor a worker has it behind. -/
def FsckReset.Clean (σ : FsckSystem) (r : FsckReset) : Prop :=
  ∀ fid ∈ σ.store.files, r.startpos < fid → r.stored < fid ∧ ∀ w ∈ σ.workers, ¬ w.Behind fid

namespace FsckHistory

variable {σ σ' : FsckSystem} {h : FsckHistory} {e : FsckEvent}

/-- What the resets leave to prove: a file of the history that is behind the settings or a worker has been
checked. -/
structure Inv (σ : FsckSystem) (h : FsckHistory) : Prop where
  sorted : ∀ w ∈ σ.workers, w.phase.batch.Pairwise (· < ·)
  present : ∀ since ∈ h.since, ∀ fid ∈ since.present, fid ∈ σ.store.files
  accounted : ∀ since ∈ h.since, ∀ fid ∈ since.present, since.startpos < fid →
    (fid ≤ σ.store.position ∨ ∃ w ∈ σ.workers, w.Behind fid) → fid ∈ since.handled

theorem Inv.of_sub (hinv : Inv σ h) (hnone : h.reset? σ e = none)
    (hsorted : ∀ w ∈ σ'.workers, w.phase.batch.Pairwise (· < ·))
    (hbehind : ∀ fid ∈ σ.store.files, (fid ≤ σ'.store.position ∨ ∃ w ∈ σ'.workers, w.Behind fid) →
      (fid ≤ σ.store.position ∨ ∃ w ∈ σ.workers, w.Behind fid) ∨ fid ∈ σ.handles e) :
    Inv σ' (h.observe σ σ' e) := by
  have hsince : ∀ since ∈ (h.observe σ σ' e).since, ∃ old ∈ h.since, since = { old with
      present := old.present.filter (σ'.store.files.contains ·)
      handled := σ.handles e ++ old.handled } := by
    intro since hmem
    simp only [observe, hnone] at hmem
    obtain ⟨old, hold, rfl⟩ := Option.map_eq_some_iff.mp hmem
    exact ⟨old, hold, rfl⟩
  refine ⟨hsorted, ?_, ?_⟩
  · intro since hmem fid hfid
    obtain ⟨old, hold, rfl⟩ := hsince since hmem
    simpa using (List.mem_filter.mp hfid).2
  · intro since hmem fid hfid hstart hpast
    obtain ⟨old, hold, rfl⟩ := hsince since hmem
    have hpresent := (List.mem_filter.mp hfid).1
    rcases hbehind fid (hinv.present old hold fid hpresent) hpast with hbefore | hhandled
    · exact List.mem_append_right _ (hinv.accounted old hold fid hpresent hstart hbefore)
    · exact List.mem_append_left _ hhandled

theorem Inv.of_reset {r : FsckReset} (hinv : Inv σ h) (hreset : h.reset? σ e = some r) (hclean : r.Clean σ)
    (hworkers : σ'.workers = σ.workers) (hfiles : σ'.store.files = σ.store.files)
    (hstored : σ'.store.position = r.stored) : Inv σ' (h.observe σ σ' e) := by
  have hsince : ∀ since ∈ (h.observe σ σ' e).since, since = ⟨r.startpos, σ'.store.files, []⟩ := by
    intro since hmem
    simp only [observe, hreset, Option.mem_some_iff] at hmem
    exact hmem.symm
  refine ⟨by rw [hworkers]; exact hinv.sorted, ?_, ?_⟩
  · intro since hmem fid hfid
    rw [hsince since hmem] at hfid
    exact hfid
  · intro since hmem fid hfid hstart hpast
    rw [hsince since hmem] at hfid hstart
    rw [hfiles] at hfid
    obtain ⟨hlt, hnot⟩ := hclean fid hfid hstart
    rw [hstored, hworkers] at hpast
    rcases hpast with hle | ⟨w, hw, hbehind⟩
    · exact absurd hlt (not_lt.mpr hle)
    · exact absurd hbehind (hnot w hw)

theorem reset?_eq_some {r : FsckReset} (hreset : h.reset? σ e = some r) (hstep : σ.apply e = some σ') :
    σ'.workers = σ.workers ∧ σ'.store.files = σ.store.files ∧ σ'.store.position = r.stored := by
  cases e with
  | request c =>
    simp only [FsckSystem.apply, Option.some.injEq] at hstep
    subst hstep
    cases c with
    | start hostname now =>
      simp only [reset?] at hreset
      split_ifs at hreset
      obtain rfl := Option.some.inj hreset
      exact ⟨rfl, rfl, rfl⟩
    | _ => cases hreset
  | query i =>
    simp only [FsckSystem.apply] at hstep
    simp only [reset?] at hreset
    split at hreset
    · rename_i val k hi
      rw [hi] at hstep
      obtain rfl := Option.some.inj hstep
      obtain rfl := Option.some.inj hreset
      exact ⟨rfl, FsckStore.files_setSetting, FsckStore.position_setSetting_self⟩
    · cases hreset
  | _ => cases hreset

theorem not_behind_start (hostname : Text) (fid : ℕ) : ¬ (FsckWorker.start hostname).Behind fid := by
  rintro (h | ⟨pos, h, _⟩ | ⟨⟨fid', h, _⟩, _⟩)
  · cases h
  · simp [FsckWorker.remembered, FsckWorker.start, Text.truthy] at h
  · cases h

theorem Inv.of_workers (hinv : Inv σ h) (hnone : h.reset? σ e = none)
    (hworkers : ∀ w ∈ σ'.workers, w ∈ σ.workers ∨ ∃ hostname, w = .start hostname)
    (hpos : σ'.store.position = σ.store.position) : Inv σ' (h.observe σ σ' e) := by
  refine hinv.of_sub hnone (fun w hw => ?_) fun fid _ hpast => .inl ?_
  · rcases hworkers w hw with hw | ⟨hostname, rfl⟩
    · exact hinv.sorted w hw
    · exact List.Pairwise.nil
  · rw [hpos] at hpast
    refine hpast.imp_right fun ⟨w, hw, hbehind⟩ => ?_
    rcases hworkers w hw with hw | ⟨hostname, rfl⟩
    · exact ⟨w, hw, hbehind⟩
    · exact absurd hbehind (not_behind_start hostname fid)

theorem Inv.of_work {i : ℕ} {input : FsckInput} (hinv : Inv σ h) (hstep : σ.apply (.work i input) = some σ') :
    Inv σ' (h.observe σ σ' (.work i input)) := by
  simp only [FsckSystem.apply] at hstep
  cases hi : σ.workers[i]? with
  | none =>
    rw [hi] at hstep
    cases hstep
  | some w =>
    rw [hi] at hstep
    obtain rfl := Option.some.inj hstep
    have hw := List.mem_of_getElem? hi
    have hfollows := FsckWorker.work_follows input σ.store (hinv.sorted w hw)
    refine hinv.of_sub rfl (fun w' hw' => ?_) fun fid hfile hpast => ?_
    · rcases List.mem_or_eq_of_mem_set hw' with hw' | rfl
      · exact hinv.sorted w' hw'
      · exact hfollows.sorted
    · -- the settings and the worker itself first, then the workers that did nothing
      have hself : ∀ {p : Prop}, (fid ≤ σ.store.position ∨ w.Behind fid) ∨ p →
          (fid ≤ σ.store.position ∨ ∃ w ∈ σ.workers, w.Behind fid) ∨ p :=
        fun h => h.imp_left fun h => h.imp_right fun hb => ⟨w, hw, hb⟩
      rcases hpast with hle | ⟨w', hw', hbehind⟩
      · exact hself (.inl (hfollows.position fid hle))
      rcases List.mem_or_eq_of_mem_set hw' with hw' | rfl
      · exact .inl (.inr ⟨w', hw', hbehind⟩)
      rcases hfollows.behind fid hfile hbehind with hle | hb | ⟨fids, hphase, hhandled⟩
      · exact hself (.inl (.inl hle))
      · exact hself (.inl (.inr hb))
      · refine .inr ?_
        simp only [FsckSystem.handles, hi, Option.map_some, hphase, hhandled, if_true]
        exact List.mem_singleton_self fid

/-- Every event keeps the invariant, if it is no reset or a clean one. -/
theorem inv_step (hinv : Inv σ h) (hclean : ∀ r, h.reset? σ e = some r → r.Clean σ)
    (hstep : σ.apply e = some σ') : Inv σ' (h.observe σ σ' e) := by
  cases hreset : h.reset? σ e with
  | some r =>
    obtain ⟨hworkers, hfiles, hstored⟩ := reset?_eq_some hreset hstep
    exact hinv.of_reset hreset (hclean r hreset) hworkers hfiles hstored
  | none =>
    cases e with
    | work i input => exact hinv.of_work hstep
    | request c =>
      obtain rfl := Option.some.inj hstep
      exact hinv.of_workers hreset (fun w hw => .inl hw) rfl
    | spawn hostname =>
      obtain rfl := Option.some.inj hstep
      refine hinv.of_workers hreset (fun w hw => ?_) rfl
      exact (List.mem_append.mp hw).imp_right fun h => ⟨hostname, List.mem_singleton.mp h⟩
    | finding utime fid evcode devid =>
      obtain rfl := Option.some.inj hstep
      exact hinv.of_workers hreset (fun w hw => .inl hw) (FsckStmt.position_run (by simp))
    | other s =>
      obtain rfl := Option.some.inj hstep
      exact hinv.of_workers hreset (fun w hw => .inl hw) rfl
    | abandon i =>
      simp only [FsckSystem.apply] at hstep
      split_ifs at hstep
      obtain rfl := Option.some.inj hstep
      exact hinv.of_workers hreset (fun w hw => .inl hw) rfl
    | die i =>
      simp only [FsckSystem.apply] at hstep
      split_ifs at hstep
      obtain rfl := Option.some.inj hstep
      exact hinv.of_workers hreset (fun w hw => .inl (List.mem_of_mem_eraseIdx hw)) rfl
    | query i =>
      simp only [FsckSystem.apply] at hstep
      split at hstep
      · rename_i s k hi
        obtain rfl := Option.some.inj hstep
        refine hinv.of_workers hreset (fun w hw => .inl hw) (FsckStmt.position_run fun val heq => ?_)
        subst heq
        simp [reset?, hi] at hreset
      · cases hstep

theorem inv_run {store : FsckStore} (hrun : FsckRun (fun σ r => r.Clean σ) store σ h) : Inv σ h := by
  induction hrun with
  | nil => exact ⟨by simp, by simp, by simp⟩
  | snoc e _ hclean hstep ih => exact inv_step ih hclean hstep

end FsckHistory

/-- **What a run of fsck covers.** If every reset is clean, a worker that ends the run by itself has checked
all files that were there when the position was last reset and are above its start. -/
theorem fsck_covers {store : FsckStore} {σ : FsckSystem} {h : FsckHistory} {e : FsckEvent}
    (hrun : FsckRun (fun σ r => r.Clean σ) store σ h) (hends : σ.ends e = true) : h.Covered := by
  have hinv := FsckHistory.inv_run hrun
  obtain ⟨w, hw, hphase⟩ : ∃ w ∈ σ.workers, w.phase = .ending := by
    unfold FsckSystem.ends at hends
    split at hends
    · obtain ⟨w, hw, hphase⟩ := (Option.any_eq_true _ _).mp hends
      exact ⟨w, List.mem_of_getElem? hw, of_decide_eq_true hphase⟩
    · cases hends
  intro since hsince fid hfid hstart
  exact hinv.accounted since hsince fid hfid hstart (.inr ⟨w, hw, .inl hphase⟩)

/-! ### Runs played from a schedule -/

instance decidableSinceCovered (since : FsckSince) : Decidable since.Covered := inferInstanceAs (Decidable (∀ _ ∈ _, _))

instance decidableHistoryCovered (h : FsckHistory) : Decidable h.Covered := inferInstanceAs (Decidable (∀ _ ∈ h.since, _))

instance decidableBehind (w : FsckWorker) (fid : ℕ) : Decidable (w.Behind fid) := inferInstanceAs (Decidable (_ ∨ _ ∨ _))

instance decidableClean (r : FsckReset) (σ : FsckSystem) : Decidable (r.Clean σ) := inferInstanceAs (Decidable (∀ _ ∈ _, _))

/-- Play the events of a schedule one after the other, with every reset allowed that is to be. -/
def FsckSystem.play (allowed : FsckSystem → FsckReset → Bool) :
    List FsckEvent → FsckSystem × FsckHistory → Option (FsckSystem × FsckHistory)
  | [], c => some c
  | e :: es, (σ, h) =>
    if (h.reset? σ e).all (allowed σ) then
      (σ.apply e).bind fun σ' => play allowed es (σ', h.observe σ σ' e)
    else none

theorem FsckRun.of_play {allowed : FsckSystem → FsckReset → Bool} {store : FsckStore} {es : List FsckEvent} :
    ∀ {c c' : FsckSystem × FsckHistory}, FsckRun (fun σ r => allowed σ r = true) store c.1 c.2 →
      FsckSystem.play allowed es c = some c' → FsckRun (fun σ r => allowed σ r = true) store c'.1 c'.2 := by
  induction es with
  | nil =>
    intro c c' hrun h
    obtain rfl := Option.some.inj h
    exact hrun
  | cons e es ih =>
    rintro ⟨σ, h⟩ c' hrun hplay
    unfold FsckSystem.play at hplay
    split_ifs at hplay with hall
    obtain ⟨σ', hstep, hrest⟩ := Option.bind_eq_some_iff.mp hplay
    refine ih (FsckRun.snoc e hrun (fun r hr => ?_) hstep) hrest
    rw [hr] at hall
    exact hall

theorem FsckRun.exists_of_play {allowed : FsckSystem → FsckReset → Bool} {store : FsckStore} {es : List FsckEvent}
    {test : FsckSystem × FsckHistory → Bool}
    (h : (FsckSystem.play allowed es (⟨store, [], []⟩, ⟨false, none⟩)).any test = true) :
    ∃ σ h, FsckRun (fun σ r => allowed σ r = true) store σ h ∧ test (σ, h) = true := by
  obtain ⟨c, hplay, htest⟩ := (Option.any_eq_true _ _).mp h
  exact ⟨c.1, c.2, FsckRun.of_play .nil hplay, htest⟩

theorem FsckRun.imp {allowed allowed' : FsckSystem → FsckReset → Prop} {store : FsckStore} {σ : FsckSystem}
    {h : FsckHistory} (himp : ∀ σ r, allowed σ r → allowed' σ r) (hrun : FsckRun allowed store σ h) :
    FsckRun allowed' store σ h := by
  induction hrun with
  | nil => exact .nil
  | snoc e _ hreset hstep ih => exact .snoc e ih (fun r hr => himp _ r (hreset r hr)) hstep

/-- A step of the only worker, ten seconds after the epoch. -/
def workOnce : FsckEvent := .work 0 ⟨10, true, true⟩

/-- One file is stored, a worker started, and fsck reset and started; the worker checks the file and finds no
more. -/
def firstFsck : List FsckEvent :=
  [.other (.replaceFile ⟨1, 1, "a".toList, 3, 0, 1, none, 0⟩), .spawn "tracker".toList,
    .request (.reset fun _ => none)] ++ List.replicate 10 (.query 0) ++
  [.request (.start "tracker".toList 5)] ++ List.replicate 8 (.query 1) ++ List.replicate 12 workOnce

/-- The worker of `firstFsck` has covered the file. -/
theorem firstFsck_covers : ∃ σ h, FsckRun (fun σ r => r.Clean σ) .fresh σ h ∧ σ.ends workOnce = true ∧
    h.since.isSome = true ∧ h.Covered := by
  have hplay : (FsckSystem.play (fun σ r => decide (r.Clean σ)) firstFsck (⟨.fresh, [], []⟩, ⟨false, none⟩)).any
      (fun c => c.1.ends workOnce && c.2.since.isSome) = true := by decide +kernel
  obtain ⟨σ, h, hrun, htest⟩ := FsckRun.exists_of_play hplay
  obtain ⟨hends, hsome⟩ := (Bool.and_eq_true _ _).mp htest
  have hclean : FsckRun (fun σ r => r.Clean σ) .fresh σ h := hrun.imp fun _ _ => of_decide_eq_true
  exact ⟨σ, h, hclean, hends, hsome, fsck_covers hclean hends⟩

/-- Every run of fsck that the worker ends by itself has covered the files. -/
def FsckCovers : Prop :=
  ∀ store σ h e, FsckRun (fun _ _ => True) store σ h → FsckSystem.ends σ e = true → h.Covered

/-- The run of `firstFsck` is completed, and fsck is started once more: the worker finds no file above the
position of the first run and ends the second one, which has checked nothing. -/
theorem startAgain_covers_nothing : ¬ FsckCovers := by
  have hplay : (FsckSystem.play (fun _ _ => true) (firstFsck ++ List.replicate 4 workOnce ++
      [.request (.start "tracker".toList 20)] ++ List.replicate 16 (.query 2) ++ List.replicate 4 workOnce)
      (⟨.fresh, [], []⟩, ⟨false, none⟩)).any
      (fun c => c.1.ends workOnce && !decide c.2.Covered) = true := by decide +kernel
  intro hcovers
  obtain ⟨σ, h, hrun, htest⟩ := FsckRun.exists_of_play hplay
  obtain ⟨hends, hnot⟩ := (Bool.and_eq_true _ _).mp htest
  have hcovered := hcovers _ σ h _ (hrun.imp fun _ _ _ => trivial) hends
  simp [hcovered] at hnot

-- a reset between two batches does not reach the position that the worker remembers
example : (FsckSystem.play (fun _ _ => true) (firstFsck.take 30 ++ [.request (.reset fun _ => none)] ++
    List.replicate 10 (.query 2) ++ List.replicate 4 workOnce) (⟨.fresh, [], []⟩, ⟨false, none⟩)).any
    (fun c => c.1.ends workOnce && !decide c.2.Covered) = true := by decide +kernel

end Ylem
