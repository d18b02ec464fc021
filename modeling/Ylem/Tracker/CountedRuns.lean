import Ylem.Lib.Folds
import Ylem.Query.EditFile
import Ylem.Tracker.ForgottenReplicas
import Ylem.Worker.CheckFid

/-!
# The counts over a run

`CountedOp.Refreshes` says for each operation, when nothing else runs, what it takes for the device counts to stay
right: the lock of a count that has to be updated is not refused, and where no count is updated no file loses a
device. An edit takes a device from the file that it edits, and a fix forgets the devices that have no copy, and
neither updates the count. So the counts are right after every operation of a run exactly if each operation refreshes
what it has to (`counted_always_iff`).
-/

namespace Ylem

/-! ### Editing -/

section Edit

variable (env : EditEnv) (args : Args) {db : Db} {plan : EditPlan}

/-- The statement changes nothing. -/
def Stmt.Reads (s : Stmt) : Prop := ∀ db : Db, (s.run db).2 = db

theorem exec_of_reads {α : Type} {p : DbProg α} (h : p.Issues Stmt.Reads) (db : Db) : (p.exec db).2 = db := by
  induction p generalizing db with
  | ret a => rfl
  | stmt s k ih =>
    rw [DbProg.exec, Prog.exec_stmt, h.1 db]
    exact ih _ (h.2 _) db

theorem exec_bind_of_reads {α β : Type} {p : DbProg α} (h : p.Issues Stmt.Reads) (f : α → DbProg β) (db : Db) :
    (p >>= f).exec db = (f (p.exec db).1).exec db := by
  have hdb := exec_of_reads h db
  simp only [DbProg.exec, Prog.exec_bind] at hdb ⊢
  rw [hdb]

theorem reads_editedFid (memc : Memcached) (dmid : ℕ) (key : Text) : (editedFid memc dmid key).Issues Stmt.Reads := by
  unfold editedFid
  split
  · exact trivial
  · refine ⟨fun _ => rfl, fun row => ?_⟩
    cases row with
    | none => exact trivial
    | some row =>
      show Prog.Issues _ (ite _ _ _)
      split_ifs <;> exact trivial

theorem reads_editedDevids (memc : Memcached) (fid : ℕ) : (editedDevids memc fid).Issues Stmt.Reads := by
  unfold editedDevids
  split
  · exact ⟨fun _ => rfl, fun _ => trivial⟩
  · exact trivial

theorem reads_editedClass (fid : ℕ) (loaded : Option FileRow) : (editedClass env fid loaded).Issues Stmt.Reads := by
  cases loaded with
  | none => exact ⟨fun _ => rfl, fun _ => trivial⟩
  | some row => exact trivial

theorem reads_editPlan : (editPlan env args).Issues Stmt.Reads := by
  unfold editPlan
  split
  · exact trivial
  · exact trivial
  split_ifs
  · exact trivial
  split
  · exact trivial
  refine (reads_editedFid _ _ _).bind fun found => ?_
  split
  · exact trivial
  refine (reads_editedDevids _ _).bind fun devids => ?_
  split
  · exact trivial
  refine (reads_editedClass env _ _).bind fun classid => ?_
  split <;> exact trivial

variable {env args}

theorem has_of_editedFid {memc : Memcached} {dmid fid : ℕ} {key : Text} {row : FileRow}
    (h : ((editedFid memc dmid key).exec db).1 = .ok (fid, some row)) : db.file.Has fid := by
  unfold editedFid at h
  split at h
  · cases h
  · simp only [DbProg.exec, Prog.exec_bind, Prog.exec_issue, Stmt.run] at h
    cases hrow : db.file.findName? (dmid, key) with
    | none =>
      rw [hrow] at h
      cases h
    | some found =>
      rw [hrow] at h
      dsimp only at h
      split_ifs at h
      · cases h
      · obtain ⟨rfl, -⟩ := Prod.mk.inj (Except.ok.inj h)
        exact Table.has_of_mem (List.mem_of_find?_eq_some hrow)

theorem has_of_editedClass {fid classid : ℕ} {loaded : Option FileRow} (hloaded : ∀ row ∈ loaded, db.file.Has fid)
    (h : ((editedClass env fid loaded).exec db).1 = some classid) : db.file.Has fid := by
  cases loaded with
  | some row => exact hloaded row rfl
  | none =>
    simp only [editedClass, DbProg.exec, Prog.exec_bind, Prog.exec_issue, Stmt.run, Prog.pure_eq, Prog.exec_ret] at h
    obtain ⟨row, hrow, -⟩ := Option.bind_eq_some_iff.mp h
    exact Table.isSome_find?.mp (by rw [hrow]; rfl)

theorem has_of_editPlan (h : ((editPlan env args).exec db).1 = .ok plan) : db.file.Has plan.fid := by
  unfold editPlan at h
  split at h
  · cases h
  · cases h
  split_ifs at h
  · cases h
  split at h
  · cases h
  rename_i memc _
  rw [exec_bind_of_reads (reads_editedFid _ _ _)] at h
  split at h
  · cases h
  rename_i fid loaded hfid
  rw [exec_bind_of_reads (reads_editedDevids _ _)] at h
  split at h
  · cases h
  rw [exec_bind_of_reads (reads_editedClass env _ _)] at h
  split at h
  · cases h
  rename_i classid hclass
  obtain rfl := Except.ok.inj h
  refine has_of_editedClass (fun row hrow => ?_) hclass
  rw [Option.mem_def.mp hrow] at hfid
  exact has_of_editedFid hfid

theorem registerTempfile_spec (hcounter : db.CounterAbove) (new : NewTempfile) (fuel : ℕ) (reseeded : ℕ → Bool) :
    let run := (Store.registerTempfile new none fuel reseeded).exec db
    run.2.file = db.file ∧ run.2.fileOn = db.fileOn ∧ ∀ newfid, run.1 = .ok newfid → ¬ db.file.Has newfid := by
  intro run
  have hkeeps : ∀ {p : DbProg Registered}, p.Issues (fun s => ∀ db : Db, (s.run db).2.file = db.file ∧
      (s.run db).2.fileOn = db.fileOn) → ∀ db, (p.exec db).2.file = db.file ∧ (p.exec db).2.fileOn = db.fileOn := by
    intro p hp
    induction p with
    | ret a => exact fun db => ⟨rfl, rfl⟩
    | stmt s k ih =>
      intro db
      obtain ⟨hfile, hon⟩ := hp.1 db
      obtain ⟨hfile', hon'⟩ := ih _ (hp.2 _) (s.run db).2
      exact ⟨hfile'.trans hfile, hon'.trans hon⟩
  have hstmts : RegisterStmts new (fun s => ∀ db : Db, (s.run db).2.file = db.file ∧ (s.run db).2.fileOn = db.fileOn) := by
    refine ⟨fun fid reseeded _ db => ?_, fun _ _ => ⟨rfl, rfl⟩, fun _ => ⟨rfl, rfl⟩, fun _ _ => ⟨rfl, rfl⟩⟩
    simp only [Stmt.run]
    split_ifs <;> exact ⟨rfl, rfl⟩
  obtain ⟨hfile, hon⟩ := hkeeps (issues_registerTempfile hstmts none fuel reseeded) db
  refine ⟨hfile, hon, fun newfid hnew => ?_⟩
  obtain ⟨r, rfl⟩ := Store.registerTempfile_candidate new hcounter (Prod.ext hnew rfl : run = (.ok newfid, run.2))
  exact db.seedFid_not_has r

variable (env args) in
/-- The file and the device that an edit takes from each other, if it gets so far. -/
def takenByEdit (db : Db) : Option (ℕ × ℕ) :=
  match ((editPlan env args).exec db).1 with
  | .error _ => none
  | .ok plan =>
    match ((Store.registerTempfile (plan.tempfile env.now) none env.fuel env.reseeded).exec db).1 with
    | .ok _ => plan.dev.map fun dev => (plan.fid, dev.devid)
    | _ => none

variable (env) in
theorem counted_handOver_iff (h : db.Counted) {newfid : ℕ} (hold : db.file.Has plan.fid) (hnew : ¬ db.file.Has newfid) :
    ((handOver env plan newfid).exec db).2.Counted ↔ ∀ dev ∈ plan.dev, (plan.fid, dev.devid) ∉ db.fileOn.rows := by
  unfold handOver
  cases hplan : plan.dev with
  | none => exact iff_of_true h fun _ hdev => absurd hdev (Option.not_mem_none _)
  | some dev =>
    have hdevid : (∀ d ∈ some dev, (plan.fid, d.devid) ∉ db.fileOn.rows) ↔ (plan.fid, dev.devid) ∉ db.fileOn.rows :=
      ⟨fun hall => hall dev rfl, fun hnot d hd => Option.some.inj hd ▸ hnot⟩
    have htaken : (Stmt.run (.deleteFileOn plan.fid dev.devid) db).2.Counted ↔ (plan.fid, dev.devid) ∉ db.fileOn.rows := by
      rw [Db.counted_iff_of_forgetsOnly h (Worker.Delete.forgetsOnly_deleteFileOn plan.fid dev.devid db)]
      exact ⟨fun hall hmem => hall _ hmem rfl hold, fun hnot r hr heq => absurd (heq ▸ hr) hnot⟩
    rw [hdevid, ← htaken]
    dsimp only
    simp only [DbProg.exec, Prog.exec_bind, Prog.exec_issue]
    split_ifs with hzero
    · exact Iff.rfl
    · simp only [Store.addFididToDevid, Prog.exec_bind, Prog.exec_issue]
      have hadded : (Stmt.run (.insertFileOn [(newfid, dev.devid)])
          (Stmt.run (.deleteFileOn plan.fid dev.devid) db).2).2.Counted ↔ _ :=
        counted_insertFileOn_iff (List.forall_mem_singleton.mpr hnew)
      split_ifs <;> exact hadded

variable (env args) in
theorem counted_editFile_iff (h : db.Counted) (hcounter : db.CounterAbove) :
    ((cmdEditFile env args).exec db).2.Counted ↔ ∀ r ∈ takenByEdit env args db, r ∉ db.fileOn.rows := by
  rw [cmdEditFile, exec_bind_of_reads (reads_editPlan env args)]
  unfold takenByEdit
  cases hplan : ((editPlan env args).exec db).1 with
  | error outcome => exact iff_of_true h fun _ hr => absurd hr (Option.not_mem_none _)
  | ok plan =>
    have hhas := has_of_editPlan hplan
    obtain ⟨hfile, hon, hfree⟩ := registerTempfile_spec hcounter (plan.tempfile env.now) env.fuel env.reseeded
    have h' : ((Store.registerTempfile (plan.tempfile env.now) none env.fuel env.reseeded).exec db).2.Counted :=
      fun fid => (Db.counts_congr hfile hon).mpr (h fid)
    show ((editFile env plan).exec db).2.Counted ↔ _
    rw [editFile, DbProg.exec, Prog.exec_bind]
    change (Prog.exec Stmt.run _ ((Store.registerTempfile _ none env.fuel env.reseeded).exec db).2).2.Counted ↔ _
    simp only [DbProg.exec] at hfile hon hfree h' ⊢
    cases hregister : (Prog.exec Stmt.run (Store.registerTempfile (plan.tempfile env.now) none env.fuel env.reseeded) db).1 with
    | running => exact iff_of_true h' fun _ hr => absurd hr (Option.not_mem_none _)
    | died e => cases e <;> exact iff_of_true h' fun _ hr => absurd hr (Option.not_mem_none _)
    | ok newfid =>
      generalize hrun : (Prog.exec Stmt.run (Store.registerTempfile (plan.tempfile env.now) none env.fuel env.reseeded) db).2
        = registered at hfile hon h' ⊢
      have hfree' : ¬ registered.file.Has newfid := by
        rw [hfile]
        exact hfree newfid hregister
      have hhanded := counted_handOver_iff env h' (by rw [hfile]; exact hhas) hfree'
      rw [hon] at hhanded
      show (Prog.exec Stmt.run (handOver env plan newfid >>= _) registered).2.Counted ↔ _
      rw [Prog.exec_bind]
      refine hhanded.trans ⟨fun hall r hr => ?_, fun hall dev hdev => ?_⟩
      · obtain ⟨dev, hdev, rfl⟩ := Option.map_eq_some_iff.mp hr
        exact hall dev hdev
      · exact hall _ (Option.map_eq_some_iff.mpr ⟨dev, hdev, rfl⟩)

end Edit

/-! ### Checking -/

section Check

variable {env : FixEnv} {row : FileRow} {known : List ℕ} {c : Checked} {db : Db}

theorem checkDfids_sorts (dfids : List ℕ) (hnodup : dfids.Nodup) (hnew : ∀ d ∈ dfids, d ∉ c.already)
    (hsized : ∀ d ∈ dfids, env.Sized d) :
    let c' := (checkDfids env row.length false dfids c).1
    (∀ d, d ∈ c'.good ↔ d ∈ c.good ∨ d ∈ dfids ∧ env.RightSize row.length d) ∧
      (∀ d, d ∈ c'.bad ↔ d ∈ c.bad ∨ d ∈ dfids ∧ ¬ env.RightSize row.length d) ∧
      ∀ d, d ∈ c'.already ↔ d ∈ c.already ∨ d ∈ dfids := by
  induction dfids generalizing c with
  | nil => exact ⟨fun d => by simp [checkDfids], fun d => by simp [checkDfids], fun d => by simp [checkDfids]⟩
  | cons devid dfids ih =>
    intro c'
    obtain ⟨hnot, hrest⟩ := List.nodup_cons.mp hnodup
    obtain ⟨⟨diskSize, hsize⟩, hothers⟩ := List.forall_mem_cons.mp hsized
    have hfirst : c.already.contains devid = false := by simpa using hnew devid List.mem_cons_self
    have hlater : ∀ d ∈ dfids, d ∉ devid :: c.already := by
      intro d hd hmem
      rcases List.mem_cons.mp hmem with rfl | hmem
      · exact hnot hd
      · exact hnew d (List.mem_cons_of_mem _ hd) hmem
    have hright : env.RightSize row.length devid ↔ diskSize = row.length := by
      rw [FixEnv.RightSize, hsize, Except.ok.injEq]
    have hrun : c' = if diskSize = row.length then (checkDfids env row.length false dfids (c.addGood devid)).1
        else (checkDfids env row.length false dfids (c.addBad false devid diskSize)).1 := by
      simp only [c']
      rw [checkDfids, if_neg (by rw [hfirst]; exact Bool.false_ne_true), hsize]
      dsimp only
      rw [if_neg Bool.false_ne_true]
      split_ifs <;> rfl
    rw [hrun]
    split_ifs with hlength
    · obtain ⟨hgood, hbad, halready⟩ := @ih (c.addGood devid) hrest hlater hothers
      have hR := hright.mpr hlength
      refine ⟨fun d => ?_, fun d => ?_, fun d => ?_⟩
      · rw [hgood]
        show d ∈ c.good ++ [devid] ∨ _ ↔ _
        grind
      · rw [hbad]
        show d ∈ c.bad ∨ _ ↔ _
        grind
      · rw [halready]
        show d ∈ devid :: c.already ∨ _ ↔ _
        grind
    · obtain ⟨hgood, hbad, halready⟩ := @ih (c.addBad false devid diskSize) hrest hlater hothers
      have hR := mt hright.mp hlength
      refine ⟨fun d => ?_, fun d => ?_, fun d => ?_⟩
      · rw [hgood]
        show d ∈ c.good ∨ _ ↔ _
        grind
      · rw [hbad]
        show d ∈ c.bad ++ [devid] ∨ _ ↔ _
        grind
      · rw [halready]
        show d ∈ devid :: c.already ∨ _ ↔ _
        grind

theorem checkDfids_search (dfids : List ℕ) (hgood : c.good = []) (hbad : ∀ d ∈ c.bad, d ∈ c.already)
    (hfound : (checkDfids env row.length true dfids c).1.good ≠ []) :
    ∃ g, (checkDfids env row.length true dfids c).1.good = [g] ∧ g ∉ c.already ∧
      g ∉ (checkDfids env row.length true dfids c).1.bad ∧
      ∀ d ∈ c.bad, d ∈ (checkDfids env row.length true dfids c).1.bad := by
  induction dfids generalizing c with
  | nil => exact absurd hgood hfound
  | cons devid dfids ih =>
    rw [checkDfids] at hfound ⊢
    by_cases hcontains : c.already.contains devid
    · rw [if_pos hcontains] at hfound ⊢
      exact ih hgood hbad hfound
    rw [if_neg hcontains] at hfound ⊢
    have hnew : devid ∉ c.already := by simpa using hcontains
    cases hsize : (env.sizeOnDisk devid).diskSize with
    | error error =>
      rw [hsize] at hfound
      exact absurd hgood hfound
    | ok diskSize =>
      rw [hsize] at hfound
      dsimp only at hfound ⊢
      by_cases hlength : diskSize = row.length
      · rw [if_pos hlength, if_pos rfl]
        refine ⟨devid, ?_, hnew, fun h => hnew (hbad devid h), fun _ => id⟩
        show c.good ++ [devid] = [devid]
        rw [hgood, List.nil_append]
      · rw [if_neg hlength] at hfound ⊢
        have hbad' : ∀ d ∈ (c.addBad true devid diskSize).bad, d ∈ (c.addBad true devid diskSize).already := by
          intro d hd
          rcases List.mem_append.mp hd with hd | hd
          · exact List.mem_cons_of_mem _ (hbad d hd)
          · exact List.mem_cons.mpr (.inl (List.mem_singleton.mp hd))
        obtain ⟨g, hg, hseen, hnot, hkept⟩ := @ih (c.addBad true devid diskSize) hgood hbad' hfound
        refine ⟨g, hg, fun h => hseen (List.mem_cons_of_mem _ h), hnot, fun d hd => ?_⟩
        exact hkept d (List.mem_append_left _ hd)

theorem issues_settleRecords {P : Stmt → Prop} (hforget : ∀ devid, P (.deleteFileOn row.fid devid))
    (hselect : P (.selectDevids row.fid)) (hqueue : P (.insertFileToReplicate ⟨row.fid, 0, none, 0⟩))
    (cached : Option (List ℕ)) (c : Checked) : (settleRecords env row cached c).Issues P := by
  have hbad : ∀ bad, (forgetBad row.fid bad).Issues P := by
    intro bad
    induction bad with
    | nil => exact trivial
    | cons bdev bad ih => exact ⟨hforget bdev, fun _ => ih⟩
  unfold settleRecords
  refine (hbad c.bad).bind fun _ => ?_
  extract_lets onDevids
  have hend : ∀ devids, (onDevids devids).Issues P := by
    intro devids
    simp only [onDevids]
    split
    · exact trivial
    · exact trivial
    · exact ⟨hqueue, fun _ => trivial⟩
  split
  · exact hend _
  · exact ⟨hselect, hend⟩

theorem file_settleRecords (cached : Option (List ℕ)) (c : Checked) (db : Db) :
    ((settleRecords env row cached c).exec db).2.file = db.file :=
  file_exec (issues_settleRecords (fun _ => trivial) trivial trivial cached c) db

theorem sameFid_settleRecords (cached : Option (List ℕ)) (c : Checked) {fid : ℕ} (h : row.fid ≠ fid) (db : Db) :
    SameFid fid db ((settleRecords env row cached c).exec db).2 :=
  sameFid_of_issues (issues_settleRecords (fun _ => h) trivial trivial cached c) db

theorem counts_settleRecords_iff (cached : Option (List ℕ)) (c : Checked) :
    ((settleRecords env row cached c).exec db).2.Counts row.fid ↔ ∀ r ∈ db.file.rows, r.fid = row.fid →
      r.devcount = ((db.devidsOf row.fid).filter fun d => !c.bad.contains d).length := by
  rw [Db.Counts, file_settleRecords, (settle_exec env row cached c db).1]

variable (env row) in
/-- What it takes for the count of a fid to stay right when it is fixed: where a recorded device has a copy of the right
size all have, and a copy that is found is the first one, or takes the place of the only one while the count is not
updated. -/
def FixEnv.Recounts (known : List ℕ) : Prop :=
  (∀ d ∈ known, env.Sized d) →
    ((∃ d ∈ known, env.RightSize row.length d) → ∀ d ∈ known, env.RightSize row.length d) ∧
      ((∀ d ∈ known, ¬ env.RightSize row.length d) →
        (∃ before devid after, searchDevids env = before ++ devid :: after ∧ env.RightSize row.length devid ∧
          ∀ d ∈ before, env.Sized d) → known.length + (if env.lock = some false then 0 else 1) = 1)

variable (env row) in
theorem counted_settleKnown_iff (h : db.Counted) (hrow : row ∈ db.file.rows) (cached : Option (List ℕ)) (c : Checked)
    (hbad : ∀ d, d ∈ c.bad ↔ d ∈ db.devidsOf row.fid ∧ ¬ env.RightSize row.length d) :
    ((settleRecords env row cached c).exec db).2.Counted ↔ ∀ d ∈ db.devidsOf row.fid, env.RightSize row.length d := by
  have hdevids := (settle_exec env row cached c db).1
  have hcount : ((settleRecords env row cached c).exec db).2.Counts row.fid ↔ _ :=
    Db.counts_iff_of_file_eq (file_settleRecords cached c db) (h row.fid)
  rw [hdevids, forall_prop_of_true (Table.has_of_mem hrow), List.length_filter_eq_length_iff] at hcount
  have hgood : (∀ d ∈ db.devidsOf row.fid, (!c.bad.contains d) = true) ↔ ∀ d ∈ db.devidsOf row.fid, env.RightSize row.length d := by
    refine forall₂_congr fun d hd => ?_
    rw [Bool.not_eq_true', List.contains_eq_mem, decide_eq_false_iff_not, hbad, not_and, not_not]
    exact ⟨fun hr => hr hd, fun hr _ => hr⟩
  rw [← hgood, ← hcount]
  refine ⟨fun hcounted => hcounted row.fid, fun hfid fid => ?_⟩
  by_cases hne : row.fid = fid
  · exact hne ▸ hfid
  · exact (sameFid_settleRecords cached c hne db).counts_iff.mpr (h fid)

variable (env row) in
theorem counted_settleFound_iff (h : db.Counted) (hrow : row ∈ db.file.rows) (cached : Option (List ℕ)) {c : Checked} {g : ℕ}
    (hnew : g ∉ db.devidsOf row.fid) (hgood : g ∉ c.bad) (hbad : ∀ d ∈ db.devidsOf row.fid, d ∈ c.bad) :
    ((settleRecords env row cached c).exec ((addToDb env.lock row.fid g).exec db).2).2.Counted ↔
      (db.devidsOf row.fid).length + (if env.lock = some false then 0 else 1) = 1 := by
  generalize hadded : ((addToDb env.lock row.fid g).exec db).2 = added
  have hon : added.fileOn = db.fileOn.insertIgnore (row.fid, g) := by rw [← hadded, fileOn_addToDb]
  have hfresh : ¬ db.fileOn.Has (id (row.fid, g)) := fun hhas => by
    obtain ⟨r, hr, heq⟩ := Table.has_iff.mp hhas
    have heq : r = (row.fid, g) := heq
    exact hnew (db.mem_devidsOf.mpr (heq ▸ hr))
  have hdevids : added.devidsOf row.fid = db.devidsOf row.fid ++ [g] := by
    rw [Db.devidsOf, hon, Table.rows_insertIgnore_of_not_has hfresh, List.filter_append, List.map_append]
    simp [Db.devidsOf]
  -- all but the device that has been found are bad
  have hleft : ((added.devidsOf row.fid).filter fun d => !c.bad.contains d) = [g] := by
    rw [hdevids, List.filter_append, List.filter_eq_nil_iff.mpr fun d hd => by simp [hbad d hd], List.nil_append]
    simp [hgood]
  have hcounted : ((settleRecords env row cached c).exec added).2.Counted ↔
      ∀ r ∈ added.file.rows, r.fid = row.fid → r.devcount = 1 := by
    have hcount := @counts_settleRecords_iff env row added cached c
    rw [hleft, List.length_singleton] at hcount
    rw [← hcount]
    refine ⟨fun hall => hall row.fid, fun hfid fid => ?_⟩
    by_cases hne : row.fid = fid
    · exact hne ▸ hfid
    · have hadd := sameFid_addToDb hne env.lock g db
      rw [hadded] at hadd
      exact (hadd.trans (sameFid_settleRecords cached c hne added)).counts_iff.mpr (h fid)
  rw [hcounted]
  -- the count before the others are forgotten
  have hexec : added = ((Store.updateDevcountAtomic env.lock row.fid).exec
      (Stmt.run (.insertFileOn [(row.fid, g)]) db).2).2 := by
    rw [← hadded]
    simp only [addToDb, Store.addFididToDevid, DbProg.exec, Prog.exec_bind, Prog.exec_issue]
    rw [if_pos (by simp [Stmt.run, Table.rows_insertIgnore_of_not_has hfresh])]
    rfl
  have hcount : (∃ r ∈ added.file.rows, r.fid = row.fid) ∧ ∀ r ∈ added.file.rows, r.fid = row.fid →
      r.devcount = (db.devidsOf row.fid).length + if env.lock = some false then 0 else 1 := by
    by_cases hlock : env.lock = some false
    · have hfile : added.file = db.file := by
        rw [hexec, Store.updateDevcountAtomic, if_pos hlock]
        rfl
      rw [hfile, if_pos hlock]
      exact ⟨⟨row, hrow, rfl⟩, fun r hr heq => h row.fid r hr heq⟩
    · have hcounts := counts_updateDevcountAtomic hlock row.fid (Stmt.run (.insertFileOn [(row.fid, g)]) db).2
      rw [← hexec] at hcounts
      rw [if_neg hlock]
      refine ⟨?_, fun r hr heq => ?_⟩
      · rw [hexec, Store.updateDevcountAtomic, if_neg hlock]
        refine ⟨_, List.mem_map_of_mem hrow, ?_⟩
        rw [if_pos rfl]
      · rw [hcounts r hr heq, hdevids, List.length_append, List.length_singleton]
  obtain ⟨hsome, hvalue⟩ := hcount
  constructor
  · intro hall
    obtain ⟨r, hr, heq⟩ := hsome
    rw [← hvalue r hr heq, hall r hr heq]
  · intro hone r hr heq
    rw [hvalue r hr heq, hone]

variable (env row) in
/-- The counts stay right exactly if the count of the fid does. -/
theorem counted_fixFid_iff (h : db.Counted) (hrow : row ∈ db.file.rows) :
    ((fixFid env row (db.devidsOf row.fid)).exec db).2.Counted ↔ env.Recounts row (db.devidsOf row.fid) := by
  have hsized : (checkDfids env row.length false (db.devidsOf row.fid) .start).2 = none ↔ _ :=
    checkDfids_error_eq_none_iff (db.devidsOf row.fid) Checked.start fun _ h => absurd h List.not_mem_nil
  have hsorts := @checkDfids_sorts env row Checked.start (db.devidsOf row.fid) (db.nodup_devidsOf row.fid) fun _ _ =>
    List.not_mem_nil
  generalize hcheck : checkDfids env row.length false (db.devidsOf row.fid) .start = checked at hsized hsorts
  obtain ⟨c, error⟩ := checked
  cases error with
  | some error =>
    have hrun : ((fixFid env row (db.devidsOf row.fid)).exec db).2 = db := by
      simp only [fixFid, hcheck]
      rfl
    rw [hrun]
    exact iff_of_true h fun hall => absurd (hsized.mpr hall) (Option.some_ne_none error)
  | none =>
    have hall := hsized.mp rfl
    obtain ⟨hgood, hbad, halready⟩ := hsorts hall
    simp only [Checked.start, List.not_mem_nil, false_or] at hgood hbad halready
    rw [FixEnv.Recounts, forall_prop_of_true hall]
    by_cases hnone : c.good = []
    · have hwrong : ∀ d ∈ db.devidsOf row.fid, ¬ env.RightSize row.length d := by
        intro d hd hright
        have hin := (hgood d).mpr ⟨hd, hright⟩
        rw [hnone] at hin
        exact absurd hin List.not_mem_nil
      have hvacuous : (∃ d ∈ db.devidsOf row.fid, env.RightSize row.length d) →
          ∀ d ∈ db.devidsOf row.fid, env.RightSize row.length d := by
        rintro ⟨d, hd, hright⟩
        exact absurd hright (hwrong d hd)
      rw [and_iff_right hvacuous, forall_prop_of_true hwrong]
      have hseen : ∀ d ∈ (c.fsckLog .startSearch none).already, env.Sized d ∧ ¬ env.RightSize row.length d := by
        intro d hd
        have hd' := (halready d).mp hd
        exact ⟨hall d hd', hwrong d hd'⟩
      rw [← checkDfids_found_iff (searchDevids env) (c.fsckLog .startSearch none) hnone hseen]
      have hsearch := @checkDfids_search env row (c.fsckLog .startSearch none) (searchDevids env) hnone fun d hd =>
        (halready d).mpr ((hbad d).mp hd).1
      generalize hagain : checkDfids env row.length true (searchDevids env)
        (c.fsckLog .startSearch none) = searched at hsearch ⊢
      obtain ⟨c', error⟩ := searched
      cases error with
      | some error =>
        have hrun : ((fixFid env row (db.devidsOf row.fid)).exec db).2 = db := by
          simp only [fixFid, hcheck, hnone, List.isEmpty_nil, if_true, hagain]
          rfl
        rw [hrun]
        exact iff_of_true h fun hfound => absurd hfound.1 (Option.some_ne_none error)
      | none =>
        cases hgood' : c'.good with
        | nil =>
          have hrun : ((fixFid env row (db.devidsOf row.fid)).exec db).2 = db := by
            simp only [fixFid, hcheck, hnone, List.isEmpty_nil, if_true, hagain, hgood']
            rfl
          rw [hrun]
          exact iff_of_true h fun hfound => absurd rfl hfound.2
        | cons g rest =>
          have hrun : (fixFid env row (db.devidsOf row.fid)).exec db =
              (settleRecords env row none (c'.fsckLog .foundFid none)).exec ((addToDb env.lock row.fid g).exec db).2 := by
            simp only [fixFid, hcheck, hnone, List.isEmpty_nil, if_true, hagain, hgood', DbProg.exec, Prog.exec_bind]
          have hne : c'.good ≠ [] := by
            rw [hgood']
            exact List.cons_ne_nil g rest
          obtain ⟨g', hg', hnew, hnot, hkept⟩ := hsearch hne
          obtain rfl : g = g' := (List.cons.inj (hgood'.symm.trans hg')).1
          rw [hrun, forall_prop_of_true ⟨rfl, List.cons_ne_nil g rest⟩]
          refine counted_settleFound_iff env row h hrow none (fun hmem => hnew ((halready g).mpr hmem)) hnot ?_
          exact fun d hd => hkept d ((hbad d).mpr ⟨hd, hwrong d hd⟩)
    · have hrun : (fixFid env row (db.devidsOf row.fid)).exec db =
          (settleRecords env row (some (db.devidsOf row.fid)) c).exec db := by
        have hne : ¬ c.good.isEmpty = true := by simpa using hnone
        simp only [fixFid, hcheck, hne]
        rfl
      obtain ⟨g, rest, hcons⟩ := List.exists_cons_of_ne_nil hnone
      obtain ⟨hg, hright⟩ := (hgood g).mp (by rw [hcons]; exact List.mem_cons_self)
      rw [hrun, counted_settleKnown_iff env row h hrow _ c hbad]
      refine ⟨fun hall' => ⟨fun _ => hall', fun hwrong => absurd hright (hwrong g hg)⟩, fun hall' => hall'.1 ⟨g, hg, hright⟩⟩

variable (env) in
theorem counted_checkFile_iff (policyOnly : Bool) (fid : ℕ) (h : db.Counted) :
    ((checkFile env policyOnly fid).exec db).2.Counted ↔
      ∀ row, db.file.find? fid = some row → ∀ log, quickCheck env policyOnly row (db.devidsOf fid) = .fix log →
        env.Recounts row (db.devidsOf fid) := by
  simp only [checkFile, DbProg.exec, Prog.exec_bind, Prog.exec_issue, Stmt.run]
  cases hrow : db.file.find? fid with
  | none => exact iff_of_true h fun row hsome => by cases hsome
  | some row =>
    obtain ⟨hmem, rfl⟩ := Table.find?_eq_some.mp hrow
    have hforall : ∀ {P : FileRow → Prop}, (∀ row', some row = some row' → P row') ↔ P row := fun {P} =>
      ⟨fun hall => hall row rfl, fun hp row' heq => Option.some.inj heq ▸ hp⟩
    rw [hforall]
    show ((checkFid env policyOnly row (db.devidsOf row.fid) >>= fun run => pure (some run)).exec db).2.Counted ↔ _
    rw [DbProg.exec, Prog.exec_bind]
    show ((checkFid env policyOnly row (db.devidsOf row.fid)).exec db).2.Counted ↔ _
    unfold checkFid
    cases hverdict : quickCheck env policyOnly row (db.devidsOf row.fid) with
    | fine => exact iff_of_true h fun log hfix => by cases hfix
    | stalled => exact iff_of_true h fun log hfix => by cases hfix
    | died error => exact iff_of_true h fun log hfix => by cases hfix
    | fix log =>
      have hlog : (∀ log', FidVerdict.fix log = .fix log' → env.Recounts row (db.devidsOf row.fid)) ↔
          env.Recounts row (db.devidsOf row.fid) := ⟨fun hall => hall log rfl, fun hr _ _ => hr⟩
      rw [hlog, ← counted_fixFid_iff env row h hmem]
      simp only [DbProg.exec, Prog.exec_bind]
      cases (Prog.exec Stmt.run (fixFid env row (db.devidsOf row.fid)) db).1.result <;> exact Iff.rfl

end Check

/-! ### The other operations -/

section Others

theorem keepsCounts_createOpen (env : CreateOpenEnv) (args : Args) : KeepsCounts (cmdCreateOpen env args) :=
  .of_issues (issues_of_registerStmts env args fun _ _ =>
    ⟨fun _ _ _ _ => trivial, fun _ _ => trivial, fun _ => trivial, fun _ _ => trivial⟩)

theorem keepsCounts_withDomain (env : QueryEnv) (args : Args) {handler : ℕ → DbProg Outcome}
    (h : ∀ dmid, KeepsCounts (handler dmid)) : KeepsCounts (withDomain env args handler) := by
  unfold withDomain
  split
  · exact .ret _
  · exact .ret _
  · exact h _

theorem keepsCounts_withFid (dmid : ℕ) (key : Text) {use : ℕ → DbProg Outcome} (h : ∀ fid, KeepsCounts (use fid)) :
    KeepsCounts (withFid dmid key use) := by
  refine .bind (.stmt fun _ => trivial) fun row => ?_
  split
  · exact .ret _
  · split_ifs
    · exact .ret _
    · exact h _

theorem keepsCounts_delete (env : QueryEnv) (args : Args) : KeepsCounts (cmdDelete env args) := by
  refine keepsCounts_withDomain env args fun dmid => ?_
  split_ifs
  · exact .ret _
  · exact keepsCounts_withFid _ _ fun fid => .bind (keepsCounts_deleteFidid fid) fun _ => .ret _

theorem keepsCounts_rename (env : QueryEnv) (args : Args) : KeepsCounts (cmdRename env args) := by
  refine keepsCounts_withDomain env args fun dmid => ?_
  split_ifs
  · exact .ret _
  · refine keepsCounts_withFid _ _ fun fid => .bind (keepsCounts_renameFile fid _) fun renamed => ?_
    split <;> exact .ret _

open Worker.Replicate

theorem keepsCounts_replicateTodo (env : QueueEnv) (todo : ToReplicateRow) : KeepsCounts (replicateTodo env todo) := by
  unfold replicateTodo
  split_ifs
  · exact .ret _
  · refine .bind (keepsCounts_replicate _ _ _ _ _ _) fun result => ?_
    unfold settle
    split
    · exact .ret _
    · exact .ret _
    · exact .ret _
    · exact .bind (.stmt fun _ => trivial) fun _ => .ret _
    · exact .bind (.stmt fun _ => trivial) fun _ => .ret _
    · exact .bind (.stmt fun _ => trivial) fun _ => .ret _

theorem keepsCounts_replicateTodos (env : QueueEnv) (todos : List ToReplicateRow) :
    KeepsCounts (replicateTodos env todos) := by
  induction todos with
  | nil => exact .ret _
  | cons todo todos ih =>
    refine .bind (keepsCounts_replicateTodo env todo) fun lives => ?_
    split
    · exact .ret _
    · exact ih

theorem keepsCounts_replicateUsingToreplTable (env : QueueEnv) : KeepsCounts (replicateUsingToreplTable env) := by
  refine .bind (.stmt fun _ => trivial) fun toRepl => ?_
  split
  · exact .ret _
  · refine .bind (keepsCounts_replicateTodos env _) fun lives => ?_
    split <;> exact .ret _

theorem keepsCounts_reenqueueDelayedDeletes (now : ℕ) : KeepsCounts (Worker.Delete.reenqueueDelayedDeletes now) := by
  refine .bind (.stmt fun _ => trivial) fun fidids => ?_
  split
  · exact .ret _
  · exact .bind (.stmt fun _ => trivial) fun _ => .stmt fun _ => trivial

end Others

/-! ### Runs -/

/-- The operations of the tracker, with those that `Operation` leaves out. -/
inductive CountedOp where
  | tracker (op : Operation)
  | editFile (env : EditEnv) (args : Args)
  | checkFile (env : FixEnv) (policyOnly : Bool) (fid : ℕ)

namespace CountedOp

def prog : CountedOp → DbProg Unit
  | tracker op => op.prog
  | editFile env args => (cmdEditFile env args).forget
  | checkFile env policyOnly fid => (Ylem.checkFile env policyOnly fid).forget

/-- The database after the operation. -/
def after (db : Db) (op : CountedOp) : Db := (op.prog.exec db).2

/-- What it takes for the counts to be right after the operation if they are right before: the lock of a count that has
to be updated is not refused, and an operation that updates no count takes no device from a file. -/
def Refreshes (db : Db) : CountedOp → Prop
  | tracker (.createClose env args) => ∀ dmid key, CommitsUpload env args db dmid key → env.devcountLock ≠ some false
  | tracker (.reapDevice _ lock devid) => ∀ fid ∈ db.takenFids devid, db.file.Has fid → lock fid ≠ some false
  | tracker (.processDeletes env) => ∀ r ∈ Worker.Delete.forgotten env (env.visited db), ¬ db.file.Has r.1
  | tracker _ => True
  | editFile env args => ∀ r ∈ takenByEdit env args db, r ∉ db.fileOn.rows
  | checkFile env policyOnly fid => ∀ row, db.file.find? fid = some row →
      ∀ log, quickCheck env policyOnly row (db.devidsOf fid) = .fix log → env.Recounts row (db.devidsOf fid)

theorem counted_after_iff {db : Db} (hcounter : db.CounterAbove) (h : db.Counted) (op : CountedOp) :
    (after db op).Counted ↔ op.Refreshes db := by
  have hforget : ∀ {α : Type} (p : DbProg α), (DbProg.exec p.forget db).2 = (p.exec db).2 := fun p =>
    Prog.exec_forget Stmt.run p db
  have hkeeps : ∀ {p : DbProg Unit}, KeepsCounts p → ((p.exec db).2.Counted ↔ True) := fun hp => iff_true_intro (hp db h)
  cases op with
  | editFile env args =>
    rw [after, prog, hforget]
    exact counted_editFile_iff env args h hcounter
  | checkFile env policyOnly fid =>
    rw [after, prog, hforget]
    exact counted_checkFile_iff env policyOnly fid h
  | tracker op =>
    cases op with
    | createOpen env args => exact hkeeps (keepsCounts_createOpen env args).forget
    | delete env args => exact hkeeps (keepsCounts_delete env args).forget
    | rename env args => exact hkeeps (keepsCounts_rename env args).forget
    | replicateUsingToreplTable env => exact hkeeps (keepsCounts_replicateUsingToreplTable env).forget
    | rebalanceDevfid devs classOf out fid devid avoidDevids =>
      exact hkeeps (keepsCounts_rebalanceDevfid devs fid classOf out devid avoidDevids).forget
    | processTempfiles now tooOld => exact hkeeps (keepsCounts_processTempfiles now tooOld).forget
    | reenqueueDelayedDeletes now => exact hkeeps (keepsCounts_reenqueueDelayedDeletes now)
    | createClose env args =>
      rw [after, prog, Operation.prog, hforget]
      exact counted_createClose_iff env args h
    | processDeletes env =>
      rw [after, prog, Operation.prog, hforget]
      exact counted_processDeletes_iff env h
    | reapDevice now lock devid =>
      rw [after, prog, Operation.prog, hforget]
      exact counted_reapDevice_iff devid lock h now

end CountedOp

/-- In a run of operations, one after the other, from an empty database, all counts are right after each of them exactly
if each refreshes, in the database that it finds, the counts that it has to. -/
theorem counted_always_iff (ops : List CountedOp) :
    (∀ done, done <+: ops → (done.foldl CountedOp.after Db.fresh).Counted) ↔
      ∀ done op, done ++ [op] <+: ops → op.Refreshes (done.foldl CountedOp.after Db.fresh) :=
  foldl_forall_iff Db.counterAbove_fresh Db.counted_fresh
    (fun _ op h => Prog.exec_inv Stmt.run (fun s _ hdb => Stmt.counterAbove_run s hdb) op.prog h)
    (fun _ op hcounter h => op.counted_after_iff hcounter h) ops

/-! ### An edit -/

theorem twoHosts_host_isSome : ∀ dev ∈ openEnv.devs.devices, dev.status ≠ .dead → dev.host.isSome = true := by
  decide

theorem openEnv_volumeId_isSome : openEnv.volumeId.isSome = true := rfl

/-- The tracker of `openEnv`, with a memcached that knows nothing. -/
def editEnv : EditEnv where
  toQueryEnv := openEnv.toQueryEnv
  utilization _ := none
  weight _ := some 100
  host_isSome := twoHosts_host_isSome
  volumeId_isSome := openEnv_volumeId_isSome
  memc := some ⟨none, fun _ => none⟩
  draws _ := .least
  classIdOf row := some row.classid
  fuel := 2
  reseeded _ := false

/-- A key is uploaded to `d1` as fid 1 and then edited. -/
def uploadAndEdit : List CountedOp :=
  [.tracker (.createOpen openEnv openArgsOfKey), .tracker (.createClose openEnv.toQueryEnv keyArgs),
    .editFile editEnv openArgsOfKey]

/-- The edit gives the only copy of fid 1 to the new fid, and the count of fid 1 still says that there is one. -/
theorem uploadAndEdit_not_counted :
    (uploadAndEdit.foldl CountedOp.after Db.fresh).fileOn.rows = [(2, 1)] ∧
      ¬ ∀ (ops done : List CountedOp), done <+: ops → (done.foldl CountedOp.after Db.fresh).Counted := by
  have hdb : (uploadAndEdit.foldl CountedOp.after Db.fresh).fileOn.rows = [(2, 1)] ∧
      (uploadAndEdit.foldl CountedOp.after Db.fresh).file.rows.map (fun row => (row.fid, row.devcount)) = [(1, 1)] ∧
      (uploadAndEdit.foldl CountedOp.after Db.fresh).devidsOf 1 = [] := by
    decide +kernel
  obtain ⟨hrows, hfiles, hdevids⟩ := hdb
  refine ⟨hrows, fun h => ?_⟩
  obtain ⟨row, hrow, heq⟩ := List.mem_map.mp (hfiles ▸ List.mem_singleton_self (1, 1))
  obtain ⟨hfid, hcount⟩ := Prod.mk.inj heq
  have hcounts := h uploadAndEdit uploadAndEdit (List.prefix_refl _) 1 row hrow hfid
  rw [hcount, hdevids] at hcounts
  exact absurd hcounts (by decide)

end Ylem
