import Ylem.Worker.Delete

/-!
# Cleaning up uploads that were never closed

A batch of old rows of `tempfile` falls into those whose fid has a file, which just lose their row, and the
abandoned ones, which become deletions with a replica for each device the upload may have reached. What a
pass does with a batch is `processTempfiles_exec`. It gets to its end, and cleans up all of the batch, exactly
if some row is abandoned and no abandoned row lists the devid `0` (`cleansUp_iff`): a batch without
abandoned rows ends with a statement without values.
-/

namespace Ylem

namespace Worker.Delete

/-- The rows of a pass. -/
def oldTempfiles (now tooOld : ℕ) (db : Db) : List (ℕ × Text) :=
  (Stmt.run (.selectOldTempfiles now tooOld) db).1

/-- Those whose fid has no file. -/
def abandoned (db : Db) (rows : List (ℕ × Text)) : List (ℕ × Text) :=
  rows.filter fun row => !decide (db.file.Has row.1)

/-- The devfids of a batch. -/
def devfidsOf (rows : List (ℕ × Text)) : List (ℕ × Text) :=
  rows.flatMap fun row => (splitDevids row.2).map fun devid => (row.1, devid)

/-- The pass removes exactly the rows of the batch, enqueues the abandoned fids, and records a replica of
these on each device in their column. -/
structure CleansUp (rows : List (ℕ × Text)) (db db' : Db) : Prop where
  tempfile : db'.tempfile.rows = db.tempfile.rows.filter fun r => !(rows.map Prod.fst).contains r.fid
  fileToDelete : ∀ fid, db'.fileToDelete.Has fid ↔
    db.fileToDelete.Has fid ∨ (¬ db.file.Has fid ∧ fid ∈ rows.map Prod.fst)
  fileOn : ∀ fid devid, (fid, devid) ∈ db'.fileOn.rows ↔
    (fid, devid) ∈ db.fileOn.rows ∨
      (¬ db.file.Has fid ∧ ∃ devids, (fid, devids) ∈ rows ∧ devid ∈ (splitDevids devids).map devidOf)
  file : db'.file = db.file

/-! ### A batch -/

theorem abandoned_cons_of_has {db : Db} {fidid : ℕ} (devids : Text) (rows : List (ℕ × Text))
    (h : db.file.Has fidid) : abandoned db ((fidid, devids) :: rows) = abandoned db rows := by
  unfold abandoned
  rw [List.filter_cons_of_neg (by simpa using h)]

theorem abandoned_cons_of_not_has {db : Db} {fidid : ℕ} (devids : Text) (rows : List (ℕ × Text))
    (h : ¬ db.file.Has fidid) :
    abandoned db ((fidid, devids) :: rows) = (fidid, devids) :: abandoned db rows := by
  unfold abandoned
  rw [List.filter_cons_of_pos (by simpa using h)]

/-- The rows of the batch that have a file are gone after the reading. -/
def dropLive (rows : List (ℕ × Text)) (db : Db) : Db :=
  { db with tempfile := db.tempfile.delete fun r =>
      (rows.map Prod.fst).contains r.fid && decide (db.file.Has r.fid) }

theorem dropLive_cons_of_has {db : Db} {fidid : ℕ} (devids : Text) (rows : List (ℕ × Text))
    (h : db.file.Has fidid) :
    dropLive rows { db with tempfile := db.tempfile.delete fun r => [fidid].contains r.fid } =
      dropLive ((fidid, devids) :: rows) db := by
  simp only [dropLive, Db.mk.injEq, true_and, and_true]
  apply Table.ext
  simp only [Table.rows_delete, List.filter_filter]
  refine List.filter_congr fun r _ => ?_
  by_cases hr : r.fid = fidid
  · simp [hr, h]
  · simp only [List.contains_eq_mem, List.mem_cons, List.not_mem_nil, hr, decide_false, Bool.not_false,
      Bool.and_true, List.map_cons, or_false, false_or]

theorem dropLive_cons_of_not_has {db : Db} {fidid : ℕ} (devids : Text) (rows : List (ℕ × Text))
    (h : ¬ db.file.Has fidid) : dropLive rows db = dropLive ((fidid, devids) :: rows) db := by
  simp only [dropLive, Db.mk.injEq, true_and, and_true]
  apply Table.ext
  simp only [Table.rows_delete]
  refine List.filter_congr fun r _ => ?_
  by_cases hr : r.fid = fidid
  · simp [hr, h]
  · simp [beq_eq_false_iff_ne.mpr hr, hr]

theorem collectTempfiles_exec (rows : List (ℕ × Text)) (db : Db) (devfids : List (ℕ × Text))
    (fidids : List ℕ) (hfid : ∀ row ∈ rows, row.1 ≠ 0) :
    (collectTempfiles rows devfids fidids).exec db =
      (some (devfids ++ devfidsOf (abandoned db rows), fidids ++ (abandoned db rows).map Prod.fst),
        dropLive rows db) := by
  induction rows generalizing db devfids fidids with
  | nil =>
    have hkeep : dropLive [] db = db := by
      simp [dropLive, Table.delete]
    simp [collectTempfiles, abandoned, devfidsOf, hkeep, DbProg.exec]
  | cons row rows ih =>
    obtain ⟨fidid, devids⟩ := row
    have hne : fidid ≠ 0 := hfid _ List.mem_cons_self
    have hrest : ∀ row ∈ rows, row.1 ≠ 0 := fun row hrow => hfid row (List.mem_cons_of_mem _ hrow)
    rw [collectTempfiles, if_neg hne]
    simp only [DbProg.exec] at ih
    simp only [DbProg.exec, Prog.exec_bind, Prog.exec_issue, Stmt.run]
    cases hfile : db.file.find? fidid with
    | some file =>
      have hhas : db.file.Has fidid := Table.isSome_find?.mp (by rw [hfile]; rfl)
      rw [abandoned_cons_of_has devids rows hhas, ← dropLive_cons_of_has devids rows hhas]
      simp only [Prog.exec_bind, Prog.exec_issue, Stmt.run, ih _ devfids fidids hrest]
      rfl
    | none =>
      have hnot : ¬ db.file.Has fidid := Table.find?_eq_none.mp hfile
      rw [abandoned_cons_of_not_has devids rows hnot, ← dropLive_cons_of_not_has devids rows hnot]
      simp only [ih _ _ _ hrest, devfidsOf, List.flatMap_cons, List.map_cons, List.append_assoc,
        List.singleton_append]

theorem collectTempfiles_zero {rows : List (ℕ × Text)} (h : ∃ row ∈ rows, row.1 = 0) (db : Db)
    (devfids : List (ℕ × Text)) (fidids : List ℕ) :
    ((collectTempfiles rows devfids fidids).exec db).1 = none := by
  induction rows generalizing db devfids fidids with
  | nil =>
    obtain ⟨row, hrow, -⟩ := h
    exact absurd hrow List.not_mem_nil
  | cons row rows ih =>
    obtain ⟨fidid, devids⟩ := row
    rw [collectTempfiles]
    by_cases hzero : fidid = 0
    · rw [if_pos hzero]
      rfl
    · rw [if_neg hzero]
      have hrest : ∃ row ∈ rows, row.1 = 0 := by
        obtain ⟨row, hrow, hfid⟩ := h
        rcases List.mem_cons.mp hrow with rfl | hrow
        · exact absurd hfid hzero
        · exact ⟨row, hrow, hfid⟩
      simp only [DbProg.exec, Prog.exec_bind, Prog.exec_issue, Stmt.run]
      cases db.file.find? fidid with
      | some file => exact ih hrest _ _ _
      | none => exact ih hrest _ _ _

theorem massInsertFileOn_exec (devfids : List (ℕ × Text)) (db : Db) :
    (massInsertFileOn devfids).exec db =
      if devfids.any fun devfid => devfid.2 = ['0'] then (none, db)
      else (some (), { db with
        fileOn := db.fileOn.insertIgnoreAll (devfids.map fun devfid => (devfid.1, devidOf devfid.2)) }) := by
  unfold massInsertFileOn
  by_cases hempty : devfids.isEmpty
  · obtain rfl := List.isEmpty_iff.mp hempty
    rfl
  · rw [if_neg hempty]
    split_ifs
    · rfl
    · rfl

/-! ### A pass -/

/-- The database after a pass that has got to its end. -/
def cleanedUp (rows : List (ℕ × Text)) (db : Db) : Db :=
  { dropLive rows db with
    tempfile := (dropLive rows db).tempfile.delete fun r => ((abandoned db rows).map Prod.fst).contains r.fid
    fileToDelete := db.fileToDelete.insertIgnoreAll ((abandoned db rows).map Prod.fst)
    fileOn := db.fileOn.insertIgnoreAll
      ((devfidsOf (abandoned db rows)).map fun devfid => (devfid.1, devidOf devfid.2)) }

/-- What a pass does with a batch whose fids are not zero. -/
theorem processTempfiles_exec {now tooOld : ℕ} {db : Db} {rows : List (ℕ × Text)}
    (hrows : oldTempfiles now tooOld db = rows) (hne : rows ≠ []) (hfid : ∀ row ∈ rows, row.1 ≠ 0) :
    (processTempfiles now tooOld).exec db =
      if (devfidsOf (abandoned db rows)).any fun devfid => devfid.2 = ['0'] then
        (.died "got a false devid", dropLive rows db)
      else if abandoned db rows = [] then (.died "file_to_delete insert failed", dropLive rows db)
      else (.done true, cleanedUp rows db) := by
  have hread : Stmt.run (.selectOldTempfiles now tooOld) db = (rows, db) :=
    Prod.ext hrows rfl
  have hcollect := collectTempfiles_exec rows db [] [] hfid
  have hinsert := massInsertFileOn_exec (devfidsOf (abandoned db rows)) (dropLive rows db)
  simp only [DbProg.exec, List.nil_append] at hcollect hinsert
  cases rows with
  | nil => exact absurd rfl hne
  | cons row rest =>
    simp only [processTempfiles, enqueueCollected, DbProg.exec, Prog.exec_bind, Prog.exec_issue, hread, hcollect,
      hinsert]
    by_cases hfalse : (devfidsOf (abandoned db (row :: rest))).any fun devfid => devfid.2 = ['0']
    · rw [if_pos hfalse, if_pos hfalse]
      rfl
    · rw [if_neg hfalse, if_neg hfalse]
      by_cases hnone : abandoned db (row :: rest) = []
      · rw [if_pos hnone, hnone]
        rfl
      · have hsome : ¬ ((abandoned db (row :: rest)).map Prod.fst).isEmpty = true := by
          simpa using hnone
        rw [if_neg hnone]
        dsimp only
        rw [if_neg hsome]
        rfl

theorem processTempfiles_zero {now tooOld : ℕ} {db : Db} {rows : List (ℕ × Text)}
    (hrows : oldTempfiles now tooOld db = rows) (h : ∃ row ∈ rows, row.1 = 0) :
    ((processTempfiles now tooOld).exec db).1 = .died "Invalid fidid" := by
  have hread : Stmt.run (.selectOldTempfiles now tooOld) db = (rows, db) := Prod.ext hrows rfl
  have hcollect := collectTempfiles_zero h db [] []
  cases rows with
  | nil =>
    obtain ⟨row, hrow, -⟩ := h
    exact absurd hrow List.not_mem_nil
  | cons row rest =>
    simp only [DbProg.exec] at hcollect
    simp only [processTempfiles, DbProg.exec, Prog.exec_bind, Prog.exec_issue, hread]
    rw [hcollect]
    rfl

theorem mem_abandoned {db : Db} {rows : List (ℕ × Text)} {row : ℕ × Text} :
    row ∈ abandoned db rows ↔ row ∈ rows ∧ ¬ db.file.Has row.1 := by
  simp [abandoned]

theorem cleansUp_cleanedUp (rows : List (ℕ × Text)) (db : Db) : CleansUp rows db (cleanedUp rows db) where
  tempfile := by
    simp only [cleanedUp, dropLive, Table.rows_delete, List.filter_filter]
    refine List.filter_congr fun r _ => ?_
    have hmem : ((abandoned db rows).map Prod.fst).contains r.fid =
        ((rows.map Prod.fst).contains r.fid && !decide (db.file.Has r.fid)) := by
      rw [Bool.eq_iff_iff]
      simp [abandoned]
    rw [hmem]
    cases (rows.map Prod.fst).contains r.fid
    · rfl
    · cases decide (db.file.Has r.fid) <;> rfl
  fileToDelete fid := by
    simp only [cleanedUp, Table.has_insertIgnoreAll, List.map_map, List.mem_map, mem_abandoned]
    refine or_congr_right ⟨?_, ?_⟩
    · rintro ⟨row, ⟨hrow, hnot⟩, rfl⟩
      exact ⟨hnot, row, hrow, rfl⟩
    · rintro ⟨hnot, row, hrow, rfl⟩
      exact ⟨row, ⟨hrow, hnot⟩, rfl⟩
  fileOn fid devid := by
    have hhas : (cleanedUp rows db).fileOn.Has (fid, devid) ↔ db.fileOn.Has (fid, devid) ∨
        (fid, devid) ∈ ((devfidsOf (abandoned db rows)).map fun devfid =>
          (devfid.1, devidOf devfid.2)).map id := Table.has_insertIgnoreAll
    simp only [Table.Has, List.map_id] at hhas
    rw [hhas]
    refine or_congr_right ⟨fun h => ?_, ?_⟩
    · obtain ⟨devfid, hdevfid, heq⟩ := List.mem_map.mp h
      obtain ⟨row, hrow, hsplit⟩ := List.mem_flatMap.mp hdevfid
      obtain ⟨part, hpart, rfl⟩ := List.mem_map.mp hsplit
      obtain ⟨rfl, rfl⟩ := Prod.mk.inj heq
      obtain ⟨hmem, hnot⟩ := mem_abandoned.mp hrow
      exact ⟨hnot, row.2, hmem, List.mem_map_of_mem hpart⟩
    · rintro ⟨hnot, devids, hrow, hdevid⟩
      obtain ⟨part, hpart, rfl⟩ := List.mem_map.mp hdevid
      refine List.mem_map.mpr ⟨(fid, part), List.mem_flatMap.mpr ⟨(fid, devids), ?_, ?_⟩, rfl⟩
      · exact mem_abandoned.mpr ⟨hrow, hnot⟩
      · exact List.mem_map_of_mem hpart
  file := rfl

/-! ### When a batch is cleaned up -/

/-- A pass with rows to clean up gets to its end and cleans up all of them, exactly if no fid is zero, some
fid has no file, and no column of such a fid lists the devid `0`. -/
theorem cleansUp_iff (now tooOld : ℕ) (db : Db) (hrows : oldTempfiles now tooOld db ≠ []) :
    (((processTempfiles now tooOld).exec db).1 = .done true ∧
        CleansUp (oldTempfiles now tooOld db) db ((processTempfiles now tooOld).exec db).2) ↔
      (∀ row ∈ oldTempfiles now tooOld db, row.1 ≠ 0) ∧
        (∃ row ∈ oldTempfiles now tooOld db, ¬ db.file.Has row.1) ∧
        ∀ row ∈ oldTempfiles now tooOld db, ¬ db.file.Has row.1 → ['0'] ∉ splitDevids row.2 := by
  set rows := oldTempfiles now tooOld db with hread
  by_cases hfid : ∀ row ∈ rows, row.1 ≠ 0
  · have hexec := processTempfiles_exec hread.symm hrows hfid
    have hfalse : ((devfidsOf (abandoned db rows)).any fun devfid => devfid.2 = ['0']) = true ↔
        ¬ ∀ row ∈ rows, ¬ db.file.Has row.1 → ['0'] ∉ splitDevids row.2 := by
      rw [List.any_eq_true]
      push Not
      constructor
      · rintro ⟨devfid, hdevfid, hzero⟩
        obtain ⟨row, hrow, hsplit⟩ := List.mem_flatMap.mp hdevfid
        obtain ⟨part, hpart, rfl⟩ := List.mem_map.mp hsplit
        obtain ⟨hmem, hnot⟩ := mem_abandoned.mp hrow
        rw [decide_eq_true_eq] at hzero
        exact ⟨row, hmem, hnot, hzero ▸ hpart⟩
      · rintro ⟨row, hrow, hnot, hzero⟩
        refine ⟨(row.1, ['0']), List.mem_flatMap.mpr ⟨row, mem_abandoned.mpr ⟨hrow, hnot⟩, ?_⟩, by simp⟩
        exact List.mem_map_of_mem hzero
    have hnone : abandoned db rows = [] ↔ ¬ ∃ row ∈ rows, ¬ db.file.Has row.1 := by
      rw [List.eq_nil_iff_forall_not_mem]
      simp [mem_abandoned]
    rw [hexec]
    split_ifs with hcroaks hempty
    · refine iff_of_false (fun h => ?_) fun h => hfalse.mp hcroaks h.2.2
      cases h.1
    · refine iff_of_false (fun h => ?_) fun h => hnone.mp hempty h.2.1
      cases h.1
    · refine iff_of_true ⟨rfl, cleansUp_cleanedUp rows db⟩ ⟨hfid, ?_, ?_⟩
      · exact not_not.mp fun h => hempty (hnone.mpr h)
      · exact not_not.mp fun h => hcroaks (hfalse.mpr h)
  · refine iff_of_false (fun h => ?_) fun h => hfid h.1
    have hzero : ∃ row ∈ rows, row.1 = 0 := by
      by_contra hnone
      exact hfid fun row hrow h0 => hnone ⟨row, hrow, h0⟩
    rw [processTempfiles_zero hread.symm hzero] at h
    cases h.1

/-! ### A batch without abandoned uploads -/

/-- Fid 1 was being uploaded to `d1` and `d2` and is not a file. -/
def abandonedUpload : Db :=
  { Db.fresh with tempfile := ⟨[⟨1, 0, 0, 1, "key".toList, "1,2".toList⟩], by decide⟩ }

theorem abandonedUpload_cleansUp :
    ((processTempfiles 4000 3600).exec abandonedUpload).1 = .done true ∧
      CleansUp (oldTempfiles 4000 3600 abandonedUpload) abandonedUpload
        ((processTempfiles 4000 3600).exec abandonedUpload).2 :=
  (cleansUp_iff 4000 3600 abandonedUpload (by decide)).mpr (by decide +kernel)

/-- Fid 1 is a file, and its row of `tempfile` is still there. -/
def committedUpload : Db :=
  { abandonedUpload with file := .single ⟨1, 1, "key".toList, 5, 0, 1, none, 0⟩ }

/-- The pass dies of the statement without values. -/
theorem committedUpload_dies :
    oldTempfiles 4000 3600 committedUpload ≠ [] ∧
      ((processTempfiles 4000 3600).exec committedUpload).1 = .died "file_to_delete insert failed" ∧
      ¬ (((processTempfiles 4000 3600).exec committedUpload).1 = .done true ∧
        CleansUp (oldTempfiles 4000 3600 committedUpload) committedUpload
          ((processTempfiles 4000 3600).exec committedUpload).2) := by
  have hdied : ((processTempfiles 4000 3600).exec committedUpload).1 =
      .died "file_to_delete insert failed" := by
    decide +kernel
  refine ⟨by decide, hdied, fun h => ?_⟩
  rw [hdied] at h
  cases h.1

end Worker.Delete

end Ylem
