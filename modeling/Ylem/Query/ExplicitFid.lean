import Ylem.Query.CreateClose
import Ylem.Store.RegisterTempfile

/-!
# Uploads under a fid of the client's choosing

A client may name the fid of a new upload. `register_tempfile` inserts the row first and looks for the fid
in table `file` afterwards, and where it finds it there it throws `dup` without taking its row back
(`exec_registerTempfile_explicit`). `cmd_create_close` asks for no more than such a row, and replaces the
file of the fid. So a refused fid leaves no trace only if the insert itself was refused
(`dup_leaves_no_trace_iff`).
-/

namespace Ylem

namespace Store

variable (new : NewTempfile) {db : Db} {fid : ℤ}

/-- The fid of the row that the insert makes for an explicit fid: a negative one is out of the column's
range, and the database chooses. -/
def insertedFid (db : Db) (fid : ℤ) (reseeded : Bool) : ℕ :=
  if 0 < fid then fid.toNat else db.autoFid reseeded

/-- The database after that insert. -/
def inserted (db : Db) (fid : ℤ) (reseeded : Bool) : Db :=
  { db with
    tempfile := db.tempfile.insertIgnore (new.row (insertedFid db fid reseeded))
    nextFid := max (db.autoFid reseeded) (insertedFid db fid reseeded + 1) }

theorem getD_insertedFid (db : Db) (fid : ℤ) (reseeded : Bool) :
    (((some fid).filter fun fid => decide (0 < fid)).map Int.toNat).getD (db.autoFid reseeded) =
      insertedFid db fid reseeded := by
  unfold insertedFid
  by_cases hpos : 0 < fid
  · simp [Option.filter_some, hpos]
  · simp [Option.filter_some, hpos]

theorem exec_insTempfile_dup (reseeded : Bool) (h : db.tempfile.Has (insertedFid db fid reseeded)) :
    (insTempfile new (some fid) reseeded).exec db = (.ok none, { db with nextFid := db.autoFid reseeded }) := by
  simp only [insTempfile, DbProg.exec, Prog.exec_bind, Prog.exec_issue, Stmt.run, getD_insertedFid, if_pos h]
  rfl

theorem exec_insTempfile_new (reseeded : Bool) (h : ¬ db.tempfile.Has (insertedFid db fid reseeded)) :
    (insTempfile new (some fid) reseeded).exec db =
      (.ok (if 0 < fid then some fid.toNat else none), inserted new db fid reseeded) := by
  simp only [insTempfile, DbProg.exec, Prog.exec_bind, Prog.exec_issue, Stmt.run, getD_insertedFid, if_neg h]
  rfl

/-- A call with an explicit fid. It is refused before the insert, or after it. -/
theorem exec_registerTempfile_explicit (hfid : fid ≠ 0) (fuel : ℕ) (reseeded : ℕ → Bool) :
    (registerTempfile new (some fid) (fuel + 1) reseeded).exec db =
      if db.tempfile.Has (insertedFid db fid (reseeded 0)) then
        (.died .dup, { db with nextFid := db.autoFid (reseeded 0) })
      else if 0 < fid ∧ ¬ db.file.Has fid.toNat then
        (.ok fid.toNat, inserted new db fid (reseeded 0))
      else (.died .dup, inserted new db fid (reseeded 0)) := by
  have hexplicit : (some fid).any (fun fid => fid != 0) = true := by simpa using hfid
  split_ifs with hhas hfree
  · have hinsert := exec_insTempfile_dup new (reseeded 0) hhas
    simp only [DbProg.exec] at hinsert
    simp only [registerTempfile, DbProg.exec, Prog.exec_bind, hinsert, hexplicit]
    rfl
  · have hinsert := exec_insTempfile_new new (reseeded 0) hhas
    rw [if_pos hfree.1] at hinsert
    have hloop := reseedLoop_free new true fuel (fun n => reseeded (n + 1))
      (show ¬ (inserted new db fid (reseeded 0)).file.Has fid.toNat from hfree.2)
    simp only [DbProg.exec] at hinsert hloop
    simp only [registerTempfile, DbProg.exec, Prog.exec_bind, hinsert, hexplicit, hloop]
  · have hinsert := exec_insTempfile_new new (reseeded 0) hhas
    by_cases hpos : 0 < fid
    · have hused : (inserted new db fid (reseeded 0)).file.Has fid.toNat := by
        by_contra hnot
        exact hfree ⟨hpos, hnot⟩
      have huse := exec_fidInUse fid.toNat (inserted new db fid (reseeded 0))
      rw [decide_eq_true hused] at huse
      rw [if_pos hpos] at hinsert
      simp only [DbProg.exec] at hinsert huse
      simp only [registerTempfile, DbProg.exec, Prog.exec_bind, hinsert, hexplicit, reseedLoop, huse,
        if_true]
      rfl
    · rw [if_neg hpos] at hinsert
      simp only [DbProg.exec] at hinsert
      simp only [registerTempfile, DbProg.exec, Prog.exec_bind, hinsert, hexplicit, if_true]
      rfl

theorem tempfile_inserted_ne (reseeded : Bool) (h : ¬ db.tempfile.Has (insertedFid db fid reseeded)) :
    (inserted new db fid reseeded).tempfile ≠ db.tempfile := by
  intro heq
  have hrows := congrArg (fun t => t.rows.length) heq
  simp only [inserted] at hrows
  rw [Table.rows_insertIgnore_of_not_has h, List.length_append, List.length_singleton] at hrows
  omega

theorem has_inserted (hpos : 0 < fid) (reseeded : Bool) :
    (inserted new db fid reseeded).tempfile.Has fid.toNat := by
  refine Table.has_insertIgnore.mpr (.inr ?_)
  show fid.toNat = insertedFid db fid reseeded
  rw [insertedFid, if_pos hpos]

/-- A `dup` for an explicit fid leaves table `tempfile` as it was exactly if the row that was to be inserted
was there already, or the fid is positive and no file has it (and there is no `dup`). The fid of a file is
always refused, and has a row in `tempfile` after that. -/
theorem dup_leaves_no_trace_iff (new : NewTempfile) (db : Db) {fid : ℤ} (hfid : fid ≠ 0) (fuel : ℕ)
    (reseeded : ℕ → Bool) :
    ((((registerTempfile new (some fid) (fuel + 1) reseeded).exec db).1 = .died .dup →
        ((registerTempfile new (some fid) (fuel + 1) reseeded).exec db).2.tempfile = db.tempfile) ↔
      db.tempfile.Has (insertedFid db fid (reseeded 0)) ∨ (0 < fid ∧ ¬ db.file.Has fid.toNat)) ∧
    (0 < fid → db.file.Has fid.toNat →
      ((registerTempfile new (some fid) (fuel + 1) reseeded).exec db).1 = .died .dup ∧
        ((registerTempfile new (some fid) (fuel + 1) reseeded).exec db).2.tempfile.Has fid.toNat) := by
  rw [exec_registerTempfile_explicit new hfid]
  split_ifs with hhas hfree
  · refine ⟨⟨fun _ => .inl hhas, fun _ _ => rfl⟩, fun hpos _ => ⟨rfl, ?_⟩⟩
    rw [insertedFid, if_pos hpos] at hhas
    exact hhas
  · exact ⟨⟨fun _ => .inr hfree, fun _ hdup => by cases hdup⟩, fun _ hused => absurd hused hfree.2⟩
  · refine ⟨⟨fun h => absurd (h rfl) (tempfile_inserted_ne new _ hhas), fun h _ => ?_⟩,
      fun hpos _ => ⟨rfl, has_inserted new hpos _⟩⟩
    exact absurd h (not_or.mpr ⟨hhas, hfree⟩)

/-- The database once an upload to the key `key` has got fid 2. -/
def openFid2 : Db :=
  ((registerTempfile ⟨1, "key".toList, 0, "1".toList, 0⟩ (some 2) 1 fun _ => false).exec Db.fresh).2

/-- Another upload that asks for fid 2 is refused, and leaves no row. -/
theorem openFid2_leaves_no_trace :
    let run := (registerTempfile ⟨1, "other".toList, 0, "1".toList, 0⟩ (some 2) 1 fun _ => false).exec openFid2
    run.1 = .died .dup ∧ run.2.tempfile = openFid2.tempfile := by
  have hdup : ((registerTempfile ⟨1, "other".toList, 0, "1".toList, 0⟩ (some 2) 1 fun _ => false).exec openFid2).1 =
      .died .dup := by
    decide +kernel
  exact ⟨hdup, (dup_leaves_no_trace_iff ⟨1, "other".toList, 0, "1".toList, 0⟩ openFid2 (show (2 : ℤ) ≠ 0 by decide) 0
    fun _ => false).1.mpr (.inl (by decide +kernel)) hdup⟩

end Store

/-! ### A live file is overwritten -/

/-- Fid 2 is the file of a key. -/
def liveFid2 : Db :=
  { Db.fresh with
    file := ⟨⟨[⟨2, 1, "live".toList, 5, 0, 1, none, 0⟩], by decide⟩, by decide⟩
    fileOn := ⟨[(2, 1)], by decide⟩ }

/-- A tracker with the devices of `twoHosts`; the file that was uploaded has 9 bytes. -/
def nineBytes : QueryEnv := { emptyUpload with fileSize := fun _ => .ok (some 9) }

/-- The database after an upload to the key `key` has asked for fid 2. -/
def refusedFid2 : Registered × Db :=
  (Store.registerTempfile ⟨1, "key".toList, 0, "1".toList, 0⟩ (some 2) 1 fun _ => false).exec liveFid2

/-- The upload is refused, but its row stays, and the close of the upload replaces the file that had the
fid. -/
theorem liveFid2_overwritten :
    ¬ (refusedFid2.1 = .died .dup → refusedFid2.2.tempfile = liveFid2.tempfile) ∧
      (liveFid2.file.find? 2).map FileRow.dkey = some "live".toList ∧
      ((cmdCreateClose nineBytes closeFid2).exec refusedFid2.2).1.lines = [.ok []] ∧
      (((cmdCreateClose nineBytes closeFid2).exec refusedFid2.2).2.file.find? 2).map FileRow.dkey =
        some "key".toList := by
  refine ⟨fun hkeeps => ?_, by decide +kernel, by decide +kernel, by decide +kernel⟩
  have hrows := congrArg Table.rows (hkeeps (by decide +kernel))
  exact absurd hrows (by decide +kernel)

end Ylem
