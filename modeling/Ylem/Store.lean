import Ylem.Device
import Ylem.Lib.Prog

/-!
# The tracker's database

The tables of `MogileFS::Store` that file operations use, and the single SQL statements that the
functions of `MogileFS::Store` issue on them. Every table carries its primary key, and `FileTable` also
carries the second unique key `(dmid, dkey)` of table `file`. There are no transactions in the source, so
an operation is a `Prog` over these statements and the unit of interleaving is one statement.

The functions below the statements keep the names of the `MogileFS::Store` functions; those that issue
several statements are the sequences of the source.
-/

namespace Ylem

/-! ### Rows and tables -/

structure FileRow where
  fid : ℕ
  dmid : ℕ
  dkey : Text
  length : ℕ
  classid : ℕ
  devcount : ℕ
  mimetype : Option Text
  createtime : ℕ
  deriving DecidableEq, Repr

/-- The unique key `dkey (dmid, dkey)`. -/
def FileRow.name (r : FileRow) : ℕ × Text := (r.dmid, r.dkey)

structure TempfileRow where
  fid : ℕ
  createtime : ℕ
  classid : ℕ
  dmid : ℕ
  dkey : Text
  devids : Text
  deriving DecidableEq, Repr

structure DeleteLaterRow where
  fid : ℕ
  delafter : ℕ
  deriving DecidableEq, Repr

structure ToReplicateRow where
  fid : ℕ
  nexttry : ℕ
  fromdevid : Option ℕ
  failcount : ℕ
  deriving DecidableEq, Repr

/-- Table `file`, with its two unique keys. -/
structure FileTable extends Table FileRow ℕ FileRow.fid where
  name_nodup : (rows.map FileRow.name).Nodup

namespace FileTable

def empty : FileTable := ⟨Table.empty, List.nodup_nil⟩

def single (row : FileRow) : FileTable := ⟨Table.single row, List.nodup_singleton _⟩

/-- `SELECT … WHERE dmid = ? AND dkey = ?`. -/
def findName? (t : FileTable) (name : ℕ × Text) : Option FileRow :=
  t.rows.find? fun r => r.name = name

def delete (t : FileTable) (p : FileRow → Bool) : FileTable :=
  ⟨t.toTable.delete p, (List.filter_sublist.map FileRow.name).nodup t.name_nodup⟩

/-- `REPLACE INTO file`: the rows that share either unique key go. -/
def replace (t : FileTable) (r : FileRow) : FileTable where
  rows := (t.rows.filter fun r' => !(r'.fid == r.fid || r'.name == r.name)) ++ [r]
  nodup := by
    rw [List.map_append, List.map_singleton, List.nodup_append_comm, List.singleton_append,
      List.nodup_cons]
    refine ⟨fun h => ?_, (List.filter_sublist.map _).nodup t.nodup⟩
    obtain ⟨r', hr', heq⟩ := List.mem_map.mp h
    simp [heq] at hr'
  name_nodup := by
    rw [List.map_append, List.map_singleton, List.nodup_append_comm, List.singleton_append,
      List.nodup_cons]
    refine ⟨fun h => ?_, (List.filter_sublist.map _).nodup t.name_nodup⟩
    obtain ⟨r', hr', heq⟩ := List.mem_map.mp h
    simp [heq] at hr'

/-- `UPDATE file SET devcount = ? WHERE fid = ?`. -/
def setDevcount (t : FileTable) (fid ct : ℕ) : FileTable :=
  ⟨t.toTable.update (fun r => if r.fid = fid then { r with devcount := ct } else r)
      (fun r => by split_ifs <;> rfl), by
    have hname : FileRow.name ∘ (fun r => if r.fid = fid then { r with devcount := ct } else r)
        = FileRow.name := by
      funext r
      simp only [Function.comp]
      split_ifs <;> rfl
    rw [Table.rows_update, List.map_map, hname]
    exact t.name_nodup⟩

/-- Giving the row of a fid another key keeps the names unique if no other row has the new one. -/
theorem name_nodup_rename {rows : List FileRow} {fid : ℕ} {key : Text}
    (hfid : (rows.map FileRow.fid).Nodup) (hname : (rows.map FileRow.name).Nodup)
    (hfree : ∀ r ∈ rows, r.fid = fid → ∀ r' ∈ rows, r'.fid ≠ fid → r'.name ≠ (r.dmid, key)) :
    ((rows.map fun r => if r.fid = fid then { r with dkey := key } else r).map FileRow.name).Nodup := by
  rw [List.map_map]
  have hnodup : rows.Nodup := List.Nodup.of_map _ hfid
  refine List.Nodup.map_on (fun r hr r' hr' heq => ?_) hnodup
  simp only [Function.comp] at heq
  have hinj : r.name = r'.name → r = r' := List.inj_on_of_nodup_map hname hr hr'
  split_ifs at heq with h h' h'
  · exact List.inj_on_of_nodup_map hfid hr hr' (h.trans h'.symm)
  · exact absurd heq.symm (hfree r hr h r' hr' h')
  · exact absurd heq (hfree r' hr' h' r hr h)
  · exact hinj heq

/-- `UPDATE file SET dkey = ? WHERE fid = ?`; `none` is the duplicate key error. -/
def rename (t : FileTable) (fid : ℕ) (key : Text) : Option FileTable :=
  if h : ∀ r ∈ t.rows, r.fid = fid → ∀ r' ∈ t.rows, r'.fid ≠ fid → r'.name ≠ (r.dmid, key) then
    some ⟨t.toTable.update (fun r => if r.fid = fid then { r with dkey := key } else r)
      (fun r => by split_ifs <;> rfl), name_nodup_rename t.nodup t.name_nodup h⟩
  else none

theorem has_replace {t : FileTable} {row : FileRow} {fid : ℕ} :
    (t.replace row).Has fid ↔
      fid = row.fid ∨ ∃ old ∈ t.rows, old.fid = fid ∧ old.fid ≠ row.fid ∧ old.name ≠ row.name := by
  rw [Table.has_iff]
  constructor
  · rintro ⟨r, hr, rfl⟩
    rcases List.mem_append.mp hr with hr | hr
    · obtain ⟨hmem, hkeep⟩ := List.mem_filter.mp hr
      simp only [Bool.not_eq_true', Bool.or_eq_false_iff, beq_eq_false_iff_ne] at hkeep
      exact .inr ⟨r, hmem, rfl, hkeep⟩
    · exact .inl (congrArg FileRow.fid (List.mem_singleton.mp hr))
  · rintro (rfl | ⟨old, hmem, rfl, hfid, hname⟩)
    · exact ⟨row, List.mem_append_right _ (List.mem_singleton_self _), rfl⟩
    · refine ⟨old, List.mem_append_left _ (List.mem_filter.mpr ⟨hmem, ?_⟩), rfl⟩
      simp [hfid, hname]

@[simp] theorem has_setDevcount {t : FileTable} {fid ct x : ℕ} :
    (t.setDevcount fid ct).Has x ↔ t.Has x := by
  simp [setDevcount]

theorem has_rename {t t' : FileTable} {fid x : ℕ} {key : Text} (h : t.rename fid key = some t') :
    t'.Has x ↔ t.Has x := by
  unfold rename at h
  split_ifs at h
  obtain rfl := Option.some.inj h
  simp

end FileTable

/-- The tables of the tracker, and the next `AUTO_INCREMENT` value of table `tempfile`. -/
structure Db where
  file : FileTable
  tempfile : Table TempfileRow ℕ TempfileRow.fid
  fileOn : Table (ℕ × ℕ) (ℕ × ℕ) id
  fileToDelete : Table ℕ ℕ id
  fileToDeleteLater : Table DeleteLaterRow ℕ DeleteLaterRow.fid
  fileToReplicate : Table ToReplicateRow ℕ ToReplicateRow.fid
  nextFid : ℕ

namespace Db

/-- A database after `setup_database`. -/
def fresh : Db := ⟨.empty, .empty, .empty, .empty, .empty, .empty, 1⟩

variable (db : Db)

/-- The devices a fid is recorded on. -/
def devidsOf (fid : ℕ) : List ℕ := (db.fileOn.rows.filter fun r => r.1 = fid).map Prod.snd

/-- The `AUTO_INCREMENT` value an insert starts from. A server that keeps the counter in memory computes
it anew from the table after a restart. -/
def autoFid (reseeded : Bool) : ℕ :=
  if reseeded then ((db.tempfile.rows.map TempfileRow.fid).max?.getD 0) + 1 else db.nextFid

theorem mem_devidsOf {fid devid : ℕ} : devid ∈ db.devidsOf fid ↔ (fid, devid) ∈ db.fileOn.rows := by
  simp [devidsOf]

theorem nodup_devidsOf (fid : ℕ) : (db.devidsOf fid).Nodup := by
  have hrows : db.fileOn.rows.Nodup := List.Nodup.of_map _ db.fileOn.nodup
  refine List.Nodup.map_on (fun x hx y hy heq => ?_) (hrows.filter _)
  have hx1 := (List.mem_filter.mp hx).2
  have hy1 := (List.mem_filter.mp hy).2
  simp only [decide_eq_true_eq] at hx1 hy1
  exact Prod.ext (hx1.trans hy1.symm) heq

end Db

/-! ### Statements -/

/-- One SQL statement of `MogileFS::Store` or of a worker. -/
inductive Stmt where
  | selectFileByName (dmid : ℕ) (key : Text)
  | selectFile (fid : ℕ)
  | selectDevids (fid : ℕ)
  | selectFidsByDevice (devid limit : ℕ)
  | selectTempfile (fid : ℚ)
  | selectOldTempfiles (now secsOld : ℕ)
  | countFileOn (fid : ℕ)
  | countFile (fid : ℕ)
  | selectMaxFid
  | selectFilesToReplicate (now limit : ℕ)
  | selectDeletes (limit : ℕ)
  | selectDeletesAgain (now : ℕ)
  | insertTempfile (fid : Option ℕ) (dmid : ℕ) (key : Text) (classid : ℕ) (devids : Text)
      (createtime : ℕ) (reseeded : Bool)
  | deleteFile (fid : ℕ)
  | deleteTempfiles (fids : List ℕ)
  | insertFileToDelete (fids : List ℕ)
  | deleteFileToDelete (fid : ℕ)
  | insertDeleteLater (fid delafter : ℕ)
  | deleteDeleteLater (fids : List ℕ)
  | replaceFile (row : FileRow)
  | renameFile (fid : ℕ) (key : Text)
  | insertFileOn (rows : List (ℕ × ℕ))
  | deleteFileOn (fid devid : ℕ)
  | updateDevcount (fid ct : ℕ)
  | insertFileToReplicate (row : ToReplicateRow)
  | deleteFileToReplicate (fid : ℕ)
  | rescheduleFileToReplicate (fid nexttry : ℕ)

namespace Stmt

/-- What a statement answers. -/
@[reducible] def Res : Stmt → Type
  | selectFileByName _ _ | selectFile _ => Option FileRow
  | selectDevids _ | selectFidsByDevice _ _ => List ℕ
  | selectTempfile _ => Option TempfileRow
  | selectOldTempfiles _ _ => List (ℕ × Text)
  | countFileOn _ | countFile _ => ℕ
  | selectMaxFid => Option ℕ
  | selectFilesToReplicate _ _ => List ToReplicateRow
  | selectDeletes _ => List (ℕ × Option ℕ)
  | selectDeletesAgain _ => List ℕ
  -- the id of the new row, or nothing for a duplicate key
  | insertTempfile .. => Option ℕ
  -- the number of new rows
  | insertFileOn _ => ℕ
  | renameFile _ _ => Bool
  | _ => Unit

/-- `file_to_delete fd LEFT JOIN file_on fo ON fd.fid = fo.fid`. -/
def leftJoin (db : Db) : List (ℕ × Option ℕ) :=
  db.fileToDelete.rows.flatMap fun fid =>
    match db.devidsOf fid with
    | [] => [(fid, none)]
    | devids => devids.map fun devid => (fid, some devid)

def run : (s : Stmt) → Db → s.Res × Db
  | selectFileByName dmid key, db => (db.file.findName? (dmid, key), db)
  | selectFile fid, db => (db.file.find? fid, db)
  | selectDevids fid, db => (db.devidsOf fid, db)
  | selectFidsByDevice devid limit, db =>
    (((db.fileOn.rows.filter fun r => r.2 = devid).take limit).map Prod.fst, db)
  | selectTempfile fid, db => (db.tempfile.rows.find? fun r => (r.fid : ℚ) = fid, db)
  | selectOldTempfiles now secsOld, db =>
    (((db.tempfile.rows.filter fun r => r.createtime + secsOld < now).take 50).map
      fun r => (r.fid, r.devids), db)
  | countFileOn fid, db => ((db.devidsOf fid).length, db)
  | countFile fid, db => ((db.file.rows.filter fun r => r.fid = fid).length, db)
  | selectMaxFid, db => ((db.file.rows.map FileRow.fid).max?, db)
  | selectFilesToReplicate now limit, db =>
    ((db.fileToReplicate.rows.filter fun r => r.nexttry ≤ now).take limit, db)
  | selectDeletes limit, db => ((leftJoin db).take limit, db)
  | selectDeletesAgain now, db =>
    (((db.fileToDeleteLater.rows.filter fun r => r.delafter < now).take 500).map DeleteLaterRow.fid, db)
  | insertTempfile fid dmid key classid devids createtime reseeded, db =>
    let auto := db.autoFid reseeded
    let id := fid.getD auto
    if db.tempfile.Has id then (none, { db with nextFid := auto })
    else (some id, { db with
      tempfile := db.tempfile.insertIgnore ⟨id, createtime, classid, dmid, key, devids⟩
      nextFid := max auto (id + 1) })
  | deleteFile fid, db => ((), { db with file := db.file.delete fun r => r.fid = fid })
  | deleteTempfiles fids, db =>
    ((), { db with tempfile := db.tempfile.delete fun r => fids.contains r.fid })
  | insertFileToDelete fids, db =>
    ((), { db with fileToDelete := db.fileToDelete.insertIgnoreAll fids })
  | deleteFileToDelete fid, db =>
    ((), { db with fileToDelete := db.fileToDelete.delete fun r => r = fid })
  | insertDeleteLater fid delafter, db =>
    ((), { db with fileToDeleteLater := db.fileToDeleteLater.insertIgnore ⟨fid, delafter⟩ })
  | deleteDeleteLater fids, db =>
    ((), { db with fileToDeleteLater := db.fileToDeleteLater.delete fun r => fids.contains r.fid })
  | replaceFile row, db => ((), { db with file := db.file.replace row })
  | renameFile fid key, db =>
    match db.file.rename fid key with
    | some file => (true, { db with file })
    | none => (false, db)
  | insertFileOn rows, db =>
    let fileOn := db.fileOn.insertIgnoreAll rows
    (fileOn.rows.length - db.fileOn.rows.length, { db with fileOn })
  | deleteFileOn fid devid, db =>
    ((), { db with fileOn := db.fileOn.delete fun r => r = (fid, devid) })
  | updateDevcount fid ct, db => ((), { db with file := db.file.setDevcount fid ct })
  | insertFileToReplicate row, db =>
    ((), { db with fileToReplicate := db.fileToReplicate.insertIgnore row })
  | deleteFileToReplicate fid, db =>
    ((), { db with fileToReplicate := db.fileToReplicate.delete fun r => r.fid = fid })
  | rescheduleFileToReplicate fid nexttry, db =>
    let fileToReplicate := db.fileToReplicate.update
      (fun r => if r.fid = fid then { r with nexttry, failcount := r.failcount + 1 } else r)
      (fun r => by split_ifs <;> rfl)
    ((), { db with fileToReplicate })

end Stmt

/-- A program over the statements. -/
abbrev DbProg (α : Type) := Prog Stmt Stmt.Res α

/-- Issue one statement. -/
abbrev sql (s : Stmt) : DbProg s.Res := Prog.issue s

/-- Run a database program alone. -/
abbrev DbProg.exec {α : Type} (p : DbProg α) (db : Db) : α × Db := Prog.exec Stmt.run p db

/-! ### Functions of the store -/

namespace Store

/-- `true` for a new row, `false` for one that was there. -/
def addFididToDevid (fid devid : ℕ) : DbProg Bool := do
  let rv ← sql (.insertFileOn [(fid, devid)])
  pure (decide (0 < rv))

def updateDevcount (fid : ℕ) : DbProg Unit := do
  let ct ← sql (.countFileOn fid)
  sql (.updateDevcount fid ct)

/-- `lock` is the answer of `get_lock`, or nothing when it died (a lock was held already): the count is
then updated all the same. -/
def updateDevcountAtomic (lock : Option Bool) (fid : ℕ) : DbProg Bool :=
  if lock = some false then pure false
  else do
    updateDevcount fid
    pure true

def deleteFidid (fid : ℕ) : DbProg Unit := do
  sql (.deleteFile fid)
  sql (.deleteTempfiles [fid])
  sql (.insertFileToDelete [fid])

end Store

/-- `MogileFS::DevFID::add_to_db`. -/
def addToDb (lock : Option Bool) (fid devid : ℕ) : DbProg Bool := do
  if ← Store.addFididToDevid fid devid then Store.updateDevcountAtomic lock fid
  -- was already on that device
  else pure true

/-! ### The statements that the functions issue -/

theorem issues_sql {P : Stmt → Prop} {s : Stmt} (h : P s) : (sql s).Issues P := Prog.issues_issue.mpr h

theorem issues_updateDevcountAtomic {P : Stmt → Prop} (hcount : ∀ fid, P (.countFileOn fid))
    (hupdate : ∀ fid ct, P (.updateDevcount fid ct)) (lock : Option Bool) (fid : ℕ) :
    (Store.updateDevcountAtomic lock fid).Issues P := by
  unfold Store.updateDevcountAtomic
  split_ifs
  · exact trivial
  · exact ⟨hcount fid, fun ct => ⟨hupdate fid ct, fun _ => trivial⟩⟩

theorem issues_addToDb {P : Stmt → Prop} (hinsert : ∀ rows, P (.insertFileOn rows))
    (hcount : ∀ fid, P (.countFileOn fid)) (hupdate : ∀ fid ct, P (.updateDevcount fid ct))
    (lock : Option Bool) (fid devid : ℕ) : (addToDb lock fid devid).Issues P := by
  refine Prog.Issues.bind ⟨hinsert _, fun _ => trivial⟩ fun new => ?_
  split_ifs
  · exact issues_updateDevcountAtomic hcount hupdate lock fid
  · exact trivial

/-! ### What the functions do to `file_on` -/

theorem fileOn_addToDb (lock : Option Bool) (fid devid : ℕ) (db : Db) :
    ((addToDb lock fid devid).exec db).2.fileOn = db.fileOn.insertIgnore (fid, devid) := by
  simp only [addToDb, Store.addFididToDevid, DbProg.exec, Prog.exec_bind, Prog.exec_issue]
  split_ifs with hnew
  · unfold Store.updateDevcountAtomic
    split_ifs <;> rfl
  · rfl

theorem devidsOf_congr {db db' : Db} (h : db.fileOn = db'.fileOn) (fid : ℕ) :
    db.devidsOf fid = db'.devidsOf fid := by
  simp only [Db.devidsOf, h]

theorem devidsOf_addToDb (lock : Option Bool) {fid devid : ℕ} {db : Db}
    (hnew : devid ∉ db.devidsOf fid) :
    ((addToDb lock fid devid).exec db).2.devidsOf fid = db.devidsOf fid ++ [devid] := by
  have hnot : ¬ db.fileOn.Has (id (fid, devid)) := fun h =>
    hnew ((db.mem_devidsOf).mpr (by simpa [Table.has_iff] using h))
  simp [Db.devidsOf, fileOn_addToDb, Table.rows_insertIgnore_of_not_has hnot, List.filter_append]

theorem devidsOf_deleteFileOn (fid devid : ℕ) (db : Db) :
    ((sql (.deleteFileOn fid devid)).exec db).2.devidsOf fid =
      (db.devidsOf fid).filter fun d => !(d == devid) := by
  simp only [Db.devidsOf, DbProg.exec, Prog.exec_issue, Stmt.run, Table.rows_delete, List.filter_filter,
    List.filter_map]
  congr 1
  refine List.filter_congr fun r _ => ?_
  by_cases hfid : r.1 = fid
  · simp [hfid, Prod.ext_iff, beq_eq_decide]
  · simp [hfid]

end Ylem
