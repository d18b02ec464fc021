import Ylem.Query.Binding
import Ylem.Tracker.Operations
import Ylem.Worker.FixFid

/-!
# The device counts

Every row of `file` has a count of the rows that `file_on` has for its fid. The database does not keep it: whoever adds
or removes a row of `file_on` has to call `update_devcount` afterwards. `Counted` says that the counts are right. A
replication keeps them so, for it holds the lock of the fid; the close of an upload and the reaper do unless they are
refused the lock of a count that they have to update.
-/

namespace Ylem

/-! ### Counts that are right -/

namespace Db

/-- The row of the fid, if it has one, has the number of its devices. -/
def Counts (db : Db) (fid : ℕ) : Prop := ∀ row ∈ db.file.rows, row.fid = fid → row.devcount = (db.devidsOf fid).length

/-- All counts are right. -/
def Counted (db : Db) : Prop := ∀ fid, db.Counts fid

theorem counted_fresh : fresh.Counted := fun _ _ h _ => absurd h List.not_mem_nil

variable {db db' : Db} {fid : ℕ}

theorem counts_of_not_has (h : ¬ db.file.Has fid) : db.Counts fid := fun _ hrow heq =>
  absurd (heq ▸ Table.has_of_mem hrow) h

theorem counts_congr (hfile : db'.file = db.file) (hon : db'.fileOn = db.fileOn) : db'.Counts fid ↔ db.Counts fid := by
  rw [Counts, Counts, hfile, devidsOf_congr hon]

/-- A file whose row has not changed has as many devices as before. -/
theorem counts_iff_of_file_eq (hfile : db'.file = db.file) (h : db.Counts fid) :
    db'.Counts fid ↔ (db.file.Has fid → (db'.devidsOf fid).length = (db.devidsOf fid).length) := by
  rw [Counts, hfile]
  constructor
  · intro h' hhas
    obtain ⟨row, hrow, heq⟩ := Table.has_iff.mp hhas
    rw [← h row hrow heq, h' row hrow heq]
  · intro hsame row hrow heq
    rw [hsame (heq ▸ Table.has_of_mem hrow)]
    exact h row hrow heq

end Db

namespace Stmt

/-- The statement touches neither the row of the fid nor its devices. -/
def SparesFid (fid : ℕ) : Stmt → Prop
  | insertFileOn rows => ∀ row ∈ rows, row.1 ≠ fid
  | deleteFileOn fid' _ | updateDevcount fid' _ | deleteFile fid' => fid' ≠ fid
  | replaceFile _ | renameFile _ _ => False
  | _ => True

end Stmt

/-- The rows of a fid and its devices are the same. -/
structure SameFid (fid : ℕ) (db db' : Db) : Prop where
  rows : ∀ row, row.fid = fid → (row ∈ db'.file.rows ↔ row ∈ db.file.rows)
  devids : db'.devidsOf fid = db.devidsOf fid

namespace SameFid

variable {db db' db'' : Db} {fid : ℕ}

theorem refl (fid : ℕ) (db : Db) : SameFid fid db db := ⟨fun _ _ => Iff.rfl, rfl⟩

theorem trans (h : SameFid fid db db') (h' : SameFid fid db' db'') : SameFid fid db db'' :=
  ⟨fun row hrow => (h'.rows row hrow).trans (h.rows row hrow), h'.devids.trans h.devids⟩

theorem counts_iff (h : SameFid fid db db') : db'.Counts fid ↔ db.Counts fid := by
  rw [Db.Counts, Db.Counts, h.devids]
  refine forall_congr' fun row => ?_
  constructor
  · intro hrow hmem heq
    exact hrow ((h.rows row heq).mpr hmem) heq
  · intro hrow hmem heq
    exact hrow ((h.rows row heq).mp hmem) heq

theorem has_iff (h : SameFid fid db db') : db'.file.Has fid ↔ db.file.Has fid := by
  rw [Table.has_iff, Table.has_iff]
  exact exists_congr fun row => ⟨fun hr => ⟨(h.rows row hr.2).mp hr.1, hr.2⟩, fun hr => ⟨(h.rows row hr.2).mpr hr.1, hr.2⟩⟩

end SameFid

section Statements

variable {db : Db} {fid : ℕ}

theorem devidsOf_insertFileOn_of_ne {rows : List (ℕ × ℕ)} (h : ∀ row ∈ rows, row.1 ≠ fid) :
    (Stmt.run (.insertFileOn rows) db).2.devidsOf fid = db.devidsOf fid := by
  show ((db.fileOn.insertIgnoreAll rows).rows.filter _).map Prod.snd = (db.fileOn.rows.filter _).map Prod.snd
  generalize db.fileOn = fileOn
  induction rows generalizing fileOn with
  | nil => rfl
  | cons row rows ih =>
    obtain ⟨hrow, hrows⟩ := List.forall_mem_cons.mp h
    rw [Table.insertIgnoreAll_cons, ih hrows]
    by_cases hhas : fileOn.Has (id row)
    · rw [Table.insertIgnore_of_has hhas]
    · rw [Table.rows_insertIgnore_of_not_has hhas, List.filter_append, List.filter_cons_of_neg (by simpa using hrow)]
      simp

theorem devidsOf_deleteFileOn_of_ne {fid' devid : ℕ} (h : fid' ≠ fid) :
    (Stmt.run (.deleteFileOn fid' devid) db).2.devidsOf fid = db.devidsOf fid := by
  show ((db.fileOn.rows.filter _).filter _).map Prod.snd = _
  rw [List.filter_filter, Db.devidsOf]
  refine congrArg _ (List.filter_congr fun row _ => ?_)
  by_cases hfid : row.1 = fid
  · have hne : row ≠ (fid', devid) := fun heq => h ((congrArg Prod.fst heq).symm.trans hfid)
    simp [hfid, hne]
  · simp [hfid]

theorem Stmt.SparesFid.sameFid {s : Stmt} (h : s.SparesFid fid) : SameFid fid db (s.run db).2 := by
  cases s
  case insertFileOn rows => exact ⟨fun _ _ => Iff.rfl, devidsOf_insertFileOn_of_ne h⟩
  case deleteFileOn fid' devid => exact ⟨fun _ _ => Iff.rfl, devidsOf_deleteFileOn_of_ne h⟩
  case updateDevcount fid' ct =>
    refine ⟨fun row hrow => ?_, rfl⟩
    show row ∈ db.file.rows.map (fun r => if r.fid = fid' then { r with devcount := ct } else r) ↔ _
    rw [List.mem_map]
    constructor
    · rintro ⟨r, hr, rfl⟩
      split_ifs at hrow with hfid
      · exact absurd (hfid.symm.trans hrow) h
      · rwa [if_neg hfid]
    · intro hmem
      exact ⟨row, hmem, if_neg fun heq => h (heq.symm.trans hrow)⟩
  case deleteFile fid' =>
    refine ⟨fun row hrow => ?_, rfl⟩
    show row ∈ db.file.rows.filter _ ↔ _
    rw [List.mem_filter]
    refine and_iff_left_of_imp fun _ => ?_
    simpa [hrow] using h.symm
  case insertTempfile fid' dmid key classid devids createtime reseeded =>
    simp only [Stmt.run]
    split_ifs <;> exact ⟨fun _ _ => Iff.rfl, rfl⟩
  case replaceFile row => exact h.elim
  case renameFile fid' key => exact h.elim
  all_goals exact ⟨fun _ _ => Iff.rfl, rfl⟩

theorem sameFid_of_issues {α : Type} {p : DbProg α} (h : p.Issues (Stmt.SparesFid fid)) (db : Db) :
    SameFid fid db (p.exec db).2 := by
  induction p generalizing db with
  | ret a => exact .refl fid db
  | stmt s k ih => exact h.1.sameFid.trans (ih _ (h.2 _) _)

end Statements

/-! ### Programs that keep the counts right -/

/-- Run alone, the program keeps the counts right. -/
def KeepsCounts {α : Type} (p : DbProg α) : Prop := ∀ db : Db, db.Counted → (p.exec db).2.Counted

namespace KeepsCounts

theorem ret {α : Type} (a : α) : KeepsCounts (pure a : DbProg α) := fun _ h => h

theorem bind {α β : Type} {p : DbProg α} {f : α → DbProg β} (hp : KeepsCounts p) (hf : ∀ a, KeepsCounts (f a)) :
    KeepsCounts (p >>= f) := by
  intro db h
  rw [DbProg.exec, Prog.exec_bind]
  exact hf _ _ (hp db h)

theorem forget {α : Type} {p : DbProg α} (hp : KeepsCounts p) : KeepsCounts p.forget := hp.bind fun _ => ret ()

theorem stmt {s : Stmt} (h : ∀ fid, s.SparesFid fid) : KeepsCounts (sql s) := fun _ hdb fid =>
  (h fid).sameFid.counts_iff.mpr (hdb fid)

theorem of_issues {α : Type} {p : DbProg α} (h : p.Issues fun s => ∀ fid, s.SparesFid fid) : KeepsCounts p := by
  intro db hdb
  induction p generalizing db with
  | ret a => exact hdb
  | stmt s k ih => exact ih _ (h.2 _) _ (stmt h.1 db hdb)

end KeepsCounts

section Functions

variable {db : Db} {fid : ℕ}

theorem counts_deleteFile (h : db.Counted) (fid : ℕ) : (Stmt.run (.deleteFile fid) db).2.Counted := by
  intro fid' row hrow
  exact h fid' row (List.mem_of_mem_filter hrow)

theorem keepsCounts_deleteFidid (fid : ℕ) : KeepsCounts (Store.deleteFidid fid) := by
  refine .bind (fun db h => counts_deleteFile h fid) fun _ => ?_
  exact .bind (.stmt fun _ => trivial) fun _ => .stmt fun _ => trivial

theorem keepsCounts_renameFile (fid : ℕ) (key : Text) : KeepsCounts (sql (.renameFile fid key)) := by
  intro db h fid' row hrow heq
  simp only [DbProg.exec, Prog.exec_issue, Stmt.run] at hrow ⊢
  cases hrename : db.file.rename fid key with
  | none =>
    rw [hrename] at hrow
    exact h fid' row hrow heq
  | some file =>
    rw [hrename] at hrow
    unfold FileTable.rename at hrename
    split_ifs at hrename
    obtain rfl := Option.some.inj hrename
    -- the row is an old one, maybe under another key
    obtain ⟨old, hold, rfl⟩ := List.mem_map.mp hrow
    split_ifs at heq ⊢
    · exact h fid' old hold heq
    · exact h fid' old hold heq

theorem counts_updateDevcount (fid : ℕ) (db : Db) : ((Store.updateDevcount fid).exec db).2.Counts fid := by
  intro row hrow heq
  have hrow : row ∈ db.file.rows.map fun r => if r.fid = fid then { r with devcount := (db.devidsOf fid).length } else r :=
    hrow
  obtain ⟨old, -, rfl⟩ := List.mem_map.mp hrow
  split_ifs at heq with hfid
  · rw [if_pos hfid]
    rfl
  · exact absurd heq hfid

theorem issues_updateDevcountAtomic_spares {fid' : ℕ} (h : fid ≠ fid') (lock : Option Bool) :
    (Store.updateDevcountAtomic lock fid).Issues (Stmt.SparesFid fid') := by
  unfold Store.updateDevcountAtomic
  split_ifs
  · exact trivial
  · exact ⟨trivial, fun _ => ⟨h, fun _ => trivial⟩⟩

theorem sameFid_updateDevcountAtomic {fid' : ℕ} (h : fid ≠ fid') (lock : Option Bool) (db : Db) :
    SameFid fid' db ((Store.updateDevcountAtomic lock fid).exec db).2 :=
  sameFid_of_issues (issues_updateDevcountAtomic_spares h lock) db

theorem counts_updateDevcountAtomic {lock : Option Bool} (hlock : lock ≠ some false) (fid : ℕ) (db : Db) :
    ((Store.updateDevcountAtomic lock fid).exec db).2.Counts fid := by
  rw [Store.updateDevcountAtomic, if_neg hlock]
  exact counts_updateDevcount fid db

theorem counted_updateDevcountAtomic {lock : Option Bool} (hlock : lock ≠ some false)
    (h : ∀ fid', fid ≠ fid' → db.Counts fid') : ((Store.updateDevcountAtomic lock fid).exec db).2.Counted := by
  intro fid'
  by_cases hfid : fid = fid'
  · subst hfid
    exact counts_updateDevcountAtomic hlock fid db
  · exact (sameFid_updateDevcountAtomic hfid lock db).counts_iff.mpr (h fid' hfid)

theorem sameFid_addToDb {fid' : ℕ} (h : fid ≠ fid') (lock : Option Bool) (devid : ℕ) (db : Db) :
    SameFid fid' db ((addToDb lock fid devid).exec db).2 := by
  have hadd : (Store.addFididToDevid fid devid).Issues (Stmt.SparesFid fid') :=
    ⟨List.forall_mem_singleton.mpr h, fun _ => trivial⟩
  refine sameFid_of_issues (hadd.bind fun new => ?_) db
  split_ifs
  · exact issues_updateDevcountAtomic_spares h lock
  · exact trivial

theorem keepsCounts_addToDb {lock : Option Bool} (hlock : lock ≠ some false) (fid devid : ℕ) :
    KeepsCounts (addToDb lock fid devid) := by
  intro db h fid'
  by_cases hfid : fid = fid'
  · subst hfid
    simp only [addToDb, Store.addFididToDevid, DbProg.exec, Prog.exec_bind, Prog.exec_issue]
    split_ifs with hnew
    · exact counts_updateDevcountAtomic hlock fid _
    · -- the row was there
      have hhas : db.fileOn.Has (id (fid, devid)) := by
        by_contra hnot
        refine hnew ?_
        simp [Stmt.run, Table.rows_insertIgnore_of_not_has hnot]
      have hon : (Stmt.run (.insertFileOn [(fid, devid)]) db).2.fileOn = db.fileOn := Table.insertIgnore_of_has hhas
      have hsame : (Stmt.run (.insertFileOn [(fid, devid)]) db).2.Counts fid ↔ db.Counts fid := Db.counts_congr rfl hon
      exact hsame.mpr (h fid)
  · exact (sameFid_addToDb hfid lock devid db).counts_iff.mpr (h fid')

theorem keepsCounts_destroy (out : Outcomes) (fid devid : ℕ) : KeepsCounts (destroy out fid devid) := by
  unfold destroy
  split_ifs
  · intro db h
    show ((Store.updateDevcountAtomic none fid).exec (Stmt.run (.deleteFileOn fid devid) db).2).2.Counted
    refine counted_updateDevcountAtomic (by simp) fun fid' hfid => ?_
    have hspares : (Stmt.deleteFileOn fid devid).SparesFid fid' := hfid
    exact hspares.sameFid.counts_iff.mpr (h fid')
  · exact .ret _

end Functions

/-! ### Replication -/

section Replication

variable (devs : DeviceMap) (fid : ℕ)

theorem keepsCounts_copyLoop (opts : ReplOpts) (cls : ReplClass) (onUpDevid : List ℕ) (fuel : ℕ) (rounds : ℕ → Round)
    (st : CopyState) : KeepsCounts (copyLoop devs fid opts cls onUpDevid fuel rounds st) := by
  induction fuel generalizing rounds st with
  | zero => exact .ret _
  | succ fuel ih =>
    rw [copyLoop]
    split
    · exact .ret _
    · exact ih _ _
    · exact .bind (keepsCounts_addToDb (by simp) fid _) fun _ => ih _ _

variable (classOf : FileRow → Option ReplClass) (out : Outcomes)

theorem keepsCounts_replicateOn (opts : ReplOpts) (cls : ReplClass) (onDevs : List Device) :
    KeepsCounts (replicateOn devs out fid opts cls onDevs) := by
  unfold replicateOn
  extract_lets
  split_ifs
  · exact .ret _
  · exact .ret _
  · exact .ret _
  · exact keepsCounts_copyLoop devs fid opts cls _ _ _ _

theorem keepsCounts_replicate (loaded : Option FileRow) (opts : ReplOpts) :
    KeepsCounts (replicate devs classOf out fid loaded opts) := by
  unfold replicate
  split
  · exact .ret _
  · exact .ret _
  extract_lets onRow
  have hrow : ∀ row, KeepsCounts (onRow row) := by
    intro row
    simp only [onRow]
    split
    · exact .ret _
    split
    · exact .ret _
    refine .bind (.stmt fun _ => trivial) fun devids => ?_
    split
    · exact .ret _
    · exact keepsCounts_replicateOn devs fid out opts _ _
  split
  · exact .bind (.ret _) hrow
  · exact .bind (.stmt fun _ => trivial) hrow

theorem keepsCounts_rebalanceDevfid (devid : ℕ) (avoidDevids : List ℕ) :
    KeepsCounts (rebalanceDevfid devs classOf out fid devid avoidDevids) := by
  unfold rebalanceDevfid
  split_ifs
  · exact .ret _
  refine .bind (.stmt fun _ => trivial) fun row => ?_
  split
  · exact .ret _
  refine .bind (keepsCounts_replicate devs fid classOf out _ _) fun result => ?_
  unfold afterReplicate
  split
  · exact .ret _
  · exact .ret _
  · exact .ret _
  · refine .bind (.stmt fun _ => trivial) fun devids => ?_
    split_ifs
    · refine .bind (.stmt fun _ => trivial) fun testDevids => ?_
      split
      · exact .ret _
      · exact keepsCounts_destroy out fid devid
      · exact .ret _
    · exact .ret _
  · exact keepsCounts_destroy out fid devid

end Replication

/-! ### Closing an upload -/

/-- The request names an upload that exists and a key, and the size check of the upload succeeds. -/
structure CommitsUpload (env : QueryEnv) (args : Args) (db : Db) (dmid : ℕ) (key : Text) : Prop where
  domain : checkDomain env args = .ok ([], dmid)
  dmid_ne : dmid ≠ 0
  fid : Text.truthy (args "fid") = true
  devid : Text.truthy (args "devid") = true
  path : Text.truthy (args "path") = true
  url : ∃ dev, devfidUrl env false ((args "devid").getD []) (Text.unsigned (Text.numify ((args "fid").getD [])))
    = .ok (dev, args "path")
  tempfile : ∃ trow ∈ db.tempfile.rows, (trow.fid : ℚ) = Text.numify ((args "fid").getD [])
  named : args "key" = some key
  key_ne : key ≠ []
  old : ∀ row, db.file.findName? (dmid, key) = some row → row.fid ≠ 0
  size : ∃ size, env.fileSize ((args "path").getD []) = .ok size ∧
    verifySize args size ((args "path").getD []) env.lastError = none

section Close

variable (env : QueryEnv) (args : Args) {dmid : ℕ} {key path : Text} (trow : TempfileRow) (dev : Device) {db : Db}

theorem counts_replaceFile {fid : ℕ} (h : db.Counts fid) {row : FileRow} (hne : row.fid ≠ fid) :
    (Stmt.run (.replaceFile row) db).2.Counts fid := by
  intro r hr heq
  rcases List.mem_append.mp hr with hr | hr
  · exact h r (List.mem_of_mem_filter hr) heq
  · rw [List.mem_singleton.mp hr] at heq
    exact absurd heq hne

theorem counted_commitClose_iff (h : db.Counted) :
    ((commitClose env args dmid key path trow dev).exec db).2.Counted ↔
      ((∃ size, env.fileSize path = .ok size ∧ verifySize args size path env.lastError = none) →
        env.devcountLock ≠ some false) := by
  unfold commitClose
  cases hsize : env.fileSize path with
  | error e => exact iff_of_true h fun hok => by simp at hok
  | ok size =>
    dsimp only
    cases hline : verifySize args size path env.lastError with
    | some line => exact iff_of_true h fun hok => by simp [hline] at hok
    | none =>
      have hcommits : ∃ size', (Except.ok size : Except Exn (Option ℕ)) = .ok size' ∧
          verifySize args size' path env.lastError = none := ⟨size, rfl, hline⟩
      rw [forall_prop_of_true hcommits]
      generalize hrow : (⟨trow.fid, dmid, key, size.getD 0, trow.classid, 0, args "mimetype", env.now⟩ : FileRow) = row
      have hfid : row.fid = trow.fid := by rw [← hrow]
      -- the database in front of the update of the count, and the update
      let added := ((addToDb env.addLock trow.fid dev.devid).exec db).2
      let queued := (Stmt.run (.insertFileToReplicate ⟨trow.fid, 0, some dev.devid, 0⟩) (Stmt.run (.replaceFile row) added).2).2
      let closed := (Stmt.run (.deleteTempfiles [trow.fid]) queued).2
      have hupdate : ∀ {p : Bool → DbProg Outcome}, (∀ updated db', ((p updated).exec db').2 = db') →
          ((Store.updateDevcountAtomic env.devcountLock trow.fid >>= p).exec closed).2 =
            ((Store.updateDevcountAtomic env.devcountLock trow.fid).exec closed).2 := fun hp => by
        rw [DbProg.exec, Prog.exec_bind]
        exact hp _ _
      rw [DbProg.exec, Prog.exec_bind]
      show ((Store.updateDevcountAtomic env.devcountLock trow.fid >>= _).exec closed).2.Counted ↔ _
      rw [hupdate fun updated db' => by cases updated <;> rfl]
      constructor
      · intro hcounted hlock
        rw [Store.updateDevcountAtomic, if_pos hlock] at hcounted
        have hmem : row ∈ closed.file.rows := List.mem_append_right _ (List.mem_singleton_self row)
        have hcount : row.devcount = (closed.devidsOf trow.fid).length := hcounted trow.fid row hmem hfid
        have hon : dev.devid ∈ closed.devidsOf trow.fid :=
          (mem_devidsOf_addToDb env.addLock trow.fid dev.devid dev.devid db).mpr (.inr rfl)
        have hzero : row.devcount = 0 := by rw [← hrow]
        rw [hzero, eq_comm, List.length_eq_zero_iff] at hcount
        rw [hcount] at hon
        exact absurd hon List.not_mem_nil
      · intro hlock
        refine counted_updateDevcountAtomic hlock fun fid' hne => ?_
        have hadded : added.Counts fid' := (sameFid_addToDb hne env.addLock dev.devid db).counts_iff.mpr (h fid')
        exact counts_replaceFile hadded (hfid ▸ hne)

theorem counted_closeTempfile_iff (h : db.Counted) :
    ((closeTempfile env args dmid path trow dev).exec db).2.Counted ↔
      ∀ key, args "key" = some key → key ≠ [] → (∀ row, db.file.findName? (dmid, key) = some row → row.fid ≠ 0) →
        (∃ size, env.fileSize path = .ok size ∧ verifySize args size path env.lastError = none) →
          env.devcountLock ≠ some false := by
  have hdeletes : ((do
      let _ ← addToDb env.addLock trow.fid dev.devid
      Store.deleteFidid trow.fid
      pure (Outcome.ok []) : DbProg Outcome).exec db).2.Counted := by
    simp only [DbProg.exec, Prog.exec_bind]
    intro fid'
    by_cases hfid : trow.fid = fid'
    · refine Db.counts_of_not_has fun hhas => ?_
      exact (Table.has_delete_key.mp hhas).1 hfid.symm
    · have hadded := (sameFid_addToDb hfid env.addLock dev.devid db).counts_iff.mpr (h fid')
      have hspares : (Store.deleteFidid trow.fid).Issues (Stmt.SparesFid fid') :=
        ⟨hfid, fun _ => ⟨trivial, fun _ => ⟨trivial, fun _ => trivial⟩⟩⟩
      exact (sameFid_of_issues hspares _).counts_iff.mpr hadded
  unfold closeTempfile
  split
  · rename_i hkey
    exact iff_of_true hdeletes fun key hsome => absurd (hkey.symm.trans hsome) (by simp)
  · rename_i hkey
    refine iff_of_true hdeletes fun key hsome hne => ?_
    exact absurd (Option.some.inj (hkey.symm.trans hsome)).symm hne
  · rename_i key hnil hkey
    have hne : key ≠ [] := hnil
    have hforall : ∀ {P : Text → Prop}, (∀ key', args "key" = some key' → key' ≠ [] → P key') ↔ P key := fun {P} =>
      ⟨fun hall => hall key hkey hne, fun hp key' hkey' _ => Option.some.inj (hkey.symm.trans hkey') ▸ hp⟩
    rw [hforall]
    simp only [DbProg.exec, Prog.exec_bind, Prog.exec_issue, Stmt.run]
    cases hold : db.file.findName? (dmid, key) with
    | none =>
      rw [forall_prop_of_true fun row hrow => absurd hrow (by simp)]
      exact counted_commitClose_iff env args trow dev h
    | some old =>
      dsimp only
      split_ifs with hzero
      · exact iff_of_true h fun hall => absurd hzero (hall old rfl)
      · rw [forall_prop_of_true fun row hrow => Option.some.inj hrow ▸ hzero]
        exact counted_commitClose_iff env args trow dev (keepsCounts_deleteFidid old.fid db h)

variable {env args trow dev}

/-- A request that commits its upload gets to it. -/
theorem CommitsUpload.exec (h : CommitsUpload env args db dmid key) : ∃ trow dev,
    (cmdCreateClose env args).exec db = (closeTempfile env args dmid ((args "path").getD []) trow dev).exec db := by
  obtain ⟨dev, hurl⟩ := h.url
  obtain ⟨trow, htrow⟩ : ∃ trow,
      db.tempfile.rows.find? (fun r => (r.fid : ℚ) = Text.numify ((args "fid").getD [])) = some trow := by
    rw [← Option.isSome_iff_exists, List.find?_isSome]
    obtain ⟨trow, hmem, hfid⟩ := h.tempfile
    exact ⟨trow, hmem, decide_eq_true hfid⟩
  have hpath : some ((args "path").getD []) = args "path" := (truthy_eq_some h.path).symm
  refine ⟨trow, dev, ?_⟩
  rw [cmdCreateClose, withDomain_ok h.domain h.dmid_ne]
  simp only [h.fid, h.devid, h.path, Bool.not_true, Bool.false_eq_true, if_false, hurl, hpath, ne_eq,
    not_true_eq_false, DbProg.exec, Prog.exec_bind, Prog.exec_issue, Stmt.run, htrow]

variable (env args) in
/-- The counts stay right, unless an upload is committed and the lock of its count is refused. -/
theorem counted_createClose_iff (h : db.Counted) :
    ((cmdCreateClose env args).exec db).2.Counted ↔
      ∀ dmid key, CommitsUpload env args db dmid key → env.devcountLock ≠ some false := by
  constructor
  · intro hcounted dmid key hcommits
    obtain ⟨trow, dev, hexec⟩ := hcommits.exec
    rw [hexec, counted_closeTempfile_iff env args trow dev h] at hcounted
    exact hcounted key hcommits.named hcommits.key_ne hcommits.old hcommits.size
  · intro hlock
    have hrefused : ((cmdCreateClose env args).exec db).2 = db → ((cmdCreateClose env args).exec db).2.Counted := fun hdb => by
      rw [hdb]
      exact h
    cases hdomain : checkDomain env args with
    | error e => exact hrefused (by rw [cmdCreateClose, withDomain, hdomain]; rfl)
    | ok answer =>
      obtain ⟨lines, dmid⟩ := answer
      rcases checkDomain_ok hdomain with ⟨rfl, code, hcode, rfl⟩ | ⟨hdmid, rfl⟩
      · exact hrefused (by rw [cmdCreateClose, withDomain, hdomain]; rfl)
      rcases cmdCreateClose_cases env args hdomain hdmid db with
        ⟨hdb, -⟩ | ⟨trow, dev, hfid, hdevid, hpath, hurl, htemp, hexec⟩
      · exact hrefused hdb
      rw [hexec, counted_closeTempfile_iff env args trow dev h]
      intro key hkey hne hold hsize
      have htrow : (trow.fid : ℚ) = Text.numify ((args "fid").getD []) := by simpa using List.find?_some htemp
      exact hlock dmid key ⟨hdomain, hdmid, hfid, hdevid, hpath, ⟨dev, hurl⟩,
        ⟨trow, List.mem_of_find?_eq_some htemp, htrow⟩, hkey, hne, hold, hsize⟩

end Close

/-! ### Reaping -/

section Reap

variable {devid : ℕ} {lock : ℕ → Option Bool} {db : Db}

open Worker.Reaper

theorem issues_reapFid_spares {fid fid' : ℕ} (h : fid ≠ fid') (now : ℕ) (lock : Option Bool) (devid : ℕ) :
    (reapFid now lock fid devid).Issues (Stmt.SparesFid fid') := by
  refine ⟨trivial, fun _ => ⟨h, fun _ => ?_⟩⟩
  exact (issues_updateDevcountAtomic_spares h lock).bind fun _ => trivial

theorem issues_reapFids_spares {fids : List ℕ} {fid' : ℕ} (h : fid' ∉ fids) (now : ℕ) (lock : ℕ → Option Bool) (devid : ℕ) :
    (reapFids now lock devid fids).Issues (Stmt.SparesFid fid') := by
  induction fids with
  | nil => exact trivial
  | cons fid fids ih =>
    rw [List.mem_cons, not_or] at h
    exact (issues_reapFid_spares (Ne.symm h.1) now (lock fid) devid).bind fun _ => ih h.2

theorem counts_reapFid_iff {fid : ℕ} (h : db.Counts fid) (hon : devid ∈ db.devidsOf fid) (now : ℕ) (lock : Option Bool) :
    ((reapFid now lock fid devid).exec db).2.Counts fid ↔ (db.file.Has fid → lock ≠ some false) := by
  simp only [reapFid, DbProg.exec, Prog.exec_bind]
  show ((Store.updateDevcountAtomic lock fid).exec (Stmt.run (.deleteFileOn fid devid)
    (Stmt.run (.insertFileToReplicate ⟨fid, now + deviceSummaryCacheTimeout + 1, none, 0⟩) db).2).2).2.Counts fid ↔ _
  generalize hqueued : (Stmt.run (.insertFileToReplicate ⟨fid, now + deviceSummaryCacheTimeout + 1, none, 0⟩) db).2 = queued
  have hfile : queued.file = db.file := by rw [← hqueued]; rfl
  have hfileOn : queued.fileOn = db.fileOn := by rw [← hqueued]; rfl
  by_cases hlock : lock = some false
  · rw [Store.updateDevcountAtomic, if_pos hlock]
    have hless : ((Stmt.run (.deleteFileOn fid devid) queued).2.devidsOf fid).length < (db.devidsOf fid).length := by
      have hdevids := devidsOf_deleteFileOn fid devid queued
      rw [DbProg.exec, Prog.exec_issue] at hdevids
      rw [hdevids, devidsOf_congr hfileOn]
      refine lt_of_le_of_ne (List.length_filter_le _ _) fun heq => ?_
      have hall := List.length_filter_eq_length_iff.mp heq devid hon
      simp at hall
    have hiff : (Stmt.run (.deleteFileOn fid devid) queued).2.Counts fid ↔ _ := Db.counts_iff_of_file_eq hfile h
    rw [show ((pure false : DbProg Bool).exec (Stmt.run (.deleteFileOn fid devid) queued).2).2 =
      (Stmt.run (.deleteFileOn fid devid) queued).2 from rfl, hiff]
    exact ⟨fun hsame hhas _ => absurd (hsame hhas) hless.ne, fun hnot hhas => absurd hlock (hnot hhas)⟩
  · exact iff_of_true (counts_updateDevcountAtomic hlock fid _) fun _ => hlock

theorem counts_reapFids_iff {fids : List ℕ} (hnodup : fids.Nodup) (now : ℕ) {fid : ℕ} (hfid : fid ∈ fids) (h : db.Counts fid)
    (hon : devid ∈ db.devidsOf fid) :
    ((reapFids now lock devid fids).exec db).2.Counts fid ↔ (db.file.Has fid → lock fid ≠ some false) := by
  induction fids generalizing db with
  | nil => exact absurd hfid List.not_mem_nil
  | cons first fids ih =>
    obtain ⟨hnot, hrest⟩ := List.nodup_cons.mp hnodup
    rw [reapFids, DbProg.exec, Prog.exec_bind]
    rcases List.mem_cons.mp hfid with rfl | hmem
    · have hlater := sameFid_of_issues (issues_reapFids_spares hnot now lock devid) ((reapFid now (lock fid) fid devid).exec db).2
      exact hlater.counts_iff.trans (counts_reapFid_iff h hon now (lock fid))
    · have hne : first ≠ fid := fun heq => hnot (heq ▸ hmem)
      have hearlier := sameFid_of_issues (issues_reapFid_spares hne now (lock first) devid) db
      have hafter := ih hrest hmem (hearlier.counts_iff.mpr h) (by rw [hearlier.devids]; exact hon)
      rw [hearlier.has_iff] at hafter
      exact hafter

/-- The fids that a pass takes from a device. -/
def Db.takenFids (db : Db) (devid : ℕ) : List ℕ := ((db.fileOn.rows.filter fun r => r.2 = devid).take 1000).map Prod.fst

theorem mem_devidsOf_of_takenFids {fid : ℕ} (h : fid ∈ db.takenFids devid) : devid ∈ db.devidsOf fid := by
  obtain ⟨r, hr, rfl⟩ := List.mem_map.mp h
  obtain ⟨hmem, hdev⟩ := List.mem_filter.mp (List.mem_of_mem_take hr)
  have hdev : r.2 = devid := by simpa using hdev
  exact db.mem_devidsOf.mpr (hdev ▸ hmem)

theorem nodup_takenFids (db : Db) (devid : ℕ) : (db.takenFids devid).Nodup := by
  have hrows : db.fileOn.rows.Nodup := List.Nodup.of_map _ db.fileOn.nodup
  refine List.Nodup.map_on (fun r hr r' hr' heq => ?_) ((hrows.filter _).sublist (List.take_sublist _ _))
  have hdev := (List.mem_filter.mp (List.mem_of_mem_take hr)).2
  have hdev' := (List.mem_filter.mp (List.mem_of_mem_take hr')).2
  simp only [decide_eq_true_eq] at hdev hdev'
  exact Prod.ext heq (hdev.trans hdev'.symm)

variable (lock devid) in
/-- The counts stay right, unless the lock of a file that the dead device had is refused. -/
theorem counted_reapDevice_iff (h : db.Counted) (now : ℕ) :
    ((reapDevice now lock devid).exec db).2.Counted ↔ ∀ fid ∈ db.takenFids devid, db.file.Has fid → lock fid ≠ some false := by
  have hexec : ((reapDevice now lock devid).exec db).2 = ((reapFids now lock devid (db.takenFids devid)).exec db).2 := by
    simp only [reapDevice, DbProg.exec, Prog.exec_bind, Prog.exec_issue, Stmt.run]
    show (Prog.exec Stmt.run _ db).2 = _
    generalize hfids : ((db.fileOn.rows.filter fun r => r.2 = devid).take 1000).map Prod.fst = fids
    have htaken : db.takenFids devid = fids := hfids
    rw [htaken]
    cases fids with
    | nil => rfl
    | cons fid fids => exact congrArg Prod.snd (Prog.exec_bind ..)
  rw [hexec]
  constructor
  · intro hcounted fid hfid
    exact (counts_reapFids_iff (nodup_takenFids db devid) now hfid (h fid) (mem_devidsOf_of_takenFids hfid)).mp (hcounted fid)
  · intro hlocks fid
    by_cases hfid : fid ∈ db.takenFids devid
    · exact (counts_reapFids_iff (nodup_takenFids db devid) now hfid (h fid) (mem_devidsOf_of_takenFids hfid)).mpr
        (hlocks fid hfid)
    · exact (sameFid_of_issues (issues_reapFids_spares hfid now lock devid) db).counts_iff.mpr (h fid)

end Reap

end Ylem
