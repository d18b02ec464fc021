import Ylem.Tracker.Operations
import Ylem.Lib.Windows

/-!
# Is a live file ever scheduled for deletion?

`process_tempfiles` looks for a file of an old upload, and enqueues the fid for deletion in a later statement;
`create_close` reads the upload, and commits the file in a later statement, and before that it may delete the
file that the key had. So each of the two has windows: of a fid that it has seen without a file and is going to
enqueue, and of a fid whose upload it has read and is going to commit. A run in which no commit falls into a
window of the first kind, no enqueue into one of the second, and no close reads an upload that is being deleted
already, never has a live file in a table of deletions. That is proved from what the two programs do on their
own: nothing is enqueued without a look or a delete before it, nothing is committed without a read.
-/

namespace Ylem

/-- A deletion of the fid is pending. -/
def Doomed (db : Db) (fid : ℕ) : Prop := db.fileToDelete.Has fid ∨ db.fileToDeleteLater.Has fid

instance (db : Db) (fid : ℕ) : Decidable (Doomed db fid) := inferInstanceAs (Decidable (_ ∨ _))

/-- No fid with a file is in a table of deletions. -/
def NoLiveFileDoomed (db : Db) : Prop := ∀ fid, db.file.Has fid → ¬ Doomed db fid

/-- The programs of the two operations. -/
def ClosesOrCleans (p : DbProg Unit) : Prop :=
  (∃ env args, p = (Operation.createClose env args).prog) ∨
    ∃ now tooOld, p = (Operation.processTempfiles now tooOld).prog

namespace Stmt

/-- The statement enqueues the fid for deletion. -/
def Dooms (fid : ℕ) : Stmt → Prop
  | .insertFileToDelete fids => fid ∈ fids
  | _ => False

/-- The statement commits the file of the fid. -/
def Commits (fid : ℕ) : Stmt → Prop
  | .replaceFile row => row.fid = fid
  | _ => False

/-- After the statement its program knows whether the fid has a file. -/
def SettlesFile (fid : ℕ) : (s : Stmt) → s.Res → Prop
  | .selectFile x, _ | .deleteFile x, _ => x = fid
  | _, _ => False

/-- The statement reads the upload of the fid. -/
def FindsUpload (fid : ℕ) : (s : Stmt) → s.Res → Prop
  | .selectTempfile _, trow => trow.map TempfileRow.fid = some fid
  | _, _ => False

end Stmt

section Windows

variable {α : Type}

/-- The program may enqueue the fid without another look whether it has a file. -/
def AboutToEnqueue (fid : ℕ) (p : DbProg α) : Prop :=
  p.Ahead Stmt.run (Stmt.Dooms fid) (Stmt.SettlesFile fid)

/-- The program may commit the file of the fid without another read of its upload. -/
def AboutToCommit (fid : ℕ) (p : DbProg α) : Prop :=
  p.Ahead Stmt.run (Stmt.Commits fid) (Stmt.FindsUpload fid)

/-- A statement of a program that goes on with `rest`, while `others` are at work, does not fall into a window:
no other program is about to enqueue a fid that is committed, no program is about to commit one that is
enqueued, and an upload that is read is not being deleted. -/
def OutsideWindows (others : List (DbProg α)) (rest : DbProg α) : Stmt → Db → Prop
  | .replaceFile row, _ => ∀ q ∈ others, ¬ AboutToEnqueue row.fid q
  | .insertFileToDelete fids, _ => ∀ fid ∈ fids, ∀ q ∈ rest :: others, ¬ AboutToCommit fid q
  | .selectTempfile fid, db => ∀ trow ∈ db.tempfile.rows, (trow.fid : ℚ) = fid → ¬ Doomed db trow.fid
  | _, _ => True

/-! ### What a statement does to files and deletions -/

theorem has_file_run {s : Stmt} {db : Db} {fid : ℕ} (h : (s.run db).2.file.Has fid) :
    db.file.Has fid ∨ s.Commits fid := by
  cases s
  case replaceFile row =>
    rcases FileTable.has_replace.mp h with rfl | ⟨old, hold, rfl, -, -⟩
    · exact .inr rfl
    · exact .inl (Table.has_of_mem hold)
  case deleteFile x => exact .inl (Table.has_of_has_delete h)
  case updateDevcount x ct => exact .inl (FileTable.has_setDevcount.mp h)
  case renameFile x key =>
    simp only [Stmt.run] at h
    split at h
    · rename_i hrename
      exact .inl ((FileTable.has_rename hrename).mp h)
    · exact .inl h
  case insertTempfile =>
    simp only [Stmt.run] at h
    split_ifs at h <;> exact .inl h
  all_goals exact .inl h

/-- The statements that put a deletion off are those of `process_deletes`. -/
def Stmt.PutsOff : Stmt → Prop
  | .insertDeleteLater _ _ => True
  | _ => False

theorem doomed_run {s : Stmt} {db : Db} {fid : ℕ} (hs : ¬ s.PutsOff) (h : Doomed (s.run db).2 fid) :
    Doomed db fid ∨ s.Dooms fid := by
  cases s
  case insertFileToDelete fids =>
    rcases h with h | h
    · rcases Table.has_insertIgnoreAll.mp h with h | h
      · exact .inl (.inl h)
      · exact .inr ((List.map_id fids).subst h)
    · exact .inl (.inr h)
  case insertDeleteLater x delafter => exact absurd trivial hs
  case deleteFileToDelete x => exact .inl (h.imp_left Table.has_of_has_delete)
  case deleteDeleteLater fids => exact .inl (h.imp_right Table.has_of_has_delete)
  case renameFile x key =>
    simp only [Stmt.run] at h
    split at h <;> exact .inl h
  case insertTempfile =>
    simp only [Stmt.run] at h
    split_ifs at h <;> exact .inl h
  all_goals exact .inl h

/-! ### What the programs do on their own -/

/-- A program that has seen a file of a fid, or has committed one, is not about to enqueue the fid; none of its
statements puts a deletion off. -/
def SparesSeen : (s : Stmt) → (s.Res → DbProg α) → Prop
  | .selectFile fid, k => ∀ row, ¬ AboutToEnqueue fid (k (some row))
  | .replaceFile row, k => ¬ AboutToEnqueue row.fid (k ())
  | .insertDeleteLater _ _, _ => False
  | _, _ => True

/-- The statements after which that asks for nothing. -/
def Stmt.LooksAtNoFile : Stmt → Prop
  | .selectFile _ | .replaceFile _ | .insertDeleteLater _ _ => False
  | _ => True

theorem sparesSeen_of_looksAtNoFile {s : Stmt} {k : s.Res → DbProg α} (hs : s.LooksAtNoFile) : SparesSeen s k := by
  cases s <;> first | exact trivial | exact hs.elim

end Windows

/-- The statements of a close of the upload. -/
def Stmt.Closes (upload : ℕ) : Stmt → Prop
  | .insertFileOn _ | .countFileOn _ | .updateDevcount _ _ | .selectFileByName _ _ | .deleteFile _
  | .deleteTempfiles _ | .insertFileToDelete _ | .insertFileToReplicate _ => True
  | .replaceFile row => row.fid = upload
  | _ => False

/-- Those of them that do not enqueue. -/
def Stmt.ClosesOnly (upload : ℕ) (s : Stmt) : Prop := s.Closes upload ∧ ∀ fid, ¬ s.Dooms fid

/-- Those of them before and after the commit. -/
def Stmt.ClosesAround (upload : ℕ) (s : Stmt) : Prop := s.ClosesOnly upload ∧ s.LooksAtNoFile

section Close

variable (env : QueryEnv) (args : Args) (dmid : ℕ) (key path : Text) (trow : TempfileRow) (dev : Device)

theorem closesAround_addToDb (lock : Option Bool) (fid devid : ℕ) :
    (addToDb lock fid devid).Issues (Stmt.ClosesAround trow.fid) :=
  issues_addToDb (fun _ => ⟨⟨trivial, fun _ => id⟩, trivial⟩) (fun _ => ⟨⟨trivial, fun _ => id⟩, trivial⟩)
    (fun _ _ => ⟨⟨trivial, fun _ => id⟩, trivial⟩) _ _ _

theorem closesAround_updateDevcountAtomic (lock : Option Bool) (fid : ℕ) :
    (Store.updateDevcountAtomic lock fid).Issues (Stmt.ClosesAround trow.fid) :=
  issues_updateDevcountAtomic (fun _ => ⟨⟨trivial, fun _ => id⟩, trivial⟩)
    (fun _ _ => ⟨⟨trivial, fun _ => id⟩, trivial⟩) _ _

theorem closesAround_afterCommit (lock : Option Bool) (fid devid : ℕ) :
    (afterCommit lock fid devid).Issues (Stmt.ClosesAround trow.fid) :=
  ⟨⟨⟨trivial, fun _ => id⟩, trivial⟩, fun _ => ⟨⟨⟨trivial, fun _ => id⟩, trivial⟩, fun _ =>
    (closesAround_updateDevcountAtomic trow lock fid).bind fun _ => trivial⟩⟩

theorem closesOnly_commitClose :
    (commitClose env args dmid key path trow dev).Issues (Stmt.ClosesOnly trow.fid) := by
  rcases commitClose_eq env args dmid key path trow dev with ⟨o, heq⟩ | ⟨row, hfid, -, heq⟩
  · rw [heq]
    exact trivial
  rw [heq]
  refine Prog.Issues.bind (Prog.Issues.mono (closesAround_addToDb trow _ _ _) fun _ => And.left) fun _ => ?_
  exact ⟨⟨hfid, fun _ => id⟩, fun _ => (closesAround_afterCommit trow _ _ _).mono fun _ => And.left⟩

theorem closes_deleteFidid (upload fid : ℕ) : (Store.deleteFidid fid).Issues (Stmt.Closes upload) :=
  ⟨trivial, fun _ => ⟨trivial, fun _ => ⟨trivial, fun _ => trivial⟩⟩⟩

theorem closes_closeTempfile :
    (closeTempfile env args dmid path trow dev).Issues (Stmt.Closes trow.fid) := by
  have hdelete : (addToDb env.addLock trow.fid dev.devid >>= fun _ => Store.deleteFidid trow.fid >>= fun _ =>
      pure (Outcome.ok [])).Issues (Stmt.Closes trow.fid) :=
    Prog.Issues.bind (Prog.Issues.mono (closesAround_addToDb trow _ _ _) fun _ h => h.1.1) fun _ =>
      (closes_deleteFidid _ _).bind fun _ => trivial
  unfold closeTempfile
  split
  · exact hdelete
  · exact hdelete
  refine ⟨trivial, fun old => ?_⟩
  cases old with
  | none => exact (closesOnly_commitClose env args dmid _ path trow dev).mono fun _ => And.left
  | some old =>
    show Prog.Issues _ (ite _ _ _)
    split_ifs
    · exact trivial
    · exact (closes_deleteFidid _ _).bind fun _ =>
        (closesOnly_commitClose env args dmid _ path trow dev).mono fun _ => And.left

theorem not_aboutToEnqueue_deleteFidid {α : Type} {f : Unit → DbProg α} {fid x : ℕ}
    (hf : ¬ AboutToEnqueue fid (f ())) : ¬ AboutToEnqueue fid (Store.deleteFidid x >>= f) := by
  refine Prog.not_ahead_stmt id fun _ hx => ?_
  refine Prog.not_ahead_stmt id fun _ _ => ?_
  refine Prog.not_ahead_stmt (fun hmem => hx (List.mem_singleton.mp hmem).symm) fun _ _ => hf

theorem not_aboutToEnqueue_commitClose (fid : ℕ) :
    ¬ AboutToEnqueue fid (commitClose env args dmid key path trow dev) :=
  (closesOnly_commitClose env args dmid key path trow dev).not_ahead fun _ hs => hs.2 fid

theorem not_aboutToEnqueue_closeTempfile (fid : ℕ) :
    ¬ AboutToEnqueue fid (closeTempfile env args dmid path trow dev) := by
  have hdelete : ¬ AboutToEnqueue fid (addToDb env.addLock trow.fid dev.devid >>= fun _ =>
      Store.deleteFidid trow.fid >>= fun _ => pure (Outcome.ok [])) :=
    Prog.not_ahead_bind ((closesAround_addToDb trow _ _ _).not_ahead fun _ hs => hs.1.2 fid) fun _ =>
      not_aboutToEnqueue_deleteFidid id
  unfold closeTempfile
  split
  · exact hdelete
  · exact hdelete
  refine Prog.not_ahead_stmt id fun db _ => ?_
  rcases (Stmt.run (.selectFileByName dmid _) db).1 with _ | old
  · exact not_aboutToEnqueue_commitClose env args dmid _ path trow dev fid
  · show ¬ Prog.Ahead _ _ _ (ite _ _ _)
    split_ifs
    · exact id
    · exact not_aboutToEnqueue_deleteFidid (not_aboutToEnqueue_commitClose env args dmid _ path trow dev fid)

theorem sparesSeen_commitClose :
    (commitClose env args dmid key path trow dev).Along Stmt.run SparesSeen := by
  rcases commitClose_eq env args dmid key path trow dev with ⟨o, heq⟩ | ⟨row, -, -, heq⟩
  · rw [heq]
    exact trivial
  rw [heq]
  refine Prog.Along.bind (closesAround_addToDb trow _ _ _)
    (fun _ _ hs => sparesSeen_of_looksAtNoFile hs.2) fun _ => ⟨?_, fun _ => ?_⟩
  · exact (closesAround_afterCommit trow _ _ _).not_ahead fun _ hs => hs.1.2 _
  · exact (closesAround_afterCommit trow _ _ _).along fun _ _ hs _ => sparesSeen_of_looksAtNoFile hs.2

theorem sparesSeen_deleteFidid {α : Type} {f : Unit → DbProg α} {fid : ℕ}
    (hf : (f ()).Along Stmt.run SparesSeen) : (Store.deleteFidid fid >>= f).Along Stmt.run SparesSeen :=
  ⟨trivial, fun _ => ⟨trivial, fun _ => ⟨trivial, fun _ => hf⟩⟩⟩

theorem sparesSeen_closeTempfile :
    (closeTempfile env args dmid path trow dev).Along Stmt.run SparesSeen := by
  have hdelete : (addToDb env.addLock trow.fid dev.devid >>= fun _ => Store.deleteFidid trow.fid >>= fun _ =>
      pure (Outcome.ok [])).Along Stmt.run SparesSeen :=
    Prog.Along.bind (closesAround_addToDb trow _ _ _) (fun _ _ hs => sparesSeen_of_looksAtNoFile hs.2)
      fun _ => sparesSeen_deleteFidid trivial
  unfold closeTempfile
  split
  · exact hdelete
  · exact hdelete
  refine ⟨trivial, fun db => ?_⟩
  rcases (Stmt.run (.selectFileByName dmid _) db).1 with _ | old
  · exact sparesSeen_commitClose env args dmid _ path trow dev
  · show Prog.Along _ _ (ite _ _ _)
    split_ifs
    · exact trivial
    · exact sparesSeen_deleteFidid (sparesSeen_commitClose env args dmid _ path trow dev)

end Close

/-! ### Where an operation starts -/

/-- What a program counts on where it stands: it spares the files it has seen, a fid that it is about to enqueue
has no file, and one that it is about to commit is not doomed. -/
structure Careful {α : Type} (p : DbProg α) (db : Db) : Prop where
  spares : p.Along Stmt.run SparesSeen
  enqueues : ∀ fid, AboutToEnqueue fid p → ¬ db.file.Has fid
  commits : ∀ fid, AboutToCommit fid p → ¬ Doomed db fid

theorem careful_ret {α : Type} (a : α) (db : Db) : Careful (Prog.ret a) db :=
  ⟨trivial, fun _ => False.elim, fun _ => False.elim⟩

theorem careful_createClose (env : QueryEnv) (args : Args) (db : Db) : Careful (cmdCreateClose env args) db := by
  rcases cmdCreateClose_eq env args with ⟨o, heq⟩ | ⟨fid, dmid, path, dev, heq⟩
  · rw [heq]
    exact careful_ret o db
  rw [heq]
  refine ⟨⟨trivial, fun db => ?_⟩, fun x hx => absurd hx ?_, fun x hx => absurd hx ?_⟩
  · rcases (Stmt.run (.selectTempfile fid) db).1 with _ | trow
    · exact trivial
    · exact sparesSeen_closeTempfile env args dmid path trow dev
  · refine Prog.not_ahead_stmt id fun db _ => ?_
    rcases (Stmt.run (.selectTempfile fid) db).1 with _ | trow
    · exact id
    · exact not_aboutToEnqueue_closeTempfile env args dmid path trow dev x
  · -- a close commits only the upload that it has read
    refine Prog.not_ahead_stmt id fun db hx => ?_
    revert hx
    rcases (Stmt.run (.selectTempfile fid) db).1 with _ | trow
    · exact fun _ => id
    intro hx
    refine (closes_closeTempfile env args dmid path trow dev).not_ahead fun s hs hcommits => hx ?_
    cases s <;> first | exact hcommits.elim | exact congrArg some (hs.symm.trans hcommits)

section Cleanup

open Worker.Delete

theorem mem_of_aboutToEnqueue_collect {α : Type} {f : Option (List (ℕ × Text) × List ℕ) → DbProg α} {fid : ℕ}
    (hnone : ¬ AboutToEnqueue fid (f none))
    (hsome : ∀ devfids fidids, AboutToEnqueue fid (f (some (devfids, fidids))) → fid ∈ fidids)
    (rows : List (ℕ × Text)) : ∀ devfids fidids,
      AboutToEnqueue fid (collectTempfiles rows devfids fidids >>= f) → fid ∈ fidids := by
  induction rows with
  | nil => exact fun devfids fidids => hsome devfids fidids
  | cons row rows ih =>
    obtain ⟨x, devids⟩ := row
    intro devfids fidids hahead
    unfold collectTempfiles at hahead
    split_ifs at hahead with hx
    · exact absurd hahead hnone
    rcases hahead with hgoal | ⟨db, hother, hahead⟩
    · exact hgoal.elim
    replace hother : x ≠ fid := hother
    revert hahead
    rcases (Stmt.run (.selectFile x) db).1 with _ | file
    · intro hahead
      have hmem := ih _ _ hahead
      rw [List.mem_append, List.mem_singleton] at hmem
      exact hmem.resolve_right hother.symm
    · rintro (hgoal | ⟨db, -, hahead⟩)
      · exact hgoal.elim
      · exact ih _ _ hahead

theorem sparesSeen_collect {α : Type} {f : Option (List (ℕ × Text) × List ℕ) → DbProg α}
    (hnone : ∀ fid, ¬ AboutToEnqueue fid (f none))
    (hsome : ∀ fid devfids fidids, AboutToEnqueue fid (f (some (devfids, fidids))) → fid ∈ fidids)
    (hf : ∀ collected, (f collected).Along Stmt.run SparesSeen) (rows : List (ℕ × Text)) :
    ∀ devfids fidids, (rows.map Prod.fst ++ fidids).Nodup →
      (collectTempfiles rows devfids fidids >>= f).Along Stmt.run SparesSeen := by
  induction rows with
  | nil => exact fun devfids fidids _ => hf _
  | cons row rows ih =>
    obtain ⟨x, devids⟩ := row
    intro devfids fidids hnodup
    rw [List.map_cons, List.cons_append, List.nodup_cons, List.mem_append, not_or] at hnodup
    obtain ⟨⟨hrows, hfidids⟩, hnodup⟩ := hnodup
    unfold collectTempfiles
    split_ifs with hx
    · exact hf none
    refine ⟨fun file => Prog.not_ahead_stmt id fun db _ => ?_, fun db => ?_⟩
    · exact fun hahead => hfidids (mem_of_aboutToEnqueue_collect (hnone x) (hsome x) rows _ _ hahead)
    rcases (Stmt.run (.selectFile x) db).1 with _ | file
    · refine ih _ _ ?_
      rw [← List.append_assoc, List.nodup_append_comm, List.singleton_append, List.nodup_cons]
      exact ⟨fun hmem => (List.mem_append.mp hmem).elim hrows hfidids, hnodup⟩
    · exact ⟨trivial, fun _ => ih _ _ hnodup⟩

/-- The statements of a cleanup. -/
def Stmt.Cleans : Stmt → Prop
  | .selectOldTempfiles _ _ | .selectFile _ | .deleteTempfiles _ | .insertFileOn _ | .insertFileToDelete _ => True
  | _ => False

theorem cleans_collectTempfiles (rows : List (ℕ × Text)) :
    ∀ devfids fidids, (collectTempfiles rows devfids fidids).Issues Stmt.Cleans := by
  induction rows with
  | nil => exact fun _ _ => trivial
  | cons row rows ih =>
    intro devfids fidids
    unfold collectTempfiles
    split_ifs
    · exact trivial
    refine ⟨trivial, fun file => ?_⟩
    cases file with
    | some file => exact ⟨trivial, fun _ => ih devfids fidids⟩
    | none => exact ih _ _

theorem issues_massInsertFileOn {P : Stmt → Prop} (hinsert : ∀ rows, P (.insertFileOn rows))
    (devfids : List (ℕ × Text)) : (massInsertFileOn devfids).Issues P := by
  unfold massInsertFileOn
  split_ifs
  · exact trivial
  · exact trivial
  · exact ⟨hinsert _, fun _ => trivial⟩

theorem cleans_enqueueCollected (collected : Option (List (ℕ × Text) × List ℕ)) :
    (enqueueCollected collected).Issues Stmt.Cleans := by
  rcases collected with _ | ⟨devfids, fidids⟩
  · exact trivial
  refine Prog.Issues.bind (issues_massInsertFileOn (fun _ => trivial) devfids) fun inserted => ?_
  cases inserted with
  | none => exact trivial
  | some inserted =>
    show Prog.Issues _ (ite _ _ _)
    split_ifs
    · exact trivial
    · exact ⟨trivial, fun _ => ⟨trivial, fun _ => trivial⟩⟩

theorem cleans_processTempfiles (now tooOld : ℕ) : (processTempfiles now tooOld).Issues Stmt.Cleans := by
  refine ⟨trivial, fun tempfiles => ?_⟩
  cases tempfiles with
  | nil => exact trivial
  | cons row rows =>
    show (collectTempfiles (row :: rows) [] [] >>= enqueueCollected).Issues _
    exact (cleans_collectTempfiles _ _ _).bind cleans_enqueueCollected

theorem mem_of_aboutToEnqueue_collected {fid : ℕ} {devfids : List (ℕ × Text)} {fidids : List ℕ}
    (h : AboutToEnqueue fid (enqueueCollected (some (devfids, fidids)))) : fid ∈ fidids := by
  rcases Prog.Ahead.of_bind h with h | ⟨inserted, h⟩
  · exact absurd h ((issues_massInsertFileOn (P := fun s => ¬ s.Dooms fid) (fun _ => id) devfids).not_ahead
      fun _ => id)
  cases inserted with
  | none => exact h.elim
  | some inserted =>
    replace h : AboutToEnqueue fid (ite _ _ _) := h
    split_ifs at h
    · exact h.elim
    rcases h with hmem | ⟨db, -, hgoal | ⟨db', -, h⟩⟩
    · exact hmem
    · exact hgoal.elim
    · exact h.elim

theorem sparesSeen_enqueueCollected (collected : Option (List (ℕ × Text) × List ℕ)) :
    (enqueueCollected collected).Along Stmt.run SparesSeen := by
  rcases collected with _ | ⟨devfids, fidids⟩
  · exact trivial
  refine Prog.Along.bind (issues_massInsertFileOn (fun _ => trivial) devfids)
    (fun _ _ hs => sparesSeen_of_looksAtNoFile hs) fun inserted => ?_
  cases inserted with
  | none => exact trivial
  | some inserted =>
    show Prog.Along _ _ (ite _ _ _)
    split_ifs
    · exact trivial
    · exact ⟨trivial, fun _ => ⟨trivial, fun _ => trivial⟩⟩

theorem nodup_oldTempfiles (now secsOld : ℕ) (db : Db) :
    ((Stmt.run (.selectOldTempfiles now secsOld) db).1.map Prod.fst).Nodup := by
  have hread : ((Stmt.run (.selectOldTempfiles now secsOld) db).1.map Prod.fst) =
      (((db.tempfile.rows.filter fun r => r.createtime + secsOld < now).take 50).map TempfileRow.fid) := by
    simp only [Stmt.run, List.map_map]
    rfl
  rw [hread]
  exact (((List.take_sublist _ _).trans List.filter_sublist).map _).nodup db.tempfile.nodup

theorem careful_processTempfiles (now tooOld : ℕ) (db : Db) : Careful (processTempfiles now tooOld) db := by
  refine ⟨⟨trivial, fun db => ?_⟩, fun fid h => absurd h ?_, fun fid h => absurd h ?_⟩
  · have hnodup := nodup_oldTempfiles now tooOld db
    revert hnodup
    rcases (Stmt.run (.selectOldTempfiles now tooOld) db).1 with _ | ⟨row, rows⟩
    · exact fun _ => trivial
    intro hnodup
    refine sparesSeen_collect (fun _ => id) (fun _ _ _ => mem_of_aboutToEnqueue_collected)
      sparesSeen_enqueueCollected (row :: rows) [] [] ?_
    rwa [List.append_nil]
  · refine Prog.not_ahead_stmt id fun db _ => ?_
    rcases (Stmt.run (.selectOldTempfiles now tooOld) db).1 with _ | ⟨row, rows⟩
    · exact id
    · exact fun hahead => absurd (mem_of_aboutToEnqueue_collect id (fun _ _ => mem_of_aboutToEnqueue_collected)
        (row :: rows) [] [] hahead) List.not_mem_nil
  · refine (cleans_processTempfiles now tooOld).not_ahead fun s hs hcommits => ?_
    cases s <;> first | exact hs | exact hcommits

end Cleanup

theorem SparesSeen.forget {α : Type} {s : Stmt} {k : s.Res → DbProg α} (h : SparesSeen s k) :
    SparesSeen s fun r => (k r).forget := by
  cases s
  case selectFile fid => exact fun row hahead => h row hahead.of_forget
  case replaceFile row => exact fun hahead => h hahead.of_forget
  all_goals exact h

theorem Careful.forget {α : Type} {p : DbProg α} {db : Db} (h : Careful p db) : Careful p.forget db :=
  ⟨h.spares.forget fun _ _ => SparesSeen.forget, fun fid hahead => h.enqueues fid hahead.of_forget,
    fun fid hahead => h.commits fid hahead.of_forget⟩

theorem ClosesOrCleans.careful {p : DbProg Unit} (h : ClosesOrCleans p) (db : Db) : Careful p db := by
  rcases h with ⟨env, args, rfl⟩ | ⟨now, tooOld, rfl⟩
  · exact (careful_createClose env args db).forget
  · exact (careful_processTempfiles now tooOld db).forget

/-! ### Runs -/

section Runs

variable {others : List (DbProg Unit)} {s : Stmt} {k : s.Res → DbProg Unit} {db : Db}

/-- What a statement outside the windows leaves: no live file is doomed, and its program stands as well as
before. -/
theorem careful_own (hp : Careful (.stmt s k) db) (h : NoLiveFileDoomed db)
    (hout : OutsideWindows others (k (s.run db).1) s db) :
    NoLiveFileDoomed (s.run db).2 ∧ Careful (k (s.run db).1) (s.run db).2 := by
  obtain ⟨⟨hspares, hrest⟩, henqueues, hcommits⟩ := hp
  have hputs : ¬ s.PutsOff := by
    intro hputs
    cases s <;> first | exact hspares | exact hputs
  refine ⟨fun fid hfile hdoomed => ?_, hrest db, fun fid hahead hfile => ?_, fun fid hahead hdoomed => ?_⟩
  · rcases has_file_run hfile with hfile | hcommit
    · rcases doomed_run hputs hdoomed with hdoomed | hdoom
      · exact h fid hfile hdoomed
      · exact henqueues fid (.inl hdoom) hfile
    · rcases doomed_run hputs hdoomed with hdoomed | hdoom
      · exact hcommits fid (.inl hcommit) hdoomed
      · cases s <;> first | exact hcommit.elim | exact hdoom.elim
  · rcases has_file_run hfile with hbefore | hcommit
    · by_cases hsettles : s.SettlesFile fid (s.run db).1
      · -- the look has found no file, or the delete leaves none
        cases s
        case selectFile x =>
          obtain rfl : x = fid := hsettles
          obtain ⟨row, hrow⟩ := Option.isSome_iff_exists.mp (Table.isSome_find?.mpr hbefore)
          have hfound : (Stmt.run (.selectFile x) db).1 = some row := hrow
          exact hspares row (hfound ▸ hahead)
        case deleteFile x =>
          obtain rfl : x = fid := hsettles
          exact (Table.has_delete_key.mp hfile).1 rfl
        all_goals exact hsettles
      · exact henqueues fid (Prog.Ahead.of_step hsettles hahead) hbefore
    · cases s
      case replaceFile row =>
        obtain rfl : row.fid = fid := hcommit
        exact hspares hahead
      all_goals exact hcommit
  · rcases doomed_run hputs hdoomed with hbefore | hdoom
    · by_cases hfinds : s.FindsUpload fid (s.run db).1
      · cases s
        case selectTempfile x =>
          obtain ⟨trow, htrow, rfl⟩ := Option.map_eq_some_iff.mp hfinds
          have hfid := List.find?_some htrow
          exact hout trow (List.mem_of_find?_eq_some htrow) (of_decide_eq_true hfid) hbefore
        all_goals exact hfinds
      · exact hcommits fid (Prog.Ahead.of_step hfinds hahead) hbefore
    · cases s
      case insertFileToDelete fids => exact hout fid hdoom _ List.mem_cons_self hahead
      all_goals exact hdoom

theorem careful_other (hp : Careful (.stmt s k) db) (hout : OutsideWindows others (k (s.run db).1) s db)
    {q : DbProg Unit} (hq : q ∈ others) (h : Careful q db) : Careful q (s.run db).2 := by
  have hputs : ¬ s.PutsOff := by
    intro hputs
    have hspares := hp.spares.1
    cases s <;> first | exact hspares | exact hputs
  refine ⟨h.spares, fun fid hahead hfile => ?_, fun fid hahead hdoomed => ?_⟩
  · rcases has_file_run hfile with hbefore | hcommit
    · exact h.enqueues fid hahead hbefore
    · cases s
      case replaceFile row =>
        obtain rfl : row.fid = fid := hcommit
        exact hout q hq hahead
      all_goals exact hcommit
  · rcases doomed_run hputs hdoomed with hbefore | hdoom
    · exact h.commits fid hahead hbefore
    · cases s
      case insertFileToDelete fids => exact hout fid hdoom q (List.mem_cons_of_mem _ hq) hahead
      all_goals exact hdoom

end Runs

/-- In a run of closes and cleanups that starts without a live file in a table of deletions, and whose statements
stay outside the windows, there is never one. -/
theorem liveFiles_safe_outside_windows {db : Db} (h : NoLiveFileDoomed db)
    {moves : List (Pool Stmt Stmt.Res Unit Db × Pool.Event Stmt Stmt.Res Unit)} {c' : Pool Stmt Stmt.Res Unit Db}
    (hrun : Pool.Moves Stmt.run ClosesOrCleans ⟨db, []⟩ moves c')
    (hout : ∀ move ∈ moves, Pool.Meets Stmt.run OutsideWindows move) :
    (∀ move ∈ moves, NoLiveFileDoomed move.1.db) ∧ NoLiveFileDoomed c'.db :=
  Pool.Moves.always (A := Careful) (fun _ hp => hp.careful)
    (fun _ _ _ _ hp hsafe hmeets => careful_own hp hsafe hmeets)
    (fun _ _ _ _ hp _ hmeets _ hq hcareful => careful_other hp hmeets hq hcareful) h hrun hout

/-! ### A run outside the windows, and one in a window -/

/-- The program has ended, or looks at once whether the fid has a file. -/
def looksFirst (fid : ℕ) : DbProg Unit → Bool
  | .ret _ => true
  | .stmt (.selectFile x) _ => x = fid
  | .stmt _ _ => false

/-- The program has ended, or drops its uploads and ends. -/
def onlyDrops : DbProg Unit → Bool
  | .ret _ => true
  | .stmt (.deleteTempfiles _) k => (k ()).next.isNone
  | .stmt _ _ => false

/-- A statement that is outside the windows for a plain reason. -/
def PlainlyOutside (others : List (DbProg Unit)) (rest : DbProg Unit) : Stmt → Db → Bool
  | .replaceFile row, _ => others.all (looksFirst row.fid)
  | .insertFileToDelete _, _ => (rest :: others).all onlyDrops
  | .selectTempfile _, db => db.tempfile.rows.all fun trow => !decide (Doomed db trow.fid)
  | _, _ => true

theorem not_aboutToEnqueue_of_looksFirst {fid : ℕ} {q : DbProg Unit} (h : looksFirst fid q = true) :
    ¬ AboutToEnqueue fid q := by
  cases q with
  | ret a => exact id
  | stmt s k =>
    cases s
    case selectFile x => exact Prog.not_ahead_stmt id fun _ hother => absurd (of_decide_eq_true h) hother
    all_goals cases h

theorem not_aboutToCommit_of_onlyDrops {fid : ℕ} {q : DbProg Unit} (h : onlyDrops q = true) :
    ¬ AboutToCommit fid q := by
  cases q with
  | ret a => exact id
  | stmt s k =>
    cases s
    case deleteTempfiles fids =>
      refine Prog.not_ahead_stmt id fun db _ => ?_
      replace h : (k ()).next.isNone = true := h
      show ¬ Prog.Ahead _ _ _ (k ())
      cases hk : k () with
      | ret a => exact id
      | stmt s' k' =>
        rw [hk] at h
        cases h
    all_goals cases h

theorem PlainlyOutside.outside {others : List (DbProg Unit)} {rest : DbProg Unit} {s : Stmt} {db : Db}
    (h : PlainlyOutside others rest s db = true) : OutsideWindows others rest s db := by
  cases s
  case replaceFile row => exact fun q hq => not_aboutToEnqueue_of_looksFirst (List.all_eq_true.mp h q hq)
  case insertFileToDelete fids =>
    exact fun fid _ q hq => not_aboutToCommit_of_onlyDrops (List.all_eq_true.mp h q hq)
  case selectTempfile fid =>
    intro trow htrow _ hdoomed
    have hclear := List.all_eq_true.mp h trow htrow
    rw [decide_eq_true hdoomed] at hclear
    cases hclear
  all_goals exact trivial

/-- Uploads of fids 1 and 2 that are an hour old. -/
def staleUploads : Db :=
  { Db.fresh with
    tempfile := ⟨[⟨1, 0, 0, 1, "key".toList, "1".toList⟩, ⟨2, 0, 0, 1, "other".toList, "1".toList⟩], by decide⟩
    nextFid := 3 }

theorem noLiveFileDoomed_staleUploads : NoLiveFileDoomed staleUploads := fun fid hfid =>
  absurd hfid (Table.not_has_empty fid)

/-- The cleanup reads the uploads; the client closes the first; the cleanup looks for its file, and for that of the
other. -/
def closeBeforeCheck : List (Pool.Event Stmt Stmt.Res Unit) :=
  [.start (Operation.processTempfiles 4000 3600).prog, .step 0,
    .start (Operation.createClose openEnv.toQueryEnv keyArgs).prog] ++ List.replicate 10 (.step 1) ++
    List.replicate 6 (.step 0)

theorem closesOrCleans_of_closeBeforeCheck {p : DbProg Unit} (hp : .start p ∈ closeBeforeCheck) :
    ClosesOrCleans p := by
  simp only [closeBeforeCheck, List.cons_append, List.nil_append, List.mem_cons, List.mem_append,
    List.mem_replicate, Pool.Event.start.injEq, reduceCtorEq, and_false, false_or, or_false] at hp
  rcases hp with rfl | rfl
  · exact .inr ⟨_, _, rfl⟩
  · exact .inl ⟨_, _, rfl⟩

/-- The first upload is a file and stays one; the other is in `file_to_delete`. -/
theorem closeBeforeCheck_safe :
    ∃ moves c', Pool.Moves Stmt.run ClosesOrCleans ⟨staleUploads, []⟩ moves c' ∧
      c'.db.file.Has 1 ∧ c'.db.fileToDelete.Has 2 ∧
      (∀ move ∈ moves, NoLiveFileDoomed move.1.db) ∧ NoLiveFileDoomed c'.db := by
  have hrecord : (Pool.record Stmt.run closeBeforeCheck ⟨staleUploads, []⟩).any (fun r =>
      decide (r.2.db.file.Has 1) && (decide (r.2.db.fileToDelete.Has 2) &&
        decide (∀ move ∈ r.1, Pool.Meets Stmt.run (fun others rest s db => PlainlyOutside others rest s db = true)
          move))) = true := by
    decide +kernel
  obtain ⟨moves, c', hrun, htest⟩ :=
    Pool.exists_moves_of_record (fun _ => closesOrCleans_of_closeBeforeCheck) hrecord
  simp only [Bool.and_eq_true, decide_eq_true_eq] at htest
  obtain ⟨hfile, hdelete, hplain⟩ := htest
  exact ⟨moves, c', hrun, hfile, hdelete, liveFiles_safe_outside_windows noLiveFileDoomed_staleUploads hrun
    fun move hmove => (hplain move hmove).mono fun _ _ _ _ => PlainlyOutside.outside⟩

/-- The cleanup reads the uploads and finds no file of the first; the client closes it and the file is committed;
the cleanup goes on. -/
def closeInWindow : List (Pool.Event Stmt Stmt.Res Unit) :=
  [.start (Operation.processTempfiles 4000 3600).prog, .step 0, .step 0,
    .start (Operation.createClose openEnv.toQueryEnv keyArgs).prog] ++ List.replicate 10 (.step 1) ++
    List.replicate 3 (.step 0)

/-- A file that has just been committed is in `file_to_delete`. -/
theorem closeInWindow_dooms_file :
    ∃ moves c', Pool.Moves Stmt.run ClosesOrCleans ⟨staleUploads, []⟩ moves c' ∧ NoLiveFileDoomed staleUploads ∧
      ¬ NoLiveFileDoomed c'.db := by
  have hstarts : ∀ p, .start p ∈ closeInWindow → ClosesOrCleans p := by
    intro p hp
    simp only [closeInWindow, List.cons_append, List.nil_append, List.mem_cons, List.mem_append,
      List.mem_replicate, Pool.Event.start.injEq, reduceCtorEq, and_false, false_or, or_false] at hp
    rcases hp with rfl | rfl
    · exact .inr ⟨_, _, rfl⟩
    · exact .inl ⟨_, _, rfl⟩
  have hrecord : (Pool.record Stmt.run closeInWindow ⟨staleUploads, []⟩).any
      (fun r => decide (r.2.db.file.Has 1) && decide (r.2.db.fileToDelete.Has 1)) = true := by
    decide +kernel
  obtain ⟨moves, c', hrun, htest⟩ := Pool.exists_moves_of_record hstarts hrecord
  simp only [Bool.and_eq_true, decide_eq_true_eq] at htest
  exact ⟨moves, c', hrun, noLiveFileDoomed_staleUploads, fun h => h 1 htest.1 (.inl htest.2)⟩

end Ylem
