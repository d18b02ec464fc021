import Ylem.Tracker.Covers

/-!
# Is every replica accounted for?

A replica that is recorded in `file_on` is of use to somebody as long as its fid is the fid of a file or an
upload, or is in one of the two tables of deletions; a fid of which none is true any more is an orphan,
and no worker will ever look at its replicas. `delete_fidid` takes the file row away before it enqueues the
fid, so that a worker that dies in between leaves an orphan, and so do interleavings in which the statement of
one operation falls into a window of another. The result below is that there are no other ways: runs in which
neither happens, with any number of workers that may die anywhere, never have an orphan.
-/

namespace Ylem

/-- The fid has a row in one of the tables that keep its replicas from being forgotten. -/
def Covered (db : Db) (fid : ℕ) : Prop :=
  db.file.Has fid ∨ db.tempfile.Has fid ∨ db.fileToDelete.Has fid ∨ db.fileToDeleteLater.Has fid

/-- Every recorded replica is covered. -/
def NoOrphans (db : Db) : Prop := ∀ row ∈ db.fileOn.rows, Covered db row.1

/-- The fid has a recorded replica. -/
def HasReplica (db : Db) (fid : ℕ) : Prop := ∃ row ∈ db.fileOn.rows, row.1 = fid

/-- The fid has a row in another table than these. -/
def CoveredBut (tables : List Cover) (db : Db) (fid : ℕ) : Prop := ∃ c ∉ tables, c.Keeps db fid

/-- A statement of one program, found in `db` while `others` are at work, keeps what it should.

`DELETE FROM file` finds the fid without replicas or in a table of deletions. A statement that takes a row finds
another one of the fid where another program is about to record a replica of it, and a third one where another
program is about to take the fid's row of a second table and the fid has replicas. A statement that records a
replica finds another row of the fid than the one that another program is about to take. And no file is put under a
name that another program is about to put a file under. -/
structure KeepsApart (others : List (DbProg Unit)) (s : Stmt) (db : Db) : Prop where
  deletes : ∀ fid, s = .deleteFile fid → HasReplica db fid → CoveredBut [.file, .upload] db fid
  records : ∀ c fid, s.Takes c fid → ∀ q ∈ others, AboutToRecord fid q → CoveredBut [c] db fid
  takes : ∀ c d fid, s.Takes c fid → HasReplica db fid → ∀ q ∈ others, d ≠ .file → d ≠ c → AboutToTake d fid q →
    CoveredBut [c, d] db fid
  recorded : ∀ c fid, s.Records fid → ∀ q ∈ others, c ≠ .file → AboutToTake c fid q → CoveredBut [c] db fid
  replaces : ∀ row, s = .replaceFile row → ∀ q ∈ others, ¬ AboutToReplace row.fid row.name q
  renames : ∀ fid key, s = .renameFile fid key → ∀ row ∈ db.file.rows, row.fid = fid →
    ∀ q ∈ others, ¬ AboutToReplace fid (row.dmid, key) q

/-! ### What a statement does -/

theorem covered_iff {db : Db} {fid : ℕ} : Covered db fid ↔ ∃ c : Cover, c.Keeps db fid := by
  constructor
  · rintro (h | h | h | h)
    · exact ⟨.file, h⟩
    · exact ⟨.upload, h⟩
    · exact ⟨.doomed, h⟩
    · exact ⟨.delayed, h⟩
  · rintro ⟨c, h⟩
    cases c with
    | file => exact .inl h
    | upload => exact .inr (.inl h)
    | doomed => exact .inr (.inr (.inl h))
    | delayed => exact .inr (.inr (.inr h))

theorem noOrphans_iff {db : Db} : NoOrphans db ↔ ∀ fid, HasReplica db fid → ∃ c : Cover, c.Keeps db fid := by
  constructor
  · rintro h fid ⟨row, hrow, rfl⟩
    exact covered_iff.mp (h row hrow)
  · intro h row hrow
    exact covered_iff.mpr (h row.1 ⟨row, hrow, rfl⟩)

theorem hasReplica_run {s : Stmt} {db : Db} {fid : ℕ} (h : HasReplica (s.run db).2 fid) :
    HasReplica db fid ∨ s.Records fid := by
  obtain ⟨row, hrow, rfl⟩ := h
  cases s
  case insertFileOn rows =>
    have hhas : (db.fileOn.insertIgnoreAll rows).Has row := by simpa [Table.Has, Stmt.run] using hrow
    rcases Table.has_insertIgnoreAll.mp hhas with hold | hnew
    · exact .inl ⟨row, by simpa [Table.Has] using hold, rfl⟩
    · exact .inr ⟨row, by simpa using hnew, rfl⟩
  case deleteFileOn => exact .inl ⟨row, (List.mem_filter.mp hrow).1, rfl⟩
  case renameFile =>
    simp only [Stmt.run] at hrow
    split at hrow <;> exact .inl ⟨row, hrow, rfl⟩
  case insertTempfile =>
    simp only [Stmt.run] at hrow
    split_ifs at hrow <;> exact .inl ⟨row, hrow, rfl⟩
  all_goals exact .inl ⟨row, hrow, rfl⟩

theorem keeps_run {s : Stmt} {db : Db} {c : Cover} {fid : ℕ} (hnames : ∀ row, s = .replaceFile row →
    ∀ old ∈ db.file.rows, old.name ≠ row.name) (htakes : ¬ s.Takes c fid) (h : c.Keeps db fid) :
    c.Keeps (s.run db).2 fid := by
  cases s
  case deleteFile x =>
    cases c with
    | file => exact Table.has_delete_key.mpr ⟨fun heq => htakes ⟨rfl, heq.symm⟩, h⟩
    | upload | doomed | delayed => exact h
  case deleteTempfiles fids =>
    cases c with
    | upload => exact Table.has_delete_keys.mpr ⟨fun hmem => htakes ⟨rfl, hmem⟩, h⟩
    | file | doomed | delayed => exact h
  case deleteFileToDelete x =>
    cases c with
    | doomed => exact Table.has_delete_key.mpr ⟨fun heq => htakes ⟨rfl, heq.symm⟩, h⟩
    | file | upload | delayed => exact h
  case deleteDeleteLater fids =>
    cases c with
    | delayed => exact Table.has_delete_keys.mpr ⟨fun hmem => htakes ⟨rfl, hmem⟩, h⟩
    | file | upload | doomed => exact h
  case insertFileToDelete fids =>
    cases c with
    | doomed => exact Table.has_insertIgnoreAll.mpr (.inl h)
    | file | upload | delayed => exact h
  case insertDeleteLater x delafter =>
    cases c with
    | delayed => exact Table.has_insertIgnore.mpr (.inl h)
    | file | upload | doomed => exact h
  case insertTempfile =>
    simp only [Stmt.run]
    split_ifs
    · cases c <;> exact h
    · cases c with
      | upload => exact Table.has_insertIgnore.mpr (.inl h)
      | file | doomed | delayed => exact h
  case updateDevcount x ct =>
    cases c with
    | file => exact FileTable.has_setDevcount.mpr h
    | upload | doomed | delayed => exact h
  case renameFile x key =>
    simp only [Stmt.run]
    split
    · rename_i hrename
      cases c with
      | file => exact (FileTable.has_rename hrename).mpr h
      | upload | doomed | delayed => exact h
    · exact h
  case replaceFile row =>
    cases c with
    | file =>
      obtain ⟨old, hold, rfl⟩ := Table.has_iff.mp h
      refine FileTable.has_replace.mpr ?_
      by_cases hfid : old.fid = row.fid
      · exact .inl hfid
      · exact .inr ⟨old, hold, rfl, hfid, hnames row rfl old hold⟩
    | upload | doomed | delayed => exact h
  all_goals cases c <;> exact h

theorem eq_of_takes {s : Stmt} {c d : Cover} {fid x : ℕ} (h : s.Takes c fid) (h' : s.Takes d x) : d = c := by
  cases s <;> first | exact h.elim | exact h'.1.trans h.1.symm

theorem not_records_of_takes {s : Stmt} {c : Cover} {fid x : ℕ} (h : s.Takes c fid) : ¬ s.Records x := by
  cases s <;> first | exact h.elim | exact id

theorem mem_file_run {s : Stmt} {db : Db} {row : FileRow} (h : row ∈ (s.run db).2.file.rows) :
    (∃ old ∈ db.file.rows, old.fid = row.fid ∧ old.name = row.name ∧ s ≠ .deleteFile row.fid) ∨
      s = .replaceFile row ∨
      ∃ key, s = .renameFile row.fid key ∧ row.dkey = key ∧ ∃ old ∈ db.file.rows, old.fid = row.fid ∧
        old.dmid = row.dmid := by
  cases s
  case deleteFile x =>
    obtain ⟨hmem, hne⟩ := List.mem_filter.mp h
    refine .inl ⟨row, hmem, rfl, rfl, fun heq => ?_⟩
    obtain rfl := Stmt.deleteFile.inj heq
    simp at hne
  case replaceFile new =>
    rcases List.mem_append.mp h with hold | hnew
    · exact .inl ⟨row, (List.mem_filter.mp hold).1, rfl, rfl, by simp⟩
    · exact .inr (.inl (congrArg _ (List.mem_singleton.mp hnew).symm))
  case updateDevcount x ct =>
    obtain ⟨old, hold, rfl⟩ := List.mem_map.mp h
    split_ifs <;> exact .inl ⟨old, hold, rfl, rfl, by simp⟩
  case renameFile x key =>
    simp only [Stmt.run] at h
    split at h
    · rename_i file hrename
      unfold FileTable.rename at hrename
      split_ifs at hrename
      obtain rfl := Option.some.inj hrename
      obtain ⟨old, hold, rfl⟩ := List.mem_map.mp h
      split_ifs with hfid
      · exact .inr (.inr ⟨key, by rw [hfid], rfl, old, hold, rfl, rfl⟩)
      · exact .inl ⟨old, hold, rfl, rfl, by simp⟩
    · exact .inl ⟨row, h, rfl, rfl, by simp⟩
  case insertTempfile =>
    simp only [Stmt.run] at h
    split_ifs at h <;> exact .inl ⟨row, h, rfl, rfl, by simp⟩
  all_goals exact .inl ⟨row, h, rfl, rfl, by simp⟩

theorem CoveredBut.run {tables : List Cover} {s : Stmt} {db : Db} {fid : ℕ} (h : CoveredBut tables db fid)
    (hnames : ∀ row, s = .replaceFile row → ∀ old ∈ db.file.rows, old.name ≠ row.name)
    (htakes : ∀ c ∉ tables, ¬ s.Takes c fid) : CoveredBut tables (s.run db).2 fid := by
  obtain ⟨c, hc, hkeeps⟩ := h
  exact ⟨c, hc, keeps_run hnames (htakes c hc) hkeeps⟩

theorem coveredBut_singleton {c d : Cover} {db : Db} {fid : ℕ} (hne : d ≠ c) (h : d.Keeps db fid) :
    CoveredBut [c] db fid := ⟨d, fun hmem => hne (List.mem_singleton.mp hmem), h⟩

theorem not_hasReplica_of_mem_leftJoin {db : Db} {fid : ℕ} (h : (fid, none) ∈ Stmt.leftJoin db) :
    ¬ HasReplica db fid := by
  rintro ⟨⟨x, devid⟩, hrow, rfl⟩
  obtain ⟨y, -, hy⟩ := List.mem_flatMap.mp h
  split at hy
  · rename_i hnone
    obtain rfl : x = y := congrArg Prod.fst (List.mem_singleton.mp hy)
    have hmem := db.mem_devidsOf.mpr hrow
    rw [hnone] at hmem
    exact List.not_mem_nil hmem
  · obtain ⟨devid', -, heq⟩ := List.mem_map.mp hy
    cases heq

/-- What a statement ensures is so after it. -/
theorem Stmt.Ensures.run {s : Stmt} {db : Db} {c : Cover} {fid : ℕ} (h : s.Ensures c fid (s.run db).1)
    (hfile : c ≠ .file) (hsafe : NoOrphans db)
    (hdeletes : s = .deleteFile fid → HasReplica db fid → CoveredBut [.file, .upload] db fid)
    (hreplica : HasReplica (s.run db).2 fid) : CoveredBut [c] (s.run db).2 fid := by
  cases s
  case insertTempfile expFid dmid key classid devids createtime reseeded =>
    simp only [Stmt.Ensures, Stmt.run] at h hreplica ⊢
    split_ifs at h hreplica ⊢ with hhas
    obtain rfl := Option.some.inj h
    by_cases hc : c = .upload
    · subst hc
      obtain ⟨d, hd⟩ := noOrphans_iff.mp hsafe _ hreplica
      have hne : d ≠ .upload := by
        rintro rfl
        exact hhas hd
      refine coveredBut_singleton hne ?_
      cases d with
      | upload => exact absurd rfl hne
      | file | doomed | delayed => exact hd
    · exact coveredBut_singleton (Ne.symm hc) (d := .upload) (Table.has_insertIgnore.mpr (.inr rfl))
  case replaceFile row =>
    obtain rfl : row.fid = fid := h
    exact coveredBut_singleton hfile.symm (d := .file) (FileTable.has_replace.mpr (.inl rfl))
  case selectFile x =>
    obtain ⟨rfl, hsome⟩ := h
    exact coveredBut_singleton hfile.symm (d := .file) (Table.isSome_find?.mp (Option.isSome_iff_ne_none.mpr hsome))
  case deleteFile x =>
    obtain ⟨rfl, rfl⟩ := h
    have hbefore := (hasReplica_run hreplica).resolve_right id
    have hkept := (hdeletes rfl hbefore).run (s := .deleteFile x) (by simp)
      fun d hd htakes => hd (htakes.1 ▸ List.mem_cons_self)
    obtain ⟨d, hd, hkeeps⟩ := hkept
    exact coveredBut_singleton (fun heq => hd (heq ▸ List.mem_cons_of_mem _ List.mem_cons_self)) hkeeps
  case insertFileToDelete fids =>
    exact coveredBut_singleton h.1.symm (d := .doomed)
      (Table.has_insertIgnoreAll.mpr (.inr (by simpa using h.2)))
  case insertDeleteLater x delafter =>
    obtain ⟨hc, rfl⟩ := h
    exact coveredBut_singleton hc.symm (d := .delayed) (Table.has_insertIgnore.mpr (.inr rfl))
  case selectDeletes limit =>
    exact absurd hreplica (not_hasReplica_of_mem_leftJoin (List.mem_of_mem_take h))
  all_goals exact h.elim

theorem Stmt.Vouches.run {s : Stmt} {db : Db} {fid : ℕ} (h : s.Vouches fid (s.run db).1) :
    ∃ c : Cover, c.Keeps (s.run db).2 fid := by
  cases s
  case selectFile x =>
    obtain ⟨rfl, hsome⟩ := h
    exact ⟨.file, Table.isSome_find?.mp (Option.isSome_iff_ne_none.mpr hsome)⟩
  case selectTempfile x =>
    obtain ⟨trow, htrow, rfl⟩ := Option.map_eq_some_iff.mp h
    exact ⟨.upload, Table.has_of_mem (List.mem_of_find?_eq_some htrow)⟩
  case selectOldTempfiles now secsOld =>
    obtain ⟨row, hrow, rfl⟩ := List.mem_map.mp h
    obtain ⟨trow, htrow, rfl⟩ := List.mem_map.mp hrow
    exact ⟨.upload, Table.has_of_mem (List.mem_filter.mp (List.mem_of_mem_take htrow)).1⟩
  case insertFileToDelete fids =>
    exact ⟨.doomed, Table.has_insertIgnoreAll.mpr (.inr ((List.map_id fids).symm ▸ h))⟩
  all_goals exact h.elim

/-! ### Runs -/

/-- What a program counts on where it stands. -/
structure Guarded (p : DbProg Unit) (db : Db) : Prop where
  tidy : p.Along Stmt.run Tidy
  takes : ∀ c fid, c ≠ .file → AboutToTake c fid p → HasReplica db fid → CoveredBut [c] db fid
  records : ∀ fid, AboutToRecord fid p → ∃ c : Cover, c.Keeps db fid
  replaces : ∀ row ∈ db.file.rows, ¬ AboutToReplace row.fid row.name p

theorem Orderly.guarded {p : DbProg Unit} (h : Orderly p) (db : Db) : Guarded p db where
  tidy := h.tidy
  takes c fid hfile hahead := absurd hahead (h.takes c fid hfile)
  records fid hahead := absurd hahead (h.records fid)
  replaces row _ := h.replaces row.fid row.name

section Runs

variable {others : List (DbProg Unit)} {s : Stmt} {k : s.Res → DbProg Unit} {db : Db}

theorem Guarded.name_ne (h : Guarded (.stmt s k) db) (row : FileRow) (hs : s = .replaceFile row) (old : FileRow)
    (hold : old ∈ db.file.rows) : old.name ≠ row.name := by
  intro heq
  refine h.replaces old hold (.inl ?_)
  rw [hs]
  exact heq.symm

theorem noOrphans_own (hp : Guarded (.stmt s k) db) (h : NoOrphans db) (hapart : KeepsApart others s db) :
    NoOrphans (s.run db).2 := by
  rw [noOrphans_iff]
  intro fid hreplica
  have hcovered : ∃ c : Cover, c.Keeps db fid := by
    rcases hasReplica_run hreplica with hbefore | hrecords
    · exact noOrphans_iff.mp h fid hbefore
    · exact hp.records fid (.inl hrecords)
  obtain ⟨c, hkeeps⟩ := hcovered
  by_cases htakes : s.Takes c fid
  · have hbefore := (hasReplica_run hreplica).resolve_right (not_records_of_takes htakes)
    have hother : ∃ d, d ≠ c ∧ d.Keeps db fid := by
      by_cases hfile : c = .file
      · -- `DELETE FROM file`
        subst hfile
        have hs : s = .deleteFile fid := by
          cases s <;> first | exact htakes.elim | exact congrArg _ htakes.2 | exact nomatch htakes.1
        obtain ⟨d, hd, hkeeps'⟩ := hapart.deletes fid hs hbefore
        exact ⟨d, fun heq => hd (heq ▸ List.mem_cons_self), hkeeps'⟩
      · obtain ⟨d, hd, hkeeps'⟩ := hp.takes c fid hfile (.inl htakes) hbefore
        exact ⟨d, fun heq => hd (List.mem_singleton.mpr heq), hkeeps'⟩
    obtain ⟨d, hne, hkeeps'⟩ := hother
    exact ⟨d, keeps_run hp.name_ne (fun htakes' => hne (eq_of_takes htakes htakes')) hkeeps'⟩
  · exact ⟨c, keeps_run hp.name_ne htakes hkeeps⟩

theorem guarded_own (hp : Guarded (.stmt s k) db) (h : NoOrphans db) (hapart : KeepsApart others s db) :
    Guarded (k (s.run db).1) (s.run db).2 := by
  obtain ⟨htidy, hrest⟩ := hp.tidy
  refine ⟨hrest db, fun c fid hfile hahead hreplica => ?_, fun fid hahead => ?_, fun row hrow hahead => ?_⟩
  · by_cases hens : s.Ensures c fid (s.run db).1
    · exact hens.run hfile h (hapart.deletes fid) hreplica
    · have hbefore := (hasReplica_run hreplica).resolve_right fun hrecords =>
        htidy.records _ c fid hrecords hfile hahead
      refine (hp.takes c fid hfile (Prog.Ahead.of_step hens hahead) hbefore).run hp.name_ne fun d hd htakes => ?_
      exact htidy.takes _ c d fid htakes hfile (fun heq => hd (List.mem_singleton.mpr heq.symm)) hens hahead
  · by_cases hvouches : s.Vouches fid (s.run db).1
    · exact hvouches.run
    · obtain ⟨c, hkeeps⟩ := hp.records fid (Prog.Ahead.of_step hvouches hahead)
      exact ⟨c, keeps_run hp.name_ne (fun htakes => htidy.covers _ c fid htakes hahead) hkeeps⟩
  · rcases mem_file_run hrow with ⟨old, hold, hfid, hname, hdelete⟩ | rfl | ⟨key, rfl, hkey, -⟩
    · by_cases hfrees : s.Frees row.fid row.name (s.run db).1
      · cases s
        case selectFileByName dmid key =>
          -- the look finds this very file
          obtain ⟨found, hfound⟩ : ∃ found, (db.file.rows.find? fun r => r.name = (dmid, key)) = some found := by
            rw [← Option.isSome_iff_exists]
            exact List.find?_isSome.mpr ⟨old, hold, decide_eq_true (hname.trans hfrees.symm)⟩
          have hsame : found = old := by
            have hfoundname := List.find?_some hfound
            refine List.inj_on_of_nodup_map db.file.name_nodup (List.mem_of_find?_eq_some hfound) hold ?_
            exact (of_decide_eq_true hfoundname).trans (hfrees.trans hname.symm)
          refine htidy.names _ row.fid row.name ⟨?_, hfrees⟩ hahead
          exact Option.map_eq_some_iff.mpr ⟨found, hfound, by rw [hsame, hfid]⟩
        case deleteFile x => exact hdelete (congrArg _ hfrees)
        all_goals exact hfrees.elim
      · have hbefore := Prog.Ahead.of_step hfrees hahead
        rw [← hfid, ← hname] at hbefore
        exact hp.replaces old hold hbefore
    · exact htidy.names _ row.fid row.name ⟨rfl, rfl⟩ hahead
    · exact htidy.names _ row.fid row.name ⟨rfl, hkey⟩ hahead

theorem guarded_other (hp : Guarded (.stmt s k) db) (hapart : KeepsApart others s db) {q : DbProg Unit}
    (hq : q ∈ others) (h : Guarded q db) : Guarded q (s.run db).2 := by
  refine ⟨h.tidy, fun c fid hfile hahead hreplica => ?_, fun fid hahead => ?_, fun row hrow hahead => ?_⟩
  · rcases hasReplica_run hreplica with hbefore | hrecords
    · by_cases hother : ∃ d, d ≠ c ∧ s.Takes d fid
      · obtain ⟨d, hne, htakes⟩ := hother
        obtain ⟨e, he, hkeeps⟩ := hapart.takes d c fid htakes hbefore q hq hfile hne.symm hahead
        simp only [List.mem_cons, List.not_mem_nil, or_false, not_or] at he
        exact coveredBut_singleton he.2
          (keeps_run hp.name_ne (fun htakes' => he.1 (eq_of_takes htakes htakes')) hkeeps)
      · refine (h.takes c fid hfile hahead hbefore).run hp.name_ne fun d hd htakes => hother ⟨d, ?_, htakes⟩
        exact fun heq => hd (List.mem_singleton.mpr heq)
    · exact (hapart.recorded c fid hrecords q hq hfile hahead).run hp.name_ne
        fun d _ htakes => not_records_of_takes htakes hrecords
  · obtain ⟨c, hkeeps⟩ := h.records fid hahead
    by_cases htakes : s.Takes c fid
    · obtain ⟨d, hd, hkeeps'⟩ := hapart.records c fid htakes q hq hahead
      exact ⟨d, keeps_run hp.name_ne (fun htakes' => hd (List.mem_singleton.mpr (eq_of_takes htakes htakes')))
        hkeeps'⟩
    · exact ⟨c, keeps_run hp.name_ne htakes hkeeps⟩
  · rcases mem_file_run hrow with ⟨old, hold, hfid, hname, -⟩ | rfl | ⟨key, rfl, hkey, old, hold, hfid, hdmid⟩
    · rw [← hfid, ← hname] at hahead
      exact h.replaces old hold hahead
    · exact hapart.replaces row rfl q hq hahead
    · refine hapart.renames row.fid key rfl old hold hfid q hq ?_
      rwa [hdmid, ← hkey]

end Runs

/-- In a run of the tracker's operations, whose workers may die anywhere, there is never an orphan if the
statements of the run keep apart. -/
theorem noOrphans_of_keepsApart {db : Db} (h : NoOrphans db)
    {moves : List (Pool Stmt Stmt.Res Unit Db × Pool.Event Stmt Stmt.Res Unit)} {c' : Pool Stmt Stmt.Res Unit Db}
    (hrun : Pool.Moves Stmt.run IsOperation ⟨db, []⟩ moves c')
    (hapart : ∀ move ∈ moves, Pool.Meets Stmt.run (fun others _ s db => KeepsApart others s db) move) :
    (∀ move ∈ moves, NoOrphans move.1.db) ∧ NoOrphans c'.db :=
  Pool.Moves.always (A := Guarded) (fun _ hp => hp.orderly.guarded)
    (fun _ _ _ _ hp hsafe hmeets => ⟨noOrphans_own hp hsafe hmeets, guarded_own hp hsafe hmeets⟩)
    (fun _ _ _ _ hp _ hmeets _ hq hguarded => guarded_other hp hmeets hq hguarded) h hrun hapart

theorem noOrphans_fresh : NoOrphans Db.fresh := fun _ hrow => absurd hrow List.not_mem_nil

/-! ### An upload with a replication, and a delete that dies -/

instance (db : Db) (fid : ℕ) : Decidable (Covered db fid) := inferInstanceAs (Decidable (_ ∨ _))

/-- A statement that keeps apart for a plain reason: it takes, records and renames nothing, or it takes or records
of a fid that has a file, or no other program is at work. -/
def PlainlyApart (others : List (DbProg Unit)) : Stmt → Db → Bool
  | .deleteFile _, _ | .renameFile _ _, _ => false
  | .deleteTempfiles fids, db => others.all (·.next.isNone) || fids.all fun fid => decide (db.file.Has fid)
  | .deleteFileToDelete fid, db => others.all (·.next.isNone) || decide (db.file.Has fid)
  | .deleteDeleteLater fids, db => others.all (·.next.isNone) || fids.all fun fid => decide (db.file.Has fid)
  | .insertFileOn rows, db => others.all (·.next.isNone) || rows.all fun row => decide (db.file.Has row.1)
  | .replaceFile _, _ => others.all (·.next.isNone)
  | _, _ => true

theorem not_ahead_of_next {goal : Stmt → Prop} {stop : (s : Stmt) → s.Res → Prop} {others : List (DbProg Unit)}
    (h : others.all (·.next.isNone) = true) {q : DbProg Unit} (hq : q ∈ others) : ¬ q.Ahead Stmt.run goal stop := by
  have hnone := List.all_eq_true.mp h q hq
  cases q with
  | ret a => exact id
  | stmt s k => cases hnone

theorem keepsApart_of_ended {others : List (DbProg Unit)} {s : Stmt} {db : Db} (hs : ∀ fid, s ≠ .deleteFile fid)
    (h : others.all (·.next.isNone) = true) : KeepsApart others s db where
  deletes fid heq := absurd heq (hs fid)
  records _ _ _ _ hq hahead := absurd hahead (not_ahead_of_next h hq)
  takes _ _ _ _ _ _ hq _ _ hahead := absurd hahead (not_ahead_of_next h hq)
  recorded _ _ _ _ hq _ hahead := absurd hahead (not_ahead_of_next h hq)
  replaces _ _ _ hq := not_ahead_of_next h hq
  renames _ _ _ _ _ _ _ hq := not_ahead_of_next h hq

theorem keepsApart_of_file {others : List (DbProg Unit)} {s : Stmt} {db : Db} (hs : ∀ fid, ¬ s.Takes .file fid)
    (hnames : ∀ name, ¬ s.Replaces name) (hrename : ∀ fid key, s ≠ .renameFile fid key)
    (htakes : ∀ c fid, s.Takes c fid → db.file.Has fid) (hrecords : ∀ fid, s.Records fid → db.file.Has fid) :
    KeepsApart others s db where
  deletes fid heq := absurd (heq ▸ ⟨rfl, rfl⟩) (hs fid)
  records c fid h q _ _ := coveredBut_singleton (fun heq => hs fid (heq ▸ h)) (d := .file) (htakes c fid h)
  takes c d fid h _ q _ hfile _ _ := by
    refine ⟨.file, fun hmem => ?_, htakes c fid h⟩
    simp only [List.mem_cons, List.not_mem_nil, or_false] at hmem
    rcases hmem with rfl | rfl
    · exact hs fid h
    · exact hfile rfl
  recorded c fid h q _ hfile _ := coveredBut_singleton hfile.symm (d := .file) (hrecords fid h)
  replaces row heq := absurd (heq ▸ rfl) (hnames row.name)
  renames fid key heq := absurd heq (hrename fid key)

theorem PlainlyApart.keepsApart {others : List (DbProg Unit)} {s : Stmt} {db : Db}
    (h : PlainlyApart others s db = true) : KeepsApart others s db := by
  cases s
  case deleteFile x => cases h
  case renameFile x key => cases h
  case deleteTempfiles fids =>
    rcases Bool.or_eq_true _ _ |>.mp h with hended | hfile
    · exact keepsApart_of_ended (by simp) hended
    · refine keepsApart_of_file (fun _ h => nomatch h.1) (fun _ => id) nofun (fun c fid htakes => ?_) nofun
      exact of_decide_eq_true (List.all_eq_true.mp hfile fid htakes.2)
  case deleteFileToDelete x =>
    rcases Bool.or_eq_true _ _ |>.mp h with hended | hfile
    · exact keepsApart_of_ended (by simp) hended
    · refine keepsApart_of_file (fun _ h => nomatch h.1) (fun _ => id) nofun (fun c fid htakes => ?_) nofun
      exact htakes.2 ▸ of_decide_eq_true hfile
  case deleteDeleteLater fids =>
    rcases Bool.or_eq_true _ _ |>.mp h with hended | hfile
    · exact keepsApart_of_ended (by simp) hended
    · refine keepsApart_of_file (fun _ h => nomatch h.1) (fun _ => id) nofun (fun c fid htakes => ?_) nofun
      exact of_decide_eq_true (List.all_eq_true.mp hfile fid htakes.2)
  case insertFileOn rows =>
    rcases Bool.or_eq_true _ _ |>.mp h with hended | hfile
    · exact keepsApart_of_ended (by simp) hended
    · refine keepsApart_of_file (fun _ => id) (fun _ => id) nofun nofun ?_
      rintro fid ⟨row, hrow, rfl⟩
      exact of_decide_eq_true (List.all_eq_true.mp hfile row hrow)
  case replaceFile row => exact keepsApart_of_ended (by simp) h
  all_goals exact keepsApart_of_file (fun _ => id) (fun _ => id) nofun nofun nofun

/-- A replicate worker with the devices of `twoHosts` whose copies succeed. -/
def copyingWorker : Worker.Replicate.QueueEnv where
  devs := twoHosts
  classOf := fun _ => some (multipleHostsClass ⟨0⟩ 100 2)
  now := 0
  order := id
  order_perm := List.Perm.refl
  peerIsReplicating := fun _ => false
  outcomes := fun _ => { springTrap with rounds := fun _ => ⟨fun _ => .least, .least, .copied⟩ }
  jitter := fun _ => .least

/-- A key is uploaded as fid 1; as soon as the file is in the queue it is replicated, while its upload is still
there. -/
def replicateUpload : List (Pool.Event Stmt Stmt.Res Unit) :=
  .start (Operation.createOpen openEnv openArgsOfKey).prog :: List.replicate 2 (.step 0) ++
    .start (Operation.createClose openEnv.toQueryEnv keyArgs).prog :: List.replicate 7 (.step 1) ++
    .start (Operation.replicateUsingToreplTable copyingWorker).prog :: List.replicate 3 (.step 2) ++
    [.step 2, .step 1] ++ List.replicate 2 (.step 1) ++ List.replicate 3 (.step 2)

theorem isOperation_of_replicateUpload {p : DbProg Unit} (hp : .start p ∈ replicateUpload) : IsOperation p := by
  simp only [replicateUpload, List.cons_append, List.mem_cons, List.mem_append, List.mem_replicate,
    Pool.Event.start.injEq, reduceCtorEq, and_false, false_or, or_false, List.not_mem_nil] at hp
  rcases hp with rfl | rfl | rfl
  · exact ⟨.createOpen openEnv openArgsOfKey, rfl⟩
  · exact ⟨.createClose openEnv.toQueryEnv keyArgs, rfl⟩
  · exact ⟨.replicateUsingToreplTable copyingWorker, rfl⟩

/-- The file is on two devices in the end, and there is no orphan at any moment. -/
theorem replicateUpload_noOrphans :
    ∃ moves c', Pool.Moves Stmt.run IsOperation ⟨Db.fresh, []⟩ moves c' ∧
      c'.db.file.Has 1 ∧ c'.db.fileOn.rows = [(1, 1), (1, 3)] ∧
      (∀ move ∈ moves, NoOrphans move.1.db) ∧ NoOrphans c'.db := by
  have hrecord : (Pool.record Stmt.run replicateUpload ⟨Db.fresh, []⟩).any (fun r =>
      decide (r.2.db.file.Has 1) && (decide (r.2.db.fileOn.rows = [(1, 1), (1, 3)]) &&
        decide (∀ move ∈ r.1, Pool.Meets Stmt.run (fun others _ s db => PlainlyApart others s db = true) move))) =
      true := by
    decide +kernel
  obtain ⟨moves, c', hrun, htest⟩ := Pool.exists_moves_of_record (fun _ => isOperation_of_replicateUpload) hrecord
  simp only [Bool.and_eq_true, decide_eq_true_eq] at htest
  obtain ⟨hfile, hdevices, hplain⟩ := htest
  exact ⟨moves, c', hrun, hfile, hdevices, noOrphans_of_keepsApart noOrphans_fresh hrun
    fun move hmove => (hplain move hmove).mono fun _ _ _ _ => PlainlyApart.keepsApart⟩

/-- A worker deletes the file row of the key and dies. -/
def dieInDelete : List (Pool.Event Stmt Stmt.Res Unit) :=
  [.start (Operation.delete openEnv.toQueryEnv keyArgs).prog, .step 3, .step 3, .die 3]

/-- The replicas on devices 1 and 3 are orphans then. -/
theorem dieInDelete_orphan :
    ∃ moves c', Pool.Moves Stmt.run IsOperation ⟨Db.fresh, []⟩ moves c' ∧ ¬ NoOrphans c'.db := by
  have hstarts : ∀ p, .start p ∈ replicateUpload ++ dieInDelete → IsOperation p := by
    intro p hp
    rcases List.mem_append.mp hp with hp | hp
    · exact isOperation_of_replicateUpload hp
    · simp only [dieInDelete, List.mem_cons, Pool.Event.start.injEq, reduceCtorEq,
        List.not_mem_nil, or_false] at hp
      exact ⟨.delete openEnv.toQueryEnv keyArgs, hp⟩
  have hrecord : (Pool.record Stmt.run (replicateUpload ++ dieInDelete) ⟨Db.fresh, []⟩).any (fun r =>
      decide ((1, 1) ∈ r.2.db.fileOn.rows) && decide (¬ Covered r.2.db 1)) = true := by
    decide +kernel
  obtain ⟨moves, c', hrun, htest⟩ := Pool.exists_moves_of_record hstarts hrecord
  simp only [Bool.and_eq_true, decide_eq_true_eq] at htest
  exact ⟨moves, c', hrun, fun h => htest.2 (h (1, 1) htest.1)⟩

end Ylem
