import Ylem.Tracker.LiveFiles

/-!
# How the operations look after replicas

A fid is covered by a row in `file`, `tempfile`, `file_to_delete` or `file_to_delete_later`. The operations take
such rows away, record replicas, and put a file under a name with `REPLACE`, which takes the row of another fid
that had the name. Before each of these they make sure that it does no harm: before a row is taken, that another
one covers the fid or that it has no replicas; before a replica is recorded, that its fid is covered; before a
file is put under a name, that no other has it. Between the two stands a window. This module shows of each
operation, on its own, that it starts outside all windows and that its own statements fall into none of them
(`Orderly`); the one exception is that `delete_fidid` takes the row of `file` without having looked at all.
-/

namespace Ylem

/-- The tables of which a row keeps the replicas of its fid from being forgotten. -/
inductive Cover where
  | file
  | upload
  | doomed
  | delayed
  deriving DecidableEq

/-- The table has a row of the fid. -/
def Cover.Keeps (db : Db) (fid : ℕ) : Cover → Prop
  | .file => db.file.Has fid
  | .upload => db.tempfile.Has fid
  | .doomed => db.fileToDelete.Has fid
  | .delayed => db.fileToDeleteLater.Has fid

namespace Stmt

/-- The statement takes a row of the fid out of the table. -/
def Takes (c : Cover) (fid : ℕ) : Stmt → Prop
  | .deleteFile x => c = .file ∧ x = fid
  | .deleteTempfiles fids => c = .upload ∧ fid ∈ fids
  | .deleteFileToDelete x => c = .doomed ∧ x = fid
  | .deleteDeleteLater fids => c = .delayed ∧ fid ∈ fids
  | _ => False

/-- The statement records a replica of the fid. -/
def Records (fid : ℕ) : Stmt → Prop
  | .insertFileOn rows => ∃ row ∈ rows, row.1 = fid
  | _ => False

/-- The statement puts a file under the name, whoever had it. -/
def Replaces (name : ℕ × Text) : Stmt → Prop
  | .replaceFile row => row.name = name
  | _ => False

/-- After the statement the fid has a row in another table than this one, or no replicas. That is so of a `DELETE
FROM file` as well, for the rows of the upload, unless it makes the fid an orphan. -/
def Ensures (c : Cover) (fid : ℕ) : (s : Stmt) → s.Res → Prop
  | .insertTempfile .., id => id = some fid
  | .replaceFile row, _ => row.fid = fid
  | .selectFile x, row => x = fid ∧ row ≠ none
  | .deleteFile x, _ => c = .upload ∧ x = fid
  | .insertFileToDelete fids, _ => c ≠ .doomed ∧ fid ∈ fids
  | .insertDeleteLater x _, _ => c ≠ .delayed ∧ x = fid
  | .selectDeletes _, rows => (fid, none) ∈ rows
  | _, _ => False

/-- After the statement the fid is known to be covered. -/
def Vouches (fid : ℕ) : (s : Stmt) → s.Res → Prop
  | .selectFile x, row => x = fid ∧ row ≠ none
  | .selectTempfile _, trow => trow.map TempfileRow.fid = some fid
  | .selectOldTempfiles _ _, rows => fid ∈ rows.map Prod.fst
  | .insertFileToDelete fids, _ => fid ∈ fids
  | _, _ => False

/-- The statement looks the name up, or takes the file of the fid. -/
def Frees (fid : ℕ) (name : ℕ × Text) : (s : Stmt) → s.Res → Prop
  | .selectFileByName dmid key, _ => (dmid, key) = name
  | .deleteFile x, _ => x = fid
  | _, _ => False

/-- After the statement its program knows that the name is that of the fid. -/
def Names (fid : ℕ) (name : ℕ × Text) : (s : Stmt) → s.Res → Prop
  | .selectFileByName dmid key, row => row.map FileRow.fid = some fid ∧ (dmid, key) = name
  | .replaceFile row, _ => row.fid = fid ∧ row.name = name
  | .renameFile x key, _ => x = fid ∧ name.2 = key
  | _, _ => False

end Stmt

section Windows

variable {α : Type}

/-- The program may take the fid's row of the table without making sure again that it can be spared. -/
def AboutToTake (c : Cover) (fid : ℕ) (p : DbProg α) : Prop :=
  p.Ahead Stmt.run (Stmt.Takes c fid) (Stmt.Ensures c fid)

/-- The program may record a replica of the fid without making sure again that it is covered. -/
def AboutToRecord (fid : ℕ) (p : DbProg α) : Prop :=
  p.Ahead Stmt.run (Stmt.Records fid) (Stmt.Vouches fid)

/-- The program may put a file under the name without having looked it up again, or taken the file of the fid. -/
def AboutToReplace (fid : ℕ) (name : ℕ × Text) (p : DbProg α) : Prop :=
  p.Ahead Stmt.run (Stmt.Replaces name) (Stmt.Frees fid name)

/-- What a program must not do to its own windows: take the other row of a fid of which it is about to take a row,
record a replica of it, take a row of a fid of which it is about to record a replica, or be about to put a file
under a name of which it knows that a file has it. -/
structure Tidy (s : Stmt) (k : s.Res → DbProg α) : Prop where
  takes : ∀ r c d fid, s.Takes d fid → c ≠ .file → c ≠ d → ¬ s.Ensures c fid r → ¬ AboutToTake c fid (k r)
  records : ∀ r c fid, s.Records fid → c ≠ .file → ¬ AboutToTake c fid (k r)
  covers : ∀ r c fid, s.Takes c fid → ¬ AboutToRecord fid (k r)
  names : ∀ r fid name, s.Names fid name r → ¬ AboutToReplace fid name (k r)

/-- The program stands outside all windows, and falls into none of its own. -/
structure Orderly (p : DbProg α) : Prop where
  tidy : p.Along Stmt.run Tidy
  takes : ∀ c fid, c ≠ .file → ¬ AboutToTake c fid p
  records : ∀ fid, ¬ AboutToRecord fid p
  replaces : ∀ fid name, ¬ AboutToReplace fid name p

theorem orderly_ret (a : α) : Orderly (Prog.ret a : DbProg α) :=
  ⟨trivial, fun _ _ _ => id, fun _ => id, fun _ _ => id⟩

theorem Tidy.forget {s : Stmt} {k : s.Res → DbProg α} (h : Tidy s k) : Tidy s fun r => (k r).forget where
  takes r c d fid htakes hfile hne hens hahead := h.takes r c d fid htakes hfile hne hens hahead.of_forget
  records r c fid hrecords hfile hahead := h.records r c fid hrecords hfile hahead.of_forget
  covers r c fid htakes hahead := h.covers r c fid htakes hahead.of_forget
  names r fid name hnames hahead := h.names r fid name hnames hahead.of_forget

theorem Orderly.forget {p : DbProg α} (h : Orderly p) : Orderly p.forget where
  tidy := h.tidy.forget fun _ _ => Tidy.forget
  takes c fid hfile hahead := h.takes c fid hfile hahead.of_forget
  records fid hahead := h.records fid hahead.of_forget
  replaces fid name hahead := h.replaces fid name hahead.of_forget

/-! ### Programs that take from one table only, or from none -/

/-- The statement takes from these tables at most, records nothing and replaces nothing. -/
def Stmt.TakesFrom (tables : List Cover) : Stmt → Prop
  | .deleteFile _ => Cover.file ∈ tables
  | .deleteTempfiles _ => Cover.upload ∈ tables
  | .deleteFileToDelete _ => Cover.doomed ∈ tables
  | .deleteDeleteLater _ => Cover.delayed ∈ tables
  | .insertFileOn _ | .replaceFile _ => False
  | _ => True

theorem Stmt.TakesFrom.mem {tables : List Cover} {s : Stmt} (h : s.TakesFrom tables) {c : Cover} {fid : ℕ}
    (htakes : s.Takes c fid) : c ∈ tables := by
  cases s <;> first | exact htakes.elim | exact htakes.1 ▸ h

theorem Stmt.TakesFrom.not_records {tables : List Cover} {s : Stmt} (h : s.TakesFrom tables) (fid : ℕ) :
    ¬ s.Records fid := by
  cases s <;> first | exact id | exact h.elim

theorem Stmt.TakesFrom.not_replaces {tables : List Cover} {s : Stmt} (h : s.TakesFrom tables) (name : ℕ × Text) :
    ¬ s.Replaces name := by
  cases s <;> first | exact id | exact h.elim

/-- A program is orderly if it records and replaces nothing, and takes from one table only, or from `file` and
`tempfile`, and starts outside the windows of these. -/
theorem orderly_of_takesFrom (tables : List Cover)
    (htables : ∀ c ∈ tables, c ≠ .file → ∀ d ∈ tables, c ≠ d → c = .upload ∧ d = .file)
    {p : DbProg α} (h : p.Issues (Stmt.TakesFrom tables))
    (hstart : ∀ c ∈ tables, ∀ fid, c ≠ .file → ¬ AboutToTake c fid p) : Orderly p where
  tidy := by
    refine h.along fun s k hs hk => ?_
    refine ⟨fun r c d fid htakes hfile hne hens => ?_, fun _ _ fid hrecords => absurd hrecords (hs.not_records fid),
      fun r _ fid _ => (hk r).not_ahead fun _ hs => hs.not_records fid,
      fun r _ name _ => (hk r).not_ahead fun _ hs => hs.not_replaces name⟩
    by_cases hc : c ∈ tables
    · obtain ⟨rfl, rfl⟩ := htables c hc hfile d (hs.mem htakes) hne
      -- a `DELETE FROM file` stands before the one from `tempfile`
      cases s
      case deleteFile x => exact absurd ⟨rfl, htakes.2⟩ hens
      all_goals first | exact htakes.elim | exact nomatch htakes.1
    · exact (hk r).not_ahead fun _ hs htakes => hc (hs.mem htakes)
  takes c fid hfile := by
    by_cases hc : c ∈ tables
    · exact hstart c hc fid hfile
    · exact h.not_ahead fun _ hs htakes => hc (hs.mem htakes)
  records fid := h.not_ahead fun _ hs => hs.not_records fid
  replaces _ name := h.not_ahead fun _ hs => hs.not_replaces name

/-- The statement takes nothing and replaces nothing, and records replicas of this fid at most. -/
def Stmt.RecordsOnly (fid : ℕ) : Stmt → Prop
  | .deleteFile _ | .deleteTempfiles _ | .deleteFileToDelete _ | .deleteDeleteLater _ | .replaceFile _ => False
  | .insertFileOn rows => ∀ row ∈ rows, row.1 = fid
  | _ => True

/-- The statement takes nothing and replaces nothing. -/
def Stmt.TakesNothing : Stmt → Prop
  | .deleteFile _ | .deleteTempfiles _ | .deleteFileToDelete _ | .deleteDeleteLater _ | .replaceFile _ => False
  | _ => True

theorem Stmt.RecordsOnly.takesNothing {fid : ℕ} {s : Stmt} (h : s.RecordsOnly fid) : s.TakesNothing := by
  cases s <;> first | exact trivial | exact h

theorem Stmt.RecordsOnly.not_records {fid x : ℕ} {s : Stmt} (h : s.RecordsOnly fid) (hne : x ≠ fid) :
    ¬ s.Records x := by
  cases s
  case insertFileOn rows =>
    rintro ⟨row, hrow, rfl⟩
    exact hne (h row hrow)
  all_goals exact id

theorem Stmt.TakesNothing.not_takes {s : Stmt} (h : s.TakesNothing) (c : Cover) (fid : ℕ) : ¬ s.Takes c fid := by
  cases s <;> first | exact id | exact h.elim

theorem Stmt.TakesNothing.not_replaces {s : Stmt} (h : s.TakesNothing) (name : ℕ × Text) : ¬ s.Replaces name := by
  cases s <;> first | exact id | exact h.elim

theorem orderly_of_takesNothing {p : DbProg α} (h : p.Issues Stmt.TakesNothing)
    (hstart : ∀ fid, ¬ AboutToRecord fid p) : Orderly p where
  tidy := by
    refine h.along fun s k hs hk => ⟨fun _ _ d fid htakes => absurd htakes (hs.not_takes d fid),
      fun r c fid _ _ => ?_, fun _ c fid htakes => absurd htakes (hs.not_takes c fid), fun r _ name _ => ?_⟩
    · exact (hk r).not_ahead fun _ hs => hs.not_takes c fid
    · exact (hk r).not_ahead fun _ hs => hs.not_replaces name
  takes c fid _ := h.not_ahead fun _ hs => hs.not_takes c fid
  records := hstart
  replaces _ name := h.not_ahead fun _ hs => hs.not_replaces name

end Windows

/-! ### Deleting and renaming a key -/

theorem orderly_withDomain {env : QueryEnv} {args : Args} {handler : ℕ → DbProg Outcome}
    (h : ∀ dmid, Orderly (handler dmid)) : Orderly (withDomain env args handler) := by
  unfold withDomain
  split
  · exact orderly_ret _
  · exact orderly_ret _
  · exact h _

theorem takesFrom_deleteFidid (fid : ℕ) : (Store.deleteFidid fid).Issues (Stmt.TakesFrom [.file, .upload]) :=
  ⟨List.mem_cons_self, fun _ => ⟨List.mem_cons_of_mem _ List.mem_cons_self, fun _ => ⟨trivial, fun _ => trivial⟩⟩⟩

theorem not_aboutToTake_deleteFidid {α : Type} {c : Cover} {f : Unit → DbProg α} {fid x : ℕ} (hc : c ≠ .file)
    (hf : ¬ AboutToTake c fid (f ())) : ¬ AboutToTake c fid (Store.deleteFidid x >>= f) := by
  refine Prog.not_ahead_stmt (fun h => hc h.1) fun _ hx => ?_
  refine Prog.not_ahead_stmt (fun h => hx ⟨h.1, (List.mem_singleton.mp h.2).symm⟩) fun _ _ => ?_
  exact Prog.not_ahead_stmt id fun _ _ => hf

theorem takesFrom_withFid {tables : List Cover} {dmid : ℕ} {key : Text} {use : ℕ → DbProg Outcome}
    (h : ∀ fid, (use fid).Issues (Stmt.TakesFrom tables)) :
    (withFid dmid key use).Issues (Stmt.TakesFrom tables) := by
  refine ⟨trivial, fun row => ?_⟩
  cases row with
  | none => exact trivial
  | some row =>
    show Prog.Issues _ (ite _ _ _)
    split_ifs
    · exact trivial
    · exact h _

theorem orderly_delete (env : QueryEnv) (args : Args) : Orderly (cmdDelete env args) := by
  refine orderly_withDomain fun dmid => ?_
  split_ifs
  · exact orderly_ret _
  refine orderly_of_takesFrom [.file, .upload] (by decide)
    (takesFrom_withFid fun fid => (takesFrom_deleteFidid fid).bind fun _ => trivial) fun c _ fid hc => ?_
  refine Prog.not_ahead_stmt id fun db _ => ?_
  rcases (Stmt.run (.selectFileByName dmid _) db).1 with _ | row
  · exact id
  · show ¬ Prog.Ahead _ _ _ (ite _ _ _)
    split_ifs
    · exact id
    · exact not_aboutToTake_deleteFidid hc id

theorem orderly_rename (env : QueryEnv) (args : Args) : Orderly (cmdRename env args) := by
  refine orderly_withDomain fun dmid => ?_
  split_ifs
  · exact orderly_ret _
  refine orderly_of_takesFrom [] (by decide)
    (takesFrom_withFid fun fid => ⟨trivial, fun renamed => ?_⟩) fun c hc => absurd hc List.not_mem_nil
  cases renamed <;> exact trivial

/-! ### Opening an upload -/

section CreateOpen

variable {new : NewTempfile} {fid : ℕ}

/-- A row of `tempfile` that is inserted is new. -/
theorem not_aboutToTake_insTempfile {α : Type} {f : Except Exn (Option ℕ) → DbProg α}
    (herror : ∀ e, ¬ AboutToTake .upload fid (f (.error e))) (hnone : ¬ AboutToTake .upload fid (f (.ok none)))
    (hsome : ∀ x, AboutToTake .upload fid (f (.ok (some x))) → fid = x) (expFid : Option ℤ) (reseeded : Bool) :
    ¬ AboutToTake .upload fid (Store.insTempfile new expFid reseeded >>= f) := by
  refine Prog.not_ahead_stmt id fun db hnew => ?_
  have hid : ∀ x, (Stmt.run (.insertTempfile ((expFid.filter (0 < ·)).map Int.toNat) new.dmid new.key new.classid
      new.devids new.now reseeded) db).1 = some x → fid ≠ x ∧ ∀ z, expFid = some z → 0 < z → z.toNat = x := by
    intro x hx
    refine ⟨fun heq => hnew (heq ▸ hx), ?_⟩
    rintro z rfl hz
    have hexplicit : (Option.filter (fun y => decide (0 < y)) (some z)).map Int.toNat = some z.toNat := by
      simp [Option.filter, hz]
    rw [hexplicit] at hx
    simp only [Stmt.run, Option.getD_some] at hx
    split_ifs at hx
    exact Option.some.inj hx
  revert hid
  generalize (Stmt.run (.insertTempfile ((expFid.filter (0 < ·)).map Int.toNat) new.dmid new.key new.classid
      new.devids new.now reseeded) db).1 = id
  intro hid
  cases id with
  | none => exact hnone
  | some x =>
    obtain ⟨hne, hexplicit⟩ := hid x rfl
    cases expFid with
    | none =>
      show ¬ Prog.Ahead _ _ _ (Prog.bind (ite _ _ _) f)
      split_ifs
      · exact herror _
      · exact fun hahead => hne (hsome x hahead)
    | some z =>
      show ¬ Prog.Ahead _ _ _ (f (.ok (ite _ _ _)))
      split_ifs with hz
      · intro hahead
        exact hne ((hsome _ hahead).trans (hexplicit z rfl hz))
      · exact hnone

theorem not_aboutToTake_reseed {α : Type} {f : Except Exn (Option ℕ) → DbProg α}
    (herror : ∀ e, ¬ AboutToTake .upload fid (f (.error e))) (hnone : ¬ AboutToTake .upload fid (f (.ok none)))
    (hsome : ∀ x, AboutToTake .upload fid (f (.ok (some x))) → fid = x) {x : ℕ} (hne : fid ≠ x)
    (reseeded : ℕ → Bool) : ¬ AboutToTake .upload fid (Store.reseed new x reseeded >>= f) := by
  have hlast : ¬ AboutToTake .upload fid (Store.insTempfile new none (reseeded 1) >>= f) :=
    not_aboutToTake_insTempfile herror hnone hsome none (reseeded 1)
  unfold Store.reseed
  simp only [bind_assoc]
  refine Prog.not_ahead_stmt (fun h => hne (List.mem_singleton.mp h.2)) fun _ _ => ?_
  refine Prog.not_ahead_stmt id fun _ _ => ?_
  refine not_aboutToTake_insTempfile ?_ ?_ ?_ _ _
  · exact herror
  · exact hlast
  · rintro y (htakes | ⟨db, -, hahead⟩)
    · exact List.mem_singleton.mp htakes.2
    · exact absurd hahead hlast

theorem eq_of_aboutToTake_reseedLoop (explicit : Bool) (fuel : ℕ) : ∀ (reseeded : ℕ → Bool) (x : ℕ),
    AboutToTake .upload fid (Store.reseedLoop new explicit fuel reseeded x) → fid = x := by
  induction fuel with
  | zero => exact fun _ _ h => h.elim
  | succ fuel ih =>
    intro reseeded x hahead
    by_contra hne
    revert hahead
    refine Prog.not_ahead_bind (Prog.not_ahead_stmt id fun _ _ => id) fun taken => ?_
    cases taken with
    | false => exact id
    | true =>
      show ¬ Prog.Ahead _ _ _ (ite _ _ _)
      split_ifs
      · exact id
      · exact not_aboutToTake_reseed (fun _ => id) id (fun y => ih _ y) hne _

theorem not_aboutToTake_registerTempfile (expFid : Option ℤ) (fuel : ℕ) (reseeded : ℕ → Bool) :
    ¬ AboutToTake .upload fid (Store.registerTempfile new expFid fuel reseeded) :=
  not_aboutToTake_insTempfile (fun _ => id) id (fun x => eq_of_aboutToTake_reseedLoop _ fuel _ x) _ _

theorem orderly_createOpen (env : CreateOpenEnv) (args : Args) : Orderly (cmdCreateOpen env args) := by
  refine orderly_of_takesFrom [.upload] (by decide) ?_ fun c hc fid _ => ?_
  · exact issues_of_registerStmts env args fun _ _ =>
      ⟨fun _ _ _ => trivial, fun _ => List.mem_cons_self, trivial, fun _ => trivial⟩
  obtain rfl := List.mem_singleton.mp hc
  unfold cmdCreateOpen
  split
  · exact id
  · exact id
  split
  · exact id
  · exact id
  extract_lets
  split
  · exact id
  · refine Prog.not_ahead_bind (not_aboutToTake_registerTempfile _ _ _) fun registered => ?_
    split <;> exact id

end CreateOpen

/-! ### Reaping, replicating, rebalancing -/

theorem orderly_reapDevice (now : ℕ) (lock : ℕ → Option Bool) (devid : ℕ) :
    Orderly (Worker.Reaper.reapDevice now lock devid) := by
  have hfids : ∀ fids, (Worker.Reaper.reapFids now lock devid fids).Issues (Stmt.TakesFrom []) := by
    intro fids
    induction fids with
    | nil => exact trivial
    | cons fid fids ih =>
      refine Prog.Issues.bind ?_ fun _ => ih
      exact ⟨trivial, fun _ => ⟨trivial, fun _ =>
        (issues_updateDevcountAtomic (fun _ => trivial) (fun _ _ => trivial) _ _).bind fun _ => trivial⟩⟩
  refine orderly_of_takesFrom [] (by decide) ⟨trivial, fun fids => ?_⟩ fun c hc => absurd hc List.not_mem_nil
  cases fids with
  | nil => exact trivial
  | cons fid fids => exact (hfids _).bind fun _ => trivial

section Replicate

theorem recordsOnly_copyLoop (devs : DeviceMap) (fid : ℕ) (opts : ReplOpts) (cls : ReplClass) (onUpDevid : List ℕ)
    (fuel : ℕ) : ∀ (rounds : ℕ → Round) (st : CopyState),
      (copyLoop devs fid opts cls onUpDevid fuel rounds st).Issues (Stmt.RecordsOnly fid) := by
  induction fuel with
  | zero => exact fun _ _ => trivial
  | succ fuel ih =>
    intro rounds st
    unfold copyLoop
    split
    · exact trivial
    · exact ih _ _
    · refine Prog.Issues.bind ⟨fun row hrow => ?_, fun _ => ?_⟩ fun _ => ih _ _
      · rw [List.mem_singleton.mp hrow]
      · show Prog.Issues _ (ite _ _ _)
        split_ifs
        · exact ⟨trivial, fun _ => ⟨trivial, fun _ => trivial⟩⟩
        · exact trivial

variable (devs : DeviceMap) (classOf : FileRow → Option ReplClass) (out : Outcomes) (fid : ℕ) (opts : ReplOpts)

theorem recordsOnly_replicate (loaded : Option FileRow) :
    (replicate devs classOf out fid loaded opts).Issues (Stmt.RecordsOnly fid) := by
  unfold replicate
  split
  · exact trivial
  · exact trivial
  extract_lets onRow
  have hrow : ∀ row, (onRow row).Issues (Stmt.RecordsOnly fid) := by
    intro row
    simp only [onRow]
    split
    · exact trivial
    split
    · exact trivial
    refine (issues_sql trivial).bind fun devids => ?_
    split
    · exact trivial
    · unfold replicateOn
      extract_lets
      split_ifs
      · exact trivial
      · exact trivial
      · exact trivial
      · exact recordsOnly_copyLoop _ _ _ _ _ _ _ _
  cases loaded with
  | some row => exact hrow (some row)
  | none => exact ⟨trivial, hrow⟩

theorem not_aboutToRecord_replicate (x : ℕ) : ¬ AboutToRecord x (replicate devs classOf out fid none opts) := by
  by_cases hx : x = fid
  · subst hx
    unfold replicate
    split
    · exact id
    · exact id
    refine Prog.not_ahead_stmt id fun db hnot => ?_
    revert hnot
    rcases (Stmt.run (.selectFile x) db).1 with _ | row
    · exact fun _ => id
    · exact fun hnot => absurd ⟨rfl, Option.some_ne_none row⟩ hnot
  · exact (recordsOnly_replicate devs classOf out fid opts none).not_ahead fun _ hs => hs.not_records hx

theorem recordsOnly_settle (env : Worker.Replicate.QueueEnv) (todo : ToReplicateRow) (result : ReplResult) (x : ℕ) :
    (Worker.Replicate.settle env todo result).Issues (Stmt.RecordsOnly x) := by
  unfold Worker.Replicate.settle
  split
  · exact trivial
  · exact trivial
  · exact trivial
  · exact ⟨trivial, fun _ => trivial⟩
  · exact ⟨trivial, fun _ => trivial⟩
  · exact ⟨trivial, fun _ => trivial⟩

theorem not_aboutToRecord_of_recordsOnly {α : Type} {p : DbProg α} (h : ∀ x, p.Issues (Stmt.RecordsOnly x)) (x : ℕ) :
    ¬ AboutToRecord x p :=
  (h (x + 1)).not_ahead fun _ hs => hs.not_records (Nat.ne_of_lt (Nat.lt_succ_self x))

theorem orderly_replicateUsingToreplTable (env : Worker.Replicate.QueueEnv) :
    Orderly (Worker.Replicate.replicateUsingToreplTable env) := by
  have htodo : ∀ todo, (Worker.Replicate.replicateTodo env todo).Issues Stmt.TakesNothing ∧
      ∀ x, ¬ AboutToRecord x (Worker.Replicate.replicateTodo env todo) := by
    intro todo
    unfold Worker.Replicate.replicateTodo
    split_ifs
    · exact ⟨trivial, fun _ => id⟩
    refine ⟨?_, fun x => Prog.not_ahead_bind (not_aboutToRecord_replicate _ _ _ _ _ x) fun result => ?_⟩
    · exact ((recordsOnly_replicate _ _ _ _ _ _).bind fun result =>
        recordsOnly_settle env todo result _).mono fun _ hs => hs.takesNothing
    · exact not_aboutToRecord_of_recordsOnly (recordsOnly_settle env todo result) x
  have htodos : ∀ todos, (Worker.Replicate.replicateTodos env todos).Issues Stmt.TakesNothing ∧
      ∀ x, ¬ AboutToRecord x (Worker.Replicate.replicateTodos env todos) := by
    intro todos
    induction todos with
    | nil => exact ⟨trivial, fun _ => id⟩
    | cons todo todos ih =>
      refine ⟨(htodo todo).1.bind fun lives => ?_, fun x => Prog.not_ahead_bind ((htodo todo).2 x) fun lives => ?_⟩
      · cases lives with
        | false => exact trivial
        | true => exact ih.1
      · cases lives with
        | false => exact id
        | true => exact ih.2 x
  refine orderly_of_takesNothing ⟨trivial, fun toRepl => ?_⟩ fun x => Prog.not_ahead_stmt id fun db _ => ?_
  · cases toRepl with
    | nil => exact trivial
    | cons todo todos =>
      refine (htodos _).1.bind fun lives => ?_
      cases lives <;> exact trivial
  · rcases (Stmt.run (.selectFilesToReplicate env.now _) db).1 with _ | ⟨todo, todos⟩
    · exact id
    · show ¬ Prog.Ahead _ _ _ (Worker.Replicate.replicateTodos env (env.order (todo :: todos)) >>= _)
      refine Prog.not_ahead_bind ((htodos _).2 x) fun lives => ?_
      cases lives <;> exact id

theorem recordsOnly_destroy (devid x : ℕ) : (destroy out fid devid).Issues (Stmt.RecordsOnly x) := by
  unfold destroy
  split_ifs
  · exact ⟨trivial, fun _ => ⟨trivial, fun _ => ⟨trivial, fun _ => trivial⟩⟩⟩
  · exact trivial

theorem recordsOnly_afterReplicate (devid : ℕ) (result : ReplResult) (x : ℕ) :
    (afterReplicate out fid devid result).Issues (Stmt.RecordsOnly x) := by
  unfold afterReplicate
  split
  · exact trivial
  · exact trivial
  · exact trivial
  · refine ⟨trivial, fun devids => ?_⟩
    show Prog.Issues _ (ite _ _ _)
    split_ifs
    · refine (issues_sql trivial).bind fun testDevids => ?_
      split
      · exact trivial
      · exact recordsOnly_destroy out fid devid x
      · exact trivial
    · exact trivial
  · exact recordsOnly_destroy out fid devid x

theorem orderly_rebalanceDevfid (devid : ℕ) (avoidDevids : List ℕ) :
    Orderly (rebalanceDevfid devs classOf out fid devid avoidDevids) := by
  have hrow : ∀ row, (replicate devs classOf out fid (some row) ⟨none, [devid], avoidDevids⟩ >>=
      afterReplicate out fid devid).Issues (Stmt.RecordsOnly fid) := fun row =>
    (recordsOnly_replicate devs classOf out fid _ (some row)).bind fun result =>
      recordsOnly_afterReplicate out fid devid result fid
  unfold rebalanceDevfid
  split_ifs
  · exact orderly_ret _
  refine orderly_of_takesNothing ⟨trivial, fun row => ?_⟩ fun x => Prog.not_ahead_stmt id fun db hnot => ?_
  · cases row with
    | none => exact trivial
    | some row => exact (hrow row).mono fun _ hs => hs.takesNothing
  · revert hnot
    rcases (Stmt.run (.selectFile fid) db).1 with _ | row
    · exact fun _ => id
    · intro hnot
      have hne : x ≠ fid := fun heq => hnot ⟨heq.symm, Option.some_ne_none row⟩
      exact (hrow row).not_ahead fun _ hs => hs.not_records hne

end Replicate

/-! ### The delete worker -/

section Delete

open Worker.Delete

variable (env : DeleteEnv)

theorem takesFrom_rescheduleFid (now fid secs : ℕ) : (rescheduleFid now fid secs).Issues (Stmt.TakesFrom [.doomed]) :=
  ⟨trivial, fun _ => ⟨List.mem_cons_self, fun _ => trivial⟩⟩

theorem not_aboutToTake_rescheduleFid (now fid secs x : ℕ) : ¬ AboutToTake .doomed x (rescheduleFid now fid secs) := by
  refine Prog.not_ahead_stmt id fun _ hx => ?_
  exact Prog.not_ahead_stmt (fun h => hx ⟨by decide, h.2⟩) fun _ _ => id

theorem takesFrom_processDelete (fid : ℕ) (devid : Option ℕ) :
    (processDelete env fid devid).Issues (Stmt.TakesFrom [.doomed]) := by
  have hreschedule : ∀ secs, (rescheduleFid env.now fid secs >>= fun _ =>
      (pure (some ()) : DbProg (Option Unit))).Issues (Stmt.TakesFrom [.doomed]) :=
    fun secs => (takesFrom_rescheduleFid env.now fid secs).bind fun _ => trivial
  unfold processDelete
  split
  · exact ⟨List.mem_cons_self, fun _ => trivial⟩
  split
  · exact ⟨trivial, fun _ => trivial⟩
  split_ifs
  · exact ⟨trivial, fun _ => trivial⟩
  · exact hreschedule _
  · exact hreschedule _
  unfold deleteOn
  split
  · exact trivial
  · exact trivial
  split
  · exact hreschedule _
  · split_ifs
    · exact ⟨trivial, fun _ => trivial⟩
    · exact hreschedule _
  · exact trivial

/-- The row of a fid goes if the fid has no replicas, or has been put off. -/
theorem eq_none_of_aboutToTake_processDelete {fid x : ℕ} {devid : Option ℕ}
    (h : AboutToTake .doomed x (processDelete env fid devid)) : x = fid ∧ devid = none := by
  have hreschedule : ∀ secs, ¬ AboutToTake .doomed x (rescheduleFid env.now fid secs >>= fun _ =>
      (pure (some ()) : DbProg (Option Unit))) :=
    fun secs => Prog.not_ahead_bind (not_aboutToTake_rescheduleFid env.now fid secs x) fun _ => id
  have hforget : ∀ devid, ¬ AboutToTake .doomed x (sql (.deleteFileOn fid devid) >>= fun _ =>
      (pure (some ()) : DbProg (Option Unit))) := fun _ => Prog.not_ahead_stmt id fun _ _ => id
  cases devid with
  | none =>
    rcases h with htakes | ⟨db, -, hahead⟩
    · exact ⟨htakes.2.symm, rfl⟩
    · exact hahead.elim
  | some devid =>
    exfalso
    revert h
    unfold processDelete
    dsimp only
    split
    · exact hforget devid
    split_ifs
    · exact hforget devid
    · exact hreschedule _
    · exact hreschedule _
    unfold deleteOn
    split
    · exact id
    · exact id
    split
    · exact hreschedule _
    · split_ifs
      · exact hforget _
      · exact hreschedule _
    · exact id

theorem takesFrom_processRows (rows : List (ℕ × Option ℕ)) :
    (processRows env rows).Issues (Stmt.TakesFrom [.doomed]) := by
  induction rows with
  | nil => exact trivial
  | cons row rows ih =>
    refine (takesFrom_processDelete env row.1 row.2).bind fun settled => ?_
    cases settled with
    | none => exact trivial
    | some settled => exact ih

theorem mem_of_aboutToTake_processRows {x : ℕ} (rows : List (ℕ × Option ℕ))
    (h : AboutToTake .doomed x (processRows env rows)) : (x, none) ∈ rows := by
  induction rows with
  | nil => exact h.elim
  | cons row rows ih =>
    obtain ⟨fid, devid⟩ := row
    rcases Prog.Ahead.of_bind h with h | ⟨settled, h⟩
    · obtain ⟨rfl, rfl⟩ := eq_none_of_aboutToTake_processDelete env h
      exact List.mem_cons_self
    · cases settled with
      | none => exact h.elim
      | some settled => exact List.mem_cons_of_mem _ (ih h)

theorem orderly_processDeletes : Orderly (processDeletes env) := by
  refine orderly_of_takesFrom [.doomed] (by decide) ⟨trivial, fun delmap => ?_⟩ fun c hc x _ => ?_
  · cases delmap with
    | nil => exact trivial
    | cons row rows => exact takesFrom_processRows env _
  obtain rfl := List.mem_singleton.mp hc
  refine Prog.not_ahead_stmt id fun db hnot => ?_
  revert hnot
  rcases (Stmt.run (.selectDeletes deleteLimit) db).1 with _ | ⟨row, rows⟩
  · exact fun _ => id
  · intro hnot hahead
    have hmem := mem_of_aboutToTake_processRows env _ hahead
    exact hnot ((env.shuffle_perm _).mem_iff.mp (List.mem_of_mem_take hmem))

theorem orderly_reenqueueDelayedDeletes (now : ℕ) : Orderly (reenqueueDelayedDeletes now) := by
  refine orderly_of_takesFrom [.delayed] (by decide) ⟨trivial, fun fidids => ?_⟩ fun c hc x _ => ?_
  · cases fidids with
    | nil => exact trivial
    | cons fid fids => exact ⟨trivial, fun _ => ⟨List.mem_cons_self, fun _ => trivial⟩⟩
  obtain rfl := List.mem_singleton.mp hc
  refine Prog.not_ahead_stmt id fun db _ => ?_
  rcases (Stmt.run (.selectDeletesAgain now) db).1 with _ | ⟨fid, fids⟩
  · exact id
  · refine Prog.not_ahead_stmt id fun _ hnot => ?_
    exact Prog.not_ahead_stmt (fun h => hnot ⟨by decide, h.2⟩) fun _ _ => id

end Delete

/-! ### Closing an upload -/

section Close

variable {α : Type} (env : QueryEnv) (args : Args) (dmid : ℕ) (key path : Text) (trow : TempfileRow) (dev : Device)

/-- A statement that neither takes nor records nor names. -/
def Stmt.Neutral : Stmt → Prop
  | .deleteFile _ | .deleteTempfiles _ | .deleteFileToDelete _ | .deleteDeleteLater _ | .insertFileOn _
  | .replaceFile _ | .selectFileByName _ _ | .renameFile _ _ => False
  | _ => True

theorem tidy_of_neutral {s : Stmt} {k : s.Res → DbProg α} (h : s.Neutral) : Tidy s k := by
  constructor
  · intro r c d fid htakes
    cases s <;> first | exact htakes.elim | exact h.elim
  · intro r c fid hrecords
    cases s <;> first | exact hrecords.elim | exact h.elim
  · intro r c fid htakes
    cases s <;> first | exact htakes.elim | exact h.elim
  · intro r fid name hnames
    cases s <;> first | exact hnames.elim | exact h.elim

theorem tidy_insertFileOn {rows : List (ℕ × ℕ)} {k : ℕ → DbProg α}
    (h : ∀ r c fid, c ≠ .file → ¬ AboutToTake c fid (k r)) : Tidy (.insertFileOn rows) k where
  takes _ _ _ _ htakes := htakes.elim
  records r c fid _ hfile := h r c fid hfile
  covers _ _ _ htakes := htakes.elim
  names _ _ _ hnames := hnames.elim

theorem tidy_deleteTempfiles {fids : List ℕ} {k : Unit → DbProg α}
    (htakes : ∀ c fid, c ≠ .file → c ≠ .upload → ¬ AboutToTake c fid (k ()))
    (hrecords : ∀ fid ∈ fids, ¬ AboutToRecord fid (k ())) : Tidy (.deleteTempfiles fids) k where
  takes _ c _ fid h hfile hne _ := htakes c fid hfile (h.1 ▸ hne)
  records _ _ _ h := h.elim
  covers _ _ fid h := hrecords fid h.2
  names _ _ _ h := h.elim

theorem tidy_deleteFile {x : ℕ} {k : Unit → DbProg α}
    (htakes : ∀ c, c ≠ .file → c ≠ .upload → ¬ AboutToTake c x (k ()))
    (hrecords : ¬ AboutToRecord x (k ())) : Tidy (.deleteFile x) k where
  takes _ c _ _ h hfile _ hens := h.2 ▸ htakes c hfile fun hc => hens ⟨hc, h.2⟩
  records _ _ _ h := h.elim
  covers _ _ _ h := h.2 ▸ hrecords
  names _ _ _ h := h.elim

theorem tidy_deleteFidid {f : Unit → DbProg α} (fid : ℕ)
    (htakes : ∀ c x, c ≠ .file → c ≠ .upload → ¬ AboutToTake c x (f ())) (hf : (f ()).Along Stmt.run Tidy) :
    (Store.deleteFidid fid >>= f).Along Stmt.run Tidy := by
  have hdoom : ¬ AboutToRecord fid (sql (.insertFileToDelete [fid]) >>= f) :=
    Prog.not_ahead_stmt id fun _ hnot => absurd (List.mem_singleton_self fid) hnot
  have hrest : ∀ c x, c ≠ .file → c ≠ .upload → ¬ AboutToTake c x (sql (.insertFileToDelete [fid]) >>= f) :=
    fun c x hfile hupload => Prog.not_ahead_stmt id fun _ _ => htakes c x hfile hupload
  refine ⟨tidy_deleteFile (fun c hfile hupload => ?_) ?_, fun _ => ⟨tidy_deleteTempfiles hrest fun x hx => ?_,
    fun _ => ⟨tidy_of_neutral trivial, fun _ => hf⟩⟩⟩
  · exact Prog.not_ahead_stmt (fun h => hupload h.1) fun _ _ => hrest c fid hfile hupload
  · exact Prog.not_ahead_stmt id fun _ _ => hdoom
  · rwa [List.mem_singleton.mp hx]

theorem tidy_addToDb (lock : Option Bool) (fid devid : ℕ) {f : Bool → DbProg α}
    (htakes : ∀ a c x, c ≠ .file → ¬ AboutToTake c x (f a)) (hf : ∀ a, (f a).Along Stmt.run Tidy) :
    (addToDb lock fid devid >>= f).Along Stmt.run Tidy := by
  have hcount : ∀ P : Stmt → Prop, (∀ x, P (.countFileOn x)) → (∀ x ct, P (.updateDevcount x ct)) → ∀ new : Bool,
      (if new then Store.updateDevcountAtomic lock fid else pure true).Issues P := by
    intro P hcount hupdate new
    split_ifs
    · exact issues_updateDevcountAtomic hcount hupdate lock fid
    · exact trivial
  refine ⟨tidy_insertFileOn fun r c x hfile => ?_, fun db => ?_⟩
  · refine Prog.not_ahead_bind (Prog.Issues.not_ahead (hcount (fun s => ¬ s.Takes c x) (fun _ => id) (fun _ _ => id) _)
      fun _ => id) fun a => htakes a c x hfile
  · exact Prog.Along.bind (hcount Stmt.Neutral (fun _ => trivial) (fun _ _ => trivial) _)
      (fun _ _ hs => tidy_of_neutral hs) hf

/-- The statements of a close of the upload under the name. -/
def Stmt.ClosesAs (upload : ℕ) (name : ℕ × Text) : Stmt → Prop
  | .insertFileOn rows => ∀ row ∈ rows, row.1 = upload
  | .replaceFile row => row.name = name
  | .countFileOn _ | .updateDevcount _ _ | .insertFileToReplicate _ | .selectFileByName _ _ | .deleteFile _
  | .deleteTempfiles _ | .insertFileToDelete _ => True
  | _ => False

theorem Stmt.ClosesAs.eq_of_records {upload : ℕ} {name : ℕ × Text} {s : Stmt} (h : s.ClosesAs upload name) {x : ℕ}
    (hrecords : s.Records x) : x = upload := by
  cases s
  case insertFileOn rows =>
    obtain ⟨row, hrow, rfl⟩ := hrecords
    exact h row hrow
  all_goals exact hrecords.elim

theorem Stmt.ClosesAs.eq_of_replaces {upload : ℕ} {name name' : ℕ × Text} {s : Stmt} (h : s.ClosesAs upload name)
    (hreplaces : s.Replaces name') : name' = name := by
  cases s
  case replaceFile row => exact hreplaces.symm.trans h
  all_goals exact hreplaces.elim

theorem closesAs_addToDb (lock : Option Bool) (fid devid : ℕ) (name : ℕ × Text) :
    (addToDb lock fid devid).Issues (Stmt.ClosesAs fid name) := by
  refine ⟨fun row hrow => congrArg Prod.fst (List.mem_singleton.mp hrow), fun new => ?_⟩
  show Prog.Issues _ (ite _ _ _)
  split_ifs
  · exact issues_updateDevcountAtomic (fun _ => trivial) (fun _ _ => trivial) lock fid
  · exact trivial

theorem takesFrom_afterCommit (lock : Option Bool) (fid devid : ℕ) :
    (afterCommit lock fid devid).Issues (Stmt.TakesFrom [.upload]) :=
  ⟨trivial, fun _ => ⟨List.mem_cons_self, fun _ =>
    (issues_updateDevcountAtomic (fun _ => trivial) (fun _ _ => trivial) lock fid).bind fun _ => trivial⟩⟩

theorem eq_of_aboutToTake_afterCommit {lock : Option Bool} {fid devid x : ℕ} {c : Cover}
    (h : AboutToTake c x (afterCommit lock fid devid)) : x = fid := by
  by_contra hne
  revert h
  refine Prog.not_ahead_stmt id fun _ _ => ?_
  refine Prog.not_ahead_stmt (fun h => hne (List.mem_singleton.mp h.2)) fun _ _ => ?_
  have hcount : (Store.updateDevcountAtomic lock fid).Issues fun s => ¬ s.Takes c x :=
    issues_updateDevcountAtomic (fun _ => id) (fun _ _ => id) lock fid
  show ¬ Prog.Ahead _ _ _ (Store.updateDevcountAtomic lock fid >>= _)
  exact Prog.not_ahead_bind (hcount.not_ahead fun _ => id) fun _ => id

theorem not_aboutToTake_addToDb {c : Cover} {x : ℕ} (lock : Option Bool) (fid devid : ℕ) :
    ¬ AboutToTake c x (addToDb lock fid devid) :=
  (issues_addToDb (P := fun s => ¬ s.Takes c x) (fun _ => id) (fun _ => id) (fun _ _ => id) lock fid devid).not_ahead
    fun _ => id

theorem not_aboutToTake_commitClose {c : Cover} {x : ℕ} :
    ¬ AboutToTake c x (commitClose env args dmid key path trow dev) := by
  rcases commitClose_eq env args dmid key path trow dev with ⟨o, heq⟩ | ⟨row, hfid, -, heq⟩
  · rw [heq]
    exact id
  rw [heq]
  refine Prog.not_ahead_bind (not_aboutToTake_addToDb _ _ _) fun _ => Prog.not_ahead_stmt id fun _ hnot hahead => ?_
  exact hnot (hfid.trans (eq_of_aboutToTake_afterCommit hahead).symm)

theorem closesAs_commitClose :
    (commitClose env args dmid key path trow dev).Issues (Stmt.ClosesAs trow.fid (dmid, key)) := by
  rcases commitClose_eq env args dmid key path trow dev with ⟨o, heq⟩ | ⟨row, -, hname, heq⟩
  · rw [heq]
    exact trivial
  rw [heq]
  refine Prog.Issues.bind (closesAs_addToDb _ _ _ _) fun _ =>
    ⟨hname, fun _ => ⟨trivial, fun _ => ⟨trivial, fun _ => ?_⟩⟩⟩
  exact (issues_updateDevcountAtomic (fun _ => trivial) (fun _ _ => trivial) _ _).bind fun _ => trivial

theorem tidy_afterCommit (lock : Option Bool) (fid devid : ℕ) : (afterCommit lock fid devid).Along Stmt.run Tidy := by
  have hcount : ∀ {P : Stmt → Prop}, (∀ x, P (.countFileOn x)) → (∀ x ct, P (.updateDevcount x ct)) →
      (Store.updateDevcountAtomic lock fid >>= fun stored =>
        (pure (if stored then .ok [] else .err "db_error") : DbProg Outcome)).Issues P := fun hcount hupdate =>
    (issues_updateDevcountAtomic hcount hupdate lock fid).bind fun _ => trivial
  refine ⟨tidy_of_neutral trivial, fun _ => ⟨tidy_deleteTempfiles (fun c x _ _ => ?_) fun x _ => ?_, fun _ => ?_⟩⟩
  · exact (hcount (P := fun s => ¬ s.Takes c x) (fun _ => id) fun _ _ => id).not_ahead fun _ => id
  · exact (hcount (P := fun s => ¬ s.Records x) (fun _ => id) fun _ _ => id).not_ahead fun _ => id
  · exact (hcount (P := Stmt.Neutral) (fun _ => trivial) fun _ _ => trivial).along fun _ _ hs _ => tidy_of_neutral hs

theorem tidy_commitClose : (commitClose env args dmid key path trow dev).Along Stmt.run Tidy := by
  rcases commitClose_eq env args dmid key path trow dev with ⟨o, heq⟩ | ⟨row, hfid, -, heq⟩
  · rw [heq]
    exact trivial
  rw [heq]
  refine tidy_addToDb _ _ _ (fun _ c x _ => Prog.not_ahead_stmt id fun _ hnot hahead => ?_) fun _ =>
    ⟨⟨fun _ _ _ _ h => h.elim, fun _ _ _ h => h.elim, fun _ _ _ h => h.elim, fun _ _ name _ => ?_⟩, fun _ =>
      tidy_afterCommit _ _ _⟩
  · exact hnot (hfid.trans (eq_of_aboutToTake_afterCommit hahead).symm)
  · exact (takesFrom_afterCommit _ _ _).not_ahead fun _ hs => hs.not_replaces name

theorem not_aboutToTake_closeTempfile {c : Cover} {x : ℕ} (hc : c ≠ .file) :
    ¬ AboutToTake c x (closeTempfile env args dmid path trow dev) := by
  have hdelete : ¬ AboutToTake c x (addToDb env.addLock trow.fid dev.devid >>= fun _ =>
      Store.deleteFidid trow.fid >>= fun _ => pure (Outcome.ok [])) :=
    Prog.not_ahead_bind (not_aboutToTake_addToDb _ _ _) fun _ => not_aboutToTake_deleteFidid hc id
  unfold closeTempfile
  split
  · exact hdelete
  · exact hdelete
  refine Prog.not_ahead_stmt id fun db _ => ?_
  rcases (Stmt.run (.selectFileByName dmid _) db).1 with _ | old
  · exact not_aboutToTake_commitClose env args dmid _ path trow dev
  · show ¬ Prog.Ahead _ _ _ (ite _ _ _)
    split_ifs
    · exact id
    · exact not_aboutToTake_deleteFidid hc (not_aboutToTake_commitClose env args dmid _ path trow dev)

theorem closesAs_deleteFidid (upload fid : ℕ) (name : ℕ × Text) :
    (Store.deleteFidid fid).Issues (Stmt.ClosesAs upload name) :=
  ⟨trivial, fun _ => ⟨trivial, fun _ => ⟨trivial, fun _ => trivial⟩⟩⟩

/-- A close records replicas of its upload only. -/
theorem eq_of_aboutToRecord_closeTempfile {x : ℕ}
    (h : AboutToRecord x (closeTempfile env args dmid path trow dev)) : x = trow.fid := by
  have hissues : (closeTempfile env args dmid path trow dev).Issues fun s => ∀ x, s.Records x → x = trow.fid := by
    have hdelete : (addToDb env.addLock trow.fid dev.devid >>= fun _ => Store.deleteFidid trow.fid >>= fun _ =>
        pure (Outcome.ok [])).Issues (Stmt.ClosesAs trow.fid (dmid, [])) :=
      Prog.Issues.bind (closesAs_addToDb _ _ _ _) fun _ => Prog.Issues.bind (closesAs_deleteFidid _ _ _) fun _ => trivial
    unfold closeTempfile
    split
    · exact hdelete.mono fun _ hs _ => hs.eq_of_records
    · exact hdelete.mono fun _ hs _ => hs.eq_of_records
    rename_i key _ _
    refine Prog.Issues.mono (P := Stmt.ClosesAs trow.fid (dmid, key)) ⟨trivial, fun old => ?_⟩
      fun _ hs _ => hs.eq_of_records
    cases old with
    | none => exact closesAs_commitClose env args dmid key path trow dev
    | some old =>
      show Prog.Issues _ (ite _ _ _)
      split_ifs
      · exact trivial
      · exact Prog.Issues.bind (closesAs_deleteFidid _ _ _) fun _ =>
          closesAs_commitClose env args dmid key path trow dev
  by_contra hne
  exact hissues.not_ahead (fun s hs hrecords => hne (hs x hrecords)) h

/-- A close looks the name up before it commits. -/
theorem not_aboutToReplace_closeTempfile (x : ℕ) (name : ℕ × Text) :
    ¬ AboutToReplace x name (closeTempfile env args dmid path trow dev) := by
  have hdelete : ¬ AboutToReplace x name (addToDb env.addLock trow.fid dev.devid >>= fun _ =>
      Store.deleteFidid trow.fid >>= fun _ => pure (Outcome.ok [])) := by
    have hadd : (addToDb env.addLock trow.fid dev.devid).Issues fun s => ¬ s.Replaces name :=
      issues_addToDb (fun _ => id) (fun _ => id) (fun _ _ => id) _ _ _
    refine Prog.not_ahead_bind (hadd.not_ahead fun _ => id) fun _ => Prog.not_ahead_bind ?_ fun _ => id
    exact (takesFrom_deleteFidid trow.fid).not_ahead fun _ hs => hs.not_replaces name
  unfold closeTempfile
  split
  · exact hdelete
  · exact hdelete
  rename_i key _ _
  refine Prog.not_ahead_stmt id fun db hother => ?_
  have hcommit : ¬ AboutToReplace x name (commitClose env args dmid key path trow dev) :=
    (closesAs_commitClose env args dmid key path trow dev).not_ahead fun _ hs hreplaces =>
      hother (hs.eq_of_replaces hreplaces).symm
  rcases (Stmt.run (.selectFileByName dmid key) db).1 with _ | old
  · exact hcommit
  · show ¬ Prog.Ahead _ _ _ (ite _ _ _)
    split_ifs
    · exact id
    · refine Prog.not_ahead_bind ?_ fun _ => hcommit
      exact (takesFrom_deleteFidid old.fid).not_ahead fun _ hs => hs.not_replaces name

theorem tidy_closeTempfile : (closeTempfile env args dmid path trow dev).Along Stmt.run Tidy := by
  have hdelete : (addToDb env.addLock trow.fid dev.devid >>= fun _ => Store.deleteFidid trow.fid >>= fun _ =>
      pure (Outcome.ok [])).Along Stmt.run Tidy :=
    tidy_addToDb _ _ _ (fun _ _ _ hc => not_aboutToTake_deleteFidid hc id) fun _ =>
      tidy_deleteFidid _ (fun _ _ _ _ => id) trivial
  unfold closeTempfile
  split
  · exact hdelete
  · exact hdelete
  rename_i key _ _
  refine ⟨⟨fun _ _ _ _ h => h.elim, fun _ _ _ h => h.elim, fun _ _ _ h => h.elim, ?_⟩, fun db => ?_⟩
  · -- the file that has the name is deleted before the commit
    rintro row fid name ⟨hfid, rfl⟩
    obtain ⟨old, rfl, rfl⟩ := Option.map_eq_some_iff.mp hfid
    show ¬ Prog.Ahead _ _ _ (ite _ _ _)
    split_ifs
    · exact id
    · exact Prog.not_ahead_stmt id fun _ hnot => absurd rfl hnot
  rcases (Stmt.run (.selectFileByName dmid key) db).1 with _ | old
  · exact tidy_commitClose env args dmid key path trow dev
  · show Prog.Along _ _ (ite _ _ _)
    split_ifs
    · exact trivial
    · exact tidy_deleteFidid _ (fun _ _ _ _ => not_aboutToTake_commitClose env args dmid key path trow dev)
        (tidy_commitClose env args dmid key path trow dev)

end Close

theorem orderly_createClose (env : QueryEnv) (args : Args) : Orderly (cmdCreateClose env args) := by
  rcases cmdCreateClose_eq env args with ⟨o, heq⟩ | ⟨fid, dmid, path, dev, heq⟩
  · rw [heq]
    exact orderly_ret o
  rw [heq]
  refine ⟨⟨tidy_of_neutral trivial, fun db => ?_⟩, fun c x hc => Prog.not_ahead_stmt id fun db _ => ?_,
    fun x => Prog.not_ahead_stmt id fun db hnot => ?_, fun x name => Prog.not_ahead_stmt id fun db _ => ?_⟩
  · rcases (Stmt.run (.selectTempfile fid) db).1 with _ | trow
    · exact trivial
    · exact tidy_closeTempfile env args dmid path trow dev
  · rcases (Stmt.run (.selectTempfile fid) db).1 with _ | trow
    · exact id
    · exact not_aboutToTake_closeTempfile env args dmid path trow dev hc
  · revert hnot
    rcases (Stmt.run (.selectTempfile fid) db).1 with _ | trow
    · exact fun _ => id
    · exact fun hnot hahead =>
        hnot (congrArg some (eq_of_aboutToRecord_closeTempfile env args dmid path trow dev hahead).symm)
  · rcases (Stmt.run (.selectTempfile fid) db).1 with _ | trow
    · exact id
    · exact not_aboutToReplace_closeTempfile env args dmid path trow dev x name

/-! ### Cleaning up old uploads -/

section Cleanup

open Worker.Delete

theorem not_aboutToTake_massInsertFileOn {c : Cover} {x : ℕ} (devfids : List (ℕ × Text)) :
    ¬ AboutToTake c x (massInsertFileOn devfids) :=
  (issues_massInsertFileOn (P := fun s => ¬ s.Takes c x) (fun _ => id) devfids).not_ahead fun _ => id

theorem tidy_massInsertFileOn {α : Type} {f : Option Unit → DbProg α} (devfids : List (ℕ × Text))
    (htakes : ∀ c x, c ≠ .file → ¬ AboutToTake c x (f (some ()))) (hf : ∀ r, (f r).Along Stmt.run Tidy) :
    (massInsertFileOn devfids >>= f).Along Stmt.run Tidy := by
  unfold massInsertFileOn
  split_ifs
  · exact hf _
  · exact hf _
  · exact ⟨tidy_insertFileOn fun _ c x hc => htakes c x hc, fun _ => hf _⟩

theorem not_aboutToTake_enqueueCollected {c : Cover} {x : ℕ} (collected : Option (List (ℕ × Text) × List ℕ)) :
    ¬ AboutToTake c x (enqueueCollected collected) := by
  rcases collected with _ | ⟨devfids, fidids⟩
  · exact id
  refine Prog.not_ahead_bind (not_aboutToTake_massInsertFileOn devfids) fun inserted => ?_
  cases inserted with
  | none => exact id
  | some inserted =>
    show ¬ Prog.Ahead _ _ _ (ite _ _ _)
    split_ifs
    · exact id
    refine Prog.not_ahead_stmt id fun _ hnot => Prog.not_ahead_stmt (fun h => hnot ⟨?_, h.2⟩) fun _ _ => id
    exact fun hc => nomatch h.1.symm.trans hc

theorem tidy_enqueueCollected (collected : Option (List (ℕ × Text) × List ℕ)) :
    (enqueueCollected collected).Along Stmt.run Tidy := by
  rcases collected with _ | ⟨devfids, fidids⟩
  · exact trivial
  refine tidy_massInsertFileOn devfids (fun c x _ => ?_) fun inserted => ?_
  · show ¬ Prog.Ahead _ _ _ (ite _ _ _)
    split_ifs
    · exact id
    refine Prog.not_ahead_stmt id fun _ hnot => Prog.not_ahead_stmt (fun h => hnot ⟨?_, h.2⟩) fun _ _ => id
    exact fun hc => nomatch h.1.symm.trans hc
  · cases inserted with
    | none => exact trivial
    | some inserted =>
      show Prog.Along _ _ (ite _ _ _)
      split_ifs
      · exact trivial
      · exact ⟨tidy_of_neutral trivial, fun _ => ⟨tidy_deleteTempfiles (fun _ _ _ _ => id) fun _ _ => id,
          fun _ => trivial⟩⟩

/-- A cleanup records replicas of the fids that it has collected, or has still to look at. -/
theorem mem_of_aboutToRecord_enqueueCollected {x : ℕ} {devfids : List (ℕ × Text)} {fidids : List ℕ}
    (h : AboutToRecord x (enqueueCollected (some (devfids, fidids)))) : x ∈ devfids.map Prod.fst := by
  by_contra hnot
  revert h
  refine Prog.not_ahead_bind ?_ fun inserted => ?_
  · unfold massInsertFileOn
    split_ifs
    · exact id
    · exact id
    refine Prog.not_ahead_stmt ?_ fun _ _ => id
    rintro ⟨row, hrow, rfl⟩
    obtain ⟨devfid, hdevfid, rfl⟩ := List.mem_map.mp hrow
    exact hnot (List.mem_map_of_mem hdevfid)
  · cases inserted with
    | none => exact id
    | some inserted =>
      show ¬ Prog.Ahead _ _ _ (ite _ _ _)
      split_ifs
      · exact id
      · exact Prog.not_ahead_stmt id fun _ _ => Prog.not_ahead_stmt id fun _ _ => id

theorem mem_of_aboutToRecord_collect {x : ℕ} (rows : List (ℕ × Text)) : ∀ devfids fidids,
    AboutToRecord x (collectTempfiles rows devfids fidids >>= enqueueCollected) →
      x ∈ rows.map Prod.fst ∨ x ∈ devfids.map Prod.fst := by
  induction rows with
  | nil => exact fun _ _ h => .inr (mem_of_aboutToRecord_enqueueCollected h)
  | cons row rows ih =>
    obtain ⟨fid, devids⟩ := row
    intro devfids fidids hahead
    unfold collectTempfiles at hahead
    split_ifs at hahead with hfid
    · exact hahead.elim
    rcases hahead with hgoal | ⟨db, -, hahead⟩
    · exact hgoal.elim
    revert hahead
    rcases (Stmt.run (.selectFile fid) db).1 with _ | file
    · intro hahead
      rcases ih _ _ hahead with hmem | hmem
      · exact .inl (List.mem_cons_of_mem _ hmem)
      rw [List.map_append, List.mem_append] at hmem
      rcases hmem with hmem | hmem
      · exact .inr hmem
      · obtain ⟨devfid, hdevfid, rfl⟩ := List.mem_map.mp hmem
        obtain ⟨devid, -, rfl⟩ := List.mem_map.mp hdevfid
        exact .inl List.mem_cons_self
    · rintro (hgoal | ⟨db, -, hahead⟩)
      · exact hgoal.elim
      · exact (ih _ _ hahead).imp_left (List.mem_cons_of_mem _)

theorem not_aboutToTake_collect {c : Cover} {x : ℕ} (rows : List (ℕ × Text)) : ∀ devfids fidids,
    ¬ AboutToTake c x (collectTempfiles rows devfids fidids >>= enqueueCollected) := by
  induction rows with
  | nil => exact fun devfids fidids => not_aboutToTake_enqueueCollected (some (devfids, fidids))
  | cons row rows ih =>
    obtain ⟨fid, devids⟩ := row
    intro devfids fidids
    unfold collectTempfiles
    split_ifs
    · exact id
    refine Prog.not_ahead_stmt id fun db hnot => ?_
    revert hnot
    rcases (Stmt.run (.selectFile fid) db).1 with _ | file
    · exact fun _ => ih _ _
    · intro hnot
      exact Prog.not_ahead_stmt (fun h => hnot ⟨(List.mem_singleton.mp h.2).symm, Option.some_ne_none file⟩)
        fun _ _ => ih _ _

theorem tidy_collect (rows : List (ℕ × Text)) : ∀ devfids fidids, (rows.map Prod.fst).Nodup →
    (∀ x ∈ rows.map Prod.fst, x ∉ devfids.map Prod.fst) →
      (collectTempfiles rows devfids fidids >>= enqueueCollected).Along Stmt.run Tidy := by
  induction rows with
  | nil => exact fun devfids fidids _ _ => tidy_enqueueCollected (some (devfids, fidids))
  | cons row rows ih =>
    obtain ⟨fid, devids⟩ := row
    intro devfids fidids hnodup hnew
    rw [List.map_cons, List.nodup_cons] at hnodup
    unfold collectTempfiles
    split_ifs
    · exact trivial
    refine ⟨tidy_of_neutral trivial, fun db => ?_⟩
    have hrest : ∀ x ∈ rows.map Prod.fst, x ∉ devfids.map Prod.fst := fun x hx => hnew x (List.mem_cons_of_mem _ hx)
    rcases (Stmt.run (.selectFile fid) db).1 with _ | file
    · refine ih _ _ hnodup.2 fun x hx hmem => ?_
      rw [List.map_append, List.mem_append] at hmem
      rcases hmem with hmem | hmem
      · exact hrest x hx hmem
      · obtain ⟨devfid, hdevfid, rfl⟩ := List.mem_map.mp hmem
        obtain ⟨devid, -, rfl⟩ := List.mem_map.mp hdevfid
        exact hnodup.1 hx
    · refine ⟨tidy_deleteTempfiles (fun c x _ _ => not_aboutToTake_collect rows _ _) fun x hx hahead => ?_,
        fun _ => ih _ _ hnodup.2 hrest⟩
      obtain rfl := List.mem_singleton.mp hx
      rcases mem_of_aboutToRecord_collect rows _ _ hahead with hmem | hmem
      · exact hnodup.1 hmem
      · exact hnew x List.mem_cons_self hmem

theorem orderly_processTempfiles (now tooOld : ℕ) : Orderly (processTempfiles now tooOld) := by
  refine ⟨⟨tidy_of_neutral trivial, fun db => ?_⟩, fun c x _ => Prog.not_ahead_stmt id fun db _ => ?_,
    fun x => Prog.not_ahead_stmt id fun db hnot => ?_, fun x name => ?_⟩
  · have hnodup := nodup_oldTempfiles now tooOld db
    revert hnodup
    rcases (Stmt.run (.selectOldTempfiles now tooOld) db).1 with _ | ⟨row, rows⟩
    · exact fun _ => trivial
    · exact fun hnodup => tidy_collect (row :: rows) [] [] hnodup fun _ _ => List.not_mem_nil
  · rcases (Stmt.run (.selectOldTempfiles now tooOld) db).1 with _ | ⟨row, rows⟩
    · exact id
    · exact not_aboutToTake_collect (row :: rows) [] []
  · revert hnot
    rcases (Stmt.run (.selectOldTempfiles now tooOld) db).1 with _ | ⟨row, rows⟩
    · exact fun _ => id
    · intro hnot hahead
      rcases mem_of_aboutToRecord_collect (row :: rows) [] [] hahead with hmem | hmem
      · exact hnot hmem
      · exact absurd hmem List.not_mem_nil
  · refine (cleans_processTempfiles now tooOld).not_ahead fun s hs hreplaces => ?_
    cases s <;> first | exact hs | exact hreplaces

end Cleanup

theorem IsOperation.orderly {p : DbProg Unit} (h : IsOperation p) : Orderly p := by
  obtain ⟨op, rfl⟩ := h
  cases op with
  | createOpen env args => exact (orderly_createOpen env args).forget
  | createClose env args => exact (orderly_createClose env args).forget
  | delete env args => exact (orderly_delete env args).forget
  | rename env args => exact (orderly_rename env args).forget
  | replicateUsingToreplTable env => exact (orderly_replicateUsingToreplTable env).forget
  | rebalanceDevfid devs classOf out fid devid avoidDevids =>
    exact (orderly_rebalanceDevfid devs classOf out fid devid avoidDevids).forget
  | processTempfiles now tooOld => exact (orderly_processTempfiles now tooOld).forget
  | reenqueueDelayedDeletes now => exact orderly_reenqueueDelayedDeletes now
  | processDeletes env => exact (orderly_processDeletes env).forget
  | reapDevice now lock devid => exact (orderly_reapDevice now lock devid).forget

end Ylem
