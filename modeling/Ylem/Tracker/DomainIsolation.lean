import Ylem.Query.Domains
import Ylem.Tracker.Operations
import Ylem.Lib.Folds

/-!
# Is a new domain empty?

The id of a deleted domain is given out again. Files cannot get from one domain into the other in this way:
every file is in an existing domain (`FilesIn`), because a domain with files is not deleted. Classes can, since
a deletion leaves them where they are. So a run keeps the domains apart exactly if no domain with classes is
ever deleted.
-/

namespace Ylem

/-! ### Which domains files are stored in -/

/-- Files have positive fids and are in the domains `D`, and so do uploads have positive fids. -/
structure Db.FilesIn (D : ℕ → Prop) (db : Db) : Prop where
  files : ∀ row ∈ db.file.rows, 0 < row.fid ∧ D row.dmid
  uploads : ∀ row ∈ db.tempfile.rows, 0 < row.fid
  counter : db.CounterAbove

/-- A statement that stores nothing else. -/
def Stmt.StoresIn (D : ℕ → Prop) : Stmt → Prop
  | .insertTempfile fid _ _ _ _ _ _ => fid ≠ some 0
  | .replaceFile row => 0 < row.fid ∧ D row.dmid
  | _ => True

section Stores

variable {D : ℕ → Prop} {db : Db}

theorem filesIn_fresh : Db.fresh.FilesIn D :=
  ⟨fun _ h => absurd h List.not_mem_nil, fun _ h => absurd h List.not_mem_nil, Db.counterAbove_fresh⟩

theorem Db.FilesIn.mono {D' : ℕ → Prop} (h : db.FilesIn D) (hD : ∀ dmid, D dmid → D' dmid) : db.FilesIn D' :=
  ⟨fun row hrow => ⟨(h.files row hrow).1, hD _ (h.files row hrow).2⟩, h.uploads, h.counter⟩

theorem Stmt.files_run {s : Stmt} (hs : s.StoresIn D) (h : db.FilesIn D) :
    ∀ row ∈ (s.run db).2.file.rows, 0 < row.fid ∧ D row.dmid := by
  cases s with
  | deleteFile fid => exact fun row hrow => h.files row (List.mem_filter.mp hrow).1
  | replaceFile new =>
    intro row hrow
    rcases List.mem_append.mp hrow with hrow | hrow
    · exact h.files row (List.mem_filter.mp hrow).1
    · exact List.mem_singleton.mp hrow ▸ hs
  | renameFile fid key =>
    simp only [Stmt.run]
    split
    · rename_i file hfile
      unfold FileTable.rename at hfile
      split_ifs at hfile
      intro row hrow
      rw [← Option.some.inj hfile] at hrow
      obtain ⟨old, hold, rfl⟩ := List.mem_map.mp hrow
      split_ifs <;> exact h.files old hold
    · exact h.files
  | updateDevcount fid ct =>
    intro row hrow
    obtain ⟨old, hold, rfl⟩ := List.mem_map.mp hrow
    split_ifs <;> exact h.files old hold
  | insertTempfile fid dmid key classid devids createtime reseeded =>
    simp only [Stmt.run]
    split_ifs <;> exact h.files
  | _ => exact h.files

theorem Stmt.uploads_run {s : Stmt} (hs : s.StoresIn D) (h : db.FilesIn D) :
    ∀ row ∈ (s.run db).2.tempfile.rows, 0 < row.fid := by
  cases s with
  | deleteTempfiles fids => exact fun row hrow => h.uploads row (List.mem_filter.mp hrow).1
  | insertTempfile fid dmid key classid devids createtime reseeded =>
    simp only [Stmt.run]
    split_ifs
    · exact h.uploads
    · intro row hrow
      rcases Table.mem_insertIgnore.mp hrow with hrow | ⟨-, rfl⟩
      · exact h.uploads row hrow
      · show 0 < fid.getD _
        cases fid with
        | none => exact h.counter.autoFid_pos reseeded
        | some fid => exact Nat.pos_of_ne_zero fun hzero => hs (congrArg some hzero)
  | renameFile fid key =>
    simp only [Stmt.run]
    split <;> exact h.uploads
  | _ => exact h.uploads

theorem filesIn_exec {α : Type} {p : DbProg α} (hp : p.Issues (Stmt.StoresIn D)) (h : db.FilesIn D) :
    (p.exec db).2.FilesIn D := by
  induction p generalizing db with
  | ret a => exact h
  | stmt s k ih =>
    exact ih _ (hp.2 _) ⟨Stmt.files_run hp.1 h, Stmt.uploads_run hp.1 h, s.counterAbove_run h.counter⟩

end Stores

/-! ### What the operations store -/

section Operations

variable {D : ℕ → Prop}

theorem storesIn_deleteFidid (fid : ℕ) : (Store.deleteFidid fid).Issues (Stmt.StoresIn D) :=
  ⟨trivial, fun _ => ⟨trivial, fun _ => ⟨trivial, fun _ => trivial⟩⟩⟩

theorem storesIn_addToDb (lock : Option Bool) (fid devid : ℕ) : (addToDb lock fid devid).Issues (Stmt.StoresIn D) :=
  issues_addToDb (fun _ => trivial) (fun _ => trivial) (fun _ _ => trivial) lock fid devid

theorem storesIn_updateDevcountAtomic (lock : Option Bool) (fid : ℕ) :
    (Store.updateDevcountAtomic lock fid).Issues (Stmt.StoresIn D) :=
  issues_updateDevcountAtomic (fun _ => trivial) (fun _ _ => trivial) lock fid

theorem storesIn_withDomain {env : QueryEnv} {args : Args} {handler : ℕ → DbProg Outcome}
    (h : ∀ dmid, (handler dmid).Issues (Stmt.StoresIn D)) : (withDomain env args handler).Issues (Stmt.StoresIn D) := by
  unfold withDomain
  split
  · exact trivial
  · exact trivial
  · exact h _

theorem storesIn_withFid {dmid : ℕ} {key : Text} {use : ℕ → DbProg Outcome}
    (h : ∀ fid, (use fid).Issues (Stmt.StoresIn D)) : (withFid dmid key use).Issues (Stmt.StoresIn D) := by
  refine ⟨trivial, fun row => ?_⟩
  cases row with
  | none => exact trivial
  | some row =>
    show Prog.Issues _ (ite _ _ _)
    split_ifs
    · exact trivial
    · exact h _

theorem storesIn_delete (env : QueryEnv) (args : Args) : (cmdDelete env args).Issues (Stmt.StoresIn D) := by
  refine storesIn_withDomain fun dmid => ?_
  split_ifs
  · exact trivial
  · exact storesIn_withFid fun fid => (storesIn_deleteFidid fid).bind fun _ => trivial

theorem storesIn_rename (env : QueryEnv) (args : Args) : (cmdRename env args).Issues (Stmt.StoresIn D) := by
  refine storesIn_withDomain fun dmid => ?_
  split_ifs
  · exact trivial
  · refine storesIn_withFid fun fid => ⟨trivial, fun renamed => ?_⟩
    cases renamed <;> exact trivial

theorem storesIn_createOpen (env : CreateOpenEnv) (args : Args) :
    (cmdCreateOpen env args).Issues (Stmt.StoresIn D) :=
  issues_of_registerStmts env args fun _ _ =>
    ⟨fun _ _ hfid => hfid, fun _ => trivial, trivial, fun _ => trivial⟩

theorem storesIn_commitClose (env : QueryEnv) (args : Args) {dmid : ℕ} (key path : Text) {trow : TempfileRow}
    (dev : Device) (hfid : 0 < trow.fid) (hdmid : D dmid) :
    (commitClose env args dmid key path trow dev).Issues (Stmt.StoresIn D) := by
  unfold commitClose
  split
  · exact trivial
  split
  · exact trivial
  refine (storesIn_addToDb _ _ _).bind fun _ => ?_
  refine ⟨⟨hfid, hdmid⟩, fun _ => ⟨trivial, fun _ => ⟨trivial, fun _ => ?_⟩⟩⟩
  refine (storesIn_updateDevcountAtomic _ _).bind fun stored => ?_
  split_ifs <;> exact trivial

theorem storesIn_closeTempfile (env : QueryEnv) (args : Args) {dmid : ℕ} (path : Text) {trow : TempfileRow}
    (dev : Device) (hfid : 0 < trow.fid) (hdmid : D dmid) :
    (closeTempfile env args dmid path trow dev).Issues (Stmt.StoresIn D) := by
  have hdelete : (addToDb env.addLock trow.fid dev.devid >>= fun _ => Store.deleteFidid trow.fid >>= fun _ =>
      pure (Outcome.ok [])).Issues (Stmt.StoresIn D) :=
    (storesIn_addToDb _ _ _).bind fun _ => (storesIn_deleteFidid _).bind fun _ => trivial
  unfold closeTempfile
  split
  · exact hdelete
  · exact hdelete
  refine ⟨trivial, fun old => ?_⟩
  cases old with
  | none => exact storesIn_commitClose env args _ path dev hfid hdmid
  | some old =>
    show Prog.Issues _ (ite _ _ _)
    split_ifs
    · exact trivial
    · exact (storesIn_deleteFidid _).bind fun _ => storesIn_commitClose env args _ path dev hfid hdmid

/-! ### What the workers store -/

theorem storesIn_copyLoop (devs : DeviceMap) (fid : ℕ) (opts : ReplOpts) (cls : ReplClass) (onUpDevid : List ℕ)
    (fuel : ℕ) (rounds : ℕ → Round) (st : CopyState) :
    (copyLoop devs fid opts cls onUpDevid fuel rounds st).Issues (Stmt.StoresIn D) := by
  induction fuel generalizing rounds st with
  | zero => exact trivial
  | succ fuel ih =>
    unfold copyLoop
    split
    · exact trivial
    · exact ih _ _
    · exact (storesIn_addToDb _ _ _).bind fun _ => ih _ _

theorem storesIn_replicate (devs : DeviceMap) (classOf : FileRow → Option ReplClass) (out : Outcomes) (fid : ℕ)
    (loaded : Option FileRow) (opts : ReplOpts) :
    (replicate devs classOf out fid loaded opts).Issues (Stmt.StoresIn D) := by
  unfold replicate
  split
  · exact trivial
  · exact trivial
  extract_lets onRow
  have hrow : ∀ row, (onRow row).Issues (Stmt.StoresIn D) := by
    intro row
    simp only [onRow]
    split
    · exact trivial
    split
    · exact trivial
    refine (issues_sql trivial).bind fun devids => ?_
    split
    · exact trivial
    · unfold replicateOn
      extract_lets
      split_ifs
      · exact trivial
      · exact trivial
      · exact trivial
      · exact storesIn_copyLoop _ _ _ _ _ _ _ _
  cases loaded with
  | some row => exact hrow (some row)
  | none => exact ⟨trivial, hrow⟩

theorem storesIn_replicateTodos (env : Worker.Replicate.QueueEnv) (todos : List ToReplicateRow) :
    (Worker.Replicate.replicateTodos env todos).Issues (Stmt.StoresIn D) := by
  induction todos with
  | nil => exact trivial
  | cons todo todos ih =>
    have htodo : (Worker.Replicate.replicateTodo env todo).Issues (Stmt.StoresIn D) := by
      unfold Worker.Replicate.replicateTodo
      split_ifs
      · exact trivial
      extract_lets
      refine (storesIn_replicate _ _ _ _ _ _).bind fun result => ?_
      unfold Worker.Replicate.settle
      split
      · exact trivial
      · exact trivial
      · exact trivial
      · exact ⟨trivial, fun _ => trivial⟩
      · exact ⟨trivial, fun _ => trivial⟩
      · exact ⟨trivial, fun _ => trivial⟩
    refine htodo.bind fun lives => ?_
    cases lives with
    | false => exact trivial
    | true => exact ih

theorem storesIn_replicateUsingToreplTable (env : Worker.Replicate.QueueEnv) :
    (Worker.Replicate.replicateUsingToreplTable env).Issues (Stmt.StoresIn D) := by
  refine ⟨trivial, fun toRepl => ?_⟩
  cases toRepl with
  | nil => exact trivial
  | cons todo todos =>
    refine (storesIn_replicateTodos env _).bind fun lives => ?_
    cases lives <;> exact trivial

theorem storesIn_rebalanceDevfid (devs : DeviceMap) (classOf : FileRow → Option ReplClass) (out : Outcomes)
    (fid devid : ℕ) (avoidDevids : List ℕ) :
    (rebalanceDevfid devs classOf out fid devid avoidDevids).Issues (Stmt.StoresIn D) := by
  have hdestroy : (destroy out fid devid).Issues (Stmt.StoresIn D) := by
    unfold destroy
    split_ifs
    · exact ⟨trivial, fun _ => ⟨trivial, fun _ => ⟨trivial, fun _ => trivial⟩⟩⟩
    · exact trivial
  have hafter : ∀ result, (afterReplicate out fid devid result).Issues (Stmt.StoresIn D) := by
    intro result
    unfold afterReplicate
    split
    · exact trivial
    · exact trivial
    · exact trivial
    · refine ⟨trivial, fun devids => ?_⟩
      show Prog.Issues _ (ite _ _ _)
      split_ifs
      · refine (issues_sql trivial).bind fun testDevids => ?_
        split
        · exact trivial
        · exact hdestroy
        · exact trivial
      · exact trivial
    · exact hdestroy
  unfold rebalanceDevfid
  split_ifs
  · exact trivial
  refine ⟨trivial, fun row => ?_⟩
  cases row with
  | none => exact trivial
  | some row => exact (storesIn_replicate _ _ _ _ _ _).bind hafter

theorem storesIn_collectTempfiles (rows devfids : List (ℕ × Text)) (fidids : List ℕ) :
    (Worker.Delete.collectTempfiles rows devfids fidids).Issues (Stmt.StoresIn D) := by
  induction rows generalizing devfids fidids with
  | nil => exact trivial
  | cons row rows ih =>
    unfold Worker.Delete.collectTempfiles
    split_ifs
    · exact trivial
    refine ⟨trivial, fun file => ?_⟩
    cases file with
    | some file => exact ⟨trivial, fun _ => ih _ _⟩
    | none => exact ih _ _

theorem storesIn_processTempfiles (now tooOld : ℕ) :
    (Worker.Delete.processTempfiles now tooOld).Issues (Stmt.StoresIn D) := by
  refine ⟨trivial, fun tempfiles => ?_⟩
  cases tempfiles with
  | nil => exact trivial
  | cons row rows =>
    refine (storesIn_collectTempfiles (row :: rows) [] []).bind fun collected => ?_
    rcases collected with _ | ⟨devfids, fidids⟩
    · exact trivial
    have hmass : (Worker.Delete.massInsertFileOn devfids).Issues (Stmt.StoresIn D) := by
      unfold Worker.Delete.massInsertFileOn
      split_ifs
      · exact trivial
      · exact trivial
      · exact ⟨trivial, fun _ => trivial⟩
    refine hmass.bind fun inserted => ?_
    cases inserted with
    | none => exact trivial
    | some inserted =>
      show Prog.Issues _ (ite _ _ _)
      split_ifs
      · exact trivial
      · exact ⟨trivial, fun _ => ⟨trivial, fun _ => trivial⟩⟩

theorem storesIn_processDelete (env : Worker.Delete.DeleteEnv) (fid : ℕ) (devid : Option ℕ) :
    (Worker.Delete.processDelete env fid devid).Issues (Stmt.StoresIn D) := by
  have hreschedule : ∀ secs, (Worker.Delete.rescheduleFid env.now fid secs >>= fun _ =>
      (pure (some ()) : DbProg (Option Unit))).Issues (Stmt.StoresIn D) :=
    fun _ => ⟨trivial, fun _ => ⟨trivial, fun _ => trivial⟩⟩
  unfold Worker.Delete.processDelete
  split
  · exact ⟨trivial, fun _ => trivial⟩
  split
  · exact ⟨trivial, fun _ => trivial⟩
  split_ifs
  · exact ⟨trivial, fun _ => trivial⟩
  · exact hreschedule _
  · exact hreschedule _
  unfold Worker.Delete.deleteOn
  split
  · exact trivial
  · exact trivial
  split
  · exact hreschedule _
  · split_ifs
    · exact ⟨trivial, fun _ => trivial⟩
    · exact hreschedule _
  · exact trivial

theorem storesIn_processDeletes (env : Worker.Delete.DeleteEnv) :
    (Worker.Delete.processDeletes env).Issues (Stmt.StoresIn D) := by
  have hrows : ∀ rows, (Worker.Delete.processRows env rows).Issues (Stmt.StoresIn D) := by
    intro rows
    induction rows with
    | nil => exact trivial
    | cons row rows ih =>
      refine (storesIn_processDelete env row.1 row.2).bind fun settled => ?_
      cases settled with
      | none => exact trivial
      | some settled => exact ih
  refine ⟨trivial, fun delmap => ?_⟩
  cases delmap with
  | nil => exact trivial
  | cons row rows => exact hrows _

theorem storesIn_reapDevice (now : ℕ) (lock : ℕ → Option Bool) (devid : ℕ) :
    (Worker.Reaper.reapDevice now lock devid).Issues (Stmt.StoresIn D) := by
  have hfids : ∀ fids, (Worker.Reaper.reapFids now lock devid fids).Issues (Stmt.StoresIn D) := by
    intro fids
    induction fids with
    | nil => exact trivial
    | cons fid fids ih =>
      refine Prog.Issues.bind ?_ fun _ => ih
      exact ⟨trivial, fun _ => ⟨trivial, fun _ => (storesIn_updateDevcountAtomic _ _).bind fun _ => trivial⟩⟩
  refine ⟨trivial, fun fids => ?_⟩
  cases fids with
  | nil => exact trivial
  | cons fid fids => exact (hfids _).bind fun _ => trivial

end Operations

/-! ### The tracker with its domains -/

/-- The operation where the names of domains are looked up in the tables. -/
def Operation.lookingUp (t : Tables) : Operation → Operation
  | .createOpen env args => .createOpen { env with idOfName := fun ns => .ok (t.idOfName ns) } args
  | .createClose env args => .createClose { env with idOfName := fun ns => .ok (t.idOfName ns) } args
  | .delete env args => .delete { env with idOfName := fun ns => .ok (t.idOfName ns) } args
  | .rename env args => .rename { env with idOfName := fun ns => .ok (t.idOfName ns) } args
  | op => op

/-- What the tracker is asked to do: a command on domains or classes, or an operation on files. -/
inductive Request where
  | createDomain (args : Args)
  | deleteDomain (args : Args)
  | createClass (env : ClassEnv) (args : Args)
  | updateClass (env : ClassEnv) (args : Args)
  | deleteClass (env : ClassEnv) (args : Args)
  | file (op : Operation)

namespace Tables

variable (t : Tables)

def serve : Request → Tables
  | .createDomain args => (cmdCreateDomain args t).2
  | .deleteDomain args => (cmdDeleteDomain args t).2
  | .createClass env args => (cmdCreateClass args t env).2
  | .updateClass env args => (cmdUpdateClass args t env).2
  | .deleteClass env args => (cmdDeleteClass args t env).2
  | .file op => { t with db := ((op.lookingUp t).prog.exec t.db).2 }

/-- The tables after the requests. -/
def after (requests : List Request) : Tables := requests.foldl serve fresh

/-- Every class row belongs to an existing domain. -/
def ClassesInDomains : Prop := ∀ c ∈ t.cls.rows, t.domain.Has c.dmid

/-- No class row and no file belongs to the domain. -/
def EmptyDomain (dmid : ℕ) : Prop := (∀ c ∈ t.cls.rows, c.dmid ≠ dmid) ∧ ∀ row ∈ t.db.file.rows, row.dmid ≠ dmid

/-- If the request deletes a domain, the domain has no class row. -/
def DeletesWithoutClasses : Request → Prop
  | .deleteDomain args =>
    ∀ dmid, Text.truthy (args "domain") = true → t.ofNamespace ((args "domain").getD []) = some dmid →
      Store.domainHasFiles t dmid = false → ∀ c ∈ t.cls.rows, c.dmid ≠ dmid
  | _ => True

end Tables

section Isolation

variable {t : Tables}

/-- Files are in existing domains. -/
def Tables.FilesInDomains (t : Tables) : Prop := t.db.FilesIn t.domain.Has

theorem checkDomain_named {env : QueryEnv} {args : Args} {lines : List Reply} {dmid : ℕ}
    (h : checkDomain env args = .ok (lines, dmid)) (hne : dmid ≠ 0) :
    ∃ domain, env.idOfName domain = .ok (some dmid) := by
  unfold checkDomain at h
  split at h
  · cases h
    exact absurd rfl hne
  · cases h
    exact absurd rfl hne
  · rename_i domain hdomain
    split at h
    · cases h
    · cases h
      exact absurd rfl hne
    · cases h
      exact absurd rfl hne
    · rename_i hid
      cases h
      exact ⟨_, hid⟩

theorem filesIn_createClose {D : ℕ → Prop} {env : QueryEnv} {args : Args} {db : Db}
    (hD : ∀ domain dmid, env.idOfName domain = .ok (some dmid) → D dmid) (h : db.FilesIn D) :
    ((cmdCreateClose env args).exec db).2.FilesIn D := by
  cases hdomain : checkDomain env args with
  | error e =>
    unfold cmdCreateClose withDomain
    rw [hdomain]
    exact h
  | ok found =>
    obtain ⟨lines, dmid⟩ := found
    rcases checkDomain_ok hdomain with ⟨rfl, -⟩ | ⟨hne, rfl⟩
    · unfold cmdCreateClose withDomain
      rw [hdomain]
      exact h
    · obtain ⟨domain, hid⟩ := checkDomain_named hdomain hne
      rcases cmdCreateClose_cases env args hdomain hne db with ⟨hsame, -⟩ | ⟨trow, dev, -, -, -, -, htrow, hexec⟩
      · exact hsame.symm ▸ h
      · have hpos : 0 < trow.fid := h.uploads trow (List.mem_of_find?_eq_some htrow)
        rw [hexec]
        exact filesIn_exec (storesIn_closeTempfile env args _ dev hpos (hD _ _ hid)) h

theorem Tables.FilesInDomains.file (h : t.FilesInDomains) (op : Operation) : (t.serve (.file op)).FilesInDomains := by
  show Db.FilesIn t.domain.Has ((op.lookingUp t).prog.exec t.db).2
  cases op with
  | createOpen env args => exact filesIn_exec (storesIn_createOpen _ _).forget h
  | createClose env args =>
    rw [Operation.lookingUp, Operation.prog, DbProg.exec, Prog.exec_forget]
    refine filesIn_createClose (fun domain dmid hid => ?_) h
    exact has_of_idOfName (Except.ok.inj hid)
  | delete env args => exact filesIn_exec (storesIn_delete _ _).forget h
  | rename env args => exact filesIn_exec (storesIn_rename _ _).forget h
  | replicateUsingToreplTable env => exact filesIn_exec (storesIn_replicateUsingToreplTable env).forget h
  | rebalanceDevfid devs classOf out fid devid avoidDevids =>
    exact filesIn_exec (storesIn_rebalanceDevfid devs classOf out fid devid avoidDevids).forget h
  | processTempfiles now tooOld => exact filesIn_exec (storesIn_processTempfiles now tooOld).forget h
  | reenqueueDelayedDeletes now =>
    refine filesIn_exec (p := Worker.Delete.reenqueueDelayedDeletes now) ⟨trivial, fun fidids => ?_⟩ h
    cases fidids with
    | nil => exact trivial
    | cons fid fidids => exact ⟨trivial, fun _ => ⟨trivial, fun _ => trivial⟩⟩
  | processDeletes env => exact filesIn_exec (storesIn_processDeletes env).forget h
  | reapDevice now lock devid => exact filesIn_exec (storesIn_reapDevice now lock devid).forget h

theorem Tables.FilesInDomains.of_domainHasFiles (h : t.FilesInDomains) {dmid : ℕ}
    (hfiles : Store.domainHasFiles t dmid = false) : ∀ row ∈ t.db.file.rows, row.dmid ≠ dmid := by
  intro row hrow heq
  unfold Store.domainHasFiles at hfiles
  split at hfiles
  · rename_i found hfound
    have hpos := (h.files found (List.mem_of_find?_eq_some hfound)).1
    simp only [bne_eq_false_iff_eq] at hfiles
    omega
  · rename_i hnone
    exact absurd (decide_eq_true heq) (List.find?_eq_none.mp hnone row hrow)

theorem has_deleteDomain {dmid x : ℕ} : (Store.deleteDomain t dmid).domain.Has x ↔ x ≠ dmid ∧ t.domain.Has x :=
  Table.has_delete_key

theorem has_after_createDomain {t' : Tables} {dmid x : ℕ} {ns : Text}
    (h : Store.createDomain t ns = some (dmid, t')) : t'.domain.Has x ↔ t.domain.Has x ∨ x = dmid := by
  rw [Table.has_iff, (not_has_createDomain h).2.2, Table.has_iff]
  simp only [List.mem_append, List.mem_singleton]
  constructor
  · rintro ⟨row, hrow | rfl, rfl⟩
    · exact .inl ⟨row, hrow, rfl⟩
    · exact .inr rfl
  · rintro (⟨row, hrow, rfl⟩ | rfl)
    · exact ⟨row, .inl hrow, rfl⟩
    · exact ⟨_, .inr rfl, rfl⟩

theorem Tables.FilesInDomains.changesClasses {t' : Tables} (h : t.FilesInDomains) (hchanges : ChangesClasses t t') :
    t'.FilesInDomains := by
  rw [Tables.FilesInDomains, hchanges.db, hchanges.domain]
  exact h

theorem Tables.FilesInDomains.serve (h : t.FilesInDomains) (r : Request) : (t.serve r).FilesInDomains := by
  cases r with
  | createDomain args =>
    rcases cmdCreateDomain_cases args t with hsame | ⟨dmid, ns, hcreate⟩
    · rw [Tables.serve, hsame]
      exact h
    · have hmore := Db.FilesIn.mono h fun x hx => (has_after_createDomain hcreate).mpr (.inl hx)
      rw [Tables.FilesInDomains, Tables.serve]
      rwa [(not_has_createDomain hcreate).2.1]
  | deleteDomain args =>
    rcases cmdDeleteDomain_cases args t with ⟨hsame, -⟩ | ⟨dmid, -, -, hfiles, hdelete⟩
    · rw [Tables.serve, hsame]
      exact h
    · rw [Tables.serve, hdelete]
      have hnone := h.of_domainHasFiles hfiles
      exact ⟨fun row hrow => ⟨(h.files row hrow).1, has_deleteDomain.mpr ⟨hnone row hrow, (h.files row hrow).2⟩⟩,
        h.uploads, h.counter⟩
  | createClass env args => exact h.changesClasses (.cmdCreateClass args t env)
  | updateClass env args => exact h.changesClasses (.cmdCreateClass _ t env)
  | deleteClass env args => exact h.changesClasses (.cmdDeleteClass args t env)
  | file op => exact h.file op

theorem Tables.ClassesInDomains.changesClasses {t' : Tables} (h : t.ClassesInDomains)
    (hchanges : ChangesClasses t t') : t'.ClassesInDomains := by
  intro c hc
  rw [hchanges.domain]
  rcases hchanges.cls c hc with hhas | ⟨old, hold, hdmid⟩
  · exact hhas
  · exact hdmid ▸ h old hold

/-- A request keeps classes in existing domains exactly if it deletes no domain with classes. -/
theorem Tables.ClassesInDomains.serve_iff (h : t.ClassesInDomains) (r : Request) :
    (t.serve r).ClassesInDomains ↔ t.DeletesWithoutClasses r := by
  cases r with
  | createDomain args =>
    refine iff_of_true ?_ trivial
    rcases cmdCreateDomain_cases args t with hsame | ⟨dmid, ns, hcreate⟩
    · rw [Tables.serve, hsame]
      exact h
    · intro c hc
      have hcls : (t.serve (.createDomain args)).cls = t.cls := by
        rw [Tables.serve, (not_has_createDomain hcreate).2.1]
      exact (has_after_createDomain hcreate).mpr (.inl (h c (hcls ▸ hc)))
  | deleteDomain args =>
    rcases cmdDeleteDomain_cases args t with ⟨hsame, hno⟩ | ⟨dmid, htrue, hdmid, hfiles, hdelete⟩
    · rw [Tables.serve, hsame]
      exact iff_of_true h fun dmid htrue hdmid hfiles => absurd ⟨dmid, htrue, hdmid, hfiles⟩ hno
    · rw [Tables.serve, hdelete]
      constructor
      · intro hafter dmid' _ hdmid' _ c hc
        obtain rfl : dmid = dmid' := Option.some.inj (hdmid.symm.trans hdmid')
        exact (has_deleteDomain.mp (hafter c hc)).1
      · intro hguard c hc
        exact has_deleteDomain.mpr ⟨hguard dmid htrue hdmid hfiles c hc, h c hc⟩
  | createClass env args => exact iff_of_true (h.changesClasses (.cmdCreateClass args t env)) trivial
  | updateClass env args => exact iff_of_true (h.changesClasses (.cmdCreateClass _ t env)) trivial
  | deleteClass env args => exact iff_of_true (h.changesClasses (.cmdDeleteClass args t env)) trivial
  | file op => exact iff_of_true h trivial

/-- Where classes and files are in existing domains, a new domain is empty. -/
theorem Tables.ClassesInDomains.new_empty (h : t.ClassesInDomains) (hfiles : t.FilesInDomains) (r : Request)
    {dmid : ℕ} (hnew : (t.serve r).domain.Has dmid) (hold : ¬ t.domain.Has dmid) : (t.serve r).EmptyDomain dmid := by
  cases r with
  | createDomain args =>
    rcases cmdCreateDomain_cases args t with hsame | ⟨dmid', ns, hcreate⟩
    · rw [Tables.serve, hsame] at hnew
      exact absurd hnew hold
    · have hsame := (not_has_createDomain hcreate).2.1
      rw [Tables.serve, hsame]
      refine ⟨fun c hc heq => hold (heq ▸ h c hc), fun row hrow heq => hold (heq ▸ (hfiles.files row hrow).2)⟩
  | deleteDomain args =>
    rcases cmdDeleteDomain_cases args t with ⟨hsame, -⟩ | ⟨dmid', -, -, -, hdelete⟩
    · rw [Tables.serve, hsame] at hnew
      exact absurd hnew hold
    · rw [Tables.serve, hdelete] at hnew
      exact absurd (has_deleteDomain.mp hnew).2 hold
  | createClass env args =>
    exact absurd ((ChangesClasses.cmdCreateClass args t env).domain ▸ hnew) hold
  | updateClass env args =>
    exact absurd ((ChangesClasses.cmdCreateClass (fun k => if k = "update" then some "1".toList else args k)
      t env).domain ▸ hnew) hold
  | deleteClass env args =>
    exact absurd ((ChangesClasses.cmdDeleteClass args t env).domain ▸ hnew) hold
  | file op => exact absurd hnew hold

end Isolation

/-! ### Runs -/

/-- Every class row belongs to an existing domain at all times, and every domain that a request adds is empty. -/
def KeepsDomainsApart (requests : List Request) : Prop :=
  (∀ before, before <+: requests → (Tables.after before).ClassesInDomains) ∧
    ∀ before r, before ++ [r] <+: requests → ∀ dmid, (Tables.after (before ++ [r])).domain.Has dmid →
      ¬ (Tables.after before).domain.Has dmid → (Tables.after (before ++ [r])).EmptyDomain dmid

/-- A run keeps the domains apart exactly if every domain that it deletes has no classes then. -/
theorem keepsDomainsApart_iff (requests : List Request) :
    KeepsDomainsApart requests ↔
      ∀ before r, before ++ [r] <+: requests → (Tables.after before).DeletesWithoutClasses r := by
  have hfresh : Tables.fresh.FilesInDomains := filesIn_fresh
  have hclasses : Tables.fresh.ClassesInDomains := fun c hc => absurd hc List.not_mem_nil
  have hguard : ∀ (t : Tables) r, t.FilesInDomains → t.ClassesInDomains →
      ((t.serve r).ClassesInDomains ↔ t.DeletesWithoutClasses r) := fun t r _ h => h.serve_iff r
  have hiff := foldl_forall_iff hfresh hclasses (fun t r h => h.serve r) hguard requests
  rw [KeepsDomainsApart]
  constructor
  · rintro ⟨hall, -⟩
    exact hiff.mp hall
  · intro hguard
    have hall := hiff.mpr hguard
    refine ⟨hall, fun before r hbefore dmid hnew hold => ?_⟩
    have hfiles : (Tables.after before).FilesInDomains := foldl_inv hfresh (fun t r h => h.serve r) before
    rw [Tables.after, List.foldl_concat] at hnew ⊢
    exact (hall before ((List.prefix_append _ _).trans hbefore)).new_empty hfiles r hnew hold

/-- The name of a domain, and of a class in it with three copies. -/
def domainArgs (domain : String) : Args
  | "domain" => some domain.toList
  | "class" => some "thumbs".toList
  | "mindevcount" => some "3".toList
  | _ => none

/-- A domain with a class is deleted, and another one created. -/
def recreated : List Request :=
  [.createDomain (domainArgs "a"), .createClass ⟨[], 2, fun _ => "3".toList⟩ (domainArgs "a"),
    .deleteDomain (domainArgs "a"), .createDomain (domainArgs "b")]

/-- The new domain has the class of the old one, which had no domain in between. -/
theorem recreated_inherits_class : ¬ KeepsDomainsApart recreated ∧
    ⟨1, 1, "thumbs".toList, 3, none⟩ ∈ (Tables.after recreated).reloadClasses 2 ∧
    (Tables.after recreated).idOfName "b".toList = some 1 := by
  have hclass : ⟨1, 1, "thumbs".toList, 3, none⟩ ∈ (Tables.after recreated).cls.rows ∧
      (Tables.after (recreated.take 3)).cls.rows ≠ [] ∧ (Tables.after (recreated.take 3)).domain.rows = [] ∧
      (Tables.after recreated).idOfName "b".toList = some 1 := by
    decide +kernel
  obtain ⟨hmem, hrows, hdomains, hid⟩ := hclass
  refine ⟨fun h => ?_, List.mem_append_left _ (List.mem_filter.mpr ⟨hmem, rfl⟩), hid⟩
  obtain ⟨c, hc⟩ := List.exists_mem_of_ne_nil _ hrows
  have hhas := h.1 (recreated.take 3) (List.take_prefix _ _) c hc
  rw [Table.has_iff, hdomains] at hhas
  obtain ⟨row, hrow, -⟩ := hhas
  cases hrow

end Ylem
