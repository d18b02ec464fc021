import Ylem.Query.CreateClose
import Ylem.Query.CreateOpen

/-!
# Which fid a name is bound to

A name, a domain and a key, is bound to the fid of its row in table `file`. Opening an upload binds nothing
and gives out a fid that no name is bound to. Closing one with a key takes the name of the key, if it gets as
far as the upload (`TakesName`): what the name was bound to goes, and only the fid of the upload can come in
its place. It leaves all other names alone.
-/

namespace Ylem

/-- The name is bound to the fid. -/
def Bound (db : Db) (name : ℕ × Text) (fid : ℕ) : Prop := ∃ row ∈ db.file.rows, row.name = name ∧ row.fid = fid

section Bound

variable {db : Db} {name : ℕ × Text} {fid fid' : ℕ}

theorem bound_iff : Bound db name fid ↔ ∃ row, db.file.findName? name = some row ∧ row.fid = fid := by
  constructor
  · rintro ⟨row, hmem, hname, hfid⟩
    obtain ⟨row', hrow'⟩ : ∃ row', db.file.findName? name = some row' := by
      rw [← Option.isSome_iff_exists, FileTable.findName?, List.find?_isSome]
      exact ⟨row, hmem, decide_eq_true hname⟩
    have hmem' := List.mem_of_find?_eq_some hrow'
    have hname' : row'.name = name := by simpa using List.find?_some hrow'
    have heq : row' = row := List.inj_on_of_nodup_map db.file.name_nodup hmem' hmem (hname'.trans hname.symm)
    exact ⟨row', hrow', by rw [heq, hfid]⟩
  · rintro ⟨row, hrow, hfid⟩
    exact ⟨row, List.mem_of_find?_eq_some hrow, by simpa using List.find?_some hrow, hfid⟩

/-- A name is bound to one fid. -/
theorem Bound.unique (h : Bound db name fid) (h' : Bound db name fid') : fid = fid' := by
  obtain ⟨row, hmem, hname, rfl⟩ := h
  obtain ⟨row', hmem', hname', rfl⟩ := h'
  rw [List.inj_on_of_nodup_map db.file.name_nodup hmem hmem' (hname.trans hname'.symm)]

theorem Bound.has (h : Bound db name fid) : db.file.Has fid := by
  obtain ⟨row, hmem, _, rfl⟩ := h
  exact Table.has_of_mem hmem

theorem Bound.name_unique {name' : ℕ × Text} (h : Bound db name fid) (h' : Bound db name' fid) : name = name' := by
  obtain ⟨row, hmem, rfl, hfid⟩ := h
  obtain ⟨row', hmem', rfl, hfid'⟩ := h'
  rw [db.file.eq_of_key hmem hmem' (hfid.trans hfid'.symm)]

/-- A statement that leaves the binding of a name to a fid alone. -/
def Stmt.Spares (name : ℕ × Text) (fid : ℕ) : Stmt → Prop
  | .deleteFile fid' => fid' ≠ fid
  | .replaceFile row => row.fid ≠ fid ∧ row.name ≠ name
  | .renameFile _ _ => False
  | _ => True

/-- A statement that leaves table `file` alone. -/
def Stmt.SparesFile : Stmt → Prop
  | .deleteFile _ | .replaceFile _ | .renameFile _ _ | .updateDevcount _ _ => False
  | _ => True

theorem Stmt.file_run {s : Stmt} (h : s.SparesFile) (db : Db) : (s.run db).2.file = db.file := by
  cases s with
  | insertTempfile fid dmid key classid devids createtime reseeded =>
    simp only [Stmt.run]
    split_ifs <;> rfl
  | deleteFile | replaceFile | renameFile | updateDevcount => exact absurd h id
  | _ => rfl

theorem Stmt.bound_run {s : Stmt} (hs : s.Spares name fid) (h : Bound db name fid) :
    Bound (s.run db).2 name fid := by
  obtain ⟨row, hmem, hname, hfid⟩ := h
  cases s with
  | deleteFile fid' =>
    refine ⟨row, List.mem_filter.mpr ⟨hmem, ?_⟩, hname, hfid⟩
    have hne : row.fid ≠ fid' := fun heq => hs (heq.symm.trans hfid)
    simp [hne]
  | replaceFile new =>
    refine ⟨row, List.mem_append_left _ (List.mem_filter.mpr ⟨hmem, ?_⟩), hname, hfid⟩
    have hfid' : row.fid ≠ new.fid := fun heq => hs.1 (heq.symm.trans hfid)
    have hname' : row.name ≠ new.name := fun heq => hs.2 (heq.symm.trans hname)
    simp [hfid', hname']
  | renameFile => exact absurd hs id
  | updateDevcount fid' ct =>
    refine ⟨if row.fid = fid' then { row with devcount := ct } else row, List.mem_map_of_mem hmem, ?_, ?_⟩
    · split_ifs
      · exact hname
      · exact hname
    · split_ifs
      · exact hfid
      · exact hfid
  | insertTempfile fid dmid key classid devids createtime reseeded =>
    simp only [Stmt.run]
    split_ifs
    · exact ⟨row, hmem, hname, hfid⟩
    · exact ⟨row, hmem, hname, hfid⟩
  | _ => exact ⟨row, hmem, hname, hfid⟩

theorem bound_exec {α : Type} {p : DbProg α} (hp : p.Issues (Stmt.Spares name fid)) (h : Bound db name fid) :
    Bound (p.exec db).2 name fid := by
  induction p generalizing db with
  | ret a => exact h
  | stmt s k ih => exact ih _ (hp.2 _) (Stmt.bound_run hp.1 h)

theorem file_exec {α : Type} {p : DbProg α} (hp : p.Issues Stmt.SparesFile) (db : Db) :
    (p.exec db).2.file = db.file := by
  induction p generalizing db with
  | ret a => rfl
  | stmt s k ih => exact (ih _ (hp.2 _) _).trans (Stmt.file_run hp.1 db)

end Bound

/-- A statement that binds no name to the fid. -/
def Stmt.BindsOther (fid : ℕ) : Stmt → Prop
  | .replaceFile row => row.fid ≠ fid
  | .renameFile _ _ => False
  | _ => True

theorem Stmt.bound_of_run {s : Stmt} {db : Db} {name : ℕ × Text} {fid : ℕ} (hs : s.BindsOther fid)
    (h : Bound (s.run db).2 name fid) : Bound db name fid := by
  obtain ⟨row, hmem, hname, hfid⟩ := h
  cases s with
  | deleteFile fid' => exact ⟨row, (List.mem_filter.mp hmem).1, hname, hfid⟩
  | replaceFile new =>
    rcases List.mem_append.mp hmem with hmem | hmem
    · exact ⟨row, (List.mem_filter.mp hmem).1, hname, hfid⟩
    · rw [List.mem_singleton] at hmem
      exact absurd (hmem ▸ hfid) hs
  | renameFile => exact absurd hs id
  | updateDevcount fid' ct =>
    obtain ⟨old, hold, rfl⟩ := List.mem_map.mp hmem
    refine ⟨old, hold, ?_, ?_⟩
    · split_ifs at hname <;> exact hname
    · split_ifs at hfid <;> exact hfid
  | insertTempfile fid dmid key classid devids createtime reseeded =>
    simp only [Stmt.run] at hmem
    split_ifs at hmem <;> exact ⟨row, hmem, hname, hfid⟩
  | _ => exact ⟨row, hmem, hname, hfid⟩

theorem bound_of_exec {α : Type} {p : DbProg α} {db : Db} {name : ℕ × Text} {fid : ℕ}
    (hp : p.Issues (Stmt.BindsOther fid)) (h : Bound (p.exec db).2 name fid) : Bound db name fid := by
  induction p generalizing db with
  | ret a => exact h
  | stmt s k ih => exact Stmt.bound_of_run hp.1 (ih _ (hp.2 _) h)

/-! ### Closing an upload -/

section Close

variable (env : QueryEnv) (args : Args) {dmid : ℕ} {key path : Text} (trow : TempfileRow) (dev : Device)
  {db : Db} {name : ℕ × Text} {fid : ℕ}

theorem issues_deleteFidid_spares (h : trow.fid ≠ fid) : (Store.deleteFidid trow.fid).Issues (Stmt.Spares name fid) :=
  ⟨h, fun _ => ⟨trivial, fun _ => ⟨trivial, fun _ => trivial⟩⟩⟩

theorem issues_addToDb_spares (lock : Option Bool) (fid' devid : ℕ) :
    (addToDb lock fid' devid).Issues (Stmt.Spares name fid) :=
  issues_addToDb (fun _ => trivial) (fun _ => trivial) (fun _ _ => trivial) lock fid' devid

theorem issues_commitClose_spares (hname : (dmid, key) ≠ name) (hfid : trow.fid ≠ fid) :
    (commitClose env args dmid key path trow dev).Issues (Stmt.Spares name fid) := by
  unfold commitClose
  split
  · exact trivial
  split
  · exact trivial
  refine (issues_addToDb_spares _ _ _).bind fun _ => ?_
  refine ⟨⟨hfid, hname⟩, fun _ => ⟨trivial, fun _ => ⟨trivial, fun _ => ?_⟩⟩⟩
  refine (issues_updateDevcountAtomic (fun _ => trivial) (fun _ _ => trivial) _ _).bind fun stored => ?_
  split_ifs <;> exact trivial

theorem commitClose_binds (db : Db) :
    (((commitClose env args dmid key path trow dev).exec db).2 = db ∧
        ((commitClose env args dmid key path trow dev).exec db).1.okArgs = none) ∨
      Bound ((commitClose env args dmid key path trow dev).exec db).2 (dmid, key) trow.fid := by
  unfold commitClose
  cases env.fileSize path with
  | error e => exact .inl ⟨rfl, rfl⟩
  | ok size =>
    cases hline : verifySize args size path env.lastError with
    | some line =>
      simp only [hline]
      refine .inl ⟨rfl, ?_⟩
      obtain ⟨code, _, text, hmem⟩ := verifySize_answers hline
      rw [List.mem_singleton] at hmem
      rw [← hmem]
      rfl
    | none =>
      simp only [hline, DbProg.exec, Prog.exec_bind, Prog.exec_issue]
      refine .inr ?_
      generalize (Prog.exec Stmt.run (addToDb env.addLock trow.fid dev.devid) db).2 = db'
      -- nothing that follows the replacement unbinds the name
      have hbound : Bound (Stmt.run (.replaceFile ⟨trow.fid, dmid, key, size.getD 0, trow.classid, 0, args "mimetype",
          env.now⟩) db').2 (dmid, key) trow.fid :=
        ⟨_, List.mem_append_right _ (List.mem_singleton_self _), rfl, rfl⟩
      have hcount : (Store.updateDevcountAtomic env.devcountLock trow.fid).Issues
          (Stmt.Spares (dmid, key) trow.fid) :=
        issues_updateDevcountAtomic (fun _ => trivial) (fun _ _ => trivial) _ _
      have hdone := bound_exec hcount (Stmt.bound_run (s := .deleteTempfiles [trow.fid]) trivial
        (Stmt.bound_run (s := .insertFileToReplicate ⟨trow.fid, 0, some dev.devid, 0⟩) trivial hbound))
      split_ifs
      · exact hdone
      · exact hdone

theorem closeTempfile_spares (h : Bound db name fid) (hname : ∀ key, args "key" = some key → key ≠ [] →
    (dmid, key) ≠ name) (hfid : trow.fid ≠ fid) :
    Bound ((closeTempfile env args dmid path trow dev).exec db).2 name fid := by
  have hdelete : Bound ((addToDb env.addLock trow.fid dev.devid >>= fun _ =>
      Store.deleteFidid trow.fid >>= fun _ => pure (Outcome.ok [])).exec db).2 name fid :=
    bound_exec (Prog.Issues.bind (issues_addToDb_spares _ _ _) fun _ =>
      Prog.Issues.bind (issues_deleteFidid_spares trow hfid) fun _ => trivial) h
  unfold closeTempfile
  cases hkey : args "key" with
  | none => exact hdelete
  | some key =>
    cases key with
    | nil => exact hdelete
    | cons c key =>
      have hne := hname _ hkey (List.cons_ne_nil _ _)
      have hcommit : (commitClose env args dmid (c :: key) path trow dev).Issues (Stmt.Spares name fid) :=
        issues_commitClose_spares env args trow dev hne hfid
      simp only [DbProg.exec, Prog.exec_bind, Prog.exec_issue, Stmt.run]
      cases hold : db.file.findName? (dmid, c :: key) with
      | none => exact bound_exec hcommit h
      | some old =>
        have hbound : Bound db (dmid, c :: key) old.fid := bound_iff.mpr ⟨old, hold, rfl⟩
        have holdfid : old.fid ≠ fid := fun heq => hne (hbound.name_unique (heq ▸ h))
        dsimp only
        split_ifs
        · exact h
        · rw [Prog.exec_bind]
          exact bound_exec hcommit (bound_exec
            (p := Store.deleteFidid old.fid) ⟨holdfid, fun _ => ⟨trivial, fun _ => ⟨trivial, fun _ => trivial⟩⟩⟩ h)

theorem closeTempfile_takes (hkey : args "key" = some key) (hne : key ≠ []) (h : Bound db (dmid, key) fid)
    (hpos : fid ≠ 0) {fid' : ℕ}
    (h' : Bound ((closeTempfile env args dmid path trow dev).exec db).2 (dmid, key) fid') : fid' = trow.fid := by
  unfold closeTempfile at h'
  rw [hkey] at h'
  cases key with
  | nil => exact absurd rfl hne
  | cons c key =>
    obtain ⟨old, hold, rfl⟩ := bound_iff.mp h
    simp only [DbProg.exec, Prog.exec_bind, Prog.exec_issue, Stmt.run, hold] at h'
    rw [if_neg hpos, Prog.exec_bind] at h'
    have hgone := findName?_deleteFidid hold
    have hcases : _ ∨ Bound ((commitClose env args dmid (c :: key) path trow dev).exec
        ((Store.deleteFidid old.fid).exec db).2).2 (dmid, c :: key) trow.fid :=
      commitClose_binds env args trow dev _
    rcases hcases with ⟨hsame, _⟩ | hbound
    · rw [hsame] at h'
      obtain ⟨row, hrow, _⟩ := bound_iff.mp h'
      rw [hgone] at hrow
      exact absurd hrow (by simp)
    · exact h'.unique hbound

theorem closeTempfile_ok (hkey : args "key" = some key) (hne : key ≠ [])
    (hok : ((closeTempfile env args dmid path trow dev).exec db).1.okArgs ≠ none) :
    Bound ((closeTempfile env args dmid path trow dev).exec db).2 (dmid, key) trow.fid := by
  unfold closeTempfile at hok ⊢
  rw [hkey] at hok ⊢
  cases key with
  | nil => exact absurd rfl hne
  | cons c key =>
    simp only [DbProg.exec, Prog.exec_bind, Prog.exec_issue, Stmt.run] at hok ⊢
    cases hold : db.file.findName? (dmid, c :: key) with
    | none =>
      rw [hold] at hok
      exact (commitClose_binds env args trow dev db).resolve_left fun hno => hok hno.2
    | some old =>
      rw [hold] at hok
      dsimp only at hok ⊢
      split_ifs at hok ⊢ with hfid
      · exact absurd rfl hok
      · rw [Prog.exec_bind] at hok ⊢
        exact (commitClose_binds env args trow dev _).resolve_left fun hno => hok hno.2

theorem issues_closeTempfile_bindsOther (hfid : trow.fid ≠ fid) :
    (closeTempfile env args dmid path trow dev).Issues (Stmt.BindsOther fid) := by
  have hadd : (addToDb env.addLock trow.fid dev.devid).Issues (Stmt.BindsOther fid) :=
    issues_addToDb (fun _ => trivial) (fun _ => trivial) (fun _ _ => trivial) _ _ _
  have hdeleteFidid : ∀ fid', (Store.deleteFidid fid').Issues (Stmt.BindsOther fid) :=
    fun _ => ⟨trivial, fun _ => ⟨trivial, fun _ => ⟨trivial, fun _ => trivial⟩⟩⟩
  have hdelete : (addToDb env.addLock trow.fid dev.devid >>= fun _ => Store.deleteFidid trow.fid >>= fun _ =>
      pure (Outcome.ok [])).Issues (Stmt.BindsOther fid) :=
    hadd.bind fun _ => (hdeleteFidid _).bind fun _ => trivial
  have hcommit : ∀ key, (commitClose env args dmid key path trow dev).Issues (Stmt.BindsOther fid) := by
    intro key
    unfold commitClose
    split
    · exact trivial
    split
    · exact trivial
    refine hadd.bind fun _ => ⟨hfid, fun _ => ⟨trivial, fun _ => ⟨trivial, fun _ => ?_⟩⟩⟩
    refine (issues_updateDevcountAtomic (fun _ => trivial) (fun _ _ => trivial) _ _).bind fun stored => ?_
    split_ifs <;> exact trivial
  unfold closeTempfile
  split
  · exact hdelete
  · exact hdelete
  refine ⟨trivial, fun old => ?_⟩
  cases old with
  | none => exact hcommit _
  | some old =>
    show Prog.Issues _ (ite _ _ _)
    split_ifs
    · exact trivial
    · exact (hdeleteFidid _).bind fun _ => hcommit _

/-- A close gets as far as the upload, with a key: it takes the name of the key. -/
structure TakesName (env : QueryEnv) (args : Args) (db : Db) (name : ℕ × Text) (upload : ℕ) : Prop where
  domain : checkDomain env args = .ok ([], name.1)
  dmid_ne : name.1 ≠ 0
  fid : Text.truthy (args "fid") = true
  devid : Text.truthy (args "devid") = true
  path : Text.truthy (args "path") = true
  url : ∃ dev, devfidUrl env false ((args "devid").getD []) (Text.unsigned (Text.numify ((args "fid").getD [])))
    = .ok (dev, args "path")
  tempfile : ∃ trow, db.tempfile.rows.find? (fun r => (r.fid : ℚ) = Text.numify ((args "fid").getD [])) = some trow ∧
    trow.fid = upload
  named : args "key" = some name.2
  key_ne : name.2 ≠ []

variable {env args}

theorem cmdCreateClose_domain (db : Db) :
    (((cmdCreateClose env args).exec db).2 = db ∧ ((cmdCreateClose env args).exec db).1.okArgs = none) ∨
      ∃ dmid, checkDomain env args = .ok ([], dmid) ∧ dmid ≠ 0 := by
  cases hdomain : checkDomain env args with
  | error e =>
    rw [cmdCreateClose, withDomain, hdomain]
    exact .inl ⟨rfl, rfl⟩
  | ok found =>
    obtain ⟨lines, dmid⟩ := found
    rcases checkDomain_ok hdomain with ⟨rfl, code, _, rfl⟩ | ⟨hdmid, rfl⟩
    · rw [cmdCreateClose, withDomain, hdomain]
      exact .inl ⟨rfl, rfl⟩
    · exact .inr ⟨dmid, rfl, hdmid⟩

theorem cmdCreateClose_exec (env : QueryEnv) (args : Args) (db : Db) :
    (((cmdCreateClose env args).exec db).2 = db ∧ ((cmdCreateClose env args).exec db).1.okArgs = none) ∨
      ∃ dmid trow dev, (cmdCreateClose env args).exec db =
          (closeTempfile env args dmid ((args "path").getD []) trow dev).exec db ∧
        (db.tempfile.rows.find? fun r => (r.fid : ℚ) = Text.numify ((args "fid").getD [])) = some trow ∧
        ∀ key, args "key" = some key → key ≠ [] → TakesName env args db (dmid, key) trow.fid := by
  rcases cmdCreateClose_domain db with hno | ⟨dmid, hdomain, hdmid⟩
  · exact .inl hno
  · rcases cmdCreateClose_cases env args hdomain hdmid db with
      hno | ⟨trow, dev, hfid, hdevid, hpath, hurl, htemp, hexec⟩
    · exact .inl hno
    · exact .inr ⟨dmid, trow, dev, hexec, htemp, fun key hkey hne =>
        ⟨hdomain, hdmid, hfid, hdevid, hpath, ⟨dev, hurl⟩, ⟨trow, htemp, rfl⟩, hkey, hne⟩⟩

theorem cmdCreateClose_spares (h : Bound db name fid) (hnot : ∀ fid', ¬ TakesName env args db name fid')
    (hfid : ∀ trow ∈ db.tempfile.rows, (trow.fid : ℚ) = Text.numify ((args "fid").getD []) → trow.fid ≠ fid) :
    Bound ((cmdCreateClose env args).exec db).2 name fid := by
  rcases cmdCreateClose_exec env args db with ⟨hsame, _⟩ | ⟨dmid, trow, dev, hexec, htemp, htakes⟩
  · rwa [hsame]
  · have htrow : (trow.fid : ℚ) = Text.numify ((args "fid").getD []) := by simpa using List.find?_some htemp
    rw [hexec]
    refine closeTempfile_spares env args trow dev h (fun key hkey hne heq => ?_)
      (hfid trow (List.mem_of_find?_eq_some htemp) htrow)
    exact hnot _ (heq ▸ htakes key hkey hne)

theorem TakesName.exec {upload : ℕ} (h : TakesName env args db name upload) :
    ∃ trow dev, trow.fid = upload ∧ (cmdCreateClose env args).exec db =
      (closeTempfile env args name.1 ((args "path").getD []) trow dev).exec db := by
  obtain ⟨dev, hurl⟩ := h.url
  obtain ⟨trow, htrow, hfid⟩ := h.tempfile
  have hpath : some ((args "path").getD []) = args "path" := (truthy_eq_some h.path).symm
  refine ⟨trow, dev, hfid, ?_⟩
  rw [cmdCreateClose, withDomain_ok h.domain h.dmid_ne]
  simp only [h.fid, h.devid, h.path, Bool.not_true, Bool.false_eq_true, if_false, hurl, hpath, ne_eq,
    not_true_eq_false, DbProg.exec, Prog.exec_bind, Prog.exec_issue, Stmt.run, htrow]

theorem cmdCreateClose_takes {upload fid' : ℕ} (htakes : TakesName env args db name upload)
    (h : Bound db name fid) (hpos : fid ≠ 0) (h' : Bound ((cmdCreateClose env args).exec db).2 name fid') :
    fid' = upload := by
  obtain ⟨trow, dev, rfl, hexec⟩ := htakes.exec
  rw [hexec] at h'
  exact closeTempfile_takes env args trow dev htakes.named htakes.key_ne h hpos h'

theorem cmdCreateClose_origin (h : Bound ((cmdCreateClose env args).exec db).2 name fid)
    (hfid : ∀ trow ∈ db.tempfile.rows, (trow.fid : ℚ) = Text.numify ((args "fid").getD []) → trow.fid ≠ fid) :
    Bound db name fid := by
  rcases cmdCreateClose_exec env args db with ⟨hsame, _⟩ | ⟨dmid, trow, dev, hexec, htemp, _⟩
  · rwa [hsame] at h
  · have htrow : (trow.fid : ℚ) = Text.numify ((args "fid").getD []) := by simpa using List.find?_some htemp
    rw [hexec] at h
    exact bound_of_exec (issues_closeTempfile_bindsOther env args trow dev
      (hfid trow (List.mem_of_find?_eq_some htemp) htrow)) h

theorem cmdCreateClose_ok {key : Text} (hkey : args "key" = some key) (hne : key ≠ [])
    (hok : ((cmdCreateClose env args).exec db).1.okArgs ≠ none) :
    ∃ dmid fid, TakesName env args db (dmid, key) fid ∧
      Bound ((cmdCreateClose env args).exec db).2 (dmid, key) fid := by
  rcases cmdCreateClose_exec env args db with ⟨_, hno⟩ | ⟨dmid, trow, dev, hexec, htemp, htakes⟩
  · exact absurd hno hok
  · rw [hexec] at hok ⊢
    exact ⟨dmid, trow.fid, htakes key hkey hne, closeTempfile_ok env args trow dev hkey hne hok⟩

end Close

/-! ### Opening an upload -/

section Open

variable {env : CreateOpenEnv} {args : Args} {db : Db} {new : NewTempfile}

theorem sparesFile_register (new : NewTempfile) : RegisterStmts new Stmt.SparesFile :=
  ⟨fun _ _ _ => trivial, fun _ => trivial, trivial, fun _ => trivial⟩

theorem issues_cmdCreateOpen (env : CreateOpenEnv) (args : Args) :
    (cmdCreateOpen env args).Issues Stmt.SparesFile :=
  issues_of_registerStmts env args fun new _ => sparesFile_register new

theorem insTempfile_pos {fid : Option ℤ} {reseeded : Bool} {n : ℕ}
    (h : ((Store.insTempfile new fid reseeded).exec db).1 = .ok (some n)) : 0 < n := by
  simp only [Store.insTempfile, DbProg.exec, Prog.exec_bind, Prog.exec_issue] at h
  split at h
  · simp at h
  · split at h
    · split_ifs at h with hpos
      · simp only [Prog.pure_eq, Prog.exec_ret, Except.ok.injEq, Option.some.injEq] at h
        omega
      · simp at h
    · split_ifs at h with hzero
      · simp at h
      · simp only [Prog.pure_eq, Prog.exec_ret, Except.ok.injEq, Option.some.injEq] at h
        omega

theorem reseed_pos {fid : ℕ} {reseeded : ℕ → Bool} {n : ℕ}
    (h : ((Store.reseed new fid reseeded).exec db).1 = .ok (some n)) : 0 < n := by
  simp only [Store.reseed, DbProg.exec, Prog.exec_bind, Prog.exec_issue] at h
  split at h
  · simp at h
  · exact insTempfile_pos h
  · exact insTempfile_pos (by simpa only [Prog.exec_bind, Prog.exec_issue] using h)

theorem reseedLoop_ok (explicit : Bool) (fuel : ℕ) (reseeded : ℕ → Bool) {fid n : ℕ} (hpos : 0 < fid) (db : Db)
    (h : ((Store.reseedLoop new explicit fuel reseeded fid).exec db).1 = .ok n) : 0 < n ∧ ¬ db.file.Has n := by
  induction fuel generalizing reseeded fid db with
  | zero => simp [Store.reseedLoop] at h
  | succ fuel ih =>
    have huse := Store.exec_fidInUse fid db
    simp only [DbProg.exec] at huse
    simp only [Store.reseedLoop, DbProg.exec, Prog.exec_bind, huse] at h
    by_cases hused : db.file.Has fid
    · rw [decide_eq_true hused] at h
      dsimp only at h
      split_ifs at h
      · simp at h
      · rw [Prog.exec_bind] at h
        have hsame : (Prog.exec Stmt.run (Store.reseed new fid reseeded) db).2.file = db.file :=
          file_exec (issues_reseed (sparesFile_register new) fid reseeded) db
        split at h
        · simp at h
        · simp at h
        · rename_i found heq
          have hloop := ih _ (reseed_pos heq) _ h
          rwa [hsame] at hloop
    · rw [decide_eq_false hused] at h
      simp only [Prog.pure_eq, Prog.exec_ret, Registered.ok.injEq] at h
      exact h ▸ ⟨hpos, hused⟩

theorem registerTempfile_ok {fid : Option ℤ} {fuel : ℕ} {reseeded : ℕ → Bool} {n : ℕ} (db : Db)
    (h : ((Store.registerTempfile new fid fuel reseeded).exec db).1 = .ok n) : 0 < n ∧ ¬ db.file.Has n := by
  have hsame : ((Store.insTempfile new fid (reseeded 0)).exec db).2.file = db.file :=
    file_exec (issues_insTempfile (sparesFile_register new) fid (reseeded 0)) db
  rw [Store.registerTempfile, DbProg.exec, Prog.exec_bind] at h
  cases heq : ((Store.insTempfile new fid (reseeded 0)).exec db).1 with
  | error e =>
    rw [DbProg.exec] at heq
    rw [heq] at h
    cases h
  | ok found =>
    rw [DbProg.exec] at heq
    rw [heq] at h
    cases found with
    | none => cases h
    | some fid' =>
      have hloop := reseedLoop_ok _ _ _ (insTempfile_pos heq) _ h
      rwa [hsame] at hloop

/-- The arguments of an `OK` begin with the fid. -/
theorem openReply_fid {multi : Bool} {dests : List Device} {fid : ℕ} {reply : List (Text × Text)}
    (h : (openReply env args multi dests fid).okArgs = some reply) :
    reply.lookup "fid".toList = some (Text.decimal fid) := by
  have hargs : ∀ reply, openArgs env args multi fid dests = .ok reply →
      reply.lookup "fid".toList = some (Text.decimal fid) := by
    intro reply hreply
    unfold openArgs at hreply
    extract_lets profile common at hreply
    split_ifs at hreply
    · cases hpaths : (dests.zipIdx 1).mapM fun d => destArgs env ('_' :: Text.decimal d.2) fid d.1 with
      | error e =>
        rw [hpaths] at hreply
        cases hreply
      | ok paths =>
        rw [hpaths] at hreply
        cases hreply
        rfl
    · cases hpaths : (dests.take 1).mapM fun d => destArgs env [] fid d with
      | error e =>
        rw [hpaths] at hreply
        cases hreply
      | ok paths =>
        rw [hpaths] at hreply
        cases hreply
        rfl
  unfold openReply at h
  split at h
  · cases h
  · cases hreply : openArgs env args multi fid dests with
    | error e =>
      rw [hreply] at h
      cases h
    | ok found =>
      rw [hreply] at h
      exact Option.some.inj h ▸ hargs found hreply

/-- An `OK` to an open gives out a positive fid that no name is bound to. -/
theorem cmdCreateOpen_ok {o : Outcome} {reply : List (Text × Text)}
    (h : ((cmdCreateOpen env args).exec db).1 = some o) (hok : o.okArgs = some reply) :
    ∃ fid, 0 < fid ∧ ¬ db.file.Has fid ∧ reply.lookup "fid".toList = some (Text.decimal fid) := by
  unfold cmdCreateOpen at h
  split at h
  · cases h
    cases hok
  · rename_i lines hdomain
    cases h
    rcases checkDomain_ok hdomain with ⟨_, code, _, rfl⟩ | ⟨hne, _⟩
    · cases hok
    · exact absurd rfl hne
  split at h
  · cases h
    cases hok
  · cases h
    cases hok
  extract_lets multi at h
  split at h
  · cases h
    cases hok
  · rename_i dests _
    simp only [openTempfile, DbProg.exec, Prog.exec_bind] at h
    split at h
    · cases h
    · cases h
      cases hok
    · cases h
      cases hok
    · rename_i fid hregistered
      cases h
      obtain ⟨hpos, hfree⟩ := registerTempfile_ok db hregistered
      exact ⟨fid, hpos, hfree, openReply_fid hok⟩

end Open

end Ylem
