import Ylem.Query.Reply

/-!
# Closing an upload

`cmd_create_close` turns a tempfile into the file of a key. When the key has a file already it deletes
that file first (`old_fid->delete`) and checks the size of the new one afterwards, so that an upload whose
size check fails costs the old version. The result below is that this is the only way in which a request that
is answered with one of the handler's errors touches the old version.
-/

namespace Ylem

/-- The size check: `size` is what the storage node answers. Nothing is the good case. -/
def verifySize (args : Args) (size : Option ℕ) (path lastError : Text) : Option Reply :=
  let expected := Text.numify ((args "size").getD [])
  let expectedText := (args "size").getD []
  if (args "size").isSome ∧ 0 < expected ∧ (size = none ∨ size = some 0) then
    let type := if size.isSome then "missing" else "cantreach"
    some (errLine "size_verify_error" (some ("Expected: ".toList ++ expectedText ++ "; actual: 0 (".toList ++
      type.toList ++ "); path: ".toList ++ path ++ "; error: ".toList ++ lastError)))
  else if Text.truthy (args "size") ∧ expected ≠ (size.getD 0 : ℚ) then
    some (errLine "size_mismatch" (some ("Expected: ".toList ++ expectedText ++ "; actual: ".toList ++
      (size.map Text.decimal).getD [] ++ "; path: ".toList ++ path)))
  else if size = none ∨ size = some 0 then some (errLine "empty_file" none)
  else none

section Handler

variable (env : QueryEnv) (args : Args)

/-- The tail of the handler: the size is checked, the file is committed and queued for replication. -/
def commitClose (dmid : ℕ) (key path : Text) (trow : TempfileRow) (dev : Device) : DbProg Outcome :=
  match env.fileSize path with
  | .error e => pure (.dies e)
  | .ok size =>
    match verifySize args size path env.lastError with
    | some line => pure ⟨[line], none⟩
    | none => do
      let _ ← addToDb env.addLock trow.fid dev.devid
      sql (.replaceFile ⟨trow.fid, dmid, key, size.getD 0, trow.classid, 0, args "mimetype", env.now⟩)
      sql (.insertFileToReplicate ⟨trow.fid, 0, some dev.devid, 0⟩)
      sql (.deleteTempfiles [trow.fid])
      if ← Store.updateDevcountAtomic env.devcountLock trow.fid then pure (.ok [])
      else pure (.err "db_error")

/-- The handler once it has found the tempfile. -/
def closeTempfile (dmid : ℕ) (path : Text) (trow : TempfileRow) (dev : Device) : DbProg Outcome :=
  match args "key" with
  | none | some [] => do
    -- a close without a key deletes the upload
    let _ ← addToDb env.addLock trow.fid dev.devid
    Store.deleteFidid trow.fid
    pure (.ok [])
  | some key => do
    match ← sql (.selectFileByName dmid key) with
    | none => commitClose env args dmid key path trow dev
    | some old =>
      if old.fid = 0 then pure (.dies (.other "Missing 'fid' column".toList))
      else do
        Store.deleteFidid old.fid
        commitClose env args dmid key path trow dev

/-- `cmd_create_close`, without plugin hooks. -/
def cmdCreateClose : DbProg Outcome :=
  withDomain env args fun dmid =>
    if !Text.truthy (args "fid") then pure (.err "no_fid")
    else if !Text.truthy (args "devid") then pure (.err "no_devid")
    else if !Text.truthy (args "path") then pure (.err "no_path")
    else
      let fidid := Text.numify ((args "fid").getD [])
      let devid := (args "devid").getD []
      let path := (args "path").getD []
      match devfidUrl env false devid (Text.unsigned fidid) with
      | .error e => pure (.dies e)
      | .ok (dev, url) =>
        if url ≠ some path then pure (.err "bogus_args")
        else do
          match ← sql (.selectTempfile fidid) with
          | none => pure (.err "no_temp_file")
          | some trow => closeTempfile env args dmid path trow dev

end Handler

/-- What is left to do once the file of a fid is committed. -/
def afterCommit (lock : Option Bool) (fid devid : ℕ) : DbProg Outcome := do
  sql (.insertFileToReplicate ⟨fid, 0, some devid, 0⟩)
  sql (.deleteTempfiles [fid])
  let stored ← Store.updateDevcountAtomic lock fid
  pure (if stored then .ok [] else .err "db_error")

theorem commitClose_eq (env : QueryEnv) (args : Args) (dmid : ℕ) (key path : Text) (trow : TempfileRow)
    (dev : Device) :
    (∃ o, commitClose env args dmid key path trow dev = pure o) ∨ ∃ row : FileRow, row.fid = trow.fid ∧
      row.name = (dmid, key) ∧ commitClose env args dmid key path trow dev =
        addToDb env.addLock trow.fid dev.devid >>= fun _ => sql (.replaceFile row) >>= fun _ =>
          afterCommit env.devcountLock trow.fid dev.devid := by
  unfold commitClose
  split
  · exact .inl ⟨_, rfl⟩
  split
  · exact .inl ⟨_, rfl⟩
  rename_i size _ _ _
  refine .inr ⟨⟨trow.fid, dmid, key, size.getD 0, trow.classid, 0, args "mimetype", env.now⟩, rfl, rfl, ?_⟩
  simp only [afterCommit, apply_ite (pure : Outcome → DbProg Outcome)]

theorem cmdCreateClose_eq (env : QueryEnv) (args : Args) :
    (∃ o, cmdCreateClose env args = pure o) ∨ ∃ fid dmid path dev,
      cmdCreateClose env args = sql (.selectTempfile fid) >>= fun trow =>
        match trow with
        | none => pure (.err "no_temp_file")
        | some trow => closeTempfile env args dmid path trow dev := by
  unfold cmdCreateClose withDomain
  split
  · exact .inl ⟨_, rfl⟩
  · exact .inl ⟨_, rfl⟩
  split_ifs
  · exact .inl ⟨_, rfl⟩
  · exact .inl ⟨_, rfl⟩
  · exact .inl ⟨_, rfl⟩
  extract_lets
  split
  · exact .inl ⟨_, rfl⟩
  split_ifs
  · exact .inl ⟨_, rfl⟩
  · exact .inr ⟨_, _, _, _, rfl⟩

/-! ### The old version -/

/-- The errors of the handler itself. -/
def closeErrors : List String :=
  ["no_fid", "no_devid", "no_path", "bogus_args", "no_temp_file", "size_verify_error", "size_mismatch",
    "empty_file"]

/-- A handler has answered with one of these errors. -/
def Outcome.Answers (codes : List String) (o : Outcome) : Prop :=
  ∃ code ∈ codes, ∃ text, Reply.err code text ∈ o.lines

/-- The file row of a name is untouched, and its fid has not become one to delete. -/
def KeepsVersion (name : ℕ × Text) (db db' : Db) : Prop :=
  ∀ row, db.file.findName? name = some row →
    db'.file.findName? name = some row ∧ (db'.fileToDelete.Has row.fid → db.fileToDelete.Has row.fid)

/-- The request names a domain, an upload that exists and a key that has a file, and the size check of the
upload fails. -/
structure CostsOldVersion (env : QueryEnv) (args : Args) (db : Db) (dmid : ℕ) (key : Text) : Prop where
  domain : checkDomain env args = .ok ([], dmid)
  dmid_ne : dmid ≠ 0
  fid : Text.truthy (args "fid") = true
  devid : Text.truthy (args "devid") = true
  path : Text.truthy (args "path") = true
  url : ∃ dev, devfidUrl env false ((args "devid").getD []) (Text.unsigned (Text.numify ((args "fid").getD [])))
    = .ok (dev, args "path")
  tempfile : ∃ trow ∈ db.tempfile.rows, (trow.fid : ℚ) = Text.numify ((args "fid").getD [])
  named : args "key" = some key
  key_ne : key ≠ []
  old : ∃ row, db.file.findName? (dmid, key) = some row ∧ row.fid ≠ 0
  size : ∃ size line, env.fileSize ((args "path").getD []) = .ok size ∧
    verifySize args size ((args "path").getD []) env.lastError = some line

theorem KeepsVersion.refl (name : ℕ × Text) (db : Db) : KeepsVersion name db db := fun _ h => ⟨h, id⟩

theorem truthy_eq_some {t : Option Text} (h : Text.truthy t = true) : t = some (t.getD []) := by
  cases t with
  | none => cases h
  | some t => rfl

theorem checkDomain_ok {env : QueryEnv} {args : Args} {lines : List Reply} {dmid : ℕ}
    (h : checkDomain env args = .ok (lines, dmid)) :
    (dmid = 0 ∧ ∃ code, (code = "no_domain" ∨ code = "unreg_domain") ∧ lines = [errLine code none]) ∨
      (dmid ≠ 0 ∧ lines = []) := by
  unfold checkDomain at h
  split at h
  · cases h
    exact .inl ⟨rfl, _, .inl rfl, rfl⟩
  · cases h
    exact .inl ⟨rfl, _, .inl rfl, rfl⟩
  · split at h
    · cases h
    · cases h
      exact .inl ⟨rfl, _, .inr rfl, rfl⟩
    · cases h
      exact .inl ⟨rfl, _, .inr rfl, rfl⟩
    · rename_i hid _
      cases h
      exact .inr ⟨hid, rfl⟩

theorem withDomain_ok {env : QueryEnv} {args : Args} {lines : List Reply} {dmid : ℕ}
    (h : checkDomain env args = .ok (lines, dmid)) (hne : dmid ≠ 0) (handler : ℕ → DbProg Outcome) :
    withDomain env args handler = handler dmid := by
  unfold withDomain
  rw [h]
  cases dmid with
  | zero => exact absurd rfl hne
  | succ n => rfl

theorem verifySize_answers {args : Args} {size : Option ℕ} {path lastError : Text} {line : Reply}
    (h : verifySize args size path lastError = some line) :
    Outcome.Answers closeErrors ⟨[line], none⟩ := by
  have hanswers : ∀ code ∈ closeErrors, ∀ text, some (errLine code text) = some line →
      Outcome.Answers closeErrors ⟨[line], none⟩ := by
    rintro code hcode text heq
    obtain rfl := Option.some.inj heq
    exact ⟨code, hcode, _, List.mem_singleton_self _⟩
  unfold verifySize at h
  extract_lets at h
  by_cases hzero : (args "size").isSome ∧ 0 < Text.numify ((args "size").getD []) ∧
      (size = none ∨ size = some 0)
  · rw [if_pos hzero] at h
    exact hanswers _ (by decide) _ h
  rw [if_neg hzero] at h
  split_ifs at h
  · exact hanswers _ (by decide) _ h
  · exact hanswers _ (by decide) _ h

section Close

variable (env : QueryEnv) (args : Args) {dmid : ℕ} {key path : Text} (trow : TempfileRow) (dev : Device)

theorem commitClose_cases (dmid : ℕ) (key path : Text) (db : Db) :
    (∃ size line, env.fileSize path = .ok size ∧ verifySize args size path env.lastError = some line ∧
        (commitClose env args dmid key path trow dev).exec db = (⟨[line], none⟩, db)) ∨
      ¬ ((commitClose env args dmid key path trow dev).exec db).1.Answers closeErrors := by
  unfold commitClose
  cases hsize : env.fileSize path with
  | error e =>
    refine .inr ?_
    rintro ⟨code, -, text, hmem⟩
    cases hmem
  | ok size =>
    cases hline : verifySize args size path env.lastError with
    | some line => exact .inl ⟨size, line, rfl, hline, by simp only [hline]; rfl⟩
    | none =>
      refine .inr ?_
      simp only [hline, DbProg.exec, Prog.exec_bind]
      rintro ⟨code, hcode, text, hmem⟩
      split_ifs at hmem
      · simp [Outcome.ok] at hmem
      · simp only [Outcome.err, errLine, Prog.pure_eq, Prog.exec_ret, List.mem_singleton,
          Reply.err.injEq] at hmem
        obtain ⟨rfl, -⟩ := hmem
        revert hcode
        decide

theorem findName?_deleteFidid {db : Db} {name : ℕ × Text} {row : FileRow}
    (h : db.file.findName? name = some row) :
    ((Store.deleteFidid row.fid).exec db).2.file.findName? name = none := by
  have hmem : row ∈ db.file.rows := List.mem_of_find?_eq_some h
  have hname : row.name = name := by simpa using List.find?_some h
  have hfile : ((Store.deleteFidid row.fid).exec db).2.file = db.file.delete fun r => r.fid = row.fid := rfl
  rw [hfile, FileTable.findName?, List.find?_eq_none]
  intro r hr
  obtain ⟨hr, hne⟩ := List.mem_filter.mp hr
  simp only [Bool.not_eq_true', decide_eq_false_iff_not] at hne
  simp only [decide_eq_true_eq]
  intro hsame
  exact hne (congrArg FileRow.fid (List.inj_on_of_nodup_map db.file.name_nodup hr hmem
    (hsame.trans hname.symm)))

theorem closeTempfile_cases {db : Db} (hkey : args "key" = some key)
    (hanswers : ((closeTempfile env args dmid path trow dev).exec db).1.Answers closeErrors) :
    KeepsVersion (dmid, key) db ((closeTempfile env args dmid path trow dev).exec db).2 ∨
      key ≠ [] ∧ (∃ row, db.file.findName? (dmid, key) = some row ∧ row.fid ≠ 0) ∧
        ∃ size line, env.fileSize path = .ok size ∧ verifySize args size path env.lastError = some line := by
  revert hanswers
  unfold closeTempfile
  rw [hkey]
  cases key with
  | nil =>
    simp only [DbProg.exec, Prog.exec_bind, Prog.pure_eq, Prog.exec_ret]
    rintro ⟨code, -, text, hmem⟩
    simp [Outcome.ok] at hmem
  | cons c key =>
    simp only [DbProg.exec, Prog.exec_bind, Prog.exec_issue, Stmt.run]
    cases hold : db.file.findName? (dmid, c :: key) with
    | none =>
      intro _
      exact .inl fun row hrow => absurd (hold.symm.trans hrow) (by simp)
    | some old =>
      dsimp only
      split_ifs with hfid
      · intro _
        exact .inl (KeepsVersion.refl _ _)
      · intro hanswers
        rw [Prog.exec_bind] at hanswers
        rcases commitClose_cases env args trow dev dmid (c :: key) path
          ((Store.deleteFidid old.fid).exec db).2 with ⟨size, line, hsize, hline, -⟩ | hno
        · exact .inr ⟨by simp, ⟨old, rfl, hfid⟩, size, line, hsize, hline⟩
        · exact absurd hanswers hno

theorem closeTempfile_size_error {db : Db} {old : FileRow} {size : Option ℕ} {line : Reply}
    (hkey : args "key" = some key) (hne : key ≠ []) (hold : db.file.findName? (dmid, key) = some old)
    (hold0 : old.fid ≠ 0) (hsize : env.fileSize path = .ok size)
    (hline : verifySize args size path env.lastError = some line) :
    (closeTempfile env args dmid path trow dev).exec db =
      (⟨[line], none⟩, ((Store.deleteFidid old.fid).exec db).2) := by
  unfold closeTempfile commitClose
  rw [hkey]
  cases key with
  | nil => exact absurd rfl hne
  | cons c key =>
    simp only [DbProg.exec, Prog.exec_bind, Prog.exec_issue, Stmt.run, hold, hold0, if_false, hsize, hline,
      Prog.pure_eq, Prog.exec_ret]

/-- The handler answers no `OK` and leaves the database alone, or it finds the upload. -/
theorem cmdCreateClose_cases (hdomain : checkDomain env args = .ok ([], dmid)) (hdmid : dmid ≠ 0) (db : Db) :
    (((cmdCreateClose env args).exec db).2 = db ∧ ((cmdCreateClose env args).exec db).1.okArgs = none) ∨
      ∃ trow dev, Text.truthy (args "fid") = true ∧ Text.truthy (args "devid") = true ∧
        Text.truthy (args "path") = true ∧
        devfidUrl env false ((args "devid").getD []) (Text.unsigned (Text.numify ((args "fid").getD []))) =
          .ok (dev, args "path") ∧
        (db.tempfile.rows.find? fun r => (r.fid : ℚ) = Text.numify ((args "fid").getD [])) = some trow ∧
        (cmdCreateClose env args).exec db =
          (closeTempfile env args dmid ((args "path").getD []) trow dev).exec db := by
  rw [cmdCreateClose, withDomain_ok hdomain hdmid]
  split_ifs with hfid hdevid hpath
  · exact .inl ⟨rfl, rfl⟩
  · exact .inl ⟨rfl, rfl⟩
  · exact .inl ⟨rfl, rfl⟩
  simp only [Bool.not_eq_true', Bool.not_eq_false] at hfid hdevid hpath
  extract_lets fidid devid path
  cases hurl : devfidUrl env false devid (Text.unsigned fidid) with
  | error e => exact .inl ⟨rfl, rfl⟩
  | ok found =>
    obtain ⟨dev, url⟩ := found
    dsimp only
    split_ifs with hbogus
    · exact .inl ⟨rfl, rfl⟩
    rw [ne_eq, not_not] at hbogus
    have hsome : url = args "path" := hbogus.trans (truthy_eq_some hpath).symm
    simp only [DbProg.exec, Prog.exec_bind, Prog.exec_issue, Stmt.run]
    cases htemp : db.tempfile.rows.find? fun r => (r.fid : ℚ) = fidid with
    | none => exact .inl ⟨rfl, rfl⟩
    | some trow => exact .inr ⟨trow, dev, hfid, hdevid, hpath, by rw [hsome], rfl, rfl⟩

variable {env args}

theorem CostsOldVersion.lost {db : Db} (h : CostsOldVersion env args db dmid key) :
    ((cmdCreateClose env args).exec db).1.Answers closeErrors ∧
      ¬ KeepsVersion (dmid, key) db ((cmdCreateClose env args).exec db).2 := by
  obtain ⟨dev, hurl⟩ := h.url
  obtain ⟨old, hold, hold0⟩ := h.old
  obtain ⟨size, line, hsize, hline⟩ := h.size
  obtain ⟨trow, htrow⟩ : ∃ trow,
      db.tempfile.rows.find? (fun r => (r.fid : ℚ) = Text.numify ((args "fid").getD [])) = some trow := by
    rw [← Option.isSome_iff_exists, List.find?_isSome]
    obtain ⟨trow, hmem, hfid⟩ := h.tempfile
    exact ⟨trow, hmem, decide_eq_true hfid⟩
  have hexec : (cmdCreateClose env args).exec db =
      (⟨[line], none⟩, ((Store.deleteFidid old.fid).exec db).2) := by
    have hpath : some ((args "path").getD []) = args "path" := (truthy_eq_some h.path).symm
    rw [cmdCreateClose, withDomain_ok h.domain h.dmid_ne]
    simp only [h.fid, h.devid, h.path, Bool.not_true, Bool.false_eq_true, if_false, hurl, hpath, ne_eq,
      not_true_eq_false, DbProg.exec, Prog.exec_bind, Prog.exec_issue, Stmt.run, htrow]
    exact closeTempfile_size_error env args trow dev h.named h.key_ne hold hold0 hsize hline
  rw [hexec]
  refine ⟨verifySize_answers hline, fun hkeeps => ?_⟩
  have hgone := findName?_deleteFidid hold
  rw [(hkeeps old hold).1] at hgone
  cases hgone

end Close

/-! ### A request that fails -/

/-- An answer with an error of the handler leaves the file row of the key as it was, and its fid out of
`file_to_delete`. -/
def FailureKeepsOld (env : QueryEnv) (args : Args) (db : Db) : Prop :=
  ((cmdCreateClose env args).exec db).1.Answers closeErrors →
    ∀ lines dmid key, checkDomain env args = .ok (lines, dmid) → args "key" = some key →
      KeepsVersion (dmid, key) db ((cmdCreateClose env args).exec db).2

/-- A failed upload keeps the old version, except where it is the size check that fails: the old version is
deleted before the check. -/
theorem createClose_keeps_old_iff (env : QueryEnv) (args : Args) (db : Db) :
    FailureKeepsOld env args db ↔ ∀ dmid key, ¬ CostsOldVersion env args db dmid key := by
  constructor
  · intro h dmid key hcosts
    obtain ⟨hanswers, hlost⟩ := hcosts.lost
    exact hlost (h hanswers _ _ _ hcosts.domain hcosts.named)
  · intro h hanswers lines dmid key hdomain hkey
    rcases checkDomain_ok hdomain with ⟨rfl, code, hcode, rfl⟩ | ⟨hdmid, rfl⟩
    · have hexec : ((cmdCreateClose env args).exec db).2 = db := by
        rw [cmdCreateClose, withDomain, hdomain]
        rfl
      rw [hexec]
      exact KeepsVersion.refl _ _
    rcases cmdCreateClose_cases env args hdomain hdmid db with
      ⟨hdb, _⟩ | ⟨trow, dev, hfid, hdevid, hpath, hurl, htemp, hexec⟩
    · rw [hdb]
      exact KeepsVersion.refl _ _
    rw [hexec] at hanswers ⊢
    rcases closeTempfile_cases env args trow dev hkey hanswers with hkeeps | ⟨hne, hold, hsize⟩
    · exact hkeeps
    · have htemp' : trow ∈ db.tempfile.rows := List.mem_of_find?_eq_some htemp
      have htrow : (trow.fid : ℚ) = Text.numify ((args "fid").getD []) := by simpa using List.find?_some htemp
      exact absurd ⟨hdomain, hdmid, hfid, hdevid, hpath, ⟨dev, hurl⟩, ⟨trow, htemp', htrow⟩,
        hkey, hne, hold, hsize⟩ (h dmid key)

/-- A tracker with the devices of `twoHosts`; the file that was uploaded turns out to be empty. -/
def emptyUpload : QueryEnv where
  idOfName := fun _ => .ok (some 1)
  devs := twoHosts
  zone := ⟨false, none, fun _ _ => false⟩
  volumeId := some "0".toList
  fileSize := fun _ => .ok (some 0)
  lastError := []
  addLock := some true
  devcountLock := some true
  now := 0

/-- The close of the upload of fid 2 under the key `key`. -/
def closeFid2 : Args
  | "domain" => some "d".toList
  | "key" => some "key".toList
  | "fid" => some "2".toList
  | "devid" => some "1".toList
  | "path" => some "http://10.0.0.1:7500/dev1/vol0/0/000/000/0000000002.fid".toList
  | _ => none

/-- The key has fid 1, and fid 2 is being uploaded to replace it. -/
def oldAndUpload : Db :=
  { Db.fresh with
    file := .single ⟨1, 1, "key".toList, 5, 0, 1, none, 0⟩
    tempfile := .single ⟨2, 0, 0, 1, "key".toList, "1".toList⟩
    fileOn := .single (1, 1) }

/-- The empty upload is refused, and the old file of the key is gone. -/
theorem createClose_loses_old : ¬ FailureKeepsOld emptyUpload closeFid2 oldAndUpload := by
  have hresult : ((cmdCreateClose emptyUpload closeFid2).exec oldAndUpload).1.lines = [errLine "empty_file" none] ∧
      ((cmdCreateClose emptyUpload closeFid2).exec oldAndUpload).2.file.findName? (1, "key".toList) = none := by
    decide +kernel
  obtain ⟨hlines, hgone⟩ := hresult
  intro h
  have hanswers : ((cmdCreateClose emptyUpload closeFid2).exec oldAndUpload).1.Answers closeErrors :=
    ⟨"empty_file", by decide, _, by rw [hlines]; exact List.mem_singleton_self _⟩
  have hkeeps := (h hanswers [] 1 "key".toList rfl rfl _ rfl).1
  rw [hgone] at hkeeps
  cases hkeeps

end Ylem
