import Ylem.Query.Reply
import Ylem.Store.RegisterTempfile

/-!
# Domains and classes

The commands that create, change and delete domains and classes, with the functions of `MogileFS::Domain`,
`MogileFS::Class` and `MogileFS::Store` below them. The id of a new domain is the one after the largest that
table `domain` still has, and the rows of table `class` name their domain by its id.

A command runs alone. It finds the domains as they are, and the classes as they were when the worker loaded
them last (`ClassEnv.cached`), which may have been at any earlier time.
-/

namespace Ylem

/-! ### The tables -/

structure DomainRow where
  dmid : ℕ
  ns : Text
  deriving DecidableEq, Repr

structure ClassRow where
  dmid : ℕ
  classid : ℕ
  classname : Text
  mindevcount : ℚ
  replpolicy : Option Text
  deriving DecidableEq, Repr

namespace ClassRow

/-- `PRIMARY KEY (dmid, classid)`. -/
def key (c : ClassRow) : ℕ × ℕ := (c.dmid, c.classid)

/-- `UNIQUE (dmid, classname)`. -/
def name (c : ClassRow) : ℕ × Text := (c.dmid, c.classname)

end ClassRow

/-- The tables of the tracker with those of domains and classes. -/
structure Tables where
  db : Db
  domain : TwoKeyTable DomainRow ℕ Text DomainRow.dmid DomainRow.ns
  cls : TwoKeyTable ClassRow (ℕ × ℕ) (ℕ × Text) ClassRow.key ClassRow.name

/-- Tables after `setup_database`. -/
def Tables.fresh : Tables := ⟨Db.fresh, .empty, .empty⟩

namespace Store

variable (t : Tables)

/-- The id of the new domain; nothing for a duplicate name. -/
def createDomain (ns : Text) : Option (ℕ × Tables) :=
  let maxid := (t.domain.rows.map DomainRow.dmid).max?.getD 0
  (t.domain.insert? ⟨maxid + 1, ns⟩).map fun domain => (maxid + 1, { t with domain })

def deleteDomain (dmid : ℕ) : Tables := { t with domain := t.domain.delete fun r => r.dmid = dmid }

def domainHasFiles (dmid : ℕ) : Bool :=
  match t.db.file.rows.find? fun r => r.dmid = dmid with
  | some row => row.fid != 0
  | none => false

def classHasFiles (dmid classid : ℕ) : Bool :=
  match t.db.file.rows.find? fun r => r.dmid = dmid ∧ r.classid = classid with
  | some row => row.fid != 0
  | none => false

/-- The id of the new class; nothing for a duplicate name. -/
def createClass (dmid : ℕ) (classname : Text) : Option (ℕ × Tables) :=
  let maxid := ((t.cls.rows.filter fun r => r.dmid = dmid).map ClassRow.classid).max?.getD 0
  (t.cls.insert? ⟨dmid, maxid + 1, classname, 2, none⟩).map fun cls => (maxid + 1, { t with cls })

/-- Nothing for a duplicate name. -/
def updateClassName (dmid classid : ℕ) (classname : Text) : Option Tables :=
  (t.cls.update? fun r => if r.dmid = dmid ∧ r.classid = classid then { r with classname } else r).map
    fun cls => { t with cls }

def updateClassMindevcount (dmid classid : ℕ) (mindevcount : ℚ) : Tables :=
  let cls := t.cls.update (fun r => if r.dmid = dmid ∧ r.classid = classid then { r with mindevcount } else r)
    (fun r => by split_ifs <;> rfl) (fun r => by split_ifs <;> rfl)
  { t with cls }

def deleteClass (dmid classid : ℕ) : Tables :=
  { t with cls := t.cls.delete fun r => r.dmid = dmid ∧ r.classid = classid }

end Store

/-! ### Domains and classes as the worker sees them -/

namespace Tables

variable (t : Tables)

/-- `MogileFS::Domain->id_of_name`. -/
def idOfName (ns : Text) : Option ℕ := (t.domain.rows.find? fun r => r.ns = ns).map DomainRow.dmid

/-- `MogileFS::Domain->of_namespace`, with the id for the domain. -/
def ofNamespace (ns : Text) : Option ℕ := if Text.truthy (some ns) then (t.idOfName ns).filter (· != 0) else none

/-- `reload_classes`: the rows of table `class`, and a default class for every domain in the place of a row
with id 0. -/
def reloadClasses (defaultMin : ℕ) : List ClassRow :=
  (t.cls.rows.filter fun r => !(r.classid == 0 && decide (t.domain.Has r.dmid))) ++
    t.domain.rows.map fun dom => ⟨dom.dmid, 0, "default".toList, defaultMin, none⟩

end Tables

/-- What a command sees besides the tables: the classes that were loaded last, the setting
`default_mindevcount`, and how a number is printed. -/
structure ClassEnv where
  cached : List ClassRow
  defaultMin : ℕ
  number : ℚ → Text

namespace ClassEnv

variable (env : ClassEnv)

/-- `MogileFS::Domain::class`. -/
def classNamed (dmid : ℕ) (classname : Text) : Option ClassRow :=
  (env.cached.filter fun c => c.dmid = dmid).find? fun c => c.classname = classname

/-- `MogileFS::Class->of_dmid_classid`. -/
def ofDmidClassid (t : Tables) (dmid classid : ℕ) : Option ClassRow :=
  (env.cached.find? fun c => c.key = (dmid, classid)).orElse fun _ =>
    (t.reloadClasses env.defaultMin).find? fun c => c.key = (dmid, classid)

end ClassEnv

namespace ClassRow

variable (c : ClassRow) (t : Tables)

/-- Nothing for a duplicate name. -/
def setName (classname : Text) : Option Tables :=
  if c.classname = classname then some t else Store.updateClassName t c.dmid c.classid classname

def setMindevcount (mindevcount : ℚ) : Tables :=
  if c.mindevcount = mindevcount then t else Store.updateClassMindevcount t c.dmid c.classid mindevcount

end ClassRow

/-! ### The handlers -/

section Handlers

variable (args : Args) (t : Tables)

def cmdCreateDomain : Outcome × Tables :=
  if !Text.truthy (args "domain") then (.err "no_domain", t)
  else
    let domain := (args "domain").getD []
    match Store.createDomain t domain with
    | none => (.err "domain_exists", t)
    | some (_, t) => (.ok [("domain".toList, domain)], t)

/-- The classes of the domain stay where they are. -/
def cmdDeleteDomain : Outcome × Tables :=
  if !Text.truthy (args "domain") then (.err "no_domain", t)
  else
    let domain := (args "domain").getD []
    match t.ofNamespace domain with
    | none => (.err "domain_not_found", t)
    | some dmid =>
      if Store.domainHasFiles t dmid then (.err "domain_has_files", t)
      else (.ok [("domain".toList, domain)], Store.deleteDomain t dmid)

variable (env : ClassEnv)

def cmdCreateClass : Outcome × Tables :=
  let domain := (args "domain").getD []
  let cls := (args "class").getD []
  let mindevcount := Text.numify ((args "mindevcount").getD [])
  let reply := Outcome.ok [("class".toList, cls), ("mindevcount".toList, env.number mindevcount),
    ("domain".toList, domain)]
  if domain = [] then (.err "no_domain", t)
  else if cls = [] then (.err "no_class", t)
  else if mindevcount ≤ 0 then (.err "invalid_mindevcount", t)
  else
    match t.ofNamespace domain with
    | none => (.err "domain_not_found", t)
    | some dmid =>
      match Text.truthy (args "update"), env.classNamed dmid cls with
      | true, none => (.err "class_not_found", t)
      | true, some c =>
        match c.setName t cls with
        | none => (.dies .dup, t)
        | some t => (reply, c.setMindevcount t mindevcount)
      | false, some _ => (.err "class_exists", t)
      | false, none =>
        match Store.createClass t dmid cls with
        | none => (.dies .dup, t)
        | some (classid, t) =>
          match env.ofDmidClassid t dmid classid with
          | none => (.dies (.other "Can't call method \"set_mindevcount\" on an undefined value".toList), t)
          | some c => (reply, c.setMindevcount t mindevcount)

def cmdUpdateClass : Outcome × Tables :=
  cmdCreateClass (fun k => if k = "update" then some "1".toList else args k) t env

def cmdDeleteClass : Outcome × Tables :=
  let domain := (args "domain").getD []
  let cls := (args "class").getD []
  -- the check of the class looks at the domain again
  if domain = [] then (.err "no_domain", t)
  else
    match t.ofNamespace domain with
    | none => (.err "domain_not_found", t)
    | some dmid =>
      match env.classNamed dmid cls with
      | none => (.err "class_not_found", t)
      | some c =>
        -- `MogileFS::Class` does not import `throw`, so that the error has no code
        if Store.classHasFiles t c.dmid c.classid then (.err "failure", t)
        else (.ok [("domain".toList, domain), ("class".toList, cls)], Store.deleteClass t c.dmid c.classid)

end Handlers

/-! ### What they do to the tables -/

section Effects

variable {args : Args} {t t' : Tables} {env : ClassEnv} {dmid : ℕ}

theorem has_of_ofNamespace {ns : Text} (h : t.ofNamespace ns = some dmid) : t.domain.Has dmid := by
  unfold Tables.ofNamespace at h
  split_ifs at h
  obtain ⟨hid, -⟩ := Option.filter_eq_some_iff.mp h
  obtain ⟨row, hrow, rfl⟩ := Option.map_eq_some_iff.mp hid
  exact Table.has_of_mem (List.mem_of_find?_eq_some hrow)

theorem has_of_idOfName {ns : Text} (h : t.idOfName ns = some dmid) : t.domain.Has dmid := by
  obtain ⟨row, hrow, rfl⟩ := Option.map_eq_some_iff.mp h
  exact Table.has_of_mem (List.mem_of_find?_eq_some hrow)

theorem not_has_createDomain {ns : Text} (h : Store.createDomain t ns = some (dmid, t')) :
    ¬ t.domain.Has dmid ∧ t' = { t with domain := t'.domain } ∧ t'.domain.rows = t.domain.rows ++ [⟨dmid, ns⟩] := by
  obtain ⟨domain, hinsert, heq⟩ := Option.map_eq_some_iff.mp h
  obtain ⟨rfl, rfl⟩ := Prod.mk.inj heq
  refine ⟨fun hhas => ?_, rfl, TwoKeyTable.rows_insert? hinsert⟩
  have hle : _ ≤ (t.domain.rows.map DomainRow.dmid).max?.getD 0 := Db.le_max_getD hhas
  omega

/-- A command changes table `class` alone, and every domain that has a class after it had one before or exists. -/
structure ChangesClasses (t t' : Tables) : Prop where
  db : t'.db = t.db
  domain : t'.domain = t.domain
  cls : ∀ c ∈ t'.cls.rows, t.domain.Has c.dmid ∨ ∃ c' ∈ t.cls.rows, c'.dmid = c.dmid

namespace ChangesClasses

theorem refl (t : Tables) : ChangesClasses t t := ⟨rfl, rfl, fun c hc => .inr ⟨c, hc, rfl⟩⟩

theorem trans {t'' : Tables} (h : ChangesClasses t t') (h' : ChangesClasses t' t'') : ChangesClasses t t'' := by
  refine ⟨h'.db.trans h.db, h'.domain.trans h.domain, fun c hc => ?_⟩
  rcases h'.cls c hc with hhas | ⟨c', hc', hdmid⟩
  · exact .inl (h.domain ▸ hhas)
  · exact hdmid ▸ h.cls c' hc'

/-- A change of the rows that leaves their domains alone. -/
theorem of_map {f : ClassRow → ClassRow} (hf : ∀ c, (f c).dmid = c.dmid) (hdb : t'.db = t.db)
    (hdomain : t'.domain = t.domain) (hrows : t'.cls.rows = t.cls.rows.map f) : ChangesClasses t t' := by
  refine ⟨hdb, hdomain, fun c hc => ?_⟩
  rw [hrows] at hc
  obtain ⟨old, hold, rfl⟩ := List.mem_map.mp hc
  exact .inr ⟨old, hold, (hf old).symm⟩

theorem createClass {classname : Text} {classid : ℕ} (hdmid : t.domain.Has dmid)
    (h : Store.createClass t dmid classname = some (classid, t')) : ChangesClasses t t' := by
  obtain ⟨cls, hinsert, heq⟩ := Option.map_eq_some_iff.mp h
  obtain ⟨-, rfl⟩ := Prod.mk.inj heq
  refine ⟨rfl, rfl, fun c hc => ?_⟩
  rw [TwoKeyTable.rows_insert? hinsert] at hc
  rcases List.mem_append.mp hc with hc | hc
  · exact .inr ⟨c, hc, rfl⟩
  · rw [List.mem_singleton] at hc
    exact .inl (hc ▸ hdmid)

theorem setName {c : ClassRow} {classname : Text} (h : c.setName t classname = some t') : ChangesClasses t t' := by
  unfold ClassRow.setName at h
  split_ifs at h
  · exact Option.some.inj h ▸ refl t
  · obtain ⟨cls, hupdate, rfl⟩ := Option.map_eq_some_iff.mp h
    exact of_map (fun r => by split_ifs <;> rfl) rfl rfl (TwoKeyTable.rows_update? hupdate)

theorem setMindevcount (c : ClassRow) (mindevcount : ℚ) : ChangesClasses t (c.setMindevcount t mindevcount) := by
  unfold ClassRow.setMindevcount
  split_ifs
  · exact refl t
  · exact of_map (fun r => by split_ifs <;> rfl) rfl rfl rfl

theorem cmdCreateClass (args : Args) (t : Tables) (env : ClassEnv) :
    ChangesClasses t (Ylem.cmdCreateClass args t env).2 := by
  unfold Ylem.cmdCreateClass
  extract_lets domain cls mindevcount reply
  split_ifs
  · exact refl t
  · exact refl t
  · exact refl t
  split
  · exact refl t
  rename_i dmid hdmid
  split
  · exact refl t
  · split
    · exact refl t
    · rename_i hname
      exact (setName hname).trans (setMindevcount _ _)
  · exact refl t
  · split
    · exact refl t
    · rename_i hcreate
      have hcreated := createClass (has_of_ofNamespace hdmid) hcreate
      split
      · exact hcreated
      · exact hcreated.trans (setMindevcount _ _)

theorem cmdDeleteClass (args : Args) (t : Tables) (env : ClassEnv) :
    ChangesClasses t (Ylem.cmdDeleteClass args t env).2 := by
  unfold Ylem.cmdDeleteClass
  extract_lets domain cls
  split_ifs
  · exact refl t
  split
  · exact refl t
  split
  · exact refl t
  split_ifs
  · exact refl t
  · exact ⟨rfl, rfl, fun c hc => .inr ⟨c, (List.mem_filter.mp hc).1, rfl⟩⟩

end ChangesClasses

theorem cmdCreateDomain_cases (args : Args) (t : Tables) :
    (cmdCreateDomain args t).2 = t ∨
      ∃ dmid ns, Store.createDomain t ns = some (dmid, (cmdCreateDomain args t).2) := by
  unfold cmdCreateDomain
  split_ifs
  · exact .inl rfl
  extract_lets domain
  split
  · exact .inl rfl
  · rename_i hcreate
    exact .inr ⟨_, _, hcreate⟩

/-- A deletion changes nothing, or deletes the row of a domain in which no file was found. -/
theorem cmdDeleteDomain_cases (args : Args) (t : Tables) :
    ((cmdDeleteDomain args t).2 = t ∧
        ¬ ∃ dmid, Text.truthy (args "domain") = true ∧ t.ofNamespace ((args "domain").getD []) = some dmid ∧
          Store.domainHasFiles t dmid = false) ∨
      ∃ dmid, Text.truthy (args "domain") = true ∧ t.ofNamespace ((args "domain").getD []) = some dmid ∧
        Store.domainHasFiles t dmid = false ∧ (cmdDeleteDomain args t).2 = Store.deleteDomain t dmid := by
  unfold cmdDeleteDomain
  split_ifs with hdomain
  · refine .inl ⟨rfl, ?_⟩
    rintro ⟨dmid, htrue, -⟩
    simp [htrue] at hdomain
  simp only [Bool.not_eq_true', Bool.not_eq_false] at hdomain
  extract_lets domain
  cases hdmid : t.ofNamespace domain with
  | none =>
    refine .inl ⟨rfl, ?_⟩
    rintro ⟨dmid, -, hsome, -⟩
    cases hsome
  | some dmid =>
    dsimp only
    split_ifs with hfiles
    · refine .inl ⟨rfl, ?_⟩
      rintro ⟨dmid', -, hsome, hnone⟩
      rw [Option.some.inj hsome, hnone] at hfiles
      cases hfiles
    · exact .inr ⟨dmid, hdomain, rfl, by simpa using hfiles, rfl⟩

end Effects

end Ylem
