import Ylem.Store

/-!
# Committing a file in the two stores

`replace_into_file` of the MySQL store is a `REPLACE INTO`, which removes every row that has the fid or the key of
the new one. The Postgres store has no such statement: it inserts, and where that is a duplicate it goes back and
updates the row of the fid.

The two differ where another fid has the key: then the update fails as well, or finds no row
(`upsert_agrees_iff`). But the Postgres store does not get that far. `replace_into_file` was given an argument
`mimetype` that only the MySQL store expects, and the other one refuses every call that `cmd_create_close` makes
(`stores_never_agree`).
-/

namespace Ylem

/-! ### Named arguments -/

/-- The value of an argument. -/
inductive ArgValue where
  | undef
  | num (n : ℕ)
  | str (t : Text)
  deriving DecidableEq

namespace ArgValue

def toNat : ArgValue → ℕ
  | num n => n
  | _ => 0

def toText : ArgValue → Text
  | str t => t
  | _ => []

def toText? : ArgValue → Option Text
  | str t => some t
  | _ => none

end ArgValue

/-- What a store dies with. -/
inductive StoreError where
  | bogusOptions (names : List String)
  | duplicate
  deriving DecidableEq

/-- `_valid_params`: every argument has to be expected; one that is not given is undefined. -/
def validParams (vlist : List String) (uarg : List (String × ArgValue)) : Except StoreError (String → ArgValue) :=
  match (uarg.map Prod.fst).filter fun name => !vlist.contains name with
  | [] => .ok fun name => (uarg.lookup name).getD .undef
  | bogus => .error (.bogusOptions bogus)

/-- The file that an upload is closed as. -/
structure ClosedFile where
  fidid : ℕ
  dmid : ℕ
  key : Text
  length : ℕ
  classid : ℕ
  mimetype : Option Text

/-- The arguments that `cmd_create_close` passes to `replace_into_file`. -/
def ClosedFile.named (f : ClosedFile) : List (String × ArgValue) :=
  [("fidid", .num f.fidid), ("dmid", .num f.dmid), ("key", .str f.key), ("length", .num f.length),
    ("classid", .num f.classid), ("mimetype", f.mimetype.elim .undef .str)]

/-! ### The MySQL store -/

/-- `MogileFS::Store::replace_into_file`. -/
def FileTable.replaceIntoFile (t : FileTable) (now : ℕ) (uarg : List (String × ArgValue)) :
    Except StoreError FileTable := do
  let arg ← validParams ["fidid", "dmid", "key", "length", "classid", "mimetype"] uarg
  pure (t.replace ⟨(arg "fidid").toNat, (arg "dmid").toNat, (arg "key").toText, (arg "length").toNat,
    (arg "classid").toNat, 0, (arg "mimetype").toText?, now⟩)

/-! ### The Postgres store -/

/-- A row of table `file` as the Postgres store creates it. -/
structure PgFileRow where
  fid : ℕ
  dmid : ℕ
  dkey : Text
  length : ℕ
  classid : ℕ
  devcount : ℕ
  deriving DecidableEq

def PgFileRow.name (r : PgFileRow) : ℕ × Text := (r.dmid, r.dkey)

abbrev PgFileTable := TwoKeyTable PgFileRow ℕ (ℕ × Text) PgFileRow.fid PgFileRow.name

/-- `insert_or_update`: where the insert is a duplicate, the transaction goes back to the savepoint and updates. A
duplicate in the update is not caught, and the transaction never committed. -/
def PgFileTable.insertOrUpdate (t : PgFileTable) (insert : PgFileRow) (update : PgFileRow → PgFileRow) :
    Except StoreError PgFileTable :=
  match t.insert? insert with
  | some t' => .ok t'
  | none =>
    match t.update? update with
    | some t' => .ok t'
    | none => .error .duplicate

/-- `INSERT …`, or `UPDATE … WHERE fid = ?`. -/
def PgFileTable.upsert (t : PgFileTable) (row : PgFileRow) : Except StoreError PgFileTable :=
  t.insertOrUpdate row fun r => if r.fid = row.fid then row else r

/-- `MogileFS::Store::Postgres::replace_into_file`. -/
def PgFileTable.replaceIntoFile (t : PgFileTable) (uarg : List (String × ArgValue)) : Except StoreError PgFileTable := do
  let arg ← validParams ["fidid", "dmid", "key", "length", "classid"] uarg
  t.upsert ⟨(arg "fidid").toNat, (arg "dmid").toNat, (arg "key").toText, (arg "length").toNat,
    (arg "classid").toNat, 0⟩

/-! ### The same rows -/

/-- A row of the MySQL store without the columns that the Postgres store does not have. -/
def FileRow.pg (r : FileRow) : PgFileRow := ⟨r.fid, r.dmid, r.dkey, r.length, r.classid, r.devcount⟩

/-- The table with the same rows. -/
def FileTable.pg (t : FileTable) : PgFileTable where
  rows := t.rows.map FileRow.pg
  nodup := by
    rw [List.map_map]
    exact t.nodup
  nodup' := by
    rw [List.map_map]
    exact t.name_nodup

/-- The tables have the same rows, in any order. -/
def SameRows (t : FileTable) (p : PgFileTable) : Prop := ∀ r, r ∈ p.rows ↔ r ∈ t.pg.rows

/-- Where the MySQL store commits the file, the Postgres store does, with the same rows. -/
def StoresAgree (t : FileTable) (now : ℕ) (f : ClosedFile) : Prop :=
  ∀ t', t.replaceIntoFile now f.named = .ok t' →
    ∃ p, t.pg.replaceIntoFile f.named = .ok p ∧ SameRows t' p

theorem replaceIntoFile_eq (t : FileTable) (now : ℕ) (f : ClosedFile) : t.replaceIntoFile now f.named =
    .ok (t.replace ⟨f.fidid, f.dmid, f.key, f.length, f.classid, 0, f.mimetype, now⟩) := by
  obtain ⟨fidid, dmid, key, length, classid, mimetype⟩ := f
  cases mimetype with
  | none => rfl
  | some mimetype => rfl

theorem replaceIntoFile_bogus (p : PgFileTable) (f : ClosedFile) :
    p.replaceIntoFile f.named = .error (.bogusOptions ["mimetype"]) := rfl

/-- The stores agree on no table and no file. -/
theorem stores_never_agree (t : FileTable) (now : ℕ) (f : ClosedFile) : ¬ StoresAgree t now f := by
  intro h
  obtain ⟨p, hp, -⟩ := h _ (replaceIntoFile_eq t now f)
  rw [replaceIntoFile_bogus] at hp
  cases hp

/-- A first file, which the MySQL store commits and the Postgres store does not. -/
theorem first_file_refused : ¬ StoresAgree .empty 0 ⟨1, 1, "k".toList, 3, 0, some "text/plain".toList⟩ := by
  intro h
  obtain ⟨p, hp, -⟩ := h _ rfl
  cases hp

/-! ### The statements -/

section Statements

variable {t : FileTable} {row : FileRow}

theorem mem_replace {r : FileRow} :
    r ∈ (t.replace row).rows ↔ (r ∈ t.rows ∧ r.fid ≠ row.fid ∧ r.name ≠ row.name) ∨ r = row := by
  simp [FileTable.replace]

theorem mem_pg_replace {r : PgFileRow} : r ∈ (t.replace row).pg.rows ↔
    (r ∈ t.pg.rows ∧ r.fid ≠ row.fid ∧ r.name ≠ row.name) ∨ r = row.pg := by
  constructor
  · intro h
    obtain ⟨r', hr', rfl⟩ := List.mem_map.mp h
    rcases mem_replace.mp hr' with ⟨hmem, hfid, hname⟩ | rfl
    · exact .inl ⟨List.mem_map_of_mem hmem, hfid, hname⟩
    · exact .inr rfl
  · rintro (⟨hmem, hfid, hname⟩ | rfl)
    · obtain ⟨r', hr', rfl⟩ := List.mem_map.mp hmem
      exact List.mem_map_of_mem (mem_replace.mpr (.inl ⟨hr', hfid, hname⟩))
    · exact List.mem_map_of_mem (mem_replace.mpr (.inr rfl))

theorem ofRows?_eq_some {rows : List PgFileRow} (hfid : (rows.map PgFileRow.fid).Nodup)
    (hname : (rows.map PgFileRow.name).Nodup) : ∃ p : PgFileTable, TwoKeyTable.ofRows? rows = some p ∧ p.rows = rows :=
  ⟨⟨⟨rows, hfid⟩, hname⟩, dif_pos ⟨hfid, hname⟩, rfl⟩

theorem mem_upsert {p p' : PgFileTable} {new r : PgFileRow} (h : p.upsert new = .ok p') (hr : r ∈ p.rows)
    (hne : r.fid ≠ new.fid) : r ∈ p'.rows := by
  unfold PgFileTable.upsert PgFileTable.insertOrUpdate at h
  split at h
  · rename_i t' hinsert
    obtain rfl := Except.ok.inj h
    rw [TwoKeyTable.rows_insert? hinsert]
    exact List.mem_append_left _ hr
  · split at h
    · rename_i t' hupdate
      obtain rfl := Except.ok.inj h
      rw [TwoKeyTable.rows_update? hupdate]
      exact List.mem_map.mpr ⟨r, hr, if_neg hne⟩
    · cases h

theorem upsert_insert {p : PgFileTable} (new : PgFileRow) (hfid : ∀ r ∈ p.rows, r.fid ≠ new.fid)
    (hname : ∀ r ∈ p.rows, r.name ≠ new.name) : ∃ p', p.upsert new = .ok p' ∧ p'.rows = p.rows ++ [new] := by
  have hnew : ∀ {κ : Type} (key : PgFileRow → κ), (p.rows.map key).Nodup → (∀ r ∈ p.rows, key r ≠ key new) →
      ((p.rows ++ [new]).map key).Nodup := by
    intro κ key hnodup hne
    rw [List.map_append, List.map_singleton, List.nodup_append_comm, List.singleton_append, List.nodup_cons]
    refine ⟨fun hmem => ?_, hnodup⟩
    obtain ⟨r, hr, heq⟩ := List.mem_map.mp hmem
    exact hne r hr heq
  obtain ⟨p', hp', hrows⟩ := ofRows?_eq_some (hnew _ p.nodup hfid) (hnew _ p.nodup' hname)
  have hinsert : p.insert? new = some p' := hp'
  exact ⟨p', by rw [PgFileTable.upsert, PgFileTable.insertOrUpdate, hinsert], hrows⟩

theorem upsert_update {p : PgFileTable} {old : PgFileRow} (new : PgFileRow) (hold : old ∈ p.rows) (hfid : old.fid = new.fid)
    (hname : ∀ r ∈ p.rows, r.name = new.name → r.fid = new.fid) :
    ∃ p', p.upsert new = .ok p' ∧ p'.rows = p.rows.map fun r => if r.fid = new.fid then new else r := by
  have hinsert : p.insert? new = none := by
    refine dif_neg fun hnodup => ?_
    rw [List.map_append, List.map_singleton, List.nodup_append_comm, List.singleton_append, List.nodup_cons] at hnodup
    exact hnodup.1.1 (List.mem_map.mpr ⟨old, hold, hfid⟩)
  have hfids : ((p.rows.map fun r => if r.fid = new.fid then new else r).map PgFileRow.fid).Nodup := by
    have hsame : PgFileRow.fid ∘ (fun r => if r.fid = new.fid then new else r) = PgFileRow.fid := by
      funext r
      simp only [Function.comp]
      split_ifs with h
      · exact h.symm
      · rfl
    rw [List.map_map, hsame]
    exact p.nodup
  have hnames : ((p.rows.map fun r => if r.fid = new.fid then new else r).map PgFileRow.name).Nodup := by
    rw [List.map_map]
    refine List.Nodup.map_on (fun r hr r' hr' heq => ?_) (List.Nodup.of_map _ p.nodup)
    simp only [Function.comp] at heq
    split_ifs at heq with h h' h'
    · exact p.eq_of_key hr hr' (h.trans h'.symm)
    · exact absurd (hname r' hr' heq.symm) h'
    · exact absurd (hname r hr heq) h
    · exact List.inj_on_of_nodup_map p.nodup' hr hr' heq
  obtain ⟨p', hp', hrows⟩ := ofRows?_eq_some hfids hnames
  have hupdate : p.update? (fun r => if r.fid = new.fid then new else r) = some p' := hp'
  exact ⟨p', by rw [PgFileTable.upsert, PgFileTable.insertOrUpdate, hinsert, hupdate], hrows⟩

/-- The statements of the two stores agree exactly if no other fid has the key. -/
theorem upsert_agrees_iff (t : FileTable) (row : FileRow) :
    (∃ p, t.pg.upsert row.pg = .ok p ∧ SameRows (t.replace row) p) ↔
      ∀ r ∈ t.pg.rows, r.name = row.name → r.fid = row.fid := by
  constructor
  · rintro ⟨p, hp, hsame⟩ r hr hname
    by_contra hne
    have hmem := (hsame r).mp (mem_upsert hp hr hne)
    rcases mem_pg_replace.mp hmem with ⟨-, -, hname'⟩ | rfl
    · exact hname' hname
    · exact hne rfl
  · intro h
    by_cases hhas : ∃ old ∈ t.pg.rows, old.fid = row.fid
    · obtain ⟨old, hold, hfid⟩ := hhas
      obtain ⟨p, hp, hrows⟩ := upsert_update row.pg hold hfid h
      refine ⟨p, hp, fun r => ?_⟩
      rw [hrows, mem_pg_replace, List.mem_map]
      constructor
      · rintro ⟨r', hr', rfl⟩
        split_ifs with hfid'
        · exact .inr rfl
        · exact .inl ⟨hr', hfid', fun hname => hfid' (h r' hr' hname)⟩
      · rintro (⟨hr, hfid', -⟩ | rfl)
        · exact ⟨r, hr, if_neg hfid'⟩
        · exact ⟨old, hold, if_pos hfid⟩
    · have hnone : ∀ r ∈ t.pg.rows, r.fid ≠ row.fid := fun r hr hfid => hhas ⟨r, hr, hfid⟩
      have hfree : ∀ r ∈ t.pg.rows, r.name ≠ row.name := fun r hr hname => hnone r hr (h r hr hname)
      obtain ⟨p, hp, hrows⟩ := upsert_insert row.pg hnone hfree
      refine ⟨p, hp, fun r => ?_⟩
      rw [hrows, mem_pg_replace, List.mem_append, List.mem_singleton]
      constructor
      · rintro (hr | rfl)
        · exact .inl ⟨hr, hnone r hr, hfree r hr⟩
        · exact .inr rfl
      · rintro (⟨hr, -, -⟩ | rfl)
        · exact .inl hr
        · exact .inr rfl

end Statements

end Ylem
