import Mathlib

/-!
# Tables with a unique key

`Table ρ κ key` is a list of rows of type `ρ` no two of which agree on `key`: a relation with a primary
key, in the order in which a scan returns its rows. The statements of a relational store on one such
table are `insertIgnore`, `replace`, `delete` and `update`; each returns a table again, so that no
development has to re-prove that keys stay unique. `Has` says that a key has a row, and the lemmas about
it are the only thing that later proofs need. A `TwoKeyTable` has a second unique key, and an insert or
update of it may fail.
-/

namespace Ylem

/-- Rows no two of which have the same key. -/
@[ext] structure Table (ρ κ : Type) (key : ρ → κ) where
  rows : List ρ
  nodup : (rows.map key).Nodup

namespace Table

variable {ρ κ : Type} {key : ρ → κ}

instance [DecidableEq ρ] : DecidableEq (Table ρ κ key) := fun t t' =>
  decidable_of_iff (t.rows = t'.rows) ⟨Table.ext, congrArg rows⟩

def empty : Table ρ κ key := ⟨[], List.nodup_nil⟩

def single (row : ρ) : Table ρ κ key := ⟨[row], List.nodup_singleton _⟩

/-- The key `k` has a row. -/
def Has (t : Table ρ κ key) (k : κ) : Prop := k ∈ t.rows.map key

instance [DecidableEq κ] (t : Table ρ κ key) (k : κ) : Decidable (t.Has k) :=
  inferInstanceAs (Decidable (_ ∈ _))

theorem has_iff {t : Table ρ κ key} {k : κ} : t.Has k ↔ ∃ r ∈ t.rows, key r = k := List.mem_map

theorem has_of_mem {t : Table ρ κ key} {r : ρ} (h : r ∈ t.rows) : t.Has (key r) :=
  List.mem_map_of_mem h

theorem eq_of_key (t : Table ρ κ key) {r r' : ρ} (h : r ∈ t.rows) (h' : r' ∈ t.rows)
    (hkey : key r = key r') : r = r' :=
  List.inj_on_of_nodup_map t.nodup h h' hkey

/-- `DELETE … WHERE p`. -/
def delete (t : Table ρ κ key) (p : ρ → Bool) : Table ρ κ key :=
  ⟨t.rows.filter fun r => !p r, (List.filter_sublist.map key).nodup t.nodup⟩

/-- `UPDATE … SET f` for an `f` that leaves the key alone. -/
def update (t : Table ρ κ key) (f : ρ → ρ) (hf : ∀ r, key (f r) = key r) : Table ρ κ key :=
  ⟨t.rows.map f, by
    have hcomp : key ∘ f = key := funext hf
    rw [List.map_map, hcomp]
    exact t.nodup⟩

@[simp] theorem rows_delete (t : Table ρ κ key) (p : ρ → Bool) :
    (t.delete p).rows = t.rows.filter fun r => !p r := rfl

@[simp] theorem rows_update (t : Table ρ κ key) (f : ρ → ρ) (hf : ∀ r, key (f r) = key r) :
    (t.update f hf).rows = t.rows.map f := rfl

@[simp] theorem not_has_empty (k : κ) : ¬ (empty : Table ρ κ key).Has k := List.not_mem_nil

theorem has_delete {t : Table ρ κ key} {p : ρ → Bool} {k : κ} :
    (t.delete p).Has k ↔ ∃ r ∈ t.rows, key r = k ∧ p r = false := by
  simp [has_iff, and_assoc, and_comm]

theorem has_of_has_delete {t : Table ρ κ key} {p : ρ → Bool} {k : κ} (h : (t.delete p).Has k) :
    t.Has k := by
  obtain ⟨r, hr, rfl, -⟩ := has_delete.mp h
  exact has_of_mem hr

@[simp] theorem has_update {t : Table ρ κ key} {f : ρ → ρ} {hf : ∀ r, key (f r) = key r} {k : κ} :
    (t.update f hf).Has k ↔ t.Has k := by
  simp [has_iff, hf]

variable [DecidableEq κ]

@[simp] theorem has_delete_key {t : Table ρ κ key} {k k' : κ} :
    (t.delete fun r => key r = k').Has k ↔ k ≠ k' ∧ t.Has k := by
  rw [has_delete, has_iff]
  constructor
  · rintro ⟨r, hr, rfl, hp⟩
    exact ⟨of_decide_eq_false hp, r, hr, rfl⟩
  · rintro ⟨hne, r, hr, rfl⟩
    exact ⟨r, hr, rfl, decide_eq_false hne⟩

theorem has_delete_keys {t : Table ρ κ key} {ks : List κ} {k : κ} :
    (t.delete fun r => ks.contains (key r)).Has k ↔ k ∉ ks ∧ t.Has k := by
  rw [has_delete, has_iff]
  constructor
  · rintro ⟨r, hr, rfl, hp⟩
    exact ⟨by simpa using hp, r, hr, rfl⟩
  · rintro ⟨hne, r, hr, rfl⟩
    exact ⟨r, hr, rfl, by simpa using hne⟩

/-! ### Reading and inserting by key -/

/-- `SELECT … WHERE key = k`. -/
def find? (t : Table ρ κ key) (k : κ) : Option ρ := t.rows.find? fun r => key r = k

theorem find?_eq_some {t : Table ρ κ key} {k : κ} {r : ρ} :
    t.find? k = some r ↔ r ∈ t.rows ∧ key r = k := by
  have hfound : ∀ {x}, t.find? k = some x → x ∈ t.rows ∧ key x = k := fun h =>
    ⟨List.mem_of_find?_eq_some h, by simpa using List.find?_some h⟩
  refine ⟨hfound, ?_⟩
  rintro ⟨hmem, rfl⟩
  have hsome : (t.find? (key r)).isSome = true := List.find?_isSome.mpr ⟨r, hmem, decide_eq_true rfl⟩
  obtain ⟨x, hx⟩ := Option.isSome_iff_exists.mp hsome
  rw [hx, t.eq_of_key (hfound hx).1 hmem (hfound hx).2]

theorem find?_eq_none {t : Table ρ κ key} {k : κ} : t.find? k = none ↔ ¬ t.Has k := by
  simp [find?, has_iff]

theorem isSome_find? {t : Table ρ κ key} {k : κ} : (t.find? k).isSome = true ↔ t.Has k := by
  rw [← not_iff_not, ← find?_eq_none]
  simp

/-- `INSERT IGNORE`: nothing happens where the key has a row already. -/
def insertIgnore (t : Table ρ κ key) (r : ρ) : Table ρ κ key :=
  if h : t.Has (key r) then t
  else ⟨t.rows ++ [r], by
    rw [List.map_append, List.map_singleton]
    exact (List.nodup_append_comm.mp (List.nodup_cons.mpr ⟨h, t.nodup⟩))⟩

/-- `REPLACE INTO`: the row with the same key goes. -/
def replace (t : Table ρ κ key) (r : ρ) : Table ρ κ key :=
  (t.delete fun r' => key r' = key r).insertIgnore r

theorem rows_insertIgnore_of_not_has {t : Table ρ κ key} {r : ρ} (h : ¬ t.Has (key r)) :
    (t.insertIgnore r).rows = t.rows ++ [r] := by
  simp [insertIgnore, h]

theorem insertIgnore_of_has {t : Table ρ κ key} {r : ρ} (h : t.Has (key r)) :
    t.insertIgnore r = t := by
  simp [insertIgnore, h]

@[simp] theorem has_insertIgnore {t : Table ρ κ key} {r : ρ} {k : κ} :
    (t.insertIgnore r).Has k ↔ t.Has k ∨ k = key r := by
  by_cases h : t.Has (key r)
  · rw [insertIgnore_of_has h]
    exact ⟨.inl, fun hor => hor.elim id fun heq => heq ▸ h⟩
  · simp [Has, rows_insertIgnore_of_not_has h]

/-- Deleting a new row again, and nothing else, restores the table. -/
theorem delete_insertIgnore {t : Table ρ κ key} {r : ρ} {p : ρ → Bool} (hnew : ¬ t.Has (key r))
    (hp : p r = true) (hrest : ∀ x ∈ t.rows, p x = false) : (t.insertIgnore r).delete p = t := by
  apply Table.ext
  rw [rows_delete, rows_insertIgnore_of_not_has hnew, List.filter_append]
  have hkeep : t.rows.filter (fun x => !p x) = t.rows :=
    List.filter_eq_self.mpr fun x hx => by rw [hrest x hx]; rfl
  have hdrop : [r].filter (fun x => !p x) = [] := by simp [hp]
  rw [hkeep, hdrop, List.append_nil]

theorem mem_insertIgnore {t : Table ρ κ key} {r x : ρ} :
    x ∈ (t.insertIgnore r).rows ↔ x ∈ t.rows ∨ (¬ t.Has (key r) ∧ x = r) := by
  by_cases h : t.Has (key r)
  · simp [insertIgnore_of_has h, h]
  · simp [rows_insertIgnore_of_not_has h, h]

theorem mem_replace {t : Table ρ κ key} {r x : ρ} :
    x ∈ (t.replace r).rows ↔ (x ∈ t.rows ∧ key x ≠ key r) ∨ x = r := by
  simp [replace, mem_insertIgnore]

/-! ### Many rows -/

/-- `INSERT IGNORE … VALUES (…), (…), …`. -/
def insertIgnoreAll (t : Table ρ κ key) (rs : List ρ) : Table ρ κ key := rs.foldl insertIgnore t

@[simp] theorem insertIgnoreAll_nil (t : Table ρ κ key) : t.insertIgnoreAll [] = t := rfl

@[simp] theorem insertIgnoreAll_cons (t : Table ρ κ key) (r : ρ) (rs : List ρ) :
    t.insertIgnoreAll (r :: rs) = (t.insertIgnore r).insertIgnoreAll rs := rfl

@[simp] theorem has_insertIgnoreAll {t : Table ρ κ key} {rs : List ρ} {k : κ} :
    (t.insertIgnoreAll rs).Has k ↔ t.Has k ∨ k ∈ rs.map key := by
  induction rs generalizing t with
  | nil => simp
  | cons r rs ih => simp [ih, or_assoc]

end Table

/-! ### A second unique key -/

/-- Rows no two of which agree on either of two keys. -/
structure TwoKeyTable (ρ κ κ' : Type) (key : ρ → κ) (key' : ρ → κ') extends Table ρ κ key where
  nodup' : (rows.map key').Nodup

namespace TwoKeyTable

variable {ρ κ κ' : Type} {key : ρ → κ} {key' : ρ → κ'}

def empty : TwoKeyTable ρ κ κ' key key' := ⟨Table.empty, List.nodup_nil⟩

/-- `DELETE … WHERE p`. -/
def delete (t : TwoKeyTable ρ κ κ' key key') (p : ρ → Bool) : TwoKeyTable ρ κ κ' key key' :=
  ⟨t.toTable.delete p, (List.filter_sublist.map key').nodup t.nodup'⟩

/-- `UPDATE … SET f` for an `f` that leaves both keys alone. -/
def update (t : TwoKeyTable ρ κ κ' key key') (f : ρ → ρ) (hf : ∀ r, key (f r) = key r)
    (hf' : ∀ r, key' (f r) = key' r) : TwoKeyTable ρ κ κ' key key' :=
  ⟨t.toTable.update f hf, by
    have hcomp : key' ∘ f = key' := funext hf'
    rw [Table.rows_update, List.map_map, hcomp]
    exact t.nodup'⟩

variable [DecidableEq κ] [DecidableEq κ']

/-- The table of the rows; nothing for a duplicate of either key. -/
def ofRows? (rows : List ρ) : Option (TwoKeyTable ρ κ κ' key key') :=
  if h : (rows.map key).Nodup ∧ (rows.map key').Nodup then some ⟨⟨rows, h.1⟩, h.2⟩ else none

/-- `INSERT`; nothing for a duplicate key. -/
def insert? (t : TwoKeyTable ρ κ κ' key key') (r : ρ) : Option (TwoKeyTable ρ κ κ' key key') :=
  ofRows? (t.rows ++ [r])

/-- `UPDATE … SET f`; nothing for a duplicate key. -/
def update? (t : TwoKeyTable ρ κ κ' key key') (f : ρ → ρ) : Option (TwoKeyTable ρ κ κ' key key') :=
  ofRows? (t.rows.map f)

theorem rows_ofRows? {rows : List ρ} {t : TwoKeyTable ρ κ κ' key key'} (h : ofRows? rows = some t) :
    t.rows = rows := by
  unfold ofRows? at h
  split_ifs at h
  rw [← Option.some.inj h]

theorem rows_insert? {t t' : TwoKeyTable ρ κ κ' key key'} {r : ρ} (h : t.insert? r = some t') :
    t'.rows = t.rows ++ [r] := rows_ofRows? h

theorem rows_update? {t t' : TwoKeyTable ρ κ κ' key key'} {f : ρ → ρ} (h : t.update? f = some t') :
    t'.rows = t.rows.map f := rows_ofRows? h

end TwoKeyTable

end Ylem
