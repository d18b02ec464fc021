import Mathlib

/-!
# Dictionaries as lists

A dictionary is a list of keys and values, in the order in which it is listed. Two lists are the same
dictionary if every key has the same value in both; with distinct keys they are then permutations of each
other (`SameDict.perm`).
-/

namespace Ylem

variable {κ ν : Type*} [BEq κ] [LawfulBEq κ] {l l' : List (κ × ν)} {k : κ} {v : ν}

/-- Every key has the same value in both. -/
def SameDict (l l' : List (κ × ν)) : Prop := ∀ k, l.lookup k = l'.lookup k

/-- No key is there twice. -/
abbrev DistinctKeys (l : List (κ × ν)) : Prop := (l.map Prod.fst).Nodup

theorem lookup_eq_none_iff_not_mem : l.lookup k = none ↔ k ∉ l.map Prod.fst := by
  rw [List.lookup_eq_none_iff, List.mem_map]
  simp only [not_exists, not_and, bne_iff_ne]
  exact ⟨fun h p hp heq => h p hp heq.symm, fun h p hp heq => h p hp heq.symm⟩

theorem mem_iff_lookup (h : DistinctKeys l) : (k, v) ∈ l ↔ l.lookup k = some v := by
  induction l with
  | nil => simp
  | cons kv l ih =>
    obtain ⟨k', v'⟩ := kv
    rw [DistinctKeys, List.map_cons, List.nodup_cons] at h
    rw [List.mem_cons, List.lookup_cons]
    by_cases hk : k = k'
    · subst hk
      have hnot : (k, v) ∉ l := fun hmem => h.1 (List.mem_map.mpr ⟨_, hmem, rfl⟩)
      simp [hnot, eq_comm]
    · rw [beq_eq_false_iff_ne.mpr hk, ih h.2]
      simp [hk]

theorem SameDict.perm (h : SameDict l l') (hl : DistinctKeys l) (hl' : DistinctKeys l') : l.Perm l' := by
  refine (List.perm_ext_iff_of_nodup hl.of_map hl'.of_map).mpr fun kv => ?_
  rw [← Prod.mk.eta (p := kv), mem_iff_lookup hl, mem_iff_lookup hl', h]

/-- The order does not matter. -/
theorem SameDict.of_perm (h : l.Perm l') (hl' : DistinctKeys l') : SameDict l l' := by
  have hl : DistinctKeys l := (h.map Prod.fst).nodup_iff.mpr hl'
  intro k
  refine Option.ext fun v => ?_
  rw [← mem_iff_lookup hl, ← mem_iff_lookup hl', h.mem_iff]

/-- An entry of a list of values by name. -/
theorem lookup_map_name {α : Type*} {name : α → κ} (hname : Function.Injective name) (f : α → ν) {l : List α}
    {a : α} (h : a ∈ l) : (l.map fun a => (name a, f a)).lookup (name a) = some (f a) := by
  induction l with
  | nil => exact absurd h List.not_mem_nil
  | cons b l ih =>
    rw [List.map_cons, List.lookup_cons]
    by_cases hab : a = b
    · subst hab
      simp
    · have hne : (name a == name b) = false := beq_eq_false_iff_ne.mpr fun h => hab (hname h)
      rw [hne, ih ((List.mem_cons.mp h).resolve_left hab)]

theorem lookup_map_name_eq_none {α : Type*} {name : α → κ} (hname : Function.Injective name) (f : α → ν)
    {l : List α} {a : α} (h : a ∉ l) : (l.map fun a => (name a, f a)).lookup (name a) = none := by
  rw [lookup_eq_none_iff_not_mem, List.map_map]
  intro hmem
  obtain ⟨b, hb, heq⟩ := List.mem_map.mp hmem
  exact h (hname heq ▸ hb)

/-! ### Numbered entries -/

/-- The values under the names `name 1`, `name 2`, … -/
def numbered (name : ℕ → κ) (values : List ν) : List (κ × ν) := values.mapIdx fun i v => (name (i + 1), v)

omit [BEq κ] [LawfulBEq κ] in
theorem map_fst_numbered (name : ℕ → κ) (values : List ν) :
    (numbered name values).map Prod.fst = (List.range values.length).map fun i => name (i + 1) := by
  refine List.ext_getElem (by simp [numbered]) fun i hi hi' => ?_
  simp [numbered]

omit [BEq κ] [LawfulBEq κ] in
theorem distinctKeys_numbered {name : ℕ → κ} (h : Function.Injective name) (values : List ν) :
    DistinctKeys (numbered name values) := by
  rw [DistinctKeys, map_fst_numbered]
  exact List.nodup_range.map fun i j heq => Nat.succ_injective (h heq)

omit [BEq κ] [LawfulBEq κ] in
theorem not_mem_numbered {name : ℕ → κ} (h : ∀ i, k ≠ name i) (values : List ν) :
    k ∉ (numbered name values).map Prod.fst := by
  rw [map_fst_numbered]
  intro hin
  obtain ⟨i, -, heq⟩ := List.mem_map.mp hin
  exact h (i + 1) heq.symm

/-- Looking up one name after the other gives the values. -/
theorem filterMap_lookup_numbered {name : ℕ → κ} {values : List ν} (h : DistinctKeys l)
    (hsub : numbered name values ⊆ l) :
    (List.range values.length).filterMap (fun i => l.lookup (name (i + 1))) = values := by
  have hlookup : ∀ i : Fin values.length, l.lookup (name (i + 1)) = some values[i] := fun i =>
    (mem_iff_lookup h).mp (hsub (List.mem_mapIdx.mpr ⟨i, i.isLt, rfl⟩))
  rw [← List.map_coe_finRange_eq_range, List.filterMap_map]
  calc (List.finRange values.length).filterMap _
      = (List.finRange values.length).filterMap fun i => some values[i] :=
        List.filterMap_congr fun i _ => hlookup i
    _ = (List.finRange values.length).map fun i => values[i] := by rw [List.filterMap_eq_map']
    _ = values := List.map_getElem_finRange values

end Ylem
