import Mathlib

/-!
# Ordered listings

A listing of a set of keys has its keys in ascending order and an entry for each, the key with its value.
There is only one such list. Listings of sets of which one comes before the other are put together by
appending, so that a walk that visits the parts of a set in order and lists each of them lists the set.
-/

namespace Ylem

/-- The keys with property `S`, in ascending order, each with its value. -/
structure OrderedListing {α β : Type*} [LT α] (S : α → Prop) (value : α → β) (entries : List (α × β)) : Prop where
  ascending : (entries.map Prod.fst).Pairwise (· < ·)
  mem_iff : ∀ entry, entry ∈ entries ↔ S entry.1 ∧ entry.2 = value entry.1

namespace OrderedListing

variable {α β : Type*} [LinearOrder α] {S S' : α → Prop} {value : α → β} {entries entries' : List (α × β)}

theorem mem_keys (h : OrderedListing S value entries) {key : α} : key ∈ entries.map Prod.fst ↔ S key := by
  rw [List.mem_map]
  constructor
  · rintro ⟨entry, hentry, rfl⟩
    exact ((h.mem_iff entry).mp hentry).1
  · intro hkey
    exact ⟨(key, value key), (h.mem_iff _).mpr ⟨hkey, rfl⟩, rfl⟩

theorem congr (h : OrderedListing S value entries) (hS : ∀ key, S key ↔ S' key) : OrderedListing S' value entries where
  ascending := h.ascending
  mem_iff entry := by rw [h.mem_iff, hS]

theorem congr_value {value' : α → β} (h : OrderedListing S value entries) (hvalue : ∀ key, S key → value key = value' key) :
    OrderedListing S value' entries where
  ascending := h.ascending
  mem_iff entry := by
    rw [h.mem_iff]
    exact and_congr_right fun hkey => by rw [hvalue _ hkey]

theorem nil (h : ∀ key, ¬ S key) : OrderedListing S value [] where
  ascending := List.Pairwise.nil
  mem_iff _ := iff_of_false List.not_mem_nil fun hentry => h _ hentry.1

theorem singleton (key : α) : OrderedListing (· = key) value [(key, value key)] where
  ascending := List.pairwise_singleton _ _
  mem_iff entry := by
    rw [List.mem_singleton]
    constructor
    · rintro rfl
      exact ⟨rfl, rfl⟩
    · rintro ⟨hkey, hvalue⟩
      exact Prod.ext hkey (hvalue.trans (congrArg value hkey))

theorem append (h : OrderedListing S value entries) (h' : OrderedListing S' value entries')
    (hlt : ∀ key key', S key → S' key' → key < key') : OrderedListing (fun key => S key ∨ S' key) value (entries ++ entries') where
  ascending := by
    rw [List.map_append, List.pairwise_append]
    exact ⟨h.ascending, h'.ascending, fun key hkey key' hkey' => hlt key key' (h.mem_keys.mp hkey) (h'.mem_keys.mp hkey')⟩
  mem_iff entry := by
    rw [List.mem_append, h.mem_iff, h'.mem_iff]
    exact or_and_right.symm

/-- The parts are visited in order. -/
theorem flatMap {ι : Type*} [LT ι] {indices : List ι} {part : ι → List (α × β)} {P : ι → α → Prop}
    (hsorted : indices.Pairwise (· < ·)) (hpart : ∀ i ∈ indices, OrderedListing (P i) value (part i))
    (hlt : ∀ i ∈ indices, ∀ j ∈ indices, i < j → ∀ key key', P i key → P j key' → key < key') :
    OrderedListing (fun key => ∃ i ∈ indices, P i key) value (indices.flatMap part) := by
  induction indices with
  | nil => exact nil (by simp)
  | cons i indices ih =>
    obtain ⟨hfirst, hrest⟩ := List.pairwise_cons.mp hsorted
    have htail := ih hrest (fun j hj => hpart j (List.mem_cons_of_mem _ hj))
      (fun j hj k hk => hlt j (List.mem_cons_of_mem _ hj) k (List.mem_cons_of_mem _ hk))
    rw [List.flatMap_cons]
    refine ((hpart i List.mem_cons_self).append htail ?_).congr fun key => ?_
    · rintro key key' hkey ⟨j, hj, hkey'⟩
      exact hlt i List.mem_cons_self j (List.mem_cons_of_mem _ hj) (hfirst j hj) key key' hkey hkey'
    · rw [List.exists_mem_cons_iff]

/-- There is one listing of a set. -/
theorem unique (h : OrderedListing S value entries) (h' : OrderedListing S value entries') : entries = entries' := by
  have hsorted : ∀ {l : List (α × β)}, (l.map Prod.fst).Pairwise (· < ·) → l.Pairwise fun e e' => e.1 < e'.1 :=
    fun hl => List.pairwise_map.mp hl
  refine List.Perm.eq_of_pairwise (fun e e' _ _ hlt hgt => absurd hgt hlt.not_gt) (hsorted h.ascending)
    (hsorted h'.ascending) ?_
  rw [List.perm_ext_iff_of_nodup (hsorted h.ascending |>.imp fun hlt heq => (heq ▸ hlt).false)
    (hsorted h'.ascending |>.imp fun hlt heq => (heq ▸ hlt).false)]
  intro entry
  rw [h.mem_iff, h'.mem_iff]

/-- A listing is as long as the set is large. -/
theorem length_le (h : OrderedListing S value entries) {s : Finset α} (hs : ∀ key, S key → key ∈ s) : entries.length ≤ s.card := by
  have hnodup : (entries.map Prod.fst).Nodup := h.ascending.imp fun hlt => hlt.ne
  rw [← List.length_map (f := Prod.fst), ← List.toFinset_card_of_nodup hnodup]
  exact Finset.card_le_card fun key hkey => hs key (h.mem_keys.mp (List.mem_toFinset.mp hkey))

/-- Where all values are the same, so are the listings. -/
theorem map {γ : Type*} (f : β → γ) (h : OrderedListing S value entries) :
    OrderedListing S (fun key => f (value key)) (entries.map fun entry => (entry.1, f entry.2)) where
  ascending := by
    rw [List.map_map]
    exact h.ascending
  mem_iff entry := by
    rw [List.mem_map]
    constructor
    · rintro ⟨e, he, rfl⟩
      obtain ⟨hkey, hvalue⟩ := (h.mem_iff e).mp he
      exact ⟨hkey, congrArg f hvalue⟩
    · rintro ⟨hkey, hvalue⟩
      exact ⟨(entry.1, value entry.1), (h.mem_iff _).mpr ⟨hkey, rfl⟩, Prod.ext rfl hvalue.symm⟩

end OrderedListing

end Ylem
