import Mathlib

/-!
# Stable sorts

A list sorted by a key, the greatest first, with elements of one key in the order in which they came. Where an
element ends up can be counted without sorting: in front of it are the elements of a greater key, and those of
its own key that came earlier (`idxOf_sortDesc`).
-/

namespace Ylem

variable {α β : Type} [LinearOrder β]

/-- The list with the greatest keys first. -/
def sortDesc (key : α → β) (l : List α) : List α := l.insertionSort fun a b => key b ≤ key a

/-- How many elements the sorted list has in front of `a`. -/
def rank [DecidableEq α] (key : α → β) (l : List α) (a : α) : ℕ :=
  l.countP (fun b => key a < key b) + (l.takeWhile (· ≠ a)).countP fun b => key b = key a

section Sorted

variable {key : α → β} {l : List α} {a b : α} {n : ℕ}

theorem perm_sortDesc (key : α → β) (l : List α) : (sortDesc key l).Perm l := List.perm_insertionSort _ l

theorem mem_sortDesc : a ∈ sortDesc key l ↔ a ∈ l := (perm_sortDesc key l).mem_iff

theorem pairwise_sortDesc (key : α → β) (l : List α) : (sortDesc key l).Pairwise fun a b => key b ≤ key a :=
  haveI : IsTrans α fun a b => key b ≤ key a := ⟨fun _ _ _ h h' => h'.trans h⟩
  haveI : Std.Total fun a b => key b ≤ key a := ⟨fun a b => le_total (key b) (key a)⟩
  List.pairwise_insertionSort _ l

theorem takeWhile_sorted {p : α → Bool} (hp : ∀ a b, key a ≤ key b → p a = true → p b = true)
    (h : l.Pairwise fun a b => key b ≤ key a) : l.takeWhile p = l.filter p := by
  induction l with
  | nil => rfl
  | cons c l ih =>
    obtain ⟨hc, hl⟩ := List.pairwise_cons.mp h
    by_cases hk : p c
    · rw [List.takeWhile_cons_of_pos hk, List.filter_cons_of_pos hk, ih hl]
    · have hnone : l.filter p = [] := List.filter_eq_nil_iff.mpr fun b hb hb' => hk (hp b c (hc b hb) hb')
      rw [List.takeWhile_cons_of_neg hk, List.filter_cons_of_neg hk, hnone]

theorem takeWhile_sortDesc {p : α → Bool} (hp : ∀ a b, key a ≤ key b → p a = true → p b = true) (l : List α) :
    (sortDesc key l).takeWhile p = (sortDesc key l).filter p ∧
      ((sortDesc key l).takeWhile p).length = l.countP p := by
  have hfilter := takeWhile_sorted hp (pairwise_sortDesc key l)
  exact ⟨hfilter, by rw [hfilter, ← List.countP_eq_length_filter, (perm_sortDesc key l).countP_eq]⟩

/-- An element with a key between two bounds is among the first `n` if there is one at all, and less than `n`
elements reach the upper bound. -/
theorem exists_mem_take_sortDesc {low high : β} :
    (∃ a ∈ (sortDesc key l).take n, low < key a ∧ key a < high) ↔
      l.countP (fun b => high ≤ key b) < n ∧ ∃ a ∈ l, low < key a ∧ key a < high := by
  have hup : ∀ a b : α, key a ≤ key b → decide (high ≤ key a) = true → decide (high ≤ key b) = true :=
    fun a b hle ha => by simpa using (of_decide_eq_true ha).trans hle
  obtain ⟨hfilter, hcount⟩ := takeWhile_sortDesc hup l
  have hsplit := List.takeWhile_append_dropWhile (p := fun b => decide (high ≤ key b)) (l := sortDesc key l)
  constructor
  · rintro ⟨a, ha, hlow, hhigh⟩
    refine ⟨?_, a, mem_sortDesc.mp (List.mem_of_mem_take ha), hlow, hhigh⟩
    by_contra hle
    have hprefix : (sortDesc key l).take n <+: (sortDesc key l).takeWhile fun b => high ≤ key b :=
      List.prefix_of_prefix_length_le (List.take_prefix _ _) (List.takeWhile_prefix _) (by
        rw [List.length_take, hcount]
        omega)
    have hmem := hprefix.subset ha
    rw [hfilter, List.mem_filter] at hmem
    exact absurd (of_decide_eq_true hmem.2) (not_le.mpr hhigh)
  · rintro ⟨hlt, a, ha, hlow, hhigh⟩
    have hdrop : a ∈ (sortDesc key l).dropWhile fun b => high ≤ key b := by
      have hmem : a ∈ sortDesc key l := mem_sortDesc.mpr ha
      rw [← hsplit, List.mem_append, hfilter, List.mem_filter] at hmem
      rcases hmem with ⟨_, hhigh'⟩ | hmem
      · exact absurd (of_decide_eq_true hhigh') (not_le.mpr hhigh)
      · exact hmem
    obtain ⟨first, rest, hrest⟩ := List.exists_cons_of_ne_nil (List.ne_nil_of_mem hdrop)
    have hne : (sortDesc key l).dropWhile (fun b => decide (high ≤ key b)) ≠ [] := List.ne_nil_of_mem hdrop
    have hfirst : key first < high := by
      have hnot := List.head_dropWhile_not (fun b => decide (high ≤ key b)) hne
      simpa [hrest] using hnot
    have hle : key a ≤ key first := by
      have hsorted := (pairwise_sortDesc key l).sublist (List.dropWhile_sublist fun b => decide (high ≤ key b))
      rw [hrest] at hsorted hdrop
      rcases List.mem_cons.mp hdrop with rfl | hmem
      · exact le_rfl
      · exact (List.pairwise_cons.mp hsorted).1 a hmem
    refine ⟨first, ?_, hlow.trans_le hle, hfirst⟩
    rw [← hsplit, hrest, List.take_append, hcount]
    refine List.mem_append_right _ ?_
    obtain ⟨m, hm⟩ := Nat.exists_eq_add_of_lt hlt
    have hpos : n - l.countP (fun b => decide (high ≤ key b)) = m + 1 := by omega
    rw [hpos, List.take_succ_cons]
    exact List.mem_cons_self

theorem sortDesc_cons (a : α) (l : List α) : sortDesc key (a :: l) =
    (sortDesc key l).takeWhile (fun b => key a < key b) ++
      a :: (sortDesc key l).dropWhile fun b => key a < key b := by
  rw [sortDesc, List.insertionSort_cons_eq_take_drop]
  simp only [not_le]
  rfl

variable [DecidableEq α]

/-- Where an element stands in the sorted list. By induction on the list: an element that comes first gets
behind the greater ones, and in front of the others. -/
theorem idxOf_sortDesc (hnodup : l.Nodup) (ha : a ∈ l) : (sortDesc key l).idxOf a = rank key l a := by
  induction l with
  | nil => exact absurd ha List.not_mem_nil
  | cons c l ih =>
    rw [List.nodup_cons] at hnodup
    have hup : ∀ a b : α, key a ≤ key b → decide (key c < key a) = true → decide (key c < key b) = true :=
      fun a b hle ha => by simpa using (of_decide_eq_true ha).trans_le hle
    obtain ⟨hsorted, hcount⟩ := takeWhile_sortDesc hup l
    rw [sortDesc_cons]
    by_cases hac : a = c
    · subst hac
      have hnot : a ∉ (sortDesc key l).takeWhile fun b => key a < key b := fun hmem =>
        hnodup.1 (mem_sortDesc.mp ((List.takeWhile_prefix _).subset hmem))
      rw [List.idxOf_append_of_notMem hnot, List.idxOf_cons_self, hcount, rank,
        List.takeWhile_cons_of_neg (by simp), List.countP_cons_of_neg (by simp)]
      rfl
    · have hmem : a ∈ l := (List.mem_cons.mp ha).resolve_left hac
      have hca : c ≠ a := Ne.symm hac
      have hidx := ih hnodup.2 hmem
      have hsplit := List.takeWhile_append_dropWhile (p := fun b => decide (key c < key b)) (l := sortDesc key l)
      rw [rank, List.takeWhile_cons_of_pos (by simpa using hca), List.countP_cons, List.countP_cons]
      by_cases hlt : key c < key a
      · have htake : a ∈ (sortDesc key l).takeWhile fun b => key c < key b := by
          rw [hsorted, List.mem_filter]
          exact ⟨mem_sortDesc.mpr hmem, by simpa using hlt⟩
        rw [List.idxOf_append_of_mem htake]
        rw [← hsplit, List.idxOf_append_of_mem htake] at hidx
        rw [hidx, rank, if_neg (by simpa using hlt.le), if_neg (by simpa using hlt.ne), Nat.add_zero, Nat.add_zero]
      · have htake : a ∉ (sortDesc key l).takeWhile fun b => key c < key b := by
          rw [hsorted, List.mem_filter]
          simp [hlt]
        rw [List.idxOf_append_of_notMem htake, List.idxOf_cons_ne _ hca]
        rw [← hsplit, List.idxOf_append_of_notMem htake] at hidx
        rw [rank] at hidx
        rcases (not_lt.mp hlt).lt_or_eq with hgt | heq
        · rw [if_pos (by simpa using hgt), if_neg (by simpa using hgt.ne')]
          omega
        · rw [if_neg (by simp [heq]), if_pos (by simp [heq])]
          omega

/-- Which elements are among the first `n`. -/
theorem mem_take_sortDesc (hnodup : l.Nodup) (ha : a ∈ l) : a ∈ (sortDesc key l).take n ↔ rank key l a < n := by
  rw [List.mem_take_iff_idxOf_lt (mem_sortDesc.mpr ha), idxOf_sortDesc hnodup ha]

end Sorted

end Ylem
