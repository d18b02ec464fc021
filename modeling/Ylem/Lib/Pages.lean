import Mathlib

/-!
# Reading a sorted list page by page

A list in ascending order can be read in pages of some size: what comes after an element is what is greater
(`filter_gt_eq_drop`), and each page ends with an element whose rank is a multiple of the size, or with the
last one of all (`PageEnd`).
-/

namespace Ylem

/-- The last element of a page of `n`, from some rank on. -/
def PageEnd {α : Type*} (n : ℕ) (l : List α) (start : ℕ) (k : α) : Prop :=
  ∃ i, start ≤ i ∧ l[i]? = some k ∧ ((i + 1) % n = 0 ∨ i + 1 = l.length)

section

variable {α : Type*} {l : List α} {k : α} {i n : ℕ}

theorem PageEnd.mem (h : PageEnd n l i k) : k ∈ l := by
  obtain ⟨j, -, hj, -⟩ := h
  exact List.mem_of_getElem? hj

theorem not_pageEnd_of_length_le (h : l.length ≤ i) : ¬ PageEnd n l i k := by
  rintro ⟨j, hij, hj, -⟩
  obtain ⟨hlt, -⟩ := List.getElem?_eq_some_iff.mp hj
  omega

theorem getLast?_page (hmore : i * n < l.length) (hn : 0 < n) :
    ∃ last j, ((l.drop (i * n)).take n).getLast? = some last ∧ l[j]? = some last ∧
      j + 1 = min (i * n + n) l.length := by
  have hj : min (i * n + n) l.length - 1 < l.length := by omega
  refine ⟨l[min (i * n + n) l.length - 1], min (i * n + n) l.length - 1, ?_, List.getElem?_eq_getElem hj,
    by omega⟩
  rw [List.getLast?_eq_getElem?, List.length_take, List.length_drop, List.getElem?_take, if_pos (by omega),
    List.getElem?_drop]
  have hrank : i * n + (min n (l.length - i * n) - 1) = min (i * n + n) l.length - 1 := by omega
  rw [hrank]
  exact List.getElem?_eq_getElem hj

end

/-- The greatest element of a list in ascending order is the last one. -/
theorem foldl_greatest {α : Type*} [LT α] [DecidableLT α] {l : List α} (hsorted : l.Pairwise (· < ·)) {a : α} (ha : ∀ x ∈ l, a < x) :
    l.foldl (fun acc x => if acc < x then x else acc) a = l.getLastD a := by
  induction l generalizing a with
  | nil => rfl
  | cons x l ih =>
    rw [List.pairwise_cons] at hsorted
    rw [List.foldl_cons, if_pos (ha x List.mem_cons_self), ih hsorted.2 hsorted.1]
    cases l <;> rfl

section Sorted

variable {α : Type*} [LinearOrder α] {l : List α} {k : α} {i n : ℕ}

/-- What is greater than an element comes after it. -/
theorem filter_gt_eq_drop (hsorted : l.Pairwise (· < ·)) (hk : l[i]? = some k) {p : α → Bool}
    (hp : ∀ x, p x = true ↔ k < x) : l.filter p = l.drop (i + 1) := by
  induction l generalizing i with
  | nil => cases hk
  | cons x l ih =>
    rw [List.pairwise_cons] at hsorted
    cases i with
    | zero =>
      obtain rfl := Option.some.inj hk
      rw [List.filter_cons_of_neg fun h => lt_irrefl _ ((hp x).mp h)]
      exact List.filter_eq_self.mpr fun y hy => (hp y).mpr (hsorted.1 y hy)
    | succ i =>
      have hlt := hsorted.1 k (List.mem_of_getElem? hk)
      rw [List.filter_cons_of_neg fun h => lt_asymm hlt ((hp x).mp h)]
      exact ih hsorted.2 hk

/-- The last element of a page is its end, and what is greater are the pages that follow. -/
theorem page_spec (hsorted : l.Pairwise (· < ·)) (hn : 0 < n) (hmore : i * n < l.length) :
    ∃ last, ((l.drop (i * n)).take n).getLast? = some last ∧
      (∀ p : α → Bool, (∀ x, p x = true ↔ last < x) → l.filter p = l.drop ((i + 1) * n)) ∧
      ∀ k, PageEnd n l (i * n) k ↔ k = last ∨ PageEnd n l ((i + 1) * n) k := by
  obtain ⟨last, j, hlast, hj, hrank⟩ := getLast?_page hmore hn
  have hnext : (i + 1) * n = i * n + n := by ring
  rw [hnext]
  refine ⟨last, hlast, fun p hp => ?_, fun k => ⟨?_, ?_⟩⟩
  · rw [filter_gt_eq_drop hsorted hj hp]
    by_cases hfull : i * n + n ≤ l.length
    · rw [hrank, Nat.min_eq_left hfull]
    · rw [List.drop_eq_nil_of_le (by omega), List.drop_eq_nil_of_le (by omega)]
  · rintro ⟨j', hij, hj', hend⟩
    obtain ⟨hlt, -⟩ := List.getElem?_eq_some_iff.mp hj'
    by_cases hsame : j' = j
    · subst hsame
      exact .inl (Option.some.inj (hj'.symm.trans hj))
    · refine .inr ⟨j', ?_, hj', hend⟩
      by_contra hbefore
      have hmod : (j' + 1) % n = j' + 1 - i * n := by
        have hsum : j' + 1 = (j' + 1 - i * n) + i * n := by omega
        rw [hsum, Nat.add_mul_mod_self_right, Nat.mod_eq_of_lt (by omega)]
        omega
      omega
  · rintro (rfl | ⟨j', hij, hj', hend⟩)
    · refine ⟨j, by omega, hj, ?_⟩
      by_cases hfull : i * n + n ≤ l.length
      · refine .inl ?_
        rw [hrank, Nat.min_eq_left hfull, ← hnext, Nat.mul_mod_left]
      · exact .inr (by omega)
    · exact ⟨j', by omega, hj', hend⟩

end Sorted

end Ylem
