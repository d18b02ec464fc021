import Ylem.Lib.Text

/-!
# Texts of one length, in order

Texts of the same length are compared piece by piece: the first piece decides unless it is the same in
both. Numbers of the same width are in the order of their digits.
-/

namespace Ylem

/-! ### Pieces -/

section Pieces

variable {α : Type*} [LinearOrder α] {u v x y : List α}

theorem append_lt_append_iff (hlength : u.length = v.length) :
    u ++ x < v ++ y ↔ u < v ∨ u = v ∧ x < y := by
  induction u generalizing v with
  | nil =>
    obtain rfl := List.eq_nil_of_length_eq_zero hlength.symm
    simp
  | cons a u ih =>
    obtain ⟨b, v, rfl⟩ := List.exists_cons_of_length_eq_add_one hlength.symm
    have htail : u.length = v.length := by simpa using hlength
    rw [List.cons_append, List.cons_append, List.cons_lt_cons_iff, List.cons_lt_cons_iff, ih htail, List.cons.injEq]
    tauto

/-- The first piece is not greater, and where it is the same the rest decides. -/
theorem append_le_append_iff (hlength : u.length = v.length) :
    u ++ x ≤ v ++ y ↔ u < v ∨ u = v ∧ x ≤ y := by
  rw [← not_lt, append_lt_append_iff hlength.symm, ← not_lt]
  rcases lt_trichotomy u v with h | rfl | h
  · simp [h, h.not_gt, h.ne']
  · simp
  · simp [h, h.not_gt, h.ne']

theorem cons_le_cons_iff {a b : α} : a :: x ≤ b :: y ↔ a < b ∨ a = b ∧ x ≤ y := by
  have h : [a] ++ x ≤ [b] ++ y ↔ [a] < [b] ∨ [a] = [b] ∧ x ≤ y := append_le_append_iff rfl
  simpa [List.cons_lt_cons_iff] using h

/-- Pieces that are not greater make a list that is not greater. -/
theorem le_of_forall₂ (h : List.Forall₂ (· ≤ ·) x y) : x ≤ y := by
  induction h with
  | nil => exact le_rfl
  | cons hab _ ih => exact cons_le_cons_iff.mpr (hab.lt_or_eq.imp_right fun heq => ⟨heq, ih⟩)

theorem le_replicate {c : α} {n : ℕ} (hlength : u.length = n) (h : ∀ a ∈ u, a ≤ c) : u ≤ List.replicate n c :=
  le_of_forall₂ (List.forall₂_iff_get.mpr ⟨by rw [hlength, List.length_replicate], fun i hi hi' => by
    have ha := h _ (List.get_mem u ⟨i, hi⟩)
    simpa using ha⟩)

theorem replicate_le {c : α} {n : ℕ} (hlength : u.length = n) (h : ∀ a ∈ u, c ≤ a) : List.replicate n c ≤ u :=
  le_of_forall₂ (List.forall₂_iff_get.mpr ⟨by rw [hlength, List.length_replicate], fun i hi hi' => by
    have ha := h _ (List.get_mem u ⟨i, hi'⟩)
    simpa using ha⟩)

/-- Pieces of the same lengths, each with a separator after it, are in the order of the pieces. -/
theorem flatMap_lt_flatMap_iff {sep : α} {xs ys : List (List α)} (h : xs.map List.length = ys.map List.length) :
    (xs.flatMap fun piece => piece ++ [sep]) < (ys.flatMap fun piece => piece ++ [sep]) ↔ xs < ys := by
  induction xs generalizing ys with
  | nil =>
    obtain rfl : ys = [] := List.map_eq_nil_iff.mp h.symm
    simp
  | cons piece xs ih =>
    obtain ⟨piece', ys, rfl⟩ := List.exists_cons_of_ne_nil (l := ys) (by
      rintro rfl
      exact List.cons_ne_nil _ _ h)
    rw [List.map_cons, List.map_cons, List.cons.injEq] at h
    rw [List.flatMap_cons, List.flatMap_cons, List.cons_lt_cons_iff, append_lt_append_iff (by simp [h.1]), ih h.2,
      append_lt_append_iff h.1]
    simp

end Pieces

/-! ### Digits -/

namespace Text

theorem zeroPad_one {n : ℕ} (h : n < 10) : zeroPad 1 n = [Nat.digitChar n] := by
  rw [zeroPad, decimal, Nat.toDigits_of_lt_base h]
  rfl

theorem zeroPad_succ (w n : ℕ) : zeroPad (w + 2) n = zeroPad (w + 1) (n / 10) ++ [Nat.digitChar (n % 10)] := by
  by_cases h : 10 ≤ n
  · rw [zeroPad, zeroPad, decimal, decimal, Nat.toDigits_of_base_le (by norm_num) h, List.length_append,
      List.length_singleton, List.append_assoc]
    congr 2
    omega
  · have hdiv : n / 10 = 0 := by omega
    rw [zeroPad, zeroPad, decimal, decimal, Nat.toDigits_of_lt_base (by omega), hdiv, Nat.toDigits_zero,
      Nat.mod_eq_of_lt (by omega), List.length_singleton, List.length_singleton, ← List.replicate_succ']
    rfl

theorem length_zeroPad {w n : ℕ} (h : n < 10 ^ (w + 1)) : (zeroPad (w + 1) n).length = w + 1 := by
  induction w generalizing n with
  | zero => rw [zeroPad_one (by simpa using h)]; rfl
  | succ w ih =>
    rw [zeroPad_succ, List.length_append, ih (by omega), List.length_singleton]

theorem digitChar_lt {m n : ℕ} (h : m < n) (hn : n < 10) : Nat.digitChar m < Nat.digitChar n := by
  revert m
  revert n
  decide

theorem zeroPad_lt_zeroPad {w m n : ℕ} (h : m < n) (hn : n < 10 ^ (w + 1)) : zeroPad (w + 1) m < zeroPad (w + 1) n := by
  induction w generalizing m n with
  | zero =>
    have hten : n < 10 := by simpa using hn
    rw [zeroPad_one (h.trans hten), zeroPad_one hten]
    exact List.cons_lt_cons_iff.mpr (.inl (digitChar_lt h hten))
  | succ w ih =>
    have hlength : (zeroPad (w + 1) (m / 10)).length = (zeroPad (w + 1) (n / 10)).length := by
      rw [length_zeroPad (by omega), length_zeroPad (by omega)]
    rw [zeroPad_succ, zeroPad_succ, append_lt_append_iff hlength]
    rcases (Nat.div_le_div_right (c := 10) h.le).lt_or_eq with hdiv | hdiv
    · exact .inl (ih hdiv (by omega))
    · have hmod : m % 10 < n % 10 := by omega
      exact .inr ⟨by rw [hdiv], List.cons_lt_cons_iff.mpr (.inl (digitChar_lt hmod (Nat.mod_lt _ (by norm_num))))⟩

/-- Numbers of one width are in the order of their digits. -/
theorem zeroPad_lt_zeroPad_iff {w m n : ℕ} (hm : m < 10 ^ (w + 1)) (hn : n < 10 ^ (w + 1)) :
    zeroPad (w + 1) m < zeroPad (w + 1) n ↔ m < n := by
  refine ⟨fun h => ?_, fun h => zeroPad_lt_zeroPad h hn⟩
  by_contra hle
  rcases (not_lt.mp hle).lt_or_eq with hlt | rfl
  · exact absurd (h.trans (zeroPad_lt_zeroPad hlt hm)) (lt_irrefl _)
  · exact absurd h (lt_irrefl _)

/-- The digits of a number are those of the thousands and then three more. -/
theorem zeroPad_add_three (w n : ℕ) : zeroPad (w + 4) n = zeroPad (w + 1) (n / 1000) ++ zeroPad 3 (n % 1000) := by
  have hdiv : n / 10 / 10 / 10 = n / 1000 := by omega
  have hthree : zeroPad 3 (n % 1000) = [Nat.digitChar (n / 10 / 10 % 10), Nat.digitChar (n / 10 % 10), Nat.digitChar (n % 10)] := by
    rw [zeroPad_succ 1, zeroPad_succ 0, zeroPad_one (by omega)]
    have h : n % 1000 / 10 / 10 = n / 10 / 10 % 10 ∧ n % 1000 / 10 % 10 = n / 10 % 10 ∧ n % 1000 % 10 = n % 10 := by omega
    rw [h.1, h.2.1, h.2.2]
    rfl
  rw [zeroPad_succ (w + 2), zeroPad_succ (w + 1), zeroPad_succ w, hdiv, hthree, List.append_assoc, List.append_assoc]
  rfl

/-- Taking leading zeros away and padding again changes nothing. -/
theorem pad_dropWhile {w : ℕ} {t : Text} (h : t.length ≤ w) :
    List.replicate (w - (t.dropWhile (· == '0')).length) '0' ++ t.dropWhile (· == '0') =
      List.replicate (w - t.length) '0' ++ t := by
  have hzeros : t.takeWhile (· == '0') = List.replicate (t.takeWhile (· == '0')).length '0' :=
    List.eq_replicate_iff.mpr ⟨rfl, fun c hc => by simpa using List.mem_takeWhile_imp hc⟩
  have hsplit : t = List.replicate (t.takeWhile (· == '0')).length '0' ++ t.dropWhile (· == '0') := by
    rw [← hzeros, List.takeWhile_append_dropWhile]
  have hlength : t.length = (t.takeWhile (· == '0')).length + (t.dropWhile (· == '0')).length := by
    rw [← List.length_append, List.takeWhile_append_dropWhile]
  conv_rhs => rw [hsplit]
  rw [← List.append_assoc, List.replicate_append_replicate, ← hsplit]
  congr 2
  omega

theorem ofDigits_dropWhile (t : Text) : ofDigits (t.dropWhile (· == '0')) = ofDigits t := by
  induction t with
  | nil => rfl
  | cons c t ih =>
    rw [List.dropWhile_cons]
    split_ifs with hc
    · rw [ih, beq_iff_eq.mp hc]
      rfl
    · rfl

/-- The digits of a number with zeros before them. -/
theorem zeroPad_of_le {v w n : ℕ} (hn : n < 10 ^ (v + 1)) (h : v ≤ w) :
    List.replicate (w + 1 - (v + 1)) '0' ++ zeroPad (v + 1) n = zeroPad (w + 1) n := by
  have hlength : (decimal n).length ≤ v + 1 := by
    have hpad := length_zeroPad hn
    rw [zeroPad, List.length_append] at hpad
    omega
  rw [zeroPad, zeroPad, ← List.append_assoc, List.replicate_append_replicate]
  congr 2
  omega

end Text

end Ylem
