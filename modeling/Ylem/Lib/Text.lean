import Mathlib

/-!
# Byte strings, decimals and numeric strings

A byte string is a list of characters. `decimal` and `zeroPad` print numbers as `%d` and `%0nu` do, and
`numify` reads a string as a number the way dynamically typed languages and SQL servers do: the longest
numeric prefix counts, and a string without one counts as zero.
-/

namespace Ylem

/-- A byte string, one character a byte. -/
abbrev Text := List Char

namespace Text

/-! ### Printing -/

/-- `%d` of a natural number. -/
def decimal (n : ℕ) : Text := Nat.toDigits 10 n

/-- `%0wu`: at least `w` digits. -/
def zeroPad (w n : ℕ) : Text := List.replicate (w - (decimal n).length) '0' ++ decimal n

/-- `join(',', …)` of numbers. -/
def commaList (ns : List ℕ) : Text := (",".toList).intercalate (ns.map decimal)

/-! ### Reading -/

/-- The value of a list of digits. -/
def ofDigits (digits : Text) : ℕ := digits.foldl (fun acc c => 10 * acc + (c.toNat - '0'.toNat)) 0

/-- An optional sign and what follows it. -/
def sign : Text → Bool × Text
  | '-' :: t => (true, t)
  | '+' :: t => (false, t)
  | t => (false, t)

/-- A decimal exponent, `0` where there is none. -/
def exponent : Text → ℤ
  | c :: t =>
    if c = 'e' ∨ c = 'E' then
      let (negative, digits) := sign t
      let value : ℤ := ofDigits (digits.takeWhile Char.isDigit)
      if negative then -value else value
    else 0
  | [] => 0

/-- `inf`, in any case and whatever follows. -/
def isInf : Text → Bool
  | c :: d :: e :: _ => (c = 'i' || c = 'I') && (d = 'n' || d = 'N') && (e = 'f' || e = 'F')
  | _ => false

/-- The numeric value of a string: its longest numeric prefix after white space, `0` without one. Infinity is a number
above those of the machine, and `nan` has no value of its own. -/
def numify (t : Text) : ℚ :=
  let (negative, t) := sign (t.dropWhile Char.isWhitespace)
  let (whole, rest) := t.span Char.isDigit
  let (fraction, rest) := match rest with
    | '.' :: rest => rest.span Char.isDigit
    | rest => ([], rest)
  let mantissa : ℚ := (ofDigits (whole ++ fraction) : ℚ) / 10 ^ fraction.length
  let value : ℚ :=
    if isInf t then 10 ^ 309
    else if whole.isEmpty ∧ fraction.isEmpty then 0
    else mantissa * (10 : ℚ) ^ exponent rest
  if negative then -value else value

/-- `int` of a string. -/
def int (t : Text) : ℤ := (numify t).num.tdiv (numify t).den

/-- `%u` of a number, in 64 bits. -/
def unsigned (q : ℚ) : ℕ :=
  if 0 ≤ q then min q.floor.toNat (2 ^ 64 - 1) else (2 ^ 64 - min (-q).floor.toNat (2 ^ 63)) % 2 ^ 64

/-- A scalar counts as true unless it is undefined, empty or the string `0`. -/
def truthy : Option Text → Bool
  | none => false
  | some t => t != [] && t != ['0']

/-! ### Digits -/

theorem isDigit_of_mem_zeroPad {w n : ℕ} {c : Char} (h : c ∈ zeroPad w n) : c.isDigit = true := by
  rcases List.mem_append.mp h with h | h
  · rw [(List.mem_replicate.mp h).2]
    rfl
  · exact Nat.isDigit_of_mem_toDigits (by omega) (by omega) h

theorem zeroPad_ne_nil (w n : ℕ) : zeroPad w n ≠ [] := by
  unfold zeroPad decimal
  simp [Nat.toDigits_ne_nil]

theorem ofDigits_zeroPad (w n : ℕ) : ofDigits (zeroPad w n) = n := by
  show Nat.ofDigitChars 10 (zeroPad w n) 0 = n
  rw [zeroPad, Nat.ofDigitChars_append, Nat.ofDigitChars_replicate_zero, Nat.mul_zero, decimal,
    Nat.ofDigitChars_ten_toDigits]

theorem zeroPad_injective (w : ℕ) : Function.Injective (zeroPad w) := fun m n h => by
  rw [← ofDigits_zeroPad w m, h, ofDigits_zeroPad]

theorem isDigit_of_mem_decimal {n : ℕ} {c : Char} (h : c ∈ decimal n) : c.isDigit = true :=
  Nat.isDigit_of_mem_toDigits (by omega) (by omega) h

/-- A name with a number is no name that goes on with something else. -/
theorem append_cons_ne_append_decimal (t : Text) {c : Char} (rest : Text) (n : ℕ) (hc : c.isDigit = false) :
    t ++ c :: rest ≠ t ++ decimal n := by
  intro heq
  have hdecimal : c :: rest = decimal n := List.append_cancel_left heq
  have hdigit : c.isDigit = true := isDigit_of_mem_decimal (hdecimal ▸ List.mem_cons_self)
  exact Bool.false_ne_true (hc.symm.trans hdigit)

theorem ofDigits_decimal (n : ℕ) : ofDigits (decimal n) = n := Nat.ofDigitChars_ten_toDigits

theorem decimal_injective : Function.Injective decimal := fun m n h => by
  rw [← ofDigits_decimal m, h, ofDigits_decimal]

theorem mem_intercalate {sep c : Char} {pieces : List Text} (h : c ∈ [sep].intercalate pieces) :
    c = sep ∨ ∃ piece ∈ pieces, c ∈ piece := by
  induction pieces with
  | nil => exact absurd h List.not_mem_nil
  | cons piece pieces ih =>
    cases pieces with
    | nil =>
      rw [List.intercalate_singleton] at h
      exact .inr ⟨piece, List.mem_singleton.mpr rfl, h⟩
    | cons piece' pieces =>
      rw [List.intercalate_cons_cons] at h
      rcases List.mem_append.mp h with h | h
      · rcases List.mem_append.mp h with h | h
        · exact .inr ⟨piece, List.mem_cons_self, h⟩
        · exact .inl (List.mem_singleton.mp h)
      · exact (ih h).imp_right fun ⟨other, hother, hc⟩ => ⟨other, List.mem_cons_of_mem _ hother, hc⟩

theorem exists_cons_decimal (n : ℕ) : ∃ c t, decimal n = c :: t ∧ c.isDigit = true := by
  obtain ⟨c, t, hct⟩ : ∃ c t, decimal n = c :: t := List.exists_cons_of_ne_nil Nat.toDigits_ne_nil
  exact ⟨c, t, hct, isDigit_of_mem_decimal (hct ▸ List.mem_cons_self)⟩

/-- A digit is no sign. -/
theorem sign_cons {c : Char} {t : Text} (hc : c.isDigit = true) : sign (c :: t) = (false, c :: t) := by
  unfold sign
  split
  · rename_i heq
    injection heq with heq _
    exact absurd hc (by rw [heq]; decide)
  · rename_i heq
    injection heq with heq _
    exact absurd hc (by rw [heq]; decide)
  · rfl

theorem isInf_cons {c : Char} {t : Text} (hc : c.isDigit = true) : isInf (c :: t) = false := by
  unfold isInf
  split
  · rename_i heq
    obtain ⟨rfl, -⟩ := List.cons.inj heq
    have hi : c ≠ 'i' := fun h => absurd hc (by rw [h]; decide)
    have hI : c ≠ 'I' := fun h => absurd hc (by rw [h]; decide)
    simp [hi, hI]
  · rfl

/-- Characters of one kind end where another begins. -/
theorem takeWhile_append_stop {p : Char → Bool} {t rest : Text} (ht : ∀ c ∈ t, p c = true)
    (hrest : ∀ c ∈ rest.head?, p c = false) : (t ++ rest).takeWhile p = t ∧ (t ++ rest).dropWhile p = rest := by
  rw [List.takeWhile_append_of_pos ht, List.dropWhile_append_of_pos ht]
  cases rest with
  | nil => rw [List.takeWhile_nil, List.dropWhile_nil, List.append_nil]; exact ⟨rfl, rfl⟩
  | cons c rest =>
    have hc : p c = false := hrest c rfl
    rw [List.takeWhile_cons, List.dropWhile_cons, hc]
    simp

/-- Digits end where something else begins. -/
theorem span_decimal {n : ℕ} {rest : Text} (hrest : ∀ c ∈ rest.head?, c.isDigit = false) :
    (decimal n ++ rest).span Char.isDigit = (decimal n, rest) := by
  obtain ⟨htake, hdrop⟩ := takeWhile_append_stop (fun c => isDigit_of_mem_decimal (n := n)) hrest
  rw [List.span_eq_takeWhile_dropWhile, htake, hdrop]

theorem isWhitespace_of_isDigit {c : Char} (hc : c.isDigit = true) : c.isWhitespace = false := by
  rw [Bool.eq_false_iff]
  intro hspace
  simp only [Char.isWhitespace, Bool.or_eq_true, decide_eq_true_eq] at hspace
  rcases hspace with ((rfl | rfl) | rfl) | rfl <;> exact absurd hc (by decide)

/-- Reading back what was printed. -/
theorem numify_decimal (n : ℕ) : numify (decimal n) = n := by
  have hspan : (decimal n).span Char.isDigit = (decimal n, []) := by
    have h : (decimal n ++ []).span Char.isDigit = (decimal n, []) := span_decimal (by simp)
    rwa [List.append_nil] at h
  have hvalue := ofDigits_decimal n
  obtain ⟨c, t, hct, hc⟩ := exists_cons_decimal n
  rw [hct] at hspan hvalue ⊢
  rw [numify, List.dropWhile_cons, isWhitespace_of_isDigit hc]
  simp only [Bool.false_eq_true, if_false, sign_cons hc, isInf_cons hc, hspan]
  rw [List.append_nil, hvalue]
  simp [exponent]

/-- A number with a decimal point, which need not have a digit behind it. -/
theorem numify_point {n : ℕ} {fraction : Text} (hfraction : ∀ c ∈ fraction, c.isDigit = true) :
    numify (decimal n ++ '.' :: fraction) = n + ofDigits fraction / 10 ^ fraction.length := by
  have hspan : (decimal n ++ '.' :: fraction).span Char.isDigit = (decimal n, '.' :: fraction) :=
    span_decimal fun c hc => by
      obtain rfl : '.' = c := by simpa using hc
      rfl
  have hrest : fraction.span Char.isDigit = (fraction, []) := by
    rw [List.span_eq_takeWhile_dropWhile, List.takeWhile_eq_self_iff.mpr hfraction,
      List.dropWhile_eq_nil_iff.mpr hfraction]
  have hvalue : ofDigits (decimal n ++ fraction) = n * 10 ^ fraction.length + ofDigits fraction := by
    show Nat.ofDigitChars 10 (decimal n ++ fraction) 0 = n * 10 ^ fraction.length + Nat.ofDigitChars 10 fraction 0
    rw [Nat.ofDigitChars_append, decimal, Nat.ofDigitChars_ten_toDigits, Nat.ofDigitChars_eq_ofDigitChars_zero,
      Nat.mul_comm]
  obtain ⟨c, t, hct, hc⟩ := exists_cons_decimal n
  rw [hct, List.cons_append] at hspan
  rw [hct] at hvalue
  rw [hct, List.cons_append, numify, List.dropWhile_cons, isWhitespace_of_isDigit hc]
  simp only [Bool.false_eq_true, if_false, sign_cons hc, isInf_cons hc, hspan, hrest, hvalue]
  have hpos : (10 : ℚ) ^ fraction.length ≠ 0 := by positivity
  simp [exponent, add_div, hpos]

/-! ### Pieces -/

/-- Texts that are equal have the same piece after the last separator. -/
theorem last_piece_inj {sep : Char} {start start' piece piece' : Text}
    (h : start ++ sep :: piece = start' ++ sep :: piece') (hpiece : sep ∉ piece) (hpiece' : sep ∉ piece') :
    piece = piece' := by
  have htake : ∀ {s p : Text}, sep ∉ p → (s ++ sep :: p).reverse.takeWhile (fun c => c != sep) = p.reverse := by
    intro s p hp
    have hpos : ∀ c ∈ p.reverse, (c != sep) = true := fun c hc => by
      rw [bne_iff_ne]
      rintro rfl
      exact hp (List.mem_reverse.mp hc)
    simp [List.takeWhile_append_of_pos hpos]
  have heq := htake (s := start) hpiece
  rw [h, htake hpiece'] at heq
  exact (List.reverse_injective heq).symm

end Text

/-! ### Integers -/

/-- `%d` of an integer. -/
def intText (i : ℤ) : Text := if i < 0 then '-' :: Text.decimal i.natAbs else Text.decimal i.natAbs

theorem intText_natCast (n : ℕ) : intText n = Text.decimal n := by
  rw [intText, if_neg (by omega), Int.natAbs_natCast]

end Ylem
