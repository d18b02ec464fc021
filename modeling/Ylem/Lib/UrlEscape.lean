import Ylem.Lib.Bytes

/-!
# Escaping in urls

A byte that is not safe is written as `%` and its two hexadecimal digits, and a space as `+`. Reading turns
every `+` into a space and then decodes what looks like an escape, so it undoes writing (`unescape_escape`).

Text that was never escaped survives reading only if it holds neither a `+` nor an escape: with a `+` counted
twice, reading never makes a text heavier, and makes every other text lighter (`weight_unescape_lt`).
-/

namespace Ylem.UrlEscape

/-- Upper case hexadecimal digits, as `%02X` prints them. -/
def hexDigit (n : ℕ) : UInt8 := (ascii "0123456789ABCDEF").getD n 0

def isHex (c : UInt8) : Bool := c ∈ ascii "0123456789abcdefABCDEF"

/-- The value of a hexadecimal digit. -/
def hexValue (c : UInt8) : ℕ :=
  if '0'.toUInt8 ≤ c ∧ c ≤ '9'.toUInt8 then c.toNat - '0'.toNat
  else if 'a'.toUInt8 ≤ c ∧ c ≤ 'f'.toUInt8 then c.toNat - 'a'.toNat + 10
  else c.toNat - 'A'.toNat + 10

/-- Is this text the start of an escape? -/
def isEscape (c a b : UInt8) : Bool := c == '%'.toUInt8 && isHex a && isHex b

/-- `s/%([a-fA-F0-9][a-fA-F0-9])/pack("C", hex($1))/eg`. -/
def percentDecode : Bytes → Bytes
  | c :: a :: b :: t =>
    if isEscape c a b then UInt8.ofNat (hexValue a * 16 + hexValue b) :: percentDecode t
    else c :: percentDecode (a :: b :: t)
  | t => t

/-- `tr/+/ /`. -/
def plusToSpace (c : UInt8) : UInt8 := if c = '+'.toUInt8 then ' '.toUInt8 else c

/-- Reading an escaped text. -/
def unescape (t : Bytes) : Bytes := percentDecode (t.map plusToSpace)

/-- Writing one byte. A space is among the safe ones, and written as `+`. -/
def escapeByte (safe : UInt8 → Bool) (c : UInt8) : Bytes :=
  if c = ' '.toUInt8 then ['+'.toUInt8]
  else if safe c then [c]
  else ['%'.toUInt8, hexDigit (c.toNat / 16), hexDigit (c.toNat % 16)]

def escape (safe : UInt8 → Bool) (t : Bytes) : Bytes := t.flatMap (escapeByte safe)

theorem hexDigit_mem {n : ℕ} (h : n < 16) : hexDigit n ∈ ascii "0123456789ABCDEF" := by
  have hlength : n < (ascii "0123456789ABCDEF").length := h
  rw [hexDigit, List.getD_eq_getElem _ _ hlength]
  exact List.getElem_mem hlength

/-- Writing adds no bytes but `+`, `%` and hexadecimal digits. -/
theorem notMem_escape {safe : UInt8 → Bool} {d : UInt8} (hsafe : safe d = false)
    (hd : d ∉ ascii "+%0123456789ABCDEF") (t : Bytes) : d ∉ escape safe t := by
  have hne : ∀ a ∈ ascii "+%0123456789ABCDEF", d ≠ a := fun a ha heq => hd (heq ▸ ha)
  have hdigit : ∀ n < 16, d ≠ hexDigit n := fun n hn => hne _ (List.mem_append_right (ascii "+%") (hexDigit_mem hn))
  intro hmem
  obtain ⟨c, _, hc⟩ := List.mem_flatMap.mp hmem
  rw [escapeByte] at hc
  split_ifs at hc with hspace hsafe'
  · exact hne _ (by decide) (List.mem_singleton.mp hc)
  · rw [List.mem_singleton.mp hc, hsafe'] at hsafe
    exact absurd hsafe (by decide)
  · have hlt : c.toNat < 256 := c.toNat_lt
    rw [List.mem_cons, List.mem_cons, List.mem_singleton] at hc
    rcases hc with hc | hc | hc
    · exact hne _ (by decide) hc
    · exact hdigit _ (by omega) hc
    · exact hdigit _ (by omega) hc

/-! ### Text that is not changed by reading -/

def hasEscape : Bytes → Bool
  | c :: a :: b :: t => isEscape c a b || hasEscape (a :: b :: t)
  | _ => false

/-- Neither a `+` nor an escape. -/
def Literal (t : Bytes) : Prop := '+'.toUInt8 ∉ t ∧ hasEscape t = false

instance (t : Bytes) : Decidable (Literal t) := inferInstanceAs (Decidable (_ ∧ _))

/-- The length of a text, with every `+` counted twice. -/
def weight : Bytes → ℕ
  | [] => 0
  | c :: t => (if c = '+'.toUInt8 then 2 else 1) + weight t

theorem weight_append (s t : Bytes) : weight (s ++ t) = weight s + weight t := by
  induction s with
  | nil => exact (Nat.zero_add _).symm
  | cons c s ih =>
    rw [List.cons_append, weight, weight, ih]
    omega

theorem weight_pos {t : Bytes} (h : t ≠ []) : 0 < weight t := by
  cases t with
  | nil => exact absurd rfl h
  | cons c t =>
    rw [weight]
    split_ifs <;> omega

theorem percentDecode_of_not_hasEscape {t : Bytes} (h : hasEscape t = false) : percentDecode t = t := by
  induction t using percentDecode.induct with
  | case1 c a b t hescape _ =>
    rw [hasEscape, hescape, Bool.true_or] at h
    exact absurd h (by decide)
  | case2 c a b t hescape ih =>
    rw [hasEscape, Bool.or_eq_false_iff] at h
    rw [percentDecode, if_neg hescape, ih h.2]
  | case3 t _ => rw [percentDecode]; assumption

theorem weight_percentDecode_le (t : Bytes) : weight (percentDecode t) ≤ weight t := by
  induction t using percentDecode.induct with
  | case1 c a b t hescape ih =>
    rw [percentDecode, if_pos hescape, weight, weight, weight, weight]
    split_ifs <;> omega
  | case2 c a b t hescape ih =>
    rw [percentDecode, if_neg hescape, weight, weight.eq_def (c :: a :: b :: t)]
    simp only
    omega
  | case3 t _ => rw [percentDecode]; assumption

theorem weight_percentDecode_lt {t : Bytes} (h : hasEscape t = true) : weight (percentDecode t) < weight t := by
  induction t using percentDecode.induct with
  | case1 c a b t hescape _ =>
    have hle := weight_percentDecode_le t
    rw [percentDecode, if_pos hescape, weight, weight, weight, weight]
    split_ifs <;> omega
  | case2 c a b t hescape ih =>
    rw [hasEscape, Bool.or_eq_true, or_iff_right hescape] at h
    have hlt := ih h
    rw [percentDecode, if_neg hescape, weight, weight.eq_def (c :: a :: b :: t)]
    simp only
    omega
  | case3 t ht =>
    rw [hasEscape] at h
    · exact absurd h (by decide)
    · exact ht

theorem isEscape_plusToSpace (c a b : UInt8) :
    isEscape (plusToSpace c) (plusToSpace a) (plusToSpace b) = isEscape c a b := by
  have hhex : ∀ c, isHex (plusToSpace c) = isHex c := by
    intro c
    rw [plusToSpace]
    split_ifs with h
    · rw [h]
      decide
    · rfl
  have hpercent : (plusToSpace c == '%'.toUInt8) = (c == '%'.toUInt8) := by
    rw [plusToSpace]
    split_ifs with h
    · rw [h]
      decide
    · rfl
  rw [isEscape, hhex, hhex, hpercent, isEscape]

theorem hasEscape_map (t : Bytes) : hasEscape (t.map plusToSpace) = hasEscape t := by
  induction t using hasEscape.induct with
  | case1 c a b t ih =>
    rw [List.map_cons, List.map_cons] at ih
    rw [List.map_cons, List.map_cons, List.map_cons, hasEscape, isEscape_plusToSpace, ih, hasEscape]
  | case2 t ht =>
    match t, ht with
    | [], _ => rfl
    | [_], _ => rfl
    | [_, _], _ => rfl
    | c :: a :: b :: t, ht => exact absurd rfl (ht c a b t)

theorem map_plusToSpace {t : Bytes} (h : '+'.toUInt8 ∉ t) : t.map plusToSpace = t := by
  induction t with
  | nil => rfl
  | cons c t ih =>
    have hc : c ≠ '+'.toUInt8 := fun heq => h (heq ▸ List.mem_cons_self)
    rw [List.map_cons, plusToSpace, if_neg hc, ih fun hmem => h (List.mem_cons_of_mem _ hmem)]

theorem weight_map_le (t : Bytes) : weight (t.map plusToSpace) ≤ weight t := by
  induction t with
  | nil => exact le_rfl
  | cons c t ih =>
    rw [List.map_cons, weight, weight, plusToSpace]
    split_ifs <;> omega

theorem weight_map_lt {t : Bytes} (h : '+'.toUInt8 ∈ t) : weight (t.map plusToSpace) < weight t := by
  induction t with
  | nil => exact absurd h List.not_mem_nil
  | cons c t ih =>
    have hle := weight_map_le t
    rw [List.map_cons, weight, weight, plusToSpace]
    by_cases hc : c = '+'.toUInt8
    · rw [if_pos hc, if_pos hc, if_neg (by decide)]
      omega
    · have hlt := ih ((List.mem_cons.mp h).resolve_left (Ne.symm hc))
      rw [if_neg hc, if_neg hc]
      omega

/-- Reading leaves literal text alone. -/
theorem unescape_of_literal {t : Bytes} (h : Literal t) : unescape t = t := by
  rw [unescape, map_plusToSpace h.1, percentDecode_of_not_hasEscape h.2]

theorem weight_unescape_le (t : Bytes) : weight (unescape t) ≤ weight t :=
  (weight_percentDecode_le _).trans (weight_map_le t)

/-- Reading makes all other text lighter. -/
theorem weight_unescape_lt {t : Bytes} (h : ¬ Literal t) : weight (unescape t) < weight t := by
  by_cases hplus : '+'.toUInt8 ∈ t
  · exact (weight_percentDecode_le _).trans_lt (weight_map_lt hplus)
  · have hescape : hasEscape (t.map plusToSpace) = true := by
      rw [hasEscape_map]
      exact Bool.of_not_eq_false fun hfalse => h ⟨hplus, hfalse⟩
    exact (weight_percentDecode_lt hescape).trans_le (weight_map_le t)

/-! ### Text that is not changed by writing -/

section Escape

variable {safe : UInt8 → Bool}

/-- What writing leaves alone. -/
def SafeText (safe : UInt8 → Bool) (t : Bytes) : Prop := ∀ c ∈ t, safe c = true ∧ c ≠ ' '.toUInt8

theorem all_safe_iff {t : Bytes} : (t.all fun c => safe c && c != ' '.toUInt8) = true ↔ SafeText safe t := by
  simp [SafeText]

instance (t : Bytes) : Decidable (SafeText safe t) := decidable_of_iff _ all_safe_iff

theorem escape_of_safe {t : Bytes} (h : SafeText safe t) : escape safe t = t := by
  induction t with
  | nil => rfl
  | cons c t ih =>
    obtain ⟨hsafe, hspace⟩ := h c List.mem_cons_self
    have hrest : escape safe t = t := ih fun d hd => h d (List.mem_cons_of_mem _ hd)
    rw [escape, List.flatMap_cons, ← escape, hrest, escapeByte, if_neg hspace, if_pos hsafe]
    rfl

theorem weight_escapeByte_le (c : UInt8) : weight [c] ≤ weight (escapeByte safe c) := by
  rw [escapeByte]
  split_ifs with hspace
  · rw [hspace]
    decide
  · exact le_rfl
  · simp only [weight]
    split_ifs <;> omega

theorem weight_escapeByte_lt {c : UInt8} (h : ¬ (safe c = true ∧ c ≠ ' '.toUInt8)) :
    weight [c] < weight (escapeByte safe c) := by
  rw [escapeByte]
  split_ifs with hspace hsafe
  · rw [hspace]
    decide
  · exact absurd ⟨hsafe, hspace⟩ h
  · simp only [weight]
    split_ifs <;> omega

theorem weight_escape_le (t : Bytes) : weight t ≤ weight (escape safe t) := by
  induction t with
  | nil => exact le_rfl
  | cons c t ih =>
    have hbyte : weight [c] ≤ weight (escapeByte safe c) := weight_escapeByte_le c
    have hcons : weight (c :: t) = weight [c] + weight t := weight_append [c] t
    rw [escape, List.flatMap_cons, weight_append, ← escape, hcons]
    omega

/-- Writing makes all other text heavier. -/
theorem weight_escape_lt {t : Bytes} (h : ¬ SafeText safe t) : weight t < weight (escape safe t) := by
  induction t with
  | nil => exact absurd (fun c hc => absurd hc List.not_mem_nil) h
  | cons c t ih =>
    have hcons : weight (c :: t) = weight [c] + weight t := weight_append [c] t
    rw [escape, List.flatMap_cons, weight_append, ← escape, hcons]
    by_cases hc : safe c = true ∧ c ≠ ' '.toUInt8
    · have hrest : ¬ SafeText safe t := fun hsafe => h (List.forall_mem_cons.mpr ⟨hc, hsafe⟩)
      have hbyte : weight [c] ≤ weight (escapeByte safe c) := weight_escapeByte_le c
      have hlt := ih hrest
      omega
    · have hbyte := weight_escapeByte_lt hc
      have hle : weight t ≤ weight (escape safe t) := weight_escape_le t
      omega

theorem percentDecode_cons {c : UInt8} (h : c ≠ '%'.toUInt8) (t : Bytes) :
    percentDecode (c :: t) = c :: percentDecode t := by
  match t with
  | [] => rfl
  | [_] => rfl
  | a :: b :: t =>
    have hescape : isEscape c a b = false := by
      rw [isEscape, beq_eq_false_iff_ne.mpr h]
      rfl
    rw [percentDecode, hescape]
    rfl

theorem percentDecode_escaped (c : UInt8) (t : Bytes) :
    percentDecode ('%'.toUInt8 :: hexDigit (c.toNat / 16) :: hexDigit (c.toNat % 16) :: t) =
      c :: percentDecode t := by
  have hall : ∀ n : Fin 16, isHex (hexDigit n) = true ∧ hexValue (hexDigit n) = n := by decide
  have hlt : c.toNat < 256 := c.toNat_lt
  obtain ⟨hhigh, hhighValue⟩ := hall ⟨c.toNat / 16, by omega⟩
  obtain ⟨hlow, hlowValue⟩ := hall ⟨c.toNat % 16, by omega⟩
  have hvalue : c.toNat / 16 * 16 + c.toNat % 16 = c.toNat := Nat.div_add_mod' _ _
  rw [percentDecode, if_pos (by rw [isEscape, hhigh, hlow]; rfl), hhighValue, hlowValue, hvalue, UInt8.ofNat_toNat]

theorem plusToSpace_hexDigit (n : ℕ) : plusToSpace (hexDigit n) = hexDigit n := by
  have hall : ∀ n : Fin 16, hexDigit n ≠ '+'.toUInt8 := by decide
  rw [plusToSpace, if_neg]
  by_cases hn : n < 16
  · exact hall ⟨n, hn⟩
  · rw [hexDigit, List.getD_eq_default _ _ (by simpa [ascii] using hn)]
    decide

/-- Reading undoes writing, if neither `%` nor `+` counts as safe. -/
theorem unescape_escape (hpercent : safe '%'.toUInt8 = false) (hplus : safe '+'.toUInt8 = false) (t : Bytes) :
    unescape (escape safe t) = t := by
  induction t with
  | nil => rfl
  | cons c t ih =>
    rw [unescape] at ih ⊢
    rw [escape, List.flatMap_cons, ← escape, List.map_append, escapeByte]
    split_ifs with hspace hsafe
    · have hread : plusToSpace '+'.toUInt8 = ' '.toUInt8 := by decide
      rw [List.map_singleton, List.singleton_append, hread, percentDecode_cons (by decide), ih, hspace]
    · have hc : c ≠ '+'.toUInt8 := fun heq => by rw [heq, hplus] at hsafe; exact absurd hsafe (by decide)
      have hc' : c ≠ '%'.toUInt8 := fun heq => by rw [heq, hpercent] at hsafe; exact absurd hsafe (by decide)
      rw [List.map_singleton, List.singleton_append, plusToSpace, if_neg hc, percentDecode_cons hc', ih]
    · have hhead : plusToSpace '%'.toUInt8 = '%'.toUInt8 := by decide
      simp only [List.map_cons, List.map_nil, List.cons_append, List.nil_append, plusToSpace_hexDigit, hhead]
      rw [percentDecode_escaped, ih]

end Escape

end Ylem.UrlEscape
