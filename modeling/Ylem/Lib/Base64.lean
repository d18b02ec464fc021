import Ylem.Lib.Bytes

/-!
# Base64

Three bytes make four digits of six bits each; what is left over at the end makes two or three digits, which
are filled up to four with `=`. Decoding leaves out all characters that are no digits, and reads what is left
in groups of four: it undoes encoding, with or without the `=` at the end (`decodeDigits_digits`).
-/

namespace Ylem.Base64

def alphabet : Bytes := ascii "ABCDEFGHIJKLMNOPQRSTUVWXYZabcdefghijklmnopqrstuvwxyz0123456789+/"

/-- The character of a digit. -/
def char (n : ℕ) : UInt8 := alphabet.getD n 0

/-- The digit of a character. -/
def value (c : UInt8) : Option ℕ := if c ∈ alphabet then some (alphabet.idxOf c) else none

/-- The digits of a string of bytes. -/
def digits : Bytes → List ℕ
  | a :: b :: c :: t =>
    a.toNat / 4 :: (a.toNat % 4 * 16 + b.toNat / 16) :: (b.toNat % 16 * 4 + c.toNat / 64) :: c.toNat % 64 ::
      digits t
  | [a, b] => [a.toNat / 4, a.toNat % 4 * 16 + b.toNat / 16, b.toNat % 16 * 4]
  | [a] => [a.toNat / 4, a.toNat % 4 * 16]
  | [] => []

/-- The bytes of a list of digits. A single digit at the end makes no byte. -/
def decodeDigits : List ℕ → Bytes
  | w :: x :: y :: z :: t =>
    UInt8.ofNat (w * 4 + x / 16) :: UInt8.ofNat (x % 16 * 16 + y / 4) :: UInt8.ofNat (y % 4 * 64 + z) ::
      decodeDigits t
  | [w, x, y] => [UInt8.ofNat (w * 4 + x / 16), UInt8.ofNat (x % 16 * 16 + y / 4)]
  | [w, x] => [UInt8.ofNat (w * 4 + x / 16)]
  | _ => []

/-- `base64_encode`. -/
def base64Encode (data : Bytes) : Bytes :=
  (digits data).map char ++ List.replicate ((3 - data.length % 3) % 3) '='.toUInt8

/-- `base64_decode`, which leaves out what is not in the alphabet. -/
def base64Decode (enc : Bytes) : Bytes := decodeDigits (enc.filterMap value)

theorem eq_ofNat {n : ℕ} {a : UInt8} (h : n = a.toNat) : UInt8.ofNat n = a := by
  rw [h, UInt8.ofNat_toNat]

theorem decodeDigits_digits (data : Bytes) : decodeDigits (digits data) = data := by
  induction data using digits.induct with
  | case1 a b c t ih =>
    have hb := b.toNat_lt
    have hc := c.toNat_lt
    rw [digits, decodeDigits, ih, eq_ofNat (a := a) (by omega), eq_ofNat (a := b) (by omega),
      eq_ofNat (a := c) (by omega)]
  | case2 a b =>
    have hb := b.toNat_lt
    rw [digits, decodeDigits, eq_ofNat (a := a) (by omega), eq_ofNat (a := b) (by omega)]
  | case3 a => rw [digits, decodeDigits, eq_ofNat (a := a) (by omega)]
  | case4 => rfl

theorem digits_lt (data : Bytes) : ∀ n ∈ digits data, n < 64 := by
  induction data using digits.induct with
  | case1 a b c t ih =>
    have ha := a.toNat_lt
    have hb := b.toNat_lt
    have hc := c.toNat_lt
    rw [digits]
    simp only [List.forall_mem_cons]
    exact ⟨by omega, by omega, by omega, by omega, ih⟩
  | case2 a b =>
    have ha := a.toNat_lt
    have hb := b.toNat_lt
    rw [digits]
    simp only [List.forall_mem_cons]
    exact ⟨by omega, by omega, by omega, fun _ h => absurd h List.not_mem_nil⟩
  | case3 a =>
    have ha := a.toNat_lt
    rw [digits]
    simp only [List.forall_mem_cons]
    exact ⟨by omega, by omega, fun _ h => absurd h List.not_mem_nil⟩
  | case4 => exact fun _ h => absurd h List.not_mem_nil

end Ylem.Base64
