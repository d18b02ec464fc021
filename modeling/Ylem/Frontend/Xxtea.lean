import Ylem.Frontend.Token
import Ylem.Lib.Mixing
import Ylem.Lib.Residue

/-!
# The cipher of the tokens

`Crypt_XXTEA` encrypts a text as a vector of words of 32 bits, the last of which is the length of the text. PHP has no
such words: its integers are longer, so that a sum is brought back by `_int32`, and words that come out of `unpack`
have no sign while those that come out of `_int32` have one. A vector may hold both.

Only the lowest 32 bits of any of these matter (`ofInt_mx`), and on them encryption is a run of steps that mix each
word with its neighbours, and decryption the same steps backwards. So every text comes back whose length can be told
from a word with a sign (`decrypt_encrypt_iff`).
-/

namespace Ylem

namespace CryptXXTEA

/-! ### Integers -/

/-- `CRYPT_XXTEA_DELTA`. -/
def delta : ℤ := 0x9E3779B9

/-- `while ($n >= 2147483648) $n -= 4294967296;`. -/
def lower (n : ℤ) : ℤ := if 2147483648 ≤ n then lower (n - 4294967296) else n
termination_by n.toNat

/-- `while ($n <= -2147483649) $n += 4294967296;`. -/
def raise (n : ℤ) : ℤ := if n ≤ -2147483649 then raise (n + 4294967296) else n
termination_by (-n).toNat

/-- `_int32`. -/
def int32 (n : ℤ) : ℤ := raise (lower n)

theorem bmod_add_modulus (n : ℤ) : (n + 4294967296).bmod (2 ^ 32) = n.bmod (2 ^ 32) := by
  rw [show n + 4294967296 = n + 1 * ((2 ^ 32 : ℕ) : ℤ) by norm_num, Int.add_mul_bmod_self_right]

theorem lower_of_le {n : ℤ} (h : -2147483648 ≤ n) : lower n = n.bmod (2 ^ 32) := by
  induction n using lower.induct with
  | case1 n hn ih =>
    rw [lower, if_pos hn, ih (by omega), ← bmod_add_modulus, Int.sub_add_cancel]
  | case2 n hn =>
    rw [lower, if_neg hn]
    exact (Int.bmod_eq_of_le_mul_two (by push_cast; omega) (by push_cast; omega)).symm

theorem raise_of_lt {n : ℤ} (h : n < 2147483648) : raise n = n.bmod (2 ^ 32) := by
  induction n using raise.induct with
  | case1 n hn ih => rw [raise, if_pos hn, ih (by omega), bmod_add_modulus]
  | case2 n hn =>
    rw [raise, if_neg hn]
    exact (Int.bmod_eq_of_le_mul_two (by push_cast; omega) (by push_cast; omega)).symm

theorem int32_eq (n : ℤ) : int32 n = (BitVec.ofInt 32 n).toInt := by
  rw [BitVec.toInt_ofInt, int32]
  by_cases h : -2147483648 ≤ n
  · have hlt : n.bmod (2 ^ 32) < 2147483648 := Int.bmod_lt (by decide)
    rw [lower_of_le h, raise_of_lt hlt, Int.bmod_bmod]
  · have hlower : lower n = n := by rw [lower, if_neg (by omega)]
    rw [hlower, raise_of_lt (by omega)]

@[simp] theorem ofInt_int32 (n : ℤ) : BitVec.ofInt 32 (int32 n) = BitVec.ofInt 32 n := by
  rw [int32_eq, BitVec.ofInt_toInt]

theorem int32_congr {m n : ℤ} (h : BitVec.ofInt 32 m = BitVec.ofInt 32 n) : int32 m = int32 n := by
  rw [int32_eq, int32_eq, h]

@[simp] theorem int32_int32 (n : ℤ) : int32 (int32 n) = int32 n := int32_congr (ofInt_int32 n)

theorem int32_zero_mul : int32 ((0 : ℕ) * delta) = 0 := by
  rw [Nat.cast_zero, zero_mul, int32_eq]
  rfl

/-! ### Texts as vectors -/

/-- `unpack('V*', …)`. -/
def unpackV : Bytes → List ℤ
  | a :: b :: c :: d :: t =>
    ((a.toNat + 256 * b.toNat + 65536 * c.toNat + 16777216 * d.toNat : ℕ) : ℤ) :: unpackV t
  | _ => []

/-- `pack('V', …)`. -/
def packV (n : ℤ) : Bytes :=
  let m := (n % 4294967296).toNat
  [UInt8.ofNat m, UInt8.ofNat (m / 256), UInt8.ofNat (m / 65536), UInt8.ofNat (m / 16777216)]

/-- `_str2long`. -/
def str2long (s : Bytes) (w : Bool) : List ℤ :=
  let v := unpackV (s ++ List.replicate ((4 - s.length % 4) &&& 3) 0)
  if w then v ++ [(s.length : ℤ)] else v

/-- `substr($s, 0, $len)`, which counts a negative length from the end. -/
def substr (s : Bytes) (len : ℤ) : Bytes := if 0 ≤ len then s.take len.toNat else s.take (s.length - (-len).toNat)

/-- `_long2str`. -/
def long2str (v : List ℤ) (w : Bool) : Bytes :=
  let s := v.flatMap packV
  if w then substr s (v.getD (v.length - 1) 0) else s

/-! ### Keys -/

/-- `$_key`, once it is set. -/
structure SecretKey where
  words : List ℤ
  length_words : words.length = 4

/-- `setKey` with a text. -/
def setKey (key : Bytes) : Option SecretKey :=
  let k := str2long key false
  if h : k.length ≤ 4 then
    if k = [] then none
    else some ⟨k ++ List.replicate (4 - k.length) 0, by rw [List.length_append, List.length_replicate]; omega⟩
  else none

/-! ### Encrypting -/

section Cipher

variable (key : SecretKey)

/-- `$sum >> 2 & 3`. -/
def keyRow (sum : ℤ) : ℕ := (Int.land (sum >>> (2 : ℕ)) 3).toNat

/-- `$mx`. -/
def mx (sum : ℤ) (p : ℕ) (y z : ℤ) : ℤ :=
  Int.xor
    (int32 (Int.xor (Int.land (z >>> (5 : ℕ)) 0x07FFFFFF) (y <<< (2 : ℕ)) +
      Int.xor (Int.land (y >>> (3 : ℕ)) 0x1FFFFFFF) (z <<< (4 : ℕ))))
    (int32 (Int.xor sum y + Int.xor (key.words.getD ((p &&& 3) ^^^ keyRow sum) 0) z))

/-- So many words from `$p` on, with `$z` and `$v`. -/
def encryptWords (sum : ℤ) : ℕ → ℕ → ℤ → List ℤ → ℤ × List ℤ
  | 0, _, z, v => (z, v)
  | k + 1, p, z, v =>
    let y := v.getD (p + 1) 0
    let w := int32 (v.getD p 0 + mx key sum p y z)
    encryptWords sum k (p + 1) w (v.set p w)

/-- The body of the outer loop. -/
def encryptRound (n : ℕ) (sum z : ℤ) (v : List ℤ) : ℤ × List ℤ :=
  let (z, v) := encryptWords key sum n 0 z v
  let y := v.getD 0 0
  let w := int32 (v.getD n 0 + mx key sum n y z)
  (w, v.set n w)

def encryptRounds (n : ℕ) : ℕ → ℤ → ℤ → List ℤ → List ℤ
  | 0, _, _, v => v
  | q + 1, sum, z, v =>
    let sum := int32 (sum + delta)
    let (z, v) := encryptRound key n sum z v
    encryptRounds n q sum z v

/-- `_encryptArray`. -/
def encryptArray (v : List ℤ) : List ℤ :=
  let n := v.length - 1
  encryptRounds key n (6 + 52 / (n + 1)) 0 (v.getD n 0) v

/-- `encrypt` of a text. -/
def encrypt (str : Bytes) : Bytes :=
  if str = [] then [] else long2str (encryptArray key (str2long str true)) false

/-! ### Decrypting -/

/-- The words from `$p` down, with `$y` and `$v`. -/
def decryptWords (sum : ℤ) : ℕ → ℤ → List ℤ → ℤ × List ℤ
  | 0, y, v => (y, v)
  | p + 1, y, v =>
    let z := v.getD p 0
    let w := int32 (v.getD (p + 1) 0 - mx key sum (p + 1) y z)
    decryptWords sum p w (v.set (p + 1) w)

/-- The body of the outer loop. -/
def decryptRound (n : ℕ) (sum y : ℤ) (v : List ℤ) : ℤ × List ℤ :=
  let (y, v) := decryptWords key sum n y v
  let z := v.getD n 0
  let w := int32 (v.getD 0 0 - mx key sum 0 y z)
  (w, v.set 0 w)

/-- How often `$sum` is brought down until it is `0`. -/
def roundsLeft (sum : ℤ) : ℕ := if int32 sum = sum then (BitVec.ofInt 32 sum * 0x144CBC89#32).toNat else 2 ^ 32

theorem delta_mul_inverse : BitVec.ofInt 32 delta * 0x144CBC89#32 = 1#32 := by decide

theorem roundsLeft_sub_delta {sum : ℤ} (h : sum ≠ 0) : roundsLeft (int32 (sum - delta)) < roundsLeft sum := by
  have hnext : roundsLeft (int32 (sum - delta)) = (BitVec.ofInt 32 sum * 0x144CBC89#32 - 1#32).toNat := by
    rw [roundsLeft, if_pos (int32_int32 _), ofInt_int32, Residue.ofInt_sub, sub_mul, delta_mul_inverse]
  rw [hnext, roundsLeft]
  split_ifs with hword
  · have hne : BitVec.ofInt 32 sum * 0x144CBC89#32 ≠ 0#32 := by
      intro hzero
      have hsum : BitVec.ofInt 32 sum = 0#32 := by
        rw [← BitVec.mul_one (BitVec.ofInt 32 sum), ← delta_mul_inverse, BitVec.mul_comm (BitVec.ofInt 32 delta),
          ← BitVec.mul_assoc, hzero, BitVec.zero_mul]
      rw [int32_eq, hsum] at hword
      exact h hword.symm
    have hpos : 0 < (BitVec.ofInt 32 sum * 0x144CBC89#32).toNat :=
      Nat.pos_of_ne_zero fun hzero => hne (BitVec.eq_of_toNat_eq hzero)
    bv_omega
  · exact BitVec.isLt _

def decryptRounds (n : ℕ) (sum y : ℤ) (v : List ℤ) : List ℤ :=
  if sum = 0 then v
  else
    let (y, v) := decryptRound key n sum y v
    decryptRounds n (int32 (sum - delta)) y v
termination_by roundsLeft sum
decreasing_by exact roundsLeft_sub_delta ‹_›

/-- `_decryptArray`. -/
def decryptArray (v : List ℤ) : List ℤ :=
  let n := v.length - 1
  let q := 6 + 52 / (n + 1)
  decryptRounds key n (int32 (q * delta)) (v.getD 0 0) v

/-- `decrypt` of a text. -/
def decrypt (str : Bytes) : Bytes :=
  if str = [] then [] else long2str (decryptArray key (str2long str false)) true

end Cipher

/-! ### Words -/

section Words

variable {key : SecretKey} {n p k q : ℕ} {sum y z : ℤ} {v : List ℤ}

/-- The words of a vector. -/
def residues (v : List ℤ) : ℕ → BitVec 32 := fun i => BitVec.ofInt 32 (v.getD i 0)

/-- `$mx` of words. -/
def mixed (key : SecretKey) (sum : ℤ) (p : ℕ) (y z : BitVec 32) : BitVec 32 :=
  ((z >>> 5 ^^^ y <<< 2) + (y >>> 3 ^^^ z <<< 4)) ^^^
    ((BitVec.ofInt 32 sum ^^^ y) + (BitVec.ofInt 32 (key.words.getD ((p &&& 3) ^^^ keyRow sum) 0) ^^^ z))

/-- Only words matter. -/
theorem ofInt_mx : BitVec.ofInt 32 (mx key sum p y z) = mixed key sum p (BitVec.ofInt 32 y) (BitVec.ofInt 32 z) := by
  have hz : BitVec.ofInt 32 (Int.land (z >>> (5 : ℕ)) 0x07FFFFFF) = BitVec.ofInt 32 z >>> 5 :=
    Residue.ofInt_land_shiftRight 32 5 z
  have hy : BitVec.ofInt 32 (Int.land (y >>> (3 : ℕ)) 0x1FFFFFFF) = BitVec.ofInt 32 y >>> 3 :=
    Residue.ofInt_land_shiftRight 32 3 y
  simp only [mx, mixed, Residue.ofInt_xor, ofInt_int32, BitVec.ofInt_add, Residue.ofInt_shiftLeft, hz, hy]

/-- The word behind a word, and the one before it. -/
def next (n p : ℕ) : ℕ := if p = n then 0 else p + 1

def prev (n p : ℕ) : ℕ := if p = 0 then n else p - 1

/-- Each word is mixed with its neighbours. -/
def mixStep (key : SecretKey) (n : ℕ) (sum : ℤ) (p : ℕ) : Mixing.Step ℕ (BitVec 32) :=
  ⟨p, fun v => mixed key sum p (v (next n p)) (v (prev n p))⟩

theorem blind_mixStep (hn : 0 < n) : (mixStep key n sum p).Blind := by
  have hnext : next n p ≠ p := by
    unfold next
    split_ifs <;> omega
  have hprev : prev n p ≠ p := by
    unfold prev
    split_ifs <;> omega
  intro v x
  show mixed key sum p (Function.update v p x (next n p)) (Function.update v p x (prev n p)) = _
  rw [Function.update_of_ne hnext, Function.update_of_ne hprev]
  rfl

def roundSteps (key : SecretKey) (n : ℕ) (sum : ℤ) : List (Mixing.Step ℕ (BitVec 32)) := (List.range' 0 (n + 1)).map (mixStep key n sum)

/-- The steps of so many rounds, the first of which has the number `i`. -/
def steps (key : SecretKey) (n i q : ℕ) : List (Mixing.Step ℕ (BitVec 32)) :=
  (List.range' i q).flatMap fun i : ℕ => roundSteps key n (int32 (i * delta))

theorem blind_of_mem_steps {i : ℕ} (hn : 0 < n) : ∀ s ∈ steps key n i q, s.Blind := by
  intro s hs
  obtain ⟨i, -, hs⟩ := List.mem_flatMap.mp hs
  obtain ⟨p, -, rfl⟩ := List.mem_map.mp hs
  exact blind_mixStep hn

theorem residues_set (h : p < v.length) (w : ℤ) :
    residues (v.set p w) = Function.update (residues v) p (BitVec.ofInt 32 w) := by
  funext i
  rw [residues, List.getD_eq_getElem?_getD, List.getElem?_set]
  by_cases hi : p = i
  · subst hi
    rw [if_pos rfl, if_pos h, Function.update_self]
    rfl
  · rw [if_neg hi, Function.update_of_ne (Ne.symm hi), ← List.getD_eq_getElem?_getD]
    rfl

theorem getD_set_self (h : p < v.length) (w : ℤ) : (v.set p w).getD p 0 = w := by
  rw [List.getD_eq_getElem?_getD, List.getElem?_set_self h, Option.getD_some]

theorem residues_mix (hp : p < v.length) (hy : y = v.getD (next n p) 0) (hz : z = v.getD (prev n p) 0) :
    residues (v.set p (int32 (v.getD p 0 + mx key sum p y z))) = (mixStep key n sum p).run (residues v) := by
  rw [residues_set hp, ofInt_int32, BitVec.ofInt_add, ofInt_mx, hy, hz]
  rfl

theorem residues_unmix (hp : p < v.length) (hy : y = v.getD (next n p) 0) (hz : z = v.getD (prev n p) 0) :
    residues (v.set p (int32 (v.getD p 0 - mx key sum p y z))) = (mixStep key n sum p).undo (residues v) := by
  rw [residues_set hp, ofInt_int32, Residue.ofInt_sub, ofInt_mx, hy, hz]
  rfl

/-! ### Rounds -/

theorem encryptWords_spec (hlength : v.length = n + 1) (hpk : p + k = n) (hz : z = v.getD (prev n p) 0) :
    (encryptWords key sum k p z v).2.length = n + 1 ∧
      residues (encryptWords key sum k p z v).2 =
        Mixing.run ((List.range' p k).map (mixStep key n sum)) (residues v) ∧
      (encryptWords key sum k p z v).1 = (encryptWords key sum k p z v).2.getD (prev n n) 0 := by
  induction k generalizing p z v with
  | zero =>
    obtain rfl : p = n := hpk
    exact ⟨hlength, rfl, hz⟩
  | succ k ih =>
    have hp : p < v.length := by omega
    have hnext : v.getD (p + 1) 0 = v.getD (next n p) 0 := by rw [next, if_neg (by omega)]
    have hlast : ∀ w, w = (v.set p w).getD (prev n (p + 1)) 0 := fun w => by
      rw [prev, if_neg (Nat.succ_ne_zero p), Nat.add_sub_cancel, getD_set_self hp]
    obtain ⟨hlength', hresidues, hz'⟩ := ih ((List.length_set ..).trans hlength) (by omega)
      (hlast (int32 (v.getD p 0 + mx key sum p (v.getD (p + 1) 0) z)))
    rw [residues_mix hp hnext hz] at hresidues
    exact ⟨hlength', hresidues, hz'⟩

theorem encryptRound_spec (hlength : v.length = n + 1) (hz : z = v.getD n 0) :
    (encryptRound key n sum z v).2.length = n + 1 ∧
      residues (encryptRound key n sum z v).2 = Mixing.run (roundSteps key n sum) (residues v) ∧
      (encryptRound key n sum z v).1 = (encryptRound key n sum z v).2.getD n 0 := by
  obtain ⟨hlength', hresidues, hz'⟩ := @encryptWords_spec key n 0 n sum z v hlength (Nat.zero_add n) hz
  have hn : n < (encryptWords key sum n 0 z v).2.length := by omega
  have hnext : (encryptWords key sum n 0 z v).2.getD 0 0 = (encryptWords key sum n 0 z v).2.getD (next n n) 0 := by
    rw [next, if_pos rfl]
  have hsteps : roundSteps key n sum = (List.range' 0 n).map (mixStep key n sum) ++ [mixStep key n sum n] := by
    rw [roundSteps, List.range'_concat, Nat.one_mul, Nat.zero_add, List.map_append]
    rfl
  refine ⟨(List.length_set ..).trans hlength', ?_, (getD_set_self hn _).symm⟩
  rw [hsteps, Mixing.run_append, ← hresidues]
  exact residues_mix hn hnext hz'

theorem encryptRounds_spec {i : ℕ} (hlength : v.length = n + 1) (hz : z = v.getD n 0) (hsum : sum = int32 (i * delta)) :
    (encryptRounds key n q sum z v).length = n + 1 ∧
      residues (encryptRounds key n q sum z v) = Mixing.run (steps key n (i + 1) q) (residues v) := by
  induction q generalizing i sum z v with
  | zero => exact ⟨hlength, rfl⟩
  | succ q ih =>
    have hnext : int32 (sum + delta) = int32 ((i + 1 : ℕ) * delta) := by
      refine int32_congr ?_
      rw [hsum, BitVec.ofInt_add, ofInt_int32, ← BitVec.ofInt_add, Nat.cast_succ, add_one_mul]
    obtain ⟨hlength', hresidues, hz'⟩ := @encryptRound_spec key n (int32 (sum + delta)) z v hlength hz
    obtain ⟨hlength'', hresidues'⟩ := ih hlength' hz' hnext
    refine ⟨hlength'', ?_⟩
    rw [steps, List.range'_succ, List.flatMap_cons, Mixing.run_append, ← hnext, ← hresidues]
    exact hresidues'

theorem decryptWords_spec (hlength : v.length = n + 1) (hp : p ≤ n) (hy : y = v.getD (next n p) 0) :
    (decryptWords key sum p y v).2.length = n + 1 ∧
      residues (decryptWords key sum p y v).2 =
        Mixing.undo ((List.range' 1 p).map (mixStep key n sum)) (residues v) ∧
      (decryptWords key sum p y v).1 = (decryptWords key sum p y v).2.getD (next n 0) 0 ∧
      ∀ j, p < j → (decryptWords key sum p y v).2.getD j 0 = v.getD j 0 := by
  induction p generalizing y v with
  | zero => exact ⟨hlength, rfl, hy, fun _ _ => rfl⟩
  | succ p ih =>
    have hp' : p + 1 < v.length := by omega
    have hprev : v.getD p 0 = v.getD (prev n (p + 1)) 0 := by rw [prev, if_neg (Nat.succ_ne_zero p), Nat.add_sub_cancel]
    have hlast : ∀ w, w = (v.set (p + 1) w).getD (next n p) 0 := fun w => by
      rw [next, if_neg (by omega), getD_set_self hp']
    obtain ⟨hlength', hresidues, hy', hrest⟩ := ih ((List.length_set ..).trans hlength) (by omega)
      (hlast (int32 (v.getD (p + 1) 0 - mx key sum (p + 1) y (v.getD p 0))))
    rw [residues_unmix hp' hy hprev] at hresidues
    refine ⟨hlength', ?_, hy', fun j hj => (hrest j (by omega)).trans ?_⟩
    · rw [List.range'_concat, Nat.one_mul, Nat.add_comm 1 p, List.map_append, Mixing.undo_append]
      exact hresidues
    · rw [List.getD_eq_getElem?_getD, List.getElem?_set_ne (by omega), ← List.getD_eq_getElem?_getD]

theorem decryptRound_spec (hn : 0 < n) (hlength : v.length = n + 1) (hy : y = v.getD 0 0) :
    (decryptRound key n sum y v).2.length = n + 1 ∧
      residues (decryptRound key n sum y v).2 = Mixing.undo (roundSteps key n sum) (residues v) ∧
      (decryptRound key n sum y v).1 = (decryptRound key n sum y v).2.getD 0 0 ∧
      int32 ((decryptRound key n sum y v).2.getD n 0) = (decryptRound key n sum y v).2.getD n 0 := by
  have hfirst : y = v.getD (next n n) 0 := by rw [next, if_pos rfl, hy]
  obtain ⟨hlength', hresidues, hy', -⟩ := @decryptWords_spec key n n sum y v hlength le_rfl hfirst
  have hpos : 0 < (decryptWords key sum n y v).2.length := by omega
  have hprev : (decryptWords key sum n y v).2.getD n 0 = (decryptWords key sum n y v).2.getD (prev n 0) 0 := by
    rw [prev, if_pos rfl]
  refine ⟨(List.length_set ..).trans hlength', ?_, (getD_set_self hpos _).symm, ?_⟩
  · rw [roundSteps, List.range'_succ, List.map_cons, Mixing.undo_cons, Nat.zero_add, ← hresidues]
    exact residues_unmix hpos hy' hprev
  · -- the last word is the first that is set, and has been set once
    obtain ⟨m, rfl⟩ := Nat.exists_eq_succ_of_ne_zero hn.ne'
    have hm : m + 1 < v.length := by omega
    have hlast : ∀ w, w = (v.set (m + 1) w).getD (next (m + 1) m) 0 := fun w => by
      rw [next, if_neg (Nat.succ_ne_self m).symm, getD_set_self hm]
    obtain ⟨-, -, -, hrest⟩ := @decryptWords_spec key (m + 1) m sum _ (v.set (m + 1) _) ((List.length_set ..).trans hlength)
      (Nat.le_succ m) (hlast (int32 (v.getD (m + 1) 0 - mx key sum (m + 1) y (v.getD m 0))))
    have hset : (decryptRound key (m + 1) sum y v).2.getD (m + 1) 0 =
        int32 (v.getD (m + 1) 0 - mx key sum (m + 1) y (v.getD m 0)) := by
      rw [decryptRound, List.getD_eq_getElem?_getD, List.getElem?_set_ne (Nat.succ_ne_zero m).symm,
        ← List.getD_eq_getElem?_getD]
      exact (hrest (m + 1) (Nat.lt_succ_self m)).trans (getD_set_self hm _)
    rw [hset, int32_int32]

theorem decryptRounds_spec (hn : 0 < n) (hq : q < 2 ^ 32) (hlength : v.length = n + 1) (hy : y = v.getD 0 0) :
    (decryptRounds key n (int32 (q * delta)) y v).length = n + 1 ∧
      residues (decryptRounds key n (int32 (q * delta)) y v) = Mixing.undo (steps key n 1 q) (residues v) ∧
      (0 < q ∨ int32 (v.getD n 0) = v.getD n 0 →
        int32 ((decryptRounds key n (int32 (q * delta)) y v).getD n 0) =
          (decryptRounds key n (int32 (q * delta)) y v).getD n 0) := by
  induction q generalizing y v with
  | zero =>
    have hstop : decryptRounds key n (int32 ((0 : ℕ) * delta)) y v = v := by
      rw [decryptRounds, if_pos int32_zero_mul]
    rw [hstop]
    exact ⟨hlength, rfl, fun h => h.resolve_left (lt_irrefl 0)⟩
  | succ q ih =>
    have hne : int32 ((q + 1 : ℕ) * delta) ≠ 0 := by
      intro hzero
      have hword : BitVec.ofInt 32 ((q + 1 : ℕ) : ℤ) = 0#32 := by
        rw [← BitVec.mul_one (BitVec.ofInt 32 _), ← delta_mul_inverse, ← BitVec.mul_assoc, ← BitVec.ofInt_mul,
          ← ofInt_int32, hzero]
        rfl
      rw [BitVec.ofInt_natCast] at hword
      have hmod : (q + 1) % 2 ^ 32 = 0 := congrArg BitVec.toNat hword
      rw [Nat.mod_eq_of_lt hq] at hmod
      exact absurd hmod (Nat.succ_ne_zero q)
    have hnext : int32 (int32 ((q + 1 : ℕ) * delta) - delta) = int32 (q * delta) := by
      refine int32_congr ?_
      rw [Residue.ofInt_sub, ofInt_int32, ← Residue.ofInt_sub, Nat.cast_succ, add_one_mul, Int.add_sub_cancel]
    obtain ⟨hlength', hresidues, hy', hsigned⟩ :=
      @decryptRound_spec key n (int32 ((q + 1 : ℕ) * delta)) y v hn hlength hy
    obtain ⟨hlength'', hresidues', hsigned'⟩ := ih (Nat.lt_of_succ_lt hq) hlength' hy'
    rw [decryptRounds, if_neg hne, hnext]
    refine ⟨hlength'', ?_, fun _ => hsigned' (.inr hsigned)⟩
    have hsteps : steps key n 1 (q + 1) = steps key n 1 q ++ roundSteps key n (int32 ((q + 1 : ℕ) * delta)) := by
      rw [steps, List.range'_concat, Nat.one_mul, Nat.add_comm 1 q, List.flatMap_append, List.flatMap_singleton]
      rfl
    rw [hsteps, Mixing.undo_append, ← hresidues]
    exact hresidues'

theorem encryptArray_spec (hv : v.length = n + 1) :
    (encryptArray key v).length = n + 1 ∧
      residues (encryptArray key v) = Mixing.run (steps key n 1 (6 + 52 / (n + 1))) (residues v) := by
  have hlast : v.length - 1 = n := by omega
  rw [encryptArray, hlast]
  exact encryptRounds_spec (i := 0) hv rfl int32_zero_mul.symm

theorem decryptArray_spec {u : List ℤ} (hn : 0 < n) (hv : v.length = n + 1) (hu : u.length = n + 1)
    (hresidues : residues u = residues (encryptArray key v)) :
    (decryptArray key u).length = n + 1 ∧ residues (decryptArray key u) = residues v ∧
      int32 ((decryptArray key u).getD n 0) = (decryptArray key u).getD n 0 := by
  have hq : 6 + 52 / (n + 1) < 2 ^ 32 := by
    have hle := Nat.div_le_self 52 (n + 1)
    omega
  have hlast : u.length - 1 = n := by omega
  obtain ⟨hlength, hdecrypt, hsigned⟩ := @decryptRounds_spec key n (6 + 52 / (n + 1)) (u.getD 0 0) u hn hq hu rfl
  rw [decryptArray, hlast]
  refine ⟨hlength, ?_, hsigned (.inl (Nat.add_pos_left (by decide) _))⟩
  rw [hdecrypt, hresidues, (encryptArray_spec hv).2, Mixing.undo_run (blind_of_mem_steps hn)]

end Words

/-! ### Texts -/

section Texts

variable {s t : Bytes} {v u : List ℤ}

theorem ofNat_eq_of_mod {n : ℕ} {a : UInt8} (h : n % 256 = a.toNat) : UInt8.ofNat n = a := by
  rw [← UInt8.toNat_inj, UInt8.toNat_ofNat', h]

theorem length_packV (n : ℤ) : (packV n).length = 4 := rfl

theorem length_flatMap_packV (v : List ℤ) : (v.flatMap packV).length = 4 * v.length := by
  induction v with
  | nil => rfl
  | cons n v ih =>
    rw [List.flatMap_cons, List.length_append, ih, length_packV, List.length_cons]
    omega

theorem unpackV_flatMap_packV (v : List ℤ) : unpackV (v.flatMap packV) = v.map fun n => n % 4294967296 := by
  induction v with
  | nil => rfl
  | cons n v ih =>
    obtain ⟨m, hm⟩ := Int.eq_ofNat_of_zero_le (Int.emod_nonneg n (b := 4294967296) (by decide))
    have hlt : n % 4294967296 < 4294967296 := Int.emod_lt_of_pos n (by decide)
    rw [hm] at hlt
    have hlt : m < 4294967296 := Int.ofNat_lt.mp hlt
    rw [List.flatMap_cons, List.map_cons, ← ih, packV, hm]
    simp only [Int.toNat_natCast, List.cons_append, List.nil_append, unpackV, UInt8.toNat_ofNat', List.cons.injEq, and_true]
    congr 1
    omega

/-- Writing what was read gives the text again. -/
theorem flatMap_packV_unpackV {s : Bytes} (h : s.length % 4 = 0) : (unpackV s).flatMap packV = s := by
  induction s using unpackV.induct with
  | case1 a b c d t ih =>
    have ha := a.toNat_lt
    have hb := b.toNat_lt
    have hc := c.toNat_lt
    have hd := d.toNat_lt
    have ht : t.length % 4 = 0 := by
      rw [List.length_cons, List.length_cons, List.length_cons, List.length_cons] at h
      omega
    obtain ⟨m, hm⟩ : ∃ m, m = a.toNat + 256 * b.toNat + 65536 * c.toNat + 16777216 * d.toNat := ⟨_, rfl⟩
    have hmod : (((m : ℕ) : ℤ) % 4294967296).toNat = m := by omega
    have hpack : packV (m : ℤ) = [a, b, c, d] := by
      rw [packV, hmod, ofNat_eq_of_mod (a := a) (by omega), ofNat_eq_of_mod (a := b) (by omega),
        ofNat_eq_of_mod (a := c) (by omega), ofNat_eq_of_mod (a := d) (by omega)]
    rw [unpackV, List.flatMap_cons, ih ht, ← hm, hpack]
    rfl
  | case2 s hs =>
    rcases s with _ | ⟨a, _ | ⟨b, _ | ⟨c, _ | ⟨d, t⟩⟩⟩⟩
    · rfl
    · exact absurd h (show ¬ 1 % 4 = 0 by decide)
    · exact absurd h (show ¬ 2 % 4 = 0 by decide)
    · exact absurd h (show ¬ 3 % 4 = 0 by decide)
    · exact (hs a b c d t rfl).elim

theorem packV_congr {m n : ℤ} (h : BitVec.ofInt 32 m = BitVec.ofInt 32 n) : packV m = packV n := by
  have hmod : m % 4294967296 = n % 4294967296 := by
    have hnat := congrArg BitVec.toNat h
    rw [BitVec.toNat_ofInt, BitVec.toNat_ofInt] at hnat
    omega
  rw [packV, packV, hmod]

theorem flatMap_packV_congr (hlength : u.length = v.length) (h : residues u = residues v) :
    u.flatMap packV = v.flatMap packV := by
  induction u generalizing v with
  | nil =>
    obtain rfl : v = [] := List.length_eq_zero_iff.mp hlength.symm
    rfl
  | cons m u ih =>
    obtain ⟨n, v, rfl⟩ := List.exists_cons_of_length_eq_add_one hlength.symm
    have hhead : BitVec.ofInt 32 m = BitVec.ofInt 32 n := congrFun h 0
    have htail : residues u = residues v := funext fun i => congrFun h (i + 1)
    rw [List.flatMap_cons, List.flatMap_cons, packV_congr hhead, ih (Nat.succ.inj hlength) htail]

theorem residues_map_emod (v : List ℤ) : residues (v.map fun n => n % 4294967296) = residues v := by
  funext i
  have hmod : ∀ n : ℤ, BitVec.ofInt 32 (n % 4294967296) = BitVec.ofInt 32 n := fun n =>
    BitVec.eq_of_toNat_eq (by rw [BitVec.toNat_ofInt, BitVec.toNat_ofInt]; omega)
  rw [residues, residues, List.getD_eq_getElem?_getD, List.getD_eq_getElem?_getD, List.getElem?_map]
  cases v[i]? with
  | none => rfl
  | some n => exact hmod n

/-- The zeros behind a text. -/
def padding (s : Bytes) : ℕ := (4 - s.length % 4) &&& 3

theorem length_add_padding (s : Bytes) : padding s < 4 ∧ (s.length + padding s) % 4 = 0 := by
  have hand : ∀ r < 4, (4 - r) &&& 3 < 4 ∧ (r + ((4 - r) &&& 3)) % 4 = 0 := by decide
  obtain ⟨hlt, hmod⟩ := hand (s.length % 4) (Nat.mod_lt _ (by decide))
  refine ⟨hlt, ?_⟩
  rw [padding]
  omega

theorem flatMap_packV_str2long (s : Bytes) : (str2long s false).flatMap packV = s ++ List.replicate (padding s) 0 := by
  refine flatMap_packV_unpackV ?_
  rw [List.length_append, List.length_replicate]
  exact (length_add_padding s).2

theorem length_str2long (s : Bytes) : 4 * (str2long s false).length = s.length + padding s := by
  rw [← length_flatMap_packV, flatMap_packV_str2long, List.length_append, List.length_replicate]

theorem isSome_setKey_iff (key : Bytes) : (setKey key).isSome = true ↔ key ≠ [] ∧ key.length ≤ 16 := by
  have hlength := length_str2long key
  obtain ⟨hpadding, hwhole⟩ := length_add_padding key
  have hnil : str2long key false = [] ↔ key = [] := by
    rw [← List.length_eq_zero_iff, ← List.length_eq_zero_iff]
    omega
  rw [setKey]
  split_ifs with hle hempty
  · exact iff_of_false Bool.false_ne_true fun h => h.1 (hnil.mp hempty)
  · exact iff_of_true rfl ⟨fun h => hempty (hnil.mpr h), by omega⟩
  · exact iff_of_false Bool.false_ne_true fun h => hle (by omega)

theorem str2long_flatMap_packV (v : List ℤ) : str2long (v.flatMap packV) false = v.map fun n => n % 4294967296 := by
  have hpadding : (4 - (v.flatMap packV).length % 4) &&& 3 = 0 := by
    rw [length_flatMap_packV, Nat.mul_mod_right]
    rfl
  rw [str2long, hpadding, List.replicate_zero, List.append_nil, unpackV_flatMap_packV]
  rfl

theorem substr_eq_iff (t rest : Bytes) (hrest : rest.length = padding t + 4) :
    substr (t ++ rest) (int32 t.length) = t ↔
      t.length < 2 ^ 31 ∨ 2 ^ 32 - 7 ≤ t.length % 2 ^ 32 ∧ t.length % 2 ^ 32 ≤ 2 ^ 32 - 4 := by
  obtain ⟨hpadding, hwhole⟩ := length_add_padding t
  have htake : ∀ k, (t ++ rest).take k = t ↔ k = t.length := by
    refine fun k => ⟨fun heq => ?_, fun heq => heq ▸ List.take_left⟩
    have hlength := congrArg List.length heq
    rw [List.length_take, List.length_append, hrest] at hlength
    omega
  have hint : int32 t.length =
      if t.length % 2 ^ 32 < 2 ^ 31 then ((t.length % 2 ^ 32 : ℕ) : ℤ) else ((t.length % 2 ^ 32 : ℕ) : ℤ) - 2 ^ 32 := by
    rw [int32_eq, BitVec.toInt_ofInt, Int.bmod_def]
    push_cast
    split_ifs <;> omega
  rw [substr, hint]
  split_ifs with hsmall hneg hneg
  · rw [htake, Int.toNat_natCast]
    omega
  · omega
  · omega
  · -- a length with a sign counts from the end
    rw [htake, List.length_append, hrest]
    omega

/-- What decryption makes of an encrypted text: the text in whole words with its length, and as much of it as the last
word says. -/
theorem decrypt_encrypt_eq (key : SecretKey) {t : Bytes} (hnil : t ≠ []) :
    decrypt key (encrypt key t) = substr (t ++ (List.replicate (padding t) 0 ++ packV t.length)) (int32 t.length) := by
  obtain ⟨n, hn⟩ : ∃ n, (str2long t false).length = n := ⟨_, rfl⟩
  have hstr : str2long t true = str2long t false ++ [(t.length : ℤ)] := rfl
  have hv : (str2long t true).length = n + 1 := by rw [hstr, List.length_append, List.length_singleton, hn]
  have hpos : 0 < n := by
    have hbytes := length_str2long t
    have hnonempty : 0 < t.length := List.length_pos_iff.mpr hnil
    omega
  obtain ⟨hc, -⟩ := @encryptArray_spec key n _ hv
  -- what is encrypted comes back in words without a sign
  have hencrypt : encrypt key t = (encryptArray key (str2long t true)).flatMap packV := by
    rw [encrypt, if_neg hnil]
    rfl
  have hread : str2long (encrypt key t) false = (encryptArray key (str2long t true)).map fun n => n % 4294967296 := by
    rw [hencrypt, str2long_flatMap_packV]
  have hcipher : encrypt key t ≠ [] := by
    refine List.length_pos_iff.mp ?_
    rw [hencrypt, length_flatMap_packV, hc]
    omega
  obtain ⟨hd, hresidues, hsigned⟩ := @decryptArray_spec key n _ (str2long (encrypt key t) false) hpos hv
    (by rw [hread, List.length_map, hc]) (by rw [hread, residues_map_emod])
  have hlen : (decryptArray key (str2long (encrypt key t) false)).getD n 0 = int32 t.length := by
    rw [← hsigned]
    refine int32_congr ((congrFun hresidues n).trans ?_)
    rw [residues, hstr, List.getD_eq_getElem?_getD, List.getElem?_append_right hn.le, hn, Nat.sub_self]
    rfl
  rw [decrypt, if_neg hcipher, long2str, if_pos rfl, hd, Nat.add_sub_cancel, hlen,
    flatMap_packV_congr (hd.trans hv.symm) hresidues, hstr, List.flatMap_append, List.flatMap_singleton,
    flatMap_packV_str2long, List.append_assoc]

theorem length_behind (t : Bytes) : (List.replicate (padding t) 0 ++ packV t.length).length = padding t + 4 := by
  rw [List.length_append, List.length_replicate, length_packV]

/-- A text comes back from its encryption exactly if its length can be told from the last word, or if what is cut off at
the end happens to be all that is behind it. -/
theorem decrypt_encrypt_iff (key : SecretKey) (t : Bytes) :
    decrypt key (encrypt key t) = t ↔
      t.length < 2 ^ 31 ∨ 2 ^ 32 - 7 ≤ t.length % 2 ^ 32 ∧ t.length % 2 ^ 32 ≤ 2 ^ 32 - 4 := by
  by_cases hnil : t = []
  · subst hnil
    exact iff_of_true rfl (.inl (by decide))
  · rw [decrypt_encrypt_eq key hnil]
    exact substr_eq_iff t _ (length_behind t)

theorem decodeToken_encrypt (key : SecretKey) {link : Link} (h : link.plain.length < 2 ^ 31) :
    decodeToken (decrypt key) (ylemGenCipher (encrypt key) link) = (explodePairs link.plain).fields := by
  have hnil : link.plain ≠ [] := by
    intro hnil
    cases hnil
  have hplain : decrypt key (encrypt key link.plain) = link.plain := by
    rw [decrypt_encrypt_eq key hnil]
    exact (substr_eq_iff link.plain _ (length_behind _)).mpr (.inl h)
  rw [decodeToken, ylemGenCipher, base64DecodeUrlsafe_encode, hplain]

end Texts

end CryptXXTEA

end Ylem
