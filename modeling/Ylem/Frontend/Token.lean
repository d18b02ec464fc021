import Ylem.Lib.Base64

/-!
# Download tokens

A link to a file carries its namespace, its resource id and up to four more fields in one encrypted text:
`ylemGenCipher` joins key and value of a field with byte 1 and the fields with byte 2, encrypts the text and
encodes it in the alphabet of urls. `get.php` goes the other way: it splits at byte 2, splits every piece at
byte 1, and lets later pieces override earlier ones.

The separators are not escaped. A value that contains byte 1 loses what follows it; one that contains byte 2
ends there, and what follows it counts as another field, which can be the id. And an optional field is left
out where the language takes its value for false, which the text `0` is too. Without these the fields come
back (`decodeToken_ylemGenCipher_iff`).
-/

namespace Ylem

open Base64

/-! ### The alphabet of urls -/

/-- `strtr` of `base64_encode_urlsafe`, at one character. -/
def urlsafe (c : UInt8) : Bytes :=
  if c = '='.toUInt8 then []
  else if c = '+'.toUInt8 then ['*'.toUInt8]
  else if c = '/'.toUInt8 then ['-'.toUInt8]
  else [c]

/-- `strtr` of `base64_decode_urlsafe`, at one character. -/
def unsafeChar (c : UInt8) : UInt8 :=
  if c = '*'.toUInt8 then '+'.toUInt8
  else if c = '-'.toUInt8 then '/'.toUInt8
  else c

def base64EncodeUrlsafe (data : Bytes) : Bytes := (base64Encode data).flatMap urlsafe

def base64DecodeUrlsafe (enc : Bytes) : Bytes := base64Decode (enc.map unsafeChar)

theorem digits_of_urlsafe {n : ℕ} (h : n < 64) : ((urlsafe (char n)).map unsafeChar).filterMap value = [n] := by
  have hall : ∀ n : Fin 64, ((urlsafe (char n)).map unsafeChar).filterMap value = [(n : ℕ)] := by
    decide +kernel
  exact hall ⟨n, h⟩

theorem base64DecodeUrlsafe_encode (data : Bytes) : base64DecodeUrlsafe (base64EncodeUrlsafe data) = data := by
  have hpadding : ∀ k, (List.replicate k '='.toUInt8).flatMap urlsafe = [] := by
    intro k
    induction k with
    | zero => rfl
    | succ k ih => exact ih
  have hdigits : ∀ ns : List ℕ, (∀ n ∈ ns, n < 64) →
      (((ns.map char).flatMap urlsafe).map unsafeChar).filterMap value = ns := by
    intro ns hns
    induction ns with
    | nil => rfl
    | cons n ns ih =>
      rw [List.map_cons, List.flatMap_cons, List.map_append, List.filterMap_append,
        digits_of_urlsafe (hns n List.mem_cons_self), ih fun m hm => hns m (List.mem_cons_of_mem _ hm)]
      rfl
  rw [base64DecodeUrlsafe, base64Decode, base64EncodeUrlsafe, base64Encode, List.flatMap_append, hpadding,
    List.append_nil, hdigits _ (digits_lt data), decodeDigits_digits]

/-! ### Making a token -/

/-- `\001`, between a key and its value. -/
def keyEnd : UInt8 := 1

/-- `\002`, between two pairs. -/
def pairEnd : UInt8 := 2

/-- The arguments of `ylem_gen_cipher`. Optional fields that are given are not empty. -/
structure Link where
  ns : Bytes
  id : Bytes
  ct : Option Bytes
  fn : Option Bytes
  rd : Option Bytes
  ex : Option Bytes
  nonempty : ∀ v ∈ [ct, fn, rd, ex], v ≠ some []

/-- `if($ct) { $data["ct"]=$ct; }`. -/
def optional (key : Bytes) (v : Option Bytes) : List (Bytes × Bytes) :=
  match v with
  | some v => if truthy v then [(key, v)] else []
  | none => []

namespace Link

variable (link : Link)

/-- `$data`. -/
def data : List (Bytes × Bytes) :=
  [(ascii "v", ascii "1.0"), (ascii "ns", link.ns), (ascii "id", link.id)] ++ optional (ascii "ct") link.ct ++
    optional (ascii "fn") link.fn ++ optional (ascii "rd") link.rd ++ optional (ascii "ex") link.ex

/-- `$plain`. -/
def plain : Bytes := [pairEnd].intercalate (link.data.map fun kv => kv.1 ++ [keyEnd] ++ kv.2)

end Link

def ylemGenCipher (encrypt : Bytes → Bytes) (link : Link) : Bytes :=
  base64EncodeUrlsafe (encrypt link.plain)

/-! ### Reading a token -/

/-- `$params`, the latest pair first: a key has the value of its latest pair, which is null for a piece
without byte 1. -/
abbrev Params := List (Bytes × Option Bytes)

/-- `list($k,$v)=explode("\001",$pair)`. -/
def explodePair (pair : Bytes) : Bytes × Option Bytes :=
  ((pair.splitOn keyEnd).headD [], (pair.splitOn keyEnd)[1]?)

/-- The loop over the pairs. -/
def explodePairs (plain : Bytes) : Params :=
  (plain.splitOn pairEnd).foldl (fun params pair => explodePair pair :: params) []

/-- `isset($params[$k])?$params[$k]:false`. -/
def Params.get (params : Params) (key : Bytes) : Option Bytes := (params.lookup key).join

/-- The fields that a token is read for. -/
structure TokenFields where
  ns : Option Bytes
  id : Option Bytes
  ct : Option Bytes
  fn : Option Bytes
  rd : Option Bytes
  ex : Option Bytes
  deriving DecidableEq

def Params.fields (params : Params) : TokenFields :=
  ⟨params.get (ascii "ns"), params.get (ascii "id"), params.get (ascii "ct"), params.get (ascii "fn"),
    params.get (ascii "rd"), params.get (ascii "ex")⟩

/-- The key and value decoding of `get.php`. -/
def decodeToken (decrypt : Bytes → Bytes) (enc : Bytes) : TokenFields :=
  (explodePairs (decrypt (base64DecodeUrlsafe enc))).fields

/-- The fields that were given. -/
def Link.fields (link : Link) : TokenFields := ⟨some link.ns, some link.id, link.ct, link.fn, link.rd, link.ex⟩

/-! ### The round trip -/

section RoundTrip

variable {link : Link} {key v pair : Bytes} {pairs : List (Bytes × Bytes)}

/-- Text without separators. -/
def Plain (t : Bytes) : Prop := keyEnd ∉ t ∧ pairEnd ∉ t

theorem explodePairs_eq (plain : Bytes) :
    explodePairs plain = ((plain.splitOn pairEnd).map explodePair).reverse := by
  have hfold : ∀ (pieces : List Bytes) (params : Params),
      pieces.foldl (fun params pair => explodePair pair :: params) params =
        (pieces.map explodePair).reverse ++ params := by
    intro pieces
    induction pieces with
    | nil => exact fun _ => rfl
    | cons piece pieces ih =>
      intro params
      rw [List.foldl_cons, ih, List.map_cons, List.reverse_cons, List.append_assoc]
      rfl
  rw [explodePairs, hfold, List.append_nil]

theorem plain_of_get {plain : Bytes} (h : (explodePairs plain).get key = some v) : Plain v := by
  rw [Params.get, Option.join_eq_some_iff] at h
  obtain ⟨newer, older, heq, _⟩ := List.lookup_eq_some_iff.mp h
  have hmem : (key, some v) ∈ explodePairs plain := by
    rw [heq]
    exact List.mem_append_right _ List.mem_cons_self
  rw [explodePairs_eq, List.mem_reverse] at hmem
  obtain ⟨pair, hpair, heq⟩ := List.mem_map.mp hmem
  have hpiece : (pair.splitOn keyEnd)[1]? = some v := congrArg Prod.snd heq
  obtain ⟨hkey, hsub⟩ := mem_splitOn (List.mem_of_getElem? hpiece)
  exact ⟨hkey, fun hv => (mem_splitOn hpair).1 (hsub _ hv)⟩

theorem explodePair_plain (hkey : keyEnd ∉ key) (hv : keyEnd ∉ v) :
    explodePair (key ++ [keyEnd] ++ v) = (key, some v) := by
  rw [explodePair, List.append_assoc, List.singleton_append, List.splitOn_append_cons_self_of_not_mem hkey,
    List.splitOn_eq_singleton hv]
  rfl

theorem explodePairs_intercalate (hne : pairs ≠ []) (h : ∀ kv ∈ pairs, Plain kv.1 ∧ Plain kv.2) :
    explodePairs ([pairEnd].intercalate (pairs.map fun kv => kv.1 ++ [keyEnd] ++ kv.2)) =
      (pairs.map fun kv => (kv.1, some kv.2)).reverse := by
  have hpieces : ∀ piece ∈ pairs.map fun kv => kv.1 ++ [keyEnd] ++ kv.2, pairEnd ∉ piece := by
    intro piece hpiece
    obtain ⟨kv, hkv, rfl⟩ := List.mem_map.mp hpiece
    obtain ⟨hk, hv⟩ := h kv hkv
    simp only [List.mem_append, List.mem_singleton, not_or]
    exact ⟨⟨hk.2, by decide⟩, hv.2⟩
  rw [explodePairs_eq, List.splitOn_intercalate _ hpieces (by simpa using hne), List.map_map]
  congr 1
  refine List.map_congr_left fun kv hkv => ?_
  exact explodePair_plain (h kv hkv).1.1 (h kv hkv).2.1

/-- `$params` as it comes out of a token of fields without separators. -/
def readBack (pairs : List (Bytes × Bytes)) : Params := (pairs.map fun kv => (kv.1, some kv.2)).reverse

theorem readBack_append (pairs pairs' : List (Bytes × Bytes)) :
    readBack (pairs ++ pairs') = readBack pairs' ++ readBack pairs := by
  rw [readBack, List.map_append, List.reverse_append]
  rfl

theorem lookup_optional_self (key : Bytes) (v : Option Bytes) :
    (readBack (optional key v)).lookup key = (v.filter truthy).map some := by
  cases v with
  | none => rfl
  | some v =>
    rw [optional, Option.filter]
    split_ifs with hv
    · exact List.lookup_cons_self
    · rfl

theorem lookup_optional_ne {k : Bytes} (h : key ≠ k) (v : Option Bytes) :
    (readBack (optional k v)).lookup key = none := by
  cases v with
  | none => rfl
  | some v =>
    rw [optional]
    split_ifs
    · show [(k, some v)].lookup key = none
      rw [List.lookup_cons, beq_eq_false_iff_ne.mpr h]
      rfl
    · rfl

theorem fields_readBack (link : Link) :
    Params.fields (readBack link.data) =
      ⟨some link.ns, some link.id, link.ct.filter truthy, link.fn.filter truthy, link.rd.filter truthy,
        link.ex.filter truthy⟩ := by
  have hfixed : ∀ key : Bytes, (readBack link.data).lookup key =
      ((readBack (optional (ascii "ex") link.ex)).lookup key).or
        (((readBack (optional (ascii "rd") link.rd)).lookup key).or
          (((readBack (optional (ascii "fn") link.fn)).lookup key).or
            (((readBack (optional (ascii "ct") link.ct)).lookup key).or
              ((readBack [(ascii "v", ascii "1.0"), (ascii "ns", link.ns), (ascii "id", link.id)]).lookup
                key)))) := by
    intro key
    rw [Link.data, readBack_append, readBack_append, readBack_append, readBack_append, List.lookup_append,
      List.lookup_append, List.lookup_append, List.lookup_append]
  have hjoin : ∀ v : Option Bytes, ((v.map some).or none).join = v := by
    rintro (_ | v) <;> rfl
  have hother : ∀ key ∈ [ascii "ct", ascii "fn", ascii "rd", ascii "ex"],
      (readBack [(ascii "v", ascii "1.0"), (ascii "ns", link.ns), (ascii "id", link.id)]).lookup key = none := by
    simp only [List.forall_mem_cons]
    exact ⟨rfl, rfl, rfl, rfl, fun _ h => absurd h List.not_mem_nil⟩
  simp only [List.forall_mem_cons] at hother
  obtain ⟨hct, hfn, hrd, hex, -⟩ := hother
  rw [Params.fields]
  simp (disch := decide) only [Params.get, hfixed, lookup_optional_ne, lookup_optional_self, Option.none_or,
    hct, hfn, hrd, hex, hjoin]
  rfl

/-- The values that a link carries. -/
def Link.values (link : Link) : List Bytes :=
  [link.ns, link.id] ++ link.ct.toList ++ link.fn.toList ++ link.rd.toList ++ link.ex.toList

theorem mem_optional {kv : Bytes × Bytes} {k : Bytes} {v : Option Bytes} (h : kv ∈ optional k v) :
    kv.1 = k ∧ kv.2 ∈ v.toList := by
  cases v with
  | none => exact absurd h List.not_mem_nil
  | some v =>
    rw [optional] at h
    split_ifs at h
    · rw [List.mem_singleton] at h
      rw [h]
      exact ⟨rfl, List.mem_singleton_self v⟩
    · exact absurd h List.not_mem_nil

theorem mem_data {kv : Bytes × Bytes} (h : kv ∈ link.data) :
    kv.1 ∈ ["v", "ns", "id", "ct", "fn", "rd", "ex"].map ascii ∧ (kv.2 = ascii "1.0" ∨ kv.2 ∈ link.values) := by
  simp only [Link.data, List.mem_append] at h
  simp only [Link.values, List.mem_append, List.map_cons, List.map_nil]
  rcases h with (((hfixed | hct) | hfn) | hrd) | hex
  · rcases List.mem_cons.mp hfixed with rfl | hfixed
    · exact ⟨by decide, .inl rfl⟩
    rcases List.mem_cons.mp hfixed with rfl | hfixed
    · exact ⟨.tail _ (.head _), .inr (by simp)⟩
    rw [List.mem_singleton] at hfixed
    subst hfixed
    exact ⟨.tail _ (.tail _ (.head _)), .inr (by simp)⟩
  · obtain ⟨hkey, hv⟩ := mem_optional hct
    exact ⟨by rw [hkey]; decide, by simp [hv]⟩
  · obtain ⟨hkey, hv⟩ := mem_optional hfn
    exact ⟨by rw [hkey]; decide, by simp [hv]⟩
  · obtain ⟨hkey, hv⟩ := mem_optional hrd
    exact ⟨by rw [hkey]; decide, by simp [hv]⟩
  · obtain ⟨hkey, hv⟩ := mem_optional hex
    exact ⟨by rw [hkey]; decide, by simp [hv]⟩

theorem plain_of_mem_data (h : ∀ v ∈ link.values, Plain v) : ∀ kv ∈ link.data, Plain kv.1 ∧ Plain kv.2 := by
  have hkeys : ∀ key ∈ ["v", "ns", "id", "ct", "fn", "rd", "ex"].map ascii, keyEnd ∉ key ∧ pairEnd ∉ key := by
    decide
  intro kv hkv
  obtain ⟨hkey, hv⟩ := mem_data hkv
  refine ⟨hkeys _ hkey, ?_⟩
  rcases hv with hv | hv
  · rw [hv]
    exact ⟨by decide, by decide⟩
  · exact h _ hv

theorem filter_truthy_eq_self_iff {v : Option Bytes} (h : v ≠ some []) :
    v.filter truthy = v ↔ v ≠ some (ascii "0") := by
  cases v with
  | none => simp
  | some v =>
    have hv : v ≠ [] := fun hnil => h (congrArg some hnil)
    have htruthy : truthy v = true ↔ v ≠ ascii "0" := by
      simp [truthy, hv]
    have hsome : some v ≠ some (ascii "0") ↔ v ≠ ascii "0" := by rw [Ne, Ne, Option.some_inj]
    rw [Option.filter_eq_some_iff, htruthy, hsome]
    exact ⟨fun hfilter => hfilter.2, fun hne => ⟨rfl, hne⟩⟩

/-- The fields of a token come back exactly if no value contains a separator and no optional field is the
text `0`, for any encryption that can be undone on its plain text. -/
theorem decodeToken_ylemGenCipher_iff (encrypt decrypt : Bytes → Bytes) (link : Link)
    (h : decrypt (encrypt link.plain) = link.plain) :
    decodeToken decrypt (ylemGenCipher encrypt link) = link.fields ↔
      (∀ v ∈ link.values, keyEnd ∉ v ∧ pairEnd ∉ v) ∧
        ∀ v ∈ [link.ct, link.fn, link.rd, link.ex], v ≠ some (ascii "0") := by
  have hdecode : decodeToken decrypt (ylemGenCipher encrypt link) = (explodePairs link.plain).fields := by
    rw [decodeToken, ylemGenCipher, base64DecodeUrlsafe_encode, h]
  rw [hdecode]
  -- without separators, what comes back is what was not left out
  have hread : (∀ v ∈ link.values, Plain v) → (explodePairs link.plain).fields =
      ⟨some link.ns, some link.id, link.ct.filter truthy, link.fn.filter truthy, link.rd.filter truthy,
        link.ex.filter truthy⟩ := fun hplain => by
    rw [Link.plain, explodePairs_intercalate (by simp [Link.data]) (plain_of_mem_data hplain)]
    exact fields_readBack link
  have hnonempty := link.nonempty
  simp only [List.forall_mem_cons] at hnonempty
  obtain ⟨hct, hfn, hrd, hex, -⟩ := hnonempty
  constructor
  · intro heq
    have hplain : ∀ v ∈ link.values, Plain v := by
      obtain ⟨hns, hid, hct, hfn, hrd, hex⟩ := TokenFields.mk.inj heq
      intro v hv
      simp only [Link.values, List.mem_append, List.mem_cons, List.not_mem_nil, or_false, Option.mem_toList] at hv
      rcases hv with ((((rfl | rfl) | hv) | hv) | hv) | hv
      · exact plain_of_get hns
      · exact plain_of_get hid
      · exact plain_of_get (hct.trans hv)
      · exact plain_of_get (hfn.trans hv)
      · exact plain_of_get (hrd.trans hv)
      · exact plain_of_get (hex.trans hv)
    refine ⟨hplain, ?_⟩
    rw [hread hplain] at heq
    obtain ⟨-, -, hct', hfn', hrd', hex'⟩ := TokenFields.mk.inj heq
    simp only [List.forall_mem_cons]
    exact ⟨(filter_truthy_eq_self_iff hct).mp hct', (filter_truthy_eq_self_iff hfn).mp hfn',
      (filter_truthy_eq_self_iff hrd).mp hrd', (filter_truthy_eq_self_iff hex).mp hex',
      fun _ hmem => absurd hmem List.not_mem_nil⟩
  · rintro ⟨hplain, hzero⟩
    simp only [List.forall_mem_cons] at hzero
    obtain ⟨hct', hfn', hrd', hex', -⟩ := hzero
    rw [hread hplain, (filter_truthy_eq_self_iff hct).mpr hct', (filter_truthy_eq_self_iff hfn).mpr hfn',
      (filter_truthy_eq_self_iff hrd).mpr hrd', (filter_truthy_eq_self_iff hex).mpr hex']
    rfl

/-- A cipher that is its own inverse: it swaps two texts and leaves all others alone. -/
def swap (plain cipher t : Bytes) : Bytes :=
  if t = plain then cipher else if t = cipher then plain else t

theorem swap_swap (plain cipher t : Bytes) : swap plain cipher (swap plain cipher t) = t := by
  unfold swap
  split_ifs <;> simp_all

/-- A link with a file name, and its plain text under the key of `keydb.inc`. -/
def photoLink : Link := ⟨ascii "n", ascii "1-2", none, some (ascii "a"), none, none, by decide⟩

def photoCipher : Bytes → Bytes :=
  swap photoLink.plain [164, 23, 214, 213, 114, 32, 192, 150, 15, 66, 65, 17, 190, 19, 38, 237, 186, 111, 5, 218,
    77, 213, 232, 41, 56, 108, 98, 134]

theorem photoLink_comes_back :
    decodeToken photoCipher (ylemGenCipher photoCipher photoLink) = photoLink.fields :=
  (decodeToken_ylemGenCipher_iff photoCipher photoCipher photoLink (swap_swap _ _ _)).mpr
    ⟨by decide, by decide⟩

/-- A link whose file name brings an id of its own. -/
def injectingLink : Link :=
  ⟨ascii "n", ascii "1-2", none, some (ascii "a" ++ [pairEnd] ++ ascii "id" ++ [keyEnd] ++ ascii "1-9"), none, none,
    by decide⟩

def injectingCipher : Bytes → Bytes :=
  swap injectingLink.plain [79, 135, 24, 134, 24, 30, 237, 6, 101, 210, 209, 136, 63, 176, 184, 90, 32, 18, 186, 111,
    28, 129, 209, 149, 118, 194, 70, 73, 44, 156, 190, 25, 69, 236, 16, 131]

/-- The token of that link leads to another file. -/
theorem injectingLink_goes_elsewhere :
    (decodeToken injectingCipher (ylemGenCipher injectingCipher injectingLink)).id = some (ascii "1-9") ∧
      decodeToken injectingCipher (ylemGenCipher injectingCipher injectingLink) ≠ injectingLink.fields := by
  decide +kernel

end RoundTrip

end Ylem
