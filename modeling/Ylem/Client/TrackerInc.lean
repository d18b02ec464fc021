import Ylem.Query.UrlArgs

/-!
# The texts of the PHP client

`tracker.inc` writes the arguments of a request with `urlencode`, which escapes more than `eurl` does, and
`decode_url_args` reads them all the same. Of a reply it reads the pairs with `parse_kvs`: the values with
`urldecode`, the keys as they stand, in lower case. So it finds a value under its key only if the key is in
lower case and has nothing in it that the tracker escapes (`parseKvs_argline_iff`).
-/

namespace Ylem

open UrlEscape

namespace TrackerInc

/-! ### Requests -/

/-- What `urlencode` does not escape; a space is written as `+`. -/
def urlencodeSafe (c : UInt8) : Bool :=
  c ∈ ascii "abcdefghijklmnopqrstuvwxyzABCDEFGHIJKLMNOPQRSTUVWXYZ0123456789-_."

def urlencode (t : Bytes) : Bytes := escape urlencodeSafe t

/-- The arguments in `tracker_create_open`. -/
def trackerCreateOpen (domain key : Bytes) : Bytes :=
  joinPairs [(ascii "domain", urlencode domain), (ascii "key", urlencode key), (ascii "multi_dest", ascii "1")]

/-- The arguments in `tracker_create_close`. -/
def trackerCreateClose (domain fid devid path key mimetype size : Bytes) : Bytes :=
  joinPairs [(ascii "domain", urlencode domain), (ascii "fid", urlencode fid), (ascii "devid", urlencode devid),
    (ascii "path", urlencode path), (ascii "key", urlencode key), (ascii "mimetype", urlencode mimetype),
    (ascii "size", urlencode size)]

/-- The arguments in `tracker_delete`. -/
def trackerDelete (domain key : Bytes) : Bytes :=
  joinPairs [(ascii "domain", urlencode domain), (ascii "key", urlencode key)]

/-- The arguments in `tracker_get_paths`. -/
def trackerGetPaths (domain key : Bytes) : Bytes :=
  joinPairs [(ascii "domain", urlencode domain), (ascii "key", urlencode key), (ascii "noverify", ascii "1"),
    (ascii "pathcount", ascii "3")]

theorem urlencode_unseparated (t : Bytes) : Unseparated (urlencode t) :=
  escape_unseparated (by decide) (by decide) t

theorem unescape_urlencode (t : Bytes) : unescape (urlencode t) = t := unescape_escape (by decide) (by decide) t

theorem decodeUrlArgs_urlencode (fields : List (Bytes × Bytes)) (names : List Bytes)
    (hfields : fields.map Prod.fst = names) (hdistinct : names.Nodup)
    (hnames : ∀ name ∈ names, Unseparated name ∧ Literal name) :
    decodeUrlArgs (joinPairs (fields.map fun kv => (kv.1, urlencode kv.2))) = fields := by
  subst hfields
  have hname : ∀ kv ∈ fields, Unseparated kv.1 ∧ Literal kv.1 := fun kv hkv =>
    hnames kv.1 (List.mem_map_of_mem hkv)
  have hunescape : (fields.map fun kv => (kv.1, urlencode kv.2)).map (fun kv => (unescape kv.1, unescape kv.2)) =
      fields := by
    rw [List.map_map]
    conv_rhs => rw [← List.map_id fields]
    exact List.map_congr_left fun kv hkv => by
      show (unescape kv.1, unescape (urlencode kv.2)) = kv
      rw [unescape_of_literal (hname kv hkv).2, unescape_urlencode]
  rw [decodeUrlArgs_joinPairs ?_ (by rwa [hunescape]), hunescape]
  intro kv hkv
  obtain ⟨kv', hkv', rfl⟩ := List.mem_map.mp hkv
  exact ⟨(hname kv' hkv').1, urlencode_unseparated _⟩

section Requests

variable (domain fid devid path key mimetype size : Bytes)

theorem decodeUrlArgs_trackerCreateOpen : decodeUrlArgs (trackerCreateOpen domain key) =
    [(ascii "domain", domain), (ascii "key", key), (ascii "multi_dest", ascii "1")] := by
  have hone : urlencode (ascii "1") = ascii "1" := by decide
  have hread := decodeUrlArgs_urlencode
    [(ascii "domain", domain), (ascii "key", key), (ascii "multi_dest", ascii "1")]
    [ascii "domain", ascii "key", ascii "multi_dest"] rfl (by decide) (by unfold Unseparated; decide)
  simp only [List.map_cons, List.map_nil, hone] at hread
  exact hread

theorem decodeUrlArgs_trackerCreateClose :
    decodeUrlArgs (trackerCreateClose domain fid devid path key mimetype size) =
      [(ascii "domain", domain), (ascii "fid", fid), (ascii "devid", devid), (ascii "path", path),
        (ascii "key", key), (ascii "mimetype", mimetype), (ascii "size", size)] := by
  exact decodeUrlArgs_urlencode
    [(ascii "domain", domain), (ascii "fid", fid), (ascii "devid", devid), (ascii "path", path),
      (ascii "key", key), (ascii "mimetype", mimetype), (ascii "size", size)]
    [ascii "domain", ascii "fid", ascii "devid", ascii "path", ascii "key", ascii "mimetype", ascii "size"] rfl
    (by decide) (by unfold Unseparated; decide)

theorem decodeUrlArgs_trackerDelete :
    decodeUrlArgs (trackerDelete domain key) = [(ascii "domain", domain), (ascii "key", key)] := by
  exact decodeUrlArgs_urlencode [(ascii "domain", domain), (ascii "key", key)]
    [ascii "domain", ascii "key"] rfl (by decide) (by unfold Unseparated; decide)

theorem decodeUrlArgs_trackerGetPaths : decodeUrlArgs (trackerGetPaths domain key) =
    [(ascii "domain", domain), (ascii "key", key), (ascii "noverify", ascii "1"),
      (ascii "pathcount", ascii "3")] := by
  have hone : urlencode (ascii "1") = ascii "1" := by decide
  have hthree : urlencode (ascii "3") = ascii "3" := by decide
  have hread := decodeUrlArgs_urlencode
    [(ascii "domain", domain), (ascii "key", key), (ascii "noverify", ascii "1"), (ascii "pathcount", ascii "3")]
    [ascii "domain", ascii "key", ascii "noverify", ascii "pathcount"] rfl (by decide)
    (by unfold Unseparated; decide)
  simp only [List.map_cons, List.map_nil, hone, hthree] at hread
  exact hread

end Requests

/-! ### Replies -/

def lowerByte (c : UInt8) : UInt8 := if 'A'.toUInt8 ≤ c ∧ c ≤ 'Z'.toUInt8 then c + 32 else c

def strtolower (t : Bytes) : Bytes := t.map lowerByte

/-- `urldecode` goes through the text once, and reads what is escaped as the tracker does. -/
def urldecode (t : Bytes) : Bytes := unescape t

/-- `list($key,$val)=explode("=",$pair,2)`. -/
def keyVal (pair : Bytes) : Bytes × Bytes :=
  (pair.takeWhile (· ≠ '='.toUInt8), (pair.dropWhile (· ≠ '='.toUInt8)).drop 1)

/-- `parse_kvs`; what was assigned last stands first. -/
def parseKvs (data : Bytes) : List (Bytes × Bytes) :=
  ((data.splitOn '&'.toUInt8).filter truthy).foldl (fun kvs pair =>
    (strtolower (keyVal pair).1, urldecode (keyVal pair).2) :: kvs) []

theorem keyVal_joined {key value : Bytes} (h : '='.toUInt8 ∉ key) :
    keyVal (key ++ ['='.toUInt8] ++ value) = (key, value) := by
  have hkey : ∀ c ∈ key, decide (c ≠ '='.toUInt8) = true := fun c hc =>
    decide_eq_true fun heq => h (heq ▸ hc)
  rw [keyVal, List.append_assoc, List.singleton_append, List.takeWhile_append_of_pos hkey,
    List.dropWhile_append_of_pos hkey]
  simp

theorem parseKvs_argline (args : List (Bytes × Bytes)) :
    parseKvs (argline args) = (args.map fun kv => (strtolower (eurl kv.1), kv.2)).reverse := by
  have hfold : ∀ (pieces : List Bytes) (kvs : List (Bytes × Bytes)),
      pieces.foldl (fun kvs pair => (strtolower (keyVal pair).1, urldecode (keyVal pair).2) :: kvs) kvs =
        (pieces.map fun pair => (strtolower (keyVal pair).1, urldecode (keyVal pair).2)).reverse ++
          kvs := by
    intro pieces
    induction pieces with
    | nil => exact fun _ => rfl
    | cons piece pieces ih =>
      intro kvs
      rw [List.foldl_cons, ih, List.map_cons, List.reverse_cons, List.append_assoc, List.singleton_append]
  have hpieces : ((argline args).splitOn '&'.toUInt8).filter truthy =
      args.map fun kv => eurl kv.1 ++ ['='.toUInt8] ++ eurl kv.2 := urlPairs_argline args
  rw [parseKvs, hpieces, hfold, List.append_nil, List.map_map]
  congr 1
  refine List.map_congr_left fun kv _ => ?_
  show (strtolower (keyVal (eurl kv.1 ++ ['='.toUInt8] ++ eurl kv.2)).1,
    urldecode (keyVal (eurl kv.1 ++ ['='.toUInt8] ++ eurl kv.2)).2) = _
  rw [keyVal_joined (eurl_unseparated kv.1).1, urldecode, unescape_eurl]

theorem toNat_lowerByte (c : UInt8) :
    (lowerByte c).toNat = if 65 ≤ c.toNat ∧ c.toNat ≤ 90 then c.toNat + 32 else c.toNat := by
  have hcapital : ('A'.toUInt8 ≤ c ∧ c ≤ 'Z'.toUInt8) ↔ 65 ≤ c.toNat ∧ c.toNat ≤ 90 := Iff.rfl
  rw [lowerByte]
  simp only [hcapital]
  split_ifs with h
  · rw [UInt8.toNat_add, Nat.mod_eq_of_lt]
    · rfl
    · show c.toNat + 32 < 256
      omega
  · rfl

theorem weight_strtolower (t : Bytes) : weight (strtolower t) = weight t := by
  have hplus : ∀ c : UInt8, lowerByte c = '+'.toUInt8 ↔ c = '+'.toUInt8 := fun c => by
    have hcode : ('+'.toUInt8).toNat = 43 := rfl
    rw [← UInt8.toNat_inj, ← UInt8.toNat_inj, toNat_lowerByte, hcode]
    split_ifs <;> omega
  induction t with
  | nil => rfl
  | cons c t ih =>
    rw [strtolower, List.map_cons, weight, ← strtolower, ih, weight]
    simp only [hplus]

theorem strtolower_strtolower (t : Bytes) : strtolower (strtolower t) = strtolower t := by
  rw [strtolower, strtolower, List.map_map]
  refine List.map_congr_left fun c _ => ?_
  show lowerByte (lowerByte c) = lowerByte c
  rw [← UInt8.toNat_inj, toNat_lowerByte, toNat_lowerByte]
  split_ifs <;> omega

theorem plain_of_perm {keys : List Bytes} (h : keys.Perm (keys.map fun key => strtolower (eurl key))) :
    ∀ key ∈ keys, SafeText eurlSafe key ∧ strtolower key = key := by
  have hsum := (h.map weight).sum_eq
  rw [List.map_map] at hsum
  have hle : ∀ key ∈ keys, weight key ≤ weight (strtolower (eurl key)) := fun key _ => by
    rw [weight_strtolower]
    exact weight_escape_le key
  have hsafe : ∀ key ∈ keys, SafeText eurlSafe key := fun key hkey => by
    by_contra hnot
    have hlt : weight key < weight (strtolower (eurl key)) := by
      rw [weight_strtolower]
      exact weight_escape_lt hnot
    have hgt := List.sum_lt_sum _ _ hle ⟨key, hkey, hlt⟩
    exact absurd hsum hgt.ne
  intro key hkey
  obtain ⟨key', hkey', rfl⟩ := List.mem_map.mp (h.mem_iff.mp hkey)
  exact ⟨hsafe _ hkey, strtolower_strtolower _⟩

/-- `parse_kvs` reads what `ok_line` writes exactly if no key is changed by `eurl`, and all are in lower case. -/
theorem parseKvs_argline_iff {args : List (Bytes × Bytes)} (hdistinct : DistinctKeys args) :
    SameDict (parseKvs (argline args)) args ↔
      ∀ kv ∈ args, SafeText eurlSafe kv.1 ∧ strtolower kv.1 = kv.1 := by
  rw [parseKvs_argline]
  constructor
  · intro hsame
    have hkeys : (args.map Prod.fst).Perm ((args.map Prod.fst).map fun key => strtolower (eurl key)) := by
      refine (List.subperm_of_subset hdistinct fun key hkey => ?_).perm_of_length_le (by simp)
      by_contra hnot
      have hnone : ((args.map fun kv => (strtolower (eurl kv.1), kv.2)).reverse).lookup key = none := by
        rw [lookup_eq_none_iff_not_mem]
        simpa using hnot
      rw [hsame key, lookup_eq_none_iff_not_mem] at hnone
      exact hnone hkey
    exact fun kv hkv => plain_of_perm hkeys kv.1 (List.mem_map_of_mem hkv)
  · intro hplain
    have hmap : (args.map fun kv => (strtolower (eurl kv.1), kv.2)) = args := by
      conv_rhs => rw [← List.map_id args]
      exact List.map_congr_left fun kv hkv => by
        rw [eurl, escape_of_safe (hplain kv hkv).1, (hplain kv hkv).2]
        rfl
    rw [hmap]
    exact SameDict.of_perm (List.reverse_perm args) hdistinct

end TrackerInc

open TrackerInc

/-- The tracker and the PHP client read each other's texts. What the tracker writes, in any order, it reads
back itself, and the client reads it back exactly if every key is in lower case and without a character that is
escaped. What the client writes the tracker reads back always. -/
theorem codec_iff (args written : List (Bytes × Bytes)) (hdistinct : DistinctKeys args)
    (hwritten : written.Perm args) :
    SameDict (decodeUrlArgs (argline written)) args ∧
      (SameDict (parseKvs (argline written)) args ↔
        ∀ kv ∈ args, SafeText eurlSafe kv.1 ∧ strtolower kv.1 = kv.1) ∧
      ∀ domain fid devid path key mimetype size : Bytes,
        SameDict (decodeUrlArgs (trackerCreateOpen domain key))
          [(ascii "domain", domain), (ascii "key", key), (ascii "multi_dest", ascii "1")] ∧
        SameDict (decodeUrlArgs (trackerCreateClose domain fid devid path key mimetype size))
          [(ascii "domain", domain), (ascii "fid", fid), (ascii "devid", devid), (ascii "path", path),
            (ascii "key", key), (ascii "mimetype", mimetype), (ascii "size", size)] ∧
        SameDict (decodeUrlArgs (trackerDelete domain key)) [(ascii "domain", domain), (ascii "key", key)] ∧
        SameDict (decodeUrlArgs (trackerGetPaths domain key))
          [(ascii "domain", domain), (ascii "key", key), (ascii "noverify", ascii "1"),
            (ascii "pathcount", ascii "3")] := by
  have hdistinct' : DistinctKeys written := (hwritten.map Prod.fst).nodup_iff.mpr hdistinct
  have hsame : SameDict written args := SameDict.of_perm hwritten hdistinct
  refine ⟨?_, ?_, fun domain fid devid path key mimetype size => ⟨?_, ?_, ?_, ?_⟩⟩
  · rw [decodeUrlArgs_argline hdistinct']
    exact hsame
  · have hiff := parseKvs_argline_iff hdistinct'
    simp only [hwritten.mem_iff] at hiff
    rw [← hiff]
    exact ⟨fun h k => (h k).trans (hsame k).symm, fun h k => (h k).trans (hsame k)⟩
  · rw [decodeUrlArgs_trackerCreateOpen]
    exact fun _ => rfl
  · rw [decodeUrlArgs_trackerCreateClose]
    exact fun _ => rfl
  · rw [decodeUrlArgs_trackerDelete]
    exact fun _ => rfl
  · rw [decodeUrlArgs_trackerGetPaths]
    exact fun _ => rfl

/-- What the tracker answers `get_paths` with. -/
def onePathReply : List (Bytes × Bytes) :=
  [(ascii "path1", ascii "http://10.0.0.1:7500/dev1/0/000/000/0000000007.fid"), (ascii "paths", ascii "1"),
    (ascii "mimetype", ascii "text/plain; charset=gbk")]

theorem onePathReply_read :
    SameDict (decodeUrlArgs (argline onePathReply.reverse)) onePathReply ∧
      SameDict (parseKvs (argline onePathReply.reverse)) onePathReply ∧
      SameDict (decodeUrlArgs (trackerCreateOpen (ascii "photo") (ascii "a&b")))
        [(ascii "domain", ascii "photo"), (ascii "key", ascii "a&b"), (ascii "multi_dest", ascii "1")] := by
  obtain ⟨htracker, hclient, hrequests⟩ :=
    codec_iff onePathReply onePathReply.reverse (by decide) (List.reverse_perm onePathReply)
  refine ⟨htracker, hclient.mpr ?_, (hrequests (ascii "photo") [] [] [] (ascii "a&b") [] []).1⟩
  decide +kernel

/-- A value under a key with a space comes back under another key. -/
theorem spaced_key_misread :
    strtolower (ascii "a key") = ascii "a key" ∧
      ¬ SameDict (parseKvs (argline [(ascii "a key", ascii "1")])) [(ascii "a key", ascii "1")] :=
  ⟨by decide +kernel, fun h => absurd (h (ascii "a key")) (by decide +kernel)⟩

end Ylem
