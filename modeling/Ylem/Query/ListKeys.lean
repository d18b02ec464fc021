import Ylem.Lib.Dict
import Ylem.Lib.Like
import Ylem.Lib.Pages
import Ylem.Query.CreateClose

/-!
# Listing the keys of a domain

`cmd_list_keys` answers with a page of the keys that start with a prefix, and with `next_after`, the last of
them; a client that passes it back as `after` gets the page that follows, until there are no more keys.

The prefix plays three parts: as a scalar that may be false, as a regular expression that the cursor has to
match, and as a pattern of `LIKE`. The pages together are the keys with the prefix exactly if the three
agree (`list_keys_complete_iff`): the prefix `0` counts as none, the cursor `0` as the start, and a prefix
with a meaning as a regular expression may not match the cursor that starts with it. Whether `/^$prefix/`
matches is a parameter here.
-/

namespace Ylem

/-! ### The command -/

/-- The page of keys that `get_keys_like` selects. -/
def Store.getKeysLike (db : Db) (dmid : ℕ) (pattern : Option Text) (after : Option Text) (limit : ℕ) :
    List Text :=
  let pattern := (if Text.truthy pattern then pattern.getD [] else []) ++ ['%']
  let after := if Text.truthy after then after.getD [] else []
  let found := db.file.rows.filter fun row => row.dmid = dmid ∧ row.dkey.like pattern ∧ after < row.dkey
  ((found.map FileRow.dkey).insertionSort (· ≤ ·)).take limit

/-- `key_1`, `key_2`, … -/
def keyName (i : ℕ) : Text := "key_".toList ++ Text.decimal i

/-- The reply with a page of keys. -/
def keysReply (keys : List Text) : List (Text × Text) :=
  ("key_count".toList, Text.decimal keys.length) ::
    ("next_after".toList, keys.foldl (fun next key => if next < key then key else next) []) ::
      keys.mapIdx fun i key => (keyName (i + 1), key)

section Handler

variable (env : QueryEnv) (regexMatches : Text → Text → Option Bool) (args : Args)

/-- The checks of the prefix: the reply they end with, if they do. `regexMatches` is nothing for a prefix
that is no regular expression. -/
def checkPrefix : Option Outcome :=
  if Text.truthy (args "prefix") then
    let start := (args "prefix").getD []
    let cursor : Option Bool :=
      if Text.truthy (args "after") then regexMatches start ((args "after").getD []) else some true
    match cursor with
    | none => some (.dies (.other "Invalid regular expression".toList))
    | some false => some (.err "after_mismatch")
    | some true => if start.any fun c => c = '%' || c = '\\' then some (.err "invalid_chars") else none
  else none

/-- `$limit`, as a number. -/
def listLimit : ℚ :=
  let limit := if Text.truthy (args "limit") then Text.numify ((args "limit").getD []) else 1000
  if 1000 < limit then 1000 else limit

/-- `cmd_list_keys` in a domain. -/
def listKeysOf (dmid : ℕ) (db : Db) : Outcome :=
  match checkPrefix regexMatches args with
  | some outcome => outcome
  | none =>
    let pattern :=
      if Text.truthy (args "prefix") then (args "prefix").map Text.escapeUnderscores else args "prefix"
    let limit := listLimit args
    -- anything but a natural number is an error of the statement, and no keys
    let keys :=
      if limit.den = 1 ∧ 0 ≤ limit then Store.getKeysLike db dmid pattern (args "after") limit.num.toNat else []
    match keys with
    | [] => .err "none_match"
    | keys => .ok (keysReply keys)

def cmdListKeys (db : Db) : Outcome :=
  match checkDomain env args with
  | .error e => .dies e
  | .ok (lines, 0) => ⟨lines ++ [errLine "domain_not_found" none], none⟩
  | .ok (_, dmid) => listKeysOf regexMatches args dmid db

end Handler

/-! ### A client that reads all pages -/

/-- `list_keys` of the client: the keys of a reply. -/
def replyKeys (reply : List (Text × Text)) : List Text :=
  let count := (Text.int ((reply.lookup "key_count".toList).getD [])).toNat
  (List.range count).filterMap fun i => reply.lookup (keyName (i + 1))

/-- The arguments with another cursor. -/
def Args.withAfter (args : Args) (after : Option Text) : Args := Function.update args "after" after

/-- A client that asks for page after page has read `keys` when it is told that there are no more. -/
inductive Listing (env : QueryEnv) (regexMatches : Text → Text → Option Bool) (args : Args) (db : Db) :
    Option Text → List Text → Prop
  | none_match {after : Option Text}
      (h : cmdListKeys env regexMatches (args.withAfter after) db = .err "none_match") :
      Listing env regexMatches args db after []
  | page {after : Option Text} {reply : List (Text × Text)} {rest : List Text}
      (h : cmdListKeys env regexMatches (args.withAfter after) db = .ok reply)
      (hrest : Listing env regexMatches args db (reply.lookup "next_after".toList) rest) :
      Listing env regexMatches args db after (replyKeys reply ++ rest)

/-! ### Replies -/

section Replies

variable {keys : List Text}

theorem keyName_injective : Function.Injective keyName := fun _ _ h =>
  Text.decimal_injective (List.append_cancel_left h)

theorem distinctKeys_keysReply (keys : List Text) : DistinctKeys (keysReply keys) := by
  have hcount : ∀ i, "key_count".toList ≠ keyName i := fun i =>
    Text.append_cons_ne_append_decimal "key_".toList "ount".toList i (c := 'c') (by decide)
  have hnext : ∀ i, "next_after".toList ≠ keyName i := fun i heq => by
    have hhead : 'n' = 'k' := (List.cons.inj heq).1
    exact absurd hhead (by decide)
  refine List.nodup_cons.mpr ⟨?_, List.nodup_cons.mpr ⟨not_mem_numbered hnext keys, ?_⟩⟩
  · have hne : "key_count".toList ≠ "next_after".toList := by decide
    exact List.not_mem_cons_of_ne_of_not_mem hne (not_mem_numbered hcount keys)
  · exact distinctKeys_numbered keyName_injective keys

theorem replyKeys_keysReply (keys : List Text) : replyKeys (keysReply keys) = keys := by
  have hcount : (Text.int (Text.decimal keys.length)).toNat = keys.length := by
    rw [Text.int, Text.numify_decimal]
    simp
  show (List.range (Text.int (Text.decimal keys.length)).toNat).filterMap _ = keys
  rw [hcount]
  exact filterMap_lookup_numbered (distinctKeys_keysReply keys) fun entry hentry =>
    List.mem_cons_of_mem _ (List.mem_cons_of_mem _ hentry)

theorem nextAfter_keysReply (hsorted : keys.Pairwise (· < ·)) (hne : ∀ key ∈ keys, key ≠ []) :
    (keysReply keys).lookup "next_after".toList = some (keys.getLastD []) := by
  have hpos : ∀ key ∈ keys, ([] : Text) < key := fun key hkey => by
    obtain ⟨c, t, rfl⟩ := List.exists_cons_of_ne_nil (hne key hkey)
    exact List.nil_lt_cons c t
  refine (mem_iff_lookup (distinctKeys_keysReply keys)).mp ?_
  rw [← foldl_greatest hsorted hpos]
  exact List.mem_cons_of_mem _ List.mem_cons_self

end Replies

/-! ### Pages -/

/-- The keys of a domain that start with a text, in ascending order. -/
def keysFrom (db : Db) (dmid : ℕ) (start : Text) : List Text :=
  (((db.file.rows.filter fun row => row.dmid = dmid).map FileRow.dkey).filter
    fun key => start.isPrefixOf key).insertionSort (· ≤ ·)

theorem mem_keysFrom {db : Db} {dmid : ℕ} {start key : Text} :
    key ∈ keysFrom db dmid start ↔ (∃ row ∈ db.file.rows, row.dmid = dmid ∧ row.dkey = key) ∧ start <+: key := by
  simp [keysFrom, List.mem_insertionSort, and_assoc, List.isPrefixOf_iff_prefix]

theorem pairwise_keysFrom (db : Db) (dmid : ℕ) (start : Text) : (keysFrom db dmid start).Pairwise (· < ·) := by
  have hnodup : ((db.file.rows.filter fun row => row.dmid = dmid).map FileRow.dkey).Nodup := by
    refine List.Nodup.map_on (fun x hx y hy heq => ?_) ((List.Nodup.of_map _ db.file.name_nodup).filter _)
    obtain ⟨hx, hxd⟩ := List.mem_filter.mp hx
    obtain ⟨hy, hyd⟩ := List.mem_filter.mp hy
    have hdmid : x.dmid = y.dmid := (of_decide_eq_true hxd).trans (of_decide_eq_true hyd).symm
    exact List.inj_on_of_nodup_map db.file.name_nodup hx hy (Prod.ext hdmid heq)
  have hsorted := List.pairwise_insertionSort (· ≤ ·)
    (((db.file.rows.filter fun row => row.dmid = dmid).map FileRow.dkey).filter fun key => start.isPrefixOf key)
  have hdistinct := (List.perm_insertionSort (· ≤ ·) _).nodup_iff.mpr (hnodup.filter fun key => start.isPrefixOf key)
  exact (hsorted.and hdistinct).imp fun h => lt_of_le_of_ne h.1 h.2

theorem insertionSort_filter (l : List Text) (p : Text → Bool) :
    (l.filter p).insertionSort (· ≤ ·) = (l.insertionSort (· ≤ ·)).filter p := by
  refine List.Perm.eq_of_pairwise' (r := (· ≤ ·)) (List.pairwise_insertionSort _ _)
    ((List.pairwise_insertionSort _ _).filter p) ?_
  exact (List.perm_insertionSort _ _).trans ((List.perm_insertionSort _ _).symm.filter p)

/-- What a cursor stands for. -/
def cursorText (after : Option Text) : Text := if Text.truthy after then after.getD [] else []

/-- The prefix that keys have to have. -/
def startText (args : Args) : Text := if Text.truthy (args "prefix") then (args "prefix").getD [] else []

theorem getKeysLike_eq (db : Db) (dmid limit : ℕ) {args : Args} (after : Option Text)
    (hpre : ∀ t ∈ args "prefix", Text.NoWildcards t) :
    Store.getKeysLike db dmid
        (if Text.truthy (args "prefix") then (args "prefix").map Text.escapeUnderscores else args "prefix")
        after limit =
      ((keysFrom db dmid (startText args)).filter fun key => decide (cursorText after < key)).take limit := by
  have hpattern : ∃ start, startText args = start ∧ ∀ key : Text,
      key.like ((if Text.truthy (if Text.truthy (args "prefix") then
        (args "prefix").map Text.escapeUnderscores else args "prefix") then (if Text.truthy (args "prefix") then
        (args "prefix").map Text.escapeUnderscores else args "prefix").getD [] else []) ++ ['%']) =
          start.isPrefixOf key := by
    by_cases htruthy : Text.truthy (args "prefix") = true
    · cases hargs : args "prefix" with
      | none => rw [hargs] at htruthy; cases htruthy
      | some start =>
        rw [hargs] at htruthy
        have hno := hpre start hargs
        refine ⟨start, by rw [startText, hargs, if_pos htruthy]; rfl, fun key => ?_⟩
        simp only [if_pos htruthy, Option.map_some, Text.truthy_escapeUnderscores htruthy, if_true,
          Option.getD_some]
        exact Text.like_escaped hno key
    · refine ⟨[], by rw [startText, if_neg htruthy], fun key => ?_⟩
      simp only [if_neg htruthy]
      exact Text.like_escaped (fun c hc => absurd hc List.not_mem_nil) key
  obtain ⟨start, hstart, hlike⟩ := hpattern
  rw [hstart, Store.getKeysLike, keysFrom, ← insertionSort_filter]
  simp only [hlike, List.filter_map, List.filter_filter]
  congr 4
  funext row
  rw [Bool.eq_iff_iff]
  simp only [Function.comp, Bool.and_eq_true, decide_eq_true_eq]
  show row.dmid = dmid ∧ start.isPrefixOf row.dkey = true ∧ cursorText after < row.dkey ↔ _
  tauto

/-! ### Requests -/

@[simp] theorem withAfter_after (args : Args) (after : Option Text) : args.withAfter after "after" = after :=
  Function.update_self ..

@[simp] theorem withAfter_prefix (args : Args) (after : Option Text) :
    args.withAfter after "prefix" = args "prefix" :=
  Function.update_of_ne (by decide) ..

@[simp] theorem listLimit_withAfter (args : Args) (after : Option Text) :
    listLimit (args.withAfter after) = listLimit args := by
  have hlimit : args.withAfter after "limit" = args "limit" := Function.update_of_ne (by decide) ..
  rw [listLimit, listLimit, hlimit]

@[simp] theorem checkDomain_withAfter (env : QueryEnv) (args : Args) (after : Option Text) :
    checkDomain env (args.withAfter after) = checkDomain env args := by
  have hdomain : args.withAfter after "domain" = args "domain" := Function.update_of_ne (by decide) ..
  rw [checkDomain, checkDomain, hdomain]

theorem listLimit_decimal {args : Args} {limit : ℕ} (h : args "limit" = some (Text.decimal limit))
    (hpos : 1 ≤ limit) : listLimit args = (min limit 1000 : ℕ) := by
  have htruthy : Text.truthy (args "limit") = true := by
    have hne : Text.decimal limit ≠ ['0'] := fun heq => by
      have hzero : limit = 0 := Text.decimal_injective (heq.trans (by decide))
      omega
    have hnil : Text.decimal limit ≠ [] := Nat.toDigits_ne_nil
    rw [h]
    simp [Text.truthy, hne, hnil]
  simp only [listLimit, if_pos htruthy]
  rw [h, Option.getD_some, Text.numify_decimal]
  split_ifs with hmany
  · have hmany : 1000 < limit := by exact_mod_cast hmany
    rw [Nat.min_eq_right (by omega)]
    rfl
  · have hfew : ¬ 1000 < limit := by exact_mod_cast hmany
    rw [Nat.min_eq_left (by omega)]

/-- A request for the keys of a domain, in pages of `n`: its prefix has no wildcards, and the keys of the
domain are not empty. -/
structure ListRequest (env : QueryEnv) (args : Args) (db : Db) (dmid n : ℕ) : Prop where
  domain : checkDomain env args = .ok ([], dmid)
  dmid_pos : dmid ≠ 0
  noWildcards : ∀ t ∈ args "prefix", Text.NoWildcards t
  limit : listLimit args = n
  limit_pos : 0 < n
  keys_ne : ∀ row ∈ db.file.rows, row.dmid = dmid → row.dkey ≠ []

section Requests

variable {env : QueryEnv} {regexMatches : Text → Text → Option Bool} {args : Args} {db : Db} {dmid n : ℕ}
  {after : Option Text}

/-- The cursor matches the prefix, as far as that is asked. -/
def Accepted (regexMatches : Text → Text → Option Bool) (args : Args) (after : Option Text) : Prop :=
  Text.truthy (args "prefix") = true → Text.truthy after = true →
    regexMatches ((args "prefix").getD []) (after.getD []) = some true

/-- The keys with the prefix after a cursor. -/
def keysAfter (db : Db) (dmid : ℕ) (args : Args) (after : Option Text) : List Text :=
  (keysFrom db dmid (startText args)).filter fun key => decide (cursorText after < key)

variable (hreq : ListRequest env args db dmid n)
include hreq

theorem ListRequest.key_ne {start key : Text} (h : key ∈ keysFrom db dmid start) : key ≠ [] := by
  obtain ⟨⟨row, hrow, hdmid, rfl⟩, -⟩ := mem_keysFrom.mp h
  exact hreq.keys_ne row hrow hdmid

theorem ListRequest.checkPrefix_iff :
    checkPrefix regexMatches (args.withAfter after) = none ↔ Accepted regexMatches args after := by
  have hany : Text.truthy (args "prefix") = true →
      (((args "prefix").getD []).any fun c => c = '%' || c = '\\') = false := by
    intro htruthy
    cases hpre : args "prefix" with
    | none => rfl
    | some start =>
      refine List.any_eq_false.mpr fun c hc => ?_
      simpa using hreq.noWildcards start hpre c hc
  rw [checkPrefix, withAfter_prefix, withAfter_after, Accepted]
  by_cases hpre : Text.truthy (args "prefix") = true
  · rw [if_pos hpre]
    by_cases hafter : Text.truthy after = true
    · simp only [hpre, hafter, if_true, forall_const, hany hpre, Bool.false_eq_true, if_false]
      cases regexMatches ((args "prefix").getD []) (after.getD []) with
      | none => simp
      | some answer => cases answer <;> simp
    · simp only [hpre, hafter, if_false, forall_const, hany hpre, Bool.false_eq_true, false_implies]
  · simp only [hpre, if_false, Bool.false_eq_true, false_implies]

theorem ListRequest.cmdListKeys_eq (h : Accepted regexMatches args after) :
    cmdListKeys env regexMatches (args.withAfter after) db = match (keysAfter db dmid args after).take n with
      | [] => .err "none_match"
      | keys => .ok (keysReply keys) := by
  have hpage := getKeysLike_eq db dmid n after hreq.noWildcards
  have hnum : ((n : ℚ).den = 1 ∧ (0 : ℚ) ≤ n) := ⟨Rat.den_natCast n, Nat.cast_nonneg n⟩
  rw [cmdListKeys, checkDomain_withAfter, hreq.domain]
  obtain ⟨k, hk⟩ := Nat.exists_eq_succ_of_ne_zero hreq.dmid_pos
  subst hk
  simp only [listKeysOf, hreq.checkPrefix_iff.mpr h, withAfter_prefix, withAfter_after, listLimit_withAfter,
    hreq.limit, if_pos hnum, Rat.num_natCast, Int.toNat_natCast, hpage]
  rfl

omit hreq in
theorem checkPrefix_eq_some {outcome : Outcome} (h : checkPrefix regexMatches args = some outcome) :
    outcome ≠ .err "none_match" ∧ ∀ reply, outcome ≠ .ok reply := by
  unfold checkPrefix at h
  split at h
  · simp only at h
    split at h
    · obtain rfl := Option.some.inj h
      exact ⟨by simp [Outcome.dies, Outcome.err], fun reply => by simp [Outcome.dies, Outcome.ok]⟩
    · obtain rfl := Option.some.inj h
      exact ⟨by decide, fun reply => by simp [Outcome.err, Outcome.ok, errLine]⟩
    · split at h
      · obtain rfl := Option.some.inj h
        exact ⟨by decide, fun reply => by simp [Outcome.err, Outcome.ok, errLine]⟩
      · cases h
  · cases h

theorem ListRequest.not_accepted (h : ¬ Accepted regexMatches args after) :
    cmdListKeys env regexMatches (args.withAfter after) db ≠ .err "none_match" ∧
      ∀ reply, cmdListKeys env regexMatches (args.withAfter after) db ≠ .ok reply := by
  cases hcheck : checkPrefix regexMatches (args.withAfter after) with
  | none => exact absurd (hreq.checkPrefix_iff.mp hcheck) h
  | some outcome =>
    have heq : cmdListKeys env regexMatches (args.withAfter after) db = outcome := by
      rw [cmdListKeys, checkDomain_withAfter, hreq.domain]
      obtain ⟨k, hk⟩ := Nat.exists_eq_succ_of_ne_zero hreq.dmid_pos
      subst hk
      simp only [listKeysOf, hcheck]
    rw [heq]
    exact checkPrefix_eq_some hcheck

/-! ### The whole listing -/

/-- A cursor that does its work: it is not false, and it matches the prefix. -/
def GoodCursor (regexMatches : Text → Text → Option Bool) (args : Args) (key : Text) : Prop :=
  Text.truthy (some key) = true ∧ Accepted regexMatches args (some key)

theorem Listing.accepted {keys : List Text} (h : Listing env regexMatches args db after keys) :
    Accepted regexMatches args after := by
  by_contra hnot
  obtain ⟨hnone, hok⟩ := hreq.not_accepted hnot
  cases h with
  | none_match h => exact hnone h
  | page h => exact hok _ h

theorem ListRequest.page_eq (h : Accepted regexMatches args after) {last : Text}
    (hlast : ((keysAfter db dmid args after).take n).getLast? = some last) :
    ∃ reply, cmdListKeys env regexMatches (args.withAfter after) db = .ok reply ∧
      replyKeys reply = (keysAfter db dmid args after).take n ∧
      reply.lookup "next_after".toList = some last := by
  set page := (keysAfter db dmid args after).take n with hpage
  have hsorted : page.Pairwise (· < ·) :=
    ((pairwise_keysFrom db dmid (startText args)).filter _).sublist (List.take_sublist _ _)
  have hne : ∀ key ∈ page, key ≠ [] := fun key hkey =>
    hreq.key_ne (List.mem_of_mem_filter (List.mem_of_mem_take hkey))
  refine ⟨keysReply page, ?_, replyKeys_keysReply page, ?_⟩
  · have hsome : page ≠ [] := by
      rintro hnil
      rw [hnil] at hlast
      cases hlast
    obtain ⟨first, rest, hcons⟩ := List.exists_cons_of_ne_nil hsome
    rw [hreq.cmdListKeys_eq h, ← hpage, hcons]
  · rw [nextAfter_keysReply hsorted hne, List.getLastD_eq_getLast?, hlast]
    rfl

theorem keysAfter_of_not_truthy (h : ¬ Text.truthy after = true) :
    keysAfter db dmid args after = keysFrom db dmid (startText args) := by
  refine List.filter_eq_self.mpr fun key hkey => decide_eq_true ?_
  obtain ⟨c, t, rfl⟩ := List.exists_cons_of_ne_nil (hreq.key_ne hkey)
  rw [cursorText, if_neg h]
  exact List.nil_lt_cons c t

omit hreq in
theorem keysAfter_of_truthy {key : Text} (h : Text.truthy (some key) = true) :
    keysAfter db dmid args (some key) =
      (keysFrom db dmid (startText args)).filter fun x => decide (key < x) := by
  refine List.filter_congr fun x _ => ?_
  rw [cursorText, if_pos h]
  rfl

theorem ListRequest.of_listing {keys : List Text} (h : Listing env regexMatches args db after keys) {i : ℕ}
    (hfrom : keysAfter db dmid args after = (keysFrom db dmid (startText args)).drop (i * n)) :
    keys = (keysFrom db dmid (startText args)).drop (i * n) ∧
      ∀ key, PageEnd n (keysFrom db dmid (startText args)) (i * n) key → GoodCursor regexMatches args key := by
  set sorted := keysFrom db dmid (startText args) with hsorted
  have hpairwise : sorted.Pairwise (· < ·) := pairwise_keysFrom db dmid (startText args)
  induction h generalizing i with
  | none_match h =>
    rename_i after
    have haccepted := Listing.accepted hreq (.none_match h)
    by_cases hmore : i * n < sorted.length
    · obtain ⟨last, hlast, -, -⟩ := page_spec hpairwise hreq.limit_pos hmore
      rw [← hfrom] at hlast
      obtain ⟨reply, hreply, -, -⟩ := hreq.page_eq haccepted hlast
      rw [hreply] at h
      simp [Outcome.ok, Outcome.err, errLine] at h
    · have hlen : sorted.length ≤ i * n := Nat.le_of_not_lt hmore
      exact ⟨(List.drop_eq_nil_of_le hlen).symm, fun key hend => absurd hend (not_pageEnd_of_length_le hlen)⟩
  | page h hrest ih =>
    rename_i after reply rest
    have haccepted := Listing.accepted hreq (.page h hrest)
    by_cases hmore : i * n < sorted.length
    · obtain ⟨last, hlast, hnext, hends⟩ := page_spec hpairwise hreq.limit_pos hmore
      have hlast' := hlast
      rw [← hfrom] at hlast'
      obtain ⟨reply', hreply, hkeys, hlookup⟩ := hreq.page_eq haccepted hlast'
      obtain rfl : reply = reply' := by
        rw [hreply] at h
        simpa [Outcome.ok] using h.symm
      rw [hlookup] at hrest ih
      have hend : PageEnd n sorted (i * n) last := (hends last).mpr (.inl rfl)
      -- a false cursor starts again, and its listing comes to the same cursor
      have htruthy : Text.truthy (some last) = true := by
        by_contra hfalse
        have hall := keysAfter_of_not_truthy hreq hfalse
        rw [← hsorted] at hall
        obtain ⟨j, -, hj, hrank⟩ := hend
        have hgood := (ih (i := 0) (by rw [hall, Nat.zero_mul, List.drop_zero])).2 last
          ⟨j, by omega, hj, hrank⟩
        exact hfalse hgood.1
      have hafter : keysAfter db dmid args (some last) = _ := keysAfter_of_truthy htruthy
      rw [← hsorted, hnext _ fun x => decide_eq_true_iff] at hafter
      obtain ⟨hread, hgood⟩ := ih hafter
      refine ⟨?_, fun key hkey => ?_⟩
      · have hnextDrop : sorted.drop ((i + 1) * n) = (sorted.drop (i * n)).drop n := by
          rw [List.drop_drop, Nat.add_mul, Nat.one_mul]
        rw [hkeys, hread, hfrom, hnextDrop, List.take_append_drop]
      · rcases (hends key).mp hkey with rfl | hkey
        · exact ⟨htruthy, Listing.accepted hreq hrest⟩
        · exact hgood key hkey
    · have hnil : (keysAfter db dmid args after).take n = [] := by
        rw [hfrom, List.drop_eq_nil_of_le (Nat.le_of_not_lt hmore), List.take_nil]
      rw [hreq.cmdListKeys_eq haccepted, hnil] at h
      simp [Outcome.ok, Outcome.err, errLine] at h

theorem ListRequest.listing_of_good (haccepted : Accepted regexMatches args after) {i : ℕ}
    (hfrom : keysAfter db dmid args after = (keysFrom db dmid (startText args)).drop (i * n))
    (hgood : ∀ key, PageEnd n (keysFrom db dmid (startText args)) (i * n) key →
      GoodCursor regexMatches args key) :
    Listing env regexMatches args db after ((keysFrom db dmid (startText args)).drop (i * n)) := by
  set sorted := keysFrom db dmid (startText args) with hsorted
  have hpairwise : sorted.Pairwise (· < ·) := pairwise_keysFrom db dmid (startText args)
  have hpos := hreq.limit_pos
  -- the keys that are left get fewer with every page
  induction hleft : sorted.length - i * n using Nat.strong_induction_on generalizing i after with
  | _ left ih =>
    by_cases hmore : i * n < sorted.length
    · obtain ⟨last, hlast, hnext, hends⟩ := page_spec hpairwise hpos hmore
      have hlast' := hlast
      rw [← hfrom] at hlast'
      obtain ⟨reply, hreply, hkeys, hlookup⟩ := hreq.page_eq haccepted hlast'
      obtain ⟨htruthy, haccepted'⟩ := hgood last ((hends last).mpr (.inl rfl))
      have hafter : keysAfter db dmid args (some last) = _ := keysAfter_of_truthy htruthy
      rw [← hsorted, hnext _ fun x => decide_eq_true_iff] at hafter
      have hstep : (i + 1) * n = i * n + n := by ring
      have hrest := ih (sorted.length - (i + 1) * n) (by omega) haccepted' hafter
        (fun key hkey => hgood key ((hends key).mpr (.inr hkey))) rfl
      have hsplit : sorted.drop (i * n) = replyKeys reply ++ sorted.drop ((i + 1) * n) := by
        rw [hkeys, hfrom, hstep, ← List.drop_drop, List.take_append_drop]
      rw [hsplit]
      exact .page hreply (hlookup ▸ hrest)
    · have hnil : (keysAfter db dmid args after).take n = [] := by
        rw [hfrom, List.drop_eq_nil_of_le (Nat.le_of_not_lt hmore), List.take_nil]
      rw [List.drop_eq_nil_of_le (Nat.le_of_not_lt hmore)]
      exact .none_match (by rw [hreq.cmdListKeys_eq haccepted, hnil])

end Requests

theorem startText_eq (args : Args) :
    startText args = (args "prefix").getD [] ∨ (args "prefix" = some ['0'] ∧ startText args = []) := by
  cases hpre : args "prefix" with
  | none => exact .inl (by rw [startText, hpre]; rfl)
  | some start =>
    by_cases hzero : start = ['0']
    · subst hzero
      exact .inr ⟨rfl, by rw [startText, hpre]; rfl⟩
    · refine .inl ?_
      rw [startText, hpre]
      by_cases hnil : start = []
      · subst hnil
        rfl
      · exact if_pos (by simp [Text.truthy, hzero, hnil])

section Complete

variable {env : QueryEnv} {args : Args} {db : Db} {dmid limit : ℕ}

/-- A client that lists a domain with a prefix, page by page, comes to an end without another error, having
read each key with the prefix once, in ascending order, and no other key, exactly if all the keys of the
domain start with `0` in case this is the prefix, no page ends with the key `0`, and the last key of every
page matches the prefix as a regular expression. -/
theorem list_keys_complete_iff (regexMatches : Text → Text → Option Bool)
    (hdomain : checkDomain env args = .ok ([], dmid)) (hdmid : dmid ≠ 0) {start : Text}
    (hpre : args "prefix" = some start) (hwild : start.NoWildcards)
    (hlimit : args "limit" = some (Text.decimal limit)) (hpos : 1 ≤ limit)
    (hkeys : ∀ row ∈ db.file.rows, row.dmid = dmid → row.dkey ≠ []) :
    (∃ keys, Listing env regexMatches args db none keys ∧ keys.Pairwise (· < ·) ∧
        ∀ key, key ∈ keys ↔ (∃ row ∈ db.file.rows, row.dmid = dmid ∧ row.dkey = key) ∧ start <+: key) ↔
      (start = ['0'] → ∀ row ∈ db.file.rows, row.dmid = dmid → start <+: row.dkey) ∧
        ∀ key, PageEnd (min limit 1000) (keysFrom db dmid start) 0 key →
          key ≠ ['0'] ∧ (Text.truthy (some start) = true → regexMatches start key = some true) := by
  have hreq : ListRequest env args db dmid (min limit 1000) :=
    ⟨hdomain, hdmid, fun t ht => Option.some.inj (hpre.symm.trans ht) ▸ hwild,
      listLimit_decimal hlimit hpos, by omega, hkeys⟩
  have hgood : ∀ key, key ∈ keysFrom db dmid start → (GoodCursor regexMatches args key ↔
      key ≠ ['0'] ∧ (Text.truthy (some start) = true → regexMatches start key = some true)) := by
    intro key hkey
    have hne := hreq.key_ne hkey
    have htruthy : Text.truthy (some key) = true ↔ key ≠ ['0'] := by simp [Text.truthy, hne]
    rw [GoodCursor, Accepted, hpre, htruthy, Option.getD_some, Option.getD_some]
    refine and_congr_right fun hzero => ?_
    exact ⟨fun h hstart => h hstart hzero, fun h hstart _ => h hstart⟩
  have hfrom : keysAfter db dmid args none =
      (keysFrom db dmid (startText args)).drop (0 * min limit 1000) := by
    rw [Nat.zero_mul, List.drop_zero]
    exact keysAfter_of_not_truthy hreq Bool.false_ne_true
  -- the keys that the command selects are the keys with the prefix
  have hsame : (start = ['0'] → ∀ row ∈ db.file.rows, row.dmid = dmid → start <+: row.dkey) →
      keysFrom db dmid (startText args) = keysFrom db dmid start := by
    intro hzero
    rcases startText_eq args with heq | ⟨hpre', heq⟩
    · rw [heq, hpre, Option.getD_some]
    · obtain rfl : start = ['0'] := Option.some.inj (hpre.symm.trans hpre')
      refine (pairwise_keysFrom db dmid _).eq_of_mem_iff (pairwise_keysFrom db dmid _) fun key => ?_
      rw [mem_keysFrom, mem_keysFrom, heq]
      refine and_congr_right fun hrow => ?_
      obtain ⟨row, hrow, hrdmid, hkey⟩ := hrow
      exact iff_of_true List.nil_prefix (hkey ▸ hzero rfl row hrow hrdmid)
  constructor
  · rintro ⟨keys, hlist, -, hmem⟩
    obtain ⟨hread, hends⟩ := hreq.of_listing hlist hfrom
    rw [Nat.zero_mul] at hread hends
    rw [List.drop_zero] at hread
    have hzero : start = ['0'] → ∀ row ∈ db.file.rows, row.dmid = dmid → start <+: row.dkey := by
      intro hstart row hrow hrdmid
      refine ((hmem row.dkey).mp ?_).2
      rw [hread, mem_keysFrom]
      refine ⟨⟨row, hrow, hrdmid, rfl⟩, ?_⟩
      rw [startText, hpre, hstart]
      exact List.nil_prefix
    refine ⟨hzero, fun key hend => (hgood key hend.mem).mp (hends key ?_)⟩
    rw [hsame hzero]
    exact hend
  · rintro ⟨hzero, hends⟩
    have hall : ∀ key, PageEnd (min limit 1000) (keysFrom db dmid (startText args)) (0 * min limit 1000) key →
        GoodCursor regexMatches args key := by
      intro key hend
      rw [hsame hzero, Nat.zero_mul] at hend
      exact (hgood key hend.mem).mpr (hends key hend)
    have hnone : Accepted regexMatches args none := fun _ h => absurd h Bool.false_ne_true
    refine ⟨_, hreq.listing_of_good hnone hfrom hall, ?_, fun key => ?_⟩
    · rw [Nat.zero_mul, List.drop_zero]
      exact pairwise_keysFrom db dmid _
    · rw [Nat.zero_mul, List.drop_zero, hsame hzero]
      exact mem_keysFrom

end Complete

/-! ### Complete and incomplete listings -/

/-- The keys `ab`, `ac` and `b` of a domain. -/
def threeKeys : Db :=
  { Db.fresh with
    file := ⟨⟨[⟨1, 1, "ac".toList, 5, 0, 1, none, 0⟩, ⟨2, 1, "b".toList, 5, 0, 1, none, 0⟩,
      ⟨3, 1, "ab".toList, 5, 0, 1, none, 0⟩], by decide⟩, by decide⟩ }

/-- A request of a client, `list_keys` with a prefix. -/
def listArgs (start : String) : Args
  | "domain" => some "d".toList
  | "prefix" => some start.toList
  | "limit" => some "1".toList
  | _ => none

/-- The prefix as a regular expression, where it has no metacharacters. -/
def literalMatch (start key : Text) : Option Bool := some (start.isPrefixOf key)

/-- The keys of `threeKeys` with the prefix `a`, one on each page. -/
theorem threeKeys_listed :
    checkDomain emptyUpload (listArgs "a") = .ok ([], 1) ∧
      ∃ keys, Listing emptyUpload literalMatch (listArgs "a") threeKeys none keys ∧
        keys.Pairwise (· < ·) ∧ ∀ key, key ∈ keys ↔
          (∃ row ∈ threeKeys.file.rows, row.dmid = 1 ∧ row.dkey = key) ∧ "a".toList <+: key := by
  have hdomain : checkDomain emptyUpload (listArgs "a") = .ok ([], 1) := rfl
  have hpre : listArgs "a" "prefix" = some "a".toList := rfl
  have hlimit : listArgs "a" "limit" = some (Text.decimal 1) := by decide
  refine ⟨hdomain, (list_keys_complete_iff literalMatch hdomain (by decide) hpre (by decide +kernel) hlimit
    (by decide) (by decide)).mpr ⟨?_, ?_⟩⟩
  · intro h
    exact absurd h (by decide)
  · rintro key ⟨i, -, hi, -⟩
    have hsorted : keysFrom threeKeys 1 "a".toList = ["ab".toList, "ac".toList] := by decide +kernel
    rw [hsorted] at hi
    match i with
    | 0 => obtain rfl := Option.some.inj hi; decide
    | 1 => obtain rfl := Option.some.inj hi; decide
    | i + 2 => cases hi

/-- With the prefix `0` the keys of `threeKeys` are listed, none of which starts with it. -/
theorem threeKeys_zero :
    ¬ ∃ keys, Listing emptyUpload literalMatch (listArgs "0") threeKeys none keys ∧
      keys.Pairwise (· < ·) ∧ ∀ key, key ∈ keys ↔
        (∃ row ∈ threeKeys.file.rows, row.dmid = 1 ∧ row.dkey = key) ∧ "0".toList <+: key := by
  rintro ⟨keys, hlist, -, hmem⟩
  have hreq : ListRequest emptyUpload (listArgs "0") threeKeys 1 1 := by
    have hdomain : checkDomain emptyUpload (listArgs "0") = .ok ([], 1) := rfl
    refine ⟨hdomain, by decide, fun t ht => ?_, by decide +kernel, by decide, by decide⟩
    obtain rfl := Option.some.inj ht
    decide +kernel
  have hall : keysFrom threeKeys 1 (startText (listArgs "0")) = ["ab".toList, "ac".toList, "b".toList] := by
    decide +kernel
  have hread := (hreq.of_listing (i := 0) hlist (by decide +kernel)).1
  rw [Nat.zero_mul, List.drop_zero, hall] at hread
  have hstarts := ((hmem "b".toList).mp (by rw [hread]; decide)).2
  exact absurd hstarts (by decide)

end Ylem
