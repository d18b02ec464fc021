import Ylem.Lib.Dict
import Ylem.Lib.UrlEscape

/-!
# Arguments in the texts of requests and replies

The tracker writes the answer to a command as `key=value` pairs with `&` between them, keys and values
escaped by `eurl`; `decode_url_args` reads the arguments of a request back from such a text. It reads what it
writes, but takes any text: a key that comes twice gets both values, a zero byte between them, and a piece
without `=` is a key without a value.
-/

namespace Ylem

open UrlEscape

/-! ### Writing -/

/-- `[a-zA-Z0-9_\,\-.\/\\\: ]`. -/
def eurlSafe (c : UInt8) : Bool :=
  c ∈ ascii "abcdefghijklmnopqrstuvwxyzABCDEFGHIJKLMNOPQRSTUVWXYZ0123456789_,-./\\: "

def eurl (a : Bytes) : Bytes := escape eurlSafe a

/-- Pairs as they stand in a text. -/
def joinPairs (pairs : List (Bytes × Bytes)) : Bytes :=
  ['&'.toUInt8].intercalate (pairs.map fun kv => kv.1 ++ ['='.toUInt8] ++ kv.2)

/-- `$argline` of `ok_line`, for a hash in the order of its `keys`. -/
def argline (args : List (Bytes × Bytes)) : Bytes := joinPairs (args.map fun kv => (eurl kv.1, eurl kv.2))

/-- What a client gets from `ok_line`, after the parent has taken off the id and the delay. -/
def okLine (args : List (Bytes × Bytes)) : Bytes := ascii "OK " ++ argline args

/-! ### Reading -/

/-- `($name, $value) = split(/=/, $pair)`, each of them unescaped. -/
def decodePair (pair : Bytes) : Bytes × Bytes :=
  (unescape ((pair.splitOn '='.toUInt8).headD []), unescape ((pair.splitOn '='.toUInt8)[1]?.getD []))

/-- `$ret->{$name} .= $ret->{$name} ? "\0$value" : $value`: a name that is there has its value extended. -/
def addPair : List (Bytes × Bytes) → Bytes × Bytes → List (Bytes × Bytes)
  | [], kv => [kv]
  | (name, old) :: ret, kv =>
    if name = kv.1 then (name, old ++ (if truthy old then 0 :: kv.2 else kv.2)) :: ret
    else (name, old) :: addPair ret kv

/-- `grep { $_ } split(/&/, $$buffer)`. -/
def urlPairs (buffer : Bytes) : List Bytes := (buffer.splitOn '&'.toUInt8).filter truthy

def decodeUrlArgs (buffer : Bytes) : List (Bytes × Bytes) :=
  (urlPairs buffer).foldl (fun ret pair => addPair ret (decodePair pair)) []

/-! ### How much can be read from a text -/

/-- What it takes to write a pair: its key, its value and the two characters around the value. Without a
value it can do with the one in front of the key. -/
def pairCost (kv : Bytes × Bytes) : ℕ := weight kv.1 + weight kv.2 + if kv.2 = [] then 1 else 2

/-- What it takes to write a dictionary. -/
def dictCost (ret : List (Bytes × Bytes)) : ℕ := (ret.map pairCost).sum

/-- A pair that is read as it was written. -/
def Exact (kv : Bytes × Bytes) : Prop :=
  (Literal kv.1 ∧ Literal kv.2) ∧ '='.toUInt8 ∉ kv.1 ∧ '='.toUInt8 ∉ kv.2

section Reading

variable {ret : List (Bytes × Bytes)} {kv : Bytes × Bytes} {pair t : Bytes} {a : UInt8}

theorem weight_cons_of_ne (h : a ≠ '+'.toUInt8) (t : Bytes) : weight (a :: t) = weight t + 1 := by
  rw [weight, if_neg h, Nat.add_comm]

/-- A new name is added at the end, and an old one takes in the value for one more character. -/
theorem addPair_cases (ret : List (Bytes × Bytes)) (kv : Bytes × Bytes) :
    (kv.1 ∉ ret.map Prod.fst ∧ addPair ret kv = ret ++ [kv]) ∨
      ((addPair ret kv).map Prod.fst = ret.map Prod.fst ∧
        dictCost (addPair ret kv) ≤ dictCost ret + weight kv.2 + 1) := by
  induction ret with
  | nil => exact .inl ⟨List.not_mem_nil, rfl⟩
  | cons entry ret ih =>
    obtain ⟨name, old⟩ := entry
    rw [addPair]
    split_ifs with hname htruthy
    · refine .inr ⟨rfl, ?_⟩
      have hold : old ≠ [] := by
        rintro rfl
        exact absurd htruthy (by decide)
      have hzero : weight (0 :: kv.2) = weight kv.2 + 1 := weight_cons_of_ne (by decide) _
      simp only [dictCost, List.map_cons, List.sum_cons, pairCost, weight_append, hzero, hold,
        List.append_eq_nil_iff, false_and, if_false]
      omega
    · refine .inr ⟨rfl, ?_⟩
      simp only [dictCost, List.map_cons, List.sum_cons, pairCost, weight_append]
      split_ifs <;> omega
    · rcases ih with ⟨hnew, hadd⟩ | ⟨hkeys, hcost⟩
      · refine .inl ⟨?_, by rw [hadd]; rfl⟩
        rw [List.map_cons]
        exact List.not_mem_cons_of_ne_of_not_mem (Ne.symm hname) hnew
      · refine .inr ⟨by rw [List.map_cons, hkeys]; rfl, ?_⟩
        simp only [dictCost, List.map_cons, List.sum_cons] at hcost ⊢
        omega

theorem distinctKeys_addPair (h : DistinctKeys ret) (kv : Bytes × Bytes) : DistinctKeys (addPair ret kv) := by
  rcases addPair_cases ret kv with ⟨hnew, hadd⟩ | ⟨hkeys, _⟩
  · rw [DistinctKeys, hadd, List.map_append]
    exact List.Nodup.append h (List.nodup_singleton _)
      (List.disjoint_singleton.mpr hnew)
  · rw [DistinctKeys, hkeys]
    exact h

theorem eq_of_mem_pair (h : '='.toUInt8 ∈ pair) :
    ∃ name rest, '='.toUInt8 ∉ name ∧ pair = name ++ '='.toUInt8 :: rest := by
  obtain ⟨name, rest, hpair, hname⟩ := List.eq_append_cons_of_mem h
  exact ⟨name, rest, hname, hpair⟩

theorem decodePair_of_not_mem (h : '='.toUInt8 ∉ pair) : decodePair pair = (unescape pair, []) := by
  rw [decodePair, List.splitOn_eq_singleton h]
  rfl

theorem decodePair_append {name : Bytes} (h : '='.toUInt8 ∉ name) (t : Bytes) :
    decodePair (name ++ '='.toUInt8 :: t) = (unescape name, unescape ((t.splitOn '='.toUInt8).headD [])) := by
  obtain ⟨value, rest, hsplit⟩ := List.exists_cons_of_ne_nil (List.splitOn_ne_nil '='.toUInt8 t)
  rw [decodePair, List.splitOn_append_cons_self_of_not_mem h, hsplit]
  rfl

theorem headD_splitOn (t : Bytes) :
    '='.toUInt8 ∉ (t.splitOn '='.toUInt8).headD [] ∧
      (t = (t.splitOn '='.toUInt8).headD [] ∨
        weight ((t.splitOn '='.toUInt8).headD []) + 1 ≤ weight t) := by
  by_cases h : '='.toUInt8 ∈ t
  · obtain ⟨value, rest, hvalue, rfl⟩ := eq_of_mem_pair h
    rw [List.splitOn_append_cons_self_of_not_mem hvalue, List.headD_cons, weight_append,
      weight_cons_of_ne (by decide)]
    exact ⟨hvalue, .inr (by omega)⟩
  · rw [List.splitOn_eq_singleton h]
    exact ⟨h, .inl rfl⟩

theorem literal_of_weight_le (h : weight t ≤ weight (unescape t)) : Literal t :=
  not_not.mp fun hnot => absurd (weight_unescape_lt hnot) (by omega)

/-- A piece gives a pair of no more than its own length, and one as long only if it says that pair. -/
theorem pairCost_decodePair (pair : Bytes) :
    pairCost (decodePair pair) ≤ weight pair + 1 ∧
      (weight pair + 1 ≤ pairCost (decodePair pair) →
        Exact (decodePair pair) ∧ ∀ c ∈ (decodePair pair).1 ++ (decodePair pair).2, c ∈ pair) := by
  by_cases h : '='.toUInt8 ∈ pair
  · obtain ⟨name, t, hname, rfl⟩ := eq_of_mem_pair h
    obtain ⟨hvalue, hrest⟩ := headD_splitOn t
    have hle := weight_unescape_le name
    have hle' := weight_unescape_le ((t.splitOn '='.toUInt8).headD [])
    rw [decodePair_append hname, weight_append, weight_cons_of_ne (by decide), pairCost]
    simp only
    generalize (t.splitOn '='.toUInt8).headD [] = value at *
    have hlen : weight value ≤ weight t := by
      rcases hrest with heq | hlt
      · rw [heq]
      · omega
    constructor
    · split_ifs <;> omega
    · intro hcost
      have hcost' : weight name + weight t ≤ weight (unescape name) + weight (unescape value) := by
        split_ifs at hcost <;> omega
      have ht : t = value := hrest.resolve_right (by omega)
      have hliteral : Literal name := literal_of_weight_le (by omega)
      have hliteral' : Literal value := literal_of_weight_le (by omega)
      rw [unescape_of_literal hliteral, unescape_of_literal hliteral', ht]
      refine ⟨⟨⟨hliteral, hliteral'⟩, hname, hvalue⟩, fun c hc => ?_⟩
      rcases List.mem_append.mp hc with hc | hc
      · exact List.mem_append_left _ hc
      · exact List.mem_append_right _ (List.mem_cons_of_mem _ hc)
  · have hle := weight_unescape_le pair
    rw [decodePair_of_not_mem h, pairCost]
    simp only [if_true]
    constructor
    · rw [weight]
      omega
    · intro hcost
      rw [weight] at hcost
      have hliteral : Literal pair := literal_of_weight_le (by omega)
      rw [unescape_of_literal hliteral]
      have hnil : Literal [] := by decide
      exact ⟨⟨⟨hliteral, hnil⟩, h, List.not_mem_nil⟩, fun c hc => by simpa using hc⟩

theorem weight_value_lt {pair : Bytes} (h : pair ≠ []) : weight (decodePair pair).2 + 1 ≤ weight pair := by
  have hcost := (pairCost_decodePair pair).1
  have hpos := weight_pos h
  rw [pairCost] at hcost
  split_ifs at hcost with hvalue
  · rw [hvalue, weight]
    omega
  · omega

/-- What the pieces of a text add up to. -/
def piecesCost (pairs : List Bytes) : ℕ := (pairs.map fun pair => weight pair + 1).sum

theorem dictCost_foldl (pairs : List Bytes) (hne : ∀ pair ∈ pairs, pair ≠ []) (ret : List (Bytes × Bytes)) :
    dictCost (pairs.foldl (fun ret pair => addPair ret (decodePair pair)) ret) ≤ dictCost ret + piecesCost pairs ∧
      (dictCost ret + piecesCost pairs ≤
          dictCost (pairs.foldl (fun ret pair => addPair ret (decodePair pair)) ret) →
        pairs.foldl (fun ret pair => addPair ret (decodePair pair)) ret = ret ++ pairs.map decodePair ∧
          ∀ pair ∈ pairs, weight pair + 1 ≤ pairCost (decodePair pair)) := by
  induction pairs generalizing ret with
  | nil => exact ⟨le_rfl, fun _ => ⟨(List.append_nil ret).symm, fun _ h => absurd h List.not_mem_nil⟩⟩
  | cons pair pairs ih =>
    obtain ⟨hle, hexact⟩ := ih (fun p hp => hne p (List.mem_cons_of_mem _ hp)) (addPair ret (decodePair pair))
    have hpair := (pairCost_decodePair pair).1
    have hpieces : piecesCost (pair :: pairs) = weight pair + 1 + piecesCost pairs := by
      simp only [piecesCost, List.map_cons, List.sum_cons]
    rw [List.foldl_cons, hpieces]
    rcases addPair_cases ret (decodePair pair) with ⟨_, hadd⟩ | ⟨_, hcost⟩
    · have hcost : dictCost (addPair ret (decodePair pair)) = dictCost ret + pairCost (decodePair pair) := by
        rw [hadd, dictCost, List.map_append, List.sum_append]
        rfl
      refine ⟨by omega, fun h => ?_⟩
      obtain ⟨hfold, hall⟩ := hexact (by omega)
      refine ⟨?_, List.forall_mem_cons.mpr ⟨by omega, hall⟩⟩
      rw [hfold, hadd, List.append_assoc]
      rfl
    · have hvalue := weight_value_lt (hne pair List.mem_cons_self)
      exact ⟨by omega, fun h => by omega⟩

theorem piecesCost_splitOn (h : a ≠ '+'.toUInt8) (t : Bytes) : piecesCost (t.splitOn a) = weight t + 1 := by
  induction t with
  | nil => rfl
  | cons c t ih =>
    rw [List.splitOn_cons_eq_if_modifyHead]
    split_ifs with hc
    · rw [beq_iff_eq.mp hc, weight_cons_of_ne h]
      simp only [piecesCost, List.map_cons, List.sum_cons] at ih ⊢
      rw [ih, weight]
      omega
    · obtain ⟨first, rest, hsplit⟩ := List.exists_cons_of_ne_nil (List.splitOn_ne_nil a t)
      rw [hsplit] at ih ⊢
      simp only [piecesCost, List.modifyHead_cons, List.map_cons, List.sum_cons, weight] at ih ⊢
      omega

theorem piecesCost_filter_le (keep : Bytes → Bool) (pairs : List Bytes) :
    piecesCost (pairs.filter keep) ≤ piecesCost pairs := by
  induction pairs with
  | nil => exact le_rfl
  | cons pair pairs ih =>
    simp only [piecesCost] at ih ⊢
    rw [List.filter_cons]
    split_ifs <;> simp only [List.map_cons, List.sum_cons] <;> omega

theorem distinctKeys_foldl (pairs : List Bytes) (h : DistinctKeys ret) :
    DistinctKeys (pairs.foldl (fun ret pair => addPair ret (decodePair pair)) ret) := by
  induction pairs generalizing ret with
  | nil => exact h
  | cons pair pairs ih => exact ih (distinctKeys_addPair h _)

theorem distinctKeys_decodeUrlArgs (buffer : Bytes) : DistinctKeys (decodeUrlArgs buffer) :=
  distinctKeys_foldl _ List.nodup_nil

theorem exact_of_dictCost {buffer : Bytes} (h : weight buffer + 1 ≤ dictCost (decodeUrlArgs buffer)) :
    ∀ kv ∈ decodeUrlArgs buffer, Exact kv ∧ ∀ c ∈ kv.1 ++ kv.2, c ≠ '&'.toUInt8 := by
  have hne : ∀ pair ∈ urlPairs buffer, pair ≠ [] := by
    intro pair hpair hnil
    have htruthy := (List.mem_filter.mp hpair).2
    rw [hnil] at htruthy
    exact absurd htruthy (by decide)
  have hsplit := piecesCost_splitOn (show '&'.toUInt8 ≠ '+'.toUInt8 by decide) buffer
  have hfilter := piecesCost_filter_le truthy (buffer.splitOn '&'.toUInt8)
  have hempty : dictCost [] = 0 := rfl
  rw [← urlPairs] at hfilter
  obtain ⟨hfold, hall⟩ := (dictCost_foldl (urlPairs buffer) hne []).2 (by rw [← decodeUrlArgs]; omega)
  intro kv hkv
  rw [decodeUrlArgs, hfold, List.nil_append] at hkv
  obtain ⟨pair, hpair, rfl⟩ := List.mem_map.mp hkv
  obtain ⟨hexact, hsub⟩ := (pairCost_decodePair pair).2 (hall pair hpair)
  refine ⟨hexact, fun c hc heq => ?_⟩
  have hnot := (mem_splitOn (List.mem_filter.mp hpair).1).1
  exact hnot (heq ▸ hsub c hc)

/-! ### Reading what was joined -/

/-- Text without separators. -/
def Unseparated (t : Bytes) : Prop := '='.toUInt8 ∉ t ∧ '&'.toUInt8 ∉ t

theorem addPair_of_not_mem (h : kv.1 ∉ ret.map Prod.fst) : addPair ret kv = ret ++ [kv] := by
  induction ret with
  | nil => rfl
  | cons entry ret ih =>
    rw [List.map_cons, List.mem_cons, not_or] at h
    rw [addPair, if_neg (Ne.symm h.1), ih h.2, List.cons_append]

theorem foldl_addPair {kvs : List (Bytes × Bytes)} (h : DistinctKeys (ret ++ kvs)) :
    kvs.foldl addPair ret = ret ++ kvs := by
  induction kvs generalizing ret with
  | nil => exact (List.append_nil ret).symm
  | cons kv kvs ih =>
    have happend : ret ++ kv :: kvs = ret ++ [kv] ++ kvs := by rw [List.append_assoc, List.singleton_append]
    have hnew : kv.1 ∉ ret.map Prod.fst := by
      rw [DistinctKeys, List.map_append, List.map_cons] at h
      exact fun hmem => List.disjoint_of_nodup_append h hmem List.mem_cons_self
    rw [List.foldl_cons, addPair_of_not_mem hnew, ih (by rwa [← happend]), happend]

theorem decodePair_joined (hkey : '='.toUInt8 ∉ kv.1) (hvalue : '='.toUInt8 ∉ kv.2) :
    decodePair (kv.1 ++ ['='.toUInt8] ++ kv.2) = (unescape kv.1, unescape kv.2) := by
  rw [List.append_assoc, List.singleton_append, decodePair_append hkey, List.splitOn_eq_singleton hvalue]
  rfl

theorem urlPairs_joinPairs {pairs : List (Bytes × Bytes)} (h : ∀ kv ∈ pairs, Unseparated kv.1 ∧ Unseparated kv.2) :
    urlPairs (joinPairs pairs) = pairs.map fun kv => kv.1 ++ ['='.toUInt8] ++ kv.2 := by
  by_cases hnil : pairs = []
  · subst hnil
    rfl
  · have hpieces : ∀ piece ∈ pairs.map fun kv => kv.1 ++ ['='.toUInt8] ++ kv.2,
        '&'.toUInt8 ∉ piece ∧ truthy piece = true := by
      intro piece hpiece
      obtain ⟨kv, hkv, rfl⟩ := List.mem_map.mp hpiece
      obtain ⟨hkey, hvalue⟩ := h kv hkv
      constructor
      · simp only [List.mem_append, List.mem_singleton, not_or]
        exact ⟨⟨hkey.2, by decide⟩, hvalue.2⟩
      · have hmem : '='.toUInt8 ∈ kv.1 ++ ['='.toUInt8] ++ kv.2 := by simp
        rw [truthy, Bool.not_eq_true', Bool.or_eq_false_iff, beq_eq_false_iff_ne, beq_eq_false_iff_ne]
        constructor <;> intro heq <;> rw [heq] at hmem <;> exact absurd hmem (by decide)
    rw [urlPairs, joinPairs,
      List.splitOn_intercalate _ (fun piece hpiece => (hpieces piece hpiece).1) (by simpa using hnil)]
    exact List.filter_eq_self.mpr fun piece hpiece => (hpieces piece hpiece).2

theorem decodeUrlArgs_joinPairs {pairs : List (Bytes × Bytes)}
    (h : ∀ kv ∈ pairs, Unseparated kv.1 ∧ Unseparated kv.2)
    (hdistinct : DistinctKeys (pairs.map fun kv => (unescape kv.1, unescape kv.2))) :
    decodeUrlArgs (joinPairs pairs) = pairs.map fun kv => (unescape kv.1, unescape kv.2) := by
  have hdecode : (pairs.map fun kv => kv.1 ++ ['='.toUInt8] ++ kv.2).map decodePair =
      pairs.map fun kv => (unescape kv.1, unescape kv.2) := by
    rw [List.map_map]
    exact List.map_congr_left fun kv hkv => decodePair_joined (h kv hkv).1.1 (h kv hkv).2.1
  have hfold : (pairs.map fun kv => (unescape kv.1, unescape kv.2)).foldl addPair [] = [] ++ _ :=
    foldl_addPair (by rwa [List.nil_append])
  rw [decodeUrlArgs, urlPairs_joinPairs h, ← List.foldl_map, hdecode, hfold, List.nil_append]

theorem weight_joinPairs {pairs : List (Bytes × Bytes)} (hne : pairs ≠ []) (hvalues : ∀ kv ∈ pairs, kv.2 ≠ []) :
    weight (joinPairs pairs) + 1 = dictCost pairs := by
  induction pairs with
  | nil => exact absurd rfl hne
  | cons kv pairs ih =>
    have hfirst : weight (kv.1 ++ ['='.toUInt8] ++ kv.2) + 1 = pairCost kv := by
      rw [pairCost, if_neg (hvalues kv List.mem_cons_self), weight_append, weight_append,
        weight_cons_of_ne (by decide), weight]
      omega
    have hcost : dictCost (kv :: pairs) = pairCost kv + dictCost pairs := by
      rw [dictCost, List.map_cons, List.sum_cons, ← dictCost]
    rw [hcost, ← hfirst]
    cases pairs with
    | nil => simp [joinPairs, dictCost]
    | cons kv' pairs =>
      rw [← ih (List.cons_ne_nil _ _) fun kv'' h => hvalues kv'' (List.mem_cons_of_mem _ h)]
      rw [joinPairs, List.map_cons, List.map_cons, List.intercalate_cons_cons, weight_append, weight_append,
        weight_cons_of_ne (by decide), weight, joinPairs, List.map_cons]
      omega

/-- A request comes back as it was sent exactly if nothing in it looks like a separator or an escape. -/
theorem sameDict_decodeUrlArgs_iff {pairs : List (Bytes × Bytes)} (hdistinct : DistinctKeys pairs)
    (hvalues : ∀ kv ∈ pairs, kv.2 ≠ []) :
    SameDict (decodeUrlArgs (joinPairs pairs)) pairs ↔
      ∀ kv ∈ pairs, (Unseparated kv.1 ∧ Literal kv.1) ∧ Unseparated kv.2 ∧ Literal kv.2 := by
  constructor
  · intro hsame kv hkv
    have hperm := hsame.perm (distinctKeys_decodeUrlArgs _) hdistinct
    have hcost : dictCost (decodeUrlArgs (joinPairs pairs)) = dictCost pairs := (hperm.map pairCost).sum_eq
    have hlen := weight_joinPairs (List.ne_nil_of_mem hkv) hvalues
    obtain ⟨⟨hliteral, heq⟩, hand⟩ := exact_of_dictCost (by omega) kv (hperm.mem_iff.mpr hkv)
    exact ⟨⟨⟨heq.1, fun hc => hand _ (List.mem_append_left _ hc) rfl⟩, hliteral.1⟩,
      ⟨heq.2, fun hc => hand _ (List.mem_append_right _ hc) rfl⟩, hliteral.2⟩
  · intro h
    have hunescape : (pairs.map fun kv => (unescape kv.1, unescape kv.2)) = pairs := by
      conv_rhs => rw [← List.map_id pairs]
      exact List.map_congr_left fun kv hkv => by
        rw [unescape_of_literal (h kv hkv).1.2, unescape_of_literal (h kv hkv).2.2]
        rfl
    rw [decodeUrlArgs_joinPairs (fun kv hkv => ⟨(h kv hkv).1.1, (h kv hkv).2.1⟩) (by rwa [hunescape]), hunescape]
    exact fun _ => rfl

/-! ### Reading what the tracker writes -/

theorem escape_unseparated {safe : UInt8 → Bool} (heq : safe '='.toUInt8 = false) (hamp : safe '&'.toUInt8 = false)
    (t : Bytes) : Unseparated (escape safe t) :=
  ⟨notMem_escape heq (by decide) t, notMem_escape hamp (by decide) t⟩

theorem eurl_unseparated (t : Bytes) : Unseparated (eurl t) := escape_unseparated (by decide) (by decide) t

theorem unescape_eurl (t : Bytes) : unescape (eurl t) = t := unescape_escape (by decide) (by decide) t

theorem urlPairs_argline (args : List (Bytes × Bytes)) :
    urlPairs (argline args) = args.map fun kv => eurl kv.1 ++ ['='.toUInt8] ++ eurl kv.2 := by
  rw [argline, urlPairs_joinPairs, List.map_map]
  · rfl
  · intro kv hkv
    obtain ⟨kv', _, rfl⟩ := List.mem_map.mp hkv
    exact ⟨eurl_unseparated _, eurl_unseparated _⟩

theorem decodeUrlArgs_argline {args : List (Bytes × Bytes)} (h : DistinctKeys args) :
    decodeUrlArgs (argline args) = args := by
  have hunescape : (args.map fun kv => (eurl kv.1, eurl kv.2)).map (fun kv => (unescape kv.1, unescape kv.2)) =
      args := by
    rw [List.map_map]
    conv_rhs => rw [← List.map_id args]
    exact List.map_congr_left fun kv _ => by
      show (unescape (eurl kv.1), unescape (eurl kv.2)) = kv
      rw [unescape_eurl, unescape_eurl]
  rw [argline, decodeUrlArgs_joinPairs ?_ (by rwa [hunescape]), hunescape]
  intro kv hkv
  obtain ⟨kv', _, rfl⟩ := List.mem_map.mp hkv
  exact ⟨eurl_unseparated _, eurl_unseparated _⟩

end Reading

end Ylem
