import Ylem.Query.Reply
import Ylem.Query.UrlArgs

/-!
# The language of the old client

`CSLangue` writes a request as the tracker reads it, `key=value` pairs with `&` between them, and takes the
pairs of a reply apart, but escapes and unescapes nothing. It takes a reply for a success if `OK` stands
anywhere in it.
-/

namespace Ylem

open UrlEscape

namespace CSLangue

/-- The pairs of a request; those without a value are left out. -/
def requestPairs (params : List (Bytes × Bytes)) : Bytes :=
  joinPairs (params.filter fun kv => 0 < kv.2.length)

/-- A request; a map is listed in the order of its keys. -/
def createSerLangue (method : Bytes) (params : List (Bytes × Bytes)) : Bytes :=
  if method.length < 1 ∨ params.length = 0 then []
  else method ++ ascii " " ++ requestPairs params ++ ascii "\r\n"

/-- `substr(3, length())`, which throws on a text of fewer than three bytes. -/
def substr3 (langue : Bytes) : Option Bytes := if 3 ≤ langue.length then some (langue.drop 3) else none

/-- The key and the value of one piece. Without `=` both are the whole piece, since the position after the
one that was not found is the first. -/
def piecePair (piece : Bytes) : Bytes × Bytes :=
  if '='.toUInt8 ∈ piece then
    (piece.takeWhile (· ≠ '='.toUInt8), (piece.dropWhile (· ≠ '='.toUInt8)).drop 1)
  else (piece, piece)

/-- Does the text contain `OK`? -/
def hasOK (langue : Bytes) : Bool := langue.tails.any fun t => (ascii "OK").isPrefixOf t

/-- What a reply says, and its pairs; nothing where it throws. Splitting a text is left to a library. -/
def parseSerLangue (splitIntoVector : Bytes → UInt8 → List Bytes) (langue : Bytes) :
    Option (Bool × List (Bytes × Bytes)) :=
  if langue.length < 1 then some (false, [(ascii "ERR", ascii "first param do not equal null")])
  else if hasOK langue then
    (substr3 langue).map fun rest => (true, (splitIntoVector rest '&'.toUInt8).map piecePair)
  else (substr3 langue).map fun rest => (false, [(ascii "ERR", rest)])

/-- What stands between the command and the line end of a request. -/
def argumentPart (method line : Bytes) : Bytes := (line.drop (method.length + 1)).dropLast.dropLast

/-- A command and its arguments. -/
structure Request where
  method : Bytes
  params : List (Bytes × Bytes)
  method_ne_nil : method ≠ []
  distinct : DistinctKeys params
  values_ne_nil : ∀ kv ∈ params, kv.2 ≠ []

theorem argumentPart_createSerLangue (request : Request) :
    argumentPart request.method (createSerLangue request.method request.params) = joinPairs request.params := by
  obtain ⟨method, params, hmethod, _, hvalues⟩ := request
  have hall : params.filter (fun kv => 0 < kv.2.length) = params :=
    List.filter_eq_self.mpr fun kv hkv => by simpa [List.length_pos_iff] using hvalues kv hkv
  have hlen : ¬ method.length < 1 := by
    have hpos := List.length_pos_iff.mpr hmethod
    omega
  show argumentPart method (createSerLangue method params) = joinPairs params
  rw [createSerLangue]
  by_cases hparams : params.length = 0
  · rw [if_pos (.inr hparams), List.length_eq_zero_iff.mp hparams]
    simp [argumentPart, joinPairs]
  · have hline : method ++ ascii " " ++ joinPairs params ++ ascii "\r\n" =
        (method ++ ascii " ") ++ (joinPairs params ++ ['\r'.toUInt8] ++ ['\n'.toUInt8]) := by
      simp [ascii]
    have hstart : method.length + 1 = (method ++ ascii " ").length := by simp [ascii]
    rw [if_neg (by simp only [hlen, hparams, or_self, not_false_iff]), requestPairs, hall, argumentPart, hline,
      hstart, List.drop_left, List.dropLast_concat, List.dropLast_concat]

theorem piecePair_joined {key value : Bytes} (h : '='.toUInt8 ∉ key) :
    piecePair (key ++ ['='.toUInt8] ++ value) = (key, value) := by
  have hkey : ∀ c ∈ key, decide (c ≠ '='.toUInt8) = true := fun c hc =>
    decide_eq_true fun heq => h (heq ▸ hc)
  rw [piecePair, if_pos (by simp), List.append_assoc, List.singleton_append,
    List.takeWhile_append_of_pos hkey, List.dropWhile_append_of_pos hkey]
  simp

theorem eurl_injective : Function.Injective eurl := Function.LeftInverse.injective unescape_eurl

theorem parseSerLangue_ok (splitIntoVector : Bytes → UInt8 → List Bytes) (args : List (Bytes × Bytes)) :
    parseSerLangue splitIntoVector (okLine args) =
      some (true, (splitIntoVector (argline args) '&'.toUInt8).map piecePair) := by
  have hok : hasOK (okLine args) = true := rfl
  have hlen : ¬ (okLine args).length < 1 := by simp [okLine, ascii]
  have hrest : substr3 (okLine args) = some (argline args) := rfl
  rw [parseSerLangue, if_neg hlen, if_pos hok, hrest]
  rfl

/-- What the client relies on in the library: splitting joined pieces gives the pieces back, if there are any
and none is empty. -/
def SplitsJoined (splitIntoVector : Bytes → UInt8 → List Bytes) : Prop :=
  ∀ sep pieces, pieces ≠ [] → (∀ piece ∈ pieces, piece ≠ [] ∧ sep ∉ piece) →
    splitIntoVector ([sep].intercalate pieces) sep = pieces

theorem pairs_of_okLine {splitIntoVector : Bytes → UInt8 → List Bytes} (hsplit : SplitsJoined splitIntoVector)
    {args : List (Bytes × Bytes)} (hne : args ≠ []) :
    (splitIntoVector (argline args) '&'.toUInt8).map piecePair = args.map fun kv => (eurl kv.1, eurl kv.2) := by
  rw [argline, joinPairs, hsplit _ _ (by simpa using hne), List.map_map, List.map_map]
  · exact List.map_congr_left fun kv _ => piecePair_joined (eurl_unseparated kv.1).1
  · intro piece hpiece
    rw [List.map_map] at hpiece
    obtain ⟨kv, _, rfl⟩ := List.mem_map.mp hpiece
    refine ⟨by simp, ?_⟩
    simp only [Function.comp, List.mem_append, List.mem_singleton, not_or]
    exact ⟨⟨(eurl_unseparated kv.1).2, by decide⟩, (eurl_unseparated kv.2).2⟩

theorem safe_of_sameDict {args : List (Bytes × Bytes)} (hdistinct : DistinctKeys args)
    (h : SameDict (args.map fun kv => (eurl kv.1, eurl kv.2)) args) :
    ∀ kv ∈ args, SafeText eurlSafe kv.1 ∧ SafeText eurlSafe kv.2 := by
  have hkeys : DistinctKeys (args.map fun kv => (eurl kv.1, eurl kv.2)) := by
    have hmap : (args.map fun kv => (eurl kv.1, eurl kv.2)).map Prod.fst = (args.map Prod.fst).map eurl := by
      rw [List.map_map, List.map_map]
      rfl
    rw [DistinctKeys, hmap]
    exact hdistinct.map eurl_injective
  have hsum := ((h.perm hkeys hdistinct).map fun kv : Bytes × Bytes => weight kv.1 + weight kv.2).sum_eq
  rw [List.map_map] at hsum
  intro kv hkv
  have hle : ∀ kv ∈ args, weight kv.1 + weight kv.2 ≤ weight (eurl kv.1) + weight (eurl kv.2) :=
    fun kv _ => Nat.add_le_add (weight_escape_le kv.1) (weight_escape_le kv.2)
  -- no text can have grown
  have hnone : ¬ weight kv.1 + weight kv.2 < weight (eurl kv.1) + weight (eurl kv.2) := fun hlt =>
    absurd (List.sum_lt_sum _ _ hle ⟨kv, hkv, hlt⟩) (by rw [← hsum]; exact lt_irrefl _)
  have hkey : weight kv.1 ≤ weight (eurl kv.1) := weight_escape_le kv.1
  have hvalue : weight kv.2 ≤ weight (eurl kv.2) := weight_escape_le kv.2
  constructor <;> by_contra hnot
  · have hlt : weight kv.1 < weight (eurl kv.1) := weight_escape_lt hnot
    omega
  · have hlt : weight kv.2 < weight (eurl kv.2) := weight_escape_lt hnot
    omega

theorem sameDict_okLine_iff {splitIntoVector : Bytes → UInt8 → List Bytes} (hsplit : SplitsJoined splitIntoVector)
    {args : List (Bytes × Bytes)} (hdistinct : DistinctKeys args) :
    SameDict ((splitIntoVector (argline args) '&'.toUInt8).map piecePair) args ↔
      (args = [] → splitIntoVector [] '&'.toUInt8 = []) ∧
        ∀ kv ∈ args, SafeText eurlSafe kv.1 ∧ SafeText eurlSafe kv.2 := by
  by_cases hne : args = []
  · subst hne
    constructor
    · intro h
      refine ⟨fun _ => ?_, fun _ hkv => absurd hkv List.not_mem_nil⟩
      cases hpieces : splitIntoVector [] '&'.toUInt8 with
      | nil => rfl
      | cons piece pieces =>
        have hlookup := h (piecePair piece).1
        rw [argline, List.map_nil, joinPairs, List.map_nil, List.intercalate_nil, hpieces, List.map_cons,
          List.lookup_cons_self] at hlookup
        exact absurd hlookup (by simp)
    · rintro ⟨hempty, _⟩
      rw [argline, List.map_nil, joinPairs, List.map_nil, List.intercalate_nil, hempty rfl]
      exact fun _ => rfl
  · rw [pairs_of_okLine hsplit hne]
    constructor
    · exact fun h => ⟨fun hnil => absurd hnil hne, safe_of_sameDict hdistinct h⟩
    · rintro ⟨_, hsafe⟩
      have hsame : (args.map fun kv => (eurl kv.1, eurl kv.2)) = args := by
        conv_rhs => rw [← List.map_id args]
        exact List.map_congr_left fun kv hkv => by
          rw [eurl, eurl, escape_of_safe (hsafe kv hkv).1, escape_of_safe (hsafe kv hkv).2]
          rfl
      rw [hsame]
      exact fun _ => rfl

end CSLangue

open CSLangue

/-- The old client and the tracker understand each other exactly where nothing has to be escaped. Requests:
no key or value holds `&`, `=`, `+` or what looks like an escape. Replies: every key and value consists of
characters that are not escaped, spaces excluded. -/
theorem sameLanguage_iff (splitIntoVector : Bytes → UInt8 → List Bytes) (hsplit : SplitsJoined splitIntoVector)
    (request : Request) (args : List (Bytes × Bytes)) (hdistinct : DistinctKeys args) :
    (SameDict (decodeUrlArgs (argumentPart request.method (createSerLangue request.method request.params)))
        request.params ↔
      ∀ kv ∈ request.params, (Unseparated kv.1 ∧ Literal kv.1) ∧ Unseparated kv.2 ∧ Literal kv.2) ∧
      ((∃ out, parseSerLangue splitIntoVector (okLine args) = some (true, out) ∧ SameDict out args) ↔
        (args = [] → splitIntoVector [] '&'.toUInt8 = []) ∧
          ∀ kv ∈ args, SafeText eurlSafe kv.1 ∧ SafeText eurlSafe kv.2) := by
  constructor
  · rw [argumentPart_createSerLangue]
    exact sameDict_decodeUrlArgs_iff request.distinct request.values_ne_nil
  · rw [← sameDict_okLine_iff hsplit hdistinct, parseSerLangue_ok]
    constructor
    · rintro ⟨out, hout, hsame⟩
      rw [Option.some.injEq, Prod.mk.injEq] at hout
      rwa [hout.2]
    · exact fun hsame => ⟨_, rfl, hsame⟩

/-- Splitting at every separator. -/
def splitPieces (t : Bytes) (sep : UInt8) : List Bytes := t.splitOn sep

theorem splitsJoined_splitPieces : SplitsJoined splitPieces := fun _ _ hne h =>
  List.splitOn_intercalate _ (fun piece hpiece => (h piece hpiece).2) hne

def openRequest : Request :=
  ⟨ascii "CREATE_OPEN", [(ascii "domain", ascii "photo"), (ascii "key", ascii "1 42")], by decide, by decide,
    by decide⟩

def fidReply : List (Bytes × Bytes) :=
  [(ascii "fid", ascii "7"), (ascii "path_1", ascii "http://10.0.0.1:7500/dev1/0/000/000/0000000007.fid")]

theorem openRequest_understood :
    SameDict (decodeUrlArgs (argumentPart openRequest.method
        (createSerLangue openRequest.method openRequest.params))) openRequest.params ∧
      ∃ out, parseSerLangue splitPieces (okLine fidReply) = some (true, out) ∧ SameDict out fidReply := by
  have hdistinct : DistinctKeys fidReply := by decide
  have hlanguage := sameLanguage_iff splitPieces splitsJoined_splitPieces openRequest fidReply hdistinct
  refine ⟨hlanguage.1.mpr ?_, hlanguage.2.mpr ⟨fun hnil => absurd hnil (by decide), ?_⟩⟩
  · unfold Unseparated
    decide
  · decide +kernel

/-- A request for a key with a separator in it. -/
def deleteRequest : Request :=
  ⟨ascii "DELETE", [(ascii "domain", ascii "photo"), (ascii "key", ascii "a&key=b")], by decide, by decide,
    by decide⟩

/-- That key arrives as another one, and a key with a space comes back with a `+`. -/
theorem deleteRequest_misunderstood :
    ¬ SameDict (decodeUrlArgs (argumentPart deleteRequest.method
        (createSerLangue deleteRequest.method deleteRequest.params))) deleteRequest.params ∧
      parseSerLangue splitPieces (okLine [(ascii "key_1", ascii "a b")]) =
        some (true, [(ascii "key_1", ascii "a+b")]) ∧
      ¬ SameDict [(ascii "key_1", ascii "a+b")] [(ascii "key_1", ascii "a b")] :=
  ⟨fun h => absurd (h (ascii "key")) (by decide +kernel), by decide +kernel,
    fun h => absurd (h (ascii "key_1")) (by decide)⟩

/-! ### The status of a reply -/

namespace CSLangue

/-- White space of the C locale. -/
def isSpace (c : UInt8) : Bool := c ∈ [9, 10, 11, 12, 13, 32]

/-- The first word of a reply. -/
def firstWord (langue : Bytes) : Bytes := (langue.dropWhile isSpace).takeWhile fun c => !isSpace c

/-- The text of an error: the given one, else that of its code, else the code. -/
def errText (code : Bytes) (text : Option Bytes) : Bytes :=
  if (text.map truthy).getD false then text.getD []
  else ((errTexts.map fun entry => (ascii entry.1, ascii entry.2)).lookup code).getD code

/-- What a client gets from `err_line`, after the parent has taken off the id and the delay. -/
def errBytes (code : Bytes) (text : Option Bytes) : Bytes :=
  ascii "ERR " ++ code ++ ascii " " ++ eurl (errText code text)

section Status

variable {splitIntoVector : Bytes → UInt8 → List Bytes} {s t langue : Bytes} {c : UInt8}

theorem hasOK_iff : hasOK t = true ↔ ascii "OK" <:+: t := by
  rw [hasOK, List.any_eq_true, List.infix_iff_prefix_suffix]
  simp only [List.mem_tails, List.isPrefixOf_iff_prefix]
  exact ⟨fun ⟨u, hu, hp⟩ => ⟨u, hp, hu⟩, fun ⟨u, hp, hu⟩ => ⟨u, hu, hp⟩⟩

theorem hasOK_cons (c : UInt8) (t : Bytes) :
    hasOK (c :: t) = (c == 'O'.toUInt8 && t.head? == some 'K'.toUInt8 || hasOK t) := by
  rw [hasOK, List.tails_cons, List.any_cons, ← hasOK]
  congr 1
  show (['O'.toUInt8, 'K'.toUInt8].isPrefixOf (c :: t)) = _
  rw [List.isPrefixOf_cons_cons, Bool.beq_comm]
  congr 1
  cases t with
  | nil => rfl
  | cons d t => rw [List.isPrefixOf_cons_cons, List.head?_cons, Bool.beq_comm, List.isPrefixOf_nil_left, Bool.and_true,
      Option.some_beq_some]

theorem hasOK_append (h : c ≠ 'K'.toUInt8) (s t : Bytes) :
    hasOK (s ++ c :: t) = (hasOK s || hasOK (c :: t)) := by
  induction s with
  | nil => rfl
  | cons d s ih =>
    have hhead : ((s ++ c :: t).head? == some 'K'.toUInt8) = (s.head? == some 'K'.toUInt8) := by
      cases s with
      | nil => simpa using h
      | cons => rfl
    rw [List.cons_append, hasOK_cons, ih, hasOK_cons d, hhead, Bool.or_assoc]

theorem hasOK_cons_of_ne (h : c ≠ 'O'.toUInt8) (t : Bytes) : hasOK (c :: t) = hasOK t := by
  rw [hasOK_cons, beq_eq_false_iff_ne.mpr h, Bool.false_and, Bool.false_or]

theorem head?_eurl_eq_K : (eurl t).head? = some 'K'.toUInt8 ↔ t.head? = some 'K'.toUInt8 := by
  cases t with
  | nil => rfl
  | cons c t =>
    rw [eurl, escape, List.flatMap_cons, escapeByte]
    split_ifs with hspace hsafe
    · rw [hspace]
      exact iff_of_false (fun h => absurd (Option.some_inj.mp h) (by decide)) fun h =>
        absurd (Option.some_inj.mp h) (by decide)
    · rfl
    · exact iff_of_false (fun h => absurd (Option.some_inj.mp h) (by decide)) fun h =>
        hsafe (Option.some_inj.mp h ▸ by decide)

theorem hasOK_eurl (t : Bytes) : hasOK (eurl t) = hasOK t := by
  have hdigit : ∀ n < 16, hexDigit n ≠ 'O'.toUInt8 := fun n hn heq =>
    absurd (heq ▸ hexDigit_mem hn) (by decide : 'O'.toUInt8 ∉ ascii "0123456789ABCDEF")
  induction t with
  | nil => rfl
  | cons c t ih =>
    have hhead : ((eurl t).head? == some 'K'.toUInt8) = (t.head? == some 'K'.toUInt8) := by
      rw [Bool.eq_iff_iff, beq_iff_eq, beq_iff_eq, head?_eurl_eq_K]
    rw [hasOK_cons c t, ← ih, ← hhead]
    have heurl : eurl (c :: t) = escapeByte eurlSafe c ++ eurl t := List.flatMap_cons
    rw [heurl, escapeByte]
    split_ifs with hspace hsafe
    · have hne : c ≠ 'O'.toUInt8 := by
        rw [hspace]
        decide
      rw [List.singleton_append, hasOK_cons_of_ne (by decide), beq_eq_false_iff_ne.mpr hne, Bool.false_and,
        Bool.false_or]
    · rw [List.singleton_append, hasOK_cons]
    · have hne : c ≠ 'O'.toUInt8 := by
        rintro rfl
        exact hsafe (by decide)
      have hlt : c.toNat < 256 := c.toNat_lt
      have hhigh : hexDigit (c.toNat / 16) ≠ 'O'.toUInt8 := hdigit _ (by omega)
      have hlow : hexDigit (c.toNat % 16) ≠ 'O'.toUInt8 := hdigit _ (by omega)
      rw [List.cons_append, List.cons_append, List.singleton_append, hasOK_cons_of_ne (by decide),
        hasOK_cons_of_ne hhigh, hasOK_cons_of_ne hlow, beq_eq_false_iff_ne.mpr hne, Bool.false_and, Bool.false_or]

theorem hasOK_errBytes (code : Bytes) (text : Option Bytes) :
    hasOK (errBytes code text) = (hasOK code || hasOK (errText code text)) := by
  have hline : errBytes code text = ascii "ERR" ++ ' '.toUInt8 :: (code ++ ' '.toUInt8 :: eurl (errText code text)) := by
    simp [errBytes, ascii]
  have herr : hasOK (ascii "ERR") = false := by decide
  rw [hline, hasOK_append (by decide), herr, Bool.false_or, hasOK_cons_of_ne (by decide), hasOK_append (by decide),
    hasOK_cons_of_ne (by decide), hasOK_eurl]

theorem hasOK_of_firstWord (h : firstWord langue = ascii "OK") : hasOK langue = true := by
  rw [hasOK_iff, ← h]
  exact (List.takeWhile_prefix _).isInfix.trans (List.dropWhile_suffix _).isInfix

theorem parseSerLangue_status (status : Bool) :
    (∃ out, parseSerLangue splitIntoVector langue = some (status, out)) ↔
      (langue.length ≠ 1 ∧ langue.length ≠ 2) ∧ hasOK langue = status := by
  rw [parseSerLangue, substr3]
  by_cases hempty : langue.length < 1
  · have hnil : langue = [] := List.length_eq_zero_iff.mp (by omega)
    subst hnil
    have hnot : hasOK [] = false := by decide
    cases status <;> simp [hnot]
  · by_cases hlen : 3 ≤ langue.length
    · have hne : langue.length ≠ 1 ∧ langue.length ≠ 2 := by omega
      cases hok : hasOK langue <;> cases status <;> simp [hempty, hlen, hne]
    · have hshort : ¬ (langue.length ≠ 1 ∧ langue.length ≠ 2) := by omega
      refine iff_of_false ?_ fun h => hshort h.1
      cases hok : hasOK langue <;> simp [hempty, hlen]

end Status

end CSLangue

/-- The status of a reply is read right exactly if the reply is not of one or two bytes, and contains `OK` only
if that is its first word; and an error line is read as an error exactly if neither its code nor its text
contains `OK`. -/
theorem parseSerLangue_exact_iff (splitIntoVector : Bytes → UInt8 → List Bytes) (langue code : Bytes)
    (text : Option Bytes) :
    ((∃ out, parseSerLangue splitIntoVector langue = some (decide (firstWord langue = ascii "OK"), out)) ↔
      (langue.length ≠ 1 ∧ langue.length ≠ 2) ∧ (ascii "OK" <:+: langue → firstWord langue = ascii "OK")) ∧
      ((∃ out, parseSerLangue splitIntoVector (errBytes code text) = some (false, out)) ↔
        ¬ ascii "OK" <:+: code ∧ ¬ ascii "OK" <:+: errText code text) := by
  constructor
  · rw [parseSerLangue_status, ← hasOK_iff]
    refine and_congr_right fun _ => ?_
    by_cases hword : firstWord langue = ascii "OK"
    · simp [hword, hasOK_of_firstWord hword]
    · simp [hword]
  · have hlen : (errBytes code text).length ≠ 1 ∧ (errBytes code text).length ≠ 2 := by
      simp only [errBytes, List.length_append]
      have herr : (ascii "ERR ").length = 4 := by decide
      omega
    rw [parseSerLangue_status, hasOK_errBytes, ← hasOK_iff, ← hasOK_iff]
    simp only [hlen, ne_eq, not_false_eq_true, true_and, Bool.or_eq_false_iff, Bool.not_eq_true]

/-- What an upload is answered whose size differs from the one announced, on a host named `OK1`. -/
def mismatchText : Bytes :=
  ascii "Expected: 1; actual: 2; path: http://OK1:7500/dev1/0/000/000/0000000002.fid"

/-- That error is read as a success, and a reply of one byte is not read at all. -/
theorem mismatch_read_as_ok :
    firstWord (errBytes (ascii "size_mismatch") (some mismatchText)) = ascii "ERR" ∧
      (¬ ∃ out, parseSerLangue splitPieces (errBytes (ascii "size_mismatch") (some mismatchText)) =
        some (false, out)) ∧
      ¬ ∃ out, parseSerLangue splitPieces (ascii "E") = some (decide (firstWord (ascii "E") = ascii "OK"), out) := by
  have hstatus : (parseSerLangue splitPieces (errBytes (ascii "size_mismatch") (some mismatchText))).map Prod.fst =
      some true := by decide +kernel
  have hshort : parseSerLangue splitPieces (ascii "E") = none := by decide +kernel
  refine ⟨by decide +kernel, fun ⟨out, hout⟩ => ?_, fun ⟨out, hout⟩ => ?_⟩
  · rw [hout] at hstatus
    exact absurd hstatus (by simp)
  · rw [hshort] at hout
    exact absurd hout (by simp)

end Ylem
