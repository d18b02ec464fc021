import Ylem.Lib.Bytes

/-!
# The connection of the old client

`exeCommand` sends a command and puts the reply together from what `recv` hands out. It looks for the end of
the reply at the end of each piece only, stops at a piece of one byte and takes every piece as a C string. So
what it returns depends on the pieces: it is the reply without its line end exactly if the reply has no zero
byte and no piece is shorter than two bytes, or none but the two that the line end has come in
(`exeCommand_iff`).
-/

namespace Ylem

def crlf : Bytes := [13, 10]

/-- A buffer as a C string. -/
def cString (buf : Bytes) : Bytes := buf.takeWhile (· ≠ 0)

namespace YlemTracker

/-- The descriptor of the connection, and what comes of sending a command: nothing if that fails, else what
`recv` returns one time after the other, a piece or an error. -/
structure Socket where
  fd : ℤ
  send : Bytes → Option (List (Option Bytes))

/-- The loop over `recv`; nothing while it waits for more. A connection that was closed gives an empty
piece. -/
def recvLoop : Bytes → List (Option Bytes) → Option Bytes
  | _, [] => none
  | strRe, none :: _ => some strRe
  | strRe, some buf :: recvs =>
    if buf.length < 2 then some strRe
    else if buf[buf.length - 2]? = some 13 ∧ buf[buf.length - 1]? = some 10 then
      some (strRe ++ cString (buf.set (buf.length - 2) 0))
    else recvLoop (strRe ++ cString (buf ++ [0])) recvs

def exeCommand (socket : Socket) (command : Bytes) : Option Bytes :=
  if socket.fd = -1 then some (ascii "ERR failure socket error, Do you forgot call get_connect function")
  else
    match socket.send command with
    | none => some (ascii "ERR failure socket error, send failure")
    | some recvs => recvLoop [] recvs

/-- As `exeCommand`, which logs less. -/
def exeCommandBig (socket : Socket) (command : Bytes) : Option Bytes := exeCommand socket command

/-! ### C strings -/

theorem zero_not_mem_cString (buf : Bytes) : 0 ∉ cString buf := fun h => by
  have hne := List.mem_takeWhile_imp h
  simp at hne

theorem cString_of_not_mem {buf : Bytes} (h : 0 ∉ buf) : cString buf = buf :=
  List.takeWhile_eq_self_iff.mpr fun _ hc => decide_eq_true fun heq => h (heq ▸ hc)

theorem cString_append_zero (buf rest : Bytes) : cString (buf ++ 0 :: rest) = cString buf := by
  induction buf with
  | nil => rfl
  | cons c buf ih =>
    simp only [cString] at ih ⊢
    rw [List.cons_append, List.takeWhile_cons, List.takeWhile_cons, ih]

theorem cString_eq_self_iff {buf : Bytes} : cString buf = buf ↔ 0 ∉ buf :=
  ⟨fun h => h ▸ zero_not_mem_cString buf, cString_of_not_mem⟩

/-! ### The pieces of a reply -/

/-- The pieces that do no harm. -/
def GoodPieces (pieces : List Bytes) : Prop :=
  (∀ piece ∈ pieces, 2 ≤ piece.length) ∨
    ∃ front, pieces = front ++ [[13], [10]] ∧ ∀ piece ∈ front, 2 ≤ piece.length

section Pieces

variable {strRe body piece : Bytes} {pieces : List Bytes} {recvs : List (Option Bytes)}

theorem recvLoop_last (strRe body : Bytes) (recvs : List (Option Bytes)) :
    recvLoop strRe (some (body ++ crlf) :: recvs) = some (strRe ++ cString body) := by
  have hlen : (body ++ crlf).length = body.length + 2 := by simp [crlf]
  have hset : (body ++ crlf).set body.length 0 = body ++ 0 :: [10] := by simp [crlf]
  rw [recvLoop, hlen, if_neg (by omega), if_pos (by simp [crlf]), Nat.add_sub_cancel, hset, cString_append_zero]

theorem recvLoop_middle (h : 2 ≤ piece.length) (hend : ¬ crlf <:+ piece) :
    recvLoop strRe (some piece :: recvs) = recvLoop (strRe ++ cString piece) recvs := by
  have hnot : ¬ (piece[piece.length - 2]? = some 13 ∧ piece[piece.length - 1]? = some 10) := by
    rintro ⟨hcr, hlf⟩
    have hdrop : piece.drop (piece.length - 2) = crlf := by
      have hnext : piece.length - 2 + 1 = piece.length - 1 := by omega
      have hlast : piece.length - 1 + 1 = piece.length := by omega
      rw [List.getElem?_eq_getElem (by omega), Option.some_inj] at hcr hlf
      rw [List.drop_eq_getElem_cons (by omega), hcr, hnext, List.drop_eq_getElem_cons (by omega), hlf, hlast,
        List.drop_length]
      rfl
    exact hend (hdrop ▸ List.drop_suffix _ _)
  rw [recvLoop, if_neg (by omega), if_neg hnot, cString_append_zero]

theorem goodPieces_cons (h : 2 ≤ piece.length) : GoodPieces (piece :: pieces) ↔ GoodPieces pieces := by
  constructor
  · rintro (hall | ⟨front, hfront, hall⟩)
    · exact .inl fun p hp => hall p (List.mem_cons_of_mem _ hp)
    · cases front with
      | nil =>
        obtain rfl := (List.cons.inj hfront).1
        exact absurd h (by decide)
      | cons p front =>
        obtain ⟨rfl, rfl⟩ := List.cons.inj hfront
        exact .inr ⟨front, rfl, fun q hq => hall q (List.mem_cons_of_mem _ hq)⟩
  · rintro (hall | ⟨front, rfl, hall⟩)
    · exact .inl (List.forall_mem_cons.mpr ⟨h, hall⟩)
    · exact .inr ⟨piece :: front, rfl, List.forall_mem_cons.mpr ⟨h, hall⟩⟩

theorem goodPieces_cons_short (h : piece.length < 2) :
    GoodPieces (piece :: pieces) ↔ piece = [13] ∧ pieces = [[10]] := by
  constructor
  · rintro (hall | ⟨front, hfront, hall⟩)
    · exact absurd (hall piece List.mem_cons_self) (by omega)
    · cases front with
      | nil => exact ⟨(List.cons.inj hfront).1, (List.cons.inj hfront).2⟩
      | cons p front =>
        have hp : piece = p := (List.cons.inj hfront).1
        exact absurd (hall p List.mem_cons_self) (by rw [← hp]; omega)
  · rintro ⟨rfl, rfl⟩
    exact .inr ⟨[], rfl, fun _ h => absurd h List.not_mem_nil⟩

theorem eq_singleton_of_flatten {c : UInt8} (hne : ∀ piece ∈ pieces, piece ≠ []) (h : pieces.flatten = [c]) :
    pieces = [[c]] := by
  obtain ⟨front, back, rfl, hfront, hback⟩ := List.flatten_eq_singleton_iff.mp h
  cases front with
  | cons piece front => exact absurd (hfront piece List.mem_cons_self) (hne piece (by simp))
  | nil =>
    cases back with
    | cons piece back => exact absurd (hback piece List.mem_cons_self) (hne piece (by simp))
    | nil => rfl

theorem first_piece_cases (hne : ∀ piece ∈ pieces, piece ≠ []) (hlast : pieces ≠ [])
    (h : piece ++ pieces.flatten = body ++ crlf) :
    (∃ body', body = piece ++ body' ∧ pieces.flatten = body' ++ crlf) ∨
      piece = body ++ [13] ∧ pieces = [[10]] := by
  rcases List.append_eq_append_iff.mp h with hwithin | ⟨start, hpiece, hline⟩
  · exact .inl hwithin
  · match start, hline with
    | [], hline => exact .inl ⟨[], by simpa using hpiece.symm, hline.symm⟩
    | [c], hline =>
      obtain ⟨rfl, hlf⟩ := List.cons.inj hline
      exact .inr ⟨hpiece, eq_singleton_of_flatten hne hlf.symm⟩
    | c :: d :: start, hline =>
      have hnil : start ++ pieces.flatten = [] := ((List.cons.inj (List.cons.inj hline).2).2).symm
      obtain ⟨piece', pieces', rfl⟩ := List.exists_cons_of_ne_nil hlast
      exact absurd (List.flatten_eq_nil_iff.mp (List.append_eq_nil_iff.mp hnil).2 piece' List.mem_cons_self)
        (hne piece' List.mem_cons_self)

/-- What the loop adds to the reply. By induction on the pieces; it never adds a zero byte, so what it adds
can only be the rest of the reply if that has none. -/
theorem recvLoop_pieces (hne : ∀ piece ∈ pieces, piece ≠ []) (hflat : pieces.flatten = body ++ crlf)
    (hbody : ¬ crlf <:+: body) (strRe : Bytes) (recvs : List (Option Bytes)) :
    ∃ tail, recvLoop strRe (pieces.map some ++ recvs) = some (strRe ++ tail) ∧ 0 ∉ tail ∧
      (tail = body ↔ 0 ∉ body ∧ GoodPieces pieces) := by
  induction pieces generalizing strRe body with
  | nil => exact absurd hflat (by simp [crlf])
  | cons piece pieces ih =>
    obtain ⟨hpiece, hrest⟩ := List.forall_mem_cons.mp hne
    rw [List.flatten_cons] at hflat
    rw [List.map_cons, List.cons_append]
    by_cases hshort : piece.length < 2
    · refine ⟨[], by rw [recvLoop, if_pos hshort, List.append_nil], List.not_mem_nil, ?_⟩
      rw [goodPieces_cons_short hshort]
      constructor
      · rintro rfl
        obtain ⟨c, rfl⟩ : ∃ c, piece = [c] :=
          List.length_eq_one_iff.mp (by have hpos := List.length_pos_iff.mpr hpiece; omega)
        obtain ⟨rfl, hline⟩ := List.cons.inj hflat
        exact ⟨List.not_mem_nil, rfl, eq_singleton_of_flatten hrest hline⟩
      · rintro ⟨_, rfl, rfl⟩
        have hlen := congrArg List.length hflat
        rw [List.length_append] at hlen
        exact (List.length_eq_zero_iff.mp (by simpa [crlf] using hlen.symm)).symm
    · have hlong : 2 ≤ piece.length := by omega
      rw [goodPieces_cons hlong]
      by_cases hlast : pieces = []
      · subst hlast
        obtain rfl : piece = body ++ crlf := by simpa using hflat
        refine ⟨cString body, recvLoop_last strRe body recvs, zero_not_mem_cString body, ?_⟩
        rw [cString_eq_self_iff]
        exact ⟨fun h => ⟨h, .inl fun _ h => absurd h List.not_mem_nil⟩, fun h => h.1⟩
      · rcases first_piece_cases hrest hlast hflat with ⟨body', rfl, hflat'⟩ | ⟨rfl, rfl⟩
        · -- the piece ends within the body
          have hend : ¬ crlf <:+ piece := fun h => hbody (h.isInfix.trans (List.prefix_append _ _).isInfix)
          have hbody' : ¬ crlf <:+: body' := fun h => hbody (h.trans (List.suffix_append _ _).isInfix)
          obtain ⟨tail, hloop, hzero, htail⟩ := ih hrest hflat' hbody' (strRe ++ cString piece)
          refine ⟨cString piece ++ tail, ?_, ?_, ?_⟩
          · rw [recvLoop_middle hlong hend, hloop, List.append_assoc]
          · rw [List.mem_append, not_or]
            exact ⟨zero_not_mem_cString piece, hzero⟩
          · rw [List.mem_append, not_or]
            constructor
            · intro heq
              have hnot : 0 ∉ piece ++ body' := heq ▸ fun h =>
                (List.mem_append.mp h).elim (zero_not_mem_cString piece) hzero
              rw [List.mem_append, not_or] at hnot
              rw [cString_of_not_mem hnot.1, List.append_cancel_left_eq] at heq
              exact ⟨hnot, (htail.mp heq).2⟩
            · rintro ⟨⟨hpiece, hbody⟩, hgood⟩
              rw [cString_of_not_mem hpiece, htail.mpr ⟨hbody, hgood⟩]
        · -- the line end is cut in two, and its first half is taken for a part of the reply
          have hend : ¬ crlf <:+ body ++ [13] := by
            rintro ⟨front, hfront⟩
            have hlf := congrArg List.getLast? hfront
            simp [crlf] at hlf
          refine ⟨cString (body ++ [13]), ?_, zero_not_mem_cString _, ?_⟩
          · rw [recvLoop_middle hlong hend, List.map_singleton, List.singleton_append, recvLoop, if_pos (by decide)]
          · rw [goodPieces_cons_short (by decide)]
            refine iff_of_false (fun heq => ?_) fun h => absurd h.2.1 (by decide)
            have hnot : 0 ∉ body := heq ▸ zero_not_mem_cString _
            rw [cString_of_not_mem (by simpa using hnot)] at heq
            exact absurd (congrArg List.length heq) (by simp)

end Pieces

end YlemTracker

open YlemTracker

/-- A reply that ends in the only line end of its text is returned without it, whatever comes after it, exactly
if it has no zero byte and no piece of it is a single byte, except for the two of a line end that came in two
pieces of their own. -/
theorem exeCommand_iff (socket : Socket) (command body : Bytes) (pieces : List Bytes)
    (recvs : List (Option Bytes)) (hfd : socket.fd ≠ -1)
    (hsend : socket.send command = some (pieces.map some ++ recvs))
    (hpieces : ∀ piece ∈ pieces, piece ≠ [] ∧ piece.length ≤ 4095) (hflat : pieces.flatten = body ++ crlf)
    (hbody : ¬ crlf <:+: body) :
    (exeCommand socket command = some body ∧ exeCommandBig socket command = some body) ↔
      0 ∉ body ∧ GoodPieces pieces := by
  obtain ⟨tail, hloop, _, htail⟩ := recvLoop_pieces (fun piece h => (hpieces piece h).1) hflat hbody [] recvs
  have hexe : exeCommand socket command = some tail := by
    rw [exeCommand, if_neg hfd, hsend]
    exact hloop
  rw [exeCommandBig, and_self, hexe, Option.some_inj, htail]

/-- A reply in two pieces, cut in the middle. -/
def cutReply : Socket := ⟨3, fun _ => some [some (ascii "OK paths=1&pa"), some (ascii "th1=x\r\n")]⟩

theorem cutReply_returned :
    exeCommand cutReply (ascii "GET_PATHS key=a\r\n") = some (ascii "OK paths=1&path1=x") ∧
      exeCommandBig cutReply (ascii "GET_PATHS key=a\r\n") = some (ascii "OK paths=1&path1=x") :=
  (exeCommand_iff cutReply (ascii "GET_PATHS key=a\r\n") (ascii "OK paths=1&path1=x")
    [ascii "OK paths=1&pa", ascii "th1=x\r\n"] [] (by decide) rfl (by decide) (by decide) (by decide +kernel)).mpr
    ⟨by decide, .inl (by decide)⟩

/-- The same reply with the line end cut in two: the first half of it is returned, too. -/
def cutLineEnd : Socket := ⟨3, fun _ => some [some (ascii "OK paths=1&path1=x\r"), some (ascii "\n")]⟩

theorem cutLineEnd_returned :
    [ascii "OK paths=1&path1=x\r", ascii "\n"].flatten = ascii "OK paths=1&path1=x" ++ crlf ∧
      exeCommand cutLineEnd (ascii "GET_PATHS key=a\r\n") = some (ascii "OK paths=1&path1=x\r") ∧
      exeCommandBig cutLineEnd (ascii "GET_PATHS key=a\r\n") ≠ some (ascii "OK paths=1&path1=x") := by
  decide +kernel

end Ylem
