import Ylem.Lib.Pwrite
import Ylem.Lib.Text

/-!
# PUT on a storage node

The `PUT` of the modified `mod_webdav`. Without a `Content-Range` header the body replaces the file; with one
it is written at the first offset of the range into the file that is there, which is created if there is none
and never cut off. The body is a queue of chunks, each written by as many calls of `write` as it takes; an
error on the way sets the status and leaves what has been written. A chunk in a file that cannot be opened or
mapped is a `HANDLER_ERROR`, to which the server sends no response.
-/

namespace Ylem

/-- No file reaches beyond this offset. -/
def maxOffset : ℕ := 2 ^ 63 - 1

inductive Errno where
  | enoent
  | enospc
  | other
  deriving DecidableEq

/-- What a call of `write` does: it takes that many bytes, or as many as there are, but at least one; or it
fails. -/
inductive WriteOutcome where
  | wrote (n : ℕ)
  | failed (errno : Errno)

inductive ChunkType where
  | file (readable : Bool)
  | mem
  deriving DecidableEq

/-- A chunk of a request body with what is not written of it yet. -/
structure Chunk where
  type : ChunkType
  data : Bytes
  data_ne : data ≠ []

/-- What a request meets on the node: the configuration and the locks, and what the system calls do. The
outcome of a `write` goes by the offset at which it starts. -/
structure PutEnv where
  isReadonly : Bool
  hasLock : Bool
  openErr : Option Errno
  createErr : Option Errno
  lseekFails : Bool
  writes : ℕ → WriteOutcome

/-! ### The range -/

/-- `isspace`. -/
def isSpace (c : Char) : Bool := c = ' ' || (9 ≤ c.toNat && c.toNat ≤ 13)

/-- `strtoll` with base 10: the number, and where it ends. -/
def strtoll (t : Text) : ℤ × Text :=
  let (negative, u) := Text.sign (t.dropWhile isSpace)
  let (digits, rest) := u.span Char.isDigit
  if digits = [] then (0, t)
  else
    let value : ℤ := Text.ofDigits digits
    (max (-2 ^ 63) (min (2 ^ 63 - 1) (if negative then -value else value)), rest)

/-- The first offset of a `Content-Range` header; nothing for what is answered with 501. -/
def rangeOffset (value : Text) : Option ℕ :=
  if "bytes ".toList.isPrefixOf value then
    let num := (value.drop 6).dropWhile fun c => c = ' ' || c = '\t'
    if num = [] then none
    else
      let (offset, err) := strtoll num
      if err.head? ≠ some '-' ∨ offset < 0 then none else some offset.toNat
  else none

/-! ### Writing the body -/

/-- `write` of data at an offset: the number of bytes that it takes. -/
def writeAt (outcome : WriteOutcome) (offset : ℕ) (data : Bytes) : Except Errno ℕ :=
  match outcome with
  | .failed errno => .error errno
  -- a file that would grow too large
  | .wrote n => if maxOffset ≤ offset then .error .other else .ok (min (max n 1) (min data.length (maxOffset - offset)))

/-- What is left of the queue after so many bytes of its first chunk were written. -/
def removeWritten (c : Chunk) (n : ℕ) (cs : List Chunk) : List Chunk :=
  if h : n < c.data.length then
    { c with data := c.data.drop n, data_ne := fun hnil => by rw [List.drop_eq_nil_iff] at hnil; omega } :: cs
  else cs

/-- The write loop of `PUT`: the status, nothing for a `HANDLER_ERROR`, and the contents of the file. -/
def writeLoop (writes : ℕ → WriteOutcome) : ℕ → ℕ → List Chunk → ℕ → Bytes → Option ℕ × Bytes
  | _, _, [], status, content => (some status, content)
  -- there is a byte for every write
  | 0, _, _ :: _, status, content => (some status, content)
  | fuel + 1, offset, c :: cs, status, content =>
    if c.type = .file false then (none, content)
    else
      match writeAt (writes offset) offset c.data with
      | .error errno => (some (if errno = .enospc then 507 else 403), content)
      | .ok n => writeLoop writes fuel (offset + n) (removeWritten c n cs) status (pwrite content offset (c.data.take n))

/-- The bytes of a body. -/
def bodyBytes (cs : List Chunk) : Bytes := cs.flatMap Chunk.data

/-- `open` of a file to be written, with what it is created from if there is none: the contents, or the errno
of the two calls. -/
def openOrCreate (env : PutEnv) (file : Option Bytes) : Except Errno Bytes :=
  match file, env.openErr with
  | some content, none => .ok content
  -- what is there cannot be created exclusively
  | some _, some errno => .error errno
  | none, some .enospc => .error .enospc
  | none, some .other => .error .other
  | none, _ => if env.createErr = none then .ok [] else .error .enoent

/-- The method `PUT`: the status of the response and the file after it. -/
def put (env : PutEnv) (contentRange : Option Text) (cs : List Chunk) (file : Option Bytes) :
    Option ℕ × Option Bytes :=
  if env.isReadonly then (some 403, file)
  else if !env.hasLock then (some 423, file)
  else
    match contentRange with
    | some value =>
      match rangeOffset value with
      | none => (some 501, file)
      | some offset =>
        match openOrCreate env file with
        | .error errno => (some (if errno = .enoent then 404 else 403), file)
        | .ok content =>
          if env.lseekFails then (some 501, some content)
          else
            let (status, content) := writeLoop env.writes (bodyBytes cs).length offset cs 200 content
            (status, some content)
    | none =>
      match openOrCreate env file with
      | .ok _ =>
        let (status, content) := writeLoop env.writes (bodyBytes cs).length 0 cs (if file.isSome then 200 else 201) []
        (status, some content)
      | .error .enoent => (some 403, file)
      -- the file is not open, but the status is set and the loop entered
      | .error _ => ((writeLoop (fun _ => .failed .other) (bodyBytes cs).length 0 cs 201 []).1, file)

/-! ### A PUT that succeeds -/

/-- A response with a status from 200 to 299. -/
def succeeded : Option ℕ → Bool
  | some status => decide (200 ≤ status ∧ status ≤ 299)
  | none => false

theorem isSpace_of_isDigit {c : Char} (h : c.isDigit = true) : isSpace c = false := by
  have hrange : 48 ≤ c.toNat ∧ c.toNat ≤ 57 := by
    simpa [Char.isDigit, UInt32.le_iff_toNat_le] using h
  have hne : c ≠ ' ' := by
    rintro rfl
    exact absurd h (by decide)
  simp only [isSpace, hne, decide_false, Bool.false_or, Bool.and_eq_false_iff, decide_eq_false_iff_not]
  exact .inr (by omega)

theorem strtoll_decimal (n : ℕ) (rest : Text) :
    strtoll (Text.decimal n ++ '-' :: rest) = (min (2 ^ 63 - 1) (n : ℤ), '-' :: rest) := by
  have hrest : ∀ c ∈ ('-' :: rest).head?, c.isDigit = false := by
    rintro c hc
    cases hc
    decide
  have hspan : (Text.decimal n ++ '-' :: rest).span Char.isDigit = (Text.decimal n, '-' :: rest) :=
    Text.span_decimal hrest
  have hvalue := Text.ofDigits_decimal n
  have hne : Text.decimal n ≠ [] := Nat.toDigits_ne_nil
  obtain ⟨c, t, hct, hc⟩ := Text.exists_cons_decimal n
  rw [hct] at hspan hvalue hne ⊢
  have hdrop : (c :: t ++ '-' :: rest).dropWhile isSpace = c :: t ++ '-' :: rest := by
    rw [List.cons_append, List.dropWhile_cons, isSpace_of_isDigit hc]
    rfl
  unfold strtoll
  rw [hdrop, List.cons_append, Text.sign_cons hc]
  rw [List.cons_append] at hspan
  simp only [hspan, hne, if_false, hvalue, Bool.false_eq_true, Prod.mk.injEq, and_true]
  omega

theorem rangeOffset_decimal (n : ℕ) (rest : Text) :
    rangeOffset ("bytes ".toList ++ (Text.decimal n ++ '-' :: rest)) = some (min n maxOffset) := by
  have hdrop : ("bytes ".toList ++ (Text.decimal n ++ '-' :: rest)).drop 6 = Text.decimal n ++ '-' :: rest := rfl
  have hprefix : "bytes ".toList.isPrefixOf ("bytes ".toList ++ (Text.decimal n ++ '-' :: rest)) = true := by
    rw [List.isPrefixOf_iff_prefix]
    exact List.prefix_append _ _
  have hskip : (Text.decimal n ++ '-' :: rest).dropWhile (fun c => c = ' ' || c = '\t') =
      Text.decimal n ++ '-' :: rest := by
    obtain ⟨c, t, hct, hc⟩ := Text.exists_cons_decimal n
    have hspace : (decide (c = ' ') || decide (c = '\t')) = false := by
      simp only [Bool.or_eq_false_iff, decide_eq_false_iff_not]
      constructor
      · rintro rfl
        exact absurd hc (by decide)
      · rintro rfl
        exact absurd hc (by decide)
    rw [hct, List.cons_append, List.dropWhile_cons, hspace]
    rfl
  have hne : Text.decimal n ++ '-' :: rest ≠ [] := by simp
  rw [rangeOffset, if_pos hprefix, hdrop]
  simp only [hskip, hne, if_false, strtoll_decimal, List.head?_cons, ne_eq, not_true_eq_false, false_or]
  rw [if_neg (by omega)]
  refine congrArg some ?_
  unfold maxOffset
  omega

theorem bodyBytes_removeWritten (c : Chunk) (n : ℕ) (cs : List Chunk) :
    c.data.take n ++ bodyBytes (removeWritten c n cs) = bodyBytes (c :: cs) := by
  unfold removeWritten bodyBytes
  split_ifs with h
  · rw [List.flatMap_cons, List.flatMap_cons, ← List.append_assoc, List.take_append_drop]
  · rw [List.flatMap_cons, List.take_of_length_le (by omega)]

theorem bodyBytes_cons_length (c : Chunk) (cs : List Chunk) : 0 < (bodyBytes (c :: cs)).length := by
  have hpos := List.length_pos_iff.mpr c.data_ne
  rw [bodyBytes, List.flatMap_cons, List.length_append]
  omega

theorem writeAt_eq_ok {outcome : WriteOutcome} {offset n : ℕ} {data : Bytes} (hne : data ≠ [])
    (h : writeAt outcome offset data = .ok n) : 0 < n ∧ n ≤ data.length ∧ offset + n ≤ maxOffset := by
  have hpos := List.length_pos_iff.mpr hne
  cases outcome with
  | failed errno => cases h
  | wrote m =>
    rw [writeAt] at h
    split_ifs at h with hmax
    obtain rfl := Except.ok.inj h
    omega

theorem writeLoop_ok {writes : ℕ → WriteOutcome} {fuel offset status status' : ℕ} {cs : List Chunk}
    {content content' : Bytes} (hfuel : (bodyBytes cs).length ≤ fuel) (hne : cs ≠ [])
    (h : writeLoop writes fuel offset cs status content = (some status', content'))
    (hok : succeeded (some status') = true) :
    content' = pwrite content offset (bodyBytes cs) ∧ offset + (bodyBytes cs).length ≤ maxOffset := by
  induction fuel generalizing offset cs content with
  | zero =>
    obtain ⟨c, rest, rfl⟩ := List.exists_cons_of_ne_nil hne
    have hpos := bodyBytes_cons_length c rest
    omega
  | succ fuel ih =>
    obtain ⟨c, rest, rfl⟩ := List.exists_cons_of_ne_nil hne
    rw [writeLoop] at h
    split_ifs at h with hfile
    · cases (Prod.mk.inj h).1
    · cases hwrite : writeAt (writes offset) offset c.data with
      | error errno =>
        rw [hwrite] at h
        obtain ⟨hstatus, -⟩ := Prod.mk.inj h
        rw [← hstatus] at hok
        exfalso
        split_ifs at hok
        · exact absurd hok (by decide)
        · exact absurd hok (by decide)
      | ok n =>
        rw [hwrite] at h
        dsimp only at h
        obtain ⟨hpos, hle, hmax⟩ := writeAt_eq_ok c.data_ne hwrite
        have hbytes := bodyBytes_removeWritten c n rest
        have htake : (c.data.take n).length = n := by
          rw [List.length_take]
          omega
        have hlen : n + (bodyBytes (removeWritten c n rest)).length = (bodyBytes (c :: rest)).length := by
          rw [← hbytes, List.length_append, htake]
        rw [← hbytes]
        by_cases hdone : removeWritten c n rest = []
        · rw [hdone] at h ⊢
          rw [writeLoop] at h
          obtain ⟨-, rfl⟩ := Prod.mk.inj h
          have hnil : bodyBytes [] = [] := rfl
          rw [hnil, List.append_nil, htake]
          exact ⟨rfl, hmax⟩
        · obtain ⟨hcontent, hend⟩ := ih (by omega) hdone h
          have happend : pwrite (pwrite content offset (c.data.take n)) (offset + (c.data.take n).length)
              (bodyBytes (removeWritten c n rest)) =
              pwrite content offset (c.data.take n ++ bodyBytes (removeWritten c n rest)) := pwrite_append
          rw [htake] at happend
          refine ⟨hcontent.trans happend, ?_⟩
          rw [List.length_append, htake]
          omega

/-- A successful `PUT` of a range has written its body there, into a file that was created if need be. -/
theorem put_range_ok {env : PutEnv} {value : Text} {cs : List Chunk} {file file' : Option Bytes}
    {status : Option ℕ} (hne : cs ≠ []) (h : put env (some value) cs file = (status, file'))
    (hok : succeeded status = true) :
    ∃ offset, rangeOffset value = some offset ∧ offset + (bodyBytes cs).length ≤ maxOffset ∧
      file' = some (pwrite (file.getD []) offset (bodyBytes cs)) := by
  unfold put at h
  by_cases hreadonly : env.isReadonly = true
  · rw [if_pos hreadonly] at h
    obtain ⟨rfl, -⟩ := Prod.mk.inj h
    exact absurd hok (by decide)
  rw [if_neg hreadonly] at h
  by_cases hlock : (!env.hasLock) = true
  · rw [if_pos hlock] at h
    obtain ⟨rfl, -⟩ := Prod.mk.inj h
    exact absurd hok (by decide)
  · rw [if_neg hlock] at h
    cases hoffset : rangeOffset value with
    | none =>
      simp only [hoffset] at h
      obtain ⟨rfl, -⟩ := Prod.mk.inj h
      exact absurd hok (by decide)
    | some offset =>
      simp only [hoffset] at h
      cases hopen : openOrCreate env file with
      | error errno =>
        simp only [hopen] at h
        obtain ⟨rfl, -⟩ := Prod.mk.inj h
        exfalso
        split_ifs at hok
        · exact absurd hok (by decide)
        · exact absurd hok (by decide)
      | ok content =>
        have hcontent : content = file.getD [] := by
          unfold openOrCreate at hopen
          split at hopen
          · exact (Except.ok.inj hopen).symm
          · cases hopen
          · cases hopen
          · cases hopen
          · split_ifs at hopen
            exact (Except.ok.inj hopen).symm
        simp only [hopen] at h
        by_cases hseek : env.lseekFails = true
        · rw [if_pos hseek] at h
          obtain ⟨rfl, -⟩ := Prod.mk.inj h
          exact absurd hok (by decide)
        · rw [if_neg hseek] at h
          generalize hloop : writeLoop env.writes (bodyBytes cs).length offset cs 200 content = result at h
          obtain ⟨status', content'⟩ := result
          obtain ⟨rfl, rfl⟩ := Prod.mk.inj h
          cases status' with
          | none => exact absurd hok Bool.false_ne_true
          | some status' =>
            obtain ⟨hwritten, hend⟩ := writeLoop_ok le_rfl hne hloop hok
            rw [hwritten, hcontent]
            exact ⟨offset, rfl, hend, rfl⟩

end Ylem
