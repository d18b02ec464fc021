import Mathlib

/-!
# Putting a file with sendfile

`YlemPutfile::putfile` sends a file in ranges of one megabyte, each over a connection of its own with a header
that says where the range is. What the kernel sends is taken from a file offset that it moves itself. A range is
tried three times as long as the attempts end in errors; then its result, the number of bytes or `-1`, is added to
a sum, and the file counts as put if the sum is not negative.

A short send is no error, so it is neither repeated nor noticed, and shifts the bytes of every range after it. And
a range that has failed takes no more than one from the sum. What is put is exactly right if the last attempt at
every range takes all of it, and reported as an error if the failed ranges outnumber the bytes
(`reportsSoundly_iff`). The variable that holds the size has 32 bits.
-/

namespace Ylem

/-! ### Sending one range -/

/-- `MAXFILEBLOCK`. -/
def maxFileBlock : ℕ := 1024 * 1024

/-- `LOOPNUMBER`. -/
def loopNumber : ℕ := 3

inductive YlemState where
  | ok | err | webdavErr | openfileErr
  deriving DecidableEq

/-- How an attempt to send a range ends: an error from `socket`, `connect` or `sendfile`, or the kernel takes no
more than so many bytes. -/
inductive SendOutcome where
  | error
  | takes (n : ℕ)
  deriving DecidableEq

/-- `Content-Range: bytes first-last/total`. -/
structure RangeHeader where
  first : ℤ
  last : ℤ
  total : ℤ
  deriving DecidableEq

/-- An attempt at a range: its header, and where the bytes that were sent begin and end in the file. -/
structure Attempt where
  header : RangeHeader
  sent : Option (ℕ × ℕ)
  deriving DecidableEq

/-- The count that `sendfile` gets: an unsigned number, of which the kernel takes 2 GB at most. -/
def sendCount (sendsize : ℤ) : ℕ := min (sendsize % 2 ^ 64).toNat 0x7ffff000

/-- The bytes that a `sendfile` of a file of `size` bytes sends. -/
def bytesSent (size offset : ℕ) (sendsize : ℤ) (n : ℕ) : ℕ := min n (min (sendCount sendsize) (size - offset))

/-- `sectsendfile`: the attempt, its result and the offset after it. -/
def sectsendfile (size : ℕ) (header : RangeHeader) (sendsize : ℤ) (offset : ℕ) : SendOutcome → Attempt × ℤ × ℕ
  | .error => (⟨header, none⟩, -1, offset)
  | .takes n =>
    (⟨header, some (offset, offset + bytesSent size offset sendsize n)⟩, bytesSent size offset sendsize n,
      offset + bytesSent size offset sendsize n)

/-- The attempts at a range, the `loopNum`th one next. -/
def sendRange (size : ℕ) (header : RangeHeader) (sendsize : ℤ) (outcomes : ℕ → SendOutcome) :
    ℕ → ℕ → ℕ → List Attempt × ℤ × ℕ
  | 0, loopNum, offset =>
    let (a, isz, offset) := sectsendfile size header sendsize offset (outcomes loopNum)
    ([a], isz, offset)
  | left + 1, loopNum, offset =>
    let (a, isz, offset) := sectsendfile size header sendsize offset (outcomes loopNum)
    if isz < 0 then
      let (as, isz, offset) := sendRange size header sendsize outcomes left (loopNum + 1) offset
      (a :: as, isz, offset)
    else ([a], isz, offset)

/-! ### The loop -/

/-- The variables of the loop, and the attempts at each range so far. -/
structure PutLoop where
  offset : ℕ
  sz : ℤ
  iTemp : ℤ
  iCurrent : ℤ
  log : List (List Attempt)

section Loop

variable (size : ℕ) (filesize : ℤ) (net : ℕ → ℕ → SendOutcome)

/-- One round: the range that is next, and what is left after it. -/
def PutLoop.round (k : ℕ) (s : PutLoop) : PutLoop :=
  let sendsize : ℤ := if s.iTemp < maxFileBlock then s.iTemp else maxFileBlock
  let header : RangeHeader := ⟨s.iCurrent, s.iCurrent + sendsize - 1, filesize⟩
  let sent := sendRange size header sendsize (net k) (loopNumber - 1) 1 s.offset
  { offset := sent.2.2
    sz := if s.iTemp ≠ loopNumber then s.sz + sent.2.1 else -1
    iTemp := (if s.iTemp ≠ loopNumber then s.iTemp else -1) - maxFileBlock
    iCurrent := s.iCurrent + sendsize
    log := s.log ++ [sent.1] }

theorem iTemp_round (k : ℕ) (s : PutLoop) : (s.round size filesize net k).iTemp =
    (if s.iTemp ≠ loopNumber then s.iTemp else -1) - maxFileBlock := rfl

/-- The rounds from the `k`th on. -/
def PutLoop.run (k : ℕ) (s : PutLoop) : PutLoop :=
  if 0 < (s.round size filesize net k).iTemp then (s.round size filesize net k).run (k + 1)
  else s.round size filesize net k
termination_by s.iTemp.toNat
decreasing_by
  rename_i h
  rw [iTemp_round] at h ⊢
  have hblock : (0 : ℤ) < maxFileBlock := by decide
  split at h <;> split <;> omega

end Loop

/-- `int filesize = sb.st_size`. -/
def intOfSize (size : ℕ) : ℤ := Int.bmod size (2 ^ 32)

/-- What `putfile` returns after the loop, with the attempts at each range. -/
def PutLoop.result (size : ℕ) (s : PutLoop) : YlemState × ℤ × List (List Attempt) :=
  (if s.sz < 0 then .err else .ok, intOfSize size, s.log)

/-- What `putfile` finds: the URL can be parsed, the file can be opened and has a size, the host is known, and how
each attempt at each range ends. -/
structure PutfileEnv where
  uriParsed : Bool
  opened : Option ℕ
  hostFound : Bool
  net : ℕ → ℕ → SendOutcome

/-- `putfile`, with the attempts at each range. -/
def putfile (env : PutfileEnv) (webPath key filePath : List Char) : YlemState × ℤ × List (List Attempt) :=
  if webPath = [] ∨ key = [] ∨ filePath = [] then (.err, 0, [])
  else if env.uriParsed then
    match env.opened with
    | none => (.openfileErr, 0, [])
    | some size =>
      if env.hostFound then
        (PutLoop.run size (intOfSize size) env.net 0 ⟨0, 0, intOfSize size, 0, []⟩).result size
      else (.err, intOfSize size, [])
  else (.webdavErr, 0, [])

/-! ### What has to be sent -/

/-- The end of the `k`th range of a file. -/
def rangeEnd (size k : ℕ) : ℕ := min ((k + 1) * maxFileBlock) size

/-- The last attempt at every range sent all of it, under a header that says so. -/
def SentWhole (size : ℕ) (log : List (List Attempt)) : Prop :=
  ∀ k, k * maxFileBlock < size → ∃ attempts, log[k]? = some attempts ∧
    attempts.getLast? = some ⟨⟨(k * maxFileBlock : ℕ), (rangeEnd size k : ℤ) - 1, size⟩,
      some (k * maxFileBlock, rangeEnd size k)⟩

/-- Success is reported for files only that were sent as a whole. -/
def ReportsSoundly (env : PutfileEnv) (webPath key filePath : List Char) : Prop :=
  (putfile env webPath key filePath).1 = .ok →
    ∃ size, env.opened = some size ∧ SentWhole size (putfile env webPath key filePath).2.2

/-! ### What becomes of a range -/

/-- The outcome that the attempts at a range end with: the first that is no error, or the last. -/
def finalOutcome (outcomes : ℕ → SendOutcome) : ℕ → ℕ → SendOutcome
  | 0, loopNum => outcomes loopNum
  | left + 1, loopNum =>
    match outcomes loopNum with
    | .error => finalOutcome outcomes left (loopNum + 1)
    | .takes n => .takes n

/-- The outcome of the three attempts at the `k`th range. -/
def PutfileEnv.outcome (net : ℕ → ℕ → SendOutcome) (k : ℕ) : SendOutcome := finalOutcome (net k) (loopNumber - 1) 1

theorem sendRange_spec (size : ℕ) (header : RangeHeader) (sendsize : ℤ) (outcomes : ℕ → SendOutcome)
    (left loopNum offset : ℕ) :
    (sendRange size header sendsize outcomes left loopNum offset).1.getLast? =
        some (sectsendfile size header sendsize offset (finalOutcome outcomes left loopNum)).1 ∧
      (sendRange size header sendsize outcomes left loopNum offset).2 =
        (sectsendfile size header sendsize offset (finalOutcome outcomes left loopNum)).2 := by
  induction left generalizing loopNum with
  | zero => exact ⟨rfl, rfl⟩
  | succ left ih =>
    cases houtcome : outcomes loopNum with
    | error =>
      obtain ⟨hlast, hrest⟩ := ih (loopNum + 1)
      simp only [sendRange, finalOutcome, houtcome, sectsendfile]
      rw [if_pos (by decide)]
      refine ⟨?_, hrest⟩
      rw [List.getLast?_cons, hlast]
      rfl
    | takes n =>
      simp only [sendRange, finalOutcome, houtcome, sectsendfile]
      rw [if_neg (by omega)]
      exact ⟨rfl, rfl⟩

/-! ### What the loop sends -/

section Sent

variable {size k n : ℕ} {net : ℕ → ℕ → SendOutcome} {s : PutLoop}

/-- The size of the `k`th range. -/
def sendSize (filesize : ℤ) (k : ℕ) : ℤ := min (filesize - k * maxFileBlock) maxFileBlock

/-- The number of bytes of the `k`th range that are sent. -/
def sentBytes (filesize : ℤ) (net : ℕ → ℕ → SendOutcome) (k : ℕ) : ℕ :=
  match PutfileEnv.outcome net k with
  | .error => 0
  | .takes n => min n (sendCount (sendSize filesize k))

/-- The result of the `k`th range. -/
def rangeResult (filesize : ℤ) (net : ℕ → ℕ → SendOutcome) (k : ℕ) : ℤ :=
  if PutfileEnv.outcome net k = .error then -1 else sentBytes filesize net k

/-- Where the `k`th range is taken from. -/
def sentFrom (filesize : ℤ) (net : ℕ → ℕ → SendOutcome) (k : ℕ) : ℕ := ∑ j ∈ Finset.range k, sentBytes filesize net j

/-- The last attempt at the `k`th range. -/
def lastAttempt (filesize : ℤ) (net : ℕ → ℕ → SendOutcome) (k : ℕ) : Attempt :=
  ⟨⟨(k * maxFileBlock : ℕ), (k * maxFileBlock : ℕ) + sendSize filesize k - 1, filesize⟩,
    if PutfileEnv.outcome net k = .error then none
    else some (sentFrom filesize net k, sentFrom filesize net k + sentBytes filesize net k)⟩

/-- The `k`th range is a range of the loop. -/
def IsRange (filesize : ℤ) (k : ℕ) : Prop := k = 0 ∨ (k * maxFileBlock : ℕ) < filesize

theorem maxFileBlock_eq : maxFileBlock = 1048576 := rfl

theorem intOfSize_eq (size : ℕ) : intOfSize size =
    if (size : ℤ) % 4294967296 < 2147483648 then (size : ℤ) % 4294967296 else (size : ℤ) % 4294967296 - 4294967296 := by
  have hpow : (2 : ℕ) ^ 32 = 4294967296 := by norm_num
  unfold intOfSize
  rw [Int.bmod_def, hpow]
  rfl

theorem intOfSize_le (size : ℕ) : intOfSize size ≤ size := by
  rw [intOfSize_eq]
  omega

theorem intOfSize_cases (size : ℕ) : (0 ≤ intOfSize size ∧ intOfSize size < 2 ^ 31) ∨
    (intOfSize size < 0 ∧ 2 ^ 31 ≤ size) := by
  rw [intOfSize_eq]
  omega

theorem intOfSize_eq_iff : intOfSize size = size ↔ size < 2 ^ 31 := by
  rw [intOfSize_eq]
  omega

theorem bytesSent_eq {offset : ℕ} (hk : IsRange (intOfSize size) k) (hoffset : offset ≤ k * maxFileBlock) (n : ℕ) :
    bytesSent size offset (sendSize (intOfSize size) k) n = min n (sendCount (sendSize (intOfSize size) k)) := by
  have henough : sendCount (sendSize (intOfSize size) k) ≤ size - offset := by
    have hle := intOfSize_le size
    unfold IsRange at hk
    unfold sendCount sendSize
    rw [maxFileBlock_eq] at *
    rcases intOfSize_cases size with ⟨hpos, _⟩ | ⟨hneg, hsize⟩
    · omega
    · omega
  rw [bytesSent, min_eq_left henough]

theorem sentBytes_le (hk : (k * maxFileBlock : ℕ) < intOfSize size) :
    (sentBytes (intOfSize size) net k : ℤ) ≤ sendSize (intOfSize size) k := by
  have hpos : 0 < sendSize (intOfSize size) k := by
    unfold sendSize
    rw [maxFileBlock_eq] at *
    omega
  unfold sentBytes sendCount
  split
  · exact hpos.le
  · unfold sendSize at *
    rw [maxFileBlock_eq] at *
    omega

theorem sentFrom_le (hk : IsRange (intOfSize size) k) : sentFrom (intOfSize size) net k ≤ k * maxFileBlock := by
  induction k with
  | zero =>
    rw [sentFrom, Finset.range_zero, Finset.sum_empty]
    exact Nat.zero_le _
  | succ k ih =>
    have hlast : ((k * maxFileBlock : ℕ) : ℤ) < intOfSize size := by
      unfold IsRange at hk
      rw [maxFileBlock_eq] at *
      omega
    have hsent : (sentBytes (intOfSize size) net k : ℤ) ≤ maxFileBlock :=
      (sentBytes_le hlast).trans (min_le_right _ _)
    have hbefore := ih (.inr hlast)
    rw [sentFrom, Finset.sum_range_succ, ← sentFrom, Nat.succ_mul]
    omega

/-- The loop before the `k`th range. -/
structure SentUpTo (size : ℕ) (net : ℕ → ℕ → SendOutcome) (k : ℕ) (s : PutLoop) : Prop where
  current : IsRange (intOfSize size) k → s.iCurrent = (k * maxFileBlock : ℕ)
  offset : s.offset = sentFrom (intOfSize size) net k
  length : s.log.length = k
  log : ∀ j, j < k → ∃ attempts, s.log[j]? = some attempts ∧
    attempts.getLast? = some (lastAttempt (intOfSize size) net j)

theorem sectsendfile_outcome (hk : IsRange (intOfSize size) k) :
    sectsendfile size ⟨(k * maxFileBlock : ℕ), (k * maxFileBlock : ℕ) + sendSize (intOfSize size) k - 1,
        intOfSize size⟩ (sendSize (intOfSize size) k) (sentFrom (intOfSize size) net k) (PutfileEnv.outcome net k) =
      (lastAttempt (intOfSize size) net k, rangeResult (intOfSize size) net k, sentFrom (intOfSize size) net (k + 1)) := by
  have hnext : sentFrom (intOfSize size) net (k + 1) =
      sentFrom (intOfSize size) net k + sentBytes (intOfSize size) net k := Finset.sum_range_succ _ _
  cases houtcome : PutfileEnv.outcome net k with
  | error =>
    have hnone : sentBytes (intOfSize size) net k = 0 := by rw [sentBytes, houtcome]
    rw [hnext, hnone, Nat.add_zero, sectsendfile, lastAttempt, rangeResult, if_pos houtcome, if_pos houtcome]
  | takes n =>
    have hsent : bytesSent size (sentFrom (intOfSize size) net k) (sendSize (intOfSize size) k) n =
        sentBytes (intOfSize size) net k := by
      rw [bytesSent_eq hk (sentFrom_le hk), sentBytes, houtcome]
    have hne : PutfileEnv.outcome net k ≠ .error := by rw [houtcome]; exact SendOutcome.noConfusion
    rw [hnext, sectsendfile, hsent, lastAttempt, rangeResult, if_neg hne, if_neg hne]

/-- One round sends the next range. -/
theorem SentUpTo.round (h : SentUpTo size net k s) (hk : IsRange (intOfSize size) k)
    (hleft : s.iTemp = intOfSize size - (k * maxFileBlock : ℕ)) :
    SentUpTo size net (k + 1) (s.round size (intOfSize size) net k) ∧
      (s.round size (intOfSize size) net k).sz =
        if s.iTemp ≠ loopNumber then s.sz + rangeResult (intOfSize size) net k else -1 := by
  have hsize : (if s.iTemp < maxFileBlock then s.iTemp else (maxFileBlock : ℤ)) = sendSize (intOfSize size) k := by
    rw [sendSize, hleft]
    push_cast
    split
    · rename_i hlt
      exact (min_eq_left hlt.le).symm
    · rename_i hle
      exact (min_eq_right (not_lt.mp hle)).symm
  obtain ⟨hlast, hsent⟩ := sendRange_spec size ⟨(k * maxFileBlock : ℕ),
    (k * maxFileBlock : ℕ) + sendSize (intOfSize size) k - 1, intOfSize size⟩ (sendSize (intOfSize size) k) (net k)
    (loopNumber - 1) 1 (sentFrom (intOfSize size) net k)
  have houtcome : finalOutcome (net k) (loopNumber - 1) 1 = PutfileEnv.outcome net k := rfl
  rw [houtcome, sectsendfile_outcome hk] at hlast hsent
  simp only [PutLoop.round, hsize, h.current hk, h.offset, hsent]
  refine ⟨⟨fun hnext => ?_, rfl, ?_, fun j hj => ?_⟩, trivial⟩
  · rcases hnext with hzero | hlt
    · omega
    · rw [sendSize]
      push_cast at hlt ⊢
      rw [maxFileBlock_eq] at *
      omega
  · rw [List.length_append, h.length, List.length_singleton]
  · rcases Nat.lt_succ_iff_lt_or_eq.mp hj with hlt | rfl
    · rw [List.getElem?_append_left (by rw [h.length]; exact hlt)]
      exact h.log j hlt
    · rw [List.getElem?_append_right h.length.le, h.length, Nat.sub_self]
      exact ⟨_, rfl, hlast⟩

/-- The rounds from the `k`th on send the ranges up to the last one, and add up their results, unless three bytes
are left for the last one. -/
theorem SentUpTo.run (h : SentUpTo size net k s) (hk : IsRange (intOfSize size) k)
    (hleft : s.iTemp = intOfSize size - (k * maxFileBlock : ℕ))
    (hsz : s.sz = ∑ j ∈ Finset.range k, rangeResult (intOfSize size) net j) :
    ∃ n, IsRange (intOfSize size) n ∧ intOfSize size ≤ ((n + 1) * maxFileBlock : ℕ) ∧
      SentUpTo size net (n + 1) (s.run size (intOfSize size) net k) ∧
      (s.run size (intOfSize size) net k).sz =
        if intOfSize size - (n * maxFileBlock : ℕ) ≠ loopNumber
        then ∑ j ∈ Finset.range (n + 1), rangeResult (intOfSize size) net j else -1 := by
  induction k, s using PutLoop.run.induct size (intOfSize size) net with
  | case1 k s hmore ih =>
    obtain ⟨hsent, hresult⟩ := h.round hk hleft
    have hloop : (loopNumber : ℤ) = 3 := rfl
    rw [iTemp_round] at hmore
    have hne : s.iTemp ≠ loopNumber := by
      intro heq
      rw [if_neg (not_not.mpr heq)] at hmore
      omega
    have hnext : (s.round size (intOfSize size) net k).iTemp = intOfSize size - ((k + 1) * maxFileBlock : ℕ) := by
      rw [iTemp_round, if_pos hne, hleft, Nat.succ_mul]
      push_cast
      ring
    rw [← iTemp_round size (intOfSize size) net k, hnext] at hmore
    rw [if_pos hne, hsz, ← Finset.sum_range_succ] at hresult
    have hrun : s.run size (intOfSize size) net k = (s.round size (intOfSize size) net k).run size (intOfSize size) net (k + 1) := by
      rw [PutLoop.run, if_pos (by rw [hnext]; exact hmore)]
    rw [hrun]
    exact ih hsent (.inr (by omega)) hnext hresult
  | case2 k s hdone =>
    obtain ⟨hsent, hresult⟩ := h.round hk hleft
    have hrun : s.run size (intOfSize size) net k = s.round size (intOfSize size) net k := by
      rw [PutLoop.run, if_neg hdone]
    have hloop : (loopNumber : ℤ) = 3 := rfl
    refine ⟨k, hk, ?_, ?_, ?_⟩
    · rw [iTemp_round, hleft] at hdone
      rw [Nat.succ_mul]
      rw [maxFileBlock_eq] at *
      push_cast at *
      split at hdone <;> omega
    · rw [hrun]
      exact hsent
    · rw [hrun, hresult, hleft, hsz, ← Finset.sum_range_succ]

end Sent

/-! ### When success is sound -/

/-- The number of ranges that a file of that size is sent in. -/
def rangeCount (filesize : ℤ) : ℕ := (filesize - 1).toNat / maxFileBlock + 1

/-- The ranges at which every attempt failed. -/
def failures (filesize : ℤ) (net : ℕ → ℕ → SendOutcome) : ℕ :=
  ((Finset.range (rangeCount filesize)).filter fun k => PutfileEnv.outcome net k = .error).card

/-- The bytes that the kernel takes of the ranges. -/
def bytesTaken (filesize : ℤ) (net : ℕ → ℕ → SendOutcome) : ℕ := sentFrom filesize net (rangeCount filesize)

/-- The last attempt at every range takes the whole range. -/
def TakesAll (size : ℕ) (net : ℕ → ℕ → SendOutcome) : Prop :=
  size < 2 ^ 31 ∧ ∀ k, k * maxFileBlock < size →
    ∃ n, PutfileEnv.outcome net k = .takes n ∧ rangeEnd size k - k * maxFileBlock ≤ n

section Sound

variable {size k : ℕ} {net : ℕ → ℕ → SendOutcome}

/-- The loop from its start. -/
def putLoop (size : ℕ) (net : ℕ → ℕ → SendOutcome) : PutLoop :=
  PutLoop.run size (intOfSize size) net 0 ⟨0, 0, intOfSize size, 0, []⟩

theorem sum_rangeResult (filesize : ℤ) (net : ℕ → ℕ → SendOutcome) (n : ℕ) :
    ∑ j ∈ Finset.range n, rangeResult filesize net j =
      sentFrom filesize net n - ((Finset.range n).filter fun k => PutfileEnv.outcome net k = .error).card := by
  rw [Finset.card_filter, sentFrom]
  push_cast
  rw [← Finset.sum_sub_distrib]
  refine Finset.sum_congr rfl fun j _ => ?_
  cases houtcome : PutfileEnv.outcome net j with
  | error => simp [rangeResult, sentBytes, houtcome]
  | takes n => simp [rangeResult, houtcome]

/-- The loop sends all ranges, and ends with an error exactly if three bytes are left for the last one or the
failed ranges outnumber the bytes. -/
theorem putLoop_spec (size : ℕ) (net : ℕ → ℕ → SendOutcome) :
    SentUpTo size net (rangeCount (intOfSize size)) (putLoop size net) ∧
      ((putLoop size net).sz < 0 ↔ (0 < intOfSize size ∧ intOfSize size % maxFileBlock = 3) ∨
        bytesTaken (intOfSize size) net < failures (intOfSize size) net) := by
  have hstart : SentUpTo size net 0 ⟨0, 0, intOfSize size, 0, []⟩ :=
    ⟨fun _ => by simp, rfl, rfl, fun j hj => absurd hj (Nat.not_lt_zero j)⟩
  obtain ⟨n, hn, hlast, hsent, hsz⟩ := hstart.run (.inl rfl) (by simp) (by simp)
  have hcount : rangeCount (intOfSize size) = n + 1 := by
    unfold IsRange at hn
    unfold rangeCount
    rw [maxFileBlock_eq] at *
    omega
  have hthree : intOfSize size - (n * maxFileBlock : ℕ) = 3 ↔
      0 < intOfSize size ∧ intOfSize size % maxFileBlock = 3 := by
    unfold IsRange at hn
    rw [maxFileBlock_eq] at *
    omega
  have hsum := sum_rangeResult (intOfSize size) net (n + 1)
  refine ⟨hcount ▸ hsent, ?_⟩
  show (PutLoop.run size (intOfSize size) net 0 ⟨0, 0, intOfSize size, 0, []⟩).sz < 0 ↔ _
  rw [hsz, ← hthree, bytesTaken, failures, hcount]
  have hloop : (loopNumber : ℤ) = 3 := rfl
  by_cases h : intOfSize size - (n * maxFileBlock : ℕ) = 3
  · rw [if_neg (by rw [hloop, h]; exact not_not.mpr rfl)]
    exact iff_of_true (by decide) (.inl h)
  · rw [if_pos (by rw [hloop]; exact h), hsum, or_iff_right h]
    omega

theorem sendSize_eq (hk : k * maxFileBlock < size) : sendSize size k = (rangeEnd size k - k * maxFileBlock : ℕ) := by
  unfold sendSize rangeEnd
  rw [maxFileBlock_eq] at *
  omega

theorem sendCount_eq (hk : k * maxFileBlock < size) : sendCount (sendSize size k) = rangeEnd size k - k * maxFileBlock := by
  rw [sendSize_eq hk]
  unfold sendCount rangeEnd
  rw [maxFileBlock_eq] at *
  omega

/-- What is sent is the file exactly if the last attempt at every range takes all of it. -/
theorem sentWhole_iff {s : PutLoop} (h : SentUpTo size net (rangeCount (intOfSize size)) s) :
    SentWhole size s.log ↔ TakesAll size net := by
  constructor
  · intro hwhole
    have hattempt : ∀ k, k * maxFileBlock < size → lastAttempt (intOfSize size) net k =
        ⟨⟨(k * maxFileBlock : ℕ), (rangeEnd size k : ℤ) - 1, size⟩,
          some (k * maxFileBlock, rangeEnd size k)⟩ := by
      intro k hk
      obtain ⟨attempts, hlog, hlast⟩ := hwhole k hk
      obtain ⟨hlt, -⟩ := List.getElem?_eq_some_iff.mp hlog
      obtain ⟨attempts', hlog', hlast'⟩ := h.log k (h.length ▸ hlt)
      rw [hlog, Option.some_inj] at hlog'
      rw [← hlog', hlast, Option.some_inj] at hlast'
      exact hlast'.symm
    refine ⟨?_, fun k hk => ?_⟩
    · rcases Nat.eq_zero_or_pos size with rfl | hpos
      · decide
      · have hfirst := hattempt 0 (by rwa [Nat.zero_mul])
        simp only [lastAttempt, Attempt.mk.injEq, RangeHeader.mk.injEq] at hfirst
        exact intOfSize_eq_iff.mp hfirst.1.2.2
    · have hsent := congrArg Attempt.sent (hattempt k hk)
      rw [lastAttempt] at hsent
      cases houtcome : PutfileEnv.outcome net k with
      | error => simp [houtcome] at hsent
      | takes n =>
        refine ⟨n, rfl, ?_⟩
        have hbytes : sentBytes (intOfSize size) net k ≤ n := by
          rw [sentBytes, houtcome]
          exact min_le_left _ _
        simp only [houtcome, reduceCtorEq, if_false, Option.some_inj, Prod.mk.injEq] at hsent
        omega
  · rintro ⟨hsize, hall⟩ k hk
    have hint : intOfSize size = size := intOfSize_eq_iff.mpr hsize
    have hbytes : ∀ j, j * maxFileBlock < size → PutfileEnv.outcome net j ≠ .error ∧
        sentBytes size net j = rangeEnd size j - j * maxFileBlock := by
      intro j hj
      obtain ⟨n, hn, hle⟩ := hall j hj
      have hcount : sentBytes size net j = min n (sendCount (sendSize size j)) := by rw [sentBytes, hn]
      rw [hn, hcount, sendCount_eq hj, min_eq_right hle]
      exact ⟨SendOutcome.noConfusion, rfl⟩
    have hfrom : ∀ j, j * maxFileBlock < size → sentFrom size net j = j * maxFileBlock := by
      intro j
      induction j with
      | zero => exact fun _ => by simp [sentFrom]
      | succ j ih =>
        intro hj
        have hlast : j * maxFileBlock < size := (Nat.mul_le_mul_right _ (Nat.le_succ j)).trans_lt hj
        have hnext : sentFrom size net (j + 1) = sentFrom size net j + sentBytes size net j := Finset.sum_range_succ _ _
        have hend : rangeEnd size j = (j + 1) * maxFileBlock := min_eq_left hj.le
        rw [hnext, ih hlast, (hbytes j hlast).2, hend, Nat.succ_mul]
        omega
    have hcount : k < rangeCount (intOfSize size) := by
      rw [hint, rangeCount]
      rw [maxFileBlock_eq] at *
      omega
    obtain ⟨attempts, hlog, hlast⟩ := h.log k hcount
    obtain ⟨hne, hsent⟩ := hbytes k hk
    have hend : k * maxFileBlock ≤ rangeEnd size k := by
      unfold rangeEnd
      rw [maxFileBlock_eq] at *
      omega
    refine ⟨attempts, hlog, ?_⟩
    rw [hlast, lastAttempt, hint, if_neg hne, hfrom k hk, hsent, sendSize_eq hk, Nat.add_sub_cancel' hend]
    push_cast [Nat.cast_sub hend]
    simp

end Sound

section Reached

variable {env : PutfileEnv} {webPath key filePath : List Char} {size : ℕ}

/-- The parameters are not empty, the URL can be parsed and the host found. -/
def Reaches (env : PutfileEnv) (webPath key filePath : List Char) : Prop :=
  ¬ (webPath = [] ∨ key = [] ∨ filePath = []) ∧ env.uriParsed = true ∧ env.hostFound = true

theorem log_result (size : ℕ) (s : PutLoop) : (s.result size).2.2 = s.log := rfl

theorem result_ok_iff (size : ℕ) (s : PutLoop) : (s.result size).1 = .ok ↔ ¬ s.sz < 0 := by
  by_cases hneg : s.sz < 0
  · simp [PutLoop.result, hneg]
  · simp [PutLoop.result, hneg]

theorem putfile_reached (hopened : env.opened = some size) (h : Reaches env webPath key filePath) :
    putfile env webPath key filePath = (putLoop size env.net).result size := by
  obtain ⟨hparams, huri, hhost⟩ := h
  simp only [putfile, if_neg hparams, if_pos huri, hopened, if_pos hhost]
  rfl

theorem reaches_of_ok (hok : (putfile env webPath key filePath).1 = .ok) :
    (∃ size, env.opened = some size) ∧ Reaches env webPath key filePath := by
  by_cases hparams : webPath = [] ∨ key = [] ∨ filePath = []
  · simp [putfile, hparams] at hok
  · by_cases huri : env.uriParsed = true
    · cases hopened : env.opened with
      | none => simp [putfile, hparams, huri, hopened] at hok
      | some size =>
        by_cases hhost : env.hostFound = true
        · exact ⟨⟨size, rfl⟩, hparams, huri, hhost⟩
        · simp [putfile, hparams, huri, hopened, hhost] at hok
    · simp [putfile, hparams, huri] at hok

end Reached

/-- Success is reported for whole files only exactly if, where the loop is reached at all, the last attempt at
every range takes all of it, or the last range has three bytes, or the failed ranges outnumber the bytes. -/
theorem reportsSoundly_iff (env : PutfileEnv) (webPath key filePath : List Char) :
    ReportsSoundly env webPath key filePath ↔
      ∀ size, env.opened = some size → Reaches env webPath key filePath →
        TakesAll size env.net ∨ (0 < intOfSize size ∧ intOfSize size % maxFileBlock = 3) ∨
          bytesTaken (intOfSize size) env.net < failures (intOfSize size) env.net := by
  constructor
  · intro h size hopened hreaches
    obtain ⟨hsent, hsz⟩ := putLoop_spec size env.net
    by_cases hneg : (putLoop size env.net).sz < 0
    · exact .inr (hsz.mp hneg)
    · obtain ⟨size', hopened', hwhole⟩ := h (by rwa [putfile_reached hopened hreaches, result_ok_iff])
      obtain rfl : size = size' := Option.some.inj (hopened.symm.trans hopened')
      rw [putfile_reached hopened hreaches, log_result, sentWhole_iff hsent] at hwhole
      exact .inl hwhole
  · intro h hok
    obtain ⟨⟨size, hopened⟩, hreaches⟩ := reaches_of_ok hok
    obtain ⟨hsent, hsz⟩ := putLoop_spec size env.net
    rw [putfile_reached hopened hreaches, result_ok_iff] at hok
    refine ⟨size, hopened, ?_⟩
    rw [putfile_reached hopened hreaches, log_result, sentWhole_iff hsent]
    exact (h size hopened hreaches).resolve_right fun herr => hok (hsz.mpr herr)

/-- A file of two bytes, of which the kernel takes one. -/
def shortSend : PutfileEnv := ⟨true, some 2, true, fun _ _ => .takes 1⟩

/-- It is reported as put. -/
theorem shortSend_reported : ¬ ReportsSoundly shortSend "http://h/f".toList "k".toList "f".toList := by
  intro h
  obtain ⟨hsent, hsz⟩ := putLoop_spec 2 shortSend.net
  have hint : intOfSize 2 = 2 := intOfSize_eq_iff.mpr (by decide)
  have hopened : shortSend.opened = some 2 := rfl
  have hreaches : Reaches shortSend "http://h/f".toList "k".toList "f".toList := ⟨by decide, rfl, rfl⟩
  have hpos : ¬ (putLoop 2 shortSend.net).sz < 0 := by
    rw [hsz, hint]
    decide
  obtain ⟨size, hsize, hwhole⟩ := h (by rwa [putfile_reached hopened hreaches, result_ok_iff])
  obtain rfl : 2 = size := Option.some.inj hsize
  rw [putfile_reached hopened hreaches, log_result, sentWhole_iff hsent] at hwhole
  obtain ⟨n, hn, hle⟩ := hwhole.2 0 (by decide)
  obtain rfl : 1 = n := SendOutcome.takes.inj hn
  exact absurd hle (by decide)

end Ylem
