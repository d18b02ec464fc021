import Ylem.Lib.Dict
import Ylem.Query.Fsck

/-!
# Counting the findings of fsck

`fsck_log` logs an event, and with every hundredth log id it adds up the events since the last sum into the
settings `fsck_sum_evcount_*`. `cmd_fsck_status` reports these sums plus the events that are in the log and
not summed yet, which it takes to be those above the last hundred and above `fsck_start_maxlogid`, the last
log id at the time of the reset.
-/

namespace Ylem

/-! ### The log -/

/-- The codes of fsck events. -/
inductive Evcode where
  | noPaths | policyViolation | fileMissing | badLength | cantFix | startSearch | foundFid | reReplicate
  deriving DecidableEq

def Evcode.text : Evcode → Text
  | noPaths => "NOPA".toList
  | policyViolation => "POVI".toList
  | fileMissing => "MISS".toList
  | badLength => "BLEN".toList
  | cantFix => "GONE".toList
  | startSearch => "SRCH".toList
  | foundFid => "FOND".toList
  | reReplicate => "REPL".toList

def fsckLogSummarizeEvery : ℕ := 100

/-- A natural number that is stored as a text. -/
def Text.toNat (t : Text) : ℕ := (Text.int t).toNat

@[simp] theorem Text.toNat_decimal (n : ℕ) : (Text.decimal n).toNat = n := by
  rw [Text.toNat, Text.int, Text.numify_decimal]
  simp

namespace FsckStore

variable (st : FsckStore)

/-- `server_setting(…) || 0`. -/
def intSetting (key : Setting) : ℕ := ((st.setting key).getD ['0']).toNat

/-- `max_fsck_logid`. -/
def maxFsckLogid : ℕ := (st.fsckLog.rows.map FsckLogRow.logid).max?.getD 0

/-- `fsck_evcode_counts` of the log ids from `lo` to `hi`. -/
def fsckEvcodeCounts (lo hi : ℕ) : List (Text × ℕ) :=
  let found := (st.fsckLog.rows.filter fun r => lo ≤ r.logid ∧ r.logid ≤ hi).map FsckLogRow.evcode
  found.dedup.map fun ev => (ev, found.count ev)

def incrServerSetting (key : Setting) (val : ℕ) : FsckStore :=
  if val = 0 then st
  else match st.setting key with
    | some old => st.setSetting key (some (Text.decimal (old.toNat + val)))
    | none => st.setSetting key (some (Text.decimal val))

/-- `incr_server_setting` for every one of some counts. -/
def addEvcounts (counts : List (Text × ℕ)) : FsckStore :=
  counts.foldl (fun st ct => st.incrServerSetting (.fsckSumEvcount ct.1) ct.2) st

/-- `fsck_log`. -/
def logFsckEvent (utime fid : ℕ) (evcode : Text) (devid : Option ℕ) : FsckStore :=
  let (logid, st) := (FsckStmt.insertFsckLog utime fid evcode devid).run st
  -- sum up every so often
  if logid % fsckLogSummarizeEvery = 0 then
    let lo := max (st.intSetting .fsckStartMaxlogid) (logid - fsckLogSummarizeEvery) + 1
    st.addEvcounts (st.fsckEvcodeCounts lo logid)
  else st

/-! ### The status -/

/-- The sums in the settings. -/
def evcountSums : List (Text × ℕ) :=
  st.serverSettings.rows.filterMap fun r => match r.1 with
    | .fsckSumEvcount ev => some (ev, r.2.toNat)
    | _ => none

/-- The counts of the events that are not summed yet. -/
def liveCounts : List (Text × ℕ) :=
  let maxLogid := st.maxFsckLogid
  let minLogid := max (st.intSetting .fsckStartMaxlogid) (maxLogid - maxLogid % fsckLogSummarizeEvery) + 1
  st.fsckEvcodeCounts minLogid maxLogid

end FsckStore

/-- `$ret->{"num_$ev"} += $ct` for the entries of two lists. -/
def addCounts (sums live : List (Text × ℕ)) : List (Text × ℕ) :=
  ((sums ++ live).map Prod.fst).dedup.map fun ev => (ev, (sums.lookup ev).getD 0 + (live.lookup ev).getD 0)

/-- `num_EV`. -/
def numName (ev : Text) : Text := "num_".toList ++ ev

/-- `cmd_fsck_status`; it only reads. -/
def cmdFsckStatus (now : ℕ) (st : FsckStore) : Outcome :=
  let intss := fun key => if Text.truthy (st.setting key) then (st.setting key).getD [] else ['0']
  .ok <|
    [("running".toList, if Text.truthy (st.setting .fsckHost) then ['1'] else ['0']),
      ("host".toList, (st.setting .fsckHost).getD []),
      ("max_fid_checked".toList, intss .fsckHighestFidChecked),
      ("policy_only".toList, intss .fsckOptPolicyOnly),
      ("end_fid".toList, intss .fsckFidAtEnd),
      ("start_time".toList, intss .fsckStartTime),
      ("stop_time".toList, intss .fsckStopTime),
      ("current_time".toList, Text.decimal now),
      ("max_logid".toList, Text.decimal st.maxFsckLogid)] ++
    (addCounts st.evcountSums st.liveCounts).map fun ct => (numName ct.1, Text.decimal ct.2)

/-- The count that a status reports for an event code, `0` where it has none. -/
def reportedCount (o : Outcome) (ev : Evcode) : ℕ :=
  (((o.okArgs.getD []).lookup (numName ev.text)).getD ['0']).toNat

/-! ### Sums -/

namespace FsckStore

variable {st : FsckStore} {key key' : Setting} {val : Option Text} {ev : Text} {lo hi : ℕ}

theorem intSetting_setSetting_self (n : ℕ) :
    (st.setSetting key (some (Text.decimal n))).intSetting key = n := by
  rw [intSetting, setting_setSetting_self, Option.getD_some, Text.toNat_decimal]

theorem intSetting_setSetting_ne (h : key' ≠ key) :
    (st.setSetting key val).intSetting key' = st.intSetting key' := by
  rw [intSetting, setting_setSetting_ne h, intSetting]

theorem intSetting_incrServerSetting_self (n : ℕ) :
    (st.incrServerSetting key n).intSetting key = st.intSetting key + n := by
  unfold incrServerSetting
  split_ifs with hzero
  · rw [hzero, Nat.add_zero]
  · cases hold : st.setting key with
    | none =>
      have hnone : st.intSetting key = 0 := by
        rw [intSetting, hold]
        exact Text.toNat_decimal 0
      simp only
      rw [intSetting_setSetting_self, hnone, Nat.zero_add]
    | some old =>
      simp only
      rw [intSetting_setSetting_self, intSetting, hold, Option.getD_some]

theorem intSetting_incrServerSetting_ne {n : ℕ} (h : key' ≠ key) :
    (st.incrServerSetting key n).intSetting key' = st.intSetting key' := by
  unfold incrServerSetting
  split_ifs
  · rfl
  · split <;> exact intSetting_setSetting_ne h

@[simp] theorem fsckLog_incrServerSetting {n : ℕ} : (st.incrServerSetting key n).fsckLog = st.fsckLog := by
  unfold incrServerSetting
  split_ifs
  · rfl
  · split <;> exact fsckLog_setSetting

@[simp] theorem nextLogid_incrServerSetting {n : ℕ} :
    (st.incrServerSetting key n).nextLogid = st.nextLogid := by
  unfold incrServerSetting
  split_ifs
  · rfl
  · split <;> exact nextLogid_setSetting

theorem fsckLog_addEvcounts (counts : List (Text × ℕ)) : (st.addEvcounts counts).fsckLog = st.fsckLog := by
  induction counts generalizing st with
  | nil => rfl
  | cons ct counts ih =>
    have hrest : ((st.incrServerSetting (.fsckSumEvcount ct.1) ct.2).addEvcounts counts).fsckLog = _ := ih
    exact hrest.trans fsckLog_incrServerSetting

theorem nextLogid_addEvcounts (counts : List (Text × ℕ)) :
    (st.addEvcounts counts).nextLogid = st.nextLogid := by
  induction counts generalizing st with
  | nil => rfl
  | cons ct counts ih =>
    have hrest : ((st.incrServerSetting (.fsckSumEvcount ct.1) ct.2).addEvcounts counts).nextLogid = _ := ih
    exact hrest.trans nextLogid_incrServerSetting

/-- The sums grow by the counts. -/
theorem intSetting_addEvcounts {counts : List (Text × ℕ)} (h : DistinctKeys counts) (ev : Text) :
    (st.addEvcounts counts).intSetting (.fsckSumEvcount ev) =
      st.intSetting (.fsckSumEvcount ev) + (counts.lookup ev).getD 0 := by
  induction counts generalizing st with
  | nil => rfl
  | cons ct counts ih =>
    obtain ⟨ev', n⟩ := ct
    rw [DistinctKeys, List.map_cons, List.nodup_cons] at h
    have hrest : ((st.incrServerSetting (.fsckSumEvcount ev') n).addEvcounts counts).intSetting
        (.fsckSumEvcount ev) = _ := ih h.2
    refine hrest.trans ?_
    rw [List.lookup_cons]
    by_cases heq : ev = ev'
    · subst heq
      have hnone : counts.lookup ev = none := lookup_eq_none_iff_not_mem.mpr h.1
      rw [intSetting_incrServerSetting_self, hnone]
      simp
    · have hkey : Setting.fsckSumEvcount ev ≠ .fsckSumEvcount ev' := fun h => heq (by injection h)
      rw [intSetting_incrServerSetting_ne hkey, beq_eq_false_iff_ne.mpr heq]

/-! ### The counts of the log -/

theorem distinctKeys_fsckEvcodeCounts : DistinctKeys (st.fsckEvcodeCounts lo hi) := by
  rw [DistinctKeys, fsckEvcodeCounts, List.map_map]
  simpa [Function.comp_def] using List.nodup_dedup _

theorem lookup_fsckEvcodeCounts (ev : Text) : ((st.fsckEvcodeCounts lo hi).lookup ev).getD 0 =
    ((st.fsckLog.rows.filter fun r => lo ≤ r.logid ∧ r.logid ≤ hi).map FsckLogRow.evcode).count ev := by
  set found := (st.fsckLog.rows.filter fun r => lo ≤ r.logid ∧ r.logid ≤ hi).map FsckLogRow.evcode with hfound
  by_cases hmem : ev ∈ found
  · have hlookup : (st.fsckEvcodeCounts lo hi).lookup ev = some (found.count ev) :=
      lookup_map_name Function.injective_id (fun ev => found.count ev) (List.mem_dedup.mpr hmem)
    rw [hlookup, Option.getD_some]
  · have hlookup : (st.fsckEvcodeCounts lo hi).lookup ev = none :=
      lookup_map_name_eq_none Function.injective_id (fun ev => found.count ev) (mt List.mem_dedup.mp hmem)
    rw [hlookup, Option.getD_none, List.count_eq_zero.mpr hmem]

theorem le_maxFsckLogid {r : FsckLogRow} (h : r ∈ st.fsckLog.rows) : r.logid ≤ st.maxFsckLogid := by
  have hmem : r.logid ∈ st.fsckLog.rows.map FsckLogRow.logid := List.mem_map_of_mem h
  cases hmax : (st.fsckLog.rows.map FsckLogRow.logid).max? with
  | none =>
    rw [List.max?_eq_none_iff] at hmax
    rw [hmax] at hmem
    exact absurd hmem List.not_mem_nil
  | some m =>
    rw [maxFsckLogid, hmax, Option.getD_some]
    exact (List.max?_eq_some_iff.mp hmax).2 _ hmem

/-- The log id up to which events count as summed. -/
def summedUpTo (st : FsckStore) : ℕ :=
  max (st.intSetting .fsckStartMaxlogid) (st.maxFsckLogid - st.maxFsckLogid % fsckLogSummarizeEvery)

/-- The events of a code above a log id. -/
def eventsAbove (st : FsckStore) (logid : ℕ) (ev : Text) : ℕ :=
  ((st.fsckLog.rows.filter fun r => logid < r.logid).map FsckLogRow.evcode).count ev

theorem lookup_liveCounts (ev : Text) :
    (st.liveCounts.lookup ev).getD 0 = st.eventsAbove st.summedUpTo ev := by
  refine (lookup_fsckEvcodeCounts ev).trans ?_
  rw [eventsAbove]
  congr 2
  refine List.filter_congr fun r hr => ?_
  have hle := le_maxFsckLogid hr
  rw [decide_eq_decide]
  exact ⟨fun h => h.1, fun h => ⟨h, hle⟩⟩

theorem lookup_evcountSums (ev : Text) :
    (st.evcountSums.lookup ev).getD 0 = st.intSetting (.fsckSumEvcount ev) := by
  have hfind : ∀ rows : List (Setting × Text),
      (rows.filterMap fun r => match r.1 with
        | .fsckSumEvcount ev => some (ev, r.2.toNat)
        | _ => none).lookup ev =
      (rows.find? fun r => r.1 = .fsckSumEvcount ev).map fun r => r.2.toNat := by
    intro rows
    induction rows with
    | nil => rfl
    | cons r rows ih =>
      obtain ⟨key, val⟩ := r
      cases key with
      | fsckSumEvcount ev' =>
        rw [List.filterMap_cons, List.find?_cons, List.lookup_cons]
        by_cases heq : ev = ev'
        · subst heq
          simp
        · have hne : ¬ Setting.fsckSumEvcount ev' = .fsckSumEvcount ev := fun h => heq (by injection h with h; exact h.symm)
          rw [beq_eq_false_iff_ne.mpr heq, ih]
          simp [hne]
      | _ => simpa using ih
  rw [evcountSums, hfind, intSetting, setting, Table.find?]
  cases st.serverSettings.rows.find? fun r => r.1 = .fsckSumEvcount ev with
  | none => exact (Text.toNat_decimal 0).symm
  | some r => rfl

end FsckStore

/-! ### What a status reports -/

theorem Evcode.text_injective : Function.Injective Evcode.text := by
  intro ev ev' h
  cases ev <;> cases ev' <;> first | rfl | exact absurd h (by decide)

theorem numName_injective : Function.Injective numName := fun _ _ h => List.append_cancel_left h

/-- A status reports the sum of a code and the events of the log that are not summed yet. -/
theorem reportedCount_status (now : ℕ) (st : FsckStore) (ev : Evcode) :
    reportedCount (cmdFsckStatus now st) ev =
      st.intSetting (.fsckSumEvcount ev.text) + st.eventsAbove st.summedUpTo ev.text := by
  have hfixed : ∀ fixed : List (Text × Text), (∀ k ∈ fixed.map Prod.fst, k.head? ≠ some 'n') →
      fixed.lookup (numName ev.text) = none := fun fixed h =>
    lookup_eq_none_iff_not_mem.mpr fun hmem => h _ hmem rfl
  rw [reportedCount, cmdFsckStatus, Outcome.okArgs]
  simp only [Outcome.ok, Option.getD_some]
  rw [List.lookup_append, hfixed _ (by simp only [List.map_cons, List.map_nil]; decide), Option.none_or, addCounts, List.map_map]
  rw [show ((fun ct : Text × ℕ => (numName ct.1, Text.decimal ct.2)) ∘ fun ev : Text =>
      (ev, (st.evcountSums.lookup ev).getD 0 + (st.liveCounts.lookup ev).getD 0)) = fun ev : Text =>
      (numName ev, Text.decimal ((st.evcountSums.lookup ev).getD 0 + (st.liveCounts.lookup ev).getD 0)) from rfl]
  rw [← FsckStore.lookup_evcountSums, ← FsckStore.lookup_liveCounts]
  by_cases hmem : ev.text ∈ ((st.evcountSums ++ st.liveCounts).map Prod.fst).dedup
  · rw [lookup_map_name numName_injective _ hmem, Option.getD_some, Text.toNat_decimal]
  · -- a code that is in neither list
    rw [lookup_map_name_eq_none numName_injective _ hmem, Option.getD_none]
    rw [List.mem_dedup, List.map_append, List.mem_append, not_or] at hmem
    rw [lookup_eq_none_iff_not_mem.mpr hmem.1, lookup_eq_none_iff_not_mem.mpr hmem.2]
    exact Text.toNat_decimal 0

end Ylem
