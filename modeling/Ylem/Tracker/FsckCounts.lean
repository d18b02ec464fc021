import Ylem.Lib.Dict
import Ylem.Lib.Folds
import Ylem.Query.FsckStatus
import Ylem.Tracker.FsckCoverage

/-!
# The counts of fsck events

The status of fsck should report how many events of each code were logged since the counters were last reset.
An event is counted in a setting once its hundred is full, and in the log before that (`reportedCount_status`).
Clearing the log therefore loses the events that are not summed yet; and where it makes the log ids start
again, as `TRUNCATE` does, events are passed over as long as their ids do not exceed `fsck_start_maxlogid`,
which the clearing leaves as it was. Nothing else makes a count wrong (`counts_exact_iff`).
-/

namespace Ylem

/-! ### Requests -/

inductive FsckRequest where
  | command (c : FsckCommand)
  | status (now : ℕ)
  /-- the worker logs an event -/
  | event (utime fid : ℕ) (evcode : Evcode) (devid : Option ℕ)
  /-- the worker writes its position -/
  | position (fid : Text)
  /-- anything else that happens to the tables -/
  | other (s : Stmt)

/-- The database, and the events that were logged since the last reset of the counters. -/
structure FsckTally where
  store : FsckStore
  logged : List Evcode

/-- A start takes the run for completed, and resets the counters. -/
def FsckStore.resetsOnStart (st : FsckStore) : Bool :=
  fsckCompleted ((intss .fsckHighestFidChecked).exec st).1 ((intss .fsckFidAtEnd).exec st).1

namespace FsckTally

/-- One request. `truncate` says whether clearing the log makes the log ids start again, as on MySQL. -/
def step (truncate : Bool) (t : FsckTally) : FsckRequest → FsckTally
  | .command (.start hostname now) =>
    ⟨((cmdFsckStart hostname now).exec t.store).2, if t.store.resetsOnStart then [] else t.logged⟩
  | .command (.stop now) => { t with store := ((cmdFsckStop now).exec t.store).2 }
  | .command (.reset args) => ⟨((cmdFsckReset args).exec t.store).2, []⟩
  | .command .clearlog =>
    { t with store := if truncate then (cmdFsckClearlog.exec t.store).2 else { t.store with fsckLog := .empty } }
  | .status _ => t
  | .event utime fid evcode devid =>
    ⟨t.store.logFsckEvent utime fid evcode.text devid, t.logged ++ [evcode]⟩
  | .position fid => { t with store := t.store.setSetting .fsckHighestFidChecked (some fid) }
  | .other s => { t with store := { t.store with db := (s.run t.store.db).2 } }

/-- A new database. -/
def start : FsckTally := ⟨.fresh, []⟩

/-- The status reports the events logged since the reset. -/
def Exact (t : FsckTally) : Prop :=
  ∀ now ev, reportedCount (cmdFsckStatus now t.store) ev = t.logged.count ev

/-- No event of the log that is not summed gets lost, and a new event gets an id above the start of the run. -/
def Harmless (t : FsckTally) : FsckRequest → Prop
  | .command .clearlog => ∀ row ∈ t.store.fsckLog.rows, row.logid ≤ t.store.summedUpTo
  | .event .. => t.store.intSetting .fsckStartMaxlogid < t.store.nextLogid
  | _ => True

end FsckTally

/-! ### The log ids -/

namespace FsckStore

variable {st : FsckStore} {ev : Text}

/-- The log ids ascend, and the last event of the log has got the last of them. -/
structure LogOk (st : FsckStore) : Prop where
  pos : 0 < st.nextLogid
  lt_next : ∀ r ∈ st.fsckLog.rows, r.logid < st.nextLogid
  last : st.fsckLog.rows ≠ [] → st.maxFsckLogid + 1 = st.nextLogid

theorem LogOk.of_empty (hpos : 0 < st.nextLogid) (h : st.fsckLog.rows = []) : LogOk st where
  pos := hpos
  lt_next _ hr := absurd (h ▸ hr) List.not_mem_nil
  last hne := absurd h hne

/-- The log is all that it depends on. -/
theorem LogOk.congr {st' : FsckStore} (h : LogOk st) (hlog : st'.fsckLog = st.fsckLog)
    (hnext : st'.nextLogid = st.nextLogid) : LogOk st' := by
  have hmax : st'.maxFsckLogid = st.maxFsckLogid := by rw [maxFsckLogid, hlog, maxFsckLogid]
  exact ⟨by rw [hnext]; exact h.pos, by rw [hlog, hnext]; exact h.lt_next, by rw [hlog, hnext, hmax]; exact h.last⟩

theorem eventsAbove_congr {st' : FsckStore} (hlog : st'.fsckLog = st.fsckLog) (n : ℕ) :
    st'.eventsAbove n ev = st.eventsAbove n ev := by
  rw [eventsAbove, hlog, eventsAbove]

theorem eventsAbove_eq_zero {n : ℕ} (h : ∀ r ∈ st.fsckLog.rows, r.logid ≤ n) : st.eventsAbove n ev = 0 := by
  rw [eventsAbove, List.filter_eq_nil_iff.mpr fun r hr => by simpa using h r hr]
  rfl

theorem eventsAbove_pos {n : ℕ} {r : FsckLogRow} (hr : r ∈ st.fsckLog.rows) (h : n < r.logid) :
    0 < st.eventsAbove n r.evcode :=
  List.count_pos_iff.mpr (List.mem_map_of_mem (List.mem_filter.mpr ⟨hr, decide_eq_true h⟩))

theorem LogOk.eventsAbove_summedUpTo (h : LogOk st) (ev : Text) :
    st.eventsAbove st.summedUpTo ev = st.eventsAbove (max (st.intSetting .fsckStartMaxlogid)
      ((st.nextLogid - 1) - (st.nextLogid - 1) % fsckLogSummarizeEvery)) ev := by
  by_cases hrows : st.fsckLog.rows = []
  · rw [eventsAbove, eventsAbove, hrows]
    rfl
  · have hmax : st.maxFsckLogid = st.nextLogid - 1 := by
      have hlast := h.last hrows
      omega
    rw [summedUpTo, hmax]

/-! ### A new event -/

/-- The store with the new row. -/
def withLogRow (st : FsckStore) (utime fid : ℕ) (evcode : Text) (devid : Option ℕ) : FsckStore :=
  ((FsckStmt.insertFsckLog utime fid evcode devid).run st).2

section NewEvent

variable {utime fid : ℕ} {evcode : Text} {devid : Option ℕ}

theorem rows_withLogRow (h : LogOk st) : (st.withLogRow utime fid evcode devid).fsckLog.rows =
    st.fsckLog.rows ++ [⟨st.nextLogid, utime, fid, evcode, devid⟩] := by
  refine Table.rows_insertIgnore_of_not_has fun hhas => ?_
  obtain ⟨r, hr, hlogid⟩ := Table.has_iff.mp hhas
  have hlt := h.lt_next r hr
  rw [hlogid] at hlt
  exact lt_irrefl _ hlt

theorem maxFsckLogid_withLogRow (h : LogOk st) :
    (st.withLogRow utime fid evcode devid).maxFsckLogid = st.nextLogid := by
  have hmax : ((st.withLogRow utime fid evcode devid).fsckLog.rows.map FsckLogRow.logid).max? =
      some st.nextLogid := by
    rw [List.max?_eq_some_iff, rows_withLogRow h, List.map_append, List.map_singleton]
    refine ⟨List.mem_append_right _ (List.mem_singleton_self _), fun n hn => ?_⟩
    rcases List.mem_append.mp hn with hn | hn
    · obtain ⟨r, hr, rfl⟩ := List.mem_map.mp hn
      exact (h.lt_next r hr).le
    · exact (List.mem_singleton.mp hn).le
  rw [maxFsckLogid, hmax, Option.getD_some]

theorem LogOk.withLogRow (h : LogOk st) : LogOk (st.withLogRow utime fid evcode devid) where
  pos := Nat.succ_pos _
  lt_next r hr := by
    rw [rows_withLogRow h] at hr
    have hle : r.logid ≤ st.nextLogid := by
      rcases List.mem_append.mp hr with hr | hr
      · exact (h.lt_next r hr).le
      · rw [List.mem_singleton.mp hr]
    exact Nat.lt_succ_of_le hle
  last _ := by
    rw [maxFsckLogid_withLogRow h]
    rfl

theorem eventsAbove_withLogRow (h : LogOk st) (n : ℕ) (ev : Text) :
    (st.withLogRow utime fid evcode devid).eventsAbove n ev =
      st.eventsAbove n ev + if n < st.nextLogid ∧ evcode = ev then 1 else 0 := by
  rw [eventsAbove, rows_withLogRow h, List.filter_append, List.map_append, List.count_append, eventsAbove]
  congr 1
  by_cases hn : n < st.nextLogid
  · by_cases hev : evcode = ev <;> simp [hn, hev]
  · simp [hn]

theorem reported_logFsckEvent (h : LogOk st) (ev : Text) :
    (st.logFsckEvent utime fid evcode devid).intSetting (.fsckSumEvcount ev) +
        (st.logFsckEvent utime fid evcode devid).eventsAbove
          (st.logFsckEvent utime fid evcode devid).summedUpTo ev =
      st.intSetting (.fsckSumEvcount ev) + st.eventsAbove st.summedUpTo ev +
        if st.intSetting .fsckStartMaxlogid < st.nextLogid ∧ evcode = ev then 1 else 0 := by
  set next := st.withLogRow utime fid evcode devid with hnext
  have hpos := h.pos
  have hstart : next.intSetting .fsckStartMaxlogid = st.intSetting .fsckStartMaxlogid := rfl
  have hmax : next.maxFsckLogid = st.nextLogid := maxFsckLogid_withLogRow h
  have hlog : st.logFsckEvent utime fid evcode devid =
      if st.nextLogid % fsckLogSummarizeEvery = 0 then
        next.addEvcounts (next.fsckEvcodeCounts (max (next.intSetting .fsckStartMaxlogid)
          (st.nextLogid - fsckLogSummarizeEvery) + 1) st.nextLogid)
      else next := rfl
  have hnew : ∀ n, next.eventsAbove n ev = st.eventsAbove n ev + if n < st.nextLogid ∧ evcode = ev then 1 else 0 :=
    fun n => eventsAbove_withLogRow h n ev
  rw [h.eventsAbove_summedUpTo, hlog]
  by_cases hfull : st.nextLogid % fsckLogSummarizeEvery = 0
  · -- the hundred is full, and all of it goes into the sums
    have hblock : (st.nextLogid - 1) - (st.nextLogid - 1) % fsckLogSummarizeEvery =
        st.nextLogid - fsckLogSummarizeEvery := by
      rw [fsckLogSummarizeEvery] at hfull ⊢
      omega
    set lo := max (st.intSetting .fsckStartMaxlogid) (st.nextLogid - fsckLogSummarizeEvery) with hlo
    set counts := next.fsckEvcodeCounts (lo + 1) st.nextLogid with hcounts
    have hcount : (counts.lookup ev).getD 0 = next.eventsAbove lo ev := by
      refine (lookup_fsckEvcodeCounts ev).trans ?_
      rw [eventsAbove]
      congr 2
      refine List.filter_congr fun r hr => ?_
      have hle : r.logid ≤ st.nextLogid := hmax ▸ le_maxFsckLogid hr
      rw [decide_eq_decide]
      exact ⟨fun h => h.1, fun h => ⟨h, hle⟩⟩
    have hrest : (next.addEvcounts counts).eventsAbove (next.addEvcounts counts).summedUpTo ev = 0 := by
      refine eventsAbove_eq_zero fun r hr => ?_
      rw [fsckLog_addEvcounts] at hr
      have hle : r.logid ≤ st.nextLogid := hmax ▸ le_maxFsckLogid hr
      have hmax' : (next.addEvcounts counts).maxFsckLogid = st.nextLogid := by
        rw [maxFsckLogid, fsckLog_addEvcounts, ← maxFsckLogid, hmax]
      rw [summedUpTo, hmax', hfull, Nat.sub_zero]
      exact hle.trans (le_max_right _ _)
    have habove : lo < st.nextLogid ↔ st.intSetting .fsckStartMaxlogid < st.nextLogid := by
      rw [hlo, max_lt_iff, fsckLogSummarizeEvery]
      exact ⟨fun h => h.1, fun h => ⟨h, by omega⟩⟩
    have hsum : next.intSetting (.fsckSumEvcount ev) = st.intSetting (.fsckSumEvcount ev) := rfl
    rw [if_pos hfull, hstart, ← hlo, ← hcounts, intSetting_addEvcounts distinctKeys_fsckEvcodeCounts, hcount, hrest,
      hblock, ← hlo, hnew, hsum, Nat.add_zero, Nat.add_assoc]
    simp only [habove]
  · have hblock : (st.nextLogid - 1) - (st.nextLogid - 1) % fsckLogSummarizeEvery =
        st.nextLogid - st.nextLogid % fsckLogSummarizeEvery := by
      rw [fsckLogSummarizeEvery] at hfull ⊢
      omega
    have habove : next.summedUpTo < st.nextLogid ↔ st.intSetting .fsckStartMaxlogid < st.nextLogid := by
      rw [summedUpTo, hmax, hstart, max_lt_iff]
      exact ⟨fun h => h.1, fun h => ⟨h, by omega⟩⟩
    have hsummed : next.summedUpTo = max (st.intSetting .fsckStartMaxlogid)
        (st.nextLogid - st.nextLogid % fsckLogSummarizeEvery) := by
      rw [summedUpTo, hmax, hstart]
    have hsum : next.intSetting (.fsckSumEvcount ev) = st.intSetting (.fsckSumEvcount ev) := rfl
    rw [if_neg hfull, hnew, hblock, ← hsummed, hsum, Nat.add_assoc]
    simp only [habove]

theorem LogOk.logFsckEvent (h : LogOk st) : LogOk (st.logFsckEvent utime fid evcode devid) := by
  have hlog : st.logFsckEvent utime fid evcode devid =
      if st.nextLogid % fsckLogSummarizeEvery = 0 then
        (st.withLogRow utime fid evcode devid).addEvcounts
          ((st.withLogRow utime fid evcode devid).fsckEvcodeCounts
            (max ((st.withLogRow utime fid evcode devid).intSetting .fsckStartMaxlogid)
              (st.nextLogid - fsckLogSummarizeEvery) + 1) st.nextLogid)
      else st.withLogRow utime fid evcode devid := rfl
  rw [hlog]
  split_ifs
  · exact h.withLogRow.congr (fsckLog_addEvcounts _) (nextLogid_addEvcounts _)
  · exact h.withLogRow

theorem rows_logFsckEvent (h : LogOk st) : (st.logFsckEvent utime fid evcode devid).fsckLog.rows =
    st.fsckLog.rows ++ [⟨st.nextLogid, utime, fid, evcode, devid⟩] := by
  rw [← rows_withLogRow h]
  show (if st.nextLogid % fsckLogSummarizeEvery = 0 then _ else _ : FsckStore).fsckLog.rows = _
  split_ifs
  · rw [fsckLog_addEvcounts]
    rfl
  · rfl

end NewEvent

end FsckStore

/-! ### The other requests -/

/-- The settings that counts depend on. -/
def Setting.isCount : Setting → Bool
  | .fsckSumEvcount _ | .fsckStartMaxlogid => true
  | _ => false

namespace FsckStore

variable {st st' st'' : FsckStore} {key : Setting} {val : Option Text}

/-- Nothing has changed that counts depend on. -/
structure SameCounts (st st' : FsckStore) : Prop where
  log : st'.fsckLog = st.fsckLog
  next : st'.nextLogid = st.nextLogid
  setting : ∀ key, key.isCount = true → st'.intSetting key = st.intSetting key

theorem SameCounts.trans (h : SameCounts st st') (h' : SameCounts st' st'') : SameCounts st st'' where
  log := h'.log.trans h.log
  next := h'.next.trans h.next
  setting key hkey := (h'.setting key hkey).trans (h.setting key hkey)

theorem SameCounts.setSetting (st : FsckStore) (key : Setting) (val : Option Text) (h : key.isCount = false) :
    SameCounts st (st.setSetting key val) where
  log := fsckLog_setSetting
  next := nextLogid_setSetting
  setting key' hkey' := intSetting_setSetting_ne fun heq => by
    rw [heq, h] at hkey'
    exact Bool.false_ne_true hkey'

theorem SameCounts.maxFsckLogid (h : SameCounts st st') : st'.maxFsckLogid = st.maxFsckLogid := by
  rw [FsckStore.maxFsckLogid, h.log, FsckStore.maxFsckLogid]

/-- The counters have been reset. -/
structure CountsReset (st st' : FsckStore) : Prop where
  log : st'.fsckLog = st.fsckLog
  next : st'.nextLogid = st.nextLogid
  sum : ∀ ev, st'.intSetting (.fsckSumEvcount ev) = 0
  start : st'.intSetting .fsckStartMaxlogid = st.maxFsckLogid

theorem CountsReset.of_same (h : SameCounts st st') (h' : CountsReset st' st'') : CountsReset st st'' where
  log := h'.log.trans h.log
  next := h'.next.trans h.next
  sum := h'.sum
  start := h'.start.trans h.maxFsckLogid

theorem CountsReset.same (h : CountsReset st st') (h' : SameCounts st' st'') : CountsReset st st'' where
  log := h'.log.trans h.log
  next := h'.next.trans h.next
  sum ev := (h'.setting _ rfl).trans (h.sum ev)
  start := (h'.setting _ rfl).trans h.start

theorem exec_clearSettings (keys : List Setting) (st : FsckStore) :
    let st' := ((clearSettings keys).exec st).2
    st'.fsckLog = st.fsckLog ∧ st'.nextLogid = st.nextLogid ∧
      ∀ key, st'.setting key = if key ∈ keys then none else st.setting key := by
  induction keys generalizing st with
  | nil => exact ⟨rfl, rfl, fun key => (if_neg List.not_mem_nil).symm⟩
  | cons first keys ih =>
    obtain ⟨hlog, hnext, hset⟩ := ih (st.setSetting first none)
    refine ⟨hlog.trans fsckLog_setSetting, hnext.trans nextLogid_setSetting, fun key => (hset key).trans ?_⟩
    by_cases heq : key = first
    · subst heq
      rw [setting_setSetting_self, ite_self, if_pos List.mem_cons_self]
    · rw [setting_setSetting_ne heq]
      simp [heq]

theorem countsReset_doFsckReset (st : FsckStore) : CountsReset st (doFsckReset.exec st).2 := by
  -- the settings before the sums are cleared
  set before := (((st.setSetting .fsckStartTime none).setSetting .fsckStopTime none).setSetting .fsckFidsChecked
    (some ['0'])).setSetting .fsckFidAtEnd
      (((st.db.file.rows.map FileRow.fid).max?).map Text.decimal) with hbefore
  have hsame : SameCounts st before :=
    (((SameCounts.setSetting st .fsckStartTime none rfl).trans (.setSetting _ .fsckStopTime none rfl)).trans
      (.setSetting _ .fsckFidsChecked _ rfl)).trans (.setSetting _ .fsckFidAtEnd _ rfl)
  set keys := (before.serverSettings.rows.map Prod.fst).filter Setting.isSumEvcount with hkeys
  set cleared := ((clearSettings keys).exec before).2 with hcleared
  obtain ⟨hlog, hnext, hset⟩ := exec_clearSettings keys before
  have hexec : (doFsckReset.exec st).2 =
      cleared.setSetting .fsckStartMaxlogid (some (Text.decimal cleared.maxFsckLogid)) := by
    simp only [doFsckReset, FsckProg.exec, Prog.exec_bind]
    rfl
  refine .of_same hsame ⟨?_, ?_, fun ev => ?_, ?_⟩
  · rw [hexec, fsckLog_setSetting]
    exact hlog
  · rw [hexec, nextLogid_setSetting]
    exact hnext
  · have hnone : cleared.setting (.fsckSumEvcount ev) = none := by
      rw [hset]
      split_ifs with hmem
      · rfl
      · -- a sum that is not cleared is not there
        have hrow : before.serverSettings.find? (.fsckSumEvcount ev) = none :=
          Table.find?_eq_none.mpr fun hhas => hmem (List.mem_filter.mpr ⟨hhas, rfl⟩)
        rw [setting, hrow]
        rfl
    rw [hexec, intSetting_setSetting_ne (by simp), intSetting, hnone]
    exact Text.toNat_decimal 0
  · rw [hexec, intSetting_setSetting_self, maxFsckLogid, hlog, maxFsckLogid]

end FsckStore

/-! ### The counts of a sequence of requests -/

namespace FsckTally

variable {t : FsckTally}

/-- The log is in order, and its codes are those of fsck. -/
structure Inv (t : FsckTally) : Prop where
  log : t.store.LogOk
  codes : ∀ r ∈ t.store.fsckLog.rows, ∃ ev : Evcode, r.evcode = ev.text

theorem exact_iff : t.Exact ↔ ∀ ev : Evcode, t.store.intSetting (.fsckSumEvcount ev.text) +
    t.store.eventsAbove t.store.summedUpTo ev.text = t.logged.count ev := by
  unfold Exact
  simp only [reportedCount_status]
  exact ⟨fun h => h 0, fun h _ => h⟩

theorem Inv.of_eq {st' : FsckStore} {logged : List Evcode} (h : t.Inv) (hlog : st'.fsckLog = t.store.fsckLog)
    (hnext : st'.nextLogid = t.store.nextLogid) : Inv ⟨st', logged⟩ :=
  ⟨h.log.congr hlog hnext, by rw [hlog]; exact h.codes⟩

theorem exact_of_same {st' : FsckStore} (h : t.store.SameCounts st') : Exact ⟨st', t.logged⟩ ↔ t.Exact := by
  have hsummed : st'.summedUpTo = t.store.summedUpTo := by
    rw [FsckStore.summedUpTo, h.setting .fsckStartMaxlogid rfl, h.maxFsckLogid, FsckStore.summedUpTo]
  have hset : ∀ ev : Evcode, st'.intSetting (.fsckSumEvcount ev.text) =
      t.store.intSetting (.fsckSumEvcount ev.text) := fun ev => h.setting _ rfl
  simp only [exact_iff, FsckStore.eventsAbove_congr h.log, hsummed, hset]

theorem exact_of_reset {st' : FsckStore} (h : t.store.CountsReset st') : Exact ⟨st', []⟩ := by
  refine exact_iff.mpr fun ev => ?_
  have hnone : st'.eventsAbove st'.summedUpTo ev.text = 0 := by
    refine FsckStore.eventsAbove_eq_zero fun r hr => ?_
    rw [h.log] at hr
    rw [FsckStore.summedUpTo, h.start]
    exact (FsckStore.le_maxFsckLogid hr).trans (le_max_left _ _)
  rw [h.sum, hnone]
  rfl

theorem exec_cmdFsckStart (hostname : Text) (now : ℕ) (st : FsckStore) :
    if st.resetsOnStart then st.CountsReset ((cmdFsckStart hostname now).exec st).2
    else st.SameCounts ((cmdFsckStart hostname now).exec st).2 := by
  have hafter : ∀ st' : FsckStore, st'.SameCounts ((do
      setServerSetting .fsckStartTime (some (Text.decimal now))
      setServerSetting .fsckStopTime none
      setServerSetting .fsckFidsChecked (some ['0'])
      let startFid ← intss .fsckHighestFidChecked
      setServerSetting .fsckStartFid (some startFid)
      setServerSetting .fsckHost (some hostname)
      pure (Outcome.ok []) : FsckProg Outcome).exec st').2 := by
    intro st'
    have hstart := FsckStore.SameCounts.setSetting st' .fsckStartTime (some (Text.decimal now)) rfl
    have hstop := hstart.trans (.setSetting _ .fsckStopTime none rfl)
    have hchecked := hstop.trans (.setSetting _ .fsckFidsChecked (some ['0']) rfl)
    have hfid : ∀ val, _ := fun val => hchecked.trans (.setSetting _ .fsckStartFid val rfl)
    exact (hfid _).trans (.setSetting _ .fsckHost (some hostname) rfl)
  have hexec : ((cmdFsckStart hostname now).exec st).2 = ((do
      setServerSetting .fsckStartTime (some (Text.decimal now))
      setServerSetting .fsckStopTime none
      setServerSetting .fsckFidsChecked (some ['0'])
      let startFid ← intss .fsckHighestFidChecked
      setServerSetting .fsckStartFid (some startFid)
      setServerSetting .fsckHost (some hostname)
      pure (Outcome.ok []) : FsckProg Outcome).exec
        (if st.resetsOnStart then (doFsckReset.exec st).2 else st)).2 := by
    simp only [cmdFsckStart, FsckProg.exec, Prog.exec_bind]
    split
    · rename_i hcompleted
      rw [if_pos (show st.resetsOnStart = true from hcompleted)]
      simp only [Prog.exec_bind]
      rfl
    · rename_i hcompleted
      rw [if_neg (show ¬ st.resetsOnStart = true from hcompleted)]
      rfl
  rw [hexec]
  split_ifs
  · exact (FsckStore.countsReset_doFsckReset st).same (hafter _)
  · exact hafter st

theorem step_cases (truncate : Bool) (t : FsckTally) (req : FsckRequest) :
    req = .command .clearlog ∨ (∃ utime fid evcode devid, req = .event utime fid evcode devid) ∨
      (∀ t' : FsckTally, t'.Harmless req) ∧
        ((∃ st', t.store.SameCounts st' ∧ step truncate t req = ⟨st', t.logged⟩) ∨
          ∃ st', t.store.CountsReset st' ∧ step truncate t req = ⟨st', []⟩) := by
  match req with
  | .command .clearlog => exact .inl rfl
  | .event utime fid evcode devid => exact .inr (.inl ⟨utime, fid, evcode, devid, rfl⟩)
  | .command (.start hostname now) =>
    refine .inr (.inr ⟨fun _ => trivial, ?_⟩)
    have hexec := exec_cmdFsckStart hostname now t.store
    cases hreset : t.store.resetsOnStart with
    | true =>
      rw [if_pos hreset] at hexec
      exact .inr ⟨_, hexec, by rw [step, if_pos hreset]⟩
    | false =>
      rw [if_neg (by rw [hreset]; decide)] at hexec
      exact .inl ⟨_, hexec, by rw [step, if_neg (by rw [hreset]; decide)]⟩
  | .command (.stop now) =>
    refine .inr (.inr ⟨fun _ => trivial, .inl ⟨_, ?_, rfl⟩⟩)
    have hhost := FsckStore.SameCounts.setSetting t.store .fsckHost none rfl
    exact hhost.trans (.setSetting _ .fsckStopTime (some (Text.decimal now)) rfl)
  | .command (.reset args) =>
    set policy : Option Text := if Text.truthy (args "policy_only") then some ['1'] else none with hpolicy
    set position : Text := if Text.truthy (args "startpos") then (args "startpos").getD [] else ['0'] with hposition
    have hexec : ((cmdFsckReset args).exec t.store).2 =
        (doFsckReset.exec ((t.store.setSetting .fsckOptPolicyOnly policy).setSetting
          .fsckHighestFidChecked (some position))).2 := by
      simp only [cmdFsckReset, FsckProg.exec, Prog.exec_bind, ← hpolicy, ← hposition]
      rfl
    refine .inr (.inr ⟨fun _ => trivial, .inr ⟨_, ?_, rfl⟩⟩)
    rw [hexec]
    exact .of_same ((FsckStore.SameCounts.setSetting t.store .fsckOptPolicyOnly policy rfl).trans
      (.setSetting _ .fsckHighestFidChecked (some position) rfl)) (FsckStore.countsReset_doFsckReset _)
  | .status _ => exact .inr (.inr ⟨fun _ => trivial, .inl ⟨_, ⟨rfl, rfl, fun _ _ => rfl⟩, rfl⟩⟩)
  | .position fid =>
    exact .inr (.inr ⟨fun _ => trivial, .inl ⟨_, .setSetting _ .fsckHighestFidChecked (some fid) rfl, rfl⟩⟩)
  | .other s =>
    exact .inr (.inr ⟨fun _ => trivial, .inl ⟨{ t.store with db := (s.run t.store.db).2 },
      ⟨rfl, rfl, fun _ _ => rfl⟩, rfl⟩⟩)

theorem store_step_clearlog (truncate : Bool) (t : FsckTally) :
    (step truncate t (.command .clearlog)).store.fsckLog.rows = [] ∧
      (step truncate t (.command .clearlog)).store.serverSettings = t.store.serverSettings ∧
      (step truncate t (.command .clearlog)).store.nextLogid = if truncate then 1 else t.store.nextLogid := by
  cases truncate <;> exact ⟨rfl, rfl, rfl⟩

theorem inv_step (truncate : Bool) (t : FsckTally) (req : FsckRequest) (h : t.Inv) :
    (step truncate t req).Inv := by
  rcases step_cases truncate t req with rfl | ⟨utime, fid, evcode, devid, rfl⟩ | ⟨-, hsame | hreset⟩
  · obtain ⟨hrows, -, hnext⟩ := store_step_clearlog truncate t
    refine ⟨.of_empty ?_ hrows, fun r hr => absurd (hrows ▸ hr) List.not_mem_nil⟩
    rw [hnext]
    split_ifs
    · exact Nat.one_pos
    · exact h.log.pos
  · refine ⟨h.log.logFsckEvent, fun r hr => ?_⟩
    have hrows : (step truncate t (.event utime fid evcode devid)).store.fsckLog.rows =
        t.store.fsckLog.rows ++ _ := FsckStore.rows_logFsckEvent h.log
    rw [hrows] at hr
    rcases List.mem_append.mp hr with hr | hr
    · exact h.codes r hr
    · rw [List.mem_singleton.mp hr]
      exact ⟨evcode, rfl⟩
  · obtain ⟨st', hst', hstep⟩ := hsame
    rw [hstep]
    exact h.of_eq hst'.log hst'.next
  · obtain ⟨st', hst', hstep⟩ := hreset
    rw [hstep]
    exact h.of_eq hst'.log hst'.next

theorem exact_step_iff (truncate : Bool) (t : FsckTally) (req : FsckRequest) (hinv : t.Inv) (hexact : t.Exact) :
    (step truncate t req).Exact ↔ t.Harmless req := by
  rcases step_cases truncate t req with rfl | ⟨utime, fid, evcode, devid, rfl⟩ | ⟨hharmless, hsame | hreset⟩
  · obtain ⟨hrows, hsettings, -⟩ := store_step_clearlog truncate t
    have hcount : ∀ ev, (step truncate t (.command .clearlog)).store.intSetting (.fsckSumEvcount ev) +
        (step truncate t (.command .clearlog)).store.eventsAbove
          (step truncate t (.command .clearlog)).store.summedUpTo ev = t.store.intSetting (.fsckSumEvcount ev) := by
      intro ev
      rw [FsckStore.eventsAbove_eq_zero fun r hr => absurd (hrows ▸ hr) List.not_mem_nil, Nat.add_zero,
        FsckStore.intSetting, FsckStore.setting, hsettings]
      rfl
    have hlogged : (step truncate t (.command .clearlog)).logged = t.logged := rfl
    rw [exact_iff] at hexact ⊢
    simp only [hcount, hlogged, ← hexact]
    constructor
    · intro h r hr
      by_contra hlt
      obtain ⟨ev, hev⟩ := hinv.codes r hr
      have hpos := FsckStore.eventsAbove_pos hr (not_le.mp hlt)
      have hzero := h ev
      rw [hev] at hpos
      omega
    · intro h ev
      rw [FsckStore.eventsAbove_eq_zero h, Nat.add_zero]
  · rw [exact_iff] at hexact ⊢
    have hstore : (step truncate t (.event utime fid evcode devid)).store =
        t.store.logFsckEvent utime fid evcode.text devid := rfl
    have hlogged : (step truncate t (.event utime fid evcode devid)).logged = t.logged ++ [evcode] := rfl
    simp only [hstore, hlogged, FsckStore.reported_logFsckEvent hinv.log, hexact, List.count_append,
      List.count_singleton]
    constructor
    · intro h
      by_contra hnot
      have hev := h evcode
      rw [if_neg fun hboth => hnot hboth.1] at hev
      simp at hev
    · intro h ev
      have hstart : t.store.intSetting .fsckStartMaxlogid < t.store.nextLogid := h
      by_cases hev : evcode = ev
      · simp [hstart, hev]
      · have htext : evcode.text ≠ ev.text := fun heq => hev (Evcode.text_injective heq)
        simp [hev, htext]
  · obtain ⟨st', hst', hstep⟩ := hsame
    rw [hstep]
    exact iff_of_true ((exact_of_same hst').mpr hexact) (hharmless t)
  · obtain ⟨st', hst', hstep⟩ := hreset
    rw [hstep]
    exact iff_of_true (exact_of_reset hst') (hharmless t)

theorem inv_start : start.Inv where
  log := .of_empty Nat.one_pos rfl
  codes _ hr := absurd hr List.not_mem_nil

theorem exact_start : start.Exact := by
  refine exact_iff.mpr fun ev => ?_
  have hsum : start.store.intSetting (.fsckSumEvcount ev.text) = 0 := Text.toNat_decimal 0
  rw [hsum]
  rfl

end FsckTally

/-- The tally after a sequence of requests to a new database. -/
def fsckTally (truncate : Bool) (reqs : List FsckRequest) : FsckTally :=
  reqs.foldl (FsckTally.step truncate) FsckTally.start

/-- The counts are exact after every request exactly if every request was harmless. -/
theorem counts_exact_iff (truncate : Bool) (reqs : List FsckRequest) :
    (∀ before, before <+: reqs → (fsckTally truncate before).Exact) ↔
      ∀ before req, before ++ [req] <+: reqs → (fsckTally truncate before).Harmless req :=
  foldl_forall_iff FsckTally.inv_start FsckTally.exact_start (FsckTally.inv_step truncate)
    (FsckTally.exact_step_iff truncate) reqs

/-- One event is logged and the log is cleared: the status forgets it. -/
theorem cleared_event_not_counted :
    ¬ ∀ before, before <+: [.event 0 1 .fileMissing (some 1), .command .clearlog] →
      (fsckTally true before).Exact := by
  intro h
  have hcount := FsckTally.exact_iff.mp (h _ List.prefix_rfl) .fileMissing
  have hsum : (fsckTally true [.event 0 1 .fileMissing (some 1), .command .clearlog]).store.intSetting
      (.fsckSumEvcount Evcode.fileMissing.text) = 0 := Text.toNat_decimal 0
  rw [hsum] at hcount
  exact absurd hcount (by decide)

end Ylem
