import Ylem.Store

/-!
# What fsck keeps in the database

The fsck worker and the fsck commands share nothing but the database: the `server_settings` whose names
start with `fsck_`, the log of findings, and the table of files that a run goes through in the order of
the fids. `FsckStmt` are their statements, each atomic.
-/

namespace Ylem

/-- The server settings of fsck. -/
inductive Setting where
  | fsckHost
  | fsckStartTime
  | fsckStopTime
  | fsckFidsChecked
  | fsckFidAtEnd
  | fsckHighestFidChecked
  | fsckStartFid
  | fsckOptPolicyOnly
  | fsckStartMaxlogid
  | fsckSumEvcount (evcode : Text)
  deriving DecidableEq

structure FsckLogRow where
  logid : ℕ
  utime : ℕ
  fid : ℕ
  evcode : Text
  devid : Option ℕ
  deriving DecidableEq

/-- The database as fsck sees it. -/
structure FsckStore where
  db : Db
  serverSettings : Table (Setting × Text) Setting Prod.fst
  fsckLog : Table FsckLogRow ℕ FsckLogRow.logid
  nextLogid : ℕ

inductive FsckStmt where
  | serverSetting (key : Setting)
  | serverSettings
  | setServerSetting (key : Setting) (val : Option Text)
  | maxFidid
  | maxFsckLogid
  | getFidsAboveId (fidid : ℚ) (limit : ℕ)
  | insertFsckLog (utime fid : ℕ) (evcode : Text) (devid : Option ℕ)
  | truncateFsckLog

namespace FsckStore

def fresh : FsckStore := ⟨.fresh, .empty, .empty, 1⟩

variable (st : FsckStore)

/-- `SELECT value FROM server_settings WHERE field=?`. -/
def setting (key : Setting) : Option Text := (st.serverSettings.find? key).map Prod.snd

/-- `REPLACE INTO server_settings`, or a `DELETE` where there is no value. -/
def setSetting (key : Setting) : Option Text → FsckStore
  | some val => { st with serverSettings := st.serverSettings.replace (key, val) }
  | none => { st with serverSettings := st.serverSettings.delete fun r => r.1 = key }

/-- `SELECT fid FROM file WHERE fid > ? ORDER BY fid LIMIT ?`. -/
def fidsAbove (fidid : ℚ) (limit : ℕ) : List ℕ :=
  (((st.db.file.rows.map FileRow.fid).filter fun fid : ℕ => fidid < fid).insertionSort (· ≤ ·)).take limit

end FsckStore

namespace FsckStmt

/-- What a statement answers. -/
@[reducible] def Res : FsckStmt → Type
  | serverSetting _ => Option Text
  | serverSettings => List (Setting × Text)
  | maxFidid => Option ℕ
  | maxFsckLogid => ℕ
  | getFidsAboveId _ _ => List ℕ
  | insertFsckLog .. => ℕ
  | _ => Unit

def run : (s : FsckStmt) → FsckStore → s.Res × FsckStore
  | serverSetting key, st => (st.setting key, st)
  | serverSettings, st => (st.serverSettings.rows, st)
  | setServerSetting key val, st => ((), st.setSetting key val)
  | maxFidid, st => ((st.db.file.rows.map FileRow.fid).max?, st)
  | maxFsckLogid, st => ((st.fsckLog.rows.map FsckLogRow.logid).max?.getD 0, st)
  | getFidsAboveId fidid limit, st => (st.fidsAbove fidid limit, st)
  | insertFsckLog utime fid evcode devid, st =>
    (st.nextLogid, { st with
      fsckLog := st.fsckLog.insertIgnore ⟨st.nextLogid, utime, fid, evcode, devid⟩
      nextLogid := st.nextLogid + 1 })
  | truncateFsckLog, st => ((), { st with fsckLog := .empty, nextLogid := 1 })

end FsckStmt

/-- A program over the database of fsck. -/
abbrev FsckProg (α : Type) := Prog FsckStmt FsckStmt.Res α

namespace FsckProg

def exec {α : Type} (p : FsckProg α) (st : FsckStore) : α × FsckStore := Prog.exec FsckStmt.run p st

end FsckProg

/-- `MogileFS::Config->server_setting`. -/
def serverSetting (key : Setting) : FsckProg (Option Text) := Prog.issue (FsckStmt.serverSetting key)

def setServerSetting (key : Setting) (val : Option Text) : FsckProg Unit :=
  Prog.issue (FsckStmt.setServerSetting key val)

/-- `server_setting($_[0]) || 0`. -/
def intss (key : Setting) : FsckProg Text := do
  let val ← serverSetting key
  pure (if Text.truthy val then val.getD [] else ['0'])

namespace FsckStore

variable {st : FsckStore} {key key' : Setting}

@[simp] theorem db_setSetting {val : Option Text} : (st.setSetting key val).db = st.db := by
  cases val <;> rfl

@[simp] theorem fsckLog_setSetting {val : Option Text} : (st.setSetting key val).fsckLog = st.fsckLog := by
  cases val <;> rfl

@[simp] theorem nextLogid_setSetting {val : Option Text} :
    (st.setSetting key val).nextLogid = st.nextLogid := by
  cases val <;> rfl

/-- A setting reads back as it was set. -/
@[simp] theorem setting_setSetting_self {val : Option Text} : (st.setSetting key val).setting key = val := by
  cases val with
  | none =>
    have hnone : (st.setSetting key none).serverSettings.find? key = none := by
      rw [Table.find?_eq_none]
      show ¬ (st.serverSettings.delete fun r => r.1 = key).Has key
      rw [Table.has_delete_key]
      exact fun h => h.1 rfl
    rw [setting, hnone]
    rfl
  | some val =>
    have hsome : (st.setSetting key (some val)).serverSettings.find? key = some (key, val) :=
      Table.find?_eq_some.mpr ⟨Table.mem_replace.mpr (.inr rfl), rfl⟩
    rw [setting, hsome]
    rfl

/-- Setting one setting leaves the others alone. -/
theorem setting_setSetting_ne {val : Option Text} (h : key' ≠ key) :
    (st.setSetting key val).setting key' = st.setting key' := by
  have hrow : ∀ r, r ∈ (st.setSetting key val).serverSettings.rows ∧ r.1 = key' ↔
      r ∈ st.serverSettings.rows ∧ r.1 = key' := by
    intro r
    refine and_congr_left fun hr => ?_
    subst hr
    cases val with
    | none =>
      show r ∈ (st.serverSettings.delete fun r => r.1 = key).rows ↔ _
      simp [h]
    | some val =>
      show r ∈ (st.serverSettings.replace (key, val)).rows ↔ _
      rw [Table.mem_replace]
      constructor
      · rintro (⟨hr, _⟩ | rfl)
        · exact hr
        · exact absurd rfl h
      · exact fun hr => .inl ⟨hr, h⟩
  have hfind : (st.setSetting key val).serverSettings.find? key' = st.serverSettings.find? key' := by
    apply Option.ext
    intro r
    rw [Table.find?_eq_some, Table.find?_eq_some]
    exact hrow r
  rw [setting, hfind, setting]

/-! ### Going through the files -/

variable {fidid : ℚ} {limit fid : ℕ}

theorem mem_filesAbove (st : FsckStore) :
    fid ∈ ((st.db.file.rows.map FileRow.fid).filter fun fid : ℕ => fidid < fid).insertionSort (· ≤ ·) ↔
      st.db.file.Has fid ∧ fidid < fid := by
  rw [List.mem_insertionSort, List.mem_filter, decide_eq_true_eq]
  rfl

theorem pairwise_fidsAbove : (st.fidsAbove fidid limit).Pairwise (· < ·) := by
  have hsorted := List.pairwise_insertionSort (· ≤ ·)
    ((st.db.file.rows.map FileRow.fid).filter fun fid : ℕ => fidid < fid)
  have hnodup : (((st.db.file.rows.map FileRow.fid).filter fun fid : ℕ => fidid < fid).insertionSort
      (· ≤ ·)).Nodup :=
    (List.perm_insertionSort _ _).nodup_iff.mpr (st.db.file.nodup.filter _)
  have hlt := (hsorted.and hnodup).imp fun h => lt_of_le_of_ne h.1 h.2
  exact hlt.sublist (List.take_sublist _ _)

theorem mem_fidsAbove_of_le {fid' : ℕ} (hfile : st.db.file.Has fid) (habove : fidid < fid)
    (h : fid' ∈ st.fidsAbove fidid limit) (hle : fid ≤ fid') : fid ∈ st.fidsAbove fidid limit := by
  have hsorted := List.pairwise_insertionSort (· ≤ ·)
    ((st.db.file.rows.map FileRow.fid).filter fun fid : ℕ => fidid < fid)
  have hmem := (mem_filesAbove st).mpr ⟨hfile, habove⟩
  rw [← List.take_append_drop limit (List.insertionSort _ _)] at hsorted hmem
  rcases List.mem_append.mp hmem with hmem | hmem
  · exact hmem
  · -- what is cut off is not below what is kept
    have hge : fid' ≤ fid := (List.pairwise_append.mp hsorted).2.2 fid' h fid hmem
    rw [le_antisymm hle hge]
    exact h

theorem not_lt_of_fidsAbove_eq_nil (hlimit : 0 < limit) (h : st.fidsAbove fidid limit = [])
    (hfile : st.db.file.Has fid) : ¬ fidid < fid := by
  intro habove
  have hmem := (mem_filesAbove st).mpr ⟨hfile, habove⟩
  rcases List.take_eq_nil_iff.mp h with h | h
  · omega
  · rw [h] at hmem
    exact List.not_mem_nil hmem

end FsckStore

end Ylem
