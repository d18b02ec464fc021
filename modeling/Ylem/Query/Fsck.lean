import Ylem.Query.Reply
import Ylem.Store.FsckStore

/-!
# The fsck commands

`cmd_fsck_start`, `cmd_fsck_stop`, `cmd_fsck_reset` and `cmd_fsck_clearlog`. They talk to the worker through
the server settings alone: `fsck_host` says where the worker is to run, and `fsck_highest_fid_checked` up to
which fid it has come. A start that finds the end mark of the run reached takes that run for completed and
calls `_do_fsck_reset`, which clears the statistics but not the position.
-/

namespace Ylem

/-- What a handler does to every one of some settings. -/
def clearSettings : List Setting → FsckProg Unit
  | [] => pure ()
  | key :: keys => do
    setServerSetting key none
    clearSettings keys

def Setting.isSumEvcount : Setting → Bool
  | .fsckSumEvcount _ => true
  | _ => false

/-- `_do_fsck_reset`. -/
def doFsckReset : FsckProg Unit := do
  setServerSetting .fsckStartTime none
  setServerSetting .fsckStopTime none
  setServerSetting .fsckFidsChecked (some ['0'])
  let final ← Prog.issue FsckStmt.maxFidid
  setServerSetting .fsckFidAtEnd (final.map Text.decimal)
  -- clear existing event counts summaries
  let ss ← Prog.issue FsckStmt.serverSettings
  clearSettings ((ss.map Prod.fst).filter Setting.isSumEvcount)
  let maxLogid ← Prog.issue FsckStmt.maxFsckLogid
  setServerSetting .fsckStartMaxlogid (some (Text.decimal maxLogid))

/-- The test of `cmd_fsck_start` for a completed run: `$checked_fid && $final_fid && $checked_fid >=
$final_fid`. -/
def fsckCompleted (checkedFid finalFid : Text) : Bool :=
  Text.truthy (some checkedFid) && Text.truthy (some finalFid) &&
    decide (Text.numify finalFid ≤ Text.numify checkedFid)

def cmdFsckStart (hostname : Text) (now : ℕ) : FsckProg Outcome := do
  let checkedFid ← intss .fsckHighestFidChecked
  let finalFid ← intss .fsckFidAtEnd
  if fsckCompleted checkedFid finalFid then doFsckReset
  setServerSetting .fsckStartTime (some (Text.decimal now))
  setServerSetting .fsckStopTime none
  setServerSetting .fsckFidsChecked (some ['0'])
  let startFid ← intss .fsckHighestFidChecked
  setServerSetting .fsckStartFid (some startFid)
  -- and start it
  setServerSetting .fsckHost (some hostname)
  pure (.ok [])

def cmdFsckStop (now : ℕ) : FsckProg Outcome := do
  setServerSetting .fsckHost none
  setServerSetting .fsckStopTime (some (Text.decimal now))
  pure (.ok [])

def cmdFsckReset (args : Args) : FsckProg Outcome := do
  setServerSetting .fsckOptPolicyOnly (if Text.truthy (args "policy_only") then some ['1'] else none)
  setServerSetting .fsckHighestFidChecked
    (some (if Text.truthy (args "startpos") then (args "startpos").getD [] else ['0']))
  doFsckReset
  pure (.ok [])

def cmdFsckClearlog : FsckProg Outcome := do
  Prog.issue FsckStmt.truncateFsckLog
  pure (.ok [])

inductive FsckCommand where
  | start (hostname : Text) (now : ℕ)
  | stop (now : ℕ)
  | reset (args : Args)
  | clearlog

def FsckCommand.prog : FsckCommand → FsckProg Outcome
  | start hostname now => cmdFsckStart hostname now
  | stop now => cmdFsckStop now
  | reset args => cmdFsckReset args
  | clearlog => cmdFsckClearlog

end Ylem
