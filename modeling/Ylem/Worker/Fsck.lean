import Ylem.Store.FsckStore

/-!
# The fsck worker

`MogileFS::Worker::Fsck::work`. The worker goes through the files in the order of their fids, in batches of
5000. `$max_checked`, the last fid it has checked, is its position; the worker reads it from the settings
when it has none of its own, forgets it when it finds that it is not to run, and writes it back at most every
five seconds. `work` is one step of the closure that `every` calls: it issues at most one statement, so that
anything may happen in the database between any two of its accesses. What `check_fid` finds is an input.
-/

namespace Ylem

/-- Where the worker stands. -/
inductive FsckPhase where
  /-- before `should_be_running` -/
  | waiting
  /-- before `monitor_has_run` -/
  | enabled
  /-- `$max_checked` is set -/
  | positioned
  /-- before `get_fids_above_id` -/
  | fetching
  /-- there was no fid: before `fsck_host` is cleared -/
  | ending
  /-- before `fsck_stop_time` is set -/
  | stopping
  /-- before the position is written for the last time -/
  | saving
  /-- before `last if $self->should_stop_running` -/
  | looping (fids : List ℕ)
  /-- before `check_fid` -/
  | checking (fid : ℕ) (fids : List ℕ)
  /-- before `set_max_checked_lazy` -/
  | noting (fids : List ℕ)
  deriving DecidableEq

/-- The files of the batch that the worker has not checked yet. -/
def FsckPhase.batch : FsckPhase → List ℕ
  | looping fids | noting fids => fids
  | checking fid fids => fid :: fids
  | _ => []

structure FsckWorker where
  hostname : Text
  maxChecked : Text
  lastStopCheck : ℕ
  lastMaxcheckWrite : ℕ
  nowish : ℕ
  optNostat : Bool
  phase : FsckPhase
  deriving DecidableEq

/-- What a step learns from outside the database: the time, whether the monitor has run, and the result of
`check_fid`. -/
structure FsckInput where
  now : ℕ
  monitorHasRun : Bool
  handled : Bool

namespace FsckWorker

/-- A worker that has just been started on a host. -/
def start (hostname : Text) : FsckWorker := ⟨hostname, ['0'], 0, 0, 0, false, .waiting⟩

variable (w : FsckWorker)

/-- `should_be_running`. -/
def shouldBeRunning : FsckProg Bool := do
  let fhost ← serverSetting .fsckHost
  pure (Text.truthy fhost && fhost == some w.hostname)

/-- `set_max_checked`. -/
def setMaxChecked : FsckProg Unit := setServerSetting .fsckHighestFidChecked (some w.maxChecked)

/-- One step of a pass. -/
def work (input : FsckInput) : FsckProg FsckWorker :=
  match w.phase with
  | .waiting => do
    if ← w.shouldBeRunning then pure { w with nowish := input.now, phase := .enabled }
    -- uncache this
    else pure { w with nowish := input.now, maxChecked := ['0'] }
  | .enabled =>
    if !input.monitorHasRun then pure { w with phase := .waiting }
    else if Text.truthy (some w.maxChecked) then pure { w with phase := .positioned }
    else do
      let maxChecked ← intss .fsckHighestFidChecked
      pure { w with maxChecked := maxChecked, phase := .positioned }
  | .positioned => do
    let optNostat ← serverSetting .fsckOptPolicyOnly
    pure { w with optNostat := Text.truthy optNostat, phase := .fetching }
  | .fetching => do
    let fids ← Prog.issue (FsckStmt.getFidsAboveId (Text.numify w.maxChecked) 5000)
    pure { w with phase := if fids = [] then .ending else .looping fids }
  | .ending => do
    setServerSetting .fsckHost none
    pure { w with phase := .stopping }
  | .stopping => do
    setServerSetting .fsckStopTime (some (Text.decimal input.now))
    pure { w with phase := .saving }
  | .saving => do
    if Text.truthy (some w.maxChecked) then w.setMaxChecked
    pure { w with phase := .waiting }
  | .looping [] => pure { w with phase := .waiting }
  | .looping (fid :: fids) =>
    -- `should_stop_running` looks every five seconds only
    if w.nowish < w.lastStopCheck + 5 then pure { w with phase := .checking fid fids }
    else do
      if ← w.shouldBeRunning then pure { w with lastStopCheck := w.nowish, phase := .checking fid fids }
      else pure { w with lastStopCheck := w.nowish, phase := .waiting }
  | .checking fid fids =>
    if input.handled then
      pure { w with maxChecked := Text.decimal fid, nowish := input.now, phase := .noting fids }
    -- connectivity problems; stalling
    else pure { w with nowish := input.now, phase := .waiting }
  | .noting fids =>
    -- `set_max_checked_lazy`
    if w.nowish < w.lastMaxcheckWrite + 5 then pure { w with phase := .looping fids }
    else do
      w.setMaxChecked
      pure { w with lastMaxcheckWrite := w.nowish, phase := .looping fids }

end FsckWorker

end Ylem
