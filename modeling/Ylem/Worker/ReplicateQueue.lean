import Ylem.Worker.Replicate

/-!
# The replication queue

`replicate_using_torepl_table` takes the due rows of `file_to_replicate`. A file that `replicate` is done
with, for whatever reason, loses its row; one that another process has locked keeps it as it is; and every
other failure puts the row off.
-/

namespace Ylem

namespace Worker.Replicate

/-- `2147483647`, a time that won't happen again. -/
def endOfTime : ℕ := 2147483647

def replfetchLimit : ℕ := 1000

/-- The seconds to the next try after so many failures, before the random factor. -/
def backoff (failcount : ℕ) : ℕ := [15, 60, 300, 1800, 3600, 7200, 14400, 28800].getD failcount 86400

/-- What a pass over the queue meets: the devices and classes as this worker has them, the order that
the shuffle and the sort give the rows, the files that other workers of this tracker have announced, the
outcomes of each `replicate`, and the random factor of the backoff. -/
structure QueueEnv where
  devs : DeviceMap
  classOf : FileRow → Option ReplClass
  now : ℕ
  order : List ToReplicateRow → List ToReplicateRow
  order_perm : ∀ l, (order l).Perm l
  peerIsReplicating : ℕ → Bool
  outcomes : ℕ → Outcomes
  jitter : ℕ → Draw

variable (env : QueueEnv)

/-- `int($backoff * (rand(0.4) + 0.8))`. -/
def retryDelay (todo : ToReplicateRow) : ℕ :=
  (backoff todo.failcount * ((env.jitter todo.fid).val * (2 / 5) + 4 / 5)).floor.toNat

/-- What becomes of the row after `replicate`; `false` where the worker dies. -/
def settle (todo : ToReplicateRow) : ReplResult → DbProg Bool
  | .died _ | .running => pure false
  | .returned (.failure "failed_getting_lock" _) => pure true
  | .returned (.failure "no_source" _) => do
    sql (.rescheduleFileToReplicate todo.fid endOfTime)
    pure true
  | .returned (.failure _ _) => do
    sql (.rescheduleFileToReplicate todo.fid (env.now + retryDelay env todo))
    pure true
  | .returned _ => do
    sql (.deleteFileToReplicate todo.fid)
    pure true

/-- One row of the queue. -/
def replicateTodo (todo : ToReplicateRow) : DbProg Bool :=
  if env.peerIsReplicating todo.fid then pure true
  else do
    let opts : ReplOpts := ⟨todo.fromdevid.filter (· != 0), [], []⟩
    let result ← replicate env.devs env.classOf (env.outcomes todo.fid) todo.fid none opts
    settle env todo result

def replicateTodos : List ToReplicateRow → DbProg Bool
  | [] => pure true
  | todo :: todos => do
    match ← replicateTodo env todo with
    | false => pure false
    | true => replicateTodos todos

/-- `replicate_using_torepl_table`; nothing where the worker dies. -/
def replicateUsingToreplTable : DbProg (Option Bool) := do
  match ← sql (.selectFilesToReplicate env.now replfetchLimit) with
  | [] => pure (some false)
  | toRepl => do
    match ← replicateTodos env (env.order toRepl) with
    | true => pure (some true)
    | false => pure none

end Worker.Replicate

end Ylem
