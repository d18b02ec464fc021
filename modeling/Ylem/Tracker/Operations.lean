import Ylem.Query.CreateOpen
import Ylem.Query.CreateClose
import Ylem.Query.Keys
import Ylem.Worker.Delete
import Ylem.Worker.Rebalance
import Ylem.Worker.Reaper

/-!
# The tracker as a whole

The operations on the file tables, as the programs that the workers of a tracker run. Any number of them
run at once, at the granularity of single statements, and each may die between two statements; `Reachable`
are the states of the database that such runs can reach from an empty one.
-/

namespace Ylem

/-- What a worker may be doing, with all that it meets on the way. -/
inductive Operation where
  | createOpen (env : CreateOpenEnv) (args : Args)
  | createClose (env : QueryEnv) (args : Args)
  | delete (env : QueryEnv) (args : Args)
  | rename (env : QueryEnv) (args : Args)
  | replicateUsingToreplTable (env : Worker.Replicate.QueueEnv)
  | rebalanceDevfid (devs : DeviceMap) (classOf : FileRow → Option ReplClass) (out : Outcomes)
      (fid devid : ℕ) (avoidDevids : List ℕ)
  | processTempfiles (now tooOld : ℕ)
  | reenqueueDelayedDeletes (now : ℕ)
  | processDeletes (env : Worker.Delete.DeleteEnv)
  | reapDevice (now : ℕ) (lock : ℕ → Option Bool) (devid : ℕ)

namespace Operation

def prog : Operation → DbProg Unit
  | createOpen env args => (cmdCreateOpen env args).forget
  | createClose env args => (cmdCreateClose env args).forget
  | delete env args => (cmdDelete env args).forget
  | rename env args => (cmdRename env args).forget
  | replicateUsingToreplTable env => (Worker.Replicate.replicateUsingToreplTable env).forget
  | rebalanceDevfid devs classOf out fid devid avoidDevids =>
    (Ylem.rebalanceDevfid devs classOf out fid devid avoidDevids).forget
  | processTempfiles now tooOld => (Worker.Delete.processTempfiles now tooOld).forget
  | reenqueueDelayedDeletes now => Worker.Delete.reenqueueDelayedDeletes now
  | processDeletes env => (Worker.Delete.processDeletes env).forget
  | reapDevice now lock devid => (Worker.Reaper.reapDevice now lock devid).forget

end Operation

/-- The programs of the tracker. -/
def IsOperation (p : DbProg Unit) : Prop := ∃ op : Operation, p = op.prog

/-- Runs of the tracker's operations. -/
abbrev TrackerRun (c : Pool Stmt Stmt.Res Unit Db) (log : List (Issued Stmt Db))
    (c' : Pool Stmt Stmt.Res Unit Db) : Prop :=
  Pool.Run Stmt.run IsOperation c log c'

/-- The states of the database that the tracker can reach. -/
def Reachable (db : Db) : Prop := ∃ log c, TrackerRun ⟨Db.fresh, []⟩ log c ∧ c.db = db

namespace Reachable

theorem fresh : Reachable Db.fresh := ⟨[], _, .nil, rfl⟩

/-- An operation that runs alone leads from a reachable state to a reachable one. -/
theorem exec {db : Db} (h : Reachable db) (op : Operation) : Reachable (op.prog.exec db).2 := by
  obtain ⟨log, c, hrun, rfl⟩ := h
  obtain ⟨log', c', hrun', hdb⟩ := Pool.run_exec op.prog (show IsOperation op.prog from ⟨op, rfl⟩) c
  exact ⟨log ++ log', c', hrun.trans hrun', hdb⟩

theorem inv {I : Db → Prop} {db : Db} (h : Reachable db) (hfresh : I Db.fresh)
    (hstep : ∀ (s : Stmt) db, I db → I (s.run db).2) : I db := by
  obtain ⟨log, c, hrun, rfl⟩ := h
  exact hrun.inv (G := fun _ _ => True) (fun s db hI _ => hstep s db hI) hfresh fun _ _ => trivial

theorem counterAbove {db : Db} (h : Reachable db) : db.CounterAbove :=
  h.inv Db.counterAbove_fresh fun s _ hdb => s.counterAbove_run hdb

end Reachable

/-! ### A small tracker -/

/-- A tracker with the devices of `twoHosts` whose uploads have five bytes. -/
def openEnv : CreateOpenEnv where
  idOfName := fun _ => .ok (some 1)
  devs := twoHosts
  zone := ⟨false, none, fun _ _ => false⟩
  volumeId := some "0".toList
  fileSize := fun _ => .ok (some 5)
  lastError := []
  addLock := some true
  devcountLock := some true
  now := 0
  classIdOf := fun _ _ => .ok none
  minFree := 100
  weights := fun _ => .least
  fuel := 2
  reseeded := fun _ => false
  vivify := fun _ _ => none
  profile := []

/-- The arguments of an upload of the key `key`, of its close as fid 1, and of its deletion. -/
def keyArgs : Args
  | "domain" => some "d".toList
  | "key" => some "key".toList
  | "fid" => some "1".toList
  | "devid" => some "1".toList
  | "path" => some "http://10.0.0.1:7500/dev1/vol0/0/000/000/0000000001.fid".toList
  | _ => none

/-- The arguments that leave the fid to the counter. -/
def openArgsOfKey : Args
  | "domain" => some "d".toList
  | "key" => some "key".toList
  | _ => none

end Ylem
