import Ylem.Tracker.Operations

/-!
# Does reaping lose a re-replication?

The reaper enqueues a file of a dead device for replication, with an `INSERT IGNORE`, and forgets the
replica. A replicate worker may hold a row of the queue for the same file, and may have decided from an old
device table that the file has enough copies; it then deletes the row. If it does so after the reaper's
insert, which its own row has made a no-op, the reaper's request is lost.

The proof runs the two programs side by side. The reaper's statements after its insert neither touch the
queue nor the copies that count (`Calm`); the worker touches the queue with the last statement that it
issues, if at all (`Worklike`). So the queue has the row in the end unless the worker's delete comes after
the insert, and then the copies are in the end what the delete found.
-/

namespace Ylem

/-- The copies of the fid on devices that should have files satisfy the policy of the class, whatever it
draws. -/
def PolicyMet (devs : DeviceMap) (cls : ReplClass) (fid : ℕ) (db : Db) : Prop :=
  ∀ weights, (cls.policy weights (copiesOn devs (db.devidsOf fid)) devs [] cls.mindevcount).isHappy = true

/-- The fid is in the queue, or has enough copies. -/
def QueuedOrReplicated (devs : DeviceMap) (cls : ReplClass) (fid : ℕ) (db : Db) : Prop :=
  db.fileToReplicate.Has fid ∨ PolicyMet devs cls fid db

/-- The statement enqueues the fid for replication. -/
def Stmt.Enqueues (fid : ℕ) : Stmt → Prop
  | .insertFileToReplicate row => row.fid = fid
  | _ => False

/-- A row that is deleted from the queue after the fid has been enqueued is the row of a fid with enough
copies. -/
def SettledAfterEnqueue (devs : DeviceMap) (cls : ReplClass) (fid : ℕ) (log : List (Issued Stmt Db)) : Prop :=
  ∀ before x after, log = before ++ x :: after → x.stmt = .deleteFileToReplicate fid →
    (∃ y ∈ before, y.stmt.Enqueues fid) → PolicyMet devs cls fid x.found

section Log

variable {devs : DeviceMap} {cls : ReplClass} {fid : ℕ} {s : Stmt} {db : Db} {log : List (Issued Stmt Db)}

theorem settledAfterEnqueue_cons_of_not (hs : ¬ s.Enqueues fid) :
    SettledAfterEnqueue devs cls fid (⟨s, db⟩ :: log) ↔ SettledAfterEnqueue devs cls fid log := by
  constructor
  · rintro h before x after rfl hx ⟨y, hy, hq⟩
    exact h (⟨s, db⟩ :: before) x after rfl hx ⟨y, List.mem_cons_of_mem _ hy, hq⟩
  · rintro h before x after heq hx ⟨y, hy, hq⟩
    cases before with
    | nil => exact absurd hy List.not_mem_nil
    | cons first before =>
      obtain ⟨rfl, rfl⟩ := List.cons.inj heq
      rcases List.mem_cons.mp hy with rfl | hy
      · exact absurd hq hs
      · exact h before x after rfl hx ⟨y, hy, hq⟩

theorem settledAfterEnqueue_cons_of_enqueues (hs : s.Enqueues fid) :
    SettledAfterEnqueue devs cls fid (⟨s, db⟩ :: log) ↔
      ∀ x ∈ log, x.stmt = .deleteFileToReplicate fid → PolicyMet devs cls fid x.found := by
  constructor
  · intro h x hx hstmt
    obtain ⟨before, after, rfl⟩ := List.append_of_mem hx
    exact h (⟨s, db⟩ :: before) x after rfl hstmt ⟨_, List.mem_cons_self, hs⟩
  · rintro h before x after heq hx ⟨y, hy, -⟩
    cases before with
    | nil => exact absurd hy List.not_mem_nil
    | cons first before =>
      obtain ⟨rfl, rfl⟩ := List.cons.inj heq
      exact h x (by simp) hx

end Log

theorem copiesOn_forget {devs : DeviceMap} {devid : ℕ}
    (hdead : ∀ d, devs.ofDevid devid = some d → d.status.shouldHaveFiles = false) (devids : List ℕ) :
    copiesOn devs (devids.filter fun d => !(d == devid)) = copiesOn devs devids := by
  unfold copiesOn
  induction devids with
  | nil => rfl
  | cons first devids ih =>
    by_cases hfirst : first = devid
    · subst hfirst
      rw [List.filter_cons_of_neg (by simp), ih]
      cases hdev : devs.ofDevid first with
      | none => rw [List.filterMap_cons_none hdev]
      | some d => rw [List.filterMap_cons_some hdev, List.filter_cons_of_neg (by simp [hdead d hdev])]
    · rw [List.filter_cons_of_pos (by simpa using hfirst)]
      cases hdev : devs.ofDevid first with
      | none => rw [List.filterMap_cons_none hdev, List.filterMap_cons_none hdev, ih]
      | some d =>
        rw [List.filterMap_cons_some hdev, List.filterMap_cons_some hdev, List.filter_cons, List.filter_cons, ih]

/-! ### What the statements of the two programs do -/

namespace Stmt

/-- The statement does not insert into the queue or delete from it. -/
def LeavesQueue : Stmt → Prop
  | .insertFileToReplicate _ | .deleteFileToReplicate _ => False
  | _ => True

/-- The reaper's statements after its insert. -/
def Calm (fid devid : ℕ) : Stmt → Prop
  | .deleteFileOn fid' devid' => fid' = fid ∧ devid' = devid
  | .countFileOn _ | .updateDevcount _ _ => True
  | _ => False

theorem Calm.leavesQueue {fid devid : ℕ} {s : Stmt} (h : s.Calm fid devid) : s.LeavesQueue := by
  cases s <;> first | exact trivial | exact h.elim

theorem LeavesQueue.not_enqueues {fid : ℕ} {s : Stmt} (h : s.LeavesQueue) : ¬ s.Enqueues fid := by
  cases s <;> first | exact id | exact h.elim

theorem LeavesQueue.ne_delete {fid : ℕ} {s : Stmt} (h : s.LeavesQueue) : s ≠ .deleteFileToReplicate fid := by
  rintro rfl
  exact h

theorem LeavesQueue.run {fid : ℕ} {s : Stmt} {db : Db} (h : s.LeavesQueue) :
    (s.run db).2.fileToReplicate.Has fid ↔ db.fileToReplicate.Has fid := by
  cases s
  case insertFileToReplicate => exact h.elim
  case deleteFileToReplicate => exact h.elim
  case rescheduleFileToReplicate => simp [Stmt.run]
  case renameFile =>
    simp only [Stmt.run]
    split <;> rfl
  case insertTempfile =>
    simp only [Stmt.run]
    split_ifs <;> rfl
  all_goals rfl

theorem Calm.policyMet {devs : DeviceMap} {cls : ReplClass} {fid devid : ℕ} {s : Stmt} {db : Db}
    (h : s.Calm fid devid) (hdead : ∀ d, devs.ofDevid devid = some d → d.status.shouldHaveFiles = false) :
    PolicyMet devs cls fid (s.run db).2 ↔ PolicyMet devs cls fid db := by
  have hcopies : copiesOn devs ((s.run db).2.devidsOf fid) = copiesOn devs (db.devidsOf fid) := by
    cases s
    case deleteFileOn fid' devid' =>
      obtain ⟨rfl, rfl⟩ := h
      have hdevids := devidsOf_deleteFileOn fid' devid' db
      simp only [DbProg.exec, Prog.exec_issue] at hdevids
      rw [hdevids, copiesOn_forget hdead]
    case countFileOn => rfl
    case updateDevcount => rfl
    all_goals exact h.elim
  unfold PolicyMet
  rw [hcopies]

end Stmt

/-- The program leaves the queue alone but for a last statement that deletes the fid's row. -/
def Worklike {α : Type} (fid : ℕ) : DbProg α → Prop
  | .ret _ => True
  | .stmt s k =>
    (s.LeavesQueue ∧ ∀ r, Worklike fid (k r)) ∨ (s = .deleteFileToReplicate fid ∧ ∀ r, ∃ a, k r = .ret a)

theorem Worklike.bind {α β : Type} {fid : ℕ} {p : DbProg α} {f : α → DbProg β}
    (hp : p.Issues Stmt.LeavesQueue) (hf : ∀ a, Worklike fid (f a)) : Worklike fid (p >>= f) := by
  induction p with
  | ret a => exact hf a
  | stmt s k ih => exact .inl ⟨hp.1, fun r => ih r (hp.2 r)⟩

/-! ### The worker -/

section Worker

open Worker.Replicate

theorem copyLoop_leavesQueue (devs : DeviceMap) (fid : ℕ) (opts : ReplOpts) (cls : ReplClass)
    (onUpDevid : List ℕ) (fuel : ℕ) : ∀ rounds st,
      (copyLoop devs fid opts cls onUpDevid fuel rounds st).Issues Stmt.LeavesQueue := by
  induction fuel with
  | zero => exact fun _ _ => trivial
  | succ fuel ih =>
    intro rounds st
    unfold copyLoop
    split
    · exact trivial
    · exact ih _ _
    · exact (issues_addToDb (fun _ => trivial) (fun _ => trivial) (fun _ _ => trivial) _ _ _).bind
        fun _ => ih _ _

theorem replicate_leavesQueue (devs : DeviceMap) (classOf : FileRow → Option ReplClass) (out : Outcomes)
    (fid : ℕ) (loaded : Option FileRow) (opts : ReplOpts) :
    (replicate devs classOf out fid loaded opts).Issues Stmt.LeavesQueue := by
  unfold replicate
  split
  · exact trivial
  · exact trivial
  extract_lets onRow
  have hrow : ∀ row, (onRow row).Issues Stmt.LeavesQueue := by
    intro row
    simp only [onRow]
    split
    · exact trivial
    split
    · exact trivial
    refine (issues_sql trivial).bind fun devids => ?_
    split
    · exact trivial
    · unfold replicateOn
      extract_lets
      split_ifs
      · exact trivial
      · exact trivial
      · exact trivial
      · exact copyLoop_leavesQueue _ _ _ _ _ _ _ _
  cases loaded with
  | some row => exact hrow (some row)
  | none => exact ⟨trivial, hrow⟩

theorem worklike_replicateTodo (env : QueueEnv) (todo : ToReplicateRow) :
    Worklike todo.fid (replicateTodo env todo) := by
  unfold replicateTodo
  split_ifs
  · exact trivial
  refine Worklike.bind (replicate_leavesQueue _ _ _ _ _ _) fun result => ?_
  unfold settle
  split
  · exact trivial
  · exact trivial
  · exact trivial
  · exact .inl ⟨trivial, fun _ => trivial⟩
  · exact .inl ⟨trivial, fun _ => trivial⟩
  · exact .inr ⟨rfl, fun _ => ⟨true, rfl⟩⟩

end Worker

/-! ### Side by side -/

section Par

variable {α β : Type} {devs : DeviceMap} {cls : ReplClass} {fid devid : ℕ} {p : DbProg α} {q : DbProg β}
  {db db' : Db} {log : List (Issued Stmt Db)}

theorem par_calm (hdead : ∀ d, devs.ofDevid devid = some d → d.status.shouldHaveFiles = false)
    (hrun : Par Stmt.run p q db log db') (hp : p.Issues (Stmt.Calm fid devid)) {b : β} (hq : q = .ret b) :
    (∀ x ∈ log, x.stmt.LeavesQueue) ∧ (db'.fileToReplicate.Has fid ↔ db.fileToReplicate.Has fid) ∧
      (PolicyMet devs cls fid db' ↔ PolicyMet devs cls fid db) := by
  induction hrun with
  | done a b db => exact ⟨by simp, Iff.rfl, Iff.rfl⟩
  | @left s k q db log db' _ ih =>
    obtain ⟨hlog, hqueue, hmet⟩ := ih (hp.2 _) hq
    refine ⟨?_, hqueue.trans hp.1.leavesQueue.run, hmet.trans (hp.1.policyMet hdead)⟩
    simpa using ⟨hp.1.leavesQueue, hlog⟩
  | right => cases hq

theorem par_enqueued (hdead : ∀ d, devs.ofDevid devid = some d → d.status.shouldHaveFiles = false)
    (hrun : Par Stmt.run p q db log db') (hp : p.Issues (Stmt.Calm fid devid)) (hq : Worklike fid q)
    (hhas : db.fileToReplicate.Has fid) :
    QueuedOrReplicated devs cls fid db' ↔
      ∀ x ∈ log, x.stmt = .deleteFileToReplicate fid → PolicyMet devs cls fid x.found := by
  induction hrun with
  | done a b db => exact iff_of_true (.inl hhas) (by simp)
  | @left s k q db log db' _ ih =>
    have hs := hp.1.leavesQueue
    rw [ih (hp.2 _) hq (hs.run.mpr hhas), List.forall_mem_cons]
    exact (and_iff_right fun hdel => absurd hdel hs.ne_delete).symm
  | @right p s k db log db' hrest ih =>
    rcases hq with ⟨hs, hq⟩ | ⟨rfl, hq⟩
    · rw [ih hp (hq _) (hs.run.mpr hhas), List.forall_mem_cons]
      exact (and_iff_right fun hdel => absurd hdel hs.ne_delete).symm
    · -- the worker's delete is its last statement
      obtain ⟨b, hb⟩ := hq (Stmt.run (.deleteFileToReplicate fid) db).1
      obtain ⟨hlog, hqueue, hmet⟩ := par_calm hdead hrest hp hb
      have hgone : ¬ db'.fileToReplicate.Has fid := by
        rw [hqueue]
        exact fun h => (Table.has_delete_key.mp h).1 rfl
      have hdb : PolicyMet devs cls fid db' ↔ PolicyMet devs cls fid db := hmet
      rw [List.forall_mem_cons, QueuedOrReplicated, or_iff_right hgone, hdb]
      constructor
      · intro h
        exact ⟨fun _ => h, fun x hx hdel => absurd hdel (hlog x hx).ne_delete⟩
      · intro h
        exact h.1 rfl

theorem par_before (hdead : ∀ d, devs.ofDevid devid = some d → d.status.shouldHaveFiles = false)
    (hrun : Par Stmt.run p q db log db') {row : ToReplicateRow} {k : Unit → DbProg α}
    (hp : p = .stmt (.insertFileToReplicate row) k) (hrow : row.fid = fid)
    (hk : ∀ r, (k r).Issues (Stmt.Calm fid devid)) (hq : Worklike fid q) :
    QueuedOrReplicated devs cls fid db' ↔ SettledAfterEnqueue devs cls fid log := by
  induction hrun with
  | done => cases hp
  | @left s k' q db log db' hrest ih =>
    obtain ⟨rfl, hk'⟩ := Prog.stmt.inj hp
    rw [settledAfterEnqueue_cons_of_enqueues (show Stmt.Enqueues fid (.insertFileToReplicate row) from hrow)]
    obtain rfl := eq_of_heq hk'
    exact par_enqueued hdead hrest (hk _) hq (Table.has_insertIgnore.mpr (.inr hrow.symm))
  | @right p s k' db log db' hrest ih =>
    rcases hq with ⟨hs, hq⟩ | ⟨rfl, hq⟩
    · rw [settledAfterEnqueue_cons_of_not hs.not_enqueues]
      exact ih hp (hq _)
    · rw [settledAfterEnqueue_cons_of_not id]
      obtain ⟨b, hb⟩ := hq (Stmt.run (.deleteFileToReplicate fid) db).1
      refine ih hp ?_
      rw [hb]
      exact trivial

end Par

/-- When the reaper and the worker have both finished, the fid is in the queue or has enough copies on the
devices that should have files, exactly if the worker has not deleted the fid's row after the reaper's
insert, or has found enough copies without the dead device when it did. -/
theorem reaping_keeps_replication_iff {devs : DeviceMap} {cls : ReplClass} {devid : ℕ}
    (hdead : ∀ d, devs.ofDevid devid = some d → d.status = .dead) {now : ℕ} {lock : Option Bool}
    {env : Worker.Replicate.QueueEnv} {todo : ToReplicateRow} {db db' : Db} {log : List (Issued Stmt Db)}
    (hrun : Par Stmt.run (Worker.Reaper.reapFid now lock todo.fid devid)
      (Worker.Replicate.replicateTodo env todo) db log db') :
    QueuedOrReplicated devs cls todo.fid db' ↔ SettledAfterEnqueue devs cls todo.fid log := by
  have hshould : ∀ d, devs.ofDevid devid = some d → d.status.shouldHaveFiles = false := by
    intro d hd
    rw [hdead d hd]
    rfl
  have hrest : ∀ r : Unit, (sql (.deleteFileOn todo.fid devid) >>= fun _ =>
      Store.updateDevcountAtomic lock todo.fid >>= fun _ => (pure () : DbProg Unit)).Issues
        (Stmt.Calm todo.fid devid) := fun _ =>
    ⟨⟨rfl, rfl⟩, fun _ => (issues_updateDevcountAtomic (fun _ => trivial) (fun _ _ => trivial) _ _).bind
      fun _ => trivial⟩
  exact par_before hshould hrun rfl rfl hrest (worklike_replicateTodo env todo)

/-! ### A lost request -/

/-- The devices of `twoHosts` after the third has died. -/
def thirdDead : DeviceMap where
  table := ⟨[upDevice 1 1, upDevice 2 1, { upDevice 3 2 with status := .dead }], by decide⟩
  devid_pos := by decide
  hostid_eq := by decide
  host_eq := by decide

/-- A worker that has not heard of it. -/
def staleWorker : Worker.Replicate.QueueEnv where
  devs := twoHosts
  classOf := fun _ => some (multipleHostsClass ⟨0⟩ 100 2)
  now := 0
  order := id
  order_perm := fun _ => .refl _
  peerIsReplicating := fun _ => false
  outcomes := fun _ => springTrap
  jitter := fun _ => .least

/-- The worker's row of the queue. -/
def queuedRow : ToReplicateRow := ⟨1, 0, none, 0⟩

/-- The file of fid 1 is on `d1` and `d3`, and in the queue. -/
def onD1D3Queued : Db := { onD1D3 with fileToReplicate := ⟨[queuedRow], by decide⟩ }

theorem thirdDead_dead : ∀ d, thirdDead.ofDevid 3 = some d → d.status = .dead := by
  intro d hd
  obtain rfl := Option.some.inj hd
  rfl

/-- With the worker's delete first, the request of the reaper stays. -/
theorem reaping_after_worker :
    ∃ log db', Par Stmt.run (Worker.Reaper.reapFid 0 (some true) queuedRow.fid 3)
        (Worker.Replicate.replicateTodo staleWorker queuedRow) onD1D3Queued log db' ∧
      SettledAfterEnqueue thirdDead (multipleHostsClass ⟨0⟩ 100 2) queuedRow.fid log := by
  have hplay : (Par.play Stmt.run [false, false, false, true, true, true, true]
      (Worker.Reaper.reapFid 0 (some true) queuedRow.fid 3)
      (Worker.Replicate.replicateTodo staleWorker queuedRow) onD1D3Queued).any
        (fun r => decide (r.2.fileToReplicate.Has 1)) = true := by
    decide +kernel
  obtain ⟨log, db', hrun, htest⟩ := Par.exists_of_play hplay
  exact ⟨log, db', hrun, (reaping_keeps_replication_iff thirdDead_dead hrun).mp (.inl (of_decide_eq_true htest))⟩

/-- The worker reads the devices of the file, and its old device table says that these are enough; the
reaper's insert is a no-op; the worker deletes the row, and the reaper forgets the replica. The file is left
with one copy and no row in the queue. -/
theorem reaping_loses_request :
    ∃ log db', Par Stmt.run (Worker.Reaper.reapFid 0 (some true) queuedRow.fid 3)
        (Worker.Replicate.replicateTodo staleWorker queuedRow) onD1D3Queued log db' ∧
      ¬ QueuedOrReplicated thirdDead (multipleHostsClass ⟨0⟩ 100 2) queuedRow.fid db' := by
  let draws : ℕ → Draw := fun _ => ⟨0, by norm_num⟩
  have hplay : (Par.play Stmt.run [false, false, true, false, true, true, true]
      (Worker.Reaper.reapFid 0 (some true) queuedRow.fid 3)
      (Worker.Replicate.replicateTodo staleWorker queuedRow) onD1D3Queued).any
        (fun r => !decide (r.2.fileToReplicate.Has 1) &&
          !((multipleHostsClass ⟨0⟩ 100 2).policy draws (copiesOn thirdDead (r.2.devidsOf 1)) thirdDead []
            2).isHappy) = true := by
    decide +kernel
  obtain ⟨log, db', hrun, htest⟩ := Par.exists_of_play hplay
  simp only [Bool.and_eq_true, Bool.not_eq_true', decide_eq_false_iff_not] at htest
  refine ⟨log, db', hrun, ?_⟩
  rintro (hhas | hmet)
  · exact htest.1 hhas
  · exact absurd (hmet draws) (by rw [Bool.not_eq_true]; exact htest.2)

end Ylem
