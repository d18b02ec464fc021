import Ylem.Tracker.Operations

/-!
# Are new fids new?

A fid that is allocated while replicas of an older file with the same fid are recorded, or while a
deletion of it is pending, will have its own replicas destroyed. `register_tempfile` asks table `file`
only, so that a counter that has fallen back may give the fid of a file that was deleted a moment ago.
-/

namespace Ylem

/-- No table remembers the fid. -/
def FreshFid (db : Db) (fid : ℕ) : Prop := ¬ db.file.Has fid ∧ db.Forgotten fid

/-- Every fid that `register_tempfile` chooses in this state is fresh, whatever the counter does. -/
def AllocatesFresh (db : Db) : Prop :=
  ∀ (new : NewTempfile) (fuel : ℕ) (reseeded : ℕ → Bool) (fid : ℕ) (db' : Db),
    (Store.registerTempfile new none fuel reseeded).exec db = (.ok fid, db') → FreshFid db fid

/-- In a reachable state the fids that are chosen are fresh exactly if the two fids that the counter can
lead to, the stored value and the one after the largest of `tempfile`, each moved behind table `file` if
it is in use there, are forgotten by the other tables. -/
theorem allocatesFresh_iff {db : Db} (h : Reachable db) :
    AllocatesFresh db ↔ ∀ reseeded, db.Forgotten (db.seedFid reseeded) := by
  have hcounter := h.counterAbove
  constructor
  · intro hfresh reseeded
    let new : NewTempfile := ⟨0, [], 0, [], 0⟩
    obtain ⟨db', hexec⟩ := Store.registerTempfile_returns new hcounter reseeded 0
    exact (hfresh new _ _ _ db' hexec).2
  · intro hforgotten new fuel reseeded fid db' hexec
    obtain ⟨state, rfl⟩ := Store.registerTempfile_candidate new hcounter hexec
    exact ⟨db.seedFid_not_has state, hforgotten state⟩

/-- A file is uploaded as fid 1. -/
def uploaded : Db :=
  ((Operation.createClose openEnv.toQueryEnv keyArgs).prog.exec
    ((Operation.createOpen openEnv openArgsOfKey).prog.exec Db.fresh).2).2

/-- The next fid is fresh, and it is 2 even if the counter falls back to 1. -/
theorem allocatesFresh_uploaded : uploaded.seedFid true = 2 ∧ AllocatesFresh uploaded := by
  have hreachable : Reachable uploaded := (Reachable.fresh.exec _).exec _
  refine ⟨by decide +kernel, (allocatesFresh_iff hreachable).mpr fun reseeded => ?_⟩
  have hseed : uploaded.seedFid reseeded = 2 := by
    cases reseeded
    · decide +kernel
    · decide +kernel
  rw [hseed]
  refine ⟨fun devid hmem => ?_, by decide +kernel, by decide +kernel⟩
  have hrows : uploaded.fileOn.rows = [(1, 1)] := by decide +kernel
  rw [hrows] at hmem
  cases List.mem_singleton.mp hmem

/-! ### A counter that falls back -/

/-- It is deleted. -/
def uploadedAndDeleted : Db := ((Operation.delete openEnv.toQueryEnv keyArgs).prog.exec uploaded).2

/-- With the counter fallen back, the next upload gets fid 1 again, whose deletion is still pending. -/
theorem uploadedAndDeleted_reuses_fid :
    Reachable uploadedAndDeleted ∧ ¬ AllocatesFresh uploadedAndDeleted := by
  refine ⟨((Reachable.fresh.exec _).exec _).exec _, fun hfresh => ?_⟩
  have hreused : ((Store.registerTempfile ⟨1, "new".toList, 0, [], 0⟩ none 1 fun _ => true).exec
      uploadedAndDeleted).1 = .ok 1 ∧ uploadedAndDeleted.fileToDelete.Has 1 := by
    decide +kernel
  exact (hfresh _ _ _ 1 _ (Prod.ext hreused.1 rfl)).2.2.1 hreused.2

end Ylem
