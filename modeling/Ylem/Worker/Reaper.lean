import Ylem.Worker.ReplicateQueue

/-!
# The reaper

The reaper takes the files of a dead device out of its hands: each is enqueued for replication first, so
that a failure on the way cannot strand it, and then the record of the replica goes. A device that has been
found empty is remembered for as long as the process lives, and not looked at again.
-/

namespace Ylem

namespace Worker.Reaper

/-- `DEVICE_SUMMARY_CACHE_TIMEOUT`, the seconds for which a tracker may believe an old device table. -/
def deviceSummaryCacheTimeout : ℕ := 15

/-- One fid of a dead device; `lock` is the answer of `get_lock` for the device count. -/
def reapFid (now : ℕ) (lock : Option Bool) (fid devid : ℕ) : DbProg Unit := do
  sql (.insertFileToReplicate ⟨fid, now + deviceSummaryCacheTimeout + 1, none, 0⟩)
  sql (.deleteFileOn fid devid)
  let _ ← Store.updateDevcountAtomic lock fid
  pure ()

def reapFids (now : ℕ) (lock : ℕ → Option Bool) (devid : ℕ) : List ℕ → DbProg Unit
  | [] => pure ()
  | fid :: fids => do
    reapFid now (lock fid) fid devid
    reapFids now lock devid fids

/-- The pass over one dead device: whether it was empty. -/
def reapDevice (now : ℕ) (lock : ℕ → Option Bool) (devid : ℕ) : DbProg Bool := do
  match ← sql (.selectFidsByDevice devid 1000) with
  | [] => pure true
  | fids => do
    reapFids now lock devid fids
    pure false

/-- One device in a pass, and which devices are known to be empty after it. -/
def workOn (now : ℕ) (lock : ℕ → ℕ → Option Bool) (dev : Device) (allEmpty : List ℕ) : DbProg (List ℕ) :=
  if !dev.status.isPermDead || allEmpty.contains dev.devid then pure allEmpty
  else do
    let empty ← reapDevice now (lock dev.devid) dev.devid
    pure (if empty then dev.devid :: allEmpty else allEmpty)

/-- A pass over all devices. -/
def work (now : ℕ) (lock : ℕ → ℕ → Option Bool) : List Device → List ℕ → DbProg (List ℕ)
  | [], allEmpty => pure allEmpty
  | dev :: devs, allEmpty => do
    let allEmpty ← workOn now lock dev allEmpty
    work now lock devs allEmpty

end Worker.Reaper

/-! ### What a pass does -/

/-- The device has rows in `file_on`. -/
def Db.HasFiles (db : Db) (devid : ℕ) : Prop := ∃ r ∈ db.fileOn.rows, r.2 = devid

instance (db : Db) (devid : ℕ) : Decidable (db.HasFiles devid) := inferInstanceAs (Decidable (∃ _ ∈ _, _))

theorem Db.filter_eq_nil_iff {db : Db} {devid : ℕ} :
    (db.fileOn.rows.filter fun r => r.2 = devid) = [] ↔ ¬ db.HasFiles devid := by
  simp only [Db.HasFiles, List.filter_eq_nil_iff, decide_eq_true_eq, not_exists, not_and]

/-- A fid has been taken from the device: it is to be replicated, and no longer recorded on the device. -/
def TakesFrom (devid : ℕ) (db db' : Db) : Prop :=
  ∃ fid, (fid, devid) ∈ db.fileOn.rows ∧ (fid, devid) ∉ db'.fileOn.rows ∧ db'.fileToReplicate.Has fid

/-- Only files of the devices are forgotten, and none is taken out of the queue. -/
structure ReapsOnly (devids : List ℕ) (db db' : Db) : Prop where
  fileOn : ∀ r, r ∈ db'.fileOn.rows → r ∈ db.fileOn.rows
  others : ∀ r ∈ db.fileOn.rows, r.2 ∉ devids → r ∈ db'.fileOn.rows
  queue : ∀ fid, db.fileToReplicate.Has fid → db'.fileToReplicate.Has fid

section Reap

variable {now devid fid : ℕ} {devids devids' : List ℕ} {lock : ℕ → Option Bool} {locks : ℕ → ℕ → Option Bool} {db db' db'' : Db}
  {dev : Device} {devs : List Device} {allEmpty : List ℕ}

theorem ReapsOnly.refl (devids : List ℕ) (db : Db) : ReapsOnly devids db db :=
  ⟨fun _ => id, fun _ h _ => h, fun _ => id⟩

theorem ReapsOnly.trans (h : ReapsOnly devids db db') (h' : ReapsOnly devids db' db'') : ReapsOnly devids db db'' :=
  ⟨fun r hr => h.fileOn r (h'.fileOn r hr), fun r hr hne => h'.others r (h.others r hr hne) hne,
    fun fid hq => h'.queue fid (h.queue fid hq)⟩

theorem ReapsOnly.mono (h : ReapsOnly devids db db') (hsub : devids ⊆ devids') : ReapsOnly devids' db db' :=
  ⟨h.fileOn, fun r hr hne => h.others r hr fun hin => hne (hsub hin), h.queue⟩

/-- The rows of another device are the same. -/
theorem ReapsOnly.mem_iff (h : ReapsOnly devids db db') (hdev : devid ∉ devids) :
    (fid, devid) ∈ db'.fileOn.rows ↔ (fid, devid) ∈ db.fileOn.rows :=
  ⟨h.fileOn _, fun hr => h.others _ hr hdev⟩

theorem ReapsOnly.hasFiles_iff (h : ReapsOnly devids db db') (hdev : devid ∉ devids) :
    db'.HasFiles devid ↔ db.HasFiles devid :=
  ⟨fun ⟨r, hr, heq⟩ => ⟨r, h.fileOn r hr, heq⟩, fun ⟨r, hr, heq⟩ => ⟨r, h.others r hr (heq ▸ hdev), heq⟩⟩

theorem TakesFrom.of_later (h : TakesFrom devid db db') (h' : ReapsOnly devids db' db'') : TakesFrom devid db db'' := by
  obtain ⟨fid, hmem, hnot, hqueue⟩ := h
  exact ⟨fid, hmem, fun hin => hnot (h'.fileOn _ hin), h'.queue fid hqueue⟩

open Worker.Reaper

theorem exec_reapFid (now : ℕ) (lock : Option Bool) (fid devid : ℕ) (db : Db) :
    ((reapFid now lock fid devid).exec db).2.fileOn = db.fileOn.delete (fun r => r = (fid, devid)) ∧
      ((reapFid now lock fid devid).exec db).2.fileToReplicate =
        db.fileToReplicate.insertIgnore ⟨fid, now + deviceSummaryCacheTimeout + 1, none, 0⟩ := by
  unfold reapFid Store.updateDevcountAtomic
  split_ifs <;> exact ⟨rfl, rfl⟩

theorem reapsOnly_reapFid (now : ℕ) (lock : Option Bool) (fid devid : ℕ) (db : Db) :
    ReapsOnly [devid] db ((reapFid now lock fid devid).exec db).2 := by
  obtain ⟨hon, hqueue⟩ := exec_reapFid now lock fid devid db
  refine ⟨fun r hr => ?_, fun r hr hne => ?_, fun fid' hq => ?_⟩
  · rw [hon] at hr
    exact (List.mem_filter.mp hr).1
  · rw [hon, Table.rows_delete, List.mem_filter]
    exact ⟨hr, by simpa [Prod.ext_iff] using Or.inr (List.ne_of_not_mem_cons hne)⟩
  · rw [hqueue, Table.has_insertIgnore]
    exact .inl hq

theorem reapsOnly_reapFids (fids : List ℕ) (db : Db) :
    ReapsOnly [devid] db ((reapFids now lock devid fids).exec db).2 := by
  induction fids generalizing db with
  | nil => exact .refl [devid] db
  | cons fid fids ih => exact (reapsOnly_reapFid now (lock fid) fid devid db).trans (by
      simpa only [reapFids, DbProg.exec, Prog.exec_bind] using ih _)

theorem takesFrom_reapFids {fids : List ℕ} (h : (fid, devid) ∈ db.fileOn.rows) :
    TakesFrom devid db ((reapFids now lock devid (fid :: fids)).exec db).2 := by
  obtain ⟨hon, hqueue⟩ := exec_reapFid now (lock fid) fid devid db
  have hrest : ReapsOnly [devid] ((reapFid now (lock fid) fid devid).exec db).2
      ((reapFids now lock devid (fid :: fids)).exec db).2 := by
    simpa only [reapFids, DbProg.exec, Prog.exec_bind] using reapsOnly_reapFids fids _
  refine ⟨fid, h, fun hmem => ?_, hrest.queue fid ?_⟩
  · have hmem' := hrest.fileOn _ hmem
    rw [hon, Table.rows_delete, List.mem_filter] at hmem'
    exact absurd hmem'.2 (by simp)
  · rw [hqueue, Table.has_insertIgnore]
    exact .inr rfl

theorem reapDevice_cases (now : ℕ) (lock : ℕ → Option Bool) (devid : ℕ) (db : Db) :
    (¬ db.HasFiles devid ∧ (reapDevice now lock devid).exec db = (true, db)) ∨
      (db.HasFiles devid ∧ ((reapDevice now lock devid).exec db).1 = false ∧
        ReapsOnly [devid] db ((reapDevice now lock devid).exec db).2 ∧
        TakesFrom devid db ((reapDevice now lock devid).exec db).2) := by
  have hselect : (Stmt.selectFidsByDevice devid 1000).run db =
      (((db.fileOn.rows.filter fun r => r.2 = devid).take 1000).map Prod.fst, db) := rfl
  cases hrows : db.fileOn.rows.filter fun r => r.2 = devid with
  | nil =>
    refine .inl ⟨Db.filter_eq_nil_iff.mp hrows, ?_⟩
    simp only [reapDevice, DbProg.exec, Prog.exec_bind, Prog.exec_issue, hselect, hrows]
    rfl
  | cons r rows =>
    have hr : r ∈ db.fileOn.rows.filter fun r => r.2 = devid := hrows ▸ List.mem_cons_self
    obtain ⟨hmem, hdev⟩ := List.mem_filter.mp hr
    obtain ⟨fid, devid'⟩ := r
    obtain rfl : devid' = devid := of_decide_eq_true hdev
    have hexec : (reapDevice now lock devid').exec db =
        (false, ((reapFids now lock devid' (fid :: (rows.take 999).map Prod.fst)).exec db).2) := by
      have htake : ((fid, devid') :: rows).take 1000 = (fid, devid') :: rows.take 999 := rfl
      simp only [reapDevice, DbProg.exec, Prog.exec_bind, Prog.exec_issue, hselect, hrows, htake, List.map_cons]
      rfl
    rw [hexec]
    exact .inr ⟨⟨_, hmem, rfl⟩, rfl, reapsOnly_reapFids _ db, takesFrom_reapFids hmem⟩

theorem workOn_cases (now : ℕ) (locks : ℕ → ℕ → Option Bool) (dev : Device) (allEmpty : List ℕ) (db : Db) :
    ((dev.status.isPermDead = false ∨ dev.devid ∈ allEmpty) ∧
        (workOn now locks dev allEmpty).exec db = (allEmpty, db)) ∨
      (dev.status.isPermDead = true ∧ dev.devid ∉ allEmpty ∧ ¬ db.HasFiles dev.devid ∧
        (workOn now locks dev allEmpty).exec db = (dev.devid :: allEmpty, db)) ∨
      (dev.status.isPermDead = true ∧ dev.devid ∉ allEmpty ∧ db.HasFiles dev.devid ∧
        ((workOn now locks dev allEmpty).exec db).1 = allEmpty ∧
        ReapsOnly [dev.devid] db ((workOn now locks dev allEmpty).exec db).2 ∧
        TakesFrom dev.devid db ((workOn now locks dev allEmpty).exec db).2) := by
  by_cases hskip : dev.status.isPermDead = false ∨ dev.devid ∈ allEmpty
  · refine .inl ⟨hskip, ?_⟩
    rw [workOn, if_pos (by simpa using hskip)]
    rfl
  · have hdead : dev.status.isPermDead = true := Bool.eq_true_of_not_eq_false fun h => hskip (.inl h)
    have hnew : dev.devid ∉ allEmpty := fun h => hskip (.inr h)
    have hexec : (workOn now locks dev allEmpty).exec db =
        (if ((reapDevice now (locks dev.devid) dev.devid).exec db).1 then dev.devid :: allEmpty else allEmpty,
          ((reapDevice now (locks dev.devid) dev.devid).exec db).2) := by
      rw [workOn, if_neg (by simpa using hskip)]
      simp only [DbProg.exec, Prog.exec_bind, Prog.pure_eq, Prog.exec_ret]
    rw [hexec]
    rcases reapDevice_cases now (locks dev.devid) dev.devid db with ⟨hempty, heq⟩ | ⟨hfiles, hfalse, honly, htakes⟩
    · refine .inr (.inl ⟨hdead, hnew, hempty, ?_⟩)
      rw [heq]
      rfl
    · refine .inr (.inr ⟨hdead, hnew, hfiles, ?_, honly, htakes⟩)
      rw [hfalse]
      rfl

theorem reapsOnly_workOn (now : ℕ) (locks : ℕ → ℕ → Option Bool) (dev : Device) (allEmpty : List ℕ) (db : Db) :
    ReapsOnly [dev.devid] db ((workOn now locks dev allEmpty).exec db).2 := by
  rcases workOn_cases now locks dev allEmpty db with ⟨_, heq⟩ | ⟨_, _, _, heq⟩ | ⟨_, _, _, _, honly, _⟩
  · rw [heq]
    exact .refl _ db
  · rw [heq]
    exact .refl _ db
  · exact honly

theorem exec_work_cons (now : ℕ) (locks : ℕ → ℕ → Option Bool) (dev : Device) (devs : List Device)
    (allEmpty : List ℕ) (db : Db) : (work now locks (dev :: devs) allEmpty).exec db =
      (work now locks devs ((workOn now locks dev allEmpty).exec db).1).exec
        ((workOn now locks dev allEmpty).exec db).2 := by
  simp only [work, DbProg.exec, Prog.exec_bind]

theorem reapsOnly_work (now : ℕ) (locks : ℕ → ℕ → Option Bool) (devs : List Device) (allEmpty : List ℕ) (db : Db) :
    ReapsOnly (devs.map Device.devid) db ((work now locks devs allEmpty).exec db).2 := by
  induction devs generalizing allEmpty db with
  | nil => exact .refl _ db
  | cons dev devs ih =>
    rw [exec_work_cons]
    exact ((reapsOnly_workOn now locks dev allEmpty db).mono (by simp)).trans ((ih _ _).mono (by simp))

theorem mem_work (hnodup : (devs.map Device.devid).Nodup) :
    devid ∈ ((work now locks devs allEmpty).exec db).1 ↔
      devid ∈ allEmpty ∨ ∃ d ∈ devs, d.devid = devid ∧ d.status.isPermDead = true ∧ ¬ db.HasFiles devid := by
  induction devs generalizing allEmpty db with
  | nil =>
    show devid ∈ allEmpty ↔ _
    simp
  | cons dev devs ih =>
    rw [List.map_cons, List.nodup_cons] at hnodup
    have honly := reapsOnly_workOn now locks dev allEmpty db
    have htail : (∃ d ∈ devs, d.devid = devid ∧ d.status.isPermDead = true ∧
          ¬ ((workOn now locks dev allEmpty).exec db).2.HasFiles devid) ↔
        ∃ d ∈ devs, d.devid = devid ∧ d.status.isPermDead = true ∧ ¬ db.HasFiles devid := by
      refine exists_congr fun d => and_congr_right fun hd => and_congr_right fun hdevid => ?_
      have hne : devid ∉ [dev.devid] := by
        rintro hmem
        rw [List.mem_singleton.mp hmem] at hdevid
        exact hnodup.1 (hdevid ▸ List.mem_map_of_mem hd)
      rw [honly.hasFiles_iff hne]
    have hhead : devid ∈ ((workOn now locks dev allEmpty).exec db).1 ↔ devid ∈ allEmpty ∨
        (dev.devid = devid ∧ dev.status.isPermDead = true ∧ ¬ db.HasFiles devid) := by
      rcases workOn_cases now locks dev allEmpty db with
        ⟨hskip, heq⟩ | ⟨hdead, _, hempty, heq⟩ | ⟨_, _, hfiles, heq, _, _⟩
      · rw [heq]
        refine ⟨.inl, ?_⟩
        rintro (hmem | ⟨rfl, hdead, _⟩)
        · exact hmem
        · exact hskip.resolve_left (by rw [hdead]; decide)
      · rw [heq, List.mem_cons, or_comm]
        refine or_congr_right ⟨?_, fun h => h.1.symm⟩
        rintro rfl
        exact ⟨rfl, hdead, hempty⟩
      · rw [heq]
        refine ⟨.inl, ?_⟩
        rintro (hmem | ⟨rfl, _, hempty⟩)
        · exact hmem
        · exact absurd hfiles hempty
    rw [exec_work_cons, ih hnodup.2, hhead, htail, or_assoc, List.exists_mem_cons_iff]

/-- A pass takes files from the dead devices that have some, unless they are known to be empty. -/
theorem takesFrom_work_iff (hnodup : (devs.map Device.devid).Nodup) (hdev : dev ∈ devs)
    (hdead : dev.status.isPermDead = true) (hfiles : db.HasFiles dev.devid) :
    TakesFrom dev.devid db ((work now locks devs allEmpty).exec db).2 ↔ dev.devid ∉ allEmpty := by
  induction devs generalizing allEmpty db with
  | nil => exact absurd hdev List.not_mem_nil
  | cons first devs ih =>
    rw [List.map_cons, List.nodup_cons] at hnodup
    rw [exec_work_cons]
    rcases List.mem_cons.mp hdev with rfl | hdev
    · have hrest := reapsOnly_work now locks devs ((workOn now locks dev allEmpty).exec db).1
        ((workOn now locks dev allEmpty).exec db).2
      rcases workOn_cases now locks dev allEmpty db with
        ⟨hskip, heq⟩ | ⟨_, _, hempty, _⟩ | ⟨_, hnew, _, _, _, htakes⟩
      · -- the device is skipped, and nothing else in the pass touches its rows
        have hknown : dev.devid ∈ allEmpty := hskip.resolve_left (by rw [hdead]; decide)
        rw [heq] at hrest ⊢
        refine iff_of_false ?_ (not_not.mpr hknown)
        rintro ⟨fid, hmem, hnot, _⟩
        exact hnot ((hrest.mem_iff hnodup.1).mpr hmem)
      · exact absurd hfiles hempty
      · exact iff_of_true (htakes.of_later hrest) hnew
    · have hne : dev.devid ∉ [first.devid] := fun hmem =>
        hnodup.1 (List.mem_singleton.mp hmem ▸ List.mem_map_of_mem hdev)
      have honly := reapsOnly_workOn now locks first allEmpty db
      have hsame : dev.devid ∈ ((workOn now locks first allEmpty).exec db).1 ↔ dev.devid ∈ allEmpty := by
        rcases workOn_cases now locks first allEmpty db with ⟨_, heq⟩ | ⟨_, _, _, heq⟩ | ⟨_, _, _, heq, _, _⟩
        · rw [heq]
        · rw [heq, List.mem_cons, or_iff_right fun h => hne (List.mem_singleton.mpr h)]
        · rw [heq]
      rw [← hsame, ← ih hnodup.2 hdev ((honly.hasFiles_iff hne).mpr hfiles)]
      refine exists_congr fun fid => and_congr_left fun _ => ?_
      rw [honly.mem_iff hne]

end Reap

end Ylem
