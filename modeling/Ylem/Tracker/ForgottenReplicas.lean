import Ylem.Tracker.DeviceCounts

/-!
# Replicas that are forgotten

`process_deletes` removes rows of `file_on` and updates no count, for the files of these rows are gone. What a pass
forgets is a function of the devices and their replies (`forgotten`), up to the row at which the worker dies
(`processRows_spec`). The counts stay right exactly if none of this belongs to a file that is still there.
-/

namespace Ylem

/-! ### Deleting -/

namespace Worker.Delete

section Rows

variable (env : DeleteEnv)

/-- The worker asks the device to delete its replica. -/
def asksDevice (dev : Device) : Bool :=
  !dev.status.isPermDead && dev.observedWriteable && dev.status.canDeleteFrom && dev.host.isSome

/-- The URL of the replica makes the worker die. -/
def dies (r : ℕ × Option ℕ) : Bool :=
  (r.2.filter (· != 0)).any fun devid => (env.devs.ofDevid devid).any fun dev => asksDevice dev && env.volumeId.isNone

/-- The device has deleted the replica, or never had it. -/
def DeleteReply.deleted : DeleteReply → Bool
  | .status code => decide ((200 ≤ code ∧ code ≤ 299) ∨ code = 404)
  | _ => false

/-- The row of `file_on` that is deleted for a row of the join, if any. -/
def forgets (r : ℕ × Option ℕ) : Option (ℕ × ℕ) :=
  match r.2 with
  | none => none
  | some devid =>
    match if devid = 0 then none else env.devs.ofDevid devid with
    | none => some (r.1, devid)
    | some dev =>
      if dev.status.isPermDead || (asksDevice dev && env.volumeId.isSome && (env.reply r.1 dev.devid).deleted) then
        some (r.1, devid)
      else none

/-- The rows of `file_on` that are deleted for the rows of the join, until the worker dies. -/
def forgotten (rows : List (ℕ × Option ℕ)) : List (ℕ × ℕ) := (rows.takeWhile fun r => !dies env r).filterMap (forgets env)

/-- The rows of the join that a pass looks at. -/
def DeleteEnv.visited (db : Db) : List (ℕ × Option ℕ) := (env.shuffle ((Stmt.leftJoin db).take deleteLimit)).take perBatch

variable {env} {db : Db}

/-- What becomes of the replicas where one row is looked at. -/
structure ForgetsOnly (gone : ℕ × ℕ → Prop) (db db' : Db) : Prop where
  file : db'.file = db.file
  fileOn : ∀ r, r ∈ db'.fileOn.rows ↔ r ∈ db.fileOn.rows ∧ ¬ gone r

theorem ForgetsOnly.congr {gone gone' : ℕ × ℕ → Prop} {db db' : Db} (h : ForgetsOnly gone db db')
    (hgone : ∀ r, gone r ↔ gone' r) : ForgetsOnly gone' db db' :=
  ⟨h.file, fun r => by rw [h.fileOn, hgone]⟩

theorem ForgetsOnly.trans {gone gone' : ℕ × ℕ → Prop} {db db' db'' : Db} (h : ForgetsOnly gone db db')
    (h' : ForgetsOnly gone' db' db'') : ForgetsOnly (fun r => gone r ∨ gone' r) db db'' :=
  ⟨h'.file.trans h.file, fun r => by rw [h'.fileOn, h.fileOn, not_or, and_assoc]⟩

theorem forgetsOnly_nothing {db db' : Db} (hfile : db'.file = db.file) (hon : db'.fileOn = db.fileOn) :
    ForgetsOnly (fun _ => False) db db' :=
  ⟨hfile, fun r => by rw [hon]; exact (and_iff_left not_false).symm⟩

theorem forgetsOnly_deleteFileOn (fid devid : ℕ) (db : Db) :
    ForgetsOnly (· = (fid, devid)) db (Stmt.run (.deleteFileOn fid devid) db).2 := by
  refine ⟨rfl, fun r => ?_⟩
  show r ∈ db.fileOn.rows.filter _ ↔ _
  rw [List.mem_filter]
  simp

variable (env) in
theorem processDelete_spec (r : ℕ × Option ℕ) (db : Db) :
    (((processDelete env r.1 r.2).exec db).1 = none ↔ dies env r = true) ∧
      ForgetsOnly (fun x => dies env r = false ∧ forgets env r = some x) db ((processDelete env r.1 r.2).exec db).2 := by
  obtain ⟨fid, devid⟩ := r
  have hnothing : ∀ {db' : Db}, db'.file = db.file → db'.fileOn = db.fileOn →
      (dies env (fid, devid) = false → forgets env (fid, devid) = none) →
      ForgetsOnly (fun x => dies env (fid, devid) = false ∧ forgets env (fid, devid) = some x) db db' := by
    intro db' hfile hon hforgets
    refine (forgetsOnly_nothing hfile hon).congr fun x => iff_of_false not_false ?_
    rintro ⟨hdies, hsome⟩
    rw [hforgets hdies] at hsome
    cases hsome
  have hdelete : ∀ d, dies env (fid, devid) = false → forgets env (fid, devid) = some (fid, d) →
      ForgetsOnly (fun x => dies env (fid, devid) = false ∧ forgets env (fid, devid) = some x) db
        (Stmt.run (.deleteFileOn fid d) db).2 := by
    intro d hdies hforgets
    refine (forgetsOnly_deleteFileOn fid d db).congr fun x => ?_
    rw [hforgets, and_iff_right hdies, Option.some.injEq, eq_comm]
  cases devid with
  | none => exact ⟨iff_of_false (Option.some_ne_none ()) (by simp [dies]), hnothing rfl rfl fun _ => rfl⟩
  | some devid =>
    rw [processDelete]
    cases hdev : (if devid = 0 then none else env.devs.ofDevid devid) with
    | none =>
      have hdies : dies env (fid, some devid) = false := by
        by_cases hzero : devid = 0
        · simp [dies, hzero, Option.filter]
        · rw [if_neg hzero] at hdev
          simp [dies, hdev, Option.filter, hzero]
      refine ⟨iff_of_false (Option.some_ne_none ()) (by rw [hdies]; exact Bool.false_ne_true), hdelete devid hdies ?_⟩
      simp only [forgets, hdev]
    | some dev =>
      have hzero : devid ≠ 0 := fun hzero => by
        rw [if_pos hzero] at hdev
        cases hdev
      have hof : env.devs.ofDevid devid = some dev := by rwa [if_neg hzero] at hdev
      have hdevid : dev.devid = devid := (DeviceMap.ofDevid_eq_some.mp hof).2
      have hdies : dies env (fid, some devid) = (asksDevice dev && env.volumeId.isNone) := by
        simp [dies, hof, Option.filter, hzero]
      have hforgets : forgets env (fid, some devid) =
          if dev.status.isPermDead || (asksDevice dev && env.volumeId.isSome && (env.reply fid dev.devid).deleted) then
            some (fid, devid) else none := by
        simp only [forgets, hdev]
      have hnever : ∀ {x : Option Unit}, asksDevice dev = false → x ≠ none → (x = none ↔ dies env (fid, some devid) = true) :=
        fun hasks hx => iff_of_false hx (by simp [hdies, hasks])
      have hkeep : asksDevice dev = false → dev.status.isPermDead = false → dies env (fid, some devid) = false →
          forgets env (fid, some devid) = none := fun hasks hdead _ => by simp [hforgets, hdead, hasks]
      dsimp only
      by_cases hdead : dev.status.isPermDead = true
      · have hasks : asksDevice dev = false := by simp [asksDevice, hdead]
        rw [if_pos hdead]
        exact ⟨hnever hasks (Option.some_ne_none ()), hdelete devid (by simp [hdies, hasks]) (by simp [hforgets, hdead])⟩
      rw [if_neg hdead]
      rw [Bool.not_eq_true] at hdead
      by_cases hwriteable : dev.observedWriteable = true
      swap
      · have hasks : asksDevice dev = false := by simp [asksDevice, hwriteable]
        rw [if_pos (by simpa using hwriteable)]
        exact ⟨hnever hasks (Option.some_ne_none ()), hnothing rfl rfl (hkeep hasks hdead)⟩
      rw [if_neg (by simpa using hwriteable)]
      by_cases hstate : dev.status.canDeleteFrom = true
      swap
      · have hasks : asksDevice dev = false := by simp [asksDevice, hstate]
        rw [if_pos (by simpa using hstate)]
        exact ⟨hnever hasks (Option.some_ne_none ()), hnothing rfl rfl (hkeep hasks hdead)⟩
      rw [if_neg (by simpa using hstate), deleteOn]
      cases hhost : dev.host with
      | none =>
        have hasks : asksDevice dev = false := by simp [asksDevice, hhost]
        exact ⟨hnever hasks (Option.some_ne_none ()), hnothing rfl rfl (hkeep hasks hdead)⟩
      | some host =>
        have hasks : asksDevice dev = true := by simp [asksDevice, hdead, hwriteable, hstate, hhost]
        cases hvolume : env.volumeId with
        | none =>
          have hdead' : dies env (fid, some devid) = true := by simp [hdies, hasks, hvolume]
          exact ⟨iff_of_true rfl hdead', hnothing rfl rfl fun hlives => by simp [hdead'] at hlives⟩
        | some volid =>
          have hlives : dies env (fid, some devid) = false := by simp [hdies, hvolume]
          have hgoes : ∀ {x : Option Unit}, x ≠ none → (x = none ↔ dies env (fid, some devid) = true) := fun hx =>
            iff_of_false hx (by rw [hlives]; exact Bool.false_ne_true)
          have hstays : (env.reply fid dev.devid).deleted = false → dies env (fid, some devid) = false →
              forgets env (fid, some devid) = none := fun hreply _ => by simp [hforgets, hdead, hreply]
          dsimp only
          cases hreply : env.reply fid dev.devid with
          | noSock =>
            exact ⟨hgoes (Option.some_ne_none ()), hnothing rfl rfl (hstays (by rw [hreply]; rfl))⟩
          | garbage =>
            exact ⟨hgoes (Option.some_ne_none ()), hnothing rfl rfl (hstays (by rw [hreply]; rfl))⟩
          | status code =>
            dsimp only
            by_cases hcode : (200 ≤ code ∧ code ≤ 299) ∨ code = 404
            · rw [if_pos hcode, hdevid]
              refine ⟨hgoes (Option.some_ne_none ()), hdelete devid hlives ?_⟩
              simp [hforgets, hasks, hvolume, hreply, DeleteReply.deleted, hcode]
            · rw [if_neg hcode]
              have hkept : (env.reply fid dev.devid).deleted = false := by
                rw [hreply]
                exact decide_eq_false hcode
              exact ⟨hgoes (Option.some_ne_none ()), hnothing rfl rfl (hstays hkept)⟩

/-- The rows up to the one at which the worker dies. -/
theorem processRows_spec (rows : List (ℕ × Option ℕ)) (db : Db) :
    ForgetsOnly (· ∈ forgotten env rows) db ((processRows env rows).exec db).2 := by
  induction rows generalizing db with
  | nil => exact (forgetsOnly_nothing rfl rfl).congr fun x => by simp [forgotten]
  | cons r rows ih =>
    obtain ⟨hdies, hrow⟩ := processDelete_spec env r db
    rw [processRows]
    simp only [DbProg.exec, Prog.exec_bind]
    cases hresult : ((processDelete env r.1 r.2).exec db).1 with
    | none =>
      have hd := hdies.mp hresult
      rw [DbProg.exec] at hresult hrow
      dsimp only
      refine hrow.congr fun x => iff_of_false (fun h => ?_) fun h => ?_
      · rw [hd] at h
        exact Bool.noConfusion h.1
      · rw [forgotten, List.takeWhile_cons_of_neg (by simp [hd])] at h
        exact absurd h List.not_mem_nil
    | some u =>
      have hd : dies env r = false := by
        rw [← Bool.not_eq_true, ← hdies, hresult]
        exact Option.some_ne_none u
      rw [DbProg.exec] at hresult hrow
      dsimp only
      refine (hrow.trans (ih _)).congr fun x => ?_
      rw [and_iff_right hd, forgotten, forgotten, List.takeWhile_cons_of_pos (by simp [hd]), List.filterMap_cons]
      cases hforgets : forgets env r with
      | none => simp
      | some y => simp [eq_comm]

theorem mem_devidsOf_of_forgotten {r : ℕ × ℕ} (h : r ∈ forgotten env (env.visited db)) : r.2 ∈ db.devidsOf r.1 := by
  obtain ⟨⟨fid, devid⟩, hmem, hforgets⟩ := List.mem_filterMap.mp h
  have hjoin : (fid, devid) ∈ Stmt.leftJoin db := by
    have hvisited := (List.takeWhile_sublist _).subset hmem
    exact List.mem_of_mem_take ((env.shuffle_perm _).mem_iff.mp (List.mem_of_mem_take hvisited))
  have hr : ∃ d, devid = some d ∧ r = (fid, d) := by
    cases devid with
    | none => cases hforgets
    | some d =>
      refine ⟨d, rfl, ?_⟩
      simp only [forgets] at hforgets
      split at hforgets
      · exact (Option.some.inj hforgets).symm
      · split_ifs at hforgets
        exact (Option.some.inj hforgets).symm
  obtain ⟨d, rfl, rfl⟩ := hr
  obtain ⟨x, -, hx⟩ := List.mem_flatMap.mp hjoin
  split at hx
  · rw [List.mem_singleton] at hx
    cases (Prod.mk.inj hx).2
  · obtain ⟨d', hd', heq⟩ := List.mem_map.mp hx
    obtain ⟨rfl, hd⟩ := Prod.mk.inj heq
    rwa [← Option.some.inj hd]

end Rows

end Worker.Delete

namespace Db

variable {db db' : Db} {fid : ℕ}

theorem length_devidsOf_eq_iff (hsub : ∀ devid ∈ db'.devidsOf fid, devid ∈ db.devidsOf fid) :
    (db'.devidsOf fid).length = (db.devidsOf fid).length ↔ ∀ devid ∈ db.devidsOf fid, devid ∈ db'.devidsOf fid := by
  have hsubperm : (db'.devidsOf fid).Subperm (db.devidsOf fid) := List.subperm_of_subset (db'.nodup_devidsOf fid) hsub
  constructor
  · intro hlength devid hdevid
    exact (hsubperm.perm_of_length_le hlength.ge).mem_iff.mpr hdevid
  · intro hall
    exact le_antisymm hsubperm.length_le (List.subperm_of_subset (db.nodup_devidsOf fid) hall).length_le

/-- Where files keep their rows and only replicas go, the counts stay right exactly if no file loses one. -/
theorem counted_iff_of_forgetsOnly {gone : ℕ × ℕ → Prop} (h : db.Counted) (hforgets : Worker.Delete.ForgetsOnly gone db db') :
    db'.Counted ↔ ∀ r ∈ db.fileOn.rows, gone r → ¬ db.file.Has r.1 := by
  have hsub : ∀ fid, ∀ devid ∈ db'.devidsOf fid, devid ∈ db.devidsOf fid := fun fid devid hdevid => by
    rw [mem_devidsOf] at hdevid ⊢
    exact ((hforgets.fileOn _).mp hdevid).1
  constructor
  · intro hcounted r hr hgone hhas
    have hsame := (counts_iff_of_file_eq hforgets.file (h r.1)).mp (hcounted r.1) hhas
    have hin := (length_devidsOf_eq_iff (hsub r.1)).mp hsame r.2 (db.mem_devidsOf.mpr hr)
    exact ((hforgets.fileOn r).mp (db'.mem_devidsOf.mp hin)).2 hgone
  · intro hgone fid
    refine (counts_iff_of_file_eq hforgets.file (h fid)).mpr fun hhas => (length_devidsOf_eq_iff (hsub fid)).mpr ?_
    intro devid hdevid
    rw [mem_devidsOf] at hdevid ⊢
    exact (hforgets.fileOn _).mpr ⟨hdevid, fun hgo => hgone _ hdevid hgo hhas⟩

end Db

/-- The counts stay right, unless a replica of a file is forgotten. -/
theorem counted_processDeletes_iff (env : Worker.Delete.DeleteEnv) {db : Db} (h : db.Counted) :
    ((Worker.Delete.processDeletes env).exec db).2.Counted ↔
      ∀ r ∈ Worker.Delete.forgotten env (env.visited db), ¬ db.file.Has r.1 := by
  have hforgets : Worker.Delete.ForgetsOnly (· ∈ Worker.Delete.forgotten env (env.visited db)) db
      ((Worker.Delete.processDeletes env).exec db).2 := by
    simp only [Worker.Delete.processDeletes, DbProg.exec, Prog.exec_bind, Prog.exec_issue, Stmt.run]
    cases hrows : (Stmt.leftJoin db).take Worker.Delete.deleteLimit with
    | nil =>
      refine (Worker.Delete.forgetsOnly_nothing rfl rfl).congr fun r => ?_
      have hvisited : env.visited db = [] := by
        have hperm : env.shuffle [] = [] := List.Perm.eq_nil (env.shuffle_perm [])
        rw [Worker.Delete.DeleteEnv.visited, hrows, hperm, List.take_nil]
      rw [hvisited]
      exact (iff_of_false List.not_mem_nil not_false).symm
    | cons row rows =>
      have hvisited : env.visited db = (env.shuffle (row :: rows)).take Worker.Delete.perBatch := by
        rw [Worker.Delete.DeleteEnv.visited, hrows]
      rw [hvisited]
      exact Worker.Delete.processRows_spec _ db
  rw [Db.counted_iff_of_forgetsOnly h hforgets]
  exact ⟨fun hall r hr => hall r (db.mem_devidsOf.mp (Worker.Delete.mem_devidsOf_of_forgotten hr)) hr,
    fun hall r _ hr => hall r hr⟩

/-! ### Uploads that were never closed -/

section Tempfiles

open Worker.Delete

theorem collectTempfiles_spec (rows : List (ℕ × Text)) (devfids : List (ℕ × Text)) (fidids : List ℕ) (db : Db)
    (hdevfids : ∀ devfid ∈ devfids, ¬ db.file.Has devfid.1) :
    let run := (collectTempfiles rows devfids fidids).exec db
    run.2.file = db.file ∧ run.2.fileOn = db.fileOn ∧
      ∀ found, run.1 = some found → ∀ devfid ∈ found.1, ¬ db.file.Has devfid.1 := by
  induction rows generalizing devfids fidids db with
  | nil =>
    refine ⟨rfl, rfl, fun found hfound => ?_⟩
    obtain rfl := Option.some.inj hfound
    exact hdevfids
  | cons row rows ih =>
    obtain ⟨fidid, devids⟩ := row
    intro run
    simp only [run, collectTempfiles]
    split_ifs with hzero
    · exact ⟨rfl, rfl, fun found hfound => by cases hfound⟩
    simp only [DbProg.exec, Prog.exec_bind, Prog.exec_issue, Stmt.run]
    cases hrow : db.file.find? fidid with
    | some file =>
      dsimp only
      rw [Prog.exec_bind]
      exact ih devfids fidids (Stmt.run (.deleteTempfiles [fidid]) db).2 hdevfids
    | none =>
      refine ih _ _ db fun devfid hdevfid => ?_
      rcases List.mem_append.mp hdevfid with hdevfid | hdevfid
      · exact hdevfids devfid hdevfid
      · obtain ⟨devid, -, rfl⟩ := List.mem_map.mp hdevfid
        exact Table.find?_eq_none.mp hrow

/-- The devices of fids without a file do not matter to the counts. -/
theorem counted_insertFileOn_iff {rows : List (ℕ × ℕ)} {db : Db} (hrows : ∀ row ∈ rows, ¬ db.file.Has row.1) :
    (Stmt.run (.insertFileOn rows) db).2.Counted ↔ db.Counted := by
  refine forall_congr' fun fid => ?_
  by_cases hhas : db.file.Has fid
  · have hspares : (Stmt.insertFileOn rows).SparesFid fid := fun row hrow heq => hrows row hrow (heq ▸ hhas)
    exact hspares.sameFid.counts_iff
  · exact iff_of_true (Db.counts_of_not_has hhas) (Db.counts_of_not_has hhas)

theorem keepsCounts_processTempfiles (now tooOld : ℕ) : KeepsCounts (processTempfiles now tooOld) := by
  refine .bind (.stmt fun _ => trivial) fun tempfiles => ?_
  rcases tempfiles with _ | ⟨tempfile, tempfiles⟩
  · exact .ret _
  intro db h
  dsimp only
  rw [DbProg.exec, Prog.exec_bind]
  have hspec := collectTempfiles_spec (tempfile :: tempfiles) [] [] db fun _ hmem => absurd hmem List.not_mem_nil
  rw [DbProg.exec] at hspec
  generalize Prog.exec Stmt.run (collectTempfiles (tempfile :: tempfiles) [] []) db = collected at hspec ⊢
  obtain ⟨found, db'⟩ := collected
  obtain ⟨hfile, hon, hfound⟩ := hspec
  have h' : db'.Counted := fun fid => (Db.counts_congr hfile hon).mpr (h fid)
  cases found with
  | none => exact h'
  | some found =>
    obtain ⟨devfids, fidids⟩ := found
    have hdevfids : ∀ devfid ∈ devfids, ¬ db'.file.Has devfid.1 := by
      rw [hfile]
      exact hfound _ rfl
    have hrest : KeepsCounts (if fidids.isEmpty then pure (.died "file_to_delete insert failed")
        else do
          sql (.insertFileToDelete fidids)
          sql (.deleteTempfiles fidids)
          pure (PassResult.done true) : DbProg PassResult) := by
      split_ifs
      · exact .ret _
      · exact .bind (.stmt fun _ => trivial) fun _ => .bind (.stmt fun _ => trivial) fun _ => .ret _
    show ((massInsertFileOn devfids >>= _).exec db').2.Counted
    rw [DbProg.exec, Prog.exec_bind, massInsertFileOn]
    by_cases hempty : devfids.isEmpty = true
    · rw [if_pos hempty]
      exact hrest db' h'
    rw [if_neg hempty]
    by_cases hdevid : (devfids.any fun devfid => devfid.2 = ['0']) = true
    · rw [if_pos hdevid]
      exact h'
    rw [if_neg hdevid]
    refine hrest _ ((counted_insertFileOn_iff fun row hrow => ?_).mpr h')
    obtain ⟨devfid, hdevfid, rfl⟩ := List.mem_map.mp hrow
    exact hdevfids devfid hdevfid

end Tempfiles

end Ylem
