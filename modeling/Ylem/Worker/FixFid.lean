import Ylem.Worker.MeetPolicy

/-!
# Repairing a fid

When fsck finds something wrong with a fid, `fix_fid` asks every recorded device for the size of its copy. If
none has a good copy it searches the other devices, in random order and only until it has found one. Then it
records the copy that it has found, forgets the devices whose copies are bad or missing, and queues the fid
for replication if the policy of its class is not met.

The database is not touched before all the checks are made, and a device is checked once, so that it is good
or bad but not both (`Checked.Sound`). So whatever the checks find, the file is recorded on good devices
in the end, and on at least one, or the records are what they were (`fixFid_safe`).
-/

namespace Ylem

namespace DeviceState

def shouldFsckSearchOn (s : DeviceState) : Bool := s.canReadFrom || s.shouldHaveFiles

end DeviceState

/-! ### Checking the devices -/

/-- The outcome of a size check: a copy, no copy, a device that cannot be reached, or an exception. -/
inductive SizeCheck where
  | found (size : ℕ)
  | missing
  | unreachable
  | died (error : String)
  deriving DecidableEq

/-- `$disk_size`, or the exception: a missing copy has size zero. -/
def SizeCheck.diskSize : SizeCheck → Except String ℕ
  | found size => .ok size
  | missing => .ok 0
  | unreachable => .error "dev unreachable"
  | died error => .error error

/-- What `fix_fid` meets: the devices and the classes of files, the size checks, the shuffle of the search,
the draws of the policy and the answer of `get_lock`. -/
structure FixEnv where
  devs : DeviceMap
  classOf : FileRow → Option ReplClass
  check : ℕ → SizeCheck
  shuffle : List ℕ → List ℕ
  shuffle_perm : ∀ l, (shuffle l).Perm l
  weights : ℕ → Draw
  lock : Option Bool

/-- The entries of the fsck log that `fix_fid` makes. -/
inductive FsckLogEvent where
  | fileMissing | badLength | startSearch | foundFid | reReplicate
  deriving DecidableEq

/-- `@good_devs`, `@bad_devs`, the keys of `%already_checked`, and the log. -/
structure Checked where
  good : List ℕ
  bad : List ℕ
  already : List ℕ
  log : List (FsckLogEvent × Option ℕ)
  deriving DecidableEq

namespace Checked

def start : Checked := ⟨[], [], [], []⟩

def fsckLog (c : Checked) (event : FsckLogEvent) (devid : Option ℕ) : Checked :=
  { c with log := c.log ++ [(event, devid)] }

/-- Mark a device as checked. -/
def mark (c : Checked) (devid : ℕ) : Checked := { c with already := devid :: c.already }

def addGood (c : Checked) (devid : ℕ) : Checked := { c.mark devid with good := c.good ++ [devid] }

/-- A search does not log the bad devices. -/
def addBad (c : Checked) (desperate : Bool) (devid diskSize : ℕ) : Checked :=
  { c.mark devid with
    bad := c.bad ++ [devid]
    log := if desperate then c.log
      else c.log ++ [(if diskSize = 0 then .fileMissing else .badLength, some devid)] }

end Checked

section Check

variable (env : FixEnv) (length : ℕ)

/-- The size of the copy on a device. A device that is not in the table has no host to ask. -/
def FixEnv.sizeOnDisk (devid : ℕ) : SizeCheck :=
  match env.devs.ofDevid devid with
  | none => .died s!"Device {devid} doesn't exist"
  | some _ => env.check devid

/-- `$check_dfids`, with the exception it dies of. -/
def checkDfids (desperate : Bool) : List ℕ → Checked → Checked × Option String
  | [], c => (c, none)
  | devid :: dfids, c =>
    if c.already.contains devid then checkDfids desperate dfids c
    else match (env.sizeOnDisk devid).diskSize with
      | .error error => (c.mark devid, some error)
      | .ok diskSize =>
        if diskSize = length then
          -- a desperate search stops at the first good copy
          if desperate then (c.addGood devid, none) else checkDfids desperate dfids (c.addGood devid)
        else checkDfids desperate dfids (c.addBad desperate devid diskSize)

end Check

/-! ### fix_fid -/

inductive FixResult where
  | handled
  | cantFix
  | died (error : String)
  deriving DecidableEq

/-- The result of `fix_fid`, and what the checks have found. -/
structure FixRun where
  result : FixResult
  checked : Checked
  deriving DecidableEq

section Fix

variable (env : FixEnv) (row : FileRow)

/-- `forget_about_device` for the bad devices. -/
def forgetBad (fid : ℕ) : List ℕ → DbProg Unit
  | [] => pure ()
  | bdev :: bad => do
    sql (.deleteFileOn fid bdev)
    forgetBad fid bad

/-- Does the fid meet its policy on these devices? Nothing if it dies. -/
def fidMeetsPolicy (devids : List ℕ) : Option Bool := do
  let cls ← env.classOf row
  let onDevs ← devids.mapM env.devs.ofDevid
  devidsMeetPolicy env.devs cls env.weights onDevs

/-- The part from the removal of the bad devices. `cached` are the devids that were loaded before, if they
have not been forgotten. -/
def settleRecords (cached : Option (List ℕ)) (c : Checked) : DbProg FixRun := do
  forgetBad row.fid c.bad
  let devids ← match if c.bad.isEmpty then cached else none with
    | some devids => pure devids
    | none => sql (.selectDevids row.fid)
  match fidMeetsPolicy env row devids with
  | none => pure ⟨.died "devids_meet_policy", c⟩
  | some true => pure ⟨.handled, c⟩
  | some false => do
    sql (.insertFileToReplicate ⟨row.fid, 0, none, 0⟩)
    pure ⟨.handled, c.fsckLog .reReplicate none⟩

/-- The devices of the search. -/
def searchDevids : List ℕ :=
  env.shuffle ((env.devs.devices.filter fun d => d.status.shouldFsckSearchOn).map Device.devid)

/-- `fix_fid`, for a loaded fid with the devids that it was loaded with. -/
def fixFid (known : List ℕ) : DbProg FixRun :=
  match checkDfids env row.length false known .start with
  | (c, some error) => pure ⟨.died error, c⟩
  | (c, none) =>
    if c.good.isEmpty then
      match checkDfids env row.length true (searchDevids env) (c.fsckLog .startSearch none) with
      | (c, some error) => pure ⟨.died error, c⟩
      | (c, none) =>
        match c.good with
        | [] => pure ⟨.cantFix, c⟩
        | dev :: _ => do
          let _ ← addToDb env.lock row.fid dev
          settleRecords env row none (c.fsckLog .foundFid none)
    else settleRecords env row (some known) c

end Fix

/-! ### What the checks find -/

/-- A copy of the right length has been observed on a device. -/
def FixEnv.HasCopy (env : FixEnv) (length devid : ℕ) : Prop := env.sizeOnDisk devid = .found length

theorem FixEnv.hasCopy_iff {env : FixEnv} {length devid : ℕ} (hlen : 0 < length) :
    env.HasCopy length devid ↔ (env.sizeOnDisk devid).diskSize = .ok length := by
  unfold HasCopy
  cases env.sizeOnDisk devid with
  | found size => simp [SizeCheck.diskSize]
  | missing =>
    simp only [SizeCheck.diskSize, Except.ok.injEq, reduceCtorEq, false_iff]
    omega
  | unreachable => simp [SizeCheck.diskSize]
  | died error => simp [SizeCheck.diskSize]

/-- The devices of the checks so far: the good ones are those with a copy, and the bad ones have none. -/
structure Checked.Sound (env : FixEnv) (length : ℕ) (c : Checked) : Prop where
  good_iff : ∀ devid, devid ∈ c.good ↔ devid ∈ c.already ∧ env.HasCopy length devid
  not_copy : ∀ devid ∈ c.bad, ¬ env.HasCopy length devid

/-- All the devices of the checks so far are good or bad. -/
def Checked.Settled (c : Checked) : Prop := ∀ devid ∈ c.already, devid ∈ c.good ∨ devid ∈ c.bad

/-- What a round of checks does. -/
structure CheckSpec (env : FixEnv) (length : ℕ) (desperate : Bool) (dfids : List ℕ) (c c' : Checked)
    (error : Option String) : Prop where
  sound : c.Sound env length → c'.Sound env length
  settled : error = none → c.Settled → c'.Settled
  bad_subset : ∀ devid ∈ c.bad, devid ∈ c'.bad
  already_subset : ∀ devid ∈ c.already, devid ∈ c'.already
  of_already : ∀ devid ∈ c'.already, devid ∈ c.already ∨ devid ∈ dfids
  all : desperate = false → error = none → ∀ devid ∈ dfids, devid ∈ c'.already
  one : desperate = true → c.good = [] → c'.good.length ≤ 1

section Checks

variable {env : FixEnv} {length devid : ℕ} {c : Checked}

theorem Checked.Sound.fsckLog {event : FsckLogEvent} {logged : Option ℕ} (h : c.Sound env length) :
    (c.fsckLog event logged).Sound env length :=
  ⟨h.good_iff, h.not_copy⟩

theorem Checked.Sound.mark (h : c.Sound env length) (hnone : ¬ env.HasCopy length devid) :
    (c.mark devid).Sound env length := by
  refine ⟨fun d => ?_, h.not_copy⟩
  show d ∈ c.good ↔ d ∈ devid :: c.already ∧ env.HasCopy length d
  rw [h.good_iff, List.mem_cons]
  refine ⟨fun hd => ⟨.inr hd.1, hd.2⟩, fun hd => ⟨hd.1.resolve_left ?_, hd.2⟩⟩
  rintro rfl
  exact hnone hd.2

theorem Checked.Sound.addGood (h : c.Sound env length) (hcopy : env.HasCopy length devid) :
    (c.addGood devid).Sound env length := by
  refine ⟨fun d => ?_, h.not_copy⟩
  show d ∈ c.good ++ [devid] ↔ d ∈ devid :: c.already ∧ env.HasCopy length d
  rw [List.mem_append, List.mem_singleton, List.mem_cons, h.good_iff]
  constructor
  · rintro (hd | rfl)
    · exact ⟨.inr hd.1, hd.2⟩
    · exact ⟨.inl rfl, hcopy⟩
  · rintro ⟨rfl | hd, hd'⟩
    · exact .inr rfl
    · exact .inl ⟨hd, hd'⟩

theorem Checked.Sound.addBad {desperate : Bool} {diskSize : ℕ} (h : c.Sound env length)
    (hnone : ¬ env.HasCopy length devid) : (c.addBad desperate devid diskSize).Sound env length := by
  refine ⟨(h.mark hnone).good_iff, fun d hd => ?_⟩
  have hd : d ∈ c.bad ++ [devid] := hd
  rcases List.mem_append.mp hd with hd | hd
  · exact h.not_copy d hd
  · rw [List.mem_singleton.mp hd]
    exact hnone

/-- The spec of a device and of those after it. -/
theorem CheckSpec.cons {desperate : Bool} {dfids : List ℕ} {c' c'' : Checked} {error : Option String}
    (hfirst : CheckSpec env length desperate [devid] c c' none)
    (hrest : CheckSpec env length desperate dfids c' c'' error) (hgood : desperate = true → c'.good = c.good) :
    CheckSpec env length desperate (devid :: dfids) c c'' error where
  sound h := hrest.sound (hfirst.sound h)
  settled herr h := hrest.settled herr (hfirst.settled rfl h)
  bad_subset d hd := hrest.bad_subset d (hfirst.bad_subset d hd)
  already_subset d hd := hrest.already_subset d (hfirst.already_subset d hd)
  of_already d hd := by
    rcases hrest.of_already d hd with hd | hd
    · rcases hfirst.of_already d hd with hd | hd
      · exact .inl hd
      · exact .inr (List.mem_cons.mpr (.inl (List.mem_singleton.mp hd)))
    · exact .inr (List.mem_cons_of_mem _ hd)
  all hdes herr d hd := by
    rcases List.mem_cons.mp hd with rfl | hd
    · exact hrest.already_subset d (hfirst.all hdes rfl d (List.mem_singleton_self d))
    · exact hrest.all hdes herr d hd
  one hdes hnil := hrest.one hdes ((hgood hdes).trans hnil)

theorem checkSpec_already {desperate : Bool} (h : devid ∈ c.already) :
    CheckSpec env length desperate [devid] c c none where
  sound := id
  settled _ := id
  bad_subset _ := id
  already_subset _ := id
  of_already _ := .inl
  all _ _ d hd := by
    rw [List.mem_singleton.mp hd]
    exact h
  one _ hnil := by
    rw [hnil]
    exact Nat.zero_le _

theorem checkSpec_mark {desperate : Bool} {dfids : List ℕ} (error : String)
    (hnone : ¬ env.HasCopy length devid) :
    CheckSpec env length desperate (devid :: dfids) c (c.mark devid) (some error) where
  sound h := h.mark hnone
  settled herr := by cases herr
  bad_subset _ := id
  already_subset _ := List.mem_cons_of_mem _
  of_already d hd := by
    rcases List.mem_cons.mp hd with rfl | hd
    · exact .inr List.mem_cons_self
    · exact .inl hd
  all _ herr := by cases herr
  one _ hnil := by
    show c.good.length ≤ 1
    rw [hnil]
    exact Nat.zero_le _

theorem checkSpec_addGood {desperate : Bool} (hcopy : env.HasCopy length devid) :
    CheckSpec env length desperate [devid] c (c.addGood devid) none where
  sound h := h.addGood hcopy
  settled _ h d hd := by
    rcases List.mem_cons.mp hd with rfl | hd
    · exact .inl (List.mem_append_right _ (List.mem_singleton_self d))
    · exact (h d hd).imp_left (List.mem_append_left _)
  bad_subset _ := id
  already_subset _ := List.mem_cons_of_mem _
  of_already d hd := by
    rcases List.mem_cons.mp hd with rfl | hd
    · exact .inr (List.mem_singleton_self d)
    · exact .inl hd
  all _ _ d hd := List.mem_cons.mpr (.inl (List.mem_singleton.mp hd))
  one _ hnil := by
    show (c.good ++ [devid]).length ≤ 1
    rw [hnil]
    exact le_refl 1

theorem checkSpec_addBad {desperate : Bool} (diskSize : ℕ) (hnone : ¬ env.HasCopy length devid) :
    CheckSpec env length desperate [devid] c (c.addBad desperate devid diskSize) none where
  sound h := h.addBad hnone
  settled _ h d hd := by
    rcases List.mem_cons.mp hd with rfl | hd
    · exact .inr (List.mem_append_right _ (List.mem_singleton_self d))
    · exact (h d hd).imp_right (List.mem_append_left _)
  bad_subset _ := List.mem_append_left _
  already_subset _ := List.mem_cons_of_mem _
  of_already d hd := by
    rcases List.mem_cons.mp hd with rfl | hd
    · exact .inr (List.mem_singleton_self d)
    · exact .inl hd
  all _ _ d hd := List.mem_cons.mpr (.inl (List.mem_singleton.mp hd))
  one _ hnil := by
    show c.good.length ≤ 1
    rw [hnil]
    exact Nat.zero_le _

/-- A search that stops has nothing more to check. -/
theorem CheckSpec.stop {dfids : List ℕ} {c' : Checked} (h : CheckSpec env length true [devid] c c' none) :
    CheckSpec env length true (devid :: dfids) c c' none :=
  { h with
    of_already := fun d hd =>
      (h.of_already d hd).imp_right fun hd => List.mem_cons.mpr (.inl (List.mem_singleton.mp hd))
    all := fun hdes => by cases hdes }

variable (env) in
theorem checkDfids_spec (hlen : 0 < length) (desperate : Bool) (dfids : List ℕ) (c : Checked) :
    CheckSpec env length desperate dfids c (checkDfids env length desperate dfids c).1
      (checkDfids env length desperate dfids c).2 := by
  induction dfids generalizing c with
  | nil =>
    refine ⟨id, fun _ => id, fun _ => id, fun _ => id, fun _ => .inl, fun _ _ _ h => absurd h List.not_mem_nil,
      fun _ h => ?_⟩
    show c.good.length ≤ 1
    rw [h]
    exact Nat.zero_le _
  | cons devid dfids ih =>
    rw [checkDfids]
    by_cases halready : c.already.contains devid
    · rw [if_pos halready]
      exact (checkSpec_already (by simpa using halready)).cons (ih c) fun _ => rfl
    · rw [if_neg halready]
      cases hsize : (env.sizeOnDisk devid).diskSize with
      | error error =>
        have hnone : ¬ env.HasCopy length devid := by
          rw [env.hasCopy_iff hlen, hsize]
          exact fun h => nomatch h
        exact checkSpec_mark error hnone
      | ok diskSize =>
        dsimp only
        have hcopy : env.HasCopy length devid ↔ diskSize = length := by
          rw [env.hasCopy_iff hlen, hsize, Except.ok.injEq]
        by_cases hlength : diskSize = length
        · rw [if_pos hlength]
          have hfirst : ∀ desperate, CheckSpec env length desperate [devid] c (c.addGood devid) none :=
            fun _ => checkSpec_addGood (hcopy.mpr hlength)
          cases desperate with
          | true => exact (hfirst true).stop
          | false => exact (hfirst false).cons (ih _) fun hdes => nomatch hdes
        · rw [if_neg hlength]
          exact (checkSpec_addBad diskSize (mt hcopy.mp hlength)).cons (ih _) fun _ => rfl

end Checks

/-! ### What becomes of the records -/

section Records

variable (env : FixEnv) (row : FileRow) {c : Checked} {db : Db}

theorem devidsOf_forgetBad (fid : ℕ) (bad : List ℕ) (db : Db) :
    ((forgetBad fid bad).exec db).2.devidsOf fid = (db.devidsOf fid).filter fun d => !bad.contains d := by
  induction bad generalizing db with
  | nil => simp [forgetBad, DbProg.exec]
  | cons bdev bad ih =>
    have hdelete := devidsOf_deleteFileOn fid bdev db
    rw [forgetBad]
    simp only [DbProg.exec, Prog.exec_bind] at hdelete ⊢
    rw [← DbProg.exec, ih, hdelete, List.filter_filter]
    refine List.filter_congr fun d _ => ?_
    simp [Bool.and_comm, beq_eq_decide]

theorem settle_exec (cached : Option (List ℕ)) (c : Checked) (db : Db) :
    ((settleRecords env row cached c).exec db).2.devidsOf row.fid =
        (db.devidsOf row.fid).filter (fun d => !c.bad.contains d) ∧
      ((settleRecords env row cached c).exec db).1.checked.good = c.good ∧
      ((settleRecords env row cached c).exec db).1.checked.bad = c.bad ∧
      ((settleRecords env row cached c).exec db).1.checked.already = c.already ∧
      (((settleRecords env row cached c).exec db).1.result = .handled ∨
        ((settleRecords env row cached c).exec db).1.result = .died "devids_meet_policy") := by
  have hforget := devidsOf_forgetBad row.fid c.bad db
  have hend : ∀ devids db', db'.devidsOf row.fid = (db.devidsOf row.fid).filter (fun d => !c.bad.contains d) →
      let run := (match fidMeetsPolicy env row devids with
        | none => pure ⟨.died "devids_meet_policy", c⟩
        | some true => pure ⟨.handled, c⟩
        | some false => do
          sql (.insertFileToReplicate ⟨row.fid, 0, none, 0⟩)
          pure ⟨.handled, c.fsckLog .reReplicate none⟩ : DbProg FixRun).exec db'
      run.2.devidsOf row.fid = (db.devidsOf row.fid).filter (fun d => !c.bad.contains d) ∧
        run.1.checked.good = c.good ∧ run.1.checked.bad = c.bad ∧ run.1.checked.already = c.already ∧
        (run.1.result = .handled ∨ run.1.result = .died "devids_meet_policy") := by
    intro devids db' hdb'
    cases fidMeetsPolicy env row devids with
    | none => exact ⟨hdb', rfl, rfl, rfl, .inr rfl⟩
    | some meets =>
      cases meets with
      | true => exact ⟨hdb', rfl, rfl, rfl, .inl rfl⟩
      | false => exact ⟨hdb', rfl, rfl, rfl, .inl rfl⟩
  unfold settleRecords
  simp only [DbProg.exec, Prog.exec_bind] at hforget ⊢
  cases hcached : (if c.bad.isEmpty then cached else none) with
  | some devids => exact hend devids _ hforget
  | none => exact hend _ _ hforget

theorem mem_devidsOf_addToDb (lock : Option Bool) (fid devid d : ℕ) (db : Db) :
    d ∈ ((addToDb lock fid devid).exec db).2.devidsOf fid ↔ d ∈ db.devidsOf fid ∨ d = devid := by
  rw [Db.mem_devidsOf, fileOn_addToDb, Db.mem_devidsOf]
  have hhas : (db.fileOn.insertIgnore (fid, devid)).Has (fid, d) ↔
      db.fileOn.Has (fid, d) ∨ (fid, d) = id (fid, devid) := Table.has_insertIgnore
  simpa [Table.Has] using hhas

end Records

/-! ### fix_fid is safe -/

section Safe

variable {env : FixEnv} {row : FileRow} {known : List ℕ} {db : Db}

/-- The fid is recorded on the devices where its copy has been observed, and there is one. -/
def RecordedOnCopies (env : FixEnv) (row : FileRow) (c : Checked) (db : Db) : Prop :=
  db.devidsOf row.fid ≠ [] ∧
    ∀ devid, devid ∈ db.devidsOf row.fid ↔ devid ∈ c.already ∧ env.HasCopy row.length devid

theorem Checked.sound_start : Checked.start.Sound env row.length :=
  ⟨fun _ => ⟨fun h => absurd h List.not_mem_nil, fun h => absurd h.1 List.not_mem_nil⟩,
    fun _ h => absurd h List.not_mem_nil⟩

theorem recordedOnCopies_of_good {c : Checked} (hsound : c.Sound env row.length) (hgood : c.good ≠ [])
    (h : ∀ devid, devid ∈ db.devidsOf row.fid ↔ devid ∈ c.good) : RecordedOnCopies env row c db := by
  refine ⟨fun hnil => ?_, fun devid => (h devid).trans (hsound.good_iff devid)⟩
  obtain ⟨g, rest, hcons⟩ := List.exists_cons_of_ne_nil hgood
  have hg := (h g).mpr (by rw [hcons]; exact List.mem_cons_self)
  rw [hnil] at hg
  exact absurd hg List.not_mem_nil

theorem Checked.Sound.disjoint {length : ℕ} {c : Checked} (h : c.Sound env length) {devid : ℕ}
    (hgood : devid ∈ c.good) : devid ∉ c.bad := fun hbad =>
  h.not_copy devid hbad ((h.good_iff devid).mp hgood).2

theorem settle_known {c : Checked} (hspec : CheckSpec env row.length false known .start c none)
    (hknown : ∀ devid, devid ∈ known ↔ devid ∈ db.devidsOf row.fid) (devid : ℕ) :
    devid ∈ (db.devidsOf row.fid).filter (fun d => !c.bad.contains d) ↔ devid ∈ c.good := by
  have hsound := hspec.sound Checked.sound_start
  have hsettled := hspec.settled rfl fun _ h => absurd h List.not_mem_nil
  rw [List.mem_filter, ← hknown]
  simp only [List.contains_eq_mem, Bool.not_eq_true', decide_eq_false_iff_not]
  constructor
  · rintro ⟨hmem, hbad⟩
    exact (hsettled devid (hspec.all rfl rfl devid hmem)).resolve_right hbad
  · intro hgood
    have halready := ((hsound.good_iff devid).mp hgood).1
    exact ⟨(hspec.of_already devid halready).resolve_left List.not_mem_nil, hsound.disjoint hgood⟩

theorem settle_found {c c' : Checked} {error : Option String} {dfids : List ℕ} {g : ℕ} {rest : List ℕ}
    (hspec : CheckSpec env row.length false known .start c none) (hnone : c.good = [])
    (hsearch : CheckSpec env row.length true dfids (c.fsckLog .startSearch none) c' error)
    (hfound : c'.good = g :: rest) (hknown : ∀ devid, devid ∈ known ↔ devid ∈ db.devidsOf row.fid)
    (devid : ℕ) :
    devid ∈ (((addToDb env.lock row.fid g).exec db).2.devidsOf row.fid).filter
      (fun d => !c'.bad.contains d) ↔ devid ∈ c'.good := by
  have hsound : c.Sound env row.length := hspec.sound Checked.sound_start
  have hsound' : c'.Sound env row.length := hsearch.sound hsound.fsckLog
  have hsettled := hspec.settled rfl fun _ h => absurd h List.not_mem_nil
  have hrest : rest = [] := by
    have hone := hsearch.one rfl hnone
    rw [hfound, List.length_cons] at hone
    exact List.length_eq_zero_iff.mp (by omega)
  have hg : g ∉ c'.bad := hsound'.disjoint (by rw [hfound]; exact List.mem_cons_self)
  -- every recorded device was checked before the search and is bad
  have hbad : ∀ d ∈ db.devidsOf row.fid, d ∈ c'.bad := by
    intro d hd
    have hdbad : d ∈ c.bad := by
      refine (hsettled d (hspec.all rfl rfl d ((hknown d).mpr hd))).resolve_left ?_
      rw [hnone]
      exact List.not_mem_nil
    exact hsearch.bad_subset d hdbad
  rw [List.mem_filter, mem_devidsOf_addToDb, hfound, hrest, List.mem_singleton]
  simp only [List.contains_eq_mem, Bool.not_eq_true', decide_eq_false_iff_not]
  constructor
  · rintro ⟨hd | rfl, hnot⟩
    · exact absurd (hbad devid hd) hnot
    · rfl
  · rintro rfl
    exact ⟨.inr rfl, hg⟩

theorem settle_safe (cached : Option (List ℕ)) {c : Checked} (hsound : c.Sound env row.length)
    (hgood : c.good ≠ [])
    (hrecords : ∀ devid, devid ∈ (db.devidsOf row.fid).filter (fun d => !c.bad.contains d) ↔ devid ∈ c.good) :
    let run := (settleRecords env row cached c).exec db
    (run.1.result = .handled → RecordedOnCopies env row run.1.checked run.2) ∧
      ¬ (run.1.result = .cantFix ∨ run.1.result = .died "dev unreachable") ∧
      ∀ devid ∈ run.1.checked.good, devid ∉ run.1.checked.bad := by
  intro run
  obtain ⟨hdevids, hgood', hbad', halready', hresult⟩ := settle_exec env row cached c db
  have hsound' : run.1.checked.Sound env row.length := by
    refine ⟨fun devid => ?_, fun devid hdevid => ?_⟩
    · rw [hgood', halready']
      exact hsound.good_iff devid
    · rw [hbad'] at hdevid
      exact hsound.not_copy devid hdevid
  refine ⟨fun _ => ?_, ?_, fun _ => hsound'.disjoint⟩
  · refine recordedOnCopies_of_good hsound' ?_ fun devid => ?_
    · rw [hgood']
      exact hgood
    · rw [hgood', hdevids]
      exact hrecords devid
  · rcases hresult with h | h
    · rw [h]
      simp
    · rw [h]
      simp

/-- A fid that is handled is recorded on the devices where a copy of its length has been observed, and on at
least one. A fid that cannot be fixed, or whose check has met an unreachable device, keeps its records. And
no device is both good and bad. -/
theorem fixFid_safe (env : FixEnv) (row : FileRow) (known : List ℕ) (db : Db) (hlen : 0 < row.length)
    (hknown : ∀ devid, devid ∈ known ↔ devid ∈ db.devidsOf row.fid) :
    let run := (fixFid env row known).exec db
    (run.1.result = .handled → RecordedOnCopies env row run.1.checked run.2) ∧
      (run.1.result = .cantFix ∨ run.1.result = .died "dev unreachable" → run.2.fileOn = db.fileOn) ∧
      ∀ devid ∈ run.1.checked.good, devid ∉ run.1.checked.bad := by
  intro run
  have hspec := checkDfids_spec env hlen false known .start
  have hsound := hspec.sound Checked.sound_start
  generalize hcheck : checkDfids env row.length false known .start = checked at hspec hsound
  obtain ⟨c, error⟩ := checked
  cases error with
  | some error =>
    have hrun : run = (⟨.died error, c⟩, db) := by
      simp only [run, fixFid, hcheck]
      rfl
    rw [hrun]
    exact ⟨fun h => (nomatch h), fun _ => rfl, fun _ => hsound.disjoint⟩
  | none =>
    by_cases hnone : c.good = []
    · have hsearch := checkDfids_spec env hlen true (searchDevids env) (c.fsckLog .startSearch none)
      have hsound' := hsearch.sound hsound.fsckLog
      generalize hagain : checkDfids env row.length true (searchDevids env)
        (c.fsckLog .startSearch none) = searched at hsearch hsound'
      obtain ⟨c', error⟩ := searched
      cases error with
      | some error =>
        have hrun : run = (⟨.died error, c'⟩, db) := by
          simp only [run, fixFid, hcheck, hnone, List.isEmpty_nil, if_true, hagain]
          rfl
        rw [hrun]
        exact ⟨fun h => (nomatch h), fun _ => rfl, fun _ => hsound'.disjoint⟩
      | none =>
        cases hgood : c'.good with
        | nil =>
          have hrun : run = (⟨.cantFix, c'⟩, db) := by
            simp only [run, fixFid, hcheck, hnone, List.isEmpty_nil, if_true, hagain, hgood]
            rfl
          rw [hrun]
          exact ⟨fun h => (nomatch h), fun _ => rfl, fun _ => hsound'.disjoint⟩
        | cons g rest =>
          have hrun : run = (settleRecords env row none (c'.fsckLog .foundFid none)).exec
              ((addToDb env.lock row.fid g).exec db).2 := by
            simp only [run, fixFid, hcheck, hnone, List.isEmpty_nil, if_true, hagain, hgood, DbProg.exec,
              Prog.exec_bind]
          have hne : (c'.fsckLog .foundFid none).good ≠ [] := by
            show c'.good ≠ []
            rw [hgood]
            exact List.cons_ne_nil g rest
          have hrecords := settle_found hspec hnone hsearch hgood hknown
          have hsafe := settle_safe none hsound'.fsckLog hne hrecords
          rw [hrun]
          exact ⟨hsafe.1, fun h => absurd h hsafe.2.1, hsafe.2.2⟩
    · have hrun : run = (settleRecords env row (some known) c).exec db := by
        have hne : ¬ c.good.isEmpty = true := by simpa using hnone
        simp only [run, fixFid, hcheck, hne]
        rfl
      have hsafe := settle_safe (some known) hsound hnone (settle_known hspec hknown)
      rw [hrun]
      exact ⟨hsafe.1, fun h => absurd h hsafe.2.1, hsafe.2.2⟩

end Safe

/-! ### A lost copy is found again -/

/-- The devices of `twoHosts`; the only copy of the file is on `d3`. -/
def onD3 : FixEnv where
  devs := twoHosts
  classOf _ := some twoCopies
  check devid := if devid = 3 then .found 5 else .missing
  shuffle := id
  shuffle_perm _ := List.Perm.refl _
  weights _ := .least
  lock := some true

/-- A file of 5 bytes. -/
def fiveBytes : FileRow := ⟨1, 1, "key".toList, 5, 0, 1, none, 0⟩

/-- The file is recorded on `d1`. -/
def recordedOnD1 : Db :=
  { Db.fresh with
    file := .single fiveBytes
    fileOn := .single (1, 1) }

/-- The search finds the copy, and the file is recorded on `d3` alone. -/
theorem onD3_recorded :
    let run := (fixFid onD3 fiveBytes [1]).exec recordedOnD1
    run.1.result = .handled ∧ run.2.devidsOf 1 = [3] ∧ RecordedOnCopies onD3 fiveBytes run.1.checked run.2 := by
  have hresult : ((fixFid onD3 fiveBytes [1]).exec recordedOnD1).1.result = .handled ∧
      ((fixFid onD3 fiveBytes [1]).exec recordedOnD1).2.devidsOf 1 = [3] := by
    decide +kernel
  have hknown : ∀ devid, devid ∈ [1] ↔ devid ∈ recordedOnD1.devidsOf fiveBytes.fid := fun _ => Iff.rfl
  have hsafe := fixFid_safe onD3 fiveBytes [1] recordedOnD1 (by decide) hknown
  exact ⟨hresult.1, hresult.2, hsafe.1 hresult.1⟩

end Ylem
