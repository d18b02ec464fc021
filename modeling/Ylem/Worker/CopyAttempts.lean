import Ylem.Worker.CopyPasses

/-!
# How often replicate copies

A pass of the copy loop that gets as far as `http_copy` is an attempt. It has a destination that is neither
ruled out nor on the file's list, and whatever comes of the copy, the pass ends the loop or rules out the
destination, a source, or puts the destination on the list. So a run makes no more attempts than there are
devices and readable copies, whether or not the policy is ever happy (`replicate_terminates`).
-/

namespace Ylem

section Attempts

variable (devs : DeviceMap) (fid : ℕ) (opts : ReplOpts) (cls : ReplClass) (onUpDevid : List ℕ)

/-- The source and the destination of the call of `http_copy`, in a pass that gets that far. -/
def Pass.attempt (pass : Pass) : Option (ℕ × ℕ) :=
  match pass.destination devs opts cls with
  | none => none
  | some ddevid =>
    if pass.st.destFailed.contains ddevid || (pass.st.onDevs.map Device.devid).contains ddevid then none
    else (chooseSource opts onUpDevid pass.round.source pass.st).map fun sdevid => (sdevid, ddevid)

/-- The calls of `http_copy` in a run of `replicate` for a file on `onDevs`. -/
def copyAttempts (out : Outcomes) (onDevs : List Device) : List (ℕ × ℕ) :=
  (replicatePasses devs fid opts cls out onDevs).filterMap
    fun pass => pass.attempt devs opts cls (upDevids onDevs)

end Attempts

section Bounds

variable {devs : DeviceMap} {fid : ℕ} {opts : ReplOpts} {cls : ReplClass} {onUpDevid : List ℕ}
  {pass : Pass} {sdevid ddevid : ℕ}

theorem Pass.attempt_eq_some (h : pass.attempt devs opts cls onUpDevid = some (sdevid, ddevid)) :
    pass.destination devs opts cls = some ddevid ∧ ddevid ∉ pass.st.destFailed ∧
      ddevid ∉ pass.st.onDevs.map Device.devid ∧
      chooseSource opts onUpDevid pass.round.source pass.st = some sdevid := by
  unfold Pass.attempt at h
  cases hdest : pass.destination devs opts cls with
  | none =>
    rw [hdest] at h
    exact absurd h (by simp)
  | some devid =>
    simp only [hdest] at h
    split_ifs at h with hruled
    obtain ⟨devid', hsource, heq⟩ := Option.map_eq_some_iff.mp h
    obtain ⟨rfl, rfl⟩ := Prod.mk.inj heq
    simp only [Bool.or_eq_true, not_or, List.contains_eq_mem, decide_eq_true_eq] at hruled
    exact ⟨rfl, hruled.1, hruled.2, hsource⟩

variable (fid) in
/-- An attempt is a call of `http_copy`, and the rest of the pass is what follows it. -/
theorem Pass.step_of_attempt (h : pass.attempt devs opts cls onUpDevid = some (sdevid, ddevid)) :
    pass.step devs fid opts cls onUpDevid =
      copyFrom devs fid opts pass.round { pass.st with gotCopyRequest := true } ddevid sdevid := by
  obtain ⟨hdest, hfailed, hon, hsource⟩ := Pass.attempt_eq_some h
  obtain ⟨herror, hhappy, hchoice⟩ := Pass.destination_eq_some.mp hdest
  have hsource' : chooseSource opts onUpDevid pass.round.source
      { pass.st with gotCopyRequest := true } = some sdevid := hsource
  unfold Pass.request at herror hhappy hchoice
  rw [Pass.step, copyStep_of_no_error herror, hhappy, if_neg Bool.false_ne_true, hchoice]
  show copyTo devs fid opts onUpDevid pass.round pass.st ddevid = _
  rw [copyTo, if_neg (by simpa using hfailed), if_neg (by simpa using hon), hsource']

theorem Pass.next_of_no_attempt (h : pass.attempt devs opts cls onUpDevid = none) :
    (pass.step devs fid opts cls onUpDevid).next = none := by
  rcases copyStep_cases devs fid opts cls onUpDevid pass.round pass.st rfl with
    ⟨-, hstep⟩ | ⟨-, -, hstep⟩ | ⟨result, -, hstep⟩ | ⟨hhappy, ddevid, hchoice, hfailed, hon, hprogress⟩
  · rw [Pass.step, hstep]; rfl
  · rw [Pass.step, hstep]; rfl
  · rw [Pass.step, hstep]; rfl
  · -- the destination is fine, so that there was no source left
    cases herror : (pass.request devs cls).error with
    | some error =>
      have hstep : pass.step devs fid opts cls onUpDevid = .exit (.died error) := by
        unfold Pass.request at herror
        simp only [Pass.step, copyStep, herror]
      rw [hstep]; rfl
    | none =>
      have hdest : pass.destination devs opts cls = some ddevid :=
        Pass.destination_eq_some.mpr ⟨herror, hhappy, hchoice⟩
      have hruled : ¬ (pass.st.destFailed.contains ddevid ||
          (pass.st.onDevs.map Device.devid).contains ddevid) = true := by
        simpa using ⟨hfailed, by simpa using hon⟩
      simp only [Pass.attempt, hdest] at h
      rw [if_neg hruled, Option.map_eq_none_iff] at h
      have hsource : chooseSource opts onUpDevid pass.round.source
          { pass.st with gotCopyRequest := true } = none := h
      unfold Pass.request at herror
      rw [Pass.step, copyStep_of_no_error herror, hhappy, if_neg Bool.false_ne_true, hchoice]
      show (copyTo devs fid opts onUpDevid pass.round pass.st ddevid).next = none
      rw [copyTo, if_neg (by simpa using hfailed), if_neg (by simpa using hon), hsource]
      rfl

theorem Pass.left_pos (hpol : SuggestsDevices devs cls.policy)
    (h : pass.attempt devs opts cls onUpDevid = some (sdevid, ddevid)) :
    0 < pass.st.left devs onUpDevid := by
  obtain ⟨hdest, hfailed, hon, -⟩ := Pass.attempt_eq_some h
  obtain ⟨-, -, hchoice⟩ := Pass.destination_eq_some.mp hdest
  have hmem : ∃ d ∈ devs.devices, d.devid = ddevid := by
    rcases chooseDest_dest hchoice with ⟨d, hd, rfl, -⟩ | ⟨-, d, hd, rfl⟩
    · exact ⟨d, hpol _ _ _ _ _ (.inl hd), rfl⟩
    · exact ⟨d, hpol _ _ _ _ _ (.inr hd), rfl⟩
  obtain ⟨d, hd, rfl⟩ := hmem
  have hfree : d ∈ devs.devices.filter fun d =>
      !(pass.st.destFailed.contains d.devid || (pass.st.onDevs.map Device.devid).contains d.devid) :=
    List.mem_filter.mpr ⟨hd, by simpa using ⟨hfailed, by simpa using hon⟩⟩
  have hpos := List.length_pos_of_mem hfree
  unfold CopyState.left
  omega

theorem copyPasses_attempts_le (hpol : SuggestsDevices devs cls.policy) (fuel : ℕ) (rounds : ℕ → Round)
    (st : CopyState) :
    ((copyPasses devs fid opts cls onUpDevid fuel rounds st).filterMap
      fun pass => pass.attempt devs opts cls onUpDevid).length ≤ st.left devs onUpDevid := by
  induction fuel generalizing rounds st with
  | zero => exact Nat.zero_le _
  | succ fuel ih =>
    rw [copyPasses]
    cases hattempt : Pass.attempt devs opts cls onUpDevid ⟨rounds 0, st⟩ with
    | none =>
      have hnext : (copyStep devs fid opts cls onUpDevid (rounds 0) st).next = none :=
        Pass.next_of_no_attempt hattempt
      rw [hnext, List.filterMap_cons_none hattempt]
      exact Nat.zero_le _
    | some attempt =>
      have hpos : 0 < st.left devs onUpDevid := Pass.left_pos hpol hattempt
      rw [List.filterMap_cons_some hattempt, List.length_cons]
      cases hnext : (copyStep devs fid opts cls onUpDevid (rounds 0) st).next with
      | none => exact hpos
      | some st' =>
        have hlt := copyStep_left_lt hpol hnext
        exact (Nat.succ_le_succ (ih (fun n => rounds (n + 1)) st')).trans hlt

theorem progress_of_next {round : Round} {st : CopyState} {step : CopyStep}
    (h : copyStep devs fid opts cls onUpDevid round st = step) (hnext : step.next ≠ none) :
    ∃ ddevid, Progress devs opts onUpDevid st ddevid step := by
  subst h
  rcases copyStep_cases devs fid opts cls onUpDevid round st rfl with
    ⟨-, hstep⟩ | ⟨-, -, hstep⟩ | ⟨result, -, hstep⟩ | ⟨-, ddevid, -, -, -, hprogress⟩
  · exact absurd (by rw [hstep]; rfl) hnext
  · exact absurd (by rw [hstep]; rfl) hnext
  · exact absurd (by rw [hstep]; rfl) hnext
  · exact ⟨ddevid, hprogress⟩

theorem copyPasses_onDevs {fuel : ℕ} {rounds : ℕ → Round} {st : CopyState} {before after : List Pass}
    (h : copyPasses devs fid opts cls onUpDevid fuel rounds st = before ++ pass :: after) :
    pass.st.onDevs = st.onDevs ++ before.filterMap fun pass => pass.copied devs fid opts cls onUpDevid := by
  induction before generalizing fuel rounds st with
  | nil =>
    cases fuel with
    | zero => exact absurd h (by simp [copyPasses])
    | succ fuel =>
      rw [copyPasses] at h
      obtain ⟨rfl, -⟩ := List.cons.inj h
      simp
  | cons first before ih =>
    cases fuel with
    | zero => exact absurd h (by simp [copyPasses])
    | succ fuel =>
      rw [copyPasses] at h
      obtain ⟨rfl, hrest⟩ := List.cons.inj h
      cases hstep : copyStep devs fid opts cls onUpDevid (rounds 0) st with
      | exit result =>
        rw [hstep] at hrest
        exact absurd hrest (by simp [CopyStep.next])
      | retry st' =>
        rw [hstep] at hrest
        obtain ⟨ddevid, hprogress⟩ := progress_of_next hstep (Option.some_ne_none st')
        have hon : st'.onDevs = st.onDevs := by cases hprogress <;> rfl
        rw [List.filterMap_cons_none (by simp [Pass.copied, Pass.step, hstep]), ← hon]
        exact ih hrest
      | copied ddev st' =>
        rw [hstep] at hrest
        obtain ⟨ddevid, hprogress⟩ := progress_of_next hstep (Option.some_ne_none st')
        have hon : st'.onDevs = st.onDevs ++ [ddev] := by cases hprogress; rfl
        rw [List.filterMap_cons_some (b := ddev) (by simp [Pass.copied, Pass.step, hstep])]
        rw [ih hrest, hon, List.append_assoc]
        rfl

theorem replicateOn_ne_running (hpol : SuggestsDevices devs cls.policy) (out : Outcomes)
    (onDevs : List Device) (db : Db) :
    ((replicateOn devs out fid opts cls onDevs).exec db).1 ≠ .running := by
  unfold replicateOn
  dsimp only
  split_ifs
  · simp [DbProg.exec]
  · simp [DbProg.exec]
  · simp [DbProg.exec]
  · exact copyLoop_ne_running fid opts _ hpol out.rounds (left_lt_replicateFuel devs onDevs _) db

variable (devs fid opts cls) in
/-- Under a policy that suggests devices of the map, `replicate` ends. It copies at most as often as there
are devices and readable sources, and never to a device that the file is on or has been copied to. -/
theorem replicate_terminates (hpol : SuggestsDevices devs cls.policy) (out : Outcomes)
    (onDevs : List Device) (db : Db) :
    ((replicateOn devs out fid opts cls onDevs).exec db).1 ≠ .running ∧
      (copyAttempts devs fid opts cls out onDevs).length ≤
        devs.devices.length + (upDevids onDevs).length ∧
      ∀ before pass after, replicatePasses devs fid opts cls out onDevs = before ++ pass :: after →
        ∀ attempt ∈ pass.attempt devs opts cls (upDevids onDevs),
          attempt.2 ∉ (onDevs ++ before.filterMap fun pass =>
            pass.copied devs fid opts cls (upDevids onDevs)).map Device.devid := by
  refine ⟨replicateOn_ne_running hpol out onDevs db, ?_, ?_⟩
  · rw [copyAttempts, replicatePasses]
    split_ifs with hstarts
    · have hleft : (startState opts onDevs).left devs (upDevids onDevs) ≤
          devs.devices.length + (upDevids onDevs).length :=
        Nat.add_le_add (List.length_filter_le _ _) (List.length_filter_le _ _)
      exact (copyPasses_attempts_le hpol _ _ _).trans hleft
    · exact Nat.zero_le _
  · intro before pass after hpasses attempt hattempt
    rw [replicatePasses] at hpasses
    split_ifs at hpasses with hstarts
    · have hon := (Pass.attempt_eq_some hattempt).2.2.1
      rw [copyPasses_onDevs hpasses] at hon
      exact hon
    · exact absurd hpasses (by simp)

end Bounds

/-! ### A stubborn policy -/

/-- A policy that asks for a copy on `ddev` again and again. -/
def stubborn (ddev : Device) : ReplicationPolicy := fun _ _ _ _ _ => .copyTo [ddev] []

theorem suggestsDevices_stubborn {devs : DeviceMap} {ddev : Device} (h : ddev ∈ devs.devices) :
    SuggestsDevices devs (stubborn ddev) := by
  intro _ _ _ _ d hd
  rcases hd with hd | hd
  · rw [List.mem_singleton.mp hd]
    exact h
  · exact absurd hd List.not_mem_nil

/-- It gets one copy out of `replicate`. -/
theorem stubborn_terminates :
    ((replicateOn twoHosts allCopied 1 ⟨none, [], []⟩ ⟨2, stubborn (upDevice 3 2)⟩ [upDevice 1 1]).exec
        Db.fresh).1 ≠ .running ∧
      (copyAttempts twoHosts 1 ⟨none, [], []⟩ ⟨2, stubborn (upDevice 3 2)⟩ allCopied
        [upDevice 1 1]).length ≤ 3 + 1 :=
  have hrun := replicate_terminates twoHosts 1 ⟨none, [], []⟩ ⟨2, stubborn (upDevice 3 2)⟩
    (suggestsDevices_stubborn (by decide)) allCopied [upDevice 1 1] Db.fresh
  ⟨hrun.1, hrun.2.1⟩

example : copyAttempts twoHosts 1 ⟨none, [], []⟩ ⟨2, stubborn (upDevice 3 2)⟩ allCopied
    [upDevice 1 1] = [(1, 3)] := by
  decide +kernel

end Ylem
