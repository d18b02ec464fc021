import Ylem.Worker.CopyPasses

/-!
# Enough copies, for fsck and for replication

Fsck accepts a file when the policy of its class is happy with the devices the file is on, and not too
happy (`devidsMeetPolicy`). `replicate` asks the same policy, but tells it only of the devices whose state
should have files. So the two agree, whatever the policy, exactly on the files that have no copy on a
draining or dead device (`devidsMeetPolicy_agrees_iff`).

For `MultipleHosts` the verdict is a matter of counting (`perfect_iff`), and a disagreement is one of the
numbers of copies and hosts, once with and once without the copies on such devices.
-/

namespace Ylem

/-- `FID::devids_meet_policy`, for a file on `onDevs`. Nothing if it dies. -/
def devidsMeetPolicy (devs : DeviceMap) (cls : ReplClass) (draws : ℕ → Draw) (onDevs : List Device) :
    Option Bool :=
  let rr := cls.policy draws onDevs devs [] cls.mindevcount
  match rr.error with
  | some _ => none
  | none => some (rr.isHappy && !rr.tooHappy)

/-- The answer of the policy in the first pass of a run of `replicate`, if the run gets there. -/
def firstRequest (devs : DeviceMap) (fid : ℕ) (opts : ReplOpts) (cls : ReplClass) (out : Outcomes)
    (onDevs : List Device) : Option ReplicationRequest :=
  (replicatePasses devs fid opts cls out onDevs).head?.map fun pass => pass.request devs cls

/-- What an answer says about the copies there are. -/
def ReplicationRequest.verdict (rr : ReplicationRequest) : Bool × Bool × Option String :=
  (rr.isHappy, rr.tooHappy, rr.error)

/-- The draws order the suggestions of a policy, and nothing else depends on them. -/
def ReplicationPolicy.Settled (policy : ReplicationPolicy) : Prop :=
  ∀ draws draws' onDevs devs failed min,
    (policy draws onDevs devs failed min).verdict = (policy draws' onDevs devs failed min).verdict

/-- Fsck accepts a file exactly if the first answer that `replicate` gets is happy and not too happy. -/
def Agree (devs : DeviceMap) (fid : ℕ) (opts : ReplOpts) (cls : ReplClass) (onDevs : List Device) : Prop :=
  ∀ draws out, ∀ rr ∈ firstRequest devs fid opts cls out onDevs,
    devidsMeetPolicy devs cls draws onDevs = some true ↔ rr.isHappy = true ∧ rr.tooHappy = false

section Agreement

variable {devs : DeviceMap} {fid : ℕ} {opts : ReplOpts} {cls : ReplClass} {onDevs : List Device}

theorem firstRequest_eq (out : Outcomes) :
    firstRequest devs fid opts cls out onDevs =
      if StartsLoop opts onDevs then
        some (cls.policy (out.rounds 0).weights (startState opts onDevs).onDevsTellpol devs []
          cls.mindevcount)
      else none := by
  unfold firstRequest replicatePasses
  split_ifs <;> rfl

open ReplicationRequest in
theorem devidsMeetPolicy_eq_some_true {draws : ℕ → Draw} :
    devidsMeetPolicy devs cls draws onDevs = some true ↔
      (cls.policy draws onDevs devs [] cls.mindevcount).verdict = (true, false, none) := by
  unfold devidsMeetPolicy
  generalize cls.policy draws onDevs devs [] cls.mindevcount = rr
  cases rr <;> simp [verdict, error, isHappy, tooHappy]

theorem ReplicationRequest.verdict_eq {rr : ReplicationRequest} :
    rr.verdict = (true, false, none) ↔ rr.isHappy = true ∧ rr.tooHappy = false := by
  cases rr <;> simp [verdict, error, isHappy, tooHappy]

/-- A policy that insists on `n` copies. -/
def exactly (n : ℕ) : ReplClass where
  mindevcount := n
  policy _ onDevs _ _ min := if onDevs.length = min then .allGood else .tempNoAnswer

theorem settled_exactly (n : ℕ) : (exactly n).policy.Settled := fun _ _ _ _ _ _ => rfl

/-- Whatever the class of a file, fsck and a replication without a mask agree on it, exactly if the run of
`replicate` ends before it asks the policy, or all the copies are on devices that should have files. -/
theorem devidsMeetPolicy_agrees_iff (devs : DeviceMap) (fid : ℕ) (sourceDevid : Option ℕ)
    (avoidDevids : List ℕ) (onDevs : List Device) :
    (∀ cls : ReplClass, cls.policy.Settled → Agree devs fid ⟨sourceDevid, [], avoidDevids⟩ cls onDevs) ↔
      (StartsLoop ⟨sourceDevid, [], avoidDevids⟩ onDevs →
        ∀ d ∈ onDevs, d.status.shouldHaveFiles = true) := by
  set opts : ReplOpts := ⟨sourceDevid, [], avoidDevids⟩ with hopts
  have htold : (startState opts onDevs).onDevsTellpol = onDevs.filter fun d => d.status.shouldHaveFiles := by
    simp [startState, hopts]
  constructor
  · intro hagree hstarts
    have hfirst := hagree (exactly onDevs.length) (settled_exactly _) (fun _ => ⟨0, by norm_num⟩)
      ⟨none, fun _ => ⟨fun _ => ⟨0, by norm_num⟩, ⟨0, by norm_num⟩, .copied⟩, fun _ => none, false⟩
    rw [firstRequest_eq, if_pos hstarts] at hfirst
    have hboth := hfirst _ rfl
    have hmeets : devidsMeetPolicy devs (exactly onDevs.length) (fun _ => ⟨0, by norm_num⟩) onDevs =
        some true := by
      simp [devidsMeetPolicy, exactly, ReplicationRequest.error, ReplicationRequest.isHappy,
        ReplicationRequest.tooHappy]
    have hhappy := (hboth.mp hmeets).1
    have hlen : (onDevs.filter fun d => d.status.shouldHaveFiles).length = onDevs.length := by
      by_contra hne
      rw [htold] at hhappy
      simp [exactly, hne, ReplicationRequest.isHappy] at hhappy
    intro d hd
    exact List.length_filter_eq_length_iff.mp hlen d hd
  · intro hcopies cls hsettled draws out rr hrr
    rw [firstRequest_eq] at hrr
    split_ifs at hrr with hstarts
    · cases hrr
      have hall : (onDevs.filter fun d => d.status.shouldHaveFiles) = onDevs :=
        List.filter_eq_self.mpr (hcopies hstarts)
      rw [devidsMeetPolicy_eq_some_true, hsettled draws (out.rounds 0).weights, htold, hall,
        ReplicationRequest.verdict_eq]
    · cases hrr

end Agreement

/-! ### MultipleHosts -/

namespace MultipleHosts

variable {m : DeviceMap} {self : MultipleHosts} {minFree min : ℕ}

/-- The policy is happy with `onDevs`, and not too happy. -/
def Perfect (m : DeviceMap) (min : ℕ) (onDevs : List Device) : Prop :=
  (min = 1 ∧ onDevs ≠ []) ∨ (2 ≤ onDevs.length ∧ onDevs.length = totalDisks m) ∨
    (countHosts onDevs = min ∧ onDevs.length ≤ min) ∨
      (countHosts onDevs < min ∧ uniqueHosts m ≤ countHosts onDevs ∧ min ≤ onDevs.length)

instance (m : DeviceMap) (min : ℕ) (onDevs : List Device) : Decidable (Perfect m min onDevs) :=
  inferInstanceAs (Decidable (_ ∨ _))

theorem settled (self : MultipleHosts) (minFree : ℕ) : (self.replicateTo minFree).Settled := by
  intro draws draws' onDevs devs failed min
  simp only [replicateTo]
  split_ifs <;> rfl

variable (minFree) in
theorem perfect_iff (draws : ℕ → Draw) (failed : List ℕ) (onDevs : List Device) :
    (self.replicateTo minFree draws onDevs m failed min).verdict = (true, false, none) ↔
      Perfect m (self.effectiveMin min) onDevs := by
  simp only [replicateTo, Perfect, ← List.length_eq_zero_iff, ne_eq]
  split_ifs <;>
    simp only [ReplicationRequest.verdict, ReplicationRequest.isHappy, ReplicationRequest.tooHappy,
      ReplicationRequest.error, Prod.mk.injEq, and_true, and_false, true_iff, false_iff,
      Bool.false_eq_true, reduceCtorEq] <;>
    omega

theorem agree_iff (fid : ℕ) (sourceDevid : Option ℕ) (avoidDevids : List ℕ) (onDevs : List Device) :
    Agree m fid ⟨sourceDevid, [], avoidDevids⟩ ⟨min, self.replicateTo minFree⟩ onDevs ↔
      (StartsLoop ⟨sourceDevid, [], avoidDevids⟩ onDevs →
        (Perfect m (self.effectiveMin min) onDevs ↔
          Perfect m (self.effectiveMin min) (onDevs.filter fun d => d.status.shouldHaveFiles))) := by
  have htold : (startState ⟨sourceDevid, [], avoidDevids⟩ onDevs).onDevsTellpol =
      onDevs.filter fun d => d.status.shouldHaveFiles := by
    simp [startState]
  unfold Agree
  simp only [firstRequest_eq, htold, devidsMeetPolicy_eq_some_true, perfect_iff minFree,
    ← ReplicationRequest.verdict_eq]
  constructor
  · intro h hstarts
    have hboth := h (fun _ => ⟨0, by norm_num⟩) allCopied _ (if_pos hstarts)
    rwa [perfect_iff minFree] at hboth
  · intro h _ out rr hrr
    split_ifs at hrr with hstarts
    · cases hrr
      rw [perfect_iff minFree]
      exact h hstarts
    · cases hrr

end MultipleHosts

/-! ### A draining device -/

/-- `h1[ d1 d2 ] h2[ d3 ]`, with `d3` being drained. -/
def drainingD3 : DeviceMap where
  table := ⟨[upDevice 1 1, upDevice 2 1, { upDevice 3 2 with status := .drain }], by decide⟩
  devid_pos := by decide
  hostid_eq := by decide
  host_eq := by decide

open MultipleHosts in
/-- A file of two copies, on `d1` and `d3`: fsck accepts it, and `replicate` copies it to `d2`. -/
theorem drainingD3_disagrees :
    devidsMeetPolicy drainingD3 twoCopies (fun _ => ⟨0, by norm_num⟩)
        [upDevice 1 1, { upDevice 3 2 with status := .drain }] = some true ∧
      (firstRequest drainingD3 1 ⟨none, [], []⟩ twoCopies allCopied
        [upDevice 1 1, { upDevice 3 2 with status := .drain }]).map
          (fun rr => (rr.isHappy, rr.copyToOneOfIdeally.map Device.devid)) = some (false, [2]) ∧
      twoCopies.policy.Settled ∧
      ¬ Agree drainingD3 1 ⟨none, [], []⟩ twoCopies
        [upDevice 1 1, { upDevice 3 2 with status := .drain }] := by
  refine ⟨by decide +kernel, by decide +kernel, settled _ _, fun hagree => ?_⟩
  exact absurd ((agree_iff 1 none [] _).mp hagree) (by decide +kernel)

end Ylem
