import Ylem.ReplicationPolicy.HostsPerNetwork
import Ylem.ReplicationPolicy.MultipleNetworks
import Ylem.Worker.CopyPasses
import Ylem.Worker.Rebalance

/-!
# Desperate copies beyond the number wanted

A policy that finds no ideal destination offers desperate ones, and `replicate` goes on until the policy is
happy. Does it ever make a desperate copy of a file that already has as many copies as were asked for
(`Pass.Runaway`)? Without a mask `MultipleHosts` never does, since it stops to answer in that case
(`not_runaway_multipleHosts`). The policies over networks do not: they count networks or hosts, and as long
as these are missing every pass fills one more device.
-/

namespace Ylem

/-- The policies that count hosts. -/
inductive HostPolicy where
  | multipleHosts (pol : MultipleHosts)
  | multipleNetworks (pol : MultipleNetworks)
  | hostsPerNetwork (pol : HostsPerNetwork)

namespace HostPolicy

def replicateTo (minFree : ℕ) : HostPolicy → ReplicationPolicy
  | multipleHosts pol => pol.replicateTo minFree
  | multipleNetworks pol => pol.replicateTo minFree
  | hostsPerNetwork pol => pol.replicateTo minFree

/-- The class of a file with such a policy. -/
def cls (pol : HostPolicy) (minFree min : ℕ) : ReplClass := ⟨min, pol.replicateTo minFree⟩

/-- The copies are as many as were asked for: in all, or in the zone of a device. -/
def Enough (min : ℕ) (copies : List Device) (ddev : Device) : HostPolicy → Prop
  | multipleHosts pol => pol.effectiveMin min ≤ copies.length
  | multipleNetworks pol => pol.effectiveMin min ≤ copies.length
  | hostsPerNetwork pol => ∃ zone ∈ pol.hostsPerZone, pol.zone ddev = .ok zone.1 ∧
      zone.2 ≤ (copies.filter fun d => pol.zone d = .ok zone.1).length

instance (min : ℕ) (copies : List Device) (ddev : Device) : (pol : HostPolicy) →
    Decidable (pol.Enough min copies ddev)
  | multipleHosts _ => inferInstanceAs (Decidable (_ ≤ _))
  | multipleNetworks _ => inferInstanceAs (Decidable (_ ≤ _))
  | hostsPerNetwork pol => inferInstanceAs (Decidable (∃ zone ∈ pol.hostsPerZone, _))

theorem suggestsDests (pol : HostPolicy) (minFree : ℕ) (m : DeviceMap) :
    SuggestsDests minFree m (pol.replicateTo minFree) := by
  cases pol with
  | multipleHosts pol => exact suggestsDests_multipleHosts pol minFree m
  | multipleNetworks pol =>
    exact .of_copyTo fun _ _ _ _ _ _ h d => ((MultipleNetworks.exact_of_copyTo h).mem_iff d).mp
  | hostsPerNetwork pol => exact .of_copyTo fun _ _ _ min _ _ h d => HostsPerNetwork.dest_of_copyTo min h

end HostPolicy

/-! ### Runs -/

section Passes

variable {devs : DeviceMap} {fid : ℕ} {opts : ReplOpts} {cls : ReplClass} {onUpDevid : List ℕ}

theorem Pass.copied_eq_some {pass : Pass} {ddev : Device} :
    pass.copied devs fid opts cls onUpDevid = some ddev ↔
      ∃ st', pass.step devs fid opts cls onUpDevid = .copied ddev st' := by
  unfold Pass.copied
  cases hstep : pass.step devs fid opts cls onUpDevid <;> simp

end Passes

section Runs

variable {devs : DeviceMap} {fid : ℕ} {opts : ReplOpts} {pol : HostPolicy} {minFree min : ℕ}
  {onUpDevid : List ℕ} {pass : Pass}

/-- The copies on devices that should have files. -/
def Pass.copies (pass : Pass) : List Device := pass.st.onDevs.filter fun d => d.status.shouldHaveFiles

/-- A pass that copies to a desperate destination although there are enough copies. -/
def Pass.Runaway (devs : DeviceMap) (fid : ℕ) (opts : ReplOpts) (pol : HostPolicy) (minFree min : ℕ)
    (onUpDevid : List ℕ) (pass : Pass) : Prop :=
  ∃ ddev ∈ pass.copied devs fid opts (pol.cls minFree min) onUpDevid,
    (pass.request devs (pol.cls minFree min)).copyToOneOfIdeally = [] ∧ pol.Enough min pass.copies ddev

instance : Decidable (pass.Runaway devs fid opts pol minFree min onUpDevid) :=
  inferInstanceAs (Decidable (∃ ddev ∈ pass.copied devs fid opts (pol.cls minFree min) onUpDevid, _))

end Runs

/-! ### Two networks -/

/-- Netmasks of whole `/16` networks. -/
def classB : Netmasks where
  parse setting := some (setting.takeWhile (· ≠ '/') ++ ".0.0/16".toList)
  covers net ip := twoNumbers net == twoNumbers ip

/-- A host that is up, with an address. -/
def hostAt (hostid : ℕ) (ip : Text) : Host := { upHost hostid with hostip := some ip }

/-- The host of `d1`, `d2` and `d3`. -/
def onNet0 (devid : ℕ) : Device := { upDevice devid 1 with host := some (hostAt 1 "10.0.0.1".toList) }

end Ylem
