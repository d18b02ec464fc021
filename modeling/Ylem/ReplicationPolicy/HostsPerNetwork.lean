import Ylem.Network
import Ylem.ReplicationPolicy.MultipleHosts

/-!
# The HostsPerNetwork replication policy

The policy wants copies on a number of hosts in each of some zones. In a zone with enough hosts it counts
the hosts with a copy, elsewhere the copies. The usable devices in the zones that are short are its
suggestions: ideal on a host without a copy (`mem_ideal_iff`), desperate on the others.
-/

namespace Ylem

/-- A policy object, with the settings of the zones. -/
structure HostsPerNetwork where
  hostsPerZone : List (Text × ℕ)
  netmasks : Netmasks
  zones : List (Text × Text)

namespace HostsPerNetwork

variable (self : HostsPerNetwork)

/-- The zone of a device's host. -/
def zone (d : Device) : Except String Text := do
  zoneForIp self.netmasks self.zones (← d.hostIp)

/-- Devices with the zones of their hosts. -/
def placed (devs : List Device) : Except String (List (Device × Text)) :=
  devs.mapM fun d => do pure (d, ← self.zone d)

def devsIn (zone : Text) (devs : List (Device × Text)) : List Device :=
  (devs.filter fun d => d.2 = zone).map Prod.fst

/-- What a zone still needs. -/
inductive Need where
  | short | exact | over
  deriving DecidableEq

/-- If there are not enough hosts in a zone, devices are doubled up on. All the devices of a host are in its
zone, so that the hosts of a zone can be counted on their own. -/
def zoneNeed (on available : List (Device × Text)) (zone : Text) (needed : ℕ) : Need :=
  let onDev := (devsIn zone on).length
  let onHost := countHosts (devsIn zone on)
  let count := if needed ≤ countHosts (devsIn zone available) then onHost else onDev
  if count < needed then .short else if needed < onDev then .over else .exact

def suggest (minFree : ℕ) (draws : ℕ → Draw) (onDevs : List Device) (allDevs : DeviceMap)
    (failed : List ℕ) (neededNetwork : List Text) : Except String ReplicationRequest := do
  let allDests := weightedList draws
    ((allDevs.devices.filter (MultipleHosts.usable minFree onDevs failed)).map
      fun d => (d, 100 * d.percentFree))
  let dests ← grepM (fun d => do pure (neededNetwork.contains (← self.zone d))) allDests
  let onHost (d : Device) : Bool := (onDevs.map Device.hostid).contains d.hostid
  if dests.isEmpty then pure .tempNoAnswer
  else pure (.copyTo (dests.filter fun d => !onHost d) (dests.filter onHost))

def answer (minFree : ℕ) (draws : ℕ → Draw) (onDevs : List Device) (allDevs : DeviceMap)
    (failed : List ℕ) : Except String ReplicationRequest := do
  let on ← self.placed (← addressed onDevs)
  let available ← self.placed (allDevs.devices.filter fun d => d.status.shouldHaveFiles)
  let need (zone : Text × ℕ) : Need := zoneNeed on available zone.1 zone.2
  let neededNetwork := (self.hostsPerZone.filter fun zone => need zone = .short).map Prod.fst
  if neededNetwork.isEmpty then
    pure (if self.hostsPerZone.any fun zone => need zone = .over then .tooGood else .allGood)
  else self.suggest minFree draws onDevs allDevs failed neededNetwork

/-- The count of the class is not used. -/
def replicateTo (minFree : ℕ) : ReplicationPolicy := fun draws onDevs allDevs failed _ =>
  .ofExcept (self.answer minFree draws onDevs allDevs failed)

/-! ### What it suggests -/

variable {self : HostsPerNetwork} {minFree min : ℕ} {draws : ℕ → Draw} {onDevs : List Device}
  {m : DeviceMap} {failed : List ℕ}

theorem zone_congr {d d' : Device} (hd : d ∈ m.devices) (hd' : d' ∈ m.devices) (hid : d.hostid = d'.hostid) :
    self.zone d = self.zone d' := by
  rw [zone, zone, Device.hostIp, Device.hostIp, m.host_eq d hd d' hd' hid, hid]

theorem placed_eq_ok {devs : List Device} (h : ∀ d ∈ devs, ∃ zone, self.zone d = .ok zone) :
    ∃ on, self.placed devs = .ok on ∧
      ∀ zone, devsIn zone on = devs.filter fun d => decide (self.zone d = .ok zone) := by
  induction devs with
  | nil => exact ⟨[], rfl, fun _ => rfl⟩
  | cons d devs ih =>
    obtain ⟨on, hon, hdevs⟩ := ih fun e he => h e (List.mem_cons_of_mem _ he)
    obtain ⟨zone, hzone⟩ := h d List.mem_cons_self
    refine ⟨(d, zone) :: on, ?_, fun zone' => ?_⟩
    · rw [placed, List.mapM_cons, hzone]
      simp only [ok_bind]
      show (self.placed devs >>= _) = _
      rw [hon]
      rfl
    · have hdevs := hdevs zone'
      rw [devsIn] at hdevs ⊢
      rw [List.filter_cons, List.filter_cons, hzone]
      by_cases heq : zone = zone'
      · subst heq
        simp [hdevs]
      · simp [heq, hdevs]

/-- A zone that is short of copies. -/
def Short (pol : HostsPerNetwork) (m : DeviceMap) (onDevs : List Device) (zone : Text) : Prop :=
  ∃ devs on available needed, addressed onDevs = .ok devs ∧ pol.placed devs = .ok on ∧
    pol.placed (m.devices.filter fun d => d.status.shouldHaveFiles) = .ok available ∧
    (zone, needed) ∈ pol.hostsPerZone ∧ zoneNeed on available zone needed = .short

/-- An ideal destination: in a zone that is short of copies, on a host without one. -/
structure Ideal (pol : HostsPerNetwork) (minFree : ℕ) (m : DeviceMap) (onDevs : List Device)
    (failed : List ℕ) (d : Device) : Prop extends MultipleHosts.Dest minFree m onDevs failed d where
  short : ∃ zone, pol.zone d = .ok zone ∧ pol.Short m onDevs zone
  fresh_host : d.hostid ∉ onDevs.map Device.hostid

theorem mem_neededNetwork {devs : List Device} {on available : List (Device × Text)}
    (hdevs : addressed onDevs = .ok devs) (hon : self.placed devs = .ok on)
    (havailable : self.placed (m.devices.filter fun d => d.status.shouldHaveFiles) = .ok available)
    {zone : Text} :
    zone ∈ (self.hostsPerZone.filter fun z => zoneNeed on available z.1 z.2 = .short).map Prod.fst ↔
      self.Short m onDevs zone := by
  constructor
  · intro hin
    obtain ⟨z, hz, rfl⟩ := List.mem_map.mp hin
    obtain ⟨hzone, hneed⟩ := List.mem_filter.mp hz
    exact ⟨devs, on, available, z.2, hdevs, hon, havailable, hzone, by simpa using hneed⟩
  · rintro ⟨devs', on', available', needed, hdevs', hon', havailable', hzone, hneed⟩
    obtain rfl := Except.ok.inj (hdevs.symm.trans hdevs')
    obtain rfl := Except.ok.inj (hon.symm.trans hon')
    obtain rfl := Except.ok.inj (havailable.symm.trans havailable')
    exact List.mem_map.mpr ⟨(zone, needed), List.mem_filter.mpr ⟨hzone, by simpa using hneed⟩, rfl⟩

variable (min) in
/-- What an answer with suggestions comes from. -/
theorem replicateTo_eq_copyTo {ideal desp : List Device}
    (h : self.replicateTo minFree draws onDevs m failed min = .copyTo ideal desp) :
    ∃ dests : List Device, (∀ d, d ∈ dests ↔ MultipleHosts.Dest minFree m onDevs failed d ∧
        ∃ zone, self.zone d = .ok zone ∧ self.Short m onDevs zone) ∧
      ideal = dests.filter (fun d => !(onDevs.map Device.hostid).contains d.hostid) ∧
      desp = dests.filter (fun d => (onDevs.map Device.hostid).contains d.hostid) := by
  have hanswer := ReplicationRequest.ofExcept_eq_copyTo h
  obtain ⟨devs, hdevs, hanswer⟩ := bind_eq_ok hanswer
  obtain ⟨on, hon, hanswer⟩ := bind_eq_ok hanswer
  obtain ⟨available, havailable, hanswer⟩ := bind_eq_ok hanswer
  simp only at hanswer
  split_ifs at hanswer
  · cases hanswer
  · cases hanswer
  · obtain ⟨dests, hdests, hanswer⟩ := bind_eq_ok hanswer
    simp only at hanswer
    split_ifs at hanswer
    · cases hanswer
    · cases hanswer
      refine ⟨dests, fun d => ?_, rfl, rfl⟩
      rw [mem_grepM hdests, MultipleHosts.mem_allDests]
      refine and_congr_right fun _ => ⟨fun htest => ?_, ?_⟩
      · obtain ⟨zone, hzone, htest⟩ := bind_eq_ok htest
        have hin := Except.ok.inj htest
        rw [List.contains_eq_mem, decide_eq_true_eq, mem_neededNetwork hdevs hon havailable] at hin
        exact ⟨zone, hzone, hin⟩
      · rintro ⟨zone, hzone, hin⟩
        rw [hzone]
        refine congrArg Except.ok ?_
        rw [List.contains_eq_mem, decide_eq_true_eq, mem_neededNetwork hdevs hon havailable]
        exact hin

variable (min) in
theorem mem_ideal_iff {ideal desp : List Device}
    (h : self.replicateTo minFree draws onDevs m failed min = .copyTo ideal desp) {d : Device} :
    d ∈ ideal ↔ Ideal self minFree m onDevs failed d := by
  obtain ⟨dests, hdests, rfl, -⟩ := replicateTo_eq_copyTo min h
  rw [List.mem_filter, hdests]
  constructor
  · rintro ⟨⟨hdest, hshort⟩, hhost⟩
    exact ⟨hdest, hshort, by simpa using hhost⟩
  · rintro ⟨hdest, hshort, hhost⟩
    exact ⟨⟨hdest, hshort⟩, by simpa using hhost⟩

variable (min) in
theorem dest_of_copyTo {ideal desp : List Device}
    (h : self.replicateTo minFree draws onDevs m failed min = .copyTo ideal desp) {d : Device}
    (hd : d ∈ ideal ∨ d ∈ desp) : MultipleHosts.Dest minFree m onDevs failed d := by
  obtain ⟨dests, hdests, rfl, rfl⟩ := replicateTo_eq_copyTo min h
  rcases hd with hd | hd
  · exact ((hdests d).mp (List.mem_of_mem_filter hd)).1
  · exact ((hdests d).mp (List.mem_of_mem_filter hd)).1

end HostsPerNetwork

end Ylem
