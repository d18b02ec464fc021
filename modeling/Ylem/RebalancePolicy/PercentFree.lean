import Ylem.Lib.Ranks
import Ylem.RebalancePolicy

/-!
# The PercentFree policy

Files are moved away from the fuller half of the devices that can be read and deleted from, and not to the
fuller half of all devices. The first half is taken of less devices than the second: a device that can get
files is among the first, but dead, down and readonly devices that are fuller push it out of the second half,
and then files go to it from devices that are less full (`percentFree_downhill_iff`).
-/

namespace Ylem

namespace PercentFree

/-- `percent_full`, of devices that have one. -/
def fullness (d : Device) : ℚ := d.percentFull.getD 0

/-- `@devs[0..$#devs-int(@devs/2)]`. -/
def fullerHalf (devs : List Device) : List Device := devs.take (devs.length - devs.length / 2)

/-- The devices whose fullness is known. -/
def knownDevices (devices : List Device) : List Device := devices.filter fun d => d.percentFull.isSome

/-- Those that files can be moved away from. -/
def sourceDevices (devices : List Device) : List Device :=
  devices.filter fun d => d.canReadFrom && d.canDeleteFrom && d.percentFull.isSome

def destDevsToAvoid (devices : List Device) : List Device := fullerHalf (sortDesc fullness (knownDevices devices))

/-- Is the most full device less than a quarter fuller than the least full one? -/
def goodEnough (devs : List Device) : Bool :=
  match devs.head?, devs.getLast? with
  | some most, some least => fullness least != 0 && fullness most / fullness least < 5 / 4
  | _, _ => false

def devfidsToRebalance (env : RebalanceEnv) (devices : List Device) : List (Device × ℕ) :=
  let devs := sortDesc fullness (sourceDevices devices)
  if devs = [] then []
  else if goodEnough devs then []
  else collectDevfids env.randomFids (weightedList env.draws ((fullerHalf devs).map fun d => (d, fullness d)))

/-- Is a device known to be fuller than another? -/
def Fuller (dest source : Device) : Prop :=
  ∃ p q, dest.percentFull = some p ∧ source.percentFull = some q ∧ q < p

section Halves

variable {devices : List Device} {dest source : Device} {minFree : ℕ}

theorem length_lt_half {n r : ℕ} : r < n - n / 2 ↔ 2 * r < n := by omega

theorem fuller_iff (hdest : dest.percentFull.isSome = true) (hsource : source.percentFull.isSome = true) :
    Fuller dest source ↔ fullness source < fullness dest := by
  obtain ⟨p, hp⟩ := Option.isSome_iff_exists.mp hdest
  obtain ⟨q, hq⟩ := Option.isSome_iff_exists.mp hsource
  simp [Fuller, fullness, hp, hq]

theorem mem_destDevsToAvoid (hnodup : devices.Nodup) (hdest : dest ∈ knownDevices devices) :
    dest ∈ destDevsToAvoid devices ↔
      2 * rank fullness (knownDevices devices) dest < (knownDevices devices).length := by
  have hnodup' : (knownDevices devices).Nodup := hnodup.filter _
  rw [destDevsToAvoid, fullerHalf, mem_take_sortDesc hnodup' hdest, (perm_sortDesc _ _).length_eq, length_lt_half]

theorem exists_source_lt {bound : ℚ} :
    (∃ s ∈ fullerHalf (sortDesc fullness (sourceDevices devices)), 0 < fullness s ∧ fullness s < bound) ↔
      2 * (sourceDevices devices).countP (fun s => bound ≤ fullness s) < (sourceDevices devices).length ∧
        ∃ s ∈ sourceDevices devices, 0 < fullness s ∧ fullness s < bound := by
  rw [fullerHalf, exists_mem_take_sortDesc, (perm_sortDesc _ _).length_eq, length_lt_half]

theorem source_of_mem {env : RebalanceEnv} {devfid : Device × ℕ} (h : devfid ∈ devfidsToRebalance env devices) :
    goodEnough (sortDesc fullness (sourceDevices devices)) = false ∧
      devfid.1 ∈ fullerHalf (sortDesc fullness (sourceDevices devices)) ∧ 0 < fullness devfid.1 := by
  simp only [devfidsToRebalance] at h
  split_ifs at h with hnil hgood
  · exact absurd h List.not_mem_nil
  · exact absurd h List.not_mem_nil
  · obtain ⟨item, hitem, hpos, heq⟩ := mem_weightedList.mp (mem_collectDevfids h).1
    obtain ⟨d, hd, rfl⟩ := List.mem_map.mp hitem
    exact ⟨by simpa using hgood, heq ▸ hd, heq ▸ hpos⟩

theorem exists_devfids_head {s : Device} (hgood : goodEnough (sortDesc fullness (sourceDevices devices)) = false)
    (hs : s ∈ fullerHalf (sortDesc fullness (sourceDevices devices))) (hpos : 0 < fullness s) :
    ∃ env fid, (devfidsToRebalance env devices).head? = some (s, fid) := by
  have hitem : (s, fullness s) ∈ (fullerHalf (sortDesc fullness (sourceDevices devices))).map
      fun d => (d, fullness d) := List.mem_map_of_mem hs
  obtain ⟨draws, rest, hrest⟩ := exists_weightedList_eq_cons hitem hpos
  have hne : sortDesc fullness (sourceDevices devices) ≠ [] := List.ne_nil_of_mem (List.mem_of_mem_take hs)
  refine ⟨⟨draws, fun _ => [1]⟩, 1, ?_⟩
  simp only [devfidsToRebalance]
  rw [if_neg hne, hgood, if_neg (by decide), hrest]
  rfl

end Halves

end PercentFree

open PercentFree

/-- The policy moves files downhill exactly if it does nothing at all, the disparity being small, or if for
every device that can get files and whose fullness is known one of these holds: at least half of the source
devices are as full as it is; none of them is less full, empty ones apart; less than half of all devices stand
in front of it in the order of their fullness. -/
theorem percentFree_downhill_iff (m : DeviceMap) (minFree : ℕ) :
    (∀ envs : List RebalanceEnv,
        ∀ devfid ∈ handedOut (envs.map fun env => devfidsToRebalance env m.devices) [],
        ∀ dest ∈ m.devices, dest ∉ destDevsToAvoid m.devices → dest.shouldGetReplicatedFiles minFree = true →
          ¬ Fuller dest devfid.1) ↔
      goodEnough (sortDesc fullness (sourceDevices m.devices)) = true ∨
        ∀ dest ∈ m.devices, dest.shouldGetReplicatedFiles minFree = true → dest.percentFull.isSome = true →
          (sourceDevices m.devices).length ≤
              2 * (sourceDevices m.devices).countP (fun s => fullness dest ≤ fullness s) ∨
            (∀ s ∈ sourceDevices m.devices, 0 < fullness s → fullness dest ≤ fullness s) ∨
            2 * rank fullness (knownDevices m.devices) dest < (knownDevices m.devices).length := by
  constructor
  · intro h
    by_contra hnot
    simp only [not_or, not_forall, Bool.not_eq_true, not_le, not_lt] at hnot
    obtain ⟨hgood, dest, hdest, hget, hknown, hcount, ⟨low, hlow, hpos, hlt⟩, hrank⟩ := hnot
    obtain ⟨s, hs, hspos, hslt⟩ := exists_source_lt.mpr ⟨hcount, low, hlow, hpos, hlt⟩
    obtain ⟨env, fid, hhead⟩ := exists_devfids_head hgood hs hspos
    have hmem : dest ∈ knownDevices m.devices := List.mem_filter.mpr ⟨hdest, hknown⟩
    have havoid : dest ∉ destDevsToAvoid m.devices := by
      rw [mem_destDevsToAvoid DeviceMap.nodup_devices hmem]
      omega
    have hsource : s.percentFull.isSome = true := by
      have hmem := (List.mem_filter.mp (mem_sortDesc.mp (List.mem_of_mem_take hs))).2
      simp only [Bool.and_eq_true] at hmem
      exact hmem.2
    exact h [env] (s, fid) (head_mem_handedOut hhead []) dest hdest havoid hget
      ((fuller_iff hknown hsource).mpr hslt)
  · intro h envs devfid hdevfid dest hdest havoid hget hfuller
    obtain ⟨devfids, hcall, hmem⟩ := (mem_handedOut hdevfid).resolve_left List.not_mem_nil
    obtain ⟨env, _, rfl⟩ := List.mem_map.mp hcall
    obtain ⟨hgood, hsource, hpos⟩ := source_of_mem hmem
    have hknown : dest.percentFull.isSome = true := by
      obtain ⟨p, _, hp, _⟩ := hfuller
      rw [hp]
      rfl
    have hknown' : devfid.1.percentFull.isSome = true := by
      obtain ⟨_, q, _, hq, _⟩ := hfuller
      rw [hq]
      rfl
    have hlt := (fuller_iff hknown hknown').mp hfuller
    obtain ⟨hcount, low, hlow, hlowpos, hlowlt⟩ := exists_source_lt.mp ⟨devfid.1, hsource, hpos, hlt⟩
    rw [mem_destDevsToAvoid DeviceMap.nodup_devices (List.mem_filter.mpr ⟨hdest, hknown⟩)] at havoid
    rcases h with hgood' | h
    · rw [hgood] at hgood'
      exact absurd hgood' (by decide)
    · rcases h dest hdest hget hknown with hle | hall | hrank
      · omega
      · exact absurd (hall low hlow hlowpos) (not_le.mpr hlowlt)
      · exact havoid hrank

/-- A device of a state, with so much of its 1000 MB used. -/
def usedDevice (devid : ℕ) (status : DeviceState) (mbUsed : ℕ) : Device where
  devid := devid
  hostid := 1
  host := some (upHost 1)
  status := status
  observedState := some .writeable
  mbTotal := 1000
  mbUsed := mbUsed

/-- Three dead devices that are full, and three alive ones. -/
def threeDead : DeviceMap where
  table := ⟨[usedDevice 1 .dead 900, usedDevice 2 .dead 900, usedDevice 3 .dead 900, usedDevice 4 .alive 600,
    usedDevice 5 .alive 500, usedDevice 6 .alive 100], by decide⟩
  devid_pos := by decide
  hostid_eq := by decide
  host_eq := by decide

/-- The dead devices are all that is avoided, and so files go from the second alive device to the first, which
is fuller. -/
theorem threeDead_uphill :
    ∃ env : RebalanceEnv, (usedDevice 5 .alive 500, 1) ∈
        handedOut [devfidsToRebalance env threeDead.devices] [] ∧
      usedDevice 4 .alive 600 ∈ threeDead.devices ∧
      usedDevice 4 .alive 600 ∉ destDevsToAvoid threeDead.devices ∧
      (usedDevice 4 .alive 600).shouldGetReplicatedFiles 100 = true ∧
      Fuller (usedDevice 4 .alive 600) (usedDevice 5 .alive 500) := by
  have hdevfids : devfidsToRebalance ⟨fun _ => ⟨9 / 10, by norm_num, by norm_num⟩, fun _ => [1]⟩ threeDead.devices =
      [(usedDevice 5 .alive 500, 1), (usedDevice 4 .alive 600, 1)] := by decide +kernel
  refine ⟨⟨fun _ => ⟨9 / 10, by norm_num, by norm_num⟩, fun _ => [1]⟩, ?_, by decide, by decide +kernel, by decide +kernel,
    3 / 5, 1 / 2, by decide +kernel, by decide +kernel, by norm_num⟩
  rw [hdevfids]
  exact head_mem_handedOut rfl []

end Ylem
