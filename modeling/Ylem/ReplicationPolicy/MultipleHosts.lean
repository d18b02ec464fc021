import Ylem.Device

/-!
# The MultipleHosts replication policy

A replication policy is asked with the devices a fid is on, the device map, the destinations that have
failed in this round and a copy count; it answers with a `ReplicationRequest`. `MultipleHosts` is happy
as soon as the copies are on enough hosts, or on as many hosts and devices as there are (`happy_iff`);
otherwise its ideal destinations are the usable devices on hosts that have no copy yet, or all the usable
devices once every host has one (`mem_ideal_iff`).

Whether it is happy depends on the numbers of copies and of hosts only, and more copies never make it
unhappy (`Happy.mono`).
-/

namespace Ylem

/-! ### Requests -/

/-- `MogileFS::ReplicationRequest`: nothing to suggest, happy, too happy, or suggestions in order of
preference. A policy that dies answers nothing at all. -/
inductive ReplicationRequest where
  | tempNoAnswer
  | allGood
  | tooGood
  | copyTo (ideal desperate : List Device)
  | died (error : String)

namespace ReplicationRequest

def isHappy : ReplicationRequest → Bool
  | allGood | tooGood => true
  | _ => false

def tooHappy : ReplicationRequest → Bool
  | tooGood => true
  | _ => false

def copyToOneOfIdeally : ReplicationRequest → List Device
  | copyTo ideal _ => ideal
  | _ => []

def copyToOneOfDesperate : ReplicationRequest → List Device
  | copyTo _ desperate => desperate
  | _ => []

/-- What a policy has died of. -/
def error : ReplicationRequest → Option String
  | died error => some error
  | _ => none

/-- The answer of a policy that may die. -/
def ofExcept : Except String ReplicationRequest → ReplicationRequest
  | .ok rr => rr
  | .error error => died error

theorem ofExcept_eq_copyTo {x : Except String ReplicationRequest} {ideal desperate : List Device}
    (h : ofExcept x = copyTo ideal desperate) : x = .ok (copyTo ideal desperate) := by
  cases x with
  | ok rr => exact congrArg Except.ok h
  | error => cases h

end ReplicationRequest

/-- A policy object as `replicate` asks it: the draws its shuffles use, `on_devs`, `all_devs`, `failed`
and `min`. -/
abbrev ReplicationPolicy := (ℕ → Draw) → List Device → DeviceMap → List ℕ → ℕ → ReplicationRequest

/-- The number of hosts of a list of devices. -/
def countHosts (devs : List Device) : ℕ := (devs.map Device.hostid).dedup.length

/-- The hosts with a device that should get replicated files. -/
def uniqueHosts (m : DeviceMap) : ℕ :=
  countHosts (m.devices.filter fun d => d.status.shouldGetReplFiles)

/-- The disks that are candidates for having files on them. -/
def totalDisks (m : DeviceMap) : ℕ := (m.devices.filter fun d => d.status.shouldHaveFiles).length

/-- A policy object; a count of `0` stands for an absent one too. -/
structure MultipleHosts where
  mindevcount : ℕ
  deriving DecidableEq, Repr

namespace MultipleHosts

/-- `$self->{mindevcount} || $min`. -/
def effectiveMin (self : MultipleHosts) (min : ℕ) : ℕ :=
  if self.mindevcount ≠ 0 then self.mindevcount else min

/-- A device that may get another copy: not on it, not failed, accepting replicas. -/
def usable (minFree : ℕ) (onDevs : List Device) (failed : List ℕ) (d : Device) : Bool :=
  !(onDevs.map Device.devid).contains d.devid && !failed.contains d.devid &&
    d.shouldGetReplicatedFiles minFree

/-- The hosts to leave out of the ideal suggestions: those with a copy, as long as there are others. -/
def skipHost (onDevs : List Device) (allDevs : DeviceMap) : List ℕ :=
  if countHosts onDevs < uniqueHosts allDevs then onDevs.map Device.hostid else []

def replicateTo (self : MultipleHosts) (minFree : ℕ) : ReplicationPolicy :=
  fun draws onDevs allDevs failed min =>
    let min := self.effectiveMin min
    let alreadyOn := onDevs.length
    if min = 1 ∧ alreadyOn ≠ 0 then .allGood
    else if 2 ≤ alreadyOn ∧ alreadyOn = totalDisks allDevs then .allGood
    else
      let uniqHostsOn := countHosts onDevs
      let totalUniqHosts := uniqueHosts allDevs
      if min < uniqHostsOn then .tooGood
      else if uniqHostsOn = min ∧ min < alreadyOn then .tooGood
      else if uniqHostsOn = min then .allGood
      else if totalUniqHosts ≤ uniqHostsOn ∧ min ≤ alreadyOn then .allGood
      else
        let allDests := weightedList draws
          ((allDevs.devices.filter (usable minFree onDevs failed)).map fun d => (d, 100 * d.percentFree))
        let skip := skipHost onDevs allDevs
        let ideal := allDests.filter fun d => !skip.contains d.hostid
        let desp := allDests.filter fun d => skip.contains d.hostid
        if allDests.isEmpty then .tempNoAnswer
        else if min ≤ alreadyOn ∧ ideal.isEmpty then .tempNoAnswer
        else .copyTo ideal desp

/-! ### When the policy is happy -/

/-- The policy is happy with `onDevs`. -/
def Happy (m : DeviceMap) (min : ℕ) (onDevs : List Device) : Prop :=
  (min = 1 ∧ onDevs ≠ []) ∨ (2 ≤ onDevs.length ∧ onDevs.length = totalDisks m) ∨
    min ≤ countHosts onDevs ∨ (uniqueHosts m ≤ countHosts onDevs ∧ min ≤ onDevs.length)

instance (m : DeviceMap) (min : ℕ) (onDevs : List Device) : Decidable (Happy m min onDevs) :=
  inferInstanceAs (Decidable (_ ∨ _))

variable {self : MultipleHosts} {minFree min : ℕ} {draws : ℕ → Draw} {onDevs : List Device}
  {m : DeviceMap} {failed : List ℕ}

variable (minFree draws failed) in
theorem happy_iff : (self.replicateTo minFree draws onDevs m failed min).isHappy = true ↔
    Happy m (self.effectiveMin min) onDevs := by
  simp only [replicateTo, Happy, ← List.length_eq_zero_iff, ne_eq]
  split_ifs <;> simp only [ReplicationRequest.isHappy, true_iff, false_iff, Bool.false_eq_true] <;> omega

variable (minFree draws onDevs m failed min) in
/-- The policy never dies. -/
theorem error_eq_none : (self.replicateTo minFree draws onDevs m failed min).error = none := by
  simp only [replicateTo]
  split_ifs <;> rfl

/-- A device the policy may suggest for another copy. -/
structure Dest (minFree : ℕ) (m : DeviceMap) (onDevs : List Device) (failed : List ℕ) (d : Device) :
    Prop where
  mem : d ∈ m.devices
  not_on : d.devid ∉ onDevs.map Device.devid
  not_failed : d.devid ∉ failed
  getRepl : d.shouldGetReplicatedFiles minFree = true
  free : 0 < d.percentFree

/-- An ideal one: on a host without a copy, as long as there is such a host. -/
structure Ideal (minFree : ℕ) (m : DeviceMap) (onDevs : List Device) (failed : List ℕ) (d : Device) :
    Prop extends Dest minFree m onDevs failed d where
  not_skipped : countHosts onDevs < uniqueHosts m → d.hostid ∉ onDevs.map Device.hostid

theorem mem_allDests {d : Device} :
    d ∈ weightedList draws
        ((m.devices.filter (usable minFree onDevs failed)).map fun d => (d, 100 * d.percentFree)) ↔
      Dest minFree m onDevs failed d := by
  rw [mem_weightedList]
  constructor
  · rintro ⟨_, hmem, hpos, rfl⟩
    obtain ⟨d, hd, rfl⟩ := List.mem_map.mp hmem
    obtain ⟨hmem, husable⟩ := List.mem_filter.mp hd
    simp only [usable, Bool.and_eq_true, Bool.not_eq_true', List.contains_eq_mem,
      decide_eq_false_iff_not] at husable
    exact ⟨hmem, husable.1.1, husable.1.2, husable.2, by simpa using hpos⟩
  · rintro ⟨hmem, hon, hfailed, hrepl, hfree⟩
    have husable : usable minFree onDevs failed d = true := by
      simp only [usable, List.contains_eq_mem, hon, hfailed, hrepl, decide_false, Bool.not_false,
        Bool.and_self]
    exact ⟨(d, 100 * d.percentFree), List.mem_map.mpr ⟨d, List.mem_filter.mpr ⟨hmem, husable⟩, rfl⟩,
      by simpa using hfree, rfl⟩

theorem exists_allDests_eq_cons {d : Device} (hd : Dest minFree m onDevs failed d) : ∃ draws rest,
    weightedList draws ((m.devices.filter (usable minFree onDevs failed)).map fun d => (d, 100 * d.percentFree)) =
      d :: rest := by
  have hmem : d ∈ weightedList (fun _ => .least) _ := mem_allDests.mpr hd
  obtain ⟨_, hin, -, hfirst⟩ := mem_weightedList.mp hmem
  obtain ⟨e, he, rfl⟩ := List.mem_map.mp hin
  obtain rfl : e = d := hfirst
  obtain ⟨draws, rest, hdraws⟩ := exists_weightedList_eq_cons hin (by simpa using hd.free)
  exact ⟨draws, rest, hdraws⟩

theorem nodup_allDests : (weightedList draws
    ((m.devices.filter (usable minFree onDevs failed)).map fun d => (d, 100 * d.percentFree))).Nodup := by
  rw [(weightedList_perm draws _).nodup_iff, List.filter_map, List.map_map]
  have hid : (Prod.fst ∘ fun d : Device => (d, 100 * d.percentFree)) = id := rfl
  rw [hid, List.map_id]
  exact (DeviceMap.nodup_devices.filter _).filter _

/-- The suggestions name every device that may get another copy, and name it once. -/
structure Exact (minFree : ℕ) (m : DeviceMap) (onDevs : List Device) (failed : List ℕ)
    (ideal desperate : List Device) : Prop where
  nodup_ideal : ideal.Nodup
  nodup_desperate : desperate.Nodup
  disjoint : ∀ d ∈ ideal, d ∉ desperate
  mem_iff : ∀ d, d ∈ ideal ∨ d ∈ desperate ↔ Dest minFree m onDevs failed d

variable (draws) in
theorem exact_of_perm {ideal desperate : List Device}
    (h : (ideal ++ desperate).Perm (weightedList draws
      ((m.devices.filter (usable minFree onDevs failed)).map fun d => (d, 100 * d.percentFree)))) :
    Exact minFree m onDevs failed ideal desperate := by
  have hnodup : (ideal ++ desperate).Nodup := h.nodup_iff.mpr nodup_allDests
  rw [List.nodup_append] at hnodup
  obtain ⟨hideal, hdesp, hdisjoint⟩ := hnodup
  refine ⟨hideal, hdesp, fun d hd hd' => hdisjoint d hd d hd' rfl, fun d => ?_⟩
  rw [← List.mem_append, h.mem_iff, mem_allDests]

theorem mem_skipHost {hostid : ℕ} : hostid ∈ skipHost onDevs m ↔
    countHosts onDevs < uniqueHosts m ∧ hostid ∈ onDevs.map Device.hostid := by
  rw [skipHost]
  split_ifs with h <;> simp [h]

variable (minFree draws failed) in
theorem replicateTo_of_not_happy (h : ¬ Happy m (self.effectiveMin min) onDevs) :
    ∃ ideal desp, (∀ d, d ∈ ideal ↔ Ideal minFree m onDevs failed d) ∧
      (∀ d ∈ desp, Dest minFree m onDevs failed d) ∧
      (self.replicateTo minFree draws onDevs m failed min = .copyTo ideal desp ∨
        self.replicateTo minFree draws onDevs m failed min = .tempNoAnswer ∧ ideal = []) := by
  set allDests := weightedList draws
    ((m.devices.filter (usable minFree onDevs failed)).map fun d => (d, 100 * d.percentFree)) with hall
  refine ⟨allDests.filter fun d => !(skipHost onDevs m).contains d.hostid,
    allDests.filter fun d => (skipHost onDevs m).contains d.hostid, fun d => ?_, fun d hd => ?_, ?_⟩
  · rw [List.mem_filter, hall, mem_allDests]
    simp only [List.contains_eq_mem, Bool.not_eq_true', decide_eq_false_iff_not, mem_skipHost, not_and]
    exact ⟨fun h => ⟨h.1, h.2⟩, fun h => ⟨h.toDest, h.not_skipped⟩⟩
  · exact mem_allDests.mp (List.mem_of_mem_filter hd)
  · simp only [Happy, ← List.length_eq_zero_iff, ne_eq, not_or, not_and] at h
    obtain ⟨h1, h2, h3, h4⟩ := h
    simp only [replicateTo, ← List.length_eq_zero_iff, ne_eq]
    rw [if_neg (by omega), if_neg (by omega), if_neg (by omega), if_neg (by omega), if_neg (by omega),
      if_neg (by omega), ← hall]
    by_cases hempty : allDests.isEmpty
    · rw [if_pos hempty]
      exact .inr ⟨rfl, by rw [List.isEmpty_iff.mp hempty]; rfl⟩
    · rw [if_neg hempty]
      split_ifs with hideal
      · exact .inr ⟨rfl, by rw [List.isEmpty_iff.mp hideal.2]; rfl⟩
      · exact .inl rfl

/-- What the suggestions of the policy are. Without an ideal one there are fewer copies than wanted. -/
theorem replicateTo_eq_copyTo {ideal desp : List Device}
    (h : self.replicateTo minFree draws onDevs m failed min = .copyTo ideal desp) :
    (∀ d, d ∈ ideal ↔ Ideal minFree m onDevs failed d) ∧
      (ideal = [] → onDevs.length < self.effectiveMin min) := by
  have hunhappy : ¬ Happy m (self.effectiveMin min) onDevs := by
    rw [← happy_iff minFree draws failed, h]
    exact Bool.false_ne_true
  constructor
  · obtain ⟨ideal', desp', hideal, -, hrr | ⟨hrr, -⟩⟩ := replicateTo_of_not_happy minFree draws failed hunhappy
    · rw [h] at hrr
      cases hrr
      exact hideal
    · rw [h] at hrr
      cases hrr
  · rintro rfl
    simp only [replicateTo] at h
    split_ifs at h with _ _ _ _ _ _ _ hstop
    by_contra hmin
    injection h with hideal
    exact hstop ⟨by omega, by rw [hideal]; rfl⟩

theorem exists_replicateTo_eq_copyTo (hunhappy : ¬ Happy m (self.effectiveMin min) onDevs)
    (hfew : onDevs.length < self.effectiveMin min) {d : Device} (hd : Dest minFree m onDevs failed d) :
    ∃ ideal desp, self.replicateTo minFree draws onDevs m failed min = .copyTo ideal desp := by
  obtain ⟨ideal, desp, -, -, hrr | ⟨hrr, -⟩⟩ := replicateTo_of_not_happy minFree draws failed hunhappy
  · exact ⟨ideal, desp, hrr⟩
  · have hmem : d ∈ weightedList draws _ := mem_allDests.mpr hd
    have hne := List.ne_nil_of_mem hmem
    simp only [replicateTo] at hrr
    split_ifs at hrr with _ _ _ _ _ _ hnone hstop
    · exact absurd (List.isEmpty_iff.mp hnone) hne
    · omega

/-- The suggestions are all the devices that may get a copy, each of them once. -/
theorem exact_of_copyTo {ideal desp : List Device}
    (h : self.replicateTo minFree draws onDevs m failed min = .copyTo ideal desp) :
    Exact minFree m onDevs failed ideal desp := by
  simp only [replicateTo] at h
  split_ifs at h
  injection h with hideal hdesp
  refine exact_of_perm draws ?_
  rw [← hideal, ← hdesp]
  have hnot : ∀ d : Device, (skipHost onDevs m).contains d.hostid =
      !(!(skipHost onDevs m).contains d.hostid) := fun d => (Bool.not_not _).symm
  rw [List.filter_congr fun d _ => hnot d]
  exact List.filter_append_perm _ _

/-! ### More copies -/

theorem countHosts_mono {on on' : List Device} (h : on ⊆ on') : countHosts on ≤ countHosts on' := by
  simp only [countHosts, ← List.card_toFinset]
  refine Finset.card_le_card fun hostid hmem => ?_
  rw [List.mem_toFinset] at hmem ⊢
  exact List.map_subset _ h hmem

theorem countHosts_cons_le (d : Device) (on : List Device) : countHosts (d :: on) ≤ countHosts on + 1 := by
  simp only [countHosts, ← List.card_toFinset, List.map_cons, List.toFinset_cons]
  exact Finset.card_insert_le _ _

theorem countHosts_append_le (on added : List Device) :
    countHosts (on ++ added) ≤ countHosts on + added.length := by
  simp only [countHosts, ← List.card_toFinset, List.map_append, List.toFinset_append]
  refine (Finset.card_union_le _ _).trans (Nat.add_le_add_left ?_ _)
  exact (List.toFinset_card_le _).trans_eq (List.length_map _)

theorem countHosts_le_length (on : List Device) : countHosts on ≤ on.length := by
  rw [countHosts]
  exact (List.dedup_sublist _).length_le.trans_eq (List.length_map _)

theorem countHosts_append_new {on : List Device} {d : Device} (h : d.hostid ∉ on.map Device.hostid) :
    countHosts (on ++ [d]) = countHosts on + 1 := by
  simp only [countHosts, ← List.card_toFinset, List.map_append, List.toFinset_append, List.map_cons,
    List.map_nil]
  rw [Finset.card_union_of_disjoint]
  · rfl
  · simpa [Finset.disjoint_singleton_right] using h

theorem countHosts_lt_uniqueHosts {on : List Device}
    (hon : ∀ e ∈ on, e ∈ m.devices ∧ e.status.shouldGetReplFiles = true) {d : Device} (hd : d ∈ m.devices)
    (hrepl : d.status.shouldGetReplFiles = true) (hnew : d.hostid ∉ on.map Device.hostid) :
    countHosts on < uniqueHosts m := by
  have hsub : on ++ [d] ⊆ m.devices.filter fun d => d.status.shouldGetReplFiles := by
    intro e he
    rcases List.mem_append.mp he with he | he
    · exact List.mem_filter.mpr (hon e he)
    · obtain rfl := List.mem_singleton.mp he
      exact List.mem_filter.mpr ⟨hd, hrepl⟩
  have hle := countHosts_mono hsub
  rw [countHosts_append_new hnew] at hle
  exact hle

/-- Different devices of the map that should have files. -/
structure Copies (m : DeviceMap) (on : List Device) : Prop where
  nodup : on.Nodup
  mem : ∀ d ∈ on, d ∈ m.devices
  shouldHave : ∀ d ∈ on, d.status.shouldHaveFiles = true

theorem Copies.length_le {on : List Device} (h : Copies m on) : on.length ≤ totalDisks m := by
  refine (List.subperm_of_subset h.nodup fun d hd => ?_).length_le
  exact List.mem_filter.mpr ⟨h.mem d hd, h.shouldHave d hd⟩

/-- More copies never make the policy unhappy. -/
theorem Happy.mono {on on' : List Device} (h : Happy m min on) (hnodup : on.Nodup) (hsub : on ⊆ on')
    (hcopies : Copies m on') : Happy m min on' := by
  have hlen : on.length ≤ on'.length := (List.subperm_of_subset hnodup hsub).length_le
  have hhosts := countHosts_mono hsub
  have htotal := hcopies.length_le
  simp only [Happy, ne_eq, ← List.length_eq_zero_iff] at h ⊢
  omega

/-! ### Is a happy policy right? -/

/-- The copies are on `min` hosts, or every device that could get another one is on a host with a copy. -/
def WellSpread (minFree : ℕ) (m : DeviceMap) (min : ℕ) (onDevs : List Device) : Prop :=
  min ≤ countHosts onDevs ∨
    ∀ d ∈ m.devices, d.shouldGetReplicatedFiles minFree = true → d.hostid ∈ onDevs.map Device.hostid

/-- There are `min` copies but not on `min` hosts, and still not fewer hosts with a copy than hosts with a
device that should get replicas; but one of these has none. -/
structure Overlooked (minFree : ℕ) (m : DeviceMap) (min : ℕ) (onDevs : List Device) : Prop where
  enough : min ≤ onDevs.length
  few_hosts : countHosts onDevs < min
  no_more_hosts : uniqueHosts m ≤ countHosts onDevs
  free : ∃ d ∈ m.devices, d.shouldGetReplicatedFiles minFree = true ∧ d.hostid ∉ onDevs.map Device.hostid

theorem countHosts_pos {on : List Device} (h : on ≠ []) : 0 < countHosts on := by
  obtain ⟨d, rest, rfl⟩ := List.exists_cons_of_ne_nil h
  rw [countHosts, List.length_pos_iff]
  refine List.ne_nil_of_mem (a := d.hostid) ?_
  rw [List.mem_dedup]
  exact List.mem_cons_self

/-- Copies on as many disks as there are are on all of them. -/
theorem Copies.mem_of_length {on : List Device} (h : Copies m on) (hlen : on.length = totalDisks m)
    {d : Device} (hd : d ∈ m.devices) (hshould : d.status.shouldHaveFiles = true) : d ∈ on := by
  have hsub : on.Subperm (m.devices.filter fun d => d.status.shouldHaveFiles) :=
    List.subperm_of_subset h.nodup fun e he => List.mem_filter.mpr ⟨h.mem e he, h.shouldHave e he⟩
  have hperm := hsub.perm_of_length_le hlen.ge
  exact hperm.mem_iff.mpr (List.mem_filter.mpr ⟨hd, hshould⟩)

theorem not_happy_of_few {on : List Device} (hcopies : Copies m on) (hfew : on.length < min)
    (hhosts : countHosts on < uniqueHosts m) {d : Device} (hd : Dest minFree m on failed d) : ¬ Happy m min on := by
  rintro (⟨hone, hne⟩ | ⟨-, hall⟩ | hmin | ⟨huniq, -⟩)
  · have hpos := List.length_pos_iff.mpr hne
    omega
  · have hshould := DeviceState.shouldHaveFiles_of_getRepl
      (Device.shouldGetReplFiles_of_shouldGetReplicatedFiles hd.getRepl)
    exact hd.not_on (List.mem_map_of_mem (hcopies.mem_of_length hall hd.mem hshould))
  · have hle := countHosts_le_length on
    omega
  · omega

/-- A happy policy is right about the copies exactly if it has overlooked no host. -/
theorem wellSpread_of_happy_iff (self : MultipleHosts) (minFree min : ℕ) (draws : ℕ → Draw)
    (failed : List ℕ) {on : List Device} (hcopies : Copies m on) :
    ((self.replicateTo minFree draws on m failed min).isHappy = true →
        WellSpread minFree m (self.effectiveMin min) on) ↔
      ¬ Overlooked minFree m (self.effectiveMin min) on := by
  rw [happy_iff]
  constructor
  · rintro hspread ⟨henough, hfew, hhosts, d, hd, hrepl, hnot⟩
    rcases hspread (.inr (.inr (.inr ⟨hhosts, henough⟩))) with hmin | hall
    · omega
    · exact hnot (hall d hd hrepl)
  · intro hnot hhappy
    by_cases hmin : self.effectiveMin min ≤ countHosts on
    · exact .inl hmin
    refine .inr fun d hd hrepl => ?_
    rcases hhappy with ⟨hone, hne⟩ | ⟨-, hall⟩ | hmin' | ⟨hhosts, henough⟩
    · have hpos := countHosts_pos hne
      omega
    · have hshould := DeviceState.shouldHaveFiles_of_getRepl
        (Device.shouldGetReplFiles_of_shouldGetReplicatedFiles hrepl)
      exact List.mem_map_of_mem (hcopies.mem_of_length hall hd hshould)
    · exact absurd hmin' hmin
    · by_contra hfree
      exact hnot ⟨henough, by omega, hhosts, d, hd, hrepl, hfree⟩

/-- Two copies on two hosts. -/
theorem twoHosts_wellSpread : WellSpread 100 twoHosts 2 [upDevice 1 1, upDevice 3 2] :=
  (wellSpread_of_happy_iff ⟨0⟩ 100 2 (fun _ => ⟨0, by norm_num⟩) []
    (m := twoHosts) ⟨by decide, by decide, by decide⟩).mpr
      (fun h => absurd h.few_hosts (by decide)) (by decide +kernel)

/-- `h1[ d1 d2 ] h2[ d3 ]`, with `d1` and `d2` read-only. -/
def readonlyHost : DeviceMap where
  table := ⟨[{ upDevice 1 1 with status := .readonly }, { upDevice 2 1 with status := .readonly },
    upDevice 3 2], by decide⟩
  devid_pos := by decide
  hostid_eq := by decide
  host_eq := by decide

/-- With both copies on the read-only host the policy is happy, although `d3` is free. -/
theorem readonlyHost_overlooks :
    let on := [{ upDevice 1 1 with status := .readonly }, { upDevice 2 1 with status := .readonly }]
    Copies readonlyHost on ∧
      ((⟨0⟩ : MultipleHosts).replicateTo 100 (fun _ => ⟨0, by norm_num⟩) on readonlyHost [] 2).isHappy = true ∧
      ¬ WellSpread 100 readonlyHost 2 on := by
  refine ⟨⟨by decide, by decide, by decide⟩, by decide +kernel, ?_⟩
  rintro (hmin | hall)
  · exact absurd hmin (by decide)
  · exact absurd (hall (upDevice 3 2) (by decide) (by decide)) (by decide)

end MultipleHosts

end Ylem
