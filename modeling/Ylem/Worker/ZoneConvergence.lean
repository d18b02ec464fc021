import Ylem.Worker.NetworkConvergence

/-!
# HostsPerNetwork replication converges

How many copies does `replicate` make under `HostsPerNetwork` if every copy succeeds? Where every zone has
enough hosts that hold a copy or can get one, the policy counts hosts in each of them. The first suggestion
is a device in a zone that is short, on a host without a copy (`Furnished.first_suggestion`), so that a copy
makes the shortage of one zone smaller by one and leaves the others as they are (`sum_shortages`). There are
as many copies as hosts are missing in all the zones (`zones_converge`).

The netmasks of the zones need not be disjoint for that: a host is in the first zone that covers its address.
-/

namespace Ylem

open MultipleHosts (Dest countHosts_append_new countHosts_mono)

/-- One of the numbers grows by one, for one of the keys: the shortages of all of them together are one
less. -/
theorem sum_shortages {l : List (Text × ℕ)} (hnodup : (l.map Prod.fst).Nodup) {zone : Text} {needed : ℕ}
    (hin : (zone, needed) ∈ l) {f f' : Text → ℕ} (hone : f' zone = f zone + 1)
    (hother : ∀ z, z ≠ zone → f' z = f z) (hlt : f zone < needed) :
    (l.map fun z => z.2 - f z.1).sum = (l.map fun z => z.2 - f' z.1).sum + 1 := by
  induction l with
  | nil => exact absurd hin List.not_mem_nil
  | cons first l ih =>
    rw [List.map_cons, List.nodup_cons] at hnodup
    simp only [List.map_cons, List.sum_cons]
    rcases List.mem_cons.mp hin with rfl | hin
    · have hrest : (l.map fun z => z.2 - f z.1) = l.map fun z => z.2 - f' z.1 := by
        refine List.map_congr_left fun z hz => ?_
        rw [hother z.1 fun heq => hnodup.1 (List.mem_map.mpr ⟨z, hz, heq⟩)]
      rw [hrest]
      simp only
      omega
    · have hne : first.1 ≠ zone := fun heq => hnodup.1 (heq ▸ List.mem_map_of_mem hin)
      rw [hother first.1 hne, ih hnodup.2 hin]
      omega

namespace HostsPerNetwork

variable (pol : HostsPerNetwork)

/-- The hosts of a zone among those of some devices. -/
def hostsIn (zone : Text) (devs : List Device) : ℕ :=
  countHosts (devs.filter fun d => decide (pol.zone d = .ok zone))

/-- The hosts that are missing, in all the zones. -/
def missing (devs : List Device) : ℕ :=
  (pol.hostsPerZone.map fun zone => zone.2 - pol.hostsIn zone.1 devs).sum

/-- The devices that hold a copy and should have it, or can get one. -/
def holders (minFree : ℕ) (m : DeviceMap) (onDevs : List Device) : List Device :=
  m.devices.filter fun d => (decide (d ∈ onDevs) && d.status.shouldHaveFiles) ||
    (d.shouldGetReplicatedFiles minFree && decide (0 < d.percentFree))

/-- Every host in use has an address, and the netmasks of the zones can be parsed. -/
structure Addressed (m : DeviceMap) : Prop where
  parses : ∀ zone ∈ pol.zones, ∃ net, pol.netmasks.parse zone.2 = some net
  address : ∀ d ∈ m.devices, d.status.shouldHaveFiles = true →
    ∃ ip, d.hostIp = .ok (some ip) ∧ Text.truthy (some ip) = true

variable {pol} {minFree min : ℕ} {draws : ℕ → Draw} {onDevs : List Device} {m : DeviceMap} {failed : List ℕ}

theorem hostsIn_mono {zone : Text} {devs devs' : List Device} (h : devs ⊆ devs') :
    pol.hostsIn zone devs ≤ pol.hostsIn zone devs' :=
  countHosts_mono fun _ hd =>
    List.mem_filter.mpr ⟨h (List.mem_of_mem_filter hd), (List.mem_filter.mp hd).2⟩

theorem hostsIn_append {zone : Text} {devs : List Device} {d : Device} (hzone : pol.zone d = .ok zone)
    (hfresh : d.hostid ∉ devs.map Device.hostid) :
    pol.hostsIn zone (devs ++ [d]) = pol.hostsIn zone devs + 1 := by
  have hone : [d].filter (fun d => decide (pol.zone d = .ok zone)) = [d] := by simp [hzone]
  rw [hostsIn, List.filter_append, hone]
  refine countHosts_append_new fun hin => hfresh ?_
  obtain ⟨e, he, hid⟩ := List.mem_map.mp hin
  exact List.mem_map.mpr ⟨e, List.mem_of_mem_filter he, hid⟩

theorem hostsIn_append_other {zone zone' : Text} {devs : List Device} {d : Device}
    (hzone : pol.zone d = .ok zone) (hne : zone' ≠ zone) :
    pol.hostsIn zone' (devs ++ [d]) = pol.hostsIn zone' devs := by
  have hnone : [d].filter (fun d => decide (pol.zone d = .ok zone')) = [] := by
    simp [hzone, Ne.symm hne]
  rw [hostsIn, List.filter_append, hnone, List.append_nil]
  rfl

theorem exists_short (h : pol.missing onDevs ≠ 0) :
    ∃ zone ∈ pol.hostsPerZone, pol.hostsIn zone.1 onDevs < zone.2 := by
  by_contra hnone
  push Not at hnone
  refine h (List.sum_eq_zero fun n hn => ?_)
  obtain ⟨zone, hzone, rfl⟩ := List.mem_map.mp hn
  exact Nat.sub_eq_zero_of_le (hnone zone hzone)

theorem hostsIn_of_missing (h : pol.missing onDevs = 0) {zone : Text × ℕ} (hzone : zone ∈ pol.hostsPerZone) :
    zone.2 ≤ pol.hostsIn zone.1 onDevs := by
  have hzero := List.sum_eq_zero_iff.mp h _ (List.mem_map_of_mem hzone)
  omega

/-! ### The zones of the devices -/

theorem exists_zone {netmasks : Netmasks} {zones : List (Text × Text)}
    (hparses : ∀ zone ∈ zones, ∃ net, netmasks.parse zone.2 = some net) (ip : Text) :
    ∃ zone, zoneForIp.search netmasks ip zones = .ok zone := by
  induction zones with
  | nil => exact ⟨[], rfl⟩
  | cons first zones ih =>
    obtain ⟨net, hnet⟩ := hparses first List.mem_cons_self
    obtain ⟨zone, hzone⟩ := ih fun z hz => hparses z (List.mem_cons_of_mem _ hz)
    have hmatch : netmasks.matchSetting first.2 ip = .ok (netmasks.covers net ip) := by
      rw [Netmasks.matchSetting, hnet]
      rfl
    rw [zoneForIp.search, hmatch]
    simp only [ok_bind]
    cases netmasks.covers net ip with
    | true => exact ⟨first.1, rfl⟩
    | false => exact ⟨zone, hzone⟩

section Addressed

variable (haddr : pol.Addressed m)
include haddr

theorem Addressed.zone {d : Device} (hd : d ∈ m.devices) (hshould : d.status.shouldHaveFiles = true) :
    ∃ zone, pol.zone d = .ok zone := by
  obtain ⟨ip, hip, htruthy⟩ := haddr.address d hd hshould
  obtain ⟨zone, hzone⟩ := exists_zone haddr.parses ip
  refine ⟨zone, ?_⟩
  rw [HostsPerNetwork.zone, hip]
  simp only [ok_bind, zoneForIp, htruthy, Bool.not_true, Bool.false_eq_true, if_false]
  exact hzone

theorem Addressed.addressed {devs : List Device} (hcopies : MultipleHosts.Copies m devs) :
    addressed devs = .ok devs := by
  have htruthy : ∀ d ∈ devs, (do pure (Text.truthy (← d.hostIp)) : Except String Bool) = .ok true := by
    intro d hd
    obtain ⟨ip, hip, htruthy⟩ := haddr.address d (hcopies.mem d hd) (hcopies.shouldHave d hd)
    rw [hip]
    exact congrArg Except.ok htruthy
  rw [Ylem.addressed, grepM_eq_ok fun d hd => ⟨true, htruthy d hd⟩]
  exact congrArg Except.ok (List.filter_eq_self.mpr fun d hd => decide_eq_true (htruthy d hd))

theorem Addressed.needs (hcopies : MultipleHosts.Copies m onDevs)
    (henough : ∀ zone ∈ pol.hostsPerZone,
      zone.2 ≤ pol.hostsIn zone.1 (m.devices.filter fun d => d.status.shouldHaveFiles)) :
    ∃ on available, pol.placed onDevs = .ok on ∧
      pol.placed (m.devices.filter fun d => d.status.shouldHaveFiles) = .ok available ∧
      ∀ zone ∈ pol.hostsPerZone, zoneNeed on available zone.1 zone.2 = .short ↔
        pol.hostsIn zone.1 onDevs < zone.2 := by
  obtain ⟨on, hon, hdevs⟩ := placed_eq_ok fun d hd =>
    haddr.zone (hcopies.mem d hd) (hcopies.shouldHave d hd)
  have havailable : ∀ d ∈ m.devices.filter fun d => d.status.shouldHaveFiles, ∃ zone, pol.zone d = .ok zone :=
    fun d hd => haddr.zone (List.mem_of_mem_filter hd) (List.mem_filter.mp hd).2
  obtain ⟨available, havailable, hdevs'⟩ := placed_eq_ok havailable
  refine ⟨on, available, hon, havailable, fun zone hzone => ?_⟩
  have hcount : zone.2 ≤ countHosts (devsIn zone.1 available) := by
    rw [hdevs' zone.1]
    exact henough zone hzone
  rw [zoneNeed, hdevs zone.1]
  simp only [if_pos hcount]
  show (if pol.hostsIn zone.1 onDevs < zone.2 then Need.short else _) = _ ↔ _
  constructor
  · intro hneed
    by_contra hnot
    rw [if_neg hnot] at hneed
    split_ifs at hneed
  · intro hshort
    rw [if_pos hshort]

/-- The zones that are short, in the words of the policy. -/
theorem Addressed.short_iff (hcopies : MultipleHosts.Copies m onDevs)
    (henough : ∀ zone ∈ pol.hostsPerZone,
      zone.2 ≤ pol.hostsIn zone.1 (m.devices.filter fun d => d.status.shouldHaveFiles)) {zone : Text} :
    pol.Short m onDevs zone ↔ ∃ needed, (zone, needed) ∈ pol.hostsPerZone ∧
      pol.hostsIn zone onDevs < needed := by
  obtain ⟨on, available, hon, havailable, hneeds⟩ := haddr.needs hcopies henough
  constructor
  · rintro ⟨devs, on', available', needed, hdevs, hon', havailable', hzone, hneed⟩
    obtain rfl := Except.ok.inj ((haddr.addressed hcopies).symm.trans hdevs)
    obtain rfl := Except.ok.inj (hon.symm.trans hon')
    obtain rfl := Except.ok.inj (havailable.symm.trans havailable')
    exact ⟨needed, hzone, (hneeds _ hzone).mp hneed⟩
  · rintro ⟨needed, hzone, hshort⟩
    exact ⟨onDevs, on, available, needed, haddr.addressed hcopies, hon, havailable, hzone,
      (hneeds _ hzone).mpr hshort⟩

variable (minFree draws failed) in
theorem Addressed.answer_eq (hcopies : MultipleHosts.Copies m onDevs)
    (henough : ∀ zone ∈ pol.hostsPerZone,
      zone.2 ≤ pol.hostsIn zone.1 (m.devices.filter fun d => d.status.shouldHaveFiles)) :
    ∃ neededNetwork tooGood, (∀ zone, zone ∈ neededNetwork ↔ pol.Short m onDevs zone) ∧
      pol.answer minFree draws onDevs m failed = if neededNetwork.isEmpty then
          .ok (if tooGood = true then .tooGood else .allGood)
        else pol.suggest minFree draws onDevs m failed neededNetwork := by
  obtain ⟨on, available, hon, havailable, -⟩ := haddr.needs hcopies henough
  refine ⟨(pol.hostsPerZone.filter fun zone => zoneNeed on available zone.1 zone.2 = .short).map Prod.fst,
    pol.hostsPerZone.any fun zone => zoneNeed on available zone.1 zone.2 = .over,
    fun zone => mem_neededNetwork (haddr.addressed hcopies) hon havailable, ?_⟩
  rw [answer, haddr.addressed hcopies]
  simp only [ok_bind, hon, havailable]
  rfl

variable (minFree min draws failed) in
/-- With no host missing the policy is happy. -/
theorem Addressed.happy (hcopies : MultipleHosts.Copies m onDevs) (hnone : pol.missing onDevs = 0)
    (henough : ∀ zone ∈ pol.hostsPerZone,
      zone.2 ≤ pol.hostsIn zone.1 (m.devices.filter fun d => d.status.shouldHaveFiles)) :
    (pol.replicateTo minFree draws onDevs m failed min).isHappy = true := by
  obtain ⟨neededNetwork, tooGood, hmem, hanswer⟩ := haddr.answer_eq minFree draws failed hcopies henough
  have hnil : neededNetwork = [] := by
    refine List.eq_nil_iff_forall_not_mem.mpr fun zone hin => ?_
    obtain ⟨needed, hz, hshort⟩ := (haddr.short_iff hcopies henough).mp ((hmem zone).mp hin)
    exact absurd (hostsIn_of_missing hnone hz) (Nat.not_le.mpr hshort)
  rw [replicateTo, hanswer, hnil]
  cases tooGood with
  | true => rfl
  | false => rfl

variable (min draws) in
/-- If there is an ideal destination, the first suggestion is one. -/
theorem Addressed.first_suggestion (hcopies : MultipleHosts.Copies m onDevs)
    (henough : ∀ zone ∈ pol.hostsPerZone,
      zone.2 ≤ pol.hostsIn zone.1 (m.devices.filter fun d => d.status.shouldHaveFiles))
    {fresh : Device} (hfresh : pol.Ideal minFree m onDevs failed fresh) :
    ∃ d ideal desp, pol.replicateTo minFree draws onDevs m failed min = .copyTo ideal desp ∧
      d ∈ (ideal ++ desp).head? ∧ pol.Ideal minFree m onDevs failed d := by
  obtain ⟨neededNetwork, tooGood, hmem, hanswer⟩ := haddr.answer_eq minFree draws failed hcopies henough
  obtain ⟨zone, hzone, hshort⟩ := hfresh.short
  have hneeded : ¬ neededNetwork.isEmpty = true := by
    rw [List.isEmpty_iff]
    exact List.ne_nil_of_mem ((hmem zone).mpr hshort)
  set allDests := weightedList draws ((m.devices.filter (MultipleHosts.usable minFree onDevs failed)).map
    fun d => (d, 100 * d.percentFree)) with hall
  have hdests : ∃ dests, grepM (fun d => do pure (neededNetwork.contains (← pol.zone d))) allDests = .ok dests := by
    refine ⟨_, grepM_eq_ok fun d hd => ?_⟩
    have hdest := MultipleHosts.mem_allDests.mp hd
    obtain ⟨zone, hzone⟩ := haddr.zone hdest.mem (DeviceState.shouldHaveFiles_of_getRepl
      (Device.shouldGetReplFiles_of_shouldGetReplicatedFiles hdest.getRepl))
    exact ⟨_, by rw [hzone]; rfl⟩
  obtain ⟨dests, hdests⟩ := hdests
  have hin : fresh ∈ dests := by
    refine (mem_grepM hdests).mpr ⟨MultipleHosts.mem_allDests.mpr hfresh.toDest, ?_⟩
    rw [hzone]
    refine congrArg Except.ok ?_
    rw [List.contains_eq_mem, decide_eq_true_eq]
    exact (hmem zone).mpr hshort
  have hrr : pol.replicateTo minFree draws onDevs m failed min =
      .copyTo (dests.filter fun d => !(onDevs.map Device.hostid).contains d.hostid)
        (dests.filter fun d => (onDevs.map Device.hostid).contains d.hostid) := by
    have hnil : ¬ dests.isEmpty = true := by
      rw [List.isEmpty_iff]
      exact List.ne_nil_of_mem hin
    rw [replicateTo, hanswer, if_neg hneeded, suggest]
    simp only [← hall, hdests, ok_bind]
    rw [if_neg hnil]
    rfl
  have hideal := (mem_ideal_iff min hrr).mpr hfresh
  obtain ⟨d, rest, hfirst⟩ := List.exists_cons_of_ne_nil (List.ne_nil_of_mem hideal)
  refine ⟨d, _, _, hrr, by rw [hfirst]; rfl, (mem_ideal_iff min hrr).mp ?_⟩
  rw [hfirst]
  exact List.mem_cons_self

end Addressed

/-! ### A copy makes up for one host -/

theorem holders_subset : holders minFree m onDevs ⊆ m.devices.filter fun d => d.status.shouldHaveFiles := by
  intro d hd
  obtain ⟨hdm, hheld⟩ := List.mem_filter.mp hd
  refine List.mem_filter.mpr ⟨hdm, ?_⟩
  rcases Bool.or_eq_true_iff.mp hheld with hheld | hheld
  · exact (Bool.and_eq_true_iff.mp hheld).2
  · exact DeviceState.shouldHaveFiles_of_getRepl
      (Device.shouldGetReplFiles_of_shouldGetReplicatedFiles (Bool.and_eq_true_iff.mp hheld).1)

theorem holders_subset_append (d : Device) : holders minFree m onDevs ⊆ holders minFree m (onDevs ++ [d]) := by
  intro e he
  obtain ⟨hem, hheld⟩ := List.mem_filter.mp he
  refine List.mem_filter.mpr ⟨hem, ?_⟩
  rcases Bool.or_eq_true_iff.mp hheld with hheld | hheld
  · obtain ⟨hon, hshould⟩ := Bool.and_eq_true_iff.mp hheld
    have hin : e ∈ onDevs ++ [d] := List.mem_append_left _ (of_decide_eq_true hon)
    simp [hin, hshould]
  · rw [hheld, Bool.or_true]

section Fills

variable {opts : ReplOpts} {fid : ℕ} {onUpDevid : List ℕ} {st : CopyState}

/-- A state without failures, where every zone has enough hosts that hold a copy or can get one. -/
structure Furnished (pol : HostsPerNetwork) (minFree : ℕ) (opts : ReplOpts) (m : DeviceMap) (st : CopyState) :
    Prop extends NoFailures opts m st where
  enough : ∀ zone ∈ pol.hostsPerZone, zone.2 ≤ pol.hostsIn zone.1 (holders minFree m st.onDevs)

theorem Furnished.available (h : Furnished pol minFree opts m st) : ∀ zone ∈ pol.hostsPerZone,
    zone.2 ≤ pol.hostsIn zone.1 (m.devices.filter fun d => d.status.shouldHaveFiles) :=
  fun zone hzone => (h.enough zone hzone).trans (hostsIn_mono holders_subset)

variable (haddr : pol.Addressed m) (hallows : ∀ d ∈ m.devices, opts.Allows d.devid)
include haddr hallows

theorem Furnished.exists_ideal (h : Furnished pol minFree opts m st)
    (hmissing : pol.missing st.onDevsTellpol ≠ 0) :
    ∃ d, pol.Ideal minFree m st.onDevsTellpol st.destFailed d := by
  obtain ⟨zone, hzone, hshort⟩ := exists_short hmissing
  have hfresh : ∃ d ∈ holders minFree m st.onDevs, pol.zone d = .ok zone.1 ∧
      d.hostid ∉ st.onDevsTellpol.map Device.hostid := by
    by_contra hnone
    push Not at hnone
    refine absurd ((h.enough zone hzone).trans ?_) (Nat.not_le.mpr hshort)
    refine (List.subperm_of_subset (List.nodup_dedup _) fun hostid hin => ?_).length_le
    obtain ⟨d, hd, rfl⟩ := List.mem_map.mp (List.mem_dedup.mp hin)
    obtain ⟨hd, hin⟩ := List.mem_filter.mp hd
    obtain ⟨e, he, hid⟩ := List.mem_map.mp (hnone d hd (of_decide_eq_true hin))
    have hsame : pol.zone e = pol.zone d := zone_congr (h.copies.mem e he) (List.mem_of_mem_filter hd) hid
    refine List.mem_dedup.mpr (List.mem_map.mpr ⟨e, List.mem_filter.mpr ⟨he, ?_⟩, hid⟩)
    rw [hsame]
    exact hin
  obtain ⟨d, hd, hin, hnew⟩ := hfresh
  obtain ⟨hdm, hheld⟩ := List.mem_filter.mp hd
  have hnotOn : d.devid ∉ st.onDevsTellpol.map Device.devid := by
    intro hon
    obtain ⟨e, he, hid⟩ := List.mem_map.mp hon
    obtain rfl := DeviceMap.eq_of_devid (h.copies.mem e he) hdm hid
    exact hnew (List.mem_map_of_mem he)
  have hcan : d.shouldGetReplicatedFiles minFree = true ∧ 0 < d.percentFree := by
    rcases Bool.or_eq_true_iff.mp hheld with hheld | hheld
    · obtain ⟨hon, hshould⟩ := Bool.and_eq_true_iff.mp hheld
      have htold : d ∈ st.onDevsTellpol :=
        h.mem_tellpol.mpr ⟨of_decide_eq_true hon, by simp [told, hshould, (hallows d hdm).1]⟩
      exact absurd (List.mem_map_of_mem htold) hnew
    · obtain ⟨hrepl, hfree⟩ := Bool.and_eq_true_iff.mp hheld
      exact ⟨hrepl, of_decide_eq_true hfree⟩
  refine ⟨d, ⟨⟨hdm, hnotOn, by rw [h.dest_ok]; exact List.not_mem_nil, hcan.1, hcan.2⟩, ⟨zone.1, hin, ?_⟩, hnew⟩⟩
  exact (haddr.short_iff h.copies h.available).mpr ⟨zone.2, hzone, hshort⟩

variable (hkeys : (pol.hostsPerZone.map Prod.fst).Nodup)
include hkeys

variable (fid) in
theorem Addressed.fills (min : ℕ) (hup : onUpDevid ≠ []) :
    Fills m fid opts ((HostPolicy.hostsPerNetwork pol).cls minFree min) onUpDevid
      (Furnished pol minFree opts m) fun st => pol.missing st.onDevsTellpol where
  devices := (HostPolicy.suggestsDests (.hostsPerNetwork pol) minFree m).suggestsDevices
  copied := by
    intro round st hcopy h hmissing
    obtain ⟨fresh, hfresh⟩ := h.exists_ideal haddr hallows hmissing
    obtain ⟨d, ideal, desp, hrr, hhead, hideal⟩ :=
      haddr.first_suggestion min round.weights h.copies h.available hfresh
    have hallowed : ∀ e ∈ ideal, opts.Allows e.devid := fun e he =>
      hallows e ((mem_ideal_iff min hrr).mp he).mem
    have hrr : ((HostPolicy.hostsPerNetwork pol).cls minFree min).policy round.weights st.onDevsTellpol m
        st.destFailed ((HostPolicy.hostsPerNetwork pol).cls minFree min).mindevcount = .copyTo ideal desp := hrr
    obtain ⟨hstep, hok, hon⟩ := h.copied hcopy hup hrr hideal.toDest (hallows d hideal.mem).1
      (chooseDest_of_allows hallowed hhead)
    obtain ⟨zone, hzone, hshort⟩ := hideal.short
    obtain ⟨needed, hin, hlt⟩ := (haddr.short_iff h.copies h.available).mp hshort
    refine ⟨d, hideal.mem, hstep, hon, ⟨hok, fun z hz => ?_⟩, ?_⟩
    · exact (h.enough z hz).trans (hostsIn_mono (holders_subset_append d))
    · exact sum_shortages hkeys hin (hostsIn_append hzone hideal.fresh_host)
        (fun z hne => hostsIn_append_other hzone hne) hlt
  happy round st h hnone :=
    haddr.happy minFree min round.weights st.destFailed h.copies hnone h.available

end Fills

end HostsPerNetwork

/-! ### The whole call -/

section Call

variable {pol : HostsPerNetwork} {minFree min fid : ℕ} {opts : ReplOpts} {m : DeviceMap}
  {classOf : FileRow → Option ReplClass} {out : Outcomes} {onDevs : List Device} {db : Db}

theorem filter_told_of_allows (hallows : ∀ d ∈ m.devices, opts.Allows d.devid) {devs : List Device}
    (hdevs : ∀ d ∈ devs, d ∈ m.devices) :
    devs.filter (told opts) = devs.filter fun d => d.status.shouldHaveFiles := by
  refine List.filter_congr fun d hd => ?_
  simp [told, (hallows d (hdevs d hd)).1]

/-- `replicate` under `HostsPerNetwork` when every copy succeeds: if in every zone as many hosts as it needs
hold a copy that they should have, or have a device that can get one, it makes as many copies as hosts are
missing in all the zones, and ends happy with copies on enough hosts in each. -/
theorem zones_converge (haddr : pol.Addressed m) (hkeys : (pol.hostsPerZone.map Prod.fst).Nodup)
    (henough : ∀ zone ∈ pol.hostsPerZone,
      zone.2 ≤ pol.hostsIn zone.1 (HostsPerNetwork.holders minFree m onDevs))
    (hallows : ∀ d ∈ m.devices, opts.Allows d.devid) (hlock : out.gotLock = some true)
    {loaded : Option FileRow} {row : FileRow} (hrow : (loaded <|> db.file.find? fid) = some row)
    (hcls : classOf row = some ((HostPolicy.hostsPerNetwork pol).cls minFree min))
    (hdevs : (db.devidsOf fid).mapM m.ofDevid = some onDevs) (hstarts : StartsLoop opts onDevs)
    (hcopy : ∀ n, (out.rounds n).copy = .copied) :
    let cls := (HostPolicy.hostsPerNetwork pol).cls minFree min
    let missing := (pol.hostsPerZone.map fun zone =>
      zone.2 - pol.hostsIn zone.1 (onDevs.filter fun d => d.status.shouldHaveFiles)).sum
    let run := (replicate m classOf out fid loaded opts).exec db
    (∃ pass ∈ (replicatePasses m fid opts cls out onDevs).getLast?, (pass.request m cls).isHappy = true) ∧
      run.1 = .returned (if missing = 0 then .lostRace else .success) ∧
      ∃ added : List Device, added.length = missing ∧ (∀ d ∈ added, d ∈ m.devices) ∧
        run.2.devidsOf fid = db.devidsOf fid ++ added.map Device.devid ∧
        ∀ zone ∈ pol.hostsPerZone,
          zone.2 ≤ pol.hostsIn zone.1 ((onDevs ++ added).filter fun d => d.status.shouldHaveFiles) := by
  obtain ⟨hmap, hmem⟩ := mapM_ofDevid hdevs
  have hstart : HostsPerNetwork.Furnished pol minFree opts m (startState opts onDevs) :=
    ⟨noFailures_startState hmem ((hmap ▸ db.nodup_devidsOf fid).of_map _), henough⟩
  obtain ⟨added, st', hadded, hst', hnone, honDevs, hlen, hlast, hresult, hdevids⟩ :=
    (haddr.fills fid hallows hkeys min hstarts.1).replicate hstart hlock hrow hcls hdevs hstarts hcopy
  have htold : (startState opts onDevs).onDevsTellpol = onDevs.filter fun d => d.status.shouldHaveFiles :=
    filter_told_of_allows hallows hmem
  rw [htold] at hlen hresult
  intro cls missing run
  refine ⟨hlast, hresult, added, hlen, hadded, by rw [hdevids, List.map_append, hmap], fun zone hzone => ?_⟩
  have hfinal : st'.onDevsTellpol = (onDevs ++ added).filter fun d => d.status.shouldHaveFiles := by
    rw [hst'.tellpol_eq, honDevs]
    exact filter_told_of_allows hallows (honDevs ▸ hst'.mem)
  rw [hfinal] at hnone
  exact HostsPerNetwork.hostsIn_of_missing hnone hzone

/-- Two hosts in the zone `near` and one in the zone `far`. -/
def nearAndFar : HostsPerNetwork where
  hostsPerZone := [("near".toList, 2), ("far".toList, 1)]
  netmasks := classB
  zones := [("near".toList, "10.0/16".toList), ("far".toList, "10.1/16".toList)]

/-- A file on `d1` alone: two copies are missing, one in each zone. -/
theorem nearAndFar_converges :
    let db : Db := { onD1D3 with fileOn := ⟨[(1, 1)], by decide⟩ }
    let run := (replicate threeHosts (fun _ => some ((HostPolicy.hostsPerNetwork nearAndFar).cls 100 0))
      allCopied 1 none ⟨none, [], []⟩).exec db
    run.1 = .returned .success ∧ ∃ added : List Device, added.length = 2 ∧
      run.2.devidsOf 1 = db.devidsOf 1 ++ added.map Device.devid := by
  intro db run
  obtain ⟨row, hrow⟩ : ∃ row, (none <|> db.file.find? 1) = some row := ⟨_, rfl⟩
  let classOf : FileRow → Option ReplClass := fun _ => some ((HostPolicy.hostsPerNetwork nearAndFar).cls 100 0)
  have hcls : classOf row = some ((HostPolicy.hostsPerNetwork nearAndFar).cls 100 0) := rfl
  have hdevs : (db.devidsOf 1).mapM threeHosts.ofDevid = some [deviceAt 1 1 "10.0.0.1"] := by decide
  have haddr : nearAndFar.Addressed threeHosts := by
    refine ⟨fun zone _ => ⟨_, rfl⟩, ?_⟩
    simp only [threeHosts, DeviceMap.devices, List.forall_mem_cons]
    exact ⟨fun _ => ⟨_, rfl, by decide⟩, fun _ => ⟨_, rfl, by decide⟩, fun _ => ⟨_, rfl, by decide⟩,
      fun d hd => absurd hd List.not_mem_nil⟩
  have henough : ∀ zone ∈ nearAndFar.hostsPerZone, zone.2 ≤ nearAndFar.hostsIn zone.1
      (HostsPerNetwork.holders 100 threeHosts [deviceAt 1 1 "10.0.0.1"]) := by decide +kernel
  have hstarts : StartsLoop ⟨none, [], []⟩ [deviceAt 1 1 "10.0.0.1"] := by decide
  obtain ⟨-, hresult, added, hlen, -, hdevids, -⟩ :=
    zones_converge haddr (by decide) henough (by decide) (rfl : allCopied.gotLock = some true) hrow hcls hdevs
      hstarts (fun _ => rfl)
  refine ⟨hresult.trans ?_, added, hlen.trans ?_, hdevids⟩
  · decide +kernel
  · decide +kernel

end Call

end Ylem
