import Ylem.Worker.SuccessfulCopies
import Ylem.Worker.Suggestions

/-!
# MultipleNetworks replication converges

Over devices that can all get copies, on hosts that each lie in one of the configured netmasks, how many
copies does `replicate` make under `MultipleNetworks`? A copy on a network that had none is on a host that
had none, and the policy has such a suggestion first as long as a network is unused. Once all networks are
used the first suggestion is on a host without a copy, one that is skipped for its network. So every copy
makes up for a missing network, as long as one is missing, and for a missing host (`fills_multipleNetworks`):
there are as many copies as the larger of the two shortages.
-/

namespace Ylem

open MultipleHosts (Dest countHosts_append_new countHosts_lt_uniqueHosts)

namespace MultipleNetworks

variable (pol : MultipleNetworks)

/-- The networks of the hosts of some devices. -/
def networks (devs : List Device) : List Text := (devs.filterMap fun d => (pol.network d).toOption).dedup

/-- The number of networks to use: as many as there are, but not more than the copies. -/
def targetNetworks (m : DeviceMap) (min : ℕ) : ℕ := Nat.min min (pol.networks m.devices).length

/-- The copies that are missing on networks and on hosts. -/
def missing (m : DeviceMap) (min : ℕ) (devs : List Device) : ℕ :=
  max (pol.targetNetworks m min - (pol.networks devs).length) (min - countHosts devs)

/-- The address of every host lies in exactly one of the netmasks, which are pairwise disjoint. -/
structure Zoned (m : DeviceMap) : Prop where
  parses : ∀ setting ∈ pol.settings, ∃ net, pol.netmasks.parse setting = some net
  disjoint : pol.settings.Pairwise fun setting setting' => ∀ ip,
    ¬ (pol.netmasks.matchSetting setting ip = .ok true ∧ pol.netmasks.matchSetting setting' ip = .ok true)
  covered : ∀ d ∈ m.devices, ∃ ip, d.hostIp = .ok (some ip) ∧ Text.truthy (some ip) = true ∧
    ∃ setting ∈ pol.settings, pol.netmasks.matchSetting setting ip = .ok true

variable {pol} {minFree min : ℕ} {draws : ℕ → Draw} {onDevs : List Device} {m : DeviceMap}
  {failed : List ℕ}

theorem mem_networks {devs : List Device} {net : Text} :
    net ∈ pol.networks devs ↔ ∃ d ∈ devs, pol.network d = .ok net := by
  rw [networks, List.mem_dedup, List.mem_filterMap]
  refine exists_congr fun d => and_congr_right fun _ => ?_
  cases pol.network d with
  | error => exact iff_of_false (fun h => nomatch h) (fun h => nomatch h)
  | ok net' => exact ⟨fun h => congrArg Except.ok (Option.some.inj h), fun h => congrArg some (Except.ok.inj h)⟩

theorem networks_append_le (devs added : List Device) :
    (pol.networks devs).length ≤ (pol.networks (devs ++ added)).length := by
  simp only [networks, ← List.card_toFinset, List.filterMap_append, List.toFinset_append]
  exact Finset.card_le_card Finset.subset_union_left

theorem networks_append_new {devs : List Device} {d : Device} {net : Text} (hnet : pol.network d = .ok net)
    (hnew : net ∉ pol.networks devs) :
    (pol.networks (devs ++ [d])).length = (pol.networks devs).length + 1 := by
  have hone : [d].filterMap (fun d => (pol.network d).toOption) = [net] := by
    rw [List.filterMap_cons, hnet]
    rfl
  rw [networks, List.mem_dedup] at hnew
  simp only [networks, ← List.card_toFinset, List.filterMap_append, List.toFinset_append, hone]
  rw [Finset.card_union_of_disjoint]
  · rfl
  · simpa [Finset.disjoint_singleton_right] using hnew

/-! ### The answers over such a map -/

section Zoned

variable (hzoned : pol.Zoned m)
include hzoned

theorem Zoned.matchSetting {setting : Text} (hs : setting ∈ pol.settings) (ip : Text) :
    ∃ net, pol.netmasks.parse setting = some net ∧
      pol.netmasks.matchSetting setting ip = .ok (pol.netmasks.covers net ip) := by
  obtain ⟨net, hnet⟩ := hzoned.parses setting hs
  exact ⟨net, hnet, by rw [Netmasks.matchSetting, hnet]; rfl⟩

/-- The netmask of a host's network covers its address, and no other one does. -/
theorem Zoned.network {d : Device} (hd : d ∈ m.devices) :
    ∃ ip setting net, d.hostIp = .ok (some ip) ∧ Text.truthy (some ip) = true ∧ setting ∈ pol.settings ∧
      pol.netmasks.parse setting = some net ∧ pol.network d = .ok net ∧
      ∀ setting' ∈ pol.settings, pol.netmasks.matchSetting setting' ip = .ok true → setting' = setting := by
  obtain ⟨ip, hip, htruthy, setting, hs, hmatch⟩ := hzoned.covered d hd
  have hunique : ∀ setting' ∈ pol.settings,
      pol.netmasks.matchSetting setting' ip = .ok true → setting' = setting := by
    intro setting' hs' hmatch'
    by_contra hne
    have hsymm : Std.Symm fun s s' : Text => ∀ ip, ¬ (pol.netmasks.matchSetting s ip = .ok true ∧
        pol.netmasks.matchSetting s' ip = .ok true) := ⟨fun _ _ h ip hboth => h ip hboth.symm⟩
    exact hzoned.disjoint.forall hs' hs hne ip ⟨hmatch', hmatch⟩
  obtain ⟨net, hnet⟩ := hzoned.parses setting hs
  refine ⟨ip, setting, net, hip, htruthy, hs, hnet, ?_, hunique⟩
  have hfound : grepM (fun s => pol.netmasks.matchSetting s ip) pol.settings = .ok (pol.settings.filter
      fun s => decide (pol.netmasks.matchSetting s ip = .ok true)) := by
    refine grepM_eq_ok fun s hs => ?_
    obtain ⟨net', -, hs⟩ := hzoned.matchSetting hs ip
    exact ⟨_, hs⟩
  have hlast : ∃ s, (pol.settings.filter
      fun s => decide (pol.netmasks.matchSetting s ip = .ok true)).getLast? = some s := by
    refine Option.isSome_iff_exists.mp (List.getLast?_isSome.mpr ?_)
    exact List.ne_nil_of_mem (List.mem_filter.mpr ⟨hs, decide_eq_true hmatch⟩)
  obtain ⟨last, hlast⟩ := hlast
  obtain ⟨hin, hlastmatch⟩ := List.mem_filter.mp (List.mem_of_getLast? hlast)
  obtain rfl := hunique last hin (of_decide_eq_true hlastmatch)
  have hfor : networkForIp pol.netmasks pol.settings (some ip) = .ok net := by
    simp only [networkForIp, htruthy, Bool.not_true, Bool.false_eq_true, if_false, hfound]
    show (Except.ok _ >>= _) = _
    simp only [ok_bind, hlast, hnet]
    rfl
  rw [MultipleNetworks.network, hip]
  exact hfor

theorem Zoned.covers_iff {d e : Device} (hd : d ∈ m.devices) (he : e ∈ m.devices) {net : Text}
    (hnet : pol.network e = .ok net) {ip : Text} (hip : d.hostIp = .ok (some ip)) :
    pol.netmasks.covers net ip = true ↔ pol.network d = .ok net := by
  obtain ⟨ip', setting, net', hip', -, hs, hparse, hnet', hunique⟩ := hzoned.network hd
  obtain ⟨-, settingₑ, netₑ, -, -, hsₑ, hparseₑ, hnetₑ, -⟩ := hzoned.network he
  obtain rfl := Option.some.inj (Except.ok.inj (hip.symm.trans hip'))
  obtain rfl := Except.ok.inj (hnet.symm.trans hnetₑ)
  have hmatch : pol.netmasks.matchSetting settingₑ ip = .ok (pol.netmasks.covers net ip) := by
    rw [Netmasks.matchSetting, hparseₑ]
    rfl
  constructor
  · intro hcovers
    obtain rfl := hunique settingₑ hsₑ (by rw [hmatch, hcovers])
    rw [hnet', Option.some.inj (hparse.symm.trans hparseₑ)]
  · intro hsame
    obtain rfl := Except.ok.inj (hnet'.symm.trans hsame)
    obtain ⟨ip'', hip'', -, setting', hs', hmatch'⟩ := hzoned.covered d hd
    obtain rfl := Option.some.inj (Except.ok.inj (hip.symm.trans hip''))
    obtain rfl := hunique setting' hs' hmatch'
    rw [Netmasks.matchSetting, hparse] at hmatch'
    exact Except.ok.inj hmatch'

theorem Zoned.onNetworks {devs : List Device} (hdevs : ∀ d ∈ devs, d ∈ m.devices) :
    pol.onNetworks devs = .ok (pol.networks devs) := by
  have htruthy : ∀ d ∈ devs, (do pure (Text.truthy (← d.hostIp)) : Except String Bool) = .ok true := by
    intro d hd
    obtain ⟨ip, -, -, hip, htruthy, -⟩ := hzoned.network (hdevs d hd)
    rw [hip]
    exact congrArg Except.ok htruthy
  have haddressed : addressed devs = .ok devs := by
    rw [addressed, grepM_eq_ok fun d hd => ⟨true, htruthy d hd⟩]
    exact congrArg Except.ok (List.filter_eq_self.mpr fun d hd => decide_eq_true (htruthy d hd))
  have hnets : devs.mapM pol.network = .ok (devs.filterMap fun d => (pol.network d).toOption) := by
    refine mapM_eq_ok fun d hd => ?_
    obtain ⟨-, -, net, -, -, -, -, hnet, -⟩ := hzoned.network (hdevs d hd)
    exact ⟨net, hnet⟩
  rw [MultipleNetworks.onNetworks, haddressed]
  show (devs.mapM pol.network >>= _) = _
  rw [hnets]
  rfl

variable (hrepl : ∀ d ∈ m.devices, d.status.shouldGetReplFiles = true)
include hrepl

theorem Zoned.uniqueNetworks : pol.uniqueNetworks m = .ok (max (pol.networks m.devices).length 1) := by
  have hall : (m.devices.filter fun d => d.status.shouldGetReplFiles) = m.devices :=
    List.filter_eq_self.mpr hrepl
  have hnets : m.devices.mapM pol.network = .ok (m.devices.filterMap fun d => (pol.network d).toOption) := by
    refine mapM_eq_ok fun d hd => ?_
    obtain ⟨-, -, net, -, -, -, -, hnet, -⟩ := hzoned.network hd
    exact ⟨net, hnet⟩
  rw [MultipleNetworks.uniqueNetworks, hall, hnets]
  rfl

variable (minFree draws failed) in
/-- With no copy missing the policy is happy. -/
theorem Zoned.happy (hmin : 2 ≤ pol.effectiveMin min) (hdevs : ∀ d ∈ onDevs, d ∈ m.devices)
    (hnone : pol.missing m (pol.effectiveMin min) onDevs = 0) :
    (pol.replicateTo minFree draws onDevs m failed min).isHappy = true := by
  obtain ⟨hnetworks, hhosts⟩ : pol.targetNetworks m (pol.effectiveMin min) ≤ (pol.networks onDevs).length ∧
      pol.effectiveMin min ≤ countHosts onDevs := by
    unfold missing at hnone
    omega
  have htarget : Nat.min (pol.effectiveMin min) (max (pol.networks m.devices).length 1) ≤
      max (pol.networks onDevs).length 1 := by
    unfold targetNetworks at hnetworks
    simp only [Nat.min_def] at hnetworks ⊢
    split_ifs at hnetworks ⊢ <;> omega
  rw [replicateTo, answer]
  simp only [hzoned.onNetworks hdevs, hzoned.uniqueNetworks hrepl, ok_bind]
  rw [if_neg (by omega)]
  split_ifs with hall hover hmore hexact hfull
  · rfl
  · rfl
  · rfl
  · rfl
  · rfl
  · omega

theorem Zoned.answer_eq_suggest (hmin : 2 ≤ pol.effectiveMin min) (hcopies : MultipleHosts.Copies m onDevs)
    (hne : onDevs ≠ []) (henough : pol.effectiveMin min ≤ countHosts m.devices)
    (hmissing : pol.missing m (pol.effectiveMin min) onDevs ≠ 0) :
    pol.answer minFree draws onDevs m failed min =
      pol.suggest minFree draws onDevs m failed (pol.networks onDevs) := by
  have hused : 1 ≤ (pol.networks onDevs).length := by
    obtain ⟨d, hd⟩ := List.exists_mem_of_ne_nil _ hne
    obtain ⟨-, -, net, -, -, -, -, hnet, -⟩ := hzoned.network (hcopies.mem d hd)
    exact List.length_pos_of_mem (mem_networks.mpr ⟨d, hd, hnet⟩)
  have hall : ¬ (2 ≤ onDevs.length ∧ onDevs.length = totalDisks m) := by
    rintro ⟨-, htotal⟩
    have hsub : m.devices ⊆ onDevs := fun d hd =>
      hcopies.mem_of_length htotal hd (DeviceState.shouldHaveFiles_of_getRepl (hrepl d hd))
    have hhosts := MultipleHosts.countHosts_mono hsub
    have hnetworks : (pol.networks m.devices).length ≤ (pol.networks onDevs).length := by
      refine (List.subperm_of_subset (List.nodup_dedup _) fun net hnet => ?_).length_le
      obtain ⟨d, hd, hnet⟩ := mem_networks.mp hnet
      exact mem_networks.mpr ⟨d, hsub hd, hnet⟩
    have htarget : pol.targetNetworks m (pol.effectiveMin min) ≤ (pol.networks m.devices).length :=
      Nat.min_le_right _ _
    unfold missing at hmissing
    omega
  have huniq : uniqueHosts m = countHosts m.devices := by
    rw [uniqueHosts, List.filter_eq_self.mpr hrepl]
  have hshort : Nat.min (pol.effectiveMin min) (max (pol.networks m.devices).length 1) ≤
      max (pol.networks onDevs).length 1 → countHosts onDevs < pol.effectiveMin min := by
    intro htarget
    unfold missing targetNetworks at hmissing
    simp only [Nat.min_def] at hmissing htarget
    split_ifs at hmissing htarget <;> omega
  rw [answer]
  simp only [hzoned.onNetworks hcopies.mem, hzoned.uniqueNetworks hrepl, ok_bind]
  rw [if_neg (by omega), if_neg hall, if_neg (by omega), if_neg (by omega), if_neg (by omega),
    if_neg (by omega)]

omit hrepl

/-- The hosts with an address on one of the networks can be told. -/
theorem Zoned.skipHost (hfew : countHosts onDevs < uniqueHosts m) (networks : List Text) :
    ∃ skip, pol.skipHost onDevs m networks = .ok skip := by
  have havoided : ∃ avoided, pol.avoidedDevices networks m = .ok avoided := by
    rw [avoidedDevices]
    split_ifs
    · exact ⟨[], rfl⟩
    · refine ⟨_, grepM_eq_ok fun d hd => ?_⟩
      obtain ⟨ip, -, -, hip, -⟩ := hzoned.network hd
      rw [disliked, hip]
      exact ⟨_, rfl⟩
  obtain ⟨avoided, havoided⟩ := havoided
  rw [MultipleNetworks.skipHost, if_pos hfew, havoided]
  exact ⟨_, rfl⟩

/-- The devices on one of the networks with a copy. -/
theorem Zoned.disliked_iff (hdevs : ∀ d ∈ onDevs, d ∈ m.devices) {d : Device} (hd : d ∈ m.devices) :
    pol.disliked (pol.networks onDevs) d = .ok true ↔
      ∃ net ∈ pol.networks onDevs, pol.network d = .ok net := by
  obtain ⟨ip, -, -, hip, -⟩ := hzoned.network hd
  have hany : pol.disliked (pol.networks onDevs) d =
      .ok ((pol.networks onDevs).any fun net => pol.netmasks.covers net ip) := by
    rw [disliked, hip]
    rfl
  rw [hany, Except.ok.injEq, List.any_eq_true]
  refine exists_congr fun net => and_congr_right fun hin => ?_
  obtain ⟨e, he, hnet⟩ := mem_networks.mp hin
  exact hzoned.covers_iff hd (hdevs e he) hnet hip

end Zoned

theorem network_congr {d d' : Device} (hd : d ∈ m.devices) (hd' : d' ∈ m.devices)
    (hid : d.hostid = d'.hostid) : pol.network d = pol.network d' := by
  rw [network, network, Device.hostIp, Device.hostIp, m.host_eq d hd d' hd' hid, hid]

theorem fresh_of_network (hdevs : ∀ d ∈ onDevs, d ∈ m.devices) {d : Device} (hd : d ∈ m.devices) {net : Text}
    (hnet : pol.network d = .ok net) (hnew : net ∉ pol.networks onDevs) :
    d.hostid ∉ onDevs.map Device.hostid := by
  intro hon
  obtain ⟨e, he, hid⟩ := List.mem_map.mp hon
  exact hnew (mem_networks.mpr ⟨e, he, (network_congr (hdevs e he) hd hid).trans hnet⟩)

theorem exists_fresh (hdevs : ∀ d ∈ onDevs, d ∈ m.devices) (henough : min ≤ countHosts m.devices)
    (hmissing : pol.missing m min onDevs ≠ 0) : ∃ d ∈ m.devices, d.hostid ∉ onDevs.map Device.hostid := by
  by_contra hnone
  push Not at hnone
  have hhosts : countHosts m.devices ≤ countHosts onDevs := by
    refine (List.subperm_of_subset (List.nodup_dedup _) fun hostid hin => ?_).length_le
    obtain ⟨d, hd, rfl⟩ := List.mem_map.mp (List.mem_dedup.mp hin)
    exact List.mem_dedup.mpr (hnone d hd)
  have hnetworks : (pol.networks m.devices).length ≤ (pol.networks onDevs).length := by
    refine (List.subperm_of_subset (List.nodup_dedup _) fun net hnet => ?_).length_le
    obtain ⟨d, hd, hnet⟩ := mem_networks.mp hnet
    by_contra hnew
    exact fresh_of_network hdevs hd hnet hnew (hnone d hd)
  have htarget : pol.targetNetworks m min ≤ (pol.networks m.devices).length := Nat.min_le_right _ _
  unfold missing at hmissing
  omega

/-! ### A copy makes up for both shortages -/

section Eligible

variable (hzoned : pol.Zoned m)
  (helig : ∀ d ∈ m.devices, d.shouldGetReplicatedFiles minFree = true ∧ 0 < d.percentFree)
include hzoned helig

theorem Zoned.first_suggestion (draws : ℕ → Draw) (hmin : 2 ≤ pol.effectiveMin min)
    (hcopies : MultipleHosts.Copies m onDevs) (hne : onDevs ≠ [])
    (henough : pol.effectiveMin min ≤ countHosts m.devices)
    (hmissing : pol.missing m (pol.effectiveMin min) onDevs ≠ 0) :
    ∃ d ideal desp, pol.replicateTo minFree draws onDevs m [] min = .copyTo ideal desp ∧
      d ∈ (ideal ++ desp).head? ∧ Dest minFree m onDevs [] d ∧ d.hostid ∉ onDevs.map Device.hostid ∧
      (pol.targetNetworks m (pol.effectiveMin min) ≤ (pol.networks onDevs).length ∨
        ∃ net, pol.network d = .ok net ∧ net ∉ pol.networks onDevs) := by
  have hrepl : ∀ d ∈ m.devices, d.status.shouldGetReplFiles = true := fun d hd =>
    Device.shouldGetReplFiles_of_shouldGetReplicatedFiles (helig d hd).1
  have hdest : ∀ d ∈ m.devices, d.hostid ∉ onDevs.map Device.hostid → Dest minFree m onDevs [] d := by
    intro d hd hfresh
    refine ⟨hd, fun hon => ?_, List.not_mem_nil, (helig d hd).1, (helig d hd).2⟩
    obtain ⟨e, he, hid⟩ := List.mem_map.mp hon
    obtain rfl := DeviceMap.eq_of_devid (hcopies.mem e he) hd hid
    exact hfresh (List.mem_map_of_mem he)
  obtain ⟨fresh, hfreshm, hfresh⟩ := exists_fresh hcopies.mem henough hmissing
  have hfew : countHosts onDevs < uniqueHosts m :=
    countHosts_lt_uniqueHosts (fun e he => ⟨hcopies.mem e he, hrepl e (hcopies.mem e he)⟩) hfreshm
      (hrepl fresh hfreshm) hfresh
  obtain ⟨skip, hskip⟩ := hzoned.skipHost hfew (pol.networks onDevs)
  set allDests := weightedList draws ((m.devices.filter (MultipleHosts.usable minFree onDevs [])).map
    fun d => (d, 100 * d.percentFree)) with hall
  have hfreshIn : fresh ∈ allDests := MultipleHosts.mem_allDests.mpr (hdest fresh hfreshm hfresh)
  set ideal := allDests.filter fun d => skip d = none with hideal
  set desp := (allDests.filter fun d => skip d = some .network) ++
    (allDests.filter fun d => skip d = some .host) with hdesp
  have hrr : pol.replicateTo minFree draws onDevs m [] min = .copyTo ideal desp := by
    have hnil : ¬ allDests.isEmpty = true := by
      rw [List.isEmpty_iff]
      exact List.ne_nil_of_mem hfreshIn
    rw [replicateTo, hzoned.answer_eq_suggest hrepl hmin hcopies hne henough hmissing, suggest, hskip]
    simp only [ok_bind, ← hall]
    rw [if_neg hnil]
    rfl
  by_cases hnone : ideal = []
  · -- every network has a copy, so that the first suggestion is a host that is skipped for its network
    have hskipped : ∀ d ∈ m.devices, d.hostid ∉ onDevs.map Device.hostid → skip d = some .network := by
      intro d hd hnew
      have hin : d ∉ ideal := by
        rw [hnone]
        exact List.not_mem_nil
      rw [hideal, List.mem_filter, decide_eq_true_eq] at hin
      cases hreason : skip d with
      | none => exact absurd ⟨MultipleHosts.mem_allDests.mpr (hdest d hd hnew), hreason⟩ hin
      | some reason =>
        cases reason with
        | host => exact absurd ((skipHost_host_iff hskip hfew).mp hreason) hnew
        | network => rfl
    have hin : fresh ∈ allDests.filter fun d => skip d = some .network :=
      List.mem_filter.mpr ⟨hfreshIn, decide_eq_true (hskipped fresh hfreshm hfresh)⟩
    obtain ⟨d, rest, hfirst⟩ := List.exists_cons_of_ne_nil (List.ne_nil_of_mem hin)
    have hd : d ∈ allDests.filter fun d => skip d = some .network := by
      rw [hfirst]
      exact List.mem_cons_self
    obtain ⟨hd, hreason⟩ := List.mem_filter.mp hd
    have hnew : d.hostid ∉ onDevs.map Device.hostid := by
      rw [← skipHost_host_iff hskip hfew, of_decide_eq_true hreason]
      exact fun h => nomatch h
    refine ⟨d, ideal, desp, hrr, by rw [hnone, hdesp, hfirst]; rfl, MultipleHosts.mem_allDests.mp hd, hnew,
      .inl ?_⟩
    refine le_trans (Nat.min_le_right _ _) ?_
    refine (List.subperm_of_subset (List.nodup_dedup _) fun net hnet => ?_).length_le
    obtain ⟨e, he, hnet⟩ := mem_networks.mp hnet
    by_contra hunused
    have hnewₑ := fresh_of_network hcopies.mem he hnet hunused
    have hsome : skip e ≠ none := by
      rw [hskipped e he hnewₑ]
      exact fun h => nomatch h
    refine hsome ((skipHost_spec hskip he).mpr fun _ => ⟨hnewₑ, fun hdisliked => ?_⟩)
    obtain ⟨net', hin', hnet'⟩ := (hzoned.disliked_iff hcopies.mem he).mp hdisliked
    rw [Except.ok.inj (hnet.symm.trans hnet')] at hunused
    exact hunused hin'
  · obtain ⟨d, rest, hfirst⟩ := List.exists_cons_of_ne_nil hnone
    have hd : Ideal pol minFree m onDevs [] d := (mem_ideal_iff hrr).mp (hfirst ▸ List.mem_cons_self)
    refine ⟨d, ideal, desp, hrr, by rw [hfirst]; rfl, hd.toDest, hd.fresh_host hfew, .inr ?_⟩
    obtain ⟨-, -, net, -, -, -, -, hnet, -⟩ := hzoned.network hd.mem
    refine ⟨net, hnet, fun hin => hd.fresh_network hfew _ (hzoned.onNetworks hcopies.mem) ?_⟩
    exact (hzoned.disliked_iff hcopies.mem hd.mem).mpr ⟨net, hin, hnet⟩

variable {opts : ReplOpts} {fid : ℕ} {onUpDevid : List ℕ} {st : CopyState}

/-- The policy class of a file. -/
abbrev replClass (pol : MultipleNetworks) (minFree min : ℕ) : ReplClass :=
  (HostPolicy.multipleNetworks pol).cls minFree min

variable (hallows : ∀ d ∈ m.devices, opts.Allows d.devid)

omit hzoned in
include hallows in
theorem tellpol_eq_onDevs (h : NoFailures opts m st) : st.onDevsTellpol = st.onDevs := by
  rw [h.tellpol_eq]
  refine List.filter_eq_self.mpr fun d hd => ?_
  have hshould := DeviceState.shouldHaveFiles_of_getRepl
    (Device.shouldGetReplFiles_of_shouldGetReplicatedFiles (helig d (h.mem d hd)).1)
  simp [told, hshould, (hallows d (h.mem d hd)).1]

include hallows in
variable (fid) in
theorem Zoned.fills (hmin : 2 ≤ pol.effectiveMin min) (henough : pol.effectiveMin min ≤ countHosts m.devices)
    (hup : onUpDevid ≠ []) :
    Fills m fid opts (pol.replClass minFree min) onUpDevid
      (fun st => NoFailures opts m st ∧ st.onDevs ≠ [])
      fun st => pol.missing m (pol.effectiveMin min) st.onDevs where
  devices := (HostPolicy.suggestsDests (.multipleNetworks pol) minFree m).suggestsDevices
  copied := by
    rintro round st hcopy ⟨h, hne⟩ hmissing
    have htell := tellpol_eq_onDevs helig hallows h
    have hcopies := h.copies
    rw [htell] at hcopies
    obtain ⟨d, ideal, desp, hrr, hhead, hdest, hfresh, hprogress⟩ :=
      hzoned.first_suggestion helig round.weights hmin hcopies hne henough hmissing
    rw [← htell, ← h.dest_ok] at hrr hdest
    have hallowed : ∀ e ∈ ideal, opts.Allows e.devid := fun e he =>
      hallows e (mem_ideal_iff hrr |>.mp he).mem
    have hrr : (pol.replClass minFree min).policy round.weights st.onDevsTellpol m st.destFailed
        (pol.replClass minFree min).mindevcount = .copyTo ideal desp := hrr
    obtain ⟨hstep, hok, hon⟩ := h.copied hcopy hup hrr hdest (hallows d hdest.mem).1
      (chooseDest_of_allows hallowed hhead)
    refine ⟨d, hdest.mem, hstep, hon, ⟨hok, by simp [CopyState.withCopy]⟩, ?_⟩
    have hhosts : countHosts (st.withCopy d).onDevs = countHosts st.onDevs + 1 :=
      countHosts_append_new hfresh
    rcases hprogress with htarget | ⟨net, hnet, hnew⟩
    · have hmore : (pol.networks st.onDevs).length ≤ (pol.networks (st.withCopy d).onDevs).length :=
        networks_append_le _ _
      unfold missing at hmissing ⊢
      omega
    · have hmore : (pol.networks (st.withCopy d).onDevs).length = (pol.networks st.onDevs).length + 1 :=
        networks_append_new hnet hnew
      unfold missing at hmissing ⊢
      omega
  happy := by
    rintro round st ⟨h, -⟩ hnone
    have htell := tellpol_eq_onDevs helig hallows h
    have hrepl : ∀ d ∈ m.devices, d.status.shouldGetReplFiles = true := fun d hd =>
      Device.shouldGetReplFiles_of_shouldGetReplicatedFiles (helig d hd).1
    rw [← htell] at hnone
    exact hzoned.happy minFree round.weights st.destFailed hrepl hmin (htell ▸ h.mem) hnone

end Eligible

end MultipleNetworks

/-! ### The whole call -/

section Call

variable {pol : MultipleNetworks} {minFree min fid : ℕ} {opts : ReplOpts} {m : DeviceMap}
  {classOf : FileRow → Option ReplClass} {out : Outcomes} {onDevs : List Device} {db : Db}

/-- `replicate` under `MultipleNetworks` when every copy succeeds, over devices that can all get copies and
hosts that each lie in one of the disjoint netmasks: it makes as many copies as the larger of the shortages
of networks and of hosts, and ends happy with copies on enough of both. -/
theorem networks_converge (hmin : 2 ≤ pol.effectiveMin min)
    (helig : ∀ d ∈ m.devices, d.shouldGetReplicatedFiles minFree = true ∧ 0 < d.percentFree)
    (hzoned : pol.Zoned m) (henough : pol.effectiveMin min ≤ countHosts m.devices)
    (hallows : ∀ d ∈ m.devices, opts.Allows d.devid) (hlock : out.gotLock = some true)
    {loaded : Option FileRow} {row : FileRow} (hrow : (loaded <|> db.file.find? fid) = some row)
    (hcls : classOf row = some (pol.replClass minFree min))
    (hdevs : (db.devidsOf fid).mapM m.ofDevid = some onDevs) (hstarts : StartsLoop opts onDevs)
    (hcopy : ∀ n, (out.rounds n).copy = .copied) :
    let target := Nat.min (pol.effectiveMin min) (pol.networks m.devices).length
    let missing := max (target - (pol.networks onDevs).length) (pol.effectiveMin min - countHosts onDevs)
    let run := (replicate m classOf out fid loaded opts).exec db
    (∃ pass ∈ (replicatePasses m fid opts (pol.replClass minFree min) out onDevs).getLast?,
        (pass.request m (pol.replClass minFree min)).isHappy = true) ∧
      run.1 = .returned (if missing = 0 then .lostRace else .success) ∧
      ∃ added : List Device, added.length = missing ∧ (∀ d ∈ added, d ∈ m.devices) ∧
        run.2.devidsOf fid = db.devidsOf fid ++ added.map Device.devid ∧
        target ≤ (pol.networks (onDevs ++ added)).length ∧
        pol.effectiveMin min ≤ countHosts (onDevs ++ added) := by
  obtain ⟨hmap, hmem⟩ := mapM_ofDevid hdevs
  have hok : NoFailures opts m (startState opts onDevs) :=
    noFailures_startState hmem ((hmap ▸ db.nodup_devidsOf fid).of_map _)
  obtain ⟨added, st', hadded, -, hnone, honDevs, hlen, hlast, hresult, hdevids⟩ :=
    (hzoned.fills helig fid hallows hmin henough hstarts.1).replicate ⟨hok, ne_nil_of_startsLoop hstarts⟩
      hlock hrow hcls hdevs hstarts hcopy
  rw [honDevs] at hnone
  intro target missing run
  refine ⟨hlast, hresult, added, hlen, hadded, by rw [hdevids, List.map_append, hmap], ?_, ?_⟩
  · show pol.targetNetworks m (pol.effectiveMin min) ≤ _
    unfold MultipleNetworks.missing at hnone
    omega
  · unfold MultipleNetworks.missing at hnone
    omega

end Call

/-! ### Two zones -/

/-- The zones `10.0.0.0/16` and `10.1.0.0/16`. -/
def twoZones : MultipleNetworks := ⟨0, classB, ["10.0/16".toList, "10.1/16".toList]⟩

/-- A device on a host with an address. -/
def deviceAt (devid hostid : ℕ) (ip : String) : Device :=
  { upDevice devid hostid with host := some (hostAt hostid ip.toList) }

/-- `h1[ d1 ] h2[ d2 ]` in the first zone and `h3[ d3 ]` in the second. -/
def threeHosts : DeviceMap where
  table := ⟨[deviceAt 1 1 "10.0.0.1", deviceAt 2 2 "10.0.0.2", deviceAt 3 3 "10.1.0.1"], by decide⟩
  devid_pos := by decide
  hostid_eq := by decide
  host_eq := by decide

theorem twoZones_disjoint : twoZones.settings.Pairwise fun setting setting' => ∀ ip,
    ¬ (twoZones.netmasks.matchSetting setting ip = .ok true ∧
      twoZones.netmasks.matchSetting setting' ip = .ok true) := by
  refine List.pairwise_pair.mpr fun ip => ?_
  rintro ⟨hfirst, hsecond⟩
  have hzero : twoNumbers "10.0.0.0/16".toList = twoNumbers ip := beq_iff_eq.mp (Except.ok.inj hfirst)
  have hone : twoNumbers "10.1.0.0/16".toList = twoNumbers ip := beq_iff_eq.mp (Except.ok.inj hsecond)
  have hne : twoNumbers "10.0.0.0/16".toList ≠ twoNumbers "10.1.0.0/16".toList := by decide
  exact hne (hzero.trans hone.symm)

theorem twoZones_zoned : twoZones.Zoned threeHosts where
  parses := fun setting _ => ⟨_, rfl⟩
  disjoint := twoZones_disjoint
  covered := by
    simp only [threeHosts, DeviceMap.devices, List.forall_mem_cons]
    refine ⟨⟨_, rfl, by decide, "10.0/16".toList, by decide, by decide⟩,
      ⟨_, rfl, by decide, "10.0/16".toList, by decide, by decide⟩,
      ⟨_, rfl, by decide, "10.1/16".toList, by decide, by decide⟩, fun d hd => absurd hd List.not_mem_nil⟩

/-- A file on `d1` alone: the second copy is on the other network. -/
theorem threeHosts_converge :
    let db : Db := { onD1D3 with fileOn := ⟨[(1, 1)], by decide⟩ }
    let run := (replicate threeHosts (fun _ => some (twoZones.replClass 100 2)) allCopied 1 none
      ⟨none, [], []⟩).exec db
    run.1 = .returned .success ∧ ∃ added : List Device, added.length = 1 ∧
      run.2.devidsOf 1 = db.devidsOf 1 ++ added.map Device.devid ∧
      2 ≤ (twoZones.networks (deviceAt 1 1 "10.0.0.1" :: added)).length := by
  intro db run
  obtain ⟨row, hrow⟩ : ∃ row, (none <|> db.file.find? 1) = some row := ⟨_, rfl⟩
  let classOf : FileRow → Option ReplClass := fun _ => some (twoZones.replClass 100 2)
  have hcls : classOf row = some (twoZones.replClass 100 2) := rfl
  have hdevs : (db.devidsOf 1).mapM threeHosts.ofDevid = some [deviceAt 1 1 "10.0.0.1"] := by decide
  have helig : ∀ d ∈ threeHosts.devices, d.shouldGetReplicatedFiles 100 = true ∧ 0 < d.percentFree := by
    decide +kernel
  have hstarts : StartsLoop ⟨none, [], []⟩ [deviceAt 1 1 "10.0.0.1"] := by decide
  obtain ⟨-, hresult, added, hlen, -, hdevids, hspread, -⟩ :=
    networks_converge (by decide) helig twoZones_zoned (by decide) (by decide)
      (rfl : allCopied.gotLock = some true) hrow hcls hdevs hstarts (fun _ => rfl)
  refine ⟨hresult.trans ?_, added, hlen.trans ?_, hdevids, le_trans ?_ hspread⟩
  · decide +kernel
  · decide +kernel
  · decide +kernel

/-- `h1[ d1 ] h2[ d2 ]` in the first zone, with 50 of 1000 MB free on `d2`. -/
def nearlyFull : DeviceMap where
  table := ⟨[deviceAt 1 1 "10.0.0.1", { deviceAt 2 2 "10.0.0.2" with mbUsed := 950 }], by decide⟩
  devid_pos := by decide
  hostid_eq := by decide
  host_eq := by decide

/-- All is well but that `d2` has less than `min_free_space` free: the file gets no second copy. -/
theorem nearlyFull_not_filled :
    (∀ d ∈ nearlyFull.devices, d.status = .alive ∧ d.observedWriteable = true ∧
        (d.host.map Host.status) = some .alive ∧ 0 < d.percentFree) ∧
      twoZones.Zoned nearlyFull ∧ countHosts nearlyFull.devices = 2 ∧
      ((replicate nearlyFull (fun _ => some (twoZones.replClass 100 2)) allCopied 1 none
          ⟨none, [], []⟩).exec { onD1D3 with fileOn := ⟨[(1, 1)], by decide⟩ }).1 =
        .returned (.failure "policy_no_suggestions"
          "replication policy ran out of suggestions for us replicating fid 1") := by
  refine ⟨by decide +kernel, ⟨fun setting _ => ⟨_, rfl⟩, twoZones_disjoint, ?_⟩, by decide, by decide +kernel⟩
  simp only [nearlyFull, DeviceMap.devices, List.forall_mem_cons]
  exact ⟨⟨_, rfl, by decide, "10.0/16".toList, by decide, by decide⟩,
    ⟨_, rfl, by decide, "10.0/16".toList, by decide, by decide⟩, fun d hd => absurd hd List.not_mem_nil⟩

end Ylem
