import Ylem.Network
import Ylem.ReplicationPolicy.MultipleHosts

/-!
# The MultipleNetworks replication policy

Like `MultipleHosts`, but the copies have to be on as many networks as possible too. While there are hosts
without a copy, the ideal destinations are the usable devices on hosts outside the networks with a copy
(`mem_ideal_iff`); those on other hosts of these networks come next, and those on the hosts with a copy
last. Unlike `MultipleHosts` it does not stop suggesting the last two kinds when there are enough copies.

The policy dies where it needs the address of a host that is gone, or a netmask that cannot be parsed.
-/

namespace Ylem

/-- A policy object, with the settings of the networks. -/
structure MultipleNetworks where
  mindevcount : ℕ
  netmasks : Netmasks
  settings : List Text

namespace MultipleNetworks

variable (self : MultipleNetworks)

/-- `$self->{mindevcount} || $min`. -/
def effectiveMin (min : ℕ) : ℕ := if self.mindevcount ≠ 0 then self.mindevcount else min

/-- The network of a device's host. -/
def network (d : Device) : Except String Text := do
  networkForIp self.netmasks self.settings (← d.hostIp)

/-- The networks of the devices whose hosts have an address. -/
def onNetworks (onDevs : List Device) : Except String (List Text) := do
  let networks ← (← addressed onDevs).mapM self.network
  pure networks.dedup

/-- The number of networks with a device that should get replicated files, at least one. -/
def uniqueNetworks (m : DeviceMap) : Except String ℕ := do
  let networks ← (m.devices.filter fun d => d.status.shouldGetReplFiles).mapM self.network
  pure (max networks.dedup.length 1)

/-- The host is on one of the networks. -/
def disliked (networks : List Text) (d : Device) : Except String Bool := do
  let ip ← d.hostIp
  pure (networks.any fun net => ip.any fun ip => self.netmasks.covers net ip)

/-- The devices on hosts of the networks. -/
def avoidedDevices (networks : List Text) (allDevs : DeviceMap) : Except String (List Device) :=
  if networks.isEmpty then pure [] else grepM (self.disliked networks) allDevs.devices

/-- Why a host is not ideal: it has a copy, or it is on a network with one. -/
inductive Skip where
  | host | network
  deriving DecidableEq

/-- `%skip_host`: empty unless there are hosts without a copy. -/
def skipHost (onDevs : List Device) (allDevs : DeviceMap) (networks : List Text) :
    Except String (Device → Option Skip) := do
  if countHosts onDevs < uniqueHosts allDevs then
    let avoided ← self.avoidedDevices networks allDevs
    pure fun d =>
      if (onDevs.map Device.hostid).contains d.hostid then some .host
      else if (avoided.map Device.hostid).contains d.hostid then some .network
      else none
  else pure fun _ => none

/-- The part after the early exits. -/
def suggest (minFree : ℕ) (draws : ℕ → Draw) (onDevs : List Device) (allDevs : DeviceMap)
    (failed : List ℕ) (networks : List Text) : Except String ReplicationRequest := do
  let skip ← self.skipHost onDevs allDevs networks
  let allDests := weightedList draws
    ((allDevs.devices.filter (MultipleHosts.usable minFree onDevs failed)).map
      fun d => (d, 100 * d.percentFree))
  if allDests.isEmpty then pure .tempNoAnswer
  else
    let ideal := allDests.filter fun d => skip d = none
    let networkDesp := allDests.filter fun d => skip d = some .network
    let hostDesp := allDests.filter fun d => skip d = some .host
    pure (.copyTo ideal (networkDesp ++ hostDesp))

def answer (minFree : ℕ) (draws : ℕ → Draw) (onDevs : List Device) (allDevs : DeviceMap)
    (failed : List ℕ) (min : ℕ) : Except String ReplicationRequest := do
  let min := self.effectiveMin min
  let alreadyOn := onDevs.length
  if min = 1 ∧ alreadyOn ≠ 0 then pure .allGood
  else if 2 ≤ alreadyOn ∧ alreadyOn = totalDisks allDevs then pure .allGood
  else
    let networks ← self.onNetworks onDevs
    let uniqHostsOn := countHosts onDevs
    let uniqNetworksOn := max networks.length 1
    let totalUniqNetworks ← self.uniqueNetworks allDevs
    -- as many networks as there are, but not more than the copies
    let targetNetworks := Nat.min min totalUniqNetworks
    if targetNetworks ≤ uniqNetworksOn ∧ min < uniqHostsOn then pure .tooGood
    else if targetNetworks ≤ uniqNetworksOn ∧ uniqHostsOn = min ∧ min < alreadyOn then pure .tooGood
    else if targetNetworks ≤ uniqNetworksOn ∧ uniqHostsOn = min then pure .allGood
    else if targetNetworks ≤ uniqNetworksOn ∧ uniqueHosts allDevs ≤ uniqHostsOn ∧ min ≤ alreadyOn then
      pure .allGood
    else self.suggest minFree draws onDevs allDevs failed networks

def replicateTo (minFree : ℕ) : ReplicationPolicy := fun draws onDevs allDevs failed min =>
  .ofExcept (self.answer minFree draws onDevs allDevs failed min)

/-! ### What it suggests -/

variable {self : MultipleNetworks} {minFree min : ℕ} {draws : ℕ → Draw} {onDevs : List Device}
  {m : DeviceMap} {failed : List ℕ}

/-- An ideal destination: on a host without a copy and outside the networks with one, as long as there are
hosts without a copy. -/
structure Ideal (pol : MultipleNetworks) (minFree : ℕ) (m : DeviceMap) (onDevs : List Device)
    (failed : List ℕ) (d : Device) : Prop extends MultipleHosts.Dest minFree m onDevs failed d where
  fresh_host : countHosts onDevs < uniqueHosts m → d.hostid ∉ onDevs.map Device.hostid
  fresh_network : countHosts onDevs < uniqueHosts m →
    ∀ networks, pol.onNetworks onDevs = .ok networks → pol.disliked networks d ≠ .ok true

theorem disliked_nil (d : Device) : self.disliked [] d ≠ .ok true := by
  intro h
  obtain ⟨ip, -, h⟩ := bind_eq_ok h
  cases h

theorem disliked_congr {networks : List Text} {d d' : Device} (hid : d.hostid = d'.hostid)
    (h : d.host = d'.host) : self.disliked networks d = self.disliked networks d' := by
  rw [disliked, disliked, Device.hostIp, Device.hostIp, h, hid]

theorem skipHost_spec {networks : List Text} {skip : Device → Option Skip}
    (h : self.skipHost onDevs m networks = .ok skip) {d : Device} (hd : d ∈ m.devices) :
    skip d = none ↔ (countHosts onDevs < uniqueHosts m →
      d.hostid ∉ onDevs.map Device.hostid ∧ self.disliked networks d ≠ .ok true) := by
  unfold skipHost at h
  split_ifs at h with hhosts
  · obtain ⟨avoided, havoided, h⟩ := bind_eq_ok h
    obtain rfl := Except.ok.inj h
    have hmem : d.hostid ∈ avoided.map Device.hostid ↔ self.disliked networks d = .ok true := by
      unfold avoidedDevices at havoided
      split_ifs at havoided with hnone
      · obtain rfl := Except.ok.inj havoided
        obtain rfl := List.isEmpty_iff.mp hnone
        exact iff_of_false List.not_mem_nil (disliked_nil d)
      · constructor
        · intro hin
          obtain ⟨e, he, heq⟩ := List.mem_map.mp hin
          obtain ⟨hem, hdis⟩ := (mem_grepM havoided).mp he
          rw [← hdis]
          exact disliked_congr heq.symm (m.host_eq d hd e hem heq.symm)
        · intro hdis
          exact List.mem_map_of_mem ((mem_grepM havoided).mpr ⟨hd, hdis⟩)
    simp only [hhosts, forall_const, List.contains_eq_mem, decide_eq_true_eq]
    split_ifs with hon hin
    · exact iff_of_false (by simp) fun hfree => hfree.1 hon
    · exact iff_of_false (by simp) fun hfree => hfree.2 (hmem.mp hin)
    · exact iff_of_true rfl ⟨hon, fun hdis => hin (hmem.mpr hdis)⟩
  · obtain rfl := Except.ok.inj h
    simp [hhosts]

/-- The hosts that are skipped for themselves are those with a copy. -/
theorem skipHost_host_iff {networks : List Text} {skip : Device → Option Skip}
    (h : self.skipHost onDevs m networks = .ok skip) (hfew : countHosts onDevs < uniqueHosts m)
    {d : Device} : skip d = some .host ↔ d.hostid ∈ onDevs.map Device.hostid := by
  rw [skipHost, if_pos hfew] at h
  obtain ⟨avoided, -, h⟩ := bind_eq_ok h
  obtain rfl := Except.ok.inj h
  simp only [List.contains_eq_mem, decide_eq_true_eq]
  split_ifs with hon
  · exact iff_of_true rfl hon
  · exact iff_of_false (by simp) hon
  · exact iff_of_false (by simp) hon

/-- What an answer with suggestions comes from. -/
theorem replicateTo_eq_copyTo {ideal desp : List Device}
    (h : self.replicateTo minFree draws onDevs m failed min = .copyTo ideal desp) :
    ∃ networks skip, self.onNetworks onDevs = .ok networks ∧ self.skipHost onDevs m networks = .ok skip ∧
      ideal = (weightedList draws ((m.devices.filter (MultipleHosts.usable minFree onDevs failed)).map
        fun d => (d, 100 * d.percentFree))).filter (fun d => skip d = none) ∧
      desp = (weightedList draws ((m.devices.filter (MultipleHosts.usable minFree onDevs failed)).map
          fun d => (d, 100 * d.percentFree))).filter (fun d => skip d = some .network) ++
        (weightedList draws ((m.devices.filter (MultipleHosts.usable minFree onDevs failed)).map
          fun d => (d, 100 * d.percentFree))).filter (fun d => skip d = some .host) := by
  have hanswer := ReplicationRequest.ofExcept_eq_copyTo h
  unfold answer at hanswer
  simp only at hanswer
  split_ifs at hanswer with h1 h2
  · cases hanswer
  · cases hanswer
  · obtain ⟨networks, hnetworks, hanswer⟩ := bind_eq_ok hanswer
    obtain ⟨total, -, hanswer⟩ := bind_eq_ok hanswer
    split_ifs at hanswer
    · cases hanswer
    · cases hanswer
    · cases hanswer
    · cases hanswer
    · obtain ⟨skip, hskip, hanswer⟩ := bind_eq_ok hanswer
      simp only at hanswer
      split_ifs at hanswer
      · cases hanswer
      · cases hanswer
        exact ⟨networks, skip, hnetworks, hskip, rfl, rfl⟩

theorem mem_ideal_iff {ideal desp : List Device}
    (h : self.replicateTo minFree draws onDevs m failed min = .copyTo ideal desp) {d : Device} :
    d ∈ ideal ↔ Ideal self minFree m onDevs failed d := by
  obtain ⟨networks, skip, hnetworks, hskip, rfl, -⟩ := replicateTo_eq_copyTo h
  rw [List.mem_filter, MultipleHosts.mem_allDests, decide_eq_true_eq]
  constructor
  · rintro ⟨hdest, hnone⟩
    have hfresh := (skipHost_spec hskip hdest.mem).mp hnone
    refine ⟨hdest, fun hhosts => (hfresh hhosts).1, fun hhosts networks' hnetworks' => ?_⟩
    obtain rfl := Except.ok.inj (hnetworks.symm.trans hnetworks')
    exact (hfresh hhosts).2
  · intro hideal
    refine ⟨hideal.toDest, (skipHost_spec hskip hideal.mem).mpr fun hhosts => ?_⟩
    exact ⟨hideal.fresh_host hhosts, hideal.fresh_network hhosts networks hnetworks⟩

theorem skipped_perm (skip : Device → Option Skip) (l : List Device) :
    (l.filter (fun d => skip d = some .network) ++ l.filter (fun d => skip d = some .host)).Perm
      (l.filter fun d => !decide (skip d = none)) := by
  have hnetwork : l.filter (fun d => skip d = some .network) =
      (l.filter fun d => !decide (skip d = none)).filter fun d => skip d = some .network := by
    rw [List.filter_filter]
    refine List.filter_congr fun d _ => ?_
    cases skip d <;> simp
  have hhost : l.filter (fun d => skip d = some .host) =
      (l.filter fun d => !decide (skip d = none)).filter fun d => !decide (skip d = some .network) := by
    rw [List.filter_filter]
    refine List.filter_congr fun d _ => ?_
    rcases skip d with _ | reason
    · rfl
    · cases reason <;> rfl
  rw [hnetwork, hhost]
  exact List.filter_append_perm _ _

/-- The suggestions are all the devices that may get a copy, each of them once. -/
theorem exact_of_copyTo {ideal desp : List Device}
    (h : self.replicateTo minFree draws onDevs m failed min = .copyTo ideal desp) :
    MultipleHosts.Exact minFree m onDevs failed ideal desp := by
  obtain ⟨networks, skip, -, -, rfl, rfl⟩ := replicateTo_eq_copyTo h
  refine MultipleHosts.exact_of_perm draws ?_
  exact ((skipped_perm skip _).append_left _).trans (List.filter_append_perm _ _)

theorem network_mem_onNetworks {networks : List Text} (h : self.onNetworks onDevs = .ok networks)
    {d : Device} (hd : d ∈ onDevs) {ip net : Text} (hip : d.hostIp = .ok (some ip))
    (htruthy : Text.truthy (some ip) = true) (hnet : self.network d = .ok net) : net ∈ networks := by
  obtain ⟨devs, hdevs, h⟩ := bind_eq_ok h
  obtain ⟨nets, hnets, h⟩ := bind_eq_ok h
  obtain rfl := Except.ok.inj h
  have hin : d ∈ devs := (mem_grepM hdevs).mpr ⟨hd, by rw [hip]; exact congrArg Except.ok htruthy⟩
  exact List.mem_dedup.mpr ((mem_mapM_iff hnets).mpr ⟨d, hin, hnet⟩)

theorem Ideal.not_covered {d : Device} (h : Ideal self minFree m onDevs failed d)
    (hfew : countHosts onDevs < uniqueHosts m) {networks : List Text}
    (hnetworks : self.onNetworks onDevs = .ok networks) {net ip : Text} (hnet : net ∈ networks)
    (hip : d.hostIp = .ok (some ip)) : self.netmasks.covers net ip = false := by
  have hfresh := h.fresh_network hfew networks hnetworks
  rw [disliked, hip] at hfresh
  by_contra hcovers
  refine hfresh (congrArg Except.ok ?_)
  rw [List.any_eq_true]
  exact ⟨net, hnet, by simpa using hcovers⟩

end MultipleNetworks

end Ylem
