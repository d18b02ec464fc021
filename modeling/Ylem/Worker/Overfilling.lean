import Ylem.Worker.NetworkOverfilling

/-!
# Where runs of replicate overfill hosts

`HostsPerNetwork` wants copies on a number of hosts in a zone. If the zone has that many hosts, but too few of
them take a copy, the policy goes on with more copies on the hosts it has. It can be made to if and only if
usable devices of the zone, with which there are copies enough there but on too few hosts, leave another one
on a host with a copy (`HostsPerNetwork.Overfills`).

Together with what is known of the other policies this says where a run without a mask can make a desperate
copy of a file with enough copies (`noRunaway_iff`).
-/

namespace Ylem

open MultipleHosts (Dest Copies)

namespace HostsPerNetwork

/-- All places on hosts without a copy are the same to the policy. -/
def near (_ _ : Device) : Bool := false

/-- The copies that the policy counts in a zone: those on hosts with an address. -/
def countedIn (pol : HostsPerNetwork) (zone : Text) (on : List Device) : List Device :=
  on.filter fun d => d.hostIp.toOption.any (fun ip => Text.truthy ip) && decide (pol.zone d = .ok zone)

/-- With copies on the devices in `added`, all of them in a zone, there are enough in the zone, but the zone is
still short; and `next`, in the same zone, is on a host with a copy. -/
structure Overfills (pol : HostsPerNetwork) (minFree : ℕ) (m : DeviceMap) (zone : Text) (on added : List Device)
    (next : Device) : Prop where
  nodup : (added ++ [next]).Nodup
  dest : ∀ d ∈ added ++ [next], Dest minFree m on [] d
  zone_eq : ∀ d ∈ added ++ [next], pol.zone d = .ok zone
  enough : ∃ needed, (zone, needed) ∈ pol.hostsPerZone ∧
    needed ≤ ((on ++ added).filter fun d => pol.zone d = .ok zone).length
  short : pol.Short m (on ++ added) zone
  shares : next.hostid ∈ (on ++ added).map Device.hostid

variable {pol : HostsPerNetwork} {minFree min : ℕ} {draws : ℕ → Draw} {on on' added : List Device}
  {m : DeviceMap} {failed : List ℕ} {zone : Text} {d e : Device}

theorem place_eq_zero_iff : place near on d = 0 ↔ d.hostid ∉ on.map Device.hostid := by
  rw [Ylem.place_eq_zero_iff]
  exact and_iff_left fun _ _ => rfl

theorem placed_addressed (h : ∀ d ∈ on, ∃ z, pol.zone d = .ok z) : ∃ devs counted, addressed on = .ok devs ∧
    pol.placed devs = .ok counted ∧ ∀ zone, devsIn zone counted = pol.countedIn zone on := by
  have hip : ∀ d ∈ on, ∃ ip, d.hostIp = .ok ip := fun d hd => by
    obtain ⟨z, hz⟩ := h d hd
    obtain ⟨ip, hip, -⟩ := bind_eq_ok hz
    exact ⟨ip, hip⟩
  have haddressed : addressed on = .ok (on.filter fun d => d.hostIp.toOption.any fun ip => Text.truthy ip) := by
    rw [addressed, grepM_eq_ok]
    · refine congrArg Except.ok (List.filter_congr fun d hd => ?_)
      obtain ⟨ip, hip⟩ := hip d hd
      rw [hip]
      show decide ((Except.ok (Text.truthy ip) : Except String Bool) = .ok true) = Text.truthy ip
      cases Text.truthy ip <;> simp
    · intro d hd
      obtain ⟨ip, hip⟩ := hip d hd
      exact ⟨_, by rw [hip]; rfl⟩
  obtain ⟨counted, hcounted, hdevs⟩ := pol.placed_eq_ok
    fun d hd => h d (List.mem_of_mem_filter (p := fun d => d.hostIp.toOption.any fun ip => Text.truthy ip) hd)
  refine ⟨_, counted, haddressed, hcounted, fun zone => ?_⟩
  rw [hdevs zone, List.filter_filter, countedIn]
  exact List.filter_congr fun d _ => Bool.and_comm _ _

/-- Whether a zone is short depends on what the policy counts in it. -/
theorem short_iff : pol.Short m on zone ↔ (∀ d ∈ on, ∃ z, pol.zone d = .ok z) ∧
    ∃ available needed, pol.placed (m.devices.filter fun d => d.status.shouldHaveFiles) = .ok available ∧
      (zone, needed) ∈ pol.hostsPerZone ∧
      (if needed ≤ countHosts (devsIn zone available) then countHosts (pol.countedIn zone on)
        else (pol.countedIn zone on).length) < needed := by
  have hshort : ∀ counted available : List (Device × Text), ∀ needed, zoneNeed counted available zone needed = .short ↔
      (if needed ≤ countHosts (devsIn zone available) then countHosts (devsIn zone counted)
        else (devsIn zone counted).length) < needed := by
    intro counted available needed
    simp only [zoneNeed]
    split_ifs <;> simp_all
  constructor
  · rintro ⟨devs, counted, available, needed, hdevs, hcounted, havailable, hzone, hneed⟩
    have hzones : ∀ d ∈ on, ∃ z, pol.zone d = .ok z := by
      intro d hd
      obtain ⟨b, hb⟩ := exists_of_grepM hdevs hd
      obtain ⟨ip, hip, hb⟩ := bind_eq_ok hb
      by_cases htruthy : Text.truthy ip = true
      · obtain ⟨_, hplaced⟩ := exists_of_mapM hcounted ((MultipleNetworks.mem_addressed hdevs).mpr
          ⟨hd, ip, hip, htruthy⟩)
        obtain ⟨z, hz, -⟩ := bind_eq_ok hplaced
        exact ⟨z, hz⟩
      · refine ⟨[], ?_⟩
        rw [HostsPerNetwork.zone, hip]
        cases ip with
        | none => rfl
        | some ip => simp [ok_bind, zoneForIp, htruthy]; rfl
    obtain ⟨devs', counted', hdevs', hcounted', hin⟩ := placed_addressed hzones
    obtain rfl := Except.ok.inj (hdevs.symm.trans hdevs')
    obtain rfl := Except.ok.inj (hcounted.symm.trans hcounted')
    refine ⟨hzones, available, needed, havailable, hzone, ?_⟩
    rw [← hin]
    exact (hshort _ _ _).mp hneed
  · rintro ⟨hzones, available, needed, havailable, hzone, hneed⟩
    obtain ⟨devs, counted, hdevs, hcounted, hin⟩ := placed_addressed hzones
    refine ⟨devs, counted, available, needed, hdevs, hcounted, havailable, hzone, (hshort _ _ _).mpr ?_⟩
    rw [hin]
    exact hneed

theorem short_mono (h : pol.Short m on zone) (hsub : on'.Subperm on) : pol.Short m on' zone := by
  obtain ⟨hzones, available, needed, havailable, hzone, hshort⟩ := short_iff.mp h
  have hcounted : (pol.countedIn zone on').Subperm (pol.countedIn zone on) := hsub.filter _
  have hlen := hcounted.length_le
  have hhosts := MultipleHosts.countHosts_mono hcounted.subset
  refine short_iff.mpr ⟨fun d hd => hzones d (hsub.subset hd), available, needed, havailable, hzone, ?_⟩
  split_ifs at hshort ⊢ <;> omega

theorem grepM_cons_of_true {α : Type} {test : α → Except String Bool} {a : α} {l : List α}
    (hall : ∀ x ∈ l, ∃ b, test x = .ok b) (ha : test a = .ok true) : ∃ rest, grepM test (a :: l) = .ok (a :: rest) := by
  refine ⟨l.filter fun x => decide (test x = .ok true), ?_⟩
  rw [grepM, ha, grepM_eq_ok hall]
  rfl

theorem prefers_of_short (min : ℕ) (hshort : pol.Short m on zone) (hzone : pol.zone d = .ok zone) :
    Prefers near (.hostsPerNetwork pol) minFree min m on d := by
  intro failed hd
  obtain ⟨devs, counted, available, needed, hdevs, hcounted, havailable, hin, hneed⟩ := hshort
  obtain ⟨draws, rest, hdraws⟩ := MultipleHosts.exists_allDests_eq_cons hd
  set neededNetwork := (pol.hostsPerZone.filter fun z => zoneNeed counted available z.1 z.2 = .short).map Prod.fst
    with hnetworks
  have hneeded : zone ∈ neededNetwork :=
    (mem_neededNetwork hdevs hcounted havailable).mpr ⟨devs, counted, available, needed, hdevs, hcounted, havailable, hin, hneed⟩
  have hne : ¬ neededNetwork.isEmpty = true := by
    rw [List.isEmpty_iff]
    exact List.ne_nil_of_mem hneeded
  -- the devices that may get a copy have zones
  have hall : ∀ x ∈ rest, ∃ b, (do pure (neededNetwork.contains (← pol.zone x)) : Except String Bool) = .ok b := by
    intro x hx
    have hmem := MultipleHosts.mem_allDests.mp (hdraws ▸ List.mem_cons_of_mem d hx)
    have hshould := DeviceState.shouldHaveFiles_of_getRepl
      (Device.shouldGetReplFiles_of_shouldGetReplicatedFiles hmem.getRepl)
    obtain ⟨_, hplaced⟩ := exists_of_mapM havailable (List.mem_filter.mpr ⟨hmem.mem, hshould⟩)
    obtain ⟨z, hz, -⟩ := bind_eq_ok hplaced
    exact ⟨_, by rw [hz]; rfl⟩
  have hfirst : (do pure (neededNetwork.contains (← pol.zone d)) : Except String Bool) = .ok true := by
    rw [hzone]
    exact congrArg Except.ok (List.contains_iff_mem.mpr hneeded)
  obtain ⟨dests, hdests⟩ := grepM_cons_of_true hall hfirst
  have hrr : (HostPolicy.hostsPerNetwork pol).replicateTo minFree draws on m failed min =
      .copyTo ((d :: dests).filter fun d => !(on.map Device.hostid).contains d.hostid)
        ((d :: dests).filter fun d => (on.map Device.hostid).contains d.hostid) := by
    show pol.replicateTo minFree draws on m failed min = _
    rw [replicateTo, answer, hdevs]
    simp only [ok_bind, hcounted, havailable]
    rw [if_neg hne, suggest, hdraws, hdests]
    rfl
  have hideal : ∀ x ∈ (d :: dests).filter (fun d => !(on.map Device.hostid).contains d.hostid), place near on x = 0 :=
    fun x hx => place_eq_zero_iff.mpr (by simpa using (List.mem_filter.mp hx).2)
  by_cases hhost : d.hostid ∈ on.map Device.hostid
  · rw [List.filter_cons_of_neg (by simpa using hhost), List.filter_cons_of_pos (by simpa using hhost)] at hrr
    rw [List.filter_cons_of_neg (by simpa using hhost)] at hideal
    cases hfresh : dests.filter (fun d => !(on.map Device.hostid).contains d.hostid) with
    | nil =>
      rw [hfresh] at hrr
      exact ⟨draws, _, _, d, hrr, rfl, .inl rfl, by simp⟩
    | cons c others =>
      rw [hfresh] at hrr hideal
      refine ⟨draws, _, _, c, hrr, rfl, .inr ?_, hideal⟩
      rw [hideal c List.mem_cons_self, place_eq_two_iff.mpr hhost]
      decide
  · rw [List.filter_cons_of_pos (by simpa using hhost)] at hrr hideal
    exact ⟨draws, _, _, d, hrr, rfl, .inl rfl, hideal⟩

/-! ### Runs -/

section Runs

variable {fid : ℕ} {sourceDevid : Option ℕ} {onUpDevid : List ℕ} {round : Round} {st : CopyState}

/-- Some outcomes lead to a copy on a host that has one. -/
theorem Overfills.exists_runaway (fid min : ℕ) {onDevs : List Device} {next : Device}
    (hmem : ∀ d ∈ onDevs, d ∈ m.devices) (hnodup : onDevs.Nodup) (hstarts : StartsLoop ⟨sourceDevid, [], []⟩ onDevs)
    (h : pol.Overfills minFree m zone (onDevs.filter (told ⟨sourceDevid, [], []⟩)) added next) :
    ∃ out, ∃ pass ∈ replicatePasses m fid ⟨sourceDevid, [], []⟩ ((HostPolicy.hostsPerNetwork pol).cls minFree min)
        out onDevs,
      pass.Runaway m fid ⟨sourceDevid, [], []⟩ (.hostsPerNetwork pol) minFree min (upDevids onDevs) := by
  obtain ⟨added', hperm, horder⟩ := @exists_perm_inOrder near _ _ _ (fun _ _ _ _ => rfl) h.shares
  have hperm' := hperm.append_right [next]
  have hshares := ((hperm.append_left (onDevs.filter (told ⟨sourceDevid, [], []⟩))).map Device.hostid).mem_iff.mpr h.shares
  refine Ylem.exists_runaway fid hmem hnodup hstarts rfl (fun d hd => h.dest d (hperm'.mem_iff.mp hd))
    (hperm'.nodup_iff.mpr h.nodup) horder ?_ (fun done d rest hsplit _ => ?_) ?_
  · rw [place_eq_two_iff.mpr hshares]
    decide
  · obtain ⟨rest', rfl⟩ := exists_append_of_snoc_eq hsplit
    refine prefers_of_short min (short_mono h.short ?_) (h.zone_eq d (hperm'.mem_iff.mp ?_))
    · refine ((List.subperm_append_left _).mpr ?_).trans (hperm.append_left _).subperm
      exact (List.sublist_append_left _ _).subperm
    · rw [hsplit]
      simp
  · obtain ⟨needed, hneeded, henough⟩ := h.enough
    refine ⟨(zone, needed), hneeded, h.zone_eq next (by simp), ?_⟩
    rw [((hperm.append_left _).filter _).length_eq]
    exact henough

end Runs

end HostsPerNetwork

/-! ### Runs under the three policies -/

namespace HostPolicy

/-- More copies on usable devices can overfill the hosts of a file on `on`. -/
def Overfills (minFree min : ℕ) (m : DeviceMap) (on : List Device) : HostPolicy → Prop
  | multipleHosts _ => False
  | multipleNetworks pol => ∃ added next, pol.Overfills minFree (pol.effectiveMin min) m on added next
  | hostsPerNetwork pol => ∃ zone added next, pol.Overfills minFree m zone on added next

end HostPolicy

end Ylem
