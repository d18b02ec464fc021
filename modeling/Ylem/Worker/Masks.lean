import Ylem.Worker.SuccessfulCopies

/-!
# Masked devices

`replicate` filters the ideal suggestions of the policy by the masked devices and those to be avoided, but
takes the first desperate suggestion as it is. Whatever the policy and the copies, it keeps to the allowed
devices exactly if there are no others in the map, or it never gets to its first pass
(`masks_honoured_iff`).

For `MultipleHosts` alone the condition is about hosts. A forbidden device is picked only if each host with
such a device has a copy. Copies for this go to allowed devices, one on each of these hosts, and the policy
must still want more copies on more hosts afterwards (`Corners`). Then some copies that succeed and fail lead
there: those to the allowed devices of these hosts succeed, one on each, and all the others fail.
-/

namespace Ylem

open MultipleHosts

/-- The destinations of a run are allowed. -/
def Honoured (m : DeviceMap) (fid : ℕ) (opts : ReplOpts) (cls : ReplClass) (onDevs : List Device)
    (out : Outcomes) : Prop :=
  ∀ pass ∈ replicatePasses m fid opts cls out onDevs, ∀ ddevid ∈ pass.destination m opts cls, opts.Allows ddevid

theorem honoured_of_not_startsLoop {m : DeviceMap} {opts : ReplOpts} {onDevs : List Device}
    (h : ¬ StartsLoop opts onDevs) (fid : ℕ) (cls : ReplClass) (out : Outcomes) :
    Honoured m fid opts cls onDevs out := by
  intro pass hpass
  rw [replicatePasses, if_neg h] at hpass
  exact absurd hpass List.not_mem_nil

/-! ### Any policy -/

section AnyPolicy

variable {m : DeviceMap} {opts : ReplOpts} {onDevs : List Device}

/-- A policy that has only this device to suggest, as a desperate destination. -/
def desperateFor (d : Device) : ReplicationPolicy := fun _ _ _ _ _ => .copyTo [] [d]

theorem suggestsDevices_desperateFor {d : Device} (hd : d ∈ m.devices) : SuggestsDevices m (desperateFor d) := by
  rintro draws on failed min e (he | he)
  · exact absurd he List.not_mem_nil
  · rw [List.mem_singleton.mp he]
    exact hd

theorem mem_destination_desperateFor (hstarts : StartsLoop opts onDevs) (fid : ℕ) (d : Device) (out : Outcomes) :
    ∃ pass ∈ replicatePasses m fid opts ⟨0, desperateFor d⟩ out onDevs,
      pass.destination m opts ⟨0, desperateFor d⟩ = some d.devid := by
  refine ⟨⟨out.rounds 0, startState opts onDevs⟩, ?_, rfl⟩
  rw [replicatePasses, if_pos hstarts]
  exact List.mem_cons_self

theorem honoured_by_all_iff (fid : ℕ) :
    (∀ cls : ReplClass, SuggestsDevices m cls.policy → ∀ out, Honoured m fid opts cls onDevs out) ↔
      ¬ StartsLoop opts onDevs ∨ ∀ d ∈ m.devices, opts.Allows d.devid := by
  constructor
  · intro h
    by_contra! hnot
    obtain ⟨hstarts, d, hd, hforbidden⟩ := hnot
    let out : Outcomes := ⟨some true, fun _ => ⟨fun _ => .least, .least, .died⟩, fun _ => none, false⟩
    obtain ⟨pass, hpass, hdest⟩ := mem_destination_desperateFor (m := m) hstarts fid d out
    exact hforbidden (h _ (suggestsDevices_desperateFor hd) out pass hpass _ hdest)
  · rintro (hstarts | hall) cls hpol out
    · exact honoured_of_not_startsLoop hstarts fid cls out
    · intro pass hpass ddevid hdest
      obtain ⟨-, -, hchoice⟩ := Pass.destination_eq_some.mp hdest
      rcases chooseDest_dest hchoice with ⟨d, hd, rfl, -⟩ | ⟨-, d, hd, rfl⟩
      · exact hall d (hpol _ _ _ _ _ (.inl hd))
      · exact hall d (hpol _ _ _ _ _ (.inr hd))

end AnyPolicy

/-! ### MultipleHosts -/

/-- The hosts without a copy that have a forbidden device for one. -/
def forbiddenHosts (minFree : ℕ) (m : DeviceMap) (opts : ReplOpts) (on : List Device) : List ℕ :=
  ((m.devices.filter fun d => MultipleHosts.usable minFree on [] d && decide (0 < d.percentFree) &&
    !decide (opts.Allows d.devid) && !(on.map Device.hostid).contains d.hostid).map Device.hostid).dedup

/-- Allowed devices can take copies on all of these hosts, so that a forbidden device is the only choice. The
policy wants still more copies then, and on more hosts. -/
structure Corners (minFree min : ℕ) (m : DeviceMap) (opts : ReplOpts) (on : List Device) : Prop where
  forbidden : ∃ d, Dest minFree m on [] d ∧ ¬ opts.Allows d.devid
  reached : ∀ hostid ∈ forbiddenHosts minFree m opts on,
    ∃ a, Dest minFree m on [] a ∧ opts.Allows a.devid ∧ a.hostid = hostid
  few_copies : on.length + (forbiddenHosts minFree m opts on).length < min
  few_hosts : countHosts on + (forbiddenHosts minFree m opts on).length < uniqueHosts m

section Corners

variable {minFree min fid : ℕ} {m : DeviceMap} {opts : ReplOpts} {on added : List Device} {failed : List ℕ}
  {pol : MultipleHosts} {onUpDevid : List ℕ} {round : Round} {st : CopyState}

theorem mem_forbiddenHosts {hostid : ℕ} : hostid ∈ forbiddenHosts minFree m opts on ↔
    ∃ d, Dest minFree m on [] d ∧ ¬ opts.Allows d.devid ∧ d.hostid ∉ on.map Device.hostid ∧ d.hostid = hostid := by
  simp only [forbiddenHosts, List.mem_dedup, List.mem_map (f := Device.hostid), List.mem_filter, Bool.and_eq_true,
    Bool.not_eq_true', decide_eq_true_eq, decide_eq_false_iff_not, List.contains_eq_mem, MultipleHosts.usable, List.not_mem_nil,
    decide_false, Bool.not_false, and_true]
  constructor
  · rintro ⟨d, ⟨hd, ⟨⟨⟨hon, hrepl⟩, hfree⟩, hnot⟩, hfresh⟩, heq⟩
    exact ⟨d, ⟨hd, hon, List.not_mem_nil, hrepl, hfree⟩, hnot, hfresh, heq⟩
  · rintro ⟨d, hdest, hnot, hfresh, heq⟩
    exact ⟨d, ⟨hdest.mem, ⟨⟨⟨hdest.not_on, hdest.getRepl⟩, hdest.free⟩, hnot⟩, hfresh⟩, heq⟩

theorem nodup_forbiddenHosts : (forbiddenHosts minFree m opts on).Nodup := List.nodup_dedup _

theorem countHosts_add_le {hosts : List ℕ} (hnodup : hosts.Nodup) (hnew : ∀ h ∈ hosts, h ∉ on.map Device.hostid)
    (hsub : hosts ⊆ added.map Device.hostid) : countHosts on + hosts.length ≤ countHosts (on ++ added) := by
  simp only [countHosts, ← List.card_toFinset, ← List.toFinset_card_of_nodup hnodup, List.map_append,
    List.toFinset_append]
  rw [← Finset.card_union_of_disjoint]
  · refine Finset.card_le_card (Finset.union_subset_union_right fun h hh => ?_)
    exact List.mem_toFinset.mpr (hsub (List.mem_toFinset.mp hh))
  · refine Finset.disjoint_right.mpr fun h hh hon => ?_
    exact hnew h (List.mem_toFinset.mp hh) (List.mem_toFinset.mp hon)

/-! ### A run that is not cornered -/

/-- A state of a run that has kept to the allowed devices. -/
structure KeptTo (minFree : ℕ) (m : DeviceMap) (opts : ReplOpts) (on added : List Device) (st : CopyState) : Prop
    extends Added minFree m on added st where
  allows : ∀ a ∈ added, opts.Allows a.devid
  failed : ∀ devid ∈ st.destFailed, opts.Allows devid

theorem KeptTo.dest_forbidden (h : KeptTo minFree m opts on added st) {d : Device} (hd : Dest minFree m on [] d)
    (hnot : ¬ opts.Allows d.devid) : Dest minFree m st.onDevsTellpol st.destFailed d := by
  refine ⟨hd.mem, fun hin => ?_, fun hin => hnot (h.failed _ hin), hd.getRepl, hd.free⟩
  rw [h.told_eq, List.map_append] at hin
  rcases List.mem_append.mp hin with hin | hin
  · exact hd.not_on hin
  · obtain ⟨a, ha, heq⟩ := List.mem_map.mp hin
    exact hnot (heq ▸ h.allows a ha)

theorem KeptTo.corners (h : KeptTo minFree m opts on added st) {ddevid : ℕ}
    (hdest : (⟨round, st⟩ : Pass).destination m opts (multipleHostsClass pol minFree min) = some ddevid)
    (hnot : ¬ opts.Allows ddevid) : Corners minFree (pol.effectiveMin min) m opts on := by
  obtain ⟨-, -, hchoice⟩ := Pass.destination_eq_some.mp hdest
  rcases chooseDest_dest hchoice with ⟨d, -, rfl, hallows⟩ | ⟨hideal, d, hd, rfl⟩
  · exact absurd hallows hnot
  obtain ⟨ideal, desp, hrr⟩ := ReplicationRequest.eq_copyTo_of_desperate (List.ne_nil_of_mem hd)
  obtain rfl : ideal = [] := by
    rw [hrr] at hideal
    exact hideal
  obtain ⟨hmem, hfew⟩ := pol.replicateTo_eq_copyTo hrr
  have hexact := pol.exact_of_copyTo hrr
  rw [hrr] at hd
  have hd := (hexact.mem_iff d).mp (.inr hd)
  have hnone : ∀ e, ¬ Ideal minFree m st.onDevsTellpol st.destFailed e := fun e he =>
    absurd ((hmem e).mpr he) List.not_mem_nil
  have hhosts : countHosts st.onDevsTellpol < uniqueHosts m := by
    by_contra hall
    exact hnone d ⟨hd, fun hlt => absurd hlt hall⟩
  -- a device on a host without a copy would be ideal
  have hcovered : forbiddenHosts minFree m opts on ⊆ added.map Device.hostid := by
    intro hostid hin
    obtain ⟨e, he, hforbidden, hfresh, rfl⟩ := mem_forbiddenHosts.mp hin
    by_contra hnew
    refine hnone e ⟨h.dest_forbidden he hforbidden, fun _ hon => ?_⟩
    rw [h.told_eq, List.map_append] at hon
    exact (List.mem_append.mp hon).elim hfresh hnew
  have hlen := (List.subperm_of_subset nodup_forbiddenHosts hcovered).length_le
  have hcount := countHosts_add_le nodup_forbiddenHosts (fun hostid hin => by
    obtain ⟨e, -, -, hfresh, rfl⟩ := mem_forbiddenHosts.mp hin
    exact hfresh) hcovered
  have hfew : st.onDevsTellpol.length < pol.effectiveMin min := hfew rfl
  rw [h.told_eq] at hd hhosts hfew
  rw [List.length_map] at hlen
  rw [List.length_append] at hfew
  refine ⟨⟨d, hd.of_append, hnot⟩, fun hostid hin => ?_, by omega, by omega⟩
  obtain ⟨a, ha, heq⟩ := List.mem_map.mp (hcovered hin)
  exact ⟨a, h.dest a ha, h.allows a ha, heq⟩

/-- A pass with an allowed destination keeps to the allowed devices. -/
theorem KeptTo.next {st' : CopyState} (h : KeptTo minFree m opts on added st)
    (hallows : ∀ ddevid ∈ (⟨round, st⟩ : Pass).destination m opts (multipleHostsClass pol minFree min),
      opts.Allows ddevid)
    (hnext : (copyStep m fid opts (multipleHostsClass pol minFree min) onUpDevid round st).next = some st') :
    ∃ added', KeptTo minFree m opts on added' st' := by
  obtain ⟨d, hdest, hd, hcases⟩ := (suggestsDests_multipleHostsClass pol minFree min m).next_cases hnext
  have hallowed := hallows d.devid hdest
  rcases hcases with ⟨htold, hfailed⟩ | ⟨htold, hfailed⟩ | ⟨htold, hfailed⟩
  · exact ⟨added, ⟨htold.trans h.told_eq, h.dest, h.nodup_added⟩, h.allows, by rw [hfailed]; exact h.failed⟩
  · refine ⟨added, ⟨htold.trans h.told_eq, h.dest, h.nodup_added⟩, h.allows, ?_⟩
    rw [hfailed]
    exact List.forall_mem_cons.mpr ⟨hallowed, h.failed⟩
  · refine ⟨added ++ [d], h.toAdded.copied hd htold, ?_, by rw [hfailed]; exact h.failed⟩
    simpa [or_imp, forall_and] using ⟨h.allows, hallowed⟩

variable (fid) in
theorem honoured_of_not_corners {onDevs : List Device} (out : Outcomes)
    (h : ¬ Corners minFree (pol.effectiveMin min) m opts (startState opts onDevs).onDevsTellpol) :
    Honoured m fid opts (multipleHostsClass pol minFree min) onDevs out := by
  unfold Honoured replicatePasses
  split_ifs
  · have hallows : ∀ round st, (∃ added, KeptTo minFree m opts (startState opts onDevs).onDevsTellpol added st) →
        ∀ ddevid ∈ (⟨round, st⟩ : Pass).destination m opts (multipleHostsClass pol minFree min),
          opts.Allows ddevid := by
      rintro round st ⟨added, hkept⟩ ddevid hdest
      by_contra hnot
      exact h (hkept.corners hdest hnot)
    intro pass hpass
    refine hallows pass.round pass.st ?_
    refine copyPasses_inv (I := fun st => ∃ added, KeptTo minFree m opts (startState opts onDevs).onDevsTellpol added st)
      (fun round st st' hkept hnext => ?_) ⟨[], ?_⟩ pass hpass
    · obtain ⟨added, hadded⟩ := hkept
      exact hadded.next (hallows round st ⟨added, hadded⟩) hnext
    · exact ⟨.start _, by simp, by simp [startState]⟩
  · exact fun pass hpass => absurd hpass List.not_mem_nil

/-! ### A run into the corner -/

/-- A state on the way into the corner: copies on some of the hosts with forbidden devices, one on each, and
failures elsewhere only. -/
structure Cornering (minFree : ℕ) (m : DeviceMap) (opts : ReplOpts) (on added : List Device) (st : CopyState) :
    Prop extends Informed opts m st, KeptTo minFree m opts on added st where
  hosts : added.map Device.hostid ⊆ forbiddenHosts minFree m opts on
  nodup_hosts : (added.map Device.hostid).Nodup
  open_hosts : ∀ d ∈ m.devices, d.devid ∈ st.destFailed → d.hostid ∈ forbiddenHosts minFree m opts on →
    d.hostid ∈ added.map Device.hostid

namespace Cornering

theorem suggests (h : Cornering minFree m opts on added st) (hcorners : Corners minFree (pol.effectiveMin min) m opts on)
    (draws : ℕ → Draw) : countHosts st.onDevsTellpol < uniqueHosts m ∧ ∃ ideal desp,
      pol.replicateTo minFree draws st.onDevsTellpol m st.destFailed min = .copyTo ideal desp := by
  have hlen := (List.subperm_of_subset h.nodup_hosts h.hosts).length_le
  have hcount := countHosts_append_le on added
  have hfew := hcorners.few_copies
  have hhosts := hcorners.few_hosts
  rw [List.length_map] at hlen
  obtain ⟨d, hd, hnot⟩ := hcorners.forbidden
  have hdest := h.dest_forbidden hd hnot
  have hlength : st.onDevsTellpol.length < pol.effectiveMin min := by
    rw [h.told_eq, List.length_append]
    omega
  have hfree : countHosts st.onDevsTellpol < uniqueHosts m := by
    rw [h.told_eq]
    omega
  exact ⟨hfree, exists_replicateTo_eq_copyTo (not_happy_of_few h.copies hlength hfree hdest) hlength hdest⟩

theorem exists_allowed (h : Cornering minFree m opts on added st)
    (hcorners : Corners minFree (pol.effectiveMin min) m opts on)
    (hfree : countHosts st.onDevsTellpol < uniqueHosts m) {d : Device}
    (hideal : Ideal minFree m st.onDevsTellpol st.destFailed d) (hnot : ¬ opts.Allows d.devid) :
    ∃ a, Ideal minFree m st.onDevsTellpol st.destFailed a ∧ opts.Allows a.devid := by
  have hfresh := hideal.not_skipped hfree
  have hnew : d.hostid ∉ on.map Device.hostid ∧ d.hostid ∉ added.map Device.hostid := by
    rw [h.told_eq, List.map_append] at hfresh
    simpa [not_or] using hfresh
  have hdest : Dest minFree m on [] d := by
    have hdest := hideal.toDest
    rw [h.told_eq] at hdest
    exact hdest.of_append
  have hhost := mem_forbiddenHosts.mpr ⟨d, hdest, hnot, hnew.1, rfl⟩
  obtain ⟨a, ha, hallows, heq⟩ := hcorners.reached _ hhost
  refine ⟨a, ⟨⟨ha.mem, fun hin => ?_, fun hin => ?_, ha.getRepl, ha.free⟩, fun _ => by rwa [heq]⟩, hallows⟩
  · obtain ⟨e, he, hdevid⟩ := List.mem_map.mp hin
    obtain rfl := DeviceMap.eq_of_devid (h.copies.mem e he) ha.mem hdevid
    exact hfresh (heq ▸ List.mem_map_of_mem he)
  · exact hnew.2 (heq ▸ h.open_hosts a ha.mem hin (heq ▸ hhost))

theorem withCopy (h : Cornering minFree m opts on added st) {d : Device}
    (hd : Dest minFree m st.onDevsTellpol st.destFailed d) (hallows : opts.Allows d.devid)
    (hhost : d.hostid ∈ forbiddenHosts minFree m opts on) (hnew : d.hostid ∉ added.map Device.hostid) :
    Cornering minFree m opts on (added ++ [d]) (st.withCopy d) where
  toInformed := h.toInformed.withCopy hd.mem hd.getRepl hallows.1
    (h.not_on hd.mem hd.getRepl hallows.1 hd.not_on)
  toAdded := h.toAdded.copied hd rfl
  allows := by simpa [or_imp, forall_and] using ⟨h.allows, hallows⟩
  failed := h.failed
  hosts := by
    rw [List.map_append, List.map_singleton]
    exact List.append_subset.mpr ⟨h.hosts, by simpa using hhost⟩
  nodup_hosts := by
    rw [List.map_append, List.map_singleton, List.nodup_append_comm]
    exact List.nodup_cons.mpr ⟨hnew, h.nodup_hosts⟩
  open_hosts e he hfailed hin := by
    rw [List.map_append]
    exact List.mem_append_left _ (h.open_hosts e he hfailed hin)

theorem withFailure (h : Cornering minFree m opts on added st) {d : Device} (hd : d ∈ m.devices)
    (hallows : opts.Allows d.devid)
    (hcovered : d.hostid ∈ forbiddenHosts minFree m opts on → d.hostid ∈ added.map Device.hostid) :
    Cornering minFree m opts on added (st.withFailure d.devid) where
  toInformed := h.toInformed.withFailure _
  toAdded := ⟨h.told_eq, h.dest, h.nodup_added⟩
  allows := h.allows
  failed := List.forall_mem_cons.mpr ⟨hallows, h.failed⟩
  hosts := h.hosts
  nodup_hosts := h.nodup_hosts
  open_hosts e he hfailed hin := by
    rcases List.mem_cons.mp hfailed with heq | hfailed
    · obtain rfl := DeviceMap.eq_of_devid he hd heq
      exact hcovered hin
    · exact h.open_hosts e he hfailed hin

variable (fid min) in
/-- A pass picks a forbidden device, or its outcome can be chosen to lead on. -/
theorem step (h : Cornering minFree m opts on added st) (hcorners : Corners minFree (pol.effectiveMin min) m opts on)
    (hup : onUpDevid ≠ []) :
    ∃ round : Round, (∃ ddevid ∈ (⟨round, st⟩ : Pass).destination m opts (multipleHostsClass pol minFree min),
        ¬ opts.Allows ddevid) ∨
      ∃ st', (copyStep m fid opts (multipleHostsClass pol minFree min) onUpDevid round st).next = some st' ∧
        ∃ added', Cornering minFree m opts on added' st' := by
  let draws : ℕ → Draw := fun _ => .least
  obtain ⟨hfree, ideal, desp, hrr⟩ := h.suggests hcorners draws
  have hexact := exact_of_copyTo hrr
  have hideal := (replicateTo_eq_copyTo hrr).1
  obtain ⟨d, hd, hnot⟩ := hcorners.forbidden
  have hd := (hexact.mem_iff d).mpr (h.dest_forbidden hd hnot)
  cases hchoice : chooseDest opts (.copyTo ideal desp) with
  | masked =>
    obtain ⟨hne, hall⟩ := chooseDest_masked hchoice
    obtain ⟨e, he⟩ := List.exists_mem_of_ne_nil _ hne
    have hforbidden : ¬ opts.Allows e.devid := fun hallows => (hall e he).elim hallows.1 hallows.2
    obtain ⟨a, ha, hallows⟩ := h.exists_allowed hcorners hfree ((hideal e).mp he) hforbidden
    exact absurd (hall a ((hideal a).mpr ha)) (not_or.mpr hallows)
  | exhausted =>
    obtain rfl : ideal = [] := chooseDest_exhausted hchoice
    obtain ⟨e, rest, rfl⟩ := List.exists_cons_of_ne_nil (List.ne_nil_of_mem (hd.resolve_left List.not_mem_nil))
    cases hchoice
  | dest ddevid =>
    by_cases hallows : opts.Allows ddevid
    · obtain ⟨e, he, rfl⟩ := (suggestsDests_multipleHosts pol minFree m).dest_of_choice (hrr ▸ hchoice)
      have hsteps := fun copy => @Informed.copyStep_eq minFree fid opts m (multipleHostsClass pol minFree min) st
        onUpDevid ⟨draws, .least, copy⟩ h.toInformed hup _ _ hrr e he hallows.1 hchoice
      by_cases hwanted : e.hostid ∈ forbiddenHosts minFree m opts on ∧ e.hostid ∉ added.map Device.hostid
      · refine ⟨⟨draws, .least, .copied⟩, .inr ⟨st.withCopy e, ?_, _, h.withCopy he hallows hwanted.1 hwanted.2⟩⟩
        rw [(hsteps .copied).1 rfl]
        rfl
      · refine ⟨⟨draws, .least, .destError⟩, .inr ⟨st.withFailure e.devid, ?_, _,
          h.withFailure he.mem hallows fun hin => ?_⟩⟩
        · rw [(hsteps .destError).2 rfl]
          rfl
        · by_contra hnew
          exact hwanted ⟨hin, hnew⟩
    · refine ⟨⟨draws, .least, .died⟩, .inl ⟨ddevid, ?_, hallows⟩⟩
      refine Pass.destination_eq_some.mpr ⟨error_eq_none _ _ _ _ _ _, ?_, ?_⟩
      · show (pol.replicateTo minFree draws st.onDevsTellpol m st.destFailed min).isHappy = false
        rw [hrr]
        rfl
      · show chooseDest opts (pol.replicateTo minFree draws st.onDevsTellpol m st.destFailed min) = _
        rw [hrr]
        exact hchoice

end Cornering

end Corners

/-- What decides whether the destinations of a run are allowed. Whatever the policy, there is no other device in the
map, or there is no pass. For `MultipleHosts` the run is not cornered, or there is no pass. -/
theorem masks_honoured_iff (m : DeviceMap) (fid : ℕ) (opts : ReplOpts) {onDevs : List Device}
    (hmem : ∀ d ∈ onDevs, d ∈ m.devices) (hnodup : onDevs.Nodup) :
    ((∀ cls : ReplClass, SuggestsDevices m cls.policy → ∀ out, Honoured m fid opts cls onDevs out) ↔
        ¬ StartsLoop opts onDevs ∨ ∀ d ∈ m.devices, opts.Allows d.devid) ∧
      ∀ (pol : MultipleHosts) (minFree min : ℕ),
        (∀ out, Honoured m fid opts (multipleHostsClass pol minFree min) onDevs out) ↔
          ¬ StartsLoop opts onDevs ∨
            ¬ Corners minFree (pol.effectiveMin min) m opts (onDevs.filter (told opts)) := by
  refine ⟨honoured_by_all_iff fid, fun pol minFree min => ⟨fun h => ?_, ?_⟩⟩
  · by_contra! hnot
    obtain ⟨hstarts, hcorners⟩ := hnot
    have hinformed : Informed opts m (startState opts onDevs) := (noFailures_startState hmem hnodup).toInformed
    have hstart : Cornering minFree m opts (onDevs.filter (told opts)) [] (startState opts onDevs) :=
      { toInformed := hinformed
        toAdded := Added.start (startState opts onDevs)
        allows := by simp
        failed := by simp [startState]
        hosts := by simp
        nodup_hosts := List.nodup_nil
        open_hosts := by simp [startState] }
    obtain ⟨out, pass, hpass, ddevid, hdest, hforbidden⟩ := @exists_replicatePasses m fid opts _
      (suggestsDevices_multipleHostsClass pol minFree min m) onDevs hstarts
      (I := fun st => ∃ added, Cornering minFree m opts (onDevs.filter (told opts)) added st)
      (P := fun pass => ∃ ddevid ∈ pass.destination m opts (multipleHostsClass pol minFree min),
        ¬ opts.Allows ddevid)
      (fun st hst => hst.elim fun added hadded => hadded.step min fid hcorners hstarts.1) ⟨[], hstart⟩
    exact hforbidden (h out pass hpass ddevid hdest)
  · rintro (hstarts | hcorners) out
    · exact honoured_of_not_startsLoop hstarts fid _ out
    · exact honoured_of_not_corners fid out hcorners

/-! ### A full host -/

/-- The options of a rebalancing that moves a file from `d3` and was told to avoid `d2`. -/
def awayFromD3 : ReplOpts := ⟨none, [3], [2]⟩

/-- The file is on `d1` and `d3`. Avoiding `d2` corners some run, avoiding `d1` none. -/
theorem fullD3_masks :
    Corners 100 2 fullD3 awayFromD3 [upDevice 1 1] ∧
      (¬ ∀ out, Honoured fullD3 1 awayFromD3 twoCopies [upDevice 1 1, fullDevice 3 2] out) ∧
      ∀ out, Honoured fullD3 1 ⟨none, [3], [1]⟩ twoCopies [upDevice 1 1, fullDevice 3 2] out := by
  have hmem : ∀ d ∈ [upDevice 1 1, fullDevice 3 2], d ∈ fullD3.devices := by decide
  have hnodup : [upDevice 1 1, fullDevice 3 2].Nodup := by decide
  have hcorners : Corners 100 2 fullD3 awayFromD3 [upDevice 1 1] := by
    have hnone : forbiddenHosts 100 fullD3 awayFromD3 [upDevice 1 1] = [] := by decide +kernel
    refine ⟨⟨upDevice 2 1, ⟨by decide, by decide, by decide, by decide, by decide +kernel⟩, by decide⟩, ?_, ?_, ?_⟩
    · rw [hnone]
      simp
    · rw [hnone]
      decide
    · rw [hnone]
      decide
  refine ⟨hcorners, fun h => ?_, ?_⟩
  · rcases ((masks_honoured_iff fullD3 1 awayFromD3 hmem hnodup).2 ⟨0⟩ 100 2).mp h with hstarts | hnot
    · exact hstarts (by decide)
    · exact hnot hcorners
  · refine ((masks_honoured_iff fullD3 1 ⟨none, [3], [1]⟩ hmem hnodup).2 ⟨0⟩ 100 2).mpr (.inr ?_)
    rintro ⟨⟨d, hd, hnot⟩, -⟩
    have hall : ∀ d ∈ fullD3.devices, d.devid ∉ [1] → 0 < d.percentFree →
        (⟨none, [3], [1]⟩ : ReplOpts).Allows d.devid := by decide +kernel
    exact hnot (hall d hd.mem hd.not_on hd.free)

/-- The file is on `d1` and `d3`. As the other host is full, `d2` is the only suggestion, a desperate one,
and the file is copied there. -/
theorem awayFromD3_uses_avoided :
    (∃ pass ∈ replicatePasses fullD3 1 awayFromD3 twoCopies allCopied [upDevice 1 1, fullDevice 3 2],
        pass.destination fullD3 awayFromD3 twoCopies = some 2) ∧ ¬ awayFromD3.Allows 2 ∧
      ((replicateOn fullD3 allCopied 1 awayFromD3 twoCopies [upDevice 1 1, fullDevice 3 2]).exec
        { Db.fresh with fileOn := ⟨[(1, 1), (1, 3)], by decide⟩ }).2.devidsOf 1 = [1, 3, 2] := by
  decide +kernel

end Ylem
