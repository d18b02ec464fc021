import Ylem.Worker.CopyOrder

/-!
# Where MultipleNetworks overfills hosts

`MultipleNetworks` goes on as long as networks or hosts are missing. With copies enough it can be made to
place one more on a host or network that has one if and only if some usable devices, with which there are
copies enough but too few hosts or networks, leave another usable device on one of their hosts; or on a new
host inside of their networks, where they are on new hosts themselves (`Overfills`). Failures then keep the
run from all the better places (`Overfills.exists_runaway`), and a run that goes there has made just such
copies (`exists_overfills`).
-/

namespace Ylem

open MultipleHosts (Dest Copies)

namespace MultipleNetworks

/-- The network of the first device covers the address of the second. -/
def near (pol : MultipleNetworks) (e d : Device) : Bool :=
  e.hostIp.toOption.any (fun ip => Text.truthy ip) &&
    (pol.network e).toOption.any fun net => d.hostIp.toOption.any fun ip => ip.any fun ip => pol.netmasks.covers net ip

/-- The policy asks for copies on more networks or hosts, and there are hosts without a copy. -/
structure Lacks (pol : MultipleNetworks) (m : DeviceMap) (min : ℕ) (on : List Device) : Prop where
  min_ne_one : min ≠ 1
  few_hosts : countHosts on < uniqueHosts m
  missing : ∃ networks total avoided, pol.onNetworks on = .ok networks ∧ pol.uniqueNetworks m = .ok total ∧
    pol.avoidedDevices networks m = .ok avoided ∧
    (max networks.length 1 < Nat.min min total ∨ countHosts on < min)

/-- With copies on the devices in `added` there are enough, but not on enough hosts or networks; and `next` is
on one of their hosts, or all are on new hosts, `next` inside of the networks with a copy. -/
structure Overfills (pol : MultipleNetworks) (minFree min : ℕ) (m : DeviceMap) (on added : List Device)
    (next : Device) : Prop where
  nodup : (added ++ [next]).Nodup
  dest : ∀ d ∈ added ++ [next], Dest minFree m on [] d
  enough : min ≤ (on ++ added).length
  lacks : pol.Lacks m min (on ++ added)
  shares : next.hostid ∈ (on ++ added).map Device.hostid ∨
    ∃ far close, added = far ++ close ∧ Huddles pol.near on far close next

variable {pol : MultipleNetworks} {minFree min : ℕ} {draws : ℕ → Draw} {on on' added : List Device}
  {m : DeviceMap} {failed : List ℕ} {d e : Device}

theorem near_iff : pol.near e d = true ↔ ∃ eip net ip, e.hostIp = .ok eip ∧ Text.truthy eip = true ∧
    pol.network e = .ok net ∧ d.hostIp = .ok (some ip) ∧ pol.netmasks.covers net ip = true := by
  unfold near
  cases e.hostIp with
  | error => simp [Except.toOption]
  | ok eip =>
    cases pol.network e with
    | error => simp [Except.toOption]
    | ok net =>
      cases d.hostIp with
      | error => simp [Except.toOption]
      | ok ip => cases ip <;> simp [Except.toOption]

theorem near_congr (hd : d ∈ m.devices) (he : e ∈ m.devices) (hid : d.hostid = e.hostid) (x : Device) :
    pol.near x d = pol.near x e := by
  have hip : d.hostIp = e.hostIp := by
    rw [Device.hostIp, Device.hostIp, hid, m.host_eq d hd e he hid]
  rw [near, near, hip]

theorem mem_addressed {devs : List Device} (h : addressed on = .ok devs) :
    d ∈ devs ↔ d ∈ on ∧ ∃ ip, d.hostIp = .ok ip ∧ Text.truthy ip = true := by
  rw [mem_grepM h]
  refine and_congr_right fun _ => ⟨fun h => ?_, fun ⟨ip, hip, htruthy⟩ => ?_⟩
  · obtain ⟨ip, hip, h⟩ := bind_eq_ok h
    exact ⟨ip, hip, Except.ok.inj h⟩
  · rw [hip]
    exact congrArg Except.ok htruthy

theorem mem_onNetworks {networks : List Text} (h : pol.onNetworks on = .ok networks) {net : Text} :
    net ∈ networks ↔ ∃ e ∈ on, (∃ ip, e.hostIp = .ok ip ∧ Text.truthy ip = true) ∧ pol.network e = .ok net := by
  obtain ⟨devs, hdevs, h⟩ := bind_eq_ok h
  obtain ⟨nets, hnets, h⟩ := bind_eq_ok h
  obtain rfl := Except.ok.inj h
  rw [List.mem_dedup, mem_mapM_iff hnets]
  simp only [mem_addressed hdevs, and_assoc]

/-- The hosts that the policy dislikes are those inside of the networks with a copy. -/
theorem disliked_iff {networks : List Text} (h : pol.onNetworks on = .ok networks) :
    pol.disliked networks d = .ok true ↔ ∃ e ∈ on, pol.near e d = true := by
  simp only [near_iff]
  constructor
  · intro hdis
    obtain ⟨ip, hip, hdis⟩ := bind_eq_ok hdis
    obtain ⟨net, hnet, hcovers⟩ := List.any_eq_true.mp (Except.ok.inj hdis)
    obtain ⟨e, he, ⟨eip, heip, htruthy⟩, hnet⟩ := (mem_onNetworks h).mp hnet
    cases ip with
    | none => cases hcovers
    | some ip => exact ⟨e, he, eip, net, ip, heip, htruthy, hnet, hip, hcovers⟩
  · rintro ⟨e, he, eip, net, ip, heip, htruthy, hnet, hip, hcovers⟩
    rw [disliked, hip]
    refine congrArg Except.ok (List.any_eq_true.mpr ⟨net, ?_, hcovers⟩)
    exact (mem_onNetworks h).mpr ⟨e, he, ⟨eip, heip, htruthy⟩, hnet⟩

theorem skip_iff {networks : List Text} (hnetworks : pol.onNetworks on = .ok networks)
    (hfew : countHosts on < uniqueHosts m) {skip : Device → Option Skip} (hskip : pol.skipHost on m networks = .ok skip)
    (hd : d ∈ m.devices) :
    (skip d = none ↔ place pol.near on d = 0) ∧ (skip d = some .network ↔ place pol.near on d = 1) ∧
      (skip d = some .host ↔ place pol.near on d = 2) := by
  have hhost : skip d = some .host ↔ place pol.near on d = 2 :=
    (skipHost_host_iff hskip hfew).trans place_eq_two_iff.symm
  have hnone : skip d = none ↔ place pol.near on d = 0 := by
    rw [skipHost_spec hskip hd, place_eq_zero_iff]
    simp only [hfew, forall_const, ne_eq, disliked_iff hnetworks]
    simp
  refine ⟨hnone, ?_, hhost⟩
  have hle := place_le_two pol.near on d
  cases h : skip d with
  | none =>
    have hzero := hnone.mp h
    exact iff_of_false (by simp) (by omega)
  | some reason =>
    cases reason with
    | host =>
      have htwo := hhost.mp h
      exact iff_of_false (by simp) (by omega)
    | network =>
      have hzero : place pol.near on d ≠ 0 := fun hzero => by simp [hnone.mpr hzero] at h
      have htwo : place pol.near on d ≠ 2 := fun htwo => by simp [hhost.mpr htwo] at h
      exact iff_of_true rfl (by omega)

/-! ### Fewer copies -/

theorem onNetworks_mono {networks : List Text} (hsub : on' ⊆ on) (h : pol.onNetworks on = .ok networks) :
    ∃ networks', pol.onNetworks on' = .ok networks' ∧ networks' ⊆ networks ∧ networks'.length ≤ networks.length := by
  obtain ⟨devs, hdevs, hnets⟩ := bind_eq_ok h
  obtain ⟨nets, hnets, -⟩ := bind_eq_ok hnets
  have haddressed := grepM_eq_ok fun d hd => exists_of_grepM hdevs (hsub hd)
  have hnets' : ∀ d ∈ on'.filter (fun d => decide ((do pure (Text.truthy (← d.hostIp)) : Except String Bool) =
      .ok true)), ∃ net, pol.network d = .ok net := by
    intro d hd
    obtain ⟨hd, htruthy⟩ := List.mem_filter.mp hd
    exact exists_of_mapM hnets ((mem_grepM hdevs).mpr ⟨hsub hd, of_decide_eq_true htruthy⟩)
  have hon' : ∃ networks', pol.onNetworks on' = .ok networks' ∧ networks'.Nodup := by
    rw [onNetworks, addressed, haddressed]
    simp only [ok_bind, mapM_eq_ok hnets']
    exact ⟨_, rfl, List.nodup_dedup _⟩
  obtain ⟨networks', hon', hnodup⟩ := hon'
  have hmem : networks' ⊆ networks := by
    intro net hnet
    obtain ⟨e, he, hip, hnet⟩ := (mem_onNetworks hon').mp hnet
    exact (mem_onNetworks h).mpr ⟨e, hsub he, hip, hnet⟩
  exact ⟨networks', hon', hmem, (List.subperm_of_subset hnodup hmem).length_le⟩

theorem exists_avoidedDevices {networks networks' : List Text} {avoided : List Device} (hsub : networks' ⊆ networks)
    (h : pol.avoidedDevices networks m = .ok avoided) : ∃ avoided', pol.avoidedDevices networks' m = .ok avoided' := by
  rw [avoidedDevices] at h ⊢
  split_ifs with hnone'
  · exact ⟨[], rfl⟩
  · rw [if_neg] at h
    · refine ⟨_, grepM_eq_ok fun d hd => ?_⟩
      obtain ⟨b, hb⟩ := exists_of_grepM h hd
      obtain ⟨ip, hip, -⟩ := bind_eq_ok hb
      rw [disliked, hip]
      exact ⟨_, rfl⟩
    · intro hnone
      rw [List.isEmpty_iff] at hnone hnone'
      exact hnone' (List.eq_nil_iff_forall_not_mem.mpr fun net hnet => by simpa [hnone] using hsub hnet)

/-- What is missing with more copies is missing with fewer. -/
theorem Lacks.mono (h : pol.Lacks m min on) (hsub : on' ⊆ on) : pol.Lacks m min on' := by
  obtain ⟨networks, total, avoided, hnetworks, htotal, havoided, hmissing⟩ := h.missing
  obtain ⟨networks', hnetworks', hmem, hlen⟩ := onNetworks_mono hsub hnetworks
  obtain ⟨avoided', havoided'⟩ := exists_avoidedDevices hmem havoided
  have hhosts := MultipleHosts.countHosts_mono hsub
  have hfew := h.few_hosts
  exact ⟨h.min_ne_one, by omega, networks', total, avoided', hnetworks', htotal, havoided', by omega⟩

/-! ### The suggestions -/

/-- The devices that may get a copy, in the order of the draws. -/
def allDests (minFree : ℕ) (draws : ℕ → Draw) (m : DeviceMap) (on : List Device) (failed : List ℕ) : List Device :=
  weightedList draws ((m.devices.filter (MultipleHosts.usable minFree on failed)).map fun d => (d, 100 * d.percentFree))

theorem sorted_of_copyTo (hfew : countHosts on < uniqueHosts m) {ideal desp : List Device}
    (h : pol.replicateTo minFree draws on m failed min = .copyTo ideal desp) :
    ideal = (allDests minFree draws m on failed).filter (fun d => place pol.near on d = 0) ∧
      desp = (allDests minFree draws m on failed).filter (fun d => place pol.near on d = 1) ++
        (allDests minFree draws m on failed).filter (fun d => place pol.near on d = 2) := by
  obtain ⟨networks, skip, hnetworks, hskip, rfl, rfl⟩ := replicateTo_eq_copyTo h
  have hmem : ∀ d ∈ allDests minFree draws m on failed, d ∈ m.devices := fun d hd =>
    (MultipleHosts.mem_allDests.mp hd).mem
  refine ⟨List.filter_congr fun d hd => ?_, congrArg₂ _ (List.filter_congr fun d hd => ?_)
    (List.filter_congr fun d hd => ?_)⟩
  · simp [(skip_iff hnetworks hfew hskip (hmem d hd)).1]
  · simp [(skip_iff hnetworks hfew hskip (hmem d hd)).2.1]
  · simp [(skip_iff hnetworks hfew hskip (hmem d hd)).2.2]

variable (draws) in
theorem Lacks.exists_copyTo (h : pol.Lacks m (pol.effectiveMin min) on) (hcopies : Copies m on)
    (hd : Dest minFree m on failed d) :
    ∃ ideal desp, pol.replicateTo minFree draws on m failed min = .copyTo ideal desp := by
  obtain ⟨networks, total, avoided, hnetworks, htotal, havoided, hmissing⟩ := h.missing
  have hfew := h.few_hosts
  have hone := h.min_ne_one
  have hall : ¬ (2 ≤ on.length ∧ on.length = totalDisks m) := by
    rintro ⟨-, hall⟩
    have hshould := DeviceState.shouldHaveFiles_of_getRepl
      (Device.shouldGetReplFiles_of_shouldGetReplicatedFiles hd.getRepl)
    exact hd.not_on (List.mem_map_of_mem (hcopies.mem_of_length hall hd.mem hshould))
  have hskip : ∃ skip, pol.skipHost on m networks = .ok skip := by
    rw [skipHost, if_pos hfew, havoided]
    exact ⟨_, rfl⟩
  obtain ⟨skip, hskip⟩ := hskip
  have hne : ¬ (weightedList draws ((m.devices.filter (MultipleHosts.usable minFree on failed)).map
      fun d => (d, 100 * d.percentFree))).isEmpty = true := by
    rw [List.isEmpty_iff]
    exact List.ne_nil_of_mem (MultipleHosts.mem_allDests.mpr hd)
  rw [replicateTo, answer]
  simp only [hnetworks, htotal, ok_bind]
  rw [if_neg (by omega), if_neg hall, if_neg (by omega), if_neg (by omega), if_neg (by omega), if_neg (by omega),
    suggest, hskip]
  simp only [ok_bind]
  rw [if_neg hne]
  exact ⟨_, _, rfl⟩

theorem head_sorted {l : List Device} {r : Device → ℕ} (hr : ∀ d ∈ l, r d ≤ 2) {c : Device}
    (hc : c ∈ (l.filter (fun d => r d = 0) ++
      (l.filter (fun d => r d = 1) ++ l.filter (fun d => r d = 2))).head?) :
    (∀ d ∈ l, r c ≤ r d) ∧ ∀ d rest, l = d :: rest → c = d ∨ r c < r d := by
  have hfirst : ∀ n, (∀ d ∈ l, n ≤ r d) → c ∈ (l.filter (fun d => r d = n)).head? →
      (∀ d ∈ l, r c ≤ r d) ∧ ∀ d rest, l = d :: rest → c = d ∨ r c < r d := by
    intro n hn hc
    have hrc : r c = n := of_decide_eq_true (List.mem_filter.mp (List.mem_of_mem_head? hc)).2
    refine ⟨fun d hd => hrc ▸ hn d hd, ?_⟩
    rintro d rest rfl
    by_cases hd : r d = n
    · rw [List.filter_cons, if_pos (decide_eq_true hd)] at hc
      exact .inl (Option.some.inj hc).symm
    · have hle := hn d List.mem_cons_self
      exact .inr (by omega)
  have hnone : ∀ n, l.filter (fun d => r d = n) = [] → ∀ d ∈ l, r d ≠ n := fun n hnil d hd heq =>
    absurd (List.mem_filter.mpr ⟨hd, decide_eq_true heq⟩) (hnil ▸ List.not_mem_nil)
  by_cases h0 : l.filter (fun d => r d = 0) = []
  · have hpos := hnone 0 h0
    rw [h0, List.nil_append] at hc
    by_cases h1 : l.filter (fun d => r d = 1) = []
    · have hne := hnone 1 h1
      rw [h1, List.nil_append] at hc
      refine hfirst 2 (fun d hd => ?_) hc
      have hd0 := hpos d hd
      have hd1 := hne d hd
      omega
    · rw [List.head?_append_of_ne_nil _ h1] at hc
      exact hfirst 1 (fun d hd => Nat.one_le_iff_ne_zero.mpr (hpos d hd)) hc
  · rw [List.head?_append_of_ne_nil _ h0] at hc
    exact hfirst 0 (fun _ _ => Nat.zero_le _) hc

theorem Lacks.prefers (h : pol.Lacks m (pol.effectiveMin min) on) (hcopies : Copies m on) (d : Device) :
    Prefers pol.near (.multipleNetworks pol) minFree min m on d := by
  intro failed hd
  obtain ⟨draws, rest, hdraws⟩ := MultipleHosts.exists_allDests_eq_cons hd
  obtain ⟨ideal, desp, hrr⟩ := h.exists_copyTo draws hcopies hd
  obtain ⟨hideal, hdesp⟩ := sorted_of_copyTo h.few_hosts hrr
  have hne : ideal ++ desp ≠ [] := by
    intro hnil
    have hin := ((exact_of_copyTo hrr).mem_iff d).mpr hd
    rw [← List.mem_append, hnil] at hin
    exact List.not_mem_nil hin
  obtain ⟨c, hc⟩ := Option.isSome_iff_exists.mp (List.isSome_head?.mpr hne)
  refine ⟨draws, ideal, desp, c, hrr, hc, ?_, fun x hx => ?_⟩
  · rw [hideal, hdesp] at hc
    exact (head_sorted (fun d _ => place_le_two _ _ d) hc).2 d rest hdraws
  · rw [hideal] at hx
    exact of_decide_eq_true (List.mem_filter.mp hx).2

/-- Some outcomes lead to a copy on a host or network that has one. -/
theorem Overfills.exists_runaway (fid : ℕ) {sourceDevid : Option ℕ} {onDevs : List Device} {next : Device}
    (hmem : ∀ d ∈ onDevs, d ∈ m.devices) (hnodup : onDevs.Nodup) (hstarts : StartsLoop ⟨sourceDevid, [], []⟩ onDevs)
    (h : pol.Overfills minFree (pol.effectiveMin min) m (onDevs.filter (told ⟨sourceDevid, [], []⟩)) added next) :
    ∃ out, ∃ pass ∈ replicatePasses m fid ⟨sourceDevid, [], []⟩ ((HostPolicy.multipleNetworks pol).cls minFree min)
        out onDevs,
      pass.Runaway m fid ⟨sourceDevid, [], []⟩ (.multipleNetworks pol) minFree min (upDevids onDevs) := by
  have hmem' : ∀ d ∈ added ++ [next], d ∈ m.devices := fun d hd => (h.dest d hd).mem
  -- the copies in an order in which the policy can be made to choose them
  have hordered : ∃ added', added'.Perm added ∧
      InOrder pol.near (onDevs.filter (told ⟨sourceDevid, [], []⟩)) (added' ++ [next]) ∧
      place pol.near (onDevs.filter (told ⟨sourceDevid, [], []⟩) ++ added') next ≠ 0 := by
    rcases h.shares with hhost | ⟨far, close, rfl, hhuddles⟩
    · obtain ⟨added', hperm, horder⟩ := exists_perm_inOrder (fun x hx hid =>
        pol.near_congr (hmem' x (List.mem_append_left _ hx)) (hmem' next (by simp)) hid) hhost
      refine ⟨added', hperm, horder, ?_⟩
      rw [place_eq_two_iff.mpr (((hperm.append_left _).map Device.hostid).mem_iff.mpr hhost)]
      decide
    · refine ⟨far ++ close, .refl _, hhuddles.inOrder, fun hzero => ?_⟩
      obtain ⟨e, he, hnear⟩ := hhuddles.inside next (by simp)
      have hfree := (place_eq_zero_iff.mp hzero).2 e
      rw [← List.append_assoc] at hfree
      rw [hfree (List.mem_append_left _ he)] at hnear
      cases hnear
  obtain ⟨added', hperm, horder, hplace⟩ := hordered
  have hperm' := hperm.append_right [next]
  refine Ylem.exists_runaway fid hmem hnodup hstarts rfl (fun d hd => h.dest d (hperm'.mem_iff.mp hd))
    (hperm'.nodup_iff.mpr h.nodup) horder hplace (fun done d rest hsplit hcopies => ?_) ?_
  · refine (h.lacks.mono ?_).prefers hcopies d
    obtain ⟨rest', rfl⟩ := exists_append_of_snoc_eq hsplit
    exact List.append_subset.mpr ⟨List.subset_append_left _ _, fun x hx =>
      List.mem_append_right _ (hperm.mem_iff.mp (List.mem_append_left _ hx))⟩
  · show pol.effectiveMin min ≤ _
    rw [(hperm.append_left _).length_eq]
    exact h.enough

/-! ### What a run has done -/

/-- The devices that may still get a copy are at places no better than those of the copies made. -/
structure Sorted (pol : MultipleNetworks) (minFree : ℕ) (m : DeviceMap) (on added : List Device) (st : CopyState) :
    Prop extends Added minFree m on added st where
  inOrder : countHosts st.onDevsTellpol < uniqueHosts m →
    ∀ d, Dest minFree m st.onDevsTellpol st.destFailed d → InOrder pol.near on (added ++ [d])

section Runs

variable {fid : ℕ} {sourceDevid : Option ℕ} {onUpDevid : List ℕ} {round : Round} {st st' : CopyState}

theorem Sorted.next (h : pol.Sorted minFree m on added st)
    (hnext : (copyStep m fid ⟨sourceDevid, [], []⟩ ((HostPolicy.multipleNetworks pol).cls minFree min) onUpDevid
      round st).next = some st') : ∃ added', pol.Sorted minFree m on added' st' := by
  obtain ⟨d, hdest, hd, hcases⟩ :=
    ((HostPolicy.multipleNetworks pol).suggestsDests minFree m).next_cases hnext
  rcases hcases with ⟨htold, hfailed⟩ | ⟨htold, hfailed⟩ | ⟨htold, hfailed⟩
  · refine ⟨added, ⟨htold.trans h.told_eq, h.dest, h.nodup_added⟩, ?_⟩
    rw [htold, hfailed]
    exact h.inOrder
  · refine ⟨added, ⟨htold.trans h.told_eq, h.dest, h.nodup_added⟩, ?_⟩
    rw [htold, hfailed]
    exact fun hfew e he => h.inOrder hfew e ⟨he.mem, he.not_on, fun hin => he.not_failed (List.mem_cons_of_mem _ hin),
      he.getRepl, he.free⟩
  · refine ⟨added ++ [d], h.toAdded.copied hd htold, ?_⟩
    rw [htold, hfailed]
    intro hfew e he
    have hfew' : countHosts st.onDevsTellpol < uniqueHosts m :=
      (MultipleHosts.countHosts_mono (List.subset_append_left _ _)).trans_lt hfew
    have he' : Dest minFree m st.onDevsTellpol st.destFailed e :=
      ⟨he.mem, fun hin => he.not_on (by rw [List.map_append]; exact List.mem_append_left _ hin), he.not_failed,
        he.getRepl, he.free⟩
    refine InOrder.snoc (h.inOrder hfew' d hd) (h.inOrder hfew' e he') ?_
    obtain ⟨ideal, desp, c, hrr, hc, hdevid⟩ := Pass.head_of_destination hdest
    have hrr : pol.replicateTo minFree round.weights st.onDevsTellpol m st.destFailed min = .copyTo ideal desp := hrr
    obtain rfl : c = d := by
      refine DeviceMap.eq_of_devid ?_ hd.mem hdevid
      have hin := List.mem_append.mp (List.mem_of_mem_head? hc)
      exact (((exact_of_copyTo hrr).mem_iff c).mp hin).mem
    obtain ⟨hideal, hdesp⟩ := sorted_of_copyTo hfew' hrr
    rw [hideal, hdesp] at hc
    rw [← h.told_eq]
    exact (head_sorted (fun x _ => place_le_two _ _ x) hc).1 e (MultipleHosts.mem_allDests.mpr he')

end Runs

end MultipleNetworks

end Ylem
