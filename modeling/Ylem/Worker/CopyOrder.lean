import Ylem.Worker.Runaway
import Ylem.Worker.SuccessfulCopies

/-!
# In which order copies are made

The policies over networks like some places better than others: hosts without a copy outside of the networks
with one, then other hosts without a copy, and hosts with a copy last (`place`). A run of `replicate` copies
to a device only after every device at a better place has got a copy or failed. If failures are all that
keeps the other devices out, some devices get copies in every order that respects these places
(`InOrder`), and in no other.

So if such an order ends with a copy on a host or network that has one, when there are enough copies already,
some copies that succeed and fail make a run go there (`exists_runaway`).
-/

namespace Ylem

open MultipleHosts

/-- How good a device is for another copy, `0` being best; `near e d` means that the network of `e` covers `d`. -/
def place (near : Device → Device → Bool) (on : List Device) (d : Device) : ℕ :=
  if d.hostid ∈ on.map Device.hostid then 2 else if on.any fun e => near e d then 1 else 0

/-- None of the devices is at a worse place than those after it, when it comes. -/
def InOrder (near : Device → Device → Bool) : List Device → List Device → Prop
  | _, [] => True
  | on, d :: rest => (∀ e ∈ rest, place near on d ≤ place near on e) ∧ InOrder near (on ++ [d]) rest

section Places

variable {near : Device → Device → Bool} {on added rest : List Device} {d e : Device}

theorem place_le_two (near : Device → Device → Bool) (on : List Device) (d : Device) : place near on d ≤ 2 := by
  unfold place
  split_ifs <;> omega

theorem place_eq_two_iff : place near on d = 2 ↔ d.hostid ∈ on.map Device.hostid := by
  unfold place
  split_ifs with hhost <;> simp [hhost]

theorem place_eq_one_iff : place near on d = 1 ↔
    d.hostid ∉ on.map Device.hostid ∧ ∃ e ∈ on, near e d = true := by
  unfold place
  split_ifs with hhost hnear
  · simp [hhost]
  · exact iff_of_true rfl ⟨hhost, List.any_eq_true.mp hnear⟩
  · exact iff_of_false (by simp) fun h => hnear (List.any_eq_true.mpr h.2)

theorem place_eq_zero_iff : place near on d = 0 ↔
    d.hostid ∉ on.map Device.hostid ∧ ∀ e ∈ on, near e d = false := by
  unfold place
  split_ifs with hhost hnear
  · simp [hhost]
  · obtain ⟨e, he, hnear⟩ := List.any_eq_true.mp hnear
    exact iff_of_false (by simp) fun h => by simp [h.2 e he] at hnear
  · exact iff_of_true rfl ⟨hhost, fun e he => by simpa using fun h => hnear (List.any_eq_true.mpr ⟨e, he, h⟩)⟩

theorem inOrder_append : InOrder near on (added ++ rest) ↔
    InOrder near on added ∧ InOrder near (on ++ added) rest ∧
      ∀ before d after, added = before ++ d :: after → ∀ e ∈ rest, place near (on ++ before) d ≤ place near (on ++ before) e := by
  induction added generalizing on with
  | nil => simp [InOrder]
  | cons a added ih =>
    have hassoc : ∀ l : List Device, on ++ [a] ++ l = on ++ a :: l := fun l => by simp
    rw [List.cons_append, InOrder, InOrder, ih, hassoc]
    constructor
    · rintro ⟨hfirst, hadded, hrest, hbetween⟩
      refine ⟨⟨fun e he => hfirst e (List.mem_append_left _ he), hadded⟩, hrest, fun before d after heq e he => ?_⟩
      cases before with
      | nil =>
        obtain ⟨rfl, rfl⟩ := List.cons.inj heq
        rw [List.append_nil]
        exact hfirst e (List.mem_append_right _ he)
      | cons b before =>
        obtain ⟨rfl, rfl⟩ := List.cons.inj heq
        rw [← hassoc]
        exact hbetween before d after rfl e he
    · rintro ⟨⟨hfirst, hadded⟩, hrest, hbetween⟩
      refine ⟨fun e he => ?_, hadded, hrest, fun before d after heq e he => ?_⟩
      · rcases List.mem_append.mp he with he | he
        · exact hfirst e he
        · have hle := hbetween [] a added rfl e he
          rwa [List.append_nil] at hle
      · rw [hassoc]
        exact hbetween (a :: before) d after (by rw [heq]; rfl) e he

/-- A device after two others, if it may come after either of them. -/
theorem InOrder.snoc (hd : InOrder near on (added ++ [d])) (he : InOrder near on (added ++ [e]))
    (hle : place near (on ++ added) d ≤ place near (on ++ added) e) : InOrder near on (added ++ [d] ++ [e]) := by
  obtain ⟨hadded, -, hbefore⟩ := inOrder_append.mp he
  refine inOrder_append.mpr ⟨hd, ⟨by simp, trivial⟩, fun before x after heq y hy => ?_⟩
  obtain rfl := List.mem_singleton.mp hy
  rcases List.eq_nil_or_concat after with rfl | ⟨after, z, rfl⟩
  · obtain ⟨rfl, hx⟩ := List.append_inj' heq rfl
    obtain rfl := List.singleton_injective hx
    exact hle
  · have hsplit : added ++ [d] = (before ++ x :: after) ++ [z] := by
      rw [heq]
      simp
    obtain ⟨rfl, -⟩ := List.append_inj' hsplit rfl
    exact hbefore before x after rfl y (List.mem_singleton_self y)

/-! ### Copies that end on a host with one -/

theorem place_congr (hid : d.hostid = e.hostid) (hnear : ∀ x, near x d = near x e) :
    place near on d = place near on e := by
  simp only [place, hid, hnear]

theorem exists_perm_inOrder (hnear : ∀ x ∈ added, x.hostid = d.hostid → ∀ y, near y x = near y d)
    (hhost : d.hostid ∈ (on ++ added).map Device.hostid) :
    ∃ added', added'.Perm added ∧ InOrder near on (added' ++ [d]) := by
  induction hlen : added.length generalizing on added with
  | zero =>
    obtain rfl := List.length_eq_zero_iff.mp hlen
    exact ⟨[], .refl _, ⟨by simp, trivial⟩⟩
  | succ n ih =>
    have hne : added.toFinset.Nonempty := by
      rw [List.toFinset_nonempty_iff]
      rintro rfl
      cases hlen
    -- the best place first
    obtain ⟨a, ha, hbest⟩ := added.toFinset.exists_min_image (place near on) hne
    simp only [List.mem_toFinset] at ha hbest
    have hperm := List.perm_cons_erase ha
    have hrest : d.hostid ∈ (on ++ [a] ++ added.erase a).map Device.hostid := by
      rw [List.append_assoc, List.singleton_append]
      exact ((hperm.append_left on).map Device.hostid).mem_iff.mp hhost
    have hlen' : (added.erase a).length = n := by
      rw [List.length_erase_of_mem ha, hlen, Nat.add_sub_cancel]
    obtain ⟨added', hadded', horder⟩ := ih (fun x hx => hnear x (List.mem_of_mem_erase hx)) hrest hlen'
    have hfirst : place near on a ≤ place near on d := by
      by_cases hon : d.hostid ∈ on.map Device.hostid
      · rw [place_eq_two_iff.mpr hon]
        exact place_le_two _ _ _
      · rw [List.map_append, List.mem_append] at hhost
        obtain ⟨x, hx, hid⟩ := List.mem_map.mp (hhost.resolve_left hon)
        rw [← place_congr hid (hnear x hx hid)]
        exact hbest x hx
    refine ⟨a :: added', (hadded'.cons a).trans hperm.symm, fun e he => ?_, horder⟩
    rcases List.mem_append.mp he with he | he
    · exact hbest e (List.mem_of_mem_erase (hadded'.mem_iff.mp he))
    · rw [List.mem_singleton.mp he]
      exact hfirst

/-! ### Copies on new hosts -/

/-- All on different hosts without a copy: at first outside of the networks with a copy, those before them
included, and then, with `next`, inside of these networks. -/
structure Huddles (near : Device → Device → Bool) (on far close : List Device) (next : Device) : Prop where
  nodup_hosts : ((far ++ close ++ [next]).map Device.hostid).Nodup
  fresh : ∀ d ∈ far ++ close ++ [next], d.hostid ∉ on.map Device.hostid
  outside : ∀ d ∈ far, ∀ e ∈ on, near e d = false
  apart : far.Pairwise fun e d => near e d = false
  inside : ∀ d ∈ close ++ [next], ∃ e ∈ on ++ far, near e d = true

theorem inOrder_of_inside (hnodup : (rest.map Device.hostid).Nodup)
    (hfresh : ∀ d ∈ rest, d.hostid ∉ on.map Device.hostid) (hinside : ∀ d ∈ rest, ∃ e ∈ on, near e d = true) :
    InOrder near on rest := by
  induction rest generalizing on with
  | nil => trivial
  | cons a rest ih =>
    rw [List.map_cons, List.nodup_cons] at hnodup
    have hone : ∀ d ∈ a :: rest, place near on d = 1 := fun d hd => place_eq_one_iff.mpr ⟨hfresh d hd, hinside d hd⟩
    refine ⟨fun e he => ?_, ih hnodup.2 (fun d hd => ?_) fun d hd => ?_⟩
    · rw [hone a List.mem_cons_self, hone e (List.mem_cons_of_mem _ he)]
    · rw [List.map_append, List.mem_append, not_or]
      refine ⟨hfresh d (List.mem_cons_of_mem _ hd), fun hin => hnodup.1 ?_⟩
      rw [← List.mem_singleton.mp hin]
      exact List.mem_map_of_mem hd
    · obtain ⟨e, he, hnear⟩ := hinside d (List.mem_cons_of_mem _ hd)
      exact ⟨e, List.mem_append_left _ he, hnear⟩

theorem Huddles.inOrder {far close : List Device} (h : Huddles near on far close d) :
    InOrder near on (far ++ close ++ [d]) := by
  induction far generalizing on with
  | nil =>
    refine inOrder_of_inside h.nodup_hosts h.fresh fun x hx => ?_
    obtain ⟨e, he, hnear⟩ := h.inside x hx
    exact ⟨e, by simpa using he, hnear⟩
  | cons a far ih =>
    have hnodup := h.nodup_hosts
    have happart := h.apart
    simp only [List.cons_append, List.map_cons, List.nodup_cons] at hnodup
    rw [List.pairwise_cons] at happart
    refine ⟨fun e _ => ?_, ih ⟨hnodup.2, fun x hx => ?_, fun x hx e he => ?_, happart.2, fun x hx => ?_⟩⟩
    · rw [place_eq_zero_iff.mpr ⟨h.fresh a (by simp), h.outside a List.mem_cons_self⟩]
      exact Nat.zero_le _
    · rw [List.map_append, List.mem_append, not_or]
      refine ⟨h.fresh x (List.mem_cons_of_mem _ hx), fun hin => hnodup.1 ?_⟩
      rw [← List.mem_singleton.mp hin]
      exact List.mem_map_of_mem hx
    · rcases List.mem_append.mp he with he | he
      · exact h.outside x (List.mem_cons_of_mem _ hx) e he
      · rw [List.mem_singleton.mp he]
        exact happart.1 x hx
    · obtain ⟨e, he, hnear⟩ := h.inside x hx
      exact ⟨e, by simpa using he, hnear⟩

theorem exists_append_of_snoc_eq {done : List Device} {x : Device} (h : added ++ [x] = done ++ d :: rest) :
    ∃ rest', added = done ++ rest' := by
  rcases List.eq_nil_or_concat rest with rfl | ⟨rest, y, rfl⟩
  · obtain ⟨rfl, -⟩ := List.append_inj' h rfl
    exact ⟨[], (List.append_nil _).symm⟩
  · have hassoc : added ++ [x] = (done ++ d :: rest) ++ [y] := by
      rw [h]
      simp
    obtain ⟨rfl, -⟩ := List.append_inj' hassoc rfl
    exact ⟨d :: rest, rfl⟩

end Places

/-! ### The outcomes of a run -/

section Run

variable {near : Device → Device → Bool} {pol : HostPolicy} {minFree min fid : ℕ} {m : DeviceMap}
  {sourceDevid : Option ℕ} {onDevs on added : List Device} {next : Device} {st : CopyState}

theorem Pass.head_of_destination {cls : ReplClass} {pass : Pass} {ddevid : ℕ}
    (h : pass.destination m ⟨sourceDevid, [], []⟩ cls = some ddevid) : ∃ ideal desp c,
      pass.request m cls = .copyTo ideal desp ∧ c ∈ (ideal ++ desp).head? ∧ c.devid = ddevid := by
  obtain ⟨-, -, hchoice⟩ := Pass.destination_eq_some.mp h
  have hcopyTo : ∃ ideal desp, pass.request m cls = .copyTo ideal desp := by
    rcases chooseDest_dest hchoice with ⟨d, hd, -⟩ | ⟨-, d, hd, -⟩
    · exact ReplicationRequest.eq_copyTo_of_ideally (List.ne_nil_of_mem hd)
    · exact ReplicationRequest.eq_copyTo_of_desperate (List.ne_nil_of_mem hd)
  obtain ⟨ideal, desp, hrr⟩ := hcopyTo
  rw [hrr] at hchoice
  cases hhead : (ideal ++ desp).head? with
  | none =>
    obtain ⟨rfl, rfl⟩ := List.append_eq_nil_iff.mp (List.head?_eq_none_iff.mp hhead)
    cases hchoice
  | some c =>
    rw [chooseDest_of_allows (fun _ _ => ⟨List.not_mem_nil, List.not_mem_nil⟩) hhead] at hchoice
    exact ⟨ideal, desp, c, hrr, hhead, Choice.dest.inj hchoice⟩

/-- Among the devices that may get a copy the policy can be made to choose a given one, or one at a better place. -/
def Prefers (near : Device → Device → Bool) (pol : HostPolicy) (minFree min : ℕ) (m : DeviceMap) (on : List Device)
    (d : Device) : Prop :=
  ∀ failed, Dest minFree m on failed d → ∃ draws ideal desp c,
    pol.replicateTo minFree draws on m failed min = .copyTo ideal desp ∧ c ∈ (ideal ++ desp).head? ∧
      (c = d ∨ place near on c < place near on d) ∧ ∀ x ∈ ideal, place near on x = 0

/-- A state of a run on its way through devices in order: the first of them have got copies, and the others have
not failed. -/
structure UnderWay (near : Device → Device → Bool) (minFree : ℕ) (m : DeviceMap) (sourceDevid : Option ℕ)
    (on done rest : List Device) (st : CopyState) : Prop extends Informed ⟨sourceDevid, [], []⟩ m st where
  told_eq : st.onDevsTellpol = on ++ done
  dest : ∀ d ∈ rest, Dest minFree m (on ++ done) st.destFailed d
  nodup_rest : rest.Nodup
  inOrder : InOrder near (on ++ done) rest

theorem Informed.copies_eq (h : Informed ⟨sourceDevid, [], []⟩ m st) (round : Round) :
    (⟨round, st⟩ : Pass).copies = st.onDevsTellpol := by
  rw [h.tellpol_eq]
  refine List.filter_congr fun d _ => ?_
  simp [told]

namespace UnderWay

variable {done rest : List Device} {d : Device} {onUpDevid : List ℕ}

theorem withCopy (h : UnderWay near minFree m sourceDevid on done (d :: rest) st) :
    UnderWay near minFree m sourceDevid on (done ++ [d]) rest (st.withCopy d) := by
  obtain ⟨hd, hrest⟩ := List.forall_mem_cons.mp h.dest
  obtain ⟨hnotin, hnodup⟩ := List.nodup_cons.mp h.nodup_rest
  have hon : d.devid ∉ st.onDevs.map Device.devid :=
    h.not_on hd.mem hd.getRepl List.not_mem_nil (h.told_eq ▸ hd.not_on)
  refine ⟨h.toInformed.withCopy hd.mem hd.getRepl List.not_mem_nil hon, ?_, fun x hx => ?_, hnodup, ?_⟩
  · show st.onDevsTellpol ++ [d] = _
    rw [h.told_eq, List.append_assoc]
  · have hx' := hrest x hx
    refine ⟨hx'.mem, fun hin => ?_, hx'.not_failed, hx'.getRepl, hx'.free⟩
    rw [← List.append_assoc, List.map_append, List.mem_append] at hin
    rcases hin with hin | hin
    · exact hx'.not_on hin
    · obtain rfl := DeviceMap.eq_of_devid hx'.mem hd.mem (List.mem_singleton.mp hin)
      exact hnotin hx
  · rw [← List.append_assoc]
    exact h.inOrder.2

theorem withFailure (h : UnderWay near minFree m sourceDevid on done (d :: rest) st) {c : Device} (hc : c ∈ m.devices)
    (hplace : place near (on ++ done) c < place near (on ++ done) d) :
    UnderWay near minFree m sourceDevid on done (d :: rest) (st.withFailure c.devid) := by
  refine ⟨h.toInformed.withFailure _, h.told_eq, fun x hx => ?_, h.nodup_rest, h.inOrder⟩
  have hx' := h.dest x hx
  refine ⟨hx'.mem, hx'.not_on, fun hin => ?_, hx'.getRepl, hx'.free⟩
  rcases List.mem_cons.mp hin with heq | hin
  · -- `c` is at a better place than the devices that are left
    obtain rfl := DeviceMap.eq_of_devid hx'.mem hc heq
    rcases List.mem_cons.mp hx with rfl | hx
    · omega
    · have hle := h.inOrder.1 x hx
      omega
  · exact hx'.not_failed hin

/-- A pass copies to the next of the devices, or it fails at a device at a better place. -/
theorem step (fid : ℕ) (h : UnderWay near minFree m sourceDevid on done (d :: rest) st)
    (hprefers : Prefers near pol minFree min m (on ++ done) d) (hup : onUpDevid ≠ []) :
    ∃ round : Round,
      (∃ ideal desp, (⟨round, st⟩ : Pass).request m (pol.cls minFree min) = .copyTo ideal desp ∧
        (place near (on ++ done) d ≠ 0 → ideal = []) ∧
        copyStep m fid ⟨sourceDevid, [], []⟩ (pol.cls minFree min) onUpDevid round st = .copied d (st.withCopy d)) ∨
      ∃ st', copyStep m fid ⟨sourceDevid, [], []⟩ (pol.cls minFree min) onUpDevid round st = .retry st' ∧
        UnderWay near minFree m sourceDevid on done (d :: rest) st' := by
  obtain ⟨draws, ideal, desp, c, hrr, hhead, hc, hideal⟩ := hprefers st.destFailed (h.dest d List.mem_cons_self)
  rw [← h.told_eq] at hrr
  have hchoice : chooseDest ⟨sourceDevid, [], []⟩ (.copyTo ideal desp) = .dest c.devid :=
    chooseDest_of_allows (fun _ _ => ⟨List.not_mem_nil, List.not_mem_nil⟩) hhead
  have hdest : Dest minFree m st.onDevsTellpol st.destFailed c := by
    refine pol.suggestsDests minFree m draws _ _ min c ?_
    rw [hrr]
    exact List.mem_append.mp (List.mem_of_mem_head? hhead)
  have hsteps := fun copy => @Informed.copyStep_eq minFree fid ⟨sourceDevid, [], []⟩ m (pol.cls minFree min) st
    onUpDevid ⟨draws, .least, copy⟩ h.toInformed hup _ _ hrr c hdest List.not_mem_nil hchoice
  rcases hc with rfl | hlt
  · refine ⟨⟨draws, .least, .copied⟩, .inl ⟨ideal, desp, hrr, fun hplace => ?_, (hsteps .copied).1 rfl⟩⟩
    cases ideal with
    | nil => rfl
    | cons x ideal =>
      obtain rfl := Option.some.inj hhead
      exact absurd (hideal _ List.mem_cons_self) hplace
  · exact ⟨⟨draws, .least, .destError⟩, .inr ⟨_, (hsteps .destError).2 rfl, h.withFailure hdest.mem hlt⟩⟩

end UnderWay

/-- If devices in order end at a place that is not the best, with copies enough before, some outcomes lead to a
desperate copy there. -/
theorem exists_runaway (fid : ℕ) (hmem : ∀ d ∈ onDevs, d ∈ m.devices) (hnodup : onDevs.Nodup)
    (hstarts : StartsLoop ⟨sourceDevid, [], []⟩ onDevs)
    (hon : on = onDevs.filter (told ⟨sourceDevid, [], []⟩))
    (hdest : ∀ d ∈ added ++ [next], Dest minFree m on [] d) (hrest : (added ++ [next]).Nodup)
    (horder : InOrder near on (added ++ [next])) (hplace : place near (on ++ added) next ≠ 0)
    (hprefers : ∀ done d rest, added ++ [next] = done ++ d :: rest → Copies m (on ++ done) →
      Prefers near pol minFree min m (on ++ done) d)
    (henough : pol.Enough min (on ++ added) next) :
    ∃ out, ∃ pass ∈ replicatePasses m fid ⟨sourceDevid, [], []⟩ (pol.cls minFree min) out onDevs,
      pass.Runaway m fid ⟨sourceDevid, [], []⟩ pol minFree min (upDevids onDevs) := by
  subst hon
  have hstart : UnderWay near minFree m sourceDevid (onDevs.filter (told ⟨sourceDevid, [], []⟩)) [] (added ++ [next])
      (startState ⟨sourceDevid, [], []⟩ onDevs) := by
    refine ⟨(noFailures_startState hmem hnodup).toInformed, (List.append_nil _).symm, ?_, hrest, ?_⟩
    · rw [List.append_nil]
      exact hdest
    · rw [List.append_nil]
      exact horder
  refine exists_replicatePasses (pol.suggestsDests minFree m).suggestsDevices hstarts
    (I := fun st => ∃ done d rest, added ++ [next] = done ++ d :: rest ∧
      UnderWay near minFree m sourceDevid (onDevs.filter (told ⟨sourceDevid, [], []⟩)) done (d :: rest) st)
    (fun st hst => ?_) ?_
  · obtain ⟨done, d, rest, hsplit, hway⟩ := hst
    have hcopies : Copies m (onDevs.filter (told ⟨sourceDevid, [], []⟩) ++ done) := hway.told_eq ▸ hway.copies
    obtain ⟨round, ⟨ideal, desp, hrr, hnil, hstep⟩ | ⟨st', hstep, hway'⟩⟩ :=
      hway.step fid (hprefers done d rest hsplit hcopies) hstarts.1
    · refine ⟨round, ?_⟩
      cases rest with
      | nil =>
        obtain ⟨rfl, hd⟩ := List.append_inj' hsplit rfl
        obtain rfl := List.singleton_injective hd
        refine .inl ⟨next, Pass.copied_eq_some.mpr ⟨_, hstep⟩, ?_, ?_⟩
        · rw [hrr]
          exact hnil hplace
        · rw [hway.copies_eq, hway.told_eq]
          exact henough
      | cons e rest =>
        refine .inr ⟨st.withCopy d, by rw [hstep]; rfl, done ++ [d], e, rest, ?_, hway.withCopy⟩
        rw [hsplit]
        simp
    · exact ⟨round, .inr ⟨st', by rw [hstep]; rfl, done, d, rest, hsplit, hway'⟩⟩
  · cases added with
    | nil => exact ⟨[], next, [], rfl, hstart⟩
    | cons a added => exact ⟨[], a, added ++ [next], rfl, hstart⟩

end Run

end Ylem
