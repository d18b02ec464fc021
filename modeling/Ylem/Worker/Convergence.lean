import Ylem.Worker.SuccessfulCopies

/-!
# MultipleHosts replication converges

If every copy succeeds, how many copies does `replicate` make under `MultipleHosts`, and where does it end?
Over devices that are alive, drained or dead the policy is told of exactly the copies on alive devices that
are not masked. As long as these are on fewer hosts than the policy wants, and enough hosts have such a copy
or a device that can get one (`Ready`), none of the early exits of the policy is taken: all disks are not
used, all hosts are not used (`Ready.unhappy`), and some ideal suggestion is neither masked nor to be
avoided (`Ready.chooses`). So the pass makes a copy on a host that had none (`Ready.copied`), and the call
ends after exactly as many copies as hosts were missing (`replicate_converges`).
-/

namespace Ylem

open MultipleHosts

/-- A device that can get a copy of a file on `onDevs`: up and with free space, without a copy yet, and
neither masked nor to be avoided. -/
def eligible (minFree : ℕ) (opts : ReplOpts) (onDevs : List Device) (d : Device) : Bool :=
  d.shouldGetReplicatedFiles minFree && decide (0 < d.percentFree) && decide (opts.Allows d.devid) &&
    !(onDevs.map Device.devid).contains d.devid

/-- The devices that hold an unmasked copy on an alive device, or can get one. -/
def candidates (minFree : ℕ) (opts : ReplOpts) (m : DeviceMap) (onDevs : List Device) : List Device :=
  m.devices.filter fun d =>
    (decide (d ∈ onDevs) && d.status == .alive && !opts.maskDevids.contains d.devid) ||
      eligible minFree opts onDevs d

/-- Every device is alive, being drained, or dead. -/
def OnlyAliveDrainDead (m : DeviceMap) : Prop :=
  ∀ d ∈ m.devices, d.status = .alive ∨ d.status = .drain ∨ d.status = .dead

instance (m : DeviceMap) : Decidable (OnlyAliveDrainDead m) :=
  inferInstanceAs (Decidable (∀ d ∈ m.devices, _))

/-- A state of the loop without failures, from which enough hosts can be reached. -/
structure Ready (minFree min : ℕ) (opts : ReplOpts) (m : DeviceMap) (st : CopyState) : Prop
    extends NoFailures opts m st where
  enough : min ≤ countHosts (candidates minFree opts m st.onDevs)

section States

variable {minFree min : ℕ} {opts : ReplOpts} {m : DeviceMap} {st : CopyState} {onDevs : List Device}

theorem status_alive_iff (hstates : OnlyAliveDrainDead m) {d : Device} (hd : d ∈ m.devices) :
    d.status.shouldHaveFiles = true ↔ d.status = .alive := by
  rcases hstates d hd with h | h | h <;> rw [h] <;> decide

theorem getRepl_iff (hstates : OnlyAliveDrainDead m) {d : Device} (hd : d ∈ m.devices) :
    d.status.shouldGetReplFiles = true ↔ d.status = .alive := by
  rcases hstates d hd with h | h | h <;> rw [h] <;> decide

theorem mem_candidates (hstates : OnlyAliveDrainDead m) (hmem : ∀ d ∈ onDevs, d ∈ m.devices) {d : Device} :
    d ∈ candidates minFree opts m onDevs ↔
      d ∈ onDevs.filter (told opts) ∨ d ∈ m.devices ∧ eligible minFree opts onDevs d = true := by
  simp only [candidates, List.mem_filter, Bool.or_eq_true, Bool.and_eq_true, decide_eq_true_eq, beq_iff_eq,
    told]
  constructor
  · rintro ⟨hd, ⟨⟨hon, halive⟩, hmask⟩ | helig⟩
    · exact .inl ⟨hon, (status_alive_iff hstates hd).mpr halive, hmask⟩
    · exact .inr ⟨hd, helig⟩
  · rintro (⟨hon, hshould, hmask⟩ | ⟨hd, helig⟩)
    · exact ⟨hmem d hon, .inl ⟨⟨hon, (status_alive_iff hstates (hmem d hon)).mp hshould⟩, hmask⟩⟩
    · exact ⟨hd, .inr helig⟩

end States

section Loop

variable {pol : MultipleHosts} {minFree min fid : ℕ} {opts : ReplOpts} {m : DeviceMap} {st : CopyState}
  {onUpDevid : List ℕ} {round : Round}

theorem Ready.exists_fresh (hstates : OnlyAliveDrainDead m) (h : Ready minFree min opts m st)
    (hfew : countHosts st.onDevsTellpol < min) :
    ∃ d ∈ m.devices, eligible minFree opts st.onDevs d = true ∧
      d.hostid ∉ st.onDevsTellpol.map Device.hostid := by
  by_contra hnone
  push Not at hnone
  have hle : countHosts (candidates minFree opts m st.onDevs) ≤ countHosts st.onDevsTellpol := by
    simp only [countHosts, ← List.card_toFinset]
    refine Finset.card_le_card fun hostid hmem => ?_
    rw [List.mem_toFinset] at hmem ⊢
    obtain ⟨d, hd, rfl⟩ := List.mem_map.mp hmem
    rcases (mem_candidates hstates h.mem).mp hd with hin | ⟨hdm, helig⟩
    · rw [h.tellpol_eq]
      exact List.mem_map_of_mem hin
    · exact hnone d hdm helig
  have henough := h.enough
  omega

theorem eligible_iff {onDevs : List Device} {d : Device} :
    eligible minFree opts onDevs d = true ↔ d.shouldGetReplicatedFiles minFree = true ∧ 0 < d.percentFree ∧
      opts.Allows d.devid ∧ d.devid ∉ onDevs.map Device.devid := by
  simp only [eligible, Bool.and_eq_true, decide_eq_true_eq, Bool.not_eq_true', List.contains_eq_mem,
    decide_eq_false_iff_not, and_assoc]

/-- With fewer hosts than wanted the policy is unhappy, and there are hosts without a copy. -/
theorem Ready.unhappy (hstates : OnlyAliveDrainDead m) (h : Ready minFree min opts m st)
    (hfew : countHosts st.onDevsTellpol < min) :
    ¬ Happy m min st.onDevsTellpol ∧ countHosts st.onDevsTellpol < uniqueHosts m := by
  obtain ⟨d, hd, helig, hfresh⟩ := h.exists_fresh hstates hfew
  obtain ⟨hrepl, -, ⟨hmask, -⟩, hon⟩ := eligible_iff.mp helig
  have hgets := Device.shouldGetReplFiles_of_shouldGetReplicatedFiles hrepl
  have hhosts : countHosts st.onDevsTellpol < uniqueHosts m := by
    refine countHosts_lt_uniqueHosts (fun e he => ⟨h.copies.mem e he, ?_⟩) hd hgets hfresh
    have hem := h.copies.mem e he
    exact (getRepl_iff hstates hem).mpr ((status_alive_iff hstates hem).mp (h.copies.shouldHave e he))
  refine ⟨?_, hhosts⟩
  rintro (⟨hone, hne⟩ | ⟨-, hall⟩ | hmin | ⟨huniq, -⟩)
  · have hpos := countHosts_pos hne
    omega
  · have hin := h.copies.mem_of_length hall hd (DeviceState.shouldHaveFiles_of_getRepl hgets)
    exact hfresh (List.mem_map_of_mem hin)
  · omega
  · omega

/-- What a pass chooses: an ideal suggestion that is allowed. -/
theorem Ready.chooses (hstates : OnlyAliveDrainDead m) (draws : ℕ → Draw)
    (h : Ready minFree (pol.effectiveMin min) opts m st)
    (hfew : countHosts st.onDevsTellpol < pol.effectiveMin min) :
    ∃ d ideal desp, Ideal minFree m st.onDevsTellpol st.destFailed d ∧ opts.Allows d.devid ∧
      pol.replicateTo minFree draws st.onDevsTellpol m st.destFailed min = .copyTo ideal desp ∧
      chooseDest opts (.copyTo ideal desp) = .dest d.devid := by
  obtain ⟨hunhappy, hhosts⟩ := h.unhappy hstates hfew
  obtain ⟨ideal, desp, hideal, -, hrr⟩ := replicateTo_of_not_happy minFree draws st.destFailed hunhappy
  obtain ⟨d, hd, helig, hfresh⟩ := h.exists_fresh hstates hfew
  obtain ⟨hrepl, hfree, hallows, hon⟩ := eligible_iff.mp helig
  have hd_ideal : d ∈ ideal := by
    refine (hideal d).mpr ⟨⟨hd, fun hin => ?_, by rw [h.dest_ok]; exact List.not_mem_nil, hrepl, hfree⟩,
      fun _ => hfresh⟩
    obtain ⟨e, he, heq⟩ := List.mem_map.mp hin
    refine hon (List.mem_map.mpr ⟨e, ?_, heq⟩)
    rw [h.tellpol_eq] at he
    exact List.mem_of_mem_filter he
  have hcopyTo : pol.replicateTo minFree draws st.onDevsTellpol m st.destFailed min = .copyTo ideal desp := by
    rcases hrr with hrr | ⟨-, hnil⟩
    · exact hrr
    · rw [hnil] at hd_ideal
      exact absurd hd_ideal List.not_mem_nil
  cases hchoice : chooseDest opts (.copyTo ideal desp) with
  | masked =>
    rcases (chooseDest_masked hchoice).2 d hd_ideal with hmask | havoid
    · exact absurd hmask hallows.1
    · exact absurd havoid hallows.2
  | exhausted =>
    have hnil : ideal = [] := chooseDest_exhausted hchoice
    rw [hnil] at hd_ideal
    exact absurd hd_ideal List.not_mem_nil
  | dest ddevid =>
    rcases chooseDest_dest hchoice with ⟨e, he, rfl, hallowed⟩ | ⟨hnil, -⟩
    · exact ⟨e, ideal, desp, (hideal e).mp he, hallowed, hcopyTo, hchoice⟩
    · have hnil : ideal = [] := hnil
      rw [hnil] at hd_ideal
      exact absurd hd_ideal List.not_mem_nil

variable (fid) in
/-- With fewer hosts than wanted a pass makes a copy on a host that had none. -/
theorem Ready.copied (hstates : OnlyAliveDrainDead m) (hcopy : round.copy = .copied) (hup : onUpDevid ≠ [])
    (h : Ready minFree (pol.effectiveMin min) opts m st)
    (hfew : countHosts st.onDevsTellpol < pol.effectiveMin min) :
    ∃ d ∈ m.devices, copyStep m fid opts (multipleHostsClass pol minFree min) onUpDevid round st =
        .copied d (st.withCopy d) ∧
      d.devid ∉ st.onDevs.map Device.devid ∧ Ready minFree (pol.effectiveMin min) opts m (st.withCopy d) ∧
      countHosts (st.withCopy d).onDevsTellpol = countHosts st.onDevsTellpol + 1 := by
  obtain ⟨d, ideal, desp, hideal, hallows, hrr, hchoice⟩ := h.chooses hstates round.weights hfew
  obtain ⟨-, hhosts⟩ := h.unhappy hstates hfew
  have hrr : (multipleHostsClass pol minFree min).policy round.weights st.onDevsTellpol m st.destFailed
      (multipleHostsClass pol minFree min).mindevcount = .copyTo ideal desp := hrr
  obtain ⟨hstep, hok, hon⟩ := h.toNoFailures.copied hcopy hup hrr hideal.toDest hallows.1 hchoice
  refine ⟨d, hideal.mem, hstep, hon, ⟨hok, h.enough.trans (countHosts_mono fun e he => ?_)⟩,
    countHosts_append_new (hideal.not_skipped hhosts)⟩
  rw [mem_candidates hstates h.mem] at he
  rw [mem_candidates hstates hok.mem, ← hok.tellpol_eq]
  rcases he with he | ⟨hem, helig⟩
  · rw [← h.tellpol_eq] at he
    exact .inl (List.mem_append_left _ he)
  · by_cases hsame : e = d
    · subst hsame
      exact .inl (List.mem_append_right _ List.mem_cons_self)
    · obtain ⟨hrepl, hfree, hallowed, hnot⟩ := eligible_iff.mp helig
      refine .inr ⟨hem, eligible_iff.mpr ⟨hrepl, hfree, hallowed, fun hin => ?_⟩⟩
      rw [CopyState.withCopy, List.map_append] at hin
      rcases List.mem_append.mp hin with hin | hin
      · exact hnot hin
      · exact hsame (DeviceMap.eq_of_devid hem hideal.mem (by simpa using hin))

variable (pol minFree min fid opts) in
theorem fills_multipleHosts (hstates : OnlyAliveDrainDead m) (hup : onUpDevid ≠ []) :
    Fills m fid opts (multipleHostsClass pol minFree min) onUpDevid
      (Ready minFree (pol.effectiveMin min) opts m)
      fun st => pol.effectiveMin min - countHosts st.onDevsTellpol where
  devices := suggestsDevices_multipleHostsClass pol minFree min m
  copied round st hcopy h hmissing := by
    obtain ⟨d, hd, hstep, hon, hready, hcount⟩ := h.copied fid hstates hcopy hup (by omega)
    exact ⟨d, hd, hstep, hon, hready, by omega⟩
  happy round st h hnone := by
    have henough : pol.effectiveMin min ≤ countHosts st.onDevsTellpol := by omega
    exact (happy_iff minFree round.weights st.destFailed).mpr (.inr (.inr (.inl henough)))

end Loop

/-! ### The whole call -/

section Call

variable {pol : MultipleHosts} {minFree min fid : ℕ} {opts : ReplOpts} {m : DeviceMap}
  {classOf : FileRow → Option ReplClass} {out : Outcomes} {onDevs : List Device} {db : Db}

/-- The copies on alive devices that are not masked. -/
def aliveCopies (opts : ReplOpts) (m : DeviceMap) (devids : List ℕ) : List Device :=
  (devids.filterMap m.ofDevid).filter fun d => d.status == .alive && !opts.maskDevids.contains d.devid

theorem aliveCopies_map (hstates : OnlyAliveDrainDead m) {on : List Device} (hmem : ∀ d ∈ on, d ∈ m.devices) :
    aliveCopies opts m (on.map Device.devid) = on.filter (told opts) := by
  rw [aliveCopies, filterMap_ofDevid hmem]
  refine List.filter_congr fun d hd => ?_
  have halive := status_alive_iff hstates (hmem d hd)
  have heq : (d.status == .alive) = d.status.shouldHaveFiles := by
    rw [Bool.eq_iff_iff, beq_iff_eq]
    exact halive.symm
  rw [told, heq]

/-- `replicate` under `MultipleHosts` when every copy succeeds, over devices that are alive, drained or
dead: if enough hosts have an unmasked copy on an alive device or a device that can get one, it makes one
copy for each host that is missing, and ends happy with such copies on enough hosts. -/
theorem replicate_converges (hstates : OnlyAliveDrainDead m) (hlock : out.gotLock = some true)
    {loaded : Option FileRow} {row : FileRow} (hrow : (loaded <|> db.file.find? fid) = some row)
    (hcls : classOf row = some (multipleHostsClass pol minFree min))
    (hdevs : (db.devidsOf fid).mapM m.ofDevid = some onDevs) (hstarts : StartsLoop opts onDevs)
    (hcopy : ∀ n, (out.rounds n).copy = .copied)
    (henough : pol.effectiveMin min ≤ countHosts (candidates minFree opts m onDevs)) :
    let missing := pol.effectiveMin min - countHosts (aliveCopies opts m (db.devidsOf fid))
    let run := (replicate m classOf out fid loaded opts).exec db
    (∃ pass ∈ (replicatePasses m fid opts (multipleHostsClass pol minFree min) out onDevs).getLast?,
        (pass.request m (multipleHostsClass pol minFree min)).isHappy = true) ∧
      run.1 = .returned (if missing = 0 then .lostRace else .success) ∧
      (∃ added, run.2.devidsOf fid = db.devidsOf fid ++ added ∧ added.length = missing) ∧
      pol.effectiveMin min ≤ countHosts (aliveCopies opts m (run.2.devidsOf fid)) := by
  obtain ⟨hmap, hmem⟩ := mapM_ofDevid hdevs
  have hready : Ready minFree (pol.effectiveMin min) opts m (startState opts onDevs) :=
    ⟨noFailures_startState hmem ((hmap ▸ db.nodup_devidsOf fid).of_map _), henough⟩
  obtain ⟨added, st', hadded, hready', hnone, honDevs, hlen, hlast, hresult, hdevids⟩ :=
    (fills_multipleHosts pol minFree min fid opts hstates hstarts.1).replicate hready hlock hrow hcls hdevs
      hstarts hcopy
  have halive : aliveCopies opts m (db.devidsOf fid) = onDevs.filter (told opts) := by
    rw [← hmap, aliveCopies_map hstates hmem]
  have hfinal : ∀ d ∈ onDevs ++ added, d ∈ m.devices := fun d hd =>
    (List.mem_append.mp hd).elim (hmem d) (hadded d)
  intro missing run
  have hmissing : missing = pol.effectiveMin min - countHosts (startState opts onDevs).onDevsTellpol := by
    show pol.effectiveMin min - countHosts (aliveCopies opts m (db.devidsOf fid)) = _
    rw [halive]
    rfl
  rw [hmissing]
  refine ⟨hlast, hresult, ⟨added.map Device.devid, ?_, by rw [List.length_map, hlen]⟩, ?_⟩
  · rw [hdevids, List.map_append, hmap]
  · rw [hdevids, aliveCopies_map hstates hfinal, ← honDevs, ← hready'.tellpol_eq]
    omega

/-- A file on `d1` alone: one copy is missing, and `d3` gets it. -/
theorem oneCopy_converges :
    let db : Db := { onD1D3 with fileOn := ⟨[(1, 1)], by decide⟩ }
    let run := (replicate twoHosts (fun _ => some twoCopies) allCopied 1 none ⟨none, [], []⟩).exec db
    run.1 = .returned .success ∧ 2 ≤ countHosts (aliveCopies ⟨none, [], []⟩ twoHosts (run.2.devidsOf 1)) := by
  intro db run
  obtain ⟨row, hrow⟩ : ∃ row, (none <|> db.file.find? 1) = some row := ⟨_, rfl⟩
  have hdevs : (db.devidsOf 1).mapM twoHosts.ofDevid = some [upDevice 1 1] := by decide
  let classOf : FileRow → Option ReplClass := fun _ => some twoCopies
  have hcls : classOf row = some (multipleHostsClass ⟨0⟩ 100 2) := rfl
  have hstarts : StartsLoop ⟨none, [], []⟩ [upDevice 1 1] := by decide
  have henough : (⟨0⟩ : MultipleHosts).effectiveMin 2 ≤
      countHosts (candidates 100 ⟨none, [], []⟩ twoHosts [upDevice 1 1]) := by decide +kernel
  obtain ⟨-, hresult, -, hspread⟩ := replicate_converges (by decide) (rfl : allCopied.gotLock = some true)
    hrow hcls hdevs hstarts (fun _ => rfl) henough
  exact ⟨hresult, hspread⟩

end Call

end Ylem
