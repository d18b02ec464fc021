import Ylem.Worker.Replicate

/-!
# Rebalancing and the MultipleHosts policy

When does `rebalance_devfid` leave a file that `MultipleHosts` was happy with in a state that it is
unhappy with? The replica is destroyed after two results of `replicate`: success, where the policy has
just been happy without the replica, and a lost race, which also stands for "all the ideal suggestions
are masked or to be avoided". The second is the dangerous one.

`CopyInv` describes the copy loop: the new copies are on usable devices and are told to the policy and to
the database alike. At a masked exit the policy is unhappy with what it was told; that the same
suggestion was already masked in the first pass is `ideal_first`, and it turns on the counting in
`Happy`: a policy that was happy with the replica to be moved cannot have run out of hosts without being
happy. For the converse, every copy that is not blocked fails at its destination until only blocked
suggestions are left (`copyLoop_destErrors`).
-/

namespace Ylem

open MultipleHosts

/-- The devices of a list of devids whose state should have files. -/
def copiesOn (m : DeviceMap) (devids : List ℕ) : List Device :=
  (devids.filterMap m.ofDevid).filter fun d => d.status.shouldHaveFiles

section Devids

variable {m : DeviceMap}

theorem filterMap_ofDevid {on : List Device} (hmem : ∀ d ∈ on, d ∈ m.devices) :
    (on.map Device.devid).filterMap m.ofDevid = on := by
  induction on with
  | nil => rfl
  | cons d on ih =>
    rw [List.map_cons, List.filterMap_cons, DeviceMap.ofDevid_devid (hmem d List.mem_cons_self)]
    exact congrArg (d :: ·) (ih fun x hx => hmem x (List.mem_cons_of_mem _ hx))

theorem copiesOn_map {on : List Device} (hmem : ∀ d ∈ on, d ∈ m.devices) :
    copiesOn m (on.map Device.devid) = on.filter fun d => d.status.shouldHaveFiles := by
  rw [copiesOn, filterMap_ofDevid hmem]

theorem mapM_ofDevid {devids : List ℕ} {on : List Device} (h : devids.mapM m.ofDevid = some on) :
    on.map Device.devid = devids ∧ ∀ d ∈ on, d ∈ m.devices := by
  induction devids generalizing on with
  | nil =>
    simp only [List.mapM_nil, Option.pure_def, Option.some.injEq] at h
    subst h
    simp
  | cons devid devids ih =>
    simp only [List.mapM_cons, Option.bind_eq_bind, Option.bind_eq_some_iff, Option.pure_def,
      Option.some.injEq] at h
    obtain ⟨d, hd, rest, hrest, rfl⟩ := h
    obtain ⟨hmem, rfl⟩ := DeviceMap.ofDevid_eq_some.mp hd
    obtain ⟨rfl, hall⟩ := ih hrest
    exact ⟨rfl, by simpa using ⟨hmem, hall⟩⟩

theorem mapM_ofDevid_of_forall {devids : List ℕ}
    (h : ∀ devid ∈ devids, ∃ d, m.ofDevid devid = some d) : ∃ on, devids.mapM m.ofDevid = some on := by
  induction devids with
  | nil => exact ⟨[], rfl⟩
  | cons devid devids ih =>
    obtain ⟨d, hd⟩ := h devid List.mem_cons_self
    obtain ⟨on, hon⟩ := ih fun x hx => h x (List.mem_cons_of_mem _ hx)
    exact ⟨d :: on, by simp [List.mapM_cons, hd, hon]⟩

end Devids

/-! ### The policy in the loop -/

theorem suggestsDests_multipleHosts (self : MultipleHosts) (minFree : ℕ) (m : DeviceMap) :
    SuggestsDests minFree m (self.replicateTo minFree) :=
  .of_copyTo fun _ _ _ _ _ _ h d => ((exact_of_copyTo h).mem_iff d).mp

section Ideally

variable {self : MultipleHosts} {minFree min : ℕ} {draws : ℕ → Draw} {m : DeviceMap}
  {on : List Device} {failed : List ℕ}

variable (draws) in
theorem mem_ideally_iff (h : ¬ Happy m (self.effectiveMin min) on) {d : Device} :
    d ∈ (self.replicateTo minFree draws on m failed min).copyToOneOfIdeally ↔
      Ideal minFree m on failed d := by
  obtain ⟨ideal, desp, hideal, -, hrr | ⟨hrr, hnil⟩⟩ :=
    replicateTo_of_not_happy minFree draws failed h
  · rw [hrr]
    exact hideal d
  · rw [hrr, ← hideal, hnil]
    rfl

end Ideally

/-! ### The counting -/

section Counting

variable {minFree min x : ℕ} {m : DeviceMap} {on added : List Device} {failed : List ℕ}

/-- The copies without those on device `x`. -/
def without (x : ℕ) (on : List Device) : List Device := on.filter fun d => d.devid ≠ x

theorem without_subset : without x on ⊆ on := fun _ h => List.mem_of_mem_filter h

theorem without_append (on added : List Device) :
    without x (on ++ added) = without x on ++ without x added := by
  simp [without]

theorem length_le_without (h : (on.map Device.devid).Nodup) : on.length ≤ (without x on).length + 1 := by
  have hcount : (on.map Device.devid).count x ≤ 1 := List.nodup_iff_count_le_one.mp h x
  have hsplit : on.length = on.countP (fun d => d.devid = x) + on.countP (fun d => d.devid ≠ x) := by
    simpa using List.length_eq_countP_add_countP (fun d : Device => d.devid = x) (l := on)
  have heq : on.countP (fun d => d.devid = x) = (on.map Device.devid).count x := by
    rw [List.count, List.countP_map]
    rfl
  rw [without, ← List.countP_eq_length_filter]
  omega

theorem countHosts_le_without (h : (on.map Device.devid).Nodup) :
    countHosts on ≤ countHosts (without x on) + 1 := by
  by_cases hx : ∃ d ∈ on, d.devid = x
  · obtain ⟨d, hd, rfl⟩ := hx
    have hsub : on ⊆ d :: without d.devid on := by
      intro e he
      by_cases heq : e.devid = d.devid
      · rw [List.inj_on_of_nodup_map h he hd heq]
        exact List.mem_cons_self
      · exact List.mem_cons_of_mem _ (List.mem_filter.mpr ⟨he, by simpa using heq⟩)
    exact (countHosts_mono hsub).trans (countHosts_cons_le _ _)
  · have hall : without x on = on := List.filter_eq_self.mpr fun d hd => by
      simpa using fun heq => hx ⟨d, hd, heq⟩
    rw [hall]
    omega

variable (hnodup : (on.map Device.devid).Nodup) (hcopies : Copies m (on ++ added))
  (hhappy : Happy m min on) (hunhappy : ¬ Happy m min (without x on ++ added))
include hnodup hcopies hhappy hunhappy

/-- If a happy policy is unhappy without `x`, even after the copies in `added`, an ideal suggestion then
was an ideal suggestion at the start. -/
theorem ideal_first {d : Device} (hideal : Ideal minFree m (without x on ++ added) failed d) :
    Ideal minFree m (without x on) [] d := by
  have hlen := length_le_without (x := x) hnodup
  have hhosts := countHosts_le_without (x := x) hnodup
  have hmore := countHosts_append_le (without x on) added
  have htotal := hcopies.length_le
  have hlen' : (without x on ++ added).length = (without x on).length + added.length :=
    List.length_append
  rw [List.length_append] at htotal
  refine ⟨⟨hideal.mem, fun h => hideal.not_on ?_, List.not_mem_nil, hideal.getRepl, hideal.free⟩, ?_⟩
  · rw [List.map_append]
    exact List.mem_append_left _ h
  · intro hfew hmem
    by_cases hstill : countHosts (without x on ++ added) < uniqueHosts m
    · refine hideal.not_skipped hstill ?_
      rw [List.map_append]
      exact List.mem_append_left _ hmem
    · simp only [Happy, ne_eq, ← List.length_eq_zero_iff] at hhappy hunhappy
      omega

omit hcopies in
theorem without_ne_nil (hadded : added ≠ []) : without x on ≠ [] := by
  intro hnil
  have hlen := length_le_without (x := x) hnodup
  have hhosts := countHosts_le_length on
  have hpos := List.length_pos_iff.mpr hadded
  have hzero : (without x on).length = 0 := by rw [hnil]; rfl
  simp only [Happy, ne_eq, ← List.length_eq_zero_iff, List.length_append] at hhappy hunhappy
  omega

end Counting

/-! ### The loop under MultipleHosts -/

section Loop

variable {self : MultipleHosts} {minFree min fid : ℕ} {m : DeviceMap} {opts : ReplOpts}
  {onUpDevid : List ℕ} {round : Round} {st st' : CopyState}

/-- The class of the file: `MultipleHosts` with a copy count. -/
def multipleHostsClass (self : MultipleHosts) (minFree min : ℕ) : ReplClass :=
  ⟨min, self.replicateTo minFree⟩

theorem isHappy_false_iff {draws : ℕ → Draw} {on : List Device} {failed : List ℕ} :
    (self.replicateTo minFree draws on m failed min).isHappy = false ↔
      ¬ Happy m (self.effectiveMin min) on := by
  rw [← happy_iff minFree draws failed, Bool.not_eq_true]

theorem suggestsDests_multipleHostsClass (self : MultipleHosts) (minFree min : ℕ) (m : DeviceMap) :
    SuggestsDests minFree m (multipleHostsClass self minFree min).policy :=
  suggestsDests_multipleHosts self minFree m

theorem suggestsDevices_multipleHostsClass (self : MultipleHosts) (minFree min : ℕ) (m : DeviceMap) :
    SuggestsDevices m (multipleHostsClass self minFree min).policy :=
  (suggestsDests_multipleHosts self minFree m).suggestsDevices

theorem copyStep_exit {status : ReplStatus}
    (h : copyStep m fid opts (multipleHostsClass self minFree min) onUpDevid round st =
      .exit (.returned status)) :
    (∃ code msg, status = .failure code msg) ∨
      (Happy m (self.effectiveMin min) st.onDevsTellpol ∧ (status = .success ∨ status = .lostRace)) ∨
      (status = .lostRace ∧ ¬ Happy m (self.effectiveMin min) st.onDevsTellpol ∧
        ∃ d, Ideal minFree m st.onDevsTellpol st.destFailed d ∧
          (d.devid ∈ opts.maskDevids ∨ d.devid ∈ opts.avoidDevids)) := by
  rcases copyStep_cases m fid opts (multipleHostsClass self minFree min) onUpDevid round st rfl with
    ⟨hhappy, hstep⟩ | ⟨hunhappy, hmasked, hstep⟩ | ⟨result, hresult, hstep⟩ |
      ⟨-, ddevid, -, -, -, hprogress⟩
  · rw [hstep] at h
    cases h
    refine .inr (.inl ⟨(happy_iff _ _ _).mp hhappy, ?_⟩)
    cases st.gotCopyRequest
    · exact .inr rfl
    · exact .inl rfl
  · rw [hstep] at h
    cases h
    have hnot := isHappy_false_iff.mp hunhappy
    obtain ⟨hne, hall⟩ := chooseDest_masked hmasked
    obtain ⟨d, hd⟩ := List.exists_mem_of_ne_nil _ hne
    exact .inr (.inr ⟨rfl, hnot, d, (mem_ideally_iff _ hnot).mp hd, hall d hd⟩)
  · rw [hstep] at h
    cases h
    cases hresult
    exact .inl ⟨_, _, rfl⟩
  · rw [h] at hprogress
    cases hprogress

/-- The state of the loop after the copies in `added`: the policy and the database know them. -/
structure CopyInv (m : DeviceMap) (fid : ℕ) (onDevs told added : List Device) (st : CopyState) (db : Db) :
    Prop where
  onDevs_eq : st.onDevs = onDevs ++ added
  tellpol_eq : st.onDevsTellpol = told ++ added
  devids_eq : db.devidsOf fid = st.onDevs.map Device.devid
  mem : ∀ d ∈ st.onDevs, d ∈ m.devices
  nodup : (st.onDevs.map Device.devid).Nodup
  shouldHave : ∀ d ∈ added, d.status.shouldHaveFiles = true

theorem CopyInv.copied {onDevs told added : List Device} {db : Db} {ddev : Device}
    (h : CopyInv m fid onDevs told added st db)
    (hstep : copyStep m fid opts (multipleHostsClass self minFree min) onUpDevid round st =
      .copied ddev st') :
    CopyInv m fid onDevs told (added ++ [ddev]) st' ((addToDb none fid ddev.devid).exec db).2 := by
  obtain ⟨hon, htell, hmem, hshould, hnew⟩ := (suggestsDests_multipleHostsClass self minFree min m).copyStep_next.2 ddev hstep
  have hnewdb : ddev.devid ∉ db.devidsOf fid := by rwa [h.devids_eq]
  refine ⟨by rw [hon, h.onDevs_eq, List.append_assoc], by rw [htell, h.tellpol_eq, List.append_assoc],
    by rw [devidsOf_addToDb none hnewdb, h.devids_eq, hon, List.map_append, List.map_singleton], ?_, ?_, ?_⟩
  · rw [hon]
    simpa [or_imp, forall_and] using ⟨h.mem, hmem⟩
  · rw [hon, List.map_append, List.map_singleton, List.nodup_append_comm]
    exact List.nodup_cons.mpr ⟨hnew, h.nodup⟩
  · simpa [or_imp, forall_and] using ⟨h.shouldHave, hshould⟩

theorem CopyInv.retry {onDevs told added : List Device} {db : Db}
    (h : CopyInv m fid onDevs told added st db)
    (hstep : copyStep m fid opts (multipleHostsClass self minFree min) onUpDevid round st = .retry st') :
    CopyInv m fid onDevs told added st' db := by
  obtain ⟨hon, htell⟩ := (suggestsDests_multipleHostsClass self minFree min m).copyStep_next.1 hstep
  exact ⟨hon.trans h.onDevs_eq, htell.trans h.tellpol_eq, by rw [hon]; exact h.devids_eq,
    by rw [hon]; exact h.mem, by rw [hon]; exact h.nodup, h.shouldHave⟩

/-- What the loop says when it returns. -/
structure LoopResult (m : DeviceMap) (minFree min : ℕ) (opts : ReplOpts) (st : CopyState)
    (result : ReplResult) : Prop where
  ended : result ≠ .running
  returned : ∀ status, result = .returned status →
    (∃ code msg, status = .failure code msg) ∨
      (Happy m min st.onDevsTellpol ∧ (status = .success ∨ status = .lostRace)) ∨
      (status = .lostRace ∧ ¬ Happy m min st.onDevsTellpol ∧
        ∃ d, Ideal minFree m st.onDevsTellpol st.destFailed d ∧
          (d.devid ∈ opts.maskDevids ∨ d.devid ∈ opts.avoidDevids))

theorem loopResult_of_failed {min : ℕ} {result : ReplResult} (h : ReplResult.Failed result) :
    LoopResult m minFree min opts st result := by
  refine ⟨Failed_ne_running h, ?_⟩
  rintro status rfl
  cases h
  exact .inl ⟨_, _, rfl⟩

theorem LoopResult.ne_nofid {min : ℕ} {result : ReplResult} (h : LoopResult m minFree min opts st result) :
    result ≠ .returned .nofid := by
  intro heq
  rcases h.returned .nofid heq with ⟨_, _, hstatus⟩ | ⟨-, hstatus | hstatus⟩ | ⟨hstatus, -⟩ <;>
    cases hstatus

theorem replicateOn_unreadable {out : Outcomes} {cls : ReplClass} {onDevs : List Device}
    (h : onDevs.filter (fun d => d.status.canReadFrom) = []) (db : Db) :
    ∃ code msg, (replicateOn m out fid opts cls onDevs).exec db = (.returned (.failure code msg), db) := by
  unfold replicateOn
  simp only [h, List.map_nil, List.isEmpty_nil, if_true]
  split_ifs
  · exact ⟨_, _, rfl⟩
  · exact ⟨_, _, rfl⟩

variable (m fid) in
theorem replicateOn_spec (self : MultipleHosts) (minFree min : ℕ) (out : Outcomes) (opts : ReplOpts)
    {onDevs : List Device} {db : Db} (hon : onDevs.map Device.devid = db.devidsOf fid)
    (hmem : ∀ d ∈ onDevs, d ∈ m.devices) :
    ∃ added st, CopyInv m fid onDevs
        (onDevs.filter fun d => d.status.shouldHaveFiles && !opts.maskDevids.contains d.devid) added st
        ((replicateOn m out fid opts (multipleHostsClass self minFree min) onDevs).exec db).2 ∧
      LoopResult m minFree (self.effectiveMin min) opts st
        ((replicateOn m out fid opts (multipleHostsClass self minFree min) onDevs).exec db).1 := by
  set told := onDevs.filter fun d => d.status.shouldHaveFiles && !opts.maskDevids.contains d.devid
    with htold
  have hstart : CopyInv m fid onDevs told [] ⟨onDevs, told, [], [], false, none⟩ db :=
    ⟨by simp, by simp, hon.symm, hmem, by rw [hon]; exact db.nodup_devidsOf fid, by simp⟩
  unfold replicateOn
  dsimp only
  rw [← htold]
  split_ifs with hnone hup hfixed
  · exact ⟨[], _, hstart, loopResult_of_failed (.failure _ _)⟩
  · exact ⟨[], _, hstart, loopResult_of_failed (.failure _ _)⟩
  · exact ⟨[], _, hstart, loopResult_of_failed (.failure _ _)⟩
  · have hended := copyLoop_ne_running fid opts _ (suggestsDevices_multipleHostsClass self minFree min m)
      out.rounds (left_lt_replicateFuel m onDevs ⟨onDevs, told, [], [], false, none⟩) db
    obtain ⟨st', ⟨added, hinv⟩, hend⟩ := copyLoop_inv m fid opts (multipleHostsClass self minFree min)
      ((onDevs.filter fun d => d.status.canReadFrom).map Device.devid) (R := fun _ => True)
      (I := fun st db => ∃ added, CopyInv m fid onDevs told added st db)
      (fun round st st' db _ ⟨added, h⟩ hstep => ⟨added, h.retry hstep⟩)
      (fun round st ddev st' db _ ⟨added, h⟩ hstep => ⟨added ++ [ddev], h.copied hstep⟩)
      (replicateFuel m onDevs) out.rounds (fun _ => trivial) _ _ ⟨[], hstart⟩
    refine ⟨added, st', hinv, hended, fun status hstatus => ?_⟩
    rcases hend with hrun | ⟨round, -, hexit⟩
    · exact absurd hrun hended
    · rw [hstatus] at hexit
      exact copyStep_exit hexit

/-! ### Copies that all fail at their destination -/

/-- The state of a loop whose copies have all failed at their destination. -/
structure AllFailed (opts : ReplOpts) (onDevs told : List Device) (st : CopyState) : Prop where
  onDevs_eq : st.onDevs = onDevs
  tellpol_eq : st.onDevsTellpol = told
  sources : st.sourceFailed = []
  unblocked : ∀ devid ∈ st.destFailed, devid ∉ opts.maskDevids ∧ devid ∉ opts.avoidDevids

section AllFailed

variable {onDevs told : List Device} {blocked : Device}

/-- A blocked suggestion is never tried, so that it stays a suggestion. -/
theorem AllFailed.ideal (h : AllFailed opts onDevs told st) (hideal : Ideal minFree m told [] blocked)
    (hblocked : blocked.devid ∈ opts.maskDevids ∨ blocked.devid ∈ opts.avoidDevids) :
    Ideal minFree m st.onDevsTellpol st.destFailed blocked := by
  rw [h.tellpol_eq]
  refine ⟨⟨hideal.mem, hideal.not_on, fun hin => ?_, hideal.getRepl, hideal.free⟩, hideal.not_skipped⟩
  rcases hblocked with hmask | havoid
  · exact (h.unblocked _ hin).1 hmask
  · exact (h.unblocked _ hin).2 havoid

variable (hmem : ∀ d ∈ onDevs, d ∈ m.devices)
  (htold : told = onDevs.filter fun d => d.status.shouldHaveFiles && !opts.maskDevids.contains d.devid)
  (hunhappy : ¬ Happy m (self.effectiveMin min) told) (hideal : Ideal minFree m told [] blocked)
  (hblocked : blocked.devid ∈ opts.maskDevids ∨ blocked.devid ∈ opts.avoidDevids)
include hmem htold hunhappy hideal hblocked

variable (fid min round) in
/-- As long as a blocked suggestion is left, another copy that fails at its destination leads to the next
pass or to a lost race. -/
theorem AllFailed.step (h : AllFailed opts onDevs told st) (hcopy : round.copy = .destError)
    (hup : onUpDevid ≠ []) :
    copyStep m fid opts (multipleHostsClass self minFree min) onUpDevid round st =
        .exit (.returned .lostRace) ∨
      ∃ st', AllFailed opts onDevs told st' ∧
        copyStep m fid opts (multipleHostsClass self minFree min) onUpDevid round st = .retry st' := by
  have hunhappy' : ¬ Happy m (self.effectiveMin min) st.onDevsTellpol := by rwa [h.tellpol_eq]
  have hsome := (mem_ideally_iff round.weights hunhappy').mpr (h.ideal hideal hblocked)
  rw [copyStep_of_no_error (by rw [multipleHostsClass]; exact error_eq_none _ _ _ _ _ _)]
  simp only [multipleHostsClass, isHappy_false_iff.mpr hunhappy', Bool.false_eq_true, if_false]
  cases hchoice : chooseDest opts
      (self.replicateTo minFree round.weights st.onDevsTellpol m st.destFailed min) with
  | masked => exact .inl rfl
  | exhausted => exact absurd hsome (by rw [chooseDest_exhausted hchoice]; exact List.not_mem_nil)
  | dest ddevid =>
    rcases chooseDest_dest hchoice with ⟨d, hd, rfl, hmask, havoid⟩ | ⟨hnil, -⟩
    · have hideald := (mem_ideally_iff _ hunhappy').mp hd
      have hfailed : st.destFailed.contains d.devid = false := by simpa using hideald.not_failed
      have hon : (st.onDevs.map Device.devid).contains d.devid = false := by
        rw [List.contains_eq_mem, decide_eq_false_iff_not, h.onDevs_eq]
        intro hin
        obtain ⟨e, he, heq⟩ := List.mem_map.mp hin
        have hsame : e = d := DeviceMap.eq_of_devid (hmem e he) hideald.mem heq
        subst hsame
        have hshould := DeviceState.shouldHaveFiles_of_getRepl
          (Device.shouldGetReplFiles_of_shouldGetReplicatedFiles hideald.getRepl)
        have hin : e ∈ st.onDevsTellpol := by
          rw [h.tellpol_eq, htold]
          exact List.mem_filter.mpr ⟨he, by simp [hshould, hmask]⟩
        exact hideald.not_on (List.mem_map_of_mem hin)
      obtain ⟨sdevid, hsource⟩ := Option.isSome_iff_exists.mp
        (chooseSource_isSome opts round.source { st with gotCopyRequest := true } hup h.sources)
      refine .inr ⟨{ st with
        gotCopyRequest := true, destFailed := d.devid :: st.destFailed, copyErr := some .destError },
        ⟨h.onDevs_eq, h.tellpol_eq, h.sources, by simpa using ⟨⟨hmask, havoid⟩, h.unblocked⟩⟩, ?_⟩
      simp only [copyTo, hfailed, hon, hsource, copyFrom, hcopy, CopyOutcome.code, copyFailed,
        Bool.false_eq_true, if_false]
    · exact absurd hsome (by rw [hnil]; exact List.not_mem_nil)

variable (m fid self min opts) in
theorem replicateOn_destErrors (out : Outcomes) (hout : ∀ n, (out.rounds n).copy = .destError)
    (hfree : opts.sourceDevid = none) (hup : (onDevs.filter fun d => d.status.canReadFrom) ≠ [])
    (db : Db) :
    (replicateOn m out fid opts (multipleHostsClass self minFree min) onDevs).exec db =
      (.returned .lostRace, db) := by
  have hne : onDevs ≠ [] := fun hnil => hup (by rw [hnil]; rfl)
  have hup' : (onDevs.filter fun d => d.status.canReadFrom).map Device.devid ≠ [] := by simpa using hup
  have hstep : ∀ {round : Round} {st : CopyState}, round.copy = .destError →
      AllFailed opts onDevs told st → _ := fun {round} _ hcopy h =>
    AllFailed.step min fid round hmem htold hunhappy hideal hblocked h hcopy hup'
  unfold replicateOn
  dsimp only
  rw [← htold, if_neg (by simpa using hne), if_neg (by simpa using hup'), if_neg (by simp [hfree])]
  obtain ⟨st', ⟨hdb, hall⟩, hend⟩ := copyLoop_inv m fid opts
    (multipleHostsClass self minFree min) ((onDevs.filter fun d => d.status.canReadFrom).map Device.devid)
    (R := fun round => round.copy = .destError)
    (I := fun st db' => db' = db ∧ AllFailed opts onDevs told st)
    (by
      rintro round st st' db' hcopy ⟨hdb, hall⟩ hretry
      rcases hstep hcopy hall with hexit | ⟨st'', hall', hretry'⟩
      · rw [hexit] at hretry
        cases hretry
      · rw [hretry'] at hretry
        cases hretry
        exact ⟨hdb, hall'⟩)
    (by
      rintro round st ddev st' db' hcopy ⟨-, hall⟩ hcopied
      rcases hstep hcopy hall with hexit | ⟨st'', -, hretry⟩
      · rw [hexit] at hcopied
        cases hcopied
      · rw [hretry] at hcopied
        cases hcopied)
    (replicateFuel m onDevs) out.rounds hout
    ⟨onDevs, told, [], [], false, none⟩ db ⟨rfl, rfl, rfl, rfl, by simp⟩
  refine Prod.ext ?_ hdb
  rcases hend with hrun | ⟨round, hcopy, hexit⟩
  · exact absurd hrun (copyLoop_ne_running fid opts _ (suggestsDevices_multipleHostsClass self minFree min m) _
      (left_lt_replicateFuel m onDevs _) db)
  · rcases hstep hcopy hall with hexit' | ⟨st'', -, hretry⟩
    · rw [hexit'] at hexit
      exact (CopyStep.exit.inj hexit).symm
    · rw [hretry] at hexit
      cases hexit

end AllFailed

end Loop

/-! ### rebalance_devfid -/

section Rebalance

variable {m : DeviceMap} {classOf : FileRow → Option ReplClass} {out : Outcomes} {fid devid : ℕ}

theorem someOtherMatches_spec {devids : List ℕ} (h : someOtherMatches out devid devids = some true) :
    ∃ other ∈ devids, other ≠ devid := by
  induction devids with
  | nil => cases h
  | cons testDevid devids ih =>
    rw [someOtherMatches] at h
    split_ifs at h with heq
    · obtain ⟨other, hmem, hne⟩ := ih h
      exact ⟨other, List.mem_cons_of_mem _ hmem, hne⟩
    · exact ⟨testDevid, List.mem_cons_self, heq⟩

theorem someOtherMatches_of_sizes {devids : List ℕ} (hsizes : ∀ d, out.sizeMatches d = some true)
    (hother : ∃ other ∈ devids, other ≠ devid) : someOtherMatches out devid devids = some true := by
  induction devids with
  | nil =>
    obtain ⟨other, hmem, -⟩ := hother
    cases hmem
  | cons testDevid devids ih =>
    rw [someOtherMatches]
    split_ifs with heq
    · obtain ⟨other, hmem, hne⟩ := hother
      refine ih ⟨other, (List.mem_cons.mp hmem).resolve_left ?_, hne⟩
      rintro rfl
      exact hne heq
    · rw [hsizes]

variable (out fid devid) in
theorem devidsOf_destroy (db : Db) :
    ((destroy out fid devid).exec db).1 ≠ .running ∧
      (((destroy out fid devid).exec db).2.devidsOf fid = db.devidsOf fid ∨
        ((destroy out fid devid).exec db).2.devidsOf fid = (db.devidsOf fid).filter fun d => !(d == devid)) := by
  unfold destroy
  split_ifs
  · exact ⟨by simp, .inr (devidsOf_deleteFileOn fid devid db)⟩
  · exact ⟨by simp, .inl rfl⟩

variable (out fid devid) in
theorem afterReplicate_spec {result : ReplResult} (hended : result ≠ .running)
    (hnofid : result ≠ .returned .nofid) (db : Db) :
    ((afterReplicate out fid devid result).exec db).1 ≠ .running ∧
      (((afterReplicate out fid devid result).exec db).2.devidsOf fid = db.devidsOf fid ∨
        (((afterReplicate out fid devid result).exec db).2.devidsOf fid =
            (db.devidsOf fid).filter fun d => !(d == devid)) ∧
          (result = .returned .success ∨ result = .returned .lostRace ∧
            ∃ other ∈ db.devidsOf fid, other ≠ devid)) := by
  cases result with
  | died => exact ⟨by simp [afterReplicate], .inl rfl⟩
  | running => exact absurd rfl hended
  | returned status =>
    cases status with
    | failure => exact ⟨by simp [afterReplicate], .inl rfl⟩
    | nofid => exact absurd rfl hnofid
    | success =>
      obtain ⟨hrun, hdb⟩ := devidsOf_destroy out fid devid db
      exact ⟨hrun, hdb.imp id fun h => ⟨h, .inl rfl⟩⟩
    | lostRace =>
      simp only [afterReplicate, DbProg.exec, Prog.exec_bind, Prog.exec_issue, Stmt.run]
      by_cases hin : (db.devidsOf fid).contains devid = true
      · simp only [hin, if_true, Prog.exec_bind, Prog.exec_issue, Stmt.run]
        cases hmatch : someOtherMatches out devid (db.devidsOf fid) with
        | none => exact ⟨by simp, .inl rfl⟩
        | some b =>
          cases b with
          | false => exact ⟨by simp, .inl rfl⟩
          | true =>
            obtain ⟨hrun, hdb⟩ := devidsOf_destroy out fid devid db
            exact ⟨hrun, hdb.imp id fun h => ⟨h, .inr ⟨trivial, someOtherMatches_spec hmatch⟩⟩⟩
      · simp only [hin, if_false, Bool.false_eq_true]
        exact ⟨by simp, .inl rfl⟩

theorem replicate_exec {row : FileRow} {opts : ReplOpts} {cls : ReplClass} {onDevs : List Device} {db : Db}
    (hlock : out.gotLock = some true) (hcls : classOf row = some cls)
    (hdevs : (db.devidsOf fid).mapM m.ofDevid = some onDevs) :
    (replicate m classOf out fid (some row) opts).exec db =
      (replicateOn m out fid opts cls onDevs).exec db := by
  unfold replicate
  simp only [hlock, hcls, Prog.pure_eq, Prog.ret_bind, DbProg.exec, Prog.exec_bind, Prog.exec_issue,
    Stmt.run, hdevs]

variable (m classOf out fid) in
theorem replicate_cases (row : FileRow) (opts : ReplOpts) (db : Db) :
    (((replicate m classOf out fid (some row) opts).exec db).2 = db ∧
        ReplResult.Failed ((replicate m classOf out fid (some row) opts).exec db).1) ∨
      ∃ cls onDevs, classOf row = some cls ∧ (db.devidsOf fid).mapM m.ofDevid = some onDevs ∧
        (replicate m classOf out fid (some row) opts).exec db =
          (replicateOn m out fid opts cls onDevs).exec db := by
  match hlock : out.gotLock with
  | none =>
    refine .inl ?_
    simp only [replicate, hlock]
    exact ⟨rfl, .died _⟩
  | some false =>
    refine .inl ?_
    simp only [replicate, hlock]
    exact ⟨rfl, .failure _ _⟩
  | some true =>
    cases hcls : classOf row with
    | none =>
      refine .inl ?_
      simp only [replicate, hlock, hcls, Prog.pure_eq, Prog.ret_bind]
      exact ⟨rfl, .died _⟩
    | some cls =>
      cases hdevs : (db.devidsOf fid).mapM m.ofDevid with
      | none =>
        refine .inl ?_
        simp only [replicate, hlock, hcls, Prog.pure_eq, Prog.ret_bind, DbProg.exec, Prog.exec_bind,
          Prog.exec_issue, Stmt.run, hdevs]
        exact ⟨rfl, .died _⟩
      | some onDevs => exact .inr ⟨cls, onDevs, rfl, rfl, replicate_exec hlock hcls hdevs⟩

theorem copiesOn_filter {on : List Device} (hmem : ∀ d ∈ on, d ∈ m.devices) :
    copiesOn m ((on.map Device.devid).filter fun d => !(d == devid)) =
      without devid (on.filter fun d => d.status.shouldHaveFiles) := by
  have hmap : (on.map Device.devid).filter (fun d => !(d == devid)) =
      (without devid on).map Device.devid := by
    rw [List.filter_map, without]
    congr 1
    refine List.filter_congr fun d _ => ?_
    simp [beq_eq_decide]
  rw [hmap, copiesOn_map fun d hd => hmem d (without_subset hd), without, without, List.filter_comm]

theorem told_eq_without (on : List Device) :
    (on.filter fun d => d.status.shouldHaveFiles && !([devid] : List ℕ).contains d.devid) =
      without devid (on.filter fun d => d.status.shouldHaveFiles) := by
  rw [without, List.filter_filter]
  refine List.filter_congr fun d _ => ?_
  rw [Bool.and_comm]
  simp

theorem copies_of_nodup {on : List Device} (hmem : ∀ d ∈ on, d ∈ m.devices)
    (hnodup : (on.map Device.devid).Nodup) : Copies m (on.filter fun d => d.status.shouldHaveFiles) where
  nodup := (List.Nodup.of_map _ hnodup).filter _
  mem d hd := hmem d (List.mem_of_mem_filter hd)
  shouldHave _ hd := (List.mem_filter.mp hd).2

end Rebalance

section Verdict

variable (pol : MultipleHosts) (minFree min : ℕ) (m : DeviceMap) (draws : ℕ → Draw)

/-- The policy, asked with the copies on these devids whose state should have files, is happy. -/
def policyHappy (devids : List ℕ) : Bool :=
  (pol.replicateTo minFree draws (copiesOn m devids) m [] min).isHappy

/-- The situation in which the masked exit of `replicate` costs a needed replica: the policy is happy
with the replica and unhappy without it, and one of the ideal suggestions it then has is the device
itself or a device to be avoided. -/
structure MaskTrap (db : Db) (fid devid : ℕ) (avoidDevids : List ℕ) : Prop where
  fid_ne : fid ≠ 0
  exists_file : db.file.Has fid
  known : ∀ d ∈ db.devidsOf fid, ∃ dev, m.ofDevid d = some dev
  readable : ∃ d ∈ db.devidsOf fid, ∃ dev, m.ofDevid d = some dev ∧ dev.status.canReadFrom = true
  replica : devid ∈ db.devidsOf fid
  other : ∃ d ∈ db.devidsOf fid, d ≠ devid
  happy : policyHappy pol minFree min m draws (db.devidsOf fid) = true
  unhappy : policyHappy pol minFree min m draws
    ((db.devidsOf fid).filter fun d => !(d == devid)) = false
  blocked : ∃ d ∈ (pol.replicateTo minFree draws
      (copiesOn m ((db.devidsOf fid).filter fun d => !(d == devid))) m [] min).copyToOneOfIdeally,
    d.devid = devid ∨ d.devid ∈ avoidDevids

variable {pol minFree min m draws}

theorem policyHappy_map {on : List Device} (hmem : ∀ d ∈ on, d ∈ m.devices) :
    policyHappy pol minFree min m draws (on.map Device.devid) = true ↔
      Happy m (pol.effectiveMin min) (on.filter fun d => d.status.shouldHaveFiles) := by
  rw [policyHappy, happy_iff, copiesOn_map hmem]

theorem policyHappy_filter {on : List Device} (hmem : ∀ d ∈ on, d ∈ m.devices) {devid : ℕ} :
    policyHappy pol minFree min m draws ((on.map Device.devid).filter fun d => !(d == devid)) = true ↔
      Happy m (pol.effectiveMin min)
        (without devid (on.filter fun d => d.status.shouldHaveFiles)) := by
  rw [policyHappy, happy_iff, copiesOn_filter hmem]

section Keeps

variable {onDevs added : List Device} {devid fid : ℕ} {avoidDevids : List ℕ} {st : CopyState} {db db' : Db}

theorem CopyInv.filter_onDevs {told : List Device} (h : CopyInv m fid onDevs told added st db') :
    (st.onDevs.filter fun d => d.status.shouldHaveFiles) =
      (onDevs.filter fun d => d.status.shouldHaveFiles) ++ added := by
  rw [h.onDevs_eq, List.filter_append, List.filter_eq_self.mpr h.shouldHave]

theorem CopyInv.nodup_start {told : List Device} (h : CopyInv m fid onDevs told added st db') :
    (onDevs.map Device.devid).Nodup := by
  have hnodup := h.nodup
  rw [h.onDevs_eq, List.map_append] at hnodup
  exact (List.nodup_append.mp hnodup).1

theorem CopyInv.happy_mono {told : List Device} (h : CopyInv m fid onDevs told added st db')
    (hon : ∀ d ∈ onDevs, d ∈ m.devices)
    (hhappy : policyHappy pol minFree min m draws (onDevs.map Device.devid) = true) :
    policyHappy pol minFree min m draws (st.onDevs.map Device.devid) = true := by
  rw [policyHappy_map hon] at hhappy
  rw [policyHappy_map h.mem]
  refine hhappy.mono (copies_of_nodup hon h.nodup_start).nodup ?_ (copies_of_nodup h.mem h.nodup)
  rw [h.filter_onDevs]
  exact List.subset_append_left _ _

theorem CopyInv.without_eq (h : CopyInv m fid onDevs
      (without devid (onDevs.filter fun d => d.status.shouldHaveFiles)) added st db')
    (hreplica : devid ∈ onDevs.map Device.devid) :
    without devid (st.onDevs.filter fun d => d.status.shouldHaveFiles) = st.onDevsTellpol := by
  have hadded : without devid (added.filter fun d => d.status.shouldHaveFiles) = added := by
    rw [without, List.filter_filter]
    refine List.filter_eq_self.mpr fun d hd => ?_
    have hnodup := h.nodup
    rw [h.onDevs_eq, List.map_append] at hnodup
    have hne := (List.nodup_append.mp hnodup).2.2 devid hreplica d.devid (List.mem_map_of_mem hd)
    simpa [h.shouldHave d hd] using hne.symm
  rw [h.onDevs_eq, h.tellpol_eq, List.filter_append, without_append, hadded]

theorem CopyInv.happy_without {told : List Device} (h : CopyInv m fid onDevs told added st db')
    (hon : ∀ d ∈ onDevs, d ∈ m.devices) (hreplica : devid ∉ onDevs.map Device.devid)
    (hhappy : Happy m (pol.effectiveMin min) (onDevs.filter fun d => d.status.shouldHaveFiles)) :
    Happy m (pol.effectiveMin min)
      (without devid (st.onDevs.filter fun d => d.status.shouldHaveFiles)) := by
  have hcopies := copies_of_nodup h.mem h.nodup
  refine hhappy.mono (copies_of_nodup hon h.nodup_start).nodup (fun d hd => ?_)
    ⟨hcopies.nodup.filter _, fun d hd => hcopies.mem d (without_subset hd),
      fun d hd => hcopies.shouldHave d (without_subset hd)⟩
  refine List.mem_filter.mpr ⟨by rw [h.filter_onDevs]; exact List.mem_append_left _ hd, ?_⟩
  simp only [ne_eq, decide_eq_true_eq]
  rintro rfl
  exact hreplica (List.mem_map_of_mem (List.mem_of_mem_filter hd))

theorem CopyInv.trap {failed : List ℕ} {d : Device}
    (h : CopyInv m fid onDevs (without devid (onDevs.filter fun d => d.status.shouldHaveFiles))
      added st db')
    (hhappy : Happy m (pol.effectiveMin min) (onDevs.filter fun d => d.status.shouldHaveFiles))
    (hunhappy : ¬ Happy m (pol.effectiveMin min) st.onDevsTellpol)
    (hideal : Ideal minFree m st.onDevsTellpol failed d)
    (hother : ∃ other ∈ db'.devidsOf fid, other ≠ devid) :
    ¬ Happy m (pol.effectiveMin min) (without devid (onDevs.filter fun d => d.status.shouldHaveFiles)) ∧
      (∃ other ∈ onDevs.map Device.devid, other ≠ devid) ∧
      Ideal minFree m (without devid (onDevs.filter fun d => d.status.shouldHaveFiles)) [] d := by
  set copies := onDevs.filter fun d => d.status.shouldHaveFiles with hcopies
  rw [h.tellpol_eq] at hunhappy hideal
  have hall : Copies m (copies ++ added) := by
    rw [hcopies, ← h.filter_onDevs]
    exact copies_of_nodup h.mem h.nodup
  have hnodup : (copies.map Device.devid).Nodup := (List.filter_sublist.map _).nodup h.nodup_start
  have hsub : without devid copies ++ added ⊆ copies ++ added :=
    List.append_subset.mpr ⟨fun d hd => List.mem_append_left _ (without_subset hd),
      List.subset_append_right _ _⟩
  have htold : Copies m (without devid copies ++ added) :=
    ⟨List.Nodup.sublist (List.filter_sublist.append_right _) hall.nodup,
      fun d hd => hall.mem d (hsub hd), fun d hd => hall.shouldHave d (hsub hd)⟩
  refine ⟨fun hfirst => hunhappy (hfirst.mono ?_ (List.subset_append_left _ _) htold), ?_,
    ideal_first hnodup hall hhappy hunhappy hideal⟩
  · exact (List.nodup_append.mp htold.nodup).1
  · obtain ⟨other, hmem, hne⟩ := hother
    rw [h.devids_eq, h.onDevs_eq, List.map_append, List.mem_append] at hmem
    rcases hmem with hmem | hmem
    · exact ⟨other, hmem, hne⟩
    · have hadded : added ≠ [] := by
        rintro rfl
        cases hmem
      obtain ⟨e, he⟩ := List.exists_mem_of_ne_nil _ (without_ne_nil hnodup hhappy hunhappy hadded)
      obtain ⟨hin, hdiff⟩ := List.mem_filter.mp he
      exact ⟨e.devid, List.mem_map_of_mem (List.mem_of_mem_filter hin), by simpa using hdiff⟩

theorem afterReplicate_happy {out : Outcomes} {result : ReplResult}
    (hon : ∀ d ∈ onDevs, d ∈ m.devices)
    (hinv : CopyInv m fid onDevs (without devid (onDevs.filter fun d => d.status.shouldHaveFiles))
      added st db')
    (hresult : LoopResult m minFree (pol.effectiveMin min) ⟨none, [devid], avoidDevids⟩ st result)
    (hnotrap : ¬ Happy m (pol.effectiveMin min)
        (without devid (onDevs.filter fun d => d.status.shouldHaveFiles)) →
      devid ∈ onDevs.map Device.devid → (∃ other ∈ onDevs.map Device.devid, other ≠ devid) →
      ∀ d, Ideal minFree m (without devid (onDevs.filter fun d => d.status.shouldHaveFiles)) [] d →
        ¬ (d.devid = devid ∨ d.devid ∈ avoidDevids))
    (hhappy : policyHappy pol minFree min m draws (onDevs.map Device.devid) = true) :
    policyHappy pol minFree min m draws
      (((afterReplicate out fid devid result).exec db').2.devidsOf fid) = true := by
  obtain ⟨-, hdb | ⟨hdb, hgone⟩⟩ :=
    afterReplicate_spec out fid devid hresult.ended hresult.ne_nofid db'
  · rw [hdb, hinv.devids_eq]
    exact hinv.happy_mono hon hhappy
  · rw [hdb, hinv.devids_eq, policyHappy_filter hinv.mem]
    have hstart := (policyHappy_map hon).mp hhappy
    by_cases hreplica : devid ∈ onDevs.map Device.devid
    · rw [hinv.without_eq hreplica]
      by_contra hunhappy
      obtain ⟨status, rfl, hother⟩ : ∃ status, result = .returned status ∧
          (status = .success ∨ status = .lostRace ∧ ∃ other ∈ db'.devidsOf fid, other ≠ devid) := by
        rcases hgone with rfl | ⟨rfl, hother⟩
        · exact ⟨_, rfl, .inl rfl⟩
        · exact ⟨_, rfl, .inr ⟨rfl, hother⟩⟩
      rcases hresult.returned status rfl with ⟨code, msg, rfl⟩ | ⟨hh, -⟩ | ⟨rfl, -, d, hideal, hblocked⟩
      · rcases hother with hstatus | ⟨hstatus, -⟩ <;> cases hstatus
      · exact hunhappy hh
      · obtain ⟨hfirst, hothers, hideal'⟩ := hinv.trap hstart hunhappy hideal
          (hother.resolve_left (by simp)).2
        exact hnotrap hfirst hreplica hothers d hideal' (by simpa using hblocked)
    · exact hinv.happy_without hon hreplica hstart

end Keeps

/-- The answers that spring the trap: every copy fails at its destination, every size check and the
`DELETE` request succeed. -/
def springTrap : Outcomes where
  gotLock := some true
  rounds _ := ⟨fun _ => .least, .least, .destError⟩
  sizeMatches _ := some true
  httpDelete := true

theorem MaskTrap.exec {db : Db} {fid devid : ℕ} {avoidDevids : List ℕ}
    (h : MaskTrap pol minFree min m draws db fid devid avoidDevids) :
    ((rebalanceDevfid m (fun _ => some (multipleHostsClass pol minFree min)) springTrap fid devid
      avoidDevids).exec db).2.devidsOf fid = (db.devidsOf fid).filter fun d => !(d == devid) := by
  obtain ⟨onDevs, hdevs⟩ := mapM_ofDevid_of_forall h.known
  obtain ⟨hmap, hmem⟩ := mapM_ofDevid hdevs
  obtain ⟨row, hrow⟩ := Option.isSome_iff_exists.mp (Table.isSome_find?.mpr h.exists_file)
  have hunhappy : ¬ Happy m (pol.effectiveMin min)
      (without devid (onDevs.filter fun d => d.status.shouldHaveFiles)) := by
    have hfalse := h.unhappy
    rw [← hmap, ← Bool.not_eq_true, policyHappy_filter hmem] at hfalse
    exact hfalse
  obtain ⟨d, hd, hblocked⟩ := h.blocked
  rw [← hmap, copiesOn_filter hmem, mem_ideally_iff _ hunhappy] at hd
  have hup : (onDevs.filter fun d => d.status.canReadFrom) ≠ [] := by
    obtain ⟨up, hup, dev, hdev, hread⟩ := h.readable
    rw [← hmap] at hup
    obtain ⟨e, he, rfl⟩ := List.mem_map.mp hup
    obtain ⟨hdevmem, hdevid⟩ := DeviceMap.ofDevid_eq_some.mp hdev
    obtain rfl := DeviceMap.eq_of_devid hdevmem (hmem e he) hdevid
    exact List.ne_nil_of_mem (List.mem_filter.mpr ⟨he, hread⟩)
  have hlost := replicateOn_destErrors pol min fid m ⟨none, [devid], avoidDevids⟩ hmem (told_eq_without onDevs).symm hunhappy hd
    (by simpa using hblocked) springTrap (fun _ => rfl) rfl hup db
  have hcontains : (db.devidsOf fid).contains devid = true := by simpa using h.replica
  have hmatch : someOtherMatches springTrap devid (db.devidsOf fid) = some true :=
    someOtherMatches_of_sizes (fun _ => rfl) h.other
  have hreplicate : (replicate m (fun _ => some (multipleHostsClass pol minFree min)) springTrap fid
      (some row) ⟨none, [devid], avoidDevids⟩).exec db = (.returned .lostRace, db) :=
    (replicate_exec rfl rfl hdevs).trans hlost
  have hselect : db.file.find? fid = some row := hrow
  simp only [rebalanceDevfid, h.fid_ne, if_false, DbProg.exec, Prog.exec_bind, Prog.exec_issue, Stmt.run,
    hselect] at hreplicate ⊢
  simp only [hreplicate, afterReplicate, Prog.exec_bind, Prog.exec_issue, Stmt.run, hcontains, if_true,
    hmatch]
  exact devidsOf_deleteFileOn fid devid db

/-- Rebalancing keeps `MultipleHosts` happy, whatever the lock, the draws, the copies, the size checks and
the `DELETE` request do, exactly outside the trap. -/
theorem rebalanceDevfid_keeps_policy_iff (pol : MultipleHosts) (minFree min : ℕ) (m : DeviceMap)
    (draws : ℕ → Draw) (db : Db) (fid devid : ℕ) (avoidDevids : List ℕ) :
    (∀ out : Outcomes,
      ((rebalanceDevfid m (fun _ => some (multipleHostsClass pol minFree min)) out fid devid
          avoidDevids).exec db).1 ≠ .running ∧
      (policyHappy pol minFree min m draws (db.devidsOf fid) = true →
        policyHappy pol minFree min m draws
          (((rebalanceDevfid m (fun _ => some (multipleHostsClass pol minFree min)) out fid devid
            avoidDevids).exec db).2.devidsOf fid) = true)) ↔
      ¬ MaskTrap pol minFree min m draws db fid devid avoidDevids := by
  constructor
  · intro hkeeps htrap
    have hafter := (hkeeps springTrap).2 htrap.happy
    rw [htrap.exec, htrap.unhappy] at hafter
    cases hafter
  · intro hnotrap out
    unfold rebalanceDevfid
    split_ifs with hfid
    · exact ⟨by simp [DbProg.exec], id⟩
    · simp only [DbProg.exec, Prog.exec_bind, Prog.exec_issue, Stmt.run]
      cases hrow : db.file.find? fid with
      | none => exact ⟨by simp, id⟩
      | some row =>
        simp only [Prog.exec_bind]
        rcases replicate_cases m (fun _ => some (multipleHostsClass pol minFree min)) out fid row
          ⟨none, [devid], avoidDevids⟩ db with ⟨hdb, hfailed⟩ | ⟨cls, onDevs, hcls, hdevs, hexec⟩
        · simp only [DbProg.exec] at hdb hfailed
          generalize Prog.exec Stmt.run (replicate m (fun _ => some (multipleHostsClass pol minFree min)) out
            fid (some row) ⟨none, [devid], avoidDevids⟩) db = res at hdb hfailed ⊢
          obtain ⟨result, db'⟩ := res
          subst hdb
          cases hfailed <;> exact ⟨by simp [afterReplicate], id⟩
        · cases hcls
          simp only [DbProg.exec] at hexec
          rw [hexec]
          obtain ⟨hmap, hmem⟩ := mapM_ofDevid hdevs
          by_cases hread : onDevs.filter (fun d => d.status.canReadFrom) = []
          · obtain ⟨code, msg, hfail⟩ := replicateOn_unreadable hread db
            simp only [DbProg.exec] at hfail
            rw [hfail]
            exact ⟨by simp [afterReplicate], id⟩
          obtain ⟨added, st, hinv, hresult⟩ := replicateOn_spec fid m pol minFree min out
            ⟨none, [devid], avoidDevids⟩ hmap hmem
          rw [told_eq_without] at hinv
          refine ⟨(afterReplicate_spec out fid devid hresult.ended hresult.ne_nofid _).1, fun hhappy => ?_⟩
          refine afterReplicate_happy hmem hinv hresult ?_ (by rwa [hmap])
          intro hunhappy hreplica hother d hideal hblocked
          have hup : ∃ d ∈ db.devidsOf fid, ∃ dev, m.ofDevid d = some dev ∧
              dev.status.canReadFrom = true := by
            obtain ⟨up, hup⟩ := List.exists_mem_of_ne_nil _ hread
            obtain ⟨hin, hcan⟩ := List.mem_filter.mp hup
            exact ⟨up.devid, hmap ▸ List.mem_map_of_mem hin, up, DeviceMap.ofDevid_devid (hmem up hin), hcan⟩
          refine hnotrap ⟨hfid, Table.isSome_find?.mp (by rw [hrow]; rfl), ?_, hup, hmap ▸ hreplica,
            hmap ▸ hother, hhappy, ?_, d, ?_, hblocked⟩
          · intro devid' hmem'
            rw [← hmap] at hmem'
            obtain ⟨e, he, rfl⟩ := List.mem_map.mp hmem'
            exact ⟨e, DeviceMap.ofDevid_devid (hmem e he)⟩
          · rw [← hmap, ← Bool.not_eq_true, policyHappy_filter hmem]
            exact hunhappy
          · rw [← hmap, copiesOn_filter hmem, mem_ideally_iff _ hunhappy]
            exact hideal

end Verdict

/-! ### Two hosts -/

/-- A file on `d1` and `d3`. -/
def onD1D3 : Db :=
  { Db.fresh with
    file := ⟨⟨[⟨1, 1, "key".toList, 5, 0, 2, none, 0⟩], by decide⟩, by decide⟩
    fileOn := ⟨[(1, 1), (1, 3)], by decide⟩ }

/-- Rebalancing `d3` leaves the file with the copy on `d1` alone, although the policy wants two hosts. -/
theorem rebalanceDevfid_twoHosts :
    policyHappy ⟨0⟩ 100 2 twoHosts (fun _ => ⟨0, by norm_num⟩) (onD1D3.devidsOf 1) = true ∧
      ((rebalanceDevfid twoHosts (fun _ => some (multipleHostsClass ⟨0⟩ 100 2)) springTrap 1 3 []).exec
        onD1D3).1 = .returned true ∧
      policyHappy ⟨0⟩ 100 2 twoHosts (fun _ => ⟨0, by norm_num⟩)
        (((rebalanceDevfid twoHosts (fun _ => some (multipleHostsClass ⟨0⟩ 100 2)) springTrap 1 3 []).exec
          onD1D3).2.devidsOf 1) = false := by
  decide +kernel

end Ylem
