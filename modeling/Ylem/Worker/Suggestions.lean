import Ylem.Worker.Runaway

/-!
# What the policies over hosts suggest

`MultipleHosts` and `MultipleNetworks` order all the devices that may get another copy into ideal and
desperate suggestions, whatever the draws: none is lost and none comes twice. The ideal ones are on hosts
without a copy, and for `MultipleNetworks` outside the networks with one, as long as there are hosts left.

`replicate` refuses a suggestion that has failed before and one that the file is on already. Without a mask
it never gets to do so (`suggestions_exact`): the copies that the policy is not told of are on draining or
dead devices, which are not suggested.
-/

namespace Ylem

/-! ### Suggestions that replicate accepts -/

/-- The results that blame the policy. -/
def ReplResult.PolicyError (result : ReplResult) : Prop :=
  ∃ errmsg, result = .returned (.failure "policy_error_doing_failed" errmsg) ∨
    result = .returned (.failure "policy_error_already_there" errmsg)

section Loop

variable {devs : DeviceMap} {fid minFree : ℕ} {opts : ReplOpts} {cls : ReplClass} {onUpDevid : List ℕ}
  {round : Round} {st : CopyState} {result : ReplResult}

theorem not_policyError_of_code {errcode errmsg : String}
    (h : errcode ≠ "policy_error_doing_failed" ∧ errcode ≠ "policy_error_already_there") :
    ¬ (ReplResult.returned (.failure errcode errmsg)).PolicyError := by
  rintro ⟨_, heq | heq⟩
  · injection heq with heq
    injection heq with hcode
    exact h.1 hcode
  · injection heq with heq
    injection heq with hcode
    exact h.2 hcode

theorem not_policyError_of_died (error : String) : ¬ (ReplResult.died error).PolicyError := by
  rintro ⟨_, heq | heq⟩ <;> cases heq

theorem not_policyError_of_status {status : ReplStatus}
    (h : status = .success ∨ status = .lostRace ∨ status = .nofid) :
    ¬ (ReplResult.returned status).PolicyError := by
  rcases h with rfl | rfl | rfl <;> rintro ⟨_, heq | heq⟩ <;> cases heq

theorem not_policyError_of_copyFrom {ddevid sdevid : ℕ}
    (h : copyFrom devs fid opts round st ddevid sdevid = .exit result) : ¬ result.PolicyError := by
  unfold copyFrom at h
  have hfailed : ∀ st code, copyFailed fid opts st ddevid sdevid code = .exit result →
      ¬ result.PolicyError := by
    intro st code hexit
    cases code with
    | destError => cases hexit
    | srcError =>
      rw [copyFailed] at hexit
      split_ifs at hexit
      cases hexit
      exact not_policyError_of_code (by decide)
  split at h
  · cases h
    exact not_policyError_of_died _
  · split at h
    · cases h
    · cases h
      exact not_policyError_of_died _
  · split at h
    · cases h
      exact not_policyError_of_died _
    · exact hfailed _ _ h

theorem not_policyError_of_copyStep (hpol : SuggestsDests minFree devs cls.policy)
    (htold : st.onDevsTellpol = st.onDevs.filter fun d => d.status.shouldHaveFiles)
    (hmem : ∀ d ∈ st.onDevs, d ∈ devs.devices)
    (h : copyStep devs fid opts cls onUpDevid round st = .exit result) : ¬ result.PolicyError := by
  unfold copyStep at h
  dsimp only at h
  split at h
  · cases h
    exact not_policyError_of_died _
  · split_ifs at h with hhappy hgot
    · cases h
      exact not_policyError_of_status (.inl rfl)
    · cases h
      exact not_policyError_of_status (.inr (.inl rfl))
    · cases hchoice : chooseDest opts (cls.policy round.weights st.onDevsTellpol devs st.destFailed
          cls.mindevcount) with
      | masked =>
        rw [hchoice] at h
        cases h
        exact not_policyError_of_status (.inr (.inl rfl))
      | exhausted =>
        rw [hchoice] at h
        cases h
        exact not_policyError_of_code (by decide)
      | dest ddevid =>
        rw [hchoice] at h
        obtain ⟨d, hdest, rfl⟩ := hpol.dest_of_choice hchoice
        -- a copy that the policy is not told of is on a device that gets no replicas
        have hon : d.devid ∉ st.onDevs.map Device.devid := by
          intro hin
          obtain ⟨copy, hcopy, heq⟩ := List.mem_map.mp hin
          obtain rfl := DeviceMap.eq_of_devid (hmem copy hcopy) hdest.mem heq
          have hshould := DeviceState.shouldHaveFiles_of_getRepl
            (Device.shouldGetReplFiles_of_shouldGetReplicatedFiles hdest.getRepl)
          refine hdest.not_on (List.mem_map_of_mem ?_)
          rw [htold]
          exact List.mem_filter.mpr ⟨hcopy, hshould⟩
        show ¬ result.PolicyError
        change copyTo devs fid opts onUpDevid round st d.devid = .exit result at h
        rw [copyTo, if_neg (by simpa using hdest.not_failed), if_neg (by simpa using hon)] at h
        split at h
        · cases h
          exact not_policyError_of_code (by decide)
        · exact not_policyError_of_copyFrom h

theorem not_policyError_of_replicateOn (hpol : SuggestsDests minFree devs cls.policy)
    (hmask : opts.maskDevids = []) (out : Outcomes) {onDevs : List Device}
    (hmem : ∀ d ∈ onDevs, d ∈ devs.devices) (db : Db) :
    ¬ ((replicateOn devs out fid opts cls onDevs).exec db).1.PolicyError := by
  unfold replicateOn
  dsimp only
  split_ifs
  · exact not_policyError_of_code (by decide)
  · exact not_policyError_of_code (by decide)
  · exact not_policyError_of_code (by decide)
  · set st : CopyState := ⟨onDevs, onDevs.filter fun d => d.status.shouldHaveFiles &&
      !opts.maskDevids.contains d.devid, [], [], false, none⟩ with hst
    have htold : st.onDevsTellpol = st.onDevs.filter fun d => d.status.shouldHaveFiles := by
      simp [hst, hmask]
    obtain ⟨st', hinv, hend⟩ := copyLoop_inv devs fid opts cls
      ((onDevs.filter fun d => d.status.canReadFrom).map Device.devid) (R := fun _ => True)
      (I := fun st _ => st.onDevsTellpol = (st.onDevs.filter fun d => d.status.shouldHaveFiles) ∧
        ∀ d ∈ st.onDevs, d ∈ devs.devices)
      (fun round st st' db _ hI hstep =>
        ⟨hpol.told_next hI.1 (by rw [hstep]; rfl), hpol.mem_devices_next hI.2 (by rw [hstep]; rfl)⟩)
      (fun round st ddev st' db _ hI hstep =>
        ⟨hpol.told_next hI.1 (by rw [hstep]; rfl), hpol.mem_devices_next hI.2 (by rw [hstep]; rfl)⟩)
      (replicateFuel devs onDevs) out.rounds (fun _ => trivial) st db ⟨htold, hmem⟩
    rcases hend with hrunning | ⟨round, -, hexit⟩
    · rw [hrunning]
      rintro ⟨_, heq | heq⟩ <;> cases heq
    · exact not_policyError_of_copyStep hpol hinv.1 hinv.2 hexit

theorem not_policyError_of_replicate {classOf : FileRow → Option ReplClass}
    (hpol : ∀ row, ∀ cls ∈ classOf row, SuggestsDests minFree devs cls.policy)
    (hmask : opts.maskDevids = []) (out : Outcomes) (loaded : Option FileRow) (db : Db) :
    ¬ ((replicate devs classOf out fid loaded opts).exec db).1.PolicyError := by
  unfold replicate
  split
  · exact not_policyError_of_died _
  · exact not_policyError_of_code (by decide)
  extract_lets onRow
  have hrow : ∀ row db, ¬ ((onRow row).exec db).1.PolicyError := by
    intro row db
    simp only [onRow]
    cases row with
    | none => exact not_policyError_of_status (by decide)
    | some row =>
      dsimp only
      cases hcls : classOf row with
      | none => exact not_policyError_of_died _
      | some cls =>
        simp only [DbProg.exec, Prog.exec_bind]
        generalize Prog.exec Stmt.run (sql (.selectDevids fid)) db = read
        obtain ⟨devids, db'⟩ := read
        cases hdevs : devids.mapM devs.ofDevid with
        | none =>
          exact not_policyError_of_died _
        | some onDevs =>
          exact not_policyError_of_replicateOn (hpol row cls hcls) hmask out (mapM_ofDevid hdevs).2 db'
  cases loaded with
  | some row => exact hrow (some row) db
  | none =>
    simp only [DbProg.exec, Prog.exec_bind]
    exact hrow _ _

end Loop

/-! ### All the suggestions -/

/-- The suggestions of the policies over hosts name each device that may get a copy exactly once, the ideal
ones on hosts and networks without a copy as long as there are hosts left. So a `replicate` without a mask
never blames the policy. -/
theorem suggestions_exact (minFree : ℕ) (m : DeviceMap) :
    (∀ (pol : MultipleHosts) draws onDevs failed min ideal desp,
      pol.replicateTo minFree draws onDevs m failed min = .copyTo ideal desp →
        MultipleHosts.Exact minFree m onDevs failed ideal desp ∧
        ∀ d ∈ ideal, countHosts onDevs < uniqueHosts m → d.hostid ∉ onDevs.map Device.hostid) ∧
      (∀ (pol : MultipleNetworks) draws onDevs failed min ideal desp,
        pol.replicateTo minFree draws onDevs m failed min = .copyTo ideal desp →
          MultipleHosts.Exact minFree m onDevs failed ideal desp ∧
          ∀ d ∈ ideal, countHosts onDevs < uniqueHosts m → d.hostid ∉ onDevs.map Device.hostid ∧
            ∀ copy ∈ onDevs, ∀ copyIp net ip, copy.hostIp = .ok (some copyIp) →
              Text.truthy (some copyIp) = true → pol.network copy = .ok net → d.hostIp = .ok (some ip) →
              pol.netmasks.covers net ip = false) ∧
      ∀ (classOf : FileRow → Option ReplClass) (fid : ℕ) (sourceDevid : Option ℕ) (avoidDevids : List ℕ)
        (out : Outcomes) (loaded : Option FileRow) (db : Db),
        (∀ row, ∀ cls ∈ classOf row, ∃ pol : HostPolicy, cls.policy = pol.replicateTo minFree) →
          ¬ ((replicate m classOf out fid loaded ⟨sourceDevid, [], avoidDevids⟩).exec db).1.PolicyError := by
  refine ⟨?_, ?_, ?_⟩
  · intro pol draws onDevs failed min ideal desp h
    refine ⟨MultipleHosts.exact_of_copyTo h, fun d hd => ?_⟩
    exact (((MultipleHosts.replicateTo_eq_copyTo h).1 d).mp hd).not_skipped
  · intro pol draws onDevs failed min ideal desp h
    refine ⟨MultipleNetworks.exact_of_copyTo h, fun d hd hfew => ?_⟩
    have hideal := (MultipleNetworks.mem_ideal_iff h).mp hd
    refine ⟨hideal.fresh_host hfew, fun copy hcopy copyIp net ip hcopyIp htruthy hnet hip => ?_⟩
    obtain ⟨networks, -, hnetworks, -⟩ := MultipleNetworks.replicateTo_eq_copyTo h
    exact hideal.not_covered hfew hnetworks
      (MultipleNetworks.network_mem_onNetworks hnetworks hcopy hcopyIp htruthy hnet) hip
  · intro classOf fid sourceDevid avoidDevids out loaded db hpol
    have hdests : ∀ row, ∀ cls ∈ classOf row, SuggestsDests minFree m cls.policy := by
      intro row cls hcls
      obtain ⟨pol, hpolicy⟩ := hpol row cls hcls
      rw [hpolicy]
      exact pol.suggestsDests minFree m
    exact not_policyError_of_replicate hdests rfl out loaded db

theorem ReplicationRequest.eq_copyTo {rr : ReplicationRequest} {ideal desp : List Device}
    (hideal : rr.copyToOneOfIdeally = ideal) (hdesp : rr.copyToOneOfDesperate = desp) (hne : ideal ≠ []) :
    rr = .copyTo ideal desp := by
  obtain ⟨ideal', desp', rfl⟩ := ReplicationRequest.eq_copyTo_of_ideally (by rwa [hideal])
  exact congrArg₂ _ hideal hdesp

/-- The device on the second network. -/
def onNet1 : Device := { upDevice 3 2 with host := some (hostAt 2 "10.1.0.1".toList) }

/-- `h1[ d1 d2 ] h2[ d3 ]` on two networks. -/
def freeNetworks : DeviceMap where
  table := ⟨[onNet0 1, onNet0 2, onNet1], by decide⟩
  devid_pos := by decide
  hostid_eq := by decide
  host_eq := by decide

/-- A file on `d1` that wants a second copy: both policies suggest `d3` ideally and `d2` desperately, and the
copy is made. -/
theorem freeNetworks_suggestions :
    let db : Db := { onD1D3 with fileOn := ⟨[(1, 1)], by decide⟩ }
    let call := (replicate freeNetworks (fun _ => some twoCopies) allCopied 1 none ⟨none, [], []⟩).exec db
    call.1 = .returned .success ∧ ¬ call.1.PolicyError ∧
      MultipleHosts.Exact 100 freeNetworks [onNet0 1] [] [onNet1] [onNet0 2] ∧
      ∀ net, (⟨0, classB, []⟩ : MultipleNetworks).network (onNet0 1) = .ok net →
        classB.covers net "10.1.0.1".toList = false := by
  intro db call
  obtain ⟨hhosts, hnetworks, hloop⟩ := suggestions_exact 100 freeNetworks
  let draws : ℕ → Draw := fun _ => ⟨0, by norm_num⟩
  have hsuggest : (⟨0⟩ : MultipleHosts).replicateTo 100 draws [onNet0 1] freeNetworks [] 2 =
      .copyTo [onNet1] [onNet0 2] :=
    ReplicationRequest.eq_copyTo (by decide +kernel) (by decide +kernel) (List.cons_ne_nil _ _)
  have hsuggest' : (⟨0, classB, []⟩ : MultipleNetworks).replicateTo 100 draws [onNet0 1] freeNetworks [] 2 =
      .copyTo [onNet1] [onNet0 2] :=
    ReplicationRequest.eq_copyTo (by decide +kernel) (by decide +kernel) (List.cons_ne_nil _ _)
  have hfew : countHosts [onNet0 1] < uniqueHosts freeNetworks := by decide
  refine ⟨by decide +kernel, ?_, (hhosts _ _ _ _ _ _ _ hsuggest).1, fun net hnet => ?_⟩
  · exact hloop (fun _ => some twoCopies) 1 none [] allCopied none db
      fun _ _ hcls => ⟨.multipleHosts ⟨0⟩, by cases hcls; rfl⟩
  · have hideal := (hnetworks _ _ _ _ _ _ _ hsuggest').2 onNet1 (List.mem_singleton_self _) hfew
    exact hideal.2 (onNet0 1) (List.mem_singleton_self _) "10.0.0.1".toList net "10.1.0.1".toList rfl (by decide)
      hnet rfl

end Ylem
