import Ylem.Worker.CopyPasses
import Ylem.Worker.Rebalance

/-!
# Runs in which every copy succeeds

If every copy succeeds, a run of `replicate` is a sequence of copies that ends where the policy becomes
happy. How many copies these are depends on the policy: `Fills` says that a number of copies is missing in
the states of the loop, that a pass makes one of them as long as there are any, and that the policy is happy
when there are none. Then the loop makes exactly that many copies (`Fills.copyLoop`), and so does the whole
call (`Fills.replicate`).

As long as no source has failed the policy is told of exactly the copies that are not masked and on devices
that should have files (`Informed`), and a pass copies to what is chosen from its suggestions or rules it out
(`Informed.copyStep_eq`).
-/

namespace Ylem

open MultipleHosts

/-- The caller has not masked the device, and its state should have files. -/
def told (opts : ReplOpts) (d : Device) : Bool :=
  d.status.shouldHaveFiles && !opts.maskDevids.contains d.devid

/-- The state after a copy to `ddev`. -/
def CopyState.withCopy (st : CopyState) (ddev : Device) : CopyState :=
  { st with
    gotCopyRequest := true
    onDevs := st.onDevs ++ [ddev]
    onDevsTellpol := st.onDevsTellpol ++ [ddev] }

/-- The state after a copy to `ddevid` that has failed there. -/
def CopyState.withFailure (st : CopyState) (ddevid : ℕ) : CopyState :=
  { st with gotCopyRequest := true, destFailed := ddevid :: st.destFailed, copyErr := some .destError }

/-- A state of the loop in which no source has failed. -/
structure Informed (opts : ReplOpts) (m : DeviceMap) (st : CopyState) : Prop where
  mem : ∀ d ∈ st.onDevs, d ∈ m.devices
  nodup : st.onDevs.Nodup
  tellpol_eq : st.onDevsTellpol = st.onDevs.filter (told opts)
  source_ok : st.sourceFailed = []

/-- A state of the loop without failures. -/
structure NoFailures (opts : ReplOpts) (m : DeviceMap) (st : CopyState) : Prop extends Informed opts m st where
  dest_ok : st.destFailed = []

section Informed

variable {minFree fid : ℕ} {opts : ReplOpts} {m : DeviceMap} {cls : ReplClass} {st : CopyState}
  {onUpDevid : List ℕ} {round : Round}

theorem noFailures_startState {onDevs : List Device} (hmem : ∀ d ∈ onDevs, d ∈ m.devices)
    (hnodup : onDevs.Nodup) : NoFailures opts m (startState opts onDevs) :=
  ⟨⟨hmem, hnodup, rfl, rfl⟩, rfl⟩

namespace Informed

theorem mem_tellpol (h : Informed opts m st) {d : Device} :
    d ∈ st.onDevsTellpol ↔ d ∈ st.onDevs ∧ told opts d = true := by
  rw [h.tellpol_eq, List.mem_filter]

theorem copies (h : Informed opts m st) : Copies m st.onDevsTellpol where
  nodup := by
    rw [h.tellpol_eq]
    exact h.nodup.filter _
  mem d hd := h.mem d (h.mem_tellpol.mp hd).1
  shouldHave d hd := (Bool.and_eq_true_iff.mp (h.mem_tellpol.mp hd).2).1

/-- A device that gets replicas and is not masked is told to the policy if it has a copy. -/
theorem not_on (h : Informed opts m st) {d : Device} (hd : d ∈ m.devices)
    (hrepl : d.shouldGetReplicatedFiles minFree = true) (hmask : d.devid ∉ opts.maskDevids)
    (hnot : d.devid ∉ st.onDevsTellpol.map Device.devid) : d.devid ∉ st.onDevs.map Device.devid := by
  intro hon
  obtain ⟨e, he, heq⟩ := List.mem_map.mp hon
  obtain rfl : e = d := DeviceMap.eq_of_devid (h.mem e he) hd heq
  have hshould := DeviceState.shouldHaveFiles_of_getRepl
    (Device.shouldGetReplFiles_of_shouldGetReplicatedFiles hrepl)
  exact hnot (List.mem_map_of_mem (h.mem_tellpol.mpr ⟨he, by simp [told, hshould, hmask]⟩))

/-- The policy is told of a copy to a device that is not masked and gets replicas. -/
theorem withCopy (h : Informed opts m st) {d : Device} (hd : d ∈ m.devices)
    (hrepl : d.shouldGetReplicatedFiles minFree = true) (hmask : d.devid ∉ opts.maskDevids)
    (hon : d.devid ∉ st.onDevs.map Device.devid) : Informed opts m (st.withCopy d) where
  mem e he := by
    rcases List.mem_append.mp he with he | he
    · exact h.mem e he
    · rw [List.mem_singleton.mp he]
      exact hd
  nodup := by
    refine List.nodup_append.mpr ⟨h.nodup, List.nodup_singleton d, fun a ha b hb => ?_⟩
    rw [List.mem_singleton.mp hb]
    rintro rfl
    exact hon (List.mem_map_of_mem ha)
  tellpol_eq := by
    have hshould := DeviceState.shouldHaveFiles_of_getRepl
      (Device.shouldGetReplFiles_of_shouldGetReplicatedFiles hrepl)
    show st.onDevsTellpol ++ [d] = (st.onDevs ++ [d]).filter (told opts)
    rw [List.filter_append, h.tellpol_eq]
    simp [told, hshould, hmask]
  source_ok := h.source_ok

theorem withFailure (h : Informed opts m st) (ddevid : ℕ) : Informed opts m (st.withFailure ddevid) :=
  ⟨h.mem, h.nodup, h.tellpol_eq, h.source_ok⟩

/-- A pass with a destination that is not masked copies to it, or rules it out if the copy fails there. -/
theorem copyStep_eq (h : Informed opts m st) (hup : onUpDevid ≠ []) {ideal desp : List Device}
    (hrr : cls.policy round.weights st.onDevsTellpol m st.destFailed cls.mindevcount = .copyTo ideal desp)
    {d : Device} (hdest : Dest minFree m st.onDevsTellpol st.destFailed d)
    (hmask : d.devid ∉ opts.maskDevids) (hchoice : chooseDest opts (.copyTo ideal desp) = .dest d.devid) :
    (round.copy = .copied → copyStep m fid opts cls onUpDevid round st = .copied d (st.withCopy d)) ∧
      (round.copy = .destError →
        copyStep m fid opts cls onUpDevid round st = .retry (st.withFailure d.devid)) := by
  have hon := h.not_on hdest.mem hdest.getRepl hmask hdest.not_on
  obtain ⟨sdevid, hsource⟩ := Option.isSome_iff_exists.mp
    (chooseSource_isSome opts round.source { st with gotCopyRequest := true } hup h.source_ok)
  have hfailed : st.destFailed.contains d.devid = false := by simpa using hdest.not_failed
  have honc : (st.onDevs.map Device.devid).contains d.devid = false := by simpa using hon
  rw [copyStep_of_no_error (by rw [hrr]; rfl), hrr]
  simp only [ReplicationRequest.isHappy, Bool.false_eq_true, if_false, hchoice, copyTo, hfailed, honc,
    hsource, copyFrom]
  constructor
  · intro hcopy
    simp only [hcopy, DeviceMap.ofDevid_devid hdest.mem]
    rfl
  · intro hcopy
    simp only [hcopy, CopyOutcome.code, copyFailed]
    rfl

end Informed

/-- A copy to a suggested device that is not masked. -/
theorem NoFailures.copied (h : NoFailures opts m st) (hcopy : round.copy = .copied) (hup : onUpDevid ≠ [])
    {ideal desp : List Device}
    (hrr : cls.policy round.weights st.onDevsTellpol m st.destFailed cls.mindevcount = .copyTo ideal desp)
    {d : Device} (hdest : Dest minFree m st.onDevsTellpol st.destFailed d)
    (hmask : d.devid ∉ opts.maskDevids) (hchoice : chooseDest opts (.copyTo ideal desp) = .dest d.devid) :
    copyStep m fid opts cls onUpDevid round st = .copied d (st.withCopy d) ∧
      NoFailures opts m (st.withCopy d) ∧ d.devid ∉ st.onDevs.map Device.devid := by
  have hon := h.not_on hdest.mem hdest.getRepl hmask hdest.not_on
  exact ⟨(h.copyStep_eq hup hrr hdest hmask hchoice).1 hcopy,
    ⟨h.withCopy hdest.mem hdest.getRepl hmask hon, h.dest_ok⟩, hon⟩

/-- Where nothing is masked or to be avoided the first suggestion is chosen. -/
theorem chooseDest_of_allows {ideal desp : List Device} (hallows : ∀ d ∈ ideal, opts.Allows d.devid)
    {d : Device} (hhead : d ∈ (ideal ++ desp).head?) : chooseDest opts (.copyTo ideal desp) = .dest d.devid := by
  cases ideal with
  | nil =>
    obtain ⟨rest, rfl⟩ := List.head?_eq_some_iff.mp hhead
    rfl
  | cons first rest =>
    obtain rfl := Option.some.inj hhead
    obtain ⟨hmask, havoid⟩ := hallows first List.mem_cons_self
    simp [chooseDest, ReplicationRequest.copyToOneOfIdeally, hmask, havoid]

theorem copyStep_of_happy
    (h : (cls.policy round.weights st.onDevsTellpol m st.destFailed cls.mindevcount).isHappy = true) :
    copyStep m fid opts cls onUpDevid round st =
      .exit (.returned (if st.gotCopyRequest then .success else .lostRace)) := by
  have herror : (cls.policy round.weights st.onDevsTellpol m st.destFailed cls.mindevcount).error = none := by
    generalize cls.policy round.weights st.onDevsTellpol m st.destFailed cls.mindevcount = rr at h
    cases rr with
    | died error => exact absurd h Bool.false_ne_true
    | tempNoAnswer | allGood | tooGood | copyTo => rfl
  rw [copyStep_of_no_error herror, if_pos h]

end Informed

/-! ### Missing copies -/

/-- As long as copies are missing a pass makes one of them, and then the policy is happy. -/
structure Fills (m : DeviceMap) (fid : ℕ) (opts : ReplOpts) (cls : ReplClass) (onUpDevid : List ℕ)
    (I : CopyState → Prop) (missing : CopyState → ℕ) : Prop where
  devices : SuggestsDevices m cls.policy
  copied : ∀ round st, round.copy = .copied → I st → missing st ≠ 0 →
    ∃ d ∈ m.devices, copyStep m fid opts cls onUpDevid round st = .copied d (st.withCopy d) ∧
      d.devid ∉ st.onDevs.map Device.devid ∧ I (st.withCopy d) ∧
      missing st = missing (st.withCopy d) + 1
  happy : ∀ round st, I st → missing st = 0 → ((⟨round, st⟩ : Pass).request m cls).isHappy = true

namespace Fills

variable {m : DeviceMap} {fid : ℕ} {opts : ReplOpts} {cls : ReplClass} {onUpDevid : List ℕ}
  {I : CopyState → Prop} {missing : CopyState → ℕ}

/-- The loop makes the missing copies, and ends with a happy policy. -/
theorem copyLoop (h : Fills m fid opts cls onUpDevid I missing) {fuel : ℕ} {rounds : ℕ → Round}
    (hcopy : ∀ n, (rounds n).copy = .copied) {st : CopyState} (hI : I st)
    (hfuel : st.left m onUpDevid < fuel) {db : Db} (hdb : db.devidsOf fid = st.onDevs.map Device.devid) :
    let run := (Ylem.copyLoop m fid opts cls onUpDevid fuel rounds st).exec db
    ∃ added st', (∀ d ∈ added, d ∈ m.devices) ∧ I st' ∧ missing st' = 0 ∧
      st'.onDevs = st.onDevs ++ added ∧ added.length = missing st ∧
      (∃ pass ∈ (copyPasses m fid opts cls onUpDevid fuel rounds st).getLast?,
        (pass.request m cls).isHappy = true) ∧
      run.1 = .returned (if st.gotCopyRequest = true ∨ added ≠ [] then .success else .lostRace) ∧
      run.2.devidsOf fid = (st.onDevs ++ added).map Device.devid := by
  induction fuel generalizing rounds st db with
  | zero => omega
  | succ fuel ih =>
    rw [Ylem.copyLoop, copyPasses]
    by_cases hnone : missing st = 0
    · have hhappy := h.happy (rounds 0) st hI hnone
      have hstep : copyStep m fid opts cls onUpDevid (rounds 0) st =
          .exit (.returned (if st.gotCopyRequest then .success else .lostRace)) := copyStep_of_happy hhappy
      rw [hstep]
      refine ⟨[], st, fun d hd => absurd hd List.not_mem_nil, hI, hnone, (List.append_nil _).symm,
        by rw [hnone]; rfl, ⟨⟨rounds 0, st⟩, rfl, hhappy⟩, ?_, ?_⟩
      · simp [DbProg.exec]
      · rw [List.append_nil]
        exact hdb
    · obtain ⟨d, hd, hstep, hnew, hI', hmissing⟩ := h.copied (rounds 0) st (hcopy 0) hI hnone
      have hleft : (st.withCopy d).left m onUpDevid < st.left m onUpDevid :=
        copyStep_left_lt h.devices (by rw [hstep]; rfl)
      have hdb' : ((addToDb none fid d.devid).exec db).2.devidsOf fid =
          (st.withCopy d).onDevs.map Device.devid := by
        rw [devidsOf_addToDb none (by rwa [hdb]), hdb, CopyState.withCopy, List.map_append]
        rfl
      obtain ⟨added, st', hadded, hI'', hnone', honDevs, hlen, ⟨pass, hpass, hhappy⟩, hresult, hdevids⟩ :=
        ih (fun n => hcopy (n + 1)) hI' (by omega) hdb'
      have happend : (st.withCopy d).onDevs ++ added = st.onDevs ++ (d :: added) := by
        rw [CopyState.withCopy, List.append_assoc]
        rfl
      rw [happend] at honDevs hdevids
      simp only [hstep, CopyStep.next, DbProg.exec, Prog.exec_bind]
      refine ⟨d :: added, st', List.forall_mem_cons.mpr ⟨hd, hadded⟩, hI'', hnone', honDevs, ?_, ⟨pass, ?_, hhappy⟩,
        ?_, hdevids⟩
      · rw [List.length_cons, hlen, hmissing]
      · rw [List.getLast?_cons, hpass]
        rfl
      · rw [if_pos (.inr (List.cons_ne_nil _ _))]
        exact hresult.trans (by rw [if_pos (.inl rfl)])

end Fills

/-! ### The whole call -/

section Call

variable {m : DeviceMap} {fid : ℕ} {opts : ReplOpts} {cls : ReplClass} {classOf : FileRow → Option ReplClass}
  {out : Outcomes} {onDevs : List Device} {db : Db}

theorem replicate_exec_loaded {loaded : Option FileRow} {row : FileRow}
    (hlock : out.gotLock = some true) (hrow : (loaded <|> db.file.find? fid) = some row)
    (hcls : classOf row = some cls) (hdevs : (db.devidsOf fid).mapM m.ofDevid = some onDevs) :
    (replicate m classOf out fid loaded opts).exec db = (replicateOn m out fid opts cls onDevs).exec db := by
  cases loaded with
  | some row' =>
    obtain rfl : row' = row := Option.some.inj hrow
    exact replicate_exec hlock hcls hdevs
  | none =>
    have hfind : db.file.find? fid = some row := hrow
    unfold replicate
    simp only [hlock, hcls, Prog.pure_eq, DbProg.exec, Prog.exec_bind, Prog.exec_issue, Stmt.run, hdevs, hfind]

/-- `replicate` makes the missing copies, and ends with a happy policy. -/
theorem Fills.replicate {I : CopyState → Prop} {missing : CopyState → ℕ}
    (h : Fills m fid opts cls (upDevids onDevs) I missing) (hI : I (startState opts onDevs))
    (hlock : out.gotLock = some true) {loaded : Option FileRow} {row : FileRow}
    (hrow : (loaded <|> db.file.find? fid) = some row) (hcls : classOf row = some cls)
    (hdevs : (db.devidsOf fid).mapM m.ofDevid = some onDevs) (hstarts : StartsLoop opts onDevs)
    (hcopy : ∀ n, (out.rounds n).copy = .copied) :
    let run := (Ylem.replicate m classOf out fid loaded opts).exec db
    ∃ added st', (∀ d ∈ added, d ∈ m.devices) ∧ I st' ∧ missing st' = 0 ∧
      st'.onDevs = onDevs ++ added ∧ added.length = missing (startState opts onDevs) ∧
      (∃ pass ∈ (replicatePasses m fid opts cls out onDevs).getLast?, (pass.request m cls).isHappy = true) ∧
      run.1 = .returned (if missing (startState opts onDevs) = 0 then .lostRace else .success) ∧
      run.2.devidsOf fid = (onDevs ++ added).map Device.devid := by
  obtain ⟨hmap, -⟩ := mapM_ofDevid hdevs
  obtain ⟨added, st', hadded, hI', hnone, honDevs, hlen, hlast, hresult, hdevids⟩ :=
    h.copyLoop hcopy hI (left_lt_replicateFuel m onDevs _) hmap.symm
  intro run
  have hrun : run = (Ylem.copyLoop m fid opts cls (upDevids onDevs) (replicateFuel m onDevs) out.rounds
      (startState opts onDevs)).exec db := by
    rw [← replicateOn_of_startsLoop _ _ _ _ hstarts]
    exact replicate_exec_loaded hlock hrow hcls hdevs
  rw [hrun]
  refine ⟨added, st', hadded, hI', hnone, honDevs, hlen, ?_, ?_, hdevids⟩
  · rw [replicatePasses, if_pos hstarts]
    exact hlast
  · rw [hresult]
    by_cases hzero : missing (startState opts onDevs) = 0
    · have hnil : added = [] := List.length_eq_zero_iff.mp (hlen.trans hzero)
      rw [if_neg (by simp [hnil, startState]), if_pos hzero]
    · have hne : added ≠ [] := fun hnil => hzero (by rw [← hlen, hnil, List.length_nil])
      rw [if_pos (.inr hne), if_neg hzero]

end Call

end Ylem
