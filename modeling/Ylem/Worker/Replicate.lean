import Ylem.ReplicationPolicy.MultipleHosts
import Ylem.Store

/-!
# The replicate worker

`replicate` asks the policy of a file's class again and again, copies the file to the device it chooses
from each answer, and ends when the policy is happy or has no more to say. `rebalance_devfid` uses it to
move a replica: it hides the device from the policy (`mask_devids`), and destroys the replica when
`replicate` reports success, or reports a lost race while the replica is still there.

What the workers cannot control is in `Outcomes`: the answer of the lock, the draws, the result of every
`http_copy`, the size checks and the final `DELETE` request. One pass of the copy loop is `copyStep`; a
pass never repeats a destination or a source that it has ruled out (`copyStep_cases`), so that
`replicateFuel` passes are enough (`copyLoop_ne_running`).
-/

namespace Ylem

/-! ### What the outside world answers -/

/-- What `http_copy` does: success, a failure that sets `copy_err`, a failure that leaves `copy_err` as it
was, or an exception. -/
inductive CopyOutcome where
  | copied
  | srcError
  | destError
  | uncoded
  | died

inductive CopyErr where
  | srcError | destError
  deriving DecidableEq

/-- One pass of the copy loop: the draws of the policy, the draw that picks the source, and the copy. -/
structure Round where
  weights : ℕ → Draw
  source : Draw
  copy : CopyOutcome

/-- What a run of `rebalance_devfid` or `replicate` meets. `gotLock` is the answer of `get_lock`, or
nothing when it dies; a size check that is nothing dies too. -/
structure Outcomes where
  gotLock : Option Bool
  rounds : ℕ → Round
  sizeMatches : ℕ → Option Bool
  httpDelete : Bool

/-- A file class as `replicate` uses it. -/
structure ReplClass where
  mindevcount : ℕ
  policy : ReplicationPolicy

/-- The options of `replicate`. -/
structure ReplOpts where
  sourceDevid : Option ℕ
  maskDevids : List ℕ
  avoidDevids : List ℕ

/-- The return value of `replicate`; a failure has an error code and a message. -/
inductive ReplStatus where
  | success
  | lostRace
  | nofid
  | failure (errcode errmsg : String)
  deriving DecidableEq

/-- How a call of `replicate` ends. `running` is a loop that has not ended after the passes it was
given. -/
inductive ReplResult where
  | returned (status : ReplStatus)
  | died (error : String)
  | running
  deriving DecidableEq

/-! ### The copy loop -/

/-- The variables of the loop. -/
structure CopyState where
  onDevs : List Device
  onDevsTellpol : List Device
  destFailed : List ℕ
  sourceFailed : List ℕ
  gotCopyRequest : Bool
  copyErr : Option CopyErr

/-- The destination chosen from an answer of the policy. -/
inductive Choice where
  | masked
  | exhausted
  | dest (devid : ℕ)

def chooseDest (opts : ReplOpts) (rr : ReplicationRequest) : Choice :=
  match rr.copyToOneOfIdeally with
  | [] =>
    match rr.copyToOneOfDesperate with
    | [] => .exhausted
    | ddev :: _ => .dest ddev.devid
  | ddevs =>
    match (ddevs.map Device.devid).filter
        fun devid => !opts.maskDevids.contains devid && !opts.avoidDevids.contains devid with
    | [] => .masked
    | devid :: _ => .dest devid

/-- What one pass does: leave the loop, go on, or go on with a new replica. -/
inductive CopyStep where
  | exit (result : ReplResult)
  | retry (st : CopyState)
  | copied (ddev : Device) (st : CopyState)

section Loop

variable (devs : DeviceMap) (fid : ℕ) (opts : ReplOpts) (cls : ReplClass) (onUpDevid : List ℕ)

def chooseSource (source : Draw) (st : CopyState) : Option ℕ :=
  match opts.sourceDevid with
  | some sdevid => some sdevid
  | none =>
    let choices := onUpDevid.filter fun devid => !st.sourceFailed.contains devid
    choices[source.index choices.length]?

/-- The error code after a failed copy. -/
def CopyOutcome.code (copyErr : Option CopyErr) : CopyOutcome → Option CopyErr
  | srcError => some .srcError
  | destError => some .destError
  | _ => copyErr

/-- A pass whose copy has failed: rule out the source or the destination. A source that the caller asked
for cannot be replaced. -/
def copyFailed (st : CopyState) (ddevid sdevid : ℕ) : CopyErr → CopyStep
  | .srcError =>
    if opts.sourceDevid.isSome then
      .exit (.returned (.failure "copy_error"
        s!"error copying fid {fid} from devid {sdevid} during replication"))
    else .retry
      { st with sourceFailed := sdevid :: st.sourceFailed, copyErr := some .srcError }
  | .destError =>
    .retry { st with destFailed := ddevid :: st.destFailed, copyErr := some .destError }

/-- A pass that has chosen `ddevid` and `sdevid`. -/
def copyFrom (round : Round) (st : CopyState) (ddevid sdevid : ℕ) : CopyStep :=
  match round.copy with
  | .died => .exit (.died "http_copy")
  | .copied =>
    match devs.ofDevid ddevid with
    | some ddev => .copied ddev
        { st with onDevs := st.onDevs ++ [ddev], onDevsTellpol := st.onDevsTellpol ++ [ddev] }
    | none => .exit (.died "no such device in the map")
  | failed =>
    match failed.code st.copyErr with
    | none => .exit (.died "Bogus error code: ")
    | some code => copyFailed fid opts st ddevid sdevid code

/-- A pass that has chosen `ddevid`. -/
def copyTo (round : Round) (st : CopyState) (ddevid : ℕ) : CopyStep :=
  let st := { st with gotCopyRequest := true }
  if st.destFailed.contains ddevid then
    .exit (.returned (.failure "policy_error_doing_failed"
      s!"replication policy told us to do something we already told it we failed at while replicating fid {fid}"))
  else if (st.onDevs.map Device.devid).contains ddevid then
    .exit (.returned (.failure "policy_error_already_there"
      s!"replication policy told us to put fid {fid} on dev {ddevid}, but it's already there!"))
  else match chooseSource opts onUpDevid round.source st with
    | none => .exit (.returned (.failure "source_down" s!"No devices available replicating {fid}"))
    | some sdevid => copyFrom devs fid opts round st ddevid sdevid

def copyStep (round : Round) (st : CopyState) : CopyStep :=
  let rr := cls.policy round.weights st.onDevsTellpol devs st.destFailed cls.mindevcount
  if let some error := rr.error then .exit (.died error)
  else if rr.isHappy then
    -- happy without any copy: some other process got to it first
    .exit (.returned (if st.gotCopyRequest then .success else .lostRace))
  else match chooseDest opts rr with
    -- the ideal suggestions are masked away: bail out rather than use a worse placement
    | .masked => .exit (.returned .lostRace)
    | .exhausted => .exit (.returned (.failure "policy_no_suggestions"
        s!"replication policy ran out of suggestions for us replicating fid {fid}"))
    | .dest ddevid => copyTo devs fid opts onUpDevid round st ddevid

/-- The loop, for at most `fuel` passes. The replication lock is held, so that `get_lock` dies inside
`add_to_db` and the device count is updated all the same. -/
def copyLoop : ℕ → (ℕ → Round) → CopyState → DbProg ReplResult
  | 0, _, _ => pure .running
  | fuel + 1, rounds, st =>
    match copyStep devs fid opts cls onUpDevid (rounds 0) st with
    | .exit result => pure result
    | .retry st' => copyLoop fuel (fun n => rounds (n + 1)) st'
    | .copied ddev st' => do
      let _ ← addToDb none fid ddev.devid
      copyLoop fuel (fun n => rounds (n + 1)) st'

end Loop

/-- Every pass that goes on rules out a destination or a source. -/
def replicateFuel (devs : DeviceMap) (onDevs : List Device) : ℕ :=
  devs.devices.length + onDevs.length + 1

/-! ### replicate -/

section Replicate

variable (devs : DeviceMap) (classOf : FileRow → Option ReplClass) (out : Outcomes)

/-- The loop with what `replicate` has read: the devices the fid is on. -/
def replicateOn (fid : ℕ) (opts : ReplOpts) (cls : ReplClass) (onDevs : List Device) :
    DbProg ReplResult :=
  let tellpol := onDevs.filter fun d => d.status.shouldHaveFiles && !opts.maskDevids.contains d.devid
  let onUpDevid := (onDevs.filter fun d => d.status.canReadFrom).map Device.devid
  if onDevs.isEmpty then
    pure (.returned (.failure "no_source" s!"Source is no longer available replicating {fid}"))
  else if onUpDevid.isEmpty then
    pure (.returned (.failure "source_down" s!"No alive devices available replicating {fid}"))
  else if opts.sourceDevid.any fun sdevid => !onUpDevid.contains sdevid then
    pure (.returned (.failure "source_down"
      s!"Requested replication source device {opts.sourceDevid.getD 0} not available"))
  else
    copyLoop devs fid opts cls onUpDevid (replicateFuel devs onDevs) out.rounds
      ⟨onDevs, tellpol, [], [], false, none⟩

/-- `loaded` is the row of a fid object that has been loaded before. -/
def replicate (fid : ℕ) (loaded : Option FileRow) (opts : ReplOpts) : DbProg ReplResult :=
  match out.gotLock with
  | none => pure (.died "Lock recursion detected")
  | some false => pure (.returned (.failure "failed_getting_lock" s!"Unable to obtain lock for fid {fid}"))
  | some true => do
    let row ← match loaded with
      | some row => pure (some row)
      | none => sql (.selectFile fid)
    match row with
    | none => pure (.returned .nofid)
    | some row =>
      match classOf row with
      | none => pure (.died "Can't call method \"repl_policy_obj\" on an undefined value")
      | some cls => do
        let devids ← sql (.selectDevids fid)
        -- a devid without a device makes dstate die
        match devids.mapM devs.ofDevid with
        | none => pure (.died "Device doesn't exist")
        | some onDevs => replicateOn devs out fid opts cls onDevs

/-! ### rebalance_devfid -/

/-- How a call of `rebalance_devfid` ends: with its return value, or dying. -/
inductive RebalResult where
  | returned (ok : Bool)
  | died
  | running
  deriving DecidableEq

/-- The size checks of the over-replicated case: does some other replica have the right size? Nothing if
a check dies. -/
def someOtherMatches (devid : ℕ) : List ℕ → Option Bool
  | [] => some false
  | testDevid :: devids =>
    if testDevid = devid then someOtherMatches devid devids
    else match out.sizeMatches testDevid with
      | none => none
      | some true => some true
      | some false => someOtherMatches devid devids

/-- `destroy`, with the exceptions of the HTTP request caught. -/
def destroy (fid devid : ℕ) : DbProg RebalResult :=
  if out.httpDelete then do
    sql (.deleteFileOn fid devid)
    Store.updateDevcount fid
    pure (.returned true)
  else pure (.returned false)

/-- What `rebalance_devfid` makes of the result of `replicate`. -/
def afterReplicate (fid devid : ℕ) : ReplResult → DbProg RebalResult
  | .died _ => pure .died
  | .running => pure .running
  | .returned (.failure _ _) => pure (.returned false)
  | .returned .lostRace => do
    let devids ← sql (.selectDevids fid)
    if devids.contains devid then do
      -- over-replicated: see if some copy besides this one is alive and of the right size
      let testDevids ← sql (.selectDevids fid)
      match someOtherMatches out devid testDevids with
      | none => pure .died
      | some true => destroy out fid devid
      | some false => pure (.returned true)
    else pure (.returned true)
  | .returned _ => destroy out fid devid

/-- `FID->new` dies on a false id. -/
def rebalanceDevfid (fid devid : ℕ) (avoidDevids : List ℕ) : DbProg RebalResult :=
  if fid = 0 then pure .died
  else do
    match ← sql (.selectFile fid) with
    | none => pure (.returned true)
    | some row => do
      let result ← replicate devs classOf out fid (some row) ⟨none, [devid], avoidDevids⟩
      afterReplicate out fid devid result

end Replicate

/-! ### One pass of the loop -/

/-- A result that neither claims success nor asks for another try. -/
inductive ReplResult.Failed : ReplResult → Prop
  | failure (errcode errmsg : String) : Failed (.returned (.failure errcode errmsg))
  | died (error : String) : Failed (.died error)

namespace ReplicationRequest

/-- Only an answer with suggestions has any. -/
theorem eq_copyTo_of_ideally {rr : ReplicationRequest} (h : rr.copyToOneOfIdeally ≠ []) :
    ∃ ideal desperate, rr = copyTo ideal desperate := by
  cases rr with
  | copyTo ideal desperate => exact ⟨ideal, desperate, rfl⟩
  | tempNoAnswer | allGood | tooGood | died => exact absurd rfl h

theorem eq_copyTo_of_desperate {rr : ReplicationRequest} (h : rr.copyToOneOfDesperate ≠ []) :
    ∃ ideal desperate, rr = copyTo ideal desperate := by
  cases rr with
  | copyTo ideal desperate => exact ⟨ideal, desperate, rfl⟩
  | tempNoAnswer | allGood | tooGood | died => exact absurd rfl h

end ReplicationRequest

theorem chooseDest_masked {opts : ReplOpts} {rr : ReplicationRequest} (h : chooseDest opts rr = .masked) :
    rr.copyToOneOfIdeally ≠ [] ∧ ∀ d ∈ rr.copyToOneOfIdeally,
      d.devid ∈ opts.maskDevids ∨ d.devid ∈ opts.avoidDevids := by
  unfold chooseDest at h
  split at h
  · split at h <;> cases h
  · rename_i hne
    refine ⟨hne, fun d hd => ?_⟩
    split at h
    · rename_i hfilter
      have hd' := List.filter_eq_nil_iff.mp hfilter d.devid (List.mem_map_of_mem hd)
      simpa [imp_iff_not_or] using hd'
    · cases h

theorem chooseDest_exhausted {opts : ReplOpts} {rr : ReplicationRequest}
    (h : chooseDest opts rr = .exhausted) : rr.copyToOneOfIdeally = [] := by
  unfold chooseDest at h
  split at h
  · assumption
  · split at h <;> cases h

/-- A chosen destination is an ideal suggestion that is not masked, or, where there is no ideal
suggestion, a desperate one. -/
theorem chooseDest_dest {opts : ReplOpts} {rr : ReplicationRequest} {devid : ℕ}
    (h : chooseDest opts rr = .dest devid) :
    (∃ d ∈ rr.copyToOneOfIdeally, d.devid = devid ∧ devid ∉ opts.maskDevids ∧ devid ∉ opts.avoidDevids) ∨
      (rr.copyToOneOfIdeally = [] ∧ ∃ d ∈ rr.copyToOneOfDesperate, d.devid = devid) := by
  unfold chooseDest at h
  split at h
  · rename_i hideal
    split at h
    · cases h
    · rename_i ddev rest hdesp
      cases h
      exact .inr ⟨hideal, ddev, by rw [hdesp]; exact List.mem_cons_self, rfl⟩
  · split at h
    · cases h
    · rename_i chosen rest hfilter
      cases h
      have hmem : devid ∈ (rr.copyToOneOfIdeally.map Device.devid).filter
          fun devid => !opts.maskDevids.contains devid && !opts.avoidDevids.contains devid := by
        rw [hfilter]
        exact List.mem_cons_self
      obtain ⟨hin, hfree⟩ := List.mem_filter.mp hmem
      obtain ⟨d, hd, rfl⟩ := List.mem_map.mp hin
      simp only [Bool.and_eq_true, Bool.not_eq_true', List.contains_eq_mem,
        decide_eq_false_iff_not] at hfree
      exact .inl ⟨d, hd, rfl, hfree.1, hfree.2⟩

section Pass

variable {devs : DeviceMap} {fid : ℕ} {opts : ReplOpts} {cls : ReplClass} {onUpDevid : List ℕ}

/-- What a pass with destination `ddevid` has done when the loop goes on: ruled out a source, ruled out
the destination, or made a copy. -/
inductive Progress (devs : DeviceMap) (opts : ReplOpts) (onUpDevid : List ℕ) (st : CopyState)
    (ddevid : ℕ) : CopyStep → Prop
  | source (sdevid : ℕ) (hfree : opts.sourceDevid = none) (hup : sdevid ∈ onUpDevid)
      (hnew : sdevid ∉ st.sourceFailed) :
      Progress devs opts onUpDevid st ddevid (.retry { st with
        gotCopyRequest := true, sourceFailed := sdevid :: st.sourceFailed, copyErr := some .srcError })
  | dest :
      Progress devs opts onUpDevid st ddevid (.retry { st with
        gotCopyRequest := true, destFailed := ddevid :: st.destFailed, copyErr := some .destError })
  | copied (ddev : Device) (hddev : devs.ofDevid ddevid = some ddev) :
      Progress devs opts onUpDevid st ddevid (.copied ddev { st with
        gotCopyRequest := true
        onDevs := st.onDevs ++ [ddev]
        onDevsTellpol := st.onDevsTellpol ++ [ddev] })

theorem chooseSource_spec {source : Draw} {st : CopyState} {sdevid : ℕ}
    (h : chooseSource opts onUpDevid source st = some sdevid) (hfree : opts.sourceDevid = none) :
    sdevid ∈ onUpDevid ∧ sdevid ∉ st.sourceFailed := by
  simp only [chooseSource, hfree] at h
  have hmem := List.mem_of_getElem? h
  simpa using hmem

variable (opts) in
theorem chooseSource_isSome (source : Draw) (st : CopyState) (hup : onUpDevid ≠ [])
    (hnone : st.sourceFailed = []) : (chooseSource opts onUpDevid source st).isSome = true := by
  unfold chooseSource
  split
  · rfl
  · have hall : onUpDevid.filter (fun devid => !st.sourceFailed.contains devid) = onUpDevid := by
      simp [hnone]
    rw [hall]
    have hlt := source.index_lt (List.length_pos_iff.mpr hup)
    rw [List.getElem?_eq_getElem hlt]
    rfl

theorem copyFailed_cases (st : CopyState) {ddevid sdevid : ℕ} (code : CopyErr)
    (hsource : opts.sourceDevid = none → sdevid ∈ onUpDevid ∧ sdevid ∉ st.sourceFailed) :
    (∃ result, ReplResult.Failed result ∧
        copyFailed fid opts { st with gotCopyRequest := true } ddevid sdevid code = .exit result) ∨
      Progress devs opts onUpDevid st ddevid
        (copyFailed fid opts { st with gotCopyRequest := true } ddevid sdevid code) := by
  cases code with
  | destError => exact .inr .dest
  | srcError =>
    by_cases hfixed : opts.sourceDevid.isSome
    · simp only [copyFailed, hfixed, if_true]
      exact .inl ⟨_, .failure _ _, rfl⟩
    · have hnone : opts.sourceDevid = none := by simpa using hfixed
      simp only [copyFailed, hfixed, if_false, Bool.false_eq_true]
      exact .inr (.source sdevid hnone (hsource hnone).1 (hsource hnone).2)

theorem copyFrom_cases (round : Round) (st : CopyState) {ddevid sdevid : ℕ}
    (hsource : opts.sourceDevid = none → sdevid ∈ onUpDevid ∧ sdevid ∉ st.sourceFailed) :
    (∃ result, ReplResult.Failed result ∧
        copyFrom devs fid opts round { st with gotCopyRequest := true } ddevid sdevid = .exit result) ∨
      Progress devs opts onUpDevid st ddevid
        (copyFrom devs fid opts round { st with gotCopyRequest := true } ddevid sdevid) := by
  unfold copyFrom
  cases round.copy with
  | died => exact .inl ⟨_, .died _, rfl⟩
  | copied =>
    cases hdev : devs.ofDevid ddevid with
    | none => exact .inl ⟨_, .died _, rfl⟩
    | some ddev => exact .inr (.copied ddev hdev)
  | destError => exact copyFailed_cases st .destError hsource
  | srcError => exact copyFailed_cases st .srcError hsource
  | uncoded =>
    cases hcode : st.copyErr with
    | none => exact .inl ⟨_, .died _, rfl⟩
    | some code => exact copyFailed_cases st code hsource

variable (devs fid opts onUpDevid) in
theorem copyTo_cases (round : Round) (st : CopyState) (ddevid : ℕ) :
    (∃ result, ReplResult.Failed result ∧ copyTo devs fid opts onUpDevid round st ddevid = .exit result) ∨
      (ddevid ∉ st.destFailed ∧ ddevid ∉ st.onDevs.map Device.devid ∧
        Progress devs opts onUpDevid st ddevid
          (copyTo devs fid opts onUpDevid round st ddevid)) := by
  unfold copyTo
  by_cases hfailed : st.destFailed.contains ddevid
  · simp only [hfailed, if_true]
    exact .inl ⟨_, .failure _ _, rfl⟩
  · by_cases hon : (st.onDevs.map Device.devid).contains ddevid
    · simp only [hfailed, hon, if_true, if_false, Bool.false_eq_true]
      exact .inl ⟨_, .failure _ _, rfl⟩
    · simp only [hfailed, hon, if_false, Bool.false_eq_true]
      cases hsource : chooseSource opts onUpDevid round.source { st with gotCopyRequest := true } with
      | none => exact .inl ⟨_, .failure _ _, rfl⟩
      | some sdevid =>
        rcases copyFrom_cases round st (fun hfree => chooseSource_spec hsource hfree) with
          ⟨result, hresult, hstep⟩ | hprogress
        · exact .inl ⟨result, hresult, hstep⟩
        · exact .inr ⟨by simpa using hfailed, by simpa using hon, hprogress⟩

/-- A pass whose policy has answered. -/
theorem copyStep_of_no_error {round : Round} {st : CopyState}
    (h : (cls.policy round.weights st.onDevsTellpol devs st.destFailed cls.mindevcount).error = none) :
    copyStep devs fid opts cls onUpDevid round st =
      if (cls.policy round.weights st.onDevsTellpol devs st.destFailed cls.mindevcount).isHappy then
        .exit (.returned (if st.gotCopyRequest then .success else .lostRace))
      else match chooseDest opts
          (cls.policy round.weights st.onDevsTellpol devs st.destFailed cls.mindevcount) with
        | .masked => .exit (.returned .lostRace)
        | .exhausted => .exit (.returned (.failure "policy_no_suggestions"
            s!"replication policy ran out of suggestions for us replicating fid {fid}"))
        | .dest ddevid => copyTo devs fid opts onUpDevid round st ddevid := by
  unfold copyStep
  simp only [h]

variable (devs fid opts cls onUpDevid) in
/-- What one pass of the loop can do. -/
theorem copyStep_cases (round : Round) (st : CopyState) {rr : ReplicationRequest}
    (hrr : cls.policy round.weights st.onDevsTellpol devs st.destFailed cls.mindevcount = rr) :
    (rr.isHappy = true ∧ copyStep devs fid opts cls onUpDevid round st =
        .exit (.returned (if st.gotCopyRequest then .success else .lostRace))) ∨
      (rr.isHappy = false ∧ chooseDest opts rr = .masked ∧
        copyStep devs fid opts cls onUpDevid round st = .exit (.returned .lostRace)) ∨
      (∃ result, ReplResult.Failed result ∧
        copyStep devs fid opts cls onUpDevid round st = .exit result) ∨
      (rr.isHappy = false ∧ ∃ ddevid, chooseDest opts rr = .dest ddevid ∧ ddevid ∉ st.destFailed ∧
        ddevid ∉ st.onDevs.map Device.devid ∧
        Progress devs opts onUpDevid st ddevid
          (copyStep devs fid opts cls onUpDevid round st)) := by
  cases herror : rr.error with
  | some error =>
    exact .inr (.inr (.inl ⟨.died error, .died _, by simp only [copyStep, hrr, herror]⟩))
  | none =>
    rw [copyStep_of_no_error (by rw [hrr]; exact herror), hrr]
    by_cases hhappy : rr.isHappy
    · rw [if_pos hhappy]
      exact .inl ⟨hhappy, rfl⟩
    · have hunhappy : rr.isHappy = false := by simpa using hhappy
      rw [if_neg hhappy]
      cases hchoice : chooseDest opts rr with
      | masked => exact .inr (.inl ⟨hunhappy, rfl, rfl⟩)
      | exhausted => exact .inr (.inr (.inl ⟨_, .failure _ _, rfl⟩))
      | dest ddevid =>
        rcases copyTo_cases devs fid opts onUpDevid round st ddevid with ⟨result, hresult, hstep⟩ | ⟨hfailed, hon, hprogress⟩
        · exact .inr (.inr (.inl ⟨result, hresult, hstep⟩))
        · exact .inr (.inr (.inr ⟨hunhappy, ddevid, rfl, hfailed, hon, hprogress⟩))

/-! ### Runs of the loop -/

variable (devs fid opts cls onUpDevid) in
/-- An invariant of the passes holds when the loop ends: the result is that of a pass from a state with
the invariant, or the passes have run out. -/
theorem copyLoop_inv {R : Round → Prop} {I : CopyState → Db → Prop}
    (hretry : ∀ round st st' db, R round → I st db →
      copyStep devs fid opts cls onUpDevid round st = .retry st' → I st' db)
    (hcopied : ∀ round st ddev st' db, R round → I st db →
      copyStep devs fid opts cls onUpDevid round st = .copied ddev st' →
      I st' ((addToDb none fid ddev.devid).exec db).2)
    (fuel : ℕ) (rounds : ℕ → Round) (hR : ∀ n, R (rounds n)) (st : CopyState) (db : Db) (hI : I st db) :
    ∃ st', I st' ((copyLoop devs fid opts cls onUpDevid fuel rounds st).exec db).2 ∧
      (((copyLoop devs fid opts cls onUpDevid fuel rounds st).exec db).1 = .running ∨
        ∃ round, R round ∧ copyStep devs fid opts cls onUpDevid round st' =
          .exit ((copyLoop devs fid opts cls onUpDevid fuel rounds st).exec db).1) := by
  induction fuel generalizing rounds st db with
  | zero => exact ⟨st, hI, .inl rfl⟩
  | succ fuel ih =>
    rw [copyLoop]
    cases hstep : copyStep devs fid opts cls onUpDevid (rounds 0) st with
    | exit result => exact ⟨st, hI, .inr ⟨rounds 0, hR 0, hstep⟩⟩
    | retry st' => exact ih _ (fun n => hR (n + 1)) _ _ (hretry _ _ _ _ (hR 0) hI hstep)
    | copied ddev st' =>
      simp only [DbProg.exec, Prog.exec_bind]
      exact ih _ (fun n => hR (n + 1)) _ _ (hcopied _ _ _ _ _ (hR 0) hI hstep)

/-- The policy suggests devices of the map. -/
def SuggestsDevices (devs : DeviceMap) (policy : ReplicationPolicy) : Prop :=
  ∀ draws on failed min d,
    d ∈ (policy draws on devs failed min).copyToOneOfIdeally ∨
      d ∈ (policy draws on devs failed min).copyToOneOfDesperate → d ∈ devs.devices

/-- The state that a pass goes on with. -/
def CopyStep.next : CopyStep → Option CopyState
  | .exit _ => none
  | .retry st => some st
  | .copied _ st => some st

/-- The policy suggests devices that may get another copy. -/
def SuggestsDests (minFree : ℕ) (devs : DeviceMap) (policy : ReplicationPolicy) : Prop :=
  ∀ draws on failed min d,
    d ∈ (policy draws on devs failed min).copyToOneOfIdeally ∨
      d ∈ (policy draws on devs failed min).copyToOneOfDesperate →
    MultipleHosts.Dest minFree devs on failed d

namespace SuggestsDests

variable {minFree : ℕ} {policy : ReplicationPolicy}

theorem of_copyTo (h : ∀ draws on failed min ideal desp,
    policy draws on devs failed min = .copyTo ideal desp →
      ∀ d, d ∈ ideal ∨ d ∈ desp → MultipleHosts.Dest minFree devs on failed d) :
    SuggestsDests minFree devs policy := by
  intro draws on failed min d hd
  have hcopyTo : ∃ ideal desp, policy draws on devs failed min = .copyTo ideal desp := by
    rcases hd with hd | hd
    · exact ReplicationRequest.eq_copyTo_of_ideally (List.ne_nil_of_mem hd)
    · exact ReplicationRequest.eq_copyTo_of_desperate (List.ne_nil_of_mem hd)
  obtain ⟨ideal, desp, hrr⟩ := hcopyTo
  rw [hrr] at hd
  exact h _ _ _ _ _ _ hrr d hd

theorem suggestsDevices (h : SuggestsDests minFree devs policy) : SuggestsDevices devs policy :=
  fun draws on failed min d hd => (h draws on failed min d hd).mem

/-- The destination of a pass may get another copy. -/
theorem dest_of_choice (h : SuggestsDests minFree devs policy) {draws : ℕ → Draw} {on : List Device}
    {failed : List ℕ} {min ddevid : ℕ}
    (hchoice : chooseDest opts (policy draws on devs failed min) = .dest ddevid) :
    ∃ d, MultipleHosts.Dest minFree devs on failed d ∧ d.devid = ddevid := by
  rcases chooseDest_dest hchoice with ⟨d, hd, heq, -⟩ | ⟨-, d, hd, heq⟩
  · exact ⟨d, h _ _ _ _ d (.inl hd), heq⟩
  · exact ⟨d, h _ _ _ _ d (.inr hd), heq⟩

theorem copyStep_next (hpol : SuggestsDests minFree devs cls.policy) {round : Round} {st st' : CopyState} :
    (copyStep devs fid opts cls onUpDevid round st = .retry st' →
      st'.onDevs = st.onDevs ∧ st'.onDevsTellpol = st.onDevsTellpol) ∧
    ∀ ddev, copyStep devs fid opts cls onUpDevid round st = .copied ddev st' →
      st'.onDevs = st.onDevs ++ [ddev] ∧ st'.onDevsTellpol = st.onDevsTellpol ++ [ddev] ∧
        ddev ∈ devs.devices ∧ ddev.status.shouldHaveFiles = true ∧
        ddev.devid ∉ st.onDevs.map Device.devid := by
  rcases copyStep_cases devs fid opts cls onUpDevid round st rfl with
    ⟨-, hstep⟩ | ⟨-, -, hstep⟩ | ⟨result, -, hstep⟩ | ⟨-, ddevid, hchoice, -, hon, hprogress⟩
  · simp [hstep]
  · simp [hstep]
  · simp [hstep]
  · obtain ⟨d, hd, rfl⟩ := hpol.dest_of_choice hchoice
    generalize hstep : copyStep devs fid opts cls onUpDevid round st = step at hprogress
    cases hprogress with
    | source =>
      refine ⟨fun h => ?_, fun _ h => nomatch h⟩
      cases h
      exact ⟨rfl, rfl⟩
    | dest =>
      refine ⟨fun h => ?_, fun _ h => nomatch h⟩
      cases h
      exact ⟨rfl, rfl⟩
    | copied ddev hddev =>
      refine ⟨fun h => (nomatch h), fun _ h => ?_⟩
      cases h
      obtain ⟨hmem, hdevid⟩ := DeviceMap.ofDevid_eq_some.mp hddev
      have hsame : ddev = d := DeviceMap.eq_of_devid hmem hd.mem hdevid
      subst hsame
      exact ⟨rfl, rfl, hmem, DeviceState.shouldHaveFiles_of_getRepl
        (Device.shouldGetReplFiles_of_shouldGetReplicatedFiles hd.getRepl), hon⟩

/-- Without a mask the policy is told of all the copies on devices that should have files. -/
theorem told_next (hpol : SuggestsDests minFree devs cls.policy) {round : Round} {st st' : CopyState}
    (htold : st.onDevsTellpol = st.onDevs.filter fun d => d.status.shouldHaveFiles)
    (hnext : (copyStep devs fid opts cls onUpDevid round st).next = some st') :
    st'.onDevsTellpol = st'.onDevs.filter fun d => d.status.shouldHaveFiles := by
  cases hstep : copyStep devs fid opts cls onUpDevid round st with
  | exit result =>
    rw [hstep] at hnext
    cases hnext
  | retry st'' =>
    rw [hstep] at hnext
    cases hnext
    obtain ⟨hdevs, hsame⟩ := hpol.copyStep_next.1 hstep
    rw [hdevs, hsame]
    exact htold
  | copied ddev st'' =>
    rw [hstep] at hnext
    cases hnext
    obtain ⟨hdevs, hadded, -, hshould, -⟩ := hpol.copyStep_next.2 ddev hstep
    rw [hdevs, hadded, List.filter_append, htold]
    simp [hshould]

theorem mem_devices_next (hpol : SuggestsDests minFree devs cls.policy) {round : Round} {st st' : CopyState}
    (hmem : ∀ d ∈ st.onDevs, d ∈ devs.devices)
    (hnext : (copyStep devs fid opts cls onUpDevid round st).next = some st') :
    ∀ d ∈ st'.onDevs, d ∈ devs.devices := by
  cases hstep : copyStep devs fid opts cls onUpDevid round st with
  | exit result =>
    rw [hstep] at hnext
    cases hnext
  | retry st'' =>
    rw [hstep] at hnext
    cases hnext
    rw [(hpol.copyStep_next.1 hstep).1]
    exact hmem
  | copied ddev st'' =>
    rw [hstep] at hnext
    cases hnext
    obtain ⟨hdevs, -, hin, -⟩ := hpol.copyStep_next.2 ddev hstep
    intro d hd
    rw [hdevs] at hd
    rcases List.mem_append.mp hd with hd | hd
    · exact hmem d hd
    · rw [List.mem_singleton.mp hd]
      exact hin

end SuggestsDests

/-- The destinations and sources that are not ruled out yet. -/
def CopyState.left (devs : DeviceMap) (onUpDevid : List ℕ) (st : CopyState) : ℕ :=
  (devs.devices.filter fun d =>
      !(st.destFailed.contains d.devid || (st.onDevs.map Device.devid).contains d.devid)).length +
    (onUpDevid.filter fun devid => !st.sourceFailed.contains devid).length

theorem length_filter_lt {α : Type} {p q : α → Bool} {l : List α} {x : α} (himp : ∀ y, q y = true → p y = true)
    (hx : x ∈ l) (hp : p x = true) (hq : q x = false) : (l.filter q).length < (l.filter p).length := by
  have hsub : l.filter q = (l.filter p).filter q := by
    rw [List.filter_filter]
    refine List.filter_congr fun y _ => ?_
    cases hy : q y
    · rfl
    · rw [himp y hy]; rfl
  rw [hsub]
  refine List.length_filter_lt_length_iff_exists.mpr ⟨x, List.mem_filter.mpr ⟨hx, hp⟩, ?_⟩
  rw [hq]
  exact Bool.false_ne_true

theorem Progress.left_lt {st st' : CopyState} {ddevid : ℕ} {step : CopyStep}
    (h : Progress devs opts onUpDevid st ddevid step) (hnext : step.next = some st')
    (hmem : ∃ d ∈ devs.devices, d.devid = ddevid) (hfailed : ddevid ∉ st.destFailed)
    (hon : ddevid ∉ st.onDevs.map Device.devid) :
    st'.left devs onUpDevid < st.left devs onUpDevid := by
  obtain ⟨d, hd, rfl⟩ := hmem
  cases h with
  | source sdevid _ hup hnew =>
    cases hnext
    refine Nat.add_lt_add_left (length_filter_lt ?_ hup (by simpa using hnew) (by simp)) _
    intro y hy
    simp only [List.contains_cons, Bool.not_or, Bool.and_eq_true] at hy
    exact hy.2
  | dest =>
    cases hnext
    refine Nat.add_lt_add_right (length_filter_lt ?_ hd (by simpa using ⟨hfailed, by simpa using hon⟩)
      (by simp)) _
    intro y hy
    simp only [List.contains_cons, Bool.or_assoc, Bool.not_or, Bool.and_eq_true] at hy ⊢
    exact hy.2
  | copied ddev hddev =>
    cases hnext
    obtain ⟨hddmem, hdevid⟩ := DeviceMap.ofDevid_eq_some.mp hddev
    have hsame : ddev = d := DeviceMap.eq_of_devid hddmem hd hdevid
    subst hsame
    refine Nat.add_lt_add_right (length_filter_lt ?_ hd (by simpa using ⟨hfailed, by simpa using hon⟩)
      (by simp)) _
    intro y hy
    simp only [List.map_append, List.contains_append, Bool.not_or, Bool.and_eq_true] at hy ⊢
    exact ⟨hy.1, hy.2.1⟩

theorem left_lt_replicateFuel (devs : DeviceMap) (onDevs : List Device) (st : CopyState) :
    st.left devs ((onDevs.filter fun d => d.status.canReadFrom).map Device.devid) <
      replicateFuel devs onDevs := by
  have h1 : (devs.devices.filter fun d =>
      !(st.destFailed.contains d.devid || (st.onDevs.map Device.devid).contains d.devid)).length ≤
      devs.devices.length := List.length_filter_le _ _
  have h2 := List.length_filter_le (fun devid => !st.sourceFailed.contains devid)
    ((onDevs.filter fun d => d.status.canReadFrom).map Device.devid)
  have h3 := List.length_filter_le (fun d : Device => d.status.canReadFrom) onDevs
  rw [List.length_map] at h2
  unfold CopyState.left replicateFuel
  omega

theorem Failed_ne_running {result : ReplResult} (h : ReplResult.Failed result) : result ≠ .running := by
  cases h <;> simp

/-- A pass that goes on has less left. -/
theorem copyStep_left_lt (hpol : SuggestsDevices devs cls.policy) {round : Round} {st st' : CopyState}
    (hnext : (copyStep devs fid opts cls onUpDevid round st).next = some st') :
    st'.left devs onUpDevid < st.left devs onUpDevid := by
  rcases copyStep_cases devs fid opts cls onUpDevid round st rfl with ⟨-, hstep⟩ | ⟨-, -, hstep⟩ | ⟨result, -, hstep⟩ |
      ⟨-, ddevid, hchoice, hfailed, hon, hprogress⟩
  · rw [hstep] at hnext; cases hnext
  · rw [hstep] at hnext; cases hnext
  · rw [hstep] at hnext; cases hnext
  · refine hprogress.left_lt hnext ?_ hfailed hon
    rcases chooseDest_dest hchoice with ⟨d, hd, rfl, -⟩ | ⟨-, d, hd, rfl⟩
    · exact ⟨d, hpol _ _ _ _ _ (.inl hd), rfl⟩
    · exact ⟨d, hpol _ _ _ _ _ (.inr hd), rfl⟩

theorem copyStep_ne_running {round : Round} {st : CopyState} :
    copyStep devs fid opts cls onUpDevid round st ≠ .exit .running := by
  rcases copyStep_cases devs fid opts cls onUpDevid round st rfl with ⟨-, hstep⟩ | ⟨-, -, hstep⟩ | ⟨result, hresult, hstep⟩ | ⟨-, ddevid, -, -, -, hprogress⟩
  · rw [hstep]; simp
  · rw [hstep]; simp
  · rw [hstep]
    intro heq
    cases heq
    cases hresult
  · intro heq
    rw [heq] at hprogress
    cases hprogress

variable (fid opts onUpDevid) in
/-- The loop ends within as many passes as there are destinations and sources left, and one more. -/
theorem copyLoop_ne_running (hpol : SuggestsDevices devs cls.policy) {fuel : ℕ} (rounds : ℕ → Round)
    {st : CopyState} (hfuel : st.left devs onUpDevid < fuel) (db : Db) :
    ((copyLoop devs fid opts cls onUpDevid fuel rounds st).exec db).1 ≠ .running := by
  induction fuel generalizing rounds st db with
  | zero => omega
  | succ fuel ih =>
    rw [copyLoop]
    cases hstep : copyStep devs fid opts cls onUpDevid (rounds 0) st with
    | exit result =>
      rintro rfl
      exact copyStep_ne_running hstep
    | retry st' =>
      have hlt : st'.left devs onUpDevid < st.left devs onUpDevid :=
        copyStep_left_lt hpol (by rw [hstep]; rfl)
      exact ih _ (by omega) db
    | copied ddev st' =>
      have hlt : st'.left devs onUpDevid < st.left devs onUpDevid :=
        copyStep_left_lt hpol (by rw [hstep]; rfl)
      simp only [DbProg.exec, Prog.exec_bind]
      exact ih _ (by omega) _

end Pass

end Ylem
