import Ylem.Worker.Replicate

/-!
# The passes of a run of replicate

`replicatePasses` lists the passes that a run of `replicate` makes, each with the state it starts from. The
list says all there is to say about the run: its result is that of the last pass, and what it does to the
database are the copies of its passes, one after the other (`replicateOn_exec`).

A pass picks its destination from the ideal suggestions of the policy or, where there are none, from the
desperate ones. What then becomes of it is up to the copy. An environment that chooses the outcomes pass by
pass, and in every state either has what it is after or can lead on to another such state, gets what it is
after in the end, since the destinations and sources run out (`exists_replicatePasses`).
-/

namespace Ylem

/-- A pass of the copy loop: what it meets, and the state it starts from. -/
structure Pass where
  round : Round
  st : CopyState

section Passes

variable (devs : DeviceMap) (fid : ℕ) (opts : ReplOpts) (cls : ReplClass) (onUpDevid : List ℕ)

namespace Pass

/-- The answer of the policy. -/
def request (pass : Pass) : ReplicationRequest :=
  cls.policy pass.round.weights pass.st.onDevsTellpol devs pass.st.destFailed cls.mindevcount

def step (pass : Pass) : CopyStep := copyStep devs fid opts cls onUpDevid pass.round pass.st

/-- `$ddevid`, in a pass that gets that far. -/
def destination (pass : Pass) : Option ℕ :=
  let rr := pass.request devs cls
  if rr.error.isSome || rr.isHappy then none
  else match chooseDest opts rr with
    | .dest ddevid => some ddevid
    | _ => none

/-- The device of the new copy, in a pass that has made one. -/
def copied (pass : Pass) : Option Device :=
  match pass.step devs fid opts cls onUpDevid with
  | .copied ddev _ => some ddev
  | _ => none

end Pass

/-- The passes of the copy loop. -/
def copyPasses : ℕ → (ℕ → Round) → CopyState → List Pass
  | 0, _, _ => []
  | fuel + 1, rounds, st =>
    ⟨rounds 0, st⟩ :: match (copyStep devs fid opts cls onUpDevid (rounds 0) st).next with
      | none => []
      | some st' => copyPasses fuel (fun n => rounds (n + 1)) st'

/-- The devices that hold a readable copy. -/
def upDevids (onDevs : List Device) : List ℕ :=
  (onDevs.filter fun d => d.status.canReadFrom).map Device.devid

/-- The state before the first pass. -/
def startState (onDevs : List Device) : CopyState where
  onDevs := onDevs
  onDevsTellpol := onDevs.filter fun d => d.status.shouldHaveFiles && !opts.maskDevids.contains d.devid
  destFailed := []
  sourceFailed := []
  gotCopyRequest := false
  copyErr := none

/-- Does `replicate` get to its first pass? There is a readable copy, and the source that was asked for
is one. -/
def StartsLoop (onDevs : List Device) : Prop :=
  upDevids onDevs ≠ [] ∧ ∀ sdevid ∈ opts.sourceDevid, sdevid ∈ upDevids onDevs

instance (onDevs : List Device) : Decidable (StartsLoop opts onDevs) :=
  inferInstanceAs (Decidable (_ ∧ _))

/-- The passes of a run of `replicate` for a file on `onDevs`. -/
def replicatePasses (out : Outcomes) (onDevs : List Device) : List Pass :=
  if StartsLoop opts onDevs then
    copyPasses devs fid opts cls (upDevids onDevs) (replicateFuel devs onDevs) out.rounds
      (startState opts onDevs)
  else []

end Passes

/-! ### The passes and the run -/

section Run

variable {devs : DeviceMap} {fid : ℕ} {opts : ReplOpts} {cls : ReplClass} {onUpDevid : List ℕ}

theorem ne_nil_of_startsLoop {onDevs : List Device} (h : StartsLoop opts onDevs) : onDevs ≠ [] := by
  rintro rfl
  exact h.1 rfl

variable (devs fid cls) in
theorem replicateOn_of_startsLoop (out : Outcomes) {onDevs : List Device} (h : StartsLoop opts onDevs) :
    replicateOn devs out fid opts cls onDevs =
      copyLoop devs fid opts cls (upDevids onDevs) (replicateFuel devs onDevs) out.rounds
        (startState opts onDevs) := by
  have hne := ne_nil_of_startsLoop h
  obtain ⟨hup, hsource⟩ := h
  have hany : opts.sourceDevid.any (fun sdevid => !(upDevids onDevs).contains sdevid) = false := by
    cases hs : opts.sourceDevid with
    | none => rfl
    | some sdevid => simpa using hsource sdevid (by rw [hs]; rfl)
  have hup' : ¬ (upDevids onDevs).isEmpty := by simpa using hup
  have hany' : ¬ opts.sourceDevid.any (fun sdevid => !(upDevids onDevs).contains sdevid) = true := by
    rw [hany]
    exact Bool.false_ne_true
  rw [replicateOn, if_neg (by simpa using hne)]
  exact (if_neg hup').trans (if_neg hany')

theorem Pass.destination_eq_some {pass : Pass} {ddevid : ℕ} :
    pass.destination devs opts cls = some ddevid ↔
      (pass.request devs cls).error = none ∧ (pass.request devs cls).isHappy = false ∧
        chooseDest opts (pass.request devs cls) = .dest ddevid := by
  unfold Pass.destination
  generalize pass.request devs cls = rr
  cases herror : rr.error with
  | some error => simp [herror]
  | none =>
    cases hhappy : rr.isHappy with
    | true => simp [herror, hhappy]
    | false => cases hchoice : chooseDest opts rr <;> simp [herror, hhappy, hchoice]

theorem copyLoop_exec (fuel : ℕ) (rounds : ℕ → Round) (st : CopyState) (db : Db) :
    ((copyLoop devs fid opts cls onUpDevid fuel rounds st).exec db).2 =
      ((copyPasses devs fid opts cls onUpDevid fuel rounds st).filterMap
        fun pass => pass.copied devs fid opts cls onUpDevid).foldl
          (fun db ddev => ((addToDb none fid ddev.devid).exec db).2) db := by
  induction fuel generalizing rounds st db with
  | zero => rfl
  | succ fuel ih =>
    rw [copyLoop, copyPasses]
    cases hstep : copyStep devs fid opts cls onUpDevid (rounds 0) st with
    | exit result => simp [Pass.copied, Pass.step, hstep, CopyStep.next]
    | retry st' =>
      simp only [List.filterMap_cons, Pass.copied, Pass.step, hstep, CopyStep.next]
      exact ih _ _ db
    | copied ddev st' =>
      simp only [List.filterMap_cons, Pass.copied, Pass.step, hstep, CopyStep.next, List.foldl_cons,
        DbProg.exec, Prog.exec_bind]
      exact ih _ _ _

/-- A property of the states that every pass keeps holds of the state of every pass. -/
theorem copyPasses_inv {I : CopyState → Prop}
    (hstep : ∀ round st st', I st → (copyStep devs fid opts cls onUpDevid round st).next = some st' → I st')
    {fuel : ℕ} {rounds : ℕ → Round} {st : CopyState} (h : I st) :
    ∀ pass ∈ copyPasses devs fid opts cls onUpDevid fuel rounds st, I pass.st := by
  induction fuel generalizing rounds st with
  | zero => exact fun pass hpass => absurd hpass List.not_mem_nil
  | succ fuel ih =>
    intro pass hpass
    rw [copyPasses] at hpass
    rcases List.mem_cons.mp hpass with rfl | hpass
    · exact h
    · cases hnext : (copyStep devs fid opts cls onUpDevid (rounds 0) st).next with
      | none =>
        rw [hnext] at hpass
        exact absurd hpass List.not_mem_nil
      | some st' =>
        rw [hnext] at hpass
        exact ih (hstep _ _ _ h hnext) pass hpass

theorem mem_copyPasses_succ {fuel : ℕ} {rounds : ℕ → Round} {st st' : CopyState} {pass : Pass}
    (hnext : (copyStep devs fid opts cls onUpDevid (rounds 0) st).next = some st')
    (hpass : pass ∈ copyPasses devs fid opts cls onUpDevid fuel (fun n => rounds (n + 1)) st') :
    pass ∈ copyPasses devs fid opts cls onUpDevid (fuel + 1) rounds st := by
  rw [copyPasses, hnext]
  exact List.mem_cons_of_mem _ hpass

theorem exists_copyPasses {I : CopyState → Prop} {P : Pass → Prop} (hpol : SuggestsDevices devs cls.policy)
    (hstep : ∀ st, I st → ∃ round, P ⟨round, st⟩ ∨
      ∃ st', (copyStep devs fid opts cls onUpDevid round st).next = some st' ∧ I st')
    (fuel : ℕ) {st : CopyState} (hI : I st) (hfuel : st.left devs onUpDevid < fuel) :
    ∃ rounds, ∃ pass ∈ copyPasses devs fid opts cls onUpDevid fuel rounds st, P pass := by
  induction fuel generalizing st with
  | zero => omega
  | succ fuel ih =>
    obtain ⟨round, hP | ⟨st', hnext, hI'⟩⟩ := hstep st hI
    · exact ⟨fun _ => round, _, List.mem_cons_self, hP⟩
    · have hlt := copyStep_left_lt hpol hnext
      obtain ⟨rounds, pass, hpass, hP⟩ := ih hI' (by omega)
      exact ⟨Nat.rec round fun n _ => rounds n, pass, mem_copyPasses_succ hnext hpass, hP⟩

theorem exists_replicatePasses {I : CopyState → Prop} {P : Pass → Prop} (hpol : SuggestsDevices devs cls.policy)
    {onDevs : List Device} (hstarts : StartsLoop opts onDevs)
    (hstep : ∀ st, I st → ∃ round, P ⟨round, st⟩ ∨
      ∃ st', (copyStep devs fid opts cls (upDevids onDevs) round st).next = some st' ∧ I st')
    (hI : I (startState opts onDevs)) :
    ∃ out, ∃ pass ∈ replicatePasses devs fid opts cls out onDevs, P pass := by
  obtain ⟨rounds, pass, hpass, hP⟩ := exists_copyPasses hpol hstep (replicateFuel devs onDevs) hI
    (left_lt_replicateFuel devs onDevs _)
  refine ⟨⟨some true, rounds, fun _ => some true, true⟩, pass, ?_, hP⟩
  rw [replicatePasses, if_pos hstarts]
  exact hpass

/-- A pass that goes on has ruled out a source or its destination, or made a copy. -/
theorem SuggestsDests.next_cases {minFree : ℕ} (hpol : SuggestsDests minFree devs cls.policy) {round : Round}
    {st st' : CopyState} (hnext : (copyStep devs fid opts cls onUpDevid round st).next = some st') :
    ∃ d, (⟨round, st⟩ : Pass).destination devs opts cls = some d.devid ∧
      MultipleHosts.Dest minFree devs st.onDevsTellpol st.destFailed d ∧
      ((st'.onDevsTellpol = st.onDevsTellpol ∧ st'.destFailed = st.destFailed) ∨
        (st'.onDevsTellpol = st.onDevsTellpol ∧ st'.destFailed = d.devid :: st.destFailed) ∨
        (st'.onDevsTellpol = st.onDevsTellpol ++ [d] ∧ st'.destFailed = st.destFailed)) := by
  rcases copyStep_cases devs fid opts cls onUpDevid round st rfl with
    ⟨-, hstep⟩ | ⟨-, -, hstep⟩ | ⟨result, -, hstep⟩ | ⟨hunhappy, ddevid, hchoice, -, -, hprogress⟩
  · rw [hstep] at hnext
    cases hnext
  · rw [hstep] at hnext
    cases hnext
  · rw [hstep] at hnext
    cases hnext
  · obtain ⟨d, hd, rfl⟩ := hpol.dest_of_choice hchoice
    have herror : ((⟨round, st⟩ : Pass).request devs cls).error = none := by
      show (cls.policy round.weights st.onDevsTellpol devs st.destFailed cls.mindevcount).error = none
      rcases chooseDest_dest hchoice with ⟨e, he, -⟩ | ⟨-, e, he, -⟩
      · obtain ⟨ideal, desp, hrr⟩ := ReplicationRequest.eq_copyTo_of_ideally (List.ne_nil_of_mem he)
        rw [hrr]
        rfl
      · obtain ⟨ideal, desp, hrr⟩ := ReplicationRequest.eq_copyTo_of_desperate (List.ne_nil_of_mem he)
        rw [hrr]
        rfl
    refine ⟨d, Pass.destination_eq_some.mpr ⟨herror, hunhappy, hchoice⟩, hd, ?_⟩
    generalize copyStep devs fid opts cls onUpDevid round st = step at hprogress hnext
    cases hprogress with
    | source =>
      cases hnext
      exact .inl ⟨rfl, rfl⟩
    | dest =>
      cases hnext
      exact .inr (.inl ⟨rfl, rfl⟩)
    | copied ddev hddev =>
      cases hnext
      obtain ⟨hmem, hdevid⟩ := DeviceMap.ofDevid_eq_some.mp hddev
      obtain rfl := DeviceMap.eq_of_devid hmem hd.mem hdevid
      exact .inr (.inr ⟨rfl, rfl⟩)

/-- The policy has been told of the copies on `on` at first, and then of those on `added`. -/
structure Added (minFree : ℕ) (m : DeviceMap) (on added : List Device) (st : CopyState) : Prop where
  told_eq : st.onDevsTellpol = on ++ added
  dest : ∀ a ∈ added, MultipleHosts.Dest minFree m on [] a
  nodup_added : added.Nodup

/-- A device that may get a copy after others could get one before them. -/
theorem MultipleHosts.Dest.of_append {minFree : ℕ} {m : DeviceMap} {on added : List Device} {failed : List ℕ}
    {d : Device} (h : Dest minFree m (on ++ added) failed d) : Dest minFree m on [] d := by
  refine ⟨h.mem, fun hin => h.not_on ?_, List.not_mem_nil, h.getRepl, h.free⟩
  rw [List.map_append]
  exact List.mem_append_left _ hin

theorem Added.start {minFree : ℕ} {m : DeviceMap} (st : CopyState) : Added minFree m st.onDevsTellpol [] st :=
  ⟨(List.append_nil _).symm, by simp, List.nodup_nil⟩

theorem Added.copied {minFree : ℕ} {m : DeviceMap} {on added : List Device} {st st' : CopyState}
    (h : Added minFree m on added st) {d : Device}
    (hd : MultipleHosts.Dest minFree m st.onDevsTellpol st.destFailed d)
    (htold : st'.onDevsTellpol = st.onDevsTellpol ++ [d]) : Added minFree m on (added ++ [d]) st' := by
  rw [h.told_eq] at hd htold
  refine ⟨by rw [htold, List.append_assoc], by simpa [or_imp, forall_and] using ⟨h.dest, hd.of_append⟩, ?_⟩
  refine List.nodup_append.mpr ⟨h.nodup_added, List.nodup_singleton d, fun a ha b hb => ?_⟩
  rw [List.mem_singleton.mp hb]
  rintro rfl
  exact hd.not_on (List.mem_map_of_mem (List.mem_append_right _ ha))

theorem Added.next {minFree : ℕ} {on added : List Device} {round : Round} {st st' : CopyState}
    (h : Added minFree devs on added st) (hpol : SuggestsDests minFree devs cls.policy)
    (hnext : (copyStep devs fid opts cls onUpDevid round st).next = some st') :
    ∃ added', Added minFree devs on added' st' := by
  obtain ⟨d, -, hd, ⟨htold, -⟩ | ⟨htold, -⟩ | ⟨htold, -⟩⟩ := hpol.next_cases hnext
  · exact ⟨added, htold.trans h.told_eq, h.dest, h.nodup_added⟩
  · exact ⟨added, htold.trans h.told_eq, h.dest, h.nodup_added⟩
  · exact ⟨added ++ [d], h.copied hd htold⟩

end Run

/-! ### Allowed devices -/

/-- The caller has neither masked the device nor asked to avoid it. -/
def ReplOpts.Allows (opts : ReplOpts) (devid : ℕ) : Prop :=
  devid ∉ opts.maskDevids ∧ devid ∉ opts.avoidDevids

instance (opts : ReplOpts) (devid : ℕ) : Decidable (opts.Allows devid) :=
  inferInstanceAs (Decidable (_ ∧ _))

/-! ### A full host -/

/-- A device without free space. -/
def fullDevice (devid hostid : ℕ) : Device := { upDevice devid hostid with mbUsed := 1000 }

/-- `h1[ d1 d2 ] h2[ d3 ]`, with `d3` full. -/
def fullD3 : DeviceMap where
  table := ⟨[upDevice 1 1, upDevice 2 1, fullDevice 3 2], by decide⟩
  devid_pos := by decide
  hostid_eq := by decide
  host_eq := by decide

/-- `MultipleHosts`, two copies. -/
def twoCopies : ReplClass := ⟨2, (⟨0⟩ : MultipleHosts).replicateTo 100⟩

/-- A run in which every copy succeeds. -/
def allCopied : Outcomes where
  gotLock := some true
  rounds _ := ⟨fun _ => .least, .least, .copied⟩
  sizeMatches _ := some true
  httpDelete := true

end Ylem
