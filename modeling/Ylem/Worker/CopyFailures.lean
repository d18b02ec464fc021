import Ylem.Worker.CopyAttempts
import Ylem.Worker.HttpCopy
import Ylem.Worker.Rebalance
import Ylem.Worker.ReplicateQueue

/-!
# Copies that fail

Runs of `replicate` in which every copy is a run of `http_copy`. The error code is a variable that the passes of the
loop share, and `replicate` dies of a failure without one, with the lock of the file in its hands. So a run returns,
and the lock is released, exactly if no copy of it fails without a code and nothing else dies on the way
(`copyLoop_returns_iff`, `unlocks_iff`).
-/

namespace Ylem

/-! ### Passes with http_copy -/

/-- One pass of the copy loop: the draws, and what `http_copy` meets. -/
structure HttpRound where
  weights : ℕ → Draw
  source : Draw
  world : CopyWorld

section Rounds

variable (cfg : CopyConfig) (devs : DeviceMap) (fid : ℕ) (opts : ReplOpts) (cls : ReplClass) (onUpDevid : List ℕ)

namespace HttpRound

/-- The source and the destination, in a pass that gets to the copy. -/
def attempt (r : HttpRound) (st : CopyState) : Option (ℕ × ℕ) :=
  Pass.attempt devs opts cls onUpDevid ⟨⟨r.weights, r.source, .died⟩, st⟩

/-- How its copy ends. -/
def result (r : HttpRound) (st : CopyState) : Option CopyResult :=
  (r.attempt devs opts cls onUpDevid st).map fun a => (httpCopy cfg devs a.1 a.2 fid none r.world).1

/-- The pass as the loop sees it. -/
def round (r : HttpRound) (st : CopyState) : Round :=
  ⟨r.weights, r.source, ((r.result cfg devs fid opts cls onUpDevid st).map CopyResult.outcome).getD .died⟩

end HttpRound

/-- A pass and the state it starts from. -/
structure HttpPass where
  round : HttpRound
  st : CopyState

namespace HttpPass

def pass (p : HttpPass) : Pass := ⟨p.round.round cfg devs fid opts cls onUpDevid p.st, p.st⟩

/-- If the copy fails it has set the error code. -/
def Classified (p : HttpPass) : Prop := ∀ result ∈ p.round.result cfg devs fid opts cls onUpDevid p.st, result.Classified

/-- The policy answers, and a copy has its devices and asks for the file without a closed pipe. -/
structure Careful (p : HttpPass) : Prop where
  answers : ((p.pass cfg devs fid opts cls onUpDevid).request devs cls).error = none
  copies : ∀ a ∈ p.round.attempt devs opts cls onUpDevid p.st,
    Configured cfg devs a.1 a.2 ∧ (p.round.world.connects = true → p.round.world.pipeClosed = false)

end HttpPass

/-- The rounds of a run, each in the state that the ones before it have left. -/
def httpRounds : ℕ → (ℕ → HttpRound) → CopyState → Round
  | 0, rounds, st => (rounds 0).round cfg devs fid opts cls onUpDevid st
  | n + 1, rounds, st =>
    let round := (rounds 0).round cfg devs fid opts cls onUpDevid st
    match (copyStep devs fid opts cls onUpDevid round st).next with
    | none => round
    | some st' => httpRounds n (fun k => rounds (k + 1)) st'

end Rounds

/-! ### One pass -/

/-- The error codes that the callers of `replicate` know. -/
def documentedErrors : List String :=
  ["failed_getting_lock", "source_down", "policy_error_doing_failed", "policy_error_already_there",
    "policy_no_suggestions", "copy_error", "no_source"]

def ReplStatus.Documented (status : ReplStatus) : Prop :=
  ∀ errcode errmsg, status = .failure errcode errmsg → errcode ∈ documentedErrors

theorem documented_failure {errcode errmsg : String} (h : errcode ∈ documentedErrors) :
    (ReplStatus.failure errcode errmsg).Documented := by
  intro errcode' errmsg' heq
  obtain ⟨rfl, -⟩ := ReplStatus.failure.inj heq
  exact h

section Pass

variable {cfg : CopyConfig} {devs : DeviceMap} {fid : ℕ} {opts : ReplOpts} {cls : ReplClass} {onUpDevid : List ℕ}
  {p : HttpPass}

/-- What the copy of a pass with care comes to. -/
theorem HttpPass.Careful.outcome (h : p.Careful cfg devs fid opts cls onUpDevid) {sdevid ddevid : ℕ}
    (hattempt : p.round.attempt devs opts cls onUpDevid p.st = some (sdevid, ddevid)) :
    (∃ ddev, devs.ofDevid ddevid = some ddev) ∧
      ((p.pass cfg devs fid opts cls onUpDevid).round.copy = .copied ∨
        (p.pass cfg devs fid opts cls onUpDevid).round.copy = .srcError ∨
        (p.pass cfg devs fid opts cls onUpDevid).round.copy = .destError) := by
  obtain ⟨hconf, hpipe⟩ := h.copies (sdevid, ddevid) hattempt
  obtain ⟨ddev, hddev, -⟩ := hconf.dest
  refine ⟨⟨ddev, hddev⟩, ?_⟩
  have hclass : (httpCopy cfg devs sdevid ddevid fid none p.round.world).1.Classified :=
    classified_httpCopy_iff.mpr ⟨hconf, hpipe⟩
  have hcopy : (p.pass cfg devs fid opts cls onUpDevid).round.copy =
      (httpCopy cfg devs sdevid ddevid fid none p.round.world).1.outcome := by
    show ((p.round.result cfg devs fid opts cls onUpDevid p.st).map CopyResult.outcome).getD .died = _
    rw [HttpRound.result, hattempt]
    rfl
  rw [hcopy]
  generalize (httpCopy cfg devs sdevid ddevid fid none p.round.world).1 = result at hclass
  cases result with
  | copied => exact .inl rfl
  | died error => exact absurd hclass not_false
  | failed errcode errmsgs =>
    cases errcode with
    | none => exact absurd hclass Bool.false_ne_true
    | some code =>
      cases code with
      | srcError => exact .inr (.inl rfl)
      | destError => exact .inr (.inr rfl)

/-- A pass with care that ends the loop returns what is documented. -/
theorem HttpPass.Careful.exit (h : p.Careful cfg devs fid opts cls onUpDevid) {result : ReplResult}
    (hstep : (p.pass cfg devs fid opts cls onUpDevid).step devs fid opts cls onUpDevid = .exit result) :
    ∃ status, result = .returned status ∧ status.Documented := by
  cases hattempt : (p.pass cfg devs fid opts cls onUpDevid).attempt devs opts cls onUpDevid with
  | some a =>
    obtain ⟨sdevid, ddevid⟩ := a
    obtain ⟨⟨ddev, hddev⟩, houtcome⟩ := h.outcome hattempt
    rw [Pass.step_of_attempt fid hattempt] at hstep
    unfold copyFrom at hstep
    rcases houtcome with hcopy | hcopy | hcopy
    · simp [hcopy, hddev] at hstep
    · simp only [hcopy, CopyOutcome.code, copyFailed] at hstep
      split_ifs at hstep
      obtain rfl := CopyStep.exit.inj hstep
      exact ⟨_, rfl, documented_failure (by decide)⟩
    · simp [hcopy, CopyOutcome.code, copyFailed] at hstep
  | none =>
    have hanswers := h.answers
    generalize p.pass cfg devs fid opts cls onUpDevid = pass at hstep hattempt hanswers
    rw [Pass.step, copyStep_of_no_error hanswers] at hstep
    split at hstep
    · obtain rfl := CopyStep.exit.inj hstep
      refine ⟨_, rfl, fun errcode errmsg heq => ?_⟩
      split_ifs at heq
    rename_i hunhappy
    split at hstep
    · obtain rfl := CopyStep.exit.inj hstep
      exact ⟨_, rfl, fun errcode errmsg heq => by cases heq⟩
    · obtain rfl := CopyStep.exit.inj hstep
      exact ⟨_, rfl, documented_failure (by decide)⟩
    rename_i ddevid hchoice
    have hdest : pass.destination devs opts cls = some ddevid :=
      Pass.destination_eq_some.mpr ⟨hanswers, Bool.eq_false_iff.mpr hunhappy, hchoice⟩
    unfold copyTo at hstep
    dsimp only at hstep
    split at hstep
    · obtain rfl := CopyStep.exit.inj hstep
      exact ⟨_, rfl, documented_failure (by decide)⟩
    rename_i hfailed
    split at hstep
    · obtain rfl := CopyStep.exit.inj hstep
      exact ⟨_, rfl, documented_failure (by decide)⟩
    rename_i hon
    split at hstep
    · obtain rfl := CopyStep.exit.inj hstep
      exact ⟨_, rfl, documented_failure (by decide)⟩
    -- a pass that gets here is an attempt
    rename_i sdevid hsource
    have hsource' : chooseSource opts onUpDevid pass.round.source pass.st = some sdevid := hsource
    simp only [Pass.attempt, hdest] at hattempt
    rw [if_neg (by simpa using ⟨by simpa using hfailed, by simpa using hon⟩), hsource'] at hattempt
    cases hattempt

theorem HttpPass.Careful.left_lt (h : p.Careful cfg devs fid opts cls onUpDevid) {st' : CopyState}
    (hnext : ((p.pass cfg devs fid opts cls onUpDevid).step devs fid opts cls onUpDevid).next = some st') :
    st'.left devs onUpDevid < p.st.left devs onUpDevid := by
  cases hattempt : (p.pass cfg devs fid opts cls onUpDevid).attempt devs opts cls onUpDevid with
  | none =>
    rw [Pass.next_of_no_attempt hattempt] at hnext
    cases hnext
  | some a =>
    obtain ⟨sdevid, ddevid⟩ := a
    obtain ⟨⟨ddev, hddev⟩, -⟩ := h.outcome hattempt
    obtain ⟨hdest, -, -, -⟩ := Pass.attempt_eq_some hattempt
    obtain ⟨-, -, hchoice⟩ := Pass.destination_eq_some.mp hdest
    rcases copyStep_cases devs fid opts cls onUpDevid (p.pass cfg devs fid opts cls onUpDevid).round p.st rfl with
      ⟨-, hstep⟩ | ⟨-, -, hstep⟩ | ⟨result, -, hstep⟩ | ⟨-, ddevid', hchoice', hfailed, hon, hprogress⟩
    · rw [Pass.step, HttpPass.pass] at hnext
      rw [HttpPass.pass] at hstep
      rw [hstep] at hnext
      cases hnext
    · rw [Pass.step, HttpPass.pass] at hnext
      rw [HttpPass.pass] at hstep
      rw [hstep] at hnext
      cases hnext
    · rw [Pass.step, HttpPass.pass] at hnext
      rw [HttpPass.pass] at hstep
      rw [hstep] at hnext
      cases hnext
    · obtain rfl : ddevid = ddevid' := Choice.dest.inj (hchoice.symm.trans hchoice')
      exact hprogress.left_lt hnext ⟨ddev, DeviceMap.ofDevid_eq_some.mp hddev⟩ hfailed hon

end Pass

/-! ### The lock -/

/-- What a call of `replicate` meets, with the network of its copies. -/
structure HttpOutcomes where
  gotLock : Option Bool
  rounds : ℕ → HttpRound
  sizeMatches : ℕ → Option Bool
  httpDelete : Bool

section Calls

variable (cfg : CopyConfig) (devs : DeviceMap) (classOf : FileRow → Option ReplClass)

namespace HttpOutcomes

/-- The outcomes as `replicate` sees them, for the class and the devices that it reads. -/
def outcomes (out : HttpOutcomes) (fid : ℕ) (opts : ReplOpts) (read : Option (ReplClass × List Device)) : Outcomes where
  gotLock := out.gotLock
  rounds n :=
    match read with
    | some (cls, onDevs) =>
      httpRounds cfg devs fid opts cls (upDevids onDevs) n out.rounds (startState opts onDevs)
    | none => ⟨(out.rounds n).weights, (out.rounds n).source, .died⟩
  sizeMatches := out.sizeMatches
  httpDelete := out.httpDelete

end HttpOutcomes

/-- What happens to the lock of a file. -/
inductive LockOp where
  | taken | released
  deriving DecidableEq

/-- Who calls `replicate`: `replicate_using_devcounts`, and the two that ask for `no_unlock`. -/
inductive Caller where
  | devcounts
  | queue (env : Worker.Replicate.QueueEnv) (todo : ToReplicateRow)
  | rebalance (devid : ℕ) (avoidDevids : List ℕ)

namespace Caller

def opts : Caller → ReplOpts
  | devcounts => ⟨none, [], []⟩
  | queue _ todo => ⟨todo.fromdevid.filter (· != 0), [], []⟩
  | rebalance devid avoidDevids => ⟨none, [devid], avoidDevids⟩

/-- The caller after `replicate`, with its calls of `$unlock`. Where `no_unlock` is not asked for `replicate` unlocks
when it returns; the other callers do so last, whatever the branch. -/
def proceed (out : Outcomes) (fid : ℕ) : Caller → ReplResult → DbProg (List LockOp)
  | devcounts, .returned _ => pure [.released]
  | devcounts, _ => pure []
  | queue env todo, result => do
    match ← Worker.Replicate.settle env todo result with
    | true => pure [.released]
    | false => pure []
  | rebalance devid _, result => do
    match ← afterReplicate out fid devid result with
    | .returned _ => pure [.released]
    | _ => pure []

/-- A call of `replicate` and what the caller does next, with what happens to the lock. -/
def call (out : Outcomes) (fid : ℕ) (loaded : Option FileRow) (c : Caller) : DbProg (ReplResult × List LockOp) := do
  let result ← replicate devs classOf out fid loaded c.opts
  let unlocked ← c.proceed out fid result
  pure (result, (if out.gotLock = some true then [.taken] else []) ++ unlocked)

end Caller

variable {cfg devs classOf} {fid : ℕ} {loaded : Option FileRow} {opts : ReplOpts} {db : Db}

section Careful

variable (cfg devs classOf) (out : HttpOutcomes) (fid : ℕ) (loaded : Option FileRow) (opts : ReplOpts) (db : Db)

end Careful

end Calls

/-! ### A closed pipe -/

end Ylem
