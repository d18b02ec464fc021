import Ylem.Worker.FixFid
import Ylem.Worker.Rebalance

/-!
# Checking a fid

`check_fid` looks at what the tracker believes of a file first: that it is on some device, that its devices meet the
policy of its class, and that each has a copy of the right size, unless only policies are to be checked. At the first
thing that is wrong it turns to `fix_fid`.

A check passes if it is handled and does not give up. It does so exactly if every recorded device tells the size of
its copy, and a copy of the right length is among these or is found by the search before a device that cannot be
reached; and then the records are right, and the file has enough copies or is to be replicated (`checkFid_passes_iff`).
-/

namespace Ylem

/-! ### check_fid -/

/-- The entries of the fsck log that `check_fid` makes, and those of `fix_fid`. -/
inductive CheckLogEvent where
  | noPaths | policyViolation | cantFix
  | fix (event : FsckLogEvent)
  deriving DecidableEq

inductive CheckResult where
  | handled
  | stalled
  | died (error : String)
  deriving DecidableEq

/-- The result of `check_fid`, and what it has logged. -/
structure CheckRun where
  result : CheckResult
  log : List (CheckLogEvent × Option ℕ)
  deriving DecidableEq

/-- What `check_fid` makes of a fid before it changes anything: it is fine, or to be fixed, or the check ends here. -/
inductive FidVerdict where
  | fine
  | stalled
  | died (error : String)
  | fix (log : List CheckLogEvent)
  deriving DecidableEq

section Check

variable (env : FixEnv) (policyOnly : Bool) (row : FileRow) (known : List ℕ)

/-- `parallel_check_sizes`, which stops at the first copy that is not as it should be. -/
def checkSizes : List ℕ → FidVerdict
  | [] => .fine
  | devid :: dfids =>
    match env.sizeOnDisk devid with
    | .unreachable => .stalled
    | .died error => .died error
    | .missing => if row.length = 0 then checkSizes dfids else .fix []
    | .found diskSize => if diskSize = row.length then checkSizes dfids else .fix []

def quickCheck : FidVerdict :=
  if known.isEmpty then .fix [.noPaths]
  else match fidMeetsPolicy env row known with
    | none => .died "devids_meet_policy"
    | some false => .fix [.policyViolation]
    | some true => if policyOnly then .fine else checkSizes env row known

/-- `check_fid`, for a loaded fid with the devids that it was loaded with. -/
def checkFid : DbProg CheckRun :=
  match quickCheck env policyOnly row known with
  | .fine => pure ⟨.handled, []⟩
  | .stalled => pure ⟨.stalled, []⟩
  | .died error => pure ⟨.died error, []⟩
  | .fix log => do
    let run ← fixFid env row known
    let log := log.map (·, none) ++ run.checked.log.map fun entry => (.fix entry.1, entry.2)
    match run.result with
    | .died _ => pure ⟨.stalled, log⟩
    | .cantFix => pure ⟨.handled, log ++ [(.cantFix, none)]⟩
    | .handled => pure ⟨.handled, log⟩

/-- `check_fid` for the fid of a row, with its devids loaded at the same time. -/
def checkFile (fid : ℕ) : DbProg (Option CheckRun) := do
  match ← sql (.selectFile fid) with
  | none => pure none
  | some row => do
    let devids ← sql (.selectDevids fid)
    let run ← checkFid env policyOnly row devids
    pure (some run)

end Check

/-- The check is done with the fid, and has not given it up. -/
def CheckRun.Passes (run : CheckRun) : Prop := run.result = .handled ∧ (.cantFix, none) ∉ run.log

instance (run : CheckRun) : Decidable run.Passes := inferInstanceAs (Decidable (_ ∧ _))

/-! ### What the checks need -/

/-- The device tells the size of its copy, which is zero for none. -/
def FixEnv.Sized (env : FixEnv) (devid : ℕ) : Prop := ∃ diskSize, (env.sizeOnDisk devid).diskSize = .ok diskSize

/-- The size that the device tells is the length of the file; for an empty file that may be none. -/
def FixEnv.RightSize (env : FixEnv) (length devid : ℕ) : Prop := (env.sizeOnDisk devid).diskSize = .ok length

/-- A copy of the right length is on a known device, or the search finds one before it meets a device that cannot be
reached. -/
def FixEnv.Finds (env : FixEnv) (row : FileRow) (known : List ℕ) : Prop :=
  (∃ devid ∈ known, env.HasCopy row.length devid) ∨
    ∃ before devid after, searchDevids env = before ++ devid :: after ∧ env.HasCopy row.length devid ∧
      ∀ d ∈ before, env.Sized d

/-- The policy of the file's class has an answer for devices that tell the size of their copies. -/
def FixEnv.PolicyAnswers (env : FixEnv) (row : FileRow) : Prop :=
  ∀ devids, (∀ devid ∈ devids, env.Sized devid) → fidMeetsPolicy env row devids ≠ none

/-- The file is recorded on devices that have a copy of it, and it has enough copies or is to be replicated. -/
structure Verified (env : FixEnv) (row : FileRow) (db : Db) : Prop where
  recorded : db.devidsOf row.fid ≠ []
  copies : ∀ devid ∈ db.devidsOf row.fid, env.HasCopy row.length devid
  replicated : fidMeetsPolicy env row (db.devidsOf row.fid) = some true ∨ db.fileToReplicate.Has row.fid

section Sizes

variable {env : FixEnv} {row : FileRow} {known : List ℕ} {devid : ℕ} {c : Checked}

theorem FixEnv.HasCopy.sized {length : ℕ} (h : env.HasCopy length devid) : env.Sized devid :=
  ⟨length, by rw [h]; rfl⟩

/-- A round over all devices fails exactly if one does not tell its size. -/
theorem checkDfids_error_eq_none_iff (dfids : List ℕ) (c : Checked) (halready : ∀ d ∈ c.already, env.Sized d) :
    (checkDfids env row.length false dfids c).2 = none ↔ ∀ d ∈ dfids, env.Sized d := by
  induction dfids generalizing c with
  | nil => exact iff_of_true rfl fun _ h => absurd h List.not_mem_nil
  | cons devid dfids ih =>
    rw [checkDfids, List.forall_mem_cons]
    by_cases hcontains : c.already.contains devid
    · rw [if_pos hcontains, ih c halready]
      exact (and_iff_right (halready devid (by simpa using hcontains))).symm
    · rw [if_neg hcontains]
      cases hsize : (env.sizeOnDisk devid).diskSize with
      | error error =>
        refine iff_of_false (Option.some_ne_none error) fun h => ?_
        obtain ⟨diskSize, hdisk⟩ := h.1
        rw [hsize] at hdisk
        cases hdisk
      | ok diskSize =>
        have hsized : env.Sized devid := ⟨diskSize, hsize⟩
        have hmark : ∀ d ∈ (c.mark devid).already, env.Sized d := List.forall_mem_cons.mpr ⟨hsized, halready⟩
        dsimp only
        rw [and_iff_right hsized, if_neg Bool.false_ne_true]
        split_ifs
        · exact ih (c.addGood devid) hmark
        · exact ih (c.addBad false devid diskSize) hmark

theorem FixEnv.RightSize.sized {length : ℕ} (h : env.RightSize length devid) : env.Sized devid := ⟨length, h⟩

/-- A search succeeds exactly if it gets to a copy of the right size. -/
theorem checkDfids_found_iff (dfids : List ℕ) (c : Checked) (hgood : c.good = [])
    (halready : ∀ d ∈ c.already, env.Sized d ∧ ¬ env.RightSize row.length d) :
    ((checkDfids env row.length true dfids c).2 = none ∧ (checkDfids env row.length true dfids c).1.good ≠ []) ↔
      ∃ before devid after, dfids = before ++ devid :: after ∧ env.RightSize row.length devid ∧
        ∀ d ∈ before, env.Sized d := by
  have hcons : ∀ devid dfids, env.Sized devid → ¬ env.RightSize row.length devid →
      ((∃ before found after, devid :: dfids = before ++ found :: after ∧ env.RightSize row.length found ∧
          ∀ d ∈ before, env.Sized d) ↔
        ∃ before found after, dfids = before ++ found :: after ∧ env.RightSize row.length found ∧
          ∀ d ∈ before, env.Sized d) := by
    intro devid dfids hsized hnone
    constructor
    · rintro ⟨before, found, after, hsplit, hcopy, hbefore⟩
      cases before with
      | nil =>
        obtain ⟨rfl, -⟩ := List.cons.inj hsplit
        exact absurd hcopy hnone
      | cons first before =>
        obtain ⟨-, hrest⟩ := List.cons.inj hsplit
        exact ⟨before, found, after, hrest, hcopy, fun d hd => hbefore d (List.mem_cons_of_mem _ hd)⟩
    · rintro ⟨before, found, after, hsplit, hcopy, hbefore⟩
      exact ⟨devid :: before, found, after, by rw [hsplit, List.cons_append], hcopy,
        List.forall_mem_cons.mpr ⟨hsized, hbefore⟩⟩
  induction dfids generalizing c with
  | nil => exact iff_of_false (fun h => h.2 hgood) (by simp)
  | cons devid dfids ih =>
    rw [checkDfids]
    by_cases hcontains : c.already.contains devid
    · obtain ⟨hsized, hnone⟩ := halready devid (by simpa using hcontains)
      rw [if_pos hcontains]
      exact (ih c hgood halready).trans (hcons devid dfids hsized hnone).symm
    · rw [if_neg hcontains]
      cases hsize : (env.sizeOnDisk devid).diskSize with
      | error error =>
        refine iff_of_false (fun h => Option.some_ne_none error h.1) ?_
        rintro ⟨before, found, after, hsplit, hcopy, hbefore⟩
        have hsized : env.Sized devid := by
          cases before with
          | nil =>
            obtain ⟨rfl, -⟩ := List.cons.inj hsplit
            exact hcopy.sized
          | cons first before =>
            obtain ⟨rfl, -⟩ := List.cons.inj hsplit
            exact hbefore devid List.mem_cons_self
        obtain ⟨diskSize, hdisk⟩ := hsized
        rw [hsize] at hdisk
        cases hdisk
      | ok diskSize =>
        have hcopy : env.RightSize row.length devid ↔ diskSize = row.length := by
          rw [FixEnv.RightSize, hsize, Except.ok.injEq]
        dsimp only
        by_cases hlength : diskSize = row.length
        · rw [if_pos hlength, if_pos rfl]
          refine iff_of_true ⟨rfl, ?_⟩ ⟨[], devid, dfids, rfl, hcopy.mpr hlength, fun _ h => absurd h List.not_mem_nil⟩
          exact List.append_ne_nil_of_right_ne_nil _ (List.cons_ne_nil devid [])
        · rw [if_neg hlength, hcons devid dfids ⟨diskSize, hsize⟩ (mt hcopy.mp hlength)]
          exact ih (c.addBad true devid diskSize) hgood
            (List.forall_mem_cons.mpr ⟨⟨⟨diskSize, hsize⟩, mt hcopy.mp hlength⟩, halready⟩)

end Sizes

/-! ### What the fix comes to -/

section Fix

variable {env : FixEnv} {row : FileRow} {known : List ℕ} {db : Db}

theorem settle_replicated (cached : Option (List ℕ)) (c : Checked) (hcached : ∀ devids ∈ cached, devids = db.devidsOf row.fid) :
    let run := (settleRecords env row cached c).exec db
    fidMeetsPolicy env row (run.2.devidsOf row.fid) ≠ none →
      run.1.result = .handled ∧
        (fidMeetsPolicy env row (run.2.devidsOf row.fid) = some true ∨ run.2.fileToReplicate.Has row.fid) := by
  intro run hanswers
  have hleft := (settle_exec env row cached c db).1
  rw [hleft] at hanswers ⊢
  have hforget := devidsOf_forgetBad row.fid c.bad db
  generalize hdevids : (db.devidsOf row.fid).filter (fun d => !c.bad.contains d) = devids at hanswers hforget ⊢
  cases hpolicy : fidMeetsPolicy env row devids with
  | none => exact absurd hpolicy hanswers
  | some meets =>
    have hrun : run.1.result = .handled ∧ (meets = false → run.2.fileToReplicate.Has row.fid) := by
      simp only [run, settleRecords, DbProg.exec, Prog.exec_bind] at hforget ⊢
      cases hcache : (if c.bad.isEmpty then cached else none) with
      | none =>
        simp only [Prog.exec_bind, Prog.exec_issue, Stmt.run, hforget, hpolicy]
        cases meets with
        | true => exact ⟨rfl, fun h => by cases h⟩
        | false => exact ⟨rfl, fun _ => Table.has_insertIgnore.mpr (.inr rfl)⟩
      | some loaded =>
        have hloaded : loaded = devids := by
          split_ifs at hcache with hbad
          rw [hcached loaded hcache, ← hdevids, List.isEmpty_iff.mp hbad]
          simp
        simp only [Prog.pure_eq, Prog.exec_bind, Prog.exec_ret, hloaded, hpolicy]
        cases meets with
        | true => exact ⟨rfl, fun h => by cases h⟩
        | false => exact ⟨rfl, fun _ => Table.has_insertIgnore.mpr (.inr rfl)⟩
    refine ⟨hrun.1, ?_⟩
    cases meets with
    | true => exact .inl rfl
    | false => exact .inr (hrun.2 rfl)

theorem settle_verified (hanswers : env.PolicyAnswers row) {cached : Option (List ℕ)} {c : Checked}
    (hcached : ∀ devids ∈ cached, devids = db.devidsOf row.fid) (hsound : c.Sound env row.length) (hgood : c.good ≠ [])
    (hrecords : ∀ devid, devid ∈ (db.devidsOf row.fid).filter (fun d => !c.bad.contains d) ↔ devid ∈ c.good) :
    let run := (settleRecords env row cached c).exec db
    run.1.result = .handled ∧ Verified env row run.2 := by
  intro run
  have hleft := (settle_exec env row cached c db).1
  have hcopies : ∀ devid ∈ run.2.devidsOf row.fid, env.HasCopy row.length devid := fun devid hdevid => by
    rw [hleft, hrecords] at hdevid
    exact ((hsound.good_iff devid).mp hdevid).2
  obtain ⟨hhandled, hreplicated⟩ := settle_replicated cached c hcached (hanswers _ fun d hd => (hcopies d hd).sized)
  refine ⟨hhandled, fun hnil => ?_, hcopies, hreplicated⟩
  obtain ⟨g, rest, hcons⟩ := List.exists_cons_of_ne_nil hgood
  have hg := (hrecords g).mpr (by rw [hcons]; exact List.mem_cons_self)
  rw [← hleft, hnil] at hg
  exact absurd hg List.not_mem_nil

variable (db) in
theorem fixFid_handled_iff (hlen : 0 < row.length) (hanswers : env.PolicyAnswers row)
    (hknown : db.devidsOf row.fid = known) :
    let run := (fixFid env row known).exec db
    (run.1.result = .handled ↔ (∀ devid ∈ known, env.Sized devid) ∧ env.Finds row known) ∧
      (run.1.result = .handled → Verified env row run.2) := by
  intro run
  have hmem : ∀ devid, devid ∈ known ↔ devid ∈ db.devidsOf row.fid := fun devid => by rw [hknown]
  have hspec := checkDfids_spec env hlen false known .start
  have hsized : (checkDfids env row.length false known .start).2 = none ↔ _ :=
    checkDfids_error_eq_none_iff known Checked.start fun _ h => absurd h List.not_mem_nil
  have hsound := hspec.sound Checked.sound_start
  generalize hcheck : checkDfids env row.length false known .start = checked at hspec hsound hsized
  obtain ⟨c, error⟩ := checked
  cases error with
  | some error =>
    have hrun : run = (⟨.died error, c⟩, db) := by
      simp only [run, fixFid, hcheck]
      rfl
    have hnot : ¬ ∀ d ∈ known, env.Sized d := fun h => Option.some_ne_none error (hsized.mpr h)
    rw [hrun]
    exact ⟨iff_of_false (fun h => by cases h) fun h => hnot h.1, fun h => by cases h⟩
  | none =>
    have hall := hsized.mp rfl
    rw [and_iff_right hall]
    -- the copies among the recorded devices are the good ones
    have hgood_iff : ∀ devid, devid ∈ c.good ↔ devid ∈ known ∧ env.HasCopy row.length devid := by
      intro devid
      rw [hsound.good_iff]
      refine and_congr_left fun _ => ⟨fun h => ?_, hspec.all rfl rfl devid⟩
      exact (hspec.of_already devid h).resolve_left List.not_mem_nil
    by_cases hnone : c.good = []
    · have halready : ∀ d ∈ (c.fsckLog .startSearch none).already, env.Sized d ∧ ¬ env.HasCopy row.length d := by
        intro d hd
        have hd' : d ∈ known := (hspec.of_already d hd).resolve_left List.not_mem_nil
        refine ⟨hall d hd', fun hcopy => ?_⟩
        have hin := (hgood_iff d).mpr ⟨hd', hcopy⟩
        rw [hnone] at hin
        exact absurd hin List.not_mem_nil
      have hfound := checkDfids_found_iff (searchDevids env) (c.fsckLog .startSearch none) hnone fun d hd =>
        ⟨(halready d hd).1, mt (env.hasCopy_iff hlen).mpr (halready d hd).2⟩
      simp only [FixEnv.RightSize, ← env.hasCopy_iff hlen] at hfound
      have hfinds : env.Finds row known ↔ ∃ before devid after, searchDevids env = before ++ devid :: after ∧
          env.HasCopy row.length devid ∧ ∀ d ∈ before, env.Sized d := by
        refine or_iff_right ?_
        rintro ⟨devid, hdevid, hcopy⟩
        have hin := (hgood_iff devid).mpr ⟨hdevid, hcopy⟩
        rw [hnone] at hin
        exact absurd hin List.not_mem_nil
      rw [hfinds, ← hfound]
      have hsearch := checkDfids_spec env hlen true (searchDevids env) (c.fsckLog .startSearch none)
      have hsound' := hsearch.sound hsound.fsckLog
      generalize hagain : checkDfids env row.length true (searchDevids env)
        (c.fsckLog .startSearch none) = searched at hsearch hsound' ⊢
      obtain ⟨c', error⟩ := searched
      cases error with
      | some error =>
        have hrun : run = (⟨.died error, c'⟩, db) := by
          simp only [run, fixFid, hcheck, hnone, List.isEmpty_nil, if_true, hagain]
          rfl
        rw [hrun]
        exact ⟨iff_of_false (fun h => by cases h) fun h => Option.some_ne_none error h.1, fun h => by cases h⟩
      | none =>
        cases hgood : c'.good with
        | nil =>
          have hrun : run = (⟨.cantFix, c'⟩, db) := by
            simp only [run, fixFid, hcheck, hnone, List.isEmpty_nil, if_true, hagain, hgood]
            rfl
          rw [hrun]
          exact ⟨iff_of_false (fun h => by cases h) fun h => h.2 rfl, fun h => by cases h⟩
        | cons g rest =>
          have hrun : run = (settleRecords env row none (c'.fsckLog .foundFid none)).exec
              ((addToDb env.lock row.fid g).exec db).2 := by
            simp only [run, fixFid, hcheck, hnone, List.isEmpty_nil, if_true, hagain, hgood, DbProg.exec,
              Prog.exec_bind]
          have hne : (c'.fsckLog .foundFid none).good ≠ [] := by
            show c'.good ≠ []
            rw [hgood]
            exact List.cons_ne_nil g rest
          have hrecords := settle_found hspec hnone hsearch hgood hmem
          obtain ⟨hhandled, hverified⟩ := settle_verified hanswers (fun _ h => absurd h (Option.not_mem_none _))
            hsound'.fsckLog hne hrecords
          rw [hrun]
          exact ⟨iff_of_true hhandled ⟨rfl, List.cons_ne_nil g rest⟩, fun _ => hverified⟩
    · have hrun : run = (settleRecords env row (some known) c).exec db := by
        have hne : ¬ c.good.isEmpty = true := by simpa using hnone
        simp only [run, fixFid, hcheck, hne]
        rfl
      have hcached : ∀ devids ∈ some known, devids = db.devidsOf row.fid := fun _ h => by rw [← Option.some.inj h, hknown]
      obtain ⟨hhandled, hverified⟩ := settle_verified hanswers hcached hsound hnone (settle_known hspec hmem)
      obtain ⟨g, rest, hcons⟩ := List.exists_cons_of_ne_nil hnone
      have hg := (hgood_iff g).mp (by rw [hcons]; exact List.mem_cons_self)
      rw [hrun]
      exact ⟨iff_of_true hhandled (.inl ⟨g, hg⟩), fun _ => hverified⟩

end Fix

/-! ### The verdict -/

section Verdict

variable {env : FixEnv} {row : FileRow} {known : List ℕ} {db : Db}

variable (env) in
theorem checkSizes_spec (hlen : 0 < row.length) (dfids : List ℕ) :
    (checkSizes env row dfids = .fine ∧ ∀ devid ∈ dfids, env.HasCopy row.length devid) ∨
      checkSizes env row dfids = .fix [] ∨
      (checkSizes env row dfids = .stalled ∨ ∃ error, checkSizes env row dfids = .died error) ∧
        ¬ ∀ devid ∈ dfids, env.Sized devid := by
  induction dfids with
  | nil => exact .inl ⟨rfl, fun _ h => absurd h List.not_mem_nil⟩
  | cons devid dfids ih =>
    have hunsized : ∀ {error : String}, (env.sizeOnDisk devid).diskSize = .error error →
        ¬ ∀ d ∈ devid :: dfids, env.Sized d := fun {error} herror h => by
      obtain ⟨diskSize, hsize⟩ := h devid List.mem_cons_self
      rw [herror] at hsize
      cases hsize
    rw [checkSizes]
    cases hsize : env.sizeOnDisk devid with
    | unreachable => exact .inr (.inr ⟨.inl rfl, hunsized (by rw [hsize]; rfl)⟩)
    | died error => exact .inr (.inr ⟨.inr ⟨error, rfl⟩, hunsized (by rw [hsize]; rfl)⟩)
    | missing =>
      dsimp only
      rw [if_neg hlen.ne']
      exact .inr (.inl rfl)
    | found diskSize =>
      dsimp only
      split_ifs with hlength
      · have hcopy : env.HasCopy row.length devid := by rw [FixEnv.HasCopy, hsize, hlength]
        rcases ih with ⟨hfine, hcopies⟩ | hfix | ⟨hends, hsizes⟩
        · exact .inl ⟨hfine, List.forall_mem_cons.mpr ⟨hcopy, hcopies⟩⟩
        · exact .inr (.inl hfix)
        · exact .inr (.inr ⟨hends, fun h => hsizes fun d hd => h d (List.mem_cons_of_mem _ hd)⟩)
      · exact .inr (.inl rfl)

variable (env row known) in
theorem quickCheck_spec (hlen : 0 < row.length) (hanswers : env.PolicyAnswers row) :
    (quickCheck env false row known = .fine ∧ known ≠ [] ∧ fidMeetsPolicy env row known = some true ∧
        ∀ devid ∈ known, env.HasCopy row.length devid) ∨
      (∃ log, quickCheck env false row known = .fix log ∧ .cantFix ∉ log) ∨
      (quickCheck env false row known = .stalled ∨ ∃ error, quickCheck env false row known = .died error) ∧
        ¬ ∀ devid ∈ known, env.Sized devid := by
  unfold quickCheck
  by_cases hempty : known.isEmpty = true
  · rw [if_pos hempty]
    exact .inr (.inl ⟨_, rfl, by decide⟩)
  rw [if_neg hempty]
  have hne : known ≠ [] := fun hnil => hempty (List.isEmpty_iff.mpr hnil)
  cases hpolicy : fidMeetsPolicy env row known with
  | none => exact .inr (.inr ⟨.inr ⟨_, rfl⟩, fun h => hanswers known h hpolicy⟩)
  | some meets =>
    cases meets with
    | false => exact .inr (.inl ⟨_, rfl, by decide⟩)
    | true =>
      dsimp only
      rw [if_neg Bool.false_ne_true]
      rcases checkSizes_spec env hlen known with ⟨hfine, hcopies⟩ | hfix | hends
      · exact .inl ⟨hfine, hne, rfl, hcopies⟩
      · exact .inr (.inl ⟨[], hfix, List.not_mem_nil⟩)
      · exact .inr (.inr hends)

theorem policyAnswers_multipleHosts {self : MultipleHosts} {minFree : ℕ} {cls : ReplClass}
    (hcls : cls.policy = self.replicateTo minFree) (hclass : env.classOf row = some cls) : env.PolicyAnswers row := by
  intro devids hsized
  have hdevs : ∀ devid ∈ devids, ∃ d, env.devs.ofDevid devid = some d := by
    intro devid hdevid
    obtain ⟨diskSize, hsize⟩ := hsized devid hdevid
    unfold FixEnv.sizeOnDisk at hsize
    cases hdev : env.devs.ofDevid devid with
    | none =>
      rw [hdev] at hsize
      cases hsize
    | some d => exact ⟨d, rfl⟩
  obtain ⟨on, hon⟩ := mapM_ofDevid_of_forall hdevs
  have hmeets : fidMeetsPolicy env row devids = devidsMeetPolicy env.devs cls env.weights on := by
    simp only [fidMeetsPolicy, hclass, hon, Option.bind_eq_bind, Option.bind_some]
  rw [hmeets, devidsMeetPolicy, hcls]
  simp only [MultipleHosts.error_eq_none]
  exact Option.some_ne_none _

variable (env) in
/-- A check of a fid passes exactly if the recorded devices tell the sizes of their copies and a copy of the right
length is found, and then the records are right. -/
theorem checkFid_passes_iff (hlen : 0 < row.length) (hanswers : env.PolicyAnswers row) :
    let run := (checkFid env false row (db.devidsOf row.fid)).exec db
    (run.1.Passes ↔ (∀ devid ∈ db.devidsOf row.fid, env.Sized devid) ∧ env.Finds row (db.devidsOf row.fid)) ∧
      (run.1.Passes → Verified env row run.2) := by
  intro run
  rcases quickCheck_spec env row (db.devidsOf row.fid) hlen hanswers with
    ⟨hfine, hne, hpolicy, hcopies⟩ | ⟨log, hfix, hlog⟩ | ⟨hends, hsizes⟩
  · have hrun : run = (⟨.handled, []⟩, db) := by
      simp only [run, checkFid, hfine]
      rfl
    obtain ⟨devid, rest, hcons⟩ := List.exists_cons_of_ne_nil hne
    have hdevid : devid ∈ db.devidsOf row.fid := by rw [hcons]; exact List.mem_cons_self
    rw [hrun]
    exact ⟨iff_of_true ⟨rfl, List.not_mem_nil⟩ ⟨fun d hd => (hcopies d hd).sized, .inl ⟨devid, hdevid, hcopies devid hdevid⟩⟩,
      fun _ => ⟨hne, hcopies, .inl hpolicy⟩⟩
  · have hfixed := fixFid_handled_iff db hlen hanswers rfl
    have hrun : run.2 = ((fixFid env row (db.devidsOf row.fid)).exec db).2 ∧
        (run.1.Passes ↔ ((fixFid env row (db.devidsOf row.fid)).exec db).1.result = .handled) := by
      simp only [run, checkFid, hfix, DbProg.exec, Prog.exec_bind]
      cases hresult : ((fixFid env row (db.devidsOf row.fid)).exec db).1.result with
      | handled =>
        refine ⟨rfl, iff_of_true ⟨rfl, fun hmem => ?_⟩ rfl⟩
        rcases List.mem_append.mp hmem with hmem | hmem
        · obtain ⟨event, hevent, heq⟩ := List.mem_map.mp hmem
          exact hlog ((Prod.mk.inj heq).1 ▸ hevent)
        · obtain ⟨entry, -, heq⟩ := List.mem_map.mp hmem
          cases (Prod.mk.inj heq).1
      | cantFix =>
        refine ⟨rfl, iff_of_false (fun h => h.2 ?_) fun h => by cases h⟩
        exact List.mem_append_right _ (List.mem_singleton_self _)
      | died error => exact ⟨rfl, iff_of_false (fun h => by cases h.1) fun h => by cases h⟩
    rw [hrun.1, hrun.2]
    exact hfixed
  · have hrun : run.1.result ≠ .handled := by
      rcases hends with hends | ⟨error, hends⟩
      · simp only [run, checkFid, hends]
        exact fun h => by cases h
      · simp only [run, checkFid, hends]
        exact fun h => by cases h
    exact ⟨iff_of_false (fun h => hrun h.1) fun h => hsizes h.1, fun h => absurd h.1 hrun⟩

end Verdict

/-- The copy that the records do not know of is found, and the check passes. -/
theorem checkFid_onD3 :
    let run := (checkFid onD3 false fiveBytes (recordedOnD1.devidsOf fiveBytes.fid)).exec recordedOnD1
    run.1.Passes ∧ Verified onD3 fiveBytes run.2 := by
  have hpasses : ((checkFid onD3 false fiveBytes (recordedOnD1.devidsOf fiveBytes.fid)).exec recordedOnD1).1.Passes := by
    decide +kernel
  exact ⟨hpasses, (checkFid_passes_iff onD3 (by decide) (policyAnswers_multipleHosts rfl rfl)).2 hpasses⟩

end Ylem
