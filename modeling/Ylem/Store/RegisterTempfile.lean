import Ylem.Query.Reply

/-!
# Allocating a fid

`register_tempfile` lets the `AUTO_INCREMENT` counter of table `tempfile` choose the fid of a new upload.
The counter may have fallen back, on a server that computes it anew from the table, so the function looks
for the fid in table `file` and, if it is there, moves the counter behind the largest fid of that table
with a dummy row. Other tables are not looked at.

Two facts carry the analysis: the counter is above every fid of `tempfile` (`CounterAbove`, which every
statement keeps), and the loop of the function never sees another fid than the counter, the one after the
largest of `tempfile`, and the one after the largest of `file` (`registerTempfile_candidate`).
-/

namespace Ylem

/-- The arguments of `register_tempfile` besides the fid, and the time of the insert. -/
structure NewTempfile where
  dmid : ℕ
  key : Text
  classid : ℕ
  devids : Text
  now : ℕ

def NewTempfile.row (new : NewTempfile) (fid : ℕ) : TempfileRow :=
  ⟨fid, new.now, new.classid, new.dmid, new.key, new.devids⟩

/-- How a call of `register_tempfile` ends. `running` is a loop that has not ended after the rounds it was
given. -/
inductive Registered where
  | ok (fid : ℕ)
  | died (e : Exn)
  | running
  deriving DecidableEq

namespace Store

variable (new : NewTempfile)

/-- `$ins_tempfile`: the fid that is in use afterwards, or nothing where it returns `undef`. A fid that is
not positive leaves the choice to the database. -/
def insTempfile (fid : Option ℤ) (reseeded : Bool) : DbProg (Except Exn (Option ℕ)) := do
  let explicit := (fid.filter (0 < ·)).map Int.toNat
  match ← sql (.insertTempfile explicit new.dmid new.key new.classid new.devids new.now reseeded) with
  | none => pure (.ok none)
  | some id =>
    match fid with
    | some fid => pure (.ok (if 0 < fid then some fid.toNat else none))
    | none =>
      if id = 0 then pure (.error (.other "No last_insert_id found".toList)) else pure (.ok (some id))

/-- `$fid_in_use`. -/
def fidInUse (fid : ℕ) : DbProg Bool := do
  let count ← sql (.countFile fid)
  pure (count != 0)

/-- Re-seed the table with the highest fid of table `file`, and insert the row anew. `reseeded` says of each
insert whether the counter has fallen back before it. -/
def reseed (fid : ℕ) (reseeded : ℕ → Bool) : DbProg (Except Exn (Option ℕ)) := do
  sql (.deleteTempfiles [fid])
  let max ← sql .selectMaxFid
  -- reseeding auto-increment fid
  match ← insTempfile new (max.map Int.ofNat) (reseeded 0) with
  | .error e => pure (.error e)
  | .ok none => insTempfile new none (reseeded 1)
  | .ok (some fid) => do
    sql (.deleteTempfiles [fid])
    insTempfile new none (reseeded 1)

/-- The `while` loop, for at most as many rounds as `fuel` says. -/
def reseedLoop (explicit : Bool) : ℕ → (ℕ → Bool) → ℕ → DbProg Registered
  | 0, _, _ => pure .running
  | fuel + 1, reseeded, fid => do
    match ← fidInUse fid with
    | false => pure (.ok fid)
    | true =>
      if explicit then pure (.died .dup)
      else do
        match ← reseed new fid reseeded with
        | .error e => pure (.died e)
        | .ok none => pure (.died (.other "register_tempfile failed after seeding".toList))
        | .ok (some fid) => reseedLoop explicit fuel (fun n => reseeded (n + 2)) fid

def registerTempfile (fid : Option ℤ) (fuel : ℕ) (reseeded : ℕ → Bool) : DbProg Registered := do
  let explicit := fid.any (· != 0)
  match ← insTempfile new fid (reseeded 0) with
  | .error e => pure (.died e)
  | .ok none => pure (.died (if explicit then .dup else .other "tempfile insert failed".toList))
  | .ok (some fid) => reseedLoop new explicit fuel (fun n => reseeded (n + 1)) fid

end Store

/-! ### The statements of the function -/

/-- The statements that the function issues for `new` have the property. -/
structure RegisterStmts (new : NewTempfile) (P : Stmt → Prop) : Prop where
  insert : ∀ fid reseeded, fid ≠ some 0 →
    P (.insertTempfile fid new.dmid new.key new.classid new.devids new.now reseeded)
  delete : ∀ fid, P (.deleteTempfiles [fid])
  selectMax : P .selectMaxFid
  count : ∀ fid, P (.countFile fid)

section Statements

variable {new : NewTempfile} {P : Stmt → Prop}

theorem issues_insTempfile (h : RegisterStmts new P) (fid : Option ℤ) (reseeded : Bool) :
    (Store.insTempfile new fid reseeded).Issues P := by
  refine ⟨h.insert _ _ fun hzero => ?_, fun id => ?_⟩
  · -- only a positive fid is passed on
    obtain ⟨n, hn, hn0⟩ := Option.map_eq_some_iff.mp hzero
    have hpos : 0 < n := by simpa using (Option.filter_eq_some_iff.mp hn).2
    omega
  · cases id with
    | none => exact trivial
    | some id =>
      cases fid with
      | some fid => exact trivial
      | none =>
        show Prog.Issues _ (ite _ _ _)
        split_ifs <;> exact trivial

theorem issues_reseed (h : RegisterStmts new P) (fid : ℕ) (reseeded : ℕ → Bool) :
    (Store.reseed new fid reseeded).Issues P := by
  refine ⟨h.delete fid, fun _ => ⟨h.selectMax, fun max => ?_⟩⟩
  refine (issues_insTempfile h _ _).bind fun found => ?_
  split
  · exact trivial
  · exact issues_insTempfile h _ _
  · exact ⟨h.delete _, fun _ => issues_insTempfile h _ _⟩

theorem issues_reseedLoop (h : RegisterStmts new P) (explicit : Bool) (fuel : ℕ) (reseeded : ℕ → Bool) (fid : ℕ) :
    (Store.reseedLoop new explicit fuel reseeded fid).Issues P := by
  induction fuel generalizing reseeded fid with
  | zero => exact trivial
  | succ fuel ih =>
    refine ⟨h.count fid, fun count => ?_⟩
    show Prog.Issues _ (match count != 0 with | false => _ | true => _)
    cases count != 0 with
    | false => exact trivial
    | true =>
      show Prog.Issues _ (ite _ _ _)
      split_ifs
      · exact trivial
      · refine (issues_reseed h _ _).bind fun found => ?_
        split
        · exact trivial
        · exact trivial
        · exact ih _ _

theorem issues_registerTempfile (h : RegisterStmts new P) (fid : Option ℤ) (fuel : ℕ) (reseeded : ℕ → Bool) :
    (Store.registerTempfile new fid fuel reseeded).Issues P := by
  refine (issues_insTempfile h _ _).bind fun found => ?_
  split
  · exact trivial
  · exact trivial
  · exact issues_reseedLoop h _ _ _ _

end Statements

/-! ### The counter -/

namespace Db

/-- The largest fid of table `tempfile`, `0` without rows. -/
def maxTempfile (db : Db) : ℕ := (db.tempfile.rows.map TempfileRow.fid).max?.getD 0

/-- The largest fid of table `file`, `0` without rows. -/
def maxFile (db : Db) : ℕ := (db.file.rows.map FileRow.fid).max?.getD 0

/-- The counter is positive and has passed every fid of `tempfile`. -/
structure CounterAbove (db : Db) : Prop where
  pos : 0 < db.nextFid
  lt : ∀ fid, db.tempfile.Has fid → fid < db.nextFid

theorem le_max_getD {l : List ℕ} {n : ℕ} (h : n ∈ l) : n ≤ l.max?.getD 0 := by
  obtain ⟨m, hm⟩ : ∃ m, l.max? = some m := by
    rw [← Option.isSome_iff_exists, List.isSome_max?_iff]
    exact List.ne_nil_of_mem h
  rw [hm, Option.getD_some]
  exact (List.max?_eq_some_iff.mp hm).2 n h

theorem le_maxTempfile {db : Db} {fid : ℕ} (h : db.tempfile.Has fid) : fid ≤ db.maxTempfile := le_max_getD h

theorem le_maxFile {db : Db} {fid : ℕ} (h : db.file.Has fid) : fid ≤ db.maxFile := le_max_getD h

theorem autoFid_eq (db : Db) (reseeded : Bool) :
    db.autoFid reseeded = if reseeded then db.maxTempfile + 1 else db.nextFid := rfl

theorem CounterAbove.autoFid {db : Db} (h : db.CounterAbove) (reseeded : Bool) {fid : ℕ}
    (hfid : db.tempfile.Has fid) : fid < db.autoFid reseeded := by
  rw [autoFid_eq]
  split_ifs
  · exact Nat.lt_succ_of_le (le_maxTempfile hfid)
  · exact h.lt fid hfid

theorem CounterAbove.autoFid_pos {db : Db} (h : db.CounterAbove) (reseeded : Bool) :
    0 < db.autoFid reseeded := by
  rw [autoFid_eq]
  split_ifs
  · exact Nat.succ_pos _
  · exact h.pos

theorem counterAbove_fresh : fresh.CounterAbove :=
  ⟨Nat.one_pos, fun _ h => absurd h (Table.not_has_empty _)⟩

end Db

/-- Every statement keeps the counter above the table. -/
theorem Stmt.counterAbove_run (s : Stmt) {db : Db} (h : db.CounterAbove) : (s.run db).2.CounterAbove := by
  cases s
  case insertTempfile fid dmid key classid devids createtime reseeded =>
    simp only [Stmt.run]
    split_ifs with hdup
    · exact ⟨h.autoFid_pos reseeded, fun x hx => h.autoFid reseeded hx⟩
    · refine ⟨?_, fun x hx => ?_⟩
      · simp only
        omega
      rcases Table.has_insertIgnore.mp hx with hx | rfl
      · have hlt := h.autoFid reseeded hx
        simp only
        omega
      · simp only
        omega
  case deleteTempfiles fids => exact ⟨h.pos, fun fid hfid => h.lt fid (Table.has_of_has_delete hfid)⟩
  case renameFile fid key =>
    simp only [Stmt.run]
    split <;> exact ⟨h.pos, h.lt⟩
  all_goals exact ⟨h.pos, h.lt⟩

/-! ### One round of the loop -/

namespace Store

variable (new : NewTempfile) {db₀ db : Db} {fid : ℕ}

/-- The database once the function has inserted its row for `fid`. -/
def opened (db₀ : Db) (fid : ℕ) : Db :=
  { db₀ with tempfile := db₀.tempfile.insertIgnore (new.row fid), nextFid := fid + 1 }

/-- `fid` is above the fids of the table. -/
def AboveTempfile (db₀ : Db) (fid : ℕ) : Prop := 0 < fid ∧ ∀ x, db₀.tempfile.Has x → x < fid

theorem AboveTempfile.not_has (h : AboveTempfile db₀ fid) : ¬ db₀.tempfile.Has fid := fun hhas =>
  absurd (h.2 fid hhas) (Nat.lt_irrefl _)

theorem AboveTempfile.maxTempfile_lt (h : AboveTempfile db fid) : db.maxTempfile < fid := by
  unfold Db.maxTempfile
  cases hmax : (db.tempfile.rows.map TempfileRow.fid).max? with
  | none => exact h.1
  | some m => exact h.2 m (List.max?_mem hmax)

theorem aboveTempfile_autoFid (h : db.CounterAbove) (reseeded : Bool) :
    AboveTempfile db (db.autoFid reseeded) :=
  ⟨h.autoFid_pos reseeded, fun _ hx => h.autoFid reseeded hx⟩

theorem exec_insTempfile_auto (h : db.CounterAbove) (reseeded : Bool) :
    (insTempfile new none reseeded).exec db =
      (.ok (some (db.autoFid reseeded)), opened new db (db.autoFid reseeded)) := by
  have habove := aboveTempfile_autoFid h reseeded
  have hmax : max (db.autoFid reseeded) (db.autoFid reseeded + 1) = db.autoFid reseeded + 1 := by omega
  simp only [insTempfile, DbProg.exec, Prog.exec_bind, Prog.exec_issue, Stmt.run, Option.filter_none,
    Option.map_none, Option.getD_none, if_neg habove.not_has, if_neg habove.1.ne', hmax]
  rfl

theorem exec_insTempfile_seed (db : Db) (reseeded : Bool) (h : AboveTempfile db fid) :
    (insTempfile new (some (fid : ℤ)) reseeded).exec db =
      (.ok (some fid), { db with
        tempfile := db.tempfile.insertIgnore (new.row fid)
        nextFid := max (db.autoFid reseeded) (fid + 1) }) := by
  have hpos : (0 : ℤ) < fid := by exact_mod_cast h.1
  simp only [insTempfile, DbProg.exec, Prog.exec_bind, Prog.exec_issue, Stmt.run, Option.filter_some,
    hpos, decide_true, if_true, Option.map_some, Option.getD_some, Int.toNat_natCast, if_neg h.not_has]
  rfl

theorem exec_deleteTempfiles_new (h : AboveTempfile db₀ fid) (n : ℕ) :
    (sql (.deleteTempfiles [fid])).exec
        { db₀ with tempfile := db₀.tempfile.insertIgnore (new.row fid), nextFid := n } =
      ((), { db₀ with nextFid := n }) := by
  have hrest : ∀ x ∈ db₀.tempfile.rows, [fid].contains x.fid = false := by
    intro x hx
    have hlt := h.2 x.fid (Table.has_of_mem hx)
    simp only [List.contains_eq_mem, List.mem_singleton, decide_eq_false_iff_not]
    omega
  have hback : (db₀.tempfile.insertIgnore (new.row fid)).delete (fun r => [fid].contains r.fid) =
      db₀.tempfile :=
    Table.delete_insertIgnore h.not_has (by simp [NewTempfile.row]) hrest
  simp only [DbProg.exec, Prog.exec_issue, Stmt.run, hback]

theorem exec_fidInUse (fid : ℕ) (db : Db) : (fidInUse fid).exec db = (decide (db.file.Has fid), db) := by
  have hcount : ((db.file.rows.filter fun r => r.fid = fid).length != 0) = decide (db.file.Has fid) := by
    rw [Bool.eq_iff_iff]
    simp [Table.has_iff]
  simp only [fidInUse, DbProg.exec, Prog.exec_bind, Prog.exec_issue, Stmt.run, hcount]
  rfl

theorem max?_of_has (h : db.file.Has fid) : (db.file.rows.map FileRow.fid).max? = some db.maxFile := by
  obtain ⟨m, hm⟩ : ∃ m, (db.file.rows.map FileRow.fid).max? = some m := by
    rw [← Option.isSome_iff_exists, List.isSome_max?_iff]
    exact List.ne_nil_of_mem h
  rw [Db.maxFile, hm, Option.getD_some]

/-- The fid that the counter gives after a reseeding. -/
def nextSeed (db : Db) (reseeded : Bool) : ℕ := if reseeded then db.maxTempfile + 1 else db.maxFile + 1

/-- Re-seeding ends with the counter's next fid, in the database as it was before the function began. -/
theorem exec_reseed (reseeded : ℕ → Bool) (habove : AboveTempfile db₀ fid) (hused : db₀.file.Has fid) :
    (reseed new fid reseeded).exec (opened new db₀ fid) =
      (.ok (some (nextSeed db₀ (reseeded 1))), opened new db₀ (nextSeed db₀ (reseeded 1))) := by
  have hle : fid ≤ db₀.maxFile := Db.le_maxFile hused
  have hseed : AboveTempfile db₀ db₀.maxFile :=
    ⟨lt_of_lt_of_le habove.1 hle, fun x hx => lt_of_lt_of_le (habove.2 x hx) hle⟩
  have htemp : db₀.maxTempfile < fid := habove.maxTempfile_lt
  -- the dummy row moves the counter behind the largest fid of `file`, whatever it was
  have hnext : max (Db.autoFid { db₀ with nextFid := fid + 1 } (reseeded 0)) (db₀.maxFile + 1) =
      db₀.maxFile + 1 := by
    have hauto : Db.autoFid { db₀ with nextFid := fid + 1 } (reseeded 0) ≤ fid + 1 := by
      rw [Db.autoFid_eq]
      split_ifs
      · show db₀.maxTempfile + 1 ≤ fid + 1
        omega
      · exact le_refl _
    omega
  have hcounter : Db.CounterAbove { db₀ with nextFid := db₀.maxFile + 1 } :=
    ⟨Nat.succ_pos _, fun x hx => Nat.lt_succ_of_lt (hseed.2 x hx)⟩
  have hmax : Stmt.run .selectMaxFid { db₀ with nextFid := fid + 1 } =
      (some db₀.maxFile, { db₀ with nextFid := fid + 1 }) :=
    congrArg (·, _) (max?_of_has hused)
  have hdelete := exec_deleteTempfiles_new new habove (fid + 1)
  have hinsert := exec_insTempfile_seed new { db₀ with nextFid := fid + 1 } (reseeded 0) hseed
  have hback := exec_deleteTempfiles_new new hseed (db₀.maxFile + 1)
  have hauto := exec_insTempfile_auto new hcounter (reseeded 1)
  simp only [DbProg.exec, Prog.exec_issue] at hdelete hinsert hback hauto
  simp only [hnext] at hinsert
  unfold opened
  simp only [reseed, DbProg.exec, Prog.exec_bind, Prog.exec_issue, hdelete, hmax, Option.map_some,
    Int.ofNat_eq_natCast, hinsert, hback, hauto]
  rfl

theorem reseedLoop_free (explicit : Bool) (fuel : ℕ) (reseeded : ℕ → Bool) (h : ¬ db.file.Has fid) :
    (reseedLoop new explicit (fuel + 1) reseeded fid).exec db = (.ok fid, db) := by
  have huse := exec_fidInUse fid db
  rw [decide_eq_false h] at huse
  simp only [DbProg.exec] at huse
  simp only [reseedLoop, DbProg.exec, Prog.exec_bind, huse]
  rfl

theorem reseedLoop_used (fuel : ℕ) (reseeded : ℕ → Bool) (habove : AboveTempfile db₀ fid)
    (hused : db₀.file.Has fid) :
    (reseedLoop new false (fuel + 1) reseeded fid).exec (opened new db₀ fid) =
      (reseedLoop new false fuel (fun n => reseeded (n + 2)) (nextSeed db₀ (reseeded 1))).exec
        (opened new db₀ (nextSeed db₀ (reseeded 1))) := by
  have huse : (fidInUse fid).exec (opened new db₀ fid) = (true, opened new db₀ fid) := by
    rw [exec_fidInUse]
    exact congrArg (·, _) (decide_eq_true hused)
  have hreseed := exec_reseed new reseeded habove hused
  simp only [DbProg.exec] at huse hreseed
  simp only [reseedLoop, DbProg.exec, Prog.exec_bind, huse, Bool.false_eq_true, if_false, hreseed]

theorem exec_registerTempfile (fuel : ℕ) (reseeded : ℕ → Bool) (h : db.CounterAbove) :
    (registerTempfile new none fuel reseeded).exec db =
      (reseedLoop new false fuel (fun n => reseeded (n + 1)) (db.autoFid (reseeded 0))).exec
        (opened new db (db.autoFid (reseeded 0))) := by
  have hauto := exec_insTempfile_auto new h (reseeded 0)
  simp only [DbProg.exec] at hauto
  simp only [registerTempfile, DbProg.exec, Prog.exec_bind, hauto]
  rfl

end Store

/-! ### The fids it returns -/

namespace Db

/-- Nothing but a file or an upload uses the fid: it has no replica, and no deletion of it is pending. -/
def Forgotten (db : Db) (fid : ℕ) : Prop :=
  (∀ devid, (fid, devid) ∉ db.fileOn.rows) ∧ ¬ db.fileToDelete.Has fid ∧ ¬ db.fileToDeleteLater.Has fid

/-- The fid that an allocation ends with if the counter is as `reseeded` says. -/
def seedFid (db : Db) (reseeded : Bool) : ℕ :=
  if db.file.Has (db.autoFid reseeded) then db.maxFile + 1 else db.autoFid reseeded

theorem not_has_maxFile_succ (db : Db) : ¬ db.file.Has (db.maxFile + 1) := fun h => by
  have hle := le_maxFile h
  omega

theorem seedFid_not_has (db : Db) (reseeded : Bool) : ¬ db.file.Has (db.seedFid reseeded) := by
  unfold seedFid
  split_ifs with h
  · exact db.not_has_maxFile_succ
  · exact h

end Db

namespace Store

variable (new : NewTempfile) {db : Db} {fid : ℕ}

/-- The fids that the loop may look at: what the counter may give, or the seed after the largest of
`file` once one of these is in use. -/
def Candidate (db : Db) (fid : ℕ) : Prop :=
  (∃ reseeded, fid = db.autoFid reseeded) ∨ (fid = db.maxFile + 1 ∧ ∃ reseeded, db.file.Has (db.autoFid reseeded))

theorem Candidate.nextSeed {reseeded : Bool} (h : Candidate db fid) (hused : db.file.Has fid) :
    Candidate db (Store.nextSeed db reseeded) := by
  unfold Store.nextSeed
  split_ifs
  · exact .inl ⟨true, rfl⟩
  · refine .inr ⟨rfl, ?_⟩
    rcases h with ⟨reseeded, rfl⟩ | ⟨rfl, -⟩
    · exact ⟨reseeded, hused⟩
    · exact absurd hused db.not_has_maxFile_succ

theorem AboveTempfile.nextSeed {reseeded : Bool} (h : AboveTempfile db fid) (hused : db.file.Has fid) :
    AboveTempfile db (Store.nextSeed db reseeded) := by
  have hle := Db.le_maxFile hused
  unfold Store.nextSeed
  split_ifs
  · exact ⟨Nat.succ_pos _, fun x hx => Nat.lt_succ_of_le (Db.le_maxTempfile hx)⟩
  · refine ⟨Nat.succ_pos _, fun x hx => ?_⟩
    have hlt := h.2 x hx
    omega

theorem Candidate.eq_seedFid (h : Candidate db fid) (hfree : ¬ db.file.Has fid) :
    ∃ reseeded, fid = db.seedFid reseeded := by
  rcases h with ⟨reseeded, rfl⟩ | ⟨rfl, reseeded, hused⟩
  · exact ⟨reseeded, (if_neg hfree).symm⟩
  · exact ⟨reseeded, (if_pos hused).symm⟩

theorem reseedLoop_candidate (fuel : ℕ) :
    ∀ (reseeded : ℕ → Bool) (fid : ℕ), AboveTempfile db fid → Candidate db fid → ∀ fid' db',
      (reseedLoop new false fuel reseeded fid).exec (opened new db fid) = (.ok fid', db') →
        Candidate db fid' ∧ ¬ db.file.Has fid' := by
  induction fuel with
  | zero =>
    intro reseeded fid _ _ fid' db' hexec
    cases congrArg Prod.fst hexec
  | succ fuel ih =>
    intro reseeded fid habove hcand fid' db' hexec
    by_cases hused : db.file.Has fid
    · rw [reseedLoop_used new fuel reseeded habove hused] at hexec
      exact ih _ _ (habove.nextSeed hused) (hcand.nextSeed hused) fid' db' hexec
    · rw [reseedLoop_free new false fuel reseeded (show ¬ (opened new db fid).file.Has fid from hused)]
        at hexec
      obtain rfl := Registered.ok.inj (congrArg Prod.fst hexec)
      exact ⟨hcand, hused⟩

/-- The fid that is returned is one of `seedFid`. -/
theorem registerTempfile_candidate (h : db.CounterAbove) {fuel : ℕ} {reseeded : ℕ → Bool} {db' : Db}
    (hexec : (registerTempfile new none fuel reseeded).exec db = (.ok fid, db')) :
    ∃ reseeded, fid = db.seedFid reseeded := by
  rw [exec_registerTempfile new fuel reseeded h] at hexec
  obtain ⟨hcand, hfree⟩ := reseedLoop_candidate new fuel _ _ (aboveTempfile_autoFid h _)
    (.inl ⟨reseeded 0, rfl⟩) fid db' hexec
  exact hcand.eq_seedFid hfree

theorem registerTempfile_returns (h : db.CounterAbove) (reseeded : Bool) (fuel : ℕ) :
    ∃ db', (registerTempfile new none (fuel + 2) fun n => n == 0 && reseeded).exec db =
      (.ok (db.seedFid reseeded), db') := by
  rw [exec_registerTempfile new _ _ h]
  simp only [beq_self_eq_true, Bool.true_and]
  unfold Db.seedFid
  split_ifs with hused
  · rw [reseedLoop_used new _ _ (aboveTempfile_autoFid h _) hused]
    exact ⟨_, reseedLoop_free new false fuel _ db.not_has_maxFile_succ⟩
  · exact ⟨_, reseedLoop_free new false (fuel + 1) _ hused⟩

end Store

end Ylem
