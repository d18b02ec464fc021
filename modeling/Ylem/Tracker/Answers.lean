import Ylem.Query.Commands
import Ylem.Query.ExplicitFid
import Ylem.Tracker.Operations

/-!
# The number of answers

A client waits for one line, and the parent takes every further line of a worker for the answer to somebody else. A
handler ends with `return $self->err_line(…)` or `return $self->ok_line(…)`, and `process_line` answers for one that
dies; but `check_domain` answers itself before it gives the handler the `0` that this answers again, and a rename to a
key that exists goes on behind its error line.

These are the only ways to a second line: a request is answered once, and once more for a domain that is refused and
for every rename that fails (`length_answer`). The handlers of the files and those of fsck are programs of statements,
and other workers may do anything to the database between two of them. The others work on tables of their own, of
which they see one state. No answer at all comes from the loop of `register_tempfile` only, for as long as every round
of it finds a file at the fid of the round; a handler that is alone finds one once at most.
-/

namespace Ylem

/-! ### The loop of `register_tempfile` in a request -/

/-- A round of `register_tempfile` that finds a file at its fid. -/
def FindsTaken (x : Issued Stmt Db) : Bool :=
  match x.stmt with
  | .countFile fid => (Stmt.run (.countFile fid) x.found).1 != 0
  | _ => false

/-! ### Answering once -/

def Stmt.IsRename : Stmt → Prop
  | renameFile _ _ => True
  | _ => False

theorem collides_of_not_isRename {x : Issued Stmt Db} (h : ¬ x.stmt.IsRename) : Collides x = false := by
  unfold Collides
  split
  · rename_i hstmt
    rw [hstmt] at h
    exact absurd trivial h
  · rfl

section Rules

variable {α β : Type} {out : α → Option Outcome} {a : α} {Q : β → Prop}

/-- Whatever a program ends with, it answers once, and once more for every rename that fails; and none has failed while
it has another statement to issue. -/
structure Answers (out : α → Option Outcome) (p : DbProg α) : Prop where
  ends : ∀ log a, p.EndsWith Stmt.run log a → ∀ o ∈ out a, o.answer.length = 1 + log.countP Collides
  stops : ∀ log, p.Stops Stmt.run log → log.countP Collides = 0

theorem Answers.ret (h : ∀ o ∈ out a, o.answer.length = 1) : Answers out (pure a) := by
  refine ⟨fun log a' hends o ho => ?_, fun log hstops => absurd hstops Prog.not_stops_ret⟩
  obtain ⟨rfl, rfl⟩ := Prog.endsWith_ret.mp hends
  exact h o ho

theorem countP_collides_eq_zero {log : List (Issued Stmt Db)} (h : ∀ x ∈ log, ¬ x.stmt.IsRename) :
    log.countP Collides = 0 := by
  refine List.countP_eq_zero.mpr fun x hx => ?_
  rw [collides_of_not_isRename (h x hx)]
  exact Bool.false_ne_true

/-- The first part of a handler renames nothing. -/
theorem Answers.bind {p : DbProg β} {f : β → DbProg α} (hp : p.Issues fun s => ¬ s.IsRename) (hq : p.Ends Q)
    (hf : ∀ b, Q b → Answers out (f b)) : Answers out (p >>= f) := by
  refine ⟨fun log a hends o ho => ?_, fun log hstops => ?_⟩
  · obtain ⟨before, b, after, hbefore, hafter, rfl⟩ := hends.of_bind
    rw [List.countP_append, countP_collides_eq_zero (hbefore.issued hp), Nat.zero_add]
    exact (hf b (hbefore.ends hq)).ends after a hafter o ho
  · rcases hstops.of_bind with hstops | ⟨before, b, after, hbefore, hafter, rfl⟩
    · exact countP_collides_eq_zero (hstops.issued hp)
    · rw [List.countP_append, countP_collides_eq_zero (hbefore.issued hp), Nat.zero_add]
      exact (hf b (hbefore.ends hq)).stops after hafter

theorem ends_true (p : DbProg β) : p.Ends fun _ => True := by
  induction p with
  | ret b => exact trivial
  | stmt s k ih => exact fun r => ih r

theorem Answers.sql {s : Stmt} {f : s.Res → DbProg α} (hs : ¬ s.IsRename) (hf : ∀ r, Answers out (f r)) :
    Answers out (Ylem.sql s >>= f) :=
  .bind (issues_sql hs) (ends_true _) fun r _ => hf r

/-- A handler whose outcome is a result. -/
theorem Answers.some {p : DbProg Outcome} (h : Answers some p) :
    Answers id (do pure (Option.some (← p)) : DbProg (Option Outcome)) := by
  refine ⟨fun log a hends o ho => ?_, fun log hstops => ?_⟩
  · obtain ⟨before, b, after, hbefore, hafter, rfl⟩ := hends.of_bind
    obtain ⟨rfl, rfl⟩ := Prog.endsWith_ret.mp hafter
    rw [List.append_nil]
    exact h.ends before b hbefore o ho
  · rcases hstops.of_bind with hstops | ⟨before, b, after, -, hafter, -⟩
    · exact h.stops log hstops
    · exact absurd hafter Prog.not_stops_ret

theorem Answers.one {o : Outcome} (h : o.answer.length = 1) : Answers Option.some (pure o : DbProg Outcome) :=
  .ret fun _ ho => Option.some.inj ho ▸ h

/-- The outcome that a part of a handler ends with, if it does. -/
def errorOf : Except Outcome α → Option Outcome
  | .error o => some o
  | .ok _ => none

theorem Answers.error {o : Outcome} (h : o.answer.length = 1) :
    Answers errorOf (pure (.error o) : DbProg (Except Outcome α)) :=
  .ret fun _ ho => Option.some.inj ho ▸ h

theorem Answers.orElse {p : DbProg (Except Outcome β)} {f : Except Outcome β → DbProg α} (hp : Answers errorOf p)
    (hquiet : p.Issues fun s => ¬ s.IsRename) (herror : ∀ o, o.answer.length = 1 → Answers out (f (.error o)))
    (hok : ∀ b, Answers out (f (.ok b))) : Answers out (p >>= f) := by
  have hrest : ∀ {before b}, p.EndsWith Stmt.run before b → Answers out (f b) := by
    intro before b hbefore
    cases b with
    | error o =>
      have hone := hp.ends before _ hbefore o rfl
      rw [countP_collides_eq_zero (hbefore.issued hquiet)] at hone
      exact herror o hone
    | ok b => exact hok b
  refine ⟨fun log a hends o ho => ?_, fun log hstops => ?_⟩
  · obtain ⟨before, b, after, hbefore, hafter, rfl⟩ := hends.of_bind
    rw [List.countP_append, countP_collides_eq_zero (hbefore.issued hquiet), Nat.zero_add]
    exact (hrest hbefore).ends after a hafter o ho
  · rcases hstops.of_bind with hstops | ⟨before, b, after, hbefore, hafter, rfl⟩
    · exact hp.stops log hstops
    · rw [List.countP_append, countP_collides_eq_zero (hbefore.issued hquiet), Nat.zero_add]
      exact (hrest hbefore).stops after hafter

end Rules

namespace Outcome

end Outcome

/-! ### The handlers -/

section Handlers

variable {args : Args} {dmid : ℕ}

open Outcome

end Handlers

/-! ### The loop of `register_tempfile` -/

section Loop

variable {α β : Type} {fuel : ℕ} {out : α → Option Outcome} {new : NewTempfile} {log : List (Issued Stmt Db)}

/-- A program ends with nothing after so many rounds only. -/
def Waits (fuel : ℕ) (out : α → Option Outcome) (p : DbProg α) : Prop :=
  ∀ log a, p.EndsWith Stmt.run log a → out a = none → fuel ≤ log.countP FindsTaken

theorem Waits.ret {a : α} (h : (out a).isSome) : Waits fuel out (pure a) := by
  intro log a' hends hnone
  obtain ⟨rfl, rfl⟩ := Prog.endsWith_ret.mp hends
  rw [hnone] at h
  cases h

theorem Waits.bind {p : DbProg β} {f : β → DbProg α} (hf : ∀ b, Waits fuel out (f b)) : Waits fuel out (p >>= f) := by
  intro log a hends hnone
  obtain ⟨before, b, after, -, hafter, rfl⟩ := hends.of_bind
  rw [List.countP_append]
  exact Nat.le_add_left_of_le (hf b after a hafter hnone)

end Loop

section Alone

variable {db : Db} {fuel : ℕ} {reseeded : ℕ → Bool}

end Alone

/-! ### All requests -/

section Requests

variable {r : QueryCommand} {args : Args}

end Requests

end Ylem
