import Mathlib

/-!
# Programs over atomic statements

`Prog S R α` is a program that issues statements `s : S`, reads an answer of type `R s` after each
of them and ends with an `α`. A store gives the statements their meaning (`run : (s : S) → σ → R s × σ`);
`exec` runs one program alone, and `Run` interleaves any number of them at the granularity of single
statements: at every point a new program may start, one of the live programs may issue its next
statement, or one may die where it stands. A run records every statement it issued together with the
store that the statement found (`Issued`), so that a property of all states of a run can be put as a
property of its record.

`Run.inv` is the rule for runs: if a statement keeps an invariant where it meets a guard, then a run all of
whose statements met it keeps the invariant.
-/

namespace Ylem

/-- A program over the statements `S`, each answered by an `R s`. -/
inductive Prog (S : Type) (R : S → Type) (α : Type) : Type where
  | ret (a : α)
  | stmt (s : S) (k : R s → Prog S R α)

namespace Prog

variable {S : Type} {R : S → Type} {α β σ : Type}

def bind : Prog S R α → (α → Prog S R β) → Prog S R β
  | .ret a, f => f a
  | .stmt s k, f => .stmt s fun r => (k r).bind f

instance : Monad (Prog S R) where
  pure := .ret
  bind := bind

/-- Issue one statement and return its answer. -/
def issue (s : S) : Prog S R (R s) := .stmt s .ret

@[simp] theorem pure_eq (a : α) : (pure a : Prog S R α) = .ret a := rfl

@[simp] theorem ret_bind (a : α) (f : α → Prog S R β) : (Prog.ret a >>= f) = f a := rfl

@[simp] theorem stmt_bind (s : S) (k : R s → Prog S R α) (f : α → Prog S R β) :
    (Prog.stmt s k >>= f) = .stmt s fun r => k r >>= f := rfl

@[simp] theorem issue_bind (s : S) (f : R s → Prog S R β) :
    ((issue s : Prog S R (R s)) >>= f) = .stmt s f := rfl

instance : LawfulMonad (Prog S R) := by
  refine LawfulMonad.mk' _ ?_ (fun _ _ => rfl) ?_
  · intro α p
    show p >>= (fun a => pure (id a)) = p
    induction p with
    | ret a => rfl
    | stmt s k ih => exact congrArg (Prog.stmt s) (funext ih)
  · intro α β γ p f g
    induction p with
    | ret a => rfl
    | stmt s k ih => exact congrArg (Prog.stmt s) (funext ih)

/-- The statement a program issues next, if it has not ended. -/
def next : Prog S R α → Option S
  | .ret _ => none
  | .stmt s _ => some s

/-! ### One program alone -/

/-- Run a program alone to its end. -/
def exec (run : (s : S) → σ → R s × σ) : Prog S R α → σ → α × σ
  | .ret a, db => (a, db)
  | .stmt s k, db => (k (run s db).1).exec run (run s db).2

variable (run : (s : S) → σ → R s × σ)

@[simp] theorem exec_ret (a : α) (db : σ) : (Prog.ret a : Prog S R α).exec run db = (a, db) := rfl

@[simp] theorem exec_stmt (s : S) (k : R s → Prog S R α) (db : σ) :
    (Prog.stmt s k).exec run db = (k (run s db).1).exec run (run s db).2 := rfl

theorem exec_issue (s : S) (db : σ) : (issue s : Prog S R (R s)).exec run db = run s db := rfl

@[simp] theorem exec_bind (p : Prog S R α) (f : α → Prog S R β) (db : σ) :
    (p >>= f).exec run db = (f (p.exec run db).1).exec run (p.exec run db).2 := by
  induction p generalizing db with
  | ret a => rfl
  | stmt s k ih => exact ih _ _

/-- A program without its result. -/
def forget (p : Prog S R α) : Prog S R Unit := p >>= fun _ => .ret ()

@[simp] theorem exec_forget (p : Prog S R α) (db : σ) :
    (p.forget.exec run db).2 = (p.exec run db).2 := by
  rw [forget, exec_bind, exec_ret]

/-- Every statement that a program can issue, whatever the answers are, is one of `P`. -/
def Issues (P : S → Prop) : Prog S R α → Prop
  | .ret _ => True
  | .stmt s k => P s ∧ ∀ r, (k r).Issues P

@[simp] theorem issues_ret (P : S → Prop) (a : α) : (Prog.ret a : Prog S R α).Issues P := trivial

@[simp] theorem issues_stmt {P : S → Prop} {s : S} {k : R s → Prog S R α} :
    (Prog.stmt s k).Issues P ↔ P s ∧ ∀ r, (k r).Issues P := Iff.rfl

@[simp] theorem issues_issue {P : S → Prop} {s : S} : (issue s : Prog S R (R s)).Issues P ↔ P s :=
  and_iff_left fun _ => trivial

theorem Issues.bind {P : S → Prop} {p : Prog S R α} {f : α → Prog S R β} (hp : p.Issues P)
    (hf : ∀ a, (f a).Issues P) : (p >>= f).Issues P := by
  induction p with
  | ret a => exact hf a
  | stmt s k ih => exact ⟨hp.1, fun r => ih r (hp.2 r)⟩

theorem Issues.mono {P Q : S → Prop} {p : Prog S R α} (hp : p.Issues P) (h : ∀ s, P s → Q s) : p.Issues Q := by
  induction p with
  | ret a => exact trivial
  | stmt s k ih => exact ⟨h s hp.1, fun r => ih r (hp.2 r)⟩

theorem Issues.forget {P : S → Prop} {p : Prog S R α} (hp : p.Issues P) : p.forget.Issues P :=
  hp.bind fun _ => trivial

/-- Every result that a program can end with, whatever the answers are, is one of `Q`. -/
def Ends (Q : α → Prop) : Prog S R α → Prop
  | .ret a => Q a
  | .stmt _ k => ∀ r, (k r).Ends Q

theorem Ends.bind {Q : β → Prop} {f : α → Prog S R β} (hf : ∀ a, (f a).Ends Q) (p : Prog S R α) :
    (p >>= f).Ends Q := by
  induction p with
  | ret a => exact hf a
  | stmt s k ih => exact fun r => ih r

/-- A property kept by every statement is kept by a program. -/
theorem exec_inv {I : σ → Prop} (hstmt : ∀ s db, I db → I (run s db).2) (p : Prog S R α) {db : σ}
    (h : I db) : I (p.exec run db).2 := by
  induction p generalizing db with
  | ret a => exact h
  | stmt s k ih => exact ih _ (hstmt s db h)

end Prog

/-- A statement as a run issued it: the statement and the store it found. -/
structure Issued (S σ : Type) where
  stmt : S
  found : σ

/-! ### One program among others -/

namespace Prog

variable {S : Type} {R : S → Type} {α β σ : Type} {run : (s : S) → σ → R s × σ}

/-- A program may end with a result after these statements, whatever others do to the store between any two of them. -/
inductive EndsWith (run : (s : S) → σ → R s × σ) : Prog S R α → List (Issued S σ) → α → Prop
  | ret (a : α) : EndsWith run (.ret a) [] a
  | stmt {s k log a} (db : σ) (h : EndsWith run (k (run s db).1) log a) : EndsWith run (.stmt s k) (⟨s, db⟩ :: log) a

/-- A program may have issued these statements and have another one to issue. -/
inductive Stops (run : (s : S) → σ → R s × σ) : Prog S R α → List (Issued S σ) → Prop
  | here {s k} : Stops run (.stmt s k) []
  | stmt {s k log} (db : σ) (h : Stops run (k (run s db).1) log) : Stops run (.stmt s k) (⟨s, db⟩ :: log)

theorem endsWith_ret {a a' : α} {log : List (Issued S σ)} :
    (Prog.ret a : Prog S R α).EndsWith run log a' ↔ log = [] ∧ a' = a := by
  constructor
  · intro h
    cases h
    exact ⟨rfl, rfl⟩
  · rintro ⟨rfl, rfl⟩
    exact .ret a'

/-- A program in two parts ends after the statements of the first and those of the second. -/
theorem EndsWith.of_bind {p : Prog S R α} {f : α → Prog S R β} {log : List (Issued S σ)} {b : β}
    (h : (p >>= f).EndsWith run log b) :
    ∃ before a after, p.EndsWith run before a ∧ (f a).EndsWith run after b ∧ log = before ++ after := by
  induction p generalizing log with
  | ret a => exact ⟨[], a, log, .ret a, h, rfl⟩
  | stmt s k ih =>
    cases h with
    | stmt db h =>
      obtain ⟨before, a, after, hp, hf, rfl⟩ := ih _ h
      exact ⟨_, a, after, .stmt db hp, hf, rfl⟩

theorem EndsWith.issued {P : S → Prop} {p : Prog S R α} {log : List (Issued S σ)} {a : α} (h : p.EndsWith run log a)
    (hp : p.Issues P) : ∀ x ∈ log, P x.stmt := by
  induction h with
  | ret a => exact fun x hx => absurd hx List.not_mem_nil
  | stmt db h ih =>
    intro x hx
    rcases List.mem_cons.mp hx with rfl | hx
    · exact hp.1
    · exact ih (hp.2 _) x hx

theorem EndsWith.ends {Q : α → Prop} {p : Prog S R α} {log : List (Issued S σ)} {a : α} (h : p.EndsWith run log a)
    (hp : p.Ends Q) : Q a := by
  induction h with
  | ret a => exact hp
  | stmt db h ih => exact ih (hp _)

theorem not_stops_ret {a : α} {log : List (Issued S σ)} : ¬ (Prog.ret a : Prog S R α).Stops run log := by
  intro h
  cases h

/-- A program in two parts stops in the first, or it ends that and stops in the second. -/
theorem Stops.of_bind {p : Prog S R α} {f : α → Prog S R β} {log : List (Issued S σ)} (h : (p >>= f).Stops run log) :
    p.Stops run log ∨
      ∃ before a after, p.EndsWith run before a ∧ (f a).Stops run after ∧ log = before ++ after := by
  induction p generalizing log with
  | ret a => exact .inr ⟨[], a, log, .ret a, h, rfl⟩
  | stmt s k ih =>
    cases h with
    | here => exact .inl .here
    | stmt db h =>
      rcases ih _ h with hstops | ⟨before, a, after, hends, hstops, rfl⟩
      · exact .inl (.stmt db hstops)
      · exact .inr ⟨_, a, after, .stmt db hends, hstops, rfl⟩

theorem Stops.issued {P : S → Prop} {p : Prog S R α} {log : List (Issued S σ)} (h : p.Stops run log)
    (hp : p.Issues P) : ∀ x ∈ log, P x.stmt := by
  induction h with
  | here => exact fun x hx => absurd hx List.not_mem_nil
  | stmt db h ih =>
    intro x hx
    rcases List.mem_cons.mp hx with rfl | hx
    · exact hp.1
    · exact ih (hp.2 _) x hx

end Prog

/-! ### Two programs side by side -/

/-- Two programs run to their ends, their statements in any order: what they issue, and the store they
end in. -/
inductive Par {S : Type} {R : S → Type} {α β σ : Type} (run : (s : S) → σ → R s × σ) :
    Prog S R α → Prog S R β → σ → List (Issued S σ) → σ → Prop
  | done (a : α) (b : β) (db : σ) : Par run (.ret a) (.ret b) db [] db
  | left {s k q db log db'} (h : Par run (k (run s db).1) q (run s db).2 log db') :
      Par run (.stmt s k) q db (⟨s, db⟩ :: log) db'
  | right {p s k db log db'} (h : Par run p (k (run s db).1) (run s db).2 log db') :
      Par run p (.stmt s k) db (⟨s, db⟩ :: log) db'

namespace Par

variable {S : Type} {R : S → Type} {α β σ : Type} (run : (s : S) → σ → R s × σ)

/-- Run two programs as a schedule says: `true` is a statement of the first. -/
def play : List Bool → Prog S R α → Prog S R β → σ → Option (List (Issued S σ) × σ)
  | [], .ret _, .ret _, db => some ([], db)
  | true :: order, .stmt s k, q, db =>
    (play order (k (run s db).1) q (run s db).2).map fun r => (⟨s, db⟩ :: r.1, r.2)
  | false :: order, p, .stmt s k, db =>
    (play order p (k (run s db).1) (run s db).2).map fun r => (⟨s, db⟩ :: r.1, r.2)
  | _, _, _, _ => none

variable {run}

theorem of_play {order : List Bool} :
    ∀ {p : Prog S R α} {q : Prog S R β} {db db' : σ} {log : List (Issued S σ)},
      play run order p q db = some (log, db') → Par run p q db log db' := by
  induction order with
  | nil =>
    intro p q db db' log h
    unfold play at h
    split at h
    · simp only [Option.some.injEq, Prod.mk.injEq] at h
      obtain ⟨rfl, rfl⟩ := h
      exact .done _ _ _
    all_goals simp_all
  | cons first order ih =>
    intro p q db db' log h
    unfold play at h
    split at h
    · simp_all
    · obtain ⟨⟨log', db₁⟩, hplay, heq⟩ := Option.map_eq_some_iff.mp h
      simp only [Prod.mk.injEq] at heq
      obtain ⟨rfl, rfl⟩ := heq
      rename_i horder
      obtain ⟨rfl, rfl⟩ := List.cons.inj horder
      exact .left (ih hplay)
    · obtain ⟨⟨log', db₁⟩, hplay, heq⟩ := Option.map_eq_some_iff.mp h
      simp only [Prod.mk.injEq] at heq
      obtain ⟨rfl, rfl⟩ := heq
      rename_i horder
      obtain ⟨rfl, rfl⟩ := List.cons.inj horder
      exact .right (ih hplay)
    · cases h

/-- A run that passes a test, from a schedule. -/
theorem exists_of_play {order : List Bool} {p : Prog S R α} {q : Prog S R β} {db : σ}
    {test : List (Issued S σ) × σ → Bool} (h : (play run order p q db).any test = true) :
    ∃ log db', Par run p q db log db' ∧ test (log, db') = true := by
  obtain ⟨⟨log, db'⟩, hplay, htest⟩ := (Option.any_eq_true _ _).mp h
  exact ⟨log, db', of_play hplay, htest⟩

end Par

/-! ### Interleaved programs -/

/-- A store with the programs that are working on it. -/
structure Pool (S : Type) (R : S → Type) (α σ : Type) where
  db : σ
  procs : List (Prog S R α)

namespace Pool

variable {S : Type} {R : S → Type} {α σ : Type} (run : (s : S) → σ → R s × σ)
  (starts : Prog S R α → Prop)

/-- What may happen next: a program starts, the program at a position issues its next statement, or
the program at a position dies. -/
inductive Event (S : Type) (R : S → Type) (α : Type) where
  | start (p : Prog S R α)
  | step (i : ℕ)
  | die (i : ℕ)

/-- The pool after an event, with the statement it issued; `none` where the event cannot happen. -/
def apply : Event S R α → Pool S R α σ → Option (List (Issued S σ) × Pool S R α σ)
  | .start p, c => some ([], { c with procs := c.procs ++ [p] })
  | .step i, c =>
    match c.procs[i]? with
    | some (.stmt s k) =>
      some ([⟨s, c.db⟩], { db := (run s c.db).2, procs := c.procs.set i (k (run s c.db).1) })
    | _ => none
  | .die i, c => if i < c.procs.length then some ([], { c with procs := c.procs.eraseIdx i }) else none

/-- Runs from `c`, with their record and the pool they end in. The programs that start are those of
`starts`. -/
inductive Run (c : Pool S R α σ) : List (Issued S σ) → Pool S R α σ → Prop
  | nil : Run c [] c
  | snoc {log out c' c''} (e : Event S R α) (h : Run c log c')
      (hstart : ∀ p, e = .start p → starts p) (hstep : apply run e c' = some (out, c'')) :
      Run c (log ++ out) c''

variable {run starts}

theorem apply_cases {e : Event S R α} {c c' : Pool S R α σ} {out : List (Issued S σ)}
    (h : apply run e c = some (out, c')) :
    (out = [] ∧ c'.db = c.db) ∨ ∃ s, out = [⟨s, c.db⟩] ∧ c'.db = (run s c.db).2 := by
  cases e with
  | start p =>
    simp only [apply, Option.some.injEq, Prod.mk.injEq] at h
    obtain ⟨rfl, rfl⟩ := h
    exact .inl ⟨rfl, rfl⟩
  | step i =>
    simp only [apply] at h
    split at h
    · rename_i s k hi
      simp only [Option.some.injEq, Prod.mk.injEq] at h
      obtain ⟨rfl, rfl⟩ := h
      exact .inr ⟨s, rfl, rfl⟩
    · cases h
  | die i =>
    simp only [apply] at h
    split at h
    · simp only [Option.some.injEq, Prod.mk.injEq] at h
      obtain ⟨rfl, rfl⟩ := h
      exact .inl ⟨rfl, rfl⟩
    · cases h

/-- An invariant kept by every issued statement that meets the guard holds at the end of a run whose
statements all met it. -/
theorem Run.inv {I : σ → Prop} {G : S → σ → Prop} {c c' : Pool S R α σ} {log : List (Issued S σ)}
    (h : Run run starts c log c') (hstep : ∀ s db, I db → G s db → I (run s db).2) (h0 : I c.db)
    (hG : ∀ x ∈ log, G x.stmt x.found) : I c'.db := by
  induction h with
  | nil => exact h0
  | snoc e _ _ happ ih =>
    have hprev := ih fun x hx => hG x (List.mem_append_left _ hx)
    rcases apply_cases happ with ⟨-, hdb⟩ | ⟨s, rfl, hdb⟩
    · rw [hdb]; exact hprev
    · rw [hdb]; exact hstep s _ hprev (hG ⟨s, _⟩ (by simp))

theorem Run.trans {c c' c'' : Pool S R α σ} {log log' : List (Issued S σ)}
    (h : Run run starts c log c') (h' : Run run starts c' log' c'') :
    Run run starts c (log ++ log') c'' := by
  induction h' with
  | nil => simpa using h
  | snoc e _ hs happ ih =>
    rw [← List.append_assoc]
    exact .snoc e ih hs happ

theorem run_exec_at (p : Prog S R α) {c : Pool S R α σ} {i : ℕ} (hi : c.procs[i]? = some p) :
    ∃ log c', Run run starts c log c' ∧ c'.db = (p.exec run c.db).2 := by
  induction p generalizing c with
  | ret a => exact ⟨[], c, .nil, rfl⟩
  | stmt s k ih =>
    have hlt : i < c.procs.length := (List.getElem?_eq_some_iff.mp hi).1
    let c₁ : Pool S R α σ := ⟨(run s c.db).2, c.procs.set i (k (run s c.db).1)⟩
    have happ : apply run (.step i) c = some ([⟨s, c.db⟩], c₁) := by simp [apply, hi, c₁]
    have hfirst : Run run starts c ([] ++ [⟨s, c.db⟩]) c₁ := .snoc (.step i) .nil (by simp) happ
    obtain ⟨log, c₂, hrun, hdb⟩ := ih (run s c.db).1 (c := c₁) (by simp [c₁, hlt])
    exact ⟨_, c₂, hfirst.trans hrun, hdb⟩

/-- A program can be run alone in any pool. -/
theorem run_exec (p : Prog S R α) (hp : starts p) (c : Pool S R α σ) :
    ∃ log c', Run run starts c log c' ∧ c'.db = (p.exec run c.db).2 := by
  let c₁ : Pool S R α σ := { c with procs := c.procs ++ [p] }
  have hfirst : Run run starts c ([] ++ []) c₁ :=
    .snoc (.start p) .nil (fun q hq => by cases hq; exact hp) rfl
  have hlast : c₁.procs[c.procs.length]? = some p := by simp [c₁]
  have hrest : ∃ log c', Run run starts c₁ log c' ∧ c'.db = (p.exec run c₁.db).2 := run_exec_at p hlast
  obtain ⟨log, c₂, hrun, hdb⟩ := hrest
  exact ⟨_, c₂, hfirst.trans hrun, hdb⟩

end Pool

end Ylem
