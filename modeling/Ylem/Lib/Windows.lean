import Ylem.Lib.Prog

/-!
# Windows of a program

Where does a program stand between a statement that looks at the store and the one that acts on what it saw? A
statement of `goal` is `Ahead` of a program if the program can come to it, whatever others do to the store
meanwhile, without a statement of `stop` on the way. With the looks as `stop` and the acts as `goal` this is the
window: it opens with a look, and closes with the act.

`Moves` are runs of a pool that record the pool which every event found. Their rule is that of Owicki and Gries:
if every program has an assertion at each of its positions, its own statements lead from one assertion to the
next, and every statement that meets a condition leaves the assertions of the others true, then what the assertions
protect holds in all states of a run whose statements meet the condition (`Moves.always`).
-/

namespace Ylem

namespace Prog

variable {S : Type} {R : S → Type} {α β σ : Type} {run : (s : S) → σ → R s × σ}

/-- The program can issue a statement of `goal` before one of `stop`, which goes by the answer too. -/
def Ahead (run : (s : S) → σ → R s × σ) (goal : S → Prop) (stop : (s : S) → R s → Prop) : Prog S R α → Prop
  | .ret _ => False
  | .stmt s k => goal s ∨ ∃ db, ¬ stop s (run s db).1 ∧ (k (run s db).1).Ahead run goal stop

/-- The condition holds of every statement and what comes after it, wherever the program stands. -/
def Along (run : (s : S) → σ → R s × σ) (P : (s : S) → (R s → Prog S R α) → Prop) : Prog S R α → Prop
  | .ret _ => True
  | .stmt s k => P s k ∧ ∀ db, (k (run s db).1).Along run P

variable {goal : S → Prop} {stop : (s : S) → R s → Prop}

@[simp] theorem ahead_ret (a : α) : ¬ (Prog.ret a : Prog S R α).Ahead run goal stop := id

@[simp] theorem ahead_stmt {s : S} {k : R s → Prog S R α} : (Prog.stmt s k).Ahead run goal stop ↔
    goal s ∨ ∃ db, ¬ stop s (run s db).1 ∧ (k (run s db).1).Ahead run goal stop := Iff.rfl

theorem not_ahead_stmt {s : S} {k : R s → Prog S R α} (hgoal : ¬ goal s)
    (h : ∀ db, ¬ stop s (run s db).1 → ¬ (k (run s db).1).Ahead run goal stop) :
    ¬ (Prog.stmt s k).Ahead run goal stop := by
  rintro (hs | ⟨db, hstop, hahead⟩)
  · exact hgoal hs
  · exact h db hstop hahead

/-- A window that is open after a statement which does not stop was open before it. -/
theorem Ahead.of_step {s : S} {k : R s → Prog S R α} {db : σ} (hstop : ¬ stop s (run s db).1)
    (h : (k (run s db).1).Ahead run goal stop) : (Prog.stmt s k).Ahead run goal stop :=
  .inr ⟨db, hstop, h⟩

theorem Ahead.of_bind {p : Prog S R α} {f : α → Prog S R β} (h : (p >>= f).Ahead run goal stop) :
    p.Ahead run goal stop ∨ ∃ a, (f a).Ahead run goal stop := by
  induction p with
  | ret a => exact .inr ⟨a, h⟩
  | stmt s k ih =>
    rcases h with hgoal | ⟨db, hstop, hahead⟩
    · exact .inl (.inl hgoal)
    · rcases ih _ hahead with hp | hf
      · exact .inl (.inr ⟨db, hstop, hp⟩)
      · exact .inr hf

theorem not_ahead_bind {p : Prog S R α} {f : α → Prog S R β} (hp : ¬ p.Ahead run goal stop)
    (hf : ∀ a, ¬ (f a).Ahead run goal stop) : ¬ (p >>= f).Ahead run goal stop := by
  intro h
  rcases h.of_bind with hp' | ⟨a, ha⟩
  · exact hp hp'
  · exact hf a ha

theorem Ahead.of_forget {p : Prog S R α} (h : p.forget.Ahead run goal stop) : p.Ahead run goal stop :=
  h.of_bind.resolve_right fun ⟨_, hret⟩ => hret

/-- A program that never issues a statement of `goal` has none ahead. -/
theorem Issues.not_ahead {P : S → Prop} {p : Prog S R α} (h : p.Issues P) (hP : ∀ s, P s → ¬ goal s) :
    ¬ p.Ahead run goal stop := by
  induction p with
  | ret a => exact id
  | stmt s k ih => exact not_ahead_stmt (hP s h.1) fun db _ => ih _ (h.2 _)

variable {P : (s : S) → (R s → Prog S R β) → Prop}

/-- Statements of which the condition holds anywhere may come first. -/
theorem Along.bind {Q : S → Prop} {p : Prog S R α} {f : α → Prog S R β} (hp : p.Issues Q)
    (hQ : ∀ s k, Q s → P s k) (hf : ∀ a, (f a).Along run P) : (p >>= f).Along run P := by
  induction p with
  | ret a => exact hf a
  | stmt s k ih => exact ⟨hQ s _ hp.1, fun db => ih _ (hp.2 _)⟩

/-- The condition may look at all that is issued later. -/
theorem Issues.along {Q : S → Prop} {p : Prog S R β} (h : p.Issues Q)
    (hP : ∀ s k, Q s → (∀ r, (k r).Issues Q) → P s k) : p.Along run P := by
  induction p with
  | ret a => exact trivial
  | stmt s k ih => exact ⟨hP s k h.1 h.2, fun db => ih _ (h.2 _)⟩

theorem Along.forget {P : (s : S) → (R s → Prog S R α) → Prop} {P' : (s : S) → (R s → Prog S R Unit) → Prop}
    (hP : ∀ s k, P s k → P' s fun r => (k r).forget) {p : Prog S R α} (h : p.Along run P) :
    p.forget.Along run P' := by
  induction p with
  | ret a => exact trivial
  | stmt s k ih => exact ⟨hP s k h.1, fun db => ih _ (h.2 db)⟩

end Prog

namespace Pool

variable {S : Type} {R : S → Type} {α σ : Type} (run : (s : S) → σ → R s × σ)
  (starts : Prog S R α → Prop)

/-- Runs from `c` with the pool that every event found, and the pool they end in. -/
inductive Moves (c : Pool S R α σ) : List (Pool S R α σ × Event S R α) → Pool S R α σ → Prop
  | nil : Moves c [] c
  | snoc {moves out c' c''} (e : Event S R α) (h : Moves c moves c') (hstart : ∀ p, e = .start p → starts p)
      (hstep : apply run e c' = some (out, c'')) : Moves c (moves ++ [(c', e)]) c''

/-- The statement of a move, if it is one, meets a condition on the other programs, on what its own program does
next, on the statement and on the store that it finds. -/
def Meets (G : List (Prog S R α) → Prog S R α → S → σ → Prop) : Pool S R α σ × Event S R α → Prop
  | (c, .step i) =>
    match c.procs[i]? with
    | some (.stmt s k) => G (c.procs.eraseIdx i) (k (run s c.db).1) s c.db
    | _ => True
  | _ => True

variable {run starts}

theorem Meets.mono {G G' : List (Prog S R α) → Prog S R α → S → σ → Prop} (hG : ∀ others rest s db,
    G others rest s db → G' others rest s db) {move : Pool S R α σ × Event S R α} (h : Meets run G move) :
    Meets run G' move := by
  obtain ⟨c, e⟩ := move
  cases e with
  | start p => exact trivial
  | die i => exact trivial
  | step i =>
    simp only [Meets] at h ⊢
    split at h
    · exact hG _ _ _ _ h
    · exact trivial

instance {G : List (Prog S R α) → Prog S R α → S → σ → Prop} [∀ others rest s db, Decidable (G others rest s db)] :
    (move : Pool S R α σ × Event S R α) → Decidable (Meets run G move)
  | (_, .start _) | (_, .die _) => inferInstanceAs (Decidable True)
  | (c, .step i) =>
    match h : c.procs[i]? with
    | some (.stmt s k) =>
      decidable_of_iff (G (c.procs.eraseIdx i) (k (run s c.db).1) s c.db) (by simp only [Meets, h])
    | some (.ret _) | none => .isTrue (by simp only [Meets, h])

theorem mem_set_iff {ps : List (Prog S R α)} {i : ℕ} {p q : Prog S R α} (hi : i < ps.length) :
    q ∈ ps.set i p ↔ q = p ∨ q ∈ ps.eraseIdx i := by
  have hlen : i < (ps.set i p).length := by rwa [List.length_set]
  have hperm := List.getElem_cons_eraseIdx_perm hlen
  rw [List.getElem_set_self, List.eraseIdx_set_eq] at hperm
  rw [← hperm.mem_iff, List.mem_cons]

/-- The rule for runs whose statements all meet the condition `G`: the invariant `I` holds in all their states. `A`
is what a program counts on where it stands. -/
theorem Moves.always {I : σ → Prop} {A : Prog S R α → σ → Prop}
    {G : List (Prog S R α) → Prog S R α → S → σ → Prop}
    (hstart : ∀ p, starts p → ∀ db, A p db)
    (hown : ∀ others s k db, A (.stmt s k) db → I db → G others (k (run s db).1) s db →
      I (run s db).2 ∧ A (k (run s db).1) (run s db).2)
    (hother : ∀ others s k db, A (.stmt s k) db → I db → G others (k (run s db).1) s db →
      ∀ q ∈ others, A q db → A q (run s db).2)
    {db : σ} (h0 : I db) {moves : List (Pool S R α σ × Event S R α)} {c' : Pool S R α σ}
    (h : Moves run starts ⟨db, []⟩ moves c') (hG : ∀ m ∈ moves, Meets run G m) :
    (∀ m ∈ moves, I m.1.db) ∧ I c'.db := by
  have hall : (∀ m ∈ moves, I m.1.db) ∧ I c'.db ∧ ∀ p ∈ c'.procs, A p c'.db := by
    induction h with
    | nil => exact ⟨by simp, h0, by simp⟩
    | @snoc moves out c₁ c₂ e _ hs happ ih =>
      obtain ⟨hmoves, hI, hA⟩ := ih fun m hm => hG m (List.mem_append_left _ hm)
      refine ⟨fun m hm => ?_, ?_⟩
      · rcases List.mem_append.mp hm with hm | hm
        · exact hmoves m hm
        · exact List.mem_singleton.mp hm ▸ hI
      cases e with
      | start p =>
        simp only [apply, Option.some.injEq, Prod.mk.injEq] at happ
        obtain ⟨-, rfl⟩ := happ
        refine ⟨hI, fun q hq => ?_⟩
        rcases List.mem_append.mp hq with hq | hq
        · exact hA q hq
        · exact List.mem_singleton.mp hq ▸ hstart p (hs p rfl) _
      | step i =>
        have hmeets : Meets run G (c₁, .step i) := hG _ (by simp)
        simp only [apply] at happ
        split at happ
        · rename_i s k hi
          simp only [Option.some.injEq, Prod.mk.injEq] at happ
          obtain ⟨-, rfl⟩ := happ
          have hcond : G (c₁.procs.eraseIdx i) (k (run s c₁.db).1) s c₁.db := by
            simpa only [Meets, hi] using hmeets
          have hp := hA _ (List.mem_of_getElem? hi)
          obtain ⟨hI', hA'⟩ := hown _ s k c₁.db hp hI hcond
          refine ⟨hI', fun q hq => ?_⟩
          rcases (mem_set_iff (List.getElem?_eq_some_iff.mp hi).1).mp hq with rfl | hq
          · exact hA'
          · exact hother _ s k c₁.db hp hI hcond q hq (hA q (List.mem_of_mem_eraseIdx hq))
        · cases happ
      | die i =>
        simp only [apply] at happ
        split at happ
        · simp only [Option.some.injEq, Prod.mk.injEq] at happ
          obtain ⟨-, rfl⟩ := happ
          exact ⟨hI, fun q hq => hA q (List.mem_of_mem_eraseIdx hq)⟩
        · cases happ
  exact ⟨hall.1, hall.2.1⟩

variable (run) in
/-- Run a list of events, recording the pools that they find. -/
def record : List (Event S R α) → Pool S R α σ → Option (List (Pool S R α σ × Event S R α) × Pool S R α σ)
  | [], c => some ([], c)
  | e :: es, c =>
    match apply run e c with
    | none => none
    | some (_, c') => (record es c').map fun r => ((c, e) :: r.1, r.2)

theorem Moves.trans {c c' c'' : Pool S R α σ} {moves moves' : List (Pool S R α σ × Event S R α)}
    (h : Moves run starts c moves c') (h' : Moves run starts c' moves' c'') :
    Moves run starts c (moves ++ moves') c'' := by
  induction h' with
  | nil => simpa using h
  | snoc e _ hs happ ih =>
    rw [← List.append_assoc]
    exact .snoc e ih hs happ

theorem moves_of_record {es : List (Event S R α)} (hstarts : ∀ p, .start p ∈ es → starts p) :
    ∀ {c c' : Pool S R α σ} {moves : List (Pool S R α σ × Event S R α)},
      record run es c = some (moves, c') → Moves run starts c moves c' := by
  induction es with
  | nil =>
    intro c c' moves h
    simp only [record, Option.some.injEq, Prod.mk.injEq] at h
    obtain ⟨rfl, rfl⟩ := h
    exact .nil
  | cons e es ih =>
    intro c c' moves h
    simp only [record] at h
    split at h
    · cases h
    · rename_i out c₁ happ
      obtain ⟨⟨moves₁, c₂⟩, hrecord, heq⟩ := Option.map_eq_some_iff.mp h
      obtain ⟨rfl, rfl⟩ := Prod.mk.inj heq
      have hfirst : Moves run starts c ([] ++ [(c, e)]) c₁ :=
        .snoc e .nil (fun p hp => hstarts p (by simp [hp])) happ
      exact hfirst.trans (ih (fun p hp => hstarts p (List.mem_cons_of_mem _ hp)) hrecord)

/-- Runs that pass a test, from a list of events. -/
theorem exists_moves_of_record {es : List (Event S R α)} (hstarts : ∀ p, .start p ∈ es → starts p)
    {c : Pool S R α σ} {test : List (Pool S R α σ × Event S R α) × Pool S R α σ → Bool}
    (h : (record run es c).any test = true) : ∃ moves c', Moves run starts c moves c' ∧ test (moves, c') = true := by
  obtain ⟨⟨moves, c'⟩, hrecord, htest⟩ := (Option.any_eq_true _ _).mp h
  exact ⟨moves, c', moves_of_record hstarts hrecord, htest⟩

end Pool

end Ylem
