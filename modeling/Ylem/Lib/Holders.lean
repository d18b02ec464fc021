import Mathlib

/-!
# Things and their holders

A table says of each thing who holds it, and every holder knows of at most one thing that it holds. As long as the
table has all that they know of (`Held`), nobody holds what another holds (`Held.unique`); the two agree (`Agree`) if
the table has nothing else. The rules below say what becomes of this when a thing is taken and given back, and when
only one of the two is told.
-/

namespace Ylem.Holders

variable {κ ω : Type*} {t : κ → Option ω} {f : ω → Option κ} {k : κ} {o o' : ω}

/-- The table has what the holders know of. -/
def Held (t : κ → Option ω) (f : ω → Option κ) : Prop := ∀ k o, f o = some k → t k = some o

/-- The table has what the holders know of, and nothing else. -/
def Agree (t : κ → Option ω) (f : ω → Option κ) : Prop := ∀ k o, t k = some o ↔ f o = some k

namespace Held

/-- Nobody holds what another holds. -/
theorem unique (h : Held t f) (ho : f o = some k) (ho' : f o' = some k) : o = o' :=
  Option.some.inj ((h k o ho).symm.trans (h k o' ho'))

variable [DecidableEq ω]

/-- A thing is taken that nobody holds. -/
theorem take [DecidableEq κ] (h : Held t f) (ht : t k = none) :
    Held (Function.update t k (some o)) (Function.update f o (some k)) := by
  intro k' o' hf
  by_cases ho : o' = o
  · subst ho
    rw [Function.update_self, Option.some_inj] at hf
    rw [hf, Function.update_self]
  · rw [Function.update_of_ne ho] at hf
    have hk : k' ≠ k := fun heq => Option.some_ne_none o' ((h k' o' hf).symm.trans (heq ▸ ht))
    rw [Function.update_of_ne hk, h k' o' hf]

/-- Somebody forgets, whether or not the table is told. -/
theorem forget (h : Held t f) (o : ω) : Held t (Function.update f o none) := by
  intro k' o' hf
  by_cases ho : o' = o
  · rw [ho, Function.update_self] at hf
    cases hf
  · rw [Function.update_of_ne ho] at hf
    exact h k' o' hf

theorem drop (h : Held t f) (o : ω) : Held (fun k => (t k).filter (· ≠ o)) (Function.update f o none) := by
  intro k' o' hf
  have ho : o' ≠ o := by
    rintro rfl
    rw [Function.update_self] at hf
    cases hf
  exact Option.filter_eq_some_iff.mpr ⟨h.forget o k' o' hf, decide_eq_true ho⟩

theorem give [DecidableEq κ] (h : Held t f) (k : κ) (o : ω) :
    Held (Function.update t k ((t k).filter (· ≠ o))) (Function.update f o none) := by
  intro k' o' hf
  by_cases hk : k' = k
  · subst hk
    rw [Function.update_self]
    exact h.drop o k' o' hf
  · rw [Function.update_of_ne hk]
    exact h.forget o k' o' hf

end Held

theorem held_none : Held (fun _ : κ => (none : Option ω)) (fun _ => none) := fun _ _ h =>
  absurd h (Option.some_ne_none _).symm

theorem agree_none : Agree (fun _ : κ => (none : Option ω)) (fun _ => none) := fun _ _ =>
  iff_of_false (Option.some_ne_none _).symm (Option.some_ne_none _).symm

namespace Agree

variable [DecidableEq ω]

/-- A thing that nobody holds is taken by somebody who holds nothing. -/
theorem take [DecidableEq κ] (h : Agree t f) (ht : t k = none) (hf : f o = none) :
    Agree (Function.update t k (some o)) (Function.update f o (some k)) := by
  intro k' o'
  by_cases hk : k' = k <;> by_cases ho : o' = o
  · subst hk ho
    rw [Function.update_self, Function.update_self]
    exact iff_of_true rfl rfl
  · subst hk
    rw [Function.update_self, Function.update_of_ne ho, ← h k' o', ht]
    exact iff_of_false (fun heq => ho (Option.some.inj heq).symm) (Option.some_ne_none o').symm
  · subst ho
    rw [Function.update_of_ne hk, Function.update_self, h k' o', hf]
    exact iff_of_false (Option.some_ne_none k').symm fun heq => hk (Option.some.inj heq).symm
  · rw [Function.update_of_ne hk, Function.update_of_ne ho]
    exact h k' o'

/-- Everything is taken away from somebody. -/
theorem drop (h : Agree t f) (o : ω) : Agree (fun k => (t k).filter (· ≠ o)) (Function.update f o none) := by
  intro k' o'
  rw [Option.filter_eq_some_iff, h k' o']
  by_cases ho : o' = o
  · subst ho
    rw [Function.update_self]
    exact iff_of_false (fun hmem => of_decide_eq_true hmem.2 rfl) (Option.some_ne_none k').symm
  · rw [Function.update_of_ne ho]
    exact and_iff_left (decide_eq_true ho)

theorem filter_eq [DecidableEq κ] (h : Agree t f) (hf : f o = some k ∨ f o = none) :
    Function.update t k ((t k).filter (· ≠ o)) = fun k => (t k).filter (· ≠ o) := by
  funext k'
  by_cases hk : k' = k
  · rw [hk, Function.update_self]
  · have hne : t k' ≠ some o := fun hk' => by
      have hfo := (h k' o).mp hk'
      rcases hf with hf | hf
      · exact hk (Option.some.inj (hfo.symm.trans hf))
      · exact Option.some_ne_none k' (hfo.symm.trans hf)
    rw [Function.update_of_ne hk]
    cases ht : t k' with
    | none => rfl
    | some o' =>
      have ho' : o' ≠ o := fun heq => hne (ht.trans (congrArg some heq))
      rw [Option.filter_some, if_pos (decide_eq_true ho')]

theorem give [DecidableEq κ] (h : Agree t f) (hf : f o = some k ∨ f o = none) :
    Agree (Function.update t k ((t k).filter (· ≠ o))) (Function.update f o none) := by
  rw [h.filter_eq hf]
  exact h.drop o

/-- The table is told alone. -/
theorem drop_iff (h : Agree t f) (o : ω) : Agree (fun k => (t k).filter (· ≠ o)) f ↔ f o = none := by
  constructor
  · intro hdrop
    cases hf : f o with
    | none => rfl
    | some k => exact absurd rfl (of_decide_eq_true (Option.filter_eq_some_iff.mp ((hdrop k o).mpr hf)).2)
  · intro hf
    have hdrop := h.drop o
    rwa [← hf, Function.update_eq_self] at hdrop

/-- The holder is told alone. -/
theorem forget_iff (h : Agree t f) (o : ω) : Agree t (Function.update f o none) ↔ f o = none := by
  constructor
  · intro hforget
    cases hf : f o with
    | none => rfl
    | some k =>
      have hnone := (hforget k o).mp ((h k o).mpr hf)
      rw [Function.update_self] at hnone
      exact absurd hnone (Option.some_ne_none k).symm
  · intro hf
    rwa [← hf, Function.update_eq_self]

end Agree

end Ylem.Holders
