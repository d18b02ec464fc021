import Mathlib

/-!
# Sequences of steps

A system that takes one step for each element of a list is a fold over it. An invariant that every step
keeps holds after all of them (`foldl_inv`). Where, under an invariant, a step keeps a property exactly if a
guard holds of the state that it finds, the property holds after every step exactly if every step met the
guard (`foldl_forall_iff`).
-/

namespace Ylem

variable {σ α : Type*} {step : σ → α → σ} {init : σ} {Inv Good : σ → Prop} {guard : σ → α → Prop}

/-- One of the steps of a longer sequence. -/
theorem exists_prefix_concat {P : List α → α → Prop} {steps : List α} {last : α} :
    (∃ before a, before ++ [a] <+: steps ++ [last] ∧ P before a) ↔
      (∃ before a, before ++ [a] <+: steps ∧ P before a) ∨ P steps last := by
  constructor
  · rintro ⟨before, a, hpre, hp⟩
    rcases List.prefix_concat_iff.mp hpre with heq | hpre
    · obtain ⟨rfl, hlast⟩ := List.append_inj' heq rfl
      obtain rfl : a = last := by simpa using hlast
      exact .inr hp
    · exact .inl ⟨before, a, hpre, hp⟩
  · rintro (⟨before, a, hpre, hp⟩ | hp)
    · exact ⟨before, a, hpre.trans (List.prefix_append _ _), hp⟩
    · exact ⟨steps, last, List.prefix_rfl, hp⟩

theorem foldl_inv (hinit : Inv init) (hstep : ∀ s a, Inv s → Inv (step s a)) (steps : List α) :
    Inv (steps.foldl step init) := by
  induction steps using List.reverseRecOn with
  | nil => exact hinit
  | append_singleton steps a ih =>
    rw [List.foldl_concat]
    exact hstep _ a ih

theorem foldl_forall_iff (hinv : Inv init) (hgood : Good init) (hstep : ∀ s a, Inv s → Inv (step s a))
    (hguard : ∀ s a, Inv s → Good s → (Good (step s a) ↔ guard s a)) (steps : List α) :
    (∀ before, before <+: steps → Good (before.foldl step init)) ↔
      ∀ before a, before ++ [a] <+: steps → guard (before.foldl step init) a := by
  have hall : ∀ before : List α, Inv (before.foldl step init) := foldl_inv hinv hstep
  constructor
  · intro h before a hbefore
    have hnext := h _ hbefore
    rw [List.foldl_concat] at hnext
    exact (hguard _ a (hall before) (h before ((List.prefix_append _ _).trans hbefore))).mp hnext
  · intro h before hbefore
    induction before using List.reverseRecOn with
    | nil => exact hgood
    | append_singleton before a ih =>
      have hearlier := ih ((List.prefix_append _ _).trans hbefore)
      rw [List.foldl_concat]
      exact (hguard _ a (hall before) hearlier).mpr (h before a hbefore)

/-- An invariant that every step keeps which meets the guard. -/
theorem foldl_inv_of_guard (hinv : Inv init) (hstep : ∀ s a, Inv s → guard s a → Inv (step s a)) {steps : List α}
    (h : ∀ before a, before ++ [a] <+: steps → guard (before.foldl step init) a) : Inv (steps.foldl step init) := by
  induction steps using List.reverseRecOn with
  | nil => exact hinv
  | append_singleton steps a ih =>
    rw [List.foldl_concat]
    have hearlier := ih fun before b hbefore => h before b (hbefore.trans (List.prefix_append _ _))
    exact hstep _ a hearlier (h steps a List.prefix_rfl)

/-- Where an invariant is kept only as long as every step meets the guard, and a step that does not meet it loses the
property at once. -/
theorem foldl_forall_iff_of_guard (hinv : Inv init) (hgood : ∀ s, Inv s → Good s)
    (hstep : ∀ s a, Inv s → guard s a → Inv (step s a)) (hbad : ∀ s a, Inv s → ¬ guard s a → ¬ Good (step s a))
    (steps : List α) :
    (∀ before, before <+: steps → Good (before.foldl step init)) ↔
      ∀ before a, before ++ [a] <+: steps → guard (before.foldl step init) a := by
  constructor
  · intro h before a hbefore
    induction hlength : before.length using Nat.strong_induction_on generalizing before a with
    | _ n ih =>
      have hinv' : Inv (before.foldl step init) := foldl_inv_of_guard hinv hstep fun front b hfront =>
        ih front.length (by
          have hle := hfront.length_le
          rw [List.length_append, List.length_singleton] at hle
          omega) front b (hfront.trans ((List.prefix_append _ _).trans hbefore)) rfl
      by_contra hnot
      have hnext := h _ hbefore
      rw [List.foldl_concat] at hnext
      exact hbad _ a hinv' hnot hnext
  · intro h before hbefore
    exact hgood _ (foldl_inv_of_guard hinv hstep fun front a hfront => h front a (hfront.trans hbefore))

end Ylem
