import Mathlib

/-!
# Mixing the elements of a vector

A cipher of this kind goes over the elements of a vector again and again, and adds to each of them what a function
makes of the others. However these functions look, going backwards and subtracting undoes it (`undo_run`): when an
element has its turn, the others are as they were.
-/

namespace Ylem.Mixing

variable {ι G : Type*}

/-- An element, and what is added to it. -/
structure Step (ι G : Type*) where
  pos : ι
  amount : (ι → G) → G

variable [DecidableEq ι] [AddGroup G]

namespace Step

/-- What is added does not depend on the element itself. -/
def Blind (s : Step ι G) : Prop := ∀ v x, s.amount (Function.update v s.pos x) = s.amount v

def run (s : Step ι G) (v : ι → G) : ι → G := Function.update v s.pos (v s.pos + s.amount v)

def undo (s : Step ι G) (v : ι → G) : ι → G := Function.update v s.pos (v s.pos - s.amount v)

theorem undo_run {s : Step ι G} (h : s.Blind) (v : ι → G) : s.undo (s.run v) = v := by
  rw [undo, run, h, Function.update_self, add_sub_cancel_right, Function.update_idem, Function.update_eq_self]

end Step

def run (steps : List (Step ι G)) (v : ι → G) : ι → G := steps.foldl (fun v s => s.run v) v

/-- The steps backwards. -/
def undo (steps : List (Step ι G)) (v : ι → G) : ι → G := steps.foldr Step.undo v

@[simp] theorem run_nil (v : ι → G) : run [] v = v := rfl

@[simp] theorem run_cons (s : Step ι G) (steps : List (Step ι G)) (v : ι → G) : run (s :: steps) v = run steps (s.run v) :=
  rfl

@[simp] theorem undo_nil (v : ι → G) : undo [] v = v := rfl

@[simp] theorem undo_cons (s : Step ι G) (steps : List (Step ι G)) (v : ι → G) :
    undo (s :: steps) v = s.undo (undo steps v) := rfl

theorem run_append (steps steps' : List (Step ι G)) (v : ι → G) : run (steps ++ steps') v = run steps' (run steps v) :=
  List.foldl_append

theorem undo_append (steps steps' : List (Step ι G)) (v : ι → G) : undo (steps ++ steps') v = undo steps (undo steps' v) :=
  List.foldr_append

theorem undo_run {steps : List (Step ι G)} (h : ∀ s ∈ steps, s.Blind) (v : ι → G) : undo steps (run steps v) = v := by
  induction steps generalizing v with
  | nil => rfl
  | cons s steps ih =>
    obtain ⟨hs, hsteps⟩ := List.forall_mem_cons.mp h
    rw [run_cons, undo_cons, ih hsteps, Step.undo_run hs]

end Ylem.Mixing
