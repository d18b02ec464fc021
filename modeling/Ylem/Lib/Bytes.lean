import Mathlib

/-!
# Bytes

Strings of bytes, for code that runs on encodings: literals, and what the pieces of a string that is split at
a byte contain.
-/

namespace Ylem

abbrev Bytes := List UInt8

/-- A literal of ASCII characters. -/
def ascii (s : String) : Bytes := s.toList.map Char.toUInt8

/-- What a text counts as in a condition of a scripting language: only the empty one and `0` are false. -/
def truthy (v : Bytes) : Bool := !(v == [] || v == ascii "0")

variable {α : Type*} [BEq α] [LawfulBEq α] {a : α} {xs piece : List α}

/-- Every piece of a list that is split at `a` is part of it, without an `a`. -/
theorem mem_splitOn (h : piece ∈ xs.splitOn a) : a ∉ piece ∧ ∀ x ∈ piece, x ∈ xs := by
  induction xs generalizing piece with
  | nil =>
    rw [List.splitOn_nil, List.mem_singleton] at h
    subst h
    exact ⟨List.not_mem_nil, fun _ hx => hx⟩
  | cons x xs ih =>
    rw [List.splitOn_cons_eq_if_modifyHead] at h
    split_ifs at h with hx
    · rcases List.mem_cons.mp h with rfl | h
      · exact ⟨List.not_mem_nil, fun _ hy => absurd hy List.not_mem_nil⟩
      · exact ⟨(ih h).1, fun y hy => List.mem_cons_of_mem _ ((ih h).2 y hy)⟩
    · obtain ⟨first, rest, hsplit⟩ := List.exists_cons_of_ne_nil (List.splitOn_ne_nil a xs)
      rw [hsplit] at h ih
      rcases List.mem_cons.mp h with rfl | h
      · have hfirst := ih List.mem_cons_self
        have hne : a ≠ x := fun heq => hx (beq_iff_eq.mpr heq.symm)
        refine ⟨List.not_mem_cons_of_ne_of_not_mem hne hfirst.1, fun y hy => ?_⟩
        rcases List.mem_cons.mp hy with rfl | hy
        · exact List.mem_cons_self
        · exact List.mem_cons_of_mem _ (hfirst.2 y hy)
      · have hrest := ih (List.mem_cons_of_mem _ h)
        exact ⟨hrest.1, fun y hy => List.mem_cons_of_mem _ (hrest.2 y hy)⟩

/-- A list that is split into one piece is that piece. -/
theorem eq_of_splitOn_eq_singleton (h : xs.splitOn a = [piece]) : xs = piece ∧ a ∉ piece := by
  have hjoin : [a].intercalate (xs.splitOn a) = xs := List.intercalate_splitOn a
  rw [h] at hjoin
  have hpiece : piece = xs := by simpa using hjoin
  exact ⟨hpiece.symm, (mem_splitOn (h ▸ List.mem_singleton_self piece)).1⟩

end Ylem
