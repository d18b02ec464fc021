import Ylem.Lib.Text

/-!
# Lines of a stream

`cutLines` cuts a text at its newlines, into the pieces in front of them and what follows the last one.
Cutting can be done piece by piece: what is left of one piece goes in front of the next
(`cutLines_append`). `chomp` takes the CR off a line that ended in CR LF.
-/

namespace Ylem

/-- The pieces in front of the newlines, and what follows the last newline. -/
def cutLines : Text → List Text × Text
  | [] => ([], [])
  | c :: t =>
    let (lines, rest) := cutLines t
    if c = '\n' then ([] :: lines, rest)
    else match lines with
      | [] => ([], c :: rest)
      | line :: lines => ((c :: line) :: lines, rest)

/-- A line without the CR at its end. -/
def chomp (line : Text) : Text := if line.getLast? = some '\r' then line.dropLast else line

/-- The text of lines, each with its newline. -/
def joinLines (lines : List Text) : Text := lines.flatMap fun line => line ++ ['\n']

theorem cutLines_of_not_mem {t : Text} (h : '\n' ∉ t) : cutLines t = ([], t) := by
  induction t with
  | nil => rfl
  | cons c t ih =>
    have hc : c ≠ '\n' := fun heq => h (heq ▸ List.mem_cons_self)
    rw [cutLines, ih fun hmem => h (List.mem_cons_of_mem _ hmem)]
    exact if_neg hc

/-- The first line of a text. -/
theorem cutLines_line {line : Text} (h : '\n' ∉ line) (t : Text) :
    cutLines (line ++ '\n' :: t) = (line :: (cutLines t).1, (cutLines t).2) := by
  induction line with
  | nil => rfl
  | cons c line ih =>
    have hc : c ≠ '\n' := fun heq => h (heq ▸ List.mem_cons_self)
    rw [List.cons_append, cutLines, ih fun hmem => h (List.mem_cons_of_mem _ hmem)]
    exact if_neg hc

theorem eq_line_append (t : Text) : '\n' ∉ t ∨ ∃ line rest, '\n' ∉ line ∧ t = line ++ '\n' :: rest := by
  by_cases h : '\n' ∈ t
  · obtain ⟨line, rest, ht, hline⟩ := List.eq_append_cons_of_mem h
    exact .inr ⟨line, rest, hline, ht⟩
  · exact .inl h

/-- Induction over the lines of a text. -/
@[elab_as_elim]
theorem line_induction {P : Text → Prop} (rest : ∀ t, '\n' ∉ t → P t)
    (line : ∀ line t, '\n' ∉ line → P t → P (line ++ '\n' :: t)) (t : Text) : P t := by
  induction hlen : t.length using Nat.strongRecOn generalizing t with
  | ind n ih =>
    rcases eq_line_append t with h | ⟨first, tail, hfirst, rfl⟩
    · exact rest t h
    · refine line first tail hfirst (ih tail.length ?_ tail rfl)
      rw [← hlen, List.length_append, List.length_cons]
      omega

/-- Nothing is lost: the lines with their newlines and the rest are the text. -/
theorem joinLines_cutLines (t : Text) : joinLines (cutLines t).1 ++ (cutLines t).2 = t := by
  induction t using line_induction with
  | rest t h =>
    rw [cutLines_of_not_mem h]
    rfl
  | line line t h ih =>
    rw [cutLines_line h]
    show (line ++ ['\n'] ++ joinLines (cutLines t).1) ++ (cutLines t).2 = _
    rw [List.append_assoc, ih, List.append_assoc]
    rfl

/-- Cutting piece by piece: the rest of one piece goes in front of the next. -/
theorem cutLines_append (s t : Text) :
    cutLines (s ++ t) =
      ((cutLines s).1 ++ (cutLines ((cutLines s).2 ++ t)).1, (cutLines ((cutLines s).2 ++ t)).2) := by
  induction s using line_induction with
  | rest s h =>
    rw [cutLines_of_not_mem h]
    rfl
  | line line s h ih =>
    rw [List.append_assoc, List.cons_append, cutLines_line h, cutLines_line h, ih]
    rfl

theorem chomp_eq_nil_iff {line : Text} : chomp line = [] ↔ line = [] ∨ line = ['\r'] := by
  unfold chomp
  constructor
  · intro h
    split_ifs at h with hcr
    · match line, h with
      | [c], _ =>
        have hc : c = '\r' := by simpa using hcr
        exact .inr (by rw [hc])
      | [], _ => exact .inl rfl
    · exact .inl h
  · rintro (rfl | rfl) <;> rfl

end Ylem
