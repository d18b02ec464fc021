import Ylem.Lib.Text

/-!
# Patterns of `LIKE`

In a pattern of SQL's `LIKE` a percent sign stands for any text, an underscore for any one character, and a
backslash takes the character after it as it is. The pattern of a text without percent signs and
backslashes, its underscores escaped and a percent sign after it, is accepted by exactly the texts that
start with it (`like_escaped`).
-/

namespace Ylem

/-- An element of a pattern. -/
inductive Wildcard where
  | literal (c : Char)
  | one
  | any

namespace Wildcard

def parse : Text → List Wildcard
  | '\\' :: c :: pattern => literal c :: parse pattern
  | '%' :: pattern => any :: parse pattern
  | '_' :: pattern => one :: parse pattern
  | c :: pattern => literal c :: parse pattern
  | [] => []

def accepts : List Wildcard → Text → Bool
  | [], t => t.isEmpty
  | literal _ :: _, [] => false
  | literal c :: pattern, c' :: t => c' = c && accepts pattern t
  | one :: _, [] => false
  | one :: pattern, _ :: t => accepts pattern t
  | any :: pattern, t => t.tails.any (accepts pattern)

end Wildcard

namespace Text

/-- `t LIKE pattern`. -/
def like (t pattern : Text) : Bool := Wildcard.accepts (Wildcard.parse pattern) t

/-- `s/_/\\_/g`. -/
def escapeUnderscores (t : Text) : Text := t.flatMap fun c => if c = '_' then ['\\', '_'] else [c]

/-- Neither a percent sign nor a backslash. -/
def NoWildcards (t : Text) : Prop := ∀ c ∈ t, c ≠ '%' ∧ c ≠ '\\'

instance (t : Text) : Decidable (NoWildcards t) := List.decidableBAll _ t

theorem parse_escapeUnderscores {t : Text} (h : NoWildcards t) (rest : Text) :
    Wildcard.parse (escapeUnderscores t ++ rest) = t.map .literal ++ Wildcard.parse rest := by
  induction t with
  | nil => rfl
  | cons c t ih =>
    obtain ⟨hpercent, hbackslash⟩ := h c List.mem_cons_self
    have ih := ih fun c hc => h c (List.mem_cons_of_mem _ hc)
    rw [escapeUnderscores, List.flatMap_cons, List.append_assoc]
    by_cases hc : c = '_'
    · subst hc
      exact congrArg (Wildcard.literal '_' :: ·) ih
    · rw [if_neg hc]
      show Wildcard.parse (c :: (escapeUnderscores t ++ rest)) = _
      rw [Wildcard.parse]
      · exact congrArg (Wildcard.literal c :: ·) ih
      · intro c' pattern heq
        exact absurd heq hbackslash
      · exact hpercent
      · exact hc

theorem accepts_literals (t rest : Text) :
    Wildcard.accepts (t.map .literal ++ [.any]) rest = t.isPrefixOf rest := by
  induction t generalizing rest with
  | nil =>
    have hnil : [] ∈ rest.tails := (List.mem_tails _ _).mpr List.nil_suffix
    exact List.any_eq_true.mpr ⟨[], hnil, rfl⟩
  | cons c t ih =>
    cases rest with
    | nil => rfl
    | cons c' rest =>
      rw [List.map_cons, List.cons_append, Wildcard.accepts, ih, List.isPrefixOf]
      congr 1
      rw [Bool.eq_iff_iff, decide_eq_true_eq, beq_iff_eq]
      exact eq_comm

theorem truthy_escapeUnderscores {t : Text} (h : truthy (some t) = true) :
    truthy (some (escapeUnderscores t)) = true := by
  match t with
  | [] => cases h
  | c :: t =>
    by_cases hc : c = '_'
    · subst hc
      rfl
    · rw [escapeUnderscores, List.flatMap_cons, if_neg hc]
      cases t with
      | nil => exact h
      | cons d t => by_cases hd : d = '_' <;> simp [truthy, hd]

/-- The texts that start with a text that has no wildcards. -/
theorem like_escaped {t : Text} (h : NoWildcards t) (key : Text) :
    like key (escapeUnderscores t ++ ['%']) = t.isPrefixOf key := by
  rw [like, parse_escapeUnderscores h]
  exact accepts_literals t key

end Text

end Ylem
