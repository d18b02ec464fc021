import Ylem.Lib.Bytes
import Ylem.Lib.Text

/-!
# Splitting at separators with white space

The two splits of a scripting language that settings are read with: at runs of separator characters, and at commas
with the white space around them. A field in front of a separator at the beginning is kept, empty ones at the end
are not.
-/

namespace Ylem

namespace Text

/-- What `\s` stands for. -/
def isBlank (c : Char) : Bool := c = ' ' || c = '\t' || c = '\n' || c = '\r' || c = '\x0c'

theorem mem_of_isBlank {c : Char} (h : isBlank c = true) : c ∈ [' ', '\t', '\n', '\r', '\x0c'] := by
  unfold isBlank at h
  simpa [or_assoc] using h

theorem isBlank_of_isDigit {c : Char} (hc : c.isDigit = true) : isBlank c = false := by
  cases hblank : isBlank c with
  | false => rfl
  | true =>
    have hmem := mem_of_isBlank hblank
    simp only [List.mem_cons, List.not_mem_nil, or_false] at hmem
    rcases hmem with rfl | rfl | rfl | rfl | rfl
    all_goals exact absurd hc (by decide)

/-- What `\w` stands for. -/
def isWord (c : Char) : Bool := c.isAlphanum || c = '_'

/-- `split /[…]+/`. -/
def splitRuns (isSep : Char → Bool) (t : Text) : List Text :=
  match t.splitOnP isSep with
  | [] => []
  | first :: rest =>
    match rest.filter (· ≠ []) with
    | [] => if first = [] then [] else [first]
    | fields => first :: fields

/-- The fields with the white space at the separators between them gone. -/
def trimInside (first : Text) : List Text → List Text
  | [] => [first]
  | field :: fields => first.rdropWhile isBlank :: trimInside (field.dropWhile isBlank) fields

/-- `split /\s*SEP\s*/` with a limit: empty fields at the end are kept. -/
def splitAround (sep : Char) (t : Text) : List Text :=
  match t.splitOn sep with
  | [] => []
  | first :: rest => trimInside first rest

/-- `split /\s*,\s*/`. -/
def splitCommas (t : Text) : List Text := (splitAround ',' t).rdropWhile (· = [])

/-! ### White space at the ends -/

/-- Nothing but white space. -/
def Blank (t : Text) : Prop := ∀ c ∈ t, isBlank c = true

/-- The text without white space at its ends. -/
def trim (t : Text) : Text := (t.dropWhile isBlank).rdropWhile isBlank

section Trim

variable {t u w w' : Text} {c sep : Char}

theorem Blank.dropWhile_append (h : Blank w) (t : Text) : (w ++ t).dropWhile isBlank = t.dropWhile isBlank :=
  List.dropWhile_append_of_pos h

theorem blank_nil : Blank [] := fun _ h => absurd h List.not_mem_nil

theorem Blank.not_mem (h : Blank w) (hc : isBlank c = false) : c ∉ w := fun hmem =>
  absurd ((h c hmem).symm.trans hc) (by decide)

theorem rdropWhile_append_blank (t : Text) (h : Blank w) :
    (t ++ w).rdropWhile isBlank = t.rdropWhile isBlank := by
  rw [List.rdropWhile, List.reverse_append, List.dropWhile_append_of_pos fun c hc => h c (List.mem_reverse.mp hc)]
  rfl

theorem dropWhile_append_cons (t u : Text) (hc : isBlank c = false) :
    (t ++ c :: u).dropWhile isBlank = t.dropWhile isBlank ++ c :: u := by
  induction t with
  | nil => rw [List.nil_append, List.dropWhile_cons_of_neg (by simp [hc]), List.dropWhile_nil, List.nil_append]
  | cons b t ih =>
    cases hb : isBlank b with
    | true => rw [List.cons_append, List.dropWhile_cons_of_pos hb, List.dropWhile_cons_of_pos hb, ih]
    | false => rw [List.cons_append, List.dropWhile_cons_of_neg (by simp [hb]), List.dropWhile_cons_of_neg (by simp [hb]),
        List.cons_append]

theorem rdropWhile_append_cons (t u : Text) (hc : isBlank c = false) :
    (t ++ c :: u).rdropWhile isBlank = t ++ c :: u.rdropWhile isBlank := by
  have hreverse : (t ++ c :: u).reverse = u.reverse ++ c :: t.reverse := by simp
  rw [List.rdropWhile, hreverse, dropWhile_append_cons _ _ hc, List.reverse_append, List.reverse_cons,
    List.reverse_reverse, List.append_assoc]
  rfl

theorem dropWhile_rdropWhile (t : Text) :
    (t.rdropWhile isBlank).dropWhile isBlank = (t.dropWhile isBlank).rdropWhile isBlank := by
  by_cases h : ∀ c ∈ t, isBlank c = true
  · rw [List.rdropWhile_eq_nil_iff.mpr h, List.dropWhile_eq_nil_iff.mpr h]
    rfl
  · obtain ⟨c, hmem, hc⟩ : ∃ c ∈ t, isBlank c = false := by simpa using h
    obtain ⟨before, after, rfl⟩ := List.append_of_mem hmem
    rw [rdropWhile_append_cons _ _ hc, dropWhile_append_cons _ _ hc, dropWhile_append_cons _ _ hc,
      rdropWhile_append_cons _ _ hc]

theorem trim_eq_nil (h : Blank t) : trim t = [] := by
  rw [trim, List.dropWhile_eq_nil_iff.mpr h]
  rfl

/-- A text without white space comes out of the white space around it. -/
theorem trim_surrounded (h : Blank w) (h' : Blank w') (ht : ∀ c ∈ t, isBlank c = false) :
    trim (w ++ (t ++ w')) = t := by
  rw [trim, h.dropWhile_append, ← dropWhile_rdropWhile, rdropWhile_append_blank _ h']
  have hlast : t.rdropWhile isBlank = t :=
    List.rdropWhile_eq_self_iff.mpr fun hne => by simp [ht _ (List.getLast_mem hne)]
  rw [hlast]
  cases t with
  | nil => rfl
  | cons c t => exact List.dropWhile_cons_of_neg (by simp [ht c List.mem_cons_self])

/-! ### Splitting a text without white space at its ends -/

/-- The last field without white space at its end. -/
def trimLast : List Text → List Text
  | [] => []
  | [last] => [last.rdropWhile isBlank]
  | first :: field :: fields => first :: trimLast (field :: fields)

theorem intercalate_trimLast (hsep : isBlank sep = false) (fields : List Text) :
    [sep].intercalate (trimLast fields) = ([sep].intercalate fields).rdropWhile isBlank := by
  induction fields using trimLast.induct with
  | case1 => rfl
  | case2 last => rw [trimLast, List.intercalate_singleton, List.intercalate_singleton]
  | case3 first field fields ih =>
    have hne : trimLast (field :: fields) ≠ [] := by
      cases fields <;> exact List.cons_ne_nil _ _
    obtain ⟨head, tail, htail⟩ := List.exists_cons_of_ne_nil hne
    rw [trimLast, List.intercalate_cons_cons, htail, List.intercalate_cons_cons, ← htail, ih, List.append_assoc,
      List.append_assoc]
    exact (rdropWhile_append_cons _ _ hsep).symm

theorem mem_trimLast {field : Text} {fields : List Text} (h : field ∈ trimLast fields) :
    ∃ field' ∈ fields, field <+: field' := by
  induction fields using trimLast.induct with
  | case1 => exact absurd h List.not_mem_nil
  | case2 last =>
    rw [List.mem_singleton.mp h]
    exact ⟨last, List.mem_singleton.mpr rfl, List.rdropWhile_prefix _ _⟩
  | case3 first field' fields ih =>
    rcases List.mem_cons.mp h with rfl | h
    · exact ⟨_, List.mem_cons_self, List.prefix_rfl⟩
    · obtain ⟨other, hother, hpre⟩ := ih h
      exact ⟨other, List.mem_cons_of_mem _ hother, hpre⟩

theorem trimInside_trimLast (first : Text) (fields : List Text) :
    (match trimLast (first.dropWhile isBlank :: fields) with
      | [] => []
      | first :: rest => trimInside first rest) = (first :: fields).map trim := by
  induction fields generalizing first with
  | nil => rfl
  | cons field fields ih =>
    rw [List.map_cons, ← ih field]
    cases fields with
    | nil =>
      rw [trimLast, trimLast, trimLast, ← dropWhile_rdropWhile]
      rfl
    | cons other fields => rfl

/-- The fields of a text whose ends are trimmed are the fields of the text, all trimmed. -/
theorem splitAround_trim (hsep : isBlank sep = false) (t : Text) :
    splitAround sep (trim t) = (t.splitOn sep).map trim := by
  obtain ⟨first, rest, hsplit⟩ := List.exists_cons_of_ne_nil (List.splitOn_ne_nil sep t)
  have hnot : ∀ field ∈ first :: rest, sep ∉ field := fun field hfield => by
    rw [← hsplit] at hfield
    exact (mem_splitOn hfield).1
  have hdrop : t.dropWhile isBlank = [sep].intercalate (first.dropWhile isBlank :: rest) := by
    have hjoin : [sep].intercalate (t.splitOn sep) = t := List.intercalate_splitOn sep
    rw [← hjoin, hsplit]
    cases rest with
    | nil => rw [List.intercalate_singleton, List.intercalate_singleton]
    | cons field fields =>
      rw [List.intercalate_cons_cons, List.intercalate_cons_cons, List.append_assoc, List.append_assoc]
      exact dropWhile_append_cons _ _ hsep
  have hfields : (trim t).splitOn sep = trimLast (first.dropWhile isBlank :: rest) := by
    rw [trim, hdrop, ← intercalate_trimLast hsep]
    refine List.splitOn_intercalate _ (fun field hfield hmem => ?_) (by cases rest <;> exact List.cons_ne_nil _ _)
    obtain ⟨other, hother, hpre⟩ := mem_trimLast hfield
    rcases List.mem_cons.mp hother with rfl | hother
    · exact hnot first List.mem_cons_self ((List.dropWhile_suffix _).subset (hpre.subset hmem))
    · exact hnot other (List.mem_cons_of_mem _ hother) (hpre.subset hmem)
  rw [splitAround, hfields, hsplit]
  exact trimInside_trimLast first rest

end Trim

end Text

end Ylem
