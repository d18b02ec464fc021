import Ylem.Lib.Split

/-!
# Policy strings

`new_from_policy_string` reads the name of a policy class off the front of a string and hands the rest to
`new_from_policy_args` of that class, which reads its arguments off in turn; for `Union` these are policy strings
again. The functions here return the policy with what they leave of the string.

The two functions of the recursion are given a number of calls that they may make, and return nothing if they
need more. `Returns` says that they need no more than some number. They always do (`exists_returns`), and every
textual form of a policy is read as that policy (`policyString_returns`).
-/

namespace Ylem

open Text

/-! ### The policies -/

/-- A policy as its string describes it. A count is the text that is read for it, and is empty where there is none. -/
inductive Policy where
  | multipleHosts (mindevcount : Text)
  | multipleNetworks (mindevcount : Text)
  | hostsPerNetwork (hostsPerZone : List (Text × Option Text))
  | union (policies : List Policy)

/-- The classes that have `new_from_policy_args`. -/
inductive PolicyClass where
  | multipleHosts
  | multipleNetworks
  | hostsPerNetwork
  | union

def policyClasses : List (Text × PolicyClass) :=
  [("MogileFS::ReplicationPolicy::MultipleHosts".toList, .multipleHosts),
    ("MogileFS::ReplicationPolicy::MultipleNetworks".toList, .multipleNetworks),
    ("MogileFS::ReplicationPolicy::HostsPerNetwork".toList, .hostsPerNetwork),
    ("MogileFS::ReplicationPolicy::Union".toList, .union)]

/-! ### Reading off the front -/

/-- `s/^\s*C\s*//`; nothing if that does not match. -/
def eat (c : Char) (t : Text) : Option Text :=
  match t.dropWhile isBlank with
  | [] => none
  | c' :: rest => if c' = c then some (rest.dropWhile isBlank) else none

/-- `[\w:]`. -/
def isNameChar (c : Char) : Bool := isWord c || c = ':'

/-- `s/^\s*([\w:]+)//`. -/
def eatName (t : Text) : Option (Text × Text) :=
  let t := t.dropWhile isBlank
  if t.takeWhile isNameChar = [] then none else some (t.takeWhile isNameChar, t.dropWhile isNameChar)

/-- `s/^\s* \( \s* (\d*) \s* \) \s*//x`. -/
def eatCount (t : Text) : Option (Text × Text) :=
  match eat '(' t with
  | none => none
  | some t => (eat ')' (t.dropWhile Char.isDigit)).map fun rest => (t.takeWhile Char.isDigit, rest)

/-- `s/^\s* \( \s* ( [^)]*?) \s* \) \s*//x`. -/
def eatArgs (t : Text) : Option (Text × Text) :=
  match eat '(' t with
  | none => none
  | some t => (eat ')' (t.dropWhile (· != ')'))).map fun rest => ((t.takeWhile (· != ')')).rdropWhile isBlank, rest)

/-! ### The classes -/

/-- An error of the two classes that have a count. -/
def failedArgs (polclass t : Text) : Text := polclass ++ " failed to parse args: ".toList ++ t

/-- `new_from_policy_args` of the classes that have a count. -/
def countFromPolicyArgs (policy : Text → Policy) (polclass t : Text) : Except Text (Policy × Text) :=
  match eatCount t with
  | some (count, rest) => .ok (policy count, rest)
  | none => .error (failedArgs polclass t)

/-- `%hosts_per_zone` of the arguments. A zone has the last count that is given for it. -/
def hostsPerZone (args : List Text) : List (Text × Option Text) :=
  args.foldl (fun zones arg =>
    let zone := (splitAround '=' arg)[0]?.getD []
    zones.filter (fun entry => entry.1 ≠ zone) ++ [(zone, (splitAround '=' arg)[1]?)]) []

/-- `MogileFS::ReplicationPolicy::HostsPerNetwork::new_from_policy_args`. -/
def zonesFromPolicyArgs (polclass t : Text) : Except Text (Policy × Text) :=
  match eatArgs t with
  | some (args, rest) => .ok (.hostsPerNetwork (hostsPerZone (splitCommas args)), rest)
  | none => .error (failedArgs polclass t)

/-- The full name of a class. -/
def polclassOf (name : Text) : Text :=
  if ':' ∈ name then name else "MogileFS::ReplicationPolicy::".toList ++ name

section Parse

/- What the interpreter dies of for a class that is none of the policies: it cannot be loaded or has no
`new_from_policy_args`. -/
variable (loadError : Text → Text)

mutual

/-- Nothing if it takes more calls. -/
def newFromPolicyString : ℕ → Text → Option (Except Text (Policy × Text))
  | 0, _ => none
  | calls + 1, t =>
    match eatName t with
    | none => some (.error ("Failed to parse policy string: ".toList ++ t))
    | some (name, rest) =>
      let polclass := polclassOf name
      match policyClasses.lookup polclass with
      | none => some (.error (loadError polclass))
      | some .multipleHosts => some (countFromPolicyArgs .multipleHosts polclass rest)
      | some .multipleNetworks => some (countFromPolicyArgs .multipleNetworks polclass rest)
      | some .hostsPerNetwork => some (zonesFromPolicyArgs polclass rest)
      | some .union => unionFromPolicyArgs calls [] ((eat '(' rest).getD rest)

/-- The loop of `MogileFS::ReplicationPolicy::Union::new_from_policy_args`. -/
def unionFromPolicyArgs : ℕ → List Policy → Text → Option (Except Text (Policy × Text))
  | 0, _, _ => none
  | calls + 1, policies, t =>
    match newFromPolicyString calls t with
    | none => none
    | some (.error e) => some (.error e)
    | some (.ok (pol, rest)) =>
      -- the comma may be missing
      match eat ')' ((eat ',' rest).getD rest) with
      | some rest => some (.ok (.union (policies ++ [pol]), rest))
      | none => unionFromPolicyArgs calls (policies ++ [pol]) ((eat ',' rest).getD rest)

end

/-- The parser comes to an end with that result. -/
def Returns (t : Text) (r : Except Text (Policy × Text)) : Prop :=
  ∃ calls, ∀ m, calls ≤ m → newFromPolicyString loadError m t = some r

/-- The loop comes to an end with that result. -/
def LoopReturns (policies : List Policy) (t : Text) (r : Except Text (Policy × Text)) : Prop :=
  ∃ calls, ∀ m, calls ≤ m → unionFromPolicyArgs loadError m policies t = some r

end Parse

/-! ### Textual forms -/

/-- A zone and its count. -/
inductive WritesPair : Text × Text → Text → Prop
  | mk {zone count w₁ w₂ w₃ w₄ : Text} (h₁ : Blank w₁) (h₂ : Blank w₂) (h₃ : Blank w₃) (h₄ : Blank w₄) :
    WritesPair (zone, count) (w₁ ++ (zone ++ w₂) ++ '=' :: (w₃ ++ (count ++ w₄)))

/-- Pairs with commas between them. -/
inductive WritesPairs : List (Text × Text) → Text → Prop
  | empty {w : Text} (h : Blank w) : WritesPairs [] w
  | many {pairs : List (Text × Text)} {parts : List Text} (hne : pairs ≠ []) (h : List.Forall₂ WritesPair pairs parts) :
    WritesPairs pairs ([','].intercalate parts)

/-- The name of a class and its arguments. -/
inductive WritesCall (name args : Text) : Text → Prop
  | mk {w₁ w₂ w₃ : Text} (h₁ : Blank w₁) (h₂ : Blank w₂) (h₃ : Blank w₃) :
    WritesCall name args (w₁ ++ (name ++ (w₂ ++ '(' :: (args ++ ')' :: w₃))))

mutual

/-- The text is a textual form of the policy, with any white space around names, commas and parentheses. -/
inductive Writes : Policy → Text → Prop
  | multipleHosts {count w₁ w₂ t : Text} (h₁ : Blank w₁) (h₂ : Blank w₂)
    (ht : WritesCall "MultipleHosts".toList (w₁ ++ (count ++ w₂)) t) : Writes (.multipleHosts count) t
  | multipleNetworks {count w₁ w₂ t : Text} (h₁ : Blank w₁) (h₂ : Blank w₂)
    (ht : WritesCall "MultipleNetworks".toList (w₁ ++ (count ++ w₂)) t) : Writes (.multipleNetworks count) t
  | hostsPerNetwork {pairs : List (Text × Text)} {args t : Text} (h : WritesPairs pairs args)
    (ht : WritesCall "HostsPerNetwork".toList args t) :
    Writes (.hostsPerNetwork (pairs.map fun pair => (pair.1, some pair.2))) t
  | union {policies : List Policy} {args t : Text} (h : WritesAll policies args)
    (ht : WritesCall "Union".toList args t) : Writes (.union policies) t

/-- The same of one or more policies with commas between them. -/
inductive WritesAll : List Policy → Text → Prop
  | one {p : Policy} {t : Text} (h : Writes p t) : WritesAll [p] t
  | more {p : Policy} {policies : List Policy} {t u : Text} (h : Writes p t) (hrest : WritesAll policies u) :
    WritesAll (p :: policies) (t ++ ',' :: u)

end

/-- The characters that separate. -/
def isSeparator (c : Char) : Bool := isBlank c || c = ',' || c = '=' || c = '(' || c = ')'

/-- A policy that has a textual form: counts are digits, zones are distinct names without separators, and a union
has a policy in it. -/
inductive Policy.WellFormed : Policy → Prop
  | multipleHosts {count : Text} (h : ∀ c ∈ count, c.isDigit = true) : WellFormed (.multipleHosts count)
  | multipleNetworks {count : Text} (h : ∀ c ∈ count, c.isDigit = true) : WellFormed (.multipleNetworks count)
  | hostsPerNetwork {pairs : List (Text × Text)} (hdistinct : (pairs.map Prod.fst).Nodup)
    (hzone : ∀ pair ∈ pairs, pair.1 ≠ [] ∧ ∀ c ∈ pair.1, isSeparator c = false)
    (hcount : ∀ pair ∈ pairs, pair.2 ≠ [] ∧ ∀ c ∈ pair.2, c.isDigit = true) :
    WellFormed (.hostsPerNetwork (pairs.map fun pair => (pair.1, some pair.2)))
  | union {policies : List Policy} (hne : policies ≠ []) (h : ∀ p ∈ policies, WellFormed p) :
    WellFormed (.union policies)

/-! ### What is read off -/

section Eat

variable {t rest w name : Text} {c c' : Char}

theorem eat_dropWhile (c : Char) (t : Text) : eat c (t.dropWhile isBlank) = eat c t := by
  rw [eat, eat, List.dropWhile_idempotent]

theorem eat_append (hw : Blank w) (hc : isBlank c = false) (t : Text) :
    eat c (w ++ c :: t) = some (t.dropWhile isBlank) := by
  rw [eat, hw.dropWhile_append, List.dropWhile_cons_of_neg (by simp [hc])]
  exact if_pos rfl

theorem eat_cons_of_ne (hc' : isBlank c' = false) (hne : c' ≠ c) (t : Text) : eat c (c' :: t) = none := by
  rw [eat, List.dropWhile_cons_of_neg (by simp [hc'])]
  exact if_neg hne

theorem length_eat (h : eat c t = some rest) : rest.length < t.length := by
  unfold eat at h
  have hle := (List.dropWhile_suffix (l := t) isBlank).length_le
  split at h
  · exact absurd h (by simp)
  · rename_i c' u heq
    split_ifs at h
    rw [← Option.some.inj h]
    have hle' := (List.dropWhile_suffix (l := u) isBlank).length_le
    rw [heq, List.length_cons] at hle
    omega

theorem length_getD_eat (c : Char) (t : Text) : ((eat c t).getD t).length ≤ t.length := by
  cases h : eat c t with
  | none => exact le_rfl
  | some rest => exact (length_eat h).le

theorem eatName_dropWhile (t : Text) : eatName (t.dropWhile isBlank) = eatName t := by
  rw [eatName, eatName, List.dropWhile_idempotent]

theorem length_eatName (h : eatName t = some (name, rest)) : rest.length < t.length := by
  unfold eatName at h
  dsimp only at h
  split_ifs at h with hname
  obtain ⟨-, rfl⟩ := Prod.mk.inj (Option.some.inj h)
  have hle := (List.dropWhile_suffix (l := t) isBlank).length_le
  have hsplit := congrArg List.length (List.takeWhile_append_dropWhile (p := isNameChar) (l := t.dropWhile isBlank))
  have hpos := List.length_pos_of_ne_nil hname
  rw [List.length_append] at hsplit
  omega

theorem length_eatCount (h : eatCount t = some (name, rest)) : rest.length < t.length := by
  unfold eatCount at h
  cases hopen : eat '(' t with
  | none => simp [hopen] at h
  | some u =>
    rw [hopen] at h
    obtain ⟨rest', hclose, heq⟩ := Option.map_eq_some_iff.mp h
    obtain ⟨-, rfl⟩ := Prod.mk.inj heq
    have hle := (List.dropWhile_suffix (l := u) Char.isDigit).length_le
    have hlt := length_eat hopen
    have hlt' := length_eat hclose
    omega

theorem length_eatArgs (h : eatArgs t = some (name, rest)) : rest.length < t.length := by
  unfold eatArgs at h
  cases hopen : eat '(' t with
  | none => simp [hopen] at h
  | some u =>
    rw [hopen] at h
    obtain ⟨rest', hclose, heq⟩ := Option.map_eq_some_iff.mp h
    obtain ⟨-, rfl⟩ := Prod.mk.inj heq
    have hle := (List.dropWhile_suffix (l := u) (· != ')')).length_le
    have hlt := length_eat hopen
    have hlt' := length_eat hclose
    omega

end Eat

/-! ### The parser comes to an end -/

section Ends

variable {loadError : Text → Text} {t rest name : Text} {r : Except Text (Policy × Text)} {policies : List Policy}

/-- A result leaves less of the string than there was. -/
def Shorter (t : Text) : Except Text (Policy × Text) → Prop
  | .ok (_, rest) => rest.length < t.length
  | .error _ => True

theorem Returns.of_eq (h : ∀ m, newFromPolicyString loadError (m + 1) t = some r) : Returns loadError t r := by
  refine ⟨1, fun m hm => ?_⟩
  obtain ⟨m, rfl⟩ := Nat.exists_eq_add_of_le' hm
  exact h m

theorem Returns.of_union (hname : eatName t = some (name, rest))
    (hclass : policyClasses.lookup (polclassOf name) = some .union)
    (h : LoopReturns loadError [] ((eat '(' rest).getD rest) r) : Returns loadError t r := by
  obtain ⟨calls, h⟩ := h
  refine ⟨calls + 1, fun m hm => ?_⟩
  obtain ⟨m, rfl⟩ : ∃ m', m = m' + 1 := ⟨m - 1, by omega⟩
  rw [newFromPolicyString, hname]
  dsimp only
  rw [hclass]
  exact h m (by omega)

theorem LoopReturns.of_error {e : Text} (h : Returns loadError t (.error e)) :
    LoopReturns loadError policies t (.error e) := by
  obtain ⟨calls, h⟩ := h
  refine ⟨calls + 1, fun m hm => ?_⟩
  obtain ⟨m, rfl⟩ : ∃ m', m = m' + 1 := ⟨m - 1, by omega⟩
  rw [unionFromPolicyArgs, h m (by omega)]

theorem LoopReturns.of_last {pol : Policy} {rest' : Text} (h : Returns loadError t (.ok (pol, rest)))
    (hclose : eat ')' ((eat ',' rest).getD rest) = some rest') :
    LoopReturns loadError policies t (.ok (.union (policies ++ [pol]), rest')) := by
  obtain ⟨calls, h⟩ := h
  refine ⟨calls + 1, fun m hm => ?_⟩
  obtain ⟨m, rfl⟩ : ∃ m', m = m' + 1 := ⟨m - 1, by omega⟩
  rw [unionFromPolicyArgs, h m (by omega)]
  dsimp only
  rw [hclose]

theorem LoopReturns.of_more {pol : Policy} (h : Returns loadError t (.ok (pol, rest)))
    (hmore : eat ')' ((eat ',' rest).getD rest) = none)
    (hrest : LoopReturns loadError (policies ++ [pol]) ((eat ',' rest).getD rest) r) :
    LoopReturns loadError policies t r := by
  obtain ⟨calls, h⟩ := h
  obtain ⟨calls', hrest⟩ := hrest
  refine ⟨max calls calls' + 1, fun m hm => ?_⟩
  obtain ⟨m, rfl⟩ : ∃ m', m = m' + 1 := ⟨m - 1, by omega⟩
  rw [unionFromPolicyArgs, h m (by omega)]
  dsimp only
  rw [hmore]
  exact hrest m (by omega)

theorem exists_returns_of_loop (t : Text)
    (hloop : ∀ u : Text, u.length < t.length → ∀ policies, ∃ r, LoopReturns loadError policies u r ∧ Shorter u r) :
    ∃ r, Returns loadError t r ∧ Shorter t r := by
  cases hname : eatName t with
  | none => exact ⟨.error _, .of_eq fun m => by rw [newFromPolicyString, hname], trivial⟩
  | some found =>
    obtain ⟨name, rest⟩ := found
    have hlt := length_eatName hname
    cases hclass : policyClasses.lookup (polclassOf name) with
    | none =>
      refine ⟨.error (loadError (polclassOf name)), .of_eq fun m => ?_, trivial⟩
      rw [newFromPolicyString, hname]
      dsimp only
      rw [hclass]
    | some cls =>
      have hargs : ∀ r, (∀ m, newFromPolicyString loadError (m + 1) t = some r) → Shorter rest r →
          ∃ r, Returns loadError t r ∧ Shorter t r := by
        intro r h hshorter
        refine ⟨r, .of_eq h, ?_⟩
        cases r with
        | error e => trivial
        | ok found => exact Nat.lt_trans hshorter hlt
      have hcount : ∀ policy, Shorter rest (countFromPolicyArgs policy (polclassOf name) rest) := by
        intro policy
        unfold countFromPolicyArgs
        split
        · rename_i heq
          exact length_eatCount heq
        · trivial
      cases cls with
      | multipleHosts =>
        exact hargs (countFromPolicyArgs .multipleHosts (polclassOf name) rest)
          (fun m => by simp [newFromPolicyString, hname, hclass]) (hcount _)
      | multipleNetworks =>
        exact hargs (countFromPolicyArgs .multipleNetworks (polclassOf name) rest)
          (fun m => by simp [newFromPolicyString, hname, hclass]) (hcount _)
      | hostsPerNetwork =>
        refine hargs (zonesFromPolicyArgs (polclassOf name) rest)
          (fun m => by simp [newFromPolicyString, hname, hclass]) ?_
        unfold zonesFromPolicyArgs
        split
        · rename_i heq
          exact length_eatArgs heq
        · trivial
      | union =>
        have hle := length_getD_eat '(' rest
        obtain ⟨r, hr, hshorter⟩ := hloop ((eat '(' rest).getD rest) (by omega) []
        refine ⟨r, .of_union hname hclass hr, ?_⟩
        cases r with
        | error e => trivial
        | ok found =>
          have hrest : found.2.length < ((eat '(' rest).getD rest).length := hshorter
          exact show found.2.length < t.length by omega

theorem exists_loopReturns (t : Text) (policies : List Policy) :
    ∃ r, LoopReturns loadError policies t r ∧ Shorter t r := by
  induction hn : t.length using Nat.strong_induction_on generalizing t policies with
  | _ n ih =>
    subst hn
    have hloop : ∀ u : Text, u.length < t.length → ∀ policies, ∃ r, LoopReturns loadError policies u r ∧ Shorter u r :=
      fun u hu policies => ih u.length hu u policies rfl
    obtain ⟨r, hr, hshorter⟩ := exists_returns_of_loop t hloop
    cases r with
    | error e => exact ⟨.error e, .of_error hr, trivial⟩
    | ok found =>
      obtain ⟨pol, rest⟩ := found
      have hlt : rest.length < t.length := hshorter
      have hle := length_getD_eat ',' rest
      cases hclose : eat ')' ((eat ',' rest).getD rest) with
      | some rest' =>
        have hlt' := length_eat hclose
        exact ⟨_, .of_last hr hclose, show rest'.length < t.length by omega⟩
      | none =>
        obtain ⟨r, hr', hshorter'⟩ := hloop ((eat ',' rest).getD rest) (by omega) (policies ++ [pol])
        refine ⟨r, .of_more hr hclose hr', ?_⟩
        cases r with
        | error e => trivial
        | ok found =>
          have hfound : found.2.length < ((eat ',' rest).getD rest).length := hshorter'
          exact show found.2.length < t.length by omega

/-- The parser comes to an end on every string. -/
theorem exists_returns (t : Text) : ∃ r, Returns loadError t r :=
  (exists_returns_of_loop t fun u _ policies => exists_loopReturns u policies).imp fun _ h => h.1

end Ends

/-! ### Textual forms are read back -/

section ReadBack

variable {loadError : Text → Text} {t rest w name args : Text} {r : Except Text (Policy × Text)}
  {policies : List Policy} {p : Policy}

theorem isNameChar_of_isBlank {c : Char} (h : isBlank c = true) : isNameChar c = false := by
  have hall : ([' ', '\t', '\n', '\r', '\x0c'].all fun c => !isNameChar c) = true := rfl
  simpa using List.all_eq_true.mp hall c (mem_of_isBlank h)

theorem isDigit_of_isBlank {c : Char} (h : isBlank c = true) : c.isDigit = false := by
  have hall : ([' ', '\t', '\n', '\r', '\x0c'].all fun c => !c.isDigit) = true := rfl
  simpa using List.all_eq_true.mp hall c (mem_of_isBlank h)

theorem head_blank_append {q : Char → Bool} {c : Char} (hw : Blank w) (hblank : ∀ b, isBlank b = true → q b = false)
    (hc : q c = false) (t : Text) : ∀ b ∈ (w ++ c :: t).head?, q b = false := by
  intro b hb
  cases w with
  | nil =>
    obtain rfl : c = b := by simpa using hb
    exact hc
  | cons a w =>
    obtain rfl : a = b := by simpa using hb
    exact hblank a (hw a List.mem_cons_self)

theorem WritesCall.eatName (h : WritesCall name args t) (hne : name ≠ []) (hname : ∀ c ∈ name, isNameChar c = true)
    (rest : Text) : ∃ w₂ w₃, Blank w₂ ∧ Blank w₃ ∧
      Ylem.eatName (t ++ rest) = some (name, w₂ ++ '(' :: (args ++ ')' :: (w₃ ++ rest))) := by
  obtain @⟨w₁, w₂, w₃, h₁, h₂, h₃⟩ := h
  refine ⟨w₂, w₃, h₂, h₃, ?_⟩
  obtain ⟨htake, hdrop⟩ := takeWhile_append_stop hname
    (head_blank_append (c := '(') h₂ (fun b => isNameChar_of_isBlank) (by decide) (args ++ ')' :: (w₃ ++ rest)))
  have htext : w₁ ++ (name ++ (w₂ ++ '(' :: (args ++ ')' :: w₃))) ++ rest =
      w₁ ++ (name ++ (w₂ ++ '(' :: (args ++ ')' :: (w₃ ++ rest)))) := by simp
  have hstart : (name ++ (w₂ ++ '(' :: (args ++ ')' :: (w₃ ++ rest)))).dropWhile isBlank =
      name ++ (w₂ ++ '(' :: (args ++ ')' :: (w₃ ++ rest))) := by
    obtain ⟨first, name', rfl⟩ := List.exists_cons_of_ne_nil hne
    refine List.dropWhile_cons_of_neg fun hblank => ?_
    exact absurd ((hname first List.mem_cons_self).symm.trans (isNameChar_of_isBlank hblank)) (by decide)
  rw [htext, Ylem.eatName, h₁.dropWhile_append, hstart, htake, hdrop, if_neg hne]

theorem eatCount_append {count w₁ w₂ w₃ w₄ : Text} (h₁ : Blank w₁) (h₂ : Blank w₂) (h₃ : Blank w₃) (h₄ : Blank w₄)
    (hcount : ∀ c ∈ count, c.isDigit = true) (rest : Text) :
    eatCount (w₁ ++ '(' :: ((w₂ ++ (count ++ w₃)) ++ ')' :: (w₄ ++ rest))) = some (count, rest.dropWhile isBlank) := by
  have hspaces : ∃ w, Blank w ∧ (w₂ ++ (count ++ w₃)).dropWhile isBlank = count ++ w := by
    rw [h₂.dropWhile_append]
    cases count with
    | nil => exact ⟨[], fun _ hc => absurd hc List.not_mem_nil, List.dropWhile_eq_nil_iff.mpr h₃⟩
    | cons d count =>
      refine ⟨w₃, h₃, List.dropWhile_cons_of_neg fun hblank => ?_⟩
      exact absurd ((hcount d List.mem_cons_self).symm.trans (isDigit_of_isBlank hblank)) (by decide)
  obtain ⟨w, hw, hspaces⟩ := hspaces
  obtain ⟨htake, hdrop⟩ := takeWhile_append_stop hcount
    (head_blank_append (c := ')') hw (fun b => isDigit_of_isBlank) (by decide) (w₄ ++ rest))
  rw [eatCount, eat_append h₁ (by decide)]
  dsimp only
  rw [dropWhile_append_cons _ _ (by decide), hspaces, List.append_assoc, hdrop, htake, eat_append hw (by decide),
    Option.map_some, h₄.dropWhile_append]

theorem eatArgs_append {args w₁ w₄ : Text} (h₁ : Blank w₁) (h₄ : Blank w₄) (hargs : ')' ∉ args) (rest : Text) :
    eatArgs (w₁ ++ '(' :: (args ++ ')' :: (w₄ ++ rest))) = some (trim args, rest.dropWhile isBlank) := by
  have hin : ∀ c ∈ args.dropWhile isBlank, (c != ')') = true := fun c hc => by
    rw [bne_iff_ne]
    rintro rfl
    exact hargs ((List.dropWhile_suffix _).subset hc)
  have hstop : ∀ c ∈ (')' :: (w₄ ++ rest)).head?, (c != ')') = false := fun c hc => by
    obtain rfl : ')' = c := by simpa using hc
    rfl
  obtain ⟨htake, hdrop⟩ := takeWhile_append_stop hin hstop
  have hclose := eat_append (c := ')') blank_nil (by decide) (w₄ ++ rest)
  rw [List.nil_append] at hclose
  rw [eatArgs, eat_append h₁ (by decide)]
  dsimp only
  rw [dropWhile_append_cons _ _ (by decide), hdrop, htake, hclose, Option.map_some, h₄.dropWhile_append]
  rfl

/-! The pairs of a `HostsPerNetwork`. -/

/-- A zone and a count that can be told from what is around them. -/
def GoodPair (pair : Text × Text) : Prop :=
  (pair.1 ≠ [] ∧ ∀ c ∈ pair.1, isSeparator c = false) ∧ pair.2 ≠ [] ∧ ∀ c ∈ pair.2, c.isDigit = true

variable {pair : Text × Text} {pairs : List (Text × Text)} {part : Text} {parts : List Text}

theorem WritesPair.not_mem {c : Char} (h : WritesPair pair part) (hgood : GoodPair pair) (hsep : isSeparator c = true)
    (hblank : isBlank c = false) (hdigit : c.isDigit = false) (hne : c ≠ '=') : c ∉ part := by
  obtain @⟨zone, count, w₁, w₂, w₃, w₄, h₁, h₂, h₃, h₄⟩ := h
  have hzone : c ∉ zone := fun hmem => absurd ((hgood.1.2 c hmem).symm.trans hsep) (by decide)
  have hcount : c ∉ count := fun hmem => absurd ((hgood.2.2 c hmem).symm.trans hdigit) (by decide)
  simp only [List.mem_append, List.mem_cons, not_or]
  exact ⟨⟨h₁.not_mem hblank, hzone, h₂.not_mem hblank⟩, hne, h₃.not_mem hblank, hcount, h₄.not_mem hblank⟩

theorem WritesPair.splitAround (h : WritesPair pair part) (hgood : GoodPair pair) :
    Text.splitAround '=' (trim part) = [pair.1, pair.2] := by
  obtain @⟨zone, count, w₁, w₂, w₃, w₄, h₁, h₂, h₃, h₄⟩ := h
  have hzone : ∀ c ∈ zone, isBlank c = false ∧ c ≠ '=' := fun c hc => by
    have hsep := hgood.1.2 c hc
    unfold isSeparator at hsep
    simp only [Bool.or_eq_false_iff, decide_eq_false_iff_not] at hsep
    exact ⟨hsep.1.1.1.1, hsep.1.1.2⟩
  have hcount : ∀ c ∈ count, isBlank c = false ∧ c ≠ '=' := fun c hc => by
    have hdigit : c.isDigit = true := hgood.2.2 c hc
    refine ⟨isBlank_of_isDigit hdigit, ?_⟩
    rintro rfl
    exact absurd hdigit (by decide)
  have hleft : '=' ∉ w₁ ++ (zone ++ w₂) := by
    simp only [List.mem_append, not_or]
    exact ⟨h₁.not_mem (by decide), fun hmem => (hzone _ hmem).2 rfl, h₂.not_mem (by decide)⟩
  have hright : '=' ∉ w₃ ++ (count ++ w₄) := by
    simp only [List.mem_append, not_or]
    exact ⟨h₃.not_mem (by decide), fun hmem => (hcount _ hmem).2 rfl, h₄.not_mem (by decide)⟩
  rw [splitAround_trim (by decide), List.splitOn_append_cons_self_of_not_mem hleft, List.splitOn_eq_singleton hright,
    List.map_cons, List.map_singleton, trim_surrounded h₁ h₂ fun c hc => (hzone c hc).1,
    trim_surrounded h₃ h₄ fun c hc => (hcount c hc).1]

theorem hostsPerZone_trim (h : List.Forall₂ WritesPair pairs parts) (hgood : ∀ pair ∈ pairs, GoodPair pair)
    (hdistinct : (pairs.map Prod.fst).Nodup) :
    hostsPerZone (parts.map trim) = pairs.map fun pair => (pair.1, some pair.2) := by
  have hfold : ∀ zones : List (Text × Option Text), (∀ pair ∈ pairs, pair.1 ∉ zones.map Prod.fst) →
      (parts.map trim).foldl (fun zones arg =>
        zones.filter (fun entry => entry.1 ≠ (splitAround '=' arg)[0]?.getD []) ++
          [((splitAround '=' arg)[0]?.getD [], (splitAround '=' arg)[1]?)]) zones =
        zones ++ pairs.map fun pair => (pair.1, some pair.2) := by
    induction h with
    | nil => exact fun zones _ => (List.append_nil zones).symm
    | @cons pair part pairs parts hpair hpairs ih =>
      intro zones hnew
      obtain ⟨hpairGood, hrest⟩ := List.forall_mem_cons.mp hgood
      rw [List.map_cons, List.nodup_cons] at hdistinct
      have hkeep : zones.filter (fun entry => entry.1 ≠ pair.1) = zones :=
        List.filter_eq_self.mpr fun entry hentry => decide_eq_true fun heq =>
          hnew pair List.mem_cons_self (heq ▸ List.mem_map_of_mem hentry)
      rw [List.map_cons, List.foldl_cons, hpair.splitAround hpairGood]
      simp only [List.getElem?_cons_zero, List.getElem?_cons_succ, Option.getD_some]
      rw [hkeep, ih hrest hdistinct.2, List.map_cons, List.append_assoc, List.singleton_append]
      intro other hother hmem
      rw [List.map_append, List.mem_append, List.map_singleton, List.mem_singleton] at hmem
      rcases hmem with hmem | heq
      · exact hnew other (List.mem_cons_of_mem _ hother) hmem
      · exact hdistinct.1 (heq ▸ List.mem_map_of_mem hother)
  have hall := hfold [] fun _ _ hmem => absurd hmem List.not_mem_nil
  rwa [List.nil_append] at hall

/-- The arguments of a `HostsPerNetwork` are its pairs. -/
theorem WritesPairs.hostsPerZone (h : WritesPairs pairs args) (hgood : ∀ pair ∈ pairs, GoodPair pair)
    (hdistinct : (pairs.map Prod.fst).Nodup) :
    ')' ∉ args ∧ Ylem.hostsPerZone (splitCommas (trim args)) = pairs.map fun pair => (pair.1, some pair.2) := by
  cases h with
  | empty hblank =>
    refine ⟨hblank.not_mem (by decide), ?_⟩
    rw [trim_eq_nil hblank]
    rfl
  | @many pairs parts hne h =>
    have hpart : ∀ part ∈ parts, ',' ∉ part ∧ ')' ∉ part ∧ trim part ≠ [] := by
      intro part hmem
      obtain ⟨pair, hpair, hwrites⟩ : ∃ pair ∈ pairs, WritesPair pair part := by
        clear hne hdistinct
        induction h with
        | nil => exact absurd hmem List.not_mem_nil
        | @cons pair' part' pairs parts hwrites hrest ih =>
          rcases List.mem_cons.mp hmem with rfl | hmem
          · exact ⟨pair', List.mem_cons_self, hwrites⟩
          · obtain ⟨pair, hpair, hwrites⟩ := ih (List.forall_mem_cons.mp hgood).2 hmem
            exact ⟨pair, List.mem_cons_of_mem _ hpair, hwrites⟩
      have hsides := hwrites.splitAround (hgood pair hpair)
      refine ⟨hwrites.not_mem (hgood pair hpair) rfl rfl rfl (by decide),
        hwrites.not_mem (hgood pair hpair) rfl rfl rfl (by decide), fun hnil => ?_⟩
      rw [hnil] at hsides
      have hlength : 1 = 2 := congrArg List.length hsides
      exact absurd hlength (by decide)
    have hparts : parts ≠ [] := fun hnil => hne (List.forall₂_nil_right_iff.mp (hnil ▸ h))
    refine ⟨fun hmem => ?_, ?_⟩
    · rcases mem_intercalate hmem with heq | ⟨part, hmem, hin⟩
      · exact absurd heq (by decide)
      · exact (hpart part hmem).2.1 hin
    · have hlast : (parts.map trim).rdropWhile (· = []) = parts.map trim := by
        refine List.rdropWhile_eq_self_iff.mpr fun hne hnil => ?_
        obtain ⟨part, hmem, htrim⟩ := List.mem_map.mp (List.getLast_mem hne)
        exact (hpart part hmem).2.2 (htrim.trans (by simpa using hnil))
      rw [splitCommas, splitAround_trim (by decide), List.splitOn_intercalate _ (fun part hmem => (hpart part hmem).1) hparts,
        hlast, hostsPerZone_trim h hgood hdistinct]

/-! The policies. -/

theorem newFromPolicyString_dropWhile {found : Text × Text} (hname : Ylem.eatName t = some found) (m : ℕ) :
    newFromPolicyString loadError m (t.dropWhile isBlank) = newFromPolicyString loadError m t := by
  cases m with
  | zero => rfl
  | succ m => rw [newFromPolicyString, newFromPolicyString, eatName_dropWhile, hname]

theorem LoopReturns.exists_eatName (h : LoopReturns loadError policies t (.ok (p, rest))) :
    ∃ found, Ylem.eatName t = some found := by
  obtain ⟨calls, h⟩ := h
  cases hname : Ylem.eatName t with
  | some found => exact ⟨found, rfl⟩
  | none =>
    have hfails := h (calls + 2) (by omega)
    rw [unionFromPolicyArgs, newFromPolicyString, hname] at hfails
    exact absurd (Option.some.inj hfails) (by simp)

theorem LoopReturns.dropWhile (h : LoopReturns loadError policies t (.ok (p, rest))) :
    LoopReturns loadError policies (t.dropWhile isBlank) (.ok (p, rest)) := by
  obtain ⟨found, hname⟩ := h.exists_eatName
  obtain ⟨calls, h⟩ := h
  refine ⟨calls + 1, fun m hm => ?_⟩
  obtain ⟨m, rfl⟩ : ∃ m', m = m' + 1 := ⟨m - 1, by omega⟩
  rw [← h (m + 1) (by omega), unionFromPolicyArgs, unionFromPolicyArgs, newFromPolicyString_dropWhile hname]

theorem eat_close_of_eatName {found : Text × Text} (hname : Ylem.eatName t = some found) : eat ')' t = none := by
  unfold Ylem.eatName at hname
  unfold eat
  split
  · rfl
  · rename_i c rest heq
    rw [heq] at hname
    refine if_neg ?_
    rintro rfl
    exact absurd hname (by simp [isNameChar, isWord])

variable (loadError) in
/-- The text is read as the policy, up to the next text that is no white space. -/
def ReadsBack (p : Policy) (t : Text) : Prop :=
  p.WellFormed → ∀ rest, Returns loadError (t ++ rest) (.ok (p, rest.dropWhile isBlank))

variable (loadError) in
/-- The text is read as the rest of the policies of a union. -/
def ReadsAllBack (policies : List Policy) (t : Text) : Prop :=
  (∀ p ∈ policies, p.WellFormed) → ∀ before rest,
    LoopReturns loadError before (t ++ ')' :: rest) (.ok (.union (before ++ policies), rest.dropWhile isBlank))

theorem returns_count {policy : Text → Policy} {count w₁ w₂ : Text}
    (ht : WritesCall name (w₁ ++ (count ++ w₂)) t) (h₁ : Blank w₁) (h₂ : Blank w₂)
    (hcount : ∀ c ∈ count, c.isDigit = true) (hne : name ≠ []) (hname : name.all isNameChar = true)
    (hread : ∀ m u rest, Ylem.eatName u = some (name, rest) → newFromPolicyString loadError (m + 1) u =
      some (countFromPolicyArgs policy (polclassOf name) rest)) (rest : Text) :
    Returns loadError (t ++ rest) (.ok (policy count, rest.dropWhile isBlank)) := by
  obtain ⟨w, w', hw, hw', heat⟩ := ht.eatName hne (List.all_eq_true.mp hname) rest
  refine .of_eq fun m => ?_
  rw [hread m _ _ heat, countFromPolicyArgs, eatCount_append hw h₁ h₂ hw' hcount]

theorem readsBack_multipleHosts {count w₁ w₂ : Text} (h₁ : Blank w₁) (h₂ : Blank w₂)
    (ht : WritesCall "MultipleHosts".toList (w₁ ++ (count ++ w₂)) t) :
    ReadsBack loadError (.multipleHosts count) t := by
  intro hwf rest
  cases hwf with
  | multipleHosts hcount =>
    refine returns_count ht h₁ h₂ hcount (by decide) rfl (fun m u rest heat => ?_) rest
    rw [newFromPolicyString, heat]
    rfl

theorem readsBack_multipleNetworks {count w₁ w₂ : Text} (h₁ : Blank w₁) (h₂ : Blank w₂)
    (ht : WritesCall "MultipleNetworks".toList (w₁ ++ (count ++ w₂)) t) :
    ReadsBack loadError (.multipleNetworks count) t := by
  intro hwf rest
  cases hwf with
  | multipleNetworks hcount =>
    refine returns_count ht h₁ h₂ hcount (by decide) rfl (fun m u rest heat => ?_) rest
    rw [newFromPolicyString, heat]
    rfl

theorem readsBack_hostsPerNetwork (h : WritesPairs pairs args) (ht : WritesCall "HostsPerNetwork".toList args t)
    (hgood : ∀ pair ∈ pairs, GoodPair pair) (hdistinct : (pairs.map Prod.fst).Nodup) (rest : Text) :
    Returns loadError (t ++ rest)
      (.ok (.hostsPerNetwork (pairs.map fun pair => (pair.1, some pair.2)), rest.dropWhile isBlank)) := by
  obtain ⟨hclose, hzones⟩ := h.hostsPerZone hgood hdistinct
  obtain ⟨w, w', hw, hw', heat⟩ := ht.eatName (by decide) (List.all_eq_true.mp rfl) rest
  refine .of_eq fun m => ?_
  rw [newFromPolicyString, heat]
  show some (zonesFromPolicyArgs (polclassOf "HostsPerNetwork".toList) _) = _
  rw [zonesFromPolicyArgs, eatArgs_append hw hw' hclose]
  dsimp only
  rw [hzones]

theorem readsBack_union (h : ReadsAllBack loadError policies args) (ht : WritesCall "Union".toList args t) :
    ReadsBack loadError (.union policies) t := by
  intro hwf rest
  cases hwf with
  | union hne hall =>
    obtain ⟨w, w', hw, hw', hname⟩ := ht.eatName (by decide) (List.all_eq_true.mp rfl) rest
    refine .of_union hname rfl ?_
    have hloop := h hall [] (w' ++ rest)
    rw [List.nil_append, hw'.dropWhile_append] at hloop
    rw [eat_append hw (by decide), Option.getD_some]
    exact hloop.dropWhile

theorem readsAllBack_one (h : ReadsBack loadError p t) : ReadsAllBack loadError [p] t := by
  intro hwf before rest
  have hreturns := h (hwf p List.mem_cons_self) (')' :: rest)
  rw [List.dropWhile_cons_of_neg (by decide)] at hreturns
  refine .of_last hreturns ?_
  rw [eat_cons_of_ne (by decide) (by decide), Option.getD_none]
  exact eat_append (w := []) blank_nil (by decide) rest

theorem readsAllBack_more {u : Text} (h : ReadsBack loadError p t) (hrest : ReadsAllBack loadError policies u) :
    ReadsAllBack loadError (p :: policies) (t ++ ',' :: u) := by
  intro hwf before rest
  obtain ⟨hp, hall⟩ := List.forall_mem_cons.mp hwf
  have hreturns := h hp (',' :: (u ++ ')' :: rest))
  rw [List.dropWhile_cons_of_neg (by decide)] at hreturns
  have hloop := hrest hall (before ++ [p]) rest
  rw [List.append_assoc, List.singleton_append] at hloop
  have hcomma : eat ',' (',' :: (u ++ ')' :: rest)) = some ((u ++ ')' :: rest).dropWhile isBlank) :=
    eat_append (w := []) blank_nil (by decide) _
  obtain ⟨found, hname⟩ := hloop.exists_eatName
  have htext : t ++ ',' :: u ++ ')' :: rest = t ++ ',' :: (u ++ ')' :: rest) := by simp
  rw [htext]
  refine .of_more hreturns ?_ ?_
  · rw [hcomma, Option.getD_some, eat_dropWhile]
    exact eat_close_of_eatName hname
  · rw [hcomma, Option.getD_some]
    exact hloop.dropWhile

theorem Policy.WellFormed.goodPairs
    (h : (Policy.hostsPerNetwork (pairs.map fun pair => (pair.1, some pair.2))).WellFormed) :
    (∀ pair ∈ pairs, GoodPair pair) ∧ (pairs.map Prod.fst).Nodup := by
  generalize hp : Policy.hostsPerNetwork (pairs.map fun pair => (pair.1, some pair.2)) = p at h
  cases h with
  | @hostsPerNetwork pairs' hdistinct hzone hcount =>
    have hinj : Function.Injective fun pair : Text × Text => (pair.1, some pair.2) := by
      intro a b heq
      obtain ⟨hzone, hcount⟩ := Prod.mk.inj heq
      exact Prod.ext hzone (Option.some.inj hcount)
    obtain rfl : pairs = pairs' := List.map_injective_iff.mpr hinj (Policy.hostsPerNetwork.inj hp)
    exact ⟨fun pair hpair => ⟨hzone pair hpair, hcount pair hpair⟩, hdistinct⟩
  | multipleHosts | multipleNetworks | union => exact absurd hp (by simp)

theorem Writes.readsBack (h : Writes p t) : ReadsBack loadError p t := by
  refine @Writes.rec (fun p t _ => ReadsBack loadError p t) (fun policies t _ => ReadsAllBack loadError policies t)
    (fun h₁ h₂ ht => readsBack_multipleHosts h₁ h₂ ht) (fun h₁ h₂ ht => readsBack_multipleNetworks h₁ h₂ ht)
    (fun h ht hwf rest => ?_) (fun _ ht ih => readsBack_union ih ht) (fun _ ih => readsAllBack_one ih)
    (fun _ _ ih ihs => readsAllBack_more ih ihs) p t h
  obtain ⟨hgood, hdistinct⟩ := hwf.goodPairs
  exact readsBack_hostsPerNetwork h ht hgood hdistinct rest

end ReadBack

theorem writesCall (name args : Text) : WritesCall name args (name ++ '(' :: (args ++ [')'])) :=
  @WritesCall.mk name args [] [] [] blank_nil blank_nil blank_nil

/-- Every textual form of a policy is read as that policy, with the text that follows it left from its first
character that is no white space, and every string is read to an end. -/
theorem policyString_returns (loadError : Text → Text) :
    (∀ p t rest, p.WellFormed → Writes p t →
      Returns loadError (t ++ rest) (.ok (p, rest.dropWhile isBlank))) ∧ ∀ t, ∃ r, Returns loadError t r :=
  ⟨fun _ _ rest hwf h => h.readsBack hwf rest, exists_returns⟩

/-- Three copies, or two near and one far. -/
def nestedUnion : Policy :=
  .union [.multipleHosts "3".toList,
    .union [.hostsPerNetwork [("near".toList, some "2".toList), ("far".toList, some "1".toList)]]]

/-- It is read with white space around names, commas, parentheses and equals signs. -/
theorem nestedUnion_returns :
    Returns id " Union ( MultipleHosts( 3 ) ,Union(HostsPerNetwork( near = 2,far =1))) rest".toList
      (.ok (nestedUnion, "rest".toList)) := by
  have hblank : Blank [' '] := fun c hc => List.mem_singleton.mp hc ▸ rfl
  have hhosts : Writes (.multipleHosts "3".toList) " MultipleHosts( 3 ) ".toList :=
    @Writes.multipleHosts _ [' '] [' '] _ hblank hblank (@WritesCall.mk _ _ [' '] [] [' '] hblank blank_nil hblank)
  have hnear : WritesPair ("near".toList, "2".toList) " near = 2".toList :=
    @WritesPair.mk _ _ [' '] [' '] [' '] [] hblank hblank hblank blank_nil
  have hfar : WritesPair ("far".toList, "1".toList) "far =1".toList :=
    @WritesPair.mk _ _ [] [' '] [] [] blank_nil hblank blank_nil blank_nil
  have hzones : Writes (.hostsPerNetwork [("near".toList, some "2".toList), ("far".toList, some "1".toList)])
      "HostsPerNetwork( near = 2,far =1)".toList :=
    @Writes.hostsPerNetwork [("near".toList, "2".toList), ("far".toList, "1".toList)] _ _
      (.many (List.cons_ne_nil _ _) (.cons hnear (.cons hfar .nil))) (writesCall _ _)
  have hinner : Writes (.union [.hostsPerNetwork [("near".toList, some "2".toList), ("far".toList, some "1".toList)]])
      "Union(HostsPerNetwork( near = 2,far =1))".toList :=
    .union (.one hzones) (writesCall _ _)
  have hwrites : Writes nestedUnion " Union ( MultipleHosts( 3 ) ,Union(HostsPerNetwork( near = 2,far =1)))".toList :=
    .union (.more hhosts (.one hinner)) (@WritesCall.mk _ _ [' '] [' '] [] hblank hblank blank_nil)
  have hformed : nestedUnion.WellFormed := by
    refine .union (by simp) fun p hp => ?_
    rcases List.mem_pair.mp hp with rfl | rfl
    · exact .multipleHosts (by simp)
    · refine .union (by simp) fun p hp => ?_
      obtain rfl := List.mem_singleton.mp hp
      exact @Policy.WellFormed.hostsPerNetwork [("near".toList, "2".toList), ("far".toList, "1".toList)]
        (by decide) (by simp [isSeparator, isBlank]) (by simp)
  exact (policyString_returns id).1 nestedUnion _ " rest".toList hformed hwrites

/-! Every policy has a form without white space. -/

theorem exists_writesPairs (pairs : List (Text × Text)) : ∃ t, WritesPairs pairs t := by
  by_cases hne : pairs = []
  · subst hne
    exact ⟨[], .empty blank_nil⟩
  · have hparts : List.Forall₂ WritesPair pairs (pairs.map fun pair => pair.1 ++ '=' :: pair.2) := by
      rw [List.forall₂_map_right_iff, List.forall₂_same]
      intro pair _
      have hwrites := @WritesPair.mk pair.1 pair.2 [] [] [] [] blank_nil blank_nil blank_nil blank_nil
      simpa using hwrites
    exact ⟨_, .many hne hparts⟩

theorem exists_writesAll {policies : List Policy} (hne : policies ≠ []) (h : ∀ p ∈ policies, ∃ t, Writes p t) :
    ∃ t, WritesAll policies t := by
  induction policies with
  | nil => exact absurd rfl hne
  | cons p policies ih =>
    obtain ⟨⟨t, ht⟩, hrest⟩ := List.forall_mem_cons.mp h
    by_cases hlast : policies = []
    · subst hlast
      exact ⟨t, .one ht⟩
    · obtain ⟨u, hu⟩ := ih hlast hrest
      exact ⟨_, .more ht hu⟩

theorem Policy.WellFormed.exists_writes {p : Policy} (h : p.WellFormed) : ∃ t, Writes p t := by
  induction h with
  | multipleHosts => exact ⟨_, .multipleHosts blank_nil blank_nil (writesCall _ _)⟩
  | multipleNetworks => exact ⟨_, .multipleNetworks blank_nil blank_nil (writesCall _ _)⟩
  | @hostsPerNetwork pairs =>
    obtain ⟨args, hargs⟩ := exists_writesPairs pairs
    exact ⟨_, .hostsPerNetwork hargs (writesCall _ _)⟩
  | union hne _ ih =>
    obtain ⟨args, hargs⟩ := exists_writesAll hne ih
    exact ⟨_, .union hargs (writesCall _ _)⟩

end Ylem
