import Ylem.Device

/-!
# Networks and zones

The addresses of storage hosts fall into networks. `MogileFS::Network` finds the configured zone of an
address, and `network_for_ip` of the MultipleNetworks policy its network, by default the `/16` of the address.
Netmasks themselves are those of `Net::Netmask`: a netmask is known by its description, which parsing a text
yields, and a description covers an address or not.
-/

namespace Ylem

/-- `grep` with a test that may die. -/
def grepM {α : Type} (test : α → Except String Bool) : List α → Except String (List α)
  | [] => pure []
  | a :: l => do
    let keep ← test a
    let rest ← grepM test l
    pure (if keep then a :: rest else rest)

/-- `Net::Netmask`: `new2` and `desc` of a text, nothing if it cannot be parsed, and `match`. -/
structure Netmasks where
  parse : Text → Option Text
  covers : Text → Text → Bool

/-- The zone of a worker, which serves no request. -/
def noZone : Zone := ⟨false, none, fun _ _ => false⟩

/-- `$dev->host->ip`. -/
def Device.hostIp (d : Device) : Except String (Option Text) :=
  match d.host with
  | some host => pure (host.ip noZone)
  | none => throw s!"Host {d.hostid} doesn't exist.\n"

/-- The devices whose hosts have an address. -/
def addressed (devs : List Device) : Except String (List Device) :=
  grepM (fun d => do pure (Text.truthy (← d.hostIp))) devs

section Lookup

variable (netmasks : Netmasks)

/-- `match` of a netmask that has been parsed from a setting. -/
def Netmasks.matchSetting (setting ip : Text) : Except String Bool :=
  match netmasks.parse setting with
  | some net => pure (netmasks.covers net ip)
  | none => throw "Can't call method \"match\" on an undefined value"

/-- `MogileFS::Network::zone_for_ip`: the first zone, in the order of the hash, whose netmask covers the
address. No zone is the empty text, as in a hash key. -/
def zoneForIp (zones : List (Text × Text)) (ip : Option Text) : Except String Text :=
  match ip with
  | none => pure []
  | some ip => if !Text.truthy (some ip) then pure [] else search ip zones
where
  search (ip : Text) : List (Text × Text) → Except String Text
    | [] => pure []
    | (zone, setting) :: zones => do
      if ← netmasks.matchSetting setting ip then pure zone else search ip zones

/-- The match of `(\d+\.\d+).` at the start of a text. -/
def twoNumbersAt (t : Text) : Option Text :=
  let whole := t.takeWhile Char.isDigit
  match t.dropWhile Char.isDigit with
  | '.' :: rest =>
    let second := rest.takeWhile Char.isDigit
    if whole.isEmpty || second.isEmpty then none
    else match rest.dropWhile Char.isDigit with
      | c :: _ => if c ≠ '\n' then some (whole ++ '.' :: second) else backtrack whole second
      | [] => backtrack whole second
  | _ => none
where
  /-- The last digit is the character that has to follow. -/
  backtrack (whole second : Text) : Option Text :=
    if second.length = 1 then none else some (whole ++ '.' :: second.dropLast)

/-- The first two numbers of an address. -/
def twoNumbers : Text → Option Text
  | [] => none
  | c :: t => twoNumbersAt (c :: t) <|> twoNumbers t

/-- `network_for_ip`, by its description: the last setting, in the order of the hash, that covers the
address. -/
def networkForIp (settings : List Text) (ip : Option Text) : Except String Text :=
  match ip with
  | none => pure "0.0.0.0/0".toList
  | some ip =>
    if !Text.truthy (some ip) then pure "0.0.0.0/0".toList
    else do
      let found ← grepM (fun setting => netmasks.matchSetting setting ip) settings
      match found.getLast? with
      | some setting => pure ((netmasks.parse setting).getD [])
      | none =>
        match netmasks.parse ((twoNumbers ip).getD [] ++ "/16".toList) with
        | some net => pure net
        | none => throw "Can't call method \"desc\" on an undefined value"

end Lookup

theorem ok_bind {α β : Type} (a : α) (f : α → Except String β) : ((.ok a : Except String α) >>= f) = f a := rfl

theorem bind_eq_ok {α β : Type} {x : Except String α} {f : α → Except String β} {b : β}
    (h : (x >>= f) = .ok b) : ∃ a, x = .ok a ∧ f a = .ok b := by
  cases x with
  | error => cases h
  | ok a => exact ⟨a, rfl, h⟩

theorem mapM_eq_ok_iff {α β : Type} {f : α → Except String β} {l : List α} {l' : List β} :
    l.mapM f = .ok l' ↔ List.Forall₂ (fun a b => f a = .ok b) l l' := by
  induction l generalizing l' with
  | nil =>
    rw [List.mapM_nil, List.forall₂_nil_left_iff]
    exact ⟨fun h => (Except.ok.inj h).symm, fun h => h ▸ rfl⟩
  | cons a l ih =>
    rw [List.mapM_cons, List.forall₂_cons_left_iff]
    constructor
    · intro h
      obtain ⟨b, hb, h⟩ := bind_eq_ok h
      obtain ⟨rest, hrest, h⟩ := bind_eq_ok h
      exact ⟨b, rest, hb, ih.mp hrest, (Except.ok.inj h).symm⟩
    · rintro ⟨b, rest, hb, hrest, rfl⟩
      rw [hb, ih.mpr hrest]
      rfl

/-- The results of a `map` that does not die are those of its members. -/
theorem mem_mapM_iff {α β : Type} {f : α → Except String β} {l : List α} {l' : List β} (h : l.mapM f = .ok l')
    {b : β} : b ∈ l' ↔ ∃ a ∈ l, f a = .ok b := by
  have hall := mapM_eq_ok_iff.mp h
  clear h
  induction hall with
  | nil => simp
  | cons hab _ ih => simp [hab, ih, eq_comm (a := b)]

theorem exists_of_mapM {α β : Type} {f : α → Except String β} {l : List α} {l' : List β} (h : l.mapM f = .ok l')
    {a : α} (ha : a ∈ l) : ∃ b, f a = .ok b := by
  have hall := mapM_eq_ok_iff.mp h
  clear h
  induction hall with
  | nil => exact absurd ha List.not_mem_nil
  | cons hab _ ih =>
    rcases List.mem_cons.mp ha with rfl | ha
    · exact ⟨_, hab⟩
    · exact ih ha

theorem mapM_eq_ok {α β : Type} {f : α → Except String β} {l : List α} (h : ∀ a ∈ l, ∃ b, f a = .ok b) :
    l.mapM f = .ok (l.filterMap fun a => (f a).toOption) := by
  induction l with
  | nil => rfl
  | cons a l ih =>
    obtain ⟨b, hb⟩ := h a List.mem_cons_self
    rw [List.mapM_cons, ih fun x hx => h x (List.mem_cons_of_mem _ hx), List.filterMap_cons, hb]
    rfl

/-- `grep` with a test that does not die. -/
theorem grepM_eq_ok {α : Type} {test : α → Except String Bool} {l : List α}
    (h : ∀ a ∈ l, ∃ b, test a = .ok b) :
    grepM test l = .ok (l.filter fun a => decide (test a = .ok true)) := by
  induction l with
  | nil => rfl
  | cons a l ih =>
    obtain ⟨b, hb⟩ := h a List.mem_cons_self
    rw [grepM, hb, ih fun x hx => h x (List.mem_cons_of_mem _ hx), List.filter_cons, hb]
    cases b <;> rfl

theorem mem_grepM {α : Type} {test : α → Except String Bool} {l found : List α}
    (h : grepM test l = .ok found) {a : α} : a ∈ found ↔ a ∈ l ∧ test a = .ok true := by
  induction l generalizing found with
  | nil =>
    cases h
    simp
  | cons b l ih =>
    obtain ⟨keep, hkeep, h⟩ := bind_eq_ok h
    obtain ⟨rest, hrest, h⟩ := bind_eq_ok h
    obtain rfl := Except.ok.inj h
    have hmem := ih hrest
    cases keep with
    | false =>
      simp only [Bool.false_eq_true, if_false, hmem, List.mem_cons]
      constructor
      · exact fun ⟨hl, ht⟩ => ⟨.inr hl, ht⟩
      · rintro ⟨rfl | hl, ht⟩
        · rw [hkeep] at ht
          cases ht
        · exact ⟨hl, ht⟩
    | true =>
      simp only [if_true, List.mem_cons, hmem]
      constructor
      · rintro (rfl | ⟨hl, ht⟩)
        · exact ⟨.inl rfl, hkeep⟩
        · exact ⟨.inr hl, ht⟩
      · rintro ⟨rfl | hl, ht⟩
        · exact .inl rfl
        · exact .inr ⟨hl, ht⟩

theorem exists_of_grepM {α : Type} {test : α → Except String Bool} {l found : List α}
    (h : grepM test l = .ok found) {a : α} (ha : a ∈ l) : ∃ b, test a = .ok b := by
  induction l generalizing found with
  | nil => exact absurd ha List.not_mem_nil
  | cons x l ih =>
    obtain ⟨keep, hkeep, h⟩ := bind_eq_ok h
    obtain ⟨rest, hrest, -⟩ := bind_eq_ok h
    rcases List.mem_cons.mp ha with rfl | ha
    · exact ⟨keep, hkeep⟩
    · exact ih hrest ha

end Ylem
