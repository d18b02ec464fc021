import Mathlib

/-!
# Weighted shuffles

`weighted_list` of `MogileFS::Util` in exact arithmetic: it drops the items whose weight is not positive
and then draws the others one by one, each with a probability proportional to its weight. The draws are
a sequence of values of `rand()`, that is of rationals in `[0, 1)`.

Whatever is drawn, the running sum reaches `rand() * sum` before the items run out (`pick_isSome`), so
that every call of `getone` takes one item and the result is a permutation of the items of positive
weight (`weightedList_perm`).
-/

namespace Ylem

/-- A value of `rand()`. -/
abbrev Draw := { q : ℚ // 0 ≤ q ∧ q < 1 }

/-- The least value. -/
def Draw.least : Draw := ⟨0, by norm_num⟩

/-- `int(rand(n))`, for a list of `n` choices. -/
def Draw.index (draw : Draw) (n : ℕ) : ℕ := (draw.val * n).floor.toNat

/-- What `shuffle` makes of lists. -/
abbrev Shuffle (α : Type) := { f : List α → List α // ∀ l, (f l).Perm l }

variable {α : Type}

theorem Draw.index_lt (draw : Draw) {n : ℕ} (h : 0 < n) : draw.index n < n := by
  obtain ⟨q, h0, h1⟩ := draw
  have hn : (0 : ℚ) < n := by exact_mod_cast h
  have hlt : q * n < (n : ℤ) := by push_cast; nlinarith
  have hfloor : (q * n).floor < n := Rat.floor_lt_iff.mpr hlt
  simp only [index]
  omega

/-- The scan of `getone`: the first item at which the running sum reaches `val`, and the list without
it. -/
def pick (val : ℚ) : ℚ → List (α × ℚ) → Option ((α × ℚ) × List (α × ℚ))
  | _, [] => none
  | curval, item :: list =>
    if val ≤ curval + item.2 then some (item, list)
    else (pick val (curval + item.2) list).map fun found => (found.1, item :: found.2)

/-- One draw: the item, the sum of the weights that are left and the list that is left. A last item is
taken without drawing. -/
def getone (draw : Draw) (sum : ℚ) : List (α × ℚ) → Option (α × ℚ × List (α × ℚ))
  | [item] => some (item.1, sum, [])
  | list => (pick (draw.val * sum) 0 list).map fun found => (found.1.1, sum - found.1.2, found.2)

/-- `push @ret, $getone->() while @list`, for at most `fuel` rounds. A round that finds no item leaves
the list as it is. -/
def drawAll : ℕ → (ℕ → Draw) → ℚ → List (α × ℚ) → List α
  | 0, _, _, _ => []
  | fuel + 1, draws, sum, list =>
    if list.isEmpty then []
    else match getone (draws 0) sum list with
      | some (item, sum', list') => item :: drawAll fuel (fun n => draws (n + 1)) sum' list'
      | none => drawAll fuel (fun n => draws (n + 1)) sum list

/-- The items of positive weight in a random order. -/
def weightedList (draws : ℕ → Draw) (items : List (α × ℚ)) : List α :=
  let list := items.filter fun item => 0 < item.2
  drawAll list.length draws (list.map Prod.snd).sum list

/-! ### Every draw takes an item -/

theorem sum_weights_nonneg {list : List (α × ℚ)} (hpos : ∀ item ∈ list, 0 < item.2) :
    0 ≤ (list.map Prod.snd).sum :=
  List.sum_nonneg fun w hw => by
    obtain ⟨item, hitem, rfl⟩ := List.mem_map.mp hw
    exact (hpos item hitem).le

theorem pick_isSome {val curval : ℚ} {list : List (α × ℚ)} (hne : list ≠ [])
    (h : val ≤ curval + (list.map Prod.snd).sum) : (pick val curval list).isSome = true := by
  induction list generalizing curval with
  | nil => exact absurd rfl hne
  | cons item list ih =>
    rw [List.map_cons, List.sum_cons] at h
    rw [pick]
    split_ifs with hval
    · rfl
    · rw [Option.isSome_map]
      refine ih ?_ (by linarith)
      rintro rfl
      simp at h
      exact hval h

theorem pick_perm {val curval : ℚ} {list rest : List (α × ℚ)} {item : α × ℚ}
    (h : pick val curval list = some (item, rest)) : list.Perm (item :: rest) := by
  induction list generalizing curval rest with
  | nil => cases h
  | cons first list ih =>
    rw [pick] at h
    split_ifs at h
    · cases h
      exact List.Perm.refl _
    · obtain ⟨⟨item', rest'⟩, hpick, heq⟩ := Option.map_eq_some_iff.mp h
      cases heq
      exact ((ih hpick).cons first).trans (List.Perm.swap _ _ _)

theorem sum_eq_of_perm {list rest : List (α × ℚ)} {item : α × ℚ} (h : list.Perm (item :: rest)) :
    (list.map Prod.snd).sum = item.2 + (rest.map Prod.snd).sum := by
  simpa using (h.map Prod.snd).sum_eq

theorem getone_spec (draw : Draw) {list : List (α × ℚ)} {sum : ℚ} (hne : list ≠ [])
    (hpos : ∀ item ∈ list, 0 < item.2) (hsum : sum = (list.map Prod.snd).sum) :
    ∃ item sum' rest, getone draw sum list = some (item.1, sum', rest) ∧ list.Perm (item :: rest) ∧
      (rest ≠ [] → sum' = (rest.map Prod.snd).sum) := by
  have hnonneg : 0 ≤ sum := hsum ▸ sum_weights_nonneg hpos
  have hval : draw.val * sum ≤ 0 + (list.map Prod.snd).sum := by
    have h1 := draw.property.2
    rw [← hsum]
    nlinarith
  obtain ⟨⟨item, rest⟩, hpick⟩ := Option.isSome_iff_exists.mp (pick_isSome hne hval)
  have hperm := pick_perm hpick
  match list, hne with
  | [only], _ => exact ⟨only, sum, [], rfl, List.Perm.refl _, fun h => absurd rfl h⟩
  | first :: second :: tail, _ =>
    refine ⟨item, sum - item.2, rest, ?_, hperm, fun _ => ?_⟩
    · simp only [getone, hpick, Option.map_some]
    · rw [hsum, sum_eq_of_perm hperm]
      ring

theorem drawAll_perm {fuel : ℕ} {draws : ℕ → Draw} {sum : ℚ} {list : List (α × ℚ)}
    (hfuel : list.length ≤ fuel) (hpos : ∀ item ∈ list, 0 < item.2)
    (hsum : list ≠ [] → sum = (list.map Prod.snd).sum) :
    (drawAll fuel draws sum list).Perm (list.map Prod.fst) := by
  induction fuel generalizing draws sum list with
  | zero =>
    rw [List.length_eq_zero_iff.mp (Nat.le_zero.mp hfuel)]
    exact List.Perm.refl _
  | succ fuel ih =>
    by_cases hne : list = []
    · subst hne
      exact List.Perm.refl _
    · obtain ⟨item, sum', rest, hget, hperm, hsum'⟩ := getone_spec (draws 0) hne hpos (hsum hne)
      have hlen : rest.length + 1 = list.length := by simpa using hperm.length_eq.symm
      have hrest : ∀ x ∈ rest, 0 < x.2 := fun x hx => hpos x (hperm.mem_iff.mpr (List.mem_cons_of_mem _ hx))
      rw [drawAll, if_neg (by simpa using hne), hget]
      exact ((ih (by omega) hrest hsum').cons item.1).trans (hperm.map Prod.fst).symm

theorem weightedList_perm (draws : ℕ → Draw) (items : List (α × ℚ)) :
    (weightedList draws items).Perm ((items.filter fun item => 0 < item.2).map Prod.fst) :=
  drawAll_perm le_rfl (fun item hitem => by simpa using (List.mem_filter.mp hitem).2) fun _ => rfl

theorem mem_weightedList {draws : ℕ → Draw} {items : List (α × ℚ)} {x : α} :
    x ∈ weightedList draws items ↔ ∃ item ∈ items, 0 < item.2 ∧ item.1 = x := by
  simp [(weightedList_perm draws items).mem_iff, and_assoc]

/-! ### The loop ends -/

/-- `push @ret, $getone->() while @list`; nothing where the list has not run out after that many rounds. -/
def drawRounds : ℕ → (ℕ → Draw) → ℚ → List (α × ℚ) → Option (List α)
  | 0, _, _, list => if list.isEmpty then some [] else none
  | rounds + 1, draws, sum, list =>
    if list.isEmpty then some []
    else match getone (draws 0) sum list with
      | some (item, sum', list') => (drawRounds rounds (fun n => draws (n + 1)) sum' list').map (item :: ·)
      | none => drawRounds rounds (fun n => draws (n + 1)) sum list

/-- `weighted_list` as far as that many rounds of its loop go. -/
def weightedRounds (rounds : ℕ) (draws : ℕ → Draw) (items : List (α × ℚ)) : Option (List α) :=
  let list := items.filter fun item => 0 < item.2
  drawRounds rounds draws (list.map Prod.snd).sum list

theorem drawRounds_eq {rounds fuel : ℕ} {draws : ℕ → Draw} {sum : ℚ} {list : List (α × ℚ)}
    (hrounds : list.length ≤ rounds) (hfuel : list.length ≤ fuel) (hpos : ∀ item ∈ list, 0 < item.2)
    (hsum : list ≠ [] → sum = (list.map Prod.snd).sum) :
    drawRounds rounds draws sum list = some (drawAll fuel draws sum list) := by
  induction rounds generalizing fuel draws sum list with
  | zero =>
    obtain rfl := List.length_eq_zero_iff.mp (Nat.le_zero.mp hrounds)
    cases fuel <;> rfl
  | succ rounds ih =>
    by_cases hne : list = []
    · subst hne
      cases fuel <;> rfl
    · obtain ⟨item, sum', rest, hget, hperm, hsum'⟩ := getone_spec (draws 0) hne hpos (hsum hne)
      have hlen : rest.length + 1 = list.length := by simpa using hperm.length_eq.symm
      have hrest : ∀ x ∈ rest, 0 < x.2 := fun x hx => hpos x (hperm.mem_iff.mpr (List.mem_cons_of_mem _ hx))
      obtain ⟨fuel, rfl⟩ : ∃ n, fuel = n + 1 := ⟨fuel - 1, by omega⟩
      have hlist : ¬ list.isEmpty = true := by simpa using hne
      rw [drawRounds, drawAll, if_neg hlist, if_neg hlist, hget]
      dsimp only
      rw [ih (show rest.length ≤ rounds by omega) (show rest.length ≤ fuel by omega) hrest hsum']
      rfl

/-- `weighted_list` ends, whatever is drawn, with the items of positive weight, each once. -/
theorem weightedList_ends (draws : ℕ → Draw) (items : List (α × ℚ)) :
    ∃ rounds ret, (∀ m, rounds ≤ m → weightedRounds m draws items = some ret) ∧
      ret.Perm ((items.filter fun item => 0 < item.2).map Prod.fst) := by
  refine ⟨(items.filter fun item => 0 < item.2).length, weightedList draws items, fun m hm => ?_,
    weightedList_perm draws items⟩
  exact drawRounds_eq hm le_rfl (fun item hitem => by simpa using (List.mem_filter.mp hitem).2) fun _ => rfl

/-! ### Every item can come first -/

theorem pick_of_sum_lt {val curval : ℚ} {before after : List (α × ℚ)} {item : α × ℚ}
    (hpos : ∀ x ∈ before, 0 < x.2) (hlow : curval + (before.map Prod.snd).sum < val)
    (hhigh : val ≤ curval + (before.map Prod.snd).sum + item.2) :
    pick val curval (before ++ item :: after) = some (item, before ++ after) := by
  induction before generalizing curval with
  | nil =>
    rw [List.map_nil, List.sum_nil, add_zero] at hhigh
    rw [List.nil_append, pick, if_pos hhigh, List.nil_append]
  | cons first before ih =>
    rw [List.map_cons, List.sum_cons, ← add_assoc] at hlow hhigh
    have hbefore : ∀ x ∈ before, 0 < x.2 := fun x hx => hpos x (List.mem_cons_of_mem _ hx)
    have hsum := sum_weights_nonneg hbefore
    have hnot : ¬ val ≤ curval + first.2 := by linarith
    rw [List.cons_append, pick, if_neg hnot, ih hbefore hlow hhigh, Option.map_some, List.cons_append]

theorem exists_draw_getone {list : List (α × ℚ)} {item : α × ℚ} (hpos : ∀ x ∈ list, 0 < x.2)
    (hitem : item ∈ list) :
    ∃ draw sum' rest, getone draw (list.map Prod.snd).sum list = some (item.1, sum', rest) := by
  obtain ⟨before, after, rfl⟩ := List.append_of_mem hitem
  have hbefore : ∀ x ∈ before, 0 < x.2 := fun x hx => hpos x (List.mem_append_left _ hx)
  have hafter := sum_weights_nonneg fun x (hx : x ∈ after) =>
    hpos x (List.mem_append_right _ (List.mem_cons_of_mem _ hx))
  have hsum := sum_weights_nonneg hbefore
  have hw : 0 < item.2 := hpos item hitem
  set low := (before.map Prod.snd).sum with hlow
  have htotal : ((before ++ item :: after).map Prod.snd).sum = low + item.2 + (after.map Prod.snd).sum := by
    rw [List.map_append, List.sum_append, List.map_cons, List.sum_cons, add_assoc]
  set total := ((before ++ item :: after).map Prod.snd).sum with htotal'
  have htotalPos : 0 < total := by rw [htotal]; linarith
  refine ⟨⟨(low + item.2 / 2) / total, div_nonneg (by linarith) htotalPos.le, ?_⟩, ?_⟩
  · rw [div_lt_one htotalPos, htotal]
    linarith
  · match hlist : before ++ item :: after with
    | [] => simp at hlist
    | [only] =>
      have honly : item = only := by
        have hmem : item ∈ [only] := hlist ▸ hitem
        exact List.mem_singleton.mp hmem
      exact ⟨total, [], congrArg (fun x : α × ℚ => some (x.1, total, [])) honly.symm⟩
    | first :: second :: tail =>
      refine ⟨total - item.2, before ++ after, ?_⟩
      have hval : (low + item.2 / 2) / total * total = low + item.2 / 2 := div_mul_cancel₀ _ htotalPos.ne'
      have hpick : pick ((low + item.2 / 2) / total * total) 0 (before ++ item :: after) =
          some (item, before ++ after) := by
        refine pick_of_sum_lt hbefore ?_ ?_ <;> rw [hval, zero_add] <;> linarith
      rw [hlist] at hpick
      simp only [getone, hpick, Option.map_some]

/-- Any item of positive weight comes first with some draws. -/
theorem exists_weightedList_eq_cons {items : List (α × ℚ)} {item : α × ℚ} (hitem : item ∈ items)
    (hpos : 0 < item.2) : ∃ draws rest, weightedList draws items = item.1 :: rest := by
  have hmem : item ∈ items.filter fun item => 0 < item.2 :=
    List.mem_filter.mpr ⟨hitem, by simpa using hpos⟩
  obtain ⟨draw, sum', rest, hget⟩ := exists_draw_getone
    (fun x hx => by simpa using (List.mem_filter.mp hx).2) hmem
  obtain ⟨n, hn⟩ := Nat.exists_eq_succ_of_ne_zero (List.length_pos_of_mem hmem).ne'
  refine ⟨fun _ => draw, drawAll n (fun _ => draw) sum' rest, ?_⟩
  simp only [weightedList]
  rw [hn, drawAll, if_neg (by simpa using List.ne_nil_of_mem hmem), hget]

end Ylem
