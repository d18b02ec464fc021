import Ylem.Frontend.Upload

/-!
# Deletes

`rm.php` takes a list of resource ids, groups those whose volume is known, and sends each group's deletes to
the tracker of its volume. It filters the list before it goes through it, and `array_filter` keeps the keys of
the array: the loop counts up to the number of ids that are left, but finds them at their old places. So an
id is reached only if its place in the list is smaller than that number (`rm_reaches_iff`), and where a place
is free the loop takes it for the volume without a name.
-/

namespace Ylem

/-! ### The list -/

/-- The resource ids, under their places in the list. -/
def canonicalIds (rmid : Text) : List (Text × ℕ) :=
  (rmid.splitOn ',').zipIdx.filter fun entry => isCanonicalResid entry.1

/-- `$ids[$i]`; what is not there counts as the empty text. -/
def idAt (ids : List (Text × ℕ)) (i : ℕ) : Text := ((ids.find? fun entry => entry.2 = i).map Prod.fst).getD []

/-- `list($vol,$id)=explode("-",$resid)`. -/
def volAndId (resid : Text) : Text × Text :=
  ((resid.splitOn '-').headD [], ((resid.splitOn '-')[1]?).getD [])

/-- `isset($vol_idx[$vol]) && $vol_lst[$vol_idx[$vol]]["score"]>=0`. -/
def knownVolume (vols : List Volume) (vol : Text) : Bool := (volumeOf vols vol).any fun v => 0 ≤ v.score

/-- `$grp_ids[$vol][]=$id`. -/
def addToGroup : List (Text × List Text) → Text × Text → List (Text × List Text)
  | [], entry => [(entry.1, [entry.2])]
  | (vol, ids) :: groups, entry =>
    if vol = entry.1 then (vol, ids ++ [entry.2]) :: groups else (vol, ids) :: addToGroup groups entry

/-- `$grp_ids`. -/
def grpIds (vols : List Volume) (rmid : Text) : List (Text × List Text) :=
  ((List.range (canonicalIds rmid).length).map fun i => volAndId (idAt (canonicalIds rmid) i)).foldl
    (fun groups entry => if knownVolume vols entry.1 then addToGroup groups entry else groups) []

/-- Can the tracker of a volume be connected to? -/
def trackerConnects (connects : Text → Bool) (vols : List Volume) (vol : Text) : Bool :=
  (volumeOf vols vol).any fun v => connects v.tracker

/-- The deletes of the groups whose tracker can be reached, in their order. -/
def groupDeletes (reached : Text → Bool) (groups : List (Text × List Text)) : List (Text × Text) :=
  groups.flatMap fun group => if reached group.1 then group.2.map fun id => (group.1, id) else []

/-- The deletes that are sent, each to the tracker of its volume. -/
def rmDeletes (connects : Text → Bool) (vols : List Volume) (rmid : Text) : List (Text × Text) :=
  groupDeletes (trackerConnects connects vols) (grpIds vols rmid)

/-! ### What should be deleted -/

/-- A resource id of a known volume, as volume and id. -/
def wantedId (vols : List Volume) (resid : Text) : Option (Text × Text) :=
  if isCanonicalResid resid && knownVolume vols (volAndId resid).1 then some (volAndId resid) else none

/-- The ids of known volumes in the list. -/
def wantedIds (vols : List Volume) (rmid : Text) : List (Text × Text) :=
  (rmid.splitOn ',').filterMap (wantedId vols)

/-! ### What is visited -/

section Visits

variable {connects : Text → Bool} {vols : List Volume} {rmid : Text}

theorem groupDeletes_addToGroup (reached : Text → Bool) (groups : List (Text × List Text)) (entry : Text × Text) :
    (groupDeletes reached (addToGroup groups entry)).Perm
      (groupDeletes reached groups ++ if reached entry.1 then [entry] else []) := by
  induction groups with
  | nil => simp [addToGroup, groupDeletes]
  | cons group groups ih =>
    obtain ⟨vol, ids⟩ := group
    rw [addToGroup]
    by_cases hvol : vol = entry.1
    · subst hvol
      rw [if_pos rfl]
      simp only [groupDeletes, List.flatMap_cons]
      by_cases hreached : reached entry.1
      · simp only [hreached, if_true, List.map_append, List.map_cons, List.map_nil, List.append_assoc]
        exact List.Perm.append_left _ List.perm_append_comm
      · simp [hreached]
    · rw [if_neg hvol]
      simp only [groupDeletes, List.flatMap_cons, List.append_assoc] at ih ⊢
      exact List.Perm.append_left _ ih

theorem groupDeletes_foldl (keep reached : Text → Bool) (entries : List (Text × Text))
    (groups : List (Text × List Text)) :
    (groupDeletes reached (entries.foldl
        (fun groups entry => if keep entry.1 then addToGroup groups entry else groups) groups)).Perm
      (groupDeletes reached groups ++ entries.filter fun entry => keep entry.1 && reached entry.1) := by
  induction entries generalizing groups with
  | nil => simp
  | cons entry entries ih =>
    rw [List.foldl_cons]
    refine (ih _).trans ?_
    by_cases hkeep : keep entry.1
    · rw [if_pos hkeep, List.filter_cons, hkeep, Bool.true_and]
      refine ((groupDeletes_addToGroup reached groups entry).append_right _).trans ?_
      rw [List.append_assoc]
      refine List.Perm.append_left _ ?_
      split_ifs <;> exact List.Perm.refl _
    · rw [if_neg hkeep, List.filter_cons_of_neg (by simp [hkeep])]

theorem length_canonicalIds (rmid : Text) :
    (canonicalIds rmid).length = (rmid.splitOn ',').countP isCanonicalResid := by
  have hfst : (rmid.splitOn ',').zipIdx.map Prod.fst = rmid.splitOn ',' := List.zipIdx_map_fst 0 _
  rw [canonicalIds, ← List.countP_eq_length_filter]
  conv_rhs => rw [← hfst, List.countP_map]
  rfl

theorem idAt_canonicalIds {i : ℕ} (hi : i < (rmid.splitOn ',').length) :
    idAt (canonicalIds rmid) i =
      if isCanonicalResid (rmid.splitOn ',')[i] then (rmid.splitOn ',')[i] else [] := by
  rw [idAt]
  cases hfind : (canonicalIds rmid).find? fun entry => entry.2 = i with
  | some entry =>
    obtain ⟨resid, j⟩ := entry
    have hj : j = i := by simpa using List.find?_some hfind
    subst hj
    obtain ⟨hmem, hcanonical⟩ := List.mem_filter.mp (List.mem_of_find?_eq_some hfind)
    have hresid : (rmid.splitOn ',')[j] = resid :=
      Option.some.inj ((List.getElem?_eq_getElem hi).symm.trans (List.mk_mem_zipIdx_iff_getElem?.mp hmem))
    rw [hresid, if_pos hcanonical]
    rfl
  | none =>
    have hnot : ¬ isCanonicalResid (rmid.splitOn ',')[i] = true := by
      intro hcanonical
      have hmem : ((rmid.splitOn ',')[i], i) ∈ canonicalIds rmid :=
        List.mem_filter.mpr ⟨List.mk_mem_zipIdx_iff_getElem?.mpr (List.getElem?_eq_getElem hi), hcanonical⟩
      exact absurd (List.find?_eq_none.mp hfind _ hmem) (by simp)
    rw [if_neg hnot]
    rfl

/-- What a visit to a place of the list adds to the groups. -/
def visit (vols : List Volume) (resid : Text) : Option (Text × Text) :=
  if isCanonicalResid resid then wantedId vols resid
  else if knownVolume vols [] then some ([], []) else none

theorem filter_map_visit (vols : List Volume) (resids : List Text) :
    (resids.map fun resid => volAndId (if isCanonicalResid resid then resid else [])).filter
        (fun entry => knownVolume vols entry.1) = resids.filterMap (visit vols) := by
  have hempty : volAndId [] = ([], []) := by decide
  induction resids with
  | nil => rfl
  | cons resid resids ih =>
    rw [List.map_cons, List.filter_cons, List.filterMap_cons, ih, visit, wantedId]
    by_cases hcanonical : isCanonicalResid resid
    · simp only [hcanonical, if_true, Bool.true_and]
      split_ifs <;> rfl
    · simp only [hcanonical, if_false, hempty, Bool.false_eq_true]
      split_ifs <;> rfl

theorem visits_eq (vols : List Volume) (rmid : Text) :
    (((List.range (canonicalIds rmid).length).map fun i => volAndId (idAt (canonicalIds rmid) i)).filter
        fun entry => knownVolume vols entry.1) =
      ((rmid.splitOn ',').take ((rmid.splitOn ',').countP isCanonicalResid)).filterMap (visit vols) := by
  have hlen : (canonicalIds rmid).length ≤ (rmid.splitOn ',').length := by
    rw [length_canonicalIds]
    exact List.countP_le_length
  rw [← filter_map_visit, ← length_canonicalIds]
  congr 1
  refine List.ext_getElem (by simpa using hlen) fun i hi _ => ?_
  have hi : i < (rmid.splitOn ',').length := by
    rw [List.length_map, List.length_range] at hi
    omega
  rw [List.getElem_map, List.getElem_range, List.getElem_map, List.getElem_take, idAt_canonicalIds hi]

theorem rmDeletes_perm (connects : Text → Bool) (vols : List Volume) (rmid : Text) :
    (rmDeletes connects vols rmid).Perm
      ((((rmid.splitOn ',').take ((rmid.splitOn ',').countP isCanonicalResid)).filterMap (visit vols)).filter
        fun entry => trackerConnects connects vols entry.1) := by
  have hfold := groupDeletes_foldl (knownVolume vols) (trackerConnects connects vols)
    ((List.range (canonicalIds rmid).length).map fun i => volAndId (idAt (canonicalIds rmid) i)) []
  rw [← visits_eq, List.filter_filter]
  simp only [Bool.and_comm] at hfold ⊢
  exact hfold

theorem volAndId_fst_ne_nil {resid : Text} (h : isCanonicalResid resid = true) : (volAndId resid).1 ≠ [] := by
  rw [isCanonicalResid] at h
  rw [volAndId]
  split at h
  · next vol id hsplit =>
    rw [hsplit]
    simp only [Bool.and_eq_true, Bool.not_eq_true', List.isEmpty_eq_false_iff] at h
    exact h.1
  · exact absurd h (by decide)

theorem wantedId_fst_ne_nil {resid : Text} {entry : Text × Text} (h : wantedId vols resid = some entry) :
    entry.1 ≠ [] := by
  rw [wantedId] at h
  split_ifs at h with hwanted
  rw [Bool.and_eq_true] at hwanted
  rw [← Option.some.inj h]
  exact volAndId_fst_ne_nil hwanted.1

theorem filter_visits (vols : List Volume) (resids : List Text) :
    (resids.filterMap (visit vols)).filter (fun entry => entry.1 ≠ []) = resids.filterMap (wantedId vols) := by
  induction resids with
  | nil => rfl
  | cons resid resids ih =>
    rw [List.filterMap_cons, List.filterMap_cons, visit]
    by_cases hcanonical : isCanonicalResid resid
    · rw [if_pos hcanonical]
      cases hwanted : wantedId vols resid with
      | none => exact ih
      | some entry => rw [List.filter_cons_of_pos (by simpa using wantedId_fst_ne_nil hwanted), ih]
    · have hnone : wantedId vols resid = none := by simp [wantedId, hcanonical]
      rw [if_neg hcanonical, hnone]
      split_ifs
      · rw [List.filter_cons_of_neg (by simp), ih]
      · exact ih

theorem filter_wantedIds (vols : List Volume) (rmid : Text) :
    ((wantedIds vols rmid).filter fun entry => trackerConnects (fun _ => true) vols entry.1) =
      wantedIds vols rmid := by
  refine List.filter_eq_self.mpr fun entry hentry => ?_
  obtain ⟨resid, _, hwanted⟩ := List.mem_filterMap.mp hentry
  rw [wantedId] at hwanted
  split_ifs at hwanted with hknown
  obtain rfl := Option.some.inj hwanted
  rw [Bool.and_eq_true, knownVolume, Option.any_eq_true] at hknown
  obtain ⟨_, v, hv, _⟩ := hknown
  rw [trackerConnects, hv]
  rfl

theorem filter_visits_connects (vols : List Volume) (resids : List Text) :
    ((resids.filterMap (visit vols)).filter fun entry => trackerConnects (fun _ => true) vols entry.1) =
      resids.filterMap (visit vols) := by
  refine List.filter_eq_self.mpr fun entry hentry => ?_
  obtain ⟨resid, _, hvisit⟩ := List.mem_filterMap.mp hentry
  have hknown : knownVolume vols entry.1 = true := by
    rw [visit, wantedId] at hvisit
    split_ifs at hvisit with hcanonical hwanted hempty
    · rw [Bool.and_eq_true] at hwanted
      rw [← Option.some.inj hvisit]
      exact hwanted.2
    · rw [← Option.some.inj hvisit]
      exact hempty
  rw [knownVolume, Option.any_eq_true] at hknown
  obtain ⟨v, hv, _⟩ := hknown
  rw [trackerConnects, hv]
  rfl

end Visits

/-- Every id of a known volume is deleted once for each time it stands in the list, and nothing else, exactly if
no such id stands at a place of the list that is as great as the number of resource ids; and if places before
that have been filtered out, then there must be no known volume without a name. -/
theorem rm_reaches_iff (vols : List Volume) (rmid : Text) :
    (∀ connects : Text → Bool, (rmDeletes connects vols rmid).Perm
        ((wantedIds vols rmid).filter fun entry => trackerConnects connects vols entry.1)) ↔
      (∀ resid ∈ (rmid.splitOn ',').drop ((rmid.splitOn ',').countP isCanonicalResid),
        isCanonicalResid resid = true → knownVolume vols (volAndId resid).1 = false) ∧
      (knownVolume vols [] = true →
        ∀ resid ∈ (rmid.splitOn ',').take ((rmid.splitOn ',').countP isCanonicalResid),
          isCanonicalResid resid = true) := by
  generalize hn : (rmid.splitOn ',').countP isCanonicalResid = n
  have hsplit : wantedIds vols rmid = ((rmid.splitOn ',').take n).filterMap (wantedId vols) ++
      ((rmid.splitOn ',').drop n).filterMap (wantedId vols) := by
    rw [← List.filterMap_append, List.take_append_drop]
    rfl
  have hperm : ∀ connects, (rmDeletes connects vols rmid).Perm
      ((((rmid.splitOn ',').take n).filterMap (visit vols)).filter
        fun entry => trackerConnects connects vols entry.1) := fun connects =>
    hn ▸ rmDeletes_perm connects vols rmid
  constructor
  · intro h
    have hall : (((rmid.splitOn ',').take n).filterMap (visit vols)).Perm (wantedIds vols rmid) := by
      have hconnects := (hperm fun _ => true).symm.trans (h fun _ => true)
      rwa [filter_visits_connects, filter_wantedIds] at hconnects
    -- the visits that name a volume are as many as all the wanted ids
    have hnamed := (hall.filter fun entry => entry.1 ≠ []).length_eq
    have hself : (wantedIds vols rmid).filter (fun entry => entry.1 ≠ []) = wantedIds vols rmid :=
      List.filter_eq_self.mpr fun entry hentry => by
        obtain ⟨resid, _, hwanted⟩ := List.mem_filterMap.mp hentry
        simpa using wantedId_fst_ne_nil hwanted
    rw [filter_visits, hself, hsplit, List.length_append] at hnamed
    have hrest : ((rmid.splitOn ',').drop n).filterMap (wantedId vols) = [] :=
      List.length_eq_zero_iff.mp (by omega)
    constructor
    · intro resid hresid hcanonical
      have hnone := List.filterMap_eq_nil_iff.mp hrest resid hresid
      simpa [wantedId, hcanonical] using hnone
    · intro hempty resid hresid
      by_contra hnot
      have hvisit : ([], []) ∈ ((rmid.splitOn ',').take n).filterMap (visit vols) :=
        List.mem_filterMap.mpr ⟨resid, hresid, by rw [visit, if_neg hnot, if_pos hempty]⟩
      obtain ⟨other, _, hwanted⟩ := List.mem_filterMap.mp (hall.mem_iff.mp hvisit)
      exact wantedId_fst_ne_nil hwanted rfl
  · rintro ⟨hlate, hearly⟩ connects
    have hrest : ((rmid.splitOn ',').drop n).filterMap (wantedId vols) = [] :=
      List.filterMap_eq_nil_iff.mpr fun resid hresid => by
        by_cases hcanonical : isCanonicalResid resid
        · simp [wantedId, hlate resid hresid hcanonical]
        · simp [wantedId, hcanonical]
    have hvisits : ((rmid.splitOn ',').take n).filterMap (visit vols) =
        ((rmid.splitOn ',').take n).filterMap (wantedId vols) :=
      List.filterMap_congr fun resid hresid => by
        by_cases hcanonical : isCanonicalResid resid
        · rw [visit, if_pos hcanonical]
        · have hempty : ¬ knownVolume vols [] = true := fun hempty => hcanonical (hearly hempty resid hresid)
          rw [visit, if_neg hcanonical, if_neg hempty]
          simp [wantedId, hcanonical]
    rw [hsplit, hrest, List.append_nil, ← hvisits]
    exact hperm connects

/-- One volume that takes everything. -/
def knownOne : List Volume := [⟨"1".toList, "tracker1".toList, 5⟩]

/-- An empty entry in front of the only id, and the id is never visited. -/
theorem leading_comma_deletes_nothing :
    rmDeletes (fun _ => true) knownOne ",1-a".toList = [] ∧
      wantedIds knownOne ",1-a".toList = [("1".toList, "a".toList)] ∧
      ¬ ∀ connects : Text → Bool, (rmDeletes connects knownOne ",1-a".toList).Perm
        ((wantedIds knownOne ",1-a".toList).filter fun entry => trackerConnects connects knownOne entry.1) := by
  have hnothing : rmDeletes (fun _ => true) knownOne ",1-a".toList = [] := by decide +kernel
  have hwanted : wantedIds knownOne ",1-a".toList = [("1".toList, "a".toList)] := by decide +kernel
  refine ⟨hnothing, hwanted, fun h => ?_⟩
  have hperm := h fun _ => true
  rw [filter_wantedIds, hnothing, hwanted] at hperm
  exact absurd hperm.length_eq (by decide)

end Ylem
