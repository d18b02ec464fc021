import Ylem.Frontend.Upload
import Ylem.Monitor.VolumeRanking

/-!
# The volumes of uploaded files

`ul.php` goes over the posted files once and puts each into the group of its volume, or marks it with an error.
A file without a volume goes to the first one of the monitor's list if its score is positive, a file with one to
that volume unless the score is zero. The list gives a volume whose database is dead a negative score, so a file
that names such a volume is put into its group (`placedSoundly_iff`). The groups are those that the uploads take
place in (`flatten_groups`).
-/

namespace Ylem

/-- A volume of the monitor's list, with the sign of its score, which is all that is looked at. -/
def Candidate.volume (c : Candidate) : Volume := ⟨c.vol, c.tracker, SignType.sign c.score⟩

/-! ### The grouping loop -/

/-- `$file_lst` up to the file that the loop is at, and `$vol_files`: the volumes in the order of their first
files, each with the indices of its files. -/
structure Grouping where
  fileLst : List Item
  volFiles : List (Text × List ℕ)

/-- `$vol_files[$vol_id][] = $i`. -/
def appendTo (vol : Text) (i : ℕ) : List (Text × List ℕ) → List (Text × List ℕ)
  | [] => [(vol, [i])]
  | (vol', idxs) :: groups => if vol' = vol then (vol', idxs ++ [i]) :: groups else (vol', idxs) :: appendTo vol i groups

namespace Grouping

/-- The file is put into a group. -/
def keep (g : Grouping) (item : Item) (vol : Text) (i : ℕ) : Grouping :=
  ⟨g.fileLst ++ [{ item with vol := some vol }], appendTo vol i g.volFiles⟩

/-- The file is marked with an error. -/
def refuse (g : Grouping) (item : Item) : Grouping :=
  { g with fileLst := g.fileLst ++ [{ item with error := uploadErrCantWrite }] }

/-- One round of the loop. -/
def place (volLst : List Volume) (g : Grouping) (file : Item × ℕ) : Grouping :=
  match file.1.vol with
  | none =>
    match volLst.head? with
    | some v => if 0 < v.score then g.keep file.1 v.vol file.2 else g.refuse file.1
    | none => g.refuse file.1
  | some vol =>
    match volumeOf volLst vol with
    | some v => if v.score = 0 then g.refuse file.1 else g.keep file.1 vol file.2
    | none => g.refuse file.1

end Grouping

/-- All posted files. -/
def groupFiles (volLst : List Volume) (fileLst : List Item) : Grouping :=
  fileLst.zipIdx.foldl (Grouping.place volLst) ⟨[], []⟩

/-! ### What the groups have to be -/

/-- Each file is in one group at most, with an error if in none, and no group is that of an unknown or unwritable
volume. -/
structure PlacedSoundly (volLst : List Volume) (fileLst : List Item) (g : Grouping) : Prop where
  once : (g.volFiles.flatMap Prod.snd).Nodup
  marked : ∀ i, i < fileLst.length → i ∉ g.volFiles.flatMap Prod.snd →
    (g.fileLst[i]?).map (fun item => item.error) = some uploadErrCantWrite
  writable : ∀ vol idxs i, (vol, idxs) ∈ g.volFiles → i ∈ idxs → ∃ v ∈ volLst, v.vol = vol ∧ 0 < v.score

/-! ### The groups are the choices of the files -/

section Groups

variable {volLst : List Volume} {choices : List (Option Text)} {vol : Text}

/-- The files that have chosen a volume. -/
def filesOf (choices : List (Option Text)) (vol : Text) : List ℕ :=
  (choices.zipIdx.filter fun c => c.1 = some vol).map Prod.snd

/-- The groups of the choices. -/
def groupsOf (choices : List (Option Text)) : List (Text × List ℕ) :=
  choices.reduceOption.eraseDups.map fun vol => (vol, filesOf choices vol)

theorem filesOf_concat (choice : Option Text) : filesOf (choices ++ [choice]) vol =
    filesOf choices vol ++ if choice = some vol then [choices.length] else [] := by
  rw [filesOf, filesOf, List.zipIdx_append, List.filter_append, List.map_append]
  by_cases h : choice = some vol <;> simp [h]

theorem mem_filesOf {i : ℕ} : i ∈ filesOf choices vol ↔ choices[i]? = some (some vol) := by
  rw [filesOf, List.mem_map]
  constructor
  · rintro ⟨⟨choice, j⟩, hmem, rfl⟩
    obtain ⟨hmem, hchoice⟩ := List.mem_filter.mp hmem
    rw [← of_decide_eq_true hchoice]
    exact List.mem_zipIdx_iff_getElem?.mp hmem
  · intro h
    exact ⟨(some vol, i), List.mem_filter.mpr ⟨List.mem_zipIdx_iff_getElem?.mpr h, decide_eq_true rfl⟩, rfl⟩

theorem filesOf_eq_nil (h : some vol ∉ choices) : filesOf choices vol = [] := by
  refine List.eq_nil_iff_forall_not_mem.mpr fun i hi => h ?_
  exact List.mem_of_getElem? (mem_filesOf.mp hi)

theorem appendTo_map {vols : List Text} {f : Text → List ℕ} {i : ℕ} (hnodup : vols.Nodup) :
    appendTo vol i (vols.map fun v => (v, f v)) =
      (vols.map fun v => (v, f v ++ if v = vol then [i] else [])) ++ if vol ∈ vols then [] else [(vol, [i])] := by
  induction vols with
  | nil => rfl
  | cons v vols ih =>
    obtain ⟨hv, hnodup⟩ := List.nodup_cons.mp hnodup
    rw [List.map_cons, appendTo]
    by_cases heq : v = vol
    · subst heq
      have hothers : (vols.map fun w => (w, f w ++ if w = v then [i] else [])) = vols.map fun w => (w, f w) :=
        List.map_congr_left fun w hw => by
          rw [if_neg (ne_of_mem_of_not_mem hw hv), List.append_nil]
      rw [if_pos rfl, if_pos List.mem_cons_self, List.map_cons, if_pos rfl, hothers, List.append_nil]
    · have hmem : vol ∈ v :: vols ↔ vol ∈ vols := by simp [Ne.symm heq]
      rw [if_neg heq, ih hnodup, List.map_cons, if_neg heq, List.append_nil, List.cons_append]
      simp only [hmem]

theorem groupsOf_concat_some : groupsOf (choices ++ [some vol]) = appendTo vol choices.length (groupsOf choices) := by
  have hvols : (choices ++ [some vol]).reduceOption.eraseDups =
      choices.reduceOption.eraseDups ++ if vol ∈ choices.reduceOption.eraseDups then [] else [vol] := by
    rw [List.reduceOption_append, List.eraseDups_append]
    by_cases h : vol ∈ choices.reduceOption <;> simp [h, List.removeAll, List.eraseDups_cons]
  rw [groupsOf, groupsOf, appendTo_map (nodup_eraseDups _), hvols, List.map_append]
  congr 1
  · refine List.map_congr_left fun v _ => ?_
    rw [filesOf_concat]
    simp only [Option.some_inj, eq_comm]
  · split
    · rfl
    · rename_i hmem
      have hnot : some vol ∉ choices := fun h =>
        hmem (List.mem_eraseDups.mpr (List.reduceOption_mem_iff.mpr h))
      rw [List.map_singleton, filesOf_concat, filesOf_eq_nil hnot, if_pos rfl, List.nil_append]

theorem groupsOf_concat_none : groupsOf (choices ++ [none]) = groupsOf choices := by
  have hfiles : filesOf (choices ++ [none]) = filesOf choices := funext fun vol => by
    rw [filesOf_concat, if_neg (by simp), List.append_nil]
  rw [groupsOf, groupsOf, hfiles, List.reduceOption_append]
  simp

theorem flatMap_groupsOf : (groupsOf choices).flatMap (fun g => g.2.map fun i => (g.1, i)) = volFiles choices := by
  rw [groupsOf, volFiles, List.flatMap_map]
  simp only [filesOf, List.map_map]
  rfl

theorem mem_groupsOf {idxs : List ℕ} : (vol, idxs) ∈ groupsOf choices ↔ some vol ∈ choices ∧ idxs = filesOf choices vol := by
  rw [groupsOf, List.mem_map]
  constructor
  · rintro ⟨v, hv, heq⟩
    cases heq
    exact ⟨List.reduceOption_mem_iff.mp (List.mem_eraseDups.mp hv), rfl⟩
  · rintro ⟨hv, rfl⟩
    exact ⟨vol, List.mem_eraseDups.mpr (List.reduceOption_mem_iff.mpr hv), rfl⟩

theorem nodup_groupsOf : ((groupsOf choices).flatMap Prod.snd).Nodup := by
  have hflat : (groupsOf choices).flatMap Prod.snd = (volFiles choices).map Prod.snd := by
    rw [← flatMap_groupsOf, List.map_flatMap]
    simp
  rw [hflat]
  exact nodup_volFiles choices

end Groups

/-! ### The loop -/

section Loop

variable {volLst : List Volume} {items : List Item} {item : Item}

/-- A file after the loop. -/
def placed (volLst : List Volume) (item : Item) : Item :=
  match chooseVolume volLst item with
  | some vol => { item with vol := some vol }
  | none => { item with error := uploadErrCantWrite }

theorem place_eq (g : Grouping) (item : Item) (i : ℕ) : g.place volLst (item, i) =
    match chooseVolume volLst item with
    | some vol => g.keep item vol i
    | none => g.refuse item := by
  cases hvol : item.vol with
  | none =>
    cases hhead : volLst.head? with
    | none => simp only [Grouping.place, chooseVolume, hvol, hhead, Option.filter_none, Option.map_none]
    | some v =>
      by_cases hscore : 0 < v.score
      · simp [Grouping.place, chooseVolume, hvol, hhead, Option.filter, hscore]
      · simp [Grouping.place, chooseVolume, hvol, hhead, Option.filter, hscore]
  | some vol =>
    cases hlisted : volumeOf volLst vol with
    | none => simp only [Grouping.place, chooseVolume, hvol, hlisted, Option.filter_none, Option.map_none]
    | some v =>
      by_cases hscore : v.score = 0
      · simp [Grouping.place, chooseVolume, hvol, hlisted, Option.filter, hscore]
      · simp [Grouping.place, chooseVolume, hvol, hlisted, Option.filter, hscore]

theorem groupFiles_eq (volLst : List Volume) (items : List Item) : groupFiles volLst items =
    ⟨items.map (placed volLst), groupsOf (items.map (chooseVolume volLst))⟩ := by
  induction items using List.reverseRecOn with
  | nil => rfl
  | append_singleton items item ih =>
    have hstep : groupFiles volLst (items ++ [item]) = (groupFiles volLst items).place volLst (item, items.length) := by
      rw [groupFiles, List.zipIdx_append, List.foldl_append]
      simp [groupFiles]
    rw [hstep, ih, place_eq, List.map_append, List.map_append, List.map_singleton, List.map_singleton]
    cases hchoice : chooseVolume volLst item with
    | none =>
      rw [groupsOf_concat_none]
      simp only [Grouping.refuse, placed, hchoice]
    | some vol =>
      rw [groupsOf_concat_some, List.length_map]
      simp only [Grouping.keep, placed, hchoice]

/-- The uploads take place in the groups. -/
theorem flatten_groups (volLst : List Volume) (items : List Item) :
    (groupFiles volLst items).volFiles.flatMap (fun g => g.2.map fun i => (g.1, i)) =
      volFiles (items.map (chooseVolume volLst)) := by
  rw [groupFiles_eq, flatMap_groupsOf]

theorem volumeOf_eq_some {vol : Text} {v : Volume} (h : volumeOf volLst vol = some v) : v ∈ volLst ∧ v.vol = vol := by
  have hvol := List.find?_some h
  exact ⟨List.mem_reverse.mp (List.mem_of_find?_eq_some h), by simpa using hvol⟩

theorem chooseVolume_writable {vol : Text}
    (h : chooseVolume volLst item = some vol) (hdead : ∀ v ∈ volLst, item.vol = some v.vol → 0 ≤ v.score) :
    ∃ v ∈ volLst, v.vol = vol ∧ 0 < v.score := by
  cases hvol : item.vol with
  | none =>
    rw [chooseVolume, hvol] at h
    obtain ⟨v, hv, rfl⟩ := Option.map_eq_some_iff.mp h
    obtain ⟨hhead, hscore⟩ := Option.filter_eq_some_iff.mp hv
    exact ⟨v, List.mem_of_mem_head? hhead, rfl, of_decide_eq_true hscore⟩
  | some named =>
    rw [chooseVolume, hvol] at h
    obtain ⟨v, hv, rfl⟩ := Option.map_eq_some_iff.mp h
    obtain ⟨hlisted, hscore⟩ := Option.filter_eq_some_iff.mp hv
    obtain ⟨hmem, rfl⟩ := volumeOf_eq_some hlisted
    have hne : v.score ≠ 0 := of_decide_eq_true hscore
    exact ⟨v, hmem, rfl, lt_of_le_of_ne (hdead v hmem hvol) hne.symm⟩

theorem chooseVolume_dead (hnodup : (volLst.map Volume.vol).Nodup) {v : Volume} (hmem : v ∈ volLst)
    (hvol : item.vol = some v.vol) (hdead : v.score < 0) : chooseVolume volLst item = some v.vol := by
  have hlisted : volumeOf volLst v.vol = some v := by
    have hsome : (volumeOf volLst v.vol).isSome = true :=
      List.find?_isSome.mpr ⟨v, List.mem_reverse.mpr hmem, decide_eq_true rfl⟩
    obtain ⟨w, hw⟩ := Option.isSome_iff_exists.mp hsome
    obtain ⟨hwmem, hwvol⟩ := volumeOf_eq_some hw
    rw [hw, List.inj_on_of_nodup_map hnodup hwmem hmem hwvol]
  rw [chooseVolume, hvol]
  simp [hlisted, Option.filter, hdead.ne]

end Loop

/-! ### The monitor's list -/

section Placement

variable {c : Cluster} {minfree : ℤ} {jitter : Text → Fin 100}

/-- The list of volumes as `ul.php` reads it. -/
def Cluster.volLst (c : Cluster) (minfree : ℤ) (jitter : Text → Fin 100) : List Volume :=
  (c.volumes minfree jitter).map Candidate.volume

theorem nodup_volLst : ((c.volLst minfree jitter).map Volume.vol).Nodup := by
  rw [Cluster.volLst, List.map_map]
  exact (vols_perm c minfree jitter).nodup_iff.mpr c.nodup

/-- All files are placed soundly exactly if no file names a volume that the monitor lists with a negative
score. -/
theorem placedSoundly_iff (c : Cluster) (minfree : ℤ) (jitter : Text → Fin 100) (fields : List FilesField) :
    PlacedSoundly (c.volLst minfree jitter) (getFileList fields)
        (groupFiles (c.volLst minfree jitter) (getFileList fields)) ↔
      ∀ item ∈ getFileList fields, ∀ v ∈ c.volLst minfree jitter, item.vol = some v.vol → 0 ≤ v.score := by
  have hnodup : ((c.volLst minfree jitter).map Volume.vol).Nodup := nodup_volLst
  rw [groupFiles_eq]
  constructor
  · intro h item hitem v hv hvol
    by_contra hscore
    have hchoice := chooseVolume_dead hnodup hv hvol (not_le.mp hscore)
    obtain ⟨i, hi⟩ := List.getElem?_of_mem hitem
    have hin : i ∈ filesOf ((getFileList fields).map (chooseVolume (c.volLst minfree jitter))) v.vol := by
      rw [mem_filesOf, List.getElem?_map, hi, Option.map_some, hchoice]
    obtain ⟨w, hw, hwvol, hpos⟩ := h.writable v.vol _ i (mem_groupsOf.mpr
      ⟨List.mem_map.mpr ⟨item, hitem, hchoice⟩, rfl⟩) hin
    obtain rfl := List.inj_on_of_nodup_map hnodup hw hv hwvol
    exact hscore hpos.le
  · intro h
    refine ⟨nodup_groupsOf, fun i hi hnone => ?_, fun vol idxs i hmem hi => ?_⟩
    · have hitem : (getFileList fields)[i]? = some (getFileList fields)[i] := List.getElem?_eq_getElem hi
      have hchoice : chooseVolume (c.volLst minfree jitter) (getFileList fields)[i] = none := by
        by_contra hsome
        obtain ⟨vol, hvol⟩ := Option.ne_none_iff_exists'.mp hsome
        have hin : ((getFileList fields).map (chooseVolume (c.volLst minfree jitter)))[i]? = some (some vol) := by
          rw [List.getElem?_map, hitem, Option.map_some, hvol]
        exact hnone (List.mem_flatMap.mpr ⟨_, mem_groupsOf.mpr ⟨List.mem_of_getElem? hin, rfl⟩, mem_filesOf.mpr hin⟩)
      rw [List.getElem?_map, hitem, Option.map_some, Option.map_some, placed, hchoice]
    · obtain ⟨-, rfl⟩ := mem_groupsOf.mp hmem
      have hin := mem_filesOf.mp hi
      rw [List.getElem?_map, Option.map_eq_some_iff] at hin
      obtain ⟨item, hitem, hchoice⟩ := hin
      exact chooseVolume_writable hchoice (h item (List.mem_of_getElem? hitem))

end Placement

/-- A volume whose database does not answer. -/
def deadVolume : Cluster :=
  { busyVolume with
    findings := fun vid => (busyVolume.findings vid).map fun f =>
      { f with util := f.util.map fun u => { u with whole := 10 }, answers := false } }

/-- A file that names it is put into its group. -/
theorem deadVolume_chosen : ¬ PlacedSoundly (deadVolume.volLst 100 fun _ => 0)
    (getFileList [.single ⟨"0-photo".toList, none, [], 0, 10⟩])
    (groupFiles (deadVolume.volLst 100 fun _ => 0) (getFileList [.single ⟨"0-photo".toList, none, [], 0, 10⟩])) := by
  have hres : deadVolume.volumes 100 (fun _ => 0) = [⟨"0".toList, -1, "tracker0".toList⟩] := by
    decide +kernel
  have hvols : deadVolume.volLst 100 (fun _ => 0) = [⟨"0".toList, "tracker0".toList, -1⟩] := by
    rw [Cluster.volLst, hres, List.map_singleton, Candidate.volume]
    rfl
  rw [hvols]
  intro h
  obtain ⟨v, hv, -, hpos⟩ := h.writable "0".toList [0] 0 (by decide +kernel) (by decide)
  obtain rfl := List.mem_singleton.mp hv
  exact absurd hpos (by decide)

end Ylem
