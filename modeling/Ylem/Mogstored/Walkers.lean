import Ylem.Lib.OrderedListing
import Ylem.Mogstored.DeviceTree
import Ylem.Mogstored.FidSizes
import Ylem.Mogstored.FidStatter

/-!
# The two walks over a device

`FIDStatter::run` and `do_one_device` walk the same directories in the same order, the one by way of the names
that it finds and the other by way of the numbers that there can be. On a device of fids both report every fid
of the range once and in ascending order (`run_lists`, `doOneDevice_lists`). They agree exactly if every file
has been modified at the second that is its size (`walks_agree_iff`), for `run` takes the time of modification
for the size.
-/

namespace Ylem

open FileSystem Mogstored.FidStatter Mogstored.FidSizes

/-! ### Digits and names -/

theorem insertionSort_pairwise_lt {names : List Text} (h : names.Nodup) :
    (names.insertionSort (· ≤ ·)).Pairwise (· < ·) := by
  have hsorted : (names.insertionSort (· ≤ ·)).SortedLE := (List.pairwise_insertionSort _ _).sortedLE
  exact (hsorted.sortedLT_of_nodup ((List.perm_insertionSort _ _).nodup_iff.mpr h)).pairwise

theorem isDirName_of_digits {n : ℕ} {name : Text} (hlength : name.length = n) (hdigits : ∀ c ∈ name, c.isDigit = true) :
    isDirName n name = true := by
  subst hlength
  rw [isDirName, List.take_length, List.drop_length, Bool.and_eq_true, Bool.and_eq_true, beq_iff_eq, List.all_eq_true]
  exact ⟨⟨rfl, hdigits⟩, rfl⟩

theorem span_fidName (fid : ℕ) : (nfid fid ++ ".fid".toList).takeWhile Char.isDigit = nfid fid ∧
    (nfid fid ++ ".fid".toList).dropWhile Char.isDigit = ".fid".toList :=
  Text.takeWhile_append_stop (fun _ => isDigit_of_mem_nfid) fun c hc => by
    obtain rfl : '.' = c := by simpa using hc
    rfl

theorem isFidName_nfid (fid : ℕ) : isFidName (nfid fid ++ ".fid".toList) = true := by
  have hne : (nfid fid != []) = true := bne_iff_ne.mpr (Text.zeroPad_ne_nil 10 fid)
  rw [isFidName, (span_fidName fid).1, (span_fidName fid).2, hne]
  rfl

theorem zeropad_decimal (fid : ℕ) : zeropad (Text.decimal fid) = Text.zeroPad 25 fid := rfl

theorem fidOf_nfid {fid : ℕ} (h : fid < 10 ^ 10) : Text.ofDigits (fidOf (nfid fid ++ ".fid".toList)) = fid ∧
    zeropad (fidOf (nfid fid ++ ".fid".toList)) = Text.zeroPad 25 fid := by
  have hpad : Text.zeroPad 25 fid = List.replicate 15 '0' ++ nfid fid := (Text.zeroPad_of_le h (by norm_num)).symm
  have hrest := Text.pad_dropWhile (w := 25) (t := nfid fid) (by rw [length_nfid h]; norm_num)
  rw [length_nfid h, ← hpad] at hrest
  have hvalue : Text.ofDigits ((nfid fid).dropWhile (· == '0')) = fid := by
    rw [Text.ofDigits_dropWhile, nfid, Text.ofDigits_zeroPad]
  rw [fidOf, (span_fidName fid).1]
  split_ifs with hnil
  · rw [hnil] at hrest hvalue
    exact ⟨hvalue, hrest⟩
  · exact ⟨hvalue, hrest⟩

theorem dir_decimal {fid : ℕ} (h : fid < 10 ^ 10) :
    dir (Text.decimal fid) = (hdirComps (nfid fid)).flatMap fun comp => comp ++ ['/'] := by
  have hlength : (Text.decimal fid).length ≤ 10 := by
    have hten := length_nfid h
    rw [nfid, Text.zeroPad, List.length_append] at hten
    omega
  have hpad := Text.pad_dropWhile hlength
  have hfid : (if ((Text.decimal fid).dropWhile (· == '0')).length < 10 then
      List.replicate (10 - ((Text.decimal fid).dropWhile (· == '0')).length) '0' ++
        (Text.decimal fid).dropWhile (· == '0')
      else (Text.decimal fid).dropWhile (· == '0')) = nfid fid := by
    split_ifs with hshort
    · exact hpad
    · rw [Nat.sub_eq_zero_of_le (not_lt.mp hshort)] at hpad
      exact hpad
  rw [dir, hfid]
  simp [hdirComps]

/-! ### Pruning -/

/-- Directories as `run` writes them, each with a slash after it. -/
def slashed (comps : List Text) : Text := comps.flatMap fun comp => comp ++ ['/']

theorem prefix_hdirComps_cases {digits : Text} {cs : List Text} (hcs : cs <+: hdirComps digits) (hne : cs ≠ []) :
    cs = [digits.take 1] ∨ cs = [digits.take 1, (digits.drop 1).take 3] ∨ cs = hdirComps digits := by
  have htake := List.prefix_iff_eq_take.mp hcs
  have hlength : cs.length ≤ 3 := hcs.length_le
  have hpos : 0 < cs.length := List.length_pos_of_ne_nil hne
  obtain h | h | h : cs.length = 1 ∨ cs.length = 2 ∨ cs.length = 3 := by omega
  · exact .inl (by rw [h] at htake; exact htake)
  · exact .inr (.inl (by rw [h] at htake; exact htake))
  · exact .inr (.inr (by rw [h] at htake; exact htake))

theorem le_of_isDigit {c : Char} (h : c.isDigit = true) : '0' ≤ c ∧ c ≤ '9' := by
  rw [Char.isDigit, Bool.and_eq_true, decide_eq_true_eq, decide_eq_true_eq] at h
  exact h

theorem length_hdirComps {fid : ℕ} (h : fid < 10 ^ 10) : ((nfid fid).take 1).length = 1 ∧
    (((nfid fid).drop 1).take 3).length = 3 ∧ (((nfid fid).drop 4).take 3).length = 3 := by
  simp [length_nfid h]

section Prune

variable {fid : ℕ} {cs : List Text} (hfid : fid < 10 ^ 10) (hcs : cs <+: hdirComps (nfid fid)) (hne : cs ≠ [])

include hfid hcs hne

theorem padDir_slashed (pad : Text) :
    padDir (slashed cs) pad = .ok (slashed (cs ++ List.replicate (3 - cs.length) pad)) := by
  have hlengths := length_hdirComps hfid
  have hcases := prefix_hdirComps_cases hcs hne
  rw [hdirComps] at hcases
  generalize (nfid fid).take 1 = b, ((nfid fid).drop 1).take 3 = mmm, ((nfid fid).drop 4).take 3 = ttt at hcases hlengths
  obtain ⟨hb, hmmm, httt⟩ := hlengths
  rcases hcases with rfl | rfl | rfl
  · simp [padDir, slashed, hb, List.replicate]
  · simp [padDir, slashed, hb, hmmm]
  · simp [padDir, slashed, hb, hmmm, httt]

theorem length_pad {pad : Text} (hpad : pad.length = 3) :
    (cs ++ List.replicate (3 - cs.length) pad).map List.length = [1, 3, 3] := by
  obtain ⟨hb, hmmm, httt⟩ := length_hdirComps hfid
  rcases prefix_hdirComps_cases hcs hne with rfl | rfl | rfl
  · rw [List.map_append, List.map_singleton, hb, List.map_replicate, hpad]
    rfl
  · rw [List.map_append, List.map_cons, List.map_singleton, hb, hmmm, List.map_replicate, hpad]
    rfl
  · rw [List.map_append, hdirComps, List.map_cons, List.map_cons, List.map_singleton, hb, hmmm, httt]
    rfl

theorem forall₂_pad {r : Text → Text → Prop} {pad : Text} (hrefl : ∀ comp, r comp comp)
    (hpad : ∀ comp : Text, comp.length = 3 → (∀ c ∈ comp, c.isDigit = true) → r comp pad) :
    List.Forall₂ r (hdirComps (nfid fid)) (cs ++ List.replicate (3 - cs.length) pad) := by
  obtain ⟨-, h2, h3⟩ := length_hdirComps hfid
  have hdigits : ∀ comp ∈ hdirComps (nfid fid), ∀ c ∈ comp, c.isDigit = true := fun comp hcomp c hc =>
    isDigit_of_mem_nfid (mem_nfid_of_mem_hdirComps hcomp hc)
  have hm := hpad _ h2 (hdigits _ (by simp [hdirComps]))
  have ht := hpad _ h3 (hdigits _ (by simp [hdirComps]))
  rcases prefix_hdirComps_cases hcs hne with rfl | rfl | rfl
  · exact .cons (hrefl _) (.cons hm (.cons ht .nil))
  · exact .cons (hrefl _) (.cons (hrefl _) (.cons ht .nil))
  · exact .cons (hrefl _) (.cons (hrefl _) (.cons (hrefl _) .nil))

theorem le_pad : hdirComps (nfid fid) ≤ cs ++ List.replicate (3 - cs.length) "999".toList :=
  le_of_forall₂ (forall₂_pad hfid hcs hne le_refl fun _ hlength hdigits =>
    le_replicate hlength fun c hc => (le_of_isDigit (hdigits c hc)).2)

theorem pad_le : cs ++ List.replicate (3 - cs.length) "000".toList ≤ hdirComps (nfid fid) :=
  le_of_forall₂ (forall₂_pad hfid hcs hne (r := fun x y => y ≤ x) le_refl fun _ hlength hdigits =>
    replicate_le hlength fun c hc => (le_of_isDigit (hdigits c hc)).1).flip

end Prune

theorem dirInRange_slashed {lo hi : ℕ} {cs : List Text} {fid : ℕ} (hlo : lo < 10 ^ 10) (hhi : hi < 10 ^ 10)
    (hfid : fid < 10 ^ 10) (hcs : cs <+: hdirComps (nfid fid)) (hne : cs ≠ []) :
    ∃ inRange, dirInRange (dir (Text.decimal lo)) (dir (Text.decimal hi)) (slashed cs) = .ok inRange ∧
      (inRange = false → ∀ fid' < 10 ^ 10, cs <+: hdirComps (nfid fid') → ¬ (lo ≤ fid' ∧ fid' ≤ hi)) := by
  have hshape : ∀ {n : ℕ}, n < 10 ^ 10 → (hdirComps (nfid n)).map List.length = [1, 3, 3] := fun hn => by
    obtain ⟨hb, hmmm, httt⟩ := length_hdirComps hn
    rw [hdirComps, List.map_cons, List.map_cons, List.map_singleton, hb, hmmm, httt]
  rw [dirInRange, maxSubdir, minSubdir, padDir_slashed hfid hcs hne, padDir_slashed hfid hcs hne, dir_decimal hlo,
    dir_decimal hhi]
  dsimp only
  split_ifs with hbefore
  · refine ⟨false, rfl, fun _ fid' hfid' hcs' hrange => ?_⟩
    have hlt := (flatMap_lt_flatMap_iff ((length_pad hfid hcs hne rfl).trans (hshape hlo).symm)).mp hbefore
    exact absurd hlt (((hdirComps_le hrange.1 hfid').trans (le_pad hfid' hcs' hne)).not_gt)
  · refine ⟨_, rfl, fun hafter fid' hfid' hcs' hrange => ?_⟩
    rw [Bool.not_eq_false', decide_eq_true_eq] at hafter
    have hlt := (flatMap_lt_flatMap_iff ((hshape hhi).trans (length_pad hfid hcs hne rfl).symm)).mp hafter
    exact absurd hlt (((pad_le hfid' hcs' hne).trans (hdirComps_le hrange.2 hhi)).not_gt)

/-! ### `FIDStatter` -/

namespace DeviceTree

section Run

variable (fs : FileSystem) (base : Text) (mtime : Text → ℤ) (lo hi : ℕ)

/-- The fids of the range that `run` reports. -/
def Found (fid : ℕ) : Prop := Stored fs base fid ∧ lo ≤ fid ∧ fid ≤ hi ∧ mtime (filePath base fid) ≠ 0

/-- A walk has reported what is to be found below these directories, each fid with the file's time. -/
structure Covers (cs : List Text) (w : Walk) : Prop where
  died : w.died = none
  reports : OrderedListing (fun fid => Found fs base mtime lo hi fid ∧ cs <+: fidComps fid)
    (fun fid => mtime (filePath base fid)) w.reports

variable {fs base mtime lo hi} {cs : List Text}

theorem foldr_andThen {code : Text → Walk} {names : List Text} (h : ∀ name ∈ names, (code name).died = none) :
    names.foldr (fun name rest => (code name).andThen rest) Walk.nothing =
      ⟨names.flatMap fun name => (code name).reports, none⟩ := by
  induction names with
  | nil => rfl
  | cons name names ih =>
    rw [List.foldr_cons, ih fun other hother => h other (List.mem_cons_of_mem _ hother), Walk.andThen,
      h name List.mem_cons_self, List.flatMap_cons]

theorem covers_nothing (h : ∀ fid, Found fs base mtime lo hi fid → ¬ cs <+: fidComps fid) :
    Covers fs base mtime lo hi cs Walk.nothing where
  died := rfl
  reports := .nil fun fid hfid => h fid hfid.1 hfid.2

theorem covers_foreachDentry (tree : DeviceTree fs base) {re : Text → Bool} {code : Text → Text → Walk}
    (hlength : cs.length < 4) (hdir : fs.isDir (joinPath base cs) = true)
    (hdots : re ".".toList = false ∧ re "..".toList = false)
    (hre : ∀ name ∈ fs.names (joinPath base cs), re name = true)
    (hcode : ∀ name ∈ fs.names (joinPath base cs),
      Covers fs base mtime lo hi (cs ++ [name]) (code name (joinPath base (cs ++ [name])))) :
    Covers fs base mtime lo hi cs (foreachDentry fs (joinPath base cs) re code) := by
  have hfilter : (".".toList :: "..".toList :: fs.names (joinPath base cs)).filter re = fs.names (joinPath base cs) := by
    rw [List.filter_cons_of_neg (by rw [hdots.1]; exact Bool.false_ne_true),
      List.filter_cons_of_neg (by rw [hdots.2]; exact Bool.false_ne_true), List.filter_eq_self.mpr hre]
  have hpath : ∀ name, joinPath base cs ++ '/' :: name = joinPath base (cs ++ [name]) := fun name => by
    rw [joinPath_append, joinPath_singleton]
  have hmem : ∀ {name}, name ∈ (fs.names (joinPath base cs)).insertionSort (· ≤ ·) ↔
      name ∈ fs.names (joinPath base cs) := List.mem_insertionSort _
  have hdied : ∀ name ∈ (fs.names (joinPath base cs)).insertionSort (· ≤ ·),
      (code name (joinPath base (cs ++ [name]))).died = none := fun name hname => (hcode name (hmem.mp hname)).died
  rw [foreachDentry, opendir, if_pos hdir]
  dsimp only
  simp only [hfilter, hpath]
  rw [foldr_andThen hdied]
  refine ⟨rfl, (OrderedListing.flatMap (insertionSort_pairwise_lt (List.nodup_dedup _))
    (fun name hname => (hcode name (hmem.mp hname)).reports) ?_).congr fun fid => ?_⟩
  · intro name _ name' _ hlt fid fid' hfid hfid'
    exact lt_of_names_lt hlt hfid.2 hfid'.2 (tree.lt_of_stored hfid.1.1)
  · constructor
    · rintro ⟨name, -, hfound, hpre⟩
      exact ⟨hfound, (List.prefix_append _ _).trans hpre⟩
    · rintro ⟨hfound, hpre⟩
      -- the next component of the path is a name in the directory
      obtain ⟨rest, hrest⟩ := hpre
      cases rest with
      | nil =>
        rw [List.append_nil] at hrest
        exact absurd (congrArg List.length hrest) (by simpa [fidComps, hdirComps] using hlength.ne)
      | cons name rest =>
        have hpre : cs ++ [name] <+: fidComps fid := ⟨rest, by rw [List.append_assoc, List.singleton_append, hrest]⟩
        exact ⟨name, hmem.mpr (name_of_stored hfound.1 hpre), hfound, hpre⟩

theorem covers_unlessOutOfRange (tree : DeviceTree fs base) (hle : lo ≤ hi) (hhi : hi < 10 ^ 10) {fid : ℕ}
    (hfid : fid < 10 ^ 10) (hcs : cs <+: hdirComps (nfid fid)) (hne : cs ≠ []) {code : Walk}
    (h : Covers fs base mtime lo hi cs code) :
    Covers fs base mtime lo hi cs
      (unlessOutOfRange (dir (Text.decimal lo)) (dir (Text.decimal hi)) (slashed cs) code) := by
  obtain ⟨inRange, heq, hpruned⟩ := dirInRange_slashed (hle.trans_lt hhi) hhi hfid hcs hne
  rw [unlessOutOfRange, heq]
  cases inRange with
  | true => exact h
  | false =>
    refine covers_nothing fun fid' hfound hpre => ?_
    have hpre' : cs <+: hdirComps (nfid fid') :=
      List.prefix_of_prefix_length_le hpre (hdirComps_prefix_fidComps fid') hcs.length_le
    exact hpruned rfl fid' (tree.lt_of_stored hfound.1) hpre' ⟨hfound.2.1, hfound.2.2.1⟩

theorem fileInRange_nfid (hle : lo ≤ hi) (hhi : hi < 10 ^ 10) {fid : ℕ} (hfid : fid < 10 ^ 10) :
    fileInRange (zeropad (Text.decimal lo)) (zeropad (Text.decimal hi)) (fidOf (nfid fid ++ ".fid".toList)) = true ↔
      lo ≤ fid ∧ fid ≤ hi := by
  have hwide : ∀ {n : ℕ}, n < 10 ^ 10 → n < 10 ^ (24 + 1) := fun hn => hn.trans (by norm_num)
  rw [fileInRange, (fidOf_nfid hfid).2, zeropad_decimal, zeropad_decimal, Bool.and_eq_true, decide_eq_true_eq,
    decide_eq_true_eq, ← not_lt, ← not_lt, Text.zeroPad_lt_zeroPad_iff (hwide hfid) (hwide (hle.trans_lt hhi)),
    Text.zeroPad_lt_zeroPad_iff (hwide hhi) (hwide hfid), not_lt, not_lt]

theorem covers_visitFile (tree : DeviceTree fs base) (hle : lo ≤ hi) (hhi : hi < 10 ^ 10) {fid : ℕ}
    (hstored : Stored fs base fid) :
    Covers fs base mtime lo hi (fidComps fid)
      (visitFile mtime (zeropad (Text.decimal lo)) (zeropad (Text.decimal hi)) (nfid fid ++ ".fid".toList)
        (filePath base fid)) := by
  have hfid := tree.lt_of_stored hstored
  have hself : ∀ {fid'}, fidComps fid <+: fidComps fid' → fid' = fid := fun hpre =>
    (fidComps_injective (hpre.eq_of_length rfl)).symm
  rw [visitFile]
  dsimp only
  by_cases hrange : lo ≤ fid ∧ fid ≤ hi
  · rw [if_pos ((fileInRange_nfid hle hhi hfid).mpr hrange), (fidOf_nfid hfid).1]
    split_ifs with hsize
    · refine ⟨rfl, (OrderedListing.singleton fid).congr fun fid' => ?_⟩
      constructor
      · rintro rfl
        exact ⟨⟨hstored, hrange.1, hrange.2, hsize⟩, List.prefix_rfl⟩
      · exact fun hfound => hself hfound.2
    · refine covers_nothing fun fid' hfound hpre => hsize ?_
      rw [← hself hpre]
      exact hfound.2.2.2
  · rw [if_neg fun h => hrange ((fileInRange_nfid hle hhi hfid).mp h)]
    refine covers_nothing fun fid' hfound hpre => hrange ?_
    rw [← hself hpre]
    exact ⟨hfound.2.1, hfound.2.2.1⟩

theorem isDirName_of_prefix {name : Text} {fid : ℕ} (hfid : fid < 10 ^ 10)
    (h : cs ++ [name] <+: hdirComps (nfid fid)) : isDirName (if cs = [] then 1 else 3) name = true := by
  obtain ⟨hb, hmmm, httt⟩ := length_hdirComps hfid
  have hdigits : ∀ c ∈ name, c.isDigit = true := fun c hc =>
    isDigit_of_mem_nfid (mem_nfid_of_mem_hdirComps (h.subset (List.mem_append_right _ (List.mem_singleton.mpr rfl))) hc)
  refine isDirName_of_digits ?_ hdigits
  rcases prefix_hdirComps_cases h (by simp) with heq | heq | heq
  · have heq : cs ++ [name] = [] ++ [(nfid fid).take 1] := heq
    obtain ⟨rfl, rfl⟩ := List.append_singleton_inj.mp heq
    exact hb
  · have heq : cs ++ [name] = [(nfid fid).take 1] ++ [((nfid fid).drop 1).take 3] := heq
    obtain ⟨rfl, rfl⟩ := List.append_singleton_inj.mp heq
    exact hmmm
  · have heq : cs ++ [name] = [(nfid fid).take 1, ((nfid fid).drop 1).take 3] ++ [((nfid fid).drop 4).take 3] := heq
    obtain ⟨rfl, rfl⟩ := List.append_singleton_inj.mp heq
    exact httt

theorem covers_subdirs (tree : DeviceTree fs base) (hle : lo ≤ hi) (hhi : hi < 10 ^ 10)
    (hcs : ∀ c ∈ cs, '/' ∉ c) (hlength : cs.length < 3) (hdir : fs.isDir (joinPath base cs) = true)
    {code : Text → Text → Walk}
    (hcode : ∀ name, ∀ fid < 10 ^ 10, cs ++ [name] <+: hdirComps (nfid fid) →
      fs.isDir (joinPath base (cs ++ [name])) = true →
      Covers fs base mtime lo hi (cs ++ [name]) (code name (joinPath base (cs ++ [name])))) :
    Covers fs base mtime lo hi cs (foreachDentry fs (joinPath base cs) (isDirName (if cs = [] then 1 else 3))
      fun name path => unlessOutOfRange (dir (Text.decimal lo)) (dir (Text.decimal hi)) (slashed (cs ++ [name]))
        (code name path)) := by
  refine covers_foreachDentry tree (by omega) hdir ?_ (fun name hname => ?_) fun name hname => ?_
  · split_ifs <;> decide
  · obtain ⟨fid, hfid, hpre, -⟩ := tree.subdir_of_name hcs hlength hname
    exact isDirName_of_prefix hfid hpre
  · obtain ⟨fid, hfid, hpre, hsub⟩ := tree.subdir_of_name hcs hlength hname
    exact covers_unlessOutOfRange tree hle hhi hfid hpre (by simp) (hcode name fid hfid hpre hsub)

theorem covers_files (tree : DeviceTree fs base) (hle : lo ≤ hi) (hhi : hi < 10 ^ 10)
    (hcs : ∀ c ∈ cs, '/' ∉ c) (hlength : cs.length = 3) (hdir : fs.isDir (joinPath base cs) = true) :
    Covers fs base mtime lo hi cs (foreachDentry fs (joinPath base cs) isFidName
      (visitFile mtime (zeropad (Text.decimal lo)) (zeropad (Text.decimal hi)))) := by
  have hname : ∀ {name fid}, cs ++ [name] = fidComps fid → name = nfid fid ++ ".fid".toList := fun heq =>
    (List.append_singleton_inj.mp heq).2
  refine covers_foreachDentry tree (by omega) hdir (by decide) (fun name hmem => ?_) fun name hmem => ?_
  · obtain ⟨fid, -, hcomps⟩ := tree.file_of_name hcs hlength hmem
    rw [hname hcomps]
    exact isFidName_nfid fid
  · obtain ⟨fid, hstored, hcomps⟩ := tree.file_of_name hcs hlength hmem
    rw [hcomps, hname hcomps]
    exact covers_visitFile tree hle hhi hstored

theorem covers_run (tree : DeviceTree fs base) (hle : lo ≤ hi) (hhi : hi < 10 ^ 10) :
    Covers fs base mtime lo hi [] (run fs mtime base (Text.decimal lo) (Text.decimal hi)) := by
  have hslash : ∀ {cs : List Text} {fid}, cs <+: hdirComps (nfid fid) → ∀ c ∈ cs, '/' ∉ c := fun hpre c hc =>
    slash_not_mem_hdirComps c (hpre.subset hc)
  have hbase : joinPath base [] = base := by simp [joinPath]
  have hrun : run fs mtime base (Text.decimal lo) (Text.decimal hi) =
      foreachDentry fs (joinPath base []) (isDirName (if ([] : List Text) = [] then 1 else 3)) fun bdir path =>
        unlessOutOfRange (dir (Text.decimal lo)) (dir (Text.decimal hi)) (slashed ([] ++ [bdir])) <|
        foreachDentry fs path (isDirName (if [] ++ [bdir] = [] then 1 else 3)) fun mdir path =>
          unlessOutOfRange (dir (Text.decimal lo)) (dir (Text.decimal hi)) (slashed ([] ++ [bdir] ++ [mdir])) <|
          foreachDentry fs path (isDirName (if [] ++ [bdir] ++ [mdir] = [] then 1 else 3)) fun tdir path =>
            unlessOutOfRange (dir (Text.decimal lo)) (dir (Text.decimal hi)) (slashed ([] ++ [bdir] ++ [mdir] ++ [tdir])) <|
            foreachDentry fs path isFidName
              (visitFile mtime (zeropad (Text.decimal lo)) (zeropad (Text.decimal hi))) := by
    rw [hbase]
    simp [run, slashed]
  rw [hrun]
  refine covers_subdirs tree hle hhi (by simp) (by simp) (hbase.symm ▸ tree.isDir) fun bdir fid _ hpre hdir => ?_
  refine covers_subdirs tree hle hhi (hslash hpre) (by simp) hdir fun mdir fid _ hpre hdir => ?_
  refine covers_subdirs tree hle hhi (hslash hpre) (by simp) hdir fun tdir fid _ hpre hdir => ?_
  exact covers_files tree hle hhi (hslash hpre) (by simp) hdir

end Run

/-! ### `do_one_device` -/

section DoOneDevice

variable (fs : FileSystem) (lo hi : ℕ) (base : Text)

/-- What `do_one_device` lists for a name in the directory of a thousand. -/
def fidEntry (hdir : ℕ) (file : Text) : Option (ℕ × ℕ) :=
  let nfid := Text.zeroPad 7 hdir
  if file = ".".toList ∨ file = "..".toList then none
  else match matchFid nfid file with
    | none => none
    | some hhh =>
      if (hdir = lo / 1000 ∧ Text.ofDigits hhh < lo % 1000) ∨ (hdir = hi / 1000 ∧ hi % 1000 < Text.ofDigits hhh) then
        none
      else some (Text.ofDigits (nfid ++ hhh), (fs.statSize (hdirPath base nfid ++ '/' :: file)).getD 0)

/-- What it lists for the directory of a thousand. -/
def hdirEntries (hdir : ℕ) : List (ℕ × ℕ) :=
  match fs.opendir (hdirPath base (Text.zeroPad 7 hdir)) with
  | .entries names => (names.insertionSort (· ≤ ·)).flatMap fun file => (fidEntry fs lo hi base hdir file).toList
  | _ => []

variable {fs lo hi base}

theorem readFiles_eq {hdir : ℕ} {names : List Text} {files : List (ℕ × ℕ)}
    (h : (files ++ names.flatMap fun file => (fidEntry fs lo hi base hdir file).toList).length ≤ 10000) :
    readFiles fs lo hi base hdir names files =
      .ok (files ++ names.flatMap fun file => (fidEntry fs lo hi base hdir file).toList) := by
  induction names generalizing files with
  | nil => rw [List.flatMap_nil, List.append_nil, readFiles]
  | cons file names ih =>
    rw [List.flatMap_cons, ← List.append_assoc] at h ⊢
    have hnone : fidEntry fs lo hi base hdir file = none → readFiles fs lo hi base hdir names files =
        .ok (files ++ (fidEntry fs lo hi base hdir file).toList ++
          names.flatMap fun file => (fidEntry fs lo hi base hdir file).toList) := fun heq => by
      rw [heq, Option.toList_none, List.append_nil] at h ⊢
      exact ih h
    rw [readFiles]
    by_cases hdots : file = ".".toList ∨ file = "..".toList
    · rw [if_pos hdots]
      exact hnone (if_pos hdots)
    · rw [if_neg hdots]
      cases hmatch : matchFid (Text.zeroPad 7 hdir) file with
      | none => exact hnone (by rw [fidEntry, if_neg hdots, hmatch])
      | some hhh =>
        by_cases hskip : (hdir = lo / 1000 ∧ Text.ofDigits hhh < lo % 1000) ∨
            (hdir = hi / 1000 ∧ hi % 1000 < Text.ofDigits hhh)
        · have heq : fidEntry fs lo hi base hdir file = none := by
            rw [fidEntry, if_neg hdots, hmatch]
            exact if_pos hskip
          rw [← hnone heq]
          exact if_pos hskip
        · have hentry : fidEntry fs lo hi base hdir file = some (Text.ofDigits (Text.zeroPad 7 hdir ++ hhh),
              (fs.statSize (hdirPath base (Text.zeroPad 7 hdir) ++ '/' :: file)).getD 0) := by
            rw [fidEntry, if_neg hdots, hmatch]
            exact if_neg hskip
          rw [hentry, Option.toList_some] at h ⊢
          have hshort := h
          rw [List.length_append] at hshort
          dsimp only
          rw [if_neg hskip, if_neg (by omega)]
          exact ih h

theorem readHdirs_eq {hdirs : List ℕ} {files : List (ℕ × ℕ)}
    (hopen : ∀ hdir ∈ hdirs, fs.opendir (hdirPath base (Text.zeroPad 7 hdir)) ≠ .enotdir)
    (h : (files ++ hdirs.flatMap (hdirEntries fs lo hi base)).length ≤ 10000) :
    readHdirs fs lo hi base hdirs files = .ok (files ++ hdirs.flatMap (hdirEntries fs lo hi base)) := by
  induction hdirs generalizing files with
  | nil => rw [List.flatMap_nil, List.append_nil, readHdirs]
  | cons hdir hdirs ih =>
    rw [List.flatMap_cons, ← List.append_assoc] at h ⊢
    have hrest := fun x hx => hopen x (List.mem_cons_of_mem hdir hx)
    rw [readHdirs]
    cases hdirOpen : fs.opendir (hdirPath base (Text.zeroPad 7 hdir)) with
    | enotdir => exact absurd hdirOpen (hopen hdir List.mem_cons_self)
    | enoent =>
      have hnone : hdirEntries fs lo hi base hdir = [] := by
        rw [hdirEntries, hdirOpen]
      rw [hnone, List.append_nil] at h ⊢
      exact ih hrest h
    | entries names =>
      have hentries : hdirEntries fs lo hi base hdir =
          (names.insertionSort (· ≤ ·)).flatMap fun file => (fidEntry fs lo hi base hdir file).toList := by
        rw [hdirEntries, hdirOpen]
      have hfiles : (files ++ hdirEntries fs lo hi base hdir).length ≤ 10000 := by
        rw [List.length_append] at h
        omega
      rw [hentries] at h hfiles ⊢
      dsimp only
      rw [readFiles_eq hfiles]
      exact ih hrest h

theorem nfid_eq (fid : ℕ) : nfid fid = Text.zeroPad 7 (fid / 1000) ++ Text.zeroPad 3 (fid % 1000) :=
  Text.zeroPad_add_three 6 fid

theorem hdirComps_zeroPad {fid : ℕ} (h : fid < 10 ^ 10) : hdirComps (Text.zeroPad 7 (fid / 1000)) = hdirComps (nfid fid) := by
  have hlength : (Text.zeroPad 7 (fid / 1000)).length = 7 := Text.length_zeroPad (by omega)
  rw [nfid_eq, hdirComps, hdirComps]
  generalize Text.zeroPad 7 (fid / 1000) = t at hlength
  generalize Text.zeroPad 3 (fid % 1000) = rest
  rw [List.take_append_of_le_length (by omega), List.drop_append_of_le_length (by omega),
    List.take_append_of_le_length (by rw [List.length_drop]; omega), List.drop_append_of_le_length (by omega),
    List.take_append_of_le_length (by rw [List.length_drop]; omega)]

theorem hdirComps_thousand {hdir : ℕ} (h : hdir < 10 ^ 7) :
    hdirComps (Text.zeroPad 7 hdir) = hdirComps (nfid (1000 * hdir)) := by
  have heq : hdirComps (Text.zeroPad 7 (1000 * hdir / 1000)) = hdirComps (nfid (1000 * hdir)) :=
    hdirComps_zeroPad (by omega)
  rwa [Nat.mul_div_cancel_left _ (by norm_num)] at heq

theorem hdirPath_eq_joinPath (base digits : Text) : hdirPath base digits = joinPath base (hdirComps digits) := by
  simp [hdirPath, joinPath, hdirComps]

theorem eq_of_hdirComps_eq {fid hdir : ℕ} (hfid : fid < 10 ^ 10) (hhdir : hdir < 10 ^ 7)
    (h : hdirComps (nfid fid) = hdirComps (Text.zeroPad 7 hdir)) : fid / 1000 = hdir := by
  have hflat : ∀ {n : ℕ}, n < 10 ^ 7 → (hdirComps (Text.zeroPad 7 n)).flatten = Text.zeroPad 7 n := fun {n} hn => by
    have hlength : (Text.zeroPad 7 n).length = 7 := Text.length_zeroPad hn
    generalize Text.zeroPad 7 n = t at hlength
    have hdrop : (t.drop 4).take 3 = t.drop 4 := List.take_of_length_le (by rw [List.length_drop]; omega)
    have hrest : (t.drop 1).take 3 ++ t.drop 4 = t.drop 1 := by
      rw [← List.drop_drop (i := 3) (j := 1), List.take_append_drop]
    simp only [hdirComps, List.flatten_cons, List.flatten_nil, List.append_nil, hdrop, hrest, List.take_append_drop]
  rw [← hdirComps_zeroPad hfid] at h
  have hdigits := congrArg List.flatten h
  rw [hflat (by omega), hflat hhdir] at hdigits
  exact Text.zeroPad_injective 7 hdigits

theorem matchFid_nfid (fid : ℕ) : matchFid (Text.zeroPad 7 (fid / 1000)) (nfid fid ++ ".fid".toList) =
    some (Text.zeroPad 3 (fid % 1000)) := by
  have hlength : (Text.zeroPad 3 (fid % 1000)).length = 3 := Text.length_zeroPad (by omega)
  have hdigits : (Text.zeroPad 3 (fid % 1000)).all Char.isDigit = true :=
    List.all_eq_true.mpr fun _ => Text.isDigit_of_mem_zeroPad
  have hhere : matchHere (Text.zeroPad 7 (fid / 1000)) (nfid fid ++ ".fid".toList) = some (Text.zeroPad 3 (fid % 1000)) := by
    rw [nfid_eq, List.append_assoc]
    generalize Text.zeroPad 7 (fid / 1000) = t
    generalize Text.zeroPad 3 (fid % 1000) = hhh at hlength hdigits
    have hpre : t.isPrefixOf (t ++ (hhh ++ ".fid".toList)) = true := List.isPrefixOf_iff_prefix.mpr (List.prefix_append _ _)
    have htake : (hhh ++ ".fid".toList).take 3 = hhh := by rw [← hlength, List.take_left]
    have hdrop : (hhh ++ ".fid".toList).drop 3 = ".fid".toList := by rw [← hlength, List.drop_left]
    rw [matchHere, ← List.drop_drop, List.drop_left, htake, hdrop, hpre, hlength, hdigits]
    rfl
  obtain ⟨c, rest, hname⟩ := List.exists_cons_of_ne_nil (Text.zeroPad_ne_nil 10 fid)
  rw [nfid, hname, List.cons_append] at hhere ⊢
  rw [matchFid, hhere, Option.some_or]

/-- The fids of the range that are listed for a thousand. -/
def Listed (fs : FileSystem) (base : Text) (lo hi hdir fid : ℕ) : Prop :=
  Stored fs base fid ∧ lo ≤ fid ∧ fid ≤ hi ∧ fid / 1000 = hdir

/-- The size that `do_one_device` takes. -/
def byteSize (fs : FileSystem) (base : Text) (fid : ℕ) : ℕ := (fs.statSize (filePath base fid)).getD 0

theorem fidEntry_nfid {fid : ℕ} (hfid : fid < 10 ^ 10) (hlo : lo / 1000 ≤ fid / 1000)
    (hhi : fid / 1000 ≤ hi / 1000) : fidEntry fs lo hi base (fid / 1000) (nfid fid ++ ".fid".toList) =
      if lo ≤ fid ∧ fid ≤ hi then some (fid, byteSize fs base fid) else none := by
  have hdots : ¬ (nfid fid ++ ".fid".toList = ".".toList ∨ nfid fid ++ ".fid".toList = "..".toList) := by
    rintro (heq | heq) <;> exact absurd (congrArg List.length heq) (by simp)
  have hpath : hdirPath base (Text.zeroPad 7 (fid / 1000)) ++ '/' :: (nfid fid ++ ".fid".toList) = filePath base fid := by
    rw [hdirPath_eq_joinPath, hdirComps_zeroPad hfid, filePath, fidComps, joinPath_append, joinPath_singleton]
  rw [fidEntry, if_neg hdots, matchFid_nfid]
  dsimp only
  rw [← nfid_eq, nfid, Text.ofDigits_zeroPad, Text.ofDigits_zeroPad, ← nfid, hpath]
  split_ifs with hskip hrange hrange
  · omega
  · rfl
  · rfl
  · omega

theorem hdirEntries_lists (tree : DeviceTree fs base) (hhi : hi < 10 ^ 10) {hdir : ℕ}
    (hlo : lo / 1000 ≤ hdir) (hhdir : hdir ≤ hi / 1000) :
    OrderedListing (Listed fs base lo hi hdir) (byteSize fs base) (hdirEntries fs lo hi base hdir) := by
  have hthousand := hdirComps_thousand (show hdir < 10 ^ 7 by omega)
  have hpre : ∀ {fid}, Listed fs base lo hi hdir fid →
      hdirComps (nfid (1000 * hdir)) ++ [nfid fid ++ ".fid".toList] <+: fidComps fid := fun hlisted => by
    rw [← hthousand, ← hlisted.2.2.2, hdirComps_zeroPad (tree.lt_of_stored hlisted.1)]
    exact List.prefix_rfl
  have hname : ∀ name ∈ fs.names (joinPath base (hdirComps (nfid (1000 * hdir)))),
      ∃ fid, Stored fs base fid ∧ fid / 1000 = hdir ∧ name = nfid fid ++ ".fid".toList := by
    intro name hmem
    obtain ⟨fid, hst, heq⟩ := tree.file_of_name slash_not_mem_hdirComps rfl hmem
    obtain ⟨hdirs, hfile⟩ := List.append_singleton_inj.mp heq
    exact ⟨fid, hst, eq_of_hdirComps_eq (tree.lt_of_stored hst) (by omega) (hdirs.symm.trans hthousand.symm), hfile⟩
  have hdots : ∀ {dots : Text}, dots.length < 3 → ∀ fid, dots ≠ nfid fid ++ ".fid".toList := by
    rintro dots hlength fid rfl
    simp at hlength
    omega
  have hnames : (".".toList :: "..".toList :: fs.names (joinPath base (hdirComps (nfid (1000 * hdir))))).Nodup := by
    have hnot : ∀ {dots : Text}, dots.length < 3 → dots ∉ fs.names (joinPath base (hdirComps (nfid (1000 * hdir)))) :=
      fun hlength hmem => by
        obtain ⟨fid, -, -, heq⟩ := hname _ hmem
        exact hdots hlength fid heq
    refine List.nodup_cons.mpr ⟨?_, List.nodup_cons.mpr ⟨hnot (by decide), List.nodup_dedup _⟩⟩
    rw [List.mem_cons, not_or]
    exact ⟨by decide, hnot (by decide)⟩
  rw [hdirEntries, hdirPath_eq_joinPath, hthousand, tree.opendir_hdir]
  split_ifs with hopen
  · refine (OrderedListing.flatMap (P := fun name fid => name = nfid fid ++ ".fid".toList ∧ Listed fs base lo hi hdir fid)
      (insertionSort_pairwise_lt hnames) (fun name hmem => ?_) ?_).congr fun fid => ?_
    · have hnfid : ∀ {m n}, nfid m ++ ".fid".toList = nfid n ++ ".fid".toList → n = m := fun heq =>
        (Text.zeroPad_injective 10 (List.append_cancel_right heq)).symm
      rcases List.mem_cons.mp ((List.mem_insertionSort _).mp hmem) with rfl | hmem
      · exact .nil fun fid h => hdots (by decide) fid h.1
      rcases List.mem_cons.mp hmem with rfl | hmem
      · exact .nil fun fid h => hdots (by decide) fid h.1
      obtain ⟨fid, hst, rfl, rfl⟩ := hname name hmem
      rw [fidEntry_nfid (tree.lt_of_stored hst) hlo hhdir]
      split_ifs with hrange
      · refine (OrderedListing.singleton fid).congr fun key => ?_
        constructor
        · rintro rfl
          exact ⟨rfl, hst, hrange.1, hrange.2, rfl⟩
        · exact fun h => hnfid h.1
      · refine .nil fun key h => hrange ?_
        rw [← hnfid h.1]
        exact ⟨h.2.2.1, h.2.2.2.1⟩
    · rintro name - name' - hlt fid fid' ⟨rfl, hfid⟩ ⟨rfl, hfid'⟩
      exact lt_of_names_lt hlt (hpre hfid) (hpre hfid') (tree.lt_of_stored hfid.1)
    · constructor
      · rintro ⟨name, -, -, hlisted⟩
        exact hlisted
      · intro hlisted
        have hmem := name_of_stored hlisted.1 (hpre hlisted)
        exact ⟨_, (List.mem_insertionSort _).mpr (List.mem_cons_of_mem _ (List.mem_cons_of_mem _ hmem)), rfl, hlisted⟩
  · refine .nil fun fid hlisted => hopen ?_
    obtain ⟨rest, hrest⟩ := hpre hlisted
    rw [List.append_assoc, List.singleton_append] at hrest
    refine isDir_iff.mpr (.inr ⟨filePath base fid, mem_paths.mpr (.inl hlisted.1), ?_⟩)
    rw [filePath, ← hrest]
    exact isBelow_joinPath _ _ _ _

/-- `do_one_device` lists every file of the range once and in ascending order, if there are not too many. -/
theorem doOneDevice_lists (tree : DeviceTree fs base) (hle : lo ≤ hi) (hhi : hi < 10 ^ 10)
    (hcard : ((Finset.Icc lo hi).filter (Stored fs base)).card ≤ 10000) :
    ∃ entries, doOneDevice fs lo hi base = .ok entries ∧
      OrderedListing (fun fid => Stored fs base fid ∧ lo ≤ fid ∧ fid ≤ hi) (byteSize fs base) entries := by
  have hmem : ∀ {hdir}, hdir ∈ (List.range (hi / 1000 - lo / 1000 + 1)).map (fun i => lo / 1000 + i) ↔
      lo / 1000 ≤ hdir ∧ hdir ≤ hi / 1000 := by
    intro hdir
    rw [List.mem_map]
    constructor
    · rintro ⟨i, hi', rfl⟩
      rw [List.mem_range] at hi'
      omega
    · intro hrange
      exact ⟨hdir - lo / 1000, List.mem_range.mpr (by omega), by omega⟩
  have hsorted : ((List.range (hi / 1000 - lo / 1000 + 1)).map fun i => lo / 1000 + i).Pairwise (· < ·) :=
    List.pairwise_map.mpr (List.pairwise_lt_range.imp fun hlt => Nat.add_lt_add_left hlt _)
  have hlists : OrderedListing (fun fid => Stored fs base fid ∧ lo ≤ fid ∧ fid ≤ hi) (byteSize fs base)
      (((List.range (hi / 1000 - lo / 1000 + 1)).map fun i => lo / 1000 + i).flatMap (hdirEntries fs lo hi base)) := by
    refine (OrderedListing.flatMap hsorted (fun hdir hhdir =>
      hdirEntries_lists tree hhi (hmem.mp hhdir).1 (hmem.mp hhdir).2) ?_).congr fun fid => ?_
    · rintro hdir - hdir' - hlt fid fid' hfid hfid'
      have hdiv := hfid.2.2.2
      have hdiv' := hfid'.2.2.2
      omega
    · constructor
      · rintro ⟨hdir, -, hst, hlo, hhi, -⟩
        exact ⟨hst, hlo, hhi⟩
      · rintro ⟨hst, hlo, hhi⟩
        exact ⟨fid / 1000, hmem.mpr ⟨Nat.div_le_div_right hlo, Nat.div_le_div_right hhi⟩, hst, hlo, hhi, rfl⟩
  have hlength := (hlists.length_le (s := (Finset.Icc lo hi).filter (Stored fs base)) fun fid hfid =>
    Finset.mem_filter.mpr ⟨Finset.mem_Icc.mpr hfid.2, hfid.1⟩).trans hcard
  have hopen : ∀ hdir ∈ (List.range (hi / 1000 - lo / 1000 + 1)).map (fun i => lo / 1000 + i),
      fs.opendir (hdirPath base (Text.zeroPad 7 hdir)) ≠ .enotdir := by
    intro hdir hhdir
    have hlt := (hmem.mp hhdir).2
    rw [hdirPath_eq_joinPath, hdirComps_thousand (by omega), tree.opendir_hdir]
    split_ifs <;> exact OpenDir.noConfusion
  refine ⟨_, ?_, hlists⟩
  rw [doOneDevice, tree.isDir, Bool.not_true, if_neg Bool.false_ne_true, if_neg (by omega), if_neg (by omega),
    if_neg (by omega), readHdirs_eq hopen (by rwa [List.nil_append]), List.nil_append]

end DoOneDevice

/-! ### Agreement -/

section Agreement

variable {fs : FileSystem} {base : Text} {mtime : Text → ℤ} {lo hi : ℕ}

theorem byteSize_pos (tree : DeviceTree fs base) {fid : ℕ} (h : Stored fs base fid) : 0 < byteSize fs base fid := by
  obtain ⟨file, hfile, hpath⟩ := List.mem_map.mp h
  have hsome : (fs.files.find? fun file => file.1 == filePath base fid).isSome = true := by
    rw [List.find?_isSome]
    exact ⟨file, hfile, beq_iff_eq.mpr hpath⟩
  obtain ⟨found, hfound⟩ := Option.isSome_iff_exists.mp hsome
  have hpath : found.1 = filePath base fid := by simpa using List.find?_some hfound
  have hbelow : isBelow base found.1 = true := hpath ▸ isBelow_joinPath_cons base _ _
  obtain ⟨fid', -, -, hpos⟩ := tree.files found (List.mem_of_find?_eq_some hfound) hbelow
  have hsize : byteSize fs base fid = found.2 := by
    rw [byteSize, statSize, fileSize, hfound]
    rfl
  rwa [hsize]

/-- The walks agree on a range: `run` reports the pairs that `do_one_device` returns, which are the fids of the
range that have a file, each once and in ascending order, with the sizes of the files. -/
def Agree (fs : FileSystem) (base : Text) (mtime : Text → ℤ) (lo hi : ℕ) : Prop :=
  ∃ pairs, doOneDevice fs lo hi base = .ok pairs ∧
    run fs mtime base (Text.decimal lo) (Text.decimal hi) = ⟨pairs.map fun pair => (pair.1, (pair.2 : ℤ)), none⟩ ∧
    (pairs.map Prod.fst).Pairwise (· < ·) ∧
    ∀ pair, pair ∈ pairs ↔ (Stored fs base pair.1 ∧ lo ≤ pair.1 ∧ pair.1 ≤ hi) ∧ pair.2 = byteSize fs base pair.1

/-- The walks agree exactly if every file of the range has been modified at the second that is its size. -/
theorem walks_agree_iff (tree : DeviceTree fs base) (hle : lo ≤ hi) (hhi : hi < 10 ^ 10)
    (hcard : ((Finset.Icc lo hi).filter (Stored fs base)).card ≤ 10000) :
    Agree fs base mtime lo hi ↔ ∀ fid, Stored fs base fid → lo ≤ fid → fid ≤ hi →
      mtime (filePath base fid) = byteSize fs base fid := by
  have hrun : Covers fs base mtime lo hi [] (run fs mtime base (Text.decimal lo) (Text.decimal hi)) :=
    covers_run tree hle hhi
  constructor
  · rintro ⟨pairs, -, hpairs, -, hmem⟩ fid hst hlo hhi'
    have hin : (fid, byteSize fs base fid) ∈ pairs := (hmem _).mpr ⟨⟨hst, hlo, hhi'⟩, rfl⟩
    have hreported : (fid, (byteSize fs base fid : ℤ)) ∈
        (run fs mtime base (Text.decimal lo) (Text.decimal hi)).reports := by
      rw [hpairs]
      exact List.mem_map.mpr ⟨_, hin, rfl⟩
    exact ((hrun.reports.mem_iff _).mp hreported).2.symm
  · intro htime
    obtain ⟨pairs, hpairs, hlists⟩ := doOneDevice_lists tree hle hhi hcard
    have hfound : ∀ fid, Found fs base mtime lo hi fid ∧ [] <+: fidComps fid ↔ Stored fs base fid ∧ lo ≤ fid ∧ fid ≤ hi := by
      intro fid
      constructor
      · exact fun h => ⟨h.1.1, h.1.2.1, h.1.2.2.1⟩
      · rintro ⟨hst, hlo, hhi'⟩
        refine ⟨⟨hst, hlo, hhi', ?_⟩, List.nil_prefix⟩
        rw [htime fid hst hlo hhi']
        exact_mod_cast (tree.byteSize_pos hst).ne'
    have hreports := (hrun.reports.congr hfound).congr_value fun fid hfid => htime fid hfid.1 hfid.2.1 hfid.2.2
    refine ⟨pairs, hpairs, ?_, hlists.ascending, hlists.mem_iff⟩
    exact Walk.ext (hreports.unique (hlists.map fun n : ℕ => (n : ℤ))) hrun.died

end Agreement

end DeviceTree

/-! ### One file -/

/-- A device with a file of seven bytes, fid 5. -/
def fidFive : FileSystem where
  files := [(filePath "/var/mogdata/dev3".toList 5, 7)]
  dirs := []
  dirSize := 4096

theorem deviceTree_fidFive : DeviceTree fidFive "/var/mogdata/dev3".toList where
  isDir := by decide +kernel
  files file hfile _ := ⟨5, by norm_num, by rw [List.mem_singleton.mp hfile], by rw [List.mem_singleton.mp hfile]; norm_num⟩
  dirs dir hdir := absurd hdir List.not_mem_nil
  notDir := by decide +kernel

/-- Modified at second seven, the file is reported alike. -/
theorem walks_agree_fidFive : DeviceTree.Agree fidFive "/var/mogdata/dev3".toList (fun _ => 7) 0 1000 := by
  refine (DeviceTree.walks_agree_iff deviceTree_fidFive (by norm_num) (by norm_num) ?_).mpr ?_
  · exact (Finset.card_filter_le _ _).trans (by simp)
  · intro fid hst _ _
    obtain rfl : fid = 5 := filePath_injective _ (List.mem_singleton.mp hst)
    decide +kernel

/-- Modified at any other time, it is reported with that time for a size. -/
theorem walks_not_agree_fidFive :
    run fidFive (fun _ => 1700000000) "/var/mogdata/dev3".toList (Text.decimal 5) (Text.decimal 5) =
      ⟨[(5, 1700000000)], none⟩ ∧
    (doOneDevice fidFive 5 5 "/var/mogdata/dev3".toList).toOption = some [(5, 7)] ∧
    ¬ DeviceTree.Agree fidFive "/var/mogdata/dev3".toList (fun _ => 1700000000) 5 5 := by
  have hrun : run fidFive (fun _ => 1700000000) "/var/mogdata/dev3".toList (Text.decimal 5) (Text.decimal 5) =
      ⟨[(5, 1700000000)], none⟩ := by
    decide +kernel
  have hsizes : (doOneDevice fidFive 5 5 "/var/mogdata/dev3".toList).toOption = some [(5, 7)] := by
    decide +kernel
  refine ⟨hrun, hsizes, ?_⟩
  rintro ⟨pairs, hpairs, hreports, -⟩
  rw [hpairs] at hsizes
  obtain rfl : pairs = [(5, 7)] := Option.some.inj hsizes
  rw [hrun] at hreports
  exact absurd hreports (by decide)

end Ylem
