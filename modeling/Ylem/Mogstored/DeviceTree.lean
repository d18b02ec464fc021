import Ylem.DevFid
import Ylem.Lib.FileSystem
import Ylem.Lib.Lex

/-!
# The directory of a device

A fid lies below the directory of its device, in the directories of its first seven digits: the components
of its path are one digit, three digits, three digits and the name of the file. The order of fids is the
order of the components, so that whoever visits the names of each directory in order visits the fids in
order. `DeviceTree` says that nothing else lies below the directory of a device.
-/

namespace Ylem

open FileSystem

/-- The directories for digits: `<b>`, `<mmm>` and `<ttt>`. -/
def hdirComps (digits : Text) : List Text := [digits.take 1, (digits.drop 1).take 3, (digits.drop 4).take 3]

/-- The components of a fid's path. -/
def fidComps (fid : ℕ) : List Text := hdirComps (nfid fid) ++ [nfid fid ++ ".fid".toList]

/-- `<b>/<mmm>/<ttt>/<nfid>.fid` below the directory of a device. -/
def filePath (base : Text) (fid : ℕ) : Text := joinPath base (fidComps fid)

/-- Below the directory of a device there are files of fids, none of them empty, and directories of fids. No
file is a directory. -/
structure DeviceTree (fs : FileSystem) (base : Text) : Prop where
  isDir : fs.isDir base = true
  files : ∀ file ∈ fs.files, isBelow base file.1 = true → ∃ fid < 10 ^ 10, file.1 = filePath base fid ∧ 0 < file.2
  dirs : ∀ dir ∈ fs.dirs, isBelow base dir = true →
    ∃ fid < 10 ^ 10, ∃ comps, comps <+: hdirComps (nfid fid) ∧ dir = joinPath base comps
  notDir : ∀ file ∈ fs.files, fs.isDir file.1 = false

/-- The fid has a file. -/
def Stored (fs : FileSystem) (base : Text) (fid : ℕ) : Prop := filePath base fid ∈ fs.files.map Prod.fst

instance (fs : FileSystem) (base : Text) (fid : ℕ) : Decidable (Stored fs base fid) :=
  inferInstanceAs (Decidable (_ ∈ _))

/-! ### Components -/

theorem length_nfid {fid : ℕ} (h : fid < 10 ^ 10) : (nfid fid).length = 10 := Text.length_zeroPad h

theorem isDigit_of_mem_nfid {fid : ℕ} {c : Char} (h : c ∈ nfid fid) : c.isDigit = true := Text.isDigit_of_mem_zeroPad h

theorem mem_nfid_of_mem_hdirComps {digits comp : Text} (h : comp ∈ hdirComps digits) : comp ⊆ digits := by
  intro c hc
  simp only [hdirComps, List.mem_cons, List.not_mem_nil, or_false] at h
  rcases h with rfl | rfl | rfl
  · exact List.mem_of_mem_take hc
  · exact List.mem_of_mem_drop (List.mem_of_mem_take hc)
  · exact List.mem_of_mem_drop (List.mem_of_mem_take hc)

theorem slash_not_mem_hdirComps {fid : ℕ} : ∀ comp ∈ hdirComps (nfid fid), '/' ∉ comp := by
  intro comp hcomp hmem
  exact absurd (isDigit_of_mem_nfid (mem_nfid_of_mem_hdirComps hcomp hmem)) (by decide)

theorem slash_not_mem_fidComps {fid : ℕ} : ∀ comp ∈ fidComps fid, '/' ∉ comp := by
  intro comp hcomp hmem
  rcases List.mem_append.mp hcomp with hcomp | hcomp
  · exact slash_not_mem_hdirComps comp hcomp hmem
  · rw [List.mem_singleton.mp hcomp] at hmem
    rcases List.mem_append.mp hmem with hmem | hmem
    · exact absurd (isDigit_of_mem_nfid hmem) (by decide)
    · exact absurd hmem (by decide)

theorem hdirComps_prefix_fidComps (fid : ℕ) : hdirComps (nfid fid) <+: fidComps fid := List.prefix_append _ _

theorem fidComps_injective : Function.Injective fidComps := fun fid fid' h => by
  have hlast := congrArg List.getLast? h
  rw [fidComps, fidComps, List.getLast?_concat, List.getLast?_concat, Option.some.injEq] at hlast
  exact Text.zeroPad_injective 10 (List.append_cancel_right hlast)

theorem filePath_injective (base : Text) : Function.Injective (filePath base) := fun _ _ h =>
  fidComps_injective (joinPath_injective slash_not_mem_fidComps slash_not_mem_fidComps h)

/-! ### Order -/

theorem nfid_lt_nfid {fid fid' : ℕ} (h : fid < fid') (hfid' : fid' < 10 ^ 10) : nfid fid < nfid fid' :=
  Text.zeroPad_lt_zeroPad h hfid'

theorem cons_take_le {t t' : Text} {xs ys : List Text} (n : ℕ) (hlength : t.length = t'.length) (h : t ≤ t')
    (hrest : t.drop n ≤ t'.drop n → xs ≤ ys) : t.take n :: xs ≤ t'.take n :: ys := by
  rw [← List.take_append_drop n t, ← List.take_append_drop n t', append_le_append_iff (by
    rw [List.length_take, List.length_take, hlength])] at h
  exact cons_le_cons_iff.mpr (h.imp_right (And.imp_right hrest))

theorem hdirComps_le {fid fid' : ℕ} (h : fid ≤ fid') (hfid' : fid' < 10 ^ 10) :
    hdirComps (nfid fid) ≤ hdirComps (nfid fid') := by
  have hlength : (nfid fid).length = (nfid fid').length := by
    rw [length_nfid (h.trans_lt hfid'), length_nfid hfid']
  have hdigits : nfid fid ≤ nfid fid' := by
    rcases h.lt_or_eq with hlt | rfl
    · exact (nfid_lt_nfid hlt hfid').le
    · exact le_rfl
  refine cons_take_le 1 hlength hdigits fun h1 => ?_
  refine cons_take_le 3 (by rw [List.length_drop, List.length_drop, hlength]) h1 fun h2 => ?_
  rw [List.drop_drop, List.drop_drop] at h2
  refine cons_take_le 3 (by rw [List.length_drop, List.length_drop, hlength]) h2 fun _ => le_rfl

theorem fidComps_lt {fid fid' : ℕ} (h : fid < fid') (hfid' : fid' < 10 ^ 10) : fidComps fid < fidComps fid' := by
  have hlength : (hdirComps (nfid fid)).length = (hdirComps (nfid fid')).length := rfl
  rw [fidComps, fidComps, append_lt_append_iff hlength]
  have hname : nfid fid ++ ".fid".toList < nfid fid' ++ ".fid".toList := by
    rw [append_lt_append_iff (by rw [length_nfid (h.trans hfid'), length_nfid hfid'])]
    exact .inl (nfid_lt_nfid h hfid')
  rcases (hdirComps_le h.le hfid').lt_or_eq with hlt | heq
  · exact .inl hlt
  · exact .inr ⟨heq, List.cons_lt_cons_iff.mpr (.inl hname)⟩

theorem lt_of_names_lt {cs : List Text} {name name' : Text} {fid fid' : ℕ} (hname : name < name')
    (h : cs ++ [name] <+: fidComps fid) (h' : cs ++ [name'] <+: fidComps fid') (hfid : fid < 10 ^ 10) : fid < fid' := by
  have hcomps : fidComps fid < fidComps fid' := by
    obtain ⟨rest, hrest⟩ := h
    obtain ⟨rest', hrest'⟩ := h'
    rw [← hrest, ← hrest', List.append_assoc, List.append_assoc]
    exact List.append_left_lt (List.cons_lt_cons_iff.mpr (.inl hname))
  by_contra hle
  rcases (not_lt.mp hle).lt_or_eq with hlt | rfl
  · exact absurd (hcomps.trans (fidComps_lt hlt hfid)) (lt_irrefl _)
  · exact absurd hcomps (lt_irrefl _)

/-! ### The names in a directory -/

namespace DeviceTree

variable {fs : FileSystem} {base : Text} (tree : DeviceTree fs base)

include tree

theorem lt_of_stored {fid : ℕ} (h : Stored fs base fid) : fid < 10 ^ 10 := by
  obtain ⟨file, hfile, hpath⟩ := List.mem_map.mp h
  have hbelow : isBelow base file.1 = true := by
    rw [hpath]
    exact isBelow_joinPath_cons base _ _
  obtain ⟨fid', hlt, heq, -⟩ := tree.files file hfile hbelow
  obtain rfl : fid = fid' := filePath_injective base (hpath.symm.trans heq)
  exact hlt

theorem exists_comps {path : Text} (hpath : path ∈ fs.paths) (hbelow : isBelow base path = true) :
    ∃ fid < 10 ^ 10, ∃ comps, comps <+: fidComps fid ∧ path = joinPath base comps ∧
      (path ∈ fs.files.map Prod.fst ∧ comps = fidComps fid ∨ path ∈ fs.dirs ∧ comps.length ≤ 3) := by
  rcases mem_paths.mp hpath with hfile | hdir
  · obtain ⟨file, hmem, rfl⟩ := List.mem_map.mp hfile
    obtain ⟨fid, hlt, heq, -⟩ := tree.files file hmem hbelow
    exact ⟨fid, hlt, fidComps fid, List.prefix_rfl, heq, .inl ⟨hfile, rfl⟩⟩
  · obtain ⟨fid, hlt, comps, hcomps, heq⟩ := tree.dirs path hdir hbelow
    exact ⟨fid, hlt, comps, hcomps.trans (hdirComps_prefix_fidComps fid), heq, .inr ⟨hdir, hcomps.length_le⟩⟩

theorem exists_of_name {cs : List Text} {name : Text} (hcs : ∀ c ∈ cs, '/' ∉ c)
    (h : name ∈ fs.names (joinPath base cs)) : ∃ fid < 10 ^ 10, ∃ rest, cs ++ name :: rest <+: fidComps fid ∧
      (Stored fs base fid ∧ cs ++ name :: rest = fidComps fid ∨
        joinPath base (cs ++ name :: rest) ∈ fs.dirs ∧ (cs ++ name :: rest).length ≤ 3) := by
  obtain ⟨rest, hslash, hmem⟩ := exists_of_mem_names hcs (fun path hpath hbelow => by
    obtain ⟨fid, -, comps, hpre, heq, -⟩ := tree.exists_comps hpath (isBelow_of_isBelow_joinPath hbelow)
    exact ⟨comps, fun d hd => slash_not_mem_fidComps d (hpre.subset hd), heq⟩) h
  obtain ⟨fid, hlt, comps, hpre, heq, hkind⟩ :=
    tree.exists_comps hmem (isBelow_of_isBelow_joinPath (isBelow_joinPath base cs name rest))
  obtain rfl : cs ++ name :: rest = comps :=
    joinPath_injective hslash (fun d hd => slash_not_mem_fidComps d (hpre.subset hd)) heq
  refine ⟨fid, hlt, rest, hpre, hkind.imp_left fun ⟨hfile, hcomps⟩ => ⟨?_, hcomps⟩⟩
  rwa [Stored, filePath, ← hcomps]

/-- A directory above those of the files has directories in it, on the way to fids. -/
theorem subdir_of_name {cs : List Text} {name : Text} (hcs : ∀ c ∈ cs, '/' ∉ c) (hlength : cs.length < 3)
    (h : name ∈ fs.names (joinPath base cs)) :
    ∃ fid < 10 ^ 10, cs ++ [name] <+: hdirComps (nfid fid) ∧ fs.isDir (joinPath base (cs ++ [name])) = true := by
  obtain ⟨fid, hlt, rest, hpre, hkind⟩ := tree.exists_of_name hcs h
  have hsplit : cs ++ name :: rest = cs ++ [name] ++ rest := by
    rw [List.append_assoc, List.singleton_append]
  rw [hsplit] at hpre hkind
  have hshort : cs ++ [name] <+: hdirComps (nfid fid) := by
    refine List.prefix_of_prefix_length_le ((List.prefix_append _ rest).trans hpre) (hdirComps_prefix_fidComps fid) ?_
    rw [List.length_append, List.length_singleton]
    exact hlength
  refine ⟨fid, hlt, hshort, isDir_iff.mpr ?_⟩
  cases rest with
  | nil =>
    rw [List.append_nil] at hkind
    rcases hkind with ⟨-, hcomps⟩ | ⟨hdir, -⟩
    · have hfour := congrArg List.length hcomps
      rw [List.length_append, List.length_singleton, fidComps, List.length_append] at hfour
      have hthree : (hdirComps (nfid fid)).length = 3 := rfl
      rw [hthree, List.length_singleton] at hfour
      omega
    · exact .inl hdir
  | cons next rest =>
    refine .inr ⟨joinPath base (cs ++ [name] ++ next :: rest), mem_paths.mpr ?_, isBelow_joinPath _ _ _ _⟩
    rcases hkind with ⟨hstored, hcomps⟩ | ⟨hdir, -⟩
    · rw [hcomps]
      exact .inl hstored
    · exact .inr hdir

theorem file_of_name {cs : List Text} {name : Text} (hcs : ∀ c ∈ cs, '/' ∉ c) (hlength : cs.length = 3)
    (h : name ∈ fs.names (joinPath base cs)) : ∃ fid, Stored fs base fid ∧ cs ++ [name] = fidComps fid := by
  obtain ⟨fid, -, rest, hpre, ⟨hstored, hcomps⟩ | ⟨-, hthree⟩⟩ := tree.exists_of_name hcs h
  · have hfour := congrArg List.length hcomps
    rw [List.length_append, List.length_cons, hlength] at hfour
    have hfive : (fidComps fid).length = 4 := rfl
    obtain rfl : rest = [] := List.eq_nil_of_length_eq_zero (by omega)
    exact ⟨fid, hstored, hcomps⟩
  · rw [List.length_append, List.length_cons] at hthree
    omega

omit tree in
theorem name_of_stored {cs : List Text} {name : Text} {fid : ℕ} (h : Stored fs base fid)
    (hpre : cs ++ [name] <+: fidComps fid) : name ∈ fs.names (joinPath base cs) := by
  obtain ⟨rest, hrest⟩ := hpre
  rw [List.append_assoc, List.singleton_append] at hrest
  have hname : '/' ∉ name := slash_not_mem_fidComps name (hrest ▸ List.mem_append_right _ List.mem_cons_self)
  have hmem : joinPath base (cs ++ name :: rest) ∈ fs.files.map Prod.fst := by
    rwa [hrest]
  exact mem_names_of_mem hname (mem_paths.mpr (.inl hmem))

theorem not_hdir_of_file {file : Text × ℕ} {fid : ℕ} (hfile : file ∈ fs.files) (hbelow : isBelow base file.1 = true) :
    file.1 ≠ joinPath base (hdirComps (nfid fid)) ∧ isBelow file.1 (joinPath base (hdirComps (nfid fid))) = false := by
  obtain ⟨fid', -, heq, -⟩ := tree.files file hfile hbelow
  rw [heq]
  constructor
  · intro hpath
    have hcomps := joinPath_injective slash_not_mem_fidComps slash_not_mem_hdirComps hpath
    exact absurd (congrArg List.length hcomps) (by simp [fidComps, hdirComps])
  · rw [Bool.eq_false_iff]
    intro habove
    obtain ⟨name, rest, hcomps⟩ := (isBelow_joinPath_iff slash_not_mem_fidComps slash_not_mem_hdirComps).mp habove
    exact absurd (congrArg List.length hcomps) (by simp [fidComps, hdirComps])

theorem not_base_of_file {file : Text × ℕ} (hfile : file ∈ fs.files) : file.1 ≠ base ∧ isBelow file.1 base = false := by
  have hnot := tree.notDir file hfile
  constructor
  · rintro rfl
    exact Bool.false_ne_true (hnot.symm.trans tree.isDir)
  · rw [Bool.eq_false_iff]
    exact fun habove => Bool.false_ne_true (hnot.symm.trans (isDir_of_isBelow habove tree.isDir))

theorem isBelow_of_above {file : Text × ℕ} {path : Text} (hfile : file ∈ fs.files) (habove : isBelow file.1 path = true)
    (hpath : isBelow base path = true) : isBelow base file.1 = true := by
  obtain ⟨hne, hbase⟩ := tree.not_base_of_file hfile
  rw [Bool.eq_false_iff, Ne, isBelow_iff] at hbase
  rw [isBelow_iff] at habove hpath ⊢
  rcases List.prefix_or_prefix_of_prefix habove hpath with h | h
  · rcases List.prefix_concat_iff.mp h with h | h
    · exact absurd (List.append_cancel_right h) hne
    · exact absurd h hbase
  · rcases List.prefix_concat_iff.mp h with h | h
    · exact absurd (List.append_cancel_right h).symm hne
    · exact h

/-- A directory of a thousand can be opened, or nothing leads to it. -/
theorem opendir_hdir {fid : ℕ} : fs.opendir (joinPath base (hdirComps (nfid fid))) =
    if fs.isDir (joinPath base (hdirComps (nfid fid))) then
      .entries (".".toList :: "..".toList :: fs.names (joinPath base (hdirComps (nfid fid))))
    else .enoent := by
  have hfile : (fs.files.any fun file => file.1 == joinPath base (hdirComps (nfid fid)) ||
      isBelow file.1 (joinPath base (hdirComps (nfid fid)))) = false := by
    rw [List.any_eq_false]
    intro file hfile
    have hpath : isBelow base (joinPath base (hdirComps (nfid fid))) = true := isBelow_joinPath_cons base _ _
    rw [Bool.or_eq_true, beq_iff_eq]
    rintro (heq | habove)
    · exact (tree.not_hdir_of_file hfile (heq ▸ hpath)).1 heq
    · exact Bool.false_ne_true
        ((tree.not_hdir_of_file hfile (tree.isBelow_of_above hfile habove hpath)).2.symm.trans habove)
  rw [opendir, hfile]
  rfl

end DeviceTree

end Ylem
