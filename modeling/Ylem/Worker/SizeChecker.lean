import Ylem.DevFid
import Ylem.Mogstored.FidSizes

/-!
# Fsck's bulk size checker

Fsck asks a storage node once for the sizes of all fids of a batch on a device, and looks the fids up in
the answer; a fid that is not there counts as missing. Only where the node has no answer does it ask for
each fid. The two agree as long as the node finds the files where the tracker puts them. It does not: the
tracker's paths lead through the directory of the volume, which the node's walk leaves out, so that the
answer is always empty (`fidSizes_nothing`).
-/

namespace Ylem

open Mogstored.FidSizes

namespace Worker.Fsck

/-- Read the answer: the map from fids to sizes, where it is complete. -/
def readSizes (devid : ℕ) : List SizeLine → List (ℕ × ℕ) → Option (List (ℕ × ℕ))
  | .dot :: _, map => some map
  | .entry resDevid fid size :: lines, map =>
    if resDevid ≠ devid then none else readSizes devid lines ((fid, size) :: map)
  | .err :: _, _ => none
  | [], _ => none

/-- The size checker for a fid on a device: `reply` is the answer of the node to the bulk request, nothing
without a connection, and `sizeOnDisk` that to a request for the fid alone. -/
def sizeChecker (devid : ℕ) (reply : Option (List SizeLine)) (sizeOnDisk : ℕ → ℕ) (fid : ℕ) : ℕ :=
  match reply.bind fun lines => readSizes devid lines [] with
  | some map => (map.lookup fid).getD 0
  | none => sizeOnDisk fid

end Worker.Fsck

/-! ### The files of a device -/

/-- The files of a device, where `DevFID::uri_path` puts them: fids with their sizes. -/
structure StoredFiles where
  docroot : Text
  volid : Text
  devid : ℕ
  files : List (ℕ × ℕ)
  dirSize : ℕ
  nodup : (files.map Prod.fst).Nodup

namespace StoredFiles

variable (s : StoredFiles)

def uri (fid : ℕ) : Text := uriPath s.volid (Text.decimal s.devid) fid

/-- The file system of the node. -/
def fileSystem : FileSystem where
  files := s.files.map fun file => (s.docroot ++ s.uri file.1, file.2)
  dirs := [deviceBase s.docroot s.devid]
  dirSize := s.dirSize

/-- The node's list for a range. -/
def listed (lo hi : ℕ) : Except Text (List (ℕ × ℕ)) :=
  doOneDevice s.fileSystem lo hi (deviceBase s.docroot s.devid)

/-- What the bulk checker returns for a fid of the batch from `lo` to `hi`. -/
def bulkSize (lo hi fid : ℕ) : ℕ :=
  Worker.Fsck.sizeChecker s.devid (some (fidSizesReply s.fileSystem s.docroot lo hi [s.devid]))
    (fun fid => sizeReply s.fileSystem s.docroot (s.uri fid)) fid

/-- Tracker and node agree on a range: the node lists the files in the range, each with its size, and the
bulk checker returns what a request for the fid alone would. -/
structure Agrees (lo hi : ℕ) : Prop where
  lists : ∃ entries, s.listed lo hi = .ok entries ∧ entries.Nodup ∧
    ∀ entry, entry ∈ entries ↔ entry ∈ s.files ∧ lo ≤ entry.1 ∧ entry.1 ≤ hi
  sizes : ∀ fid, lo ≤ fid → fid ≤ hi →
    s.bulkSize lo hi fid = sizeReply s.fileSystem s.docroot (s.uri fid)

/-! ### Paths -/

theorem path_eq (fid : ℕ) :
    ∃ rest, s.docroot ++ s.uri fid = deviceBase s.docroot s.devid ++ '/' :: 'v' :: rest := by
  obtain ⟨rest, hrest⟩ := uriPath_eq_vol_append s.volid (Text.decimal s.devid) fid
  refine ⟨"ol".toList ++ rest, ?_⟩
  rw [uri, hrest, deviceBase, List.append_assoc, List.append_assoc, List.append_assoc]
  rfl

theorem hdirPath_eq (base : Text) (hdir : ℕ) :
    ∃ c rest, c.isDigit = true ∧ hdirPath base (Text.zeroPad 7 hdir) = base ++ '/' :: c :: rest := by
  obtain ⟨c, rest, hnfid⟩ := List.exists_cons_of_ne_nil (Text.zeroPad_ne_nil 7 hdir)
  have hdigit : c.isDigit = true := Text.isDigit_of_mem_zeroPad (w := 7) (n := hdir) (by simp [hnfid])
  refine ⟨c, '/' :: (rest.take 3) ++ '/' :: ((rest.drop 3).take 3), hdigit, ?_⟩
  rw [hdirPath, hnfid]
  simp only [List.take_succ_cons, List.take_zero, List.drop_succ_cons, List.drop_zero, List.append_assoc,
    List.cons_append, List.nil_append]

theorem slash_not_mem_nfid (fid : ℕ) : '/' ∉ nfid fid ++ ".fid".toList := by
  intro hmem
  rcases List.mem_append.mp hmem with hmem | hmem
  · exact absurd (Text.isDigit_of_mem_zeroPad hmem) (by decide)
  · exact absurd hmem (by decide)

theorem uri_injective : Function.Injective s.uri := by
  intro fid fid' h
  obtain ⟨dir, hdir⟩ := uriPath_eq_dir_append s.volid (Text.decimal s.devid) fid
  obtain ⟨dir', hdir'⟩ := uriPath_eq_dir_append s.volid (Text.decimal s.devid) fid'
  rw [uri, uri, hdir, hdir'] at h
  have hname := Text.last_piece_inj h (slash_not_mem_nfid fid) (slash_not_mem_nfid fid')
  exact Text.zeroPad_injective 10 (List.append_cancel_right hname)

/-! ### The node finds nothing -/

theorem opendir_hdirPath (hdir : ℕ) :
    s.fileSystem.opendir (hdirPath (deviceBase s.docroot s.devid) (Text.zeroPad 7 hdir)) = .enoent := by
  obtain ⟨c, rest, hdigit, hpath⟩ := hdirPath_eq (deviceBase s.docroot s.devid) hdir
  have hv : c ≠ 'v' := by
    rintro rfl
    exact absurd hdigit (by decide)
  have hfile : ∀ file ∈ s.fileSystem.files, ∃ r, file.1 = deviceBase s.docroot s.devid ++ '/' :: 'v' :: r := by
    intro file hmem
    obtain ⟨stored, -, rfl⟩ := List.mem_map.mp hmem
    exact s.path_eq stored.1
  rw [hpath]
  apply FileSystem.opendir_enoent
  · intro hmem
    have hlen := congrArg List.length (List.mem_singleton.mp hmem)
    simp at hlen
  · intro path hmem hpre
    rcases List.mem_append.mp hmem with hmem | hmem
    · obtain ⟨file, hin, rfl⟩ := List.mem_map.mp hmem
      obtain ⟨r, hr⟩ := hfile file hin
      rw [hr, List.append_assoc, List.prefix_append_right_inj] at hpre
      simp only [List.cons_append, List.cons_prefix_cons] at hpre
      exact hv hpre.2.1
    · have hlen := hpre.length_le
      rw [List.mem_singleton.mp hmem] at hlen
      simp at hlen
  · intro file hmem
    obtain ⟨r, hr⟩ := hfile file hmem
    rw [hr]
    constructor
    · intro heq
      have htail := List.append_cancel_left heq
      simp only [List.cons.injEq, true_and] at htail
      exact hv htail.1.symm
    · intro hpre
      rw [List.append_assoc, List.prefix_append_right_inj] at hpre
      simp only [List.cons_append, List.cons_prefix_cons] at hpre
      exact hv hpre.2.1.symm

/-- The node's list is empty, whatever is stored. -/
theorem fidSizes_nothing {lo hi : ℕ} (hle : lo ≤ hi) (hhi : hi < 10 ^ 10) : s.listed lo hi = .ok [] := by
  have hbase : s.fileSystem.isDir (deviceBase s.docroot s.devid) = true := by
    simp [FileSystem.isDir, fileSystem]
  rw [listed, doOneDevice, hbase, Bool.not_true, if_neg Bool.false_ne_true, if_neg (by omega),
    if_neg (by omega), if_neg (by omega)]
  refine readHdirs_enoent (fun hdir _ => s.opendir_hdirPath hdir) []

theorem bulkSize_eq_zero {lo hi : ℕ} (hle : lo ≤ hi) (hhi : hi < 10 ^ 10) (fid : ℕ) :
    s.bulkSize lo hi fid = 0 := by
  have hlist := s.fidSizes_nothing hle hhi
  unfold listed at hlist
  have hreply : fidSizesReply s.fileSystem s.docroot lo hi [s.devid] = [.dot] := by
    unfold fidSizesReply gwFidsizes
    simp only [List.mapM_cons, List.mapM_nil, hlist]
    rfl
  rw [bulkSize, hreply]
  rfl

theorem sizeReply_of_not_stored {fid : ℕ} (h : ∀ file ∈ s.files, file.1 ≠ fid) :
    sizeReply s.fileSystem s.docroot (s.uri fid) = 0 := by
  have hnone : s.fileSystem.fileSize (s.docroot ++ s.uri fid) = none := by
    rw [FileSystem.fileSize, Option.map_eq_none_iff, List.find?_eq_none]
    intro file hmem
    obtain ⟨stored, hstored, rfl⟩ := List.mem_map.mp hmem
    rw [beq_iff_eq]
    exact fun heq => h stored hstored (s.uri_injective (List.append_cancel_left heq))
  rw [sizeReply, hnone]
  rfl

/-- Tracker and node agree on a range exactly if no file of the device is in it. -/
theorem agrees_iff (s : StoredFiles) {lo hi : ℕ} (hle : lo ≤ hi) (hhi : hi < 10 ^ 10) :
    s.Agrees lo hi ↔ ∀ file ∈ s.files, ¬ (lo ≤ file.1 ∧ file.1 ≤ hi) := by
  constructor
  · rintro ⟨⟨entries, hlist, -, hentries⟩, -⟩ file hfile hrange
    rw [s.fidSizes_nothing hle hhi] at hlist
    obtain rfl := Except.ok.inj hlist
    exact absurd ((hentries file).mpr ⟨hfile, hrange⟩) List.not_mem_nil
  · intro hnone
    refine ⟨⟨[], s.fidSizes_nothing hle hhi, List.nodup_nil, fun entry => ?_⟩, fun fid hlo hfid => ?_⟩
    · exact iff_of_false List.not_mem_nil fun h => hnone entry h.1 h.2
    · rw [s.bulkSize_eq_zero hle hhi, s.sizeReply_of_not_stored]
      rintro file hfile rfl
      exact hnone file hfile ⟨hlo, hfid⟩

/-- A file of seven bytes, fid 1 on device 3 of volume 0. -/
def oneFile : StoredFiles where
  docroot := "/var/mogdata".toList
  volid := "0".toList
  devid := 3
  files := [(1, 7)]
  dirSize := 4096
  nodup := by decide

/-- Beyond its fid, tracker and node agree that there is nothing. -/
theorem oneFile_agrees_beyond : oneFile.Agrees 2 1001 :=
  (agrees_iff oneFile (by omega) (by omega)).mpr (by decide)

/-- The node does not list the file, and the bulk checker takes it for missing. -/
theorem oneFile_not_agrees :
    oneFile.listed 0 1000 = .ok [] ∧ oneFile.bulkSize 0 1000 1 = 0 ∧
      sizeReply oneFile.fileSystem oneFile.docroot (oneFile.uri 1) = 7 ∧ ¬ oneFile.Agrees 0 1000 := by
  have hrun : oneFile.listed 0 1000 = .ok [] ∧ oneFile.bulkSize 0 1000 1 = 0 ∧
      sizeReply oneFile.fileSystem oneFile.docroot (oneFile.uri 1) = 7 := by
    decide +kernel
  refine ⟨hrun.1, hrun.2.1, hrun.2.2, fun h => ?_⟩
  have hsize := h.sizes 1 (by omega) (by omega)
  rw [hrun.2.1, hrun.2.2] at hsize
  omega

end StoredFiles

end Ylem
