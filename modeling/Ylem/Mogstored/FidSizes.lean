import Ylem.Lib.FileSystem

/-!
# The sizes of a range of fids

The storage node's answer to a `fid_sizes` request: `do_one_device` walks the directories of the thousands
in the range, below the directory of the device, and lists the files that are named after a fid. The three
digits that pick a file in a directory, and those that pick the directory, are the digits of the fid; the
directory of the volume is not on the way.
-/

namespace Ylem

namespace Mogstored.FidSizes

/-- `$file =~ m/\Q$nfid\E(\d{3})\.fid/`, at the beginning of the text. -/
def matchHere (nfid file : Text) : Option Text :=
  let hhh := (file.drop nfid.length).take 3
  if nfid.isPrefixOf file && hhh.length == 3 && hhh.all Char.isDigit &&
      ".fid".toList.isPrefixOf (file.drop (nfid.length + 3)) then some hhh
  else none

/-- The same anywhere in the text; the first match counts. -/
def matchFid (nfid : Text) : Text → Option Text
  | [] => none
  | c :: file => (matchHere nfid (c :: file)).or (matchFid nfid file)

/-- `"$base/$b/$mmm/$ttt"` for the seven digits of a thousand. -/
def hdirPath (base nfid : Text) : Text :=
  base ++ '/' :: nfid.take 1 ++ '/' :: (nfid.drop 1).take 3 ++ '/' :: (nfid.drop 4).take 3

section Walk

variable (fs : FileSystem) (start stop : ℕ) (base : Text)

/-- The files of one directory, after those that have been listed already. -/
def readFiles (hdir : ℕ) : List Text → List (ℕ × ℕ) → Except Text (List (ℕ × ℕ))
  | [], files => .ok files
  | file :: names, files =>
    let nfid := Text.zeroPad 7 hdir
    if file = ".".toList ∨ file = "..".toList then readFiles hdir names files
    else match matchFid nfid file with
      -- a spurious file
      | none => readFiles hdir names files
      | some hhh =>
        if (hdir = start / 1000 ∧ Text.ofDigits hhh < start % 1000) ∨
            (hdir = stop / 1000 ∧ stop % 1000 < Text.ofDigits hhh) then readFiles hdir names files
        else
          let size := (fs.statSize (hdirPath base nfid ++ '/' :: file)).getD 0
          let files := files ++ [(Text.ofDigits (nfid ++ hhh), size)]
          if 10000 < files.length then .error "Results too large".toList else readFiles hdir names files

/-- The directories of the range. -/
def readHdirs : List ℕ → List (ℕ × ℕ) → Except Text (List (ℕ × ℕ))
  | [], files => .ok files
  | hdir :: hdirs, files =>
    let path := hdirPath base (Text.zeroPad 7 hdir)
    match fs.opendir path with
    | .enoent => readHdirs hdirs files
    | .enotdir => .error ("Unable to read directory ".toList ++ path ++ ": Not a directory\n".toList)
    | .entries names =>
      match readFiles fs start stop base hdir (names.insertionSort (· ≤ ·)) files with
      | .error e => .error e
      | .ok files => readHdirs hdirs files

def doOneDevice : Except Text (List (ℕ × ℕ)) :=
  if !fs.isDir base then .error ('\'' :: base ++ "' isn't a directory".toList)
  else if stop < start then .error "end cannot come before start".toList
  else if 9999999999 < start then .error "start out of range".toList
  else if 9999999999 < stop then .error "end out of range".toList
  else readHdirs fs start stop base
    ((List.range (stop / 1000 - start / 1000 + 1)).map fun i => start / 1000 + i) []

end Walk

/-- `"$docroot/dev$device"`. -/
def deviceBase (docroot : Text) (devid : ℕ) : Text := docroot ++ "/dev".toList ++ Text.decimal devid

def gwFidsizes (fs : FileSystem) (docroot : Text) (start stop : ℕ) (devices : List ℕ) :
    Except Text (List (ℕ × List (ℕ × ℕ))) :=
  devices.mapM fun device =>
    (doOneDevice fs start stop (deviceBase docroot device)).map fun entries => (device, entries)

/-- A line of the side channel: an entry, the dot that ends the answer, or an error. -/
inductive SizeLine where
  | entry (devid fid size : ℕ)
  | dot
  | err
  deriving DecidableEq

/-- The side channel's answer to `fid_sizes start-stop devices`. -/
def fidSizesReply (fs : FileSystem) (docroot : Text) (start stop : ℕ) (devices : List ℕ) : List SizeLine :=
  match gwFidsizes fs docroot start stop devices with
  | .error _ => [.err]
  | .ok devices =>
    (devices.flatMap fun device => device.2.map fun entry => .entry device.1 entry.1 entry.2) ++ [.dot]

/-- The side channel's answer to `size uri`, `0` for a file that is missing. -/
def sizeReply (fs : FileSystem) (docroot uri : Text) : ℕ := (fs.fileSize (docroot ++ uri)).getD 0

/-- Where no directory of the range exists, nothing is listed. -/
theorem readHdirs_enoent {fs : FileSystem} {start stop : ℕ} {base : Text} {hdirs : List ℕ}
    (h : ∀ hdir ∈ hdirs, fs.opendir (hdirPath base (Text.zeroPad 7 hdir)) = .enoent) (files : List (ℕ × ℕ)) :
    readHdirs fs start stop base hdirs files = .ok files := by
  induction hdirs with
  | nil => rfl
  | cons hdir hdirs ih =>
    rw [readHdirs, h hdir List.mem_cons_self]
    exact ih fun x hx => h x (List.mem_cons_of_mem _ hx)

end Mogstored.FidSizes

end Ylem
