import Ylem.Lib.FileSystem

/-!
# The walk over a device's fids

`Mogstored::FIDStatter`: `run` reports the fids of a range with what it takes for their sizes, from the
directory of a device down through the directories of the fids' first seven digits. A directory is passed
over if the directories that it could hold all lie outside the range, which is decided by comparing padded
names as strings; so is a file. What is reported is the tenth field of `stat`, the time of modification.
-/

namespace Ylem

namespace Mogstored.FidStatter

/-- What a walk has reported to `on_fid`, fids with sizes, and what it died of. -/
@[ext]
structure Walk where
  reports : List (ℕ × ℤ)
  died : Option Text
  deriving DecidableEq

namespace Walk

def nothing : Walk := ⟨[], none⟩

/-- The walk goes on, unless it has died. -/
def andThen (w w' : Walk) : Walk :=
  match w.died with
  | none => ⟨w.reports ++ w'.reports, w'.died⟩
  | some _ => w

end Walk

/-! ### Patterns -/

/-- `$`: the end, also before a newline. -/
def atEnd (t : Text) : Bool := t == [] || t == ['\n']

/-- `qr/^\d$/` and `qr/^\d{3}$/`. -/
def isDirName (digits : ℕ) (name : Text) : Bool :=
  (name.take digits).length == digits && (name.take digits).all Char.isDigit && atEnd (name.drop digits)

/-- `qr/^\d+\.fid$/`. -/
def isFidName (name : Text) : Bool :=
  let digits := name.takeWhile Char.isDigit
  let rest := name.dropWhile Char.isDigit
  digits != [] && ".fid".toList.isPrefixOf rest && atEnd (rest.drop 4)

/-- What `/^0*(\d+)\.fid$/` captures of such a name: the digits without leading zeros, the last one even if
it is a zero. -/
def fidOf (name : Text) : Text :=
  let digits := (name.takeWhile Char.isDigit).dropWhile (· == '0')
  if digits = [] then ['0'] else digits

/-! ### Padding -/

def zeropad (fid : Text) : Text := List.replicate (25 - fid.length) '0' ++ fid

/-- The directory that a fid will be in. -/
def dir (fid : Text) : Text :=
  let fid := fid.dropWhile (· == '0')
  let fid := if fid.length < 10 then List.replicate (10 - fid.length) '0' ++ fid else fid
  fid.take 1 ++ '/' :: (fid.drop 1).take 3 ++ '/' :: (fid.drop 4).take 3 ++ ['/']

def padDir (dir pad : Text) : Except Text Text :=
  if dir.length = 2 then .ok (dir ++ pad ++ '/' :: pad ++ ['/'])
  else if dir.length = 6 then .ok (dir ++ pad ++ ['/'])
  else if dir.length = 10 then .ok dir
  else .error ("how do I pad '".toList ++ dir ++ "' ?".toList)

def maxSubdir (dir : Text) : Except Text Text := padDir dir "999".toList

def minSubdir (dir : Text) : Except Text Text := padDir dir "000".toList

def dirInRange (minDir maxDir dir : Text) : Except Text Bool :=
  match maxSubdir dir with
  | .error e => .error e
  | .ok max =>
    if max < minDir then .ok false
    else match minSubdir dir with
      | .error e => .error e
      | .ok min => .ok (!decide (maxDir < min))

def fileInRange (minZpad maxZpad fid : Text) : Bool :=
  decide (minZpad ≤ zeropad fid) && decide (zeropad fid ≤ maxZpad)

/-! ### The walk -/

section Run

variable (fs : FileSystem) (mtime : Text → ℤ)

/-- `$code` for the names that match, in the order of strings. -/
def foreachDentry (dir : Text) (re : Text → Bool) (code : Text → Text → Walk) : Walk :=
  match fs.opendir dir with
  | .enoent => ⟨[], some ("Failed to open ".toList ++ dir ++ ": No such file or directory".toList)⟩
  | .enotdir => ⟨[], some ("Failed to open ".toList ++ dir ++ ": Not a directory".toList)⟩
  | .entries names =>
    ((names.filter re).insertionSort (· ≤ ·)).foldr (fun name rest => (code name (dir ++ '/' :: name)).andThen rest)
      Walk.nothing

/-- `return unless $dir_in_range->($dir)`. -/
def unlessOutOfRange (minDir maxDir dir : Text) (code : Walk) : Walk :=
  match dirInRange minDir maxDir dir with
  | .error e => ⟨[], some e⟩
  | .ok false => Walk.nothing
  | .ok true => code

/-- One file: `stat` gives `0`, or nothing, for a size that is not reported. -/
def visitFile (minZpad maxZpad file fullfile : Text) : Walk :=
  let fid := fidOf file
  if fileInRange minZpad maxZpad fid then
    let size := mtime fullfile
    if size ≠ 0 then ⟨[(Text.ofDigits fid, size)], none⟩ else Walk.nothing
  else Walk.nothing

def run (base fromFid toFid : Text) : Walk :=
  let minDir := dir fromFid
  let maxDir := dir toFid
  let minZpad := zeropad fromFid
  let maxZpad := zeropad toFid
  foreachDentry fs base (isDirName 1) fun bdir dir =>
    unlessOutOfRange minDir maxDir (bdir ++ ['/']) <|
    foreachDentry fs dir (isDirName 3) fun mdir dir =>
      unlessOutOfRange minDir maxDir (bdir ++ '/' :: mdir ++ ['/']) <|
      foreachDentry fs dir (isDirName 3) fun tdir dir =>
        unlessOutOfRange minDir maxDir (bdir ++ '/' :: mdir ++ '/' :: tdir ++ ['/']) <|
        foreachDentry fs dir isFidName (visitFile mtime minZpad maxZpad)

end Run

end Mogstored.FidStatter

end Ylem
