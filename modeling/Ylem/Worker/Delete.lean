import Ylem.Store
import Ylem.DevFid
import Ylem.Util

/-!
# The delete worker

One pass of the worker is `process_tempfiles`, `reenqueue_delayed_deletes` and `process_deletes`. The
first turns uploads that were never closed into deletions: it records a replica on every device that the
upload may have reached, enqueues the fid in `file_to_delete` and drops the row of `tempfile`. The last
takes pairs of a fid to delete and a device that has it, deletes the file there and forgets the replica;
a fid without replicas leaves `file_to_delete`, and one whose device cannot be reached is put off to
`file_to_delete_later`, from where the second brings it back.
-/

namespace Ylem

namespace Worker.Delete

/-! ### Uploads that were never closed -/

/-- The devids of a row of `tempfile`: none, unless the column is a list of numbers, which may end in a
newline. -/
def splitDevids (devids : Text) : List Text :=
  let line := if devids.getLast? = some '\n' then devids.dropLast else devids
  if (line.splitOn ',').all fun part => part != [] && part.all Char.isDigit then devids.splitOn ','
  else []

/-- The number that the database makes of one of them. -/
def devidOf (devid : Text) : ℕ := Text.ofDigits (devid.takeWhile Char.isDigit)

/-- Read the rows: those whose fid has a file lose their row of `tempfile`; the devfids and the fids of the
others are collected. Nothing for a fid that is zero, which no object can be made of. -/
def collectTempfiles : List (ℕ × Text) → List (ℕ × Text) → List ℕ →
    DbProg (Option (List (ℕ × Text) × List ℕ))
  | [], devfids, fidids => pure (some (devfids, fidids))
  | (fidid, devids) :: rows, devfids, fidids =>
    if fidid = 0 then pure none
    else do
      match ← sql (.selectFile fidid) with
      | some _ => do
        -- a bug or a race elsewhere: remove the tempfile row but don't delete the file
        sql (.deleteTempfiles [fidid])
        collectTempfiles rows devfids fidids
      | none =>
        collectTempfiles rows (devfids ++ (splitDevids devids).map fun devid => (fidid, devid))
          (fidids ++ [fidid])

/-- How a pass of the worker ends. -/
inductive PassResult where
  | done (didWork : Bool)
  | died (error : String)
  deriving DecidableEq

/-- `mass_insert_file_on`; nothing where it croaks on a false devid. -/
def massInsertFileOn (devfids : List (ℕ × Text)) : DbProg (Option Unit) :=
  if devfids.isEmpty then pure (some ())
  else if devfids.any fun devfid => devfid.2 = ['0'] then pure none
  else do
    let _ ← sql (.insertFileOn (devfids.map fun devfid => (devfid.1, devidOf devfid.2)))
    pure (some ())

/-- The rest of a pass, with what it has collected. -/
def enqueueCollected : Option (List (ℕ × Text) × List ℕ) → DbProg PassResult
  | none => pure (.died "Invalid fidid")
  | some (devfids, fidids) => do
    match ← massInsertFileOn devfids with
    | none => pure (.died "got a false devid")
    | some () =>
      -- a statement without values is a syntax error, on which `do` is false
      if fidids.isEmpty then pure (.died "file_to_delete insert failed")
      else do
        sql (.insertFileToDelete fidids)
        sql (.deleteTempfiles fidids)
        pure (.done true)

def processTempfiles (now tooOld : ℕ) : DbProg PassResult := do
  match ← sql (.selectOldTempfiles now tooOld) with
  | [] => pure (.done false)
  | tempfiles => do
    let collected ← collectTempfiles tempfiles [] []
    enqueueCollected collected

/-! ### Deleting -/

/-- What becomes of the connection to a device and of the request on it. -/
inductive DeleteReply where
  | noSock
  | status (code : ℕ)
  | garbage
  deriving DecidableEq

/-- The limits of a pass. -/
def deleteLimit : ℕ := 1000
def perBatch : ℕ := 100

/-- What a pass of `process_deletes` meets: the devices, the order that the shuffle gives the rows, the
tracker's volume, and the replies. -/
structure DeleteEnv where
  devs : DeviceMap
  zone : Zone
  volumeId : Option Text
  now : ℕ
  shuffle : List (ℕ × Option ℕ) → List (ℕ × Option ℕ)
  shuffle_perm : ∀ l, (shuffle l).Perm l
  reply : ℕ → ℕ → DeleteReply

/-- `$reschedule_fid`. -/
def rescheduleFid (now fid secs : ℕ) : DbProg Unit := do
  sql (.insertDeleteLater fid (now + secs))
  sql (.deleteFileToDelete fid)

/-- The request to a device that can be deleted from; nothing where the URL makes it die. -/
def deleteOn (env : DeleteEnv) (fid : ℕ) (dev : Device) : DbProg (Option Unit) :=
  match dev.host, env.volumeId with
  | none, _ => pure (some ())
  | some _, none => pure none
  | some _, some _ => do
    match env.reply fid dev.devid with
    | .noSock => rescheduleFid env.now fid (60 * 60 * 2)
    | .status code =>
      if (200 ≤ code ∧ code ≤ 299) ∨ code = 404 then sql (.deleteFileOn fid dev.devid)
      else rescheduleFid env.now fid (60 * 30)
    | .garbage => pure ()
    pure (some ())

/-- One row of `process_deletes`. -/
def processDelete (env : DeleteEnv) (fid : ℕ) (devid : Option ℕ) : DbProg (Option Unit) :=
  match devid with
  | none => do
    sql (.deleteFileToDelete fid)
    pure (some ())
  | some devid =>
    match if devid = 0 then none else env.devs.ofDevid devid with
    | none => do
      sql (.deleteFileOn fid devid)
      pure (some ())
    | some dev =>
      if dev.status.isPermDead then do
        sql (.deleteFileOn fid devid)
        pure (some ())
      else if !dev.observedWriteable then do
        rescheduleFid env.now fid (60 * 10)
        pure (some ())
      else if !dev.status.canDeleteFrom then do
        rescheduleFid env.now fid (60 * 60 * 2)
        pure (some ())
      else deleteOn env fid dev

def processRows (env : DeleteEnv) : List (ℕ × Option ℕ) → DbProg PassResult
  | [] => pure (.done true)
  | (fid, devid) :: rows => do
    match ← processDelete env fid devid with
    | none => pure (.died "No volume id set for this tracker")
    | some () => processRows env rows

def processDeletes (env : DeleteEnv) : DbProg PassResult := do
  match ← sql (.selectDeletes deleteLimit) with
  | [] => pure (.done false)
  | delmap => processRows env ((env.shuffle delmap).take perBatch)

def reenqueueDelayedDeletes (now : ℕ) : DbProg Unit := do
  match ← sql (.selectDeletesAgain now) with
  | [] => pure ()
  | fidids => do
    sql (.insertFileToDelete fidids)
    sql (.deleteDeleteLater fidids)

end Worker.Delete

end Ylem
