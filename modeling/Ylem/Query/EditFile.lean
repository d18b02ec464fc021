import Ylem.Query.CreateOpen
import Ylem.Query.GetPaths

/-!
# Editing a file in place

`cmd_edit_file` takes the first device that `cmd_get_paths` might have answered, opens an upload for the same key, and
hands the copy on this device over from the file to the upload, so that the client can rename it there and change it.
The handler looks at the file in memcached first, and does not work without it.
-/

namespace Ylem

/-- What memcached knows of the key of a request, and of the devices of a fid. -/
structure Memcached where
  fid : Option ℕ
  devids : ℕ → Option (List ℕ)

/-- What `cmd_edit_file` sees besides: memcached, if there is a client for it, the draws of the shuffle, the id of the
class of a file, and the behaviour of the `tempfile` counter. -/
structure EditEnv extends PathsEnv where
  memc : Option Memcached
  draws : ℕ → Draw
  classIdOf : FileRow → Option ℕ
  fuel : ℕ
  reseeded : ℕ → Bool

namespace Device

/-- The device, or its host, is not left out of the list. -/
def takesEdits (dev : Device) : Bool :=
  match dev.host with
  | none => false
  | some host => dev.canReadFrom && !(host.observedUnreachable || dev.observedUnreachable)

end Device

/-- What the handler has found out before it changes anything. -/
structure EditPlan where
  dmid : ℕ
  key : Text
  fid : ℕ
  dev : Option Device
  classid : ℕ

section Handler

variable (env : EditEnv) (args : Args)

/-- The fid of the key, and its row if that has been read. -/
def editedFid (memc : Memcached) (dmid : ℕ) (key : Text) : DbProg (Except Outcome (ℕ × Option FileRow)) :=
  match memc.fid.filter (· != 0) with
  | some fid => pure (.ok (fid, none))
  | none => do
    match ← sql (.selectFileByName dmid key) with
    | none => pure (.error (.err "unknown_key"))
    | some row =>
      if row.fid = 0 then pure (.error (.dies (.other "Missing 'fid' column".toList)))
      else pure (.ok (row.fid, some row))

def editedDevids (memc : Memcached) (fid : ℕ) : DbProg (List ℕ) :=
  match (memc.devids fid).getD [] with
  | [] => sql (.selectDevids fid)
  | devids => pure devids

/-- The class of the file; nothing for a fid that is not there. -/
def editedClass (fid : ℕ) (loaded : Option FileRow) : DbProg (Option ℕ) := do
  let row ← match loaded with
    | some row => pure (some row)
    | none => sql (.selectFile fid)
  pure (row.bind env.classIdOf)

/-- The handler up to `register_tempfile`. -/
def editPlan : DbProg (Except Outcome EditPlan) :=
  match checkDomain env.toQueryEnv args with
  | .error e => pure (.error (.dies e))
  | .ok (lines, 0) => pure (.error ⟨lines ++ [errLine "domain_not_found" none], none⟩)
  | .ok (_, dmid) =>
    if !Text.truthy (args "key") then pure (.error (.err "no_key"))
    else
      let key := (args "key").getD []
      match env.memc with
      | none => pure (.error (.dies (.other "Can't call method \"get\" on an undefined value".toList)))
      | some memc => do
        match ← editedFid memc dmid key with
        | .error outcome => pure (.error outcome)
        | .ok (fid, loaded) => do
          let devids ← editedDevids memc fid
          match sortDevsByUtilization env.toPathsEnv env.draws (devids.map env.devs.ofDevid) with
          | .error e => pure (.error (.dies e))
          | .ok devs => do
            match ← editedClass env fid loaded with
            -- the class is looked at where exceptions are caught
            | none => pure (.error (.err "db"))
            | some classid => pure (.ok ⟨dmid, key, fid, devs.find? Device.takesEdits, classid⟩)

/-- The reply: the paths of the copy under its old fid and under the new one. -/
def editReply (plan : EditPlan) (dev : Device) (newfid : ℕ) : Outcome :=
  let reply : Except Exn (List (Text × Text)) := do
    let oldpath ← deviceUrl env.toQueryEnv true dev plan.fid
    let newpath ← deviceUrl env.toQueryEnv true dev newfid
    pure [("oldpath".toList, oldpath.getD []), ("newpath".toList, newpath.getD []),
      ("fid".toList, Text.decimal newfid), ("devid".toList, Text.decimal dev.devid),
      ("class".toList, Text.decimal plan.classid)]
  match reply with
  | .error e => .dies e
  | .ok reply => .ok reply

/-- The copy on the device is handed over. -/
def handOver (plan : EditPlan) (newfid : ℕ) : DbProg Outcome :=
  match plan.dev with
  -- nothing has the devid that is not there, but a row with it cannot be added
  | none => pure (.dies (.other "devid not non-zero".toList))
  | some dev => do
    sql (.deleteFileOn plan.fid dev.devid)
    if dev.devid = 0 then pure (.dies (.other "devid not non-zero".toList))
    else if ← Store.addFididToDevid newfid dev.devid then pure (editReply env plan dev newfid)
    else pure (.err "db")

/-- The arguments of `register_tempfile`; no devid is an empty text. -/
def EditPlan.tempfile (plan : EditPlan) (now : ℕ) : NewTempfile :=
  ⟨plan.dmid, plan.key, plan.classid, (plan.dev.map fun dev => Text.decimal dev.devid).getD [], now⟩

/-- The handler once it knows what to do; nothing where the loop of `register_tempfile` has not ended. -/
def editFile (plan : EditPlan) : DbProg (Option Outcome) := do
  match ← Store.registerTempfile (plan.tempfile env.now) none env.fuel env.reseeded with
  | .running => pure none
  | .died .dup => pure (some (.err "fid_in_use"))
  | .died _ => pure (some (.err "db"))
  | .ok newfid => do
    let outcome ← handOver env plan newfid
    pure (some outcome)

/-- `cmd_edit_file`, without plugin hooks. -/
def cmdEditFile : DbProg (Option Outcome) := do
  match ← editPlan env args with
  | .error outcome => pure (some outcome)
  | .ok plan => editFile env plan

end Handler

end Ylem
