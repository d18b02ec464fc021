import Ylem.Store.RegisterTempfile
import Ylem.Util

/-!
# Opening an upload

`cmd_create_open` chooses the devices that a client may upload to, allocates a fid with the chosen devices
in table `tempfile`, and answers with a URL on each device. The devices are tried in the random order of
`sort_devs_by_freespace`.
-/

namespace Ylem

/-- What `cmd_create_open` sees besides the environment of every handler: the classes, the setting
`min_free_space`, the draws of the shuffle, the behaviour of the `tempfile` counter with the rounds that
`register_tempfile` gets, the exceptions of the directories' creation, and the profile of the request. -/
structure CreateOpenEnv extends QueryEnv where
  classIdOf : ℕ → Text → Except Exn (Option ℕ)
  minFree : ℕ
  weights : ℕ → Draw
  fuel : ℕ
  reseeded : ℕ → Bool
  vivify : Device → ℕ → Option Exn
  profile : List (Text × Text)

namespace Device

def notOnHosts (d : Device) (dests : List Device) : Bool := dests.all fun dest => dest.hostid != d.hostid

end Device

/-- The devices in a random order that prefers free space; a full one is left out. -/
def sortDevsByFreespace (weights : ℕ → Draw) (devices : List Device) : List Device :=
  weightedList weights (devices.map fun d => (d, 100 * d.percentFree))

/-- The destinations: the first devices in the list that take new files, one a host. -/
def chooseDests (minFree want : ℕ) : List Device → List Device → List Device
  | dests, [] => dests
  | dests, ddev :: devices =>
    if want ≤ dests.length then dests
    else if ddev.shouldGetNewFiles minFree && ddev.notOnHosts dests then
      chooseDests minFree want (dests ++ [ddev]) devices
    else chooseDests minFree want dests devices

section Handler

variable (env : CreateOpenEnv) (args : Args)

/-- The class of the new file; the default class where none is named. -/
def openClassId (dmid : ℕ) : Except Exn (Option ℕ) :=
  match args "class" with
  | none | some [] | some ['0'] => .ok (some 0)
  | some cls => (env.classIdOf dmid cls).map fun classid => classid.filter (· != 0)

/-- The devid and the path of a destination, under names that end in `suffix`. -/
def destArgs (suffix : Text) (fid : ℕ) (dev : Device) : Except Exn (List (Text × Text)) :=
  (deviceUrl env.toQueryEnv false dev fid).map fun url =>
    [("devid".toList ++ suffix, Text.decimal dev.devid), ("path".toList ++ suffix, url.getD [])]

/-- The arguments of the reply. -/
def openArgs (multi : Bool) (fid : ℕ) (dests : List Device) : Except Exn (List (Text × Text)) := do
  let profile := if Text.truthy (args "debug_profile") then env.profile else []
  let common := ("fid".toList, Text.decimal fid) :: profile
  if multi then
    let paths ← (dests.zipIdx 1).mapM fun d => destArgs env ('_' :: Text.decimal d.2) fid d.1
    pure (common ++ paths.flatten ++ [("dev_count".toList, Text.decimal dests.length)])
  else
    let paths ← (dests.take 1).mapM fun d => destArgs env [] fid d
    pure (common ++ paths.flatten)

/-- The handler once the fid is allocated. -/
def openReply (multi : Bool) (dests : List Device) (fid : ℕ) : Outcome :=
  match dests.findSome? fun dev => env.vivify dev fid with
  | some e => .dies e
  | none =>
    match openArgs env args multi fid dests with
    | .error e => .dies e
    | .ok reply => .ok reply

/-- The handler with the class and the destinations; nothing where the loop of `register_tempfile` has not
ended. -/
def openTempfile (multi : Bool) (dmid classid : ℕ) (dests : List Device) : DbProg (Option Outcome) := do
  let expFidid := if Text.truthy (args "fid") then some (Text.int ((args "fid").getD [])) else none
  let key := if Text.truthy (args "key") then (args "key").getD [] else []
  let new : NewTempfile := ⟨dmid, key, classid, Text.commaList (dests.map Device.devid), env.now⟩
  match ← Store.registerTempfile new expFidid env.fuel env.reseeded with
  | .running => pure none
  | .died .dup => pure (some (.err "fid_in_use"))
  | .died _ => pure (some (.err "db"))
  | .ok fid => pure (some (openReply env args multi dests fid))

/-- `cmd_create_open`, without plugin hooks. -/
def cmdCreateOpen : DbProg (Option Outcome) :=
  match checkDomain env.toQueryEnv args with
  | .error e => pure (some (.dies e))
  | .ok (lines, 0) => pure (some ⟨lines ++ [errLine "domain_not_found" none], none⟩)
  | .ok (_, dmid) =>
    match openClassId env args dmid with
    | .error e => pure (some (.dies e))
    | .ok none => pure (some (.err "unreg_class"))
    | .ok (some classid) =>
      let multi := Text.truthy (args "multi_dest")
      match chooseDests env.minFree (if multi then 3 else 1) []
          (sortDevsByFreespace env.weights env.devs.devices) with
      | [] => pure (some (.err "no_devices"))
      | dests => openTempfile env args multi dmid classid dests

end Handler

/-- The number of destinations that a request wants. -/
def wantedDests (args : Args) : ℕ := if Text.truthy (args "multi_dest") then 3 else 1

/-- The destinations that `cmd_create_open` chooses. -/
def openDests (env : CreateOpenEnv) (args : Args) : List Device :=
  chooseDests env.minFree (wantedDests args) [] (sortDevsByFreespace env.weights env.devs.devices)

/-- The handler issues the statements of `register_tempfile` for these destinations, and no others. -/
theorem issues_of_registerStmts {P : Stmt → Prop} (env : CreateOpenEnv) (args : Args)
    (h : ∀ new : NewTempfile, new.devids = Text.commaList ((openDests env args).map Device.devid) →
      RegisterStmts new P) : (cmdCreateOpen env args).Issues P := by
  unfold cmdCreateOpen
  split
  · exact trivial
  · exact trivial
  split
  · exact trivial
  · exact trivial
  extract_lets
  split
  · exact trivial
  · refine (issues_registerTempfile (h _ rfl) _ _ _).bind fun registered => ?_
    split <;> exact trivial

end Ylem
