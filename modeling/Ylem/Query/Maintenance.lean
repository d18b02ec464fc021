import Ylem.Query.Listings
import Ylem.Worker.HttpCopy
import Ylem.ZoneSettings

/-!
# Commands for operators

The commands that look after the tracker itself: those that do next to nothing, the ones for the server settings and
for the weight of a device, the ones that bring copies forward, and `cmd_httpcopy`, which makes one at once. A setting
is written if its name is that of one that can be written and its value passes the check of that name; the check may
also clean the value. `cmd_checker` asks a function that does not exist whether a level is valid, and dies.
-/

namespace Ylem

/-! ### Next to nothing -/

def cmdNoop : Outcome := .ok []

/-- The time that it takes is not modelled. -/
def cmdSleep : Outcome := .ok []

def cmdTest (args : Args) : Outcome :=
  if Text.truthy (args "crash") then .dies (.other "Crashed on purpose".toList) else .ok []

/-- The caches that a worker can drop. -/
inductive Cache where
  | device
  | host
  | cls
  | domain
  deriving DecidableEq

/-- The answer and the caches that are invalidated. -/
def cmdClearCache (args : Args) : Outcome × List Cache :=
  let named := [("devices", Cache.device), ("hosts", Cache.host), ("class", Cache.cls), ("domain", Cache.domain)]
  (.ok [], (named.filter fun c => Text.truthy (args c.1) || Text.truthy (args "all")).map Prod.snd)

/-- It answers after the next round of the monitor. -/
def cmdDoMonitorRound : Outcome := .ok []

/-! ### Copies -/

/-- `replicate_now`: every try that lies ahead is due. -/
def cmdReplicateNow (now : ℕ) (db : Db) : Outcome × Db :=
  let due := db.fileToReplicate.rows.filter fun r => now < r.nexttry
  let fileToReplicate := db.fileToReplicate.update (fun r => if now < r.nexttry then { r with nexttry := now } else r)
    (fun r => by split_ifs <;> rfl)
  (.ok [("count".toList, Text.decimal due.length)], { db with fileToReplicate })

/-- What `cmd_httpcopy` meets: the devices, the answer of `get_lock` in the device count, and the copy. -/
structure HttpcopyEnv where
  cfg : CopyConfig
  devs : DeviceMap
  addLock : Option Bool
  world : CopyWorld

/-- The fid of `cmd_httpcopy`, which is printed with `%u`. -/
def httpcopyFid (args : Args) : ℕ := Text.unsigned (Text.numify ((args "fid").getD []))

/-- `http_copy` with the devids as a client sends them. -/
def HttpcopyEnv.copy (env : HttpcopyEnv) (args : Args) : CopyResult × Option Device :=
  let sdevid := (args "sdevid").getD []
  let ddevid := (args "ddevid").getD []
  if !Text.truthy (args "sdevid") || !Text.truthy (args "ddevid") then (.died "Invalid devid", none)
  else
    match env.devs.ofDevidText sdevid, env.devs.ofDevidText ddevid with
    | some sdev, some ddev =>
      ((httpCopy env.cfg env.devs sdev.devid ddev.devid (httpcopyFid args) none env.world).1, some ddev)
    | _, _ => (.failed none ["Error: unable to get device information: source=".toList ++ sdevid ++
        ", destination=".toList ++ ddevid ++ ", fid=".toList ++ (args "fid").getD []], none)

/-- The text of an error that has set a code. -/
def CopyErr.text : CopyErr → Text
  | .srcError => "src_error".toList
  | .destError => "dest_error".toList

def cmdHttpcopy (env : HttpcopyEnv) (args : Args) : DbProg Outcome :=
  match env.copy args with
  | (.copied, some ddev) =>
    if !Text.truthy (args "fid") then pure (.dies (.other "fidid not non-zero".toList))
    else do
      match ← addToDb env.addLock (httpcopyFid args) ddev.devid with
      | true => pure (.ok [])
      | false => pure (.errText "copy_err" "failed to add link to database".toList)
  | (.failed (some errcode) _, _) => pure (.errText "copy_err" errcode.text)
  | (.died error, _) => pure (.dies (.other error.toList))
  | _ => pure (.err "copy_err")

/-! ### Server settings -/

section Settings

variable (args : Args) (settings : ServerSettings)

/-- `MogileFS::Config->set_server_setting`: without a value the setting is deleted. -/
def ServerSettings.set (key : Text) : Option Text → ServerSettings
  | some val => settings.replace (key, val)
  | none => settings.delete fun entry => entry.1 = key

def cmdChecker : Outcome × ServerSettings :=
  if Text.truthy (args "disable") then (.ok [], settings.set "fsck_enable".toList (some "off".toList))
  else if Text.truthy (args "level") then
    -- the worker of that name is gone
    (.dies (.other "Undefined subroutine &MogileFS::Worker::Checker::is_valid_level called".toList), settings)
  else (.err "failure", settings)

/-- `/^(word|…)/i`. -/
def startsWithOne (words : List String) (v : Text) : Bool :=
  words.any fun word => word.toList.isPrefixOf (v.map Char.toLower)

/-- `$bool`. -/
def cleanBool (v : Option Text) : Except String (Option Text) :=
  if !Text.truthy v then pure (some ['0'])
  else if startsWithOne ["0", "f", "off", "n"] (v.getD []) then pure (some ['0'])
  else if startsWithOne ["1", "t", "on", "y"] (v.getD []) then pure (some ['1'])
  else throw "Unknown format"

/-- The name of a rebalance policy: `/^[\w:\-]+$/`, which ends before a line feed at the end, too. -/
def isPolicyName (v : Text) : Bool :=
  let isName := fun t : Text => t != [] && t.all fun c => Text.isWord c || c = ':' || c = '-'
  isName v || (v.getLast? = some '\n' && isName v.dropLast)

/-- `server_setting_is_writable`: the check of a setting that can be written. -/
def serverSettingIsWritable (netmasks : Netmasks) (key : Text) :
    Option (Option Text → Except String (Option Text)) :=
  let any := fun v : Option Text => (pure v : Except String (Option Text))
  if "slave_".toList.isPrefixOf key then some fun v => pure (if Text.truthy v then v else none)
  else if key = "enable_rebalance".toList then some cleanBool
  else if key = "memcache_servers".toList then some any
  else if key = "network_zones".toList then some any
  else if "zone_".toList.isPrefixOf key then some fun v => (validNetmaskList netmasks (v.getD [])).map fun _ => v
  else if key = "rebalance_policy".toList then some fun v =>
    if !Text.truthy v then pure none
    else if isPolicyName (v.getD []) then pure v
    else throw "Doesn't match acceptable format"
  else none

def cmdSetServerSetting (netmasks : Netmasks) : Outcome × ServerSettings :=
  let key := (args "key").getD []
  if !Text.truthy (args "key") then (.err "bad_params", settings)
  else
    match serverSettingIsWritable netmasks key with
    | none => (.err "not_writable", settings)
    | some chk =>
      match chk (args "value") with
      | .error _ => (.err "invalid_format", settings)
      | .ok cleanval => (.ok [], settings.set key cleanval)

end Settings

/-! ### The weight of a device -/

/-- `MogileFS::Device->from_devid_and_hostname`. -/
def NodeView.fromDevidAndHostname (view : NodeView) (t : Nodes) (devid : ℚ) (hostname : Text) :
    Except Exn (Option DeviceRow) := do
  match ← view.deviceOfId t devid with
  | (none, _) => pure none
  | (some dev, loaded) => do
    let (host, _) ← hostOfId loaded t.hosts dev.hostid
    pure (if host.any fun host => host.hostname = hostname then some dev else none)

/-- The device and its new weight, once a `set_weight` has passed the checks. -/
def weightChange (view : NodeView) (args : Args) (t : Nodes) : Except Outcome (ℕ × ℚ) :=
  let hostname := (args "host").getD []
  let devid := Text.numify ((args "device").getD [])
  let weight := Text.numify ((args "weight").getD [])
  if !Text.truthy (args "host") ∨ devid = 0 ∨ weight < 0 then .error (.err "bad_params")
  else
    match view.fromDevidAndHostname t devid hostname with
    | .error e => .error (.dies e)
    | .ok none => .error (.err "host_mismatch")
    | .ok (some dev) => .ok (dev.devid, weight)

/-- The column of the weights before and after; `column` is what the database makes of a new weight, nothing where it
refuses it. -/
def cmdSetWeight (column : ℚ → Option ℕ) (view : NodeView) (args : Args) (t : Nodes) (weights : ℕ → Option ℕ) :
    Outcome × (ℕ → Option ℕ) :=
  match weightChange view args t with
  | .error o => (o, weights)
  | .ok (devid, weight) =>
    match column weight with
    | none => (.dies (.other "Database error".toList), weights)
    | some weight => (.ok [], Function.update weights devid (some weight))

end Ylem
