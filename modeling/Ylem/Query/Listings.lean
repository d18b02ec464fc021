import Ylem.Query.Devices
import Ylem.Query.Domains
import Ylem.Query.FsckStatus
import Ylem.Worker.ReplicateQueue

/-!
# Listings

The commands that tell what is in the tables: the hosts, devices and domains, a range of files, the log of fsck, the
server settings, and counts of nearly everything. They change nothing. What cannot be loaded makes them die, and a
value that is not there goes out as an empty text. Entries are numbered in the order of their table here, and in that
of a hash in the source.
-/

namespace Ylem

/-! ### Numbered entries -/

/-- `${kind}${n}_$field` for the fields of the `n`th entry. -/
def numberedFields (kind : String) (n : ℕ) (fields : List (Text × Text)) : List (Text × Text) :=
  fields.map fun field => (kind.toList ++ Text.decimal n ++ '_' :: field.1, field.2)

/-- The fields of all entries, which are counted from one. -/
def numberedEntries {α : Type} (kind : String) (fields : α → List (Text × Text)) (entries : List α) :
    List (Text × Text) :=
  (entries.zipIdx 1).flatMap fun e => numberedFields kind e.2 (fields e.1)

/-- `defined $args->{$name} && $id != $args->{$name}` passes an entry over. -/
def Args.selects (args : Args) (name : String) (id : ℕ) : Bool :=
  (args name).all fun v => (id : ℚ) = Text.numify v

/-! ### Hosts and devices -/

def HostRow.fields (host : HostRow) : List (Text × Text) :=
  [("hostid".toList, Text.decimal host.hostid), ("status".toList, host.status), ("hostname".toList, host.hostname),
    ("hostip".toList, host.hostip), ("http_port".toList, host.httpPort.getD []),
    ("http_get_port".toList, host.httpGetPort.getD []), ("altip".toList, host.altip.getD []),
    ("altmask".toList, host.altmask.getD [])]

/-- The hosts are loaded anew. -/
def cmdGetHosts (args : Args) (t : Hosts) : Outcome :=
  match reloadHosts t with
  | .error e => .dies e
  | .ok hosts =>
    let listed := hosts.filter fun host => args.selects "hostid" host.hostid
    .ok (("hosts".toList, Text.decimal listed.length) :: numberedEntries "host" HostRow.fields listed)

/-- What a worker has in memory of a device besides its row: the other columns, and what it has heard from the
monitor. -/
structure DeviceUsage where
  weight : Option ℕ
  mbTotal : ℕ
  mbUsed : ℕ
  mbAsof : ℕ
  observedState : Option Text
  utilization : Option Text

def deviceStateText (status : DeviceState) : Text :=
  ((deviceStates.find? fun s => s.2 = status).map Prod.fst).getD []

/-- `MogileFS::Device::overview_hashref`. -/
def DeviceUsage.overviewHashref (dev : DeviceRow) (usage : DeviceUsage) : List (Text × Text) :=
  [("devid".toList, Text.decimal dev.devid), ("hostid".toList, Text.decimal dev.hostid),
    ("status".toList, deviceStateText dev.status), ("weight".toList, usage.weight.elim [] Text.decimal),
    ("observed_state".toList, usage.observedState.getD []), ("mb_total".toList, Text.decimal usage.mbTotal),
    ("mb_used".toList, Text.decimal usage.mbUsed), ("mb_asof".toList, Text.decimal usage.mbAsof),
    ("utilization".toList, usage.utilization.getD []), ("mb_free".toList, intText (usage.mbTotal - usage.mbUsed))]

/-- `MogileFS::Device->devices`. -/
def NodeView.devs (view : NodeView) (t : Nodes) : Except Exn (List DeviceRow) :=
  if view.devicesRecent then .ok view.devices
  else do view.checkDevices (← view.checkHosts t.hosts) t

def cmdGetDevices (view : NodeView) (usage : ℕ → DeviceUsage) (args : Args) (t : Nodes) : Outcome :=
  match view.devs t with
  | .error e => .dies e
  | .ok devs =>
    let listed := devs.filter fun dev => args.selects "devid" dev.devid
    .ok (("devices".toList, Text.decimal listed.length) ::
      numberedEntries "dev" (fun dev => (usage dev.devid).overviewHashref dev) listed)

/-! ### Domains -/

/-- The names and counts of the classes of a domain, behind its own name. -/
def classEntries (env : ClassEnv) (domain : Text) (classes : List ClassRow) : List (Text × Text) :=
  (classes.zipIdx 1).flatMap fun c =>
    let entry := domain ++ "class".toList ++ Text.decimal c.2
    [(entry ++ "name".toList, c.1.classname), (entry ++ "mindevcount".toList, env.number c.1.mindevcount)]

/-- The domains are those of the table, the classes those that were loaded last. A domain whose id or name is false
is none. -/
def cmdGetDomains (env : ClassEnv) (t : Tables) : Outcome :=
  let domains := t.domain.rows
  if domains.any fun dom => dom.dmid = 0 || !Text.truthy (some dom.ns) then
    .dies (.other "Can't call method \"name\" on an undefined value".toList)
  else
    let entries := (domains.zipIdx 1).flatMap fun dom =>
      let name := "domain".toList ++ Text.decimal dom.2
      let classes := env.cached.filter fun c => c.dmid = dom.1.dmid
      (name, dom.1.ns) :: classEntries env name classes ++ [(name ++ "classes".toList, Text.decimal classes.length)]
    .ok (entries ++ [("domains".toList, Text.decimal domains.length)])

/-! ### Files -/

/-- `($args->{$name} || 0)+0`. -/
def Args.number (args : Args) (name : String) : ℚ :=
  if Text.truthy (args name) then Text.numify ((args name).getD []) else 0

/-- The range of fids that `list_fids` selects: a hundred after the first at most. -/
def fidRange (args : Args) : ℚ × ℚ :=
  let fromfid := args.number "from"
  let tofid := if args.number "to" = 0 then fromfid + 100 else args.number "to"
  (fromfid, if fromfid + 100 < tofid ∨ tofid < fromfid then fromfid + 100 else tofid)

/-- An entry of `list_fids`. -/
def fidFields (env : ClassEnv) (t : Tables) (row : FileRow) : List (Text × Text) :=
  let domain := (t.domain.rows.find? fun d => d.dmid = row.dmid).map DomainRow.ns
  let cls := (env.ofDmidClassid t row.dmid row.classid).map ClassRow.classname
  [("fid".toList, Text.decimal row.fid), ("domain".toList, domain.getD []), ("class".toList, cls.getD []),
    ("key".toList, row.dkey), ("length".toList, Text.decimal row.length),
    ("devcount".toList, Text.decimal row.devcount)]

/-- `selected` says whether the rows could be fetched. -/
def cmdListFids (env : ClassEnv) (selected : Bool) (args : Args) (t : Tables) : Outcome :=
  let (fromfid, tofid) := fidRange args
  let rows := t.db.file.rows.filter fun row => fromfid ≤ row.fid ∧ (row.fid : ℚ) ≤ tofid
  if !selected then .err "failure"
  else if rows = [] then .ok [("fid_count".toList, ['0'])]
  else .ok (numberedEntries "fid_" (fidFields env t) rows ++ [("fid_count".toList, Text.decimal rows.length)])

/-! ### The log of fsck -/

/-- The columns of a row that are not `NULL`. -/
def FsckLogRow.fields (row : FsckLogRow) : List (Text × Text) :=
  [("logid".toList, Text.decimal row.logid), ("utime".toList, Text.decimal row.utime),
    ("fid".toList, Text.decimal row.fid), ("evcode".toList, row.evcode)] ++
    (row.devid.map fun devid => ("devid".toList, Text.decimal devid)).toList

/-- `fsck_log_rows`. -/
def FsckStore.fsckLogRows (st : FsckStore) (afterLogid : ℤ) (limit : ℕ) : List FsckLogRow :=
  ((st.fsckLog.rows.filter fun row => afterLogid < row.logid).insertionSort fun r r' => r.logid ≤ r'.logid).take limit

def cmdFsckGetlog (args : Args) (st : FsckStore) : Outcome :=
  let afterLogid := if Text.truthy (args "after_logid") then Text.int ((args "after_logid").getD []) else 0
  let rows := st.fsckLogRows afterLogid 100
  .ok (numberedEntries "row_" FsckLogRow.fields rows ++ [("row_count".toList, Text.decimal rows.length)])

/-! ### Server settings -/

/-- Table `server_settings`, with the settings of all parts. -/
abbrev ServerSettings := Table (Text × Text) Text Prod.fst

/-- `server_setting_is_readable`. -/
def serverSettingIsReadable (key : Text) : Bool := !"fsck_".toList.isPrefixOf key

def cmdServerSetting (args : Args) (settings : ServerSettings) : Outcome :=
  if !Text.truthy (args "key") then .err "bad_params"
  else
    let key := (args "key").getD []
    .ok [("key".toList, key), ("value".toList, ((settings.find? key).map Prod.snd).getD [])]

def cmdServerSettings (settings : ServerSettings) : Outcome :=
  let readable := settings.rows.filter fun entry => serverSettingIsReadable entry.1
  let count := if readable = [] then [] else [("key_count".toList, Text.decimal readable.length)]
  .ok (count ++ (readable.zipIdx 1).flatMap fun entry =>
    [("key_".toList ++ Text.decimal entry.2, entry.1.1), ("value_".toList ++ Text.decimal entry.2, entry.1.2)])

/-! ### Statistics -/

/-- `COUNT`, with `GROUP BY` a column. -/
def groupCounts {α β : Type} [DecidableEq β] (column : α → β) (rows : List α) : List (β × ℕ) :=
  (rows.map column).dedup.map fun b => (b, (rows.map column).count b)

/-- What `cmd_stats` meets: whether it gets a connection, the tables, and the time of the database. -/
structure StatsView where
  connected : Bool
  tables : Tables
  nodes : Nodes
  dbTime : ℕ

namespace StatsView

variable (view : StatsView)

/-- The names of a domain and of one of its classes. -/
def classNames (dmid classid : ℕ) : Text × Text :=
  match view.tables.domain.rows.find? fun d => d.dmid = dmid with
  | none => ([], [])
  | some domain =>
    let cls := (view.tables.cls.rows.find? fun c => c.key = (dmid, classid)).map ClassRow.classname
    (domain.ns, if classid = 0 then "default".toList else cls.getD [])

/-- The name of a device's host and the status of the device, which are not known without a host. -/
def deviceHost (devid : ℕ) : Text × Text :=
  match view.nodes.device.rows.find? fun dev => dev.devid = devid with
  | none => ([], [])
  | some dev =>
    match view.nodes.hosts.rows.find? fun host => host.hostid = dev.hostid with
    | none => ([], [])
    | some host => (host.hostname, deviceStateText dev.status)

/-- What a try at that time counts as. -/
def tryName (nexttry : ℕ) : Text :=
  if nexttry = 0 then "newfile".toList
  else if nexttry = 1 then "redo".toList
  else if nexttry < 1000 then "unknown".toList
  else if nexttry = Worker.Replicate.endOfTime then "manually".toList
  else if nexttry < view.dbTime then "overdue".toList
  else "deferred".toList

/-- `$ret->{"$kind${n}$field"}` for every group, and the number of them. -/
def statEntries {β : Type} (kind : String) (fields : β → List (Text × Text)) (stats : List (β × ℕ)) :
    List (Text × Text) :=
  (stats.zipIdx 1).flatMap (fun stat =>
    (fields stat.1.1 ++ [("files".toList, Text.decimal stat.1.2)]).map fun field =>
      (kind.toList ++ Text.decimal stat.2 ++ field.1, field.2)) ++
    [(kind.toList ++ "count".toList, Text.decimal stats.length)]

def replicationStats : List (Text × Text) :=
  let fields := fun stat : ℕ × ℕ × ℕ =>
    let names := view.classNames stat.1 stat.2.1
    [("domain".toList, names.1), ("class".toList, names.2), ("devcount".toList, Text.decimal stat.2.2)]
  let tries := groupCounts (fun r : ToReplicateRow => view.tryName r.nexttry) view.tables.db.fileToReplicate.rows
  statEntries "replication" fields
      (groupCounts (fun r : FileRow => (r.dmid, r.classid, r.devcount)) view.tables.db.file.rows) ++
    tries.map fun stat => ("to_replicate_".toList ++ stat.1, Text.decimal stat.2)

def fileStats : List (Text × Text) :=
  let fields := fun stat : ℕ × ℕ =>
    let names := view.classNames stat.1 stat.2
    [("domain".toList, names.1), ("class".toList, names.2)]
  statEntries "files" fields (groupCounts (fun r : FileRow => (r.dmid, r.classid)) view.tables.db.file.rows)

def deviceStats : List (Text × Text) :=
  let fields := fun devid : ℕ =>
    let host := view.deviceHost devid
    [("id".toList, Text.decimal devid), ("host".toList, host.1), ("status".toList, host.2)]
  statEntries "devices" fields (groupCounts Prod.snd view.tables.db.fileOn.rows)

def fidStats : List (Text × Text) :=
  [("fidmax".toList, ((view.tables.db.file.rows.map FileRow.fid).max?).elim [] Text.decimal)]

end StatsView

def cmdStats (view : StatsView) (args : Args) : Outcome :=
  let wanted := fun (name : String) (stats : List (Text × Text)) =>
    if Text.truthy (args name) || Text.truthy (args "all") then stats else []
  if !view.connected then .err "nodb"
  else .ok (wanted "replication" view.replicationStats ++ wanted "files" view.fileStats ++
    wanted "devices" view.deviceStats ++ wanted "fids" view.fidStats)

end Ylem
