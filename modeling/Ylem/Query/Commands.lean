import Ylem.Query.CreateClose
import Ylem.Query.EditFile
import Ylem.Query.Keys
import Ylem.Query.ListKeys
import Ylem.Query.Maintenance

/-!
# The commands of the query worker

All handlers, in three families: those that work on the tables of the files and the fsck commands are programs of
statements, and the others see one state of the tables they work on. Any of them may die at any statement
(`Command.Handled`).

Two things make a handler of them answer twice. `check_domain` has answered before it gives the handler the `0` that
the handler answers again (`Refused`), and a rename to a key that is taken (`Collides`) goes on behind its error line.
-/

namespace Ylem

/-! ### Families of commands -/

/-- The commands on the tables of the files, each with what its handler meets. -/
inductive QueryCommand where
  | createOpen (env : CreateOpenEnv)
  | createClose (env : QueryEnv)
  | delete (env : QueryEnv)
  | rename (env : QueryEnv)
  | getPaths (env : PathsEnv) (draws : ℕ → Draw)
  | editFile (env : EditEnv)
  | httpcopy (env : HttpcopyEnv)

/-- The commands that start, stop and reset fsck, without the arguments. -/
inductive FsckControl where
  | start (hostname : Text) (now : ℕ)
  | stop (now : ℕ)
  | reset
  | clearlog

/-- The other commands, each with the tables as it finds them. -/
inductive TableCommand where
  | listKeys (env : QueryEnv) (regexMatches : Text → Text → Option Bool) (db : Db)
  | listFids (env : ClassEnv) (selected : Bool) (t : Tables)
  | getHosts (t : Hosts)
  | getDevices (view : NodeView) (usage : ℕ → DeviceUsage) (t : Nodes)
  | getDomains (env : ClassEnv) (t : Tables)
  | createDomain (t : Tables)
  | deleteDomain (t : Tables)
  | createClass (t : Tables) (env : ClassEnv)
  | updateClass (t : Tables) (env : ClassEnv)
  | deleteClass (t : Tables) (env : ClassEnv)
  | createHost (columns : HostColumns) (env : HostEnv) (t : Hosts)
  | updateHost (columns : HostColumns) (env : HostEnv) (t : Hosts)
  | createDevice (columns : NodeColumns) (view : NodeView) (t : Nodes)
  | setState (view : NodeView) (t : Nodes)
  | setWeight (column : ℚ → Option ℕ) (view : NodeView) (t : Nodes) (weights : ℕ → Option ℕ)
  | deleteHost (view : NodeView) (t : Nodes)
  | stats (view : StatsView)
  | noop
  | sleep
  | test
  | clearCache
  | doMonitorRound
  | replicateNow (now : ℕ) (db : Db)
  | checker (settings : ServerSettings)
  | setServerSetting (settings : ServerSettings) (netmasks : Netmasks)
  | serverSetting (settings : ServerSettings)
  | serverSettings (settings : ServerSettings)
  | fsckGetlog (st : FsckStore)
  | fsckStatus (now : ℕ) (st : FsckStore)

/-- A command. -/
inductive Command where
  | files (c : QueryCommand)
  | fsck (c : FsckControl)
  | table (c : TableCommand)

/-! ### Their names -/

def QueryCommand.name : QueryCommand → String
  | createOpen _ => "create_open"
  | createClose _ => "create_close"
  | delete _ => "delete"
  | rename _ => "rename"
  | getPaths .. => "get_paths"
  | editFile _ => "edit_file"
  | httpcopy _ => "httpcopy"

def FsckControl.name : FsckControl → String
  | start .. => "fsck_start"
  | stop _ => "fsck_stop"
  | reset => "fsck_reset"
  | clearlog => "fsck_clearlog"

def TableCommand.name : TableCommand → String
  | listKeys .. => "list_keys"
  | listFids .. => "list_fids"
  | getHosts _ => "get_hosts"
  | getDevices .. => "get_devices"
  | getDomains .. => "get_domains"
  | createDomain _ => "create_domain"
  | deleteDomain _ => "delete_domain"
  | createClass .. => "create_class"
  | updateClass .. => "update_class"
  | deleteClass .. => "delete_class"
  | createHost .. => "create_host"
  | updateHost .. => "update_host"
  | createDevice .. => "create_device"
  | setState .. => "set_state"
  | setWeight .. => "set_weight"
  | deleteHost .. => "delete_host"
  | stats _ => "stats"
  | noop => "noop"
  | sleep => "sleep"
  | test => "test"
  | clearCache => "clear_cache"
  | doMonitorRound => "do_monitor_round"
  | replicateNow .. => "replicate_now"
  | checker _ => "checker"
  | setServerSetting .. => "set_server_setting"
  | serverSetting _ => "server_setting"
  | serverSettings _ => "server_settings"
  | fsckGetlog _ => "fsck_getlog"
  | fsckStatus .. => "fsck_status"

/-- What stands behind `cmd_`. -/
def Command.name : Command → String
  | files c => c.name
  | fsck c => c.name
  | table c => c.name

/-- The names for which there is a handler. -/
def commandNames : List String :=
  ["create_open", "create_close", "delete", "rename", "get_paths", "edit_file", "httpcopy", "fsck_start", "fsck_stop",
    "fsck_reset", "fsck_clearlog", "list_keys", "list_fids", "get_hosts", "get_devices", "get_domains",
    "create_domain", "delete_domain", "create_class", "update_class", "delete_class", "create_host", "update_host",
    "create_device", "set_state", "set_weight", "delete_host", "stats", "noop", "sleep", "test", "clear_cache",
    "do_monitor_round", "replicate_now", "checker", "set_server_setting", "server_setting", "server_settings",
    "fsck_getlog", "fsck_status"]

/-! ### Their handlers -/

/-- The handler; the outcome is nothing where `register_tempfile` has not ended. -/
def QueryCommand.prog (args : Args) : QueryCommand → DbProg (Option Outcome)
  | createOpen env => cmdCreateOpen env args
  | createClose env => do pure (some (← cmdCreateClose env args))
  | delete env => do pure (some (← cmdDelete env args))
  | rename env => do pure (some (← cmdRename env args))
  | getPaths env draws => do pure (some (← cmdGetPaths env args draws))
  | editFile env => cmdEditFile env args
  | httpcopy env => do pure (some (← cmdHttpcopy env args))

/-- The command with the arguments of a request. -/
def FsckControl.command (args : Args) : FsckControl → FsckCommand
  | start hostname now => .start hostname now
  | stop now => .stop now
  | reset => .reset args
  | clearlog => .clearlog

/-- The end of the handler. -/
def TableCommand.outcome (args : Args) : TableCommand → Outcome
  | listKeys env regexMatches db => cmdListKeys env regexMatches args db
  | listFids env selected t => cmdListFids env selected args t
  | getHosts t => cmdGetHosts args t
  | getDevices view usage t => cmdGetDevices view usage args t
  | getDomains env t => cmdGetDomains env t
  | createDomain t => (cmdCreateDomain args t).1
  | deleteDomain t => (cmdDeleteDomain args t).1
  | createClass t env => (cmdCreateClass args t env).1
  | updateClass t env => (cmdUpdateClass args t env).1
  | deleteClass t env => (cmdDeleteClass args t env).1
  | createHost columns env t => (cmdCreateHost columns env args t).1
  | updateHost columns env t => (cmdUpdateHost columns env args t).1
  | createDevice columns view t => (cmdCreateDevice columns view args t).1
  | setState view t => (cmdSetState view args t).1
  | setWeight column view t weights => (cmdSetWeight column view args t weights).1
  | deleteHost view t => (cmdDeleteHost view args t).1
  | stats view => cmdStats view args
  | noop => cmdNoop
  | sleep => cmdSleep
  | test => cmdTest args
  | clearCache => (cmdClearCache args).1
  | doMonitorRound => cmdDoMonitorRound
  | replicateNow now db => (cmdReplicateNow now db).1
  | checker settings => (cmdChecker args settings).1
  | setServerSetting settings netmasks => (cmdSetServerSetting args settings netmasks).1
  | serverSetting settings => cmdServerSetting args settings
  | serverSettings settings => cmdServerSettings settings
  | fsckGetlog st => cmdFsckGetlog args st
  | fsckStatus now st => cmdFsckStatus now st

/-! ### Second lines -/

/-- There is no domain in the arguments, or none with an id. -/
def DomainRefused (env : QueryEnv) (args : Args) : Bool :=
  match args "domain" with
  | none | some [] => true
  | some domain =>
    match env.idOfName domain with
    | .ok none | .ok (some 0) => true
    | _ => false

/-- What the handler sees of the domains, if it calls `check_domain`. -/
def QueryCommand.domainEnv : QueryCommand → Option QueryEnv
  | createOpen env => some env.toQueryEnv
  | createClose env => some env
  | delete env => some env
  | rename env => some env
  | getPaths env _ => some env.toQueryEnv
  | editFile env => some env.toQueryEnv
  | httpcopy _ => none

/-- `list_keys` is the only one of these that calls `check_domain`. -/
def TableCommand.domainEnv : TableCommand → Option QueryEnv
  | listKeys env _ _ => some env
  | _ => none

def QueryCommand.Refused (c : QueryCommand) (args : Args) : Bool := c.domainEnv.any fun env => DomainRefused env args

def TableCommand.Refused (c : TableCommand) (args : Args) : Bool := c.domainEnv.any fun env => DomainRefused env args

/-- The handler calls `check_domain`, and the domain is refused. -/
def Command.Refused (args : Args) : Command → Bool
  | files c => c.Refused args
  | fsck _ => false
  | table c => c.Refused args

/-- Another file has the key already. -/
def FileTable.KeyTaken (t : FileTable) (fid : ℕ) (key : Text) : Prop :=
  ∃ row ∈ t.rows, row.fid = fid ∧ ∃ other ∈ t.rows, other.fid ≠ fid ∧ other.name = (row.dmid, key)

instance (t : FileTable) (fid : ℕ) (key : Text) : Decidable (t.KeyTaken fid key) :=
  inferInstanceAs (Decidable (∃ row ∈ t.rows, row.fid = fid ∧ ∃ other ∈ t.rows, other.fid ≠ fid ∧ other.name = (row.dmid, key)))

/-- A rename to a key that is taken. -/
def Collides (x : Issued Stmt Db) : Bool :=
  match x.stmt with
  | .renameFile fid key => x.found.file.KeyTaken fid key
  | _ => false

/-- A request for the command may be handled so: after these statements on the tables of the files, and with that
outcome. What else happens to the tables between two of the statements does not matter. -/
inductive Command.Handled (args : Args) : Command → List (Issued Stmt Db) → Outcome → Prop
  | files {c log o} (h : (c.prog args).EndsWith Stmt.run log (some o)) : Handled args (.files c) log o
  | filesDies {c log} (e : Exn) (h : (c.prog args).Stops Stmt.run log) : Handled args (.files c) log (.dies e)
  | fsck {c log o} (h : (c.command args).prog.EndsWith FsckStmt.run log o) : Handled args (.fsck c) [] o
  | fsckDies (c : FsckControl) (e : Exn) : Handled args (.fsck c) [] (.dies e)
  | table (c : TableCommand) : Handled args (.table c) [] (c.outcome args)
  -- a refused domain is answered before any statement
  | tableDies {c : TableCommand} (e : Exn) (h : c.Refused args = false) : Handled args (.table c) [] (.dies e)

end Ylem
