import Ylem.Query.Reply
import Ylem.Lib.Folds
import Ylem.Lib.Split

/-!
# Hosts

The commands that create and change hosts, with the functions of `MogileFS::Host` and `MogileFS::Store` below
them. A host is looked up among the hosts that the worker has loaded, which are those of some earlier time, and
then among those of the table. All hosts are loaded at once, and loading dies of a status that is not a word.

The pattern that a new status is checked against, `/^alive|dead|down$/`, has its anchors at the first and the last
alternative only. What becomes of a status that passes and is none of the three is up to the column: a database
that stores it, or something else for it, leaves the host with a status outside the three, and with one that is
not a word no worker can load its hosts (`statusDomain_of_guards`).
-/

namespace Ylem

/-! ### The table -/

/-- A row of table `host`. -/
structure HostRow where
  hostid : ℕ
  status : Text
  hostname : Text
  hostip : Text
  httpPort : Option Text
  httpGetPort : Option Text
  altip : Option Text
  altmask : Option Text
  deriving DecidableEq

/-- The columns that a command sets. -/
inductive HostField where
  | status
  | hostip
  | httpPort
  | httpGetPort
  | altip
  | altmask
  deriving DecidableEq

/-- The argument that `%setter` has for a column. -/
def HostField.arg : HostField → String
  | .status => "status"
  | .hostip => "ip"
  | .httpPort => "port"
  | .httpGetPort => "getport"
  | .altip => "altip"
  | .altmask => "altmask"

/-- The columns of `%setter`. -/
def HostField.all : List HostField := [.status, .hostip, .httpPort, .httpGetPort, .altip, .altmask]

namespace HostRow

/-- `$self->{$field}`. -/
def get (r : HostRow) : HostField → Option Text
  | .status => some r.status
  | .hostip => some r.hostip
  | .httpPort => r.httpPort
  | .httpGetPort => r.httpGetPort
  | .altip => r.altip
  | .altmask => r.altmask

def set (r : HostRow) (field : HostField) (v : Text) : HostRow :=
  match field with
  | .status => { r with status := v }
  | .hostip => { r with hostip := v }
  | .httpPort => { r with httpPort := some v }
  | .httpGetPort => { r with httpGetPort := some v }
  | .altip => { r with altip := some v }
  | .altmask => { r with altmask := some v }

/-- The primary key and the three unique columns; any number of hosts may be without an `altip`. -/
def Unique (rows : List HostRow) : Prop :=
  (rows.map hostid).Nodup ∧ (rows.map hostname).Nodup ∧ (rows.map hostip).Nodup ∧ (rows.filterMap altip).Nodup

instance (rows : List HostRow) : Decidable (Unique rows) := inferInstanceAs (Decidable (_ ∧ _))

end HostRow

/-- Table `host`. -/
@[ext] structure Hosts where
  rows : List HostRow
  unique : HostRow.Unique rows

namespace Hosts

def empty : Hosts := ⟨[], by decide⟩

/-- The table of the rows; nothing for a duplicate. -/
def ofRows? (rows : List HostRow) : Option Hosts := if h : HostRow.Unique rows then some ⟨rows, h⟩ else none

theorem rows_ofRows? {rows : List HostRow} {t : Hosts} (h : ofRows? rows = some t) : t.rows = rows := by
  unfold ofRows? at h
  split_ifs at h
  rw [← Option.some.inj h]

end Hosts

/-- The statuses of the column. -/
def hostStatuses : List Text := ["alive".toList, "dead".toList, "down".toList]

/-- What the database makes of a value for a column, nothing where it refuses the statement. The three statuses
are stored as they are. -/
structure HostColumns where
  field : HostField → Text → Option Text
  hostname : Text → Option Text
  status_stored : ∀ status ∈ hostStatuses, field .status status = some status

/-! ### Loading -/

/-- `=~ /^\w+$/`. The pattern ends before a line feed at the end, too. -/
def isWordStatus (status : Text) : Bool :=
  (status != [] && status.all Text.isWord) ||
    (status.getLast? = some '\n' && status.dropLast != [] && status.dropLast.all Text.isWord)

def reloadHosts (t : Hosts) : Except Exn (List HostRow) :=
  if t.rows.all fun row => isWordStatus row.status then .ok t.rows else .error (.other "Died".toList)

/-- The host of that name with the hosts that are loaded afterwards; `cached` are those loaded before. -/
def ofHostname (cached : List HostRow) (t : Hosts) (hostname : Text) :
    Except Exn (Option HostRow × List HostRow) :=
  match cached.find? fun host => host.hostname = hostname with
  | some host => .ok (some host, cached)
  | none => (reloadHosts t).map fun hosts => (hosts.find? fun host => host.hostname = hostname, hosts)

/-- `_load`. -/
def loadHost (hostid : ℕ) (loaded : List HostRow) (t : Hosts) : Except Exn (HostRow × List HostRow) :=
  match loaded.find? fun host => host.hostid = hostid with
  | some host => .ok (host, loaded)
  | none =>
    match reloadHosts t with
    | .error e => .error e
    | .ok hosts =>
      match hosts.find? fun host => host.hostid = hostid with
      | some host => .ok (host, hosts)
      | none => .error (.other ("Host ".toList ++ Text.decimal hostid ++ " doesn't exist.\n".toList))

/-- `"No status"`. -/
def noStatus : Exn := .other "No status".toList

/-- The status that `absorb_dbrow` gives a device with that row. -/
def absorbDbrow (t : Hosts) (devid hostid : ℕ) (status : Text) : Except Exn Text :=
  match reloadHosts t with
  | .error e => .error e
  | .ok hosts =>
    match hosts.find? fun host => host.hostid = hostid with
    | some host =>
      if !isWordStatus host.status then .error noStatus
      else .ok (if status = "alive".toList ∧ host.status ≠ "alive".toList then "down".toList else status)
    | none =>
      if status = "dead".toList then .ok status
      else .error (.other ("No host for dev ".toList ++ Text.decimal devid ++ " (host ".toList ++
        Text.decimal hostid ++ ")".toList))

/-! ### Storing -/

section Columns

variable (columns : HostColumns)

/-- Nothing for a duplicate. Any other error of the database goes unnoticed. -/
def updateHostProperty (t : Hosts) (hostid : ℕ) (field : HostField) (v : Text) : Option Hosts :=
  match columns.field field v with
  | none => some t
  | some stored => Hosts.ofRows? (t.rows.map fun row => if row.hostid = hostid then row.set field stored else row)

/-- `MogileFS::Store::create_host`. The default port is that of the column. -/
def createHost (t : Hosts) (hostname ip : Text) : Except Exn (ℕ × Hosts) :=
  let hid := (t.rows.map HostRow.hostid).max?.getD 0 + 1
  match columns.hostname hostname, columns.field .hostip ip with
  | some hostname, some hostip =>
    match Hosts.ofRows? (t.rows ++ [⟨hid, "down".toList, hostname, hostip, some "7500".toList, none, none, none⟩]) with
    | some t => .ok (hid, t)
    | none => .error .dup
  | _, _ => .error (.other "db failure".toList)

/-- `_set_field`. The cache is invalidated by a change. -/
def setField (hostid : ℕ) (field : HostField) (v : Text) (loaded : List HostRow) (t : Hosts) :
    Except Exn (List HostRow) × Hosts :=
  match loadHost hostid loaded t with
  | .error e => (.error e, t)
  | .ok (host, loaded) =>
    if (host.get field).getD [] = v then (.ok loaded, t)
    else
      match updateHostProperty columns t hostid field v with
      | none => (.error .dup, t)
      | some t => (.ok [], t)

/-- The setters of the arguments that are there, in the order of `each`. -/
def setFields (args : Args) (hostid : ℕ) : List HostField → List HostRow → Hosts → Except Exn (List HostRow) × Hosts
  | [], loaded, t => (.ok loaded, t)
  | field :: fields, loaded, t =>
    match args field.arg with
    | none => setFields args hostid fields loaded t
    | some v =>
      match setField columns hostid field v loaded t with
      | (.error e, t) => (.error e, t)
      | (.ok loaded, t) => setFields args hostid fields loaded t

end Columns

/-! ### The handlers -/

/-- `$state && $state =~ /^alive|dead|down$/`. -/
def validState (state : Option Text) : Bool :=
  Text.truthy state && (decide ("alive".toList <+: state.getD []) || decide ("dead".toList <:+: state.getD []) ||
    decide ("down".toList <:+ state.getD []) || decide ("down\n".toList <:+ state.getD []))

def validInitialState (state : Option Text) : Bool := validState state

/-- `overview_hashref`. -/
def overviewHashref (host : HostRow) : List (Text × Text) :=
  [("hostid".toList, Text.decimal host.hostid), ("status".toList, host.status),
    ("http_port".toList, host.httpPort.getD []), ("http_get_port".toList, host.httpGetPort.getD []),
    ("hostname".toList, host.hostname), ("hostip".toList, host.hostip), ("altip".toList, host.altip.getD []),
    ("altmask".toList, host.altmask.getD [])]

/-- What a command finds besides the table: the hosts that the worker has loaded, none if they are too old, and the
order in which `each` goes through `%setter`. -/
structure HostEnv where
  cached : List HostRow
  order : List HostField
  order_perm : order.Perm HostField.all

section Handlers

variable (columns : HostColumns) (env : HostEnv) (args : Args) (t : Hosts)

/-- `$args->{status} ||= 'down'` of a new host. -/
def defaultStatus (args : Args) : Args := fun k =>
  if k = "status" ∧ Text.truthy (args "status") = false then some "down".toList else args k

/-- The setters, and the reply. -/
def setHost (hostid : ℕ) (loaded : List HostRow) : Outcome × Hosts :=
  match setFields columns args hostid env.order loaded t with
  | (.error e, t) => (.dies e, t)
  | (.ok loaded, t) =>
    match loadHost hostid loaded t with
    | .error e => (.dies e, t)
    | .ok (host, _) => (.ok (overviewHashref host), t)

/-- From the check of the status on; `host` is the one of that name. -/
def saveHost (host : Option HostRow) (loaded : List HostRow) : Outcome × Hosts :=
  if !validInitialState (args "status") then (.err "unknown_state", t)
  else
    match host with
    | some host => setHost columns env args t host.hostid loaded
    | none =>
      match createHost columns t ((args "host").getD []) ((args "ip").getD []) with
      | .error e => (.dies e, t)
      | .ok (hostid, t) => setHost columns env args t hostid loaded

def cmdCreateHost : Outcome × Hosts :=
  if !Text.truthy (args "host") then (.err "no_host", t)
  else
    match ofHostname env.cached t ((args "host").getD []) with
    | .error e => (.dies e, t)
    | .ok (host, loaded) =>
      if Text.truthy (args "update") then
        if host.isNone then (.err "host_not_found", t) else saveHost columns env args t host loaded
      else if host.isSome then (.err "host_exists", t)
      else if !Text.truthy (args "ip") then (.err "no_ip", t)
      else if !Text.truthy (args "port") then (.err "no_port", t)
      else saveHost columns env (defaultStatus args) t host loaded

def cmdUpdateHost : Outcome × Hosts :=
  cmdCreateHost columns env (fun k => if k = "update" then some "1".toList else args k) t

end Handlers

/-! ### Sequences of commands -/

/-- A command to create or to update a host, with what it finds. -/
structure HostCommand where
  update : Bool
  args : Args
  env : HostEnv

namespace HostCommand

/-- The arguments that `cmd_create_host` gets. -/
def given (c : HostCommand) : Args :=
  if c.update then fun k => if k = "update" then some "1".toList else c.args k else c.args

def handle (columns : HostColumns) (c : HostCommand) (t : Hosts) : Outcome × Hosts :=
  if c.update then cmdUpdateHost columns c.env c.args t else cmdCreateHost columns c.env c.args t

theorem handle_eq (columns : HostColumns) (c : HostCommand) (t : Hosts) :
    c.handle columns t = cmdCreateHost columns c.env c.given t := by
  unfold handle given
  split <;> rfl

theorem given_status (c : HostCommand) : c.given "status" = c.args "status" := by
  unfold given
  split
  · exact if_neg (by decide)
  · rfl

end HostCommand

/-- The table after the commands. -/
def hostsAfter (columns : HostColumns) (t : Hosts) (cmds : List HostCommand) : Hosts :=
  cmds.foldl (fun t c => (c.handle columns t).2) t

/-- Every status of the table is one of the three. -/
def Hosts.StatusesValid (t : Hosts) : Prop := ∀ row ∈ t.rows, row.status ∈ hostStatuses

/-- Neither loading the hosts nor reading a device dies of a status. -/
def Hosts.Loads (t : Hosts) : Prop :=
  reloadHosts t = .ok t.rows ∧ ∀ devid hostid status, absorbDbrow t devid hostid status ≠ .error noStatus

/-- The answer is an error. -/
def Outcome.IsError (o : Outcome) : Prop := ∃ code text, o.answer = [.err code text]

/-- A status that is none of the three is answered with an error and changes nothing. -/
def HostCommand.Refuses (columns : HostColumns) (c : HostCommand) (t : Hosts) : Prop :=
  ∀ status, c.args "status" = some status → status ∉ hostStatuses →
    (c.handle columns t).1.IsError ∧ (c.handle columns t).2 = t

/-- At every time of the run all statuses are among the three, hosts and devices can be loaded, and the next
command refuses any other status. -/
def StatusDomain (columns : HostColumns) (t : Hosts) (cmds : List HostCommand) : Prop :=
  ∀ before, before <+: cmds → (hostsAfter columns t before).StatusesValid ∧ (hostsAfter columns t before).Loads ∧
    ∀ c, before ++ [c] <+: cmds → c.Refuses columns (hostsAfter columns t before)

/-- The command gets as far as the check of the status: it has a host, which is there if it is to be updated, and
which is not there and has an address and a port if it is to be created. -/
def ReachesCheck (env : HostEnv) (args : Args) (t : Hosts) : Prop :=
  Text.truthy (args "host") = true ∧ ∃ host loaded,
    ofHostname env.cached t ((args "host").getD []) = .ok (host, loaded) ∧
      if Text.truthy (args "update") then host.isSome = true
      else host = none ∧ Text.truthy (args "ip") = true ∧ Text.truthy (args "port") = true

/-- The arguments as they are from the check on. -/
def checkedArgs (args : Args) : Args := if Text.truthy (args "update") then args else defaultStatus args

/-- If the command gets as far as the check, and the check passes, then its status is one of the three. -/
def HostCommand.Guard (c : HostCommand) (t : Hosts) : Prop :=
  ReachesCheck c.env c.given t → validInitialState (checkedArgs c.given "status") = true →
    ∀ status, c.args "status" = some status → status ∈ hostStatuses

/-! ### What a table with good statuses allows -/

theorem isWordStatus_of_mem {status : Text} (h : status ∈ hostStatuses) : isWordStatus status = true := by
  have hall : ∀ status ∈ hostStatuses, isWordStatus status = true := by decide
  exact hall status h

theorem reloadHosts_eq {t : Hosts} (h : t.StatusesValid) : reloadHosts t = .ok t.rows := by
  rw [reloadHosts, if_pos]
  exact List.all_eq_true.mpr fun row hrow => isWordStatus_of_mem (h row hrow)

theorem Hosts.StatusesValid.loads {t : Hosts} (h : t.StatusesValid) : t.Loads := by
  refine ⟨reloadHosts_eq h, fun devid hostid status hdies => ?_⟩
  rw [absorbDbrow, reloadHosts_eq h] at hdies
  dsimp only at hdies
  cases hfound : t.rows.find? fun host => host.hostid = hostid with
  | some host =>
    have hword := isWordStatus_of_mem (h host (List.mem_of_find?_eq_some hfound))
    simp [hfound, hword] at hdies
  | none =>
    rw [hfound] at hdies
    dsimp only at hdies
    split at hdies
    · exact absurd hdies (by simp)
    · have htext := Exn.other.inj (Except.error.inj hdies)
      have hrest := (List.cons_eq_cons.mp (List.cons_eq_cons.mp (List.cons_eq_cons.mp htext).2).2).2
      exact absurd (List.cons_eq_cons.mp hrest).1 (by decide)

/-! ### What the commands keep -/

section Keep

variable {columns : HostColumns} {env : HostEnv} {args : Args} {t : Hosts} {hostid : ℕ} {loaded : List HostRow}
  {field : HostField} {v : Text}

theorem status_set (row : HostRow) : (row.set field v).status = if field = .status then v else row.status := by
  cases field <;> rfl

/-- The value of an argument for column `status` is one of the three. -/
def StatusGiven (field : HostField) (v : Text) : Prop := field = .status → v ∈ hostStatuses

namespace Hosts.StatusesValid

theorem updateHostProperty {t' : Hosts} (h : t.StatusesValid) (hv : StatusGiven field v)
    (hupdate : Ylem.updateHostProperty columns t hostid field v = some t') : t'.StatusesValid := by
  unfold Ylem.updateHostProperty at hupdate
  cases hcolumn : columns.field field v with
  | none =>
    rw [hcolumn] at hupdate
    exact Option.some.inj hupdate ▸ h
  | some stored =>
    rw [hcolumn] at hupdate
    intro row hrow
    rw [rows_ofRows? hupdate] at hrow
    obtain ⟨old, hold, rfl⟩ := List.mem_map.mp hrow
    by_cases hid : old.hostid = hostid
    · rw [if_pos hid, status_set]
      by_cases hfield : field = .status
      · have hstored := columns.status_stored v (hv hfield)
        rw [hfield, hstored] at hcolumn
        rw [if_pos hfield, ← Option.some.inj hcolumn]
        exact hv hfield
      · rw [if_neg hfield]
        exact h old hold
    · rw [if_neg hid]
      exact h old hold

theorem createHost {hostname ip : Text} {hid : ℕ} {t' : Hosts} (h : t.StatusesValid)
    (hcreate : Ylem.createHost columns t hostname ip = .ok (hid, t')) : t'.StatusesValid := by
  unfold Ylem.createHost at hcreate
  dsimp only at hcreate
  split at hcreate
  · split at hcreate
    · rename_i hrows
      obtain ⟨-, rfl⟩ := Prod.mk.inj (Except.ok.inj hcreate)
      intro row hrow
      rw [rows_ofRows? hrows] at hrow
      rcases List.mem_append.mp hrow with hold | hnew
      · exact h row hold
      · rw [List.mem_singleton.mp hnew]
        show "down".toList ∈ hostStatuses
        decide
    · exact absurd hcreate (by simp)
  · exact absurd hcreate (by simp)

theorem setField (h : t.StatusesValid) (hv : StatusGiven field v) :
    (Ylem.setField columns hostid field v loaded t).2.StatusesValid := by
  unfold Ylem.setField
  cases loadHost hostid loaded t with
  | error e => exact h
  | ok found =>
    dsimp only
    split
    · exact h
    · cases hupdate : Ylem.updateHostProperty columns t hostid field v with
      | none => exact h
      | some t' => exact h.updateHostProperty hv hupdate

theorem setFields (fields : List HostField) (h : t.StatusesValid)
    (hargs : ∀ status, args "status" = some status → status ∈ hostStatuses) :
    (Ylem.setFields columns args hostid fields loaded t).2.StatusesValid := by
  induction fields generalizing loaded t with
  | nil => exact h
  | cons field fields ih =>
    rw [Ylem.setFields]
    cases hv : args field.arg with
    | none => exact ih h
    | some v =>
      have hgiven : StatusGiven field v := by
        rintro rfl
        exact hargs v hv
      have hfield : (Ylem.setField columns hostid field v loaded t).2.StatusesValid := h.setField hgiven
      dsimp only
      split
      · rename_i heq
        rw [heq] at hfield
        exact hfield
      · rename_i heq
        rw [heq] at hfield
        exact ih hfield

theorem setHost (h : t.StatusesValid) (hargs : ∀ status, args "status" = some status → status ∈ hostStatuses) :
    (Ylem.setHost columns env args t hostid loaded).2.StatusesValid := by
  have hset : (Ylem.setFields columns args hostid env.order loaded t).2.StatusesValid := h.setFields env.order hargs
  unfold Ylem.setHost
  split
  · rename_i heq
    rw [heq] at hset
    exact hset
  · rename_i heq
    rw [heq] at hset
    split <;> exact hset

theorem saveHost {host : Option HostRow} (h : t.StatusesValid) (hargs : validInitialState (args "status") = true →
    ∀ status, args "status" = some status → status ∈ hostStatuses) :
    (Ylem.saveHost columns env args t host loaded).2.StatusesValid := by
  unfold Ylem.saveHost
  cases hvalid : validInitialState (args "status") with
  | false => exact h
  | true =>
    rw [Bool.not_true, if_neg Bool.false_ne_true]
    cases host with
    | some host => exact h.setHost (hargs hvalid)
    | none =>
      dsimp only
      cases hcreate : Ylem.createHost columns t ((args "host").getD []) ((args "ip").getD []) with
      | error e => exact h
      | ok created => exact (h.createHost hcreate).setHost (hargs hvalid)

end Hosts.StatusesValid

theorem cmdCreateHost_cases (columns : HostColumns) (env : HostEnv) (args : Args) (t : Hosts) :
    (¬ ReachesCheck env args t ∧ (cmdCreateHost columns env args t).1.IsError ∧
      (cmdCreateHost columns env args t).2 = t) ∨
    (ReachesCheck env args t ∧ ∃ host loaded,
      cmdCreateHost columns env args t = saveHost columns env (checkedArgs args) t host loaded) := by
  have herr : ∀ code, (Outcome.err code).IsError := fun code => ⟨_, _, rfl⟩
  unfold cmdCreateHost
  by_cases hhost : Text.truthy (args "host") = true
  · rw [hhost, Bool.not_true, if_neg Bool.false_ne_true]
    cases hfound : ofHostname env.cached t ((args "host").getD []) with
    | error e =>
      refine .inl ⟨fun ⟨_, host, loaded, heq, _⟩ => ?_, ?_, rfl⟩
      · exact absurd (hfound.symm.trans heq) (by simp)
      · cases e <;> exact ⟨_, _, rfl⟩
    | ok found =>
      obtain ⟨host, loaded⟩ := found
      have hreach : ReachesCheck env args t ↔ if Text.truthy (args "update") then host.isSome = true
          else host = none ∧ Text.truthy (args "ip") = true ∧ Text.truthy (args "port") = true := by
        refine ⟨fun ⟨_, host', loaded', heq, hthere⟩ => ?_, fun hthere => ⟨hhost, host, loaded, hfound, hthere⟩⟩
        obtain ⟨rfl, rfl⟩ := Prod.mk.inj (Except.ok.inj (hfound.symm.trans heq))
        exact hthere
      rw [hreach]
      unfold checkedArgs
      dsimp only
      cases hupdate : Text.truthy (args "update") with
      | true =>
        simp only [if_true]
        cases host with
        | none => exact .inl ⟨by simp, herr _, rfl⟩
        | some host => exact .inr ⟨rfl, some host, loaded, rfl⟩
      | false =>
        simp only [Bool.false_eq_true, if_false]
        cases host with
        | some host => exact .inl ⟨by simp, herr _, rfl⟩
        | none =>
          cases hip : Text.truthy (args "ip") with
          | false => exact .inl ⟨by simp, herr _, rfl⟩
          | true =>
            cases hport : Text.truthy (args "port") with
            | false => exact .inl ⟨by simp, herr _, rfl⟩
            | true => exact .inr ⟨⟨rfl, rfl, rfl⟩, none, loaded, rfl⟩
  · refine .inl ⟨fun h => hhost h.1, ?_⟩
    rw [Bool.not_eq_true] at hhost
    rw [hhost]
    exact ⟨herr _, rfl⟩

end Keep

/-! ### The domain of the statuses -/

section Domain

variable {columns : HostColumns} {c : HostCommand} {t : Hosts}

theorem checkedArgs_status (args : Args) {status : Text} (h : checkedArgs args "status" = some status)
    (hall : ∀ status, args "status" = some status → status ∈ hostStatuses) : status ∈ hostStatuses := by
  unfold checkedArgs at h
  split at h
  · exact hall status h
  · unfold defaultStatus at h
    split at h
    · rw [← Option.some.inj h]
      decide
    · exact hall status h

theorem HostCommand.Guard.statusesValid (h : c.Guard t) (ht : t.StatusesValid) :
    (c.handle columns t).2.StatusesValid := by
  rw [c.handle_eq]
  rcases cmdCreateHost_cases columns c.env c.given t with ⟨-, -, heq⟩ | ⟨hreach, host, loaded, heq⟩
  · rw [heq]
    exact ht
  · rw [heq]
    refine ht.saveHost fun hvalid status hstatus => checkedArgs_status c.given hstatus fun given hgiven => ?_
    rw [c.given_status] at hgiven
    exact h hreach hvalid given hgiven

theorem HostCommand.Guard.refuses (h : c.Guard t) : c.Refuses columns t := by
  intro status hstatus hother
  rw [c.handle_eq]
  rcases cmdCreateHost_cases columns c.env c.given t with ⟨-, herror, heq⟩ | ⟨hreach, host, loaded, heq⟩
  · exact ⟨herror, heq⟩
  · have hinvalid : validInitialState (checkedArgs c.given "status") = false := by
      rw [← Bool.not_eq_true]
      exact fun hvalid => hother (h hreach hvalid status hstatus)
    unfold saveHost at heq
    rw [hinvalid, Bool.not_false, if_pos rfl] at heq
    rw [heq]
    exact ⟨⟨_, _, rfl⟩, rfl⟩

/-- If every command of a sequence that gets as far as the check of the status, and passes it, has one of the three
statuses or none, then the table never has any other, and every command refuses any other. -/
theorem statusDomain_of_guards (columns : HostColumns) (t : Hosts) (cmds : List HostCommand) (ht : t.StatusesValid)
    (hguard : ∀ before c, before ++ [c] <+: cmds → c.Guard (hostsAfter columns t before)) :
    StatusDomain columns t cmds := by
  intro before hbefore
  have hvalid : (hostsAfter columns t before).StatusesValid := by
    induction before using List.reverseRecOn with
    | nil => exact ht
    | append_singleton before c ih =>
      have hearlier := ih ((List.prefix_append _ _).trans hbefore)
      rw [hostsAfter, List.foldl_concat]
      exact (hguard before c hbefore).statusesValid hearlier
  exact ⟨hvalid, hvalid.loads, fun c hc => (hguard before c hc).refuses⟩

end Domain

/-- An `ENUM` column stores the empty string for anything that is none of its values. -/
def enumColumns : HostColumns where
  field field v := if field = .status ∧ v ∉ hostStatuses then some [] else some v
  hostname := some
  status_stored := fun _ hstatus => if_neg fun h => h.2 hstatus

/-- A command to create a host with that status. -/
def createWithStatus (status : Text) : HostCommand where
  update := false
  args k := [("host", "web1".toList), ("ip", "10.0.0.1".toList), ("port", "7500".toList), ("status", status)].lookup k
  env := ⟨[], HostField.all, List.Perm.refl _⟩

theorem statusDomain_alive : StatusDomain enumColumns Hosts.empty [createWithStatus "alive".toList] := by
  refine statusDomain_of_guards _ _ _ (fun row hrow => absurd hrow List.not_mem_nil) fun before c hc => ?_
  obtain rfl : c = createWithStatus "alive".toList :=
    List.mem_singleton.mp (hc.subset (List.mem_append_right _ (List.mem_singleton.mpr rfl)))
  intro _ _ status hstatus
  obtain rfl : "alive".toList = status := Option.some.inj hstatus
  decide

/-- A status that starts with `alive` passes the check, and the host is left with the empty status, with which no
worker loads the hosts. -/
theorem not_statusDomain_alive2 : ¬ StatusDomain enumColumns Hosts.empty [createWithStatus "alive2".toList] := by
  intro h
  have hvalid := (h [createWithStatus "alive2".toList] List.prefix_rfl).1
  have hrows : (hostsAfter enumColumns Hosts.empty [createWithStatus "alive2".toList]).rows.map HostRow.status = [[]] := by
    decide
  have hmem : [] ∈ (hostsAfter enumColumns Hosts.empty [createWithStatus "alive2".toList]).rows.map HostRow.status := by
    rw [hrows]
    exact List.mem_singleton.mpr rfl
  obtain ⟨row, hrow, hstatus⟩ := List.mem_map.mp hmem
  exact absurd (hstatus ▸ hvalid row hrow) (by decide)

end Ylem
