import Ylem.Device
import Ylem.Lib.Folds
import Ylem.Query.Hosts

/-!
# Devices and their hosts

The commands that create a device, change its state and delete a host, with the functions of `MogileFS::Device`
below them. A worker loads all devices at once, and dies of one with the id 0, and of one that is not dead and has no
host. Every other worker that has to load them dies of it too, so that a device like this ends the service.

The commands check what would lead to one against the hosts and devices that their worker has loaded, which may be
those of an earlier time. The devices can be loaded after every command of a run exactly if no command relies on a host
that is gone or misses a device that has come (`loads_always_iff`). If no worker has loaded what is gone or misses what
has come, this leaves the id 0: the check of a new id looks at the text, and lets `00` pass (`loads_current_iff`).
-/

namespace Ylem

/-! ### The tables -/

/-- A row of table `device`. -/
structure DeviceRow where
  devid : ℕ
  hostid : ℕ
  status : DeviceState
  deriving DecidableEq

/-- The tables of the hosts and their devices. -/
structure Nodes where
  hosts : Hosts
  device : Table DeviceRow ℕ DeviceRow.devid

def Nodes.empty : Nodes := ⟨Hosts.empty, Table.empty⟩

/-- There is a host with that id. -/
def Hosts.HasId (t : Hosts) (hostid : ℕ) : Prop := hostid ∈ t.rows.map HostRow.hostid

/-- `DELETE FROM host WHERE hostid = ?`. -/
def Hosts.delete (t : Hosts) (hostid : ℕ) : Hosts :=
  ⟨t.rows.filter fun row => row.hostid ≠ hostid,
    ⟨(List.filter_sublist.map _).nodup t.unique.1, (List.filter_sublist.map _).nodup t.unique.2.1,
      (List.filter_sublist.map _).nodup t.unique.2.2.1, (List.filter_sublist.filterMap _).nodup t.unique.2.2.2⟩⟩

/-- The names of the states. -/
def deviceStates : List (Text × DeviceState) :=
  [("alive".toList, .alive), ("dead".toList, .dead), ("down".toList, .down), ("readonly".toList, .readonly),
    ("drain".toList, .drain)]

/-- `MogileFS::DeviceState->of_string`. -/
def DeviceState.ofString (state : Option Text) : Option DeviceState :=
  if Text.truthy state then deviceStates.lookup (state.getD []) else none

/-! ### Loading -/

/-- `MogileFS::Host->of_hostid` with `exists`: the host, and the hosts that are loaded afterwards. -/
def hostOfId (loaded : List HostRow) (t : Hosts) (hostid : ℕ) : Except Exn (Option HostRow × List HostRow) :=
  if hostid = 0 then .ok (none, loaded)
  else
    match loaded.find? fun host => host.hostid = hostid with
    | some host => .ok (some host, loaded)
    | none => (reloadHosts t).map fun hosts => (hosts.find? fun host => host.hostid = hostid, hosts)

/-- What `absorb_dbrow` dies of. -/
def noHost (row : DeviceRow) : Exn :=
  .other ("No host for dev ".toList ++ Text.decimal row.devid ++ " (host ".toList ++ Text.decimal row.hostid ++
    ")".toList)

/-- The device of a row, as it is in memory. -/
def absorbRow (loaded : List HostRow) (t : Hosts) (row : DeviceRow) : Except Exn (DeviceRow × List HostRow) :=
  match hostOfId loaded t row.hostid with
  | .error e => .error e
  | .ok (some host, loaded) =>
    if !isWordStatus host.status then .error noStatus
    else if row.status = .alive ∧ host.status ≠ "alive".toList then .ok ({ row with status := .down }, loaded)
    else .ok (row, loaded)
  | .ok (none, loaded) => if row.status = .dead then .ok (row, loaded) else .error (noHost row)

/-- The loop of `reload_devices`. -/
def reloadRows (t : Hosts) : List DeviceRow → List HostRow → Except Exn (List DeviceRow × List HostRow)
  | [], loaded => .ok ([], loaded)
  | row :: rows, loaded =>
    -- `of_devid`
    if row.devid = 0 then .error (.other "Invalid devid".toList)
    else
      match absorbRow loaded t row with
      | .error e => .error e
      | .ok (dev, loaded) => (reloadRows t rows loaded).map fun result => (dev :: result.1, result.2)

/-- `reload_devices`, with the hosts that are loaded when it starts. -/
def reloadDevices (loaded : List HostRow) (t : Nodes) : Except Exn (List DeviceRow × List HostRow) :=
  reloadRows t.hosts t.device.rows loaded

/-- What a worker has loaded, and whether that has been in the last five seconds for the hosts and in the last fifteen
for the devices. -/
structure NodeView where
  hosts : List HostRow
  hostsRecent : Bool
  devices : List DeviceRow
  devicesRecent : Bool

namespace NodeView

variable (view : NodeView)

/-- `MogileFS::Host->check_cache`. -/
def checkHosts (t : Hosts) : Except Exn (List HostRow) := if view.hostsRecent then .ok view.hosts else reloadHosts t

/-- `MogileFS::Device->devices`, with the hosts that are loaded already. -/
def checkDevices (loaded : List HostRow) (t : Nodes) : Except Exn (List DeviceRow) :=
  if view.devicesRecent then .ok view.devices else (reloadDevices loaded t).map Prod.fst

/-- `MogileFS::Device->of_devid` with `exists`: the device, and the hosts that are loaded afterwards. -/
def deviceOfId (t : Nodes) (devid : ℚ) : Except Exn (Option DeviceRow × List HostRow) :=
  match view.devices.find? fun dev => (dev.devid : ℚ) = devid with
  | some dev => .ok (some dev, view.hosts)
  | none => do
    let hosts ← view.checkHosts t.hosts
    let (devs, hosts) ← reloadDevices hosts t
    pure (devs.find? fun dev => (dev.devid : ℚ) = devid, hosts)

end NodeView

/-! ### The handlers -/

/-- What the database makes of a new devid, nothing where it refuses it. -/
structure NodeColumns extends HostColumns where
  devid : ℕ → Option ℕ
  devid_stored : ∀ n < 2 ^ 24, devid n = some n

/-- `=~ /^\d+$/`. The pattern ends before a line feed at the end, too. -/
def isDigits (t : Text) : Bool :=
  (t != [] && t.all Char.isDigit) || (t.getLast? = some '\n' && t.dropLast != [] && t.dropLast.all Char.isDigit)

section Handlers

variable (columns : NodeColumns) (view : NodeView) (args : Args) (t : Nodes)

/-- `MogileFS::Host->of_hostid` of what a client has sent, which is a key of a hash. -/
def hostOfText (loaded : List HostRow) (hostid : Text) : Except Exn (Option HostRow) :=
  match loaded.find? fun host => Text.decimal host.hostid = hostid with
  | some host => .ok (some host)
  | none => (reloadHosts t.hosts).map fun hosts => hosts.find? fun host => Text.decimal host.hostid = hostid

/-- The host of a new device. -/
def hostOfNew (loaded : List HostRow) : Except Outcome HostRow :=
  if Text.truthy (args "hostid") && isDigits ((args "hostid").getD []) then
    match hostOfText t loaded ((args "hostid").getD []) with
    | .error e => .error (.dies e)
    | .ok none => .error (.err "unknown_hostid")
    | .ok (some host) => .ok host
  else if Text.truthy (args "hostname") then
    match ofHostname loaded t.hosts ((args "hostname").getD []) with
    | .error e => .error (.dies e)
    | .ok (none, _) => .error (.err "unknown_host")
    | .ok (some host, _) => .ok host
  else .error (.errText "bad_args" "No hostid/hostname parameter".toList)

/-- The device that a `create_device` asks for, once it has passed the checks. -/
def newDevice : Except Outcome DeviceRow :=
  match DeviceState.ofString (if Text.truthy (args "state") then args "state" else some "alive".toList) with
  | none => .error (.err "invalid_state")
  | some status =>
    let devid := (args "devid").getD []
    if !(Text.truthy (args "devid") && isDigits devid) then .error (.err "invalid_devid")
    else
      match view.checkHosts t.hosts with
      | .error e => .error (.dies e)
      | .ok loaded => (hostOfNew args t loaded).map fun host =>
        ⟨Text.ofDigits (devid.takeWhile Char.isDigit), host.hostid, status⟩

def cmdCreateDevice : Outcome × Nodes :=
  match newDevice view args t with
  | .error o => (o, t)
  | .ok row =>
    match columns.devid row.devid with
    | none => (.dies (.other "Database error".toList), t)
    | some devid =>
      if t.device.Has devid then (.err "existing_devid", t)
      else (.ok [], { t with device := t.device.insertIgnore { row with devid } })

/-- The device and its new state, once a `set_state` has passed the checks. -/
def stateChange : Except Outcome (ℕ × DeviceState) :=
  let hostname := (args "host").getD []
  let devid := Text.numify ((args "device").getD [])
  match DeviceState.ofString (args "state") with
  | none => .error (.err "bad_params")
  | some state =>
    if !Text.truthy (args "host") ∨ devid = 0 then .error (.err "bad_params")
    else
      match view.deviceOfId t devid with
      | .error e => .error (.dies e)
      | .ok (none, _) => .error (.err "host_mismatch")
      | .ok (some dev, loaded) =>
        match hostOfId loaded t.hosts dev.hostid with
        | .error e => .error (.dies e)
        | .ok (none, _) => .error (.err "host_mismatch")
        | .ok (some host, _) =>
          if host.hostname ≠ hostname then .error (.err "host_mismatch")
          -- `can_change_to_state`
          else if dev.status.isPermDead ∧ state = .alive then .error (.err "state_too_high")
          else .ok (dev.devid, state)

def cmdSetState : Outcome × Nodes :=
  match stateChange view args t with
  | .error o => (o, t)
  | .ok (devid, status) =>
    let device := t.device.update (fun row => if row.devid = devid then { row with status } else row)
      (fun row => by split_ifs <;> rfl)
    (.ok [], { t with device })

/-- The host that a `delete_host` deletes, once it has passed the checks. -/
def doomedHost : Except Outcome ℕ :=
  match ofHostname (if view.hostsRecent then view.hosts else []) t.hosts ((args "host").getD []) with
  | .error e => .error (.dies e)
  | .ok (none, _) => .error (.err "unknown_host")
  | .ok (some host, loaded) =>
    match view.checkDevices loaded t with
    | .error e => .error (.dies e)
    | .ok devs =>
      if devs.any fun dev => dev.hostid = host.hostid && dev.status ≠ .dead then .error (.err "host_not_empty")
      else .ok host.hostid

def cmdDeleteHost : Outcome × Nodes :=
  match doomedHost view args t with
  | .error o => (o, t)
  | .ok hostid => (.ok [], { t with hosts := t.hosts.delete hostid })

end Handlers

/-! ### Sequences of commands -/

/-- A command on the tables, with what it finds. -/
inductive NodeCommand where
  | host (c : HostCommand)
  | createDevice (view : NodeView) (args : Args)
  | setState (view : NodeView) (args : Args)
  | deleteHost (view : NodeView) (args : Args)

def NodeCommand.handle (columns : NodeColumns) (t : Nodes) : NodeCommand → Outcome × Nodes
  | .host c =>
    ((c.handle columns.toHostColumns t.hosts).1, { t with hosts := (c.handle columns.toHostColumns t.hosts).2 })
  | .createDevice view args => cmdCreateDevice columns view args t
  | .setState view args => cmdSetState view args t
  | .deleteHost view args => cmdDeleteHost view args t

/-- The tables after the commands. -/
def nodesAfter (columns : NodeColumns) (cmds : List NodeCommand) : Nodes :=
  cmds.foldl (fun t c => (c.handle columns t).2) .empty

/-- A worker that has loaded nothing yet can load the hosts and the devices. -/
def Nodes.Loads (t : Nodes) : Prop :=
  ∃ hosts result, reloadHosts t.hosts = .ok hosts ∧ reloadDevices hosts t = .ok result

/-- What the command is about to do leaves no device without a host that is not dead, and no device 0. -/
def NodeCommand.Safe (columns : NodeColumns) (t : Nodes) : NodeCommand → Prop
  | .host _ => True
  | .createDevice view args => ∀ row devid, newDevice view args t = .ok row →
      columns.devid row.devid = some devid → ¬ t.device.Has devid →
        devid ≠ 0 ∧ (row.status = .dead ∨ t.hosts.HasId row.hostid)
  | .setState view args => ∀ devid state, stateChange view args t = .ok (devid, state) → state = .dead ∨
      ∀ row ∈ t.device.rows, row.devid = devid → t.hosts.HasId row.hostid
  | .deleteHost view args => ∀ hostid, doomedHost view args t = .ok hostid →
      ∀ row ∈ t.device.rows, row.hostid = hostid → row.status = .dead

/-! ### The hosts of a run -/

/-- The hosts can be loaded, and none has the id 0. -/
structure Hosts.Sound (t : Hosts) : Prop where
  statuses : t.StatusesValid
  hostid : ¬ t.HasId 0

/-- The hosts stay where they are, and sound. -/
structure Hosts.Keeps (t t' : Hosts) : Prop where
  hasId : ∀ hostid, t.HasId hostid → t'.HasId hostid
  sound : t.Sound → t'.Sound

/-- The database stores one of the three statuses, or refuses the statement. -/
def HostColumns.Strict (columns : HostColumns) : Prop :=
  ∀ status stored, columns.field .status status = some stored → stored ∈ hostStatuses

section Keeps

variable {columns : HostColumns} {args : Args} {t t' : Hosts} {field : HostField} {v : Text} {hostid : ℕ}
  {loaded : List HostRow}

theorem Hosts.Keeps.refl (t : Hosts) : t.Keeps t := ⟨fun _ => id, id⟩

theorem Hosts.Keeps.trans {t'' : Hosts} (h : t.Keeps t') (h' : t'.Keeps t'') : t.Keeps t'' :=
  ⟨fun hostid hid => h'.hasId hostid (h.hasId hostid hid), fun hsound => h'.sound (h.sound hsound)⟩

theorem hostid_set (row : HostRow) : (row.set field v).hostid = row.hostid := by
  cases field <;> rfl

theorem keeps_updateHostProperty (hstrict : columns.Strict)
    (h : updateHostProperty columns t hostid field v = some t') : t.Keeps t' := by
  unfold updateHostProperty at h
  cases hstored : columns.field field v with
  | none =>
    rw [hstored] at h
    exact Option.some.inj h ▸ .refl t
  | some stored =>
    rw [hstored] at h
    have hrows := Hosts.rows_ofRows? h
    have hids : t'.rows.map HostRow.hostid = t.rows.map HostRow.hostid := by
      rw [hrows, List.map_map]
      refine List.map_congr_left fun row _ => ?_
      dsimp only [Function.comp_apply]
      split_ifs
      · exact hostid_set row
      · rfl
    refine ⟨fun id hid => ?_, fun hsound => ⟨fun row hrow => ?_, ?_⟩⟩
    · rwa [Hosts.HasId, hids]
    · rw [hrows] at hrow
      obtain ⟨old, hold, rfl⟩ := List.mem_map.mp hrow
      split_ifs
      · rw [status_set]
        split_ifs with hfield
        · subst hfield
          exact hstrict v stored hstored
        · exact hsound.statuses old hold
      · exact hsound.statuses old hold
    · rw [Hosts.HasId, hids]
      exact hsound.hostid

theorem keeps_createHost {hostname ip : Text} {hid : ℕ} (h : createHost columns t hostname ip = .ok (hid, t')) :
    t.Keeps t' := by
  unfold createHost at h
  extract_lets new at h
  split at h
  · split at h
    · rename_i created hofRows
      obtain ⟨-, rfl⟩ := Prod.mk.inj (Except.ok.inj h)
      have hrows := Hosts.rows_ofRows? hofRows
      have hids : created.rows.map HostRow.hostid = t.rows.map HostRow.hostid ++ [new] := by
        rw [hrows, List.map_append]
        rfl
      refine ⟨fun id hid => ?_, fun hsound => ⟨fun row hrow => ?_, fun hzero => ?_⟩⟩
      · rw [Hosts.HasId, hids]
        exact List.mem_append_left _ hid
      · rw [hrows] at hrow
        rcases List.mem_append.mp hrow with hold | hnew
        · exact hsound.statuses row hold
        · rw [List.mem_singleton.mp hnew]
          show "down".toList ∈ hostStatuses
          decide
      · rw [Hosts.HasId, hids] at hzero
        rcases List.mem_append.mp hzero with hold | hnew
        · exact hsound.hostid hold
        · exact absurd (List.mem_singleton.mp hnew) (Nat.succ_ne_zero _).symm
    · cases h
  · cases h

theorem keeps_setField (hstrict : columns.Strict) : t.Keeps (setField columns hostid field v loaded t).2 := by
  unfold setField
  split
  · exact .refl t
  · split_ifs
    · exact .refl t
    · split
      · exact .refl t
      · rename_i hupdate
        exact keeps_updateHostProperty hstrict hupdate

theorem keeps_setFields (hstrict : columns.Strict) (fields : List HostField) :
    t.Keeps (setFields columns args hostid fields loaded t).2 := by
  induction fields generalizing loaded t with
  | nil => exact .refl t
  | cons field fields ih =>
    rw [setFields]
    split
    · exact ih
    · rename_i v _
      have hfield : t.Keeps (setField columns hostid field v loaded t).2 := keeps_setField hstrict
      split
      · rename_i heq
        rw [heq] at hfield
        exact hfield
      · rename_i heq
        rw [heq] at hfield
        exact hfield.trans ih

theorem keeps_setHost (hstrict : columns.Strict) (env : HostEnv) :
    t.Keeps (setHost columns env args t hostid loaded).2 := by
  have hfields : t.Keeps (setFields columns args hostid env.order loaded t).2 := keeps_setFields hstrict env.order
  unfold setHost
  split
  · rename_i heq
    rw [heq] at hfields
    exact hfields
  · rename_i heq
    rw [heq] at hfields
    split
    · exact hfields
    · exact hfields

theorem keeps_saveHost (hstrict : columns.Strict) (env : HostEnv) (host : Option HostRow) :
    t.Keeps (saveHost columns env args t host loaded).2 := by
  unfold saveHost
  split_ifs
  · exact .refl t
  · split
    · exact keeps_setHost hstrict env
    · split
      · exact .refl t
      · rename_i hcreate
        exact (keeps_createHost hcreate).trans (keeps_setHost hstrict env)

theorem keeps_handle (hstrict : columns.Strict) (c : HostCommand) : t.Keeps (c.handle columns t).2 := by
  rw [c.handle_eq]
  rcases cmdCreateHost_cases columns c.env c.given t with ⟨-, -, heq⟩ | ⟨-, host, loaded, heq⟩
  · rw [heq]
    exact .refl t
  · rw [heq]
    exact keeps_saveHost hstrict c.env host

theorem hasId_delete {id : ℕ} : (t.delete hostid).HasId id ↔ t.HasId id ∧ id ≠ hostid := by
  constructor
  · intro h
    obtain ⟨row, hrow, rfl⟩ := List.mem_map.mp h
    obtain ⟨hmem, hne⟩ := List.mem_filter.mp hrow
    exact ⟨List.mem_map_of_mem hmem, by simpa using hne⟩
  · rintro ⟨h, hne⟩
    obtain ⟨row, hrow, rfl⟩ := List.mem_map.mp h
    exact List.mem_map_of_mem (List.mem_filter.mpr ⟨hrow, by simpa using hne⟩)

theorem Hosts.Sound.delete (h : t.Sound) (hostid : ℕ) : (t.delete hostid).Sound :=
  ⟨fun row hrow => h.statuses row (List.mem_of_mem_filter hrow), fun hzero => h.hostid (hasId_delete.mp hzero).1⟩

theorem sound_handle {columns : NodeColumns} (hstrict : columns.Strict) {t : Nodes} (h : t.hosts.Sound)
    (c : NodeCommand) : (c.handle columns t).2.hosts.Sound := by
  cases c with
  | host c => exact (keeps_handle hstrict c).sound h
  | createDevice view args =>
    show (cmdCreateDevice columns view args t).2.hosts.Sound
    unfold cmdCreateDevice
    split
    · exact h
    split
    · exact h
    · split_ifs <;> exact h
  | setState view args =>
    show (cmdSetState view args t).2.hosts.Sound
    unfold cmdSetState
    split <;> exact h
  | deleteHost view args =>
    show (cmdDeleteHost view args t).2.hosts.Sound
    unfold cmdDeleteHost
    split
    · exact h
    · exact h.delete _

end Keeps

/-! ### What can be loaded -/

section Loads

variable {t : Hosts}

/-- A row that can be loaded. -/
def Hosts.Takes (t : Hosts) (row : DeviceRow) : Prop := row.devid ≠ 0 ∧ (row.status = .dead ∨ t.HasId row.hostid)

theorem hostOfId_eq (h : t.Sound) (hostid : ℕ) :
    hostOfId t.rows t hostid = .ok (t.rows.find? fun host => host.hostid = hostid, t.rows) := by
  unfold hostOfId
  split_ifs with hzero
  · have hnone : (t.rows.find? fun host => host.hostid = hostid) = none := by
      refine List.find?_eq_none.mpr fun row hrow hid => h.hostid ?_
      rw [← hzero, ← of_decide_eq_true hid]
      exact List.mem_map_of_mem hrow
    rw [hnone]
  · split
    · rename_i hfound
      rw [hfound]
    · rw [reloadHosts_eq h.statuses]
      rfl

theorem isSome_find?_iff (t : Hosts) (hostid : ℕ) :
    (t.rows.find? fun host => host.hostid = hostid).isSome = true ↔ t.HasId hostid := by
  rw [List.find?_isSome, Hosts.HasId, List.mem_map]
  simp only [decide_eq_true_eq]

theorem absorbRow_cases (h : t.Sound) (row : DeviceRow) :
    ((row.status = .dead ∨ t.HasId row.hostid) ∧ ∃ dev, absorbRow t.rows t row = .ok (dev, t.rows)) ∨
      (¬ (row.status = .dead ∨ t.HasId row.hostid) ∧ ∃ e, absorbRow t.rows t row = .error e) := by
  have hsome := isSome_find?_iff t row.hostid
  unfold absorbRow
  rw [hostOfId_eq h]
  cases hfound : t.rows.find? fun host => host.hostid = row.hostid with
  | none =>
    rw [hfound] at hsome
    have hnot : ¬ t.HasId row.hostid := fun hid => Bool.false_ne_true (hsome.mpr hid)
    dsimp only
    by_cases hdead : row.status = .dead
    · rw [if_pos hdead]
      exact .inl ⟨.inl hdead, row, rfl⟩
    · rw [if_neg hdead]
      exact .inr ⟨fun hor => hor.elim hdead hnot, noHost row, rfl⟩
  | some host =>
    rw [hfound] at hsome
    have hword := isWordStatus_of_mem (h.statuses host (List.mem_of_find?_eq_some hfound))
    refine .inl ⟨.inr (hsome.mp rfl), ?_⟩
    dsimp only
    rw [hword, Bool.not_true, if_neg Bool.false_ne_true]
    split_ifs
    · exact ⟨_, rfl⟩
    · exact ⟨_, rfl⟩

theorem reloadRows_cases (h : t.Sound) (rows : List DeviceRow) :
    ((∀ row ∈ rows, t.Takes row) ∧ ∃ devs, reloadRows t rows t.rows = .ok (devs, t.rows)) ∨
      (¬ (∀ row ∈ rows, t.Takes row) ∧ ∃ e, reloadRows t rows t.rows = .error e) := by
  induction rows with
  | nil => exact .inl ⟨fun row hrow => absurd hrow List.not_mem_nil, [], rfl⟩
  | cons row rows ih =>
    rw [reloadRows, List.forall_mem_cons]
    by_cases hzero : row.devid = 0
    · rw [if_pos hzero]
      exact .inr ⟨fun hall => hall.1.1 hzero, _, rfl⟩
    · rw [if_neg hzero]
      rcases absorbRow_cases h row with ⟨hgood, dev, heq⟩ | ⟨hbad, e, heq⟩
      · rw [heq]
        dsimp only
        rcases ih with ⟨hrows, devs, hreload⟩ | ⟨hrows, e, hreload⟩
        · rw [hreload]
          exact .inl ⟨⟨⟨hzero, hgood⟩, hrows⟩, dev :: devs, rfl⟩
        · rw [hreload]
          exact .inr ⟨fun hall => hrows hall.2, e, rfl⟩
      · rw [heq]
        exact .inr ⟨fun hall => hbad hall.1.2, e, rfl⟩

theorem loads_iff {t : Nodes} (h : t.hosts.Sound) : t.Loads ↔ ∀ row ∈ t.device.rows, t.hosts.Takes row := by
  have hhosts := reloadHosts_eq h.statuses
  rcases reloadRows_cases h t.device.rows with ⟨hall, devs, heq⟩ | ⟨hnot, e, heq⟩
  · exact iff_of_true ⟨_, _, hhosts, heq⟩ hall
  · refine iff_of_false ?_ hnot
    rintro ⟨hosts, result, hreload, hdevices⟩
    obtain rfl := Except.ok.inj (hhosts.symm.trans hreload)
    rw [reloadDevices, heq] at hdevices
    cases hdevices

end Loads

/-! ### One command -/

section Commands

variable {columns : NodeColumns} {t : Nodes} {view : NodeView} {args : Args}

theorem Hosts.Takes.keep {t t' : Hosts} (h : t.Keeps t') {row : DeviceRow} (htakes : t.Takes row) : t'.Takes row :=
  ⟨htakes.1, htakes.2.imp_right (h.hasId _)⟩

theorem takes_createDevice_iff (hall : ∀ row ∈ t.device.rows, t.hosts.Takes row) :
    (∀ row ∈ (cmdCreateDevice columns view args t).2.device.rows,
      (cmdCreateDevice columns view args t).2.hosts.Takes row) ↔
        (NodeCommand.createDevice view args).Safe columns t := by
  unfold cmdCreateDevice
  cases hnew : newDevice view args t with
  | error o => exact iff_of_true hall fun row devid hrow => absurd (hnew.symm.trans hrow) (by simp)
  | ok row =>
    have hsafe : (NodeCommand.createDevice view args).Safe columns t ↔
        ∀ devid, columns.devid row.devid = some devid → ¬ t.device.Has devid →
          devid ≠ 0 ∧ (row.status = .dead ∨ t.hosts.HasId row.hostid) := by
      constructor
      · intro h devid
        exact h row devid hnew
      · intro h row' devid hrow
        obtain rfl := Except.ok.inj (hnew.symm.trans hrow)
        exact h devid
    rw [hsafe]
    dsimp only
    cases hstored : columns.devid row.devid with
    | none => exact iff_of_true hall fun devid hdevid => absurd hdevid (by simp)
    | some devid =>
      dsimp only
      by_cases hhas : t.device.Has devid
      · rw [if_pos hhas]
        refine iff_of_true hall fun devid' hdevid hnot => ?_
        exact absurd (Option.some.inj hdevid ▸ hhas) hnot
      · rw [if_neg hhas]
        show (∀ x ∈ (t.device.insertIgnore { row with devid }).rows, t.hosts.Takes x) ↔ _
        have hrows : (t.device.insertIgnore { row with devid }).rows = t.device.rows ++ [{ row with devid }] :=
          Table.rows_insertIgnore_of_not_has hhas
        rw [hrows]
        constructor
        · intro h devid' hdevid _
          obtain rfl := Option.some.inj hdevid
          exact h { row with devid } (List.mem_append_right _ (List.mem_singleton.mpr rfl))
        · intro h x hx
          rcases List.mem_append.mp hx with hold | hlast
          · exact hall x hold
          · rw [List.mem_singleton.mp hlast]
            exact h devid rfl hhas

theorem takes_setState_iff (hall : ∀ row ∈ t.device.rows, t.hosts.Takes row) :
    (∀ row ∈ (cmdSetState view args t).2.device.rows, (cmdSetState view args t).2.hosts.Takes row) ↔
      (NodeCommand.setState view args).Safe columns t := by
  unfold cmdSetState
  cases hchange : stateChange view args t with
  | error o => exact iff_of_true hall fun devid state hok => absurd (hchange.symm.trans hok) (by simp)
  | ok change =>
    obtain ⟨devid, state⟩ := change
    dsimp only
    constructor
    · intro h devid' state' hok
      obtain ⟨rfl, rfl⟩ := Prod.mk.inj (Except.ok.inj (hchange.symm.trans hok))
      by_cases hdead : state = .dead
      · exact .inl hdead
      · refine .inr fun row hrow hid => ?_
        have hset := h _ (List.mem_map_of_mem hrow)
        rw [if_pos hid] at hset
        exact hset.2.resolve_left hdead
    · intro h x hx
      obtain ⟨row, hrow, rfl⟩ := List.mem_map.mp hx
      have htakes := hall row hrow
      split_ifs with hid
      · exact ⟨htakes.1, (h devid state hchange).imp_right fun hhosts => hhosts row hrow hid⟩
      · exact htakes

theorem takes_deleteHost_iff (hall : ∀ row ∈ t.device.rows, t.hosts.Takes row) :
    (∀ row ∈ (cmdDeleteHost view args t).2.device.rows, (cmdDeleteHost view args t).2.hosts.Takes row) ↔
      (NodeCommand.deleteHost view args).Safe columns t := by
  unfold cmdDeleteHost
  cases hdoomed : doomedHost view args t with
  | error o => exact iff_of_true hall fun hostid hok => absurd (hdoomed.symm.trans hok) (by simp)
  | ok hostid =>
    dsimp only
    constructor
    · intro h hostid' hok row hrow hid
      obtain rfl := Except.ok.inj (hdoomed.symm.trans hok)
      exact (h row hrow).2.resolve_right fun hhas => (hasId_delete.mp hhas).2 hid
    · intro h row hrow
      have htakes := hall row hrow
      refine ⟨htakes.1, ?_⟩
      by_cases hid : row.hostid = hostid
      · exact .inl (h hostid hdoomed row hrow hid)
      · exact htakes.2.imp_right fun hhas => hasId_delete.mpr ⟨hhas, hid⟩

theorem loads_handle_iff (hstrict : columns.Strict) (hsound : t.hosts.Sound) (hloads : t.Loads) (c : NodeCommand) :
    (c.handle columns t).2.Loads ↔ c.Safe columns t := by
  have hall := (loads_iff hsound).mp hloads
  rw [loads_iff (sound_handle hstrict hsound c)]
  cases c with
  | host c => exact iff_of_true (fun _ hrow => (hall _ hrow).keep (keeps_handle hstrict c)) trivial
  | createDevice view args => exact takes_createDevice_iff hall
  | setState view args => exact takes_setState_iff hall
  | deleteHost view args => exact takes_deleteHost_iff hall

end Commands

theorem sound_empty : Nodes.empty.hosts.Sound :=
  ⟨fun _ hrow => absurd hrow List.not_mem_nil, List.not_mem_nil⟩

theorem loads_empty : Nodes.empty.Loads := ⟨[], ([], []), rfl, rfl⟩

/-- If the column of the statuses stores none but the three, then in a run from empty tables all hosts and devices can
be loaded after every command exactly if each command is safe in the tables that it finds, whatever its worker has
loaded. -/
theorem loads_always_iff (columns : NodeColumns) (hstrict : columns.Strict) (cmds : List NodeCommand) :
    (∀ before, before <+: cmds → (nodesAfter columns before).Loads) ↔
      ∀ before c, before ++ [c] <+: cmds → c.Safe columns (nodesAfter columns before) :=
  @foldl_forall_iff _ _ (fun (t : Nodes) (c : NodeCommand) => (c.handle columns t).2) Nodes.empty
    (fun t => t.hosts.Sound) Nodes.Loads (fun t c => c.Safe columns t) sound_empty loads_empty
    (fun _ c h => sound_handle hstrict h c) (fun _ c hsound hloads => loads_handle_iff hstrict hsound hloads c) cmds

/-! ### Views that are current -/

/-- All the hosts of a list are there. -/
def Hosts.Includes (t : Hosts) (loaded : List HostRow) : Prop := ∀ host ∈ loaded, t.HasId host.hostid

/-- No host that the worker has loaded is gone, its devices are on the hosts that the table says, and if it would not
load them again, then of those that are not dead none is missing. -/
structure NodeView.Current (view : NodeView) (t : Nodes) : Prop where
  hosts : t.hosts.Includes view.hosts
  devices : ∀ dev ∈ view.devices, ∃ row ∈ t.device.rows, row.devid = dev.devid ∧ row.hostid = dev.hostid
  missing : view.devicesRecent = true → ∀ row ∈ t.device.rows, row.status ≠ .dead →
    ∃ dev ∈ view.devices, dev.hostid = row.hostid ∧ dev.status ≠ .dead

/-- What the worker of a command has loaded is current. -/
def NodeCommand.Current (t : Nodes) : NodeCommand → Prop
  | .host _ => True
  | .createDevice view _ => view.Current t
  | .setState view _ => view.Current t
  | .deleteHost view _ => view.Current t

/-- The command passes the checks for a new device, and the database would store it with the id 0. -/
def NodeCommand.CreatesZero (columns : NodeColumns) (t : Nodes) : NodeCommand → Prop
  | .createDevice view args => ∃ row, newDevice view args t = .ok row ∧ columns.devid row.devid = some 0
  | _ => False

section Current

variable {t : Hosts} {loaded loaded' hosts : List HostRow} {found : Option HostRow} {hostid : ℕ} {row dev : DeviceRow}

theorem exists_of_map_ok {α β ε : Type} {x : Except ε α} {f : α → β} {b : β} (h : x.map f = .ok b) :
    ∃ a, x = .ok a ∧ f a = b := by
  cases x with
  | error e => cases h
  | ok a => exact ⟨a, rfl, Except.ok.inj h⟩

theorem includes_rows (t : Hosts) : t.Includes t.rows := fun _ hhost => List.mem_map_of_mem hhost

theorem includes_reloadHosts (h : reloadHosts t = .ok hosts) : t.Includes hosts := by
  unfold reloadHosts at h
  split_ifs at h
  exact Except.ok.inj h ▸ includes_rows t

theorem hasId_of_find? {p : HostRow → Bool} (h : t.Includes loaded) {host : HostRow}
    (hfound : loaded.find? p = some host) : t.HasId host.hostid :=
  h host (List.mem_of_find?_eq_some hfound)

theorem hostOfId_ok (h : hostOfId loaded t hostid = .ok (found, loaded')) (hloaded : t.Includes loaded) :
    t.Includes loaded' ∧ ∀ host, found = some host → t.HasId hostid := by
  have hid : ∀ {hosts host}, t.Includes hosts → hosts.find? (fun host => host.hostid = hostid) = some host →
      t.HasId hostid := by
    intro hosts host hhosts hhost
    have hthere := hasId_of_find? hhosts hhost
    have hsame : host.hostid = hostid := by simpa using List.find?_some hhost
    rwa [hsame] at hthere
  unfold hostOfId at h
  split_ifs at h
  · obtain ⟨rfl, rfl⟩ := Prod.mk.inj (Except.ok.inj h)
    exact ⟨hloaded, fun host hhost => absurd hhost (by simp)⟩
  · split at h
    · rename_i hfound
      obtain ⟨rfl, rfl⟩ := Prod.mk.inj (Except.ok.inj h)
      exact ⟨hloaded, fun host _ => hid hloaded hfound⟩
    · obtain ⟨hosts, hreload, heq⟩ := exists_of_map_ok h
      obtain ⟨rfl, rfl⟩ := Prod.mk.inj heq
      exact ⟨includes_reloadHosts hreload, fun host hhost => hid (includes_reloadHosts hreload) hhost⟩

/-- What a device in memory has from its row. -/
structure DeviceRow.Shows (dev row : DeviceRow) : Prop where
  devid : row.devid = dev.devid
  hostid : row.hostid = dev.hostid
  dead : dev.status = .dead → row.status = .dead

theorem DeviceRow.Shows.refl (row : DeviceRow) : row.Shows row := ⟨rfl, rfl, id⟩

theorem absorbRow_ok (h : absorbRow loaded t row = .ok (dev, loaded')) (hloaded : t.Includes loaded) :
    t.Includes loaded' ∧ dev.Shows row := by
  unfold absorbRow at h
  cases hhost : hostOfId loaded t row.hostid with
  | error e =>
    rw [hhost] at h
    cases h
  | ok result =>
    obtain ⟨found, after⟩ := result
    rw [hhost] at h
    have hafter := (hostOfId_ok hhost hloaded).1
    cases found with
    | none =>
      dsimp only at h
      split_ifs at h
      obtain ⟨rfl, rfl⟩ := Prod.mk.inj (Except.ok.inj h)
      exact ⟨hafter, .refl row⟩
    | some host =>
      dsimp only at h
      split_ifs at h
      · obtain ⟨rfl, rfl⟩ := Prod.mk.inj (Except.ok.inj h)
        exact ⟨hafter, rfl, rfl, fun hdead => absurd hdead (by simp)⟩
      · obtain ⟨rfl, rfl⟩ := Prod.mk.inj (Except.ok.inj h)
        exact ⟨hafter, .refl row⟩

theorem reloadRows_ok {rows devs : List DeviceRow} (h : reloadRows t rows loaded = .ok (devs, loaded'))
    (hloaded : t.Includes loaded) :
    t.Includes loaded' ∧ (∀ dev ∈ devs, ∃ row ∈ rows, dev.Shows row) ∧
      ∀ row ∈ rows, ∃ dev ∈ devs, dev.Shows row := by
  induction rows generalizing loaded loaded' devs with
  | nil =>
    obtain ⟨rfl, rfl⟩ := Prod.mk.inj (Except.ok.inj h)
    exact ⟨hloaded, fun dev hdev => absurd hdev List.not_mem_nil, fun row hrow => absurd hrow List.not_mem_nil⟩
  | cons row rows ih =>
    rw [reloadRows] at h
    split_ifs at h
    cases habsorb : absorbRow loaded t row with
    | error e =>
      rw [habsorb] at h
      cases h
    | ok result =>
      obtain ⟨dev, after⟩ := result
      obtain ⟨hafter, hshows⟩ := absorbRow_ok habsorb hloaded
      rw [habsorb] at h
      dsimp only at h
      obtain ⟨⟨rest, last⟩, hrest, heq⟩ := exists_of_map_ok h
      obtain ⟨rfl, rfl⟩ := Prod.mk.inj heq
      obtain ⟨hlast, hdevs, hrows⟩ := ih hrest hafter
      refine ⟨hlast, List.forall_mem_cons.mpr ⟨⟨row, List.mem_cons_self, hshows⟩, fun other hother => ?_⟩,
        List.forall_mem_cons.mpr ⟨⟨dev, List.mem_cons_self, hshows⟩, fun other hother => ?_⟩⟩
      · obtain ⟨row', hrow', hshow⟩ := hdevs other hother
        exact ⟨row', List.mem_cons_of_mem _ hrow', hshow⟩
      · obtain ⟨dev', hdev', hshow⟩ := hrows other hother
        exact ⟨dev', List.mem_cons_of_mem _ hdev', hshow⟩

theorem ofHostname_ok {hostname : Text} (h : ofHostname loaded t hostname = .ok (found, loaded'))
    (hloaded : t.Includes loaded) : t.Includes loaded' ∧ ∀ host, found = some host → t.HasId host.hostid := by
  unfold ofHostname at h
  split at h
  · rename_i hfound
    obtain ⟨rfl, rfl⟩ := Prod.mk.inj (Except.ok.inj h)
    exact ⟨hloaded, fun host hhost => Option.some.inj hhost ▸ hasId_of_find? hloaded hfound⟩
  · obtain ⟨hosts, hreload, heq⟩ := exists_of_map_ok h
    obtain ⟨rfl, rfl⟩ := Prod.mk.inj heq
    exact ⟨includes_reloadHosts hreload, fun host hhost => hasId_of_find? (includes_reloadHosts hreload) hhost⟩

end Current

theorem devid_newDevice {view : NodeView} {args : Args} {t : Nodes} {row : DeviceRow}
    (hnew : newDevice view args t = .ok row) :
    row.devid = Text.ofDigits (((args "devid").getD []).takeWhile Char.isDigit) := by
  unfold newDevice at hnew
  dsimp only at hnew
  split at hnew
  · cases hnew
  · split_ifs at hnew
    split at hnew
    · cases hnew
    · obtain ⟨host, -, rfl⟩ := exists_of_map_ok hnew
      rfl

theorem hasId_hostOfText {t : Nodes} {loaded : List HostRow} (hloaded : t.hosts.Includes loaded) {text : Text}
    {host : HostRow} (hof : hostOfText t loaded text = .ok (some host)) : t.hosts.HasId host.hostid := by
  unfold hostOfText at hof
  split at hof
  · rename_i hfound
    obtain rfl := Option.some.inj (Except.ok.inj hof)
    exact hasId_of_find? hloaded hfound
  · obtain ⟨hosts, hreload, hfound⟩ := exists_of_map_ok hof
    exact hasId_of_find? (includes_reloadHosts hreload) hfound

theorem hasId_hostOfNew {args : Args} {t : Nodes} {loaded : List HostRow} (hloaded : t.hosts.Includes loaded)
    {host : HostRow} (hof : hostOfNew args t loaded = .ok host) : t.hosts.HasId host.hostid := by
  unfold hostOfNew at hof
  split_ifs at hof
  · split at hof
    · cases hof
    · cases hof
    · rename_i hfound
      obtain rfl := Except.ok.inj hof
      exact hasId_hostOfText hloaded hfound
  · split at hof
    · cases hof
    · cases hof
    · rename_i hfound
      obtain rfl := Except.ok.inj hof
      exact (ofHostname_ok hfound hloaded).2 _ rfl

namespace NodeView.Current

variable {view : NodeView} {args : Args} {t : Nodes} {loaded : List HostRow} {devs : List DeviceRow}

theorem includes_checkHosts (h : view.Current t) (hcheck : view.checkHosts t.hosts = .ok loaded) :
    t.hosts.Includes loaded := by
  unfold checkHosts at hcheck
  split_ifs at hcheck
  · exact Except.ok.inj hcheck ▸ h.hosts
  · exact includes_reloadHosts hcheck

theorem hasId_newDevice (h : view.Current t) {row : DeviceRow} (hnew : newDevice view args t = .ok row) :
    t.hosts.HasId row.hostid := by
  unfold newDevice at hnew
  dsimp only at hnew
  split at hnew
  · cases hnew
  · split_ifs at hnew
    cases hcheck : view.checkHosts t.hosts with
    | error e =>
      rw [hcheck] at hnew
      cases hnew
    | ok loaded =>
      rw [hcheck] at hnew
      obtain ⟨host, hof, rfl⟩ := exists_of_map_ok hnew
      exact hasId_hostOfNew (h.includes_checkHosts hcheck) hof

theorem deviceOfId_ok (h : view.Current t) {devid : ℚ} {dev : DeviceRow}
    (hof : view.deviceOfId t devid = .ok (some dev, loaded)) :
    t.hosts.Includes loaded ∧ ∃ row ∈ t.device.rows, row.devid = dev.devid ∧ row.hostid = dev.hostid := by
  unfold deviceOfId at hof
  split at hof
  · rename_i hfound
    obtain ⟨hdev, rfl⟩ := Prod.mk.inj (Except.ok.inj hof)
    obtain rfl := Option.some.inj hdev
    exact ⟨h.hosts, h.devices _ (List.mem_of_find?_eq_some hfound)⟩
  · cases hcheck : view.checkHosts t.hosts with
    | error e =>
      rw [hcheck] at hof
      cases hof
    | ok hosts =>
      rw [hcheck] at hof
      cases hreload : reloadDevices hosts t with
      | error e =>
        simp only [hreload, bind, Except.bind] at hof
        cases hof
      | ok result =>
        obtain ⟨devs, after⟩ := result
        simp only [hreload, bind, Except.bind] at hof
        obtain ⟨hfound, rfl⟩ := Prod.mk.inj (Except.ok.inj hof)
        obtain ⟨hafter, hdevs, -⟩ := reloadRows_ok hreload (h.includes_checkHosts hcheck)
        obtain ⟨row, hrow, hshow⟩ := hdevs dev (List.mem_of_find?_eq_some hfound)
        exact ⟨hafter, row, hrow, hshow.devid, hshow.hostid⟩

/-- A device whose state changes is in the table, and its host is there. -/
theorem hasId_stateChange (h : view.Current t) {devid : ℕ} {state : DeviceState}
    (hchange : stateChange view args t = .ok (devid, state)) :
    ∃ row ∈ t.device.rows, row.devid = devid ∧ t.hosts.HasId row.hostid := by
  unfold stateChange at hchange
  extract_lets hostname number at hchange
  clear_value number
  split at hchange
  · cases hchange
  · split_ifs at hchange
    cases hof : view.deviceOfId t number with
    | error e =>
      rw [hof] at hchange
      cases hchange
    | ok result =>
      obtain ⟨found, loaded⟩ := result
      rw [hof] at hchange
      cases found with
      | none => cases hchange
      | some dev =>
        obtain ⟨hloaded, row, hrow, hdevid, hhostid⟩ := h.deviceOfId_ok hof
        dsimp only at hchange
        cases hhost : hostOfId loaded t.hosts dev.hostid with
        | error e =>
          rw [hhost] at hchange
          cases hchange
        | ok result =>
          obtain ⟨found, after⟩ := result
          rw [hhost] at hchange
          cases found with
          | none => cases hchange
          | some host =>
            dsimp only at hchange
            split_ifs at hchange
            obtain ⟨rfl, -⟩ := Prod.mk.inj (Except.ok.inj hchange)
            refine ⟨row, hrow, hdevid, ?_⟩
            rw [hhostid]
            exact (hostOfId_ok hhost hloaded).2 host rfl

theorem missing_checkDevices (h : view.Current t) (hloaded : t.hosts.Includes loaded)
    (hcheck : view.checkDevices loaded t = .ok devs) {row : DeviceRow} (hrow : row ∈ t.device.rows)
    (halive : row.status ≠ .dead) : ∃ dev ∈ devs, dev.hostid = row.hostid ∧ dev.status ≠ .dead := by
  unfold checkDevices at hcheck
  split_ifs at hcheck with hrecent
  · exact Except.ok.inj hcheck ▸ h.missing hrecent row hrow halive
  · obtain ⟨⟨devs, after⟩, hreload, rfl⟩ := exists_of_map_ok hcheck
    obtain ⟨-, -, hrows⟩ := reloadRows_ok hreload hloaded
    obtain ⟨dev, hdev, hshow⟩ := hrows row hrow
    exact ⟨dev, hdev, hshow.hostid.symm, fun hdead => halive (hshow.dead hdead)⟩

/-- A host that is deleted has dead devices only. -/
theorem dead_doomedHost (h : view.Current t) {hostid : ℕ} (hdoomed : doomedHost view args t = .ok hostid)
    {row : DeviceRow} (hrow : row ∈ t.device.rows) (hid : row.hostid = hostid) : row.status = .dead := by
  have hcached : t.hosts.Includes (if view.hostsRecent then view.hosts else []) := by
    split_ifs
    · exact h.hosts
    · exact fun host hhost => absurd hhost List.not_mem_nil
  unfold doomedHost at hdoomed
  cases hof : ofHostname (if view.hostsRecent then view.hosts else []) t.hosts ((args "host").getD []) with
  | error e =>
    rw [hof] at hdoomed
    cases hdoomed
  | ok result =>
    obtain ⟨found, loaded⟩ := result
    rw [hof] at hdoomed
    cases found with
    | none => cases hdoomed
    | some host =>
      dsimp only at hdoomed
      cases hcheck : view.checkDevices loaded t with
      | error e =>
        rw [hcheck] at hdoomed
        cases hdoomed
      | ok devs =>
        rw [hcheck] at hdoomed
        dsimp only at hdoomed
        split_ifs at hdoomed with hany
        obtain rfl := Except.ok.inj hdoomed
        by_contra halive
        obtain ⟨dev, hdev, hhostid, hstatus⟩ :=
          h.missing_checkDevices (ofHostname_ok hof hcached).1 hcheck hrow halive
        refine hany (List.any_eq_true.mpr ⟨dev, hdev, ?_⟩)
        simp [hhostid, hid, hstatus]

end NodeView.Current

theorem safe_iff {columns : NodeColumns} {t : Nodes} (hsound : t.hosts.Sound) (hloads : t.Loads) {c : NodeCommand}
    (hcurrent : c.Current t) : c.Safe columns t ↔ ¬ c.CreatesZero columns t := by
  have hall := (loads_iff hsound).mp hloads
  cases c with
  | host c => exact iff_of_true trivial id
  | createDevice view args =>
    have hnew : ¬ t.device.Has 0 := by
      intro hzero
      obtain ⟨row, hrow, hdevid⟩ := Table.has_iff.mp hzero
      exact (hall row hrow).1 hdevid
    constructor
    · rintro hsafe ⟨row, hrow, hzero⟩
      exact (hsafe row 0 hrow hzero hnew).1 rfl
    · intro hzero row devid hrow hdevid _
      refine ⟨fun hdevidZero => hzero ⟨row, hrow, hdevidZero ▸ hdevid⟩, .inr ?_⟩
      exact NodeView.Current.hasId_newDevice hcurrent hrow
  | setState view args =>
    refine iff_of_true (fun devid state hchange => .inr fun row hrow hdevid => ?_) id
    obtain ⟨row', hrow', hdevid', hhost⟩ := NodeView.Current.hasId_stateChange hcurrent hchange
    rwa [t.device.eq_of_key hrow hrow' (hdevid.trans hdevid'.symm)]
  | deleteHost view args =>
    refine iff_of_true (fun hostid hdoomed row hrow hid => ?_) id
    exact NodeView.Current.dead_doomedHost hcurrent hdoomed hrow hid

/-- If moreover the worker of each command has loaded no host that is gone and misses no device, then everything can be
loaded after every command exactly if no command creates a device that the database stores with the id 0. -/
theorem loads_current_iff (columns : NodeColumns) (hstrict : columns.Strict) (cmds : List NodeCommand)
    (hcurrent : ∀ before c, before ++ [c] <+: cmds → c.Current (nodesAfter columns before)) :
    (∀ before, before <+: cmds → (nodesAfter columns before).Loads) ↔
      ∀ before c, before ++ [c] <+: cmds → ¬ c.CreatesZero columns (nodesAfter columns before) := by
  have hsound : ∀ before, (nodesAfter columns before).hosts.Sound := fun before =>
    @foldl_inv _ _ (fun (t : Nodes) (c : NodeCommand) => (c.handle columns t).2) Nodes.empty (fun t => t.hosts.Sound)
      sound_empty (fun _ c h => sound_handle hstrict h c) before
  constructor
  · intro hloads before c hbefore
    have hearlier := hloads before ((List.prefix_append _ _).trans hbefore)
    exact (safe_iff (hsound before) hearlier (hcurrent before c hbefore)).mp
      ((loads_always_iff columns hstrict cmds).mp hloads before c hbefore)
  · intro hzero before hbefore
    have hboth : (nodesAfter columns before).hosts.Sound ∧ (nodesAfter columns before).Loads :=
      @foldl_inv_of_guard _ _ (fun (t : Nodes) (c : NodeCommand) => (c.handle columns t).2) Nodes.empty
        (fun t => t.hosts.Sound ∧ t.Loads) (fun t c => c.Current t ∧ ¬ c.CreatesZero columns t)
        ⟨sound_empty, loads_empty⟩
        (fun t c h hguard => ⟨sound_handle hstrict h.1 c,
          (loads_handle_iff hstrict h.1 h.2 c).mpr ((safe_iff h.1 h.2 hguard.1).mpr hguard.2)⟩)
        before fun front c hfront => ⟨hcurrent front c (hfront.trans hbefore), hzero front c (hfront.trans hbefore)⟩
    exact hboth.2

/-- A column that stores one of the three statuses, or refuses the statement. -/
def strictField (field : HostField) (v : Text) : Option Text :=
  if field = .status ∧ hostStatuses.contains v = false then none else some v

theorem strictField_status (status : Text) (h : status ∈ hostStatuses) : strictField .status status = some status := by
  refine if_neg fun hother => ?_
  rw [List.contains_iff_mem.mpr h] at hother
  exact Bool.noConfusion hother.2

/-- A column of three bytes that refuses what does not fit. -/
def mediumint (n : ℕ) : Option ℕ := if n < 2 ^ 24 then some n else none

theorem mediumint_stored (n : ℕ) (h : n < 2 ^ 24) : mediumint n = some n := if_pos h

/-- Columns that refuse what they cannot store. -/
def strictColumns : NodeColumns where
  field := strictField
  hostname := some
  status_stored := strictField_status
  devid := mediumint
  devid_stored := mediumint_stored

theorem strict_strictColumns : strictColumns.Strict := by
  intro status stored hstored
  by_contra hnot
  have hrefused : strictField .status status = some stored := hstored
  unfold strictField at hrefused
  split_ifs at hrefused with hother
  obtain rfl := Option.some.inj hrefused
  refine hother ⟨rfl, Bool.eq_false_iff.mpr fun hcontains => ?_⟩
  exact hnot (List.contains_iff_mem.mp hcontains)

/-- A worker that has loaded nothing yet. -/
def NodeView.unloaded : NodeView := ⟨[], false, [], false⟩

theorem NodeView.current_unloaded (t : Nodes) : NodeView.unloaded.Current t where
  hosts _ hhost := absurd hhost List.not_mem_nil
  devices _ hdev := absurd hdev List.not_mem_nil
  missing hrecent := absurd hrecent Bool.false_ne_true

/-- A command that creates a device of that id on `web1`. -/
def createDevid (devid : Text) : NodeCommand :=
  .createDevice .unloaded fun k => [("hostname", "web1".toList), ("devid", devid)].lookup k

def createWeb1 : NodeCommand := .host (createWithStatus "alive".toList)

theorem current_createDevid {devid : Text} {t : Nodes} {c : NodeCommand} (h : c ∈ [createWeb1, createDevid devid]) :
    c.Current t := by
  rcases List.mem_cons.mp h with rfl | hrest
  · trivial
  · rw [List.mem_singleton.mp hrest]
    exact NodeView.current_unloaded t

theorem mem_of_prefix_concat {cmds before : List NodeCommand} {c : NodeCommand} (h : before ++ [c] <+: cmds) :
    c ∈ cmds :=
  h.subset (List.mem_append_right _ (List.mem_singleton.mpr rfl))

/-- With the device 7 on `web1` everything can be loaded; with the device `00` it cannot. -/
theorem loads_current_iff_web1 :
    (∀ before, before <+: [createWeb1, createDevid "7".toList] → (nodesAfter strictColumns before).Loads) ∧
      ¬ ∀ before, before <+: [createWeb1, createDevid "00".toList] → (nodesAfter strictColumns before).Loads := by
  constructor
  · refine (loads_current_iff strictColumns strict_strictColumns _ fun before c hbefore =>
      current_createDevid (mem_of_prefix_concat hbefore)).mpr fun before c hbefore => ?_
    rcases List.mem_cons.mp (mem_of_prefix_concat hbefore) with rfl | hrest
    · exact id
    · rw [List.mem_singleton.mp hrest]
      rintro ⟨row, hrow, hzero⟩
      rw [devid_newDevice hrow] at hzero
      exact absurd hzero (by decide)
  · intro hloads
    have hnever := (loads_current_iff strictColumns strict_strictColumns _ fun before c hbefore =>
      current_createDevid (mem_of_prefix_concat hbefore)).mp hloads
    exact hnever [createWeb1] (createDevid "00".toList) List.prefix_rfl ⟨⟨0, 1, .alive⟩, by decide, rfl⟩

theorem not_loads_missing : ¬ ∀ before, before <+: [createWeb1, createDevid "7".toList,
    .deleteHost ⟨[], false, [], true⟩ fun k => if k = "host" then some "web1".toList else none] →
      (nodesAfter strictColumns before).Loads := by
  intro hloads
  have hsafe := (loads_always_iff strictColumns strict_strictColumns _).mp hloads [createWeb1, createDevid "7".toList]
    _ List.prefix_rfl
  have hrows : (nodesAfter strictColumns [createWeb1, createDevid "7".toList]).device.rows = [⟨7, 1, .alive⟩] := by
    decide
  have hdead := hsafe 1 (by decide) ⟨7, 1, .alive⟩ (hrows ▸ List.mem_singleton.mpr rfl) rfl
  exact absurd hdead (by decide)

end Ylem
