import Ylem.Util
import Ylem.Lib.Table
import Ylem.Lib.Text

/-!
# Hosts and devices

The in-memory view a worker has of the storage nodes: hosts, devices, and the device map that
`MogileFS::Device->map` returns. A `DeviceMap` carries what the device and host tables guarantee: device
ids are non-zero and unique, and a device's host is the one that its host id names.
-/

namespace Ylem

/-! ### Device states -/

/-- The states of `MogileFS::DeviceState`. -/
inductive DeviceState where
  | alive | dead | down | readonly | drain
  deriving DecidableEq, Repr

namespace DeviceState

/-- The properties of a state: can it serve traffic, is it writable, is it monitored, does it get new
files, should it be drained, is it permanently dead. -/
structure Traits where
  read : Bool
  write : Bool
  monitor : Bool
  newFiles : Bool
  drain : Bool
  dead : Bool

def traits : DeviceState → Traits
  | alive => ⟨true, true, true, true, false, false⟩
  -- dead does not include drain: the reaper handles it
  | dead => ⟨false, false, false, false, false, true⟩
  | down => ⟨false, false, false, false, false, false⟩
  | readonly => ⟨true, false, true, false, false, false⟩
  | drain => ⟨true, true, true, false, true, false⟩

def shouldDrain (s : DeviceState) : Bool := s.traits.drain
def canDeleteFrom (s : DeviceState) : Bool := s.traits.write
def canReadFrom (s : DeviceState) : Bool := s.traits.read
def shouldGetNewFiles (s : DeviceState) : Bool := s.traits.newFiles
def shouldGetReplFiles (s : DeviceState) : Bool := s.traits.newFiles
def shouldHaveFiles (s : DeviceState) : Bool := !(s.traits.drain || s.traits.dead)
def isPermDead (s : DeviceState) : Bool := s.traits.dead

theorem shouldHaveFiles_of_getRepl {s : DeviceState} (h : s.shouldGetReplFiles = true) :
    s.shouldHaveFiles = true := by
  cases s <;> first | rfl | cases h

end DeviceState

/-! ### Hosts and devices -/

inductive HostStatus where
  | alive | dead | down
  deriving DecidableEq, Repr

inductive HostObserved where
  | reachable | unreachable
  deriving DecidableEq, Repr

inductive DeviceObserved where
  | writeable | readable | unreachable
  deriving DecidableEq, Repr

structure Host where
  hostid : ℕ
  status : HostStatus
  observedState : Option HostObserved
  hostip : Option Text
  httpPort : Option ℕ
  httpGetPort : Option ℕ
  altip : Option Text
  mask : Option Text
  deriving DecidableEq, Repr

/-- The zone of a request: whether it asks for the alternative one, the client's address, and the test of
an address against a netmask. -/
structure Zone where
  altzone : Bool
  clientIp : Option Text
  maskMatch : Text → Text → Bool

namespace Host

/-- The address for a request of this zone. -/
def ip (zone : Zone) (h : Host) : Option Text :=
  match h.mask, zone.clientIp with
  | some mask, clientIp =>
    if Text.truthy h.altip && (zone.altzone ||
        Text.truthy clientIp && clientIp.any fun addr => zone.maskMatch mask addr) then h.altip
    else h.hostip
  | none, _ => h.hostip

def observedReachable (h : Host) : Bool := h.observedState == some .reachable
def observedUnreachable (h : Host) : Bool := h.observedState == some .unreachable
def shouldGetNewFiles (h : Host) : Bool := h.status == .alive

end Host

/-- A loaded device. A dead device may have lost its host. -/
structure Device where
  devid : ℕ
  hostid : ℕ
  host : Option Host
  status : DeviceState
  observedState : Option DeviceObserved
  mbTotal : ℕ
  mbUsed : ℕ
  deriving DecidableEq, Repr

namespace Device

/-- `0` if not known. -/
def percentFree (d : Device) : ℚ :=
  if d.mbTotal = 0 then 0 else 1 - (d.mbUsed : ℚ) / d.mbTotal

/-- Nothing if not known. -/
def percentFull (d : Device) : Option ℚ :=
  if d.mbTotal = 0 then none else some ((d.mbUsed : ℚ) / d.mbTotal)

def mbFree (d : Device) : ℤ := (d.mbTotal : ℤ) - d.mbUsed

def observedWriteable (d : Device) : Bool :=
  d.observedState == some .writeable &&
    match d.host with
    | some host => host.observedReachable
    | none => false

def observedUnreachable (d : Device) : Bool := d.observedState == some .unreachable
def canDeleteFrom (d : Device) : Bool := d.status.canDeleteFrom
def canReadFrom (d : Device) : Bool := d.status.canReadFrom

/-- `minFree` is the setting `min_free_space`, in MB. -/
def shouldGetNewFiles (minFree : ℕ) (d : Device) : Bool :=
  d.status.shouldGetNewFiles && d.observedWriteable &&
    (match d.host with
      | some host => host.shouldGetNewFiles
      | none => false) &&
    !(d.mbTotal != 0 && d.mbFree < minFree)

/-- The same policy for now, as in the source. -/
def shouldGetReplicatedFiles (minFree : ℕ) (d : Device) : Bool := d.shouldGetNewFiles minFree

theorem shouldGetReplFiles_of_shouldGetReplicatedFiles {minFree : ℕ} {d : Device}
    (h : d.shouldGetReplicatedFiles minFree = true) : d.status.shouldGetReplFiles = true := by
  simp only [shouldGetReplicatedFiles, shouldGetNewFiles, Bool.and_eq_true] at h
  exact h.1.1.1

end Device

/-- All devices, in the order in which the hash returns its values. -/
structure DeviceMap where
  table : Table Device ℕ Device.devid
  devid_pos : ∀ d ∈ table.rows, 0 < d.devid
  hostid_eq : ∀ d ∈ table.rows, ∀ h ∈ d.host, h.hostid = d.hostid
  host_eq : ∀ d ∈ table.rows, ∀ d' ∈ table.rows, d.hostid = d'.hostid → d.host = d'.host

namespace DeviceMap

variable (m : DeviceMap)

/-- `values %$devs`. -/
def devices : List Device := m.table.rows

/-- `MogileFS::Device->of_devid`, for a device that exists. -/
def ofDevid (devid : ℕ) : Option Device := m.table.find? devid

/-- The same for a devid that a client has sent: a hash key, which has to be the decimal of the devid. -/
def ofDevidText (devid : Text) : Option Device :=
  m.devices.find? fun d => Text.decimal d.devid = devid

variable {m}

theorem nodup_devices : m.devices.Nodup := List.Nodup.of_map _ m.table.nodup

theorem eq_of_devid {d d' : Device} (h : d ∈ m.devices) (h' : d' ∈ m.devices)
    (heq : d.devid = d'.devid) : d = d' :=
  m.table.eq_of_key h h' heq

theorem ofDevid_eq_some {devid : ℕ} {d : Device} :
    m.ofDevid devid = some d ↔ d ∈ m.devices ∧ d.devid = devid :=
  Table.find?_eq_some

theorem ofDevid_devid {d : Device} (h : d ∈ m.devices) : m.ofDevid d.devid = some d :=
  ofDevid_eq_some.mpr ⟨h, rfl⟩

end DeviceMap

/-! ### A small map -/

/-- An idle host that is up. -/
def upHost (hostid : ℕ) : Host where
  hostid := hostid
  status := .alive
  observedState := some .reachable
  hostip := some "10.0.0.1".toList
  httpPort := some 7500
  httpGetPort := none
  altip := none
  mask := none

/-- A writeable device with 900 of 1000 MB free. -/
def upDevice (devid hostid : ℕ) : Device where
  devid := devid
  hostid := hostid
  host := some (upHost hostid)
  status := .alive
  observedState := some .writeable
  mbTotal := 1000
  mbUsed := 100

/-- `h1[ d1 d2 ] h2[ d3 ]`, the map of the source's comment. -/
def twoHosts : DeviceMap where
  table := ⟨[upDevice 1 1, upDevice 2 1, upDevice 3 2], by decide⟩
  devid_pos := by decide
  hostid_eq := by decide
  host_eq := by decide

end Ylem
