import Ylem.Lib.Folds
import Ylem.RebalancePolicy.DrainDevices

/-!
# Devices that have been found empty

A reaper skips a dead device that it has found empty before, and the DrainDevices policy a device to be drained.
Neither ever forgets that, while the states of devices and their files change. So a device that has been emptied,
brought back into service and filled again is not taken from when it is dead the next time, and not drained when
it is to be drained (`noneForgotten_iff`).
-/

namespace Ylem

namespace DeviceMap

/-- `set_state`, in the table and in the map that is loaded from it. -/
def setState (m : DeviceMap) (devid : ℕ) (state : DeviceState) : DeviceMap where
  table := m.table.update (fun d => if d.devid = devid then { d with status := state } else d)
    (fun d => by split_ifs <;> rfl)
  devid_pos := by
    intro d hd
    obtain ⟨d', hd', rfl⟩ := List.mem_map.mp hd
    have hpos := m.devid_pos d' hd'
    split_ifs <;> exact hpos
  hostid_eq := by
    intro d hd
    obtain ⟨d', hd', rfl⟩ := List.mem_map.mp hd
    have heq := m.hostid_eq d' hd'
    split_ifs <;> exact heq
  host_eq := by
    intro d hd e he
    obtain ⟨d', hd', rfl⟩ := List.mem_map.mp hd
    obtain ⟨e', he', rfl⟩ := List.mem_map.mp he
    have heq := m.host_eq d' hd' e' he'
    split_ifs <;> exact heq

end DeviceMap

/-- `can_change_to_state`: a dead device cannot become alive at once. -/
def Device.canChangeToState (d : Device) (newstate : DeviceState) : Bool :=
  !(d.status.isPermDead && newstate == .alive)

/-- The devices and the database, and what a reaper and a replicate worker remember. -/
structure DrainSystem where
  devs : DeviceMap
  db : Db
  allEmpty : List ℕ
  policy : DrainDevices

/-- What happens: the state of a device is to be changed, a replica is recorded or forgotten, the reaper makes a
pass, or the policy is asked for work. -/
inductive DrainEvent where
  | setState (devid : ℕ) (state : DeviceState)
  | addFileOn (fid devid : ℕ)
  | removeFileOn (fid devid : ℕ)
  | reap (now : ℕ) (lock : ℕ → ℕ → Option Bool)
  | drain (env : DrainEnv)

namespace DrainSystem

/-- Processes that have just been started. -/
def start (devs : DeviceMap) (db : Db) : DrainSystem := ⟨devs, db, [], DrainDevices.new⟩

/-- What `devfids_to_rebalance` returns. -/
def offers (σ : DrainSystem) (env : DrainEnv) : List (Device × ℕ) :=
  (DrainDevices.devfidsToRebalance env σ.db σ.devs.devices σ.policy).1

def step (σ : DrainSystem) : DrainEvent → DrainSystem
  | .setState devid state =>
    match σ.devs.ofDevid devid with
    | some dev => if dev.canChangeToState state then { σ with devs := σ.devs.setState devid state } else σ
    | none => σ
  | .addFileOn fid devid => { σ with db := ((sql (.insertFileOn [(fid, devid)])).exec σ.db).2 }
  | .removeFileOn fid devid => { σ with db := ((sql (.deleteFileOn fid devid)).exec σ.db).2 }
  | .reap now lock =>
    let result := (Worker.Reaper.work now lock σ.devs.devices σ.allEmpty).exec σ.db
    { σ with db := result.2, allEmpty := result.1 }
  | .drain env => { σ with policy := (DrainDevices.devfidsToRebalance env σ.db σ.devs.devices σ.policy).2 }

theorem step_setState (σ : DrainSystem) (devid : ℕ) (state : DeviceState) :
    (σ.step (.setState devid state)).allEmpty = σ.allEmpty ∧ (σ.step (.setState devid state)).policy = σ.policy := by
  simp only [step]
  split
  · split_ifs <;> exact ⟨rfl, rfl⟩
  · exact ⟨rfl, rfl⟩

/-- The pass or call forgets no device: files are taken from all dead devices that have some, and work is
offered, unless the policy is paused, if some device to be drained has files. -/
def NoneForgotten (σ : DrainSystem) : DrainEvent → Prop
  | .reap now lock => ∀ d ∈ σ.devs.devices, d.status.isPermDead = true → σ.db.HasFiles d.devid →
      TakesFrom d.devid σ.db (σ.step (.reap now lock)).db
  | .drain env => σ.policy.pausedUntil ≤ env.now →
      (∃ d ∈ σ.devs.devices, d.status.shouldDrain = true ∧ σ.db.HasFiles d.devid) → σ.offers env ≠ []
  | _ => True

end DrainSystem

open DrainSystem

section History

variable (devs : DeviceMap) (db : Db)

/-- The system after these events. -/
def drainSystem (events : List DrainEvent) : DrainSystem := events.foldl step (start devs db)

/-- A pass of the reaper finds the device dead and without files. -/
def FindsDeadAndEmpty (devid : ℕ) (before : List DrainEvent) : DrainEvent → Prop
  | .reap _ _ => ∃ d ∈ (drainSystem devs db before).devs.devices, d.devid = devid ∧ d.status.isPermDead = true ∧
      ¬ (drainSystem devs db before).db.HasFiles devid
  | _ => False

def FoundDeadAndEmpty (before : List DrainEvent) (devid : ℕ) : Prop :=
  ∃ earlier event, earlier ++ [event] <+: before ∧ FindsDeadAndEmpty devs db devid earlier event

/-- A call of the policy asks for fids on the device in vain. -/
def AsksInVain (devid : ℕ) (before : List DrainEvent) : DrainEvent → Prop
  | .drain env => ∃ d ∈ DrainDevices.asked env (drainSystem devs db before).db
        (drainSystem devs db before).devs.devices (drainSystem devs db before).policy,
      d.devid = devid ∧ ¬ (drainSystem devs db before).db.HasFiles devid
  | _ => False

def AskedInVain (before : List DrainEvent) (devid : ℕ) : Prop :=
  ∃ earlier event, earlier ++ [event] <+: before ∧ AsksInVain devs db devid earlier event

/-- No device that is to be emptied now has been found empty before; for the policy one such device is
enough. -/
def NoneRefilled (before : List DrainEvent) : DrainEvent → Prop
  | .reap _ _ => ∀ d ∈ (drainSystem devs db before).devs.devices, d.status.isPermDead = true →
      (drainSystem devs db before).db.HasFiles d.devid → ¬ FoundDeadAndEmpty devs db before d.devid
  | .drain env => (drainSystem devs db before).policy.pausedUntil ≤ env.now →
      (∃ d ∈ (drainSystem devs db before).devs.devices, d.status.shouldDrain = true ∧
        (drainSystem devs db before).db.HasFiles d.devid) →
      ∃ d ∈ (drainSystem devs db before).devs.devices, d.status.shouldDrain = true ∧
        (drainSystem devs db before).db.HasFiles d.devid ∧ ¬ AskedInVain devs db before d.devid
  | _ => True

variable {devs : DeviceMap} {db : Db} {before : List DrainEvent} {event : DrainEvent} {devid : ℕ}

theorem drainSystem_concat : drainSystem devs db (before ++ [event]) = (drainSystem devs db before).step event :=
  List.foldl_concat _ _ _ _

theorem not_concat_prefix_nil {earlier : List DrainEvent} : ¬ earlier ++ [event] <+: [] := fun h =>
  absurd (List.prefix_nil.mp h) (by simp)

theorem mem_allEmpty_iff (before : List DrainEvent) :
    devid ∈ (drainSystem devs db before).allEmpty ↔ FoundDeadAndEmpty devs db before devid := by
  induction before using List.reverseRecOn with
  | nil =>
    refine iff_of_false List.not_mem_nil ?_
    rintro ⟨_, _, hpre, _⟩
    exact not_concat_prefix_nil hpre
  | append_singleton before event ih =>
    rw [FoundDeadAndEmpty, exists_prefix_concat, ← FoundDeadAndEmpty, ← ih, drainSystem_concat]
    cases event with
    | reap now lock =>
      have hnodup : ((drainSystem devs db before).devs.devices.map Device.devid).Nodup :=
        (drainSystem devs db before).devs.table.nodup
      exact mem_work hnodup
    | setState devid' state =>
      rw [(step_setState _ devid' state).1]
      exact (or_iff_left id).symm
    | addFileOn | removeFileOn | drain => exact (or_iff_left id).symm

theorem mem_deviceIsEmpty_iff (before : List DrainEvent) :
    devid ∈ (drainSystem devs db before).policy.deviceIsEmpty ↔ AskedInVain devs db before devid := by
  induction before using List.reverseRecOn with
  | nil =>
    refine iff_of_false List.not_mem_nil ?_
    rintro ⟨_, _, hpre, _⟩
    exact not_concat_prefix_nil hpre
  | append_singleton before event ih =>
    rw [AskedInVain, exists_prefix_concat, ← AskedInVain, ← ih, drainSystem_concat]
    cases event with
    | drain env => exact DrainDevices.mem_deviceIsEmpty
    | setState devid' state =>
      rw [(step_setState _ devid' state).2]
      exact (or_iff_left id).symm
    | addFileOn | removeFileOn | reap => exact (or_iff_left id).symm

theorem noneForgotten_step_iff (before : List DrainEvent) (event : DrainEvent) :
    (drainSystem devs db before).NoneForgotten event ↔ NoneRefilled devs db before event := by
  cases event with
  | setState | addFileOn | removeFileOn => exact Iff.rfl
  | reap now lock =>
    refine forall_congr' fun d => forall₃_congr fun hd hdead hfiles => ?_
    rw [← mem_allEmpty_iff]
    exact takesFrom_work_iff (drainSystem devs db before).devs.table.nodup hd hdead hfiles
  | drain env =>
    refine forall₂_congr fun hpause _ => ?_
    simp only [← mem_deviceIsEmpty_iff]
    exact DrainDevices.devfids_ne_nil_iff hpause

end History

/-- In every run no pass of the reaper and no call of the policy forgets a device exactly if none of them finds a
device dead, or all devices that are to be drained, with files after an earlier one has found it empty. -/
theorem noneForgotten_iff (devs : DeviceMap) (db : Db) (events : List DrainEvent) :
    (∀ before event, before ++ [event] <+: events → (drainSystem devs db before).NoneForgotten event) ↔
      ∀ before event, before ++ [event] <+: events → NoneRefilled devs db before event :=
  forall₃_congr fun before event _ => noneForgotten_step_iff before event

/-- One device, to be reaped. -/
def deadDevice : DeviceMap where
  table := ⟨[{ upDevice 1 1 with status := .dead }], by decide⟩
  devid_pos := by decide
  hostid_eq := by decide
  host_eq := by decide

/-- The device is dead and empty, is brought back, gets a file and dies again. -/
def diesTwice : List DrainEvent :=
  [.reap 0 fun _ _ => some true, .setState 1 .readonly, .setState 1 .alive, .addFileOn 5 1, .setState 1 .dead]

/-- The file that the device got in between is not taken from it. -/
theorem diesTwice_forgotten :
    ¬ (drainSystem deadDevice .fresh diesTwice).NoneForgotten (.reap 100 fun _ _ => some true) := by
  have hkept : ((drainSystem deadDevice .fresh diesTwice).step (.reap 100 fun _ _ => some true)).db.fileOn =
      (drainSystem deadDevice .fresh diesTwice).db.fileOn := by decide +kernel
  have hdead : ∃ d ∈ (drainSystem deadDevice .fresh diesTwice).devs.devices, d.status.isPermDead = true ∧
      (drainSystem deadDevice .fresh diesTwice).db.HasFiles d.devid := by decide +kernel
  obtain ⟨d, hd, hperm, hfiles⟩ := hdead
  intro h
  obtain ⟨fid, hmem, hnot, _⟩ := h d hd hperm hfiles
  rw [hkept] at hnot
  exact hnot hmem

end Ylem
