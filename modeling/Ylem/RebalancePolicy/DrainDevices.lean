import Ylem.RebalancePolicy
import Ylem.Worker.Reaper

/-!
# The DrainDevices policy

The policy of the replicate workers themselves moves files away from devices that are to be drained. Where no
device is left it pauses for some seconds. A device that has been found empty is not asked again by the same
process.
-/

namespace Ylem

/-- `random_fids_on_device`: up to `limit` of five thousand fids. -/
def randomFidsOnDevice (shuffle : Shuffle ℕ) (devid limit : ℕ) (db : Db) : List ℕ :=
  (shuffle.val ((Stmt.selectFidsByDevice devid 5000).run db).1).take limit

/-- The time of a call, and its shuffles. -/
structure DrainEnv where
  now : ℕ
  shuffleDevs : Shuffle Device
  shuffleFids : ℕ → Shuffle ℕ

/-- The policy object of a process. -/
structure DrainDevices where
  pausedUntil : ℕ
  deviceIsEmpty : List ℕ

namespace DrainDevices

def new : DrainDevices := ⟨0, []⟩

/-- What the policy gets for a device. -/
def fids (env : DrainEnv) (db : Db) (devid : ℕ) : List ℕ := randomFidsOnDevice (env.shuffleFids devid) devid 50 db

/-- The devices to drain, in the order in which they are asked. -/
def candidates (env : DrainEnv) (devices : List Device) (pol : DrainDevices) : List Device :=
  env.shuffleDevs.val ((devices.filter fun d => d.status.shouldDrain).filter fun d =>
    !pol.deviceIsEmpty.contains d.devid)

/-- The devices that a call asks for their fids. -/
def asked (env : DrainEnv) (db : Db) (devices : List Device) (pol : DrainDevices) : List Device :=
  if env.now < pol.pausedUntil then [] else askedDevices (fids env db) 0 (candidates env devices pol)

/-- `devfids_to_rebalance`, and the policy object after it. -/
def devfidsToRebalance (env : DrainEnv) (db : Db) (devices : List Device) (pol : DrainDevices) :
    List (Device × ℕ) × DrainDevices :=
  if env.now < pol.pausedUntil then ([], pol)
  else if candidates env devices pol = [] then ([], { pol with pausedUntil := env.now + 5 })
  else
    (collectDevfids (fids env db) (candidates env devices pol),
      { pol with
        deviceIsEmpty := ((asked env db devices pol).filter fun d => fids env db d.devid = []).map Device.devid ++
          pol.deviceIsEmpty })

section Policy

variable {env : DrainEnv} {db : Db} {devices : List Device} {pol : DrainDevices} {devid : ℕ}

theorem fids_eq_nil_iff : fids env db devid = [] ↔ ¬ db.HasFiles devid := by
  have hselect : ((Stmt.selectFidsByDevice devid 5000).run db).1 =
      ((db.fileOn.rows.filter fun r => r.2 = devid).take 5000).map Prod.fst := rfl
  have hshuffle := (env.shuffleFids devid).property ((Stmt.selectFidsByDevice devid 5000).run db).1
  rw [fids, randomFidsOnDevice, List.take_eq_nil_iff, or_iff_right (by decide), ← List.length_eq_zero_iff,
    hshuffle.length_eq, List.length_eq_zero_iff, hselect, List.map_eq_nil_iff, List.take_eq_nil_iff,
    or_iff_right (by decide), Db.filter_eq_nil_iff]

theorem mem_candidates {d : Device} : d ∈ candidates env devices pol ↔
    d ∈ devices ∧ d.status.shouldDrain = true ∧ d.devid ∉ pol.deviceIsEmpty := by
  rw [candidates, (env.shuffleDevs.property _).mem_iff, List.mem_filter, List.mem_filter, and_assoc]
  simp

/-- Outside its pause the policy offers work exactly if a device to drain has files and is not known to be
empty. -/
theorem devfids_ne_nil_iff (h : pol.pausedUntil ≤ env.now) :
    (devfidsToRebalance env db devices pol).1 ≠ [] ↔
      ∃ d ∈ devices, d.status.shouldDrain = true ∧ db.HasFiles d.devid ∧ d.devid ∉ pol.deviceIsEmpty := by
  have hcollect : (devfidsToRebalance env db devices pol).1 ≠ [] ↔
      collectDevfids (fids env db) (candidates env devices pol) ≠ [] := by
    rw [devfidsToRebalance, if_neg (by omega)]
    split_ifs with hnil
    · rw [hnil]
      exact Iff.rfl
    · exact Iff.rfl
  rw [hcollect, Ne, collectDevfids_eq_nil_iff]
  simp only [mem_candidates, fids_eq_nil_iff, not_forall, not_not, exists_prop]
  exact exists_congr fun d => by tauto

theorem mem_deviceIsEmpty : devid ∈ (devfidsToRebalance env db devices pol).2.deviceIsEmpty ↔
    devid ∈ pol.deviceIsEmpty ∨ ∃ d ∈ asked env db devices pol, d.devid = devid ∧ ¬ db.HasFiles devid := by
  rw [devfidsToRebalance]
  split_ifs with hpaused hnil
  · have hnone : asked env db devices pol = [] := if_pos hpaused
    simp [hnone]
  · have hnone : asked env db devices pol = [] := by rw [asked, if_neg hpaused, hnil]; rfl
    simp [hnone]
  · simp only [List.mem_append, List.mem_map, List.mem_filter, decide_eq_true_eq, fids_eq_nil_iff]
    rw [or_comm]
    refine or_congr_right (exists_congr fun d => ?_)
    constructor
    · rintro ⟨⟨hd, hempty⟩, rfl⟩
      exact ⟨hd, rfl, hempty⟩
    · rintro ⟨hd, rfl, hempty⟩
      exact ⟨⟨hd, hempty⟩, rfl⟩

end Policy

end DrainDevices

end Ylem
