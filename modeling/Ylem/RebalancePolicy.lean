import Ylem.Device

/-!
# Rebalance policies

A policy names devfids to migrate away from, a device and a fid on it each. It finds them a magazine at a
time, going through devices until fifty have come together, and hands them out one by one.
-/

namespace Ylem

/-- What is left to chance and to the database when a policy fills its magazine: the draws, and what
`random_fids_on_device` returns for a device. -/
structure RebalanceEnv where
  draws : ℕ → Draw
  randomFids : ℕ → List ℕ

/-- The devices that are asked for their fids when `n` devfids are there already. -/
def askedDevices (randomFids : ℕ → List ℕ) : ℕ → List Device → List Device
  | _, [] => []
  | n, dev :: devs =>
    let n := n + (randomFids dev.devid).length
    dev :: if 50 ≤ n then [] else askedDevices randomFids n devs

/-- The devfids of these devices, up to the device with the fiftieth. -/
def collectDevfids (randomFids : ℕ → List ℕ) (devs : List Device) : List (Device × ℕ) :=
  (askedDevices randomFids 0 devs).flatMap fun dev => (randomFids dev.devid).map fun fid => (dev, fid)

/-- `devfid_to_rebalance`, with what `devfids_to_rebalance` returns if the magazine is empty: the devfid, and
the magazine afterwards. -/
def devfidToRebalance (devfids : List (Device × ℕ)) : List (Device × ℕ) → Option (Device × ℕ) × List (Device × ℕ)
  | devfid :: magazine => (some devfid, magazine)
  | [] => (devfids.head?, devfids.tail)

/-- The devfids that `run_rebalance_policy_a_bit` gets, until there is none: for each call what
`devfids_to_rebalance` would return, and the magazine. -/
def handedOut : List (List (Device × ℕ)) → List (Device × ℕ) → List (Device × ℕ)
  | [], _ => []
  | devfids :: calls, magazine =>
    match devfidToRebalance devfids magazine with
    | (none, _) => []
    | (some devfid, magazine) => devfid :: handedOut calls magazine

section Policy

variable {randomFids : ℕ → List ℕ} {n : ℕ} {devs : List Device} {devfid : Device × ℕ}

theorem mem_of_mem_askedDevices {dev : Device} (h : dev ∈ askedDevices randomFids n devs) : dev ∈ devs := by
  induction devs generalizing n with
  | nil => exact h
  | cons first devs ih =>
    rw [askedDevices] at h
    rcases List.mem_cons.mp h with rfl | hrest
    · exact List.mem_cons_self
    · split_ifs at hrest
      · exact absurd hrest List.not_mem_nil
      · exact List.mem_cons_of_mem _ (ih hrest)

theorem mem_collectDevfids (h : devfid ∈ collectDevfids randomFids devs) :
    devfid.1 ∈ devs ∧ devfid.2 ∈ randomFids devfid.1.devid := by
  obtain ⟨dev, hdev, hmem⟩ := List.mem_flatMap.mp h
  obtain ⟨fid, hfid, rfl⟩ := List.mem_map.mp hmem
  exact ⟨mem_of_mem_askedDevices hdev, hfid⟩

/-- As long as nothing has been found, the next device is asked. -/
theorem collectDevfids_eq_nil_iff : collectDevfids randomFids devs = [] ↔ ∀ d ∈ devs, randomFids d.devid = [] := by
  have hasked : ∀ n < 50, ((askedDevices randomFids n devs).flatMap fun dev =>
      (randomFids dev.devid).map fun fid => (dev, fid)) = [] ↔ ∀ d ∈ devs, randomFids d.devid = [] := by
    intro n hn
    induction devs with
    | nil => simp [askedDevices]
    | cons dev devs ih =>
      rw [askedDevices, List.flatMap_cons, List.append_eq_nil_iff, List.map_eq_nil_iff, List.forall_mem_cons]
      refine and_congr_right fun hnil => ?_
      simp only [hnil, List.length_nil, Nat.add_zero]
      rw [if_neg (by omega), ih]
  exact hasked 0 (by decide)

theorem mem_handedOut {calls : List (List (Device × ℕ))} {magazine : List (Device × ℕ)}
    (h : devfid ∈ handedOut calls magazine) : devfid ∈ magazine ∨ ∃ devfids ∈ calls, devfid ∈ devfids := by
  induction calls generalizing magazine with
  | nil => exact absurd h List.not_mem_nil
  | cons devfids calls ih =>
    have hrest : ∀ {magazine'}, devfid ∈ handedOut calls magazine' →
        (∀ d ∈ magazine', d ∈ magazine ∨ d ∈ devfids) →
        devfid ∈ magazine ∨ ∃ devfids' ∈ devfids :: calls, devfid ∈ devfids' := by
      intro magazine' hmem hsub
      rcases ih hmem with hmag | ⟨devfids', hcall, hmem⟩
      · exact (hsub devfid hmag).imp_right fun h => ⟨devfids, List.mem_cons_self, h⟩
      · exact .inr ⟨devfids', List.mem_cons_of_mem _ hcall, hmem⟩
    rw [handedOut] at h
    cases magazine with
    | cons first magazine =>
      rcases List.mem_cons.mp h with rfl | hmem
      · exact .inl List.mem_cons_self
      · exact hrest hmem fun d hd => .inl (List.mem_cons_of_mem _ hd)
    | nil =>
      cases devfids with
      | nil => exact absurd h List.not_mem_nil
      | cons first devfids =>
        rcases List.mem_cons.mp h with rfl | hmem
        · exact .inr ⟨_, List.mem_cons_self, List.mem_cons_self⟩
        · exact hrest hmem fun d hd => .inr (List.mem_cons_of_mem _ hd)

theorem head_mem_handedOut {devfids : List (Device × ℕ)} (h : devfids.head? = some devfid)
    (calls : List (List (Device × ℕ))) : devfid ∈ handedOut (devfids :: calls) [] := by
  rw [handedOut, devfidToRebalance, h]
  exact List.mem_cons_self

end Policy

end Ylem
