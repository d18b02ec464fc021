import Ylem.Lib.Split
import Ylem.Network

/-!
# The settings of network zones

The netmasks of a zone are a server setting. When it is written, it is taken for a list: every piece between commas
and blanks has to be a netmask. When it is read, `MogileFS::Network` takes the whole text for one netmask, and calls
a method of what it gets, which is nothing for a list. So a setting that has been accepted makes `zone_for_ip` die,
for every address that no zone in front of it covers.

The accepted settings that can be used are those that are one netmask as a whole, and the empty ones; the setting
`0`, which is false, is never used at all (`usable_iff`).
-/

namespace Ylem

/-! ### Writing -/

section Settings

variable (netmasks : Netmasks)

/-- The pieces of the setting of a zone. -/
def zonePieces (v : Text) : List Text := v.splitRuns fun c => c = ',' || Text.isBlank c

/-- `$valid_netmask`. -/
def validNetmask (n : Text) : Except String Unit :=
  match netmasks.parse n with
  | some _ => pure ()
  | none => throw "Doesn't match an acceptable netmask"

/-- `$valid_netmask_list`. -/
def validNetmaskList (v : Text) : Except String Text := do
  (zonePieces v).forM (validNetmask netmasks)
  pure v

/-- The settings of the zones, which have all been accepted. -/
structure ZoneSettings where
  networkZones : Option Text
  zone : Text → Option Text
  accepted : ∀ name v, zone name = some v → validNetmaskList netmasks v = .ok v

/-! ### Reading -/

namespace ZoneSettings

variable {netmasks : Netmasks} (st : ZoneSettings netmasks)

/-- The zones that are listed. -/
def zones : List Text := (st.networkZones.getD []).splitCommas

/-- `clear_and_build_cache`: zones without a setting are left out. -/
def clearAndBuildCache : List (Text × Text) :=
  st.zones.eraseDups.filterMap fun name =>
    if Text.truthy (st.zone name) then (st.zone name).map fun v => (name, v) else none

end ZoneSettings

/-- `zone_for_ip`: the first zone of the cache, in the order of the hash, whose netmask covers the address. -/
def zoneForIp? (cache : List (Text × Text)) (ip : Option Text) : Except String (Option Text) :=
  match ip with
  | none => pure none
  | some ip => if !Text.truthy (some ip) then pure none else search ip cache
where
  search (ip : Text) : List (Text × Text) → Except String (Option Text)
    | [] => pure none
    | (zone, setting) :: cache => do
      if ← netmasks.matchSetting setting ip then pure (some zone) else search ip cache

theorem zoneForIp_eq (cache : List (Text × Text)) (ip : Option Text) :
    zoneForIp netmasks cache ip = (zoneForIp? netmasks cache ip).map fun zone => zone.getD [] := by
  have hsearch : ∀ ip, zoneForIp.search netmasks ip cache =
      (zoneForIp?.search netmasks ip cache).map fun zone => zone.getD [] := by
    intro ip
    induction cache with
    | nil => rfl
    | cons entry cache ih =>
      obtain ⟨zone, setting⟩ := entry
      rw [zoneForIp.search, zoneForIp?.search]
      cases netmasks.matchSetting setting ip with
      | error e => rfl
      | ok covered =>
        cases covered with
        | false => exact ih
        | true => rfl
  cases ip with
  | none => rfl
  | some ip =>
    rw [zoneForIp, zoneForIp?]
    split
    · rfl
    · exact hsearch ip

/-! ### What a setting is for -/

/-- One of the netmasks of the setting covers the address. -/
def MasksCover (v ip : Text) : Prop := ∃ piece ∈ zonePieces v, ∃ net, netmasks.parse piece = some net ∧ netmasks.covers net ip

/-- What can be parsed as one netmask and taken for a list of netmasks is the list of that one. -/
def Netmasks.OneNetmask : Prop := ∀ v net, (∀ piece ∈ zonePieces v, (netmasks.parse piece).isSome) →
  netmasks.parse v = some net → ∃ piece, zonePieces v = [piece] ∧ netmasks.parse piece = some net

end Settings

namespace ZoneSettings

variable {netmasks : Netmasks} (st : ZoneSettings netmasks)

/-- The zone is listed and one of its netmasks covers the address. -/
def Contains (name ip : Text) : Prop := name ∈ st.zones ∧ ∃ v, st.zone name = some v ∧ MasksCover netmasks v ip

/-- No address is in two zones. -/
def Disjoint : Prop := ∀ ip name name', st.Contains name ip → st.Contains name' ip → name = name'

/-- For every order of the hash and every address, a zone that contains the address is found, or none, and the zone
is found if the zones are disjoint. -/
def Usable : Prop := ∀ cache, cache.Perm st.clearAndBuildCache → ∀ ip, Text.truthy (some ip) = true →
  ∃ found, zoneForIp? netmasks cache (some ip) = .ok found ∧ (∀ name, found = some name → st.Contains name ip) ∧
    (st.Disjoint → ∀ name, st.Contains name ip → found = some name)

/-! ### Lookups -/

section Lookup

variable {st} {cache : List (Text × Text)} {ip name v : Text}

theorem parses_of_accepted (h : st.zone name = some v) : ∀ piece ∈ zonePieces v, (netmasks.parse piece).isSome := by
  have hall : ∀ pieces : List Text, pieces.forM (validNetmask netmasks) = .ok () →
      ∀ piece ∈ pieces, (netmasks.parse piece).isSome := by
    intro pieces
    induction pieces with
    | nil => exact fun _ piece hpiece => absurd hpiece List.not_mem_nil
    | cons first pieces ih =>
      intro hforM
      have hstep : (validNetmask netmasks first >>= fun _ => pieces.forM (validNetmask netmasks)) = .ok () := hforM
      obtain ⟨_, hfirst, hrest⟩ := bind_eq_ok hstep
      refine List.forall_mem_cons.mpr ⟨?_, ih hrest⟩
      unfold validNetmask at hfirst
      split at hfirst
      · rename_i net hnet
        rw [hnet]
        rfl
      · cases hfirst
  obtain ⟨_, hpieces, _⟩ := bind_eq_ok (st.accepted name v h)
  exact hall _ hpieces

theorem mem_clearAndBuildCache : (name, v) ∈ st.clearAndBuildCache ↔
    name ∈ st.zones ∧ st.zone name = some v ∧ Text.truthy (some v) = true := by
  rw [clearAndBuildCache, List.mem_filterMap]
  constructor
  · rintro ⟨name', hname', h⟩
    split_ifs at h with htrue
    obtain ⟨v', hv', heq⟩ := Option.map_eq_some_iff.mp h
    obtain ⟨rfl, rfl⟩ := Prod.mk.inj heq
    exact ⟨List.mem_eraseDups.mp hname', hv', hv' ▸ htrue⟩
  · rintro ⟨hname, hv, htrue⟩
    exact ⟨name, List.mem_eraseDups.mpr hname, by rw [hv, if_pos htrue]; rfl⟩

theorem search_eq (ip : Text) (h : ∀ entry ∈ cache, (netmasks.parse entry.2).isSome) :
    zoneForIp?.search netmasks ip cache = .ok ((cache.find? fun entry =>
      (netmasks.parse entry.2).any fun net => netmasks.covers net ip).map Prod.fst) := by
  induction cache with
  | nil => rfl
  | cons entry cache ih =>
    obtain ⟨zone, setting⟩ := entry
    obtain ⟨hentry, hrest⟩ := List.forall_mem_cons.mp h
    obtain ⟨net, hnet⟩ := Option.isSome_iff_exists.mp hentry
    have hmatch : netmasks.matchSetting setting ip = .ok (netmasks.covers net ip) := by
      rw [Netmasks.matchSetting, hnet]
      rfl
    rw [zoneForIp?.search, hmatch, List.find?_cons]
    cases hcovers : netmasks.covers net ip with
    | true => simp only [hnet, Option.any_some, hcovers]; rfl
    | false =>
      simp only [hnet, Option.any_some, hcovers]
      exact ih hrest

theorem search_dies {zone setting : Text} (h : netmasks.parse setting = none) :
    zoneForIp?.search netmasks ip ((zone, setting) :: cache) =
      .error "Can't call method \"match\" on an undefined value" := by
  rw [zoneForIp?.search, Netmasks.matchSetting, h]
  rfl

theorem mem_of_search {zone : Text} (h : zoneForIp?.search netmasks ip cache = .ok (some zone)) :
    ∃ v, (zone, v) ∈ cache := by
  induction cache with
  | nil => cases h
  | cons entry cache ih =>
    obtain ⟨first, setting⟩ := entry
    rw [zoneForIp?.search] at h
    obtain ⟨covered, -, h⟩ := bind_eq_ok h
    cases covered with
    | true =>
      obtain rfl : first = zone := Option.some.inj (Except.ok.inj h)
      exact ⟨setting, List.mem_cons_self⟩
    | false =>
      obtain ⟨v, hv⟩ := ih h
      exact ⟨v, List.mem_cons_of_mem _ hv⟩

theorem masksCover_iff (hone : netmasks.OneNetmask) {net : Text} (hv : st.zone name = some v)
    (hnet : netmasks.parse v = some net) : MasksCover netmasks v ip ↔ netmasks.covers net ip = true := by
  obtain ⟨piece, hpieces, hpiece⟩ := hone v net (parses_of_accepted hv) hnet
  rw [MasksCover, hpieces]
  constructor
  · rintro ⟨piece', hmem, net', hnet', hcovers⟩
    obtain rfl := List.mem_singleton.mp hmem
    obtain rfl : net' = net := Option.some.inj (hnet'.symm.trans hpiece)
    exact hcovers
  · intro hcovers
    exact ⟨piece, List.mem_singleton_self _, net, hpiece, hcovers⟩

theorem lookup_eq (htrue : Text.truthy (some ip) = true) :
    zoneForIp? netmasks cache (some ip) = zoneForIp?.search netmasks ip cache := by
  rw [zoneForIp?, htrue]
  rfl

theorem eq_zero_of_not_truthy (hne : v ≠ []) (h : Text.truthy (some v) = false) : v = ['0'] := by
  by_contra hzero
  simp [Text.truthy, hne, hzero] at h

end Lookup

/-- Accepted settings can be used exactly if every setting of a listed zone that is true is one netmask as a whole,
and, if the zones are disjoint, no zone with the setting `0` contains an address. -/
theorem usable_iff (st : ZoneSettings netmasks) (hone : netmasks.OneNetmask) : st.Usable ↔
    ∀ name ∈ st.zones, ∀ v, st.zone name = some v →
      (Text.truthy (some v) = true → (netmasks.parse v).isSome = true) ∧
        (v = ['0'] → st.Disjoint → ∀ ip, Text.truthy (some ip) = true → ¬ MasksCover netmasks v ip) := by
  constructor
  · intro h name hname v hv
    constructor
    · intro htrue
      by_contra hnone
      rw [Option.not_isSome_iff_eq_none] at hnone
      have hmem : (name, v) ∈ st.clearAndBuildCache := mem_clearAndBuildCache.mpr ⟨hname, hv, htrue⟩
      obtain ⟨found, hfound, -⟩ := h _ (List.perm_cons_erase hmem).symm "1".toList rfl
      rw [lookup_eq rfl, search_dies hnone] at hfound
      cases hfound
    · rintro rfl hdisjoint ip htrue hcover
      obtain ⟨found, hfound, -, hcomplete⟩ := h _ (List.Perm.refl _) ip htrue
      obtain rfl := hcomplete hdisjoint name ⟨hname, _, hv, hcover⟩
      rw [lookup_eq htrue] at hfound
      obtain ⟨v, hmem⟩ := mem_of_search hfound
      obtain ⟨-, hv', htruthy⟩ := mem_clearAndBuildCache.mp hmem
      obtain rfl : ['0'] = v := Option.some.inj (hv.symm.trans hv')
      exact absurd htruthy (by decide)
  · intro h cache hperm ip htrue
    have hentry : ∀ name v, (name, v) ∈ cache → name ∈ st.zones ∧ st.zone name = some v ∧
        (netmasks.parse v).isSome = true := by
      intro name v hmem
      obtain ⟨hname, hv, htruthy⟩ := mem_clearAndBuildCache.mp (hperm.mem_iff.mp hmem)
      exact ⟨hname, hv, (h name hname v hv).1 htruthy⟩
    have hsearch := search_eq ip fun entry hmem => (hentry entry.1 entry.2 hmem).2.2
    have hsound : ∀ entry, (cache.find? fun entry =>
        (netmasks.parse entry.2).any fun net => netmasks.covers net ip) = some entry → st.Contains entry.1 ip := by
      intro entry hfound
      obtain ⟨hname, hv, hsome⟩ := hentry entry.1 entry.2 (List.mem_of_find?_eq_some hfound)
      obtain ⟨net, hnet⟩ := Option.isSome_iff_exists.mp hsome
      have hcovers := List.find?_some hfound
      rw [hnet] at hcovers
      exact ⟨hname, entry.2, hv, (masksCover_iff hone hv hnet).mpr hcovers⟩
    refine ⟨_, (lookup_eq htrue).trans hsearch, fun name hfound => ?_, fun hdisjoint name hcontains => ?_⟩
    · obtain ⟨entry, hentry', rfl⟩ := Option.map_eq_some_iff.mp hfound
      exact hsound entry hentry'
    · obtain ⟨hname, v, hv, hcover⟩ := hcontains
      obtain ⟨hparse, hzero⟩ := h name hname v hv
      have hne : v ≠ [] := by
        rintro rfl
        obtain ⟨piece, hpiece, -⟩ := hcover
        have hnil : zonePieces [] = [] := rfl
        rw [hnil] at hpiece
        exact absurd hpiece List.not_mem_nil
      have htruthy : Text.truthy (some v) = true := by
        by_contra hfalse
        exact hzero (eq_zero_of_not_truthy hne (Bool.eq_false_iff.mpr hfalse)) hdisjoint ip htrue hcover
      obtain ⟨net, hnet⟩ := Option.isSome_iff_exists.mp (hparse htruthy)
      have hmem : (name, v) ∈ cache := hperm.mem_iff.mpr (mem_clearAndBuildCache.mpr ⟨hname, hv, htruthy⟩)
      have hfound : (cache.find? fun entry =>
          (netmasks.parse entry.2).any fun net => netmasks.covers net ip).isSome = true := by
        refine List.find?_isSome.mpr ⟨(name, v), hmem, ?_⟩
        rw [hnet]
        exact (masksCover_iff hone hv hnet).mp hcover
      obtain ⟨entry, hentry'⟩ := Option.isSome_iff_exists.mp hfound
      rw [hentry', Option.map_some, hdisjoint ip entry.1 name (hsound entry hentry') ⟨hname, v, hv, hcover⟩]

end ZoneSettings

/-! ### An accepted list -/

/-- Two networks, each a netmask. -/
def privateNetworks : Netmasks where
  parse t := if t = "10.0.0.0/8".toList ∨ t = "192.168.0.0/16".toList then some t else none
  covers net ip := (net = "10.0.0.0/8".toList ∧ "10.".toList <+: ip) ∨
    (net = "192.168.0.0/16".toList ∧ "192.168.".toList <+: ip)

theorem privateNetworks_oneNetmask : privateNetworks.OneNetmask := by
  intro v net _ hnet
  have hv : v = "10.0.0.0/8".toList ∨ v = "192.168.0.0/16".toList := by
    by_contra hnot
    have hnone : privateNetworks.parse v = none := if_neg hnot
    exact absurd (hnone.symm.trans hnet) (Option.some_ne_none net).symm
  have hpieces : zonePieces v = [v] := by
    rcases hv with rfl | rfl
    · decide
    · decide
  exact ⟨v, hpieces, hnet⟩

/-- A zone with the given setting. -/
def oneZone (v : Text) (h : validNetmaskList privateNetworks v = .ok v) : ZoneSettings privateNetworks where
  networkZones := some "near".toList
  zone name := if name = "near".toList then some v else none
  accepted := fun name v' hv' => by
    split_ifs at hv'
    rw [← Option.some.inj hv']
    exact h

/-- A zone of one network can be used. -/
theorem oneZone_usable : (oneZone "10.0.0.0/8".toList rfl).Usable := by
  refine (ZoneSettings.usable_iff _ privateNetworks_oneNetmask).mpr fun name _ v hv => ?_
  obtain ⟨-, hv⟩ := Option.ite_none_right_eq_some.mp hv
  obtain rfl := Option.some.inj hv
  exact ⟨fun _ => rfl, fun hzero => absurd hzero (by decide)⟩

/-- A zone of two networks, which is accepted, cannot. -/
theorem listedZone_unusable : privateNetworks.OneNetmask ∧
    ¬ (oneZone "10.0.0.0/8,192.168.0.0/16".toList rfl).Usable := by
  refine ⟨privateNetworks_oneNetmask, fun h => ?_⟩
  obtain ⟨found, hfound, -⟩ := h _ (List.Perm.refl _) "10.1.2.3".toList rfl
  have hdies : zoneForIp? privateNetworks (oneZone "10.0.0.0/8,192.168.0.0/16".toList rfl).clearAndBuildCache
      (some "10.1.2.3".toList) = .error "Can't call method \"match\" on an undefined value" := by
    rfl
  rw [hdies] at hfound
  cases hfound

end Ylem
