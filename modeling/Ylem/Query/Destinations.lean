import Ylem.Query.CreateOpen

/-!
# The destinations of an upload

`cmd_create_open` goes through the devices in the order that `sort_devs_by_freespace` has drawn, and takes those
that new files may be put on and that are on no host of an earlier one. No host is overlooked: whatever the order
is, the walk ends with as many destinations as are wanted or as there are hosts to choose from
(`length_chooseDests`).
-/

namespace Ylem

/-- The hosts with a device that is eligible and has free space. -/
def availableHosts (env : CreateOpenEnv) : Finset ℕ :=
  ((env.devs.devices.filter fun d => d.shouldGetNewFiles env.minFree && decide (0 < d.percentFree)).map
    Device.hostid).toFinset

/-- The destinations are eligible, on hosts of their own, and as many as can be had. -/
structure WellSpread (env : CreateOpenEnv) (want : ℕ) (dests : List Device) : Prop where
  eligible : ∀ d ∈ dests, d ∈ env.devs.devices ∧ d.shouldGetNewFiles env.minFree = true
  hosts : (dests.map Device.hostid).Nodup
  count : dests.length = min want (availableHosts env).card

/-! ### The walk through the devices -/

section Walk

variable {minFree want : ℕ} {dests devices : List Device} {d : Device}

theorem notOnHosts_iff : d.notOnHosts dests = true ↔ d.hostid ∉ dests.map Device.hostid := by
  simp [Device.notOnHosts]

theorem mem_chooseDests (h : d ∈ chooseDests minFree want dests devices) :
    d ∈ dests ∨ (d ∈ devices ∧ d.shouldGetNewFiles minFree = true) := by
  induction devices generalizing dests with
  | nil => exact .inl h
  | cons ddev devices ih =>
    rw [chooseDests] at h
    split_ifs at h with hfull htake
    · exact .inl h
    · rcases ih h with hmem | ⟨hmem, helig⟩
      · rcases List.mem_append.mp hmem with hmem | hnew
        · exact .inl hmem
        · rw [Bool.and_eq_true] at htake
          obtain rfl := List.mem_singleton.mp hnew
          exact .inr ⟨List.mem_cons_self, htake.1⟩
      · exact .inr ⟨List.mem_cons_of_mem _ hmem, helig⟩
    · exact (ih h).imp_right fun ⟨hmem, helig⟩ => ⟨List.mem_cons_of_mem _ hmem, helig⟩

theorem nodup_append_dest (h : (dests.map Device.hostid).Nodup) (hnew : d.hostid ∉ dests.map Device.hostid) :
    ((dests ++ [d]).map Device.hostid).Nodup := by
  rw [List.map_append, List.map_singleton]
  exact List.nodup_append_comm.mp (List.nodup_cons.mpr ⟨hnew, h⟩)

theorem nodup_chooseDests (h : (dests.map Device.hostid).Nodup) :
    ((chooseDests minFree want dests devices).map Device.hostid).Nodup := by
  induction devices generalizing dests with
  | nil => exact h
  | cons ddev devices ih =>
    rw [chooseDests]
    split_ifs with hfull htake
    · exact h
    · rw [Bool.and_eq_true, notOnHosts_iff] at htake
      exact ih (nodup_append_dest h htake.2)
    · exact ih h

/-- The hosts of the destinations so far and of the eligible devices to come. -/
def hostsInReach (minFree : ℕ) (dests devices : List Device) : Finset ℕ :=
  (dests.map Device.hostid ++ (devices.filter fun d => d.shouldGetNewFiles minFree).map Device.hostid).toFinset

theorem card_le_hostsInReach (h : (dests.map Device.hostid).Nodup) :
    dests.length ≤ (hostsInReach minFree dests devices).card := by
  have hlength : dests.length = (dests.map Device.hostid).toFinset.card := by
    rw [List.toFinset_card_of_nodup h, List.length_map]
  rw [hlength]
  refine Finset.card_le_card fun hostid hmem => ?_
  rw [hostsInReach, List.toFinset_append]
  exact Finset.mem_union_left _ hmem

/-- The walk takes the wanted number, or one device of every host in reach. -/
theorem length_chooseDests (h : (dests.map Device.hostid).Nodup) (hle : dests.length ≤ want) :
    (chooseDests minFree want dests devices).length = min want (hostsInReach minFree dests devices).card := by
  induction devices generalizing dests with
  | nil =>
    have hcard : (hostsInReach minFree dests []).card = dests.length := by
      rw [hostsInReach, List.filter_nil, List.map_nil, List.append_nil, List.toFinset_card_of_nodup h, List.length_map]
    rw [hcard, min_eq_right hle]
    rfl
  | cons ddev devices ih =>
    have hreach : dests.length ≤ (hostsInReach minFree dests (ddev :: devices)).card := card_le_hostsInReach h
    rw [chooseDests]
    split_ifs with hfull htake
    · rw [min_eq_left (hfull.trans hreach)]
      exact le_antisymm hle hfull
    · rw [Bool.and_eq_true, notOnHosts_iff] at htake
      have hsame : hostsInReach minFree (dests ++ [ddev]) devices = hostsInReach minFree dests (ddev :: devices) := by
        rw [hostsInReach, hostsInReach, List.filter_cons_of_pos htake.1, List.map_append, List.append_assoc]
        rfl
      have hlength : (dests ++ [ddev]).length ≤ want := by
        rw [List.length_append, List.length_singleton]
        omega
      rw [ih (nodup_append_dest h htake.2) hlength, hsame]
    · have hsame : hostsInReach minFree dests devices = hostsInReach minFree dests (ddev :: devices) := by
        cases helig : ddev.shouldGetNewFiles minFree with
        | false => rw [hostsInReach, hostsInReach, List.filter_cons_of_neg (by simp [helig])]
        | true =>
          -- the host of the device has a destination
          rw [helig, Bool.true_and, notOnHosts_iff, not_not] at htake
          rw [hostsInReach, hostsInReach, List.filter_cons_of_pos helig, List.map_cons, List.toFinset_append,
            List.toFinset_append, List.toFinset_cons, Finset.union_insert,
            Finset.insert_eq_of_mem (Finset.mem_union_left _ (List.mem_toFinset.mpr htake))]
      rw [ih h hle, hsame]

end Walk

theorem mem_sortDevsByFreespace {weights : ℕ → Draw} {devices : List Device} {d : Device} :
    d ∈ sortDevsByFreespace weights devices ↔ d ∈ devices ∧ 0 < d.percentFree := by
  rw [sortDevsByFreespace, mem_weightedList]
  constructor
  · rintro ⟨item, hitem, hpos, rfl⟩
    obtain ⟨d, hd, rfl⟩ := List.mem_map.mp hitem
    exact ⟨hd, pos_of_mul_pos_right hpos (by norm_num)⟩
  · rintro ⟨hd, hpos⟩
    exact ⟨(d, 100 * d.percentFree), List.mem_map_of_mem hd, by positivity, rfl⟩

theorem wellSpread_openDests (env : CreateOpenEnv) (args : Args) :
    WellSpread env (wantedDests args) (openDests env args) where
  eligible d hd := by
    rcases mem_chooseDests hd with hmem | ⟨hmem, helig⟩
    · exact absurd hmem List.not_mem_nil
    · exact ⟨(mem_sortDevsByFreespace.mp hmem).1, helig⟩
  hosts := nodup_chooseDests List.nodup_nil
  count := by
    have hreach : hostsInReach env.minFree [] (sortDevsByFreespace env.weights env.devs.devices) = availableHosts env := by
      ext hostid
      simp only [hostsInReach, availableHosts, List.map_nil, List.nil_append, List.mem_toFinset, List.mem_map,
        List.mem_filter, mem_sortDevsByFreespace, Bool.and_eq_true, decide_eq_true_eq]
      exact exists_congr fun d => and_congr_left fun _ => ⟨fun h => ⟨h.1.1, h.2, h.1.2⟩, fun h => ⟨⟨h.1, h.2.2⟩, h.2.1⟩⟩
    have hnone : (([] : List Device).map Device.hostid).Nodup := List.nodup_nil
    rw [openDests, length_chooseDests hnone (Nat.zero_le _), hreach]

/-! ### The handler -/

/-- A row that the statement enters into table `tempfile` has these devices. -/
def Stmt.Registers (dests : List Device) : Stmt → Prop
  | .insertTempfile _ _ _ _ devids _ _ => devids = Text.commaList (dests.map Device.devid)
  | _ => True

/-- The reply has the fid, the profile if it was asked for, and then these devices and no others. -/
def Names (env : CreateOpenEnv) (args : Args) (dests : List Device) (reply : List (Text × Text)) : Prop :=
  ∃ fid entries, reply = ("fid".toList, Text.decimal fid) ::
      (if Text.truthy (args "debug_profile") then env.profile else []) ++ entries ∧
    (entries.filter fun kv => "devid".toList.isPrefixOf kv.1).map Prod.snd =
      dests.map fun d => Text.decimal d.devid

/-- The request has a domain and a class. -/
def HasClass (env : CreateOpenEnv) (args : Args) : Prop :=
  ∃ lines dmid classid, checkDomain env.toQueryEnv args = .ok (lines, dmid) ∧ dmid ≠ 0 ∧
    openClassId env args dmid = .ok (some classid)

section Handler

variable {env : CreateOpenEnv} {args : Args} {dests : List Device} {reply : List (Text × Text)} {fid : ℕ}

theorem filter_destArgs {suffix : Text} {d : Device} {entries : List (Text × Text)}
    (h : destArgs env suffix fid d = .ok entries) :
    (entries.filter fun kv => "devid".toList.isPrefixOf kv.1).map Prod.snd = [Text.decimal d.devid] := by
  unfold destArgs at h
  cases hurl : deviceUrl env.toQueryEnv false d fid with
  | error e =>
    rw [hurl] at h
    cases h
  | ok url =>
    rw [hurl] at h
    obtain rfl := Except.ok.inj h
    rfl

theorem filter_paths {first : ℕ} {paths : List (List (Text × Text))}
    (h : (dests.zipIdx first).mapM (fun d => destArgs env ('_' :: Text.decimal d.2) fid d.1) = .ok paths) :
    (paths.flatten.filter fun kv => "devid".toList.isPrefixOf kv.1).map Prod.snd =
      dests.map fun d => Text.decimal d.devid := by
  induction dests generalizing first paths with
  | nil =>
    cases h
    rfl
  | cons d dests ih =>
    rw [List.zipIdx_cons, List.mapM_cons] at h
    cases hentries : destArgs env ('_' :: Text.decimal first) fid d with
    | error e =>
      rw [hentries] at h
      cases h
    | ok entries =>
      cases hrest : (dests.zipIdx (first + 1)).mapM fun d => destArgs env ('_' :: Text.decimal d.2) fid d.1 with
      | error e =>
        rw [hentries, hrest] at h
        cases h
      | ok rest =>
        rw [hentries, hrest] at h
        obtain rfl : entries :: rest = paths := Except.ok.inj h
        rw [List.flatten_cons, List.filter_append, List.map_append, filter_destArgs hentries, ih hrest]
        rfl

theorem names_openArgs {multi : Bool} (hmulti : multi = false → dests.length ≤ 1)
    (h : openArgs env args multi fid dests = .ok reply) : Names env args dests reply := by
  unfold openArgs at h
  cases multi with
  | true =>
    cases hpaths : (dests.zipIdx 1).mapM fun d => destArgs env ('_' :: Text.decimal d.2) fid d.1 with
    | error e =>
      rw [if_pos rfl, hpaths] at h
      cases h
    | ok paths =>
      rw [if_pos rfl, hpaths] at h
      obtain rfl := Except.ok.inj h
      refine ⟨fid, paths.flatten ++ [("dev_count".toList, Text.decimal dests.length)], ?_, ?_⟩
      · rw [← List.append_assoc]
      · rw [List.filter_append, List.map_append, filter_paths hpaths]
        exact List.append_nil _
  | false =>
    cases dests with
    | nil =>
      obtain rfl := Except.ok.inj h
      exact ⟨fid, [], rfl, rfl⟩
    | cons d rest =>
      obtain rfl : rest = [] := by
        have hlength := hmulti rfl
        rw [List.length_cons] at hlength
        exact List.eq_nil_of_length_eq_zero (by omega)
      have htake : [d].take 1 = [d] := rfl
      cases hentries : destArgs env [] fid d with
      | error e =>
        rw [if_neg (by decide), htake, List.mapM_cons, hentries] at h
        cases h
      | ok entries =>
        rw [if_neg (by decide), htake, List.mapM_cons, hentries] at h
        obtain rfl := Except.ok.inj h
        refine ⟨fid, entries, ?_, filter_destArgs hentries⟩
        simp

variable (env args) in
/-- What a result tells of the destinations. -/
def Tells (o : Option Outcome) : Prop :=
  (∀ reply, o.bind Outcome.okArgs = some reply → Names env args (openDests env args) reply) ∧
    (o = some (.err "no_devices") ↔ HasClass env args ∧ (openDests env args).length = 0)

theorem tells_of_other {o : Outcome} (hok : o.okArgs = none) (hne : o ≠ .err "no_devices")
    (hnot : ¬ (HasClass env args ∧ (openDests env args).length = 0)) : Tells env args (some o) := by
  refine ⟨fun reply hreply => ?_, iff_of_false (fun heq => hne (Option.some.inj heq)) hnot⟩
  rw [Option.bind_some, hok] at hreply
  exact absurd hreply (by simp)

theorem err_ne_noDevices {code : String} (h : errLine code none ≠ errLine "no_devices" none) :
    Outcome.err code ≠ .err "no_devices" := fun heq => h (List.cons_eq_cons.mp (Outcome.mk.inj heq).1).1

theorem tells_openReply {multi : Bool} (hmulti : multi = Text.truthy (args "multi_dest"))
    (hne : (openDests env args).length ≠ 0) (fid : ℕ) :
    Tells env args (some (openReply env args multi (openDests env args) fid)) := by
  have hnot : ¬ (HasClass env args ∧ (openDests env args).length = 0) := fun h => hne h.2
  unfold openReply
  cases (openDests env args).findSome? fun dev => env.vivify dev fid with
  | some e => exact tells_of_other rfl (by simp [Outcome.dies, Outcome.err]) hnot
  | none =>
    cases hargs : openArgs env args multi fid (openDests env args) with
    | error e => exact tells_of_other rfl (by simp [Outcome.dies, Outcome.err]) hnot
    | ok reply =>
      refine ⟨fun reply' hreply => ?_, iff_of_false (by simp [Outcome.ok, Outcome.err, errLine]) hnot⟩
      obtain rfl : reply = reply' := Option.some.inj hreply
      refine names_openArgs (fun hsingle => ?_) hargs
      have hcount := (wellSpread_openDests env args).count
      rw [wantedDests, ← hmulti, hsingle, if_neg Bool.false_ne_true] at hcount
      omega

theorem ends_openTempfile (hne : (openDests env args).length ≠ 0) {dmid classid : ℕ} :
    (openTempfile env args (Text.truthy (args "multi_dest")) dmid classid (openDests env args)).Ends
      (Tells env args) := by
  have hnot : ¬ (HasClass env args ∧ (openDests env args).length = 0) := fun h => hne h.2
  unfold openTempfile
  refine Prog.Ends.bind (fun registered => ?_) _
  split
  · exact ⟨fun reply hreply => absurd hreply (by simp), iff_of_false (by simp) hnot⟩
  · exact tells_of_other rfl (err_ne_noDevices (by decide)) hnot
  · exact tells_of_other rfl (err_ne_noDevices (by decide)) hnot
  · exact tells_openReply rfl hne _

theorem lines_of_checkDomain {lines : List Reply} (h : checkDomain env.toQueryEnv args = .ok (lines, 0)) :
    ∃ code, lines = [errLine code none] := by
  unfold checkDomain at h
  split at h
  · exact ⟨_, (Prod.mk.inj (Except.ok.inj h)).1.symm⟩
  · exact ⟨_, (Prod.mk.inj (Except.ok.inj h)).1.symm⟩
  · split at h
    · exact absurd h (by simp)
    · exact ⟨_, (Prod.mk.inj (Except.ok.inj h)).1.symm⟩
    · exact ⟨_, (Prod.mk.inj (Except.ok.inj h)).1.symm⟩
    · rename_i hzero _
      obtain ⟨-, rfl⟩ := Prod.mk.inj (Except.ok.inj h)
      exact (hzero rfl).elim

theorem ends_cmdCreateOpen (env : CreateOpenEnv) (args : Args) : (cmdCreateOpen env args).Ends (Tells env args) := by
  unfold cmdCreateOpen
  cases hdomain : checkDomain env.toQueryEnv args with
  | error e =>
    refine tells_of_other rfl (by simp [Outcome.dies, Outcome.err]) ?_
    rintro ⟨⟨lines, dmid, classid, heq, -⟩, -⟩
    exact absurd (hdomain.symm.trans heq) (by simp)
  | ok found =>
    obtain ⟨lines, dmid⟩ := found
    have hclass : HasClass env args ↔ dmid ≠ 0 ∧ ∃ classid, openClassId env args dmid = .ok (some classid) := by
      constructor
      · rintro ⟨lines', dmid', classid, heq, hne, hcls⟩
        obtain ⟨rfl, rfl⟩ := Prod.mk.inj (Except.ok.inj (hdomain.symm.trans heq))
        exact ⟨hne, classid, hcls⟩
      · rintro ⟨hne, classid, hcls⟩
        exact ⟨lines, dmid, classid, hdomain, hne, hcls⟩
    cases dmid with
    | zero =>
      obtain ⟨code, rfl⟩ := lines_of_checkDomain hdomain
      exact tells_of_other rfl (by simp [Outcome.err]) fun h => (hclass.mp h.1).1 rfl
    | succ dmid =>
      cases hcls : openClassId env args (dmid + 1) with
      | error e =>
        simp only [hcls]
        refine tells_of_other rfl (by simp [Outcome.dies, Outcome.err]) ?_
        rw [hclass, hcls]
        simp
      | ok classid =>
        cases classid with
        | none =>
          simp only [hcls]
          refine tells_of_other rfl (err_ne_noDevices (by decide)) ?_
          rw [hclass, hcls]
          simp
        | some classid =>
          have hhas : HasClass env args := hclass.mpr ⟨Nat.succ_ne_zero dmid, classid, hcls⟩
          simp only [hcls]
          split
          · rename_i hdests
            have hnone : openDests env args = [] := hdests
            refine ⟨fun reply hreply => absurd (show none = some reply from hreply) (by simp), ?_⟩
            exact iff_of_true rfl ⟨hhas, by rw [hnone]; rfl⟩
          · rename_i hdests
            exact ends_openTempfile fun hlength => hdests (List.eq_nil_of_length_eq_zero hlength)

end Handler

/-- The devices that `cmd_create_open` registers and returns are eligible for new files, on hosts of their own, and
as many as are wanted or can be had; it answers `no_devices` to a request with a domain and a class exactly if there
are none. -/
theorem cmdCreateOpen_wellSpread (env : CreateOpenEnv) (args : Args) :
    ∃ dests, WellSpread env (wantedDests args) dests ∧
      (cmdCreateOpen env args).Issues (Stmt.Registers dests) ∧
      (cmdCreateOpen env args).Ends fun o =>
        (∀ reply, o.bind Outcome.okArgs = some reply → Names env args dests reply) ∧
        (o = some (.err "no_devices") ↔ HasClass env args ∧ dests.length = 0) :=
  ⟨openDests env args, wellSpread_openDests env args,
    issues_of_registerStmts env args fun _ hnew => ⟨fun _ _ _ => hnew, fun _ => trivial, trivial, fun _ => trivial⟩,
    ends_cmdCreateOpen env args⟩

end Ylem
