import Ylem.Lib.Dict
import Ylem.Query.CreateClose
import Ylem.Query.Keys

/-!
# The paths of a file

`cmd_get_paths` answers with URLs of a file on the devices that its rows in `file_on` name. The devices are
shuffled, the less used ones first as a rule, and one after the other is looked at: a device that cannot be
read from is passed over, one that is currently down serves as a last resort, and the first path is
checked for the size of the file, unless the client does not want that.

The shuffle takes no device that is not in the device map, and it drops those whose weight is not positive,
that is the ones that are used too much and, where no utilisation is known, those with a negative weight
(`get_paths_serves_iff`).
-/

namespace Ylem

/-! ### The command -/

/-- What `cmd_get_paths` sees besides: the utilisation that was last observed of a device, and its weight in
the database. -/
structure PathsEnv extends QueryEnv where
  utilization : ℕ → Option Text
  weight : ℕ → Option ℤ
  -- `absorb_dbrow` dies of any other device without a host
  host_isSome : ∀ dev ∈ devs.devices, dev.status ≠ .dead → dev.host.isSome = true
  -- the setting has a default
  volumeId_isSome : volumeId.isSome = true

/-- The number that a text matching `/\A\d+\Z/` stands for. -/
def Text.digits? (t : Text) : Option ℕ :=
  let digits := if t.getLast? = some '\n' then t.dropLast else t
  if digits ≠ [] ∧ digits.all Char.isDigit then some (Text.ofDigits digits) else none

/-- What the loop over the devices has found: the paths, and one of a device that is down. -/
structure PathsFound where
  paths : List Text
  backup : Option Text

/-- `path1`, `path2`, … -/
def pathName (i : ℕ) : Text := "path".toList ++ Text.decimal i

/-- The reply with the paths. -/
def pathsReply (paths : List Text) (mimetype : Text) : List (Text × Text) :=
  ("paths".toList, Text.decimal paths.length) :: ("mimetype".toList, mimetype) :: numbered pathName paths

section Handler

variable (env : PathsEnv) (args : Args) (row : FileRow)

/-- The weight of a device in the shuffle. -/
def sortWeight (dev : Device) : ℤ :=
  let weight := match (env.utilization dev.devid).bind Text.digits? with
    | some util => 102 - (util : ℤ)
    | none => (env.weight dev.devid).getD 0
  if weight = 0 then 100 else weight

/-- The devices with their weights. A device that is not in the map makes it die. -/
def weighDevices : List (Option Device) → Except Exn (List (Device × ℚ))
  | [] => .ok []
  | none :: _ => .error (.other "Can't call method \"observed_utilization\" on an undefined value".toList)
  | some dev :: devs => (weighDevices devs).map fun items => (dev, (sortWeight env dev : ℚ)) :: items

/-- `sort_devs_by_utilization`. -/
def sortDevsByUtilization (draws : ℕ → Draw) (devs : List (Option Device)) : Except Exn (List Device) :=
  (weighDevices env devs).map (weightedList draws)

/-- `size_matches` of the copy behind a URL. -/
def sizeMatches (url : Text) : Except Exn Bool :=
  (env.fileSize url).map fun
    | some size => size != 0 && size == row.length
    | none => false

/-- `$pathcount`. -/
def pathcount : ℚ :=
  let pathcount := if Text.truthy (args "pathcount") then Text.numify ((args "pathcount").getD []) else 2
  if pathcount < 2 then 2 else pathcount

/-- One device of the loop: what has been found then, and whether a path was added. -/
def visitDevice (found : PathsFound) (dev : Device) : Except Exn (PathsFound × Bool) :=
  if !dev.canReadFrom then .ok (found, false)
  else match dev.host with
    | none => .ok (found, false)
    | some host => do
      let path ← deviceUrl env.toQueryEnv true dev row.fid
      if host.observedUnreachable || dev.observedUnreachable then
        pure ({ found with backup := path }, false)
      else
        -- only the first path is verified
        let take ← if !found.paths.isEmpty || Text.truthy (args "noverify") then pure true
          else sizeMatches env row (path.getD [])
        pure (if take then { found with paths := found.paths ++ [path.getD []] } else found, take)

/-- The loop of `cmd_get_paths`. -/
def visitDevices : PathsFound → List Device → Except Exn PathsFound
  | found, [] => .ok found
  | found, dev :: devs =>
    match visitDevice env args row found dev with
    | .error e => .error e
    | .ok (found, added) =>
      if added ∧ (found.paths.length : ℚ) = pathcount args then .ok found else visitDevices found devs

/-- The paths that are answered. -/
def PathsFound.answer (found : PathsFound) : List Text :=
  if Text.truthy found.backup && found.paths.isEmpty then [found.backup.getD []] else found.paths

/-- `cmd_get_paths` for a file on the devices `devids`. -/
def getPathsOf (draws : ℕ → Draw) (devids : List ℕ) : Outcome :=
  match sortDevsByUtilization env draws (devids.map env.devs.ofDevid) with
  | .error e => .dies e
  | .ok devs =>
    match visitDevices env args row ⟨[], none⟩ devs with
    | .error e => .dies e
    | .ok found =>
      let mimetype := row.mimetype.getD []
      .ok (pathsReply found.answer (if mimetype = [] then "application/octet-stream".toList else mimetype))

/-- `cmd_get_paths` without plugin hooks and memcache. -/
def cmdGetPaths (draws : ℕ → Draw) : DbProg Outcome :=
  withDomain env.toQueryEnv args fun dmid =>
    if !Text.truthy (args "key") then pure (.err "no_key")
    else do
      match ← sql (.selectFileByName dmid ((args "key").getD [])) with
      | none => pure (.err "unknown_key")
      | some row =>
        if row.fid = 0 then pure (.dies (.other "Missing 'fid' column".toList))
        else do
          let devids ← sql (.selectDevids row.fid)
          pure (getPathsOf env args row draws devids)

end Handler

/-! ### What a client can rely on -/

/-- `get_paths` of the client: the paths of a reply. -/
def replyPaths (reply : List (Text × Text)) : List Text :=
  let count := (Text.int ((reply.lookup "paths".toList).getD [])).toNat
  (List.range count).filterMap fun i => reply.lookup (pathName (i + 1))

section Serving

variable (env : PathsEnv) (args : Args) (row : FileRow) (devids : List ℕ)

/-- The devices of the rows that can be read from. -/
def Readable (dev : Device) : Prop :=
  dev ∈ env.devs.devices ∧ dev.devid ∈ devids ∧ dev.canReadFrom = true

/-- A request is served: with one `OK` line, of distinct paths on devices that can be read from, not more of
them than the client wants, and without a check not none if there is such a device. -/
def ServesFile (outcome : Outcome) : Prop :=
  ∃ reply, outcome = .ok reply ∧ (replyPaths reply).Nodup ∧
    ((replyPaths reply).length : ℚ) ≤ max 2 (Text.numify ((args "pathcount").getD [])) ∧
    (∀ path ∈ replyPaths reply, ∃ dev, Readable env devids dev ∧
      deviceUrl env.toQueryEnv true dev row.fid = .ok (some path)) ∧
    (Text.truthy (args "noverify") = true → (∃ dev, Readable env devids dev) → replyPaths reply ≠ [])

/-- The host and the device are up, as far as is known. -/
def CurrentlyUp (dev : Device) : Prop :=
  dev.observedUnreachable = false ∧ ∀ host ∈ dev.host, host.observedUnreachable = false

instance (dev : Device) : Decidable (CurrentlyUp dev) := by
  unfold CurrentlyUp
  infer_instance

/-- The device can be read from and is up. -/
def usable (dev : Device) : Bool := dev.canReadFrom && decide (CurrentlyUp dev)

/-- The URL of the file on a device. -/
def pathOf (dev : Device) : Text :=
  match deviceUrl env.toQueryEnv true dev row.fid with
  | .ok (some url) => url
  | _ => []

/-- The devices that take part in the shuffle. -/
def weighed : List Device :=
  (devids.filterMap env.devs.ofDevid).filter fun dev => 0 < sortWeight env dev

/-- The devices whose paths may be listed. -/
def listable : List Device :=
  (weighed env devids).filter usable

/-- What it takes for a request to be served, however the devices are shuffled. -/
structure Servable : Prop where
  key : Text.truthy (args "key") = true
  devices : ∀ devid ∈ devids, (env.devs.ofDevid devid).isSome = true
  weight : Text.truthy (args "noverify") = true → (∃ dev, Readable env devids dev) →
    ∃ dev, Readable env devids dev ∧ 0 < sortWeight env dev
  sizes : Text.truthy (args "noverify") = false → ∀ dev ∈ listable env devids,
    ∃ size, env.fileSize (pathOf env row dev) = .ok size
  pathcount : (∃ n : ℕ, pathcount args = n) ∨ ((listable env devids).length : ℚ) ≤ pathcount args ∨
    (Text.truthy (args "noverify") = false ∧
      ∀ dev ∈ listable env devids, sizeMatches env row (pathOf env row dev) = .ok false)

end Serving

/-! ### The reply -/

theorem pathName_injective : Function.Injective pathName := fun _ _ h =>
  Text.decimal_injective (List.append_cancel_left h)

theorem distinctKeys_pathsReply (paths : List Text) (mimetype : Text) :
    DistinctKeys (pathsReply paths mimetype) := by
  have hpaths : ∀ i, "paths".toList ≠ pathName i := fun i =>
    Text.append_cons_ne_append_decimal "path".toList [] i (c := 's') (by decide)
  have hmimetype : ∀ i, "mimetype".toList ≠ pathName i := fun i heq => by
    have hhead : 'm' = 'p' := (List.cons.inj heq).1
    exact absurd hhead (by decide)
  refine List.nodup_cons.mpr ⟨?_, List.nodup_cons.mpr ⟨not_mem_numbered hmimetype paths, ?_⟩⟩
  · have hne : "paths".toList ≠ "mimetype".toList := by decide
    exact List.not_mem_cons_of_ne_of_not_mem hne (not_mem_numbered hpaths paths)
  · exact distinctKeys_numbered pathName_injective paths

theorem replyPaths_pathsReply (paths : List Text) (mimetype : Text) :
    replyPaths (pathsReply paths mimetype) = paths := by
  have hcount : (Text.int (Text.decimal paths.length)).toNat = paths.length := by
    rw [Text.int, Text.numify_decimal]
    simp
  show (List.range (Text.int (Text.decimal paths.length)).toNat).filterMap _ = paths
  rw [hcount]
  exact filterMap_lookup_numbered (distinctKeys_pathsReply paths mimetype) fun entry hentry =>
    List.mem_cons_of_mem _ (List.mem_cons_of_mem _ hentry)

/-! ### One device -/

section Devices

variable {env : PathsEnv} {args : Args} {row : FileRow} {found found' : PathsFound} {dev : Device}
  {devs : List Device}

theorem usable_eq_true_iff : usable dev = true ↔ dev.canReadFrom = true ∧ CurrentlyUp dev := by
  rw [usable, Bool.and_eq_true, decide_eq_true_iff]

theorem isSome_host_of_canReadFrom (hmem : dev ∈ env.devs.devices) (hread : dev.canReadFrom = true) :
    ∃ host, dev.host = some host := by
  refine Option.isSome_iff_exists.mp (env.host_isSome dev hmem fun hdead => ?_)
  rw [Device.canReadFrom, hdead] at hread
  exact Bool.false_ne_true hread

theorem deviceUrl_eq_pathOf (row : FileRow) (hmem : dev ∈ env.devs.devices) (hread : dev.canReadFrom = true) :
    deviceUrl env.toQueryEnv true dev row.fid = .ok (some (pathOf env row dev)) := by
  obtain ⟨host, hhost⟩ := isSome_host_of_canReadFrom hmem hread
  obtain ⟨volid, hvolid⟩ := Option.isSome_iff_exists.mp env.volumeId_isSome
  simp only [pathOf, deviceUrl, hhost, hvolid]

theorem pathOf_inj {dev' : Device} (hmem : dev ∈ env.devs.devices) (hread : dev.canReadFrom = true)
    (hmem' : dev' ∈ env.devs.devices) (hread' : dev'.canReadFrom = true)
    (h : pathOf env row dev = pathOf env row dev') : dev = dev' := by
  obtain ⟨host, hhost⟩ := isSome_host_of_canReadFrom hmem hread
  obtain ⟨host', hhost'⟩ := isSome_host_of_canReadFrom hmem' hread'
  obtain ⟨volid, hvolid⟩ := Option.isSome_iff_exists.mp env.volumeId_isSome
  simp only [pathOf, deviceUrl, hhost, hhost', hvolid] at h
  exact DeviceMap.eq_of_devid hmem hmem' (eq_of_fullUrl_eq h)

theorem truthy_pathOf (row : FileRow) (hmem : dev ∈ env.devs.devices) (hread : dev.canReadFrom = true) :
    Text.truthy (some (pathOf env row dev)) = true := by
  obtain ⟨host, hhost⟩ := isSome_host_of_canReadFrom hmem hread
  obtain ⟨volid, hvolid⟩ := Option.isSome_iff_exists.mp env.volumeId_isSome
  obtain ⟨rest, hrest⟩ : ∃ rest, pathOf env row dev = 'h' :: rest := by
    simp only [pathOf, deviceUrl, hhost, hvolid]
    exact ⟨_, rfl⟩
  simp [Text.truthy, hrest]

theorem visitDevice_of_unreadable (hread : dev.canReadFrom = false) :
    visitDevice env args row found dev = .ok (found, false) := by
  rw [visitDevice, hread]
  rfl

theorem visitDevice_of_down (hmem : dev ∈ env.devs.devices) (hread : dev.canReadFrom = true)
    (hdown : ¬ CurrentlyUp dev) :
    visitDevice env args row found dev =
      .ok ({ found with backup := some (pathOf env row dev) }, false) := by
  obtain ⟨host, hhost⟩ := isSome_host_of_canReadFrom hmem hread
  have hunreachable : (host.observedUnreachable || dev.observedUnreachable) = true := by
    by_contra hup
    rw [Bool.not_eq_true, Bool.or_eq_false_iff] at hup
    exact hdown ⟨hup.2, fun h hh => Option.some.inj (hhost.symm.trans hh) ▸ hup.1⟩
  simp only [visitDevice, hread, hhost, deviceUrl_eq_pathOf row hmem hread, hunreachable]
  rfl

theorem visitDevice_of_up (hmem : dev ∈ env.devs.devices) (hread : dev.canReadFrom = true)
    (hup : CurrentlyUp dev) :
    visitDevice env args row found dev =
      (if !found.paths.isEmpty || Text.truthy (args "noverify") then .ok true
        else sizeMatches env row (pathOf env row dev)).map fun take =>
          (if take then { found with paths := found.paths ++ [pathOf env row dev] } else found, take) := by
  obtain ⟨host, hhost⟩ := isSome_host_of_canReadFrom hmem hread
  have hreachable : (host.observedUnreachable || dev.observedUnreachable) = false := by
    rw [hup.1, hup.2 host hhost]
    rfl
  simp only [visitDevice, hread, hhost, deviceUrl_eq_pathOf row hmem hread, hreachable, Bool.not_true,
    Bool.false_eq_true, if_false]
  show (do
    let take ← if !found.paths.isEmpty || Text.truthy (args "noverify") then pure true
      else sizeMatches env row (pathOf env row dev)
    pure (if take then { found with paths := found.paths ++ [pathOf env row dev] } else found, take)) = _
  split_ifs
  · rfl
  · cases sizeMatches env row (pathOf env row dev) <;> rfl

/-! ### The loop -/

/-- What the loop does with the devices `devs`. -/
structure Visited (env : PathsEnv) (args : Args) (row : FileRow) (devs : List Device)
    (found found' : PathsFound) : Prop where
  listed : ∃ l : List Device, l.Sublist (devs.filter usable) ∧
    found'.paths = found.paths ++ l.map (pathOf env row)
  backup : found'.backup = found.backup ∨
    ∃ dev ∈ devs, dev.canReadFrom = true ∧ found'.backup = some (pathOf env row dev)
  cutoff : ∀ n : ℕ, pathcount args = n → found.paths.length < n → found'.paths.length ≤ n
  some_path : Text.truthy (args "noverify") = true → (∃ dev ∈ devs, dev.canReadFrom = true) →
    found'.paths ≠ [] ∨ ∃ dev ∈ devs, dev.canReadFrom = true ∧ found'.backup = some (pathOf env row dev)

theorem Visited.nil : Visited env args row [] found found where
  listed := ⟨[], List.nil_sublist _, (List.append_nil _).symm⟩
  backup := .inl rfl
  cutoff _ _ h := h.le
  some_path _ h := by
    obtain ⟨dev, hdev, -⟩ := h
    exact absurd hdev List.not_mem_nil

theorem sublist_filter_cons {α : Type} {p : α → Bool} {l : List α} {as : List α} (a : α)
    (h : l.Sublist (as.filter p)) : l.Sublist ((a :: as).filter p) :=
  h.trans ((List.sublist_cons_self a as).filter p)

theorem Visited.skip (hskip : dev.canReadFrom = true → Text.truthy (args "noverify") = false)
    (h : Visited env args row devs found found') : Visited env args row (dev :: devs) found found' where
  listed := by
    obtain ⟨l, hl, hpaths⟩ := h.listed
    exact ⟨l, sublist_filter_cons dev hl, hpaths⟩
  backup := h.backup.imp_right fun ⟨d, hd, hbackup⟩ => ⟨d, List.mem_cons_of_mem _ hd, hbackup⟩
  cutoff := h.cutoff
  some_path hnoverify hread := by
    obtain ⟨d, hd, hdread⟩ := hread
    rcases List.mem_cons.mp hd with rfl | hd
    · exact absurd (hskip hdread) (by rw [hnoverify]; decide)
    · refine (h.some_path hnoverify ⟨d, hd, hdread⟩).imp_right fun ⟨x, hx, hbackup⟩ => ?_
      exact ⟨x, List.mem_cons_of_mem _ hx, hbackup⟩

theorem Visited.down (hread : dev.canReadFrom = true)
    (h : Visited env args row devs { found with backup := some (pathOf env row dev) } found') :
    Visited env args row (dev :: devs) found found' := by
  have hbackup : ∃ d ∈ dev :: devs, d.canReadFrom = true ∧ found'.backup = some (pathOf env row d) := by
    rcases h.backup with hbackup | ⟨d, hd, hbackup⟩
    · exact ⟨dev, List.mem_cons_self, hread, hbackup⟩
    · exact ⟨d, List.mem_cons_of_mem _ hd, hbackup⟩
  obtain ⟨l, hl, hpaths⟩ := h.listed
  exact ⟨⟨l, sublist_filter_cons dev hl, hpaths⟩, .inr hbackup, h.cutoff, fun _ _ => .inr hbackup⟩

theorem Visited.add (hread : dev.canReadFrom = true) (hup : CurrentlyUp dev) {next : PathsFound}
    (hnext : next = { found with paths := found.paths ++ [pathOf env row dev] })
    (h : (next.paths.length : ℚ) = pathcount args ∧ found' = next ∨
      (next.paths.length : ℚ) ≠ pathcount args ∧ Visited env args row devs next found') :
    Visited env args row (dev :: devs) found found' := by
  have hkeep : (dev :: devs).filter usable = dev :: devs.filter usable :=
    List.filter_cons_of_pos (usable_eq_true_iff.mpr ⟨hread, hup⟩)
  have hpaths : next.paths = found.paths ++ [pathOf env row dev] := by rw [hnext]
  have hbackup : next.backup = found.backup := by rw [hnext]
  have hlength : next.paths.length = found.paths.length + 1 := by
    rw [hpaths, List.length_append, List.length_singleton]
  rcases h with ⟨hcount, rfl⟩ | ⟨hcount, h⟩
  · refine ⟨⟨[dev], ?_, hpaths⟩, .inl hbackup, fun n hn hlt => ?_, fun _ _ => .inl ?_⟩
    · rw [hkeep]
      exact List.Sublist.cons_cons dev (List.nil_sublist _)
    · omega
    · rw [hpaths]
      exact List.append_ne_nil_of_right_ne_nil _ (List.cons_ne_nil _ _)
  · obtain ⟨l, hl, hfound⟩ := h.listed
    refine ⟨⟨dev :: l, ?_, ?_⟩, ?_, fun n hn hlt => h.cutoff n hn ?_, fun _ _ => .inl ?_⟩
    · rw [hkeep]
      exact hl.cons_cons dev
    · rw [hfound, hpaths, List.map_cons, List.append_assoc, List.singleton_append]
    · rw [← hbackup]
      exact h.backup.imp_right fun ⟨d, hd, hd'⟩ => ⟨d, List.mem_cons_of_mem _ hd, hd'⟩
    · have hne : next.paths.length ≠ n := fun heq => hcount (by rw [hn, heq])
      omega
    · rw [hfound, hpaths, List.append_assoc]
      exact List.append_ne_nil_of_right_ne_nil _ (List.append_ne_nil_of_left_ne_nil (List.cons_ne_nil _ _) _)

theorem visited_of_visitDevices (hdevs : ∀ dev ∈ devs, dev ∈ env.devs.devices)
    (h : visitDevices env args row found devs = .ok found') : Visited env args row devs found found' := by
  induction devs generalizing found with
  | nil =>
    obtain rfl := Except.ok.inj h
    exact .nil
  | cons dev devs ih =>
    have hmem := hdevs dev List.mem_cons_self
    have hrest : ∀ d ∈ devs, d ∈ env.devs.devices := fun d hd => hdevs d (List.mem_cons_of_mem _ hd)
    rw [visitDevices] at h
    by_cases hread : dev.canReadFrom = true
    · by_cases hup : CurrentlyUp dev
      · rw [visitDevice_of_up hmem hread hup] at h
        cases hcheck : (if !found.paths.isEmpty || Text.truthy (args "noverify") then .ok true
            else sizeMatches env row (pathOf env row dev)) with
        | error e => rw [hcheck] at h; cases h
        | ok take =>
          rw [hcheck] at h
          simp only [Except.map] at h
          cases take with
          | false =>
            refine .skip (fun _ => ?_) (ih hrest (by simpa using h))
            by_contra hnoverify
            rw [Bool.not_eq_false] at hnoverify
            rw [hnoverify, Bool.or_true, if_pos rfl] at hcheck
            cases hcheck
          | true =>
            refine .add hread hup rfl ?_
            simp only [true_and, if_true] at h
            split_ifs at h with hcount
            · exact .inl ⟨hcount, (Except.ok.inj h).symm⟩
            · exact .inr ⟨hcount, ih hrest h⟩
      · rw [visitDevice_of_down hmem hread hup] at h
        exact .down hread (ih hrest (by simpa using h))
    · rw [Bool.not_eq_true] at hread
      rw [visitDevice_of_unreadable hread] at h
      exact .skip (fun htrue => absurd htrue (by rw [hread]; exact Bool.false_ne_true))
        (ih hrest (by simpa using h))

theorem exists_of_visitDevices_error {e : Exn} (hdevs : ∀ dev ∈ devs, dev ∈ env.devs.devices)
    (h : visitDevices env args row found devs = .error e) :
    Text.truthy (args "noverify") = false ∧ ∃ dev ∈ devs, usable dev = true ∧
      sizeMatches env row (pathOf env row dev) = .error e := by
  induction devs generalizing found with
  | nil => exact absurd h (by simp [visitDevices])
  | cons dev devs ih =>
    have hmem := hdevs dev List.mem_cons_self
    have hlater : ∀ {next : PathsFound}, visitDevices env args row next devs = .error e →
        Text.truthy (args "noverify") = false ∧ ∃ d ∈ dev :: devs, usable d = true ∧
          sizeMatches env row (pathOf env row d) = .error e := by
      intro next hnext
      obtain ⟨hverify, d, hd, hcheck⟩ := ih (fun d hd => hdevs d (List.mem_cons_of_mem _ hd)) hnext
      exact ⟨hverify, d, List.mem_cons_of_mem _ hd, hcheck⟩
    rw [visitDevices] at h
    by_cases hread : dev.canReadFrom = true
    · by_cases hup : CurrentlyUp dev
      · rw [visitDevice_of_up hmem hread hup] at h
        split_ifs at h with hverify
        · simp only [Except.map] at h
          split_ifs at h <;> exact hlater h
        · cases hcheck : sizeMatches env row (pathOf env row dev) with
          | error e' =>
            rw [hcheck] at h
            obtain rfl := Except.error.inj h
            refine ⟨?_, dev, List.mem_cons_self, usable_eq_true_iff.mpr ⟨hread, hup⟩, hcheck⟩
            rw [Bool.or_eq_true, not_or] at hverify
            simpa using hverify.2
          | ok take =>
            rw [hcheck] at h
            simp only [Except.map] at h
            split_ifs at h <;> exact hlater h
      · rw [visitDevice_of_down hmem hread hup] at h
        exact hlater (by simpa using h)
    · rw [Bool.not_eq_true] at hread
      rw [visitDevice_of_unreadable hread] at h
      exact hlater (by simpa using h)

theorem length_of_visitDevices (hcut : ∀ n : ℕ, pathcount args ≠ n)
    (hlist : found.paths ≠ [] ∨ Text.truthy (args "noverify") = true)
    (hdevs : ∀ dev ∈ devs, dev ∈ env.devs.devices) :
    ∃ found', visitDevices env args row found devs = .ok found' ∧
      found'.paths.length = found.paths.length + (devs.filter usable).length := by
  induction devs generalizing found with
  | nil => exact ⟨found, rfl, rfl⟩
  | cons dev devs ih =>
    have hmem := hdevs dev List.mem_cons_self
    have hrest : ∀ d ∈ devs, d ∈ env.devs.devices := fun d hd => hdevs d (List.mem_cons_of_mem _ hd)
    rw [visitDevices]
    by_cases hread : dev.canReadFrom = true
    · by_cases hup : CurrentlyUp dev
      · have htake : (!found.paths.isEmpty || Text.truthy (args "noverify")) = true := by
          rw [Bool.or_eq_true]
          exact hlist.imp_left fun hne => by simpa using hne
        set next : PathsFound := { found with paths := found.paths ++ [pathOf env row dev] } with hnext
        have hpaths : next.paths = found.paths ++ [pathOf env row dev] := by rw [hnext]
        have hne : next.paths ≠ [] := by
          rw [hpaths]
          exact List.append_ne_nil_of_right_ne_nil _ (List.cons_ne_nil _ _)
        obtain ⟨found', hfound, hlength⟩ := ih (.inl hne) hrest
        refine ⟨found', ?_, ?_⟩
        · have hgo : ¬ ((next.paths.length : ℚ) = pathcount args) := fun heq => hcut _ heq.symm
          rw [visitDevice_of_up hmem hread hup, if_pos htake]
          simp only [Except.map, if_true, true_and, ← hnext, if_neg hgo]
          exact hfound
        · rw [hlength, List.filter_cons_of_pos (usable_eq_true_iff.mpr ⟨hread, hup⟩), hpaths, List.length_append,
            List.length_singleton, List.length_cons]
          omega
      · rw [visitDevice_of_down hmem hread hup,
          List.filter_cons_of_neg fun h => hup (usable_eq_true_iff.mp h).2]
        obtain ⟨found', hfound, hlength⟩ : ∃ found', visitDevices env args row
            { found with backup := some (pathOf env row dev) } devs = .ok found' ∧ _ := ih hlist hrest
        exact ⟨found', by simpa using hfound, hlength⟩
    · rw [List.filter_cons_of_neg fun h => hread (usable_eq_true_iff.mp h).1]
      rw [Bool.not_eq_true] at hread
      rw [visitDevice_of_unreadable hread]
      simpa using ih hlist hrest

theorem paths_of_visitDevices_none (hverify : Text.truthy (args "noverify") = false)
    (hdevs : ∀ dev ∈ devs, dev ∈ env.devs.devices)
    (hnone : ∀ dev ∈ devs, usable dev = true → sizeMatches env row (pathOf env row dev) = .ok false)
    (hnil : found.paths = []) (h : visitDevices env args row found devs = .ok found') : found'.paths = [] := by
  induction devs generalizing found with
  | nil =>
    obtain rfl := Except.ok.inj h
    exact hnil
  | cons dev devs ih =>
    have hmem := hdevs dev List.mem_cons_self
    have hgo : ∀ {next : PathsFound}, next.paths = [] → visitDevices env args row next devs = .ok found' →
        found'.paths = [] :=
      ih (fun d hd => hdevs d (List.mem_cons_of_mem _ hd)) fun d hd => hnone d (List.mem_cons_of_mem _ hd)
    rw [visitDevices] at h
    by_cases hread : dev.canReadFrom = true
    · by_cases hup : CurrentlyUp dev
      · have hcheck : (!found.paths.isEmpty || Text.truthy (args "noverify")) = false := by
          rw [hverify, hnil]
          rfl
        rw [visitDevice_of_up hmem hread hup, hcheck, if_neg Bool.false_ne_true,
          hnone dev List.mem_cons_self (usable_eq_true_iff.mpr ⟨hread, hup⟩)] at h
        exact hgo hnil (by simpa [Except.map] using h)
      · rw [visitDevice_of_down hmem hread hup] at h
        have hrest : visitDevices env args row { found with backup := some (pathOf env row dev) } devs =
            .ok found' := by simpa using h
        exact hgo (by exact hnil) hrest
    · rw [Bool.not_eq_true] at hread
      rw [visitDevice_of_unreadable hread] at h
      exact hgo hnil (by simpa using h)

end Devices

/-! ### The shuffle -/

section Shuffle

variable {env : PathsEnv} {devids : List ℕ} {dev : Device}

theorem mem_weighed : dev ∈ weighed env devids ↔
    dev ∈ env.devs.devices ∧ dev.devid ∈ devids ∧ 0 < sortWeight env dev := by
  rw [weighed, List.mem_filter, List.mem_filterMap, decide_eq_true_iff, ← and_assoc]
  refine and_congr_left fun _ => ⟨?_, ?_⟩
  · rintro ⟨devid, hdevid, hfind⟩
    obtain ⟨hmem, rfl⟩ := DeviceMap.ofDevid_eq_some.mp hfind
    exact ⟨hmem, hdevid⟩
  · rintro ⟨hmem, hdevid⟩
    exact ⟨dev.devid, hdevid, DeviceMap.ofDevid_devid hmem⟩

theorem nodup_weighed (h : devids.Nodup) : (weighed env devids).Nodup := by
  refine List.Nodup.filter _ (h.filterMap fun devid devid' dev hdev hdev' => ?_)
  exact (DeviceMap.ofDevid_eq_some.mp hdev).2.symm.trans (DeviceMap.ofDevid_eq_some.mp hdev').2

theorem weighDevices_eq (h : ∀ devid ∈ devids, (env.devs.ofDevid devid).isSome = true) :
    weighDevices env (devids.map env.devs.ofDevid) =
      .ok ((devids.filterMap env.devs.ofDevid).map fun dev => (dev, (sortWeight env dev : ℚ))) := by
  induction devids with
  | nil => rfl
  | cons devid devids ih =>
    obtain ⟨dev, hdev⟩ := Option.isSome_iff_exists.mp (h devid List.mem_cons_self)
    rw [List.map_cons, List.filterMap_cons, hdev, weighDevices,
      ih fun d hd => h d (List.mem_cons_of_mem _ hd)]
    rfl

theorem exists_weighDevices_error {devid : ℕ} (hdevid : devid ∈ devids) (h : env.devs.ofDevid devid = none) :
    ∃ e, weighDevices env (devids.map env.devs.ofDevid) = .error e := by
  induction devids with
  | nil => exact absurd hdevid List.not_mem_nil
  | cons first devids ih =>
    rw [List.map_cons]
    cases hfirst : env.devs.ofDevid first with
    | none => exact ⟨_, rfl⟩
    | some dev =>
      have hne : devid ≠ first := fun heq => by
        rw [← heq, h] at hfirst
        cases hfirst
      obtain ⟨e, he⟩ := ih ((List.mem_cons.mp hdevid).resolve_left hne)
      exact ⟨e, by rw [weighDevices, he]; rfl⟩

theorem weightedList_weighed (draws : ℕ → Draw) :
    (weightedList draws ((devids.filterMap env.devs.ofDevid).map fun dev =>
      (dev, (sortWeight env dev : ℚ)))).Perm (weighed env devids) := by
  refine (weightedList_perm draws _).trans (List.Perm.of_eq ?_)
  rw [weighed, List.filter_map, List.map_map]
  simp [Function.comp_def]

theorem exists_sortDevs_eq_cons (h : ∀ devid ∈ devids, (env.devs.ofDevid devid).isSome = true)
    (hdev : dev ∈ weighed env devids) :
    ∃ draws rest, sortDevsByUtilization env draws (devids.map env.devs.ofDevid) = .ok (dev :: rest) ∧
      (dev :: rest).Perm (weighed env devids) := by
  obtain ⟨hmem, hpos⟩ := List.mem_filter.mp hdev
  rw [decide_eq_true_iff] at hpos
  obtain ⟨draws, rest, hrest⟩ := exists_weightedList_eq_cons
    (List.mem_map_of_mem (f := fun dev => (dev, (sortWeight env dev : ℚ))) hmem)
    (show (0 : ℚ) < (sortWeight env dev : ℚ) by exact_mod_cast hpos)
  refine ⟨draws, rest, ?_, ?_⟩
  · rw [sortDevsByUtilization, weighDevices_eq h, Except.map, hrest]
  · rw [← hrest]
    exact weightedList_weighed draws

end Shuffle

/-! ### Every request is served exactly if it is servable -/

section Main

variable {env : PathsEnv} {args : Args} {row : FileRow} {devids : List ℕ} {draws : ℕ → Draw}

theorem pathcount_eq (args : Args) : pathcount args = max 2 (Text.numify ((args "pathcount").getD [])) := by
  have hmax : ∀ q : ℚ, (if q < 2 then 2 else q) = max 2 q := fun q => by
    split_ifs with hlt
    · exact (max_eq_left hlt.le).symm
    · exact (max_eq_right (not_lt.mp hlt)).symm
  simp only [pathcount, hmax]
  split_ifs with htruthy
  · rfl
  · have hzero : Text.numify ((args "pathcount").getD []) = 0 := by
      cases hcount : args "pathcount" with
      | none => rfl
      | some t =>
        rw [hcount] at htruthy
        have ht : t = [] ∨ t = ['0'] := by
          by_contra hne
          rw [not_or] at hne
          exact htruthy (by simp [Text.truthy, hne])
        rcases ht with rfl | rfl
        · rfl
        · exact Text.numify_decimal 0
    rw [hzero, max_self]
    exact (max_eq_left (by norm_num)).symm

theorem two_le_pathcount (args : Args) : 2 ≤ pathcount args := by
  rw [pathcount_eq]
  exact le_max_left _ _

theorem PathsFound.answer_cases (found : PathsFound) :
    found.answer = found.paths ∨ found.paths = [] ∧ ∃ path, found.backup = some path ∧ found.answer = [path] := by
  unfold PathsFound.answer
  split_ifs with h
  · rw [Bool.and_eq_true] at h
    refine .inr ⟨List.isEmpty_iff.mp h.2, ?_⟩
    cases hbackup : found.backup with
    | none => rw [hbackup] at h; exact absurd h.1 Bool.false_ne_true
    | some path => exact ⟨path, rfl, rfl⟩
  · exact .inl rfl

theorem Visited.of_mem_answer {devs : List Device} {found : PathsFound} {path : Text}
    (h : Visited env args row devs ⟨[], none⟩ found) (hpath : path ∈ found.answer) :
    ∃ dev ∈ devs, dev.canReadFrom = true ∧ path = pathOf env row dev := by
  rcases found.answer_cases with heq | ⟨-, backup, hfound, heq⟩
  · obtain ⟨l, hl, hpaths⟩ := h.listed
    rw [heq, hpaths, List.nil_append] at hpath
    obtain ⟨dev, hdev, rfl⟩ := List.mem_map.mp hpath
    obtain ⟨hin, husable⟩ := List.mem_filter.mp (hl.subset hdev)
    exact ⟨dev, hin, (usable_eq_true_iff.mp husable).1, rfl⟩
  · rw [heq, List.mem_singleton] at hpath
    rcases h.backup with hnone | ⟨dev, hdev, hread, hdevpath⟩
    · exact absurd (hfound.symm.trans hnone) (by simp)
    · rw [hfound] at hdevpath
      exact ⟨dev, hdev, hread, hpath.trans (Option.some.inj hdevpath)⟩

theorem getPathsOf_of_error {devs : List Device} {e : Exn}
    (hsort : sortDevsByUtilization env draws (devids.map env.devs.ofDevid) = .ok devs)
    (h : visitDevices env args row ⟨[], none⟩ devs = .error e) :
    getPathsOf env args row draws devids = .dies e := by
  simp only [getPathsOf, hsort, h]

theorem getPathsOf_of_ok {devs : List Device} {found : PathsFound}
    (hsort : sortDevsByUtilization env draws (devids.map env.devs.ofDevid) = .ok devs)
    (h : visitDevices env args row ⟨[], none⟩ devs = .ok found) :
    ∃ mimetype, getPathsOf env args row draws devids = .ok (pathsReply found.answer mimetype) := by
  simp only [getPathsOf, hsort, h]
  exact ⟨_, rfl⟩

theorem exists_sortDevs (h : ∀ devid ∈ devids, (env.devs.ofDevid devid).isSome = true) (draws : ℕ → Draw) :
    ∃ devs, sortDevsByUtilization env draws (devids.map env.devs.ofDevid) = .ok devs ∧
      devs.Perm (weighed env devids) :=
  ⟨_, by rw [sortDevsByUtilization, weighDevices_eq h]; rfl, weightedList_weighed draws⟩

theorem mem_of_perm_weighed {devs : List Device} (h : devs.Perm (weighed env devids)) :
    ∀ dev ∈ devs, dev ∈ env.devs.devices := fun _ hdev => (mem_weighed.mp (h.mem_iff.mp hdev)).1

/-- A servable request is served. -/
theorem Servable.serves (hnodup : devids.Nodup) (h : Servable env args row devids) (draws : ℕ → Draw) :
    ServesFile env args row devids (getPathsOf env args row draws devids) := by
  obtain ⟨devs, hsort, hperm⟩ := exists_sortDevs h.devices draws
  have hmem := mem_of_perm_weighed hperm
  have hlistable : (devs.filter usable).Perm (listable env devids) := hperm.filter _
  cases hvisit : visitDevices env args row ⟨[], none⟩ devs with
  | error e =>
    -- a check that dies
    obtain ⟨hverify, dev, hdev, husable, hcheck⟩ := exists_of_visitDevices_error hmem hvisit
    obtain ⟨size, hsize⟩ := h.sizes hverify dev
      (hlistable.mem_iff.mp (List.mem_filter.mpr ⟨hdev, husable⟩))
    rw [sizeMatches, hsize] at hcheck
    cases hcheck
  | ok found =>
    have hvisited := visited_of_visitDevices hmem hvisit
    obtain ⟨l, hl, hpaths⟩ := hvisited.listed
    rw [List.nil_append] at hpaths
    have hreadable : ∀ dev ∈ devs, dev.canReadFrom = true → Readable env devids dev := fun dev hdev hread =>
      ⟨hmem dev hdev, (mem_weighed.mp (hperm.mem_iff.mp hdev)).2.1, hread⟩
    have hlisted : ∀ dev ∈ l, dev ∈ env.devs.devices ∧ dev.canReadFrom = true := fun dev hdev => by
      obtain ⟨hin, husable⟩ := List.mem_filter.mp (hl.subset hdev)
      exact ⟨hmem dev hin, (usable_eq_true_iff.mp husable).1⟩
    obtain ⟨mimetype, hok⟩ := getPathsOf_of_ok hsort hvisit
    refine ⟨_, hok, ?_⟩
    rw [replyPaths_pathsReply, ← pathcount_eq]
    refine ⟨?_, ?_, fun path hpath => ?_, fun hnoverify hsome => ?_⟩
    · rcases found.answer_cases with heq | ⟨-, path, -, heq⟩
      · have hl' : l.Nodup := hl.nodup ((hperm.nodup_iff.mpr (nodup_weighed hnodup)).filter _)
        rw [heq, hpaths]
        refine List.Nodup.map_on (fun dev hdev dev' hdev' heq => ?_) hl'
        exact pathOf_inj (hlisted dev hdev).1 (hlisted dev hdev).2 (hlisted dev' hdev').1
          (hlisted dev' hdev').2 heq
      · rw [heq]
        exact List.nodup_singleton path
    · rcases found.answer_cases with heq | ⟨-, path, -, heq⟩
      · rw [heq]
        rcases h.pathcount with ⟨n, hn⟩ | hfew | ⟨hverify, hnone⟩
        · have htwo : (2 : ℚ) ≤ n := hn ▸ two_le_pathcount args
          have hpos : 0 < n := by
            have htwo' : 2 ≤ n := by exact_mod_cast htwo
            omega
          rw [hn]
          exact_mod_cast hvisited.cutoff n hn hpos
        · refine le_trans ?_ hfew
          have hle := hl.length_le
          rw [hlistable.length_eq] at hle
          rw [hpaths, List.length_map]
          exact_mod_cast hle
        · have hnil : found.paths = [] :=
            paths_of_visitDevices_none hverify hmem (fun dev hdev husable =>
              hnone dev (hlistable.mem_iff.mp (List.mem_filter.mpr ⟨hdev, husable⟩))) rfl hvisit
          rw [hnil]
          exact le_trans (by norm_num) (two_le_pathcount args)
      · rw [heq]
        exact le_trans (by norm_num) (two_le_pathcount args)
    · obtain ⟨dev, hdev, hread, rfl⟩ := hvisited.of_mem_answer hpath
      exact ⟨dev, hreadable dev hdev hread, deviceUrl_eq_pathOf row (hmem dev hdev) hread⟩
    · obtain ⟨dev, hdev, hpos⟩ := h.weight hnoverify hsome
      have hin : dev ∈ devs := hperm.mem_iff.mpr (mem_weighed.mpr ⟨hdev.1, hdev.2.1, hpos⟩)
      rcases hvisited.some_path hnoverify ⟨dev, hin, hdev.2.2⟩ with hne | ⟨dev', hdev', hread', hpath'⟩
      · rcases found.answer_cases with heq | ⟨hnil, -⟩
        · rwa [heq]
        · exact absurd hnil hne
      · have htruthy := truthy_pathOf row (hmem dev' hdev') hread'
        unfold PathsFound.answer
        rw [hpath', htruthy]
        split_ifs with hnil
        · exact List.cons_ne_nil _ _
        · simpa using hnil

theorem not_servesFile_dies (e : Exn) : ¬ ServesFile env args row devids (.dies e) := by
  rintro ⟨reply, hreply, -⟩
  cases congrArg Outcome.died hreply

theorem length_le_of_serves (h : ServesFile env args row devids (getPathsOf env args row draws devids))
    {devs : List Device} {found : PathsFound}
    (hsort : sortDevsByUtilization env draws (devids.map env.devs.ofDevid) = .ok devs)
    (hvisit : visitDevices env args row ⟨[], none⟩ devs = .ok found) :
    (found.paths.length : ℚ) ≤ pathcount args := by
  obtain ⟨mimetype, hok⟩ := getPathsOf_of_ok hsort hvisit
  obtain ⟨reply, hreply, -, hlength, -⟩ := h
  rw [hok] at hreply
  obtain rfl : pathsReply found.answer mimetype = reply := by simpa [Outcome.ok] using hreply
  rw [replyPaths_pathsReply, ← pathcount_eq] at hlength
  rcases found.answer_cases with heq | ⟨hnil, -⟩
  · rwa [heq] at hlength
  · rw [hnil]
    exact le_trans (by norm_num) (two_le_pathcount args)

/-- A request that is always served is servable. -/
theorem servable_of_serves (hkey : Text.truthy (args "key") = true)
    (h : ∀ draws, ServesFile env args row devids (getPathsOf env args row draws devids)) :
    Servable env args row devids := by
  have hdevices : ∀ devid ∈ devids, (env.devs.ofDevid devid).isSome = true := by
    intro devid hdevid
    by_contra hnone
    rw [Option.not_isSome_iff_eq_none] at hnone
    obtain ⟨e, he⟩ := exists_weighDevices_error hdevid hnone
    refine not_servesFile_dies e (?_ : ServesFile env args row devids (.dies e))
    have hserves := h fun _ => ⟨0, le_rfl, zero_lt_one⟩
    rwa [getPathsOf, sortDevsByUtilization, he] at hserves
  have hsizes : Text.truthy (args "noverify") = false → ∀ dev ∈ listable env devids,
      ∃ size, env.fileSize (pathOf env row dev) = .ok size := by
    intro hverify dev hdev
    obtain ⟨hweighed, husable⟩ := List.mem_filter.mp hdev
    obtain ⟨hread, hup⟩ := usable_eq_true_iff.mp husable
    cases hsize : env.fileSize (pathOf env row dev) with
    | ok size => exact ⟨size, rfl⟩
    | error e =>
      -- the device that is shuffled to the front is checked
      obtain ⟨draws, rest, hsort, hperm⟩ := exists_sortDevs_eq_cons hdevices hweighed
      have hvisit : visitDevices env args row ⟨[], none⟩ (dev :: rest) = .error e := by
        rw [visitDevices, visitDevice_of_up (mem_weighed.mp hweighed).1 hread hup, hverify, sizeMatches, hsize]
        rfl
      exact absurd (getPathsOf_of_error hsort hvisit ▸ h draws) (not_servesFile_dies e)
  refine ⟨hkey, hdevices, fun hnoverify hsome => ?_, hsizes, ?_⟩
  · -- any answered path shows a device of positive weight
    obtain ⟨devs, hsort, hperm⟩ := exists_sortDevs hdevices fun _ => ⟨0, le_rfl, zero_lt_one⟩
    have hmem := mem_of_perm_weighed hperm
    cases hvisit : visitDevices env args row ⟨[], none⟩ devs with
    | error e => exact absurd (getPathsOf_of_error hsort hvisit ▸ h _) (not_servesFile_dies e)
    | ok found =>
      obtain ⟨mimetype, hok⟩ := getPathsOf_of_ok hsort hvisit
      obtain ⟨reply, hreply, -, -, -, hne⟩ := h fun _ => ⟨0, le_rfl, zero_lt_one⟩
      rw [hok] at hreply
      obtain rfl : pathsReply found.answer mimetype = reply := by simpa [Outcome.ok] using hreply
      rw [replyPaths_pathsReply] at hne
      obtain ⟨path, hpath⟩ := List.exists_mem_of_ne_nil _ (hne hnoverify hsome)
      obtain ⟨dev, hdev, hread, -⟩ := (visited_of_visitDevices hmem hvisit).of_mem_answer hpath
      obtain ⟨hmap, hdevid, hpos⟩ := mem_weighed.mp (hperm.mem_iff.mp hdev)
      exact ⟨dev, ⟨hmap, hdevid, hread⟩, hpos⟩
  · by_contra hnot
    rw [not_or, not_or, not_and, not_exists] at hnot
    obtain ⟨hcut, hmany, hmatch⟩ := hnot
    by_cases hnoverify : Text.truthy (args "noverify") = true
    · obtain ⟨devs, hsort, hperm⟩ := exists_sortDevs hdevices fun _ => ⟨0, le_rfl, zero_lt_one⟩
      obtain ⟨found, hvisit, hlength⟩ : ∃ found, visitDevices env args row ⟨[], none⟩ devs = .ok found ∧ _ :=
        length_of_visitDevices hcut (.inr hnoverify) (mem_of_perm_weighed hperm)
      have hle := length_le_of_serves (h _) hsort hvisit
      rw [hlength, List.length_nil, Nat.zero_add, (hperm.filter usable).length_eq] at hle
      exact hmany hle
    · rw [Bool.not_eq_true] at hnoverify
      obtain ⟨dev, hdev, hsome⟩ : ∃ dev ∈ listable env devids,
          sizeMatches env row (pathOf env row dev) ≠ .ok false := by
        by_contra hall
        push Not at hall
        exact hmatch hnoverify hall
      obtain ⟨size, hsize⟩ := hsizes hnoverify dev hdev
      have htrue : sizeMatches env row (pathOf env row dev) = .ok true := by
        rw [sizeMatches, hsize] at hsome ⊢
        simpa [Except.map] using hsome
      obtain ⟨hweighed, husable⟩ := List.mem_filter.mp hdev
      obtain ⟨hread, hup⟩ := usable_eq_true_iff.mp husable
      -- the matching device comes first, and then all the others are listed
      obtain ⟨draws, rest, hsort, hperm⟩ := exists_sortDevs_eq_cons hdevices hweighed
      obtain ⟨found, hrest, hlength⟩ : ∃ found, visitDevices env args row ⟨[pathOf env row dev], none⟩ rest =
          .ok found ∧ _ :=
        length_of_visitDevices hcut (.inl (List.cons_ne_nil _ _)) fun d hd =>
          mem_of_perm_weighed hperm d (List.mem_cons_of_mem _ hd)
      have hvisit : visitDevices env args row ⟨[], none⟩ (dev :: rest) = .ok found := by
        rw [visitDevices, visitDevice_of_up (mem_weighed.mp hweighed).1 hread hup, hnoverify, htrue]
        exact (if_neg fun hstop => hcut _ hstop.2.symm).trans hrest
      have hle := length_le_of_serves (h draws) hsort hvisit
      have hall : found.paths.length = (listable env devids).length := by
        rw [listable, ← (hperm.filter usable).length_eq, List.filter_cons_of_pos husable, hlength,
          List.length_singleton, List.length_cons, Nat.add_comm]
      rw [hall] at hle
      exact hmany hle

theorem exec_cmdGetPaths {dmid : ℕ} {key : Text} {db : Db} (hdomain : checkDomain env.toQueryEnv args = .ok ([], dmid))
    (hdmid : dmid ≠ 0) (hkey : args "key" = some key) (hrow : db.file.findName? (dmid, key) = some row)
    (hfid : row.fid ≠ 0) :
    ((cmdGetPaths env args draws).exec db).1 =
      if Text.truthy (args "key") then getPathsOf env args row draws (db.devidsOf row.fid) else .err "no_key" := by
  obtain ⟨n, rfl⟩ := Nat.exists_eq_succ_of_ne_zero hdmid
  simp only [cmdGetPaths, withDomain, hdomain]
  by_cases htruthy : Text.truthy (args "key") = true
  · rw [htruthy, if_pos rfl]
    simp only [Bool.not_true, Bool.false_eq_true, if_false, hkey, Option.getD_some, DbProg.exec, Prog.exec_bind,
      Prog.exec_issue, Stmt.run, hrow, if_neg hfid]
    rfl
  · rw [if_neg htruthy]
    rw [Bool.not_eq_true] at htruthy
    rw [htruthy]
    rfl

/-- An existing file is served whatever is drawn exactly if the key is not `0`, the devices of all its rows are
known, and

* without a check, some device that can be read from has a positive weight, if there is one at all;
* with it, no check of a device that can be listed dies;
* the path count is whole, or there are not more devices to list, or none of them passes the check. -/
theorem get_paths_serves_iff {dmid : ℕ} {key : Text} {db : Db}
    (hdomain : checkDomain env.toQueryEnv args = .ok ([], dmid)) (hdmid : dmid ≠ 0)
    (hkey : args "key" = some key) (hrow : db.file.findName? (dmid, key) = some row) (hfid : row.fid ≠ 0) :
    (∀ draws, ServesFile env args row (db.devidsOf row.fid) ((cmdGetPaths env args draws).exec db).1) ↔
      Servable env args row (db.devidsOf row.fid) := by
  simp only [exec_cmdGetPaths hdomain hdmid hkey hrow hfid]
  constructor
  · intro h
    have htruthy : Text.truthy (args "key") = true := by
      by_contra hfalse
      obtain ⟨reply, hreply, -⟩ := h fun _ => ⟨0, le_rfl, zero_lt_one⟩
      rw [if_neg hfalse] at hreply
      simp [Outcome.err, Outcome.ok, errLine] at hreply
    exact servable_of_serves htruthy fun draws => by simpa [htruthy] using h draws
  · intro h draws
    rw [h.key, if_pos rfl]
    exact h.serves (db.nodup_devidsOf row.fid) draws

end Main

/-! ### A file of five bytes -/

/-- The devices of `twoHosts`, of which nothing is known but their weight, and copies of five bytes. -/
def idleDevices : PathsEnv where
  toQueryEnv := { emptyUpload with fileSize := fun _ => .ok (some 5) }
  utilization _ := none
  weight _ := some 100
  host_isSome := by decide
  volumeId_isSome := rfl

def keyFile : FileRow := ⟨7, 1, "key".toList, 5, 0, 2, none, 0⟩

/-- A file on the devices `devids`. -/
def fileOnDevices (devids : List ℕ) (h : (devids.map fun devid => (7, devid)).Nodup) : Db :=
  { Db.fresh with
    file := ⟨⟨[keyFile], List.nodup_singleton _⟩, List.nodup_singleton _⟩
    fileOn := ⟨devids.map fun devid => (7, devid), by rwa [List.map_id]⟩ }

/-- The request of a client for the paths of `key`. -/
def getKey : Args
  | "domain" => some "d".toList
  | "key" => some "key".toList
  | _ => none

theorem keyFile_served :
    Readable idleDevices [1, 3] (upDevice 1 1) ∧
      ∀ draws, ServesFile idleDevices getKey keyFile [1, 3]
        ((cmdGetPaths idleDevices getKey draws).exec (fileOnDevices [1, 3] (by decide))).1 := by
  have hdomain : checkDomain idleDevices.toQueryEnv getKey = .ok ([], 1) := rfl
  have hkey : getKey "key" = some "key".toList := rfl
  have hrow : (fileOnDevices [1, 3] (by decide)).file.findName? (1, "key".toList) = some keyFile := by decide
  refine ⟨⟨by decide, by decide, by decide⟩, (get_paths_serves_iff hdomain (by decide) hkey hrow (by decide)).mpr
    ⟨by decide, by decide, ?_, ?_, .inl ⟨2, ?_⟩⟩⟩
  · intro h
    exact absurd h (by decide)
  · intro _ dev _
    exact ⟨some 5, rfl⟩
  · rw [pathcount_eq]
    rfl

/-- Device 9 has gone: the request fails, although the file is there on device 1. -/
theorem keyFile_not_served :
    Readable idleDevices [1, 9] (upDevice 1 1) ∧
      ¬ ∀ draws, ServesFile idleDevices getKey keyFile [1, 9]
        ((cmdGetPaths idleDevices getKey draws).exec (fileOnDevices [1, 9] (by decide))).1 := by
  refine ⟨⟨by decide, by decide, by decide⟩, fun h => ?_⟩
  have hserves := h fun _ => ⟨0, le_rfl, zero_lt_one⟩
  exact not_servesFile_dies _ hserves

end Ylem
