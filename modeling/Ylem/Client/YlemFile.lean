import Ylem.Lib.Dict
import Ylem.Query.CreateOpen

/-!
# The file object of the old client

A `YlemFile` is assigned the reply to `create_open`, with the domain, the class and the key of the request put in.
It answers for the devids and paths of the destinations, and turns into the arguments of `create_close` for the
destination that was selected.

Whether the destinations are numbered is told from their number, so the only destination of a `multi_dest` reply
is looked for under a name that it does not have. With more than one, the arguments are taken from a second map,
which assignments insert into without overwriting, so that it keeps the domain, the key and the fid of the first
map that the object was ever assigned (`reflects_iff`).
-/

namespace Ylem

/-- `map<string,string>`, in any order. -/
abbrev Mapss := List (Text × Text)

namespace Mapss

/-- `insert`: a key that is there keeps its value. -/
def insertNew (m : Mapss) (k v : Text) : Mapss := if (m.lookup k).isSome then m else m ++ [(k, v)]

/-- `m[k] = v`. -/
def set (m : Mapss) (k v : Text) : Mapss := (k, v) :: m.filter fun kv => kv.1 ≠ k

theorem lookup_insertNew (m : Mapss) (k v k' : Text) :
    (m.insertNew k v).lookup k' = if k' = k then (m.lookup k).or (some v) else m.lookup k' := by
  unfold insertNew
  by_cases hsome : (m.lookup k).isSome
  · rw [if_pos hsome]
    split
    · rename_i heq
      rw [heq, Option.or_of_isSome hsome]
    · rfl
  · rw [if_neg hsome, List.lookup_append]
    have hnone : m.lookup k = none := Option.not_isSome_iff_eq_none.mp hsome
    split
    · rename_i heq
      rw [heq, hnone, List.lookup_cons, beq_self_eq_true]
    · rename_i hne
      rw [List.lookup_cons, beq_eq_false_iff_ne.mpr hne]
      simp

theorem lookup_set (m : Mapss) (k v k' : Text) :
    (m.set k v).lookup k' = if k' = k then some v else m.lookup k' := by
  have hfilter : k' ≠ k → (m.filter fun kv => kv.1 ≠ k).lookup k' = m.lookup k' := by
    intro hne
    induction m with
    | nil => rfl
    | cons kv m ih =>
      by_cases heq : kv.1 = k
      · have hother : (k' == kv.1) = false := beq_eq_false_iff_ne.mpr fun h => hne (h.trans heq)
        rw [List.filter_cons_of_neg (by simpa using heq), ih, List.lookup_cons, hother]
      · rw [List.filter_cons_of_pos (by simpa using heq), List.lookup_cons, List.lookup_cons, ih]
  rw [set, List.lookup_cons]
  split
  · rename_i heq
    rw [beq_iff_eq.mp heq, if_pos rfl]
  · rename_i heq
    have hne : k' ≠ k := beq_eq_false_iff_ne.mp heq
    rw [if_neg hne, hfilter hne]

end Mapss

/-! ### The object -/

/-- `boost::lexical_cast<int>`, nothing where it throws. -/
def lexicalCastInt (t : Text) : Option ℤ :=
  let (negative, digits) := Text.sign t
  let value : ℤ := if negative then -Text.ofDigits digits else Text.ofDigits digits
  if digits ≠ [] ∧ digits.all Char.isDigit ∧ -2 ^ 31 ≤ value ∧ value < 2 ^ 31 then some value else none

structure YlemFile where
  info : Mapss
  closefile : Mapss
  idx : ℤ

namespace YlemFile

def new : YlemFile := ⟨[], [], 0⟩

variable (f : YlemFile)

def getDevCount : Option ℤ :=
  match f.info.lookup "dev_count".toList with
  | some count => lexicalCastInt count
  | none => some (if f.info = [] then 0 else 1)

/-- The name of an entry of the `idx`th destination. -/
def entryName (name : Text) (idx : ℤ) : Option Text :=
  f.getDevCount.map fun count => if 1 < count then name ++ '_' :: intText (idx + 1) else name

def getDevid (idx : ℤ) : Option ℤ := do
  let name ← f.entryName "devid".toList idx
  match f.info.lookup name with
  | some devid => lexicalCastInt devid
  | none => pure 0

def getPath (idx : ℤ) : Option Text := (f.entryName "path".toList idx).map fun name => (f.info.lookup name).getD []

def selectDev (idx : ℤ) : ℤ × YlemFile := (f.idx - 1, { f with idx := idx + 1 })

/-- The entry of the assigned map, if there is one, is inserted into the map for closing. -/
def closeEntry (info closefile : Mapss) (k : Text) : Mapss :=
  match info.lookup k with
  | some v => closefile.insertNew k v
  | none => closefile

/-- `operator=`. -/
def assign (info : Mapss) : YlemFile where
  info := info
  closefile := ["domain".toList, "class".toList, "key".toList, "fid".toList].foldl (closeEntry info) f.closefile
  idx := 0

/-- The entry of the selected destination, if there is one, is put into the map for closing. -/
def chosenEntry (idx : ℤ) (closefile : Mapss) (k : Text) : Mapss :=
  match f.info.lookup (k ++ '_' :: intText idx) with
  | some v => closefile.set k v
  | none => closefile

/-- `operator mapss`, which changes the map for closing. -/
def toMapss : Option (Mapss × YlemFile) :=
  f.getDevCount.map fun count =>
    if 1 < count then
      let idx := if f.idx = 0 then 1 else f.idx
      let closefile := ["devid".toList, "path".toList].foldl (f.chosenEntry idx) f.closefile
      (closefile, { f with closefile := closefile })
    else (f.info, f)

end YlemFile

/-! ### What it is assigned -/

/-- A destination of a reply; the column of the devid has three bytes. -/
structure Destination where
  devid : ℕ
  path : Text
  devid_pos : 0 < devid
  devid_lt : devid < 2 ^ 24

/-- A reply to `create_open`: the fid, the names and times of the profile, and the destinations, which are
numbered if the request allowed more than one. -/
structure CreateOpenReply where
  fid : ℕ
  profile : List (Text × Text)
  multi : Bool
  dests : List Destination
  profile_names : ∀ kv ∈ profile, "prof".toList <+: kv.1
  distinct : (dests.map Destination.devid).Nodup
  dests_ne_nil : dests ≠ []
  single : multi = false → dests.length = 1

/-- The entries of one destination. -/
def Destination.args (d : Destination) (suffix : Text) : Mapss :=
  [("devid".toList ++ suffix, Text.decimal d.devid), ("path".toList ++ suffix, d.path)]

/-- The destinations with their numbers. -/
def numberedArgs (dests : List Destination) (first : ℕ) : Mapss :=
  (dests.zipIdx first).flatMap fun d => d.1.args ('_' :: Text.decimal d.2)

def CreateOpenReply.args (r : CreateOpenReply) : Mapss :=
  ("fid".toList, Text.decimal r.fid) :: r.profile ++
    if r.multi then numberedArgs r.dests 1 ++ [("dev_count".toList, Text.decimal r.dests.length)]
    else r.dests.flatMap fun d => d.args []

/-- What `ylem_createopen` assigns: the reply, with the domain, the class and the key of the request put in. -/
structure OpenedMap where
  reply : CreateOpenReply
  domain : Text
  cls : Text
  key : Text

def OpenedMap.mapss (m : OpenedMap) : Mapss :=
  ((m.reply.args.insertNew "domain".toList m.domain).insertNew "class".toList m.cls).insertNew "key".toList m.key

/-! ### Replies of the tracker -/

section Tracker

variable {env : CreateOpenEnv} {args : Args} {fid : ℕ}

theorem exists_dest {dev : Device} {suffix : Text} {entries : List (Text × Text)} (hpos : 0 < dev.devid)
    (hlt : dev.devid < 2 ^ 24) (h : destArgs env suffix fid dev = .ok entries) :
    ∃ d : Destination, d.devid = dev.devid ∧ entries = d.args suffix := by
  unfold destArgs at h
  cases hurl : deviceUrl env.toQueryEnv false dev fid with
  | error e =>
    rw [hurl] at h
    cases h
  | ok url =>
    rw [hurl] at h
    exact ⟨⟨dev.devid, url.getD [], hpos, hlt⟩, rfl, (Except.ok.inj h).symm⟩

theorem exists_dests {devs : List Device} {first : ℕ} {paths : List (List (Text × Text))}
    (hdevids : ∀ d ∈ devs, 0 < d.devid ∧ d.devid < 2 ^ 24)
    (h : (devs.zipIdx first).mapM (fun d => destArgs env ('_' :: Text.decimal d.2) fid d.1) = .ok paths) :
    ∃ dests : List Destination, dests.map Destination.devid = devs.map Device.devid ∧ paths.flatten = numberedArgs dests first := by
  induction devs generalizing first paths with
  | nil =>
    cases h
    exact ⟨[], rfl, rfl⟩
  | cons dev devs ih =>
    rw [List.zipIdx_cons, List.mapM_cons] at h
    cases hentries : destArgs env ('_' :: Text.decimal first) fid dev with
    | error e =>
      rw [hentries] at h
      cases h
    | ok entries =>
      cases hrest : (devs.zipIdx (first + 1)).mapM fun d => destArgs env ('_' :: Text.decimal d.2) fid d.1 with
      | error e =>
        rw [hentries, hrest] at h
        cases h
      | ok rest =>
        rw [hentries, hrest] at h
        obtain rfl : entries :: rest = paths := Except.ok.inj h
        obtain ⟨hpos, hlt⟩ := hdevids dev List.mem_cons_self
        obtain ⟨d, hd, rfl⟩ := exists_dest hpos hlt hentries
        obtain ⟨dests, hdests, hflat⟩ := ih (fun d hd => hdevids d (List.mem_cons_of_mem _ hd)) hrest
        exact ⟨d :: dests, by rw [List.map_cons, List.map_cons, hd, hdests], by rw [List.flatten_cons, hflat]; rfl⟩

/-- The arguments that `cmd_create_open` answers with are such a reply. -/
theorem exists_reply {multi : Bool} {devs : List Device} {reply : List (Text × Text)} (hne : devs ≠ [])
    (hdevids : ∀ d ∈ devs, 0 < d.devid ∧ d.devid < 2 ^ 24) (hnodup : (devs.map Device.devid).Nodup)
    (hprofile : ∀ kv ∈ env.profile, "prof".toList <+: kv.1) (h : openArgs env args multi fid devs = .ok reply) :
    ∃ r : CreateOpenReply, r.args = reply ∧ r.fid = fid ∧ r.multi = multi := by
  have hnames : ∀ kv ∈ if Text.truthy (args "debug_profile") then env.profile else [], "prof".toList <+: kv.1 := by
    split
    · exact hprofile
    · exact fun kv hkv => absurd hkv List.not_mem_nil
  unfold openArgs at h
  cases multi with
  | true =>
    cases hpaths : (devs.zipIdx 1).mapM fun d => destArgs env ('_' :: Text.decimal d.2) fid d.1 with
    | error e =>
      rw [if_pos rfl, hpaths] at h
      cases h
    | ok paths =>
      rw [if_pos rfl, hpaths] at h
      obtain rfl := Except.ok.inj h
      obtain ⟨dests, hdests, hflat⟩ := exists_dests hdevids hpaths
      have hlength : dests.length = devs.length := by
        simpa using congrArg List.length hdests
      refine ⟨⟨fid, _, true, dests, hnames, hdests ▸ hnodup, fun hnil => hne ?_, fun hfalse => absurd hfalse (by decide)⟩,
        ?_, rfl, rfl⟩
      · exact List.eq_nil_of_length_eq_zero (by rw [← hlength, hnil]; rfl)
      · simp only [CreateOpenReply.args, if_pos, hflat, hlength, List.append_assoc, List.cons_append]
  | false =>
    obtain ⟨dev, devs', rfl⟩ := List.exists_cons_of_ne_nil hne
    have htake : (dev :: devs').take 1 = [dev] := rfl
    obtain ⟨hpos, hlt⟩ := hdevids dev List.mem_cons_self
    cases hentries : destArgs env [] fid dev with
    | error e =>
      rw [if_neg (by decide), htake, List.mapM_cons, hentries] at h
      cases h
    | ok entries =>
      rw [if_neg (by decide), htake, List.mapM_cons, hentries] at h
      obtain rfl := Except.ok.inj h
      obtain ⟨d, hd, rfl⟩ := exists_dest hpos hlt hentries
      refine ⟨⟨fid, _, false, [d], hnames, List.nodup_singleton _, List.cons_ne_nil _ _, fun _ => rfl⟩, ?_, rfl, rfl⟩
      simp [CreateOpenReply.args, Destination.args]

end Tracker

/-! ### Sequences of operations -/

/-- What is done to the object; turning it into a map changes it too. -/
inductive FileOp where
  | assign (m : OpenedMap)
  | selectDev (idx : ℤ)
  | toMapss

def YlemFile.apply (f : YlemFile) : FileOp → YlemFile
  | .assign m => f.assign m.mapss
  | .selectDev idx => (f.selectDev idx).2
  | .toMapss => f.toMapss.elim f Prod.snd

/-- The object after some operations. -/
def YlemFile.after (ops : List FileOp) : YlemFile := ops.foldl YlemFile.apply YlemFile.new

/-- The latest map, and the destination that has been selected since, the first by default. -/
def latestMap (ops : List FileOp) : Option (OpenedMap × ℤ) :=
  ops.foldl (fun latest op =>
    match op with
    | .assign m => some (m, 0)
    | .selectDev idx => latest.map fun l => (l.1, idx)
    | .toMapss => latest) none

/-- The first map. -/
def firstMap (ops : List FileOp) : Option OpenedMap :=
  ops.findSome? fun
    | .assign m => some m
    | _ => none

/-- The object answers for the destinations of the latest map, and turns into its domain, key and fid with the
devid and the path of the destination selected since. -/
def Reflects (ops : List FileOp) : Prop :=
  ∀ m sel, latestMap ops = some (m, sel) →
    (∀ (i : ℕ) (d : Destination), m.reply.dests[i]? = some d → (YlemFile.after ops).getDevid i = some d.devid ∧
      (YlemFile.after ops).getPath i = some d.path) ∧
    ∀ (i : ℕ) (d : Destination), sel = i → m.reply.dests[i]? = some d →
      ∃ out f, (YlemFile.after ops).toMapss = some (out, f) ∧
        out.lookup "domain".toList = some m.domain ∧ out.lookup "key".toList = some m.key ∧
        out.lookup "fid".toList = some (Text.decimal m.reply.fid) ∧
        out.lookup "devid".toList = some (Text.decimal d.devid) ∧ out.lookup "path".toList = some d.path

/-! ### Names and numbers -/

section Names

variable {n n' : ℕ}

theorem lexicalCastInt_decimal (h : n < 2 ^ 31) : lexicalCastInt (Text.decimal n) = some n := by
  obtain ⟨c, t, hct, hc⟩ := Text.exists_cons_decimal n
  have hdigits : (Text.decimal n).all Char.isDigit = true :=
    List.all_eq_true.mpr fun c hc => Text.isDigit_of_mem_decimal hc
  have hsign : Text.sign (Text.decimal n) = (false, Text.decimal n) := by
    rw [hct]
    exact Text.sign_cons hc
  have hne : Text.decimal n ≠ [] := by
    rw [hct]
    exact List.cons_ne_nil c t
  rw [lexicalCastInt, hsign]
  simp only [Bool.false_eq_true, if_false, Text.ofDigits_decimal]
  exact if_pos ⟨hne, hdigits, by omega, by exact_mod_cast h⟩

/-- The name of an entry of the `n`th destination. -/
def numberedName (name : Text) (n : ℕ) : Text := name ++ '_' :: Text.decimal n

theorem numberedName_inj {name : Text} : numberedName name n = numberedName name n' ↔ n = n' := by
  constructor
  · intro h
    exact Text.decimal_injective (List.cons.inj (List.append_cancel_left h)).2
  · rintro rfl
    rfl

theorem devid_ne_path : numberedName "devid".toList n ≠ numberedName "path".toList n' := by
  intro h
  exact absurd (List.cons.inj h).1 (by decide)

/-- A name without a number. -/
def Unnumbered (k : Text) : Prop := ∀ n, k ≠ numberedName "devid".toList n ∧ k ≠ numberedName "path".toList n

theorem unnumbered_of_start_ne {k : Text} (hdevid : ¬ "devid_".toList <+: k) (hpath : ¬ "path_".toList <+: k) :
    Unnumbered k := by
  intro n
  exact ⟨fun h => hdevid ⟨Text.decimal n, h.symm⟩, fun h => hpath ⟨Text.decimal n, h.symm⟩⟩

end Names

/-! ### The entries of a map -/

section Entries

variable {r : CreateOpenReply} {m : OpenedMap} {d : Destination} {dests : List Destination} {first i : ℕ} {k : Text}

theorem numberedArgs_cons (d : Destination) (dests : List Destination) (first : ℕ) : numberedArgs (d :: dests) first =
    (numberedName "devid".toList first, Text.decimal d.devid) :: (numberedName "path".toList first, d.path) ::
      numberedArgs dests (first + 1) := rfl

theorem lookup_numberedArgs (first : ℕ) (h : dests[i]? = some d) :
    (numberedArgs dests first).lookup (numberedName "devid".toList (first + i)) = some (Text.decimal d.devid) ∧
      (numberedArgs dests first).lookup (numberedName "path".toList (first + i)) = some d.path := by
  induction dests generalizing first i with
  | nil => simp at h
  | cons d' dests ih =>
    rw [numberedArgs_cons]
    cases i with
    | zero =>
      obtain rfl : d' = d := by simpa using h
      have hne : (numberedName "path".toList first == numberedName "devid".toList first) = false :=
        beq_eq_false_iff_ne.mpr devid_ne_path.symm
      simp only [Nat.add_zero, List.lookup_cons, beq_self_eq_true, hne, and_self]
    | succ i =>
      obtain ⟨hdevid, hpath⟩ := ih (first + 1) (i := i) (by simpa using h)
      have hnum : first + (i + 1) = first + 1 + i := by omega
      have hlt : first + 1 + i ≠ first := by omega
      have h1 : (numberedName "devid".toList (first + 1 + i) == numberedName "devid".toList first) = false :=
        beq_eq_false_iff_ne.mpr fun h => hlt (numberedName_inj.mp h)
      have h2 : (numberedName "devid".toList (first + 1 + i) == numberedName "path".toList first) = false :=
        beq_eq_false_iff_ne.mpr devid_ne_path
      have h3 : (numberedName "path".toList (first + 1 + i) == numberedName "devid".toList first) = false :=
        beq_eq_false_iff_ne.mpr devid_ne_path.symm
      have h4 : (numberedName "path".toList (first + 1 + i) == numberedName "path".toList first) = false :=
        beq_eq_false_iff_ne.mpr fun h => hlt (numberedName_inj.mp h)
      rw [hnum]
      simp only [List.lookup_cons, h1, h2, h3, h4]
      exact ⟨hdevid, hpath⟩

theorem lookup_numberedArgs_eq_none (h : Unnumbered k) : (numberedArgs dests first).lookup k = none := by
  induction dests generalizing first with
  | nil => rfl
  | cons d dests ih =>
    rw [numberedArgs_cons, List.lookup_cons, List.lookup_cons, beq_eq_false_iff_ne.mpr (h first).1,
      beq_eq_false_iff_ne.mpr (h first).2]
    exact ih

theorem lookup_profile_eq_none (h : ¬ "prof".toList <+: k) : r.profile.lookup k = none := by
  rw [lookup_eq_none_iff_not_mem]
  intro hmem
  obtain ⟨kv, hkv, rfl⟩ := List.mem_map.mp hmem
  exact h (r.profile_names kv hkv)

theorem lookup_fid : r.args.lookup "fid".toList = some (Text.decimal r.fid) := by
  rw [CreateOpenReply.args, List.cons_append, List.lookup_cons, beq_self_eq_true]

theorem lookup_args (hfid : k ≠ "fid".toList) (hprof : ¬ "prof".toList <+: k) : r.args.lookup k =
    (if r.multi then numberedArgs r.dests 1 ++ [("dev_count".toList, Text.decimal r.dests.length)]
      else r.dests.flatMap fun d => d.args []).lookup k := by
  rw [CreateOpenReply.args, List.cons_append, List.lookup_cons, beq_eq_false_iff_ne.mpr hfid]
  simp only [List.lookup_append, lookup_profile_eq_none hprof, Option.none_or]

theorem lookup_args_multi (hmulti : r.multi = true) (hfid : k ≠ "fid".toList) (hprof : ¬ "prof".toList <+: k) :
    r.args.lookup k = ((numberedArgs r.dests 1).lookup k).or
      (if k = "dev_count".toList then some (Text.decimal r.dests.length) else none) := by
  rw [lookup_args hfid hprof, if_pos hmulti, List.lookup_append, List.lookup_cons]
  by_cases hk : k = "dev_count".toList
  · rw [if_pos hk, beq_iff_eq.mpr hk]
  · rw [if_neg hk, beq_eq_false_iff_ne.mpr hk]
    rfl

theorem lookup_args_single (hmulti : r.multi = false) (hd : r.dests[0]? = some d) (hfid : k ≠ "fid".toList)
    (hprof : ¬ "prof".toList <+: k) :
    r.args.lookup k = (d.args []).lookup k := by
  obtain ⟨d', hdests⟩ := List.length_eq_one_iff.mp (r.single hmulti)
  obtain rfl : d' = d := by simpa [hdests] using hd
  rw [lookup_args hfid hprof, hmulti, hdests]
  simp

theorem ne_of_take {k : Text} (h : k.take 2 = "de".toList ∨ k.take 2 = "pa".toList) :
    k ≠ "fid".toList ∧ ¬ "prof".toList <+: k ∧ k ≠ "domain".toList ∧ k ≠ "class".toList ∧ k ≠ "key".toList := by
  have hprof : ¬ "prof".toList <+: k := by
    rintro ⟨t, rfl⟩
    have htake : ("prof".toList ++ t).take 2 = "pr".toList := rfl
    rw [htake] at h
    exact absurd h (by decide)
  refine ⟨?_, hprof, ?_, ?_, ?_⟩ <;> rintro rfl <;> exact absurd h (by decide)

theorem lookup_mapss (hdomain : k ≠ "domain".toList) (hclass : k ≠ "class".toList) (hkey : k ≠ "key".toList) :
    m.mapss.lookup k = m.reply.args.lookup k := by
  rw [OpenedMap.mapss, Mapss.lookup_insertNew, if_neg hkey, Mapss.lookup_insertNew, if_neg hclass,
    Mapss.lookup_insertNew, if_neg hdomain]

theorem lookup_args_request (hk : k ∈ ["domain".toList, "class".toList, "key".toList]) : r.args.lookup k = none := by
  have hfid : k ≠ "fid".toList := by
    rintro rfl
    exact absurd hk (by decide)
  have hothers : ¬ "prof".toList <+: k ∧ ¬ "devid_".toList <+: k ∧ ¬ "path_".toList <+: k ∧ k ≠ "dev_count".toList ∧
      k ≠ "devid".toList ∧ k ≠ "path".toList := by
    simp only [List.mem_cons, List.not_mem_nil, or_false] at hk
    rcases hk with rfl | rfl | rfl <;> decide
  obtain ⟨hprof, hdevid, hpath, hcount, hdevid', hpath'⟩ := hothers
  cases hmulti : r.multi with
  | true =>
    rw [lookup_args_multi hmulti hfid hprof, lookup_numberedArgs_eq_none (unnumbered_of_start_ne hdevid hpath),
      if_neg hcount]
    rfl
  | false =>
    obtain ⟨d, hdests⟩ := List.length_eq_one_iff.mp (r.single hmulti)
    rw [lookup_args_single (d := d) hmulti (by rw [hdests]; rfl) hfid hprof]
    simp only [Destination.args, List.append_nil, List.lookup_cons, beq_eq_false_iff_ne.mpr hdevid',
      beq_eq_false_iff_ne.mpr hpath', List.lookup_nil]

theorem lookup_mapss_domain : m.mapss.lookup "domain".toList = some m.domain := by
  rw [OpenedMap.mapss, Mapss.lookup_insertNew, if_neg (by decide), Mapss.lookup_insertNew, if_neg (by decide),
    Mapss.lookup_insertNew, if_pos rfl, lookup_args_request (by decide)]
  rfl

theorem lookup_mapss_key : m.mapss.lookup "key".toList = some m.key := by
  rw [OpenedMap.mapss, Mapss.lookup_insertNew, if_pos rfl, Mapss.lookup_insertNew, if_neg (by decide),
    Mapss.lookup_insertNew, if_neg (by decide), lookup_args_request (by decide)]
  rfl

theorem lookup_mapss_fid : m.mapss.lookup "fid".toList = some (Text.decimal m.reply.fid) := by
  rw [lookup_mapss (by decide) (by decide) (by decide), lookup_fid]

end Entries

/-! ### The object after an assignment -/

section Object

variable {m : OpenedMap} {f : YlemFile} {d : Destination} {i : ℕ} {k : Text}

theorem length_dests_lt (r : CreateOpenReply) : r.dests.length < 2 ^ 31 := by
  have hsub : r.dests.map Destination.devid ⊆ List.range (2 ^ 24) := fun devid hdevid => by
    obtain ⟨d, -, rfl⟩ := List.mem_map.mp hdevid
    exact List.mem_range.mpr d.devid_lt
  have hle := (List.subperm_of_subset r.distinct hsub).length_le
  rw [List.length_map, List.length_range] at hle
  omega

theorem getDevCount_eq (hinfo : f.info = m.mapss) :
    f.getDevCount = some (if m.reply.multi then (m.reply.dests.length : ℤ) else 1) := by
  have hlookup : f.info.lookup "dev_count".toList = m.reply.args.lookup "dev_count".toList := by
    rw [hinfo, lookup_mapss (by decide) (by decide) (by decide)]
  rw [YlemFile.getDevCount, hlookup]
  cases hmulti : m.reply.multi with
  | true =>
    have hnone : (numberedArgs m.reply.dests 1).lookup "dev_count".toList = none :=
      lookup_numberedArgs_eq_none (unnumbered_of_start_ne (by decide) (by decide))
    rw [lookup_args_multi hmulti (by decide) (by decide), hnone, if_pos rfl, Option.none_or, if_pos rfl]
    exact lexicalCastInt_decimal (length_dests_lt m.reply)
  | false =>
    obtain ⟨d, hdests⟩ := List.length_eq_one_iff.mp (m.reply.single hmulti)
    have hnone : m.reply.args.lookup "dev_count".toList = none := by
      rw [lookup_args_single (d := d) hmulti (by rw [hdests]; rfl) (by decide) (by decide)]
      rfl
    have hne : f.info ≠ [] := by
      intro hnil
      have hdomain := lookup_mapss_domain (m := m)
      rw [← hinfo, hnil] at hdomain
      exact absurd hdomain (by simp)
    rw [hnone]
    simp [hne]

theorem lookup_info (hinfo : f.info = m.mapss) (h : k.take 2 = "de".toList ∨ k.take 2 = "pa".toList) :
    f.info.lookup k = m.reply.args.lookup k := by
  obtain ⟨-, -, hdomain, hclass, hkey⟩ := ne_of_take h
  rw [hinfo, lookup_mapss hdomain hclass hkey]

theorem lookup_numbered (hinfo : f.info = m.mapss) (hmulti : m.reply.multi = true) (hd : m.reply.dests[i]? = some d) :
    f.info.lookup (numberedName "devid".toList (i + 1)) = some (Text.decimal d.devid) ∧
      f.info.lookup (numberedName "path".toList (i + 1)) = some d.path := by
  obtain ⟨hdevid, hpath⟩ := lookup_numberedArgs 1 hd
  have hdevid2 : (numberedName "devid".toList (i + 1)).take 2 = "de".toList := rfl
  have hpath2 : (numberedName "path".toList (i + 1)).take 2 = "pa".toList := rfl
  obtain ⟨hdfid, hdprof, -⟩ := ne_of_take (.inl hdevid2)
  obtain ⟨hpfid, hpprof, -⟩ := ne_of_take (.inr hpath2)
  rw [Nat.add_comm] at hdevid hpath
  rw [lookup_info hinfo (.inl hdevid2), lookup_info hinfo (.inr hpath2), lookup_args_multi hmulti hdfid hdprof,
    lookup_args_multi hmulti hpfid hpprof, hdevid, hpath]
  exact ⟨rfl, rfl⟩

theorem lookup_single (hinfo : f.info = m.mapss) (hmulti : m.reply.multi = false)
    (hd : m.reply.dests[i]? = some d) :
    f.info.lookup "devid".toList = some (Text.decimal d.devid) ∧ f.info.lookup "path".toList = some d.path := by
  have hlt : i < m.reply.dests.length := (List.getElem?_eq_some_iff.mp hd).choose
  have hone := m.reply.single hmulti
  obtain rfl : i = 0 := by omega
  rw [lookup_info hinfo (.inl rfl), lookup_info hinfo (.inr rfl), lookup_args_single hmulti hd (by decide) (by decide),
    lookup_args_single hmulti hd (by decide) (by decide)]
  exact ⟨rfl, rfl⟩

theorem lookup_unnumbered (hinfo : f.info = m.mapss) (hmulti : m.reply.multi = true)
    (hk : k = "devid".toList ∨ k = "path".toList) : f.info.lookup k = none := by
  have htake : k.take 2 = "de".toList ∨ k.take 2 = "pa".toList := by
    rcases hk with rfl | rfl
    · exact .inl rfl
    · exact .inr rfl
  have hnumber : Unnumbered k := by
    rcases hk with rfl | rfl
    · exact unnumbered_of_start_ne (by decide) (by decide)
    · exact unnumbered_of_start_ne (by decide) (by decide)
  have hcount : k ≠ "dev_count".toList := by
    rcases hk with rfl | rfl
    · decide
    · decide
  obtain ⟨hfid, hprof, -⟩ := ne_of_take htake
  rw [lookup_info hinfo htake, lookup_args_multi hmulti hfid hprof, lookup_numberedArgs_eq_none hnumber, if_neg hcount]
  rfl

theorem entryName_eq (hinfo : f.info = m.mapss) (name : Text) (i : ℕ) : f.entryName name i =
    some (if m.reply.multi = true ∧ m.reply.dests.length ≠ 1 then numberedName name (i + 1) else name) := by
  have hpos : 0 < m.reply.dests.length := List.length_pos_of_ne_nil m.reply.dests_ne_nil
  have htext : name ++ '_' :: intText (i + 1) = numberedName name (i + 1) := by
    rw [numberedName, ← intText_natCast]
    rfl
  rw [YlemFile.entryName, getDevCount_eq hinfo, Option.map_some, htext]
  cases hmulti : m.reply.multi with
  | true =>
    by_cases hone : m.reply.dests.length = 1
    · simp [hone]
    · have hmany : 1 < (m.reply.dests.length : ℤ) := by omega
      simp [hone, hmany]
  | false => simp

/-- The object answers for the destinations exactly if they are not a single numbered one. -/
theorem answers_iff (hinfo : f.info = m.mapss) :
    (∀ (i : ℕ) (d : Destination), m.reply.dests[i]? = some d → f.getDevid i = some d.devid ∧ f.getPath i = some d.path) ↔
      ¬ (m.reply.multi = true ∧ m.reply.dests.length = 1) := by
  constructor
  · rintro h ⟨hmulti, hone⟩
    obtain ⟨d, hdests⟩ := List.length_eq_one_iff.mp hone
    obtain ⟨hdevid, -⟩ := h 0 d (by rw [hdests]; rfl)
    rw [YlemFile.getDevid, entryName_eq hinfo, if_neg fun h => h.2 hone] at hdevid
    simp only [Option.bind_eq_bind, Option.bind_some, lookup_unnumbered hinfo hmulti (.inl rfl), Option.pure_def,
      Option.some_inj] at hdevid
    have hpos := d.devid_pos
    omega
  · intro hone i d hd
    have hdevid_lt : d.devid < 2 ^ 31 := d.devid_lt.trans (by decide)
    have hnames : ∃ devidName pathName, f.entryName "devid".toList i = some devidName ∧
        f.entryName "path".toList i = some pathName ∧ f.info.lookup devidName = some (Text.decimal d.devid) ∧
        f.info.lookup pathName = some d.path := by
      cases hmulti : m.reply.multi with
      | true =>
        have hne : m.reply.dests.length ≠ 1 := fun h => hone ⟨hmulti, h⟩
        obtain ⟨hdevid, hpath⟩ := lookup_numbered hinfo hmulti hd
        exact ⟨_, _, by rw [entryName_eq hinfo, if_pos ⟨hmulti, hne⟩], by rw [entryName_eq hinfo, if_pos ⟨hmulti, hne⟩],
          hdevid, hpath⟩
      | false =>
        have hnot : ¬ (m.reply.multi = true ∧ m.reply.dests.length ≠ 1) := fun h =>
          Bool.false_ne_true (hmulti.symm.trans h.1)
        obtain ⟨hdevid, hpath⟩ := lookup_single hinfo hmulti hd
        exact ⟨_, _, by rw [entryName_eq hinfo, if_neg hnot], by rw [entryName_eq hinfo, if_neg hnot], hdevid, hpath⟩
    obtain ⟨devidName, pathName, hdevidName, hpathName, hdevid, hpath⟩ := hnames
    constructor
    · rw [YlemFile.getDevid, hdevidName]
      simp only [Option.bind_eq_bind, Option.bind_some, hdevid]
      exact lexicalCastInt_decimal hdevid_lt
    · rw [YlemFile.getPath, hpathName, Option.map_some, hpath]
      rfl

end Object

/-! ### Runs -/

section Runs

variable {ops : List FileOp} {m : OpenedMap} {sel : ℤ} {f : YlemFile} {k : Text}

theorem lookup_closeEntry (info closefile : Mapss) (k k' : Text) :
    (YlemFile.closeEntry info closefile k').lookup k =
      if k = k' then (closefile.lookup k).or (info.lookup k) else closefile.lookup k := by
  unfold YlemFile.closeEntry
  split
  · rename_i v hv
    rw [Mapss.lookup_insertNew]
    split
    · rename_i heq
      rw [heq, hv]
    · rfl
  · rename_i hnone
    split
    · rename_i heq
      rw [heq, hnone, Option.or_none]
    · rfl

theorem lookup_closefile_assign (f : YlemFile) (info : Mapss)
    (hk : k ∈ ["domain".toList, "key".toList, "fid".toList]) :
    (f.assign info).closefile.lookup k = (f.closefile.lookup k).or (info.lookup k) := by
  have hor : ∀ a b : Option Text, (a.or b).or b = a.or b := fun a b => by cases a <;> cases b <;> rfl
  simp only [YlemFile.assign, List.foldl_cons, List.foldl_nil, lookup_closeEntry]
  simp only [List.mem_cons, List.not_mem_nil, or_false] at hk
  rcases hk with rfl | rfl | rfl
  · rfl
  · rfl
  · rfl

theorem lookup_chosenEntry (f : YlemFile) (idx : ℤ) (closefile : Mapss) (k k' : Text) (hne : k ≠ k') :
    (f.chosenEntry idx closefile k').lookup k = closefile.lookup k := by
  unfold YlemFile.chosenEntry
  split
  · rw [Mapss.lookup_set, if_neg hne]
  · rfl

theorem apply_toMapss (f : YlemFile) : (f.apply .toMapss).info = f.info ∧ (f.apply .toMapss).idx = f.idx ∧
    ∀ k, k ≠ "devid".toList → k ≠ "path".toList → (f.apply .toMapss).closefile.lookup k = f.closefile.lookup k := by
  unfold YlemFile.apply YlemFile.toMapss
  cases f.getDevCount with
  | none => exact ⟨rfl, rfl, fun _ _ _ => rfl⟩
  | some count =>
    simp only [Option.map_some, Option.elim_some]
    split
    · refine ⟨rfl, rfl, fun k hdevid hpath => ?_⟩
      simp only [List.foldl_cons, List.foldl_nil]
      rw [lookup_chosenEntry _ _ _ _ _ hpath, lookup_chosenEntry _ _ _ _ _ hdevid]
    · exact ⟨rfl, rfl, fun _ _ _ => rfl⟩

/-- What the object keeps of the operations. -/
structure Tracks (ops : List FileOp) (f : YlemFile) : Prop where
  latest : ∀ m sel, latestMap ops = some (m, sel) → f.info = m.mapss ∧ (f.idx = sel + 1 ∨ f.idx = 0 ∧ sel = 0)
  first : ∀ k ∈ ["domain".toList, "key".toList, "fid".toList],
    f.closefile.lookup k = (firstMap ops).bind fun m => m.mapss.lookup k

theorem firstMap_concat (ops : List FileOp) (op : FileOp) : firstMap (ops ++ [op]) =
    (firstMap ops).or (match op with | .assign m => some m | _ => none) := by
  rw [firstMap, List.findSome?_append]
  cases op <;> rfl

theorem tracks_after (ops : List FileOp) : Tracks ops (YlemFile.after ops) := by
  induction ops using List.reverseRecOn with
  | nil => exact ⟨fun m sel h => absurd h (by simp [latestMap]), fun k hk => rfl⟩
  | append_singleton ops op ih =>
    have hstep : YlemFile.after (ops ++ [op]) = (YlemFile.after ops).apply op := List.foldl_concat ..
    rw [hstep]
    refine ⟨fun m sel h => ?_, fun k hk => ?_⟩
    · rw [latestMap, List.foldl_concat, ← latestMap] at h
      cases op with
      | assign m' =>
        obtain ⟨rfl, rfl⟩ := Prod.mk.inj (Option.some.inj h)
        exact ⟨rfl, .inr ⟨rfl, rfl⟩⟩
      | selectDev idx =>
        obtain ⟨l, hl, heq⟩ := Option.map_eq_some_iff.mp h
        obtain ⟨rfl, rfl⟩ := Prod.mk.inj heq
        exact ⟨(ih.latest l.1 l.2 hl).1, .inl rfl⟩
      | toMapss =>
        obtain ⟨hinfo, hidx, -⟩ := apply_toMapss (YlemFile.after ops)
        rw [hinfo, hidx]
        exact ih.latest m sel h
    · rw [firstMap_concat]
      cases op with
      | assign m' =>
        show ((YlemFile.after ops).assign m'.mapss).closefile.lookup k = _
        rw [lookup_closefile_assign _ _ hk, ih.first k hk]
        cases hfirst : firstMap ops with
        | none => rfl
        | some m0 =>
          have hsome : ∃ v, m0.mapss.lookup k = some v := by
            simp only [List.mem_cons, List.not_mem_nil, or_false] at hk
            rcases hk with rfl | rfl | rfl
            · exact ⟨_, lookup_mapss_domain⟩
            · exact ⟨_, lookup_mapss_key⟩
            · exact ⟨_, lookup_mapss_fid⟩
          obtain ⟨v, hv⟩ := hsome
          rw [Option.some_or, Option.bind_some, hv, Option.some_or]
      | selectDev idx =>
        rw [Option.or_none]
        exact ih.first k hk
      | toMapss =>
        obtain ⟨-, -, hclose⟩ := apply_toMapss (YlemFile.after ops)
        have hne : k ≠ "devid".toList ∧ k ≠ "path".toList := by
          simp only [List.mem_cons, List.not_mem_nil, or_false] at hk
          rcases hk with rfl | rfl | rfl <;> decide
        rw [hclose k hne.1 hne.2, Option.or_none]
        exact ih.first k hk

theorem firstMap_of_latestMap (h : latestMap ops = some (m, sel)) : ∃ m0, firstMap ops = some m0 := by
  induction ops using List.reverseRecOn generalizing m sel with
  | nil => exact absurd h (by simp [latestMap])
  | append_singleton ops op ih =>
    rw [latestMap, List.foldl_concat, ← latestMap] at h
    rw [firstMap_concat]
    cases op with
    | assign m' =>
      cases hfirst : firstMap ops with
      | none => exact ⟨m', rfl⟩
      | some m0 => exact ⟨m0, rfl⟩
    | selectDev idx =>
      obtain ⟨l, hl, -⟩ := Option.map_eq_some_iff.mp h
      rw [Option.or_none]
      exact ih hl
    | toMapss =>
      rw [Option.or_none]
      exact ih h

theorem toMapss_many {i : ℕ} {d : Destination} (hinfo : f.info = m.mapss) (hmulti : m.reply.multi = true)
    (hmany : m.reply.dests.length ≠ 1) (hidx : (if f.idx = 0 then 1 else f.idx) = (i + 1 : ℕ))
    (hd : m.reply.dests[i]? = some d) :
    ∃ out f', f.toMapss = some (out, f') ∧ out.lookup "devid".toList = some (Text.decimal d.devid) ∧
      out.lookup "path".toList = some d.path ∧
      ∀ k, k ≠ "devid".toList → k ≠ "path".toList → out.lookup k = f.closefile.lookup k := by
  have hpos : 0 < m.reply.dests.length := List.length_pos_of_ne_nil m.reply.dests_ne_nil
  have hcount : 1 < (m.reply.dests.length : ℤ) := by omega
  obtain ⟨hdevid, hpath⟩ := lookup_numbered hinfo hmulti hd
  have hentry : ∀ closefile k v, f.info.lookup (numberedName k (i + 1)) = some v →
      f.chosenEntry (i + 1 : ℕ) closefile k = closefile.set k v := by
    intro closefile k v hv
    rw [YlemFile.chosenEntry, intText_natCast, ← numberedName, hv]
  let closefile := (f.closefile.set "devid".toList (Text.decimal d.devid)).set "path".toList d.path
  refine ⟨closefile, { f with closefile := closefile }, ?_, ?_, ?_, ?_⟩
  · rw [YlemFile.toMapss, getDevCount_eq hinfo, hmulti, if_pos rfl, Option.map_some, if_pos hcount]
    simp only [hidx, List.foldl_cons, List.foldl_nil, hentry _ _ _ hdevid, hentry _ _ _ hpath]
    rfl
  · rw [Mapss.lookup_set, if_neg (by decide), Mapss.lookup_set, if_pos rfl]
  · rw [Mapss.lookup_set, if_pos rfl]
  · intro k hdevid' hpath'
    rw [Mapss.lookup_set, if_neg hpath', Mapss.lookup_set, if_neg hdevid']

theorem toMapss_single (hinfo : f.info = m.mapss) (hmulti : m.reply.multi = false) : f.toMapss = some (f.info, f) := by
  rw [YlemFile.toMapss, getDevCount_eq hinfo, hmulti]
  rfl

/-- The object reflects the latest map exactly if that is no numbered reply with one destination, and, where it has
more than one and one of them is selected, the domain, the key and the fid are those of the first map. -/
theorem reflects_iff (ops : List FileOp) : Reflects ops ↔ ∀ m sel, latestMap ops = some (m, sel) →
    ¬ (m.reply.multi = true ∧ m.reply.dests.length = 1) ∧
      (1 < m.reply.dests.length → 0 ≤ sel → sel < m.reply.dests.length → ∀ m0, firstMap ops = some m0 →
        m0.domain = m.domain ∧ m0.key = m.key ∧ m0.reply.fid = m.reply.fid) := by
  have htracks := tracks_after ops
  refine forall_congr' fun m => forall_congr' fun sel => forall_congr' fun hlatest => ?_
  obtain ⟨hinfo, hidx⟩ := htracks.latest m sel hlatest
  obtain ⟨m0, hfirst⟩ := firstMap_of_latestMap hlatest
  have hclose : ∀ k ∈ ["domain".toList, "key".toList, "fid".toList],
      (YlemFile.after ops).closefile.lookup k = m0.mapss.lookup k := fun k hk => by
    rw [htracks.first k hk, hfirst, Option.bind_some]
  have hchosen : ∀ i : ℕ, sel = i →
      (if (YlemFile.after ops).idx = 0 then 1 else (YlemFile.after ops).idx) = (i + 1 : ℕ) := by
    rintro i rfl
    rcases hidx with hidx | ⟨hidx, hzero⟩
    · rw [hidx, if_neg (by omega)]
      rfl
    · rw [if_pos hidx]
      omega
  rw [answers_iff hinfo]
  refine and_congr_right fun hone => ?_
  constructor
  · intro h hmany hsel hlt m0' hfirst'
    obtain rfl : m0 = m0' := Option.some.inj (hfirst.symm.trans hfirst')
    obtain ⟨i, rfl⟩ := Int.eq_ofNat_of_zero_le hsel
    have hmulti : m.reply.multi = true := by
      by_contra hsingle
      have hlength := m.reply.single (Bool.eq_false_iff.mpr hsingle)
      omega
    have hd := List.getElem?_eq_getElem (show i < m.reply.dests.length by exact_mod_cast hlt)
    obtain ⟨out, f', hout, -, -, hothers⟩ := toMapss_many hinfo hmulti hmany.ne' (hchosen i rfl) hd
    obtain ⟨out', f'', hout', hdomain, hkey, hfid, -, -⟩ := h i _ rfl hd
    obtain ⟨rfl, -⟩ := Prod.mk.inj (Option.some.inj (hout.symm.trans hout'))
    rw [hothers _ (by decide) (by decide), hclose _ (by decide)] at hdomain hkey hfid
    rw [lookup_mapss_domain, Option.some_inj] at hdomain
    rw [lookup_mapss_key, Option.some_inj] at hkey
    rw [lookup_mapss_fid, Option.some_inj] at hfid
    exact ⟨hdomain, hkey, Text.decimal_injective hfid⟩
  · intro h i d hsel hd
    cases hmulti : m.reply.multi with
    | true =>
      have hmany : m.reply.dests.length ≠ 1 := fun h => hone ⟨hmulti, h⟩
      have hlt : i < m.reply.dests.length := (List.getElem?_eq_some_iff.mp hd).choose
      obtain ⟨out, f', hout, hdevid, hpath, hothers⟩ := toMapss_many hinfo hmulti hmany (hchosen i hsel) hd
      obtain ⟨hdomain, hkey, hfid⟩ := h (by omega) (by omega) (by omega) m0 hfirst
      refine ⟨out, f', hout, ?_, ?_, ?_, hdevid, hpath⟩
      · rw [hothers _ (by decide) (by decide), hclose _ (by decide), lookup_mapss_domain, hdomain]
      · rw [hothers _ (by decide) (by decide), hclose _ (by decide), lookup_mapss_key, hkey]
      · rw [hothers _ (by decide) (by decide), hclose _ (by decide), lookup_mapss_fid, hfid]
    | false =>
      obtain ⟨hdevid, hpath⟩ := lookup_single hinfo hmulti hd
      refine ⟨_, _, toMapss_single hinfo hmulti, ?_, ?_, ?_, hdevid, hpath⟩
      · rw [hinfo, lookup_mapss_domain]
      · rw [hinfo, lookup_mapss_key]
      · rw [hinfo, lookup_mapss_fid]

end Runs

/-- A numbered reply with two destinations, for a fid and under a key. -/
def twoDests (fid : ℕ) (key : Text) : OpenedMap where
  reply :=
    { fid := fid
      profile := []
      multi := true
      dests := [⟨1, "http://a/dev1".toList, by decide, by decide⟩, ⟨2, "http://b/dev2".toList, by decide, by decide⟩]
      profile_names := fun kv hkv => absurd hkv List.not_mem_nil
      distinct := by decide
      dests_ne_nil := List.cons_ne_nil _ _
      single := fun h => absurd h (by decide) }
  domain := "d".toList
  cls := []
  key := key

/-- Two files are opened with one object; the second would be closed as the first. -/
theorem reused_closes_first : ¬ Reflects [.assign (twoDests 1 "x".toList), .assign (twoDests 2 "y".toList)] := by
  intro h
  obtain ⟨-, hmapss⟩ := h (twoDests 2 "y".toList) 0 rfl
  obtain ⟨out, f, hout, -, hkey, -⟩ := hmapss 0 _ rfl rfl
  have hfirst : (YlemFile.after [.assign (twoDests 1 "x".toList), .assign (twoDests 2 "y".toList)]).toMapss.map
      (fun r => r.1.lookup "key".toList) = some (some "x".toList) := by
    decide +kernel
  rw [hout, Option.map_some, hkey] at hfirst
  exact absurd hfirst (by decide)

end Ylem
