import Ylem.Lib.Bytes
import Ylem.Query.Binding
import Ylem.Tracker.Operations

/-!
# Uploads

`ul.php` takes the volume and the id of a file from its name, where the name has a `-` in it, and leaves the
volume to the monitor where it has none. The files of one volume go to its tracker one after the other:
`create_open`, the file itself to the first device that takes it, `create_close`. A file that gets to the end
is reported under its volume and id, which `get.php` and `rm.php` expect back as the text `volume-id`.

Only names without a `-` in the id can be asked for later: `is_canonical_resid` accepts exactly one. An empty
id closes the upload without a key, which deletes it, and is reported as uploaded all the same. And a later
file of the request with the same volume and id takes the key away again, even when it fails. A file that is
reported and has none of these problems is where its name says (`uploads_addressable_iff`).
-/

namespace Ylem

/-! ### Names and resource ids -/

/-- `explode("-", …, 2)`. -/
def explode2 (t : Text) : List Text :=
  if '-' ∈ t then [t.takeWhile (· ≠ '-'), (t.dropWhile (· ≠ '-')).drop 1] else [t]

/-- `/^[^-]+-[^-]+$/`. -/
def isCanonicalResid (resid : Text) : Bool :=
  match resid.splitOn '-' with
  | [vol, id] => !vol.isEmpty && !id.isEmpty
  | _ => false

def residOf (vol id : Text) : Text := vol ++ '-' :: id

/-- A part of a resource id. -/
def ResidPart (t : Text) : Prop := t ≠ [] ∧ '-' ∉ t

instance (t : Text) : Decidable (ResidPart t) := inferInstanceAs (Decidable (_ ∧ _))

theorem explode2_residOf {vol : Text} (h : '-' ∉ vol) (id : Text) : explode2 (residOf vol id) = [vol, id] := by
  have hvol : ∀ c ∈ vol, decide (c ≠ '-') = true := fun c hc => decide_eq_true fun heq => h (heq ▸ hc)
  rw [explode2, if_pos (by simp [residOf]), residOf, List.takeWhile_append_of_pos hvol,
    List.dropWhile_append_of_pos hvol]
  simp

theorem isCanonicalResid_iff (vol id : Text) :
    isCanonicalResid (residOf vol id) = true ↔ ResidPart vol ∧ ResidPart id := by
  have hsplit : (residOf vol id).splitOn '-' = vol.splitOn '-' ++ id.splitOn '-' :=
    List.splitOn_append_cons_self vol id
  constructor
  · intro h
    rw [isCanonicalResid, hsplit] at h
    obtain ⟨v, vs, hv⟩ := List.exists_cons_of_ne_nil (List.splitOn_ne_nil '-' vol)
    obtain ⟨i, is, hi⟩ := List.exists_cons_of_ne_nil (List.splitOn_ne_nil '-' id)
    rw [hv, hi] at h
    cases vs with
    | cons v' vs =>
      have hlong : (v :: v' :: vs) ++ i :: is = v :: v' :: (vs ++ i :: is) := rfl
      obtain ⟨x, xs, hxs⟩ := List.exists_cons_of_ne_nil (show vs ++ i :: is ≠ [] by simp)
      rw [hlong, hxs] at h
      exact absurd h (by simp)
    | nil =>
      cases is with
      | cons i' is => exact absurd h (by simp)
      | nil =>
        obtain ⟨rfl, hvol⟩ := eq_of_splitOn_eq_singleton hv
        obtain ⟨rfl, hid⟩ := eq_of_splitOn_eq_singleton hi
        simp only [List.singleton_append, Bool.and_eq_true, Bool.not_eq_true', List.isEmpty_eq_false_iff] at h
        exact ⟨⟨h.1, hvol⟩, h.2, hid⟩
  · rintro ⟨⟨hvol, hvol'⟩, hid, hid'⟩
    rw [isCanonicalResid, hsplit, List.splitOn_eq_singleton hvol', List.splitOn_eq_singleton hid']
    simp [hvol, hid]

/-! ### The files of a request -/

/-- What the request says about a file. -/
structure FileInfo where
  name : Text
  type : Option Text
  tmpName : Text
  error : ℕ
  size : ℕ

/-- A field of `$_FILES`: one file, or an array of them. -/
inductive FilesField where
  | single (info : FileInfo)
  | multiple (infos : List FileInfo)

/-- A file with its volume, if it names one, and its id. -/
structure Item extends FileInfo where
  vol : Option Text
  id : Text

def FileInfo.item (info : FileInfo) : Item :=
  { info with
    type := some (info.type.getD "application/octet-stream".toList)
    vol := match explode2 info.name with
      | [vol, _] => some vol
      | _ => none
    id := match explode2 info.name with
      | [_, id] => id
      | parts => parts.headD [] }

/-- `get_file_list`: files without a name are left out. -/
def getFileList (fields : List FilesField) : List Item :=
  fields.flatMap fun
    | .single info => if info.name = [] then [] else [info.item]
    | .multiple infos => (infos.filter fun info => info.name ≠ []).map FileInfo.item

/-- A volume as the monitor lists it, the freest one first. -/
structure Volume where
  vol : Text
  tracker : Text
  score : ℤ

/-- `$vol_lst[$vol_idx[$vol]]`: the last volume of that id. -/
def volumeOf (vols : List Volume) (vol : Text) : Option Volume := vols.reverse.find? fun v => v.vol = vol

/-- The volume that a file goes to, nothing where it cannot be written. -/
def chooseVolume (vols : List Volume) (item : Item) : Option Text :=
  match item.vol with
  | none => (vols.head?.filter fun v => 0 < v.score).map Volume.vol
  | some vol => ((volumeOf vols vol).filter fun v => v.score ≠ 0).map fun _ => vol

/-- `$vol_files` one after the other: the volumes in the order of their first files, each with its files. -/
def volFiles (choices : List (Option Text)) : List (Text × ℕ) :=
  (choices.reduceOption.eraseDups).flatMap fun vol =>
    (choices.zipIdx.filter fun c => c.1 = some vol).map fun c => (vol, c.2)

/-! ### One file -/

/-- How an exchange with a tracker ends: the reply arrives, the command is executed but its reply does not
arrive, or the command does not arrive. -/
inductive Delivery where
  | answered | unanswered | lost
  deriving DecidableEq

/-- The arguments of an `OK`, if one arrives, and the database after the exchange. -/
def Delivery.exchange {α : Type} (d : Delivery) (okArgs : α → Option (List (Text × Text))) (result : α × Db)
    (db : Db) : Option (List (Text × Text)) × Db :=
  match d with
  | .answered => (okArgs result.1, result.2)
  | .unanswered => (none, result.2)
  | .lost => (none, db)

/-- Everything that an upload depends on outside the request: which volumes' trackers can be connected to,
and for each file what the two exchanges with the tracker and the storage nodes do. -/
structure UploadWorld where
  connects : Text → Bool
  opens : ℕ → Delivery × CreateOpenEnv
  stores : ℕ → Text → Bool
  closes : ℕ → Delivery × QueryEnv

/-- The arguments of `create_open`. -/
def createOpenArgs (ns id : Text) : Args
  | "domain" => some ns
  | "key" => some id
  | "multi_dest" => some "1".toList
  | _ => none

/-- The devids and URLs of a reply. -/
def storeCands (reply : List (Text × Text)) : List (Text × Text) :=
  (List.range (Text.int ((reply.lookup "dev_count".toList).getD [])).toNat).map fun n =>
    ((reply.lookup ("devid_".toList ++ Text.decimal (n + 1))).getD [],
      (reply.lookup ("path_".toList ++ Text.decimal (n + 1))).getD [])

/-- The arguments of `create_close` for the device and URL that took the file. -/
def createCloseArgs (ns : Text) (item : Item) (reply : List (Text × Text)) (cand : Text × Text) : Args
  | "domain" => some ns
  | "fid" => some ((reply.lookup "fid".toList).getD [])
  | "devid" => some cand.1
  | "path" => some cand.2
  | "key" => some item.id
  | "mimetype" => some (item.type.getD [])
  | "size" => some (Text.decimal item.size)
  | _ => none

/-- What became of a file: the fid that the tracker gave out for it, and whether it has been closed. -/
structure Upload where
  fid : Option Text
  closed : Bool

section File

variable (w : UploadWorld) (ns : Text) (idx : ℕ) (item : Item)

def openFile (db : Db) : Option (List (Text × Text)) × Db :=
  (w.opens idx).1.exchange (·.bind Outcome.okArgs)
    ((cmdCreateOpen (w.opens idx).2 (createOpenArgs ns item.id)).exec db) db

/-- The first candidate that takes the file. -/
def storedAt (reply : List (Text × Text)) : Option (Text × Text) :=
  (storeCands reply).find? fun cand => w.stores idx cand.2

def closeFile (reply : List (Text × Text)) (cand : Text × Text) (db : Db) : Option (List (Text × Text)) × Db :=
  (w.closes idx).1.exchange Outcome.okArgs
    ((cmdCreateClose (w.closes idx).2 (createCloseArgs ns item reply cand)).exec db) db

def uploadFile (db : Db) : Upload × Db :=
  match openFile w ns idx item db with
  | (none, db) => (⟨none, false⟩, db)
  | (some reply, db) =>
    match storedAt w idx reply with
    | none => (⟨reply.lookup "fid".toList, false⟩, db)
    | some cand =>
      let (answer, db) := closeFile w ns idx item reply cand db
      (⟨reply.lookup "fid".toList, answer.isSome⟩, db)

end File

/-! ### A request -/

/-- A file of a request as it was handled: its volume and tracker, the database of the tracker before, and
what became of it. -/
structure Entry where
  vol : Text
  tracker : Text
  idx : ℕ
  item : Item
  before : Db
  upload : Upload

/-- The files one after the other, over the databases of the trackers. -/
def uploadFiles (w : UploadWorld) (ns : Text) (vols : List Volume) (items : List Item) :
    List (Text × ℕ) → (Text → Db) → List Entry × (Text → Db)
  | [], dbs => ([], dbs)
  | (vol, idx) :: files, dbs =>
    match volumeOf vols vol, items[idx]? with
    | some v, some item =>
      let (upload, db) := uploadFile w ns idx item (dbs v.tracker)
      let (log, dbs') := uploadFiles w ns vols items files (Function.update dbs v.tracker db)
      (⟨vol, v.tracker, idx, item, dbs v.tracker, upload⟩ :: log, dbs')
    | _, _ => uploadFiles w ns vols items files dbs

/-- `UPLOAD_ERR_CANT_WRITE`. -/
def uploadErrCantWrite : ℕ := 7

/-- What the response says about a file: its id, and its volume or an error. -/
def response (items : List Item) (log : List Entry) : List (Text × (Text ⊕ ℕ)) :=
  items.zipIdx.map fun file =>
    match log.find? fun e => e.idx = file.2 && e.upload.closed with
    | some e => (file.1.id, if file.1.error = 0 then .inl e.vol else .inr file.1.error)
    | none => (file.1.id, .inr uploadErrCantWrite)

/-- The files of a request that is handled by `ul.php`, and the databases afterwards. -/
def ul (w : UploadWorld) (ns : Text) (vols : List Volume) (fields : List FilesField) (dbs : Text → Db) :
    List Entry × (Text → Db) :=
  uploadFiles w ns vols (getFileList fields)
    ((volFiles ((getFileList fields).map (chooseVolume vols))).filter fun file => w.connects file.1) dbs

/-! ### What one file does to the names -/

/-- The close of a file reaches the tracker and takes the name. -/
def FileTakes (w : UploadWorld) (ns : Text) (idx : ℕ) (item : Item) (db : Db) (name : ℕ × Text) : Prop :=
  ∃ reply db' cand upload, openFile w ns idx item db = (some reply, db') ∧ storedAt w idx reply = some cand ∧
    (w.closes idx).1 ≠ .lost ∧
    TakesName (w.closes idx).2 (createCloseArgs ns item reply cand) db' name upload

section File

variable {w : UploadWorld} {ns : Text} {idx : ℕ} {item : Item} {db : Db} {name : ℕ × Text} {fid : ℕ}

theorem file_openFile (w : UploadWorld) (ns : Text) (idx : ℕ) (item : Item) (db : Db) :
    (openFile w ns idx item db).2.file = db.file := by
  have hfile := file_exec (issues_cmdCreateOpen (w.opens idx).2 (createOpenArgs ns item.id)) db
  unfold openFile Delivery.exchange
  split
  · exact hfile
  · exact hfile
  · rfl

theorem openFile_fid {reply : List (Text × Text)} {db' : Db} (h : openFile w ns idx item db = (some reply, db')) :
    ∃ fid, 0 < fid ∧ ¬ db.file.Has fid ∧ reply.lookup "fid".toList = some (Text.decimal fid) := by
  unfold openFile Delivery.exchange at h
  split at h
  · obtain ⟨o, ho, hok⟩ := Option.bind_eq_some_iff.mp (congrArg Prod.fst h)
    exact cmdCreateOpen_ok ho hok
  · cases congrArg Prod.fst h
  · cases congrArg Prod.fst h

theorem bound_openFile {reply : Option (List (Text × Text))} {db' : Db}
    (h : openFile w ns idx item db = (reply, db')) : Bound db' name fid ↔ Bound db name fid := by
  have hfile := file_openFile w ns idx item db
  rw [h] at hfile
  unfold Bound
  rw [hfile]

theorem upload_of_tempfile {reply : List (Text × Text)} {cand : Text × Text} {n : ℕ} {trow : TempfileRow}
    (hfid : reply.lookup "fid".toList = some (Text.decimal n))
    (htrow : (trow.fid : ℚ) = Text.numify ((createCloseArgs ns item reply cand "fid").getD [])) : trow.fid = n := by
  have hargs : (createCloseArgs ns item reply cand "fid").getD [] = Text.decimal n := by
    show (reply.lookup "fid".toList).getD [] = _
    rw [hfid]
    rfl
  rw [hargs, Text.numify_decimal] at htrow
  exact_mod_cast htrow

theorem uploadFile_fid_ne (h : db.file.Has fid) : (uploadFile w ns idx item db).1.fid ≠ some (Text.decimal fid) := by
  cases hopen : openFile w ns idx item db with
  | mk reply db' =>
    cases reply with
    | none => simp [uploadFile, hopen]
    | some reply =>
      obtain ⟨n, _, hfree, hlookup⟩ := openFile_fid hopen
      have hne : reply.lookup "fid".toList ≠ some (Text.decimal fid) := by
        rw [hlookup, Ne, Option.some_inj]
        exact fun heq => hfree (Text.decimal_injective heq ▸ h)
      cases hstored : storedAt w idx reply with
      | none => simpa [uploadFile, hopen, hstored] using hne
      | some cand => simpa [uploadFile, hopen, hstored] using hne

theorem uploadFile_spares (h : Bound db name fid) (hnot : ¬ FileTakes w ns idx item db name) :
    Bound (uploadFile w ns idx item db).2 name fid := by
  cases hopen : openFile w ns idx item db with
  | mk reply db' =>
    have hbound := (bound_openFile hopen).mpr h
    cases reply with
    | none => simpa [uploadFile, hopen] using hbound
    | some reply =>
      obtain ⟨n, _, hfree, hlookup⟩ := openFile_fid hopen
      cases hstored : storedAt w idx reply with
      | none => simpa [uploadFile, hopen, hstored] using hbound
      | some cand =>
        have hclose : (w.closes idx).1 ≠ .lost → Bound ((cmdCreateClose (w.closes idx).2
            (createCloseArgs ns item reply cand)).exec db').2 name fid := fun hsent =>
          cmdCreateClose_spares hbound (fun upload htakes => hnot ⟨reply, db', cand, upload, hopen, hstored, hsent, htakes⟩)
            fun trow _ htrow heq => hfree (by rw [← upload_of_tempfile hlookup htrow, heq]; exact h.has)
        simp only [uploadFile, hopen, hstored, closeFile, Delivery.exchange]
        cases hdelivery : (w.closes idx).1 with
        | answered => exact hclose (by rw [hdelivery]; decide)
        | unanswered => exact hclose (by rw [hdelivery]; decide)
        | lost => exact hbound

theorem uploadFile_takes (htakes : FileTakes w ns idx item db name) (h : Bound db name fid) (hpos : fid ≠ 0)
    {fid' : ℕ} (h' : Bound (uploadFile w ns idx item db).2 name fid') :
    (uploadFile w ns idx item db).1.fid = some (Text.decimal fid') := by
  obtain ⟨reply, db', cand, upload, hopen, hstored, hsent, htakes⟩ := htakes
  obtain ⟨n, _, _, hlookup⟩ := openFile_fid hopen
  have hupload : upload = n := by
    obtain ⟨trow, htrow, rfl⟩ := htakes.tempfile
    exact upload_of_tempfile hlookup (by simpa using List.find?_some htrow)
  have hclose : Bound ((cmdCreateClose (w.closes idx).2 (createCloseArgs ns item reply cand)).exec db').2 name fid' := by
    simp only [uploadFile, hopen, hstored, closeFile, Delivery.exchange] at h'
    cases hdelivery : (w.closes idx).1 with
    | answered => rwa [hdelivery] at h'
    | unanswered => rwa [hdelivery] at h'
    | lost => exact absurd hdelivery hsent
  have hfid := cmdCreateClose_takes htakes ((bound_openFile hopen).mpr h) hpos hclose
  simp only [uploadFile, hopen, hstored]
  rw [hlookup, hfid, hupload]

theorem uploadFile_origin (h : Bound (uploadFile w ns idx item db).2 name fid) :
    Bound db name fid ∨ (uploadFile w ns idx item db).1.fid = some (Text.decimal fid) := by
  cases hopen : openFile w ns idx item db with
  | mk reply db' =>
    have hiff : Bound db' name fid ↔ Bound db name fid := bound_openFile hopen
    cases reply with
    | none => exact .inl (hiff.mp (by simpa [uploadFile, hopen] using h))
    | some reply =>
      obtain ⟨n, _, _, hlookup⟩ := openFile_fid hopen
      cases hstored : storedAt w idx reply with
      | none => exact .inl (hiff.mp (by simpa [uploadFile, hopen, hstored] using h))
      | some cand =>
        by_cases heq : n = fid
        · subst heq
          exact .inr (by simp only [uploadFile, hopen, hstored, hlookup])
        · refine .inl (hiff.mp ?_)
          have hclose : Bound ((cmdCreateClose (w.closes idx).2 (createCloseArgs ns item reply cand)).exec db').2
              name fid → Bound db' name fid := fun hafter =>
            cmdCreateClose_origin hafter fun trow _ htrow => by rwa [upload_of_tempfile hlookup htrow]
          simp only [uploadFile, hopen, hstored, closeFile, Delivery.exchange] at h
          cases hdelivery : (w.closes idx).1 with
          | answered => exact hclose (by rwa [hdelivery] at h)
          | unanswered => exact hclose (by rwa [hdelivery] at h)
          | lost => rwa [hdelivery] at h

theorem uploadFile_closed (hclosed : (uploadFile w ns idx item db).1.closed = true) (hid : item.id ≠ []) :
    ∃ dmid fid, checkDomain (w.closes idx).2 (createOpenArgs ns item.id) = .ok ([], dmid) ∧ fid ≠ 0 ∧
      (uploadFile w ns idx item db).1.fid = some (Text.decimal fid) ∧
      Bound (uploadFile w ns idx item db).2 (dmid, item.id) fid := by
  cases hopen : openFile w ns idx item db with
  | mk reply db' =>
    cases reply with
    | none => simp [uploadFile, hopen] at hclosed
    | some reply =>
      obtain ⟨n, hpos, _, hlookup⟩ := openFile_fid hopen
      cases hstored : storedAt w idx reply with
      | none => simp [uploadFile, hopen, hstored] at hclosed
      | some cand =>
        simp only [uploadFile, hopen, hstored, closeFile, Delivery.exchange] at hclosed ⊢
        cases hdelivery : (w.closes idx).1 with
        | answered =>
          rw [hdelivery] at hclosed
          have hok := Option.isSome_iff_ne_none.mp hclosed
          obtain ⟨dmid, upload, htakes, hbound⟩ := cmdCreateClose_ok rfl hid hok
          obtain ⟨trow, htrow, rfl⟩ := htakes.tempfile
          have hupload := upload_of_tempfile hlookup (by simpa using List.find?_some htrow)
          exact ⟨dmid, trow.fid, htakes.domain, by omega, by rw [hlookup, hupload], hbound⟩
        | unanswered =>
          rw [hdelivery] at hclosed
          cases hclosed
        | lost =>
          rw [hdelivery] at hclosed
          cases hclosed

end File

/-! ### What a request does to the names -/

/-- The file takes the name on its tracker. -/
def Entry.Takes (w : UploadWorld) (ns : Text) (e : Entry) (name : ℕ × Text) : Prop :=
  FileTakes w ns e.idx e.item e.before name

section Run

variable {w : UploadWorld} {ns : Text} {vols : List Volume} {items : List Item} {tracker : Text}
  {name : ℕ × Text} {fid : ℕ}

theorem uploadFiles_cons (vol : Text) (idx : ℕ) (files : List (Text × ℕ)) (dbs : Text → Db) :
    uploadFiles w ns vols items ((vol, idx) :: files) dbs = uploadFiles w ns vols items files dbs ∨
      ∃ v item, items[idx]? = some item ∧ volumeOf vols vol = some v ∧
        uploadFiles w ns vols items ((vol, idx) :: files) dbs =
          (⟨vol, v.tracker, idx, item, dbs v.tracker, (uploadFile w ns idx item (dbs v.tracker)).1⟩ ::
              (uploadFiles w ns vols items files
                (Function.update dbs v.tracker (uploadFile w ns idx item (dbs v.tracker)).2)).1,
            (uploadFiles w ns vols items files
              (Function.update dbs v.tracker (uploadFile w ns idx item (dbs v.tracker)).2)).2) := by
  rw [uploadFiles]
  cases volumeOf vols vol with
  | none => exact .inl rfl
  | some v =>
    cases hitem : items[idx]? with
    | none => exact .inl rfl
    | some item => exact .inr ⟨v, item, rfl, rfl, rfl⟩

theorem uploadFiles_spares (files : List (Text × ℕ)) (dbs : Text → Db) (h : Bound (dbs tracker) name fid)
    (hnot : ∀ e ∈ (uploadFiles w ns vols items files dbs).1, e.tracker = tracker → ¬ e.Takes w ns name) :
    Bound ((uploadFiles w ns vols items files dbs).2 tracker) name fid ∧
      ∀ e ∈ (uploadFiles w ns vols items files dbs).1, e.tracker = tracker →
        e.upload.fid ≠ some (Text.decimal fid) := by
  induction files generalizing dbs with
  | nil => exact ⟨h, fun _ hmem => absurd hmem List.not_mem_nil⟩
  | cons file files ih =>
    obtain ⟨vol, idx⟩ := file
    rcases uploadFiles_cons vol idx files dbs with hskip | ⟨v, item, _, _, hrun⟩
    · rw [hskip] at hnot ⊢
      exact ih dbs h hnot
    · rw [hrun] at hnot ⊢
      simp only [List.forall_mem_cons] at hnot ⊢
      by_cases htracker : v.tracker = tracker
      · subst htracker
        have hafter := uploadFile_spares h (hnot.1 rfl)
        obtain ⟨hbound, hfids⟩ := ih (Function.update dbs v.tracker (uploadFile w ns idx item (dbs v.tracker)).2)
          (by rwa [Function.update_self]) hnot.2
        exact ⟨hbound, fun _ => uploadFile_fid_ne h.has, hfids⟩
      · obtain ⟨hbound, hfids⟩ := ih (Function.update dbs v.tracker (uploadFile w ns idx item (dbs v.tracker)).2)
          (by rwa [Function.update_of_ne (Ne.symm htracker)]) hnot.2
        exact ⟨hbound, fun heq => absurd heq htracker, hfids⟩

theorem uploadFiles_origin (files : List (Text × ℕ)) (dbs : Text → Db)
    (h : Bound ((uploadFiles w ns vols items files dbs).2 tracker) name fid) :
    Bound (dbs tracker) name fid ∨ ∃ e ∈ (uploadFiles w ns vols items files dbs).1, e.tracker = tracker ∧
      e.upload.fid = some (Text.decimal fid) := by
  induction files generalizing dbs with
  | nil => exact .inl h
  | cons file files ih =>
    obtain ⟨vol, idx⟩ := file
    rcases uploadFiles_cons vol idx files dbs with hskip | ⟨v, item, _, _, hrun⟩
    · rw [hskip] at h ⊢
      exact ih dbs h
    · rw [hrun] at h ⊢
      rcases ih _ h with hbound | ⟨e, he, htracker, hfid⟩
      · by_cases htracker : v.tracker = tracker
        · subst htracker
          rw [Function.update_self] at hbound
          rcases uploadFile_origin hbound with hbefore | hfid
          · exact .inl hbefore
          · exact .inr ⟨_, List.mem_cons_self, rfl, hfid⟩
        · rw [Function.update_of_ne (Ne.symm htracker)] at hbound
          exact .inl hbound
      · exact .inr ⟨e, List.mem_cons_of_mem _ he, htracker, hfid⟩

theorem not_takes_of_bound (files : List (Text × ℕ)) (dbs : Text → Db) (h : Bound (dbs tracker) name fid)
    (hpos : fid ≠ 0) (h' : Bound ((uploadFiles w ns vols items files dbs).2 tracker) name fid)
    (hown : ∀ e ∈ (uploadFiles w ns vols items files dbs).1, e.tracker = tracker →
      e.upload.fid ≠ some (Text.decimal fid)) :
    ∀ e ∈ (uploadFiles w ns vols items files dbs).1, e.tracker = tracker → ¬ e.Takes w ns name := by
  induction files generalizing dbs with
  | nil => exact fun _ hmem => absurd hmem List.not_mem_nil
  | cons file files ih =>
    obtain ⟨vol, idx⟩ := file
    rcases uploadFiles_cons vol idx files dbs with hskip | ⟨v, item, _, _, hrun⟩
    · rw [hskip] at h' hown ⊢
      exact ih dbs h h' hown
    · rw [hrun] at h' hown ⊢
      simp only [List.forall_mem_cons] at hown ⊢
      by_cases htracker : v.tracker = tracker
      · subst htracker
        have hnot : ¬ FileTakes w ns idx item (dbs v.tracker) name := by
          intro htakes
          -- the fid would have to be the file's own, or come from a later file
          rcases uploadFiles_origin files _ h' with hbound | ⟨e, he, htracker, hfid⟩
          · rw [Function.update_self] at hbound
            exact hown.1 rfl (uploadFile_takes htakes h hpos hbound)
          · exact hown.2 e he htracker hfid
        refine ⟨fun _ => hnot, ih _ ?_ h' hown.2⟩
        rw [Function.update_self]
        exact uploadFile_spares h hnot
      · refine ⟨fun heq => absurd heq htracker, ih _ ?_ h' hown.2⟩
        rwa [Function.update_of_ne (Ne.symm htracker)]

end Run

/-! ### What is reported -/

theorem nodup_eraseDups {α : Type*} [BEq α] [LawfulBEq α] (l : List α) : l.eraseDups.Nodup := by
  induction hlen : l.length using Nat.strongRecOn generalizing l with
  | ind n ih =>
    cases l with
    | nil => exact List.nodup_nil
    | cons a l =>
      rw [List.eraseDups_cons, List.nodup_cons, List.mem_eraseDups]
      have hle := List.length_filter_le (fun b => !b == a) l
      rw [List.length_cons] at hlen
      exact ⟨by simp, ih _ (by omega) _ rfl⟩

theorem nodup_volFiles (choices : List (Option Text)) : ((volFiles choices).map Prod.snd).Nodup := by
  have hvolume : ∀ (vol : Text) (idx : ℕ),
      idx ∈ ((choices.zipIdx.filter fun c => c.1 = some vol).map fun c => (vol, c.2)).map Prod.snd →
        choices[idx]? = some (some vol) := by
    intro vol idx hidx
    rw [List.map_map] at hidx
    obtain ⟨c, hc, rfl⟩ := List.mem_map.mp hidx
    obtain ⟨hmem, hvol⟩ := List.mem_filter.mp hc
    rw [Function.comp, List.mem_zipIdx_iff_getElem?.mp hmem]
    simpa using hvol
  rw [volFiles, List.map_flatMap, List.nodup_flatMap]
  constructor
  · intro vol _
    rw [List.map_map]
    have hidx : (choices.zipIdx.map Prod.snd).Nodup := by
      rw [List.zipIdx_map_snd]
      exact List.nodup_range'
    exact (List.filter_sublist.map Prod.snd).nodup hidx
  · refine (nodup_eraseDups choices.reduceOption).imp fun {vol vol'} hne idx hidx hidx' => hne ?_
    have heq := (hvolume vol idx hidx).symm.trans (hvolume vol' idx hidx')
    simpa using heq

theorem nodup_log (w : UploadWorld) (ns : Text) (vols : List Volume) (fields : List FilesField) (dbs : Text → Db) :
    ((ul w ns vols fields dbs).1.map Entry.idx).Nodup := by
  have hsublist : ∀ (items : List Item) (files : List (Text × ℕ)) (dbs : Text → Db),
      ((uploadFiles w ns vols items files dbs).1.map Entry.idx).Sublist (files.map Prod.snd) := by
    intro items files
    induction files with
    | nil => exact fun _ => List.Sublist.slnil
    | cons file files ih =>
      intro dbs
      obtain ⟨vol, idx⟩ := file
      rcases uploadFiles_cons vol idx files dbs with hskip | ⟨v, item, _, _, hrun⟩
      · rw [hskip]
        exact (ih dbs).cons _
      · rw [hrun]
        exact (ih _).cons_cons _
  exact (hsublist _ _ _).nodup ((List.filter_sublist.map _).nodup (nodup_volFiles _))

/-- The response reports the file as uploaded, under its id and volume. -/
def Entry.Reported (items : List Item) (log : List Entry) (e : Entry) : Prop :=
  (response items log)[e.idx]? = some (e.item.id, .inl e.vol)

theorem closed_of_reported {items : List Item} {log : List Entry} (hnodup : (log.map Entry.idx).Nodup) {e : Entry}
    (hmem : e ∈ log) (h : e.Reported items log) : e.upload.closed = true := by
  rw [Entry.Reported, response, List.getElem?_map] at h
  obtain ⟨file, hfile, heq⟩ := Option.map_eq_some_iff.mp h
  have hidx : file.2 = e.idx := by
    rw [List.getElem?_zipIdx] at hfile
    obtain ⟨item, _, rfl⟩ := Option.map_eq_some_iff.mp hfile
    exact Nat.zero_add _
  split at heq
  · rename_i e' hfind
    have hfound := List.find?_some hfind
    simp only [hidx, Bool.and_eq_true, decide_eq_true_eq] at hfound
    have hsame := List.inj_on_of_nodup_map hnodup (List.mem_of_find?_eq_some hfind) hmem hfound.1
    exact hsame ▸ hfound.2
  · simp at heq

/-! ### Addressable files -/

/-- The domain of the request on the tracker of the file. -/
def Entry.Domain (w : UploadWorld) (ns : Text) (e : Entry) (dmid : ℕ) : Prop :=
  checkDomain (w.closes e.idx).2 (createOpenArgs ns e.item.id) = .ok ([], dmid)

/-- The file can be asked for under its volume and id: they make a resource id that splits into them again,
and the key is bound to the fid of the file, which no later file of the request has been given. -/
structure Addressable (w : UploadWorld) (ns : Text) (dbs : Text → Db) (e : Entry) (later : List Entry) : Prop where
  canonical : isCanonicalResid (residOf e.vol e.item.id) = true
  splits : explode2 (residOf e.vol e.item.id) = [e.vol, e.item.id]
  bound : ∃ dmid fid, e.Domain w ns dmid ∧ e.upload.fid = some (Text.decimal fid) ∧
    Bound (dbs e.tracker) (dmid, e.item.id) fid
  own : ∀ e' ∈ later, e'.tracker = e.tracker → e'.upload.fid ≠ e.upload.fid

/-- No later file takes the key from the file. -/
def KeepsKey (w : UploadWorld) (ns : Text) (e : Entry) (later : List Entry) : Prop :=
  ∀ dmid, e.Domain w ns dmid → ∀ e' ∈ later, e'.tracker = e.tracker → ¬ e'.Takes w ns (dmid, e.item.id)

theorem Entry.Domain.unique {w : UploadWorld} {ns : Text} {e : Entry} {dmid dmid' : ℕ} (h : e.Domain w ns dmid)
    (h' : e.Domain w ns dmid') : dmid = dmid' := by
  have heq := h.symm.trans h'
  simpa using heq

theorem addressable_iff_of_suffix {w : UploadWorld} {ns : Text} {vols : List Volume} {items : List Item}
    (files : List (Text × ℕ)) (dbs : Text → Db) {e : Entry} {later : List Entry}
    (hsuffix : e :: later <:+ (uploadFiles w ns vols items files dbs).1) (hclosed : e.upload.closed = true) :
    Addressable w ns (uploadFiles w ns vols items files dbs).2 e later ↔
      (ResidPart e.vol ∧ ResidPart e.item.id) ∧ KeepsKey w ns e later := by
  induction files generalizing dbs with
  | nil => exact absurd (List.eq_nil_of_suffix_nil hsuffix) (List.cons_ne_nil _ _)
  | cons file files ih =>
    obtain ⟨vol, idx⟩ := file
    rcases uploadFiles_cons vol idx files dbs with hskip | ⟨v, item, _, _, hrun⟩
    · rw [hskip] at hsuffix ⊢
      exact ih dbs hsuffix
    · rw [hrun] at hsuffix ⊢
      rcases List.suffix_cons_iff.mp hsuffix with heq | hsuffix
      · obtain ⟨rfl, rfl⟩ := List.cons.inj heq
        constructor
        · rintro ⟨hcanonical, _, ⟨dmid, fid, hdomain, hfid, hfinal⟩, hown⟩
          obtain ⟨hvol, hid⟩ := (isCanonicalResid_iff _ _).mp hcanonical
          refine ⟨⟨hvol, hid⟩, fun dmid' hdomain' => ?_⟩
          obtain ⟨dmid'', fid', hdomain'', hpos, hfid', hbound⟩ := uploadFile_closed hclosed hid.1
          obtain rfl := hdomain.unique hdomain'
          obtain rfl := hdomain.unique hdomain''
          obtain rfl := Text.decimal_injective (Option.some.inj (hfid.symm.trans hfid'))
          refine not_takes_of_bound files _ ?_ hpos hfinal fun e' he' htracker => ?_
          · rwa [Function.update_self]
          · rw [← hfid]
            exact hown e' he' htracker
        · rintro ⟨⟨hvol, hid⟩, hkeeps⟩
          obtain ⟨dmid, fid, hdomain, hpos, hfid, hbound⟩ := uploadFile_closed hclosed hid.1
          obtain ⟨hfinal, hown⟩ := uploadFiles_spares files
            (Function.update dbs v.tracker (uploadFile w ns idx item (dbs v.tracker)).2)
            (by rwa [Function.update_self]) (hkeeps dmid hdomain)
          refine ⟨(isCanonicalResid_iff _ _).mpr ⟨hvol, hid⟩, explode2_residOf hvol.2 _,
            ⟨dmid, fid, hdomain, hfid, hfinal⟩, fun e' he' htracker => ?_⟩
          rw [hfid]
          exact hown e' he' htracker
      · exact ih _ hsuffix

/-- Every file of the request that is reported as uploaded can be asked for under its volume and id. -/
def UploadsAddressable (w : UploadWorld) (ns : Text) (vols : List Volume) (fields : List FilesField)
    (dbs : Text → Db) : Prop :=
  ∀ e later, e :: later <:+ (ul w ns vols fields dbs).1 →
    e.Reported (getFileList fields) (ul w ns vols fields dbs).1 →
    Addressable w ns (ul w ns vols fields dbs).2 e later

/-- That is so exactly if no volume and no id of these files has a `-` in it or is empty, and no later file of
the request takes the key of one. -/
theorem uploads_addressable_iff (w : UploadWorld) (ns : Text) (vols : List Volume) (fields : List FilesField)
    (dbs : Text → Db) :
    UploadsAddressable w ns vols fields dbs ↔
      ∀ e later, e :: later <:+ (ul w ns vols fields dbs).1 →
        e.Reported (getFileList fields) (ul w ns vols fields dbs).1 →
        (ResidPart e.vol ∧ ResidPart e.item.id) ∧ KeepsKey w ns e later :=
  forall₂_congr fun _ _ => imp_congr_right fun hsuffix => imp_congr_right fun hreported =>
    addressable_iff_of_suffix _ dbs hsuffix
      (closed_of_reported (nodup_log w ns vols fields dbs) (hsuffix.subset List.mem_cons_self) hreported)

/-! ### Names with a `-` too many and without an id -/

/-- Everything goes well, with the tracker of `openEnv`. -/
def fairWorld : UploadWorld where
  connects := fun _ => true
  opens := fun _ => (.answered, openEnv)
  stores := fun _ _ => true
  closes := fun _ => (.answered, openEnv.toQueryEnv)

def oneVolume : List Volume := [⟨"v1".toList, "10.0.0.9".toList, 1⟩]

/-- A file whose id has a `-` in it, and one whose id is empty. -/
def oddNames : List FilesField :=
  [.multiple [⟨"v1-a-b".toList, none, "/tmp/1".toList, 0, 5⟩, ⟨"v1-".toList, none, "/tmp/2".toList, 0, 5⟩]]

/-- Both are reported as uploaded, and neither can be asked for; the second is not even there. -/
theorem oddNames_reported :
    response (getFileList oddNames) (ul fairWorld "d".toList oneVolume oddNames fun _ => Db.fresh).1 =
        [("a-b".toList, .inl "v1".toList), ([], .inl "v1".toList)] ∧
      isCanonicalResid "v1-a-b".toList = false ∧ isCanonicalResid "v1-".toList = false ∧
      (((ul fairWorld "d".toList oneVolume oddNames fun _ => Db.fresh).2 "10.0.0.9".toList).file.rows.map
        FileRow.fid) = [1] ∧
      ¬ UploadsAddressable fairWorld "d".toList oneVolume oddNames fun _ => Db.fresh := by
  have hresponse : response (getFileList oddNames)
      (ul fairWorld "d".toList oneVolume oddNames fun _ => Db.fresh).1 =
        [("a-b".toList, .inl "v1".toList), ([], .inl "v1".toList)] := by decide +kernel
  have hlog : (ul fairWorld "d".toList oneVolume oddNames fun _ => Db.fresh).1.map
      (fun e => (e.idx, e.vol, e.item.id)) =
        [(0, "v1".toList, "a-b".toList), (1, "v1".toList, [])] := by decide +kernel
  refine ⟨hresponse, by decide, by decide, by decide +kernel, fun h => ?_⟩
  unfold UploadsAddressable Entry.Reported at h
  rw [hresponse] at h
  generalize (ul fairWorld "d".toList oneVolume oddNames fun _ => Db.fresh) = run at h hlog
  obtain ⟨log, dbs⟩ := run
  match log, hlog with
  | e :: later, hlog =>
    obtain ⟨hfirst, _⟩ := List.cons.inj hlog
    obtain ⟨hidx, hvol, hid⟩ : e.idx = 0 ∧ e.vol = "v1".toList ∧ e.item.id = "a-b".toList := by simpa using hfirst
    have hcanonical := (h e later (List.suffix_refl _) (by rw [hidx, hvol, hid]; rfl)).canonical
    rw [hvol, hid] at hcanonical
    exact absurd hcanonical (by decide)

end Ylem
