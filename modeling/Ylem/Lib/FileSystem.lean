import Ylem.Lib.Text

/-!
# A file system that is only looked at

Files with their sizes and directories, both by absolute path. A directory also exists if something lies
below it. `opendir` tells the two ways of failing apart that programs look at: there is no such directory,
or something on the way is a file.
-/

namespace Ylem

/-- The files with their sizes, the directories that have been made, and the size that `stat` gives of a
directory. -/
structure FileSystem where
  files : List (Text × ℕ)
  dirs : List Text
  dirSize : ℕ

/-- What `opendir` answers: the names, or the reason. -/
inductive OpenDir where
  | entries (names : List Text)
  | enoent
  | enotdir
  deriving DecidableEq

namespace FileSystem

/-- `path` lies below `dir`. -/
def isBelow (dir path : Text) : Bool := (dir ++ ['/']).isPrefixOf path

theorem isBelow_iff {dir path : Text} : isBelow dir path = true ↔ dir ++ ['/'] <+: path :=
  List.isPrefixOf_iff_prefix

variable (fs : FileSystem)

def paths : List Text := fs.files.map Prod.fst ++ fs.dirs

/-- `-d`. -/
def isDir (path : Text) : Bool := fs.dirs.contains path || fs.paths.any (isBelow path)

/-- The names in a directory. -/
def names (dir : Text) : List Text :=
  ((fs.paths.filter (isBelow dir)).map fun path =>
    (path.drop (dir.length + 1)).takeWhile fun c => c != '/').dedup

def opendir (dir : Text) : OpenDir :=
  if fs.isDir dir then .entries (".".toList :: "..".toList :: fs.names dir)
  else if fs.files.any fun file => file.1 == dir || isBelow file.1 dir then .enotdir
  else .enoent

/-- The size of a file. -/
def fileSize (path : Text) : Option ℕ := (fs.files.find? fun file => file.1 == path).map Prod.snd

/-- `(stat $path)[7]`. -/
def statSize (path : Text) : Option ℕ :=
  (fs.fileSize path).or (if fs.isDir path then some fs.dirSize else none)

variable {fs}

/-- `opendir` finds nothing where no path leads to the directory, through it or to something above it. -/
theorem opendir_enoent {dir : Text} (hdir : dir ∉ fs.dirs) (hbelow : ∀ path ∈ fs.paths, ¬ dir ++ ['/'] <+: path)
    (habove : ∀ file ∈ fs.files, file.1 ≠ dir ∧ ¬ file.1 ++ ['/'] <+: dir) : fs.opendir dir = .enoent := by
  have hnot : fs.isDir dir = false := by
    rw [isDir, Bool.or_eq_false_iff, List.any_eq_false]
    exact ⟨by simpa using hdir, fun path hpath h => hbelow path hpath (isBelow_iff.mp h)⟩
  have hfile : (fs.files.any fun file => file.1 == dir || isBelow file.1 dir) = false := by
    rw [List.any_eq_false]
    intro file hmem
    obtain ⟨hne, hpre⟩ := habove file hmem
    simpa [hne] using fun h => hpre (isBelow_iff.mp h)
  rw [opendir, hnot, hfile]
  rfl

/-! ### Paths -/

/-- The path of these components below a directory. -/
def joinPath (base : Text) (comps : List Text) : Text := base ++ comps.flatMap fun comp => '/' :: comp

theorem joinPath_append (base : Text) (cs ds : List Text) : joinPath base (cs ++ ds) = joinPath (joinPath base cs) ds := by
  rw [joinPath, joinPath, joinPath, List.flatMap_append, List.append_assoc]

theorem joinPath_singleton (base name : Text) : joinPath base [name] = base ++ '/' :: name := by
  rw [joinPath, List.flatMap_singleton]

theorem head?_comps (comps : List Text) : ∀ c ∈ (comps.flatMap fun comp => '/' :: comp).head?, (c != '/') = false := by
  intro c hc
  cases comps with
  | nil => exact absurd hc (by simp)
  | cons comp comps =>
    obtain rfl : '/' = c := by simpa using hc
    rfl

/-- The components of a path tell what lies below what. -/
theorem isBelow_joinPath_iff {base : Text} {cs ds : List Text} (hcs : ∀ c ∈ cs, '/' ∉ c) (hds : ∀ d ∈ ds, '/' ∉ d) :
    isBelow (joinPath base cs) (joinPath base ds) = true ↔ ∃ name rest, ds = cs ++ name :: rest := by
  rw [isBelow_iff, joinPath, joinPath, List.append_assoc, List.prefix_append_right_inj]
  induction cs generalizing ds with
  | nil =>
    cases ds with
    | nil => simp
    | cons d ds => simp [List.flatMap_cons]
  | cons c cs ih =>
    cases ds with
    | nil => simp
    | cons d ds =>
      rw [List.flatMap_cons, List.flatMap_cons]
      have hc : ∀ ch ∈ c, (ch != '/') = true := fun ch hch => by
        rw [bne_iff_ne]
        rintro rfl
        exact hcs c List.mem_cons_self hch
      have hd : ∀ ch ∈ d, (ch != '/') = true := fun ch hch => by
        rw [bne_iff_ne]
        rintro rfl
        exact hds d List.mem_cons_self hch
      have hrec := ih (fun x hx => hcs x (List.mem_cons_of_mem _ hx)) (fun x hx => hds x (List.mem_cons_of_mem _ hx))
      constructor
      · rintro ⟨z, hz⟩
        have hcomps : c ++ ((cs.flatMap fun comp => '/' :: comp) ++ '/' :: z) =
            d ++ ds.flatMap fun comp => '/' :: comp := by
          simpa using hz
        have hstop : ∀ ch ∈ ((cs.flatMap fun comp => '/' :: comp) ++ '/' :: z).head?, (ch != '/') = false := by
          have hhead := head?_comps (cs ++ [z])
          rwa [List.flatMap_append, List.flatMap_singleton] at hhead
        have hleft := Text.takeWhile_append_stop hc hstop
        have hright := Text.takeWhile_append_stop hd (head?_comps ds)
        rw [hcomps] at hleft
        obtain rfl : c = d := hleft.1.symm.trans hright.1
        obtain ⟨name, rest, hds'⟩ := hrec.mp ⟨z, by rw [List.append_assoc]; exact hleft.2.symm.trans hright.2⟩
        exact ⟨name, rest, by rw [hds', List.cons_append]⟩
      · rintro ⟨name, rest, heq⟩
        rw [List.cons_append, List.cons.injEq] at heq
        obtain ⟨rfl, hds'⟩ := heq
        obtain ⟨z, hz⟩ := hrec.mpr ⟨name, rest, hds'⟩
        exact ⟨z, by rw [← hz]; simp⟩

theorem joinPath_injective {base : Text} {cs ds : List Text} (hcs : ∀ c ∈ cs, '/' ∉ c) (hds : ∀ d ∈ ds, '/' ∉ d)
    (h : joinPath base cs = joinPath base ds) : cs = ds := by
  -- one more component lies below both
  have hbelow : ∀ {es fs : List Text}, (∀ e ∈ es, '/' ∉ e) → (∀ f ∈ fs, '/' ∉ f) → joinPath base es = joinPath base fs →
      ∃ rest, fs ++ [[]] = es ++ rest ∧ rest ≠ [] := by
    intro es fs hes hfs heq
    have hpath : isBelow (joinPath base es) (joinPath base (fs ++ [[]])) = true := by
      rw [isBelow_iff, heq, joinPath_append, joinPath_singleton]
    obtain ⟨name, rest, hrest⟩ := (isBelow_joinPath_iff hes (fun f hf => by
      rcases List.mem_append.mp hf with hf | hf
      · exact hfs f hf
      · rw [List.mem_singleton.mp hf]
        exact List.not_mem_nil)).mp hpath
    exact ⟨name :: rest, hrest, List.cons_ne_nil _ _⟩
  obtain ⟨rest, hrest, hne⟩ := hbelow hcs hds h
  obtain ⟨rest', hrest', hne'⟩ := hbelow hds hcs h.symm
  have hlength := congrArg List.length hrest
  have hlength' := congrArg List.length hrest'
  simp only [List.length_append, List.length_singleton] at hlength hlength'
  have hpos : 0 < rest.length := List.length_pos_of_ne_nil hne
  have hpos' : 0 < rest'.length := List.length_pos_of_ne_nil hne'
  have htake := congrArg (List.take ds.length) hrest
  rw [List.take_left, show ds.length = cs.length by omega, List.take_left] at htake
  exact htake.symm

theorem name_joinPath {base name : Text} {cs rest : List Text} (hname : '/' ∉ name) :
    ((joinPath base (cs ++ name :: rest)).drop ((joinPath base cs).length + 1)).takeWhile (fun c => c != '/') = name := by
  have hpath : joinPath base (cs ++ name :: rest) =
      joinPath base cs ++ ['/'] ++ (name ++ rest.flatMap fun comp => '/' :: comp) := by
    rw [joinPath_append, joinPath, List.flatMap_cons]
    simp
  have hlength : (joinPath base cs).length + 1 = (joinPath base cs ++ ['/']).length := by
    rw [List.length_append, List.length_singleton]
  rw [hpath, hlength, List.drop_left]
  refine (Text.takeWhile_append_stop (fun c hc => ?_) (head?_comps rest)).1
  rw [bne_iff_ne]
  rintro rfl
  exact hname hc

theorem mem_paths {path : Text} : path ∈ fs.paths ↔ path ∈ fs.files.map Prod.fst ∨ path ∈ fs.dirs := List.mem_append

theorem isBelow_joinPath_cons (base name : Text) (rest : List Text) :
    isBelow base (joinPath base (name :: rest)) = true := by
  rw [isBelow_iff]
  exact ⟨name ++ rest.flatMap fun comp => '/' :: comp, by simp [joinPath]⟩

theorem isBelow_joinPath (base : Text) (cs : List Text) (name : Text) (rest : List Text) :
    isBelow (joinPath base cs) (joinPath base (cs ++ name :: rest)) = true := by
  rw [joinPath_append]
  exact isBelow_joinPath_cons _ _ _

/-- Something lies under this name in the directory. -/
theorem mem_names_of_mem {base name : Text} {cs rest : List Text} (hname : '/' ∉ name)
    (h : joinPath base (cs ++ name :: rest) ∈ fs.paths) : name ∈ fs.names (joinPath base cs) := by
  rw [names, List.mem_dedup, List.mem_map]
  exact ⟨_, List.mem_filter.mpr ⟨h, isBelow_joinPath base cs name rest⟩, name_joinPath hname⟩

/-- The names in a directory below which all paths have components. -/
theorem exists_of_mem_names {base name : Text} {cs : List Text} (hcs : ∀ c ∈ cs, '/' ∉ c)
    (hpaths : ∀ path ∈ fs.paths, isBelow (joinPath base cs) path = true →
      ∃ ds, (∀ d ∈ ds, '/' ∉ d) ∧ path = joinPath base ds)
    (h : name ∈ fs.names (joinPath base cs)) :
    ∃ rest, (∀ d ∈ cs ++ name :: rest, '/' ∉ d) ∧ joinPath base (cs ++ name :: rest) ∈ fs.paths := by
  rw [names, List.mem_dedup, List.mem_map] at h
  obtain ⟨path, hpath, hname⟩ := h
  obtain ⟨hmem, hbelow⟩ := List.mem_filter.mp hpath
  obtain ⟨ds, hds, rfl⟩ := hpaths path hmem hbelow
  obtain ⟨name', rest, rfl⟩ := (isBelow_joinPath_iff hcs hds).mp hbelow
  have hslash : '/' ∉ name' := hds name' (List.mem_append_right _ List.mem_cons_self)
  rw [name_joinPath hslash] at hname
  exact ⟨rest, hname ▸ hds, hname ▸ hmem⟩

theorem isDir_iff {path : Text} : fs.isDir path = true ↔ path ∈ fs.dirs ∨ ∃ below ∈ fs.paths, isBelow path below = true := by
  rw [isDir, Bool.or_eq_true, List.contains_iff_mem, List.any_eq_true]

theorem isBelow_trans {x y z : Text} (hxy : isBelow x y = true) (hyz : isBelow y z = true) : isBelow x z = true := by
  rw [isBelow_iff] at *
  exact hxy.trans ((List.prefix_append _ _).trans hyz)

/-- What lies below a directory that lies below another one. -/
theorem isBelow_of_isBelow_joinPath {base path : Text} {cs : List Text} (h : isBelow (joinPath base cs) path = true) :
    isBelow base path = true := by
  cases cs with
  | nil => rwa [joinPath, List.flatMap_nil, List.append_nil] at h
  | cons c cs => exact isBelow_trans (isBelow_joinPath_cons base c cs) h

/-- What lies above a directory is a directory. -/
theorem isDir_of_isBelow {x y : Text} (hxy : isBelow x y = true) (hy : fs.isDir y = true) : fs.isDir x = true := by
  rw [isDir_iff] at hy ⊢
  rcases hy with hy | ⟨below, hmem, hbelow⟩
  · exact .inr ⟨y, mem_paths.mpr (.inr hy), hxy⟩
  · exact .inr ⟨below, hmem, isBelow_trans hxy hbelow⟩

end FileSystem

end Ylem
