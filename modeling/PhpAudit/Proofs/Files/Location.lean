import PhpAudit.Cli.Program
import PhpAudit.Proofs.Files.Glob
import PhpAudit.Proofs.Files.Reach

/-!
# Location of a project

Exclusions are matched against absolute paths, so the names above a project take part. At a place, a scan
takes in the files that are kept wherever the project is, less those that are hidden because a match starts
in front of the project (`filesToScan_placed`). So scans at two places agree exactly if the same files are
hidden at both (`filesToScan_same_iff`).
-/

namespace PhpAudit.Exclusion

open FileTree (absolute)

/-! ## Patterns at a place -/

/-- The characters of a path as patterns see them. -/
def slashed (path : String) : List Char := (Text.replace '\\' "/" path).toList

/-- The path to an item from within its project; the project itself has the empty path. -/
def pathWithin (names : List String) : String := String.join (names.map ("/" ++ ·))

/-- Whether an item is left out wherever its project is: a pattern matches the path from within, or it is a
file larger than `maxSize` bytes. -/
def leftOut (patterns : List Glob) (maxSize : Nat) (item : Walk.Item) : Bool :=
  patterns.any (fun p => p.matchesChars (slashed (pathWithin item.1))) ||
    (maxSize > 0 && item.2.content?.any fun content => content.size > maxSize)

/-- Whether a pattern matches the path to an item of a project at a place, with a start in front of the
project. -/
def startsAbove (patterns : List Glob) (place names : List String) : Bool :=
  patterns.any fun p => (List.range (absolute place).toList.length).any
    (p.startsAt (slashed (absolute (place ++ names))))

/-- Such a match hides a file, on its own path or on that of a directory above it. -/
def Hidden (patterns : List Glob) (place names : List String) : Prop :=
  ∃ above, above <+: names ∧ startsAbove patterns place above = true

theorem hidden_iff {patterns : List Glob} {place names : List String} :
    Hidden patterns place names ↔ Walk.cutOff (startsAbove patterns place) names = true :=
  Walk.cutOff_eq_true_iff.symm

theorem slashed_eq (path : String) :
    slashed path = path.toList.map fun c => if c = '\\' then '/' else c := by
  unfold slashed Text.replace
  rw [String.toList_ofList, List.map_eq_flatMap]
  refine List.flatMap_congr fun c _ => ?_
  split <;> rfl

theorem line_mem_slashed_iff {path : String} : '\n' ∈ slashed path ↔ '\n' ∈ path.toList := by
  rw [slashed_eq, List.mem_map]
  constructor
  · rintro ⟨c, hc, heq⟩
    split at heq
    · cases heq
    · rwa [← heq]
  · intro h
    exact ⟨'\n', h, by decide⟩

variable {p : Glob} {patterns : List Glob} {place names : List String} {t : FileTree} {project : Entry}

theorem matchesChars_placed (hp : p.IsDeep) (hline : '\n' ∉ (absolute place).toList) :
    p.matchesChars (slashed (absolute (place ++ names))) =
      ((List.range (absolute place).toList.length).any
          (p.startsAt (slashed (absolute (place ++ names)))) ||
        p.matchesChars (slashed (pathWithin names))) := by
  rw [Bool.eq_iff_iff, Bool.or_eq_true, List.any_eq_true]
  simp only [List.mem_range]
  by_cases hcase : place = [] ∧ names ≠ []
  · -- The root of the file system adds nothing to the path.
    obtain ⟨rfl, hne⟩ := hcase
    have hpath : absolute ([] ++ names) = pathWithin names := by simp [absolute, pathWithin, hne]
    rw [hpath]
    refine ⟨.inr, ?_⟩
    rintro (⟨k, -, hk⟩ | hmatch)
    · exact (Glob.matchesChars_deep_iff hp).2 ⟨k, hk⟩
    · exact hmatch
  · have hpath : absolute (place ++ names) = absolute place ++ pathWithin names := by
      cases place with
      | nil =>
        obtain rfl : names = [] := by simpa using hcase
        rfl
      | cons n place =>
        rw [← String.toList_inj]
        simp [absolute, pathWithin, String.toList_join]
    have hsplit : slashed (absolute (place ++ names)) =
        slashed (absolute place) ++ slashed (pathWithin names) := by
      simp [hpath, slashed_eq]
    have hlength : (slashed (absolute place)).length = (absolute place).toList.length := by
      simp [slashed_eq]
    rw [hsplit, Glob.matchesChars_append_iff hp (mt line_mem_slashed_iff.1 hline), hlength]

theorem excludes_placed (h : Placed t place project) (hdeep : ∀ p ∈ patterns, p.IsDeep)
    (hline : '\n' ∉ (absolute place).toList) (maxSize : Nat) {item : Walk.Item}
    (hget : project.get? item.1 = some item.2) (hlink : ∀ target, item.2 ≠ .link target) :
    excludes t patterns maxSize (absolute (place ++ item.1)) =
      (leftOut patterns maxSize item || startsAbove patterns place item.1) := by
  have hsplit : ∀ p ∈ patterns, p.matchesText (Text.replace '\\' "/" (absolute (place ++ item.1))) =
      ((List.range (absolute place).toList.length).any
          (p.startsAt (slashed (absolute (place ++ item.1)))) ||
        p.matchesChars (slashed (pathWithin item.1))) :=
    fun p hp => matchesChars_placed (hdeep p hp) hline
  have hmatch : (patterns.any fun p => p.matchesText (Text.replace '\\' "/" (absolute (place ++ item.1)))) =
      ((patterns.any fun p => p.matchesChars (slashed (pathWithin item.1))) ||
        startsAbove patterns place item.1) := by
    rw [Bool.eq_iff_iff, Bool.or_eq_true, startsAbove, List.any_eq_true, List.any_eq_true,
      List.any_eq_true]
    constructor
    · rintro ⟨p, hp, hmatch⟩
      rw [hsplit p hp, Bool.or_eq_true] at hmatch
      exact hmatch.elim (fun h => .inr ⟨p, hp, h⟩) fun h => .inl ⟨p, hp, h⟩
    · rintro (⟨p, hp, hmatch⟩ | ⟨p, hp, hmatch⟩)
      · exact ⟨p, hp, by rw [hsplit p hp, hmatch, Bool.or_true]⟩
      · exact ⟨p, hp, by rw [hsplit p hp, hmatch, Bool.true_or]⟩
  unfold excludes leftOut
  dsimp only
  rw [hmatch, h.fileSize? hget hlink, Bool.or_right_comm, Option.any_map]

/-- The same project has the same ignore files everywhere, unless they are links. -/
theorem ofIgnoreFiles_congr (engine : Glob.Engine) {t₁ t₂ : FileTree} {place₁ place₂ : List String}
    (h₁ : Placed t₁ place₁ project) (h₂ : Placed t₂ place₂ project)
    (hlinks : ∀ name ∈ ignoreFiles, ∀ target, project.child? name = some (.link target) →
      (t₁.read (Path.join (absolute place₁) name)).toOption =
        (t₂.read (Path.join (absolute place₂) name)).toOption) :
    ofIgnoreFiles engine t₁ (absolute place₁) = ofIgnoreFiles engine t₂ (absolute place₂) := by
  have hnames : ∀ name ∈ ignoreFiles, FileTree.IsName name := by decide
  unfold ofIgnoreFiles
  refine List.flatMap_congr fun name hname => ?_
  have hread : (t₁.read (Path.join (absolute place₁) name)).toOption =
      (t₂.read (Path.join (absolute place₂) name)).toOption := by
    by_cases hlink : ∃ target, project.child? name = some (.link target)
    · obtain ⟨target, hlink⟩ := hlink
      exact hlinks name hname target hlink
    · rw [FileTree.join_absolute h₁.names (hnames name hname),
        FileTree.join_absolute h₂.names (hnames name hname),
        h₁.toOption_read (hnames name hname) (not_exists.1 hlink),
        h₂.toOption_read (hnames name hname) (not_exists.1 hlink)]
  generalize t₁.read (Path.join (absolute place₁) name) = read₁ at hread ⊢
  generalize t₂.read (Path.join (absolute place₂) name) = read₂ at hread ⊢
  cases read₁ with
  | error _ =>
    cases read₂ with
    | error _ => rfl
    | ok text => cases hread
  | ok text =>
    cases read₂ with
    | error _ => cases hread
    | ok text' =>
      obtain rfl := Option.some.inj hread
      rfl

end PhpAudit.Exclusion

namespace PhpAudit.Program

open Exclusion FileTree

/-! ## Scans -/

theorem excludes_of_resolve {engine : Glob.Engine} {args : ScanArgs} {config : Config} {catalog : Catalog}
    {settings : Settings} (h : Settings.resolve engine args config catalog = .ok settings)
    (hargs : args.exclude = []) (hdefault : args.noDefaultExclude = false)
    (hconfig : config.exclude = []) : settings.excludes = defaults engine := by
  have hpatterns : config.patterns engine = .ok [] := by simp [Config.patterns, hconfig, pure, Except.pure]
  unfold Settings.resolve at h
  rw [hpatterns] at h
  simp only [bind, Except.bind, pure, Except.pure] at h
  split at h
  · cases h
  · split at h
    · cases h
    · split at h
      · cases h
      · obtain rfl := Except.ok.inj h
        simp [hargs, hdefault]

variable {engine : Glob.Engine} {t : FileTree} {place : List String} {project : Entry} {settings : Settings}

/-- The files that a scan of a project at a place takes in. -/
theorem filesToScan_placed (h : Placed t place project) (hline : '\n' ∉ (absolute place).toList)
    (hdeep : ∀ p ∈ settings.excludes, p.IsDeep) {patterns : List Glob}
    (hpatterns : settings.excludes ++ ofIgnoreFiles engine t (absolute place) = patterns) :
    filesToScan engine t settings (absolute place) =
      .ok (((Walk.phpNames (leftOut patterns settings.maxFileSize) project).filter fun names =>
        !Walk.cutOff (startsAbove patterns place) names).map fun names => absolute (place ++ names)) := by
  have hall : ∀ p ∈ patterns, p.IsDeep := by
    intro p hp
    rw [← hpatterns] at hp
    exact (List.mem_append.1 hp).elim (hdeep p) Glob.isDeep_of_mem_ofIgnoreFiles
  unfold filesToScan
  dsimp only
  rw [hpatterns, Walk.phpFiles_located h, ← Walk.phpNames_cut]
  unfold Walk.phpNames
  rw [Walk.fileNames_reach_congr h.proper
    (fun item hget hlink => excludes_placed h hall hline settings.maxFileSize hget hlink)
    (.root project)]

/-- The names that lead from a place to a path below it. -/
def relativeTo (place : List String) (path : String) : List String :=
  (Path.segments path).drop place.length

theorem map_relativeTo (h : Placed t place project) (skip : Walk.Item → Bool)
    (p : List String → Bool) :
    ((((Walk.phpNames skip project).filter p).map fun names => absolute (place ++ names)).map
      (relativeTo place)) = (Walk.phpNames skip project).filter p := by
  rw [List.map_map]
  refine (List.map_congr_left fun names hnames => ?_).trans (List.map_id _)
  obtain ⟨hproper, hne⟩ :=
    Walk.names_of_mem_fileNames h (List.mem_of_mem_filter (List.mem_of_mem_filter hnames))
  simp [relativeTo, segments_absolute hproper (by simp [hne])]

/-- Scans of one project at two places take in the same files exactly if the same files are hidden at both. -/
theorem filesToScan_same_iff {t₁ t₂ : FileTree} {place₁ place₂ : List String} {project : Entry}
    {args : ScanArgs} {config : Config} {catalog : Catalog} {settings : Settings}
    (hsettings : Settings.resolve engine args config catalog = .ok settings) (hargs : args.exclude = [])
    (hdefault : args.noDefaultExclude = false) (hconfig : config.exclude = [])
    (h₁ : Placed t₁ place₁ project) (h₂ : Placed t₂ place₂ project)
    (hline₁ : '\n' ∉ (absolute place₁).toList) (hline₂ : '\n' ∉ (absolute place₂).toList)
    (hlinks : ∀ name ∈ ignoreFiles, ∀ target, project.child? name = some (.link target) →
      (t₁.read (Path.join (absolute place₁) name)).toOption =
        (t₂.read (Path.join (absolute place₂) name)).toOption)
    {patterns : List Glob}
    (hpatterns : settings.excludes ++ ofIgnoreFiles engine t₁ (absolute place₁) = patterns) :
    ∃ paths₁ paths₂,
      (t₁.canonical (absolute place₁)).bind (filesToScan engine t₁ settings) = .ok paths₁ ∧
      (t₂.canonical (absolute place₂)).bind (filesToScan engine t₂ settings) = .ok paths₂ ∧
      (paths₁.map (relativeTo place₁) = paths₂.map (relativeTo place₂) ↔
        ∀ names, Walk.Kept (leftOut patterns settings.maxFileSize) project names →
          (Hidden patterns place₁ names ↔ Hidden patterns place₂ names)) := by
  have hdeep : ∀ p ∈ settings.excludes, p.IsDeep := by
    rw [excludes_of_resolve hsettings hargs hdefault hconfig]
    exact fun p hp => Glob.isDeep_of_mem_defaults hp
  have hfiles₁ := filesToScan_placed h₁ hline₁ hdeep hpatterns
  rw [ofIgnoreFiles_congr engine h₁ h₂ hlinks] at hpatterns
  have hfiles₂ := filesToScan_placed h₂ hline₂ hdeep hpatterns
  refine ⟨_, _, by rw [h₁.canonical]; exact hfiles₁, by rw [h₂.canonical]; exact hfiles₂, ?_⟩
  rw [map_relativeTo h₁, map_relativeTo h₂]
  simp only [hidden_iff, ← Bool.eq_iff_iff, ← Walk.mem_phpNames h₁.proper]
  constructor
  · intro heq names hnames
    have hmem := congrArg (names ∈ ·) heq
    simpa [hnames, ← Bool.not_eq_true, not_iff_not, ← Bool.eq_iff_iff] using hmem
  · intro hsame
    exact List.filter_congr fun names hnames => by rw [hsame names hnames]

/-! ## Two scans -/

/-- A project with a file, a directory that it ignores and one of dependencies. -/
def vendoredProject : Entry :=
  .dir [(".gitignore", .file (.ofText "/cache\n")), ("a.php", .file (.ofText "<?php\n")),
    ("cache", .dir [("b.php", .file (.ofText "<?php\n"))]),
    ("vendor", .dir [("c.php", .file (.ofText "<?php\n"))])]

/-- A file system with the project at a place. -/
def vendoredTree (place : List String) : FileTree := { root := Entry.insert vendoredProject place (.dir []) }

/-- What governs a scan by default. -/
def plainSettings : Settings :=
  { failOn := none, suppressComment := Settings.defaultMarker, maxFileSize := Settings.defaultMaxSize,
    timeoutMs := none, excludes := defaults .unlimited, disabled := [] }

theorem resolve_plainSettings : Settings.resolve .unlimited {} {} .builtin = .ok plainSettings := rfl

theorem proper_vendoredProject : vendoredProject.Proper := by
  have hfile : ∀ {name : String}, IsName name →
      (Entry.dir [(name, .file (.ofText "<?php\n"))]).Proper := by
    intro name hname
    exact .dir (by simpa using hname) (by simp) (by simpa using .file _)
  refine .dir (by decide) (by decide) ?_
  simp only [List.forall_mem_cons]
  exact ⟨.file _, .file _, hfile (by decide), hfile (by decide), by simp⟩

theorem filesToScan_same_sample :
    ∃ paths₁ paths₂,
      ((vendoredTree ["srv", "app"]).canonical "/srv/app").bind
        (filesToScan .unlimited (vendoredTree ["srv", "app"]) plainSettings) = .ok paths₁ ∧
      ((vendoredTree ["home"]).canonical "/home").bind
        (filesToScan .unlimited (vendoredTree ["home"]) plainSettings) = .ok paths₂ ∧
      paths₁.map (relativeTo ["srv", "app"]) = paths₂.map (relativeTo ["home"]) := by
  have hplaced₁ : Placed (vendoredTree ["srv", "app"]) ["srv", "app"] vendoredProject :=
    .of_height rfl rfl (by decide) proper_vendoredProject (by decide)
  have hplaced₂ : Placed (vendoredTree ["home"]) ["home"] vendoredProject :=
    .of_height rfl rfl (by decide) proper_vendoredProject (by decide)
  have hlinks : ∀ name ∈ ignoreFiles, ∀ target, vendoredProject.child? name ≠ some (.link target) := by
    intro name hname target hlink
    obtain rfl | rfl : name = ".gitignore" ∨ name = ".sastignore" := by simpa [ignoreFiles] using hname
    · cases hlink
    · cases hlink
  obtain ⟨paths₁, paths₂, hpaths₁, hpaths₂, hsame⟩ := filesToScan_same_iff resolve_plainSettings rfl
    rfl rfl hplaced₁ hplaced₂ (by decide) (by decide)
    (fun name hname target hlink => absurd hlink (hlinks name hname target)) rfl
  refine ⟨paths₁, paths₂, hpaths₁, hpaths₂, hsame.2 fun names hkept => ?_⟩
  revert names
  simp only [hidden_iff, ← Bool.eq_iff_iff, ← Walk.mem_phpNames proper_vendoredProject]
  decide +kernel

/-- Below a directory of dependencies nothing is scanned. -/
theorem filesToScan_below_vendor :
    Settings.resolve .unlimited {} {} .builtin = .ok plainSettings ∧
      Placed (vendoredTree ["srv", "app"]) ["srv", "app"] vendoredProject ∧
      Placed (vendoredTree ["vendor", "app"]) ["vendor", "app"] vendoredProject ∧
      filesToScan .unlimited (vendoredTree ["srv", "app"]) plainSettings "/srv/app" = .ok ["/srv/app/a.php"] ∧
      filesToScan .unlimited (vendoredTree ["vendor", "app"]) plainSettings "/vendor/app" = .ok [] :=
  ⟨resolve_plainSettings, .of_height rfl rfl (by decide) proper_vendoredProject (by decide),
    .of_height rfl rfl (by decide) proper_vendoredProject (by decide), by decide +kernel,
    by decide +kernel⟩

end PhpAudit.Program
