import Mathlib.Data.List.Basic
import Mathlib.Data.List.Induction
import PhpAudit.Files.Exclusion
import PhpAudit.Files.Walk
import PhpAudit.Proofs.Text.Slice

/-!
# A tree at a place

The absolute path of a list of names leads to the entry behind these names, as long as no link stands on the
way (`find_absolute`). So what a file system knows of an entry below a directory, its size, the text of a
file and whether it is PHP, does not depend on where the directory is.
-/

namespace PhpAudit

namespace FileTree

/-! ## Names -/

/-- What can be the name of an entry of a directory. -/
structure IsName (name : String) : Prop where
  nonempty : name ≠ ""
  not_dot : name ≠ "."
  not_dots : name ≠ ".."
  no_slash : '/' ∉ name.toList
  no_null : '\x00' ∉ name.toList
  size_le : name.utf8ByteSize ≤ maxNameBytes

instance (name : String) : Decidable (IsName name) :=
  decidable_of_iff (name ≠ "" ∧ name ≠ "." ∧ name ≠ ".." ∧ '/' ∉ name.toList ∧
      '\x00' ∉ name.toList ∧ name.utf8ByteSize ≤ maxNameBytes)
    ⟨fun ⟨h₁, h₂, h₃, h₄, h₅, h₆⟩ => ⟨h₁, h₂, h₃, h₄, h₅, h₆⟩,
      fun h => ⟨h.1, h.2, h.3, h.4, h.5, h.6⟩⟩

variable {names : List String} {name : String}

theorem toList_absolute (hne : names ≠ []) :
    (absolute names).toList = names.flatMap fun n => '/' :: n.toList := by
  unfold absolute
  rw [if_neg (by simpa using hne), String.toList_join, List.flatMap_map]
  refine List.flatMap_congr fun n _ => ?_
  rw [String.toList_append]
  rfl

theorem cutAt_slashes (hnames : ∀ n ∈ names, '/' ∉ n.toList) (cs : List Char) :
    Text.cutAt (· == '/') (cs ++ names.flatMap fun n => '/' :: n.toList) =
      Text.cutAt (· == '/') cs ++ names.map String.toList := by
  induction names generalizing cs with
  | nil => simp
  | cons n names ih =>
    rw [List.flatMap_cons, List.cons_append, Text.cutAt_append (by simp),
      ih (fun m hm => hnames m (List.mem_cons_of_mem _ hm)),
      Text.cutAt_eq_singleton (hnames n List.mem_cons_self)]
    rfl

theorem splitAt_absolute (hnames : ∀ n ∈ names, IsName n) (hne : names ≠ []) :
    Text.splitAt '/' (absolute names) = "" :: names := by
  unfold Text.splitAt
  have hcut := cutAt_slashes (fun n hn => (hnames n hn).no_slash) []
  rw [List.nil_append] at hcut
  rw [toList_absolute hne, hcut]
  simp [Text.cutAt]

theorem steps_absolute (hnames : ∀ n ∈ names, IsName n) (hne : names ≠ []) :
    steps (absolute names) = "." :: names := by
  unfold steps
  rw [splitAt_absolute hnames hne, List.map_cons, if_pos (by rfl)]
  refine congrArg _ (List.map_congr_left fun n hn => ?_) |>.trans (by rw [List.map_id])
  exact if_neg (by simpa using (hnames n hn).nonempty)

theorem segments_absolute (hnames : ∀ n ∈ names, IsName n) (hne : names ≠ []) :
    Path.segments (absolute names) = names := by
  unfold Path.segments
  rw [splitAt_absolute hnames hne]
  dsimp only
  rw [if_pos (by rfl), List.filter_eq_self.2]
  intro n hn
  simp [(hnames n hn).nonempty, (hnames n hn).not_dot]

theorem absolute_append_singleton (names : List String) (name : String) :
    absolute (names ++ [name]) = String.join (names.map ("/" ++ ·)) ++ "/" ++ name := by
  unfold absolute
  rw [if_neg (by simp), ← String.toList_inj]
  simp [String.toList_join]

theorem getLast?_absolute (hnames : ∀ n ∈ names, IsName n) (hne : names ≠ []) :
    (absolute names).toList.getLast? ≠ some '/' := by
  have hlast := hnames _ (List.getLast_mem hne)
  rw [toList_absolute hne, ← List.dropLast_append_getLast hne, List.flatMap_append,
    List.flatMap_singleton, List.getLast?_append,
    List.getLast?_cons_of_ne_nil (by simpa using hlast.nonempty)]
  intro h
  cases hl : (names.getLast hne).toList.getLast? with
  | none => exact hlast.nonempty (by simpa using hl)
  | some c =>
    rw [hl, Option.some_or] at h
    obtain rfl := Option.some.inj h
    exact hlast.no_slash (List.mem_of_getLast? hl)

theorem IsName.isAbsolute_eq (hname : IsName name) : Path.isAbsolute name = false := by
  unfold Path.isAbsolute Text.startsWith
  cases hcs : name.toList with
  | nil => rfl
  | cons c cs =>
    have hc : c ≠ '/' := by
      rintro rfl
      exact hname.no_slash (by rw [hcs]; exact List.mem_cons_self)
    have hslash : "/".toList = ['/'] := rfl
    simp [hslash, List.isPrefixOf, hc.symm]

theorem join_absolute (hnames : ∀ n ∈ names, IsName n) (hname : IsName name) :
    Path.join (absolute names) name = absolute (names ++ [name]) := by
  unfold Path.join
  rw [hname.isAbsolute_eq, absolute_append_singleton]
  cases names with
  | nil => simp [absolute, Text.endsWith]
  | cons n names =>
    have hne : n :: names ≠ [] := List.cons_ne_nil n names
    have hend : Text.endsWith (absolute (n :: names)) '/' = false := by
      unfold Text.endsWith
      simpa using getLast?_absolute hnames hne
    have hempty : (absolute (n :: names)).isEmpty = false := by
      rw [String.isEmpty_eq_false_iff]
      intro h
      have := toList_absolute hne
      simp [h] at this
    rw [hend, hempty]
    simp [absolute]

theorem utf8ByteSize_absolute_append_le (names : List String) {more : List String}
    (hmore : ∀ n ∈ more, IsName n) :
    (absolute (names ++ more)).utf8ByteSize ≤
      (absolute names).utf8ByteSize + (maxNameBytes + 1) * more.length := by
  have hslash : "/".utf8ByteSize = 1 := by decide
  have hjoin : ∀ names : List String,
      (String.join (names.map ("/" ++ ·))).utf8ByteSize ≤ (absolute names).utf8ByteSize := by
    intro names
    cases names with
    | nil => decide
    | cons n names => exact Nat.le_refl _
  induction more using List.reverseRecOn with
  | nil => simp
  | append_singleton more name ih =>
    have hsize := (hmore name (by simp)).size_le
    have hle := Nat.le_trans (hjoin (names ++ more)) (ih fun n hn => hmore n (by simp [hn]))
    rw [← List.append_assoc, absolute_append_singleton, String.utf8ByteSize_append,
      String.utf8ByteSize_append, hslash, List.length_append, List.length_singleton, Nat.mul_add]
    omega

/-! ## Entries -/

/-- The way along names goes from entry to entry, as there is nothing below a link. -/
theorem walk_append (root : Entry) (mode : Mode) (jump : Trail → List String → Except FileError Spot)
    (hnames : ∀ n ∈ names, IsName n) (trail : Trail) {e : Entry}
    (hget : (top root trail).get? names = some e) (hlink : ∀ target, e ≠ .link target) :
    ∃ trail', top root trail' = e ∧ trail'.map (·.1) = names.reverse ++ trail.map (·.1) ∧
      ∀ rest, walk root mode jump trail (names ++ rest) = walk root mode jump trail' rest := by
  induction names generalizing trail with
  | nil => exact ⟨trail, Option.some.inj hget, rfl, fun rest => rfl⟩
  | cons name names ih =>
    have hname := hnames name List.mem_cons_self
    obtain ⟨child, hchild, hrest⟩ := Option.bind_eq_some_iff.1 hget
    have hdir : (top root trail).isDir = true := by
      cases htop : top root trail with
      | dir entries => rfl
      | file content => rw [htop] at hchild; cases hchild
      | link target => rw [htop] at hchild; cases hchild
    -- A link could only be the last entry, and that is none.
    have hsolid : ∀ target, child ≠ .link target := by
      rintro target rfl
      cases names with
      | nil => exact hlink target (Option.some.inj hrest).symm
      | cons m names => cases hrest
    have hstep : ∀ rest, walk root mode jump trail (name :: rest) =
        walk root mode jump ((name, child) :: trail) rest := by
      intro rest
      rw [walk]
      simp only [hdir, hname.not_dot, hname.not_dots, Nat.not_lt.2 hname.size_le, hchild,
        Bool.not_true, Bool.false_eq_true, if_false]
    obtain ⟨trail', htop, hpath, hwalk⟩ :=
      ih (fun n hn => hnames n (List.mem_cons_of_mem _ hn)) ((name, child) :: trail) hrest
    exact ⟨trail', htop, by simp [hpath], fun rest => by rw [List.cons_append, hstep, hwalk]⟩

theorem locate_absolute {t : FileTree} (hroot : t.root.isDir = true) (hnames : ∀ n ∈ names, IsName n)
    (mode : Mode) :
    t.locate mode (absolute names) =
      walk t.root mode (walkLinks t.root mode maxLinks) [] names := by
  have hstay : ∀ rest, walk t.root mode (walkLinks t.root mode maxLinks) [] ("." :: rest) =
      walk t.root mode (walkLinks t.root mode maxLinks) [] rest := by
    intro rest
    rw [walk]
    simp [top, hroot]
  have hlocate : ∀ {path : String}, '\x00' ∉ path.toList → Path.isAbsolute path = true →
      t.locate mode path = walk t.root mode (walkLinks t.root mode maxLinks) [] (steps path) := by
    intro path hnull habsolute
    have hempty : path.isEmpty = false := by
      rw [String.isEmpty_eq_false_iff]
      rintro rfl
      cases habsolute
    simp [locate, hnull, hempty, startOf, habsolute, trailOf, walkLinks]
  cases names with
  | nil =>
    have hsteps : steps (absolute []) = [".", "."] := by decide
    rw [hlocate (by decide) (by decide), hsteps, hstay, hstay]
  | cons n names =>
    have hne : n :: names ≠ [] := List.cons_ne_nil n names
    rw [hlocate ?_ ?_, steps_absolute hnames hne, hstay]
    · rw [toList_absolute hne, List.mem_flatMap]
      rintro ⟨m, hm, hnull⟩
      rcases List.mem_cons.1 hnull with hslash | hnull
      · revert hslash
        decide
      · exact (hnames m hm).no_null hnull
    · unfold Path.isAbsolute Text.startsWith
      rw [toList_absolute hne]
      rfl

theorem resolve_absolute {t : FileTree} (hfits : (absolute names).utf8ByteSize ≤ maxPathBytes)
    (mode : Mode) : t.resolve mode (absolute names) = t.locate mode (absolute names) := by
  unfold resolve
  rw [if_neg]
  simp [Nat.not_lt.2 hfits]

theorem locate_of_get? {t : FileTree} (hroot : t.root.isDir = true) (hnames : ∀ n ∈ names, IsName n)
    {e : Entry} (hget : t.root.get? names = some e) (hlink : ∀ target, e ≠ .link target) (mode : Mode) :
    ∃ trail, t.locate mode (absolute names) = .ok ⟨trail, none⟩ ∧ top t.root trail = e ∧
      trail.map (·.1) = names.reverse := by
  obtain ⟨trail, htop, hpath, hwalk⟩ := walk_append t.root mode (walkLinks t.root mode maxLinks) hnames []
    hget hlink
  have hend := hwalk []
  rw [List.append_nil, walk] at hend
  exact ⟨trail, by rw [locate_absolute hroot hnames, hend], htop, by simpa using hpath⟩

/-- An absolute path leads to the entry behind its names. -/
theorem find_absolute {t : FileTree} (hroot : t.root.isDir = true) (hnames : ∀ n ∈ names, IsName n)
    (hfits : (absolute names).utf8ByteSize ≤ maxPathBytes) {e : Entry}
    (hget : t.root.get? names = some e) (hlink : ∀ target, e ≠ .link target) (follow : Bool) :
    t.find follow (absolute names) = .ok e := by
  obtain ⟨trail, hlocate, htop, -⟩ := locate_of_get? hroot hnames hget hlink ⟨follow, false⟩
  unfold find
  rw [resolve_absolute hfits, hlocate]
  exact congrArg Except.ok htop

theorem canonical_absolute {t : FileTree} (hroot : t.root.isDir = true)
    (hnames : ∀ n ∈ names, IsName n) {e : Entry} (hget : t.root.get? names = some e)
    (hlink : ∀ target, e ≠ .link target) : t.canonical (absolute names) = .ok (absolute names) := by
  obtain ⟨trail, hlocate, -, hpath⟩ := locate_of_get? hroot hnames hget hlink ⟨true, false⟩
  unfold canonical
  rw [hlocate]
  simp [Except.map, Spot.names, hpath]

/-- There is nothing at a name that a directory does not have. -/
theorem find_missing {t : FileTree} (hroot : t.root.isDir = true) (hnames : ∀ n ∈ names, IsName n)
    (hname : IsName name) {e : Entry} (hget : t.root.get? names = some e) (hdir : e.isDir = true)
    (hmissing : e.child? name = none) (follow : Bool) :
    ∃ err, t.find follow (absolute (names ++ [name])) = .error err := by
  have hall : ∀ n ∈ names ++ [name], IsName n := by
    intro n hn
    rcases List.mem_append.1 hn with hn | hn
    · exact hnames n hn
    · rwa [List.mem_singleton.1 hn]
  have hlocate : t.locate ⟨follow, false⟩ (absolute (names ++ [name])) = .error .notFound := by
    obtain ⟨trail, rfl, -, hwalk⟩ := walk_append t.root ⟨follow, false⟩
      (walkLinks t.root ⟨follow, false⟩ maxLinks) hnames [] hget
      (by rintro target rfl; cases hdir)
    rw [locate_absolute hroot hall, hwalk, walk]
    simp [hdir, hname.not_dot, hname.not_dots, Nat.not_lt.2 hname.size_le, hmissing]
  unfold find resolve
  split
  · exact ⟨_, rfl⟩
  · exact ⟨_, by rw [hlocate]; rfl⟩

end FileTree

/-! ## Trees -/

namespace Entry

/-- What a regular file holds. -/
def content? : Entry → Option Content
  | file content => some content
  | _ => none

/-- The names in every directory are proper and distinct. -/
inductive Proper : Entry → Prop
  | file (content : Content) : Proper (.file content)
  | link (target : String) : Proper (.link target)
  | dir {entries : List (String × Entry)} (names : ∀ p ∈ entries, FileTree.IsName p.1)
      (distinct : (entries.map (·.1)).Nodup) (below : ∀ p ∈ entries, Proper p.2) :
      Proper (.dir entries)

theorem get?_append (e : Entry) (names more : List String) :
    e.get? (names ++ more) = (e.get? names).bind (·.get? more) := by
  induction names generalizing e with
  | nil => rfl
  | cons name names ih =>
    rw [List.cons_append, get?, get?, Option.bind_assoc]
    exact Option.bind_congr fun child _ => ih child

theorem get?_of_prefix {e e' : Entry} {names above : List String} (habove : above <+: names)
    (hget : e.get? names = some e') : ∃ d, e.get? above = some d := by
  obtain ⟨rest, rfl⟩ := habove
  rw [get?_append] at hget
  obtain ⟨d, hd, -⟩ := Option.bind_eq_some_iff.1 hget
  exact ⟨d, hd⟩

theorem isDir_of_get? {root e : Entry} {names : List String} (h : root.get? names = some e)
    (he : e.isDir = true) : root.isDir = true := by
  cases names with
  | nil =>
    obtain rfl := Option.some.inj h
    exact he
  | cons name names =>
    cases root with
    | dir entries => rfl
    | file content => cases h
    | link target => cases h

theorem mem_insertByName {entry p : String × Entry} {entries : List (String × Entry)} :
    p ∈ insertByName entry entries ↔ p = entry ∨ p ∈ entries := by
  induction entries with
  | nil => simp [insertByName]
  | cons e entries ih =>
    unfold insertByName
    split
    · exact List.mem_cons
    · rw [List.mem_cons, ih, List.mem_cons, or_left_comm]

theorem mem_sortedEntries {entries : List (String × Entry)} {p : String × Entry} :
    p ∈ (Entry.dir entries).sortedEntries ↔ p ∈ entries := by
  induction entries with
  | nil => rfl
  | cons e entries ih => exact mem_insertByName.trans (by rw [List.mem_cons]; exact or_congr_right ih)

theorem lookup_of_mem {entries : List (String × Entry)} (hdistinct : (entries.map (·.1)).Nodup)
    {p : String × Entry} (h : p ∈ entries) : entries.lookup p.1 = some p.2 := by
  induction entries with
  | nil => cases h
  | cons e entries ih =>
    obtain ⟨hnew, hdistinct⟩ := List.nodup_cons.1 hdistinct
    rw [List.lookup_cons]
    rcases List.mem_cons.1 h with rfl | h
    · simp
    · have hne : (p.1 == e.1) = false := by
        rw [beq_eq_false_iff_ne]
        intro heq
        exact hnew (List.mem_map.2 ⟨p, h, heq⟩)
      rw [hne]
      exact ih hdistinct h

theorem mem_of_lookup {entries : List (String × Entry)} {name : String} {e : Entry}
    (h : entries.lookup name = some e) : (name, e) ∈ entries := by
  obtain ⟨l₁, l₂, rfl, -⟩ := List.lookup_eq_some_iff.1 h
  simp

/-- The entries of a directory are found under their names. -/
theorem Proper.mem_sortedEntries_iff {e : Entry} (he : e.Proper) {p : String × Entry} :
    p ∈ e.sortedEntries ↔ e.child? p.1 = some p.2 := by
  cases he with
  | file content => simp [sortedEntries, child?]
  | link target => simp [sortedEntries, child?]
  | dir names distinct below => exact mem_sortedEntries.trans ⟨lookup_of_mem distinct, mem_of_lookup⟩

theorem Proper.of_child? {e child : Entry} (he : e.Proper) {name : String}
    (h : e.child? name = some child) : FileTree.IsName name ∧ child.Proper := by
  cases he with
  | file content => cases h
  | link target => cases h
  | dir names distinct below => exact ⟨names _ (mem_of_lookup h), below _ (mem_of_lookup h)⟩

theorem Proper.of_get? {e below : Entry} (he : e.Proper) {names : List String}
    (h : e.get? names = some below) : (∀ n ∈ names, FileTree.IsName n) ∧ below.Proper := by
  induction names generalizing e with
  | nil =>
    obtain rfl := Option.some.inj h
    exact ⟨by simp, he⟩
  | cons name names ih =>
    obtain ⟨child, hchild, hrest⟩ := Option.bind_eq_some_iff.1 h
    obtain ⟨hname, hproper⟩ := he.of_child? hchild
    obtain ⟨hnames, hbelow⟩ := ih hproper hrest
    exact ⟨List.forall_mem_cons.2 ⟨hname, hnames⟩, hbelow⟩

/-! ## Length -/

theorem height_le_heightOfAll {entries : List (String × Entry)} {p : String × Entry}
    (h : p ∈ entries) : p.2.height ≤ heightOfAll entries := by
  induction entries with
  | nil => cases h
  | cons e entries ih =>
    rw [heightOfAll]
    rcases List.mem_cons.1 h with rfl | h
    · exact Nat.le_max_left _ _
    · exact Nat.le_trans (ih h) (Nat.le_max_right _ _)

theorem height_lt_of_child? {e child : Entry} {name : String} (h : e.child? name = some child) :
    child.height < e.height := by
  cases e with
  | file content => cases h
  | link target => cases h
  | dir entries =>
    rw [height]
    exact Nat.lt_succ_of_le (height_le_heightOfAll (mem_of_lookup h))

theorem length_lt_height {e below : Entry} {names : List String} (h : e.get? names = some below) :
    names.length < e.height := by
  induction names generalizing e with
  | nil => cases e <;> simp [height]
  | cons name names ih =>
    obtain ⟨child, hchild, hrest⟩ := Option.bind_eq_some_iff.1 h
    exact Nat.lt_of_le_of_lt (ih hrest) (height_lt_of_child? hchild)

end Entry

/-- A directory tree at a place of a file system. The names on the way are proper, and no path is longer than
paths may be. -/
structure Placed (t : FileTree) (place : List String) (project : Entry) : Prop where
  get : t.root.get? place = some project
  isDir : project.isDir = true
  names : ∀ n ∈ place, FileTree.IsName n
  proper : project.Proper
  fits : ∀ names e, project.get? names = some e →
    (FileTree.absolute (place ++ names)).utf8ByteSize ≤ FileTree.maxPathBytes

namespace Placed

variable {t : FileTree} {place names : List String} {name : String} {project e : Entry}

theorem names_append (h : Placed t place project) (hget : project.get? names = some e) :
    ∀ n ∈ place ++ names, FileTree.IsName n := fun n hn =>
  (List.mem_append.1 hn).elim (h.names n) ((h.proper.of_get? hget).1 n)

theorem ne_link (h : Placed t place project) (target : String) : project ≠ .link target := by
  rintro rfl
  cases h.isDir

/-- The project itself is not a file. -/
theorem ne_nil_of_file (h : Placed t place project) {content : Content}
    (hget : project.get? names = some (.file content)) : names ≠ [] := by
  rintro rfl
  have hdir := h.isDir
  rw [Option.some.inj hget] at hdir
  cases hdir

theorem canonical (h : Placed t place project) :
    t.canonical (FileTree.absolute place) = .ok (FileTree.absolute place) :=
  FileTree.canonical_absolute (Entry.isDir_of_get? h.get h.isDir) h.names h.get h.ne_link

theorem find (h : Placed t place project) (hget : project.get? names = some e)
    (hlink : ∀ target, e ≠ .link target) (follow : Bool) :
    t.find follow (FileTree.absolute (place ++ names)) = .ok e := by
  refine FileTree.find_absolute (Entry.isDir_of_get? h.get h.isDir) (h.names_append hget)
    (h.fits names e hget) ?_ hlink follow
  rw [Entry.get?_append, h.get]
  exact hget

theorem fileSize? (h : Placed t place project) (hget : project.get? names = some e)
    (hlink : ∀ target, e ≠ .link target) :
    t.fileSize? (FileTree.absolute (place ++ names)) = e.content?.map (·.size) := by
  unfold FileTree.fileSize?
  rw [h.find hget hlink]
  cases e <;> rfl

/-- A tree of few levels fits. -/
theorem of_height (hget : t.root.get? place = some project) (hdir : project.isDir = true)
    (hnames : ∀ n ∈ place, FileTree.IsName n) (hproper : project.Proper)
    (hheight : (FileTree.absolute place).utf8ByteSize + (FileTree.maxNameBytes + 1) * project.height ≤
      FileTree.maxPathBytes) : Placed t place project where
  get := hget
  isDir := hdir
  names := hnames
  proper := hproper
  fits names e hbelow := by
    have hsize := FileTree.utf8ByteSize_absolute_append_le place (hproper.of_get? hbelow).1
    have hlevels := Nat.mul_le_mul_left (FileTree.maxNameBytes + 1)
      (Nat.le_of_lt (Entry.length_lt_height hbelow))
    omega

/-- What can be read at a name of the directory itself, unless there is a link. -/
theorem toOption_read (h : Placed t place project) (hname : FileTree.IsName name)
    (hlink : ∀ target, project.child? name ≠ some (.link target)) :
    (t.read (FileTree.absolute (place ++ [name]))).toOption =
      ((project.child? name).bind Entry.content?).bind (·.text) := by
  unfold FileTree.read
  cases hchild : project.child? name with
  | none =>
    obtain ⟨err, herr⟩ := FileTree.find_missing (Entry.isDir_of_get? h.get h.isDir) h.names hname h.get
      h.isDir hchild true
    rw [herr]
    rfl
  | some e =>
    have hget : project.get? [name] = some e := by rw [Entry.get?, hchild]; rfl
    rw [h.find hget (fun target heq => hlink target (by rw [hchild, heq]))]
    cases e with
    | file content =>
      cases htext : content.text <;> simp [bind, Except.bind, Entry.content?, htext] <;> rfl
    | link target => exact absurd hchild (hlink target)
    | dir entries => rfl

end Placed

end PhpAudit
