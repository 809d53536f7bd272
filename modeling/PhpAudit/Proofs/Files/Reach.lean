import Mathlib.Data.List.Infix
import PhpAudit.Proofs.Files.Descent
import PhpAudit.Proofs.Scan.Evaluation

/-!
# Walks from within a project

A walk of a directory tree is described here by names alone (`reach`), so that nothing is known of where
the tree is. It finds the files that are kept (`mem_phpNames`), and a walk from a path is the same walk with
paths for names (`phpFiles_below`, `phpFiles_located`). What is cut off in the course of a walk might as well
be taken out of its result (`phpNames_cut`).
-/

namespace PhpAudit.Walk

open PhpAudit.Path (below)

/-! ## Walks from within -/

/-- An entry of a project with the names that lead to it. -/
abbrev Item := List String × Entry

/-- The entries of a directory. -/
def children (item : Item) : List Item :=
  item.2.sortedEntries.map fun p => (item.1 ++ [p.1], p.2)

/-- The items on a level and on the levels below it. What is to be skipped is passed by with all that lies
below. -/
def reach (skip : Item → Bool) : Nat → List Item → List Item
  | 0, _ => []
  | fuel + 1, items =>
    let kept := items.filter fun item => !skip item
    kept ++ reach skip fuel (kept.flatMap children)

/-- The names of the regular files among items. -/
def fileNames (items : List Item) : List (List String) :=
  items.filterMap fun
    | (names, .file _) => some names
    | _ => none

/-- The names of the PHP files of a project. -/
def phpNames (skip : Item → Bool) (project : Entry) : List (List String) :=
  (fileNames (reach skip project.height [([], project)])).filter fun names =>
    Path.isPhp (FileTree.absolute names)

/-- The names lead to a PHP file of the project, and nothing on the way is to be skipped. -/
structure Kept (skip : Item → Bool) (project : Entry) (names : List String) : Prop where
  isFile : ∃ content, project.get? names = some (.file content)
  isPhp : Path.isPhp (FileTree.absolute names) = true
  notSkipped : ∀ above e, above <+: names → project.get? above = some e → skip (above, e) = false

/-- The items are entries of the project. -/
def Found (project : Entry) (items : List Item) : Prop :=
  ∀ item ∈ items, project.get? item.1 = some item.2

variable {project : Entry} {items : List Item} {item : Item} {skip : Item → Bool} {fuel : Nat}

theorem Found.root (project : Entry) : Found project [([], project)] := by
  simp [Found, Entry.get?]

theorem Found.filter (h : Found project items) (p : Item → Bool) : Found project (items.filter p) :=
  fun item hitem => h item (List.mem_of_mem_filter hitem)

theorem mem_children {start : Item} (hproper : start.2.Proper) :
    item ∈ children start ↔
      ∃ name, start.2.child? name = some item.2 ∧ item.1 = start.1 ++ [name] := by
  unfold children
  rw [List.mem_map]
  constructor
  · rintro ⟨p, hp, rfl⟩
    exact ⟨p.1, hproper.mem_sortedEntries_iff.1 hp, rfl⟩
  · rintro ⟨name, hchild, hname⟩
    exact ⟨(name, item.2), hproper.mem_sortedEntries_iff.2 hchild, by rw [← hname]⟩

theorem Found.children (h : Found project items) (hproper : project.Proper) :
    Found project (items.flatMap children) := by
  intro item hitem
  obtain ⟨start, hstart, hitem⟩ := List.mem_flatMap.1 hitem
  have hget := h start hstart
  obtain ⟨name, hchild, hname⟩ := (mem_children (hproper.of_get? hget).2).1 hitem
  simp [hname, Entry.get?_append, hget, Entry.get?, hchild]

/-- The names lead from an item to an entry, and nothing on the way is to be skipped. -/
def Leads (skip : Item → Bool) (start : Item) (names : List String) (e : Entry) : Prop :=
  start.2.get? names = some e ∧
    ∀ above d, above <+: names → start.2.get? above = some d → skip (start.1 ++ above, d) = false

theorem leads_nil {start : Item} {e : Entry} :
    Leads skip start [] e ↔ start.2 = e ∧ skip start = false := by
  constructor
  · rintro ⟨hget, hopen⟩
    exact ⟨Option.some.inj hget, by simpa using hopen [] start.2 List.nil_prefix rfl⟩
  · rintro ⟨rfl, hskip⟩
    refine ⟨rfl, fun above d habove hd => ?_⟩
    obtain rfl := List.prefix_nil.1 habove
    obtain rfl := Option.some.inj hd
    simpa using hskip

theorem leads_cons {start : Item} {name : String} {names : List String} {e : Entry} :
    Leads skip start (name :: names) e ↔
      skip start = false ∧ ∃ child, start.2.child? name = some child ∧
        Leads skip (start.1 ++ [name], child) names e := by
  constructor
  · rintro ⟨hget, hopen⟩
    obtain ⟨child, hchild, hget⟩ := Option.bind_eq_some_iff.1 hget
    refine ⟨by simpa using hopen [] start.2 List.nil_prefix rfl, child, hchild, hget, ?_⟩
    intro above d habove hd
    have hskip := hopen (name :: above) d (List.cons_prefix_cons.2 ⟨rfl, habove⟩)
      (by simp [Entry.get?, hchild, hd])
    simpa using hskip
  · rintro ⟨hskip, child, hchild, hget, hopen⟩
    refine ⟨by simp [Entry.get?, hchild, hget], ?_⟩
    intro above d habove hd
    cases above with
    | nil =>
      obtain rfl := Option.some.inj hd
      simpa using hskip
    | cons n above =>
      obtain ⟨rfl, hbelow⟩ := List.cons_prefix_cons.1 habove
      have hskip' := hopen above d hbelow (by simpa [Entry.get?, hchild] using hd)
      simpa using hskip'

/-- A walk reaches what names lead to from the items that it starts from. -/
theorem mem_reach (hproper : ∀ start ∈ items, start.2.Proper)
    (hfuel : ∀ start ∈ items, start.2.height ≤ fuel) :
    item ∈ reach skip fuel items ↔
      ∃ start ∈ items, ∃ names, item.1 = start.1 ++ names ∧ Leads skip start names item.2 := by
  induction fuel generalizing items with
  | zero =>
    refine ⟨fun h => absurd h List.not_mem_nil, ?_⟩
    rintro ⟨start, hstart, names, -, hget, -⟩
    have hlt := Entry.length_lt_height hget
    have hle := hfuel start hstart
    omega
  | succ fuel ih =>
    -- One round keeps what an empty list of names leads to; the rest starts with the name of a child.
    have hkept : ∀ {start : Item}, start ∈ items.filter (fun item => !skip item) ↔
        start ∈ items ∧ skip start = false := by
      simp
    have hnext : ∀ child ∈ (items.filter fun item => !skip item).flatMap children,
        child.2.Proper ∧ child.2.height ≤ fuel := by
      intro child hchild
      obtain ⟨start, hstart, hchild⟩ := List.mem_flatMap.1 hchild
      obtain ⟨hstart, -⟩ := hkept.1 hstart
      obtain ⟨name, hchild, -⟩ := (mem_children (hproper start hstart)).1 hchild
      have hlt := Entry.height_lt_of_child? hchild
      have hle := hfuel start hstart
      exact ⟨((hproper start hstart).of_child? hchild).2, by omega⟩
    unfold reach
    rw [List.mem_append, hkept, ih (fun child h => (hnext child h).1) fun child h => (hnext child h).2]
    constructor
    · rintro (⟨hitem, hskip⟩ | ⟨child, hchild, names, hnames, hleads⟩)
      · exact ⟨item, hitem, [], by simp, leads_nil.2 ⟨rfl, hskip⟩⟩
      · obtain ⟨start, hstart, hchild⟩ := List.mem_flatMap.1 hchild
        obtain ⟨hstart, hskip⟩ := hkept.1 hstart
        obtain ⟨name, hchild, hname⟩ := (mem_children (hproper start hstart)).1 hchild
        refine ⟨start, hstart, name :: names, by simp [hnames, hname], leads_cons.2 ⟨hskip, _, hchild, ?_⟩⟩
        rwa [← hname]
    · rintro ⟨start, hstart, names, hnames, hleads⟩
      cases names with
      | nil =>
        obtain ⟨he, hskip⟩ := leads_nil.1 hleads
        obtain rfl : item = start := Prod.ext (by simpa using hnames) he.symm
        exact .inl ⟨hstart, hskip⟩
      | cons name names =>
        obtain ⟨hskip, child, hchild, hleads⟩ := leads_cons.1 hleads
        refine .inr ⟨(start.1 ++ [name], child), ?_, names, by simp [hnames], hleads⟩
        exact List.mem_flatMap.2 ⟨start, hkept.2 ⟨hstart, hskip⟩,
          (mem_children (hproper start hstart)).2 ⟨name, hchild, rfl⟩⟩

theorem mem_reach_root (hproper : project.Proper) :
    item ∈ reach skip project.height [([], project)] ↔ project.get? item.1 = some item.2 ∧
      ∀ above e, above <+: item.1 → project.get? above = some e → skip (above, e) = false := by
  rw [mem_reach (by simpa using hproper) (by simp)]
  simp [Leads]

theorem mem_fileNames {names : List String} :
    names ∈ fileNames items ↔ ∃ content, (names, Entry.file content) ∈ items := by
  unfold fileNames
  rw [List.mem_filterMap]
  constructor
  · rintro ⟨⟨names', e⟩, hitem, heq⟩
    cases e with
    | file content =>
      obtain rfl := Option.some.inj heq
      exact ⟨content, hitem⟩
    | link target => cases heq
    | dir entries => cases heq
  · rintro ⟨content, hitem⟩
    exact ⟨_, hitem, rfl⟩

theorem mem_phpNames (hproper : project.Proper) {names : List String} :
    names ∈ phpNames skip project ↔ Kept skip project names := by
  unfold phpNames
  rw [List.mem_filter, mem_fileNames]
  simp only [mem_reach_root hproper]
  constructor
  · rintro ⟨⟨content, hget, hskip⟩, hphp⟩
    exact ⟨⟨content, hget⟩, hphp, hskip⟩
  · rintro ⟨⟨content, hget⟩, hphp, hskip⟩
    exact ⟨⟨content, hget, hskip⟩, hphp⟩

theorem reach_nil (skip : Item → Bool) (fuel : Nat) : reach skip fuel [] = [] := by
  induction fuel with
  | zero => rfl
  | succ fuel ih => exact ih

theorem reach_of_skip (h : skip item = true) (fuel : Nat) : reach skip fuel [item] = [] := by
  cases fuel with
  | zero => rfl
  | succ fuel => simp [reach, h, reach_nil]

/-- Links have nothing below them and are no files, so it does not matter whether they are skipped. -/
theorem fileNames_reach_congr {skip' : Item → Bool} (hproper : project.Proper)
    (hsame : ∀ item : Item, project.get? item.1 = some item.2 →
      (∀ target, item.2 ≠ .link target) → skip item = skip' item)
    (hitems : Found project items) (fuel : Nat) :
    fileNames (reach skip fuel items) = fileNames (reach skip' fuel items) := by
  induction fuel generalizing items with
  | zero => rfl
  | succ fuel ih =>
    -- The walks may keep different links, but their files are the same and so is the next level.
    have hfiles : fileNames (items.filter fun item => !skip item) =
        fileNames (items.filter fun item => !skip' item) := by
      unfold fileNames
      rw [List.filterMap_filter, List.filterMap_filter]
      refine List.filterMap_congr fun item hitem => ?_
      obtain ⟨names, e⟩ := item
      cases e with
      | link target => simp
      | file content => rw [hsame _ (hitems _ hitem) (by simp)]
      | dir entries => simp
    have hbelow : (items.filter fun item => !skip item).flatMap children =
        (items.filter fun item => !skip' item).flatMap children := by
      rw [flatMap_filter, flatMap_filter]
      refine List.flatMap_congr fun item hitem => ?_
      obtain ⟨names, e⟩ := item
      cases e with
      | link target => simp [children, Entry.sortedEntries]
      | file content => simp [children, Entry.sortedEntries]
      | dir entries => rw [hsame _ (hitems _ hitem) (by simp)]
    have hfound := (hitems.filter fun item => !skip' item).children hproper
    unfold reach
    dsimp only
    rw [hbelow]
    have hrest := ih hfound
    unfold fileNames at hfiles hrest ⊢
    rw [List.filterMap_append, List.filterMap_append, hfiles, hrest]

/-! ## The walk from a path -/

section FromPath

variable {t : FileTree} {excluded : String → Bool} {root : String} {entry : Entry} {names : List String}

/-- The names of the PHP files below a path, in the order in which a walk comes to them. -/
def phpBelow (excluded : String → Bool) (root : String) (entry : Entry) : List (List String) :=
  (fileNames (reach (fun item => excluded (below root item.1)) entry.height [([], entry)])).filter
    fun names => Path.isPhp (below root names)

/-- No path that a walk comes to is longer than paths may be. -/
def Fits (excluded : String → Bool) (root : String) (entry : Entry) : Prop :=
  ∀ names e, entry.get? names = some e → (∀ above, above <+: names → excluded (below root above) = false) →
    (below root names).utf8ByteSize ≤ FileTree.maxPathBytes

/-- An item with its path. -/
def located (root : String) (item : Item) : String × Entry := (below root item.1, item.2)

theorem nextLevel_located (root : String) (items : List Item) :
    nextLevel (items.map (located root)) = (items.flatMap children).map (located root) := by
  unfold nextLevel
  rw [List.flatMap_map, List.map_flatMap]
  refine List.flatMap_congr fun item _ => ?_
  simp [located, children, Path.below_append_singleton]

/-- One walk is the other with paths for names. -/
theorem levels_located (excluded : String → Bool) (root : String) (fuel : Nat) (items : List Item) :
    levels excluded fuel (items.map (located root)) =
      (reach (fun item => excluded (below root item.1)) fuel items).map (located root) := by
  induction fuel generalizing items with
  | zero => rfl
  | succ fuel ih =>
    have hkept : (items.map (located root)).filter (fun p => !excluded p.1) =
        (items.filter fun item => !excluded (below root item.1)).map (located root) := by
      rw [List.filter_map]
      rfl
    unfold levels reach
    dsimp only
    rw [hkept, nextLevel_located, ih, List.map_append]

theorem filesOf_located (root : String) (items : List Item) :
    filesOf (items.map (located root)) = (fileNames items).map (below root) := by
  unfold filesOf fileNames
  rw [List.filterMap_map, List.map_filterMap]
  refine congrArg (List.filterMap · items) (funext fun item => ?_)
  obtain ⟨names, e⟩ := item
  cases e <;> rfl

theorem mem_reach_below (hproper : entry.Proper) {e : Entry} :
    (names, e) ∈ reach (fun item => excluded (below root item.1)) entry.height [([], entry)] ↔
      entry.get? names = some e ∧ ∀ above, above <+: names → excluded (below root above) = false := by
  rw [mem_reach_root hproper]
  refine and_congr_right fun hget => ⟨fun h above habove => ?_, fun h above d habove _ => h above habove⟩
  obtain ⟨d, hd⟩ := Entry.get?_of_prefix habove hget
  exact h above d habove hd

theorem mem_phpBelow (hproper : entry.Proper) :
    names ∈ phpBelow excluded root entry ↔
      (∃ content, entry.get? names = some (.file content)) ∧ Path.isPhp (below root names) = true ∧
        ∀ above, above <+: names → excluded (below root above) = false := by
  unfold phpBelow
  rw [List.mem_filter, mem_fileNames]
  simp only [mem_reach_below hproper]
  constructor
  · rintro ⟨⟨content, hget, hopen⟩, hphp⟩
    exact ⟨⟨content, hget⟩, hphp, hopen⟩
  · rintro ⟨⟨content, hget⟩, hphp, hopen⟩
    exact ⟨⟨content, hget, hopen⟩, hphp⟩

theorem files_below (hroot : t.find false root = .ok entry) (hproper : entry.Proper)
    (hfits : Fits excluded root entry) :
    files t excluded root =
      .ok ((fileNames (reach (fun item => excluded (below root item.1)) entry.height
        [([], entry)])).map (below root)) := by
  have hshort : ¬ ((reach (fun item => excluded (below root item.1)) entry.height [([], entry)]).map
      (located root)).any (fun p => isTooLong p.1) := by
    rw [List.any_map, List.any_eq_true]
    rintro ⟨⟨names, e⟩, hitem, hlong⟩
    obtain ⟨hget, hopen⟩ := (mem_reach_below hproper).1 hitem
    exact Nat.not_lt.2 (hfits names e hget hopen) (of_decide_eq_true hlong)
  unfold files
  cases hskip : excluded root with
  | true =>
    rw [reach_of_skip hskip]
    rfl
  | false =>
    have hstart : [(root, entry)] = [(([] : List String), entry)].map (located root) := rfl
    rw [if_neg Bool.false_ne_true, hroot]
    simp only [bind, Except.bind]
    rw [hstart, levels_located, if_neg hshort, filesOf_located]
    rfl

theorem phpFiles_below (hroot : t.find false root = .ok entry) (hproper : entry.Proper)
    (hfits : Fits excluded root entry) :
    phpFiles t excluded root = .ok ((phpBelow excluded root entry).map (below root)) := by
  unfold phpFiles phpBelow
  rw [files_below hroot hproper hfits, Except.map, List.filter_map]
  rfl

end FromPath

/-! ## The walk at a place -/

section Located

variable {t : FileTree} {place : List String}

theorem isPhp_absolute_append {names : List String}
    (hnames : ∀ n ∈ place ++ names, FileTree.IsName n) (hne : names ≠ []) :
    Path.isPhp (FileTree.absolute (place ++ names)) = Path.isPhp (FileTree.absolute names) := by
  unfold Path.isPhp Path.extension?
  rw [FileTree.segments_absolute hnames (by simp [hne]),
    FileTree.segments_absolute (fun n hn => hnames n (List.mem_append_right _ hn)) hne,
    List.getLast?_append_of_ne_nil _ hne]

theorem names_of_mem_fileNames (h : Placed t place project) {names : List String}
    (hnames : names ∈ fileNames (reach skip project.height [([], project)])) :
    (∀ n ∈ place ++ names, FileTree.IsName n) ∧ names ≠ [] := by
  obtain ⟨content, hitem⟩ := mem_fileNames.1 hnames
  have hget := ((mem_reach_root h.proper).1 hitem).1
  exact ⟨h.names_append hget, h.ne_nil_of_file hget⟩

theorem phpBelow_absolute (h : Placed t place project) (excluded : String → Bool) :
    phpBelow excluded (FileTree.absolute place) project =
      phpNames (fun item => excluded (FileTree.absolute (place ++ item.1))) project := by
  unfold phpBelow phpNames
  rw [fileNames_reach_congr h.proper (fun item hget _ => by
    rw [FileTree.below_absolute (h.names_append hget)]) (.root project)]
  refine List.filter_congr fun names hnames => ?_
  obtain ⟨hproper, hne⟩ := names_of_mem_fileNames h hnames
  rw [FileTree.below_absolute hproper, isPhp_absolute_append hproper hne]

theorem phpFiles_located (h : Placed t place project) (excluded : String → Bool) :
    phpFiles t excluded (FileTree.absolute place) =
      .ok ((phpNames (fun item => excluded (FileTree.absolute (place ++ item.1))) project).map
        fun names => FileTree.absolute (place ++ names)) := by
  have hfind : t.find false (FileTree.absolute place) = .ok project := by
    simpa using h.find (Found.root project _ List.mem_cons_self) h.ne_link false
  have hfits : Fits excluded (FileTree.absolute place) project := by
    intro names e hget _
    rw [FileTree.below_absolute (h.names_append hget)]
    exact h.fits names e hget
  rw [phpFiles_below hfind h.proper hfits, phpBelow_absolute h]
  refine congrArg Except.ok (List.map_congr_left fun names hnames => ?_)
  obtain ⟨hproper, -⟩ := names_of_mem_fileNames h (List.mem_of_mem_filter hnames)
  exact FileTree.below_absolute hproper

end Located

/-! ## What is cut off -/

/-- Whether a name list or one above it is cut. -/
def cutOff (cut : List String → Bool) (names : List String) : Bool := names.inits.any cut

theorem cutOff_eq_true_iff {cut : List String → Bool} {names : List String} :
    cutOff cut names = true ↔ ∃ above, above <+: names ∧ cut above = true := by
  simp [cutOff, List.mem_inits]

theorem inits_eq (names : List String) : names.inits = names.inits.dropLast ++ [names] := by
  induction names using List.reverseRecOn with
  | nil => rfl
  | append_singleton names name ih => simp [List.inits_append]

/-- What is cut in the course of a walk might as well be taken out at its end, with all that lies below. -/
theorem reach_cut (skip : Item → Bool) (cut : List String → Bool) (fuel : Nat) (items : List Item) :
    reach (fun item => skip item || cut item.1) fuel
        (items.filter fun item => !item.1.inits.dropLast.any cut) =
      (reach skip fuel items).filter fun item => !cutOff cut item.1 := by
  induction fuel generalizing items with
  | zero => rfl
  | succ fuel ih =>
    unfold reach
    dsimp only
    -- A level holds the items that have nothing cut above them, so the test of an item completes `cutOff`.
    have hkept : ((items.filter fun item => !item.1.inits.dropLast.any cut).filter
          fun item => !(skip item || cut item.1)) =
        (items.filter fun item => !skip item).filter fun item => !cutOff cut item.1 := by
      rw [List.filter_filter, List.filter_filter]
      refine List.filter_congr fun item _ => ?_
      unfold cutOff
      rw [inits_eq item.1, List.any_append]
      cases skip item <;> simp [Bool.and_comm]
    have hbelow : ((items.filter fun item => !skip item).filter
          fun item => !cutOff cut item.1).flatMap children =
        ((items.filter fun item => !skip item).flatMap children).filter
          fun item => !item.1.inits.dropLast.any cut := by
      rw [flatMap_filter, List.filter_flatMap]
      refine congrArg (List.flatMap · _) (funext fun item => ?_)
      unfold children
      rw [List.filter_map]
      have hconst : ((fun item : Item => !item.1.inits.dropLast.any cut) ∘
          fun p : String × Entry => (item.1 ++ [p.1], p.2)) = fun _ => !cutOff cut item.1 := by
        funext p
        simp [cutOff, List.inits_append]
      rw [hconst]
      cases cutOff cut item.1 <;> simp
    rw [hkept, hbelow, ih, List.filter_append]

theorem fileNames_filter (p : List String → Bool) (items : List Item) :
    fileNames (items.filter fun item => p item.1) = (fileNames items).filter p := by
  unfold fileNames
  rw [List.filterMap_filter, List.filter_filterMap]
  refine congrArg (List.filterMap · items) (funext fun item => ?_)
  obtain ⟨names, e⟩ := item
  cases e with
  | file content => cases hp : p names <;> simp [Option.filter, hp]
  | link target => simp
  | dir entries => simp

theorem phpNames_cut (skip : Item → Bool) (cut : List String → Bool) (project : Entry) :
    phpNames (fun item => skip item || cut item.1) project =
      (phpNames skip project).filter fun names => !cutOff cut names := by
  have hcut := reach_cut skip cut project.height [([], project)]
  have hroot : [(([] : List String), project)].filter
      (fun item => !item.1.inits.dropLast.any cut) = [([], project)] := rfl
  rw [hroot] at hcut
  unfold phpNames
  rw [hcut, fileNames_filter fun names => !cutOff cut names, List.filter_filter, List.filter_filter]
  exact List.filter_congr fun names _ => Bool.and_comm _ _

end PhpAudit.Walk
