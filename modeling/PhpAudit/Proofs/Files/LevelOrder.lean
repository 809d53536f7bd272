import Mathlib.Data.List.Sort
import Mathlib.Data.String.Basic
import PhpAudit.Proofs.Files.Reach

/-!
# The order of a walk

A walk returns the PHP files that can be seen from the path it starts from: no path on the way to one is
excluded or a link (`phpFiles_level_order`). They are sorted by depth and then by their segments. There is
only one such list of the paths of these files, so it is of no account in which order a directory lists its
entries.
-/

namespace PhpAudit

/-! ## Entries -/

namespace Entry

variable {e e' : Entry} {entry : String × Entry} {entries : List (String × Entry)}

theorem pairwise_insertByName (hsorted : entries.Pairwise fun p q => p.1 < q.1)
    (hnew : ∀ p ∈ entries, p.1 ≠ entry.1) :
    (insertByName entry entries).Pairwise fun p q => p.1 < q.1 := by
  induction entries with
  | nil => exact List.pairwise_singleton _ _
  | cons p entries ih =>
    obtain ⟨hfirst, hsorted⟩ := List.pairwise_cons.1 hsorted
    unfold insertByName
    split
    next hlt =>
      refine List.pairwise_cons.2 ⟨?_, List.pairwise_cons.2 ⟨hfirst, hsorted⟩⟩
      exact List.forall_mem_cons.2 ⟨hlt, fun q hq => hlt.trans (hfirst q hq)⟩
    next hlt =>
      have hp : p.1 < entry.1 := lt_of_le_of_ne (le_of_not_gt hlt) (hnew p List.mem_cons_self)
      refine List.pairwise_cons.2 ⟨fun q hq => ?_, ih hsorted fun q hq => hnew q (List.mem_cons_of_mem _ hq)⟩
      rcases mem_insertByName.1 hq with rfl | hq
      · exact hp
      · exact hfirst q hq

theorem Proper.pairwise_sortedEntries (he : e.Proper) :
    e.sortedEntries.Pairwise fun p q => p.1 < q.1 := by
  cases he with
  | file content => exact List.Pairwise.nil
  | link target => exact List.Pairwise.nil
  | @dir entries names distinct below =>
    clear names below
    induction entries with
    | nil => exact List.Pairwise.nil
    | cons p entries ih =>
      obtain ⟨hnew, hdistinct⟩ := List.nodup_cons.1 distinct
      refine pairwise_insertByName (ih hdistinct) fun q hq heq => hnew ?_
      exact List.mem_map.2 ⟨q, mem_sortedEntries.1 hq, heq⟩

/-- An entry without what a directory holds. -/
def bare : Entry → Entry
  | dir _ => dir []
  | e => e

/-- The same names lead to the same files, links and directories. The directories may list their entries in
different orders. -/
def SameTree (e e' : Entry) : Prop :=
  ∀ names, (e.get? names).map bare = (e'.get? names).map bare

theorem SameTree.symm (h : SameTree e e') : SameTree e' e := fun names => (h names).symm

theorem SameTree.exists_get? (h : SameTree e e') {names : List String} {d : Entry}
    (hget : e.get? names = some d) : ∃ d', e'.get? names = some d' ∧ d'.bare = d.bare := by
  have hsame := h names
  rw [hget, Option.map_some] at hsame
  exact Option.map_eq_some_iff.1 hsame.symm

theorem SameTree.get?_file (h : SameTree e e') {names : List String} {content : Content}
    (hget : e.get? names = some (.file content)) : e'.get? names = some (.file content) := by
  obtain ⟨d', hget', hbare⟩ := h.exists_get? hget
  cases d' with
  | file content' =>
    cases hbare
    exact hget'
  | link target => cases hbare
  | dir entries => cases hbare

/-- A directory that lists its entries in another order is the same. -/
theorem SameTree.of_perm {entries' : List (String × Entry)} (hperm : entries.Perm entries')
    (hdistinct : (entries.map (·.1)).Nodup) : SameTree (.dir entries) (.dir entries') := by
  have hdistinct' := (hperm.map (·.1)).nodup_iff.1 hdistinct
  have hlookup : ∀ name, entries.lookup name = entries'.lookup name := by
    intro name
    ext d
    exact ⟨fun h => lookup_of_mem hdistinct' (hperm.mem_iff.1 (mem_of_lookup h)),
      fun h => lookup_of_mem hdistinct (hperm.mem_iff.2 (mem_of_lookup h))⟩
  intro names
  cases names with
  | nil => rfl
  | cons name names => simp [get?, child?, hlookup]

end Entry

namespace Walk

open PhpAudit.Path (below)

/-! ## Depth, then names -/

/-- A list of names comes before another if it is shorter, or as long and smaller name by name. -/
def Earlier (a b : List String) : Prop := a.length < b.length ∨ a.length = b.length ∧ a < b

theorem Earlier.irrefl (a : List String) : ¬ Earlier a a := by
  rintro (h | ⟨-, h⟩)
  · exact Nat.lt_irrefl _ h
  · exact List.lt_irrefl a h

theorem Earlier.asymm {a b : List String} (h : Earlier a b) : ¬ Earlier b a := by
  rcases h with h | ⟨heq, h⟩ <;> rintro (h' | ⟨heq', h'⟩)
  · omega
  · omega
  · omega
  · exact List.lt_asymm h h'

instance : Std.Irrefl Earlier := ⟨Earlier.irrefl⟩

instance : Std.Antisymm Earlier := ⟨fun _ _ h h' => absurd h' h.asymm⟩

theorem Earlier.append_left (c : List String) {a b : List String} (h : Earlier a b) :
    Earlier (c ++ a) (c ++ b) := by
  rcases h with h | ⟨heq, h⟩
  · exact .inl (by simpa using h)
  · exact .inr ⟨by simpa using heq, List.append_left_lt h⟩

theorem append_lt_append {a b : List String} (h : a < b) (hlength : a.length = b.length)
    (c d : List String) : a ++ c < b ++ d := by
  induction a generalizing b with
  | nil =>
    obtain rfl := List.length_eq_zero_iff.1 hlength.symm
    exact absurd h (List.lt_irrefl _)
  | cons x a ih =>
    cases b with
    | nil => cases hlength
    | cons y b =>
      rcases List.cons_lt_cons_iff.1 h with hxy | ⟨rfl, hab⟩
      · exact List.cons_lt_cons_iff.2 (.inl hxy)
      · exact List.cons_lt_cons_iff.2 (.inr ⟨rfl, ih hab (Nat.succ.inj hlength)⟩)

variable {skip : Item → Bool} {items : List Item} {item : Item} {depth : Nat}

/-- The items of one level, in the order of their names. -/
structure Level (depth : Nat) (items : List Item) : Prop where
  proper : ∀ item ∈ items, item.2.Proper
  length : ∀ item ∈ items, item.1.length = depth
  sorted : items.Pairwise fun a b => a.1 < b.1

theorem Level.filter (h : Level depth items) (p : Item → Bool) : Level depth (items.filter p) where
  proper item hitem := h.proper item (List.mem_of_mem_filter hitem)
  length item hitem := h.length item (List.mem_of_mem_filter hitem)
  sorted := h.sorted.filter p

theorem Level.children (h : Level depth items) : Level (depth + 1) (items.flatMap children) where
  proper item hitem := by
    obtain ⟨start, hstart, hitem⟩ := List.mem_flatMap.1 hitem
    have hproper := h.proper start hstart
    obtain ⟨name, hchild, -⟩ := (mem_children hproper).1 hitem
    exact (hproper.of_child? hchild).2
  length item hitem := by
    obtain ⟨start, hstart, hitem⟩ := List.mem_flatMap.1 hitem
    obtain ⟨name, -, hname⟩ := (mem_children (h.proper start hstart)).1 hitem
    simp [hname, h.length start hstart]
  sorted := by
    refine List.pairwise_flatMap.2 ⟨fun start hstart => ?_, ?_⟩
    · -- Within a directory the last name decides.
      refine List.pairwise_map.2 ((h.proper start hstart).pairwise_sortedEntries.imp fun hlt => ?_)
      exact List.append_left_lt (List.cons_lt_cons_iff.2 (.inl hlt))
    · -- Between directories the names of the directories do, as they are of one length.
      refine h.sorted.imp_of_mem fun {a b} ha hb hlt x hx y hy => ?_
      obtain ⟨m, -, hm⟩ := (mem_children (h.proper a ha)).1 hx
      obtain ⟨n, -, hn⟩ := (mem_children (h.proper b hb)).1 hy
      rw [hm, hn]
      exact append_lt_append hlt ((h.length a ha).trans (h.length b hb).symm) [m] [n]

theorem Level.le_length (h : Level depth items) {fuel : Nat} (hitem : item ∈ reach skip fuel items) :
    depth ≤ item.1.length := by
  induction fuel generalizing depth items with
  | zero => cases hitem
  | succ fuel ih =>
    rcases List.mem_append.1 hitem with hitem | hitem
    · exact ((h.filter _).length item hitem).ge
    · exact Nat.le_of_succ_le (ih (h.filter _).children hitem)

/-- A walk lists a level in order, and then the levels below it. -/
theorem Level.pairwise_reach (h : Level depth items) (skip : Item → Bool) (fuel : Nat) :
    (reach skip fuel items).Pairwise fun a b => Earlier a.1 b.1 := by
  induction fuel generalizing depth items with
  | zero => exact List.Pairwise.nil
  | succ fuel ih =>
    have hkept := h.filter fun item => !skip item
    refine List.pairwise_append.2 ⟨?_, ih hkept.children, fun a ha b hb => .inl ?_⟩
    · refine hkept.sorted.imp_of_mem fun ha hb hlt => .inr ⟨?_, hlt⟩
      rw [hkept.length _ ha, hkept.length _ hb]
    · rw [hkept.length a ha]
      exact hkept.children.le_length hb

theorem Level.root {entry : Entry} (hproper : entry.Proper) : Level 0 [([], entry)] where
  proper := by simpa using hproper
  length := by simp
  sorted := List.pairwise_singleton _ _

/-! ## Walks from a path -/

variable {t : FileTree} {excluded : String → Bool} {root : String} {entry : Entry} {names : List String}

theorem pairwise_phpBelow (excluded : String → Bool) (root : String) (hproper : entry.Proper) :
    (phpBelow excluded root entry).Pairwise Earlier := by
  refine List.Pairwise.filter _ (((Level.root hproper).pairwise_reach _ _).filterMap _ ?_)
  rintro ⟨a, d⟩ ⟨b, e⟩ hearlier x hx y hy
  cases d <;> cases e <;> simp_all

/-- The names lead to a PHP file, and no path on the way, the first and the last included, is excluded or
that of a link. -/
structure Visible (t : FileTree) (excluded : String → Bool) (root : String) (names : List String) :
    Prop where
  isName : ∀ n ∈ names, FileTree.IsName n
  isFile : ∃ content, t.find false (below root names) = .ok (.file content)
  isPhp : Path.isPhp (below root names) = true
  notExcluded : ∀ above, above <+: names → excluded (below root above) = false
  notLink : ∀ above, above <+: names → ∀ target, t.find false (below root above) ≠ .ok (.link target)

theorem mem_phpBelow_iff_visible (hroot : t.find false root = .ok entry) (hproper : entry.Proper)
    (hfits : Fits excluded root entry) :
    names ∈ phpBelow excluded root entry ↔ Visible t excluded root names := by
  rw [mem_phpBelow hproper]
  constructor
  · rintro ⟨⟨content, hget⟩, hphp, hopen⟩
    have hnames := (hproper.of_get? hget).1
    -- What is behind a beginning of the names is found at its path.
    have hfind : ∀ above e, above <+: names → entry.get? above = some e →
        t.find false (below root above) = .ok e := by
      intro above e habove he
      refine FileTree.find_below hroot (fun n hn => hnames n (habove.subset hn)) ?_ he
      exact hfits above e he fun a ha => hopen a (ha.trans habove)
    refine ⟨hnames, ⟨content, hfind names _ (List.prefix_refl _) hget⟩, hphp, hopen, ?_⟩
    rintro above habove target hlink
    obtain ⟨e, he⟩ := Entry.get?_of_prefix habove hget
    obtain rfl := Except.ok.inj ((hfind above e habove he).symm.trans hlink)
    obtain ⟨rest, rfl⟩ := habove
    rw [Entry.get?_append, he] at hget
    cases rest with
    | nil => cases hget
    | cons n rest => cases hget
  · rintro ⟨hnames, ⟨content, hfile⟩, hphp, hopen, hlink⟩
    exact ⟨⟨content, FileTree.get?_of_find hroot hnames hlink hfile⟩, hphp, hopen⟩

theorem phpBelow_eq_of_sameTree {entry' : Entry} (hproper : entry.Proper) (hproper' : entry'.Proper)
    (hsame : entry.SameTree entry') : phpBelow excluded root entry' = phpBelow excluded root entry := by
  refine (pairwise_phpBelow excluded root hproper').eq_of_mem_iff
    (pairwise_phpBelow excluded root hproper) fun names => ?_
  rw [mem_phpBelow hproper, mem_phpBelow hproper']
  refine and_congr_left' (exists_congr fun content => ?_)
  exact ⟨hsame.symm.get?_file, hsame.get?_file⟩

theorem Fits.of_sameTree {entry' : Entry} (hfits : Fits excluded root entry)
    (hsame : entry.SameTree entry') : Fits excluded root entry' := by
  intro names e' hget' hopen
  obtain ⟨e, hget, -⟩ := hsame.symm.exists_get? hget'
  exact hfits names e hget hopen

/-- A tree of few levels fits. -/
theorem Fits.of_height (hroot : root ≠ "") (hproper : entry.Proper)
    (hheight : root.utf8ByteSize + (FileTree.maxNameBytes + 1) * entry.height ≤ FileTree.maxPathBytes) :
    Fits excluded root entry := by
  intro names e hget _
  have hsize := Path.utf8ByteSize_below_le hroot (hproper.of_get? hget).1
  have hlevels := Nat.mul_le_mul_left (FileTree.maxNameBytes + 1)
    (Nat.le_of_lt (Entry.length_lt_height hget))
  omega

/-- A path comes before another if it has fewer segments, or as many and smaller ones. -/
def Before (p q : String) : Prop := Earlier (Path.segments p) (Path.segments q)

theorem pairwise_before (excluded : String → Bool) (hroot : root ≠ "") (hproper : entry.Proper) :
    ((phpBelow excluded root entry).map (below root)).Pairwise Before := by
  refine List.pairwise_map.2 ((pairwise_phpBelow excluded root hproper).imp_of_mem ?_)
  intro a b ha hb hearlier
  have hnames : ∀ names ∈ phpBelow excluded root entry, ∀ n ∈ names, FileTree.IsName n := by
    intro names hnames
    obtain ⟨⟨content, hget⟩, -⟩ := (mem_phpBelow hproper).1 hnames
    exact (hproper.of_get? hget).1
  unfold Before
  rw [Path.segments_below hroot (hnames a ha), Path.segments_below hroot (hnames b hb)]
  exact hearlier.append_left _

/-- A walk collects exactly the visible PHP files, each once, level by level and in the order of the segments
within a level. In whichever order the directories list their entries, the walk is the same. -/
theorem phpFiles_level_order (hroot : t.find false root = .ok entry) (hproper : entry.Proper)
    (hfits : Fits excluded root entry) :
    ∃ paths, phpFiles t excluded root = .ok paths ∧
      (∀ p, p ∈ paths ↔ ∃ names, p = below root names ∧ Visible t excluded root names) ∧
      (paths.map Path.segments).Nodup ∧ paths.Pairwise Before ∧
      ∀ t' entry', t'.find false root = .ok entry' → entry'.Proper → entry.SameTree entry' →
        phpFiles t' excluded root = .ok paths := by
  have hbefore := pairwise_before excluded (FileTree.ne_empty_of_find hroot) hproper
  refine ⟨_, phpFiles_below hroot hproper hfits, fun p => ?_, ?_, hbefore, ?_⟩
  · rw [List.mem_map]
    refine exists_congr fun names => ?_
    rw [mem_phpBelow_iff_visible hroot hproper hfits, and_comm, eq_comm]
  · refine List.pairwise_map.2 (hbefore.imp fun hlt heq => ?_)
    unfold Before at hlt
    exact Earlier.irrefl _ (heq ▸ hlt)
  · intro t' entry' hroot' hproper' hsame
    rw [phpFiles_below hroot' hproper' (hfits.of_sameTree hsame), phpBelow_eq_of_sameTree hproper hproper' hsame]

/-! ## One tree listed twice -/

/-- A directory with files on two levels, a link to one of them, and a directory to be hidden. -/
def twoLevelEntries : List (String × Entry) :=
  [("b.php", .file (.ofText "<?php\n")), ("lib.inc", .link "b.php"), ("notes.txt", .file (.ofText "")),
    ("hidden", .dir [("c.php", .file (.ofText ""))]),
    ("a", .dir [("z.php", .file (.ofText "")), ("Y.PHP", .file (.ofText "<?php\n"))])]

/-- A file system with a directory and a link to it. -/
def linkedTree (entries : List (String × Entry)) : FileTree :=
  { root := .dir [("app", .link "srv"), ("srv", .dir entries)] }

theorem proper_twoLevelEntries : (Entry.dir twoLevelEntries).Proper := by
  refine .dir (by decide) (by decide) ?_
  simp only [twoLevelEntries, List.forall_mem_cons]
  refine ⟨.file _, .link _, .file _, .dir (by decide) (by decide) ?_, .dir (by decide) (by decide) ?_, by simp⟩
  · simpa using .file _
  · simpa using ⟨.file _, .file _⟩

/-- The path that is not to be walked. -/
def isHidden (path : String) : Bool := path == "/app/hidden"

theorem phpFiles_level_order_linked :
    (linkedTree twoLevelEntries).find false "/app/" = .ok (.dir twoLevelEntries) ∧
      (Entry.dir twoLevelEntries).Proper ∧ Fits isHidden "/app/" (.dir twoLevelEntries) ∧
      (∀ p, p ∈ ["/app/b.php", "/app/a/Y.PHP", "/app/a/z.php"] ↔
        ∃ names, p = below "/app/" names ∧ Visible (linkedTree twoLevelEntries) isHidden "/app/" names) ∧
      phpFiles (linkedTree twoLevelEntries.reverse) isHidden "/app/" =
        .ok ["/app/b.php", "/app/a/Y.PHP", "/app/a/z.php"] := by
  have hfind : ∀ entries, (linkedTree entries).find false "/app/" = .ok (.dir entries) := fun entries => rfl
  have hfits : Fits isHidden "/app/" (.dir twoLevelEntries) :=
    .of_height (by decide) proper_twoLevelEntries (by decide)
  obtain ⟨paths, hpaths, hmem, -, -, hsame⟩ :=
    phpFiles_level_order (hfind twoLevelEntries) proper_twoLevelEntries hfits
  have hwalk : phpFiles (linkedTree twoLevelEntries) isHidden "/app/" =
      .ok ["/app/b.php", "/app/a/Y.PHP", "/app/a/z.php"] := by decide +kernel
  obtain rfl := Except.ok.inj (hpaths.symm.trans hwalk)
  have hperm : twoLevelEntries.Perm twoLevelEntries.reverse := (List.reverse_perm _).symm
  have hreversed : (Entry.dir twoLevelEntries.reverse).Proper := by
    cases proper_twoLevelEntries with
    | dir names distinct below =>
      refine .dir (fun p hp => names p (hperm.mem_iff.2 hp)) ?_ fun p hp => below p (hperm.mem_iff.2 hp)
      exact (hperm.map (·.1)).nodup_iff.1 distinct
  exact ⟨hfind _, proper_twoLevelEntries, hfits, hmem,
    hsame _ _ (hfind _) hreversed (.of_perm hperm (by decide))⟩

end Walk

end PhpAudit
