import PhpAudit.Proofs.Hierarchy.Subclass
import PhpAudit.Proofs.Tree.Walk

/-!
# A hierarchy grows with its files

Further files add classes and change none: the first declaration of a class counts, so a class that is
known keeps its parent and its interfaces (`extends_build`), and whatever was a subclass stays one
(`Extends.isA`). A file is `Covered` by a hierarchy that knows every class of its tree. The hierarchy of a
project covers its files if the names of their declarations are settled (`covered_build`).
-/

namespace PhpAudit

namespace Hierarchy

/-- Every class of `h` is known to `h'`, with the same parent and interfaces. -/
def Extends (h h' : Hierarchy) : Prop :=
  ∀ name c, h.get? name = some c →
    ∃ c', h'.get? name = some c' ∧ c'.parent = c.parent ∧ c'.interfaces = c.interfaces

theorem extends_build (files more : List SourceFile) :
    (build files).Extends (build (files ++ more)) := by
  intro name c hc
  rw [get?_build] at hc
  obtain ⟨d, hd, rfl⟩ := Option.map_eq_some_iff.1 hc
  rw [get?_build, List.flatMap_append, List.find?_append, hd]
  exact ⟨_, rfl, rfl, rfl⟩

variable {h h' : Hierarchy}

theorem Extends.parentOf?_eq (hx : h.Extends h') {name : String} (hc : h.contains name = true) :
    h'.parentOf? name = h.parentOf? name := by
  obtain ⟨c, hc⟩ := Option.isSome_iff_exists.1 hc
  obtain ⟨c', hc', hparent, -⟩ := hx name c hc
  unfold parentOf?
  rw [hc, hc']
  exact hparent

theorem Extends.super (hx : h.Extends h') {a b : String} (hs : h.Super a b) : h'.Super a b := by
  obtain ⟨s, hs, hk⟩ := hs
  unfold supersOf at hs
  cases hc : h.get? a with
  | none => rw [hc] at hs; cases hs
  | some c =>
    rw [hc] at hs
    obtain ⟨c', hc', hparent, hinterfaces⟩ := hx a c hc
    refine ⟨s, ?_, hk⟩
    unfold supersOf ClassInfo.supers
    rw [hc', Option.map_some, Option.getD_some, hparent, hinterfaces]
    exact hs

theorem Extends.isSubclassOf (hx : h.Extends h') {name target : String}
    (hs : h.isSubclassOf name target = true) : h'.isSubclassOf name target = true := by
  rw [isSubclassOf_iff] at hs ⊢
  exact Relation.TransGen.mono (p := h'.Super) (fun _ _ => hx.super) _ _ hs

theorem Extends.isA (hx : h.Extends h') {name target : String} (hs : h.isA name target = true) :
    h'.isA name target = true := by
  unfold Hierarchy.isA at hs ⊢
  rw [Bool.or_eq_true] at hs ⊢
  exact hs.imp_right hx.isSubclassOf

end Hierarchy

/-! ## Names -/

/-- A class of this name is entered under the key that the name is looked up under. To enter it the name is normalized
twice and to look it up once, which differs where a blank follows the leading separators. -/
def ClassName.IsSettled (name : String) : Prop := key (normalize name) = key name

instance (name : String) : Decidable (ClassName.IsSettled name) :=
  inferInstanceAs (Decidable (_ = _))

namespace SourceFile

variable {f : SourceFile}

/-- The full names of the classes that a file declares are settled. -/
def NamesSettled (f : SourceFile) : Prop :=
  ∀ n ∈ f.nodes.toList, n.kind.isClassLike = true → ∀ name ∈ n.name?, ClassName.IsSettled name

instance (f : SourceFile) : Decidable f.NamesSettled :=
  inferInstanceAs (Decidable (∀ _ ∈ _, _ → ∀ _ ∈ _, _))

/-- The hierarchy knows every class of the tree of the file. -/
def Covered (f : SourceFile) (h : Hierarchy) : Prop :=
  ∀ decl name, f.Rooted decl → decl.kind.isClassLike = true → decl.name? = some name →
    h.contains name = true

variable {decl : Node} {name : String} {c : ClassInfo}

theorem exists_describe? (hname : decl.name? = some name) : ∃ c, f.describe? decl = some c := by
  unfold describe?
  rw [hname]
  exact ⟨_, rfl⟩

theorem name_of_describe? (h : f.describe? decl = some c) (hname : decl.name? = some name) :
    c.name = ClassName.normalize name := by
  unfold describe? at h
  rw [hname] at h
  obtain rfl := Option.some.inj h
  dsimp only
  split <;> rfl

/-- A class with a settled name is entered under the key of its name. -/
theorem NamesSettled.key_of_describe? (hnames : f.NamesSettled) (hf : f.Linked) (hdecl : f.Has decl)
    (hkind : decl.kind.isClassLike = true) (hc : f.describe? decl = some c) (hname : decl.name? = some name) :
    ClassName.key c.name = ClassName.key name := by
  rw [name_of_describe? hc hname]
  exact hnames decl (hf.mem_nodes.2 hdecl) hkind name hname

theorem covered_build (hf : f.Linked) (hnames : f.NamesSettled) {files : List SourceFile}
    (hmem : f ∈ files) : f.Covered (Hierarchy.build files) := by
  intro decl name hdecl hkind hname
  obtain ⟨root, hroot, -⟩ := id hdecl
  -- the description of the declaration is among those that the hierarchy is made of
  obtain ⟨c, hc⟩ := exists_describe? (f := f) hname
  have hkey := hnames.key_of_describe? hf (hf.has_of_rooted hdecl) hkind hc hname
  have hcs : c ∈ f.declaredClasses := by
    unfold declaredClasses
    rw [hroot]
    exact List.mem_filterMap.2
      ⟨decl, List.mem_filter.2 ⟨(hf.rooted_iff hroot).1 hdecl, hkind⟩, hc⟩
  unfold Hierarchy.contains
  rw [Hierarchy.get?_build, Option.isSome_map, List.find?_isSome]
  exact ⟨c, List.mem_flatMap.2 ⟨f, hmem, hcs⟩, by rw [hkey]; simp⟩

end SourceFile

end PhpAudit
