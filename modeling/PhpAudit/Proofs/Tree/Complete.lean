import Mathlib.Data.List.Basic
import Mathlib.Data.List.Find
import PhpAudit.Proofs.Tree.Arena

/-!
# Complete files

A file is made in passes: its tree first, then the identifiers, the namespace regions and the full names.
Each pass reads the file as the passes before it left it. The later passes change nothing that the earlier
ones read, so the result is `Complete` (`complete_ofParts`): every identifier, region and full name in it is
the one that the file itself gives.
-/

namespace PhpAudit.SourceFile

/-- A pass that fills in identifiers and full names only. -/
def Fills (h : Node → Node) : Prop := ∀ n, ∃ v r, h n = { n with value := v, resolved := r }

variable {f f' : SourceFile} {h : Node → Node}

section Fills
variable (hh : Fills h) (n : Node)
include hh

theorem Fills.id_eq : (h n).id = n.id := by
  obtain ⟨v, r, heq⟩ := hh n
  rw [heq]

theorem Fills.parent_eq : (h n).parent = n.parent := by
  obtain ⟨v, r, heq⟩ := hh n
  rw [heq]

theorem Fills.children_eq : (h n).children = n.children := by
  obtain ⟨v, r, heq⟩ := hh n
  rw [heq]

theorem Fills.kind_eq : (h n).kind = n.kind := by
  obtain ⟨v, r, heq⟩ := hh n
  rw [heq]

theorem Fills.form_eq : (h n).form = n.form := by
  obtain ⟨v, r, heq⟩ := hh n
  rw [heq]

theorem Fills.field_eq : (h n).field = n.field := by
  obtain ⟨v, r, heq⟩ := hh n
  rw [heq]

theorem Fills.span_eq : (h n).span = n.span := by
  obtain ⟨v, r, heq⟩ := hh n
  rw [heq]

theorem Fills.place_eq : (h n).place = n.place := by
  obtain ⟨v, r, heq⟩ := hh n
  rw [heq]

end Fills

/-! ## What a pass leaves alone -/

/-- The second file is the first one with identifiers and full names filled in. -/
structure Filled (h : Node → Node) (f f' : SourceFile) : Prop where
  fills : Fills h
  nodes_eq : f'.nodes = f.nodes.map h
  source_eq : f'.source = f.source

section Filled
variable (hf : Filled h f f') (n : Node)
include hf

theorem Filled.node?_eq (i : Nat) : f'.node? i = (f.node? i).map h := by
  unfold SourceFile.node?
  rw [hf.nodes_eq, Array.getElem?_map]

theorem Filled.parent? : f'.parent? (h n) = (f.parent? n).map h := by
  unfold SourceFile.parent?
  rw [hf.fills.parent_eq]
  cases n.parent with
  | none => rfl
  | some p => exact hf.node?_eq p

theorem Filled.children : f'.children (h n) = (f.children n).map h := by
  unfold SourceFile.children
  rw [hf.fills.children_eq, List.map_filterMap]
  exact List.filterMap_congr fun i _ => hf.node?_eq i

theorem Filled.find?_children {q q' : Node → Bool} (hq : ∀ m, q' (h m) = q m) :
    (f'.children (h n)).find? q' = ((f.children n).find? q).map h := by
  rw [hf.children, List.find?_map]
  refine congrArg _ (List.find?_congr fun m _ => hq m)

theorem Filled.child? (field : String) :
    f'.child? (h n) field = (f.child? n field).map h := by
  refine hf.find?_children n fun m => ?_
  unfold Node.hasField
  rw [hf.fills.field_eq]

theorem Filled.text? : f'.text? (h n) = f.text? n := by
  unfold SourceFile.text?
  rw [hf.fills.span_eq, hf.source_eq]

theorem Filled.text : f'.text (h n) = f.text n :=
  congrArg (Option.getD · "") (hf.text? n)

theorem Filled.fieldText? (field : String) :
    f'.fieldText? (h n) field = f.fieldText? n field := by
  unfold SourceFile.fieldText?
  rw [hf.child?, Option.bind_map]
  exact Option.bind_congr fun m _ => hf.text? m

theorem Filled.formText? (forms : List String) :
    f'.formText? (h n) forms = f.formText? n forms := by
  unfold SourceFile.formText?
  rw [hf.find?_children n (q := fun c => forms.contains c.form) fun m => by rw [hf.fills.form_eq],
    Option.bind_map]
  exact Option.bind_congr fun m _ => hf.text? m

theorem Filled.identifier? : f'.identifier? (h n) = f.identifier? n := by
  unfold SourceFile.identifier?
  simp only [hf.fills.kind_eq, hf.fieldText?, hf.formText?, hf.text?]

theorem Filled.preorderOnto {enter enter' : Node → Bool} (henter : ∀ m, enter' (h m) = enter m)
    (fuel : Nat) (rest : List Node) :
    f'.preorderOnto enter' fuel (h n) (rest.map h) =
      (f.preorderOnto enter fuel n rest).map h := by
  induction fuel generalizing n rest with
  | zero => rfl
  | succ fuel ih =>
    have hfold : ∀ ms : List Node,
        (ms.map h).foldr (f'.preorderOnto enter' fuel) (rest.map h) =
          (ms.foldr (f.preorderOnto enter fuel) rest).map h := by
      intro ms
      induction ms with
      | nil => rfl
      | cons m ms ihms => rw [List.map_cons, List.foldr_cons, ihms, ih, List.foldr_cons]
    unfold SourceFile.preorderOnto
    rw [henter, hf.children, hfold]
    split <;> rfl

theorem Filled.descendants : f'.descendants (h n) = (f.descendants n).map h := by
  unfold SourceFile.descendants SourceFile.preorder
  have hsize : f'.size = f.size := by
    unfold SourceFile.size
    rw [hf.nodes_eq, Array.size_map]
  rw [hsize]
  exact hf.preorderOnto n (fun _ => rfl) f.size []

omit n

/-! ## Regions and imports -/

theorem Filled.nodesOf (kind : Kind) : f'.nodesOf kind = (f.nodesOf kind).map h := by
  unfold SourceFile.nodesOf
  rw [hf.nodes_eq, Array.toList_map, List.filter_map]
  refine congrArg _ (List.filter_congr fun n _ => ?_)
  rw [Function.comp_apply, hf.fills.kind_eq]

theorem Filled.isBraced (n : Node) : f'.isBraced (h n) = f.isBraced n := by
  unfold SourceFile.isBraced
  rw [hf.child?]
  cases f.child? n "body" with
  | none => rfl
  | some body =>
    rw [Option.map_some]
    dsimp only
    rw [hf.fills.kind_eq]

theorem Filled.declaredRegions (hv : ∀ n, (h n).value = n.value) (decls : List Node) :
    f'.declaredRegions (decls.map h) = f.declaredRegions decls := by
  induction decls with
  | nil => rfl
  | cons decl decls ih =>
    rw [List.map_cons]
    unfold SourceFile.declaredRegions
    rw [ih, hf.isBraced, hv, hf.fills.span_eq]
    cases decls with
    | nil => rw [List.map_nil, hf.source_eq]
    | cons next decls =>
      rw [List.map_cons]
      dsimp only
      rw [hf.fills.span_eq]

theorem Filled.regions (hv : ∀ n, (h n).value = n.value) : f'.regions = f.regions := by
  unfold SourceFile.regions SourceFile.globalRegion
  rw [hf.nodesOf, hf.declaredRegions hv, hf.source_eq]

theorem Filled.importsOf (n : Node) : f'.importsOf (h n) = f.importsOf n := by
  unfold SourceFile.importsOf
  have hgroup : ((f'.children (h n)).find? (fun c => c.form == "namespace_name")).map
        f'.text =
      ((f.children n).find? (fun c => c.form == "namespace_name")).map f.text := by
    rw [hf.find?_children n (q := fun c => c.form == "namespace_name") fun m => by rw [hf.fills.form_eq],
      Option.map_map]
    exact Option.map_congr fun m _ => hf.text m
  rw [hgroup, hf.descendants, List.filter_map, List.filterMap_map]
  have hclauses : (f.descendants n).filter ((fun n => decide (n.kind = Kind.useClause)) ∘ h) =
      (f.descendants n).filter (fun n => decide (n.kind = Kind.useClause)) :=
    List.filter_congr fun m _ => by rw [Function.comp_apply, hf.fills.kind_eq]
  rw [hclauses]
  refine List.filterMap_congr fun m _ => ?_
  rw [Function.comp_apply, hf.text]

theorem Filled.imports : f'.imports = f.imports := by
  unfold SourceFile.imports
  have hkept : (f.nodesOf .useDecl).filter ((fun n => !f'.importsNoClass n) ∘ h) =
      (f.nodesOf .useDecl).filter (fun n => !f.importsNoClass n) := by
    refine List.filter_congr fun m _ => ?_
    unfold SourceFile.importsNoClass
    rw [Function.comp_apply, hf.text]
  rw [hf.nodesOf, List.filter_map, List.flatMap_map, hkept]
  refine List.flatMap_congr fun m _ => ?_
  rw [hf.importsOf, hf.fills.span_eq]

/-! ## Full names -/

theorem Filled.isClassReference (n : Node) :
    f'.isClassReference (h n) = f.isClassReference n := by
  unfold SourceFile.isClassReference
  rw [hf.parent?]
  cases f.parent? n with
  | none => rfl
  | some p =>
    rw [Option.map_some]
    dsimp only
    rw [hf.fills.kind_eq, hf.fills.children_eq, hf.fills.form_eq, hf.fills.id_eq]
    unfold Node.hasField
    rw [hf.fills.field_eq]

theorem Filled.fullName? (hv : ∀ n, (h n).value = n.value) (hns : f'.namespaces = f.namespaces)
    (n : Node) : f'.fullName? (h n) = f.fullName? n := by
  unfold SourceFile.fullName? SourceFile.namespaceAt?
  rw [hf.fills.span_eq, hf.fills.kind_eq, hv, hf.isClassReference, hf.text, hns]

end Filled

/-! ## Complete files -/

/-- The identifiers, regions and full names of a file are those that the file itself gives. -/
structure Complete (f : SourceFile) : Prop where
  value_eq : ∀ {n}, f.Has n → n.value = f.identifier? n
  namespaces_eq : f.namespaces = attach f.regions f.imports
  resolved_eq : ∀ {n}, f.Has n → n.resolved = f.fullName? n

/-- The nodes of a file are those of its outline, with identifiers and full names. -/
theorem filled_ofParts (path source : String) (rows : Outline) :
    ∃ h, Filled h (ofOutline path source rows) (ofParts path source rows) ∧
      ∀ n, (h n).value = (ofOutline path source rows).identifier? n := by
  generalize ho : ofOutline path source rows = o
  have hparts : ofParts path source rows = o.withIdentifiers.withNamespaces.withFullNames := by
    rw [← ho]
    rfl
  let name : Node → Node := fun n => { n with value := o.identifier? n }
  let resolve : Node → Node :=
    fun n => { n with resolved := o.withIdentifiers.withNamespaces.fullName? n }
  have hnodes : o.withIdentifiers.withNamespaces.withFullNames.nodes =
      (o.nodes.map name).map resolve := rfl
  rw [hparts]
  exact ⟨resolve ∘ name, ⟨fun _ => ⟨_, _, rfl⟩, by rw [hnodes, Array.map_map], rfl⟩, fun _ => rfl⟩

theorem complete_ofParts (path source : String) (rows : Outline) :
    (ofParts path source rows).Complete := by
  obtain ⟨h, hall, hvalue⟩ := filled_ofParts path source rows
  generalize hnamed : (ofOutline path source rows).withIdentifiers = named
  have hparts : ofParts path source rows = named.withNamespaces.withFullNames := by
    rw [← hnamed]
    rfl
  have hlast : Filled (fun n => { n with resolved := named.withNamespaces.fullName? n }) named
      (ofParts path source rows) := by
    rw [hparts]
    exact ⟨fun _ => ⟨_, _, rfl⟩, rfl, rfl⟩
  have hfull : Filled (fun n => { n with resolved := named.withNamespaces.fullName? n })
      named.withNamespaces (ofParts path source rows) := by
    rw [hparts]
    exact ⟨fun _ => ⟨_, _, rfl⟩, rfl, rfl⟩
  refine ⟨?_, ?_, ?_⟩
  · intro n hn
    obtain ⟨m, -, rfl⟩ := Option.map_eq_some_iff.1 ((hall.node?_eq n.id).symm.trans hn)
    rw [hvalue, hall.identifier?]
  · rw [hlast.regions fun _ => rfl, hlast.imports, hparts]
    rfl
  · intro n hn
    obtain ⟨m, -, rfl⟩ := Option.map_eq_some_iff.1 ((hfull.node?_eq n.id).symm.trans hn)
    exact (hfull.fullName? (fun _ => rfl) (by rw [hparts]; rfl) m).symm

end PhpAudit.SourceFile
