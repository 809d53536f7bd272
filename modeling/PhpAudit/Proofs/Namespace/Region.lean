import PhpAudit.Proofs.Namespace.Innermost
import PhpAudit.Proofs.Tree.Lowering

/-!
# The namespace at every byte

A namespace declaration opens a scope. Where no declaration has braces, a byte belongs to the scope of the
last declaration at or before it; where all have, to that of the declaration around it; and to the scope of
the whole file where there is no such declaration (`namespaceAt?_by_declaration`). Imports follow their
declarations: the scope of a byte has the imports whose `use` belongs to the same namespace declaration as
the byte, wherever they stand in the scope.
-/

namespace PhpAudit.SourceFile

variable {f : SourceFile} {rows : Outline}

/-! ## Declarations and scopes -/

/-- The last namespace declaration that starts at or before an offset. -/
def lastDecl? (f : SourceFile) (offset : Nat) : Option Node :=
  (f.nodesOf .namespaceDecl).reverse.find? (·.start ≤ offset)

/-- The namespace declaration that an offset lies in. -/
def declAround? (f : SourceFile) (offset : Nat) : Option Node :=
  (f.nodesOf .namespaceDecl).find? (·.span.contains offset)

/-- The position of the scope of a declaration, or of the whole file. -/
def scopeIdx (f : SourceFile) : Option Node → Nat
  | none => 0
  | some decl => (f.nodesOf .namespaceDecl).idxOf decl + 1

/-- The scope that a declaration opens, or that of the whole file. -/
def scopeOf? (f : SourceFile) (decl : Option Node) : Option Namespace :=
  f.namespaces[f.scopeIdx decl]?

/-- Each byte belongs to the scope of the declaration that `declAt?` gives for it. The scope has the name of
that declaration and the imports from `use` declarations that belong to it too, and class references at
the byte are read in it. -/
structure Governs (f : SourceFile) (declAt? : Nat → Option Node) : Prop where
  namespaceAt?_eq : ∀ o < f.source.utf8ByteSize, f.namespaceAt? o = f.scopeOf? (declAt? o)
  scope : ∀ o < f.source.utf8ByteSize, ∃ ns, f.scopeOf? (declAt? o) = some ns ∧
    ns.name = ((declAt? o).map fun d => ClassName.normalize (d.value.getD "")).getD "" ∧
    ns.imports = (f.imports.filter fun p =>
      p.1 < f.source.utf8ByteSize && declAt? p.1 == declAt? o).map (·.2)
  resolved : ∀ n, f.Has n → n.start < f.source.utf8ByteSize → n.kind.isName = true →
    f.isClassReference n = true → ClassName.isRelative (f.text n) = false →
    ClassName.isBuiltinType (f.text n) = false →
      n.resolved = some (Namespace.resolve (f.text n) (f.scopeOf? (declAt? n.start)))

theorem scopeIdx_inj {d e : Option Node} (hd : ∀ n ∈ d, n ∈ f.nodesOf .namespaceDecl)
    (he : ∀ n ∈ e, n ∈ f.nodesOf .namespaceDecl) : f.scopeIdx d = f.scopeIdx e ↔ d = e := by
  cases d with
  | none => cases e <;> simp [scopeIdx]
  | some d =>
    cases e with
    | none => simp [scopeIdx]
    | some e =>
      have hmem := hd d rfl
      simp only [scopeIdx, Nat.add_right_cancel_iff, Option.some.injEq]
      exact ⟨fun h => (List.idxOf_inj hmem).1 h, fun h => by rw [h]⟩

/-- Where a declaration's region ends, given the declaration behind it. -/
def regionStop (f : SourceFile) (decl : Node) (next : Option Node) : Nat :=
  if f.isBraced decl then decl.span.stop else (next.map (·.start)).getD f.source.utf8ByteSize

theorem getElem?_declaredRegions (decls : List Node) (k : Nat) :
    (f.declaredRegions decls)[k]? = decls[k]?.map fun decl =>
      Namespace.named (decl.value.getD "") ⟨decl.start, f.regionStop decl decls[k + 1]?⟩ := by
  induction decls generalizing k with
  | nil => rfl
  | cons decl decls ih =>
    cases k with
    | succ k => exact ih k
    | zero => cases decls <;> rfl

theorem getElem?_regions_scopeIdx {decl : Option Node}
    (hd : ∀ n ∈ decl, n ∈ f.nodesOf .namespaceDecl) :
    ∃ region, f.regions[f.scopeIdx decl]? = some region ∧
      region.name = (decl.map fun d => ClassName.normalize (d.value.getD "")).getD "" := by
  cases decl with
  | none => exact ⟨f.globalRegion, rfl, rfl⟩
  | some d =>
    have hmem := hd d rfl
    have hget : (f.nodesOf .namespaceDecl)[(f.nodesOf .namespaceDecl).idxOf d]? = some d :=
      List.getElem?_idxOf hmem
    unfold regions scopeIdx
    rw [List.getElem?_cons_succ, getElem?_declaredRegions, hget]
    exact ⟨_, rfl, rfl⟩

/-- It is enough to know the position of the region at each offset. -/
theorem governs_of_regionAt? (hc : f.Complete) {declAt? : Nat → Option Node}
    (hmem : ∀ o, ∀ d ∈ declAt? o, d ∈ f.nodesOf .namespaceDecl)
    (hinside : ∀ o < f.source.utf8ByteSize, f.regionAt? o = some (f.scopeIdx (declAt? o)))
    (houtside : ∀ o, f.source.utf8ByteSize ≤ o → f.regionAt? o = none) : f.Governs declAt? := by
  have hat : ∀ o < f.source.utf8ByteSize, f.namespaceAt? o = f.scopeOf? (declAt? o) := by
    intro o ho
    rw [hc.namespaceAt?_eq, hinside o ho]
    rfl
  refine ⟨hat, fun o ho => ?_, fun n hn ho hname href hrel hbuiltin => ?_⟩
  · obtain ⟨region, hregion, hname⟩ := getElem?_regions_scopeIdx (hmem o)
    have hget := hc.getElem?_namespaces (f.scopeIdx (declAt? o))
    rw [hregion, Option.map_some] at hget
    refine ⟨_, hget, hname, ?_⟩
    refine congrArg (List.map _) (List.filter_congr fun p _ => ?_)
    by_cases hp : p.1 < f.source.utf8ByteSize
    · rw [hinside p.1 hp]
      rw [Bool.eq_iff_iff]
      simp [hp, scopeIdx_inj (hmem p.1) (hmem o)]
    · simp [hp, houtside p.1 (Nat.le_of_not_lt hp)]
  · have hclass : n.kind.isClassLike = false := by
      revert hname
      cases n.kind <;> decide
    rw [hc.resolved_eq hn]
    unfold fullName?
    simp [hclass, hname, href, hrel, hbuiltin, hat n.span.start ho, Node.start]

/-! ## Regions do not overlap -/

theorem span_of_mem_declaredRegions {decls : List Node} {region : Namespace}
    (h : region ∈ f.declaredRegions decls) : ∃ k decl, decls[k]? = some decl ∧
      region.span = ⟨decl.start, f.regionStop decl decls[k + 1]?⟩ := by
  obtain ⟨k, hk⟩ := List.mem_iff_getElem?.1 h
  rw [getElem?_declaredRegions] at hk
  obtain ⟨decl, hdecl, rfl⟩ := Option.map_eq_some_iff.1 hk
  exact ⟨k, decl, hdecl, rfl⟩

/-- Declarations in source order, none of which has another inside its braces. -/
def Separate (f : SourceFile) (decls : List Node) : Prop :=
  decls.Pairwise fun d e => d.start ≤ e.start ∧ (f.isBraced d = true → d.span.stop ≤ e.start)

theorem declaredRegions_pairwise {decls : List Node} (h : f.Separate decls) :
    (f.declaredRegions decls).Pairwise fun r s => r.span.stop ≤ s.span.start := by
  induction decls with
  | nil => exact .nil
  | cons decl decls ih =>
    obtain ⟨hhead, htail⟩ := List.pairwise_cons.1 h
    unfold declaredRegions
    refine List.pairwise_cons.2 ⟨fun region hregion => ?_, ih htail⟩
    obtain ⟨k, e, hk, hspan⟩ := span_of_mem_declaredRegions hregion
    have he := List.mem_of_getElem? hk
    rw [hspan]
    unfold Namespace.named
    dsimp only
    split
    · next hbraced => exact (hhead e he).2 hbraced
    · cases decls with
      | nil => cases he
      | cons next decls =>
        rcases List.mem_cons.1 he with rfl | he
        · exact Nat.le_refl _
        · exact ((List.pairwise_cons.1 htail).1 e he).1

/-- The region of a declaration that starts behind offset zero is shorter than the file, so it is the
innermost one of its bytes. -/
theorem regionAt?_of_decl (hsep : f.Separate (f.nodesOf .namespaceDecl)) {o k : Nat} {decl : Node}
    (hk : (f.nodesOf .namespaceDecl)[k]? = some decl) (hpos : 0 < decl.start) (hstart : decl.start ≤ o)
    (hstop : o < f.regionStop decl (f.nodesOf .namespaceDecl)[k + 1]?)
    (hle : f.regionStop decl (f.nodesOf .namespaceDecl)[k + 1]? ≤ f.source.utf8ByteSize) :
    f.regionAt? o = some (k + 1) := by
  have hregion := getElem?_declaredRegions (f := f) (f.nodesOf .namespaceDecl) k
  rw [hk, Option.map_some] at hregion
  unfold regionAt? regions
  rw [List.map_cons]
  refine Namespace.innermostIdx?_cons_of_contains (List.pairwise_map.2 (declaredRegions_pairwise hsep)) ?_
    (by rw [List.getElem?_map, hregion, Option.map_some]) ?_ ?_
  · simp [globalRegion, Namespace.named, Span.contains, Nat.lt_of_lt_of_le hstop hle]
  · simp [Namespace.named, Span.contains, hstart, hstop]
  · simp only [globalRegion, Namespace.named, Span.length]
    omega

theorem regionAt?_of_outside {o : Nat} (ho : o < f.source.utf8ByteSize)
    (h : ∀ region ∈ f.declaredRegions (f.nodesOf .namespaceDecl), region.span.contains o = false) :
    f.regionAt? o = some 0 := by
  unfold regionAt? regions
  rw [List.map_cons]
  refine Namespace.innermostIdx?_cons_of_outside ?_ ?_
  · simp [globalRegion, Namespace.named, Span.contains, ho]
  · simpa using h

/-! ## Files of one kind of declaration -/

theorem getElem?_idxOf_succ {decls before behind : List Node} {decl : Node} (hnodup : decls.Nodup)
    (hsplit : decls = before ++ decl :: behind) : decls[decls.idxOf decl + 1]? = behind.head? := by
  subst hsplit
  have hnew : decl ∉ before := fun hin =>
    (List.nodup_append.1 hnodup).2.2 decl hin decl List.mem_cons_self rfl
  rw [List.idxOf_append_of_notMem hnew, List.idxOf_cons_self, Nat.add_zero]
  simp [List.getElem?_append, List.head?_eq_getElem?]

section OneKind

variable (hc : f.Complete) (hsep : f.Separate (f.nodesOf .namespaceDecl))
  (hnodup : (f.nodesOf .namespaceDecl).Nodup)
  (hpos : ∀ d ∈ f.nodesOf .namespaceDecl, 0 < d.start)
  (hend : ∀ d ∈ f.nodesOf .namespaceDecl, d.start ≤ f.source.utf8ByteSize ∧
    d.span.stop ≤ f.source.utf8ByteSize)
include hend

theorem regionStop_le {k : Nat} {decl : Node} (hk : (f.nodesOf .namespaceDecl)[k]? = some decl) :
    f.regionStop decl (f.nodesOf .namespaceDecl)[k + 1]? ≤ f.source.utf8ByteSize := by
  unfold regionStop
  split
  · exact (hend decl (List.mem_of_getElem? hk)).2
  · cases hnext : (f.nodesOf .namespaceDecl)[k + 1]? with
    | none => exact Nat.le_refl _
    | some next => exact (hend next (List.mem_of_getElem? hnext)).1

theorem regionAt?_of_size_le {o : Nat} (ho : f.source.utf8ByteSize ≤ o) : f.regionAt? o = none := by
  refine Namespace.innermostIdx?_of_outside fun s hs => ?_
  obtain ⟨region, hregion, rfl⟩ := List.mem_map.1 hs
  rcases List.mem_cons.1 hregion with rfl | hregion
  · simp [globalRegion, Namespace.named, Span.contains, Nat.not_lt.2 ho]
  · obtain ⟨k, decl, hk, hspan⟩ := span_of_mem_declaredRegions hregion
    have := regionStop_le hend hk
    simp only [hspan, Span.contains, Bool.and_eq_false_iff, decide_eq_false_iff_not]
    omega

include hc hsep hpos

include hnodup in
theorem governs_lastDecl? (hunbraced : ∀ d ∈ f.nodesOf .namespaceDecl, f.isBraced d = false) :
    f.Governs f.lastDecl? := by
  refine governs_of_regionAt? hc (fun o d hd => ?_) (fun o ho => ?_) fun o =>
    regionAt?_of_size_le hend
  · exact List.mem_reverse.1 (List.mem_of_find?_eq_some hd)
  cases hlast : f.lastDecl? o with
  | none =>
    refine regionAt?_of_outside ho fun region hregion => ?_
    obtain ⟨k, decl, hk, hspan⟩ := span_of_mem_declaredRegions hregion
    have := List.find?_eq_none.1 hlast decl (List.mem_reverse.2 (List.mem_of_getElem? hk))
    simp only [hspan, Span.contains, Bool.and_eq_false_iff]
    exact .inl (by simpa using this)
  | some decl =>
    -- The declarations in `before` follow the last one and start behind the offset, so that its region
    -- reaches past the offset.
    obtain ⟨hstart, before, behind, hsplit, hlater⟩ := List.find?_eq_some_iff_append.1 hlast
    have hdecls : f.nodesOf .namespaceDecl = behind.reverse ++ decl :: before.reverse := by
      rw [← List.reverse_reverse (f.nodesOf .namespaceDecl), hsplit]
      simp
    have hmem : decl ∈ f.nodesOf .namespaceDecl := by
      rw [hdecls]
      simp
    have hget := List.getElem?_idxOf hmem
    refine regionAt?_of_decl hsep hget (hpos decl hmem) (by simpa using hstart) ?_
      (regionStop_le hend hget)
    unfold regionStop
    rw [getElem?_idxOf_succ hnodup hdecls, hunbraced decl hmem]
    cases hhead : before.reverse.head? with
    | none => exact ho
    | some next =>
      have := hlater next (List.mem_reverse.1 (List.mem_of_mem_head? hhead))
      simpa using this

theorem governs_declAround? (hbraced : ∀ d ∈ f.nodesOf .namespaceDecl, f.isBraced d = true) :
    f.Governs f.declAround? := by
  have hstop : ∀ {k decl}, (f.nodesOf .namespaceDecl)[k]? = some decl →
      f.regionStop decl (f.nodesOf .namespaceDecl)[k + 1]? = decl.span.stop := fun hk =>
    if_pos (hbraced _ (List.mem_of_getElem? hk))
  refine governs_of_regionAt? hc (fun o d => List.mem_of_find?_eq_some) (fun o ho => ?_) fun o =>
    regionAt?_of_size_le hend
  cases haround : f.declAround? o with
  | none =>
    refine regionAt?_of_outside ho fun region hregion => ?_
    obtain ⟨k, decl, hk, hspan⟩ := span_of_mem_declaredRegions hregion
    have := List.find?_eq_none.1 haround decl (List.mem_of_getElem? hk)
    rw [hspan, hstop hk]
    exact Bool.eq_false_iff.2 this
  | some decl =>
    have hmem := List.mem_of_find?_eq_some haround
    have hget := List.getElem?_idxOf hmem
    have hcontains := List.find?_some haround
    obtain ⟨hle, hlt⟩ := Namespace.contains_iff.1 hcontains
    refine regionAt?_of_decl hsep hget (hpos decl hmem) hle ?_ (regionStop_le hend hget)
    rw [hstop hget]
    exact hlt

end OneKind

/-! ## Parsed files -/

theorem Separate.start_pos {decls : List Node} (hsep : f.Separate decls)
    (hfirst : ∀ d ∈ decls.head?, 0 < d.start) : ∀ d ∈ decls, 0 < d.start := by
  cases decls with
  | nil => simp
  | cons first decls =>
    intro d hd
    have hpos : 0 < first.start := hfirst first rfl
    rcases List.mem_cons.1 hd with rfl | hd
    · exact hpos
    · exact Nat.lt_of_lt_of_le hpos ((List.pairwise_cons.1 hsep).1 d hd).1

theorem Linked.nodesOf_pairwise (hf : f.Linked) (kind : Kind) :
    (f.nodesOf kind).Pairwise (·.id < ·.id) :=
  hf.nodes_pairwise.filter _

theorem Linked.nodup_nodesOf (hf : f.Linked) (kind : Kind) : (f.nodesOf kind).Nodup := by
  refine (hf.nodesOf_pairwise kind).imp fun hlt heq => ?_
  rw [heq] at hlt
  exact Nat.lt_irrefl _ hlt

theorem Mirrors.separate (hf : f.Mirrors rows) (ht : rows.IsTree)
    (hnest : ∀ d ∈ f.nodesOf .namespaceDecl, ∀ e ∈ f.nodesOf .namespaceDecl,
      e ∈ f.descendants d → e = d) : f.Separate (f.nodesOf .namespaceDecl) := by
  refine (hf.nodesOf_pairwise .namespaceDecl).imp_of_mem fun {d e} hd he hlt => ?_
  have hhas := hf.has_of_mem_nodesOf hd
  have hhas' := hf.has_of_mem_nodesOf he
  refine ⟨hf.start_le hhas hhas' (Nat.le_of_lt hlt), fun _ => ?_⟩
  refine hf.stop_le_start ht hhas hhas' hlt fun hbelow => ?_
  have heq := hnest d hd e he ((hf.mem_descendants hhas).2 hbelow)
  exact Nat.ne_of_gt hlt (congrArg (·.id) heq)

/-- Where the first namespace declaration of a parsed file starts behind offset zero and none is inside
another, the scope at every byte is that of the last declaration so far if none has braces, and that of the
declaration around the byte if all have. -/
theorem namespaceAt?_by_declaration {g : Grammar} (hg : g.GivesTrees) {path source : String}
    (hparse : parse g path source = .ok f)
    (hfirst : ∀ d ∈ (f.nodesOf .namespaceDecl).head?, 0 < d.start)
    (hnest : ∀ d ∈ f.nodesOf .namespaceDecl, ∀ e ∈ f.nodesOf .namespaceDecl,
      e ∈ f.descendants d → e = d) :
    ((∀ d ∈ f.nodesOf .namespaceDecl, f.isBraced d = false) → f.Governs f.lastDecl?) ∧
      ((∀ d ∈ f.nodesOf .namespaceDecl, f.isBraced d = true) → f.Governs f.declAround?) := by
  obtain ⟨rows, ht, hroot, hf, hc⟩ := mirrors_of_parse hg hparse
  have hsep := hf.separate ht hnest
  have hpos := hsep.start_pos hfirst
  have hnodup := hf.nodup_nodesOf .namespaceDecl
  have hend : ∀ d ∈ f.nodesOf .namespaceDecl,
      d.start ≤ f.source.utf8ByteSize ∧ d.span.stop ≤ f.source.utf8ByteSize := by
    intro d hd
    have hhas := hf.has_of_mem_nodesOf hd
    have hstop := Nat.le_trans (hf.stop_le_root ht hhas) hroot
    exact ⟨Nat.le_trans (hf.start_le_stop ht hhas) hstop, hstop⟩
  exact ⟨governs_lastDecl? hc hsep hnodup hpos hend, governs_declAround? hc hsep hpos hend⟩

/-- Two scopes of one name, each with its own import behind the reference. -/
def twoScopesSource : String :=
  "<?php namespace A; new B; use X\\B; namespace A; new B; use Y\\B;"

/-- The outline of `twoScopesSource`. -/
def twoScopesOutline : Outline :=
  [⟨0, "program", none, ⟨0, 63⟩⟩, ⟨1, "php_tag", none, ⟨0, 5⟩⟩,
    ⟨1, "namespace_definition", none, ⟨6, 18⟩⟩, ⟨2, "namespace_name", some "name", ⟨16, 17⟩⟩,
    ⟨3, "name", none, ⟨16, 17⟩⟩,
    ⟨1, "expression_statement", none, ⟨19, 25⟩⟩, ⟨2, "object_creation_expression", none, ⟨19, 24⟩⟩,
    ⟨3, "name", none, ⟨23, 24⟩⟩,
    ⟨1, "namespace_use_declaration", none, ⟨26, 34⟩⟩, ⟨2, "namespace_use_clause", none, ⟨30, 33⟩⟩,
    ⟨3, "qualified_name", none, ⟨30, 33⟩⟩, ⟨4, "namespace_name_as_prefix", none, ⟨30, 32⟩⟩,
    ⟨5, "namespace_name", none, ⟨30, 31⟩⟩, ⟨6, "name", none, ⟨30, 31⟩⟩, ⟨4, "name", none, ⟨32, 33⟩⟩,
    ⟨1, "namespace_definition", none, ⟨35, 47⟩⟩, ⟨2, "namespace_name", some "name", ⟨45, 46⟩⟩,
    ⟨3, "name", none, ⟨45, 46⟩⟩,
    ⟨1, "expression_statement", none, ⟨48, 54⟩⟩, ⟨2, "object_creation_expression", none, ⟨48, 53⟩⟩,
    ⟨3, "name", none, ⟨52, 53⟩⟩,
    ⟨1, "namespace_use_declaration", none, ⟨55, 63⟩⟩, ⟨2, "namespace_use_clause", none, ⟨59, 62⟩⟩,
    ⟨3, "qualified_name", none, ⟨59, 62⟩⟩, ⟨4, "namespace_name_as_prefix", none, ⟨59, 61⟩⟩,
    ⟨5, "namespace_name", none, ⟨59, 60⟩⟩, ⟨6, "name", none, ⟨59, 60⟩⟩, ⟨4, "name", none, ⟨61, 62⟩⟩]

/-- A scope in braces, and a reference behind it. -/
def bracedSource : String := "<?php namespace A \x7b use X\\B; new B; \x7d new B;"

/-- The outline of `bracedSource`. -/
def bracedOutline : Outline :=
  [⟨0, "program", none, ⟨0, 44⟩⟩, ⟨1, "php_tag", none, ⟨0, 5⟩⟩,
    ⟨1, "namespace_definition", none, ⟨6, 37⟩⟩, ⟨2, "namespace_name", some "name", ⟨16, 17⟩⟩,
    ⟨3, "name", none, ⟨16, 17⟩⟩, ⟨2, "compound_statement", some "body", ⟨18, 37⟩⟩,
    ⟨3, "namespace_use_declaration", none, ⟨20, 28⟩⟩, ⟨4, "namespace_use_clause", none, ⟨24, 27⟩⟩,
    ⟨5, "qualified_name", none, ⟨24, 27⟩⟩, ⟨6, "namespace_name_as_prefix", none, ⟨24, 26⟩⟩,
    ⟨7, "namespace_name", none, ⟨24, 25⟩⟩, ⟨8, "name", none, ⟨24, 25⟩⟩, ⟨6, "name", none, ⟨26, 27⟩⟩,
    ⟨3, "expression_statement", none, ⟨29, 35⟩⟩, ⟨4, "object_creation_expression", none, ⟨29, 34⟩⟩,
    ⟨5, "name", none, ⟨33, 34⟩⟩,
    ⟨1, "expression_statement", none, ⟨38, 44⟩⟩, ⟨2, "object_creation_expression", none, ⟨38, 43⟩⟩,
    ⟨3, "name", none, ⟨42, 43⟩⟩]

theorem namespaceAt?_twoScopes :
    let f := ofParts "a.php" twoScopesSource twoScopesOutline
    let h := ofParts "b.php" bracedSource bracedOutline
    (f.Governs f.lastDecl? ∧ (f.lastDecl? 5).isNone ∧
      (f.lastDecl? 34).map (·.id) = some 2 ∧ (f.lastDecl? 35).map (·.id) = some 15 ∧
      (f.node? 7).bind (·.resolved) = some "X\\B" ∧ (f.node? 20).bind (·.resolved) = some "Y\\B") ∧
    (h.Governs h.declAround? ∧ (h.declAround? 36).map (·.id) = some 2 ∧ (h.declAround? 37).isNone ∧
      (h.node? 15).bind (·.resolved) = some "X\\B" ∧ (h.node? 18).bind (·.resolved) = some "B") := by
  intro f h
  have hf : twoScopesOutline.IsTree := by constructor <;> decide +kernel
  have hh : bracedOutline.IsTree := by constructor <;> decide +kernel
  let g := Grammar.ofSamples [(twoScopesSource, twoScopesOutline), (bracedSource, bracedOutline)]
  have hg : g.GivesTrees := by
    refine Grammar.givesTrees_ofSamples ?_
    simpa using ⟨⟨hf, by decide +kernel⟩, hh, by decide +kernel⟩
  have hparse : parse g "a.php" twoScopesSource = .ok f := parse_of_outline (by decide +kernel) "a.php"
  have hparse' : parse g "b.php" bracedSource = .ok h := parse_of_outline (by decide +kernel) "b.php"
  have hscopes := (namespaceAt?_by_declaration hg hparse (by decide +kernel) (by decide +kernel)).1
    (by decide +kernel)
  have hbraces := (namespaceAt?_by_declaration hg hparse' (by decide +kernel) (by decide +kernel)).2
    (by decide +kernel)
  exact ⟨⟨hscopes, by decide +kernel⟩, ⟨hbraces, by decide +kernel⟩⟩

end PhpAudit.SourceFile
