import PhpAudit.Proofs.Comment.Identifier
import PhpAudit.Proofs.Namespace.Innermost

/-!
# Namespace regions of a commented file

A region moves with its declaration (`Moved`) and keeps its name. A byte lies in the same regions before and
after, and where declared regions do not overlap, the shortest region around it is the same
(`innermostIdx?_regions`). So every region keeps its imports, and names mean what they meant
(`namespaceAt?_meaning`).
-/

namespace PhpAudit.Insertion

variable {g : Insertion} {f f' : SourceFile}

/-! ## Spans of regions -/

/-- A region and the same region with the comment. Whether a region that ends at the gap grows depends on
what it ends with. -/
structure Moved (g : Insertion) (s s' : Span) : Prop where
  start_eq : s'.start = g.start s.start
  stop_cases : (s'.stop = s.stop + g.length ∧ g.offset ≤ s.stop) ∨
    (s'.stop = s.stop ∧ s.stop ≤ g.offset)
  stop_le : s.stop ≤ g.source.utf8ByteSize

theorem Moved.contains {s s' : Span} (hm : g.Moved s s') (o : Nat) :
    s'.contains (g.start o) = s.contains o := by
  have hstart : g.start s.start ≤ g.start o ↔ s.start ≤ o := by
    rw [← Nat.not_lt, start_lt_start_iff, Nat.not_lt]
  have hstop : g.start o < s'.stop ↔ o < s.stop := by
    unfold start
    rcases hm.stop_cases with ⟨h, hle⟩ | ⟨h, hle⟩ <;> rw [h] <;> split <;> omega
  unfold Span.contains
  rw [hm.start_eq]
  simp only [hstart, hstop]

theorem Moved.length_lt (hg : g.Valid) {s s' : Span} (hm : g.Moved s s') :
    s'.length < g.commentedSource.utf8ByteSize ↔ s.length < g.source.utf8ByteSize := by
  have hpos := hg.offset_pos
  have hlt := offset_lt_source hg
  have hle := hm.stop_le
  rw [size_commentedSource]
  unfold Span.length
  rw [hm.start_eq]
  unfold start
  rcases hm.stop_cases with ⟨h, hle⟩ | ⟨h, hle⟩ <;> rw [h] <;> split <;> omega

/-- The shorter of the best region so far and the next one. -/
def shorter (best : Option (Span × Nat)) (p : Span × Nat) : Option (Span × Nat) :=
  match best with
  | none => some p
  | some b => if p.1.length < b.1.length then some p else some b

theorem innermostIdx?_eq (spans : List Span) (o : Nat) :
    Namespace.innermostIdx? spans o =
      ((spans.zipIdx.filter (fun p => p.1.contains o)).foldl shorter none).map (·.2) := rfl

theorem contains_of_forall₂ {spans spans' : List Span} (hm : List.Forall₂ g.Moved spans spans')
    {o : Nat} (h : ∀ s ∈ spans, s.contains o = false) :
    ∀ s' ∈ spans', s'.contains (g.start o) = false := by
  induction hm with
  | nil => simp
  | cons hs _ ih =>
    intro s' hs'
    rcases List.mem_cons.1 hs' with rfl | hs'
    · rw [hs.contains, h _ List.mem_cons_self]
    · exact ih (fun s hs => h s (List.mem_cons_of_mem _ hs)) s' hs'

/-- Among regions that do not overlap at most one is compared with the best so far. -/
theorem foldl_shorter_moved {o : Nat} {spans spans' : List Span}
    (hm : List.Forall₂ g.Moved spans spans')
    (hdisjoint : spans.Pairwise fun s t => ¬ (s.contains o = true ∧ t.contains o = true))
    (k : Nat) {best best' : Option (Span × Nat)} (hbest : best'.map (·.2) = best.map (·.2))
    (hlt : ∀ s s', g.Moved s s' → ∀ b ∈ best, ∀ b' ∈ best',
      (s'.length < b'.1.length ↔ s.length < b.1.length)) :
    (((spans'.zipIdx k).filter (fun p => p.1.contains (g.start o))).foldl shorter best').map (·.2) =
      (((spans.zipIdx k).filter (fun p => p.1.contains o)).foldl shorter best).map (·.2) := by
  induction hm generalizing k with
  | nil => exact hbest
  | @cons s s' spans spans' hs hrest ih =>
    obtain ⟨hhead, htail⟩ := List.pairwise_cons.1 hdisjoint
    rw [List.zipIdx_cons, List.zipIdx_cons, List.filter_cons, List.filter_cons, hs.contains]
    cases hc : s.contains o with
    | false => exact ih htail (k + 1)
    | true =>
      have hnone : ∀ t ∈ spans, t.contains o = false := by
        intro t ht
        have := hhead t ht
        rw [hc] at this
        simpa using this
      rw [if_pos rfl, if_pos rfl, Namespace.filter_zipIdx_eq_nil hnone,
        Namespace.filter_zipIdx_eq_nil (contains_of_forall₂ hrest hnone)]
      simp only [List.foldl_cons, List.foldl_nil]
      unfold shorter
      cases best with
      | none =>
        cases best' with
        | none => rfl
        | some b' => cases hbest
      | some b =>
        cases best' with
        | none => cases hbest
        | some b' =>
          dsimp only
          simp only [hlt s s' hs b rfl b' rfl]
          split
          · rfl
          · exact hbest

/-- A byte has the same innermost region with the comment. -/
theorem innermostIdx?_moved (hg : g.Valid) {spans spans' : List Span}
    (hm : List.Forall₂ g.Moved spans spans')
    (hdisjoint : spans.Pairwise fun s t => ∀ o, ¬ (s.contains o = true ∧ t.contains o = true))
    (o : Nat) :
    Namespace.innermostIdx? (⟨0, g.commentedSource.utf8ByteSize⟩ :: spans') (g.start o) =
      Namespace.innermostIdx? (⟨0, g.source.utf8ByteSize⟩ :: spans) o := by
  have hdisjoint' := hdisjoint.imp fun {s t} h => h o
  have hglobal : (⟨0, g.commentedSource.utf8ByteSize⟩ : Span).contains (g.start o) =
      (⟨0, g.source.utf8ByteSize⟩ : Span).contains o := by
    have hlt := offset_lt_source hg
    unfold Span.contains
    rw [size_commentedSource]
    unfold start
    simp only [Nat.zero_le, decide_true, Bool.true_and, decide_eq_decide]
    split <;> omega
  rw [innermostIdx?_eq, innermostIdx?_eq, List.zipIdx_cons, List.zipIdx_cons, List.filter_cons,
    List.filter_cons, hglobal]
  split
  · rw [List.foldl_cons, List.foldl_cons]
    refine foldl_shorter_moved hm hdisjoint' 1 rfl ?_
    intro s s' hs b hb b' hb'
    obtain rfl := Option.some.inj hb
    obtain rfl := Option.some.inj hb'
    exact hs.length_lt hg
  · refine foldl_shorter_moved hm hdisjoint' 1 rfl ?_
    intro s s' _ b hb
    cases hb

/-! ## Declared regions -/

theorem name_named (name : String) (s : Span) :
    (Namespace.named name s).name = ClassName.normalize name := rfl

theorem declaredRegions_cons (f : SourceFile) (decl : Node) (decls : List Node) :
    ∃ s, f.declaredRegions (decl :: decls) =
      Namespace.named (decl.value.getD "") s :: f.declaredRegions decls :=
  ⟨_, rfl⟩

theorem moved_start_stop {s : Span} (hle : s.stop ≤ g.source.utf8ByteSize) :
    g.Moved s ⟨g.start s.start, g.stop s.stop⟩ := by
  refine ⟨rfl, ?_, hle⟩
  unfold stop
  split
  · next h => exact .inr ⟨rfl, h⟩
  · next h => exact .inl ⟨rfl, by omega⟩

theorem moved_start_start {s t : Nat} (hle : t ≤ g.source.utf8ByteSize) :
    g.Moved ⟨s, t⟩ ⟨g.start s, g.start t⟩ := by
  refine ⟨rfl, ?_, hle⟩
  by_cases h : t < g.offset
  · exact .inr ⟨if_pos h, Nat.le_of_lt h⟩
  · exact .inl ⟨if_neg h, Nat.le_of_not_lt h⟩

section Regions
variable (hg : g.Valid)
include hg

theorem moved_start_size (s : Nat) :
    g.Moved ⟨s, g.source.utf8ByteSize⟩ ⟨g.start s, g.commentedSource.utf8ByteSize⟩ :=
  ⟨rfl, .inl ⟨size_commentedSource, Nat.le_of_lt (offset_lt_source hg)⟩, Nat.le_refl _⟩

theorem isBraced_lift {decl : Node} (hd : g.plain.Has decl) :
    g.commented.isBraced (g.lift g.commented decl) = g.plain.isBraced decl := by
  have ht := twin hg
  unfold SourceFile.isBraced
  rw [ht.child?_lift hd]
  cases hbody : g.plain.child? decl "body" with
  | none => rfl
  | some body =>
    rw [Option.map_some]
    dsimp only
    rw [(ht.same_child (SourceFile.mem_children_of_child? hbody)).kind_eq]

/-- The regions of declarations move with them. -/
theorem declaredRegions_moved {decls : List Node} (hd : ∀ d ∈ decls, g.plain.Has d) :
    List.Forall₂ g.Moved ((g.plain.declaredRegions decls).map (·.span))
      ((g.commented.declaredRegions (decls.map (g.lift g.commented))).map (·.span)) := by
  have ht := twin hg
  induction decls with
  | nil => exact .nil
  | cons decl decls ih =>
    have hdecl := hd decl List.mem_cons_self
    have hsame := ht.same_lift hdecl
    rw [List.map_cons]
    unfold SourceFile.declaredRegions
    refine .cons ?_ (ih fun d h => hd d (List.mem_cons_of_mem _ h))
    unfold Namespace.named
    dsimp only
    rw [isBraced_lift hg hdecl, hsame.start_eq, hsame.stop_eq]
    split
    · exact moved_start_stop (Text.bounds_of_slice? (ht.range hdecl)).2
    · cases decls with
      | nil =>
        rw [List.map_nil, ht.source_eq, ht.source_eq']
        exact moved_start_size hg decl.span.start
      | cons next decls =>
        have hnext := hd next (by simp)
        rw [List.map_cons]
        dsimp only
        rw [(ht.same_lift hnext).start_eq]
        have hbounds := Text.bounds_of_slice? (ht.range hnext)
        exact moved_start_start (Nat.le_trans hbounds.1 hbounds.2)

theorem has_nodesOf {kind : Kind} : ∀ d ∈ g.plain.nodesOf kind, g.plain.Has d :=
  fun _ => (twin hg).linked.has_of_mem_nodesOf

/-- Where declared regions do not overlap, every byte lies in the same region with the comment. -/
theorem innermostIdx?_regions
    (hdisjoint : (g.plain.declaredRegions (g.plain.nodesOf .namespaceDecl)).Pairwise
      fun r s => r.span.stop ≤ s.span.start) (o : Nat) :
    Namespace.innermostIdx? (g.commented.regions.map (·.span)) (g.start o) =
      Namespace.innermostIdx? (g.plain.regions.map (·.span)) o := by
  have ht := twin hg
  unfold SourceFile.regions SourceFile.globalRegion
  rw [List.map_cons, List.map_cons, ht.nodesOf_eq (by decide), ht.source_eq, ht.source_eq']
  refine innermostIdx?_moved hg (declaredRegions_moved hg (has_nodesOf hg)) ?_ o
  refine List.pairwise_map.2 (hdisjoint.imp fun {r s} hle o hboth => ?_)
  unfold Span.contains at hboth
  simp only [Bool.and_eq_true, decide_eq_true_iff] at hboth
  omega

variable (hc : g.Clear)
include hc

theorem declaredRegions_names {decls : List Node} (hd : ∀ d ∈ decls, g.plain.Has d)
    (hkind : ∀ d ∈ decls, d.kind = .namespaceDecl) :
    (g.commented.declaredRegions (decls.map (g.lift g.commented))).map (·.name) =
      (g.plain.declaredRegions decls).map (·.name) := by
  induction decls with
  | nil => simp only [List.map_nil, SourceFile.declaredRegions]
  | cons decl decls ih =>
    have hvalue := value_lift hg hc (hd decl List.mem_cons_self)
      (by rw [hkind decl List.mem_cons_self]; decide)
    obtain ⟨s, hs⟩ := declaredRegions_cons g.plain decl decls
    obtain ⟨s', hs'⟩ := declaredRegions_cons g.commented (g.lift g.commented decl)
      (decls.map (g.lift g.commented))
    rw [List.map_cons, hs, hs', List.map_cons, List.map_cons,
      ih (fun d h => hd d (List.mem_cons_of_mem _ h))
      fun d h => hkind d (List.mem_cons_of_mem _ h), hvalue, name_named, name_named]

theorem regions_names :
    g.commented.regions.map (·.name) = g.plain.regions.map (·.name) := by
  unfold SourceFile.regions
  rw [List.map_cons, List.map_cons, (twin hg).nodesOf_eq (by decide),
    declaredRegions_names hg hc (has_nodesOf hg) fun _ => SourceFile.kind_of_mem_nodesOf]
  unfold SourceFile.globalRegion
  rw [name_named, name_named]

/-! ## Imports -/

theorem importsNoClass_lift {n : Node} (hn : g.plain.Has n) (hkind : n.kind = .useDecl) :
    g.commented.importsNoClass (g.lift g.commented n) = g.plain.importsNoClass n := by
  have ht := twin hg
  rw [importsNoClass_eq, importsNoClass_eq]
  by_cases hs : g.Straddles n.span
  · obtain ⟨x, y, hx, hplain, hcommented⟩ := ht.text_of_straddles hn hs
    have himports := hc.imports n hn hkind
    rw [importsNoClass_eq, hplain] at himports
    rw [hplain, hcommented, saysNoClass_comment hg, Bool.eq_iff_iff]
    refine ⟨fun h => saysNoClass_append h y, fun h => ?_⟩
    obtain ⟨x', hx', hsays⟩ := himports h hs
    rw [hx] at hx'
    exact Option.some.inj hx' ▸ hsays
  · rw [ht.text_lift hn hs]

theorem importsOf_lift {n : Node} (hn : g.plain.Has n) :
    g.commented.importsOf (g.lift g.commented n) = g.plain.importsOf n := by
  have ht := twin hg
  have hgroup : ((g.commented.children (g.lift g.commented n)).find?
        (fun c => c.form == "namespace_name")).map g.commented.text =
      ((g.plain.children n).find? (fun c => c.form == "namespace_name")).map g.plain.text := by
    rw [ht.find?_children hn (q := fun c => c.form == "namespace_name"), Option.map_map]
    · refine Option.map_congr fun m hm => ?_
      have hhas := ht.linked.has_of_mem_children (List.mem_of_find?_eq_some hm)
      have hform : m.form = "namespace_name" := by simpa using List.find?_some hm
      exact text_lift hg hc hhas (.inr (by rw [hform]; decide))
    · intro c hcomment
      rw [hcomment.form_eq]
      decide
    · intro m hm
      rw [(ht.same_child hm).form_eq]
  have hclauses : (g.commented.descendants (g.lift g.commented n)).filter
        (fun m => decide (m.kind = .useClause)) =
      ((g.plain.descendants n).filter (fun m => decide (m.kind = .useClause))).map
        (g.lift g.commented) := by
    refine (ht.descendants hn).filter_map (fun c hhas hid => ?_) fun m hm => ?_
    · rw [(ht.isComment hhas hid).kind_eq]
      decide
    · rw [(ht.same_lift (ht.has_descendants hn m hm)).kind_eq]
  unfold SourceFile.importsOf
  rw [hgroup, hclauses, List.filterMap_map]
  refine List.filterMap_congr fun m hm => ?_
  obtain ⟨hm, hkind⟩ := List.mem_filter.1 hm
  have hkind : m.kind = .useClause := by simpa using hkind
  rw [Function.comp_apply, text_lift hg hc (ht.has_descendants hn m hm) (.inl (by rw [hkind]; decide))]

/-- The imports stay, and each moves with its declaration. -/
theorem imports_eq :
    g.commented.imports = g.plain.imports.map fun p => (g.start p.1, p.2) := by
  have ht := twin hg
  have hkept : (g.commented.nodesOf .useDecl).filter (fun d => !g.commented.importsNoClass d) =
      ((g.plain.nodesOf .useDecl).filter (fun d => !g.plain.importsNoClass d)).map
        (g.lift g.commented) := by
    rw [ht.nodesOf_eq (by decide), List.filter_map]
    refine congrArg _ (List.filter_congr fun d hd => ?_)
    rw [Function.comp_apply, importsNoClass_lift hg hc (has_nodesOf hg d hd)
      (SourceFile.kind_of_mem_nodesOf hd)]
  unfold SourceFile.imports
  rw [hkept, List.flatMap_map, List.map_flatMap]
  refine List.flatMap_congr fun d hd => ?_
  have hhas := has_nodesOf hg d (List.mem_filter.1 hd).1
  rw [importsOf_lift hg hc hhas, (ht.same_lift hhas).start_eq, List.map_map]
  rfl

/-! ## What names mean -/

omit hg hc in
/-- What a region gives to the names in it. -/
def meaning (ns : Namespace) : String × List Import := (ns.name, ns.imports)

omit hg hc in
theorem map_meaning_attach (regions : List Namespace) (imports : List (Nat × Import)) :
    (SourceFile.attach regions imports).map meaning =
      (regions.map (·.name)).zipIdx.map fun p =>
        (p.1, (imports.filter (fun i =>
          Namespace.innermostIdx? (regions.map (·.span)) i.1 == some p.2)).map (·.2)) := by
  unfold SourceFile.attach
  rw [List.map_map, List.zipIdx_map, List.map_map]
  rfl

omit hg hc in
theorem map_meaning_innermost? (regions : List Namespace) (imports : List (Nat × Import)) (o : Nat) :
    (Namespace.innermost? (SourceFile.attach regions imports) o).map meaning =
      (Namespace.innermostIdx? (regions.map (·.span)) o).bind
        (((SourceFile.attach regions imports).map meaning)[·]?) := by
  unfold Namespace.innermost?
  rw [SourceFile.map_span_attach, Option.map_bind]
  refine Option.bind_congr fun i _ => ?_
  rw [Function.comp_apply, List.getElem?_map]

/-- The regions give names the same meaning. -/
theorem attach_meaning :
    (SourceFile.attach g.commented.regions g.commented.imports).map meaning =
      (SourceFile.attach g.plain.regions g.plain.imports).map meaning := by
  rw [map_meaning_attach, map_meaning_attach, regions_names hg hc, imports_eq hg hc]
  refine List.map_congr_left fun p _ => ?_
  rw [List.filter_map, List.map_map]
  have hfilter : g.plain.imports.filter ((fun i =>
        Namespace.innermostIdx? (g.commented.regions.map (·.span)) i.1 == some p.2) ∘
          fun p => (g.start p.1, p.2)) =
      g.plain.imports.filter fun i =>
        Namespace.innermostIdx? (g.plain.regions.map (·.span)) i.1 == some p.2 :=
    List.filter_congr fun i _ => by rw [Function.comp_apply, hc.regions]
  rw [hfilter]
  rfl

theorem namespaceAt?_meaning (o : Nat) :
    (g.commented.namespaceAt? (g.start o)).map meaning = (g.plain.namespaceAt? o).map meaning := by
  unfold SourceFile.namespaceAt?
  rw [(complete_commented g).namespaces_eq, (complete_plain g).namespaces_eq, map_meaning_innermost?,
    map_meaning_innermost?, attach_meaning hg hc, hc.regions]

omit hg hc in
theorem resolve_of_meaning {ns ns' : Option Namespace} (h : ns'.map meaning = ns.map meaning)
    (written : String) : Namespace.resolve written ns' = Namespace.resolve written ns := by
  cases ns with
  | none =>
    rw [Option.map_none, Option.map_eq_none_iff] at h
    rw [h]
  | some ns =>
    obtain ⟨ns', rfl, heq⟩ := Option.map_eq_some_iff.1 h
    obtain ⟨hname, himports⟩ := Prod.mk.inj heq
    have hin : ∀ name, ns'.resolveIn name = ns.resolveIn name := by
      intro name
      unfold Namespace.resolveIn Namespace.import?
      rw [hname, himports]
    unfold Namespace.resolve
    simp only [hin]

end Regions

end PhpAudit.Insertion
