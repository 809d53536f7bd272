import PhpAudit.Proofs.Query.HopLimit

/-!
# Where values come from

A binding leads from a variable to the variables in the expression that its value is taken from (`LeadsTo`). The
value of an assignment ends before the variable starts, however many functions capture the variable, so a way along
assignments never comes to a node twice and ends by itself. A loop leads back as well, except from inside what it
runs over (`Mirrors.start_lt_of_leadsTo`): only there can a way turn round (`leads_back`).
-/

namespace PhpAudit.SourceFile

variable {f : SourceFile} {rows : Outline}

/-- A binding before `v` takes its value from an expression that the variable `w` stands in. -/
structure LeadsTo (f : SourceFile) (v : Node) (b : Binding) (w : Node) : Prop where
  mem : ∃ name, b ∈ f.bindings v name
  below : ∃ origin, b.origin? = some origin ∧ f.Below origin w
  is_variable : w.kind = .var

/-- An assignment leads from one variable to the other. -/
def AssignedFrom (f : SourceFile) (v w : Node) : Prop :=
  ∃ site value, f.LeadsTo v (.assigned site value) w

/-- The binding is made by a loop, and the variable stands in what this loop runs over. -/
def InOwnSource (f : SourceFile) (v : Node) (b : Binding) : Prop :=
  ∃ site source, b = .looped site source ∧ f.Below source v

/-- A binding leads from one variable to the other, which is not that of a loop that runs over the first one. -/
def LeadsOn (f : SourceFile) (v w : Node) : Prop :=
  ∃ b, f.LeadsTo v b w ∧ ¬ f.InOwnSource v b

theorem AssignedFrom.leadsOn {v w : Node} (h : f.AssignedFrom v w) : f.LeadsOn v w := by
  obtain ⟨site, value, h⟩ := h
  refine ⟨_, h, ?_⟩
  rintro ⟨site', source, heq, -⟩
  cases heq

theorem LeadsTo.has (hf : f.Linked) {v w : Node} {b : Binding} (hv : f.Has v) (h : f.LeadsTo v b w) : f.Has w := by
  obtain ⟨⟨name, hb⟩, ⟨origin, horigin, hbelow⟩, -⟩ := h
  refine hf.has_of_below ?_ hbelow
  rcases hf.stable_has.bindings hv hb with ⟨site, hsite, rfl⟩ | ⟨site, -, rfl⟩ | ⟨site, source, hsite, rfl, hhead⟩
  · exact hf.stable_has.child? hsite horigin
  · cases horigin
  · cases horigin
    exact hf.has_of_mem_children (List.mem_of_mem_head? hhead)

/-! ## The way back -/

theorem Mirrors.value_stop_le (hf : f.Mirrors rows) (ht : rows.IsTree) {v : Node} (hv : f.Has v) {name : String}
    {site value : Node} (hb : .assigned site (some value) ∈ f.bindings v name) :
    value.span.stop ≤ v.span.start := by
  have hsite := (hf.toInOrder.collects_bindingsThrough hv rfl).stop_le hf.toInOrder hv hb
  rcases hf.stable_has.bindings hv hb with ⟨site', hhas, heq⟩ | ⟨site', -, heq⟩ | ⟨site', source, -, heq, -⟩
  · obtain ⟨rfl, hvalue⟩ := Binding.assigned.inj heq
    have hchild := mem_children_of_child? hvalue.symm
    exact Nat.le_trans (hf.stop_le_of_below ht hhas (.single hchild)) hsite
  · cases heq
  · cases heq

/-- The first child of a node that starts earlier ends before every node outside of it. -/
theorem Mirrors.source_stop_le (hf : f.Mirrors rows) (ht : rows.IsTree) {v site source : Node} (hv : f.Has v)
    (hsite : f.Has site) (hhead : (f.children site).head? = some source) (hlt : site.id < v.id)
    (hout : ¬ f.Below source v) : source.span.stop ≤ v.span.start := by
  have hsource := List.mem_of_mem_head? hhead
  have hhas := hf.has_of_mem_children hsource
  by_cases hbelow : f.Below site v
  · -- a later child leads to the node
    rcases Relation.ReflTransGen.cases_head hbelow with rfl | ⟨c, hc, hcv⟩
    · exact absurd hlt (Nat.lt_irrefl _)
    have hsorted := hf.children_pairwise hsite
    obtain ⟨rest, hchildren⟩ := List.head?_eq_some_iff.1 hhead
    rw [hchildren] at hsorted hc
    rcases List.mem_cons.1 hc with rfl | hrest
    · exact absurd hcv hout
    · have hsibling := (List.pairwise_cons.1 hsorted).1 c hrest
      have hle := hf.le_of_below (hf.has_of_mem_children (hchildren ▸ hc)) hcv
      exact hf.stop_le_start ht hhas hv (Nat.lt_of_lt_of_le hsibling hle) hout
  · exact Nat.le_trans (hf.stop_le_of_below ht hsite (.single hsource)) (hf.stop_le_start ht hsite hv hlt hbelow)

/-- A binding leads to variables that start earlier, if it is not that of a loop that runs over the variable. -/
theorem Mirrors.start_lt_of_leadsTo (hf : f.Mirrors rows) (ht : rows.IsTree)
    (hspelled : ∀ row ∈ rows, Kind.ofForm row.form = .var → row.span.start < row.span.stop)
    {v w : Node} {b : Binding} (hv : f.Has v) (h : f.LeadsTo v b w) (hout : ¬ f.InOwnSource v b) :
    w.span.start < v.span.start := by
  have hw := h.has hf.toLinked hv
  obtain ⟨⟨name, hb⟩, ⟨origin, horigin, hbelow⟩, hkind⟩ := h
  have hwritten := hf.start_lt_stop hspelled hw hkind
  have hend : f.Has origin ∧ origin.span.stop ≤ v.span.start := by
    rcases hf.stable_has.bindings hv hb with ⟨site, hsite, rfl⟩ | ⟨site, -, rfl⟩ | ⟨site, source, hsite, rfl, hhead⟩
    · have hvalue : f.child? site "right" = some origin := horigin
      rw [hvalue] at hb
      exact ⟨hf.stable_has.child? hsite hvalue, hf.value_stop_le ht hv hb⟩
    · cases horigin
    · obtain rfl := Option.some.inj horigin
      have hsource : ¬ f.Below source v := fun hsource => hout ⟨site, source, rfl, hsource⟩
      have hlt := (hf.toInOrder.collects_bindingsThrough hv rfl).site_lt hf.toInOrder hv _ hb
      exact ⟨hf.has_of_mem_children (List.mem_of_mem_head? hhead),
        hf.source_stop_le ht hv hsite hhead hlt hsource⟩
  have := hf.stop_le_of_below ht hend.1 hbelow
  omega

/-- Bindings lead to variables of the file that start earlier, except from inside what a loop runs over. -/
structure LeadsBack (f : SourceFile) : Prop extends f.Linked where
  value_stop_le : ∀ {v name site value}, f.Has v → .assigned site (some value) ∈ f.bindings v name →
    value.span.stop ≤ v.span.start
  start_lt : ∀ {v w}, f.Has v → f.LeadsOn v w → w.span.start < v.span.start

theorem leadsBack_of_parse {g : Grammar} (hg : g.GivesTrees) (hspells : g.SpellsVariables) {path source : String}
    (hparse : parse g path source = .ok f) : f.LeadsBack := by
  obtain ⟨rows, hrows, rfl⟩ := ofParts_of_parse hparse
  obtain ⟨ht, -⟩ := hg source rows hrows
  have hf : (ofParts path source rows).Mirrors rows :=
    mirrors_ofParts ht path source (ofParts path source rows).suppressed
  refine ⟨hf.toLinked, fun hv hb => hf.value_stop_le ht hv hb, fun hv h => ?_⟩
  obtain ⟨b, hleads, hout⟩ := h
  exact hf.start_lt_of_leadsTo ht (hspells source rows hrows) hv hleads hout

theorem LeadsBack.has (hf : f.LeadsBack) {v w : Node} (hv : f.Has v) (h : f.LeadsOn v w) : f.Has w := by
  obtain ⟨b, hleads, -⟩ := h
  exact hleads.has hf.toLinked hv

/-- Along a way the variables start earlier and earlier. -/
theorem LeadsBack.pairwise (hf : f.LeadsBack) {way : List Node} (hfirst : ∀ v ∈ way.head?, f.Has v)
    (hway : way.IsChain f.LeadsOn) :
    (∀ v ∈ way, f.Has v) ∧ way.Pairwise fun v w => w.span.start < v.span.start := by
  induction way with
  | nil => exact ⟨fun v hv => absurd hv List.not_mem_nil, .nil⟩
  | cons v way ih =>
    have hv : f.Has v := hfirst v rfl
    cases way with
    | nil =>
      exact ⟨fun w hw => List.mem_singleton.1 hw ▸ hv, List.pairwise_singleton _ v⟩
    | cons w way =>
      obtain ⟨hstep, hway⟩ := List.isChain_cons_cons.1 hway
      obtain ⟨hhas, hfalls⟩ := ih (fun u hu => Option.some.inj hu ▸ hf.has hv hstep) hway
      have hlt := hf.start_lt hv hstep
      refine ⟨List.forall_mem_cons.2 ⟨hv, hhas⟩, List.pairwise_cons.2 ⟨fun u hu => ?_, hfalls⟩⟩
      rcases List.mem_cons.1 hu with rfl | hu
      · exact hlt
      · exact Nat.lt_trans ((List.pairwise_cons.1 hfalls).1 u hu) hlt

/-- A way comes to no node twice, so it is no longer than the file has nodes. -/
theorem LeadsBack.length_le (hf : f.LeadsBack) {way : List Node} (hfirst : ∀ v ∈ way.head?, f.Has v)
    (hway : way.IsChain f.LeadsOn) : way.Nodup ∧ way.length ≤ f.size := by
  obtain ⟨hhas, hfalls⟩ := hf.pairwise hfirst hway
  have hnodup : way.Nodup := by
    refine hfalls.imp fun {v w} hlt => ?_
    rintro rfl
    exact Nat.lt_irrefl _ hlt
  refine ⟨hnodup, ?_⟩
  have hlength := List.Nodup.length_le_of_subset hnodup fun v hv => hf.mem_nodes.2 (hhas v hv)
  rwa [Array.length_toList] at hlength

theorem LeadsBack.not_forever (hf : f.LeadsBack) {way : Nat → Node} (hfirst : f.Has (way 0)) :
    ¬ ∀ i, f.LeadsOn (way i) (way (i + 1)) := by
  intro hway
  have hfalls : ∀ i, f.Has (way i) ∧ (way i).span.start + i ≤ (way 0).span.start := by
    intro i
    induction i with
    | zero => exact ⟨hfirst, Nat.le_refl _⟩
    | succ i ih =>
      have := hf.start_lt ih.1 (hway i)
      exact ⟨hf.has ih.1 (hway i), by omega⟩
  have := (hfalls ((way 0).span.start + 1)).2
  omega

/-- A way that comes back to where it started has a step from inside what a loop runs over. -/
theorem LeadsBack.not_transGen (hf : f.LeadsBack) {v : Node} (hv : f.Has v) :
    ¬ Relation.TransGen f.LeadsOn v v := by
  have hfalls : ∀ {w}, Relation.TransGen f.LeadsOn v w → f.Has w ∧ w.span.start < v.span.start := by
    intro w h
    induction h with
    | single h => exact ⟨hf.has hv h, hf.start_lt hv h⟩
    | tail _ hstep ih => exact ⟨hf.has ih.1 hstep, Nat.lt_trans (hf.start_lt ih.1 hstep) ih.2⟩
  exact fun h => Nat.lt_irrefl _ (hfalls h).2

/-- In a parsed file every value that a variable is assigned ends before the variable starts, in whatever function
around it the assignment stands. So a way along assignments comes to no node twice and does not go on forever. A
binding that leads from a variable to itself is that of a loop that runs over the variable, and without a step from
inside what a loop runs over no way leads back to its start. -/
theorem leads_back {g : Grammar} (hg : g.GivesTrees) (hspells : g.SpellsVariables) {path source : String}
    {f : SourceFile} (hparse : parse g path source = .ok f) :
    (∀ v, f.Has v → ∀ name site value, .assigned site (some value) ∈ f.bindings v name →
      value.span.stop ≤ v.span.start) ∧
    (∀ way : List Node, (∀ v ∈ way.head?, f.Has v) → way.IsChain f.AssignedFrom →
      way.Nodup ∧ way.length ≤ f.size) ∧
    (∀ way : Nat → Node, f.Has (way 0) → ¬ ∀ i, f.AssignedFrom (way i) (way (i + 1))) ∧
    (∀ v, f.Has v → ∀ b, f.LeadsTo v b v → f.InOwnSource v b) ∧
    ∀ v, f.Has v → ¬ Relation.TransGen f.LeadsOn v v := by
  have hf := leadsBack_of_parse hg hspells hparse
  refine ⟨fun v hv name site value hb => hf.value_stop_le hv hb, fun way hfirst hway => ?_,
    fun way hfirst hway => ?_, fun v hv b hb => ?_, fun v hv => hf.not_transGen hv⟩
  · exact hf.length_le hfirst (hway.imp fun _ _ => AssignedFrom.leadsOn)
  · exact hf.not_forever hfirst fun i => (hway i).leadsOn
  · by_contra hout
    exact hf.not_transGen hv (.single ⟨b, hb, hout⟩)

/-! ## A loop over the variable that it binds -/

/-- `$b` is assigned and then bound by a loop that runs over it. -/
def turnSource : String := "<?php $b=$a;foreach($b as $b)f($b);"

/-- The outline of `turnSource`. -/
def turnOutline : Outline :=
  [⟨0, "program", none, ⟨0, 35⟩⟩, ⟨1, "php_tag", none, ⟨0, 5⟩⟩,
    ⟨1, "expression_statement", none, ⟨6, 12⟩⟩, ⟨2, "assignment_expression", none, ⟨6, 11⟩⟩,
    ⟨3, "variable_name", some "left", ⟨6, 8⟩⟩, ⟨4, "name", none, ⟨7, 8⟩⟩,
    ⟨3, "variable_name", some "right", ⟨9, 11⟩⟩, ⟨4, "name", none, ⟨10, 11⟩⟩,
    ⟨1, "foreach_statement", none, ⟨12, 35⟩⟩,
    ⟨2, "variable_name", none, ⟨20, 22⟩⟩, ⟨3, "name", none, ⟨21, 22⟩⟩,
    ⟨2, "variable_name", none, ⟨26, 28⟩⟩, ⟨3, "name", none, ⟨27, 28⟩⟩,
    ⟨2, "expression_statement", some "body", ⟨29, 35⟩⟩, ⟨3, "function_call_expression", none, ⟨29, 34⟩⟩,
    ⟨4, "name", some "function", ⟨29, 30⟩⟩, ⟨4, "arguments", some "arguments", ⟨30, 34⟩⟩,
    ⟨5, "argument", none, ⟨31, 33⟩⟩, ⟨6, "variable_name", none, ⟨31, 33⟩⟩, ⟨7, "name", none, ⟨32, 33⟩⟩]

/-- The file, parsed. -/
def turnSample : SourceFile := .ofParts "turn.php" turnSource turnOutline

/-- The `$b` in the loop's source is bound by the loop, which leads it to itself, and by the assignment, which leads
it to an earlier variable. -/
theorem leads_back_turn : ∃ g : Grammar, g.GivesTrees ∧ g.SpellsVariables ∧
    parse g "turn.php" turnSource = .ok turnSample ∧
    ∃ v a, turnSample.Has v ∧ turnSample.AssignedFrom v a ∧ (∃ b, turnSample.LeadsTo v b v) ∧
      (∀ b, turnSample.LeadsTo v b v → turnSample.InOwnSource v b) ∧
      ¬ Relation.TransGen turnSample.LeadsOn v v := by
  let g := Grammar.ofSamples [(turnSource, turnOutline)]
  have hg : g.GivesTrees := Grammar.givesTrees_ofSamples fun p hp => by
    obtain rfl := List.mem_singleton.1 hp
    exact ⟨Outline.isTree_of_isNested (by decide +kernel), by decide +kernel⟩
  have hspells : g.SpellsVariables := by
    intro source rows hrows
    obtain ⟨rfl, rfl⟩ := Prod.mk.inj (List.mem_singleton.1 (Grammar.mem_of_ofSamples hrows))
    decide +kernel
  have hparse : parse g "turn.php" turnSource = .ok turnSample :=
    parse_of_outline (by simp [g, Grammar.ofSamples]) "turn.php"
  obtain ⟨-, -, -, hself, hnever⟩ := leads_back hg hspells hparse
  let node (i : Nat) : Node := (turnSample.node? i).getD default
  have hhas : turnSample.node? (node 9).id = some (node 9) := by decide +kernel
  have hkinds : (node 9).kind = .var ∧ (node 6).kind = .var := by decide +kernel
  have hloop : .looped (node 8) (node 9) ∈ turnSample.bindings (node 9) "b" := by decide +kernel
  have hassigned : .assigned (node 3) (some (node 6)) ∈ turnSample.bindings (node 9) "b" := by decide +kernel
  refine ⟨g, hg, hspells, hparse, node 9, node 6, hhas, ?_, ⟨.looped (node 8) (node 9), ?_⟩, hself _ hhas, hnever _ hhas⟩
  · exact ⟨_, _, ⟨⟨_, hassigned⟩, ⟨_, rfl, .refl⟩, hkinds.2⟩⟩
  · exact ⟨⟨_, hloop⟩, ⟨_, rfl, .refl⟩, hkinds.1⟩

end PhpAudit.SourceFile
