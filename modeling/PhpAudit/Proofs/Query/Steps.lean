import PhpAudit.Proofs.Query.Flow
import PhpAudit.Proofs.Tree.Walk

/-!
# Where the steps of a query lead

Every query walks from its node along children, parents and the root of the file. So a set of nodes that is
closed under these (`Stable`) is closed under bindings, parts, origins, type sources and the heads of
chains. The nodes of a linked file are such a set, and so are those that hang from its root.
-/

namespace PhpAudit.SourceFile

/-- A set of nodes that holds the root and no step leaves. -/
structure Stable (f : SourceFile) (P : Node → Prop) : Prop where
  root : ∀ {n}, f.root? = some n → P n
  child : ∀ {n m}, P n → m ∈ f.children n → P m
  parent : ∀ {n m}, P n → f.parent? n = some m → P m

variable {f : SourceFile} {P : Node → Prop}

theorem Linked.stable_has (hf : f.Linked) : f.Stable f.Has :=
  ⟨hf.has, fun _ hm => hf.has_of_mem_children hm, fun _ hm => hf.has_of_parent? hm⟩

theorem Linked.stable_rooted (hf : f.Linked) : f.Stable f.Rooted :=
  ⟨rooted_root, Rooted.child, fun hn hm => hn.parent hf hm⟩

/-! ## Walks -/

theorem Stable.preorder (hs : f.Stable P) {enter : Node → Bool} {n : Node} (hn : P n) :
    ∀ m ∈ f.preorder enter n, P m := by
  have onto : ∀ (fuel : Nat) (n : Node) (rest : List Node), P n → (∀ m ∈ rest, P m) →
      ∀ m ∈ f.preorderOnto enter fuel n rest, P m := by
    intro fuel
    induction fuel with
    | zero => exact fun _ _ _ hrest => hrest
    | succ fuel ih =>
      intro n rest hn hrest
      have hfold : ∀ ms : List Node, (∀ m ∈ ms, P m) →
          ∀ m ∈ ms.foldr (f.preorderOnto enter fuel) rest, P m := by
        intro ms
        induction ms with
        | nil => exact fun _ => hrest
        | cons c ms ihms =>
          intro hms
          exact ih c _ (hms c List.mem_cons_self)
            (ihms fun m hm => hms m (List.mem_cons_of_mem _ hm))
      unfold preorderOnto
      split
      · intro m hm
        rcases List.mem_cons.1 hm with rfl | hm
        · exact hn
        · exact hfold _ (fun c hc => hs.child hn hc) m hm
      · exact hrest
  exact onto _ n [] hn (by simp)

theorem Stable.ancestors (hs : f.Stable P) {n : Node} (hn : P n) : ∀ a ∈ f.ancestors n, P a :=
  fun a ha => trailFrom_forall hs.parent hn a (List.mem_of_mem_tail ha)

theorem Stable.trail (hs : f.Stable P) {step : Node → Option Node} (hd : f.Descends step) {n : Node}
    (hn : P n) : ∀ m ∈ f.trail step n, P m :=
  trailFrom_forall (fun hn hm => hs.child hn (hd hm)) hn

theorem Stable.child? (hs : f.Stable P) {n m : Node} {field : String} (hn : P n)
    (h : f.child? n field = some m) : P m :=
  hs.child hn (mem_children_of_child? h)

theorem Stable.destination? (hs : f.Stable P) {step : Node → Option Node} (hd : f.Descends step)
    {unfinished : Node → Bool} {n m : Node} (hn : P n)
    (h : f.destination? step unfinished n = some m) : P m := by
  obtain ⟨hlast, -⟩ := Option.filter_eq_some_iff.1 h
  exact hs.trail hd hn m (List.mem_of_getLast? hlast)

/-! ## Bindings -/

/-- What a site binds a variable to: the right side of an assignment, nothing in sight for a parameter,
the first child of a loop. -/
theorem binding?_cases {cursor site : Node} {name : String} {b : Binding}
    (h : f.binding? cursor name site = some b) :
    b = .assigned site (f.child? site "right") ∨ b = .received site ∨
      ∃ source, b = .looped site source ∧ (f.children site).head? = some source := by
  unfold binding? at h
  split at h
  · unfold assignment? at h
    split at h
    · cases h
    · obtain ⟨target, -, h⟩ := Option.bind_eq_some_iff.1 h
      split at h
      · exact .inl (Option.some.inj h).symm
      · cases h
  · split at h
    · exact .inr (.inl (Option.some.inj h).symm)
    · cases h
  · unfold loop? at h
    split at h
    · cases h
    · next source rest hchildren =>
      split at h
      · exact .inr (.inr ⟨source, (Option.some.inj h).symm, by rw [hchildren]; rfl⟩)
      · cases h
  · cases h

/-- A binding is made at a node of one of the functions searched or of the file. -/
theorem site_of_mem_bindingsThrough {cursor : Node} {name : String} {functions : List Node}
    {b : Binding} (h : b ∈ f.bindingsThrough name cursor functions) :
    ∃ boundary cursor' site, (boundary ∈ functions ∨ f.root? = some boundary) ∧
      site ∈ f.nodesBefore cursor' boundary ∧ f.binding? cursor' name site = some b := by
  have inside : ∀ {cursor boundary}, b ∈ f.bindingsIn name cursor boundary →
      ∃ site ∈ f.nodesBefore cursor boundary, f.binding? cursor name site = some b := by
    intro cursor boundary h
    obtain ⟨site, hsite, hb⟩ := List.mem_filterMap.1 h
    exact ⟨site, List.mem_reverse.1 hsite, hb⟩
  induction functions generalizing cursor with
  | nil =>
    unfold bindingsThrough at h
    split at h
    · next root hroot =>
      obtain ⟨site, hsite, hb⟩ := inside h
      exact ⟨root, cursor, site, .inr hroot, hsite, hb⟩
    · cases h
  | cons function outer ih =>
    unfold bindingsThrough at h
    rcases List.mem_append.1 h with h | h
    · obtain ⟨site, hsite, hb⟩ := inside h
      exact ⟨function, cursor, site, .inl List.mem_cons_self, hsite, hb⟩
    · split at h
      · obtain ⟨boundary, cursor', site, hboundary, hsite, hb⟩ := ih h
        exact ⟨boundary, cursor', site, hboundary.imp_left (List.mem_cons_of_mem _), hsite, hb⟩
      · cases h

theorem Stable.bindings (hs : f.Stable P) {n : Node} (hn : P n) {name : String} {b : Binding}
    (h : b ∈ f.bindings n name) :
    (∃ site, P site ∧ b = .assigned site (f.child? site "right")) ∨
      (∃ site, P site ∧ b = .received site) ∨
      ∃ site source, P site ∧ b = .looped site source ∧ (f.children site).head? = some source := by
  obtain ⟨boundary, cursor, site, hboundary, hsite, hb⟩ := site_of_mem_bindingsThrough h
  have hP : P boundary :=
    hboundary.elim (fun h => hs.ancestors hn boundary (List.mem_filter.1 h).1) hs.root
  have hsite := hs.preorder hP site hsite
  rcases binding?_cases hb with rfl | rfl | ⟨source, rfl, hhead⟩
  · exact .inl ⟨site, hsite, rfl⟩
  · exact .inr (.inl ⟨site, hsite, rfl⟩)
  · exact .inr (.inr ⟨site, source, hsite, rfl, hhead⟩)

/-! ## Flow steps -/

theorem Stable.origin (hs : f.Stable P) {n m : Node} (hn : P n) (h : f.Origin n m) : P m := by
  cases h with
  | assigned hk _ hb hm =>
    rw [ownBindings_of_var hk] at hb
    obtain rfl := Except.ok.inj hb
    rcases hs.bindings hn hm with ⟨site, hsite, h⟩ | ⟨site, -, h⟩ | ⟨site, source, -, h, -⟩
    · injection h with _ h
      exact hs.child? hsite h.symm
    · cases h
    · cases h
  | looped hk _ hb hm =>
    rw [ownBindings_of_var hk] at hb
    obtain rfl := Except.ok.inj hb
    rcases hs.bindings hn hm with ⟨site, -, h⟩ | ⟨site, -, h⟩ | ⟨site, source, hsite, h, hhead⟩
    · cases h
    · cases h
    · injection h with _ h
      subst h
      exact hs.child hsite (List.mem_of_mem_head? hhead)

theorem Stable.argumentList? (hs : f.Stable P) {n list : Node} (hn : P n)
    (h : f.argumentList? n = some list) : P list := by
  unfold SourceFile.argumentList? at h
  split at h
  · rw [Option.orElse_eq_orElse, Option.orElse_eq_or] at h
    rcases Option.or_eq_some_iff.1 h with h | ⟨-, h⟩
    · exact hs.child? hn h
    · exact hs.child hn (mem_children_of_firstOf? h)
  · cases h

theorem Stable.arguments (hs : f.Stable P) {n : Node} (hn : P n) : ∀ m ∈ f.arguments n, P m := by
  intro m h
  unfold SourceFile.arguments at h
  split at h
  · cases h
  · next list hlist =>
    have hP := hs.argumentList? hn hlist
    obtain ⟨a, ha, rfl⟩ := List.mem_map.1 h
    have ha := hs.child hP (List.mem_filter.1 ha).1
    unfold argumentValue
    cases hv : (f.children a).find? (fun c => !c.hasField "name") with
    | none => exact ha
    | some v => exact hs.child ha (List.mem_of_find?_eq_some hv)

theorem Stable.part (hs : f.Stable P) {n m : Node} (hn : P n) (h : f.Part n m) : P m := by
  cases h with
  | element _ hm => exact hs.child hn (List.mem_of_mem_head? hm)
  | assigned _ hm => exact hs.child? hn hm
  | piece _ hm _ => exact hs.child hn hm
  | passed _ _ hm => exact hs.arguments hn m hm
  | cast _ _ _ hm _ => exact hs.child hn hm
  | operand _ _ _ hm _ => exact hs.child hn hm
  | branch _ _ hm _ => exact hs.child hn hm
  | inner _ _ hm _ => exact hs.child hn hm

/-! ## Heads of chains and type sources -/

theorem descends_wrapped? : f.Descends f.wrapped? := by
  intro n m h
  unfold wrapped? at h
  split at h
  · exact List.mem_of_find?_eq_some h
  · exact mem_children_of_child? h
  · exact mem_children_of_child? h
  · split at h
    · exact List.mem_of_mem_head? h
    · cases h
  · cases h

theorem descends_linkTarget? : f.Descends f.linkTarget? := by
  intro n m h
  unfold linkTarget? at h
  split at h
  · exact mem_children_of_child? h
  · exact mem_children_of_child? h
  · exact mem_children_of_child? h
  · exact List.mem_of_mem_head? h
  · split at h
    · exact List.mem_of_mem_head? h
    · cases h

theorem descends_memberTarget? : f.Descends f.memberTarget? := by
  intro n m h
  unfold memberTarget? at h
  split at h
  · exact mem_children_of_child? h
  · exact mem_children_of_child? h
  · cases h

theorem descends_subscriptBase? : f.Descends f.subscriptBase? := by
  intro n m h
  unfold subscriptBase? at h
  split at h
  · exact List.mem_of_mem_head? h
  · cases h

theorem Stable.typeSource? (hs : f.Stable P) {n m : Node} (hn : P n)
    (h : f.typeSource? n = some m) : P m :=
  hs.destination? descends_wrapped? hn h

theorem Stable.receiver? (hs : f.Stable P) {n m : Node} (hn : P n) (h : f.receiver? n = some m) :
    P m := by
  unfold SourceFile.receiver? at h
  split at h
  · exact hs.child? hn h
  · exact hs.child? hn h
  · cases h

theorem Stable.chainHead? (hs : f.Stable P) {n m : Node} (hn : P n)
    (h : f.chainHead? n = some m) : P m := by
  obtain ⟨receiver, hr, hm⟩ := Option.bind_eq_some_iff.1 h
  exact hs.destination? descends_linkTarget? (hs.receiver? hn hr) hm

theorem Stable.bindingSource? (hs : f.Stable P) {n m : Node} (hn : P n) {name : String}
    {b : Binding} (hb : b ∈ f.bindings n name) (h : Context.bindingSource? b = some m) : P m := by
  rcases hs.bindings hn hb with ⟨site, hsite, rfl⟩ | ⟨site, hsite, rfl⟩ | ⟨site, source, -, rfl, -⟩
  · exact hs.child? hsite h
  · exact Option.some.inj h ▸ hsite
  · cases h

end PhpAudit.SourceFile
