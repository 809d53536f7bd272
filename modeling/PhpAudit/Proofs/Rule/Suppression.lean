import PhpAudit.Proofs.Rule.Notices

/-!
# No rule looks at suppressed lines

Which lines of a file are suppressed decides what a scan shows, not what it finds. The answers about a file are
read off its text, its nodes and its regions, so they stay when other lines are suppressed
(`SourceFile.suppressing`). Answers that are made by a recursion need an induction of their own: walks, bindings,
classes and the search for outside input. The others follow, up to the findings of the built-in rules
(`findings_suppressing`) and the classes that a file declares (`build_suppressing`).
-/

namespace PhpAudit

namespace SourceFile

/-- The file with the given lines suppressed. -/
def suppressing (f : SourceFile) (lines : List Nat) : SourceFile :=
  { f with suppressed := lines }

variable (f : SourceFile) (lines : List Nat)

/-! ## Walks -/

theorem preorder_suppressing : (f.suppressing lines).preorder = f.preorder := by
  have hfuel : ∀ enter fuel, (f.suppressing lines).preorderOnto enter fuel = f.preorderOnto enter fuel := by
    intro enter fuel
    induction fuel with
    | zero => rfl
    | succ fuel ih =>
      funext n rest
      rw [preorderOnto, preorderOnto, ih]
      rfl
  funext enter n
  unfold preorder
  rw [hfuel]
  rfl

theorem descendants_suppressing : (f.suppressing lines).descendants = f.descendants := by
  funext n
  unfold descendants
  rw [preorder_suppressing]

theorem mentions_suppressing : (f.suppressing lines).mentions = f.mentions := by
  funext name n
  unfold mentions
  rw [descendants_suppressing]

theorem declaredType?_suppressing : (f.suppressing lines).declaredType? = f.declaredType? := by
  funext n
  unfold declaredType?
  rw [descendants_suppressing]
  rfl

theorem hasAttribute_suppressing : (f.suppressing lines).hasAttribute = f.hasAttribute := by
  funext name n
  unfold hasAttribute parameterAttributes attributesOf
  rw [descendants_suppressing]
  rfl

theorem declaredClasses_suppressing : (f.suppressing lines).declaredClasses = f.declaredClasses := by
  unfold declaredClasses
  rw [descendants_suppressing]
  rfl

/-! ## Bindings -/

theorem binding?_suppressing : (f.suppressing lines).binding? = f.binding? := by
  funext cursor name site
  unfold binding? assignment? loop? binds
  rw [mentions_suppressing]
  rfl

theorem captures_suppressing : (f.suppressing lines).captures = f.captures := by
  funext name function
  unfold captures
  rw [mentions_suppressing]
  rfl

theorem bindingsIn_suppressing : (f.suppressing lines).bindingsIn = f.bindingsIn := by
  funext name cursor boundary
  unfold bindingsIn nodesBefore
  rw [preorder_suppressing, binding?_suppressing]

theorem bindings_suppressing : (f.suppressing lines).bindings = f.bindings := by
  have hthrough : ∀ name cursor functions, (f.suppressing lines).bindingsThrough name cursor functions =
      f.bindingsThrough name cursor functions := by
    intro name cursor functions
    induction functions generalizing cursor with
    | nil =>
      unfold bindingsThrough
      rw [bindingsIn_suppressing]
      rfl
    | cons function outer ih =>
      unfold bindingsThrough
      rw [bindingsIn_suppressing, captures_suppressing, ih]
  funext n name
  unfold bindings
  rw [hthrough]
  rfl

theorem origins_suppressing : (f.suppressing lines).origins = f.origins := by
  funext n
  unfold origins
  rw [bindings_suppressing]

end SourceFile

namespace Context

variable (f : SourceFile) (lines : List Nat) (classes : Hierarchy)

/-! ## Classes and outside input -/

theorem evidentClass?_suppressing :
    (mk (f.suppressing lines) classes).evidentClass? = (mk f classes).evidentClass? := by
  funext n
  unfold evidentClass?
  rw [SourceFile.declaredType?_suppressing]
  rfl

theorem classOf?_suppressing :
    (mk (f.suppressing lines) classes).classOf? = (mk f classes).classOf? := by
  have hhops : ∀ hops, (mk (f.suppressing lines) classes).classWithin hops = (mk f classes).classWithin hops := by
    intro hops
    induction hops with
    | zero =>
      funext n
      unfold classWithin
      rw [evidentClass?_suppressing]
      rfl
    | succ hops ih =>
      funext n
      unfold classWithin
      dsimp only
      rw [evidentClass?_suppressing, ih, SourceFile.bindings_suppressing]
      rfl
  exact hhops maxTypeHops

theorem staticClass?_suppressing :
    (mk (f.suppressing lines) classes).staticClass? = (mk f classes).staticClass? := by
  funext n
  unfold staticClass?
  rw [classOf?_suppressing]
  rfl

theorem isSource_suppressing :
    (mk (f.suppressing lines) classes).isSource = (mk f classes).isSource := by
  funext n
  unfold isSource readsRequest isRequestValue
  rw [staticClass?_suppressing, classOf?_suppressing]
  rfl

theorem isTainted_suppressing :
    (mk (f.suppressing lines) classes).isTainted = (mk f classes).isTainted := by
  have hfuel : ∀ fuel, (mk (f.suppressing lines) classes).search fuel = (mk f classes).search fuel := by
    intro fuel
    induction fuel with
    | zero => rfl
    | succ fuel ih =>
      funext hops n seen
      unfold search
      rw [isSource_suppressing, SourceFile.origins_suppressing, ih]
      rfl
  funext n
  unfold isTainted
  rw [hfuel]
  rfl

end Context

/-! ## Findings -/

section Findings

variable (f : SourceFile) (lines : List Nat) (classes : Hierarchy)

theorem ifFirstTainted_suppressing :
    Sink.ifFirstTainted ⟨f.suppressing lines, classes⟩ = Sink.ifFirstTainted ⟨f, classes⟩ := by
  funext n message
  unfold Sink.ifFirstTainted
  rw [Context.isTainted_suppressing]
  rfl

theorem findings_suppressing {r : Rule} (hr : r ∈ Catalog.builtin.rules) :
    r.findings ⟨f.suppressing lines, classes⟩ = r.findings ⟨f, classes⟩ := by
  have hchecks : ∀ n, r.check ⟨f.suppressing lines, classes⟩ n = r.check ⟨f, classes⟩ n := by
    intro n
    simp only [Catalog.builtin, List.mem_cons, List.not_mem_nil, or_false] at hr
    rcases hr with rfl | rfl | rfl | rfl | rfl
    · show Except.ok (Sink.checkUnserialize _ n) = Except.ok (Sink.checkUnserialize _ n)
      unfold Sink.checkUnserialize
      rw [ifFirstTainted_suppressing]
      rfl
    · show Sensitive.check _ n = Sensitive.check _ n
      unfold Sensitive.check
      rw [SourceFile.hasAttribute_suppressing]
      rfl
    · show Except.ok (Sink.checkAllowList _ n) = Except.ok (Sink.checkAllowList _ n)
      unfold Sink.checkAllowList
      rw [Context.classOf?_suppressing, Context.isTainted_suppressing]
      rfl
    · show Except.ok (Sink.checkShell _ n) = Except.ok (Sink.checkShell _ n)
      unfold Sink.checkShell
      rw [ifFirstTainted_suppressing]
      rfl
    · show Except.ok (Sink.checkRawSql _ n) = Except.ok (Sink.checkRawSql _ n)
      unfold Sink.checkRawSql Sink.isRawQuery
      rw [ifFirstTainted_suppressing, Context.staticClass?_suppressing]
      rfl
  unfold Rule.findings Rule.findingsAt
  dsimp only
  rw [SourceFile.descendants_suppressing]
  simp only [hchecks]
  rfl

theorem build_suppressing (files : List SourceFile) (lines : SourceFile → List Nat) :
    Hierarchy.build (files.map fun f => f.suppressing (lines f)) = Hierarchy.build files := by
  unfold Hierarchy.build
  rw [List.flatMap_map]
  simp only [SourceFile.declaredClasses_suppressing]

end Findings

end PhpAudit
