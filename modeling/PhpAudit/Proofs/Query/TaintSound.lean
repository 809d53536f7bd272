import PhpAudit.Proofs.Query.Flow
import PhpAudit.Tree.Naming

/-!
# A tainted value has a source

If the search answers yes, then a chain of flow steps leads from the node to a source, and no more of
them follow a binding than the search may follow. The chain is rebuilt from the run: the list of seen
nodes decides which chain is found, but every step the search takes is a step of the flow.
-/

namespace PhpAudit.SourceFile

/-- What no flow step leads through: a call of another function than a carrier, a scalar cast, the
condition of a choice. -/
def Barrier (f : SourceFile) (n m : Node) : Prop :=
  (n.kind.isCall = true ∧ f.isNamedAny n carrierFunctions = false) ∨
    (n.kind = .other ∧ n.form = "cast_expression" ∧ f.castType n ∈ scalarCasts) ∨
    (n.kind = .other ∧ n.form = "conditional_expression" ∧ m.field = some "condition")

variable {f : SourceFile}

theorem Part.not_barrier {n m : Node} (h : f.Part n m) : ¬ f.Barrier n m := by
  unfold Barrier
  cases h with
  | element hk _ => simp [hk, Kind.isCall]
  | assigned hk _ => simp [hk, Kind.isCall]
  | piece hk _ _ => rcases hk with hk | hk <;> simp [hk, Kind.isCall]
  | passed hk hn _ => simp [hk, hn]
  | cast hk hform ht _ _ => simp [hk, hform, ht, Kind.isCall]
  | operand hk hform _ _ _ => simp [hk, hform, Kind.isCall]
  | branch hk hform _ hfield => simp [hk, hform, hfield, Kind.isCall]
  | inner hk hform _ _ =>
    -- neither of the two guarded forms is among the transparent ones
    have hcast : n.form ≠ "cast_expression" := fun h => by rw [h] at hform; revert hform; decide
    have hcond : n.form ≠ "conditional_expression" := fun h => by
      rw [h] at hform; revert hform; decide
    simp [hk, hcast, hcond, Kind.isCall]

theorem Origin.not_barrier {n m : Node} (h : f.Origin n m) : ¬ f.Barrier n m := by
  simp [Barrier, h.kind_eq, Kind.isCall]

theorem Flow.not_barrier {hops : Nat} {chain : List Node} (h : f.Flow hops chain) :
    ∀ a b, [a, b] <:+: chain → ¬ f.Barrier a b := by
  induction h with
  | single n =>
    intro a b hab
    have := hab.length_le
    simp at this
  | part hstep _ ih =>
    intro a b hab
    rcases List.infix_cons_iff.1 hab with hpre | hin
    · obtain ⟨rest', hrest⟩ := hpre
      simp only [List.cons_append, List.nil_append, List.cons.injEq] at hrest
      obtain ⟨rfl, rfl, -⟩ := hrest
      exact hstep.not_barrier
    · exact ih a b hin
  | hop hstep _ ih =>
    intro a b hab
    rcases List.infix_cons_iff.1 hab with hpre | hin
    · obtain ⟨rest', hrest⟩ := hpre
      simp only [List.cons_append, List.nil_append, List.cons.injEq] at hrest
      obtain ⟨rfl, rfl, -⟩ := hrest
      exact hstep.not_barrier
    · exact ih a b hin

theorem Part.kind_ne_parameter {n m : Node} (h : f.Part n m) : n.kind ≠ .parameter := by
  cases h with
  | piece hk => rcases hk with hk | hk <;> simp [hk]
  | _ => simp [*]

end PhpAudit.SourceFile

namespace PhpAudit.Context

variable {cx : Context}

theorem kind_ne_parameter_of_isSource {n : Node} (h : cx.isSource n = true) :
    n.kind ≠ .parameter := by
  intro hk
  have htrail : cx.file.trail cx.file.subscriptBase? n = [n] := by
    have hstep : cx.file.subscriptBase? n = none := by simp [SourceFile.subscriptBase?, hk]
    unfold SourceFile.trail
    cases cx.file.size <;> simp [SourceFile.trailFrom, hstep]
  simp [isSource, SourceFile.readsInput, htrail, readsRequest, hk] at h

/-- A flow from a source passes no parameter: a parameter is no source, and no step leads on from it. -/
theorem flow_ne_parameter {hops : Nat} {chain : List Node} {m : Node} (h : cx.file.Flow hops chain)
    (hlast : chain.getLast? = some m) (hsource : cx.isSource m = true) :
    ∀ a ∈ chain, a.kind ≠ .parameter := by
  induction h with
  | single n =>
    intro a ha
    obtain rfl : n = m := Option.some.inj hlast
    rw [List.mem_singleton.1 ha]
    exact kind_ne_parameter_of_isSource hsource
  | part hstep _ ih =>
    intro a ha
    rw [List.getLast?_cons_cons] at hlast
    rcases List.mem_cons.1 ha with rfl | ha
    · exact hstep.kind_ne_parameter
    · exact ih hlast a ha
  | hop hstep _ ih =>
    intro a ha
    rw [List.getLast?_cons_cons] at hlast
    rcases List.mem_cons.1 ha with rfl | ha
    · simp [hstep.kind_eq]
    · exact ih hlast a ha

/-- A chain of at most `hops` hops from `n` to a source. -/
def FlowsFromSource (cx : Context) (hops : Nat) (n : Node) : Prop :=
  ∃ used rest m, cx.file.Flow used (n :: rest) ∧ used ≤ hops ∧
    (n :: rest).getLast? = some m ∧ cx.isSource m = true

theorem FlowsFromSource.here {hops : Nat} {n : Node} (h : cx.isSource n = true) :
    cx.FlowsFromSource hops n :=
  ⟨0, [], n, .single n, Nat.zero_le _, rfl, h⟩

theorem FlowsFromSource.part {hops : Nat} {n m : Node} (hstep : cx.file.Part n m)
    (h : cx.FlowsFromSource hops m) : cx.FlowsFromSource hops n := by
  obtain ⟨used, rest, last, hflow, hle, hlast, hsource⟩ := h
  exact ⟨used, m :: rest, last, .part hstep hflow, hle, by rw [List.getLast?_cons_cons]; exact hlast,
    hsource⟩

theorem FlowsFromSource.hop {hops : Nat} {n m : Node} (hstep : cx.file.Origin n m)
    (h : cx.FlowsFromSource hops m) : cx.FlowsFromSource (hops + 1) n := by
  obtain ⟨used, rest, last, hflow, hle, hlast, hsource⟩ := h
  exact ⟨used + 1, m :: rest, last, .hop hstep hflow, Nat.succ_le_succ hle,
    by rw [List.getLast?_cons_cons]; exact hlast, hsource⟩

/-- A list of visits answers yes only through the last of them. -/
theorem exists_of_firstHit {σ : Type} {visit : Node → σ → Bool × σ} {ns : List Node} {s t : σ}
    (h : firstHit visit ns s = (true, t)) : ∃ n ∈ ns, ∃ s', visit n s' = (true, t) := by
  induction ns generalizing s with
  | nil => cases h
  | cons n ns ih =>
    cases hv : visit n s with
    | mk answer s' =>
      simp only [firstHit, hv] at h
      cases answer with
      | true => exact ⟨n, List.mem_cons_self, s, hv.trans h⟩
      | false =>
        obtain ⟨m, hm, s'', hvisit⟩ := ih h
        exact ⟨m, List.mem_cons_of_mem _ hm, s'', hvisit⟩

/-- Whatever has been seen, a search that answers yes has followed a flow from a source. -/
theorem flowsFromSource_of_search {fuel hops : Nat} {n : Node} {seen : List Nat}
    (h : (cx.search fuel hops n seen).1 = true) : cx.FlowsFromSource hops n := by
  induction fuel generalizing hops n seen with
  | zero => cases h
  | succ fuel ih =>
    unfold search at h
    split at h
    · cases h
    · split at h
      · next hsource => exact .here hsource
      · split at h
        · cases hops with
          | zero => cases h
          | succ hops =>
            obtain ⟨m, hm, seen', hvisit⟩ := exists_of_firstHit (Prod.ext h rfl)
            exact .hop (SourceFile.mem_origins.1 hm) (ih (congrArg Prod.fst hvisit))
        · obtain ⟨m, hm, seen', hvisit⟩ := exists_of_firstHit (Prod.ext h rfl)
          exact .part (SourceFile.mem_parts.1 hm) (ih (congrArg Prod.fst hvisit))

/-- A tainted node is the head of a chain of flow steps that ends in a read of outside input or of the
current request and follows at most `maxOriginHops` bindings. The chain passes no parameter, and no step
of it crosses a barrier. -/
theorem exists_flow_of_isTainted {n : Node} (h : cx.isTainted n = true) :
    ∃ hops rest m, cx.file.Flow hops (n :: rest) ∧ hops ≤ maxOriginHops ∧
      (n :: rest).getLast? = some m ∧ (cx.file.readsInput m = true ∨ cx.readsRequest m = true) ∧
      (∀ a ∈ n :: rest, a.kind ≠ .parameter) ∧
      ∀ a b, [a, b] <:+: n :: rest → ¬ cx.file.Barrier a b := by
  obtain ⟨hops, rest, m, hflow, hle, hlast, hsource⟩ := flowsFromSource_of_search h
  exact ⟨hops, rest, m, hflow, hle, hlast, Bool.or_eq_true_iff.1 hsource,
    flow_ne_parameter hflow hlast hsource, hflow.not_barrier⟩

/-- The text `<?php foreach($_GET as $v)exec('a'.$v);`, whose loop hands the superglobal on. -/
def loopSample : SourceFile :=
  .ofParts "loop.php" "<?php foreach($_GET as $v)exec('a'.$v);"
    [⟨0, "program", none, ⟨0, 39⟩⟩, ⟨1, "php_tag", none, ⟨0, 5⟩⟩,
      ⟨1, "foreach_statement", none, ⟨6, 39⟩⟩, ⟨2, "variable_name", none, ⟨14, 19⟩⟩,
      ⟨3, "name", none, ⟨15, 19⟩⟩, ⟨2, "variable_name", none, ⟨23, 25⟩⟩,
      ⟨3, "name", none, ⟨24, 25⟩⟩, ⟨2, "expression_statement", some "body", ⟨26, 39⟩⟩,
      ⟨3, "function_call_expression", none, ⟨26, 38⟩⟩, ⟨4, "name", some "function", ⟨26, 30⟩⟩,
      ⟨4, "arguments", some "arguments", ⟨30, 38⟩⟩, ⟨5, "argument", none, ⟨31, 37⟩⟩,
      ⟨6, "binary_expression", none, ⟨31, 37⟩⟩, ⟨7, "string", some "left", ⟨31, 34⟩⟩,
      ⟨8, "string_value", none, ⟨32, 33⟩⟩, ⟨7, "variable_name", some "right", ⟨35, 37⟩⟩,
      ⟨8, "name", none, ⟨36, 37⟩⟩]

/-- The concatenation in the loop is tainted, through its right operand and the loop. -/
theorem exists_flow_loopSample :
    ∃ n, loopSample.node? 12 = some n ∧ (Context.mk loopSample {}).isTainted n = true ∧
      ∃ hops rest m, loopSample.Flow hops (n :: rest) ∧ hops ≤ maxOriginHops ∧
        (n :: rest).getLast? = some m ∧
        (loopSample.readsInput m = true ∨ (Context.mk loopSample {}).readsRequest m = true) ∧
        (∀ a ∈ n :: rest, a.kind ≠ .parameter) ∧
        ∀ a b, [a, b] <:+: n :: rest → ¬ loopSample.Barrier a b := by
  have h : (loopSample.node? 12).map (Context.mk loopSample {}).isTainted = some true := by
    decide +kernel
  obtain ⟨n, hn, ht⟩ := Option.map_eq_some_iff.1 h
  exact ⟨n, hn, ht, exists_flow_of_isTainted ht⟩

end PhpAudit.Context
