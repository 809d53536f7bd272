import PhpAudit.Query.Taint

/-!
# Where a value comes from

`Part` and `Origin` are the two kinds of steps along which data flows into an expression, each with one
constructor for each rule: from an expression to a part of it, and from a variable to an expression that
a binding gives it (a hop). `Flow` is a chain of such steps with the number of its hops. The functions
`parts` and `origins`, which the search uses, list exactly these steps (`mem_parts`, `mem_origins`).
-/

namespace PhpAudit.SourceFile

/-- `m` is a part that the value of `n` is made of. -/
inductive Part (f : SourceFile) (n : Node) : Node → Prop
  /-- An element comes from the value that it is taken of. -/
  | element {m : Node} (hk : n.kind = .subscript) (hm : (f.children n).head? = some m) : Part f n m
  /-- An assignment has the value of its right side. -/
  | assigned {m : Node} (hk : n.kind = .assignment) (hm : f.child? n "right" = some m) : Part f n m
  /-- A string or an argument holds its pieces. -/
  | piece {m : Node} (hk : n.kind = .stringLiteral ∨ n.kind = .argument) (hm : m ∈ f.children n)
      (hc : m.kind ≠ .comment) : Part f n m
  /-- A carrier function returns what it is passed. -/
  | passed {m : Node} (hk : n.kind = .functionCall) (hn : f.isNamedAny n carrierFunctions = true)
      (hm : m ∈ f.arguments n) : Part f n m
  /-- A cast to anything but a scalar keeps its operand. -/
  | cast {m : Node} (hk : n.kind = .other) (hform : n.form = "cast_expression")
      (ht : f.castType n ∉ scalarCasts) (hm : m ∈ f.children n) (hc : m.kind ≠ .comment) : Part f n m
  /-- Concatenation and the null default keep their operands. -/
  | operand {m : Node} (hk : n.kind = .other) (hform : n.form = "binary_expression")
      (hop : f.operator? n = some "." ∨ f.operator? n = some "??") (hm : m ∈ f.children n)
      (hc : m.kind ≠ .comment) : Part f n m
  /-- A choice has the value of a branch, never of its condition. -/
  | branch {m : Node} (hk : n.kind = .other) (hform : n.form = "conditional_expression")
      (hm : m ∈ f.children n) (hfield : m.field ≠ some "condition") : Part f n m
  /-- Transparent forms hold what stands in them. -/
  | inner {m : Node} (hk : n.kind = .other) (hform : n.form ∈ transparentForms)
      (hm : m ∈ f.children n) (hc : m.kind ≠ .comment) : Part f n m

/-- A binding gives the variable `n` its value from `m`. -/
inductive Origin (f : SourceFile) (n : Node) : Node → Prop
  /-- An assignment gives the value of its right side. -/
  | assigned {m site : Node} {bindings : List Binding} (hk : n.kind = .var)
      (hthis : n.value ≠ some "this") (hb : f.ownBindings n = .ok bindings)
      (hm : .assigned site (some m) ∈ bindings) : Origin f n m
  /-- A loop gives the elements of what it runs over. -/
  | looped {m site : Node} {bindings : List Binding} (hk : n.kind = .var)
      (hthis : n.value ≠ some "this") (hb : f.ownBindings n = .ok bindings)
      (hm : .looped site m ∈ bindings) : Origin f n m

/-- A chain of nodes each of which has its value from the next one; `hops` counts the steps that follow
a binding. -/
inductive Flow (f : SourceFile) : Nat → List Node → Prop
  | single (n : Node) : Flow f 0 [n]
  | part {hops : Nat} {n m : Node} {rest : List Node} (hstep : f.Part n m)
      (hrest : Flow f hops (m :: rest)) : Flow f hops (n :: m :: rest)
  | hop {hops : Nat} {n m : Node} {rest : List Node} (hstep : f.Origin n m)
      (hrest : Flow f hops (m :: rest)) : Flow f (hops + 1) (n :: m :: rest)

/-! ## The steps that the search takes -/

variable {f : SourceFile}

theorem mem_codeChildren {n m : Node} :
    m ∈ f.codeChildren n ↔ m ∈ f.children n ∧ m.kind ≠ .comment := by
  unfold codeChildren
  rw [List.mem_filter, decide_eq_true_iff]

theorem part_of_mem_parts {n m : Node} (h : m ∈ f.parts n) : f.Part n m := by
  unfold parts at h
  split at h
  · next hk => exact .element hk (Option.mem_toList.1 h)
  · next hk => exact .assigned hk (Option.mem_toList.1 h)
  · next hk => exact .piece (.inl hk) (mem_codeChildren.1 h).1 (mem_codeChildren.1 h).2
  · next hk => exact .piece (.inr hk) (mem_codeChildren.1 h).1 (mem_codeChildren.1 h).2
  · next hk =>
    split at h
    · next hn => exact .passed hk hn h
    · cases h
  · next hk =>
    split at h
    · next hform =>
      split at h
      · cases h
      · next ht =>
        rw [List.contains_iff_mem] at ht
        exact .cast hk hform ht (mem_codeChildren.1 h).1 (mem_codeChildren.1 h).2
    · next hform =>
      split at h
      · next hop =>
        rw [Bool.or_eq_true, beq_iff_eq, beq_iff_eq] at hop
        exact .operand hk hform hop (mem_codeChildren.1 h).1 (mem_codeChildren.1 h).2
      · cases h
    · next hform =>
      obtain ⟨hm, hfield⟩ := List.mem_filter.1 h
      exact .branch hk hform hm (by simpa [Node.hasField] using hfield)
    · next form hform =>
      split at h
      · next ht =>
        rw [List.contains_iff_mem] at ht
        exact .inner hk ht (mem_codeChildren.1 h).1 (mem_codeChildren.1 h).2
      · cases h
  · cases h

theorem mem_parts_of_part {n m : Node} (h : f.Part n m) : m ∈ f.parts n := by
  cases h with
  | element hk hm => simp [parts, hk, hm]
  | assigned hk hm => simp [parts, hk, hm]
  | piece hk hm hc => rcases hk with hk | hk <;> simp [parts, hk, mem_codeChildren, hm, hc]
  | passed hk hn hm => simp [parts, hk, hn, hm]
  | cast hk hform ht hm hc => simp [parts, hk, hform, ht, mem_codeChildren, hm, hc]
  | operand hk hform hop hm hc =>
    rcases hop with hop | hop <;> simp [parts, hk, hform, hop, mem_codeChildren, hm, hc]
  | branch hk hform hm hfield => simp [parts, hk, hform, hm, hfield, Node.hasField]
  | inner hk hform hm hc =>
    have hcode := mem_codeChildren.2 ⟨hm, hc⟩
    simp only [transparentForms, List.mem_cons, List.not_mem_nil, or_false] at hform
    rcases hform with h | h | h | h | h | h | h | h <;> simp [parts, hk, h, transparentForms, hcode]

/-- `parts` lists the parts of a value. -/
theorem mem_parts {n m : Node} : m ∈ f.parts n ↔ f.Part n m :=
  ⟨part_of_mem_parts, mem_parts_of_part⟩

theorem ownBindings_of_var {n : Node} (hk : n.kind = .var) :
    f.ownBindings n = .ok (f.bindings n (n.value.getD "")) := by
  simp [ownBindings, variableName, Node.expect, hk, bind, Except.bind, pure, Except.pure]

/-- `origins` lists the values that bindings give to a variable. -/
theorem mem_origins {n m : Node} : m ∈ f.origins n ↔ f.Origin n m := by
  unfold origins
  constructor
  · intro h
    split at h
    · next hv =>
      simp only [Bool.and_eq_true, decide_eq_true_iff, bne_iff_ne] at hv
      obtain ⟨binding, hb, hm⟩ := List.mem_filterMap.1 h
      have hown := ownBindings_of_var (f := f) hv.1
      cases binding with
      | assigned site value =>
        simp only [Binding.origin?] at hm
        subst hm
        exact .assigned hv.1 hv.2 hown hb
      | received site => simp [Binding.origin?] at hm
      | looped site source =>
        simp only [Binding.origin?, Option.some.injEq] at hm
        subst hm
        exact .looped hv.1 hv.2 hown hb
    · cases h
  · intro h
    cases h with
    | assigned hk hthis hb hm =>
      rw [ownBindings_of_var hk] at hb
      obtain rfl := Except.ok.inj hb
      simp only [hk, decide_true, Bool.true_and, bne_iff_ne, ne_eq, hthis, not_false_eq_true, if_pos]
      exact List.mem_filterMap.2 ⟨_, hm, rfl⟩
    | looped hk hthis hb hm =>
      rw [ownBindings_of_var hk] at hb
      obtain rfl := Except.ok.inj hb
      simp only [hk, decide_true, Bool.true_and, bne_iff_ne, ne_eq, hthis, not_false_eq_true, if_pos]
      exact List.mem_filterMap.2 ⟨_, hm, rfl⟩

theorem Origin.kind_eq {n m : Node} (h : f.Origin n m) : n.kind = .var := by
  cases h <;> assumption

theorem Part.kind_ne_var {n m : Node} (h : f.Part n m) : n.kind ≠ .var := by
  cases h with
  | piece hk => rcases hk with hk | hk <;> simp [hk]
  | _ => simp [*]

end PhpAudit.SourceFile
