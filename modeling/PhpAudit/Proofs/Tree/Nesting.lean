import PhpAudit.Proofs.Tree.Lowering

/-!
# Syntax trees in one pass

Whether an outline is a syntax tree can be seen in one pass over its rows, which keeps for each open row what is
left of its bytes for further children (`nests`). An outline that passes is a tree (`isTree_of_isNested`).
-/

namespace PhpAudit.Outline

/-- Whether rows go on with a tree from row `s`. `path` has the open rows, the innermost one first, each with
the bytes behind its last child. -/
def nests (s : Nat) (path : List (Nat × Span)) : Outline → Bool
  | [] => true
  | row :: rest =>
    match path.drop (path.length - row.depth) with
    | [] => false
    | (p, left) :: above =>
      above.length + 1 == row.depth && left.start ≤ row.span.start && row.span.start ≤ row.span.stop &&
        row.span.stop ≤ left.stop &&
        nests (s + 1) ((s, row.span) :: (p, ⟨row.span.stop, left.stop⟩) :: above) rest

/-- Whether rows are a tree. -/
def isNested : Outline → Bool
  | [] => false
  | root :: rest =>
    root.depth == 0 && root.span.start ≤ root.span.stop && nests 1 [(0, root.span)] rest

/-- The rows in front of row `s` are part of a tree, and `path` has those that are open. -/
structure NestedTo (rows : Outline) (s : Nat) (path : List (Nat × Span)) : Prop where
  openRows : SourceFile.OpenRows rows s (path.map (·.1))
  length_eq : path.length = (rows.rowAt (s - 1)).depth + 1
  left : ∀ p left, (p, left) ∈ path → left.stop = (rows.rowAt p).span.stop ∧
    (rows.rowAt p).span.start ≤ left.start ∧
    ∀ i < s, rows.ChildOf p i → (rows.rowAt i).span.stop ≤ left.start
  below_root : ∀ i < s, 0 < i → 0 < (rows.rowAt i).depth
  depth_succ : ∀ i < s, 0 < i → (rows.rowAt i).depth ≤ (rows.rowAt (i - 1)).depth + 1
  range : ∀ i < s, (rows.rowAt i).span.start ≤ (rows.rowAt i).span.stop
  inside : ∀ i < s, ∀ p, rows.ChildOf p i →
    (rows.rowAt p).span.start ≤ (rows.rowAt i).span.start ∧
      (rows.rowAt i).span.stop ≤ (rows.rowAt p).span.stop
  siblings : ∀ j < s, ∀ i < j, ∀ p, rows.ChildOf p i → rows.ChildOf p j →
    (rows.rowAt i).span.stop ≤ (rows.rowAt j).span.start

variable {rows : Outline} {s p : Nat} {path above : List (Nat × Span)} {left : Span}

theorem NestedTo.root (hroot : (rows.rowAt 0).depth = 0)
    (hrange : (rows.rowAt 0).span.start ≤ (rows.rowAt 0).span.stop) :
    NestedTo rows 1 [(0, (rows.rowAt 0).span)] := by
  have hzero : ∀ {i : Nat}, i < 1 → i = 0 := by omega
  refine ⟨?_, by simp [hroot], ?_, fun i hi => by omega, fun i hi => by omega, ?_, ?_, fun j hj => by omega⟩
  · intro p rest hsuffix
    obtain ⟨rfl, rfl⟩ : p = 0 ∧ rest = [] := by
      rcases List.suffix_cons_iff.1 hsuffix with heq | hnil
      · exact ⟨(List.cons.inj heq).1, (List.cons.inj heq).2⟩
      · cases List.suffix_nil.1 hnil
    exact ⟨by omega, hroot, fun k hk hlt => by omega⟩
  · intro p left hmem
    obtain ⟨rfl, rfl⟩ := Prod.mk.inj (List.mem_singleton.1 hmem)
    exact ⟨rfl, Nat.le_refl _, fun i hi hchild => absurd hchild.1.1 (by omega)⟩
  · intro i hi
    obtain rfl := hzero hi
    exact hrange
  · intro i hi p hchild
    exact absurd hchild.1.1 (by omega)

/-- Of the open rows only the innermost one is the parent of the next row: the others are less deep. -/
theorem not_childOf_of_mem {ids : List Nat} (hopen : SourceFile.OpenRows rows s (p :: ids))
    (hchild : rows.ChildOf p s) {q : Nat} (hq : q ∈ ids) : ¬ rows.ChildOf q s := by
  intro hother
  obtain ⟨before, behind, rfl⟩ := List.append_of_mem hq
  obtain ⟨-, hpDepth, -⟩ := hopen p _ (List.suffix_refl _)
  obtain ⟨-, hqDepth, -⟩ := hopen q behind ⟨p :: before, rfl⟩
  rw [hother.parent_unique hchild, hpDepth, List.length_append, List.length_cons] at hqDepth
  omega

/-- A row whose parent is open and that fits into what is left of it. -/
theorem NestedTo.push (h : NestedTo rows s path) (hs : s < rows.length) (hpos : 0 < s)
    (hsuffix : (p, left) :: above <:+ path) (hdepth : above.length + 1 = (rows.rowAt s).depth)
    (hstart : left.start ≤ (rows.rowAt s).span.start)
    (hrange : (rows.rowAt s).span.start ≤ (rows.rowAt s).span.stop)
    (hstop : (rows.rowAt s).span.stop ≤ left.stop) :
    NestedTo rows (s + 1)
      ((s, (rows.rowAt s).span) :: (p, ⟨(rows.rowAt s).span.stop, left.stop⟩) :: above) := by
  have hopen : SourceFile.OpenRows rows s (p :: above.map (·.1)) := fun q rest hq =>
    h.openRows q rest (hq.trans (hsuffix.map Prod.fst))
  have hchild : rows.ChildOf p s :=
    (hopen.head?_eq_some_iff hs (by simpa using hdepth)).1 rfl
  obtain ⟨hleftStop, hleftStart, hleftChildren⟩ := h.left p left (hsuffix.subset List.mem_cons_self)
  have hsplit : ∀ {i : Nat}, i < s + 1 → i < s ∨ i = s := by omega
  refine ⟨?_, ?_, ?_, ?_, ?_, ?_, ?_, ?_⟩
  · exact hopen.push (by simpa using hdepth)
  · simpa using hdepth
  · intro q left' hmem
    rcases List.mem_cons.1 hmem with heq | hmem
    · obtain ⟨rfl, rfl⟩ := Prod.mk.inj heq
      exact ⟨rfl, Nat.le_refl _, fun i hi hq => absurd hq.1.1 (by omega)⟩
    rcases List.mem_cons.1 hmem with heq | houter
    · obtain ⟨rfl, rfl⟩ := Prod.mk.inj heq
      refine ⟨hleftStop, by dsimp only; omega, fun i hi hq => ?_⟩
      rcases hsplit hi with hi | rfl
      · have := hleftChildren i hi hq
        dsimp only
        omega
      · exact Nat.le_refl _
    · have hold := h.left q left' (hsuffix.subset (List.mem_cons_of_mem _ houter))
      refine ⟨hold.1, hold.2.1, fun i hi hq => ?_⟩
      rcases hsplit hi with hi | rfl
      · exact hold.2.2 i hi hq
      · exact absurd hq (not_childOf_of_mem hopen hchild (List.mem_map_of_mem houter))
  · intro i hi hpos
    rcases hsplit hi with hi | rfl
    · exact h.below_root i hi hpos
    · omega
  · intro i hi hpos
    rcases hsplit hi with hi | rfl
    · exact h.depth_succ i hi hpos
    · have := hsuffix.length_le
      rw [h.length_eq, List.length_cons] at this
      omega
  · intro i hi
    rcases hsplit hi with hi | rfl
    · exact h.range i hi
    · exact hrange
  · intro i hi q hq
    rcases hsplit hi with hi | rfl
    · exact h.inside i hi q hq
    · obtain rfl := hq.parent_unique hchild
      exact ⟨by omega, by omega⟩
  · intro j hj i hij q hqi hqj
    rcases hsplit hj with hj | rfl
    · exact h.siblings j hj i hij q hqi hqj
    · obtain rfl := hqj.parent_unique hchild
      have := hleftChildren i hij hqi
      omega

theorem NestedTo.isTree (h : NestedTo rows s path) (hroot : (rows.rowAt 0).depth = 0)
    (hnonempty : 0 < rows.length) (hs : rows.length ≤ s) : rows.IsTree where
  root := hroot
  nonempty := hnonempty
  below_root i hi := h.below_root i (Nat.lt_of_lt_of_le hi hs)
  depth_succ i hi := h.depth_succ i (Nat.lt_of_lt_of_le hi hs)
  range i hi := h.range i (Nat.lt_of_lt_of_le hi hs)
  inside i hi p _ := h.inside i (Nat.lt_of_lt_of_le hi hs) p
  siblings j hj i hij p _ := h.siblings j (Nat.lt_of_lt_of_le hj hs) i hij p

theorem NestedTo.isTree_of_nests {rest : Outline} (h : NestedTo rows s path) (hpos : 0 < s)
    (hroot : (rows.rowAt 0).depth = 0) (hnonempty : 0 < rows.length) (hrest : rows.drop s = rest)
    (hnests : nests s path rest = true) : rows.IsTree := by
  induction rest generalizing s path with
  | nil => exact h.isTree hroot hnonempty (List.drop_eq_nil_iff.1 hrest)
  | cons row rest ih =>
    have hs : s < rows.length := by
      have hlength := congrArg List.length hrest
      rw [List.length_drop, List.length_cons] at hlength
      omega
    have hrow : rows.rowAt s = row := by
      rw [List.drop_eq_getElem_cons hs] at hrest
      simp [rowAt, hs, (List.cons.inj hrest).1]
    unfold nests at hnests
    split at hnests
    · cases hnests
    next p left above hdrop =>
    simp only [Bool.and_eq_true, beq_iff_eq, decide_eq_true_eq] at hnests
    obtain ⟨⟨⟨⟨hdepth, hstart⟩, hrange⟩, hstop⟩, hnests⟩ := hnests
    rw [← hrow] at hdepth hstart hrange hstop hnests
    have hsuffix : (p, left) :: above <:+ path := hdrop ▸ List.drop_suffix _ _
    refine ih (h.push hs hpos hsuffix hdepth hstart hrange hstop) (Nat.succ_pos s) ?_ hnests
    rw [← List.tail_drop, hrest]
    rfl

/-- An outline that passes is a syntax tree. -/
theorem isTree_of_isNested (h : rows.isNested = true) : rows.IsTree := by
  cases rows with
  | nil => cases h
  | cons root rest =>
    simp only [isNested, Bool.and_eq_true, beq_iff_eq, decide_eq_true_eq] at h
    obtain ⟨⟨hroot, hrange⟩, hnests⟩ := h
    have hstart : NestedTo (root :: rest) 1 [(0, root.span)] := NestedTo.root hroot hrange
    exact hstart.isTree_of_nests Nat.one_pos hroot (Nat.succ_pos _) rfl hnests

end PhpAudit.Outline
