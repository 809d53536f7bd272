import PhpAudit.Proofs.Tree.Order

/-!
# From outlines to arenas

An outline of a syntax tree starts with its only row of depth zero, goes down one level at a time, and has
every row inside the bytes of its parent and behind its elder siblings (`Outline.IsTree`). The rows below a
row are those that follow it, as far as they are deeper. The arena of such an outline is the same tree
(`mirrors_ofParts`): ids are positions in the outline, a parent is the last earlier row that is less deep,
and a walk from a node lists the positions of its subtree one after the other.
-/

namespace PhpAudit

/-! ## Trees as lists of depths -/

namespace Outline

def rowAt (rows : Outline) (i : Nat) : OutlineRow := rows.getD i default

/-- Row `i` is in the subtree of row `p`, and not `p` itself: it follows `p`, and every row from there on is
deeper than `p`. -/
def Under (rows : Outline) (p i : Nat) : Prop :=
  p < i ∧ i < rows.length ∧ ∀ k ≤ i, p < k → (rows.rowAt p).depth < (rows.rowAt k).depth

/-- Row `p` is the parent of row `i`. -/
def ChildOf (rows : Outline) (p i : Nat) : Prop :=
  rows.Under p i ∧ (rows.rowAt i).depth = (rows.rowAt p).depth + 1

/-- The number of rows in the subtree of row `p`, with `p` itself: the subtree ends in front of the next row
that is no deeper. -/
def subtreeSize (rows : Outline) (p : Nat) : Nat :=
  (rows.drop (p + 1)).findIdx (fun row => row.depth ≤ (rows.rowAt p).depth) + 1

instance (rows : Outline) (p i : Nat) : Decidable (rows.Under p i) :=
  inferInstanceAs (Decidable (_ ∧ _ ∧ _))

instance (rows : Outline) (p i : Nat) : Decidable (rows.ChildOf p i) :=
  inferInstanceAs (Decidable (_ ∧ _))

/-- The rows are a syntax tree in preorder. Children lie within the bytes of their parent, and siblings follow
each other in the text. -/
structure IsTree (rows : Outline) : Prop where
  root : (rows.rowAt 0).depth = 0
  nonempty : 0 < rows.length
  below_root : ∀ i < rows.length, 0 < i → 0 < (rows.rowAt i).depth
  depth_succ : ∀ i < rows.length, 0 < i → (rows.rowAt i).depth ≤ (rows.rowAt (i - 1)).depth + 1
  range : ∀ i < rows.length, (rows.rowAt i).span.start ≤ (rows.rowAt i).span.stop
  inside : ∀ i < rows.length, ∀ p < i, rows.ChildOf p i →
    (rows.rowAt p).span.start ≤ (rows.rowAt i).span.start ∧
      (rows.rowAt i).span.stop ≤ (rows.rowAt p).span.stop
  siblings : ∀ j < rows.length, ∀ i < j, ∀ p < i, rows.ChildOf p i → rows.ChildOf p j →
    (rows.rowAt i).span.stop ≤ (rows.rowAt j).span.start

variable {rows : Outline} {p q i j : Nat}

theorem Under.trans (hpq : rows.Under p q) (hqi : rows.Under q i) : rows.Under p i := by
  refine ⟨Nat.lt_trans hpq.1 hqi.1, hqi.2.1, fun k hk hpk => ?_⟩
  by_cases hkq : k ≤ q
  · exact hpq.2.2 k hkq hpk
  · exact Nat.lt_trans (hpq.2.2 q (Nat.le_refl q) hpq.1) (hqi.2.2 k hk (Nat.lt_of_not_le hkq))

theorem ChildOf.parent_unique (hp : rows.ChildOf p i) (hq : rows.ChildOf q i) : p = q := by
  have hdepth : (rows.rowAt p).depth = (rows.rowAt q).depth :=
    Nat.succ.inj (hp.2.symm.trans hq.2)
  rcases Nat.lt_trichotomy p q with hlt | heq | hlt
  · have := hp.1.2.2 q (Nat.le_of_lt hq.1.1) hlt
    omega
  · exact heq
  · have := hq.1.2.2 p (Nat.le_of_lt hp.1.1) hlt
    omega

/-- The parent of a row in a subtree is in the subtree too. -/
theorem Under.parent_cases (hpi : rows.Under p i) (hqi : rows.ChildOf q i) :
    q = p ∨ rows.Under p q := by
  have hdepth := hpi.2.2 i (Nat.le_refl i) hpi.1
  have hparent := hqi.2
  rcases Nat.lt_trichotomy q p with hlt | heq | hlt
  · have := hqi.1.2.2 p (Nat.le_of_lt hpi.1) hlt
    omega
  · exact .inl heq
  · exact .inr ⟨hlt, Nat.lt_trans hqi.1.1 hpi.2.1, fun k hk hpk =>
      hpi.2.2 k (Nat.le_trans hk (Nat.le_of_lt hqi.1.1)) hpk⟩

/-- The rows of a subtree stand next to each other. -/
theorem under_iff : rows.Under p i ↔ p < i ∧ i < p + rows.subtreeSize p := by
  unfold Under
  refine and_congr_right fun hlt => ?_
  obtain ⟨k, rfl⟩ : ∃ k, i = p + 1 + k := ⟨i - (p + 1), by omega⟩
  have hcount : p + 1 + k < p + rows.subtreeSize p ↔
      k < (rows.drop (p + 1)).findIdx (fun row => row.depth ≤ (rows.rowAt p).depth) := by
    unfold subtreeSize
    omega
  have hat : ∀ j (hj : p + 1 + j < rows.length), rows.rowAt (p + 1 + j) = rows[p + 1 + j] := by
    intro j hj
    simp [rowAt, hj]
  rw [hcount, List.lt_findIdx_iff]
  constructor
  · rintro ⟨hlen, hdeep⟩
    refine ⟨by rw [List.length_drop]; omega, fun j hj => ?_⟩
    have hrow := hdeep (p + 1 + j) (by omega) (by omega)
    rw [hat j (by omega)] at hrow
    simpa using hrow
  · rintro ⟨hlen, hdeep⟩
    rw [List.length_drop] at hlen
    refine ⟨by omega, fun m hm hpm => ?_⟩
    obtain ⟨j, rfl⟩ : ∃ j, m = p + 1 + j := ⟨m - (p + 1), by omega⟩
    rw [hat j (by omega)]
    simpa using hdeep j (by omega)

/-! ## Parents and the order of the text -/

section Tree
variable (ht : rows.IsTree)
include ht

/-- The last row up to `i` of a depth that is at most that of `i`: the rows behind it are deeper. -/
theorem IsTree.exists_above (hi : i < rows.length) {d : Nat} (hd : d ≤ (rows.rowAt i).depth) :
    ∃ p ≤ i, (rows.rowAt p).depth = d ∧ ∀ k ≤ i, p < k → d < (rows.rowAt k).depth := by
  induction i with
  | zero =>
    refine ⟨0, Nat.le_refl 0, ?_, fun k hk hlt => by omega⟩
    rw [ht.root] at hd ⊢
    omega
  | succ i ih =>
    rcases Nat.eq_or_lt_of_le hd with heq | hlt
    · exact ⟨i + 1, Nat.le_refl _, heq.symm, fun k hk hlt => by omega⟩
    · have hstep : (rows.rowAt (i + 1)).depth ≤ (rows.rowAt i).depth + 1 :=
        ht.depth_succ (i + 1) hi (Nat.succ_pos i)
      obtain ⟨p, hp, hdepth, hdeep⟩ := ih (Nat.lt_of_succ_lt hi) (by omega)
      refine ⟨p, Nat.le_succ_of_le hp, hdepth, fun k hk hpk => ?_⟩
      rcases Nat.eq_or_lt_of_le hk with rfl | hk
      · exact hlt
      · exact hdeep k (Nat.le_of_lt_succ hk) hpk

theorem IsTree.exists_parent (hi : i < rows.length) (hpos : 0 < i) : ∃ p, rows.ChildOf p i := by
  have hdepth := ht.below_root i hi hpos
  obtain ⟨p, hp, heq, hdeep⟩ := ht.exists_above hi (Nat.sub_le (rows.rowAt i).depth 1)
  have hlt : p < i := by
    rcases Nat.eq_or_lt_of_le hp with rfl | hlt
    · omega
    · exact hlt
  exact ⟨p, ⟨hlt, hi, fun k hk hpk => by rw [heq]; exact hdeep k hk hpk⟩, by omega⟩

theorem IsTree.under_root (hi : i < rows.length) (hpos : 0 < i) : rows.Under 0 i := by
  refine ⟨hpos, hi, fun k hk hlt => ?_⟩
  rw [ht.root]
  exact ht.below_root k (Nat.lt_of_le_of_lt hk hi) hlt

theorem IsTree.subtreeSize_root : rows.subtreeSize 0 = rows.length := by
  have hpos := ht.nonempty
  apply Nat.le_antisymm
  · unfold subtreeSize
    have hle : (rows.drop (0 + 1)).findIdx (fun row => row.depth ≤ (rows.rowAt 0).depth) ≤
        (rows.drop (0 + 1)).length := List.findIdx_le_length
    rw [List.length_drop] at hle
    omega
  · by_cases hone : rows.length = 1
    · rw [hone]
      exact Nat.succ_pos _
    · have := under_iff.1 (ht.under_root (Nat.sub_lt hpos Nat.one_pos) (by omega))
      omega

theorem IsTree.span_under (h : rows.Under p i) :
    (rows.rowAt i).span.stop ≤ (rows.rowAt p).span.stop := by
  induction i using Nat.strongRecOn with
  | _ i ih =>
    obtain ⟨q, hq⟩ := ht.exists_parent h.2.1 (Nat.zero_lt_of_lt h.1)
    have hinside := (ht.inside i h.2.1 q hq.1.1 hq).2
    rcases h.parent_cases hq with rfl | hpq
    · exact hinside
    · exact Nat.le_trans hinside (ih q hq.1.1 hpq)

/-- What stands between a row and its parent is over before the row starts. -/
theorem IsTree.stop_le_of_between (hp : rows.ChildOf p j) (hpi : p < i) (hij : i < j) :
    (rows.rowAt i).span.stop ≤ (rows.rowAt j).span.start := by
  have hi : i < rows.length := Nat.lt_trans hij hp.1.2.1
  have hdeep := hp.1.2.2 i (Nat.le_of_lt hij) hpi
  -- the elder sibling of row `j` whose subtree row `i` is in
  obtain ⟨a, ha, had, hadeep⟩ := ht.exists_above hi (Nat.succ_le_of_lt hdeep)
  have hpa : p < a := by
    rcases Nat.lt_trichotomy p a with h | rfl | h
    · exact h
    · omega
    · have := hadeep p (Nat.le_of_lt hpi) h
      omega
  have hchild : rows.ChildOf p a :=
    ⟨⟨hpa, by omega, fun k hk hpk => hp.1.2.2 k (by omega) hpk⟩, had⟩
  have hstop : (rows.rowAt i).span.stop ≤ (rows.rowAt a).span.stop := by
    rcases Nat.eq_or_lt_of_le ha with rfl | hai
    · exact Nat.le_refl _
    · exact ht.span_under ⟨hai, hi, fun k hk hak => by rw [had]; exact hadeep k hk hak⟩
  exact Nat.le_trans hstop (ht.siblings j hp.1.2.1 a (by omega) p hpa hchild hp)

theorem IsTree.start_le_succ (hi : i + 1 < rows.length) :
    (rows.rowAt i).span.start ≤ (rows.rowAt (i + 1)).span.start := by
  obtain ⟨p, hp⟩ := ht.exists_parent hi (Nat.succ_pos i)
  rcases Nat.eq_or_lt_of_le (Nat.le_of_lt_succ hp.1.1) with rfl | hlt
  · exact (ht.inside (p + 1) hi p (Nat.lt_succ_self p) hp).1
  · exact Nat.le_trans (ht.range i (Nat.lt_of_succ_lt hi))
      (ht.stop_le_of_between hp hlt (Nat.lt_succ_self i))

/-- A row outside the subtree of an earlier one starts behind it. -/
theorem IsTree.stop_le_start (hj : j < rows.length) (hij : i < j) (hnot : ¬ rows.Under i j) :
    (rows.rowAt i).span.stop ≤ (rows.rowAt j).span.start := by
  induction j using Nat.strongRecOn with
  | _ j ih =>
    obtain ⟨q, hq⟩ := ht.exists_parent hj (Nat.zero_lt_of_lt hij)
    rcases Nat.lt_trichotomy q i with hlt | rfl | hgt
    · exact ht.stop_le_of_between hq hlt hij
    · exact absurd hq.1 hnot
    · have houtside : ¬ rows.Under i q := fun h => hnot (h.trans hq.1)
      exact Nat.le_trans (ih q hq.1.1 (Nat.lt_trans hq.1.1 hj) hgt houtside)
        (ht.inside j hj q hq.1.1 hq).1

/-- No row of a tree starts before an earlier one. -/
theorem IsTree.inOrder : rows.InOrder := by
  have hmono : ∀ j < rows.length, ∀ i ≤ j,
      (rows.rowAt i).span.start ≤ (rows.rowAt j).span.start := by
    intro j
    induction j with
    | zero =>
      intro _ i hi
      rw [Nat.le_zero.1 hi]
    | succ j ih =>
      intro hj i hi
      rcases Nat.eq_or_lt_of_le hi with rfl | hi
      · exact Nat.le_refl _
      · exact Nat.le_trans (ih (Nat.lt_of_succ_lt hj) i (Nat.le_of_lt_succ hi)) (ht.start_le_succ hj)
  refine List.pairwise_iff_getElem.2 fun i j hi hj hlt => ?_
  have := hmono j hj i (Nat.le_of_lt hlt)
  simpa [rowAt, hi, hj] using this

end Tree

end Outline

/-! ## Lowering -/

namespace SourceFile

variable {f : SourceFile} {rows : Outline} {starts path : List Nat}

/-- The ids of a path are the rows whose subtrees are open in front of row `s`. -/
def OpenRows (rows : Outline) (s : Nat) (path : List Nat) : Prop :=
  ∀ p rest, (p :: rest) <:+ path → p < s ∧ (rows.rowAt p).depth = rest.length ∧
    ∀ k < s, p < k → (rows.rowAt p).depth < (rows.rowAt k).depth

theorem OpenRows.push {s : Nat} (h : OpenRows rows s path)
    (hdepth : path.length = (rows.rowAt s).depth) : OpenRows rows (s + 1) (s :: path) := by
  intro p rest hsuffix
  rcases List.suffix_cons_iff.1 hsuffix with heq | hold
  · obtain ⟨rfl, rfl⟩ := List.cons.inj heq
    exact ⟨Nat.lt_succ_self p, hdepth.symm, fun k hk hlt => by omega⟩
  · obtain ⟨hlt, hlen, hdeep⟩ := h p rest hold
    refine ⟨Nat.lt_succ_of_lt hlt, hlen, fun k hk hpk => ?_⟩
    rcases Nat.eq_or_lt_of_le (Nat.le_of_lt_succ hk) with rfl | hk
    · have := hold.length_le
      rw [List.length_cons] at this
      omega
    · exact hdeep k hk hpk

theorem OpenRows.head?_eq_some_iff {s p : Nat} (h : OpenRows rows s path) (hs : s < rows.length)
    (hdepth : path.length = (rows.rowAt s).depth) : path.head? = some p ↔ rows.ChildOf p s := by
  cases path with
  | nil =>
    rw [List.length_nil] at hdepth
    simp [Outline.ChildOf, ← hdepth]
  | cons q rest =>
    rw [List.length_cons] at hdepth
    obtain ⟨hlt, hlen, hdeep⟩ := h q rest (List.suffix_refl _)
    have hq : rows.ChildOf q s := by
      refine ⟨⟨hlt, hs, fun k hk hqk => ?_⟩, by omega⟩
      rcases Nat.eq_or_lt_of_le hk with rfl | hk
      · omega
      · exact hdeep k hk hqk
    rw [List.head?_cons, Option.some.injEq]
    exact ⟨fun heq => heq ▸ hq, hq.parent_unique⟩

/-- A node is made from row `i`, below the parent of that row. -/
structure FromRow (starts : List Nat) (rows : Outline) (i : Nat) (d : Draft) : Prop where
  form_eq : d.form = (rows.rowAt i).form
  kind_eq : d.kind = .ofForm (rows.rowAt i).form
  field_eq : d.field = (rows.rowAt i).field
  span_eq : d.span = (rows.rowAt i).span
  place_eq : d.place = .ofOffset starts (rows.rowAt i).span.start
  parent_iff : ∀ p, d.parent = some p ↔ rows.ChildOf p i

/-- The rows in front of `rest` are in the arena, and `path` leads from the last of them up to the root. -/
structure Lowered (starts : List Nat) (rows : Outline) (f : SourceFile) (path : List Nat)
    (rest : Outline) : Prop where
  rest_eq : rows.drop f.size = rest
  node : ∀ {i n}, f.node? i = some n → FromRow starts rows i n.toDraft
  path_length : f.size < rows.length → (rows.rowAt f.size).depth ≤ path.length
  openRows : OpenRows rows f.size path

/-- The draft of a row whose parent is the first of `above`. -/
def draftOf (starts above : List Nat) (row : OutlineRow) : Draft :=
  { kind := .ofForm row.form, form := row.form, parent := above.head?, field := row.field,
    span := row.span, place := .ofOffset starts row.span.start }

theorem Lowered.push (ht : rows.IsTree) {row : OutlineRow} {rest : Outline}
    (h : Lowered starts rows f path (row :: rest)) :
    Lowered starts rows (f.push (draftOf starts (path.drop (path.length - row.depth)) row))
      (f.size :: path.drop (path.length - row.depth)) rest := by
  have hlt : f.size < rows.length := by
    have := congrArg List.length h.rest_eq
    rw [List.length_drop, List.length_cons] at this
    omega
  have hdrop : rows[f.size] :: rows.drop (f.size + 1) = row :: rest := by
    rw [← h.rest_eq, ← List.drop_eq_getElem_cons hlt]
  obtain ⟨hrow, hrest⟩ := List.cons.inj hdrop
  obtain rfl : rows.rowAt f.size = row := by simp [Outline.rowAt, hlt, hrow]
  generalize habove : path.drop (path.length - (rows.rowAt f.size).depth) = above
  have hopen : OpenRows rows f.size above := by
    intro p tail hsuffix
    rw [← habove] at hsuffix
    exact h.openRows p tail (hsuffix.trans (List.drop_suffix _ _))
  have hlen : above.length = (rows.rowAt f.size).depth := by
    have := h.path_length hlt
    rw [← habove, List.length_drop]
    omega
  refine ⟨by rw [size_push]; exact hrest, ?_, ?_, ?_⟩
  · intro i n hn
    rcases push_cases hn with ⟨rfl, rfl⟩ | ⟨m, hm, hdraft, -, -⟩
    · exact ⟨rfl, rfl, rfl, rfl, rfl, fun p => hopen.head?_eq_some_iff hlt hlen⟩
    · rw [hdraft]
      exact h.node hm
  · intro hnext
    rw [size_push] at hnext ⊢
    rw [List.length_cons, hlen]
    exact ht.depth_succ (f.size + 1) hnext (Nat.succ_pos _)
  · rw [size_push]
    exact hopen.push hlen

theorem Lowered.pushRows (ht : rows.IsTree) {rest : Outline} (h : Lowered starts rows f path rest) :
    ∃ path', Lowered starts rows (SourceFile.pushRows starts f path rest) path' [] := by
  induction rest generalizing f path with
  | nil => exact ⟨path, h⟩
  | cons row rest ih => exact ih (h.push ht)

theorem lowered_ofOutline (ht : rows.IsTree) (path source : String) :
    ∃ above, Lowered (Text.lineStarts source) rows (ofOutline path source rows) above [] := by
  unfold ofOutline
  refine Lowered.pushRows ht ⟨rfl, ?_, ?_, ?_⟩
  · intro i n hn
    simp [node?] at hn
  · intro _
    exact Nat.le_of_eq ht.root
  · intro p rest hsuffix
    cases List.suffix_nil.1 hsuffix

/-- Every row of a tree has its node in the file. -/
theorem lowered_ofParts (ht : rows.IsTree) (path source : String) :
    (ofParts path source rows).size = rows.length ∧
      ∀ {i n}, (ofParts path source rows).node? i = some n →
        FromRow (Text.lineStarts source) rows i n.toDraft := by
  obtain ⟨above, hlow⟩ := lowered_ofOutline ht path source
  obtain ⟨h, hfilled, -⟩ := filled_ofParts path source rows
  constructor
  · have hsize : (ofParts path source rows).size = (ofOutline path source rows).size := by
      unfold size
      rw [hfilled.nodes_eq, Array.size_map]
    exact hsize.trans ((size_pushRows ..).trans (Nat.zero_add _))
  · intro i n hn
    rw [hfilled.node?_eq] at hn
    obtain ⟨m, hm, rfl⟩ := Option.map_eq_some_iff.1 hn
    obtain ⟨hform, hkind, hfield, hspan, hplace, hparent⟩ := hlow.node hm
    have hfills := hfilled.fills
    refine ⟨?_, ?_, ?_, ?_, ?_, ?_⟩
    · rw [hfills.form_eq, hform]
    · rw [hfills.kind_eq, hkind]
    · rw [hfills.field_eq, hfield]
    · rw [hfills.span_eq, hspan]
    · rw [hfills.place_eq, hplace]
    · rw [hfills.parent_eq]
      exact hparent

/-! ## Subtrees -/

section Subtrees
variable (hf : f.InOrder) (ht : rows.IsTree)
  (hrow : ∀ {i n}, f.node? i = some n → FromRow starts rows i n.toDraft)
include hf hrow

theorem mem_children_iff_childOf {n m : Node} (hn : f.Has n) (hm : f.Has m) :
    m ∈ f.children n ↔ rows.ChildOf n.id m.id := by
  rw [hf.mem_children_iff hn, (hrow hm).parent_iff]
  exact and_iff_right hm

theorem under_of_below {n m : Node} (hn : f.Has n) (h : f.Below n m) :
    m.id = n.id ∨ rows.Under n.id m.id := by
  induction h with
  | refl => exact .inl rfl
  | @tail a b hb hstep ih =>
    have hahas := hf.has_of_below hn hb
    have hab := (mem_children_iff_childOf hf hrow hahas (hf.has_of_mem_children hstep)).1 hstep
    rcases ih with heq | hunder
    · exact .inr (heq ▸ hab.1)
    · exact .inr (hunder.trans hab.1)

include ht

/-- Upwards from a row of a subtree: its parent is the root of the subtree or in the subtree again. -/
theorem below_of_under {n m : Node} (hn : f.Has n) (hm : f.Has m) (h : rows.Under n.id m.id) :
    f.Below n m := by
  generalize hi : m.id = i at h
  induction i using Nat.strongRecOn generalizing m with
  | _ i ih =>
    subst hi
    obtain ⟨q, hq⟩ := ht.exists_parent h.2.1 (Nat.zero_lt_of_lt h.1)
    obtain ⟨a, ha⟩ := exists_node?_of_lt (Nat.lt_trans hq.1.1 hm.lt_size)
    have hahas := hf.has ha
    obtain rfl := hf.id_eq ha
    have hstep : m ∈ f.children a := (mem_children_iff_childOf hf hrow hahas hm).2 hq
    rcases h.parent_cases hq with heq | hunder
    · rw [← hahas.ext hn heq]
      exact .single hstep
    · exact .tail (ih a.id hq.1.1 hahas rfl hunder) hstep

/-- A walk from a node passes through the positions of its subtree, one after the other. -/
theorem map_id_descendants (hsize : f.size = rows.length) {n : Node} (hn : f.Has n) :
    (f.descendants n).map (·.id) = List.range' n.id (rows.subtreeSize n.id) := by
  have hwalk : ((f.descendants n).map (·.id)).Pairwise (· < ·) :=
    List.pairwise_map.2 (hf.preorder_pairwise _ hn)
  have hrange : (List.range' n.id (rows.subtreeSize n.id)).Pairwise (· < ·) :=
    List.pairwise_lt_range'
  have hmem : ∀ i, i ∈ (f.descendants n).map (·.id) ↔
      i ∈ List.range' n.id (rows.subtreeSize n.id) := by
    intro i
    have hsub : i ∈ List.range' n.id (rows.subtreeSize n.id) ↔ i = n.id ∨ rows.Under n.id i := by
      rw [List.mem_range'_1, Outline.under_iff]
      have : 0 < rows.subtreeSize n.id := Nat.succ_pos _
      omega
    rw [hsub, List.mem_map]
    constructor
    · rintro ⟨m, hm, rfl⟩
      exact under_of_below hf hrow hn ((hf.mem_descendants hn).1 hm)
    · rintro (rfl | hunder)
      · exact ⟨n, (hf.mem_descendants hn).2 .refl, rfl⟩
      · obtain ⟨m, hm⟩ := exists_node?_of_lt (hsize ▸ hunder.2.1)
        obtain rfl := hf.id_eq hm
        exact ⟨m, (hf.mem_descendants hn).2 (below_of_under hf ht hrow hn hm hunder), rfl⟩
  have hnodup : ∀ {l : List Nat}, l.Pairwise (· < ·) → l.Nodup :=
    fun h => h.imp fun hlt => Nat.ne_of_lt hlt
  refine List.Perm.eq_of_pairwise (fun a b _ _ hab hba => absurd hab (Nat.lt_asymm hba)) hwalk hrange ?_
  exact (List.perm_ext_iff_of_nodup (hnodup hwalk) (hnodup hrange)).2 hmem

end Subtrees

/-! ## The tree of a file -/

/-- The file has the tree of an outline. Its nodes stand where their rows do; links agree in both directions
and children are listed in order, as in every linked file; only the root has no parent; and the nodes below
a node are the rows of its subtree. -/
structure Mirrors (f : SourceFile) (rows : Outline) : Prop extends f.InOrder where
  size_eq : f.size = rows.length
  fromRow : ∀ {i n}, f.node? i = some n → FromRow (Text.lineStarts f.source) rows i n.toDraft
  root : ∃ root, f.root? = some root ∧ root.parent = none
  descendants_eq : ∀ {n}, f.Has n →
    (f.descendants n).map (·.id) = List.range' n.id (rows.subtreeSize n.id)

/-- A file that is made from an outline has its tree, whichever lines are suppressed. -/
theorem mirrors_ofParts (ht : rows.IsTree) (path source : String) (lines : List Nat) :
    ({ ofParts path source rows with suppressed := lines } : SourceFile).Mirrors rows := by
  obtain ⟨hsize, hrow⟩ := lowered_ofParts ht path source
  have hsource := source_ofParts path source rows
  have hf : (ofParts path source rows).InOrder := inOrder_ofParts ht.inOrder
  generalize ofParts path source rows = g at hsize hrow hsource hf
  subst hsource
  have hf' : ({ g with suppressed := lines } : SourceFile).InOrder :=
    { id_eq := hf.id_eq, parent_lt := hf.parent_lt, mem_children := hf.mem_children,
      sorted := hf.sorted, preordered := hf.preordered, start_le := hf.start_le }
  refine { hf' with size_eq := hsize, fromRow := hrow, root := ?_, descendants_eq := ?_ }
  · obtain ⟨root, hroot⟩ := exists_node?_of_lt (hsize ▸ ht.nonempty)
    refine ⟨root, hroot, Option.eq_none_iff_forall_ne_some.2 fun p hp => ?_⟩
    exact Nat.not_lt_zero p ((hrow hroot).parent_iff p |>.1 hp).1.1
  · exact fun hn => map_id_descendants hf' ht hrow hsize hn

theorem eq_of_map_id_eq {ns ms : List Node} (hns : ∀ n ∈ ns, f.Has n) (hms : ∀ m ∈ ms, f.Has m)
    (h : ns.map (·.id) = ms.map (·.id)) : ns = ms := by
  have hnodes : ∀ {l : List Node}, (∀ n ∈ l, f.Has n) → (l.map (·.id)).filterMap f.node? = l := by
    intro l hl
    rw [List.filterMap_map]
    exact (List.filterMap_congr fun n hn => hl n hn).trans List.filterMap_some
  rw [← hnodes hns, ← hnodes hms, h]

/-- A walk from the root passes through the whole arena. -/
theorem Mirrors.descendants_root (hf : f.Mirrors rows) (ht : rows.IsTree) {root : Node}
    (hroot : f.root? = some root) : f.descendants root = f.nodes.toList := by
  have hhas := hf.has hroot
  have hall : ∀ i (hi : i < f.nodes.size), f.node? i = some f.nodes[i] := fun i hi =>
    Array.getElem?_eq_getElem hi
  refine eq_of_map_id_eq (f := f) ?_ ?_ ?_
  · exact fun m hm => hf.has_of_below hhas ((hf.mem_descendants hhas).1 hm)
  · intro m hm
    obtain ⟨i, hi, rfl⟩ := Array.mem_iff_getElem.1 (Array.mem_toList_iff.1 hm)
    exact hf.has (hall i hi)
  · rw [hf.descendants_eq hhas, hf.id_eq hroot, ht.subtreeSize_root, ← hf.size_eq]
    refine List.ext_getElem (by simp [size]) fun i hi hi' => ?_
    have hlt : i < f.nodes.size := by simpa [size] using hi
    simp [hf.id_eq (hall i hlt)]

/-- A node that does not hang from an earlier one starts behind it. -/
theorem Mirrors.stop_le_start (hf : f.Mirrors rows) (ht : rows.IsTree) {n m : Node} (hn : f.Has n)
    (hm : f.Has m) (hlt : n.id < m.id) (hnot : ¬ f.Below n m) : n.span.stop ≤ m.span.start := by
  rw [(hf.fromRow hn).span_eq, (hf.fromRow hm).span_eq]
  have hunder : ¬ rows.Under n.id m.id := fun h =>
    hnot (below_of_under hf.toInOrder ht hf.fromRow hn hm h)
  exact ht.stop_le_start (hf.size_eq ▸ hm.lt_size) hlt hunder

theorem Mirrors.start_le_stop (hf : f.Mirrors rows) (ht : rows.IsTree) {n : Node} (hn : f.Has n) :
    n.span.start ≤ n.span.stop := by
  rw [(hf.fromRow hn).span_eq]
  exact ht.range n.id (hf.size_eq ▸ hn.lt_size)

theorem Mirrors.stop_le_root (hf : f.Mirrors rows) (ht : rows.IsTree) {n : Node} (hn : f.Has n) :
    n.span.stop ≤ (rows.rowAt 0).span.stop := by
  rw [(hf.fromRow hn).span_eq]
  rcases Nat.eq_zero_or_pos n.id with heq | hpos
  · rw [heq]
  · exact ht.span_under (ht.under_root (hf.size_eq ▸ hn.lt_size) hpos)

theorem Linked.nodes_pairwise (hf : f.Linked) : f.nodes.toList.Pairwise (·.id < ·.id) := by
  refine List.pairwise_iff_getElem.2 fun i j hi hj hlt => ?_
  rw [Array.length_toList] at hi hj
  have hn : f.node? i = some f.nodes[i] := Array.getElem?_eq_getElem hi
  have hm : f.node? j = some f.nodes[j] := Array.getElem?_eq_getElem hj
  rw [Array.getElem_toList, Array.getElem_toList, hf.id_eq hn, hf.id_eq hm]
  exact hlt

end SourceFile

/-! ## Parsed files -/

/-- The outlines of a grammar are syntax trees within the bytes of their texts. -/
def Grammar.GivesTrees (g : Grammar) : Prop :=
  ∀ source rows, g source = some rows →
    Outline.IsTree rows ∧ (Outline.rowAt rows 0).span.stop ≤ source.utf8ByteSize

/-- The grammar that knows some texts. -/
def Grammar.ofSamples (samples : List (String × Outline)) : Grammar :=
  fun source => samples.lookup source

theorem Grammar.mem_of_ofSamples {samples : List (String × Outline)} {source : String} {rows : Outline}
    (h : Grammar.ofSamples samples source = some rows) : (source, rows) ∈ samples := by
  obtain ⟨before, behind, rfl, -⟩ := List.lookup_eq_some_iff.1 h
  simp

theorem Grammar.givesTrees_ofSamples {samples : List (String × Outline)}
    (h : ∀ p ∈ samples, Outline.IsTree p.2 ∧ (Outline.rowAt p.2 0).span.stop ≤ p.1.utf8ByteSize) :
    (Grammar.ofSamples samples).GivesTrees :=
  fun _ _ hrows => h _ (mem_of_ofSamples hrows)

theorem SourceFile.parse_of_outline {g : Grammar} {source : String} {rows : Outline}
    (h : g source = some rows) (path : String) :
    parse g path source = .ok (ofParts path source rows) := by
  simp [parse, h]

/-- A parsed file is complete and has the tree of some outline. -/
theorem SourceFile.mirrors_of_parse {g : Grammar} (hg : g.GivesTrees) {path source : String}
    {f : SourceFile} (hparse : parse g path source = .ok f) :
    ∃ rows : Outline, rows.IsTree ∧ (rows.rowAt 0).span.stop ≤ f.source.utf8ByteSize ∧
      f.Mirrors rows ∧ f.Complete := by
  obtain ⟨rows, hrows, rfl⟩ := ofParts_of_parse hparse
  obtain ⟨ht, hstop⟩ := hg source rows hrows
  refine ⟨rows, ht, ?_, ?_, complete_ofParts path source rows⟩
  · rw [source_ofParts]
    exact hstop
  · exact mirrors_ofParts ht path source (ofParts path source rows).suppressed

end PhpAudit
