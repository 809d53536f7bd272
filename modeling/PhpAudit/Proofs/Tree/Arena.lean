import PhpAudit.Tree.Naming

/-!
# Well-linked arenas

A file keeps each link of its tree twice: a node names its parent and a parent lists its children.
`SourceFile.Linked` says that the two agree and that ids grow from parent to child. Appending a node
keeps it (`Linked.push`), so do the passes that fill in names, and so every parsed file has it
(`linked_of_parse`).
-/

namespace PhpAudit.SourceFile

/-- The arena holds the node at the position that its id names. -/
def Has (f : SourceFile) (n : Node) : Prop := f.node? n.id = some n

/-- The links of an arena agree with each other, and parents stand in front of their children. -/
structure Linked (f : SourceFile) : Prop where
  id_eq : ∀ {i n}, f.node? i = some n → n.id = i
  parent_lt : ∀ {i n p}, f.node? i = some n → n.parent = some p → p < i
  mem_children : ∀ {i n}, f.node? i = some n →
    ∀ c, c ∈ n.children ↔ ∃ m, f.node? c = some m ∧ m.parent = some i
  sorted : ∀ {i n}, f.node? i = some n → n.children.Pairwise (· < ·)

theorem lt_size_of_node? {f : SourceFile} {i : Nat} {n : Node} (h : f.node? i = some n) :
    i < f.size :=
  (Array.getElem?_eq_some_iff.1 h).1

theorem node?_eq_none_iff {f : SourceFile} {i : Nat} : f.node? i = none ↔ f.size ≤ i :=
  Array.getElem?_eq_none_iff

theorem exists_node?_of_lt {f : SourceFile} {i : Nat} (h : i < f.size) : ∃ n, f.node? i = some n :=
  ⟨_, Array.getElem?_eq_getElem h⟩

theorem Has.lt_size {f : SourceFile} {n : Node} (h : f.Has n) : n.id < f.size :=
  lt_size_of_node? h

theorem Has.ext {f : SourceFile} {n m : Node} (hn : f.Has n) (hm : f.Has m) (h : n.id = m.id) :
    n = m := by
  unfold Has at hn hm
  rw [h, hm] at hn
  exact (Option.some.inj hn).symm

theorem Linked.has {f : SourceFile} (hf : f.Linked) {i : Nat} {n : Node} (h : f.node? i = some n) :
    f.Has n := by
  unfold Has
  rw [hf.id_eq h, h]

theorem Linked.mem_nodes {f : SourceFile} (hf : f.Linked) {n : Node} : n ∈ f.nodes.toList ↔ f.Has n := by
  rw [List.mem_iff_getElem?]
  constructor
  · rintro ⟨i, hi⟩
    exact hf.has (i := i) (by rwa [Array.getElem?_toList] at hi)
  · intro h
    exact ⟨n.id, by rwa [Array.getElem?_toList]⟩

/-! ## Appending a node -/

/-- What an append does to the arena: one node is new, and its parent lists it last. -/
theorem node?_push (f : SourceFile) (d : Draft) (i : Nat) :
    (f.push d).node? i =
      if i = f.size then some { d with id := f.size }
      else (f.node? i).map fun n =>
        if d.parent = some i then { n with children := n.children ++ [f.size] } else n := by
  unfold push node? size
  cases hp : d.parent with
  | none =>
    simp only [Array.getElem?_push]
    split
    · rfl
    · cases f.nodes[i]? <;> simp
  | some p =>
    simp only [Array.getElem?_push, Array.size_modify, Array.getElem?_modify]
    split
    · rfl
    · by_cases hpi : p = i
      · simp [hpi]
      · cases f.nodes[i]? <;> simp [hpi]

theorem size_push (f : SourceFile) (d : Draft) : (f.push d).size = f.size + 1 := by
  unfold push size
  cases d.parent <;> simp

theorem node?_push_of_lt {f : SourceFile} (d : Draft) {i : Nat} (h : i < f.size) :
    (f.push d).node? i = (f.node? i).map fun n =>
      if d.parent = some i then { n with children := n.children ++ [f.size] } else n := by
  rw [node?_push, if_neg (Nat.ne_of_lt h)]

/-- A node of the longer arena is the new one or an old one whose child list may have grown. -/
theorem push_cases {f : SourceFile} {d : Draft} {i : Nat} {n : Node}
    (h : (f.push d).node? i = some n) :
    (i = f.size ∧ n = { d with id := f.size }) ∨
      ∃ m, f.node? i = some m ∧ n.toDraft = m.toDraft ∧ n.id = m.id ∧
        n.children = if d.parent = some i then m.children ++ [f.size] else m.children := by
  rw [node?_push] at h
  split at h
  · next hi => exact .inl ⟨hi, (Option.some.inj h).symm⟩
  · obtain ⟨m, hm, rfl⟩ := Option.map_eq_some_iff.1 h
    refine .inr ⟨m, hm, ?_⟩
    split <;> exact ⟨rfl, rfl, rfl⟩

/-- The old nodes keep their drafts and ids. -/
theorem push_old {f : SourceFile} (d : Draft) {i : Nat} {m : Node} (h : f.node? i = some m) :
    ∃ n, (f.push d).node? i = some n ∧ n.toDraft = m.toDraft ∧ n.id = m.id := by
  rw [node?_push_of_lt d (lt_size_of_node? h), h]
  refine ⟨_, rfl, ?_⟩
  split <;> exact ⟨rfl, rfl⟩

theorem push_new (f : SourceFile) (d : Draft) :
    (f.push d).node? f.size = some { d with id := f.size } := by
  rw [node?_push, if_pos rfl]

theorem drafts_push (f : SourceFile) (d : Draft) :
    (f.push d).nodes.toList.map (·.toDraft) = f.nodes.toList.map (·.toDraft) ++ [d] := by
  have hmodify : ∀ (nodes : Array Node) (p : Nat),
      (nodes.modify p fun n => { n with children := n.children ++ [f.nodes.size] }).toList.map (·.toDraft) =
        nodes.toList.map (·.toDraft) := by
    intro nodes p
    refine List.ext_getElem? fun i => ?_
    simp only [List.getElem?_map, Array.getElem?_toList, Array.getElem?_modify]
    split
    · cases nodes[i]? <;> rfl
    · rfl
  unfold push
  cases d.parent with
  | none => simp
  | some p => simpa using hmodify f.nodes p

theorem linked_empty (path source : String) : ({ path := path, source := source } : SourceFile).Linked := by
  refine ⟨?_, ?_, ?_, ?_⟩ <;> simp [node?]

/-- Appending below a node that is there already keeps an arena linked. -/
theorem Linked.push {f : SourceFile} (hf : f.Linked) {d : Draft}
    (hd : ∀ p, d.parent = some p → p < f.size) : (f.push d).Linked := by
  refine ⟨?_, ?_, ?_, ?_⟩
  · intro i n h
    rcases push_cases h with ⟨hi, rfl⟩ | ⟨m, hm, -, hid, -⟩
    · exact hi.symm
    · rw [hid, hf.id_eq hm]
  · intro i n p h hp
    rcases push_cases h with ⟨hi, rfl⟩ | ⟨m, hm, hdr, -, -⟩
    · rw [hi]; exact hd p hp
    · rw [hdr] at hp; exact hf.parent_lt hm hp
  · intro i n h c
    rcases push_cases h with ⟨hi, rfl⟩ | ⟨m, hm, -, -, hch⟩
    · constructor
      · intro hc; simp at hc
      · -- no node can name the new one as its parent
        rintro ⟨k, hk, hkp⟩
        rcases push_cases hk with ⟨-, rfl⟩ | ⟨k', hk', hdr, -, -⟩
        · have := hd i hkp; omega
        · rw [hdr] at hkp
          have := hf.parent_lt hk' hkp
          have := lt_size_of_node? hk'
          omega
    · have hi := lt_size_of_node? hm
      have old : ∀ c, (∃ k, (f.push d).node? c = some k ∧ k.parent = some i) ↔
          (∃ k, f.node? c = some k ∧ k.parent = some i) ∨ (c = f.size ∧ d.parent = some i) := by
        intro c
        constructor
        · rintro ⟨k, hk, hkp⟩
          rcases push_cases hk with ⟨hc, rfl⟩ | ⟨k', hk', hdr, -, -⟩
          · exact .inr ⟨hc, hkp⟩
          · exact .inl ⟨k', hk', by rw [← hdr]; exact hkp⟩
        · rintro (⟨k, hk, hkp⟩ | ⟨rfl, hdp⟩)
          · obtain ⟨k', hk', hdr, -⟩ := push_old d hk
            exact ⟨k', hk', by rw [hdr]; exact hkp⟩
          · exact ⟨_, push_new f d, hdp⟩
      rw [old c, ← hf.mem_children hm c, hch]
      split
      · next hdi => simp [hdi]
      · next hdi => simp [hdi]
  · intro i n h
    rcases push_cases h with ⟨-, rfl⟩ | ⟨m, hm, -, -, hch⟩
    · exact List.Pairwise.nil
    · rw [hch]
      split
      · rw [List.pairwise_append]
        refine ⟨hf.sorted hm, List.pairwise_singleton _ _, ?_⟩
        intro a ha b hb
        obtain ⟨k, hk, -⟩ := (hf.mem_children hm a).1 ha
        rw [List.mem_singleton.1 hb]
        exact lt_size_of_node? hk
      · exact hf.sorted hm

/-! ## Parsed files -/

section PushRows
variable (starts : List Nat) (f : SourceFile) (ids : List Nat) (rows : Outline)

theorem size_pushRows : (pushRows starts f ids rows).size = f.size + rows.length := by
  induction rows generalizing f ids with
  | nil => rfl
  | cons row rows ih =>
    simp only [pushRows]
    rw [ih, size_push, List.length_cons]
    omega

theorem path_pushRows : (pushRows starts f ids rows).path = f.path := by
  induction rows generalizing f ids with
  | nil => rfl
  | cons row rows ih => exact ih _ _

theorem source_pushRows : (pushRows starts f ids rows).source = f.source := by
  induction rows generalizing f ids with
  | nil => rfl
  | cons row rows ih => exact ih _ _

end PushRows

theorem path_ofParts (path source : String) (rows : Outline) :
    (ofParts path source rows).path = path :=
  path_pushRows ..

theorem source_ofParts (path source : String) (rows : Outline) :
    (ofParts path source rows).source = source :=
  source_pushRows ..

/-- The ids on the path of `pushRows` are those of earlier nodes. -/
theorem Linked.pushRows {starts : List Nat} {f : SourceFile} {path : List Nat} {rows : Outline}
    (hf : f.Linked) (hpath : ∀ i ∈ path, i < f.size) :
    (SourceFile.pushRows starts f path rows).Linked := by
  induction rows generalizing f path with
  | nil => exact hf
  | cons row rows ih =>
    unfold SourceFile.pushRows
    have habove : ∀ i ∈ path.drop (path.length - row.depth), i < f.size :=
      fun i hi => hpath i (List.mem_of_mem_drop hi)
    refine ih (hf.push fun p hp => habove p (List.mem_of_mem_head? hp)) ?_
    intro i hi
    rw [size_push]
    rcases List.mem_cons.1 hi with rfl | hi
    · exact Nat.lt_succ_self _
    · exact Nat.lt_succ_of_lt (habove i hi)

theorem node?_mapNodes (f : SourceFile) (g : Node → Node) (i : Nat) :
    (f.mapNodes g).node? i = (f.node? i).map g := by
  simp [mapNodes, node?]

/-- A pass that leaves ids and links alone keeps an arena linked. -/
theorem Linked.mapNodes {f : SourceFile} (hf : f.Linked) {g : Node → Node}
    (hid : ∀ n, (g n).id = n.id) (hparent : ∀ n, (g n).parent = n.parent)
    (hchildren : ∀ n, (g n).children = n.children) : (f.mapNodes g).Linked := by
  have old : ∀ {i n}, (f.mapNodes g).node? i = some n → ∃ m, f.node? i = some m ∧ g m = n := by
    intro i n h
    rw [node?_mapNodes] at h
    exact Option.map_eq_some_iff.1 h
  refine ⟨?_, ?_, ?_, ?_⟩
  · intro i n h
    obtain ⟨m, hm, rfl⟩ := old h
    rw [hid, hf.id_eq hm]
  · intro i n p h hp
    obtain ⟨m, hm, rfl⟩ := old h
    rw [hparent] at hp
    exact hf.parent_lt hm hp
  · intro i n h c
    obtain ⟨m, hm, rfl⟩ := old h
    rw [hchildren, hf.mem_children hm c]
    constructor
    · rintro ⟨k, hk, hkp⟩
      exact ⟨g k, by rw [node?_mapNodes, hk]; rfl, by rw [hparent]; exact hkp⟩
    · rintro ⟨k, hk, hkp⟩
      obtain ⟨k', hk', rfl⟩ := old hk
      exact ⟨k', hk', by rw [← hparent]; exact hkp⟩
  · intro i n h
    obtain ⟨m, hm, rfl⟩ := old h
    rw [hchildren]
    exact hf.sorted hm

theorem linked_ofOutline (path source : String) (rows : Outline) :
    (ofOutline path source rows).Linked :=
  (linked_empty path source).pushRows (by simp)

theorem linked_ofParts (path source : String) (rows : Outline) :
    (ofParts path source rows).Linked := by
  have h := (linked_ofOutline path source rows).mapNodes
    (g := fun n => { n with value := (ofOutline path source rows).identifier? n })
    (fun _ => rfl) (fun _ => rfl) (fun _ => rfl)
  have hn : ((ofOutline path source rows).withIdentifiers.withNamespaces).Linked :=
    ⟨h.id_eq, h.parent_lt, h.mem_children, h.sorted⟩
  exact hn.mapNodes (fun _ => rfl) (fun _ => rfl) (fun _ => rfl)

theorem ofParts_of_parse {grammar : Grammar} {path source : String} {f : SourceFile}
    (h : parse grammar path source = .ok f) :
    ∃ rows, grammar source = some rows ∧ f = ofParts path source rows := by
  unfold parse at h
  split at h
  · next rows hg => exact ⟨rows, hg, (Except.ok.inj h).symm⟩
  · cases h

/-- Every parsed file is linked. -/
theorem linked_of_parse {grammar : Grammar} {path source : String} {f : SourceFile}
    (h : parse grammar path source = .ok f) : f.Linked := by
  obtain ⟨rows, -, rfl⟩ := ofParts_of_parse h
  exact linked_ofParts path source rows

end PhpAudit.SourceFile
