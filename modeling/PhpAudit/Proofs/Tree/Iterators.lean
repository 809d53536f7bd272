import PhpAudit.Proofs.Tree.Walk
import PhpAudit.Query.Binding

/-!
# Walks as loops

A walk can be run as a loop that keeps a state from turn to turn: a stack of the ids that are still to be visited on the
way down, or the id of the next node on the way up. A loop that comes to an end delivers one list of nodes
(`Delivers.unique`). In a linked file the loops end and deliver the lists of the walks, in the same order:
`descendants` by `descendTurn`, every other preorder walk by `visitTurn`, and `ancestors` by `ascendTurn`. Where the
parents of a node run in a circle, the loop from there upwards has no end (`not_delivers_of_circle`), and the list of
the walk is only as long as its fuel.
-/

namespace PhpAudit

/-! ## Loops -/

section Loop

variable {σ α : Type} {turn : σ → Option (Option α × σ)} {s : σ} {as bs : List α}

/-- A loop that starts in a state ends after some turns, which deliver these items in order. A turn delivers
one item or none. -/
inductive Delivers (turn : σ → Option (Option α × σ)) : σ → List α → Prop
  | stop {s : σ} (h : turn s = none) : Delivers turn s []
  | item {s s' : σ} {a : α} {as : List α} (h : turn s = some (some a, s'))
      (rest : Delivers turn s' as) : Delivers turn s (a :: as)
  | skip {s s' : σ} {as : List α} (h : turn s = some (none, s')) (rest : Delivers turn s' as) :
      Delivers turn s as

theorem Delivers.unique (h : Delivers turn s as) (h' : Delivers turn s bs) : as = bs := by
  induction h generalizing bs with
  | stop h =>
    cases h' with
    | stop => rfl
    | item h' => cases h.symm.trans h'
    | skip h' => cases h.symm.trans h'
  | item h _ ih =>
    cases h' with
    | stop h' => cases h'.symm.trans h
    | item h' rest =>
      cases h.symm.trans h'
      rw [ih rest]
    | skip h' => cases h.symm.trans h'
  | skip h _ ih =>
    cases h' with
    | stop h' => cases h'.symm.trans h
    | item h' => cases h.symm.trans h'
    | skip h' rest =>
      cases h.symm.trans h'
      exact ih rest

end Loop

namespace SourceFile

/-! ## Turns -/

/-- A turn of an iterator over the nodes below a node: the top of the stack is delivered, and its children take
its place, the first on top. At an id without a node the iterator stops. -/
def descendTurn (f : SourceFile) : List Nat → Option (Option Node × List Nat)
  | [] => none
  | id :: stack => (f.node? id).map fun n => (some n, n.children ++ stack)

/-- A turn of a search that passes by what it does not enter, and by ids without a node. -/
def visitTurn (f : SourceFile) (enter : Node → Bool) : List Nat → Option (Option Node × List Nat)
  | [] => none
  | id :: stack =>
    match f.node? id with
    | some n => some (if enter n then (some n, n.children ++ stack) else (none, stack))
    | none => some (none, stack)

/-- A turn of an iterator over the nodes around a node, whose state is the id of the next one. -/
def ascendTurn (f : SourceFile) (next : Option Nat) : Option (Option Node × Option Nat) :=
  (next.bind f.node?).map fun n => (some n, n.parent)

variable {f : SourceFile} {enter : Node → Bool} {n : Node}

/-- What both ways down do at the id of a node. -/
structure VisitsTop (f : SourceFile) (enter : Node → Bool)
    (turn : List Nat → Option (Option Node × List Nat)) : Prop where
  nil : turn [] = none
  cons : ∀ {n : Node} (stack : List Nat), f.Has n →
    turn (n.id :: stack) = some (if enter n then (some n, n.children ++ stack) else (none, stack))

theorem visitsTop_descendTurn : f.VisitsTop (fun _ => true) f.descendTurn where
  nil := rfl
  cons stack hn := by
    unfold descendTurn
    dsimp only
    rw [show f.node? _ = some _ from hn]
    rfl

theorem visitsTop_visitTurn (enter : Node → Bool) : f.VisitsTop enter (f.visitTurn enter) where
  nil := rfl
  cons stack hn := by
    unfold visitTurn
    dsimp only
    rw [show f.node? _ = some _ from hn]

/-! ## The way down -/

section Down

variable {turn : List Nat → Option (Option Node × List Nat)} (ht : f.VisitsTop enter turn)

/-- Nodes on the stack are walked through one after the other. -/
theorem delivers_flatMap {ms : List Node} {stack : List Nat} {ns : List Node}
    (hms : ∀ m ∈ ms, ∀ {stack ns}, Delivers turn stack ns →
      Delivers turn (m.id :: stack) (f.preorder enter m ++ ns))
    (h : Delivers turn stack ns) :
    Delivers turn (ms.map (·.id) ++ stack) (ms.flatMap (f.preorder enter) ++ ns) := by
  induction ms with
  | nil => exact h
  | cons m ms ih =>
    rw [List.map_cons, List.cons_append, List.flatMap_cons, List.append_assoc]
    exact hms m List.mem_cons_self (ih fun m' hm' => hms m' (List.mem_cons_of_mem _ hm'))

include ht

/-- The walk from the top of the stack comes first, and then what the rest of the stack delivers. -/
theorem Linked.delivers_cons (hf : f.Linked) (hn : f.Has n) :
    ∀ {stack ns}, Delivers turn stack ns → Delivers turn (n.id :: stack) (f.preorder enter n ++ ns) := by
  refine hf.leafInduction (P := fun n => ∀ {stack ns}, Delivers turn stack ns →
    Delivers turn (n.id :: stack) (f.preorder enter n ++ ns)) ?_ n hn
  intro n hn ih stack ns h
  have htop := ht.cons stack hn
  rw [hf.preorder_eq enter hn]
  split
  · next henter =>
    rw [if_pos henter, ← hf.map_id_children hn] at htop
    exact .item htop (delivers_flatMap ih h)
  · next henter =>
    rw [if_neg henter] at htop
    exact .skip htop h

theorem Linked.delivers_preorder (hf : f.Linked) (hn : f.Has n) :
    Delivers turn [n.id] (f.preorder enter n) := by
  simpa using hf.delivers_cons ht hn (.stop ht.nil)

end Down

/-- The iterator over the nodes below a node delivers them in the order of the walk. -/
theorem Linked.delivers_descendants (hf : f.Linked) (hn : f.Has n) :
    Delivers f.descendTurn [n.id] (f.descendants n) :=
  hf.delivers_preorder visitsTop_descendTurn hn

/-- The search for bindings in front of a node delivers the nodes that they are looked for at. -/
theorem Linked.delivers_nodesBefore (hf : f.Linked) {boundary : Node} (hb : f.Has boundary)
    (cursor : Node) :
    Delivers (f.visitTurn fun m =>
        m.span.start < cursor.span.start && (m.id == boundary.id || !m.kind.isFunctionLike))
      [boundary.id] (f.nodesBefore cursor boundary) :=
  hf.delivers_preorder (visitsTop_visitTurn _) hb

/-! ## The way up -/

theorem ascendTurn_parent (n : Node) :
    f.ascendTurn n.parent = (f.parent? n).map fun p => (some p, p.parent) := rfl

/-- The iterator over the nodes around a node delivers them in the order of the walk. -/
theorem Linked.delivers_ancestors (hf : f.Linked) (hn : f.Has n) :
    Delivers f.ascendTurn n.parent (f.ancestors n) := by
  refine hf.rootInduction (P := fun n => Delivers f.ascendTurn n.parent (f.ancestors n)) ?_ n hn
  intro n hn ih
  rw [hf.ancestors_eq hn]
  cases hp : f.parent? n with
  | none => exact .stop (by rw [ascendTurn_parent, hp, Option.map_none])
  | some p =>
    rw [Option.map_some, Option.getD_some]
    exact .item (by rw [ascendTurn_parent, hp, Option.map_some]) (ih p hp)

/-- What is delivered on the way up from a node begins with the way to any node around it. -/
theorem exists_way_of_delivers {ns : List Node} {m : Node} (h : Delivers f.ascendTurn n.parent ns)
    (hm : Relation.TransGen (fun a b => f.parent? a = some b) n m) :
    ∃ way rest, way ≠ [] ∧ ns = way ++ rest ∧ Delivers f.ascendTurn m.parent rest := by
  have step : ∀ {a b : Node} {ns}, f.parent? a = some b → Delivers f.ascendTurn a.parent ns →
      ∃ rest, ns = b :: rest ∧ Delivers f.ascendTurn b.parent rest := by
    intro a b ns hb h
    have hturn : f.ascendTurn a.parent = some (some b, b.parent) := by
      rw [ascendTurn_parent, hb, Option.map_some]
    cases h with
    | stop h => cases h.symm.trans hturn
    | item h rest =>
      cases h.symm.trans hturn
      exact ⟨_, rfl, rest⟩
    | skip h => cases h.symm.trans hturn
  induction hm with
  | @single b hb =>
    obtain ⟨rest, rfl, hrest⟩ := step hb h
    exact ⟨[b], rest, by simp, rfl, hrest⟩
  | @tail b c _ hc ih =>
    obtain ⟨way, rest, -, rfl, hrest⟩ := ih
    obtain ⟨rest', rfl, hrest'⟩ := step hc hrest
    exact ⟨way ++ [c], rest', by simp, by simp, hrest'⟩

/-- Where the parents of a node run in a circle, the way up from it has no end. -/
theorem not_delivers_of_circle (hn : Relation.TransGen (fun a b => f.parent? a = some b) n n)
    (ns : List Node) : ¬ Delivers f.ascendTurn n.parent ns := by
  intro h
  obtain ⟨way, rest, hway, hsplit, hrest⟩ := exists_way_of_delivers h hn
  rw [h.unique hrest] at hsplit
  exact hway (by simpa using hsplit)

end SourceFile

end PhpAudit
