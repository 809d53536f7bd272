import Mathlib.Data.List.Basic
import PhpAudit.Proofs.Query.Steps
import PhpAudit.Proofs.Tree.Appending
import PhpAudit.Query.Taint

/-!
# Questions that no answer passes over

The class of an expression and the flow of outside input rest on questions that make no sense at every node: the
type of a parameter, the bindings of a variable, the node with an id. A strict query ends with the misuse if one of
them is asked at the wrong place. In a numbered file that never happens: kinds are looked at before a question is
asked, and every id belongs to a node at hand. So a strict query gives the answer of the plain one
(`strictIsTainted_eq`, `strictClassOf_eq`), whatever tree the nodes form.
-/

namespace PhpAudit

section Answered
variable {ε α β : Type}

theorem mapM_eq_pure {ask : α → Except ε β} {answer : α → β} {xs : List α}
    (h : ∀ x ∈ xs, ask x = pure (answer x)) : xs.mapM ask = pure (xs.map answer) := by
  induction xs with
  | nil => rfl
  | cons x xs ih =>
    rw [List.mapM_cons, h x List.mem_cons_self, pure_bind, ih fun y hy => h y (List.mem_cons_of_mem x hy),
      pure_bind, List.map_cons]

theorem anyM_eq_pure {ask : α → Except ε Bool} {answer : α → Bool} {xs : List α}
    (h : ∀ x ∈ xs, ask x = pure (answer x)) : xs.anyM ask = pure (xs.any answer) := by
  induction xs with
  | nil => rfl
  | cons x xs ih =>
    rw [List.anyM_cons, h x List.mem_cons_self, pure_bind, ih fun y hy => h y (List.mem_cons_of_mem x hy),
      List.any_cons]
    cases answer x <;> rfl

end Answered

namespace SourceFile

variable {f : SourceFile}

/-! ## Nodes by their ids -/

theorem Numbered.has (hf : f.Numbered) {i : Nat} {n : Node} (h : f.node? i = some n) : f.Has n := by
  unfold Has
  rw [hf i n h, h]

theorem Numbered.has_of_parent? (hf : f.Numbered) {n p : Node} (h : f.parent? n = some p) : f.Has p := by
  obtain ⟨i, -, hi⟩ := Option.bind_eq_some_iff.1 h
  exact hf.has hi

theorem Numbered.stable_has (hf : f.Numbered) : f.Stable f.Has where
  root := hf.has
  child _ hm := by
    obtain ⟨c, -, hc⟩ := List.mem_filterMap.1 hm
    exact hf.has hc
  parent _ hm := hf.has_of_parent? hm

/-- What stands around a node is in the file, whether or not the node itself is. -/
theorem Numbered.has_of_mem_ancestors (hf : f.Numbered) {n a : Node} (h : a ∈ f.ancestors n) : f.Has a := by
  unfold ancestors trail at h
  cases hsize : f.size with
  | zero =>
    rw [hsize] at h
    cases h
  | succ fuel =>
    rw [hsize, trailFrom] at h
    split at h
    · cases h
    · next p hp => exact trailFrom_forall hf.stable_has.parent (hf.has_of_parent? hp) a h

theorem node_of_has {n : Node} (h : f.Has n) : f.node n.id = pure n := by
  unfold node
  rw [h]
  rfl

/-! ## Bindings -/

/-- The bindings of a variable before `cursor` in the function `boundary`, each site looked up by its id. -/
def strictBindingsIn (f : SourceFile) (name : String) (cursor boundary : Node) :
    Except Misuse (List Binding) := do
  let sites ← (f.nodesBefore cursor boundary).reverse.mapM fun site => f.node site.id
  return sites.filterMap (f.binding? cursor name)

/-- The bindings before `cursor` in the functions around it, as far as the variable is captured. -/
def strictBindingsThrough (f : SourceFile) (name : String) (cursor : Node) :
    List Node → Except Misuse (List Binding)
  | [] =>
    match f.root? with
    | some root => f.strictBindingsIn name cursor root
    | none => return []
  | function :: outer => do
    let inner ← f.strictBindingsIn name cursor function
    let around ← if f.captures name function then f.strictBindingsThrough name function outer else pure []
    return inner ++ around

/-- The bindings of a variable that precede a node. -/
def strictBindings (f : SourceFile) (n : Node) (name : String) : Except Misuse (List Binding) :=
  f.strictBindingsThrough (Text.stripStart '$' name) n (f.enclosingFunctions n)

/-- The bindings of the variable that a node has to be. -/
def strictOwnBindings (f : SourceFile) (n : Node) : Except Misuse (List Binding) := do
  let name ← f.variableName n
  f.strictBindings n name

theorem strictBindingsIn_eq (hf : f.Numbered) (name : String) (cursor : Node) {boundary : Node}
    (hb : f.Has boundary) :
    f.strictBindingsIn name cursor boundary = pure (f.bindingsIn name cursor boundary) := by
  have hsites : ∀ site ∈ (f.nodesBefore cursor boundary).reverse, f.node site.id = pure (id site) := by
    intro site hsite
    exact node_of_has (hf.stable_has.preorder hb site (List.mem_reverse.1 hsite))
  unfold strictBindingsIn bindingsIn
  rw [mapM_eq_pure hsites, pure_bind, List.map_id]

theorem strictBindingsThrough_eq (hf : f.Numbered) (name : String) (cursor : Node) {functions : List Node}
    (h : ∀ function ∈ functions, f.Has function) :
    f.strictBindingsThrough name cursor functions = pure (f.bindingsThrough name cursor functions) := by
  induction functions generalizing cursor with
  | nil =>
    unfold strictBindingsThrough bindingsThrough
    cases hroot : f.root? with
    | none => rfl
    | some root => exact strictBindingsIn_eq hf name cursor (hf.has hroot)
  | cons function outer ih =>
    have hfunction := h function List.mem_cons_self
    have houter := ih function fun g hg => h g (List.mem_cons_of_mem function hg)
    unfold strictBindingsThrough bindingsThrough
    rw [strictBindingsIn_eq hf name cursor hfunction, pure_bind, houter]
    split
    · rw [pure_bind]
    · rw [pure_bind]

theorem strictBindings_eq (hf : f.Numbered) (n : Node) (name : String) :
    f.strictBindings n name = pure (f.bindings n name) :=
  strictBindingsThrough_eq hf _ n fun _ hfunction => hf.has_of_mem_ancestors (List.mem_filter.1 hfunction).1

/-- A variable has bindings to tell; no other node does. -/
theorem strictOwnBindings_eq (hf : f.Numbered) {n : Node} (hk : n.kind = .var) :
    f.strictOwnBindings n = pure (f.bindings n (n.value.getD "")) := by
  unfold strictOwnBindings variableName Node.expect
  rw [if_pos hk]
  exact strictBindings_eq hf n _

/-- The expressions that a variable may have its value from. -/
def strictOrigins (f : SourceFile) (n : Node) : Except Misuse (List Node) := do
  if n.value == some "this" then return []
  let bindings ← f.strictOwnBindings n
  return bindings.filterMap Binding.origin?

theorem strictOrigins_eq (hf : f.Numbered) {n : Node} (hk : n.kind = .var) :
    f.strictOrigins n = pure (f.origins n) := by
  unfold strictOrigins origins
  rw [strictOwnBindings_eq hf hk]
  cases hthis : n.value == some "this" <;> simp [hk, bne, hthis]

theorem parameterType_of_parameter {n : Node} (hk : n.kind = .parameter) :
    f.parameterType n = pure (f.declaredType? n) := by
  unfold parameterType Node.expect
  rw [if_pos hk]
  rfl

end SourceFile

namespace Context

variable {cx : Context}

/-! ## Classes of expressions -/

/-- The class of an expression that needs no binding; only a parameter has a declared type. -/
def strictEvidentClass (cx : Context) (n : Node) : Except Misuse (Option String) :=
  match n.kind with
  | .parameter => cx.file.parameterType n
  | _ => return cx.evidentClass? n

/-- The class of an expression, following at most `hops` bindings. -/
def strictClassWithin (cx : Context) : Nat → Node → Except Misuse (Option String)
  | hops, n =>
    (cx.file.typeSource? n).elim (pure none) fun source =>
      if isFreeVariable source then
        match hops with
        | 0 => return none
        | hops + 1 => do
          let bindings ← cx.file.strictBindings source (source.value.getD "")
          bindings.findSomeM? fun binding =>
            (bindingSource? binding).elim (pure none) (cx.strictClassWithin hops)
      else cx.strictEvidentClass source

/-- The class of the value of an expression, where it is evident. -/
def strictClassOf (cx : Context) (n : Node) : Except Misuse (Option String) :=
  cx.strictClassWithin maxTypeHops n

/-- The class that a static call is made on. -/
def strictStaticClass (cx : Context) (n : Node) : Except Misuse (Option String) :=
  if n.kind = .staticCall then (cx.file.receiver? n).elim (pure none) cx.strictClassOf else return none

theorem strictEvidentClass_eq (cx : Context) (n : Node) :
    cx.strictEvidentClass n = pure (cx.evidentClass? n) := by
  unfold strictEvidentClass
  split
  · next hk =>
    unfold evidentClass?
    rw [SourceFile.parameterType_of_parameter hk, hk]
  · rfl

/-- The induction is on the hops that are left; each takes one look at the bindings of a variable. -/
theorem strictClassWithin_eq (hf : cx.file.Numbered) (hops : Nat) (n : Node) :
    cx.strictClassWithin hops n = pure (cx.classWithin hops n) := by
  induction hops generalizing n with
  | zero =>
    unfold strictClassWithin classWithin
    cases cx.file.typeSource? n with
    | none => rfl
    | some source =>
      rw [Option.elim_some, Option.bind_some, strictEvidentClass_eq]
      split <;> rfl
  | succ hops ih =>
    unfold strictClassWithin classWithin
    cases cx.file.typeSource? n with
    | none => rfl
    | some source =>
      have hbinding : (fun binding => (bindingSource? binding).elim (pure none) (cx.strictClassWithin hops)) =
          fun binding => (pure ((bindingSource? binding).bind (cx.classWithin hops)) :
            Except Misuse (Option String)) := by
        funext binding
        cases bindingSource? binding with
        | none => rfl
        | some next => exact ih next
      rw [Option.elim_some, Option.bind_some, strictEvidentClass_eq]
      split
      · dsimp only
        rw [SourceFile.strictBindings_eq hf, pure_bind, hbinding, List.findSomeM?_pure]
      · rfl

theorem strictClassOf_eq (hf : cx.file.Numbered) (n : Node) : cx.strictClassOf n = pure (cx.classOf? n) :=
  strictClassWithin_eq hf maxTypeHops n

theorem strictStaticClass_eq (hf : cx.file.Numbered) (n : Node) :
    cx.strictStaticClass n = pure (cx.staticClass? n) := by
  unfold strictStaticClass staticClass?
  split
  · cases cx.file.receiver? n with
    | none => rfl
    | some receiver => exact strictClassOf_eq hf receiver
  · rfl

/-! ## Reads of the request -/

/-- Whether the head of a chain is the current request. -/
def strictIsRequestValue (cx : Context) (head : Node) : Except Misuse Bool :=
  match head.kind with
  | .functionCall => return cx.file.isNamed head "request"
  | .var => do
    let found ← cx.strictClassOf head
    return found.any cx.isRequestClass
  | .name | .qualifiedName => do
    let found ← cx.strictClassOf head
    return found.any fun c => isRequestFacade c || cx.isRequestClass c
  | _ => return false

/-- Whether an expression reads the current request. -/
def strictReadsRequest (cx : Context) (n : Node) : Except Misuse Bool :=
  match n.kind with
  | .functionCall => return cx.file.isNamed n "request"
  | .staticCall => do
    let found ← cx.strictStaticClass n
    return found.any fun c => isRequestFacade c || cx.isRequestClass c
  | .methodCall =>
    if cx.file.passesThisRequest n then return true
    else (cx.file.chainHead? n).elim (pure false) cx.strictIsRequestValue
  | .propertyAccess =>
    if cx.file.isThisRequest n then return true
    else (cx.file.child? n "object").elim (pure false) fun object =>
      if object.kind = .var then cx.strictIsRequestValue object else return false
  | _ => return false

theorem strictIsRequestValue_eq (hf : cx.file.Numbered) (head : Node) :
    cx.strictIsRequestValue head = pure (cx.isRequestValue head) := by
  unfold strictIsRequestValue isRequestValue
  rw [strictClassOf_eq hf]
  cases head.kind <;> rfl

theorem strictReadsRequest_eq (hf : cx.file.Numbered) (n : Node) :
    cx.strictReadsRequest n = pure (cx.readsRequest n) := by
  unfold strictReadsRequest readsRequest
  rw [strictStaticClass_eq hf]
  cases n.kind with
  | methodCall =>
    dsimp only
    cases cx.file.passesThisRequest n with
    | true => rfl
    | false =>
      cases cx.file.chainHead? n with
      | none => rfl
      | some head => exact strictIsRequestValue_eq hf head
  | propertyAccess =>
    dsimp only
    cases cx.file.isThisRequest n with
    | true => rfl
    | false =>
      cases cx.file.child? n "object" with
      | none => rfl
      | some object =>
        by_cases hk : object.kind = .var
        · simp [hk, strictIsRequestValue_eq hf]
        · simp [hk]
  | _ => rfl

/-- Whether a node itself reads data from outside. -/
def strictIsSource (cx : Context) (n : Node) : Except Misuse Bool :=
  if cx.file.readsInput n then return true else cx.strictReadsRequest n

theorem strictIsSource_eq (hf : cx.file.Numbered) (n : Node) :
    cx.strictIsSource n = pure (cx.isSource n) := by
  unfold strictIsSource isSource
  rw [strictReadsRequest_eq hf]
  cases cx.file.readsInput n <;> rfl

/-! ## The search -/

/-- Tries the nodes of a list in turn until one answers yes. -/
def strictFirstHit {σ : Type} (visit : Node → σ → Except Misuse (Bool × σ)) :
    List Node → σ → Except Misuse (Bool × σ)
  | [], seen => return (false, seen)
  | n :: ns, seen => do
    match ← visit n seen with
    | (true, seen) => return (true, seen)
    | (false, seen) => strictFirstHit visit ns seen

/-- Looks for a source behind `n`, following at most `hops` bindings and passing by the nodes that have been
`seen`. -/
def strictSearch (cx : Context) : Nat → Nat → Node → List Nat → Except Misuse (Bool × List Nat)
  | 0, _, _, seen => return (false, seen)
  | fuel + 1, hops, n, seen => do
    if seen.contains n.id then return (false, seen)
    let isSource ← cx.strictIsSource n
    if isSource then return (true, n.id :: seen)
    if n.kind = .var then
      match hops with
      | 0 => return (false, n.id :: seen)
      | hops + 1 => do
        let origins ← cx.file.strictOrigins n
        strictFirstHit (cx.strictSearch fuel hops) origins (n.id :: seen)
    else strictFirstHit (cx.strictSearch fuel hops) (cx.file.parts n) (n.id :: seen)

/-- Whether the value of an expression may come from outside the program. -/
def strictIsTainted (cx : Context) (n : Node) : Except Misuse Bool := do
  let (found, _) ← cx.strictSearch (cx.file.size + 1) maxOriginHops n []
  return found

theorem strictFirstHit_eq {σ : Type} {strict : Node → σ → Except Misuse (Bool × σ)}
    {visit : Node → σ → Bool × σ} (h : ∀ n seen, strict n seen = pure (visit n seen)) (ns : List Node)
    (seen : σ) : strictFirstHit strict ns seen = pure (firstHit visit ns seen) := by
  induction ns generalizing seen with
  | nil => rfl
  | cons n ns ih =>
    unfold strictFirstHit firstHit
    rw [h n seen, pure_bind]
    cases visit n seen with
    | mk found seen =>
      cases found with
      | true => rfl
      | false => exact ih seen

/-- The induction is on the fuel; whether hops are left only decides how far a variable is followed. -/
theorem strictSearch_eq (hf : cx.file.Numbered) (fuel hops : Nat) (n : Node) (seen : List Nat) :
    cx.strictSearch fuel hops n seen = pure (cx.search fuel hops n seen) := by
  induction fuel generalizing hops n seen with
  | zero => rfl
  | succ fuel ih =>
    unfold strictSearch search
    by_cases hseen : seen.contains n.id = true
    · rw [if_pos hseen, if_pos hseen]
    rw [if_neg hseen, if_neg hseen, strictIsSource_eq hf, pure_bind]
    by_cases hsource : cx.isSource n = true
    · rw [if_pos hsource, if_pos hsource]
    rw [if_neg hsource, if_neg hsource]
    by_cases hk : n.kind = .var
    · rw [if_pos hk, if_pos hk]
      cases hops with
      | zero => rfl
      | succ hops =>
        -- bindings are asked for at a variable, which is where they may be
        dsimp only
        rw [SourceFile.strictOrigins_eq hf hk, pure_bind]
        exact strictFirstHit_eq (ih hops) _ _
    · rw [if_neg hk, if_neg hk]
      exact strictFirstHit_eq (ih hops) _ _

theorem strictIsTainted_eq (hf : cx.file.Numbered) (n : Node) :
    cx.strictIsTainted n = pure (cx.isTainted n) := by
  unfold strictIsTainted isTainted
  rw [strictSearch_eq hf, pure_bind]

end Context

end PhpAudit
