import Mathlib.Data.List.Basic
import PhpAudit.Proofs.Hierarchy.Growth
import PhpAudit.Proofs.Query.Steps

/-!
# Queries in a growing project

One file is asked in two contexts: with a hierarchy that covers it and with one that extends the first.
The class of an expression is the same in both (`classWithin_eq`), since a class around a node of the file
is known to both. What depends on subclasses can only turn from no to yes: a read of the request
(`readsRequest_grows`), and with the sources the taint (`isTainted_grows`). The search is compared step by
step: it makes the same visits in both contexts until the larger one answers yes.
-/

namespace PhpAudit.Context

/-- A file that is covered by `h` is asked with `h` and with an extension `h'` of it. -/
structure Grows (f : SourceFile) (h h' : Hierarchy) : Prop where
  linked : f.Linked
  covered : f.Covered h
  extends_classes : h.Extends h'

variable {f : SourceFile} {h h' : Hierarchy}

/-! ## Classes of expressions -/

theorem parentClass?_eq (hg : Grows f h h') {n : Node} (hn : f.Rooted n) :
    (Context.mk f h').parentClass? n = (Context.mk f h).parentClass? n := by
  unfold parentClass?
  cases hdecl : f.enclosingClass? n with
  | none => rfl
  | some decl =>
    have hkind : decl.kind.isClassLike = true :=
      List.find?_some (p := fun a : Node => a.kind.isClassLike) hdecl
    have hrooted : f.Rooted decl :=
      hg.linked.stable_rooted.ancestors hn decl (List.mem_of_find?_eq_some hdecl)
    rw [Option.bind_some, Option.bind_some]
    cases hname : decl.name? with
    | none => rfl
    | some name =>
      have hknown := hg.covered decl name hrooted hkind hname
      rw [Option.bind_some, Option.bind_some, hg.extends_classes.parentOf?_eq hknown]
      rfl

theorem evidentClass?_eq (hg : Grows f h h') {n : Node} (hn : f.Rooted n) :
    (Context.mk f h').evidentClass? n = (Context.mk f h).evidentClass? n := by
  have hresolve : ∀ written,
      (Context.mk f h').resolve? n written = (Context.mk f h).resolve? n written := by
    intro written
    unfold resolve?
    rw [parentClass?_eq hg hn]
    rfl
  unfold evidentClass?
  rw [hresolve]
  rfl

theorem classWithin_eq (hg : Grows f h h') (hops : Nat) {n : Node} (hn : f.Rooted n) :
    (Context.mk f h').classWithin hops n = (Context.mk f h).classWithin hops n := by
  have hs := hg.linked.stable_rooted
  induction hops generalizing n with
  | zero =>
    unfold classWithin
    refine Option.bind_congr fun source hsource => ?_
    rw [evidentClass?_eq hg (hs.typeSource? hn hsource)]
  | succ hops ih =>
    unfold classWithin
    refine Option.bind_congr fun source hsource => ?_
    have hrooted := hs.typeSource? hn hsource
    rw [evidentClass?_eq hg hrooted]
    have hbindings : (f.bindings source (source.value.getD "")).findSome? (fun b =>
          (bindingSource? b).bind ((Context.mk f h').classWithin hops)) =
        (f.bindings source (source.value.getD "")).findSome? fun b =>
          (bindingSource? b).bind ((Context.mk f h).classWithin hops) := by
      rw [← List.head?_filterMap, ← List.head?_filterMap]
      refine congrArg List.head? (List.filterMap_congr fun b hb => ?_)
      exact Option.bind_congr fun m hm => ih (hs.bindingSource? hrooted hb hm)
    simp only [hbindings]

theorem classOf?_eq (hg : Grows f h h') {n : Node} (hn : f.Rooted n) :
    (Context.mk f h').classOf? n = (Context.mk f h).classOf? n :=
  classWithin_eq hg maxTypeHops hn

theorem staticClass?_eq (hg : Grows f h h') {n : Node} (hn : f.Rooted n) :
    (Context.mk f h').staticClass? n = (Context.mk f h).staticClass? n := by
  unfold staticClass?
  split
  · exact Option.bind_congr fun m hm =>
      classOf?_eq hg (hg.linked.stable_rooted.receiver? hn hm)
  · rfl

/-! ## Sources -/

theorem any_grows {α : Type} {o : Option α} {p q : α → Bool}
    (hpq : ∀ a, o = some a → p a = true → q a = true) (hp : o.any p = true) : o.any q = true := by
  cases o with
  | none => cases hp
  | some a => exact hpq a rfl hp

theorem isRequestClass_grows (hg : Grows f h h') {name : String}
    (hr : (Context.mk f h).isRequestClass name = true) :
    (Context.mk f h').isRequestClass name = true := by
  unfold isRequestClass at hr ⊢
  obtain ⟨target, htarget, hisA⟩ := List.any_eq_true.1 hr
  exact List.any_eq_true.2 ⟨target, htarget, hg.extends_classes.isA hisA⟩

theorem namesRequest_grows (hg : Grows f h h') {o : Option String}
    (hr : o.any (fun c => isRequestFacade c || (Context.mk f h).isRequestClass c) = true) :
    o.any (fun c => isRequestFacade c || (Context.mk f h').isRequestClass c) = true := by
  refine any_grows (fun c _ hc => ?_) hr
  rw [Bool.or_eq_true] at hc ⊢
  exact hc.imp_right (isRequestClass_grows hg)

theorem isRequestValue_grows (hg : Grows f h h') {head : Node} (hhead : f.Rooted head)
    (hr : (Context.mk f h).isRequestValue head = true) :
    (Context.mk f h').isRequestValue head = true := by
  unfold isRequestValue at hr ⊢
  rw [classOf?_eq hg hhead]
  split at hr
  · exact hr
  · exact any_grows (fun c _ => isRequestClass_grows hg) hr
  · exact namesRequest_grows hg hr
  · exact namesRequest_grows hg hr
  · exact hr

theorem readsRequest_grows (hg : Grows f h h') {n : Node} (hn : f.Rooted n)
    (hr : (Context.mk f h).readsRequest n = true) :
    (Context.mk f h').readsRequest n = true := by
  have hs := hg.linked.stable_rooted
  unfold readsRequest at hr ⊢
  rw [staticClass?_eq hg hn]
  split at hr
  · exact hr
  · exact namesRequest_grows hg hr
  · rw [Bool.or_eq_true] at hr ⊢
    exact hr.imp_right (any_grows fun head hhead => isRequestValue_grows hg (hs.chainHead? hn hhead))
  · rw [Bool.or_eq_true] at hr ⊢
    refine hr.imp_right (any_grows fun object hobject ho => ?_)
    rw [Bool.and_eq_true] at ho ⊢
    exact ho.imp_right (isRequestValue_grows hg (hs.child? hn hobject))
  · exact hr

theorem isSource_grows (hg : Grows f h h') {n : Node} (hn : f.Rooted n)
    (hr : (Context.mk f h).isSource n = true) : (Context.mk f h').isSource n = true := by
  unfold isSource at hr ⊢
  rw [Bool.or_eq_true] at hr ⊢
  exact hr.imp_right (readsRequest_grows hg hn)

/-! ## The search -/

/-- Two lists of visits that agree until the second answers yes. -/
theorem firstHit_grows {σ : Type} {visit visit' : Node → σ → Bool × σ} {ns : List Node}
    (hvisit : ∀ n ∈ ns, ∀ s, (visit' n s).1 = true ∨ visit n s = visit' n s) (s : σ) :
    (firstHit visit' ns s).1 = true ∨ firstHit visit ns s = firstHit visit' ns s := by
  induction ns generalizing s with
  | nil => exact .inr rfl
  | cons n ns ih =>
    have hrest := fun m hm => hvisit m (List.mem_cons_of_mem _ hm)
    cases hv : visit' n s with
    | mk answer t =>
      cases answer with
      | true => exact .inl (by simp only [firstHit, hv])
      | false =>
        rcases hvisit n List.mem_cons_self s with hyes | heq
        · rw [hv] at hyes; cases hyes
        · simp only [firstHit, heq, hv]
          exact ih hrest t

/-- The search in the larger context answers yes or is the same search. -/
theorem search_grows (hg : Grows f h h') (fuel hops : Nat) {n : Node} (hn : f.Rooted n)
    (seen : List Nat) :
    ((Context.mk f h').search fuel hops n seen).1 = true ∨
      (Context.mk f h).search fuel hops n seen = (Context.mk f h').search fuel hops n seen := by
  have hs := hg.linked.stable_rooted
  induction fuel generalizing hops n seen with
  | zero => exact .inr rfl
  | succ fuel ih =>
    unfold search
    by_cases hseen : seen.contains n.id = true
    · rw [if_pos hseen, if_pos hseen]
      exact .inr rfl
    · rw [if_neg hseen, if_neg hseen]
      by_cases hsource' : (Context.mk f h').isSource n = true
      · rw [if_pos hsource']
        exact .inl rfl
      · have hsource := fun hr => hsource' (isSource_grows hg hn hr)
        rw [if_neg hsource, if_neg hsource']
        by_cases hvar : n.kind = .var
        · rw [if_pos hvar, if_pos hvar]
          cases hops with
          | zero => exact .inr rfl
          | succ hops =>
            exact firstHit_grows (fun m hm s =>
              ih hops (hs.origin hn (SourceFile.mem_origins.1 hm)) s) _
        · rw [if_neg hvar, if_neg hvar]
          exact firstHit_grows (fun m hm s =>
            ih hops (hs.part hn (SourceFile.mem_parts.1 hm)) s) _

theorem isTainted_grows (hg : Grows f h h') {n : Node} (hn : f.Rooted n)
    (ht : (Context.mk f h).isTainted n = true) : (Context.mk f h').isTainted n = true := by
  rcases search_grows hg (f.size + 1) maxOriginHops hn [] with hyes | heq
  · exact hyes
  · unfold isTainted at ht ⊢
    exact (congrArg Prod.fst heq).symm.trans ht

end PhpAudit.Context
