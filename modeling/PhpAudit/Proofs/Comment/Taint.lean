import PhpAudit.Proofs.Comment.Source
import PhpAudit.Proofs.Query.TaintCover

/-!
# The search for sources in a commented file

The searches without and with the comment run in step: `Agree` relates what they have seen, and a visit of
the same node in both gives the same answer and keeps the relation (`search_lift`). Where the second search
also visits the comment, it finds nothing there. Both have fuel to spare, so it does not matter that the
second file is larger by one node.
-/

namespace PhpAudit.Insertion

open Context (firstHit Fits)

variable {g : Insertion}

/-! ## Lists of visits -/

/-- Visits of the same nodes that give the same answers and keep a relation of states, up to visits of the
comment that answer no and keep it too. -/
theorem firstHit_padded {f' : SourceFile} {σ τ : Type} {R : σ → τ → Prop}
    {visit : Node → σ → Bool × σ} {visit' : Node → τ → Bool × τ} {l l' : List Node}
    (hl : g.Padded f' l l')
    (hvisit : ∀ n ∈ l, ∀ s t, R s t →
      (visit' (g.lift f' n) t).1 = (visit n s).1 ∧ R (visit n s).2 (visit' (g.lift f' n) t).2)
    (hcomment : ∀ c, f'.Has c → c.id = g.site → ∀ s t, R s t →
      (visit' c t).1 = false ∧ R s (visit' c t).2) {s : σ} {t : τ} (hst : R s t) :
    (firstHit visit' l' t).1 = (firstHit visit l s).1 ∧
      R (firstHit visit l s).2 (firstHit visit' l' t).2 := by
  -- on the list with the comment: its head is the comment, or the head of the other list
  induction l' generalizing l s t with
  | nil =>
    have hnil : l = [] := by simpa using hl.filter_eq.symm
    rw [hnil]
    exact ⟨rfl, hst⟩
  | cons a l' ih =>
    have hrest : ∀ b ∈ l', f'.Has b := fun b hb => hl.has b (List.mem_cons_of_mem _ hb)
    have heq := hl.filter_eq
    by_cases hid : a.id = g.site
    · obtain ⟨hno, hR⟩ := hcomment a (hl.has a List.mem_cons_self) hid s t hst
      rw [List.filter_cons, if_neg (by simp [hid])] at heq
      cases hv : visit' a t with
      | mk answer t' =>
        rw [hv] at hno hR
        obtain rfl : answer = false := hno
        simp only [firstHit, hv]
        exact ih ⟨hrest, heq⟩ hvisit hR
    · rw [List.filter_cons, if_pos (by simpa using hid)] at heq
      cases l with
      | nil => simp at heq
      | cons b l =>
        obtain ⟨rfl, htail⟩ := List.cons.inj (heq.trans List.map_cons)
        obtain ⟨hsame, hR⟩ := hvisit b List.mem_cons_self s t hst
        cases hv : visit b s with
        | mk answer s' =>
          cases hv' : visit' (g.lift f' b) t with
          | mk answer' t' =>
            rw [hv, hv'] at hsame hR
            obtain rfl : answer' = answer := hsame
            cases answer' with
            | true =>
              simp only [firstHit, hv, hv']
              exact ⟨trivial, hR⟩
            | false =>
              simp only [firstHit, hv, hv']
              exact ih ⟨hrest, htail⟩ (fun n hn => hvisit n (List.mem_cons_of_mem _ hn)) hR

/-! ## Searches in step -/

/-- The two searches have seen the same nodes, the comment apart, and have fuel for the others. -/
structure Agree (g : Insertion) (fuel fuel' : Nat) (seen seen' : List Nat) : Prop where
  mem_iff : ∀ i, i ∈ seen ↔ g.up i ∈ seen'
  fits : Fits g.plain seen
  fits' : Fits g.commented seen'
  fuel_lt : g.plain.size < fuel + seen.length
  fuel_lt' : g.commented.size < fuel' + seen'.length

variable {fuel fuel' : Nat} {seen seen' : List Nat}

theorem Agree.fuel_pos (ha : g.Agree fuel fuel' seen seen') : 0 < fuel ∧ 0 < fuel' := by
  have hlt := ha.fuel_lt
  have hlt' := ha.fuel_lt'
  have hle := ha.fits.length_le
  have hle' := ha.fits'.length_le
  omega

theorem Agree.contains_eq (ha : g.Agree fuel fuel' seen seen') (i : Nat) :
    seen'.contains (g.up i) = seen.contains i := by
  rw [Bool.eq_iff_iff, List.contains_iff_mem, List.contains_iff_mem, ha.mem_iff]

/-- What is seen by a search with less fuel suits one with more. -/
theorem Agree.succ (ha : g.Agree fuel fuel' seen seen') :
    g.Agree (fuel + 1) (fuel' + 1) seen seen' := by
  have hlt := ha.fuel_lt
  have hlt' := ha.fuel_lt'
  exact ⟨ha.mem_iff, ha.fits, ha.fits', by omega, by omega⟩

variable (hg : g.Valid)
include hg

/-- Both searches mark the same node. -/
theorem Agree.cons (ha : g.Agree (fuel + 1) (fuel' + 1) seen seen') {n : Node} (hn : g.plain.Has n)
    (hnew : seen.contains n.id = false) :
    g.Agree fuel fuel' (n.id :: seen) ((g.lift g.commented n).id :: seen') := by
  have ht := twin hg
  have hid := (ht.same_lift hn).id_eq
  have hlt := ha.fuel_lt
  have hlt' := ha.fuel_lt'
  have hnew' : seen'.contains (g.lift g.commented n).id = false := by
    rw [hid, ha.contains_eq, hnew]
  refine ⟨fun i => ?_, ha.fits.cons hn hnew, ha.fits'.cons (ht.has_lift hn) hnew', ?_, ?_⟩
  · rw [List.mem_cons, List.mem_cons, hid, up_inj, ha.mem_iff]
  · rw [List.length_cons]
    omega
  · rw [List.length_cons]
    omega

omit hg in
/-- The second search marks the comment. -/
theorem Agree.cons_comment (ha : g.Agree fuel fuel' seen seen') {c : Node} (hhas : g.commented.Has c)
    (hid : c.id = g.site) (hnew : seen'.contains c.id = false) :
    g.Agree fuel fuel' seen (c.id :: seen') := by
  have hlt' := ha.fuel_lt'
  refine ⟨fun i => ?_, ha.fits, ha.fits'.cons hhas hnew, ha.fuel_lt, ?_⟩
  · have hne : g.up i ≠ c.id := hid ▸ up_ne_site i
    rw [List.mem_cons, ha.mem_iff]
    exact ⟨.inr, fun h => h.resolve_left hne⟩
  · rw [List.length_cons]
    omega

/-- A visit of the comment finds nothing. -/
theorem search_comment (h : Hierarchy) (hops : Nat) (ha : g.Agree fuel fuel' seen seen') {c : Node}
    (hhas : g.commented.Has c) (hid : c.id = g.site) :
    ((Context.mk g.commented h).search fuel' hops c seen').1 = false ∧
      g.Agree fuel fuel' seen ((Context.mk g.commented h).search fuel' hops c seen').2 := by
  have hkind : c.kind ≠ .var := by
    rw [((twin hg).isComment hhas hid).kind_eq]
    decide
  obtain ⟨k, hk⟩ := Nat.exists_eq_succ_of_ne_zero (Nat.ne_of_gt ha.fuel_pos.2)
  rw [hk]
  unfold Context.search
  by_cases hnew : seen'.contains c.id = true
  · rw [if_pos hnew]
    exact ⟨rfl, hk ▸ ha⟩
  · rw [if_neg hnew, isSource_comment hg h hhas hid, if_neg Bool.false_ne_true, if_neg hkind]
    dsimp only
    rw [parts_comment hg hhas hid]
    exact ⟨rfl, hk ▸ ha.cons_comment hhas hid (Bool.not_eq_true _ ▸ hnew)⟩

variable (hc : g.Clear)
include hc

/-- The two searches answer alike at the same node. -/
theorem search_lift (h : Hierarchy) (hops : Nat) {n : Node} (hn : g.plain.Has n)
    (ha : g.Agree fuel fuel' seen seen') :
    ((Context.mk g.commented h).search fuel' hops (g.lift g.commented n) seen').1 =
        ((Context.mk g.plain h).search fuel hops n seen).1 ∧
      g.Agree fuel fuel' ((Context.mk g.plain h).search fuel hops n seen).2
        ((Context.mk g.commented h).search fuel' hops (g.lift g.commented n) seen').2 := by
  have ht := twin hg
  have hs := ht.linked.stable_has
  induction fuel generalizing fuel' hops n seen seen' with
  | zero => exact absurd ha.fuel_pos.1 (Nat.lt_irrefl 0)
  | succ fuel ih =>
    obtain ⟨k, rfl⟩ := Nat.exists_eq_succ_of_ne_zero (Nat.ne_of_gt ha.fuel_pos.2)
    -- a list of visits behind `n`, with one unit of fuel less
    have behind : ∀ {hops : Nat} {l l' : List Node} {s t : List Nat}, g.Padded g.commented l l' →
        (∀ m ∈ l, g.plain.Has m) → g.Agree fuel k s t →
        (firstHit ((Context.mk g.commented h).search k hops) l' t).1 =
            (firstHit ((Context.mk g.plain h).search fuel hops) l s).1 ∧
          g.Agree (fuel + 1) (k + 1) (firstHit ((Context.mk g.plain h).search fuel hops) l s).2
            (firstHit ((Context.mk g.commented h).search k hops) l' t).2 := by
      intro hops l l' s t hl hin hst
      obtain ⟨hsame, hagree⟩ := firstHit_padded hl (R := g.Agree fuel k)
        (fun m hm _ _ hR => ih hops (hin m hm) hR)
        (fun c hhas hid _ _ hR => search_comment hg h hops hR hhas hid) hst
      exact ⟨hsame, hagree.succ⟩
    have hseen : seen'.contains (g.lift g.commented n).id = seen.contains n.id := by
      rw [(ht.same_lift hn).id_eq, ha.contains_eq]
    unfold Context.search
    rw [hseen, isSource_lift hg hc h hn, (ht.same_lift hn).kind_eq]
    by_cases hnew : seen.contains n.id = true
    · rw [if_pos hnew, if_pos hnew]
      exact ⟨rfl, ha⟩
    rw [if_neg hnew, if_neg hnew]
    have hcons := ha.cons hg hn (Bool.not_eq_true _ ▸ hnew)
    by_cases hsource : (Context.mk g.plain h).isSource n = true
    · rw [if_pos hsource, if_pos hsource]
      exact ⟨rfl, hcons.succ⟩
    rw [if_neg hsource, if_neg hsource]
    by_cases hvar : n.kind = .var
    · rw [if_pos hvar, if_pos hvar]
      cases hops with
      | zero => exact ⟨rfl, hcons.succ⟩
      | succ hops =>
        have hin : ∀ m ∈ g.plain.origins n, g.plain.Has m := fun m hm =>
          hs.origin hn (SourceFile.mem_origins.1 hm)
        dsimp only
        rw [origins_lift hg hc hn]
        exact behind (ht.map_lift_has hin) hin hcons
    · rw [if_neg hvar, if_neg hvar]
      exact behind (parts_padded hg hc hn)
        (fun m hm => hs.part hn (SourceFile.mem_parts.1 hm)) hcons

/-- A node is tainted with the comment exactly if it is without. -/
theorem isTainted_lift (h : Hierarchy) {n : Node} (hn : g.plain.Has n) :
    (Context.mk g.commented h).isTainted (g.lift g.commented n) =
      (Context.mk g.plain h).isTainted n := by
  have hstart : g.Agree (g.plain.size + 1) (g.commented.size + 1) [] [] :=
    ⟨by simp, Fits.nil, Fits.nil, by simp, by simp⟩
  exact (search_lift hg hc h maxOriginHops hn hstart).1

end PhpAudit.Insertion
