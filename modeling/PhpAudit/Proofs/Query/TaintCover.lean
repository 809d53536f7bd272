import Mathlib.Data.List.Nodup
import PhpAudit.Proofs.Query.Steps
import PhpAudit.Proofs.Query.TaintSound

/-!
# Which sources the search finds

The search visits a node once, with as many hops as are left when it first arrives there. A variable that
it first meets with no hops left is marked as seen and not followed, also when a later and shorter way
leads to it. `trace` is the search with a record of the hops left at each node, and `CutOff` names the
variables that were met too late. `isTainted_iff_open_flow` says what the search answers: yes exactly if
some flow from a source passes no variable that was cut off. `not_tainted_of_late_variable` is a file in
which a flow of two hops is missed.
-/

namespace PhpAudit

namespace Context

variable {cx : Context}

/-! ## The seen nodes -/

/-- The seen ids are those of different nodes of the file. -/
structure Fits (f : SourceFile) (seen : List Nat) : Prop where
  nodup : seen.Nodup
  lt_size : ∀ i ∈ seen, i < f.size

theorem Fits.nil {f : SourceFile} : Fits f [] := ⟨List.nodup_nil, by simp⟩

theorem Fits.cons {f : SourceFile} {seen : List Nat} (h : Fits f seen) {n : Node} (hn : f.Has n)
    (hnew : seen.contains n.id = false) : Fits f (n.id :: seen) := by
  have hnot : n.id ∉ seen := by simpa using hnew
  refine ⟨List.nodup_cons.2 ⟨hnot, h.nodup⟩, ?_⟩
  intro i hi
  rcases List.mem_cons.1 hi with rfl | hi
  · exact hn.lt_size
  · exact h.lt_size i hi

theorem Fits.length_le {f : SourceFile} {seen : List Nat} (h : Fits f seen) :
    seen.length ≤ f.size := by
  have hsub : seen ⊆ List.range f.size := fun i hi => List.mem_range.2 (h.lt_size i hi)
  simpa using List.Nodup.length_le_of_subset h.nodup hsub

/-- What every visit keeps, a list of visits keeps. -/
theorem firstHit_preserves {σ : Type} {visit : Node → σ → Bool × σ} {I : σ → Prop} {ns : List Node}
    (hvisit : ∀ n ∈ ns, ∀ s, I s → I (visit n s).2) {s : σ} (hs : I s) :
    I (firstHit visit ns s).2 := by
  induction ns generalizing s with
  | nil => exact hs
  | cons n ns ih =>
    have hn := hvisit n List.mem_cons_self s hs
    cases hv : visit n s with
    | mk answer s' =>
      rw [hv] at hn
      cases answer with
      | true => simpa only [firstHit, hv] using hn
      | false =>
        simp only [firstHit, hv]
        exact ih (fun m hm => hvisit m (List.mem_cons_of_mem _ hm)) hn

/-- The search marks nodes of the file, each of them once. -/
theorem search_fits (hf : cx.file.Linked) (fuel hops : Nat) {n : Node} {seen : List Nat}
    (hn : cx.file.Has n) (hseen : Fits cx.file seen) :
    Fits cx.file (cx.search fuel hops n seen).2 := by
  induction fuel generalizing hops n seen with
  | zero => exact hseen
  | succ fuel ih =>
    unfold search
    split
    · exact hseen
    · next hnew =>
      have hcons := hseen.cons hn (Bool.not_eq_true _ ▸ hnew)
      split
      · exact hcons
      · split
        · cases hops with
          | zero => exact hcons
          | succ hops =>
            exact firstHit_preserves (fun m hm s hs =>
              ih hops (hf.stable_has.origin hn (SourceFile.mem_origins.1 hm)) hs) hcons
        · exact firstHit_preserves (fun m hm s hs =>
            ih hops (hf.stable_has.part hn (SourceFile.mem_parts.1 hm)) hs) hcons

/-! ## The search with a record -/

/-- The search with a record of how many hops were left when each node was first met. -/
def trace (cx : Context) : Nat → Nat → Node → List (Nat × Nat) → Bool × List (Nat × Nat)
  | 0, _, _, marks => (false, marks)
  | fuel + 1, hops, n, marks =>
    if (marks.map (·.1)).contains n.id then (false, marks)
    else if cx.isSource n then (true, (n.id, hops) :: marks)
    else if n.kind = .var then
      match hops with
      | 0 => (false, (n.id, 0) :: marks)
      | hops + 1 => firstHit (cx.trace fuel hops) (cx.file.origins n) ((n.id, hops + 1) :: marks)
    else firstHit (cx.trace fuel hops) (cx.file.parts n) ((n.id, hops) :: marks)

/-- Visits that agree up to a view of the state agree as a list. -/
theorem firstHit_view {σ τ : Type} (view : σ → τ) {visit : Node → τ → Bool × τ}
    {visit' : Node → σ → Bool × σ}
    (h : ∀ n s, visit n (view s) = ((visit' n s).1, view (visit' n s).2)) (ns : List Node) (s : σ) :
    firstHit visit ns (view s) =
      ((firstHit visit' ns s).1, view (firstHit visit' ns s).2) := by
  induction ns generalizing s with
  | nil => rfl
  | cons n ns ih =>
    have hn := h n s
    cases hv : visit' n s with
    | mk answer s' =>
      rw [hv] at hn
      cases answer with
      | true => simp only [firstHit, hn, hv]
      | false => simp only [firstHit, hn, hv, ih]

/-- The record takes no part in the search. -/
theorem search_eq_trace (fuel hops : Nat) (n : Node) (marks : List (Nat × Nat)) :
    cx.search fuel hops n (marks.map (·.1)) =
      ((cx.trace fuel hops n marks).1, (cx.trace fuel hops n marks).2.map (·.1)) := by
  induction fuel generalizing hops n marks with
  | zero => rfl
  | succ fuel ih =>
    unfold search trace
    split
    · rfl
    · split
      · rfl
      · split
        · cases hops with
          | zero => rfl
          | succ hops =>
            exact firstHit_view (List.map (·.1)) (ih hops) (cx.file.origins n)
              ((n.id, hops + 1) :: marks)
        · exact firstHit_view (List.map (·.1)) (ih hops) (cx.file.parts n)
            ((n.id, hops) :: marks)

theorem trace_fits (hf : cx.file.Linked) (fuel hops : Nat) {n : Node} {marks : List (Nat × Nat)}
    (hn : cx.file.Has n) (hm : Fits cx.file (marks.map (·.1))) :
    Fits cx.file ((cx.trace fuel hops n marks).2.map (·.1)) := by
  have h := search_fits hf fuel hops hn hm
  rw [search_eq_trace] at h
  exact h

theorem trace_extends (fuel hops : Nat) (n : Node) (marks : List (Nat × Nat)) :
    marks <:+ (cx.trace fuel hops n marks).2 := by
  induction fuel generalizing hops n marks with
  | zero => exact List.suffix_rfl
  | succ fuel ih =>
    unfold trace
    split
    · exact List.suffix_rfl
    · split
      · exact List.suffix_cons _ _
      · split
        · cases hops with
          | zero => exact List.suffix_cons _ _
          | succ hops =>
            exact firstHit_preserves (I := (marks <:+ ·)) (fun m _ s hs => hs.trans (ih hops m s))
              (List.suffix_cons _ _)
        · exact firstHit_preserves (I := (marks <:+ ·)) (fun m _ s hs => hs.trans (ih hops m s))
            (List.suffix_cons _ _)

theorem firstHit_trace_extends {fuel hops : Nat} {ns : List Node} {marks new : List (Nat × Nat)}
    {answer : Bool} (h : firstHit (cx.trace fuel hops) ns marks = (answer, new)) : marks <:+ new := by
  have hsub : marks <:+ (firstHit (cx.trace fuel hops) ns marks).2 :=
    firstHit_preserves (I := (marks <:+ ·))
      (fun m _ s hs => hs.trans (trace_extends fuel hops m s)) List.suffix_rfl
  rw [h] at hsub
  exact hsub

/-! ## A search that answers no -/

/-- `m` is one step of the flow behind `n`. -/
def StepsTo (cx : Context) (n m : Node) : Prop := cx.file.Part n m ∨ cx.file.Origin n m

/-- Each mark of `new` that is not in `old` belongs to a node that is no source, and the steps behind it
lead to marked nodes, unless it is a variable that was met with no hops left. -/
def Explored (cx : Context) (old new : List (Nat × Nat)) : Prop :=
  ∀ v h, cx.file.Has v → (v.id, h) ∈ new → (v.id, h) ∉ old →
    cx.isSource v = false ∧
      ((v.kind = .var ∧ h = 0) ∨ ∀ m, cx.StepsTo v m → m.id ∈ new.map (·.1))

theorem Explored.refl (marks : List (Nat × Nat)) : cx.Explored marks marks :=
  fun _ _ _ hin hnot => absurd hin hnot

theorem Explored.trans {a b c : List (Nat × Nat)} (hab : cx.Explored a b) (hbc : cx.Explored b c)
    (hsub : b <:+ c) : cx.Explored a c := by
  intro v h hv hin hnot
  by_cases hb : (v.id, h) ∈ b
  · obtain ⟨hsource, hsteps⟩ := hab v h hv hb hnot
    refine ⟨hsource, hsteps.imp_right fun hsteps m hm => ?_⟩
    exact (hsub.map (·.1)).subset (hsteps m hm)
  · exact hbc v h hv hin hb

/-- A node whose steps have all been taken joins the explored ones. -/
theorem Explored.cons {n : Node} (hn : cx.file.Has n) {hops : Nat} {marks new : List (Nat × Nat)}
    (hsource : cx.isSource n = false)
    (hsteps : (n.kind = .var ∧ hops = 0) ∨ ∀ m, cx.StepsTo n m → m.id ∈ new.map (·.1))
    (h : cx.Explored ((n.id, hops) :: marks) new) : cx.Explored marks new := by
  intro v h' hv hin hnot
  by_cases he : (v.id, h') = (n.id, hops)
  · simp only [Prod.mk.injEq] at he
    obtain rfl := hv.ext hn he.1
    obtain rfl := he.2
    exact ⟨hsource, hsteps⟩
  · exact h v h' hv hin fun hmem => (List.mem_cons.1 hmem).elim he hnot

/-- A list of visits that answers no has made every one of them. -/
theorem firstHit_explored {fuel hops : Nat} {ns : List Node} {marks new : List (Nat × Nat)}
    (hvisit : ∀ n ∈ ns, ∀ marks' new', marks <:+ marks' → Fits cx.file (marks'.map (·.1)) →
      cx.trace fuel hops n marks' = (false, new') →
        n.id ∈ new'.map (·.1) ∧ cx.Explored marks' new')
    (hf : cx.file.Linked) (hns : ∀ n ∈ ns, cx.file.Has n) (hm : Fits cx.file (marks.map (·.1)))
    (h : firstHit (cx.trace fuel hops) ns marks = (false, new)) :
    (∀ n ∈ ns, n.id ∈ new.map (·.1)) ∧ cx.Explored marks new := by
  induction ns generalizing marks with
  | nil =>
    obtain rfl := (Prod.mk.injEq .. ▸ h).2
    exact ⟨by simp, .refl _⟩
  | cons n ns ih =>
    have hn := hns n List.mem_cons_self
    have hext : marks <:+ (cx.trace fuel hops n marks).2 := trace_extends fuel hops n marks
    have hfits := trace_fits hf fuel hops hn hm
    cases hv : cx.trace fuel hops n marks with
    | mk answer mid =>
      rw [hv] at hext hfits
      cases answer with
      | true => simp only [firstHit, hv, Prod.mk.injEq, Bool.true_eq_false, false_and] at h
      | false =>
        simp only [firstHit, hv] at h
        obtain ⟨hid, hexp⟩ := hvisit n List.mem_cons_self marks mid List.suffix_rfl hm hv
        obtain ⟨hids, hexp'⟩ := ih
          (fun m hm' marks' new' hmarks => hvisit m (List.mem_cons_of_mem _ hm') marks' new'
            (hext.trans hmarks))
          (fun m hm' => hns m (List.mem_cons_of_mem _ hm')) hfits h
        have hsub := firstHit_trace_extends h
        refine ⟨?_, hexp.trans hexp' hsub⟩
        intro m hm'
        rcases List.mem_cons.1 hm' with rfl | hm'
        · exact (hsub.map (·.1)).subset hid
        · exact hids m hm'

/-- A search that answers no has marked its node and explored whatever it marked. The fuel suffices
because there are no more marks than nodes. -/
theorem explored_of_trace (hf : cx.file.Linked) {fuel hops : Nat} {n : Node}
    {marks new : List (Nat × Nat)} (hn : cx.file.Has n) (hm : Fits cx.file (marks.map (·.1)))
    (hfuel : cx.file.size < fuel + marks.length)
    (h : cx.trace fuel hops n marks = (false, new)) :
    n.id ∈ new.map (·.1) ∧ cx.Explored marks new := by
  induction fuel generalizing hops n marks new with
  | zero =>
    have := hm.length_le
    rw [List.length_map] at this
    omega
  | succ fuel ih =>
    unfold trace at h
    split at h
    · next hseen =>
      obtain rfl := (Prod.mk.injEq .. ▸ h).2
      exact ⟨by simpa using hseen, .refl _⟩
    · next hnew =>
      have hcons : ∀ k, Fits cx.file (((n.id, k) :: marks).map (·.1)) := fun k =>
        hm.cons hn (Bool.not_eq_true _ ▸ hnew)
      split at h
      · cases h
      · next hsource =>
        rw [Bool.not_eq_true] at hsource
        -- what a list of visits behind `n` leaves explored, with `n` marked at `k` hops
        have behind : ∀ {k hops' : Nat} {ns : List Node}, (∀ m ∈ ns, cx.file.Has m) →
            firstHit (cx.trace fuel hops') ns ((n.id, k) :: marks) = (false, new) →
            n.id ∈ new.map (·.1) ∧ (∀ m ∈ ns, m.id ∈ new.map (·.1)) ∧
              cx.Explored ((n.id, k) :: marks) new := by
          intro k hops' ns hns hfirst
          obtain ⟨hids, hexp⟩ := firstHit_explored
            (fun m hm' marks' new' hmarks hfits htrace =>
              ih (hns m hm') hfits (by have := hmarks.length_le; simp at this; omega) htrace)
            hf hns (hcons k) hfirst
          have hsub := firstHit_trace_extends hfirst
          exact ⟨(hsub.map (·.1)).subset (by simp), hids, hexp⟩
        split at h
        · next hvar =>
          cases hops with
          | zero =>
            obtain rfl := (Prod.mk.injEq .. ▸ h).2
            exact ⟨by simp, .cons hn hsource (.inl ⟨hvar, rfl⟩) (.refl _)⟩
          | succ hops =>
            obtain ⟨hid, hids, hexp⟩ := behind
              (fun m hm' => hf.stable_has.origin hn (SourceFile.mem_origins.1 hm')) h
            refine ⟨hid, .cons hn hsource (.inr ?_) hexp⟩
            rintro m (hpart | horigin)
            · exact absurd hvar hpart.kind_ne_var
            · exact hids m (SourceFile.mem_origins.2 horigin)
        · next hvar =>
          obtain ⟨hid, hids, hexp⟩ := behind
            (fun m hm' => hf.stable_has.part hn (SourceFile.mem_parts.1 hm')) h
          refine ⟨hid, .cons hn hsource (.inr ?_) hexp⟩
          rintro m (hpart | horigin)
          · exact hids m (SourceFile.mem_parts.2 hpart)
          · exact absurd horigin.kind_eq hvar

/-! ## A search that answers yes -/

/-- Every variable that the chain leads on from was met with a hop left. -/
def Followed (marks : List (Nat × Nat)) (chain : List Node) : Prop :=
  ∀ v ∈ chain.dropLast, v.kind = .var → ∃ h, (v.id, h + 1) ∈ marks

/-- A search that answers yes has followed a flow from a source. -/
theorem followed_of_trace {fuel hops : Nat} {n : Node} {marks new : List (Nat × Nat)}
    (h : cx.trace fuel hops n marks = (true, new)) :
    ∃ used rest m, cx.file.Flow used (n :: rest) ∧ used ≤ hops ∧
      (n :: rest).getLast? = some m ∧ cx.isSource m = true ∧ Followed new (n :: rest) := by
  induction fuel generalizing hops n marks with
  | zero => cases h
  | succ fuel ih =>
    -- the visit that answers yes, which has the record of `n` before it
    have behind : ∀ {k hops' : Nat} {ns : List Node},
        firstHit (cx.trace fuel hops') ns ((n.id, k) :: marks) = (true, new) →
        (n.id, k) ∈ new ∧ ∃ m ∈ ns, ∃ marks', cx.trace fuel hops' m marks' = (true, new) := by
      intro k hops' ns hfirst
      have hsub := firstHit_trace_extends hfirst
      exact ⟨hsub.subset List.mem_cons_self, exists_of_firstHit hfirst⟩
    unfold trace at h
    split at h
    · cases h
    · split at h
      · next hsource =>
        exact ⟨0, [], n, .single n, Nat.zero_le _, rfl, hsource, by simp [Followed]⟩
      · split at h
        · cases hops with
          | zero => cases h
          | succ hops =>
            obtain ⟨hmark, m, hm, marks', hvisit⟩ := behind h
            obtain ⟨used, rest, last, hflow, hle, hlast, hsource, hfollowed⟩ := ih hvisit
            refine ⟨used + 1, m :: rest, last, .hop (SourceFile.mem_origins.1 hm) hflow,
              Nat.succ_le_succ hle, by rw [List.getLast?_cons_cons]; exact hlast, hsource, ?_⟩
            intro v hv hk
            rcases List.mem_cons.1 hv with rfl | hv
            · exact ⟨hops, hmark⟩
            · exact hfollowed v hv hk
        · next hvar =>
          obtain ⟨-, m, hm, marks', hvisit⟩ := behind h
          obtain ⟨used, rest, last, hflow, hle, hlast, hsource, hfollowed⟩ := ih hvisit
          refine ⟨used, m :: rest, last, .part (SourceFile.mem_parts.1 hm) hflow, hle,
            by rw [List.getLast?_cons_cons]; exact hlast, hsource, ?_⟩
          intro v hv hk
          rcases List.mem_cons.1 hv with rfl | hv
          · exact absurd hk hvar
          · exact hfollowed v hv hk

/-! ## What the search answers -/

/-- The record of the search for a source behind `n`. -/
def marks (cx : Context) (n : Node) : List (Nat × Nat) :=
  (cx.trace (cx.file.size + 1) maxOriginHops n []).2

/-- The search behind `n` first met the variable `v` with no hops left and did not follow it. -/
def CutOff (cx : Context) (n v : Node) : Prop :=
  v.kind = .var ∧ (v.id, 0) ∈ cx.marks n

theorem isTainted_eq_trace (n : Node) :
    cx.isTainted n = (cx.trace (cx.file.size + 1) maxOriginHops n []).1 := by
  unfold isTainted
  have h : cx.search (cx.file.size + 1) maxOriginHops n [] =
      ((cx.trace (cx.file.size + 1) maxOriginHops n []).1,
        (cx.trace (cx.file.size + 1) maxOriginHops n []).2.map (·.1)) :=
    search_eq_trace (cx.file.size + 1) maxOriginHops n []
  rw [h]

/-- Along a flow that passes no variable without hops left, exploration reaches the end. -/
theorem mem_of_flow {new : List (Nat × Nat)} (hf : cx.file.Linked) (hexp : cx.Explored [] new)
    {hops : Nat} {chain : List Node} (hflow : cx.file.Flow hops chain)
    (hopen : ∀ v ∈ chain.dropLast, ¬ (v.kind = .var ∧ (v.id, 0) ∈ new)) {n m : Node}
    (hhead : chain.head? = some n) (hlast : chain.getLast? = some m) (hn : cx.file.Has n)
    (hmark : n.id ∈ new.map (·.1)) : cx.file.Has m ∧ m.id ∈ new.map (·.1) := by
  induction hflow generalizing n with
  | single a =>
    obtain rfl := Option.some.inj hhead
    obtain rfl := Option.some.inj hlast
    exact ⟨hn, hmark⟩
  | part hstep _ ih =>
    obtain rfl := Option.some.inj hhead
    rw [List.getLast?_cons_cons] at hlast
    refine ih (fun v hv => hopen v (List.mem_cons_of_mem _ hv)) rfl hlast
      (hf.stable_has.part hn hstep) ?_
    obtain ⟨⟨id, h⟩, hmem, rfl⟩ := List.mem_map.1 hmark
    obtain ⟨hvar, -⟩ | hsteps := (hexp _ h hn hmem (by simp)).2
    · exact absurd hvar hstep.kind_ne_var
    · exact hsteps _ (.inl hstep)
  | hop hstep _ ih =>
    obtain rfl := Option.some.inj hhead
    rw [List.getLast?_cons_cons] at hlast
    refine ih (fun v hv => hopen v (List.mem_cons_of_mem _ hv)) rfl hlast
      (hf.stable_has.origin hn hstep) ?_
    obtain ⟨⟨id, h⟩, hmem, rfl⟩ := List.mem_map.1 hmark
    obtain ⟨hvar, rfl⟩ | hsteps := (hexp _ h hn hmem (by simp)).2
    · exact absurd ⟨hvar, hmem⟩ (hopen _ List.mem_cons_self)
    · exact hsteps _ (.inr hstep)

/-- A node of a parsed file is tainted exactly if some flow of at most `maxOriginHops` hops leads from it
to a source and on from no variable that the search had cut off. -/
theorem isTainted_iff_open_flow {grammar : Grammar} {path source : String} {f : SourceFile}
    (hparse : SourceFile.parse grammar path source = .ok f) (classes : Hierarchy) {i : Nat} {n : Node}
    (hn : f.node? i = some n) :
    (Context.mk f classes).isTainted n = true ↔
      ∃ hops rest m, f.Flow hops (n :: rest) ∧ hops ≤ maxOriginHops ∧
        (n :: rest).getLast? = some m ∧
        (f.readsInput m = true ∨ (Context.mk f classes).readsRequest m = true) ∧
        ∀ v ∈ (n :: rest).dropLast, ¬ (Context.mk f classes).CutOff n v := by
  have hf := SourceFile.linked_of_parse hparse
  have hhas : f.Has n := hf.has hn
  generalize hcx : Context.mk f classes = cx
  obtain rfl : cx.file = f := by rw [← hcx]
  rw [isTainted_eq_trace]
  unfold CutOff marks
  cases htrace : cx.trace (cx.file.size + 1) maxOriginHops n [] with
  | mk answer new =>
    cases answer with
    | true =>
      have hfits : Fits cx.file ((cx.trace (cx.file.size + 1) maxOriginHops n []).2.map (·.1)) :=
        trace_fits hf (cx.file.size + 1) maxOriginHops hhas Fits.nil
      rw [htrace] at hfits
      obtain ⟨hops, rest, m, hflow, hle, hlast, hsource, hfollowed⟩ := followed_of_trace htrace
      refine ⟨fun _ => ⟨hops, rest, m, hflow, hle, hlast, Bool.or_eq_true_iff.1 hsource, ?_⟩,
        fun _ => rfl⟩
      rintro v hv ⟨hvar, hzero⟩
      obtain ⟨h, hmark⟩ := hfollowed v hv hvar
      have := List.inj_on_of_nodup_map hfits.nodup hzero hmark rfl
      simp at this
    | false =>
      obtain ⟨hid, hexp⟩ := explored_of_trace hf hhas Fits.nil (by simp) htrace
      refine ⟨fun h => absurd h Bool.false_ne_true, ?_⟩
      rintro ⟨hops, rest, m, hflow, -, hlast, hsource, hopen⟩
      obtain ⟨hm, hmark⟩ := mem_of_flow hf hexp hflow hopen rfl hlast hhas hid
      obtain ⟨⟨id, h⟩, hmem, rfl⟩ := List.mem_map.1 hmark
      have hno := (hexp m h hm hmem (by simp)).1
      rw [← Bool.or_eq_true_iff] at hsource
      unfold isSource at hno
      rw [hsource] at hno
      cases hno

/-! ## A flow that is missed -/

/-- A text that copies a superglobal to `$t`, `$t` to `$a`, `$a` seven times to itself, and runs `$a`. -/
def lateSource : String :=
  "<?php $t=$_GET;$a=$t;$a=$a;$a=$a;$a=$a;$a=$a;$a=$a;$a=$a;$a=$a;exec($a);"

/-- The outline of `lateSource`. -/
def lateOutline : Outline :=
  [⟨0, "program", none, ⟨0, 72⟩⟩, ⟨1, "php_tag", none, ⟨0, 5⟩⟩,
      ⟨1, "expression_statement", none, ⟨6, 15⟩⟩, ⟨2, "assignment_expression", none, ⟨6, 14⟩⟩,
      ⟨3, "variable_name", some "left", ⟨6, 8⟩⟩, ⟨4, "name", none, ⟨7, 8⟩⟩,
      ⟨3, "variable_name", some "right", ⟨9, 14⟩⟩, ⟨4, "name", none, ⟨10, 14⟩⟩,
      ⟨1, "expression_statement", none, ⟨15, 21⟩⟩, ⟨2, "assignment_expression", none, ⟨15, 20⟩⟩,
      ⟨3, "variable_name", some "left", ⟨15, 17⟩⟩, ⟨4, "name", none, ⟨16, 17⟩⟩,
      ⟨3, "variable_name", some "right", ⟨18, 20⟩⟩, ⟨4, "name", none, ⟨19, 20⟩⟩,
      ⟨1, "expression_statement", none, ⟨21, 27⟩⟩, ⟨2, "assignment_expression", none, ⟨21, 26⟩⟩,
      ⟨3, "variable_name", some "left", ⟨21, 23⟩⟩, ⟨4, "name", none, ⟨22, 23⟩⟩,
      ⟨3, "variable_name", some "right", ⟨24, 26⟩⟩, ⟨4, "name", none, ⟨25, 26⟩⟩,
      ⟨1, "expression_statement", none, ⟨27, 33⟩⟩, ⟨2, "assignment_expression", none, ⟨27, 32⟩⟩,
      ⟨3, "variable_name", some "left", ⟨27, 29⟩⟩, ⟨4, "name", none, ⟨28, 29⟩⟩,
      ⟨3, "variable_name", some "right", ⟨30, 32⟩⟩, ⟨4, "name", none, ⟨31, 32⟩⟩,
      ⟨1, "expression_statement", none, ⟨33, 39⟩⟩, ⟨2, "assignment_expression", none, ⟨33, 38⟩⟩,
      ⟨3, "variable_name", some "left", ⟨33, 35⟩⟩, ⟨4, "name", none, ⟨34, 35⟩⟩,
      ⟨3, "variable_name", some "right", ⟨36, 38⟩⟩, ⟨4, "name", none, ⟨37, 38⟩⟩,
      ⟨1, "expression_statement", none, ⟨39, 45⟩⟩, ⟨2, "assignment_expression", none, ⟨39, 44⟩⟩,
      ⟨3, "variable_name", some "left", ⟨39, 41⟩⟩, ⟨4, "name", none, ⟨40, 41⟩⟩,
      ⟨3, "variable_name", some "right", ⟨42, 44⟩⟩, ⟨4, "name", none, ⟨43, 44⟩⟩,
      ⟨1, "expression_statement", none, ⟨45, 51⟩⟩, ⟨2, "assignment_expression", none, ⟨45, 50⟩⟩,
      ⟨3, "variable_name", some "left", ⟨45, 47⟩⟩, ⟨4, "name", none, ⟨46, 47⟩⟩,
      ⟨3, "variable_name", some "right", ⟨48, 50⟩⟩, ⟨4, "name", none, ⟨49, 50⟩⟩,
      ⟨1, "expression_statement", none, ⟨51, 57⟩⟩, ⟨2, "assignment_expression", none, ⟨51, 56⟩⟩,
      ⟨3, "variable_name", some "left", ⟨51, 53⟩⟩, ⟨4, "name", none, ⟨52, 53⟩⟩,
      ⟨3, "variable_name", some "right", ⟨54, 56⟩⟩, ⟨4, "name", none, ⟨55, 56⟩⟩,
      ⟨1, "expression_statement", none, ⟨57, 63⟩⟩, ⟨2, "assignment_expression", none, ⟨57, 62⟩⟩,
      ⟨3, "variable_name", some "left", ⟨57, 59⟩⟩, ⟨4, "name", none, ⟨58, 59⟩⟩,
      ⟨3, "variable_name", some "right", ⟨60, 62⟩⟩, ⟨4, "name", none, ⟨61, 62⟩⟩,
      ⟨1, "expression_statement", none, ⟨63, 72⟩⟩,
      ⟨2, "function_call_expression", none, ⟨63, 71⟩⟩, ⟨3, "name", some "function", ⟨63, 67⟩⟩,
      ⟨3, "arguments", some "arguments", ⟨67, 71⟩⟩, ⟨4, "argument", none, ⟨68, 70⟩⟩,
      ⟨5, "variable_name", none, ⟨68, 70⟩⟩, ⟨6, "name", none, ⟨69, 70⟩⟩]

/-- The file, parsed. -/
def lateSample : SourceFile := .ofParts "late.php" lateSource lateOutline

/-- At the last read of `$a` the exact answer: the flow through `$t` leads on from a variable that was
cut off. -/
theorem isTainted_lateSample_iff :
    ∃ n, SourceFile.parse (fun _ => some lateOutline) "late.php" lateSource = .ok lateSample ∧
      lateSample.node? 61 = some n ∧
      ((Context.mk lateSample {}).isTainted n = true ↔
        ∃ hops rest m, lateSample.Flow hops (n :: rest) ∧ hops ≤ maxOriginHops ∧
          (n :: rest).getLast? = some m ∧
          (lateSample.readsInput m = true ∨ (Context.mk lateSample {}).readsRequest m = true) ∧
          ∀ v ∈ (n :: rest).dropLast, ¬ (Context.mk lateSample {}).CutOff n v) := by
  have hparse : SourceFile.parse (fun _ => some lateOutline) "late.php" lateSource =
      .ok lateSample := rfl
  have h : (lateSample.node? 61).isSome = true := by decide +kernel
  obtain ⟨n, hn⟩ := Option.isSome_iff_exists.1 h
  exact ⟨n, hparse, hn, isTainted_iff_open_flow hparse {} hn⟩

/-- The last read of `$a` has its value from the superglobal by two hops, `$a = $t` and `$t = $_GET`, and
the search does not find it: it goes through the seven copies first and meets `$t` with no hops left. -/
theorem not_tainted_of_late_variable :
    ∃ n rest m, lateSample.node? 61 = some n ∧ lateSample.Flow 2 (n :: rest) ∧
      (n :: rest).getLast? = some m ∧ lateSample.readsInput m = true ∧
      (Context.mk lateSample {}).isTainted n = false := by
  have h : ((lateSample.node? 61).bind fun n => (lateSample.node? 12).bind fun v =>
      (lateSample.node? 6).map fun m =>
        decide (v ∈ lateSample.origins n) && decide (m ∈ lateSample.origins v) &&
          lateSample.readsInput m && !(Context.mk lateSample {}).isTainted n) = some true := by
    decide +kernel
  obtain ⟨n, hn, h⟩ := Option.bind_eq_some_iff.1 h
  obtain ⟨v, -, h⟩ := Option.bind_eq_some_iff.1 h
  obtain ⟨m, -, h⟩ := Option.map_eq_some_iff.1 h
  simp only [Bool.and_eq_true, decide_eq_true_iff, Bool.not_eq_true'] at h
  obtain ⟨⟨⟨hv, hm⟩, hreads⟩, htainted⟩ := h
  exact ⟨n, [v, m], m, hn,
    .hop (SourceFile.mem_origins.1 hv) (.hop (SourceFile.mem_origins.1 hm) (.single m)), rfl, hreads,
    htainted⟩

end Context

end PhpAudit
