import PhpAudit.Proofs.Query.Binding
import PhpAudit.Proofs.Query.Steps
import PhpAudit.Proofs.Tree.Nesting

/-!
# The class of an expression without a limit on hops

An assignment that a variable gets its class from ends before the variable starts, so the variables that
are met hop after hop start earlier and earlier (`Mirrors.hop_start_lt`). Without a limit the search thus has one
meaning, `unlimitedClass?`: it is the only function that looks through the bindings of every variable
(`unlimited_iff`).

The limit ends the search at some variables (`cutOffs`), and such a variable counts as one without a class. The
search then goes on with older bindings, so that its answer is that of the unlimited search exactly if no variable
that was cut off has another class (`classOf?_eq_unlimited_iff`). An older binding can decide where the newest one is
cut off (`classOf?_of_overwritten`).
-/

namespace PhpAudit

/-- The variables in the outlines of a grammar cover some text, if only their sigil. -/
def Grammar.SpellsVariables (g : Grammar) : Prop :=
  ∀ source rows, g source = some rows →
    ∀ row ∈ rows, Kind.ofForm row.form = .var → row.span.start < row.span.stop

namespace SourceFile

variable {f : SourceFile} {rows : Outline}

/-! ## Hops lead backwards -/

/-- The class of `n` is that of the variable `v`. -/
def Reads (f : SourceFile) (n v : Node) : Prop :=
  f.typeSource? n = some v ∧ Context.isFreeVariable v = true

/-- A binding of the variable `v` gives it the class of the variable `w`. -/
inductive Hop (f : SourceFile) (v w : Node) : Prop
  | mk {b : Binding} {m : Node} (hb : b ∈ f.bindings v (v.value.getD ""))
      (hm : Context.bindingSource? b = some m) (hw : f.Reads m w)

/-- The class of `n` is that of the variable `w` behind a number of hops. -/
inductive Hops (f : SourceFile) : Nat → Node → Node → Prop
  | read {n v : Node} (hv : f.Reads n v) : Hops f 0 n v
  | hop {hops : Nat} {n v m w : Node} {b : Binding} (hv : f.Reads n v)
      (hb : b ∈ f.bindings v (v.value.getD "")) (hm : Context.bindingSource? b = some m)
      (hrest : Hops f hops m w) : Hops f (hops + 1) n w

/-- An assignment that binds a variable ends before the variable starts. -/
theorem Collects.stop_le (hf : f.InOrder) {x : String} {cursor : Node} {bs : List Binding}
    (h : f.Collects x cursor bs) (hcursor : f.Has cursor) {site : Node} {value : Option Node}
    (hb : .assigned site value ∈ bs) : site.span.stop ≤ cursor.span.start := by
  have inside : ∀ {cursor boundary block}, f.Block x cursor boundary block →
      .assigned site value ∈ block → site.span.stop ≤ cursor.span.start := by
    intro cursor boundary block hblock hb
    obtain ⟨site', -, hlt, hbinds⟩ := (hblock.mem_iff _).1 hb
    cases hbinds with
    | assignment _ hout _ _ =>
      -- the assignment starts before the cursor and does not hold it
      simp only [Span.contains, Bool.and_eq_false_iff, decide_eq_false_iff_not] at hout
      omega
  induction h with
  | file _ _ hblock => exact inside hblock hb
  | closed _ hblock _ => exact inside hblock hb
  | captured hin hblock _ _ ih =>
    rcases List.mem_append.1 hb with hb | hb
    · exact inside hblock hb
    · have hfunction := hf.start_le hin.has hcursor (Nat.le_of_lt (hin.lt hf.toLinked hcursor))
      exact Nat.le_trans (ih hin.has hb) hfunction

theorem below_of_typeSource? {n m : Node} (h : f.typeSource? n = some m) : f.Below n m := by
  obtain ⟨hlast, -⟩ := Option.filter_eq_some_iff.1 h
  exact trailFrom_forall (P := f.Below n) (fun hn hm => .tail hn (descends_wrapped? hm)) .refl m
    (List.mem_of_getLast? hlast)

theorem Mirrors.stop_le_of_below (hf : f.Mirrors rows) (ht : rows.IsTree) {n m : Node} (hn : f.Has n)
    (h : f.Below n m) : m.span.stop ≤ n.span.stop := by
  have hm := hf.has_of_below hn h
  rw [(hf.fromRow hn).span_eq, (hf.fromRow hm).span_eq]
  rcases under_of_below hf.toInOrder hf.fromRow hn h with heq | hunder
  · rw [heq]
  · exact ht.span_under hunder

/-- An expression that is no wrapper decides its class itself. -/
theorem typeSource?_of_not_isWrapper {n : Node} (h : isWrapper n = false) :
    f.typeSource? n = some n := by
  have hstep : f.wrapped? n = none := by
    unfold isWrapper at h
    unfold wrapped?
    cases hkind : n.kind <;> simp_all
  have htrail : ∀ fuel, trailFrom f.wrapped? fuel n = [n] := by
    intro fuel
    cases fuel <;> simp [trailFrom, hstep]
  simp [typeSource?, destination?, trail, htrail, h]

theorem typeSource?_of_kind {n : Node} (h : n.kind = .var ∨ n.kind = .parameter) :
    f.typeSource? n = some n :=
  typeSource?_of_not_isWrapper (by rcases h with h | h <;> simp [isWrapper, h])

theorem kind_of_isFreeVariable {v : Node} (h : Context.isFreeVariable v = true) : v.kind = .var := by
  simp only [Context.isFreeVariable, Bool.and_eq_true, decide_eq_true_eq] at h
  exact h.1.1

theorem Mirrors.start_lt_stop (hf : f.Mirrors rows)
    (hspelled : ∀ row ∈ rows, Kind.ofForm row.form = .var → row.span.start < row.span.stop) {v : Node}
    (hv : f.Has v) (hkind : v.kind = .var) : v.span.start < v.span.stop := by
  rw [(hf.fromRow hv).kind_eq] at hkind
  rw [(hf.fromRow hv).span_eq]
  refine hspelled _ ?_ hkind
  have hlt : v.id < rows.length := hf.size_eq ▸ hv.lt_size
  simp [Outline.rowAt, hlt]

/-- A hop leads to a variable that starts earlier. -/
theorem Mirrors.hop_start_lt (hf : f.Mirrors rows) (ht : rows.IsTree)
    (hspelled : ∀ row ∈ rows, Kind.ofForm row.form = .var → row.span.start < row.span.stop)
    {v w : Node} (hv : f.Has v) (h : f.Hop v w) : w.span.start < v.span.start := by
  obtain @⟨b, m, hb, hm, hsource, hfree⟩ := h
  rcases hf.stable_has.bindings hv hb with ⟨site, hsite, rfl⟩ | ⟨site, hsite, rfl⟩ | ⟨site, source, -, rfl, -⟩
  · have hend := (hf.toInOrder.collects_bindingsThrough hv rfl).stop_le hf.toInOrder hv hb
    have hchild := mem_children_of_child? hm
    have hbelow : f.Below site w := .head hchild (below_of_typeSource? hsource)
    have hw := hf.has_of_below hsite hbelow
    have hstop := hf.stop_le_of_below ht hsite hbelow
    have hwritten := hf.start_lt_stop hspelled hw (kind_of_isFreeVariable hfree)
    omega
  · -- a parameter has its class from its own type
    obtain ⟨-, cursor, site, -, -, hbinding⟩ := site_of_mem_bindingsThrough hb
    cases hf.binding?_iff.1 hbinding with
    | parameter hkind _ =>
      obtain rfl := Option.some.inj hm
      obtain rfl := Option.some.inj ((typeSource?_of_kind (.inr hkind)).symm.trans hsource)
      cases hkind.symm.trans (kind_of_isFreeVariable hfree)
  · cases hm

/-- Hops in the file lead to variables that start earlier, and all nodes start within the text. -/
structure HopsBack (f : SourceFile) : Prop extends f.Linked where
  hop_start_lt : ∀ {v w}, f.Has v → f.Hop v w → w.span.start < v.span.start
  start_le : ∀ {n}, f.Has n → n.span.start ≤ f.source.utf8ByteSize

theorem hopsBack_of_parse {g : Grammar} (hg : g.GivesTrees) (hspells : g.SpellsVariables)
    {path source : String} (hparse : parse g path source = .ok f) : f.HopsBack := by
  obtain ⟨rows, hrows, rfl⟩ := ofParts_of_parse hparse
  obtain ⟨ht, hstop⟩ := hg source rows hrows
  have hf : (ofParts path source rows).Mirrors rows :=
    mirrors_ofParts ht path source (ofParts path source rows).suppressed
  refine ⟨hf.toLinked, fun hv h => hf.hop_start_lt ht (hspells source rows hrows) hv h, fun hn => ?_⟩
  have hstart := hf.start_le_stop ht hn
  have hroot := hf.stop_le_root ht hn
  rw [source_ofParts]
  omega

theorem HopsBack.lt_of_reads (hf : f.HopsBack) {n v : Node} (hn : f.Has n) (hv : f.Reads n v) :
    v.span.start < f.source.utf8ByteSize + 1 :=
  Nat.lt_succ_of_le (hf.start_le (hf.stable_has.typeSource? hn hv.1))

/-- Induction along hops: variables start earlier with each of them. -/
theorem HopsBack.induction (hf : f.HopsBack) {P : Node → Prop}
    (step : ∀ n, f.Has n → (∀ v b m, f.Reads n v → b ∈ f.bindings v (v.value.getD "") →
      Context.bindingSource? b = some m → P m) → P n) : ∀ n, f.Has n → P n := by
  have go : ∀ k n, f.Has n → (∀ v, f.Reads n v → v.span.start < k) → P n := by
    intro k
    induction k with
    | zero =>
      intro n hn hstart
      exact step n hn fun v b m hv => absurd (hstart v hv) (Nat.not_lt_zero _)
    | succ k ih =>
      intro n hn hstart
      refine step n hn fun v b m hv hb hm => ?_
      have hvhas := hf.stable_has.typeSource? hn hv.1
      refine ih m (hf.stable_has.bindingSource? hvhas hb hm) fun w hw => ?_
      have := hf.hop_start_lt hvhas ⟨hb, hm, hw⟩
      have := hstart v hv
      omega
  exact fun n hn => go _ n hn fun v hv => hf.lt_of_reads hn hv

end SourceFile

namespace Context

variable {cx : Context}

/-! ## The search without a limit -/

/-- The class of an expression, where `class?` gives the classes of the values that variables are bound to. -/
def classThrough (cx : Context) (class? : Node → Option String) (n : Node) : Option String :=
  (cx.file.typeSource? n).bind fun source =>
    if isFreeVariable source then
      (cx.file.bindings source (source.value.getD "")).findSome? fun binding =>
        (bindingSource? binding).bind class?
    else cx.evidentClass? source

/-- The classes of expressions with every binding followed, the nearest one with a class first. -/
def Unlimited (cx : Context) (class? : Node → Option String) : Prop :=
  ∀ n, cx.file.Has n → class? n = cx.classThrough class? n

/-- The class of an expression with as many hops as there could be bytes to start a variable at. -/
def unlimitedClass? (cx : Context) (n : Node) : Option String :=
  cx.classWithin (cx.file.source.utf8ByteSize + 1) n

theorem classWithin_succ (hops : Nat) (n : Node) :
    cx.classWithin (hops + 1) n = cx.classThrough (cx.classWithin hops) n := by
  rw [classWithin, classThrough]

theorem classThrough_congr {class? class?' : Node → Option String} {n : Node}
    (h : ∀ v b m, cx.file.Reads n v → b ∈ cx.file.bindings v (v.value.getD "") →
      bindingSource? b = some m → class? m = class?' m) :
    cx.classThrough class? n = cx.classThrough class?' n := by
  unfold classThrough
  refine Option.bind_congr fun v hv => ?_
  split
  · next hfree =>
    rw [← List.head?_filterMap, ← List.head?_filterMap]
    refine congrArg List.head? (List.filterMap_congr fun b hb => ?_)
    exact Option.bind_congr fun m hm => h v b m ⟨hv, hfree⟩ hb hm
  · rfl

theorem classThrough_of_reads {n v : Node} (hv : cx.file.Reads n v) (class? : Node → Option String) :
    cx.classThrough class? n = (cx.file.bindings v (v.value.getD "")).findSome? fun b =>
      (bindingSource? b).bind class? := by
  rw [classThrough, hv.1, Option.bind_some, if_pos hv.2]

/-- Where no variable is read, no hop is needed. -/
theorem classWithin_of_not_reads {n : Node} (h : ∀ v, ¬ cx.file.Reads n v) (hops : Nat)
    (class? : Node → Option String) : cx.classWithin hops n = cx.classThrough class? n := by
  rw [classWithin.eq_def, classThrough]
  refine Option.bind_congr fun v hv => ?_
  have hfree : ¬ isFreeVariable v = true := fun hfree => h v ⟨hv, hfree⟩
  rw [if_neg hfree, if_neg hfree]

section Back
variable (hf : cx.file.HopsBack)
include hf

/-- Hops beyond the start of the variable that is read change nothing. -/
theorem classWithin_succ_eq {n : Node} (hn : cx.file.Has n) :
    ∀ hops, (∀ v, cx.file.Reads n v → v.span.start < hops) →
      cx.classWithin (hops + 1) n = cx.classWithin hops n := by
  refine hf.induction (P := fun n => ∀ hops, (∀ v, cx.file.Reads n v → v.span.start < hops) →
    cx.classWithin (hops + 1) n = cx.classWithin hops n) (fun n hn ih hops hstart => ?_) n hn
  cases hops with
  | zero =>
    have hnone : ∀ v, ¬ cx.file.Reads n v := fun v hv => Nat.not_lt_zero _ (hstart v hv)
    rw [classWithin_of_not_reads hnone 0 (cx.classWithin 0), classWithin_succ]
  | succ hops =>
    rw [classWithin_succ, classWithin_succ]
    refine classThrough_congr fun v b m hv hb hm => ih v b m hv hb hm hops fun w hw => ?_
    have := hf.hop_start_lt (hf.stable_has.typeSource? hn hv.1) ⟨hb, hm, hw⟩
    have := hstart v hv
    omega

theorem unlimited_unlimitedClass? : cx.Unlimited cx.unlimitedClass? := by
  intro n hn
  exact (classWithin_succ_eq hf hn _ fun v hv => hf.lt_of_reads hn hv).symm.trans (classWithin_succ _ n)

theorem Unlimited.unique {class? class?' : Node → Option String} (h : cx.Unlimited class?)
    (h' : cx.Unlimited class?') : ∀ n, cx.file.Has n → class? n = class?' n := by
  refine hf.induction fun n hn ih => ?_
  rw [h n hn, h' n hn]
  exact classThrough_congr ih

/-- The unlimited search is the only function that looks through the bindings of every variable. -/
theorem unlimited_iff {class? : Node → Option String} :
    cx.Unlimited class? ↔ ∀ n, cx.file.Has n → class? n = cx.unlimitedClass? n := by
  refine ⟨fun h => h.unique hf (unlimited_unlimitedClass? hf), fun h n hn => ?_⟩
  rw [h n hn, unlimited_unlimitedClass? hf n hn]
  refine classThrough_congr fun v b m hv hb hm => (h m ?_).symm
  exact hf.stable_has.bindingSource? (hf.stable_has.typeSource? hn hv.1) hb hm

end Back

/-! ## The search with a limit -/

/-- The items of a list up to the first one with a property, with that one. -/
def upTo {α : Type} (p : α → Bool) : List α → List α
  | [] => []
  | a :: as => if p a then [a] else a :: upTo p as

/-- The variables that the search with `hops` hops meets when it has none left, in the order of the search. What
it would meet behind its answer is not looked at. -/
def cutOffs (cx : Context) : Nat → Node → List Node
  | hops, n =>
    match cx.file.typeSource? n with
    | none => []
    | some v =>
      if isFreeVariable v then
        match hops with
        | 0 => [v]
        | hops + 1 =>
          (upTo (fun b => ((bindingSource? b).bind (cx.classWithin hops)).isSome)
            (cx.file.bindings v (v.value.getD ""))).flatMap fun b =>
              (bindingSource? b).toList.flatMap (cx.cutOffs hops)
      else []

theorem mem_of_mem_upTo {α : Type} {p : α → Bool} {as : List α} {a : α} (h : a ∈ upTo p as) :
    a ∈ as := by
  induction as with
  | nil => exact h
  | cons b as ih =>
    unfold upTo at h
    split at h
    · exact List.mem_singleton.1 h ▸ List.mem_cons_self
    · exact (List.mem_cons.1 h).elim (fun h => h ▸ List.mem_cons_self) fun h => List.mem_cons_of_mem _ (ih h)

theorem cutOffs_of_not_reads {n : Node} (h : ∀ v, ¬ cx.file.Reads n v) (hops : Nat) :
    cx.cutOffs hops n = [] := by
  unfold cutOffs
  split
  · rfl
  · next v hv => exact if_neg fun hfree => h v ⟨hv, hfree⟩

theorem cutOffs_zero {n v : Node} (hv : cx.file.Reads n v) : cx.cutOffs 0 n = [v] := by
  simp [cutOffs, hv.1, hv.2]

theorem cutOffs_succ {n v : Node} (hv : cx.file.Reads n v) (hops : Nat) :
    cx.cutOffs (hops + 1) n =
      (upTo (fun b => ((bindingSource? b).bind (cx.classWithin hops)).isSome)
        (cx.file.bindings v (v.value.getD ""))).flatMap fun b =>
          (bindingSource? b).toList.flatMap (cx.cutOffs hops) := by
  simp [cutOffs, hv.1, hv.2]

/-- A search whose items have the answer of one of their cuts, or else an early one. Up to the first item with
an early answer the cuts are asked; the early answer counts if none of them has one. -/
theorem findSome?_or {α β γ : Type} {answer early : α → Option β} {cuts : α → List γ}
    {late : γ → Option β} {as : List α}
    (h : ∀ a ∈ as, answer a = ((cuts a).findSome? late).or (early a)) :
    as.findSome? answer =
      (((upTo (fun a => (early a).isSome) as).flatMap cuts).findSome? late).or
        (as.findSome? early) := by
  induction as with
  | nil => rfl
  | cons a as ih =>
    rw [List.findSome?_cons, List.findSome?_cons, upTo, h a List.mem_cons_self,
      ih fun a ha => h a (List.mem_cons_of_mem _ ha)]
    cases hearly : early a with
    | none => cases hcuts : (cuts a).findSome? late <;> simp [hcuts]
    | some c => cases hcuts : (cuts a).findSome? late <;> simp [hcuts]

/-- The unlimited search has the answer of the first variable with a class that the limited one was cut off at, or
else the limited answer. -/
theorem Unlimited.eq_or {class? : Node → Option String} (h : cx.Unlimited class?)
    (hf : cx.file.Linked) (hops : Nat) {n : Node} (hn : cx.file.Has n) :
    class? n = ((cx.cutOffs hops n).findSome? class?).or (cx.classWithin hops n) := by
  have silent : ∀ hops n, cx.file.Has n → (¬ ∃ v, cx.file.Reads n v) →
      class? n = ((cx.cutOffs hops n).findSome? class?).or (cx.classWithin hops n) := by
    intro hops n hn hreads
    have hnone := not_exists.1 hreads
    rw [cutOffs_of_not_reads hnone, h n hn, classWithin_of_not_reads hnone hops class?]
    rfl
  induction hops generalizing n with
  | zero =>
    by_cases hreads : ∃ v, cx.file.Reads n v
    · obtain ⟨v, hv⟩ := hreads
      have hself : cx.file.Reads v v :=
        ⟨SourceFile.typeSource?_of_kind (.inl (SourceFile.kind_of_isFreeVariable hv.2)), hv.2⟩
      have hlimited : cx.classWithin 0 n = none := by simp [classWithin, hv.1, hv.2]
      have hsame : class? n = class? v := by
        rw [h n hn, h v (hf.stable_has.typeSource? hn hv.1), classThrough_of_reads hv,
          classThrough_of_reads hself]
      rw [cutOffs_zero hv, hlimited, hsame]
      cases hclass : class? v <;> simp [hclass]
    · exact silent 0 n hn hreads
  | succ hops ih =>
    by_cases hreads : ∃ v, cx.file.Reads n v
    · obtain ⟨v, hv⟩ := hreads
      rw [h n hn, classWithin_succ, cutOffs_succ hv, classThrough_of_reads hv, classThrough_of_reads hv]
      refine findSome?_or fun b hb => ?_
      cases hm : bindingSource? b with
      | none => rfl
      | some m =>
        simpa using ih (hf.stable_has.bindingSource? (hf.stable_has.typeSource? hn hv.1) hb hm)
    · exact silent (hops + 1) n hn hreads

/-- The search is cut off behind all its hops only. -/
theorem hops_of_mem_cutOffs {hops : Nat} {n w : Node} (hw : w ∈ cx.cutOffs hops n) :
    cx.file.Hops hops n w := by
  induction hops generalizing n with
  | zero =>
    by_cases hreads : ∃ v, cx.file.Reads n v
    · obtain ⟨v, hv⟩ := hreads
      rw [cutOffs_zero hv] at hw
      exact List.mem_singleton.1 hw ▸ .read hv
    · rw [cutOffs_of_not_reads (not_exists.1 hreads)] at hw
      cases hw
  | succ hops ih =>
    by_cases hreads : ∃ v, cx.file.Reads n v
    · obtain ⟨v, hv⟩ := hreads
      rw [cutOffs_succ hv] at hw
      obtain ⟨b, hb, hw⟩ := List.mem_flatMap.1 hw
      obtain ⟨m, hm, hw⟩ := List.mem_flatMap.1 hw
      exact .hop hv (mem_of_mem_upTo hb) (Option.mem_toList.1 hm) (ih hw)
    · rw [cutOffs_of_not_reads (not_exists.1 hreads)] at hw
      cases hw

/-- There is one way to give expressions their classes without a limit on hops. The search with the limit differs
from it by the variables that it meets with no hop left: if one of them has a class, the first of those classes is
the unlimited answer. So an answer of the limited search is right exactly if it is that class, or if there is no
such class. -/
theorem classOf?_eq_unlimited_iff {g : Grammar} (hg : g.GivesTrees) (hspells : g.SpellsVariables)
    {path source : String} {f : SourceFile} (hparse : SourceFile.parse g path source = .ok f)
    (classes : Hierarchy) :
    let cx : Context := ⟨f, classes⟩
    (∀ class?, cx.Unlimited class? ↔ ∀ n, f.Has n → class? n = cx.unlimitedClass? n) ∧
      ∀ n, f.Has n →
        (∀ v ∈ cx.cutOffs maxTypeHops n, f.Hops maxTypeHops n v) ∧
        cx.unlimitedClass? n =
          ((cx.cutOffs maxTypeHops n).findSome? cx.unlimitedClass?).or (cx.classOf? n) ∧
        ∀ c, cx.classOf? n = some c →
          (cx.unlimitedClass? n = some c ↔
            ∀ d, (cx.cutOffs maxTypeHops n).findSome? cx.unlimitedClass? = some d → d = c) := by
  intro cx
  have hf : cx.file.HopsBack := SourceFile.hopsBack_of_parse hg hspells hparse
  refine ⟨fun class? => unlimited_iff hf, fun n hn => ⟨fun v => hops_of_mem_cutOffs, ?_⟩⟩
  have hor : cx.unlimitedClass? n =
      ((cx.cutOffs maxTypeHops n).findSome? cx.unlimitedClass?).or (cx.classOf? n) :=
    (unlimited_unlimitedClass? hf).eq_or hf.toLinked maxTypeHops hn
  refine ⟨hor, fun c hc => ?_⟩
  rw [hor, hc]
  cases (cx.cutOffs maxTypeHops n).findSome? cx.unlimitedClass? <;> simp

/-! ## An overwritten assignment -/

/-- `$a` is assigned an `A` and then a `B`, the latter over eight hops. -/
def aliasSource : String :=
  "<?php $i=new B;$h=$i;$g=$h;$f=$g;$e=$f;$d=$e;$c=$d;$b=$c;$a=new A;$a=$b;f($a);"

/-- The outline of `aliasSource`. -/
def aliasOutline : Outline :=
  [⟨0, "program", none, ⟨0, 78⟩⟩, ⟨1, "php_tag", none, ⟨0, 5⟩⟩,
    ⟨1, "expression_statement", none, ⟨6, 15⟩⟩, ⟨2, "assignment_expression", none, ⟨6, 14⟩⟩,
    ⟨3, "variable_name", some "left", ⟨6, 8⟩⟩, ⟨4, "name", none, ⟨7, 8⟩⟩,
    ⟨3, "object_creation_expression", some "right", ⟨9, 14⟩⟩, ⟨4, "name", none, ⟨13, 14⟩⟩,
    ⟨1, "expression_statement", none, ⟨15, 21⟩⟩, ⟨2, "assignment_expression", none, ⟨15, 20⟩⟩,
    ⟨3, "variable_name", some "left", ⟨15, 17⟩⟩, ⟨4, "name", none, ⟨16, 17⟩⟩,
    ⟨3, "variable_name", some "right", ⟨18, 20⟩⟩, ⟨4, "name", none, ⟨19, 20⟩⟩,
    ⟨1, "expression_statement", none, ⟨21, 27⟩⟩, ⟨2, "assignment_expression", none, ⟨21, 26⟩⟩,
    ⟨3, "variable_name", some "left", ⟨21, 23⟩⟩, ⟨4, "name", none, ⟨22, 23⟩⟩,
    ⟨3, "variable_name", some "right", ⟨24, 26⟩⟩, ⟨4, "name", none, ⟨25, 26⟩⟩,
    ⟨1, "expression_statement", none, ⟨27, 33⟩⟩, ⟨2, "assignment_expression", none, ⟨27, 32⟩⟩,
    ⟨3, "variable_name", some "left", ⟨27, 29⟩⟩, ⟨4, "name", none, ⟨28, 29⟩⟩,
    ⟨3, "variable_name", some "right", ⟨30, 32⟩⟩, ⟨4, "name", none, ⟨31, 32⟩⟩,
    ⟨1, "expression_statement", none, ⟨33, 39⟩⟩, ⟨2, "assignment_expression", none, ⟨33, 38⟩⟩,
    ⟨3, "variable_name", some "left", ⟨33, 35⟩⟩, ⟨4, "name", none, ⟨34, 35⟩⟩,
    ⟨3, "variable_name", some "right", ⟨36, 38⟩⟩, ⟨4, "name", none, ⟨37, 38⟩⟩,
    ⟨1, "expression_statement", none, ⟨39, 45⟩⟩, ⟨2, "assignment_expression", none, ⟨39, 44⟩⟩,
    ⟨3, "variable_name", some "left", ⟨39, 41⟩⟩, ⟨4, "name", none, ⟨40, 41⟩⟩,
    ⟨3, "variable_name", some "right", ⟨42, 44⟩⟩, ⟨4, "name", none, ⟨43, 44⟩⟩,
    ⟨1, "expression_statement", none, ⟨45, 51⟩⟩, ⟨2, "assignment_expression", none, ⟨45, 50⟩⟩,
    ⟨3, "variable_name", some "left", ⟨45, 47⟩⟩, ⟨4, "name", none, ⟨46, 47⟩⟩,
    ⟨3, "variable_name", some "right", ⟨48, 50⟩⟩, ⟨4, "name", none, ⟨49, 50⟩⟩,
    ⟨1, "expression_statement", none, ⟨51, 57⟩⟩, ⟨2, "assignment_expression", none, ⟨51, 56⟩⟩,
    ⟨3, "variable_name", some "left", ⟨51, 53⟩⟩, ⟨4, "name", none, ⟨52, 53⟩⟩,
    ⟨3, "variable_name", some "right", ⟨54, 56⟩⟩, ⟨4, "name", none, ⟨55, 56⟩⟩,
    ⟨1, "expression_statement", none, ⟨57, 66⟩⟩, ⟨2, "assignment_expression", none, ⟨57, 65⟩⟩,
    ⟨3, "variable_name", some "left", ⟨57, 59⟩⟩, ⟨4, "name", none, ⟨58, 59⟩⟩,
    ⟨3, "object_creation_expression", some "right", ⟨60, 65⟩⟩, ⟨4, "name", none, ⟨64, 65⟩⟩,
    ⟨1, "expression_statement", none, ⟨66, 72⟩⟩, ⟨2, "assignment_expression", none, ⟨66, 71⟩⟩,
    ⟨3, "variable_name", some "left", ⟨66, 68⟩⟩, ⟨4, "name", none, ⟨67, 68⟩⟩,
    ⟨3, "variable_name", some "right", ⟨69, 71⟩⟩, ⟨4, "name", none, ⟨70, 71⟩⟩,
    ⟨1, "expression_statement", none, ⟨72, 78⟩⟩, ⟨2, "function_call_expression", none, ⟨72, 77⟩⟩,
    ⟨3, "name", some "function", ⟨72, 73⟩⟩, ⟨3, "arguments", some "arguments", ⟨73, 77⟩⟩,
    ⟨4, "argument", none, ⟨74, 76⟩⟩, ⟨5, "variable_name", none, ⟨74, 76⟩⟩, ⟨6, "name", none, ⟨75, 76⟩⟩]

/-- The grammar that knows this source. -/
def aliasGrammar : Grammar := .ofSamples [(aliasSource, aliasOutline)]

/-- The parsed file in a project of its own. -/
def aliasContext : Context where
  file := .ofParts "alias.php" aliasSource aliasOutline
  classes := .build [.ofParts "alias.php" aliasSource aliasOutline]

theorem givesTrees_aliasGrammar : aliasGrammar.GivesTrees :=
  Grammar.givesTrees_ofSamples fun p hp => by
    obtain rfl := List.mem_singleton.1 hp
    exact ⟨Outline.isTree_of_isNested (by decide +kernel), by decide +kernel⟩

theorem spellsVariables_aliasGrammar : aliasGrammar.SpellsVariables := by
  intro source rows hrows
  obtain ⟨rfl, rfl⟩ := Prod.mk.inj (List.mem_singleton.1 (Grammar.mem_of_ofSamples hrows))
  decide +kernel

theorem parse_aliasGrammar :
    SourceFile.parse aliasGrammar "alias.php" aliasSource = .ok aliasContext.file :=
  SourceFile.parse_of_outline (by simp [aliasGrammar, Grammar.ofSamples]) "alias.php"

/-- The last `$a` has the class `A` for the search, which is cut off at `$i`, and `B` without a limit. -/
theorem classes_aliasContext :
    (aliasContext.file.node? 67).map (fun n => (aliasContext.classOf? n, aliasContext.unlimitedClass? n,
      (aliasContext.cutOffs maxTypeHops n).map (·.id))) = some (some "A", some "B", [12]) := by
  decide +kernel

/-- The limit turns the class of the last `$a` into that of the assignment that was overwritten. -/
theorem classOf?_of_overwritten :
    aliasGrammar.GivesTrees ∧ aliasGrammar.SpellsVariables ∧
      SourceFile.parse aliasGrammar "alias.php" aliasSource = .ok aliasContext.file ∧
      ∃ n, aliasContext.file.Has n ∧ aliasContext.classOf? n = some "A" ∧
        ∀ class?, aliasContext.Unlimited class? → class? n = some "B" := by
  have hf : aliasContext.file.HopsBack :=
    SourceFile.hopsBack_of_parse givesTrees_aliasGrammar spellsVariables_aliasGrammar parse_aliasGrammar
  obtain ⟨n, hn, hclasses⟩ := Option.map_eq_some_iff.1 classes_aliasContext
  simp only [Prod.mk.injEq] at hclasses
  refine ⟨givesTrees_aliasGrammar, spellsVariables_aliasGrammar, parse_aliasGrammar, n, hf.has hn,
    hclasses.1, fun class? hclass => ?_⟩
  rw [(unlimited_iff hf).1 hclass n (hf.has hn), hclasses.2.1]

theorem classOf?_eq_unlimited_iff_alias :
    aliasGrammar.GivesTrees ∧ aliasGrammar.SpellsVariables ∧
      SourceFile.parse aliasGrammar "alias.php" aliasSource = .ok aliasContext.file ∧
      ∃ n, aliasContext.file.Has n ∧ (aliasContext.cutOffs maxTypeHops n).map (·.id) = [12] ∧
        aliasContext.unlimitedClass? n =
          ((aliasContext.cutOffs maxTypeHops n).findSome? aliasContext.unlimitedClass?).or
            (aliasContext.classOf? n) ∧
        (aliasContext.unlimitedClass? n = some "A" ↔
          ∀ d, (aliasContext.cutOffs maxTypeHops n).findSome? aliasContext.unlimitedClass? = some d →
            d = "A") := by
  have hlinked := SourceFile.linked_of_parse parse_aliasGrammar
  obtain ⟨n, hn, hclasses⟩ := Option.map_eq_some_iff.1 classes_aliasContext
  simp only [Prod.mk.injEq] at hclasses
  obtain ⟨-, hall⟩ := classOf?_eq_unlimited_iff givesTrees_aliasGrammar spellsVariables_aliasGrammar
    parse_aliasGrammar aliasContext.classes
  obtain ⟨-, hor, hright⟩ := hall n (hlinked.has hn)
  exact ⟨givesTrees_aliasGrammar, spellsVariables_aliasGrammar, parse_aliasGrammar, n, hlinked.has hn,
    hclasses.2.2, hor, hright "A" hclasses.1⟩

end Context

end PhpAudit
