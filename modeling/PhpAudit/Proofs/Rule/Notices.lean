import Mathlib.Data.List.Basic
import PhpAudit.Rule.Builtin

/-!
# What the built-in rules report

A rule turns the remarks it makes at the nodes of a file into findings. A built-in rule makes at most one
remark at a node, and the remark is about that node (`concerns_noticesAt`).
-/

namespace PhpAudit

/-! ## Remarks and findings -/

/-- What a rule has to say about one node; a misuse gives nothing. -/
def Rule.noticesAt (r : Rule) (cx : Context) (n : Node) : List Notice :=
  match r.check cx n with
  | .ok notices => notices
  | .error _ => []

/-- What a rule has to say about a file, in the order of a walk through its tree. -/
def Rule.notices (r : Rule) (cx : Context) : List Notice :=
  match cx.file.root? with
  | none => []
  | some root =>
    ((cx.file.descendants root).filter (fun n => r.kinds.contains n.kind)).flatMap (r.noticesAt cx)

theorem Rule.findingsAt_eq (r : Rule) (cx : Context) (n : Node) :
    r.findingsAt cx n = (r.noticesAt cx n).map (r.report cx.file) := by
  unfold Rule.findingsAt Rule.noticesAt
  cases r.check cx n <;> rfl

theorem Rule.findings_eq (r : Rule) (cx : Context) :
    r.findings cx = (r.notices cx).map (r.report cx.file) := by
  unfold Rule.findings Rule.notices
  cases cx.file.root? with
  | none => rfl
  | some root =>
    dsimp only
    rw [List.map_flatMap]
    exact List.flatMap_congr fun n _ => r.findingsAt_eq cx n

/-! ## One remark about one node -/

/-- Nothing, or a single remark about the node. -/
def Concerns (n : Node) (notices : List Notice) : Prop :=
  notices = [] ∨ ∃ text, notices = [⟨n, text⟩]

variable {n : Node} {notices : List Notice}

theorem Concerns.ite {c : Prop} [Decidable c] (h : Concerns n notices) :
    Concerns n (if c then notices else []) := by
  split
  · exact h
  · exact .inl rfl

theorem Concerns.node_eq (h : Concerns n notices) {x : Notice} (hx : x ∈ notices) : x.node = n := by
  rcases h with rfl | ⟨text, rfl⟩
  · cases hx
  · rw [List.mem_singleton.1 hx]

theorem Concerns.length_le (h : Concerns n notices) : notices.length ≤ 1 := by
  rcases h with rfl | ⟨text, rfl⟩
  · exact Nat.zero_le 1
  · exact Nat.le_refl 1

theorem concerns_ifFirstTainted (cx : Context) (n : Node) (message : Node → String) :
    Concerns n (Sink.ifFirstTainted cx n message) := by
  unfold Sink.ifFirstTainted
  split
  · exact Concerns.ite (.inr ⟨_, rfl⟩)
  · exact .inl rfl

theorem concerns_checkAllowList (cx : Context) (n : Node) : Concerns n (Sink.checkAllowList cx n) := by
  unfold Sink.checkAllowList
  refine Concerns.ite ?_
  split
  · exact Concerns.ite (.inr ⟨_, rfl⟩)
  · exact .inl rfl

theorem concerns_sensitive (cx : Context) (n : Node) :
    Concerns n (Sensitive.rule.noticesAt cx n) := by
  have hcheck : Sensitive.rule.check cx n = Sensitive.check cx n := rfl
  unfold Rule.noticesAt Concerns
  rw [hcheck]
  unfold Sensitive.check
  cases cx.file.parameterName n with
  | error e => exact .inl rfl
  | ok name =>
    cases hs : Sensitive.isSensitive name with
    | false => simp [bind, Except.bind, hs, pure, Except.pure]
    | true =>
      cases ha : cx.file.hasAttribute Sensitive.marker n with
      | error e => simp [bind, Except.bind, hs]
      | ok found => cases found <;> simp [bind, Except.bind, hs, pure, Except.pure]

/-- A built-in rule makes at most one remark at a node, about that node. -/
theorem concerns_noticesAt {r : Rule} (hr : r ∈ Catalog.builtin.rules) (cx : Context) (n : Node) :
    Concerns n (r.noticesAt cx n) := by
  simp only [Catalog.builtin, List.mem_cons, List.not_mem_nil, or_false] at hr
  rcases hr with rfl | rfl | rfl | rfl | rfl
  · exact (concerns_ifFirstTainted cx n _).ite
  · exact concerns_sensitive cx n
  · exact concerns_checkAllowList cx n
  · exact (concerns_ifFirstTainted cx n _).ite
  · exact (concerns_ifFirstTainted cx n _).ite

end PhpAudit
