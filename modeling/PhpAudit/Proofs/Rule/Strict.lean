import PhpAudit.Proofs.Query.Strict
import PhpAudit.Proofs.Rule.Notices

/-!
# Built-in rules ask where it makes sense

A walk through a file asks a rule at each node of the kinds it names. If the rule misuses a question there, the
misuse goes to the log and whatever the rule would have found at the node is lost (`Rule.walk`). The built-in rules
leave that log empty: the one that asks about parameters is asked at parameters only (`Sensitive.exists_check_iff`),
the attributes it asks about are picked by their kind, and the others rest on queries that never meet a misuse, not
even one that would go unseen (`check_strictly`).
-/

namespace PhpAudit

/-! ## Parameters and their attributes -/

namespace SourceFile

variable {f : SourceFile} {n : Node}

/-- Whether an attribute has the last segment of a name, up to ASCII case. -/
def bears (name : String) (a : Node) : Bool :=
  let written := a.value.getD ""
  !written.isEmpty && Text.sameAscii (ClassName.shortName written) (ClassName.shortName name)

theorem parameterName_of_parameter (hk : n.kind = .parameter) :
    f.parameterName n = pure (n.value.getD "") := by
  unfold parameterName Node.expect
  rw [if_pos hk]
  rfl

theorem attributeIsNamed_of_attr (name : String) (hk : n.kind = .attr) :
    f.attributeIsNamed name n = pure (bears name n) := by
  unfold attributeIsNamed attributeName Node.expect
  rw [if_pos hk]
  rfl

/-- Attributes are asked for their names, whatever else stands in the lists in front of a parameter. -/
theorem hasAttribute_of_parameter (name : String) (hk : n.kind = .parameter) :
    f.hasAttribute name n = pure ((f.attributesOf n).any (bears name)) := by
  have hnamed : ∀ a ∈ f.attributesOf n, f.attributeIsNamed name a = pure (bears name a) := by
    intro a ha
    have hattr : a.kind = .attr := by simpa using (List.mem_filter.1 ha).2
    exact attributeIsNamed_of_attr name hattr
  unfold hasAttribute parameterAttributes Node.expect
  rw [if_pos hk]
  exact anyM_eq_pure hnamed

end SourceFile

/-- The rule about secrets relies on the kind of its nodes, and on nothing else. -/
theorem Sensitive.exists_check_iff (cx : Context) (n : Node) :
    (∃ notices, Sensitive.check cx n = .ok notices) ↔ n.kind = .parameter := by
  constructor
  · rintro ⟨notices, h⟩
    by_contra hk
    unfold Sensitive.check SourceFile.parameterName Node.expect at h
    rw [if_neg hk] at h
    cases h
  · intro hk
    unfold Sensitive.check
    rw [SourceFile.parameterName_of_parameter hk, SourceFile.hasAttribute_of_parameter _ hk, pure_bind, pure_bind]
    cases Sensitive.isSensitive (n.value.getD "") with
    | false => exact ⟨_, rfl⟩
    | true =>
      cases (cx.file.attributesOf n).any (SourceFile.bears Sensitive.marker) with
      | false => exact ⟨_, rfl⟩
      | true => exact ⟨_, rfl⟩

/-! ## Strict rules -/

namespace Strict

/-- A remark about the call `n`, if the call is dangerous and its first argument is tainted. -/
def ifTainted (cx : Context) (n : Node) (isDangerous : Except Misuse Bool) (message : Node → String) :
    Except Misuse (List Notice) := do
  let dangerous ← isDangerous
  match dangerous, cx.file.argument? n 0 with
  | true, some first => do
    let tainted ← cx.strictIsTainted first
    return if tainted then [⟨n, message first⟩] else []
  | _, _ => return []

/-- Reports `unserialize()` on tainted data. -/
def checkUnserialize (cx : Context) (n : Node) : Except Misuse (List Notice) :=
  ifTainted cx n (pure (cx.file.isNamed n "unserialize")) fun first =>
    "unserialize() receives user-controlled data from `" ++ cx.file.text first ++ "`"

/-- Reports commands built from tainted data. -/
def checkShell (cx : Context) (n : Node) : Except Misuse (List Notice) :=
  ifTainted cx n (pure (cx.file.isNamedAny n Sink.shellFunctions)) fun first =>
    Sink.callee cx n ++ "() runs a command built from user input `" ++ cx.file.text first ++ "`"

/-- Whether a call takes SQL as it is. -/
def isRawQuery (cx : Context) (n : Node) : Except Misuse Bool :=
  match n.kind with
  | .methodCall => return cx.file.isNamedAny n Sink.rawMethods
  | .staticCall =>
    if cx.file.isNamedAny n Sink.rawMethods then return true
    else if cx.file.isNamedAny n Sink.databaseMethods then do
      let found ← cx.strictStaticClass n
      return found.any Sink.isDatabaseFacade
    else return false
  | _ => return false

/-- Reports SQL built from tainted data. -/
def checkRawSql (cx : Context) (n : Node) : Except Misuse (List Notice) :=
  ifTainted cx n (isRawQuery cx n) fun _ =>
    Sink.callee cx n ++ "() embeds user input in raw SQL; pass it as a binding"

/-- Reports allow lists built from tainted data. -/
def checkAllowList (cx : Context) (n : Node) : Except Misuse (List Notice) :=
  if cx.file.isNamedAny n Sink.allowListMethods then do
    let found ← (cx.file.chainHead? n).elim (pure none) cx.strictClassOf
    found.elim (pure []) fun name =>
      if cx.classes.isA name Sink.queryBuilder then do
        let tainted ← (cx.file.arguments n).anyM cx.strictIsTainted
        return if tainted then
          [⟨n, Sink.callee cx n ++ "() on " ++ name ++
            " is built from request data; list the allowed columns explicitly"⟩]
        else []
      else return []
  else return []

/-- The built-in rules with no misuse passed over. -/
def catalog : Catalog :=
  ⟨[{ Sink.deserialization with check := checkUnserialize }, Sensitive.rule,
    { Sink.queryBuilderSort with check := checkAllowList },
    { Sink.commandInjection with check := checkShell }, { Sink.rawSql with check := checkRawSql }]⟩

variable {cx : Context}

theorem ifTainted_eq (hf : cx.file.Numbered) (n : Node) {isDangerous : Except Misuse Bool} {dangerous : Bool}
    (h : isDangerous = pure dangerous) (message : Node → String) :
    ifTainted cx n isDangerous message =
      pure (if dangerous then Sink.ifFirstTainted cx n message else []) := by
  unfold ifTainted Sink.ifFirstTainted
  rw [h, pure_bind]
  cases dangerous with
  | false => rfl
  | true =>
    cases cx.file.argument? n 0 with
    | none => rfl
    | some first =>
      dsimp only
      rw [Context.strictIsTainted_eq hf, pure_bind, if_pos rfl]

theorem checkUnserialize_eq (hf : cx.file.Numbered) (n : Node) :
    checkUnserialize cx n = pure (Sink.checkUnserialize cx n) :=
  ifTainted_eq hf n rfl _

theorem checkShell_eq (hf : cx.file.Numbered) (n : Node) :
    checkShell cx n = pure (Sink.checkShell cx n) :=
  ifTainted_eq hf n rfl _

theorem isRawQuery_eq (hf : cx.file.Numbered) (n : Node) :
    isRawQuery cx n = pure (Sink.isRawQuery cx n) := by
  unfold isRawQuery Sink.isRawQuery
  rw [Context.strictStaticClass_eq hf]
  cases n.kind with
  | staticCall =>
    dsimp only
    cases cx.file.isNamedAny n Sink.rawMethods with
    | true => rfl
    | false => cases cx.file.isNamedAny n Sink.databaseMethods <;> rfl
  | _ => rfl

theorem checkRawSql_eq (hf : cx.file.Numbered) (n : Node) :
    checkRawSql cx n = pure (Sink.checkRawSql cx n) :=
  ifTainted_eq hf n (isRawQuery_eq hf n) _

theorem checkAllowList_eq (hf : cx.file.Numbered) (n : Node) :
    checkAllowList cx n = pure (Sink.checkAllowList cx n) := by
  have hhead : (cx.file.chainHead? n).elim (pure none) cx.strictClassOf =
      pure ((cx.file.chainHead? n).bind cx.classOf?) := by
    cases cx.file.chainHead? n with
    | none => rfl
    | some head => exact Context.strictClassOf_eq hf head
  have htainted : (cx.file.arguments n).anyM cx.strictIsTainted =
      pure ((cx.file.arguments n).any cx.isTainted) :=
    anyM_eq_pure fun argument _ => Context.strictIsTainted_eq hf argument
  unfold checkAllowList Sink.checkAllowList
  rw [hhead, pure_bind, htainted]
  split
  · cases (cx.file.chainHead? n).bind cx.classOf? with
    | none => rfl
    | some name =>
      cases hisA : cx.classes.isA name Sink.queryBuilder with
      | true => simp [hisA]
      | false => simp [hisA]
  · rfl

end Strict

/-- The rule with no misuse passed over. Rules that are not built in are left as they are. -/
def Rule.strictly (r : Rule) : Rule := (Strict.catalog.get? r.id).getD r

variable {cx : Context} {r : Rule}

/-- A built-in rule has nothing to pass over. -/
theorem check_strictly (hr : r ∈ Catalog.builtin.rules) (hf : cx.file.Numbered) (n : Node) :
    r.strictly.check cx n = r.check cx n := by
  simp only [Catalog.builtin, List.mem_cons, List.not_mem_nil, or_false] at hr
  rcases hr with rfl | rfl | rfl | rfl | rfl
  · exact Strict.checkUnserialize_eq hf n
  · rfl
  · exact Strict.checkAllowList_eq hf n
  · exact Strict.checkShell_eq hf n
  · exact Strict.checkRawSql_eq hf n

/-- A built-in rule has an answer at every node of its kinds. -/
theorem exists_check (hr : r ∈ Catalog.builtin.rules) (cx : Context) {n : Node} (hk : n.kind ∈ r.kinds) :
    ∃ notices, r.check cx n = .ok notices := by
  simp only [Catalog.builtin, List.mem_cons, List.not_mem_nil, or_false] at hr
  -- only the rule about secrets passes a misuse of its own on
  rcases hr with rfl | rfl | rfl | rfl | rfl
  · exact ⟨_, rfl⟩
  · exact (Sensitive.exists_check_iff cx n).2 (List.mem_singleton.1 hk)
  · exact ⟨_, rfl⟩
  · exact ⟨_, rfl⟩
  · exact ⟨_, rfl⟩

/-! ## The walk and its log -/

/-- An entry in the log of a walk: a rule misused a question at a node. -/
structure Complaint where
  rule : String
  file : String
  line : Nat
  error : String
  deriving DecidableEq, Repr

/-- What a walk has come to. -/
structure Walked where
  findings : List Finding := []
  log : List Complaint := []
  deriving DecidableEq, Repr

namespace Rule

/-- What a rule has to say about the node with an id. -/
def checkAt (r : Rule) (cx : Context) (id : Nat) : Except Misuse (List Notice) := do
  let n ← cx.file.node id
  r.check cx n

/-- The nodes that a rule is asked at, in the order of a walk through the tree. -/
def visited (r : Rule) (cx : Context) : List Node :=
  match cx.file.root? with
  | none => []
  | some root => (cx.file.descendants root).filter fun n => r.kinds.contains n.kind

/-- One step of a walk. A misuse is logged, and the node gives no finding. -/
def visit (r : Rule) (cx : Context) (sofar : Walked) (n : Node) : Walked :=
  match r.checkAt cx n.id with
  | .ok notices => { sofar with findings := sofar.findings ++ notices.map (r.report cx.file) }
  | .error misuse =>
    { sofar with log := sofar.log ++ [⟨r.id, cx.file.path, n.line, misuse.message⟩] }

/-- The walk of a rule through a file. -/
def walk (r : Rule) (cx : Context) : Walked := (r.visited cx).foldl (r.visit cx) {}

/-- The findings of a rule on a file, if it misuses no question. -/
def strictFindings (r : Rule) (cx : Context) : Except Misuse (List Finding) := do
  let notices ← (r.visited cx).mapM fun n => r.strictly.checkAt cx n.id
  return notices.flatten.map (r.report cx.file)

end Rule

theorem Rule.findings_eq_visited (r : Rule) (cx : Context) :
    r.findings cx = (r.visited cx).flatMap (r.findingsAt cx) := by
  unfold Rule.findings Rule.visited
  cases cx.file.root? <;> rfl

theorem has_of_mem_visited (hf : cx.file.Numbered) {n : Node} (h : n ∈ r.visited cx) : cx.file.Has n := by
  unfold Rule.visited at h
  split at h
  · cases h
  · next root hroot => exact hf.stable_has.preorder (hf.has hroot) n (List.mem_filter.1 h).1

theorem kind_of_mem_visited {n : Node} (h : n ∈ r.visited cx) : n.kind ∈ r.kinds := by
  unfold Rule.visited at h
  split at h
  · cases h
  · exact List.contains_iff_mem.1 (List.mem_filter.1 h).2

theorem checkAt_of_has {n : Node} (h : cx.file.Has n) : r.checkAt cx n.id = r.check cx n := by
  unfold Rule.checkAt
  rw [SourceFile.node_of_has h, pure_bind]

/-- Steps at nodes where the rule has an answer log nothing and lose nothing. -/
theorem foldl_visit {ns : List Node}
    (h : ∀ n ∈ ns, cx.file.Has n ∧ ∃ notices, r.check cx n = .ok notices) (sofar : Walked) :
    ns.foldl (r.visit cx) sofar = ⟨sofar.findings ++ ns.flatMap (r.findingsAt cx), sofar.log⟩ := by
  induction ns generalizing sofar with
  | nil => rw [List.foldl_nil, List.flatMap_nil, List.append_nil]
  | cons n ns ih =>
    obtain ⟨hn, notices, hok⟩ := h n List.mem_cons_self
    have hstep : r.visit cx sofar n = { sofar with findings := sofar.findings ++ r.findingsAt cx n } := by
      unfold Rule.visit Rule.findingsAt
      rw [checkAt_of_has hn, hok]
    rw [List.foldl_cons, hstep, ih fun m hm => h m (List.mem_cons_of_mem n hm), List.flatMap_cons,
      List.append_assoc]

/-- The walk of a built-in rule finds what the rule has to say and logs nothing. -/
theorem walk_builtin (hr : r ∈ Catalog.builtin.rules) (hf : cx.file.Numbered) :
    r.walk cx = { findings := r.findings cx, log := [] } := by
  have hvisited : ∀ n ∈ r.visited cx, cx.file.Has n ∧ ∃ notices, r.check cx n = .ok notices :=
    fun n hn => ⟨has_of_mem_visited hf hn, exists_check hr cx (kind_of_mem_visited hn)⟩
  unfold Rule.walk
  rw [foldl_visit hvisited, Rule.findings_eq_visited, List.nil_append]

/-- A walk that no misuse could leave unseen finds the same. -/
theorem strictFindings_builtin (hr : r ∈ Catalog.builtin.rules) (hf : cx.file.Numbered) :
    r.strictFindings cx = .ok (r.findings cx) := by
  have hstrict : ∀ n ∈ r.visited cx, r.strictly.checkAt cx n.id = pure (r.noticesAt cx n) := by
    intro n hn
    obtain ⟨notices, hok⟩ := exists_check hr cx (kind_of_mem_visited hn)
    unfold Rule.noticesAt
    rw [checkAt_of_has (has_of_mem_visited hf hn), check_strictly hr hf, hok]
    rfl
  have hfindings : ((r.visited cx).flatMap (r.noticesAt cx)).map (r.report cx.file) = r.findings cx := by
    rw [List.map_flatMap, Rule.findings_eq_visited]
    exact List.flatMap_congr fun n _ => (r.findingsAt_eq cx n).symm
  unfold Rule.strictFindings
  rw [mapM_eq_pure hstrict, pure_bind, ← List.flatMap_def, hfindings]
  rfl

/-- A built-in rule misuses no question, in whatever order and below whatever parents the nodes of a file have been
appended: it has an answer at each node of its kinds, also if no misuse is passed over, and its walk loses no finding
to one. Where the parents of a node run in a circle, the way up from it has no end
(`SourceFile.not_delivers_of_circle`): a rule that goes up there by steps alone gives no answer, and what is said
here is about the walk that stops after as many steps as the file has nodes. -/
theorem builtin_misuses_nothing (path source : String) (drafts : List Draft) (regions : List Namespace)
    (lines : List Nat) (classes : Hierarchy) (hr : r ∈ Catalog.builtin.rules) :
    let cx : Context :=
      ⟨{ SourceFile.ofDrafts path source drafts with namespaces := regions, suppressed := lines }, classes⟩
    (∀ n, cx.file.Has n → n.kind ∈ r.kinds →
      ∃ notices, r.check cx n = .ok notices ∧ r.strictly.check cx n = .ok notices) ∧
    r.walk cx = { findings := r.findings cx, log := [] } ∧
    r.strictFindings cx = .ok (r.findings cx) := by
  intro cx
  have hf : cx.file.Numbered := SourceFile.numbered_ofDrafts path source drafts
  refine ⟨fun n _ hk => ?_, walk_builtin hr hf, strictFindings_builtin hr hf⟩
  obtain ⟨notices, hok⟩ := exists_check hr cx hk
  exact ⟨notices, hok, (check_strictly hr hf n).trans hok⟩

/-- The draft of a node on a line of its own. -/
def draftOnLine (line : Nat) (kind : Kind) (parent : Option Nat) (value : String) : Draft :=
  { kind := kind, form := "", parent := parent, value := some value, span := ⟨0, 1⟩, place := ⟨line, 1⟩ }

/-- A parameter below a later node, with another parameter inside a list of lists of attributes. -/
def tangledDrafts : List Draft :=
  [draftOnLine 1 .parameter (some 8) "password", draftOnLine 2 .attrList (some 0) "",
    draftOnLine 3 .attrList (some 1) "", draftOnLine 4 .attr (some 2) "Override",
    draftOnLine 5 .parameter (some 3) "apiToken", draftOnLine 6 .parameter (some 0) "secret",
    draftOnLine 7 .attrList (some 5) "", draftOnLine 8 .attr (some 6) "\\SensitiveParameter",
    draftOnLine 9 .program none ""]

/-- Two of the three secrets in the tangle lack the attribute. Asked at the attributes, the rule would find neither
and fill the log. -/
theorem builtin_misuses_nothing_tangled :
    let cx : Context :=
      ⟨{ SourceFile.ofDrafts "" "" tangledDrafts with namespaces := [], suppressed := [] }, {}⟩
    let inner : Node := { draftOnLine 5 .parameter (some 3) "apiToken" with id := 4 }
    Sensitive.rule ∈ Catalog.builtin.rules ∧
      (cx.file.Has inner ∧ inner.kind ∈ Sensitive.rule.kinds ∧
        ∃ notices, Sensitive.rule.check cx inner = .ok notices ∧
          Sensitive.rule.strictly.check cx inner = .ok notices) ∧
      Sensitive.rule.walk cx = { findings := Sensitive.rule.findings cx, log := [] } ∧
      Sensitive.rule.strictFindings cx = .ok (Sensitive.rule.findings cx) ∧
      (Sensitive.rule.findings cx).map (·.line) = [1, 5] ∧
      { Sensitive.rule with kinds := [.attr] }.walk cx =
        { findings := []
          log :=
            [⟨Sensitive.rule.id, "", 4, "expected parameter node, found Attribute at line 4"⟩,
              ⟨Sensitive.rule.id, "", 8, "expected parameter node, found Attribute at line 8"⟩] } := by
  intro cx inner
  have hr : Sensitive.rule ∈ Catalog.builtin.rules := by simp [Catalog.builtin]
  have hn : cx.file.Has inner := by
    unfold SourceFile.Has
    decide +kernel
  have hk : inner.kind ∈ Sensitive.rule.kinds := List.mem_singleton_self _
  obtain ⟨hchecks, hwalk, hstrict⟩ := builtin_misuses_nothing "" "" tangledDrafts [] [] {} hr
  exact ⟨hr, ⟨hn, hk, hchecks inner hn hk⟩, hwalk, hstrict, by decide +kernel, by decide +kernel⟩

end PhpAudit
