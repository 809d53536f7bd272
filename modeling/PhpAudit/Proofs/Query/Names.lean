import PhpAudit.Proofs.Namespace.Denotation
import PhpAudit.Proofs.Namespace.Region
import PhpAudit.Proofs.Query.HopLimit

/-!
# A name means the same when read and when asked

The names of a file get their full names when it is read, and a written name can be asked about at any node. Both
look it up in the region around the node. Where reading gives a name a full name, so does the question, at this
node and wherever else the region is the same; and the full name is the class of the node (`resolve?_of_resolved`).
-/

namespace PhpAudit

/-! ## Trimmed names -/

namespace Text

variable {s t : String}

theorem head?_trim {c : Char} (h : (trim s).toList.head? = some c) : isBlank c = false := by
  have hprefix : (trim s).toList <+: s.toList.dropWhile isBlank := by
    unfold trim dropEndWhile
    rw [String.toList_ofList, ← List.reverse_suffix, List.reverse_reverse]
    exact List.dropWhile_suffix _
  obtain ⟨behind, heq⟩ := hprefix
  have hhead := List.head?_dropWhile_not isBlank s.toList
  rw [← heq, List.head?_append, h] at hhead
  exact hhead

theorem getLast?_trim {c : Char} (h : (trim s).toList.getLast? = some c) : isBlank c = false := by
  unfold trim dropEndWhile at h
  rw [String.toList_ofList, List.getLast?_reverse] at h
  have := List.head?_dropWhile_not isBlank (s.toList.dropWhile isBlank).reverse
  rwa [h] at this

theorem trim_trim (s : String) : trim (trim s) = trim s :=
  ClassName.trim_eq_self (fun _ => head?_trim) fun _ => getLast?_trim

theorem sameAscii_comm (s t : String) : sameAscii s t = sameAscii t s :=
  BEq.comm

theorem startsWith_singleton (s : String) (c : Char) :
    startsWith s (String.singleton c) = (s.toList.head? == some c) := by
  unfold startsWith
  cases s.toList with
  | nil => simp
  | cons d ds => simp [List.isPrefixOf, Bool.beq_comm]

end Text

namespace Namespace

theorem resolve_trim (written : String) (scope : Option Namespace) :
    resolve (Text.trim written) scope = resolve written scope := by
  unfold resolve
  rw [Text.trim_trim]

end Namespace

/-! ## Names of a file -/

namespace SourceFile

variable {f : SourceFile} {n : Node} {full : String}

/-- What reading a file makes of a name: it passes over names that stand for no class, and looks up the others. -/
theorem Complete.resolved_eq_some_iff (hf : f.Complete) (hn : f.Has n) (hname : n.kind.isName = true) :
    n.resolved = some full ↔
      f.isClassReference n = true ∧ ClassName.isRelative (f.text n) = false ∧
        ClassName.isBuiltinType (f.text n) = false ∧
        Namespace.resolve (f.text n) (f.namespaceAt? n.start) = full := by
  have hclass : n.kind.isClassLike = false := by
    revert hname
    cases n.kind <;> decide
  rw [hf.resolved_eq hn]
  unfold fullName?
  dsimp only
  rw [hclass, hname, Bool.true_and]
  simp [Node.start, and_assoc]

end SourceFile

/-! ## Questions about a name -/

namespace Context

variable {cx : Context} {n : Node} {written : String}

/-- A name that is neither relative nor a variable is looked up in the region around the node. -/
theorem resolve?_of_not_relative (hrelative : ClassName.isRelative written = false)
    (hne : Text.trim written ≠ "") (hsigil : (Text.trim written).toList.head? ≠ some '$') :
    cx.resolve? n written = some (Namespace.resolve written (cx.file.namespaceAt? n.start)) := by
  simp only [ClassName.isRelative, ClassName.relativeNames, Text.isOneOf, List.any_cons, List.any_nil,
    Bool.or_false, Bool.or_eq_false_iff] at hrelative
  obtain ⟨hself, hstatic, hparent⟩ := hrelative
  have hempty : (Text.trim written).isEmpty = false := by
    rwa [← Bool.not_eq_true, String.isEmpty_iff]
  have hstart : Text.startsWith (Text.trim written) "$" = false := by
    rw [show "$" = String.singleton '$' from rfl, Text.startsWith_singleton]
    exact beq_false_of_ne hsigil
  unfold resolve?
  dsimp only
  rw [Text.sameAscii_comm _ "self", hself, Text.sameAscii_comm _ "static", hstatic,
    Text.sameAscii_comm _ "parent", hparent, hempty, hstart, Namespace.resolve_trim]
  rfl

/-- The class of a name is its full name, and else what the question about its text gives. -/
theorem classOf?_of_isName (hname : n.kind.isName = true) :
    cx.classOf? n = (n.resolved <|> cx.resolve? n (cx.file.text n)) := by
  have hkind : n.kind = .name ∨ n.kind = .qualifiedName := by
    revert hname
    cases n.kind <;> decide
  have hwrapper : SourceFile.isWrapper n = false := by
    rcases hkind with h | h <;> simp [SourceFile.isWrapper, h]
  have hfree : isFreeVariable n = false := by
    rcases hkind with h | h <;> simp [isFreeVariable, h]
  unfold classOf? maxTypeHops classWithin
  rw [SourceFile.typeSource?_of_not_isWrapper hwrapper, Option.bind_some, hfree]
  rcases hkind with h | h <;> simp [evidentClass?, h]

/-- Reading a file and asking about a name agree: where a name of the file has a full name, its text means this
name at the node and at every node of the same region, and the name is the class of the node. -/
theorem resolve?_of_resolved {g : Grammar} {path source : String} {f : SourceFile}
    (hparse : SourceFile.parse g path source = .ok f) (classes : Hierarchy) (hn : f.Has n)
    (hname : n.kind.isName = true) {full : String} (hfull : n.resolved = some full)
    (hne : Text.trim (f.text n) ≠ "") (hsigil : (Text.trim (f.text n)).toList.head? ≠ some '$') :
    let cx : Context := ⟨f, classes⟩
    cx.resolve? n (f.text n) = some full ∧
      (∀ m, f.namespaceAt? m.start = f.namespaceAt? n.start → cx.resolve? m (f.text n) = some full) ∧
      cx.classOf? n = some full := by
  intro cx
  have hcomplete : f.Complete := by
    obtain ⟨rows, -, rfl⟩ := SourceFile.ofParts_of_parse hparse
    exact SourceFile.complete_ofParts path source rows
  obtain ⟨-, hrelative, -, hresolve⟩ := (hcomplete.resolved_eq_some_iff hn hname).1 hfull
  have hregion : ∀ m, f.namespaceAt? m.start = f.namespaceAt? n.start →
      cx.resolve? m (f.text n) = some full := by
    intro m hm
    rw [resolve?_of_not_relative hrelative hne hsigil, hm, hresolve]
  refine ⟨hregion n rfl, hregion, ?_⟩
  rw [classOf?_of_isName hname, hfull]
  rfl

/-- The class behind the first `new` of two scopes, asked about at its name and at the `new` itself. -/
theorem resolve?_of_resolved_twoScopes :
    let f := SourceFile.ofParts "a.php" SourceFile.twoScopesSource SourceFile.twoScopesOutline
    let n := (f.node? 7).getD default
    let m := (f.node? 6).getD default
    let cx : Context := ⟨f, default⟩
    (f.Has n ∧ n.kind.isName = true ∧ n.resolved = some "X\\B" ∧ Text.trim (f.text n) = "B") ∧
      (m.kind = .creation ∧ f.namespaceAt? m.start = f.namespaceAt? n.start) ∧
      cx.resolve? n (f.text n) = some "X\\B" ∧ cx.resolve? m (f.text n) = some "X\\B" ∧
      cx.classOf? n = some "X\\B" := by
  intro f n m cx
  let g := Grammar.ofSamples [(SourceFile.twoScopesSource, SourceFile.twoScopesOutline)]
  have hparse : SourceFile.parse g "a.php" SourceFile.twoScopesSource = .ok f :=
    SourceFile.parse_of_outline (by decide +kernel) "a.php"
  have hn : f.Has n ∧ n.kind.isName = true ∧ n.resolved = some "X\\B" ∧ Text.trim (f.text n) = "B" := by
    unfold SourceFile.Has
    decide +kernel
  have hm : m.kind = .creation ∧ f.namespaceAt? m.start = f.namespaceAt? n.start := by decide +kernel
  obtain ⟨hhas, hname, hfull, htext⟩ := hn
  obtain ⟨hat, hregion, hclass⟩ := resolve?_of_resolved hparse default hhas hname hfull
    (by rw [htext]; decide) (by rw [htext]; decide)
  exact ⟨⟨hhas, hname, hfull, htext⟩, hm, hat, hregion m hm.2, hclass⟩

end Context

end PhpAudit
