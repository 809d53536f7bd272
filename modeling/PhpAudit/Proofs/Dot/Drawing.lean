import Mathlib.Data.List.Nodup
import PhpAudit.Proofs.Dot.Reader
import PhpAudit.Proofs.Tree.Lowering
import PhpAudit.Tree.Export

/-!
# Drawings of a tree

A tree is drawn as a directed graph: a statement for every node and one for every link. The text is read back as
this drawing exactly if all values are `Paired` (`read?_toDot_iff`): only their quotes are escaped, so backslashes
of odd number in front of a quote or at the end of a value let the label end too early or not where it should.
-/

namespace PhpAudit

namespace Dot

/-! ## Lines of a graph -/

/-- A word that is a name. -/
structure IsName (w : String) : Prop extends IsWord w where
  not_keyword : w.toList.map Char.toLower ∉ keywords

theorem IsName.name? {w : String} (hw : IsName w) : (Token.word w).name? = some w :=
  if_neg hw.not_keyword

/-- A numeral is a name, as keywords do not start with a digit. -/
theorem isName_repr (n : Nat) : IsName n.repr := by
  have hne : n.repr.toList ≠ [] := by
    rw [Nat.toList_repr]
    exact Nat.toDigits_ne_nil
  have hdigit : ∀ c ∈ n.repr.toList, c.isDigit = true := by
    rw [Nat.toList_repr]
    exact fun c => Nat.isDigit_of_mem_toDigits (by decide) (by decide)
  have hword : n.repr.toList.all isWordChar = true :=
    List.all_eq_true.2 fun c hc => by simp [isWordChar, Char.isAlphanum, hdigit c hc]
  refine ⟨⟨hne, hword⟩, fun h => ?_⟩
  have hkeyword : ∀ k ∈ keywords, k.head?.all (fun c => !c.isDigit) = true := by decide
  obtain ⟨c, w, hw⟩ := List.exists_cons_of_ne_nil hne
  have hc := hdigit c (hw ▸ List.mem_cons_self ..)
  have hlower : c.toLower = c := by
    unfold Char.toLower Char.isDigit at *
    grind
  have hhead := hkeyword _ h
  rw [hw, List.map_cons, hlower] at hhead
  simp [hc] at hhead

theorem eq_of_repr_eq {m n : Nat} (h : m.repr = n.repr) : m = n := by
  have hvalue := congrArg (fun s : String => Nat.ofDigitChars 10 s.toList 0) h
  simpa [Nat.ofDigitChars_toDigits] using hvalue

/-- The line of a link. -/
def edgeLine (source target : String) : List Char :=
  "    ".toList ++ source.toList ++ " -> ".toList ++ target.toList ++ ";\n".toList

theorem body?_edgeLine {source target : String} (hs : IsName source) (ht : IsName target) (cs : List Char) :
    body? (edgeLine source target ++ cs) = (body? cs).map (.edge source target :: ·) := by
  have hline : edgeLine source target ++ cs = ' ' :: ' ' :: ' ' :: ' ' ::
      (source.toList ++ ' ' :: '-' :: '>' :: ' ' :: (target.toList ++ ';' :: '\n' :: cs)) := by
    unfold edgeLine
    simp
  rw [body?, hline, lex_space rfl, lex_space rfl, lex_space rfl, lex_space rfl, lex_word hs.toIsWord rfl,
    lex_space rfl, lex_arrow, lex_space rfl, lex_word ht.toIsWord rfl, lex_sign (by decide), lex_space rfl, body?]
  cases lex cs with
  | none => rfl
  | some ts =>
    rw [Option.map_some, Option.map_some, Option.map_some, Option.map_some, Option.bind_some, Option.bind_some,
      statements?_edge, hs.name?, ht.name?]
    cases statements? ts <;> rfl

/-- The line of a node with a quoted label. -/
def nodeLine (name : String) (label : List Char) : List Char :=
  "    ".toList ++ name.toList ++ " [label=\"".toList ++ label ++ "\"];\n".toList

theorem isName_label : IsName "label" := ⟨⟨by decide, by decide⟩, by decide⟩

theorem body?_nodeLine {name : String} (hn : IsName name) (label cs : List Char) :
    body? (nodeLine name label ++ cs) =
      (quoted? (label ++ '"' :: ']' :: ';' :: '\n' :: cs)).bind fun (s, rest) => (lex rest).bind fun ts =>
        statements? (.word name :: .sign '[' :: .word "label" :: .sign '=' :: .quoted (String.ofList s) :: ts) := by
  have hline : nodeLine name label ++ cs = ' ' :: ' ' :: ' ' :: ' ' :: (name.toList ++ ' ' :: '[' ::
      ("label".toList ++ '=' :: '"' :: (label ++ '"' :: ']' :: ';' :: '\n' :: cs))) := by
    unfold nodeLine
    simp
  rw [body?, hline, lex_space rfl, lex_space rfl, lex_space rfl, lex_space rfl, lex_word hn.toIsWord rfl,
    lex_space rfl, lex_sign (by decide), lex_word isName_label.toIsWord rfl, lex_sign (by decide), lex_quote]
  cases quoted? (label ++ '"' :: ']' :: ';' :: '\n' :: cs) with
  | none => rfl
  | some result =>
    obtain ⟨s, rest⟩ := result
    cases h : lex rest <;> simp [h]

theorem eq_of_statements?_node {name s value : String} {ts : List Token} {rest : List Statement}
    (h : statements? (.word name :: .sign '[' :: .word "label" :: .sign '=' :: .quoted s :: ts) =
      some (.node name "label" value :: rest)) : s = value := by
  unfold statements? at h
  split at h
  · next heq => cases heq
  · next heq =>
    cases heq
    simp only [Option.bind_eq_bind, Option.bind_eq_some_iff] at h
    obtain ⟨_, -, _, -, c, hc, _, -, heq⟩ := h
    cases heq
    cases hc
    rfl
  · next heq => cases heq
  · cases h

/-- A node is read back from its line exactly if its label is paired. -/
theorem body?_nodeLine_iff {name : String} (hn : IsName name) (label : String) (cs : List Char)
    (rest : List Statement) :
    body? (nodeLine name (escape label.toList) ++ cs) = some (.node name "label" label :: rest) ↔
      Paired label.toList ∧ body? cs = some rest := by
  have hclose : lex (']' :: ';' :: '\n' :: cs) = (lex cs).map fun ts => .sign ']' :: .sign ';' :: ts := by
    rw [lex_sign (by decide), lex_sign (by decide), lex_space rfl]
    cases lex cs <;> rfl
  have hread : ∀ ts, statements? (.word name :: .sign '[' :: .word "label" :: .sign '=' :: .quoted label ::
      .sign ']' :: .sign ';' :: ts) = (statements? ts).map (.node name "label" label :: ·) := by
    intro ts
    rw [statements?_node, hn.name?, isName_label.name?, Token.name?_quoted]
    cases statements? ts <;> rfl
  rw [body?_nodeLine hn]
  constructor
  · intro h
    obtain ⟨⟨s, after⟩, hquoted, h⟩ := Option.bind_eq_some_iff.1 h
    obtain ⟨ts, hts, h⟩ := Option.bind_eq_some_iff.1 h
    obtain rfl := eq_of_statements?_node h
    rw [String.toList_ofList] at hquoted ⊢
    obtain ⟨hpaired, rfl⟩ := quoted?_escape_iff.1 hquoted
    rw [hclose] at hts
    obtain ⟨ts, hlex, rfl⟩ := Option.map_eq_some_iff.1 hts
    rw [hread] at h
    obtain ⟨rest', hrest, heq⟩ := Option.map_eq_some_iff.1 h
    cases heq
    exact ⟨hpaired, by rw [body?, hlex, Option.bind_some, hrest]⟩
  · rintro ⟨hpaired, hrest⟩
    obtain ⟨ts, hlex, hts⟩ := Option.bind_eq_some_iff.1 hrest
    rw [quoted?_escape_iff.2 ⟨hpaired, rfl⟩]
    simp [hclose, hlex, hread, hts]

end Dot

/-! ## The drawing -/

/-- The syntax name of a node, followed by its value if it has one. -/
def Node.caption (n : Node) : String :=
  match n.value with
  | some v => n.form ++ ":" ++ v
  | none => n.form

/-- The statements for a node and for the links to its children. -/
def Node.statements (n : Node) : List Dot.Statement :=
  .node n.id.repr "label" n.caption :: n.children.map fun c => .edge n.id.repr c.repr

/-- The statements for all nodes and links of a file. -/
def SourceFile.drawing (f : SourceFile) : List Dot.Statement := f.nodes.toList.flatMap Node.statements

namespace Node

theorem toList_dotLabel {n : Node} (h : Dot.Plain n.form.toList) :
    n.dotLabel.toList = Dot.escape n.caption.toList := by
  unfold dotLabel caption
  cases n.value with
  | none => exact (Dot.escape_of_plain h).symm
  | some v =>
    have hcolon : Dot.escape ":".toList = ":".toList := Dot.escape_of_plain (by decide)
    simp only [String.toList_append, Dot.toList_replace_quote, Dot.escape_append, Dot.escape_of_plain h, hcolon]

theorem paired_caption_iff {n : Node} (h : Dot.Plain n.form.toList) :
    Dot.Paired n.caption.toList ↔ ∀ v, n.value = some v → Dot.Paired v.toList := by
  unfold caption
  cases n.value with
  | none => simp [Dot.paired_of_plain h]
  | some v =>
    have hcolon : Dot.Plain ":".toList := by decide
    simp only [String.toList_append, List.append_assoc, Dot.paired_append_iff h, Dot.paired_append_iff hcolon,
      Option.some.injEq, forall_eq']

theorem toList_dotLines (n : Node) :
    n.dotLines.toList = Dot.nodeLine n.id.repr n.dotLabel.toList ++
      n.children.flatMap fun c => Dot.edgeLine n.id.repr c.repr := by
  have hedges : (String.join (n.children.map fun c =>
      "    " ++ n.id.repr ++ " -> " ++ c.repr ++ ";\n")).toList =
      n.children.flatMap fun c => Dot.edgeLine n.id.repr c.repr := by
    unfold Dot.edgeLine
    simp only [String.toList_join, List.flatMap_map, String.toList_append]
  unfold dotLines Dot.nodeLine
  rw [String.toList_append, hedges]
  simp only [String.toList_append, List.append_assoc]

theorem body?_edges (source : Nat) (targets : List Nat) (cs : List Char) :
    Dot.body? ((targets.flatMap fun c => Dot.edgeLine source.repr c.repr) ++ cs) =
      (Dot.body? cs).map ((targets.map fun c => .edge source.repr c.repr) ++ ·) := by
  induction targets with
  | nil => simp
  | cons c targets ih =>
    rw [List.flatMap_cons, List.append_assoc, Dot.body?_edgeLine (Dot.isName_repr _) (Dot.isName_repr _), ih]
    cases Dot.body? cs <;> rfl

/-- The lines of a node are read back exactly if its value is paired. -/
theorem body?_dotLines_iff {n : Node} (h : Dot.Plain n.form.toList) (cs : List Char)
    (rest : List Dot.Statement) :
    Dot.body? (n.dotLines.toList ++ cs) = some (n.statements ++ rest) ↔
      (∀ v, n.value = some v → Dot.Paired v.toList) ∧ Dot.body? cs = some rest := by
  rw [toList_dotLines, toList_dotLabel h, statements, List.append_assoc, List.cons_append,
    Dot.body?_nodeLine_iff (Dot.isName_repr _), paired_caption_iff h, body?_edges]
  refine and_congr_right fun _ => ?_
  simp [Option.map_eq_some_iff]

end Node

namespace SourceFile

theorem body?_lines_iff {nodes : List Node} (h : ∀ n ∈ nodes, Dot.Plain n.form.toList) :
    Dot.body? ((nodes.flatMap fun n => n.dotLines.toList) ++ ['\x7d']) = some (nodes.flatMap Node.statements) ↔
      ∀ n ∈ nodes, ∀ v, n.value = some v → Dot.Paired v.toList := by
  induction nodes with
  | nil => simp [Dot.body?, Dot.lex_sign (show '\x7d' ∈ Dot.signs by decide), Dot.lex, Dot.statements?]
  | cons n nodes ih =>
    obtain ⟨hn, hnodes⟩ := List.forall_mem_cons.1 h
    rw [List.flatMap_cons, List.flatMap_cons, List.append_assoc, Node.body?_dotLines_iff hn, ih hnodes,
      List.forall_mem_cons]

theorem read?_toDot (f : SourceFile) :
    Dot.read? f.toDot =
      (Dot.body? ((f.nodes.toList.flatMap fun n => n.dotLines.toList) ++ ['\x7d'])).map
        fun statements => ("AST", statements) := by
  have hword : Dot.IsWord "digraph" := ⟨by decide, by decide⟩
  have hname : Dot.IsName "AST" := ⟨⟨by decide, by decide⟩, by decide⟩
  have htext : f.toDot.toList = "digraph".toList ++ ' ' :: ("AST".toList ++ ' ' :: '\x7b' :: '\n' ::
      ((f.nodes.toList.flatMap fun n => n.dotLines.toList) ++ ['\x7d'])) := by
    simp [toDot, String.toList_join, List.flatMap_map]
  rw [Dot.read?, htext, Dot.lex_word hword rfl, Dot.lex_space rfl, Dot.lex_word hname.toIsWord rfl,
    Dot.lex_space rfl, Dot.lex_sign (by decide), Dot.lex_space rfl, Dot.body?]
  cases Dot.lex ((f.nodes.toList.flatMap fun n => n.dotLines.toList) ++ ['\x7d']) with
  | none => rfl
  | some ts => cases h : Dot.statements? ts <;> simp [hname.name?, h]

/-! ## What is drawn -/

variable {f : SourceFile}

/-- There are a statement for every node and one for every node with a parent. -/
theorem Linked.mem_drawing (hf : f.Linked) (s : Dot.Statement) :
    s ∈ f.drawing ↔ (∃ i n, f.node? i = some n ∧ s = .node i.repr "label" n.caption) ∨
      ∃ i n p, f.node? i = some n ∧ n.parent = some p ∧ s = .edge p.repr i.repr := by
  simp only [drawing, List.mem_flatMap, hf.mem_nodes, Node.statements, List.mem_cons, List.mem_map]
  constructor
  · rintro ⟨n, hn, rfl | ⟨c, hc, rfl⟩⟩
    · exact .inl ⟨n.id, n, hn, rfl⟩
    · obtain ⟨m, hm, hparent⟩ := (hf.mem_children hn c).1 hc
      exact .inr ⟨c, m, n.id, hm, hparent, rfl⟩
  · rintro (⟨i, n, hn, rfl⟩ | ⟨i, n, p, hn, hp, rfl⟩)
    · obtain rfl := hf.id_eq hn
      exact ⟨n, hn, .inl rfl⟩
    · obtain ⟨m, hm⟩ := exists_node?_of_lt (Nat.lt_trans (hf.parent_lt hn hp) (lt_size_of_node? hn))
      obtain rfl := hf.id_eq hm
      exact ⟨m, hm, .inr ⟨i, (hf.mem_children hm i).2 ⟨n, hn, hp⟩, rfl⟩⟩

/-- No statement is given twice. -/
theorem Linked.nodup_drawing (hf : f.Linked) : f.drawing.Nodup := by
  refine List.nodup_flatMap.2 ⟨fun n hn => ?_, hf.nodes_pairwise.imp fun {n m} hlt s hs hs' => ?_⟩
  · have hsorted := hf.sorted (hf.mem_nodes.1 hn)
    refine List.nodup_cons.2 ⟨by simp, List.Nodup.map ?_ (hsorted.imp Nat.ne_of_lt)⟩
    intro c d h
    exact Dot.eq_of_repr_eq (Dot.Statement.edge.inj h).2
  · -- both nodes would give the statement its first name
    have hid : n.id.repr = m.id.repr := by
      simp only [Node.statements, List.mem_cons, List.mem_map] at hs hs'
      rcases hs with rfl | ⟨c, -, rfl⟩ <;> rcases hs' with h | ⟨d, -, h⟩
      · exact (Dot.Statement.node.inj h).1
      · cases h
      · cases h
      · exact (Dot.Statement.edge.inj h).1.symm
    exact Nat.ne_of_lt hlt (Dot.eq_of_repr_eq hid)

/-- The text of a file with plain syntax names is read as the drawing of the tree, with the captions of the nodes as
their labels, exactly if all values are paired. The drawing of a file whose links agree has a statement for every
node and for every link, once each. -/
theorem read?_toDot_iff (f : SourceFile) (h : ∀ n ∈ f.nodes.toList, Dot.Plain n.form.toList) :
    (Dot.read? f.toDot = some ("AST", f.drawing) ↔
      ∀ n ∈ f.nodes.toList, ∀ v, n.value = some v → Dot.Paired v.toList) ∧
    (f.Linked → f.drawing.Nodup ∧ ∀ s, s ∈ f.drawing ↔
      (∃ i n, f.node? i = some n ∧ s = .node i.repr "label" n.caption) ∨
        ∃ i n p, f.node? i = some n ∧ n.parent = some p ∧ s = .edge p.repr i.repr) := by
  refine ⟨?_, fun hf => ⟨hf.nodup_drawing, hf.mem_drawing⟩⟩
  rw [read?_toDot, ← body?_lines_iff h, Option.map_eq_some_iff]
  simp [drawing]

/-- The syntax tree of a file that prints one string, with an escape sequence in it. -/
def echoOutline : Outline := [
  ⟨0, "program", none, ⟨0, 16⟩⟩,
  ⟨1, "php_tag", none, ⟨0, 5⟩⟩,
  ⟨1, "echo_statement", none, ⟨6, 16⟩⟩,
  ⟨2, "encapsed_string", none, ⟨11, 15⟩⟩,
  ⟨3, "escape_sequence", none, ⟨12, 14⟩⟩]

/-- A backslash that is escaped in the source is read back. -/
theorem read?_toDot_of_escapedSlash :
    let f := ofParts "" "<?php echo \"\\\\\";" echoOutline
    (∀ n ∈ f.nodes.toList, Dot.Plain n.form.toList) ∧
      (∀ n ∈ f.nodes.toList, ∀ v, n.value = some v → Dot.Paired v.toList) ∧
      Dot.read? f.toDot = some ("AST", f.drawing) := by
  intro f
  have hplain : ∀ n ∈ f.nodes.toList, Dot.Plain n.form.toList := by decide +kernel
  have hpaired : ∀ n ∈ f.nodes.toList, ∀ v ∈ n.value, Dot.Paired v.toList := by decide +kernel
  exact ⟨hplain, hpaired, (read?_toDot_iff f hplain).1.2 hpaired⟩

/-- A quote that is escaped in the source ends the label behind a pair of backslashes, and what is left of the text
is no graph. -/
theorem read?_toDot_of_escapedQuote :
    let f := ofParts "" "<?php echo \"\\\"\";" echoOutline
    (∀ n ∈ f.nodes.toList, Dot.Plain n.form.toList) ∧
      (f.node? 3).map (·.caption) = some "encapsed_string:\"\\\"\"" ∧
      ((f.node? 3).bind fun n => Dot.quoted? (n.dotLabel.toList ++ ['"'])).map (fun r => String.ofList r.1) =
        some "encapsed_string:\"\\\\" ∧
      Dot.read? f.toDot = none := by
  intro f
  rw [read?_toDot, Option.map_eq_none_iff]
  decide +kernel

end SourceFile

end PhpAudit
