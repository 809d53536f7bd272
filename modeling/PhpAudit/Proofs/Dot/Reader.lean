import Mathlib.Algebra.Group.Nat.Even
import Mathlib.Data.List.DropRight
import PhpAudit.Text.Blank

/-!
# Reading DOT texts

A DOT text is taken apart into tokens (`lex`), and its graph is built from them (`read?`). The reader knows the
statements of a drawing: a node with one attribute and a link. Inside of quotes a backslash in front of a quote
keeps it from ending the text, and two backslashes stay a pair. So a text whose quotes have been escaped is read
back exactly if it is `Paired` (`quoted?_escape_iff`).
-/

namespace PhpAudit.Dot

/-! ## Quoted texts -/

/-- The characters up to the quote that ends a text, and what follows this quote. -/
def quoted? : List Char → Option (List Char × List Char)
  | [] => none
  | '"' :: cs => some ([], cs)
  | '\\' :: '"' :: cs => (quoted? cs).map fun (s, rest) => ('"' :: s, rest)
  | '\\' :: '\\' :: cs => (quoted? cs).map fun (s, rest) => ('\\' :: '\\' :: s, rest)
  | c :: cs => (quoted? cs).map fun (s, rest) => (c :: s, rest)

theorem length_of_quoted? {s cs rest : List Char} (h : quoted? cs = some (s, rest)) :
    rest.length < cs.length := by
  fun_induction quoted? cs generalizing s with
  | case1 => cases h
  | case2 cs =>
    cases h
    exact Nat.lt_succ_self _
  | case3 cs ih | case4 cs ih | case5 c cs _ _ _ ih =>
    obtain ⟨⟨s', _⟩, hs, heq⟩ := Option.map_eq_some_iff.1 h
    cases heq
    have := ih hs
    simp only [List.length_cons]
    omega

/-- A text with a backslash in front of each of its quotes. -/
def escape (cs : List Char) : List Char :=
  cs.flatMap fun c => if c = '"' then ['\\', '"'] else [c]

theorem escape_cons (c : Char) (cs : List Char) :
    escape (c :: cs) = (if c = '"' then ['\\', '"'] else [c]) ++ escape cs :=
  List.flatMap_cons

theorem escape_append (cs ds : List Char) : escape (cs ++ ds) = escape cs ++ escape ds :=
  List.flatMap_append

theorem toList_replace_quote (s : String) : (Text.replace '"' "\\\"" s).toList = escape s.toList := by
  simp [Text.replace, escape]

/-- The backslashes in front of a quote, and those at the end of the text, are even in number. -/
def Paired (cs : List Char) : Prop :=
  ∀ before after, before ++ after = cs → after.head?.all (· = '"') →
    Even (before.rtakeWhile (· = '\\')).length

/-- The text is paired when it stands behind a number of backslashes. -/
def PairedBehind : Nat → List Char → Prop
  | run, [] => Even run
  | run, c :: cs => if c = '\\' then PairedBehind (run + 1) cs else (c = '"' → Even run) ∧ PairedBehind 0 cs

instance decidablePairedBehind : ∀ run cs, Decidable (PairedBehind run cs)
  | run, [] => inferInstanceAs (Decidable (Even run))
  | run, c :: cs =>
    have := decidablePairedBehind (run + 1) cs
    have := decidablePairedBehind 0 cs
    inferInstanceAs (Decidable (if c = '\\' then PairedBehind (run + 1) cs
      else (c = '"' → Even run) ∧ PairedBehind 0 cs))

theorem pairedBehind_add_two (run : Nat) (cs : List Char) :
    PairedBehind (run + 2) cs ↔ PairedBehind run cs := by
  induction cs generalizing run with
  | nil => simp [PairedBehind, Nat.even_add_one]
  | cons c cs ih =>
    unfold PairedBehind
    split
    · exact ih (run + 1)
    · simp [Nat.even_add_one]

/-- What stands in front of another character is no part of the run in front of a quote. -/
theorem rtakeWhile_append_cons {c : Char} (hc : c ≠ '\\') (before behind : List Char) :
    (before ++ c :: behind).rtakeWhile (· = '\\') = behind.rtakeWhile (· = '\\') := by
  unfold List.rtakeWhile
  rw [List.reverse_append, List.reverse_cons, List.append_assoc, List.takeWhile_append]
  split
  · next h => simp [hc, (List.takeWhile_sublist _).eq_of_length h]
  · rfl

theorem length_rtakeWhile_replicate (run : Nat) :
    ((List.replicate run '\\').rtakeWhile (· = '\\')).length = run := by
  simp [List.rtakeWhile]

/-- What a text is cut into in front of a quote or at its end: nothing and all of it, if it starts with a quote, or its
first character and a part of the rest. -/
theorem forall_cut_cons {c : Char} {cs : List Char} {P : List Char → Prop} :
    (∀ before after, before ++ after = c :: cs → after.head?.all (· = '"') → P before) ↔
      (c = '"' → P []) ∧
        ∀ before after, before ++ after = cs → after.head?.all (· = '"') → P (c :: before) := by
  constructor
  · intro h
    refine ⟨fun hc => h [] (c :: cs) rfl (by simp [hc]), fun before after heq => ?_⟩
    exact h (c :: before) after (by rw [List.cons_append, heq])
  · rintro ⟨hquote, h⟩ before after heq hafter
    cases before with
    | nil =>
      obtain rfl : after = c :: cs := heq
      exact hquote (by simpa using hafter)
    | cons b before =>
      obtain ⟨rfl, hcs⟩ := List.cons.inj heq
      exact h before after hcs hafter

theorem pairedBehind_iff (run : Nat) (cs : List Char) :
    PairedBehind run cs ↔ ∀ before after, before ++ after = cs → after.head?.all (· = '"') →
      Even ((List.replicate run '\\' ++ before).rtakeWhile (· = '\\')).length := by
  induction cs generalizing run with
  | nil =>
    unfold PairedBehind
    constructor
    · intro h before after heq _
      obtain ⟨rfl, rfl⟩ := List.append_eq_nil_iff.1 heq
      rwa [List.append_nil, length_rtakeWhile_replicate]
    · intro h
      simpa [length_rtakeWhile_replicate] using h [] [] rfl rfl
  | cons c cs ih =>
    rw [forall_cut_cons, List.append_nil, length_rtakeWhile_replicate]
    unfold PairedBehind
    split
    · next hc =>
      -- the run goes on
      subst hc
      rw [ih, List.replicate_succ']
      simp
    · next hc => simp [ih, rtakeWhile_append_cons hc]

theorem pairedBehind_zero (cs : List Char) : PairedBehind 0 cs ↔ Paired cs := by
  simp [pairedBehind_iff, Paired]

instance (cs : List Char) : Decidable (Paired cs) :=
  decidable_of_iff _ (pairedBehind_zero cs)

/-- Neither quotes nor backslashes occur. -/
def Plain (cs : List Char) : Prop := ∀ c ∈ cs, c ≠ '"' ∧ c ≠ '\\'

instance (cs : List Char) : Decidable (Plain cs) :=
  List.decidableBAll (fun c => c ≠ '"' ∧ c ≠ '\\') cs

theorem escape_of_plain {cs : List Char} (h : Plain cs) : escape cs = cs := by
  induction cs with
  | nil => rfl
  | cons c cs ih =>
    obtain ⟨hc, hcs⟩ := List.forall_mem_cons.1 h
    rw [escape_cons, if_neg hc.1, ih hcs, List.singleton_append]

/-- A plain text in front changes nothing. -/
theorem paired_append_iff {cs ds : List Char} (h : Plain cs) : Paired (cs ++ ds) ↔ Paired ds := by
  rw [← pairedBehind_zero, ← pairedBehind_zero]
  induction cs with
  | nil => rfl
  | cons c cs ih =>
    obtain ⟨hc, hcs⟩ := List.forall_mem_cons.1 h
    rw [List.cons_append, PairedBehind, if_neg hc.2, ih hcs]
    simp

theorem paired_of_plain {cs : List Char} (h : Plain cs) : Paired cs := by
  rw [← List.append_nil cs, paired_append_iff h]
  decide

/-- The reader goes two steps at a time over backslashes: it stands behind an even number of them, or has the last
of an odd number still in front. -/
theorem quoted?_pairedBehind (cs rest rest' : List Char) :
    (quoted? (escape cs ++ '"' :: rest) = some (cs, rest') ↔ PairedBehind 0 cs ∧ rest' = rest) ∧
      (quoted? ('\\' :: (escape cs ++ '"' :: rest)) = some ('\\' :: cs, rest') ↔
        PairedBehind 1 cs ∧ rest' = rest) := by
  induction cs with
  | nil => simp [escape, quoted?, PairedBehind, eq_comm]
  | cons c cs ih =>
    obtain ⟨heven, hodd⟩ := ih
    rw [escape_cons]
    by_cases hquote : c = '"'
    · subst hquote
      simp [quoted?, PairedBehind, ← heven]
    by_cases hslash : c = '\\'
    · subst hslash
      have htwo := pairedBehind_add_two 0 cs
      simp [quoted?, PairedBehind, hodd, htwo, ← heven]
    · simp [quoted?, PairedBehind, hquote, hslash, ← heven]

/-- A text is read back from between its quotes exactly if it is paired. -/
theorem quoted?_escape_iff {cs rest rest' : List Char} :
    quoted? (escape cs ++ '"' :: rest) = some (cs, rest') ↔ Paired cs ∧ rest' = rest := by
  rw [(quoted?_pairedBehind cs rest rest').1, pairedBehind_zero]

/-! ## Tokens -/

/-- The parts of a DOT text. -/
inductive Token
  | word (s : String)
  | quoted (s : String)
  | sign (c : Char)
  | arrow
  deriving DecidableEq, Repr

/-- The characters of words. -/
def isWordChar (c : Char) : Bool := c.isAlphanum || c == '_'

/-- The signs that stand for themselves. -/
def signs : List Char := ['\x7b', '\x7d', '[', ']', '=', ';']

/-- The tokens of a text. -/
def lex (cs : List Char) : Option (List Token) :=
  match cs with
  | [] => some []
  | '"' :: cs =>
    match _h : quoted? cs with
    | none => none
    | some (s, rest) => (lex rest).map (.quoted (String.ofList s) :: ·)
  | '-' :: '>' :: cs => (lex cs).map (.arrow :: ·)
  | c :: cs =>
    if c.isWhitespace then lex cs
    else if c ∈ signs then (lex cs).map (.sign c :: ·)
    else if isWordChar c then
      (lex (cs.dropWhile isWordChar)).map (.word (String.ofList (c :: cs.takeWhile isWordChar)) :: ·)
    else none
termination_by cs.length
decreasing_by
  · have := length_of_quoted? _h
    rw [List.length_cons]
    omega
  · simp only [List.length_cons]
    omega
  · simp
  · simp
  · have := (List.dropWhile_sublist isWordChar (l := cs)).length_le
    rw [List.length_cons]
    omega

theorem lex_quote (cs : List Char) :
    lex ('"' :: cs) = (quoted? cs).bind fun (s, rest) => (lex rest).map (.quoted (String.ofList s) :: ·) := by
  rw [lex]
  split
  · next h => rw [h, Option.bind_none]
  · next h => rw [h, Option.bind_some]

theorem lex_arrow (cs : List Char) : lex ('-' :: '>' :: cs) = (lex cs).map (.arrow :: ·) := by
  rw [lex]

theorem lex_space {c : Char} (hc : c.isWhitespace = true) (cs : List Char) : lex (c :: cs) = lex cs := by
  rw [lex]
  · rw [if_pos hc]
  · rintro rfl
    cases hc
  · rintro _ rfl
    cases hc

theorem of_mem_signs {c : Char} (hc : c ∈ signs) :
    (c.isWhitespace = false ∧ isWordChar c = false) ∧ c ≠ '"' ∧ c ≠ '-' := by
  have hall : signs.all (fun c =>
      (c.isWhitespace = false ∧ isWordChar c = false) ∧ c ≠ '"' ∧ c ≠ '-') = true := by decide
  exact of_decide_eq_true (List.all_eq_true.1 hall c hc)

theorem lex_sign {c : Char} (hc : c ∈ signs) (cs : List Char) :
    lex (c :: cs) = (lex cs).map (.sign c :: ·) := by
  obtain ⟨⟨hspace, -⟩, hquote, hdash⟩ := of_mem_signs hc
  rw [lex]
  · rw [hspace, if_neg Bool.false_ne_true, if_pos hc]
  · exact hquote
  · exact fun _ h => absurd h hdash

/-- The text is a word. -/
structure IsWord (w : String) : Prop where
  ne_nil : w.toList ≠ []
  all_isWordChar : w.toList.all isWordChar = true

/-- A word ends where another character follows. -/
theorem lex_word {w : String} (hw : IsWord w) {d : Char} (hd : isWordChar d = false) (cs : List Char) :
    lex (w.toList ++ d :: cs) = (lex (d :: cs)).map (.word w :: ·) := by
  obtain ⟨c, rest, heq⟩ := List.exists_cons_of_ne_nil hw.ne_nil
  have hall := List.all_eq_true.1 hw.all_isWordChar
  rw [heq] at hall
  obtain ⟨hc, hrest⟩ := List.forall_mem_cons.1 hall
  have hspace : c.isWhitespace = false := by
    rw [Bool.eq_false_iff]
    intro h
    simp only [Char.isWhitespace, Bool.or_eq_true, decide_eq_true_eq] at h
    rcases h with ((rfl | rfl) | rfl) | rfl <;> cases hc
  have hsign : c ∉ signs := by
    intro h
    cases (of_mem_signs h).1.2.symm.trans hc
  rw [heq, List.cons_append, lex]
  · rw [hspace, if_neg Bool.false_ne_true, if_neg hsign, if_pos hc, List.dropWhile_append_of_pos hrest,
      List.takeWhile_append_of_pos hrest, List.dropWhile_cons_of_neg (Bool.eq_false_iff.1 hd),
      List.takeWhile_cons_of_neg (Bool.eq_false_iff.1 hd), List.append_nil, ← heq, String.ofList_toList]
  · rintro rfl
    cases hc
  · rintro _ rfl
    cases hc

/-! ## Graphs -/

/-- The words that are no names, whatever their letter case. -/
def keywords : List (List Char) :=
  ["node", "edge", "graph", "digraph", "subgraph", "strict"].map String.toList

/-- The name that a token stands for. -/
def Token.name? : Token → Option String
  | word s => if s.toList.map Char.toLower ∈ keywords then none else some s
  | quoted s => some s
  | sign _ => none
  | arrow => none

@[simp] theorem Token.name?_quoted (s : String) : (quoted s).name? = some s := rfl

/-- A statement of a graph. -/
inductive Statement
  | node (name key value : String)
  | edge (source target : String)
  deriving DecidableEq, Repr

/-- The statements up to the brace that ends the graph and the text. -/
def statements? : List Token → Option (List Statement)
  | [.sign '\x7d'] => some []
  | a :: .sign '[' :: b :: .sign '=' :: c :: .sign ']' :: .sign ';' :: ts => do
    return .node (← a.name?) (← b.name?) (← c.name?) :: (← statements? ts)
  | a :: .arrow :: b :: .sign ';' :: ts => do
    return .edge (← a.name?) (← b.name?) :: (← statements? ts)
  | _ => none

theorem statements?_node (a b c : Token) (ts : List Token) :
    statements? (a :: .sign '[' :: b :: .sign '=' :: c :: .sign ']' :: .sign ';' :: ts) = do
      return .node (← a.name?) (← b.name?) (← c.name?) :: (← statements? ts) := by
  rw [statements?]

theorem statements?_edge (a b : Token) (ts : List Token) :
    statements? (a :: .arrow :: b :: .sign ';' :: ts) = do
      return .edge (← a.name?) (← b.name?) :: (← statements? ts) := by
  rw [statements?]

/-- The statements of a text that starts behind the opening brace. -/
def body? (cs : List Char) : Option (List Statement) := (lex cs).bind statements?

/-- The name and the statements of a directed graph. -/
def read? (text : String) : Option (String × List Statement) :=
  match lex text.toList with
  | some (.word "digraph" :: name :: .sign '\x7b' :: ts) => do
    return (← name.name?, ← statements? ts)
  | _ => none

end PhpAudit.Dot
