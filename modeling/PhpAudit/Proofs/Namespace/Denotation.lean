import Mathlib.Data.List.TakeWhile
import PhpAudit.Namespace
import PhpAudit.Proofs.Hierarchy.Reachability

/-!
# What a written class name denotes

A class of a namespace can be referred to by its own name within the namespace, by its full name behind a
backslash, by its own name behind `namespace\`, and by an alias that an import gives it (`Denotes`), in
letters of any case. Each of these names resolves to the full name of the class, up to the case of letters
(`Denotes.asciiLower_resolve`).
-/

namespace PhpAudit

/-! ## Letters -/

namespace Text

variable {s t : String}

theorem toList_asciiLower (s : String) : (asciiLower s).toList = s.toList.map Char.toLower :=
  String.toList_ofList

theorem asciiLower_ofList (cs : List Char) :
    asciiLower (String.ofList cs) = String.ofList (cs.map Char.toLower) := by
  unfold asciiLower
  rw [String.toList_ofList]

theorem asciiLower_append (s t : String) : asciiLower (s ++ t) = asciiLower s ++ asciiLower t := by
  unfold asciiLower
  rw [String.toList_append, List.map_append, String.ofList_append]

theorem asciiLower_asciiLower (s : String) : asciiLower (asciiLower s) = asciiLower s := by
  have htwice : ∀ c : Char, c.toLower.toLower = c.toLower := by
    intro c
    rcases ClassName.toLower_cases c with h | ⟨hlow, hhigh, h⟩
    · rw [h, h]
    · rcases ClassName.toLower_cases c.toLower with h' | ⟨hlow', hhigh', -⟩
      · exact h'
      · omega
  unfold asciiLower
  rw [String.toList_ofList, List.map_map]
  exact congrArg String.ofList (List.map_congr_left fun c _ => htwice c)

theorem asciiLower_trim (s : String) : trim (asciiLower s) = asciiLower (trim s) := by
  have hblank : isBlank ∘ Char.toLower = isBlank := funext ClassName.isBlank_toLower
  unfold trim dropEndWhile asciiLower
  simp only [String.toList_ofList, List.dropWhile_map, ← List.map_reverse, hblank]

theorem splitFirst?_asciiLower (s : String) :
    splitFirst? ClassName.separator (asciiLower s) =
      (splitFirst? ClassName.separator s).map fun p => (asciiLower p.1, asciiLower p.2) := by
  have hsep : (· != ClassName.separator) ∘ Char.toLower = (· != ClassName.separator) := by
    funext c
    simp only [Function.comp_apply, bne, ClassName.beq_separator_toLower]
  unfold splitFirst?
  rw [toList_asciiLower, List.dropWhile_map, List.takeWhile_map, hsep]
  cases s.toList.dropWhile (· != ClassName.separator) with
  | nil => rfl
  | cons c rest => simp [asciiLower]

theorem isOneOf_congr (names : List String) (h : asciiLower s = asciiLower t) :
    isOneOf names s = isOneOf names t := by
  unfold isOneOf sameAscii
  rw [h]

end Text

namespace ClassName

variable {s t : String}

theorem isRelative_congr (h : Text.asciiLower s = Text.asciiLower t) :
    isRelative s = isRelative t := by
  refine Text.isOneOf_congr relativeNames ?_
  rw [← Text.asciiLower_trim, h, Text.asciiLower_trim]

theorem isBuiltinType_congr (h : Text.asciiLower s = Text.asciiLower t) :
    isBuiltinType s = isBuiltinType t := by
  refine Text.isOneOf_congr builtinTypes ?_
  rw [← normalize_asciiLower, h, normalize_asciiLower]

theorem asciiLower_qualify_congr {r r' : String} (hr : Text.asciiLower r = Text.asciiLower r')
    (h : Text.asciiLower s = Text.asciiLower t) :
    Text.asciiLower (qualify r s) = Text.asciiLower (qualify r' t) := by
  have hempty : r.isEmpty = r'.isEmpty := by
    have hlist := congrArg (fun w : String => w.toList = []) hr
    simp only [Text.toList_asciiLower, List.map_eq_nil_iff, String.toList_eq_nil_iff] at hlist
    rw [Bool.eq_iff_iff, String.isEmpty_iff, String.isEmpty_iff, hlist]
  unfold qualify join
  rw [hempty]
  split
  · exact h
  · simp only [Text.asciiLower_append, hr, h]

end ClassName

/-! ## Resolution up to case -/

namespace Namespace

theorem import?_congr (ns : Namespace) {s t : String} (h : Text.asciiLower s = Text.asciiLower t) :
    ns.import? s = ns.import? t := by
  unfold import? Text.sameAscii
  rw [h]

theorem asciiLower_resolveIn (ns : Namespace) (name : String) :
    Text.asciiLower (ns.resolveIn (Text.asciiLower name)) = Text.asciiLower (ns.resolveIn name) := by
  have hsame := Text.asciiLower_asciiLower
  unfold resolveIn
  rw [Text.splitFirst?_asciiLower]
  cases Text.splitFirst? ClassName.separator name with
  | none =>
    rw [Option.map_none, ns.import?_congr (hsame name)]
    dsimp only
    split
    · rfl
    · exact ClassName.asciiLower_qualify_congr rfl (hsame name)
  | some p =>
    obtain ⟨first, rest⟩ := p
    rw [Option.map_some]
    unfold Text.sameAscii
    dsimp only
    rw [ns.import?_congr (hsame first), hsame]
    split
    · exact ClassName.asciiLower_qualify_congr rfl (hsame rest)
    · split
      · simp only [ClassName.join, Text.asciiLower_append, hsame]
      · exact ClassName.asciiLower_qualify_congr rfl (hsame name)

section Resolve

variable {name : String} {scope : Option Namespace} {ns : Namespace} {rest : List Char}

theorem resolve_of_absolute (h : (Text.trim name).toList = ClassName.separator :: rest) :
    resolve name scope = String.ofList rest := by
  unfold resolve
  simp only [h, ClassName.separator]

theorem resolve_of_local (h : (Text.trim name).toList.head? ≠ some ClassName.separator) :
    resolve name scope =
      if ClassName.isRelative (Text.trim name) || ClassName.isBuiltinType (Text.trim name) then
        Text.trim name
      else (scope.map (·.resolveIn (Text.trim name))).getD (Text.trim name) := by
  unfold resolve
  dsimp only
  split
  · next heq => exact absurd (by rw [heq]; rfl) h
  · cases scope <;> simp

theorem asciiLower_resolve (name : String) (scope : Option Namespace) :
    Text.asciiLower (resolve (Text.asciiLower name) scope) =
      Text.asciiLower (resolve name scope) := by
  have hsame := Text.asciiLower_asciiLower
  by_cases h : (Text.trim name).toList.head? = some ClassName.separator
  · obtain ⟨rest, hrest⟩ : ∃ rest, (Text.trim name).toList = ClassName.separator :: rest :=
      List.head?_eq_some_iff.1 h
    have hlower : (Text.trim (Text.asciiLower name)).toList =
        ClassName.separator :: rest.map Char.toLower := by
      rw [Text.asciiLower_trim, Text.toList_asciiLower, hrest, List.map_cons]
      rfl
    rw [resolve_of_absolute hrest, resolve_of_absolute hlower, ← Text.asciiLower_ofList, hsame]
  · have hlower : (Text.trim (Text.asciiLower name)).toList.head? ≠ some ClassName.separator := by
      rw [Text.asciiLower_trim, Text.toList_asciiLower, List.head?_map]
      intro heq
      obtain ⟨c, hc, hsep⟩ := Option.map_eq_some_iff.1 heq
      have hbeq : (c == ClassName.separator) = true := by
        rw [← ClassName.beq_separator_toLower, hsep]
        rfl
      exact h (by rw [hc, eq_of_beq hbeq])
    rw [resolve_of_local h, resolve_of_local hlower, Text.asciiLower_trim,
      ClassName.isRelative_congr (hsame _), ClassName.isBuiltinType_congr (hsame _)]
    split
    · exact hsame _
    · cases scope with
      | none => rw [Option.map_none, Option.map_none, Option.getD_none, Option.getD_none, hsame]
      | some ns =>
        rw [Option.map_some, Option.map_some, Option.getD_some, Option.getD_some,
          ns.asciiLower_resolveIn]

theorem asciiLower_resolve_congr {s t : String} (h : Text.asciiLower s = Text.asciiLower t)
    (scope : Option Namespace) :
    Text.asciiLower (resolve s scope) = Text.asciiLower (resolve t scope) := by
  rw [← asciiLower_resolve s, h, asciiLower_resolve t]

end Resolve

end Namespace

/-! ## Plain names -/

namespace ClassName

/-- The name neither starts with a blank or a separator nor ends with a blank. -/
def IsPlain (name : String) : Bool :=
  name.toList.head?.all (fun c => !Text.isBlank c && c != separator) &&
    name.toList.getLast?.all (fun c => !Text.isBlank c)

theorem dropWhile_eq_self {p : Char → Bool} {cs : List Char}
    (h : cs.head?.all (fun c => !p c) = true) : cs.dropWhile p = cs := by
  cases cs with
  | nil => rfl
  | cons c cs =>
    have hc : p c = false := by simpa using h
    rw [List.dropWhile_cons, if_neg (by simp [hc])]

theorem dropEndWhile_eq_self {p : Char → Bool} {cs : List Char}
    (h : cs.getLast?.all (fun c => !p c) = true) : Text.dropEndWhile p cs = cs := by
  unfold Text.dropEndWhile
  rw [dropWhile_eq_self (by rw [List.head?_reverse]; exact h), List.reverse_reverse]

/-- Normalization leaves plain names alone. -/
theorem normalize_of_isPlain {name : String} (h : IsPlain name = true) : normalize name = name := by
  unfold IsPlain at h
  obtain ⟨hhead, hlast⟩ := Bool.and_eq_true_iff.1 h
  have hblank : name.toList.head?.all (fun c => !Text.isBlank c) = true := by
    cases hc : name.toList.head? <;> simp_all
  have hsep : name.toList.head?.all (fun c => !(c == separator)) = true := by
    cases hc : name.toList.head? <;> simp_all
  unfold normalize Text.trim Text.stripStart
  rw [dropWhile_eq_self hblank, dropEndWhile_eq_self hlast, String.ofList_toList,
    dropWhile_eq_self hsep, String.ofList_toList]

theorem isPlain_qualify {region name : String} (hr : IsPlain region = true)
    (hn : IsPlain name = true) : IsPlain (qualify region name) = true := by
  unfold qualify
  split
  · exact hn
  · next hne =>
    have hr' : region.toList ≠ [] := by
      intro hnil
      exact hne (by rw [String.isEmpty_iff]; exact String.toList_eq_nil_iff.1 hnil)
    unfold IsPlain at hr hn ⊢
    obtain ⟨hhead, -⟩ := Bool.and_eq_true_iff.1 hr
    obtain ⟨-, hlast⟩ := Bool.and_eq_true_iff.1 hn
    rw [Bool.and_eq_true]
    unfold join
    rw [String.toList_append, String.toList_append, List.append_assoc]
    refine ⟨?_, ?_⟩
    · rw [List.head?_append]
      cases hc : region.toList.head? with
      | none => exact absurd (List.head?_eq_none_iff.1 hc) hr'
      | some c => rw [hc] at hhead; exact hhead
    · rw [List.getLast?_append, List.getLast?_append]
      cases hl : name.toList.getLast? with
      | none => rfl
      | some c => rw [hl] at hlast; exact hlast

end ClassName

/-! ## Ways to write a class -/

namespace ClassName

/-- A single segment: it has no separator, and no blank at its ends. -/
def isIdentifier (name : String) : Bool :=
  !name.isEmpty && IsPlain name && name.toList.all (· != separator)

/-- A word that stands for a class of the project. -/
structure NamesClass (name : String) : Prop where
  identifier : isIdentifier name = true
  not_relative : isRelative name = false
  not_builtin : isBuiltinType name = false

end ClassName

/-- The ways to write the class `name` of the namespace `region` at a place in `scope`. -/
inductive Denotes (scope : Option Namespace) (region name : String) : String → Prop
  /-- Its own name, if no import takes it. -/
  | plain {ns : Namespace} (hscope : scope = some ns) (hname : ns.name = region)
      (hfree : ∀ i ∈ ns.imports, Text.sameAscii i.short name = false) :
      Denotes scope region name name
  /-- Its full name behind a backslash. -/
  | absolute : Denotes scope region name ("\\" ++ ClassName.qualify region name)
  /-- Its own name behind `namespace\`. -/
  | inNamespace {ns : Namespace} (hscope : scope = some ns) (hname : ns.name = region) :
      Denotes scope region name (ClassName.join "namespace" name)
  /-- The alias of the first import for it. -/
  | imported {ns : Namespace} {short : String} {i : Import} (hscope : scope = some ns)
      (hshort : ClassName.NamesClass short) (hfirst : ns.import? short = some i)
      (htarget : i.target = ClassName.qualify region name) : Denotes scope region name short
  /-- Letters in other case. -/
  | letters {written other : String} (h : Denotes scope region name written)
      (hother : Text.asciiLower other = Text.asciiLower written) : Denotes scope region name other

namespace ClassName

variable {name : String}

theorem isIdentifier_iff : isIdentifier name = true ↔
    name ≠ "" ∧ IsPlain name = true ∧ ∀ c ∈ name.toList, c ≠ separator := by
  simp [isIdentifier, and_assoc]

theorem isIdentifier_of_unblank (hne : name ≠ "")
    (h : ∀ c ∈ name.toList, Text.isBlank c = false ∧ c ≠ separator) : isIdentifier name = true := by
  refine isIdentifier_iff.2 ⟨hne, ?_, fun c hc => (h c hc).2⟩
  unfold IsPlain
  rw [Bool.and_eq_true, Option.all_eq_true, Option.all_eq_true]
  refine ⟨fun c hc => ?_, fun c hc => ?_⟩
  · simpa using h c (List.mem_of_mem_head? hc)
  · simpa using (h c (List.mem_of_mem_getLast? hc)).1

/-- Trimming leaves a name alone that has no blank at its ends. -/
theorem trim_eq_self (hhead : ∀ c ∈ name.toList.head?, Text.isBlank c = false)
    (hlast : ∀ c ∈ name.toList.getLast?, Text.isBlank c = false) : Text.trim name = name := by
  unfold Text.trim
  rw [dropWhile_eq_self (by simpa [Option.all_eq_true] using hhead),
    dropEndWhile_eq_self (by simpa [Option.all_eq_true] using hlast), String.ofList_toList]

theorem trim_of_unblank (h : ∀ c ∈ name.toList, Text.isBlank c = false) : Text.trim name = name :=
  trim_eq_self (fun c hc => h c (List.mem_of_mem_head? hc)) fun c hc => h c (List.mem_of_mem_getLast? hc)

theorem trim_of_isPlain (h : IsPlain name = true) : Text.trim name = name := by
  simp only [IsPlain, Bool.and_eq_true, Option.all_eq_true, Bool.not_eq_true'] at h
  exact trim_eq_self (fun c hc => (h.1 c hc).1) h.2

theorem head?_of_isPlain (h : IsPlain name = true) : name.toList.head? ≠ some separator := by
  simp only [IsPlain, Bool.and_eq_true, Option.all_eq_true, bne_iff_ne] at h
  exact fun hc => (h.1 separator hc).2 rfl

theorem key_normalize {s : String} (h : IsPlain name = true)
    (hs : Text.asciiLower s = Text.asciiLower name) : key (normalize s) = key name := by
  unfold key
  calc Text.asciiLower (normalize (normalize s))
      = normalize (normalize (Text.asciiLower s)) := by simp only [normalize_asciiLower]
    _ = Text.asciiLower (normalize (normalize name)) := by rw [hs]; simp only [normalize_asciiLower]
    _ = Text.asciiLower (normalize name) := by rw [normalize_of_isPlain h, normalize_of_isPlain h]

theorem isOneOf_of_separator {names : List String} (hmem : separator ∈ name.toList)
    (hnames : ∀ n ∈ names, separator ∉ (Text.asciiLower n).toList) :
    Text.isOneOf names name = false := by
  unfold Text.isOneOf
  rw [List.any_eq_false]
  intro n hn heq
  have hlower : Text.asciiLower n = Text.asciiLower name := by simpa [Text.sameAscii] using heq
  refine hnames n hn ?_
  rw [hlower, Text.toList_asciiLower]
  exact List.mem_map.2 ⟨separator, hmem, rfl⟩

theorem separator_mem_join (first rest : String) : separator ∈ (join first rest).toList := by
  simp [join, separator]

/-- A name of several segments is neither relative nor a type keyword. -/
theorem not_special_of_join {first rest : String} (h : IsPlain (join first rest) = true) :
    isRelative (join first rest) = false ∧ isBuiltinType (join first rest) = false := by
  unfold isRelative isBuiltinType
  rw [trim_of_isPlain h, normalize_of_isPlain h]
  exact ⟨isOneOf_of_separator (separator_mem_join first rest) (by decide),
    isOneOf_of_separator (separator_mem_join first rest) (by decide)⟩

end ClassName

namespace Namespace

variable {name : String} (ns : Namespace)

/-- A single word is looked up among the imports, and belongs to the namespace if it is none of them. -/
theorem resolve_word (h : ClassName.NamesClass name) :
    resolve name (some ns) =
      ((ns.import? name).map (·.target)).getD (ClassName.qualify ns.name name) := by
  obtain ⟨-, hplain, hseparator⟩ := ClassName.isIdentifier_iff.1 h.identifier
  have htrim := ClassName.trim_of_isPlain hplain
  have hone : Text.splitFirst? ClassName.separator name = none := by
    have hdrop : name.toList.dropWhile (· != ClassName.separator) = [] :=
      List.dropWhile_eq_nil_iff.2 fun c hc => by simpa using hseparator c hc
    simp only [Text.splitFirst?, hdrop]
  rw [resolve_of_local (by rw [htrim]; exact ClassName.head?_of_isPlain hplain), htrim,
    h.not_relative, h.not_builtin]
  simp only [Bool.or_self, Bool.false_eq_true, if_false, Option.map_some, Option.getD_some,
    resolveIn, hone]
  cases ns.import? name <;> rfl

theorem resolve_inNamespace (h : ClassName.IsPlain (ClassName.join "namespace" name) = true) :
    resolve (ClassName.join "namespace" name) (some ns) = ClassName.qualify ns.name name := by
  have htrim := ClassName.trim_of_isPlain h
  have hsplit : Text.splitFirst? ClassName.separator (ClassName.join "namespace" name) =
      some ("namespace", name) := by
    simp [Text.splitFirst?, ClassName.join, ClassName.separator]
  rw [resolve_of_local (by rw [htrim]; exact ClassName.head?_of_isPlain h), htrim,
    (ClassName.not_special_of_join h).1, (ClassName.not_special_of_join h).2]
  simp only [Bool.or_self, Bool.false_eq_true, if_false, Option.map_some, Option.getD_some,
    resolveIn, hsplit]
  rfl

end Namespace

namespace Denotes

variable {scope : Option Namespace} {region name written : String}

/-- A full name behind a backslash is the name itself. -/
theorem absolute_spec (scope : Option Namespace) (hname : ClassName.NamesClass name)
    (hplain : ClassName.IsPlain (ClassName.qualify region name) = true) :
    ClassName.isRelative ("\\" ++ ClassName.qualify region name) = false ∧
      ClassName.isBuiltinType ("\\" ++ ClassName.qualify region name) = false ∧
      Namespace.resolve ("\\" ++ ClassName.qualify region name) scope =
        ClassName.qualify region name := by
  have hbuiltin : ClassName.isBuiltinType (ClassName.qualify region name) = false := by
    unfold ClassName.qualify at hplain ⊢
    split
    · exact hname.not_builtin
    · next hregion =>
      rw [if_neg hregion] at hplain
      exact (ClassName.not_special_of_join hplain).2
  have hne : ClassName.qualify region name ≠ "" := by
    have := (ClassName.isIdentifier_iff.1 hname.identifier).1
    unfold ClassName.qualify ClassName.join
    split <;> simp [this]
  generalize ClassName.qualify region name = full at hplain hbuiltin hne
  have hlist : ("\\" ++ full).toList = ClassName.separator :: full.toList := by
    simp [ClassName.separator]
  have htrim : Text.trim ("\\" ++ full) = "\\" ++ full := by
    simp only [ClassName.IsPlain, Bool.and_eq_true, Option.all_eq_true, Bool.not_eq_true'] at hplain
    refine ClassName.trim_eq_self ?_ ?_
    · rw [hlist]
      rintro c ⟨⟩
      decide
    · rw [hlist, List.getLast?_cons_of_ne_nil (by simpa using hne)]
      exact hplain.2
  have hnormal : ClassName.normalize ("\\" ++ full) = ClassName.normalize full := by
    unfold ClassName.normalize
    rw [htrim, ClassName.trim_of_isPlain hplain]
    exact ClassName.stripStart_cons ClassName.separator full
  refine ⟨?_, ?_, ?_⟩
  · unfold ClassName.isRelative
    rw [htrim]
    exact ClassName.isOneOf_of_separator (by rw [hlist]; exact List.mem_cons_self) (by decide)
  · exact (congrArg (Text.isOneOf ClassName.builtinTypes) hnormal).trans hbuiltin
  · rw [Namespace.resolve_of_absolute (by rw [htrim, hlist]), String.ofList_toList]

/-- A name that denotes a class is not passed over, and resolves to the full name of the class. -/
theorem spec (h : Denotes scope region name written) (hname : ClassName.NamesClass name)
    (hplain : ClassName.IsPlain (ClassName.qualify region name) = true) :
    ClassName.isRelative written = false ∧ ClassName.isBuiltinType written = false ∧
      Text.asciiLower (Namespace.resolve written scope) =
        Text.asciiLower (ClassName.qualify region name) := by
  induction h with
  | @plain ns hscope hregion hfree =>
    refine ⟨hname.not_relative, hname.not_builtin, ?_⟩
    have hnone : ns.import? name = none := List.find?_eq_none.2 fun i hi => by simp [hfree i hi]
    rw [hscope, Namespace.resolve_word _ hname, hnone, hregion, Option.map_none, Option.getD_none]
  | absolute =>
    obtain ⟨hrel, hbuiltin, hresolve⟩ := absolute_spec scope hname hplain
    exact ⟨hrel, hbuiltin, congrArg Text.asciiLower hresolve⟩
  | inNamespace hscope hregion =>
    have hkeyword : ClassName.IsPlain "namespace" = true := by decide
    have hjoin := ClassName.isPlain_qualify hkeyword (ClassName.isIdentifier_iff.1 hname.identifier).2.1
    rw [ClassName.qualify, if_neg (by decide)] at hjoin
    obtain ⟨hrel, hbuiltin⟩ := ClassName.not_special_of_join hjoin
    refine ⟨hrel, hbuiltin, ?_⟩
    rw [hscope, Namespace.resolve_inNamespace _ hjoin, hregion]
  | imported hscope hshort hfirst htarget =>
    refine ⟨hshort.not_relative, hshort.not_builtin, ?_⟩
    rw [hscope, Namespace.resolve_word _ hshort, hfirst, Option.map_some, Option.getD_some, htarget]
  | letters _ hother ih =>
    obtain ⟨hrel, hbuiltin, hresolve⟩ := ih
    exact ⟨(ClassName.isRelative_congr hother).trans hrel,
      (ClassName.isBuiltinType_congr hother).trans hbuiltin,
      (Namespace.asciiLower_resolve_congr hother scope).trans hresolve⟩

end Denotes

end PhpAudit
