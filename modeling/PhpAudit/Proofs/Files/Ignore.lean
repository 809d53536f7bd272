import PhpAudit.Proofs.Files.GlobMeaning
import PhpAudit.Proofs.Files.Location

/-!
# Plain entries of ignore files

An entry of an ignore file that is a plain name, perhaps with slashes in front and one behind, leaves out the
directories of this name and, without the slash behind, the files of this name as well
(`phpFiles_unlisted`). The entry becomes a pattern that has the name between slashes (`parseExclude_deepened`),
so what the pattern matches can be told from the pieces of a path between its slashes (`ofName_false_iff`,
`ofName_true_iff`).
-/

namespace PhpAudit

/-! ## Patterns with a name -/

namespace Glob

/-- The pattern for a name at any depth. With a slash behind it, there has to be something below. -/
def ofName (name : String) (dirOnly : Bool) : Glob :=
  .anyPath :: .literal '/' :: (name.toList.map .literal ++ if dirOnly then [.literal '/', .anyPath] else [])

variable {name : String} {dirOnly : Bool} {rest : Glob} {word cs : List Char}

theorem partsOf_plain (hword : ∀ c ∈ word, c ≠ '*' ∧ c ≠ '?') (tail : List Char) :
    partsOf (word ++ tail) = word.map .literal ++ partsOf tail := by
  induction word with
  | nil => rfl
  | cons c word ih =>
    obtain ⟨⟨hstar, hmark⟩, hword⟩ := List.forall_mem_cons.1 hword
    rw [List.cons_append, partsOf_self hstar hmark, ih hword]
    rfl

theorem matchesChars_literals :
    matchesChars (word.map .literal ++ rest) cs = true ↔
      ∃ behind, cs = word ++ behind ∧ matchesChars rest behind = true := by
  induction word generalizing cs with
  | nil => simp
  | cons c word ih =>
    rw [List.map_cons, List.cons_append, matchesChars_literal_cons]
    simp only [ih]
    constructor
    · rintro ⟨_, rfl, behind, rfl, hmatch⟩
      exact ⟨behind, rfl, hmatch⟩
    · rintro ⟨behind, rfl, hmatch⟩
      exact ⟨_, rfl, behind, rfl, hmatch⟩

/-- In a text without line feeds two stars take any beginning. -/
theorem matchesChars_anyPath_of_free (hfree : '\n' ∉ cs) :
    matchesChars (.anyPath :: rest) cs = true ↔
      ∃ before behind, cs = before ++ behind ∧ matchesChars rest behind = true := by
  rw [matchesChars_repetition rfl]
  simp only [forall_repeats_iff .anyPath '\n' fun _ => rfl]
  constructor
  · rintro ⟨before, behind, hsplit, -, hmatch⟩
    exact ⟨before, behind, hsplit, hmatch⟩
  · rintro ⟨before, behind, rfl, hmatch⟩
    exact ⟨before, behind, rfl, fun hmem => hfree (List.mem_append_left _ hmem), hmatch⟩

theorem matchesChars_ofName_false (hfree : '\n' ∉ cs) :
    matchesChars (ofName name false) cs = true ↔ ∃ before, cs = before ++ '/' :: name.toList := by
  rw [ofName, matchesChars_anyPath_of_free hfree]
  simp only [matchesChars_literal_cons, matchesChars_literals]
  constructor
  · rintro ⟨before, _, rfl, _, rfl, behind, rfl, hend⟩
    obtain rfl : behind = [] := List.isEmpty_iff.1 hend
    exact ⟨before, by simp⟩
  · rintro ⟨before, rfl⟩
    exact ⟨before, _, rfl, _, rfl, [], by simp, rfl⟩

theorem matchesChars_ofName_true (hfree : '\n' ∉ cs) :
    matchesChars (ofName name true) cs = true ↔
      ∃ before behind, cs = before ++ '/' :: (name.toList ++ '/' :: behind) := by
  rw [ofName, matchesChars_anyPath_of_free hfree]
  simp only [if_true, matchesChars_literal_cons, matchesChars_literals]
  constructor
  · rintro ⟨before, _, rfl, _, rfl, _, rfl, behind, rfl, -⟩
    exact ⟨before, behind, rfl⟩
  · rintro ⟨before, behind, rfl⟩
    have hbehind : '\n' ∉ behind := fun hmem => hfree (by simp [hmem])
    refine ⟨before, _, rfl, _, rfl, _, rfl, behind, rfl, (matchesChars_anyPath_of_free hbehind).2 ?_⟩
    exact ⟨behind, [], by simp, rfl⟩

/-- The names that an entry of a directory can have make short patterns. -/
theorem length_ofName_le (hsize : name.utf8ByteSize ≤ FileTree.maxNameBytes) (dirOnly : Bool) :
    (ofName name dirOnly).length ≤ Engine.shortLength := by
  have hlength := Text.length_le_utf8ByteSize name.toList
  rw [String.ofList_toList] at hlength
  unfold FileTree.maxNameBytes at hsize
  unfold ofName Engine.shortLength
  cases dirOnly <;> simp only [List.length_cons, List.length_append, List.length_map, List.length_nil,
    if_true, Bool.false_eq_true, if_false] <;> omega

end Glob

/-! ## Entries -/

namespace Exclusion

open FileTree (absolute IsName)
open Glob (ofName)

/-- The entries of an ignore file: its lines, trimmed, that are not blank, comments or negations. -/
def entriesOf (text : String) : List String :=
  ((Text.lines text).map Text.trim).filter fun entry =>
    !(entry.isEmpty || Text.startsWith entry "#" || Text.startsWith entry "!")

/-- The entries of the ignore files that can be read in a directory. -/
def ignoreEntries (t : FileTree) (root : String) : List String :=
  ignoreFiles.flatMap fun name =>
    match t.read (Path.join root name) with
    | .ok text => entriesOf text
    | .error _ => []

/-- The pattern that an entry stands for. -/
def deepened (entry : String) : String :=
  let pattern := Text.stripStart '/' entry
  if Text.startsWith pattern "**/" then pattern else "**/" ++ pattern

/-- The entry is a plain name, with any slashes in front of it and perhaps one behind. -/
structure Lists (entry name : String) (dirOnly : Bool) : Prop where
  nonempty : name ≠ ""
  plain : ∀ c ∈ name.toList, c ∉ ['/', '*', '?', '[', ']', '\\']
  written : ∃ slashes : List Char, (∀ c ∈ slashes, c = '/') ∧
    entry.toList = slashes ++ name.toList ++ if dirOnly then ['/'] else []

/-- An entry of the ignore files in a directory is the name, with a slash behind it or without. -/
def Listed (t : FileTree) (root name : String) (dirOnly : Bool) : Prop :=
  ∃ entry ∈ ignoreEntries t root, Lists entry name dirOnly

variable {engine : Glob.Engine} {entry name : String} {dirOnly : Bool} {t : FileTree} {root : String}

theorem ignorePattern?_eq (line : String) :
    ignorePattern? line =
      if (Text.trim line).isEmpty || Text.startsWith (Text.trim line) "#" || Text.startsWith (Text.trim line) "!"
      then none else some (deepened (Text.trim line)) := rfl

theorem ofIgnoreText_eq (engine : Glob.Engine) (text : String) :
    ofIgnoreText engine text =
      (entriesOf text).filterMap fun entry => (Glob.parseExclude engine (deepened entry)).toOption := by
  unfold ofIgnoreText validOnly entriesOf
  rw [List.filterMap_filterMap, List.filterMap_filter, List.filterMap_map]
  refine List.filterMap_congr fun line _ => ?_
  rw [ignorePattern?_eq, Function.comp]
  split <;> simp_all only [Bool.not_true, Bool.not_false, Bool.not_eq_true, Option.bind_none,
    Option.bind_some, Bool.false_eq_true, if_false, if_true]

theorem ofIgnoreFiles_eq (engine : Glob.Engine) (t : FileTree) (root : String) :
    ofIgnoreFiles engine t root =
      (ignoreEntries t root).filterMap fun entry =>
        (Glob.parseExclude engine (deepened entry)).toOption := by
  unfold ofIgnoreFiles ignoreEntries
  rw [List.filterMap_flatMap]
  refine List.flatMap_congr fun name _ => ?_
  cases t.read (Path.join root name) with
  | ok text => exact ofIgnoreText_eq engine text
  | error e => rfl

theorem Lists.no_slash (h : Lists entry name dirOnly) : '/' ∉ name.toList :=
  fun hmem => h.plain _ hmem (by decide)

theorem Lists.stripStart_eq (h : Lists entry name dirOnly) :
    Text.stripStart '/' entry = name ++ if dirOnly then "/" else "" := by
  obtain ⟨slashes, hslashes, hentry⟩ := h.written
  obtain ⟨c, cs, hcs⟩ := List.exists_cons_of_ne_nil (by simpa using h.nonempty : name.toList ≠ [])
  have hc : c ≠ '/' := by
    rintro rfl
    exact h.no_slash (by simp [hcs])
  unfold Text.stripStart
  rw [hentry, List.append_assoc, List.dropWhile_append_of_pos (by simpa using hslashes), hcs, List.cons_append,
    List.dropWhile_cons_of_neg (by simpa using hc), ← List.cons_append, ← hcs, ← String.toList_inj]
  cases dirOnly <;> simp

theorem Lists.deepened_eq (h : Lists entry name dirOnly) :
    deepened entry = "**/" ++ (name ++ if dirOnly then "/" else "") := by
  obtain ⟨c, cs, hcs⟩ := List.exists_cons_of_ne_nil (by simpa using h.nonempty : name.toList ≠ [])
  have hc : c ≠ '*' := by
    rintro rfl
    exact h.plain '*' (by simp [hcs]) (by decide)
  have hstars : "**/".toList = ['*', '*', '/'] := rfl
  unfold deepened
  rw [h.stripStart_eq]
  exact if_neg (by simp [Text.startsWith, hstars, hcs, List.isPrefixOf, hc.symm])

theorem Lists.endsWith_eq (h : Lists entry name dirOnly) :
    Text.endsWith (deepened entry) '/' = dirOnly := by
  have hname : name.toList ≠ [] := by simpa using h.nonempty
  rw [h.deepened_eq, Text.endsWith, String.toList_append, String.toList_append,
    List.getLast?_append_of_ne_nil _ (by simp [hname])]
  cases dirOnly with
  | true => simp
  | false =>
    refine beq_eq_false_iff_ne.2 fun heq => h.no_slash (List.mem_of_getLast? ?_)
    simpa using heq

/-- The pattern of an entry has the name between slashes. -/
theorem Lists.parseExclude_deepened (engine : Glob.Engine) (h : Lists entry name dirOnly) :
    Glob.parseExclude engine (deepened entry) = engine.compile (ofName name dirOnly) := by
  obtain ⟨pattern, hpattern, htext⟩ : ∃ pattern,
      Glob.parseExclude engine (deepened entry) = Glob.parse engine pattern ∧
      pattern.toList = '*' :: '*' :: '/' :: (name.toList ++ if dirOnly then ['/', '*', '*'] else []) := by
    have hstars : "**/".toList = ['*', '*', '/'] := rfl
    refine ⟨_, by rw [Glob.parseExclude, h.endsWith_eq], ?_⟩
    rw [h.deepened_eq]
    cases dirOnly <;> simp [hstars]
  have hparts : Glob.partsOf pattern.toList = ofName name dirOnly := by
    have hname : ∀ c ∈ name.toList, c ≠ '*' ∧ c ≠ '?' := by
      intro c hc
      have hplain := h.plain c hc
      simp only [List.mem_cons, not_or] at hplain
      exact ⟨hplain.2.1, hplain.2.2.1⟩
    rw [htext, Glob.partsOf, Glob.partsOf_self (by decide) (by decide), Glob.partsOf_plain hname]
    cases dirOnly <;> rfl
  rw [hpattern]
  refine Glob.parse_of_read engine ?_
  rcases Glob.read_cases pattern with ⟨-, hbracket⟩ | ⟨hread, -⟩
  · -- The name has no brackets, and nothing is added that is one.
    have hname : '[' ∉ name.toList ∧ ']' ∉ name.toList :=
      ⟨fun hc => h.plain _ hc (by decide), fun hc => h.plain _ hc (by decide)⟩
    cases dirOnly <;> simp [htext, hname] at hbracket
  · rw [hread, hparts]

theorem mem_ofIgnoreFiles_iff
    (hplain : ∀ entry ∈ ignoreEntries t root, ∃ name dirOnly, Lists entry name dirOnly) {p : Glob} :
    p ∈ ofIgnoreFiles engine t root ↔
      ∃ name dirOnly, Listed t root name dirOnly ∧ engine (ofName name dirOnly) = none ∧
        p = ofName name dirOnly := by
  rw [ofIgnoreFiles_eq, List.mem_filterMap]
  constructor
  · rintro ⟨entry, hentry, hp⟩
    obtain ⟨name, dirOnly, hlists⟩ := hplain entry hentry
    rw [hlists.parseExclude_deepened, Glob.Engine.toOption_compile_eq_some_iff] at hp
    exact ⟨name, dirOnly, ⟨entry, hentry, hlists⟩, hp⟩
  · rintro ⟨name, dirOnly, ⟨entry, hentry, hlists⟩, hp⟩
    refine ⟨entry, hentry, ?_⟩
    rw [hlists.parseExclude_deepened, Glob.Engine.toOption_compile_eq_some_iff]
    exact hp

/-! ## Paths -/

/-- The components of a path as patterns see them, where a backslash is a slash. -/
def components (path : String) : List String := Text.splitAt '/' (Text.replace '\\' "/" path)

/-- The name has neither a backslash nor a line feed. -/
structure IsClear (name : String) : Prop where
  no_backslash : '\\' ∉ name.toList
  no_line : '\n' ∉ name.toList

variable {place names : List String}

theorem slashed_absolute_append (hclear : ∀ n ∈ names, IsClear n) (hne : names ≠ []) :
    slashed (absolute (place ++ names)) =
      slashed (pathWithin place) ++ names.flatMap fun n => '/' :: n.toList := by
  have hwithin : (pathWithin place).toList = place.flatMap fun n => '/' :: n.toList := by
    simp [pathWithin, String.toList_join, List.flatMap_map]
  have hkept : ∀ c ∈ names.flatMap (fun n => '/' :: n.toList), (if c = '\\' then '/' else c) = c := by
    intro c hc
    refine if_neg ?_
    rintro rfl
    obtain ⟨n, hn, hc⟩ := List.mem_flatMap.1 hc
    exact (hclear n hn).no_backslash (List.mem_of_ne_of_mem (by decide) hc)
  rw [slashed_eq, slashed_eq, FileTree.toList_absolute (by simp [hne]), List.flatMap_append, List.map_append,
    ← hwithin, List.map_congr_left hkept, List.map_id']

theorem line_not_mem_slashed (hclear : ∀ n ∈ names, IsClear n) (hline : '\n' ∉ (absolute place).toList) :
    '\n' ∉ slashed (absolute (place ++ names)) := by
  cases names with
  | nil =>
    rw [List.append_nil]
    exact mt line_mem_slashed_iff.1 hline
  | cons name names =>
    rw [slashed_absolute_append hclear (List.cons_ne_nil _ _), List.mem_append, not_or, List.mem_flatMap]
    constructor
    · rw [line_mem_slashed_iff]
      cases place with
      | nil => decide
      | cons n place => exact hline
    · rintro ⟨n, hn, hc⟩
      exact (hclear n hn).no_line (List.mem_of_ne_of_mem (by decide) hc)

theorem exists_append_of_append_eq {α : Type} {as bs xs ys : List α} {x : α}
    (h : as ++ bs = xs ++ x :: ys) (hx : x ∉ as) : ∃ m, bs = m ++ x :: ys := by
  rcases List.append_eq_append_iff.1 h with ⟨m, -, hbs⟩ | ⟨m, has, hm⟩
  · exact ⟨m, hbs⟩
  · cases m with
    | nil => exact ⟨[], by simpa using hm.symm⟩
    | cons y m =>
      obtain ⟨rfl, -⟩ := List.cons.inj hm
      exact absurd (by simp [has]) hx

/-- A name among the pieces of the path to an item is one of the names of the item, unless it is a component of
the path to the place. -/
theorem exists_split_of_cutAt (hclear : ∀ n ∈ names, IsClear n) (hnames : ∀ n ∈ names, IsName n)
    (hroot : name ∉ components (absolute place)) {xs ys : List (List Char)}
    (hcut : Text.cutAt (· == '/') (slashed (absolute (place ++ names))) = xs ++ name.toList :: ys) :
    ∃ front back, names = front ++ name :: back ∧ back.map String.toList = ys := by
  have hplace : name.toList ∉ Text.cutAt (· == '/') (slashed (absolute place)) := fun hmem =>
    hroot (List.mem_map.2 ⟨_, hmem, String.ofList_toList⟩)
  by_cases hne : names = []
  · rw [hne, List.append_nil] at hcut
    exact absurd (by simp [hcut]) hplace
  · rw [slashed_absolute_append hclear hne, FileTree.cutAt_slashes fun n hn => (hnames n hn).no_slash] at hcut
    have hwithin : name.toList ∉ Text.cutAt (· == '/') (slashed (pathWithin place)) := by
      cases place with
      | nil =>
        intro hmem
        obtain rfl : name = "" := by simpa [pathWithin, slashed_eq, Text.cutAt] using hmem
        exact hroot (by decide)
      | cons n place => exact hplace
    obtain ⟨m, hm⟩ := exists_append_of_append_eq hcut hwithin
    obtain ⟨front, rest, rfl, -, hrest⟩ := List.map_eq_append_iff.1 hm
    obtain ⟨n, back, rfl, hn, hback⟩ := List.map_eq_cons_iff.1 hrest
    obtain rfl := String.toList_injective hn
    exact ⟨front, back, rfl, hback⟩

theorem slashed_split (place : List String) {front back : List String}
    (hclear : ∀ n ∈ front ++ name :: back, IsClear n) :
    ∃ before, slashed (absolute (place ++ (front ++ name :: back))) =
      before ++ '/' :: (name.toList ++ back.flatMap fun n => '/' :: n.toList) := by
  rw [slashed_absolute_append hclear (by simp), List.flatMap_append, List.flatMap_cons, ← List.append_assoc]
  exact ⟨_, rfl⟩

theorem ofName_false_iff (hclear : ∀ n ∈ names, IsClear n) (hnames : ∀ n ∈ names, IsName n)
    (hline : '\n' ∉ (absolute place).toList) (hslash : '/' ∉ name.toList)
    (hroot : name ∉ components (absolute place)) :
    (ofName name false).matchesChars (slashed (absolute (place ++ names))) = true ↔
      ∃ front, names = front ++ [name] := by
  rw [Glob.matchesChars_ofName_false (line_not_mem_slashed hclear hline)]
  constructor
  · rintro ⟨before, hpath⟩
    have hcut := congrArg (Text.cutAt (· == '/')) hpath
    rw [Text.cutAt_append (by simp), Text.cutAt_eq_singleton hslash] at hcut
    obtain ⟨front, back, rfl, hback⟩ := exists_split_of_cutAt hclear hnames hroot hcut
    exact ⟨front, by rw [List.map_eq_nil_iff.1 hback]⟩
  · rintro ⟨front, rfl⟩
    obtain ⟨before, hbefore⟩ := slashed_split place hclear
    exact ⟨before, by simpa using hbefore⟩

theorem ofName_true_iff (hclear : ∀ n ∈ names, IsClear n) (hnames : ∀ n ∈ names, IsName n)
    (hline : '\n' ∉ (absolute place).toList) (hslash : '/' ∉ name.toList)
    (hroot : name ∉ components (absolute place)) :
    (ofName name true).matchesChars (slashed (absolute (place ++ names))) = true ↔
      ∃ front back, names = front ++ name :: back ∧ back ≠ [] := by
  rw [Glob.matchesChars_ofName_true (line_not_mem_slashed hclear hline)]
  constructor
  · rintro ⟨before, behind, hpath⟩
    have hcut := congrArg (Text.cutAt (· == '/')) hpath
    rw [Text.cutAt_append (by simp), Text.cutAt_append (by simp), Text.cutAt_eq_singleton hslash,
      List.singleton_append] at hcut
    obtain ⟨front, back, rfl, hback⟩ := exists_split_of_cutAt hclear hnames hroot hcut
    refine ⟨front, back, rfl, ?_⟩
    rintro rfl
    exact Text.cutAt_ne_nil behind hback.symm
  · rintro ⟨front, back, rfl, hback⟩
    obtain ⟨before, hbefore⟩ := slashed_split place hclear
    obtain ⟨n, back, rfl⟩ := List.exists_cons_of_ne_nil hback
    exact ⟨before, n.toList ++ back.flatMap fun n => '/' :: n.toList, hbefore⟩

/-- A name is on the way along names: in front of others if it stands for directories only, and else as the last
one. -/
def OnWay (name : String) (dirOnly : Bool) (names : List String) : Prop :=
  ∃ front back, names = front ++ name :: back ∧ (dirOnly = true ↔ back ≠ [])

theorem ofName_iff (hclear : ∀ n ∈ names, IsClear n) (hnames : ∀ n ∈ names, IsName n)
    (hline : '\n' ∉ (absolute place).toList) (hslash : '/' ∉ name.toList)
    (hroot : name ∉ components (absolute place)) :
    (ofName name dirOnly).matchesChars (slashed (absolute (place ++ names))) = true ↔
      OnWay name dirOnly names := by
  unfold OnWay
  cases dirOnly with
  | false =>
    rw [ofName_false_iff hclear hnames hline hslash hroot]
    simp
  | true =>
    rw [ofName_true_iff hclear hnames hline hslash hroot]
    simp

/-! ## Walks -/

/-- The entries leave out the paths that have a listed name on the way. -/
theorem excludes_iff_onWay (hengine : engine.TakesShort) (hclear : ∀ n ∈ names, IsClear n)
    (hnames : ∀ n ∈ names, IsName n)
    (hline : '\n' ∉ (absolute place).toList)
    (hplain : ∀ entry ∈ ignoreEntries t root, ∃ name dirOnly, Lists entry name dirOnly)
    (hroot : ∀ name dirOnly, Listed t root name dirOnly → name ∉ components (absolute place)) :
    excludes t (ofIgnoreFiles engine t root) 0 (absolute (place ++ names)) = true ↔
      ∃ name dirOnly, Listed t root name dirOnly ∧ OnWay name dirOnly names := by
  have honWay : ∀ {name dirOnly}, Listed t root name dirOnly →
      ((ofName name dirOnly).matchesText (Text.replace '\\' "/" (absolute (place ++ names))) = true ↔
        OnWay name dirOnly names) := by
    intro name dirOnly hlisted
    have hslash : '/' ∉ name.toList := by
      obtain ⟨entry, -, hlists⟩ := hlisted
      exact hlists.no_slash
    exact ofName_iff hclear hnames hline hslash (hroot _ _ hlisted)
  unfold excludes
  dsimp only
  rw [Bool.or_eq_true, List.any_eq_true]
  simp only [gt_iff_lt, Nat.lt_irrefl, decide_false, Bool.false_and, Bool.false_eq_true, or_false,
    mem_ofIgnoreFiles_iff hplain]
  constructor
  · rintro ⟨_, ⟨name, dirOnly, hlisted, -, rfl⟩, hmatch⟩
    exact ⟨name, dirOnly, hlisted, (honWay hlisted).1 hmatch⟩
  · rintro ⟨name, dirOnly, hlisted, hway⟩
    -- A name that is not short would be one that no entry has.
    have hmem : name ∈ names := by
      obtain ⟨front, back, rfl, -⟩ := hway
      simp
    have hshort := hengine _ (Glob.length_ofName_le (hnames name hmem).size_le dirOnly)
    exact ⟨_, ⟨name, dirOnly, hlisted, hshort, rfl⟩, (honWay hlisted).2 hway⟩

/-- No listed name is on the way along any beginning of names if none is in front of the last name, and the last
name is listed for directories at most. -/
theorem forall_not_onWay_iff (listed : String → Bool → Prop) (names : List String) :
    (∀ above, above <+: names → ¬ ∃ name dirOnly, listed name dirOnly ∧ OnWay name dirOnly above) ↔
      (∀ name ∈ names.dropLast, ∀ dirOnly, ¬ listed name dirOnly) ∧
        ∀ name, names.getLast? = some name → ¬ listed name false := by
  constructor
  · intro h
    constructor
    · intro name hname dirOnly hlisted
      have hne : names ≠ [] := by
        rintro rfl
        cases hname
      obtain ⟨front, back, hback⟩ := List.append_of_mem hname
      have hsplit : names = front ++ name :: (back ++ [names.getLast hne]) := by
        rw [← List.cons_append, ← List.append_assoc, ← hback, List.dropLast_append_getLast]
      cases dirOnly with
      | true => exact h names (List.prefix_refl _) ⟨name, true, hlisted, front, _, hsplit, by simp⟩
      | false =>
        refine h (front ++ [name]) ⟨back ++ [names.getLast hne], ?_⟩
          ⟨name, false, hlisted, front, [], rfl, by simp⟩
        rw [List.append_assoc]
        exact hsplit.symm
    · intro name hname hlisted
      obtain ⟨front, rfl⟩ := List.getLast?_eq_some_iff.1 hname
      exact h _ (List.prefix_refl _) ⟨name, false, hlisted, front, [], rfl, by simp⟩
  · rintro ⟨habove, hlast⟩ above ⟨rest, rfl⟩ ⟨name, dirOnly, hlisted, front, back, rfl, hback⟩
    rw [List.append_assoc, List.cons_append] at habove hlast
    by_cases hend : back ++ rest = []
    · obtain ⟨rfl, rfl⟩ := List.append_eq_nil_iff.1 hend
      obtain rfl : dirOnly = false := by simpa using hback
      exact hlast name (by simp) hlisted
    · refine habove name ?_ dirOnly hlisted
      rw [List.dropLast_append_of_ne_nil (by simp), List.dropLast_cons_of_ne_nil hend]
      simp

/-- With ignore files that hold plain entries only, a walk collects exactly the PHP files below no directory of a
listed name, unless the name of the file itself is listed without a slash behind. The paths have no line feeds,
the names of the project no backslashes, and no component of the path to the project is listed. -/
theorem phpFiles_unlisted (hengine : engine.TakesShort) {project : Entry} (h : Placed t place project)
    (hclear : ∀ names e, project.get? names = some e → ∀ n ∈ names, IsClear n)
    (hline : '\n' ∉ (absolute place).toList)
    (hplain : ∀ entry ∈ ignoreEntries t (absolute place), ∃ name dirOnly, Lists entry name dirOnly)
    (hroot : ∀ name dirOnly, Listed t (absolute place) name dirOnly → name ∉ components (absolute place)) :
    ∃ paths,
      Walk.phpFiles t (excludes t (ofIgnoreFiles engine t (absolute place)) 0) (absolute place) = .ok paths ∧
      ∀ p, p ∈ paths ↔ ∃ names, p = absolute (place ++ names) ∧
        (∃ content, project.get? names = some (.file content)) ∧ Path.isPhp p = true ∧
        (∀ name ∈ names.dropLast, ∀ dirOnly, ¬ Listed t (absolute place) name dirOnly) ∧
        ∀ name, names.getLast? = some name → ¬ Listed t (absolute place) name false := by
  refine ⟨_, Walk.phpFiles_located h _, fun p => ?_⟩
  rw [List.mem_map]
  refine exists_congr fun names => ?_
  rw [Walk.mem_phpNames h.proper, and_comm, eq_comm]
  refine and_congr_right ?_
  rintro rfl
  rw [← forall_not_onWay_iff]
  have hkept : ∀ {content}, project.get? names = some (.file content) →
      Path.isPhp (absolute (place ++ names)) = Path.isPhp (absolute names) := by
    intro content hget
    exact Walk.isPhp_absolute_append (h.names_append hget) (h.ne_nil_of_file hget)
  have hskip : ∀ {content}, project.get? names = some (.file content) → ∀ above, above <+: names →
      (excludes t (ofIgnoreFiles engine t (absolute place)) 0 (absolute (place ++ above)) = true ↔
        ∃ name dirOnly, Listed t (absolute place) name dirOnly ∧ OnWay name dirOnly above) := by
    intro content hget above habove
    obtain ⟨e, he⟩ := Entry.get?_of_prefix habove hget
    exact excludes_iff_onWay hengine (hclear above e he) (h.proper.of_get? he).1 hline hplain hroot
  constructor
  · rintro ⟨⟨content, hget⟩, hphp, hopen⟩
    refine ⟨⟨content, hget⟩, (hkept hget).trans hphp, fun above habove hway => ?_⟩
    obtain ⟨e, he⟩ := Entry.get?_of_prefix habove hget
    have hskipped := (hskip hget above habove).2 hway
    simp [hopen above e habove he] at hskipped
  · rintro ⟨⟨content, hget⟩, hphp, hopen⟩
    refine ⟨⟨content, hget⟩, (hkept hget).symm.trans hphp, fun above e habove _ => ?_⟩
    exact Bool.eq_false_iff.2 (mt (hskip hget above habove).1 (hopen above habove))

/-! ## A project with ignore files -/

/-- A project with a listed directory and a listed file. A third name is listed with a slash behind, and there is a
file as well as a directory of this name. -/
def ignoringProject : Entry :=
  .dir [(".gitignore", .file (.ofText "# built\n//gen/\n\n Old.php \n!keep\n")),
    (".sastignore", .file (.ofText "b.php/\n")), ("Old.php", .file (.ofText "")),
    ("b.php", .file (.ofText "")), ("gen", .dir [("a.php", .file (.ofText ""))]),
    ("src", .dir [("b.php", .dir [("c.php", .file (.ofText ""))]), ("gen.php", .file (.ofText ""))])]

/-- A file system with the project at a place. -/
def ignoringTree : FileTree := { root := Entry.insert ignoringProject ["app"] (.dir []) }

theorem proper_ignoringProject : ignoringProject.Proper := by
  have hfile : ∀ {name : String}, IsName name → (Entry.dir [(name, .file (.ofText ""))]).Proper := by
    intro name hname
    exact .dir (by simpa using hname) (by simp) (by simpa using .file _)
  refine .dir (by decide) (by decide) ?_
  simp only [List.forall_mem_cons]
  refine ⟨.file _, .file _, .file _, .file _, hfile (by decide), .dir (by decide) (by decide) ?_, by simp⟩
  simp only [List.forall_mem_cons]
  exact ⟨hfile (by decide), .file _, by simp⟩

theorem ignoreEntries_ignoringTree :
    ignoreEntries ignoringTree (absolute ["app"]) = ["//gen/", "Old.php", "b.php/"] := by
  decide +kernel

theorem phpFiles_unlisted_ignoring :
    Glob.Engine.unlimited.TakesShort ∧
      Placed ignoringTree ["app"] ignoringProject ∧
      (∀ names e, ignoringProject.get? names = some e → ∀ n ∈ names, IsClear n) ∧
      '\n' ∉ (absolute ["app"]).toList ∧
      (∀ entry ∈ ignoreEntries ignoringTree (absolute ["app"]), ∃ name dirOnly,
        Lists entry name dirOnly) ∧
      (∀ name dirOnly, Listed ignoringTree (absolute ["app"]) name dirOnly →
        name ∉ components (absolute ["app"])) ∧
      ∀ p, p ∈ ["/app/b.php", "/app/src/gen.php"] ↔
        ∃ names, p = absolute (["app"] ++ names) ∧
          (∃ content, ignoringProject.get? names = some (.file content)) ∧ Path.isPhp p = true ∧
          (∀ name ∈ names.dropLast, ∀ dirOnly,
            ¬ Listed ignoringTree (absolute ["app"]) name dirOnly) ∧
          ∀ name, names.getLast? = some name →
            ¬ Listed ignoringTree (absolute ["app"]) name false := by
  have hplaced : Placed ignoringTree ["app"] ignoringProject :=
    .of_height rfl rfl (by decide) proper_ignoringProject (by decide)
  have hclear : ∀ names e, ignoringProject.get? names = some e → ∀ n ∈ names, IsClear n := by
    have hitems : ∀ item ∈ Walk.reach (fun _ => false) ignoringProject.height [([], ignoringProject)],
        ∀ n ∈ item.1, '\\' ∉ n.toList ∧ '\n' ∉ n.toList := by
      decide +kernel
    intro names e hget n hn
    have hreach : (names, e) ∈ Walk.reach (fun _ => false) ignoringProject.height [([], ignoringProject)] :=
      (Walk.mem_reach_root proper_ignoringProject).2 ⟨hget, fun _ _ _ _ => rfl⟩
    exact ⟨(hitems _ hreach n hn).1, (hitems _ hreach n hn).2⟩
  have hplain : ∀ entry ∈ ignoreEntries ignoringTree (absolute ["app"]), ∃ name dirOnly,
      Lists entry name dirOnly := by
    rw [ignoreEntries_ignoringTree]
    simp only [List.forall_mem_cons]
    exact ⟨⟨"gen", true, by decide, by simp, ['/', '/'], by simp, by simp⟩,
      ⟨"Old.php", false, by decide, by simp, [], by simp, by simp⟩,
      ⟨"b.php", true, by decide, by simp, [], by simp, by simp⟩, by simp⟩
  have hroot : ∀ name dirOnly, Listed ignoringTree (absolute ["app"]) name dirOnly →
      name ∉ components (absolute ["app"]) := by
    rintro name dirOnly ⟨entry, hentry, hlists⟩ hname
    obtain ⟨slashes, -, hwritten⟩ := hlists.written
    have hinfix : name.toList <:+: entry.toList := ⟨slashes, _, hwritten.symm⟩
    have hnone : ∀ entry ∈ ["//gen/", "Old.php", "b.php/"], ∀ name ∈ ["", "app"],
        name ≠ "" → ¬ name.toList <:+: entry.toList := by
      decide
    have hcomponents : components (absolute ["app"]) = ["", "app"] := by decide +kernel
    rw [ignoreEntries_ignoringTree] at hentry
    rw [hcomponents] at hname
    exact hnone entry hentry name hname hlists.nonempty hinfix
  obtain ⟨paths, hpaths, hmem⟩ :=
    phpFiles_unlisted Glob.Engine.takesShort_unlimited hplaced hclear (by decide) hplain hroot
  have hwalk : Walk.phpFiles ignoringTree
      (excludes ignoringTree (ofIgnoreFiles .unlimited ignoringTree (absolute ["app"])) 0)
      (absolute ["app"]) =
        .ok ["/app/b.php", "/app/src/gen.php"] := by
    decide +kernel
  obtain rfl := Except.ok.inj (hpaths.symm.trans hwalk)
  exact ⟨Glob.Engine.takesShort_unlimited, hplaced, hclear, by decide, hplain, hroot, hmem⟩

end Exclusion

end PhpAudit
