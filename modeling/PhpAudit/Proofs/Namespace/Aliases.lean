import PhpAudit.Proofs.Namespace.Denotation
import PhpAudit.Proofs.Text.Slice

/-!
# Imports and the names they stand for

A clause of a `use` declaration is read as an import: its target is the written name behind the path of the group
(`Import.Spells`), and its alias is a word of the clause or the last segment of the target. Reading a clause and
looking up a name fit together: within a region the alias of the first import that has it resolves to the target,
alone and in front of further segments, in letters of any case (`resolve_import`).
-/

namespace PhpAudit

/-! ## Words and ends of a text -/

namespace Text

theorem not_of_mem_cutAt {p : Char → Bool} {cs w : List Char} (h : w ∈ cutAt p cs) :
    ∀ c ∈ w, p c = false := by
  induction cs generalizing w with
  | nil =>
    rw [List.mem_singleton.1 h]
    simp
  | cons c cs ih =>
    unfold cutAt at h
    split at h
    · rcases List.mem_cons.1 h with rfl | h
      · simp
      · exact ih h
    · next hc =>
      obtain ⟨piece, pieces, hcut⟩ := List.exists_cons_of_ne_nil (cutAt_ne_nil (p := p) cs)
      rw [hcut] at h ih
      rcases List.mem_cons.1 h with rfl | h
      · exact List.forall_mem_cons.2 ⟨Bool.eq_false_iff.2 hc, ih List.mem_cons_self⟩
      · exact ih (List.mem_cons_of_mem _ h)

/-- A word is not empty and has no blank. -/
theorem mem_words {s w : String} (h : w ∈ words s) : w ≠ "" ∧ ∀ c ∈ w.toList, isBlank c = false := by
  obtain ⟨piece, hpiece, rfl⟩ := List.mem_map.1 h
  obtain ⟨hcut, hne⟩ := List.mem_filter.1 hpiece
  rw [String.toList_ofList]
  refine ⟨fun hempty => ?_, not_of_mem_cutAt hcut⟩
  rw [String.ofList_eq_empty_iff.1 hempty] at hne
  cases hne

/-- `core` is left of a text without the characters `front` at its start and the characters `back` at its end. -/
structure Pared (front back : Char) (s core : String) : Prop where
  split : ∃ i j, s.toList = List.replicate i front ++ core.toList ++ List.replicate j back
  head_ne : core.toList.head? ≠ some front
  last_ne : core.toList.getLast? ≠ some back

theorem Pared.mem {front back : Char} {s core : String} (h : Pared front back s core) {c : Char}
    (hc : c ∈ core.toList) : c ∈ s.toList := by
  obtain ⟨i, j, hsplit⟩ := h.split
  rw [hsplit]
  exact List.mem_append_left _ (List.mem_append_right _ hc)

theorem exists_stripStart (c : Char) (s : String) :
    ∃ n, s.toList = List.replicate n c ++ (stripStart c s).toList := by
  refine ⟨(s.toList.takeWhile (· == c)).length, ?_⟩
  have hrun : s.toList.takeWhile (· == c) = List.replicate (s.toList.takeWhile (· == c)).length c :=
    List.eq_replicate_of_mem fun d hd => by simpa using List.mem_takeWhile_imp hd
  rw [← hrun, stripStart, String.toList_ofList, List.takeWhile_append_dropWhile]

theorem exists_stripEnd (c : Char) (s : String) :
    ∃ n, s.toList = (stripEnd c s).toList ++ List.replicate n c := by
  obtain ⟨n, hn⟩ := exists_stripStart c (String.ofList s.toList.reverse)
  refine ⟨n, List.reverse_injective ?_⟩
  rw [List.reverse_append, List.reverse_replicate]
  simpa [stripEnd, stripStart, dropEndWhile] using hn

theorem head?_stripStart (c : Char) (s : String) : (stripStart c s).toList.head? ≠ some c := by
  rw [stripStart, String.toList_ofList]
  intro h
  have := List.head?_dropWhile_not (· == c) s.toList
  rw [h] at this
  simp at this

theorem getLast?_stripEnd (c : Char) (s : String) : (stripEnd c s).toList.getLast? ≠ some c := by
  have := head?_stripStart c (String.ofList s.toList.reverse)
  simpa [stripEnd, stripStart, dropEndWhile] using this

theorem pared_stripStart_stripEnd (front back : Char) (s : String) :
    Pared front back s (stripStart front (stripEnd back s)) := by
  obtain ⟨j, hj⟩ := exists_stripEnd back s
  obtain ⟨i, hi⟩ := exists_stripStart front (stripEnd back s)
  refine ⟨⟨i, j, by rw [hj, ← hi]⟩, head?_stripStart front _, fun hlast => ?_⟩
  refine getLast?_stripEnd back s ?_
  rw [hi, List.getLast?_append, hlast, Option.some_or]

theorem pared_stripEnd_stripStart (front back : Char) (s : String) :
    Pared front back s (stripEnd back (stripStart front s)) := by
  obtain ⟨i, hi⟩ := exists_stripStart front s
  obtain ⟨j, hj⟩ := exists_stripEnd back (stripStart front s)
  refine ⟨⟨i, j, by rw [hi, hj, List.append_assoc]⟩, fun hhead => ?_, getLast?_stripEnd back _⟩
  refine head?_stripStart front s ?_
  rw [hj, List.head?_append, hhead, Option.some_or]

end Text

/-! ## Last segments -/

namespace ClassName

variable {name first rest : String}

theorem toList_join (first rest : String) :
    (join first rest).toList = first.toList ++ separator :: rest.toList := by
  simp [join, separator]

theorem getLast?_join (hne : rest ≠ "") (first : String) :
    (join first rest).toList.getLast? = rest.toList.getLast? := by
  have hlist : rest.toList ≠ [] := fun h => hne (String.toList_eq_nil_iff.1 h)
  rw [toList_join, List.getLast?_append, List.getLast?_cons, List.getLast?_eq_some_getLast hlist]
  rfl

theorem getLast?_qualify (hne : name ≠ "") (region : String) :
    (qualify region name).toList.getLast? = name.toList.getLast? := by
  unfold qualify
  split
  · rfl
  · exact getLast?_join hne region

theorem normalize_suffix (hlast : ∀ c ∈ name.toList.getLast?, Text.isBlank c = false) :
    (normalize name).toList <:+ name.toList := by
  have hstart : name.toList.dropWhile Text.isBlank <:+ name.toList := List.dropWhile_suffix _
  have hend : Text.dropEndWhile Text.isBlank (name.toList.dropWhile Text.isBlank) =
      name.toList.dropWhile Text.isBlank := by
    obtain ⟨before, hbefore⟩ := hstart
    refine dropEndWhile_eq_self ?_
    rw [Option.all_eq_true]
    intro c hc
    rw [hlast c (by rw [← hbefore, List.getLast?_append, hc]; rfl), Bool.not_false]
  unfold normalize Text.stripStart Text.trim
  rw [String.toList_ofList, String.toList_ofList, hend]
  exact (List.dropWhile_suffix _).trans hstart

theorem afterLast_suffix (c : Char) (s : String) : (Text.afterLast c s).toList <:+ s.toList := by
  unfold Text.afterLast
  rw [String.toList_ofList, ← List.reverse_prefix, List.reverse_reverse]
  exact List.takeWhile_prefix _

theorem notMem_afterLast (c : Char) (s : String) : c ∉ (Text.afterLast c s).toList := by
  unfold Text.afterLast
  rw [String.toList_ofList, List.mem_reverse]
  intro h
  simpa using List.mem_takeWhile_imp h

/-- The last segment of a name lies within the part behind a path. -/
theorem shortName_qualify_suffix (hne : name ≠ "")
    (hlast : ∀ c ∈ name.toList.getLast?, Text.isBlank c = false) (region : String) :
    (shortName (qualify region name)).toList <:+ name.toList := by
  have hfull : (shortName (qualify region name)).toList <:+ (qualify region name).toList := by
    refine (afterLast_suffix _ _).trans (normalize_suffix ?_)
    rwa [getLast?_qualify hne]
  unfold qualify at hfull ⊢
  split
  · next h => rwa [if_pos h] at hfull
  · next h =>
    rw [if_neg h, toList_join] at hfull
    have hnone := notMem_afterLast separator (normalize (join region name))
    rcases List.suffix_or_suffix_of_suffix hfull (List.suffix_append _ _) with hin | hout
    · rcases List.suffix_cons_iff.1 hin with heq | hin
      · exact absurd (heq ▸ List.mem_cons_self) hnone
      · exact hin
    · exact absurd (hout.subset List.mem_cons_self) hnone

end ClassName

/-! ## Reading a clause -/

namespace Import

open ClassName (separator)

variable {clause written target : String} {path : Option String} {i : Import}

/-- What is imported under a written name: the name without leading backslashes and trailing commas, behind the
path of the group if that is a name. -/
def Spells (written : String) (path : Option String) (target : String) : Prop :=
  ∃ name group, Text.Pared separator ',' written name ∧
    Text.Pared separator separator (Text.trim (path.getD "")) group ∧
    name ≠ "" ∧ target = ClassName.qualify group name

theorem Spells.head?_ne (h : Spells written path target) : target.toList.head? ≠ some separator := by
  obtain ⟨name, group, hname, hgroup, -, rfl⟩ := h
  unfold ClassName.qualify
  split
  · exact hname.head_ne
  · next hne =>
    have hlist : group.toList ≠ [] := fun hnil => hne (by
      rw [String.isEmpty_iff, String.toList_eq_nil_iff.1 hnil])
    rw [ClassName.toList_join, List.head?_append_of_ne_nil _ hlist]
    exact hgroup.head_ne

theorem exists_build (h : ofClause? clause path = some i) :
    ∃ written short, (Text.words clause).head? = some written ∧
      (∀ w ∈ short, w ∈ Text.words clause) ∧ ofClause?.build path written short = some i := by
  unfold ofClause? at h
  split at h
  · next name hwords => exact ⟨name, none, by rw [hwords, List.head?_cons], by simp, h⟩
  · next name keyword short hwords =>
    split at h
    · exact ⟨name, some short, by rw [hwords, List.head?_cons], by simp [hwords], h⟩
    · cases h
  · cases h

/-- What a clause says, read off its words. -/
structure Reads (clause : String) (path : Option String) (i : Import) : Prop where
  spells : ∃ written, (Text.words clause).head? = some written ∧ Spells written path i.target
  unblank : ∀ c ∈ i.short.toList, Text.isBlank c = false
  last_unblank : ∀ c ∈ i.target.toList.getLast?, Text.isBlank c = false

/-- A word has no blanks to trim, so that normalization takes off its backslashes only. -/
theorem pared_normalize_stripEnd (h : ∀ c ∈ written.toList, Text.isBlank c = false) :
    Text.Pared separator ',' written (ClassName.normalize (Text.stripEnd ',' written)) := by
  obtain ⟨n, hn⟩ := Text.exists_stripEnd ',' written
  unfold ClassName.normalize
  rw [ClassName.trim_of_unblank fun c hc => h c (hn ▸ List.mem_append_left _ hc)]
  exact Text.pared_stripStart_stripEnd separator ',' written

theorem pared_path (path : Option String) :
    Text.Pared separator separator (Text.trim (path.getD ""))
      ((path.map (Text.stripEnd separator <| ClassName.normalize ·)).getD "") := by
  cases path with
  | none => exact ⟨⟨0, 0, rfl⟩, by decide, by decide⟩
  | some p => exact Text.pared_stripEnd_stripStart separator separator (Text.trim p)

theorem reads_of_ofClause? (h : ofClause? clause path = some i) : Reads clause path i := by
  obtain ⟨written, short, hhead, hshort, hbuild⟩ := exists_build h
  have hwritten := (Text.mem_words (List.mem_of_mem_head? hhead)).2
  have hpared := pared_normalize_stripEnd hwritten
  have hgroup := pared_path path
  unfold ofClause?.build at hbuild
  dsimp only at hbuild
  generalize ClassName.normalize (Text.stripEnd ',' written) = name at hpared hbuild
  generalize (path.map (Text.stripEnd separator <| ClassName.normalize ·)).getD "" = group
    at hgroup hbuild
  split at hbuild
  · cases hbuild
  · next hempty =>
    obtain rfl := Option.some.inj hbuild
    have hne : name ≠ "" := fun heq => hempty (String.isEmpty_iff.2 heq)
    have hunblank : ∀ c ∈ name.toList, Text.isBlank c = false := fun c hc => hwritten c (hpared.mem hc)
    have hlast : ∀ c ∈ name.toList.getLast?, Text.isBlank c = false := fun c hc =>
      hunblank c (List.mem_of_mem_getLast? hc)
    refine ⟨⟨written, hhead, name, group, hpared, hgroup, hne, rfl⟩, ?_, ?_⟩
    · cases short with
      | none => exact fun c hc => hunblank c ((ClassName.shortName_qualify_suffix hne hlast group).subset hc)
      | some short => exact (Text.mem_words (hshort short rfl)).2
    · rwa [ClassName.getLast?_qualify hne]

end Import

/-! ## Looking up an alias -/

namespace ClassName

/-- A word that can stand for an import. -/
structure IsAlias (short : String) : Prop where
  ne_empty : short ≠ ""
  no_separator : separator ∉ short.toList
  not_relative : isRelative short = false
  not_builtin : isBuiltinType short = false
  not_keyword : Text.sameAscii short "namespace" = false

theorem IsAlias.namesClass_of_asciiLower {short other : String} (h : IsAlias short)
    (hunblank : ∀ c ∈ short.toList, Text.isBlank c = false)
    (hother : Text.asciiLower other = Text.asciiLower short) : NamesClass other := by
  have hletters : other.toList.map Char.toLower = short.toList.map Char.toLower := by
    rw [← Text.toList_asciiLower, hother, Text.toList_asciiLower]
  refine ⟨isIdentifier_of_unblank ?_ fun c hc => ?_, ?_, ?_⟩
  · rintro rfl
    have hnil : short.toList = [] := List.map_eq_nil_iff.1 hletters.symm
    exact h.ne_empty (String.toList_eq_nil_iff.1 hnil)
  · obtain ⟨d, hd, hdc⟩ := List.mem_map.1 (hletters ▸ List.mem_map_of_mem hc)
    have hne : d ≠ separator := fun heq => h.no_separator (heq ▸ hd)
    rw [← isBlank_toLower, ← beq_eq_false_iff_ne, ← beq_separator_toLower c, ← hdc, isBlank_toLower,
      beq_separator_toLower, beq_eq_false_iff_ne]
    exact ⟨hunblank d hd, hne⟩
  · exact (isRelative_congr hother).trans h.not_relative
  · exact (isBuiltinType_congr hother).trans h.not_builtin

end ClassName

namespace Namespace

variable {ns : Namespace} {i : Import} {first rest full : String}

/-- The import is the first one of the region that has its alias, in letters of any case. -/
def FirstNamed (ns : Namespace) (i : Import) : Prop :=
  ∃ before behind, ns.imports = before ++ i :: behind ∧
    ∀ j ∈ before, Text.sameAscii j.short i.short = false

theorem FirstNamed.import?_eq (h : ns.FirstNamed i) : ns.import? i.short = some i := by
  obtain ⟨before, behind, himports, hbefore⟩ := h
  unfold import?
  rw [himports, List.find?_append, List.find?_eq_none.2 fun j hj => by simp [hbefore j hj],
    Option.none_or, List.find?_cons_of_pos (by simp [Text.sameAscii])]

/-- A full name behind a backslash is the name itself, wherever it stands. -/
theorem resolve_absolute (hlast : ∀ c ∈ full.toList.getLast?, Text.isBlank c = false)
    (scope : Option Namespace) : resolve ("\\" ++ full) scope = full := by
  have hlist : ("\\" ++ full).toList = ClassName.separator :: full.toList := by
    simp [ClassName.separator]
  have htrim : Text.trim ("\\" ++ full) = "\\" ++ full := by
    refine ClassName.trim_eq_self ?_ ?_
    · rw [hlist]
      rintro c ⟨⟩
      decide
    · intro c hc
      rw [hlist, List.getLast?_cons] at hc
      cases hfull : full.toList.getLast? with
      | none =>
        rw [hfull] at hc
        obtain rfl := Option.some.inj hc
        decide
      | some d =>
        rw [hfull] at hc
        obtain rfl := Option.some.inj hc
        exact hlast d hfull
  rw [resolve_of_absolute (by rw [htrim, hlist]), String.ofList_toList]

/-- A name of several segments is looked up by its first one. -/
theorem resolve_join (hfirst : ClassName.isIdentifier first = true)
    (hkeyword : Text.sameAscii first "namespace" = false) (hne : rest ≠ "")
    (hlast : ∀ c ∈ rest.toList.getLast?, Text.isBlank c = false) (ns : Namespace) :
    resolve (ClassName.join first rest) (some ns) =
      ((ns.import? first).map fun i => ClassName.join i.target rest).getD
        (ClassName.qualify ns.name (ClassName.join first rest)) := by
  obtain ⟨hfirstne, hfirstplain, hseparator⟩ := ClassName.isIdentifier_iff.1 hfirst
  obtain ⟨c, cs, hcs⟩ := List.exists_cons_of_ne_nil
    (fun h : first.toList = [] => hfirstne (String.toList_eq_nil_iff.1 h))
  have hplain : ClassName.IsPlain (ClassName.join first rest) = true := by
    unfold ClassName.IsPlain at hfirstplain ⊢
    rw [hcs] at hfirstplain
    rw [ClassName.getLast?_join hne, ClassName.toList_join, hcs, Bool.and_eq_true]
    refine ⟨(Bool.and_eq_true_iff.1 hfirstplain).1, ?_⟩
    rw [Option.all_eq_true]
    intro d hd
    rw [hlast d hd, Bool.not_false]
  have hsplit : Text.splitFirst? ClassName.separator (ClassName.join first rest) = some (first, rest) := by
    have hrun : ∀ d ∈ first.toList, (d != ClassName.separator) = true := fun d hd => by
      simpa using hseparator d hd
    unfold Text.splitFirst?
    rw [ClassName.toList_join, List.dropWhile_append_of_pos hrun, List.takeWhile_append_of_pos hrun]
    simp
  have htrim := ClassName.trim_of_isPlain hplain
  rw [resolve_of_local (by rw [htrim]; exact ClassName.head?_of_isPlain hplain), htrim,
    (ClassName.not_special_of_join hplain).1, (ClassName.not_special_of_join hplain).2]
  simp only [Bool.or_self, Bool.false_eq_true, if_false, Option.map_some, Option.getD_some,
    resolveIn, hsplit, hkeyword]
  cases ns.import? first <;> rfl

/-- A written name means `full` in the region, and `full` behind a backslash means itself anywhere. -/
def Gives (ns : Namespace) (written full : String) : Prop :=
  resolve written (some ns) = full ∧ ∀ scope, resolve ("\\" ++ full) scope = full

/-- An import that is read from a clause has the written name behind the path of its group as its target. Where
it is the first one with its alias, the alias resolves to the target, alone and in front of further segments, in
letters of any case. -/
theorem resolve_import {clause : String} {path : Option String} {i : Import}
    (hread : Import.ofClause? clause path = some i) :
    (∃ written, (Text.words clause).head? = some written ∧ Import.Spells written path i.target) ∧
      i.target.toList.head? ≠ some ClassName.separator ∧
      ∀ ns : Namespace, ns.FirstNamed i → ClassName.IsAlias i.short →
        ∀ short, Text.asciiLower short = Text.asciiLower i.short →
          ns.Gives short i.target ∧
            ∀ rest, rest ≠ "" → (∀ c ∈ rest.toList.getLast?, Text.isBlank c = false) →
              ns.Gives (ClassName.join short rest) (ClassName.join i.target rest) := by
  obtain ⟨⟨written, hhead, hspells⟩, hunblank, hlast⟩ := Import.reads_of_ofClause? hread
  refine ⟨⟨written, hhead, hspells⟩, hspells.head?_ne, fun ns hfirst halias short hshort => ?_⟩
  have hclass := halias.namesClass_of_asciiLower hunblank hshort
  have hkeyword : Text.sameAscii short "namespace" = false := by
    rw [← halias.not_keyword, Text.sameAscii, Text.sameAscii, hshort]
  have himport : ns.import? short = some i := (ns.import?_congr hshort).trans hfirst.import?_eq
  refine ⟨⟨?_, resolve_absolute hlast⟩, fun rest hne hrest => ⟨?_, resolve_absolute ?_⟩⟩
  · rw [resolve_word ns hclass, himport, Option.map_some, Option.getD_some]
  · rw [resolve_join hclass.identifier hkeyword hne hrest, himport, Option.map_some, Option.getD_some]
  · rwa [ClassName.getLast?_join hne]

/-- A clause of a group, and a region in which another import stands in front of it and a namesake behind it. -/
theorem resolve_import_request :
    let i : Import := ⟨"Req", "Vendor\\Http\\Request"⟩
    let ns : Namespace := ⟨"App", ⟨0, 90⟩, [⟨"Response", "App\\Response"⟩, i, ⟨"REQ", "App\\Req"⟩]⟩
    Import.ofClause? "\\Http\\Request as Req" (some "\\Vendor\\") = some i ∧
      ns.FirstNamed i ∧ ClassName.IsAlias i.short ∧
      resolve "rEQ" (some ns) = "Vendor\\Http\\Request" ∧
      resolve "rEQ\\Query" (some ns) = "Vendor\\Http\\Request\\Query" ∧
      resolve "\\Vendor\\Http\\Request\\Query" none = "Vendor\\Http\\Request\\Query" := by
  intro i ns
  have hread : Import.ofClause? "\\Http\\Request as Req" (some "\\Vendor\\") = some i := by decide +kernel
  have hfirst : ns.FirstNamed i := ⟨[⟨"Response", "App\\Response"⟩], _, rfl, by decide +kernel⟩
  have halias : ClassName.IsAlias i.short := by constructor <;> decide +kernel
  obtain ⟨-, -, hresolve⟩ := resolve_import hread
  obtain ⟨⟨halone, -⟩, hqualified⟩ := hresolve ns hfirst halias "rEQ" (by decide +kernel)
  have hend : ∀ c ∈ "Query".toList.getLast?, Text.isBlank c = false := by
    rw [show "Query".toList.getLast? = some 'y' by decide +kernel]
    rintro c ⟨⟩
    decide
  obtain ⟨hquery, habsolute⟩ := hqualified "Query" (by decide) hend
  exact ⟨hread, hfirst, halias, halone, hquery, habsolute none⟩

end Namespace

end PhpAudit
