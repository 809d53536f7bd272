import Mathlib.Data.List.Basic
import PhpAudit.Proofs.Text.Slice
import PhpAudit.Tree.Outline

/-!
# The line around an offset

A place counts the line starts up to an offset, an excerpt is looked up in the list of lines, and suppression
lists the numbers of the lines that have a marker. All three speak of the longest stretch of the text
around the offset that has no line feed in it (`Around`): `Around.place_eq`, `Around.excerpt_eq` and
`Around.mem_markedLines`. They differ in one point. The list of lines has no empty line behind the last line feed,
so nothing marks a place there. `lineInduction` follows a text line by line.
-/

namespace PhpAudit.Text

/-- A text line by line: what follows the last line feed, and a line in front of others. -/
theorem lineInduction {P : List Char → Prop} (last : ∀ w, '\n' ∉ w → P w)
    (line : ∀ w cs, '\n' ∉ w → P cs → P (w ++ '\n' :: cs)) (cs : List Char) : P cs := by
  -- `w` is the part of the present line that has been read
  have read : ∀ w, '\n' ∉ w → P (w ++ cs) := by
    induction cs with
    | nil =>
      intro w hw
      rw [List.append_nil]
      exact last w hw
    | cons c cs ih =>
      intro w hw
      by_cases hc : c = '\n'
      · subst hc
        exact line w cs hw (ih [] List.not_mem_nil)
      · have hnext := ih (w ++ [c]) (by simp [hw, Ne.symm hc])
        rwa [List.append_assoc, List.singleton_append] at hnext
  exact read [] List.not_mem_nil

/-! ## The stretch -/

/-- `line` is the longest stretch without a line feed around a byte offset, with the text before and behind
it. -/
structure Around (source : String) (offset : Nat) (before line behind : String) : Prop where
  split : source = before ++ line ++ behind
  unbroken : '\n' ∉ line.toList
  opens : before = "" ∨ before.toList.getLast? = some '\n'
  closes : behind = "" ∨ behind.toList.head? = some '\n'
  start_le : before.utf8ByteSize ≤ offset
  le_stop : offset ≤ before.utf8ByteSize + line.utf8ByteSize

variable {source before line behind : String} {offset : Nat}

theorem Around.cons (h : Around source offset before line behind) {w : String} :
    Around (w ++ "\n" ++ source) (w.utf8ByteSize + 1 + offset) (w ++ "\n" ++ before) line behind := by
  have hsize : (w ++ "\n" ++ before).utf8ByteSize = w.utf8ByteSize + 1 + before.utf8ByteSize := by
    rw [String.utf8ByteSize_append, String.utf8ByteSize_append]
    rfl
  refine ⟨?_, h.unbroken, .inr ?_, h.closes, ?_, ?_⟩
  · rw [h.split]
    simp only [String.append_assoc]
  · rcases h.opens with hopens | hopens
    · simp [hopens]
    · rw [String.toList_append, List.getLast?_append, hopens, Option.some_or]
  · rw [hsize]
    exact Nat.add_le_add_left h.start_le _
  · have hstop := h.le_stop
    omega

/-- Every offset within a text is on some line. -/
theorem exists_around (source : String) {offset : Nat} (hoffset : offset ≤ source.utf8ByteSize) :
    ∃ before line behind, Around source offset before line behind := by
  have hlist : ∀ cs offset, offset ≤ (String.ofList cs).utf8ByteSize →
      ∃ before line behind, Around (String.ofList cs) offset before line behind := by
    refine lineInduction ?_ ?_
    · intro w hw offset hoffset
      exact ⟨"", String.ofList w, "", by simp, by simpa using hw, .inl rfl, .inl rfl, Nat.zero_le _,
        by simpa using hoffset⟩
    · intro w cs hw ih offset hoffset
      have hsource : String.ofList (w ++ '\n' :: cs) = String.ofList w ++ "\n" ++ String.ofList cs := by
        apply String.toList_injective
        simp
      have hsize : (String.ofList (w ++ '\n' :: cs)).utf8ByteSize =
          (String.ofList w).utf8ByteSize + 1 + (String.ofList cs).utf8ByteSize := by
        rw [hsource, String.utf8ByteSize_append, String.utf8ByteSize_append]
        rfl
      by_cases hfirst : offset ≤ (String.ofList w).utf8ByteSize
      · refine ⟨"", String.ofList w, "\n" ++ String.ofList cs, ?_, by simpa using hw, .inl rfl, .inr (by simp),
          Nat.zero_le _, by simpa using hfirst⟩
        rw [hsource, String.append_assoc, String.empty_append]
      · obtain ⟨before, line, behind, h⟩ := ih (offset - ((String.ofList w).utf8ByteSize + 1)) (by omega)
        have hcons := h.cons (w := String.ofList w)
        rw [Nat.add_sub_of_le (by omega), ← hsource] at hcons
        exact ⟨_, line, behind, hcons⟩
  have hsource := hlist source.toList offset (by rwa [String.ofList_toList])
  rwa [String.ofList_toList] at hsource

/-! ## Places -/

theorem length_lineStartsFrom (start : Nat) (cs : List Char) :
    (lineStartsFrom start cs).length = cs.count '\n' := by
  induction cs generalizing start with
  | nil => rfl
  | cons c cs ih =>
    rw [List.count_cons]
    unfold lineStartsFrom
    dsimp only
    split
    · next hc => simp [hc, ih]
    · next hc => simp [hc, ih]

/-- Behind a line feed a line starts. -/
theorem getLast?_lineStartsFrom {cs : List Char} (h : cs.getLast? = some '\n') (start : Nat) :
    (lineStartsFrom start cs).getLast? = some (start + (String.ofList cs).utf8ByteSize) := by
  obtain ⟨ds, rfl⟩ := List.getLast?_eq_some_iff.1 h
  have hsize : (String.ofList (ds ++ ['\n'])).utf8ByteSize = (String.ofList ds).utf8ByteSize + 1 := by
    rw [String.ofList_append, String.utf8ByteSize_append]
    rfl
  rw [lineStartsFrom_append, hsize, ← Nat.add_assoc]
  exact List.getLast?_concat

theorem Around.filter_lineStarts (h : Around source offset before line behind) :
    (lineStarts source).filter (· ≤ offset) = 0 :: lineStartsFrom 0 before.toList := by
  have hbefore : ∀ x ∈ lineStartsFrom 0 before.toList, x ≤ offset := by
    intro x hx
    have hbounds := (bounds_of_mem_lineStartsFrom hx).2
    rw [String.ofList_toList, Nat.zero_add] at hbounds
    exact Nat.le_trans hbounds h.start_le
  have hbehind : ∀ x ∈ lineStartsFrom (before.utf8ByteSize + line.utf8ByteSize) behind.toList,
      ¬ x ≤ offset := by
    intro x hx
    have hbounds := (bounds_of_mem_lineStartsFrom hx).1
    have hstop := h.le_stop
    omega
  have hstarts : lineStarts source = 0 :: lineStartsFrom 0 before.toList ++
      lineStartsFrom (before.utf8ByteSize + line.utf8ByteSize) behind.toList := by
    unfold lineStarts
    rw [h.split, String.toList_append, String.toList_append, lineStartsFrom_append, lineStartsFrom_append,
      lineStartsFrom_eq_nil h.unbroken]
    simp
  rw [hstarts, List.filter_append, List.filter_eq_self.2, List.filter_eq_nil_iff.2, List.append_nil]
  · simpa using hbehind
  · simpa using hbefore

/-- The line of an offset is one more than the line feeds in front of it, and its column one more than the
bytes between the last of them and the offset. -/
theorem Around.place_eq (h : Around source offset before line behind) :
    Place.ofOffset (lineStarts source) offset =
      ⟨before.toList.count '\n' + 1, offset - before.utf8ByteSize + 1⟩ := by
  have hlast : (0 :: lineStartsFrom 0 before.toList).getLast?.getD 0 = before.utf8ByteSize := by
    rw [List.getLast?_cons, Option.getD_some]
    rcases h.opens with rfl | hopens
    · rfl
    · rw [getLast?_lineStartsFrom hopens, Option.getD_some, String.ofList_toList, Nat.zero_add]
  unfold Place.ofOffset
  dsimp only
  rw [h.filter_lineStarts, hlast, List.length_cons, length_lineStartsFrom]

/-! ## Lines -/

/-- The lines of a list of characters. -/
def splitLines (cs : List Char) : List (List Char) :=
  linesOfPieces (cutAt (· == '\n') cs)

theorem splitLines_last {w : List Char} (hw : '\n' ∉ w) : splitLines w = if w.isEmpty then [] else [w] := by
  have hfalse : ∀ c ∈ w, (c == '\n') = false := fun c hc => beq_eq_false_iff_ne.2 fun heq => hw (heq ▸ hc)
  unfold splitLines
  rw [cutAt_word hfalse, linesOfPieces]

theorem splitLines_line {w : List Char} (hw : '\n' ∉ w) (cs : List Char) :
    splitLines (w ++ '\n' :: cs) = dropReturn w :: splitLines cs := by
  have hfalse : ∀ c ∈ w, (c == '\n') = false := fun c hc => beq_eq_false_iff_ne.2 fun heq => hw (heq ▸ hc)
  have hne : cutAt (· == '\n') cs ≠ [] := by
    cases cs with
    | nil => exact List.cons_ne_nil _ _
    | cons c cs =>
      unfold cutAt
      split
      · exact List.cons_ne_nil _ _
      · split <;> exact List.cons_ne_nil _ _
  obtain ⟨piece, pieces, hpieces⟩ := List.exists_cons_of_ne_nil hne
  unfold splitLines
  rw [cutAt_word_append hfalse rfl, hpieces, linesOfPieces]

/-- The lines behind a line feed are numbered from the line feeds in front of them. -/
theorem getElem?_splitLines {front : List Char} (hfront : front = [] ∨ front.getLast? = some '\n')
    (cs : List Char) : (splitLines (front ++ cs))[front.count '\n']? = (splitLines cs)[0]? := by
  induction front using lineInduction with
  | last w hw =>
    rcases hfront with rfl | hlast
    · rfl
    · exact absurd (List.mem_of_getLast? hlast) hw
  | line w front hw ih =>
    have hrest : front = [] ∨ front.getLast? = some '\n' := by
      cases front with
      | nil => exact .inl rfl
      | cons c front =>
        refine .inr ?_
        simpa [List.getLast?_append, List.getLast?_cons_cons] using hfront
    rw [List.append_assoc, List.cons_append, splitLines_line hw, List.count_append, List.count_eq_zero.2 hw,
      List.count_cons_self, Nat.zero_add, List.getElem?_cons_succ]
    exact ih hrest

/-- A line without the carriage return that it may have in front of a line feed. -/
def withoutReturn (line behind : String) : String :=
  if behind.isEmpty then line else String.ofList (dropReturn line.toList)

theorem Around.getElem?_lines (h : Around source offset before line behind) :
    (lines source)[before.toList.count '\n']? =
      if line.isEmpty && behind.isEmpty then none else some (withoutReturn line behind) := by
  have hopens : before.toList = [] ∨ before.toList.getLast? = some '\n' :=
    h.opens.imp_left fun hempty => by rw [hempty]; rfl
  have hlines : lines source = (splitLines source.toList).map String.ofList := rfl
  rw [hlines, List.getElem?_map, h.split, String.append_assoc, String.toList_append,
    getElem?_splitLines hopens, String.toList_append]
  unfold withoutReturn
  rcases h.closes with rfl | hcloses
  · have hlast := splitLines_last h.unbroken
    rw [String.toList_empty, List.append_nil, hlast]
    by_cases hline : line = ""
    · simp [hline]
    · have htoList : line.toList ≠ [] := by simpa using hline
      simp [hline]
  · obtain ⟨cs, hcs⟩ := List.head?_eq_some_iff.1 hcloses
    have hbehind : behind ≠ "" := by
      rintro rfl
      cases hcs
    rw [hcs, splitLines_line h.unbroken]
    simp [hbehind]

/-! ## Excerpts and marks -/

theorem trim_dropReturn (cs : List Char) : trim (String.ofList (dropReturn cs)) = trim (String.ofList cs) := by
  unfold dropReturn
  split
  · next hlast =>
    obtain ⟨ds, rfl⟩ := List.getLast?_eq_some_iff.1 hlast
    have hblank : isBlank '\r' = true := by decide
    unfold trim dropEndWhile
    rw [List.dropLast_concat, String.toList_ofList, String.toList_ofList, List.dropWhile_append]
    split
    · next hempty => simp [List.isEmpty_iff.1 hempty, hblank]
    · simp [hblank]
  · rfl

theorem trim_withoutReturn (line behind : String) : trim (withoutReturn line behind) = trim line := by
  unfold withoutReturn
  split
  · rfl
  · rw [trim_dropReturn, String.ofList_toList]

/-- The excerpt of a line is the line itself, trimmed. -/
theorem Around.excerpt_eq {f : SourceFile} (h : Around f.source offset before line behind) :
    f.excerpt (before.toList.count '\n' + 1) = trim line := by
  unfold SourceFile.excerpt
  rw [Nat.add_sub_cancel, h.getElem?_lines]
  split
  · next hempty =>
    have hline : line = "" := by simpa using (Bool.and_eq_true_iff.1 hempty).1
    rw [hline]
    rfl
  · exact trim_withoutReturn line behind

theorem succ_mem_markedLines {marker : String} {k : Nat} :
    k + 1 ∈ SourceFile.markedLines source marker ↔
      ∃ text, (lines source)[k]? = some text ∧ contains text marker = true := by
  unfold SourceFile.markedLines
  simp only [List.mem_filterMap, Prod.exists, List.mk_mem_zipIdx_iff_le_and_getElem?_sub]
  constructor
  · rintro ⟨text, number, ⟨-, hget⟩, hsome⟩
    obtain ⟨hcontains, rfl⟩ : contains text marker = true ∧ number = k + 1 := by simpa using hsome
    exact ⟨text, hget, hcontains⟩
  · rintro ⟨text, hget, hcontains⟩
    exact ⟨text, k + 1, ⟨Nat.le_add_left 1 k, hget⟩, by simp [hcontains]⟩

/-- A line is marked if the marker is in it. Behind the last line feed of a text nothing is left to mark. -/
theorem Around.mem_markedLines (h : Around source offset before line behind)
    (hoffset : offset < source.utf8ByteSize) (marker : String) :
    before.toList.count '\n' + 1 ∈ SourceFile.markedLines source marker ↔
      contains (withoutReturn line behind) marker = true := by
  have hsome : (line.isEmpty && behind.isEmpty) = false := by
    rw [Bool.eq_false_iff]
    intro hempty
    have hstart := h.start_le
    obtain ⟨rfl, rfl⟩ : line = "" ∧ behind = "" := by simpa using hempty
    rw [h.split] at hoffset
    simp only [String.append_empty] at hoffset
    omega
  rw [succ_mem_markedLines, h.getElem?_lines, hsome]
  simp

end PhpAudit.Text
