import Mathlib.Data.List.Chain
import PhpAudit.Proofs.Text.Slice
import PhpAudit.Tree.Naming

/-!
# A comment put into a file

An `Insertion` is a file cut at one place, between two tokens of a line, and a comment for that place. It
describes two files: `plain`, without the comment, and `commented`, with the comment as one more leaf of
the tree and everything behind it moved. This module says where the bytes go: how offsets move (`start`
and `stop`), that lines stay (`line_ofOffset`), and that a stretch of text stays unless the comment falls
inside (`slice?_of_not_straddles`).
-/

namespace PhpAudit

/-- A file in two parts with a comment to be put between them. `lead` and `trail` are the blanks around the
comment, `rowsBefore` the rows of the outline in front of it, and `depth` is that of its own row. -/
structure Insertion where
  path : String
  before : String
  lead : String
  text : String
  trail : String
  after : String
  rowsBefore : Outline
  rowsAfter : Outline
  depth : Nat

namespace Insertion

variable (g : Insertion)

/-- The comment with the blanks around it. -/
def comment : String := g.lead ++ g.text ++ g.trail

/-- The byte at which the comment is put in. -/
def offset : Nat := g.before.utf8ByteSize

/-- The number of bytes put in. -/
def length : Nat := g.comment.utf8ByteSize

/-- The id that the comment gets. -/
def site : Nat := g.rowsBefore.length

/-- The text without the comment. -/
def source : String := g.before ++ g.after

/-- The text with the comment. -/
def commentedSource : String := g.before ++ (g.comment ++ g.after)

/-- The id of a node once the comment is there. -/
def up (i : Nat) : Nat := if i < g.site then i else i + 1

/-- Where a stretch starts once the comment is there. -/
def start (s : Nat) : Nat := if s < g.offset then s else s + g.length

/-- Where a stretch stops once the comment is there. -/
def stop (t : Nat) : Nat := if t ≤ g.offset then t else t + g.length

/-- The row of a node once the comment is there. -/
def row (r : OutlineRow) : OutlineRow :=
  { r with span := ⟨g.start r.span.start, g.stop r.span.stop⟩ }

/-- The row of the comment. -/
def commentRow : OutlineRow where
  depth := g.depth
  form := "comment"
  field := none
  span := ⟨g.offset + g.lead.utf8ByteSize, g.offset + g.lead.utf8ByteSize + g.text.utf8ByteSize⟩

/-- The file without the comment. -/
def plain : SourceFile := .ofParts g.path g.source (g.rowsBefore ++ g.rowsAfter)

/-- The file with the comment. -/
def commented : SourceFile :=
  .ofParts g.path g.commentedSource
    (g.rowsBefore.map g.row ++ g.commentRow :: g.rowsAfter.map g.row)

/-- The comment stands between two tokens of a line, as a leaf of the tree. -/
structure Valid : Prop where
  lead : g.lead.toList.all Text.isBlank = true
  trail : g.trail.toList.all Text.isBlank = true
  opens : g.text.toList.head? = some '/' ∨ g.text.toList.head? = some '#'
  one_line : '\n' ∉ g.comment.toList
  before_ne : g.before ≠ ""
  after_ne : g.after ≠ ""
  ranges : ∀ r ∈ g.rowsBefore ++ g.rowsAfter,
    (Text.slice? g.source r.span.start r.span.stop).isSome = true
  no_gap_row : ∀ r ∈ g.rowsBefore ++ g.rowsAfter, r.span ≠ ⟨g.offset, g.offset⟩
  root : g.rowsBefore.head?.map (·.depth) = some 0
  depth_pos : 0 < g.depth
  nested : (g.rowsBefore.map (·.depth) ++ [g.depth]).IsChain (fun d e => e ≤ d + 1)
  leaf : ∀ r ∈ g.rowsAfter.head?, r.depth ≤ g.depth

variable {g}

theorem Valid.lead_blank (hg : g.Valid) : ∀ c ∈ g.lead.toList, Text.isBlank c = true :=
  List.all_eq_true.1 hg.lead

/-! ## Offsets -/

theorem Valid.offset_pos (hg : g.Valid) : 0 < g.offset := by
  have h := hg.before_ne
  rw [ne_eq, ← String.utf8ByteSize_eq_zero_iff] at h
  unfold offset
  omega

theorem offset_lt_source (hg : g.Valid) : g.offset < g.source.utf8ByteSize := by
  have h := hg.after_ne
  rw [ne_eq, ← String.utf8ByteSize_eq_zero_iff] at h
  unfold source offset
  rw [String.utf8ByteSize_append]
  omega

theorem size_commentedSource :
    g.commentedSource.utf8ByteSize = g.source.utf8ByteSize + g.length := by
  unfold commentedSource source length
  simp only [String.utf8ByteSize_append]
  omega

theorem start_lt_start_iff {s t : Nat} : g.start s < g.start t ↔ s < t := by
  unfold start
  split <;> split <;> omega

theorem start_lt_stop_iff {s t : Nat} : g.start s < g.stop t ↔ s < t := by
  unfold start stop
  split <;> split <;> omega

theorem contains_stop (s t o : Nat) :
    (⟨g.start s, g.stop t⟩ : Span).contains (g.start o) = (⟨s, t⟩ : Span).contains o := by
  unfold Span.contains
  have hstart : (g.start s ≤ g.start o) ↔ s ≤ o := by
    rw [← Nat.not_lt, start_lt_start_iff, Nat.not_lt]
  simp only [hstart, start_lt_stop_iff]

/-! ## Lines -/

/-- The lines behind the comment start later and no line is added. -/
theorem lineStarts_commentedSource (hg : g.Valid) :
    ∃ front back, Text.lineStarts g.source = front ++ back ∧
      Text.lineStarts g.commentedSource = front ++ back.map (· + g.length) ∧
      (∀ x ∈ front, x ≤ g.offset) ∧ ∀ x ∈ back, g.offset < x := by
  refine ⟨0 :: Text.lineStartsFrom 0 g.before.toList, Text.lineStartsFrom g.offset g.after.toList,
    ?_, ?_, ?_, ?_⟩
  · unfold Text.lineStarts source
    rw [String.toList_append, Text.lineStartsFrom_append, Nat.zero_add, String.ofList_toList]
    rfl
  · unfold Text.lineStarts commentedSource
    rw [String.toList_append, String.toList_append, Text.lineStartsFrom_append,
      Text.lineStartsFrom_append, Text.lineStartsFrom_eq_nil hg.one_line, Nat.zero_add,
      String.ofList_toList, String.ofList_toList, List.nil_append,
      ← Text.lineStartsFrom_add]
    rfl
  · intro x hx
    rcases List.mem_cons.1 hx with rfl | hx
    · exact Nat.zero_le _
    · have := (Text.bounds_of_mem_lineStartsFrom hx).2
      rw [String.ofList_toList] at this
      unfold offset
      omega
  · intro x hx
    exact (Text.bounds_of_mem_lineStartsFrom hx).1

/-- A byte stays on its line. -/
theorem line_ofOffset (hg : g.Valid) (s : Nat) :
    (Place.ofOffset (Text.lineStarts g.commentedSource) (g.start s)).line =
      (Place.ofOffset (Text.lineStarts g.source) s).line := by
  obtain ⟨front, back, hplain, hcommented, hfront, hback⟩ := lineStarts_commentedSource hg
  unfold Place.ofOffset
  dsimp only
  rw [hplain, hcommented, List.filter_append, List.filter_append, List.length_append,
    List.length_append, List.filter_map, List.length_map]
  have hf : front.filter (fun x => decide (x ≤ g.start s)) =
      front.filter (fun x => decide (x ≤ s)) := by
    refine List.filter_congr fun x hx => ?_
    have := hfront x hx
    unfold start
    rw [decide_eq_decide]
    split <;> omega
  have hb : back.filter ((fun x => decide (x ≤ g.start s)) ∘ (· + g.length)) =
      back.filter (fun x => decide (x ≤ s)) := by
    refine List.filter_congr fun x hx => ?_
    have := hback x hx
    unfold start
    rw [Function.comp_apply, decide_eq_decide]
    split <;> omega
  rw [hf, hb]

/-! ## Texts -/

theorem slice?_eq_none_of_lt {s : String} {i j : Nat} (h : j < i) : Text.slice? s i j = none := by
  unfold Text.slice?
  rw [dif_neg (by omega)]

/-- A cut in front of the comment. -/
theorem slice?_in_front {i j : Nat} (h : j ≤ g.offset) :
    Text.slice? g.commentedSource i j = Text.slice? g.source i j := by
  unfold commentedSource source
  rw [Text.slice?_append_left h, Text.slice?_append_left h]

/-- A cut behind the comment. -/
theorem slice?_behind {i j : Nat} (hi : g.offset ≤ i) (hj : g.offset ≤ j) :
    Text.slice? g.commentedSource (i + g.length) (j + g.length) = Text.slice? g.source i j := by
  obtain ⟨i, rfl⟩ := Nat.exists_eq_add_of_le hi
  obtain ⟨j, rfl⟩ := Nat.exists_eq_add_of_le hj
  unfold commentedSource source offset length
  rw [Text.slice?_append_right, Nat.add_assoc, Nat.add_assoc, Text.slice?_append_right,
    Nat.add_comm i, Nat.add_comm j, Text.slice?_append_right]

/-- A cut across the comment: the text before it, the comment, the text after it. -/
theorem slices_across {i j : Nat} (hi : i ≤ g.offset) (hj : g.offset ≤ j) :
    (∃ x y, Text.slice? g.before i g.offset = some x ∧
      Text.slice? g.source i j = some (x ++ y) ∧
      Text.slice? g.commentedSource i (j + g.length) = some (x ++ (g.comment ++ y))) ∨
    (Text.slice? g.source i j = none ∧ Text.slice? g.commentedSource i (j + g.length) = none) := by
  obtain ⟨j, rfl⟩ := Nat.exists_eq_add_of_le hj
  have hplain : Text.slice? g.source i (g.offset + j) =
      (Text.slice? g.before i g.offset).bind fun x => (Text.slice? g.after 0 j).map (x ++ ·) :=
    Text.slice?_append_mid hi j
  have hcommented : Text.slice? g.commentedSource i (g.offset + j + g.length) =
      (Text.slice? g.before i g.offset).bind fun x =>
        ((Text.slice? g.after 0 j).map (g.comment ++ ·)).map (x ++ ·) := by
    rw [Nat.add_assoc, Nat.add_comm j]
    unfold commentedSource offset length
    rw [Text.slice?_append_mid hi, Text.slice?_append_mid (Nat.zero_le _), Text.slice?_self]
    rfl
  rw [hplain, hcommented]
  cases hx : Text.slice? g.before i g.offset with
  | none => exact .inr ⟨rfl, rfl⟩
  | some x =>
    cases hy : Text.slice? g.after 0 j with
    | none => exact .inr ⟨rfl, rfl⟩
    | some y => exact .inl ⟨x, y, rfl, rfl, rfl⟩

/-- The comment falls inside the stretch. -/
def Straddles (g : Insertion) (s : Span) : Prop := s.start < g.offset ∧ g.offset < s.stop

instance (g : Insertion) (s : Span) : Decidable (g.Straddles s) :=
  inferInstanceAs (Decidable (_ ∧ _))

/-- A stretch that the comment does not fall into keeps its text. -/
theorem slice?_of_not_straddles {s : Span} (hs : ¬ g.Straddles s) (hne : s ≠ ⟨g.offset, g.offset⟩) :
    Text.slice? g.commentedSource (g.start s.start) (g.stop s.stop) =
      Text.slice? g.source s.start s.stop := by
  unfold Straddles at hs
  have hne' : ¬ (s.start = g.offset ∧ s.stop = g.offset) := fun h =>
    hne (by obtain ⟨a, b⟩ := s; simp only at h; rw [h.1, h.2])
  unfold start stop
  by_cases hstop : s.stop ≤ g.offset
  · rw [if_pos hstop]
    by_cases hstart : s.start < g.offset
    · rw [if_pos hstart]
      exact slice?_in_front hstop
    · rw [if_neg hstart, slice?_eq_none_of_lt (by omega), slice?_eq_none_of_lt (by omega)]
  · rw [if_neg hstop, if_neg (by omega)]
    exact slice?_behind (by omega) (by omega)

/-- The text between two nodes stays unless the comment falls between them. -/
theorem slice?_between {t s : Nat} (h : ¬ (t ≤ g.offset ∧ g.offset ≤ s)) :
    Text.slice? g.commentedSource (g.stop t) (g.start s) = Text.slice? g.source t s := by
  unfold start stop
  by_cases ht : t ≤ g.offset
  · rw [if_pos ht, if_pos (by omega)]
    exact slice?_in_front (by omega)
  · rw [if_neg ht]
    by_cases hs : s < g.offset
    · rw [if_pos hs, slice?_eq_none_of_lt (by omega), slice?_eq_none_of_lt (by omega)]
    · rw [if_neg hs]
      exact slice?_behind (by omega) (by omega)

end Insertion

end PhpAudit
