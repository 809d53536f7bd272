import PhpAudit.Text.Blank

/-!
# Lines and byte offsets

A source text is addressed by byte offsets into its UTF-8 form. This module cuts a text at such
offsets, finds where its lines start, and lists its lines. `slice?_eq_some_iff` says what a cut is: a
middle piece of the text, in front of which as many bytes stand as the first offset says.
-/

namespace PhpAudit.Text

/-- The text from byte `start` up to byte `stop`, if both lie on character boundaries. -/
def slice? (s : String) (start stop : Nat) : Option String :=
  if h : (⟨start⟩ : String.Pos.Raw).IsValid s ∧ (⟨stop⟩ : String.Pos.Raw).IsValid s ∧
      start ≤ stop then
    some (s.extract ⟨⟨start⟩, h.1⟩ ⟨⟨stop⟩, h.2.1⟩)
  else none

/-- A text has `t` from byte `i` to byte `j` exactly if it falls into three pieces around `t` that
have these sizes. -/
theorem slice?_eq_some_iff {s t : String} {i j : Nat} :
    slice? s i j = some t ↔
      ∃ a b, s = a ++ t ++ b ∧ a.utf8ByteSize = i ∧ a.utf8ByteSize + t.utf8ByteSize = j := by
  constructor
  · intro h
    unfold slice? at h
    split at h
    case isFalse => cases h
    case isTrue hv =>
      obtain ⟨hi, hj, hij⟩ := hv
      obtain ⟨a, r, hs, ha⟩ := String.Pos.Raw.isValid_iff_exists_append.1 hi
      obtain ⟨c, b, hs', hc⟩ := String.Pos.Raw.isValid_iff_exists_append.1 hj
      have ha : i = a.utf8ByteSize := by simpa [String.Pos.Raw.ext_iff] using ha
      have hc : j = c.utf8ByteSize := by simpa [String.Pos.Raw.ext_iff] using hc
      have ht : t.toByteArray = s.toByteArray.extract i j := by
        rw [← Option.some.inj h]; exact String.toByteArray_extract
      have hca : c = a ++ t := by
        apply String.toByteArray_inj.1
        have h1 : c.toByteArray = s.toByteArray.extract 0 j := by
          rw [hs', String.toByteArray_append, ByteArray.extract_append_eq_left (by simp [hc])]
        have h2 : a.toByteArray = s.toByteArray.extract 0 i := by
          rw [hs, String.toByteArray_append, ByteArray.extract_append_eq_left (by simp [ha])]
        rw [String.toByteArray_append, h1, h2, ht]
        exact ByteArray.extract_eq_extract_append_extract i (Nat.zero_le _) hij
      refine ⟨a, b, hca ▸ hs', ha.symm, ?_⟩
      rw [hc, hca]; simp
  · rintro ⟨a, b, rfl, rfl, rfl⟩
    unfold slice?
    have h1 : (⟨a.utf8ByteSize⟩ : String.Pos.Raw).IsValid (a ++ t ++ b) :=
      String.Pos.Raw.isValid_iff_exists_append.2 ⟨a, t ++ b, by simp [String.append_assoc], rfl⟩
    have h2 : (⟨a.utf8ByteSize + t.utf8ByteSize⟩ : String.Pos.Raw).IsValid (a ++ t ++ b) :=
      String.Pos.Raw.isValid_iff_exists_append.2 ⟨a ++ t, b, rfl, by simp [String.Pos.Raw.ext_iff]⟩
    rw [dif_pos ⟨h1, h2, by omega⟩]
    congr 1
    apply String.toByteArray_inj.1
    rw [String.toByteArray_extract]
    simp only [String.toByteArray_append]
    rw [ByteArray.append_assoc, ← Nat.add_zero a.utf8ByteSize, Nat.add_assoc, Nat.zero_add,
      ByteArray.extract_append_size_add' (by simp), ByteArray.extract_append_eq_left (by simp)]

/-- The byte offsets at which the lines of a text start, the first character standing at byte
`offset`. -/
def lineStartsFrom (offset : Nat) : List Char → List Nat
  | [] => []
  | c :: cs =>
    let next := offset + c.utf8Size
    if c = '\n' then next :: lineStartsFrom next cs else lineStartsFrom next cs

/-- The byte offsets at which the lines of a text start. -/
def lineStarts (s : String) : List Nat :=
  0 :: lineStartsFrom 0 s.toList

/-- A line without the carriage return it ends with. -/
def dropReturn (line : List Char) : List Char :=
  if line.getLast? = some '\r' then line.dropLast else line

/-- The lines among the pieces of a text cut at its line feeds. A line feed takes one carriage return
before it along; what follows the last line feed is a line only if it is not empty. -/
def linesOfPieces : List (List Char) → List (List Char)
  | [] => []
  | [rest] => if rest.isEmpty then [] else [rest]
  | line :: piece :: pieces => dropReturn line :: linesOfPieces (piece :: pieces)

/-- The lines of a text, without their ends. -/
def lines (s : String) : List String :=
  (linesOfPieces (cutAt (· == '\n') s.toList)).map String.ofList

end PhpAudit.Text
