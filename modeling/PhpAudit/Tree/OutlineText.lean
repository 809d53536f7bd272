import PhpAudit.Tree.Outline

/-!
# Text of outlines

An outline is written with one row per line: depth, form, field, first byte and end, divided by single
blanks. A hyphen stands for a missing field.
-/

namespace PhpAudit

/-- A number in decimal digits. -/
def OutlineRow.number? (s : String) : Option Nat :=
  if s.isEmpty || !s.toList.all Char.isDigit then none
  else some (s.toList.foldl (fun n c => 10 * n + (c.toNat - 48)) 0)

/-- Reads one row. -/
def OutlineRow.ofLine? (line : String) : Option OutlineRow := do
  let [depth, form, field, start, stop] := Text.splitAt ' ' line | none
  return {
    depth := ← OutlineRow.number? depth
    form := form
    field := if field = "-" then none else some field
    span := ⟨← OutlineRow.number? start, ← OutlineRow.number? stop⟩ }

/-- Reads a written outline. -/
def Outline.ofText? (text : String) : Option Outline :=
  (Text.splitAt '\n' text).mapM OutlineRow.ofLine?

end PhpAudit
