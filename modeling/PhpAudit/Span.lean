/-!
# Places in a source text

Byte ranges and line-column pairs.
-/

namespace PhpAudit

/-- A range of bytes, `start` included and `stop` not. -/
structure Span where
  start : Nat
  stop : Nat
  deriving DecidableEq, Repr, Inhabited

/-- Whether a byte offset lies in the range. -/
def Span.contains (s : Span) (offset : Nat) : Bool :=
  s.start ≤ offset && offset < s.stop

/-- The number of bytes in the range. -/
def Span.length (s : Span) : Nat :=
  s.stop - s.start

/-- A line and a column, both counted from one; columns count bytes. -/
structure Place where
  line : Nat
  column : Nat
  deriving DecidableEq, Repr, Inhabited

end PhpAudit
