/-!
# JSON values

Documents are values of `Json` until they are written. Objects keep their fields in the order in
which they were given.
-/

namespace PhpAudit

/-- A JSON document without fractions. -/
inductive Json where
  | null
  | bool (b : Bool)
  | num (n : Int)
  | str (s : String)
  | arr (items : List Json)
  | obj (fields : List (String × Json))
  deriving Inhabited

namespace Json

/-- A natural number as a document. -/
def nat (n : Nat) : Json := num n

/-- A missing value is `null`. -/
def ofOption {α : Type} (f : α → Json) : Option α → Json
  | none => null
  | some a => f a

/-- A list of texts as a document. -/
def strs (texts : List String) : Json := arr (texts.map str)

/-- A list of natural numbers as a document. -/
def nats (numbers : List Nat) : Json := arr (numbers.map nat)

end Json

end PhpAudit
