/-!
# Words of 64 bits

Numbers on the command line, in configuration files and in some reports are kept in words of 64 bits,
with a sign or without.
-/

namespace PhpAudit.Word

/-- The number of words, 2^64. Unsigned words are the numbers below it. -/
def count : Nat := 18446744073709551616

/-- Half the number of words, 2^63. Words with a sign reach up to it. -/
def half : Nat := 9223372036854775808

/-- The word with a sign that shares its bits with an unsigned one; from 2^63 on it is negative. -/
def signed (n : Nat) : Int := Int.bmod n count

end PhpAudit.Word
