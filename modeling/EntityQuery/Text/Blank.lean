/-!
# Text/Blank — the characters with the white space property

The list is the one of the Unicode standard: the five controls from the tab to the carriage return,
the space, and the line, paragraph and spacing characters beyond ASCII.
-/

namespace EntityQuery

/-- Whether a character is white space. -/
def isBlank (c : Char) : Bool :=
  let n := c.toNat
  decide (9 ≤ n ∧ n ≤ 13) || n == 0x20 || n == 0x85 || n == 0xA0 || n == 0x1680 ||
    decide (0x2000 ≤ n ∧ n ≤ 0x200A) || n == 0x2028 || n == 0x2029 || n == 0x202F ||
    n == 0x205F || n == 0x3000

end EntityQuery
