import TextTemplate.Text.Ranges

/-!
# White space

The characters with the Unicode property `White_Space`. They separate the tokens of a directive and
are trimmed where lines are trimmed.
-/
namespace TextTemplate

/-- The characters of the property `White_Space`, as closed ranges of code points in rising order.
-/
def blankRanges : List (Nat × Nat) :=
  [(0x09, 0x0D), (0x20, 0x20), (0x85, 0x85), (0xA0, 0xA0), (0x1680, 0x1680), (0x2000, 0x200A),
   (0x2028, 0x2029), (0x202F, 0x202F), (0x205F, 0x205F), (0x3000, 0x3000)]

/-- The character is white space. -/
def isBlank (c : Char) : Bool :=
  inRanges blankRanges c

/-- The characters without white space at either end. -/
def trimBlank (cs : List Char) : List Char :=
  ((cs.dropWhile isBlank).reverse.dropWhile isBlank).reverse

/-- The characters without white space at the end. -/
def trimBlankEnd (cs : List Char) : List Char :=
  (cs.reverse.dropWhile isBlank).reverse

end TextTemplate
