import TextTemplate.Text.Ranges
import TextTemplate.Text.Wide
import TextTemplate.Text.ZeroWidth

/-!
# Display widths

How many columns of a terminal a character takes when an excerpt is drawn: a tab four, the wide
characters of East Asian scripts two, characters that are drawn together with others none, and all
others one. A control character and a control of the direction of writing are drawn as a sign of
their own, which takes one column.
-/
namespace TextTemplate

/-- The number of spaces that stand for a tab. -/
def tabWidth : Nat := 4

/-- The character changes the direction of writing. -/
def isDirectionControl (c : Char) : Bool :=
  0x202A ≤ c.toNat && c.toNat ≤ 0x202E || 0x2066 ≤ c.toNat && c.toNat ≤ 0x2069

/-- The number of columns that the character takes. -/
def charWidth (c : Char) : Nat :=
  if c = '\t' then tabWidth
  else if isDirectionControl c then 1
  else if inRanges zeroWidthRanges c then 0
  else if inRanges wideRanges c then 2
  else 1

/-- The number of columns that the characters take. -/
def displayWidth : List Char → Nat
  | [] => 0
  | c :: cs => charWidth c + displayWidth cs

end TextTemplate
