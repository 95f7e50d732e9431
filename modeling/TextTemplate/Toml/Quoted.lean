import TextTemplate.Toml.Scalar

/-!
# Quoted text

The four kinds of string of a TOML text. Between double quotes a backslash starts an escape; between
apostrophes every character stands for itself. Three quotes start a string that may go over several
lines, and a line feed directly after them does not count. Each function reads from after the
opening quotes and gives the characters of the string and the rest after the closing quotes.
-/
namespace TextTemplate.Toml

/-- The apostrophe. -/
def apostrophe : Char := Char.ofNat 39

/-- The character may stand in a comment or a string: it is a tab or no control character. -/
def isPrintable (c : Char) : Bool :=
  c = '\t' || 0x20 ≤ c.toNat && c.toNat ≠ 0x7F

/-- The character with the code of the hexadecimal digits, if there is one. -/
def codePoint? (digits : List Char) : Option Char :=
  let n := numberOf 16 digits
  if digits.all isHexadecimal && n.isValidChar then some (Char.ofNat n) else none

/-- The character that a backslash and a letter stand for. -/
def shortEscape? : Char → Option Char
  | 'b' => some (Char.ofNat 8)
  | 't' => some '\t'
  | 'n' => some '\n'
  | 'f' => some (Char.ofNat 12)
  | 'r' => some '\r'
  | 'e' => some (Char.ofNat 27)
  | '"' => some '"'
  | '\\' => some '\\'
  | _ => none

/-- The string with one more character in front. -/
def prepend (c : Char) (result : Option (List Char × List Char)) :
    Option (List Char × List Char) :=
  result.map fun (text, rest) => (c :: text, rest)

/-- The rest of a string between double quotes. -/
def basicText : List Char → Option (List Char × List Char)
  | [] => none
  | '"' :: cs => some ([], cs)
  | '\\' :: 'x' :: a :: b :: cs => do prepend (← codePoint? [a, b]) (basicText cs)
  | '\\' :: 'u' :: a :: b :: c :: d :: cs => do
    prepend (← codePoint? [a, b, c, d]) (basicText cs)
  | '\\' :: 'U' :: a :: b :: c :: d :: e :: f :: g :: h :: cs => do
    prepend (← codePoint? [a, b, c, d, e, f, g, h]) (basicText cs)
  | '\\' :: c :: cs => do prepend (← shortEscape? c) (basicText cs)
  | c :: cs => if isPrintable c && c ≠ '\\' then prepend c (basicText cs) else none

/-- The rest of a string between apostrophes. -/
def literalText : List Char → Option (List Char × List Char)
  | [] => none
  | c :: cs =>
    if c = apostrophe then some ([], cs)
    else if isPrintable c then prepend c (literalText cs)
    else none

/-- Nothing but blanks stands before the end of the line. -/
def isLineEnd (cs : List Char) : Bool :=
  match cs.dropWhile fun c => c = ' ' || c = '\t' with
  | '\n' :: _ | '\r' :: '\n' :: _ => true
  | _ => false

/-- The rest of a string between three double quotes. Up to two quotes may stand before the closing
ones. A backslash at the end of a line takes the line end and all white space after it away; `trim`
says that this is going on. -/
def longBasicText (trim : Bool) : List Char → Option (List Char × List Char)
  | [] => none
  | '"' :: '"' :: '"' :: '"' :: '"' :: cs => some (['"', '"'], cs)
  | '"' :: '"' :: '"' :: '"' :: cs => some (['"'], cs)
  | '"' :: '"' :: '"' :: cs => some ([], cs)
  | '\r' :: '\n' :: cs =>
    if trim then longBasicText true cs else prepend '\n' (longBasicText false cs)
  | '\\' :: 'x' :: a :: b :: cs => do prepend (← codePoint? [a, b]) (longBasicText false cs)
  | '\\' :: 'u' :: a :: b :: c :: d :: cs => do
    prepend (← codePoint? [a, b, c, d]) (longBasicText false cs)
  | '\\' :: 'U' :: a :: b :: c :: d :: e :: f :: g :: h :: cs => do
    prepend (← codePoint? [a, b, c, d, e, f, g, h]) (longBasicText false cs)
  | '\\' :: c :: cs =>
    if isLineEnd (c :: cs) then longBasicText true (c :: cs)
    else do prepend (← shortEscape? c) (longBasicText false cs)
  | c :: cs =>
    if trim && (c = ' ' || c = '\t' || c = '\n') then longBasicText true cs
    else if isPrintable c && c ≠ '\\' || c = '\n' then prepend c (longBasicText false cs)
    else none

/-- The rest of a string between three apostrophes. Up to two apostrophes may stand before the
closing ones. -/
def longLiteralText : List Char → Option (List Char × List Char)
  | [] => none
  | '\r' :: '\n' :: cs => prepend '\n' (longLiteralText cs)
  | c :: cs =>
    let run := ((c :: cs).takeWhile (· = apostrophe)).length
    if 3 ≤ run then
      let extra := min (run - 3) 2
      some (List.replicate extra apostrophe, (c :: cs).drop (3 + extra))
    else if isPrintable c || c = '\n' then prepend c (longLiteralText cs)
    else none

/-- The characters without a line end in front. -/
def afterLineEnd : List Char → List Char
  | '\n' :: cs => cs
  | '\r' :: '\n' :: cs => cs
  | cs => cs

/-- The string on one line that the characters start with. -/
def shortQuoted? : List Char → Option (List Char × List Char)
  | '"' :: cs => basicText cs
  | c :: cs => if c = apostrophe then literalText cs else none
  | [] => none

/-- The string of any kind that the characters start with. -/
def quoted? (cs : List Char) : Option (List Char × List Char) :=
  match cs with
  | '"' :: '"' :: '"' :: rest => longBasicText false (afterLineEnd rest)
  | a :: b :: c :: rest =>
    if a = apostrophe && b = apostrophe && c = apostrophe then longLiteralText (afterLineEnd rest)
    else shortQuoted? cs
  | _ => shortQuoted? cs

end TextTemplate.Toml
