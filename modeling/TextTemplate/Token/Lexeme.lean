import TextTemplate.Text.Blank
import TextTemplate.Token.Basic

/-!
# Lexemes

A template is read from left to right in one of four modes: output text, which yields no tokens, the
code of a block, the inside of a directive, and an attribute value. `step` says what is found next
in a mode, and `lexFrom` repeats it to the end of the text.

The result is a `Reading`: the lexemes in order, each with the characters skipped before it, and the
characters skipped before the end. Lexemes know nothing of offsets, so what is read from a mode and
the remaining characters does not depend on what came before.
-/
namespace TextTemplate

/-- Where in a template the reader is. -/
inductive Mode where
  /-- In output text between blocks. -/
  | text
  /-- In a statement, expression or class block. -/
  | code
  /-- In a directive; whether its name, or what stands in its place, has been read. -/
  | directive (named : Bool)
  /-- After the opening quote of an attribute value; whether the value has been read. -/
  | value (done : Bool)
deriving DecidableEq, Repr

/-- A token's kind and characters, after the characters that were skipped to reach it. -/
structure Lexeme where
  gap : List Char
  kind : TokenKind
  text : List Char
deriving DecidableEq

/-- The delimiter that the characters begin with, the longest of several, and the rest. -/
def delimiter? : List Char → Option (TokenKind × List Char × List Char)
  | '<' :: '#' :: '@' :: rest => some (.directiveStart, ['<', '#', '@'], rest)
  | '<' :: '#' :: '=' :: rest => some (.expressionStart, ['<', '#', '='], rest)
  | '<' :: '#' :: '+' :: rest => some (.classStart, ['<', '#', '+'], rest)
  | '<' :: '#' :: rest => some (.statementStart, ['<', '#'], rest)
  | '#' :: '>' :: rest => some (.blockEnd, ['#', '>'], rest)
  | _ => none

/-- The characters begin with a delimiter. -/
def atDelimiter : List Char → Bool
  | '<' :: '#' :: _ => true
  | '#' :: '>' :: _ => true
  | _ => false

/-- The mode after a delimiter. -/
def Mode.after : TokenKind → Mode
  | .directiveStart => .directive false
  | .statementStart | .expressionStart | .classStart => .code
  | _ => .text

/-- Output text up to the first delimiter that is not escaped, and the rest from there on. A
delimiter is escaped when an odd number of backslashes stands directly before it; `escaped` says
whether the number so far is odd. -/
def splitOutput (escaped : Bool) : List Char → List Char × List Char
  | [] => ([], [])
  | '\\' :: cs =>
    let (gap, rest) := splitOutput (!escaped) cs
    ('\\' :: gap, rest)
  | '<' :: '#' :: cs =>
    if escaped then
      let (gap, rest) := splitOutput false cs
      ('<' :: '#' :: gap, rest)
    else ([], '<' :: '#' :: cs)
  | '#' :: '>' :: cs =>
    if escaped then
      let (gap, rest) := splitOutput false cs
      ('#' :: '>' :: gap, rest)
    else ([], '#' :: '>' :: cs)
  | c :: cs =>
    let (gap, rest) := splitOutput false cs
    (c :: gap, rest)

/-- The characters before the first place at which `stop` holds of the remaining ones, and those. -/
def splitWhere (stop : List Char → Bool) : List Char → List Char × List Char
  | [] => ([], [])
  | c :: cs =>
    if stop (c :: cs) then ([], c :: cs)
    else
      let (taken, rest) := splitWhere stop cs
      (c :: taken, rest)

/-- An attribute value up to its closing quote or a delimiter, and the rest from there on. A quote
directly after a backslash belongs to the value. -/
def splitValue : List Char → List Char × List Char
  | [] => ([], [])
  | '\\' :: '"' :: cs =>
    let (value, rest) := splitValue cs
    ('\\' :: '"' :: value, rest)
  | c :: cs =>
    if c = '"' || atDelimiter (c :: cs) then ([], c :: cs)
    else
      let (value, rest) := splitValue cs
      (c :: value, rest)

/-- A name ends at white space, at the signs of an attribute, and at a delimiter. -/
def atNameEnd (cs : List Char) : Bool :=
  match cs with
  | [] => true
  | c :: _ => isBlank c || c = '=' || c = '"' || atDelimiter cs

/-- What the reader finds next. -/
inductive Step where
  /-- A token after skipped characters; the remaining characters and the mode to read them in. -/
  | token (lexeme : Lexeme) (rest : List Char) (mode : Mode)
  /-- No token and no character, but another mode. -/
  | leave (mode : Mode)
  /-- The end of the text, after skipped characters. -/
  | finish (gap : List Char)

/-- The token step for a delimiter, or the end of the text if there is none. -/
def stepDelimiter (gap cs : List Char) : Step :=
  match delimiter? cs with
  | some (kind, text, rest) => .token ⟨gap, kind, text⟩ rest (Mode.after kind)
  | none => .finish gap

/-- The next step inside of a directive, where no white space is next. -/
def stepDirective (named : Bool) (gap cs : List Char) : Step :=
  match delimiter? cs, cs with
  | some (kind, text, rest), _ => .token ⟨gap, kind, text⟩ rest (Mode.after kind)
  | none, [] => .finish gap
  | none, '=' :: rest => .token ⟨gap, .equals, ['=']⟩ rest (.directive named)
  | none, '"' :: rest => .token ⟨gap, .quote, ['"']⟩ rest (.value false)
  | none, c :: cs =>
    let (name, rest) := splitWhere atNameEnd cs
    .token ⟨gap, if named then .attributeName else .directiveName, c :: name⟩ rest (.directive true)

/-- The next step after an opening quote. Nothing but a quote after the quote is an empty value. -/
def stepValue (cs : List Char) : Step :=
  match splitValue cs with
  | ([], []) => .finish []
  | ([], '"' :: rest) => .token ⟨[], .attributeValue, []⟩ ('"' :: rest) (.value true)
  | ([], _ :: _) => .leave (.directive true)
  | (c :: value, rest) => .token ⟨[], .attributeValue, c :: value⟩ rest (.value true)

/-- The next step in each mode. -/
def step : Mode → List Char → Step
  | .text, cs =>
    let (gap, rest) := splitOutput false cs
    stepDelimiter gap rest
  | .code, cs =>
    match splitWhere atDelimiter cs with
    | ([], rest) => stepDelimiter [] rest
    | (c :: code, rest) => .token ⟨[], .code, c :: code⟩ rest .code
  | .directive named, cs => stepDirective named (cs.takeWhile isBlank) (cs.dropWhile isBlank)
  | .value true, [] => .finish []
  | .value true, '"' :: rest => .token ⟨[], .quote, ['"']⟩ rest (.directive true)
  | .value true, _ :: _ => .leave (.directive true)
  | .value false, cs => stepValue cs

end TextTemplate
