import TextTemplate.Token.Reading

/-!
# Token streams

Lexemes get their place in the text here: a `Cursor` runs along the characters and counts bytes and
lines, and `TokenStream.ofReading` turns each lexeme into the token at the cursor. `scan` does all
of it for a whole text. A stream has exactly one end-of-file token, which stands after all others.
-/
namespace TextTemplate

/-- A place in a text: the bytes before it, and its line and column. -/
@[ext]
structure Cursor where
  offset : Nat
  position : Position
deriving DecidableEq

namespace Cursor

/-- The start of a text. -/
def origin : Cursor := ⟨0, .origin⟩

/-- The place after one more character. -/
def next (here : Cursor) (c : Char) : Cursor :=
  ⟨here.offset + c.utf8Size, here.position.advance c⟩

/-- The place after some more characters. -/
def skip (here : Cursor) (cs : List Char) : Cursor :=
  cs.foldl next here

/-- The token of the kind and characters that starts here. -/
def token (here : Cursor) (kind : TokenKind) (text : List Char) : Token where
  kind := kind
  span := .ofBounds here.offset (here.offset + byteLength text)
  position := here.position
  text := String.ofList text

end Cursor

/-- The tokens of a text in order, and the one at its end. -/
@[ext]
structure TokenStream where
  tokens : List Token
  endOfFile : Token
deriving DecidableEq

namespace TokenStream

/-- All tokens, the end-of-file token last. -/
def toList (stream : TokenStream) : List Token :=
  stream.tokens ++ [stream.endOfFile]

/-- The tokens for the lexemes when the first gap starts at the cursor, and the token at the end. -/
def ofLexemes (here : Cursor) (trailing : List Char) : List Lexeme → TokenStream
  | [] => ⟨[], (here.skip trailing).token .endOfFile []⟩
  | lexeme :: lexemes =>
    let start := here.skip lexeme.gap
    let stream := ofLexemes (start.skip lexeme.text) trailing lexemes
    ⟨start.token lexeme.kind lexeme.text :: stream.tokens, stream.endOfFile⟩

/-- The tokens of a reading whose first gap starts at the cursor. -/
def ofReading (here : Cursor) (reading : Reading) : TokenStream :=
  ofLexemes here reading.trailing reading.lexemes

end TokenStream

/-- The tokens of the characters. -/
def scanChars (cs : List Char) : TokenStream :=
  .ofReading .origin (lex cs)

/-- The tokens of a text. -/
def scan (text : String) : TokenStream :=
  scanChars text.toList

end TextTemplate
