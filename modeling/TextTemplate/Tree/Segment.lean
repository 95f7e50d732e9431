import TextTemplate.Diagnostic
import TextTemplate.Token.Stream
import TextTemplate.Tree.Basic

/-!
# From tokens to the tree

The tokens of a template are cut in front of each block start, so that every part but the first is a
`Segment`: a block start and the tokens up to the next one. A segment holds exactly one construct,
which is read on its own:

* a code block is a block start, code unless it is empty, and an end;
* a directive is a block start, a name, attributes, and an end;
* an attribute is a name, an equals sign, a quote, a value and a quote.

The first token that does not fit is reported, and the rest of the segment is given up. The token
after the segment counts as the one that does not fit when the segment is too short. Tokens after
the end of a construct, and tokens before the first segment, are stray: each run of them is one
diagnostic.
-/
namespace TextTemplate

/-- A block start, the tokens after it up to the next block start or the end of the file, and that
next token. -/
structure Segment where
  start : Token
  body : List Token
  next : Token
deriving DecidableEq

/-- The tokens before the first block start, and the segments. -/
structure Cut where
  leading : List Token
  segments : List Segment
deriving DecidableEq

namespace Cut

/-- The tokens cut in front of each block start; `endOfFile` follows the last of them. -/
def ofTokens (endOfFile : Token) : List Token → Cut
  | [] => ⟨[], []⟩
  | token :: tokens =>
    let rest := ofTokens endOfFile tokens
    if token.kind.isBlockStart then
      let next := (rest.segments.head?.map (·.start)).getD endOfFile
      ⟨[], ⟨token, rest.leading, next⟩ :: rest.segments⟩
    else ⟨token :: rest.leading, rest.segments⟩

end Cut

/-- The diagnostic for a token that does not fit. -/
def Token.fault (token : Token) (cause : Cause) : Diagnostic :=
  ⟨cause, token.span, token.position⟩

/-- The first token if it has the kind, and the tokens after it. Otherwise the fault of that token,
or of `next` if there is none. -/
def expect (kind : TokenKind) (cause : Cause) (next : Token) :
    List Token → Except Diagnostic (Token × List Token)
  | [] => .error (next.fault cause)
  | token :: tokens =>
    if token.kind = kind then .ok (token, tokens) else .error (token.fault cause)

/-- An attribute, as far as it was written, and what comes of the tokens after it: the ones to go on
with if the attribute is complete, the fault if it is not. -/
def readAttribute (next name : Token) (tokens : List Token) :
    Attribute × Except Diagnostic (List Token) :=
  match expect .equals .equalsExpected next tokens with
  | .error fault => (⟨name, none, none, none, none⟩, .error fault)
  | .ok (equals, tokens) =>
  match expect .quote .quoteExpected next tokens with
  | .error fault => (⟨name, equals.toMark, none, none, none⟩, .error fault)
  | .ok (openQuote, tokens) =>
  match expect .attributeValue .attributeValueExpected next tokens with
  | .error fault => (⟨name, equals.toMark, openQuote.toMark, none, none⟩, .error fault)
  | .ok (value, tokens) =>
  match expect .quote .quoteExpected next tokens with
  | .error fault => (⟨name, equals.toMark, openQuote.toMark, value, none⟩, .error fault)
  | .ok (closeQuote, tokens) =>
    (⟨name, equals.toMark, openQuote.toMark, value, closeQuote.toMark⟩, .ok tokens)

theorem eq_cons_of_expect {kind : TokenKind} {cause : Cause} {next token : Token}
    {tokens rest : List Token} (h : expect kind cause next tokens = .ok (token, rest)) :
    tokens = token :: rest ∧ token.kind = kind := by
  unfold expect at h
  split at h
  · contradiction
  · split at h
    · simp_all
    · contradiction

theorem length_lt_of_readAttribute {next name : Token} {tokens rest : List Token}
    {attr : Attribute} (h : readAttribute next name tokens = (attr, .ok rest)) :
    rest.length < tokens.length := by
  fun_cases readAttribute next name tokens with
  | case5 _ _ h₁ _ _ h₂ _ _ h₃ _ _ h₄ =>
    obtain ⟨rfl, -⟩ := eq_cons_of_expect h₁
    obtain ⟨rfl, -⟩ := eq_cons_of_expect h₂
    obtain ⟨rfl, -⟩ := eq_cons_of_expect h₃
    obtain ⟨rfl, -⟩ := eq_cons_of_expect h₄
    simp_all [readAttribute]
    omega
  | _ => simp_all [readAttribute]

/-- The attributes of a directive, and what comes of the tokens after them: the end of the directive
and the tokens after it, or the fault. -/
def readAttributes (next : Token) (tokens : List Token) :
    List Attribute × Except Diagnostic (Token × List Token) :=
  match tokens with
  | [] => ([], .error (next.fault .blockEndOrAttributeNameExpected))
  | token :: tokens =>
    match token.kind with
    | .attributeName =>
      match _h : readAttribute next token tokens with
      | (attr, .error fault) => ([attr], .error fault)
      | (attr, .ok rest) =>
        let (attrs, ending) := readAttributes next rest
        (attr :: attrs, ending)
    | .blockEnd => ([], .ok (token, tokens))
    | _ => ([], .error (token.fault .blockEndOrAttributeNameExpected))
termination_by tokens.length
decreasing_by
  have := length_lt_of_readAttribute ‹_›
  simp only [List.length_cons]
  omega

/-- What a segment holds: its block, unless it is a directive without a name, the fault that ended
it early, and the stray tokens after its end. -/
structure Construct where
  block : Option Block
  fault : Option Diagnostic
  stray : List Token
deriving DecidableEq

/-- The code block of a segment. -/
def readCodeBlock (segment : Segment) : Construct :=
  let start := segment.start.toMark
  match segment.body with
  | [] =>
    ⟨some (.code ⟨start, none, none⟩), some (segment.next.fault .codeOrBlockEndExpected), []⟩
  | token :: tokens =>
    match token.kind with
    | .blockEnd => ⟨some (.code ⟨start, none, token.toMark⟩), none, tokens⟩
    | .code =>
      match expect .blockEnd .blockEndExpected segment.next tokens with
      | .error fault => ⟨some (.code ⟨start, token.toMark, none⟩), some fault, []⟩
      | .ok (stop, stray) => ⟨some (.code ⟨start, token.toMark, stop.toMark⟩), none, stray⟩
    | _ => ⟨some (.code ⟨start, none, none⟩), some (token.fault .codeOrBlockEndExpected), []⟩

/-- The directive of a segment. -/
def readDirective (segment : Segment) : Construct :=
  match expect .directiveName .directiveNameExpected segment.next segment.body with
  | .error fault => ⟨none, some fault, []⟩
  | .ok (name, tokens) =>
    match readAttributes segment.next tokens with
    | (attrs, .error fault) =>
      ⟨some (.directive ⟨segment.start.toMark, name, attrs, none⟩), some fault, []⟩
    | (attrs, .ok (stop, stray)) =>
      ⟨some (.directive ⟨segment.start.toMark, name, attrs, stop.toMark⟩), none, stray⟩

/-- The construct of a segment. -/
def Segment.read (segment : Segment) : Construct :=
  if segment.start.kind = .directiveStart then readDirective segment else readCodeBlock segment

/-- The diagnostic for a run of stray tokens, which covers all of them. -/
def strayFault : List Token → Option Diagnostic
  | [] => none
  | first :: rest =>
    some ⟨.blockStartExpected, (rest.map (·.span)).foldl Span.cover first.span, first.position⟩

/-- The diagnostics of a construct. -/
def Construct.faults (construct : Construct) : List Diagnostic :=
  construct.fault.toList ++ (strayFault construct.stray).toList

/-- A tree, and the faults of form that were found on the way to it. -/
@[ext]
structure ParsedTemplate where
  template : Template
  faults : List Diagnostic
deriving DecidableEq

namespace ParsedTemplate

/-- The tree of a token stream. -/
def ofStream (stream : TokenStream) : ParsedTemplate :=
  let cut := Cut.ofTokens stream.endOfFile stream.tokens
  let constructs := cut.segments.map Segment.read
  { template := ⟨constructs.filterMap (·.block), stream.endOfFile.toMark⟩
    faults := (strayFault cut.leading).toList ++ constructs.flatMap Construct.faults }

/-- No fault was found. -/
def succeeded (parsed : ParsedTemplate) : Bool :=
  parsed.faults.isEmpty

end ParsedTemplate

/-- The tree of a text. -/
def parse (text : String) : ParsedTemplate :=
  .ofStream (scan text)

end TextTemplate
