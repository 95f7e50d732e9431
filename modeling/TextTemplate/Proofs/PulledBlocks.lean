import TextTemplate.Proofs.PulledTokens
import TextTemplate.Tree.Segment

/-!
# Blocks, one token at a time

A `Parser` asks a scanner for the next token when it needs one: it looks at the token, and then
takes it or not. A token that does not fit is told of, and the tokens up to the next block start are
taken without a use. `parse` has all tokens before it starts and cuts them into segments; a parser
has nothing but the next one.

Every loop takes a token each time around and stops at the end of the file, also for a parser that
has taken the end of the file already and is shown it again. So what is left after a call is a
suffix of what was left before (`Parser.left_recover` and its like), and a proper one after each
turn of a loop (`Parser.length_lt`). That is why every loop ends, wherever the scanner has come to.
-/
namespace TextTemplate

/-- The kind is one that no construct goes on after: a block start or the end of the file. -/
def TokenKind.isRecovery (kind : TokenKind) : Bool :=
  kind.isBlockStart || kind = .endOfFile

/-- A scanner, the token that stands for the next one when there are no more, and what the parser
has told of and taken so far. -/
structure Parser where
  scanner : Scanner
  endOfFile : Token
  faults : List Diagnostic
  taken : List Token
  kind_endOfFile : endOfFile.kind = .endOfFile

namespace Parser

/-! ## Calls -/

/-- The parser that has not taken a token yet. -/
def start (text : String) : Parser where
  scanner := .start text
  endOfFile := (scan text).endOfFile
  faults := []
  taken := []
  kind_endOfFile := kind_endOfFile_scan text

section Tokens
variable (p : Parser)

/-- The tokens that the parser has not taken. -/
def left : List Token :=
  p.scanner.left

/-- The next token. -/
def peek : Token :=
  p.scanner.next.token?.getD p.endOfFile

/-- The parser after it has taken the next token. -/
def advance : Parser :=
  { p with scanner := p.scanner.next.scanner, taken := p.taken ++ [p.peek] }

/-- The parser after it has told of a fault. -/
def report (fault : Diagnostic) : Parser :=
  { p with faults := p.faults ++ [fault] }

theorem left_advance : p.advance.left = p.left.tail :=
  p.scanner.left_next

theorem left_advance_suffix : p.advance.left <:+ p.left := by
  rw [left_advance]
  exact List.tail_suffix _

theorem peek_eq : p.peek = p.left.head?.getD p.endOfFile := by
  rw [peek, Scanner.token?_next, left]

/-- Only the end of the file is shown when no token is left. -/
theorem left_ne_nil {p : Parser} (h : p.peek.kind ≠ .endOfFile) : p.left ≠ [] := by
  intro hnil
  rw [peek_eq, hnil] at h
  exact h p.kind_endOfFile

/-- A call that takes a token before the end of the file has less left. -/
theorem length_lt {p : Parser} {tokens : List Token} (h : p.peek.kind ≠ .endOfFile)
    (hs : tokens <:+ p.left.tail) : tokens.length < p.left.length := by
  have hpos := List.length_pos_iff.mpr (left_ne_nil h)
  have hle := hs.length_le
  rw [List.length_tail] at hle
  omega

/-- The next token is one to go on from after a fault. -/
def atRecovery : Bool :=
  p.peek.kind.isRecovery

theorem kind_ne_of_not_atRecovery {p : Parser} (h : ¬ p.atRecovery = true) :
    p.peek.kind ≠ .endOfFile := by
  intro hend
  rw [atRecovery, hend] at h
  exact h rfl

end Tokens

/-- Takes tokens up to the next one to go on from. -/
def recover (p : Parser) : Parser :=
  if _h : p.atRecovery then p else p.advance.recover
termination_by p.left.length
decreasing_by
  exact length_lt (kind_ne_of_not_atRecovery _h) (by rw [left_advance])

theorem left_recover (p : Parser) : p.recover.left <:+ p.left := by
  fun_induction recover p with
  | case1 p h => exact List.suffix_refl _
  | case2 p h ih => exact ih.trans p.left_advance_suffix

theorem atRecovery_recover (p : Parser) : p.recover.atRecovery = true := by
  fun_induction recover p with
  | case1 p h => exact h
  | case2 p h ih => exact ih

/-- Takes the next token if it has the kind. Otherwise tells of it and goes on after the fault. -/
def expect (kind : TokenKind) (cause : Cause) (p : Parser) : Option Token × Parser :=
  if p.peek.kind = kind then (some p.peek, p.advance)
  else (none, (p.report (p.peek.fault cause)).recover)

theorem left_of_expect {kind : TokenKind} {cause : Cause} {p q : Parser} {token? : Option Token}
    (h : p.expect kind cause = (token?, q)) : q.left <:+ p.left := by
  rw [expect] at h
  split at h
  · obtain ⟨-, rfl⟩ := Prod.mk.inj h
    exact p.left_advance_suffix
  · obtain ⟨-, rfl⟩ := Prod.mk.inj h
    exact left_recover _

/-- An attribute, as far as it was written, and whether it is complete. The next token is its
name. -/
def parseAttribute (p : Parser) : (Attribute × Bool) × Parser :=
  let name := p.peek
  match p.advance.expect .equals .equalsExpected with
  | (none, p) => ((⟨name, none, none, none, none⟩, false), p)
  | (some equals, p) =>
  match p.expect .quote .quoteExpected with
  | (none, p) => ((⟨name, equals.toMark, none, none, none⟩, false), p)
  | (some openQuote, p) =>
  match p.expect .attributeValue .attributeValueExpected with
  | (none, p) => ((⟨name, equals.toMark, openQuote.toMark, none, none⟩, false), p)
  | (some value, p) =>
  match p.expect .quote .quoteExpected with
  | (none, p) => ((⟨name, equals.toMark, openQuote.toMark, value, none⟩, false), p)
  | (some closeQuote, p) =>
    ((⟨name, equals.toMark, openQuote.toMark, value, closeQuote.toMark⟩, true), p)

theorem left_parseAttribute (p : Parser) : p.parseAttribute.2.left <:+ p.left.tail := by
  rw [← left_advance]
  fun_cases parseAttribute p with
  | case1 name q h₁ => exact left_of_expect h₁
  | case2 name _ _ h₁ q h₂ => exact (left_of_expect h₂).trans (left_of_expect h₁)
  | case3 name _ _ h₁ _ _ h₂ q h₃ =>
    exact (left_of_expect h₃).trans ((left_of_expect h₂).trans (left_of_expect h₁))
  | case4 name _ _ h₁ _ _ h₂ _ _ h₃ q h₄ | case5 name _ _ h₁ _ _ h₂ _ _ h₃ _ q h₄ =>
    exact ((left_of_expect h₄).trans (left_of_expect h₃)).trans
      ((left_of_expect h₂).trans (left_of_expect h₁))

/-- The attributes of a directive, after some that were parsed before, and its end if it has one. -/
def parseAttributes (attrs : List Attribute) (p : Parser) :
    (List Attribute × Option Mark) × Parser :=
  match _h : p.peek.kind with
  | .attributeName =>
    match _hq : p.parseAttribute with
    | ((attr, true), q) => q.parseAttributes (attrs ++ [attr])
    | ((attr, false), q) => ((attrs ++ [attr], none), q)
  | .blockEnd => ((attrs, some p.peek.toMark), p.advance)
  | _ => ((attrs, none), (p.report (p.peek.fault .blockEndOrAttributeNameExpected)).recover)
termination_by p.left.length
decreasing_by
  have hs := left_parseAttribute p
  rw [_hq] at hs
  exact length_lt (by simp [_h]) hs

section Attributes
variable {p q : Parser} {attr : Attribute} (attrs : List Attribute)

theorem parseAttributes_attribute (h : p.peek.kind = .attributeName)
    (hq : p.parseAttribute = ((attr, true), q)) :
    p.parseAttributes attrs = q.parseAttributes (attrs ++ [attr]) := by
  fun_cases parseAttributes attrs p <;> simp_all

theorem parseAttributes_broken (h : p.peek.kind = .attributeName)
    (hq : p.parseAttribute = ((attr, false), q)) :
    p.parseAttributes attrs = ((attrs ++ [attr], none), q) := by
  fun_cases parseAttributes attrs p <;> simp_all

theorem parseAttributes_blockEnd (h : p.peek.kind = .blockEnd) :
    p.parseAttributes attrs = ((attrs, some p.peek.toMark), p.advance) := by
  fun_cases parseAttributes attrs p <;> simp_all

theorem parseAttributes_other (hname : p.peek.kind ≠ .attributeName)
    (hstop : p.peek.kind ≠ .blockEnd) :
    p.parseAttributes attrs =
      ((attrs, none), (p.report (p.peek.fault .blockEndOrAttributeNameExpected)).recover) := by
  rw [parseAttributes]
  split
  · contradiction
  · contradiction
  · rfl

end Attributes

theorem left_parseAttributes (attrs : List Attribute) (p : Parser) :
    (p.parseAttributes attrs).2.left <:+ p.left := by
  fun_induction parseAttributes attrs p with
  | case1 attrs p h attr q hq ih =>
    have hs := left_parseAttribute p
    rw [hq] at hs
    exact ih.trans (hs.trans (List.tail_suffix _))
  | case2 attrs p h attr q hq =>
    have hs := left_parseAttribute p
    rw [hq] at hs
    exact hs.trans (List.tail_suffix _)
  | case3 attrs p h => exact p.left_advance_suffix
  | case4 => exact left_recover _

/-- A directive, unless it has no name. The next token is its start. -/
def parseDirective (p : Parser) : Option Directive × Parser :=
  match p.advance.expect .directiveName .directiveNameExpected with
  | (none, q) => (none, q)
  | (some name, q) =>
    match q.parseAttributes [] with
    | ((attrs, stop), q) => (some ⟨p.peek.toMark, name, attrs, stop⟩, q)

theorem left_parseDirective (p : Parser) : p.parseDirective.2.left <:+ p.left.tail := by
  rw [← left_advance]
  fun_cases parseDirective p with
  | case1 q h => exact left_of_expect h
  | case2 name q h attrs stop q' hq =>
    have hs := left_parseAttributes [] q
    rw [hq] at hs
    exact hs.trans (left_of_expect h)

/-- A code block. The next token is its start. -/
def parseCodeBlock (p : Parser) : CodeBlock × Parser :=
  let start := p.peek.toMark
  let p := p.advance
  match p.peek.kind with
  | .blockEnd => (⟨start, none, some p.peek.toMark⟩, p.advance)
  | .code =>
    match p.advance.expect .blockEnd .blockEndExpected with
    | (stop, q) => (⟨start, p.peek.toMark, stop.map (·.toMark)⟩, q)
  | _ => (⟨start, none, none⟩, (p.report (p.peek.fault .codeOrBlockEndExpected)).recover)

section CodeBlocks
variable {p : Parser}

theorem parseCodeBlock_blockEnd (h : p.advance.peek.kind = .blockEnd) :
    p.parseCodeBlock =
      (⟨p.peek.toMark, none, some p.advance.peek.toMark⟩, p.advance.advance) := by
  simp only [parseCodeBlock, h]

theorem parseCodeBlock_code {stop : Option Token} {q : Parser} (h : p.advance.peek.kind = .code)
    (hq : p.advance.advance.expect .blockEnd .blockEndExpected = (stop, q)) :
    p.parseCodeBlock =
      (⟨p.peek.toMark, some p.advance.peek.toMark, stop.map (·.toMark)⟩, q) := by
  simp only [parseCodeBlock, h, hq]

theorem parseCodeBlock_other (hstop : p.advance.peek.kind ≠ .blockEnd)
    (hcode : p.advance.peek.kind ≠ .code) :
    p.parseCodeBlock = (⟨p.peek.toMark, none, none⟩,
      (p.advance.report (p.advance.peek.fault .codeOrBlockEndExpected)).recover) := by
  dsimp only [parseCodeBlock]
  split
  · contradiction
  · contradiction
  · rfl

end CodeBlocks

theorem left_parseCodeBlock (p : Parser) : p.parseCodeBlock.2.left <:+ p.left.tail := by
  rw [← left_advance]
  fun_cases parseCodeBlock p with
  | case1 => exact left_advance_suffix _
  | case2 _ _ _ stop q h => exact (left_of_expect h).trans (left_advance_suffix _)
  | case3 => exact left_recover _

/-- The span that covers the next tokens too, up to the next one to go on from. -/
def coverStray (span : Span) (p : Parser) : Span × Parser :=
  if _h : p.atRecovery then (span, p) else p.advance.coverStray (span.cover p.peek.span)
termination_by p.left.length
decreasing_by
  exact length_lt (kind_ne_of_not_atRecovery _h) (by rw [left_advance])

theorem left_coverStray (span : Span) (p : Parser) : (p.coverStray span).2.left <:+ p.left := by
  fun_induction coverStray span p with
  | case1 span p h => exact List.suffix_refl _
  | case2 span p h ih => exact ih.trans p.left_advance_suffix

theorem atRecovery_coverStray (span : Span) (p : Parser) :
    (p.coverStray span).2.atRecovery = true := by
  fun_induction coverStray span p with
  | case1 span p h => exact h
  | case2 span p h ih => exact ih

/-- Takes tokens that no block starts with, and tells of them as one. -/
def skipUnexpected (p : Parser) : Parser :=
  match p.advance.coverStray p.peek.span with
  | (span, q) => q.report ⟨.blockStartExpected, span, p.peek.position⟩

theorem left_skipUnexpected (p : Parser) : p.skipUnexpected.left <:+ p.left.tail := by
  rw [← left_advance]
  exact left_coverStray _ _

/-- The blocks up to the end of the file, after some that were parsed before. -/
def parseBlocks (blocks : List Block) (p : Parser) : List Block × Parser :=
  if _hend : p.peek.kind = .endOfFile then (blocks, p)
  else if p.peek.kind = .directiveStart then
    match _hq : p.parseDirective with
    | (directive?, q) => q.parseBlocks (blocks ++ (directive?.map .directive).toList)
  else if p.peek.kind.isBlockStart then
    match _hq : p.parseCodeBlock with
    | (codeBlock, q) => q.parseBlocks (blocks ++ [.code codeBlock])
  else p.skipUnexpected.parseBlocks blocks
termination_by p.left.length
decreasing_by
  · have hs := left_parseDirective p
    rw [_hq] at hs
    exact length_lt _hend hs
  · have hs := left_parseCodeBlock p
    rw [_hq] at hs
    exact length_lt _hend hs
  · exact length_lt _hend (left_skipUnexpected p)

section Blocks
variable {p q : Parser} (blocks : List Block)

theorem parseBlocks_endOfFile (h : p.peek.kind = .endOfFile) :
    p.parseBlocks blocks = (blocks, p) := by
  rw [parseBlocks, dif_pos h]

theorem parseBlocks_directive {directive? : Option Directive} (h : p.peek.kind = .directiveStart)
    (hq : p.parseDirective = (directive?, q)) :
    p.parseBlocks blocks = q.parseBlocks (blocks ++ (directive?.map .directive).toList) := by
  rw [parseBlocks, dif_neg (by simp [h]), if_pos h, hq]

theorem parseBlocks_code {codeBlock : CodeBlock} (hstart : p.peek.kind.isBlockStart = true)
    (h : p.peek.kind ≠ .directiveStart) (hq : p.parseCodeBlock = (codeBlock, q)) :
    p.parseBlocks blocks = q.parseBlocks (blocks ++ [.code codeBlock]) := by
  have hend : p.peek.kind ≠ .endOfFile := by
    intro hend
    rw [hend] at hstart
    contradiction
  rw [parseBlocks, dif_neg hend, if_neg h, if_pos hstart, hq]

theorem parseBlocks_other (h : p.peek.kind.isRecovery = false) :
    p.parseBlocks blocks = p.skipUnexpected.parseBlocks blocks := by
  rw [TokenKind.isRecovery, Bool.or_eq_false_iff, decide_eq_false_iff_not] at h
  have hdirective : p.peek.kind ≠ .directiveStart := by
    intro hdirective
    rw [hdirective] at h
    exact absurd h.1 (by decide)
  rw [parseBlocks, dif_neg h.2, if_neg hdirective, if_neg (Bool.eq_false_iff.mp h.1)]

end Blocks

/-- Whatever the parser has come to, the run over the blocks ends at the end of the file. -/
theorem kind_peek_parseBlocks (blocks : List Block) (p : Parser) :
    (p.parseBlocks blocks).2.peek.kind = .endOfFile := by
  fun_induction parseBlocks blocks p with
  | case1 blocks p h => exact h
  | case2 blocks p hend h directive? q hq ih => exact ih
  | case3 blocks p hend hdirective h codeBlock q hq ih => exact ih
  | case4 blocks p hend hdirective hstart ih => exact ih

/-- A whole template. -/
def parse (p : Parser) : ParsedTemplate × Parser :=
  match p.parseBlocks [] with
  | (blocks, q) => (⟨⟨blocks, q.peek.toMark⟩, q.faults⟩, q.advance)

end Parser

end TextTemplate
