import Mathlib.Computability.RegularExpressions
import TextTemplate.Token.Basic

/-!
# The grammar of templates

Which sequences of token kinds are templates: directives and code blocks in any order, then the end
of the file. The grammar has no nesting, so it is given by regular expressions over token kinds, and
whether a sequence belongs to it is decidable.

A word for one block starts with a block start and has none after it (`exists_cons_of_mem_block`),
so the blocks of a template can be told apart by their block starts alone.
-/
namespace TextTemplate.Grammar

open RegularExpression (char)

/-- An attribute: a name, an equals sign, and a value between quotes. -/
def attr : RegularExpression TokenKind :=
  char .attributeName * char .equals * char .quote * char .attributeValue * char .quote

/-- A directive: a start, a name, any number of attributes, and an end. -/
def directive : RegularExpression TokenKind :=
  char .directiveStart * char .directiveName * attr.star * char .blockEnd

/-- The start of a code block, which comes in three kinds. -/
def codeStart : RegularExpression TokenKind :=
  char .statementStart + char .expressionStart + char .classStart

/-- A code block: a start, code unless it is empty, and an end. -/
def codeBlock : RegularExpression TokenKind :=
  codeStart * (1 + char .code) * char .blockEnd

/-- A directive or a code block. -/
def block : RegularExpression TokenKind :=
  directive + codeBlock

/-- A template: any number of blocks, and the end of the file. -/
def template : RegularExpression TokenKind :=
  block.star * char .endOfFile

/-- The only word for an attribute. -/
def attrWord : List TokenKind :=
  [.attributeName, .equals, .quote, .attributeValue, .quote]

section Words
variable {word : List TokenKind} {P Q : RegularExpression TokenKind} {kind : TokenKind}

theorem mem_char : word ∈ (char kind).matches' ↔ word = [kind] :=
  Iff.rfl

theorem mem_mul : word ∈ (P * Q).matches' ↔
    ∃ first ∈ P.matches', ∃ second ∈ Q.matches', first ++ second = word :=
  Language.mem_mul

theorem mem_mul_char : word ∈ (P * char kind).matches' ↔
    ∃ first ∈ P.matches', first ++ [kind] = word := by
  rw [mem_mul]
  constructor
  · rintro ⟨first, hfirst, second, rfl, rfl⟩
    exact ⟨first, hfirst, rfl⟩
  · rintro ⟨first, hfirst, rfl⟩
    exact ⟨first, hfirst, [kind], rfl, rfl⟩

theorem mem_star : word ∈ P.star.matches' ↔
    ∃ words : List (List TokenKind), word = words.flatten ∧ ∀ w ∈ words, w ∈ P.matches' :=
  Language.mem_kstar

theorem mem_attr : word ∈ attr.matches' ↔ word = attrWord := by
  simp only [attr, mem_mul_char, mem_char]
  constructor
  · rintro ⟨_, ⟨_, ⟨_, ⟨_, rfl, rfl⟩, rfl⟩, rfl⟩, rfl⟩
    rfl
  · rintro rfl
    exact ⟨_, ⟨_, ⟨_, ⟨_, rfl, rfl⟩, rfl⟩, rfl⟩, rfl⟩

/-- A word for a directive, with the number of its attributes. -/
theorem mem_directive :
    word ∈ directive.matches' ↔
      ∃ count, word = .directiveStart :: .directiveName ::
        ((List.replicate count attrWord).flatten ++ [.blockEnd]) := by
  simp only [directive, mem_mul_char, mem_mul (Q := attr.star), mem_char, mem_star, mem_attr]
  constructor
  · rintro ⟨_, ⟨_, ⟨_, rfl, rfl⟩, _, ⟨words, rfl, hwords⟩, rfl⟩, rfl⟩
    rw [List.eq_replicate_of_mem hwords]
    exact ⟨words.length, rfl⟩
  · rintro ⟨count, rfl⟩
    refine ⟨_, ⟨_, ⟨_, rfl, rfl⟩, _, ⟨List.replicate count attrWord, rfl, ?_⟩, rfl⟩, rfl⟩
    exact fun w hw => List.eq_of_mem_replicate hw

/-- All block starts but one are those of code blocks. -/
theorem mem_codeStart :
    word ∈ codeStart.matches' ↔
      ∃ start : TokenKind, start.isBlockStart ∧ start ≠ .directiveStart ∧ word = [start] := by
  constructor
  · rintro ((rfl | rfl) | rfl)
    · exact ⟨.statementStart, rfl, by decide, rfl⟩
    · exact ⟨.expressionStart, rfl, by decide, rfl⟩
    · exact ⟨.classStart, rfl, by decide, rfl⟩
  · rintro ⟨start, hstart, hne, rfl⟩
    cases start with
    | statementStart => exact .inl (.inl rfl)
    | expressionStart => exact .inl (.inr rfl)
    | classStart => exact .inr rfl
    | _ => contradiction

theorem mem_codeBlock :
    word ∈ codeBlock.matches' ↔
      ∃ start : TokenKind, start.isBlockStart ∧ start ≠ .directiveStart ∧
        (word = [start, .blockEnd] ∨ word = [start, .code, .blockEnd]) := by
  simp only [codeBlock, mem_mul_char, mem_mul (Q := 1 + char .code), mem_codeStart]
  constructor
  · rintro ⟨_, ⟨_, ⟨start, hstart, hne, rfl⟩, _, hcode, rfl⟩, rfl⟩
    rcases hcode with rfl | rfl
    · exact ⟨start, hstart, hne, .inl rfl⟩
    · exact ⟨start, hstart, hne, .inr rfl⟩
  · rintro ⟨start, hstart, hne, rfl | rfl⟩
    · exact ⟨_, ⟨[start], ⟨start, hstart, hne, rfl⟩, [], .inl rfl, rfl⟩, rfl⟩
    · exact ⟨_, ⟨[start], ⟨start, hstart, hne, rfl⟩, [.code], .inr rfl, rfl⟩, rfl⟩

theorem mem_block : word ∈ block.matches' ↔ word ∈ directive.matches' ∨ word ∈ codeBlock.matches' :=
  Iff.rfl

/-- A word for a template is made of words for blocks. -/
theorem mem_template :
    word ∈ template.matches' ↔
      ∃ words : List (List TokenKind), (∀ w ∈ words, w ∈ block.matches') ∧
        word = words.flatten ++ [.endOfFile] := by
  rw [template, mem_mul_char]
  constructor
  · rintro ⟨_, hstar, rfl⟩
    obtain ⟨words, rfl, hwords⟩ := mem_star.mp hstar
    exact ⟨words, hwords, rfl⟩
  · rintro ⟨words, hwords, rfl⟩
    exact ⟨_, mem_star.mpr ⟨words, rfl, hwords⟩, rfl⟩

/-- A word for a block starts with a block start and has no other. -/
theorem exists_cons_of_mem_block (h : word ∈ block.matches') :
    ∃ start body, word = start :: body ∧ start.isBlockStart ∧
      ∀ kind ∈ body, kind.isBlockStart = false := by
  rcases mem_block.mp h with h | h
  · obtain ⟨count, rfl⟩ := mem_directive.mp h
    refine ⟨_, _, rfl, rfl, ?_⟩
    simp only [List.mem_cons, List.mem_append, List.mem_flatten, List.mem_replicate, attrWord]
    rintro kind (rfl | ⟨_, ⟨-, rfl⟩, hkind⟩ | rfl | hkind)
    · rfl
    · revert hkind
      revert kind
      decide
    · rfl
    · contradiction
  · obtain ⟨start, hstart, -, rfl | rfl⟩ := mem_codeBlock.mp h
    · exact ⟨start, _, rfl, hstart, by decide⟩
    · exact ⟨start, _, rfl, hstart, by decide⟩

/-- A word for a block ends in a block end. -/
theorem exists_append_of_mem_block (h : word ∈ block.matches') :
    ∃ init, word = init ++ [.blockEnd] := by
  rcases mem_block.mp h with h | h
  · obtain ⟨count, rfl⟩ := mem_directive.mp h
    exact ⟨.directiveStart :: .directiveName :: (List.replicate count attrWord).flatten, rfl⟩
  · obtain ⟨start, -, -, rfl | rfl⟩ := mem_codeBlock.mp h
    · exact ⟨[start], rfl⟩
    · exact ⟨[start, .code], rfl⟩

end Words

end TextTemplate.Grammar
