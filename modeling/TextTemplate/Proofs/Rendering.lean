import Mathlib.Data.List.DropRight
import Mathlib.Algebra.Group.Nat.Even
import TextTemplate.Proofs.Readings

/-!
# Templates written out

A well-formed template is a list of pieces: output text, code blocks and directives. The texts in
them carry the proof that nothing in them is taken for something else, and `render` writes the
pieces one after the other, a directive with single spaces. Reading what was written gives exactly
the tokens of the pieces (`spellings_render`).

The conditions on the texts are about the places where two texts meet. Inside of a text no
delimiter may stand (`Undelimited`), and none may come about across its end (`Apart`): code that
ends in `<` would make a block start of the `#` after it. In output text the backslashes at the end
count, since they would escape the block start of the next piece.
-/
namespace TextTemplate

/-! ## Pieces -/

/-- The text has no delimiter in it. -/
def Undelimited (cs : List Char) : Prop :=
  ¬ ['<', '#'] <:+: cs ∧ ¬ ['#', '>'] <:+: cs

instance (cs : List Char) : Decidable (Undelimited cs) :=
  inferInstanceAs (Decidable (¬ _ ∧ ¬ _))

/-- Output text without a `#`; an even number of backslashes stands at its end. -/
structure PlainOutput where
  chars : List Char
  no_hash : '#' ∉ chars
  even_backslashes : Even (chars.rtakeWhile (· = '\\')).length

/-- The code of a block that opens with the kind. -/
structure PlainCode (start : TokenKind) where
  chars : List Char
  undelimited : Undelimited chars
  last_ne : chars.getLast? ≠ some '<'
  /-- The other block starts are longer than that of a statement block. -/
  head_ne : start = .statementStart → ∀ c ∈ chars.head?, c ≠ '=' ∧ c ≠ '+' ∧ c ≠ '@'

/-- The name of a directive or an attribute. -/
structure PlainName where
  chars : List Char
  ne_nil : chars ≠ []
  undelimited : Undelimited chars
  plain : ∀ c ∈ chars, isBlank c = false ∧ c ≠ '=' ∧ c ≠ '"'

/-- The value of an attribute; a backslash at its end would escape the closing quote. -/
structure PlainValue where
  chars : List Char
  undelimited : Undelimited chars
  no_quote : '"' ∉ chars
  last_ne : chars.getLast? ≠ some '\\'

/-- A part of a template that can be written out on its own. -/
inductive Piece where
  | output (text : PlainOutput)
  | code (start : TokenKind) (hstart : start.isBlockStart ∧ start ≠ .directiveStart)
      (inner : PlainCode start)
  | directive (name : PlainName) (attributes : List (PlainName × PlainValue))

/-- The characters of a block start. -/
def TokenKind.opening : TokenKind → List Char
  | statementStart => ['<', '#']
  | expressionStart => ['<', '#', '=']
  | classStart => ['<', '#', '+']
  | directiveStart => ['<', '#', '@']
  | _ => []

/-- An attribute as it is written, after a space. -/
def attributeChars (attr : PlainName × PlainValue) : List Char :=
  ' ' :: attr.1.chars ++ '=' :: '"' :: attr.2.chars ++ ['"']

namespace Piece

/-- A piece as it is written. -/
def chars : Piece → List Char
  | output text => text.chars
  | code start _ inner => start.opening ++ inner.chars ++ ['#', '>']
  | directive name attrs =>
    TokenKind.directiveStart.opening ++ ' ' :: name.chars ++ attrs.flatMap attributeChars ++
      [' ', '#', '>']

end Piece

/-- The pieces written out one after the other. -/
def render (pieces : List Piece) : String :=
  String.ofList (pieces.flatMap Piece.chars)

/-- A `<` in front of a block start and a `#` in front of a block end change nothing. -/
example :
    render [.output ⟨['a', '<'], by decide, by decide⟩,
      .code .statementStart ⟨rfl, by decide⟩ ⟨['x', '#'], by decide, by decide, by simp⟩] =
        "a<<#x##>" := by
  decide

/-! ## Scans of plain text -/

/-- No delimiter stands across the end of the first text. -/
def Apart (as bs : List Char) : Prop :=
  ∀ c ∈ as.getLast?, ∀ d ∈ bs.head?, atDelimiter [c, d] = false

theorem apart_of_head {bs : List Char} (h : ∀ d ∈ bs.head?, d ≠ '#' ∧ d ≠ '>') (as : List Char) :
    Apart as bs := by
  intro c _ d hd
  rw [atDelimiter_cons_cons]
  simp [h d hd]

/-- No delimiter starts in a plain text that stays apart from what comes after it. -/
theorem Undelimited.atDelimiter_append {text rest cs : List Char} {c : Char}
    (htext : Undelimited text) (hapart : Apart text rest) (hsuffix : c :: cs <:+ text) :
    atDelimiter (c :: cs ++ rest) = false := by
  obtain ⟨before, rfl⟩ := hsuffix
  cases cs with
  | nil =>
    cases rest with
    | nil => simp [atDelimiter]
    | cons d rest =>
      have hpair := hapart c (by simp) d (by simp)
      rw [atDelimiter_cons_cons] at hpair
      rwa [List.singleton_append, atDelimiter_cons_cons]
  | cons d cs =>
    rw [List.cons_append, List.cons_append, atDelimiter_cons_cons]
    by_contra hpair
    simp only [Bool.not_eq_false, Bool.or_eq_true, Bool.and_eq_true, decide_eq_true_eq] at hpair
    rcases hpair with ⟨rfl, rfl⟩ | ⟨rfl, rfl⟩
    · exact htext.1 ⟨before, cs, by simp⟩
    · exact htext.2 ⟨before, cs, by simp⟩

theorem splitWhere_of_suffix {stop : List Char → Bool} {text rest : List Char}
    (h : ∀ c cs, c :: cs <:+ text → stop (c :: cs ++ rest) = false) (hrest : stop rest = true) :
    splitWhere stop (text ++ rest) = (text, rest) := by
  induction text with
  | nil =>
    cases rest with
    | nil => rfl
    | cons d rest => simp [splitWhere, hrest]
  | cons c text ih =>
    have hc := h c text List.suffix_rfl
    have htext := ih fun d ds hs => h d ds (hs.trans (List.suffix_cons c text))
    rw [List.cons_append] at hc ⊢
    simp [splitWhere, hc, htext]

theorem splitValue_plain (value : PlainValue) (rest : List Char) :
    splitValue (value.chars ++ '"' :: rest) = (value.chars, '"' :: rest) := by
  have happ : ∀ c cs, c :: cs <:+ value.chars → atDelimiter (c :: cs ++ '"' :: rest) = false :=
    fun c cs => value.undelimited.atDelimiter_append (apart_of_head (by simp) _)
  have hquote : ∀ c ∈ value.chars, c ≠ '"' := fun c hc h => value.no_quote (h ▸ hc)
  have hlast := value.last_ne
  generalize value.chars = text at happ hquote hlast
  induction text with
  | nil => simp [splitValue_cons]
  | cons c text ih =>
    have hc := happ c text List.suffix_rfl
    have hescape : c = '\\' → (text ++ '"' :: rest).head? ≠ some '"' := by
      rintro rfl
      cases text with
      | nil => simp at hlast
      | cons d text => simp [hquote d (by simp)]
    have htext : splitValue (text ++ '"' :: rest) = (text, '"' :: rest) := by
      apply ih
      · exact fun d ds hs => happ d ds (hs.trans (List.suffix_cons c text))
      · exact fun d hd => hquote d (List.mem_cons_of_mem c hd)
      · cases text <;> simp_all
    rw [List.cons_append] at hc ⊢
    rw [splitValue_cons hescape, htext, hc]
    simp [hquote c List.mem_cons_self]

/-- Whether the number of backslashes before the next character is odd. -/
def escapedAfter (escaped : Bool) (cs : List Char) : Bool :=
  cs.foldl (fun e c => c = '\\' && !e) escaped

theorem escapedAfter_eq_false_iff (cs : List Char) :
    escapedAfter false cs = false ↔ Even (cs.rtakeWhile (· = '\\')).length := by
  induction cs using List.reverseRecOn with
  | nil => simp [escapedAfter]
  | append_singleton cs c ih =>
    rw [escapedAfter, List.foldl_append] at *
    by_cases hc : c = '\\'
    · simp [hc, Nat.even_add_one, ← ih]
    · simp [hc]

theorem splitOutput_plain {text rest : List Char} (htext : '#' ∉ text)
    (hrest : rest.head? ≠ some '#') (escaped : Bool) :
    splitOutput escaped (text ++ rest) =
      (text ++ (splitOutput (escapedAfter escaped text) rest).1,
        (splitOutput (escapedAfter escaped text) rest).2) := by
  induction text generalizing escaped with
  | nil => rfl
  | cons c text ih =>
    obtain ⟨hc, hmem⟩ := List.ne_and_not_mem_of_not_mem_cons htext
    by_cases hb : c = '\\'
    · subst hb
      rw [List.cons_append, splitOutput_backslash, ih hmem]
      simp [escapedAfter]
    · -- without a `#` at either place, `c` and the next character are no delimiter
      have hd : atDelimiter (c :: (text ++ rest)) = false := by
        cases h : text ++ rest with
        | nil => simp [atDelimiter]
        | cons d ds =>
          have hne : d ≠ '#' := by
            rintro rfl
            cases text <;> simp_all
          rw [atDelimiter_cons_cons]
          simp [hne, Ne.symm hc]
      rw [List.cons_append, splitOutput_cons escaped hb hd, ih hmem]
      simp [escapedAfter, hb]

/-! ## Reading what was written -/

/-- The kinds and characters of the tokens of a reading, without their places. -/
def Reading.spellings (reading : Reading) : List (TokenKind × List Char) :=
  reading.lexemes.map fun lexeme => (lexeme.kind, lexeme.text)

section Steps
variable {mode mode' : Mode} {cs rest : List Char}

theorem spellings_of_step {gap text : List Char} {kind : TokenKind}
    (h : step mode cs = .token ⟨gap, kind, text⟩ rest mode') :
    (lexFrom mode cs).spellings = (kind, text) :: (lexFrom mode' rest).spellings := by
  rw [lexFrom_of_token h]
  rfl

/-- Output text is skipped. -/
theorem spellings_output (text : PlainOutput) (hrest : rest.head? ≠ some '#') :
    (lexFrom .text (text.chars ++ rest)).spellings = (lexFrom .text rest).spellings := by
  -- both readings find the same delimiter, one of them after a longer gap
  have hescaped := (escapedAfter_eq_false_iff text.chars).mpr text.even_backslashes
  have hwhole : step .text (text.chars ++ rest) =
      stepDelimiter (text.chars ++ (splitOutput false rest).1) (splitOutput false rest).2 := by
    rw [step, splitOutput_plain text.no_hash hrest, hescaped]
  have hrest : step .text rest =
      stepDelimiter (splitOutput false rest).1 (splitOutput false rest).2 := rfl
  unfold stepDelimiter at hwhole hrest
  cases hd : delimiter? (splitOutput false rest).2 with
  | none =>
    rw [hd] at hwhole hrest
    rw [lexFrom_of_finish hwhole, lexFrom_of_finish hrest]
    rfl
  | some found =>
    rw [hd] at hwhole hrest
    rw [spellings_of_step hwhole, spellings_of_step hrest]

theorem opening_eq_cons {start : TokenKind} (hstart : start.isBlockStart) :
    ∃ cs, start.opening = '<' :: cs := by
  cases start with
  | statementStart | expressionStart | classStart | directiveStart => exact ⟨_, rfl⟩
  | _ => contradiction

theorem Mode.after_eq_code {start : TokenKind} (hstart : start.isBlockStart)
    (hne : start ≠ .directiveStart) : Mode.after start = .code := by
  cases start with
  | statementStart | expressionStart | classStart => rfl
  | _ => contradiction

theorem delimiter?_opening {start : TokenKind} (hstart : start.isBlockStart)
    (hrest : start = .statementStart → ∀ c ∈ rest.head?, c ≠ '=' ∧ c ≠ '+' ∧ c ≠ '@') :
    delimiter? (start.opening ++ rest) = some (start, start.opening, rest) := by
  cases start with
  | statementStart =>
    cases rest with
    | nil => rfl
    | cons c rest =>
      obtain ⟨h₁, h₂, h₃⟩ := hrest rfl c rfl
      simp only [TokenKind.opening, List.cons_append, List.nil_append]
      unfold delimiter?
      split <;> simp_all
  | expressionStart | classStart | directiveStart => rfl
  | _ => contradiction

theorem spellings_opening {start : TokenKind} (hstart : start.isBlockStart)
    (hrest : start = .statementStart → ∀ c ∈ rest.head?, c ≠ '=' ∧ c ≠ '+' ∧ c ≠ '@') :
    (lexFrom .text (start.opening ++ rest)).spellings =
      (start, start.opening) :: (lexFrom (Mode.after start) rest).spellings := by
  have hd := delimiter?_opening hstart hrest
  have hat : atDelimiter (start.opening ++ rest) = true := by
    rw [← isSome_delimiter?, hd]
    rfl
  have hstep : step .text (start.opening ++ rest) =
      .token ⟨[], start, start.opening⟩ rest (Mode.after start) := by
    rw [step, splitOutput_of_atDelimiter hat]
    simp only [stepDelimiter, hd]
  exact spellings_of_step hstep

theorem spellings_code {start : TokenKind} (code : PlainCode start) :
    (lexFrom .code (code.chars ++ '#' :: '>' :: rest)).spellings =
      (if code.chars = [] then [] else [(.code, code.chars)]) ++
        (.blockEnd, ['#', '>']) :: (lexFrom .text rest).spellings := by
  have hsplit : splitWhere atDelimiter (code.chars ++ '#' :: '>' :: rest) =
      (code.chars, '#' :: '>' :: rest) := by
    refine splitWhere_of_suffix (fun c cs hs => code.undelimited.atDelimiter_append ?_ hs) rfl
    intro d hd e he
    obtain rfl := Option.some.inj he
    have hne : d ≠ '<' := fun h => code.last_ne (h ▸ hd)
    rw [atDelimiter_cons_cons]
    simp [hne]
  have hend : (lexFrom .code ('#' :: '>' :: rest)).spellings =
      (.blockEnd, ['#', '>']) :: (lexFrom .text rest).spellings := by
    have hstep : step .code ('#' :: '>' :: rest) =
        .token ⟨[], .blockEnd, ['#', '>']⟩ rest .text := rfl
    exact spellings_of_step hstep
  cases hcode : code.chars with
  | nil =>
    rw [List.nil_append, hend]
    rfl
  | cons c cs =>
    rw [hcode] at hsplit
    have hstep : step .code (c :: cs ++ '#' :: '>' :: rest) =
        .token ⟨[], .code, c :: cs⟩ ('#' :: '>' :: rest) .code := by
      rw [step, hsplit]
    rw [spellings_of_step hstep, hend]
    rfl

theorem spellings_name (named : Bool) (name : PlainName) (hend : atNameEnd rest = true)
    (hrest : ∀ c ∈ rest.head?, c ≠ '#' ∧ c ≠ '>') :
    (lexFrom (.directive named) (' ' :: (name.chars ++ rest))).spellings =
      (if named then .attributeName else .directiveName, name.chars) ::
        (lexFrom (.directive true) rest).spellings := by
  have hat : ∀ c cs, c :: cs <:+ name.chars → atDelimiter (c :: cs ++ rest) = false :=
    fun c cs => name.undelimited.atDelimiter_append (apart_of_head hrest _)
  have hplain := name.plain
  obtain ⟨c, cs, hname⟩ := List.exists_cons_of_ne_nil name.ne_nil
  rw [hname] at hat hplain ⊢
  obtain ⟨hblank, heq, hquote⟩ := hplain c List.mem_cons_self
  have hsplit : splitWhere atNameEnd (cs ++ rest) = (cs, rest) := by
    refine splitWhere_of_suffix (fun d ds hs => ?_) hend
    have hd := hat d ds (hs.trans (List.suffix_cons c cs))
    obtain ⟨h₁, h₂, h₃⟩ := hplain d (List.mem_cons_of_mem c (hs.subset List.mem_cons_self))
    rw [List.cons_append] at hd ⊢
    simp [atNameEnd, h₁, h₂, h₃, hd]
  have hblanks : (' ' :: (c :: cs ++ rest)).takeWhile isBlank = [' '] ∧
      (' ' :: (c :: cs ++ rest)).dropWhile isBlank = c :: (cs ++ rest) := by
    have hspace : isBlank ' ' = true := by decide
    simp [hspace, hblank]
  have hstep : step (.directive named) (' ' :: (c :: cs ++ rest)) =
      .token ⟨[' '], if named then .attributeName else .directiveName, c :: cs⟩ rest
        (.directive true) := by
    have hc : atDelimiter (c :: (cs ++ rest)) = false := hat c cs List.suffix_rfl
    rw [step, hblanks.1, hblanks.2, stepDirective_cons hc, if_neg heq, if_neg hquote, hsplit]
  exact spellings_of_step hstep

theorem spellings_value (value : PlainValue) :
    (lexFrom (.value false) (value.chars ++ '"' :: rest)).spellings =
      (.attributeValue, value.chars) :: (.quote, ['"']) ::
        (lexFrom (.directive true) rest).spellings := by
  have hvalue : step (.value false) (value.chars ++ '"' :: rest) =
      .token ⟨[], .attributeValue, value.chars⟩ ('"' :: rest) (.value true) := by
    rw [step, stepValue, splitValue_plain]
    cases value.chars <;> rfl
  have hquote : step (.value true) ('"' :: rest) =
      .token ⟨[], .quote, ['"']⟩ rest (.directive true) := rfl
  rw [spellings_of_step hvalue, spellings_of_step hquote]

/-- The tokens of an attribute. -/
def attributeSpellings (attr : PlainName × PlainValue) : List (TokenKind × List Char) :=
  [(.attributeName, attr.1.chars), (.equals, ['=']), (.quote, ['"']),
    (.attributeValue, attr.2.chars), (.quote, ['"'])]

theorem spellings_attribute (attr : PlainName × PlainValue) :
    (lexFrom (.directive true) (attributeChars attr ++ rest)).spellings =
      attributeSpellings attr ++ (lexFrom (.directive true) rest).spellings := by
  have happ : attributeChars attr ++ rest =
      ' ' :: (attr.1.chars ++ '=' :: '"' :: (attr.2.chars ++ '"' :: rest)) := by
    simp [attributeChars]
  have hequals : step (.directive true) ('=' :: '"' :: (attr.2.chars ++ '"' :: rest)) =
      .token ⟨[], .equals, ['=']⟩ ('"' :: (attr.2.chars ++ '"' :: rest)) (.directive true) := by
    rfl
  have hquote : step (.directive true) ('"' :: (attr.2.chars ++ '"' :: rest)) =
      .token ⟨[], .quote, ['"']⟩ (attr.2.chars ++ '"' :: rest) (.value false) := by
    rfl
  rw [happ, spellings_name true attr.1 rfl (by simp), spellings_of_step hequals,
    spellings_of_step hquote, spellings_value]
  rfl

theorem spellings_attributes (attrs : List (PlainName × PlainValue)) :
    (lexFrom (.directive true) (attrs.flatMap attributeChars ++ rest)).spellings =
      attrs.flatMap attributeSpellings ++ (lexFrom (.directive true) rest).spellings := by
  induction attrs with
  | nil => rfl
  | cons attr attrs ih =>
    rw [List.flatMap_cons, List.flatMap_cons, List.append_assoc, spellings_attribute, ih,
      List.append_assoc]

end Steps

namespace Piece

/-- The tokens of a piece. -/
def spellings : Piece → List (TokenKind × List Char)
  | output _ => []
  | code start _ inner =>
    (start, start.opening) ::
      ((if inner.chars = [] then [] else [(.code, inner.chars)]) ++ [(.blockEnd, ['#', '>'])])
  | directive name attrs =>
    (.directiveStart, TokenKind.directiveStart.opening) :: (.directiveName, name.chars) ::
      (attrs.flatMap attributeSpellings ++ [(.blockEnd, ['#', '>'])])

/-- A piece is read as its tokens, and what comes after it as if it stood alone. -/
theorem spellings_append (piece : Piece) {rest : List Char} (hrest : rest.head? ≠ some '#') :
    (lexFrom .text (piece.chars ++ rest)).spellings =
      piece.spellings ++ (lexFrom .text rest).spellings := by
  cases piece with
  | output text => exact spellings_output text hrest
  | code start hstart inner =>
    have happ : (code start hstart inner).chars ++ rest =
        start.opening ++ (inner.chars ++ '#' :: '>' :: rest) := by
      simp [chars]
    have hhead : start = .statementStart → ∀ c ∈ (inner.chars ++ '#' :: '>' :: rest).head?,
        c ≠ '=' ∧ c ≠ '+' ∧ c ≠ '@' := by
      intro h c hc
      cases hinner : inner.chars with
      | nil =>
        rw [hinner] at hc
        obtain rfl := Option.some.inj hc
        decide
      | cons d ds =>
        rw [hinner] at hc
        exact inner.head_ne h c (by rw [hinner]; exact hc)
    rw [happ, spellings_opening hstart.1 hhead, Mode.after_eq_code hstart.1 hstart.2,
      spellings_code]
    simp [spellings]
  | directive name attrs =>
    have happ : (directive name attrs).chars ++ rest =
        TokenKind.directiveStart.opening ++ (' ' :: (name.chars ++
          (attrs.flatMap attributeChars ++ ' ' :: '#' :: '>' :: rest))) := by
      simp [chars]
    have hhead : ∃ cs, attrs.flatMap attributeChars ++ ' ' :: '#' :: '>' :: rest = ' ' :: cs := by
      cases attrs with
      | nil => exact ⟨_, rfl⟩
      | cons attr attrs => exact ⟨_, rfl⟩
    have hend : step (.directive true) (' ' :: '#' :: '>' :: rest) =
        .token ⟨[' '], .blockEnd, ['#', '>']⟩ rest .text := rfl
    obtain ⟨cs, hcs⟩ := hhead
    rw [happ, spellings_opening rfl (by simp), Mode.after,
      spellings_name false name (by rw [hcs]; rfl) (by simp [hcs]), spellings_attributes,
      spellings_of_step hend]
    simp [spellings]

end Piece

theorem head?_chars_ne (pieces : List Piece) :
    (pieces.flatMap Piece.chars).head? ≠ some '#' := by
  induction pieces with
  | nil => simp
  | cons piece pieces ih =>
    rw [List.flatMap_cons]
    cases piece with
    | output text =>
      have hmem := text.no_hash
      rw [Piece.chars]
      cases htext : text.chars with
      | nil => exact ih
      | cons c cs =>
        rw [htext] at hmem
        have hne : c ≠ '#' := (List.ne_of_not_mem_cons hmem).symm
        simp [hne]
    | code start hstart inner =>
      obtain ⟨cs, hcs⟩ := opening_eq_cons hstart.1
      simp [Piece.chars, hcs]
    | directive name attrs => simp [Piece.chars, TokenKind.opening]

/-- Reading pieces that were written out gives the tokens of the pieces. -/
theorem spellings_render (pieces : List Piece) :
    (lex (pieces.flatMap Piece.chars)).spellings = pieces.flatMap Piece.spellings := by
  induction pieces with
  | nil =>
    have hstep : step .text [] = .finish [] := rfl
    rw [List.flatMap_nil, lex, lexFrom_of_finish hstep]
    rfl
  | cons piece pieces ih =>
    rw [lex] at ih ⊢
    rw [List.flatMap_cons, List.flatMap_cons, piece.spellings_append (head?_chars_ne pieces), ih]

end TextTemplate
