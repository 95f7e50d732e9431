import TextTemplate.Token.Stream

/-!
# What a step of the reader finds

A step ends at the end of the text only when nothing is left to read, so a reading holds all of the
characters (`chars_lexFrom`), and a token is always found in front of something: an empty value is
only read where a quote follows (`text_append_ne_nil_of_step_token`).

Delimiters are found in the same way in every mode, and the mode after one depends on nothing else
(`delimiter?_and_mode_of_step_token`). In output text nothing but a delimiter is found
(`isDelimiter_of_step_text`).
-/
namespace TextTemplate

/-- The kind is a block start or a block end. -/
def TokenKind.isDelimiter (kind : TokenKind) : Bool :=
  kind.isBlockStart || kind = .blockEnd

theorem TokenKind.isDelimiter_of_isBlockStart {kind : TokenKind} (h : kind.isBlockStart) :
    kind.isDelimiter := by
  simp [isDelimiter, h]

/-! ## Delimiters -/

theorem atDelimiter_cons_cons (c d : Char) (cs : List Char) :
    atDelimiter (c :: d :: cs) = (c = '<' && d = '#' || c = '#' && d = '>') := by
  simp only [atDelimiter]
  split <;> simp_all

theorem isSome_delimiter? (cs : List Char) : (delimiter? cs).isSome = atDelimiter cs := by
  fun_cases delimiter? cs <;> simp_all [atDelimiter]

theorem delimiter?_eq_none_iff {cs : List Char} :
    delimiter? cs = none ↔ atDelimiter cs = false := by
  rw [← isSome_delimiter?, Option.isSome_eq_false_iff, Option.isNone_iff_eq_none]

theorem isDelimiter_of_delimiter? {cs text rest : List Char} {kind : TokenKind}
    (h : delimiter? cs = some (kind, text, rest)) : kind.isDelimiter := by
  fun_cases delimiter? cs <;> simp_all [delimiter?] <;>
    (obtain ⟨rfl, -, -⟩ := h; rfl)

/-- A block start begins with the same two characters whatever its kind. -/
theorem eq_cons_of_delimiter? {cs text rest : List Char} {kind : TokenKind}
    (h : delimiter? cs = some (kind, text, rest)) (hk : kind.isBlockStart) :
    ∃ tail, cs = '<' :: '#' :: tail := by
  fun_cases delimiter? cs with
  | case1 tail | case2 tail | case3 tail => exact ⟨_, rfl⟩
  | case4 tail => exact ⟨_, rfl⟩
  | case5 tail =>
    simp only [delimiter?, Option.some.injEq, Prod.mk.injEq] at h
    rw [← h.1] at hk
    contradiction
  | case6 => simp_all [delimiter?]

/-! ## Scans, one character at a time -/

theorem splitOutput_backslash (escaped : Bool) (cs : List Char) :
    splitOutput escaped ('\\' :: cs) =
      ('\\' :: (splitOutput (!escaped) cs).1, (splitOutput (!escaped) cs).2) := by
  rw [splitOutput]

theorem splitOutput_of_atDelimiter {cs : List Char} (h : atDelimiter cs) :
    splitOutput false cs = ([], cs) := by
  fun_cases splitOutput false cs <;> simp_all [atDelimiter]

theorem splitOutput_escaped {c d : Char} {cs : List Char} (h : atDelimiter (c :: d :: cs)) :
    splitOutput true (c :: d :: cs) =
      (c :: d :: (splitOutput false cs).1, (splitOutput false cs).2) := by
  rw [atDelimiter_cons_cons] at h
  simp only [Bool.or_eq_true, Bool.and_eq_true, decide_eq_true_eq] at h
  rcases h with ⟨rfl, rfl⟩ | ⟨rfl, rfl⟩
  · rw [splitOutput, if_pos rfl]
  · rw [splitOutput, if_pos rfl]

theorem splitOutput_cons {c : Char} {cs : List Char} (escaped : Bool) (hc : c ≠ '\\')
    (h : atDelimiter (c :: cs) = false) :
    splitOutput escaped (c :: cs) = (c :: (splitOutput false cs).1, (splitOutput false cs).2) := by
  rw [splitOutput]
  · exact hc
  · rintro ds rfl rfl
    simp [atDelimiter] at h
  · rintro ds rfl rfl
    simp [atDelimiter] at h

theorem splitValue_escaped (cs : List Char) :
    splitValue ('\\' :: '"' :: cs) = ('\\' :: '"' :: (splitValue cs).1, (splitValue cs).2) := by
  rw [splitValue]

theorem splitValue_cons {c : Char} {cs : List Char} (h : c = '\\' → cs.head? ≠ some '"') :
    splitValue (c :: cs) =
      if c = '"' || atDelimiter (c :: cs) then ([], c :: cs)
      else (c :: (splitValue cs).1, (splitValue cs).2) := by
  rw [splitValue]
  rintro ds rfl rfl
  exact h rfl rfl

theorem stepDirective_of_delimiter? {named : Bool} {gap cs text rest : List Char}
    {kind : TokenKind} (h : delimiter? cs = some (kind, text, rest)) :
    stepDirective named gap cs = .token ⟨gap, kind, text⟩ rest (Mode.after kind) := by
  simp [stepDirective, h]

theorem stepDirective_cons {named : Bool} {gap cs : List Char} {c : Char}
    (h : atDelimiter (c :: cs) = false) :
    stepDirective named gap (c :: cs) =
      if c = '=' then .token ⟨gap, .equals, ['=']⟩ cs (.directive named)
      else if c = '"' then .token ⟨gap, .quote, ['"']⟩ cs (.value false)
      else
        .token ⟨gap, if named then .attributeName else .directiveName,
          c :: (splitWhere atNameEnd cs).1⟩ (splitWhere atNameEnd cs).2 (.directive true) := by
  have hnone := delimiter?_eq_none_iff.mpr h
  unfold stepDirective
  split <;> simp_all

/-! ## Nothing is lost -/

theorem atDelimiter_splitWhere (cs : List Char) :
    (splitWhere atDelimiter cs).2 = [] ∨ atDelimiter (splitWhere atDelimiter cs).2 := by
  fun_induction splitWhere atDelimiter cs with
  | case1 => exact .inl rfl
  | case2 c cs h => exact .inr h
  | case3 c cs _ taken rest h ih => simpa [h] using ih

theorem atDelimiter_splitOutput (escaped : Bool) (cs : List Char) :
    (splitOutput escaped cs).2 = [] ∨ atDelimiter (splitOutput escaped cs).2 := by
  fun_induction splitOutput escaped cs <;> simp_all [atDelimiter]

/-- Where a stretch of text has come to a delimiter or the end, no step is without a token unless
nothing is left. -/
theorem eq_nil_of_stepDelimiter_finish {gap gap' cs : List Char}
    (hcs : cs = [] ∨ atDelimiter cs) (h : stepDelimiter gap cs = .finish gap') :
    cs = [] ∧ gap' = gap := by
  unfold stepDelimiter at h
  split at h
  · contradiction
  · rename_i hd
    rcases hcs with rfl | hcs
    · exact ⟨rfl, (Step.finish.inj h).symm⟩
    · rw [← isSome_delimiter?, hd] at hcs
      contradiction

/-- A step that finds the end has skipped everything that was left. -/
theorem eq_of_step_finish {mode : Mode} {cs gap : List Char} (h : step mode cs = .finish gap) :
    gap = cs := by
  fun_cases step mode cs with
  | case1 cs gap' rest hs =>
    have happ := append_splitOutput false cs
    have hrest := atDelimiter_splitOutput false cs
    rw [step, hs] at h
    rw [hs] at happ hrest
    obtain ⟨rfl, rfl⟩ := eq_nil_of_stepDelimiter_finish hrest h
    simpa using happ
  | case2 cs rest hs =>
    have happ := append_splitWhere atDelimiter cs
    have hrest := atDelimiter_splitWhere cs
    rw [step, hs] at h
    rw [hs] at happ hrest
    obtain ⟨rfl, rfl⟩ := eq_nil_of_stepDelimiter_finish hrest h
    simpa using happ
  | case3 cs c code rest hs =>
    rw [step, hs] at h
    contradiction
  | case4 named cs =>
    rw [step] at h
    unfold stepDirective at h
    split at h <;> try contradiction
    rename_i hnil
    obtain rfl := Step.finish.inj h
    have happ := List.takeWhile_append_dropWhile (p := isBlank) (l := cs)
    rwa [hnil, List.append_nil] at happ
  | case5 => simpa [step] using h.symm
  | case6 rest => simp [step] at h
  | case7 head tail hne => simp [step] at h
  | case8 =>
    have happ := append_splitValue cs
    rw [step, stepValue] at h
    split at h <;> try contradiction
    rename_i hs
    rw [hs] at happ
    rw [← Step.finish.inj h, ← happ]
    rfl

theorem text_append_ne_nil_of_step_token {mode mode' : Mode} {cs rest : List Char}
    {lexeme : Lexeme} (h : step mode cs = .token lexeme rest mode') :
    lexeme.text ++ rest ≠ [] := by
  rcases text_ne_nil_of_step_token h with hne | ⟨rfl, rfl⟩
  · simp [hne]
  · -- an empty value is read in front of its closing quote only
    rw [step, stepValue] at h
    split at h <;> cases h <;> simp

/-- The characters that a lexeme takes: those skipped before it and its own. -/
def Lexeme.chars (lexeme : Lexeme) : List Char :=
  lexeme.gap ++ lexeme.text

section Unfold
variable {mode mode' : Mode} {cs rest gap : List Char} {lexeme : Lexeme}

theorem lexFrom_of_token (h : step mode cs = .token lexeme rest mode') :
    lexFrom mode cs = ⟨lexeme :: (lexFrom mode' rest).lexemes, (lexFrom mode' rest).trailing⟩ := by
  rw [lexFrom]
  split <;> simp_all

theorem lexFrom_of_leave (h : step mode cs = .leave mode') :
    lexFrom mode cs = lexFrom mode' cs := by
  rw [lexFrom]
  split <;> simp_all

theorem lexFrom_of_finish (h : step mode cs = .finish gap) : lexFrom mode cs = ⟨[], gap⟩ := by
  rw [lexFrom]
  split <;> simp_all

end Unfold

/-- A reading holds the characters that were read. -/
theorem chars_lexFrom (mode : Mode) (cs : List Char) :
    (lexFrom mode cs).lexemes.flatMap Lexeme.chars ++ (lexFrom mode cs).trailing = cs := by
  fun_induction lexFrom mode cs with
  | case1 mode cs lexeme rest mode' h reading ih =>
    rw [List.flatMap_cons, List.append_assoc, ih]
    exact append_of_step_token h
  | case2 mode cs mode' h ih => exact ih
  | case3 mode cs gap h => exact eq_of_step_finish h

/-! ## Kinds and modes -/

section Delimiters
variable {gap cs rest : List Char} {lexeme : Lexeme} {mode mode' : Mode}

theorem delimiter?_of_stepDelimiter (h : stepDelimiter gap cs = .token lexeme rest mode') :
    delimiter? cs = some (lexeme.kind, lexeme.text, rest) ∧ mode' = Mode.after lexeme.kind := by
  unfold stepDelimiter at h
  split at h
  · rename_i hd
    obtain ⟨rfl, rfl, rfl⟩ := Step.token.inj h
    exact ⟨hd, rfl⟩
  · contradiction

theorem delimiter?_of_stepDirective {named : Bool}
    (h : stepDirective named gap cs = .token lexeme rest mode') (hk : lexeme.kind.isDelimiter) :
    delimiter? cs = some (lexeme.kind, lexeme.text, rest) ∧ mode' = Mode.after lexeme.kind := by
  unfold stepDirective at h
  split at h
  · rename_i hd
    obtain ⟨rfl, rfl, rfl⟩ := Step.token.inj h
    exact ⟨hd, rfl⟩
  · contradiction
  · obtain ⟨rfl, -, -⟩ := Step.token.inj h
    contradiction
  · obtain ⟨rfl, -, -⟩ := Step.token.inj h
    contradiction
  · obtain ⟨rfl, -, -⟩ := Step.token.inj h
    cases named <;> contradiction

theorem kind_of_stepValue (h : stepValue cs = .token lexeme rest mode') :
    lexeme.kind = .attributeValue := by
  unfold stepValue at h
  split at h <;> cases h <;> rfl

/-- Delimiters are found in the same way in every mode. -/
theorem delimiter?_and_mode_of_step_token (h : step mode cs = .token lexeme rest mode')
    (hk : lexeme.kind.isDelimiter) :
    delimiter? (lexeme.text ++ rest) = some (lexeme.kind, lexeme.text, rest) ∧
      mode' = Mode.after lexeme.kind := by
  fun_cases step mode cs with
  | case1 cs gap rest' hs =>
    rw [step, hs] at h
    rw [(append_of_stepDelimiter h).2.1]
    exact delimiter?_of_stepDelimiter h
  | case2 cs rest' hs =>
    rw [step, hs] at h
    rw [(append_of_stepDelimiter h).2.1]
    exact delimiter?_of_stepDelimiter h
  | case3 cs c code rest' hs =>
    rw [step, hs] at h
    obtain ⟨rfl, -, -⟩ := Step.token.inj h
    contradiction
  | case4 named cs =>
    rw [step] at h
    rw [(append_of_stepDirective h).2.1]
    exact delimiter?_of_stepDirective h hk
  | case5 => simp [step] at h
  | case6 rest' =>
    rw [step] at h
    obtain ⟨rfl, -, -⟩ := Step.token.inj h
    contradiction
  | case7 => simp [step] at h
  | case8 =>
    rw [step] at h
    rw [kind_of_stepValue h] at hk
    contradiction

/-- In output text nothing but a delimiter is found. -/
theorem isDelimiter_of_step_text (h : step .text cs = .token lexeme rest mode') :
    lexeme.kind.isDelimiter := by
  rw [step] at h
  exact isDelimiter_of_delimiter? (delimiter?_of_stepDelimiter h).1

end Delimiters

end TextTemplate
