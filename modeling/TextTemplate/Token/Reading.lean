import TextTemplate.Token.Lexeme

/-!
# Readings

`lexFrom mode cs` repeats `step` until the end of the text. It ends because every step either takes
characters away or comes closer to leaving an attribute value: the number `Mode.work` left over
falls with each step, by `work_lt_of_step_token` and `work_lt_of_step_leave`.
-/
namespace TextTemplate

/-- The lexemes of a text, and the characters skipped between the last one and the end. -/
structure Reading where
  lexemes : List Lexeme
  trailing : List Char
deriving DecidableEq

/-- How many more steps without characters a mode allows. -/
def Mode.rank : Mode → Nat
  | .value false => 2
  | .value true => 1
  | _ => 0

/-- A bound on the steps left to read the characters in the mode. -/
def Mode.work (mode : Mode) (cs : List Char) : Nat :=
  3 * cs.length + mode.rank

theorem Mode.rank_le (mode : Mode) : mode.rank ≤ 2 := by
  unfold Mode.rank
  split <;> omega

theorem Mode.rank_after (kind : TokenKind) : (Mode.after kind).rank = 0 := by
  cases kind <;> rfl

theorem append_splitWhere (stop : List Char → Bool) (cs : List Char) :
    (splitWhere stop cs).1 ++ (splitWhere stop cs).2 = cs := by
  fun_induction splitWhere stop cs with
  | case1 => rfl
  | case2 => rfl
  | case3 c cs _ taken rest h ih => simp_all

theorem append_splitOutput (escaped : Bool) (cs : List Char) :
    (splitOutput escaped cs).1 ++ (splitOutput escaped cs).2 = cs := by
  fun_induction splitOutput escaped cs <;> simp_all

theorem append_splitValue (cs : List Char) : (splitValue cs).1 ++ (splitValue cs).2 = cs := by
  fun_induction splitValue cs <;> simp_all

theorem append_delimiter? {cs text rest : List Char} {kind : TokenKind}
    (h : delimiter? cs = some (kind, text, rest)) : text ++ rest = cs ∧ text ≠ [] := by
  fun_cases delimiter? cs <;> grind [delimiter?]

/-- A token for a delimiter splits the characters into the token and the rest. -/
theorem append_of_stepDelimiter {gap cs rest : List Char} {lexeme : Lexeme} {mode : Mode}
    (h : stepDelimiter gap cs = .token lexeme rest mode) :
    lexeme.gap = gap ∧ lexeme.text ++ rest = cs ∧ lexeme.text ≠ [] ∧ mode.rank = 0 := by
  unfold stepDelimiter at h
  split at h
  · rename_i kind text rest' hd
    obtain ⟨rfl, rfl, rfl⟩ := Step.token.inj h
    exact ⟨rfl, (append_delimiter? hd).1, (append_delimiter? hd).2, Mode.rank_after kind⟩
  · contradiction

theorem append_of_stepDirective {named : Bool} {gap cs rest : List Char} {lexeme : Lexeme}
    {mode : Mode} (h : stepDirective named gap cs = .token lexeme rest mode) :
    lexeme.gap = gap ∧ lexeme.text ++ rest = cs ∧ lexeme.text ≠ [] := by
  unfold stepDirective at h
  split at h
  · rename_i kind text rest' hd
    obtain ⟨rfl, rfl, rfl⟩ := Step.token.inj h
    exact ⟨rfl, append_delimiter? hd⟩
  · contradiction
  · obtain ⟨rfl, rfl, rfl⟩ := Step.token.inj h
    simp
  · obtain ⟨rfl, rfl, rfl⟩ := Step.token.inj h
    simp
  · rename_i c cs' _ _ _
    obtain ⟨rfl, rfl, rfl⟩ := Step.token.inj h
    simp [append_splitWhere]

/-- A value is all that is read up to the rest; only an empty value takes no characters. -/
theorem append_of_stepValue {cs rest : List Char} {lexeme : Lexeme} {mode : Mode}
    (h : stepValue cs = .token lexeme rest mode) :
    lexeme.gap = [] ∧ lexeme.text ++ rest = cs ∧ mode = .value true := by
  have happ := append_splitValue cs
  unfold stepValue at h
  split at h <;> simp_all <;> grind

/-- A step that finds a token splits the characters into skipped ones, the token and the rest. -/
theorem append_of_step_token {mode mode' : Mode} {cs rest : List Char} {lexeme : Lexeme}
    (h : step mode cs = .token lexeme rest mode') : lexeme.gap ++ lexeme.text ++ rest = cs := by
  fun_cases step mode cs with
  | case1 cs gap rest' hs =>
    have happ := append_splitOutput false cs
    rw [step, hs] at h
    obtain ⟨hgap, htext, _⟩ := append_of_stepDelimiter h
    simp_all
  | case2 cs rest' hs =>
    have happ := append_splitWhere atDelimiter cs
    rw [step, hs] at h
    obtain ⟨hgap, htext, _⟩ := append_of_stepDelimiter h
    simp_all
  | case3 cs c code rest' hs =>
    have happ := append_splitWhere atDelimiter cs
    rw [step, hs] at h
    grind
  | case4 named cs =>
    rw [step] at h
    obtain ⟨hgap, htext, _⟩ := append_of_stepDirective h
    simp [hgap, htext]
  | case5 => simp [step] at h
  | case6 rest' =>
    rw [step] at h
    grind
  | case7 => simp [step] at h
  | case8 =>
    rw [step] at h
    obtain ⟨hgap, htext, _⟩ := append_of_stepValue h
    simp [hgap, htext]

/-- Only the value between two adjacent quotes is an empty token. -/
theorem text_ne_nil_of_step_token {mode mode' : Mode} {cs rest : List Char} {lexeme : Lexeme}
    (h : step mode cs = .token lexeme rest mode') :
    lexeme.text ≠ [] ∨ mode = .value false ∧ mode' = .value true := by
  fun_cases step mode cs with
  | case1 cs gap rest' hs =>
    rw [step, hs] at h
    exact .inl (append_of_stepDelimiter h).2.2.1
  | case2 cs rest' hs =>
    rw [step, hs] at h
    exact .inl (append_of_stepDelimiter h).2.2.1
  | case3 cs c code rest' hs =>
    rw [step, hs] at h
    obtain ⟨rfl, -, -⟩ := Step.token.inj h
    exact .inl (by simp)
  | case4 named cs =>
    rw [step] at h
    exact .inl (append_of_stepDirective h).2.2
  | case5 => simp [step] at h
  | case6 rest' =>
    rw [step] at h
    obtain ⟨rfl, -, -⟩ := Step.token.inj h
    exact .inl (by simp)
  | case7 => simp [step] at h
  | case8 =>
    rw [step] at h
    exact .inr ⟨rfl, (append_of_stepValue h).2.2⟩

/-- A token takes work off the reader. -/
theorem work_lt_of_step_token {mode mode' : Mode} {cs rest : List Char} {lexeme : Lexeme}
    (h : step mode cs = .token lexeme rest mode') : mode'.work rest < mode.work cs := by
  have hlen := congrArg List.length (append_of_step_token h)
  simp only [List.length_append] at hlen
  have hrank := mode'.rank_le
  rcases text_ne_nil_of_step_token h with hne | ⟨rfl, rfl⟩
  · have := List.length_pos_iff.mpr hne
    simp only [Mode.work]
    omega
  · simp only [Mode.work, Mode.rank]
    omega

/-- Only an attribute value is left without a token, and always for the inside of its directive. -/
theorem eq_of_step_leave {mode mode' : Mode} {cs : List Char} (h : step mode cs = .leave mode') :
    (∃ done, mode = .value done) ∧ mode' = .directive true := by
  fun_cases step mode cs <;> simp_all [step, stepDelimiter, stepDirective, stepValue] <;> grind

/-- A change of mode without a token takes work off the reader. -/
theorem work_lt_of_step_leave {mode mode' : Mode} {cs : List Char}
    (h : step mode cs = .leave mode') : mode'.work cs < mode.work cs := by
  obtain ⟨⟨done, rfl⟩, rfl⟩ := eq_of_step_leave h
  cases done <;> simp [Mode.work, Mode.rank]

/-- What is read from the characters when the reader starts in the mode. -/
def lexFrom (mode : Mode) (cs : List Char) : Reading :=
  match _h : step mode cs with
  | .token lexeme rest mode' =>
    let reading := lexFrom mode' rest
    ⟨lexeme :: reading.lexemes, reading.trailing⟩
  | .leave mode' => lexFrom mode' cs
  | .finish gap => ⟨[], gap⟩
termination_by mode.work cs
decreasing_by
  · exact work_lt_of_step_token ‹_›
  · exact work_lt_of_step_leave ‹_›

/-- What is read from a whole text. -/
def lex (cs : List Char) : Reading :=
  lexFrom .text cs

end TextTemplate
