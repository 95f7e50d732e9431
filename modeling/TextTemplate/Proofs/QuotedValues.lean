import Mathlib.Data.List.Chain
import TextTemplate.Proofs.Tiling

/-!
# Values stand in quotes

A value is only found directly after the quote that opens it, and after a value comes the quote that
closes it, a delimiter or the end (`quotesFit_lexFrom`). So whoever keeps account of the quotes
(`Quoting`) knows where a value can come next and where none can.

This matters since a value between two adjacent quotes has no characters. All other tokens have some
(`start_lt_stop_of_mem_scan`), the one at the end of the file apart. The quote after a value, if it
is the next token, is the next character too (`closedBy_of_infix`), so an empty value stands where
its closing quote does.
-/
namespace TextTemplate

/-- What the last tokens have left open. -/
inductive Quoting where
  | outside
  /-- After the opening quote of a value. -/
  | opened
  /-- After a value, in front of its closing quote. -/
  | valued
deriving DecidableEq

/-- What is left open after one more token. -/
def Quoting.after : Quoting → TokenKind → Quoting
  | outside, .quote => opened
  | opened, .attributeValue => valued
  | _, _ => outside

/-- Values are found after opening quotes only. -/
def QuotesFit : Quoting → List TokenKind → Prop
  | _, [] => True
  | quoting, kind :: kinds =>
    (kind = .attributeValue → quoting = .opened) ∧ QuotesFit (quoting.after kind) kinds

theorem QuotesFit.right_of_append {quoting : Quoting} {kinds kinds' : List TokenKind}
    (h : QuotesFit quoting (kinds ++ kinds')) :
    QuotesFit (kinds.foldl Quoting.after quoting) kinds' := by
  induction kinds generalizing quoting with
  | nil => exact h
  | cons kind kinds ih => exact ih h.2

/-- What is left open in front of a delimiter makes no difference. -/
theorem Quoting.after_of_isDelimiter {kind : TokenKind} (h : kind.isDelimiter = true)
    (quoting : Quoting) : quoting.after kind = .outside := by
  cases quoting <;> cases kind <;> first | rfl | contradiction

theorem Quoting.eq_of_after_eq_valued {quoting : Quoting} {kind : TokenKind}
    (h : quoting.after kind = .valued) : kind = .attributeValue := by
  cases quoting <;> cases kind <;> first | rfl | contradiction

theorem Quoting.eq_of_after_eq_opened {quoting : Quoting} {kind : TokenKind}
    (h : quoting.after kind = .opened) : kind = .quote := by
  cases quoting <;> cases kind <;> first | rfl | contradiction

/-! ## Modes -/

/-- What is left open in a mode. -/
def Mode.quoting : Mode → Quoting
  | .value false => .opened
  | .value true => .valued
  | _ => .outside

theorem Mode.eq_of_quoting_eq_valued {mode : Mode} (h : mode.quoting = .valued) :
    mode = .value true := by
  cases mode with
  | value done => cases done <;> first | rfl | contradiction
  | _ => contradiction

/-- The characters begin with a quote or a delimiter, or there are none. -/
def AtValueEnd (cs : List Char) : Prop :=
  cs = [] ∨ cs.head? = some '"' ∨ atDelimiter cs = true

theorem atValueEnd_splitValue (cs : List Char) : AtValueEnd (splitValue cs).2 := by
  fun_induction splitValue cs with
  | case1 => exact .inl rfl
  | case2 cs value rest h ih => rwa [h] at ih
  | case3 c cs _ hstop =>
    rw [Bool.or_eq_true, decide_eq_true_eq] at hstop
    rcases hstop with rfl | hstop
    · exact .inr (.inl rfl)
    · exact .inr (.inr hstop)
  | case4 c cs _ _ value rest h ih => rwa [h] at ih

section Steps
variable {mode mode' : Mode} {gap cs rest : List Char} {lexeme : Lexeme}

theorem quoting_after (kind : TokenKind) : (Mode.after kind).quoting = .outside := by
  cases kind <;> rfl

/-- After a delimiter nothing is left open, whatever was so before. -/
theorem quoting_of_isDelimiter {kind : TokenKind} (h : kind.isDelimiter = true)
    (quoting : Quoting) :
    kind ≠ .attributeValue ∧ (Mode.after kind).quoting = quoting.after kind := by
  rw [quoting_after, Quoting.after_of_isDelimiter h]
  refine ⟨?_, rfl⟩
  rintro rfl
  contradiction

theorem quoting_of_stepDirective {named : Bool}
    (h : stepDirective named gap cs = .token lexeme rest mode') :
    lexeme.kind ≠ .attributeValue ∧ mode'.quoting = Quoting.outside.after lexeme.kind := by
  by_cases hk : lexeme.kind.isDelimiter
  · obtain ⟨-, rfl⟩ := delimiter?_of_stepDirective h hk
    exact quoting_of_isDelimiter hk _
  · unfold stepDirective at h
    split at h
    · rename_i hd
      obtain ⟨rfl, -, -⟩ := Step.token.inj h
      exact absurd (isDelimiter_of_delimiter? hd) hk
    · contradiction
    · obtain ⟨rfl, -, rfl⟩ := Step.token.inj h
      exact ⟨by simp, rfl⟩
    · obtain ⟨rfl, -, rfl⟩ := Step.token.inj h
      exact ⟨by simp, rfl⟩
    · obtain ⟨rfl, -, rfl⟩ := Step.token.inj h
      cases named <;> exact ⟨by simp, rfl⟩

/-- A value is only found in the mode after its opening quote. The mode after a token is told by
what the token leaves open. -/
theorem quoting_of_step_token (h : step mode cs = .token lexeme rest mode') :
    (lexeme.kind = .attributeValue → mode = .value false) ∧
      mode'.quoting = mode.quoting.after lexeme.kind := by
  fun_cases step mode cs with
  | case1 cs skipped rest' hs =>
    rw [step, hs] at h
    obtain ⟨hd, rfl⟩ := delimiter?_of_stepDelimiter h
    obtain ⟨hne, hquoting⟩ := quoting_of_isDelimiter (isDelimiter_of_delimiter? hd) _
    exact ⟨fun hvalue => absurd hvalue hne, hquoting⟩
  | case2 cs rest' hs =>
    rw [step, hs] at h
    obtain ⟨hd, rfl⟩ := delimiter?_of_stepDelimiter h
    obtain ⟨hne, hquoting⟩ := quoting_of_isDelimiter (isDelimiter_of_delimiter? hd) _
    exact ⟨fun hvalue => absurd hvalue hne, hquoting⟩
  | case3 cs c code rest' hs =>
    rw [step, hs] at h
    obtain ⟨rfl, -, rfl⟩ := Step.token.inj h
    exact ⟨by simp, rfl⟩
  | case4 named cs =>
    rw [step] at h
    obtain ⟨hne, hquoting⟩ := quoting_of_stepDirective h
    exact ⟨fun hvalue => absurd hvalue hne, hquoting⟩
  | case5 => simp [step] at h
  | case6 rest' =>
    rw [step] at h
    obtain ⟨rfl, -, rfl⟩ := Step.token.inj h
    exact ⟨by simp, rfl⟩
  | case7 => simp [step] at h
  | case8 =>
    rw [step] at h
    rw [kind_of_stepValue h, (append_of_stepValue h).2.2]
    exact ⟨fun _ => rfl, rfl⟩

/-- After a value its closing quote, a delimiter or the end is next. -/
theorem atValueEnd_of_step_token (h : step mode cs = .token lexeme rest (.value true)) :
    AtValueEnd rest := by
  obtain ⟨hmode, hquoting⟩ := quoting_of_step_token h
  obtain rfl := hmode (Quoting.eq_of_after_eq_valued hquoting.symm)
  have hend := atValueEnd_splitValue cs
  rw [step, stepValue] at h
  split at h
  · contradiction
  · obtain ⟨-, rfl, -⟩ := Step.token.inj h
    exact .inr (.inl rfl)
  · contradiction
  · rename_i hs
    obtain ⟨-, rfl, -⟩ := Step.token.inj h
    rwa [hs] at hend

/-- A value is left without a token in front of a delimiter only. -/
theorem atDelimiter_of_step_leave (h : step mode cs = .leave mode')
    (hvalued : mode = .value true → AtValueEnd cs) : atDelimiter cs = true := by
  obtain ⟨⟨done, rfl⟩, -⟩ := eq_of_step_leave h
  cases done with
  | true =>
    rcases hvalued rfl with rfl | hquote | hd
    · simp [step] at h
    · obtain ⟨cs, rfl⟩ := List.head?_eq_some_iff.mp hquote
      simp [step] at h
    · exact hd
  | false =>
    have happ := append_splitValue cs
    have hend := atValueEnd_splitValue cs
    rw [step, stepValue] at h
    split at h
    · contradiction
    · contradiction
    · rename_i hne hs
      rw [hs] at happ hend
      rw [← happ]
      rcases hend with hnil | hquote | hd
      · contradiction
      · obtain rfl := Option.some.inj hquote
        exact (hne rfl).elim
      · exact hd
    · contradiction

end Steps

/-! ## Readings -/

/-- Inside of a directive a delimiter that is next is the next token. -/
theorem exists_cons_of_atDelimiter {cs : List Char} (h : atDelimiter cs = true) :
    ∃ kind kinds, (lexFrom (.directive true) cs).lexemes.map (·.kind) = kind :: kinds ∧
      kind.isDelimiter = true := by
  have hblank : cs.dropWhile isBlank = cs := by
    obtain ⟨rest, rfl⟩ | ⟨rest, rfl⟩ := atDelimiter_eq_true_iff.mp h
    · exact List.dropWhile_cons_of_neg (by decide)
    · exact List.dropWhile_cons_of_neg (by decide)
  have hsome := isSome_delimiter? cs
  rw [h, Option.isSome_iff_exists] at hsome
  obtain ⟨⟨kind, text, rest⟩, hd⟩ := hsome
  have hstep : step (.directive true) cs =
      .token ⟨cs.takeWhile isBlank, kind, text⟩ rest (Mode.after kind) := by
    rw [step, hblank]
    exact stepDirective_of_delimiter? hd
  rw [lexFrom_of_token hstep]
  exact ⟨kind, _, rfl, isDelimiter_of_delimiter? hd⟩

/-- Values are found after opening quotes only, whatever mode the reading starts in. -/
theorem quotesFit_lexFrom {mode : Mode} {cs : List Char}
    (hvalued : mode = .value true → AtValueEnd cs) :
    QuotesFit mode.quoting ((lexFrom mode cs).lexemes.map (·.kind)) := by
  fun_induction lexFrom mode cs with
  | case1 mode cs lexeme rest mode' hs reading ih =>
    obtain ⟨hvalue, hquoting⟩ := quoting_of_step_token hs
    refine ⟨fun hkind => ?_, ?_⟩
    · rw [hvalue hkind]
      rfl
    · rw [← hquoting]
      refine ih ?_
      rintro rfl
      exact atValueEnd_of_step_token hs
  | case2 mode cs mode' hs ih =>
    have hd := atDelimiter_of_step_leave hs hvalued
    obtain ⟨-, rfl⟩ := eq_of_step_leave hs
    have hfit := ih (by simp)
    obtain ⟨kind, kinds, hkinds, hk⟩ := exists_cons_of_atDelimiter hd
    rw [hkinds] at hfit ⊢
    refine ⟨fun hvalue => ?_, ?_⟩
    · rw [hvalue] at hk
      contradiction
    · rw [Quoting.after_of_isDelimiter hk, ← Quoting.after_of_isDelimiter hk .outside]
      exact hfit.2
  | case3 => trivial

theorem quotesFit_scan (text : String) :
    QuotesFit .outside ((scan text).tokens.map (·.kind)) := by
  have hfit : QuotesFit Mode.text.quoting ((lexFrom .text text.toList).lexemes.map (·.kind)) :=
    quotesFit_lexFrom (by simp)
  rw [scan, scanChars, TokenStream.ofReading, TokenStream.kinds_ofLexemes]
  exact hfit

/-! ## Widths -/

theorem text_ne_nil_of_mem_lexFrom {mode : Mode} {cs : List Char} {lexeme : Lexeme}
    (h : lexeme ∈ (lexFrom mode cs).lexemes) (hk : lexeme.kind ≠ .attributeValue) :
    lexeme.text ≠ [] := by
  fun_induction lexFrom mode cs with
  | case1 mode cs found rest mode' hs reading ih =>
    rcases List.mem_cons.mp h with rfl | h
    · rcases text_ne_nil_of_step_token hs with hne | ⟨rfl, -⟩
      · exact hne
      · rw [step] at hs
        exact absurd (kind_of_stepValue hs) hk
    · exact ih h
  | case2 mode cs mode' hs ih => exact ih h
  | case3 => simp at h

/-- A token that is not a value, and not the one at the end of the file, has characters. -/
theorem text_ne_empty_of_mem_scan {text : String} {t : Token} (ht : t ∈ (scan text).tokens)
    (hk : t.kind ≠ .attributeValue) : t.text ≠ "" := by
  obtain ⟨before, lexeme, after, hlex, rfl⟩ := TokenStream.exists_of_mem_ofLexemes ht
  have hmem : lexeme ∈ (lexFrom .text text.toList).lexemes := by
    rw [← lex, hlex]
    simp
  intro htext
  refine text_ne_nil_of_mem_lexFrom hmem hk ?_
  rw [← String.toList_ofList (l := lexeme.text)]
  exact congrArg String.toList htext

/-- So it has a byte wherever a span can have one. -/
theorem wide_of_mem_scan {text : String} {t : Token} (ht : t ∈ (scan text).tokens)
    (hk : t.kind ≠ .attributeValue) : t.span.Wide :=
  (wide_of_mem_scanChars ht).1 (text_ne_empty_of_mem_scan ht hk)

theorem start_lt_stop_of_mem_scan {text : String} (hlen : byteLength text.toList ≤ maxOffset)
    {t : Token} (ht : t ∈ (scan text).tokens) (hk : t.kind ≠ .attributeValue) :
    t.span.start < t.span.stop :=
  wide_of_mem_scan ht hk (Nat.lt_of_lt_of_le (start_lt_of_mem_scanChars hlen ht) hlen)

/-! ## Closing quotes -/

/-- If a value and a quote after it, the quote is one character, and nothing is skipped in front of
it. -/
def Lexeme.ClosedBy (value quote : Lexeme) : Prop :=
  value.kind = .attributeValue → quote.kind = .quote → quote.gap = [] ∧ quote.text = ['"']

/-- The start of a reading can be the place after a value. -/
theorem isChain_closedBy {mode : Mode} {cs : List Char}
    (hvalued : mode = .value true → AtValueEnd cs) :
    (lexFrom mode cs).lexemes.IsChain Lexeme.ClosedBy ∧
      (mode = .value true → ∀ quote ∈ (lexFrom mode cs).lexemes.head?, quote.kind = .quote →
        quote.gap = [] ∧ quote.text = ['"']) := by
  fun_induction lexFrom mode cs with
  | case1 mode cs lexeme rest mode' hs reading ih =>
    obtain ⟨hvalue, hquoting⟩ := quoting_of_step_token hs
    obtain ⟨hchain, hhead⟩ := ih (by rintro rfl; exact atValueEnd_of_step_token hs)
    refine ⟨hchain.cons fun quote hquote hkind => hhead ?_ quote hquote, ?_⟩
    · -- after a value the reader is where the closing quote can come
      rw [hvalue hkind, hkind] at hquoting
      exact Mode.eq_of_quoting_eq_valued hquoting
    · rintro rfl quote hquote -
      obtain rfl := Option.some.inj hquote
      cases cs with
      | nil => simp [step] at hs
      | cons c cs =>
        by_cases hc : c = '"'
        · subst hc
          obtain ⟨rfl, -, -⟩ := Step.token.inj hs
          exact ⟨rfl, rfl⟩
        · simp [step] at hs
  | case2 mode cs mode' hs ih =>
    have hd := atDelimiter_of_step_leave hs hvalued
    obtain ⟨-, rfl⟩ := eq_of_step_leave hs
    refine ⟨(ih (by simp)).1, fun _ quote hquote hkind => ?_⟩
    obtain ⟨kind, kinds, hkinds, hk⟩ := exists_cons_of_atDelimiter hd
    obtain ⟨lexemes, hlexemes⟩ := List.head?_eq_some_iff.mp hquote
    rw [hlexemes, List.map_cons, hkind] at hkinds
    rw [← (List.cons.inj hkinds).1] at hk
    contradiction
  | case3 => exact ⟨.nil, by simp⟩

/-- If a value and a quote after it, the quote stands directly behind the value and has one byte at
most. -/
def Token.ClosedBy (value quote : Token) : Prop :=
  value.kind = .attributeValue → quote.kind = .quote →
    quote.span.start = value.span.stop ∧ quote.span.stop ≤ value.span.stop + 1

theorem Lexeme.ClosedBy.token {value quote : Lexeme} (h : value.ClosedBy quote) (here : Cursor) :
    (here.token value.kind value.text).ClosedBy
      (((here.skip value.text).skip quote.gap).token quote.kind quote.text) := by
  intro hvalue hquote
  obtain ⟨hgap, htext⟩ := h hvalue hquote
  have hstop : (here.token value.kind value.text).span.stop =
      min (here.skip value.text).offset maxOffset := by
    rw [Cursor.offset_skip]
    exact Span.stop_ofBounds_eq_min (Nat.le_add_right _ _)
  rw [hstop, hgap, htext, Cursor.skip_nil]
  refine ⟨rfl, ?_⟩
  rw [Cursor.token, Span.stop_ofBounds_eq_min (Nat.le_add_right _ _)]
  have hone : byteLength ['"'] = 1 := rfl
  omega

theorem isChain_ofLexemes {lexemes : List Lexeme} (h : lexemes.IsChain Lexeme.ClosedBy)
    (here : Cursor) (trailing : List Char) :
    (TokenStream.ofLexemes here trailing lexemes).tokens.IsChain Token.ClosedBy := by
  induction lexemes generalizing here with
  | nil => exact .nil
  | cons value lexemes ih =>
    refine (ih h.tail _).cons fun quote hquote => ?_
    cases lexemes with
    | nil => contradiction
    | cons next lexemes =>
      obtain rfl := Option.some.inj hquote
      exact (List.isChain_cons_cons.mp h).1.token _

/-- This holds of any two tokens that are found one after the other. -/
theorem closedBy_of_infix {text : String} {value quote : Token}
    (h : [value, quote] <:+: (scan text).tokens) : value.ClosedBy quote := by
  have hlexemes : (lexFrom .text text.toList).lexemes.IsChain Lexeme.ClosedBy :=
    (isChain_closedBy (by simp)).1
  have hpair := List.IsChain.infix (isChain_ofLexemes hlexemes .origin _) h
  exact List.isChain_pair.mp hpair

end TextTemplate
