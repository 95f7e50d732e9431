import TextTemplate.Proofs.QuotedValues

/-!
# Tokens, one call at a time

A `Scanner` hands out the tokens of a text on demand: a call takes steps until one of them finds a
token, or until the end of the text, for which there is a token too; all calls after that one come
to nothing. `lexFrom` takes all the steps at once. What it would still find is `Scanner.left`, and a
call takes the first token from there (`Scanner.next_cases`), so the calls hand out the tokens of
the text in order and no others (`Scanner.token?_after_start`).

A call takes one step, or two if the first of them leaves an attribute value, since the step after
that one finds a token or the end (`Scanner.steps_next_le`).

Every token but the one at the end has characters, or is the value between two quotes that have one
each (`quoted_of_mem_scan`). So there are at most three tokens for two characters. Counted by half
tokens, the opening quote of an empty value saves one for it and the closing quote makes up for
another (`two_mul_length_lexFrom_le`).
-/
namespace TextTemplate

/-! ## Scanners -/

/-- A reader that has come to a place in a text, and whether it has told of the end. -/
structure Scanner where
  here : Cursor
  mode : Mode
  rest : List Char
  finished : Bool
deriving DecidableEq

/-- What a call comes to: the token, if any, the steps that were taken for it, and the scanner
afterwards. -/
structure Scanner.Call where
  token? : Option Token
  steps : Nat
  scanner : Scanner
deriving DecidableEq

namespace Scanner

/-- The scanner that has not been called yet. -/
def start (text : String) : Scanner :=
  ⟨.origin, .text, text.toList, false⟩

/-- Steps until one of them finds a token or the end. -/
def search (here : Cursor) (mode : Mode) (cs : List Char) : Call :=
  match _h : step mode cs with
  | .token lexeme rest mode' =>
    let start := here.skip lexeme.gap
    ⟨some (start.token lexeme.kind lexeme.text), 1,
      ⟨start.skip lexeme.text, mode', rest, false⟩⟩
  | .leave mode' =>
    let call := search here mode' cs
    { call with steps := call.steps + 1 }
  | .finish gap =>
    let stop := here.skip gap
    ⟨some (stop.token .endOfFile []), 1, ⟨stop, mode, [], true⟩⟩
termination_by mode.work cs
decreasing_by exact work_lt_of_step_leave ‹_›

/-- A call. -/
def next (s : Scanner) : Call :=
  if s.finished then ⟨none, 0, s⟩ else search s.here s.mode s.rest

/-- The scanner after some calls. -/
def after : Nat → Scanner → Scanner
  | 0, s => s
  | n + 1, s => after n s.next.scanner

/-- The tokens that are still to be handed out. -/
def left (s : Scanner) : List Token :=
  if s.finished then [] else (TokenStream.ofReading s.here (lexFrom s.mode s.rest)).toList

theorem left_start (text : String) : (start text).left = (scan text).toList :=
  rfl

theorem search_spec (here : Cursor) (mode : Mode) (cs : List Char) :
    ∃ token, (search here mode cs).token? = some token ∧
      (TokenStream.ofReading here (lexFrom mode cs)).toList =
        token :: (search here mode cs).scanner.left := by
  fun_induction search here mode cs with
  | case1 mode lexeme rest mode' h start =>
    rw [lexFrom_of_token h]
    exact ⟨_, rfl, rfl⟩
  | case2 mode mode' h call ih =>
    rw [lexFrom_of_leave h]
    exact ih
  | case3 mode gap h stop =>
    rw [lexFrom_of_finish h]
    exact ⟨_, rfl, rfl⟩

section Calls
variable (s : Scanner)

/-- A call takes the first of the tokens that are left, and changes nothing if there are none. -/
theorem next_cases :
    (s.left = [] ∧ s.next = ⟨none, 0, s⟩) ∨
      ∃ token, s.next.token? = some token ∧ s.left = token :: s.next.scanner.left := by
  cases hfinished : s.finished with
  | true =>
    refine .inl ⟨?_, ?_⟩
    · rw [left, if_pos hfinished]
    · rw [next, if_pos hfinished]
  | false =>
    obtain ⟨token, htoken, hleft⟩ := search_spec s.here s.mode s.rest
    have hnext : s.next = search s.here s.mode s.rest := if_neg (by simp [hfinished])
    refine .inr ⟨token, by rw [hnext, htoken], ?_⟩
    rw [hnext, ← hleft, left, if_neg (by simp [hfinished])]

theorem token?_next : s.next.token? = s.left.head? := by
  rcases s.next_cases with ⟨hleft, hnext⟩ | ⟨token, htoken, hleft⟩
  · rw [hleft, hnext, List.head?_nil]
  · rw [hleft, htoken, List.head?_cons]

theorem left_next : s.next.scanner.left = s.left.tail := by
  rcases s.next_cases with ⟨hleft, hnext⟩ | ⟨token, -, hleft⟩
  · rw [hnext, hleft, List.tail_nil]
  · rw [hleft, List.tail_cons]

theorem left_after (n : Nat) : (s.after n).left = s.left.drop n := by
  induction n generalizing s with
  | zero => rfl
  | succ n ih => rw [after, ih, left_next, List.drop_tail]

end Calls

/-- The calls hand out the tokens of the text one after the other, and nothing after the last. -/
theorem token?_after_start (text : String) (n : Nat) :
    ((start text).after n).next.token? = (scan text).toList[n]? := by
  rw [token?_next, left_after, left_start, List.head?_drop]

/-! ### Steps of a call -/

/-- Leaving an attribute value takes no characters, but there are some, and it cannot be done twice
in a row. -/
theorem not_leave_of_step_leave {mode mode' : Mode} {cs : List Char}
    (h : step mode cs = .leave mode') : cs ≠ [] ∧ ∀ mode'', step mode' cs ≠ .leave mode'' := by
  obtain ⟨⟨done, rfl⟩, rfl⟩ := eq_of_step_leave h
  refine ⟨?_, fun mode'' hleave => ?_⟩
  · rintro rfl
    cases done <;> contradiction
  · obtain ⟨⟨done', hdone⟩, -⟩ := eq_of_step_leave hleave
    contradiction

theorem steps_search_of_not_leave {mode : Mode} {cs : List Char} (here : Cursor)
    (h : ∀ mode', step mode cs ≠ .leave mode') : (search here mode cs).steps = 1 := by
  fun_cases search here mode cs with
  | case2 mode' hleave => exact absurd hleave (h mode')
  | _ => rfl

/-- No call takes more than two steps. -/
theorem steps_next_le (s : Scanner) : s.next.steps ≤ 2 := by
  rw [next]
  split
  · exact Nat.zero_le 2
  · fun_cases search s.here s.mode s.rest with
    | case2 mode' h call =>
      have hone := steps_search_of_not_leave s.here (not_leave_of_step_leave h).2
      exact Nat.le_of_eq (congrArg (· + 1) hone)
    | _ => exact Nat.le_succ 1

end Scanner

/-! ## Empty values -/

section Steps
variable {mode mode' : Mode} {cs rest : List Char} {lexeme : Lexeme}

/-- A token without characters is a value, found directly between an opening quote and a closing
one. -/
theorem quoted_of_step_token (h : step mode cs = .token lexeme rest mode')
    (htext : lexeme.text = []) :
    lexeme.kind = .attributeValue ∧ mode = .value false ∧ mode' = .value true ∧
      rest.head? = some '"' := by
  rcases text_ne_nil_of_step_token h with hne | ⟨rfl, rfl⟩
  · contradiction
  · rw [step] at h
    refine ⟨kind_of_stepValue h, rfl, rfl, ?_⟩
    rw [stepValue] at h
    split at h
    · contradiction
    · obtain ⟨-, rfl, -⟩ := Step.token.inj h
      rfl
    · contradiction
    · obtain ⟨rfl, -, -⟩ := Step.token.inj h
      contradiction

end Steps

/-- A closing quote is next. -/
def Mode.closing (mode : Mode) (cs : List Char) : Bool :=
  mode = .value true && cs.head? = some '"'

theorem Mode.step_closing {mode : Mode} {cs : List Char} (h : mode.closing cs = true) :
    ∃ tail, cs = '"' :: tail ∧
      step mode cs = .token ⟨[], .quote, ['"']⟩ tail (.directive true) := by
  rw [closing, Bool.and_eq_true, decide_eq_true_eq, decide_eq_true_eq] at h
  obtain ⟨rfl, hquote⟩ := h
  obtain ⟨tail, rfl⟩ := List.head?_eq_some_iff.mp hquote
  exact ⟨tail, rfl, rfl⟩

/-- Behind a lexeme without characters its closing quote is the next one. -/
theorem exists_closing {mode : Mode} {cs : List Char} {before after : List Lexeme} {lexeme : Lexeme}
    (h : (lexFrom mode cs).lexemes = before ++ lexeme :: after) (htext : lexeme.text = []) :
    ∃ quote tail, after = quote :: tail ∧ quote.kind = .quote := by
  fun_induction lexFrom mode cs generalizing before with
  | case1 mode cs found rest mode' hs reading =>
    rename_i ih
    cases before with
    | nil =>
      obtain ⟨rfl, rfl⟩ := List.cons.inj h
      obtain ⟨-, -, rfl, hquote⟩ := quoted_of_step_token hs htext
      have hclosing : (Mode.value true).closing rest = true := by simp [Mode.closing, hquote]
      obtain ⟨tail, -, hstep⟩ := Mode.step_closing hclosing
      show ∃ quote tail, (lexFrom (.value true) rest).lexemes = quote :: tail ∧ _
      rw [lexFrom_of_token hstep]
      exact ⟨_, _, rfl, rfl⟩
    | cons first before => exact ih (List.cons.inj h).2
  | case2 mode cs mode' hs ih => exact ih h
  | case3 => simp at h

/-- There are at most three tokens for two characters. An opening quote that was the last token
leaves room for one half more, and a closing quote that is the next one for one half less. -/
theorem two_mul_length_lexFrom_le (mode : Mode) (cs : List Char) :
    2 * (lexFrom mode cs).lexemes.length + (mode.closing cs).toNat ≤
      3 * cs.length + (decide (mode = .value false)).toNat := by
  fun_induction lexFrom mode cs with
  | case1 mode cs lexeme rest mode' hs reading ih =>
    show 2 * ((lexFrom mode' rest).lexemes.length + 1) + _ ≤ _
    have hlength := congrArg List.length (append_of_step_token hs)
    simp only [List.length_append] at hlength
    have hroom := Bool.toNat_le (decide (mode' = .value false))
    by_cases htext : lexeme.text = []
    · -- an empty value is paid for by the quotes on both sides
      obtain ⟨-, rfl, rfl, hquote⟩ := quoted_of_step_token hs htext
      simp [Mode.closing, hquote] at ih ⊢
      omega
    · have hpos := List.length_pos_iff.mpr htext
      cases hclosing : mode.closing cs with
      | false =>
        rw [Bool.toNat_false]
        omega
      | true =>
        obtain ⟨tail, rfl, hstep⟩ := Mode.step_closing hclosing
        obtain ⟨rfl, rfl, rfl⟩ := Step.token.inj (hs.symm.trans hstep)
        simp at ih ⊢
        omega
  | case2 mode cs mode' hs ih =>
    obtain ⟨-, rfl⟩ := eq_of_step_leave hs
    cases hclosing : mode.closing cs with
    | false =>
      simp at ih ⊢
      omega
    | true =>
      obtain ⟨tail, -, hstep⟩ := Mode.step_closing hclosing
      cases hs.symm.trans hstep
  | case3 mode cs gap hs =>
    cases hclosing : mode.closing cs with
    | false => simp
    | true =>
      obtain ⟨tail, -, hstep⟩ := Mode.step_closing hclosing
      cases hs.symm.trans hstep

/-! ## The tokens of a text -/

section Texts
variable {text : String} {t : Token} {before after : List Token}

/-- In front of a value is its opening quote. -/
theorem exists_opening_of_scan (h : (scan text).tokens = before ++ t :: after)
    (hkind : t.kind = .attributeValue) :
    ∃ init opening, before = init ++ [opening] ∧ opening.kind = .quote := by
  have hfit := quotesFit_scan text
  rw [h, List.map_append, List.map_cons] at hfit
  have hopened := hfit.right_of_append.1 hkind
  obtain rfl | ⟨init, opening, rfl⟩ := List.eq_nil_or_concat before
  · contradiction
  · rw [List.concat_eq_append, List.map_append, List.foldl_append] at hopened
    exact ⟨init, opening, List.concat_eq_append, Quoting.eq_of_after_eq_opened hopened⟩

/-- Behind a value without characters is its closing quote. -/
theorem exists_closing_of_scan (h : (scan text).tokens = before ++ t :: after)
    (htext : t.text = "") : ∃ closing tail, after = closing :: tail ∧ closing.kind = .quote := by
  have hspelling : (lex text.toList).lexemes.map (fun l => (l.kind, String.ofList l.text)) =
      before.map Token.spelling ++ t.spelling :: after.map Token.spelling := by
    rw [← List.map_cons, ← List.map_append, ← h]
    exact (TokenStream.spelling_ofLexemes _ _ _).symm
  obtain ⟨lexemes, rest, hlex, -, hrest⟩ := List.map_eq_append_iff.mp hspelling
  obtain ⟨lexeme, rest, rfl, hlexeme, hrest⟩ := List.map_eq_cons_iff.mp hrest
  have hempty : lexeme.text = [] := by
    have hofList : String.ofList lexeme.text = "" := (Prod.mk.inj hlexeme).2.trans htext
    rw [← String.toList_ofList (l := lexeme.text), hofList]
    rfl
  obtain ⟨quote, tail, rfl, hquote⟩ := exists_closing hlex hempty
  obtain ⟨closing, tail, rfl, hclosing, -⟩ := List.map_eq_cons_iff.mp hrest.symm
  exact ⟨closing, tail, rfl, (Prod.mk.inj hclosing).1.trans hquote⟩

/-- A token without characters is a value, and the tokens around it are quotes. -/
theorem quoted_of_mem_scan (ht : t ∈ (scan text).tokens) (htext : t.text = "") :
    t.kind = .attributeValue ∧ ∃ opening closing, opening.kind = .quote ∧ closing.kind = .quote ∧
      [opening, t, closing] <:+: (scan text).tokens := by
  have hkind : t.kind = .attributeValue :=
    Decidable.not_not.mp fun hne => text_ne_empty_of_mem_scan ht hne htext
  obtain ⟨before, after, htokens⟩ := List.append_of_mem ht
  obtain ⟨init, opening, rfl, hopening⟩ := exists_opening_of_scan htokens hkind
  obtain ⟨closing, tail, rfl, hclosing⟩ := exists_closing_of_scan htokens htext
  exact ⟨hkind, opening, closing, hopening, hclosing, init, tail, by simp [htokens]⟩

/-- There are at most three tokens for two bytes, and the one at the end. -/
theorem length_scan_le (text : String) :
    (scan text).toList.length ≤ byteLength text.toList + byteLength text.toList / 2 + 1 := by
  have hlexemes := two_mul_length_lexFrom_le .text text.toList
  have hbytes := length_le_byteLength text.toList
  have htokens := congrArg List.length (TokenStream.kinds_ofLexemes .origin
    (lex text.toList).trailing (lex text.toList).lexemes)
  rw [List.length_map, List.length_map] at htokens
  have hlength : (scan text).tokens.length = (lexFrom .text text.toList).lexemes.length := htokens
  rw [TokenStream.toList, List.length_append, hlength, List.length_singleton]
  simp at hlexemes
  omega

end Texts

end TextTemplate
