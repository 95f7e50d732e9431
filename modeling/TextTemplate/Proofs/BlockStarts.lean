import Mathlib.Data.List.TakeWhile
import TextTemplate.Proofs.Readings

/-!
# Reading up to a block start

A block start is for the reader what the end of the text is: in every mode, the characters in front
of it are read as if nothing followed them, and what follows is read as if nothing stood in front.
`lexFrom_of_append_cons` says so for a reading with a block start somewhere in it.

The first half is a matter of single steps. The scans that a step consists of stop at a block start
at the latest and decide nothing by looking beyond it (`splitWhere_append`, `splitValue_append`,
`splitOutput_append`), except that output text goes on past an escaped one. A step that ends in
front of the block start is therefore the same without it (`step_of_append`).
-/
namespace TextTemplate

/-- The characters begin with those that all block starts have in common. -/
def OpensBlock (cs : List Char) : Prop :=
  ∃ tail, cs = '<' :: '#' :: tail

section Scans
variable {bs : List Char}

theorem OpensBlock.atDelimiter (hbs : OpensBlock bs) : atDelimiter bs = true := by
  obtain ⟨tail, rfl⟩ := hbs
  rfl

theorem OpensBlock.atNameEnd (hbs : OpensBlock bs) : atNameEnd bs = true := by
  obtain ⟨tail, rfl⟩ := hbs
  rfl

theorem atDelimiter_append (hbs : OpensBlock bs) (c : Char) (cs : List Char) :
    atDelimiter (c :: cs ++ bs) = atDelimiter (c :: cs) := by
  obtain ⟨tail, rfl⟩ := hbs
  cases cs with
  | nil => simp [atDelimiter]
  | cons d ds => simp only [List.cons_append, atDelimiter_cons_cons]

theorem atNameEnd_append (hbs : OpensBlock bs) (c : Char) (cs : List Char) :
    atNameEnd (c :: cs ++ bs) = atNameEnd (c :: cs) := by
  have hd := atDelimiter_append hbs c cs
  rw [List.cons_append] at hd ⊢
  simp only [atNameEnd, hd]

theorem splitWhere_append {stop : List Char → Bool} (hstop : stop bs = true)
    (hlocal : ∀ c cs, stop (c :: cs ++ bs) = stop (c :: cs)) (as : List Char) :
    splitWhere stop (as ++ bs) = ((splitWhere stop as).1, (splitWhere stop as).2 ++ bs) := by
  induction as with
  | nil =>
    cases bs with
    | nil => rfl
    | cons b bs => simp [splitWhere, hstop]
  | cons c cs ih =>
    have hc := hlocal c cs
    rw [List.cons_append] at hc ⊢
    by_cases h : stop (c :: cs)
    · simp [splitWhere, hc, h]
    · simp [splitWhere, hc, h, ih]

theorem splitValue_append (hbs : OpensBlock bs) (as : List Char) :
    splitValue (as ++ bs) = ((splitValue as).1, (splitValue as).2 ++ bs) := by
  -- a backslash at the end of `as` has no quote after it: `bs` does not begin with one
  have hquote : ∀ (c : Char) (cs : List Char), (∀ ds, c = '\\' → cs = '"' :: ds → False) →
      c = '\\' → (cs ++ bs).head? ≠ some '"' := by
    obtain ⟨tail, rfl⟩ := hbs
    rintro c (_ | ⟨d, ds⟩) h rfl
    · simp
    · rintro hd
      obtain rfl := Option.some.inj hd
      exact h ds rfl rfl
  fun_induction splitValue as with
  | case1 =>
    obtain ⟨tail, rfl⟩ := hbs
    rw [List.nil_append, splitValue_cons (by simp)]
    rfl
  | case2 cs value rest h ih => simp only [List.cons_append, splitValue_escaped, ih, h]
  | case3 c cs hne hstop =>
    rw [← atDelimiter_append hbs] at hstop
    rw [List.cons_append, splitValue_cons (hquote c cs hne)]
    exact if_pos hstop
  | case4 c cs hne hstop value rest h ih =>
    rw [← atDelimiter_append hbs] at hstop
    rw [List.cons_append, splitValue_cons (hquote c cs hne), ih, h]
    exact if_neg hstop

/-- Output text goes past a block start only if that is escaped. -/
theorem splitOutput_append (hbs : OpensBlock bs) {escaped : Bool} {as : List Char}
    (h : (splitOutput escaped (as ++ bs)).1.length ≤ as.length) :
    splitOutput escaped (as ++ bs) =
      ((splitOutput escaped as).1, (splitOutput escaped as).2 ++ bs) := by
  fun_induction splitOutput escaped as with
  | case1 escaped =>
    cases escaped with
    | false => exact splitOutput_of_atDelimiter hbs.atDelimiter
    | true =>
      -- the block start would be escaped, and then the gap is longer than `as`
      obtain ⟨tail, rfl⟩ := hbs
      simp [splitOutput_escaped (c := '<') (d := '#') rfl] at h
  | case2 escaped cs gap rest hs ih =>
    simp only [List.cons_append, splitOutput_backslash, List.length_cons] at h ⊢
    rw [ih (by omega), hs]
  | case3 cs gap rest hs ih =>
    simp only [List.cons_append, splitOutput_escaped (c := '<') (d := '#') rfl,
      List.length_cons] at h ⊢
    rw [ih (by omega), hs]
  | case4 escaped cs hs =>
    rw [Bool.eq_false_iff.mpr hs]
    exact splitOutput_of_atDelimiter rfl
  | case5 cs gap rest hs ih =>
    simp only [List.cons_append, splitOutput_escaped (c := '#') (d := '>') rfl,
      List.length_cons] at h ⊢
    rw [ih (by omega), hs]
  | case6 escaped cs hs =>
    rw [Bool.eq_false_iff.mpr hs]
    exact splitOutput_of_atDelimiter rfl
  | case7 escaped c cs hc hopen hclose gap rest hs ih =>
    have hd : atDelimiter (c :: cs) = false := by
      simp only [atDelimiter]
      split <;> simp_all
    rw [← atDelimiter_append hbs, List.cons_append] at hd
    simp only [List.cons_append, splitOutput_cons escaped hc hd, List.length_cons] at h ⊢
    rw [ih (by omega), hs]

/-- The output text before a block start is output text when it stands alone. -/
theorem splitOutput_fst {escaped : Bool} {cs : List Char}
    (hbs : OpensBlock (splitOutput escaped cs).2) :
    splitOutput escaped (splitOutput escaped cs).1 = ((splitOutput escaped cs).1, []) := by
  have happ := append_splitOutput escaped cs
  have hlen : (splitOutput escaped
      ((splitOutput escaped cs).1 ++ (splitOutput escaped cs).2)).1.length ≤
        (splitOutput escaped cs).1.length := by rw [happ]
  have hsplit := splitOutput_append hbs hlen
  rw [happ] at hsplit
  apply Prod.ext
  · exact (congrArg Prod.fst hsplit).symm
  · exact List.append_left_eq_self.mp (congrArg Prod.snd hsplit).symm

theorem takeWhile_isBlank_append (hbs : OpensBlock bs) (as : List Char) :
    (as ++ bs).takeWhile isBlank = as.takeWhile isBlank := by
  obtain ⟨tail, rfl⟩ := hbs
  have hlt : isBlank '<' = false := by decide
  induction as with
  | nil => simp [hlt]
  | cons c cs ih => by_cases hc : isBlank c <;> simp [hc, ih]

theorem dropWhile_isBlank_append (hbs : OpensBlock bs) (as : List Char) :
    (as ++ bs).dropWhile isBlank = as.dropWhile isBlank ++ bs := by
  obtain ⟨tail, rfl⟩ := hbs
  have hlt : isBlank '<' = false := by decide
  induction as with
  | nil => simp [hlt]
  | cons c cs ih => by_cases hc : isBlank c <;> simp [hc, ih]

theorem delimiter?_append (hbs : OpensBlock bs) {as : List Char} (has : as ≠ []) :
    delimiter? (as ++ bs) =
      (delimiter? as).map fun (kind, text, rest) => (kind, text, rest ++ bs) := by
  by_cases hd : atDelimiter as
  · fun_cases delimiter? as with
    | case1 | case2 | case3 | case5 => simp [delimiter?]
    | case4 rest h₁ h₂ h₃ =>
      obtain ⟨tail, rfl⟩ := hbs
      cases rest with
      | nil => simp [delimiter?]
      | cons d ds =>
        simp only [List.cons_append, Option.map_some]
        rw [delimiter?] <;> simp_all
    | case6 => simp_all [atDelimiter]
  · have hd : atDelimiter as = false := Bool.eq_false_iff.mpr hd
    obtain ⟨c, cs, rfl⟩ := List.exists_cons_of_ne_nil has
    have hd' : atDelimiter (c :: cs ++ bs) = false := (atDelimiter_append hbs c cs).trans hd
    rw [delimiter?_eq_none_iff.mpr hd, delimiter?_eq_none_iff.mpr hd']
    rfl

end Scans

/-! ## Steps -/

section Steps
variable {bs gap as rest : List Char} {lexeme : Lexeme} {mode mode' : Mode}

/-- A token that ends in front of what follows starts in front of it too. -/
theorem ne_nil_of_append_eq {text : List Char} (htext : text ≠ [])
    (h : text ++ (rest ++ bs) = as ++ bs) : as ≠ [] := by
  rintro rfl
  rw [← List.append_assoc, List.nil_append, List.append_left_eq_self, List.append_eq_nil_iff] at h
  exact htext h.1

theorem stepDelimiter_of_append (hbs : OpensBlock bs)
    (h : stepDelimiter gap (as ++ bs) = .token lexeme (rest ++ bs) mode') :
    stepDelimiter gap as = .token lexeme rest mode' := by
  have hsplit := append_of_stepDelimiter h
  have has : as ≠ [] := ne_nil_of_append_eq hsplit.2.2.1 hsplit.2.1
  unfold stepDelimiter at h ⊢
  rw [delimiter?_append hbs has] at h
  cases hd : delimiter? as with
  | none =>
    rw [hd] at h
    contradiction
  | some found =>
    obtain ⟨kind, text, rest'⟩ := found
    rw [hd] at h
    obtain ⟨rfl, hrest, rfl⟩ := Step.token.inj h
    rw [List.append_cancel_right hrest]

theorem stepDirective_of_append {named : Bool} (hbs : OpensBlock bs)
    (h : stepDirective named gap (as ++ bs) = .token lexeme (rest ++ bs) mode') :
    stepDirective named gap as = .token lexeme rest mode' := by
  have hsplit := append_of_stepDirective h
  have has : as ≠ [] := ne_nil_of_append_eq hsplit.2.2 hsplit.2.1
  have happ := delimiter?_append hbs has
  cases hd : delimiter? as with
  | some found =>
    obtain ⟨kind, text, rest'⟩ := found
    rw [hd] at happ
    rw [stepDirective_of_delimiter? happ] at h
    obtain ⟨rfl, hrest, rfl⟩ := Step.token.inj h
    rw [stepDirective_of_delimiter? hd, List.append_cancel_right hrest]
  | none =>
    obtain ⟨c, cs, rfl⟩ := List.exists_cons_of_ne_nil has
    have hat := delimiter?_eq_none_iff.mp hd
    have hat' : atDelimiter (c :: (cs ++ bs)) = false := (atDelimiter_append hbs c cs).trans hat
    have hname := splitWhere_append hbs.atNameEnd (atNameEnd_append hbs) cs
    rw [List.cons_append, stepDirective_cons hat', hname] at h
    rw [stepDirective_cons hat]
    by_cases heq : c = '='
    · rw [if_pos heq] at h ⊢
      obtain ⟨rfl, hrest, rfl⟩ := Step.token.inj h
      rw [List.append_cancel_right hrest]
    · by_cases hquote : c = '"'
      · rw [if_neg heq, if_pos hquote] at h ⊢
        obtain ⟨rfl, hrest, rfl⟩ := Step.token.inj h
        rw [List.append_cancel_right hrest]
      · rw [if_neg heq, if_neg hquote] at h ⊢
        obtain ⟨rfl, hrest, rfl⟩ := Step.token.inj h
        rw [List.append_cancel_right hrest]

/-- A value that is read in front of a block start is read in the same way without it. -/
theorem stepValue_of_append (hbs : OpensBlock bs)
    (h : stepValue (as ++ bs) = .token lexeme (rest ++ bs) mode') :
    stepValue as = .token lexeme rest mode' := by
  unfold stepValue at h ⊢
  rw [splitValue_append hbs] at h
  rcases hs : splitValue as with ⟨_ | ⟨c, value⟩, _ | ⟨d, rest'⟩⟩
  · rw [hs] at h
    obtain ⟨tail, rfl⟩ := hbs
    simp at h
  · rw [hs] at h
    by_cases hd : d = '"'
    · subst hd
      obtain ⟨rfl, hrest, rfl⟩ := Step.token.inj h
      rw [List.append_eq, ← List.cons_append] at hrest
      obtain rfl := List.append_cancel_right hrest
      rfl
    · simp at h
  · rw [hs] at h
    obtain ⟨rfl, hrest, rfl⟩ := Step.token.inj h
    rw [← List.append_cancel_right hrest]
  · rw [hs] at h
    obtain ⟨rfl, hrest, rfl⟩ := Step.token.inj h
    rw [← List.append_cancel_right hrest]

/-- A token in front of a block start is found in the same way without it. -/
theorem step_of_append (hbs : OpensBlock bs)
    (h : step mode (as ++ bs) = .token lexeme (rest ++ bs) mode') :
    step mode as = .token lexeme rest mode' := by
  have happ := append_of_step_token h
  rw [← List.append_assoc, List.append_left_inj] at happ
  match mode with
  | .text =>
    -- the token lies in `as`, so the gap in front of it cannot reach into `bs`
    have hgap : (splitOutput false (as ++ bs)).1.length ≤ as.length := by
      rw [step] at h
      rw [← (append_of_stepDelimiter h).1, ← happ]
      simp
    rw [step, splitOutput_append hbs hgap] at h
    exact stepDelimiter_of_append hbs h
  | .code =>
    rw [step, splitWhere_append hbs.atDelimiter (atDelimiter_append hbs)] at h
    rw [step]
    cases hs : splitWhere atDelimiter as with
    | mk code rest' =>
      rw [hs] at h
      cases code with
      | nil => exact stepDelimiter_of_append hbs h
      | cons c code =>
        obtain ⟨rfl, hrest, rfl⟩ := Step.token.inj h
        rw [← List.append_cancel_right hrest]
  | .directive named =>
    rw [step, takeWhile_isBlank_append hbs, dropWhile_isBlank_append hbs] at h
    exact stepDirective_of_append hbs h
  | .value true =>
    cases as with
    | nil =>
      obtain ⟨tail, rfl⟩ := hbs
      simp [step] at h
    | cons c cs =>
      by_cases hc : c = '"'
      · subst hc
        rw [List.cons_append, step] at h
        obtain ⟨rfl, hrest, rfl⟩ := Step.token.inj h
        rw [step, List.append_cancel_right hrest]
      · simp [step] at h
  | .value false => exact stepValue_of_append hbs h

/-- A change of mode in front of other characters happens without a block start too. -/
theorem step_leave_of_append (hbs : OpensBlock bs) (has : as ≠ [])
    (h : step mode (as ++ bs) = .leave mode') : step mode as = .leave mode' := by
  obtain ⟨⟨done, rfl⟩, rfl⟩ := eq_of_step_leave h
  obtain ⟨c, cs, rfl⟩ := List.exists_cons_of_ne_nil has
  cases done with
  | true =>
    by_cases hc : c = '"'
    · subst hc
      simp [step] at h
    · simp [step]
  | false =>
    rw [step, stepValue, splitValue_append hbs] at h
    have happ := append_splitValue (c :: cs)
    rw [step, stepValue]
    rcases hs : splitValue (c :: cs) with ⟨_ | ⟨d, value⟩, _ | ⟨e, rest'⟩⟩
    · simp [hs] at happ
    · rw [hs] at h
      by_cases he : e = '"'
      · subst he
        contradiction
      · simp
    · rw [hs] at h
      contradiction
    · rw [hs] at h
      contradiction

theorem lexFrom_nil (mode : Mode) : lexFrom mode [] = ⟨[], []⟩ := by
  have hstep : step mode [] = .finish [] := by
    match mode with
    | .text | .code | .directive _ | .value true | .value false => rfl
  exact lexFrom_of_finish hstep

end Steps

/-! ## Readings -/

section Cuts
variable {mode mode' : Mode} {cs rest : List Char} {lexeme : Lexeme}

/-- What is skipped before a block start is skipped in front of the end of the text too. -/
theorem lexFrom_gap (h : step mode cs = .token lexeme rest mode')
    (hk : lexeme.kind.isBlockStart) : lexFrom mode lexeme.gap = ⟨[], lexeme.gap⟩ := by
  obtain ⟨hd, -⟩ := delimiter?_and_mode_of_step_token h (TokenKind.isDelimiter_of_isBlockStart hk)
  have hbs : OpensBlock (lexeme.text ++ rest) := eq_cons_of_delimiter? hd hk
  match mode with
  | .text =>
    rw [step] at h
    obtain ⟨hgap, htext, -⟩ := append_of_stepDelimiter h
    rw [htext] at hbs
    apply lexFrom_of_finish
    rw [step, hgap, splitOutput_fst hbs]
    rfl
  | .code =>
    have hgap : lexeme.gap = [] := by
      rw [step] at h
      split at h
      · exact (append_of_stepDelimiter h).1
      · obtain ⟨rfl, -, -⟩ := Step.token.inj h
        rfl
    rw [hgap, lexFrom_nil]
  | .directive named =>
    rw [step] at h
    obtain ⟨hgap, -, -⟩ := append_of_stepDirective h
    have hblank : (cs.takeWhile isBlank).dropWhile isBlank = [] :=
      List.dropWhile_eq_nil_iff.mpr fun _ hc => List.mem_takeWhile_imp hc
    have happ := List.takeWhile_append_dropWhile (p := isBlank) (l := cs.takeWhile isBlank)
    rw [hblank, List.append_nil] at happ
    apply lexFrom_of_finish
    rw [hgap, step, hblank, happ]
    rfl
  | .value true =>
    cases cs with
    | nil => simp [step] at h
    | cons c cs =>
      by_cases hc : c = '"'
      · rw [hc, step] at h
        obtain ⟨rfl, -, -⟩ := Step.token.inj h
        contradiction
      · simp [step] at h
  | .value false =>
    rw [kind_of_stepValue h] at hk
    contradiction

/-- A block start is found at the start of output text as anywhere else. -/
theorem step_text_of_blockStart (h : step mode cs = .token lexeme rest mode')
    (hk : lexeme.kind.isBlockStart) :
    step .text (lexeme.text ++ rest) = .token { lexeme with gap := [] } rest mode' := by
  obtain ⟨hd, hmode⟩ :=
    delimiter?_and_mode_of_step_token h (TokenKind.isDelimiter_of_isBlockStart hk)
  have hbs : OpensBlock (lexeme.text ++ rest) := eq_cons_of_delimiter? hd hk
  rw [step, splitOutput_of_atDelimiter hbs.atDelimiter]
  simp only [stepDelimiter, hd, hmode]

/-- A reading with a block start in it is that of the characters in front of the block start,
followed by that of the characters from there on. -/
theorem lexFrom_of_append_cons {before after : List Lexeme}
    (h : (lexFrom mode cs).lexemes = before ++ lexeme :: after)
    (hk : lexeme.kind.isBlockStart) :
    ∃ as bs, as ++ bs = cs ∧ OpensBlock bs ∧ as = before.flatMap Lexeme.chars ++ lexeme.gap ∧
      lexFrom mode as = ⟨before, lexeme.gap⟩ ∧
      lex bs = ⟨{ lexeme with gap := [] } :: after, (lexFrom mode cs).trailing⟩ := by
  fun_induction lexFrom mode cs generalizing before with
  | case1 mode cs found rest mode' hs reading =>
    rename_i ih
    -- the cut is at the token that this step finds, or at one that a later step finds
    cases before with
    | nil =>
      obtain ⟨rfl, rfl⟩ := List.cons.inj h
      refine ⟨found.gap, found.text ++ rest, ?_, ?_, rfl, lexFrom_gap hs hk, ?_⟩
      · rw [← List.append_assoc]
        exact append_of_step_token hs
      · exact eq_cons_of_delimiter? (delimiter?_and_mode_of_step_token hs
          (TokenKind.isDelimiter_of_isBlockStart hk)).1 hk
      · exact lexFrom_of_token (step_text_of_blockStart hs hk)
    | cons first before =>
      obtain ⟨rfl, hrest⟩ := List.cons.inj h
      obtain ⟨as, bs, rfl, hbs, has, hlex, hbs'⟩ := ih hrest
      have happ := append_of_step_token hs
      rw [← List.append_assoc] at happ
      refine ⟨found.gap ++ found.text ++ as, bs, happ, hbs, ?_, ?_, hbs'⟩
      · simp only [has, List.flatMap_cons, Lexeme.chars, List.append_assoc]
      · rw [← happ] at hs
        rw [lexFrom_of_token (step_of_append hbs hs), hlex]
  | case2 mode cs mode' hs ih =>
    obtain ⟨as, bs, rfl, hbs, has, hlex, hbs'⟩ := ih h
    refine ⟨as, bs, rfl, hbs, has, ?_, hbs'⟩
    -- with nothing left in front of the cut, the mode is not left but the text ends
    by_cases hnil : as = []
    · rw [hnil, lexFrom_nil] at hlex ⊢
      exact hlex
    · rw [lexFrom_of_leave (step_leave_of_append hbs hnil hs), hlex]
  | case3 => simp at h

end Cuts

end TextTemplate
