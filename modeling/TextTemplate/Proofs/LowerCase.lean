import TextTemplate.Proofs.Recasting
import TextTemplate.Proofs.TokenPlaces

/-!
# Templates in lower case

The reader of a template looks for signs and white space and never at letters. So it reads a text in
lower case exactly as it reads the text itself, and only the letters in the lexemes are others
(`lexFrom_lower`). A lower case letter takes as many bytes as the upper case one, so all tokens keep
their places (`scan_lowerCase`), and the tree of the text in lower case is the tree of the text with
all names and values in lower case (`parse_lowerCase`).
-/
namespace TextTemplate

/-! ## Characters -/

section Characters
variable {c : Char}

theorem isAlpha_iff :
    c.isAlpha = true ↔ 65 ≤ c.toNat ∧ c.toNat ≤ 90 ∨ 97 ≤ c.toNat ∧ c.toNat ≤ 122 := by
  unfold Char.isAlpha Char.isUpper Char.isLower
  simp only [Bool.or_eq_true, Bool.and_eq_true, decide_eq_true_eq, ge_iff_le,
    UInt32.le_iff_toNat_le]
  rfl

theorem toNat_toLower (c : Char) :
    c.toLower.toNat = if 65 ≤ c.toNat ∧ c.toNat ≤ 90 then c.toNat + 32 else c.toNat := by
  have hrange : c.val ≥ 'A'.val ∧ c.val ≤ 'Z'.val ↔ 65 ≤ c.toNat ∧ c.toNat ≤ 90 := by
    simp only [ge_iff_le, UInt32.le_iff_toNat_le]
    rfl
  unfold Char.toLower
  by_cases h : 65 ≤ c.toNat ∧ c.toNat ≤ 90
  · rw [if_pos h, dif_pos (hrange.mpr h)]
    show (c.val + 32).toNat = c.val.toNat + 32
    have hval : c.val.toNat ≤ 90 := h.2
    rw [UInt32.toNat_add, show (32 : UInt32).toNat = 32 from rfl]
    omega
  · rw [if_neg h, dif_neg (mt hrange.mp h)]

/-- Only letters become others in lower case, and they become letters. -/
theorem toLower_eq_self_or (c : Char) :
    c.toLower = c ∨ c.isAlpha = true ∧ c.toLower.isAlpha = true := by
  have hlower := toNat_toLower c
  by_cases h : 65 ≤ c.toNat ∧ c.toNat ≤ 90
  · rw [if_pos h] at hlower
    rw [isAlpha_iff, isAlpha_iff]
    omega
  · rw [if_neg h] at hlower
    exact .inl (Char.toNat_inj.mp hlower)

theorem toLower_toLower (c : Char) : c.toLower.toLower = c.toLower := by
  have hlower := toNat_toLower c
  apply Char.toNat_inj.mp
  rw [toNat_toLower]
  split at hlower
  · exact if_neg (by omega)
  · exact if_neg (by omega)

/-- No letter becomes a sign, and no sign becomes anything else. -/
theorem toLower_eq_iff (sign : Char) (hsign : sign.isAlpha = false) :
    c.toLower = sign ↔ c = sign := by
  rcases toLower_eq_self_or c with h | ⟨hc, hlower⟩
  · rw [h]
  · constructor
    · rintro rfl
      exact absurd hlower (by simp [hsign])
    · rintro rfl
      exact absurd hc (by simp [hsign])

theorem isBlank_of_isAlpha (h : c.isAlpha = true) : isBlank c = false := by
  rw [isAlpha_iff] at h
  rw [Bool.eq_false_iff]
  intro hblank
  simp only [isBlank, inRanges, blankRanges, List.any_cons, List.any_nil, Bool.or_eq_true,
    Bool.and_eq_true, decide_eq_true_eq, Bool.false_eq_true, or_false] at hblank
  omega

theorem utf8Size_of_isAlpha (h : c.isAlpha = true) : c.utf8Size = 1 := by
  rw [isAlpha_iff] at h
  rw [Char.utf8Size_eq_one_iff, UInt32.le_iff_toNat_le]
  show c.toNat ≤ 127
  omega

theorem isBlank_toLower (c : Char) : isBlank c.toLower = isBlank c := by
  rcases toLower_eq_self_or c with h | ⟨hc, hlower⟩
  · rw [h]
  · rw [isBlank_of_isAlpha hc, isBlank_of_isAlpha hlower]

theorem utf8Size_toLower (c : Char) : c.toLower.utf8Size = c.utf8Size := by
  rcases toLower_eq_self_or c with h | ⟨hc, hlower⟩
  · rw [h]
  · rw [utf8Size_of_isAlpha hc, utf8Size_of_isAlpha hlower]

end Characters

/-! ## Scans -/

theorem atDelimiter_lower (cs : List Char) :
    atDelimiter (cs.map Char.toLower) = atDelimiter cs := by
  rcases cs with _ | ⟨c, _ | ⟨d, cs⟩⟩
  · rfl
  · simp [atDelimiter]
  · simp only [List.map_cons, atDelimiter_cons_cons, toLower_eq_iff '<' rfl,
      toLower_eq_iff '#' rfl, toLower_eq_iff '>' rfl]

theorem atNameEnd_lower (cs : List Char) : atNameEnd (cs.map Char.toLower) = atNameEnd cs := by
  cases cs with
  | nil => rfl
  | cons c cs =>
    have hd := atDelimiter_lower (c :: cs)
    rw [List.map_cons] at hd ⊢
    simp only [atNameEnd, hd, isBlank_toLower, toLower_eq_iff '=' rfl, toLower_eq_iff '"' rfl]

/-- Characters begin with a sign in lower case only if they do so themselves. -/
theorem exists_cons_of_lower {sign : Char} (hsign : sign.isAlpha = false) {cs rest : List Char}
    (h : cs.map Char.toLower = sign :: rest) : ∃ rest', cs = sign :: rest' := by
  obtain ⟨c, rest', rfl, hc, -⟩ := List.map_eq_cons_iff.mp h
  exact ⟨rest', by rw [(toLower_eq_iff sign hsign).mp hc]⟩

theorem delimiter?_lower (cs : List Char) :
    delimiter? (cs.map Char.toLower) =
      (delimiter? cs).map fun (kind, text, rest) =>
        (kind, text.map Char.toLower, rest.map Char.toLower) := by
  fun_cases delimiter? cs with
  | case1 | case2 | case3 | case5 => rfl
  | case4 rest hat hequals hplus =>
    show delimiter? ('<' :: '#' :: rest.map Char.toLower) = _
    rw [delimiter?]
    · rfl
    · intro rest' h
      obtain ⟨tail, rfl⟩ := exists_cons_of_lower rfl h
      exact hat tail rfl
    · intro rest' h
      obtain ⟨tail, rfl⟩ := exists_cons_of_lower rfl h
      exact hequals tail rfl
    · intro rest' h
      obtain ⟨tail, rfl⟩ := exists_cons_of_lower rfl h
      exact hplus tail rfl
  | case6 h₁ h₂ h₃ h₄ h₅ =>
    rw [Option.map_none, delimiter?_eq_none_iff, atDelimiter_lower, ← delimiter?_eq_none_iff,
      delimiter?]
    all_goals assumption

theorem splitWhere_lower {stop : List Char → Bool}
    (hstop : ∀ cs, stop (cs.map Char.toLower) = stop cs) (cs : List Char) :
    splitWhere stop (cs.map Char.toLower) =
      ((splitWhere stop cs).1.map Char.toLower, (splitWhere stop cs).2.map Char.toLower) := by
  induction cs with
  | nil => rfl
  | cons c cs ih =>
    have hc := hstop (c :: cs)
    rw [List.map_cons] at hc ⊢
    by_cases h : stop (c :: cs)
    · simp [splitWhere, hc, h]
    · simp [splitWhere, hc, h, ih]

theorem splitOutput_lower (escaped : Bool) (cs : List Char) :
    splitOutput escaped (cs.map Char.toLower) =
      ((splitOutput escaped cs).1.map Char.toLower,
        (splitOutput escaped cs).2.map Char.toLower) := by
  fun_induction splitOutput escaped cs with
  | case1 => rfl
  | case2 escaped cs gap rest hs ih =>
    show splitOutput escaped ('\\' :: cs.map Char.toLower) = _
    rw [splitOutput_backslash, ih, hs]
    rfl
  | case3 cs gap rest hs ih =>
    show splitOutput true ('<' :: '#' :: cs.map Char.toLower) = _
    rw [splitOutput_escaped rfl, ih, hs]
    rfl
  | case4 escaped cs hs =>
    rw [Bool.eq_false_iff.mpr hs]
    exact splitOutput_of_atDelimiter rfl
  | case5 cs gap rest hs ih =>
    show splitOutput true ('#' :: '>' :: cs.map Char.toLower) = _
    rw [splitOutput_escaped rfl, ih, hs]
    rfl
  | case6 escaped cs hs =>
    rw [Bool.eq_false_iff.mpr hs]
    exact splitOutput_of_atDelimiter rfl
  | case7 escaped c cs hc hopen hclose gap rest hs ih =>
    have hd : atDelimiter (c :: cs) = false := by
      simp only [atDelimiter]
      split <;> simp_all
    rw [← atDelimiter_lower, List.map_cons] at hd
    rw [List.map_cons, splitOutput_cons escaped (mt (toLower_eq_iff '\\' rfl).mp hc) hd, ih, hs]
    rfl

theorem splitValue_cons_lower {c : Char} {cs : List Char}
    (hne : ∀ ds, c = '\\' → cs = '"' :: ds → False) :
    splitValue (c.toLower :: cs.map Char.toLower) =
      if c = '"' || atDelimiter (c :: cs) then ([], c.toLower :: cs.map Char.toLower)
      else (c.toLower :: (splitValue (cs.map Char.toLower)).1,
        (splitValue (cs.map Char.toLower)).2) := by
  have hd := atDelimiter_lower (c :: cs)
  rw [List.map_cons] at hd
  rw [splitValue_cons]
  · simp only [hd, toLower_eq_iff '"' rfl]
  · intro hc hhead
    obtain ⟨tail, htail⟩ := List.head?_eq_some_iff.mp hhead
    obtain ⟨ds, rfl⟩ := exists_cons_of_lower rfl htail
    exact hne ds ((toLower_eq_iff '\\' rfl).mp hc) rfl

theorem splitValue_lower (cs : List Char) :
    splitValue (cs.map Char.toLower) =
      ((splitValue cs).1.map Char.toLower, (splitValue cs).2.map Char.toLower) := by
  fun_induction splitValue cs with
  | case1 => rfl
  | case2 cs value rest hs ih =>
    show splitValue ('\\' :: '"' :: cs.map Char.toLower) = _
    rw [splitValue_escaped, ih, hs]
    rfl
  | case3 c cs hne hstop =>
    rw [List.map_cons, splitValue_cons_lower hne]
    exact if_pos hstop
  | case4 c cs hne hstop value rest hs ih =>
    rw [List.map_cons, splitValue_cons_lower hne, ih, hs]
    exact if_neg hstop

theorem takeWhile_isBlank_lower (cs : List Char) :
    (cs.map Char.toLower).takeWhile isBlank = (cs.takeWhile isBlank).map Char.toLower := by
  rw [List.takeWhile_map]
  congr 2
  exact funext isBlank_toLower

theorem dropWhile_isBlank_lower (cs : List Char) :
    (cs.map Char.toLower).dropWhile isBlank = (cs.dropWhile isBlank).map Char.toLower := by
  rw [List.dropWhile_map]
  congr 2
  exact funext isBlank_toLower

/-! ## Steps and readings -/

/-- The lexeme in lower case. -/
def Lexeme.lower (lexeme : Lexeme) : Lexeme :=
  ⟨lexeme.gap.map Char.toLower, lexeme.kind, lexeme.text.map Char.toLower⟩

/-- The step in lower case. -/
def Step.lower : Step → Step
  | token lexeme rest mode => token lexeme.lower (rest.map Char.toLower) mode
  | leave mode => leave mode
  | finish gap => finish (gap.map Char.toLower)

/-- The reading in lower case. -/
def Reading.lower (reading : Reading) : Reading :=
  ⟨reading.lexemes.map Lexeme.lower, reading.trailing.map Char.toLower⟩

theorem stepDelimiter_lower (gap cs : List Char) :
    stepDelimiter (gap.map Char.toLower) (cs.map Char.toLower) = (stepDelimiter gap cs).lower := by
  rw [stepDelimiter, stepDelimiter, delimiter?_lower]
  cases delimiter? cs <;> rfl

theorem stepDirective_lower (named : Bool) (gap cs : List Char) :
    stepDirective named (gap.map Char.toLower) (cs.map Char.toLower) =
      (stepDirective named gap cs).lower := by
  cases hd : delimiter? cs with
  | some found =>
    have hd' := delimiter?_lower cs
    rw [hd] at hd'
    rw [stepDirective_of_delimiter? hd, stepDirective_of_delimiter? hd']
    rfl
  | none =>
    cases cs with
    | nil => rfl
    | cons c cs =>
      have hat := delimiter?_eq_none_iff.mp hd
      have hat' := atDelimiter_lower (c :: cs)
      rw [hat, List.map_cons] at hat'
      rw [List.map_cons, stepDirective_cons hat, stepDirective_cons hat',
        splitWhere_lower atNameEnd_lower]
      simp only [toLower_eq_iff '=' rfl, toLower_eq_iff '"' rfl]
      split
      · rfl
      · split <;> rfl

theorem stepValue_lower (cs : List Char) :
    stepValue (cs.map Char.toLower) = (stepValue cs).lower := by
  fun_cases stepValue cs with
  | case1 hs | case2 rest hs | case4 c value rest hs =>
    rw [stepValue, splitValue_lower, hs]
    rfl
  | case3 c rest hne hs =>
    have hc : c.toLower ≠ '"' := mt (toLower_eq_iff '"' rfl).mp hne
    rw [stepValue, splitValue_lower, hs]
    simp only [List.map_nil, List.map_cons]
    rfl

/-- A step finds the same in lower case. -/
theorem step_lower (mode : Mode) (cs : List Char) :
    step mode (cs.map Char.toLower) = (step mode cs).lower := by
  fun_cases step mode cs with
  | case1 cs gap rest hs =>
    rw [step, splitOutput_lower, hs]
    exact stepDelimiter_lower gap rest
  | case2 cs rest hs =>
    rw [step, splitWhere_lower atDelimiter_lower, hs]
    exact stepDelimiter_lower [] rest
  | case3 cs c code rest hs =>
    rw [step, splitWhere_lower atDelimiter_lower, hs]
    rfl
  | case4 named cs =>
    rw [step, takeWhile_isBlank_lower, dropWhile_isBlank_lower]
    exact stepDirective_lower named _ _
  | case5 | case6 rest => rfl
  | case7 c cs hne =>
    rw [List.map_cons, step]
    · rfl
    · exact fun hc => hne ((toLower_eq_iff '"' rfl).mp hc)
  | case8 => exact stepValue_lower cs

theorem lexFrom_lower (mode : Mode) (cs : List Char) :
    lexFrom mode (cs.map Char.toLower) = (lexFrom mode cs).lower := by
  fun_induction lexFrom mode cs with
  | case1 mode cs lexeme rest mode' h reading ih =>
    have hlower := step_lower mode cs
    rw [h] at hlower
    rw [lexFrom_of_token hlower, ih]
    rfl
  | case2 mode cs mode' h ih =>
    have hlower := step_lower mode cs
    rw [h] at hlower
    rw [lexFrom_of_leave hlower, ih]
  | case3 mode cs gap h =>
    have hlower := step_lower mode cs
    rw [h] at hlower
    rw [lexFrom_of_finish hlower]
    rfl

/-! ## Tokens and trees -/

/-- Names and values in lower case, at the same places. -/
def lowering : Recasting where
  mark := id
  text := lowerCase
  fault := id
  kind_mark _ := rfl
  fault_eq _ _ := rfl

theorem toList_lowerCase (s : String) : (lowerCase s).toList = s.toList.map Char.toLower :=
  String.toList_ofList

@[simp]
theorem lowerCase_lowerCase (s : String) : lowerCase (lowerCase s) = lowerCase s := by
  rw [lowerCase, toList_lowerCase, List.map_map]
  exact congrArg String.ofList (List.map_congr_left fun c _ => toLower_toLower c)

theorem byteLength_lower (cs : List Char) : byteLength (cs.map Char.toLower) = byteLength cs := by
  induction cs with
  | nil => rfl
  | cons c cs ih => rw [List.map_cons, byteLength_cons, byteLength_cons, ih, utf8Size_toLower]

namespace Cursor

theorem next_toLower (here : Cursor) (c : Char) : here.next c.toLower = here.next c := by
  simp only [next, Position.advance, utf8Size_toLower, toLower_eq_iff '\n' rfl]

theorem skip_lower (here : Cursor) (cs : List Char) :
    here.skip (cs.map Char.toLower) = here.skip cs := by
  induction cs generalizing here with
  | nil => rfl
  | cons c cs ih => rw [List.map_cons, skip_cons, skip_cons, next_toLower, ih]

theorem token_lower (here : Cursor) (kind : TokenKind) (text : List Char) :
    here.token kind (text.map Char.toLower) = lowering.token (here.token kind text) := by
  have htext : lowerCase (String.ofList text) = String.ofList (text.map Char.toLower) := by
    rw [lowerCase, String.toList_ofList]
  simp only [token, byteLength_lower, lowering, Recasting.token, htext]
  rfl

end Cursor

/-- The tokens of lexemes in lower case are those of the lexemes, in lower case. -/
theorem TokenStream.ofLexemes_lower (here : Cursor) (trailing : List Char)
    (lexemes : List Lexeme) :
    ofLexemes here (trailing.map Char.toLower) (lexemes.map Lexeme.lower) =
      ⟨(ofLexemes here trailing lexemes).tokens.map lowering.token,
        (ofLexemes here trailing lexemes).endOfFile⟩ := by
  induction lexemes generalizing here with
  | nil =>
    rw [List.map_nil, ofLexemes, Cursor.skip_lower]
    rfl
  | cons lexeme lexemes ih =>
    simp only [List.map_cons, ofLexemes, Lexeme.lower, Cursor.skip_lower, Cursor.token_lower, ih]

/-- The tokens of a text in lower case are its tokens in lower case, at the same places. -/
theorem scan_lowerCase (text : String) :
    scan (lowerCase text) = ⟨(scan text).tokens.map lowering.token, (scan text).endOfFile⟩ := by
  rw [scan, toList_lowerCase, scanChars, TokenStream.ofReading, lex, lexFrom_lower]
  exact TokenStream.ofLexemes_lower _ _ _

theorem strayFault_lower (stray : List Token) :
    strayFault (stray.map lowering.token) = strayFault stray := by
  cases stray with
  | nil => rfl
  | cons first rest =>
    rw [List.map_cons, strayFault, List.map_map]
    rfl

/-- The tree in lower case. -/
def Template.lower (t : Template) : Template :=
  ⟨t.blocks.map lowering.block, t.endOfFile⟩

/-- The tree of a text in lower case is the tree of the text, in lower case, and the faults of form
are the same. -/
theorem parse_lowerCase (text : String) :
    parse (lowerCase text) = ⟨(parse text).template.lower, (parse text).faults⟩ := by
  have hsends : lowering.Sends (scan text).endOfFile (scan text).endOfFile := fun _ => rfl
  have hstray : ∀ stray : List Token, (∀ t ∈ stray, t ∈ (scan text).tokens) →
      strayFault (stray.map lowering.token) = (strayFault stray).map lowering.fault := by
    intro stray _
    rw [strayFault_lower]
    exact (congrFun Option.map_id (strayFault stray)).symm
  obtain ⟨hblocks, hfaults⟩ := ParsedTemplate.ofStream_recast hsends hstray
  rw [parse, scan_lowerCase]
  apply ParsedTemplate.ext
  · exact Template.ext hblocks rfl
  · exact hfaults.trans (List.map_id _)

end TextTemplate
