import TextTemplate.Proofs.Tiling

/-!
# Escapes in output text

In output text a delimiter is escaped by an odd number of backslashes directly in front of it, and
the block end that begins inside of an escaped block start goes with it (`Escaped`). Output text
ends at the first delimiter that is not escaped (`FirstDelimiter`), or reaches to the end of the
text if all of them are.

`NextInOutput` says so of tokens: what comes after the characters that have been read is the first
delimiter that counts, or else the end of the file. `output_escapes` states it for the start of
every text and for the place after each of its block ends.

The reader only keeps whether the number of backslashes so far is odd, and takes an escaped
delimiter in one go. What it takes has been passed over for a reason (`passedOver_of_splitOutput`);
the rest is that what it stops at has not (`not_passedOver_splitOutput`).
-/
namespace TextTemplate

/-! ## Delimiters that do not count -/

/-- The delimiter that begins with `after` is escaped by the backslashes at the end of `before`, or
it is the block end that begins with the second character of an escaped block start. -/
def Escaped (before after : List Char) : Prop :=
  EndsEscaping before ∨
    ∃ outer rest, before = outer ++ ['<'] ∧ after = '#' :: '>' :: rest ∧ EndsEscaping outer

/-- The first delimiter of output text that is not escaped begins with `after`. -/
structure FirstDelimiter (gap after : List Char) : Prop where
  delimiter : ['<', '#'] <+: after ∨ ['#', '>'] <+: after
  not_escaped : ¬ Escaped gap after
  escaped_before : ∀ before rest, before ++ rest = gap ++ after → before.length < gap.length →
    ['<', '#'] <+: rest ∨ ['#', '>'] <+: rest → Escaped before rest

theorem escaped_iff_passedOver (before after : List Char) :
    Escaped before after ↔ PassedOver false before after := by
  simp only [Escaped, PassedOver, escapedAfter_iff_endsEscaping]

/-- What has been passed over has been passed over without the characters in front too, unless they
end in the first character of a block start that reaches beyond them. -/
theorem PassedOver.of_append {escaped escaped' : Bool} {first before after : List Char}
    (h : PassedOver escaped (first ++ before) after)
    (hfirst : ∀ cs, escapedAfter escaped (first ++ cs) = escapedAfter escaped' cs)
    (hcut : before = [] → first.getLast? = some '<' → after.head? ≠ some '#') :
    PassedOver escaped' before after := by
  rcases h with h | ⟨outer, rest, happ, rfl, h⟩
  · exact .inl ((hfirst before).symm.trans h)
  · rcases List.eq_nil_or_concat before with rfl | ⟨inner, c, rfl⟩
    · rw [List.append_nil] at happ
      exact absurd rfl (hcut rfl (by simp [happ]))
    · rw [List.concat_eq_append, ← List.append_assoc] at happ
      obtain ⟨rfl, hc⟩ := List.append_inj' happ rfl
      obtain rfl := List.singleton_inj.mp hc
      exact .inr ⟨inner, rest, List.concat_eq_append, rfl, (hfirst inner).symm.trans h⟩

/-- The delimiter that output text ends at has not been passed over. -/
theorem not_passedOver_splitOutput {escaped : Bool} {cs : List Char}
    (h : (splitOutput escaped cs).2 ≠ []) :
    ¬ PassedOver escaped (splitOutput escaped cs).1 (splitOutput escaped cs).2 := by
  fun_induction splitOutput escaped cs with
  | case1 => contradiction
  | case2 escaped cs gap rest hs ih =>
    rw [hs] at ih
    intro hpassed
    rw [← List.singleton_append] at hpassed
    exact ih h (hpassed.of_append (escapedAfter_backslash escaped) (by simp))
  | case3 cs gap rest hs ih =>
    rw [hs] at ih
    intro (hpassed : PassedOver true (['<', '#'] ++ gap) rest)
    exact ih h (hpassed.of_append (fun cs => by simp [escapedAfter]) (by simp))
  | case5 cs gap rest hs ih =>
    rw [hs] at ih
    intro (hpassed : PassedOver true (['#', '>'] ++ gap) rest)
    exact ih h (hpassed.of_append (fun cs => by simp [escapedAfter]) (by simp))
  | case4 escaped | case6 escaped =>
    have hescaped : escaped = false := by simpa using ‹¬ escaped = true›
    rintro (hpassed | ⟨outer, rest, happ, -, -⟩)
    · simp [escapedAfter, hescaped] at hpassed
    · simp at happ
  | case7 escaped c cs hc hopen hclose gap rest hs ih =>
    have happ := append_splitOutput false cs
    rw [hs] at ih happ
    intro (hpassed : PassedOver escaped ([c] ++ gap) rest)
    refine ih h (hpassed.of_append (escapedAfter_cons escaped hc) ?_)
    -- `c` and the next character are no block start
    rintro rfl hlt hhash
    obtain rfl : c = '<' := by simpa using hlt
    obtain ⟨tail, rfl⟩ := List.head?_eq_some_iff.mp hhash
    exact hopen tail rfl happ.symm

/-- Output text ends at the first delimiter that is not escaped. -/
theorem firstDelimiter_splitOutput {cs : List Char} (h : (splitOutput false cs).2 ≠ []) :
    FirstDelimiter (splitOutput false cs).1 (splitOutput false cs).2 where
  delimiter := atDelimiter_eq_true_iff.mp ((atDelimiter_splitOutput false cs).resolve_left h)
  not_escaped := by
    rw [escaped_iff_passedOver]
    exact not_passedOver_splitOutput h
  escaped_before := by
    intro before rest happ hlen hd
    rw [append_splitOutput] at happ
    rw [escaped_iff_passedOver]
    exact passedOver_of_splitOutput happ hlen (atDelimiter_eq_true_iff.mpr hd)

/-- All delimiters are escaped exactly if output text does not end at one. -/
theorem outputText_iff (cs : List Char) : OutputText cs ↔ (splitOutput false cs).2 = [] := by
  have happ := append_splitOutput false cs
  constructor
  · intro houtput
    by_contra hne
    have hfirst := firstDelimiter_splitOutput hne
    exact hfirst.not_escaped (houtput _ _ happ hfirst.delimiter)
  · intro hnil
    have houtput := outputText_splitOutput cs
    rwa [← List.append_nil (splitOutput false cs).1, ← hnil, happ] at houtput

/-! ## What comes next in output text -/

/-- The first lexeme of output text is the first delimiter that is not escaped, after a gap that
holds everything in front of it. -/
theorem lexFrom_text (cs : List Char) :
    (∃ gap after kind chars tail lexemes, gap ++ after = cs ∧ FirstDelimiter gap after ∧
        delimiter? after = some (kind, chars, tail) ∧
        (lexFrom .text cs).lexemes = ⟨gap, kind, chars⟩ :: lexemes) ∨
      OutputText cs ∧ lexFrom .text cs = ⟨[], cs⟩ := by
  by_cases hnil : (splitOutput false cs).2 = []
  · refine .inr ⟨(outputText_iff cs).mpr hnil, ?_⟩
    have hstep : step .text cs = .finish (splitOutput false cs).1 := by
      simp only [step, hnil]
      rfl
    rw [lexFrom_of_finish hstep, eq_of_step_finish hstep]
  · have hfirst := firstDelimiter_splitOutput hnil
    obtain ⟨⟨kind, chars, tail⟩, hd⟩ :
        ∃ found, delimiter? (splitOutput false cs).2 = some found := by
      rw [← Option.isSome_iff_exists, isSome_delimiter?]
      exact atDelimiter_eq_true_iff.mpr hfirst.delimiter
    have hstep : step .text cs =
        .token ⟨(splitOutput false cs).1, kind, chars⟩ tail (Mode.after kind) := by
      simp only [step, stepDelimiter, hd]
    exact .inl ⟨_, _, kind, chars, tail, (lexFrom (Mode.after kind) tail).lexemes,
      append_splitOutput false cs, hfirst, hd, by rw [lexFrom_of_token hstep]⟩

/-- A reading goes on after any of its lexemes, and after a delimiter in the mode that belongs to
it. -/
theorem exists_mode_of_append {mode : Mode} {cs : List Char} {before after : List Lexeme}
    (h : (lexFrom mode cs).lexemes = before ++ after) :
    ∃ mode' rest, before.flatMap Lexeme.chars ++ rest = cs ∧
      lexFrom mode' rest = ⟨after, (lexFrom mode cs).trailing⟩ ∧ (before = [] → mode' = mode) ∧
      ∀ last ∈ before.getLast?, last.kind.isDelimiter → mode' = Mode.after last.kind := by
  cases before with
  | nil =>
    obtain rfl : _ = after := h
    exact ⟨mode, cs, rfl, rfl, fun _ => rfl, by simp⟩
  | cons first before =>
    fun_induction lexFrom mode cs generalizing first before with
    | case1 mode cs found rest mode' hs reading ih =>
      obtain ⟨rfl, hrest⟩ := List.cons.inj h
      have happ := append_of_step_token hs
      have hafter : found.kind.isDelimiter → mode' = Mode.after found.kind :=
        fun hk => (delimiter?_and_mode_of_step_token hs hk).2
      cases before with
      | nil =>
        obtain rfl : _ = after := hrest
        exact ⟨mode', rest, by simpa [Lexeme.chars] using happ, rfl, by simp, by simpa using hafter⟩
      | cons second before =>
        obtain ⟨mode'', tail, htail, hlex, -, hlast⟩ := ih second before hrest
        refine ⟨mode'', tail, ?_, hlex, by simp, by simpa using hlast⟩
        rw [List.flatMap_cons, List.append_assoc, htail]
        exact happ
    | case2 mode cs mode' hs ih =>
      obtain ⟨mode'', tail, htail, hlex, -, hlast⟩ := ih first before h
      exact ⟨mode'', tail, htail, hlex, by simp, hlast⟩
    | case3 => simp at h

/-! ## Tokens -/

/-- The tokens reach to the end of the characters, where the last one of them stands. -/
inductive ReadTo : List Token → List Char → Prop
  | start : ReadTo [] []
  | last (tokens : List Token) (before chars : List Char) (kind : TokenKind) :
      ReadTo (tokens ++ [(Cursor.origin.skip before).token kind chars]) (before ++ chars)

/-- What comes after the characters `before`, when `rest` follows them and begins with output text.
-/
inductive NextInOutput (before rest : List Char) : Token → Prop
  | delimiter {gap after chars tail : List Char} {kind : TokenKind} (hrest : gap ++ after = rest)
      (hfirst : FirstDelimiter gap after) (hd : delimiter? after = some (kind, chars, tail)) :
      NextInOutput before rest ((Cursor.origin.skip (before ++ gap)).token kind chars)
  | endOfFile (houtput : OutputText rest) :
      NextInOutput before rest ((Cursor.origin.skip (before ++ rest)).token .endOfFile [])

namespace TokenStream

/-- A cut in the tokens of some lexemes is one in the lexemes. -/
theorem exists_of_toList_ofLexemes {here : Cursor} {trailing : List Char} {lexemes : List Lexeme}
    {front back : List Token} {token : Token}
    (h : (ofLexemes here trailing lexemes).toList = front ++ token :: back) :
    ∃ before after, lexemes = before ++ after ∧ front = (ofLexemes here trailing before).tokens ∧
      token :: back =
        (ofLexemes (here.skip (before.flatMap Lexeme.chars)) trailing after).toList := by
  induction front generalizing here lexemes with
  | nil => exact ⟨[], lexemes, rfl, rfl, h.symm⟩
  | cons first front ih =>
    cases lexemes with
    | nil =>
      have hlen := congrArg List.length h
      simp [ofLexemes, toList] at hlen
    | cons lexeme lexemes =>
      obtain ⟨rfl, hrest⟩ := List.cons.inj h
      obtain ⟨before, after, rfl, rfl, hback⟩ := ih hrest
      refine ⟨lexeme :: before, after, rfl, rfl, ?_⟩
      rw [hback, List.flatMap_cons, Lexeme.chars, Cursor.skip_append, Cursor.skip_append]

theorem readTo_ofLexemes (trailing : List Char) (lexemes : List Lexeme) :
    ReadTo (ofLexemes .origin trailing lexemes).tokens (lexemes.flatMap Lexeme.chars) := by
  rcases List.eq_nil_or_concat lexemes with rfl | ⟨before, lexeme, rfl⟩
  · exact .start
  · have hchars : (before ++ [lexeme]).flatMap Lexeme.chars =
        before.flatMap Lexeme.chars ++ lexeme.gap ++ lexeme.text := by
      simp [Lexeme.chars]
    rw [List.concat_eq_append, hchars, ofLexemes_append _ _ trailing]
    simp only [ofLexemes, ← Cursor.skip_append]
    exact .last _ _ _ _

/-- The last token of some lexemes is of the kind that the last lexeme is of. -/
theorem kind_of_mem_getLast? {here : Cursor} {trailing : List Char} {lexemes : List Lexeme}
    {kind : TokenKind}
    (h : ∀ t ∈ (ofLexemes here trailing lexemes).tokens.getLast?, t.kind = kind) :
    ∀ last ∈ lexemes.getLast?, last.kind = kind := by
  intro last hlast
  have hkinds := congrArg List.getLast? (kinds_ofLexemes here trailing lexemes)
  rw [List.getLast?_map, List.getLast?_map, hlast, Option.map_some,
    Option.map_eq_some_iff] at hkinds
  obtain ⟨t, ht, hkind⟩ := hkinds
  exact hkind.symm.trans (h t ht)

end TokenStream

/-- The first token of a reading of output text is what comes next in it. -/
theorem nextInOutput_of_lexFrom {before rest : List Char} {token : Token} {back : List Token}
    (h : token :: back =
      (TokenStream.ofReading (Cursor.origin.skip before) (lexFrom .text rest)).toList) :
    NextInOutput before rest token := by
  rcases lexFrom_text rest with
    ⟨gap, after, kind, chars, tail, lexemes, happ, hfirst, hd, hfound⟩ | ⟨houtput, hfound⟩
  · rw [TokenStream.ofReading, hfound] at h
    rw [(List.cons.inj h).1, ← Cursor.skip_append]
    exact .delimiter happ hfirst hd
  · rw [hfound] at h
    have htoken : token = ((Cursor.origin.skip before).skip rest).token .endOfFile [] :=
      (List.cons.inj h).1
    rw [htoken, ← Cursor.skip_append]
    exact .endOfFile houtput

/-- After a block end, and at the start of a text, comes what is next in output text. -/
theorem nextInOutput_of_scan {text : String} {front back : List Token} {token : Token}
    (h : (scan text).toList = front ++ token :: back)
    (hfront : ∀ t ∈ front.getLast?, t.kind = .blockEnd) :
    ∃ before rest, before ++ rest = text.toList ∧ ReadTo front before ∧
      NextInOutput before rest token := by
  obtain ⟨before, after, hlex, rfl, hnext⟩ := TokenStream.exists_of_toList_ofLexemes h
  obtain ⟨mode, rest, hchars, hrest, hstart, hlast⟩ := exists_mode_of_append hlex
  have hmode : mode = .text := by
    cases hl : before.getLast? with
    | none => exact hstart (List.getLast?_eq_none_iff.mp hl)
    | some last =>
      have hkind : last.kind = .blockEnd := TokenStream.kind_of_mem_getLast? hfront last hl
      rw [hlast last hl (by rw [hkind]; rfl), hkind]
      rfl
  subst hmode
  have hreading : token :: back = (TokenStream.ofReading
      (Cursor.origin.skip (before.flatMap Lexeme.chars)) (lexFrom .text rest)).toList := by
    rw [hrest]
    exact hnext
  exact ⟨before.flatMap Lexeme.chars, rest, hchars, TokenStream.readTo_ofLexemes _ _,
    nextInOutput_of_lexFrom hreading⟩

/-- A text has no token exactly if all of its delimiters are escaped. -/
theorem tokens_eq_nil_iff (text : String) : (scan text).tokens = [] ↔ OutputText text.toList := by
  have hkinds : (scan text).tokens.map (·.kind) =
      (lexFrom .text text.toList).lexemes.map (·.kind) := TokenStream.kinds_ofLexemes _ _ _
  rw [← List.map_eq_nil_iff (f := (·.kind)), hkinds, List.map_eq_nil_iff]
  rcases lexFrom_text text.toList with
    ⟨gap, after, kind, chars, tail, lexemes, happ, hfirst, -, hfound⟩ | ⟨houtput, hfound⟩
  · rw [hfound]
    refine iff_of_false (List.cons_ne_nil _ _) fun houtput => ?_
    exact hfirst.not_escaped (houtput gap after happ hfirst.delimiter)
  · rw [hfound]
    exact iff_of_true rfl houtput

/-- **Escapes.** At the start of a text and after each of its block ends the next token is the first
delimiter that is not escaped, and the end of the file if there is none. A text has no other token
than that one exactly if all of its delimiters are escaped. -/
theorem output_escapes (text : String) :
    (∀ (front back : List Token) (token : Token), (scan text).toList = front ++ token :: back →
      (∀ t ∈ front.getLast?, t.kind = .blockEnd) →
        ∃ before rest, before ++ rest = text.toList ∧ ReadTo front before ∧
          NextInOutput before rest token) ∧
      ((scan text).tokens = [] ↔ OutputText text.toList) :=
  ⟨fun _ _ _ h hfront => nextInOutput_of_scan h hfront, tokens_eq_nil_iff text⟩

/-- Behind a block end, one backslash escapes `<#>` as a whole and two escape nothing. -/
theorem output_escapes_after_blockEnd :
    let text := "#>é\\<#>\\\\<#"
    let stop : Token := ⟨⟨.blockEnd, .ofBounds 0 2, ⟨0, 0⟩⟩, "#>"⟩
    let start : Token := ⟨⟨.statementStart, .ofBounds 10 12, ⟨0, 10⟩⟩, "<#"⟩
    (scan text).toList = [stop] ++ start :: [(scan text).endOfFile] ∧
      (∀ t ∈ [stop].getLast?, t.kind = .blockEnd) ∧
      ∃ before rest, before ++ rest = text.toList ∧ ReadTo [stop] before ∧
        NextInOutput before rest start := by
  intro text stop start
  have htokens : (scan text).toList = [stop] ++ start :: [(scan text).endOfFile] := by
    decide +kernel
  have hlast : ∀ t ∈ [stop].getLast?, t.kind = .blockEnd := by simp [stop]
  exact ⟨htokens, hlast, (output_escapes text).1 _ _ _ htokens hlast⟩

end TextTemplate
