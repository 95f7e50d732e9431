import Mathlib.Algebra.Ring.Parity
import Mathlib.Data.List.DropRight
import TextTemplate.Proofs.Rendering
import TextTemplate.Proofs.TokenPlaces

/-!
# Tokens and gaps tile a text

Between two tokens the reader skips characters, and what it skips depends on the token in front of
them: nothing after the start of a code block or after code, white space inside of a directive, and
output text after a block end or at the start of the text (`SkippedAfter`). Together with the tokens
these gaps are the whole text (`tokens_tile`).

Output text may hold delimiters, but only escaped ones (`OutputText`). A backslash in front of `<#>`
escapes the first two characters as a block start; the block end that overlaps them is passed over
with them.

What a mode skips is a matter of one step (`skips_of_step_token`), and since a token determines the
mode after it as far as gaps are concerned, the statement about a whole reading follows by induction
on its steps (`gapsFit_lexFrom`).
-/
namespace TextTemplate

/-! ## Gaps -/

/-- An odd number of backslashes stands at the end of the characters. -/
def EndsEscaping (cs : List Char) : Prop :=
  Odd (cs.rtakeWhile (· = '\\')).length

/-- Every delimiter in the characters is escaped by the backslashes in front of it, or it is the
block end that begins inside of an escaped block start. -/
def OutputText (gap : List Char) : Prop :=
  ∀ before after, before ++ after = gap → ['<', '#'] <+: after ∨ ['#', '>'] <+: after →
    EndsEscaping before ∨
      ∃ outer rest, before = outer ++ ['<'] ∧ after = '#' :: '>' :: rest ∧ EndsEscaping outer

/-- What can be skipped after a token of the kind, or at the start of a text. -/
def SkippedAfter : Option TokenKind → List Char → Prop
  | some .statementStart, gap | some .expressionStart, gap | some .classStart, gap
  | some .code, gap => gap = []
  | some .directiveStart, gap | some .directiveName, gap | some .attributeName, gap
  | some .equals, gap | some .quote, gap | some .attributeValue, gap =>
    ∀ c ∈ gap, isBlank c = true
  | some .blockEnd, gap | none, gap => OutputText gap
  | some .endOfFile, _ => False

/-- What can be skipped in a mode. -/
def Mode.Skips : Mode → List Char → Prop
  | .text, gap => OutputText gap
  | .code, gap => gap = []
  | .directive _, gap | .value _, gap => ∀ c ∈ gap, isBlank c = true

/-! ## Output text -/

theorem atDelimiter_eq_true_iff {cs : List Char} :
    atDelimiter cs = true ↔ ['<', '#'] <+: cs ∨ ['#', '>'] <+: cs := by
  fun_cases atDelimiter cs with
  | case1 cs | case2 cs => simp
  | case3 cs hopen hclose =>
    refine ⟨fun h => by contradiction, ?_⟩
    rintro (⟨rest, rfl⟩ | ⟨rest, rfl⟩)
    · exact absurd rfl (hopen rest)
    · exact absurd rfl (hclose rest)

theorem escapedAfter_iff_endsEscaping (cs : List Char) :
    escapedAfter false cs = true ↔ EndsEscaping cs := by
  rw [EndsEscaping, ← Nat.not_even_iff_odd, ← escapedAfter_eq_false_iff, Bool.not_eq_false]

theorem escapedAfter_backslash (escaped : Bool) (cs : List Char) :
    escapedAfter escaped ('\\' :: cs) = escapedAfter (!escaped) cs := by
  simp [escapedAfter]

theorem escapedAfter_cons {c : Char} (escaped : Bool) (hc : c ≠ '\\') (cs : List Char) :
    escapedAfter escaped (c :: cs) = escapedAfter false cs := by
  simp [escapedAfter, hc]

/-- A delimiter after the characters `before` counts as escaped, by itself or together with a block
start. `escaped` says how the backslashes in front of everything count. -/
def PassedOver (escaped : Bool) (before after : List Char) : Prop :=
  escapedAfter escaped before = true ∨
    ∃ outer rest, before = outer ++ ['<'] ∧ after = '#' :: '>' :: rest ∧
      escapedAfter escaped outer = true

theorem PassedOver.append {escaped escaped' : Bool} {before after : List Char} (first : List Char)
    (h : PassedOver escaped' before after)
    (hfirst : ∀ cs, escapedAfter escaped (first ++ cs) = escapedAfter escaped' cs) :
    PassedOver escaped (first ++ before) after := by
  rcases h with h | ⟨outer, rest, rfl, rfl, h⟩
  · exact .inl ((hfirst before).trans h)
  · exact .inr ⟨first ++ outer, rest, by simp, rfl, (hfirst outer).trans h⟩

/-- All delimiters that begin in what is split off as output text have been passed over. -/
theorem passedOver_of_splitOutput {escaped : Bool} {cs before after : List Char}
    (h : before ++ after = cs) (hlen : before.length < (splitOutput escaped cs).1.length)
    (hd : atDelimiter after = true) : PassedOver escaped before after := by
  fun_induction splitOutput escaped cs generalizing before with
  | case1 | case4 | case6 => simp at hlen
  | case2 escaped cs gap rest hs ih =>
    rcases List.append_eq_cons_iff.mp h with ⟨rfl, rfl⟩ | ⟨before, rfl, htail⟩
    · simp [atDelimiter] at hd
    · have hlen : before.length < (splitOutput (!escaped) cs).1.length := by simpa [hs] using hlen
      exact (ih htail.symm hlen).append ['\\'] (escapedAfter_backslash escaped)
  | case3 cs gap rest hs ih =>
    rcases List.append_eq_cons_iff.mp h with ⟨rfl, rfl⟩ | ⟨before, rfl, htail⟩
    · exact .inl rfl
    · rcases List.append_eq_cons_iff.mp htail.symm with ⟨rfl, rfl⟩ | ⟨before, rfl, htail⟩
      · -- the delimiter begins with the second character of the escaped block start
        obtain ⟨rest, rfl⟩ : ∃ rest, cs = '>' :: rest := by
          cases cs with
          | nil => simp [atDelimiter] at hd
          | cons d cs => simpa [atDelimiter_cons_cons] using hd
        exact .inr ⟨[], rest, rfl, rfl, rfl⟩
      · have hcs : before ++ after = cs := (List.cons.inj htail).2.symm
        have hlen : before.length < (splitOutput false cs).1.length := by simpa [hs] using hlen
        exact (ih hcs hlen).append ['<', '#'] fun cs => by simp [escapedAfter]
  | case5 cs gap rest hs ih =>
    rcases List.append_eq_cons_iff.mp h with ⟨rfl, rfl⟩ | ⟨before, rfl, htail⟩
    · exact .inl rfl
    · rcases List.append_eq_cons_iff.mp htail.symm with ⟨rfl, rfl⟩ | ⟨before, rfl, htail⟩
      · simp [atDelimiter] at hd
      · have hcs : before ++ after = cs := (List.cons.inj htail).2.symm
        have hlen : before.length < (splitOutput false cs).1.length := by simpa [hs] using hlen
        exact (ih hcs hlen).append ['#', '>'] fun cs => by simp [escapedAfter]
  | case7 escaped c cs hc hopen hclose gap rest hs ih =>
    rcases List.append_eq_cons_iff.mp h with ⟨rfl, rfl⟩ | ⟨before, rfl, htail⟩
    · simp only [atDelimiter] at hd
      split at hd <;> simp_all
    · have hlen : before.length < (splitOutput false cs).1.length := by simpa [hs] using hlen
      exact (ih htail.symm hlen).append [c] (escapedAfter_cons escaped hc)

theorem outputText_splitOutput (cs : List Char) : OutputText (splitOutput false cs).1 := by
  intro before after h hd
  have hcs : before ++ (after ++ (splitOutput false cs).2) = cs := by
    rw [← List.append_assoc, h, append_splitOutput]
  have hne : after ≠ [] := by
    rintro rfl
    simp at hd
  have hlen : before.length < (splitOutput false cs).1.length := by
    have := List.length_pos_of_ne_nil hne
    rw [← h, List.length_append]
    omega
  have hdelimiter : atDelimiter (after ++ (splitOutput false cs).2) = true :=
    atDelimiter_eq_true_iff.mpr
      (hd.imp (·.trans (List.prefix_append _ _)) (·.trans (List.prefix_append _ _)))
  rcases passedOver_of_splitOutput hcs hlen hdelimiter with
    hbefore | ⟨outer, rest, rfl, hafter, houter⟩
  · exact .inl ((escapedAfter_iff_endsEscaping before).mp hbefore)
  · refine .inr ⟨outer, ?_⟩
    rcases hd with ⟨tail, rfl⟩ | ⟨tail, rfl⟩
    · simp at hafter
    · exact ⟨tail, rfl, rfl, (escapedAfter_iff_endsEscaping outer).mp houter⟩

/-! ## Steps and readings -/

section Steps
variable {mode mode' : Mode} {cs rest gap : List Char} {lexeme : Lexeme} {kind : TokenKind}

/-- After a delimiter the reader skips what can be skipped there. -/
theorem skippedAfter_of_isDelimiter (hk : kind.isDelimiter = true)
    (h : (Mode.after kind).Skips gap) : SkippedAfter (some kind) gap := by
  cases kind <;> first | exact h | contradiction

theorem skippedAfter_of_stepDirective {named : Bool} {skipped : List Char}
    (h : stepDirective named skipped cs = .token lexeme rest mode') (hgap : mode'.Skips gap) :
    SkippedAfter (some lexeme.kind) gap := by
  by_cases hk : lexeme.kind.isDelimiter
  · obtain ⟨-, rfl⟩ := delimiter?_of_stepDirective h hk
    exact skippedAfter_of_isDelimiter hk hgap
  · unfold stepDirective at h
    split at h
    · rename_i hd
      obtain ⟨rfl, -, -⟩ := Step.token.inj h
      exact absurd (isDelimiter_of_delimiter? hd) hk
    · contradiction
    · obtain ⟨rfl, -, rfl⟩ := Step.token.inj h
      exact hgap
    · obtain ⟨rfl, -, rfl⟩ := Step.token.inj h
      exact hgap
    · obtain ⟨rfl, -, rfl⟩ := Step.token.inj h
      cases named <;> exact hgap

/-- A step skips what its mode skips, and what the mode after it skips can be skipped after the
token that the step has found. -/
theorem skips_of_step_token (h : step mode cs = .token lexeme rest mode') :
    mode.Skips lexeme.gap ∧ ∀ gap, mode'.Skips gap → SkippedAfter (some lexeme.kind) gap := by
  fun_cases step mode cs with
  | case1 cs skipped rest' hs =>
    have houtput := outputText_splitOutput cs
    rw [hs] at houtput
    rw [step, hs] at h
    obtain ⟨hd, rfl⟩ := delimiter?_of_stepDelimiter h
    refine ⟨?_, fun gap => skippedAfter_of_isDelimiter (isDelimiter_of_delimiter? hd)⟩
    rw [(append_of_stepDelimiter h).1]
    exact houtput
  | case2 cs rest' hs =>
    rw [step, hs] at h
    obtain ⟨hd, rfl⟩ := delimiter?_of_stepDelimiter h
    exact ⟨(append_of_stepDelimiter h).1,
      fun gap => skippedAfter_of_isDelimiter (isDelimiter_of_delimiter? hd)⟩
  | case3 cs c code rest' hs =>
    rw [step, hs] at h
    obtain ⟨rfl, -, rfl⟩ := Step.token.inj h
    exact ⟨rfl, fun gap hgap => hgap⟩
  | case4 named cs =>
    rw [step] at h
    refine ⟨?_, fun gap => skippedAfter_of_stepDirective h⟩
    rw [(append_of_stepDirective h).1]
    exact fun c hc => List.mem_takeWhile_imp hc
  | case5 => simp [step] at h
  | case6 rest' =>
    rw [step] at h
    obtain ⟨rfl, -, rfl⟩ := Step.token.inj h
    exact ⟨by simp [Mode.Skips], fun gap hgap => hgap⟩
  | case7 => simp [step] at h
  | case8 =>
    rw [step] at h
    obtain ⟨hgap, -, rfl⟩ := append_of_stepValue h
    rw [hgap, kind_of_stepValue h]
    exact ⟨by simp [Mode.Skips], fun gap hgap => hgap⟩

theorem skips_of_step_finish (h : step mode cs = .finish gap) : mode.Skips gap := by
  fun_cases step mode cs with
  | case1 cs skipped rest' hs =>
    have houtput := outputText_splitOutput cs
    have hrest := atDelimiter_splitOutput false cs
    rw [hs] at houtput hrest
    rw [step, hs] at h
    obtain ⟨-, rfl⟩ := eq_nil_of_stepDelimiter_finish hrest h
    exact houtput
  | case2 cs rest' hs =>
    have hrest := atDelimiter_splitWhere cs
    rw [hs] at hrest
    rw [step, hs] at h
    exact (eq_nil_of_stepDelimiter_finish hrest h).2
  | case3 cs c code rest' hs =>
    rw [step, hs] at h
    contradiction
  | case4 named cs =>
    rw [step] at h
    unfold stepDirective at h
    split at h <;> try contradiction
    obtain rfl := Step.finish.inj h
    exact fun c hc => List.mem_takeWhile_imp hc
  | case5 =>
    obtain rfl := Step.finish.inj h
    simp [Mode.Skips]
  | case6 => simp [step] at h
  | case7 => simp [step] at h
  | case8 =>
    rw [step, stepValue] at h
    split at h <;> try contradiction
    obtain rfl := Step.finish.inj h
    simp [Mode.Skips]

end Steps

theorem Mode.skips_nil (mode : Mode) : mode.Skips [] := by
  cases mode with
  | text =>
    intro before after h hd
    obtain ⟨-, rfl⟩ := List.append_eq_nil_iff.mp h
    simp at hd
  | code => rfl
  | directive | value => simp [Skips]

/-- The gaps in front of the lexemes and at the end are such as can be skipped after the tokens in
front of them, the first one after `prev`. -/
def GapsFit (prev : Option TokenKind) (trailing : List Char) : List Lexeme → Prop
  | [] => SkippedAfter prev trailing
  | lexeme :: lexemes =>
    SkippedAfter prev lexeme.gap ∧ GapsFit (some lexeme.kind) trailing lexemes

/-- The gaps of a reading, where `prev` has led to the mode that it starts in. -/
theorem gapsFit_lexFrom {prev : Option TokenKind} {mode : Mode}
    (h : ∀ gap, mode.Skips gap → SkippedAfter prev gap) (cs : List Char) :
    GapsFit prev (lexFrom mode cs).trailing (lexFrom mode cs).lexemes := by
  fun_induction lexFrom mode cs generalizing prev with
  | case1 mode cs lexeme rest mode' hs reading =>
    rename_i ih
    obtain ⟨hgap, hafter⟩ := skips_of_step_token hs
    exact ⟨h _ hgap, ih hafter⟩
  | case2 mode cs mode' hs ih =>
    -- a value is left for its directive, where white space is skipped as well
    obtain ⟨⟨done, rfl⟩, rfl⟩ := eq_of_step_leave hs
    exact ih h
  | case3 mode cs gap hs => exact h gap (skips_of_step_finish hs)

theorem kind_ne_endOfFile {mode : Mode} {cs : List Char} {lexeme : Lexeme}
    (h : lexeme ∈ (lexFrom mode cs).lexemes) : lexeme.kind ≠ .endOfFile := by
  fun_induction lexFrom mode cs with
  | case1 mode cs found rest mode' hs reading ih =>
    rcases List.mem_cons.mp h with rfl | h
    · intro hk
      have hafter := (skips_of_step_token hs).2 [] mode'.skips_nil
      rw [hk] at hafter
      exact hafter
    · exact ih h
  | case2 mode cs mode' hs ih => exact ih h
  | case3 => simp at h

/-! ## Tokens -/

/-- The token stands where its place says: its ends are on character boundaries, its text is what
stands between them, and its position is that of its start. -/
structure Token.PlacedIn (text : String) (t : Token) : Prop where
  start_onBoundary : onBoundary text.toList t.span.start = true
  stop_onBoundary : onBoundary text.toList t.span.stop = true
  slice_eq : slice? text.toList t.span.start t.span.stop = some t.text.toList
  position_eq : t.position = (LineIndex.ofText text).position t.span.start

/-- The tokens of a text from an offset on, with the gap in front of each of them. The token that
stops at the offset is of kind `prev`, and the last one stops at the end of the text. -/
inductive Tiles (text : String) :
    Option TokenKind → Nat → List (List Char) → List Token → Prop
  | nil {prev : Option TokenKind} : Tiles text prev (byteLength text.toList) [] []
  | cons {prev : Option TokenKind} {offset : Nat} {gap : List Char} {gaps : List (List Char)}
      {token : Token} {tokens : List Token}
      (hgap : slice? text.toList offset token.span.start = some gap)
      (hskipped : SkippedAfter prev gap)
      (hrest : Tiles text (some token.kind) token.span.stop gaps tokens) :
      Tiles text prev offset (gap :: gaps) (token :: tokens)

theorem slice?_append (as bs cs : List Char) :
    slice? (as ++ (bs ++ cs)) (byteLength as) (byteLength (as ++ bs)) = some bs := by
  rw [slice?, ← List.append_assoc, splitAtByte?_append]
  simp

section Placed
variable {as cs bs : List Char} (hlen : byteLength (as ++ (cs ++ bs)) ≤ maxOffset)
  (kind : TokenKind)
include hlen

theorem start_token : ((Cursor.origin.skip as).token kind cs).span.start = byteLength as := by
  simp only [byteLength_append] at hlen
  rw [Cursor.token, Cursor.offset_origin_skip, Span.start_ofBounds (by omega)]

theorem stop_token : ((Cursor.origin.skip as).token kind cs).span.stop = byteLength (as ++ cs) := by
  simp only [byteLength_append] at hlen
  rw [Cursor.token, Cursor.offset_origin_skip, Span.stop_ofBounds (by omega) (by omega),
    byteLength_append]

theorem placedIn_token :
    ((Cursor.origin.skip as).token kind cs).PlacedIn (String.ofList (as ++ (cs ++ bs))) where
  start_onBoundary := by
    rw [start_token hlen, String.toList_ofList, onBoundary, splitAtByte?_append]
    rfl
  stop_onBoundary := by
    rw [stop_token hlen, String.toList_ofList, onBoundary, ← List.append_assoc, splitAtByte?_append]
    rfl
  slice_eq := by
    rw [start_token hlen, stop_token hlen, String.toList_ofList, slice?_append]
    exact congrArg some String.toList_ofList.symm
  position_eq := by
    rw [start_token hlen, LineIndex.ofText, String.toList_ofList, LineIndex.position_byteLength]
    rfl

end Placed

/-- A token after a gap, in front of a text that is tiled from there on. -/
theorem Tiles.token {text : String} {prev : Option TokenKind} {kind : TokenKind}
    {before gap cs after : List Char} {gaps : List (List Char)} {tokens : List Token}
    (htext : before ++ gap ++ (cs ++ after) = text.toList)
    (hlen : byteLength text.toList ≤ maxOffset) (hskipped : SkippedAfter prev gap)
    (hrest : Tiles text (some kind) (byteLength (before ++ gap ++ cs)) gaps tokens) :
    Tiles text prev (byteLength before) (gap :: gaps)
      ((Cursor.origin.skip (before ++ gap)).token kind cs :: tokens) := by
  rw [← htext] at hlen
  refine .cons ?_ hskipped ?_
  · rw [start_token hlen, ← htext, List.append_assoc before, slice?_append]
  · rwa [stop_token hlen]

namespace TokenStream

/-- The tokens of lexemes whose gaps fit tile the text that the lexemes are the end of. -/
theorem tiles_ofLexemes {text : String} {prev : Option TokenKind} {trailing : List Char}
    {lexemes : List Lexeme} (before : List Char) (hlen : byteLength text.toList ≤ maxOffset)
    (htext : before ++ (lexemes.flatMap Lexeme.chars ++ trailing) = text.toList)
    (hfit : GapsFit prev trailing lexemes) :
    Tiles text prev (byteLength before) (lexemes.map (·.gap) ++ [trailing])
      (ofLexemes (Cursor.origin.skip before) trailing lexemes).toList := by
  induction lexemes generalizing before prev with
  | nil =>
    have hend : before ++ trailing ++ [] = text.toList := by simpa using htext
    have hrest : Tiles text (some .endOfFile) (byteLength (before ++ trailing ++ [])) [] [] := by
      rw [hend]
      exact .nil
    rw [toList, ofLexemes, ← Cursor.skip_append]
    exact .token hend hlen hfit hrest
  | cons lexeme lexemes ih =>
    obtain ⟨hgap, hfit⟩ := hfit
    have hparts : before ++ lexeme.gap ++
        (lexeme.text ++ (lexemes.flatMap Lexeme.chars ++ trailing)) = text.toList := by
      simpa [Lexeme.chars] using htext
    have hrest := ih (before ++ lexeme.gap ++ lexeme.text) (by simpa using hparts) hfit
    rw [Cursor.skip_append] at hrest
    rw [toList, ofLexemes, ← Cursor.skip_append]
    exact .token hparts hlen hgap hrest

/-- The gaps and the texts of the tokens in turn are the characters of the lexemes. -/
theorem flatten_ofLexemes (here : Cursor) (trailing : List Char) (lexemes : List Lexeme) :
    (List.zipWith (fun gap t => gap ++ t.text.toList) (lexemes.map (·.gap) ++ [trailing])
      (ofLexemes here trailing lexemes).toList).flatten =
        lexemes.flatMap Lexeme.chars ++ trailing := by
  induction lexemes generalizing here with
  | nil => simp [ofLexemes, toList, Cursor.token]
  | cons lexeme lexemes ih =>
    have hrest := ih ((here.skip lexeme.gap).skip lexeme.text)
    simp only [toList] at hrest
    simp [ofLexemes, toList, Cursor.token, Lexeme.chars, hrest]

end TokenStream

/-- Every token of a text, the last one included, stands where its place says. -/
theorem placedIn_of_mem_scan {text : String} (hlen : byteLength text.toList ≤ maxOffset)
    {t : Token} (ht : t ∈ (scan text).toList) : t.PlacedIn text := by
  rcases List.mem_append.mp ht with ht | ht
  · obtain ⟨as, cs, bs, htext, -, htoken⟩ := exists_of_mem_scanChars ht
    rw [htoken, ← String.ofList_toList (s := text), ← htext]
    exact placedIn_token (by rwa [htext]) t.kind
  · obtain rfl := List.mem_singleton.mp ht
    have htext : text.toList ++ ([] ++ []) = text.toList := by simp
    have hplaced := placedIn_token (htext.symm ▸ hlen) .endOfFile
    rw [htext, String.ofList_toList] at hplaced
    rwa [scan, endOfFile_scanChars]

theorem kind_ne_of_mem_scan {text : String} {t : Token} (ht : t ∈ (scan text).tokens) :
    t.kind ≠ .endOfFile := by
  obtain ⟨before, lexeme, after, hlex, rfl⟩ := TokenStream.exists_of_mem_ofLexemes ht
  exact kind_ne_endOfFile (by rw [← lex, hlex]; simp)

theorem span_endOfFile {text : String} (hlen : byteLength text.toList ≤ maxOffset) :
    (scan text).endOfFile.span.start = byteLength text.toList ∧
      (scan text).endOfFile.span.length = 0 := by
  rw [scan, endOfFile_scanChars, Cursor.token, Cursor.offset_origin_skip, byteLength_nil,
    Nat.add_zero, Span.start_ofBounds hlen, Span.length_ofBounds hlen, Nat.sub_self]
  exact ⟨rfl, rfl⟩

/-- **Tiling.** The tokens of a text stand in order and where their places say, the only token for
the end of the file last and at the end of the text. The gaps between them are such as can be
skipped there, and gaps and tokens in turn are the text. -/
theorem tokens_tile (text : String) (hlen : byteLength text.toList < 2 ^ 32) :
    (∀ t ∈ (scan text).tokens, t.kind ≠ .endOfFile) ∧
      (scan text).endOfFile.kind = .endOfFile ∧
      (scan text).endOfFile.span.start = byteLength text.toList ∧
      (scan text).endOfFile.span.length = 0 ∧
      ((scan text).toList.Pairwise fun s t => s.span.stop ≤ t.span.start) ∧
      (∀ t ∈ (scan text).toList, t.PlacedIn text) ∧
      ∃ gaps : List (List Char), Tiles text none 0 gaps (scan text).toList ∧
        (List.zipWith (fun gap t => gap ++ t.text.toList) gaps (scan text).toList).flatten =
          text.toList := by
  have hmax : byteLength text.toList ≤ maxOffset := Nat.le_of_lt_succ hlen
  obtain ⟨hstart, hlength⟩ := span_endOfFile hmax
  refine ⟨fun t => kind_ne_of_mem_scan, kind_endOfFile_scan text, hstart, hlength, ?_,
    fun t ht => placedIn_of_mem_scan hmax ht, ?_⟩
  · exact (TokenStream.pairwise_ofLexemes _ _ _).2
  · have hchars := chars_lexFrom .text text.toList
    have hstart : ∀ gap, Mode.text.Skips gap → SkippedAfter none gap := fun gap hgap => hgap
    have hfit := gapsFit_lexFrom hstart text.toList
    refine ⟨(lex text.toList).lexemes.map (·.gap) ++ [(lex text.toList).trailing], ?_, ?_⟩
    · exact TokenStream.tiles_ofLexemes [] hmax hchars hfit
    · exact (TokenStream.flatten_ofLexemes _ _ _).trans hchars

/-- A backslash passes over `<#>` as a whole, so that the block end after it is the first token. -/
theorem tokens_tile_past_escaped_overlap :
    let text := "é\\<#>#>\n<#@ a b=\"\"#>"
    byteLength text.toList < 2 ^ 32 ∧
      (scan text).tokens.map (·.span.start) = [6, 9, 13, 15, 16, 17, 18, 18, 19] ∧
      ∃ gaps : List (List Char), Tiles text none 0 gaps (scan text).toList ∧
        (List.zipWith (fun gap t => gap ++ t.text.toList) gaps (scan text).toList).flatten =
          text.toList := by
  intro text
  have hlen : byteLength text.toList < 2 ^ 32 := by decide +kernel
  obtain ⟨-, -, -, -, -, -, htiles⟩ := tokens_tile text hlen
  exact ⟨hlen, by decide +kernel, htiles⟩

end TextTemplate
