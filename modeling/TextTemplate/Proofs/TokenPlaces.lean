import TextTemplate.Proofs.Places
import TextTemplate.Proofs.Readings
import TextTemplate.Tree.Node

/-!
# The places of tokens

Every token of a text is found at the cursor that has run along everything in front of it
(`exists_of_mem_scanChars`), and the token at the end at the cursor that has run along everything.
Since a token is always found in front of something, it starts before the end of the text
(`start_lt_of_mem_scanChars`); the token at the end is the only one that does not. The text of a
token can be cut out of the whole text by its span (`textOf_span_of_mem_scanChars`).
-/
namespace TextTemplate

theorem byteLength_pos {cs : List Char} (h : cs ≠ []) : 0 < byteLength cs := by
  obtain ⟨c, cs, rfl⟩ := List.exists_cons_of_ne_nil h
  have := Char.utf8Size_pos c
  simp only [byteLength_cons]
  omega

/-- A lexeme stands in front of something, if only the rest of the text. -/
theorem text_append_ne_nil_of_lexFrom {mode : Mode} {cs : List Char} {before after : List Lexeme}
    {lexeme : Lexeme} (h : (lexFrom mode cs).lexemes = before ++ lexeme :: after) :
    lexeme.text ++ (after.flatMap Lexeme.chars ++ (lexFrom mode cs).trailing) ≠ [] := by
  fun_induction lexFrom mode cs generalizing before with
  | case1 mode cs found rest mode' hs reading =>
    rename_i ih
    cases before with
    | nil =>
      obtain ⟨rfl, rfl⟩ := List.cons.inj h
      show _ ++ (_ ++ (lexFrom mode' rest).trailing) ≠ []
      rw [chars_lexFrom]
      exact text_append_ne_nil_of_step_token hs
    | cons first before =>
      obtain ⟨-, hrest⟩ := List.cons.inj h
      exact ih hrest
  | case2 mode cs mode' hs ih => exact ih h
  | case3 => simp at h

theorem byteLength_text_le {mode : Mode} {cs : List Char} {lexeme : Lexeme}
    (h : lexeme ∈ (lexFrom mode cs).lexemes) : byteLength lexeme.text ≤ byteLength cs := by
  obtain ⟨before, after, hlex⟩ := List.append_of_mem h
  have hcs := congrArg byteLength (chars_lexFrom mode cs)
  rw [hlex] at hcs
  simp only [List.flatMap_append, List.flatMap_cons, byteLength_append, Lexeme.chars] at hcs
  omega

/-- The kind and the text of a token, without its place. -/
def Token.spelling (token : Token) : TokenKind × String :=
  (token.kind, token.text)

namespace TokenStream

theorem spelling_ofLexemes (here : Cursor) (trailing : List Char)
    (lexemes : List Lexeme) :
    (ofLexemes here trailing lexemes).tokens.map Token.spelling =
      lexemes.map fun lexeme => (lexeme.kind, String.ofList lexeme.text) := by
  induction lexemes generalizing here with
  | nil => rfl
  | cons lexeme lexemes ih =>
    rw [ofLexemes, List.map_cons, List.map_cons, ih]
    rfl

theorem kinds_ofLexemes (here : Cursor) (trailing : List Char) (lexemes : List Lexeme) :
    (ofLexemes here trailing lexemes).tokens.map (·.kind) = lexemes.map (·.kind) := by
  have hkinds := congrArg (List.map Prod.fst) (spelling_ofLexemes here trailing lexemes)
  rwa [List.map_map, List.map_map] at hkinds

/-- The tokens of some lexemes followed by others; those of the first do not depend on what is
skipped after them. -/
theorem ofLexemes_append (here : Cursor) (trailing trailing' : List Char)
    (before after : List Lexeme) :
    ofLexemes here trailing (before ++ after) =
      ⟨(ofLexemes here trailing' before).tokens ++
          (ofLexemes (here.skip (before.flatMap Lexeme.chars)) trailing after).tokens,
        (ofLexemes (here.skip (before.flatMap Lexeme.chars)) trailing after).endOfFile⟩ := by
  induction before generalizing here with
  | nil => rfl
  | cons lexeme before ih =>
    simp only [List.cons_append, ofLexemes, ih, List.flatMap_cons, Cursor.skip_append,
      Lexeme.chars]

theorem endOfFile_ofLexemes (here : Cursor) (trailing : List Char) (lexemes : List Lexeme) :
    (ofLexemes here trailing lexemes).endOfFile =
      (here.skip (lexemes.flatMap Lexeme.chars ++ trailing)).token .endOfFile [] := by
  induction lexemes generalizing here with
  | nil => rfl
  | cons lexeme lexemes ih =>
    simp only [ofLexemes, ih, List.flatMap_cons, Cursor.skip_append, Lexeme.chars]

/-- A token is a lexeme, placed by what stands in front of it. -/
theorem exists_of_mem_ofLexemes {here : Cursor} {trailing : List Char} {lexemes : List Lexeme}
    {token : Token} (h : token ∈ (ofLexemes here trailing lexemes).tokens) :
    ∃ before lexeme after, lexemes = before ++ lexeme :: after ∧
      token = (here.skip (before.flatMap Lexeme.chars ++ lexeme.gap)).token
        lexeme.kind lexeme.text := by
  induction lexemes generalizing here with
  | nil => simp [ofLexemes] at h
  | cons lexeme lexemes ih =>
    rcases List.mem_cons.mp h with rfl | h
    · exact ⟨[], lexeme, lexemes, rfl, rfl⟩
    · obtain ⟨before, found, after, rfl, rfl⟩ := ih h
      refine ⟨lexeme :: before, found, after, rfl, ?_⟩
      simp only [List.flatMap_cons, Lexeme.chars, Cursor.skip_append]

/-- Tokens follow one another: none starts before the cursor, and none before the last one stops. -/
theorem pairwise_ofLexemes (here : Cursor) (trailing : List Char) (lexemes : List Lexeme) :
    (∀ t ∈ (ofLexemes here trailing lexemes).toList, min here.offset maxOffset ≤ t.span.start) ∧
      (ofLexemes here trailing lexemes).toList.Pairwise fun s t => s.span.stop ≤ t.span.start := by
  induction lexemes generalizing here with
  | nil =>
    have hoffset : here.offset ≤ (here.skip trailing).offset := by
      rw [Cursor.offset_skip]
      omega
    refine ⟨fun t ht => ?_, List.pairwise_singleton _ _⟩
    obtain rfl := List.mem_singleton.mp ht
    show min _ _ ≤ min _ _
    omega
  | cons lexeme lexemes ih =>
    obtain ⟨hbound, hpairs⟩ := ih ((here.skip lexeme.gap).skip lexeme.text)
    have hoffset : here.offset ≤ (here.skip lexeme.gap).offset := by
      rw [Cursor.offset_skip]
      omega
    have hstop : ((here.skip lexeme.gap).token lexeme.kind lexeme.text).span.stop =
        min ((here.skip lexeme.gap).skip lexeme.text).offset maxOffset := by
      rw [Cursor.token, Span.stop_ofBounds_eq_min (by omega), Cursor.offset_skip _ lexeme.text]
    refine ⟨fun t ht => ?_, List.pairwise_cons.mpr ⟨fun t ht => ?_, hpairs⟩⟩
    · rcases List.mem_cons.mp ht with rfl | ht
      · show min _ _ ≤ min _ _
        omega
      · refine Nat.le_trans ?_ (hbound t ht)
        rw [Cursor.offset_skip _ lexeme.text]
        omega
    · exact hstop ▸ hbound t ht

end TokenStream

/-- The tokens of a text follow one another. -/
theorem pairwise_scanChars (cs : List Char) :
    (scanChars cs).tokens.Pairwise fun s t => s.span.stop ≤ t.span.start :=
  (TokenStream.pairwise_ofLexemes _ _ _).2.sublist (List.sublist_append_left _ _)

theorem endOfFile_scanChars (cs : List Char) :
    (scanChars cs).endOfFile = (Cursor.origin.skip cs).token .endOfFile [] := by
  rw [scanChars, TokenStream.ofReading, TokenStream.endOfFile_ofLexemes, lex, chars_lexFrom]

theorem kind_endOfFile_scan (text : String) : (scan text).endOfFile.kind = .endOfFile := by
  rw [scan, endOfFile_scanChars]
  rfl

/-- A token is found where the cursor gets to along the characters in front of it, and there are
characters from there on. -/
theorem exists_of_mem_scanChars {cs : List Char} {token : Token}
    (h : token ∈ (scanChars cs).tokens) :
    ∃ as text bs, as ++ (text ++ bs) = cs ∧ text ++ bs ≠ [] ∧
      token = (Cursor.origin.skip as).token token.kind text := by
  obtain ⟨before, lexeme, after, hlex, rfl⟩ := TokenStream.exists_of_mem_ofLexemes h
  have hcs := chars_lexFrom .text cs
  have hne := text_append_ne_nil_of_lexFrom hlex
  refine ⟨before.flatMap Lexeme.chars ++ lexeme.gap, lexeme.text,
    after.flatMap Lexeme.chars ++ (lexFrom .text cs).trailing, ?_, hne, rfl⟩
  rw [lex] at hlex
  rw [hlex] at hcs
  simpa [Lexeme.chars] using hcs

/-- A token with characters has a byte wherever a span can have one. -/
theorem Cursor.wide_span_token (here : Cursor) (kind : TokenKind) {cs : List Char} (h : cs ≠ []) :
    (here.token kind cs).span.Wide := by
  have hpos := byteLength_pos h
  intro hstart
  have hoffset : here.offset < maxOffset := by
    simp only [Cursor.token, Span.ofBounds, Span.ofParts] at hstart
    omega
  have hstop : (here.token kind cs).span.stop = min (here.offset + byteLength cs) maxOffset :=
    Span.stop_ofBounds_eq_min (Nat.le_add_right _ _)
  have hstart : (here.token kind cs).span.start = here.offset :=
    Span.start_ofBounds (Nat.le_of_lt hoffset)
  omega

section Bounds
variable {cs : List Char} {token : Token}

/-- The span of a token has a byte, if the token has characters, and is empty otherwise. -/
theorem wide_of_mem_scanChars (h : token ∈ (scanChars cs).tokens) :
    (token.text ≠ "" → token.span.Wide) ∧ (token.text = "" → token.span.isEmpty = true) := by
  obtain ⟨as, text, bs, -, -, htoken⟩ := exists_of_mem_scanChars h
  have htext : token.text = String.ofList text := by rw [htoken]; rfl
  rw [htext, htoken]
  constructor
  · intro hne
    exact Cursor.wide_span_token _ _ fun hnil => hne (by rw [hnil])
  · intro hnil
    have hempty : text = [] := by
      rw [← String.toList_ofList (l := text), hnil]
      rfl
    rw [hempty]
    simp [Cursor.token, Span.ofBounds, Span.ofParts, Span.isEmpty]

theorem stop_le_of_mem_scanChars (h : token ∈ (scanChars cs).tokens) :
    token.span.stop ≤ byteLength cs := by
  obtain ⟨as, text, bs, rfl, -, htoken⟩ := exists_of_mem_scanChars h
  rw [htoken, Cursor.token, Cursor.offset_origin_skip,
    Span.stop_ofBounds_eq_min (Nat.le_add_right _ _), byteLength_append, byteLength_append]
  omega

theorem start_lt_of_mem_scanChars (hlen : byteLength cs ≤ maxOffset)
    (h : token ∈ (scanChars cs).tokens) : token.span.start < byteLength cs := by
  obtain ⟨as, text, bs, rfl, hne, htoken⟩ := exists_of_mem_scanChars h
  have hpos := byteLength_pos hne
  rw [byteLength_append] at hlen ⊢
  rw [htoken, Cursor.token, Cursor.offset_origin_skip, Span.start_ofBounds (by omega)]
  omega

/-- In a text that stands after `count` bytes, and stays within the bounds of spans there, so do all
of its tokens. -/
theorem fits_of_mem_scanChars {count : Nat} (hlen : count + byteLength cs ≤ maxOffset)
    (h : token ∈ (scanChars cs).tokens) : token.span.Fits count := by
  obtain ⟨as, text, bs, rfl, -, htoken⟩ := exists_of_mem_scanChars h
  simp only [byteLength_append] at hlen
  rw [htoken, Cursor.token, Cursor.offset_origin_skip, Span.Fits, Span.start_ofBounds (by omega),
    Span.length_ofBounds (by omega)]
  omega

/-- The text of a token is what stands in its span. -/
theorem textOf_span_of_mem_scanChars (hlen : byteLength cs ≤ maxOffset)
    (h : token ∈ (scanChars cs).tokens) : token.span.textOf (String.ofList cs) = token.text := by
  obtain ⟨as, text, bs, rfl, -, htoken⟩ := exists_of_mem_scanChars h
  simp only [byteLength_append] at hlen
  have hstart : token.span.start = byteLength as := by
    rw [htoken, Cursor.token, Cursor.offset_origin_skip, Span.start_ofBounds (by omega)]
  have hstop : token.span.stop = byteLength (as ++ text) := by
    rw [htoken, Cursor.token, Cursor.offset_origin_skip, Span.stop_ofBounds (by omega) (by omega),
      byteLength_append]
  have htext : token.text = String.ofList text := by rw [htoken]; rfl
  rw [Span.textOf, slice?, hstart, hstop, htext, String.toList_ofList, ← List.append_assoc,
    splitAtByte?_append]
  simp

end Bounds

end TextTemplate
