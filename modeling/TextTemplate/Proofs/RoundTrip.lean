import Mathlib.Data.List.Forall2
import TextTemplate.Proofs.Acceptance
import TextTemplate.Proofs.Rendering

/-!
# Written templates are read back

A template that was written out piece by piece has no faults, and its blocks are the pieces that
are blocks, in order and with the same contents (`parse_render`).

The tokens of the written template are those of its pieces. Each piece that is a block is a word of
the grammar, so the tokens are cut into the pieces again, and what is left to show is how a single
piece is read (`Piece.exists_read`).
-/
namespace TextTemplate

/-! ## Tokens -/

/-- A spelling with its characters as a string. -/
def spelled (spelling : TokenKind × List Char) : TokenKind × String :=
  (spelling.1, String.ofList spelling.2)

/-- The tokens of pieces that were written out. -/
theorem spelling_scan_render (pieces : List Piece) :
    (scan (render pieces)).tokens.map Token.spelling =
      (pieces.flatMap Piece.spellings).map spelled := by
  rw [scan, render, String.toList_ofList, scanChars, TokenStream.ofReading,
    TokenStream.spelling_ofLexemes, ← spellings_render, Reading.spellings, List.map_map]
  rfl

/-! ## One piece -/

/-- The block is what the piece was written for. The text of its code is found in the source by a
span, so it is only told of sources that spans can reach to the end of. -/
def Block.Shows (source : String) : Block → Piece → Prop
  | .code b, .code start _ inner =>
    b.start.kind = start ∧ b.isComplete = true ∧ (b.code = none ↔ inner.chars = []) ∧
      (byteLength source.toList < 2 ^ 32 →
        ∀ code ∈ b.code, code.span.textOf source = String.ofList inner.chars)
  | .directive d, .directive name attrs =>
    d.isComplete = true ∧ d.name.text = String.ofList name.chars ∧
      d.attributes.map (fun a => (a.name.text, a.value.map (·.text))) =
        attrs.map fun (name, value) =>
          (String.ofList name.chars, some (String.ofList value.chars))
  | _, _ => False

/-- Output text is no block. -/
def Piece.isBlock : Piece → Bool
  | output _ => false
  | _ => true

theorem readAttributes_of_spellings (next : Token) {attrs : List (PlainName × PlainValue)}
    {tokens : List Token}
    (h : tokens.map Token.spelling =
      (attrs.flatMap attributeSpellings ++ [(TokenKind.blockEnd, ['#', '>'])]).map spelled) :
    ∃ found stop, readAttributes next tokens = (found, .ok (stop, [])) ∧
      found.map (fun a => (a.name.text, a.value.map (·.text))) =
        attrs.map fun (name, value) =>
          (String.ofList name.chars, some (String.ofList value.chars)) := by
  induction attrs generalizing tokens with
  | nil =>
    obtain ⟨stop, rest, rfl, hstop, hrest⟩ := List.map_eq_cons_iff.mp h
    obtain rfl := List.map_eq_nil_iff.mp hrest
    exact ⟨[], stop, readAttributes_blockEnd (Prod.mk.inj hstop).1, rfl⟩
  | cons attr attrs ih =>
    simp only [List.flatMap_cons, attributeSpellings, List.cons_append, List.nil_append,
      List.map_cons, List.map_eq_cons_iff] at h
    obtain ⟨name, _, rfl, hname, equals, _, rfl, hequals, openQuote, _, rfl, hopen, value, _, rfl,
      hvalue, closeQuote, tokens, rfl, hclose, hrest⟩ := h
    obtain ⟨found, stop, hread, hfound⟩ := ih hrest
    obtain ⟨hkind, htext⟩ := Prod.mk.inj hname
    obtain ⟨hvalueKind, hvalueText⟩ := Prod.mk.inj hvalue
    rw [readAttributes_attribute hkind (readAttribute_of_kinds (Prod.mk.inj hequals).1
      (Prod.mk.inj hopen).1 hvalueKind (Prod.mk.inj hclose).1), hread]
    refine ⟨_, stop, rfl, ?_⟩
    rw [List.map_cons, List.map_cons, hfound]
    simp [htext, hvalueText]

section OnePiece
variable {source : String} {segment : Segment}

theorem exists_read_directive {name : PlainName} {attrs : List (PlainName × PlainValue)}
    (h : segment.tokens.map Token.spelling = (Piece.directive name attrs).spellings.map spelled) :
    ∃ block, segment.read.block = some block ∧ block.Shows source (.directive name attrs) := by
  obtain ⟨hstart, hbody⟩ := List.cons.inj h
  obtain ⟨nameToken, tokens, hbody, hname, htokens⟩ := List.map_eq_cons_iff.mp hbody
  obtain ⟨hkind, htext⟩ := Prod.mk.inj hname
  obtain ⟨found, stop, hread, hfound⟩ := readAttributes_of_spellings segment.next htokens
  rw [Segment.read, if_pos (Prod.mk.inj hstart).1, readDirective, hbody, expect_cons _ hkind]
  simp only [hread]
  exact ⟨_, rfl, rfl, htext, hfound⟩

theorem exists_read_code {start : TokenKind} {hstart : start.isBlockStart ∧ start ≠ .directiveStart}
    {inner : PlainCode start}
    (h : segment.tokens.map Token.spelling = (Piece.code start hstart inner).spellings.map spelled)
    (htexts : byteLength source.toList < 2 ^ 32 →
      ∀ t ∈ segment.tokens, t.span.textOf source = t.text) :
    ∃ block, segment.read.block = some block ∧ block.Shows source (.code start hstart inner) := by
  obtain ⟨hfirst, hbody⟩ := List.cons.inj h
  have hkind : segment.start.kind = start := (Prod.mk.inj hfirst).1
  rw [Segment.read, if_neg (hkind ▸ hstart.2), readCodeBlock]
  by_cases hinner : inner.chars = []
  · rw [if_pos hinner] at hbody
    obtain ⟨stop, rest, hbody, hstop, -⟩ := List.map_eq_cons_iff.mp hbody
    simp only [hbody, show stop.kind = .blockEnd from (Prod.mk.inj hstop).1]
    exact ⟨_, rfl, hkind, rfl, by simp [hinner], by simp⟩
  · rw [if_neg hinner] at hbody
    obtain ⟨code, rest, hbody, hcode, hrest⟩ := List.map_eq_cons_iff.mp hbody
    obtain ⟨stop, rest, rfl, hstop, -⟩ := List.map_eq_cons_iff.mp hrest
    obtain ⟨hcodeKind, hcodeText⟩ := Prod.mk.inj hcode
    have hmem : code ∈ segment.tokens := by simp [Segment.tokens, hbody]
    simp only [hbody, hcodeKind, expect_cons _ (Prod.mk.inj hstop).1]
    refine ⟨_, rfl, hkind, rfl, by simp [hinner], fun hlen m hm => ?_⟩
    obtain rfl := Option.some.inj hm
    exact (htexts hlen code hmem).trans hcodeText

/-- A piece that is a block is read as that block. -/
theorem Piece.exists_read {piece : Piece} (hblock : piece.isBlock)
    (h : segment.tokens.map Token.spelling = piece.spellings.map spelled)
    (htexts : byteLength source.toList < 2 ^ 32 →
      ∀ t ∈ segment.tokens, t.span.textOf source = t.text) :
    ∃ block, segment.read.block = some block ∧ block.Shows source piece := by
  cases piece with
  | output text => contradiction
  | code start hstart inner => exact exists_read_code h htexts
  | directive name attrs => exact exists_read_directive h

end OnePiece

/-! ## All pieces -/

theorem Piece.kinds_attributes (attrs : List (PlainName × PlainValue)) :
    (attrs.flatMap attributeSpellings).map (·.1) =
      (List.replicate attrs.length Grammar.attrWord).flatten := by
  induction attrs with
  | nil => rfl
  | cons attr attrs ih =>
    rw [List.flatMap_cons, List.map_append, ih]
    rfl

/-- A piece that is a block is a word of the grammar. -/
theorem Piece.kinds_mem_block {piece : Piece} (hblock : piece.isBlock) :
    piece.spellings.map (·.1) ∈ Grammar.block.matches' := by
  cases piece with
  | output text => contradiction
  | code start hstart inner =>
    refine Grammar.mem_block.mpr (.inr (Grammar.mem_codeBlock.mpr ⟨start, hstart.1, hstart.2, ?_⟩))
    by_cases hinner : inner.chars = []
    · exact .inl (by simp [spellings, hinner])
    · exact .inr (by simp [spellings, hinner])
  | directive name attrs =>
    refine Grammar.mem_block.mpr (.inl (Grammar.mem_directive.mpr ⟨attrs.length, ?_⟩))
    simp only [spellings, List.map_cons, List.map_append, kinds_attributes]
    rfl

theorem Piece.flatMap_spellings (pieces : List Piece) :
    (pieces.flatMap spellings).map spelled =
      ((pieces.filter (·.isBlock)).map fun piece => piece.spellings.map spelled).flatten := by
  induction pieces with
  | nil => rfl
  | cons piece pieces ih =>
    rw [List.flatMap_cons, List.map_append, ih]
    cases piece <;> rfl

/-- Segments with the tokens of pieces are read as the blocks of these pieces. -/
theorem shows_of_segments {source : String} {segments : List Segment} {pieces : List Piece}
    (h : segments.map (·.tokens.map Token.spelling) =
      pieces.map fun piece => piece.spellings.map spelled)
    (hblocks : ∀ piece ∈ pieces, piece.isBlock)
    (htexts : byteLength source.toList < 2 ^ 32 →
      ∀ segment ∈ segments, ∀ t ∈ segment.tokens, t.span.textOf source = t.text) :
    List.Forall₂ (Block.Shows source) (segments.filterMap (·.read.block)) pieces := by
  induction pieces generalizing segments with
  | nil =>
    obtain rfl := List.map_eq_nil_iff.mp h
    exact .nil
  | cons piece pieces ih =>
    obtain ⟨segment, segments, rfl, hsegment, hsegments⟩ := List.map_eq_cons_iff.mp h
    obtain ⟨hblock, hrest⟩ := List.forall_mem_cons.mp hblocks
    obtain ⟨block, hread, hshows⟩ := Piece.exists_read hblock hsegment
      fun hlen => htexts hlen segment List.mem_cons_self
    have hfirst : (segment :: segments).filterMap (·.read.block) =
        block :: segments.filterMap (·.read.block) := List.filterMap_cons_some hread
    rw [hfirst]
    exact .cons hshows (ih hsegments hrest
      fun hlen s hs => htexts hlen s (List.mem_cons_of_mem segment hs))

/-- Pieces that were written out are read back without a fault, and as the same blocks. -/
theorem parse_render (pieces : List Piece) :
    (parse (render pieces)).faults = [] ∧
      List.Forall₂ (Block.Shows (render pieces)) (parse (render pieces)).template.blocks
        (pieces.filter (·.isBlock)) := by
  have hblocks : ∀ piece ∈ pieces.filter (·.isBlock), piece.isBlock :=
    fun piece hpiece => (List.mem_filter.mp hpiece).2
  have hwords : ∀ word ∈ (pieces.filter (·.isBlock)).map (fun piece => piece.spellings.map spelled),
      ∀ tokens : List Token, tokens.map Token.spelling = word →
        tokens.map (·.kind) ∈ Grammar.block.matches' := by
    intro word hword tokens htokens
    obtain ⟨piece, hpiece, rfl⟩ := List.mem_map.mp hword
    have hkinds := congrArg (List.map Prod.fst) htokens
    rw [List.map_map, List.map_map] at hkinds
    exact hkinds ▸ Piece.kinds_mem_block (hblocks piece hpiece)
  -- the tokens are those of the pieces, and cutting gives one segment for each of these
  have hscan := (spelling_scan_render pieces).trans (Piece.flatMap_spellings pieces)
  obtain ⟨hleading, hsegments⟩ :=
    Cut.segments_of_words Token.spelling (scan (render pieces)).endOfFile hwords hscan
  constructor
  · rw [parse, ParsedTemplate.faults_ofStream_eq_nil_iff]
    refine ⟨(pieces.filter (·.isBlock)).map fun piece => (piece.spellings.map spelled).map (·.1),
      ?_, ?_⟩
    · intro word hword
      obtain ⟨piece, hpiece, rfl⟩ := List.mem_map.mp hword
      rw [List.map_map]
      exact Piece.kinds_mem_block (hblocks piece hpiece)
    · have hkinds := congrArg (List.map Prod.fst) hscan
      rwa [List.map_map, List.map_flatten, List.map_map] at hkinds
  · rw [parse, ParsedTemplate.blocks_ofStream]
    refine shows_of_segments hsegments hblocks fun hlen segment hsegment t ht => ?_
    have htext := textOf_span_of_mem_scanChars (Nat.le_of_lt_succ hlen)
      (Cut.mem_of_mem_segments hsegment ht)
    rwa [String.ofList_toList] at htext

end TextTemplate
