import TextTemplate.Proofs.BlockStarts
import TextTemplate.Proofs.Relocation
import TextTemplate.Proofs.TokenPlaces

/-!
# Templates cut at a block start

A text that is cut in front of one of its block starts can be analysed in two parts. The tokens, the
blocks and the faults of the whole text are those of the first part followed by those of the second
part, shifted to where the first part ends (`parse_eq_append_of_blockStart`). Only a fault at the
end of the first part is told differently: in the whole text the block start stands there, and the
fault gets its span (`Relocation.redirect`).

Nothing is asked of the text in front of the block start: whether or not it is well formed, neither
the mode of the reader nor a construct that breaks off reaches over a block start.
-/
namespace TextTemplate

/-! ## Tokens -/

namespace Relocation

def stream (r : Relocation) (s : TokenStream) : TokenStream :=
  ⟨s.tokens.map r.token, r.token s.endOfFile⟩

theorem token_shift (here base : Cursor) (kind : TokenKind) {text : List Char}
    (h : byteLength text ≤ maxOffset) :
    (here.shift base).token kind text = (shift base).token (here.token kind text) := by
  have hspan : Span.ofBounds (base.offset + here.offset)
      (base.offset + here.offset + byteLength text) =
        (Span.ofBounds here.offset (here.offset + byteLength text)).shift base.offset := by
    have hlen : ∀ start : Nat, start + byteLength text - start = byteLength text := by omega
    simp only [Span.ofBounds, hlen, Span.shift, Span.ofParts, if_pos h]
    apply Span.ext
    · simp only
      omega
    · rfl
  simp only [Cursor.token, Cursor.shift, token, mark, shift, hspan]

theorem ofLexemes_shift (here base : Cursor) (trailing : List Char) {lexemes : List Lexeme}
    (h : ∀ l ∈ lexemes, byteLength l.text ≤ maxOffset) :
    TokenStream.ofLexemes (here.shift base) trailing lexemes =
      (shift base).stream (TokenStream.ofLexemes here trailing lexemes) := by
  induction lexemes generalizing here with
  | nil =>
    rw [TokenStream.ofLexemes, Cursor.skip_shift, token_shift _ _ _ (by simp)]
    rfl
  | cons lexeme lexemes ih =>
    obtain ⟨hl, hls⟩ := List.forall_mem_cons.mp h
    rw [TokenStream.ofLexemes, Cursor.skip_shift, Cursor.skip_shift, ih _ hls, token_shift _ _ _ hl]
    rfl

end Relocation

/-- The tokens of the second part of a text of which the first part is `as`. -/
def scanAfter (as bs : List Char) : TokenStream :=
  (Relocation.shift (Cursor.origin.skip as)).stream (scanChars bs)

/-- The tokens of a text are those in front of a block start, followed by those from there on. -/
theorem scanChars_of_blockStart {cs : List Char} {token : Token}
    (hlen : byteLength cs ≤ maxOffset) (ht : token ∈ (scanChars cs).tokens)
    (hk : token.kind.isBlockStart) :
    ∃ as bs, as ++ bs = cs ∧ token.span.start = byteLength as ∧
      token.position = (Cursor.origin.skip as).position ∧
      scanChars cs =
        ⟨(scanChars as).tokens ++ (scanAfter as bs).tokens, (scanAfter as bs).endOfFile⟩ ∧
      ∃ rest, (scanAfter as bs).tokens = token :: rest := by
  obtain ⟨before, lexeme, after, hlex, rfl⟩ := TokenStream.exists_of_mem_ofLexemes ht
  obtain ⟨as, bs, rfl, -, has, hfirst, hsecond⟩ := lexFrom_of_append_cons hlex hk
  rw [← has]
  have hlen' : byteLength as + byteLength bs ≤ maxOffset := by rwa [byteLength_append] at hlen
  have htexts : ∀ l ∈ (lex bs).lexemes, byteLength l.text ≤ maxOffset := by
    intro l hl
    have := byteLength_text_le hl
    omega
  have hafter : scanAfter as bs = TokenStream.ofLexemes (Cursor.origin.skip as)
      (lex bs).trailing (lex bs).lexemes := by
    rw [scanAfter, scanChars, TokenStream.ofReading, ← Relocation.ofLexemes_shift _ _ _ htexts,
      Cursor.shift_origin]
  rw [hsecond] at hafter
  refine ⟨as, bs, rfl, ?_, rfl, ?_, ?_⟩
  · rw [Cursor.token, Cursor.offset_origin_skip, Span.start_ofBounds (by omega)]
  · -- the gap in front of the block start is what the first part skips at its end
    have hfirst : lex as = ⟨before, lexeme.gap⟩ := hfirst
    have hbase : Cursor.origin.skip as =
        (Cursor.origin.skip (before.flatMap Lexeme.chars)).skip lexeme.gap := by
      rw [has, Cursor.skip_append]
    rw [scanChars, TokenStream.ofReading, hlex, TokenStream.ofLexemes_append _ _ lexeme.gap, hafter,
      scanChars, TokenStream.ofReading, hfirst, hbase]
    rfl
  · rw [hafter]
    exact ⟨_, rfl⟩

/-! ## Trees and faults -/

namespace ParsedTemplate

/-- The blocks and faults of tokens with a block start among them are those of the tokens in front,
which have the block start next, and those of the tokens from there on. -/
theorem ofStream_append (endOfFile start : Token) (hstart : start.kind.isBlockStart)
    (before after : List Token) :
    (ofStream ⟨before ++ start :: after, endOfFile⟩).template.blocks =
        (ofStream ⟨before, start⟩).template.blocks ++
          (ofStream ⟨start :: after, endOfFile⟩).template.blocks ∧
      (ofStream ⟨before ++ start :: after, endOfFile⟩).faults =
        (ofStream ⟨before, start⟩).faults ++ (ofStream ⟨start :: after, endOfFile⟩).faults := by
  have hleading : (Cut.ofTokens endOfFile (start :: after)).leading = [] := by
    rw [Cut.ofTokens_blockStart hstart]
  constructor
  · simp only [blocks_ofStream, Cut.ofTokens_append _ _ hstart, List.filterMap_append]
  · simp only [faults_ofStream, Cut.ofTokens_append _ _ hstart, List.flatMap_append, hleading]
    simp [strayFault]

end ParsedTemplate

namespace Relocation

/-- What stands at the empty span at an offset gets another span; nothing else moves. -/
def redirect (offset : Nat) (span : Span) : Relocation where
  span s := if s = .emptyAt offset then span else s
  position p := p

theorem span_redirect_of_lt {offset : Nat} (hoffset : offset ≤ maxOffset) {span s : Span}
    (h : s.start < offset) : (redirect offset span).span s = s := by
  apply if_neg
  rintro rfl
  simp only [Span.emptyAt, Span.ofParts] at h
  omega

theorem redirect_respects {offset : Nat} (hoffset : offset ≤ maxOffset) (span : Span) :
    (redirect offset span).Respects (·.start < offset) where
  cover hs ht := by
    rw [Span.start_cover]
    omega
  span_cover {s t} hs ht := by
    have hcover : (s.cover t).start < offset := by
      rw [Span.start_cover]
      omega
    rw [span_redirect_of_lt hoffset hs, span_redirect_of_lt hoffset ht,
      span_redirect_of_lt hoffset hcover]

theorem token_redirect_of_lt {offset : Nat} (hoffset : offset ≤ maxOffset) {span : Span}
    {t : Token} (h : t.span.start < offset) : (redirect offset span).token t = t := by
  apply Token.ext
  · rfl
  · exact span_redirect_of_lt hoffset h
  · rfl
  · rfl

end Relocation

/-- The tree and the faults of a text that is followed by a block start, and those of the text
alone: faults at its end are at the block start instead. -/
theorem ofStream_next {cs : List Char} {next : Token} (hlen : byteLength cs ≤ maxOffset)
    (hnext : next.position = (Cursor.origin.skip cs).position) :
    (ParsedTemplate.ofStream ⟨(scanChars cs).tokens, next⟩).template.blocks =
        (ParsedTemplate.ofStream (scanChars cs)).template.blocks ∧
      (ParsedTemplate.ofStream ⟨(scanChars cs).tokens, next⟩).faults =
        (ParsedTemplate.ofStream (scanChars cs)).faults.map
          (Relocation.redirect (byteLength cs) next.span).fault := by
  have hstarts : ∀ t ∈ (scanChars cs).tokens, t.span.start < byteLength cs :=
    fun t ht => start_lt_of_mem_scanChars hlen ht
  have hfixed : ∀ t ∈ (scanChars cs).tokens,
      (Relocation.redirect (byteLength cs) next.span).token t = t :=
    fun t ht => Relocation.token_redirect_of_lt hlen (hstarts t ht)
  have hsends : (Relocation.redirect (byteLength cs) next.span).Sends (scanChars cs).endOfFile
      next := by
    intro cause
    have hend : (scanChars cs).endOfFile.span = .emptyAt (byteLength cs) := by
      rw [endOfFile_scanChars, Cursor.token, Cursor.offset_origin_skip, Span.ofBounds, Span.emptyAt]
      simp
    rw [Token.fault, Token.fault, Relocation.fault, Relocation.redirect]
    simp only [hend, if_pos]
    rw [hnext, endOfFile_scanChars]
    rfl
  obtain ⟨hblocks, hfaults⟩ := ParsedTemplate.ofStream_relocate
    (Relocation.redirect_respects hlen next.span) hsends hstarts
  have hmap : (scanChars cs).tokens.map
      (Relocation.redirect (byteLength cs) next.span).token = (scanChars cs).tokens :=
    (List.map_congr_left hfixed).trans (List.map_id _)
  rw [hmap] at hblocks hfaults
  refine ⟨?_, hfaults⟩
  rw [hblocks]
  -- no leaf stands at the end of the text, so no block moves
  refine (List.map_congr_left fun b hb => ?_).trans (List.map_id _)
  apply Relocation.block_eq_self
  intro leaf hleaf
  obtain ⟨t, ht, rfl⟩ := ParsedTemplate.exists_of_mem_leaves hb hleaf
  rw [← Relocation.node_token, hfixed t ht]

/-- The tree and the faults of a second part that starts with a block start. -/
theorem ofStream_scanAfter {as bs : List Char}
    (hlen : byteLength as + byteLength bs ≤ maxOffset) :
    (ParsedTemplate.ofStream (scanAfter as bs)).template.blocks =
        (ParsedTemplate.ofStream (scanChars bs)).template.blocks.map
          (Relocation.shift (Cursor.origin.skip as)).block ∧
      (ParsedTemplate.ofStream (scanAfter as bs)).faults =
        (ParsedTemplate.ofStream (scanChars bs)).faults.map
          (Relocation.shift (Cursor.origin.skip as)).fault := by
  have hbase : (Cursor.origin.skip as).offset = byteLength as := Cursor.offset_origin_skip as
  apply ParsedTemplate.ofStream_relocate (Relocation.shift_respects _) (Relocation.sends_token _ _)
  intro t ht
  exact fits_of_mem_scanChars (by omega) ht

/-- What a node of a tree shows of itself: its kind and its place. -/
def Node.outline (n : Node) : NodeKind × Span × Position :=
  (n.kind, n.span, n.position)

/-- The nodes of a second part that is shifted are of the same kinds, and their places are those of
the second part shifted. -/
theorem outline_shift {as bs : List Char} (hlen : byteLength as + byteLength bs ≤ maxOffset)
    {block : Block} (hblock : block ∈ (ParsedTemplate.ofStream (scanChars bs)).template.blocks) :
    ((Relocation.shift (Cursor.origin.skip as)).block block).node.descendants.map Node.outline =
      block.node.descendants.map fun n =>
        (n.kind, n.span.shift (byteLength as),
          n.position.shift (Cursor.origin.skip as).position) := by
  have hbase : (Cursor.origin.skip as).offset = byteLength as := Cursor.offset_origin_skip as
  rw [Relocation.node_block, Relocation.descendants_node, List.map_map]
  apply List.map_congr_left
  intro n hn
  have htemplate := Node.not_template_of_mem_descendants hn
  have hspan : ((Relocation.shift (Cursor.origin.skip as)).node n).span =
      n.span.shift (byteLength as) := by
    rw [← hbase]
    apply (Relocation.shift_respects _).span_node htemplate
    intro leaf hleaf
    obtain ⟨t, ht, rfl⟩ := ParsedTemplate.exists_of_mem_leaves hblock
      (Node.mem_leaves_of_mem_descendants hn hleaf)
    rw [Token.span_node]
    exact fits_of_mem_scanChars (by omega) ht
  show Node.outline _ = _
  rw [Node.outline, Relocation.kind_node, hspan, Relocation.position_node _ _ htemplate]
  rfl

/-- **Composition.** A text with a block start is analysed like the text in front of it and the text
from there on: tokens, blocks and faults of the second part are shifted to the block start, and the
faults at the end of the first part get the block start's span. -/
theorem parse_eq_append_of_blockStart (text : String)
    (hlen : byteLength text.toList < 2 ^ 32) (token : Token) (ht : token ∈ (scan text).tokens)
    (hk : token.kind.isBlockStart = true) :
    ∃ before after : String, before ++ after = text ∧
      byteLength before.toList = token.span.start ∧
      let base : Cursor :=
        ⟨token.span.start, (LineIndex.ofText text).position token.span.start⟩
      (scan text).toList =
        (scan before).tokens ++ (scan after).toList.map (Relocation.shift base).token ∧
      (parse text).template.blocks =
        (parse before).template.blocks ++
          (parse after).template.blocks.map (Relocation.shift base).block ∧
      (parse text).faults =
        (parse before).faults.map (Relocation.redirect token.span.start token.span).fault ++
          (parse after).faults.map (Relocation.shift base).fault ∧
      ∀ block ∈ (parse after).template.blocks,
        ((Relocation.shift base).block block).node.descendants.map Node.outline =
          block.node.descendants.map fun n =>
            (n.kind, n.span.shift base.offset, n.position.shift base.position) := by
  have hmax : byteLength text.toList ≤ maxOffset := Nat.le_of_lt_succ hlen
  obtain ⟨as, bs, happ, hstart, hposition, hscan, rest, hrest⟩ :=
    scanChars_of_blockStart hmax ht hk
  have hlen' : byteLength as + byteLength bs ≤ maxOffset := by
    rwa [← happ, byteLength_append] at hmax
  have hbase : (⟨token.span.start, (LineIndex.ofText text).position token.span.start⟩ : Cursor) =
      Cursor.origin.skip as := by
    apply Cursor.ext
    · rw [hstart, Cursor.offset_origin_skip]
    · rw [hstart, LineIndex.ofText, ← happ, LineIndex.position_byteLength]
  refine ⟨String.ofList as, String.ofList bs, ?_, ?_, ?_⟩
  · rw [← String.ofList_append, happ, String.ofList_toList]
  · rw [String.toList_ofList, hstart]
  · simp only [hbase, scan, parse, String.toList_ofList]
    -- the first part is read with the block start next, and the second part as it stands
    have hsecond : (⟨token :: rest, (scanAfter as bs).endOfFile⟩ : TokenStream) =
        scanAfter as bs := by
      rw [← hrest]
    obtain ⟨hblocks, hfaults⟩ := ParsedTemplate.ofStream_append (scanAfter as bs).endOfFile token hk
      (scanChars as).tokens rest
    obtain ⟨hblocks₁, hfaults₁⟩ := ofStream_next (by omega) hposition
    obtain ⟨hblocks₂, hfaults₂⟩ := ofStream_scanAfter hlen'
    rw [← hstart] at hfaults₁
    refine ⟨?_, ?_, ?_, fun block hblock => ?_⟩
    · rw [hscan, TokenStream.toList, TokenStream.toList, List.map_append, ← List.append_assoc]
      rfl
    · rw [hscan, hrest, hblocks, hsecond, hblocks₁, hblocks₂]
    · rw [hscan, hrest, hfaults, hsecond, hfaults₁, hfaults₂]
    · have hpos : (LineIndex.ofText text).position token.span.start =
          (Cursor.origin.skip as).position := congrArg Cursor.position hbase
      rw [outline_shift hlen' hblock, hpos, hstart]

/-- The block start breaks off an attribute, so the fault of the first part moves to it. -/
theorem parse_eq_append_broken_attribute :
    let text := "\\<#\n<#@ a b=<#= x #>"
    let token := Cursor.token ⟨12, 1, 8⟩ .expressionStart ['<', '#', '=']
    byteLength text.toList < 2 ^ 32 ∧ token ∈ (scan text).tokens ∧
      token.kind.isBlockStart = true ∧ (parse text).faults = [token.fault .quoteExpected] ∧
      ∃ before after : String, before ++ after = text ∧ byteLength before.toList = 12 ∧
        (parse text).template.blocks = (parse before).template.blocks ++
          (parse after).template.blocks.map (Relocation.shift ⟨12, 1, 8⟩).block ∧
        (parse text).faults =
          (parse before).faults.map (Relocation.redirect 12 token.span).fault ++
            (parse after).faults.map (Relocation.shift ⟨12, 1, 8⟩).fault := by
  intro text token
  have hlen : byteLength text.toList < 2 ^ 32 := by decide +kernel
  have ht : token ∈ (scan text).tokens := by decide +kernel
  have hpos : (LineIndex.ofText text).position token.span.start = ⟨1, 8⟩ := by decide +kernel
  obtain ⟨before, after, happ, hstart, -, hblocks, hfaults, -⟩ :=
    parse_eq_append_of_blockStart text hlen token ht rfl
  rw [hpos] at hblocks hfaults
  exact ⟨hlen, ht, rfl, by decide +kernel, before, after, happ, hstart, hblocks, hfaults⟩

end TextTemplate
