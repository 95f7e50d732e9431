import TextTemplate.Proofs.PulledBlocks
import TextTemplate.Proofs.Segments

/-!
# Reading in full

What a parser does within a segment is told by the functions that read segments: `Parser.At` says
where in a segment a parser is, and `Parser.Follows` what it has told of and taken on the way from
one call to another. A call that finds a fault ends behind the segment, and one that does not ends
in front of what the reader of segments leaves (`Parser.Settles`).

The segments of a text are one behind the other (`Parser.Linked`), so the whole run comes to the
same tree and faults as `parse`, and has taken every token of the text once (`Parser.parse_start`).
With what is known of scanners, `readInFull` says that and how every text is read to its end.
-/
namespace TextTemplate

namespace Parser

/-! ## Segments -/

/-- From one call to another the parser has told of the faults and taken what is not left. -/
structure Follows (p q : Parser) (faults : List Diagnostic) : Prop where
  faults_eq : q.faults = p.faults ++ faults
  taken_eq : q.taken ++ q.left = p.taken ++ p.left

/-- What is left of a segment is `body`; the token after it is one to go on from. -/
structure At (p : Parser) (body : List Token) (next : Token) (rest : List Token) : Prop where
  left_eq : p.left = body ++ next :: rest
  inner : ∀ t ∈ body, t.kind.isRecovery = false
  recovery : next.kind.isRecovery = true

/-- The parser has come to where the outcome says: in front of what is left of the segment, or
behind the segment with one fault more. -/
def Settles (p q : Parser) (next : Token) (rest : List Token) :
    Except Diagnostic (List Token) → Prop
  | .ok body => q.At body next rest ∧ p.Follows q []
  | .error fault => q.At [] next rest ∧ p.Follows q [fault]

theorem Follows.refl (p : Parser) : p.Follows p [] :=
  ⟨(List.append_nil _).symm, rfl⟩

theorem Follows.trans {p q r : Parser} {faults faults' : List Diagnostic} (h : p.Follows q faults)
    (h' : q.Follows r faults') : p.Follows r (faults ++ faults') where
  faults_eq := by rw [h'.faults_eq, h.faults_eq, List.append_assoc]
  taken_eq := h'.taken_eq.trans h.taken_eq

/-- What happens without a fault before makes no difference. -/
theorem Follows.settles {p q r : Parser} {next : Token} {rest : List Token}
    {outcome : Except Diagnostic (List Token)} (h : p.Follows q [])
    (hr : q.Settles r next rest outcome) : p.Settles r next rest outcome := by
  cases outcome with
  | ok body => exact ⟨hr.1, h.trans hr.2⟩
  | error fault => exact ⟨hr.1, h.trans hr.2⟩

theorem follows_report (p : Parser) (fault : Diagnostic) : p.Follows (p.report fault) [fault] :=
  ⟨rfl, rfl⟩

theorem follows_advance {p : Parser} (h : p.left ≠ []) : p.Follows p.advance [] where
  faults_eq := (List.append_nil _).symm
  taken_eq := by
    obtain ⟨token, tokens, hleft⟩ := List.exists_cons_of_ne_nil h
    rw [left_advance, hleft, List.tail_cons, advance, peek_eq, hleft]
    simp

section Segments
variable {p : Parser} {token next : Token} {body rest : List Token} {kind : TokenKind}
  {cause : Cause} {fault : Diagnostic}

theorem At.peek_nil (h : p.At [] next rest) : p.peek = next := by
  rw [peek_eq, h.left_eq]
  rfl

theorem At.peek_cons (h : p.At (token :: body) next rest) : p.peek = token := by
  rw [peek_eq, h.left_eq]
  rfl

/-- No construct goes on with the token behind a segment. -/
theorem At.kind_ne (h : p.At [] next rest) (hkind : kind.isRecovery = false) :
    p.peek.kind ≠ kind := by
  rw [h.peek_nil]
  rintro rfl
  exact absurd h.recovery (by simp [hkind])

/-- A token within a segment can be taken. -/
theorem At.advance (h : p.At (token :: body) next rest) :
    p.advance.At body next rest ∧ p.Follows p.advance [] := by
  refine ⟨⟨?_, (List.forall_mem_cons.mp h.inner).2, h.recovery⟩, follows_advance ?_⟩
  · rw [left_advance, h.left_eq]
    rfl
  · rw [h.left_eq]
    simp

theorem At.atRecovery_nil (h : p.At [] next rest) : p.atRecovery = true := by
  rw [atRecovery, h.peek_nil]
  exact h.recovery

theorem At.atRecovery_cons (h : p.At (token :: body) next rest) : ¬ p.atRecovery = true := by
  rw [atRecovery, h.peek_cons, (List.forall_mem_cons.mp h.inner).1]
  exact Bool.false_ne_true

/-- The rest of a segment is taken after a fault. -/
theorem At.recover (h : p.At body next rest) :
    p.recover.At [] next rest ∧ p.Follows p.recover [] := by
  induction body generalizing p with
  | nil =>
    rw [Parser.recover, dif_pos h.atRecovery_nil]
    exact ⟨h, .refl p⟩
  | cons token body ih =>
    obtain ⟨hat, hfollows⟩ := h.advance
    obtain ⟨hat', hfollows'⟩ := ih hat
    rw [Parser.recover, dif_neg h.atRecovery_cons]
    exact ⟨hat', hfollows.trans hfollows'⟩

/-- A fault ends a segment. -/
theorem At.settles_fault (h : p.At body next rest) (fault : Diagnostic) :
    p.Settles (p.report fault).recover next rest (.error fault) := by
  have hat : (p.report fault).At body next rest := ⟨h.left_eq, h.inner, h.recovery⟩
  obtain ⟨hat', hfollows⟩ := hat.recover
  exact ⟨hat', (follows_report p fault).trans hfollows⟩

theorem At.expect_ok (h : p.At body next rest) {tokens : List Token}
    (hread : TextTemplate.expect kind cause next body = .ok (token, tokens)) :
    ∃ q, p.expect kind cause = (some token, q) ∧ q.At tokens next rest ∧ p.Follows q [] := by
  obtain ⟨rfl, hkind⟩ := eq_cons_of_expect hread
  obtain ⟨hat, hfollows⟩ := h.advance
  refine ⟨p.advance, ?_, hat, hfollows⟩
  rw [Parser.expect, h.peek_cons, if_pos hkind]

theorem At.expect_error (h : p.At body next rest) (hkind : kind.isRecovery = false)
    (hread : TextTemplate.expect kind cause next body = .error fault) :
    ∃ q, p.expect kind cause = (none, q) ∧ p.Settles q next rest (.error fault) := by
  have hpeek : p.peek.kind ≠ kind ∧ p.peek.fault cause = fault := by
    cases body with
    | nil =>
      refine ⟨h.kind_ne hkind, ?_⟩
      rw [h.peek_nil]
      exact Except.error.inj hread
    | cons token body =>
      rw [h.peek_cons]
      rw [TextTemplate.expect] at hread
      split at hread
      · contradiction
      · exact ⟨‹_›, Except.error.inj hread⟩
  refine ⟨_, ?_, h.settles_fault fault⟩
  rw [Parser.expect, if_neg hpeek.1, hpeek.2]

/-- An attribute is read as it is when all of its segment is known. -/
theorem At.parseAttribute {name : Token} (h : p.At (name :: body) next rest) :
    ∃ q, p.parseAttribute = (((readAttribute next name body).1,
        (readAttribute next name body).2.isOk), q) ∧
      p.Settles q next rest (readAttribute next name body).2 := by
  obtain ⟨hat, hfollows⟩ := h.advance
  have hname := h.peek_cons
  fun_cases readAttribute next name body with
  | case1 fault h₁ =>
    obtain ⟨q, hq, hsettles⟩ := hat.expect_error rfl h₁
    exact ⟨q, by simp only [Parser.parseAttribute, hname, hq]; rfl, hfollows.settles hsettles⟩
  | case2 equals _ h₁ fault h₂ =>
    obtain ⟨q₁, hq₁, hat₁, hfollows₁⟩ := hat.expect_ok h₁
    obtain ⟨q, hq, hsettles⟩ := hat₁.expect_error rfl h₂
    refine ⟨q, by simp only [Parser.parseAttribute, hname, hq₁, hq]; rfl, ?_⟩
    exact (hfollows.trans hfollows₁).settles hsettles
  | case3 equals _ h₁ openQuote _ h₂ fault h₃ =>
    obtain ⟨q₁, hq₁, hat₁, hfollows₁⟩ := hat.expect_ok h₁
    obtain ⟨q₂, hq₂, hat₂, hfollows₂⟩ := hat₁.expect_ok h₂
    obtain ⟨q, hq, hsettles⟩ := hat₂.expect_error rfl h₃
    refine ⟨q, by simp only [Parser.parseAttribute, hname, hq₁, hq₂, hq]; rfl, ?_⟩
    exact ((hfollows.trans hfollows₁).trans hfollows₂).settles hsettles
  | case4 equals _ h₁ openQuote _ h₂ value _ h₃ fault h₄ =>
    obtain ⟨q₁, hq₁, hat₁, hfollows₁⟩ := hat.expect_ok h₁
    obtain ⟨q₂, hq₂, hat₂, hfollows₂⟩ := hat₁.expect_ok h₂
    obtain ⟨q₃, hq₃, hat₃, hfollows₃⟩ := hat₂.expect_ok h₃
    obtain ⟨q, hq, hsettles⟩ := hat₃.expect_error rfl h₄
    refine ⟨q, by simp only [Parser.parseAttribute, hname, hq₁, hq₂, hq₃, hq]; rfl, ?_⟩
    exact (((hfollows.trans hfollows₁).trans hfollows₂).trans hfollows₃).settles hsettles
  | case5 equals _ h₁ openQuote _ h₂ value _ h₃ closeQuote _ h₄ =>
    obtain ⟨q₁, hq₁, hat₁, hfollows₁⟩ := hat.expect_ok h₁
    obtain ⟨q₂, hq₂, hat₂, hfollows₂⟩ := hat₁.expect_ok h₂
    obtain ⟨q₃, hq₃, hat₃, hfollows₃⟩ := hat₂.expect_ok h₃
    obtain ⟨q, hq, hat₄, hfollows₄⟩ := hat₃.expect_ok h₄
    refine ⟨q, by simp only [Parser.parseAttribute, hname, hq₁, hq₂, hq₃, hq]; rfl, ?_⟩
    exact ⟨hat₄, (((hfollows.trans hfollows₁).trans hfollows₂).trans hfollows₃).trans hfollows₄⟩

/-- The attributes are those that are read when all of the segment is known, behind the ones that
were parsed before. -/
theorem At.parseAttributes (h : p.At body next rest) (attrs : List Attribute) :
    ∃ q, p.parseAttributes attrs = ((attrs ++ (readAttributes next body).1,
        (readAttributes next body).2.toOption.map (·.1.toMark)), q) ∧
      p.Settles q next rest ((readAttributes next body).2.map Prod.snd) := by
  fun_induction readAttributes next body generalizing p attrs with
  | case1 =>
    refine ⟨_, ?_, h.settles_fault _⟩
    rw [parseAttributes_other attrs (h.kind_ne rfl) (h.kind_ne rfl), h.peek_nil, List.append_nil]
    rfl
  | case2 name tokens hkind attr fault hattr =>
    obtain ⟨q, hq, hsettles⟩ := h.parseAttribute
    rw [hattr] at hq hsettles
    refine ⟨q, ?_, hsettles⟩
    rw [parseAttributes_broken attrs (by rw [h.peek_cons, hkind]) hq]
    rfl
  | case3 name tokens hkind attr unread hattr attrs' ending hattrs ih =>
    obtain ⟨q, hq, hsettles⟩ := h.parseAttribute
    rw [hattr] at hq hsettles
    obtain ⟨hat, hfollows⟩ := hsettles
    obtain ⟨q', hq', hsettles'⟩ := ih hat (attrs ++ [attr])
    rw [hattrs] at hq' hsettles'
    refine ⟨q', ?_, hfollows.settles hsettles'⟩
    rw [parseAttributes_attribute attrs (by rw [h.peek_cons, hkind]) hq, hq', List.append_assoc]
    rfl
  | case4 stop tokens hkind =>
    obtain ⟨hat, hfollows⟩ := h.advance
    refine ⟨p.advance, ?_, hat, hfollows⟩
    rw [parseAttributes_blockEnd attrs (by rw [h.peek_cons, hkind]), h.peek_cons, List.append_nil]
    rfl
  | case5 token tokens hname hstop =>
    refine ⟨_, ?_, h.settles_fault _⟩
    rw [parseAttributes_other attrs (by rwa [h.peek_cons]) (by rwa [h.peek_cons]), h.peek_cons,
      List.append_nil]
    rfl

/-- Stray tokens are covered as a whole. -/
theorem At.coverStray (h : p.At body next rest) (span : Span) :
    ∃ q, p.coverStray span = ((body.map (·.span)).foldl Span.cover span, q) ∧
      q.At [] next rest ∧ p.Follows q [] := by
  induction body generalizing p span with
  | nil =>
    rw [Parser.coverStray, dif_pos h.atRecovery_nil]
    exact ⟨p, rfl, h, .refl p⟩
  | cons token body ih =>
    obtain ⟨hat, hfollows⟩ := h.advance
    obtain ⟨q, hq, hat', hfollows'⟩ := ih hat (span.cover token.span)
    rw [Parser.coverStray, dif_neg h.atRecovery_cons, h.peek_cons]
    exact ⟨q, hq, hat', hfollows.trans hfollows'⟩

/-- A run of stray tokens is one fault, if there are any. -/
theorem At.parseBlocks_stray (h : p.At body next rest) (blocks : List Block) :
    ∃ q, p.parseBlocks blocks = q.parseBlocks blocks ∧ q.At [] next rest ∧
      p.Follows q (strayFault body).toList := by
  cases body with
  | nil => exact ⟨p, rfl, h, .refl p⟩
  | cons first body =>
    obtain ⟨hat, hfollows⟩ := h.advance
    obtain ⟨q, hq, hat', hfollows'⟩ := hat.coverStray first.span
    have hskip : p.skipUnexpected =
        q.report ⟨.blockStartExpected, (body.map (·.span)).foldl Span.cover first.span,
          first.position⟩ := by
      simp only [skipUnexpected, h.peek_cons, hq]
    refine ⟨p.skipUnexpected, parseBlocks_other blocks ?_, ?_, ?_⟩
    · rw [h.peek_cons]
      exact (List.forall_mem_cons.mp h.inner).1
    · rw [hskip]
      exact ⟨hat'.left_eq, hat'.inner, hat'.recovery⟩
    · rw [hskip]
      exact (hfollows.trans hfollows').trans (follows_report q _)

end Segments

/-! ## Constructs -/

/-- The next token is the start of the segment, and the one behind it is one to go on from. -/
structure Opens (p : Parser) (segment : Segment) (rest : List Token) : Prop where
  left_eq : p.left = segment.tokens ++ segment.next :: rest
  inner : ∀ t ∈ segment.body, t.kind.isRecovery = false
  recovery : segment.next.kind.isRecovery = true

/-- The parser has come to the stray tokens of a construct, and told of its fault. -/
structure Constructs (p q : Parser) (segment : Segment) (rest : List Token)
    (construct : Construct) : Prop where
  at_stray : q.At construct.stray segment.next rest
  follows : p.Follows q construct.fault.toList

section Constructs
variable {p : Parser} {segment : Segment} {rest : List Token}

theorem Opens.peek_eq (h : p.Opens segment rest) : p.peek = segment.start := by
  rw [Parser.peek_eq, h.left_eq]
  rfl

theorem Opens.advance (h : p.Opens segment rest) :
    p.advance.At segment.body segment.next rest ∧ p.Follows p.advance [] := by
  refine ⟨⟨?_, h.inner, h.recovery⟩, follows_advance ?_⟩
  · rw [left_advance, h.left_eq]
    rfl
  · rw [h.left_eq]
    exact List.cons_ne_nil _ _

theorem Opens.parseDirective (h : p.Opens segment rest) :
    ∃ directive? q, p.parseDirective = (directive?, q) ∧
      directive?.map .directive = (readDirective segment).block ∧
      p.Constructs q segment rest (readDirective segment) := by
  obtain ⟨hat, hfollows⟩ := h.advance
  have hstart := h.peek_eq
  fun_cases readDirective segment with
  | case1 fault hname =>
    obtain ⟨q, hq, hat', hfollows'⟩ := hat.expect_error rfl hname
    exact ⟨none, q, by simp only [Parser.parseDirective, hq], rfl, hat', hfollows.trans hfollows'⟩
  | case2 name tokens hname attrs _ hattrs | case3 name tokens hname attrs _ _ hattrs =>
    obtain ⟨q, hq, hat', hfollows'⟩ := hat.expect_ok hname
    obtain ⟨r, hr, hsettles⟩ := hat'.parseAttributes []
    rw [hattrs] at hr hsettles
    obtain ⟨hat'', hfollows''⟩ := hsettles
    refine ⟨_, r, by simp only [Parser.parseDirective, hq, hr]; rfl, ?_, hat'', ?_⟩
    · rw [hstart]
      rfl
    · exact (hfollows.trans hfollows').trans hfollows''

theorem Opens.parseCodeBlock (h : p.Opens segment rest) :
    ∃ codeBlock q, p.parseCodeBlock = (codeBlock, q) ∧
      (readCodeBlock segment).block = some (.code codeBlock) ∧
      p.Constructs q segment rest (readCodeBlock segment) := by
  obtain ⟨hat, hfollows⟩ := h.advance
  have hstart := h.peek_eq
  fun_cases readCodeBlock segment with
  | case1 start hbody =>
    rw [hbody] at hat
    obtain ⟨hat', hfollows'⟩ := hat.settles_fault (segment.next.fault .codeOrBlockEndExpected)
    refine ⟨_, _, parseCodeBlock_other (hat.kind_ne rfl) (hat.kind_ne rfl), ?_, ?_⟩
    · rw [hstart]
    · rw [hat.peek_nil]
      exact ⟨hat', hfollows.trans hfollows'⟩
  | case2 start stop tokens hbody hkind =>
    rw [hbody] at hat
    have hstop := hat.peek_cons
    obtain ⟨hat', hfollows'⟩ := hat.advance
    refine ⟨_, _, parseCodeBlock_blockEnd (by rwa [hstop]), ?_, hat', hfollows.trans hfollows'⟩
    rw [hstart, hstop]
  | case3 start code tokens hbody hkind fault hread =>
    rw [hbody] at hat
    have hcode := hat.peek_cons
    obtain ⟨hat', hfollows'⟩ := hat.advance
    obtain ⟨q, hq, hat'', hfollows''⟩ := hat'.expect_error rfl hread
    refine ⟨_, q, parseCodeBlock_code (by rwa [hcode]) hq, ?_, hat'', ?_⟩
    · rw [hstart, hcode]
      rfl
    · exact (hfollows.trans hfollows').trans hfollows''
  | case4 start code tokens hbody hkind stop stray hread =>
    rw [hbody] at hat
    have hcode := hat.peek_cons
    obtain ⟨hat', hfollows'⟩ := hat.advance
    obtain ⟨q, hq, hat'', hfollows''⟩ := hat'.expect_ok hread
    refine ⟨_, q, parseCodeBlock_code (by rwa [hcode]) hq, ?_, hat'', ?_⟩
    · rw [hstart, hcode]
      rfl
    · exact (hfollows.trans hfollows').trans hfollows''
  | case5 start token tokens hbody hstop hcode =>
    rw [hbody] at hat
    have htoken := hat.peek_cons
    obtain ⟨hat', hfollows'⟩ := hat.settles_fault (token.fault .codeOrBlockEndExpected)
    refine ⟨_, _, parseCodeBlock_other (by rwa [htoken]) (by rwa [htoken]), ?_, ?_⟩
    · rw [hstart]
    · rw [htoken]
      exact ⟨hat', hfollows.trans hfollows'⟩

end Constructs

/-! ## Whole texts -/

/-- Segments as they are cut: none of them goes on with another block start or the end of the file,
and behind each is the next one, behind the last the end of the file. -/
inductive Linked (endOfFile : Token) : List Segment → Prop
  | nil : Linked endOfFile []
  | cons {segment : Segment} {segments : List Segment}
      (hstart : segment.start.kind.isBlockStart = true)
      (hinner : ∀ t ∈ segment.body, t.kind.isRecovery = false)
      (hnext : segment.next = (segments.head?.map (·.start)).getD endOfFile)
      (hrest : Linked endOfFile segments) : Linked endOfFile (segment :: segments)

section Texts
variable {endOfFile : Token} {tokens : List Token} {segments : List Segment}

theorem isRecovery_of_mem_leading (hkinds : ∀ t ∈ tokens, t.kind ≠ .endOfFile) :
    ∀ t ∈ (Cut.ofTokens endOfFile tokens).leading, t.kind.isRecovery = false := by
  intro t ht
  rw [TokenKind.isRecovery, Cut.not_isBlockStart_of_mem_leading ht, Bool.false_or,
    decide_eq_false (hkinds t (Cut.mem_of_mem_leading ht))]

theorem linked_ofTokens (hkinds : ∀ t ∈ tokens, t.kind ≠ .endOfFile) :
    Linked endOfFile (Cut.ofTokens endOfFile tokens).segments := by
  induction tokens with
  | nil => exact .nil
  | cons token tokens ih =>
    obtain ⟨-, hkinds⟩ := List.forall_mem_cons.mp hkinds
    cases hstart : token.kind.isBlockStart with
    | false =>
      rw [Cut.ofTokens_other hstart]
      exact ih hkinds
    | true =>
      rw [Cut.ofTokens_blockStart hstart]
      exact .cons hstart (isRecovery_of_mem_leading hkinds) rfl (ih hkinds)

/-- In front of segments, or of the end of the file, is a token to go on from. -/
theorem Linked.exists_head (h : Linked endOfFile segments) (hend : endOfFile.kind = .endOfFile) :
    ∃ next rest, (segments.head?.map (·.start)).getD endOfFile = next ∧
      next.kind.isRecovery = true ∧
      segments.flatMap Segment.tokens ++ [endOfFile] = next :: rest := by
  cases h with
  | nil =>
    refine ⟨endOfFile, [], rfl, ?_, rfl⟩
    rw [hend]
    rfl
  | @cons segment segments hstart =>
    refine ⟨segment.start, _, rfl, ?_, rfl⟩
    rw [TokenKind.isRecovery, hstart, Bool.true_or]

/-- A construct, and the stray tokens after it. -/
theorem Opens.parseBlocks {p : Parser} {segment : Segment} {rest : List Token}
    (h : p.Opens segment rest) (hstart : segment.start.kind.isBlockStart = true)
    (blocks : List Block) :
    ∃ q, p.parseBlocks blocks = q.parseBlocks (blocks ++ segment.read.block.toList) ∧
      q.At [] segment.next rest ∧ p.Follows q segment.read.faults := by
  have hconstructs : ∃ q, p.parseBlocks blocks =
      q.parseBlocks (blocks ++ segment.read.block.toList) ∧
      p.Constructs q segment rest segment.read := by
    rw [Segment.read]
    split
    · obtain ⟨directive?, q, hq, hblock, hconstructs⟩ := h.parseDirective
      refine ⟨q, ?_, hconstructs⟩
      rw [parseBlocks_directive blocks (by rwa [h.peek_eq]) hq, hblock]
    · obtain ⟨codeBlock, q, hq, hblock, hconstructs⟩ := h.parseCodeBlock
      refine ⟨q, ?_, hconstructs⟩
      rw [parseBlocks_code blocks (by rwa [h.peek_eq]) (by rwa [h.peek_eq]) hq, hblock]
      rfl
  obtain ⟨q, hq, hat, hfollows⟩ := hconstructs
  obtain ⟨r, hr, hat', hfollows'⟩ := hat.parseBlocks_stray (blocks ++ segment.read.block.toList)
  exact ⟨r, hq.trans hr, hat', hfollows.trans hfollows'⟩

/-- A parser in front of segments comes to the end of the file, with their blocks and faults. -/
theorem Linked.parseBlocks (h : Linked endOfFile segments) (hend : endOfFile.kind = .endOfFile)
    {p : Parser} (hleft : p.left = segments.flatMap Segment.tokens ++ [endOfFile])
    (blocks : List Block) :
    ∃ q, p.parseBlocks blocks =
        (blocks ++ (segments.map Segment.read).filterMap (·.block), q) ∧
      q.left = [endOfFile] ∧
      p.Follows q ((segments.map Segment.read).flatMap Construct.faults) := by
  induction h generalizing p blocks with
  | nil =>
    have hpeek : p.peek.kind = .endOfFile := by
      rw [Parser.peek_eq, hleft]
      exact hend
    refine ⟨p, ?_, hleft, .refl p⟩
    rw [parseBlocks_endOfFile blocks hpeek, List.map_nil, List.filterMap_nil, List.append_nil]
  | @cons segment segments hstart hinner hnext hrest ih =>
    -- behind the first segment the parser is in front of the others
    obtain ⟨next, rest, hhead, hrecovery, htokens⟩ := hrest.exists_head hend
    rw [← hnext.trans hhead] at hrecovery htokens
    have hopens : p.Opens segment rest := by
      refine ⟨?_, hinner, hrecovery⟩
      rw [hleft, List.flatMap_cons, List.append_assoc, htokens]
    obtain ⟨q, hq, hat, hfollows⟩ := hopens.parseBlocks hstart blocks
    obtain ⟨r, hr, hend', hfollows'⟩ := ih (hat.left_eq.trans htokens.symm)
      (blocks ++ segment.read.block.toList)
    refine ⟨r, ?_, hend', hfollows.trans hfollows'⟩
    rw [hq, hr, List.append_assoc, List.map_cons, List.filterMap_cons]
    cases segment.read.block <;> rfl

end Texts

/-- The parser of a text comes to its tree and its faults, and has taken all of its tokens. -/
theorem parse_start (text : String) :
    (start text).parse.1 = TextTemplate.parse text ∧
      (start text).parse.2.taken = (scan text).toList ∧ (start text).parse.2.left = [] := by
  have hend := kind_endOfFile_scan text
  have hkinds : ∀ t ∈ (scan text).tokens, t.kind ≠ .endOfFile := fun t => kind_ne_of_mem_scan
  have hlinked : Linked (scan text).endOfFile
      (Cut.ofTokens (scan text).endOfFile (scan text).tokens).segments := linked_ofTokens hkinds
  obtain ⟨next, rest, -, hrecovery, htokens⟩ := hlinked.exists_head hend
  have hat : (start text).At (Cut.ofTokens (scan text).endOfFile (scan text).tokens).leading next
      rest := by
    refine ⟨?_, isRecovery_of_mem_leading hkinds, hrecovery⟩
    rw [← htokens, ← List.append_assoc, Cut.flatten_ofTokens]
    rfl
  obtain ⟨p, hp, hat', hfollows⟩ := hat.parseBlocks_stray []
  obtain ⟨q, hq, hleft, hfollows'⟩ := hlinked.parseBlocks hend
    (hat'.left_eq.trans htokens.symm) []
  have hpeek : q.peek = (scan text).endOfFile := by
    rw [peek_eq, hleft]
    rfl
  have hrun := hfollows.trans hfollows'
  rw [parse, hp, hq]
  dsimp only
  refine ⟨?_, ?_, ?_⟩
  · rw [hpeek, hrun.faults_eq]
    rfl
  · have htaken := hrun.taken_eq
    rw [hleft] at htaken
    show q.taken ++ [q.peek] = _
    rw [hpeek, htaken]
    rfl
  · rw [left_advance, hleft]
    rfl

end Parser

/-- What it takes to read a text. -/
structure ReadInFull (text : String) : Prop where
  /-- No call of a scanner, wherever it has come to, takes more than two steps. -/
  steps_le : ∀ s : Scanner, s.next.steps ≤ 2
  /-- A step that finds no token has come to the end, or leaves an attribute value. -/
  finish : ∀ mode cs gap, step mode cs = .finish gap → gap = cs
  leave : ∀ mode cs mode', step mode cs = .leave mode' →
    (∃ done, mode = .value done) ∧ cs ≠ [] ∧ ∀ mode'', step mode' cs ≠ .leave mode''
  /-- The calls hand out the tokens in order, and nothing after the one for the end of the file. -/
  token?_eq : ∀ n, ((Scanner.start text).after n).next.token? = (scan text).toList[n]?
  kind_eq_iff : ∀ t ∈ (scan text).toList, t.kind = .endOfFile ↔ t = (scan text).endOfFile
  length_le : (scan text).toList.length ≤ byteLength text.toList + byteLength text.toList / 2 + 1
  /-- But for the end of the file, only values between two quotes have no characters. -/
  quoted : ∀ t ∈ (scan text).tokens, t.text = "" →
    t.kind = .attributeValue ∧ ∃ opening closing, opening.kind = .quote ∧ closing.kind = .quote ∧
      [opening, t, closing] <:+: (scan text).tokens
  /-- Every loop of a parser, wherever that has come to, finds the token that it looks for. -/
  recover : ∀ p : Parser, p.recover.atRecovery = true
  coverStray : ∀ (p : Parser) (span : Span), (p.coverStray span).2.atRecovery = true
  parseBlocks : ∀ (p : Parser) (blocks : List Block),
    (p.parseBlocks blocks).2.peek.kind = .endOfFile
  /-- A parser that takes one token at a time comes to the tree and the faults of the text, and has
  then taken every token once. -/
  parse_eq : (Parser.start text).parse.1 = parse text
  taken_eq : (Parser.start text).parse.2.taken = (scan text).toList
  left_eq : (Parser.start text).parse.2.left = []

/-- **Reading ends.** Every text is read in full, by calls of two steps at most, and by as many of
them as there are tokens. -/
theorem readInFull (text : String) : ReadInFull text := by
  obtain ⟨hparse, htaken, hleft⟩ := Parser.parse_start text
  refine ⟨Scanner.steps_next_le, fun _ _ _ => eq_of_step_finish, fun mode cs mode' h => ?_,
    Scanner.token?_after_start text, fun t ht => ?_, length_scan_le text,
    fun t => quoted_of_mem_scan, Parser.atRecovery_recover,
    fun p span => p.atRecovery_coverStray span, fun p blocks => p.kind_peek_parseBlocks blocks,
    hparse, htaken, hleft⟩
  · exact ⟨(eq_of_step_leave h).1, Scanner.not_leave_of_step_leave h⟩
  · constructor
    · intro hkind
      rcases List.mem_append.mp ht with ht | ht
      · exact absurd hkind (kind_ne_of_mem_scan ht)
      · exact List.mem_singleton.mp ht
    · rintro rfl
      exact kind_endOfFile_scan text

end TextTemplate
