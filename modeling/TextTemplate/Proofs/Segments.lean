import TextTemplate.Proofs.Grammar
import TextTemplate.Proofs.Leaves
import TextTemplate.Tree.Segment

/-!
# What comes of the segments of a template

Cutting the tokens in front of each block start loses none of them (`Cut.flatten_ofTokens`), and
what a segment holds is one of three things (`Segment.reads`):

* a complete block, whose leaves are the tokens up to its end; all tokens after it are stray;
* a block without its end, whose leaves are the first tokens of the segment, and one fault;
* no block at all, but the fault of a directive without a name.

Every other statement about trees and faults is derived from this one; the functions that read
attributes, directives and code blocks are not opened again.
-/
namespace TextTemplate

/-! ## Cuts -/

/-- The tokens of a segment. -/
def Segment.tokens (segment : Segment) : List Token :=
  segment.start :: segment.body

namespace Cut
variable {endOfFile : Token} {tokens : List Token}

theorem ofTokens_blockStart {token : Token} (h : token.kind.isBlockStart) :
    ofTokens endOfFile (token :: tokens) =
      ⟨[], ⟨token, (ofTokens endOfFile tokens).leading,
        ((ofTokens endOfFile tokens).segments.head?.map (·.start)).getD endOfFile⟩ ::
          (ofTokens endOfFile tokens).segments⟩ :=
  if_pos h

theorem ofTokens_other {token : Token} (h : token.kind.isBlockStart = false) :
    ofTokens endOfFile (token :: tokens) =
      ⟨token :: (ofTokens endOfFile tokens).leading, (ofTokens endOfFile tokens).segments⟩ :=
  if_neg (Bool.eq_false_iff.mp h)

/-- No token is lost by cutting. -/
theorem flatten_ofTokens (endOfFile : Token) (tokens : List Token) :
    (ofTokens endOfFile tokens).leading ++
      (ofTokens endOfFile tokens).segments.flatMap Segment.tokens = tokens := by
  induction tokens with
  | nil => rfl
  | cons token tokens ih =>
    cases h : token.kind.isBlockStart with
    | true =>
      rw [ofTokens_blockStart h]
      exact congrArg (token :: ·) ih
    | false =>
      rw [ofTokens_other h]
      exact congrArg (token :: ·) ih

theorem not_isBlockStart_of_mem_leading {token : Token}
    (h : token ∈ (ofTokens endOfFile tokens).leading) : token.kind.isBlockStart = false := by
  induction tokens with
  | nil => contradiction
  | cons first tokens ih =>
    cases hf : first.kind.isBlockStart with
    | true =>
      rw [ofTokens_blockStart hf] at h
      contradiction
    | false =>
      rw [ofTokens_other hf] at h
      rcases List.mem_cons.mp h with rfl | h
      · exact hf
      · exact ih h

/-- A segment has a block start in front and no other. -/
theorem isBlockStart_of_mem_segments {segment : Segment}
    (h : segment ∈ (ofTokens endOfFile tokens).segments) :
    segment.start.kind.isBlockStart ∧
      ∀ token ∈ segment.body, token.kind.isBlockStart = false := by
  induction tokens with
  | nil => contradiction
  | cons first tokens ih =>
    cases hf : first.kind.isBlockStart with
    | true =>
      rw [ofTokens_blockStart hf] at h
      rcases List.mem_cons.mp h with rfl | h
      · exact ⟨hf, fun token ht => not_isBlockStart_of_mem_leading ht⟩
      · exact ih h
    | false =>
      rw [ofTokens_other hf] at h
      exact ih h

theorem mem_of_mem_leading {token : Token} (h : token ∈ (ofTokens endOfFile tokens).leading) :
    token ∈ tokens := by
  rw [← flatten_ofTokens endOfFile tokens]
  exact List.mem_append_left _ h

/-- The tokens of a segment are found one after the other. -/
theorem isInfix_of_mem_segments {segment : Segment}
    (h : segment ∈ (ofTokens endOfFile tokens).segments) : segment.tokens <:+: tokens := by
  have hsegments : segment.tokens <:+: (ofTokens endOfFile tokens).segments.flatMap
      Segment.tokens := List.infix_of_mem_flatten (List.mem_map_of_mem h)
  exact hsegments.trans (List.IsSuffix.isInfix ⟨_, flatten_ofTokens endOfFile tokens⟩)

theorem mem_of_mem_segments {segment : Segment} {token : Token}
    (h : segment ∈ (ofTokens endOfFile tokens).segments) (ht : token ∈ segment.tokens) :
    token ∈ tokens :=
  (isInfix_of_mem_segments h).subset ht

/-- Where the tokens go on with a block start, cutting the first of them and cutting the others are
two matters; the segments in front have the block start next. -/
theorem ofTokens_append (endOfFile start : Token) (hstart : start.kind.isBlockStart)
    (before after : List Token) :
    ofTokens endOfFile (before ++ start :: after) =
      ⟨(ofTokens start before).leading,
        (ofTokens start before).segments ++ (ofTokens endOfFile (start :: after)).segments⟩ := by
  induction before with
  | nil =>
    rw [List.nil_append, ofTokens_blockStart hstart]
    rfl
  | cons token before ih =>
    cases h : token.kind.isBlockStart with
    | true =>
      rw [List.cons_append, ofTokens_blockStart h, ofTokens_blockStart h, ih,
        ofTokens_blockStart hstart]
      cases (ofTokens start before).segments <;> rfl
    | false => rw [List.cons_append, ofTokens_other h, ofTokens_other h, ih]

end Cut

/-! ## Attributes -/

section Attributes
variable {next name : Token} {tokens rest : List Token} {attr : Attribute} {fault : Diagnostic}

/-- A fault that ends a construct after its block has begun: neither a stray token nor a missing
name. -/
def Cause.KeepsBlock (cause : Cause) : Prop :=
  cause ≠ .blockStartExpected ∧ cause ≠ .directiveNameExpected

theorem cause_of_expect {kind : TokenKind} {cause : Cause}
    (h : expect kind cause next tokens = .error fault) : fault.cause = cause := by
  unfold expect at h
  split at h
  · cases h
    rfl
  · split at h
    · contradiction
    · cases h
      rfl

theorem expect_cons {token : Token} {kind : TokenKind} (cause : Cause) (h : token.kind = kind) :
    expect kind cause next (token :: rest) = .ok (token, rest) :=
  if_pos h

/-- A complete attribute consists of the five tokens that the grammar asks for. -/
theorem readAttribute_ok (hname : name.kind = .attributeName)
    (h : readAttribute next name tokens = (attr, .ok rest)) :
    ∃ used, name :: tokens = used ++ rest ∧ used.map (·.kind) = Grammar.attrWord ∧
      (Node.attr attr).leaves = used.map Token.node := by
  fun_cases readAttribute next name tokens with
  | case5 equals _ h₁ openQuote _ h₂ value _ h₃ closeQuote _ h₄ =>
    simp only [readAttribute, h₁, h₂, h₃, h₄, Prod.mk.injEq, Except.ok.injEq] at h
    obtain ⟨rfl, rfl⟩ := h
    obtain ⟨rfl, k₁⟩ := eq_cons_of_expect h₁
    obtain ⟨rfl, k₂⟩ := eq_cons_of_expect h₂
    obtain ⟨rfl, k₃⟩ := eq_cons_of_expect h₃
    obtain ⟨rfl, k₄⟩ := eq_cons_of_expect h₄
    refine ⟨[name, equals, openQuote, value, closeQuote], rfl, ?_, ?_⟩
    · simp [Grammar.attrWord, hname, k₁, k₂, k₃, k₄]
    · simp [Node.leaves_attr, Token.node, TokenKind.isCapture, hname, k₁, k₂, k₃, k₄]
  | _ => simp_all [readAttribute]

/-- An attribute whose parts are all there is read as a complete one. -/
theorem readAttribute_of_kinds {equals openQuote value closeQuote : Token}
    (h₁ : equals.kind = .equals) (h₂ : openQuote.kind = .quote)
    (h₃ : value.kind = .attributeValue) (h₄ : closeQuote.kind = .quote) :
    readAttribute next name (equals :: openQuote :: value :: closeQuote :: rest) =
      (⟨name, equals.toMark, openQuote.toMark, value, closeQuote.toMark⟩, .ok rest) := by
  simp only [readAttribute, expect_cons _ h₁, expect_cons _ h₂, expect_cons _ h₃,
    expect_cons _ h₄]

/-- An attribute that is not complete consists of its name and the tokens after it that fit. -/
theorem readAttribute_error (hname : name.kind = .attributeName)
    (h : readAttribute next name tokens = (attr, .error fault)) :
    ∃ used unread, name :: tokens = used ++ unread ∧
      (Node.attr attr).leaves = used.map Token.node ∧ fault.cause.KeepsBlock := by
  fun_cases readAttribute next name tokens with
  | case1 _ h₁ =>
    simp only [readAttribute, h₁, Prod.mk.injEq, Except.error.injEq] at h
    obtain ⟨rfl, rfl⟩ := h
    refine ⟨[name], tokens, rfl, ?_, ?_⟩
    · simp [Node.leaves_attr, Token.node, TokenKind.isCapture, hname]
    · rw [Cause.KeepsBlock, cause_of_expect h₁]
      decide
  | case2 equals rest h₁ _ h₂ =>
    simp only [readAttribute, h₁, h₂, Prod.mk.injEq, Except.error.injEq] at h
    obtain ⟨rfl, rfl⟩ := h
    obtain ⟨rfl, k₁⟩ := eq_cons_of_expect h₁
    refine ⟨[name, equals], rest, rfl, ?_, ?_⟩
    · simp [Node.leaves_attr, Token.node, TokenKind.isCapture, hname, k₁]
    · rw [Cause.KeepsBlock, cause_of_expect h₂]
      decide
  | case3 equals _ h₁ openQuote rest h₂ _ h₃ =>
    simp only [readAttribute, h₁, h₂, h₃, Prod.mk.injEq, Except.error.injEq] at h
    obtain ⟨rfl, rfl⟩ := h
    obtain ⟨rfl, k₁⟩ := eq_cons_of_expect h₁
    obtain ⟨rfl, k₂⟩ := eq_cons_of_expect h₂
    refine ⟨[name, equals, openQuote], rest, rfl, ?_, ?_⟩
    · simp [Node.leaves_attr, Token.node, TokenKind.isCapture, hname, k₁, k₂]
    · rw [Cause.KeepsBlock, cause_of_expect h₃]
      decide
  | case4 equals _ h₁ openQuote _ h₂ value rest h₃ _ h₄ =>
    simp only [readAttribute, h₁, h₂, h₃, h₄, Prod.mk.injEq, Except.error.injEq] at h
    obtain ⟨rfl, rfl⟩ := h
    obtain ⟨rfl, k₁⟩ := eq_cons_of_expect h₁
    obtain ⟨rfl, k₂⟩ := eq_cons_of_expect h₂
    obtain ⟨rfl, k₃⟩ := eq_cons_of_expect h₃
    refine ⟨[name, equals, openQuote, value], rest, rfl, ?_, ?_⟩
    · simp [Node.leaves_attr, Token.node, TokenKind.isCapture, hname, k₁, k₂, k₃]
    · rw [Cause.KeepsBlock, cause_of_expect h₄]
      decide
  | case5 _ _ h₁ _ _ h₂ _ _ h₃ _ _ h₄ => simp_all [readAttribute]

theorem readAttributes_blockEnd {stop : Token} (h : stop.kind = .blockEnd) :
    readAttributes next (stop :: rest) = ([], .ok (stop, rest)) := by
  rw [readAttributes]
  simp [h]

theorem readAttributes_attribute (hname : name.kind = .attributeName)
    (h : readAttribute next name tokens = (attr, .ok rest)) :
    readAttributes next (name :: tokens) =
      (attr :: (readAttributes next rest).1, (readAttributes next rest).2) := by
  rw [readAttributes]
  simp only [hname]
  split
  · simp_all
  · simp_all

theorem readAttributes_broken (hname : name.kind = .attributeName)
    (h : readAttribute next name tokens = (attr, .error fault)) :
    readAttributes next (name :: tokens) = ([attr], .error fault) := by
  rw [readAttributes]
  simp only [hname]
  split
  · simp_all
  · simp_all

theorem readAttributes_other {token : Token} (hname : token.kind ≠ .attributeName)
    (hstop : token.kind ≠ .blockEnd) :
    readAttributes next (token :: tokens) =
      ([], .error (token.fault .blockEndOrAttributeNameExpected)) := by
  rw [readAttributes]
  split
  · contradiction
  · contradiction
  · rfl

/-- The leaves of attributes one after the other. -/
def attributeLeaves (attrs : List Attribute) : List Node :=
  attrs.flatMap fun attr => (Node.attr attr).leaves

/-- The attributes of a directive up to its end: their leaves are the tokens in front of the end,
and all of them are complete. -/
theorem readAttributes_ok {attrs : List Attribute} {stop : Token} {stray : List Token}
    (h : readAttributes next tokens = (attrs, .ok (stop, stray))) :
    ∃ used, tokens = used ++ stop :: stray ∧ stop.kind = .blockEnd ∧
      used.map (·.kind) = (List.replicate attrs.length Grammar.attrWord).flatten ∧
      attributeLeaves attrs = used.map Token.node := by
  fun_induction readAttributes next tokens generalizing attrs with
  | case3 token tokens hkind attr rest hattr attrs' ending hattrs ih =>
    obtain ⟨rfl, rfl⟩ := Prod.mk.inj h
    obtain ⟨used, rfl, hstop, hkinds, hleaves⟩ := ih hattrs
    obtain ⟨first, htokens, hfirst, hattrLeaves⟩ := readAttribute_ok hkind hattr
    refine ⟨first ++ used, by rw [htokens, List.append_assoc], hstop, ?_, ?_⟩
    · rw [List.map_append, hfirst, hkinds]
      rfl
    · rw [List.map_append, ← hattrLeaves, ← hleaves]
      rfl
  | case4 token tokens hkind =>
    simp only [Prod.mk.injEq, Except.ok.injEq] at h
    obtain ⟨rfl, rfl, rfl⟩ := h
    exact ⟨[], rfl, hkind, rfl, rfl⟩
  | _ => simp at h

theorem complete_of_readAttribute (h : readAttribute next name tokens = (attr, .ok rest)) :
    attr.isComplete ∧ attr.value.isSome := by
  fun_cases readAttribute next name tokens with
  | case5 _ _ h₁ _ _ h₂ _ _ h₃ _ _ h₄ =>
    simp only [readAttribute, h₁, h₂, h₃, h₄, Prod.mk.injEq] at h
    rw [← h.1]
    exact ⟨rfl, rfl⟩
  | _ => simp_all [readAttribute]

/-- The attributes of a directive up to its end are complete and have values. -/
theorem complete_of_readAttributes {attrs : List Attribute} {stop : Token} {stray : List Token}
    (h : readAttributes next tokens = (attrs, .ok (stop, stray))) :
    ∀ attr ∈ attrs, attr.isComplete ∧ attr.value.isSome := by
  fun_induction readAttributes next tokens generalizing attrs with
  | case3 token tokens hkind attr rest hattr attrs' ending hattrs ih =>
    obtain ⟨rfl, rfl⟩ := Prod.mk.inj h
    rintro a (_ | ⟨_, ha⟩)
    · exact complete_of_readAttribute hattr
    · exact ih hattrs a ha
  | _ => simp_all

/-- The attributes of a directive that breaks off: their leaves are the tokens that fit. -/
theorem readAttributes_error {attrs : List Attribute}
    (h : readAttributes next tokens = (attrs, .error fault)) :
    ∃ used unread, tokens = used ++ unread ∧ attributeLeaves attrs = used.map Token.node ∧
      fault.cause.KeepsBlock := by
  have hcause : Cause.KeepsBlock .blockEndOrAttributeNameExpected := ⟨by decide, by decide⟩
  fun_induction readAttributes next tokens generalizing attrs with
  | case1 =>
    simp only [Prod.mk.injEq, Except.error.injEq] at h
    obtain ⟨rfl, rfl⟩ := h
    exact ⟨[], [], rfl, rfl, hcause⟩
  | case2 token tokens hkind attr fault hattr =>
    simp only [Prod.mk.injEq, Except.error.injEq] at h
    obtain ⟨rfl, rfl⟩ := h
    obtain ⟨used, unread, htokens, hleaves, hcause⟩ := readAttribute_error hkind hattr
    exact ⟨used, unread, htokens, by simpa [attributeLeaves] using hleaves, hcause⟩
  | case3 token tokens hkind attr rest hattr attrs' ending hattrs ih =>
    obtain ⟨rfl, rfl⟩ := Prod.mk.inj h
    obtain ⟨used, unread, rfl, hleaves, hcause⟩ := ih hattrs
    obtain ⟨first, htokens, -, hattrLeaves⟩ := readAttribute_ok hkind hattr
    refine ⟨first ++ used, unread, by rw [htokens, List.append_assoc], ?_, hcause⟩
    rw [List.map_append, ← hattrLeaves, ← hleaves]
    rfl
  | case4 => simp at h
  | case5 token tokens =>
    simp only [Prod.mk.injEq, Except.error.injEq] at h
    obtain ⟨rfl, rfl⟩ := h
    exact ⟨[], token :: tokens, rfl, rfl, hcause⟩

/-- Attributes that follow the grammar are all read, up to the end of the directive. -/
theorem readAttributes_of_word {count : Nat}
    (h : tokens.map (·.kind) =
      (List.replicate count Grammar.attrWord).flatten ++ [.blockEnd]) :
    ∃ attrs stop, readAttributes next tokens = (attrs, .ok (stop, [])) := by
  induction count generalizing tokens with
  | zero =>
    obtain ⟨stop, rest, rfl, hstop, hrest⟩ := List.map_eq_cons_iff.mp h
    obtain rfl := List.map_eq_nil_iff.mp hrest
    exact ⟨[], stop, readAttributes_blockEnd hstop⟩
  | succ count ih =>
    simp only [List.replicate_succ, List.flatten_cons, Grammar.attrWord, List.cons_append,
      List.nil_append, List.map_eq_cons_iff] at h
    obtain ⟨token, _, rfl, hkind, equals, _, rfl, k₁, openQuote, _, rfl, k₂, value, _, rfl, k₃,
      closeQuote, tokens, rfl, k₄, hrest⟩ := h
    obtain ⟨attrs, stop, hattrs⟩ := ih hrest
    rw [readAttributes_attribute hkind (readAttribute_of_kinds k₁ k₂ k₃ k₄), hattrs]
    exact ⟨_, stop, rfl⟩

end Attributes

/-! ## Constructs -/

/-- What can come of reading a segment. -/
inductive Segment.Reads (segment : Segment) : Construct → Prop
  /-- A complete block, and the tokens after its end. -/
  | complete {block : Block} {used stray : List Token} (htokens : segment.tokens = used ++ stray)
      (hleaves : block.node.leaves = used.map Token.node)
      (hword : used.map (·.kind) ∈ Grammar.block.matches') (hcomplete : block.isComplete = true) :
      Reads segment ⟨some block, none, stray⟩
  /-- A block that breaks off in front of its end. -/
  | broken {block : Block} {fault : Diagnostic} {used unread : List Token}
      (htokens : segment.tokens = used ++ unread)
      (hleaves : block.node.leaves = used.map Token.node)
      (hcause : fault.cause.KeepsBlock) (hcomplete : block.isComplete = false) :
      Reads segment ⟨some block, some fault, []⟩
  /-- A directive without a name. -/
  | nameless {fault : Diagnostic} (hstart : segment.start.kind = .directiveStart)
      (hcause : fault.cause = .directiveNameExpected) : Reads segment ⟨none, some fault, []⟩

theorem readCodeBlock_reads {segment : Segment} (hstart : segment.start.kind.isBlockStart)
    (hne : segment.start.kind ≠ .directiveStart) : segment.Reads (readCodeBlock segment) := by
  have hnode := Token.node_of_isBlockStart hstart
  have hcause : Cause.KeepsBlock .codeOrBlockEndExpected := ⟨by decide, by decide⟩
  fun_cases readCodeBlock segment with
  | case1 start hbody =>
    have htokens : segment.tokens = [segment.start] ++ [] := by
      rw [Segment.tokens, hbody]
      rfl
    refine .broken htokens ?_ hcause rfl
    simp [Block.node, Node.leaves_codeBlock, hnode, start]
  | case2 start stop stray hbody hkind =>
    have htokens : segment.tokens = [segment.start, stop] ++ stray := by
      rw [Segment.tokens, hbody]
      rfl
    refine .complete htokens ?_ ?_ rfl
    · simp [Block.node, Node.leaves_codeBlock, hnode, start, Token.node_of_blockEnd hkind]
    · refine Grammar.mem_block.mpr (.inr (Grammar.mem_codeBlock.mpr ⟨_, hstart, hne, .inl ?_⟩))
      simp [hkind]
  | case3 start code tokens hbody hkind fault h =>
    have htokens : segment.tokens = [segment.start, code] ++ tokens := by
      rw [Segment.tokens, hbody]
      rfl
    refine .broken htokens ?_ ?_ rfl
    · simp [Block.node, Node.leaves_codeBlock, hnode, start, Token.node_of_code hkind]
    · rw [Cause.KeepsBlock, cause_of_expect h]
      decide
  | case4 start code tokens hbody hkind stop stray h =>
    obtain ⟨rfl, hstop⟩ := eq_cons_of_expect h
    have htokens : segment.tokens = [segment.start, code, stop] ++ stray := by
      rw [Segment.tokens, hbody]
      rfl
    refine .complete htokens ?_ ?_ rfl
    · simp [Block.node, Node.leaves_codeBlock, hnode, start, Token.node_of_code hkind,
        Token.node_of_blockEnd hstop]
    · refine Grammar.mem_block.mpr (.inr (Grammar.mem_codeBlock.mpr ⟨_, hstart, hne, .inr ?_⟩))
      simp [hkind, hstop]
  | case5 start token tokens hbody =>
    have htokens : segment.tokens = [segment.start] ++ token :: tokens := by
      rw [Segment.tokens, hbody]
      rfl
    refine .broken htokens ?_ hcause rfl
    simp [Block.node, Node.leaves_codeBlock, hnode, start]

theorem readDirective_reads {segment : Segment} (hstart : segment.start.kind = .directiveStart) :
    segment.Reads (readDirective segment) := by
  fun_cases readDirective segment with
  | case1 fault h => exact .nameless hstart (cause_of_expect h)
  | case2 name tokens hname attrs fault hattrs =>
    obtain ⟨hbody, hkind⟩ := eq_cons_of_expect hname
    obtain ⟨used, unread, rfl, hleaves, hcause⟩ := readAttributes_error hattrs
    have htokens : segment.tokens = segment.start :: name :: used ++ unread := by
      rw [Segment.tokens, hbody]
      rfl
    refine .broken htokens ?_ hcause rfl
    rw [Block.node, Node.leaves_directive, ← attributeLeaves, hleaves]
    simp [Token.node, TokenKind.isCapture, hstart, hkind]
  | case3 name tokens hname attrs stop stray hattrs =>
    obtain ⟨hbody, hkind⟩ := eq_cons_of_expect hname
    obtain ⟨used, rfl, hstop, hkinds, hleaves⟩ := readAttributes_ok hattrs
    have htokens : segment.tokens = segment.start :: name :: (used ++ [stop]) ++ stray := by
      simp [Segment.tokens, hbody]
    refine .complete htokens ?_ ?_ rfl
    · rw [Block.node, Node.leaves_directive, ← attributeLeaves, hleaves]
      simp [Token.node, TokenKind.isCapture, hstart, hkind, hstop]
    · refine Grammar.mem_block.mpr (.inl (Grammar.mem_directive.mpr ⟨attrs.length, ?_⟩))
      simp [hstart, hkind, hstop, ← hkinds]

/-- Every segment is read in one of three ways. -/
theorem Segment.reads {segment : Segment} (hstart : segment.start.kind.isBlockStart) :
    segment.Reads segment.read := by
  by_cases h : segment.start.kind = .directiveStart
  · rw [Segment.read, if_pos h]
    exact readDirective_reads h
  · rw [Segment.read, if_neg h]
    exact readCodeBlock_reads hstart h

/-- A segment holds a directive if it starts with the start of one and a name comes next. The
attributes are read from the tokens after the name; the directive ends where they do, if at all. -/
theorem Segment.of_read_directive {segment : Segment} {d : Directive}
    (h : segment.read.block = some (.directive d)) :
    segment.start.kind = .directiveStart ∧ d.start = segment.start.toMark ∧
      ∃ tokens, segment.body = d.name :: tokens ∧ d.name.kind = .directiveName ∧
        ((∃ fault, readAttributes segment.next tokens = (d.attributes, .error fault) ∧
            d.stop = none) ∨
          ∃ stop stray, readAttributes segment.next tokens = (d.attributes, .ok (stop, stray)) ∧
            d.stop = some stop.toMark) := by
  rw [Segment.read] at h
  split at h
  case isTrue hstart =>
    fun_cases readDirective segment with
    | case1 _ h₁ => simp [readDirective, h₁] at h
    | case2 name tokens h₁ attrs fault h₂ =>
      simp only [readDirective, h₁, h₂, Option.some.injEq, Block.directive.injEq] at h
      subst h
      obtain ⟨hbody, hname⟩ := eq_cons_of_expect h₁
      exact ⟨hstart, rfl, tokens, hbody, hname, .inl ⟨fault, h₂, rfl⟩⟩
    | case3 name tokens h₁ attrs stop stray h₂ =>
      simp only [readDirective, h₁, h₂, Option.some.injEq, Block.directive.injEq] at h
      subst h
      obtain ⟨hbody, hname⟩ := eq_cons_of_expect h₁
      exact ⟨hstart, rfl, tokens, hbody, hname, .inr ⟨stop, stray, h₂, rfl⟩⟩
  case isFalse =>
    fun_cases readCodeBlock segment with
    | _ => simp_all [readCodeBlock]

/-- A directive with an end has only complete attributes, and values for all of them. -/
theorem Segment.complete_attributes {segment : Segment} {d : Directive}
    (h : segment.read.block = some (.directive d)) (hd : d.isComplete = true) :
    ∀ attr ∈ d.attributes, attr.isComplete ∧ attr.value.isSome := by
  obtain ⟨-, -, tokens, -, -, ⟨fault, -, hstop⟩ | ⟨stop, stray, hattrs, -⟩⟩ := of_read_directive h
  · rw [Directive.isComplete, hstop] at hd
    contradiction
  · exact complete_of_readAttributes hattrs

/-- The stray tokens of a segment are tokens of it. -/
theorem Segment.Reads.mem_of_mem_stray {segment : Segment} {construct : Construct} {token : Token}
    (h : segment.Reads construct) (ht : token ∈ construct.stray) : token ∈ segment.tokens := by
  cases h with
  | complete htokens =>
    rw [htokens]
    exact List.mem_append_right _ ht
  | broken | nameless => contradiction

/-- The leaves of the block of a segment stand for its first tokens. -/
theorem Segment.Reads.exists_used {segment : Segment} {construct : Construct} {block : Block}
    (h : segment.Reads construct) (hb : construct.block = some block) :
    ∃ used : List Token, used <+: segment.tokens ∧ block.node.leaves = used.map Token.node := by
  cases h with
  | complete htokens hleaves | broken htokens hleaves =>
    obtain rfl := Option.some.inj hb
    exact ⟨_, ⟨_, htokens.symm⟩, hleaves⟩
  | nameless => contradiction

/-! ## Templates -/

namespace ParsedTemplate

/-- The faults of the tokens in front of the first block start, and those of the segments. -/
theorem faults_ofStream (stream : TokenStream) :
    (ofStream stream).faults =
      (strayFault (Cut.ofTokens stream.endOfFile stream.tokens).leading).toList ++
        (Cut.ofTokens stream.endOfFile stream.tokens).segments.flatMap (·.read.faults) := by
  simp only [ofStream, List.flatMap_map]

theorem blocks_ofStream (stream : TokenStream) :
    (ofStream stream).template.blocks =
      (Cut.ofTokens stream.endOfFile stream.tokens).segments.filterMap (·.read.block) := by
  simp only [ofStream, List.filterMap_map]
  rfl

/-- The leaves of a block stand for tokens that are found one after the other. -/
theorem exists_used_of_mem_blocks {stream : TokenStream} {block : Block}
    (hblock : block ∈ (ofStream stream).template.blocks) :
    ∃ used : List Token, used <:+: stream.tokens ∧ block.node.leaves = used.map Token.node := by
  rw [blocks_ofStream] at hblock
  obtain ⟨segment, hsegment, hb⟩ := List.mem_filterMap.mp hblock
  obtain ⟨used, hused, hleaves⟩ :=
    (Segment.reads (Cut.isBlockStart_of_mem_segments hsegment).1).exists_used hb
  exact ⟨used, hused.isInfix.trans (Cut.isInfix_of_mem_segments hsegment), hleaves⟩

/-- Every leaf of the tree stands for a token of the stream. -/
theorem exists_of_mem_leaves {stream : TokenStream} {block : Block} {leaf : Node}
    (hblock : block ∈ (ofStream stream).template.blocks) (hleaf : leaf ∈ block.node.leaves) :
    ∃ token ∈ stream.tokens, leaf = token.node := by
  obtain ⟨used, hused, hleaves⟩ := exists_used_of_mem_blocks hblock
  rw [hleaves] at hleaf
  obtain ⟨token, ht, rfl⟩ := List.mem_map.mp hleaf
  exact ⟨token, hused.subset ht, rfl⟩

/-- A directive of the tree is what one of the segments holds. -/
theorem exists_segment_of_mem_directives {stream : TokenStream} {d : Directive}
    (hd : d ∈ (ofStream stream).template.directives) :
    Block.directive d ∈ (ofStream stream).template.blocks ∧
      ∃ segment ∈ (Cut.ofTokens stream.endOfFile stream.tokens).segments,
        segment.read.block = some (.directive d) := by
  obtain ⟨block, hblock, hdirective⟩ := List.mem_filterMap.mp hd
  cases block with
  | code => contradiction
  | directive =>
    obtain rfl := Option.some.inj hdirective
    refine ⟨hblock, ?_⟩
    rw [blocks_ofStream] at hblock
    exact List.mem_filterMap.mp hblock

end ParsedTemplate

end TextTemplate
