import Mathlib.Data.List.Chain
import TextTemplate.Proofs.JoinedSpans
import TextTemplate.Proofs.Segments
import TextTemplate.Proofs.TokenPlaces

/-!
# Each malformed construct is told once

`Told` says, without the functions that read segments, what the tokens of a template come to. Every
block start opens one construct. The construct is complete and has no fault, or it breaks off with
exactly one fault; it then has a block without an end, or no block if the fault is a missing name.
After a complete construct, and at the start of a text, there may be a run of block ends up to the
next block start, which is one fault more (`StrayRun`).

Every text comes to that (`faults_told_once`). The part about block ends is due to the reader: a
block end leads back to output text, where only delimiters are found, so no other token can follow
one (`isChain_kinds`).
-/
namespace TextTemplate

/-! ## What tokens come to -/

/-- A run of block ends in front of a block start or the end of the file, and its faults. -/
inductive StrayRun : List Token → List Diagnostic → Prop
  | none : StrayRun [] []
  | run {first : Token} {tokens : List Token} {fault : Diagnostic}
      (hkinds : ∀ t ∈ first :: tokens, t.kind = .blockEnd)
      (hcause : fault.cause = .blockStartExpected)
      (hstart : fault.span.start = first.span.start)
      (hstop : fault.span.stop = ((first :: tokens).getLast (List.cons_ne_nil _ _)).span.stop) :
      StrayRun (first :: tokens) [fault]

/-- The tokens from a block start on, the blocks of them and their faults. -/
inductive Told : List Token → List Block → List Diagnostic → Prop
  | nil : Told [] [] []
  /-- A complete construct has no fault; block ends after it may have one. -/
  | complete {start : Token} {body stray rest : List Token} {block : Block} {blocks : List Block}
      {strayFaults faults : List Diagnostic} (hstart : start.kind.isBlockStart)
      (hbody : ∀ t ∈ body, t.kind.isBlockStart = false)
      (hleaves : block.node.leaves = (start :: body).map Token.node)
      (hcomplete : block.isComplete = true) (hstray : StrayRun stray strayFaults)
      (hrest : Told rest blocks faults) :
      Told (start :: body ++ stray ++ rest) (block :: blocks) (strayFaults ++ faults)
  /-- A construct that breaks off has a block without its end, and one fault. -/
  | broken {start : Token} {body unread rest : List Token} {block : Block} {blocks : List Block}
      {fault : Diagnostic} {faults : List Diagnostic} (hstart : start.kind.isBlockStart)
      (hbody : ∀ t ∈ body ++ unread, t.kind.isBlockStart = false)
      (hleaves : block.node.leaves = (start :: body).map Token.node)
      (hcomplete : block.isComplete = false) (hcause : fault.cause.KeepsBlock)
      (hrest : Told rest blocks faults) :
      Told (start :: (body ++ unread) ++ rest) (block :: blocks) (fault :: faults)
  /-- A directive without a name has no block, and one fault. -/
  | nameless {start : Token} {unread rest : List Token} {blocks : List Block} {fault : Diagnostic}
      {faults : List Diagnostic} (hstart : start.kind = .directiveStart)
      (hbody : ∀ t ∈ unread, t.kind.isBlockStart = false)
      (hcause : fault.cause = .directiveNameExpected) (hrest : Told rest blocks faults) :
      Told (start :: unread ++ rest) blocks (fault :: faults)

/-! ## Block ends -/

/-- After a block end only a delimiter can come. -/
def Follows (before after : TokenKind) : Prop :=
  before = .blockEnd → after.isDelimiter = true

/-- The start of a text is like the place after a block end. -/
theorem isChain_lexFrom (mode : Mode) (cs : List Char) :
    ((lexFrom mode cs).lexemes.map (·.kind)).IsChain Follows ∧
      (mode = .text → ∀ kind ∈ ((lexFrom mode cs).lexemes.map (·.kind)).head?,
        kind.isDelimiter = true) := by
  fun_induction lexFrom mode cs with
  | case1 mode cs lexeme rest mode' hs reading ih =>
    obtain ⟨hchain, hhead⟩ := ih
    -- after a block end the reader is back in output text
    refine ⟨hchain.cons fun kind hkind (hend : lexeme.kind = .blockEnd) => ?_, ?_⟩
    · have hdelimiter : lexeme.kind.isDelimiter = true := by
        rw [hend]
        rfl
      have hmode : mode' = .text := by
        rw [(delimiter?_and_mode_of_step_token hs hdelimiter).2, hend]
        rfl
      exact hhead hmode kind hkind
    · rintro rfl kind hkind
      obtain rfl := Option.some.inj hkind
      exact isDelimiter_of_step_text hs
  | case2 mode cs mode' hs ih =>
    refine ⟨ih.1, fun htext => ?_⟩
    obtain ⟨⟨done, hdone⟩, -⟩ := eq_of_step_leave hs
    rw [htext] at hdone
    contradiction
  | case3 => exact ⟨.nil, by simp⟩

theorem isChain_kinds (cs : List Char) :
    (TokenKind.blockEnd :: (scanChars cs).tokens.map (·.kind)).IsChain Follows := by
  obtain ⟨hchain, hhead⟩ := isChain_lexFrom .text cs
  rw [scanChars, TokenStream.ofReading, TokenStream.kinds_ofLexemes]
  exact hchain.cons fun kind hkind _ => hhead rfl kind hkind

/-- Tokens after a block end and in front of the next block start are block ends. -/
theorem forall_blockEnd {tokens : List Token}
    (hchain : (TokenKind.blockEnd :: tokens.map (·.kind)).IsChain Follows)
    (h : ∀ t ∈ tokens, t.kind.isBlockStart = false) : ∀ t ∈ tokens, t.kind = .blockEnd := by
  induction tokens with
  | nil => simp
  | cons token tokens ih =>
    obtain ⟨htoken, htokens⟩ := List.forall_mem_cons.mp h
    obtain ⟨hfollows, hrest⟩ := List.isChain_cons_cons.mp hchain
    have hkind : token.kind = .blockEnd := by
      have hdelimiter := hfollows rfl
      rw [TokenKind.isDelimiter, htoken, Bool.false_or] at hdelimiter
      exact of_decide_eq_true hdelimiter
    have hnext : (TokenKind.blockEnd :: tokens.map (·.kind)).IsChain Follows := hkind ▸ hrest
    exact List.forall_mem_cons.mpr ⟨hkind, ih hnext htokens⟩

/-- Block ends in order are a run of stray tokens. -/
theorem strayRun_of_pairwise {stray : List Token} (hkinds : ∀ t ∈ stray, t.kind = .blockEnd)
    (h : stray.Pairwise fun s t => s.span.stop ≤ t.span.start) :
    StrayRun stray (strayFault stray).toList := by
  cases stray with
  | nil => exact .none
  | cons first tokens =>
    have hspans : ((first :: tokens).map (·.span)).Pairwise fun s t => s.stop ≤ t.start :=
      List.pairwise_map.mpr h
    obtain ⟨hstart, hstop⟩ := Span.foldl_cover_of_pairwise hspans
    refine .run hkinds rfl hstart (hstop.trans ?_)
    have hlast := List.getLast_map (f := fun t : Token => t.span) (l := first :: tokens)
      (List.cons_ne_nil _ _)
    exact congrArg Span.stop hlast

/-! ## Segments -/

theorem Block.leaves_ne_nil (block : Block) : block.node.leaves ≠ [] := by
  cases block with
  | directive d => simp [Block.node, Node.leaves_directive]
  | code b => simp [Block.node, Node.leaves_codeBlock]

section Segments
variable {segment : Segment} {used rest : List Token}

theorem Segment.body_of_append (h : segment.tokens = used ++ rest) (hne : used ≠ []) :
    ∃ body, used = segment.start :: body ∧ segment.body = body ++ rest := by
  obtain ⟨first, body, rfl⟩ := List.exists_cons_of_ne_nil hne
  obtain ⟨rfl, hbody⟩ := List.cons.inj h
  exact ⟨body, rfl, hbody⟩

/-- The tokens after a complete construct are block ends. -/
theorem Segment.strayRun (htokens : segment.tokens = used ++ rest)
    (hword : used.map (·.kind) ∈ Grammar.block.matches')
    (hbody : ∀ t ∈ rest, t.kind.isBlockStart = false)
    (hchain : (segment.tokens.map (·.kind)).IsChain Follows)
    (hpairs : segment.tokens.Pairwise fun s t => s.span.stop ≤ t.span.start) :
    StrayRun rest (strayFault rest).toList := by
  obtain ⟨init, hinit⟩ := Grammar.exists_append_of_mem_block hword
  rw [htokens, List.map_append, hinit, List.append_assoc] at hchain
  rw [htokens] at hpairs
  have hkinds := forall_blockEnd hchain.right_of_append hbody
  exact strayRun_of_pairwise hkinds (List.pairwise_append.mp hpairs).2.1

/-- What one segment comes to, in front of the others. -/
theorem Told.cons_segment {blocks : List Block} {faults : List Diagnostic}
    (hstart : segment.start.kind.isBlockStart)
    (hbody : ∀ t ∈ segment.body, t.kind.isBlockStart = false)
    (hchain : (segment.tokens.map (·.kind)).IsChain Follows)
    (hpairs : segment.tokens.Pairwise fun s t => s.span.stop ≤ t.span.start)
    (hrest : Told rest blocks faults) :
    Told (segment.tokens ++ rest) (segment.read.block.toList ++ blocks)
      (segment.read.faults ++ faults) := by
  have hreads := segment.reads hstart
  generalize segment.read = construct at hreads
  cases hreads with
  | @complete block used stray htokens hleaves hword hcomplete =>
    have hne : used ≠ [] := by
      rintro rfl
      exact block.leaves_ne_nil hleaves
    obtain ⟨body, rfl, hparts⟩ := Segment.body_of_append htokens hne
    rw [hparts] at hbody
    have hstray := Segment.strayRun htokens hword
      (fun t ht => hbody t (List.mem_append_right body ht)) hchain hpairs
    rw [htokens]
    exact .complete hstart (fun t ht => hbody t (List.mem_append_left stray ht)) hleaves hcomplete
      hstray hrest
  | @broken block fault used unread htokens hleaves hcause hcomplete =>
    have hne : used ≠ [] := by
      rintro rfl
      exact block.leaves_ne_nil hleaves
    obtain ⟨body, rfl, hparts⟩ := Segment.body_of_append htokens hne
    rw [hparts] at hbody
    rw [htokens]
    exact .broken hstart hbody hleaves hcomplete hcause hrest
  | nameless hdirective hcause => exact .nameless hdirective hbody hcause hrest

end Segments

/-- What the segments of a template come to. -/
theorem told_of_segments {segments : List Segment}
    (hstarts : ∀ s ∈ segments, s.start.kind.isBlockStart ∧
      ∀ t ∈ s.body, t.kind.isBlockStart = false)
    (hchain : ((segments.flatMap Segment.tokens).map (·.kind)).IsChain Follows)
    (hpairs : (segments.flatMap Segment.tokens).Pairwise fun s t => s.span.stop ≤ t.span.start) :
    Told (segments.flatMap Segment.tokens) (segments.filterMap (·.read.block))
      (segments.flatMap (·.read.faults)) := by
  induction segments with
  | nil => exact .nil
  | cons segment segments ih =>
    obtain ⟨⟨hstart, hbody⟩, hrest⟩ := List.forall_mem_cons.mp hstarts
    rw [List.flatMap_cons] at hchain hpairs
    rw [List.map_append] at hchain
    obtain ⟨hfirst, hpairs, -⟩ := List.pairwise_append.mp hpairs
    have htold := ih hrest hchain.right_of_append hpairs
    have hblocks : (segment :: segments).filterMap (·.read.block) =
        segment.read.block.toList ++ segments.filterMap (·.read.block) := by
      rw [List.filterMap_cons]
      cases segment.read.block <;> rfl
    rw [List.flatMap_cons, List.flatMap_cons, hblocks]
    exact htold.cons_segment hstart hbody hchain.left_of_append hfirst

/-! ## Counting -/

/-- A run of block ends opens no construct, and its fault is of none. -/
theorem StrayRun.countP {stray : List Token} {faults : List Diagnostic}
    (h : StrayRun stray faults) :
    stray.countP (·.kind.isBlockStart) = 0 ∧ faults.countP (·.cause ≠ .blockStartExpected) = 0 ∧
      faults.countP (·.cause = .directiveNameExpected) = 0 := by
  cases h with
  | none => exact ⟨rfl, rfl, rfl⟩
  | run hkinds hcause =>
    refine ⟨List.countP_eq_zero.mpr fun t ht => ?_, by simp [hcause], by simp [hcause]⟩
    rw [hkinds t ht]
    decide

theorem countP_construct {start : Token} {body : List Token} (hstart : start.kind.isBlockStart)
    (hbody : ∀ t ∈ body, t.kind.isBlockStart = false) :
    (start :: body).countP (·.kind.isBlockStart) = 1 := by
  have hzero : body.countP (·.kind.isBlockStart) = 0 :=
    List.countP_eq_zero.mpr fun t ht => by simp [hbody t ht]
  simp [hstart, hzero]

/-- For every block start there is a complete block or a fault that is not about stray tokens, and
there is a block or the fault of a missing name. -/
theorem Told.countP {tokens : List Token} {blocks : List Block} {faults : List Diagnostic}
    (h : Told tokens blocks faults) :
    faults.countP (·.cause ≠ .blockStartExpected) + blocks.countP (·.isComplete) =
        tokens.countP (·.kind.isBlockStart) ∧
      blocks.length + faults.countP (·.cause = .directiveNameExpected) =
        tokens.countP (·.kind.isBlockStart) := by
  induction h with
  | nil => exact ⟨rfl, rfl⟩
  | @complete _ _ _ _ _ blocks _ _ hstart hbody _ hcomplete hstray _ ih =>
    obtain ⟨htokens, hfaults, hnames⟩ := hstray.countP
    rw [List.countP_append, List.countP_append, List.countP_append, List.countP_append, htokens,
      hfaults, hnames, countP_construct hstart hbody, List.countP_cons, if_pos hcomplete,
      List.length_cons]
    omega
  | broken hstart hbody _ hcomplete hcause _ ih =>
    rw [List.countP_append, countP_construct hstart hbody, List.countP_cons, List.countP_cons,
      List.countP_cons, if_pos (decide_eq_true hcause.1), if_neg (by simp [hcomplete]),
      if_neg (by simp [hcause.2]), List.length_cons]
    omega
  | nameless hstart hbody hcause _ ih =>
    rw [List.countP_append, countP_construct (by rw [hstart]; rfl) hbody, List.countP_cons,
      List.countP_cons, if_pos (by simp [hcause]), if_pos (by simp [hcause])]
    omega

/-- The tokens of a text in front of its first block start, and those from there on. -/
theorem told_parse (text : String) :
    ∃ (leading rest : List Token) (strayFaults faults : List Diagnostic),
      (scan text).tokens = leading ++ rest ∧ (parse text).faults = strayFaults ++ faults ∧
        StrayRun leading strayFaults ∧ Told rest (parse text).template.blocks faults := by
  have hflat := Cut.flatten_ofTokens (scan text).endOfFile (scan text).tokens
  have hchain := isChain_kinds text.toList
  have hpairs := pairwise_scanChars text.toList
  rw [← scan, ← hflat] at hchain hpairs
  rw [List.map_append, ← List.cons_append] at hchain
  obtain ⟨hfirst, hrest, -⟩ := List.pairwise_append.mp hpairs
  -- the chain begins with a block end that is not there, so the leading tokens are block ends too
  have hkinds := forall_blockEnd hchain.left_of_append
    fun t ht => Cut.not_isBlockStart_of_mem_leading ht
  have htold := told_of_segments (fun s hs => Cut.isBlockStart_of_mem_segments hs)
    hchain.right_of_append hrest
  rw [← ParsedTemplate.blocks_ofStream] at htold
  exact ⟨_, _, _, _, hflat.symm, ParsedTemplate.faults_ofStream _,
    strayRun_of_pairwise hkinds hfirst, htold⟩

/-- The blocks and faults of a text are told by its tokens: block ends in front of the first block
start, and then one construct for each block start. So each block start has a complete block or a
fault that is not about stray tokens, and it has a block or the fault of a missing name. -/
theorem faults_told_once (text : String) :
    (∃ (leading rest : List Token) (strayFaults faults : List Diagnostic),
      (scan text).tokens = leading ++ rest ∧ (parse text).faults = strayFaults ++ faults ∧
        StrayRun leading strayFaults ∧ Told rest (parse text).template.blocks faults) ∧
      (parse text).faults.countP (·.cause ≠ .blockStartExpected) +
          (parse text).template.blocks.countP (·.isComplete) =
        (scan text).tokens.countP (·.kind.isBlockStart) ∧
      (parse text).template.blocks.length +
          (parse text).faults.countP (·.cause = .directiveNameExpected) =
        (scan text).tokens.countP (·.kind.isBlockStart) := by
  obtain ⟨leading, rest, strayFaults, faults, htokens, hfaults, hleading, htold⟩ := told_parse text
  obtain ⟨hstarts, hstray, hnames⟩ := hleading.countP
  obtain ⟨hcomplete, hblocks⟩ := htold.countP
  refine ⟨⟨leading, rest, strayFaults, faults, htokens, hfaults, hleading, htold⟩, ?_, ?_⟩
  · rw [htokens, hfaults, List.countP_append, List.countP_append, hstray, hstarts]
    omega
  · rw [htokens, hfaults, List.countP_append, List.countP_append, hnames, hstarts]
    omega

end TextTemplate
