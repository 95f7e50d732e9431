import Mathlib.Data.List.Basic
import TextTemplate.Proofs.Segments

/-!
# Reading tokens that are recast

A `Recasting` gives every token another place or another text, but never another kind. Reading looks
at kinds only and hands on everything else as it is, so it does not matter whether tokens are recast
before they are read or the result is recast afterwards (`Recasting.read_recast`). The same holds of
all segments of a template at once (`Recasting.ofTokens_recast`).

Two recastings are of interest: one moves tokens to another place, the other one writes their texts
in lower case.
-/
namespace TextTemplate

/-- Other marks and other texts for tokens, and the faults that tokens have then. -/
structure Recasting where
  mark : Mark → Mark
  text : String → String
  fault : Diagnostic → Diagnostic
  kind_mark : ∀ m, (mark m).kind = m.kind
  fault_eq : ∀ (t : Token) (cause : Cause),
    fault (t.fault cause) = ⟨cause, (mark t.toMark).span, (mark t.toMark).position⟩

namespace Recasting
variable (r : Recasting)

def token (t : Token) : Token :=
  ⟨r.mark t.toMark, r.text t.text⟩

def attr (a : Attribute) : Attribute :=
  ⟨r.token a.name, a.equals.map r.mark, a.openQuote.map r.mark, a.value.map r.token,
    a.closeQuote.map r.mark⟩

def codeBlock (b : CodeBlock) : CodeBlock :=
  ⟨r.mark b.start, b.code.map r.mark, b.stop.map r.mark⟩

def directive (d : Directive) : Directive :=
  ⟨r.mark d.start, r.token d.name, d.attributes.map r.attr, d.stop.map r.mark⟩

def block : Block → Block
  | .directive d => .directive (r.directive d)
  | .code b => .code (r.codeBlock b)

/-- The segment recast, in front of another token. -/
def segment (s : Segment) (next : Token) : Segment :=
  ⟨r.token s.start, s.body.map r.token, next⟩

def construct (c : Construct) : Construct :=
  ⟨c.block.map r.block, c.fault.map r.fault, c.stray.map r.token⟩

/-- The outcome of reading some tokens, recast. -/
def outcome {α : Type} (f : α → α) : Except Diagnostic α → Except Diagnostic α
  | .error d => .error (r.fault d)
  | .ok a => .ok (f a)

/-- A fault at `next` becomes the one that it would be at `next'`. The tokens need not be of one
kind: what follows a segment is seen in faults only. -/
def Sends (next next' : Token) : Prop :=
  ∀ cause, next'.fault cause = r.fault (next.fault cause)

@[simp]
theorem kind_token (t : Token) : (r.token t).kind = t.kind :=
  r.kind_mark t.toMark

theorem fault_token (t : Token) (cause : Cause) :
    (r.token t).fault cause = r.fault (t.fault cause) :=
  (r.fault_eq t cause).symm

theorem sends_token (t : Token) : r.Sends t (r.token t) :=
  r.fault_token t

/-! ## Attributes -/

section Reading
variable {r} {next next' : Token} (hnext : r.Sends next next')
include hnext

theorem expect_recast (kind : TokenKind) (cause : Cause) (tokens : List Token) :
    expect kind cause next' (tokens.map r.token) =
      r.outcome (fun (t, rest) => (r.token t, rest.map r.token))
        (expect kind cause next tokens) := by
  cases tokens with
  | nil => exact congrArg Except.error (hnext cause)
  | cons token tokens =>
    by_cases h : token.kind = kind
    · rw [List.map_cons, expect, expect, if_pos h, kind_token, if_pos h]
      rfl
    · rw [List.map_cons, expect, expect, if_neg h, kind_token, if_neg h, fault_token]
      rfl

theorem readAttribute_recast (name : Token) (tokens : List Token) :
    readAttribute next' (r.token name) (tokens.map r.token) =
      (r.attr (readAttribute next name tokens).1,
        r.outcome (List.map r.token) (readAttribute next name tokens).2) := by
  fun_cases readAttribute next name tokens with
  | case1 _ h₁ =>
    simp only [readAttribute, expect_recast hnext, h₁, outcome]
    rfl
  | case2 _ _ h₁ _ h₂ =>
    simp only [readAttribute, expect_recast hnext, h₁, h₂, outcome]
    rfl
  | case3 _ _ h₁ _ _ h₂ _ h₃ =>
    simp only [readAttribute, expect_recast hnext, h₁, h₂, h₃, outcome]
    rfl
  | case4 _ _ h₁ _ _ h₂ _ _ h₃ _ h₄ =>
    simp only [readAttribute, expect_recast hnext, h₁, h₂, h₃, h₄, outcome]
    rfl
  | case5 _ _ h₁ _ _ h₂ _ _ h₃ _ _ h₄ =>
    simp only [readAttribute, expect_recast hnext, h₁, h₂, h₃, h₄, outcome]
    rfl

theorem readAttributes_recast (tokens : List Token) :
    readAttributes next' (tokens.map r.token) =
      ((readAttributes next tokens).1.map r.attr,
        r.outcome (fun (t, rest) => (r.token t, rest.map r.token))
          (readAttributes next tokens).2) := by
  fun_induction readAttributes next tokens with
  | case1 =>
    rw [List.map_nil, readAttributes, hnext]
    rfl
  | case2 token tokens hkind attr fault hattr =>
    have hr := readAttribute_recast hnext token tokens
    rw [hattr] at hr
    rw [List.map_cons, readAttributes_broken ((r.kind_token token).trans hkind) hr]
    rfl
  | case3 token tokens hkind attr rest hattr attrs ending hattrs ih =>
    have hr := readAttribute_recast hnext token tokens
    rw [hattr] at hr
    rw [List.map_cons, readAttributes_attribute ((r.kind_token token).trans hkind) hr, ih, hattrs]
    rfl
  | case4 token tokens hkind =>
    rw [List.map_cons, readAttributes_blockEnd ((r.kind_token token).trans hkind)]
    rfl
  | case5 token tokens hname hstop =>
    rw [← r.kind_token] at hname hstop
    rw [List.map_cons, readAttributes_other hname hstop, fault_token]
    rfl

end Reading

/-! ## Segments -/

section Segments
variable {r} {next next' : Token}

theorem readCodeBlock_recast (s : Segment) (hnext : r.Sends s.next next') :
    readCodeBlock (r.segment s next') = r.construct (readCodeBlock s) := by
  fun_cases readCodeBlock s with
  | case1 start hbody =>
    -- the fault is at the token after the segment, which `r` sends to `next'`
    simp only [readCodeBlock, segment, hbody, List.map_nil]
    rw [hnext]
    rfl
  | case2 start token tokens hbody hkind =>
    simp only [readCodeBlock, segment, hbody, List.map_cons, kind_token, hkind]
    rfl
  | case3 start token tokens hbody hkind fault h =>
    simp only [readCodeBlock, segment, hbody, List.map_cons, kind_token, hkind,
      expect_recast hnext, h, outcome]
    rfl
  | case4 start token tokens hbody hkind stop stray h =>
    simp only [readCodeBlock, segment, hbody, List.map_cons, kind_token, hkind,
      expect_recast hnext, h, outcome]
    rfl
  | case5 start token tokens hbody h₁ h₂ =>
    simp only [readCodeBlock, segment, hbody, List.map_cons, kind_token, fault_token]
    rfl

theorem readDirective_recast (s : Segment) (hnext : r.Sends s.next next') :
    readDirective (r.segment s next') = r.construct (readDirective s) := by
  fun_cases readDirective s with
  | case1 fault h =>
    simp only [readDirective, segment, expect_recast hnext, h, outcome]
    rfl
  | case2 name tokens h attrs fault hattrs =>
    simp only [readDirective, segment, expect_recast hnext, h, outcome,
      readAttributes_recast hnext, hattrs]
    rfl
  | case3 name tokens h attrs stop stray hattrs =>
    simp only [readDirective, segment, expect_recast hnext, h, outcome,
      readAttributes_recast hnext, hattrs]
    rfl

/-- A segment that is recast holds the same construct, recast. -/
theorem read_recast (s : Segment) (hnext : r.Sends s.next next') :
    (r.segment s next').read = r.construct s.read := by
  have hkind : (r.segment s next').start.kind = s.start.kind := r.kind_token s.start
  by_cases h : s.start.kind = .directiveStart
  · rw [Segment.read, Segment.read, if_pos h, if_pos (hkind.trans h), readDirective_recast s hnext]
  · rw [Segment.read, Segment.read, if_neg h, hkind, if_neg h, readCodeBlock_recast s hnext]

/-- The segments of tokens that are recast: each starts with the token recast, and holds the same
construct, recast. -/
theorem ofTokens_recast (hnext : r.Sends next next') (tokens : List Token) :
    (Cut.ofTokens next' (tokens.map r.token)).leading =
        (Cut.ofTokens next tokens).leading.map r.token ∧
      (Cut.ofTokens next' (tokens.map r.token)).segments.map (·.start) =
        (Cut.ofTokens next tokens).segments.map (r.token ·.start) ∧
      (Cut.ofTokens next' (tokens.map r.token)).segments.map Segment.read =
        (Cut.ofTokens next tokens).segments.map (r.construct ·.read) := by
  induction tokens with
  | nil => exact ⟨rfl, rfl, rfl⟩
  | cons token tokens ih =>
    obtain ⟨hleading, hstarts, hreads⟩ := ih
    rw [List.map_cons]
    cases h : token.kind.isBlockStart with
    | true =>
      have hsends : r.Sends
          (((Cut.ofTokens next tokens).segments.head?.map (·.start)).getD next)
          (((Cut.ofTokens next' (tokens.map r.token)).segments.head?.map (·.start)).getD
            next') := by
        -- what follows is the next block start, recast, or else `next'`
        have hhead := congrArg List.head? hstarts
        rw [List.head?_map, List.head?_map] at hhead
        rw [hhead]
        cases (Cut.ofTokens next tokens).segments.head? with
        | none => exact hnext
        | some s => exact r.sends_token s.start
      have hread := read_recast ⟨token, (Cut.ofTokens next tokens).leading, _⟩ hsends
      have h' : (r.token token).kind.isBlockStart := by rw [kind_token, h]
      rw [segment, ← hleading] at hread
      rw [Cut.ofTokens_blockStart h, Cut.ofTokens_blockStart h']
      refine ⟨rfl, ?_, ?_⟩
      · rw [List.map_cons, hstarts]
        rfl
      · rw [List.map_cons, hread, hreads]
        rfl
    | false =>
      have h' : (r.token token).kind.isBlockStart = false := by rw [kind_token, h]
      rw [Cut.ofTokens_other h, Cut.ofTokens_other h']
      exact ⟨congrArg (r.token token :: ·) hleading, hstarts, hreads⟩

end Segments

end Recasting

namespace ParsedTemplate

/-- The tree and the faults of tokens that are recast, provided that faults of stray tokens are
recast like the others. -/
theorem ofStream_recast {r : Recasting} {next next' : Token} (hnext : r.Sends next next')
    {tokens : List Token}
    (hstray : ∀ stray : List Token, (∀ t ∈ stray, t ∈ tokens) →
      strayFault (stray.map r.token) = (strayFault stray).map r.fault) :
    (ofStream ⟨tokens.map r.token, next'⟩).template.blocks =
        (ofStream ⟨tokens, next⟩).template.blocks.map r.block ∧
      (ofStream ⟨tokens.map r.token, next'⟩).faults =
        (ofStream ⟨tokens, next⟩).faults.map r.fault := by
  obtain ⟨hleading, -, hreads⟩ := Recasting.ofTokens_recast hnext tokens
  constructor
  · have hblocks := congrArg (List.filterMap (·.block)) hreads
    rw [List.filterMap_map, List.filterMap_map] at hblocks
    rw [blocks_ofStream, blocks_ofStream, List.map_filterMap]
    exact hblocks
  · have hfaults := congrArg (List.flatMap Construct.faults) hreads
    rw [List.flatMap_map, List.flatMap_map] at hfaults
    rw [faults_ofStream, faults_ofStream, List.map_append, List.map_flatMap, hleading, hfaults,
      hstray _ fun t ht => Cut.mem_of_mem_leading ht, Option.toList_map]
    congr 1
    apply List.flatMap_congr
    intro segment hsegment
    have hreads := Segment.reads (Cut.isBlockStart_of_mem_segments hsegment).1
    have hmem : ∀ t ∈ segment.read.stray, t ∈ tokens := fun t ht =>
      Cut.mem_of_mem_segments hsegment (hreads.mem_of_mem_stray ht)
    simp only [Construct.faults, Recasting.construct, hstray _ hmem, List.map_append,
      Option.toList_map]

end ParsedTemplate

end TextTemplate
