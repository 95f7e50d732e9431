import TextTemplate.Proofs.Segments
import TextTemplate.Proofs.TokenPlaces

/-!
# Which templates are accepted

A text is read without a fault if and only if its tokens follow the grammar of templates, and then
the leaves of its tree are all of its tokens. In a tree with faults some tokens have no leaf, but
the leaves there are still tokens of the text, each of them at most once and in their order
(`succeeded_iff_mem_template`).

Both directions come down to one segment. A segment has no fault exactly if its tokens are a word
for a block (`Segment.faults_read_eq_nil_iff`). Since a word for a block has its only block start in
front, a sequence of such words is cut into just these words (`Cut.segments_of_words`).
-/
namespace TextTemplate

/-! ## Segments that follow the grammar -/

theorem strayFault_eq_none_iff {stray : List Token} : strayFault stray = none ↔ stray = [] := by
  cases stray <;> simp [strayFault]

theorem Construct.faults_eq_nil_iff {construct : Construct} :
    construct.faults = [] ↔ construct.fault = none ∧ construct.stray = [] := by
  simp [Construct.faults, strayFault_eq_none_iff]

namespace Segment
variable {segment : Segment}

theorem faults_readDirective (h : segment.tokens.map (·.kind) ∈ Grammar.directive.matches') :
    segment.read.faults = [] := by
  obtain ⟨count, hkinds⟩ := Grammar.mem_directive.mp h
  obtain ⟨hstart, hbody⟩ := List.cons.inj hkinds
  obtain ⟨name, tokens, hbody, hname, htokens⟩ := List.map_eq_cons_iff.mp hbody
  obtain ⟨attrs, stop, hattrs⟩ : ∃ attrs stop,
      readAttributes segment.next tokens = (attrs, .ok (stop, [])) := readAttributes_of_word htokens
  rw [read, if_pos hstart, readDirective, hbody, expect_cons _ hname]
  simp only [hattrs]
  rfl

theorem faults_readCodeBlock (h : segment.tokens.map (·.kind) ∈ Grammar.codeBlock.matches') :
    segment.read.faults = [] := by
  obtain ⟨start, -, hne, hkinds⟩ := Grammar.mem_codeBlock.mp h
  have hstart : segment.start.kind = start := by
    rcases hkinds with hkinds | hkinds <;> exact (List.cons.inj hkinds).1
  rw [read, hstart, if_neg hne, readCodeBlock]
  rcases hkinds with hkinds | hkinds
  · obtain ⟨stop, rest, hbody, hstop, hrest⟩ := List.map_eq_cons_iff.mp (List.cons.inj hkinds).2
    obtain rfl := List.map_eq_nil_iff.mp hrest
    simp only [hbody, hstop]
    rfl
  · obtain ⟨code, rest, hbody, hcode, hrest⟩ := List.map_eq_cons_iff.mp (List.cons.inj hkinds).2
    obtain ⟨stop, rest, rfl, hstop, hrest⟩ := List.map_eq_cons_iff.mp hrest
    obtain rfl := List.map_eq_nil_iff.mp hrest
    simp only [hbody, hcode, expect_cons _ hstop]
    rfl

/-- A segment has no fault exactly if its tokens are a word for a block. -/
theorem faults_read_eq_nil_iff (hstart : segment.start.kind.isBlockStart) :
    segment.read.faults = [] ↔ segment.tokens.map (·.kind) ∈ Grammar.block.matches' := by
  constructor
  · intro h
    -- of the three ways to read a segment only the first has no fault
    have hreads := segment.reads hstart
    generalize segment.read = construct at h hreads
    obtain ⟨hfault, hstray⟩ := Construct.faults_eq_nil_iff.mp h
    cases hreads with
    | complete htokens _ hword =>
      subst hstray
      rwa [htokens, List.append_nil]
    | broken | nameless => contradiction
  · intro h
    rcases Grammar.mem_block.mp h with h | h
    · exact faults_readDirective h
    · exact faults_readCodeBlock h

end Segment

/-! ## Cutting words for blocks apart -/

namespace Cut
variable {endOfFile : Token}

theorem ofTokens_body {body : List Token} (h : ∀ t ∈ body, t.kind.isBlockStart = false)
    (tokens : List Token) :
    ofTokens endOfFile (body ++ tokens) =
      ⟨body ++ (ofTokens endOfFile tokens).leading, (ofTokens endOfFile tokens).segments⟩ := by
  induction body with
  | nil => rfl
  | cons token body ih =>
    obtain ⟨htoken, hbody⟩ := List.forall_mem_cons.mp h
    rw [List.cons_append, ofTokens_other htoken, ih hbody]
    rfl

/-- Tokens that look like words for blocks one after the other are cut into these words, and nothing
stands in front of them. -/
theorem segments_of_words {α : Type} (view : Token → α) (endOfFile : Token) {words : List (List α)}
    (hwords : ∀ w ∈ words, ∀ tokens : List Token, tokens.map view = w →
      tokens.map (·.kind) ∈ Grammar.block.matches')
    {tokens : List Token} (h : tokens.map view = words.flatten) :
    (ofTokens endOfFile tokens).leading = [] ∧
      (ofTokens endOfFile tokens).segments.map (·.tokens.map view) = words := by
  induction words generalizing tokens with
  | nil =>
    obtain rfl := List.map_eq_nil_iff.mp h
    exact ⟨rfl, rfl⟩
  | cons word words ih =>
    obtain ⟨hword, hrest⟩ := List.forall_mem_cons.mp hwords
    obtain ⟨first, tokens, rfl, rfl, htokens⟩ := List.map_eq_append_iff.mp h
    obtain ⟨start, body, hkinds, hstart, hbody⟩ :=
      Grammar.exists_cons_of_mem_block (hword first rfl)
    obtain ⟨token, inner, rfl, rfl, rfl⟩ := List.map_eq_cons_iff.mp hkinds
    have hinner : ∀ t ∈ inner, t.kind.isBlockStart = false :=
      fun t ht => hbody t.kind (List.mem_map_of_mem ht)
    obtain ⟨hleading, hsegments⟩ := ih hrest htokens
    rw [List.cons_append, ofTokens_blockStart hstart, ofTokens_body hinner, hleading,
      List.append_nil]
    exact ⟨rfl, congrArg _ hsegments⟩

end Cut

/-! ## Templates -/

/-- The leaves of the block of a construct, if it has one. -/
def Construct.leaves (construct : Construct) : List Node :=
  construct.block.toList.flatMap fun block => block.node.leaves

/-- The leaves of a construct are tokens of its segment in order, and all of them if there is no
fault. -/
theorem Segment.Reads.leaves {segment : Segment} {construct : Construct}
    (h : segment.Reads construct) :
    ∃ used : List Token, used.Sublist segment.tokens ∧ construct.leaves = used.map Token.node ∧
      (construct.faults = [] → used = segment.tokens) := by
  cases h with
  | @complete block used stray htokens hleaves =>
    refine ⟨used, ?_, by simp [Construct.leaves, hleaves], fun hfaults => ?_⟩
    · rw [htokens]
      exact List.sublist_append_left used stray
    · have hstray : stray = [] := (Construct.faults_eq_nil_iff.mp hfaults).2
      rw [htokens, hstray, List.append_nil]
  | @broken block fault used unread htokens hleaves =>
    refine ⟨used, ?_, by simp [Construct.leaves, hleaves], fun hfaults => ?_⟩
    · rw [htokens]
      exact List.sublist_append_left used unread
    · simp [Construct.faults] at hfaults
  | nameless =>
    exact ⟨[], List.nil_sublist _, rfl, fun hfaults => by simp [Construct.faults] at hfaults⟩

namespace ParsedTemplate

/-- A stream has no fault exactly if its tokens are words for blocks. -/
theorem faults_ofStream_eq_nil_iff (stream : TokenStream) :
    (ofStream stream).faults = [] ↔
      ∃ words : List (List TokenKind), (∀ w ∈ words, w ∈ Grammar.block.matches') ∧
        stream.tokens.map (·.kind) = words.flatten := by
  rw [faults_ofStream, List.append_eq_nil_iff, Option.toList_eq_nil_iff, strayFault_eq_none_iff,
    List.flatMap_eq_nil_iff]
  constructor
  · rintro ⟨hleading, hfaults⟩
    refine ⟨(Cut.ofTokens stream.endOfFile stream.tokens).segments.map (·.tokens.map (·.kind)),
      ?_, ?_⟩
    · intro word hword
      obtain ⟨segment, hsegment, rfl⟩ := List.mem_map.mp hword
      have hstart := (Cut.isBlockStart_of_mem_segments hsegment).1
      exact (Segment.faults_read_eq_nil_iff hstart).mp (hfaults segment hsegment)
    · have hflat := Cut.flatten_ofTokens stream.endOfFile stream.tokens
      rw [hleading, List.nil_append] at hflat
      rw [← List.flatMap_def, ← List.map_flatMap, hflat]
  · rintro ⟨words, hwords, hkinds⟩
    obtain ⟨hleading, hsegments⟩ := Cut.segments_of_words (·.kind) stream.endOfFile
      (fun w hw tokens ht => ht ▸ hwords w hw) hkinds
    refine ⟨hleading, fun segment hsegment => ?_⟩
    apply (Segment.faults_read_eq_nil_iff (Cut.isBlockStart_of_mem_segments hsegment).1).mpr
    apply hwords
    rw [← hsegments]
    exact List.mem_map_of_mem hsegment

/-- The leaves of the segments' constructs are tokens in order, and all of them if there is no
fault. -/
theorem leaves_of_segments {segments : List Segment}
    (h : ∀ segment ∈ segments, segment.start.kind.isBlockStart) :
    ∃ used : List Token, used.Sublist (segments.flatMap Segment.tokens) ∧
      segments.flatMap (·.read.leaves) = used.map Token.node ∧
      ((∀ segment ∈ segments, segment.read.faults = []) →
        used = segments.flatMap Segment.tokens) := by
  induction segments with
  | nil => exact ⟨[], List.nil_sublist _, rfl, fun _ => rfl⟩
  | cons segment segments ih =>
    obtain ⟨hstart, hstarts⟩ := List.forall_mem_cons.mp h
    obtain ⟨first, hfirst, hleaves, hall⟩ := (segment.reads hstart).leaves
    obtain ⟨used, hused, hrest, halls⟩ := ih hstarts
    refine ⟨first ++ used, ?_, ?_, fun hfaults => ?_⟩
    · rw [List.flatMap_cons]
      exact hfirst.append hused
    · rw [List.flatMap_cons, hleaves, hrest, List.map_append]
    · obtain ⟨hfault, hfaults⟩ := List.forall_mem_cons.mp hfaults
      rw [List.flatMap_cons, hall hfault, halls hfaults]

theorem leaves_ofStream (stream : TokenStream) :
    ∃ used : List Token, used.Sublist stream.tokens ∧
      (Node.template (ofStream stream).template).leaves = used.map Token.node ∧
      ((ofStream stream).faults = [] → used = stream.tokens) := by
  have hflat := Cut.flatten_ofTokens stream.endOfFile stream.tokens
  have hstarts : ∀ segment ∈ (Cut.ofTokens stream.endOfFile stream.tokens).segments,
      segment.start.kind.isBlockStart :=
    fun segment hsegment => (Cut.isBlockStart_of_mem_segments hsegment).1
  obtain ⟨used, hused, hleaves, hall⟩ := leaves_of_segments hstarts
  refine ⟨used, ?_, ?_, fun hfaults => ?_⟩
  · rw [← hflat]
    exact hused.trans (List.sublist_append_right _ _)
  · rw [Node.leaves_template, blocks_ofStream, ← hleaves, List.filterMap_eq_flatMap_toList,
      List.flatMap_assoc]
    rfl
  · rw [faults_ofStream, List.append_eq_nil_iff, Option.toList_eq_nil_iff, strayFault_eq_none_iff,
      List.flatMap_eq_nil_iff] at hfaults
    rw [hall hfaults.2, ← List.nil_append (List.flatMap _ _), ← hfaults.1, hflat]

end ParsedTemplate

/-- A text is accepted if and only if the kinds of its tokens are a word of the grammar. The leaves
of its tree are tokens in order, and if it is accepted, all of them but the last, which the template
holds itself. -/
theorem succeeded_iff_mem_template (text : String) :
    ((parse text).succeeded = true ↔
        (scan text).toList.map (·.kind) ∈ Grammar.template.matches') ∧
      ((parse text).succeeded = true →
        (Node.template (parse text).template).leaves ++
          [.token (parse text).template.endOfFile] = (scan text).toList.map Token.node) ∧
      ∃ used : List Token, used.Sublist (scan text).tokens ∧
        (Node.template (parse text).template).leaves = used.map Token.node := by
  have hend := kind_endOfFile_scan text
  have hsucceeded : (parse text).succeeded = true ↔ (parse text).faults = [] :=
    List.isEmpty_iff
  obtain ⟨used, hused, hleaves, hall⟩ := ParsedTemplate.leaves_ofStream (scan text)
  refine ⟨?_, fun h => ?_, used, hused, hleaves⟩
  · rw [hsucceeded, parse, ParsedTemplate.faults_ofStream_eq_nil_iff, Grammar.mem_template,
      TokenStream.toList, List.map_append, List.map_singleton, hend]
    simp only [List.append_left_inj]
  · have hnode : (scan text).endOfFile.node = .token (parse text).template.endOfFile :=
      Token.node_eq_token (by rw [hend]; rfl) (by rw [hend]; decide)
    rw [TokenStream.toList, List.map_append, List.map_singleton, hnode, ← hall (hsucceeded.mp h)]
    exact congrArg (· ++ _) hleaves

end TextTemplate
