import TextTemplate.Proofs.JoinedSpans
import TextTemplate.Proofs.QuotedValues
import TextTemplate.Proofs.Segments

/-!
# The places of faults

A construct breaks off at the first token that does not fit, which is one of its own or the one that
follows its segment. So every fault has the place of a token, apart from those that are told of
stray tokens and have the place of a run of them. No two faults have a token in common, and they
come in the order of their tokens (`FaultsAt`).

The token that does not fit is never a value: where a value can come, after an opening quote, it
fits. Hence faults have a width, apart from those at the end of the file.
-/
namespace TextTemplate

/-! ## Faults at tokens -/

/-- The faults are told of some of the tokens, in order: each of a single token or, if it is one for
stray tokens, of a run of them. -/
inductive FaultsAt : List Token → List Diagnostic → Prop
  | nil : FaultsAt [] []
  | skip {t : Token} {tokens : List Token} {faults : List Diagnostic}
      (hrest : FaultsAt tokens faults) : FaultsAt (t :: tokens) faults
  | fault {first : Token} {run tokens : List Token} {fault : Diagnostic}
      {faults : List Diagnostic} (hkind : first.kind ≠ .attributeValue)
      (hspan : fault.span = (run.map (·.span)).foldl Span.cover first.span)
      (hposition : fault.position = first.position)
      (hcause : fault.cause ≠ .blockStartExpected → run = []) (hrest : FaultsAt tokens faults) :
      FaultsAt (first :: run ++ tokens) (fault :: faults)

/-- The fault is told of one of the tokens, or of `next` after them, and not of a value. -/
def MisfitIn (next : Token) (tokens : List Token) (fault : Diagnostic) : Prop :=
  ∃ used t unread cause, tokens ++ [next] = used ++ t :: unread ∧ t.kind ≠ .attributeValue ∧
    fault = t.fault cause

section Lists
variable {next : Token} {tokens rest : List Token} {fault : Diagnostic} {faults : List Diagnostic}

theorem FaultsAt.append (h : FaultsAt tokens faults) (used : List Token) :
    FaultsAt (used ++ tokens) faults := by
  induction used with
  | nil => exact h
  | cons t used ih => exact .skip ih

theorem MisfitIn.append (h : MisfitIn next tokens fault) (first : List Token) :
    MisfitIn next (first ++ tokens) fault := by
  obtain ⟨used, t, unread, cause, htokens, hkind, hfault⟩ := h
  exact ⟨first ++ used, t, unread, cause, by rw [List.append_assoc, htokens, List.append_assoc],
    hkind, hfault⟩

theorem MisfitIn.faultsAt (h : MisfitIn next tokens fault) (hrest : FaultsAt rest faults) :
    FaultsAt (tokens ++ next :: rest) (fault :: faults) := by
  obtain ⟨used, t, unread, cause, htokens, hkind, rfl⟩ := h
  have hsplit : tokens ++ next :: rest = used ++ (t :: [] ++ (unread ++ rest)) := by
    rw [List.append_cons, htokens]
    simp
  rw [hsplit]
  exact (FaultsAt.fault hkind rfl rfl (fun _ => rfl) (hrest.append unread)).append used

theorem MisfitIn.of_expect {token : Token} {kind : TokenKind} {cause : Cause}
    (hexpect : expect kind cause next tokens = .ok (token, rest)) (h : MisfitIn next rest fault) :
    MisfitIn next tokens fault := by
  obtain ⟨rfl, -⟩ := eq_cons_of_expect hexpect
  exact h.append [token]

/-- Stray tokens are told of as a run. -/
theorem FaultsAt.stray {stray : List Token}
    (hkind : ∀ first ∈ stray.head?, first.kind ≠ .attributeValue) (hrest : FaultsAt rest faults) :
    FaultsAt (stray ++ rest) ((strayFault stray).toList ++ faults) := by
  cases stray with
  | nil => exact hrest
  | cons first run => exact .fault (hkind first rfl) rfl rfl (fun hne => absurd rfl hne) hrest

end Lists

/-! ## What does not fit is not a value -/

theorem QuotesFit.of_cons {quoting : Quoting} {token : Token} {tokens : List Token}
    {kind : TokenKind} (h : QuotesFit quoting ((token :: tokens).map (·.kind)))
    (hkind : token.kind = kind) : QuotesFit (quoting.after kind) (tokens.map (·.kind)) :=
  hkind ▸ h.2

theorem QuotesFit.of_expect {quoting : Quoting} {next token : Token} {tokens rest : List Token}
    {kind : TokenKind} {cause : Cause} (h : QuotesFit quoting (tokens.map (·.kind)))
    (hexpect : expect kind cause next tokens = .ok (token, rest)) :
    QuotesFit (quoting.after kind) (rest.map (·.kind)) := by
  obtain ⟨rfl, hkind⟩ := eq_cons_of_expect hexpect
  exact h.of_cons hkind

section Reading
variable {next name : Token} {tokens : List Token} {fault : Diagnostic} {attr : Attribute}
  (hnext : next.kind ≠ .attributeValue)
include hnext

theorem misfitIn_of_expect {quoting : Quoting} {kind : TokenKind} {cause : Cause}
    (hfit : QuotesFit quoting (tokens.map (·.kind)))
    (hkind : quoting = .opened → kind = .attributeValue)
    (h : expect kind cause next tokens = .error fault) : MisfitIn next tokens fault := by
  fun_cases expect kind cause next tokens with
  | case1 =>
    obtain rfl := Except.error.inj h
    exact ⟨[], next, [], cause, rfl, hnext, rfl⟩
  | case2 => simp_all [expect]
  | case3 token rest hne =>
    rw [expect, if_neg hne] at h
    obtain rfl := Except.error.inj h
    refine ⟨[], token, rest ++ [next], cause, rfl, fun hvalue => ?_, rfl⟩
    exact hne (hvalue.trans (hkind (hfit.1 hvalue)).symm)

theorem misfitIn_of_readAttribute (hfit : QuotesFit .outside (tokens.map (·.kind)))
    (h : readAttribute next name tokens = (attr, .error fault)) : MisfitIn next tokens fault := by
  fun_cases readAttribute next name tokens with
  | case1 _ h₁ =>
    simp only [readAttribute, h₁, Prod.mk.injEq, Except.error.injEq] at h
    obtain ⟨-, rfl⟩ := h
    exact misfitIn_of_expect hnext hfit (by decide) h₁
  | case2 equals rest h₁ _ h₂ =>
    simp only [readAttribute, h₁, h₂, Prod.mk.injEq, Except.error.injEq] at h
    obtain ⟨-, rfl⟩ := h
    exact .of_expect h₁ (misfitIn_of_expect hnext (hfit.of_expect h₁) (by decide) h₂)
  | case3 equals _ h₁ openQuote rest h₂ _ h₃ =>
    simp only [readAttribute, h₁, h₂, h₃, Prod.mk.injEq, Except.error.injEq] at h
    obtain ⟨-, rfl⟩ := h
    have hopened := (hfit.of_expect h₁).of_expect h₂
    exact .of_expect h₁ (.of_expect h₂ (misfitIn_of_expect hnext hopened (by decide) h₃))
  | case4 equals _ h₁ openQuote _ h₂ value rest h₃ _ h₄ =>
    simp only [readAttribute, h₁, h₂, h₃, h₄, Prod.mk.injEq, Except.error.injEq] at h
    obtain ⟨-, rfl⟩ := h
    have hvalued := ((hfit.of_expect h₁).of_expect h₂).of_expect h₃
    have hmisfit := misfitIn_of_expect hnext hvalued (by decide) h₄
    exact .of_expect h₁ (.of_expect h₂ (.of_expect h₃ hmisfit))
  | case5 _ _ h₁ _ _ h₂ _ _ h₃ _ _ h₄ => simp_all [readAttribute]

omit hnext in
/-- After a complete attribute nothing is left open. -/
theorem quotesFit_of_readAttribute {rest : List Token} (hname : name.kind = .attributeName)
    (hfit : QuotesFit .outside ((name :: tokens).map (·.kind)))
    (h : readAttribute next name tokens = (attr, .ok rest)) :
    QuotesFit .outside (rest.map (·.kind)) := by
  obtain ⟨used, htokens, hword, -⟩ := readAttribute_ok hname h
  rw [htokens, List.map_append, hword] at hfit
  exact hfit.right_of_append

theorem misfitIn_of_readAttributes {attrs : List Attribute}
    (hfit : QuotesFit .outside (tokens.map (·.kind)))
    (h : readAttributes next tokens = (attrs, .error fault)) : MisfitIn next tokens fault := by
  fun_induction readAttributes next tokens generalizing attrs with
  | case1 =>
    simp only [Prod.mk.injEq, Except.error.injEq] at h
    obtain ⟨-, rfl⟩ := h
    exact ⟨[], next, [], _, rfl, hnext, rfl⟩
  | case2 token tokens hkind attr fault hattr =>
    simp only [Prod.mk.injEq, Except.error.injEq] at h
    obtain ⟨-, rfl⟩ := h
    exact (misfitIn_of_readAttribute hnext (hfit.of_cons hkind) hattr).append [token]
  | case3 token tokens hkind attr rest hattr attrs' ending hattrs ih =>
    obtain ⟨-, rfl⟩ := Prod.mk.inj h
    obtain ⟨used, htokens, -, -⟩ := readAttribute_ok hkind hattr
    rw [htokens]
    exact (ih (quotesFit_of_readAttribute hkind hfit hattr) hattrs).append used
  | case4 => simp at h
  | case5 token tokens hkind hstop =>
    simp only [Prod.mk.injEq, Except.error.injEq] at h
    obtain ⟨-, rfl⟩ := h
    refine ⟨[], token, tokens ++ [next], _, rfl, fun hvalue => ?_, rfl⟩
    cases hfit.1 hvalue

end Reading

/-! ## Segments -/

theorem QuotesFit.left_of_append {quoting : Quoting} {kinds kinds' : List TokenKind}
    (h : QuotesFit quoting (kinds ++ kinds')) : QuotesFit quoting kinds := by
  induction kinds generalizing quoting with
  | nil => trivial
  | cons kind kinds ih => exact ⟨h.1, ih h.2⟩

/-- What is left after the end of a construct does not begin with a value. -/
theorem head_ne_value_of_blockEnd {quoting : Quoting} {used stray : List Token} {stop : Token}
    (hfit : QuotesFit quoting ((used ++ stop :: stray).map (·.kind)))
    (hstop : stop.kind = .blockEnd) : ∀ first ∈ stray.head?, first.kind ≠ .attributeValue := by
  intro first hfirst hvalue
  obtain ⟨run, rfl⟩ := List.head?_eq_some_iff.mp hfirst
  rw [List.map_append] at hfit
  have houtside := hfit.right_of_append.of_cons hstop
  rw [Quoting.after_of_isDelimiter rfl] at houtside
  cases houtside.1 hvalue

section Segments
variable {segment : Segment} {rest : List Token} {faults : List Diagnostic}
  (hfit : QuotesFit .outside (segment.body.map (·.kind)))
  (hrest : FaultsAt rest faults)
include hfit hrest

/-- A construct up to its end leaves the tokens after that as a run. -/
theorem FaultsAt.complete {used stray : List Token} {stop : Token}
    (hbody : segment.body = used ++ stop :: stray) (hstop : stop.kind = .blockEnd) :
    FaultsAt (segment.body ++ segment.next :: rest) ((strayFault stray).toList ++ faults) := by
  rw [hbody] at hfit ⊢
  have hnext : FaultsAt (segment.next :: rest) faults := hrest.skip
  have hstray := FaultsAt.stray (head_ne_value_of_blockEnd hfit hstop) hnext
  simpa using hstray.append (used ++ [stop])

variable (hnext : segment.next.kind ≠ .attributeValue)
include hnext

theorem FaultsAt.readDirective :
    FaultsAt (segment.body ++ segment.next :: rest)
      ((readDirective segment).faults ++ faults) := by
  fun_cases TextTemplate.readDirective segment with
  | case1 fault h => exact (misfitIn_of_expect hnext hfit (by decide) h).faultsAt hrest
  | case2 name tokens hname attrs fault hattrs =>
    have hmisfit := misfitIn_of_readAttributes hnext (hfit.of_expect hname) hattrs
    exact (hmisfit.of_expect hname).faultsAt hrest
  | case3 name tokens hname attrs stop stray hattrs =>
    obtain ⟨hbody, -⟩ := eq_cons_of_expect hname
    obtain ⟨used, rfl, hstop, -, -⟩ := readAttributes_ok hattrs
    have hparts : segment.body = (name :: used) ++ stop :: stray := hbody
    exact .complete hfit hrest hparts hstop

theorem FaultsAt.readCodeBlock :
    FaultsAt (segment.body ++ segment.next :: rest)
      ((readCodeBlock segment).faults ++ faults) := by
  fun_cases TextTemplate.readCodeBlock segment with
  | case1 start hbody =>
    rw [hbody]
    exact .fault hnext rfl rfl (fun _ => rfl) hrest
  | case2 start stop stray hbody hkind =>
    have hparts : segment.body = [] ++ stop :: stray := hbody
    exact .complete hfit hrest hparts hkind
  | case3 start code tokens hbody hkind fault h =>
    rw [hbody] at hfit ⊢
    have hmisfit := misfitIn_of_expect hnext (hfit.of_cons hkind) (by decide) h
    exact (hmisfit.append [code]).faultsAt hrest
  | case4 start code tokens hbody hkind stop stray h =>
    obtain ⟨rfl, hstop⟩ := eq_cons_of_expect h
    have hparts : segment.body = [code] ++ stop :: stray := hbody
    exact .complete hfit hrest hparts hstop
  | case5 start token tokens hbody hne =>
    rw [hbody] at hfit ⊢
    have hkind : token.kind ≠ .attributeValue := fun hvalue => absurd (hfit.1 hvalue) (by decide)
    have hmisfit : MisfitIn segment.next (token :: tokens)
        (token.fault .codeOrBlockEndExpected) :=
      ⟨[], token, tokens ++ [segment.next], _, rfl, hkind, rfl⟩
    exact hmisfit.faultsAt hrest

theorem FaultsAt.read :
    FaultsAt (segment.body ++ segment.next :: rest) (segment.read.faults ++ faults) := by
  rw [Segment.read]
  split
  · exact .readDirective hfit hrest hnext
  · exact .readCodeBlock hfit hrest hnext

end Segments

/-! ## Templates -/

/-- The faults of segments are told of the tokens after the first block start: that one fits. -/
theorem faultsAt_ofTokens {endOfFile : Token} (hend : endOfFile.kind = .endOfFile)
    {quoting : Quoting} {tokens : List Token} (hfit : QuotesFit quoting (tokens.map (·.kind))) :
    ∃ next rest, (Cut.ofTokens endOfFile tokens).segments.flatMap Segment.tokens ++ [endOfFile] =
        next :: rest ∧
      next = ((Cut.ofTokens endOfFile tokens).segments.head?.map (·.start)).getD endOfFile ∧
      next.kind ≠ .attributeValue ∧
      FaultsAt rest ((Cut.ofTokens endOfFile tokens).segments.flatMap (·.read.faults)) := by
  induction tokens generalizing quoting with
  | nil => exact ⟨endOfFile, [], rfl, rfl, by rw [hend]; decide, .nil⟩
  | cons token tokens ih =>
    obtain ⟨next, rest, htokens, hhead, hnext, hrest⟩ := ih hfit.2
    cases hstart : token.kind.isBlockStart with
    | false =>
      rw [Cut.ofTokens_other hstart]
      exact ⟨next, rest, htokens, hhead, hnext, hrest⟩
    | true =>
      rw [Cut.ofTokens_blockStart hstart, ← hhead]
      have hbody : QuotesFit .outside
          ((Cut.ofTokens endOfFile tokens).leading.map (·.kind)) := by
        have hafter := hfit.2
        rw [← Cut.flatten_ofTokens endOfFile tokens, List.map_append,
          Quoting.after_of_isDelimiter (TokenKind.isDelimiter_of_isBlockStart hstart)] at hafter
        exact hafter.left_of_append
      let segment : Segment := ⟨token, (Cut.ofTokens endOfFile tokens).leading, next⟩
      have hread : FaultsAt (segment.body ++ segment.next :: rest) (segment.read.faults ++ _) :=
        .read hbody hrest hnext
      refine ⟨token, _, ?_, rfl, ?_, hread⟩
      · rw [List.flatMap_cons, List.append_assoc, htokens]
        rfl
      · rintro hvalue
        rw [hvalue] at hstart
        contradiction

theorem faultsAt_ofStream {stream : TokenStream} (hend : stream.endOfFile.kind = .endOfFile)
    (hfit : QuotesFit .outside (stream.tokens.map (·.kind))) :
    FaultsAt stream.toList (ParsedTemplate.ofStream stream).faults := by
  obtain ⟨next, rest, htokens, -, -, hrest⟩ := faultsAt_ofTokens hend hfit
  have hflat := Cut.flatten_ofTokens stream.endOfFile stream.tokens
  have hsplit : stream.tokens ++ [stream.endOfFile] =
      (Cut.ofTokens stream.endOfFile stream.tokens).leading ++ next :: rest := by
    rw [← htokens, ← List.append_assoc, hflat]
  have hleading : ∀ first ∈ (Cut.ofTokens stream.endOfFile stream.tokens).leading.head?,
      first.kind ≠ .attributeValue := by
    intro first hfirst hvalue
    obtain ⟨run, hrun⟩ := List.head?_eq_some_iff.mp hfirst
    rw [← hflat, hrun] at hfit
    cases hfit.1 hvalue
  rw [ParsedTemplate.faults_ofStream, TokenStream.toList, hsplit]
  exact .stray hleading hrest.skip

/-- The faults of a text are told of its tokens, the one at the end of the file included. -/
theorem faultsAt_parse (text : String) : FaultsAt (scan text).toList (parse text).faults :=
  faultsAt_ofStream (kind_endOfFile_scan text) (quotesFit_scan text)

/-! ## Spans of faults -/

/-- The first token stops before the second one starts, and has a width unless it is a value. -/
def Token.Precedes (s t : Token) : Prop :=
  s.span.stop ≤ t.span.start ∧ (s.kind ≠ .attributeValue → s.span.start < s.span.stop)

/-- The fault stands where a run of the tokens does, which is a single token unless the fault is one
for stray tokens. -/
structure ToldOf (tokens : List Token) (fault : Diagnostic) (first last : Token) : Prop where
  first_mem : first ∈ tokens
  last_mem : last ∈ tokens
  kind_ne : first.kind ≠ .attributeValue
  start_eq : fault.span.start = first.span.start
  stop_eq : fault.span.stop = last.span.stop
  position_eq : fault.position = first.position
  single_or_precedes : fault.span = first.span ∨ first.Precedes last
  single_of_ne : fault.cause ≠ .blockStartExpected → fault.span = first.span

section Spans
variable {tokens : List Token} {faults : List Diagnostic} {e : Diagnostic} {first last : Token}

theorem ToldOf.mono {tokens' : List Token} (h : ToldOf tokens e first last)
    (hsubset : tokens ⊆ tokens') : ToldOf tokens' e first last :=
  { h with first_mem := hsubset h.first_mem, last_mem := hsubset h.last_mem }

theorem exists_toldOf_of_run {run : List Token} (hkind : first.kind ≠ .attributeValue)
    (hspan : e.span = (run.map (·.span)).foldl Span.cover first.span)
    (hposition : e.position = first.position) (hcause : e.cause ≠ .blockStartExpected → run = [])
    (hpairs : (first :: run).Pairwise Token.Precedes) :
    ∃ last, ToldOf (first :: run) e first last := by
  have hspans : ((first :: run).map (·.span)).Pairwise fun s t => s.stop ≤ t.start :=
    List.pairwise_map.mpr (hpairs.imp fun h => h.1)
  obtain ⟨hstart, hstop⟩ := Span.foldl_cover_of_pairwise hspans
  have hlast := List.getLast_map (f := fun t : Token => t.span) (l := first :: run)
    (List.cons_ne_nil _ _)
  refine ⟨(first :: run).getLast (List.cons_ne_nil _ _), ?_⟩
  refine ⟨List.mem_cons_self, List.getLast_mem _, hkind, hspan ▸ hstart, ?_, hposition, ?_, ?_⟩
  · exact hspan ▸ hstop.trans (congrArg Span.stop hlast)
  · cases run with
    | nil => exact .inl hspan
    | cons t run =>
      refine .inr ((List.pairwise_cons.mp hpairs).1 _ ?_)
      rw [List.getLast_cons_cons]
      exact List.getLast_mem _
  · intro hne
    rw [hspan, hcause hne]
    rfl

/-- Every fault stands at some of the tokens, and faults follow one another as their tokens do. -/
theorem FaultsAt.toldOf (h : FaultsAt tokens faults) (hpairs : tokens.Pairwise Token.Precedes) :
    (∀ e ∈ faults, ∃ first last, ToldOf tokens e first last) ∧
      faults.Pairwise fun e f => e.span.start < f.span.start ∧ e.span.stop ≤ f.span.start := by
  induction h with
  | nil => exact ⟨nofun, .nil⟩
  | skip hrest ih =>
    obtain ⟨htold, hfaults⟩ := ih (List.pairwise_cons.mp hpairs).2
    refine ⟨fun e he => ?_, hfaults⟩
    obtain ⟨first, last, htold⟩ := htold e he
    exact ⟨first, last, htold.mono (List.subset_cons_self _ _)⟩
  | @fault first run tokens fault faults hkind hspan hposition hcause hrest ih =>
    obtain ⟨hrun, htokens, hbetween⟩ := List.pairwise_append.mp hpairs
    obtain ⟨htold, hfaults⟩ := ih htokens
    obtain ⟨last, hfault⟩ := exists_toldOf_of_run hkind hspan hposition hcause hrun
    refine ⟨List.forall_mem_cons.mpr ⟨?_, fun e he => ?_⟩,
      List.pairwise_cons.mpr ⟨fun e he => ?_, hfaults⟩⟩
    · exact ⟨first, last, hfault.mono (List.subset_append_left _ _)⟩
    · obtain ⟨first', last', htold⟩ := htold e he
      exact ⟨first', last', htold.mono (List.subset_append_right _ _)⟩
    · obtain ⟨first', last', htold⟩ := htold e he
      obtain ⟨hle, hlt⟩ := hbetween first hfault.first_mem first' htold.first_mem
      obtain ⟨hle', -⟩ := hbetween last hfault.last_mem first' htold.first_mem
      have hwidth := hlt hkind
      rw [hfault.start_eq, hfault.stop_eq, htold.start_eq]
      exact ⟨by omega, hle'⟩

end Spans

section Texts
variable {text : String} (hlen : byteLength text.toList ≤ maxOffset)
include hlen

theorem pairwise_precedes_scan : (scan text).toList.Pairwise Token.Precedes := by
  have hpairs : (scan text).toList.Pairwise fun s t => s.span.stop ≤ t.span.start :=
    (TokenStream.pairwise_ofLexemes _ _ _).2
  obtain ⟨htokens, -, hend⟩ := List.pairwise_append.mp hpairs
  refine List.pairwise_append.mpr ⟨?_, List.pairwise_singleton _ _, ?_⟩
  · exact htokens.imp_of_mem fun hs _ hle => ⟨hle, start_lt_stop_of_mem_scan hlen hs⟩
  · exact fun s hs t ht => ⟨hend s hs t ht, start_lt_stop_of_mem_scan hlen hs⟩

/-- The faults of a text stand at its tokens and follow one another. -/
theorem toldOf_parse :
    (∀ e ∈ (parse text).faults, ∃ first last, ToldOf (scan text).toList e first last) ∧
      (parse text).faults.Pairwise fun e f =>
        e.span.start < f.span.start ∧ e.span.stop ≤ f.span.start :=
  (faultsAt_parse text).toldOf (pairwise_precedes_scan hlen)

/-- A fault has no width exactly if it is one at the end of the file. -/
theorem ToldOf.length_eq_zero_iff {e : Diagnostic} {first last : Token}
    (h : ToldOf (scan text).toList e first last) :
    e.span.length = 0 ↔ e.span.start = byteLength text.toList := by
  obtain ⟨hstart, hlength⟩ := span_endOfFile hlen
  rcases List.mem_append.mp h.first_mem with hfirst | hfirst
  · have hlt := start_lt_of_mem_scanChars hlen hfirst
    have hwidth := start_lt_stop_of_mem_scan hlen hfirst h.kind_ne
    have hstop : first.span.stop ≤ e.span.stop := by
      rcases h.single_or_precedes with hspan | ⟨hle, -⟩
      · rw [hspan]
      · have := last.span.start_le_stop
        rw [h.stop_eq]
        omega
    rw [← h.start_eq] at hlt hwidth
    have hne : e.span.length ≠ 0 := by
      simp only [Span.stop] at hstop hwidth
      omega
    exact iff_of_false hne (Nat.ne_of_lt hlt)
  · obtain rfl := List.mem_singleton.mp hfirst
    rcases h.single_or_precedes with hspan | ⟨-, hwidth⟩
    · rw [hspan]
      exact iff_of_true hlength hstart
    · have hlt := hwidth h.kind_ne
      simp only [Span.stop, hlength] at hlt
      omega

end Texts

end TextTemplate
