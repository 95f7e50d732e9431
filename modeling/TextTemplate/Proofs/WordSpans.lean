import TextTemplate.Proofs.FollowedSpans
import TextTemplate.Proofs.JoinedSpans

/-!
# Spans in machine words

A span fits two words of 32 bits, and any two words are a span (`Span.wordsEquiv`). Here the
arithmetic of spans is done in words. A difference of words that would be below zero is none
(`sub?`): there a program stops or goes on with a number that has run over. The other operations
stay at the greatest word. What is computed in words is computed in full and is the same as what
`Span` has without bounds on its numbers, for covers, for spans between bounds of 64 bits and for
followed spans.

Two differences are at stake. A cover stops after it starts, since it stops after one of the two
spans starts. An offset behind an edit is moved back by the length of the edit, which is no more
than where the edit stops, also if that has been cut off (`Span.length_le_stop`).
-/
namespace TextTemplate

/-! ## Words -/

namespace Word

/-- The greatest word. -/
def max32 : UInt32 := 0xFFFFFFFF

/-- The number as a word, if it is small enough. -/
def ofUInt64? (n : UInt64) : Option UInt32 :=
  if n ≤ max32.toUInt64 then some n.toUInt32 else none

/-- The difference, unless it is below zero. -/
def sub? (a b : UInt32) : Option UInt32 :=
  if b ≤ a then some (a - b) else none

/-- The sum, at most the greatest word. -/
def addSat (a b : UInt32) : UInt32 :=
  if a ≤ max32 - b then a + b else max32

/-- The difference, at least zero. -/
def subSat (a b : UInt64) : UInt64 :=
  if b ≤ a then a - b else 0

@[simp]
theorem toNat_max32 : max32.toNat = maxOffset := rfl

theorem toNat_le (a : UInt32) : a.toNat ≤ maxOffset :=
  Nat.le_of_lt_succ a.toNat_lt

theorem lt_of_le_maxOffset {n : Nat} (h : n ≤ maxOffset) : n < 2 ^ 32 :=
  Nat.lt_succ_of_le h

theorem toNat_getD_ofUInt64? (n : UInt64) (w : UInt32) :
    ((ofUInt64? n).getD w).toNat = if n.toNat ≤ maxOffset then n.toNat else w.toNat := by
  have hle : n ≤ max32.toUInt64 ↔ n.toNat ≤ maxOffset := UInt64.le_iff_toNat_le
  rw [ofUInt64?]
  by_cases h : n.toNat ≤ maxOffset
  · rw [if_pos (hle.mpr h), if_pos h, Option.getD_some, UInt64.toNat_toUInt32,
      Nat.mod_eq_of_lt (lt_of_le_maxOffset h)]
  · rw [if_neg (mt hle.mp h), if_neg h, Option.getD_none]

theorem sub?_eq_some_iff {a b c : UInt32} : sub? a b = some c ↔ b.toNat + c.toNat = a.toNat := by
  rw [sub?]
  by_cases h : b ≤ a
  · have hle := UInt32.le_iff_toNat_le.mp h
    rw [if_pos h, Option.some_inj, ← UInt32.toNat_inj, UInt32.toNat_sub_of_le a b h]
    omega
  · have hlt := mt UInt32.le_iff_toNat_le.mpr h
    rw [if_neg h]
    exact iff_of_false nofun (by omega)

theorem exists_sub?_eq_some {a b : UInt32} (h : b.toNat ≤ a.toNat) :
    ∃ c, sub? a b = some c ∧ b.toNat + c.toNat = a.toNat :=
  have hsub := if_pos (UInt32.le_iff_toNat_le.mpr h)
  ⟨a - b, hsub, sub?_eq_some_iff.mp hsub⟩

theorem toNat_getD_sub? (a b : UInt32) : ((sub? a b).getD 0).toNat = a.toNat - b.toNat := by
  by_cases h : b.toNat ≤ a.toNat
  · obtain ⟨c, hc, hsum⟩ := exists_sub?_eq_some h
    rw [hc, Option.getD_some]
    omega
  · have hnone : sub? a b = none := if_neg (mt UInt32.le_iff_toNat_le.mp h)
    rw [hnone, Option.getD_none, UInt32.toNat_zero]
    omega

@[simp]
theorem toNat_addSat (a b : UInt32) : (addSat a b).toNat = min (a.toNat + b.toNat) maxOffset := by
  have hb := toNat_le b
  have hsub : (max32 - b).toNat = maxOffset - b.toNat :=
    UInt32.toNat_sub_of_le max32 b (UInt32.le_iff_toNat_le.mpr hb)
  rw [addSat]
  by_cases h : a ≤ max32 - b
  · have hle : a.toNat ≤ maxOffset - b.toNat := hsub ▸ UInt32.le_iff_toNat_le.mp h
    have hsum : a.toNat + b.toNat ≤ maxOffset := by omega
    rw [if_pos h, UInt32.toNat_add, Nat.mod_eq_of_lt (lt_of_le_maxOffset hsum),
      Nat.min_eq_left hsum]
  · have hlt : ¬ a.toNat ≤ maxOffset - b.toNat := hsub ▸ mt UInt32.le_iff_toNat_le.mpr h
    rw [if_neg h, toNat_max32]
    omega

@[simp]
theorem toNat_subSat (a b : UInt64) : (subSat a b).toNat = a.toNat - b.toNat := by
  rw [subSat]
  by_cases h : b ≤ a
  · rw [if_pos h, UInt64.toNat_sub_of_le a b h]
  · have hlt := mt UInt64.le_iff_toNat_le.mpr h
    rw [if_neg h, UInt64.toNat_zero]
    omega

@[simp]
theorem toNat_min (a b : UInt32) : (min a b).toNat = min a.toNat b.toNat := by
  show (if a ≤ b then a else b).toNat = _
  rw [Nat.min_def, apply_ite UInt32.toNat]
  exact if_congr UInt32.le_iff_toNat_le rfl rfl

@[simp]
theorem toNat_max (a b : UInt32) : (max a b).toNat = max a.toNat b.toNat := by
  show (if a ≤ b then b else a).toNat = _
  rw [Nat.max_def, apply_ite UInt32.toNat]
  exact if_congr UInt32.le_iff_toNat_le rfl rfl

end Word

/-! ## Spans -/

/-- A start and a length in words. -/
@[ext]
structure WordSpan where
  start : UInt32
  length : UInt32
deriving DecidableEq

/-- The numbers of an edit in words: what is replaced, and how many bytes are put in. -/
structure WordEdit where
  span : WordSpan
  inserted : UInt32
deriving DecidableEq

namespace WordSpan

/-- The word after the last byte, at most the greatest word. -/
def stop (s : WordSpan) : UInt32 :=
  Word.addSat s.start s.length

/-- The span of these parts. A start that is too large becomes the greatest word, a length that is
too large reaches from the start to there. -/
def ofParts (start length : UInt64) : WordSpan :=
  let first := (Word.ofUInt64? start).getD Word.max32
  ⟨first, (Word.ofUInt64? length).getD ((Word.sub? Word.max32 first).getD 0)⟩

/-- The span between these bounds. -/
def ofBounds (start stop : UInt64) : WordSpan :=
  ofParts start (Word.subSat stop start)

/-- The span from one word up to another, unless that is less. -/
def between? (start stop : UInt32) : Option WordSpan := do
  return ⟨start, ← Word.sub? stop start⟩

/-- The least span with both spans inside. -/
def cover? (s t : WordSpan) : Option WordSpan :=
  between? (min s.start t.start) (max s.stop t.stop)

/-- The span whose parts are these words. -/
def span (s : WordSpan) : Span :=
  ⟨s.start.toNat, s.length.toNat, Word.toNat_le _, Word.toNat_le _⟩

end WordSpan

namespace WordEdit

/-- Where an offset behind the edited range comes to. -/
def shift? (edit : WordEdit) (offset : UInt32) : Option UInt32 := do
  return Word.addSat (← Word.sub? offset edit.span.length) edit.inserted

/-- Where the start of a followed span comes to. -/
def moveStart? (edit : WordEdit) (offset : UInt32) : Option UInt32 :=
  if offset < edit.span.start then some offset
  else if edit.span.stop ≤ offset then edit.shift? offset
  else some edit.span.start

/-- Where the end of a followed span comes to. -/
def moveStop? (edit : WordEdit) (offset : UInt32) : Option UInt32 :=
  if offset ≤ edit.span.start then some offset
  else if edit.span.stop ≤ offset then edit.shift? offset
  else some (Word.addSat edit.span.start edit.inserted)

end WordEdit

/-- Where the text of the span is after the edit. -/
def WordSpan.follow? (s : WordSpan) (edit : WordEdit) : Option WordSpan := do
  let start ← edit.moveStart? s.start
  let stop ← edit.moveStop? s.stop
  between? start (max stop start)

namespace Span

/-- The parts of the span in words. -/
def words (s : Span) : WordSpan :=
  ⟨.ofNatLT s.start (Word.lt_of_le_maxOffset s.start_le),
    .ofNatLT s.length (Word.lt_of_le_maxOffset s.length_le)⟩

/-- Any two words are the parts of one span. -/
theorem words_bijective : Function.Bijective words :=
  Function.bijective_iff_has_inverse.mpr ⟨WordSpan.span, fun _ => rfl, fun _ => rfl⟩

section Words
variable (s t : Span)

@[simp]
theorem toNat_start_words : s.words.start.toNat = s.start := rfl

@[simp]
theorem toNat_length_words : s.words.length.toNat = s.length := rfl

@[simp]
theorem toNat_stop_words : s.words.stop.toNat = s.stop := by
  rw [WordSpan.stop, Word.toNat_addSat, toNat_start_words, toNat_length_words, stop]

theorem length_le_stop : s.length ≤ s.stop :=
  Nat.le_min.mpr ⟨Nat.le_add_left _ _, s.length_le⟩

/-- A span in words is known by its numbers. -/
theorem eq_words_iff {w : WordSpan} :
    w = s.words ↔ w.start.toNat = s.start ∧ w.length.toNat = s.length := by
  rw [WordSpan.ext_iff, ← UInt32.toNat_inj, ← UInt32.toNat_inj, toNat_start_words,
    toNat_length_words]

theorem between?_eq_some_words {start stop : UInt32} (hstart : start.toNat = s.start)
    (hstop : stop.toNat = s.start + s.length) : WordSpan.between? start stop = some s.words := by
  have hsub : Word.sub? stop start = some s.words.length :=
    Word.sub?_eq_some_iff.mpr (by rw [hstart, hstop, toNat_length_words])
  rw [WordSpan.between?, hsub]
  exact congrArg some (s.eq_words_iff.mpr ⟨hstart, rfl⟩)

theorem cover?_words : s.words.cover? t.words = some (s.cover t).words := by
  refine (s.cover t).between?_eq_some_words ?_ ?_
  · rw [Word.toNat_min, toNat_start_words, toNat_start_words, start_cover]
  · rw [Word.toNat_max, toNat_stop_words, toNat_stop_words, start_add_length_cover, stop_cover]

end Words

theorem ofParts_words (start length : UInt64) :
    WordSpan.ofParts start length = (ofParts start.toNat length.toNat).words := by
  have hstart : ((Word.ofUInt64? start).getD Word.max32).toNat = min start.toNat maxOffset :=
    (Word.toNat_getD_ofUInt64? start Word.max32).trans Nat.min_def.symm
  refine (eq_words_iff _).mpr ⟨hstart, ?_⟩
  rw [WordSpan.ofParts, Word.toNat_getD_ofUInt64?, Word.toNat_getD_sub?, hstart, Word.toNat_max32,
    ofParts]

theorem ofBounds_words (start stop : UInt64) :
    WordSpan.ofBounds start stop = (ofBounds start.toNat stop.toNat).words := by
  rw [WordSpan.ofBounds, ofParts_words, Word.toNat_subSat, ofBounds]

end Span

namespace Edit
variable (edit : Edit)

/-- The numbers of the edit in words. -/
def words : WordEdit :=
  ⟨edit.span.words, .ofNatLT edit.inserted (Word.lt_of_le_maxOffset (Nat.min_le_right _ _))⟩

@[simp]
theorem span_words : edit.words.span = edit.span.words := rfl

@[simp]
theorem toNat_inserted_words : edit.words.inserted.toNat = edit.inserted := rfl

section Offsets
variable (offset : UInt32)

/-- An offset behind the edit is not less than the length of the edit. -/
theorem exists_shift? (h : edit.span.stop ≤ offset.toNat) :
    ∃ w, edit.words.shift? offset = some w ∧ w.toNat = edit.shift offset.toNat := by
  have hle : edit.words.span.length.toNat ≤ offset.toNat := edit.span.length_le_stop.trans h
  obtain ⟨kept, hsub, hkept⟩ := Word.exists_sub?_eq_some hle
  refine ⟨Word.addSat kept edit.words.inserted, ?_, ?_⟩
  · rw [WordEdit.shift?, hsub]
    rfl
  · rw [span_words, Span.toNat_length_words] at hkept
    rw [Word.toNat_addSat, toNat_inserted_words, shift, ← hkept, Nat.add_sub_cancel_left]

theorem exists_moveStart? :
    ∃ w, edit.words.moveStart? offset = some w ∧ w.toNat = edit.moveStart offset.toNat := by
  rw [WordEdit.moveStart?, moveStart]
  simp only [UInt32.lt_iff_toNat_lt, UInt32.le_iff_toNat_le, span_words, Span.toNat_start_words,
    Span.toNat_stop_words]
  split
  · exact ⟨offset, rfl, rfl⟩
  · split
    · next h => exact edit.exists_shift? offset h
    · exact ⟨edit.span.words.start, rfl, rfl⟩

theorem exists_moveStop? :
    ∃ w, edit.words.moveStop? offset = some w ∧ w.toNat = edit.moveStop offset.toNat := by
  rw [WordEdit.moveStop?, moveStop]
  simp only [UInt32.le_iff_toNat_le, span_words, Span.toNat_start_words, Span.toNat_stop_words]
  split
  · exact ⟨offset, rfl, rfl⟩
  · split
    · next h => exact edit.exists_shift? offset h
    · exact ⟨_, rfl, Word.toNat_addSat _ _⟩

end Offsets

/-- A span is followed in full. -/
theorem follow?_words (s : Span) : s.words.follow? edit.words = some (s.follow edit).words := by
  obtain ⟨start, hstart, hstart'⟩ := edit.exists_moveStart? s.words.start
  obtain ⟨stop, hstop, hstop'⟩ := edit.exists_moveStop? s.words.stop
  rw [Span.toNat_start_words] at hstart'
  rw [Span.toNat_stop_words] at hstop'
  rw [WordSpan.follow?, hstart, hstop]
  refine (s.follow edit).between?_eq_some_words ?_ ?_
  · rw [hstart', start_follow]
  · rw [Word.toNat_max, hstart', hstop', start_add_length_follow, stop_follow]

/-- The end of the longest span is moved back by the whole length of an edit that is cut off. -/
example : (Span.ofParts 0 maxOffset).words.follow? (Edit.words ⟨.ofParts 10 maxOffset, ""⟩) =
    some (Span.emptyAt 0).words := by decide

end Edit

/-! ## Runs -/

/-- What each step does in full, all of them do one after the other. -/
theorem foldlM_map_eq_some {α β γ δ : Type} {f : β → δ → Option β} {g : α → β} {h : γ → δ}
    {k : α → γ → α} (hstep : ∀ a c, f (g a) (h c) = some (g (k a c))) (a : α) (cs : List γ) :
    (cs.map h).foldlM f (g a) = some (g (cs.foldl k a)) := by
  induction cs generalizing a with
  | nil => rfl
  | cons c cs ih =>
    rw [List.map_cons, List.foldlM_cons, hstep, List.foldl_cons]
    exact ih (k a c)

namespace Span

theorem foldlM_cover?_words (s : Span) (spans : List Span) :
    (spans.map words).foldlM WordSpan.cover? s.words = some (spans.foldl cover s).words :=
  foldlM_map_eq_some cover?_words s spans

theorem foldlM_follow?_words (s : Span) (edits : List Edit) :
    (edits.map Edit.words).foldlM WordSpan.follow? s.words = some (s.followAll edits).words :=
  foldlM_map_eq_some (fun s edit => edit.follow?_words s) s edits

end Span

/-- **Arithmetic of spans.** For all words as parts of spans, and for all bounds of 64 bits, what is
computed in words is there and is what `Span` has. Covers are joins, the order and the grouping of
spans do not matter to them, and the cover of a list reaches from the least start to the greatest
end. -/
theorem span_arithmetic :
    Function.Bijective Span.words ∧
    (∀ s t : Span, s.words.cover? t.words = some (s.cover t).words ∧
      Span.IsJoin [s, t] (s.cover t) ∧ s.cover t = t.cover s) ∧
    (∀ s t u : Span, (s.cover t).cover u = s.cover (t.cover u)) ∧
    (∀ (s : Span) (spans : List Span),
      (spans.map Span.words).foldlM WordSpan.cover? s.words =
        some (spans.foldl Span.cover s).words ∧
      (spans.foldl Span.cover s).ReachesOver (s :: spans) ∧
      (spans = [] ∨ (spans.foldl Span.cover s).start + (spans.foldl Span.cover s).length =
        (spans.foldl Span.cover s).stop)) ∧
    (∀ x y : UInt64, WordSpan.ofBounds x y = (Span.ofBounds x.toNat y.toNat).words ∧
      (Span.ofBounds x.toNat y.toNat).start = min x.toNat maxOffset ∧
      (Span.ofBounds x.toNat y.toNat).stop = min (max x.toNat y.toNat) maxOffset) ∧
    (∀ (s : Span) (edit : Edit), s.words.follow? edit.words = some (s.follow edit).words ∧
      (s.follow edit).start ≤ (s.follow edit).stop ∧
      (s.follow edit).start + (s.follow edit).length = (s.follow edit).stop) ∧
    ∀ (s : Span) (edits : List Edit),
      (edits.map Edit.words).foldlM WordSpan.follow? s.words = some (s.followAll edits).words := by
  refine ⟨Span.words_bijective, fun s t => ⟨s.cover?_words t, ?_, s.cover_comm t⟩,
    Span.cover_assoc, fun s spans => ?_, fun x y => ?_, fun s edit => ?_, ?_⟩
  · exact (Span.reachesOver_cover s t).isJoin
  · exact ⟨s.foldlM_cover?_words spans, s.reachesOver_foldl_cover spans,
      s.start_add_length_foldl_cover spans⟩
  · exact ⟨Span.ofBounds_words x y, rfl, Span.stop_ofBounds_eq_min_max _ _⟩
  · exact ⟨edit.follow?_words s, (s.follow edit).start_le_stop, edit.start_add_length_follow s⟩
  · exact Span.foldlM_follow?_words

end TextTemplate
