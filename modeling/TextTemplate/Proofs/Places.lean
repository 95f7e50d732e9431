import TextTemplate.Proofs.LinePositions
import TextTemplate.Token.Stream

/-!
# Places in a text of two parts

A token is placed by a `Cursor` that runs along the characters, an offset by the `LineIndex` of the
whole text. The two agree on every character boundary (`LineIndex.position_byteLength`).

What stands in the second part of a text is placed by shifting: an offset by the length of the first
part, a line by its number of lines, a column only on the first line of the second part. Running the
cursor and shifting its place can be done in either order (`Cursor.skip_shift`). Spans are bounded,
so a span is shifted faithfully only while it `Fits`; the cover of two such spans is one again.
-/
namespace TextTemplate

namespace Position

/-- The place in the whole text of what stands at `p` after a first part that ends at `base`. -/
def shift (p base : Position) : Position :=
  ⟨base.line + p.line, if p.line = 0 then base.column + p.column else p.column⟩

@[simp]
theorem shift_origin (base : Position) : origin.shift base = base := rfl

theorem advance_shift (p base : Position) (c : Char) :
    (p.shift base).advance c = (p.advance c).shift base := by
  by_cases hc : c = '\n'
  · simp [advance, shift, hc, Nat.add_assoc]
  · by_cases hl : p.line = 0
    · simp [advance, shift, hc, hl, Nat.add_assoc]
    · simp [advance, shift, hc, hl]

end Position

namespace Cursor

/-- The place in the whole text of what stands here after a first part that ends at `base`. -/
def shift (here base : Cursor) : Cursor :=
  ⟨base.offset + here.offset, here.position.shift base.position⟩

@[simp]
theorem shift_origin (base : Cursor) : origin.shift base = base := rfl

@[simp]
theorem skip_nil (here : Cursor) : here.skip [] = here := rfl

theorem skip_cons (here : Cursor) (c : Char) (cs : List Char) :
    here.skip (c :: cs) = (here.next c).skip cs := rfl

theorem skip_append (here : Cursor) (as bs : List Char) :
    here.skip (as ++ bs) = (here.skip as).skip bs :=
  List.foldl_append

theorem next_shift (here base : Cursor) (c : Char) :
    (here.shift base).next c = (here.next c).shift base := by
  simp only [next, shift, Position.advance_shift, Nat.add_assoc]

theorem skip_shift (here base : Cursor) (cs : List Char) :
    (here.shift base).skip cs = (here.skip cs).shift base := by
  induction cs generalizing here with
  | nil => rfl
  | cons c cs ih => rw [skip_cons, skip_cons, next_shift, ih]

@[simp]
theorem offset_skip (here : Cursor) (cs : List Char) :
    (here.skip cs).offset = here.offset + byteLength cs := by
  induction cs generalizing here with
  | nil => rfl
  | cons c cs ih => simp [skip_cons, ih, next, Nat.add_assoc]

theorem offset_origin_skip (cs : List Char) : (origin.skip cs).offset = byteLength cs := by
  simp [origin]

end Cursor

namespace LineIndex

theorem startsAfter_append (offset : Nat) (as bs : List Char) :
    startsAfter offset (as ++ bs) =
      startsAfter offset as ++ startsAfter (offset + byteLength as) bs := by
  induction as generalizing offset with
  | nil => rfl
  | cons c cs ih =>
    by_cases hc : c = '\n'
    · simp [startsAfter, hc, ih, Nat.add_assoc]
    · simp [startsAfter, hc, ih, Nat.add_assoc]

end LineIndex

/-- The cursor counts lines and columns as the starts of lines do: `start` is where the line of the
cursor starts. -/
theorem Cursor.position_skip {offset start : Nat} (line : Nat) (h : start ≤ offset)
    (cs : List Char) :
    ((⟨offset, ⟨line, offset - start⟩⟩ : Cursor).skip cs).position =
      ⟨line + (LineIndex.startsAfter offset cs).length,
        offset + byteLength cs - (LineIndex.startsAfter offset cs).getLastD start⟩ := by
  induction cs generalizing offset start line with
  | nil => rfl
  | cons c cs ih =>
    simp only [skip_cons, next, Position.advance, LineIndex.startsAfter, byteLength_cons]
    by_cases hc : c = '\n'
    · have hzero : (0 : Nat) = offset + c.utf8Size - (offset + c.utf8Size) := by omega
      rw [if_pos hc, if_pos hc, hzero, ih (line + 1) (Nat.le_refl _), List.getLastD_cons,
        List.length_cons]
      simp only [Nat.add_assoc, Nat.add_comm 1]
    · have hcol : offset - start + c.utf8Size = offset + c.utf8Size - start := by omega
      rw [if_neg hc, if_neg hc, hcol, ih line (by omega), Nat.add_assoc offset]

/-- On a character boundary the line index finds the place that the cursor has there. -/
theorem LineIndex.position_byteLength (as bs : List Char) :
    (ofChars (as ++ bs)).position (byteLength as) = (Cursor.origin.skip as).position := by
  have hfirst : (ofChars as).starts =
      (ofChars as).starts.dropLast ++ [(startsAfter 0 as).getLastD 0] := by
    rw [← List.getLast_eq_getLastD (List.cons_ne_nil _ _), ofChars, List.dropLast_concat_getLast]
  have hstarts : (ofChars (as ++ bs)).starts =
      (ofChars as).starts.dropLast ++
        (startsAfter 0 as).getLastD 0 :: startsAfter (byteLength as) bs := by
    rw [List.append_cons, ← hfirst, ofChars, startsAfter_append, Nat.zero_add]
    rfl
  have hle : (startsAfter 0 as).getLastD 0 ≤ byteLength as :=
    (ofBytes_ofChars as).ordered.bounded _ (hfirst ▸ List.mem_append_right _ List.mem_cons_self)
  have hnext : ∀ next ∈ (startsAfter (byteLength as) bs).head?, byteLength as < next := by
    intro next hnext
    rw [startsAfter_eq_findIdxs] at hnext
    exact List.ge_of_mem_findIdxs next (List.mem_of_mem_head? hnext)
  have hskip := Cursor.position_skip 0 (Nat.le_refl 0) as
  rw [(ofBytes_ofChars (as ++ bs)).ordered.position_eq_iff (by simp [ofChars])]
  have hplaced := PlacedAt.of_append hstarts hle hnext
  simpa [Cursor.origin, Position.origin, ofChars, hskip] using hplaced

namespace Span

/-- The span that many bytes further on. -/
def shift (s : Span) (count : Nat) : Span :=
  ofParts (count + s.start) s.length

/-- The span that many bytes further on is still within the bounds of spans. -/
def Fits (count : Nat) (s : Span) : Prop :=
  count + (s.start + s.length) ≤ maxOffset

/-- The byte at the offset belongs to the span. -/
def HasByte (s : Span) (offset : Nat) : Prop :=
  s.start ≤ offset ∧ offset < s.stop

/-- The span has a byte, if it starts where a span can have one. -/
def Wide (s : Span) : Prop :=
  s.start < maxOffset → s.start < s.stop

section Bytes
variable {s t : Span} {offset : Nat}

theorem HasByte.lt_maxOffset (h : s.HasByte offset) : offset < maxOffset :=
  Nat.lt_of_lt_of_le h.2 s.stop_le

theorem containsSpan_iff : s.containsSpan t = true ↔ s.start ≤ t.start ∧ t.stop ≤ s.stop := by
  simp [containsSpan]

theorem HasByte.of_containsSpan (h : t.HasByte offset) (hs : s.containsSpan t = true) :
    s.HasByte offset := by
  obtain ⟨hstart, hstop⟩ := containsSpan_iff.mp hs
  exact ⟨Nat.le_trans hstart h.1, Nat.lt_of_lt_of_le h.2 hstop⟩

theorem stop_eq_start_of_isEmpty (h : s.isEmpty = true) : s.stop = s.start := by
  have hlength : s.length = 0 := by simpa [isEmpty] using h
  have := s.start_le
  simp only [stop, hlength]
  omega

/-- A wide span contains its bytes and no other offset, the one at the bound of spans apart. -/
theorem Wide.contains_iff (hs : s.Wide) (h : offset < maxOffset ∨ s.start < maxOffset) :
    s.contains offset = true ↔ s.HasByte offset := by
  rw [contains]
  cases hempty : s.isEmpty with
  | true =>
    have hstop := stop_eq_start_of_isEmpty hempty
    simp only [if_true, beq_iff_eq, HasByte, Wide] at hs ⊢
    omega
  | false => simp [HasByte]

theorem HasByte.contains (h : s.HasByte offset) : s.contains offset = true :=
  (Wide.contains_iff (fun _ => Nat.lt_of_le_of_lt h.1 h.2) (.inl h.lt_maxOffset)).mpr h

end Bytes

theorem start_ofBounds {start stop : Nat} (h : start ≤ maxOffset) :
    (ofBounds start stop).start = start :=
  Nat.min_eq_left h

theorem length_ofBounds {start stop : Nat} (h : stop ≤ maxOffset) :
    (ofBounds start stop).length = stop - start := by
  rw [ofBounds, ofParts]
  exact if_pos (by omega)

theorem stop_ofBounds {start stop : Nat} (hle : start ≤ stop) (h : stop ≤ maxOffset) :
    (ofBounds start stop).stop = stop := by
  rw [Span.stop, start_ofBounds (by omega), length_ofBounds h]
  omega

/-- Whatever the bounds are, a span stops at the greater of them, or as far as spans reach. -/
theorem stop_ofBounds_eq_min_max (start stop : Nat) :
    (ofBounds start stop).stop = min (max start stop) maxOffset := by
  simp only [Span.stop, ofBounds, ofParts]
  split <;> omega

theorem stop_ofBounds_eq_min {start stop : Nat} (hle : start ≤ stop) :
    (ofBounds start stop).stop = min stop maxOffset := by
  rw [stop_ofBounds_eq_min_max, Nat.max_eq_right hle]

/-- A cover starts where the first of the two spans does. -/
theorem start_cover (s t : Span) : (s.cover t).start = min s.start t.start :=
  start_ofBounds (by have := s.start_le; omega)

/-- A cover stops where the last of the two spans does. -/
theorem stop_cover (s t : Span) : (s.cover t).stop = max s.stop t.stop := by
  have hs := s.stop_le
  have ht := t.stop_le
  have := s.start_le_stop
  exact stop_ofBounds (by omega) (by omega)

theorem length_cover (s t : Span) :
    (s.cover t).length = max s.stop t.stop - min s.start t.start :=
  length_ofBounds (by have := s.stop_le; have := t.stop_le; omega)

theorem Fits.stop_eq {count : Nat} {s : Span} (h : s.Fits count) : s.stop = s.start + s.length := by
  simp only [Fits] at h
  simp only [Span.stop]
  omega

theorem Fits.start_shift {count : Nat} {s : Span} (h : s.Fits count) :
    (s.shift count).start = count + s.start := by
  simp only [Fits] at h
  simp only [shift, ofParts]
  omega

@[simp]
theorem length_shift (count : Nat) (s : Span) : (s.shift count).length = s.length :=
  if_pos s.length_le

theorem Fits.stop_shift {count : Nat} {s : Span} (h : s.Fits count) :
    (s.shift count).stop = count + s.stop := by
  rw [Span.stop, h.start_shift, length_shift, h.stop_eq]
  simp only [Fits] at h
  omega

theorem Fits.cover {count : Nat} {s t : Span} (hs : s.Fits count) (ht : t.Fits count) :
    (s.cover t).Fits count := by
  have hs' := hs.stop_eq
  have ht' := ht.stop_eq
  simp only [Fits] at hs ht
  simp only [Fits, start_cover, length_cover]
  omega

/-- A cover is shifted by shifting both spans. -/
theorem Fits.shift_cover {count : Nat} {s t : Span} (hs : s.Fits count) (ht : t.Fits count) :
    (s.cover t).shift count = (s.shift count).cover (t.shift count) := by
  apply Span.ext
  · rw [(hs.cover ht).start_shift, start_cover, start_cover, hs.start_shift, ht.start_shift]
    omega
  · rw [length_shift, length_cover, length_cover, hs.start_shift, ht.start_shift, hs.stop_shift,
      ht.stop_shift]
    omega

end Span

end TextTemplate
