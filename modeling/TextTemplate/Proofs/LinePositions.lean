import TextTemplate.Source.Position
import Mathlib.Data.List.DropRight
import Mathlib.Data.List.Infix
import Mathlib.Data.List.Sort

/-!
# Offsets and positions

A line index converts between offsets and positions as the bytes of its text have it
(`lineIndex_faithful`), as far as its sums stay within the bounds of offsets. They do for the
positions of all offsets but one: the end of the longest text of nothing but line feeds is on a line
whose number is `maxOffset`, and its offset is lost in the number of the line after it
(`not_forall_offset?_position`). Two things are shown apart from each other.

What the conversions do with any starts of lines that go up from zero (`LineIndex.Ordered`) follows
from one relation: an offset is placed at a position (`LineIndex.PlacedAt`) if it is that many bytes
after the start of the line and before the start of the next one. `position` finds the only position
that an offset is placed at, whichever way the starts are searched, and `offset?` takes it back.

For a text, the starts of lines are zero and the offsets after the bytes that are line feeds. No
other character has such a byte, so this holds inside of characters too.
-/
namespace TextTemplate

/-- The position is further up, or further left on the same line. -/
def Position.Precedes (p q : Position) : Prop :=
  p.line < q.line ∨ p.line = q.line ∧ p.column < q.column

namespace LineIndex

/-! ## Starts of lines -/

/-- Lines start at zero and then further and further on, up to the end of the text. -/
structure Ordered (index : LineIndex) : Prop where
  first : index.starts.head? = some 0
  increasing : index.starts.Pairwise (· < ·)
  bounded : ∀ start ∈ index.starts, start ≤ index.length

/-- The offset is on the line of the position, that many bytes after its start. -/
structure PlacedAt (index : LineIndex) (offset : Nat) (p : Position) : Prop where
  start : ∃ start, index.lineStart? p.line = some start ∧ start + p.column = offset
  next : ∀ next, index.lineStart? (p.line + 1) = some next → offset < next

section Ordered
variable {index : LineIndex} {offset offset' : Nat} {p q : Position}

theorem Ordered.lineStart?_lt (h : index.Ordered) {line line' start start' : Nat}
    (hstart : index.lineStart? line = some start) (hstart' : index.lineStart? line' = some start')
    (hlt : line < line') : start < start' := by
  obtain ⟨hline, rfl⟩ := List.getElem?_eq_some_iff.mp hstart
  obtain ⟨hline', rfl⟩ := List.getElem?_eq_some_iff.mp hstart'
  exact List.pairwise_iff_getElem.mp h.increasing line line' hline hline' hlt

/-- A line has as many lines before it as its start has starts before it. -/
theorem lineStart?_of_append {before after : List Nat} {start : Nat}
    (hstarts : index.starts = before ++ start :: after) :
    index.lineStart? before.length = some start ∧
      index.lineStart? (before.length + 1) = after.head? := by
  rw [lineStart?, lineStart?, hstarts, List.getElem?_append_right (Nat.le_refl _),
    List.getElem?_append_right (Nat.le_add_right _ 1), Nat.sub_self, Nat.add_sub_cancel_left,
    List.head?_eq_getElem?]
  exact ⟨rfl, rfl⟩

theorem PlacedAt.of_append {before after : List Nat} {start : Nat}
    (hstarts : index.starts = before ++ start :: after) (hle : start ≤ offset)
    (hnext : ∀ next ∈ after.head?, offset < next) :
    index.PlacedAt offset ⟨before.length, offset - start⟩ := by
  obtain ⟨hstart, hafter⟩ := lineStart?_of_append hstarts
  exact ⟨⟨start, hstart, Nat.add_sub_cancel' hle⟩, fun next h => hnext next (hafter ▸ h)⟩

/-- The line of an offset is not after the line of a later one. -/
theorem PlacedAt.line_le (hp : index.PlacedAt offset p) (hq : index.PlacedAt offset' q)
    (h : index.Ordered) (hoffsets : offset ≤ offset') : p.line ≤ q.line := by
  by_contra hlt
  obtain ⟨start, hstart, hcolumn⟩ := hp.start
  obtain ⟨hline, -⟩ := List.getElem?_eq_some_iff.mp hstart
  -- then the line after that of the later offset starts at or before the earlier one
  have hle : q.line + 1 ≤ p.line := Nat.not_le.mp hlt
  obtain ⟨next, hnext⟩ : ∃ next, index.lineStart? (q.line + 1) = some next :=
    ⟨_, List.getElem?_eq_getElem (Nat.lt_of_le_of_lt hle hline)⟩
  have hbefore := hq.next next hnext
  rcases Nat.lt_or_eq_of_le hle with hlines | hlines
  · have := h.lineStart?_lt hnext hstart hlines
    omega
  · simp only [← hlines, hnext, Option.some.injEq] at hstart
    omega

/-- Later offsets are placed at later positions. -/
theorem PlacedAt.precedes (hp : index.PlacedAt offset p) (hq : index.PlacedAt offset' q)
    (h : index.Ordered) (hlt : offset < offset') : p.Precedes q := by
  rcases Nat.lt_or_eq_of_le (hp.line_le hq h (Nat.le_of_lt hlt)) with hlines | hlines
  · exact .inl hlines
  · obtain ⟨start, hstart, hcolumn⟩ := hp.start
    obtain ⟨start', hstart', hcolumn'⟩ := hq.start
    rw [hlines, hstart', Option.some.injEq] at hstart
    exact .inr ⟨hlines, by omega⟩

/-- An offset is placed at one position only. -/
theorem PlacedAt.unique (hp : index.PlacedAt offset p) (hq : index.PlacedAt offset q)
    (h : index.Ordered) : p = q := by
  have hlines := Nat.le_antisymm (hp.line_le hq h (Nat.le_refl _)) (hq.line_le hp h (Nat.le_refl _))
  obtain ⟨start, hstart, hcolumn⟩ := hp.start
  obtain ⟨start', hstart', hcolumn'⟩ := hq.start
  rw [hlines, hstart', Option.some.injEq] at hstart
  exact Position.ext hlines (by omega)

end Ordered

/-! ## Conversions -/

section Conversions
variable {index : LineIndex} {offset : Nat} {p : Position}

/-- Some line starts at or before the offset, and the next one after it. -/
theorem Ordered.exists_starts (h : index.Ordered) (offset : Nat) :
    ∃ before start after, index.starts = before ++ start :: after ∧
      index.lineAt offset = before.length ∧ start ≤ offset ∧
        ∀ next ∈ after.head?, offset < next := by
  have hparts := List.takeWhile_append_dropWhile (p := (· ≤ offset)) (l := index.starts)
  have hnext := List.head?_dropWhile_not (· ≤ offset) index.starts
  rcases List.eq_nil_or_concat (index.starts.takeWhile (· ≤ offset)) with hnil | ⟨before, start, hw⟩
  · obtain ⟨starts, hstarts⟩ := List.head?_eq_some_iff.mp h.first
    simp [hstarts] at hnil
  · refine ⟨before, start, index.starts.dropWhile (· ≤ offset), ?_, ?_, ?_, ?_⟩
    · rw [List.append_cons, ← List.concat_eq_append, ← hw, hparts]
    · rw [lineAt, hw, List.length_concat, Nat.add_sub_cancel]
    · have : start ∈ index.starts.takeWhile (· ≤ offset) := by simp [hw]
      simpa using List.mem_takeWhile_imp this
    · intro next hmem
      rw [hmem] at hnext
      simpa using hnext

theorem position_min (index : LineIndex) (offset : Nat) :
    index.position (min offset index.length) = index.position offset := by
  simp only [position, Nat.min_assoc, Nat.min_self]

/-- An offset of the text is placed at its position, and nowhere else. -/
theorem Ordered.position_eq_iff (h : index.Ordered) (hoffset : offset ≤ index.length) :
    index.position offset = p ↔ index.PlacedAt offset p := by
  have hplaced : index.PlacedAt offset (index.position offset) := by
    obtain ⟨before, start, after, hstarts, hline, hle, hnext⟩ := h.exists_starts offset
    have hget : index.starts.getD before.length 0 = start := by
      rw [List.getD_eq_getElem?_getD, ← lineStart?, (lineStart?_of_append hstarts).1]
      rfl
    simp only [position, Nat.min_eq_left hoffset, hline, hget]
    exact .of_append hstarts hle hnext
  exact ⟨fun heq => heq ▸ hplaced, fun hp => hplaced.unique hp h⟩

theorem boundedSum_of_le {a b : Nat} (h : a + b ≤ maxOffset) : boundedSum a b = .ok (a + b) :=
  if_pos h

theorem boundedSum_of_gt {a b : Nat} (h : maxOffset < a + b) :
    boundedSum a b = .error .overflow :=
  if_neg (Nat.not_le.mpr h)

/-- The offset of a position on an existing line: both sums have to stay within the bounds. -/
theorem offset?_of_lineStart? {start : Nat} (h : index.lineStart? p.line = some start) :
    index.offset? p =
      if p.line < maxOffset ∧ start + p.column ≤ maxOffset then
        .ok (some (min (start + p.column) ((index.lineStart? (p.line + 1)).getD index.length)))
      else .error .overflow := by
  rw [offset?, h]
  dsimp only
  by_cases hline : p.line < maxOffset
  · rw [boundedSum_of_le hline]
    by_cases hcolumn : start + p.column ≤ maxOffset
    · rw [boundedSum_of_le hcolumn, if_pos ⟨hline, hcolumn⟩]
      rfl
    · rw [boundedSum_of_gt (Nat.not_le.mp hcolumn), if_neg fun h => hcolumn h.2]
      rfl
  · rw [boundedSum_of_gt (by omega), if_neg fun h => hline h.1]
    rfl

theorem offset?_eq_some_iff {start : Nat} (h : index.lineStart? p.line = some start) :
    index.offset? p = .ok (some offset) ↔
      p.line < maxOffset ∧ start + p.column ≤ maxOffset ∧
        min (start + p.column) ((index.lineStart? (p.line + 1)).getD index.length) = offset := by
  rw [offset?_of_lineStart? h, ← and_assoc]
  split
  case isTrue hbounded => simp [hbounded]
  case isFalse hover => exact iff_of_false nofun fun hbounded => hover hbounded.1

theorem offset?_eq_none_iff : index.offset? p = .ok none ↔ index.lineCount ≤ p.line := by
  rw [lineCount, ← List.getElem?_eq_none_iff, ← lineStart?]
  cases hstart : index.lineStart? p.line with
  | none => simp [offset?, hstart]
  | some start =>
    rw [offset?_of_lineStart? hstart]
    split <;> simp

/-- A sum overflows only on an existing line. -/
theorem offset?_eq_error_iff :
    index.offset? p = .error .overflow ↔ ∃ start, index.lineStart? p.line = some start ∧
      (maxOffset ≤ p.line ∨ maxOffset < start + p.column) := by
  cases hstart : index.lineStart? p.line with
  | none => simp [offset?, hstart]
  | some start =>
    rw [offset?_of_lineStart? hstart]
    split <;> simp <;> omega

/-- An offset of the text is taken back from the position that it is placed at. -/
theorem PlacedAt.offset? (hp : index.PlacedAt offset p) (hoffset : offset ≤ index.length)
    (hlength : index.length ≤ maxOffset) (hline : p.line < maxOffset) :
    index.offset? p = .ok (some offset) := by
  obtain ⟨start, hstart, hcolumn⟩ := hp.start
  have hbound : offset ≤ (index.lineStart? (p.line + 1)).getD index.length := by
    cases hnext : index.lineStart? (p.line + 1) with
    | none => exact hoffset
    | some next => exact Nat.le_of_lt (hp.next next hnext)
  rw [offset?_eq_some_iff hstart, hcolumn]
  exact ⟨hline, hoffset.trans hlength, Nat.min_eq_left hbound⟩

/-- An offset is taken back from its position, and one beyond the text as its end. -/
theorem Ordered.offset?_position (h : index.Ordered) (hlength : index.length ≤ maxOffset)
    (hline : (index.position offset).line < maxOffset) :
    index.offset? (index.position offset) = .ok (some (min offset index.length)) := by
  have hle : min offset index.length ≤ index.length := Nat.min_le_right _ _
  rw [← position_min] at hline ⊢
  exact ((h.position_eq_iff hle).mp rfl).offset? hle hlength hline

/-- On a line that another one follows, the columns before the next start are those of offsets. -/
theorem Ordered.position_of_next (h : index.Ordered) {start next : Nat}
    (hstart : index.lineStart? p.line = some start)
    (hnext : index.lineStart? (p.line + 1) = some next) :
    index.position (min (start + p.column) next) = p ↔ p.column < next - start := by
  have hlt : start < next := h.lineStart?_lt hstart hnext (Nat.lt_succ_self _)
  have hbound : next ≤ index.length := h.bounded next (List.mem_of_getElem? hnext)
  rw [h.position_eq_iff (by omega)]
  constructor
  · intro hp
    obtain ⟨start', hstart', hcolumn⟩ := hp.start
    have := hp.next next hnext
    rw [hstart, Option.some.injEq] at hstart'
    omega
  · intro hcolumn
    refine ⟨⟨start, hstart, by omega⟩, fun next' hnext' => ?_⟩
    rw [hnext, Option.some.injEq] at hnext'
    omega

/-- On the last line, the columns up to the end of the text are those of offsets. -/
theorem Ordered.position_of_last (h : index.Ordered) {start : Nat}
    (hstart : index.lineStart? p.line = some start)
    (hnext : index.lineStart? (p.line + 1) = none) :
    index.position (min (start + p.column) index.length) = p ↔
      p.column ≤ index.length - start := by
  have hbound : start ≤ index.length := h.bounded start (List.mem_of_getElem? hstart)
  rw [h.position_eq_iff (Nat.min_le_right _ _)]
  constructor
  · intro hp
    obtain ⟨start', hstart', hcolumn⟩ := hp.start
    rw [hstart, Option.some.injEq] at hstart'
    omega
  · intro hcolumn
    exact ⟨⟨start, hstart, by omega⟩, fun next hnext' => by rw [hnext] at hnext'; cases hnext'⟩

end Conversions

/-! ## Binary search -/

/-- What a binary search for `x` in a list that goes up can answer: where `x` is, or else where it
could be put in. -/
inductive Found (xs : List Nat) (x : Nat) : Except Nat Nat → Prop
  | hit (before after : List Nat) (h : xs = before ++ x :: after) : Found xs x (.ok before.length)
  | miss (before after : List Nat) (h : xs = before ++ after) (hmem : x ∉ xs)
      (hsorted : (before ++ x :: after).Pairwise (· ≤ ·)) : Found xs x (.error before.length)

/-- There is an answer. -/
theorem exists_found {xs : List Nat} (h : xs.Pairwise (· < ·)) (x : Nat) :
    ∃ answer, Found xs x answer := by
  by_cases hmem : x ∈ xs
  · obtain ⟨before, after, hxs⟩ := List.append_of_mem hmem
    exact ⟨_, .hit before after hxs⟩
  · have hsorted : (xs.orderedInsert (· ≤ ·) x).Pairwise (· ≤ ·) :=
      (h.imp Nat.le_of_lt).orderedInsert x xs
    rw [List.orderedInsert_eq_take_drop] at hsorted
    exact ⟨_, .miss _ _ List.takeWhile_append_dropWhile.symm hmem hsorted⟩

/-- Whatever the search for an offset answers, the last start at or before the offset is where it
says, or just before that. -/
theorem Ordered.exists_starts_of_found {index : LineIndex} (h : index.Ordered) {offset : Nat}
    {answer : Except Nat Nat} (hfound : Found index.starts offset answer) :
    ∃ before start after, index.starts = before ++ start :: after ∧
      (answer = .ok before.length ∨ answer = .error (before.length + 1)) ∧ start ≤ offset ∧
        ∀ next ∈ after.head?, offset < next := by
  cases hfound with
  | hit before after hstarts =>
    refine ⟨before, offset, after, hstarts, .inl rfl, Nat.le_refl _, fun next hnext => ?_⟩
    have hincreasing := h.increasing
    rw [hstarts, List.pairwise_append, List.pairwise_cons] at hincreasing
    exact hincreasing.2.1.1 next (List.mem_of_mem_head? hnext)
  | miss before after hstarts hmem hsorted =>
    obtain ⟨-, hafter, hcross⟩ := List.pairwise_append.mp hsorted
    have hnext : ∀ next ∈ after.head?, offset < next := by
      intro next hnext
      have hin := List.mem_of_mem_head? hnext
      refine Nat.lt_of_le_of_ne ((List.pairwise_cons.mp hafter).1 next hin) ?_
      rintro rfl
      exact hmem (hstarts ▸ List.mem_append_right _ hin)
    rcases List.eq_nil_or_concat before with rfl | ⟨before, start, rfl⟩
    · -- nothing is put in front of the first line
      have hfirst := h.first
      rw [hstarts, List.nil_append] at hfirst
      exact absurd (hnext 0 hfirst) (Nat.not_lt_zero _)
    · rw [List.concat_eq_append] at hstarts hcross ⊢
      refine ⟨before, start, after, (List.append_cons ..).symm ▸ hstarts, .inr (by simp), ?_, hnext⟩
      exact hcross start (by simp) offset List.mem_cons_self

/-- Whatever the search for an offset answers, there is a line to take the position from. -/
theorem Ordered.position_of_found {index : LineIndex} (h : index.Ordered) {offset : Nat}
    (hoffset : offset ≤ index.length) {answer : Except Nat Nat}
    (hfound : Found index.starts offset answer) :
    ∃ line start, (answer = .ok line ∨ answer = .error (line + 1)) ∧
      index.lineStart? line = some start ∧ start ≤ offset ∧
      index.position offset = ⟨line, offset - start⟩ := by
  obtain ⟨before, start, after, hstarts, hanswer, hle, hnext⟩ := h.exists_starts_of_found hfound
  refine ⟨before.length, start, hanswer, (lineStart?_of_append hstarts).1, hle, ?_⟩
  rw [h.position_eq_iff hoffset]
  exact .of_append hstarts hle hnext

end LineIndex

/-! ## Lines of bytes -/

/-- The byte that ends a line. -/
def lineFeed : UInt8 := 0x0A

/-- The bytes of the characters. -/
def utf8Bytes (cs : List Char) : List UInt8 :=
  cs.flatMap String.utf8EncodeChar

theorem toList_toUTF8 (text : String) : text.toUTF8.data.toList = utf8Bytes text.toList := by
  rw [String.toUTF8_eq_toByteArray, ← String.utf8Encode_toList]
  simp [List.utf8Encode, utf8Bytes]

theorem utf8Bytes_cons (c : Char) (cs : List Char) :
    utf8Bytes (c :: cs) = String.utf8EncodeChar c ++ utf8Bytes cs :=
  List.flatMap_cons

@[simp]
theorem length_utf8Bytes (cs : List Char) : (utf8Bytes cs).length = byteLength cs := by
  induction cs with
  | nil => rfl
  | cons c cs ih =>
    rw [utf8Bytes_cons, List.length_append, String.length_utf8EncodeChar, ih, byteLength_cons]

/-- No character but the line feed has a byte that is one. -/
theorem ne_lineFeed_of_mem {c : Char} (hc : c ≠ '\n') {b : UInt8}
    (hb : b ∈ String.utf8EncodeChar c) : b ≠ lineFeed := by
  have hne {n : Nat} (h : n % 256 ≠ 10) : UInt8.ofNat n ≠ lineFeed := by
    intro heq
    exact h (by simpa [lineFeed] using congrArg UInt8.toNat heq)
  have hcode : c.val.toNat ≠ 10 := fun h => hc (Char.ext (UInt32.toNat_inj.mp h))
  -- the bytes of a character of several bytes are not among those of characters of one byte
  unfold String.utf8EncodeChar at hb
  extract_lets at hb
  split_ifs at hb <;> simp only [List.mem_cons, List.not_mem_nil, or_false] at hb
  · exact hb ▸ hne (by omega)
  · rcases hb with rfl | rfl <;> exact hne (by omega)
  · rcases hb with rfl | rfl | rfl <;> exact hne (by omega)
  · rcases hb with rfl | rfl | rfl | rfl <;> exact hne (by omega)

namespace LineIndex

/-- Lines start after the bytes that are line feeds. -/
theorem startsAfter_eq_findIdxs (offset : Nat) (cs : List Char) :
    startsAfter offset cs = (utf8Bytes cs).findIdxs (· == lineFeed) (offset + 1) := by
  induction cs generalizing offset with
  | nil => rfl
  | cons c cs ih =>
    rw [utf8Bytes_cons, List.findIdxs_append, String.length_utf8EncodeChar, startsAfter, ih,
      Nat.add_right_comm]
    by_cases hc : c = '\n'
    · subst hc
      rfl
    · have hnone : (String.utf8EncodeChar c).findIdxs (· == lineFeed) (offset + 1) = [] := by
        rw [List.findIdxs_eq_nil_iff]
        intro b hb
        simpa using ne_lineFeed_of_mem hc hb
      rw [if_neg hc, hnone, List.nil_append]

/-- The lines of a text with the bytes. -/
structure OfBytes (index : LineIndex) (bytes : List UInt8) : Prop where
  starts : index.starts = 0 :: bytes.findIdxs (· == lineFeed) 1
  length : index.length = bytes.length

theorem ofBytes_ofChars (cs : List Char) : (ofChars cs).OfBytes (utf8Bytes cs) :=
  ⟨congrArg (0 :: ·) (startsAfter_eq_findIdxs 0 cs), (length_utf8Bytes cs).symm⟩

section OfBytes
variable {index : LineIndex} {bytes : List UInt8}

theorem OfBytes.lineCount_eq (h : index.OfBytes bytes) :
    index.lineCount = bytes.count lineFeed + 1 := by
  rw [lineCount, h.starts, List.length_cons, List.length_findIdxs]
  rfl

theorem OfBytes.ordered (h : index.OfBytes bytes) : index.Ordered where
  first := by rw [h.starts, List.head?_cons]
  increasing := by
    rw [h.starts, List.pairwise_cons]
    exact ⟨fun start hstart => List.ge_of_mem_findIdxs start hstart, List.pairwise_findIdxs⟩
  bounded := by
    intro start hstart
    rw [h.starts] at hstart
    rcases List.mem_cons.mp hstart with rfl | hstart
    · exact Nat.zero_le _
    · have := List.lt_add_of_mem_findIdxs start hstart
      rw [h.length]
      omega

/-- The last line of the bytes starts so many bytes before their end as they have after the last
line feed. -/
theorem exists_last_start (bytes : List UInt8) :
    ∃ before start, 0 :: bytes.findIdxs (· == lineFeed) 1 = before ++ [start] ∧
      before.length = bytes.count lineFeed ∧
      start + (bytes.rtakeWhile (· ≠ lineFeed)).length = bytes.length := by
  induction bytes using List.reverseRecOn with
  | nil => exact ⟨[], 0, rfl, rfl, rfl⟩
  | append_singleton bytes b ih =>
    obtain ⟨before, start, hstarts, hcount, hlength⟩ := ih
    rw [List.findIdxs_append, ← List.cons_append, hstarts, List.findIdxs_singleton,
      List.count_append, ← hcount]
    by_cases hb : b = lineFeed
    · subst hb
      refine ⟨before ++ [start], 1 + bytes.length, by simp, by simp, ?_⟩
      rw [List.rtakeWhile_concat_neg _ _ _ (by simp), List.length_append, Nat.add_comm 1]
      rfl
    · refine ⟨before, start, by simp [hb], by simp [hb], ?_⟩
      rw [List.rtakeWhile_concat_pos _ _ _ (by simp [hb]), List.length_append, List.length_append,
        ← hlength]
      exact (Nat.add_assoc ..).symm

/-- An offset is placed on the line after all line feeds before it, and there as many bytes from the
start as are between the last of them and the offset. -/
theorem OfBytes.placedAt (h : index.OfBytes bytes) (offset : Nat) :
    index.PlacedAt (min offset bytes.length)
      ⟨(bytes.take offset).count lineFeed,
        ((bytes.take offset).rtakeWhile (· ≠ lineFeed)).length⟩ := by
  obtain ⟨before, start, hfront, hcount, hlength⟩ := exists_last_start (bytes.take offset)
  rw [List.length_take] at hlength
  have hstarts : index.starts = before ++ start ::
      (bytes.drop offset).findIdxs (· == lineFeed) (1 + min offset bytes.length) := by
    calc index.starts
        = 0 :: (bytes.take offset ++ bytes.drop offset).findIdxs (· == lineFeed) 1 := by
          rw [List.take_append_drop, h.starts]
      _ = (before ++ [start]) ++ _ := by
          rw [List.findIdxs_append, ← List.cons_append, hfront, List.length_take]
      _ = before ++ start :: _ := (List.append_cons ..).symm
  have hplaced : index.PlacedAt (min offset bytes.length)
      ⟨before.length, min offset bytes.length - start⟩ := by
    refine .of_append hstarts (by omega) fun next hnext => ?_
    have := List.ge_of_mem_findIdxs next (List.mem_of_mem_head? hnext)
    omega
  have hcolumn : min offset bytes.length - start =
      ((bytes.take offset).rtakeWhile (· ≠ lineFeed)).length := by omega
  rwa [hcount, hcolumn] at hplaced

theorem OfBytes.position_eq (h : index.OfBytes bytes) (offset : Nat) :
    index.position offset =
      ⟨(bytes.take offset).count lineFeed,
        ((bytes.take offset).rtakeWhile (· ≠ lineFeed)).length⟩ := by
  rw [← position_min, h.ordered.position_eq_iff (Nat.min_le_right _ _), h.length]
  exact h.placedAt offset

/-- Lines and columns are not beyond the length of the text. -/
theorem OfBytes.position_le (h : index.OfBytes bytes) (offset : Nat) :
    (index.position offset).line ≤ bytes.length ∧
      (index.position offset).column ≤ bytes.length := by
  have htake : (bytes.take offset).length ≤ bytes.length := List.length_take_le' _ _
  rw [h.position_eq]
  exact ⟨List.count_le_length.trans htake, (List.rtakeWhile_suffix _ _).length_le.trans htake⟩

/-- As many line feeds as there can be bytes leave room for nothing else. -/
theorem maxOffset_le_count_iff (hlen : bytes.length ≤ maxOffset) :
    maxOffset ≤ bytes.count lineFeed ↔ bytes = List.replicate maxOffset lineFeed := by
  have hcount : bytes.count lineFeed ≤ bytes.length := List.count_le_length
  constructor
  · intro hle
    have hall : bytes.count lineFeed = bytes.length := by omega
    rw [List.count_eq_length] at hall
    exact List.eq_replicate_iff.mpr ⟨by omega, fun b hb => (hall b hb).symm⟩
  · intro hbytes
    rw [hbytes, List.count_replicate_self]

theorem maxOffset_le_count_take_iff (hlen : bytes.length ≤ maxOffset) (offset : Nat) :
    maxOffset ≤ (bytes.take offset).count lineFeed ↔
      maxOffset ≤ offset ∧ bytes = List.replicate maxOffset lineFeed := by
  rw [maxOffset_le_count_iff ((List.length_take_le' _ _).trans hlen)]
  constructor
  · intro htake
    have hlength := congrArg List.length htake
    rw [List.length_take, List.length_replicate] at hlength
    rw [List.take_of_length_le (by omega)] at htake
    exact ⟨by omega, htake⟩
  · rintro ⟨hle, hbytes⟩
    rw [List.take_of_length_le (hlen.trans hle), hbytes]

/-- A line that another one follows has a number for that one. -/
theorem OfBytes.line_lt_of_next (h : index.OfBytes bytes) (hlen : bytes.length ≤ maxOffset)
    {line next : Nat} (hnext : index.lineStart? (line + 1) = some next) : line < maxOffset := by
  have hcount : bytes.count lineFeed ≤ bytes.length := List.count_le_length
  obtain ⟨hline, -⟩ := List.getElem?_eq_some_iff.mp hnext
  rw [← lineCount, h.lineCount_eq] at hline
  omega

/-- An offset is taken back from its position, as long as the line after it has a number. -/
theorem OfBytes.offset?_position (h : index.OfBytes bytes) (hlen : bytes.length ≤ maxOffset)
    (offset : Nat) :
    index.offset? (index.position offset) =
      if maxOffset ≤ offset ∧ bytes = List.replicate maxOffset lineFeed then .error .overflow
      else .ok (some (min offset bytes.length)) := by
  have hline : maxOffset ≤ (index.position offset).line ↔
      maxOffset ≤ offset ∧ bytes = List.replicate maxOffset lineFeed := by
    rw [h.position_eq, maxOffset_le_count_take_iff hlen]
  by_cases hover : maxOffset ≤ (index.position offset).line
  · have hplaced := h.placedAt offset
    rw [← h.position_eq] at hplaced
    obtain ⟨start, hstart, -⟩ := hplaced.start
    rw [if_pos (hline.mp hover)]
    exact offset?_eq_error_iff.mpr ⟨start, hstart, .inl hover⟩
  · rw [if_neg (mt hline.mpr hover), ← h.length]
    exact h.ordered.offset?_position (h.length ▸ hlen) (Nat.not_le.mp hover)

end OfBytes

/-- The index converts between offsets and positions as the bytes of the text have it, and says so
where a sum on the way overflows. -/
structure Faithful (index : LineIndex) (bytes : List UInt8) : Prop where
  length_eq : index.length = bytes.length
  /-- There is one more line than there are line feeds. -/
  lineCount_eq : index.lineCount = bytes.count lineFeed + 1
  /-- The line of an offset counts the line feeds before it, the column the bytes since the last of
  them. An offset beyond the text counts as its end. -/
  position_eq : ∀ offset, index.position offset =
    ⟨(bytes.take offset).count lineFeed, ((bytes.take offset).rtakeWhile (· ≠ lineFeed)).length⟩
  /-- Lines and columns are within the bounds of offsets. -/
  fits : ∀ offset,
    (index.position offset).line ≤ maxOffset ∧ (index.position offset).column ≤ maxOffset
  /-- A line without a number for the line after it is the last one of a text that is as long as it
  can be and has nothing but line feeds. -/
  overlong : ∀ line, maxOffset ≤ line →
    (line < index.lineCount ↔ line = maxOffset ∧ bytes = List.replicate maxOffset lineFeed)
  /-- A binary search for the offset answers something, and whatever it answers, there is a line to
  take the position from that starts at or before the offset. -/
  search : ∀ offset,
    (∃ answer, Found index.starts (min offset bytes.length) answer) ∧
      ∀ answer, Found index.starts (min offset bytes.length) answer →
        ∃ line start, (answer = .ok line ∨ answer = .error (line + 1)) ∧
          index.lineStart? line = some start ∧ start ≤ min offset bytes.length ∧
          index.position offset = ⟨line, min offset bytes.length - start⟩
  /-- Positions are taken back to their offsets, all but the one at the end of that text. -/
  offset?_position : ∀ offset, index.offset? (index.position offset) =
    if maxOffset ≤ offset ∧ bytes = List.replicate maxOffset lineFeed then .error .overflow
    else .ok (some (min offset bytes.length))
  /-- Later offsets have later positions. -/
  increasing : ∀ offset offset', offset < offset' → offset' ≤ bytes.length →
    (index.position offset).Precedes (index.position offset')
  /-- Positions have no offsets if and only if their lines do not exist. -/
  offset?_eq_none : ∀ p, index.offset? p = .ok none ↔ index.lineCount ≤ p.line
  /-- On an existing line there is no answer if and only if the line after it has no number or the
  column is beyond the bounds of offsets. -/
  offset?_eq_error : ∀ p, index.offset? p = .error .overflow ↔
    ∃ start, index.lineStart? p.line = some start ∧
      (maxOffset ≤ p.line ∨ maxOffset < start + p.column)
  /-- Columns further on have no earlier offsets. -/
  monotone : ∀ line start column column' offset offset', index.lineStart? line = some start →
    column ≤ column' → start + column' ≤ maxOffset →
    index.offset? ⟨line, column⟩ = .ok (some offset) →
    index.offset? ⟨line, column'⟩ = .ok (some offset') → offset ≤ offset'
  /-- On a line that another one follows, offsets are not beyond the start of that one, and the
  columns before it are those of offsets. -/
  inner : ∀ line start next column, index.lineStart? line = some start →
    index.lineStart? (line + 1) = some next → start + column ≤ maxOffset →
    ∃ offset ≤ next, index.offset? ⟨line, column⟩ = .ok (some offset) ∧
      (index.position offset = ⟨line, column⟩ ↔ column < next - start)
  /-- On a last line that could be followed by another one, offsets are not beyond the end of the
  text, and the columns up to it are those of offsets. -/
  last : ∀ line start column, index.lineStart? line = some start →
    index.lineStart? (line + 1) = none → line < maxOffset → start + column ≤ maxOffset →
    ∃ offset ≤ bytes.length, index.offset? ⟨line, column⟩ = .ok (some offset) ∧
      (index.position offset = ⟨line, column⟩ ↔ column ≤ bytes.length - start)

theorem OfBytes.faithful {index : LineIndex} {bytes : List UInt8} (h : index.OfBytes bytes)
    (hlen : bytes.length ≤ maxOffset) : index.Faithful bytes where
  length_eq := h.length
  lineCount_eq := h.lineCount_eq
  position_eq := h.position_eq
  fits offset := (h.position_le offset).imp hlen.trans' hlen.trans'
  overlong line hle := by
    have hcount : bytes.count lineFeed ≤ bytes.length := List.count_le_length
    rw [h.lineCount_eq, ← maxOffset_le_count_iff hlen]
    omega
  search offset := by
    refine ⟨exists_found h.ordered.increasing _, fun answer hfound => ?_⟩
    have := h.ordered.position_of_found (h.length ▸ Nat.min_le_right _ _) hfound
    rwa [← h.length, position_min, h.length] at this
  offset?_position := h.offset?_position hlen
  increasing offset offset' hlt hle := by
    have hplaced {o : Nat} (ho : o ≤ index.length) : index.PlacedAt o (index.position o) :=
      (h.ordered.position_eq_iff ho).mp rfl
    rw [← h.length] at hle
    exact (hplaced (by omega)).precedes (hplaced hle) h.ordered hlt
  offset?_eq_none _ := offset?_eq_none_iff
  offset?_eq_error _ := offset?_eq_error_iff
  monotone line start column column' offset offset' hstart hle _ hoffset hoffset' := by
    obtain ⟨-, -, rfl⟩ := (offset?_eq_some_iff hstart).mp hoffset
    obtain ⟨-, -, rfl⟩ := (offset?_eq_some_iff hstart).mp hoffset'
    dsimp only
    omega
  inner line start next column hstart hnext hcolumn := by
    refine ⟨_, Nat.min_le_right _ next, ?_, h.ordered.position_of_next hstart hnext⟩
    rw [offset?_eq_some_iff hstart, hnext]
    exact ⟨h.line_lt_of_next hlen hnext, hcolumn, rfl⟩
  last line start column hstart hnext hline hcolumn := by
    rw [← h.length]
    refine ⟨_, Nat.min_le_right _ index.length, ?_, h.ordered.position_of_last hstart hnext⟩
    rw [offset?_eq_some_iff hstart, hnext]
    exact ⟨hline, hcolumn, rfl⟩

end LineIndex

/-- **Lines and columns.** The line index of a text whose end is within the bounds of offsets
converts between offsets and positions as the bytes of the text have it. -/
theorem lineIndex_faithful (text : String) (hlen : byteLength text.toList ≤ maxOffset) :
    (LineIndex.ofText text).Faithful text.toUTF8.data.toList := by
  rw [toList_toUTF8]
  apply (LineIndex.ofBytes_ofChars text.toList).faithful
  rwa [length_utf8Bytes]

/-- A letter of two bytes, an empty line and a last line. -/
theorem lineIndex_faithful_empty_line :
    byteLength "é\n\nb".toList ≤ maxOffset ∧
      (LineIndex.ofText "é\n\nb").Faithful "é\n\nb".toUTF8.data.toList :=
  ⟨by decide, lineIndex_faithful "é\n\nb" (by decide)⟩

/-! ## The line without a next one -/

theorem utf8Bytes_replicate_lineFeed (count : Nat) :
    utf8Bytes (List.replicate count '\n') = List.replicate count lineFeed := by
  induction count with
  | zero => rfl
  | succ count ih =>
    rw [List.replicate_succ, utf8Bytes_cons, ih, List.replicate_succ]
    rfl

/-- An offset is not always taken back from its position: in the longest text of line feeds within
the bounds of offsets, the end is the start of the line numbered `maxOffset`. -/
theorem not_forall_offset?_position :
    ¬ ∀ (text : String) (offset : Nat), byteLength text.toList ≤ maxOffset →
      (LineIndex.ofText text).offset? ((LineIndex.ofText text).position offset) =
        .ok (some (min offset (byteLength text.toList))) := by
  intro hall
  -- the characters go by a name, so that nothing evaluates so long a list
  obtain ⟨cs, hcs⟩ : ∃ cs, cs = List.replicate maxOffset '\n' := ⟨_, rfl⟩
  have htext : (String.ofList cs).toList = cs := String.toList_ofList
  have hbytes : utf8Bytes cs = List.replicate maxOffset lineFeed := by
    rw [hcs, utf8Bytes_replicate_lineFeed]
  have hlen : byteLength cs = maxOffset := by
    rw [← length_utf8Bytes, hbytes, List.length_replicate]
  have hindex : (LineIndex.ofChars cs).OfBytes (utf8Bytes cs) := LineIndex.ofBytes_ofChars cs
  have hoverflow := hindex.offset?_position (length_utf8Bytes cs ▸ hlen.le) maxOffset
  rw [if_pos ⟨le_rfl, hbytes⟩] at hoverflow
  have hok := hall (String.ofList cs) maxOffset (htext.symm ▸ hlen.le)
  rw [LineIndex.ofText, htext, hoverflow] at hok
  cases hok

end TextTemplate
