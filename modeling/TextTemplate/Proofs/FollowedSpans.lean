import Mathlib.Algebra.Group.Nat.Defs
import Mathlib.Data.List.Induction
import Mathlib.Data.List.Infix
import TextTemplate.Document.Tracking
import TextTemplate.Proofs.EditedTexts
import TextTemplate.Proofs.Places

/-!
# Followed spans

A span that fits a text still fits the text after an edit, where it has those bytes of before that
the edit has left in it. The bytes put in belong to it as a whole or not at all, and they do if the
edit touches the span (`Edit.Touches`). `Edit.Carries` puts this together, and `Span.follow` keeps
it for one edit (`carries_follow`), `Span.followAll` for each of a list (`followAll_tracks`).

There is one exception. An edit whose parts add up to more than `maxOffset` removes what there is,
but an offset behind it is moved back by all of its length. Only the end of a text of `maxOffset`
bytes is behind such an edit (`not_forall_carries_follow`).
-/
namespace TextTemplate

/-! ## Spans of a text -/

namespace Span

/-- Both ends of the span are between two characters of the text, or at an end of it. -/
structure FitsIn (s : Span) (cs : List Char) : Prop where
  start_onBoundary : onBoundary cs s.start = true
  stop_onBoundary : onBoundary cs s.stop = true

/-- A span that is not empty has a byte, if its parts do not add up to too much. -/
theorem start_lt_stop_or_eq {s : Span} (h : s.isEmpty = false) :
    s.start < s.stop ∨ s.stop = maxOffset := by
  have hstart := s.start_le
  have hne : s.length ≠ 0 := by simpa [isEmpty] using h
  simp only [stop]
  omega

end Span

namespace Edit

/-- The edit removes a byte of the span, or puts its text in between two of them. -/
def Touches (edit : Edit) (s : Span) : Prop :=
  (∃ offset, edit.span.HasByte offset ∧ s.HasByte offset) ∨
    s.start < edit.span.start ∧ edit.span.start < s.stop

/-- The end of the edit is cut off at `maxOffset`, and the offset is there. -/
def CutOffAt (edit : Edit) (offset : Nat) : Prop :=
  maxOffset < edit.span.start + edit.span.length ∧ maxOffset ≤ offset

/-- The edit of `cs` moves the span `s` to the span `t`. -/
structure Carries (edit : Edit) (cs : List Char) (s t : Span) : Prop where
  fitsIn : t.FitsIn (edit.replacement cs)
  /-- What stands in front of the edit stays, and is in the one span as it is in the other. -/
  before_iff : ∀ offset < edit.span.start, t.HasByte offset ↔ s.HasByte offset
  /-- What stands behind the edit comes to stand behind the text put in. -/
  after_iff : ∀ count, edit.span.stop + count < byteLength cs →
    (t.HasByte (edit.span.start + byteLength edit.text.toList + count) ↔
      s.HasByte (edit.span.stop + count))
  /-- The text put in belongs to a span that the edit touches. -/
  inserted_of_touches : s.isEmpty = false → edit.Touches s →
    ∀ count < byteLength edit.text.toList, t.HasByte (edit.span.start + count)
  /-- It does not belong to any other. -/
  not_inserted_of_not_touches : s.isEmpty = false → ¬ edit.Touches s →
    ∀ count < byteLength edit.text.toList, ¬ t.HasByte (edit.span.start + count)

/-! ## One edit -/

section Ends
variable (edit : Edit) (s : Span) {offset : Nat}

theorem moveStart_le (h : offset ≤ maxOffset) : edit.moveStart offset ≤ maxOffset := by
  rw [moveStart]
  split
  · exact h
  · split
    · exact Nat.min_le_right _ _
    · exact edit.span.start_le

theorem moveStop_le (h : offset ≤ maxOffset) : edit.moveStop offset ≤ maxOffset := by
  rw [moveStop]
  split
  · exact h
  · split <;> exact Nat.min_le_right _ _

theorem start_follow : (s.follow edit).start = edit.moveStart s.start :=
  Span.start_ofBounds (edit.moveStart_le s.start_le)

theorem stop_follow :
    (s.follow edit).stop = max (edit.moveStop s.stop) (edit.moveStart s.start) :=
  Span.stop_ofBounds (Nat.le_max_right _ _)
    (Nat.max_le.mpr ⟨edit.moveStop_le s.stop_le, edit.moveStart_le s.start_le⟩)

/-- A followed span is not cut off. -/
theorem start_add_length_follow :
    (s.follow edit).start + (s.follow edit).length = (s.follow edit).stop := by
  have hlength : (s.follow edit).length =
      max (edit.moveStop s.stop) (edit.moveStart s.start) - edit.moveStart s.start :=
    Span.length_ofBounds
      (Nat.max_le.mpr ⟨edit.moveStop_le s.stop_le, edit.moveStart_le s.start_le⟩)
  rw [start_follow, stop_follow, hlength]
  omega

end Ends

section One
variable {edit : Edit} {cs : List Char} {s : Span} {offset : Nat}

theorem touches_iff :
    edit.Touches s ↔
      max s.start edit.span.start < min s.stop edit.span.stop ∨
        s.start < edit.span.start ∧ edit.span.start < s.stop := by
  refine or_congr ⟨?_, fun h => ?_⟩ Iff.rfl
  · rintro ⟨offset, ⟨hstart, hstop⟩, hstart', hstop'⟩
    omega
  · exact ⟨max s.start edit.span.start, ⟨by omega, by omega⟩, by omega, by omega⟩

theorem byteLength_replacement (h : edit.Fits cs) :
    byteLength (edit.replacement cs) + edit.span.stop =
      edit.span.start + byteLength edit.text.toList + byteLength cs := by
  obtain ⟨before, removed, after, rfl, hstart, hstop, hreplacement⟩ := h.exists_parts
  rw [hreplacement, ← hstart, ← hstop]
  simp only [byteLength_append]
  omega

/-- A boundary up to the edit stays one. -/
theorem onBoundary_replacement_of_le (h : edit.Fits cs) (hoffset : onBoundary cs offset = true)
    (hle : offset ≤ edit.span.start) : onBoundary (edit.replacement cs) offset = true := by
  obtain ⟨before, removed, after, rfl, hstart, -, hreplacement⟩ := h.exists_parts
  rw [hreplacement]
  rw [← hstart] at hle
  exact (onBoundary_append_of_le hle).mpr ((onBoundary_append_of_le hle).mp hoffset)

/-- A boundary behind the edit is one behind the text put in. -/
theorem onBoundary_replacement_of_ge (h : edit.Fits cs) (hoffset : onBoundary cs offset = true)
    (hle : edit.span.stop ≤ offset) :
    onBoundary (edit.replacement cs)
      (edit.span.start + byteLength edit.text.toList + (offset - edit.span.stop)) = true := by
  obtain ⟨before, removed, after, rfl, hstart, hstop, hreplacement⟩ := h.exists_parts
  obtain ⟨count, rfl⟩ := Nat.exists_eq_add_of_le hle
  rw [← hstop, ← List.append_assoc, onBoundary_append_add] at hoffset
  rw [hreplacement, ← hstart, ← List.append_assoc, ← byteLength_append, Nat.add_sub_cancel_left]
  exact onBoundary_append_add.mpr hoffset

/-- Where the start of a followed span comes to in the new text. -/
inductive StartMoves (edit : Edit) (offset : Nat) : Nat → Prop
  | before (h : offset < edit.span.start) : StartMoves edit offset offset
  | inside (hstart : edit.span.start ≤ offset) (hstop : offset < edit.span.stop) :
      StartMoves edit offset edit.span.start
  | after (h : edit.span.stop ≤ offset) :
      StartMoves edit offset
        (edit.span.start + byteLength edit.text.toList + (offset - edit.span.stop))

/-- Where the end of a followed span comes to in the new text. -/
inductive StopMoves (edit : Edit) (offset : Nat) : Nat → Prop
  | before (h : offset ≤ edit.span.start) : StopMoves edit offset offset
  | inside (hstart : edit.span.start < offset) (hstop : offset < edit.span.stop) :
      StopMoves edit offset (edit.span.start + byteLength edit.text.toList)
  | after (hstart : edit.span.start < offset) (hstop : edit.span.stop ≤ offset) :
      StopMoves edit offset
        (edit.span.start + byteLength edit.text.toList + (offset - edit.span.stop))

section Offsets
variable (h : edit.Fits cs) (hoffset : onBoundary cs offset = true)
  (hlen : byteLength (edit.replacement cs) ≤ maxOffset)
  (hcut : ¬ edit.CutOffAt offset)
include h hoffset hlen hcut

theorem shift_eq (hle : edit.span.stop ≤ offset) :
    edit.shift offset =
      edit.span.start + byteLength edit.text.toList + (offset - edit.span.stop) := by
  have hbound := le_of_onBoundary hoffset
  have hreplacement := byteLength_replacement h
  -- the end is not cut off, so the edit is as long as what it removes
  have hstop : edit.span.stop = edit.span.start + edit.span.length := by
    rw [CutOffAt] at hcut
    simp only [Span.stop] at hle ⊢
    omega
  rw [shift, inserted]
  omega

theorem startMoves : edit.StartMoves offset (edit.moveStart offset) := by
  rw [moveStart]
  split
  case isTrue hlt => exact .before hlt
  case isFalse hge =>
    split
    case isTrue hle =>
      rw [shift_eq h hoffset hlen hcut hle]
      exact .after hle
    case isFalse hlt => exact .inside (by omega) (by omega)

theorem stopMoves : edit.StopMoves offset (edit.moveStop offset) := by
  rw [moveStop]
  split
  case isTrue hle => exact .before hle
  case isFalse hlt =>
    split
    case isTrue hle =>
      rw [shift_eq h hoffset hlen hcut hle]
      exact .after (by omega) hle
    case isFalse hlt' =>
      have hbound := byteLength_replacement h
      have hstop := h.stop_le
      rw [inserted, Nat.min_eq_left (by omega), Nat.min_eq_left (by omega)]
      exact .inside (by omega) (by omega)

end Offsets

theorem StartMoves.onBoundary_replacement {moved : Nat} (hmoves : edit.StartMoves offset moved)
    (h : edit.Fits cs) (hoffset : onBoundary cs offset = true) :
    onBoundary (edit.replacement cs) moved = true := by
  cases hmoves with
  | before hlt => exact onBoundary_replacement_of_le h hoffset (Nat.le_of_lt hlt)
  | inside => exact onBoundary_replacement_of_le h h.start_onBoundary Nat.le.refl
  | after hle => exact onBoundary_replacement_of_ge h hoffset hle

theorem StopMoves.onBoundary_replacement {moved : Nat} (hmoves : edit.StopMoves offset moved)
    (h : edit.Fits cs) (hoffset : onBoundary cs offset = true) :
    onBoundary (edit.replacement cs) moved = true := by
  cases hmoves with
  | before hle => exact onBoundary_replacement_of_le h hoffset hle
  | inside =>
    have hstop := onBoundary_replacement_of_ge h h.stop_onBoundary Nat.le.refl
    rwa [Nat.sub_self, Nat.add_zero] at hstop
  | after _ hle => exact onBoundary_replacement_of_ge h hoffset hle

theorem follow_ends (h : edit.Fits cs) (hs : s.FitsIn cs)
    (hlen : byteLength (edit.replacement cs) ≤ maxOffset)
    (hcut : ¬ edit.CutOffAt s.stop) :
    ∃ start stop, edit.StartMoves s.start start ∧ edit.StopMoves s.stop stop ∧
      (s.follow edit).start = start ∧ (s.follow edit).stop = max stop start := by
  have hle := s.start_le_stop
  have hcut_start : ¬ edit.CutOffAt s.start :=
    fun ⟨hlong, hreach⟩ => hcut ⟨hlong, Nat.le_trans hreach hle⟩
  have hstart := startMoves h hs.start_onBoundary hlen hcut_start
  have hstop := stopMoves h hs.stop_onBoundary hlen hcut
  exact ⟨_, _, hstart, hstop, edit.start_follow s, edit.stop_follow s⟩

theorem carries_follow (h : edit.Fits cs) (hs : s.FitsIn cs)
    (hlen : byteLength (edit.replacement cs) ≤ maxOffset)
    (hcut : ¬ edit.CutOffAt s.stop) :
    edit.Carries cs s (s.follow edit) := by
  obtain ⟨start, stop, hstart, hstop, hfstart, hfstop⟩ := follow_ends h hs hlen hcut
  have hle := s.start_le_stop
  have hedit := edit.span.start_le_stop
  refine ⟨⟨?_, ?_⟩, ?_, ?_, ?_, ?_⟩
  · rw [hfstart]
    exact hstart.onBoundary_replacement h hs.start_onBoundary
  · rw [hfstop]
    rcases Nat.le_total stop start with hmax | hmax
    · rw [Nat.max_eq_right hmax]
      exact hstart.onBoundary_replacement h hs.start_onBoundary
    · rw [Nat.max_eq_left hmax]
      exact hstop.onBoundary_replacement h hs.stop_onBoundary
  · intro offset hoffset
    rw [Span.HasByte, Span.HasByte, hfstart, hfstop]
    cases hstart <;> cases hstop <;> omega
  · intro count hcount
    rw [Span.HasByte, Span.HasByte, hfstart, hfstop]
    cases hstart <;> cases hstop <;> omega
  · intro hne htouches count hcount
    rw [touches_iff] at htouches
    rw [Span.HasByte, hfstart, hfstop]
    cases hstart <;> cases hstop <;> omega
  · intro hne htouches count hcount
    have hbyte := Span.start_lt_stop_or_eq hne
    have hmax := edit.span.stop_le
    rw [touches_iff] at htouches
    rw [Span.HasByte, hfstart, hfstop]
    cases hstart <;> cases hstop <;> omega

end One

/-! ## Lists of edits -/

section Many
variable {edits : List Edit} {cs : List Char} {s : Span}
  (hfit : FitInTurn edits cs) (hs : s.FitsIn cs)
  (hlen : ∀ before, before <+: edits → byteLength (textAfter before cs) ≤ maxOffset)
  (hcut : ∀ before edit after, edits = before ++ edit :: after →
    ¬ edit.CutOffAt (s.followAll before).stop)

theorem textAfter_concat (before : List Edit) (edit : Edit) :
    textAfter (before ++ [edit]) cs = edit.replacement (textAfter before cs) := by
  rw [textAfter, List.foldl_append]
  rfl

theorem followAll_concat (before : List Edit) (edit : Edit) :
    s.followAll (before ++ [edit]) = (s.followAll before).follow edit := by
  rw [Span.followAll, List.foldl_append]
  rfl

include hfit hlen hcut

/-- One edit of the list, when the ones before it have been followed. -/
theorem carries_followAll {before after : List Edit} {edit : Edit}
    (hedits : edits = before ++ edit :: after)
    (hs : (s.followAll before).FitsIn (textAfter before cs)) :
    edit.Carries (textAfter before cs) (s.followAll before) (s.followAll (before ++ [edit])) := by
  have hnext : before ++ [edit] <+: edits := ⟨after, by simp [hedits]⟩
  have hlen_next := hlen _ hnext
  rw [textAfter_concat] at hlen_next
  rw [followAll_concat]
  exact carries_follow (hfit before edit after hedits) hs hlen_next (hcut before edit after hedits)

include hs

/-- By induction from the end: what the last edit is made to is what all others have left. -/
theorem fitsIn_followAll {before : List Edit} (hbefore : before <+: edits) :
    (s.followAll before).FitsIn (textAfter before cs) := by
  induction before using List.reverseRecOn with
  | nil => exact hs
  | append_singleton before edit ih =>
    obtain ⟨after, hedits⟩ := hbefore
    have hsplit : edits = before ++ edit :: after := by simp [← hedits]
    have hcarries := carries_followAll hfit hlen hcut hsplit (ih ⟨_, hsplit.symm⟩)
    rw [textAfter_concat]
    exact hcarries.fitsIn

end Many

end Edit

/-- **Tracking.** While texts stay within the bounds of spans, and unless the span reaches to where
an edit is cut off, every edit that a document takes moves the span as it moves the text, and what
all of them make of the span fits the new text. -/
theorem followAll_tracks {d d' : Document} {edits : List Edit} {version : Int} {s : Span}
    (h : d.edit edits version = .ok d') (hs : s.FitsIn d.text.toList)
    (hlen : ∀ before, before <+: edits →
      byteLength (Edit.textAfter before d.text.toList) < 2 ^ 32)
    (hcut : ∀ before edit after, edits = before ++ edit :: after →
      ¬ edit.CutOffAt (s.followAll before).stop) :
    (∀ before edit after, edits = before ++ edit :: after →
      edit.Carries (Edit.textAfter before d.text.toList) (s.followAll before)
        (s.followAll (before ++ [edit]))) ∧
      (s.followAll edits).FitsIn d'.text.toList := by
  obtain ⟨hfit, rfl⟩ := Document.edit_eq_ok_iff.mp h
  have hmax : ∀ before, before <+: edits →
      byteLength (Edit.textAfter before d.text.toList) ≤ maxOffset :=
    fun before hbefore => Nat.le_of_lt_succ (hlen before hbefore)
  refine ⟨fun before edit after hedits => ?_, ?_⟩
  · have hfits := Edit.fitsIn_followAll hfit hs hmax hcut ⟨_, hedits.symm⟩
    exact Edit.carries_followAll hfit hmax hcut hedits hfits
  · rw [Document.text_ofText, String.toList_ofList]
    exact Edit.fitsIn_followAll hfit hs hmax hcut List.prefix_rfl

/-- A code block is followed while its code changes and something is put in front of it. -/
theorem followAll_tracks_codeBlock :
    let d : Document := .ofText "a<#é#>" 1
    let edits : List Edit := [⟨.ofParts 3 2, "xyz"⟩, ⟨.ofParts 0 0, "é"⟩]
    let s : Span := .ofParts 1 6
    d.edit edits 2 = .ok (.ofText "éa<#xyz#>" 2) ∧ s.FitsIn d.text.toList ∧
      (∀ before edit after, edits = before ++ edit :: after →
        edit.Carries (Edit.textAfter before d.text.toList) (s.followAll before)
          (s.followAll (before ++ [edit]))) ∧
      s.followAll edits = .ofParts 3 7 ∧ (s.followAll edits).FitsIn "éa<#xyz#>".toList := by
  intro d edits s
  have hd : d.edit edits 2 = .ok (.ofText "éa<#xyz#>" 2) := by decide
  have hs : s.FitsIn d.text.toList := ⟨by decide, by decide⟩
  have hlen : ∀ before ∈ edits.inits,
      byteLength (Edit.textAfter before d.text.toList) < 2 ^ 32 := by
    decide
  have hparts : ∀ edit ∈ edits, edit.span.start + edit.span.length ≤ maxOffset := by
    decide
  obtain ⟨hcarries, hfitsIn⟩ := followAll_tracks hd hs
    (fun before hbefore => hlen before ((List.mem_inits before edits).mpr hbefore))
    (fun before edit after hedits hcut =>
      Nat.not_lt.mpr (hparts edit (by simp [hedits])) hcut.1)
  exact ⟨hd, hs, hcarries, by decide, hfitsIn⟩

/-! ## Edits that are cut off -/

theorem byteLength_replicate (count : Nat) (c : Char) :
    byteLength (List.replicate count c) = count * c.utf8Size := by
  induction count with
  | zero => simp
  | succ count ih => simp [List.replicate_succ, ih, Nat.add_mul, Nat.add_comm]

/-- Between characters of one byte every offset is a boundary. -/
theorem onBoundary_replicate {count offset : Nat} (h : offset ≤ count) :
    onBoundary (List.replicate count 'a') offset = true := by
  refine onBoundary_iff.mpr ⟨.replicate offset 'a', .replicate (count - offset) 'a', ?_, ?_⟩
  · rw [List.replicate_append_replicate, Nat.add_sub_cancel' h]
  · rw [byteLength_replicate]
    exact Nat.mul_one offset

/-- A span is not carried through an edit that is cut off at its end: all but ten bytes of the
longest text within the bounds of spans are removed, and nothing is left of the span of them all. -/
theorem not_forall_carries_follow :
    ¬ ∀ (d d' : Document) (edit : Edit) (version : Int) (s : Span),
      byteLength d.text.toList < 2 ^ 32 → byteLength d'.text.toList < 2 ^ 32 →
        d.edit [edit] version = .ok d' → s.FitsIn d.text.toList →
          edit.Carries d.text.toList s (s.follow edit) := by
  intro hall
  -- the characters go by a name, so that nothing evaluates so long a list
  obtain ⟨cs, hcs⟩ : ∃ cs, cs = List.replicate maxOffset 'a' := ⟨_, rfl⟩
  let edit : Edit := ⟨.ofParts 10 maxOffset, ""⟩
  let s : Span := .ofParts 0 maxOffset
  have htext : (String.ofList cs).toList = cs := String.toList_ofList
  have hlen : byteLength cs = maxOffset := by
    rw [hcs, byteLength_replicate]
    exact Nat.mul_one maxOffset
  have hboundary : ∀ offset ≤ maxOffset, onBoundary cs offset = true := by
    intro offset hoffset
    rw [hcs]
    exact onBoundary_replicate hoffset
  have hs : s.FitsIn cs := ⟨hboundary _ s.start_le, hboundary _ s.stop_le⟩
  have hfits : edit.Fits cs :=
    ⟨hlen ▸ edit.span.stop_le, hboundary _ edit.span.start_le, hboundary _ edit.span.stop_le⟩
  have hd : (Document.ofText (String.ofList cs) 0).edit [edit] 1 =
      .ok (.ofText (String.ofList (edit.replacement cs)) 1) := by
    rw [Document.edit_eq_ok_iff, Document.text_ofText, htext]
    refine ⟨?_, rfl⟩
    exact Edit.fitInTurn_cons.mpr ⟨hfits, Edit.fitInTurn_nil⟩
  have hreplacement := Edit.byteLength_replacement hfits
  rw [show edit.span.stop = maxOffset by decide, show edit.span.start = 10 by decide,
    show byteLength edit.text.toList = 0 by decide, hlen] at hreplacement
  have hcarries := hall _ _ edit 1 s (by rw [Document.text_ofText, htext, hlen]; decide)
    (by rw [Document.text_ofText, String.toList_ofList]; omega) hd (htext.symm ▸ hs)
  have hbyte : (s.follow edit).HasByte 5 :=
    (hcarries.before_iff 5 (by decide)).mpr ⟨by decide, by decide⟩
  exact absurd hbyte.2 (by decide)

end TextTemplate
