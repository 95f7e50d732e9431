import TextTemplate.Proofs.ByteCuts
import TextTemplate.Workspace

/-!
# Texts after edits

An edit fits a text if it ends within it and both of its ends are on character boundaries
(`Edit.Fits`). Then it is made, which puts its text in place of all between its ends
(`Edit.replacement`); else it is refused, and for one reason only, the first of three that holds
(`Edit.Refuses`).

A list of edits is made one by one, each to the text that the edits before it have left
(`Edit.textAfter`), and the first one that does not fit is what the whole list is refused for.
Either all of them are made or none: `edit_all_or_nothing` says so of a document and of a workspace
that has it open. A document keeps the lines of its text (`Document.Indexed`), in whichever way it
came about.
-/
namespace TextTemplate

namespace Edit

/-! ## One edit -/

/-- The edit ends within the text, and begins and ends between two characters. -/
structure Fits (edit : Edit) (cs : List Char) : Prop where
  stop_le : edit.span.stop ≤ byteLength cs
  start_onBoundary : onBoundary cs edit.span.start = true
  stop_onBoundary : onBoundary cs edit.span.stop = true

/-- The text with the bytes of the edit's span replaced. -/
def replacement (edit : Edit) (cs : List Char) : List Char :=
  takeBytes edit.span.start cs ++ edit.text.toList ++ dropBytes edit.span.stop cs

/-- Why the edit does not fit the text. Of several reasons the first one counts. -/
inductive Refuses (edit : Edit) (cs : List Char) : EditError → Prop
  | outOfBounds (hstop : byteLength cs < edit.span.stop) :
      Refuses edit cs (.outOfBounds edit.span.start edit.span.stop (byteLength cs))
  | startInside (hstop : edit.span.stop ≤ byteLength cs)
      (hstart : onBoundary cs edit.span.start = false) :
      Refuses edit cs (.notOnBoundary edit.span.start)
  | stopInside (hstop : edit.span.stop ≤ byteLength cs)
      (hstart : onBoundary cs edit.span.start = true)
      (hend : onBoundary cs edit.span.stop = false) :
      Refuses edit cs (.notOnBoundary edit.span.stop)

section One
variable {edit : Edit} {cs : List Char} {error : EditError}

theorem Refuses.not_fits (h : edit.Refuses cs error) : ¬ edit.Fits cs := by
  intro hfits
  cases h with
  | outOfBounds hstop => exact absurd hfits.stop_le (Nat.not_le.mpr hstop)
  | startInside _ hstart => exact absurd hfits.start_onBoundary (Bool.eq_false_iff.mp hstart)
  | stopInside _ _ hend => exact absurd hfits.stop_onBoundary (Bool.eq_false_iff.mp hend)

/-- What an edit that fits does to the text: the part between its ends gives way. -/
theorem Fits.exists_parts (h : edit.Fits cs) :
    ∃ before removed after, before ++ (removed ++ after) = cs ∧
      byteLength before = edit.span.start ∧ byteLength (before ++ removed) = edit.span.stop ∧
      edit.replacement cs = before ++ (edit.text.toList ++ after) := by
  obtain ⟨before, removed, after, rfl, hstart, hstop⟩ :=
    TextTemplate.exists_parts edit.span.start_le_stop h.start_onBoundary h.stop_onBoundary
  refine ⟨before, removed, after, rfl, hstart, hstop, ?_⟩
  rw [replacement, ← hstart, ← hstop, takeBytes_append, ← List.append_assoc before,
    dropBytes_append, List.append_assoc]

theorem apply_of_fits (h : edit.Fits cs) : edit.apply cs = .ok (edit.replacement cs) := by
  obtain ⟨before, removed, after, rfl, hstart, hstop, hreplacement⟩ := h.exists_parts
  have hle : ¬ min (byteLength (before ++ (removed ++ after))) maxOffset < edit.span.stop := by
    have hbound := h.stop_le
    have hmax := edit.span.stop_le
    omega
  have hupto : splitAtByte? (before ++ (removed ++ after)) edit.span.stop =
      some (before ++ removed, after) := by
    rw [← hstop, ← List.append_assoc, splitAtByte?_append]
  rw [apply, if_neg hle, hupto, ← hstart, splitAtByte?_append, hreplacement]
  exact congrArg Except.ok (List.append_assoc before _ after)

theorem apply_of_refuses (h : edit.Refuses cs error) : edit.apply cs = .error error := by
  have hmax := edit.span.stop_le
  cases h with
  | outOfBounds hstop =>
    have hlength : min (byteLength cs) maxOffset = byteLength cs := by omega
    rw [apply, hlength, if_pos hstop]
  | startInside hstop hstart =>
    rw [onBoundary, Option.isSome_eq_false_iff, Option.isNone_iff_eq_none] at hstart
    rw [apply, if_neg (by omega), hstart]
  | stopInside hstop hstart hend =>
    obtain ⟨⟨before, rest⟩, hsplit⟩ := Option.isSome_iff_exists.mp hstart
    rw [onBoundary, Option.isSome_eq_false_iff, Option.isNone_iff_eq_none] at hend
    rw [apply, if_neg (by omega), hsplit, hend]

theorem fits_or_refuses (edit : Edit) (cs : List Char) :
    edit.Fits cs ∨ ∃ error, edit.Refuses cs error := by
  rcases Nat.lt_or_ge (byteLength cs) edit.span.stop with hstop | hstop
  · exact .inr ⟨_, .outOfBounds hstop⟩
  cases hstart : onBoundary cs edit.span.start with
  | false => exact .inr ⟨_, .startInside hstop hstart⟩
  | true =>
    cases hend : onBoundary cs edit.span.stop with
    | false => exact .inr ⟨_, .stopInside hstop hstart hend⟩
    | true => exact .inl ⟨hstop, hstart, hend⟩

theorem apply_eq_error_iff : edit.apply cs = .error error ↔ edit.Refuses cs error := by
  refine ⟨fun h => ?_, apply_of_refuses⟩
  rcases fits_or_refuses edit cs with hfits | ⟨error', hrefuses⟩
  · rw [apply_of_fits hfits] at h
    contradiction
  · rw [apply_of_refuses hrefuses] at h
    exact Except.error.inj h ▸ hrefuses

end One

/-! ## Lists of edits -/

/-- The text with one span after the other replaced. -/
def textAfter (edits : List Edit) (cs : List Char) : List Char :=
  edits.foldl (fun cs edit => edit.replacement cs) cs

/-- Every edit fits the text that the edits before it have left. -/
def FitInTurn (edits : List Edit) (cs : List Char) : Prop :=
  ∀ before edit after, edits = before ++ edit :: after → edit.Fits (textAfter before cs)

/-- The reason is that of the first edit that does not fit what the ones before it have left. -/
def FirstRefuses (edits : List Edit) (cs : List Char) (error : EditError) : Prop :=
  ∃ before edit after, edits = before ++ edit :: after ∧ FitInTurn before cs ∧
    edit.Refuses (textAfter before cs) error

section Many
variable {edit : Edit} {edits : List Edit} {cs cs' : List Char} {error : EditError}

theorem fitInTurn_nil : FitInTurn [] cs := by
  intro before edit after h
  simp at h

theorem fitInTurn_cons :
    FitInTurn (edit :: edits) cs ↔ edit.Fits cs ∧ FitInTurn edits (edit.replacement cs) := by
  constructor
  · intro h
    refine ⟨h [] edit edits rfl, fun before next after hedits => ?_⟩
    exact h (edit :: before) next after (congrArg (edit :: ·) hedits)
  · rintro ⟨hfits, h⟩ before next after hedits
    rcases List.cons_eq_append_iff.mp hedits with ⟨rfl, hrest⟩ | ⟨before, rfl, hrest⟩
    · obtain ⟨rfl, -⟩ := List.cons.inj hrest
      exact hfits
    · exact h before next after hrest

theorem firstRefuses_cons :
    FirstRefuses (edit :: edits) cs error ↔
      edit.Refuses cs error ∨ edit.Fits cs ∧ FirstRefuses edits (edit.replacement cs) error := by
  constructor
  · rintro ⟨before, next, after, hedits, hbefore, hrefuses⟩
    rcases List.cons_eq_append_iff.mp hedits with ⟨rfl, hrest⟩ | ⟨before, rfl, hrest⟩
    · obtain ⟨rfl, -⟩ := List.cons.inj hrest
      exact .inl hrefuses
    · obtain ⟨hfits, hbefore⟩ := fitInTurn_cons.mp hbefore
      exact .inr ⟨hfits, before, next, after, hrest, hbefore, hrefuses⟩
  · rintro (hrefuses | ⟨hfits, before, next, after, rfl, hbefore, hrefuses⟩)
    · exact ⟨[], edit, edits, rfl, fitInTurn_nil, hrefuses⟩
    · exact ⟨edit :: before, next, after, rfl, fitInTurn_cons.mpr ⟨hfits, hbefore⟩, hrefuses⟩

theorem applyAll_cons : applyAll (edit :: edits) cs = edit.apply cs >>= applyAll edits :=
  List.foldlM_cons

/-- Edits that fit in turn are all made. -/
theorem applyAll_eq_ok_iff :
    applyAll edits cs = .ok cs' ↔ FitInTurn edits cs ∧ cs' = textAfter edits cs := by
  induction edits generalizing cs with
  | nil =>
    have hnil : applyAll [] cs = .ok cs := rfl
    simp [hnil, fitInTurn_nil, textAfter, eq_comm]
  | cons edit edits ih =>
    rw [applyAll_cons, fitInTurn_cons]
    rcases fits_or_refuses edit cs with hfits | ⟨error, hrefuses⟩
    · rw [apply_of_fits hfits]
      exact ih.trans (by rw [and_iff_right hfits]; rfl)
    · rw [apply_of_refuses hrefuses]
      exact iff_of_false nofun fun h => hrefuses.not_fits h.1.1

/-- Edits of which one does not fit are refused for the first of these. -/
theorem applyAll_eq_error_iff :
    applyAll edits cs = .error error ↔ FirstRefuses edits cs error := by
  induction edits generalizing cs with
  | nil => exact iff_of_false nofun fun ⟨_, _, _, hedits, _⟩ => by simp at hedits
  | cons edit edits ih =>
    rw [applyAll_cons, firstRefuses_cons]
    rcases fits_or_refuses edit cs with hfits | ⟨error', hrefuses⟩
    · rw [apply_of_fits hfits, and_iff_right hfits, or_iff_right fun h => h.not_fits hfits]
      exact ih
    · rw [apply_of_refuses hrefuses, ← apply_eq_error_iff, apply_of_refuses hrefuses,
        or_iff_left fun h => hrefuses.not_fits h.1]
      rfl

end Many

end Edit

/-! ## Documents -/

namespace Document

/-- The lines of the document are those of its text. -/
def Indexed (d : Document) : Prop :=
  d.lines = .ofText d.text

section Indexed
variable {d : Document} {text : String} {version : Int}

@[simp]
theorem text_ofText : (ofText text version).text = text :=
  rfl

theorem indexed_ofText : (ofText text version).Indexed :=
  rfl

theorem eq_ofText_iff :
    d = ofText text version ↔ d.text = text ∧ d.version = version ∧ d.Indexed := by
  constructor
  · rintro rfl
    exact ⟨rfl, rfl, indexed_ofText⟩
  · rintro ⟨rfl, rfl, hlines⟩
    exact Document.ext rfl rfl hlines

end Indexed

end Document

theorem Workspace.document?_change {w : Workspace} {path : String} {o : OpenDocument}
    {d : Document} : (w.change path o d).2.document? path = some d := by
  obtain ⟨before, _ | a⟩ := o <;> simp [change, settle, document?, find?, put]

/-- What becomes of a document under a list of edits. -/
structure Document.AllOrNothing (d : Document) (edits : List Edit) (version : Int) : Prop where
  /-- All edits are made if each of them fits what the ones before it have left, and only then. -/
  made_iff : ∀ d', d.edit edits version = .ok d' ↔
    Edit.FitInTurn edits d.text.toList ∧
      d'.text = String.ofList (Edit.textAfter edits d.text.toList) ∧ d'.version = version ∧
        d'.Indexed
  /-- The lines are those of the text that all edits have left. -/
  lines_eq : ∀ d', d.edit edits version = .ok d' →
    d'.lines = .ofChars (Edit.textAfter edits d.text.toList)
  /-- Else the first edit that does not fit is what they are refused for. -/
  refused_iff : ∀ error, d.edit edits version = .error error ↔
    Edit.FirstRefuses edits d.text.toList error
  /-- A workspace that has the document open has the new one in its place. -/
  workspace_of_made : ∀ (w : Workspace) path d', w.document? path = some d →
    d.edit edits version = .ok d' → (w.edit path edits version).2.document? path = some d'
  /-- A workspace that has it open stays as it is if an edit is refused. -/
  workspace_of_refused : ∀ (w : Workspace) path error, w.document? path = some d →
    d.edit edits version = .error error → w.edit path edits version = (.error (.edit error), w)

namespace Document
variable {d d' : Document} {edits : List Edit} {version : Int} {error : EditError}

theorem edit_eq_ok_iff :
    d.edit edits version = .ok d' ↔
      Edit.FitInTurn edits d.text.toList ∧
        d' = .ofText (String.ofList (Edit.textAfter edits d.text.toList)) version := by
  rw [edit]
  cases h : Edit.applyAll edits d.text.toList with
  | ok cs =>
    obtain ⟨hfit, rfl⟩ := Edit.applyAll_eq_ok_iff.mp h
    rw [and_iff_right hfit]
    exact ⟨fun h => (Except.ok.inj h).symm, fun h => congrArg Except.ok h.symm⟩
  | error error =>
    refine iff_of_false nofun fun ⟨hfit, _⟩ => ?_
    have hok := Edit.applyAll_eq_ok_iff.mpr ⟨hfit, rfl⟩
    cases h.symm.trans hok

theorem edit_eq_error_iff :
    d.edit edits version = .error error ↔ Edit.FirstRefuses edits d.text.toList error := by
  rw [← Edit.applyAll_eq_error_iff, edit]
  cases Edit.applyAll edits d.text.toList with
  | ok cs => exact iff_of_false nofun nofun
  | error error' => exact ⟨fun h => congrArg _ (Except.error.inj h),
      fun h => congrArg _ (Except.error.inj h)⟩

/-- All edits are made or none, and the first that does not fit says why. -/
theorem edit_all_or_nothing (d : Document) (edits : List Edit) (version : Int) :
    d.AllOrNothing edits version where
  made_iff d' := by rw [edit_eq_ok_iff, eq_ofText_iff]
  lines_eq d' h := by
    obtain ⟨-, rfl⟩ := edit_eq_ok_iff.mp h
    rw [indexed_ofText, ofText, LineIndex.ofText, String.toList_ofList]
  refused_iff _ := edit_eq_error_iff
  workspace_of_made w path d' hd h := by
    obtain ⟨o, ho, rfl⟩ := Option.map_eq_some_iff.mp hd
    simp only [Workspace.edit, ho, h]
    exact Workspace.document?_change
  workspace_of_refused w path error hd h := by
    obtain ⟨o, ho, rfl⟩ := Option.map_eq_some_iff.mp hd
    simp only [Workspace.edit, ho, h]

/-- The second edit ends beyond the text that the first one has left. -/
example : (ofText "abc" 3).edit [⟨.ofParts 0 0, "x"⟩, ⟨.ofParts 2 10, ""⟩] 4 =
    .error (.outOfBounds 2 12 4) := by
  cbv

end Document

end TextTemplate
