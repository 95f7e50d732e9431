import TextTemplate.Proofs.EditedTexts

/-!
# Requests to open documents

What a workspace does about a path is decided by what is open there. `Answers` says for every
request what comes of it at an open document, and `Workspace.step_answers` that a step does just
that. At any other path a step changes nothing (`Workspace.find?_step_of_not_isAt`).

So an analyzer keeps up with its document: it `Mirrors` the document after every step if it did so
before (`Workspace.Consistent.step`). Likewise documents keep the lines of their texts
(`Workspace.Indexed.step`).
-/
namespace TextTemplate

/-! ## Analyzers -/

/-- The analyzer has the document's text, and keeps no analysis but that of the text. -/
structure Analyzer.Mirrors (a : Analyzer) (document : Document) : Prop where
  text_eq : a.text = document.text
  memo_eq : ∀ s, a.memo = some s → s.analysis = .ofText a.revision a.text

namespace Analyzer
variable {a : Analyzer}

/-- The analyzer once it tells the watcher, too. -/
def watchedBy (a : Analyzer) (watcher : String) : Analyzer :=
  { a with watchers := a.watchers ++ [watcher] }

theorem mirrors_ofText (document : Document) : (ofText document.text).Mirrors document :=
  ⟨rfl, fun _ h => nomatch h⟩

theorem update_of_eq {text : String} (h : a.text = text) : a.update text = a :=
  if_pos h

theorem update_of_ne {text : String} (h : a.text ≠ text) :
    a.update text = { a with text, revision := a.revision + 1, memo := none } :=
  if_neg h

theorem watchers_update (text : String) : (a.update text).watchers = a.watchers := by
  rw [update]
  split <;> rfl

namespace Mirrors
variable {document : Document} (h : a.Mirrors document)
include h

theorem analysis_snapshot (serial : Nat) :
    (a.snapshot serial).analysis = .ofText a.revision document.text := by
  rw [← h.text_eq]
  cases hmemo : a.memo with
  | none => rw [snapshot, hmemo, Option.getD_none]
  | some s => rw [snapshot, hmemo, Option.getD_some, h.memo_eq s hmemo]

theorem analysed (serial : Nat) : (a.analysed serial).Mirrors document := by
  refine ⟨h.text_eq, fun s hs => ?_⟩
  obtain rfl : a.snapshot serial = s := Option.some.inj hs
  rw [h.analysis_snapshot, ← h.text_eq]
  rfl

theorem update (document' : Document) : (a.update document'.text).Mirrors document' := by
  by_cases ht : a.text = document'.text
  · rw [update_of_eq ht]
    exact ⟨ht, h.memo_eq⟩
  · rw [update_of_ne ht]
    exact ⟨rfl, fun _ hs => nomatch hs⟩

end Mirrors

end Analyzer

/-- The analyzer, if there is one, keeps up with the document. -/
def OpenDocument.Consistent (o : OpenDocument) : Prop :=
  ∀ a, o.analyzer = some a → a.Mirrors o.document

theorem OpenDocument.Consistent.analyzerOrNew {o : OpenDocument} (h : o.Consistent) :
    o.analyzerOrNew.Mirrors o.document := by
  cases ha : o.analyzer with
  | none =>
    rw [OpenDocument.analyzerOrNew, ha]
    exact Analyzer.mirrors_ofText o.document
  | some a =>
    rw [OpenDocument.analyzerOrNew, ha]
    exact h a ha

namespace Workspace

/-! ## Requests -/

namespace Request

/-- The request leaves another document at its path, or none. -/
def resets : Request → Bool
  | openDocument _ | close => true
  | _ => false

/-- The request changes the document at its path. -/
def changes : Request → Bool
  | edit .. | replace .. => true
  | _ => false

/-- The request makes the second document of the first one: edits that all fit say what becomes of
its text, and another text takes its place. -/
def Makes : Request → Document → Document → Prop
  | edit edits version, before, after =>
    Edit.FitInTurn edits before.text.toList ∧
      after.text = String.ofList (Edit.textAfter edits before.text.toList) ∧
        after.version = version ∧ after.Indexed
  | replace text version, _, after => after.text = text ∧ after.version = version ∧ after.Indexed
  | _, _, _ => False

/-- The watcher that a request adds. -/
def watcher? : Request → Option String
  | watch watcher => some watcher
  | _ => none

section Makes
variable {request : Request} {before after after' : Document}

theorem makes_edit_iff {edits : List Edit} {version : Int} :
    (edit edits version).Makes before after ↔ before.edit edits version = .ok after := by
  rw [Document.edit_eq_ok_iff, Document.eq_ofText_iff]
  rfl

theorem makes_replace_iff {text : String} {version : Int} :
    (replace text version).Makes before after ↔ before.replace text version = after :=
  Document.eq_ofText_iff.symm.trans eq_comm

theorem resets_of_makes (h : request.Makes before after) : request.resets = false := by
  cases request with
  | openDocument | close => cases h
  | _ => rfl

theorem changes_of_makes (h : request.Makes before after) : request.changes = true := by
  cases request with
  | edit | replace => rfl
  | _ => cases h

theorem watcher?_of_makes (h : request.Makes before after) : request.watcher? = none := by
  cases request with
  | watch => cases h
  | _ => rfl

theorem indexed_of_makes (h : request.Makes before after) : after.Indexed := by
  cases request with
  | edit => exact h.2.2.2
  | replace => exact h.2.2
  | _ => cases h

theorem makes_unique (h : request.Makes before after) (h' : request.Makes before after') :
    after = after' := by
  cases request with
  | edit =>
    rw [makes_edit_iff] at h h'
    exact Except.ok.inj (h.symm.trans h')
  | replace =>
    rw [makes_replace_iff] at h h'
    exact h.symm.trans h'
  | _ => cases h

end Makes

end Request

namespace Response

/-- The analysis that the response hands out. -/
def snapshot? : Response → Option Snapshot
  | analysis snapshot => snapshot
  | changed change => change.snapshot
  | _ => none

/-- Who is told of that analysis, in order. -/
def told : Response → List String
  | changed change => change.told
  | _ => []

end Response

/-- The event is about the path, in whatever spelling. -/
def Event.IsAt (event : Event) (path : String) : Prop :=
  Path.ofString event.path = Path.ofString path

instance (event : Event) (path : String) : Decidable (event.IsAt path) :=
  inferInstanceAs (Decidable (_ = _))

/-- What comes of a request at a path: from what is open there, the response and what is open
afterwards. So far `made` analyses have been made. -/
inductive Answers (made : Nat) :
    Option OpenDocument → Request → Response → Option OpenDocument → Prop
  | opened {o : Option OpenDocument} {document : Document} :
      Answers made o (.openDocument document) .opened (some ⟨document, none⟩)
  | closed {o : Option OpenDocument} :
      Answers made o .close (.closed (o.map (·.document))) none
  | absent {request : Request} {response : Response} (hr : request.resets = false)
      (hsnapshot : response.snapshot? = none) (htold : response.told = []) :
      Answers made none request response none
  | document {o : OpenDocument} :
      Answers made (some o) .document (.document (some o.document)) (some o)
  | analyzer {o : OpenDocument} :
      Answers made (some o) .analyzer (.analyzer (some o.analyzerOrNew))
        (some ⟨o.document, some o.analyzerOrNew⟩)
  | watch {o : OpenDocument} {watcher : String} :
      Answers made (some o) (.watch watcher) (.watching true)
        (some ⟨o.document, some (o.analyzerOrNew.watchedBy watcher)⟩)
  | analysis {o : OpenDocument} :
      Answers made (some o) .analysis (.analysis (some (o.analyzerOrNew.snapshot made)))
        (some ⟨o.document, some (o.analyzerOrNew.analysed made)⟩)
  | describeAt {o : OpenDocument} {offset : Nat} :
      Answers made (some o) (.describeAt offset)
        (.description ((o.analyzerOrNew.snapshot made).analysis.template.describeAt? offset))
        (some ⟨o.document, some (o.analyzerOrNew.analysed made)⟩)
  | failed {o : OpenDocument} {edits : List Edit} {version : Int} {error : EditError}
      (h : o.document.edit edits version = .error error) :
      Answers made (some o) (.edit edits version) (.failed (.edit error)) (some o)
  | unanalysed {document document' : Document} {request : Request}
      (h : request.Makes document document') :
      Answers made (some ⟨document, none⟩) request (.changed ⟨none, []⟩) (some ⟨document', none⟩)
  | analysed {document document' : Document} {a : Analyzer} {request : Request}
      (h : request.Makes document document') :
      Answers made (some ⟨document, some a⟩) request
        (.changed ⟨some ((a.update document'.text).snapshot made), a.told document'.text⟩)
        (some ⟨document', some ((a.update document'.text).analysed made)⟩)

namespace Answers
variable {made : Nat} {before now : Option OpenDocument} {request : Request} {response : Response}

theorem consistent (h : Answers made before request response now)
    (hbefore : ∀ o ∈ before, o.Consistent) : ∀ o ∈ now, o.Consistent := by
  rintro _ ⟨⟩
  cases h with
  | opened | unanalysed => exact fun _ h => nomatch h
  | document | failed => exact hbefore _ rfl
  | analyzer =>
    rintro _ ⟨⟩
    exact (hbefore _ rfl).analyzerOrNew
  | watch =>
    have hnew := (hbefore _ rfl).analyzerOrNew
    rintro _ ⟨⟩
    exact ⟨hnew.text_eq, hnew.memo_eq⟩
  | analysis | describeAt =>
    rintro _ ⟨⟩
    exact (hbefore _ rfl).analyzerOrNew.analysed made
  | analysed =>
    rintro _ ⟨⟩
    exact ((hbefore _ rfl _ rfl).update _).analysed made

/-- An analysis that is handed out is that of the document's text. -/
theorem returned (h : Answers made before request response now)
    (hbefore : ∀ o ∈ before, o.Consistent) {snapshot : Snapshot}
    (hsnapshot : response.snapshot? = some snapshot) :
    ∃ document a, now = some ⟨document, some a⟩ ∧
      snapshot.analysis = .ofText a.revision document.text := by
  cases h with
  | absent _ hnone =>
    rw [hnone] at hsnapshot
    cases hsnapshot
  | opened | closed | document | analyzer | watch | describeAt | failed | unanalysed =>
    cases hsnapshot
  | analysis =>
    obtain rfl := Option.some.inj hsnapshot
    exact ⟨_, _, rfl, (hbefore _ rfl).analyzerOrNew.analysis_snapshot made⟩
  | @analysed _ document' _ _ hmakes =>
    obtain rfl := Option.some.inj hsnapshot
    exact ⟨_, _, rfl, ((hbefore _ rfl _ rfl).update document').analysis_snapshot made⟩

/-- A request that keeps an analyzer keeps its watchers and adds its own one. Either the text stays,
and nobody is told anything, or all watchers are told of the analysis of the next revision. -/
theorem kept {document : Document} {a : Analyzer}
    (h : Answers made (some ⟨document, some a⟩) request response now) (ha : a.Mirrors document)
    (hr : request.resets = false) :
    ∃ document' a', now = some ⟨document', some a'⟩ ∧
      a'.watchers = a.watchers ++ request.watcher?.toList ∧
      (document.text = document'.text ∧ a'.revision = a.revision ∧ response.told = [] ∨
        document.text ≠ document'.text ∧ a'.revision = a.revision + 1 ∧
          response.told = a.watchers ∧
          response.snapshot?.map (·.analysis) = some (.ofText (a.revision + 1) document'.text)) := by
  cases h with
  | opened | closed => cases hr
  | document | analyzer | analysis | describeAt | failed =>
    exact ⟨document, _, rfl, (List.append_nil _).symm, .inl ⟨rfl, rfl, rfl⟩⟩
  | watch => exact ⟨document, _, rfl, rfl, .inl ⟨rfl, rfl, rfl⟩⟩
  | @analysed _ document' _ _ hmakes =>
    refine ⟨document', _, rfl, ?_, ?_⟩
    · rw [Request.watcher?_of_makes hmakes, Option.toList_none, List.append_nil]
      exact Analyzer.watchers_update _
    · by_cases ht : a.text = document'.text
      · refine .inl ⟨ha.text_eq ▸ ht, ?_, if_pos ht⟩
        exact congrArg (·.revision) (Analyzer.update_of_eq ht)
      · have hrevision : (a.update document'.text).revision = a.revision + 1 :=
          congrArg (·.revision) (Analyzer.update_of_ne ht)
        refine .inr ⟨ha.text_eq ▸ ht, hrevision, if_neg ht, ?_⟩
        rw [← hrevision]
        exact congrArg some ((ha.update document').analysis_snapshot made)

/-- A new analyzer is at revision 0, and is watched by whoever asked for it. -/
theorem created (h : Answers made before request response now) {a : Analyzer}
    (hbefore : before.bind (·.analyzer) = none) (hnow : now.bind (·.analyzer) = some a) :
    a.revision = 0 ∧ a.watchers = request.watcher?.toList := by
  cases h with
  | opened | closed | absent | unanalysed => cases hnow
  | analysed => cases hbefore
  | document | failed =>
    rw [hbefore] at hnow
    cases hnow
  | @analyzer o | @watch o | @analysis o | @describeAt o =>
    have hnew : o.analyzerOrNew = .ofText o.document.text := by
      rw [OpenDocument.analyzerOrNew, show o.analyzer = none from hbefore]
      rfl
    obtain rfl := Option.some.inj hnow
    rw [hnew]
    exact ⟨rfl, rfl⟩

/-- Where there is an analyzer afterwards, the request did not reset the document. -/
theorem resets_eq (h : Answers made before request response now) {a : Analyzer}
    (hnow : now.bind (·.analyzer) = some a) : request.resets = false := by
  cases h with
  | opened | closed | absent | unanalysed => cases hnow
  | document | analyzer | watch | analysis | describeAt | failed => rfl
  | analysed h => exact Request.resets_of_makes h

/-- Only requests that change a document or reset its path leave another document there. -/
theorem document_eq (h : Answers made before request response now)
    (hresets : request.resets = false) (hchanges : request.changes = false) :
    now.map (·.document) = before.map (·.document) := by
  cases h with
  | opened | closed => cases hresets
  | absent | document | analyzer | watch | analysis | describeAt | failed => rfl
  | unanalysed h | analysed h =>
    rw [Request.changes_of_makes h] at hchanges
    cases hchanges

/-- Documents keep the lines of their texts if one that is opened has them. -/
theorem indexed (h : Answers made before request response now)
    (hopened : ∀ document, request = .openDocument document → document.Indexed)
    (hbefore : ∀ o ∈ before, o.document.Indexed) : ∀ o ∈ now, o.document.Indexed := by
  rintro _ ⟨⟩
  cases h with
  | opened => exact hopened _ rfl
  | document | analyzer | watch | analysis | describeAt | failed =>
    have hsame := hbefore _ rfl
    exact hsame
  | unanalysed h | analysed h => exact Request.indexed_of_makes h

theorem eq_of_openDocument {document : Document}
    (h : Answers made before (.openDocument document) response now) :
    response = .opened ∧ now = some ⟨document, none⟩ := by
  cases h with
  | opened => exact ⟨rfl, rfl⟩
  | absent hr => cases hr
  | unanalysed h | analysed h => cases h

theorem eq_of_close (h : Answers made before .close response now) :
    response = .closed (before.map (·.document)) ∧ now = none := by
  cases h with
  | closed => exact ⟨rfl, rfl⟩
  | absent hr => cases hr
  | unanalysed h | analysed h => cases h

theorem eq_of_refused {o : OpenDocument} {edits : List Edit} {version : Int} {error : EditError}
    (h : Answers made (some o) (.edit edits version) response now)
    (hrefused : o.document.edit edits version = .error error) :
    response = .failed (.edit error) := by
  cases h with
  | failed herror => rw [Except.error.inj (herror.symm.trans hrefused)]
  | unanalysed hmakes | analysed hmakes =>
    cases (Request.makes_edit_iff.mp hmakes).symm.trans hrefused

theorem eq_of_analyzer {o : OpenDocument} (h : Answers made (some o) .analyzer response now) :
    response = .analyzer (some o.analyzerOrNew) ∧
      now = some ⟨o.document, some o.analyzerOrNew⟩ := by
  cases h with
  | analyzer => exact ⟨rfl, rfl⟩
  | unanalysed h | analysed h => cases h

theorem eq_of_analysis {o : OpenDocument} (h : Answers made (some o) .analysis response now) :
    response = .analysis (some (o.analyzerOrNew.snapshot made)) := by
  cases h with
  | analysis => rfl
  | unanalysed h | analysed h => cases h

theorem eq_of_watch {o : OpenDocument} {watcher : String}
    (h : Answers made (some o) (.watch watcher) response now) :
    now = some ⟨o.document, some (o.analyzerOrNew.watchedBy watcher)⟩ := by
  cases h with
  | watch => rfl
  | unanalysed h | analysed h => cases h

section Changes
variable {document document' : Document} (hmakes : request.Makes document document')
include hmakes

theorem eq_of_unanalysed (h : Answers made (some ⟨document, none⟩) request response now) :
    response = .changed ⟨none, []⟩ ∧ now = some ⟨document', none⟩ := by
  cases h with
  | opened | closed | document | analyzer | watch | analysis | describeAt => cases hmakes
  | failed h => cases h.symm.trans (Request.makes_edit_iff.mp hmakes)
  | unanalysed h =>
    obtain rfl := Request.makes_unique h hmakes
    exact ⟨rfl, rfl⟩

theorem eq_of_analysed {a : Analyzer}
    (h : Answers made (some ⟨document, some a⟩) request response now) :
    response = .changed ⟨some ((a.update document'.text).snapshot made), a.told document'.text⟩ ∧
      now = some ⟨document', some ((a.update document'.text).analysed made)⟩ := by
  cases h with
  | opened | closed | document | analyzer | watch | analysis | describeAt => cases hmakes
  | failed h => cases h.symm.trans (Request.makes_edit_iff.mp hmakes)
  | analysed h =>
    obtain rfl := Request.makes_unique h hmakes
    exact ⟨rfl, rfl⟩

end Changes

end Answers

/-! ## Workspaces -/

/-- The second workspace has `now` at the path, and at all others what the first one has. -/
def Sets (path : String) (now : Option OpenDocument) (w w' : Workspace) : Prop :=
  ∀ other, w'.find? other =
    if Path.ofString path = Path.ofString other then now else w.find? other

section Sets
variable {w : Workspace} {path : String}

theorem sets_self : Sets path (w.find? path) w w := by
  intro other
  split
  case isTrue h => rw [find?, ← h, find?]
  case isFalse => rfl

theorem sets_put (o : OpenDocument) : Sets path (some o) w (w.put path o) := by
  intro other
  simp only [find?, put, Std.HashMap.getElem?_insert, beq_iff_eq]

theorem sets_settle (document : Document) (a : Analyzer) :
    Sets path (some ⟨document, some (a.analysed w.made)⟩) w (w.settle path document a).2 :=
  sets_put _

theorem sets_close : Sets path none w (w.close path).2 := by
  intro other
  simp only [find?, close, Std.HashMap.getElem?_erase, beq_iff_eq]

end Sets

/-! ## Steps -/

section Steps
variable {w : Workspace} {path : String}

theorem change_answers {request : Request} {o : OpenDocument} {document : Document}
    (h : request.Makes o.document document) :
    ∃ now, Answers w.made (some o) request (.changed (w.change path o document).1) now ∧
      Sets path now w (w.change path o document).2 := by
  obtain ⟨before, _ | a⟩ := o
  · exact ⟨_, .unanalysed h, sets_put _⟩
  · exact ⟨_, .analysed h, sets_settle document _⟩

/-- Where nothing is open a request comes to nothing, unless it opens a document. -/
theorem step_of_absent {event : Event} (ho : w.find? event.path = none)
    (hr : event.request.resets = false) :
    (w.step event).2 = w ∧ (w.step event).1.snapshot? = none ∧ (w.step event).1.told = [] := by
  obtain ⟨path, request⟩ := event
  cases request with
  | openDocument | close => cases hr
  | document => exact ⟨rfl, rfl, rfl⟩
  | analyzer | watch | analysis | describeAt | edit | replace =>
    simp only [step, analyzer?, watch, analysis?, describeAt?, edit, replace, ho]
    exact ⟨trivial, rfl, rfl⟩

/-- Where nothing is open there is nothing to change. -/
theorem response_of_absent {event : Event} (ho : w.find? event.path = none)
    (hchanges : event.request.changes = true) :
    (w.step event).1 = .failed (.documentNotOpen event.path) := by
  obtain ⟨path, request⟩ := event
  cases request with
  | edit | replace =>
    simp only [step, edit, replace, ho]
    rfl
  | _ => cases hchanges

/-- All that a step does at an open document. -/
theorem step_of_open {event : Event} {o : OpenDocument} (ho : w.find? event.path = some o)
    (hr : event.request.resets = false) :
    ∃ now, Answers w.made (some o) event.request (w.step event).1 now ∧
      Sets event.path now w (w.step event).2 := by
  obtain ⟨path, request⟩ := event
  have hself : Sets path (some o) w w := ho ▸ sets_self
  cases request with
  | openDocument | close => cases hr
  | document =>
    rw [step, document?, ho]
    exact ⟨_, .document, hself⟩
  | analyzer =>
    simp only [step, analyzer?, ho]
    exact ⟨_, .analyzer, sets_put _⟩
  | watch watcher =>
    simp only [step, watch, ho]
    exact ⟨_, .watch, sets_put _⟩
  | analysis =>
    simp only [step, analysis?, ho]
    exact ⟨_, .analysis, sets_settle _ _⟩
  | describeAt offset =>
    simp only [step, describeAt?, analysis?, ho]
    exact ⟨_, .describeAt, sets_settle _ _⟩
  | edit edits version =>
    cases h : o.document.edit edits version with
    | error error =>
      simp only [step, edit, ho, h]
      exact ⟨_, .failed h, hself⟩
    | ok document =>
      simp only [step, edit, ho, h]
      exact change_answers (Request.makes_edit_iff.mpr h)
  | replace text version =>
    simp only [step, replace, ho]
    exact change_answers (Request.makes_replace_iff.mpr rfl)

/-- All that a step does. -/
theorem step_answers (w : Workspace) (event : Event) :
    ∃ now, Answers w.made (w.find? event.path) event.request (w.step event).1 now ∧
      Sets event.path now w (w.step event).2 := by
  cases hr : event.request.resets with
  | true =>
    obtain ⟨path, request⟩ := event
    cases request with
    | openDocument document => exact ⟨_, .opened, sets_put _⟩
    | close => exact ⟨_, .closed, sets_close⟩
    | _ => cases hr
  | false =>
    cases ho : w.find? event.path with
    | none =>
      obtain ⟨hw, hsnapshot, htold⟩ := step_of_absent ho hr
      refine ⟨none, .absent hr hsnapshot htold, ?_⟩
      rw [hw, ← ho]
      exact sets_self
    | some o => exact step_of_open ho hr

/-- A request that fails changes nothing. -/
theorem step_of_failed {event : Event} {error : WorkspaceError}
    (h : (w.step event).1 = .failed error) : (w.step event).2 = w := by
  obtain ⟨path, request⟩ := event
  cases ho : w.find? path with
  | none =>
    cases request with
    | edit | replace => simp only [step, edit, replace, ho]
    | _ => cases h
  | some o =>
    cases request with
    | edit edits version =>
      cases hd : o.document.edit edits version with
      | error error => simp only [step, edit, ho, hd]
      | ok document =>
        simp only [step, edit, ho, hd] at h
        cases h
    | replace text version =>
      simp only [step, replace, ho] at h
      cases h
    | _ => cases h

theorem find?_step_of_isAt (w : Workspace) {event : Event} (h : event.IsAt path) :
    ∃ now, Answers w.made (w.find? path) event.request (w.step event).1 now ∧
      (w.step event).2.find? path = now := by
  obtain ⟨now, hanswers, hsets⟩ := step_answers w event
  rw [find?, h] at hanswers
  exact ⟨now, hanswers, (hsets path).trans (if_pos h)⟩

/-- A step changes nothing at other paths than its own. -/
theorem find?_step_of_not_isAt {event : Event} (h : ¬ event.IsAt path) :
    (w.step event).2.find? path = w.find? path := by
  obtain ⟨now, -, hsets⟩ := step_answers w event
  exact (hsets path).trans (if_neg h)

/-- What the answers to an event keep of each open document, the step keeps of all. -/
theorem forall_find?_step {P : OpenDocument → Prop} {event : Event}
    (hw : ∀ path, ∀ o ∈ w.find? path, P o)
    (hkeeps : ∀ {before now}, Answers w.made before event.request (w.step event).1 now →
      (∀ o ∈ before, P o) → ∀ o ∈ now, P o) :
    ∀ path, ∀ o ∈ (w.step event).2.find? path, P o := by
  intro path
  by_cases h : event.IsAt path
  · obtain ⟨now, hanswers, hnow⟩ := find?_step_of_isAt w h
    rw [hnow]
    exact hkeeps hanswers (hw path)
  · rw [find?_step_of_not_isAt h]
    exact hw path

end Steps

/-! ## Consistency -/

theorem find?_empty (path : String) : empty.find? path = none := by
  rw [find?, empty, Std.HashMap.getElem?_empty]

/-- All analyzers keep up with their documents. -/
def Consistent (w : Workspace) : Prop :=
  ∀ path, ∀ o ∈ w.find? path, o.Consistent

theorem consistent_empty : empty.Consistent := by
  intro path o ho
  rw [find?_empty] at ho
  cases ho

theorem Consistent.step {w : Workspace} (hw : w.Consistent) (event : Event) :
    (w.step event).2.Consistent :=
  forall_find?_step hw Answers.consistent

/-- All documents have the lines of their texts. -/
def Indexed (w : Workspace) : Prop :=
  ∀ path, ∀ o ∈ w.find? path, o.document.Indexed

theorem indexed_empty : empty.Indexed := by
  intro path o ho
  rw [find?_empty] at ho
  cases ho

theorem Indexed.step {w : Workspace} (hw : w.Indexed) {event : Event}
    (hopened : ∀ document, event.request = .openDocument document → document.Indexed) :
    (w.step event).2.Indexed :=
  forall_find?_step hw fun hanswers => hanswers.indexed hopened

end Workspace

end TextTemplate
