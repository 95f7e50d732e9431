import Mathlib.Data.List.Induction
import TextTemplate.Proofs.OpenDocuments

/-!
# Runs of a workspace

A run is a list of `Transition`s, and what has happened in it is read off them: the texts that a
document has really changed to (`changes`) and the analyses that a watcher was told of (`calls`). As
long as the document is neither opened anew nor closed it keeps its analyzer. In such a `Stretch` of
a run the revision grows by the number of changes, and each watcher is told of each change once, in
order, with the revision that it led to (`exists_stretch`). Every analyzer has lived through one
stretch since it was created (`exists_stretch_of_analyzerAt?`).

What is promised of whole runs is put together in `SoundRun`, and holds of every run (`soundRun`).
-/
namespace TextTemplate

namespace Workspace

/-! ## Transitions -/

/-- A workspace and the event that it meets. -/
structure Transition where
  before : Workspace
  event : Event

namespace Transition
variable (t : Transition)

/-- The workspace after the event. -/
def after : Workspace :=
  (t.before.step t.event).2

def response : Response :=
  (t.before.step t.event).1

/-- The text that the document at the path changes to, if the event is about the path and the text
becomes another one. -/
def change? (path : String) : Option String :=
  if t.event.IsAt path then
    match t.before.document? path, t.after.document? path with
    | some old, some new => if old.text = new.text then none else some new.text
    | _, _ => none
  else none

/-- What the watcher in the slot is told, if the event is about its path and it is told at all. -/
def call? (path : String) (slot : Nat) (watcher : String) : Option Analysis :=
  if t.event.IsAt path ∧ t.response.told[slot]? = some watcher then
    t.response.snapshot?.map (·.analysis)
  else none

end Transition

/-- The transitions of a run. -/
def transitions (w : Workspace) : List Event → List Transition
  | [] => []
  | event :: events => ⟨w, event⟩ :: transitions (w.step event).2 events

/-- The texts that the document at the path really changes to in a run, in order. -/
def changes (path : String) (w : Workspace) (events : List Event) : List String :=
  (w.transitions events).filterMap (·.change? path)

/-- All that the watcher in the slot is told in a run, in order. -/
def calls (path : String) (slot : Nat) (watcher : String) (w : Workspace) (events : List Event) :
    List Analysis :=
  (w.transitions events).filterMap (·.call? path slot watcher)

/-- The event leaves the document at the path and its analyzer in place. -/
def Event.Keeps (event : Event) (path : String) : Prop :=
  event.IsAt path → event.request.resets = false

/-- The watcher that an event adds at the path. -/
def Event.watcher? (event : Event) (path : String) : Option String :=
  if event.IsAt path then event.request.watcher? else none

/-- The watchers that events add at the path, in order. -/
def registrations (path : String) (events : List Event) : List String :=
  events.filterMap (·.watcher? path)

/-! ## One step -/

/-- What a transition comes to at a document whose analyzer `a` it keeps. -/
structure Follows (path : String) (t : Transition) (a : Analyzer) (document' : Document)
    (a' : Analyzer) : Prop where
  find : t.after.find? path = some ⟨document', some a'⟩
  watchers_eq : a'.watchers = a.watchers ++ (t.event.watcher? path).toList
  revision_eq : a'.revision = a.revision + (t.change? path).toList.length
  call_eq : ∀ slot watcher, a.watchers[slot]? = some watcher →
    t.call? path slot watcher = (t.change? path).map (.ofText (a.revision + 1))

/-- A transition that keeps a document keeps its analyzer. -/
theorem exists_follows {path : String} {t : Transition} {document : Document} {a : Analyzer}
    (hfind : t.before.find? path = some ⟨document, some a⟩) (ha : a.Mirrors document)
    (hkeeps : t.event.Keeps path) : ∃ document' a', Follows path t a document' a' := by
  by_cases hat : t.event.IsAt path
  · obtain ⟨now, hanswers, hnow⟩ := find?_step_of_isAt t.before hat
    rw [hfind] at hanswers
    obtain ⟨document', a', rfl, hwatchers, hcases⟩ := hanswers.kept ha (hkeeps hat)
    have hchange : t.change? path =
        if document.text = document'.text then none else some document'.text := by
      rw [Transition.change?, if_pos hat, document?, document?, hfind, Transition.after, hnow]
      rfl
    refine ⟨document', a', hnow, ?_, ?_, ?_⟩
    · rw [hwatchers, Event.watcher?, if_pos hat]
    · rcases hcases with ⟨ht, hrevision, -⟩ | ⟨ht, hrevision, -⟩
      · rw [hchange, if_pos ht, hrevision]
        rfl
      · rw [hchange, if_neg ht, hrevision]
        rfl
    · intro slot watcher hslot
      rcases hcases with ⟨ht, -, htold⟩ | ⟨ht, -, htold, hanalysis⟩
      · rw [hchange, if_pos ht, Transition.call?, Transition.response, htold,
          if_neg (by simp)]
        rfl
      · rw [hchange, if_neg ht, Transition.call?, Transition.response, htold,
          if_pos ⟨hat, hslot⟩, hanalysis]
        rfl
  · have hchange : t.change? path = none := if_neg hat
    refine ⟨document, a, (find?_step_of_not_isAt hat).trans hfind, ?_, ?_, fun slot watcher _ => ?_⟩
    · rw [Event.watcher?, if_neg hat, Option.toList_none, List.append_nil]
    · rw [hchange]
      rfl
    · rw [hchange, Transition.call?, if_neg (fun h => hat h.1)]
      rfl

/-! ## Stretches of a run -/

/-- The analyses of the texts, with consecutive revisions. -/
def analysesFrom (revision : Nat) (texts : List String) : List Analysis :=
  (texts.zipIdx revision).map fun (text, revision) => .ofText revision text

section Cons
variable (path : String) (w : Workspace) (event : Event) (events : List Event)

theorem changes_cons :
    changes path w (event :: events) =
      ((⟨w, event⟩ : Transition).change? path).toList ++ changes path (w.step event).2 events := by
  rw [changes, transitions, List.filterMap_cons]
  cases (⟨w, event⟩ : Transition).change? path <;> rfl

theorem calls_cons (slot : Nat) (watcher : String) :
    calls path slot watcher w (event :: events) =
      ((⟨w, event⟩ : Transition).call? path slot watcher).toList ++
        calls path slot watcher (w.step event).2 events := by
  rw [calls, transitions, List.filterMap_cons]
  cases (⟨w, event⟩ : Transition).call? path slot watcher <;> rfl

theorem registrations_cons :
    registrations path (event :: events) =
      (event.watcher? path).toList ++ registrations path events := by
  rw [registrations, List.filterMap_cons]
  cases event.watcher? path <;> rfl

end Cons

/-- What a run comes to at a document whose analyzer `a` it keeps: `a` has become `a'`. -/
structure Stretch (path : String) (w : Workspace) (events : List Event) (a : Analyzer)
    (document' : Document) (a' : Analyzer) : Prop where
  find : (w.run events).find? path = some ⟨document', some a'⟩
  watchers_eq : a'.watchers = a.watchers ++ registrations path events
  revision_eq : a'.revision = a.revision + (changes path w events).length
  calls_eq : ∀ slot watcher, a.watchers[slot]? = some watcher →
    calls path slot watcher w events = analysesFrom (a.revision + 1) (changes path w events)

/-- A run that keeps a document keeps its analyzer. -/
theorem exists_stretch {path : String} {w : Workspace} {document : Document} {a : Analyzer}
    (hw : w.Consistent) (hfind : w.find? path = some ⟨document, some a⟩) {events : List Event}
    (hkeeps : ∀ event ∈ events, event.Keeps path) :
    ∃ document' a', Stretch path w events a document' a' := by
  induction events generalizing w document a with
  | nil => exact ⟨document, a, hfind, (List.append_nil _).symm, rfl, fun _ _ _ => rfl⟩
  | cons event events ih =>
    rw [List.forall_mem_cons] at hkeeps
    have ha : a.Mirrors document := hw path _ hfind a rfl
    obtain ⟨document₁, a₁, hstep⟩ := exists_follows (t := ⟨w, event⟩) hfind ha hkeeps.1
    obtain ⟨document', a', hrest⟩ := ih (hw.step event) hstep.find hkeeps.2
    refine ⟨document', a', hrest.find, ?_, ?_, fun slot watcher hslot => ?_⟩
    · rw [hrest.watchers_eq, hstep.watchers_eq, List.append_assoc, registrations_cons]
    · rw [hrest.revision_eq, hstep.revision_eq, changes_cons, List.length_append]
      omega
    · have hslot₁ : a₁.watchers[slot]? = some watcher := by
        rw [hstep.watchers_eq, List.getElem?_append_left (List.getElem?_eq_some_iff.mp hslot).1,
          hslot]
      have hrevision := hstep.revision_eq
      rw [calls_cons, hstep.call_eq slot watcher hslot, hrest.calls_eq slot watcher hslot₁,
        changes_cons]
      -- a change takes the next revision, and the later ones follow it
      cases hchange : (⟨w, event⟩ : Transition).change? path with
      | none | some =>
        rw [hchange] at hrevision
        rw [hrevision]
        rfl

/-! ## The life of an analyzer -/

/-- The analyzer at the path. -/
def analyzerAt? (w : Workspace) (path : String) : Option Analyzer :=
  (w.find? path).bind (·.analyzer)

theorem exists_find?_of_analyzerAt? {w : Workspace} {path : String} {a : Analyzer}
    (h : w.analyzerAt? path = some a) : ∃ document, w.find? path = some ⟨document, some a⟩ := by
  obtain ⟨⟨document, _⟩, hfind, rfl⟩ := Option.bind_eq_some_iff.mp h
  exact ⟨document, hfind⟩

/-- The workspace after the events, with nothing open before. -/
def ofEvents (events : List Event) : Workspace :=
  empty.run events

theorem run_append (w : Workspace) (events later : List Event) :
    w.run (events ++ later) = (w.run events).run later :=
  List.foldl_append

theorem consistent_run {w : Workspace} (hw : w.Consistent) (events : List Event) :
    (w.run events).Consistent := by
  induction events generalizing w with
  | nil => exact hw
  | cons event events ih => exact ih (hw.step event)

theorem consistent_ofEvents (events : List Event) : (ofEvents events).Consistent :=
  consistent_run consistent_empty events

/-- Documents have the lines of their texts if those that were opened have them. -/
theorem indexed_run {w : Workspace} (hw : w.Indexed) {events : List Event}
    (hopened : ∀ event ∈ events, ∀ document,
      event.request = .openDocument document → document.Indexed) : (w.run events).Indexed := by
  induction events generalizing w with
  | nil => exact hw
  | cons event events ih =>
    rw [List.forall_mem_cons] at hopened
    exact ih (hw.step hopened.1) hopened.2

theorem created {path : String} {w : Workspace} {event : Event} {a : Analyzer}
    (hbefore : w.analyzerAt? path = none) (hafter : (w.step event).2.analyzerAt? path = some a) :
    a.revision = 0 ∧ a.watchers = (event.watcher? path).toList := by
  have hat : event.IsAt path := by
    by_contra hat
    rw [analyzerAt?, find?_step_of_not_isAt hat, ← analyzerAt?, hbefore] at hafter
    cases hafter
  obtain ⟨now, hanswers, hnow⟩ := find?_step_of_isAt w hat
  rw [analyzerAt?, hnow] at hafter
  rw [Event.watcher?, if_pos hat]
  exact hanswers.created hbefore hafter

theorem keeps_of_analyzerAt? {path : String} {w : Workspace} {event : Event} {a : Analyzer}
    (hafter : (w.step event).2.analyzerAt? path = some a) : event.Keeps path := by
  intro hat
  obtain ⟨now, hanswers, hnow⟩ := find?_step_of_isAt w hat
  rw [analyzerAt?, hnow] at hafter
  exact hanswers.resets_eq hafter

/-- Every analyzer was created by an event, and has been kept since. -/
theorem exists_created {path : String} {events : List Event} {a : Analyzer}
    (h : (ofEvents events).analyzerAt? path = some a) :
    ∃ before created later first, events = before ++ created :: later ∧
      (ofEvents before).analyzerAt? path = none ∧
      (ofEvents (before ++ [created])).analyzerAt? path = some first ∧
      ∀ event ∈ later, event.Keeps path := by
  -- from the last event backwards, as long as there was an analyzer before the event
  induction events using List.reverseRecOn generalizing a with
  | nil =>
    rw [ofEvents, run, List.foldl_nil, analyzerAt?, find?_empty] at h
    cases h
  | append_singleton events event ih =>
    cases hbefore : (ofEvents events).analyzerAt? path with
    | none => exact ⟨events, event, [], a, rfl, hbefore, h, List.forall_mem_nil _⟩
    | some _ =>
      obtain ⟨before, created, later, first, rfl, habsent, hfirst, hkeeps⟩ := ih hbefore
      refine ⟨before, created, later ++ [event], first, by simp, habsent, hfirst, ?_⟩
      rw [ofEvents, run_append] at h
      rw [List.forall_mem_append, List.forall_mem_singleton]
      exact ⟨hkeeps, keeps_of_analyzerAt? h⟩

/-- An analyzer is what has become, since its creation, of a new one. -/
theorem exists_stretch_of_analyzerAt? {path : String} {events : List Event} {a : Analyzer}
    (h : (ofEvents events).analyzerAt? path = some a) :
    ∃ before event later first document, events = before ++ event :: later ∧
      (ofEvents before).analyzerAt? path = none ∧
      (ofEvents (before ++ [event])).analyzerAt? path = some first ∧
      (∀ event ∈ later, event.Keeps path) ∧
      first.revision = 0 ∧ first.watchers = (event.watcher? path).toList ∧
      Stretch path (ofEvents (before ++ [event])) later first document a := by
  obtain ⟨before, event, later, first, rfl, habsent, hfirst, hkeeps⟩ := exists_created h
  obtain ⟨_, hfind⟩ := exists_find?_of_analyzerAt? hfirst
  obtain ⟨document, a', hstretch⟩ := exists_stretch (consistent_ofEvents _) hfind hkeeps
  have hend := hstretch.find
  rw [ofEvents, ← run_append, List.append_assoc] at hend
  rw [ofEvents, analyzerAt?, ← List.singleton_append, hend] at h
  obtain rfl : a' = a := Option.some.inj h
  have hnew : first.revision = 0 ∧ first.watchers = (event.watcher? path).toList := by
    rw [ofEvents, run_append] at hfirst
    exact created habsent hfirst
  exact ⟨before, event, later, first, document, rfl, habsent, hfirst, hkeeps, hnew.1, hnew.2,
    hstretch⟩

/-- Whoever asks to be told about an open document gets the last slot of its analyzer. -/
theorem find?_of_watch {path : String} (watcher : String) {before : List Event} {o : OpenDocument}
    (h : (ofEvents before).find? path = some o) :
    (ofEvents (before ++ [⟨path, .watch watcher⟩])).find? path =
      some ⟨o.document, some (o.analyzerOrNew.watchedBy watcher)⟩ := by
  have hat : (⟨path, .watch watcher⟩ : Event).IsAt path := rfl
  obtain ⟨now, hanswers, hnow⟩ := find?_step_of_isAt (ofEvents before) hat
  rw [h] at hanswers
  rw [ofEvents, run_append, ← hanswers.eq_of_watch]
  exact hnow

/-! ## Whole runs -/

/-- What is promised of a single step. -/
structure SoundStep (t : Transition) : Prop where
  /-- A document that is opened takes the place of whatever was open, and has no analyzer yet. -/
  opened : ∀ document, t.event.request = .openDocument document →
    t.response = .opened ∧ t.after.find? t.event.path = some ⟨document, none⟩
  /-- Closing hands out the document, and nothing is open afterwards. -/
  closed : t.event.request = .close →
    t.response = .closed (t.before.document? t.event.path) ∧ t.after.find? t.event.path = none
  /-- All other requests but changes leave the document as it is. -/
  read : t.event.request.resets = false → t.event.request.changes = false →
    t.after.document? t.event.path = t.before.document? t.event.path
  /-- An analysis that is handed out is that of the document's text, with the analyzer's revision:
  the one that the document would have if it were opened now, apart from the revision. -/
  returned : ∀ snapshot, t.response.snapshot? = some snapshot →
    ∃ document a fresh, t.after.find? t.event.path = some ⟨document, some a⟩ ∧
      snapshot.analysis = .ofText a.revision document.text ∧
      ((empty.openDocument t.event.path document).analysis? t.event.path).1 = some fresh ∧
      snapshot.analysis = { fresh.analysis with revision := a.revision }
  /-- An open document has an analyzer for whoever asks, and keeps it. -/
  analyzer : t.event.request = .analyzer → (t.before.find? t.event.path).isSome →
    ∃ document a, t.response = .analyzer (some a) ∧
      t.after.find? t.event.path = some ⟨document, some a⟩
  /-- An open document has an analysis for whoever asks. -/
  analysis : t.event.request = .analysis → (t.before.find? t.event.path).isSome →
    ∃ snapshot, t.response = .analysis (some snapshot)
  /-- A change of an analysed document hands out the new analysis. All watchers are told of it if
  the text is another one, and nobody otherwise. -/
  analysed : ∀ old a new, t.before.find? t.event.path = some ⟨old, some a⟩ →
    t.event.request.Makes old new →
    ∃ snapshot a',
      t.response = .changed ⟨some snapshot, if old.text = new.text then [] else a.watchers⟩ ∧
      t.after.find? t.event.path = some ⟨new, some a'⟩
  /-- A change of any other document hands out nothing, and the document is changed as well. -/
  unanalysed : ∀ old new, t.before.find? t.event.path = some ⟨old, none⟩ →
    t.event.request.Makes old new →
    t.response = .changed ⟨none, []⟩ ∧ t.after.find? t.event.path = some ⟨new, none⟩
  /-- Edits fail for the first that does not fit what the ones before it have left. -/
  refused : ∀ document edits version error, t.before.document? t.event.path = some document →
    t.event.request = .edit edits version → Edit.FirstRefuses edits document.text.toList error →
    t.response = .failed (.edit error)
  /-- Where nothing is open changes fail. -/
  absent : t.before.find? t.event.path = none → t.event.request.changes →
    t.response = .failed (.documentNotOpen t.event.path)
  /-- What fails changes nothing. -/
  failed : ∀ error, t.response = .failed error → t.after = t.before
  /-- Other paths are left alone. -/
  others : ∀ path, ¬ t.event.IsAt path → t.after.find? path = t.before.find? path

/-- What is promised of a run from the empty workspace. -/
structure SoundRun (events : List Event) : Prop where
  step : ∀ t ∈ empty.transitions events, SoundStep t
  /-- An analyzer has the text of its document. -/
  text_eq : ∀ path document a, (ofEvents events).find? path = some ⟨document, some a⟩ →
    a.text = document.text
  /-- A document has the lines of its text, if those that are opened have them. -/
  lines_eq : (∀ event ∈ events, ∀ document,
      event.request = .openDocument document → document.Indexed) →
    ∀ path document, (ofEvents events).document? path = some document →
      document.lines = .ofText document.text
  /-- The revision of an analyzer is the number of real changes since it was created, and its
  watchers are those that have asked since. -/
  revision_eq : ∀ path a, (ofEvents events).analyzerAt? path = some a →
    ∃ before created later, events = before ++ created :: later ∧
      (ofEvents before).analyzerAt? path = none ∧
      ((ofEvents (before ++ [created])).analyzerAt? path).isSome ∧
      (∀ event ∈ later, event.Keeps path) ∧
      a.revision = (changes path (ofEvents (before ++ [created])) later).length ∧
      a.watchers = registrations path (created :: later)
  /-- From the time it asked, and as long as the document keeps its analyzer, a watcher has been
  told once of each real change: of the analysis of the new text, with consecutive revisions. -/
  calls_eq : ∀ before path watcher later, events = before ++ ⟨path, .watch watcher⟩ :: later →
    ((ofEvents before).find? path).isSome → (∀ event ∈ later, event.Keeps path) →
    ∃ a slot, (ofEvents (before ++ [⟨path, .watch watcher⟩])).analyzerAt? path = some a ∧
      a.watchers.length = slot + 1 ∧ a.watchers[slot]? = some watcher ∧
      calls path slot watcher (ofEvents (before ++ [⟨path, .watch watcher⟩])) later =
        analysesFrom (a.revision + 1)
          (changes path (ofEvents (before ++ [⟨path, .watch watcher⟩])) later)

theorem analysis?_openDocument (w : Workspace) (path : String) (document : Document) :
    ((w.openDocument path document).analysis? path).1 =
      some ⟨w.made, .ofText 0 document.text⟩ := by
  have hfind : (w.openDocument path document).find? path = some ⟨document, none⟩ :=
    (sets_put _ path).trans (if_pos rfl)
  simp only [analysis?, hfind]
  rfl

theorem soundStep {t : Transition} (hbefore : t.before.Consistent) : SoundStep t := by
  have hat : t.event.IsAt t.event.path := rfl
  obtain ⟨now, hanswers, hnow⟩ := find?_step_of_isAt t.before hat
  constructor
  case opened =>
    intro document hrequest
    rw [hrequest] at hanswers
    obtain ⟨hresponse, rfl⟩ := hanswers.eq_of_openDocument
    exact ⟨hresponse, hnow⟩
  case closed =>
    intro hrequest
    rw [hrequest] at hanswers
    obtain ⟨hresponse, rfl⟩ := hanswers.eq_of_close
    exact ⟨hresponse, hnow⟩
  case read =>
    intro hresets hchanges
    rw [document?, document?, Transition.after, hnow]
    exact hanswers.document_eq hresets hchanges
  case returned =>
    intro snapshot hsnapshot
    obtain ⟨document, a, rfl, hanalysis⟩ := hanswers.returned (hbefore _) hsnapshot
    refine ⟨document, a, _, hnow, hanalysis, analysis?_openDocument _ _ _, ?_⟩
    rw [hanalysis]
    rfl
  case analyzer =>
    intro hrequest hopen
    obtain ⟨o, ho⟩ := Option.isSome_iff_exists.mp hopen
    rw [ho, hrequest] at hanswers
    obtain ⟨hresponse, rfl⟩ := hanswers.eq_of_analyzer
    exact ⟨_, _, hresponse, hnow⟩
  case analysis =>
    intro hrequest hopen
    obtain ⟨o, ho⟩ := Option.isSome_iff_exists.mp hopen
    rw [ho, hrequest] at hanswers
    exact ⟨_, hanswers.eq_of_analysis⟩
  case analysed =>
    intro old a new hfind hmakes
    rw [hfind] at hanswers
    obtain ⟨hresponse, rfl⟩ := hanswers.eq_of_analysed hmakes
    rw [Analyzer.told, (hbefore _ _ hfind a rfl).text_eq] at hresponse
    exact ⟨_, _, hresponse, hnow⟩
  case unanalysed =>
    intro old new hfind hmakes
    rw [hfind] at hanswers
    obtain ⟨hresponse, rfl⟩ := hanswers.eq_of_unanalysed hmakes
    exact ⟨hresponse, hnow⟩
  case refused =>
    intro document edits version error hdocument hrequest hrefuses
    obtain ⟨o, ho, rfl⟩ := Option.map_eq_some_iff.mp hdocument
    rw [ho, hrequest] at hanswers
    exact hanswers.eq_of_refused (Document.edit_eq_error_iff.mpr hrefuses)
  case absent => exact response_of_absent
  case failed => exact fun error h => step_of_failed h
  case others => exact fun path h => find?_step_of_not_isAt h

theorem consistent_of_mem_transitions {w : Workspace} (hw : w.Consistent) {events : List Event}
    {t : Transition} (ht : t ∈ w.transitions events) : t.before.Consistent := by
  induction events generalizing w with
  | nil => cases ht
  | cons event events ih =>
    rcases List.mem_cons.mp ht with rfl | ht
    · exact hw
    · exact ih (hw.step event) ht

/-- What is promised of runs holds of every run. -/
theorem soundRun (events : List Event) : SoundRun events := by
  constructor
  case step => exact fun t ht => soundStep (consistent_of_mem_transitions consistent_empty ht)
  case text_eq =>
    intro path document a hfind
    exact (consistent_ofEvents events path _ hfind a rfl).text_eq
  case lines_eq =>
    intro hopened path document hdocument
    obtain ⟨o, ho, rfl⟩ := Option.map_eq_some_iff.mp hdocument
    exact indexed_run indexed_empty hopened path o ho
  case revision_eq =>
    intro path a ha
    obtain ⟨before, event, later, first, document, rfl, habsent, hfirst, hkeeps, hrevision,
      hwatchers, hstretch⟩ := exists_stretch_of_analyzerAt? ha
    refine ⟨before, event, later, rfl, habsent, Option.isSome_of_mem hfirst, hkeeps, ?_, ?_⟩
    · rw [hstretch.revision_eq, hrevision, Nat.zero_add]
    · rw [hstretch.watchers_eq, hwatchers, registrations_cons]
  case calls_eq =>
    rintro before path watcher later rfl hopen hkeeps
    obtain ⟨o, ho⟩ := Option.isSome_iff_exists.mp hopen
    have hfind := find?_of_watch watcher ho
    obtain ⟨_, _, hstretch⟩ := exists_stretch (consistent_ofEvents _) hfind hkeeps
    have hslot : (o.analyzerOrNew.watchedBy watcher).watchers[o.analyzerOrNew.watchers.length]? =
        some watcher := List.getElem?_concat_length
    refine ⟨_, o.analyzerOrNew.watchers.length, ?_, List.length_append, hslot,
      hstretch.calls_eq _ _ hslot⟩
    rw [analyzerAt?, hfind]
    rfl

end Workspace

end TextTemplate
