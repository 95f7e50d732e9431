import Std.Data.HashMap
import TextTemplate.Analysis
import TextTemplate.Document.Edit
import TextTemplate.Files.Path
import TextTemplate.Schema.Hover

/-!
# Workspaces

A workspace holds the open documents. A document gets an analyzer when one is first asked for. The
analyzer keeps up with the text of the document: each change of the text is a new revision, which is
analysed once, and whoever watches the document is told of the new analysis. A change to an equal
text is no change.

`Workspace.step` answers one event; a run of a workspace is a fold of it.
-/
namespace TextTemplate

/-- An analysis and its number among all that the workspace has made. -/
@[ext]
structure Snapshot where
  serial : Nat
  analysis : Analysis
deriving DecidableEq

/-- What keeps the analysis of one document. -/
@[ext]
structure Analyzer where
  text : String
  revision : Nat
  /-- The analysis of the text, once there is one. -/
  memo : Option Snapshot
  /-- Who is told of changes, in the order in which they asked. -/
  watchers : List String
deriving DecidableEq

namespace Analyzer

/-- The analyzer of a text that has not been analysed yet. -/
def ofText (text : String) : Analyzer :=
  ⟨text, 0, none, []⟩

/-- The analysis of the text, numbered `serial` if it has to be made. -/
def snapshot (a : Analyzer) (serial : Nat) : Snapshot :=
  a.memo.getD ⟨serial, .ofText a.revision a.text⟩

/-- The analyzer once its text has been analysed. -/
def analysed (a : Analyzer) (serial : Nat) : Analyzer :=
  { a with memo := some (a.snapshot serial) }

/-- The analyzer with the text; only a different text is a new revision. -/
def update (a : Analyzer) (text : String) : Analyzer :=
  if a.text = text then a else { a with text, revision := a.revision + 1, memo := none }

/-- Who is told when the text becomes `text`. -/
def told (a : Analyzer) (text : String) : List String :=
  if a.text = text then [] else a.watchers

end Analyzer

/-- A document and, once asked for, its analyzer. -/
@[ext]
structure OpenDocument where
  document : Document
  analyzer : Option Analyzer
deriving DecidableEq

namespace OpenDocument

/-- The analyzer, made from the document if there is none yet. -/
def analyzerOrNew (o : OpenDocument) : Analyzer :=
  o.analyzer.getD (.ofText o.document.text)

end OpenDocument

/-- Why a document cannot be changed. -/
inductive WorkspaceError where
  | documentNotOpen (path : String)
  | edit (error : EditError)
deriving DecidableEq, Repr

namespace WorkspaceError

/-- The message for whoever asked. -/
def message : WorkspaceError → String
  | documentNotOpen path => "document is not open: " ++ path
  | edit error => error.message

end WorkspaceError

/-- The open documents by path, and the number of analyses made so far. -/
structure Workspace where
  documents : Std.HashMap Path OpenDocument
  made : Nat

/-- What comes of a change: the analysis of the new text, if the document has an analyzer, and who
is told of it. -/
@[ext]
structure Change where
  snapshot : Option Snapshot
  told : List String
deriving DecidableEq

namespace Workspace

/-- The workspace without documents. -/
def empty : Workspace :=
  ⟨∅, 0⟩

/-- What is open at the path. -/
def find? (w : Workspace) (path : String) : Option OpenDocument :=
  w.documents[Path.ofString path]?

/-- The workspace with `o` at the path. -/
def put (w : Workspace) (path : String) (o : OpenDocument) : Workspace :=
  { w with documents := w.documents.insert (Path.ofString path) o }

/-- The workspace with the document at the path, in place of what was open there. -/
def openDocument (w : Workspace) (path : String) (document : Document) : Workspace :=
  w.put path ⟨document, none⟩

/-- The document at the path. -/
def document? (w : Workspace) (path : String) : Option Document :=
  (w.find? path).map (·.document)

/-- The workspace without the document at the path, and that document. -/
def close (w : Workspace) (path : String) : Option Document × Workspace :=
  (w.document? path, { w with documents := w.documents.erase (Path.ofString path) })

/-- The analyzer of the document at the path, made if there is none yet. -/
def analyzer? (w : Workspace) (path : String) : Option Analyzer × Workspace :=
  match w.find? path with
  | none => (none, w)
  | some o => (some o.analyzerOrNew, w.put path { o with analyzer := o.analyzerOrNew })

/-- The analyzer tells `watcher` of changes from now on; whether the document is open. -/
def watch (w : Workspace) (path : String) (watcher : String) : Bool × Workspace :=
  match w.find? path with
  | none => (false, w)
  | some o =>
    let a := o.analyzerOrNew
    (true, w.put path { o with analyzer := some { a with watchers := a.watchers ++ [watcher] } })

/-- The analysis by the analyzer, and the workspace with it kept at the path. -/
def settle (w : Workspace) (path : String) (document : Document) (a : Analyzer) :
    Snapshot × Workspace :=
  let made := if a.memo.isSome then w.made else w.made + 1
  (a.snapshot w.made, { w.put path ⟨document, some (a.analysed w.made)⟩ with made })

/-- The analysis of the document at the path. -/
def analysis? (w : Workspace) (path : String) : Option Snapshot × Workspace :=
  match w.find? path with
  | none => (none, w)
  | some o =>
    let (snapshot, w) := w.settle path o.document o.analyzerOrNew
    (some snapshot, w)

/-- What to show at an offset of the document at the path. -/
def describeAt? (w : Workspace) (path : String) (offset : Nat) : Option QuickInfo × Workspace :=
  let (snapshot, w) := w.analysis? path
  (snapshot.bind (·.analysis.template.describeAt? offset), w)

/-- The workspace with another document in place of what is open at the path. -/
def change (w : Workspace) (path : String) (o : OpenDocument) (document : Document) :
    Change × Workspace :=
  match o.analyzer with
  | none => (⟨none, []⟩, w.put path ⟨document, none⟩)
  | some a =>
    let (snapshot, w) := w.settle path document (a.update document.text)
    (⟨some snapshot, a.told document.text⟩, w)

/-- The workspace with the edits made to the document at the path. -/
def edit (w : Workspace) (path : String) (edits : List Edit) (version : Int) :
    Except WorkspaceError Change × Workspace :=
  match w.find? path with
  | none => (.error (.documentNotOpen path), w)
  | some o =>
    match o.document.edit edits version with
    | .error error => (.error (.edit error), w)
    | .ok document =>
      let (change, w) := w.change path o document
      (.ok change, w)

/-- The workspace with another text for the document at the path. -/
def replace (w : Workspace) (path : String) (text : String) (version : Int) :
    Except WorkspaceError Change × Workspace :=
  match w.find? path with
  | none => (.error (.documentNotOpen path), w)
  | some o =>
    let (change, w) := w.change path o (o.document.replace text version)
    (.ok change, w)

/-- What can be asked of a workspace about one path. -/
inductive Request where
  | openDocument (document : Document)
  | close
  | document
  | analyzer
  | watch (watcher : String)
  | analysis
  | describeAt (offset : Nat)
  | edit (edits : List Edit) (version : Int)
  | replace (text : String) (version : Int)
deriving DecidableEq

/-- A request and the path it is about. -/
structure Event where
  path : String
  request : Request
deriving DecidableEq

/-- What a workspace answers to each request. -/
inductive Response where
  | opened
  | closed (document : Option Document)
  | document (document : Option Document)
  | analyzer (analyzer : Option Analyzer)
  | watching (open_ : Bool)
  | analysis (snapshot : Option Snapshot)
  | description (info : Option QuickInfo)
  | changed (change : Change)
  | failed (error : WorkspaceError)

/-- The response to a change. -/
def Response.ofChange : Except WorkspaceError Change → Response
  | .ok change => .changed change
  | .error error => .failed error

/-- The response to an event, and the workspace after it. -/
def step (w : Workspace) (event : Event) : Response × Workspace :=
  let path := event.path
  match event.request with
  | .openDocument document => (.opened, w.openDocument path document)
  | .close =>
    let (document, w) := w.close path
    (.closed document, w)
  | .document => (.document (w.document? path), w)
  | .analyzer =>
    let (a, w) := w.analyzer? path
    (.analyzer a, w)
  | .watch watcher =>
    let (open_, w) := w.watch path watcher
    (.watching open_, w)
  | .analysis =>
    let (snapshot, w) := w.analysis? path
    (.analysis snapshot, w)
  | .describeAt offset =>
    let (info, w) := w.describeAt? path offset
    (.description info, w)
  | .edit edits version =>
    let (result, w) := w.edit path edits version
    (.ofChange result, w)
  | .replace text version =>
    let (result, w) := w.replace path text version
    (.ofChange result, w)

/-- The workspace after the events. -/
def run (w : Workspace) (events : List Event) : Workspace :=
  events.foldl (fun w event => (w.step event).2) w

end Workspace

end TextTemplate
