import TextTemplate.Analysis
import TextTemplate.Document.Tracking
import TextTemplate.Main
import TextTemplate.Proofs.AnchoredDiagnostics
import TextTemplate.Proofs.AnsweredOffsets
import TextTemplate.Proofs.AttributeShapes
import TextTemplate.Proofs.CheckedFiles
import TextTemplate.Proofs.Composition
import TextTemplate.Proofs.DescribedViolations
import TextTemplate.Proofs.DirectiveViews
import TextTemplate.Proofs.Escapes
import TextTemplate.Proofs.ExcerptPlaces
import TextTemplate.Proofs.LayeredRules
import TextTemplate.Proofs.LetterCase
import TextTemplate.Proofs.Nesting
import TextTemplate.Proofs.ReadInFull
import TextTemplate.Proofs.Recovery
import TextTemplate.Proofs.RoundTrip
import TextTemplate.Proofs.SettingsPrecedence
import TextTemplate.Proofs.SeverityLookup
import TextTemplate.Proofs.Tiling
import TextTemplate.Proofs.VisitedNodes
import TextTemplate.Proofs.WordSpans
import TextTemplate.Proofs.WorkspaceRuns
import TextTemplate.Schema.View
import TextTemplate.Tree.Visitor
