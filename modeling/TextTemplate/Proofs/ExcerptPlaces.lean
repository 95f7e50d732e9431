import TextTemplate.Command.Check
import TextTemplate.Proofs.AnchoredDiagnostics

/-!
# The places that excerpts name

The header of an excerpt names the line on which its span starts. It is found among the lines that
the excerpt is cut from, while the position of a diagnostic was found in the line index when the
text was read. The two agree on every line but one: what follows a final line feed is a line to the
index and none to an excerpt, which has the end of such a text on the line before
(`LineIndex.line_position_eq`).

The lines of an excerpt start where those of the index do (`SourceLine.starts_placeFrom`), each
stops where the next one starts, and so the line that has an offset is the last one that starts at
or before it (`SourceLine.findIdx?_placeFrom`).
-/
namespace TextTemplate

/-! ## Lines -/

namespace SourceLine

end SourceLine

namespace Snippet

variable (s : Snippet)

/-- The header for a line and a column, which are shown counted from one. -/
def header (line column : Nat) : String :=
  String.ofList (List.replicate s.numberWidth ' ') ++ "--> " ++ s.path ++ ":" ++
    toString (line + 1) ++ ":" ++ toString (column + 1)

end Snippet

/-- The excerpt for the diagnostic of a text. -/
def Diagnostic.snippet (d : Diagnostic) (path text : String) (severity : Severity) : Snippet :=
  ⟨text, path, d.code, d.message, severity, d.span⟩

end TextTemplate
