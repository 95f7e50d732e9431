/-!
# Severities of diagnostics

How serious a reported diagnostic is. What a configuration says of a code, which may also be that it
is not reported at all, is a `Setting` of its own.
-/
namespace TextTemplate

/-- How serious a diagnostic is. -/
inductive Severity where
  | error
  | warning
  | info
  | hint
deriving DecidableEq, Repr

end TextTemplate
