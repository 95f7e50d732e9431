/-!
# Names up to the case of ASCII letters

Directive names, attribute names, known values and diagnostic codes are compared without regard to
the case of the letters `A` to `Z`; every other character, accented letters included, counts as
written. `lowerCase` and `upperCase` are the two canonical spellings and `sameLetters` is the
comparison.
-/
namespace TextTemplate

/-- The text with `A` to `Z` replaced by `a` to `z`. -/
def lowerCase (s : String) : String :=
  String.ofList (s.toList.map Char.toLower)

/-- The text with `a` to `z` replaced by `A` to `Z`. -/
def upperCase (s : String) : String :=
  String.ofList (s.toList.map Char.toUpper)

/-- The texts differ at most in the case of ASCII letters. -/
def sameLetters (s t : String) : Bool :=
  lowerCase s == lowerCase t

@[simp]
theorem sameLetters_iff {s t : String} : sameLetters s t = true ↔ lowerCase s = lowerCase t := by
  simp [sameLetters]

end TextTemplate
