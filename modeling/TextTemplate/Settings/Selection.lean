import TextTemplate.Settings.Rules

/-!
# Selected and ignored codes

A caller can restrict what is reported to some codes or prefixes, and turn codes or prefixes off.
Selecting turns everything else off and keeps the configured settings of what is selected, except
that a code selected by name is on even if it was off.
-/
namespace TextTemplate

namespace Rules

/-- The configured setting of a selected code; a code that is off becomes an error. -/
def selectedSetting (configured : Rules) (code : String) : Setting :=
  match configured.setting code with
  | .off => .report .error
  | setting => setting

/-- The rule is for something more special than one of the selected codes. -/
def refines (rule : Rule) (select : List String) : Bool :=
  select.any fun code =>
    byteLength code.toList < byteLength rule.key.toList &&
      (upperCase code).toList.isPrefixOf (upperCase rule.key).toList

/-- The rules restricted to the selected codes, if there are any. -/
def restrict (configured : Rules) (select : List String) : Rules :=
  if select.isEmpty then configured
  else
    select.foldl (fun rules code => rules.set code (configured.selectedSetting code))
      ((configured.filter (refines · select)).set "" .off)

/-- The rules with the selected codes on and the ignored ones off. -/
def layered (configured : Rules) (select ignore : List String) : Rules :=
  ignore.foldl (fun rules code => rules.set code .off) (configured.restrict select)

end Rules

end TextTemplate
