import TextTemplate.Severity
import TextTemplate.Text.Bytes
import TextTemplate.Text.Letters

/-!
# Severity rules

A configuration maps diagnostic codes and prefixes of codes to settings. Of all keys that a code
starts with, in any case of letters, the longest decides; of two such keys of one length, the later
in the order of code points. A code that no key covers is an error.
-/
namespace TextTemplate

/-- What a configuration says of a code. -/
inductive Setting where
  /-- The diagnostic is not reported. -/
  | off
  /-- The diagnostic is reported with the severity. -/
  | report (severity : Severity)
deriving DecidableEq, Repr

namespace Setting

/-- The severity to report with, if the diagnostic is reported. -/
def severity? : Setting → Option Severity
  | off => none
  | report severity => some severity

/-- The setting of the name, spelled exactly. -/
def ofName? : String → Option Setting
  | "off" => some off
  | "error" => some (report .error)
  | "warning" => some (report .warning)
  | "info" => some (report .info)
  | "hint" => some (report .hint)
  | _ => none

end Setting

/-- A code or prefix of codes, and its setting. -/
@[ext]
structure Rule where
  key : String
  setting : Setting
deriving DecidableEq

namespace Rule

/-- The code starts with the rule's key, in any case of letters. -/
def covers (rule : Rule) (code : String) : Bool :=
  (lowerCase rule.key).toList.isPrefixOf (lowerCase code).toList

/-- The rule decides against `other` where both cover a code. -/
def outranks (rule other : Rule) : Bool :=
  let length := byteLength rule.key.toList
  let otherLength := byteLength other.key.toList
  otherLength < length || otherLength == length && other.key.toList < rule.key.toList

end Rule

/-- Rules with distinct keys. -/
@[ext]
structure Rules where
  rules : List Rule
  nodup : (rules.map (·.key)).Nodup
deriving DecidableEq

namespace Rules

/-- No rules. -/
def empty : Rules :=
  ⟨[], List.nodup_nil⟩

/-- The rules of which `keep` holds. -/
def filter (r : Rules) (keep : Rule → Bool) : Rules where
  rules := r.rules.filter keep
  nodup := r.nodup.sublist (List.filter_sublist.map _)

/-- The rules with a rule for exactly this key, in place of the one there is. -/
def insert (r : Rules) (key : String) (setting : Setting) : Rules where
  rules := (r.filter (·.key ≠ key)).rules ++ [⟨key, setting⟩]
  nodup := by
    rw [List.map_append, List.nodup_append]
    refine ⟨(r.filter (·.key ≠ key)).nodup, by simp, ?_⟩
    intro a ha b hb
    obtain ⟨rule, hrule, rfl⟩ := List.mem_map.mp ha
    have hne : rule.key ≠ key := by simpa [filter] using (List.mem_filter.mp hrule).2
    simp_all

/-- The rules with a rule for the key in upper case. -/
def set (r : Rules) (key : String) (setting : Setting) : Rules :=
  r.insert (upperCase key) setting

/-- The higher of two rules. -/
def higher : Option Rule → Rule → Option Rule
  | none, rule => some rule
  | some best, rule => if best.outranks rule then some best else some rule

/-- The rule that decides a code among those listed. -/
def decisiveOf (rules : List Rule) (code : String) : Option Rule :=
  (rules.filter (·.covers code)).foldl higher none

/-- The rule that decides a code. -/
def decisive? (r : Rules) (code : String) : Option Rule :=
  decisiveOf r.rules code

/-- The setting of a code. -/
def setting (r : Rules) (code : String) : Setting :=
  match r.decisive? code with
  | some rule => rule.setting
  | none => .report .error

/-- The code is reported. -/
def reports (r : Rules) (code : String) : Bool :=
  r.setting code ≠ .off

end Rules

end TextTemplate
