import Mathlib.Data.Char
import Mathlib.Data.List.Lex
import TextTemplate.Proofs.ByteCuts
import TextTemplate.Proofs.LowerCase
import TextTemplate.Settings.Rules

/-!
# The rule that decides a code

Keys and codes are compared up to the case of letters, so the key of a rule `Covers` a code if it is
a leading part of it, both in upper case. Ranks order the rules by their keys, and the rule that
decides a code is the highest that covers it (`Rules.decisive?_eq_some_iff`).

Keys that cover one code are leading parts of each other. So of rules whose keys are in upper case,
as those of all settings are, just the longest key decides (`Rules.IsUpper.decisive?_eq_some_iff`).
-/
namespace TextTemplate

/-! ## Upper case -/

section Characters
variable (c : Char)

theorem toNat_toUpper :
    c.toUpper.toNat = if 97 ≤ c.toNat ∧ c.toNat ≤ 122 then c.toNat - 32 else c.toNat := by
  have hrange : 'a'.val ≤ c.val ∧ c.val ≤ 'z'.val ↔ 97 ≤ c.toNat ∧ c.toNat ≤ 122 := by
    simp only [UInt32.le_iff_toNat_le]
    rfl
  unfold Char.toUpper
  by_cases h : 97 ≤ c.toNat ∧ c.toNat ≤ 122
  · rw [if_pos h, dif_pos (hrange.mpr h)]
    show (c.val + ('A'.val - 'a'.val)).toNat = c.val.toNat - 32
    have hval : 97 ≤ c.val.toNat ∧ c.val.toNat ≤ 122 := h
    rw [UInt32.toNat_add, show ('A'.val - 'a'.val).toNat = 4294967264 from rfl]
    omega
  · rw [if_neg h, dif_neg (mt hrange.mp h)]

theorem toLower_toUpper : c.toUpper.toLower = c.toLower := by
  have hupper := toNat_toUpper c
  apply Char.toNat_inj.mp
  rw [toNat_toLower, toNat_toLower]
  by_cases h : 97 ≤ c.toNat ∧ c.toNat ≤ 122
  · rw [if_pos h] at hupper
    rw [if_pos (by omega), if_neg (by omega)]
    omega
  · rw [if_neg h] at hupper
    rw [hupper]

theorem toUpper_toLower : c.toLower.toUpper = c.toUpper := by
  have hlower := toNat_toLower c
  apply Char.toNat_inj.mp
  rw [toNat_toUpper, toNat_toUpper]
  by_cases h : 65 ≤ c.toNat ∧ c.toNat ≤ 90
  · rw [if_pos h] at hlower
    rw [if_pos (by omega), if_neg (by omega)]
    omega
  · rw [if_neg h] at hlower
    rw [hlower]

theorem utf8Size_toUpper : c.toUpper.utf8Size = c.utf8Size := by
  rw [← utf8Size_toLower, toLower_toUpper, utf8Size_toLower]

end Characters

theorem toList_upperCase (s : String) : (upperCase s).toList = s.toList.map Char.toUpper :=
  String.toList_ofList

@[simp]
theorem upperCase_lowerCase (s : String) : upperCase (lowerCase s) = upperCase s := by
  rw [upperCase, toList_lowerCase, List.map_map]
  exact congrArg String.ofList (List.map_congr_left fun c _ => toUpper_toLower c)

@[simp]
theorem lowerCase_upperCase (s : String) : lowerCase (upperCase s) = lowerCase s := by
  rw [lowerCase, toList_upperCase, List.map_map]
  exact congrArg String.ofList (List.map_congr_left fun c _ => toLower_toUpper c)

@[simp]
theorem upperCase_upperCase (s : String) : upperCase (upperCase s) = upperCase s := by
  rw [← upperCase_lowerCase, lowerCase_upperCase, upperCase_lowerCase]

@[simp]
theorem byteLength_upperCase (s : String) :
    byteLength (upperCase s).toList = byteLength s.toList := by
  rw [toList_upperCase]
  induction s.toList with
  | nil => rfl
  | cons c cs ih => rw [List.map_cons, byteLength_cons, byteLength_cons, ih, utf8Size_toUpper]

/-! ## Keys that cover a code -/

/-- The code starts with the key, in any case of letters. -/
def Covers (key code : String) : Prop :=
  (upperCase key).toList <+: (upperCase code).toList

instance (key code : String) : Decidable (Covers key code) :=
  inferInstanceAs (Decidable (_ <+: _))

section Covers
variable {key other code : String}

theorem covers_empty (code : String) : Covers "" code :=
  List.nil_prefix

theorem Covers.trans (h : Covers key other) (h' : Covers other code) : Covers key code :=
  List.IsPrefix.trans h h'

@[simp]
theorem covers_upperCase_left : Covers (upperCase key) code ↔ Covers key code := by
  rw [Covers, upperCase_upperCase, Covers]

/-- Of two keys that cover a code, the shorter one covers the other. -/
theorem Covers.of_byteLength_le (h : Covers key code) (h' : Covers other code)
    (hle : byteLength key.toList ≤ byteLength other.toList) : Covers key other := by
  rcases List.prefix_or_prefix_of_prefix h h' with hpre | hpre
  · exact hpre
  · rw [← byteLength_upperCase key, ← byteLength_upperCase other] at hle
    rw [Covers, eq_of_isPrefix_of_byteLength_le hpre hle]

theorem Covers.upperCase_eq (h : Covers key code) (h' : Covers other code)
    (heq : byteLength key.toList = byteLength other.toList) : upperCase key = upperCase other := by
  have hpre : Covers key other := h.of_byteLength_le h' heq.le
  rw [← byteLength_upperCase key, ← byteLength_upperCase other] at heq
  exact String.toList_inj.mp (eq_of_isPrefix_of_byteLength_le hpre heq.ge)

theorem covers_congr_right {code' : String} (h : upperCase code = upperCase code') :
    Covers key code ↔ Covers key code' := by
  rw [Covers, h, Covers]

end Covers

theorem Rule.covers_iff {rule : Rule} {code : String} :
    rule.covers code = true ↔ Covers rule.key code := by
  rw [covers, List.isPrefixOf_iff_prefix]
  constructor
  · intro h
    have hmap := h.map Char.toUpper
    rw [← toList_upperCase, ← toList_upperCase, upperCase_lowerCase, upperCase_lowerCase] at hmap
    exact hmap
  · intro h
    have hmap := List.IsPrefix.map Char.toLower h
    rw [← toList_lowerCase, ← toList_lowerCase, lowerCase_upperCase, lowerCase_upperCase] at hmap
    exact hmap

/-! ## Ranks -/

namespace Rule
variable {rule other third : Rule}

theorem outranks_iff :
    rule.outranks other = true ↔
      byteLength other.key.toList < byteLength rule.key.toList ∨
        byteLength other.key.toList = byteLength rule.key.toList ∧
          other.key.toList < rule.key.toList := by
  simp only [outranks, Bool.or_eq_true, Bool.and_eq_true, decide_eq_true_eq, beq_iff_eq]

theorem outranks_asymm (h : rule.outranks other = true) : other.outranks rule = false := by
  rw [Bool.eq_false_iff, ne_eq, outranks_iff]
  rw [outranks_iff] at h
  rintro (h' | ⟨h', hlt'⟩)
  · omega
  · rcases h with h | ⟨-, hlt⟩
    · omega
    · exact lt_asymm hlt hlt'

theorem outranks_trans (h : rule.outranks other = true) (h' : other.outranks third = true) :
    rule.outranks third = true := by
  rw [outranks_iff] at h h' ⊢
  rcases h with h | ⟨heq, hlt⟩
  · left
    rcases h' with h' | ⟨heq', -⟩ <;> omega
  · rcases h' with h' | ⟨heq', hlt'⟩
    · left
      omega
    · exact .inr ⟨heq'.trans heq, hlt'.trans hlt⟩

/-- Of two rules with different keys one outranks the other. -/
theorem key_eq_or_outranks (rule other : Rule) :
    rule.key = other.key ∨ rule.outranks other = true ∨ other.outranks rule = true := by
  rw [outranks_iff, outranks_iff]
  rcases Nat.lt_trichotomy (byteLength rule.key.toList) (byteLength other.key.toList)
    with h | h | h
  · exact .inr (.inr (.inl h))
  · rcases lt_trichotomy rule.key.toList other.key.toList with hlt | heq | hlt
    · exact .inr (.inr (.inr ⟨h, hlt⟩))
    · exact .inl (String.toList_inj.mp heq)
    · exact .inr (.inl (.inr ⟨h.symm, hlt⟩))
  · exact .inr (.inl (.inl h))

end Rule

namespace Rules

/-! ## The highest rule -/

/-- The rule that is left after comparing rules one by one is one of them, and of the others each
has the same key or a lower rank. -/
theorem foldl_higher (best : Rule) (rules : List Rule) :
    ∃ rule ∈ best :: rules, rules.foldl higher (some best) = some rule ∧
      ∀ other ∈ best :: rules, other.key = rule.key ∨ rule.outranks other = true := by
  induction rules generalizing best with
  | nil => exact ⟨best, List.mem_cons_self, rfl, by simp⟩
  | cons next rules ih =>
    rw [List.foldl_cons, higher]
    by_cases hbest : best.outranks next = true
    · rw [if_pos hbest]
      obtain ⟨rule, hmem, hrule, hothers⟩ := ih best
      refine ⟨rule, by grind, hrule, fun other hother => ?_⟩
      rcases List.mem_cons.mp hother with rfl | hother
      · exact hothers _ List.mem_cons_self
      · rcases List.mem_cons.mp hother with rfl | hother
        · -- what `best` outranks, the highest outranks, too
          rcases hothers best List.mem_cons_self with heq | hrank
          · rw [Rule.outranks_iff] at hbest ⊢
            exact .inr (heq ▸ hbest)
          · exact .inr (Rule.outranks_trans hrank hbest)
        · exact hothers _ (List.mem_cons_of_mem _ hother)
    · rw [if_neg hbest]
      obtain ⟨rule, hmem, hrule, hothers⟩ := ih next
      refine ⟨rule, List.mem_cons_of_mem _ hmem, hrule, fun other hother => ?_⟩
      rcases List.mem_cons.mp hother with rfl | hother
      · have hnext := hothers next List.mem_cons_self
        rcases other.key_eq_or_outranks next with heq | hrank | hrank
        · rw [Rule.outranks_iff] at hnext ⊢
          exact heq ▸ hnext
        · exact absurd hrank hbest
        · rcases hnext with heq | hnext
          · rw [Rule.outranks_iff] at hrank ⊢
            exact .inr (heq ▸ hrank)
          · exact .inr (Rule.outranks_trans hnext hrank)
      · exact hothers _ hother

variable {r : Rules} {rule : Rule} {code : String}

theorem eq_of_key_eq {rule' : Rule} (h : rule ∈ r.rules) (h' : rule' ∈ r.rules)
    (hkey : rule.key = rule'.key) : rule = rule' :=
  List.inj_on_of_nodup_map r.nodup h h' hkey

theorem decisive?_eq_none_iff :
    r.decisive? code = none ↔ ∀ rule ∈ r.rules, ¬ Covers rule.key code := by
  have hfilter : r.rules.filter (·.covers code) = [] ↔
      ∀ rule ∈ r.rules, ¬ Covers rule.key code := by
    simp only [List.filter_eq_nil_iff, Rule.covers_iff]
  rw [← hfilter, decisive?, decisiveOf]
  cases r.rules.filter (·.covers code) with
  | nil => simp
  | cons best rules =>
    obtain ⟨rule, -, hrule, -⟩ := foldl_higher best rules
    rw [List.foldl_cons, higher, hrule]
    simp

theorem highest_of_decisive? (h : r.decisive? code = some rule) :
    rule ∈ r.rules ∧ Covers rule.key code ∧
      ∀ other ∈ r.rules, Covers other.key code → other = rule ∨ rule.outranks other = true := by
  have hmem (other : Rule) : other ∈ r.rules.filter (·.covers code) ↔
      other ∈ r.rules ∧ Covers other.key code := by
    rw [List.mem_filter, Rule.covers_iff]
  rw [decisive?, decisiveOf] at h
  cases hfilter : r.rules.filter (·.covers code) with
  | nil =>
    rw [hfilter] at h
    cases h
  | cons best rules =>
    rw [hfilter] at h hmem
    obtain ⟨highest, hin, hhighest, hothers⟩ := foldl_higher best rules
    rw [List.foldl_cons, higher, hhighest] at h
    obtain rfl := Option.some.inj h
    obtain ⟨hrule, hcovers⟩ := (hmem highest).mp hin
    refine ⟨hrule, hcovers, fun other hother hcovers' => ?_⟩
    rcases hothers other ((hmem other).mpr ⟨hother, hcovers'⟩) with hkey | hrank
    · exact .inl (eq_of_key_eq hother hrule hkey)
    · exact .inr hrank

/-- The rule that decides a code is the highest of those that cover it. -/
theorem decisive?_eq_some_iff :
    r.decisive? code = some rule ↔ rule ∈ r.rules ∧ Covers rule.key code ∧
      ∀ other ∈ r.rules, Covers other.key code → other = rule ∨ rule.outranks other = true := by
  constructor
  · exact highest_of_decisive?
  · rintro ⟨hrule, hcovers, hothers⟩
    cases hdecisive : r.decisive? code with
    | none => exact absurd hcovers (decisive?_eq_none_iff.mp hdecisive rule hrule)
    | some highest =>
      obtain ⟨hmem, hcovers', hlower⟩ := highest_of_decisive? hdecisive
      -- two different rules that both win would outrank each other
      rcases hothers highest hmem hcovers' with rfl | hrank
      · rfl
      · rcases hlower rule hrule hcovers with rfl | hrank'
        · rfl
        · rw [Rule.outranks_asymm hrank] at hrank'
          cases hrank'

theorem setting_of_decisive? (h : r.decisive? code = some rule) :
    r.setting code = rule.setting := by
  rw [setting, h]

/-- The setting of a code depends on its letters up to case. -/
theorem decisive?_congr {code' : String} (h : upperCase code = upperCase code') :
    r.decisive? code = r.decisive? code' := by
  have hcovers : r.rules.filter (·.covers code) = r.rules.filter (·.covers code') := by
    refine List.filter_congr fun rule _ => ?_
    rw [Bool.eq_iff_iff, Rule.covers_iff, Rule.covers_iff, covers_congr_right h]
  rw [decisive?, decisiveOf, hcovers, decisive?, decisiveOf]

theorem setting_congr {code' : String} (h : upperCase code = upperCase code') :
    r.setting code = r.setting code' := by
  rw [setting, decisive?_congr h, setting]

/-! ## Rules that are left or set -/

theorem mem_filter {keep : Rule → Bool} :
    rule ∈ (r.filter keep).rules ↔ rule ∈ r.rules ∧ keep rule = true :=
  List.mem_filter

theorem mem_set {key : String} {setting : Setting} :
    rule ∈ (r.set key setting).rules ↔
      rule = ⟨upperCase key, setting⟩ ∨ rule ∈ r.rules ∧ rule.key ≠ upperCase key := by
  rw [set, insert, List.mem_append, mem_filter, List.mem_singleton, or_comm, decide_eq_true_eq]

/-- The rules with those of a list, one after the other. -/
def setAll (r : Rules) (rules : List Rule) : Rules :=
  rules.foldl (fun rules rule => rules.set rule.key rule.setting) r

/-! ## Rules in upper case -/

/-- All keys are in upper case. -/
def IsUpper (r : Rules) : Prop :=
  ∀ rule ∈ r.rules, upperCase rule.key = rule.key

instance (r : Rules) : Decidable r.IsUpper :=
  inferInstanceAs (Decidable (∀ rule ∈ r.rules, _))

/-- No key that covers the code is longer than the given one. -/
def Within (r : Rules) (code key : String) : Prop :=
  ∀ rule ∈ r.rules, Covers rule.key code →
    byteLength rule.key.toList ≤ byteLength key.toList

namespace IsUpper
variable (hr : r.IsUpper)
include hr

theorem filter (keep : Rule → Bool) : (r.filter keep).IsUpper :=
  fun rule hrule => hr rule (mem_filter.mp hrule).1

theorem set (key : String) (setting : Setting) : (r.set key setting).IsUpper := by
  intro rule hrule
  rcases mem_set.mp hrule with rfl | ⟨hrule, -⟩
  · exact upperCase_upperCase key
  · exact hr rule hrule

theorem setAll (rules : List Rule) : (r.setAll rules).IsUpper := by
  induction rules generalizing r with
  | nil => exact hr
  | cons rule rules ih => exact ih (hr.set rule.key rule.setting)

/-- The longest key that covers a code decides it. -/
theorem decisive?_eq_some_iff :
    r.decisive? code = some rule ↔
      rule ∈ r.rules ∧ Covers rule.key code ∧ r.Within code rule.key := by
  rw [Rules.decisive?_eq_some_iff]
  refine and_congr_right fun hrule => and_congr_right fun hcovers => ?_
  constructor
  · intro hothers other hother hcovers'
    rcases hothers other hother hcovers' with rfl | hrank
    · exact le_rfl
    · rcases Rule.outranks_iff.mp hrank with hlt | ⟨heq, -⟩
      · exact hlt.le
      · exact heq.le
  · intro hwithin other hother hcovers'
    rcases (hwithin other hother hcovers').eq_or_lt with heq | hlt
    · left
      refine eq_of_key_eq hother hrule ?_
      rw [← hr other hother, hcovers'.upperCase_eq hcovers heq, hr rule hrule]
    · exact .inr (Rule.outranks_iff.mpr (.inl hlt))

theorem within_iff {key : String} :
    r.Within code key ↔
      ∀ rule, r.decisive? code = some rule →
        byteLength rule.key.toList ≤ byteLength key.toList := by
  constructor
  · intro hwithin rule hrule
    obtain ⟨hmem, hcovers, -⟩ := hr.decisive?_eq_some_iff.mp hrule
    exact hwithin rule hmem hcovers
  · intro hdecisive other hother hcovers
    cases hrule : r.decisive? code with
    | none => exact absurd hcovers (decisive?_eq_none_iff.mp hrule other hother)
    | some rule =>
      obtain ⟨-, -, hwithin⟩ := hr.decisive?_eq_some_iff.mp hrule
      exact (hwithin other hother hcovers).trans (hdecisive rule hrule)

end IsUpper

end Rules

end TextTemplate
