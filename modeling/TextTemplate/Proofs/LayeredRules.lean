import Mathlib.Data.List.MinMax
import TextTemplate.Proofs.DecisiveRule
import TextTemplate.Settings.Selection

/-!
# Selected and ignored codes in the end

Selecting and ignoring both lay settings for a list of keys over rules. What comes of that at a code
depends on lengths alone: the longest of the laid keys that cover the code takes over from the rules
below, unless one of those has a longer key for it (`Rules.setting_overlay`,
`Rules.decisive?_overlay`).

For selected keys this is what a caller is told (`Rules.setting_layered_of_select`). Ignored keys
are told to be off for good, but a longer key brings a code back: a code that starts with an ignored
key is off if and only if it is off without that, or some ignored key of it is at least as long as
the key that decides it (`Rules.setting_layered_eq_off_iff`).
-/
namespace TextTemplate

namespace Rules
variable {r : Rules} {rule : Rule} {code key : String}

/-! ## Layers of keys -/

/-- The rules with settings for the keys, one after the other. -/
def overlay (r : Rules) (settingOf : String → Setting) (keys : List String) : Rules :=
  keys.foldl (fun rules key => rules.set key (settingOf key)) r

variable {settingOf : String → Setting} {keys : List String}

theorem overlay_eq_setAll :
    r.overlay settingOf keys = r.setAll (keys.map fun key => ⟨key, settingOf key⟩) := by
  rw [overlay, setAll, List.foldl_map]

theorem IsUpper.overlay (hr : r.IsUpper) (settingOf : String → Setting) (keys : List String) :
    (r.overlay settingOf keys).IsUpper := by
  rw [overlay_eq_setAll]
  exact hr.setAll _

section Overlay
variable (hcongr : ∀ key key', upperCase key = upperCase key' → settingOf key = settingOf key')
include hcongr

/-- The laid rules, and of those below the ones with other keys. -/
theorem mem_overlay :
    rule ∈ (r.overlay settingOf keys).rules ↔
      (∃ key ∈ keys, rule = ⟨upperCase key, settingOf key⟩) ∨
        rule ∈ r.rules ∧ ∀ key ∈ keys, rule.key ≠ upperCase key := by
  induction keys generalizing r with
  | nil => simp [overlay]
  | cons first keys ih =>
    have hstep : r.overlay settingOf (first :: keys) =
      (r.set first (settingOf first)).overlay settingOf keys := rfl
    rw [hstep, ih, mem_set]
    constructor
    · rintro (⟨key, hkey, rfl⟩ | ⟨rfl | ⟨hrule, hne⟩, hothers⟩)
      · exact .inl ⟨key, List.mem_cons_of_mem _ hkey, rfl⟩
      · exact .inl ⟨first, List.mem_cons_self, rfl⟩
      · exact .inr ⟨hrule, List.forall_mem_cons.mpr ⟨hne, hothers⟩⟩
    · rintro (⟨key, hkey, rfl⟩ | ⟨hrule, hothers⟩)
      · -- a later spelling of the first key replaces its rule by the same one
        by_cases hlater : ∃ other ∈ keys, upperCase key = upperCase other
        · obtain ⟨other, hother, hsame⟩ := hlater
          left
          exact ⟨other, hother, by rw [hsame, hcongr key other hsame]⟩
        · push Not at hlater
          rcases List.mem_cons.mp hkey with rfl | hkey
          · exact .inr ⟨.inl rfl, hlater⟩
          · exact absurd rfl (hlater key hkey)
      · rw [List.forall_mem_cons] at hothers
        exact .inr ⟨.inr ⟨hrule, hothers.1⟩, hothers.2⟩

variable (hr : r.IsUpper)
include hr

/-- The longest laid key for a code decides it if no rule below has a longer one. -/
theorem setting_overlay (hkey : key ∈ keys) (hcovers : Covers key code)
    (hlongest : ∀ other ∈ keys, Covers other code →
      byteLength other.toList ≤ byteLength key.toList)
    (hwithin : r.Within code key) : (r.overlay settingOf keys).setting code = settingOf key := by
  have hdecisive : (r.overlay settingOf keys).decisive? code =
      some ⟨upperCase key, settingOf key⟩ := by
    rw [(hr.overlay settingOf keys).decisive?_eq_some_iff]
    refine ⟨(mem_overlay hcongr).mpr (.inl ⟨key, hkey, rfl⟩), covers_upperCase_left.mpr hcovers, ?_⟩
    intro rule hrule hcovers'
    rw [byteLength_upperCase]
    rcases (mem_overlay hcongr).mp hrule with ⟨other, hother, rfl⟩ | ⟨hrule, -⟩
    · rw [byteLength_upperCase]
      exact hlongest other hother (covers_upperCase_left.mp hcovers')
    · exact hwithin rule hrule hcovers'
  exact setting_of_decisive? hdecisive

/-- If for each laid key of a code a rule below has a longer one, the rules below decide it. -/
theorem decisive?_overlay (hbeyond : ∀ key ∈ keys, Covers key code → ¬ r.Within code key) :
    (r.overlay settingOf keys).decisive? code = r.decisive? code := by
  have hupper := hr.overlay settingOf keys
  have hlonger : ∀ rule, r.decisive? code = some rule → ∀ key ∈ keys, Covers key code →
      byteLength key.toList < byteLength rule.key.toList := by
    intro rule hrule key hkey hcovers
    by_contra hle
    refine hbeyond key hkey hcovers (hr.within_iff.mpr fun rule' hrule' => ?_)
    obtain rfl : rule = rule' := Option.some.inj (hrule.symm.trans hrule')
    omega
  cases hdecisive : r.decisive? code with
  | none =>
    rw [decisive?_eq_none_iff] at hdecisive ⊢
    intro rule hrule hcovers
    rcases (mem_overlay hcongr).mp hrule with ⟨key, hkey, rfl⟩ | ⟨hrule, -⟩
    · refine hbeyond key hkey (covers_upperCase_left.mp hcovers) fun rule hrule hcovers => ?_
      exact absurd hcovers (hdecisive rule hrule)
    · exact hdecisive rule hrule hcovers
  | some rule =>
    obtain ⟨hrule, hcovers, hwithin⟩ := hr.decisive?_eq_some_iff.mp hdecisive
    rw [hupper.decisive?_eq_some_iff]
    refine ⟨(mem_overlay hcongr).mpr (.inr ⟨hrule, ?_⟩), hcovers, ?_⟩
    · intro key hkey heq
      have hlt := hlonger rule hdecisive key hkey (by rwa [heq, covers_upperCase_left] at hcovers)
      rw [heq, byteLength_upperCase] at hlt
      omega
    · intro other hother hcovers'
      rcases (mem_overlay hcongr).mp hother with ⟨key, hkey, rfl⟩ | ⟨hother, -⟩
      · rw [covers_upperCase_left] at hcovers'
        rw [byteLength_upperCase]
        exact (hlonger rule hdecisive key hkey hcovers').le
      · exact hwithin other hother hcovers'

end Overlay

/-- Of keys of which one covers a code, one is the longest. -/
theorem exists_longest (h : ∃ key ∈ keys, Covers key code) :
    ∃ key ∈ keys, Covers key code ∧
      ∀ other ∈ keys, Covers other code → byteLength other.toList ≤ byteLength key.toList := by
  let length (key : String) : Nat := byteLength key.toList
  obtain ⟨key, hkey, hcovers⟩ := h
  have hmem {other : String} (hother : other ∈ keys) (hcovers : Covers other code) :
      other ∈ keys.filter (Covers · code) :=
    List.mem_filter.mpr ⟨hother, decide_eq_true hcovers⟩
  cases hmax : (keys.filter (Covers · code)).argmax length with
  | none =>
    rw [List.argmax_eq_none] at hmax
    exact absurd (hmem hkey hcovers) (hmax ▸ List.not_mem_nil)
  | some longest =>
    obtain ⟨hlongest, hcovers'⟩ := List.mem_filter.mp (List.argmax_mem hmax)
    refine ⟨longest, hlongest, of_decide_eq_true hcovers', fun other hother hcovers => ?_⟩
    exact List.le_of_mem_argmax (f := length) (hmem hother hcovers) hmax

/-! ## Selected keys -/

section Select
variable {configured : Rules} {select : List String}

theorem refines_iff :
    refines rule select = true ↔
      ∃ entry ∈ select, byteLength entry.toList < byteLength rule.key.toList ∧
        Covers entry rule.key := by
  simp only [refines, List.any_eq_true, Bool.and_eq_true, decide_eq_true_eq,
    List.isPrefixOf_iff_prefix, Covers]

/-- What is left of the configured rules below the selected keys. -/
def unselected (configured : Rules) (select : List String) : Rules :=
  (configured.filter (refines · select)).set "" .off

theorem restrict_of_ne_nil (h : select ≠ []) :
    configured.restrict select =
      (configured.unselected select).overlay configured.selectedSetting select := by
  rw [restrict, if_neg (by simpa using h)]
  rfl

theorem mem_unselected :
    rule ∈ (configured.unselected select).rules ↔
      rule = ⟨"", .off⟩ ∨
        (rule ∈ configured.rules ∧ refines rule select = true) ∧ rule.key ≠ "" := by
  rw [unselected, mem_set, mem_filter]
  rfl

theorem selectedSetting_congr (configured : Rules) (entry entry' : String)
    (h : upperCase entry = upperCase entry') :
    configured.selectedSetting entry = configured.selectedSetting entry' := by
  rw [selectedSetting, setting_congr h, selectedSetting]

variable (hconfigured : configured.IsUpper)
include hconfigured

theorem IsUpper.unselected (select : List String) : (configured.unselected select).IsUpper :=
  (hconfigured.filter _).set "" .off

theorem IsUpper.restrict (select : List String) : (configured.restrict select).IsUpper := by
  by_cases h : select = []
  · rw [h]
    exact hconfigured
  · rw [restrict_of_ne_nil h]
    exact (hconfigured.unselected select).overlay _ select

omit hconfigured in
/-- A code that no selected key covers is left to the empty key, which is off. -/
theorem setting_unselected (hnone : ∀ entry ∈ select, ¬ Covers entry code)
    (hupper : (configured.unselected select).IsUpper) :
    (configured.unselected select).setting code = .off := by
  have hdecisive : (configured.unselected select).decisive? code = some ⟨"", .off⟩ := by
    rw [hupper.decisive?_eq_some_iff]
    refine ⟨mem_unselected.mpr (.inl rfl), covers_empty code, fun rule hrule hcovers => ?_⟩
    rcases mem_unselected.mp hrule with rfl | ⟨⟨-, hrefines⟩, -⟩
    · exact le_rfl
    · obtain ⟨entry, hentry, -, hcovers'⟩ := refines_iff.mp hrefines
      exact absurd (hcovers'.trans hcovers) (hnone entry hentry)
  exact setting_of_decisive? hdecisive

omit hconfigured in
/-- Above a selected key of a code, all configured rules for it are left. -/
theorem mem_unselected_of_longer {entry : String} (hentry : entry ∈ select)
    (hcovers : Covers entry code) (hrule : rule ∈ configured.rules)
    (hcovers' : Covers rule.key code)
    (hlt : byteLength entry.toList < byteLength rule.key.toList) :
    rule ∈ (configured.unselected select).rules := by
  refine mem_unselected.mpr (.inr ⟨⟨hrule, refines_iff.mpr ⟨entry, hentry, hlt, ?_⟩⟩, ?_⟩)
  · exact hcovers.of_byteLength_le hcovers' hlt.le
  · intro hempty
    rw [hempty] at hlt
    exact absurd hlt (Nat.not_lt_zero _)

omit hconfigured in
theorem within_unselected_iff {entry : String} (hentry : entry ∈ select)
    (hcovers : Covers entry code) :
    (configured.unselected select).Within code entry ↔ configured.Within code entry := by
  constructor
  · intro hwithin rule hrule hcovers'
    by_contra hlt
    rw [not_le] at hlt
    exact absurd (hwithin rule (mem_unselected_of_longer hentry hcovers hrule hcovers' hlt)
      hcovers') (not_le.mpr hlt)
  · intro hwithin rule hrule hcovers'
    rcases mem_unselected.mp hrule with rfl | ⟨⟨hrule, -⟩, -⟩
    · exact Nat.zero_le _
    · exact hwithin rule hrule hcovers'

/-- A key that no key for a code exceeds is decided as the code is. -/
theorem IsUpper.decisive?_of_within {entry : String} (hcovers : Covers entry code)
    (hwithin : configured.Within code entry) :
    configured.decisive? entry = configured.decisive? code := by
  have hsame : ∀ rule ∈ configured.rules, (Covers rule.key entry ↔ Covers rule.key code) := by
    intro rule hrule
    constructor
    · exact fun h => h.trans hcovers
    · exact fun h => h.of_byteLength_le hcovers (hwithin rule hrule h)
  cases hdecisive : configured.decisive? code with
  | none =>
    rw [decisive?_eq_none_iff] at hdecisive ⊢
    exact fun rule hrule h => hdecisive rule hrule ((hsame rule hrule).mp h)
  | some rule =>
    rw [hconfigured.decisive?_eq_some_iff] at hdecisive ⊢
    obtain ⟨hrule, hcovers', hlongest⟩ := hdecisive
    refine ⟨hrule, (hsame rule hrule).mpr hcovers', fun other hother h => ?_⟩
    exact hlongest other hother ((hsame other hother).mp h)

/-- Where a configured key goes beyond all selected ones, the configured rule still decides. -/
theorem decisive?_unselected {entry : String} (hentry : entry ∈ select)
    (hcovers : Covers entry code) (hdecisive : configured.decisive? code = some rule)
    (hlt : byteLength entry.toList < byteLength rule.key.toList) :
    (configured.unselected select).decisive? code = some rule := by
  obtain ⟨hrule, hcovers', hwithin⟩ := hconfigured.decisive?_eq_some_iff.mp hdecisive
  rw [(hconfigured.unselected select).decisive?_eq_some_iff]
  refine ⟨mem_unselected_of_longer hentry hcovers hrule hcovers' hlt, hcovers', ?_⟩
  intro other hother hcovers''
  rcases mem_unselected.mp hother with rfl | ⟨⟨hother, -⟩, -⟩
  · exact Nat.zero_le _
  · exact hwithin other hother hcovers''

end Select

/-- The configured rule for the code has a longer key than every selected one for it. -/
def DecidedBeyond (configured : Rules) (select : List String) (code : String) : Prop :=
  ∃ rule ∈ configured.decisive? code, ∀ entry ∈ select, Covers entry code →
    byteLength entry.toList < byteLength rule.key.toList

instance (configured : Rules) (select : List String) (code : String) :
    Decidable (configured.DecidedBeyond select code) :=
  inferInstanceAs (Decidable (∃ rule ∈ configured.decisive? code, ∀ entry ∈ select, _))

/-- Selecting keys turns every other code off and keeps the configured settings of what is selected.
A selected code that is configured to be off becomes an error, unless a key beyond the selected ones
says that it is off. -/
theorem setting_layered_of_select {configured : Rules} (hconfigured : configured.IsUpper)
    {select : List String} (hselect : select ≠ []) (code : String) :
    (configured.layered select []).setting code =
      if ∀ entry ∈ select, ¬ Covers entry code then .off
      else if configured.setting code ≠ .off then configured.setting code
      else if configured.DecidedBeyond select code then .off
      else .report .error := by
  have hlayered : configured.layered select [] = configured.restrict select := rfl
  have hupper := hconfigured.unselected select
  rw [hlayered, restrict_of_ne_nil hselect]
  by_cases hnone : ∀ entry ∈ select, ¬ Covers entry code
  · rw [if_pos hnone, ← setting_unselected hnone hupper, setting,
      decisive?_overlay configured.selectedSetting_congr hupper
        (fun entry hentry hcovers => absurd hcovers (hnone entry hentry)), setting]
  · rw [if_neg hnone]
    push Not at hnone
    obtain ⟨entry, hentry, hcovers, hlongest⟩ := exists_longest hnone
    by_cases hwithin : configured.Within code entry
    · -- the longest selected key decides, and it is configured as the code is
      rw [setting_overlay configured.selectedSetting_congr hupper hentry hcovers hlongest
        ((within_unselected_iff hentry hcovers).mpr hwithin), selectedSetting, setting,
        hconfigured.decisive?_of_within hcovers hwithin, ← setting]
      have hnot : ¬ configured.DecidedBeyond select code := by
        rintro ⟨rule, hrule, hbeyond⟩
        have hle := hconfigured.within_iff.mp hwithin rule hrule
        have hlt := hbeyond entry hentry hcovers
        omega
      rw [if_neg hnot]
      cases configured.setting code <;> rfl
    · -- a configured key goes beyond it and is left in place
      rw [hconfigured.within_iff] at hwithin
      push Not at hwithin
      obtain ⟨rule, hrule, hlt⟩ := hwithin
      have hbeyond : ∀ other ∈ select, Covers other code →
          byteLength other.toList < byteLength rule.key.toList :=
        fun other hother h => (hlongest other hother h).trans_lt hlt
      have hdecided : configured.DecidedBeyond select code := ⟨rule, hrule, hbeyond⟩
      have hkept := decisive?_unselected hconfigured hentry hcovers hrule hlt
      have hdecisive : ((configured.unselected select).overlay configured.selectedSetting
          select).decisive? code = some rule := by
        rw [← hkept]
        refine decisive?_overlay configured.selectedSetting_congr hupper fun other hother h => ?_
        rw [hupper.within_iff]
        exact fun hle => absurd (hle rule hkept) (not_le.mpr (hbeyond other hother h))
      rw [setting_of_decisive? hdecisive, setting_of_decisive? hrule, if_pos hdecided]
      cases rule.setting <;> rfl

/-- Of two codes that are configured to be off, one is brought back by the longer of its selected
keys, and the other one has a key of its own beyond them. -/
theorem setting_layered_select_nested :
    let configured : Rules :=
      ⟨[⟨"S", .report .hint⟩, ⟨"S1", .off⟩, ⟨"S103", .off⟩], by decide +kernel⟩
    configured.IsUpper ∧ (configured.layered ["s1", "S10", "T"] []).setting "s104" = .report .error ∧
      (configured.layered ["s1", "S10", "T"] []).setting "s103" = .off := by
  intro configured
  have hupper : configured.IsUpper := by decide +kernel
  refine ⟨hupper, ?_, ?_⟩
  · rw [setting_layered_of_select hupper (List.cons_ne_nil _ _)]
    decide +kernel
  · rw [setting_layered_of_select hupper (List.cons_ne_nil _ _)]
    decide +kernel

/-! ## Ignored keys -/

/-- A code that starts with an ignored key is off if and only if it is off without that, or an
ignored key of it is at least as long as the key that decides it. -/
theorem setting_layered_eq_off_iff {configured : Rules} (hconfigured : configured.IsUpper)
    (select : List String) {ignore : List String} {code : String}
    (hignored : ∃ entry ∈ ignore, Covers entry code) :
    (configured.layered select ignore).setting code = .off ↔
      (configured.restrict select).setting code = .off ∨
        ∃ entry ∈ ignore, Covers entry code ∧
          ∀ rule, (configured.restrict select).decisive? code = some rule →
            byteLength rule.key.toList ≤ byteLength entry.toList := by
  have hupper := hconfigured.restrict select
  have hlayered : configured.layered select ignore =
    (configured.restrict select).overlay (fun _ => .off) ignore := rfl
  have hcongr : ∀ entry entry' : String, upperCase entry = upperCase entry' →
    (Setting.off = Setting.off) := fun _ _ _ => rfl
  simp only [hlayered, ← hupper.within_iff]
  obtain ⟨longest, hmem, hcovers, hlongest⟩ := exists_longest hignored
  by_cases hwithin : (configured.restrict select).Within code longest
  · rw [setting_overlay hcongr hupper hmem hcovers hlongest hwithin]
    exact ⟨fun _ => .inr ⟨longest, hmem, hcovers, hwithin⟩, fun _ => rfl⟩
  · have hbeyond : ∀ entry ∈ ignore, Covers entry code →
        ¬ (configured.restrict select).Within code entry := by
      intro entry hentry hcovers' hle
      refine hwithin fun rule hrule h => ?_
      exact (hle rule hrule h).trans (hlongest entry hentry hcovers')
    rw [setting, decisive?_overlay hcongr hupper hbeyond, ← setting]
    constructor
    · exact .inl
    · rintro (hoff | ⟨entry, hentry, hcovers', hle⟩)
      · exact hoff
      · exact absurd hle (hbeyond entry hentry hcovers')

/-- A selected key brings back what a shorter ignored key covers, and a longer ignored key turns it
off again. -/
theorem setting_layered_ignore_nested :
    let configured : Rules := ⟨[⟨"S101", .report .warning⟩], by decide +kernel⟩
    configured.IsUpper ∧ (∃ entry ∈ ["S1", "s1012"], Covers entry "S1012") ∧
      (configured.layered ["S10"] ["S1", "s1012"]).setting "S1012" = .off := by
  intro configured
  have hupper : configured.IsUpper := by decide +kernel
  have hignored : ∃ entry ∈ ["S1", "s1012"], Covers entry "S1012" := by decide +kernel
  refine ⟨hupper, hignored, (setting_layered_eq_off_iff hupper ["S10"] hignored).mpr (.inr ?_)⟩
  refine ⟨"s1012", by simp, by decide +kernel, fun rule hrule => ?_⟩
  have hdecisive : (configured.restrict ["S10"]).decisive? "S1012" =
    some ⟨"S101", .report .warning⟩ := by decide +kernel
  obtain rfl := Option.some.inj (hdecisive.symm.trans hrule)
  decide +kernel

/-- Ignoring a key does not turn off all that it covers. -/
theorem not_forall_setting_layered_ignore :
    ¬ ∀ (configured : Rules) (select ignore : List String) (code : String),
      configured.IsUpper → (∃ entry ∈ ignore, Covers entry code) →
        (configured.layered select ignore).setting code = .off := by
  intro h
  have hoff := h ⟨[⟨"S101", .report .warning⟩], by decide +kernel⟩ [] ["S1"] "S101"
    (by decide +kernel) (by decide +kernel)
  have hreported : (layered ⟨[⟨"S101", .report .warning⟩], by decide +kernel⟩ [] ["S1"]).setting
    "S101" = .report .warning := by decide +kernel
  rw [hreported] at hoff
  cases hoff

end Rules

end TextTemplate
