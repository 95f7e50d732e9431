import TextTemplate.Proofs.ByteOrder
import TextTemplate.Proofs.StoredSettings

/-!
# Looking up severities

The setting of a code is that of the foremost of the rules whose keys the code starts with: the one
with the longest key, and of keys of one length the greatest (`Rules.Foremost`). There is at most
one such rule, so the order in which rules are compared does not matter.

Keys that differ only in the case of letters can all be rules. When settings are loaded they become
one, the last of them in the order of bytes. The foremost of them is the same one, so that loading
changes no setting (`Settings.setting_rulesOf`).
-/
namespace TextTemplate

namespace Rules
variable {r : Rules} {rule : Rule} {code : String}

/-! ## The foremost rule -/

/-- The code starts with the key of the rule, in any case of letters, and of all such keys it is the
longest, the greatest in the order of bytes if there are several of that length. -/
structure Foremost (r : Rules) (code : String) (rule : Rule) : Prop where
  mem : rule ∈ r.rules
  covers : Covers rule.key code
  longest : r.Within code rule.key
  greatest : ∀ other ∈ r.rules, Covers other.key code →
    byteLength other.key.toList = byteLength rule.key.toList →
      other = rule ∨ utf8Bytes other.key.toList < utf8Bytes rule.key.toList

/-- The foremost rule is the one that decides. -/
theorem decisive?_eq_some_iff_foremost : r.decisive? code = some rule ↔ r.Foremost code rule := by
  rw [decisive?_eq_some_iff]
  constructor
  · rintro ⟨hmem, hcovers, hothers⟩
    refine ⟨hmem, hcovers, fun other hother hcovers' => ?_, fun other hother hcovers' hlength => ?_⟩
    · rcases hothers other hother hcovers' with rfl | hrank
      · exact le_rfl
      · rcases Rule.outranks_iff.mp hrank with hlt | ⟨hlength, -⟩
        · exact hlt.le
        · exact hlength.le
    · rcases hothers other hother hcovers' with rfl | hrank
      · exact .inl rfl
      · rcases Rule.outranks_iff.mp hrank with hlt | ⟨-, hlt⟩
        · omega
        · exact .inr (utf8Bytes_lt_iff.mpr hlt)
  · rintro ⟨hmem, hcovers, hlongest, hgreatest⟩
    refine ⟨hmem, hcovers, fun other hother hcovers' => ?_⟩
    rcases (hlongest other hother hcovers').lt_or_eq with hlt | hlength
    · exact .inr (Rule.outranks_iff.mpr (.inl hlt))
    · refine (hgreatest other hother hcovers' hlength).imp_right fun hlt => ?_
      exact Rule.outranks_iff.mpr (.inr ⟨hlength, utf8Bytes_lt_iff.mp hlt⟩)

theorem Foremost.unique {rule' : Rule} (h : r.Foremost code rule) (h' : r.Foremost code rule') :
    rule = rule' := by
  rw [← decisive?_eq_some_iff_foremost] at h h'
  exact Option.some.inj (h.symm.trans h')

theorem exists_foremost (h : ∃ rule ∈ r.rules, Covers rule.key code) :
    ∃ rule, r.Foremost code rule := by
  obtain ⟨rule, hrule, hcovers⟩ := h
  cases hdecisive : r.decisive? code with
  | none => exact absurd hcovers (decisive?_eq_none_iff.mp hdecisive rule hrule)
  | some foremost => exact ⟨foremost, decisive?_eq_some_iff_foremost.mp hdecisive⟩

theorem Foremost.setting_eq (h : r.Foremost code rule) : r.setting code = rule.setting :=
  setting_of_decisive? (decisive?_eq_some_iff_foremost.mpr h)

theorem setting_of_not_covers (h : ∀ rule ∈ r.rules, ¬ Covers rule.key code) :
    r.setting code = .report .error := by
  rw [setting, decisive?_eq_none_iff.mpr h]

/-- The rules decide a code in whatever order they come. -/
theorem setting_perm {r' : Rules} (h : r'.rules.Perm r.rules) (code : String) :
    r'.setting code = r.setting code := by
  have hdecisive : r'.decisive? code = r.decisive? code := by
    apply Option.ext
    intro rule
    simp only [decisive?_eq_some_iff, h.mem_iff]
  rw [setting, hdecisive, setting]

/-- Where all keys are in upper case, a key is set for itself. -/
theorem IsUpper.setting_set (hr : r.IsUpper) (key : String) (setting : Setting) :
    (r.set key setting).setting key = setting := by
  have hdecisive : (r.set key setting).decisive? key = some ⟨upperCase key, setting⟩ := by
    rw [(hr.set key setting).decisive?_eq_some_iff]
    refine ⟨mem_set.mpr (.inl rfl), covers_upperCase_left.mpr List.prefix_rfl, ?_⟩
    intro other _ hcovers
    have hle := byteLength_le_of_isPrefix hcovers
    rwa [byteLength_upperCase] at hle
  exact setting_of_decisive? hdecisive

end Rules

/-! ## Loaded rules -/

namespace Settings
variable {r : Rules} {entries : List Rule}

/-- A loaded key is the key of an entry in upper case. -/
theorem exists_of_mem_rulesOf {rule : Rule} (h : rule ∈ (rulesOf entries).rules) :
    ∃ entry ∈ entries, upperCase entry.key = rule.key := by
  by_contra hnone
  push Not at hnone
  have hstored : (rulesOf entries).stored? rule.key = some rule.setting :=
    Rules.stored?_eq_some_iff.mpr h
  rw [stored?_rulesOf_of_absent hnone] at hstored
  cases hstored

/-- Of the entries the foremost one decides, in upper case. -/
theorem decisive?_rulesOf (hentries : entries.Perm r.rules) {code : String} {rule : Rule}
    (h : r.Foremost code rule) :
    (rulesOf entries).decisive? code = some ⟨upperCase rule.key, rule.setting⟩ := by
  have hnodup : (entries.map (·.key)).Nodup := (hentries.map _).nodup_iff.mpr r.nodup
  rw [(isUpper_rulesOf entries).decisive?_eq_some_iff]
  refine ⟨?_, covers_upperCase_left.mpr h.covers, fun other hother hcovers => ?_⟩
  · rw [← Rules.stored?_eq_some_iff]
    refine stored?_rulesOf hnodup (hentries.mem_iff.mpr h.mem) rfl fun other hother hkey => ?_
    -- an entry with the same key up to case is another candidate of the same length
    have hcovers : Covers other.key code := by
      rw [← covers_upperCase_left, hkey, covers_upperCase_left]
      exact h.covers
    have hlength : byteLength other.key.toList = byteLength rule.key.toList := by
      rw [← byteLength_upperCase, hkey, byteLength_upperCase]
    rcases h.greatest other (hentries.mem_iff.mp hother) hcovers hlength with rfl | hlt
    · exact le_rfl
    · exact (utf8Bytes_lt_iff.mp hlt).le
  · obtain ⟨entry, hentry, hkey⟩ := exists_of_mem_rulesOf hother
    rw [← hkey, byteLength_upperCase, byteLength_upperCase]
    rw [← hkey, covers_upperCase_left] at hcovers
    exact h.longest entry (hentries.mem_iff.mp hentry) hcovers

/-- Loading rules changes no setting. -/
theorem setting_rulesOf (hentries : entries.Perm r.rules) (code : String) :
    (rulesOf entries).setting code = r.setting code := by
  by_cases h : ∃ rule ∈ r.rules, Covers rule.key code
  · obtain ⟨rule, hrule⟩ := Rules.exists_foremost h
    rw [Rules.setting_of_decisive? (decisive?_rulesOf hentries hrule), hrule.setting_eq]
  · push Not at h
    have hloaded : ∀ rule ∈ (rulesOf entries).rules, ¬ Covers rule.key code := by
      intro rule hrule hcovers
      obtain ⟨entry, hentry, hkey⟩ := exists_of_mem_rulesOf hrule
      rw [← hkey, covers_upperCase_left] at hcovers
      exact h entry (hentries.mem_iff.mp hentry) hcovers
    rw [Rules.setting_of_not_covers h, Rules.setting_of_not_covers hloaded]

end Settings

namespace Rules

/-- What can be relied on when the setting of a code is looked up. -/
structure LooksUp (r : Rules) : Prop where
  /-- A code that starts with no key is an error. -/
  uncovered : ∀ code, (∀ rule ∈ r.rules, ¬ Covers rule.key code) → r.setting code = .report .error
  /-- Any other code has just one foremost rule, and the setting of that. -/
  covered : ∀ code, (∃ rule ∈ r.rules, Covers rule.key code) →
    ∃ rule, r.Foremost code rule ∧ (∀ other, r.Foremost code other → other = rule) ∧
      r.setting code = rule.setting
  /-- The order of the rules makes no difference. -/
  perm : ∀ r' : Rules, r'.rules.Perm r.rules → ∀ code, r'.setting code = r.setting code
  /-- Neither does the case of letters in the code. -/
  sameLetters : ∀ code code', sameLetters code code' = true → r.setting code = r.setting code'
  /-- Neither does loading the rules, in whatever order they come. -/
  loaded : ∀ entries : List Rule, entries.Perm r.rules →
    ∀ code, (Settings.rulesOf entries).setting code = r.setting code
  /-- Where all keys are in upper case, a key that is set has that setting. -/
  set : r.IsUpper → ∀ key setting, (r.set key setting).setting key = setting

/-- **The longest key.** The setting of a code is that of the longest key that it starts with,
however the keys are ordered and spelled. -/
theorem looksUp (r : Rules) : r.LooksUp where
  uncovered _ := setting_of_not_covers
  covered code h := by
    obtain ⟨rule, hrule⟩ := exists_foremost h
    exact ⟨rule, hrule, fun other hother => hother.unique hrule, hrule.setting_eq⟩
  perm _ := setting_perm
  sameLetters code code' h := by
    rw [sameLetters_iff] at h
    refine setting_congr ?_
    rw [← upperCase_lowerCase code, h, upperCase_lowerCase]
  loaded _ := Settings.setting_rulesOf
  set := IsUpper.setting_set

/-- Of two spellings of one key the one in lower case is the greater, before and after loading. -/
theorem looksUp_two_spellings :
    let r := ((empty.insert "S1" (.report .hint)).insert "s10" (.report .info)).insert "S10" .off
    r.setting "S105" = .report .info ∧
      (Settings.rulesOf r.rules).setting "s105" = .report .info ∧
      ((Settings.rulesOf r.rules).set "s10" .off).setting "s10" = .off := by
  intro r
  have hraw : r.setting "s105" = .report .info := by decide
  refine ⟨?_, ?_, ?_⟩
  · rw [(looksUp r).sameLetters "S105" "s105" (by decide), hraw]
  · rw [(looksUp r).loaded r.rules (.refl _), hraw]
  · exact (looksUp (Settings.rulesOf r.rules)).set (Settings.isUpper_rulesOf _) "s10" .off

end Rules

end TextTemplate
