import TextTemplate.Proofs.StoredSettings
import TextTemplate.Settings.Files

/-!
# Which settings file decides

Of the files with settings the later ones take precedence, but only key by key and before the case
of letters is dropped. So two files that spell a key alike are told apart by their order, and two
that do not by their spellings: the greatest spelling `Prevails`, and among the files that have it
the last one (`Settings.stored?_of_prevails`).

What a key is set to is therefore not always what the file of highest precedence with that key has
for it. It is if and only if the spelling that prevails has the same severity
(`FileSystem.stored?_settings_iff`).
-/
namespace TextTemplate

/-! ## What files say of a key -/

namespace TomlTable
variable {file : TomlTable} {key : String}

/-- The key as the file spells it, and its severity, if the file has the key. -/
def mention? (file : TomlTable) (key : String) : Option Rule :=
  (file.severities.find? fun entry => upperCase entry.1 = upperCase key).bind
    fun (spelling, value) => (Settings.setting? value).toOption.map (Rule.mk spelling)

/-- The file has the key in one spelling at most. -/
def MentionsOnce (file : TomlTable) (key : String) : Prop :=
  (file.severities.filter fun entry => upperCase entry.1 = upperCase key).length ≤ 1

instance (file : TomlTable) (key : String) : Decidable (file.MentionsOnce key) :=
  inferInstanceAs (Decidable (_ ≤ _))

theorem lookup_of_mem {table : TomlTable} (h : (table.map (·.1)).Nodup)
    {entry : String × Toml.Value} (hentry : entry ∈ table) :
    table.lookup entry.1 = some entry.2 := by
  induction table with
  | nil => cases hentry
  | cons first rest ih =>
    rw [List.map_cons, List.nodup_cons] at h
    rw [lookup_cons]
    rcases List.mem_cons.mp hentry with rfl | hentry
    · rw [if_pos rfl]
    · have hne : entry.1 ≠ first.1 := fun heq => h.1 (List.mem_map.mpr ⟨entry, hentry, heq⟩)
      rw [if_neg hne, ih h.2 hentry]

theorem reads_of_mention? {rule : Rule} (h : file.mention? key = some rule) :
    upperCase rule.key = upperCase key ∧ ∃ entry ∈ file.severities, Settings.Reads entry rule := by
  obtain ⟨entry, hfind, h⟩ := Option.bind_eq_some_iff.mp h
  obtain ⟨setting, hsetting, rfl⟩ := Option.map_eq_some_iff.mp h
  have hkey : upperCase entry.1 = upperCase key := by simpa using List.find?_some hfind
  exact ⟨hkey, entry, List.mem_of_find?_eq_some hfind, rfl, toOption_eq_some_iff.mp hsetting⟩

theorem exists_mention?_of_lookup (hfile : file.GivesSeverities) (honce : file.MentionsOnce key)
    {spelling : String} {value : Toml.Value} (h : file.severities.lookup spelling = some value)
    (hkey : upperCase spelling = upperCase key) :
    ∃ rule, file.mention? key = some rule ∧ rule.key = spelling := by
  have hmem := Toml.mem_of_lookup h
  obtain ⟨setting, hsetting : Settings.setting? value = .ok setting⟩ := hfile.settings _ hmem
  have hfind : file.severities.find? (fun entry => upperCase entry.1 = upperCase key) =
      some (spelling, value) := by
    rw [← List.head?_filter]
    have hfiltered : (spelling, value) ∈
        file.severities.filter fun entry => upperCase entry.1 = upperCase key :=
      List.mem_filter.mpr ⟨hmem, decide_eq_true hkey⟩
    rw [MentionsOnce] at honce
    generalize file.severities.filter _ = found at honce hfiltered ⊢
    obtain _ | ⟨entry, _ | ⟨_, _⟩⟩ := found
    · cases hfiltered
    · rw [List.mem_singleton] at hfiltered
      rw [hfiltered, List.head?_cons]
    · simp at honce
  refine ⟨⟨spelling, setting⟩, ?_, rfl⟩
  rw [mention?, hfind, Option.bind_some]
  dsimp only
  rw [toOption_eq_some_iff.mpr hsetting, Option.map_some]

end TomlTable

/-- Of what files say of a key, in rising order of precedence, this is what counts: no file has a
greater spelling, and no later one the same. -/
def Prevails (mentions : List Rule) (rule : Rule) : Prop :=
  ∃ before after, mentions = before ++ rule :: after ∧
    (∀ other ∈ before, other.key.toList ≤ rule.key.toList) ∧
    ∀ other ∈ after, other.key.toList < rule.key.toList

theorem Prevails.le {mentions : List Rule} {rule other : Rule} (h : Prevails mentions rule)
    (hother : other ∈ mentions) : other.key.toList ≤ rule.key.toList := by
  obtain ⟨before, after, rfl, hbefore, hafter⟩ := h
  rcases List.mem_append.mp hother with hother | hother
  · exact hbefore other hother
  · rcases List.mem_cons.mp hother with rfl | hother
    · exact le_rfl
    · exact (hafter other hother).le

theorem exists_prevails {mentions : List Rule} (h : mentions ≠ []) :
    ∃ rule, Prevails mentions rule := by
  induction mentions with
  | nil => exact absurd rfl h
  | cons first rest ih =>
    by_cases hrest : rest = []
    · exact ⟨first, [], [], by rw [hrest]; rfl, by simp, by simp⟩
    · obtain ⟨rule, hrule⟩ := ih hrest
      -- of equal spellings the later one stays
      by_cases hle : first.key.toList ≤ rule.key.toList
      · obtain ⟨before, after, rfl, hbefore, hafter⟩ := hrule
        exact ⟨rule, first :: before, after, rfl, List.forall_mem_cons.mpr ⟨hle, hbefore⟩, hafter⟩
      · refine ⟨first, [], rest, rfl, by simp, fun other hother => ?_⟩
        exact (hrule.le hother).trans_lt (not_le.mp hle)

namespace Settings
variable {files : List TomlTable} {settings : Settings} {key : String}

section Files
variable (hfiles : ∀ file ∈ files, file.GivesSeverities)
  (hdistinct : ∀ file ∈ files, (Toml.Value.table file).Distinct)
  (hload : ofTables files = .ok settings)
include hfiles hdistinct hload

/-- The settings of files are those that the merged severities name. -/
theorem rules_of_ofTables :
    ∃ rules, settings.rules = rulesOf rules ∧
      List.Forall₂ Reads ((files.map (·.severities)).foldl mergeTable []) rules := by
  obtain ⟨hshaped, hmerged⟩ :=
    TomlTable.severities_foldl_mergeFile TomlTable.shaped_nil hfiles hdistinct
  obtain ⟨rules, hsettings, hreads⟩ := rules_of_ofTable hshaped hload
  rw [hmerged] at hreads
  exact ⟨rules, hsettings, hreads⟩

omit hfiles hload in
theorem nodup_of_mem_severities :
    ∀ table ∈ files.map (·.severities), (table.map (·.1)).Nodup := by
  intro table htable
  obtain ⟨file, hfile, rfl⟩ := List.mem_map.mp htable
  exact TomlTable.nodup_severities (hdistinct file hfile)

omit hload in
/-- Every merged key is a key of one of the files. -/
theorem exists_mention?_of_reads {rules : List Rule}
    (honce : ∀ file ∈ files, file.MentionsOnce key)
    (h : List.Forall₂ Reads ((files.map (·.severities)).foldl mergeTable []) rules) {rule : Rule}
    (hrule : rule ∈ rules) (hkey : upperCase rule.key = upperCase key) :
    ∃ mention ∈ files.filterMap (·.mention? key), mention.key = rule.key := by
  have hmem : rule.key ∈ ((files.map (·.severities)).foldl mergeTable []).map (·.1) := by
    rw [← keys_of_reads h]
    exact List.mem_map_of_mem hrule
  obtain ⟨entry, hentry, hentryKey⟩ := List.mem_map.mp hmem
  have hlookup := TomlTable.lookup_of_mem (TomlTable.nodup_foldl_mergeTable _) hentry
  rw [hentryKey] at hlookup
  obtain ⟨table, htable, value, hvalue⟩ :=
    TomlTable.exists_of_lookup_foldl_mergeTable (nodup_of_mem_severities hdistinct) hlookup
  obtain ⟨file, hfile, rfl⟩ := List.mem_map.mp htable
  obtain ⟨mention, hmention, hspelling⟩ :=
    TomlTable.exists_mention?_of_lookup (hfiles file hfile) (honce file hfile) hvalue hkey
  exact ⟨mention, List.mem_filterMap.mpr ⟨file, hfile, hmention⟩, hspelling⟩

omit hdistinct hload in
/-- What prevails comes from a file after which none has the spelling. -/
theorem exists_file_of_prevails (honce : ∀ file ∈ files, file.MentionsOnce key) {rule : Rule}
    (hprevails : Prevails (files.filterMap (·.mention? key)) rule) :
    ∃ earlier file later, files = earlier ++ file :: later ∧ file.mention? key = some rule ∧
      ∀ other ∈ later, other.severities.lookup rule.key = none := by
  obtain ⟨before, after, hmentions, -, hafter⟩ := hprevails
  obtain ⟨first, rest, rfl, -, hrest⟩ := List.filterMap_eq_append_iff.mp hmentions
  obtain ⟨second, file, later, rfl, -, hmention, hlater⟩ := List.filterMap_eq_cons_iff.mp hrest
  refine ⟨first ++ second, file, later, by rw [List.append_assoc], hmention, ?_⟩
  intro other hother
  -- a later file with the spelling would have something to say of the key
  cases hlookup : other.severities.lookup rule.key with
  | none => rfl
  | some value =>
    have hmem : other ∈ first ++ (second ++ file :: later) := by simp [hother]
    obtain ⟨mention, hmention', hspelling⟩ :=
      TomlTable.exists_mention?_of_lookup (hfiles other hmem) (honce other hmem) hlookup
        (TomlTable.reads_of_mention? hmention).1
    have hlt : mention.key.toList < rule.key.toList :=
      hafter mention (hlater ▸ List.mem_filterMap.mpr ⟨other, hother, hmention'⟩)
    rw [hspelling] at hlt
    exact absurd hlt (lt_irrefl _)

omit hload in
/-- What prevails is among the merged rules. -/
theorem mem_rules_of_prevails (honce : ∀ file ∈ files, file.MentionsOnce key) {rules : List Rule}
    (h : List.Forall₂ Reads ((files.map (·.severities)).foldl mergeTable []) rules) {rule : Rule}
    (hprevails : Prevails (files.filterMap (·.mention? key)) rule) : rule ∈ rules := by
  have hkeys := nodup_of_mem_severities hdistinct
  obtain ⟨earlier, file, later, rfl, hmention, hlater⟩ :=
    exists_file_of_prevails hfiles honce hprevails
  obtain ⟨-, entry, hentry, hspelling, hsetting⟩ := TomlTable.reads_of_mention? hmention
  have hlookup : file.severities.lookup rule.key = some entry.2 := by
    rw [hspelling]
    exact TomlTable.lookup_of_mem (TomlTable.nodup_severities (hdistinct file (by simp))) hentry
  rw [List.map_append, List.map_cons] at hkeys h
  obtain ⟨under, hmerged⟩ :=
    TomlTable.lookup_foldl_mergeTable hkeys hlookup (by simpa using hlater)
  -- the file's severity goes over those of the files before it, and stays what it is
  obtain ⟨rule', hrule', hspelling', hsetting'⟩ :=
    exists_reads_of_mem_entries h (Toml.mem_of_lookup hmerged)
  have hsame : rule' = rule := Rule.ext hspelling' (setting?_mergeValue hsetting hsetting')
  exact hsame ▸ hrule'

/-- A key is set to what the last file with its greatest spelling has for it. -/
theorem stored?_of_prevails (honce : ∀ file ∈ files, file.MentionsOnce key) {rule : Rule}
    (hprevails : Prevails (files.filterMap (·.mention? key)) rule) :
    settings.rules.stored? (upperCase key) = some rule.setting := by
  obtain ⟨rules, hsettings, hreads⟩ := rules_of_ofTables hfiles hdistinct hload
  have hrule : rule ∈ rules := mem_rules_of_prevails hfiles hdistinct honce hreads hprevails
  have hkey : upperCase rule.key = upperCase key := by
    obtain ⟨earlier, file, later, -, hmention, -⟩ := exists_file_of_prevails hfiles honce hprevails
    exact (TomlTable.reads_of_mention? hmention).1
  have hnodup : (rules.map (·.key)).Nodup := by
    rw [keys_of_reads hreads]
    exact TomlTable.nodup_foldl_mergeTable _
  rw [hsettings]
  refine stored?_rulesOf hnodup hrule hkey fun other hother hkey' => ?_
  obtain ⟨mention, hmention, hspelling⟩ :=
    exists_mention?_of_reads hfiles hdistinct honce hreads hother hkey'
  exact hspelling ▸ hprevails.le hmention

end Files

end Settings

/-! ## Values that can be compared -/

namespace Toml

namespace Value

mutual

/-- Whether two values are the same. -/
def decEq : (value other : Value) → Decidable (value = other)
  | .text a, .text b => decidable_of_iff (a = b) (by rw [text.injEq])
  | .scalar a, .scalar b => decidable_of_iff (a = b) (by rw [scalar.injEq])
  | .array items, .array others =>
    match decEqItems items others with
    | isTrue h => isTrue (congrArg array h)
    | isFalse h => isFalse fun heq => h (array.inj heq)
  | .table entries, .table others =>
    match decEqEntries entries others with
    | isTrue h => isTrue (congrArg table h)
    | isFalse h => isFalse fun heq => h (table.inj heq)
  | .text _, .scalar _ | .text _, .array _ | .text _, .table _
  | .scalar _, .text _ | .scalar _, .array _ | .scalar _, .table _
  | .array _, .text _ | .array _, .scalar _ | .array _, .table _
  | .table _, .text _ | .table _, .scalar _ | .table _, .array _ => isFalse nofun

/-- Whether the elements of two arrays are the same. -/
def decEqItems : (items others : List Value) → Decidable (items = others)
  | [], [] => isTrue rfl
  | value :: items, other :: others =>
    match decEq value other, decEqItems items others with
    | isTrue h, isTrue h' => isTrue (by rw [h, h'])
    | isFalse h, _ => isFalse fun heq => h (List.cons.inj heq).1
    | _, isFalse h => isFalse fun heq => h (List.cons.inj heq).2
  | [], _ :: _ | _ :: _, [] => isFalse nofun

/-- Whether the entries of two tables are the same. -/
def decEqEntries : (entries others : List (String × Value)) → Decidable (entries = others)
  | [], [] => isTrue rfl
  | (key, value) :: entries, (key', value') :: others =>
    match decEq value value', decEqEntries entries others with
    | isTrue h, isTrue h' => decidable_of_iff (key = key') (by rw [h, h']; simp)
    | isFalse h, _ => isFalse fun heq => h (Prod.mk.inj (List.cons.inj heq).1).2
    | _, isFalse h => isFalse fun heq => h (List.cons.inj heq).2
  | [], _ :: _ | _ :: _, [] => isFalse nofun

end

instance : DecidableEq Value :=
  decEq

end Value

end Toml

/-! ## Settings of a project -/

namespace FileSystem
variable {fs : FileSystem} {directory : Place} {user : Option String} {settings : Settings}
  {key : String}

/-- The settings files of a project by name and content, in rising order of precedence. -/
def settingsFiles (fs : FileSystem) (directory : Place) (user : Option String) :
    List (String × ByteArray) :=
  let places := (user.toList ++ projectSettings).filterMap (fs.settingsFile? directory)
  places.filterMap fun place => (fs.read? place).map fun content => (place.text, content)

theorem settings_eq (fs : FileSystem) (directory : Place) (user : Option String) :
    fs.settings directory user = Settings.ofFiles (fs.settingsFiles directory user) :=
  rfl

/-- The tables of the settings files of a project, in rising order of precedence. -/
def settingsTables (fs : FileSystem) (directory : Place) (user : Option String) :
    List TomlTable :=
  (fs.settingsFiles directory user).filterMap fun (name, content) =>
    (Settings.tableOf name content).toOption

theorem distinct_of_mem_settingsTables {file : TomlTable}
    (h : file ∈ fs.settingsTables directory user) : (Toml.Value.table file).Distinct := by
  obtain ⟨⟨name, content⟩, -, h⟩ := List.mem_filterMap.mp h
  have htable : Settings.tableOf name content = .ok file := toOption_eq_some_iff.mp h
  rw [Settings.tableOf] at htable
  split at htable
  · next table hparse =>
    cases htable
    exact Toml.distinct_of_parse? hparse
  · cases htable

/-- Settings that can be loaded are those of the tables. -/
theorem ofTables_settingsTables (h : fs.settings directory user = .ok settings) :
    Settings.ofTables (fs.settingsTables directory user) = .ok settings := by
  rw [settings_eq] at h
  obtain ⟨tables, htables, h⟩ := bind_eq_ok_iff.mp h
  rw [settingsTables, filterMap_toOption_of_mapM htables, h]

section Precedence
variable (hload : fs.settings directory user = .ok settings)
  (hfiles : ∀ file ∈ fs.settingsTables directory user, file.GivesSeverities)
  (honce : ∀ file ∈ fs.settingsTables directory user, file.MentionsOnce key)
include hload hfiles honce

theorem stored?_settings_of_prevails {rule : Rule}
    (h : Prevails ((fs.settingsTables directory user).filterMap (·.mention? key)) rule) :
    settings.rules.stored? (upperCase key) = some rule.setting :=
  Settings.stored?_of_prevails hfiles (fun _ => distinct_of_mem_settingsTables)
    (ofTables_settingsTables hload) honce h

/-- A key is set to what the file of highest precedence with it has for it, if and only if what
prevails is the same severity. -/
theorem stored?_settings_iff {highest : Rule}
    (hhighest : ((fs.settingsTables directory user).filterMap (·.mention? key)).getLast? =
      some highest) :
    settings.rules.stored? (upperCase key) = some highest.setting ↔
      ∃ rule, Prevails ((fs.settingsTables directory user).filterMap (·.mention? key)) rule ∧
        rule.setting = highest.setting := by
  constructor
  · intro hstored
    have hmentioned : (fs.settingsTables directory user).filterMap (·.mention? key) ≠ [] := by
      intro hnil
      rw [hnil] at hhighest
      cases hhighest
    obtain ⟨rule, hrule⟩ := exists_prevails hmentioned
    have hsetting := stored?_settings_of_prevails hload hfiles honce hrule
    exact ⟨rule, hrule, Option.some.inj (hsetting.symm.trans hstored)⟩
  · rintro ⟨rule, hrule, hsame⟩
    rw [stored?_settings_of_prevails hload hfiles honce hrule, hsame]

end Precedence

/-! ## Two spellings -/

/-- Two settings files that spell both of their keys in different cases of letters. -/
def mixedSpellings : FileSystem where
  files := [
    (["p", ".t4.toml"], "[diagnostics.severity]\ns101=\"off\"\nS102=\"off\"".toUTF8),
    (["p", "t4.toml"], "[diagnostics.severity]\nS101=\"hint\"\ns102=\"hint\"".toUTF8)]
  directories := []

/-- The table of a file with the named severities. -/
def severityTable (names : List (String × String)) : TomlTable :=
  [("diagnostics", .table [("severity", .table (names.map fun (key, name) => (key, .text name)))])]

theorem givesSeverities_severityTable {names : List (String × String)}
    (h : ∀ entry ∈ names, (Setting.ofName? entry.2).isSome) :
    (severityTable names).GivesSeverities where
  diagnostics value hvalue := ⟨_, (Option.some.inj hvalue).symm⟩
  severity value hvalue := ⟨_, (Option.some.inj hvalue).symm⟩
  plain entry hentry _ := by rw [List.mem_singleton.mp hentry]
  settings entry hentry := by
    obtain ⟨⟨key, name⟩, hname, rfl⟩ := List.mem_map.mp hentry
    obtain ⟨setting, hsetting⟩ := Option.isSome_iff_exists.mp (h _ hname)
    exact ⟨setting, by rw [Settings.setting?, hsetting]⟩

theorem tables_mixedSpellings :
    (mixedSpellings.settingsFiles ["p"] none).mapM
        (fun (name, content) => Settings.tableOf name content) =
      .ok [severityTable [("s101", "off"), ("S102", "off")],
        severityTable [("S101", "hint"), ("s102", "hint")]] := by
  rw [← toOption_eq_some_iff]
  decide +kernel

theorem settingsTables_mixedSpellings : mixedSpellings.settingsTables ["p"] none =
    [severityTable [("s101", "off"), ("S102", "off")],
      severityTable [("S101", "hint"), ("s102", "hint")]] :=
  filterMap_toOption_of_mapM tables_mixedSpellings

theorem exists_settings_mixedSpellings :
    ∃ settings, mixedSpellings.settings ["p"] none = .ok settings := by
  have hloads : (Settings.ofTables [severityTable [("s101", "off"), ("S102", "off")],
      severityTable [("S101", "hint"), ("s102", "hint")]]).toOption.isSome = true := by
    decide +kernel
  obtain ⟨settings, hsettings⟩ := Option.isSome_iff_exists.mp hloads
  refine ⟨settings, bind_eq_ok_iff.mpr ⟨_, tables_mixedSpellings, ?_⟩⟩
  exact toOption_eq_some_iff.mp hsettings

theorem givesSeverities_mixedSpellings :
    ∀ file ∈ mixedSpellings.settingsTables ["p"] none, file.GivesSeverities := by
  rw [settingsTables_mixedSpellings, List.forall_mem_cons, List.forall_mem_singleton]
  constructor
  · exact givesSeverities_severityTable (by decide +kernel)
  · exact givesSeverities_severityTable (by decide +kernel)

/-- What the two files say of their second key, for which the file of highest precedence has the
greatest spelling. -/
theorem stored?_settings_mixedSpellings : ∃ settings,
    mixedSpellings.settings ["p"] none = .ok settings ∧
      settings.rules.stored? "S102" = some (.report .hint) := by
  obtain ⟨settings, hload⟩ := exists_settings_mixedSpellings
  have honce : ∀ file ∈ mixedSpellings.settingsTables ["p"] none, file.MentionsOnce "S102" := by
    rw [settingsTables_mixedSpellings]
    decide +kernel
  have hmentions : (mixedSpellings.settingsTables ["p"] none).filterMap (·.mention? "S102") =
      [⟨"S102", .off⟩, ⟨"s102", .report .hint⟩] := by
    rw [settingsTables_mixedSpellings]
    decide +kernel
  have hhighest := congrArg List.getLast? hmentions
  refine ⟨settings, hload, (stored?_settings_iff hload givesSeverities_mixedSpellings honce
    hhighest).mpr ⟨_, ⟨[⟨"S102", .off⟩], [], hmentions, ?_, by simp⟩, rfl⟩⟩
  decide +kernel

/-- The file of highest precedence with a key does not always decide it. -/
theorem not_forall_stored?_settings_highest :
    ¬ ∀ (fs : FileSystem) (directory : Place) (user : Option String) (settings : Settings)
        (key : String) (highest : Rule),
      fs.settings directory user = .ok settings →
      (∀ file ∈ fs.settingsTables directory user, file.GivesSeverities) →
      (∀ file ∈ fs.settingsTables directory user, file.MentionsOnce key) →
      ((fs.settingsTables directory user).filterMap (·.mention? key)).getLast? = some highest →
        settings.rules.stored? (upperCase key) = some highest.setting := by
  intro h
  obtain ⟨settings, hload⟩ := exists_settings_mixedSpellings
  have honce : ∀ file ∈ mixedSpellings.settingsTables ["p"] none, file.MentionsOnce "S101" := by
    rw [settingsTables_mixedSpellings]
    decide +kernel
  have hmentions : (mixedSpellings.settingsTables ["p"] none).filterMap (·.mention? "S101") =
      [⟨"s101", .off⟩, ⟨"S101", .report .hint⟩] := by
    rw [settingsTables_mixedSpellings]
    decide +kernel
  have hstored := h _ _ _ settings "S101" _ hload givesSeverities_mixedSpellings honce
    (congrArg List.getLast? hmentions)
  have hprevails : Prevails ((mixedSpellings.settingsTables ["p"] none).filterMap
      (·.mention? "S101")) ⟨"s101", .off⟩ :=
    ⟨[], [⟨"S101", .report .hint⟩], hmentions, by simp, by decide +kernel⟩
  rw [stored?_settings_of_prevails hload givesSeverities_mixedSpellings honce hprevails] at hstored
  cases hstored

end FileSystem

end TextTemplate
