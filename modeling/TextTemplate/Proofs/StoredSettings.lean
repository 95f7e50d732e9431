import TextTemplate.Proofs.DecisiveRule
import TextTemplate.Proofs.MergedTables
import TextTemplate.Proofs.SortedLists

/-!
# What settings store

The entries of the table `diagnostics.severity` become rules, whose keys are in upper case
(`Settings.isUpper_rulesOf`). Entries whose keys differ only in the case of letters become one
rule. They are set one after the other in the order of their spellings, so of those the greatest
spelling counts (`Settings.stored?_rulesOf`).
-/
namespace TextTemplate

/-! ## Stored settings -/

namespace Rules
variable {r : Rules} {key : String} {setting : Setting}

/-- The setting that is stored for exactly this key. -/
def stored? (r : Rules) (key : String) : Option Setting :=
  (r.rules.find? (·.key = key)).map (·.setting)

theorem stored?_eq_some_iff : r.stored? key = some setting ↔ ⟨key, setting⟩ ∈ r.rules := by
  rw [stored?, Option.map_eq_some_iff]
  constructor
  · rintro ⟨rule, hfind, rfl⟩
    have hkey : rule.key = key := by simpa using List.find?_some hfind
    exact hkey ▸ List.mem_of_find?_eq_some hfind
  · intro hrule
    cases hfind : r.rules.find? (·.key = key) with
    | none => simpa using List.find?_eq_none.mp hfind _ hrule
    | some rule =>
      -- the rule that is found has the key, and no other rule has it
      have hkey : rule.key = key := by simpa using List.find?_some hfind
      refine ⟨rule, rfl, ?_⟩
      rw [eq_of_key_eq (List.mem_of_find?_eq_some hfind) hrule hkey]

theorem stored?_set (r : Rules) (key other : String) (setting : Setting) :
    (r.set key setting).stored? other =
      if other = upperCase key then some setting else r.stored? other := by
  apply Option.ext
  intro setting'
  rw [stored?_eq_some_iff, mem_set]
  by_cases h : other = upperCase key
  · simp [h, eq_comm]
  · rw [if_neg h, stored?_eq_some_iff]
    simp [h]

theorem stored?_setAll_of_absent {rules : List Rule}
    (h : ∀ rule ∈ rules, upperCase rule.key ≠ key) :
    (r.setAll rules).stored? key = r.stored? key := by
  induction rules generalizing r with
  | nil => rfl
  | cons rule rules ih =>
    rw [List.forall_mem_cons] at h
    have hstep : r.setAll (rule :: rules) = (r.set rule.key rule.setting).setAll rules := rfl
    rw [hstep, ih h.2, stored?_set, if_neg h.1.symm]

/-- The last rule for a key counts. -/
theorem stored?_setAll {before after : List Rule} {rule : Rule} (hkey : upperCase rule.key = key)
    (hafter : ∀ other ∈ after, upperCase other.key ≠ key) :
    (r.setAll (before ++ rule :: after)).stored? key = some rule.setting := by
  have hstep : r.setAll (before ++ rule :: after) =
      ((r.setAll before).set rule.key rule.setting).setAll after := by
    rw [setAll, List.foldl_append]
    rfl
  rw [hstep, stored?_setAll_of_absent hafter, stored?_set, if_pos hkey.symm]

end Rules

namespace Settings

/-! ## Rules of merged entries -/

/-- The order of spellings, in which keys that differ only in the case of letters are set. -/
def spelledLe (rule other : Rule) : Bool :=
  !decide (other.key.toList < rule.key.toList)

theorem spelledLe_iff (rule other : Rule) :
    spelledLe rule other = true ↔ rule.key.toList ≤ other.key.toList := by
  rw [spelledLe, Bool.not_eq_true', decide_eq_false_iff_not, not_lt]

theorem rulesOf_eq (entries : List Rule) :
    rulesOf entries = Rules.empty.setAll (entries.mergeSort spelledLe) :=
  rfl

theorem isUpper_rulesOf (entries : List Rule) : (rulesOf entries).IsUpper := by
  rw [rulesOf_eq]
  have hempty : Rules.empty.IsUpper := fun _ h => nomatch h
  exact hempty.setAll _

theorem stored?_rulesOf_of_absent {entries : List Rule} {key : String}
    (h : ∀ rule ∈ entries, upperCase rule.key ≠ key) : (rulesOf entries).stored? key = none := by
  rw [rulesOf_eq, Rules.stored?_setAll_of_absent]
  · rfl
  · intro rule hrule
    exact h rule (List.mem_mergeSort.mp hrule)

/-- Of entries with one key up to case, the greatest spelling counts. -/
theorem stored?_rulesOf {entries : List Rule} (hnodup : (entries.map (·.key)).Nodup) {rule : Rule}
    (hrule : rule ∈ entries) {key : String} (hkey : upperCase rule.key = key)
    (hgreatest : ∀ other ∈ entries, upperCase other.key = key →
      other.key.toList ≤ rule.key.toList) :
    (rulesOf entries).stored? key = some rule.setting := by
  have hperm := List.mergeSort_perm entries spelledLe
  have hsorted : (entries.mergeSort spelledLe).Pairwise
      fun rule other => rule.key.toList ≤ other.key.toList :=
    pairwise_mergeSort_key spelledLe_iff entries
  have hnodup' : ((entries.mergeSort spelledLe).map (·.key)).Nodup :=
    (hperm.map _).nodup_iff.mpr hnodup
  obtain ⟨before, after, hsplit⟩ := List.append_of_mem (List.mem_mergeSort.mpr hrule)
  rw [rulesOf_eq, hsplit]
  refine Rules.stored?_setAll hkey fun other hother hkey' => ?_
  rw [hsplit, List.pairwise_append, List.pairwise_cons] at hsorted
  rw [hsplit, List.map_append, List.nodup_append, List.map_cons, List.nodup_cons] at hnodup'
  -- a later entry with the key has a greater spelling, or the same one
  have hmem : other ∈ entries := by
    rw [← List.mem_mergeSort, hsplit]
    exact List.mem_append_right _ (List.mem_cons_of_mem _ hother)
  have hle : other.key.toList ≤ rule.key.toList := hgreatest other hmem hkey'
  have hge : rule.key.toList ≤ other.key.toList := hsorted.2.1.1 other hother
  have hsame : other.key = rule.key := String.toList_inj.mp (le_antisymm hle hge)
  exact hnodup'.2.1.1 (List.mem_map.mpr ⟨other, hother, hsame⟩)

end Settings

/-! ## Settings of a merged table -/

theorem bind_eq_ok_iff {ε α β : Type} {x : Except ε α} {f : α → Except ε β} {b : β} :
    x >>= f = .ok b ↔ ∃ a, x = .ok a ∧ f a = .ok b := by
  cases x with
  | error e => exact ⟨fun h => (nomatch h), fun ⟨a, h, _⟩ => (nomatch h)⟩
  | ok a => exact ⟨fun h => ⟨a, rfl, h⟩, fun ⟨a', h, hf⟩ => Except.ok.inj h ▸ hf⟩

theorem toOption_eq_some_iff {ε α : Type} {x : Except ε α} {a : α} :
    x.toOption = some a ↔ x = .ok a := by
  cases x with
  | error e => exact ⟨fun h => (nomatch h), fun h => (nomatch h)⟩
  | ok b => exact ⟨fun h => congrArg _ (Option.some.inj h), fun h => congrArg _ (Except.ok.inj h)⟩

/-- What is made of a list without an error is made of its elements one by one. -/
theorem forall₂_of_mapM {ε α β : Type} {f : α → Except ε β} {l : List α} {l' : List β}
    (h : l.mapM f = .ok l') : List.Forall₂ (fun a b => f a = .ok b) l l' := by
  induction l generalizing l' with
  | nil =>
    rw [List.mapM_nil] at h
    cases h
    exact .nil
  | cons a l ih =>
    rw [List.mapM_cons] at h
    obtain ⟨b, hb, h⟩ := bind_eq_ok_iff.mp h
    obtain ⟨bs, hbs, h⟩ := bind_eq_ok_iff.mp h
    cases h
    exact .cons hb (ih hbs)

theorem filterMap_toOption_of_mapM {ε α β : Type} {f : α → Except ε β} {l : List α} {l' : List β}
    (h : l.mapM f = .ok l') : l.filterMap (fun a => (f a).toOption) = l' := by
  have hsteps := forall₂_of_mapM h
  clear h
  induction hsteps with
  | nil => rfl
  | cons hstep _ ih =>
    rw [List.filterMap_cons, hstep, ih]
    rfl

namespace Settings

/-- The rule spells its key as the entry does, and has the setting that the entry names. -/
def Reads (entry : String × Toml.Value) (rule : Rule) : Prop :=
  rule.key = entry.1 ∧ setting? entry.2 = .ok rule.setting

theorem reads_of_entries? {entries : TomlTable} {rules : List Rule}
    (h : entries? (some (.table entries)) = .ok rules) : List.Forall₂ Reads entries rules := by
  rw [entries?] at h
  refine (forall₂_of_mapM h).imp fun entry rule hentry => ?_
  obtain ⟨setting, hsetting, heq⟩ := bind_eq_ok_iff.mp hentry
  cases heq
  exact ⟨rfl, hsetting⟩

theorem severities?_eq {table : TomlTable} (h : table.HasTable "diagnostics") :
    severities? table = .ok ((table.tableAt "diagnostics").lookup "severity") := by
  rw [severities?, TomlTable.tableAt]
  cases hlookup : table.lookup "diagnostics" with
  | none => rfl
  | some value =>
    obtain ⟨entries, rfl⟩ := h value hlookup
    rfl

/-- The settings of a table are those that its severities name. -/
theorem rules_of_ofTable {table : TomlTable} (hshaped : table.Shaped) {settings : Settings}
    (h : ofTable table = .ok settings) :
    ∃ rules, settings.rules = rulesOf rules ∧ List.Forall₂ Reads table.severities rules := by
  obtain ⟨value?, hvalue, h⟩ := bind_eq_ok_iff.mp h
  obtain ⟨rules, hrules, h⟩ := bind_eq_ok_iff.mp h
  cases h
  refine ⟨rules, rfl, ?_⟩
  rw [severities?_eq hshaped.diagnostics] at hvalue
  cases hvalue
  rw [TomlTable.severities, TomlTable.tableAt]
  cases hlookup : (table.tableAt "diagnostics").lookup "severity" with
  | none =>
    rw [hlookup] at hrules
    cases hrules
    exact .nil
  | some value =>
    obtain ⟨entries, rfl⟩ := hshaped.severity value hlookup
    rw [hlookup] at hrules
    exact reads_of_entries? hrules

section Reads
variable {entries : TomlTable} {rules : List Rule} (h : List.Forall₂ Reads entries rules)
include h

theorem keys_of_reads : rules.map (·.key) = entries.map (·.1) := by
  induction h with
  | nil => rfl
  | cons hread _ ih => rw [List.map_cons, List.map_cons, ih, hread.1]

theorem exists_reads_of_mem_entries {entry : String × Toml.Value} (hentry : entry ∈ entries) :
    ∃ rule ∈ rules, Reads entry rule := by
  induction h with
  | nil => cases hentry
  | @cons first rule entries rules hread _ ih =>
    rcases List.mem_cons.mp hentry with rfl | hentry
    · exact ⟨rule, List.mem_cons_self, hread⟩
    · obtain ⟨rule', hrule', hread'⟩ := ih hentry
      exact ⟨rule', List.mem_cons_of_mem _ hrule', hread'⟩

end Reads

theorem setting?_of_table {entries : TomlTable} {setting : Setting}
    (h : setting? (.table entries) = .ok setting) :
    ∃ name value, entries = [(name, value)] ∧ setting? (.text name) = .ok setting := by
  obtain _ | ⟨⟨name, value⟩, _ | ⟨_, _⟩⟩ := entries
  · cases h
  · exact ⟨name, value, rfl, h⟩
  · cases h

/-- A severity stays the same over another value, if the two together are a severity at all. -/
theorem setting?_mergeValue {under value : Toml.Value} {setting setting' : Setting}
    (h : setting? value = .ok setting)
    (hmerged : setting? (mergeValue under value) = .ok setting') : setting' = setting := by
  cases value with
  | text name =>
    have hsame : mergeValue under (.text name) = .text name := rfl
    rw [hsame] at hmerged
    exact Except.ok.inj (hmerged.symm.trans h)
  | scalar => cases h
  | array => cases h
  | table entries =>
    obtain ⟨name, value, rfl, hname⟩ := setting?_of_table h
    obtain ⟨base, hput⟩ : ∃ base, mergeValue under (.table [(name, value)]) =
        .table (mergeTable base [(name, value)]) := by
      cases under <;> exact ⟨_, rfl⟩
    rw [hput] at hmerged
    -- a table names a severity by its only key
    obtain ⟨name', value', hsingle, hname'⟩ := setting?_of_table hmerged
    -- the name is a key of the merged table, which has no other
    have hlookup := TomlTable.lookup_put name name
      (mergeValue ((base.lookup name).getD KeyPath.unset) value) base
    rw [if_pos rfl] at hlookup
    have hmem := Toml.mem_of_lookup hlookup
    rw [mergeTable, mergeTable] at hsingle
    rw [hsingle, List.mem_singleton] at hmem
    obtain rfl : name = name' := congrArg Prod.fst hmem
    exact Except.ok.inj (hname'.symm.trans hname)

end Settings

end TextTemplate
