import TextTemplate.Proofs.DistinctKeys
import TextTemplate.Settings.Load

/-!
# Tables that are merged

A table over another one takes precedence key by key, and tables at the same key are merged in turn.
So the table `diagnostics.severity` of merged files is what comes of merging the tables
`diagnostics.severity` of the files one after the other (`severities_foldl_mergeFile`), provided
that the files `GivesSeverities` in the one way there is for it. At each key the last of these
tables that has it decides (`lookup_foldl_mergeTable`).
-/
namespace TextTemplate

namespace TomlTable
variable {base top merged : TomlTable} {key : String}

/-! ## One table over another -/

theorem lookup_cons (entry : String × Toml.Value) (rest : TomlTable) :
    List.lookup key (entry :: rest) = if key = entry.1 then some entry.2 else rest.lookup key := by
  rw [List.lookup_cons]
  by_cases h : key = entry.1
  · rw [if_pos h, beq_iff_eq.mpr h]
  · rw [if_neg h, beq_eq_false_iff_ne.mpr h]

theorem lookup_eq_none {table : TomlTable} (h : key ∉ table.map (·.1)) :
    table.lookup key = none := by
  rw [List.lookup_eq_none_iff]
  intro entry hentry
  have hne : key ≠ entry.1 := fun heq => h (List.mem_map.mpr ⟨entry, hentry, heq.symm⟩)
  simpa using hne

theorem lookup_put (key other : String) (value : Toml.Value) (table : TomlTable) :
    (put key value table).lookup other =
      if other = key then some value else table.lookup other := by
  fun_induction put key value table with
  | case1 => rw [lookup_cons]
  | case2 old rest =>
    rw [lookup_cons, lookup_cons]
    by_cases h : other = key
    · rw [if_pos h, if_pos h]
    · rw [if_neg h, if_neg h, if_neg h]
  | case3 k old rest hne ih =>
    rw [lookup_cons, lookup_cons, ih]
    by_cases h : other = k
    · rw [if_pos h, if_pos h, if_neg (h ▸ hne)]
    · rw [if_neg h, if_neg h]

theorem mem_keys_put {other : String} {value : Toml.Value} {table : TomlTable}
    (h : other ∈ (put key value table).map (·.1)) : other = key ∨ other ∈ table.map (·.1) := by
  fun_induction put key value table with
  | case1 => exact .inl (List.mem_singleton.mp h)
  | case2 old rest => exact .inr h
  | case3 k old rest hne ih =>
    rcases List.mem_cons.mp h with rfl | h
    · exact .inr List.mem_cons_self
    · exact (ih h).imp_right (List.mem_cons_of_mem _)

theorem nodup_put {value : Toml.Value} {table : TomlTable} (h : (table.map (·.1)).Nodup) :
    ((put key value table).map (·.1)).Nodup := by
  fun_induction put key value table with
  | case1 => simp
  | case2 old rest => exact h
  | case3 k old rest hne ih =>
    rw [List.map_cons, List.nodup_cons] at h ⊢
    refine ⟨fun hmem => ?_, ih h.2⟩
    rcases mem_keys_put hmem with heq | hmem
    · exact hne heq
    · exact h.1 hmem

/-- What the merged table has at the key is what comes of the two tables there. -/
def MergedAt (key : String) (base top merged : TomlTable) : Prop :=
  merged.lookup key =
    match top.lookup key with
    | some value => some (mergeValue ((base.lookup key).getD KeyPath.unset) value)
    | none => base.lookup key

theorem mergedAt_mergeTable (key : String) (base : TomlTable) (htop : (top.map (·.1)).Nodup) :
    MergedAt key base top (mergeTable base top) := by
  induction top generalizing base with
  | nil =>
    rw [mergeTable]
    rfl
  | cons entry rest ih =>
    obtain ⟨k, value⟩ := entry
    rw [List.map_cons, List.nodup_cons] at htop
    have hrest := ih (put k (mergeValue ((base.lookup k).getD KeyPath.unset) value) base) htop.2
    rw [MergedAt, lookup_put] at hrest
    rw [MergedAt, mergeTable, hrest, lookup_cons]
    by_cases h : key = k
    · -- the key does not come again
      subst h
      rw [lookup_eq_none htop.1, if_pos rfl, if_pos rfl]
    · rw [if_neg h, if_neg h]

theorem nodup_mergeTable (hbase : (base.map (·.1)).Nodup) (top : TomlTable) :
    ((mergeTable base top).map (·.1)).Nodup := by
  induction top generalizing base with
  | nil =>
    rw [mergeTable]
    exact hbase
  | cons entry rest ih =>
    rw [mergeTable]
    exact ih (nodup_put hbase)

/-- The keys of a file are paths, but a key that no other key leads into is merged as in a table. -/
theorem mergedAt_mergeFile (hkey : KeyPath.ofString key = ⟨key, []⟩) (base : TomlTable)
    {file : TomlTable} (hfile : (file.map (·.1)).Nodup)
    (hplain : ∀ entry ∈ file, (KeyPath.ofString entry.1).root = key → entry.1 = key) :
    MergedAt key base file (mergeFile base file) := by
  induction file generalizing base with
  | nil => rfl
  | cons entry rest ih =>
    obtain ⟨k, value⟩ := entry
    rw [List.map_cons, List.nodup_cons] at hfile
    rw [List.forall_mem_cons] at hplain
    have hrest := ih ((KeyPath.ofString k).put (mergeValue · value) base) hfile.2 hplain.2
    have hstep : mergeFile base ((k, value) :: rest) =
      mergeFile ((KeyPath.ofString k).put (mergeValue · value) base) rest := rfl
    rw [MergedAt, hstep, hrest, KeyPath.put, lookup_put, lookup_cons]
    by_cases h : key = k
    · subst h
      rw [lookup_eq_none hfile.1, hkey, if_pos rfl, if_pos rfl]
      rfl
    · -- what the entry changes lies below its root, which is another key
      have hroot : key ≠ (KeyPath.ofString k).root :=
        fun heq => h (hplain.1 heq.symm).symm
      rw [if_neg h, if_neg hroot]

/-! ## Tables in tables -/

/-- The table at the key; nothing if there is no table. -/
def tableAt (table : TomlTable) (key : String) : TomlTable :=
  match table.lookup key with
  | some (.table entries) => entries
  | _ => []

/-- What is at the key, if anything, is a table. -/
def HasTable (table : TomlTable) (key : String) : Prop :=
  ∀ value, table.lookup key = some value → ∃ entries, value = .table entries

/-- Tables at one key are merged in turn. -/
theorem MergedAt.tableAt (h : MergedAt key base top merged) (hbase : base.HasTable key)
    (htop : top.HasTable key) :
    merged.HasTable key ∧
      merged.tableAt key = mergeTable (base.tableAt key) (top.tableAt key) := by
  rw [MergedAt] at h
  cases hlookup : top.lookup key with
  | none =>
    rw [hlookup] at h
    refine ⟨fun value hvalue => hbase value (h.symm.trans hvalue), ?_⟩
    rw [TomlTable.tableAt, h, TomlTable.tableAt, TomlTable.tableAt, hlookup, mergeTable]
  | some value =>
    obtain ⟨entries, rfl⟩ := htop value hlookup
    rw [hlookup] at h
    have hmerged : merged.lookup key =
        some (.table (mergeTable (base.tableAt key) entries)) := by
      rw [h, TomlTable.tableAt]
      cases hunder : base.lookup key with
      | none => rfl
      | some under =>
        obtain ⟨entries', rfl⟩ := hbase under hunder
        rfl
    refine ⟨fun value hvalue => ?_, ?_⟩
    · rw [hmerged] at hvalue
      exact ⟨_, (Option.some.inj hvalue).symm⟩
    · have hentries : top.tableAt key = entries := by rw [TomlTable.tableAt, hlookup]
      rw [hentries, TomlTable.tableAt, hmerged]

/-! ## Severities -/

/-- The entries of the table `diagnostics.severity`. -/
def severities (table : TomlTable) : TomlTable :=
  (table.tableAt "diagnostics").tableAt "severity"

/-- Both `diagnostics` and `diagnostics.severity` are tables, as far as there are such. -/
structure Shaped (table : TomlTable) : Prop where
  diagnostics : table.HasTable "diagnostics"
  severity : (table.tableAt "diagnostics").HasTable "severity"

/-- The file has severities in the table `diagnostics.severity` and nowhere else. -/
structure GivesSeverities (file : TomlTable) : Prop extends Shaped file where
  /-- No other key spells a path into the table `diagnostics`. -/
  plain : ∀ entry ∈ file, (KeyPath.ofString entry.1).root = "diagnostics" →
    entry.1 = "diagnostics"
  /-- All that is in the table are severities. -/
  settings : ∀ entry ∈ file.severities, ∃ setting, Settings.setting? entry.2 = .ok setting

theorem distinct_tableAt {table : TomlTable} (h : (Toml.Value.table table).Distinct)
    (key : String) : (Toml.Value.table (table.tableAt key)).Distinct := by
  cases h with
  | table hkeys hentries =>
    rw [tableAt]
    split
    · next entries hlookup => exact hentries _ (Toml.mem_of_lookup hlookup)
    · exact .table List.nodup_nil (by simp)

theorem nodup_of_distinct {table : TomlTable} (h : (Toml.Value.table table).Distinct) :
    (table.map (·.1)).Nodup := by
  cases h with
  | table hkeys _ => exact hkeys

theorem nodup_severities {table : TomlTable} (h : (Toml.Value.table table).Distinct) :
    (table.severities.map (·.1)).Nodup :=
  nodup_of_distinct (distinct_tableAt (distinct_tableAt h _) _)

theorem shaped_nil : Shaped [] :=
  ⟨fun _ h => (nomatch h), fun _ h => (nomatch h)⟩

theorem severities_mergeFile (hbase : base.Shaped) {file : TomlTable} (hfile : file.GivesSeverities)
    (hdistinct : (Toml.Value.table file).Distinct) :
    (mergeFile base file).Shaped ∧
      (mergeFile base file).severities = mergeTable base.severities file.severities := by
  -- the files are merged as such at the outer key only, and as tables at the inner one
  have houter := mergedAt_mergeFile rfl base (nodup_of_distinct hdistinct) hfile.plain
  obtain ⟨hdiagnostics, hmerged⟩ := houter.tableAt hbase.diagnostics hfile.diagnostics
  have hinner := mergedAt_mergeTable "severity" (base.tableAt "diagnostics")
    (nodup_of_distinct (distinct_tableAt hdistinct "diagnostics"))
  obtain ⟨hseverity, hmerged'⟩ := hinner.tableAt hbase.severity hfile.severity
  rw [← hmerged] at hseverity hmerged'
  exact ⟨⟨hdiagnostics, hseverity⟩, hmerged'⟩

/-- The severities of merged files are the merged severities of the files. -/
theorem severities_foldl_mergeFile (hbase : base.Shaped) {files : List TomlTable}
    (hfiles : ∀ file ∈ files, file.GivesSeverities)
    (hdistinct : ∀ file ∈ files, (Toml.Value.table file).Distinct) :
    (files.foldl mergeFile base).Shaped ∧
      (files.foldl mergeFile base).severities =
        (files.map severities).foldl mergeTable base.severities := by
  induction files generalizing base with
  | nil => exact ⟨hbase, rfl⟩
  | cons file files ih =>
    rw [List.forall_mem_cons] at hfiles hdistinct
    obtain ⟨hshaped, hmerged⟩ := severities_mergeFile hbase hfiles.1 hdistinct.1
    rw [List.foldl_cons, List.map_cons, List.foldl_cons, ← hmerged]
    exact ih hshaped hfiles.2 hdistinct.2

/-! ## Tables one after the other -/

theorem nodup_foldl_mergeTable (tables : List TomlTable) :
    ((tables.foldl mergeTable []).map (·.1)).Nodup := by
  suffices h : ∀ base : TomlTable, (base.map (·.1)).Nodup →
      ((tables.foldl mergeTable base).map (·.1)).Nodup from h [] List.nodup_nil
  induction tables with
  | nil => exact fun base hbase => hbase
  | cons table tables ih => exact fun base hbase => ih _ (nodup_mergeTable hbase table)

section Tables
variable {tables : List TomlTable} (hkeys : ∀ table ∈ tables, (table.map (·.1)).Nodup)
include hkeys

theorem lookup_foldl_mergeTable_of_absent (habsent : ∀ table ∈ tables, table.lookup key = none)
    (base : TomlTable) : (tables.foldl mergeTable base).lookup key = base.lookup key := by
  induction tables generalizing base with
  | nil => rfl
  | cons table tables ih =>
    rw [List.forall_mem_cons] at hkeys habsent
    have hstep := mergedAt_mergeTable key base hkeys.1
    rw [MergedAt, habsent.1] at hstep
    rw [List.foldl_cons, ih hkeys.2 habsent.2, hstep]

theorem exists_of_lookup_foldl_mergeTable {value : Toml.Value}
    (h : (tables.foldl mergeTable []).lookup key = some value) :
    ∃ table ∈ tables, ∃ value', table.lookup key = some value' := by
  apply Classical.byContradiction
  intro hnone
  have habsent : ∀ table ∈ tables, table.lookup key = none := by
    intro table htable
    cases hlookup : table.lookup key with
    | none => rfl
    | some value' => exact absurd ⟨table, htable, value', hlookup⟩ hnone
  rw [lookup_foldl_mergeTable_of_absent hkeys habsent] at h
  cases h

end Tables

/-- The last table that has the key decides: its value goes over whatever was there before. -/
theorem lookup_foldl_mergeTable {before after : List TomlTable} {table : TomlTable}
    (hkeys : ∀ t ∈ before ++ table :: after, (t.map (·.1)).Nodup) {value : Toml.Value}
    (hlookup : table.lookup key = some value) (hafter : ∀ t ∈ after, t.lookup key = none) :
    ∃ under, ((before ++ table :: after).foldl mergeTable []).lookup key =
      some (mergeValue under value) := by
  rw [List.forall_mem_append, List.forall_mem_cons] at hkeys
  have hstep := mergedAt_mergeTable key (before.foldl mergeTable []) hkeys.2.1
  rw [MergedAt, hlookup] at hstep
  rw [List.foldl_append, List.foldl_cons, lookup_foldl_mergeTable_of_absent hkeys.2.2 hafter]
  exact ⟨_, hstep⟩

end TomlTable

end TextTemplate
