import TextTemplate.Settings.KeyPath
import TextTemplate.Settings.Rules
import TextTemplate.Text.Utf8
import TextTemplate.Toml.Document

/-!
# Settings from files

Settings come from up to three files: the user's, and two of the project, of which the later ones
take precedence. The tables of the files are merged key by key. Only the table
`diagnostics.severity` is looked at, and all of it has to make sense.

A severity is given by its name, or by a table with the name as its only key. The severities may
also stand in an array in place of the table `diagnostics`, as its first element.
-/
namespace TextTemplate

/-- Why settings cannot be loaded. -/
inductive SettingsError where
  /-- A file is not TOML. -/
  | unreadable (file : String)
  /-- The merged files do not have the shape of settings. -/
  | malformed
deriving DecidableEq, Repr

namespace SettingsError

/-- The message, which is the same for every cause. -/
def message (_ : SettingsError) : String :=
  "Configuration build/deserialize error"

end SettingsError

mutual

/-- A value over another one: tables are merged, all else is replaced. -/
def mergeValue (under : Toml.Value) : Toml.Value → Toml.Value
  | .table entries =>
    match under with
    | .table base => .table (mergeTable base entries)
    | _ => .table (mergeTable [] entries)
  | value => value

/-- The entries of a table, one after the other, over those of another table. -/
def mergeTable (base : TomlTable) : List (String × Toml.Value) → TomlTable
  | [] => base
  | (key, value) :: rest =>
    let under := (base.lookup key).getD KeyPath.unset
    mergeTable (TomlTable.put key (mergeValue under value) base) rest

end

/-- The entries of a file over those of the files before it. A key of the file is a path. -/
def mergeFile (base file : TomlTable) : TomlTable :=
  file.foldl (fun base (key, value) => (KeyPath.ofString key).put (mergeValue · value) base) base

/-- What settings hold. -/
structure Settings where
  rules : Rules
deriving DecidableEq

namespace Settings

/-- The value that holds the severities, if there is one. -/
def severities? (table : TomlTable) : Except SettingsError (Option Toml.Value) :=
  match table.lookup "diagnostics" with
  | none => .ok none
  | some (.table entries) => .ok (entries.lookup "severity")
  | some (.array items) => .ok items.head?
  | some _ => .error .malformed

/-- The setting that a value names. -/
def setting? : Toml.Value → Except SettingsError Setting
  | .text name | .table [(name, _)] =>
    match Setting.ofName? name with
    | some setting => .ok setting
    | none => .error .malformed
  | _ => .error .malformed

/-- The entries of the severities. -/
def entries? : Option Toml.Value → Except SettingsError (List Rule)
  | none => .ok []
  | some (.table entries) => entries.mapM fun (key, value) => return ⟨key, ← setting? value⟩
  | some _ => .error .malformed

/-- The rules for the entries. Keys that differ only in the case of letters are one key, and the
last of them in the order of code points counts. -/
def rulesOf (entries : List Rule) : Rules :=
  (entries.mergeSort fun a b => !decide (b.key.toList < a.key.toList)).foldl
    (fun rules rule => rules.set rule.key rule.setting) .empty

/-- The settings in a merged table. -/
def ofTable (table : TomlTable) : Except SettingsError Settings := do
  return ⟨rulesOf (← entries? (← severities? table))⟩

/-- The settings in tables, the later ones taking precedence. -/
def ofTables (tables : List TomlTable) : Except SettingsError Settings :=
  ofTable (tables.foldl mergeFile [])

/-- The table of a file. Bytes that are not UTF-8 count as replacement characters, and a byte order
mark in front does not count. -/
def tableOf (name : String) (content : ByteArray) : Except SettingsError TomlTable :=
  match Toml.parse? (String.ofList (withoutMark (decodeLossy content.toList))) with
  | some table => .ok table
  | none => .error (.unreadable name)

/-- The settings in files that are given by name and content, the later ones taking precedence. -/
def ofFiles (files : List (String × ByteArray)) : Except SettingsError Settings := do
  ofTables (← files.mapM fun (name, content) => tableOf name content)

end Settings

end TextTemplate
