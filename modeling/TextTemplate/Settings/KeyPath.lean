import TextTemplate.Toml.Table
import TextTemplate.Toml.Scalar

/-!
# Paths of keys

A key at the top of a settings file may spell a path, such as `a.b` or `a[0].b`: a name, and then
names after dots and places in arrays between brackets. A place may be counted from the end by a
negative number. `KeyPath.put` sets what the path leads to and makes tables and arrays on the way of
everything that is none.
-/
namespace TextTemplate

/-- The entries of a table. -/
abbrev TomlTable := List (String × Toml.Value)

namespace TomlTable

/-- The table with the value for the key. -/
def put (key : String) (value : Toml.Value) : TomlTable → TomlTable
  | [] => [(key, value)]
  | (k, old) :: rest => if k = key then (k, value) :: rest else (k, old) :: put key value rest

end TomlTable

/-- A step from a value to a part of it. -/
inductive KeyStep where
  | name (name : String)
  | place (place : Int)
deriving DecidableEq, Repr

/-- A name at the top, and the steps from there on. -/
structure KeyPath where
  root : String
  steps : List KeyStep
deriving DecidableEq, Repr

namespace KeyPath

/-- The name that the characters start with, and the rest. -/
def name? (cs : List Char) : Option (String × List Char) :=
  let name := cs.takeWhile fun c => c.isAlphanum || c = '_' || c = '-'
  if name.isEmpty then none else some (String.ofList name, cs.drop name.length)

/-- The characters without blanks in front. -/
def skipBlanks (cs : List Char) : List Char :=
  cs.dropWhile fun c => c = ' ' || c = '\t'

/-- The place between brackets, from after the opening one, and the rest after the closing one. It
has to fit 64 bits. -/
def place? (cs : List Char) : Option (Int × List Char) :=
  let cs := skipBlanks cs
  let (negative, cs) := if cs.head? = some '-' then (true, cs.tail) else (false, cs)
  let digits := cs.takeWhile Toml.isDecimal
  match digits, skipBlanks (cs.drop digits.length) with
  | _ :: _, ']' :: rest =>
    let n : Int := Toml.numberOf 10 digits
    (Toml.bounded? (if negative then -n else n)).map (·, rest)
  | _, _ => none

/-- The steps that the characters spell. -/
def steps? (fuel : Nat) (cs : List Char) : Option (List KeyStep) :=
  match fuel, cs with
  | _, [] => some []
  | fuel + 1, '.' :: cs => do
    let (name, rest) ← name? cs
    return .name name :: (← steps? fuel rest)
  | fuel + 1, '[' :: cs => do
    let (place, rest) ← place? cs
    return .place place :: (← steps? fuel rest)
  | _, _ => none

/-- The path that a key spells. A key that spells none is a name as a whole. -/
def ofString (key : String) : KeyPath :=
  let cs := key.toList
  let path? := do
    let (root, rest) ← name? cs
    let steps ← steps? cs.length rest
    return KeyPath.mk root steps
  path?.getD ⟨key, []⟩

/-- What stands at a place of an array that nothing has been put to. -/
def unset : Toml.Value := .text ""

/-- The array with `change` made to the element at the place. It grows at its end, or for a negative
number at its start, if it has no such place. -/
def changeAt (change : Toml.Value → Toml.Value) (place : Int) (items : List Toml.Value) :
    List Toml.Value :=
  let index := if place < 0 then place + items.length else place
  let before := List.replicate (-index).toNat unset
  let after := List.replicate (index.toNat + 1 - items.length) unset
  (before ++ items ++ after).modify index.toNat change

/-- The value with `change` made to what the steps lead to. -/
def changeAlong (change : Toml.Value → Toml.Value) : List KeyStep → Toml.Value → Toml.Value
  | [], value => change value
  | .name name :: steps, value =>
    let entries := match value with | .table entries => entries | _ => []
    let old := (entries.lookup name).getD unset
    .table (TomlTable.put name (changeAlong change steps old) entries)
  | .place place :: steps, value =>
    let items := match value with | .array items => items | _ => []
    .array (changeAt (changeAlong change steps) place items)

/-- The table with `change` made to what the path leads to. -/
def put (path : KeyPath) (change : Toml.Value → Toml.Value) (table : TomlTable) : TomlTable :=
  let old := (table.lookup path.root).getD unset
  TomlTable.put path.root (changeAlong change path.steps old) table

end KeyPath

end TextTemplate
