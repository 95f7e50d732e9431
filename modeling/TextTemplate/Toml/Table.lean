import TextTemplate.Toml.Scalar

/-!
# Tables under construction

A TOML text builds its tables piece by piece: by headers `[a.b]`, by headers `[[a.b]]` that add an
element to an array of tables, and by dotted keys. A table may be opened by a header once. A table
on the way of a dotted key cannot be opened by a header afterwards, and one that a header has opened
cannot be extended by dotted keys. A key gets a value only once.
-/
namespace TextTemplate.Toml

/-- A value of a TOML text. -/
inductive Value where
  | text (value : String)
  | scalar (value : Scalar)
  | array (items : List Value)
  | table (entries : List (String × Value))

/-- How a table came to be. -/
inductive Origin where
  /-- Opened by a header. -/
  | header
  /-- Only named on the way to a table that a header has opened. -/
  | implied
  /-- Named on the way of a dotted key. -/
  | dotted
deriving DecidableEq

/-- A part of a document under construction. -/
inductive Item where
  | value (value : Value)
  | table (origin : Origin) (entries : List (String × Item))
  /-- The elements of an array of tables; the last one is still open. -/
  | tables (elements : List (List (String × Item)))

/-- The entries of a table under construction. -/
abbrev Items := List (String × Item)

/-- The entries with the item in place of the one at the key, or at the end. -/
def put (key : String) (item : Item) : Items → Items
  | [] => [(key, item)]
  | (k, old) :: items => if k = key then (k, item) :: items else (k, old) :: put key item items

/-- The entries after `change` has been made to those of the table, or of the last table, at the
key. A table is made, with the origin, if there is none. -/
def within (key : String) (origin : Origin) (change : Items → Option Items) (items : Items) :
    Option Items :=
  match items.lookup key with
  | none => return put key (.table origin (← change [])) items
  | some (.table origin entries) => return put key (.table origin (← change entries)) items
  | some (.tables elements) =>
    match elements.getLast? with
    | none => none
    | some last => return put key (.tables (elements.dropLast ++ [← change last])) items
  | some (.value _) => none

/-- The entries with the table at the path opened by a header. -/
def openTable : List String → Items → Option Items
  | [], _ => none
  | [key], items =>
    match items.lookup key with
    | none => some (put key (.table .header []) items)
    | some (.table .implied entries) => some (put key (.table .header entries) items)
    | some _ => none
  | key :: path, items => within key .implied (openTable path) items

/-- The entries with one more element in the array of tables at the path. -/
def openElement : List String → Items → Option Items
  | [], _ => none
  | [key], items =>
    match items.lookup key with
    | none => some (put key (.tables [[]]) items)
    | some (.tables elements) => some (put key (.tables (elements ++ [[]])) items)
    | some _ => none
  | key :: path, items => within key .implied (openElement path) items

/-- The entries with a value for the dotted key. The tables on its way are made by the key from then
on; a table that a header has opened cannot be one of them. -/
def assign : List String → Value → Items → Option Items
  | [], _, _ => none
  | [key], value, items =>
    if (items.lookup key).isSome then none else some (put key (.value value) items)
  | key :: next :: path, value, items =>
    match items.lookup key with
    | none => return put key (.table .dotted (← assign (next :: path) value [])) items
    | some (.table .header _) => none
    | some (.table _ entries) =>
      return put key (.table .dotted (← assign (next :: path) value entries)) items
    | some (.tables elements) =>
      match path, elements.getLast? with
      | _ :: _, some last =>
        return put key (.tables (elements.dropLast ++ [← assign (next :: path) value last])) items
      | _, _ => none
    | some (.value _) => none

/-- The entries with a value for the dotted key in the table that the last header has opened. -/
def assignUnder : List String → List String → Value → Items → Option Items
  | [], key, value, items => assign key value items
  | name :: header, key, value, items => within name .implied (assignUnder header key value) items

mutual

/-- The finished item. -/
def Item.finish : Item → Value
  | .value value => value
  | .table _ entries => .table (finishItems entries)
  | .tables elements => .array (finishTables elements)

/-- The finished entries. -/
def finishItems : List (String × Item) → List (String × Value)
  | [] => []
  | (key, item) :: items => (key, item.finish) :: finishItems items

/-- The finished elements. -/
def finishTables : List (List (String × Item)) → List Value
  | [] => []
  | items :: rest => .table (finishItems items) :: finishTables rest

end

end TextTemplate.Toml
