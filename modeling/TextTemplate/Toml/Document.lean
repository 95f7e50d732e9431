import TextTemplate.Text.Utf8
import TextTemplate.Toml.Quoted
import TextTemplate.Toml.Table

/-!
# TOML documents

`Toml.parse?` reads a whole text. It fails on a text that is not well formed or gives a key twice.
Values nest, so the functions that read them take fuel; twice the number of characters is enough,
since every level takes at least one and at most two calls.
-/
namespace TextTemplate.Toml

/-- The character is a blank within a line. -/
def isSpace (c : Char) : Bool :=
  c = ' ' || c = '\t'

/-- The characters without blanks in front. -/
def skipSpace (cs : List Char) : List Char :=
  cs.dropWhile isSpace

/-- The characters after blanks, line ends and comments. It fails in a comment with a control
character; `comment` says that a comment is going on. -/
def skipLayout? (comment : Bool) : List Char → Option (List Char)
  | [] => some []
  | '\n' :: cs => skipLayout? false cs
  | '\r' :: '\n' :: cs => skipLayout? false cs
  | c :: cs =>
    if comment then if isPrintable c then skipLayout? true cs else none
    else if c = '#' then skipLayout? true cs
    else if isSpace c then skipLayout? false cs
    else some (c :: cs)

/-- The characters after the end of the line, before which only blanks and a comment may stand. -/
def lineEnd? (comment : Bool) : List Char → Option (List Char)
  | [] => some []
  | '\n' :: cs => some cs
  | '\r' :: '\n' :: cs => some cs
  | c :: cs =>
    if comment then if isPrintable c then lineEnd? true cs else none
    else if c = '#' then lineEnd? true cs
    else if isSpace c then lineEnd? false cs
    else none

/-- The character may stand in a key without quotes. -/
def isKeyChar (c : Char) : Bool :=
  c.isAlphanum || c = '_' || c = '-'

/-- The part of a key that the characters start with. -/
def keyPart? (cs : List Char) : Option (String × List Char) :=
  match shortQuoted? cs with
  | some (text, rest) => some (String.ofList text, rest)
  | none =>
    let bare := cs.takeWhile isKeyChar
    if bare.isEmpty then none else some (String.ofList bare, cs.drop bare.length)

/-- The parts of the dotted key that the characters start with. -/
def keyParts? (fuel : Nat) (cs : List Char) : Option (List String × List Char) :=
  match fuel with
  | 0 => none
  | fuel + 1 => do
    let (part, rest) ← keyPart? cs
    match skipSpace rest with
    | '.' :: rest =>
      let (parts, rest) ← keyParts? fuel (skipSpace rest)
      return (part :: parts, rest)
    | rest => return ([part], rest)

/-- How many parts a key may have, and how deep arrays and inline tables may nest. -/
def maxDepth : Nat := 80

/-- The dotted key that the characters start with. -/
def key? (cs : List Char) : Option (List String × List Char) := do
  let (parts, rest) ← keyParts? (cs.length + 1) cs
  if parts.length ≤ maxDepth then return (parts, rest) else none

/-- The closing brace. -/
def closingBrace : Char := Char.ofNat 0x7D

mutual

/-- The value that the characters start with; `levels` is how deep it may nest. -/
def value? (fuel levels : Nat) (cs : List Char) : Option (Value × List Char) :=
  match fuel with
  | 0 => none
  | fuel + 1 =>
    match cs with
    | [] => none
    | c :: rest =>
      if c = '[' then
        if levels = 0 then none
        else do
          let (items, rest) ← items? fuel (levels - 1) (← skipLayout? false rest)
          return (.array items, rest)
      else if c = Char.ofNat 0x7B then
        if levels = 0 then none
        else do
          let (entries, rest) ← entries? fuel (levels - 1) [] (← skipLayout? false rest)
          return (.table (finishItems entries), rest)
      else if c = '"' || c = apostrophe then
        (quoted? cs).map fun (text, rest) => (.text (String.ofList text), rest)
      else (scalar? cs).map fun (scalar, rest) => (.scalar scalar, rest)

/-- The rest of an array, from where a value or the end may stand. -/
def items? (fuel levels : Nat) (cs : List Char) : Option (List Value × List Char) :=
  match fuel with
  | 0 => none
  | fuel + 1 =>
    match cs with
    | ']' :: rest => some ([], rest)
    | _ => do
      let (value, rest) ← value? fuel levels cs
      match ← skipLayout? false rest with
      | ',' :: rest =>
        let (values, rest) ← items? fuel levels (← skipLayout? false rest)
        return (value :: values, rest)
      | ']' :: rest => return ([value], rest)
      | _ => none

/-- The rest of an inline table, from where a key or the end may stand; `items` are the entries so
far. -/
def entries? (fuel levels : Nat) (items : Items) (cs : List Char) : Option (Items × List Char) :=
  match fuel with
  | 0 => none
  | fuel + 1 =>
    if cs.head? = some closingBrace then some (items, cs.tail)
    else do
      let (key, rest) ← key? cs
      match ← skipLayout? false rest with
      | '=' :: rest =>
        let (value, rest) ← value? fuel levels (← skipLayout? false rest)
        let items ← assign key value items
        match ← skipLayout? false rest with
        | ',' :: rest => entries? fuel levels items (← skipLayout? false rest)
        | c :: rest => if c = closingBrace then return (items, rest) else none
        | [] => none
      | _ => none

end

/-- A document that has been read in part: its entries, and the table that keys go to. -/
structure Draft where
  items : Items
  header : List String

/-- A header with the brackets `opening` and `closing`, and the rest of the line after it. -/
def header? (opening closing : List Char) (cs : List Char) : Option (List String × List Char) := do
  let (path, rest) ← key? (skipSpace (cs.drop opening.length))
  if closing.isPrefixOf rest then return (path, rest.drop closing.length) else none

/-- The draft after one line that is not blank, and the rest after that line. -/
def Draft.line? (draft : Draft) (cs : List Char) : Option (Draft × List Char) := do
  match cs with
  | '[' :: '[' :: _ =>
    let (path, rest) ← header? ['[', '['] [']', ']'] cs
    return (⟨← openElement path draft.items, path⟩, ← lineEnd? false rest)
  | '[' :: _ =>
    let (path, rest) ← header? ['['] [']'] cs
    return (⟨← openTable path draft.items, path⟩, ← lineEnd? false rest)
  | _ =>
    let (key, rest) ← key? cs
    match rest with
    | '=' :: rest =>
      let (value, rest) ← value? (2 * rest.length + 2) maxDepth (skipSpace rest)
      let items ← assignUnder draft.header key value draft.items
      return (⟨items, draft.header⟩, ← lineEnd? false rest)
    | _ => none

/-- The draft after all lines. -/
def Draft.lines? (fuel : Nat) (draft : Draft) (cs : List Char) : Option Draft :=
  match fuel with
  | 0 => none
  | fuel + 1 => do
    match ← skipLayout? false cs with
    | [] => return draft
    | cs =>
      let (draft, rest) ← draft.line? cs
      draft.lines? fuel rest

/-- The entries of the document, if the text is well formed. A byte order mark in front does not
count. -/
def parse? (text : String) : Option (List (String × Value)) :=
  let cs := withoutMark text.toList
  (Draft.lines? (cs.length + 1) ⟨[], []⟩ cs).map fun draft => finishItems draft.items

end TextTemplate.Toml
