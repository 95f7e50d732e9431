import TextTemplate.Files.Pattern

/-!
# Globs

A glob describes paths: `?` stands for a byte and `*` for any bytes of one name, `**` as a whole
name for any number of names, `[a-z]` for a byte of a class, `{a,b}` for one of several globs, and a
backslash makes the next character stand for itself. `Glob.parse?` reads a glob and `Glob.pattern`
is the pattern over the bytes of a path.
-/
namespace TextTemplate

/-- A part of a glob. -/
inductive GlobPart where
  | literal (c : Char)
  /-- The part `?`. -/
  | anyByte
  /-- The part `*`. -/
  | anyBytes
  /-- The part `**` and a slash at the start. -/
  | leadingNames
  /-- A slash and `**` at the end. -/
  | trailingNames
  /-- The part `**` between two slashes. -/
  | innerNames
  | byteClass (negated : Bool) (ranges : List (Char × Char))
  | alternatives (globs : List (List GlobPart))

/-- The parts of a glob. -/
abbrev Glob := List GlobPart

namespace Glob

/-- A glob that has been read in part: the parts of the current alternative in reverse, and for each
brace that is open what stands before it in reverse and the alternatives before the current one. -/
structure Draft where
  parts : List GlobPart
  outer : List (List GlobPart × List (List GlobPart))
  /-- A bracket that nothing closes has been found, so brackets stand for themselves. -/
  plainBrackets : Bool

namespace Draft

/-- The draft with one more part. -/
def push (d : Draft) (part : GlobPart) : Draft :=
  { d with parts := part :: d.parts }

/-- The draft after two stars that do not stand for names. -/
def pushStars (d : Draft) : Draft :=
  (d.push .anyBytes).push .anyBytes

/-- The draft after an opening brace. -/
def openBrace (d : Draft) : Draft :=
  { d with parts := [], outer := (d.parts, []) :: d.outer }

/-- The draft after a comma. -/
def comma (d : Draft) : Draft :=
  match d.outer with
  | [] => d.push (.literal ',')
  | (before, globs) :: outer =>
    { d with parts := [], outer := (before, globs ++ [d.parts.reverse]) :: outer }

/-- The draft after a closing brace, which has to close something. -/
def closeBrace? (d : Draft) : Option Draft :=
  match d.outer with
  | [] => none
  | (before, globs) :: outer =>
    some { d with parts := .alternatives (globs ++ [d.parts.reverse]) :: before, outer }

/-- The draft after two stars that stand for names, in place of the slash before them. -/
def pushNames (d : Draft) (part : GlobPart) : Draft :=
  match d.parts with
  | .leadingNames :: _ => d
  | .trailingNames :: _ => d
  | _ :: parts => { d with parts := part :: parts }
  | [] => d.push part

/-- The draft after two stars, and the rest; `last` is the character before them. The stars stand
for names if they are a whole name. -/
def stars (d : Draft) (last : Option Char) (cs : List Char) : Draft × List Char :=
  if d.parts.isEmpty then
    match cs with
    | [] => (d.push .leadingNames, [])
    | '/' :: rest => (d.push .leadingNames, rest)
    | _ => (d.pushStars, cs)
  else if last = some '/' ||
      !d.outer.isEmpty && (last = some ',' || last = some (Char.ofNat 0x7B)) then
    match cs with
    | [] => (d.pushNames .trailingNames, [])
    | '/' :: rest => (d.pushNames .innerNames, rest)
    | c :: _ =>
      if !d.outer.isEmpty && (c = ',' || c = Char.ofNat 0x7D) then (d.pushNames .trailingNames, cs)
      else (d.pushStars, cs)
  else (d.pushStars, cs)

end Draft

/-- The rest of a class: its ranges, with the last one first, and the characters after the closing
bracket. `first` says that nothing has been read yet, and `open_` that a dash has been read after
the last range. -/
def classRanges? (first open_ : Bool) (ranges : List (Char × Char)) :
    List Char → Option (Option (List (Char × Char)) × List Char)
  | [] => none
  | c :: cs =>
    if c = ']' && !first then
      some (some (if open_ then ('-', '-') :: ranges else ranges), cs)
    else if c = '-' && !first && !open_ then classRanges? false true ranges cs
    else
      match open_, ranges with
      | true, (lo, _) :: rest =>
        if c < lo then some (none, cs) else classRanges? false false ((lo, c) :: rest) cs
      | _, _ => classRanges? false false ((c, c) :: ranges) cs

/-- What comes of a class from after its opening bracket: nothing closes it, a range is upside down,
or it has been read. -/
inductive ClassResult where
  | unclosed
  | invalid
  | read (part : GlobPart) (rest : List Char)

/-- The class from after its opening bracket. -/
def readClass (cs : List Char) : ClassResult :=
  let (negated, body) :=
    match cs with
    | '!' :: rest => (true, rest)
    | '^' :: rest => (true, rest)
    | rest => (false, rest)
  match classRanges? true false [] body with
  | none => .unclosed
  | some (none, _) => .invalid
  | some (some ranges, rest) => .read (.byteClass negated ranges.reverse) rest

/-- The draft after the characters, if they are well formed. `lenient` says that a bracket which
nothing closes stands for itself; `last` is the character before. -/
def Draft.read? (lenient : Bool) (fuel : Nat) (d : Draft) (last : Option Char) (cs : List Char) :
    Option Draft :=
  match fuel, cs with
  | _, [] => some d
  | 0, _ :: _ => none
  | fuel + 1, c :: cs =>
    if c = '?' then (d.push .anyByte).read? lenient fuel c cs
    else if c = '*' then
      match cs with
      | '*' :: rest =>
        let (d, after) := d.stars last rest
        d.read? lenient fuel (if after.length < rest.length then '/' else '*') after
      | _ => (d.push .anyBytes).read? lenient fuel c cs
    else if c = '[' && !d.plainBrackets then
      match readClass cs with
      | .read part rest => (d.push part).read? lenient fuel ']' rest
      | .invalid => none
      | .unclosed =>
        if lenient then
          ({ d with plainBrackets := true }.push (.literal '[')).read? lenient fuel c cs
        else none
    else if c = Char.ofNat 0x7B then d.openBrace.read? lenient fuel c cs
    else if c = Char.ofNat 0x7D then do (← d.closeBrace?).read? lenient fuel c cs
    else if c = ',' then d.comma.read? lenient fuel c cs
    else if c = '\\' then
      match cs with
      | [] => none
      | e :: cs => (d.push (.literal e)).read? lenient fuel e cs
    else (d.push (.literal c)).read? lenient fuel c cs

/-- The glob that the characters spell, if they are well formed and all braces are closed. -/
def parse? (lenient : Bool) (cs : List Char) : Option Glob := do
  let d ← Draft.read? lenient cs.length ⟨[], [], false⟩ none cs
  if d.outer.isEmpty then some d.parts.reverse else none

/-- The bytes of a character. -/
def bytesOf (c : Char) : List UInt8 :=
  (String.singleton c).toUTF8.toList

/-- The byte of the slash. -/
def slash : UInt8 := 0x2F

/-- Any byte but the slash. -/
def nameByte : Pattern :=
  .byte ⟨[(slash, slash)], true⟩

/-- Any bytes. -/
def anything : Pattern :=
  .many (.byte .all)

/-- The byte ranges of a range of characters. The bytes of the two characters are taken one by one,
with a range from the last byte of the first to the first byte of the second. -/
def byteRanges : Char × Char → List (UInt8 × UInt8)
  | (lo, hi) =>
    let los := bytesOf lo
    let his := bytesOf hi
    if lo = hi then los.map fun b => (b, b)
    else
      los.dropLast.map (fun b => (b, b)) ++ [(los.getLast?.getD 0, his.head?.getD 0)] ++
        his.tail.map fun b => (b, b)

mutual

/-- The pattern of a part. Alternatives that match nothing but the empty sequence do not count. -/
def partPattern : GlobPart → Pattern
  | .literal c => .literal (bytesOf c)
  | .anyByte => nameByte
  | .anyBytes => .many nameByte
  | .leadingNames => .either .empty (.join anything (.byte (.single slash)))
  | .trailingNames => .join (.byte (.single slash)) anything
  | .innerNames =>
    .either (.byte (.single slash))
      (.join (.byte (.single slash)) (.join anything (.byte (.single slash))))
  | .byteClass negated ranges => .byte ⟨ranges.flatMap byteRanges, negated⟩
  | .alternatives globs =>
    match (alternativePatterns globs).filter (· ≠ .empty) with
    | [] => .empty
    | patterns => .oneOf patterns

/-- The pattern of parts one after the other. -/
def partsPattern : List GlobPart → Pattern
  | [] => .empty
  | part :: parts => .join (partPattern part) (partsPattern parts)

/-- The patterns of alternatives. -/
def alternativePatterns : List (List GlobPart) → List Pattern
  | [] => []
  | glob :: globs => partsPattern glob :: alternativePatterns globs

end

/-- The pattern of a glob. Two stars alone stand for everything. -/
def pattern : Glob → Pattern
  | [.leadingNames] => anything
  | glob => partsPattern glob

end Glob

end TextTemplate
