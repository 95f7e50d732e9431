import TextTemplate.Text.Split

/-!
# Numbers, truth values and moments

A scalar of a TOML text that is not a string is a run of letters, digits and a few signs.
`Scalar.ofChars?` says what such a run stands for, or that it is not well formed. Only the kind of a
float or a moment is of interest here, so they are kept as written.
-/
namespace TextTemplate.Toml

/-- A scalar that is not a string. -/
inductive Scalar where
  | boolean (value : Bool)
  | integer (value : Int)
  | float (text : String)
  | moment (text : String)
deriving DecidableEq, Repr

/-- The digits of a number without the underscores between them, if each underscore stands between
two digits and there is at least one digit. -/
def digits? (isDigit : Char → Bool) (cs : List Char) : Option (List Char) :=
  let groups := splitAtChar '_' cs
  if groups.all fun group => !group.isEmpty && group.all isDigit then some groups.flatten else none

def isDecimal (c : Char) : Bool := '0' ≤ c && c ≤ '9'

def isOctal (c : Char) : Bool := '0' ≤ c && c ≤ '7'

def isBinary (c : Char) : Bool := c = '0' || c = '1'

def isHexadecimal (c : Char) : Bool :=
  isDecimal c || 'a' ≤ c && c ≤ 'f' || 'A' ≤ c && c ≤ 'F'

/-- The value of a hexadecimal digit. -/
def digitValue (c : Char) : Nat :=
  if isDecimal c then c.toNat - '0'.toNat
  else if 'a' ≤ c then c.toNat - 'a'.toNat + 10
  else c.toNat - 'A'.toNat + 10

/-- The number that the digits stand for. -/
def numberOf (base : Nat) (digits : List Char) : Nat :=
  digits.foldl (fun n c => n * base + digitValue c) 0

/-- A sign in front, and the characters after it. -/
def splitSign : List Char → Option Bool × List Char
  | '+' :: cs => (some false, cs)
  | '-' :: cs => (some true, cs)
  | cs => (none, cs)

/-- The digits of a decimal number; only zero itself starts with a zero. -/
def decimalDigits? (cs : List Char) : Option (List Char) := do
  let digits ← digits? isDecimal cs
  if digits.head? = some '0' && digits.length ≠ 1 then none else some digits

/-- The number, if it fits 64 bits with a sign. -/
def bounded? (n : Int) : Option Int :=
  if -9223372036854775808 ≤ n && n < 9223372036854775808 then some n else none

/-- An integer, which has to fit 64 bits. -/
def integer? (cs : List Char) : Option Int := do
  match cs with
  | '0' :: 'x' :: rest => bounded? (numberOf 16 (← digits? isHexadecimal rest))
  | '0' :: 'o' :: rest => bounded? (numberOf 8 (← digits? isOctal rest))
  | '0' :: 'b' :: rest => bounded? (numberOf 2 (← digits? isBinary rest))
  | _ =>
    let (sign, rest) := splitSign cs
    let n : Int := numberOf 10 (← decimalDigits? rest)
    bounded? (if sign = some true then -n else n)

/-- The number of an exponent: digits after an optional sign. -/
def exponent? (cs : List Char) : Option Int := do
  let (sign, rest) := splitSign cs
  let n : Int := numberOf 10 (← digits? isDecimal rest)
  return if sign = some true then -n else n

/-- The least number that is nearer to infinity than to a float of 64 bits. -/
def floatLimit : Nat :=
  Nat.pow 2 1024 - Nat.pow 2 970

/-- The digits times the power of ten round to a finite float of 64 bits. The power is only computed
where the number of digits leaves the answer open. -/
def isFinite (digits : List Char) (exponent : Int) : Bool :=
  let digits := digits.dropWhile (· = '0')
  let magnitude := exponent + digits.length
  if digits.isEmpty || magnitude < 300 then true
  else if 310 < magnitude then false
  else
    let n := numberOf 10 digits
    if exponent < 0 then n < floatLimit * Nat.pow 10 exponent.natAbs
    else n * Nat.pow 10 exponent.natAbs < floatLimit

/-- The digits and the exponent of a decimal float without its sign. There is a fraction or an
exponent or both. -/
def decimal? (cs : List Char) : Option (List Char × Int) := do
  let mantissa := cs.takeWhile fun c => c ≠ 'e' && c ≠ 'E'
  let power := cs.drop mantissa.length
  let whole := mantissa.takeWhile (· ≠ '.')
  let fraction := mantissa.drop whole.length
  let wholeDigits ← decimalDigits? whole
  let fractionDigits ← if fraction.isEmpty then some [] else digits? isDecimal fraction.tail
  let exponent ← if power.isEmpty then some 0 else exponent? power.tail
  if fraction.isEmpty && power.isEmpty then none
  else some (wholeDigits ++ fractionDigits, exponent - fractionDigits.length)

/-- The characters are a float, which has to be finite unless it is written as a word. -/
def isFloat (cs : List Char) : Bool :=
  let rest := (splitSign cs).2
  rest = ['i', 'n', 'f'] || rest = ['n', 'a', 'n'] ||
    match decimal? rest with
    | some (digits, exponent) => isFinite digits exponent
    | none => false

/-- The number of exactly `n` digits. -/
def fixed? (n : Nat) (cs : List Char) : Option Nat :=
  if cs.length = n && cs.all isDecimal then some (numberOf 10 cs) else none

/-- The number of days of a month. -/
def daysOf (year month : Nat) : Nat :=
  if month = 2 then
    if year % 4 = 0 && (year % 100 ≠ 0 || year % 400 = 0) then 29 else 28
  else if [4, 6, 9, 11].contains month then 30
  else 31

/-- The characters are a date `1979-05-27`. -/
def isDate (cs : List Char) : Bool :=
  match splitAtChar '-' cs with
  | [year, month, day] =>
    match fixed? 4 year, fixed? 2 month, fixed? 2 day with
    | some y, some m, some d => 1 ≤ m && m ≤ 12 && 1 ≤ d && d ≤ daysOf y m
    | _, _, _ => false
  | _ => false

/-- The characters are the seconds of a time with any number of places. -/
def isSecond (cs : List Char) : Bool :=
  let whole := cs.takeWhile (· ≠ '.')
  let fraction := cs.drop whole.length
  match fixed? 2 whole with
  | some s => s ≤ 60 && (fraction.isEmpty || fraction.length ≠ 1 && fraction.tail.all isDecimal)
  | none => false

/-- The characters are a time `07:32` or `07:32:00`. -/
def isTime (cs : List Char) : Bool :=
  match splitAtChar ':' cs with
  | hour :: minute :: seconds =>
    match fixed? 2 hour, fixed? 2 minute with
    | some h, some m => h ≤ 23 && m ≤ 59 && seconds.length ≤ 1 && seconds.all isSecond
    | _, _ => false
  | _ => false

/-- The characters are an offset `Z` or `+07:00`. -/
def isOffset (cs : List Char) : Bool :=
  if cs = ['Z'] || cs = ['z'] then true
  else
    match splitSign cs with
    | (some _, rest) =>
      match splitAtChar ':' rest with
      | [hour, minute] =>
        match fixed? 2 hour, fixed? 2 minute with
        | some h, some m => h ≤ 23 && m ≤ 59
        | _, _ => false
      | _ => false
    | _ => false

/-- The characters are a time with or without an offset. -/
def isTimeWithOffset (cs : List Char) : Bool :=
  let time := cs.takeWhile fun c => isDecimal c || c = ':' || c = '.'
  let offset := cs.drop time.length
  isTime time && (offset.isEmpty || isOffset offset)

/-- The characters are a date, a time, or both. -/
def isMoment (cs : List Char) : Bool :=
  isTime cs || isDate cs ||
    match cs.drop 10 with
    | c :: rest => (c = 'T' || c = 't' || c = ' ') && isDate (cs.take 10) && isTimeWithOffset rest
    | [] => false

/-- What the characters stand for. -/
def Scalar.ofChars? (cs : List Char) : Option Scalar :=
  if cs = ['t', 'r', 'u', 'e'] then some (.boolean true)
  else if cs = ['f', 'a', 'l', 's', 'e'] then some (.boolean false)
  else
    match integer? cs with
    | some n => some (.integer n)
    | none =>
      if isFloat cs then some (.float (String.ofList cs))
      else if isMoment cs then some (.moment (String.ofList cs))
      else none

/-- The characters that scalars are made of. -/
def isScalarChar (c : Char) : Bool :=
  c.isAlphanum || ['+', '-', '_', '.', ':'].contains c

/-- The scalar at the start of the characters, and the rest. The blank between a date and a time
belongs to the scalar. -/
def scalar? (cs : List Char) : Option (Scalar × List Char) := do
  let run := cs.takeWhile isScalarChar
  let rest := cs.drop run.length
  let longer :=
    match rest with
    | ' ' :: after =>
      if isDate run && (after.head?.map isDecimal).getD false then
        run ++ ' ' :: after.takeWhile isScalarChar
      else run
    | _ => run
  return (← Scalar.ofChars? longer, cs.drop longer.length)

end TextTemplate.Toml
