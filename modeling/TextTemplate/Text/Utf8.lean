/-!
# Reading bytes as UTF-8

`decodeLossy` reads any bytes as characters. Where the bytes are not UTF-8, the longest run of them
that could still have started a character is read as one replacement character. `textLines` reads
the lines of a file up to the first that is not UTF-8.
-/
namespace TextTemplate

/-- What the first byte of a character of several bytes says: how many bytes follow it, the least
and the greatest first one of those, and the bits of the code point that the byte itself holds. -/
structure Lead where
  following : Nat
  least : Nat
  greatest : Nat
  bits : Nat
deriving DecidableEq

/-- What the byte says as the first one of a character of several bytes, if it can be one. -/
def Lead.ofByte? (byte : UInt8) : Option Lead :=
  let b := byte.toNat
  if 0xC2 ≤ b && b ≤ 0xDF then some ⟨1, 0x80, 0xBF, b - 0xC0⟩
  else if b = 0xE0 then some ⟨2, 0xA0, 0xBF, 0⟩
  else if b = 0xED then some ⟨2, 0x80, 0x9F, 0xD⟩
  else if 0xE1 ≤ b && b ≤ 0xEF then some ⟨2, 0x80, 0xBF, b - 0xE0⟩
  else if b = 0xF0 then some ⟨3, 0x90, 0xBF, 0⟩
  else if 0xF1 ≤ b && b ≤ 0xF3 then some ⟨3, 0x80, 0xBF, b - 0xF0⟩
  else if b = 0xF4 then some ⟨3, 0x80, 0x8F, 4⟩
  else none

/-- The character that stands for bytes that are not UTF-8. -/
def replacement : Char := Char.ofNat 0xFFFD

/-- The character of which `bits` have been read and `following` bytes are left, and the number of
bytes taken. The next byte has to be in the range from `least` to `greatest`. -/
def continueChar (bits least greatest : Nat) : Nat → List UInt8 → Char × Nat
  | 0, _ => (Char.ofNat bits, 0)
  | _ + 1, [] => (replacement, 0)
  | following + 1, byte :: bytes =>
    if least ≤ byte.toNat && byte.toNat ≤ greatest then
      let (c, taken) := continueChar (bits * 64 + (byte.toNat - 0x80)) 0x80 0xBF following bytes
      (c, taken + 1)
    else (replacement, 0)

/-- The character that starts with the byte, and how many of the bytes after it belong to it. -/
def firstChar (byte : UInt8) (bytes : List UInt8) : Char × Nat :=
  if byte.toNat < 0x80 then (Char.ofNat byte.toNat, 0)
  else
    match Lead.ofByte? byte with
    | some lead => continueChar lead.bits lead.least lead.greatest lead.following bytes
    | none => (replacement, 0)

/-- The bytes as characters. -/
def decodeLossy : List UInt8 → List Char
  | [] => []
  | byte :: bytes =>
    let (c, taken) := firstChar byte bytes
    c :: decodeLossy (bytes.drop taken)
termination_by bytes => bytes.length
decreasing_by
  simp only [List.length_drop, List.length_cons]
  omega

/-- The characters without a byte order mark in front. -/
def withoutMark (cs : List Char) : List Char :=
  if cs.head? = some (Char.ofNat 0xFEFF) then cs.tail else cs

/-- The bytes cut after each line feed. -/
def byteLines : List UInt8 → List (List UInt8)
  | [] => []
  | byte :: bytes =>
    if byte = 0x0A then [byte] :: byteLines bytes
    else
      match byteLines bytes with
      | [] => [[byte]]
      | line :: lines => (byte :: line) :: lines

/-- The items up to the first that is absent. -/
def leadingSome {α : Type} : List (Option α) → List α
  | some a :: rest => a :: leadingSome rest
  | _ => []

/-- The lines, with their line feeds, up to the first that is not UTF-8. -/
def textLines (bytes : List UInt8) : List (List Char) :=
  leadingSome ((byteLines bytes).map fun line =>
    (String.fromUTF8? line.toByteArray).map String.toList)

end TextTemplate
