/-!
# Patterns over bytes

Regular patterns over sequences of bytes, matched by derivatives. The derivatives of a pattern by a
byte are patterns for what may follow that byte, and a pattern matches a sequence when one of its
derivatives by all of it matches the empty sequence. A pattern has no more derivatives than parts,
so that a match takes no more steps than there are parts for each byte.
-/
namespace TextTemplate

/-- A set of bytes: those in one of the closed ranges, or those in none. -/
structure ByteSet where
  ranges : List (UInt8 × UInt8)
  negated : Bool
deriving DecidableEq, Repr

namespace ByteSet

/-- The byte is in the set. -/
def contains (set : ByteSet) (b : UInt8) : Bool :=
  set.ranges.any (fun (lo, hi) => lo ≤ b && b ≤ hi) != set.negated

/-- The set of one byte. -/
def single (b : UInt8) : ByteSet :=
  ⟨[(b, b)], false⟩

/-- The set of all bytes. -/
def all : ByteSet :=
  ⟨[], true⟩

end ByteSet

/-- A regular pattern. -/
inductive Pattern where
  /-- Matches no sequence. -/
  | never
  /-- Matches the empty sequence. -/
  | empty
  | byte (set : ByteSet)
  | append (p q : Pattern)
  | union (p q : Pattern)
  /-- Matches any number of sequences that `p` matches, one after the other. -/
  | many (p : Pattern)
deriving DecidableEq, Repr

namespace Pattern

/-- One pattern after another, simplified where one of them is trivial. -/
def join : Pattern → Pattern → Pattern
  | never, _ => never
  | _, never => never
  | empty, q => q
  | p, empty => p
  | p, q => append p q

/-- One pattern or another, simplified where one of them matches nothing or both are the same. -/
def either : Pattern → Pattern → Pattern
  | never, q => q
  | p, never => p
  | p, q => if p = q then p else union p q

/-- The pattern matches the empty sequence. -/
def nullable : Pattern → Bool
  | never => false
  | empty => true
  | byte _ => false
  | append p q => p.nullable && q.nullable
  | union p q => p.nullable || q.nullable
  | many _ => true

/-- What may follow the byte, as a list of patterns: the pattern matches a sequence that starts with
the byte when one of them matches the rest. -/
def derivatives (b : UInt8) : Pattern → List Pattern
  | never => []
  | empty => []
  | byte set => if set.contains b then [empty] else []
  | append p q =>
    let first := (p.derivatives b).map (join · q)
    if p.nullable then first ++ q.derivatives b else first
  | union p q => p.derivatives b ++ q.derivatives b
  | many p => (p.derivatives b).map (join · (many p))

/-- One of the patterns matches the bytes. -/
def anyMatches : List Pattern → List UInt8 → Bool
  | patterns, [] => patterns.any nullable
  | patterns, b :: bytes => anyMatches (patterns.flatMap (derivatives b)).eraseDups bytes

/-- The pattern matches the bytes. -/
def matchesBytes (p : Pattern) (bytes : List UInt8) : Bool :=
  anyMatches [p] bytes

/-- The pattern of exactly these bytes. -/
def literal (bytes : List UInt8) : Pattern :=
  bytes.foldr (fun b p => join (byte (.single b)) p) empty

/-- One of the patterns. -/
def oneOf (patterns : List Pattern) : Pattern :=
  patterns.foldr either never

end Pattern

end TextTemplate
