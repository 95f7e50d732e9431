/-!
# Byte lengths of character lists

Offsets, lengths and columns of this library count the bytes of the UTF-8 form, while texts are read
as lists of characters. This module ties the two together. `byteLength` measures a list,
`splitAtByte?` cuts one at a byte offset and fails exactly where the offset is not on a character
boundary, and `slice?` cuts out a byte range.
-/
namespace TextTemplate

/-- The number of bytes that the characters take in UTF-8. -/
def byteLength : List Char → Nat
  | [] => 0
  | c :: cs => c.utf8Size + byteLength cs

@[simp]
theorem byteLength_nil : byteLength [] = 0 := rfl

@[simp]
theorem byteLength_cons (c : Char) (cs : List Char) :
    byteLength (c :: cs) = c.utf8Size + byteLength cs := rfl

@[simp]
theorem byteLength_append (as bs : List Char) :
    byteLength (as ++ bs) = byteLength as + byteLength bs := by
  induction as with
  | nil => simp
  | cons c cs ih => simp [ih, Nat.add_assoc]

/-- Every character has at least one byte. -/
theorem length_le_byteLength (cs : List Char) : cs.length ≤ byteLength cs := by
  induction cs with
  | nil => exact Nat.le_refl 0
  | cons c cs ih =>
    have := Char.utf8Size_pos c
    rw [List.length_cons, byteLength_cons]
    omega

/-- The characters before and after byte `offset`, provided that no character straddles it. -/
def splitAtByte? : List Char → Nat → Option (List Char × List Char)
  | cs, 0 => some ([], cs)
  | [], _ + 1 => none
  | c :: cs, offset + 1 =>
    if c.utf8Size ≤ offset + 1 then
      (splitAtByte? cs (offset + 1 - c.utf8Size)).map fun (before, after) => (c :: before, after)
    else none

/-- The two parts are the list again, and the first one has the asked-for length. -/
theorem append_of_splitAtByte? {cs before after : List Char} {offset : Nat}
    (h : splitAtByte? cs offset = some (before, after)) :
    before ++ after = cs ∧ byteLength before = offset := by
  fun_induction splitAtByte? cs offset generalizing before after with
  | case1 cs => simp_all
  | case2 => simp at h
  | case3 offset c cs hc ih =>
    obtain ⟨⟨b, a⟩, hb, heq⟩ := Option.map_eq_some_iff.mp h
    obtain ⟨rfl, rfl⟩ := Prod.mk.inj heq
    obtain ⟨happ, hlen⟩ := ih hb
    refine ⟨by simp [happ], ?_⟩
    simp only [byteLength_cons, hlen]
    omega
  | case4 => simp at h

/-- Cutting after a leading part gives back that part. -/
@[simp]
theorem splitAtByte?_append (as bs : List Char) :
    splitAtByte? (as ++ bs) (byteLength as) = some (as, bs) := by
  induction as with
  | nil => cases bs <;> simp [splitAtByte?]
  | cons c cs ih =>
    have hpos : 0 < c.utf8Size := Char.utf8Size_pos c
    obtain ⟨n, hn⟩ : ∃ n, byteLength (c :: cs) = n + 1 :=
      ⟨byteLength (c :: cs) - 1, by simp only [byteLength_cons]; omega⟩
    have hle : c.utf8Size ≤ n + 1 := by simp only [byteLength_cons] at hn; omega
    have hrest : n + 1 - c.utf8Size = byteLength cs := by simp only [byteLength_cons] at hn; omega
    rw [hn, List.cons_append, splitAtByte?, if_pos hle, hrest, ih]
    rfl

/-- Byte `offset` of the characters lies between two of them or at an end. -/
def onBoundary (cs : List Char) (offset : Nat) : Bool :=
  (splitAtByte? cs offset).isSome

/-- The characters of the byte range `start .. stop`, if both ends are on character boundaries. -/
def slice? (cs : List Char) (start stop : Nat) : Option (List Char) := do
  let (before, _) ← splitAtByte? cs stop
  let (_, middle) ← splitAtByte? before start
  return middle

end TextTemplate
