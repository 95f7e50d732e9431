import Mathlib.Data.Char
import Mathlib.Data.List.Lex
import TextTemplate.Proofs.LinePositions

/-!
# The order of bytes

Texts are compared by the code points of their characters. Comparing the bytes that they are stored
in comes to the same (`utf8Bytes_lt_iff`): a character with the greater code point has the greater
byte where the bytes of the two first differ, and no character's bytes are the beginning of
another's.
-/
namespace TextTemplate

theorem toNat_ofNat_of_lt {n : Nat} (h : n < 256) : (UInt8.ofNat n).toNat = n :=
  UInt8.toNat_ofNat_of_lt' h

/-- Of two characters the lesser one has the lesser bytes, whatever comes after them. -/
theorem utf8EncodeChar_append_lt {c d : Char} (h : c < d) (as bs : List UInt8) :
    String.utf8EncodeChar c ++ as < String.utf8EncodeChar d ++ bs := by
  have hlt : c.val.toNat < d.val.toNat := UInt32.lt_iff_toNat_lt.mp h
  have hbound : d.val.toNat < 0x110000 := by
    have := d.valid
    simp only [UInt32.isValidChar, Nat.isValidChar] at this
    omega
  -- the bytes after the first hold the code point in digits to the base 64
  have hdigits (n : Nat) : n / 64 / 64 = n / 4096 ∧ n / 4096 / 64 = n / 262144 :=
    ⟨Nat.div_div_eq_div_mul n 64 64, Nat.div_div_eq_div_mul n 4096 64⟩
  unfold String.utf8EncodeChar
  extract_lets v w
  have hv := hdigits v
  have hw := hdigits w
  split_ifs <;>
    simp (disch := omega) only [List.cons_append, List.nil_append, List.cons_lt_cons_iff,
      UInt8.lt_iff_toNat_lt, ← UInt8.toNat_inj, toNat_ofNat_of_lt, Nat.mod_eq_of_lt] <;>
    omega

theorem utf8Bytes_lt_of_lt {as bs : List Char} (h : as < bs) : utf8Bytes as < utf8Bytes bs := by
  induction h with
  | @nil c cs =>
    obtain ⟨b, bytes, hb⟩ := List.exists_cons_of_ne_nil (l := utf8Bytes (c :: cs)) fun hnil => by
      have hlength := congrArg List.length hnil
      have := c.utf8Size_pos
      rw [length_utf8Bytes, byteLength_cons, List.length_nil] at hlength
      omega
    rw [hb]
    exact List.nil_lt_cons b bytes
  | @rel c cs d ds hcd =>
    rw [utf8Bytes_cons, utf8Bytes_cons]
    exact utf8EncodeChar_append_lt hcd _ _
  | @cons c cs ds _ ih =>
    rw [utf8Bytes_cons, utf8Bytes_cons]
    exact List.Lex.append_left _ ih _

/-- The order of code points is the order of bytes. -/
theorem utf8Bytes_lt_iff {as bs : List Char} : utf8Bytes as < utf8Bytes bs ↔ as < bs := by
  refine ⟨fun h => ?_, utf8Bytes_lt_of_lt⟩
  rcases lt_trichotomy as bs with hlt | rfl | hlt
  · exact hlt
  · exact absurd h (List.lt_irrefl _)
  · exact absurd h (List.lt_asymm (utf8Bytes_lt_of_lt hlt))

end TextTemplate
