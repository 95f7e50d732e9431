import TextTemplate.Text.Bytes

/-!
# Cutting characters at bytes

An offset is on a character boundary if some of the leading characters take just that many bytes
(`onBoundary_iff`). Two boundaries cut the characters into three parts (`exists_parts`). What is a
boundary of a part is one of the whole, and the other way round (`onBoundary_append_of_le`,
`onBoundary_append_add`), so boundaries stay boundaries when the characters between two others
change.

`takeBytes` and `dropBytes` cut at any offset, which then belongs to the second part if it is inside
of a character.
-/
namespace TextTemplate

/-! ## Leading parts -/

theorem byteLength_eq_zero_iff {cs : List Char} : byteLength cs = 0 ↔ cs = [] := by
  cases cs with
  | nil => simp
  | cons c cs =>
    have hpos := Char.utf8Size_pos c
    simp only [byteLength_cons, reduceCtorEq, iff_false]
    omega

theorem byteLength_le_of_isPrefix {as bs : List Char} (h : as <+: bs) :
    byteLength as ≤ byteLength bs := by
  obtain ⟨rest, rfl⟩ := h
  rw [byteLength_append]
  omega

/-- A leading part that takes as many bytes as the whole is the whole. -/
theorem eq_of_isPrefix_of_byteLength_le {as bs : List Char} (h : as <+: bs)
    (hle : byteLength bs ≤ byteLength as) : as = bs := by
  obtain ⟨rest, rfl⟩ := h
  rw [byteLength_append] at hle
  have hrest : byteLength rest = 0 := by omega
  rw [byteLength_eq_zero_iff.mp hrest, List.append_nil]

/-- Of two leading parts, the one that takes no more bytes is a leading part of the other. -/
theorem isPrefix_of_byteLength_le {as bs cs : List Char} (ha : as <+: cs) (hb : bs <+: cs)
    (hle : byteLength as ≤ byteLength bs) : as <+: bs := by
  rcases List.prefix_or_prefix_of_prefix ha hb with hpre | hpre
  · exact hpre
  · obtain rfl := eq_of_isPrefix_of_byteLength_le hpre hle
    exact List.prefix_rfl

/-! ## Boundaries -/

section Boundaries
variable {as bs cs : List Char} {offset start stop : Nat}

theorem onBoundary_iff :
    onBoundary cs offset = true ↔
      ∃ before after, before ++ after = cs ∧ byteLength before = offset := by
  rw [onBoundary, Option.isSome_iff_exists]
  constructor
  · rintro ⟨⟨before, after⟩, h⟩
    exact ⟨before, after, append_of_splitAtByte? h⟩
  · rintro ⟨before, after, rfl, rfl⟩
    exact ⟨_, splitAtByte?_append before after⟩

theorem le_of_onBoundary (h : onBoundary cs offset = true) : offset ≤ byteLength cs := by
  obtain ⟨before, after, rfl, rfl⟩ := onBoundary_iff.mp h
  exact byteLength_le_of_isPrefix (List.prefix_append before after)

/-- Two boundaries cut the characters into three parts. -/
theorem exists_parts (hle : start ≤ stop) (hstart : onBoundary cs start = true)
    (hstop : onBoundary cs stop = true) :
    ∃ before middle after, before ++ (middle ++ after) = cs ∧ byteLength before = start ∧
      byteLength (before ++ middle) = stop := by
  obtain ⟨before, rest, hbefore, rfl⟩ := onBoundary_iff.mp hstart
  obtain ⟨upto, after, hupto, rfl⟩ := onBoundary_iff.mp hstop
  obtain ⟨middle, rfl⟩ := isPrefix_of_byteLength_le ⟨rest, hbefore⟩ ⟨after, hupto⟩ hle
  exact ⟨before, middle, after, by rw [← hupto, List.append_assoc], rfl, rfl⟩

theorem onBoundary_append_of_le (h : offset ≤ byteLength as) :
    onBoundary (as ++ bs) offset = true ↔ onBoundary as offset = true := by
  rw [onBoundary_iff, onBoundary_iff]
  constructor
  · rintro ⟨before, after, happ, rfl⟩
    obtain ⟨rest, rfl⟩ :=
      isPrefix_of_byteLength_le ⟨after, happ⟩ (List.prefix_append as bs) h
    exact ⟨before, rest, rfl, rfl⟩
  · rintro ⟨before, after, rfl, rfl⟩
    exact ⟨before, after ++ bs, by simp, rfl⟩

theorem onBoundary_append_add :
    onBoundary (as ++ bs) (byteLength as + offset) = true ↔ onBoundary bs offset = true := by
  rw [onBoundary_iff, onBoundary_iff]
  constructor
  · rintro ⟨before, after, happ, hlen⟩
    obtain ⟨middle, rfl⟩ : as <+: before :=
      isPrefix_of_byteLength_le (List.prefix_append as bs) ⟨after, happ⟩ (by omega)
    rw [List.append_assoc, List.append_cancel_left_eq] at happ
    rw [byteLength_append] at hlen
    exact ⟨middle, after, happ, by omega⟩
  · rintro ⟨before, after, rfl, rfl⟩
    exact ⟨as ++ before, after, by simp, byteLength_append as before⟩

end Boundaries

/-! ## Cutting anywhere -/

/-- The leading characters that take no more than `count` bytes together. -/
def takeBytes : Nat → List Char → List Char
  | _, [] => []
  | count, c :: cs => if c.utf8Size ≤ count then c :: takeBytes (count - c.utf8Size) cs else []

/-- The characters after those. -/
def dropBytes : Nat → List Char → List Char
  | _, [] => []
  | count, c :: cs => if c.utf8Size ≤ count then dropBytes (count - c.utf8Size) cs else c :: cs

theorem takeBytes_append (as bs : List Char) : takeBytes (byteLength as) (as ++ bs) = as := by
  induction as with
  | nil =>
    cases bs with
    | nil => rfl
    | cons c bs => simp [takeBytes, Nat.ne_of_gt (Char.utf8Size_pos c)]
  | cons c as ih =>
    have hle : c.utf8Size ≤ byteLength (c :: as) := Nat.le_add_right _ _
    rw [List.cons_append, takeBytes, if_pos hle, byteLength_cons, Nat.add_sub_cancel_left, ih]

theorem dropBytes_append (as bs : List Char) : dropBytes (byteLength as) (as ++ bs) = bs := by
  induction as with
  | nil =>
    cases bs with
    | nil => rfl
    | cons c bs => simp [dropBytes, Nat.ne_of_gt (Char.utf8Size_pos c)]
  | cons c as ih =>
    have hle : c.utf8Size ≤ byteLength (c :: as) := Nat.le_add_right _ _
    rw [List.cons_append, dropBytes, if_pos hle, byteLength_cons, Nat.add_sub_cancel_left, ih]

end TextTemplate
