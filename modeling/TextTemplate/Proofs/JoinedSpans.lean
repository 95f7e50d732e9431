import Mathlib.Data.List.Pairwise
import TextTemplate.Proofs.Places

/-!
# Joined spans

`Span.containsSpan` orders spans by their ends. A cover is a join in this order: both spans are
inside of it, and it is inside of every span that has both inside. This is so because a cover, also
that of a list of spans, reaches from the least start to the greatest end
(`Span.reachesOver_foldl_cover`), and whatever does is a join (`Span.ReachesOver.isJoin`).

Two spans with the same ends need not be equal, since the end of a span whose parts add up to more
than `maxOffset` is cut off. A cover is not cut off (`Span.start_add_length_cover`), so it is known
by its ends. For this reason `Span.cover` is commutative and associative for all spans.
-/
namespace TextTemplate

namespace Span

/-- All of the spans are inside of `j`, and `j` is inside of every span that has them all inside. -/
structure IsJoin (spans : List Span) (j : Span) : Prop where
  contains : ∀ s ∈ spans, j.containsSpan s = true
  least : ∀ u : Span, (∀ s ∈ spans, u.containsSpan s = true) → u.containsSpan j = true

/-- The span starts at the least start of the spans and stops at the greatest end. -/
structure ReachesOver (j : Span) (spans : List Span) : Prop where
  start_eq : (spans.map start).min? = some j.start
  stop_eq : (spans.map stop).max? = some j.stop

theorem ReachesOver.isJoin {spans : List Span} {j : Span} (h : j.ReachesOver spans) :
    IsJoin spans j := by
  obtain ⟨hstart, hle⟩ := List.min?_eq_some_iff.mp h.start_eq
  obtain ⟨hstop, hge⟩ := List.max?_eq_some_iff.mp h.stop_eq
  refine ⟨fun s hs => ?_, fun u hu => ?_⟩
  · exact containsSpan_iff.mpr
      ⟨hle _ (List.mem_map_of_mem hs), hge _ (List.mem_map_of_mem hs)⟩
  · obtain ⟨first, hfirst, heq⟩ := List.mem_map.mp hstart
    obtain ⟨last, hlast, heq'⟩ := List.mem_map.mp hstop
    exact containsSpan_iff.mpr
      ⟨heq ▸ (containsSpan_iff.mp (hu first hfirst)).1,
        heq' ▸ (containsSpan_iff.mp (hu last hlast)).2⟩

/-! ## Two spans -/

section Two
variable (s t u : Span)

/-- A cover is not cut off. -/
theorem start_add_length_cover : (s.cover t).start + (s.cover t).length = (s.cover t).stop := by
  have := s.start_le_stop
  rw [start_cover, length_cover, stop_cover]
  omega

theorem cover_comm : s.cover t = t.cover s := by
  rw [cover, cover, Nat.min_comm, Nat.max_comm]

theorem cover_assoc : (s.cover t).cover u = s.cover (t.cover u) := by
  apply Span.ext
  · simp only [start_cover, Nat.min_assoc]
  · simp only [length_cover, start_cover, stop_cover, Nat.min_assoc, Nat.max_assoc]

end Two

/-! ## Lists of spans -/

theorem start_foldl_cover (s : Span) (spans : List Span) :
    (spans.foldl cover s).start = (spans.map start).foldl min s.start := by
  rw [List.foldl_map]
  exact (List.foldl_hom start fun x y => (start_cover x y).symm).symm

theorem stop_foldl_cover (s : Span) (spans : List Span) :
    (spans.foldl cover s).stop = (spans.map stop).foldl max s.stop := by
  rw [List.foldl_map]
  exact (List.foldl_hom stop fun x y => (stop_cover x y).symm).symm

theorem reachesOver_foldl_cover (s : Span) (spans : List Span) :
    (spans.foldl cover s).ReachesOver (s :: spans) where
  start_eq := by rw [List.map_cons, List.min?_cons', start_foldl_cover]
  stop_eq := by rw [List.map_cons, List.max?_cons', stop_foldl_cover]

theorem reachesOver_cover (s t : Span) : (s.cover t).ReachesOver [s, t] :=
  reachesOver_foldl_cover s [t]

/-- The cover of a list of spans is not cut off, unless there is nothing to cover but the first. -/
theorem start_add_length_foldl_cover (s : Span) (spans : List Span) :
    spans = [] ∨ (spans.foldl cover s).start + (spans.foldl cover s).length =
      (spans.foldl cover s).stop := by
  rcases List.eq_nil_or_concat spans with hnil | ⟨init, last, rfl⟩
  · exact .inl hnil
  · refine .inr ?_
    rw [List.concat_eq_append, List.foldl_append, List.foldl_cons, List.foldl_nil]
    exact start_add_length_cover _ last

/-- The cover of spans in order reaches from the first to the last of them. -/
theorem foldl_cover_of_pairwise {s : Span} {spans : List Span}
    (h : (s :: spans).Pairwise fun a b => a.stop ≤ b.start) :
    (spans.foldl cover s).start = s.start ∧
      (spans.foldl cover s).stop = ((s :: spans).getLast (List.cons_ne_nil _ _)).stop := by
  have hreaches := reachesOver_foldl_cover s spans
  constructor
  · have hstarts : ((s :: spans).map start).Pairwise fun a b => min a b = a :=
      List.pairwise_map.mpr (h.imp fun {a b} hab => Nat.min_eq_left (a.start_le_stop.trans hab))
    have hmin := List.min?_eq_head? hstarts
    rw [hreaches.start_eq] at hmin
    exact Option.some.inj hmin
  · have hstops : (s :: spans).Pairwise fun a b => a.stop ≤ b.stop :=
      h.imp fun {a b} hab => hab.trans b.start_le_stop
    obtain ⟨hmem, hge⟩ := List.max?_eq_some_iff.mp hreaches.stop_eq
    obtain ⟨t, ht, hstop⟩ := List.mem_map.mp hmem
    refine Nat.le_antisymm ?_ (hge _ (List.mem_map_of_mem (List.getLast_mem _)))
    rw [← hstop]
    exact hstops.rel_getLast_of_rel_getLast_getLast ht Nat.le.refl

end Span

end TextTemplate
