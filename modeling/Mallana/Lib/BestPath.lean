import Mathlib.Algebra.Order.Monoid.Defs

/-!
# Paths with the highest score

A path is a list of labels along edges with scores. A score for each node that no edge improves bounds the scores of all
paths, so that a path that attains it is a best one.
-/

namespace Mallana.Lib

variable {V ι α : Type} [AddCommMonoid α] {edge : V → V → ι → α → Prop} {start e : V} {labels : List ι} {total : α}

/-- The paths from a node, with their labels and the sum of their scores. -/
inductive Path (edge : V → V → ι → α → Prop) (start : V) : V → List ι → α → Prop where
  | nil : Path edge start start [] 0
  | snoc {s e : V} {labels : List ι} {total : α} {label : ι} {score : α} : Path edge start s labels total →
      edge s e label score → Path edge start e (labels ++ [label]) (total + score)

/-- A path that no path between the same nodes has a higher score than. -/
def BestPath [LE α] (edge : V → V → ι → α → Prop) (start e : V) (labels : List ι) : Prop :=
  ∃ total, Path edge start e labels total ∧ ∀ labels' total', Path edge start e labels' total' → total' ≤ total

/-- Scores that no edge improves. -/
structure Bounds [LE α] (edge : V → V → ι → α → Prop) (start : V) (score : V → α) : Prop where
  start : 0 ≤ score start
  edge : ∀ s e label x, edge s e label x → score s + x ≤ score e

variable [PartialOrder α] [IsOrderedAddMonoid α] {score : V → α}

lemma Path.le (h : Path edge start e labels total) (hscore : Bounds edge start score) : total ≤ score e := by
  induction h with
  | nil => exact hscore.start
  | snoc _ hedge ih => exact (add_le_add_left ih _).trans (hscore.edge _ _ _ _ hedge)

/-- A path that attains the score of its end is a best one. -/
theorem Path.best (h : Path edge start e labels (score e)) (hscore : Bounds edge start score) :
    BestPath edge start e labels :=
  ⟨score e, h, fun _ _ h' => h'.le hscore⟩

end Mallana.Lib
