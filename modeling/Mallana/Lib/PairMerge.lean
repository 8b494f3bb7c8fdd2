import Mathlib.Data.List.Chain
import Mathlib.Logic.Relation

/-!
# Merging the best pair

The plain algorithm that merges neighbours of a list: scan all neighbours, merge the best pair, and begin again until no
pair can be merged. `key` says which pairs can be merged and how good they are, `worse` compares two pairs and `join`
merges them. Of several best pairs the leftmost is merged.

`bestPair_eq` is the rule for what the scan finds, and `MergeStep.mergePairs_eq` the one for other algorithms: whoever
reaches a list without a pair by steps of the plain algorithm reaches its result.
-/

namespace Mallana.Lib

open List

variable {α κ : Type} (key : α → α → Option κ) (worse : κ → κ → Bool) (join : α → α → α)

/-- The best pair of neighbours: how many elements are before it, and its key. -/
def bestPair : List α → Option (Nat × κ)
  | x :: y :: rest =>
    match key x y, bestPair (y :: rest) with
    | none, none => none
    | none, some (i, k) => some (i + 1, k)
    | some k, none => some (0, k)
    | some k, some (i, k') => if worse k k' then some (i + 1, k') else some (0, k)
  | _ => none

/-- Merge the pair with `i` elements before it. -/
def mergeAt : Nat → List α → List α
  | 0, x :: y :: rest => join x y :: rest
  | i + 1, x :: rest => x :: mergeAt i rest
  | _, xs => xs

def mergeRuns : Nat → List α → List α
  | 0, xs => xs
  | fuel + 1, xs =>
    match bestPair key worse xs with
    | none => xs
    | some (i, _) => mergeRuns fuel (mergeAt join i xs)

/-- Every merge makes the list shorter, so its length is turns enough. -/
def mergePairs (xs : List α) : List α := mergeRuns key worse join xs.length xs

/-- A step of the algorithm. -/
inductive MergeStep (xs : List α) : List α → Prop
  | mk {i : Nat} {k : κ} (h : bestPair key worse xs = some (i, k)) : MergeStep xs (mergeAt join i xs)

variable {key worse join}

lemma bestPair_key {xs : List α} {i : Nat} {k : κ} (h : bestPair key worse xs = some (i, k)) :
    ∃ pre x y post, xs = pre ++ x :: y :: post ∧ i = pre.length ∧ key x y = some k := by
  induction xs generalizing i k with
  | nil => cases h
  | cons x xs ih =>
    cases xs with
    | nil => cases h
    | cons y rest =>
      rw [bestPair] at h
      have later : ∀ {j k'}, bestPair key worse (y :: rest) = some (j, k') →
          ∃ pre a b post, x :: y :: rest = pre ++ a :: b :: post ∧ j + 1 = pre.length ∧ key a b = some k' := by
        intro j k' hj
        obtain ⟨pre, a, b, post, heq, hlen, hk⟩ := ih hj
        exact ⟨x :: pre, a, b, post, by rw [heq, cons_append], by rw [hlen, length_cons], hk⟩
      cases hxy : key x y with
      | none =>
        cases hb : bestPair key worse (y :: rest) with
        | none => simp [hxy, hb] at h
        | some p =>
          simp only [hxy, hb, Option.some.injEq, Prod.mk.injEq] at h
          obtain ⟨rfl, rfl⟩ := h
          exact later hb
      | some k0 =>
        have here : ∃ pre a b post, x :: y :: rest = pre ++ a :: b :: post ∧ 0 = pre.length ∧ key a b = some k0 :=
          ⟨[], x, y, rest, rfl, rfl, hxy⟩
        cases hb : bestPair key worse (y :: rest) with
        | none =>
          simp only [hxy, hb, Option.some.injEq, Prod.mk.injEq] at h
          obtain ⟨rfl, rfl⟩ := h
          exact here
        | some p =>
          simp only [hxy, hb] at h
          split at h
          · simp only [Option.some.injEq, Prod.mk.injEq] at h
            obtain ⟨rfl, rfl⟩ := h
            exact later hb
          · simp only [Option.some.injEq, Prod.mk.injEq] at h
            obtain ⟨rfl, rfl⟩ := h
            exact here

lemma bestPair_none {xs : List α} (h : xs.IsChain fun x y => key x y = none) : bestPair key worse xs = none := by
  cases hb : bestPair key worse xs with
  | none => rfl
  | some p =>
    obtain ⟨pre, x, y, post, rfl, -, hk⟩ := bestPair_key hb
    have := isChain_iff_forall_rel_of_append_cons_cons.1 h rfl
    rw [this] at hk
    cases hk

lemma bestPair_eq {pre post : List α} {x y : α} {k : κ} (hk : key x y = some k)
    (hpre : (pre ++ [x]).IsChain fun a b => ∀ k', key a b = some k' → worse k' k = true)
    (hpost : (y :: post).IsChain fun a b => ∀ k', key a b = some k' → worse k k' = false) :
    bestPair key worse (pre ++ x :: y :: post) = some (pre.length, k) := by
  induction pre with
  | nil =>
    rw [nil_append, bestPair, hk]
    cases hb : bestPair key worse (y :: post) with
    | none => rfl
    | some p =>
      obtain ⟨pre, a, b, post', heq, -, hab⟩ := bestPair_key hb
      have better := isChain_iff_forall_rel_of_append_cons_cons.1 hpost heq p.2 hab
      simp only [better, Bool.false_eq_true, if_false]
      rfl
  | cons a pre ih =>
    -- the element behind `a`, so that the definition can be unfolded
    obtain ⟨b, rest, hrest⟩ : ∃ b rest, pre ++ [x] = b :: rest := by
      cases pre with
      | nil => exact ⟨x, [], rfl⟩
      | cons b pre => exact ⟨b, pre ++ [x], rfl⟩
    have hlist : pre ++ x :: y :: post = b :: (rest ++ y :: post) := by
      have := congrArg (· ++ y :: post) hrest
      simpa using this
    rw [cons_append, hrest, isChain_cons_cons] at hpre
    have later := ih (by rw [hrest]; exact hpre.2)
    rw [cons_append, hlist, bestPair, ← hlist, later]
    cases hab : key a b with
    | none => rfl
    | some k' =>
      simp only [hpre.1 k' hab, if_true]
      rfl

lemma mergeAt_append (pre : List α) (x y : α) (post : List α) :
    mergeAt join pre.length (pre ++ x :: y :: post) = pre ++ join x y :: post := by
  induction pre with
  | nil => rfl
  | cons a pre ih =>
    rw [length_cons, cons_append, mergeAt, ih]
    rfl

lemma MergeStep.length {xs ys : List α} (h : MergeStep key worse join xs ys) : xs.length = ys.length + 1 := by
  obtain ⟨h⟩ := h
  obtain ⟨pre, x, y, post, rfl, rfl, -⟩ := bestPair_key h
  rw [mergeAt_append]
  simp only [length_append, length_cons]
  omega

/-- The steps lead to one list only. -/
theorem MergeStep.mergeRuns_eq {xs ys : List α} (h : Relation.ReflTransGen (MergeStep key worse join) xs ys)
    (hend : bestPair key worse ys = none) :
    ∀ {fuel : Nat}, xs.length ≤ fuel → mergeRuns key worse join fuel xs = ys := by
  induction h using Relation.ReflTransGen.head_induction_on with
  | refl =>
    intro fuel _
    cases fuel with
    | zero => rfl
    | succ fuel => rw [mergeRuns, hend]
  | head hstep _ ih =>
    intro fuel hfuel
    have hlen := hstep.length
    obtain ⟨h⟩ := hstep
    cases fuel with
    | zero => omega
    | succ fuel =>
      rw [mergeRuns, h]
      exact ih (by omega)

theorem MergeStep.mergePairs_eq {xs ys : List α} (h : Relation.ReflTransGen (MergeStep key worse join) xs ys)
    (hend : bestPair key worse ys = none) : mergePairs key worse join xs = ys :=
  MergeStep.mergeRuns_eq h hend (le_refl _)

end Mallana.Lib
