import Mathlib.Data.Finset.Basic
import Mathlib.Data.Finset.Lattice.Lemmas
import Mathlib.Data.List.Nodup

/-!
# Calling a function until it is done

`drain step n s` calls a step function until it returns nothing, at most `n` times. `Drains` is the run
without a budget. `exists_drains` is the rule for termination: a measure that every step decreases bounds the
number of calls. `Drains.inv` is the rule for what holds along a run. `Drains.partition` and `Drains.sorted` are
the rules for steps that take elements from a finite stock: together they take every element exactly once, and in
order if no step passes over an element.
-/

namespace Mallana.Lib

open List

variable {σ β ι : Type}

/-- Call `step` until it returns nothing and collect the results. `none`: the budget is spent. -/
def drain (step : σ → Option (β × σ)) : Nat → σ → Option (List β × σ)
  | 0, _ => none
  | n + 1, s =>
    match step s with
    | none => some ([], s)
    | some (b, s') => (drain step n s').map fun r => (b :: r.1, r.2)

/-- A run of calls to its end. -/
inductive Drains (step : σ → Option (β × σ)) : σ → List β → σ → Prop
  | done {s : σ} (h : step s = none) : Drains step s [] s
  | more {s s' s'' : σ} {b : β} {bs : List β} (h : step s = some (b, s'))
      (t : Drains step s' bs s'') : Drains step s (b :: bs) s''

variable {step : σ → Option (β × σ)} {s s' : σ} {b : β} {bs : List β}

lemma Drains.drain_eq (h : Drains step s bs s') {n : Nat} (hn : bs.length < n) :
    drain step n s = some (bs, s') := by
  induction h generalizing n with
  | done h =>
    obtain ⟨m, rfl⟩ := Nat.exists_eq_succ_of_ne_zero (ne_of_gt (Nat.zero_lt_of_lt hn))
    rw [drain, h]
  | more h _ ih =>
    obtain ⟨m, rfl⟩ := Nat.exists_eq_succ_of_ne_zero (ne_of_gt (Nat.zero_lt_of_lt hn))
    rw [drain, h]
    simp only []
    rw [ih (Nat.lt_of_succ_lt_succ hn)]
    rfl

variable {I : σ → Prop}

/-- A run ends if every step decreases a measure, which bounds the number of results. -/
theorem exists_drains {μ : σ → Nat}
    (hstep : ∀ s b s', I s → step s = some (b, s') → I s' ∧ μ s' < μ s) (hs : I s) :
    ∃ bs s', Drains step s bs s' ∧ bs.length ≤ μ s := by
  induction hk : μ s using Nat.strong_induction_on generalizing s with
  | _ k ih =>
    subst hk
    cases h : step s with
    | none => exact ⟨[], s, .done h, Nat.zero_le _⟩
    | some r =>
      obtain ⟨b, s1⟩ := r
      obtain ⟨h1, hlt⟩ := hstep s b s1 hs h
      obtain ⟨bs, s', hrun, hlen⟩ := ih (μ s1) hlt h1 rfl
      refine ⟨b :: bs, s', .more h hrun, ?_⟩
      rw [length_cons]
      omega

lemma Drains.map {γ : Type} {step' : σ → Option (γ × σ)} {f : β → γ}
    (hinv : ∀ s b s', I s → step s = some (b, s') → I s')
    (hmap : ∀ s, I s → step' s = (step s).map (Prod.map f id))
    (h : Drains step s bs s') (hs : I s) : Drains step' s (bs.map f) s' := by
  induction h with
  | done h =>
    refine .done ?_
    rw [hmap _ hs, h]
    rfl
  | more h _ ih =>
    refine .more ?_ (ih (hinv _ _ _ hs h))
    rw [hmap _ hs, h]
    rfl

lemma Drains.forall_mem {Q : β → Prop} (hinv : ∀ s b s', I s → step s = some (b, s') → I s')
    (hQ : ∀ s b s', I s → step s = some (b, s') → Q b) (h : Drains step s bs s') (hs : I s) : ∀ b ∈ bs, Q b := by
  induction h with
  | done _ => simp
  | more h _ ih =>
    intro b hb
    obtain rfl | hb := mem_cons.1 hb
    · exact hQ _ _ _ hs h
    · exact ih (hinv _ _ _ hs h) b hb

/-- Steps that take elements from a stock, until nothing is left, take every element exactly once. -/
theorem Drains.partition [DecidableEq ι] (free : σ → Finset ι) (taken : β → List ι)
    (hinv : ∀ s b s', I s → step s = some (b, s') → I s')
    (htake : ∀ s b s', I s → step s = some (b, s') → (taken b).Nodup ∧ (∀ i ∈ taken b, i ∈ free s) ∧
      free s' = free s \ (taken b).toFinset) (hdone : ∀ s, I s → step s = none → free s = ∅)
    (h : Drains step s bs s') (hs : I s) : (bs.flatMap taken).Nodup ∧ (bs.flatMap taken).toFinset = free s := by
  induction h with
  | done h => simp [hdone _ hs h]
  | @more s s1 s2 b bs h _ ih =>
    obtain ⟨hnd, hsub, hfree⟩ := htake _ _ _ hs h
    obtain ⟨hnd', hset⟩ := ih (hinv _ _ _ hs h)
    have hmem : ∀ i, i ∈ bs.flatMap taken ↔ i ∈ free s ∧ i ∉ taken b := by
      intro i
      rw [← mem_toFinset, hset, hfree]
      simp
    rw [flatMap_cons]
    refine ⟨hnd.append hnd' fun i hi hi' => ((hmem i).1 hi').2 hi, ?_⟩
    rw [toFinset_append, hset, hfree]
    exact Finset.union_sdiff_of_subset fun i hi => hsub i (mem_toFinset.1 hi)

/-- If every step takes its elements in order, and before all that it leaves in the stock, the whole run takes
    the elements in order. -/
theorem Drains.sorted [DecidableEq ι] (free : σ → Finset ι) (taken : β → List ι)
    {r : ι → ι → Prop} (hinv : ∀ s b s', I s → step s = some (b, s') → I s')
    (htake : ∀ s b s', I s → step s = some (b, s') →
      (∀ i ∈ taken b, i ∈ free s) ∧ free s' = free s \ (taken b).toFinset)
    (hsort : ∀ s b s', I s → step s = some (b, s') → (taken b).Pairwise r ∧ ∀ i ∈ taken b, ∀ j ∈ free s', r i j)
    (h : Drains step s bs s') (hs : I s) : (bs.flatMap taken).Pairwise r ∧ ∀ i ∈ bs.flatMap taken, i ∈ free s := by
  induction h with
  | done _ => simp
  | @more s s1 s2 b bs h _ ih =>
    obtain ⟨hsub, hfree⟩ := htake _ _ _ hs h
    obtain ⟨hpw, hrest⟩ := hsort _ _ _ hs h
    obtain ⟨hpw', hmem⟩ := ih (hinv _ _ _ hs h)
    rw [flatMap_cons]
    refine ⟨pairwise_append.2 ⟨hpw, hpw', fun i hi j hj => hrest i hi j (hmem j hj)⟩, ?_⟩
    intro i hi
    obtain hi | hi := mem_append.1 hi
    · exact hsub i hi
    · have hi' := hmem i hi
      rw [hfree] at hi'
      exact (Finset.mem_sdiff.1 hi').1

end Mallana.Lib
