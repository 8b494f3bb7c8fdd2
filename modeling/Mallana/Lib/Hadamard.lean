import Mathlib.Algebra.BigOperators.Group.Finset.Sigma
import Mathlib.Algebra.BigOperators.Ring.Finset
import Mathlib.Algebra.Order.Ring.Int
import Mathlib.Tactic.Ring

/-!
# The fast Walsh-Hadamard transform

The Sylvester-Hadamard matrix of order `2 ^ t`, and the in-place butterfly loops that multiply a vector
by it. A stage of the loops with stride `h` replaces each pair `x j`, `x (j + h)` by its sum and
difference; the pairs of one stage are disjoint. `Partial s` is what the array holds before the stage
with stride `2 ^ s`: in each block of `2 ^ s` elements the product of the matrix of that order with the
block. The matrix is symmetric and its square is `2 ^ t` times the identity.
-/

namespace Mallana.Lib

open Finset

/-- Entry `i`, `j` of the Sylvester-Hadamard matrix of order `2 ^ t`. -/
def sylvester : Nat → Nat → Nat → Int
  | 0, _, _ => 1
  | t + 1, i, j =>
      (if 2 ^ t ≤ i ∧ 2 ^ t ≤ j then -1 else 1) * sylvester t (i % 2 ^ t) (j % 2 ^ t)

lemma sylvester_comm (t i j : Nat) : sylvester t i j = sylvester t j i := by
  induction t generalizing i j with
  | zero => rfl
  | succ t ih =>
    rw [sylvester, sylvester, ih]
    congr 1
    simp only [and_comm]

section Quarters
variable {t i j : Nat}

section
variable (hi : i < 2 ^ t) (hj : j < 2 ^ t)
include hi hj

lemma sylvester_low : sylvester (t + 1) i j = sylvester t i j := by
  rw [sylvester, if_neg (fun h => absurd h.1 (Nat.not_le_of_lt hi)), Nat.mod_eq_of_lt hi,
    Nat.mod_eq_of_lt hj, one_mul]

lemma sylvester_right : sylvester (t + 1) i (2 ^ t + j) = sylvester t i j := by
  rw [sylvester, if_neg (fun h => absurd h.1 (Nat.not_le_of_lt hi)), Nat.mod_eq_of_lt hi,
    Nat.add_mod_left, Nat.mod_eq_of_lt hj, one_mul]

lemma sylvester_left : sylvester (t + 1) (2 ^ t + i) j = sylvester t i j := by
  rw [sylvester_comm, sylvester_right hj hi, sylvester_comm]

lemma sylvester_high : sylvester (t + 1) (2 ^ t + i) (2 ^ t + j) = -sylvester t i j := by
  rw [sylvester, if_pos ⟨Nat.le_add_right _ _, Nat.le_add_right _ _⟩, Nat.add_mod_left,
    Nat.add_mod_left, Nat.mod_eq_of_lt hi, Nat.mod_eq_of_lt hj, neg_one_mul]

end

end Quarters

section Product
variable {K : Type} [CommRing K]

/-- The product of the matrix of order `2 ^ t` with the vector `x`. -/
def sylvesterMul (t : Nat) (x : Nat → K) (i : Nat) : K :=
  ∑ j ∈ range (2 ^ t), (sylvester t i j : K) * x j

lemma sum_range_double (t : Nat) (f : Nat → K) : ∑ j ∈ range (2 ^ (t + 1)), f j
      = ∑ j ∈ range (2 ^ t), f j + ∑ j ∈ range (2 ^ t), f (2 ^ t + j) := by
  have h : 2 ^ (t + 1) = 2 ^ t + 2 ^ t := by rw [pow_succ]; omega
  rw [h, sum_range_add]

lemma sylvesterMul_low {t i : Nat} (hi : i < 2 ^ t) (x : Nat → K) :
    sylvesterMul (t + 1) x i = sylvesterMul t x i + sylvesterMul t (fun j => x (2 ^ t + j)) i := by
  rw [sylvesterMul, sum_range_double]
  congr 1
  · apply sum_congr rfl
    intro j hj
    rw [sylvester_low hi (mem_range.1 hj)]
  · apply sum_congr rfl
    intro j hj
    rw [sylvester_right hi (mem_range.1 hj)]

lemma sylvesterMul_high {t i : Nat} (hi : i < 2 ^ t) (x : Nat → K) : sylvesterMul (t + 1) x (2 ^ t + i)
      = sylvesterMul t x i - sylvesterMul t (fun j => x (2 ^ t + j)) i := by
  rw [sylvesterMul, sum_range_double, sub_eq_add_neg]
  congr 1
  · apply sum_congr rfl
    intro j hj
    rw [sylvester_left hi (mem_range.1 hj)]
  · rw [sylvesterMul, ← sum_neg_distrib]
    apply sum_congr rfl
    intro j hj
    rw [sylvester_high hi (mem_range.1 hj), Int.cast_neg, neg_mul]

lemma sylvesterMul_congr {t : Nat} {x y : Nat → K} (h : ∀ j < 2 ^ t, x j = y j) (i : Nat) :
    sylvesterMul t x i = sylvesterMul t y i := by
  apply sum_congr rfl
  intro j hj
  rw [h j (mem_range.1 hj)]

lemma sylvesterMul_add (t : Nat) (x y : Nat → K) (i : Nat) :
    sylvesterMul t (fun j => x j + y j) i = sylvesterMul t x i + sylvesterMul t y i := by
  simp only [sylvesterMul, mul_add, sum_add_distrib]

lemma sylvesterMul_sub (t : Nat) (x y : Nat → K) (i : Nat) :
    sylvesterMul t (fun j => x j - y j) i = sylvesterMul t x i - sylvesterMul t y i := by
  simp only [sylvesterMul, mul_sub, sum_sub_distrib]

lemma sylvesterMul_smul (t : Nat) (c : K) (x : Nat → K) (i : Nat) :
    sylvesterMul t (fun j => c * x j) i = c * sylvesterMul t x i := by
  rw [sylvesterMul, sylvesterMul, mul_sum]
  apply sum_congr rfl
  intro j _
  ring

/-- The square of the matrix is `2 ^ t` times the identity. -/
theorem sylvesterMul_self {t i : Nat} (hi : i < 2 ^ t) (x : Nat → K) :
    sylvesterMul t (sylvesterMul t x) i = 2 ^ t * x i := by
  induction t generalizing i x with
  | zero =>
    have h0 : i = 0 := by omega
    subst h0
    simp [sylvesterMul, sylvester]
  | succ t ih =>
    have hlow : ∀ j < 2 ^ t, sylvesterMul (t + 1) x j
        = sylvesterMul t x j + sylvesterMul t (fun j => x (2 ^ t + j)) j :=
      fun j hj => sylvesterMul_low hj x
    have hhigh : ∀ j < 2 ^ t, sylvesterMul (t + 1) x (2 ^ t + j)
        = sylvesterMul t x j - sylvesterMul t (fun j => x (2 ^ t + j)) j :=
      fun j hj => sylvesterMul_high hj x
    rcases lt_or_ge i (2 ^ t) with hlt | hge
    · rw [sylvesterMul_low hlt, sylvesterMul_congr hlow, sylvesterMul_congr hhigh, sylvesterMul_add,
        sylvesterMul_sub, ih hlt, ih hlt, pow_succ]
      ring
    · obtain ⟨r, rfl⟩ := Nat.exists_eq_add_of_le hge
      have hr : r < 2 ^ t := by rw [pow_succ] at hi; omega
      rw [sylvesterMul_high hr, sylvesterMul_congr hlow, sylvesterMul_congr hhigh, sylvesterMul_add,
        sylvesterMul_sub, ih hr, ih hr, pow_succ]
      ring

lemma sum_sylvesterMul_mul (t : Nat) (x y : Nat → K) : ∑ i ∈ range (2 ^ t), sylvesterMul t x i * y i
      = ∑ i ∈ range (2 ^ t), x i * sylvesterMul t y i := by
  simp only [sylvesterMul, sum_mul, mul_sum]
  rw [sum_comm]
  apply sum_congr rfl
  intro i _
  apply sum_congr rfl
  intro j _
  rw [sylvester_comm t j i]
  ring

/-- The matrix scales inner products by its order. -/
theorem sum_sylvesterMul_sylvesterMul (t : Nat) (x y : Nat → K) :
    ∑ i ∈ range (2 ^ t), sylvesterMul t x i * sylvesterMul t y i = 2 ^ t * ∑ i ∈ range (2 ^ t), x i * y i := by
  rw [sum_sylvesterMul_mul, mul_sum]
  apply sum_congr rfl
  intro i hi
  rw [sylvesterMul_self (mem_range.1 hi)]
  ring

end Product

section Loops
variable {K : Type} [AddCommGroup K]

/-- The loop body: `a = x[j], b = x[j + h]; x[j] = a + b; x[j + h] = a - b`. -/
def butterfly (h : Nat) (x : Nat → K) (j : Nat) : Nat → K :=
  Function.update (Function.update x j (x j + x (j + h))) (j + h) (x j - x (j + h))

/-- The loops `for (i = 0; i < n; i += 2 * h) for (j = i; j < i + h; j++)`. -/
def butterflyStage (n h : Nat) (x : Nat → K) : Nat → K :=
  (List.range' 0 ((n + (2 * h - 1)) / (2 * h)) (2 * h)).foldl
    (fun x i => (List.range' i h).foldl (butterfly h) x) x

/-- The loop `for (h = 1; h < n; h *= 2)` from a stride `h` on. -/
def butterflyLoop (n h : Nat) (x : Nat → K) : Nat → K :=
  if _ : 0 < h ∧ h < n then butterflyLoop n (h * 2) (butterflyStage n h x) else x
termination_by n - h

lemma foldl_butterfly {h : Nat} (hpos : 0 < h) {l : List Nat} (hnd : l.Nodup)
    (hdisj : ∀ j ∈ l, j + h ∉ l) (x : Nat → K) : (∀ p ∈ l, l.foldl (butterfly h) x p = x p + x (p + h)) ∧
    (∀ p ∈ l, l.foldl (butterfly h) x (p + h) = x p - x (p + h)) ∧
    (∀ p ∉ l, (∀ j ∈ l, j + h ≠ p) → l.foldl (butterfly h) x p = x p) := by
  induction l generalizing x with
  | nil => exact ⟨fun _ h => absurd h List.not_mem_nil, fun _ h => absurd h List.not_mem_nil, fun _ _ _ => rfl⟩
  | cons j l ih =>
    obtain ⟨hj, hnd'⟩ := List.nodup_cons.1 hnd
    have hdisj' : ∀ i ∈ l, i + h ∉ l := fun i hi hin =>
      hdisj i (List.mem_cons_of_mem _ hi) (List.mem_cons_of_mem _ hin)
    have hjh : j + h ∉ l := fun hin => hdisj j List.mem_cons_self (List.mem_cons_of_mem _ hin)
    have hhj : ∀ i ∈ l, i + h ≠ j := fun i hi e =>
      hdisj i (List.mem_cons_of_mem _ hi) (e ▸ List.mem_cons_self)
    have hhh : ∀ i ∈ l, i + h ≠ j + h := fun i hi e => hj (add_right_cancel e ▸ hi)
    have hself : butterfly h x j j = x j + x (j + h) := by
      rw [butterfly, Function.update_of_ne (by omega), Function.update_self]
    have hpair : butterfly h x j (j + h) = x j - x (j + h) := by rw [butterfly, Function.update_self]
    have hrest : ∀ q, q ≠ j → q ≠ j + h → butterfly h x j q = x q := by
      intro q h1 h2
      rw [butterfly, Function.update_of_ne h2, Function.update_of_ne h1]
    have hmem : ∀ p ∈ l, butterfly h x j p = x p ∧ butterfly h x j (p + h) = x (p + h) := by
      intro p hp
      have hne : p ≠ j := fun e => hj (e ▸ hp)
      exact ⟨hrest p hne (fun e => hjh (e ▸ hp)), hrest (p + h) (hhj p hp) (hhh p hp)⟩
    obtain ⟨ih1, ih2, ih3⟩ := ih hnd' hdisj' (butterfly h x j)
    simp only [List.foldl_cons]
    refine ⟨fun p hp => ?_, fun p hp => ?_, fun p hp hq => ?_⟩
    · rcases List.mem_cons.1 hp with rfl | hp
      · rw [ih3 p hj hhj, hself]
      · rw [ih1 p hp, (hmem p hp).1, (hmem p hp).2]
    · rcases List.mem_cons.1 hp with rfl | hp
      · rw [ih3 (p + h) hjh hhh, hpair]
      · rw [ih2 p hp, (hmem p hp).1, (hmem p hp).2]
    · rw [ih3 p (List.not_mem_of_not_mem_cons hp) (fun i hi => hq i (List.mem_cons_of_mem _ hi)),
        hrest p (List.ne_of_not_mem_cons hp) (hq j List.mem_cons_self).symm]

def stageIndices (n h : Nat) : List Nat :=
  (List.range' 0 ((n + (2 * h - 1)) / (2 * h)) (2 * h)).flatMap fun i => List.range' i h

lemma butterflyStage_eq (n h : Nat) (x : Nat → K) :
    butterflyStage n h x = (stageIndices n h).foldl (butterfly h) x := by
  rw [stageIndices, List.foldl_flatMap, butterflyStage]

lemma mem_stageIndices {b h j : Nat} (hpos : 0 < h) :
    j ∈ stageIndices (b * (2 * h)) h ↔ ∃ q < b, ∃ r < h, j = q * (2 * h) + r := by
  have hcount : (b * (2 * h) + (2 * h - 1)) / (2 * h) = b := by
    rw [mul_comm, Nat.mul_add_div (by omega), Nat.div_eq_of_lt (by omega), add_zero]
  rw [stageIndices, hcount]
  simp only [List.mem_flatMap, List.mem_range']
  constructor
  · rintro ⟨i, ⟨q, hq, rfl⟩, r, hr, rfl⟩
    refine ⟨q, hq, r, hr, ?_⟩
    rw [zero_add, mul_comm, one_mul]
  · rintro ⟨q, hq, r, hr, rfl⟩
    refine ⟨q * (2 * h), ⟨q, hq, ?_⟩, r, hr, ?_⟩
    · rw [zero_add, mul_comm]
    · rw [one_mul]

lemma nodup_stageIndices (n h : Nat) : (stageIndices n h).Nodup := by
  rw [stageIndices, List.nodup_flatMap]
  refine ⟨fun i _ => List.nodup_range', ?_⟩
  have hpw : (List.range' 0 ((n + (2 * h - 1)) / (2 * h)) (2 * h)).Pairwise (fun i j => i + 2 * h ≤ j) := by
    rw [List.pairwise_iff_getElem]
    intro a b ha hb hab
    rw [List.getElem_range', List.getElem_range']
    have hm : 2 * h * (a + 1) ≤ 2 * h * b := Nat.mul_le_mul_left _ hab
    rw [mul_add] at hm
    omega
  apply hpw.imp
  intro i j hij a hi hj
  rw [List.mem_range'] at hi hj
  obtain ⟨r, hr, rfl⟩ := hi
  obtain ⟨r', hr', e⟩ := hj
  omega

lemma block_unique {m q q' r r' : Nat} (hr : r < m) (hr' : r' < m) (e : q * m + r = q' * m + r') :
    q = q' ∧ r = r' := by
  have hq : (q * m + r) / m = q := by
    rw [mul_comm, Nat.mul_add_div (by omega), Nat.div_eq_of_lt hr, add_zero]
  have hq' : (q' * m + r') / m = q' := by
    rw [mul_comm, Nat.mul_add_div (by omega), Nat.div_eq_of_lt hr', add_zero]
  rw [e, hq'] at hq
  subst hq
  exact ⟨rfl, add_left_cancel e⟩

lemma stageIndices_disjoint {b h : Nat} (hpos : 0 < h) :
    ∀ j ∈ stageIndices (b * (2 * h)) h, j + h ∉ stageIndices (b * (2 * h)) h := by
  intro j hj hjh
  obtain ⟨q1, _, r1, hr1, rfl⟩ := (mem_stageIndices hpos).1 hj
  obtain ⟨q2, _, r2, hr2, e⟩ := (mem_stageIndices hpos).1 hjh
  rw [add_assoc] at e
  have := (block_unique (by omega) (by omega) e).2
  omega

/-- What a stage leaves in block `q` of `2 * h` elements. -/
theorem butterflyStage_block {b h q r : Nat} (hq : q < b) (hr : r < h) (x : Nat → K) :
    butterflyStage (b * (2 * h)) h x (q * (2 * h) + r) = x (q * (2 * h) + r) + x (q * (2 * h) + h + r) ∧
    butterflyStage (b * (2 * h)) h x (q * (2 * h) + h + r) = x (q * (2 * h) + r) - x (q * (2 * h) + h + r) := by
  have hpos : 0 < h := by omega
  have hmem : q * (2 * h) + r ∈ stageIndices (b * (2 * h)) h :=
    (mem_stageIndices hpos).2 ⟨q, hq, r, hr, rfl⟩
  obtain ⟨h1, h2, _⟩ := foldl_butterfly hpos (nodup_stageIndices _ _) (stageIndices_disjoint hpos) x
  have e : q * (2 * h) + h + r = q * (2 * h) + r + h := by omega
  rw [butterflyStage_eq, e]
  exact ⟨h1 _ hmem, h2 _ hmem⟩

lemma butterflyStage_of_le {b h p : Nat} (hpos : 0 < h) (hp : b * (2 * h) ≤ p) (x : Nat → K) :
    butterflyStage (b * (2 * h)) h x p = x p := by
  have hlt : ∀ j ∈ stageIndices (b * (2 * h)) h, j + h < b * (2 * h) := by
    intro j hj
    obtain ⟨q, hq, r, hr, rfl⟩ := (mem_stageIndices hpos).1 hj
    have hm : (q + 1) * (2 * h) ≤ b * (2 * h) := Nat.mul_le_mul_right _ hq
    rw [add_mul] at hm
    omega
  obtain ⟨_, _, h3⟩ := foldl_butterfly hpos (nodup_stageIndices _ _) (stageIndices_disjoint hpos) x
  rw [butterflyStage_eq]
  apply h3 p
  · intro hin
    have := hlt p hin
    omega
  · intro j hj e
    have := hlt j hj
    omega

end Loops

section Stages
variable {K : Type} [CommRing K]

/-- What the array holds before the stage with stride `2 ^ s`: every block of `2 ^ s` elements below
    `b * 2 ^ s` has been multiplied by the matrix, and the rest is unchanged. -/
def Partial (s b : Nat) (x y : Nat → K) : Prop :=
  (∀ q < b, ∀ r < 2 ^ s, y (q * 2 ^ s + r) = sylvesterMul s (fun j => x (q * 2 ^ s + j)) r) ∧
  (∀ p, b * 2 ^ s ≤ p → y p = x p)

lemma Partial.zero (b : Nat) (x : Nat → K) : Partial 0 b x x := by
  refine ⟨fun q _ r hr => ?_, fun _ _ => rfl⟩
  have h0 : r = 0 := by omega
  subst h0
  simp [sylvesterMul, sylvester]

/-- One stage doubles the blocks. -/
theorem Partial.stage {s b : Nat} {x y : Nat → K} (h : Partial s (2 * b) x y) :
    Partial (s + 1) b x (butterflyStage (b * 2 ^ (s + 1)) (2 ^ s) y) := by
  have hpow : (2 : Nat) ^ (s + 1) = 2 * 2 ^ s := by rw [pow_succ, mul_comm]
  obtain ⟨hin, hout⟩ := h
  have hblock : ∀ q, q * (2 * 2 ^ s) = 2 * q * 2 ^ s := fun q => by ring
  have hnext : ∀ q, q * (2 * 2 ^ s) + 2 ^ s = (2 * q + 1) * 2 ^ s := fun q => by ring
  refine ⟨fun q hq r hr => ?_, fun p hp => ?_⟩
  · -- the two halves of block `q` are the blocks `2 * q` and `2 * q + 1` of the stage before
    have hfst : ∀ r < 2 ^ s, y (q * (2 * 2 ^ s) + r)
        = sylvesterMul s (fun j => x (q * (2 * 2 ^ s) + j)) r := by
      intro r hr
      rw [hblock]
      exact hin (2 * q) (by omega) r hr
    have hsnd : ∀ r < 2 ^ s, y (q * (2 * 2 ^ s) + 2 ^ s + r)
        = sylvesterMul s (fun j => x (q * (2 * 2 ^ s) + (2 ^ s + j))) r := by
      intro r hr
      have e : (fun j => x (q * (2 * 2 ^ s) + (2 ^ s + j))) = fun j => x ((2 * q + 1) * 2 ^ s + j) := by
        funext j
        rw [← add_assoc, hnext]
      rw [hnext, e]
      exact hin (2 * q + 1) (by omega) r hr
    rw [hpow]
    rcases lt_or_ge r (2 ^ s) with hlt | hge
    · rw [(butterflyStage_block hq hlt y).1, hfst r hlt, hsnd r hlt, sylvesterMul_low hlt]
    · obtain ⟨r', rfl⟩ := Nat.exists_eq_add_of_le hge
      have hr' : r' < 2 ^ s := by omega
      rw [← add_assoc, (butterflyStage_block hq hr' y).2, hfst r' hr', hsnd r' hr', sylvesterMul_high hr']
  · rw [hpow] at hp ⊢
    rw [butterflyStage_of_le (Nat.two_pow_pos s) hp]
    apply hout
    rw [← hblock]
    exact hp

/-- The remaining stages, from stride `2 ^ s` to stride `2 ^ (s + d)`. -/
theorem Partial.loop {d s : Nat} {x y : Nat → K} (h : Partial s (2 ^ d) x y) :
    Partial (s + d) 1 x (butterflyLoop (2 ^ (s + d)) (2 ^ s) y) := by
  induction d generalizing s y with
  | zero =>
    rw [butterflyLoop, dif_neg (fun hlt => absurd hlt.2 (lt_irrefl _))]
    exact h
  | succ d ih =>
    have hlt : (2 : Nat) ^ s < 2 ^ (s + (d + 1)) := Nat.pow_lt_pow_right (by omega) (by omega)
    have hsize : (2 : Nat) ^ (s + (d + 1)) = 2 ^ d * 2 ^ (s + 1) := by rw [← pow_add]; congr 1; omega
    have hidx : s + (d + 1) = s + 1 + d := by omega
    have hstep : Partial (s + 1) (2 ^ d) x (butterflyStage (2 ^ (s + (d + 1))) (2 ^ s) y) := by
      rw [hsize]
      apply Partial.stage
      rw [← Nat.pow_succ']
      exact h
    rw [butterflyLoop, dif_pos ⟨Nat.two_pow_pos s, hlt⟩, ← pow_succ, hidx] at *
    exact ih hstep

/-- The butterfly loops multiply the first `2 ^ t` elements by the Sylvester-Hadamard matrix. -/
theorem butterflyLoop_eq (t : Nat) (x : Nat → K) :
    (∀ i < 2 ^ t, butterflyLoop (2 ^ t) 1 x i = sylvesterMul t x i) ∧
    (∀ i, 2 ^ t ≤ i → butterflyLoop (2 ^ t) 1 x i = x i) := by
  have h := (Partial.zero (2 ^ t) x).loop
  rw [zero_add, pow_zero] at h
  obtain ⟨hin, hout⟩ := h
  refine ⟨fun i hi => ?_, fun i hi => hout i (by rwa [one_mul])⟩
  have hi0 := hin 0 (by omega) i hi
  simpa only [zero_mul, zero_add] using hi0

end Stages

end Mallana.Lib
