import Mathlib.Tactic.Linarith
import Mallana.Turbo.Block

/-!
# The CUDA search for the nearest centroid

The thresholds of the CUDA kernels and the codes that both backends write for a rotated group. A cascade
over sorted thresholds counts the thresholds that a value has reached, so two cascades agree on a value if
and only if the value is on the same side of each pair of thresholds (`firstBelow_eq_iff`). The 2-bit and
3-bit tables of the two backends are equal; the 4-bit tables differ in four thresholds, by one unit of the
last decimal.
-/

namespace Mallana.Turbo

open Lib List

/-- CUDA `TurboMid2Bit`. -/
def turboMid2Bit : List Rat := [-0.086728, 0, 0.086728].map binary32

/-- CUDA `TurboMid3Bit`. -/
def turboMid3Bit : List Rat :=
  [-0.154259, -0.091775, -0.043589, 0, 0.043589, 0.091775, 0.154259].map binary32

/-- CUDA `TurboMid4Bit`. -/
def turboMid4Bit : List Rat :=
  [-0.145561, -0.103361, -0.079142, -0.060009, -0.043430, -0.028293, -0.013964, 0,
   0.013964, 0.028293, 0.043430, 0.060009, 0.079142, 0.103361, 0.145561].map binary32

section Search
variable {K : Type} [RatCast K] [LT K] [DecidableLT K]

/-- CUDA `turbo_nearest_centroid_2bit`. -/
def turboNearestCentroid2bit (val : K) : Nat := firstBelow turboMid2Bit val

/-- CUDA `turbo_nearest_centroid_3bit`. -/
def turboNearestCentroid3bit (val : K) : Nat := firstBelow turboMid3Bit val

/-- CUDA `turbo_nearest_centroid_4bit`. -/
def turboNearestCentroid4bit (val : K) : Nat := firstBelow turboMid4Bit val

/-- CUDA `quantize_f32_turbo2_0_block`. -/
def quantizeF32Turbo2Block (src : Nat → K) (dst : BlockTurbo2 K) : BlockTurbo2 K :=
  dst.write fun j => turboNearestCentroid2bit (src j)

/-- CUDA `quantize_f32_turbo3_0_block`. -/
def quantizeF32Turbo3Block (src : Nat → K) (dst : BlockTurbo3 K) : BlockTurbo3 K :=
  dst.write fun j => turboNearestCentroid3bit (src j)

/-- CUDA `quantize_f32_turbo4_0_block`. -/
def quantizeF32Turbo4Block (src : Nat → K) (dst : BlockTurbo4 K) : BlockTurbo4 K :=
  dst.write fun j => turboNearestCentroid4bit (src j)

end Search

/-- The three codebooks. -/
inductive Codebook where
  | bits2
  | bits3
  | bits4
deriving DecidableEq, Repr

namespace Codebook

def cpuIndex : Codebook → Rat → Nat
  | bits2 => nearestCentroid2bit
  | bits3 => nearestCentroid3bit
  | bits4 => nearestCentroid4bit

def cudaIndex : Codebook → Rat → Nat
  | bits2 => turboNearestCentroid2bit
  | bits3 => turboNearestCentroid3bit
  | bits4 => turboNearestCentroid4bit

/-- The bytes `qs` and `signs` that the CPU writes for a rotated group. -/
def cpuBytes (src : Nat → Rat) : Codebook → List (BitVec 8) × List (BitVec 8)
  | bits2 => ((BlockTurbo2.write (fun j => nearestCentroid2bit (src j)) ⟨(0 : Rat), []⟩).qs, [])
  | bits3 =>
      let blk := BlockTurbo3.write (fun j => nearestCentroid3bit (src j)) ⟨(0 : Rat), [], []⟩
      (blk.qs, blk.signs)
  | bits4 => ((BlockTurbo4.write (fun j => nearestCentroid4bit (src j)) ⟨(0 : Rat), 0, []⟩).qs, [])

/-- The bytes `qs` and `signs` that the CUDA kernels write for a rotated group. -/
def cudaBytes (src : Nat → Rat) : Codebook → List (BitVec 8) × List (BitVec 8)
  | bits2 => ((quantizeF32Turbo2Block src ⟨0, []⟩).qs, [])
  | bits3 =>
      let blk := quantizeF32Turbo3Block src ⟨0, [], []⟩
      (blk.qs, blk.signs)
  | bits4 => ((quantizeF32Turbo4Block src ⟨0, 0, []⟩).qs, [])

end Codebook

section Cascades
variable {a b : List Rat} {v : Rat}

lemma firstBelow_cons (m : Rat) (l : List Rat) :
    firstBelow (m :: l) v = if v < m then 0 else firstBelow l v + 1 := by
  rw [firstBelow, findIdx_cons, Rat.cast_id]
  by_cases h : v < m
  · simp only [h, decide_true, if_true, cond_true]
  · simp only [h, decide_false, if_false, cond_false]
    rfl

lemma firstBelow_of_lt (h : ∀ m ∈ a, v < m) : firstBelow a v = 0 := by
  cases a with
  | nil => rfl
  | cons m l => rw [firstBelow_cons, if_pos (h m mem_cons_self)]

/-- Two sorted cascades of the same length agree on a value if and only if it is on the same side of each
    pair of thresholds. -/
theorem firstBelow_eq_iff (ha : a.Pairwise (· ≤ ·)) (hb : b.Pairwise (· ≤ ·)) (hlen : a.length = b.length) :
    firstBelow a v = firstBelow b v ↔ List.Forall₂ (fun s t => (v < s ↔ v < t)) a b := by
  induction a generalizing b with
  | nil =>
    cases b with
    | nil => exact ⟨fun _ => .nil, fun _ => rfl⟩
    | cons t b => exact absurd hlen (by simp)
  | cons s a ih =>
    cases b with
    | nil => exact absurd hlen (by simp)
    | cons t b =>
      have hlen' : a.length = b.length := Nat.succ.inj hlen
      have hrec := ih ha.of_cons hb.of_cons hlen'
      rw [forall₂_cons, ← hrec, firstBelow_cons, firstBelow_cons]
      by_cases hs : v < s <;> by_cases ht : v < t
      · -- both stop at once, and all later thresholds are above the value
        have hva : ∀ m ∈ a, v < m := fun m hm => lt_of_lt_of_le hs (rel_of_pairwise_cons ha hm)
        have hvb : ∀ m ∈ b, v < m := fun m hm => lt_of_lt_of_le ht (rel_of_pairwise_cons hb hm)
        simp [hs, ht, firstBelow_of_lt hva, firstBelow_of_lt hvb]
      · simp [hs, ht]
      · simp [hs, ht]
      · simp [hs, ht]

end Cascades

/-- The values between a 4-bit threshold of the CPU and the one of the CUDA kernels. -/
def Disputed (v : Rat) : Prop :=
  (binary32 (-0.145561) ≤ v ∧ v < binary32 (-0.145560)) ∨ (binary32 (-0.013964) ≤ v ∧ v < binary32 (-0.013963)) ∨
    (binary32 0.013963 ≤ v ∧ v < binary32 0.013964) ∨ (binary32 0.145560 ≤ v ∧ v < binary32 0.145561)

/-- Both tables are sorted. -/
lemma sorted_mids : mids4bit.Pairwise (· ≤ ·) ∧ turboMid4Bit.Pairwise (· ≤ ·) := by
  constructor
  · decide +kernel
  · decide +kernel

section Sides
variable {s t v : Rat}

/-- A value is on the same side of two thresholds if it does not lie between them. -/
lemma same_side_iff (hst : s ≤ t) : (v < s ↔ v < t) ↔ ¬ (s ≤ v ∧ v < t) := by
  constructor
  · rintro hside ⟨hs, ht⟩
    exact absurd (hside.2 ht) (not_lt.2 hs)
  · intro hout
    refine ⟨fun hs => lt_of_lt_of_le hs hst, fun ht => ?_⟩
    by_contra hs
    exact hout ⟨not_lt.1 hs, ht⟩

lemma same_side_comm_iff (hst : s ≤ t) : (v < t ↔ v < s) ↔ ¬ (s ≤ v ∧ v < t) :=
  iff_comm.trans (same_side_iff hst)

end Sides

/-- The 4-bit searches agree except on the disputed values. -/
lemma nearest4bit_eq_iff (v : Rat) : nearestCentroid4bit v = turboNearestCentroid4bit v ↔ ¬ Disputed v := by
  rw [nearestCentroid4bit, turboNearestCentroid4bit, firstBelow_eq_iff sorted_mids.1 sorted_mids.2 rfl]
  have h1 : binary32 (-0.145561) ≤ binary32 (-0.145560) := by decide +kernel
  have h2 : binary32 (-0.013964) ≤ binary32 (-0.013963) := by decide +kernel
  have h3 : binary32 0.013963 ≤ binary32 0.013964 := by decide +kernel
  have h4 : binary32 0.145560 ≤ binary32 0.145561 := by decide +kernel
  simp only [mids4bit, turboMid4Bit, map_cons, map_nil, forall₂_cons, List.Forall₂.nil, iff_self, true_and,
    and_true, Disputed, not_or]
  rw [same_side_comm_iff h1, same_side_comm_iff h2, same_side_iff h3, same_side_iff h4]

/-- The two backends choose the same index, except for disputed values in the 4-bit codebook. -/
theorem Codebook.index_eq_iff (b : Codebook) (v : Rat) :
    b.cpuIndex v = b.cudaIndex v ↔ (b = .bits4 → ¬ Disputed v) := by
  cases b with
  | bits2 => exact ⟨fun _ h => absurd h Codebook.noConfusion, fun _ => rfl⟩
  | bits3 => exact ⟨fun _ h => absurd h Codebook.noConfusion, fun _ => rfl⟩
  | bits4 => exact (nearest4bit_eq_iff v).trans ⟨fun h _ => h, fun h => h rfl⟩

lemma nearest4bit_lt (v : Rat) : nearestCentroid4bit v < 2 ^ 4 ∧ turboNearestCentroid4bit v < 2 ^ 4 := by
  have h1 : firstBelow mids4bit v ≤ 15 := firstBelow_le mids4bit v
  have h2 : firstBelow turboMid4Bit v ≤ 15 := firstBelow_le turboMid4Bit v
  exact ⟨Nat.lt_succ_of_le h1, Nat.lt_succ_of_le h2⟩

lemma nibbles_eq_iff (src : Nat → Rat) : Codebook.bits4.cpuBytes src = Codebook.bits4.cudaBytes src ↔
      ∀ j < qkTurbo, nearestCentroid4bit (src j) = turboNearestCentroid4bit (src j) := by
  have hcpu : ∀ j, nearestCentroid4bit (src j) &&& 0xF = nearestCentroid4bit (src j) :=
    fun j => and_mask_eq 4 (nearest4bit_lt (src j)).1
  have hcuda : ∀ j, turboNearestCentroid4bit (src j) &&& 0xF = turboNearestCentroid4bit (src j) :=
    fun j => and_mask_eq 4 (nearest4bit_lt (src j)).2
  simp only [Codebook.cpuBytes, Codebook.cudaBytes, quantizeF32Turbo4Block, BlockTurbo4.write, Prod.mk.injEq,
    and_true, hcpu, hcuda]
  exact packFields_inj (by decide) (fun j _ => (nearest4bit_lt (src j)).1) (fun j _ => (nearest4bit_lt (src j)).2)
    (by decide)

/-- For every codebook, the two backends choose the same index for a value and write the same bytes for a
    rotated group if and only if the codebook is not the 4-bit one or no value is disputed. -/
theorem Codebook.backends_agree_iff (b : Codebook) :
    (∀ v, b.cpuIndex v = b.cudaIndex v ↔ (b = .bits4 → ¬ Disputed v)) ∧
    (∀ src, b.cpuBytes src = b.cudaBytes src ↔ (b = .bits4 → ∀ j < qkTurbo, ¬ Disputed (src j))) := by
  refine ⟨b.index_eq_iff, fun src => ?_⟩
  cases b with
  | bits2 => exact ⟨fun _ h => absurd h Codebook.noConfusion, fun _ => rfl⟩
  | bits3 => exact ⟨fun _ h => absurd h Codebook.noConfusion, fun _ => rfl⟩
  | bits4 =>
    rw [nibbles_eq_iff]
    constructor
    · intro h _ j hj
      exact (nearest4bit_eq_iff (src j)).1 (h j hj)
    · intro h j hj
      exact (nearest4bit_eq_iff (src j)).2 (h rfl j hj)

/-- The value -0.1455605 gets index 0 on the CPU and index 1 on CUDA, in every element of a group. -/
theorem Codebook.backends_differ : ¬ (∀ (b : Codebook) (v : Rat), b.cpuIndex v = b.cudaIndex v) ∧
    ¬ (∀ (b : Codebook) (src : Nat → Rat), b.cpuBytes src = b.cudaBytes src) ∧
    Codebook.bits4.cpuIndex (-0.1455605) = 0 ∧ Codebook.bits4.cudaIndex (-0.1455605) = 1 := by
  have hidx : Codebook.bits4.cpuIndex (-0.1455605) = 0 ∧ Codebook.bits4.cudaIndex (-0.1455605) = 1 := by
    decide +kernel
  refine ⟨fun h => ?_, fun h => ?_, hidx⟩
  · have hv := h .bits4 (-0.1455605)
    rw [hidx.1, hidx.2] at hv
    exact absurd hv (by decide)
  · have hv := (nibbles_eq_iff _).1 (h .bits4 fun _ => -0.1455605) 0 (by decide)
    have hcpu : nearestCentroid4bit (-0.1455605 : Rat) = 0 := hidx.1
    have hcuda : turboNearestCentroid4bit (-0.1455605 : Rat) = 1 := hidx.2
    rw [hcpu, hcuda] at hv
    exact absurd hv (by decide)

end Mallana.Turbo
