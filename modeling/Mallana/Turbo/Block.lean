import Mathlib.Algebra.Order.Field.Basic
import Mathlib.Algebra.Order.Field.Rat
import Mathlib.Data.Rat.Cast.Order
import Mathlib.Tactic.NormNum
import Mathlib.Tactic.IntervalCases
import Mallana.Lib.BitPack

/-!
# Turbo blocks

The three TurboQuant block types, their centroids, the search for the nearest centroid on the CPU and the
packing of the indices. A block holds 128 indices: 2 bits each in `qs`, for turbo3 with the third bit in
`signs`, and 4 bits each for turbo4 (`TURBO4_USE_4BIT`). The search is a cascade of comparisons with the
midpoints, which are literals of type `float` (`binary32`). `Format` is what the rows of the three types have in common, and `Format.Lawful` says that the
indices of a block are read back as they were written.
-/

namespace Mallana.Turbo

open Lib List

/-- The cascade `if (val < mids[0]) return 0; if (val < mids[1]) return 1; …`. -/
def firstBelow {K : Type} [RatCast K] [LT K] [DecidableLT K] (mids : List Rat) (val : K) : Nat :=
  mids.findIdx fun (m : Rat) => decide (val < (m : K))

/-- How often a magnitude can be doubled below `2 ^ 24`, at most `fuel` times. -/
def doublings : Nat → Rat → Nat
  | 0, _ => 0
  | fuel + 1, q => if 2 * q < 2 ^ 24 then doublings fuel (2 * q) + 1 else 0

/-- The nearest integer, and the even one of two. -/
def roundEven (q : Rat) : Int :=
  if q - q.floor < 1 / 2 then q.floor
  else if 1 / 2 < q - q.floor then q.floor + 1
  else if q.floor % 2 = 0 then q.floor else q.floor + 1

/-- The value of a literal of type `float` below `2 ^ 24`: 24 bits of precision, and the unit `2 ^ -149` at least. -/
def binary32 (q : Rat) : Rat := roundEven (q * 2 ^ doublings 149 |q|) / 2 ^ doublings 149 |q|

/-- Elements of a block (C++ `QK_TURBO2`, `QK_TURBO3`, `QK_TURBO4`). -/
abbrev qkTurbo : Nat := 128

/-- C++ `CENTROIDS_2BIT`. -/
def centroids2bit : List Rat := [-0.133462, -0.039994, 0.039994, 0.133462]

/-- C++ `CENTROIDS_3BIT`. -/
def centroids3bit : List Rat :=
  [-0.190685, -0.117832, -0.065717, -0.021460, 0.021460, 0.065717, 0.117832, 0.190685]

/-- C++ `CENTROIDS_4BIT`. -/
def centroids4bit : List Rat :=
  [-0.173926, -0.117195, -0.089527, -0.068756, -0.051262, -0.035597, -0.020989, -0.006938,
   0.006938, 0.020989, 0.035597, 0.051262, 0.068756, 0.089527, 0.117195, 0.173926]

section Nearest
variable {K : Type} [RatCast K] [LT K] [DecidableLT K]

/-- The thresholds of `nearest_centroid_2bit`. -/
def mids2bit : List Rat := [-0.086728, 0, 0.086728].map binary32

/-- The thresholds of `nearest_centroid_3bit`. -/
def mids3bit : List Rat :=
  [-0.154259, -0.091775, -0.043589, 0, 0.043589, 0.091775, 0.154259].map binary32

/-- The thresholds of `nearest_centroid_4bit`. -/
def mids4bit : List Rat :=
  [-0.145560, -0.103361, -0.079142, -0.060009, -0.043430, -0.028293, -0.013963, 0,
   0.013963, 0.028293, 0.043430, 0.060009, 0.079142, 0.103361, 0.145560].map binary32

/-- C++ `nearest_centroid_2bit`. -/
def nearestCentroid2bit (val : K) : Nat := firstBelow mids2bit val

/-- C++ `nearest_centroid_3bit`. -/
def nearestCentroid3bit (val : K) : Nat := firstBelow mids3bit val

/-- C++ `nearest_centroid_4bit`. -/
def nearestCentroid4bit (val : K) : Nat := firstBelow mids4bit val

lemma firstBelow_le (mids : List Rat) (val : K) : firstBelow mids val ≤ mids.length := findIdx_le_length

end Nearest

/-- C++ `block_turbo2_0`. -/
structure BlockTurbo2 (K : Type) where
  norm : K
  qs : List (BitVec 8)

/-- C++ `block_turbo3_0`. -/
structure BlockTurbo3 (K : Type) where
  norm : K
  qs : List (BitVec 8)
  signs : List (BitVec 8)

/-- C++ `block_turbo4_0` with 4-bit indices. -/
structure BlockTurbo4 (K : Type) where
  norm : K
  rnorm : K
  qs : List (BitVec 8)

section Blocks
variable {K : Type}

/-- The loop `qs[j / 4] |= (idx & 0x3) << ((j % 4) * 2)` after the `memset`. -/
def BlockTurbo2.write (idx : Nat → Nat) (blk : BlockTurbo2 K) : BlockTurbo2 K :=
  { blk with qs := packFields 2 4 (qkTurbo / 4) (fun j => idx j &&& 0x3) qkTurbo }

/-- `(qs[j/4] >> ((j%4)*2)) & 0x3`. -/
def BlockTurbo2.read (blk : BlockTurbo2 K) (j : Nat) : Nat := field 2 4 blk.qs j

/-- The loop `if (idx & 0x4) signs[j / 8] |= (1 << (j % 8))` after the `memset`. -/
def packSigns (idx : Nat → Nat) (n : Nat) : List (BitVec 8) :=
  (List.range n).foldl
    (fun signs j => if idx j &&& 0x4 ≠ 0 then orField 1 8 signs j 1 else signs)
    (List.replicate (qkTurbo / 8) 0)

/-- The low two bits of the indices go to `qs`, the third one to `signs`. -/
def BlockTurbo3.write (idx : Nat → Nat) (blk : BlockTurbo3 K) : BlockTurbo3 K :=
  { blk with
    qs := packFields 2 4 (qkTurbo / 4) (fun j => idx j &&& 0x3) qkTurbo
    signs := packSigns idx qkTurbo }

/-- `low2 | (hi1 << 2)`. -/
def BlockTurbo3.read (blk : BlockTurbo3 K) (j : Nat) : Nat :=
  let low2 := field 2 4 blk.qs j
  let hi1 := field 1 8 blk.signs j
  low2 ||| (hi1 <<< 2)

/-- The loop `qs[i / 2] |= (indices[i] & 0xF) << ((i % 2) * 4)` after the `memset`. -/
def BlockTurbo4.write (idx : Nat → Nat) (blk : BlockTurbo4 K) : BlockTurbo4 K :=
  { blk with qs := packFields 4 2 (qkTurbo / 2) (fun j => idx j &&& 0xF) qkTurbo }

/-- `(qs[i / 2] >> ((i % 2) * 4)) & 0xF`. -/
def BlockTurbo4.read (blk : BlockTurbo4 K) (j : Nat) : Nat := field 4 2 blk.qs j

lemma and_mask_lt (width v : Nat) : v &&& (2 ^ width - 1) < 2 ^ width := by
  rw [Nat.and_two_pow_sub_one_eq_mod]
  exact Nat.mod_lt _ (Nat.two_pow_pos width)

lemma and_mask_eq (width : Nat) {v : Nat} (h : v < 2 ^ width) : v &&& (2 ^ width - 1) = v := by
  rw [Nat.and_two_pow_sub_one_eq_mod, Nat.mod_eq_of_lt h]

lemma packSigns_eq (idx : Nat → Nat) (n : Nat) :
    packSigns idx n = packFields 1 8 (qkTurbo / 8) (fun j => if idx j &&& 0x4 ≠ 0 then 1 else 0) n := by
  induction n with
  | zero => rfl
  | succ n ih =>
    have hsucc : packSigns idx (n + 1)
        = if idx n &&& 0x4 ≠ 0 then orField 1 8 (packSigns idx n) n 1 else packSigns idx n := by
      rw [packSigns, range_succ, foldl_append]
      rfl
    rw [hsucc, packFields_succ, ← ih]
    split
    · rfl
    · have hzero : ((· ||| BitVec.ofNat 8 0 <<< (n % 8 * 1)) : BitVec 8 → BitVec 8) = id := by
        funext b
        simp
      rw [orField, hzero, modify_id]

variable {idx : Nat → Nat} {j : Nat}

lemma BlockTurbo2.read_write (hidx : ∀ j < qkTurbo, idx j < 4) (blk : BlockTurbo2 K) (norm : K) (hj : j < qkTurbo) : BlockTurbo2.read { blk.write idx with norm := norm } j = idx j := by
  rw [BlockTurbo2.read, BlockTurbo2.write]
  have hlt : ∀ i < qkTurbo, idx i &&& 0x3 < 2 ^ 2 := fun i _ => and_mask_lt 2 (idx i)
  simp only []
  rw [field_packFields (by decide) hlt (by decide) hj]
  exact and_mask_eq 2 (hidx j hj)

lemma BlockTurbo4.read_write (hidx : ∀ j < qkTurbo, idx j < 16) (blk : BlockTurbo4 K) (norm : K) (hj : j < qkTurbo) : BlockTurbo4.read { blk.write idx with norm := norm } j = idx j := by
  rw [BlockTurbo4.read, BlockTurbo4.write]
  have hlt : ∀ i < qkTurbo, idx i &&& 0xF < 2 ^ 4 := fun i _ => and_mask_lt 4 (idx i)
  simp only []
  rw [field_packFields (by decide) hlt (by decide) hj]
  exact and_mask_eq 4 (hidx j hj)

lemma join_bits : ∀ v < 8, (v &&& 3) ||| ((if v &&& 4 ≠ 0 then 1 else 0) <<< 2) = v := by decide

lemma BlockTurbo3.read_write (hidx : ∀ j < qkTurbo, idx j < 8) (blk : BlockTurbo3 K) (norm : K) (hj : j < qkTurbo) : BlockTurbo3.read { blk.write idx with norm := norm } j = idx j := by
  have hlow : ∀ i < qkTurbo, idx i &&& 0x3 < 2 ^ 2 := fun i _ => and_mask_lt 2 (idx i)
  have hsign : ∀ i < qkTurbo, (if idx i &&& 0x4 ≠ 0 then 1 else 0) < 2 ^ 1 := by
    intro i _
    split <;> decide
  rw [BlockTurbo3.read, BlockTurbo3.write]
  simp only []
  rw [packSigns_eq, field_packFields (by decide) hlow (by decide) hj,
    field_packFields (by decide) hsign (by decide) hj]
  exact join_bits (idx j) (hidx j hj)

end Blocks

/-- What the rows of a type need of its blocks. -/
structure Format (K B : Type) where
  nearest : K → Nat
  centroids : List Rat
  write : (Nat → Nat) → B → B
  read : B → Nat → Nat
  setNorm : K → B → B
  norm : B → K

/-- The indices and the norm of a block are read back, the search finds an index of a centroid, and no
    centroid is as small as the threshold of the norms. -/
structure Format.Lawful {K B : Type} (F : Format K B) : Prop where
  nearest_lt : ∀ val, F.nearest val < F.centroids.length
  read_write : ∀ idx blk norm, (∀ j < qkTurbo, idx j < F.centroids.length) →
    ∀ j < qkTurbo, F.read (F.setNorm norm (F.write idx blk)) j = idx j
  norm_setNorm : ∀ norm blk, F.norm (F.setNorm norm blk) = norm
  centroid_far : ∀ c ∈ F.centroids, (1e-10 : Rat) ^ 2 < c * c

section Formats
variable {K : Type} [RatCast K] [LT K] [DecidableLT K]

/-- `GGML_TYPE_TURBO2_0`. -/
def turbo2 : Format K (BlockTurbo2 K) where
  nearest := nearestCentroid2bit
  centroids := centroids2bit
  write := BlockTurbo2.write
  read := BlockTurbo2.read
  setNorm norm blk := { blk with norm := norm }
  norm := BlockTurbo2.norm

/-- `GGML_TYPE_TURBO3_0`. -/
def turbo3 : Format K (BlockTurbo3 K) where
  nearest := nearestCentroid3bit
  centroids := centroids3bit
  write := BlockTurbo3.write
  read := BlockTurbo3.read
  setNorm norm blk := { blk with norm := norm }
  norm := BlockTurbo3.norm

/-- `GGML_TYPE_TURBO4_0`. -/
def turbo4 : Format K (BlockTurbo4 K) where
  nearest := nearestCentroid4bit
  centroids := centroids4bit
  write := BlockTurbo4.write
  read := BlockTurbo4.read
  setNorm norm blk := { blk with norm := norm }
  norm := BlockTurbo4.norm

lemma centroids2bit_far : ∀ c ∈ centroids2bit, (1e-10 : Rat) ^ 2 < c * c := by
  simp only [centroids2bit, forall_mem_cons, not_mem_nil, false_imp_iff, implies_true]
  norm_num

lemma turbo2_lawful : (turbo2 (K := K)).Lawful := by
  have hlen : (turbo2 (K := K)).centroids.length = 4 := rfl
  refine ⟨fun val => ?_, fun idx blk norm hidx j hj => ?_, fun _ _ => rfl, centroids2bit_far⟩
  · have hle : firstBelow mids2bit val ≤ 3 := firstBelow_le mids2bit val
    rw [hlen]
    exact Nat.lt_succ_of_le hle
  · rw [hlen] at hidx
    exact BlockTurbo2.read_write hidx blk norm hj

lemma centroids3bit_far : ∀ c ∈ centroids3bit, (1e-10 : Rat) ^ 2 < c * c := by
  simp only [centroids3bit, forall_mem_cons, not_mem_nil, false_imp_iff, implies_true]
  norm_num

lemma turbo3_lawful : (turbo3 (K := K)).Lawful := by
  have hlen : (turbo3 (K := K)).centroids.length = 8 := rfl
  refine ⟨fun val => ?_, fun idx blk norm hidx j hj => ?_, fun _ _ => rfl, centroids3bit_far⟩
  · have hle : firstBelow mids3bit val ≤ 7 := firstBelow_le mids3bit val
    rw [hlen]
    exact Nat.lt_succ_of_le hle
  · rw [hlen] at hidx
    exact BlockTurbo3.read_write hidx blk norm hj

lemma centroids4bit_far : ∀ c ∈ centroids4bit, (1e-10 : Rat) ^ 2 < c * c := by
  simp only [centroids4bit, forall_mem_cons, not_mem_nil, false_imp_iff, implies_true]
  norm_num

lemma turbo4_lawful : (turbo4 (K := K)).Lawful := by
  have hlen : (turbo4 (K := K)).centroids.length = 16 := rfl
  refine ⟨fun val => ?_, fun idx blk norm hidx j hj => ?_, fun _ _ => rfl, centroids4bit_far⟩
  · have hle : firstBelow mids4bit val ≤ 15 := firstBelow_le mids4bit val
    rw [hlen]
    exact Nat.lt_succ_of_le hle
  · rw [hlen] at hidx
    exact BlockTurbo4.read_write hidx blk norm hj

end Formats

end Mallana.Turbo
