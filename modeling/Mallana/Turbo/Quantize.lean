import Mathlib.Algebra.Order.BigOperators.Group.Finset
import Mathlib.Analysis.Real.Sqrt
import Mathlib.Tactic.FieldSimp
import Mathlib.Tactic.Linarith
import Mallana.Turbo.Block
import Mallana.Turbo.Wht

/-!
# Quantising rows

Model of `quantize_row_turbo2_0_ref`, `quantize_row_turbo3_0_ref`, `quantize_row_turbo4_0_ref` and of the
three `dequantize_row` functions, over an ordered field with square roots. In exact arithmetic every number is
finite, so the replacements of infinities and NaNs by zero in turbo4 never apply; the stored norm is exact.
The groups of turbo2 and turbo3 have the size that `ggml_turbo_set_cpu_wht_group_size` was given last, or
a default. A group of 64 has `64 / QK_TURBO3 = 0` blocks, so with that size nothing is written.

`IsQuantized` says what one block holds for a group of 128, and `Reconstructs` what the rows give back: each index
is read as it was written, and a dequantised group is `c * (‖x‖ / ‖c‖)`.
-/

namespace Mallana.Turbo

open Lib Finset List Function

/-- Square roots in an ordered field. -/
structure SquareRoot (K : Type) [Field K] [LinearOrder K] where
  sqrt : K → K
  nonneg : ∀ a, 0 ≤ sqrt a
  mul_self : ∀ a, 0 ≤ a → sqrt a * sqrt a = a

section Quantize
variable {K B : Type} [Field K] [LinearOrder K]

/-- The threshold `1e-10f` of the norms. -/
def tiny : K := ((1e-10 : Rat) : K)

/-- The accumulator `norm_sq` of a loop. -/
def normSq (v : Nat → K) (n : Nat) : K := (List.range n).foldl (fun acc j => acc + v j * v j) 0

/-- The Euclidean norm of `n` elements. -/
def l2norm (sq : SquareRoot K) (v : Nat → K) (n : Nat) : K := sq.sqrt (normSq v n)

/-- C++ `ggml_turbo_set_cpu_wht_group_size`: the value of `turbo3_cpu_wht_group_size` afterwards. -/
def setCpuWhtGroupSize (groupSize : Nat) : Nat := if groupSize = 64 ∨ groupSize = 128 then groupSize else 0

/-- The group size for a row of `k` elements. -/
def rowGroupSize (cpuWhtGroupSize k : Nat) : Nat :=
  let groupSize :=
    if cpuWhtGroupSize ≠ 64 ∧ cpuWhtGroupSize ≠ 128 then (if k % 128 = 0 then 128 else 64) else cpuWhtGroupSize
  if k % groupSize ≠ 0 then (if groupSize = 128 then 64 else 128) else groupSize

/-- The normalised and rotated group (C++ `buf`). -/
def rotatedGroup (sq : SquareRoot K) (invSqrt128 : K) (src : Nat → K) (groupSize : Nat) : Nat → K :=
  let grpNorm := l2norm sq src groupSize
  let invNorm := if tiny < grpNorm then 1 / grpNorm else 0
  turboCpuFwht invSqrt128 (fun j => src j * invNorm) groupSize

/-- The corrected norm: the norm of the group over the norm of its reconstruction. -/
def corrected (sq : SquareRoot K) (grpNorm reconSq : K) : K :=
  let reconNorm := sq.sqrt reconSq
  if tiny < reconNorm then grpNorm / reconNorm else grpNorm

namespace Format

def centroid (F : Format K B) (idx : Nat) : K := ((F.centroids.getD idx 0 : Rat) : K)

def quantizeGroup (F : Format K B) (sq : SquareRoot K) (invSqrt128 : K) (groupSize : Nat) (src : Nat → K)
    (base : Nat) (y : Nat → B) : Nat → B :=
  let buf := rotatedGroup sq invSqrt128 src groupSize
  let blocksPerGroup := groupSize / qkTurbo
  let y := (List.range blocksPerGroup).foldl
    (fun y b => Function.update y (base + b) (F.write (fun j => F.nearest (buf (b * qkTurbo + j))) (y (base + b)))) y
  let reconSq := (List.range blocksPerGroup).foldl
    (fun acc b => (List.range qkTurbo).foldl
      (fun acc j => acc + F.centroid (F.nearest (buf (b * qkTurbo + j))) * F.centroid (F.nearest (buf (b * qkTurbo + j)))) acc) 0
  let norm := corrected sq (l2norm sq src groupSize) reconSq
  (List.range blocksPerGroup).foldl (fun y b => Function.update y (base + b) (F.setNorm norm (y (base + b)))) y

/-- A row of turbo2 or turbo3: `k / groupSize` groups. -/
def quantizeRow (F : Format K B) (sq : SquareRoot K) (invSqrt128 : K) (cpuWhtGroupSize : Nat) (x : Nat → K)
    (y : Nat → B) (k : Nat) : Nat → B :=
  let groupSize := rowGroupSize cpuWhtGroupSize k
  let blocksPerGroup := groupSize / qkTurbo
  (List.range (k / groupSize)).foldl
    (fun y g => F.quantizeGroup sq invSqrt128 groupSize (fun j => x (g * groupSize + j)) (g * blocksPerGroup) y) y

/-- A row of any of the types: `y[block * 128 + j] = centroid * norm`. -/
def dequantizeRow (F : Format K B) (x : Nat → B) (y : Nat → K) (k : Nat) : Nat → K :=
  (List.range (k / qkTurbo)).foldl
    (fun y block => (List.range qkTurbo).foldl
      (fun y j => Function.update y (block * qkTurbo + j) (F.centroid (F.read (x block) j) * F.norm (x block))) y) y

end Format

/-- C++ `quantize_row_turbo2_0_ref`. -/
def quantizeRowTurbo2 (sq : SquareRoot K) (invSqrt128 : K) (cpuWhtGroupSize : Nat) (x : Nat → K)
    (y : Nat → BlockTurbo2 K) (k : Nat) : Nat → BlockTurbo2 K :=
  turbo2.quantizeRow sq invSqrt128 cpuWhtGroupSize x y k

/-- C++ `quantize_row_turbo3_0_ref`. -/
def quantizeRowTurbo3 (sq : SquareRoot K) (invSqrt128 : K) (cpuWhtGroupSize : Nat) (x : Nat → K)
    (y : Nat → BlockTurbo3 K) (k : Nat) : Nat → BlockTurbo3 K :=
  turbo3.quantizeRow sq invSqrt128 cpuWhtGroupSize x y k

/-- The body of the loop of `quantize_row_turbo4_0_ref`. -/
def quantizeBlockTurbo4 (sq : SquareRoot K) (invSqrt128 : K) (src : Nat → K) (blk : BlockTurbo4 K) : BlockTurbo4 K :=
  let norm := sq.sqrt (normSq src qkTurbo)
  let normalized := fun i => if tiny < norm then src i * (1 / norm) else 0
  let rotated := turboCpuFwht invSqrt128 normalized qkTurbo
  let indices := fun i => nearestCentroid4bit (rotated i)
  let reconNormSq := normSq (fun i => turbo4.centroid (indices i)) qkTurbo
  let blk := { blk with norm := corrected sq norm reconNormSq }
  { blk.write indices with rnorm := 0 }

/-- C++ `quantize_row_turbo4_0_ref`. -/
def quantizeRowTurbo4 (sq : SquareRoot K) (invSqrt128 : K) (x : Nat → K) (y : Nat → BlockTurbo4 K) (k : Nat) :
    Nat → BlockTurbo4 K :=
  (List.range (k / qkTurbo)).foldl
    (fun y block => Function.update y block
      (quantizeBlockTurbo4 sq invSqrt128 (fun i => x (block * qkTurbo + i)) (y block))) y

/-- The contract for the `k` elements of a row in groups of `groupSize`: for every group, each index that is
    read from the blocks is the one that was chosen for the rotated normalised element, the dequantised group
    is `c * (‖x‖ / ‖c‖)`, and a group whose norm is above the threshold keeps its norm. -/
def Reconstructs (F : Format K B) (sq : SquareRoot K) (invSqrt128 : K) (groupSize : Nat) (x : Nat → K) (k : Nat)
    (blocks : Nat → B) : Prop :=
  ∀ g < k / groupSize, ∀ (src c : Nat → K), (∀ j, src j = x (g * groupSize + j)) →
    (∀ j, c j = F.centroid (F.nearest (rotatedGroup sq invSqrt128 src groupSize j))) → ∀ y,
    (∀ j < groupSize, F.read (blocks ((g * groupSize + j) / qkTurbo)) ((g * groupSize + j) % qkTurbo)
      = F.nearest (rotatedGroup sq invSqrt128 src groupSize j)) ∧
    (∀ j < groupSize, F.dequantizeRow blocks y k (g * groupSize + j)
      = c j * (l2norm sq src groupSize / l2norm sq c groupSize)) ∧
    (tiny < l2norm sq src groupSize →
      l2norm sq (fun j => F.dequantizeRow blocks y k (g * groupSize + j)) groupSize = l2norm sq src groupSize)

/-- The three types. -/
inductive TurboType where
  | turbo2
  | turbo3
  | turbo4
deriving DecidableEq, Repr

/-- The contract of a type for a row of `k` elements, whatever the blocks held before; `groupSize` is what
    `ggml_turbo_set_cpu_wht_group_size` was called with. -/
def RowContract (sq : SquareRoot K) (invSqrt128 : K) (groupSize : Nat) (x : Nat → K) (k : Nat) : TurboType → Prop
  | .turbo2 => ∀ y, Reconstructs turbo2 sq invSqrt128 (rowGroupSize (setCpuWhtGroupSize groupSize) k) x k
      (quantizeRowTurbo2 sq invSqrt128 (setCpuWhtGroupSize groupSize) x y k)
  | .turbo3 => ∀ y, Reconstructs turbo3 sq invSqrt128 (rowGroupSize (setCpuWhtGroupSize groupSize) k) x k
      (quantizeRowTurbo3 sq invSqrt128 (setCpuWhtGroupSize groupSize) x y k)
  | .turbo4 => ∀ y, Reconstructs turbo4 sq invSqrt128 qkTurbo x k (quantizeRowTurbo4 sq invSqrt128 x y k)

variable (sq : SquareRoot K)

omit [LinearOrder K] in
lemma normSq_succ (v : Nat → K) (n : Nat) : normSq v (n + 1) = normSq v n + v n * v n := by
  rw [normSq, range_succ, foldl_append]
  rfl

omit [LinearOrder K] in
lemma normSq_congr {v w : Nat → K} {n : Nat} (h : ∀ j < n, v j = w j) : normSq v n = normSq w n := by
  induction n with
  | zero => rfl
  | succ n ih =>
    rw [normSq_succ, normSq_succ, ih (fun j hj => h j (Nat.lt_succ_of_lt hj)), h n (Nat.lt_succ_self n)]

omit [LinearOrder K] in
lemma normSq_smul (v : Nat → K) (a : K) (n : Nat) : normSq (fun j => v j * a) n = normSq v n * (a * a) := by
  induction n with
  | zero => simp [normSq]
  | succ n ih =>
    rw [normSq_succ, normSq_succ, ih]
    ring

variable [IsStrictOrderedRing K]

lemma normSq_nonneg (v : Nat → K) (n : Nat) : 0 ≤ normSq v n := by
  induction n with
  | zero => exact le_refl _
  | succ n ih =>
    rw [normSq_succ]
    exact add_nonneg ih (mul_self_nonneg _)

lemma le_normSq (v : Nat → K) {n j : Nat} (hj : j < n) : v j * v j ≤ normSq v n := by
  induction n with
  | zero => exact absurd hj (Nat.not_lt_zero _)
  | succ n ih =>
    rw [normSq_succ]
    rcases Nat.lt_succ_iff_lt_or_eq.1 hj with hlt | rfl
    · exact le_add_of_le_of_nonneg (ih hlt) (mul_self_nonneg _)
    · exact le_add_of_nonneg_left (normSq_nonneg v j)

lemma l2norm_mul_self (v : Nat → K) (n : Nat) : l2norm sq v n * l2norm sq v n = normSq v n :=
  sq.mul_self _ (normSq_nonneg v n)

omit [IsStrictOrderedRing K] in
lemma l2norm_nonneg (v : Nat → K) (n : Nat) : 0 ≤ l2norm sq v n := sq.nonneg _

lemma l2norm_smul (v : Nat → K) {a : K} (ha : 0 ≤ a) (n : Nat) :
    l2norm sq (fun j => v j * a) n = l2norm sq v n * a := by
  have hl := l2norm_mul_self sq (fun j => v j * a) n
  have hr := l2norm_mul_self sq v n
  rw [normSq_smul, ← hr] at hl
  apply (mul_self_inj (l2norm_nonneg sq _ n) (mul_nonneg (l2norm_nonneg sq v n) ha)).1
  rw [hl]
  ring

/-- What a block holds for the 128 elements of a group. -/
structure IsQuantized (F : Format K B) (sq : SquareRoot K) (invSqrt128 : K) (src : Nat → K) (blk : B) : Prop where
  read : ∀ j < qkTurbo, F.read blk j = F.nearest (rotatedGroup sq invSqrt128 src qkTurbo j)
  norm : F.norm blk = corrected sq (l2norm sq src qkTurbo)
    (normSq (fun j => F.centroid (F.nearest (rotatedGroup sq invSqrt128 src qkTurbo j))) qkTurbo)

section Block
variable {F : Format K B} {nu : K} {src : Nat → K} {blk : B}

lemma tiny_lt_recon (hF : F.Lawful) {c : Nat → K} (hc : ∀ j < qkTurbo, ∃ v, c j = F.centroid (F.nearest v)) :
    tiny < l2norm sq c qkTurbo := by
  obtain ⟨v, hv⟩ := hc 0 (by decide)
  have hidx := hF.nearest_lt v
  have hfar : (tiny : K) * tiny < c 0 * c 0 := by
    have h := hF.centroid_far _ (getElem_mem hidx)
    rw [pow_two] at h
    rw [hv, Format.centroid, getD_eq_getElem _ _ hidx, tiny, ← Rat.cast_mul, ← Rat.cast_mul]
    exact Rat.cast_lt.2 h
  have hle : c 0 * c 0 ≤ l2norm sq c qkTurbo * l2norm sq c qkTurbo := by
    rw [l2norm_mul_self]
    exact le_normSq c (by decide)
  rcases lt_or_ge tiny (l2norm sq c qkTurbo) with h | h
  · exact h
  · have htiny := mul_self_le_mul_self (l2norm_nonneg sq c qkTurbo) h
    exact absurd (lt_of_lt_of_le hfar (hle.trans htiny)) (lt_irrefl _)

lemma tiny_pos : (0 : K) < tiny := by
  rw [tiny, ← Rat.cast_zero]
  exact Rat.cast_lt.2 (by norm_num)

lemma IsQuantized.value (hF : F.Lawful) (h : IsQuantized F sq nu src blk) {c : Nat → K}
    (hc : ∀ j, c j = F.centroid (F.nearest (rotatedGroup sq nu src qkTurbo j))) {j : Nat} (hj : j < qkTurbo) :
    F.centroid (F.read blk j) * F.norm blk = c j * (l2norm sq src qkTurbo / l2norm sq c qkTurbo) := by
  have hfun : (fun j => F.centroid (F.nearest (rotatedGroup sq nu src qkTurbo j))) = c := funext fun j => (hc j).symm
  have hrecon : tiny < sq.sqrt (normSq c qkTurbo) := tiny_lt_recon sq hF (fun j _ => ⟨_, hc j⟩)
  rw [h.read j hj, ← hc j, h.norm, hfun, corrected, if_pos hrecon]
  rfl

lemma l2norm_scaled (hF : F.Lawful) {c : Nat → K} (hc : ∀ j < qkTurbo, ∃ v, c j = F.centroid (F.nearest v)) :
    l2norm sq (fun j => c j * (l2norm sq src qkTurbo / l2norm sq c qkTurbo)) qkTurbo = l2norm sq src qkTurbo := by
  have hpos : 0 < l2norm sq c qkTurbo := lt_trans tiny_pos (tiny_lt_recon sq hF hc)
  rw [l2norm_smul sq c (div_nonneg (l2norm_nonneg sq _ _) (l2norm_nonneg sq _ _))]
  exact mul_div_cancel₀ _ (ne_of_gt hpos)

end Block

section Rows
variable {F : Format K B} {nu : K} {x : Nat → K} {n : Nat} {blocks : Nat → B}

omit [LinearOrder K] [IsStrictOrderedRing K] in
lemma dequantizeRow_apply (blocks : Nat → B) {b j : Nat} (hb : b < n) (hj : j < qkTurbo) (y : Nat → K) :
    F.dequantizeRow blocks y (n * qkTurbo) (b * qkTurbo + j) = F.centroid (F.read (blocks b) j) * F.norm (blocks b) := by
  have hinner : ∀ (d : Nat → K) (b' : Nat), (List.range qkTurbo).foldl
      (fun y j => Function.update y (b' * qkTurbo + j) (F.centroid (F.read (blocks b') j) * F.norm (blocks b'))) d
        (b * qkTurbo + j)
      = if b' = b then F.centroid (F.read (blocks b) j) * F.norm (blocks b) else d (b * qkTurbo + j) := by
    intro d b'
    split
    · rename_i e
      subst e
      apply (foldl_write (P := fun i => i = j) ?_ ?_ d).1 ⟨j, List.mem_range.2 hj, rfl⟩
      · rintro d i _ rfl
        rw [update_self]
      · intro d i _ hne
        rw [update_of_ne (by omega)]
    · rename_i hne
      apply (foldl_write (P := fun _ => False) (v := 0) (fun _ _ _ h => h.elim) ?_ d).2 (fun _ _ h => h)
      intro d i hi _
      have hi' := List.mem_range.1 hi
      rw [update_of_ne]
      intro e
      exact hne (block_unique hj hi' e).1.symm
  have hcount : n * qkTurbo / qkTurbo = n := Nat.mul_div_cancel _ (by decide)
  rw [Format.dequantizeRow, hcount]
  apply (foldl_write (P := fun b' => b' = b) ?_ ?_ y).1 ⟨b, List.mem_range.2 hb, rfl⟩
  · intro d b' _ e
    rw [hinner, if_pos e]
  · intro d b' _ e
    rw [hinner, if_neg e]

/-- A row of quantised blocks meets the contract. -/
theorem reconstructs_of_quantized (hF : F.Lawful)
    (h : ∀ b < n, IsQuantized F sq nu (fun j => x (b * qkTurbo + j)) (blocks b)) :
    Reconstructs F sq nu qkTurbo x (n * qkTurbo) blocks := by
  intro g hg src c hsrc hc y
  have hcount : n * qkTurbo / qkTurbo = n := Nat.mul_div_cancel _ (by decide)
  rw [hcount] at hg
  have hfun : (fun j => x (g * qkTurbo + j)) = src := funext fun j => (hsrc j).symm
  have hblk := h g hg
  rw [hfun] at hblk
  have hvalue : ∀ j < qkTurbo, F.dequantizeRow blocks y (n * qkTurbo) (g * qkTurbo + j)
      = c j * (l2norm sq src qkTurbo / l2norm sq c qkTurbo) := by
    intro j hj
    rw [dequantizeRow_apply blocks hg hj y]
    exact hblk.value sq hF hc hj
  refine ⟨fun j hj => ?_, hvalue, fun _ => ?_⟩
  · have hdiv : (g * qkTurbo + j) / qkTurbo = g := by
      rw [mul_comm, Nat.mul_add_div (by decide), Nat.div_eq_of_lt hj, add_zero]
    have hmod : (g * qkTurbo + j) % qkTurbo = j := by
      rw [mul_comm, Nat.mul_add_mod, Nat.mod_eq_of_lt hj]
    rw [hdiv, hmod]
    exact hblk.read j hj
  · have hnorm : l2norm sq (fun j => F.dequantizeRow blocks y (n * qkTurbo) (g * qkTurbo + j)) qkTurbo
        = l2norm sq (fun j => c j * (l2norm sq src qkTurbo / l2norm sq c qkTurbo)) qkTurbo := by
      rw [l2norm, l2norm, normSq_congr hvalue]
    rw [hnorm]
    exact l2norm_scaled sq hF (fun j _ => ⟨_, hc j⟩)

end Rows

section Loops
variable {F : Format K B} {nu : K} {x src : Nat → K} {n : Nat} {y : Nat → B}

omit [IsStrictOrderedRing K] in
lemma quantizeGroup_self (hF : F.Lawful) (base : Nat) :
    IsQuantized F sq nu src (F.quantizeGroup sq nu qkTurbo src base y base) := by
  have hone : qkTurbo / qkTurbo = 1 := by decide
  have hlt : ∀ j < qkTurbo, F.nearest (rotatedGroup sq nu src qkTurbo j) < F.centroids.length :=
    fun j _ => hF.nearest_lt _
  simp only [Format.quantizeGroup, hone, List.range_one, foldl_cons, foldl_nil, add_zero,
    update_self, zero_mul, zero_add]
  refine ⟨fun j hj => ?_, ?_⟩
  · exact hF.read_write _ _ _ hlt j hj
  · rw [hF.norm_setNorm]
    rfl

omit [IsStrictOrderedRing K] in
lemma quantizeGroup_of_ne {base p : Nat} (hp : p ≠ base) : F.quantizeGroup sq nu qkTurbo src base y p = y p := by
  have hone : qkTurbo / qkTurbo = 1 := by decide
  simp only [Format.quantizeGroup, hone, List.range_one, foldl_cons, foldl_nil, add_zero]
  rw [update_of_ne hp, update_of_ne hp]

omit [IsStrictOrderedRing K] in
lemma quantizeRow_quantized (nu : K) (x : Nat → K) (y : Nat → B) (hF : F.Lawful) {w : Nat} (hw : rowGroupSize w (n * qkTurbo) = qkTurbo) {b : Nat} (hb : b < n) :
    IsQuantized F sq nu (fun j => x (b * qkTurbo + j)) (F.quantizeRow sq nu w x y (n * qkTurbo) b) := by
  have hcount : n * qkTurbo / qkTurbo = n := Nat.mul_div_cancel _ (by decide)
  have hone : qkTurbo / qkTurbo = 1 := by decide
  rw [Format.quantizeRow, hw, hcount, hone]
  apply (foldl_write_pred (P := fun g => g = b) ?_ ?_ y).1 ⟨b, List.mem_range.2 hb, rfl⟩
  · rintro d g _ rfl
    rw [mul_one]
    exact quantizeGroup_self sq hF g
  · intro d g _ hne
    rw [mul_one, quantizeGroup_of_ne sq (Ne.symm hne)]

omit [IsStrictOrderedRing K] in
lemma quantizeBlockTurbo4_quantized (src : Nat → K) (blk : BlockTurbo4 K) :
    IsQuantized turbo4 sq nu src (quantizeBlockTurbo4 sq nu src blk) := by
  have hbuf : (fun i => if tiny < sq.sqrt (normSq src qkTurbo) then src i * (1 / sq.sqrt (normSq src qkTurbo)) else 0)
      = fun j => src j * if tiny < l2norm sq src qkTurbo then 1 / l2norm sq src qkTurbo else 0 := by
    funext i
    rw [l2norm]
    split
    · rfl
    · rw [mul_zero]
  rw [quantizeBlockTurbo4, hbuf]
  refine ⟨fun j hj => ?_, rfl⟩
  have hlt : ∀ j < qkTurbo, nearestCentroid4bit (rotatedGroup sq nu src qkTurbo j) < 16 :=
    fun j _ => turbo4_lawful.nearest_lt (rotatedGroup sq nu src qkTurbo j)
  exact BlockTurbo4.read_write hlt blk (0 : K) hj

omit [IsStrictOrderedRing K] in
lemma quantizeRowTurbo4_quantized {y : Nat → BlockTurbo4 K} {b : Nat} (hb : b < n) :
    IsQuantized turbo4 sq nu (fun j => x (b * qkTurbo + j)) (quantizeRowTurbo4 sq nu x y (n * qkTurbo) b) := by
  have hcount : n * qkTurbo / qkTurbo = n := Nat.mul_div_cancel _ (by decide)
  rw [quantizeRowTurbo4, hcount]
  apply (foldl_write_pred (P := fun g => g = b) ?_ ?_ y).1 ⟨b, List.mem_range.2 hb, rfl⟩
  · rintro d g _ rfl
    rw [update_self]
    exact quantizeBlockTurbo4_quantized sq _ _
  · intro d g _ hne
    rw [update_of_ne (Ne.symm hne)]

lemma rowGroupSize_eq (gs n : Nat) :
    rowGroupSize (setCpuWhtGroupSize gs) (n * qkTurbo) = if gs = 64 then 64 else qkTurbo := by
  have h128 : n * 128 % 128 = 0 := Nat.mul_mod_left _ _
  have h64 : n * 128 % 64 = 0 := by omega
  rw [rowGroupSize, setCpuWhtGroupSize]
  by_cases e : gs = 64
  · subst e
    simp [h64]
  · by_cases e' : gs = 128
    · subst e'
      simp
    · simp [e, e']

omit [IsStrictOrderedRing K] in
lemma quantizeRow_sixtyFour {w : Nat} (hw : rowGroupSize w (n * qkTurbo) = 64) :
    F.quantizeRow sq nu w x y (n * qkTurbo) = y := by
  have hgroup : ∀ src base (y : Nat → B), F.quantizeGroup sq nu 64 src base y = y := fun _ _ _ => rfl
  rw [Format.quantizeRow, hw]
  simp only [hgroup]
  induction List.range (n * qkTurbo / 64) with
  | nil => rfl
  | cons g l ih => exact ih

lemma not_reconstructs (nu : K) (x : Nat → K) (hF : F.Lawful) (hn : 0 < n) (blk : B) :
    ∃ y : Nat → B, ¬ Reconstructs F sq nu 64 x (n * qkTurbo) y := by
  have hpos : 0 < F.centroids.length := lt_of_le_of_lt (Nat.zero_le _) (hF.nearest_lt 0)
  have hne : F.centroid 0 ≠ 0 := by
    intro e
    have hfar := hF.centroid_far _ (getElem_mem hpos)
    rw [Format.centroid, getD_eq_getElem _ _ hpos, Rat.cast_eq_zero] at e
    rw [e] at hfar
    norm_num at hfar
  obtain ⟨src, hsrc⟩ : ∃ src : Nat → K, ∀ j, src j = x (0 * 64 + j) := ⟨_, fun _ => rfl⟩
  obtain ⟨c, hc⟩ : ∃ c : Nat → K, ∀ j, c j = F.centroid (F.nearest (rotatedGroup sq nu src 64 j)) := ⟨_, fun _ => rfl⟩
  -- the first value that the contract asks for is missed by one centroid
  let norm := c 0 * (l2norm sq src 64 / l2norm sq c 64) / F.centroid 0 + 1
  refine ⟨fun _ => F.setNorm norm (F.write (fun _ => 0) blk), fun h => ?_⟩
  have hgroups : 0 < n * qkTurbo / 64 := by
    apply Nat.div_pos _ (by decide)
    show 64 ≤ n * 128
    omega
  have hval := (h 0 hgroups src c hsrc hc (fun _ => 0)).2.1 0 (by decide)
  have hread := hF.read_write (fun _ => 0) blk norm (fun _ _ => hpos) 0 (by decide)
  have happly := dequantizeRow_apply (F := F) (fun _ => F.setNorm norm (F.write (fun _ => 0) blk)) hn
    (show 0 < qkTurbo by decide) (fun _ => (0 : K))
  rw [zero_mul, add_zero] at hval happly
  rw [happly, hread, hF.norm_setNorm] at hval
  have hmiss : F.centroid 0 * norm = c 0 * (l2norm sq src 64 / l2norm sq c 64) + F.centroid 0 := by
    simp only [norm]
    rw [mul_add, mul_div_cancel₀ _ hne, mul_one]
  rw [hmiss, add_eq_left] at hval
  exact hne hval

lemma reconstructs_iff (hF : F.Lawful) (blk : B) (gs : Nat) :
    (∀ y : Nat → B, Reconstructs F sq nu (rowGroupSize (setCpuWhtGroupSize gs) (n * qkTurbo)) x (n * qkTurbo)
      (F.quantizeRow sq nu (setCpuWhtGroupSize gs) x y (n * qkTurbo))) ↔ gs ≠ 64 ∨ n = 0 := by
  have hsize := rowGroupSize_eq gs n
  by_cases e : gs = 64
  · rw [if_pos e] at hsize
    simp only [hsize, quantizeRow_sixtyFour sq hsize]
    constructor
    · intro h
      right
      rcases eq_zero_or_pos n with h0 | hpos
      · exact h0
      · obtain ⟨y, hy⟩ := not_reconstructs sq nu x hF hpos blk
        exact absurd (h y) hy
    · rintro (hne | rfl) y
      · exact absurd e hne
      · intro g hg
        rw [zero_mul, Nat.zero_div] at hg
        exact absurd hg (Nat.not_lt_zero _)
  · rw [if_neg e] at hsize
    constructor
    · exact fun _ => .inl e
    · intro _ y
      have hq := fun b (hb : b < n) => quantizeRow_quantized sq nu x y hF hsize hb
      rw [hsize]
      exact reconstructs_of_quantized sq hF hq

end Loops

/-- For every row of `n * 128` elements, the contract holds if and only if the type is turbo4, the group size
    that was set last is not 64, or the row is empty. -/
theorem rowContract_iff (nu : K) (gs n : Nat) (x : Nat → K) (type : TurboType) :
    RowContract sq nu gs x (n * qkTurbo) type ↔ type = .turbo4 ∨ gs ≠ 64 ∨ n = 0 := by
  cases type with
  | turbo2 =>
    refine (reconstructs_iff sq turbo2_lawful ⟨0, []⟩ gs).trans ⟨Or.inr, ?_⟩
    rintro (h | h)
    · exact absurd h TurboType.noConfusion
    · exact h
  | turbo3 =>
    refine (reconstructs_iff sq turbo3_lawful ⟨0, [], []⟩ gs).trans ⟨Or.inr, ?_⟩
    rintro (h | h)
    · exact absurd h TurboType.noConfusion
    · exact h
  | turbo4 =>
    refine ⟨fun _ => .inl rfl, fun _ y => ?_⟩
    exact reconstructs_of_quantized sq turbo4_lawful fun b hb => quantizeRowTurbo4_quantized sq hb

end Quantize

noncomputable def realRoot : SquareRoot Real where
  sqrt := Real.sqrt
  nonneg := Real.sqrt_nonneg
  mul_self _ h := Real.mul_self_sqrt h

/-- A row of 256 reals in turbo3, with groups of 128. -/
theorem rowContract_two_groups : RowContract realRoot (Real.sqrt 128)⁻¹ 128 (fun i => (i : Real)) (2 * qkTurbo) .turbo3 :=
  (rowContract_iff realRoot _ 128 2 _ .turbo3).2 (.inr (.inl (by decide)))

/-- With groups of 64, a row of 128 in turbo3 is not written. -/
theorem rowContract_sixtyFour : ¬ RowContract realRoot (Real.sqrt 128)⁻¹ 64 (fun i => (i : Real)) (1 * qkTurbo) .turbo3 := by
  intro h
  rcases (rowContract_iff realRoot _ 64 1 _ .turbo3).1 h with h | h | h
  · exact absurd h TurboType.noConfusion
  · exact h rfl
  · exact absurd h (by decide)

end Mallana.Turbo
