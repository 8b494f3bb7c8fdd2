import Mathlib.Analysis.SpecialFunctions.Trigonometric.Basic
import Mathlib.Tactic.LinearCombination
import Mallana.Turbo.Quantize

/-!
# K-shift of a turbo K cache

Model of `llama_kv_cache::build_rope_shift` for one row of the K cache and of the rotation of
`ggml_rope_ext`. A row is the `n_rot` elements of one head, whole groups of 128. The quantiser is taken as
lossless: a turbo row holds the rotated key, `dequantize` returns it as it is (`dequantize_row_turbo3_0`
stays in the rotated domain), and `quantize` rotates what it is given. The K-shift was written for types
where the two are inverse to each other; for a turbo type the key is rotated twice, with RoPE in between.

The cosines and sines of the RoPE cache are parameters, of which `unit` and `zero` are used.
-/

namespace Mallana.Turbo

open Lib Finset Function

/-- The RoPE types that the K-shift distinguishes. -/
inductive RopeType where
  | norm
  | neox
  | mrope
  | imrope
deriving DecidableEq, Repr

/-- The type that `build_rope_shift` uses: M-RoPE becomes NEOX. -/
def RopeType.shiftType : RopeType → RopeType
  | .mrope => .neox
  | .imrope => .neox
  | type => type

/-- The parameters of a `ggml_rope_ext` node over rows of `nRot` elements: cosine and sine of the angle of
    pair `i` at a position, and the magnitude scale. -/
structure Rope (K : Type) [Field K] where
  type : RopeType
  nRot : Nat
  cos : Int → Nat → K
  sin : Int → Nat → K
  mscale : K
  unit : ∀ pos i, cos pos i ^ 2 + sin pos i ^ 2 = 1
  zero : ∀ i, cos 0 i = 1 ∧ sin 0 i = 0

/-- How rows are stored: `to_float` and `from_float` of a type. -/
structure RowCodec (K : Type) where
  dequantize : (Nat → K) → Nat → K
  quantize : (Nat → K) → Nat → K

section Shift
variable {K : Type} [Field K]

/-- C++ `rotate_pairs`; the pair with index `i0` lies at `i0 / scale` and `i0 / scale + nOffset`. -/
def rotatePairs (n nOffset scale : Nat) (cache : Nat → K × K) (src dst : Nat → K) : Nat → K :=
  (List.range' 0 ((n + 1) / 2) 2).foldl
    (fun dst i0 =>
      let ic := i0 / scale
      let cosTheta := (cache i0).1
      let sinTheta := (cache i0).2
      let x0 := src ic
      let x1 := src (ic + nOffset)
      Function.update (Function.update dst ic (x0 * cosTheta - x1 * sinTheta)) (ic + nOffset)
        (x0 * sinTheta + x1 * cosTheta))
    dst

namespace Rope

/-- The entries of the cache for a position (C++ `rope_yarn`). -/
def cache (r : Rope K) (pos : Int) (i0 : Nat) : K × K :=
  (r.cos pos (i0 / 2) * r.mscale, r.sin pos (i0 / 2) * r.mscale)

/-- The distance of the two elements of a pair: neighbours for NORMAL, halves for NEOX. -/
def nOffset (r : Rope K) : Nat :=
  match r.type with
  | .norm => 1
  | _ => r.nRot / 2

/-- The argument `scale` of `rotate_pairs`. -/
def scale (r : Rope K) : Nat :=
  match r.type with
  | .norm => 1
  | _ => 2

/-- A row of `ggml_rope_ext`. -/
def ext (r : Rope K) (pos : Int) (src : Nat → K) : Nat → K :=
  rotatePairs r.nRot r.nOffset r.scale (r.cache pos) src src

def forShift (r : Rope K) : Rope K := { r with type := r.type.shiftType }

end Rope

/-- A row rotated in groups of 128 (the lossless `quantize_row_turbo`). -/
def whtRow (invSqrt128 : K) (x : Nat → K) (p : Nat) : K :=
  turboCpuFwht invSqrt128 (fun j => x (p / qkTurbo * qkTurbo + j)) qkTurbo (p % qkTurbo)

/-- The rows of a turbo type: rotated when they are written, not rotated back when they are read. -/
def TurboType.rows (invSqrt128 : K) : TurboType → RowCodec K
  | .turbo2 => ⟨id, whtRow invSqrt128⟩
  | .turbo3 => ⟨id, whtRow invSqrt128⟩
  | .turbo4 => ⟨id, whtRow invSqrt128⟩

/-- C++ `llama_kv_cache::build_rope_shift` for one row; `codec` is `none` for types that are not quantised. -/
def buildRopeShift (codec : Option (RowCodec K)) (r : Rope K) (shift : Int) (cur : Nat → K) : Nat → K :=
  match codec with
  | some c => c.quantize (r.forShift.ext shift (c.dequantize cur))
  | none => r.forShift.ext shift cur

namespace Rope
variable {r : Rope K} {pos : Int}

/-- The first place of pair `i`. -/
def fst (r : Rope K) (i : Nat) : Nat := 2 * i / r.scale

/-- The second place of pair `i`. -/
def snd (r : Rope K) (i : Nat) : Nat := r.fst i + r.nOffset

lemma layout_cases (r : Rope K) : (r.scale = 1 ∧ r.nOffset = 1) ∨ (r.scale = 2 ∧ r.nOffset = r.nRot / 2) := by
  cases e : r.type with
  | norm => exact .inl ⟨by rw [scale, e], by rw [nOffset, e]⟩
  | neox => exact .inr ⟨by rw [scale, e], by rw [nOffset, e]⟩
  | mrope => exact .inr ⟨by rw [scale, e], by rw [nOffset, e]⟩
  | imrope => exact .inr ⟨by rw [scale, e], by rw [nOffset, e]⟩

lemma pairs_disjoint {i i' : Nat} (hi : i < r.nRot / 2) (hi' : i' < r.nRot / 2) (hne : i' ≠ i) :
    r.fst i' ≠ r.fst i ∧ r.snd i' ≠ r.fst i ∧ r.fst i' ≠ r.snd i := by
  rcases layout_cases r with ⟨hs, ho⟩ | ⟨hs, ho⟩
  · simp only [fst, snd, hs, ho]
    omega
  · simp only [fst, snd, hs, ho]
    omega

lemma fst_ne_snd {i : Nat} (hi : i < r.nRot / 2) : r.fst i ≠ r.snd i := by
  have hpos : 0 < r.nOffset := by
    rcases layout_cases r with ⟨_, ho⟩ | ⟨_, ho⟩ <;> omega
  rw [snd]
  omega

section
variable (heven : r.nRot % 2 = 0)
include heven

lemma pair_cases {p : Nat} (hp : p < r.nRot) : ∃ i < r.nRot / 2, p = r.fst i ∨ p = r.snd i := by
  rcases layout_cases r with ⟨hs, ho⟩ | ⟨hs, ho⟩
  · refine ⟨p / 2, by omega, ?_⟩
    simp only [fst, snd, hs, ho]
    omega
  · rcases lt_or_ge p (r.nRot / 2) with hlt | hge
    · refine ⟨p, hlt, .inl ?_⟩
      simp only [fst, hs]
      omega
    · refine ⟨p - r.nRot / 2, by omega, .inr ?_⟩
      simp only [fst, snd, hs, ho]
      omega

lemma pair_lt {i : Nat} (hi : i < r.nRot / 2) : r.fst i < r.nRot ∧ r.snd i < r.nRot := by
  rcases layout_cases r with ⟨hs, ho⟩ | ⟨hs, ho⟩
  · simp only [fst, snd, hs, ho]
    omega
  · simp only [fst, snd, hs, ho]
    omega

/-- RoPE turns each pair by its angle and scales it. -/
theorem ext_pair (pos : Int) (x : Nat → K) {i : Nat} (hi : i < r.nRot / 2) :
    r.ext pos x (r.fst i) = r.mscale * (x (r.fst i) * r.cos pos i - x (r.snd i) * r.sin pos i) ∧
    r.ext pos x (r.snd i) = r.mscale * (x (r.fst i) * r.sin pos i + x (r.snd i) * r.cos pos i) := by
  have hcount : (r.nRot + 1) / 2 = r.nRot / 2 := by omega
  have hhalf : 2 * i / 2 = i := Nat.mul_div_cancel_left _ (by decide)
  have hmem : ∀ i0 ∈ List.range' 0 ((r.nRot + 1) / 2) 2, ∃ i' < r.nRot / 2, i0 = 2 * i' := by
    intro i0 h
    obtain ⟨i', hi', rfl⟩ := List.mem_range'.1 h
    exact ⟨i', hcount ▸ hi', zero_add _⟩
  have hin : 2 * i ∈ List.range' 0 ((r.nRot + 1) / 2) 2 :=
    List.mem_range'.2 ⟨i, hcount.symm ▸ hi, (zero_add _).symm⟩
  constructor
  · have hval : r.mscale * (x (r.fst i) * r.cos pos i - x (r.snd i) * r.sin pos i)
        = x (r.fst i) * (r.cache pos (2 * i)).1 - x (r.snd i) * (r.cache pos (2 * i)).2 := by
      simp only [cache, hhalf]
      ring
    rw [hval]
    apply (foldl_write (P := fun i0 => i0 = 2 * i) ?_ ?_ x).1 ⟨2 * i, hin, rfl⟩
    · rintro d i0 _ rfl
      exact (update_of_ne (fst_ne_snd hi) _ _).trans (update_self _ _ _)
    · intro d i0 h hni
      obtain ⟨i', hi', rfl⟩ := hmem i0 h
      obtain ⟨h1, h2, _⟩ := pairs_disjoint hi hi' (fun e => hni (by rw [e]))
      exact (update_of_ne (Ne.symm h2) _ _).trans (update_of_ne (Ne.symm h1) _ _)
  · have hval : r.mscale * (x (r.fst i) * r.sin pos i + x (r.snd i) * r.cos pos i)
        = x (r.fst i) * (r.cache pos (2 * i)).2 + x (r.snd i) * (r.cache pos (2 * i)).1 := by
      simp only [cache, hhalf]
      ring
    rw [hval]
    apply (foldl_write (P := fun i0 => i0 = 2 * i) ?_ ?_ x).1 ⟨2 * i, hin, rfl⟩
    · rintro d i0 _ rfl
      exact update_self _ _ _
    · intro d i0 h hni
      obtain ⟨i', hi', rfl⟩ := hmem i0 h
      obtain ⟨h1, _, h3⟩ := pairs_disjoint hi hi' (fun e => hni (by rw [e]))
      have h4 : r.snd i ≠ r.snd i' := fun e => h1 (add_right_cancel e).symm
      exact (update_of_ne h4 _ _).trans (update_of_ne (Ne.symm h3) _ _)

lemma ext_congr {x y : Nat → K} (h : ∀ p < r.nRot, x p = y p) : ∀ p < r.nRot, r.ext pos x p = r.ext pos y p := by
  intro p hp
  obtain ⟨i, hi, hpi⟩ := pair_cases heven hp
  obtain ⟨hf, hs⟩ := pair_lt heven hi
  obtain ⟨hx1, hx2⟩ := ext_pair heven pos x hi
  obtain ⟨hy1, hy2⟩ := ext_pair heven pos y hi
  rcases hpi with rfl | rfl
  · rw [hx1, hy1, h _ hf, h _ hs]
  · rw [hx2, hy2, h _ hf, h _ hs]

/-- RoPE with a magnitude is injective. -/
theorem ext_injective (hm : r.mscale ≠ 0) {x y : Nat → K}
    (h : ∀ p < r.nRot, r.ext pos x p = r.ext pos y p) : ∀ p < r.nRot, x p = y p := by
  intro p hp
  obtain ⟨i, hi, hpi⟩ := pair_cases heven hp
  obtain ⟨hf, hs⟩ := pair_lt heven hi
  obtain ⟨hx1, hx2⟩ := ext_pair heven pos x hi
  obtain ⟨hy1, hy2⟩ := ext_pair heven pos y hi
  have h1 := h _ hf
  have h2 := h _ hs
  rw [hx1, hy1] at h1
  rw [hx2, hy2] at h2
  have e1 := mul_left_cancel₀ hm h1
  have e2 := mul_left_cancel₀ hm h2
  have hu := r.unit pos i
  rcases hpi with rfl | rfl
  · -- the first element is the projection on the first column of the rotation
    have hsum : (r.cos pos i ^ 2 + r.sin pos i ^ 2) * x (r.fst i) = (r.cos pos i ^ 2 + r.sin pos i ^ 2) * y (r.fst i) := by
      linear_combination r.cos pos i * e1 + r.sin pos i * e2
    rwa [hu, one_mul, one_mul] at hsum
  · have hsum : (r.cos pos i ^ 2 + r.sin pos i ^ 2) * x (r.snd i) = (r.cos pos i ^ 2 + r.sin pos i ^ 2) * y (r.snd i) := by
      linear_combination r.cos pos i * e2 - r.sin pos i * e1
    rwa [hu, one_mul, one_mul] at hsum

lemma ext_zero_scale (hm : r.mscale = 0) (x : Nat → K) : ∀ p < r.nRot, r.ext pos x p = 0 := by
  intro p hp
  obtain ⟨i, hi, hpi⟩ := pair_cases heven hp
  obtain ⟨hx1, hx2⟩ := ext_pair heven pos x hi
  rcases hpi with rfl | rfl
  · rw [hx1, hm, zero_mul]
  · rw [hx2, hm, zero_mul]

lemma ext_zero (x : Nat → K) : ∀ p < r.nRot, r.ext 0 x p = r.mscale * x p := by
  intro p hp
  obtain ⟨i, hi, hpi⟩ := pair_cases heven hp
  obtain ⟨hx1, hx2⟩ := ext_pair heven 0 x hi
  obtain ⟨hc, hs⟩ := r.zero i
  rcases hpi with rfl | rfl
  · rw [hx1, hc, hs, mul_one, mul_zero, sub_zero]
  · rw [hx2, hc, hs, mul_one, mul_zero, zero_add]

end

end Rope

section Rows
variable {nu : K} {m : Nat} {x y : Nat → K}

lemma isWht_turboCpu (hnu : nu ^ 2 * 2 ^ 7 = 1) : IsWht 7 (signAt turboCpuS1) (signAt turboCpuS2) nu :=
  (codeWht_isometric (le_refl 7) hnu).wht

lemma whtRow_apply (nu : K) (x : Nat → K) (p : Nat) :
    whtRow nu x p = rotate (signAt turboCpuS1) (signAt turboCpuS2) nu (2 ^ 7)
      (fun j => x (p / qkTurbo * qkTurbo + j)) (p % qkTurbo) := rfl

lemma place_lt {p : Nat} (hp : p < m * qkTurbo) {j : Nat} (hj : j < 2 ^ 7) : p / qkTurbo * qkTurbo + j < m * qkTurbo := by
  have hq : p / qkTurbo < m := Nat.div_lt_of_lt_mul (by rwa [mul_comm])
  have hm : (p / qkTurbo + 1) * qkTurbo ≤ m * qkTurbo := Nat.mul_le_mul_right _ hq
  rw [add_mul, one_mul] at hm
  have : qkTurbo = 2 ^ 7 := rfl
  omega

lemma whtRow_congr (h : ∀ p < m * qkTurbo, x p = y p) : ∀ p < m * qkTurbo, whtRow nu x p = whtRow nu y p := by
  intro p hp
  rw [whtRow_apply, whtRow_apply]
  exact rotate_congr _ _ _ (fun j hj => h _ (place_lt hp hj)) (Nat.mod_lt _ (by decide))

/-- Rotating the rows is injective. -/
theorem whtRow_injective (hnu : nu ^ 2 * 2 ^ 7 = 1) (h : ∀ p < m * qkTurbo, whtRow nu x p = whtRow nu y p) :
    ∀ p < m * qkTurbo, x p = y p := by
  intro p hp
  have hmod : p % qkTurbo < 2 ^ 7 := Nat.mod_lt _ (by decide)
  have hgroup : ∀ j < 2 ^ 7, rotate (signAt turboCpuS1) (signAt turboCpuS2) nu (2 ^ 7) (fun j => x (p / qkTurbo * qkTurbo + j)) j
      = rotate (signAt turboCpuS1) (signAt turboCpuS2) nu (2 ^ 7) (fun j => y (p / qkTurbo * qkTurbo + j)) j := by
    intro j hj
    have hjq : j < qkTurbo := hj
    have hdiv : (p / qkTurbo * qkTurbo + j) / qkTurbo = p / qkTurbo := by
      rw [mul_comm, Nat.mul_add_div (by decide), Nat.div_eq_of_lt hjq, add_zero]
    have hmodj : (p / qkTurbo * qkTurbo + j) % qkTurbo = j := by
      rw [mul_comm, Nat.mul_add_mod, Nat.mod_eq_of_lt hjq]
    have hj' := h _ (place_lt hp hj)
    rwa [whtRow_apply, whtRow_apply, hdiv, hmodj] at hj'
  have hplace : p / qkTurbo * qkTurbo + p % qkTurbo = p := Nat.div_add_mod' p qkTurbo
  have hx := rotate_rotate (isWht_turboCpu hnu) (fun j => x (p / qkTurbo * qkTurbo + j)) hmod
  have hy := rotate_rotate (isWht_turboCpu hnu) (fun j => y (p / qkTurbo * qkTurbo + j)) hmod
  rw [rotate_congr _ _ _ hgroup hmod, hy, hplace] at hx
  exact hx.symm

end Rows

/-- For every key, every shift and every turbo type: the K-shift leaves the rotated image of the shifted key if
    and only if the key is its own rotation or RoPE has no magnitude; and with magnitude 1 a shift by 0 leaves
    the stored row as it was if and only if the key is its own rotation. -/
theorem buildRopeShift_iff {nu : K} (hnu : nu ^ 2 * 2 ^ 7 = 1) (r : Rope K) (m : Nat) (hrot : r.nRot = m * qkTurbo)
    (type : TurboType) (key : Nat → K) (shift : Int) :
    ((∀ p < r.nRot, buildRopeShift (some (type.rows nu)) r shift ((type.rows nu).quantize key) p
        = (type.rows nu).quantize (r.forShift.ext shift key) p)
      ↔ r.mscale = 0 ∨ ∀ p < r.nRot, whtRow nu key p = key p) ∧ (r.mscale = 1 →
      ((∀ p < r.nRot, buildRopeShift (some (type.rows nu)) r 0 ((type.rows nu).quantize key) p
          = (type.rows nu).quantize key p) ↔ ∀ p < r.nRot, whtRow nu key p = key p)) := by
  have hrows : type.rows nu = ⟨id, whtRow nu⟩ := by cases type <;> rfl
  have heven : r.forShift.nRot % 2 = 0 := by
    show r.nRot % 2 = 0
    rw [hrot]
    show m * 128 % 2 = 0
    omega
  rw [hrows]
  simp only [buildRopeShift, id]
  constructor
  · constructor
    · intro h
      rcases eq_or_ne r.mscale 0 with hm | hm
      · exact .inl hm
      · right
        rw [hrot] at h
        have hext := whtRow_injective hnu h
        rw [← hrot] at hext
        exact Rope.ext_injective (r := r.forShift) heven hm hext
    · intro h
      have hext : ∀ p < r.nRot, r.forShift.ext shift (whtRow nu key) p = r.forShift.ext shift key p := by
        rcases h with hm | hfix
        · intro p hp
          rw [Rope.ext_zero_scale (r := r.forShift) heven hm _ p hp, Rope.ext_zero_scale (r := r.forShift) heven hm _ p hp]
        · exact Rope.ext_congr (r := r.forShift) heven hfix
      rw [hrot] at hext ⊢
      exact whtRow_congr hext
  · intro hm
    have hzero : ∀ p < r.nRot, r.forShift.ext 0 (whtRow nu key) p = whtRow nu key p := by
      intro p hp
      have hscale : r.forShift.mscale = 1 := hm
      rw [Rope.ext_zero (r := r.forShift) heven _ p hp, hscale, one_mul]
    rw [hrot] at hzero ⊢
    constructor
    · intro h
      exact whtRow_injective hnu fun p hp => by rw [← whtRow_congr hzero p hp, h p hp]
    · intro h p hp
      rw [whtRow_congr hzero p hp]
      exact whtRow_congr h p hp

end Shift

/-- RoPE over the reals with the angle `pos * theta i` for pair `i`. -/
noncomputable def realRope (type : RopeType) (nRot : Nat) (theta : Nat → Real) : Rope Real where
  type := type
  nRot := nRot
  cos pos i := Real.cos (pos * theta i)
  sin pos i := Real.sin (pos * theta i)
  mscale := 1
  unit pos i := Real.cos_sq_add_sin_sq (pos * theta i)
  zero i := by
    rw [Int.cast_zero, zero_mul]
    exact ⟨Real.cos_zero, Real.sin_zero⟩

lemma inv_sqrt_normal : ((Real.sqrt 128)⁻¹ : Real) ^ 2 * 2 ^ 7 = 1 := by
  rw [inv_pow, Real.sq_sqrt (by norm_num)]
  norm_num

/-- A head of zeros is its own rotation and survives a shift. -/
theorem buildRopeShift_zero_key :
    (fun p => buildRopeShift (some (TurboType.turbo3.rows (Real.sqrt 128)⁻¹)) (realRope .neox 128 fun _ => 1) 5
        ((TurboType.turbo3.rows (Real.sqrt 128)⁻¹).quantize fun _ => 0) p) 7
      = (TurboType.turbo3.rows (Real.sqrt 128)⁻¹).quantize
          ((realRope .neox 128 fun _ => 1).forShift.ext 5 fun _ => 0) 7 := by
  refine (buildRopeShift_iff inv_sqrt_normal (realRope .neox 128 fun _ => 1) 1 rfl .turbo3 (fun _ => 0) 5).1.2
    (.inr fun p hp => ?_) 7 (by decide)
  have hlt : p % qkTurbo < 2 ^ 7 := Nat.mod_lt _ (by decide)
  rw [whtRow_apply, rotate_apply _ _ _ _ hlt]
  simp [sylvesterMul]

/-- A shift by 0 changes the stored row of the first unit vector. -/
theorem buildRopeShift_unit_key :
    ¬ ∀ p < 128, buildRopeShift (some (TurboType.turbo3.rows (Real.sqrt 128)⁻¹)) (realRope .neox 128 fun _ => 1) 0
        ((TurboType.turbo3.rows (Real.sqrt 128)⁻¹).quantize fun p => if p = 0 then 1 else 0) p
      = (TurboType.turbo3.rows (Real.sqrt 128)⁻¹).quantize
          ((realRope .neox 128 fun _ => 1).forShift.ext 0 fun p => if p = 0 then 1 else 0) p := by
  intro h
  have hiff := (buildRopeShift_iff inv_sqrt_normal (realRope .neox 128 fun _ => 1) 1 rfl .turbo3
    (fun p => if p = 0 then 1 else 0) 0).1.1 h
  rcases hiff with hm | hfix
  · exact one_ne_zero hm
  · have h1 := hfix 1 (by decide)
    have hsum : sylvesterMul 7 (fun j => (if 1 / qkTurbo * qkTurbo + j = 0 then (1 : Real) else 0) * signAt turboCpuS1 j) 1 = -1 := by
      rw [sylvesterMul, sum_eq_single 0]
      · have hs : (signAt turboCpuS1 0 : Real) = -1 := by
          rw [signAt]
          norm_num [turboCpuS1]
        have hsyl : sylvester 7 1 0 = 1 := by decide +kernel
        rw [hs, hsyl]
        norm_num [qkTurbo]
      · intro j _ hj
        have hne : 1 / qkTurbo * qkTurbo + j ≠ 0 := by omega
        rw [if_neg hne, zero_mul, mul_zero]
      · intro hn
        exact absurd (mem_range.2 (by decide)) hn
    have hsign : (signAt turboCpuS2 1 : Real) = 1 := by
      rw [signAt]
      norm_num [turboCpuS2]
    have hpos : 0 < (Real.sqrt 128)⁻¹ := inv_pos.2 (Real.sqrt_pos.2 (by norm_num))
    have hmod : 1 % qkTurbo = 1 := by decide
    have hlt : 1 < 2 ^ 7 := by decide
    rw [whtRow_apply, hmod, rotate_apply _ _ _ _ hlt, hsum, hsign, mul_one, if_neg one_ne_zero] at h1
    linarith

end Mallana.Turbo
