import Mathlib.Algebra.Field.Rat
import Mathlib.Data.List.GetD
import Mathlib.Tactic.NormNum
import Mallana.Lib.Hadamard
import Mallana.Lib.Scan

/-!
# The Walsh-Hadamard rotation

Model of `turbo_cpu_fwht`, of the graph operation `ggml_compute_forward_turbo_wht_f32` and of the sign
arrays of the CPU and CUDA backends, over an exact field `K`. Both rotations are signs, butterfly loops,
normalisation and signs; the direction of the operation exchanges the two sign arrays. The normaliser is
a parameter: the code has `0.08838834764831845f` or `1.0f / sqrtf(group_size)` for it. A buffer is a
function from the index.
-/

namespace Mallana.Turbo

open Lib Finset

/-- C++ `turbo_cpu_s1`. -/
def turboCpuS1 : List Int :=
  [-1, 1, 1, -1, -1, 1, -1, 1, -1, -1, 1, 1, 1, 1, 1, 1, 1, -1, 1, -1, 1, -1, -1, 1, 1, 1, -1, 1, 1, -1, -1, -1,
   -1, 1, 1, -1, 1, 1, -1, 1, -1, 1, 1, -1, -1, 1, -1, 1, 1, 1, 1, -1, -1, -1, -1, -1, 1, -1, 1, 1, 1, 1, -1, 1,
   -1, -1, 1, -1, -1, -1, 1, -1, -1, -1, 1, -1, -1, -1, 1, 1, 1, -1, -1, 1, 1, 1, -1, -1, 1, 1, -1, 1, 1, -1, 1, -1,
   -1, 1, 1, -1, 1, -1, 1, -1, 1, 1, 1, 1, -1, 1, -1, 1, 1, -1, 1, 1, -1, -1, -1, -1, -1, 1, 1, -1, 1, 1, -1, 1]

/-- C++ `turbo_cpu_s2`. -/
def turboCpuS2 : List Int :=
  [1, 1, 1, 1, -1, 1, 1, -1, 1, -1, -1, -1, 1, -1, -1, -1, 1, 1, -1, -1, 1, -1, 1, -1, 1, -1, -1, 1, -1, 1, 1, 1,
   1, 1, -1, -1, -1, 1, -1, -1, -1, -1, -1, -1, 1, 1, 1, -1, 1, -1, 1, 1, 1, -1, -1, 1, -1, -1, -1, -1, -1, -1, 1, 1,
   1, -1, 1, -1, -1, -1, -1, 1, -1, 1, -1, 1, -1, -1, 1, 1, -1, 1, -1, 1, 1, -1, 1, -1, -1, -1, -1, 1, -1, -1, 1, -1,
   1, -1, 1, 1, 1, -1, -1, 1, -1, 1, -1, 1, 1, -1, -1, 1, -1, 1, -1, 1, 1, -1, 1, -1, 1, -1, -1, -1, -1, -1, 1, -1]

/-- C++ `turbo_wht_s1` of the graph operation. -/
def turboWhtS1 : List Int :=
  [-1, 1, 1, -1, -1, 1, -1, 1, -1, -1, 1, 1, 1, 1, 1, 1, 1, -1, 1, -1, 1, -1, -1, 1, 1, 1, -1, 1, 1, -1, -1, -1,
   -1, 1, 1, -1, 1, 1, -1, 1, -1, 1, 1, -1, -1, 1, -1, 1, 1, 1, 1, -1, -1, -1, -1, -1, 1, -1, 1, 1, 1, 1, -1, 1,
   -1, -1, 1, -1, -1, -1, 1, -1, -1, -1, 1, -1, -1, -1, 1, 1, 1, -1, -1, 1, 1, 1, -1, -1, 1, 1, -1, 1, 1, -1, 1, -1,
   -1, 1, 1, -1, 1, -1, 1, -1, 1, 1, 1, 1, -1, 1, -1, 1, 1, -1, 1, 1, -1, -1, -1, -1, -1, 1, 1, -1, 1, 1, -1, 1]

/-- C++ `turbo_wht_s2` of the graph operation. -/
def turboWhtS2 : List Int :=
  [1, 1, 1, 1, -1, 1, 1, -1, 1, -1, -1, -1, 1, -1, -1, -1, 1, 1, -1, -1, 1, -1, 1, -1, 1, -1, -1, 1, -1, 1, 1, 1,
   1, 1, -1, -1, -1, 1, -1, -1, -1, -1, -1, -1, 1, 1, 1, -1, 1, -1, 1, 1, 1, -1, -1, 1, -1, -1, -1, -1, -1, -1, 1, 1,
   1, -1, 1, -1, -1, -1, -1, 1, -1, 1, -1, 1, -1, -1, 1, 1, -1, 1, -1, 1, 1, -1, 1, -1, -1, -1, -1, 1, -1, -1, 1, -1,
   1, -1, 1, 1, 1, -1, -1, 1, -1, 1, -1, 1, 1, -1, -1, 1, -1, 1, -1, 1, 1, -1, 1, -1, 1, -1, -1, -1, -1, -1, 1, -1]

/-- Entry `i` of a sign array. -/
def signAt {K : Type} [IntCast K] (s : List Int) (i : Nat) : K := (s.getD i 0 : Int)

section Rotation
variable {K : Type} [Field K]

/-- The loop `x[i] *= s[i]`. -/
def scaleBy (n : Nat) (s x : Nat → K) : Nat → K := fun i => if i < n then x i * s i else x i

/-- Signs, butterfly stages, then normalisation and the second signs. -/
def rotate (sFirst sSecond : Nat → K) (invSqrt : K) (n : Nat) (x : Nat → K) : Nat → K :=
  scaleBy n (fun i => invSqrt * sSecond i) (butterflyLoop n 1 (scaleBy n sFirst x))

/-- C++ `turbo_cpu_fwht`; `invSqrt128` is its constant for groups of 128. -/
def turboCpuFwht (invSqrt128 : K) (x : Nat → K) (groupSize : Nat) : Nat → K :=
  rotate (signAt turboCpuS1) (signAt turboCpuS2) (if groupSize = 128 then invSqrt128 else 1 / 8) groupSize x

/-- The two directions of the graph operation. -/
inductive Direction where
  | forward
  | inverse
deriving DecidableEq, Repr

/-- The parameters of a `GGML_OP_TURBO_WHT` node: the sign arrays, the normaliser, the group size and
    the InnerQ scales, if any. -/
structure WhtParams (K : Type) where
  s1 : Nat → K
  s2 : Nat → K
  invSqrt : K
  groupSize : Nat
  scaleInv : Option (Nat → K)

namespace WhtParams

/-- C++ `s_first`. -/
def sFirst (w : WhtParams K) : Direction → Nat → K
  | .forward => w.s1
  | .inverse => w.s2

/-- C++ `s_second`. -/
def sSecond (w : WhtParams K) : Direction → Nat → K
  | .forward => w.s2
  | .inverse => w.s1

def scaleIn (w : WhtParams K) (direction : Direction) (i : Nat) : K :=
  match direction, w.scaleInv with
  | .forward, some s => s (i % w.groupSize)
  | _, _ => 1

/-- The InnerQ scales that are applied after the second signs. -/
def scaleOut (w : WhtParams K) (direction : Direction) (i : Nat) : K :=
  match direction, w.scaleInv with
  | .inverse, some s => s (i % w.groupSize)
  | _, _ => 1

/-- What the operation computes for the elements of one group. -/
def group (w : WhtParams K) (direction : Direction) (x : Nat → K) (i : Nat) : K :=
  let x := scaleBy w.groupSize (w.scaleIn direction) x
  let x := scaleBy w.groupSize (w.sFirst direction) x
  let x := butterflyLoop w.groupSize 1 x
  x i * w.invSqrt * w.sSecond direction i * w.scaleOut direction i

/-- The loop body: group `g` is read from `src` and written to `dst`. -/
def writeGroup (w : WhtParams K) (direction : Direction) (headDim : Nat) (src : Nat → K) (dst : Nat → K) (g : Nat) : Nat → K :=
  let groupsPerHead := headDim / w.groupSize
  let base := g / groupsPerHead * headDim + g % groupsPerHead * w.groupSize
  fun p => if base ≤ p ∧ p < base + w.groupSize then w.group direction (fun i => src (base + i)) (p - base) else dst p

def copyTail (w : WhtParams K) (headDim : Nat) (src : Nat → K) (dst : Nat → K) (h : Nat) : Nat → K :=
  let base := h * headDim + headDim / w.groupSize * w.groupSize
  fun p => if base ≤ p ∧ p < base + headDim % w.groupSize then src p else dst p

/-- C++ `ggml_compute_forward_turbo_wht_f32` for thread `ith` of `nth`. -/
def computeForward (w : WhtParams K) (direction : Direction) (headDim nHeads ith nth : Nat) (src dst : Nat → K) : Nat → K :=
  let nGroups := headDim / w.groupSize * nHeads
  let grpStart := nGroups * ith / nth
  let grpEnd := nGroups * (ith + 1) / nth
  let dst := (List.range' grpStart (grpEnd - grpStart)).foldl (w.writeGroup direction headDim src) dst
  if 0 < headDim % w.groupSize ∧ ith = 0 then (List.range nHeads).foldl (w.copyTail headDim src) dst else dst

def turboWht (w : WhtParams K) (direction : Direction) (headDim nHeads nth : Nat) (src dst : Nat → K) : Nat → K :=
  (List.range nth).foldl (fun dst ith => w.computeForward direction headDim nHeads ith nth src dst) dst

end WhtParams

/-- A group in the order two, with signs and its normaliser. -/
structure IsWht (t : Nat) (s1 s2 : Nat → K) (invSqrt : K) : Prop where
  signs1 : ∀ i < 2 ^ t, s1 i = 1 ∨ s1 i = -1
  signs2 : ∀ i < 2 ^ t, s2 i = 1 ∨ s2 i = -1
  normal : invSqrt ^ 2 * 2 ^ t = 1

variable {t : Nat} {s1 s2 : Nat → K} {nu : K}

lemma IsWht.swap (h : IsWht t s1 s2 nu) : IsWht t s2 s1 nu := ⟨h.signs2, h.signs1, h.normal⟩

lemma sign_mul_self {a : K} (h : a = 1 ∨ a = -1) : a * a = 1 := by
  rcases h with rfl | rfl
  · exact one_mul 1
  · rw [neg_mul_neg, one_mul]

/-- A rotation is a product with the Sylvester-Hadamard matrix between the two sign vectors. -/
theorem rotate_apply (s1 s2 : Nat → K) (nu : K) (x : Nat → K) {i : Nat} (hi : i < 2 ^ t) :
    rotate s1 s2 nu (2 ^ t) x i = sylvesterMul t (fun j => x j * s1 j) i * (nu * s2 i) := by
  rw [rotate, scaleBy, if_pos hi, (butterflyLoop_eq t _).1 i hi]
  congr 1
  apply sylvesterMul_congr
  intro j hj
  rw [scaleBy, if_pos hj]

lemma rotate_congr (s1 s2 : Nat → K) (nu : K) {x y : Nat → K} (h : ∀ j < 2 ^ t, x j = y j) {i : Nat} (hi : i < 2 ^ t) :
    rotate s1 s2 nu (2 ^ t) x i = rotate s1 s2 nu (2 ^ t) y i := by
  rw [rotate_apply s1 s2 nu x hi, rotate_apply s1 s2 nu y hi]
  congr 1
  apply sylvesterMul_congr
  intro j hj
  rw [h j hj]

/-- The rotation with the sign vectors exchanged undoes a rotation. -/
theorem rotate_rotate (h : IsWht t s1 s2 nu) (x : Nat → K) {i : Nat} (hi : i < 2 ^ t) :
    rotate s2 s1 nu (2 ^ t) (rotate s1 s2 nu (2 ^ t) x) i = x i := by
  have hinner : ∀ j < 2 ^ t, rotate s1 s2 nu (2 ^ t) x j * s2 j
      = nu * sylvesterMul t (fun j => x j * s1 j) j := by
    intro j hj
    rw [rotate_apply s1 s2 nu x hj]
    calc sylvesterMul t (fun j => x j * s1 j) j * (nu * s2 j) * s2 j
        = nu * sylvesterMul t (fun j => x j * s1 j) j * (s2 j * s2 j) := by ring
      _ = nu * sylvesterMul t (fun j => x j * s1 j) j := by
          rw [sign_mul_self (h.signs2 j hj), mul_one]
  rw [rotate_apply s2 s1 nu _ hi, sylvesterMul_congr hinner, sylvesterMul_smul, sylvesterMul_self hi]
  calc nu * (2 ^ t * (x i * s1 i)) * (nu * s1 i)
      = nu ^ 2 * 2 ^ t * (s1 i * s1 i) * x i := by ring
    _ = x i := by rw [h.normal, sign_mul_self (h.signs1 i hi), one_mul, one_mul]

/-- A rotation preserves inner products. -/
theorem rotate_inner (h : IsWht t s1 s2 nu) (x y : Nat → K) :
    ∑ i ∈ range (2 ^ t), rotate s1 s2 nu (2 ^ t) x i * rotate s1 s2 nu (2 ^ t) y i
      = ∑ i ∈ range (2 ^ t), x i * y i := by
  have hout : ∀ i ∈ range (2 ^ t), rotate s1 s2 nu (2 ^ t) x i * rotate s1 s2 nu (2 ^ t) y i
      = nu ^ 2 * (sylvesterMul t (fun j => x j * s1 j) i * sylvesterMul t (fun j => y j * s1 j) i) := by
    intro i hi
    have hi' := mem_range.1 hi
    rw [rotate_apply s1 s2 nu x hi', rotate_apply s1 s2 nu y hi']
    calc sylvesterMul t (fun j => x j * s1 j) i * (nu * s2 i)
          * (sylvesterMul t (fun j => y j * s1 j) i * (nu * s2 i))
        = nu ^ 2 * (sylvesterMul t (fun j => x j * s1 j) i * sylvesterMul t (fun j => y j * s1 j) i)
            * (s2 i * s2 i) := by ring
      _ = nu ^ 2 * (sylvesterMul t (fun j => x j * s1 j) i * sylvesterMul t (fun j => y j * s1 j) i) := by
          rw [sign_mul_self (h.signs2 i hi'), mul_one]
  have hsigns : ∀ i ∈ range (2 ^ t), x i * s1 i * (y i * s1 i) = x i * y i := by
    intro i hi
    calc x i * s1 i * (y i * s1 i) = x i * y i * (s1 i * s1 i) := by ring
      _ = x i * y i := by rw [sign_mul_self (h.signs1 i (mem_range.1 hi)), mul_one]
  rw [sum_congr rfl hout, ← mul_sum, sum_sylvesterMul_sylvesterMul, ← mul_assoc, h.normal, one_mul,
    sum_congr rfl hsigns]

namespace WhtParams
variable {w : WhtParams K} {direction : Direction} {headDim nHeads nth : Nat}

def Unscaled (w : WhtParams K) : Prop := ∀ s, w.scaleInv = some s → ∀ i < w.groupSize, s i = 1

lemma scaleIn_eq_one (h : w.Unscaled) {i : Nat} (hi : i < w.groupSize) : w.scaleIn direction i = 1 := by
  cases direction with
  | inverse => rfl
  | forward =>
    cases e : w.scaleInv with
    | none => simp only [scaleIn, e]
    | some s =>
      simp only [scaleIn, e]
      rw [Nat.mod_eq_of_lt hi]
      exact h s e i hi

lemma scaleOut_eq_one (h : w.Unscaled) {i : Nat} (hi : i < w.groupSize) : w.scaleOut direction i = 1 := by
  cases direction with
  | forward => rfl
  | inverse =>
    cases e : w.scaleInv with
    | none => simp only [scaleOut, e]
    | some s =>
      simp only [scaleOut, e]
      rw [Nat.mod_eq_of_lt hi]
      exact h s e i hi

lemma group_eq (h : w.Unscaled) (x : Nat → K) {i : Nat} (hi : i < w.groupSize) :
    w.group direction x i = rotate (w.sFirst direction) (w.sSecond direction) w.invSqrt w.groupSize x i := by
  have hin : scaleBy w.groupSize (w.scaleIn direction) x = x := by
    funext j
    rw [scaleBy]
    rcases lt_or_ge j w.groupSize with hj | hj
    · rw [if_pos hj, scaleIn_eq_one h hj, mul_one]
    · rw [if_neg (Nat.not_lt_of_le hj)]
  rw [group, rotate, scaleBy, if_pos hi, hin, scaleOut_eq_one h hi, mul_one, mul_assoc]

lemma thread_exists {n g : Nat} (hg : g < n) (hnth : 0 < nth) :
    ∃ ith < nth, n * ith / nth ≤ g ∧ g < n * (ith + 1) / nth := by
  have hlast : g < n * nth / nth := by rw [Nat.mul_div_cancel _ hnth]; exact hg
  have hex : ∃ k, g < n * k / nth := ⟨nth, hlast⟩
  have hfind : g < n * Nat.find hex / nth := Nat.find_spec hex
  have hpos : Nat.find hex ≠ 0 := by
    intro e
    rw [e, mul_zero, Nat.zero_div] at hfind
    exact Nat.not_lt_zero _ hfind
  obtain ⟨ith, hith⟩ := Nat.exists_eq_succ_of_ne_zero hpos
  have hle : Nat.find hex ≤ nth := Nat.find_le hlast
  have hprev : ¬ g < n * ith / nth := Nat.find_min hex (by omega)
  rw [hith] at hfind
  exact ⟨ith, by omega, Nat.le_of_not_lt hprev, hfind⟩

section Places
variable {gs gph h gi i c : Nat}

lemma group_lt (hgi : gi < headDim / gs) (hi : i < gs) : gi * gs + i < headDim / gs * gs := by
  have hm : (gi + 1) * gs ≤ headDim / gs * gs := Nat.mul_le_mul_right _ hgi
  rw [add_mul, one_mul] at hm
  omega

lemma mem_group_iff (hgi : gi < headDim / gs) (hi : i < gs) (g : Nat) :
    (g / (headDim / gs) * headDim + g % (headDim / gs) * gs ≤ h * headDim + (gi * gs + i) ∧
      h * headDim + (gi * gs + i) < g / (headDim / gs) * headDim + g % (headDim / gs) * gs + gs) ↔
    g = h * (headDim / gs) + gi := by
  have hle : headDim / gs * gs ≤ headDim := Nat.div_mul_le_self _ _
  have hlt := group_lt hgi hi
  constructor
  · rintro ⟨h1, h2⟩
    obtain ⟨i', hi'⟩ := Nat.exists_eq_add_of_le h1
    have hi'gs : i' < gs := by omega
    have hlt' := group_lt (Nat.mod_lt g (lt_of_le_of_lt (Nat.zero_le _) hgi)) hi'gs
    rw [add_assoc] at hi'
    obtain ⟨eh, eo⟩ := block_unique (by omega) (by omega) hi'
    obtain ⟨egi, _⟩ := block_unique hi hi'gs eo
    rw [eh, egi, mul_comm]
    exact (Nat.div_add_mod g _).symm
  · rintro rfl
    have hdiv : (h * (headDim / gs) + gi) / (headDim / gs) = h := by
      rw [mul_comm, Nat.mul_add_div (by omega), Nat.div_eq_of_lt hgi, add_zero]
    have hmod : (h * (headDim / gs) + gi) % (headDim / gs) = gi := by
      rw [mul_comm, Nat.mul_add_mod, Nat.mod_eq_of_lt hgi]
    rw [hdiv, hmod]
    omega

lemma not_mem_group (hc : headDim / gs * gs ≤ c) (hch : c < headDim) {g n : Nat} (hg : g < headDim / gs * n) :
    ¬ (g / (headDim / gs) * headDim + g % (headDim / gs) * gs ≤ h * headDim + c ∧
      h * headDim + c < g / (headDim / gs) * headDim + g % (headDim / gs) * gs + gs) := by
  rintro ⟨h1, h2⟩
  have hpos : 0 < headDim / gs := pos_of_ne_zero (fun e => by rw [e, zero_mul] at hg; exact Nat.not_lt_zero _ hg)
  obtain ⟨i', hi'⟩ := Nat.exists_eq_add_of_le h1
  have hlt' := group_lt (Nat.mod_lt g hpos) (show i' < gs by omega)
  have hle : headDim / gs * gs ≤ headDim := Nat.div_mul_le_self _ _
  rw [add_assoc] at hi'
  obtain ⟨_, eo⟩ := block_unique hch (by omega) hi'
  omega

lemma mem_tail_iff (hch : c < headDim) (h' : Nat) : (h' * headDim + headDim / gs * gs ≤ h * headDim + c ∧
      h * headDim + c < h' * headDim + headDim / gs * gs + headDim % gs) ↔ headDim / gs * gs ≤ c ∧ h' = h := by
  have hsum : headDim / gs * gs + headDim % gs = headDim := Nat.div_add_mod' headDim gs
  constructor
  · rintro ⟨h1, h2⟩
    obtain ⟨r, hr⟩ := Nat.exists_eq_add_of_le h1
    rw [add_assoc] at hr
    obtain ⟨eh, eo⟩ := block_unique hch (by omega) hr
    exact ⟨by omega, eh.symm⟩
  · rintro ⟨h1, rfl⟩
    omega

end Places

section Results
variable {h gi i c : Nat} (src dst : Nat → K)

lemma copyTail_group (hgi : gi < headDim / w.groupSize) (hi : i < w.groupSize) (l : List Nat) (d : Nat → K) :
    l.foldl (w.copyTail headDim src) d (h * headDim + (gi * w.groupSize + i))
      = d (h * headDim + (gi * w.groupSize + i)) := by
  have hle : headDim / w.groupSize * w.groupSize ≤ headDim := Nat.div_mul_le_self _ _
  have hlt := group_lt hgi hi
  apply (foldl_write (P := fun _ => False) (v := 0) (fun _ _ _ h => h.elim) ?_ d).2 (fun _ _ h => h)
  intro d h' _ _
  simp only [copyTail]
  rw [if_neg]
  intro hin
  have := ((mem_tail_iff (by omega) h').1 hin).1
  omega

lemma computeForward_group (hgi : gi < headDim / w.groupSize) (hi : i < w.groupSize) (ith : Nat) :
    w.computeForward direction headDim nHeads ith nth src dst (h * headDim + (gi * w.groupSize + i))
      = if headDim / w.groupSize * nHeads * ith / nth ≤ h * (headDim / w.groupSize) + gi ∧
            h * (headDim / w.groupSize) + gi < headDim / w.groupSize * nHeads * (ith + 1) / nth
        then w.group direction (fun i => src (h * headDim + (gi * w.groupSize + i))) i
        else dst (h * headDim + (gi * w.groupSize + i)) := by
  have hhit : ∀ d, ∀ g ∈ List.range' (headDim / w.groupSize * nHeads * ith / nth)
        (headDim / w.groupSize * nHeads * (ith + 1) / nth - headDim / w.groupSize * nHeads * ith / nth),
      g = h * (headDim / w.groupSize) + gi →
      w.writeGroup direction headDim src d g (h * headDim + (gi * w.groupSize + i))
        = w.group direction (fun i => src (h * headDim + (gi * w.groupSize + i))) i := by
    intro d g _ hg
    have hin := (mem_group_iff (h := h) hgi hi g).2 hg
    have hdiv : g / (headDim / w.groupSize) = h := by
      rw [hg, mul_comm, Nat.mul_add_div (by omega), Nat.div_eq_of_lt hgi, add_zero]
    have hmod : g % (headDim / w.groupSize) = gi := by
      rw [hg, mul_comm, Nat.mul_add_mod, Nat.mod_eq_of_lt hgi]
    simp only [writeGroup]
    rw [if_pos hin, hdiv, hmod]
    congr 1
    · funext j
      rw [add_assoc]
    · omega
  have hmiss : ∀ d, ∀ g ∈ List.range' (headDim / w.groupSize * nHeads * ith / nth)
        (headDim / w.groupSize * nHeads * (ith + 1) / nth - headDim / w.groupSize * nHeads * ith / nth),
      ¬ g = h * (headDim / w.groupSize) + gi →
      w.writeGroup direction headDim src d g (h * headDim + (gi * w.groupSize + i))
        = d (h * headDim + (gi * w.groupSize + i)) := by
    intro d g _ hg
    simp only [writeGroup]
    rw [if_neg (fun hin => hg ((mem_group_iff hgi hi g).1 hin))]
  have hgroups := foldl_write hhit hmiss dst
  have hsplit : w.computeForward direction headDim nHeads ith nth src dst (h * headDim + (gi * w.groupSize + i))
      = (List.range' (headDim / w.groupSize * nHeads * ith / nth)
          (headDim / w.groupSize * nHeads * (ith + 1) / nth - headDim / w.groupSize * nHeads * ith / nth)).foldl
          (w.writeGroup direction headDim src) dst (h * headDim + (gi * w.groupSize + i)) := by
    rw [computeForward]
    split
    · rw [copyTail_group src hgi hi]
    · rfl
  rw [hsplit]
  split
  · rename_i hin
    apply hgroups.1
    refine ⟨_, ?_, rfl⟩
    rw [List.mem_range'_1]
    omega
  · rename_i hout
    apply hgroups.2
    intro g hg e
    rw [List.mem_range'_1] at hg
    exact hout (by omega)

/-- The threads of the operation at a place of a group. -/
theorem turboWht_group (hnth : 0 < nth) (hh : h < nHeads) (hgi : gi < headDim / w.groupSize)
    (hi : i < w.groupSize) : w.turboWht direction headDim nHeads nth src dst (h * headDim + (gi * w.groupSize + i))
      = w.group direction (fun i => src (h * headDim + (gi * w.groupSize + i))) i := by
  have hg : h * (headDim / w.groupSize) + gi < headDim / w.groupSize * nHeads := by
    have hm : (h + 1) * (headDim / w.groupSize) ≤ nHeads * (headDim / w.groupSize) := Nat.mul_le_mul_right _ hh
    rw [add_mul, one_mul] at hm
    rw [mul_comm (headDim / w.groupSize) nHeads]
    omega
  obtain ⟨ith, hith, hin⟩ := thread_exists hg hnth
  have hhit : ∀ d, ∀ ith ∈ List.range nth, (headDim / w.groupSize * nHeads * ith / nth ≤ h * (headDim / w.groupSize) + gi ∧
      h * (headDim / w.groupSize) + gi < headDim / w.groupSize * nHeads * (ith + 1) / nth) →
      w.computeForward direction headDim nHeads ith nth src d (h * headDim + (gi * w.groupSize + i))
        = w.group direction (fun i => src (h * headDim + (gi * w.groupSize + i))) i := by
    intro d ith _ hit
    rw [computeForward_group src d hgi hi, if_pos hit]
  apply (foldl_write hhit ?_ dst).1 ⟨ith, List.mem_range.2 hith, hin⟩
  intro d ith _ hmiss
  rw [computeForward_group src d hgi hi, if_neg hmiss]

lemma computeForward_tail {ith : Nat} (hith : ith < nth) (hh : h < nHeads)
    (hc : headDim / w.groupSize * w.groupSize ≤ c) (hch : c < headDim) :
    w.computeForward direction headDim nHeads ith nth src dst (h * headDim + c)
      = if ith = 0 then src (h * headDim + c) else dst (h * headDim + c) := by
  have hend : headDim / w.groupSize * nHeads * (ith + 1) / nth ≤ headDim / w.groupSize * nHeads := by
    apply Nat.div_le_of_le_mul
    rw [mul_comm nth]
    exact Nat.mul_le_mul_left _ hith
  have hgroups : ∀ d, ∀ g ∈ List.range' (headDim / w.groupSize * nHeads * ith / nth)
        (headDim / w.groupSize * nHeads * (ith + 1) / nth - headDim / w.groupSize * nHeads * ith / nth),
      ¬ False → w.writeGroup direction headDim src d g (h * headDim + c) = d (h * headDim + c) := by
    intro d g hg _
    rw [List.mem_range'_1] at hg
    simp only [writeGroup]
    rw [if_neg (not_mem_group (h := h) (n := nHeads) hc hch (by omega))]
  have hsum : headDim / w.groupSize * w.groupSize + headDim % w.groupSize = headDim := Nat.div_add_mod' headDim _
  have hfst := (foldl_write (v := 0) (fun _ _ _ h => h.elim) hgroups dst).2 (fun _ _ h => h)
  have hsnd : ∀ d, (List.range nHeads).foldl (w.copyTail headDim src) d (h * headDim + c) = src (h * headDim + c) := by
    intro d
    apply (foldl_write (P := fun h' => h' = h) ?_ ?_ d).1 ⟨h, List.mem_range.2 hh, rfl⟩
    · intro d h' _ e
      simp only [copyTail]
      rw [if_pos ((mem_tail_iff hch h').2 ⟨hc, e⟩)]
    · intro d h' _ e
      simp only [copyTail]
      rw [if_neg (fun hin => e ((mem_tail_iff hch h').1 hin).2)]
  rw [computeForward]
  by_cases e : ith = 0
  · rw [if_pos e, if_pos ⟨by omega, e⟩, hsnd]
  · rw [if_neg e, if_neg (fun h => e h.2), hfst]

/-- The threads of the operation at a place of a tail. -/
theorem turboWht_tail (hnth : 0 < nth) (hh : h < nHeads)
    (hc : headDim / w.groupSize * w.groupSize ≤ c) (hch : c < headDim) :
    w.turboWht direction headDim nHeads nth src dst (h * headDim + c) = src (h * headDim + c) := by
  apply (foldl_write (P := fun ith => ith = 0) ?_ ?_ dst).1 ⟨0, List.mem_range.2 hnth, rfl⟩
  · intro d ith hith e
    rw [computeForward_tail src d (List.mem_range.1 hith) hh hc hch, if_pos e]
  · intro d ith hith e
    rw [computeForward_tail src d (List.mem_range.1 hith) hh hc hch, if_neg e]

end Results

omit [Field K] in
lemma place_cases (w : WhtParams K) {p : Nat} (hp : p < nHeads * headDim) :
    ∃ h < nHeads, (∃ gi i, gi < headDim / w.groupSize ∧ i < w.groupSize ∧ p = h * headDim + (gi * w.groupSize + i)) ∨
      ∃ c, headDim / w.groupSize * w.groupSize ≤ c ∧ c < headDim ∧ p = h * headDim + c := by
  have hpos : 0 < headDim := pos_of_ne_zero (fun e => by rw [e, mul_zero] at hp; exact Nat.not_lt_zero _ hp)
  have hplace : p = p / headDim * headDim + p % headDim := (Nat.div_add_mod' p headDim).symm
  have hc : p % headDim < headDim := Nat.mod_lt _ hpos
  refine ⟨p / headDim, Nat.div_lt_of_lt_mul (by rwa [mul_comm]), ?_⟩
  rcases lt_or_ge (p % headDim) (headDim / w.groupSize * w.groupSize) with hlt | hge
  · have hgs : 0 < w.groupSize := pos_of_ne_zero (fun e => by rw [e, mul_zero] at hlt; exact Nat.not_lt_zero _ hlt)
    left
    refine ⟨p % headDim / w.groupSize, p % headDim % w.groupSize, ?_, Nat.mod_lt _ hgs, ?_⟩
    · exact Nat.div_lt_of_lt_mul (by rwa [mul_comm])
    · rw [Nat.div_add_mod']
      exact hplace
  · right
    exact ⟨p % headDim, hge, hc, hplace⟩

/-- The node rotates groups of `2 ^ t` elements. -/
structure Isometric (w : WhtParams K) (t : Nat) : Prop where
  size : w.groupSize = 2 ^ t
  wht : IsWht t w.s1 w.s2 w.invSqrt
  unscaled : w.Unscaled

lemma Isometric.isWht (hw : w.Isometric t) (direction : Direction) :
    IsWht t (w.sFirst direction) (w.sSecond direction) w.invSqrt := by
  cases direction with
  | forward => exact hw.wht
  | inverse => exact hw.wht.swap

lemma Isometric.group_eq (hw : w.Isometric t) (x : Nat → K) {i : Nat} (hi : i < 2 ^ t) :
    w.group direction x i = rotate (w.sFirst direction) (w.sSecond direction) w.invSqrt (2 ^ t) x i := by
  rw [← hw.size] at hi ⊢
  exact WhtParams.group_eq hw.unscaled x hi

/-- The two directions are inverse to each other. -/
theorem Isometric.group_group (hw : w.Isometric t) {d d' : Direction} (hd : d ≠ d') {x y : Nat → K}
    (hy : ∀ j < 2 ^ t, y j = w.group d x j) {i : Nat} (hi : i < 2 ^ t) : w.group d' y i = x i := by
  have hrot : ∀ j < 2 ^ t, y j = rotate (w.sFirst d) (w.sSecond d) w.invSqrt (2 ^ t) x j := by
    intro j hj
    rw [hy j hj, hw.group_eq x hj]
  have hfirst : w.sFirst d' = w.sSecond d ∧ w.sSecond d' = w.sFirst d := by
    cases d <;> cases d'
    · exact absurd rfl hd
    · exact ⟨rfl, rfl⟩
    · exact ⟨rfl, rfl⟩
    · exact absurd rfl hd
  rw [hw.group_eq y hi, hfirst.1, hfirst.2, rotate_congr _ _ _ hrot hi]
  exact rotate_rotate (hw.isWht d) x hi

/-- Running the operation in one direction and then in the other gives the tensor back. -/
theorem Isometric.turboWht_turboWht (hw : w.Isometric t) {d d' : Direction} (hd : d ≠ d') (hnth : 0 < nth)
    (src dst dst' : Nat → K) {p : Nat} (hp : p < nHeads * headDim) :
    w.turboWht d' headDim nHeads nth (w.turboWht d headDim nHeads nth src dst) dst' p = src p := by
  obtain ⟨h, hh, hplace⟩ := place_cases w hp
  rcases hplace with ⟨gi, i, hgi, hi, rfl⟩ | ⟨c, hc, hch, rfl⟩
  · rw [turboWht_group _ _ hnth hh hgi hi]
    have hi' : i < 2 ^ t := hw.size ▸ hi
    have hin : ∀ j < 2 ^ t, w.turboWht d headDim nHeads nth src dst (h * headDim + (gi * w.groupSize + j))
        = w.group d (fun j => src (h * headDim + (gi * w.groupSize + j))) j := by
      intro j hj
      exact turboWht_group src dst hnth hh hgi (by rw [hw.size]; exact hj)
    exact hw.group_group hd hin hi'
  · rw [turboWht_tail _ _ hnth hh hc hch, turboWht_tail _ _ hnth hh hc hch]

omit [Field K] in
lemma sum_range_groups [AddCommMonoid K] (f : Nat → K) (m gs : Nat) :
    ∑ c ∈ range (m * gs), f c = ∑ gi ∈ range m, ∑ i ∈ range gs, f (gi * gs + i) := by
  induction m with
  | zero => rw [zero_mul, sum_range_zero, sum_range_zero]
  | succ m ih => rw [add_mul, one_mul, sum_range_add, sum_range_succ, ih]

/-- The operation preserves the inner product of two heads. -/
theorem Isometric.turboWht_inner (hw : w.Isometric t) (hnth : 0 < nth) (x y dst dst' : Nat → K) {h : Nat}
    (hh : h < nHeads) : ∑ c ∈ range headDim, w.turboWht direction headDim nHeads nth x dst (h * headDim + c)
        * w.turboWht direction headDim nHeads nth y dst' (h * headDim + c)
      = ∑ c ∈ range headDim, x (h * headDim + c) * y (h * headDim + c) := by
  have hsum : headDim = headDim / w.groupSize * w.groupSize + headDim % w.groupSize := (Nat.div_add_mod' headDim _).symm
  have hgroups : ∀ gi ∈ range (headDim / w.groupSize), ∑ i ∈ range w.groupSize,
      w.turboWht direction headDim nHeads nth x dst (h * headDim + (gi * w.groupSize + i))
        * w.turboWht direction headDim nHeads nth y dst' (h * headDim + (gi * w.groupSize + i))
      = ∑ i ∈ range w.groupSize, x (h * headDim + (gi * w.groupSize + i)) * y (h * headDim + (gi * w.groupSize + i)) := by
    intro gi hgi
    have hgi' := mem_range.1 hgi
    have hrot := rotate_inner (hw.isWht direction) (fun i => x (h * headDim + (gi * w.groupSize + i)))
      (fun i => y (h * headDim + (gi * w.groupSize + i)))
    rw [← hw.size] at hrot
    rw [← hrot]
    apply sum_congr rfl
    intro i hi
    have hgs := mem_range.1 hi
    have hi' : i < 2 ^ t := hw.size ▸ hgs
    rw [turboWht_group x dst hnth hh hgi' hgs, turboWht_group y dst' hnth hh hgi' hgs,
      hw.group_eq _ hi', hw.group_eq _ hi', hw.size]
  have htail : ∀ r ∈ range (headDim % w.groupSize),
      w.turboWht direction headDim nHeads nth x dst (h * headDim + (headDim / w.groupSize * w.groupSize + r))
        * w.turboWht direction headDim nHeads nth y dst' (h * headDim + (headDim / w.groupSize * w.groupSize + r))
      = x (h * headDim + (headDim / w.groupSize * w.groupSize + r))
        * y (h * headDim + (headDim / w.groupSize * w.groupSize + r)) := by
    intro r hr
    have hr' := mem_range.1 hr
    rw [turboWht_tail x dst hnth hh (Nat.le_add_right _ _) (by omega),
      turboWht_tail y dst' hnth hh (Nat.le_add_right _ _) (by omega)]
  have hrange : ∀ f : Nat → K, ∑ c ∈ range headDim, f c
      = ∑ gi ∈ range (headDim / w.groupSize), ∑ i ∈ range w.groupSize, f (gi * w.groupSize + i)
        + ∑ r ∈ range (headDim % w.groupSize), f (headDim / w.groupSize * w.groupSize + r) := by
    intro f
    rw [← sum_range_groups, ← sum_range_add, ← hsum]
  rw [hrange, hrange, sum_congr rfl hgroups, sum_congr rfl htail]

lemma Isometric.turboWht_padded (hw : w.Isometric t) (hnth : 0 < nth) (x y dst dst' : Nat → K) {h dim : Nat}
    (hh : h < nHeads) (hdim : dim ≤ headDim) (hpad : ∀ c, dim ≤ c → c < headDim → x (h * headDim + c) = 0) :
    ∑ c ∈ range headDim, w.turboWht direction headDim nHeads nth x dst (h * headDim + c)
        * w.turboWht direction headDim nHeads nth y dst' (h * headDim + c)
      = ∑ c ∈ range dim, x (h * headDim + c) * y (h * headDim + c) := by
  obtain ⟨pad, rfl⟩ := Nat.exists_eq_add_of_le hdim
  rw [hw.turboWht_inner hnth x y dst dst' hh, sum_range_add]
  have hzero : ∑ r ∈ range pad, x (h * (dim + pad) + (dim + r)) * y (h * (dim + pad) + (dim + r)) = 0 := by
    apply sum_eq_zero
    intro r hr
    rw [hpad (dim + r) (Nat.le_add_right _ _) (by have := mem_range.1 hr; omega), zero_mul]
  rw [hzero, add_zero]

end WhtParams

def codeWht (invSqrt : K) (groupSize : Nat) (scaleInv : Option (Nat → K)) : WhtParams K where
  s1 := signAt turboWhtS1
  s2 := signAt turboWhtS2
  invSqrt := invSqrt
  groupSize := groupSize
  scaleInv := scaleInv

omit [Field K] in
lemma signAt_cases [Ring K] {s : List Int} (hs : ∀ a ∈ s, a = 1 ∨ a = -1) {i : Nat} (hi : i < s.length) :
    (signAt s i : K) = 1 ∨ (signAt s i : K) = -1 := by
  rw [signAt, List.getD_eq_getElem _ _ hi]
  rcases hs _ (List.getElem_mem hi) with h | h
  · left
    rw [h, Int.cast_one]
  · right
    rw [h, Int.cast_neg, Int.cast_one]

lemma turboWhtS1_signs : ∀ a ∈ turboWhtS1, a = 1 ∨ a = -1 := by decide +kernel

lemma turboWhtS2_signs : ∀ a ∈ turboWhtS2, a = 1 ∨ a = -1 := by decide +kernel

lemma length_signs : turboWhtS1.length = 128 ∧ turboWhtS2.length = 128 := by decide +kernel

lemma codeWht_isometric (ht : t ≤ 7) (hnu : nu ^ 2 * 2 ^ t = 1) : (codeWht nu (2 ^ t) none).Isometric t := by
  have hle : 2 ^ t ≤ 2 ^ 7 := Nat.pow_le_pow_right (by omega) ht
  refine ⟨rfl, ⟨fun i hi => ?_, fun i hi => ?_, hnu⟩, ?_⟩
  · exact signAt_cases turboWhtS1_signs (by rw [length_signs.1]; exact lt_of_lt_of_le hi hle)
  · exact signAt_cases turboWhtS2_signs (by rw [length_signs.2]; exact lt_of_lt_of_le hi hle)
  · intro s hs
    cases hs

/-- For every group size that is a power of two and every sign vectors, the butterfly loops multiply by the
    Sylvester-Hadamard matrix; a rotation and the rotation with the sign vectors exchanged are inverse to
    each other, as are the two directions of the operation on whole tensors; both preserve inner products, so
    zeros that pad a head do not change a score. -/
theorem wht_isometry (t : Nat) (w : WhtParams K) (hw : w.Isometric t) :
    (∀ x, ∀ i < 2 ^ t, butterflyLoop (2 ^ t) 1 x i = sylvesterMul (K := K) t x i) ∧
    (∀ x, ∀ i < 2 ^ t, rotate w.s2 w.s1 w.invSqrt (2 ^ t) (rotate w.s1 w.s2 w.invSqrt (2 ^ t) x) i = x i) ∧
    (∀ x, ∀ i < 2 ^ t, rotate w.s1 w.s2 w.invSqrt (2 ^ t) (rotate w.s2 w.s1 w.invSqrt (2 ^ t) x) i = x i) ∧
    (∀ x y, ∑ i ∈ range (2 ^ t), rotate w.s1 w.s2 w.invSqrt (2 ^ t) x i * rotate w.s1 w.s2 w.invSqrt (2 ^ t) y i
      = ∑ i ∈ range (2 ^ t), x i * y i) ∧
    (∀ headDim nHeads nth, 0 < nth → ∀ src dst dst', ∀ p < nHeads * headDim,
      w.turboWht .inverse headDim nHeads nth (w.turboWht .forward headDim nHeads nth src dst) dst' p = src p ∧
      w.turboWht .forward headDim nHeads nth (w.turboWht .inverse headDim nHeads nth src dst) dst' p = src p) ∧
    (∀ direction headDim nHeads nth, 0 < nth → ∀ x y dst dst', ∀ h < nHeads, ∀ dim ≤ headDim,
      (∀ c, dim ≤ c → c < headDim → x (h * headDim + c) = 0) →
      ∑ c ∈ range headDim, w.turboWht direction headDim nHeads nth x dst (h * headDim + c)
          * w.turboWht direction headDim nHeads nth y dst' (h * headDim + c)
        = ∑ c ∈ range dim, x (h * headDim + c) * y (h * headDim + c)) := by
  refine ⟨fun x i hi => (butterflyLoop_eq t x).1 i hi, fun x i hi => rotate_rotate hw.wht x hi,
    fun x i hi => rotate_rotate hw.wht.swap x hi, fun x y => rotate_inner hw.wht x y, ?_, ?_⟩
  · intro headDim nHeads nth hnth src dst dst' p hp
    constructor
    · exact hw.turboWht_turboWht Direction.noConfusion hnth src dst dst' hp
    · exact hw.turboWht_turboWht Direction.noConfusion hnth src dst dst' hp
  · intro direction headDim nHeads nth hnth x y dst dst' h hh dim hdim hpad
    exact hw.turboWht_padded hnth x y dst dst' hh hdim hpad

end Rotation

/-- The rotation of groups of 64 over the rationals. -/
theorem wht_isometry_half_head : (codeWht (1 / 8 : Rat) (2 ^ 6) none).Isometric 6 ∧
      rotate (signAt turboWhtS2) (signAt turboWhtS1) (1 / 8 : Rat) (2 ^ 6)
        (rotate (signAt turboWhtS1) (signAt turboWhtS2) (1 / 8) (2 ^ 6) fun i => (i : Rat)) 5 = 5 := by
  have hw : (codeWht (1 / 8 : Rat) (2 ^ 6) none).Isometric 6 := codeWht_isometric (by decide) (by norm_num)
  refine ⟨hw, ?_⟩
  exact (wht_isometry 6 _ hw).2.1 (fun i => (i : Rat)) 5 (by decide)

end Mallana.Turbo
