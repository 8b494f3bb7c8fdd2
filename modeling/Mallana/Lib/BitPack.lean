import Mathlib.Data.List.GetD
import Mathlib.Algebra.Order.Ring.Int

/-!
# Packing codes into bytes

Codes of `width` bits are packed `per` to a byte, `width * per = 8`, by a loop that ORs each code into its
byte, and are read back by a shift and a mask. Bit `k` of byte `b` belongs to code `b * per + k / width`.
-/

namespace Mallana.Lib

open List

/-- The loop body `bytes[j / per] |= v << (j % per * width)`. -/
def orField (width per : Nat) (bytes : List (BitVec 8)) (j v : Nat) : List (BitVec 8) :=
  bytes.modify (j / per) (· ||| BitVec.ofNat 8 v <<< (j % per * width))

/-- Clear `nBytes` bytes and pack the codes `f 0 … f (n - 1)`. -/
def packFields (width per nBytes : Nat) (f : Nat → Nat) (n : Nat) : List (BitVec 8) :=
  (List.range n).foldl (fun bytes j => orField width per bytes j (f j)) (List.replicate nBytes 0)

/-- Code `j`: `(bytes[j / per] >> (j % per * width)) & mask`. -/
def field (width per : Nat) (bytes : List (BitVec 8)) (j : Nat) : Nat :=
  (bytes.getD (j / per) 0 >>> (j % per * width) &&& BitVec.ofNat 8 (2 ^ width - 1)).toNat

variable {width per nBytes : Nat} {f : Nat → Nat}

lemma packFields_succ (n : Nat) :
    packFields width per nBytes f (n + 1) = orField width per (packFields width per nBytes f n) n (f n) := by
  rw [packFields, range_succ, foldl_append]
  rfl

lemma length_packFields (n : Nat) : (packFields width per nBytes f n).length = nBytes := by
  induction n with
  | zero => simp [packFields]
  | succ n ih => rw [packFields_succ, orField, length_modify, ih]

lemma packFields_congr {g : Nat → Nat} {n : Nat} (h : ∀ j < n, f j = g j) :
    packFields width per nBytes f n = packFields width per nBytes g n := by
  induction n with
  | zero => rfl
  | succ n ih =>
    rw [packFields_succ, packFields_succ, ih (fun j hj => h j (Nat.lt_succ_of_lt hj)), h n (Nat.lt_succ_self n)]

lemma getLsbD_shifted (hwp : width * per = 8) {v r k : Nat} (hv : v < 2 ^ width) (hr : r < per) (hk : k < 8) :
    (BitVec.ofNat 8 v <<< (r * width)).getLsbD k = (decide (k / width = r) && v.testBit (k % width)) := by
  have hw : 0 < width := Nat.pos_of_ne_zero (fun e => by rw [e, Nat.zero_mul] at hwp; exact absurd hwp (by decide))
  have hend : r * width + width ≤ 8 := by
    calc r * width + width = (r + 1) * width := by rw [add_mul, one_mul]
      _ ≤ per * width := Nat.mul_le_mul_right _ hr
      _ = 8 := by rw [mul_comm, hwp]
  have hk' : k / width * width + k % width = k := Nat.div_add_mod' k width
  have hmod : k % width < width := Nat.mod_lt _ hw
  simp only [BitVec.getLsbD_shiftLeft, BitVec.getLsbD_ofNat, hk, decide_true, Bool.true_and]
  rcases lt_trichotomy (k / width) r with hlt | heq | hgt
  · have hm : (k / width + 1) * width ≤ r * width := Nat.mul_le_mul_right _ hlt
    rw [add_mul, one_mul] at hm
    have h1 : k < r * width := by omega
    simp [h1, ne_of_lt hlt]
  · have h1 : ¬ k < r * width := by rw [← heq]; omega
    have h2 : k - r * width = k % width := by rw [← heq]; omega
    have h3 : k % width < 8 := by omega
    simp [h1, h2, h3, heq]
  · have hm : (r + 1) * width ≤ k / width * width := Nat.mul_le_mul_right _ hgt
    rw [add_mul, one_mul] at hm
    have hhigh : v.testBit (k - r * width) = false := by
      apply Nat.testBit_lt_two_pow
      exact lt_of_lt_of_le hv (Nat.pow_le_pow_right (by decide) (by omega))
    simp [hhigh, ne_of_gt hgt]

lemma getLsbD_packFields (hwp : width * per = 8) {n : Nat} (hf : ∀ j < n, f j < 2 ^ width) (hn : n ≤ nBytes * per)
    {b k : Nat} (hb : b < nBytes) (hk : k < 8) : ((packFields width per nBytes f n).getD b 0).getLsbD k
      = (decide (b * per + k / width < n) && (f (b * per + k / width)).testBit (k % width)) := by
  have hper : 0 < per := Nat.pos_of_ne_zero (fun e => by rw [e, Nat.mul_zero] at hwp; exact absurd hwp (by decide))
  have hkw : k / width < per := Nat.div_lt_of_lt_mul (by rw [hwp]; exact hk)
  induction n with
  | zero =>
    have hz : (packFields width per nBytes f 0).getD b 0 = 0 := by
      rw [packFields, range_zero, foldl_nil, getD_eq_getElem _ _ (by simpa using hb), getElem_replicate]
    rw [hz]
    simp
  | succ n ih =>
    have hih := ih (fun j hj => hf j (Nat.lt_succ_of_lt hj)) (Nat.le_of_succ_le hn)
    have hlen := @length_packFields width per nBytes f n
    rw [packFields_succ, orField, getD_eq_getElem _ _ (by rw [length_modify, hlen]; exact hb), getElem_modify]
    rw [getD_eq_getElem _ _ (by rw [hlen]; exact hb)] at hih
    have hdm : n / per * per + n % per = n := Nat.div_add_mod' n per
    have hmod : n % per < per := Nat.mod_lt _ hper
    split
    · rename_i hbn
      -- the byte of code `n`
      rw [BitVec.getLsbD_or, hih, getLsbD_shifted hwp (hf n (Nat.lt_succ_self n)) hmod hk]
      have hplace : b * per + k / width = n ↔ k / width = n % per := by rw [← hbn]; omega
      rcases lt_trichotomy (b * per + k / width) n with hlt | heq | hgt
      · have hne : ¬ k / width = n % per := fun e => ne_of_lt hlt (hplace.2 e)
        simp [hlt, hne, Nat.lt_succ_of_lt hlt]
      · simp [hplace.1 heq]
        rw [hplace.1 heq] at heq
        simp [heq]
      · have hne : ¬ k / width = n % per := fun e => ne_of_gt hgt (hplace.2 e)
        have h1 : ¬ b * per + k / width < n := Nat.not_lt_of_gt hgt
        have h2 : ¬ b * per + k / width < n + 1 := by omega
        simp [h1, h2, hne]
    · rename_i hbn
      rw [hih]
      have hne : b * per + k / width ≠ n := by
        intro e
        apply hbn
        rw [← e, mul_comm, Nat.mul_add_div hper, Nat.div_eq_of_lt hkw, add_zero]
      have hiff : b * per + k / width < n + 1 ↔ b * per + k / width < n := by omega
      simp [hiff]

/-- Every packed code is read back. -/
theorem field_packFields (hwp : width * per = 8) {n : Nat} (hf : ∀ j < n, f j < 2 ^ width) (hn : n ≤ nBytes * per)
    {j : Nat} (hj : j < n) : field width per (packFields width per nBytes f n) j = f j := by
  have hw : 0 < width := Nat.pos_of_ne_zero (fun e => by rw [e, Nat.zero_mul] at hwp; exact absurd hwp (by decide))
  have hper : 0 < per := Nat.pos_of_ne_zero (fun e => by rw [e, Nat.mul_zero] at hwp; exact absurd hwp (by decide))
  have hb : j / per < nBytes := Nat.div_lt_of_lt_mul (by rw [mul_comm]; omega)
  have hr : j % per < per := Nat.mod_lt _ hper
  have hjd : j / per * per + j % per = j := Nat.div_add_mod' j per
  have hend : j % per * width + width ≤ 8 := by
    calc j % per * width + width = (j % per + 1) * width := by rw [add_mul, one_mul]
      _ ≤ per * width := Nat.mul_le_mul_right _ hr
      _ = 8 := by rw [mul_comm, hwp]
  have hmask : 2 ^ width - 1 < 2 ^ 8 := by
    have := Nat.pow_le_pow_right (show 0 < 2 by decide) (show width ≤ 8 by omega)
    omega
  apply Nat.eq_of_testBit_eq
  intro i
  rw [field, BitVec.testBit_toNat, BitVec.getLsbD_and, BitVec.getLsbD_ushiftRight, BitVec.getLsbD_ofNat,
    Nat.testBit_two_pow_sub_one]
  rcases lt_or_ge i width with hi | hi
  · have hdiv : (j % per * width + i) / width = j % per := by
      rw [mul_comm, Nat.mul_add_div hw, Nat.div_eq_of_lt hi, add_zero]
    have hmod : (j % per * width + i) % width = i := by
      rw [mul_comm, Nat.mul_add_mod, Nat.mod_eq_of_lt hi]
    have hi8 : i < 8 := by omega
    rw [getLsbD_packFields hwp hf hn hb (by omega), hdiv, hmod, hjd]
    simp [hj, hi, hi8]
  · have hhigh : (f j).testBit i = false := by
      apply Nat.testBit_lt_two_pow
      exact lt_of_lt_of_le (hf j hj) (Nat.pow_le_pow_right (by decide) hi)
    have hni : ¬ i < width := Nat.not_lt_of_le hi
    simp [hhigh, hni]

/-- Packed bytes determine the codes. -/
theorem packFields_inj (hwp : width * per = 8) {g : Nat → Nat} {n : Nat} (hf : ∀ j < n, f j < 2 ^ width)
    (hg : ∀ j < n, g j < 2 ^ width) (hn : n ≤ nBytes * per) :
    packFields width per nBytes f n = packFields width per nBytes g n ↔ ∀ j < n, f j = g j := by
  constructor
  · intro h j hj
    rw [← field_packFields hwp hf hn hj, h, field_packFields hwp hg hn hj]
  · exact packFields_congr

end Mallana.Lib
