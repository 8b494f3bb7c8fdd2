import Mathlib.Algebra.BigOperators.Intervals
import Mathlib.Algebra.Order.BigOperators.Group.Finset

/-!
# Bins that are filled in order

Items of sizes `a 0`, `a 1`, … go one after the other into bins of capacity `C`. A new bin is begun at the items with
`B i`, and where the bin is exactly full and the item has a size; nothing is done for an item that does not fit. No
bin overflows if and only if the sums of the sizes from a forced bin on reach every multiple of the capacity that they
pass (`load_le_iff`).
-/

namespace Mallana.Lib

open Finset

/-- What the items from `l` to before `i` need. -/
def demand (a : Nat → Nat) (l i : Nat) : Nat := ∑ j ∈ Ico l i, a j

/-- What is in the bin before item `i`. -/
def load (C : Nat) (a : Nat → Nat) (B : Nat → Prop) [DecidablePred B] : Nat → Nat
  | 0 => 0
  | i + 1 => if B i ∨ (load C a B i = C ∧ 0 < a i) then a i else load C a B i + a i

/-- Between two forced bins the sums of the first `n` sizes reach the multiples of the capacity that they pass. -/
def MeetsMultiples (C : Nat) (a : Nat → Nat) (B : Nat → Prop) (n : Nat) : Prop :=
  ∀ l i, l ≤ i → i ≤ n → B l → (∀ j, l < j → j < i → ¬ B j) → ∀ m, C * m < demand a l i →
    ∃ j, l ≤ j ∧ j ≤ i ∧ demand a l j = C * m

section
variable {C : Nat} {a : Nat → Nat} {B : Nat → Prop} [DecidablePred B] {l i n : Nat}

lemma demand_self (a : Nat → Nat) (l : Nat) : demand a l l = 0 := by
  rw [demand, Ico_self, sum_empty]

lemma demand_succ (h : l ≤ i) : demand a l (i + 1) = demand a l i + a i := sum_Ico_succ_top h a

lemma demand_mono {j : Nat} (h : j ≤ i) : demand a l j ≤ demand a l i :=
  sum_le_sum_of_subset (Ico_subset_Ico_right h)

/-- The sums since the last forced bin are the full bins and the present one, and every full bin was reached. -/
lemma demand_eq (hl : B l) (hli : l < i) (hfree : ∀ j, l < j → j < i → ¬ B j) :
    ∃ q, demand a l i = C * q + load C a B i ∧ ∀ m ≤ q, ∃ j, l ≤ j ∧ j ≤ i ∧ demand a l j = C * m := by
  induction i, hli using Nat.le_induction with
  | base =>
    refine ⟨0, ?_, fun m hm => ⟨l, le_refl l, Nat.le_succ l, ?_⟩⟩
    · rw [demand_succ (le_refl l), demand_self, load, if_pos (.inl hl), mul_zero]
    · rw [demand_self, Nat.le_zero.1 hm, mul_zero]
  | succ i hli ih =>
    obtain ⟨q, hsum, hreach⟩ := ih fun j hlj hji => hfree j hlj (Nat.lt_succ_of_lt hji)
    have hno : ¬ B i := hfree i hli (Nat.lt_succ_self i)
    have hle : l ≤ i := le_of_lt hli
    have hold : ∀ m ≤ q, ∃ j, l ≤ j ∧ j ≤ i + 1 ∧ demand a l j = C * m := by
      intro m hm
      obtain ⟨j, hlj, hji, hj⟩ := hreach m hm
      exact ⟨j, hlj, Nat.le_succ_of_le hji, hj⟩
    by_cases hfull : load C a B i = C ∧ 0 < a i
    · -- the bin is full: it is one of those that were reached
      refine ⟨q + 1, ?_, fun m hm => ?_⟩
      · rw [demand_succ hle, hsum, load, if_pos (.inr hfull), hfull.1, Nat.mul_succ]
      · rcases Nat.le_succ_iff.1 hm with hm | rfl
        · exact hold m hm
        · exact ⟨i, hle, Nat.le_succ i, by rw [hsum, hfull.1, Nat.mul_succ]⟩
    · refine ⟨q, ?_, hold⟩
      rw [demand_succ hle, hsum, load, if_neg (not_or.2 ⟨hno, hfull⟩), add_assoc]

/-- The last forced bin. -/
lemma exists_last (h0 : B 0) (i : Nat) : ∃ l ≤ i, B l ∧ ∀ j, l < j → j ≤ i → ¬ B j := by
  induction i with
  | zero => exact ⟨0, Nat.le_refl 0, h0, fun j hlt hle => absurd hlt (Nat.not_lt_of_le hle)⟩
  | succ i ih =>
    by_cases hB : B (i + 1)
    · exact ⟨i + 1, Nat.le_refl _, hB, fun j hlt hle => absurd hlt (Nat.not_lt_of_le hle)⟩
    · obtain ⟨l, hl, hBl, hfree⟩ := ih
      refine ⟨l, Nat.le_succ_of_le hl, hBl, fun j hlt hle => ?_⟩
      rcases Nat.le_succ_iff.1 hle with hle | rfl
      · exact hfree j hlt hle
      · exact hB

/-- One item behind bins that did not overflow. -/
lemma load_succ_le (hC : 0 < C) (h0 : B 0) (hi : i < n) (h : MeetsMultiples C a B n) (hle : load C a B i ≤ C) :
    load C a B (i + 1) ≤ C := by
  obtain ⟨l, hl, hBl, hfree⟩ := exists_last h0 i
  have hhit := h l (i + 1) (Nat.le_succ_of_le hl) hi hBl fun j hlj hji => hfree j hlj (Nat.le_of_lt_succ hji)
  by_contra hgt
  rcases Nat.eq_or_lt_of_le hl with rfl | hlt
  · -- the item begins a bin
    have hsum : demand a l (l + 1) = a l := by rw [demand_succ (le_refl l), demand_self, zero_add]
    rw [load, if_pos (.inl hBl)] at hgt
    obtain ⟨j, hlj, hji, hj⟩ := hhit 1 (by rw [hsum]; omega)
    rcases Nat.le_succ_iff.1 hji with hji | rfl
    · rw [le_antisymm hji hlj, demand_self] at hj
      omega
    · rw [hsum] at hj
      omega
  · obtain ⟨q, hsum, -⟩ := demand_eq (C := C) (a := a) hBl hlt fun j hlj hji => hfree j hlj (le_of_lt hji)
    have hno : ¬ B i := hfree i hlt (le_refl i)
    have hnext := demand_succ (a := a) hl
    -- the sums pass the next multiple without reaching it
    have hpass : ∀ m, demand a l i < C * m → C * m < demand a l (i + 1) → False := by
      intro m hbelow habove
      obtain ⟨j, -, hji, hj⟩ := hhit m habove
      rcases Nat.le_succ_iff.1 hji with hji | rfl
      · have := demand_mono (a := a) (l := l) hji
        omega
      · exact absurd hj.symm (ne_of_lt habove)
    by_cases hfull : load C a B i = C ∧ 0 < a i
    · rw [load, if_pos (.inr hfull)] at hgt
      refine hpass (q + 2) ?_ ?_
      · rw [hsum, hfull.1, mul_add]
        omega
      · rw [hnext, hsum, hfull.1, mul_add]
        omega
    · rw [load, if_neg (not_or.2 ⟨hno, hfull⟩)] at hgt
      have hroom : load C a B i < C := by
        refine lt_of_le_of_ne hle fun heq => hfull ⟨heq, ?_⟩
        omega
      refine hpass (q + 1) ?_ ?_
      · rw [hsum, Nat.mul_succ]
        omega
      · rw [hnext, hsum, Nat.mul_succ]
        omega

/-- No bin overflows if and only if the sums reach the multiples of the capacity that they pass. -/
theorem load_le_iff (hC : 0 < C) (h0 : B 0) : (∀ i < n, load C a B (i + 1) ≤ C) ↔ MeetsMultiples C a B n := by
  constructor
  · intro h l i hli hin hBl hfree m hm
    rcases Nat.eq_or_lt_of_le hli with rfl | hlt
    · rw [demand_self] at hm
      exact absurd hm (Nat.not_lt_zero _)
    · obtain ⟨q, hsum, hreach⟩ := demand_eq (C := C) (a := a) hBl hlt hfree
      have hle : load C a B i ≤ C := by
        obtain ⟨i, rfl⟩ := Nat.exists_eq_succ_of_ne_zero (Nat.ne_zero_of_lt hlt)
        exact h i hin
      refine hreach m (Nat.lt_succ_iff.1 (Nat.lt_of_mul_lt_mul_left (a := C) ?_))
      rw [hsum] at hm
      exact lt_of_lt_of_le hm (by rw [Nat.mul_succ]; omega)
  · intro h i
    induction i with
    | zero => exact fun hi => load_succ_le hC h0 hi h (Nat.zero_le C)
    | succ i ih => exact fun hi => load_succ_le hC h0 hi h (ih (Nat.lt_of_succ_lt hi))

end

end Mallana.Lib
