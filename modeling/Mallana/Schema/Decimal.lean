import Mathlib.Data.Nat.Digits.Lemmas
import Mallana.Tokenizer.Basic

/-!
# Decimal numerals

Numbers as lists of decimal digits, the highest first, and as text. A list of digits without superfluous zeros in front
is the numeral of its value.
-/

namespace Mallana.Schema

open Tokenizer List

/-- C++ `std::to_string` of a number that is not negative. -/
def decimal (n : Nat) : Str := (Nat.toDigits 10 n).map fun c => UInt8.ofNat c.toNat

def digs (n : Nat) : List Nat := (Nat.toDigits 10 n).map fun c => c.toNat - 48

def dig (d : Nat) : UInt8 := UInt8.ofNat (48 + d)

def value (ds : List Nat) : Nat := Nat.ofDigits 10 ds.reverse

def Digits (ds : List Nat) : Prop := ∀ d ∈ ds, d < 10

instance (ds : List Nat) : Decidable (Digits ds) := inferInstanceAs (Decidable (∀ d ∈ ds, d < 10))

section Digits
variable {n d e : Nat} {as ds : List Nat}

lemma digits_cons : Digits (d :: ds) ↔ d < 10 ∧ Digits ds := forall_mem_cons

lemma digits_append : Digits (as ++ ds) ↔ Digits as ∧ Digits ds := forall_mem_append

lemma digits_nil : Digits [] := fun _ h => (not_mem_nil h).elim

lemma digits_replicate (h : d < 10) : Digits (List.replicate n d) := fun _ he => eq_of_mem_replicate he ▸ h

@[simp] lemma value_nil : value [] = 0 := rfl

lemma value_append : value (as ++ ds) = value as * 10 ^ ds.length + value ds := by
  rw [value, reverse_append, Nat.ofDigits_append, length_reverse, add_comm, mul_comm]
  rfl

@[simp] lemma value_singleton : value [d] = d := Nat.ofDigits_singleton

lemma value_cons : value (d :: ds) = d * 10 ^ ds.length + value ds := by
  rw [← singleton_append, value_append, value_singleton]

lemma value_lt (h : Digits ds) : value ds < 10 ^ ds.length := by
  rw [← length_reverse]
  exact Nat.ofDigits_lt_base_pow_length (by decide) fun d hd => h d (mem_reverse.1 hd)

lemma digs_of_lt (h : n < 10) : digs n = [n] := by
  rw [digs, Nat.toDigits_of_lt_base h, map_singleton, Nat.toNat_digitChar_of_lt_ten h, Nat.add_sub_cancel_left]

lemma digs_of_le (h : 10 ≤ n) : digs n = digs (n / 10) ++ [n % 10] := by
  rw [digs, Nat.toDigits_of_base_le (by decide) h, map_append, map_singleton,
    Nat.toNat_digitChar_of_lt_ten (Nat.mod_lt n (by decide)), Nat.add_sub_cancel_left]
  rfl

lemma digs_eq_reverse (h : n ≠ 0) : digs n = (Nat.digits 10 n).reverse := by
  induction n using Nat.strongRecOn with
  | ind n ih =>
    rw [Nat.digits_eq_cons_digits_div (by decide) h, reverse_cons]
    by_cases hlt : n < 10
    · rw [digs_of_lt hlt, Nat.div_eq_of_lt hlt, Nat.mod_eq_of_lt hlt]
      rfl
    · have hle := Nat.le_of_not_lt hlt
      have hdiv : 0 < n / 10 := Nat.div_pos hle (by decide)
      rw [digs_of_le hle, ih _ (Nat.div_lt_self (pos_of_ne_zero h) (by decide)) (ne_of_gt hdiv)]

lemma digits_digs (n : Nat) : Digits (digs n) := by
  by_cases h : n = 0
  · subst h
    exact fun d hd => mem_singleton.1 hd ▸ by decide
  · rw [digs_eq_reverse h]
    exact fun d hd => Nat.digits_lt_base (by decide) (mem_reverse.1 hd)

lemma value_digs (n : Nat) : value (digs n) = n := by
  by_cases h : n = 0
  · subst h
    rfl
  · rw [digs_eq_reverse h, value, reverse_reverse, Nat.ofDigits_digits]

lemma digs_ne_nil (n : Nat) : digs n ≠ [] := fun h => Nat.toDigits_ne_nil (map_eq_nil_iff.1 h)

lemma digs_value (h : Digits (d :: ds)) (hd : d ≠ 0) : digs (value (d :: ds)) = d :: ds := by
  have hpos : value (d :: ds) ≠ 0 := by
    rw [value_cons]
    have := mul_pos (pos_of_ne_zero hd) (Nat.pow_pos (n := ds.length) (show 0 < 10 by decide))
    omega
  rw [digs_eq_reverse hpos, value, Nat.digits_ofDigits 10 (by decide), reverse_reverse]
  · exact fun e he => h e (mem_reverse.1 he)
  · intro hne
    rw [getLast_reverse]
    exact hd

lemma toNat_dig (h : d < 10) : (dig d).toNat = 48 + d := by
  rw [dig, UInt8.toNat_ofNat']
  omega

lemma decimal_eq (n : Nat) : decimal n = (digs n).map dig := by
  rw [decimal, digs, map_map]
  apply map_congr_left
  intro c hc
  have hdigit := Nat.isDigit_of_mem_toDigits (by decide) (by decide) hc
  have hc48 : 48 ≤ c.toNat := by
    have := (Char.isDigit_iff_toNat.1 hdigit).1
    simpa using this
  change _ = UInt8.ofNat (48 + (c.toNat - 48))
  rw [Nat.add_sub_cancel' hc48]

end Digits

end Mallana.Schema
