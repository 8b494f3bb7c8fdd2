import Mathlib.Algebra.Order.Ring.Int

/-!
# The memory of a slot

What the memory module holds of the sequence of a slot: for each position the tokens whose states were computed for it,
with `llama_kv_cache::seq_rm` and `seq_add` on a range of positions. `tokens` of the slot are moved in place next to it.
-/

namespace Mallana.Server

/-- The tokens at each position. -/
abbrev SlotMemory := Int → List Int

/-- The largest `llama_pos`. -/
def posMax : Int := 2147483647

namespace SlotMemory

/-- The end of a range: a negative one stands for no end. -/
def rangeEnd (p1 : Int) : Int := if p1 < 0 then posMax else p1

/-- `llama_kv_cache::seq_rm`. -/
def seqRm (p0 p1 : Int) (m : SlotMemory) : SlotMemory := fun p => if max p0 0 ≤ p ∧ p < rangeEnd p1 then [] else m p

/-- `llama_kv_cache::seq_add`; a cell whose position becomes negative is freed. -/
def seqAdd (p0 p1 shift : Int) (m : SlotMemory) : SlotMemory := fun p =>
  if shift = 0 ∨ max p0 0 = rangeEnd p1 then m p
  else (if max p0 0 ≤ p ∧ p < rangeEnd p1 then [] else m p) ++
    if 0 ≤ p ∧ max p0 0 ≤ p - shift ∧ p - shift < rangeEnd p1 then m (p - shift) else []

/-- The memory holds these tokens, each at its place, and nothing else. -/
def Holds (m : SlotMemory) (tokens : List Int) : Prop := ∀ p, m p = if 0 ≤ p then (tokens[p.toNat]?).toList else []

section
variable {m : SlotMemory} {tokens : List Int} {n p0 p1 shift p : Int}

lemma seqRm_of_nonneg (h0 : 0 ≤ p0) (h1 : 0 ≤ p1) : m.seqRm p0 p1 p = if p0 ≤ p ∧ p < p1 then [] else m p := by
  rw [seqRm, rangeEnd, if_neg (Int.not_lt.2 h1), max_eq_left h0]

lemma seqAdd_down (h0 : 0 ≤ p0) (h1 : p0 ≤ p1) (hshift : shift ≤ 0) (hnonneg : 0 ≤ p0 + shift)
    (hgap : ∀ p, p0 + shift ≤ p → p < p0 → m p = []) : m.seqAdd p0 p1 shift p =
      if p0 + shift ≤ p ∧ p < p1 + shift then m (p - shift) else if p0 ≤ p ∧ p < p1 then [] else m p := by
  rw [seqAdd, rangeEnd, if_neg (Int.not_lt.2 (h0.trans h1)), max_eq_left h0]
  by_cases hsame : shift = 0 ∨ p0 = p1
  · rw [if_pos hsame]
    rcases hsame with rfl | rfl
    · simp only [add_zero, sub_zero]
      split <;> rfl
    · rw [if_neg (by omega), if_neg (by omega)]
  · rw [if_neg hsame]
    by_cases hto : p0 + shift ≤ p ∧ p < p1 + shift
    · rw [if_pos hto, if_pos (show 0 ≤ p ∧ p0 ≤ p - shift ∧ p - shift < p1 by omega)]
      by_cases hfrom : p0 ≤ p ∧ p < p1
      · rw [if_pos hfrom, List.nil_append]
      · rw [if_neg hfrom, hgap p hto.1 (by omega), List.nil_append]
    · rw [if_neg hto, if_neg (show ¬ (0 ≤ p ∧ p0 ≤ p - shift ∧ p - shift < p1) by omega), List.append_nil]

end

end SlotMemory

/-- Tokens are moved in place one by one; `none` if a place is outside the list. -/
def moveTokens : Nat → Nat → Nat → List Int → Option (List Int)
  | 0, _, _, tokens => some tokens
  | n + 1, dst, src, tokens =>
    match tokens[src]? with
    | none => none
    | some token => if dst < tokens.length then moveTokens n (dst + 1) (src + 1) (tokens.set dst token) else none

lemma moveTokens_down {n dst src : Nat} {tokens : List Int} (hle : dst ≤ src) (hsrc : src + n ≤ tokens.length) :
    ∃ moved, moveTokens n dst src tokens = some moved ∧ moved.length = tokens.length ∧
      ∀ k, moved[k]? = if dst ≤ k ∧ k < dst + n then tokens[k + (src - dst)]? else tokens[k]? := by
  induction n generalizing dst src tokens with
  | zero => exact ⟨tokens, rfl, rfl, fun k => by rw [if_neg (by omega)]⟩
  | succ n ih =>
    have hlt : src < tokens.length := by omega
    obtain ⟨moved, hmoved, hlength, hget⟩ := @ih (dst + 1) (src + 1) (tokens.set dst tokens[src]) (by omega)
      (by rw [List.length_set]; omega)
    rw [List.length_set] at hlength
    refine ⟨moved, ?_, hlength, fun k => ?_⟩
    · rw [moveTokens, List.getElem?_eq_getElem hlt]
      simp only [if_pos (lt_of_le_of_lt hle hlt)]
      exact hmoved
    · rw [hget k, show src + 1 - (dst + 1) = src - dst by omega]
      by_cases hk : k = dst
      · subst hk
        rw [if_neg (by omega), if_pos (by omega), List.getElem?_set_self (by omega),
          show k + (src - k) = src by omega, List.getElem?_eq_getElem hlt]
      · rw [List.getElem?_set_ne (Ne.symm hk)]
        by_cases hin : dst + 1 ≤ k ∧ k < dst + 1 + n
        · rw [if_pos hin, if_pos (by omega), List.getElem?_set_ne (by omega)]
        · rw [if_neg hin, if_neg (by omega)]

end Mallana.Server
