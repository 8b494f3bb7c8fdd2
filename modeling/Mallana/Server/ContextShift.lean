import Mallana.Server.SlotMemory

/-!
# The context shift

When a slot is about to overflow, `update_slots` takes `n_discard` tokens out behind the first `n_keep` and shifts the
rest down, in the memory and in the list of tokens. Both numbers come from the request as they are.
-/

namespace Mallana.Server

/-- What the shift reads of the server, the slot and its task. -/
structure ShiftParams where
  nCtx : Int
  addBosToken : Bool
  nTaskTokens : Nat
  nKeep : Int
  nDiscard : Int

/-- `int`; the result of an overflow is undefined. -/
def toInt (x : Int) : Option Int := if -2147483648 ≤ x ∧ x ≤ 2147483647 then some x else none

/-- `size_t`. -/
def toSize (x : Int) : Nat := (x % 18446744073709551616).toNat

/-- The number of elements that a vector of tokens can have. -/
def maxTokens : Nat := 2305843009213693951

/-- `n_keep`. -/
def ShiftParams.keep (c : ShiftParams) : Option Int :=
  (toInt ((if c.nKeep < 0 then (c.nTaskTokens : Int) else c.nKeep) + if c.addBosToken then 1 else 0)).map (min (c.nCtx - 4))

/-- `n_discard`, of `n` tokens. -/
def ShiftParams.discard (c : ShiftParams) (keep : Int) (n : Nat) : Int :=
  if c.nDiscard ≠ 0 then c.nDiscard else ((n : Int) - keep).tdiv 2

/-- The loop that moves the tokens, and the `resize`; `none` where it leaves the list or the length is too large. -/
def shiftTokens (discard stop : Int) (tokens : List Int) : Option (List Int) := do
  let start := toSize stop
  let moved ← moveTokens (tokens.length - start) (toSize (stop - discard)) start tokens
  let size := toSize ((tokens.length : Int) - discard)
  if size ≤ maxTokens then some (moved.take size ++ List.replicate (size - tokens.length) 0) else none

/-- The context shift of a slot: its tokens and its memory. -/
def contextShift (c : ShiftParams) (tokens : List Int) (m : SlotMemory) : Option (List Int × SlotMemory) := do
  let keep ← c.keep
  let discard := c.discard keep tokens.length
  let stop ← toInt (keep + discard)
  let shift ← toInt (-discard)
  let new ← shiftTokens discard stop tokens
  some (new, (m.seqRm keep stop).seqAdd stop tokens.length shift)

/-- The block of `n_discard` tokens behind the first `n_keep` is taken out, and the memory holds what is left. -/
def Shifted (c : ShiftParams) (tokens : List Int) (m : SlotMemory) : Prop :=
  ∃ keep new m', c.keep = some keep ∧ contextShift c tokens m = some (new, m') ∧
    new = tokens.take keep.toNat ++ tokens.drop (keep + c.discard keep tokens.length).toNat ∧
    new.length < tokens.length ∧ keep ≤ new.length ∧ m'.Holds new

section
variable {c : ShiftParams} {tokens : List Int} {m : SlotMemory} {keep discard : Nat}

lemma toInt_eq {x y : Int} (h : toInt x = some y) : y = x ∧ -2147483648 ≤ x ∧ x ≤ 2147483647 := by
  rw [toInt] at h
  split at h
  · rename_i hfits
    exact ⟨(Option.some.inj h).symm, hfits⟩
  · cases h

lemma toSize_of_nonneg {x : Int} (h0 : 0 ≤ x) (h1 : x < 18446744073709551616) : toSize x = x.toNat := by
  rw [toSize, Int.emod_eq_of_lt h0 h1]

lemma shiftTokens_block (hfits : keep + discard ≤ tokens.length) (hlen : tokens.length ≤ 2147483647) :
    shiftTokens discard (keep + discard : Nat) tokens = some (tokens.take keep ++ tokens.drop (keep + discard)) := by
  obtain ⟨moved, hmoved, hlength, hget⟩ := @moveTokens_down (tokens.length - (keep + discard)) keep (keep + discard)
    tokens (Nat.le_add_right _ _) (by omega)
  have hstart : toSize ((keep + discard : Nat) : Int) = keep + discard := by
    rw [toSize_of_nonneg (by omega) (by omega), Int.toNat_natCast]
  have hdst : toSize (((keep + discard : Nat) : Int) - discard) = keep := by
    rw [toSize_of_nonneg (by omega) (by omega)]
    omega
  have hsize : toSize ((tokens.length : Int) - discard) = tokens.length - discard := by
    rw [toSize_of_nonneg (by omega) (by omega)]
    omega
  rw [shiftTokens, hstart, hdst, hmoved, Option.bind_eq_bind, Option.bind_some, hsize,
    if_pos (show tokens.length - discard ≤ maxTokens by rw [maxTokens]; omega),
    Nat.sub_eq_zero_of_le (Nat.sub_le _ _), List.replicate_zero, List.append_nil]
  refine congrArg some (List.ext_getElem? fun k => ?_)
  rw [List.getElem?_take, List.getElem?_append, List.length_take, List.getElem?_take, List.getElem?_drop, hget]
  grind

lemma length_shiftTokens {discard stop : Int} {new : List Int} (h : shiftTokens discard stop tokens = some new)
    (hlen : tokens.length ≤ 2147483647) (hdiscard : -2147483648 ≤ discard ∧ discard ≤ 2147483647) :
    (new.length : Int) = tokens.length - discard := by
  obtain ⟨moved, hmoved, h⟩ := Option.bind_eq_some_iff.1 h
  have hlength : ∀ {n dst src : Nat} {l l' : List Int}, moveTokens n dst src l = some l' → l'.length = l.length := by
    intro n
    induction n with
    | zero =>
      intro _ _ _ _ h
      cases h
      rfl
    | succ n ih =>
      intro dst src l l' h
      rw [moveTokens] at h
      split at h
      · cases h
      · split at h
        · rw [ih h, List.length_set]
        · cases h
  have hmove := hlength hmoved
  dsimp only at h
  split at h
  · rename_i hmax
    cases h
    rw [List.length_append, List.length_take, List.length_replicate, hmove]
    rw [maxTokens, toSize] at hmax
    rw [toSize]
    omega
  · cases h

lemma tokens_of_contextShift {keep : Int} {new : List Int} {m' : SlotMemory} (hk : c.keep = some keep)
    (h : contextShift c tokens m = some (new, m')) :
    ∃ stop, shiftTokens (c.discard keep tokens.length) stop tokens = some new := by
  simp only [contextShift, hk, Option.bind_eq_bind, Option.bind_some] at h
  obtain ⟨stop, _, h⟩ := Option.bind_eq_some_iff.1 h
  obtain ⟨shift, _, h⟩ := Option.bind_eq_some_iff.1 h
  obtain ⟨moved, hmoved, h⟩ := Option.bind_eq_some_iff.1 h
  cases h
  exact ⟨stop, hmoved⟩

/-- The shift keeps tokens and memory in line exactly if `n_keep` does not overflow and `n_discard`, where it is given,
is between 1 and the number of tokens behind the kept ones. -/
theorem shifted_iff (hctx : 8 ≤ c.nCtx ∧ c.nCtx ≤ 2147483647) (htask : (c.nTaskTokens : Int) < c.nCtx)
    (hkeep : c.nKeep ≤ 2147483647) (hdiscard : -2147483648 ≤ c.nDiscard ∧ c.nDiscard ≤ 2147483647)
    (hfull : c.nCtx ≤ tokens.length + 1) (hlen : tokens.length ≤ 2147483647) (hm : m.Holds tokens) :
    Shifted c tokens m ↔ ¬ (c.addBosToken = true ∧ c.nKeep = 2147483647) ∧ (c.nDiscard = 0 ∨ 0 < c.nDiscard ∧
        c.nDiscard ≤ tokens.length - min (c.nCtx - 4)
          ((if c.nKeep < 0 then (c.nTaskTokens : Int) else c.nKeep) + if c.addBosToken then 1 else 0)) := by
  generalize hbase : (if c.nKeep < 0 then (c.nTaskTokens : Int) else c.nKeep) + (if c.addBosToken then 1 else 0) = base
  have hrange : 0 ≤ base ∧ (base ≤ 2147483647 ↔ ¬ (c.addBosToken = true ∧ c.nKeep = 2147483647)) := by
    rw [← hbase]
    cases c.addBosToken <;> simp <;> split <;> omega
  rw [← hrange.2]
  by_cases hbig : base ≤ 2147483647
  · have hk : c.keep = some (min (c.nCtx - 4) base) := by
      rw [ShiftParams.keep, hbase, toInt, if_pos (by omega), Option.map_some]
    obtain ⟨keep, hkeepNat⟩ := Int.eq_ofNat_of_zero_le (show 0 ≤ min (c.nCtx - 4) base by omega)
    simp only [hbig, true_and]
    rw [hkeepNat] at hk ⊢
    constructor
    · rintro ⟨k, new, m', hk', hrun, _, hless, hmore, _⟩
      obtain rfl := Option.some.inj (hk.symm.trans hk')
      obtain ⟨stop, hmoved⟩ := tokens_of_contextShift hk hrun
      by_cases hzero : c.nDiscard = 0
      · exact .inl hzero
      · have hd : c.discard keep tokens.length = c.nDiscard := if_pos hzero
        rw [hd] at hmoved
        have hlength := length_shiftTokens hmoved hlen hdiscard
        exact .inr (by omega)
    · intro hcond
      obtain ⟨discard, hd, hpos, hle⟩ : ∃ discard : Nat, c.discard keep tokens.length = discard ∧ 0 < discard ∧
          keep + discard ≤ tokens.length := by
        rw [ShiftParams.discard]
        rcases hcond with hzero | ⟨hpos, hle⟩
        · rw [if_neg (not_not.2 hzero), Int.tdiv_eq_ediv_of_nonneg (by omega)]
          exact ⟨((tokens.length : Int) - keep).toNat / 2, by omega, by omega, by omega⟩
        · rw [if_pos hpos.ne']
          exact ⟨c.nDiscard.toNat, by omega, by omega, by omega⟩
      have hstop : toInt (keep + discard) = some ((keep + discard : Nat) : Int) := by
        rw [toInt, if_pos (by omega), Nat.cast_add]
      have hneg : toInt (-(discard : Int)) = some (-(discard : Int)) := by rw [toInt, if_pos (by omega)]
      refine ⟨keep, tokens.take keep ++ tokens.drop (keep + discard),
        (m.seqRm keep (keep + discard : Nat)).seqAdd (keep + discard : Nat) tokens.length (-(discard : Int)), hk,
        ?_, ?_, ?_, ?_, ?_⟩
      · simp only [contextShift, hk, Option.bind_eq_bind, Option.bind_some, hd, hstop, hneg, shiftTokens_block hle hlen]
      · rw [hd, Int.toNat_natCast, ← Nat.cast_add, Int.toNat_natCast]
      · rw [List.length_append, List.length_take, List.length_drop]
        omega
      · rw [List.length_append, List.length_take, List.length_drop]
        omega
      · intro p
        rw [SlotMemory.seqAdd_down (by omega) (by omega) (by omega) (by omega) fun q hlo hhi => by
          rw [SlotMemory.seqRm_of_nonneg (by omega) (by omega), if_pos (by omega)]]
        rw [SlotMemory.seqRm_of_nonneg (by omega) (by omega), SlotMemory.seqRm_of_nonneg (by omega) (by omega),
          hm, hm, List.getElem?_append, List.length_take, List.getElem?_take, List.getElem?_drop]
        grind
  · constructor
    · rintro ⟨keep, _, _, hk, _⟩
      rw [ShiftParams.keep, hbase, toInt, if_neg (by omega)] at hk
      cases hk
    · exact fun h => absurd h.1 hbig

end

def shiftParams (nKeep nDiscard : Int) : ShiftParams where
  nCtx := 8
  addBosToken := true
  nTaskTokens := 3
  nKeep := nKeep
  nDiscard := nDiscard

def heldTokens : SlotMemory := fun p => if 0 ≤ p then (([1, 2, 3, 4, 5, 6, 7] : List Int)[p.toNat]?).toList else []

/-- The default values, with the first token kept. -/
theorem shifted_default : Shifted (shiftParams 0 0) [1, 2, 3, 4, 5, 6, 7] heldTokens ↔
    ¬ ((shiftParams 0 0).addBosToken = true ∧ (0 : Int) = 2147483647) ∧
      ((0 : Int) = 0 ∨ 0 < (0 : Int) ∧ (0 : Int) ≤ 7 - min (8 - 4) ((if (0 : Int) < 0 then (3 : Int) else 0) + 1)) :=
  @shifted_iff (shiftParams 0 0) [1, 2, 3, 4, 5, 6, 7] heldTokens (by decide) (by decide) (by decide) (by decide)
    (by decide) (by decide) fun _ => rfl

/-- With `n_discard = -1` the list grows. -/
theorem shifted_negative : ¬ Shifted (shiftParams 0 (-1)) [1, 2, 3, 4, 5, 6, 7] heldTokens := by
  rintro ⟨keep, new, m', hkeep, hrun, _, hless, _⟩
  have hk : (shiftParams 0 (-1)).keep = some 1 := by decide
  rw [hk] at hkeep
  cases hkeep
  obtain ⟨stop, hmoved⟩ := tokens_of_contextShift hk hrun
  have hlength := length_shiftTokens hmoved (by decide) (by decide)
  rw [show (shiftParams 0 (-1)).discard 1 ([1, 2, 3, 4, 5, 6, 7] : List Int).length = -1 by decide] at hlength
  simp at hlength hless
  omega

end Mallana.Server
