import Mallana.Server.SlotMemory

/-!
# Reuse of chunks of a cached prompt

The loop of `update_slots` that looks for chunks of the cached prompt in the new one and shifts them to their new
positions, and the truncation behind it.
-/

namespace Mallana.Server

/-- The inner loop: how many tokens are the same. -/
def matchLength : List Int → List Int → Nat
  | x :: xs, y :: ys => if x = y then matchLength xs ys + 1 else 0
  | _, _ => 0

/-- The variables of the loop: `slot.prompt.tokens`, the memory, `n_past` and the two heads. -/
structure Reuse where
  tokens : List Int
  memory : SlotMemory
  nPast : Nat
  headC : Nat
  headP : Nat

/-- A chunk of `n` tokens is shifted to its place in the new prompt. -/
def Reuse.chunk (n : Nat) (s : Reuse) : Option Reuse :=
  (moveTokens n s.headP s.headC s.tokens).map fun tokens =>
    { tokens := tokens
      memory := (s.memory.seqRm s.headP s.headC).seqAdd s.headC (s.headC + n) ((s.headP : Int) - s.headC)
      nPast := s.nPast + n
      headC := s.headC + n
      headP := s.headP + n }

/-- The loop over the cached prompt. -/
def reuseLoop (nCacheReuse : Nat) (input : List Int) : Nat → Reuse → Option Reuse
  | 0, _ => none
  | fuel + 1, s =>
    if s.headC < s.tokens.length ∧ s.headP < input.length then
      let n := matchLength (s.tokens.drop s.headC) (input.drop s.headP)
      if nCacheReuse ≤ n then (s.chunk n).bind (reuseLoop nCacheReuse input fuel)
      else reuseLoop nCacheReuse input fuel { s with headC := s.headC + 1 }
    else some s

/-- `[TAG_PROMPT_LOGITS]`: at least one token is evaluated. -/
def lastPast (input : List Int) (nPast : Nat) : Nat := if nPast = input.length ∧ 0 < nPast then nPast - 1 else nPast

/-- The prompt and the memory after `keep_first` and the removal of what is behind it. -/
def Reuse.truncate (input : List Int) (s : Reuse) : List Int × SlotMemory :=
  let kept := s.tokens.take (lastPast input s.nPast)
  (kept, s.memory.seqRm kept.length (-1))

/-- The kept tokens are those of the new prompt and at their positions, and what was not looked at yet is in place. -/
structure Reuse.Aligned (input : List Int) (size : Nat) (s : Reuse) : Prop where
  past : s.nPast = s.headP
  heads : s.headP ≤ s.headC
  bound : s.headC ≤ size
  length : s.tokens.length = size
  fits : s.headP ≤ input.length
  kept : ∀ k < s.headP, s.tokens[k]? = input[k]?
  front : ∀ k < s.headP, s.memory k = (input[k]?).toList
  behind : ∀ k, s.headC ≤ k → s.memory k = (s.tokens[k]?).toList
  negative : ∀ p < 0, s.memory p = []

section
variable {input cached : List Int} {size n nCacheReuse : Nat} {s : Reuse} {m : SlotMemory}

lemma matchLength_spec (xs ys : List Int) :
    matchLength xs ys ≤ xs.length ∧ matchLength xs ys ≤ ys.length ∧ ∀ k < matchLength xs ys, xs[k]? = ys[k]? := by
  induction xs, ys using matchLength.induct with
  | case1 x xs ys ih =>
    rw [matchLength, if_pos rfl]
    refine ⟨Nat.succ_le_succ ih.1, Nat.succ_le_succ ih.2.1, fun k hk => ?_⟩
    cases k with
    | zero => rfl
    | succ k => exact ih.2.2 k (Nat.lt_of_succ_lt_succ hk)
  | case2 x xs y ys hne =>
    rw [matchLength, if_neg hne]
    exact ⟨Nat.zero_le _, Nat.zero_le _, fun k hk => absurd hk (Nat.not_lt_zero k)⟩
  | case3 xs ys hne =>
    have hzero : matchLength xs ys = 0 := by
      cases xs with
      | nil => rfl
      | cons x xs =>
        cases ys with
        | nil => rfl
        | cons y ys => exact (hne x xs y ys rfl rfl).elim
    rw [hzero]
    exact ⟨Nat.zero_le _, Nat.zero_le _, fun k hk => absurd hk (Nat.not_lt_zero k)⟩

lemma Reuse.Aligned.skip (h : s.Aligned input size) (hlt : s.headC < size) :
    Reuse.Aligned input size { s with headC := s.headC + 1 } :=
  ⟨h.past, Nat.le_succ_of_le h.heads, hlt, h.length, h.fits, h.kept, h.front,
    fun k hk => h.behind k (Nat.le_of_succ_le hk), h.negative⟩

/-- A moved chunk keeps the cells and the tokens aligned. -/
lemma Reuse.Aligned.chunk (h : s.Aligned input size)
    (hn : n ≤ matchLength (s.tokens.drop s.headC) (input.drop s.headP)) :
    ∃ s', s.chunk n = some s' ∧ s'.headC = s.headC + n ∧ s'.Aligned input size := by
  obtain ⟨hcached, hinput, hsame⟩ := matchLength_spec (s.tokens.drop s.headC) (input.drop s.headP)
  rw [List.length_drop] at hcached hinput
  have hheads := h.heads
  have hbound := h.bound
  have hfits := h.fits
  have hlength := h.length
  obtain ⟨moved, hmoved, hsize, hget⟩ := @moveTokens_down n s.headP s.headC s.tokens hheads (by omega)
  have hchunk : ∀ k, s.headP ≤ k → k < s.headP + n → s.tokens[k + (s.headC - s.headP)]? = input[k]? := by
    intro k hlo hhi
    have := hsame (k - s.headP) (by omega)
    rw [List.getElem?_drop, List.getElem?_drop] at this
    rw [show k + (s.headC - s.headP) = s.headC + (k - s.headP) by omega, this,
      show s.headP + (k - s.headP) = k by omega]
  have hmemory : ∀ p : Int, ((s.memory.seqRm s.headP s.headC).seqAdd s.headC (s.headC + n)
      ((s.headP : Int) - s.headC)) p = if s.headP ≤ p ∧ p < s.headP + n then s.memory (p - (s.headP - s.headC))
        else if s.headP ≤ p ∧ p < s.headC + n then [] else s.memory p := by
    intro p
    rw [SlotMemory.seqAdd_down (by omega) (by omega) (by omega) (by omega) fun q hlo hhi => by
      rw [SlotMemory.seqRm_of_nonneg (by omega) (by omega), if_pos (by omega)]]
    rw [SlotMemory.seqRm_of_nonneg (by omega) (by omega), SlotMemory.seqRm_of_nonneg (by omega) (by omega)]
    grind
  refine ⟨_, by rw [Reuse.chunk, hmoved, Option.map_some], rfl, ?_⟩
  constructor
  · exact congrArg (· + n) h.past
  · exact Nat.add_le_add_right hheads n
  · dsimp only
    omega
  · exact hsize.trans hlength
  · dsimp only
    omega
  · intro k hk
    dsimp only at hk ⊢
    rw [hget]
    split
    · exact hchunk k (by omega) (by omega)
    · exact h.kept k (by omega)
  · intro k hk
    dsimp only at hk ⊢
    rw [hmemory]
    split
    · rename_i hin
      rw [← hchunk k (by omega) (by omega), ← h.behind _ (by omega)]
      congr 1
      omega
    · rw [if_neg (by omega)]
      exact h.front k (by omega)
  · intro k hk
    dsimp only at hk ⊢
    rw [hmemory, if_neg (by omega), if_neg (by omega), hget, if_neg (by omega)]
    exact h.behind k (by omega)
  · intro p hp
    dsimp only
    rw [hmemory, if_neg (by omega), if_neg (by omega)]
    exact h.negative p hp

lemma reuseLoop_aligned (hreuse : 0 < nCacheReuse) {fuel : Nat} (h : s.Aligned input size) (hfuel : size - s.headC < fuel) :
    ∃ s', reuseLoop nCacheReuse input fuel s = some s' ∧ s'.Aligned input size := by
  induction fuel generalizing s with
  | zero => exact absurd hfuel (Nat.not_lt_zero _)
  | succ fuel ih =>
    rw [reuseLoop]
    split
    · rename_i hlt
      rw [h.length] at hlt
      dsimp only
      split
      · rename_i hle
        obtain ⟨s', hs', hhead, haligned⟩ := h.chunk le_rfl
        rw [hs', Option.bind_some]
        exact ih haligned (by omega)
      · exact ih (h.skip hlt.1) (by dsimp only; omega)
    · exact ⟨s, rfl, h⟩

lemma Reuse.Aligned.truncate (h : s.Aligned input size) (hsize : size ≤ posMax) :
    (s.truncate input).1 = input.take (lastPast input s.nPast) ∧ (s.truncate input).2.Holds (s.truncate input).1 := by
  have hlast : lastPast input s.nPast ≤ s.headP := by
    rw [lastPast, h.past]
    split
    · exact Nat.sub_le _ _
    · exact le_rfl
  have hheads := h.heads
  have hbound := h.bound
  have hlength := h.length
  have hfits := h.fits
  have hkept : s.tokens.take (lastPast input s.nPast) = input.take (lastPast input s.nPast) := by
    refine List.ext_getElem? fun k => ?_
    rw [List.getElem?_take, List.getElem?_take]
    split
    · exact h.kept k (by omega)
    · rfl
  refine ⟨hkept, fun p => ?_⟩
  rw [Reuse.truncate, hkept]
  generalize lastPast input s.nPast = last at hlast
  have hlen : (input.take last).length = last := by
    rw [List.length_take]
    omega
  dsimp only
  rw [hlen, SlotMemory.seqRm, SlotMemory.rangeEnd, if_pos (show (-1 : Int) < 0 by decide),
    max_eq_left (Int.natCast_nonneg last), List.getElem?_take]
  by_cases hneg : p < 0
  · rw [if_neg (by omega), if_neg (by omega), h.negative p hneg]
  · obtain ⟨k, rfl⟩ := Int.eq_ofNat_of_zero_le (Int.not_lt.1 hneg)
    rw [if_pos (Int.natCast_nonneg k), Int.toNat_natCast]
    by_cases hk : k < last
    · rw [if_neg (by omega), if_pos hk]
      exact h.front k (by omega)
    · rw [if_neg hk]
      split
      · rfl
      · rename_i hout
        rw [h.behind k (by omega), List.getElem?_eq_none (by omega)]

end

/-- After the reuse of chunks the slot keeps a beginning of the new prompt, and the memory holds it and nothing else. -/
theorem reuse_holds {cached input : List Int} {nPast nCacheReuse : Nat} {m : SlotMemory} (hm : m.Holds cached)
    (hsize : cached.length ≤ posMax) (hcommon : cached.take nPast = input.take nPast) (hcached : nPast ≤ cached.length)
    (hinput : nPast ≤ input.length) (hreuse : 1 ≤ nCacheReuse) :
    ∃ s, (∃ fuel, reuseLoop nCacheReuse input fuel ⟨cached, m, nPast, nPast, nPast⟩ = some s) ∧
      s.nPast ≤ input.length ∧ (s.truncate input).1 = input.take (lastPast input s.nPast) ∧
      (s.truncate input).2.Holds (input.take (lastPast input s.nPast)) := by
  have hkept : ∀ k < nPast, cached[k]? = input[k]? := by
    intro k hk
    have := congrArg (·[k]?) hcommon
    simpa [List.getElem?_take, hk] using this
  have haligned : Reuse.Aligned input cached.length ⟨cached, m, nPast, nPast, nPast⟩ := by
    refine ⟨rfl, le_rfl, hcached, rfl, hinput, hkept, fun k hk => ?_, fun k hk => ?_, fun p hp => ?_⟩
    · rw [← hkept k hk]
      simpa using hm k
    · simpa using hm k
    · exact (hm p).trans (if_neg (Int.not_le.2 hp))
  obtain ⟨s, hs, hend⟩ := reuseLoop_aligned hreuse haligned (Nat.lt_succ_self _)
  obtain ⟨htokens, hholds⟩ := hend.truncate hsize
  refine ⟨s, ⟨_, hs⟩, ?_, htokens, htokens ▸ hholds⟩
  rw [hend.past]
  exact hend.fits

/-- The cached tokens of a prompt, of which the first is kept. -/
def fourCached : Reuse :=
  ⟨[1, 2, 3, 4], fun p => if 0 ≤ p then (([1, 2, 3, 4] : List Int)[p.toNat]?).toList else [], 1, 1, 1⟩

/-- A prompt in which the second cached token is left out: three tokens are reused. -/
theorem reuse_holds_gap : (reuseLoop 1 [1, 3, 4, 5] 9 fourCached).map (·.nPast) = some 3 ∧
    ∃ s, (∃ fuel, reuseLoop 1 [1, 3, 4, 5] fuel fourCached = some s) ∧ s.nPast ≤ 4 ∧
      (s.truncate [1, 3, 4, 5]).1 = [1, 3, 4, 5].take (lastPast [1, 3, 4, 5] s.nPast) ∧
      (s.truncate [1, 3, 4, 5]).2.Holds ([1, 3, 4, 5].take (lastPast [1, 3, 4, 5] s.nPast)) := by
  refine ⟨by decide, ?_⟩
  exact reuse_holds (fun _ => rfl) (by decide) rfl (by decide) (by decide) (by decide)

end Mallana.Server
