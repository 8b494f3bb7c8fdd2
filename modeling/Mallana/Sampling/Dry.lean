import Mathlib.Order.Bounds.Basic
import Mallana.Sampling.Samplers

/-!
# Repetitions

The Z-algorithm of the DRY sampler reads the window from its end and clamps every count to the limit, also those that it uses
again. `repeats_exact`: the counts are exact, and so is the longest repetition that a token would go on.
-/

namespace Mallana.Sampling.Dry

open List

/-- The longest common suffix of the last `last` tokens and of those without the last `k` has `n` tokens. -/
structure Repeats (rat : Nat → LlamaToken) (last k n : Nat) : Prop where
  le : k + n ≤ last
  agree : ∀ j < n, rat j = rat (k + j)
  stop : k + n < last → rat n ≠ rat (k + n)

lemma Repeats.unique {rat : Nat → LlamaToken} {last k n m : Nat} (h : Repeats rat last k n) (h' : Repeats rat last k m) :
    n = m := by
  rcases lt_trichotomy n m with hlt | heq | hgt
  · exact absurd (h'.agree n hlt) (h.stop (lt_of_lt_of_le (Nat.add_lt_add_left hlt k) h'.le))
  · exact heq
  · exact absurd (h.agree m hgt) (h'.stop (lt_of_lt_of_le (Nat.add_lt_add_left hgt k) h.le))

/-- The largest number of a set, `none` if it is empty. -/
def IsBest (s : Set Int) : Option Int → Prop
  | none => s = ∅
  | some n => IsGreatest s n

/-- Where `extend` reads the ring buffer. -/
def extendReads (rat : Nat → LlamaToken) (last k : Nat) : Nat → Nat → List Nat
  | 0, _ => []
  | more + 1, i =>
    if i < last then i :: (i - k) :: if rat i = rat (i - k) then extendReads rat last k more (i + 1) else [] else []

/-- Where `zRound` reads it. -/
def zReads (rat : Nat → LlamaToken) (last : Nat) (z : List Int × Int × Int) (k : Nat) : List Nat :=
  if z.2.1 < k then extendReads rat last k last k else extendReads rat last k last (z.2.1.toNat + 1)

/-- Where `repLimit` reads it, up to the end of each tail. -/
def limitReads (rat : Nat → LlamaToken) (tailsOf : LlamaToken → List (List LlamaToken)) : Nat → Nat → List Nat
  | 0, _ => []
  | more + 1, i =>
    i :: ((tailsOf (rat i)).flatMap fun tail =>
      if tail.length ≤ i then (List.range tail.length).map fun offset => i - offset - 1 else []) ++
      if 0 ≤ longestMatch rat i (tailsOf (rat i)) then [] else limitReads rat tailsOf more (i + 1)

/-- Where `maxRepeats` reads it. -/
def maxReads (last : Nat) : List Nat := (List.range (last - 1)).map fun i => last - 2 - i

variable {rat : Nat → LlamaToken} {last k l n m i : Nat} {limit : Int}

lemma extendReads_lt {more : Nat} : ∀ r ∈ extendReads rat last k more i, r < last := by
  induction more generalizing i with
  | zero => nofun
  | succ more ih =>
    rw [extendReads]
    split
    next hi =>
      refine forall_mem_cons.2 ⟨hi, forall_mem_cons.2 ⟨lt_of_le_of_lt (Nat.sub_le i k) hi, ?_⟩⟩
      split
      · exact ih
      · nofun
    next => nofun

lemma limitReads_lt {tailsOf : LlamaToken → List (List LlamaToken)} {more : Nat} (h : i + more ≤ last) :
    ∀ r ∈ limitReads rat tailsOf more i, r < last := by
  induction more generalizing i with
  | zero => nofun
  | succ more ih =>
    intro r hr
    rw [limitReads, cons_append, mem_cons, mem_append, mem_flatMap] at hr
    obtain rfl | ⟨tail, -, hr⟩ | hr := hr
    · omega
    · split at hr
      · obtain ⟨offset, -, rfl⟩ := mem_map.1 hr
        omega
      · cases hr
    · split at hr
      · cases hr
      · exact ih (by omega) r hr

lemma extend_spec (more n : Nat) (hmore : last ≤ k + n + more) (hle : k + n ≤ last)
    (hagree : ∀ j < n, rat j = rat (k + j)) : ∃ m, n ≤ m ∧ extend rat last k more (k + n) = k + m ∧ Repeats rat last k m := by
  induction more generalizing n with
  | zero => exact ⟨n, le_refl _, rfl, hle, hagree, fun h => by omega⟩
  | succ more ih =>
    rw [extend, Nat.add_sub_cancel_left]
    split
    next h =>
      obtain ⟨m, hm, hrun, hrep⟩ := ih (n + 1) (by omega) (by omega) fun j hj => by
        obtain hj | rfl := Nat.lt_succ_iff_lt_or_eq.1 hj
        · exact hagree j hj
        · exact h.2.symm
      exact ⟨m, by omega, hrun, hrep⟩
    next h => exact ⟨n, le_refl _, rfl, hle, hagree, fun hlt heq => h ⟨hlt, heq.symm⟩⟩

/-- Before round `k`: the counts of the rounds before are there, and a box that reaches `k` is a repetition. -/
structure ZInv (rat : Nat → LlamaToken) (last : Nat) (limit : Int) (k : Nat) (z : List Int × Int × Int) : Prop where
  length : z.1.length = last
  counts : ∀ j, 1 ≤ j → j < k → ∃ n, Repeats rat last j n ∧ z.1.getD (last - 1 - j) 0 = min (n : Int) limit
  box : (k : Int) ≤ z.2.1 → ∃ l n : Nat, z.2.2 = l ∧ 1 ≤ l ∧ l < k ∧ Repeats rat last l n ∧ z.2.1 = l + n - 1

lemma ZInv.put {counts : List Int} {rt lt rt' lt' : Int} (h : ZInv rat last limit k (counts, rt, lt)) (hk : k < last)
    (hrep : Repeats rat last k n) (hbox : (k : Int) + 1 ≤ rt' →
      ∃ l n : Nat, lt' = l ∧ 1 ≤ l ∧ l < k + 1 ∧ Repeats rat last l n ∧ rt' = l + n - 1) :
    ZInv rat last limit (k + 1) (counts.set (last - 1 - k) (min (n : Int) limit), rt', lt') := by
  have hlen : counts.length = last := h.length
  refine ⟨by rw [length_set]; exact hlen, fun j hj hjk => ?_, fun hle => hbox (by exact_mod_cast hle)⟩
  obtain hlt | rfl := Nat.lt_succ_iff_lt_or_eq.1 hjk
  · obtain ⟨n', hrep', hcount⟩ := h.counts j hj hlt
    refine ⟨n', hrep', ?_⟩
    rw [← hcount, getD_eq_getElem?_getD, getD_eq_getElem?_getD, getElem?_set_ne (by omega)]
  · refine ⟨n, hrep, ?_⟩
    rw [getD_eq_getElem?_getD, getElem?_set_self (by omega)]
    rfl

/-- One round of the Z-algorithm keeps the box. -/
lemma ZInv.zRound {z : List Int × Int × Int} (h : ZInv rat last limit k z) (hk : 1 ≤ k) (hlast : k < last) :
    ZInv rat last limit (k + 1) (zRound rat last limit z k) := by
  obtain ⟨counts, rt, lt⟩ := z
  have hsub : ∀ n : Nat, ((k + n : Nat) : Int) - k = n := fun n => by omega
  unfold Dry.zRound
  dsimp only
  by_cases hout : rt < k
  · obtain ⟨n, -, hrun, hrep⟩ := extend_spec last 0 (Nat.le_add_left last (k + 0)) hlast.le (nofun : ∀ j < 0, rat j = _)
    rw [add_zero] at hrun
    rw [if_pos hout, hrun, hsub]
    refine h.put hlast hrep fun hle => ?_
    by_cases hpos : (0 : Int) < n
    · rw [if_pos hpos, if_pos hpos]
      exact ⟨k, n, rfl, hk, Nat.lt_succ_self k, hrep, rfl⟩
    · rw [if_neg hpos] at hle
      omega
  · obtain ⟨l, m, rfl, hl, hlk, hrep, hrt⟩ := h.box (Int.not_lt.1 hout)
    dsimp only at hrt
    have hle := hrep.le
    obtain ⟨w, hw⟩ := Nat.exists_eq_add_of_le (by omega : k ≤ l + m)
    obtain ⟨q, hq, hcount⟩ := h.counts (k - l) (by omega) (by omega)
    dsimp only at hcount
    -- inside the box the window repeats, so place `k` is like its pair
    have hpair : ∀ j < w, rat (k - l + j) = rat (k + j) := fun j hj => by
      rw [hrep.agree (k - l + j) (by omega), ← add_assoc, Nat.add_sub_cancel' hlk.le]
    have hagree : ∀ j < w, j < q → rat j = rat (k + j) := fun j hj hjq => (hq.agree j hjq).trans (hpair j hj)
    have hright : rt - k + 1 = w := by omega
    rw [if_neg hout, Int.toNat_natCast, hcount, hright]
    split
    next hsmall =>
      have hbox : (k : Int) + 1 ≤ rt →
          ∃ l' n : Nat, (l : Int) = l' ∧ 1 ≤ l' ∧ l' < k + 1 ∧ Repeats rat last l' n ∧ rt = l' + n - 1 :=
        fun _ => ⟨l, m, rfl, hl, by omega, hrep, hrt⟩
      rw [min_assoc, min_self]
      rcases lt_or_ge q w with hqw | hqw
      · refine h.put hlast ⟨by omega, fun j hj => hagree j (hj.trans hqw) hj, fun _ heq => ?_⟩ hbox
        exact hq.stop (by omega) (heq.trans (hpair q hqw).symm)
      · -- the count of the pair was clamped, and this one is clamped as well
        obtain ⟨n, hn, -, hrep'⟩ := extend_spec last w (Nat.le_add_left last (k + w)) (hw ▸ hle) fun j hj => hagree j hj (by omega)
        have hlimit : limit < w := (min_lt_iff.1 hsmall).resolve_left (Int.not_lt.2 (Int.ofNat_le.2 hqw))
        have heq : min (q : Int) limit = min (n : Int) limit := by
          rw [min_eq_right (hlimit.le.trans (Int.ofNat_le.2 hqw)), min_eq_right (hlimit.le.trans (Int.ofNat_le.2 hn))]
        rw [heq]
        exact h.put hlast hrep' hbox
    next hlarge =>
      obtain ⟨n, hn, hrun, hrep'⟩ := extend_spec last w (Nat.le_add_left last (k + w)) (hw ▸ hle) fun j hj => hagree j hj (by omega)
      rw [show rt.toNat + 1 = k + w by omega, hrun, hsub]
      exact h.put hlast hrep' fun _ => ⟨k, n, rfl, hk, Nat.lt_succ_self k, hrep', by omega⟩

lemma zInv_foldl (hm : m < last) : ZInv rat last limit (m + 1)
    ((range' 1 m).foldl (zRound rat last limit) (replicate last 0, 0, 0)) := by
  induction m with
  | zero => exact ⟨length_replicate, fun j hj hlt => by omega, fun h => absurd h (Int.not_le.2 Int.zero_lt_one)⟩
  | succ m ih =>
    rw [range'_1_concat, foldl_append, add_comm 1 m]
    exact (ih (Nat.lt_of_succ_lt hm)).zRound (Nat.succ_pos m) hm

lemma IsBest.insert {s : Set Int} {best : Option Int} (h : IsBest s best) (c : Int) :
    IsBest (insert c s) (if best.all fun n => n < c then some c else best) := by
  cases best with
  | none =>
    obtain rfl : s = ∅ := h
    exact ⟨Set.mem_insert _ _, fun x hx => by simp at hx; omega⟩
  | some n =>
    have hn : IsGreatest s n := h
    by_cases hlt : n < c
    · rw [if_pos (by simpa using hlt)]
      refine ⟨Set.mem_insert _ _, fun x hx => ?_⟩
      obtain rfl | hx := hx
      · exact le_refl _
      · exact (hn.2 hx).trans hlt.le
    · rw [if_neg (by simpa using hlt)]
      refine ⟨Set.mem_insert_of_mem _ hn.1, fun x hx => ?_⟩
      obtain rfl | hx := hx
      · exact Int.not_lt.1 hlt
      · exact hn.2 hx

/-- A round of `maxRepeats`. -/
def mark (rat : Nat → LlamaToken) (last : Nat) (allowed : Int) (counts : List Int) (repeats : LlamaToken → Option Int)
    (i : Nat) : LlamaToken → Option Int :=
  let token := rat (last - 2 - i)
  let repeatLen := counts.getD i 0
  if allowed ≤ repeatLen ∧ (repeats token).all fun n => n < repeatLen then
    fun t => if t = token then some repeatLen else repeats t
  else repeats

lemma isBest_foldl (allowed : Int) (counts : List Int) (token : LlamaToken) (i : Nat) :
    IsBest {n | ∃ j < i, rat (last - 2 - j) = token ∧ n = counts.getD j 0 ∧ allowed ≤ n}
      ((range i).foldl (mark rat last allowed counts) (fun _ => none) token) := by
  induction i with
  | zero => exact Set.eq_empty_of_forall_notMem fun n ⟨j, hj, _⟩ => absurd hj (Nat.not_lt_zero j)
  | succ i ih =>
    rw [range_succ, foldl_append, foldl_cons, foldl_nil]
    obtain ⟨repeats, hrepeats⟩ : ∃ repeats, (range i).foldl (mark rat last allowed counts) (fun _ => none) = repeats := ⟨_, rfl⟩
    rw [hrepeats] at ih ⊢
    unfold mark
    by_cases hnew : rat (last - 2 - i) = token ∧ allowed ≤ counts.getD i 0
    · obtain ⟨rfl, hallowed⟩ := hnew
      have hbest := ih.insert (counts.getD i 0)
      have hset : {n | ∃ j < i + 1, rat (last - 2 - j) = rat (last - 2 - i) ∧ n = counts.getD j 0 ∧ allowed ≤ n} =
          insert (counts.getD i 0)
            {n | ∃ j < i, rat (last - 2 - j) = rat (last - 2 - i) ∧ n = counts.getD j 0 ∧ allowed ≤ n} := by
        ext n
        refine ⟨fun ⟨j, hj, heq, hn, hle⟩ => ?_, ?_⟩
        · obtain hj | rfl := Nat.lt_succ_iff_lt_or_eq.1 hj
          · exact .inr ⟨j, hj, heq, hn, hle⟩
          · exact .inl hn
        · rintro (rfl | ⟨j, hj, h⟩)
          · exact ⟨i, Nat.lt_succ_self i, rfl, rfl, hallowed⟩
          · exact ⟨j, Nat.lt_succ_of_lt hj, h⟩
      rw [hset]
      by_cases hall : (repeats (rat (last - 2 - i))).all fun n => n < counts.getD i 0
      · rw [if_pos hall] at hbest
        rw [if_pos ⟨hallowed, hall⟩, if_pos rfl]
        exact hbest
      · rw [if_neg hall] at hbest
        rw [if_neg fun h => hall h.2]
        exact hbest
    · have hset : {n | ∃ j < i + 1, rat (last - 2 - j) = token ∧ n = counts.getD j 0 ∧ allowed ≤ n} =
          {n | ∃ j < i, rat (last - 2 - j) = token ∧ n = counts.getD j 0 ∧ allowed ≤ n} := by
        ext n
        refine ⟨fun ⟨j, hj, heq, hn, hle⟩ => ?_, fun ⟨j, hj, h⟩ => ⟨j, Nat.lt_succ_of_lt hj, h⟩⟩
        obtain hj | rfl := Nat.lt_succ_iff_lt_or_eq.1 hj
        · exact ⟨j, hj, heq, hn, hle⟩
        · exact absurd ⟨heq, hn ▸ hle⟩ hnew
      rw [hset]
      split
      next h =>
        by_cases heq : token = rat (last - 2 - i)
        · exact absurd ⟨heq.symm, h.1⟩ hnew
        · change IsBest _ (if token = rat (last - 2 - i) then _ else _)
          rw [if_neg heq]
          exact ih
      next => exact ih

/-- Each count is the length of the repetition at its place, up to the limit. A token is mapped to the largest of the counts
at the places that it follows and that are long enough. All reads are inside the window, and so in the ring buffer. -/
theorem repeats_exact (rat : Nat → LlamaToken) (tailsOf : LlamaToken → List (List LlamaToken)) (last : Nat)
    (limit allowed : Int) : (∀ k, 1 ≤ k → k < last →
      ∃ n, Repeats rat last k n ∧ (repeatCounts rat last limit).getD (last - 1 - k) 0 = min (n : Int) limit) ∧
    (∀ token, IsBest {c | ∃ k n : Nat, 1 ≤ k ∧ k < last ∧ rat (k - 1) = token ∧ Repeats rat last k n ∧ c = min (n : Int) limit ∧
      allowed ≤ c} (maxRepeats rat allowed last (repeatCounts rat last limit) token)) ∧
    (∀ r ∈ limitReads rat tailsOf last 0 ++ maxReads last, r < last) ∧ (∀ z k, ∀ r ∈ zReads rat last z k, r < last) ∧
    ∀ size lastN total, last = min (min size lastN) total → last ≤ size := by
  have hcounts : ∀ k, 1 ≤ k → k < last →
      ∃ n, Repeats rat last k n ∧ (repeatCounts rat last limit).getD (last - 1 - k) 0 = min (n : Int) limit :=
    fun k hk hlast => (zInv_foldl (Nat.sub_one_lt_of_lt hlast)).counts k hk (by omega)
  refine ⟨hcounts, fun token => ?_, fun r hr => ?_, fun z k r hr => ?_, fun size lastN total h => by omega⟩
  · have hbest := @isBest_foldl rat last allowed (repeatCounts rat last limit) token (last - 1)
    refine (congrArg (IsBest · _) (Set.ext fun c => ⟨?_, ?_⟩)).mp hbest
    · rintro ⟨j, hj, heq, rfl, hle⟩
      obtain ⟨n, hrep, hcount⟩ := hcounts (last - 1 - j) (by omega) (by omega)
      rw [show last - 1 - (last - 1 - j) = j by omega] at hcount
      exact ⟨last - 1 - j, n, by omega, by omega, by rw [← heq]; congr 1; omega, hrep, hcount, hle⟩
    · rintro ⟨k, n, hk, hlast, heq, hrep, rfl, hle⟩
      obtain ⟨n', hrep', hcount⟩ := hcounts k hk hlast
      obtain rfl := hrep.unique hrep'
      exact ⟨last - 1 - k, by omega, by rw [← heq]; congr 1; omega, hcount.symm, hle⟩
  · obtain hr | hr := mem_append.1 hr
    · exact limitReads_lt (le_of_eq (zero_add last)) r hr
    · obtain ⟨i, hi, rfl⟩ := mem_map.1 hr
      have := mem_range.1 hi
      omega
  · rw [zReads] at hr
    split at hr <;> exact extendReads_lt r hr

end Mallana.Sampling.Dry
