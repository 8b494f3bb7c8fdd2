import Mallana.Batch.Partition
import Mallana.Lib.Reach

/-!
# The size and the order of the ubatches

`split_simple` and `split_seq` keep the limit of `n_ubatch` tokens. `split_equal` counts the sequence sets
after it has added one, so that it takes one set more than the limit allows: `ubatch_le_iff` states when the ubatch
is small enough.

The ubatches keep the order of each sequence as long as no token is passed over that shares a sequence
with a later one that is taken. `init` means to reject the batches where this could happen, but its check of the
running intersections never fails, since the intersection for a sequence always contains that sequence.
`Undisturbed` names the states in which the next call passes over no such token.
-/

namespace Mallana

open Lib List Option Finset

namespace BatchAllocr

variable {F : Type}

def firstSeq (a : BatchAllocr F) (i : Nat) : Int := ((a.seqId.getD i []).headD 0).val

/-- Token `i` can go beside the tokens `acc`: it is unused and shares no sequence with them, and in sequential mode its
    first sequence comes after that of the last one. -/
def Beside (a : BatchAllocr F) (sequential : Bool) (acc : List Nat) (i : Nat) : Prop :=
  a.isUsed i = false ∧ (∀ j ∈ acc, a.setOf j ∩ a.setOf i = ∅) ∧
    (sequential = true → ∀ j ∈ acc.getLast?, a.firstSeq i = a.firstSeq j + 1)

instance (a : BatchAllocr F) (sequential : Bool) (acc : List Nat) (i : Nat) :
    Decidable (a.Beside sequential acc i) :=
  inferInstanceAs (Decidable (_ ∧ (∀ j ∈ acc, _) ∧ (_ → ∀ j ∈ acc.getLast?, _)))

/-- From the tokens `is`, in order, those that can go beside the ones before. -/
def sideBySide (a : BatchAllocr F) (sequential : Bool) (is acc : List Nat) : List Nat :=
  is.foldl (fun acc i => if a.Beside sequential acc i then acc ++ [i] else acc) acc

section Size
variable {a a' : BatchAllocr F} {n m : Nat} {k : Split} {u : FullUbatch F} {sequential : Bool}
  {idxs : List Nat}

lemma pickSets_eq_map {N : Nat} (sequential : Bool) (is acc : List Nat) (last : Int)
    (hlast : ∀ j ∈ acc.getLast?, last = a.firstSeq j) (hN : acc.length + is.length ≤ N) :
    a.pickSets N sequential is (acc.map a.setOf) last = (a.sideBySide sequential is acc).map a.setOf := by
  induction is generalizing acc last with
  | nil => rfl
  | cons i is ih =>
    rw [length_cons] at hN
    rw [pickSets, sideBySide, foldl_cons]
    by_cases hu : a.isUsed i = true
    · have hno : ¬ a.Beside sequential acc i := by
        rintro ⟨hf, -⟩
        rw [hf] at hu
        cases hu
      rw [if_pos hu, if_neg hno]
      exact ih acc last hlast (by omega)
    · rw [if_neg hu]
      have hiff : ((∀ S ∈ acc.map a.setOf, S ∩ a.setOf i = ∅) ∧ (sequential = true →
          acc.map a.setOf = [] ∨ (((a.seqId.getD i []).headD 0).val : Int) = last + 1)) ↔
          a.Beside sequential acc i := by
        unfold Beside
        rw [List.forall_mem_map, iff_true_intro (Bool.eq_false_of_not_eq_true hu), true_and, map_eq_nil_iff]
        refine and_congr_right fun _ => imp_congr_right fun _ => ?_
        cases hl : acc.getLast? with
        | none => simp [getLast?_eq_none_iff.1 hl]
        | some j =>
          have hne : acc ≠ [] := by
            rintro rfl
            cases hl
          rw [hlast j hl]
          simp [hne, firstSeq]
      by_cases hb : a.Beside sequential acc i
      · rw [if_pos (hiff.2 hb), if_pos hb, if_neg (by simp; omega)]
        have hih := ih (acc ++ [i]) (a.firstSeq i) (by simp) (by simp; omega)
        rw [map_append] at hih
        exact hih
      · rw [if_neg fun h => hb (hiff.1 h), if_neg hb]
        exact ih acc last hlast (by omega)

/-- The tokens that `split_equal` begins with: one more than the limit at most. -/
def leaders (a : BatchAllocr F) (sequential : Bool) (n : Nat) : List Nat :=
  (a.sideBySide sequential (List.range a.nTokens) []).take (n + 1)

lemma pickSets_eq_leaders (n : Nat) (sequential : Bool) :
    a.pickSets n sequential (List.range a.nTokens) [] (-1) = (a.leaders sequential n).map a.setOf := by
  have hall := pickSets_eq_map (a := a) (N := a.nTokens) sequential
    (List.range a.nTokens) [] (-1) (by simp) (by simp)
  rw [map_nil] at hall
  rw [pickSets_take (N := a.nTokens) (List.range a.nTokens) [] (-1) List.Pairwise.nil (Nat.zero_le n)
    (by simp), hall, leaders, map_take]

lemma length_chooseEqual (h : Ready a) (hc : a.chooseEqual n sequential = some (idxs, m)) :
    ∃ r, 0 < r ∧ m = min (n + 1) (a.sideBySide sequential (List.range a.nTokens) []).length ∧ 0 < m ∧
      idxs.length = m * r ∧ (r = 1 ∨ r * m ≤ n) := by
  obtain ⟨Ss, r, taken, hSs, hne, hm, -, -, hr, hlen, hn, hidxs, -, -⟩ := chooseEqual_spec h hc
  have hblock : ∀ S ∈ Ss, (((a.seqSetMap S).drop (a.startLane S).cur).take r).length = r := by
    intro S hS
    have hle := hlen S hS
    rw [length_take, length_drop]
    omega
  refine ⟨r, hr, ?_, ?_, ?_, ?_⟩
  · rw [hm, hSs, pickSets_eq_leaders, length_map, leaders, length_take]
  · rw [hm]
    exact length_pos_iff.2 hne
  · rw [hidxs, hm, length_flatMap, map_congr_left hblock, map_const', sum_replicate_nat]
  · rw [hm]
    exact hn

lemma length_choose_le_iff (h : Ready a) (hn : 0 < n) (hc : choose n k a = some (idxs, m)) :
    idxs.length ≤ n ↔ ∀ sequential, k = .equal sequential →
      (a.sideBySide sequential (List.range a.nTokens) []).length ≤ n := by
  cases k with
  | simple =>
    obtain ⟨c, r, rfl, -, -, -, hr, -⟩ := simple_spec h hc
    refine iff_of_true ?_ (fun _ he => by cases he)
    rw [length_range']
    omega
  | seq =>
    obtain ⟨-, -, hr, -⟩ := seq_spec h hc
    refine iff_of_true ?_ (fun _ he => by cases he)
    omega
  | equal sequential =>
    obtain ⟨r, hr, hm, hpos, hlen, hle⟩ := length_chooseEqual h hc
    simp only [Split.equal.injEq, forall_eq']
    rw [hlen]
    constructor
    · intro hbound
      have hmr : m ≤ m * r := Nat.le_mul_of_pos_right m hr
      omega
    · intro hside
      obtain rfl | hle := hle
      · omega
      · rw [mul_comm]
        exact hle

/-- A call to the allocator. -/
inductive Call where
  | reset
  | split (nUbatch : Nat) (k : Split)

/-- The state after `init` accepted a batch. -/
def Accepted (a : BatchAllocr F) : Prop :=
  ∃ nPosPerEmbd b nVocab memory nEmbd nSeqMax outputAll,
    init nPosPerEmbd b nVocab memory nEmbd nSeqMax outputAll = some a

def CallStep (a : BatchAllocr F) : Call → BatchAllocr F → Prop
  | .reset, a' => a' = a.splitReset
  | .split n k, a' => ∃ u, a.split n k = some (u, a')

lemma split_eq_some (h : Ready a) (hs : a.split n k = some (u, a')) :
    ∃ c, choose n k a = some c ∧ u = a.ubatchOf c.1 c.2 (k ≠ .simple) ∧ a' = a.take c.1 := by
  rw [split_eq h] at hs
  obtain ⟨c, hc, he⟩ := map_eq_some_iff.1 hs
  obtain ⟨rfl, rfl⟩ := Prod.mk.inj he
  exact ⟨c, hc, rfl, rfl⟩

lemma Ready.step (h : Ready a) {c : Call} (hs : CallStep a c a') : Ready a' := by
  cases c with
  | reset =>
    obtain rfl : a' = a.splitReset := hs
    exact ⟨length_replicate, h.map⟩
  | split n k =>
    obtain ⟨u, hu⟩ := hs
    obtain ⟨c, -, -, rfl⟩ := split_eq_some h hu
    exact h.take c.1

lemma ready_of_reach (run : Reach Accepted CallStep a) : Ready a := by
  refine run.invariant ?_ (fun s c s' h hs => h.step hs)
  rintro s ⟨_, _, _, _, _, _, _, h⟩
  exact ready_init h

/-- In every state that calls to the allocator reach, a ubatch keeps the limit exactly if at most `n_ubatch` tokens
    can go side by side, which only matters for `split_equal`. -/
theorem ubatch_le_iff (run : Reach Accepted CallStep a) (hn : 0 < n) (hs : a.split n k = some (u, a')) :
    u.nTokens ≤ n ↔ ∀ sequential, k = .equal sequential →
      (a.sideBySide sequential (List.range a.nTokens) []).length ≤ n := by
  have h := ready_of_reach run
  obtain ⟨c, hc, rfl, -⟩ := split_eq_some h hs
  exact length_choose_le_iff h hn hc

lemma split_pair {n : Nat} {k : Split} {r : Nat}
    (hr : (((init 1 pair 1 none 1 2 false).bind (split n k)).map fun r => r.1.nTokens) = some r) :
    ∃ a u a', init 1 pair 1 none 1 2 false = some a ∧ a.split n k = some (u, a') ∧ u.nTokens = r := by
  obtain ⟨⟨u, a'⟩, hb, hu⟩ := map_eq_some_iff.1 hr
  obtain ⟨a, ha, hs⟩ := bind_eq_some_iff.1 hb
  exact ⟨a, u, a', ha, hs, hu⟩

/-- With room for two tokens the tokens of two sequences go side by side. -/
theorem ubatch_le_iff_pair : ∃ (a a' : BatchAllocr Unit) (u : FullUbatch Unit),
    Reach Accepted CallStep a ∧ a.split 2 (.equal false) = some (u, a') ∧
      (u.nTokens ≤ 2 ↔ ∀ sequential, Split.equal false = .equal sequential →
        (a.sideBySide sequential (List.range a.nTokens) []).length ≤ 2) := by
  obtain ⟨a, u, a', ha, hs, -⟩ := split_pair (n := 2) (k := .equal false) (r := 2) (by decide +kernel)
  have run : Reach Accepted CallStep a := .init ⟨1, pair, 1, none, 1, 2, false, ha⟩
  exact ⟨a, a', u, run, hs, ubatch_le_iff run (by decide) hs⟩

/-- With room for one token `split_equal` still takes the tokens of two sequences. -/
theorem ubatch_too_large : ∃ (a a' : BatchAllocr Unit) (u : FullUbatch Unit),
    init 1 pair 1 none 1 2 false = some a ∧ a.split 1 (.equal false) = some (u, a') ∧ ¬ u.nTokens ≤ 1 := by
  obtain ⟨a, u, a', ha, hs, hu⟩ := split_pair (n := 1) (k := .equal false) (r := 2) (by decide +kernel)
  exact ⟨a, a', u, ha, hs, by omega⟩

end Size

/-- In the next call no unused token is left behind one that is taken and shares a sequence with it. For `split_seq`: none
    lies between two neighbours of the first `n` tokens, where each token is the next one behind the one before. For
    `split_equal`: none lies before one of the first `r` unused tokens of a leader's set, unless it has that set itself,
    where `r` is a number of rounds that is left to every leader and keeps the limit. -/
def Undisturbed (a : BatchAllocr F) (n : Nat) : Split → Prop
  | .simple => True
  | .seq => ∀ l d e, (l ++ [d, e]).IsChain a.Next → (l ++ [d, e]).head? = some a.firstUnused →
      l.length + 2 ≤ n → ∀ b, d < b → b < e → a.isUsed b = false → a.setOf b ∩ a.setOf e = ∅
  | .equal true => True
  | .equal false => ∀ r, (r = 1 ∨ r * (a.leaders false n).length ≤ n) →
      (∀ i ∈ a.leaders false n, r ≤ (a.freeOf (a.setOf i)).length) →
      ∀ i ∈ a.leaders false n, ∀ e ∈ (a.freeOf (a.setOf i)).take r, ∀ b < e, a.isUsed b = false →
        a.setOf b ≠ a.setOf i → a.setOf b ∩ a.setOf i = ∅

/-- The states that calls of one split reach from `a`. -/
abbrev Reaches (n : Nat) (k : Split) (a : BatchAllocr F) : BatchAllocr F → Prop :=
  Reach (· = a) fun s u s' => split n k s = some (u, s')

def Increasing (ids : List (List SeqId)) (pos : List Int) : Prop :=
  ∀ s i j, i < j → j < ids.length → s ∈ ids.getD i [] → s ∈ ids.getD j [] → pos.getD i 0 < pos.getD j 0

/-- The positions of the tokens of sequence `s`, in the order in which the ubatches list them. -/
def listing (us : List (FullUbatch F)) (s : SeqId) : List Int :=
  ((us.flatMap fun u => u.seqId.zip u.pos).filter fun t => s ∈ t.1).map Prod.snd

section Passed
variable {a₀ a a' : BatchAllocr F} {n m : Nat} {k : Split} {idxs : List Nat} {s : SeqId}

/-- Two neighbours of a list of tokens between which a token lies that the list leaves out. -/
lemma exists_neighbours {l : List Nat} {b cur e : Nat} (hcb : cur < b) (hbe : b < e) (he : e ∈ l) (hb : b ∉ l) :
    ∃ l₁ d e' l₂, cur :: l = l₁ ++ d :: e' :: l₂ ∧ d < b ∧ b < e' ∧ e ∈ e' :: l₂ := by
  induction l generalizing cur with
  | nil => exact absurd he not_mem_nil
  | cons j l ih =>
    obtain hbj | rfl | hjb := lt_trichotomy b j
    · exact ⟨[], cur, j, l, rfl, hcb, hbj, he⟩
    · exact absurd List.mem_cons_self hb
    · have hel : e ∈ l := (List.mem_cons.1 he).resolve_left (by omega)
      obtain ⟨l₁, d, e', l₂, hl, hrest⟩ := ih hjb hel (fun h => hb (List.mem_cons_of_mem j h))
      exact ⟨cur :: l₁, d, e', l₂, by rw [hl, cons_append], hrest⟩

lemma inter_ne_empty {S T : Finset SeqId} (hS : s ∈ S) (hT : s ∈ T) : S ∩ T ≠ ∅ :=
  ne_empty_of_mem (mem_inter.2 ⟨hS, hT⟩)

/-- No token is left behind a later one of its sequence. -/
lemma Splitting.mem_of_lt (h : Splitting a₀ k a) (hcpl : k = .equal true → ∀ i, (a.setOf i).card ≤ 1)
    (hund : a.Undisturbed n k) (hc : choose n k a = some (idxs, m)) {b e : Nat} (he : e ∈ idxs) (hse : s ∈ a.setOf e) (hbe : b < e)
    (hb : a.isUsed b = false) (hsb : s ∈ a.setOf b) : b ∈ idxs := by
  have hne := inter_ne_empty hsb hse
  have helt : e < a.nTokens := ((choose_unused h.order h.ready hc).2 e he).1
  by_contra hno
  cases k with
  | simple =>
    obtain ⟨c, k, rfl, -, -, -, -, -, hbefore⟩ := simple_spec h.ready hc
    rw [mem_range'_1] at he hno
    have hbc : ¬ b < c := by
      intro hlt
      rw [hbefore b hlt] at hb
      cases hb
    omega
  | seq =>
    obtain ⟨-, hl, hn, hbefore⟩ := seq_spec h.ready hc
    have hcb : a.firstUnused < b := by
      obtain hlt | rfl | hlt := lt_trichotomy b a.firstUnused
      · rw [hbefore b hlt] at hb
        cases hb
      · exact absurd hl.mem hno
      · exact hlt
    obtain ⟨l, hcons⟩ := head?_eq_some_iff.1 hl.head
    rw [hcons, List.mem_cons] at he hno
    obtain ⟨l₁, d, e', l₂, heq, hdb, hbe', hel⟩ := exists_neighbours hcb hbe
      (he.resolve_left (by omega)) (fun hbl => hno (.inr hbl))
    rw [← hcons] at heq
    have hchain := hl.chain
    rw [heq] at hchain
    have hfront : idxs = (l₁ ++ [d, e']) ++ l₂ := by rw [heq, append_assoc]; rfl
    have hsub : a.setOf e ⊆ a.setOf e' := by
      have htail : (e' :: l₂).IsChain a.Next := (isChain_append_cons_cons.1 hchain).2.2
      obtain rfl | hel := List.mem_cons.1 hel
      · exact Finset.Subset.refl _
      · exact htail.cons_induction (fun x => a.setOf x ⊆ a.setOf e') l₂
          (fun x y hxy hx => hxy.within.trans hx) (Finset.Subset.refl _) e hel
    have hhead := hl.head
    rw [hfront, head?_append_of_ne_nil _ (by simp)] at hhead
    refine inter_ne_empty hsb (hsub hse) (hund l₁ d e' ?_ hhead ?_ b hdb hbe' hb)
    · rw [heq] at hfront
      rw [hfront] at hchain
      exact hchain.left_of_append
    · have hlen := congrArg List.length hfront
      simp only [length_append, length_cons, length_nil] at hlen
      omega
  | equal sequential =>
    obtain ⟨Ss, r, hSs, -, -, -, -, -, hlen, hr, rfl⟩ := equal_spec h.ready h.order hc
    obtain ⟨S, hS, heS⟩ := mem_flatMap.1 he
    have hset := (mem_freeOf.1 (mem_of_mem_take heS)).2.1
    have hbS : a.setOf b ≠ S := by
      intro hbS
      have hmem : b ∈ a.freeOf S := mem_freeOf.2 ⟨hbe.trans helt, hbS, hb⟩
      exact hno (mem_flatMap.2 ⟨S, hS, mem_take_of_lt (sorted_freeOf S) hmem heS hbe⟩)
    cases sequential with
    | true =>
      have hone : ∀ i, s ∈ a.setOf i → a.setOf i = {s} := fun i hi =>
        eq_singleton_iff_unique_mem.2 ⟨hi, fun t ht => card_le_one.1 (hcpl rfl i) t ht s hi⟩
      rw [hone b hsb, ← hset, hone e hse] at hbS
      exact hbS rfl
    | false =>
      rw [hSs, pickSets_eq_leaders] at hS hlen hr
      rw [length_map] at hr
      obtain ⟨i, hi, rfl⟩ := List.mem_map.1 hS
      have hover : a.setOf b ∩ a.setOf i = ∅ :=
        hund r hr (fun j hj => hlen _ (mem_map_of_mem hj)) i hi e heS b hbe hb hbS
      rw [← hset] at hover
      exact hne hover

lemma Splitting.sorted_choose (h : Splitting a₀ k a) (hc : choose n k a = some (idxs, m)) (s : SeqId) :
    (idxs.filter fun i => s ∈ a.setOf i).Pairwise (· < ·) := by
  cases k with
  | simple =>
    obtain ⟨c, k, rfl, -⟩ := simple_spec h.ready hc
    exact (pairwise_lt_range' 1).filter _
  | seq =>
    obtain ⟨-, hl, -⟩ := seq_spec h.ready hc
    exact hl.sorted.filter _
  | equal sequential =>
    obtain ⟨Ss, k, -, -, -, hap, -, -, -, -, rfl⟩ := equal_spec h.ready h.order hc
    rw [filter_flatMap, pairwise_flatMap]
    refine ⟨fun S _ => ((sorted_freeOf S).sublist (take_sublist k _)).filter _, ?_⟩
    -- at most one of the sets has the sequence
    refine hap.imp fun {S T} hST i hi j hj => ?_
    rw [List.mem_filter, decide_eq_true_eq] at hi hj
    have hiS := (mem_freeOf.1 (mem_of_mem_take hi.1)).2.1
    have hjT := (mem_freeOf.1 (mem_of_mem_take hj.1)).2.1
    rw [← hiS, ← hjT] at hST
    exact absurd hST (inter_ne_empty hi.2 hj.2)

end Passed

section Ordered
variable {nPosPerEmbd nVocab nEmbd nSeqMax n : Nat} {b : LlamaBatch F} {memory : Option MemoryPos}
  {outputAll : Bool} {a a' : BatchAllocr F} {k : Split} {cs : List (List Nat × Nat)}

lemma Ready.split_of_choice (h : Ready a) {c : List Nat × Nat} (hc : choice n k a = some (c, a')) :
    split n k a = some (a.ubatchOf c.1 c.2 (k ≠ .simple), a') := by
  obtain ⟨hch, rfl⟩ := choice_eq_some hc
  rw [split_eq h, hch]
  rfl

lemma Splitting.sorted_drains (h : Splitting a k a) (hcpl : k = .equal true → ∀ i, (a.setOf i).card ≤ 1)
    (hund : ∀ s, Reaches n k a s → s.Undisturbed n k) (hrun : Drains (choice n k) a cs a') (s : SeqId) :
    ((cs.flatMap Prod.fst).filter fun i => s ∈ a.setOf i).Pairwise (· < ·) ∧
      ∀ i ∈ (cs.flatMap Prod.fst).filter fun i => s ∈ a.setOf i, i < a.nTokens := by
  have hsorted := hrun.sorted (I := fun s => Splitting a k s ∧ Reaches n k a s) (r := (· < ·))
    (fun a' => a'.unused.filter fun i => s ∈ a.setOf i)
    (fun c => c.1.filter fun i => s ∈ a.setOf i)
    (fun s c s' hs hc => ⟨hs.1.step hc, hs.2.step (hs.1.ready.split_of_choice hc)⟩) ?_ ?_ ⟨h, .init rfl⟩
  · rw [← filter_flatMap] at hsorted
    refine ⟨hsorted.1, fun i hi => ?_⟩
    have hi' := (Finset.mem_filter.1 (hsorted.2 i hi)).1
    exact Finset.mem_range.1 (Finset.mem_filter.1 hi').1
  · rintro a' c a'' ⟨hs, -⟩ hc
    obtain ⟨hch, rfl⟩ := choice_eq_some hc
    refine ⟨fun i hi => ?_, ?_⟩
    · obtain ⟨hi, hsi⟩ := List.mem_filter.1 hi
      refine Finset.mem_filter.2 ⟨?_, by simpa using hsi⟩
      unfold unused
      simpa using (choose_unused hs.order hs.ready hch).2 i hi
    · rw [unused_take]
      ext i
      simp only [Finset.mem_filter, mem_sdiff, List.mem_toFinset, List.mem_filter, decide_eq_true_eq]
      tauto
  · rintro a' c a'' ⟨hs, hreach⟩ hc
    obtain ⟨hch, rfl⟩ := choice_eq_some hc
    have hset : ∀ i, a'.setOf i = a.setOf i := hs.same.setOf
    have hsort := hs.sorted_choose hch s
    simp only [hset] at hsort
    refine ⟨hsort, fun i hi j hj => ?_⟩
    rw [unused_take, Finset.mem_filter, mem_sdiff, List.mem_toFinset] at hj
    rw [List.mem_filter, decide_eq_true_eq] at hi
    unfold unused at hj
    rw [Finset.mem_filter] at hj
    by_contra hle
    have hij : j ≠ i := by
      rintro rfl
      exact hj.1.2 hi.1
    refine hj.1.2 (hs.mem_of_lt (s := s) ?_ (hund a' hreach) hch hi.1 ?_ (by omega) hj.1.1.2 ?_)
    · simpa only [hset] using hcpl
    · rw [hset]
      exact hi.2
    · rw [hset]
      exact hj.2

lemma nil_of_coupled (hcpl : a.hasCpl = true) (hrun : Drains (choice n (.equal true)) a cs a') : cs = [] := by
  cases hrun with
  | done => rfl
  | more h =>
    obtain ⟨hch, -⟩ := choice_eq_some h
    unfold choose chooseEqual at hch
    simp [hcpl] at hch

lemma zip_ubatchOf (a : BatchAllocr F) (hpos : 0 < a.nPosPerEmbd) (idxs : List Nat) (m : Nat) (e : Bool) :
    (a.ubatchOf idxs m e).seqId.zip (a.ubatchOf idxs m e).pos =
      idxs.map fun i => (a.seqId.getD i [], a.pos.getD i 0) := by
  obtain ⟨p, hp⟩ := Nat.exists_eq_succ_of_ne_zero hpos.ne'
  show (idxs.map fun i => a.seqId.getD i []).zip ((List.range a.nPosPerEmbd).flatMap fun j =>
    idxs.map fun i => a.pos.getD ((if a.token.isSome then 0 else j * a.nTokens) + i) 0) = _
  rw [hp, range_succ_eq_map, flatMap_cons, ← append_nil (idxs.map fun i => a.seqId.getD i []),
    zip_append (by simp), zip_nil_left, append_nil, zip_map']
  simp only [zero_mul, ite_self, zero_add]

lemma listing_map (a : BatchAllocr F) (hpos : 0 < a.nPosPerEmbd) (e : Bool) (s : SeqId) :
    listing (cs.map fun c => a.ubatchOf c.1 c.2 e) s =
      ((cs.flatMap Prod.fst).filter fun i => s ∈ a.seqId.getD i []).map fun i => a.pos.getD i 0 := by
  unfold listing
  rw [flatMap_map]
  simp only [zip_ubatchOf a hpos]
  rw [← map_flatMap, List.filter_map, List.map_map]
  rfl

/-- If no state that the calls reach is disturbed, the ubatches list the tokens of each sequence in order. -/
theorem split_inOrder (hinit : init nPosPerEmbd b nVocab memory nEmbd nSeqMax outputAll = some a)
    (hinc : Increasing b.seqIds (b.positions memory)) (n : Nat) (k : Split)
    (hund : ∀ s, Reaches n k a s → s.Undisturbed n k) :
    ∃ us a', (∀ fuel > b.nTokens, drain (split n k) fuel a = some (us, a')) ∧
      ∀ s, (listing us s).Pairwise (· < ·) := by
  have h := splitting_init hinit k
  have heq := init_eq_some hinit
  have hset : ∀ i, a.setOf i = (b.seqIds.getD i []).toFinset := by
    intro i
    rw [setOf_init hinit, heq]
  have hn : a.nTokens = b.nTokens := by rw [heq]
  obtain ⟨cs, a', hrun, hlen⟩ := h.exists_drains n
  refine ⟨_, a', fun fuel hfuel => (h.drains_split hrun).drain_eq (by rw [length_map]; omega), ?_⟩
  intro s
  by_cases hpos : 0 < a.nPosPerEmbd
  · rw [listing_map a hpos]
    by_cases hcpl : k = .equal true ∧ a.hasCpl = true
    · obtain ⟨rfl, hcpl⟩ := hcpl
      rw [nil_of_coupled hcpl hrun]
      exact List.Pairwise.nil
    · have hsorted := h.sorted_drains ?_ hund hrun s
      · simp only [hset, List.mem_toFinset] at hsorted
        rw [pairwise_map, heq]
        refine hsorted.1.imp_of_mem fun {i j} hi hj hij => ?_
        have hj' := hsorted.2 j hj
        rw [hn, ← length_seqIds] at hj'
        rw [List.mem_filter, decide_eq_true_eq] at hi hj
        exact hinc s i j hij hj' hi.2 hj.2
      · intro hk i
        rw [hset]
        refine (toFinset_card_le _).trans ?_
        have hno : a.hasCpl = false := by simpa [hk] using hcpl
        rw [heq, List.any_eq_false] at hno
        by_cases hi : i < b.seqIds.length
        · rw [getD_eq_getElem _ _ hi]
          simpa using hno _ (getElem_mem hi)
        · rw [getD_eq_default _ _ (by omega)]
          exact Nat.zero_le 1
  · -- without positions there is nothing to list
    have hnil : (cs.map fun c => a.ubatchOf c.1 c.2 (k ≠ .simple)).flatMap
        (fun u => u.seqId.zip u.pos) = [] := by
      rw [flatMap_map, flatMap_eq_nil_iff]
      intro c _
      show List.zip _ (List.flatMap _ (List.range a.nPosPerEmbd)) = []
      rw [Nat.eq_zero_of_not_pos hpos]
      exact zip_nil_right
    unfold listing
    rw [hnil]
    exact List.Pairwise.nil

lemma Splitting.of_reaches (h : Splitting a k a) (run : Reaches n k a a') : Splitting a k a' := by
  refine run.invariant ?_ ?_
  · rintro s rfl
    exact h
  · intro s u s' hs hu
    obtain ⟨c, hc, -, rfl⟩ := split_eq_some hs.ready hu
    exact ⟨hs.same.trans (sameBatch_take s c.1), hs.ready.take c.1, hs.order.take hs.ready hc⟩

/-- Two tokens of sequence 0 with one of sequence 1 between them. -/
def woven : LlamaBatch Unit where
  nTokens := 3
  token := some [0, 0, 0]
  pos := some [0, 0, 1]
  seqId := some [[0], [1], [0]]

/-- `split_seq` leaves out the token between the other two, which shares no sequence with them. -/
theorem split_inOrder_woven : ∃ a, init 1 woven 1 none 1 2 false = some a ∧
    ∃ us a', drain (split 8 .seq) 4 a = some (us, a') ∧ ∀ s, (listing us s).Pairwise (· < ·) := by
  have hsome : (init 1 woven 1 none 1 2 false).isSome = true := by decide +kernel
  obtain ⟨a, ha⟩ := isSome_iff_exists.1 hsome
  have hinc : Increasing woven.seqIds (woven.positions none) := by
    intro s i j hij hj
    have hj' : j < 3 := hj
    obtain ⟨rfl, rfl⟩ | ⟨rfl, rfl⟩ | ⟨rfl, rfl⟩ : (i = 0 ∧ j = 1) ∨ (i = 0 ∧ j = 2) ∨ (i = 1 ∧ j = 2) := by
      omega
    all_goals
      revert s
      decide +kernel
  obtain ⟨us, a', hrun, hord⟩ := split_inOrder ha hinc 8 .seq (fun s hs l d e hchain _ _ b hdb hbe _ => by
    have hsame := ((splitting_init ha .seq).of_reaches hs).same
    have hlt := (isChain_append_cons_cons.1 hchain).2.1.lt
    have hn : s.nTokens = 3 := by
      rw [hsame, init_eq_some ha]
      rfl
    obtain ⟨rfl, rfl⟩ : b = 1 ∧ e = 2 := by omega
    rw [hsame.setOf, hsame.setOf, setOf_init ha, setOf_init ha, init_eq_some ha]
    decide +kernel)
  exact ⟨a, ha, us, a', hrun 4 (by decide), hord⟩

/-- Three tokens of sequence 0, the middle one also of sequence 1. -/
def trio : LlamaBatch Unit where
  nTokens := 3
  token := some [0, 0, 0]
  pos := some [0, 1, 2]
  seqId := some [[0], [0, 1], [0]]

/-- `init` accepts the batch, but `split_seq` and `split_equal` list the token at position 2 before the one at
    position 1. -/
theorem trio_out_of_order : Increasing trio.seqIds (trio.positions none) ∧
    ∃ a, init 1 trio 1 none 1 2 false = some a ∧ ∀ k ∈ [Split.seq, .equal false],
      ∃ us a', drain (split 8 k) 4 a = some (us, a') ∧ listing us 0 = [0, 2, 1] ∧
        ¬ (listing us 0).Pairwise (· < ·) := by
  have hrun : ∀ k ∈ [Split.seq, .equal false], (((init 1 trio 1 none 1 2 false).bind
      (drain (split 8 k) 4)).map fun r => listing r.1 0) = some [0, 2, 1] := by decide +kernel
  have hsome : (init 1 trio 1 none 1 2 false).isSome = true := by decide +kernel
  obtain ⟨a, ha⟩ := isSome_iff_exists.1 hsome
  refine ⟨?_, a, ha, fun k hk => ?_⟩
  · intro s i j hij hj _ _
    have hj' : j < 3 := hj
    obtain ⟨rfl, rfl⟩ | ⟨rfl, rfl⟩ | ⟨rfl, rfl⟩ : (i = 0 ∧ j = 1) ∨ (i = 0 ∧ j = 2) ∨ (i = 1 ∧ j = 2) := by
      omega
    · decide
    · decide
    · decide
  · obtain ⟨⟨us, a'⟩, hb, hlist⟩ := map_eq_some_iff.1 (hrun k hk)
    rw [ha, bind_some] at hb
    refine ⟨us, a', hb, hlist, ?_⟩
    rw [show listing us 0 = [0, 2, 1] from hlist]
    decide

end Ordered

end BatchAllocr

end Mallana
