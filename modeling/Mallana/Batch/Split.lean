import Mallana.Batch.Basic
import Mallana.Lib.Drain

/-!
# What one split takes

Every split chooses some tokens and gathers them: `choose` is the choice, a list of token indices and a number
of blocks, and `split_eq` says that the rest is `ubatch_add`. `simple_spec`, `seq_spec` and `equal_spec`
describe the choices: a run of adjacent tokens; an increasing list of tokens with shrinking sequence sets;
and for each of several disjoint sequence sets the same number of its first unused tokens.
-/

namespace Mallana

open Lib List

namespace BatchAllocr

variable {F : Type}

section Use
variable (a : BatchAllocr F) (i j : Nat) (l : List Nat)

def SameBatch (a a' : BatchAllocr F) : Prop :=
  a' = { a with outIds := a'.outIds, nUsed := a'.nUsed, used := a'.used }

lemma sameBatch_refl : SameBatch a a := rfl

lemma SameBatch.trans {a b c : BatchAllocr F} (h : SameBatch a b) (h' : SameBatch b c) : SameBatch a c := by
  unfold SameBatch at h h' ⊢
  rw [h'] at *
  rw [h]

lemma sameBatch_use : SameBatch a (a.use i) := rfl

lemma sameBatch_useAll : SameBatch a (a.useAll l) := by
  induction l generalizing a with
  | nil => rfl
  | cons i l ih => exact (sameBatch_use a i).trans (ih (a.use i))

@[simp] lemma length_used_useAll : (a.useAll l).used.length = a.used.length := by
  induction l generalizing a with
  | nil => rfl
  | cons i l ih =>
    refine (ih (a.use i)).trans ?_
    simp [use]

lemma isUsed_use : (a.use i).isUsed j = (a.isUsed j || decide (j = i)) := by
  unfold isUsed use
  simp only []
  rw [getD_modify]
  by_cases hj : i = j
  · subst hj
    by_cases hi : i < a.used.length
    · simp [hi]
    · simp [hi]
  · have hj' : j ≠ i := fun h => hj h.symm
    simp [hj, hj']

lemma isUsed_useAll : (a.useAll l).isUsed i = (a.isUsed i || decide (i ∈ l)) := by
  induction l generalizing a with
  | nil => simp [useAll]
  | cons j l ih =>
    refine (ih (a.use j)).trans ?_
    rw [isUsed_use]
    simp [Bool.or_assoc]

lemma use_comm : (a.use i).use j = (a.use j).use i := by
  by_cases hij : i = j
  · rw [hij]
  · unfold use
    simp only [modify_modify_ne _ _ _ hij]

lemma useAll_perm {l l' : List Nat} (h : l.Perm l') : a.useAll l = a.useAll l' :=
  h.foldl_eq' (fun i _ j _ b => use_comm b i j) a

lemma useAll_append (l l' : List Nat) : a.useAll (l ++ l') = (a.useAll l).useAll l' :=
  foldl_append ..

end Use

section Loops

lemma simpleLoop_eq (nUbatch fuel cur : Nat) (idxs : List Nat) (a : BatchAllocr F)
    (hcur : cur < a.used.length) (hfuel : a.used.length ≤ cur + fuel) :
    ∃ k, 0 < k ∧ cur + k ≤ a.used.length ∧ (k = 1 ∨ idxs.length + k ≤ nUbatch) ∧
      simpleLoop nUbatch fuel cur idxs a = (idxs ++ List.range' cur k, a.useAll (List.range' cur k)) := by
  induction fuel generalizing cur idxs a with
  | zero => omega
  | succ fuel ih =>
    have hlen : (a.use cur).used.length = a.used.length := by simp [use]
    rw [simpleLoop]
    simp only [hlen]
    by_cases h1 : a.used.length ≤ cur + 1
    · rw [if_pos h1]
      exact ⟨1, one_pos, hcur, .inl rfl, rfl⟩
    · rw [if_neg h1]
      by_cases h2 : nUbatch ≤ (idxs ++ [cur]).length
      · rw [if_pos h2]
        exact ⟨1, one_pos, hcur, .inl rfl, rfl⟩
      · rw [if_neg h2]
        obtain ⟨k, hk, hle, hn, hrun⟩ := ih (cur + 1) (idxs ++ [cur]) (a.use cur)
          (by rw [hlen]; omega) (by rw [hlen]; omega)
        rw [hlen] at hle
        rw [length_append, length_singleton] at h2 hn
        refine ⟨k + 1, Nat.succ_pos k, by omega, .inr (by omega), ?_⟩
        rw [hrun, range'_succ, append_assoc]
        rfl

/-- Token `e` is the first unused one behind `d` whose sequence set is within that of `d`. -/
structure Next (a : BatchAllocr F) (d e : Nat) : Prop where
  behind : d < e
  lt : e < a.nTokens
  unused : a.isUsed e = false
  within : a.setOf e ⊆ a.setOf d
  first : ∀ b, d < b → b < e → a.isUsed b = false → ¬ a.setOf b ⊆ a.setOf d

/-- What the loop of `split_seq` takes from token `cur` on: each token is the next one behind the one before. -/
structure SeqTaken (a : BatchAllocr F) (cur : Nat) (l : List Nat) : Prop where
  head : l.head? = some cur
  lt : cur < a.nTokens
  unused : a.isUsed cur = false
  chain : l.IsChain a.Next

lemma SeqTaken.mem {a : BatchAllocr F} {cur : Nat} {l : List Nat} (h : SeqTaken a cur l) : cur ∈ l :=
  mem_of_mem_head? h.head

lemma SeqTaken.sorted {a : BatchAllocr F} {cur : Nat} {l : List Nat} (h : SeqTaken a cur l) : l.Pairwise (· < ·) :=
  (h.chain.imp fun _ _ hn => hn.behind).pairwise

lemma SeqTaken.each {a : BatchAllocr F} {cur : Nat} {l : List Nat} (h : SeqTaken a cur l) :
    ∀ e ∈ l, cur ≤ e ∧ e < a.nTokens ∧ a.isUsed e = false := by
  obtain ⟨l, rfl⟩ := head?_eq_some_iff.1 h.head
  have hcur : cur ≤ cur ∧ cur < a.nTokens ∧ a.isUsed cur = false := ⟨le_rfl, h.lt, h.unused⟩
  refine forall_mem_cons.2 ⟨hcur, h.chain.cons_induction _ l ?_ hcur⟩
  rintro d e hn ⟨hle, -⟩
  exact ⟨hle.trans hn.behind.le, hn.lt, hn.unused⟩

lemma next_of_nextWithin {a : BatchAllocr F} {cur j : Nat} (h : a.nextWithin (a.setOf cur) cur = some j) :
    a.Next cur j := by
  unfold nextWithin at h
  have hmem := mem_of_find?_eq_some h
  have hp := find?_some h
  rw [mem_range'_1] at hmem
  simp only [Bool.and_eq_true, Bool.not_eq_true', decide_eq_true_eq] at hp
  refine ⟨by omega, by omega, hp.1, hp.2, ?_⟩
  intro b hb hbj hu hsub
  obtain ⟨-, i, hi, hji, hbefore⟩ := find?_eq_some_iff_getElem.1 h
  have hlen : (List.range' (cur + 1) (a.nTokens - (cur + 1))).length = a.nTokens - (cur + 1) := by simp
  have hb' := hbefore (b - (cur + 1)) (by
    rw [getElem_range'] at hji
    omega)
  rw [getElem_range'] at hb'
  rw [show cur + 1 + 1 * (b - (cur + 1)) = b by omega] at hb'
  simp [hu, hsub] at hb'

/-- A token that is taken changes nothing for the tokens behind it. -/
lemma next_of_use {a : BatchAllocr F} {cur d e : Nat} (hd : cur ≤ d) (h : (a.use cur).Next d e) : a.Next d e where
  behind := h.behind
  lt := h.lt
  unused := by
    have hu := h.unused
    rw [isUsed_use, Bool.or_eq_false_iff] at hu
    exact hu.1
  within := h.within
  first b hb hbe hbu := by
    refine h.first b hb hbe ?_
    rw [isUsed_use, hbu, decide_eq_false (by omega)]
    rfl

lemma seqLoop_eq (nUbatch fuel cur : Nat) (idxs : List Nat) (a : BatchAllocr F) (hcur : cur < a.nTokens)
    (hunused : a.isUsed cur = false) (hfuel : a.nTokens ≤ cur + fuel) :
    ∃ l, SeqTaken a cur l ∧ (l.length = 1 ∨ idxs.length + l.length ≤ nUbatch) ∧
      seqLoop nUbatch fuel cur idxs a = (idxs ++ l, a.useAll l) := by
  induction fuel generalizing cur idxs a with
  | zero => omega
  | succ fuel ih =>
    have hone : SeqTaken a cur [cur] := ⟨rfl, hcur, hunused, isChain_singleton cur⟩
    rw [seqLoop]
    by_cases h2 : nUbatch ≤ (idxs ++ [cur]).length
    · rw [if_pos h2]
      exact ⟨[cur], hone, .inl rfl, rfl⟩
    · rw [if_neg h2]
      cases hnext : (a.use cur).nextWithin ((a.use cur).setOf cur) cur with
      | none => exact ⟨[cur], hone, .inl rfl, rfl⟩
      | some j =>
        have hj := next_of_nextWithin hnext
        have hcj := hj.behind
        simp only []
        obtain ⟨l, hl, hn, hrun⟩ := ih j (idxs ++ [cur]) (a.use cur) hj.lt hj.unused
          (show a.nTokens ≤ j + fuel by omega)
        rw [length_append, length_singleton] at h2 hn
        have hne : l.length ≠ 0 := fun h0 => not_mem_nil (eq_nil_of_length_eq_zero h0 ▸ hl.mem)
        refine ⟨cur :: l, ⟨rfl, hcur, hunused, isChain_cons.2 ⟨?_, ?_⟩⟩, .inr ?_, ?_⟩
        · intro e he
          rw [hl.head, Option.mem_some_iff] at he
          rw [← he]
          exact next_of_use le_rfl hj
        · exact hl.chain.imp_of_mem_imp fun d e hd _ hde => next_of_use (hcj.le.trans (hl.each d hd).1) hde
        · rw [length_cons]
          omega
        · rw [hrun, append_assoc]
          rfl

/-- A lane after `k` more tokens. -/
def Lane.advance (a : BatchAllocr F) (k : Nat) (l : Lane) : Lane :=
  { l with cur := l.cur + k, idxs := l.idxs ++ ((a.seqSetMap l.set).drop l.cur).take k }

lemma take_drop_succ {l : List Nat} {c k : Nat} (hc : c < l.length) :
    (l.drop c).take (k + 1) = l.getD c 0 :: (l.drop (c + 1)).take k := by
  rw [drop_eq_getElem_cons hc, take_succ_cons, getD_eq_getElem _ _ hc]

/-- `split_equal` takes the next `k` tokens of every lane. -/
lemma equalLoop_eq (nUbatch fuel : Nat) (lanes : List Lane) (a : BatchAllocr F) {r : Nat}
    (hne : lanes ≠ []) (hr : ∀ l ∈ lanes, l.idxs.length = r)
    (hcur : ∀ l ∈ lanes, l.cur ≤ (a.seqSetMap l.set).length)
    (hfuel : ∃ l ∈ lanes, (a.seqSetMap l.set).length < l.cur + fuel) :
    ∃ k taken, (∀ l ∈ lanes, l.cur + k ≤ (a.seqSetMap l.set).length) ∧
      (k = 0 → ∃ l ∈ lanes, (a.seqSetMap l.set).length ≤ l.cur) ∧ (k ≤ 1 ∨ (r + k) * lanes.length ≤ nUbatch) ∧
      taken.Perm (lanes.flatMap fun l => ((a.seqSetMap l.set).drop l.cur).take k) ∧
      equalLoop nUbatch fuel lanes a = (lanes.map (Lane.advance a k), a.useAll taken) := by
  induction fuel generalizing lanes a r with
  | zero =>
    obtain ⟨l, hl, hlt⟩ := hfuel
    have hle := hcur l hl
    omega
  | succ fuel ih =>
    have hmap : ∀ is, (a.useAll is).seqSetMap = a.seqSetMap := by
      intro is
      rw [sameBatch_useAll a is]
    rw [equalLoop]
    by_cases hex : ∃ l ∈ lanes, (a.seqSetMap l.set).length ≤ l.cur
    · rw [if_pos hex]
      refine ⟨0, [], by simpa using hcur, fun _ => hex, .inl (Nat.zero_le 1), by simp, ?_⟩
      have hid : lanes.map (Lane.advance a 0) = lanes := by
        conv_rhs => rw [← map_id lanes]
        refine map_congr_left fun l _ => ?_
        simp [Lane.advance]
      rw [hid]
      rfl
    · rw [if_neg hex]
      simp only [not_exists, not_and, not_le] at hex
      have hstep : lanes.map a.laneStep = lanes.map (Lane.advance a 1) := by
        refine map_congr_left fun l hl => ?_
        unfold laneStep Lane.advance laneNext
        rw [take_drop_succ (hex l hl), take_zero]
      have htake : lanes.map a.laneNext = lanes.flatMap fun l => ((a.seqSetMap l.set).drop l.cur).take 1 := by
        rw [← flatMap_pure_eq_map]
        refine flatMap_congr fun l hl => ?_
        rw [take_drop_succ (hex l hl), take_zero]
        rfl
      have hhead : (((lanes.map a.laneStep).head?.map Lane.idxs).getD []).length = r + 1 := by
        cases lanes with
        | nil => exact absurd rfl hne
        | cons l lanes => simp [laneStep, hr]
      simp only [hhead, length_map]
      by_cases hfull : nUbatch < (r + 1 + 1) * lanes.length
      · rw [if_pos hfull]
        refine ⟨1, lanes.map a.laneNext, hex, fun h => absurd h Nat.one_ne_zero, .inl le_rfl, ?_, ?_⟩
        · rw [htake]
        · rw [hstep]
      · rw [if_neg hfull]
        have hnext : ∀ {P : Lane → Prop}, (∀ l ∈ lanes, P (a.laneStep l)) → ∀ l ∈ lanes.map a.laneStep, P l := by
          intro P h x hx
          obtain ⟨l, hl, rfl⟩ := mem_map.1 hx
          exact h l hl
        obtain ⟨k, taken, hk, -, hn, hperm, hrun⟩ := ih (lanes.map a.laneStep)
          (a.useAll (lanes.map a.laneNext)) (r := r + 1) (by simpa using hne)
          (hnext fun l hl => by simp [laneStep, hr l hl])
          (hnext fun l hl => by rw [hmap]; exact hex l hl)
          (by
            obtain ⟨l, hl, hlt⟩ := hfuel
            refine ⟨a.laneStep l, mem_map_of_mem hl, ?_⟩
            rw [hmap]
            show (a.seqSetMap l.set).length < l.cur + 1 + fuel
            omega)
        rw [hmap] at hk hperm
        rw [length_map] at hn
        refine ⟨k + 1, lanes.map a.laneNext ++ taken, ?_, fun h => absurd h (Nat.succ_ne_zero k), .inr ?_, ?_, ?_⟩
        · intro l hl
          have hle : l.cur + 1 + k ≤ (a.seqSetMap l.set).length :=
            hk (a.laneStep l) (mem_map_of_mem hl)
          omega
        · obtain hk1 | hn := hn
          · have hmul : (r + (k + 1)) * lanes.length ≤ (r + 1 + 1) * lanes.length :=
              Nat.mul_le_mul_right _ (by omega)
            omega
          · rw [show r + (k + 1) = r + 1 + k by omega]
            exact hn
        · rw [flatMap_map] at hperm
          refine (hperm.append_left _).trans ?_
          refine (map_append_flatMap_perm _ _ _).trans (List.Perm.of_eq ?_)
          refine flatMap_congr fun l hl => ?_
          rw [take_drop_succ (hex l hl)]
          rfl
        · rw [hrun, useAll_append, map_map]
          refine Prod.ext (map_congr_left fun l hl => ?_) rfl
          show Lane.advance (a.useAll _) k (a.laneStep l) = _
          unfold Lane.advance
          rw [hmap, take_drop_succ (hex l hl)]
          simp [laneStep, laneNext, add_assoc, add_comm 1 k]

end Loops

section Pick
variable {a : BatchAllocr F} {sequential : Bool}

def Apart (Ss : List (Finset SeqId)) : Prop := Ss.Pairwise fun S T => S ∩ T = ∅

lemma Apart.append_singleton {Ss : List (Finset SeqId)} {T : Finset SeqId} (h : Apart Ss)
    (hT : ∀ S ∈ Ss, S ∩ T = ∅) : Apart (Ss ++ [T]) := by
  refine pairwise_append.2 ⟨h, pairwise_singleton _ _, ?_⟩
  intro S hS T' hT'
  rw [mem_singleton.1 hT']
  exact hT S hS

lemma pickSets_spec (n : Nat) (is : List Nat) (acc : List (Finset SeqId)) (last : Int) (hacc : Apart acc) :
    ∃ new, a.pickSets n sequential is acc last = acc ++ new ∧ Apart (acc ++ new) ∧
      (∀ S ∈ new, ∃ i ∈ is, a.isUsed i = false ∧ a.setOf i = S) ∧
      (acc = [] → new = [] → ∀ i ∈ is, a.isUsed i = true) := by
  induction is generalizing acc last with
  | nil => exact ⟨[], by simp [pickSets], by simpa using hacc, by simp, by simp⟩
  | cons i is ih =>
    rw [pickSets]
    have hskip : (∃ new, a.pickSets n sequential is acc last = acc ++ new ∧ Apart (acc ++ new) ∧
        (∀ S ∈ new, ∃ i' ∈ is, a.isUsed i' = false ∧ a.setOf i' = S) ∧
        (acc = [] → new = [] → ∀ i' ∈ is, a.isUsed i' = true)) → (acc = [] → a.isUsed i = true) →
        ∃ new, a.pickSets n sequential is acc last = acc ++ new ∧ Apart (acc ++ new) ∧
          (∀ S ∈ new, ∃ i' ∈ i :: is, a.isUsed i' = false ∧ a.setOf i' = S) ∧
          (acc = [] → new = [] → ∀ i' ∈ i :: is, a.isUsed i' = true) := by
      rintro ⟨new, heq, hap, hfrom, hall⟩ hi
      refine ⟨new, heq, hap, fun S hS => ?_, fun h0 h1 i' hi' => ?_⟩
      · obtain ⟨i', hi', h⟩ := hfrom S hS
        exact ⟨i', mem_cons_of_mem _ hi', h⟩
      · obtain rfl | hi' := mem_cons.1 hi'
        · exact hi h0
        · exact hall h0 h1 i' hi'
    by_cases hu : a.isUsed i = true
    · rw [if_pos hu]
      exact hskip (ih acc last hacc) fun _ => hu
    · rw [if_neg hu]
      by_cases hadd : (∀ S ∈ acc, S ∩ a.setOf i = ∅) ∧ (sequential = true → acc = [] ∨
          (((a.seqId.getD i []).headD 0).val : Int) = last + 1)
      · rw [if_pos hadd]
        have hap := hacc.append_singleton hadd.1
        have hself : ∃ i' ∈ i :: is, a.isUsed i' = false ∧ a.setOf i' = a.setOf i :=
          ⟨i, mem_cons_self, Bool.eq_false_of_not_eq_true hu, rfl⟩
        by_cases hlim : n < (acc ++ [a.setOf i]).length
        · rw [if_pos hlim]
          refine ⟨[a.setOf i], rfl, hap, fun S hS => ?_, fun _ h => absurd h (by simp)⟩
          rw [mem_singleton.1 hS]
          exact hself
        · rw [if_neg hlim]
          obtain ⟨new, heq, hap', hfrom, -⟩ := ih (acc ++ [a.setOf i]) _ hap
          refine ⟨a.setOf i :: new, by rw [heq, append_assoc]; rfl, ?_, fun S hS => ?_,
            fun _ h => absurd h (by simp)⟩
          · rw [append_assoc] at hap'
            exact hap'
          · obtain rfl | hS := mem_cons.1 hS
            · exact hself
            · obtain ⟨i', hi', h⟩ := hfrom S hS
              exact ⟨i', mem_cons_of_mem _ hi', h⟩
      · rw [if_neg hadd]
        refine hskip (ih acc last hacc) fun h0 => ?_
        refine absurd ⟨?_, fun _ => .inl h0⟩ hadd
        rw [h0]
        exact fun S hS => absurd hS not_mem_nil

lemma pickSets_take {n N : Nat} (is : List Nat) (acc : List (Finset SeqId)) (last : Int)
    (hacc : Apart acc) (hn : acc.length ≤ n) (hN : acc.length + is.length ≤ N) :
    a.pickSets n sequential is acc last = (a.pickSets N sequential is acc last).take (n + 1) := by
  induction is generalizing acc last with
  | nil => rw [pickSets, pickSets, take_of_length_le (by omega)]
  | cons i is ih =>
    rw [length_cons] at hN
    rw [pickSets, pickSets]
    by_cases hu : a.isUsed i = true
    · rw [if_pos hu, if_pos hu]
      exact ih acc last hacc hn (by omega)
    · rw [if_neg hu, if_neg hu]
      by_cases hadd : (∀ S ∈ acc, S ∩ a.setOf i = ∅) ∧ (sequential = true → acc = [] ∨
          (((a.seqId.getD i []).headD 0).val : Int) = last + 1)
      · have hlen : (acc ++ [a.setOf i]).length = acc.length + 1 := by simp
        rw [if_pos hadd, if_pos hadd, if_neg (show ¬ N < (acc ++ [a.setOf i]).length by omega)]
        by_cases hlim : n < (acc ++ [a.setOf i]).length
        · obtain ⟨new, heq, -⟩ := pickSets_spec (a := a) N is (acc ++ [a.setOf i]) _
            (hacc.append_singleton hadd.1)
          rw [if_pos hlim, heq, take_append_of_le_length (by omega), take_of_length_le (by omega)]
        · rw [if_neg hlim]
          exact ih _ _ (hacc.append_singleton hadd.1) (by omega) (by omega)
      · rw [if_neg hadd, if_neg hadd]
        exact ih acc last hacc hn (by omega)

end Pick

/-- The tokens that `split_simple` chooses, and the number of blocks. -/
def chooseSimple (nUbatch : Nat) (a : BatchAllocr F) : Option (List Nat × Nat) :=
  if a.used.length ≤ a.firstUnused then none
  else
    let idxs := (simpleLoop nUbatch a.used.length a.firstUnused [] a).1
    some (idxs, idxs.length)

/-- The tokens that `split_seq` chooses, in one block. -/
def chooseSeq (nUbatch : Nat) (a : BatchAllocr F) : Option (List Nat × Nat) :=
  if a.used.length ≤ a.firstUnused then none
  else some ((seqLoop nUbatch a.used.length a.firstUnused [] a).1, 1)

/-- The tokens that `split_equal` chooses, and the number of blocks. -/
def chooseEqual (nUbatch : Nat) (sequential : Bool) (a : BatchAllocr F) : Option (List Nat × Nat) :=
  if sequential ∧ a.hasCpl then none
  else
    let sets := a.pickSets nUbatch sequential (List.range a.nTokens) [] (-1)
    if sets.length = 0 then none
    else some ((equalLoop nUbatch (a.nTokens + 1) (sets.map a.startLane) a).1.flatMap Lane.idxs, sets.length)

/-- The tokens that a split chooses, and the number of blocks. -/
def choose (nUbatch : Nat) : Split → BatchAllocr F → Option (List Nat × Nat)
  | .simple, a => a.chooseSimple nUbatch
  | .seq, a => a.chooseSeq nUbatch
  | .equal sequential, a => a.chooseEqual nUbatch sequential

/-- The state after a split: the chosen tokens are used, the outputs among them recorded. -/
def take (a : BatchAllocr F) (idxs : List Nat) : BatchAllocr F :=
  { a.useAll idxs with outIds := a.outIds ++ idxs.filter a.isOutput }

/-- What `init` sets up and the splits keep. -/
structure Ready (a : BatchAllocr F) : Prop where
  used : a.used.length = a.nTokens
  map : ∀ S, a.seqSetMap S = (List.range a.nTokens).filter fun i => a.setOf i = S

def freeOf (a : BatchAllocr F) (S : Finset SeqId) : List Nat :=
  (List.range a.nTokens).filter fun i => decide (a.setOf i = S) && !a.isUsed i

def Down (a : BatchAllocr F) : Prop :=
  ∀ i j, i ≤ j → j < a.nTokens → a.setOf i = a.setOf j → a.isUsed j = true → a.isUsed i = true

section Choose
variable {a : BatchAllocr F} {n m : Nat} {idxs : List Nat} {sequential : Bool}

lemma sameBatch_take (a : BatchAllocr F) (idxs : List Nat) : SameBatch a (a.take idxs) := by
  unfold SameBatch take
  rw [sameBatch_useAll a idxs]

lemma SameBatch.setOf {a' : BatchAllocr F} (h : SameBatch a a') (i : Nat) : a'.setOf i = a.setOf i := by
  rw [h]
  rfl

lemma isUsed_take (a : BatchAllocr F) (idxs : List Nat) (i : Nat) :
    (a.take idxs).isUsed i = (a.isUsed i || decide (i ∈ idxs)) :=
  isUsed_useAll a i idxs

lemma Ready.take (h : Ready a) (idxs : List Nat) : Ready (a.take idxs) := by
  have hsame := sameBatch_take a idxs
  refine ⟨?_, ?_⟩
  · rw [show (a.take idxs).nTokens = a.nTokens by rw [hsame]]
    exact (length_used_useAll a idxs).trans h.used
  · intro S
    rw [show (a.take idxs).nTokens = a.nTokens by rw [hsame],
      show (a.take idxs).seqSetMap = a.seqSetMap by rw [hsame], h.map]
    simp only [hsame.setOf]

lemma firstUnused_spec (h : ¬ a.used.length ≤ a.firstUnused) :
    a.firstUnused < a.used.length ∧ a.isUsed a.firstUnused = false ∧ ∀ i < a.firstUnused, a.isUsed i = true := by
  have hlt := Nat.lt_of_not_le h
  refine ⟨hlt, ?_, ?_⟩
  · have hp : (!a.used[a.firstUnused]) = true := findIdx_getElem (w := hlt)
    unfold isUsed
    rw [getD_eq_getElem _ _ hlt]
    simpa using hp
  · intro i hi
    have hno := not_of_lt_findIdx hi
    unfold isUsed
    rw [getD_eq_getElem _ _ (hi.trans hlt)]
    simpa using hno

lemma SameBatch.ubatchOf {a' : BatchAllocr F} (h : SameBatch a a') : a'.ubatchOf = a.ubatchOf := by
  funext idxs m b
  rw [h]
  rfl

lemma ubatchAdd_useAll (a : BatchAllocr F) {taken : List Nat} (h : taken.Perm idxs) (m : Nat) (b : Bool) :
    (a.useAll taken).ubatchAdd idxs m b = (a.ubatchOf idxs m b, a.take idxs) := by
  have hsame := sameBatch_useAll a idxs
  have hout : (a.useAll idxs).isOutput = a.isOutput := by
    rw [hsame]
    rfl
  have hids : (a.useAll idxs).outIds = a.outIds := by
    clear h hsame hout
    induction idxs generalizing a with
    | nil => rfl
    | cons i l ih => exact ih (a.use i)
  rw [useAll_perm a h]
  unfold ubatchAdd
  rw [hsame.ubatchOf, hout, hids]
  rfl

lemma splitSimple_eq (n : Nat) : a.splitSimple n =
    (a.chooseSimple n).map fun c => (a.ubatchOf c.1 c.2 false, a.take c.1) := by
  unfold splitSimple chooseSimple
  simp only []
  split
  · rfl
  · rename_i hlt
    obtain ⟨hlt, -, -⟩ := firstUnused_spec hlt
    obtain ⟨k, -, -, -, hrun⟩ := simpleLoop_eq n a.used.length a.firstUnused [] a hlt (by omega)
    rw [hrun, nil_append, ubatchAdd_useAll a (List.Perm.refl _)]
    rfl

lemma splitSeq_eq (h : Ready a) (n : Nat) : a.splitSeq n =
    (a.chooseSeq n).map fun c => (a.ubatchOf c.1 c.2 true, a.take c.1) := by
  unfold splitSeq chooseSeq
  simp only []
  split
  · rfl
  · rename_i hlt
    obtain ⟨hlt, hu, -⟩ := firstUnused_spec hlt
    obtain ⟨l, -, -, hrun⟩ := seqLoop_eq n a.used.length a.firstUnused [] a
      (by rw [← h.used]; exact hlt) hu (by rw [h.used]; omega)
    rw [hrun, nil_append, ubatchAdd_useAll a (List.Perm.refl _)]
    rfl

/-- What one call of `split_equal` takes. -/
lemma chooseEqual_spec (h : Ready a) (hc : a.chooseEqual n sequential = some (idxs, m)) :
    ∃ Ss k taken, Ss = a.pickSets n sequential (List.range a.nTokens) [] (-1) ∧ Ss ≠ [] ∧
      m = Ss.length ∧ Apart Ss ∧ (∀ S ∈ Ss, ∃ i < a.nTokens, a.isUsed i = false ∧ a.setOf i = S) ∧ 0 < k ∧
      (∀ S ∈ Ss, (a.startLane S).cur + k ≤ (a.seqSetMap S).length) ∧ (k = 1 ∨ k * Ss.length ≤ n) ∧
      idxs = (Ss.flatMap fun S => ((a.seqSetMap S).drop (a.startLane S).cur).take k) ∧
      taken.Perm idxs ∧ (equalLoop n (a.nTokens + 1) (Ss.map a.startLane) a).2 = a.useAll taken := by
  unfold chooseEqual at hc
  simp only [] at hc
  split at hc
  · cases hc
  split at hc
  · cases hc
  rename_i hne
  obtain ⟨Ss, hSs⟩ : ∃ Ss, Ss = a.pickSets n sequential (List.range a.nTokens) [] (-1) := ⟨_, rfl⟩
  rw [← hSs] at hne hc
  obtain ⟨rfl, rfl⟩ := Prod.mk.inj (Option.some.inj hc)
  obtain ⟨new, hnew, hap, hfrom, -⟩ := pickSets_spec (a := a) n (List.range a.nTokens) [] (-1)
    List.Pairwise.nil
  rw [nil_append] at hnew hap
  rw [← hSs] at hnew
  subst hnew
  have hfrom' : ∀ S ∈ Ss, ∃ i < a.nTokens, a.isUsed i = false ∧ a.setOf i = S := by
    intro S hS
    obtain ⟨i, hi, hu⟩ := hfrom S hS
    exact ⟨i, mem_range.1 hi, hu⟩
  -- the first unused token of a chosen set exists
  have hstart : ∀ S ∈ Ss, (a.startLane S).cur < (a.seqSetMap S).length := by
    intro S hS
    obtain ⟨i, hi, hu, rfl⟩ := hfrom' S hS
    refine findIdx_lt_length_of_exists ⟨i, ?_, by simp [hu]⟩
    rw [h.map]
    simpa using hi
  have hlanes : ∀ {P : Lane → Prop}, (∀ S ∈ Ss, P (a.startLane S)) → ∀ l ∈ Ss.map a.startLane, P l := by
    intro P hP l hl
    obtain ⟨S, hS, rfl⟩ := mem_map.1 hl
    exact hP S hS
  have hSne : Ss ≠ [] := fun h0 => hne (by rw [h0]; rfl)
  obtain ⟨k, taken, hk, hk0, hn, hperm, hrun⟩ := equalLoop_eq n (a.nTokens + 1) (Ss.map a.startLane) a
    (r := 0) (by simpa using hSne) (hlanes fun S _ => rfl) (hlanes fun S hS => (hstart S hS).le) (by
      obtain ⟨S, hS⟩ := exists_mem_of_ne_nil Ss hSne
      refine ⟨a.startLane S, mem_map_of_mem hS, ?_⟩
      have hlen : (a.seqSetMap S).length ≤ a.nTokens := by
        rw [h.map]
        exact (length_filter_le _ _).trans (by simp)
      show (a.seqSetMap S).length < _
      omega)
  have hkpos : 0 < k := by
    refine Nat.pos_of_ne_zero fun h0 => ?_
    obtain ⟨l, hl, hle⟩ := hk0 h0
    exact absurd hle (Nat.not_le.2 (hlanes (P := fun l => l.cur < (a.seqSetMap l.set).length) hstart l hl))
  have hidxs : (equalLoop n (a.nTokens + 1) (Ss.map a.startLane) a).1.flatMap Lane.idxs =
      Ss.flatMap fun S => ((a.seqSetMap S).drop (a.startLane S).cur).take k := by
    rw [hrun, flatMap_map, flatMap_map]
    rfl
  refine ⟨Ss, k, taken, hSs, hSne, rfl, hap, hfrom', hkpos, ?_, ?_, hidxs, ?_, by rw [hrun]⟩
  · exact fun S hS => hk (a.startLane S) (mem_map_of_mem hS)
  · rw [length_map, zero_add] at hn
    omega
  · rw [hidxs]
    rw [flatMap_map] at hperm
    exact hperm

lemma splitEqual_eq (h : Ready a) (n : Nat) (sequential : Bool) : a.splitEqual n sequential =
    (a.chooseEqual n sequential).map fun c => (a.ubatchOf c.1 c.2 true, a.take c.1) := by
  cases hc : a.chooseEqual n sequential with
  | none =>
    unfold chooseEqual at hc
    unfold splitEqual
    simp only [] at hc ⊢
    split at hc
    · rename_i hs
      rw [if_pos hs]
      rfl
    · rename_i hs
      rw [if_neg hs]
      split at hc
      · rename_i h0
        rw [if_pos h0]
        rfl
      · cases hc
  | some c =>
    obtain ⟨Ss, k, taken, hSs, hne, hm, -, -, -, -, -, -, hperm, hrun⟩ := chooseEqual_spec h hc
    unfold chooseEqual at hc
    unfold splitEqual
    simp only [← hSs] at hc ⊢
    split at hc
    · cases hc
    rename_i hs
    split at hc
    · cases hc
    rename_i h0
    rw [if_neg hs, if_neg h0, hrun]
    cases hc
    rw [ubatchAdd_useAll a hperm]
    rfl

lemma split_eq (h : Ready a) (n : Nat) (k : Split) : a.split n k =
    (choose n k a).map fun c => (a.ubatchOf c.1 c.2 (k ≠ .simple), a.take c.1) := by
  cases k with
  | simple => exact splitSimple_eq n
  | seq => exact splitSeq_eq h n
  | equal sequential => exact splitEqual_eq h n sequential

end Choose

end BatchAllocr

end Mallana
