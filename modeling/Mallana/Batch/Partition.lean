import Mallana.Batch.Split

/-!
# Splitting is a partition

Calling one kind of split until it returns nothing uses every token exactly once. For `split_simple` the
used tokens are always a front part of the batch, for `split_equal` a front part of the tokens of each sequence set;
`Order` is this invariant for each kind of split. `split_partition` states what the ubatches are made of: the fields of
the tokens, and for `split_equal` blocks of one length with disjoint sequence sets.
-/

namespace Mallana

open Lib List Finset

namespace BatchAllocr

variable {F : Type}

section Init

lemma buildMap_eq (sets : List (Finset SeqId)) (S : Finset SeqId) :
    buildMap sets S = (List.range sets.length).filter fun i => sets.getD i ∅ = S := by
  unfold buildMap
  induction sets.length with
  | zero => rfl
  | succ n ih =>
    rw [range_succ, foldl_append, filter_append, ← ih]
    simp only [foldl_cons, foldl_nil]
    by_cases hS : sets.getD n ∅ = S
    · subst hS
      rw [Function.update_self, List.filter_cons_of_pos (by simp), filter_nil]
    · rw [Function.update_of_ne (fun h => hS h.symm), List.filter_cons_of_neg (by simpa using hS),
        filter_nil, append_nil]

lemma length_seqIds (b : LlamaBatch F) : b.seqIds.length = b.nTokens := by
  unfold LlamaBatch.seqIds
  split <;> simp

variable {nPosPerEmbd nVocab nEmbd nSeqMax : Nat} {b : LlamaBatch F} {memory : Option MemoryPos}
  {outputAll : Bool} {a : BatchAllocr F} (h : init nPosPerEmbd b nVocab memory nEmbd nSeqMax outputAll = some a)
include h

lemma init_eq_some :
    a = { nPosPerEmbd, nEmbd, nSeqMax, pos := b.positions memory, nTokens := b.nTokens,
          token := b.token, embd := b.embd, seqId := b.seqIds, logits := b.outputs outputAll,
          hasCpl := b.seqIds.any fun l => 1 < l.length, seqSet := b.seqIds.map List.toFinset,
          seqSetMap := buildMap (b.seqIds.map List.toFinset), outIds := [], nUsed := 0,
          used := List.replicate b.nTokens false } := by
  unfold init at h
  simp only [] at h
  split at h
  · cases h
  split at h
  · cases h
  split at h
  · cases h
  split at h
  · cases h
  · exact (Option.some.inj h).symm

lemma ready_init : Ready a := by
  rw [init_eq_some h]
  refine ⟨length_replicate, fun S => ?_⟩
  show buildMap _ S = _
  rw [buildMap_eq, length_map, length_seqIds]
  rfl

lemma isUsed_init {i : Nat}
    (hi : i < a.nTokens) : a.isUsed i = false := by
  rw [init_eq_some h] at hi ⊢
  have hi' : i < b.nTokens := hi
  simp [isUsed, hi']

lemma setOf_init (i : Nat) :
    a.setOf i = (a.seqId.getD i []).toFinset := by
  rw [init_eq_some h]
  show (b.seqIds.map List.toFinset).getD i ∅ = _
  rw [show (∅ : Finset SeqId) = List.toFinset [] from rfl, getD_map]

end Init

def Order (a : BatchAllocr F) : Split → Prop
  | .simple => ∀ i j, i ≤ j → j < a.nTokens → a.isUsed j = true → a.isUsed i = true
  | .seq => True
  | .equal _ => Down a

section Order
variable {a : BatchAllocr F} {n m : Nat} {idxs : List Nat} {sequential : Bool}

lemma simple_spec (h : Ready a) (hc : a.chooseSimple n = some (idxs, m)) :
    ∃ c k, idxs = List.range' c k ∧ m = k ∧ 0 < k ∧ c + k ≤ a.nTokens ∧ (k = 1 ∨ k ≤ n) ∧
      a.isUsed c = false ∧ ∀ i < c, a.isUsed i = true := by
  unfold chooseSimple at hc
  simp only [] at hc
  split at hc
  · cases hc
  · rename_i hlt
    obtain ⟨hlt, hu, hbefore⟩ := firstUnused_spec hlt
    obtain ⟨k, hk, hle, hn, hrun⟩ := simpleLoop_eq n a.used.length a.firstUnused [] a hlt (by omega)
    rw [hrun, nil_append] at hc
    cases hc
    rw [h.used] at hle
    rw [length_nil, zero_add] at hn
    exact ⟨a.firstUnused, k, rfl, by simp, hk, hle, hn, hu, hbefore⟩

lemma seq_spec (h : Ready a) (hc : a.chooseSeq n = some (idxs, m)) :
    m = 1 ∧ SeqTaken a a.firstUnused idxs ∧ (idxs.length = 1 ∨ idxs.length ≤ n) ∧
      ∀ i < a.firstUnused, a.isUsed i = true := by
  unfold chooseSeq at hc
  split at hc
  · cases hc
  · rename_i hlt
    obtain ⟨hlt, hu, hbefore⟩ := firstUnused_spec hlt
    obtain ⟨l, hl, hn, hrun⟩ := seqLoop_eq n a.used.length a.firstUnused [] a
      (by rw [← h.used]; exact hlt) hu (by rw [h.used]; omega)
    rw [hrun, nil_append] at hc
    cases hc
    rw [length_nil, zero_add] at hn
    exact ⟨rfl, hl, hn, hbefore⟩

lemma mem_freeOf {S : Finset SeqId} {i : Nat} :
    i ∈ a.freeOf S ↔ i < a.nTokens ∧ a.setOf i = S ∧ a.isUsed i = false := by
  simp [freeOf]

lemma sorted_freeOf (S : Finset SeqId) : (a.freeOf S).Pairwise (· < ·) :=
  pairwise_lt_range.filter _

lemma Down.drop_eq (hd : Down a) (h : Ready a) (S : Finset SeqId) :
    (a.seqSetMap S).drop (a.startLane S).cur = a.freeOf S := by
  have hmono : (a.seqSetMap S).Pairwise fun i j => (!a.isUsed i) = true → (!a.isUsed j) = true := by
    rw [h.map]
    refine List.Pairwise.imp_of_mem ?_ (pairwise_lt_range.filter _)
    intro i j hi hj hij hui
    simp only [List.mem_filter, List.mem_range, decide_eq_true_eq] at hi hj
    simp only [Bool.not_eq_true'] at hui ⊢
    by_contra huj
    have hused := hd i j hij.le hj.1 (hi.2.trans hj.2.symm) (by simpa using huj)
    rw [hused] at hui
    cases hui
  unfold startLane freeOf
  simp only []
  rw [drop_findIdx_eq_filter hmono, h.map, List.filter_filter]
  simp only [Bool.and_comm]

lemma equal_spec (h : Ready a) (hd : Down a) (hc : a.chooseEqual n sequential = some (idxs, m)) :
    ∃ Ss k, Ss = a.pickSets n sequential (List.range a.nTokens) [] (-1) ∧ Ss ≠ [] ∧ m = Ss.length ∧ Apart Ss ∧
      (∀ S ∈ Ss, ∃ i < a.nTokens, a.isUsed i = false ∧ a.setOf i = S) ∧ 0 < k ∧
      (∀ S ∈ Ss, k ≤ (a.freeOf S).length) ∧ (k = 1 ∨ k * Ss.length ≤ n) ∧
      idxs = Ss.flatMap fun S => (a.freeOf S).take k := by
  obtain ⟨Ss, k, taken, hSs, hne, hm, hap, hfrom, hk, hlen, hn, hidxs, -, -⟩ := chooseEqual_spec h hc
  refine ⟨Ss, k, hSs, hne, hm, hap, hfrom, hk, fun S hS => ?_, hn, ?_⟩
  · rw [← hd.drop_eq h, length_drop]
    have hle := hlen S hS
    omega
  · rw [hidxs]
    refine flatMap_congr fun S _ => ?_
    rw [hd.drop_eq h]

lemma mem_take_of_lt {l : List Nat} (hl : l.Pairwise (· < ·)) {i j k : Nat} (hi : i ∈ l)
    (hj : j ∈ l.take k) (hij : i < j) : i ∈ l.take k := by
  by_contra hno
  rw [← take_append_drop k l] at hl hi
  have hrest : i ∈ l.drop k := (mem_append.1 hi).resolve_left hno
  exact lt_asymm hij ((pairwise_append.1 hl).2.2 j hj i hrest)

lemma Order.take {k : Split} (ho : a.Order k) (h : Ready a) (hc : a.choose n k = some (idxs, m)) :
    (a.take idxs).Order k := by
  have hsame := sameBatch_take a idxs
  have hn : (a.take idxs).nTokens = a.nTokens := by rw [hsame]
  cases k with
  | simple =>
    obtain ⟨c, k, rfl, -, -, -, -, hcu, hbefore⟩ := simple_spec h hc
    intro i j hij hj hu
    rw [hn] at hj
    rw [isUsed_take, Bool.or_eq_true, decide_eq_true_eq, mem_range'_1] at hu ⊢
    by_cases hic : i < c
    · exact .inl (hbefore i hic)
    · obtain hu | hu := hu
      · exact .inl (ho i j hij hj hu)
      · exact .inr (by omega)
  | seq => trivial
  | equal sequential =>
    obtain ⟨Ss, k, -, -, -, -, -, -, -, -, rfl⟩ := equal_spec h ho hc
    intro i j hij hj hset hu
    rw [hn] at hj
    rw [hsame.setOf, hsame.setOf] at hset
    rw [isUsed_take, Bool.or_eq_true, decide_eq_true_eq] at hu ⊢
    obtain hu | hu := hu
    · exact .inl (ho i j hij hj hset hu)
    · obtain ⟨S, hS, hjS⟩ := mem_flatMap.1 hu
      by_cases hiu : a.isUsed i = true
      · exact .inl hiu
      · obtain rfl | hlt := hij.eq_or_lt
        · exact .inr hu
        · have hjS' := mem_freeOf.1 (mem_of_mem_take hjS)
          have hi : i ∈ a.freeOf S :=
            mem_freeOf.2 ⟨hlt.trans hj, hset.trans hjS'.2.1, Bool.eq_false_of_not_eq_true hiu⟩
          exact .inr (mem_flatMap.2 ⟨S, hS, mem_take_of_lt (sorted_freeOf S) hi hjS hlt⟩)

lemma choose_unused {k : Split} (ho : a.Order k) (h : Ready a) (hc : a.choose n k = some (idxs, m)) :
    idxs ≠ [] ∧ ∀ i ∈ idxs, i < a.nTokens ∧ a.isUsed i = false := by
  cases k with
  | simple =>
    obtain ⟨c, k, rfl, -, hk, hle, -, hcu, hbefore⟩ := simple_spec h hc
    refine ⟨fun h0 => ?_, fun i hi => ?_⟩
    · have hlen := congrArg List.length h0
      rw [length_range', length_nil] at hlen
      omega
    · rw [mem_range'_1] at hi
      refine ⟨by omega, Bool.eq_false_of_not_eq_true fun hu => ?_⟩
      rw [ho c i hi.1 (by omega) hu] at hcu
      cases hcu
  | seq =>
    obtain ⟨-, hl, -, -⟩ := seq_spec h hc
    exact ⟨ne_nil_of_mem hl.mem, fun i hi => (hl.each i hi).2⟩
  | equal sequential =>
    obtain ⟨Ss, k, -, hne, -, -, -, hk, hlen, -, rfl⟩ := equal_spec h ho hc
    refine ⟨fun h0 => ?_, fun i hi => ?_⟩
    · obtain ⟨S, hS⟩ := exists_mem_of_ne_nil Ss hne
      have hnil := flatMap_eq_nil_iff.1 h0 S hS
      have hle := hlen S hS
      have hzero := congrArg List.length hnil
      rw [length_take, length_nil] at hzero
      omega
    · obtain ⟨S, -, hiS⟩ := mem_flatMap.1 hi
      have hi' := mem_freeOf.1 (mem_of_mem_take hiS)
      exact ⟨hi'.1, hi'.2.2⟩

lemma choose_nodup {k : Split} (ho : a.Order k) (h : Ready a) (hsets : ∀ i < a.nTokens, a.setOf i ≠ ∅)
    (hc : a.choose n k = some (idxs, m)) : idxs.Nodup := by
  cases k with
  | simple =>
    obtain ⟨c, k, rfl, -⟩ := simple_spec h hc
    exact nodup_range'
  | seq =>
    obtain ⟨-, hl, -, -⟩ := seq_spec h hc
    exact hl.sorted.imp fun hlt => ne_of_lt hlt
  | equal sequential =>
    obtain ⟨Ss, k, -, -, -, hap, hfrom, -, -, -, rfl⟩ := equal_spec h ho hc
    refine nodup_flatMap.2 ⟨fun S _ => ?_, ?_⟩
    · exact ((sorted_freeOf S).imp fun hlt => ne_of_lt hlt).sublist (take_sublist k _)
    · refine List.Pairwise.imp_of_mem ?_ hap
      intro S T hS hT hST i hiS hiT
      have hS' := (mem_freeOf.1 (mem_of_mem_take hiS)).2.1
      have hT' := (mem_freeOf.1 (mem_of_mem_take hiT)).2.1
      rw [← hS', ← hT', inter_self] at hST
      exact hsets i (mem_freeOf.1 (mem_of_mem_take hiS)).1 hST

lemma choose_none {k : Split} (h : Ready a) (hk : k = .equal true → a.hasCpl = false)
    (hc : a.choose n k = none) {i : Nat} (hi : i < a.nTokens) : a.isUsed i = true := by
  have hall : a.used.length ≤ a.firstUnused → a.isUsed i = true := by
    intro hle
    have hlt : i < a.firstUnused := by
      rw [h.used] at hle
      omega
    have hno := not_of_lt_findIdx hlt
    unfold isUsed
    rw [getD_eq_getElem _ _ (by rw [h.used]; exact hi)]
    simpa using hno
  cases k with
  | simple =>
    unfold choose chooseSimple at hc
    simp only [] at hc
    split at hc
    · rename_i hle
      exact hall hle
    · cases hc
  | seq =>
    unfold choose chooseSeq at hc
    simp only [] at hc
    split at hc
    · rename_i hle
      exact hall hle
    · cases hc
  | equal sequential =>
    unfold choose chooseEqual at hc
    simp only [] at hc
    split at hc
    · rename_i hs
      obtain ⟨rfl, hcpl⟩ := hs
      rw [hk rfl] at hcpl
      cases hcpl
    · split at hc
      · rename_i h0
        obtain ⟨new, hnew, -, -, hused⟩ := pickSets_spec (a := a) n (List.range a.nTokens) [] (-1)
          List.Pairwise.nil
        rw [hnew, nil_append] at h0
        exact hused rfl (eq_nil_of_length_eq_zero h0) i (List.mem_range.2 hi)
      · cases hc

end Order

/-- The token, position, sequence id and output fields of a ubatch are those of the tokens `idxs` of the
    batch. Text has one position for each token, also where the model wants several. -/
structure Gathers (b : LlamaBatch F) (memory : Option MemoryPos) (outputAll : Bool) (nPosPerEmbd : Nat)
    (idxs : List Nat) (u : FullUbatch F) : Prop where
  size : u.nTokens = idxs.length
  token : u.token.isSome = b.token.isSome
  tokens : ∀ ts ∈ b.token, ∀ us ∈ u.token, ∀ i < idxs.length, us.getD i 0 = ts.getD (idxs.getD i 0) 0
  pos : ∀ j < nPosPerEmbd, ∀ i < idxs.length, u.pos.getD (j * idxs.length + i) 0 =
    (b.positions memory).getD ((if b.token.isSome then 0 else j * b.nTokens) + idxs.getD i 0) 0
  seqId : ∀ i < idxs.length, u.seqId.getD i [] = b.seqIds.getD (idxs.getD i 0) []
  output : ∀ i < idxs.length, u.output.getD i 0 = (b.outputs outputAll).getD (idxs.getD i 0) 0

/-- The tokens of a ubatch form `nSeqs` blocks of one length, each with one sequence set, and the sets of
    two blocks are disjoint. -/
def Blocks (u : FullUbatch F) : Prop :=
  0 < u.nSeqTokens ∧ u.nTokens = u.nSeqs * u.nSeqTokens ∧ ∃ set : Nat → Finset SeqId,
      (∀ t < u.nSeqs, ∀ i < u.nSeqTokens, (u.seqId.getD (t * u.nSeqTokens + i) []).toFinset = set t) ∧
      ∀ t < u.nSeqs, ∀ t' < u.nSeqs, t ≠ t' → Disjoint (set t) (set t')

section Gathered
variable {nPosPerEmbd nVocab nEmbd nSeqMax n m : Nat} {b : LlamaBatch F} {memory : Option MemoryPos}
  {outputAll sequential : Bool} {a a' : BatchAllocr F} {idxs : List Nat}

lemma getD_map_idxs {α : Type} (f : Nat → α) {i : Nat} (hi : i < idxs.length) (d : α) :
    (idxs.map f).getD i d = f (idxs.getD i 0) := by
  rw [getD_eq_getElem _ _ (by simpa using hi), getD_eq_getElem _ _ hi, getElem_map]

lemma gathers_ubatchOf (h : init nPosPerEmbd b nVocab memory nEmbd nSeqMax outputAll = some a)
    (idxs : List Nat) (m : Nat) (e : Bool) :
    Gathers b memory outputAll nPosPerEmbd idxs (a.ubatchOf idxs m e) := by
  rw [init_eq_some h]
  refine ⟨rfl, by simp [ubatchOf], ?_, ?_, ?_, ?_⟩
  · intro ts hts us hus i hi
    obtain ⟨ts', hts', rfl⟩ := Option.mem_map.1 hus
    obtain rfl := Option.mem_unique hts hts'
    exact getD_map_idxs _ hi 0
  · intro j hj i hi
    refine (getD_flatMap (by simp) (by simpa using hj) hi 0 0).trans ?_
    rw [getD_map_idxs _ hi]
    simp [hj]
  · exact fun i hi => getD_map_idxs _ hi []
  · exact fun i hi => getD_map_idxs _ hi 0

lemma blocks_ubatchOf (hset : ∀ i, a.setOf i = (a.seqId.getD i []).toFinset) (h : Ready a) (hd : Down a)
    (hc : a.chooseEqual n sequential = some (idxs, m)) : Blocks (a.ubatchOf idxs m true) := by
  obtain ⟨Ss, k, -, hne, rfl, hap, -, hk, hlen, -, rfl⟩ := equal_spec h hd hc
  have htake : ∀ S ∈ Ss, ((a.freeOf S).take k).length = k := by
    intro S hS
    rw [length_take]
    exact min_eq_left (hlen S hS)
  have htotal : (Ss.flatMap fun S => (a.freeOf S).take k).length = Ss.length * k := by
    rw [length_flatMap, map_congr_left htake, map_const', sum_replicate_nat]
  have hpos : 0 < Ss.length := length_pos_iff.2 hne
  have hrows : (a.ubatchOf (Ss.flatMap fun S => (a.freeOf S).take k) Ss.length true).nSeqTokens = k := by
    show (Ss.flatMap fun S => (a.freeOf S).take k).length / Ss.length = k
    rw [htotal, Nat.mul_div_cancel_left k hpos]
  unfold Blocks
  rw [hrows]
  refine ⟨hk, htotal, fun t => Ss.getD t ∅, ?_, ?_⟩
  · intro t ht i hi
    have hSt : Ss.getD t ∅ ∈ Ss := by
      rw [getD_eq_getElem _ _ ht]
      exact getElem_mem ht
    have hlt : t * k + i < (Ss.flatMap fun S => (a.freeOf S).take k).length := by
      have hmul : (t + 1) * k ≤ Ss.length * k := Nat.mul_le_mul_right k ht
      rw [Nat.succ_mul] at hmul
      rw [htotal]
      omega
    show (((Ss.flatMap fun S => (a.freeOf S).take k).map fun i => a.seqId.getD i []).getD _ _).toFinset = _
    rw [getD_map_idxs _ hlt, getD_flatMap htake ht hi ∅, ← hset]
    have hmem : ((a.freeOf (Ss.getD t ∅)).take k).getD i 0 ∈ (a.freeOf (Ss.getD t ∅)).take k := by
      have hi' : i < ((a.freeOf (Ss.getD t ∅)).take k).length := by
        rw [htake _ hSt]
        exact hi
      rw [getD_eq_getElem _ 0 hi']
      exact getElem_mem hi'
    exact (mem_freeOf.1 (mem_of_mem_take hmem)).2.1
  · intro t ht t' ht' htt
    change t < Ss.length at ht
    change t' < Ss.length at ht'
    show Disjoint (Ss.getD t ∅) (Ss.getD t' ∅)
    rw [getD_eq_getElem _ _ ht, getD_eq_getElem _ _ ht', disjoint_iff_inter_eq_empty]
    obtain hlt | hlt := Nat.lt_or_gt_of_ne htt
    · exact pairwise_iff_getElem.1 hap t t' ht ht' hlt
    · rw [inter_comm]
      exact pairwise_iff_getElem.1 hap t' t ht' ht hlt

end Gathered

/-- One call as a choice: the chosen tokens, and the state after they are taken. -/
def choice (n : Nat) (k : Split) (a : BatchAllocr F) : Option ((List Nat × Nat) × BatchAllocr F) :=
  (choose n k a).map fun c => (c, a.take c.1)

/-- A state in the course of splitting the batch `a₀`. -/
structure Splitting (a₀ : BatchAllocr F) (k : Split) (a : BatchAllocr F) : Prop where
  same : SameBatch a₀ a
  ready : Ready a
  order : a.Order k

def unused (a : BatchAllocr F) : Finset Nat := (Finset.range a.nTokens).filter fun i => a.isUsed i = false

section Run
variable {nPosPerEmbd nVocab nEmbd nSeqMax n : Nat} {b : LlamaBatch F} {memory : Option MemoryPos}
  {outputAll : Bool} {a₀ a a' : BatchAllocr F} {k : Split} {c : List Nat × Nat} {cs : List (List Nat × Nat)}

lemma choice_eq_some (h : choice n k a = some (c, a')) : choose n k a = some c ∧ a' = a.take c.1 := by
  unfold choice at h
  obtain ⟨c', hc, he⟩ := Option.map_eq_some_iff.1 h
  obtain ⟨rfl, rfl⟩ := Prod.mk.inj he
  exact ⟨hc, rfl⟩

lemma splitting_init (h : init nPosPerEmbd b nVocab memory nEmbd nSeqMax outputAll = some a)
    (k : Split) : Splitting a k a := by
  refine ⟨sameBatch_refl a, ready_init h, ?_⟩
  have hno : ∀ j < a.nTokens, a.isUsed j = true → False := by
    intro j hj hu
    rw [isUsed_init h hj] at hu
    cases hu
  cases k with
  | simple => exact fun i j _ hj hu => (hno j hj hu).elim
  | seq => trivial
  | equal sequential => exact fun i j _ hj _ hu => (hno j hj hu).elim

lemma Splitting.step (h : Splitting a₀ k a) (hc : choice n k a = some (c, a')) : Splitting a₀ k a' := by
  obtain ⟨hch, rfl⟩ := choice_eq_some hc
  exact ⟨h.same.trans (sameBatch_take a c.1), h.ready.take c.1, h.order.take h.ready hch⟩

lemma unused_init (h : init nPosPerEmbd b nVocab memory nEmbd nSeqMax outputAll = some a) :
    a.unused = Finset.range a.nTokens :=
  filter_true_of_mem fun _ hi => isUsed_init h (Finset.mem_range.1 hi)

lemma unused_take (a : BatchAllocr F) (idxs : List Nat) : (a.take idxs).unused = a.unused \ idxs.toFinset := by
  have hn : (a.take idxs).nTokens = a.nTokens := by rw [sameBatch_take a idxs]
  ext i
  unfold unused
  rw [hn]
  simp [isUsed_take, and_assoc]

section
variable (h : Splitting a₀ k a)
include h

lemma Splitting.card_lt (hc : choice n k a = some (c, a')) :
    a'.unused.card < a.unused.card := by
  obtain ⟨hch, rfl⟩ := choice_eq_some hc
  obtain ⟨hne, hun⟩ := choose_unused h.order h.ready hch
  obtain ⟨i, hi⟩ := exists_mem_of_ne_nil c.1 hne
  rw [unused_take]
  refine card_lt_card ⟨sdiff_subset, fun hsub => ?_⟩
  have hiu : i ∈ a.unused := by
    unfold unused
    simpa using hun i hi
  exact (mem_sdiff.1 (hsub hiu)).2 (mem_toFinset.2 hi)

lemma Splitting.exists_drains (n : Nat) :
    ∃ cs a', Drains (choice n k) a cs a' ∧ cs.length ≤ a.nTokens := by
  obtain ⟨cs, a', hrun, hlen⟩ := Lib.exists_drains (I := Splitting a₀ k) (μ := fun a => a.unused.card)
    (fun s c s' hs hc => ⟨hs.step hc, hs.card_lt hc⟩) h
  refine ⟨cs, a', hrun, hlen.trans ?_⟩
  refine (card_filter_le _ _).trans ?_
  rw [card_range]

lemma Splitting.drains_split (hrun : Drains (choice n k) a cs a') :
    Drains (split n k) a (cs.map fun c => a₀.ubatchOf c.1 c.2 (k ≠ .simple)) a' := by
  refine hrun.map (I := Splitting a₀ k) (fun s c s' hs hc => hs.step hc) (fun s hs => ?_) h
  rw [split_eq hs.ready, hs.same.ubatchOf]
  unfold choice
  rw [Option.map_map]
  rfl

lemma Splitting.partition (hsets : ∀ i < a₀.nTokens, a₀.setOf i ≠ ∅)
    (hk : k = .equal true → a₀.hasCpl = false) (hrun : Drains (choice n k) a cs a') :
    (cs.flatMap Prod.fst).Nodup ∧ (cs.flatMap Prod.fst).toFinset = a.unused := by
  refine hrun.partition (I := Splitting a₀ k) unused Prod.fst (fun s c s' hs hc => hs.step hc) ?_ ?_ h
  · intro s c s' hs hc
    obtain ⟨hch, rfl⟩ := choice_eq_some hc
    have hsets' : ∀ i < s.nTokens, s.setOf i ≠ ∅ := by
      intro i hi
      rw [hs.same.setOf]
      rw [hs.same] at hi
      exact hsets i hi
    refine ⟨choose_nodup hs.order hs.ready hsets' hch, fun i hi => ?_, unused_take s c.1⟩
    unfold unused
    simpa using (choose_unused hs.order hs.ready hch).2 i hi
  · intro s hs hc
    have hk' : k = .equal true → s.hasCpl = false := by
      rw [hs.same]
      exact hk
    have hnone : choose n k s = none := by simpa [choice] using hc
    refine filter_false_of_mem fun i hi => ?_
    rw [choose_none hs.ready hk' hnone (Finset.mem_range.1 hi)]
    simp

end

lemma outIds_of_drains (hrun : Drains (choice n k) a cs a') :
    a'.outIds = a.outIds ++ (cs.flatMap Prod.fst).filter a.isOutput := by
  induction hrun with
  | done _ => simp
  | @more s s1 s2 c cs h _ ih =>
    obtain ⟨-, rfl⟩ := choice_eq_some h
    have hout : (s.take c.1).isOutput = s.isOutput := by
      have hsame := sameBatch_take s c.1
      rw [hsame]
      rfl
    rw [ih, hout, flatMap_cons, filter_append, ← append_assoc]
    rfl

/-- Calling a split until it returns nothing ends, and its ubatches partition the batch. -/
theorem split_partition (hinit : init nPosPerEmbd b nVocab memory nEmbd nSeqMax outputAll = some a)
    (hids : ∀ ids ∈ b.seqIds, ids ≠ []) (n : Nat) (k : Split)
    (hcpl : k = .equal true → ∀ ids ∈ b.seqIds, ids.length ≤ 1) :
    ∃ (cs : List (List Nat × FullUbatch F)) (a' : BatchAllocr F),
      (∀ fuel > b.nTokens, drain (split n k) fuel a = some (cs.map Prod.snd, a')) ∧
      (cs.flatMap Prod.fst).Perm (List.range b.nTokens) ∧
      a'.outIds = (cs.flatMap Prod.fst).filter (fun i => (b.outputs outputAll).getD i 0 ≠ 0) ∧
      ∀ c ∈ cs, Gathers b memory outputAll nPosPerEmbd c.1 c.2 ∧
        ∀ sequential, k = .equal sequential → Blocks c.2 := by
  have h := splitting_init hinit k
  have heq := init_eq_some hinit
  have hn : a.nTokens = b.nTokens := by rw [heq]
  have hsets : ∀ i < a.nTokens, a.setOf i ≠ ∅ := by
    intro i hi
    rw [setOf_init hinit, Ne, toFinset_eq_empty_iff]
    have hlt : i < b.seqIds.length := by
      rw [length_seqIds, ← hn]
      exact hi
    rw [heq]
    show b.seqIds.getD i [] ≠ []
    rw [getD_eq_getElem _ _ hlt]
    exact hids _ (getElem_mem hlt)
  have hk : k = .equal true → a.hasCpl = false := by
    intro hk
    rw [heq]
    simpa using hcpl hk
  obtain ⟨cs, a', hrun, hlen⟩ := h.exists_drains n
  obtain ⟨hnd, hset⟩ := h.partition hsets hk hrun
  refine ⟨cs.map fun c => (c.1, a.ubatchOf c.1 c.2 (k ≠ .simple)), a', ?_, ?_, ?_, ?_⟩
  · intro fuel hfuel
    rw [List.map_map]
    exact (h.drains_split hrun).drain_eq (by rw [length_map]; omega)
  · rw [flatMap_map]
    refine (perm_ext_iff_of_nodup hnd nodup_range).2 fun i => ?_
    rw [← mem_toFinset, hset, unused_init hinit, hn]
    simp
  · rw [flatMap_map, outIds_of_drains hrun, heq]
    rfl
  · intro c hc
    obtain ⟨c, hcs, rfl⟩ := List.mem_map.1 hc
    refine ⟨gathers_ubatchOf hinit _ _ _, ?_⟩
    rintro sequential rfl
    refine hrun.forall_mem (I := Splitting a (.equal sequential))
      (Q := fun c => Blocks (a.ubatchOf c.1 c.2 true)) (fun s c s' hs hc => hs.step hc) ?_ h c hcs
    intro s c s' hs hc
    obtain ⟨hch, -⟩ := choice_eq_some hc
    rw [← hs.same.ubatchOf]
    refine blocks_ubatchOf (fun i => ?_) hs.ready hs.order hch
    rw [hs.same.setOf, setOf_init hinit, hs.same]

def pair : LlamaBatch Unit where
  nTokens := 2
  token := some [0, 0]
  pos := some [0, 0]
  seqId := some [[0], [1]]

lemma isSome_init_pair : (init 1 pair 1 none 1 2 false).isSome = true := by decide +kernel

/-- `split_equal` in sequential mode partitions the two tokens. -/
theorem split_partition_pair : ∃ a, init 1 pair 1 none 1 2 false = some a ∧
    ∃ (cs : List (List Nat × FullUbatch Unit)) (a' : BatchAllocr Unit),
      drain (split 2 (.equal true)) 3 a = some (cs.map Prod.snd, a') ∧ (cs.flatMap Prod.fst).Perm [0, 1] := by
  obtain ⟨a, ha⟩ := Option.isSome_iff_exists.1 isSome_init_pair
  obtain ⟨cs, a', hrun, hperm, -⟩ := split_partition ha (by decide) 2 (.equal true) (fun _ => by decide)
  exact ⟨a, ha, cs, a', hrun 3 (by decide), hperm⟩

end Run

end BatchAllocr

end Mallana
