import Mallana.KvCache.Frame

/-!
# What `find_slot` finds

Searching cell by cell (`cont = false`), `find_slot` visits the cells of a stream once around, from the
head to the end and then from the start to the head. `findLoop_eq` gives the result of the search loop
in closed form: the first `n_tokens` usable cells in that order, or no slot when there are fewer. The
loop ends within its step budget. A slot therefore consists of distinct usable cells (`FoundIn`), with
`n_tokens` of them in every stream.
-/

namespace Mallana

open Lib List

namespace KvCache

section Loop
variable {ok : Nat → Bool} {size n : Nat}

lemma testCells_one (head tested : Nat) (acc : List Nat) : testCells ok false 1 head tested acc =
      (head + 1, tested + 1, if ok head then acc ++ [head] else acc) := by
  cases h : ok head <;> simp [testCells, h]

lemma findLoop_run (fuel len head tested : Nat) (acc : List Nat) (hlen : head + len ≤ size)
    (htest : tested + len ≤ size) (hacc : acc.length < n) : findLoop ok false size n (fuel + len) head tested acc =
      if n ≤ (acc ++ (List.range' head len).filter ok).length then
        some (some ((acc ++ (List.range' head len).filter ok).take n))
      else if 0 < len ∧ size ≤ tested + len then some none
      else findLoop ok false size n fuel (head + len) (tested + len)
        (acc ++ (List.range' head len).filter ok) := by
  induction len generalizing head tested acc with
  | zero => simp [Nat.not_le.2 hacc]
  | succ len ih =>
    have hsplit : acc ++ (List.range' head (len + 1)).filter ok =
        (if ok head then acc ++ [head] else acc) ++ (List.range' (head + 1) len).filter ok := by
      rw [range'_succ, filter_cons]
      cases ok head <;> simp
    have hle : (if ok head then acc ++ [head] else acc).length ≤ n := by
      cases ok head
      · exact le_of_lt hacc
      · simp only [if_true, length_append, length_cons, length_nil]
        omega
    have hstep : findLoop ok false size n (fuel + len + 1) head tested acc =
        if (if ok head then acc ++ [head] else acc).length = n then
          some (some (if ok head then acc ++ [head] else acc))
        else if size ≤ tested + 1 then some none
        else findLoop ok false size n (fuel + len) (head + 1) (tested + 1)
          (if ok head then acc ++ [head] else acc) := by
      have hin : ¬ size < head + 1 := by omega
      simp [findLoop, hin, testCells_one]
    rw [hsplit, ← add_assoc, hstep]
    generalize (if ok head then acc ++ [head] else acc) = acc' at hle ⊢
    by_cases hn : acc'.length = n
    · rw [if_pos hn, if_pos (by simp [hn]), ← hn, take_left]
    · rw [if_neg hn]
      by_cases hend : size ≤ tested + 1
      · obtain rfl : len = 0 := by omega
        have : ¬ n ≤ acc'.length := by omega
        simp [hend, this]
      · rw [if_neg hend, ih (head + 1) (tested + 1) acc' (by omega) (by omega) (by omega)]
        have e1 : head + 1 + len = head + (len + 1) := by omega
        have e2 : tested + 1 + len = tested + (len + 1) := by omega
        rw [e1, e2]
        congr 1
        by_cases h0 : 0 < len
        · simp [h0]
        · obtain rfl : len = 0 := by omega
          have : ¬ size ≤ tested + 1 := hend
          simp [this]

def searchOrder (head size : Nat) : List Nat := List.range' head (size - head) ++ List.range' 0 head

lemma findLoop_eq (fuel head : Nat) (hn : 0 < n) (hle : n ≤ size) (hh : head ≤ size)
    (hfuel : 2 * size + 2 ≤ fuel) : findLoop ok false size n fuel head 0 [] =
      some (if n ≤ ((searchOrder head size).filter ok).length then
        some (((searchOrder head size).filter ok).take n) else none) := by
  obtain ⟨f, rfl⟩ : ∃ f, fuel = (f + head + 1) + (size - head) := ⟨fuel - size - 1, by omega⟩
  rw [findLoop_run _ _ _ _ _ (by omega) (by omega) hn]
  simp only [nil_append, searchOrder, filter_append]
  generalize hu : (List.range' head (size - head)).filter ok = us
  by_cases h1 : n ≤ us.length
  · have : n ≤ (us ++ (List.range' 0 head).filter ok).length := by
      rw [length_append]
      omega
    rw [if_pos h1, if_pos this, take_append_of_le_length h1]
  rw [if_neg h1, zero_add]
  by_cases h0 : head = 0
  · -- the first round already saw every cell
    subst h0
    simp [h1, show 0 < size by omega]
  rw [if_neg (by omega)]
  have hwrap : findLoop ok false size n (f + head + 1) (head + (size - head)) (size - head) us =
      findLoop ok false size n (f + head) 0 (size - head) us := by
    have : size < head + (size - head) + 1 := by omega
    have e : size - (head + (size - head)) = 0 := by omega
    simp [findLoop, this, e]
  rw [hwrap, findLoop_run f head 0 (size - head) us (by omega) (by omega) (by omega)]
  by_cases h2 : n ≤ (us ++ (List.range' 0 head).filter ok).length
  · rw [if_pos h2, if_pos h2]
  · rw [if_neg h2, if_neg h2, if_pos (by omega)]

lemma mem_searchOrder {head size i : Nat} (hh : head ≤ size) : i ∈ searchOrder head size ↔ i < size := by
  simp only [searchOrder, mem_append, mem_range'_1]
  omega

lemma nodup_searchOrder (head size : Nat) : (searchOrder head size).Nodup := by
  refine nodup_append.2 ⟨nodup_range', nodup_range', ?_⟩
  intro i hi j hj
  simp only [mem_range'_1] at hi hj
  omega

lemma length_filter_searchOrder (ok : Nat → Bool) {head size : Nat} (hh : head ≤ size) :
    ((searchOrder head size).filter ok).length = (List.range size).countP ok := by
  have hp : (searchOrder head size).Perm (List.range size) := by
    refine (perm_ext_iff_of_nodup (nodup_searchOrder _ _) nodup_range).2 ?_
    intro i
    rw [mem_searchOrder hh, mem_range]
  rw [← countP_eq_length_filter, hp.countP_eq]

lemma length_findLoop {fuel head tested : Nat} {acc l : List Nat}
    (h : findLoop ok false size n fuel head tested acc = some (some l)) : l.length = n := by
  induction fuel generalizing head tested acc with
  | zero => cases h
  | succ fuel ih =>
    simp only [findLoop, Bool.false_eq_true, if_false] at h
    split at h
    · exact ih h
    · split at h
      · rename_i hl
        simp only [Option.some.injEq] at h
        rw [← h]
        exact hl
      · split at h
        · cases h
        · exact ih h

end Loop

/-- A well-formed cache: its shape, heads within the streams, and cell tables that satisfy their
    invariant. -/
structure Wf (kvSize : Nat) (c : KvCache) : Prop where
  shape : Shape kvSize c
  head_le : ∀ t, c.headOf t ≤ kvSize
  inv : ∀ t, KvCells.Inv (c.cellsOf t)

/-- `idxs` are `n` distinct usable cells of stream `t`. -/
structure FoundIn (c : KvCache) (n t : Nat) (idxs : List Nat) : Prop where
  length : idxs.length = n
  nodup : idxs.Nodup
  lt : ∀ i ∈ idxs, i < (c.cellsOf t).size
  usable : ∀ i ∈ idxs, c.canUse (c.cellsOf t) i = true

variable {c : KvCache} {kvSize n t : Nat}

lemma findInStream_eq (hn : 0 < n) (hh : c.headOf t ≤ (c.cellsOf t).size) :
    ∃ head ≤ (c.cellsOf t).size, c.findInStream false n t = .ok (
      if n ≤ ((searchOrder head (c.cellsOf t).size).filter (c.canUse (c.cellsOf t))).length then
        some (((searchOrder head (c.cellsOf t).size).filter (c.canUse (c.cellsOf t))).take n) else none) := by
  refine ⟨if (c.cellsOf t).getUsed + 2 * n < c.headOf t then 0 else c.headOf t, ?_, ?_⟩
  · split <;> omega
  · generalize hhead : (if (c.cellsOf t).getUsed + 2 * n < c.headOf t then 0 else c.headOf t) = head
    have hle : head ≤ (c.cellsOf t).size := by
      rw [← hhead]
      split <;> omega
    unfold findInStream
    simp only [hhead]
    split
    · rename_i hlt
      have hlen := length_filter_searchOrder (c.canUse (c.cellsOf t)) hle
      have hcnt : (List.range (c.cellsOf t).size).countP (c.canUse (c.cellsOf t)) ≤ (c.cellsOf t).size := by
        have := countP_le_length (p := c.canUse (c.cellsOf t))
          (l := List.range (c.cellsOf t).size)
        simpa using this
      rw [if_neg (by omega)]
    · rw [findLoop_eq _ _ hn (by omega) hle le_rfl]

lemma foundIn_of_findInStream (hh : c.headOf t ≤ (c.cellsOf t).size) {idxs : List Nat}
    (h : c.findInStream false n t = .ok (some idxs)) : FoundIn c n t idxs := by
  obtain hn | hn := eq_zero_or_pos n
  · have hnil : idxs = [] := by
      unfold findInStream at h
      simp only [] at h
      split at h
      · cases h
      · split at h
        · cases h
        · rename_i r hr
          simp only [Except.ok.injEq] at h
          rw [h] at hr
          have := length_findLoop hr
          rw [hn] at this
          exact length_eq_zero_iff.1 this
    subst hnil
    exact ⟨hn.symm, nodup_nil, by simp, by simp⟩
  · obtain ⟨head, hle, heq⟩ := findInStream_eq hn hh
    rw [heq] at h
    split at h
    · rename_i hlen
      simp only [Except.ok.injEq, Option.some.injEq] at h
      subst h
      refine ⟨?_, ?_, ?_, ?_⟩
      · rw [length_take]
        omega
      · exact ((nodup_searchOrder _ _).filter _).sublist (take_sublist _ _)
      · intro i hi
        have := (mem_filter.1 (mem_of_mem_take hi)).1
        exact (mem_searchOrder hle).1 this
      · intro i hi
        exact (mem_filter.1 (mem_of_mem_take hi)).2
    · cases h

lemma findInStream_some (hn : 0 < n) (hh : c.headOf t ≤ (c.cellsOf t).size)
    (hfree : n ≤ (List.range (c.cellsOf t).size).countP (c.canUse (c.cellsOf t))) :
    ∃ idxs, c.findInStream false n t = .ok (some idxs) := by
  obtain ⟨head, hle, heq⟩ := findInStream_eq hn hh
  rw [← length_filter_searchOrder _ hle] at hfree
  rw [heq, if_pos hfree]
  exact ⟨_, rfl⟩

variable {u : Ubatch} {sl : SlotInfo}

lemma findStreams_some (hh : ∀ t, c.headOf t ≤ (c.cellsOf t).size) {s : Nat}
    {qs : List SeqId} {res : SlotInfo} (h : c.findStreams u false n s qs res = .ok (some sl)) :
    sl.strm = res.strm ++ qs.map c.seqToStream ∧ sl.idxs ≠ [] ∧ ∃ l, sl.idxs = res.idxs ++ l ∧
        List.Forall₂ (fun q idxs => FoundIn c n (c.seqToStream q) idxs) qs l := by
  induction qs generalizing s res with
  | nil =>
    simp only [findStreams, Except.ok.injEq] at h
    split at h
    · cases h
    · rename_i hne
      cases h
      exact ⟨by simp, hne, [], by simp, List.Forall₂.nil⟩
  | cons q qs ih =>
    unfold findStreams at h
    simp only [] at h
    split at h
    · cases h
    · split at h
      · cases h
      · cases h
      · rename_i idxs hidxs
        obtain ⟨hs, hne, l, hl, hall⟩ := ih h
        refine ⟨by simp [hs], hne, idxs :: l, by simp [hl], ?_⟩
        exact List.Forall₂.cons (foundIn_of_findInStream (hh _) hidxs) hall

/-- A slot that `find_slot` returned for `n` tokens in each stream. -/
structure Found (c : KvCache) (n : Nat) (sl : SlotInfo) : Prop where
  length : sl.idxs.length = sl.strm.length
  nonempty : 0 < sl.strm.length
  stream : ∀ s < sl.strm.length, sl.strm.getD s 0 < c.nStream
  cells : ∀ s < sl.strm.length, FoundIn c n (sl.strm.getD s 0) (sl.idxs.getD s [])

lemma Found.size (h : Found c n sl) : sl.size = n := by
  have h0 := (h.cells 0 h.nonempty).length
  have hpos : 0 < sl.idxs.length := by
    rw [h.length]
    exact h.nonempty
  cases e : sl.idxs with
  | nil => simp [e] at hpos
  | cons a l =>
    rw [e] at h0
    simpa [SlotInfo.size, e] using h0

lemma found_of_findStreams (hn : 0 < c.nStream)
    (hh : ∀ t, c.headOf t ≤ (c.cellsOf t).size) {qs : List SeqId} {a b : Nat}
    (h : c.findStreams u false n 0 qs { s0 := a, s1 := b, strm := [], idxs := [] } = .ok (some sl)) :
    Found c n sl ∧ sl.strm = qs.map c.seqToStream := by
  obtain ⟨hs, hne, l, hl, hall⟩ := findStreams_some hh h
  simp only [nil_append] at hs hl
  have hlen := hall.length_eq
  refine ⟨⟨?_, ?_, ?_, ?_⟩, hs⟩
  · rw [hl, hs, length_map, hlen]
  · rw [hs, length_map, hlen, ← hl]
    exact length_pos_iff.2 hne
  · intro s hlt
    rw [hs, length_map] at hlt
    rw [hs, getD_eq_getElem _ _ (by simpa using hlt), getElem_map]
    exact c.seqToStream_lt hn _
  · intro s hlt
    rw [hs, length_map] at hlt
    rw [hs, hl, getD_eq_getElem _ _ (by simpa using hlt), getElem_map,
      getD_eq_getElem _ _ (by rw [← hlen]; exact hlt)]
    exact forall₂_iff_get.1 hall |>.2 s hlt (by rw [← hlen]; exact hlt)

/-- The sequences for which `find_slot` searches, and the tokens of each. -/
def slotSeqs (c : KvCache) (u : Ubatch) : List SeqId :=
  if 1 < c.nStream then u.seqIdUnq else u.seqIdUnq.take 1

def slotTokens (c : KvCache) (u : Ubatch) : Nat :=
  if 1 < c.nStream then u.nTokens / u.seqIdUnq.length else u.nTokens

lemma found_of_findSlot (hw : Shape kvSize c) (hh : ∀ t, c.headOf t ≤ kvSize) (h : c.findSlot u false = .ok (some sl)) :
    Found c (c.slotTokens u) sl ∧ sl.strm = (c.slotSeqs u).map c.seqToStream := by
  have hh' : ∀ t, c.headOf t ≤ (c.cellsOf t).size := by
    intro t
    by_cases ht : t < c.nStream
    · rw [hw.size t ht]
      exact hh t
    · have : c.headOf t = 0 := getD_eq_default _ _ (by rw [hw.heads]; omega)
      omega
  unfold findSlot at h
  simp only [] at h
  split at h
  · rename_i h1
    split at h
    · cases h
    · simp only [slotTokens, slotSeqs, h1, if_true]
      exact found_of_findStreams hw.streams hh' h
  · rename_i h1
    simp only [slotTokens, slotSeqs, h1, if_false]
    exact found_of_findStreams hw.streams hh' h

lemma slotTokens_pos (hu : 0 < u.nTokens) (h : c.findSlot u false = .ok (some sl)) : 0 < c.slotTokens u := by
  unfold findSlot at h
  simp only [] at h
  split at h
  · rename_i h1
    split at h
    · cases h
    · rename_i hdiv
      rw [not_or, not_not] at hdiv
      rw [slotTokens, if_pos h1]
      exact Nat.div_pos (Nat.le_of_dvd hu (Nat.dvd_of_mod_eq_zero hdiv.2)) (by omega)
  · rename_i h1
    rw [slotTokens, if_neg h1]
    exact hu

lemma Found.has_iff (h : Found c n sl) {t i : Nat} :
    sl.Has t i ↔ ∃ s < sl.strm.length, sl.strm.getD s 0 = t ∧ i ∈ sl.idxs.getD s [] := by
  unfold SlotInfo.Has SlotInfo.entries
  simp only [mem_flatMap, mem_map, mem_range]
  constructor
  · rintro ⟨_, ⟨s, hs, ii, hii, rfl⟩, e⟩
    simp only [Prod.mk.injEq] at e
    refine ⟨s, hs, e.1, ?_⟩
    rw [h.size, ← (h.cells s hs).length] at hii
    rw [← e.2, getD_eq_getElem _ _ hii]
    exact getElem_mem hii
  · rintro ⟨s, hs, rfl, hi⟩
    obtain ⟨ii, hii, rfl⟩ := getElem_of_mem hi
    refine ⟨_, ⟨s, hs, ii, by rw [h.size, ← (h.cells s hs).length]; exact hii, rfl⟩, ?_⟩
    rw [getD_eq_getElem _ _ hii]

lemma lt_nTokens_of_mem_entries (h : Found c (c.slotTokens u) sl)
    (hstrm : sl.strm = (c.slotSeqs u).map c.seqToStream) {e : Nat × Nat × Nat}
    (he : e ∈ sl.entries) : e.1 < u.nTokens := by
  simp only [SlotInfo.entries, mem_flatMap, mem_map, mem_range] at he
  obtain ⟨s, hs, ii, hii, rfl⟩ := he
  have hle : sl.strm.length * c.slotTokens u ≤ u.nTokens := by
    rw [hstrm, length_map]
    unfold slotSeqs slotTokens
    split
    · exact Nat.mul_div_le _ _
    · have hone : (u.seqIdUnq.take 1).length ≤ 1 := length_take_le _ _
      exact (Nat.mul_le_mul_right _ hone).trans (one_mul _).le
  rw [h.size] at hii ⊢
  calc s * c.slotTokens u + ii < s * c.slotTokens u + c.slotTokens u := by omega
    _ = (s + 1) * c.slotTokens u := (Nat.succ_mul _ _).symm
    _ ≤ sl.strm.length * c.slotTokens u := Nat.mul_le_mul_right _ hs
    _ ≤ u.nTokens := hle

lemma Found.lt (hs : Shape kvSize c) (h : Found c n sl) {t i : Nat}
    (hi : sl.Has t i) : t < c.nStream ∧ i < kvSize := by
  obtain ⟨s, hlt, rfl, hmem⟩ := h.has_iff.1 hi
  refine ⟨h.stream s hlt, ?_⟩
  rw [← hs.size _ (h.stream s hlt)]
  exact (h.cells s hlt).lt i hmem

lemma Found.nodup (h : Found c n sl) (hnd : sl.strm.Nodup) : (sl.entries.map Prod.snd).Nodup := by
  unfold SlotInfo.entries
  rw [map_flatMap, nodup_flatMap]
  constructor
  · intro s hs
    have hlt := mem_range.1 hs
    have hf := h.cells s hlt
    rw [map_map]
    refine List.Nodup.map_on ?_ nodup_range
    intro a ha b hb e
    rw [mem_range, h.size, ← hf.length] at ha hb
    simp only [Function.comp_apply, Prod.mk.injEq, true_and] at e
    rw [getD_eq_getElem _ _ ha, getD_eq_getElem _ _ hb] at e
    exact (hf.nodup.getElem_inj_iff).1 e
  · refine List.Pairwise.imp_of_mem ?_ nodup_range
    intro a b ha hb hab
    simp only [mem_range] at ha hb
    intro x hxa hxb
    simp only [map_map, mem_map, Function.comp_apply] at hxa hxb
    obtain ⟨_, _, rfl⟩ := hxa
    obtain ⟨_, _, e⟩ := hxb
    simp only [Prod.mk.injEq] at e
    rw [getD_eq_getElem _ _ ha, getD_eq_getElem _ _ hb] at e
    exact hab ((hnd.getElem_inj_iff).1 e.1.symm)

lemma Found.single (h : Found c n sl) (hst : sl.strm = [t]) : ∃ js, sl.idxs = [js] ∧ FoundIn c n t js ∧
      sl.entries = (List.range n).map fun k => (k, t, js.getD k 0) := by
  have hlen := h.length
  rw [hst] at hlen
  obtain ⟨js, hjs⟩ := length_eq_one_iff.1 hlen
  have hin := h.cells 0 (by simp [hst])
  refine ⟨js, hjs, by simpa [hst, hjs] using hin, ?_⟩
  rw [SlotInfo.entries, h.size]
  simp [hst, hjs]

/-- The sequences of the ubatch are distinct and belong to the cache. -/
def SeqsOk (c : KvCache) (u : Ubatch) : Prop :=
  u.seqIdUnq.Nodup ∧ (1 < c.nStream → ∀ q ∈ u.seqIdUnq, q.val < c.nStream)

lemma nodup_slotSeqs (h : c.SeqsOk u) : ((c.slotSeqs u).map c.seqToStream).Nodup := by
  unfold slotSeqs
  split
  · rename_i h1
    refine h.1.map_on ?_
    intro a ha b hb e
    simp only [seqToStream, h1, h.2 h1 a ha, h.2 h1 b hb, and_self, if_true] at e
    exact Fin.ext e
  · cases e : u.seqIdUnq with
    | nil => simp
    | cons a l => simp

end KvCache

end Mallana
