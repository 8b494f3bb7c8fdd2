import Mathlib.Data.Int.ConditionallyCompleteOrder
import Mathlib.Data.Int.Interval
import Mathlib.Data.Int.SuccPred
import Mallana.Batch.Order
import Mallana.KvCache.FindSlot
import Mallana.KvCache.Layout
import Mallana.KvCache.Mask
import Mallana.Paged.Rows

/-!
# Consecutive streams

In sequential mode `split_equal` chooses sequences whose ids follow each other, so the sequences of the ubatch are a range
of streams, in the order of its blocks (`Consecutive`). Four places rely on this without a check: the views of `get_k` and
`get_v`, which begin at the least stream of the slot, the KQ mask, and the page table that `set_input_v_page_table`
writes. `Refers` says that all of them take block `k` of the ubatch for the stream it belongs to.

`init` accepts a token without sequence ids; the statements are about batches in which each token has one.
-/

namespace Mallana

open Lib List Option

namespace LlamaBatch

variable {F : Type} {b : LlamaBatch F} {nVocab nSeqMax : Nat} {seqId : List (List SeqId)} {pos : List Int} {s : SeqId}

/-- The positions of a sequence are those of its tokens. -/
lemma mem_seqPos {p : Int} : p ∈ seqPos seqId pos s ↔ ∃ i, s ∈ seqId.getD i [] ∧ pos.getD i 0 = p := by
  rw [seqPos, List.mem_toFinset, List.mem_map]
  constructor
  · rintro ⟨i, hi, rfl⟩
    exact ⟨i, of_decide_eq_true (List.mem_filter.1 hi).2, rfl⟩
  · rintro ⟨i, hi, rfl⟩
    refine ⟨i, List.mem_filter.2 ⟨List.mem_range.2 ?_, decide_eq_true hi⟩, rfl⟩
    by_contra hge
    rw [getD_eq_default _ _ (Nat.le_of_not_lt hge)] at hi
    cases hi

/-- In a valid batch the sequences of a token are below `n_seq_max`. -/
lemma Valid.seq_lt (h : b.Valid nVocab nSeqMax) (hmax : 0 < nSeqMax) {i : Nat} (hs : s ∈ b.seqIds.getD i []) :
    s.val < nSeqMax := by
  obtain ⟨_, hle, _, hids⟩ := h
  have hi : i < b.nTokens := by
    rw [← BatchAllocr.length_seqIds]
    by_contra hge
    rw [getD_eq_default _ _ (Nat.le_of_not_lt hge)] at hs
    cases hs
  unfold seqIds at hs
  cases hseq : b.seqId with
  | none =>
    rw [hseq] at hs
    rw [getD_eq_getElem _ _ (by simpa using hi), getElem_replicate] at hs
    cases List.mem_singleton.1 hs
    exact hmax
  | some ids =>
    rw [hseq] at hs
    rw [getD_eq_getElem _ _ (by simpa using hi), getElem_map, getElem_range] at hs
    obtain ⟨x, hx, rfl⟩ := List.mem_map.1 hs
    obtain ⟨hpos, hlt⟩ := hids ids hseq i (List.mem_range.2 hi) x hx
    have hval : (Fin.ofNat llamaMaxSeq x.toNat).val = x.toNat % llamaMaxSeq := rfl
    rw [hval, Nat.mod_eq_of_lt (by omega)]
    omega

end LlamaBatch

/-- The K cache of one layer: `nEmbd` elements for each cell, a whole number of blocks. -/
structure KLayout where
  ty : GgmlType
  nEmbd : Nat
  kvSize : Nat
  nStream : Nat
  nEmbd_dvd : ty.blckSize ∣ nEmbd

/-- Where cell `i` of slice `k` of a view lies. -/
def Tensor.slice (w : Tensor) (k i : Nat) : Nat := w.offs + k * w.nb3 + i * w.nb2

namespace SlotInfo

/-- The number of streams of the views (`s1 - s0 + 1`). -/
def ns (sl : SlotInfo) : Nat := sl.s1 - sl.s0 + 1

end SlotInfo

namespace KLayout

variable (L : KLayout)

def k : Tensor := L.ty.newTensor3d L.nEmbd L.kvSize L.nStream

/-- C++ `get_k`. -/
def getK (headK nHead nKv : Nat) (sl : SlotInfo) : Tensor :=
  L.k.view4d headK nHead nKv sl.ns (L.ty.rowSize headK) (L.ty.rowSize L.nEmbd)
    (L.ty.rowSize (L.nEmbd * L.kvSize)) (L.ty.rowSize (L.nEmbd * L.kvSize) * sl.s0)

/-- The row number of a cell in `set_input_k_idxs`. -/
def kIdx (t i : Nat) : Nat := t * L.kvSize + i

/-- Where `cpy_k` writes the row of a cell. -/
def cpyK (t i : Nat) : Nat :=
  let k := if 1 < L.nStream then L.ty.newTensor3d L.nEmbd (L.kvSize * L.nStream) 1 else L.k
  k.offs + L.kIdx t i * k.nb1

/-- The transposed V cache has a tensor of the same extents, and a type whose blocks are single elements; `get_v` then
exchanges the two strides. -/
def getVTrans (headV nHead nKv : Nat) (sl : SlotInfo) : Tensor :=
  L.k.view4d nKv nHead headV sl.ns (L.ty.rowSize (L.kvSize * headV)) (L.ty.rowSize L.kvSize)
    (L.ty.rowSize (L.kvSize * L.nEmbd)) (L.ty.rowSize (L.kvSize * L.nEmbd) * sl.s0)

/-- Where attention finds element `j` of the transposed row of a cell. -/
def attnVTrans (headV nHead nKv : Nat) (sl : SlotInfo) (k i j : Nat) : Nat :=
  let w := L.getVTrans headV nHead nKv sl
  w.offs + k * w.nb3 + j / headV * w.nb1 + j % headV * w.nb2 + i * L.ty.typeSize

/-- Where `cpy_v` writes element `j` of the transposed row of a cell: a row of the tensor seen as single elements, with the
number from `set_input_v_idxs`. -/
def cpyVTrans (t i j : Nat) : Nat :=
  let v := L.ty.newTensor3d 1 (L.nEmbd * L.kvSize * L.nStream) 1
  v.offs + (t * L.kvSize * L.nEmbd + j * L.kvSize + i) * v.nb1

end KLayout

namespace KvCache

/-- Everything that the graph takes for block `k` of a ubatch is that of stream `t`. -/
structure Refers {F : Type} (c : KvCache) (u : FullUbatch F) (sl : SlotInfo) (k t : Nat) : Prop where
  tokens : ∀ i < u.nSeqTokens, c.seqToStream (u.firstSeq (k * u.nSeqTokens + i)) = t
  strm : sl.strm.getD k 0 = t
  getK : ∀ (L : KLayout) headK nHead nKv i, (L.getK headK nHead nKv sl).slice k i = L.cpyK t i
  getV : ∀ (L : VLayout) headV nHead nKv i, (L.getV headV nHead nKv sl.ns sl.s0).slice k i = L.cpyV t i
  getVTrans : ∀ (L : KLayout) headV nHead nKv i j, L.ty.blckSize = 1 →
    L.attnVTrans headV nHead nKv sl k i j = L.cpyVTrans t i j
  kqMask : ∀ i < u.nTokens / u.seqIdUnq.length,
    c.tokenCells u.toUbatch (k * (u.nTokens / u.seqIdUnq.length) + i) = c.cellsOf t
  -- the number of rows is that of `build_input_v_page_table`
  pageTable : ∀ nSeq nLpage lp, lp < nLpage →
    ((c.setInputVPageTable sl (max sl.ns nSeq) nLpage).getD k []).getD lp 0 = if 0 ≤ c.page t lp then c.page t lp else 0

end KvCache

/-- The sequences of the ubatch have the ids from `s0` on, in the order of its blocks. -/
structure FullUbatch.Consecutive {F : Type} (u : FullUbatch F) (s0 : Nat) : Prop where
  seqs : 0 < u.nSeqs
  rows : 0 < u.nSeqTokens
  size : u.nTokens = u.nSeqs * u.nSeqTokens
  unq : u.seqIdUnq.map Fin.val = List.range' s0 u.nSeqs
  block : ∀ k < u.nSeqs, ∀ i < u.nSeqTokens, ∃ s : SeqId, s.val = s0 + k ∧
    u.seqId.getD (k * u.nSeqTokens + i) [] = [s]

namespace FullUbatch.Consecutive

variable {F : Type} {u : FullUbatch F} {s0 : Nat}

lemma length_unq (h : u.Consecutive s0) : u.seqIdUnq.length = u.nSeqs := by
  have hlen := congrArg List.length h.unq
  rwa [length_map, length_range'] at hlen

lemma div_unq (h : u.Consecutive s0) : u.nTokens / u.seqIdUnq.length = u.nSeqTokens := by
  rw [h.length_unq, h.size, Nat.mul_div_cancel_left _ h.seqs]

end FullUbatch.Consecutive

namespace BatchAllocr

variable {F : Type} {a a' : BatchAllocr F} {n m : Nat} {idxs : List Nat} {u : FullUbatch F}

/-- What an accepted batch says about the sequences, whatever was split from it. -/
structure Described (a : BatchAllocr F) : Prop where
  sets : ∀ i, a.setOf i = (a.seqId.getD i []).toFinset
  lt : 0 < a.nSeqMax → ∀ i, ∀ s ∈ a.seqId.getD i [], s.val < a.nSeqMax
  length : a.seqId.length = a.nTokens
  cpl : a.hasCpl = a.seqId.any fun ids => 1 < ids.length

lemma valid_of_init {nPosPerEmbd nVocab nEmbd nSeqMax : Nat} {b : LlamaBatch F} {memory : Option MemoryPos}
    {outputAll : Bool} (h : init nPosPerEmbd b nVocab memory nEmbd nSeqMax outputAll = some a) :
    b.Valid nVocab nSeqMax := by
  by_contra hinvalid
  unfold init at h
  simp only [if_pos hinvalid] at h
  cases h

lemma Described.congr (h : Described a) (hsame : SameBatch a a') : Described a' := by
  rw [hsame]
  exact ⟨h.sets, h.lt, h.length, h.cpl⟩

lemma described_of_reach (run : Reach Accepted CallStep a) : Described a := by
  have main : Ready a ∧ Described a := by
    refine run.invariant (P := fun a => Ready a ∧ Described a) ?_ ?_
    · rintro s ⟨_, _, _, _, _, _, _, h⟩
      refine ⟨ready_init h, setOf_init h, ?_, ?_, ?_⟩
      · have hvalid := valid_of_init h
        rw [init_eq_some h]
        exact fun hmax i s hs => hvalid.seq_lt hmax hs
      · rw [init_eq_some h]
        exact length_seqIds _
      · rw [init_eq_some h]
    · rintro s c s' ⟨hready, hdesc⟩ hs
      refine ⟨hready.step hs, ?_⟩
      cases c with
      | reset =>
        obtain rfl : s' = s.splitReset := hs
        exact hdesc.congr rfl
      | split n k =>
        obtain ⟨u, hu⟩ := hs
        obtain ⟨c, -, -, rfl⟩ := split_eq_some hready hu
        exact hdesc.congr (sameBatch_take s c.1)
  exact main.2

def Single (a : BatchAllocr F) : Prop := ∀ i < a.nTokens, ∃ s, a.seqId.getD i [] = [s]

lemma Described.single (h : Described a) (hcpl : a.hasCpl = false) (hids : ∀ ids ∈ a.seqId, ids ≠ []) : Single a := by
  intro i hi
  rw [h.cpl] at hcpl
  have hmem : a.seqId.getD i [] ∈ a.seqId := by
    rw [getD_eq_getElem _ _ (by rw [h.length]; exact hi)]
    exact getElem_mem _
  have hshort := of_decide_eq_false (Bool.eq_false_of_not_eq_true fun hlong =>
    Bool.false_ne_true (hcpl.symm.trans (List.any_eq_true.2 ⟨_, hmem, hlong⟩)))
  have hlen : (a.seqId.getD i []).length = 1 := by
    have hpos := length_pos_of_ne_nil (hids _ hmem)
    omega
  exact length_eq_one_iff.1 hlen

def firstId (a : BatchAllocr F) (i : Nat) : Nat := ((a.seqId.getD i []).headD 0).val

lemma sideBySide_range (is acc : List Nat) {s0 : Nat} (hacc : acc.map a.firstId = List.range' s0 acc.length) :
    ∃ s0, (a.sideBySide true is acc).map a.firstId = List.range' s0 (a.sideBySide true is acc).length := by
  induction is generalizing acc s0 with
  | nil => exact ⟨s0, hacc⟩
  | cons i is ih =>
    rw [sideBySide, foldl_cons]
    by_cases hb : a.Beside true acc i
    · rw [if_pos hb]
      cases hl : acc.getLast? with
      | none =>
        obtain rfl := getLast?_eq_none_iff.1 hl
        exact @ih [i] (a.firstId i) rfl
      | some j =>
        have hnext : a.firstId i = s0 + acc.length := by
          have hseq := hb.2.2 rfl j hl
          have hlast : some (a.firstId j) = (List.range' s0 acc.length).getLast? := by
            rw [← hacc, getLast?_map, hl, map_some]
          have hpos : 0 < acc.length := by
            cases acc with
            | nil => cases hl
            | cons => exact Nat.succ_pos _
          rw [getLast?_eq_getElem?, length_range', getElem?_range' (by omega)] at hlast
          have hj : a.firstId j = s0 + 1 * (acc.length - 1) := Option.some.inj hlast
          have hcast : ((a.firstId i : Nat) : Int) = (a.firstId j : Nat) + 1 := hseq
          omega
        refine @ih (acc ++ [i]) s0 ?_
        rw [map_append, hacc, map_singleton, hnext, length_append, length_singleton, ← range'_append_1, range'_one]
    · rw [if_neg hb]
      exact ih acc hacc

lemma mem_sideBySide {sequential : Bool} (is acc : List Nat) (i : Nat) (hi : i ∈ a.sideBySide sequential is acc) :
    i ∈ acc ∨ i ∈ is := by
  induction is generalizing acc with
  | nil => exact .inl hi
  | cons j is ih =>
    rw [sideBySide, foldl_cons] at hi
    rcases ih _ hi with h | h
    · split at h
      · rcases mem_append.1 h with h | h
        · exact .inl h
        · exact .inr (mem_cons.2 (.inl (mem_singleton.1 h)))
      · exact .inl h
    · exact .inr (mem_cons_of_mem j h)

lemma pickSets_range (hdesc : Described a) (hsingle : Single a) (n : Nat) :
    ∃ s0, ∀ k, ∀ S ∈ (a.pickSets n true (List.range a.nTokens) [] (-1))[k]?, ∃ s : SeqId, s.val = s0 + k ∧ S = {s} := by
  rw [pickSets_eq_leaders, leaders, map_take]
  have hstart : ([] : List Nat).map a.firstId = List.range' 0 ([] : List Nat).length := rfl
  obtain ⟨s0, hrange⟩ := sideBySide_range (List.range a.nTokens) [] hstart
  have hunused : ∀ i ∈ a.sideBySide true (List.range a.nTokens) [], i ∈ List.range a.nTokens := fun i hi =>
    (mem_sideBySide (List.range a.nTokens) [] i hi).resolve_left not_mem_nil
  refine ⟨s0, fun k S hS => ?_⟩
  rw [mem_def, getElem?_take] at hS
  split at hS
  next =>
    rw [getElem?_map] at hS
    obtain ⟨i, hi, rfl⟩ := map_eq_some_iff.1 hS
    have hlt := (List.getElem?_eq_some_iff.1 hi).1
    obtain ⟨s, hs⟩ := hsingle i (mem_range.1 (hunused i (mem_of_getElem? hi)))
    have hid : a.firstId i = s0 + k := by
      have hmap : ((a.sideBySide true (List.range a.nTokens) []).map a.firstId)[k]? = some (a.firstId i) := by
        rw [getElem?_map, hi, map_some]
      rw [hrange, getElem?_range' hlt, one_mul] at hmap
      exact (Option.some.inj hmap).symm
    rw [firstId, hs] at hid
    refine ⟨s, hid, ?_⟩
    rw [hdesc.sets, hs]
    rfl
  next => cases hS

lemma sorted_unqOf (a : BatchAllocr F) (idxs : List Nat) : (a.unqOf idxs).Pairwise fun s t => s.val < t.val :=
  (pairwise_lt_finRange llamaMaxSeq).filter _

/-- A sequential split takes consecutive sequences. -/
lemma consecutive_ubatchOf (hdesc : Described a) (hsingle : Single a) (hready : Ready a) (hmax : 0 < a.nSeqMax)
    (hc : a.chooseEqual n true = some (idxs, m)) : ∃ s0, (a.ubatchOf idxs m true).Consecutive s0 := by
  obtain ⟨Ss, r, taken, hSs, hne, rfl, -, hfrom, hr, hlen, -, rfl, -, -⟩ := chooseEqual_spec hready hc
  obtain ⟨s0, hrange⟩ := pickSets_range hdesc hsingle n
  rw [← hSs] at hrange
  have hblock : ∀ S ∈ Ss, (((a.seqSetMap S).drop (a.startLane S).cur).take r).length = r := by
    intro S hS
    have hle := hlen S hS
    rw [length_take, length_drop]
    omega
  have htotal : (Ss.flatMap fun S => ((a.seqSetMap S).drop (a.startLane S).cur).take r).length = Ss.length * r := by
    rw [length_flatMap, map_congr_left hblock, map_const', sum_replicate_nat]
  have hpos : 0 < Ss.length := length_pos_of_ne_nil hne
  -- the tokens taken for set number `k` have the sequence `s0 + k` and no other
  have htoken : ∀ k (hk : k < Ss.length), ∀ j ∈ ((a.seqSetMap Ss[k]).drop (a.startLane Ss[k]).cur).take r,
      ∃ s : SeqId, s.val = s0 + k ∧ a.seqId.getD j [] = [s] := by
    intro k hk j hj
    obtain ⟨s, hs, hset⟩ := hrange k Ss[k] (getElem?_eq_getElem hk)
    have hmem := mem_of_mem_drop (mem_of_mem_take hj)
    rw [hready.map] at hmem
    obtain ⟨hj, hof⟩ := mem_filter.1 hmem
    obtain ⟨s', hs'⟩ := hsingle j (mem_range.1 hj)
    refine ⟨s, hs, ?_⟩
    have hsame := of_decide_eq_true hof
    rw [hdesc.sets, hs', hset] at hsame
    rw [hs', Finset.singleton_injective hsame]
  have hrows : (a.ubatchOf (Ss.flatMap fun S => ((a.seqSetMap S).drop (a.startLane S).cur).take r) Ss.length
      true).nSeqTokens = r := by
    show (Ss.flatMap _).length / Ss.length = r
    rw [htotal, Nat.mul_div_cancel_left r hpos]
  refine ⟨s0, hpos, hrows.symm ▸ hr, ?_, ?_, ?_⟩
  · rw [hrows]
    exact htotal
  · refine List.Pairwise.eq_of_mem_iff (r := (· < ·)) ?_ pairwise_lt_range' fun x => ?_
    · exact pairwise_map.2 (sorted_unqOf a _)
    · rw [List.mem_map, mem_range'_1]
      constructor
      · rintro ⟨s, hs, rfl⟩
        obtain ⟨_, hany⟩ := Bool.and_eq_true_iff.1 (mem_filter.1 hs).2
        obtain ⟨j, hj, hsj⟩ := List.any_eq_true.1 hany
        obtain ⟨S, hS, hj⟩ := mem_flatMap.1 hj
        obtain ⟨k, hk, rfl⟩ := getElem_of_mem hS
        obtain ⟨s', hs', hseq⟩ := htoken k hk j hj
        have heq := of_decide_eq_true hsj
        rw [hseq] at heq
        obtain rfl := mem_singleton.1 heq
        exact ⟨by omega, by rw [hs']; exact Nat.add_lt_add_left hk s0⟩
      · rintro ⟨hle, hlt⟩
        obtain ⟨k, rfl⟩ := Nat.exists_eq_add_of_le hle
        have hk : k < Ss.length := Nat.lt_of_add_lt_add_left hlt
        obtain ⟨j, hj⟩ := exists_mem_of_ne_nil _ (ne_nil_of_length_pos
          (Nat.lt_of_lt_of_eq hr (hblock _ (getElem_mem hk)).symm))
        obtain ⟨s, hs, hseq⟩ := htoken k hk j hj
        have hself : s ∈ a.seqId.getD j [] := by
          rw [hseq]
          exact mem_singleton_self s
        refine ⟨s, mem_filter.2 ⟨mem_finRange s, ?_⟩, hs⟩
        refine Bool.and_eq_true_iff.2 ⟨decide_eq_true (hdesc.lt hmax j s hself), List.any_eq_true.2 ?_⟩
        exact ⟨j, mem_flatMap.2 ⟨_, getElem_mem hk, hj⟩, decide_eq_true hself⟩
  · rw [hrows]
    intro k hk i hi
    have hlt : k * r + i < (Ss.flatMap fun S => ((a.seqSetMap S).drop (a.startLane S).cur).take r).length := by
      have hmul : (k + 1) * r ≤ Ss.length * r := Nat.mul_le_mul_right r hk
      rw [Nat.succ_mul] at hmul
      rw [htotal]
      omega
    obtain ⟨s, hs, hseq⟩ := htoken k hk (((((a.seqSetMap Ss[k]).drop (a.startLane Ss[k]).cur).take r)).getD i 0) (by
      rw [getD_eq_getElem _ _ (by rw [hblock _ (getElem_mem hk)]; exact hi)]
      exact getElem_mem _)
    refine ⟨s, hs, ?_⟩
    show (((Ss.flatMap _).map fun i => a.seqId.getD i []).getD _ _) = _
    rw [getD_map_idxs _ hlt, getD_flatMap hblock hk hi ∅, getD_eq_getElem _ _ hk]
    exact hseq

end BatchAllocr

namespace KvCache

variable {F : Type} {c : KvCache} {u : FullUbatch F} {s0 : Nat} {cont : Bool} {sl : SlotInfo}

lemma findStreams_span {v : Ubatch} {n s : Nat} {qs : List SeqId} {res : SlotInfo}
    (h : c.findStreams v cont n s qs res = .ok (some sl)) :
    sl.strm = res.strm ++ qs.map c.seqToStream ∧ sl.s0 = (qs.map c.seqToStream).foldl min res.s0 ∧
      sl.s1 = (qs.map c.seqToStream).foldl max res.s1 := by
  induction qs generalizing s res with
  | nil =>
    rw [findStreams] at h
    split at h
    · cases h
    · cases h
      exact ⟨(append_nil _).symm, rfl, rfl⟩
  | cons q qs ih =>
    rw [findStreams] at h
    split at h
    · cases h
    · split at h
      · cases h
      · cases h
      · obtain ⟨hstrm, hmin, hmax⟩ := ih h
        refine ⟨?_, hmin, hmax⟩
        rw [hstrm, append_assoc]
        rfl

lemma foldl_min_range {m lo x : Nat} (hm : 0 < m) (hlo : lo ≤ x) : (List.range' lo m).foldl min x = lo := by
  have main : ∀ {m a x}, x ≤ a → (List.range' a m).foldl min x = x := by
    intro m
    induction m with
    | zero => exact fun _ => rfl
    | succ m ih =>
      intro a x hx
      rw [range'_succ, foldl_cons, min_eq_left hx]
      exact ih (by omega)
  obtain ⟨m, rfl⟩ := Nat.exists_eq_succ_of_ne_zero hm.ne'
  rw [Nat.succ_eq_add_one, range'_succ, foldl_cons, min_eq_right hlo]
  exact main (Nat.le_succ lo)

lemma foldl_max_range {m lo x : Nat} (hx : x ≤ lo) : (List.range' lo (m + 1)).foldl max x = lo + m := by
  induction m generalizing lo x with
  | zero => exact max_eq_right hx
  | succ m ih =>
    rw [range'_succ, foldl_cons, max_eq_right hx, ih (Nat.le_succ lo)]
    omega

lemma seqToStream_val (hmany : 1 < c.nStream) {q : SeqId} (hq : q.val < c.nStream) : c.seqToStream q = q.val :=
  if_pos ⟨hmany, hq⟩

lemma placeable_of_consecutive (h : u.Consecutive s0) : c.Placeable u.toUbatch := by
  have hlen := h.length_unq
  have hdiv := h.div_unq
  refine ⟨?_, ?_, fun _ => ?_, fun _ k hk => ?_⟩
  · rw [h.size]
    exact mul_pos h.seqs h.rows
  · exact ne_nil_of_length_pos (hlen ▸ h.seqs)
  · rw [hlen, h.size]
    exact Nat.mul_mod_right _ _
  · rw [hdiv]
    obtain ⟨s, hs, hseq⟩ := h.block k (hlen ▸ hk) 0 h.rows
    rw [add_zero] at hseq
    have hval : (u.seqIdUnq.map Fin.val)[k]? = some (s0 + k) := by
      rw [h.unq, getElem?_range' (hlen ▸ hk), one_mul]
    rw [getElem?_map, getElem?_eq_getElem hk] at hval
    have hq : u.seqIdUnq[k].val = s0 + k := Option.some.inj hval
    rw [hseq, getD_eq_getElem _ _ hk, Fin.ext (hs.trans hq.symm)]

section
variable (hmany : 1 < c.nStream) (h : u.Consecutive s0) (hle : s0 + u.nSeqs ≤ c.nStream)
include hmany h hle

lemma strm_of_consecutive
    (hmax : s0 ≤ llamaMaxSeq) (hslot : c.findSlot u.toUbatch cont = .ok (some sl)) :
    sl.strm = List.range' s0 u.nSeqs ∧ sl.s0 = s0 ∧ sl.s1 + 1 = s0 + u.nSeqs := by
  have hstream : u.seqIdUnq.map c.seqToStream = List.range' s0 u.nSeqs := by
    rw [← h.unq]
    refine map_congr_left fun q hq => seqToStream_val hmany ?_
    have hmem : q.val ∈ u.seqIdUnq.map Fin.val := List.mem_map_of_mem hq
    rw [h.unq, mem_range'_1] at hmem
    omega
  unfold findSlot at hslot
  simp only [if_pos hmany] at hslot
  split at hslot
  · cases hslot
  · obtain ⟨hstrm, hmin, hmax'⟩ := findStreams_span hslot
    rw [hstream] at hstrm hmin hmax'
    refine ⟨hstrm, hmin.trans (foldl_min_range h.seqs hmax), ?_⟩
    obtain ⟨m, hm⟩ := Nat.exists_eq_succ_of_ne_zero h.seqs.ne'
    rw [hmax', hm, foldl_max_range (Nat.zero_le s0)]
    rfl

lemma refers_of_consecutive
    (hstrm : sl.strm = List.range' s0 u.nSeqs) (hmin : sl.s0 = s0) (hmax : sl.s1 + 1 = s0 + u.nSeqs) {k : Nat}
    (hk : k < u.nSeqs) : c.Refers u sl k (s0 + k) := by
  have hlen := h.length_unq
  have hdiv := h.div_unq
  have htokens : ∀ i < u.nSeqTokens, c.seqToStream (u.firstSeq (k * u.nSeqTokens + i)) = s0 + k := by
    intro i hi
    obtain ⟨s, hs, hseq⟩ := h.block k hk i hi
    have hfirst : u.firstSeq (k * u.nSeqTokens + i) = s := by
      rw [Ubatch.firstSeq, hseq]
      rfl
    rw [hfirst, seqToStream_val hmany (by omega), hs]
  refine ⟨htokens, ?_, ?_, ?_, ?_, ?_, ?_⟩
  · rw [hstrm, getD_eq_getElem _ _ (by simpa using hk), getElem_range', one_mul]
  · intro L headK nHead nKv i
    have hrow := L.ty.rowSize_mul L.nEmbd_dvd
    have hone := hrow 1
    rw [mul_one, one_mul] at hone
    have hnb1 : (if 1 < L.nStream then L.ty.newTensor3d L.nEmbd (L.kvSize * L.nStream) 1 else L.k).nb1 =
        L.ty.typeSize * (L.nEmbd / L.ty.blckSize) ∧
        (if 1 < L.nStream then L.ty.newTensor3d L.nEmbd (L.kvSize * L.nStream) 1 else L.k).offs = 0 := by
      split <;> exact ⟨rfl, rfl⟩
    simp only [Tensor.slice, KLayout.getK, KLayout.cpyK, KLayout.kIdx, Tensor.view4d, hnb1, hrow, hone, hmin]
    simp only [KLayout.k, GgmlType.newTensor3d]
    ring
  · intro L headV nHead nKv i
    have hattn := @VLayout.attnV_eq L headV nHead nKv sl.ns _ _ (Nat.le_add_right s0 k) i
    rw [L.cpyV_eq, ← hattn, VLayout.attnV, Tensor.slice, hmin, Nat.add_sub_cancel_left]
  · intro L headV nHead nKv i j hblck
    have hrow : ∀ x, L.ty.rowSize x = L.ty.typeSize * x := by
      intro x
      rw [GgmlType.rowSize, hblck, Nat.div_one]
    have hj := Nat.div_add_mod j headV
    simp only [KLayout.attnVTrans, KLayout.getVTrans, KLayout.cpyVTrans, Tensor.view4d, KLayout.k, GgmlType.newTensor3d,
      hrow, hblck, hmin, Nat.div_one, mul_one]
    calc _ = ((s0 + k) * L.kvSize * L.nEmbd + (headV * (j / headV) + j % headV) * L.kvSize + i) * L.ty.typeSize := by ring
      _ = _ := by rw [hj, zero_add]
  · rw [hdiv]
    intro i hi
    rw [tokenCells, htokens i hi]
  · intro nSeq nLpage lp hlp
    have hrow : k < max sl.ns nSeq := lt_of_lt_of_le (by rw [SlotInfo.ns]; omega) (le_max_left _ _)
    have hclamp : min k (sl.s1 - s0) = k := min_eq_left (by omega)
    simp only [setInputVPageTable, getD_eq_getElem?_getD, getElem?_map, getElem?_range hrow,
      getElem?_range hlp, map_some, getD_some, hclamp, hmin]

end

end KvCache

namespace BatchAllocr

variable {F : Type} {a a' : BatchAllocr F} {n : Nat} {u : FullUbatch F} {c : KvCache}

/-- A ubatch of a sequential split has consecutive sequences, and every part of the graph of a cache with one stream for
each sequence takes block `k` for the stream of block `k`. -/
theorem splitEqual_streams (run : Reach Accepted CallStep a) (hcpl : a.hasCpl = false)
    (hids : ∀ ids ∈ a.seqId, ids ≠ []) (hs : a.splitEqual n true = some (u, a')) (hmany : 1 < c.nStream)
    (hseqs : a.nSeqMax = c.nStream) : ∃ s0, u.Consecutive s0 ∧ c.Placeable u.toUbatch ∧
      ∀ cont sl, c.findSlot u.toUbatch cont = .ok (some sl) →
        sl.strm = List.range' s0 u.nSeqs ∧ sl.s0 = s0 ∧ sl.s1 + 1 = s0 + u.nSeqs ∧
          ∀ k < u.nSeqs, c.Refers u sl k (s0 + k) := by
  have hready := ready_of_reach run
  have hdesc := described_of_reach run
  have hmax : 0 < a.nSeqMax := by omega
  rw [splitEqual_eq hready] at hs
  obtain ⟨⟨idxs, m⟩, hc, he⟩ := map_eq_some_iff.1 hs
  obtain ⟨rfl, rfl⟩ := Prod.mk.inj he
  obtain ⟨s0, h⟩ := consecutive_ubatchOf hdesc (hdesc.single hcpl hids) hready hmax hc
  have hlast : ∃ s ∈ a.unqOf idxs, s.val = s0 + (m - 1) := by
    have hpos : 0 < m := h.seqs
    have hmem : s0 + (m - 1) ∈ (a.unqOf idxs).map Fin.val := by
      rw [show (a.unqOf idxs).map Fin.val = List.range' s0 m from h.unq, mem_range'_1]
      omega
    obtain ⟨s, hs, hval⟩ := List.mem_map.1 hmem
    exact ⟨s, hs, hval⟩
  obtain ⟨s, hs, hval⟩ := hlast
  have hpos : 0 < m := h.seqs
  have hlt : s.val < a.nSeqMax := of_decide_eq_true (Bool.and_eq_true_iff.1 (mem_filter.1 hs).2).1
  have hbound := s.isLt
  refine ⟨s0, h, KvCache.placeable_of_consecutive h, fun cont sl hslot => ?_⟩
  have hle : s0 + m ≤ c.nStream := by omega
  obtain ⟨hstrm, hmin, hmax⟩ := KvCache.strm_of_consecutive hmany h hle (by omega) hslot
  exact ⟨hstrm, hmin, hmax, fun k hk => KvCache.refers_of_consecutive hmany h hle hstrm hmin hmax hk⟩

def twoStreamCache : KvCache := KvCache.init false false false 4 2 0 .none 1 0

/-- Two sequences of one token each go to the two streams. -/
theorem splitEqual_streams_pair : ∃ (a a' : BatchAllocr Unit) (u : FullUbatch Unit),
    a.splitEqual 2 true = some (u, a') ∧ ∃ s0, u.Consecutive s0 ∧ ∀ cont sl,
      twoStreamCache.findSlot u.toUbatch cont = .ok (some sl) → ∀ k < u.nSeqs, twoStreamCache.Refers u sl k (s0 + k) := by
  obtain ⟨a, u, a', ha, hs, -⟩ := split_pair (n := 2) (k := .equal true) (r := 2) (by decide +kernel)
  have run : Reach Accepted CallStep a := .init ⟨1, pair, 1, none, 1, 2, false, ha⟩
  have hfields := init_eq_some ha
  have hseq : a.seqId = [[0], [1]] := by
    rw [hfields]
    rfl
  have hcpl : a.hasCpl = false := by
    rw [hfields]
    rfl
  have hids : ∀ ids ∈ a.seqId, ids ≠ [] := by
    rw [hseq]
    decide
  have hmax : a.nSeqMax = twoStreamCache.nStream := by
    rw [hfields]
    rfl
  obtain ⟨s0, h, -, hslot⟩ := splitEqual_streams run hcpl hids hs (by decide) hmax
  exact ⟨a, a', u, hs, s0, h, fun cont sl hfind => (hslot cont sl hfind).2.2.2⟩

def loose : LlamaBatch Unit where
  nTokens := 1
  token := some [0]
  pos := some [0]
  seqId := some [[]]

/-- It is accepted and has no coupled sequences, but its ubatch has a block without a sequence. -/
theorem splitEqual_loose : ∃ a, init 1 loose 1 none 1 2 false = some a ∧ a.hasCpl = false ∧
    ∃ u a', a.splitEqual 2 true = some (u, a') ∧ ¬ ∃ s0, u.Consecutive s0 := by
  have hrun : (((init 1 loose 1 none 1 2 false).bind fun a => if a.hasCpl then none else a.splitEqual 2 true).map
      fun r => (r.1.seqIdUnq, r.1.nSeqs)) = some ([], 1) := by decide +kernel
  obtain ⟨⟨u, a'⟩, hb, hu⟩ := map_eq_some_iff.1 hrun
  obtain ⟨a, ha, hs⟩ := bind_eq_some_iff.1 hb
  obtain ⟨hunq, hseqs⟩ := Prod.mk.inj hu
  split at hs
  next => cases hs
  next hcpl =>
    refine ⟨a, ha, Bool.eq_false_of_not_eq_true hcpl, u, a', hs, ?_⟩
    rintro ⟨s0, h⟩
    have hlen := h.length_unq
    change u.seqIdUnq = [] at hunq
    change u.nSeqs = 1 at hseqs
    rw [hunq, hseqs] at hlen
    cases hlen

end BatchAllocr

end Mallana
