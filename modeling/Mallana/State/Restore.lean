import Mallana.State.Bytes

/-!
# Restoring a single sequence

`state_write` of a sequence `a` followed by `state_read` into a sequence `b`, on a cache with one stream
and without sliding window. The reader removes `b`, places the saved cells into free cells with
`find_slot` and `apply_ubatch`, and scatters the rows. It goes wrong in four ways: a saved
sequence without cells leaves the old cells of `b` in place, since the section is skipped before `b` is
removed; a sequence id from `n_seq_max` on is not written, and the reader rejects its cells; the
removal `seq_rm(b, -1, -1)` covers only the positions in `[0, INT_MAX)`; the offsets in a transposed
V tensor may wrap around. `restores_iff` shows that there is nothing else.
-/

namespace Mallana

open Lib List

namespace KvState

open ByteParser ReadM KvCache

def rows (st : KvState) (t i : Nat) : List (List UInt8 × List UInt8) :=
  st.layers.zipIdx.map fun L => (st.kRow L t i, st.vRow L t i)

/-- Position, 2-D position if the model has it, and rows of a cell of the first stream. -/
def seqCell (st : KvState) (i : Nat) : Int × Option KvCellExt × List (List UInt8 × List UInt8) :=
  ((st.cache.cell 0 i).pos, if 1 < st.cache.nPosPerEmbd then some (st.cache.cell 0 i).ext else none, st.rows 0 i)

def holders (st : KvState) (q : SeqId) : List Nat :=
  (List.range st.cache.getSize).filter fun i => q ∈ (st.cache.cell 0 i).seq

/-- Writing sequence `a` of `src` and reading it into sequence `b` of `dst` restores the cells of `a`
    and leaves all other sequences alone. -/
def Restores (src dst : KvState) (a b : SeqId) : Prop :=
  ∃ dst', stateRead (some b) ⟨src.stateWrite (some a), dst⟩ = .ok () ⟨[], dst'⟩ ∧
    ((dst'.holders b).map dst'.seqCell).Perm ((src.holders a).map src.seqCell) ∧
    ∀ q ≠ b, ∀ i, (q ∈ (dst'.cache.cell 0 i).seq ↔ q ∈ (dst.cache.cell 0 i).seq) ∧
      (q ∈ (dst.cache.cell 0 i).seq → dst'.seqCell i = dst.seqCell i)

/-- The cells that are free once `b` is removed. -/
def freeFor (dst : KvState) (b : SeqId) : List Nat :=
  (List.range dst.cache.getSize).filter fun i =>
    (dst.cache.cell 0 i).pos = -1 ∨ (dst.cache.cell 0 i).seq = {b}

/-- The cases in which the restore works. -/
structure RestoreOk (src dst : KvState) (a b : SeqId) : Prop where
  some : (∃ i, a ∈ (src.cache.cell 0 i).seq) → a.val < src.cache.nSeqMax ∧ ∀ i, b ∈ (dst.cache.cell 0 i).seq →
      0 ≤ (dst.cache.cell 0 i).pos ∧ (dst.cache.cell 0 i).pos < llamaPosMax
  none : (∀ i, a ∉ (src.cache.cell 0 i).seq) → ∀ i, b ∉ (dst.cache.cell 0 i).seq
  noWrap : src.NoWrap (.some a) 0

/-- The cells fit the types in which they are written. -/
structure CellsFit (kvSize : Nat) (st : KvState) : Prop where
  size : kvSize < 256 ^ 4
  streams : st.cache.nStream < 256 ^ 4
  pos : ∀ t i, IsI32 (st.cache.cell t i).pos
  ext : ∀ t i, IsI32 (st.cache.cell t i).ext.x ∧ IsI32 (st.cache.cell t i).ext.y

lemma forall_cell {c : KvCache} {kvSize : Nat} (h : Shape kvSize c) {P : Cell → Prop} (h0 : P {})
    (hcells : ∀ t < c.nStream, ∀ i < kvSize, P (c.cell t i)) (t i : Nat) : P (c.cell t i) := by
  by_cases ht : t < c.nStream
  · by_cases hi : i < kvSize
    · exact hcells t ht i hi
    · rw [KvCache.cell, KvCells.cell_of_size_le (by rw [h.size t ht]; omega)]
      exact h0
  · rw [KvCache.cell, cellsOf, getD_eq_default _ _ (by rw [h.cells]; omega),
      KvCells.cell_of_size_le (Nat.zero_le i)]
    exact h0

section Holders
variable {st : KvState} {kvSize : Nat}

lemma mem_holders (h : Shape kvSize st.cache) {q : SeqId} {i : Nat} :
    i ∈ st.holders q ↔ q ∈ (st.cache.cell 0 i).seq := by
  rw [holders, getSize_eq h, mem_filter, decide_eq_true_iff]
  refine and_iff_right_of_imp fun hq => ?_
  rw [mem_range, ← h.size 0 h.streams]
  exact KvCells.lt_size_of_mem_seq hq

lemma nodup_holders (st : KvState) (q : SeqId) : (st.holders q).Nodup := nodup_range.filter _

lemma length_holders_le (h : Shape kvSize st.cache) (q : SeqId) : (st.holders q).length ≤ kvSize := by
  have hle : (st.holders q).length ≤ (List.range st.cache.getSize).length :=
    length_filter_le _ _
  rwa [length_range, getSize_eq h] at hle

end Holders

section Meta
variable {src : KvState} {a : SeqId} {kvSize : Nat}

lemma filter_saves_some (h : Wf kvSize src.cache) :
    (List.range kvSize).filter (saves (src.cache.cellsOf 0) (some a)) = src.holders a := by
  rw [holders, getSize_eq h.shape]
  refine filter_congr fun i _ => ?_
  have hne : a ∈ (src.cache.cell 0 i).seq → (src.cache.cell 0 i).pos ≠ -1 := by
    intro ha hp
    rw [KvCache.cell, ((h.inv 0).empty i hp).1] at ha
    simp at ha
  have hsaves : saves (src.cache.cellsOf 0) (some a) i =
      (!decide ((src.cache.cell 0 i).pos = -1) && decide (a ∈ (src.cache.cell 0 i).seq)) := rfl
  rw [hsaves]
  by_cases ha : a ∈ (src.cache.cell 0 i).seq
  · simp [hne ha, ha]
  · simp [ha]

lemma savedIds_some {i : Nat} (ha : a ∈ (src.cache.cell 0 i).seq) :
    savedIds src.cache (src.cache.cellsOf 0) (some a) i = if a.val < src.cache.nSeqMax then [a] else [] := by
  have ha' : a ∈ ((src.cache.cellsOf 0).cell i).seq := ha
  unfold savedIds
  split
  · rename_i hlt
    have hone : (List.finRange llamaMaxSeq).filter (fun cur => cur = a) = [a] := by
      rw [filter_eq, count_eq_one_of_mem (nodup_finRange _) (mem_finRange a)]
      rfl
    rw [← hone]
    refine filter_congr fun cur _ => ?_
    by_cases e : cur = a
    · subst e
      simp [hlt, KvCells.seqHas, ha']
    · simp [e, Ne.symm e]
  · rename_i hge
    rw [filter_eq_nil_iff]
    intro cur _
    by_cases e : a = cur
    · subst e
      simp [hge]
    · simp [e]

def metaOf (c : KvCache) (t : Nat) (ids : List Int) (i : Nat) : CellMeta :=
  { pos := (c.cell t i).pos, ext := if 1 < c.nPosPerEmbd then (c.cell t i).ext else {}, ids }

lemma parses_ext {e : KvCellExt} (h : IsI32 e.x ∧ IsI32 e.y) : Parses parseExt (i32Bytes e.x ++ i32Bytes e.y) e :=
  (parses_i32 h.1).bind ((parses_i32 h.2).map _)

lemma isI32_seqId (q : SeqId) : IsI32 (q.val : Int) := by
  have hlt : q.val < 256 := q.isLt
  unfold IsI32
  constructor <;> omega

lemma parses_cell (hfit : CellsFit kvSize src) {i : Nat} (ha : a ∈ (src.cache.cell 0 i).seq)
    (hlt : a.val < src.cache.nSeqMax) : Parses (parseCell src.cache.nPosPerEmbd)
      (writeCell src.cache (src.cache.cellsOf 0) (some a) i) (metaOf src.cache 0 [(a.val : Int)] i) := by
  unfold writeCell parseCell
  rw [savedIds_some ha, if_pos hlt]
  refine (parses_i32 (hfit.pos 0 i)).bind ?_
  refine (parses_num (show 1 < 256 ^ 4 by decide)).bind (Parses.require_bind rfl ?_)
  have hlast : ∀ e : KvCellExt, Parses (ε := Fault) (do
      let id ← i32 .endOfInput
      return ({ pos := (src.cache.cell 0 i).pos, ext := e, ids := [id] } : CellMeta))
      ([a].flatMap fun s : SeqId => i32Bytes s.val)
      { pos := (src.cache.cell 0 i).pos, ext := e, ids := [(a.val : Int)] } := by
    intro e
    have := (parses_i32 (e := Fault.endOfInput) (isI32_seqId a)).map fun id =>
      ({ pos := (src.cache.cell 0 i).pos, ext := e, ids := [id] } : CellMeta)
    simpa using this
  unfold metaOf parseExtIf
  by_cases hp : 1 < src.cache.nPosPerEmbd
  · simp only [hp, if_true]
    exact (parses_ext (hfit.ext 0 i)).bind (hlast _)
  · simp only [hp, if_false]
    exact Parses.bind (Parses.pure _) (hlast _)

lemma parseCell_rejects (hfit : CellsFit kvSize src) {i : Nat} (ha : a ∈ (src.cache.cell 0 i).seq)
    (hge : src.cache.nSeqMax ≤ a.val) (rest : List UInt8) : parseCell src.cache.nPosPerEmbd
      (writeCell src.cache (src.cache.cellsOf 0) (some a) i ++ rest) = .error .rejected := by
  have hpos : IsI32 ((src.cache.cellsOf 0).posGet i) := hfit.pos 0 i
  unfold writeCell parseCell
  rw [savedIds_some ha, if_neg (by omega), append_assoc, (parses_i32 hpos).bind_apply, append_assoc,
    (parses_num (show ([] : List SeqId).length < 256 ^ 4 by decide)).bind_apply]
  rfl

end Meta

section Place
variable {c : KvCache} {kvSize nPos : Nat} {b : SeqId} {l : List CellMeta} {sl : SlotInfo}

lemma seqToStream_eq_zero (h1 : c.nStream = 1) (q : SeqId) : c.seqToStream q = 0 := by
  unfold seqToStream
  rw [if_neg (by omega)]

lemma canUse_eq (hswa : c.swaType = .none) (x : KvCells) (i : Nat) : c.canUse x i = x.isEmpty i := by
  unfold canUse
  rw [hswa]
  cases hg : x.seqGet i <;> simp [isMaskedSwa]

lemma seq_tokenCell_restore {k : Nat} (hk : k < (restoreUbatch nPos b l).nTokens) (x : Cell) :
    (tokenCell (restoreUbatch nPos b l) k x).seq = insert b x.seq := by
  have hids : (restoreUbatch nPos b l).seqId.getD k [] = [b] := by
    have hk' : k < l.length := hk
    simp [restoreUbatch, hk']
  rw [tokenCell, hids]
  simp

lemma tokenCell_restore {k : Nat} (hk : k < l.length) (hn : nPos = 1 ∨ nPos = 4) (x : Cell) :
    (tokenCell (restoreUbatch nPos b l) k x).pos = (l[k]).pos ∧
      (1 < nPos → (tokenCell (restoreUbatch nPos b l) k x).ext = (l[k]).ext) := by
  have hpos : (restoreUbatch nPos b l).pos.getD k 0 = (l[k]).pos := by
    rw [restoreUbatch, getD_append _ _ _ _ (by simpa using hk)]
    simp [hk]
  refine ⟨hpos, ?_⟩
  intro h1
  obtain rfl : nPos = 4 := by omega
  -- behind the positions stand the `y` and then the `x` components
  have hy : (restoreUbatch 4 b l).pos.getD (k + l.length) 0 = (l[k]).ext.y := by
    rw [restoreUbatch, getD_append_right _ _ _ _ (by simp), if_pos h1, getD_append _ _ _ _ (by simpa using hk)]
    simp [hk]
  have hx : (restoreUbatch 4 b l).pos.getD (k + l.length * 2) 0 = (l[k]).ext.x := by
    have hidx : k + l.length * 2 - l.length - l.length = k := by omega
    rw [restoreUbatch, getD_append_right _ _ _ _ (by simp; omega), if_pos h1,
      getD_append_right _ _ _ _ (by simp; omega)]
    simp [hidx, hk]
  have htok : (restoreUbatch 4 b l).nTokens = l.length := rfl
  have h2d : (restoreUbatch 4 b l).isPos2d = true := rfl
  simp only [tokenCell, h2d, if_true, htok, hx, hy]

/-- What placing the restored cells does to the cache. -/
structure PlacedIn (c : KvCache) (kvSize : Nat) (u : Ubatch) (sl : SlotInfo) (js : List Nat) : Prop where
  strm : sl.strm = [0]
  idxs : sl.idxs = [js]
  length : js.length = u.nTokens
  nodup : js.Nodup
  lt : ∀ i ∈ js, i < kvSize
  empty : ∀ i ∈ js, (c.cell 0 i).pos = -1
  params : (c.applyUbatch sl u).toKvParams = c.toKvParams
  shape : Shape kvSize (c.applyUbatch sl u)
  cell : ∀ k < u.nTokens, (c.applyUbatch sl u).cell 0 (js.getD k 0) = tokenCell u k (c.cell 0 (js.getD k 0))
  other : ∀ i ∉ js, (c.applyUbatch sl u).cell 0 i = c.cell 0 i

lemma placedIn_of_findSlot (h : Wf kvSize c) (h1 : c.nStream = 1) (hswa : c.swaType = .none)
    (hslot : c.findSlot (restoreUbatch nPos b l) false = .ok (some sl)) :
    ∃ js, PlacedIn c kvSize (restoreUbatch nPos b l) sl js := by
  obtain ⟨hf, hstrm⟩ := found_of_findSlot h.shape h.head_le hslot
  have htok : c.slotTokens (restoreUbatch nPos b l) = (restoreUbatch nPos b l).nTokens := by
    rw [slotTokens, if_neg (by omega)]
  have hst : sl.strm = [0] := by
    rw [hstrm, slotSeqs, if_neg (by omega)]
    simp [restoreUbatch, seqToStream_eq_zero h1]
  rw [htok] at hf
  obtain ⟨js, hjs, hin, hent⟩ := hf.single hst
  have hnd : (sl.entries.map Prod.snd).Nodup := hf.nodup (by rw [hst]; simp)
  have hsz : (c.cellsOf 0).size = kvSize := h.shape.size 0 h.shape.streams
  have hempty : ∀ i ∈ js, (c.cell 0 i).pos = -1 := by
    intro i hi
    have := hin.usable i hi
    rw [canUse_eq hswa] at this
    simpa [KvCells.isEmpty, KvCache.cell] using this
  have hmem : ∀ k < (restoreUbatch nPos b l).nTokens, js.getD k 0 ∈ js := by
    intro k hk
    rw [← hin.length] at hk
    rw [getD_eq_getElem _ _ hk]
    exact getElem_mem hk
  have hempty' : ∀ e ∈ sl.entries, (c.cell e.2.1 e.2.2).pos = -1 := by
    intro e he
    rw [hent, mem_map] at he
    obtain ⟨k, hk, rfl⟩ := he
    exact hempty _ (hmem k (mem_range.1 hk))
  have hcell : ∀ i, (c.applyUbatch sl (restoreUbatch nPos b l)).cell 0 i =
      c.written sl (restoreUbatch nPos b l) 0 i := by
    intro i
    rw [applyUbatch_eq_of_empty hnd hempty', cell_moveHeads]
    exact cell_applyTokens h.shape (fun e he => hf.lt h.shape ⟨e, he, rfl⟩) hnd 0 i
  have hk := keeps_applyUbatch c sl (restoreUbatch nPos b l)
  refine ⟨js, hst, hjs, hin.length, hin.nodup, ?_, hempty, hk.params, hk.shape h.shape, ?_, ?_⟩
  · intro i hi
    rw [← hsz]
    exact hin.lt i hi
  · intro k hkn
    have he : (k, 0, js.getD k 0) ∈ sl.entries := by
      rw [hent]
      exact mem_map.2 ⟨k, mem_range.2 hkn, rfl⟩
    have hw := written_of_mem (c := c) (u := restoreUbatch nPos b l) hnd he
    rw [hcell, hw, if_pos (hempty _ (hmem k hkn))]
  · intro i hi
    rw [hcell, written_of_not_has]
    rintro ⟨e, he, heq⟩
    rw [hent, mem_map] at he
    obtain ⟨k, hk', rfl⟩ := he
    obtain ⟨_, rfl⟩ := Prod.mk.inj heq
    exact hi (hmem k (mem_range.1 hk'))

end Place

section Reader
variable {dst : KvState} {b : SeqId} {n : Nat}

lemma stateRead_single (hpg : dst.cache.pgEnabled = false) (h1 : dst.cache.nStream = 1)
    (hn : n < 256 ^ 4) (rest : List UInt8) : stateRead (some b) ⟨leBytes 4 1 ++ (leBytes 4 n ++ rest), dst⟩ =
      if n = 0 then .ok () ⟨rest, dst⟩ else readSection 0 n (some b) ⟨rest, dst⟩ := by
  have hone := consumes_lift (parses_num (e := Fault.endOfInput) (show 1 < 256 ^ 4 by decide)) dst
  have hcnt := consumes_lift (parses_num (e := Fault.endOfInput) hn) dst
  have hstream : readStream (some b) 0 ⟨leBytes 4 n ++ rest, dst⟩ =
      if n = 0 then .ok () ⟨rest, dst⟩ else readSection 0 n (some b) ⟨rest, dst⟩ := by
    unfold readStream
    rw [ReadM.bind_apply, hcnt rest]
    simp only []
    split
    · rfl
    · rw [ReadM.bind_apply]
      simp only [state, seqToStream_eq_zero h1]
  unfold stateRead
  rw [ReadM.bind_apply]
  simp only [state, hpg, Bool.false_eq_true, if_false, h1]
  rw [ReadM.bind_apply, hone _]
  simp only [ne_eq, not_true_eq_false, if_false]
  rw [← hstream]
  simp [range_one]

lemma consumes_readMetaSeq {kvSize : Nat} {bs : List UInt8} {l : List CellMeta} {sl : SlotInfo}
    {js : List Nat} (h1 : dst.cache.nStream = 1)
    (hbs : Parses (times (parseCell dst.cache.nPosPerEmbd) n) bs l) (hl : l.length = n)
    (hslot : (dst.cache.seqRm (some b) (-1) (-1)).findSlot
      (restoreUbatch dst.cache.nPosPerEmbd b l) false = .ok (some sl))
    (hp : PlacedIn (dst.cache.seqRm (some b) (-1) (-1)) kvSize (restoreUbatch dst.cache.nPosPerEmbd b l) sl js) :
    Consumes (readMetaSeq n b) bs dst sl (dst.setCache ((dst.cache.seqRm (some b) (-1) (-1)).applyUbatch sl
        (restoreUbatch dst.cache.nPosPerEmbd b l))) := by
  have hrm := (keeps_seqRm dst.cache (some b) (-1) (-1)).params
  have hnp : (dst.setCache (dst.cache.seqRm (some b) (-1) (-1))).cache.nPosPerEmbd =
      dst.cache.nPosPerEmbd := congrArg KvParams.nPosPerEmbd hrm
  have hst : ((dst.cache.seqRm (some b) (-1) (-1)).applyUbatch sl
      (restoreUbatch dst.cache.nPosPerEmbd b l)).seqToStream b = 0 := by
    apply seqToStream_eq_zero
    rw [hp.params, hrm]
    exact h1
  unfold readMetaSeq
  refine Consumes.update_bind (Consumes.state_bind ?_)
  rw [hnp]
  refine Consumes.bind_nil (consumes_lift hbs _) ?_
  simp only [setCache] at hslot ⊢
  rw [hslot]
  refine Consumes.update_bind (Consumes.state_bind ?_)
  rw [hp.idxs, hst, if_pos]
  · exact Consumes.pure sl _
  · have hlen : js.length = n := hp.length.trans hl
    refine ⟨hlen, by rw [hp.strm]; rfl, ?_⟩
    intro k hk
    have hk : k < (restoreUbatch dst.cache.nPosPerEmbd b l).nTokens := by
      rw [← hp.length, hlen]
      exact mem_range.1 hk
    have hcell := hp.cell k hk
    unfold KvCache.cell at hcell
    simp only [getD_cons_zero, KvCells.posGet, KvCells.seqHas, hcell]
    refine ⟨rfl, decide_eq_true ?_⟩
    rw [seq_tokenCell_restore hk]
    exact Finset.mem_insert_self b _

end Reader

section Cut
variable {x : Cell} {b q : SeqId} {p0 p1 : Int}

lemma mem_seq_cutSeq_self : b ∈ (cutSeq b p0 p1 x).seq ↔ b ∈ x.seq ∧ ¬ (p0 ≤ x.pos ∧ x.pos < p1) := by
  unfold cutSeq
  split
  · rename_i h
    rw [Cell.seq_erase]
    simp [h.1, h.2.1]
  · rename_i h
    constructor
    · exact fun hb => ⟨hb, fun hp => h ⟨hp.1, hp.2, hb⟩⟩
    · exact And.left

lemma mem_seq_cutSeq_of_ne (h : q ≠ b) : q ∈ (cutSeq b p0 p1 x).seq ↔ q ∈ x.seq := by
  unfold cutSeq
  split
  · rw [Cell.seq_erase, Finset.mem_erase]
    exact and_iff_right h
  · rfl

lemma cutSeq_of_mem (p0 p1 : Int) (h : q ≠ b) (hq : q ∈ x.seq) :
    (cutSeq b p0 p1 x).pos = x.pos ∧ (cutSeq b p0 p1 x).ext = x.ext := by
  unfold cutSeq
  split
  · have hne : x.seq.erase b ≠ ∅ := Finset.ne_empty_of_mem (Finset.mem_erase.2 ⟨h, hq⟩)
    simp [Cell.erase, hne]
  · exact ⟨rfl, rfl⟩

end Cut

section Restored
variable {src dst : KvState} {a b : SeqId} {kvSize : Nat}

lemma stateWrite_single (h : Wf kvSize src.cache) (hpg : src.cache.pgEnabled = false)
    (h1 : src.cache.nStream = 1) : src.stateWrite (some a) =
      leBytes 4 1 ++ (leBytes 4 (src.holders a).length ++ if (src.holders a).length = 0 then [] else
        (src.holders a).flatMap (writeCell src.cache (src.cache.cellsOf 0) (some a)) ++
          src.stateWriteData 0 (cellRanges (saves (src.cache.cellsOf 0) (some a)) kvSize)) := by
  have hsz : (src.cache.cellsOf 0).size = kvSize := h.shape.size 0 h.shape.streams
  have hcount : (List.range kvSize).countP (saves (src.cache.cellsOf 0) (some a)) = (src.holders a).length := by
    rw [countP_eq_length_filter, filter_saves_some h]
  have hmeta : stateWriteMeta src.cache 0 (cellRanges (saves (src.cache.cellsOf 0) (some a)) kvSize)
      (some a) = (src.holders a).flatMap (writeCell src.cache (src.cache.cellsOf 0) (some a)) := by
    rw [← filter_saves_some h, ← flatMap_ranges]
    rfl
  simp only [stateWrite, hpg, Bool.false_eq_true, if_false, h1, range_one, flatMap_cons,
    flatMap_nil, append_nil, writeStream, hsz, hcount, hmeta]

/-- Two caches of one shape with one stream, no sliding window and no paging, and a source whose numbers
    fit. -/
structure Setting (kvSize : Nat) (src dst : KvState) : Prop where
  shape : SameShape kvSize src dst
  srcWf : Wf kvSize src.cache
  dstWf : Wf kvSize dst.cache
  streams : src.cache.nStream = 1
  swa : src.cache.swaType = .none
  paging : src.cache.pgEnabled = false
  nPos : src.cache.nPosPerEmbd = 1 ∨ src.cache.nPosPerEmbd = 4
  cells : CellsFit kvSize src
  layers : LayersFit src

def savedMeta (src : KvState) (a : SeqId) : List CellMeta :=
  (src.holders a).map (metaOf src.cache 0 [(a.val : Int)])

/-- The cache of `dst` once `b` is removed. -/
def removed (dst : KvState) (b : SeqId) : KvCache := dst.cache.seqRm (some b) (-1) (-1)

def restored (kvSize : Nat) (src dst : KvState) (a b : SeqId) (sl : SlotInfo) (js : List Nat) : KvState :=
  copyData kvSize src.cache.nStream src 0 0 (src.holders a) js (dst.setCache
    ((dst.removed b).applyUbatch sl (restoreUbatch dst.cache.nPosPerEmbd b (src.savedMeta a))))

/-- The saved cells as a ubatch for `b`. -/
abbrev savedUbatch (src dst : KvState) (a b : SeqId) : Ubatch :=
  restoreUbatch dst.cache.nPosPerEmbd b (src.savedMeta a)

abbrev placed (src dst : KvState) (a b : SeqId) (sl : SlotInfo) : KvState :=
  dst.setCache ((dst.removed b).applyUbatch sl (src.savedUbatch dst a b))

section
variable (h : Setting kvSize src dst)
include h

lemma sameShape_restored {sl : SlotInfo} {js : List Nat}
    (hp : PlacedIn (dst.removed b) kvSize (src.savedUbatch dst a b) sl js) :
    SameShape kvSize src (src.placed dst a b sl) :=
  ⟨hp.params.trans ((keeps_seqRm dst.cache (some b) (-1) (-1)).params.trans h.shape.params),
    h.shape.layers, h.shape.src, hp.shape⟩

lemma stateRead_write : stateRead (some b) ⟨src.stateWrite (some a), dst⟩ =
      if (src.holders a).length = 0 then .ok () ⟨[], dst⟩ else readSection 0 (src.holders a).length (some b)
          ⟨(src.holders a).flatMap (writeCell src.cache (src.cache.cellsOf 0) (some a)) ++
            src.stateWriteData 0 (cellRanges (saves (src.cache.cellsOf 0) (some a)) kvSize), dst⟩ := by
  have hd1 : dst.cache.nStream = 1 := by rw [h.shape.params]; exact h.streams
  have hdpg : dst.cache.pgEnabled = false := by rw [h.shape.params]; exact h.paging
  have hle := length_holders_le h.shape.src a
  rw [stateWrite_single h.srcWf h.paging h.streams, stateRead_single hdpg hd1 (lt_of_le_of_lt hle h.cells.size)]
  split <;> rfl

lemma stateRead_restored (hw : src.NoWrap (some a) 0) (hlt : a.val < src.cache.nSeqMax)
    (hne : src.holders a ≠ []) {sl : SlotInfo} {js : List Nat} (hslot : (dst.removed b).findSlot
      (src.savedUbatch dst a b) false = .ok (some sl))
    (hp : PlacedIn (dst.removed b) kvSize (src.savedUbatch dst a b) sl js) :
    stateRead (some b) ⟨src.stateWrite (some a), dst⟩ = .ok () ⟨[], restored kvSize src dst a b sl js⟩ := by
  have hd1 : dst.cache.nStream = 1 := by rw [h.shape.params]; exact h.streams
  have hnp : dst.cache.nPosPerEmbd = src.cache.nPosPerEmbd := by rw [h.shape.params]
  rw [stateRead_write h, if_neg (by simpa using hne)]
  have hparse := parses_times fun i hi => parses_cell h.cells ((mem_holders h.shape.src).1 hi) hlt
  rw [← hnp] at hparse
  have hmeta := consumes_readMetaSeq hd1 hparse (by rw [length_map]) hslot hp
  have hlen : js.length = (src.holders a).length := hp.length.trans (length_map _)
  have hs0 : 0 < src.cache.nStream := h.shape.src.streams
  have hw' : src.cache.vTrans = true → ∀ L ∈ src.layers, ∀ v, L.v = some v →
      OffsetsFit (saves (src.cache.cellsOf 0) (some a)) kvSize v := by
    unfold NoWrap at hw
    rwa [h.shape.src.size 0 hs0] at hw
  have hdata := consumes_data (sameShape_restored h hp) h.layers h.cells.size hw' h.paging hs0 hs0 hp.idxs hlen hp.lt
    (length_holders_le h.shape.src a) (filter_saves_some h.srcWf) rfl
  have hall := hmeta.bind hdata []
  rw [append_nil] at hall
  unfold readSection
  rw [stateReadMeta, hall]
  rfl

lemma cell_removed (i : Nat) :
    (dst.removed b).cell 0 i = cutSeq b 0 llamaPosMax (dst.cache.cell 0 i) := by
  have hd1 : dst.cache.nStream = 1 := by rw [h.shape.params]; exact h.streams
  have hcut := cell_seqRm_some b (-1) (-1) h.shape.dst 0 i
  rw [if_pos (seqToStream_eq_zero hd1 b).symm] at hcut
  exact hcut

end

section Slot
variable {sl : SlotInfo} {js : List Nat} {i j : Nat} (h : Setting kvSize src dst)
  (hp : PlacedIn (dst.removed b) kvSize (src.savedUbatch dst a b) sl js)
include h hp

lemma cell_restored (hij : (i, j) ∈ (src.holders a).zip js) :
    ((restored kvSize src dst a b sl js).cache.cell 0 j).seq = {b} ∧
      ((restored kvSize src dst a b sl js).cache.cell 0 j).pos = (src.cache.cell 0 i).pos ∧
      (1 < src.cache.nPosPerEmbd →
        ((restored kvSize src dst a b sl js).cache.cell 0 j).ext = (src.cache.cell 0 i).ext) := by
  have hnp : dst.cache.nPosPerEmbd = src.cache.nPosPerEmbd := by rw [h.shape.params]
  obtain ⟨k, hk, heq⟩ := getElem_of_mem hij
  rw [getElem_zip] at heq
  obtain ⟨rfl, rfl⟩ := Prod.mk.inj heq
  rw [length_zip] at hk
  have hka : k < (src.savedMeta a).length := by
    rw [savedMeta, length_map]
    omega
  have hcell := hp.cell k hka
  rw [getD_eq_getElem _ _ (by omega)] at hcell
  have hempty : ((dst.removed b).cell 0 js[k]).seq = ∅ :=
    ((inv_seqRm b _ _ h.shape.dst h.dstWf.inv 0).empty _ (hp.empty _ (getElem_mem _))).1
  have hpos : dst.cache.nPosPerEmbd = 1 ∨ dst.cache.nPosPerEmbd = 4 := by
    rw [hnp]
    exact h.nPos
  have htok := tokenCell_restore (b := b) hka hpos ((dst.removed b).cell 0 js[k])
  have hmeta : (src.savedMeta a)[k] = metaOf src.cache 0 [(a.val : Int)] (src.holders a)[k] := by
    simp [savedMeta]
  rw [hmeta] at htok
  have hcache : (restored kvSize src dst a b sl js).cache.cell 0 js[k] = tokenCell
      (restoreUbatch dst.cache.nPosPerEmbd b (src.savedMeta a)) k ((dst.removed b).cell 0 js[k]) :=
    hcell
  rw [hcache]
  refine ⟨?_, htok.1, ?_⟩
  · rw [seq_tokenCell_restore hka, hempty]
    rfl
  · intro h1
    rw [htok.2 (by rw [hnp]; exact h1), metaOf, if_pos h1]

lemma cell_restored_of_notMem (hi : i ∉ js) :
    (restored kvSize src dst a b sl js).cache.cell 0 i = cutSeq b 0 llamaPosMax (dst.cache.cell 0 i) :=
  (hp.other i hi).trans (cell_removed h i)

lemma rows_restored (hij : (i, j) ∈ (src.holders a).zip js) :
    (restored kvSize src dst a b sl js).rows 0 j = src.rows 0 i := by
  have hsh := sameShape_restored h hp
  have hlay : (restored kvSize src dst a b sl js).layers = src.layers := h.shape.layers
  unfold rows
  rw [hlay]
  refine map_congr_left fun L hL => ?_
  have hL' : (src.placed dst a b sl).layers[L.2]? = some L.1 := by
    rw [hsh.layers]
    exact mem_zipIdx_iff_getElem?.1 hL
  refine Prod.ext ?_ ?_
  · exact kRow_copyData hsh hL' hp.nodup hij
  · exact vRow_copyData hsh h.layers hL' hp.lt hp.nodup (fun _ _ => ⟨rfl, rfl⟩) hij

lemma rows_restored_of_notMem (hlt : i < kvSize)
    (hi : i ∉ js) : (restored kvSize src dst a b sl js).rows 0 i = dst.rows 0 i := by
  have hsh := sameShape_restored h hp
  unfold rows
  refine map_congr_left fun L hL => ?_
  have hL' : (src.placed dst a b sl).layers[L.2]? = some L.1 :=
    mem_zipIdx_iff_getElem?.1 hL
  have hsize : (src.placed dst a b sl).cache.getSize = dst.cache.getSize := by
    rw [getSize_eq hsh.dst, getSize_eq h.shape.dst]
  have hvt : (src.placed dst a b sl).cache.vTrans = dst.cache.vTrans := by
    rw [hsh.params, h.shape.params]
  refine Prod.ext ?_ ?_
  · refine (kRow_copyData_of_notMem hsh hL' hi).trans ?_
    unfold kRow
    rw [hsize]
    rfl
  · refine (vRow_copyData_of_notMem hsh h.layers hL' hp.lt (fun _ _ => rfl) hlt hi).trans ?_
    unfold vRow
    rw [hsize, hvt]
    rfl

lemma seqCell_restored (hij : (i, j) ∈ (src.holders a).zip js) :
    (restored kvSize src dst a b sl js).seqCell j = src.seqCell i := by
  have hnp : (restored kvSize src dst a b sl js).cache.nPosPerEmbd = src.cache.nPosPerEmbd :=
    congrArg KvParams.nPosPerEmbd (sameShape_restored h hp).params
  obtain ⟨-, hpos, hext⟩ := cell_restored h hp hij
  unfold seqCell
  rw [rows_restored h hp hij, hpos, hnp]
  by_cases h1 : 1 < src.cache.nPosPerEmbd
  · rw [if_pos h1, if_pos h1, hext h1]
  · rw [if_neg h1, if_neg h1]

lemma map_seqCell_restored :
    js.map (restored kvSize src dst a b sl js).seqCell = (src.holders a).map src.seqCell := by
  have hlen : js.length = (src.holders a).length := hp.length.trans (length_map _)
  refine ext_getElem (by simp [hlen]) ?_
  intro k hk hk'
  rw [length_map] at hk hk'
  rw [getElem_map, getElem_map]
  refine seqCell_restored h hp ?_
  rw [← getElem_zip]
  exact getElem_mem (by rw [length_zip]; omega)

omit h in
lemma exists_mem_zip (hj : j ∈ js) :
    ∃ i, (i, j) ∈ (src.holders a).zip js := by
  have hlen : js.length = (src.holders a).length := hp.length.trans (length_map _)
  obtain ⟨k, hk, rfl⟩ := getElem_of_mem hj
  refine ⟨(src.holders a)[k], ?_⟩
  rw [← getElem_zip]
  exact getElem_mem (by rw [length_zip]; omega)

lemma mem_holders_restored :
    i ∈ (restored kvSize src dst a b sl js).holders b ↔ i ∈ js ∨ b ∈ (dst.cache.cell 0 i).seq ∧
        ¬ (0 ≤ (dst.cache.cell 0 i).pos ∧ (dst.cache.cell 0 i).pos < llamaPosMax) := by
  have hshape : Shape kvSize (restored kvSize src dst a b sl js).cache := hp.shape
  rw [mem_holders hshape]
  by_cases hi : i ∈ js
  · obtain ⟨k, hk⟩ := exists_mem_zip hp hi
    simp [hi, (cell_restored h hp hk).1]
  · rw [cell_restored_of_notMem h hp hi, mem_seq_cutSeq_self]
    simp [hi]

lemma seq_of_mem_slot (hi : i ∈ js) :
    (cutSeq b 0 llamaPosMax (dst.cache.cell 0 i)).seq = ∅ := by
  rw [← cell_removed h]
  exact ((inv_seqRm b _ _ h.shape.dst h.dstWf.inv 0).empty _ (hp.empty i hi)).1

lemma others_restored {q : SeqId} (hq : q ≠ b)
    (i : Nat) : (q ∈ ((restored kvSize src dst a b sl js).cache.cell 0 i).seq ↔ q ∈ (dst.cache.cell 0 i).seq) ∧
      (q ∈ (dst.cache.cell 0 i).seq → (restored kvSize src dst a b sl js).seqCell i = dst.seqCell i) := by
  have hnp : (restored kvSize src dst a b sl js).cache.nPosPerEmbd = dst.cache.nPosPerEmbd :=
    (congrArg KvParams.nPosPerEmbd (sameShape_restored h hp).params).trans (by rw [h.shape.params])
  by_cases hi : i ∈ js
  · have hold : q ∉ (dst.cache.cell 0 i).seq := by
      rw [← mem_seq_cutSeq_of_ne hq, seq_of_mem_slot h hp hi]
      simp
    obtain ⟨k, hk⟩ := exists_mem_zip hp hi
    rw [(cell_restored h hp hk).1]
    simp [hold, hq]
  · refine ⟨?_, ?_⟩
    · rw [cell_restored_of_notMem h hp hi, mem_seq_cutSeq_of_ne hq]
    · intro hmem
      have hlt : i < kvSize := by
        rw [← h.shape.dst.size 0 h.shape.dst.streams]
        exact KvCells.lt_size_of_mem_seq hmem
      obtain ⟨hpos, hext⟩ := cutSeq_of_mem 0 llamaPosMax hq hmem
      unfold seqCell
      rw [rows_restored_of_notMem h hp hlt hi, cell_restored_of_notMem h hp hi, hnp, hpos, hext]

end Slot

end Restored

section Main
variable {src dst : KvState} {a b : SeqId} {kvSize : Nat}

lemma holders_eq_nil {st : KvState} (h : Shape kvSize st.cache) {q : SeqId} :
    st.holders q = [] ↔ ∀ i, q ∉ (st.cache.cell 0 i).seq := by
  rw [eq_nil_iff_forall_not_mem]
  exact forall_congr' fun i => not_congr (mem_holders h)

section
variable (h : Setting kvSize src dst)
include h

lemma stateRead_rejects (hge : src.cache.nSeqMax ≤ a.val) (hne : src.holders a ≠ []) :
    ∃ s, stateRead (some b) ⟨src.stateWrite (some a), dst⟩ = .error .restoreFailed s := by
  rw [stateRead_write h, if_neg (by simpa using hne)]
  generalize src.stateWriteData 0 _ = data
  have hnp : (dst.cache.seqRm (some b) (-1) (-1)).nPosPerEmbd = src.cache.nPosPerEmbd := by
    rw [(keeps_seqRm dst.cache (some b) (-1) (-1)).params, h.shape.params]
  have htimes : times (parseCell src.cache.nPosPerEmbd) (src.holders a).length
      ((src.holders a).flatMap (writeCell src.cache (src.cache.cellsOf 0) (some a)) ++ data) =
      .error .rejected := by
    cases hl : src.holders a with
    | nil => exact absurd hl hne
    | cons i l =>
      have ha : a ∈ (src.cache.cell 0 i).seq :=
        (mem_holders h.shape.src).1 (by rw [hl]; exact mem_cons_self)
      rw [length_cons, times, ByteParser.bind_apply, flatMap_cons, append_assoc, parseCell_rejects h.cells ha hge]
  unfold readSection stateReadMeta readMetaSeq
  simp only [ReadM.bind_apply, update, state, lift, setCache, hnp, htimes]
  exact ⟨_, rfl⟩

lemma findSlot_of_ok (hlt : a.val < src.cache.nSeqMax) (hne : src.holders a ≠ []) {s : Session KvState}
    (hok : stateRead (some b) ⟨src.stateWrite (some a), dst⟩ = .ok () s) : ∃ sl, (dst.removed b).findSlot
      (src.savedUbatch dst a b) false = .ok (some sl) := by
  rw [stateRead_write h, if_neg (by simpa using hne)] at hok
  generalize src.stateWriteData 0 _ = data at hok
  have hnp : (dst.cache.seqRm (some b) (-1) (-1)).nPosPerEmbd = src.cache.nPosPerEmbd := by
    rw [(keeps_seqRm dst.cache (some b) (-1) (-1)).params, h.shape.params]
  have hnp' : dst.cache.nPosPerEmbd = src.cache.nPosPerEmbd := by rw [h.shape.params]
  have hparse := parses_times (fun i hi => parses_cell h.cells ((mem_holders h.shape.src).1 hi) hlt) data
  unfold readSection stateReadMeta readMetaSeq at hok
  simp only [ReadM.bind_apply, update, state, lift, setCache, hnp, hparse] at hok
  unfold savedUbatch removed savedMeta
  rw [hnp']
  cases hslot : (dst.cache.seqRm (some b) (-1) (-1)).findSlot
      (restoreUbatch src.cache.nPosPerEmbd b
        ((src.holders a).map (metaOf src.cache 0 [(a.val : Int)]))) false with
  | error e =>
    simp only [hslot] at hok
    cases hok
  | ok r =>
    cases r with
    | some sl => exact ⟨sl, rfl⟩
    | none =>
      simp only [hslot] at hok
      cases hok

lemma findSlot_of_free (hne : src.holders a ≠ [])
    (hfree : (src.holders a).length ≤ (dst.freeFor b).length) (hpos : ∀ i, b ∈ (dst.cache.cell 0 i).seq →
      0 ≤ (dst.cache.cell 0 i).pos ∧ (dst.cache.cell 0 i).pos < llamaPosMax) : ∃ sl, (dst.removed b).findSlot
      (src.savedUbatch dst a b) false = .ok (some sl) := by
  have hwf : Wf kvSize (dst.removed b) := h.dstWf.seqRm b (-1) (-1)
  have hparams : (dst.removed b).toKvParams = src.cache.toKvParams :=
    (keeps_seqRm dst.cache (some b) (-1) (-1)).params.trans h.shape.params
  have h1 : (dst.removed b).nStream = 1 := by rw [hparams]; exact h.streams
  have hswa : (dst.removed b).swaType = .none := by rw [hparams]; exact h.swa
  have hsz : ((dst.removed b).cellsOf 0).size = kvSize := hwf.shape.size 0 hwf.shape.streams
  have hcount : (dst.freeFor b).length ≤
      (List.range kvSize).countP ((dst.removed b).canUse ((dst.removed b).cellsOf 0)) := by
    rw [freeFor, getSize_eq h.shape.dst, ← countP_eq_length_filter]
    refine countP_mono_left fun i _ hi => ?_
    rw [canUse_eq hswa]
    have hcell : ((dst.removed b).cellsOf 0).cell i =
        cutSeq b 0 llamaPosMax (dst.cache.cell 0 i) := cell_removed h i
    rw [KvCells.isEmpty, hcell, decide_eq_true_iff]
    rw [decide_eq_true_iff] at hi
    unfold cutSeq
    obtain hi | hi := hi
    · have hemp := ((h.dstWf.inv 0).empty i hi).1
      have hnot : b ∉ (dst.cache.cell 0 i).seq := by
        unfold KvCache.cell
        rw [hemp]
        simp
      rw [if_neg (by tauto), hi]
    · have hb : b ∈ (dst.cache.cell 0 i).seq := by rw [hi]; exact Finset.mem_singleton_self b
      rw [if_pos ⟨(hpos i hb).1, (hpos i hb).2, hb⟩]
      simp [Cell.erase, hi]
  have hn : 0 < (src.savedMeta a).length := by
    rw [savedMeta, length_map]
    exact length_pos_iff.2 hne
  have hh : (dst.removed b).headOf 0 ≤ ((dst.removed b).cellsOf 0).size := by
    rw [hsz]
    exact hwf.head_le 0
  obtain ⟨idxs, hidxs⟩ := findInStream_some (n := (src.savedMeta a).length) hn hh (by
    rw [hsz, savedMeta, length_map]
    exact hfree.trans hcount)
  unfold findSlot
  simp only []
  rw [if_neg (by omega)]
  simp [restoreUbatch, findStreams, seqToStream_eq_zero h1, hidxs, h1]

lemma placedIn_removed {sl : SlotInfo} (hslot : (dst.removed b).findSlot
      (src.savedUbatch dst a b) false = .ok (some sl)) :
    ∃ js, PlacedIn (dst.removed b) kvSize (src.savedUbatch dst a b) sl js := by
  have hparams : (dst.removed b).toKvParams = src.cache.toKvParams :=
    (keeps_seqRm dst.cache (some b) (-1) (-1)).params.trans h.shape.params
  have hwf : Wf kvSize (dst.removed b) := h.dstWf.seqRm b (-1) (-1)
  refine placedIn_of_findSlot hwf ?_ ?_ hslot
  · rw [hparams]
    exact h.streams
  · rw [hparams]
    exact h.swa

lemma restored_iff {sl : SlotInfo} {js : List Nat}
    (hp : PlacedIn (dst.removed b) kvSize (src.savedUbatch dst a b) sl js) :
    (((restored kvSize src dst a b sl js).holders b).map
        (restored kvSize src dst a b sl js).seqCell).Perm ((src.holders a).map src.seqCell) ↔
      ∀ i, b ∈ (dst.cache.cell 0 i).seq →
        0 ≤ (dst.cache.cell 0 i).pos ∧ (dst.cache.cell 0 i).pos < llamaPosMax := by
  rw [← map_seqCell_restored h hp]
  have hsub : js ⊆ (restored kvSize src dst a b sl js).holders b :=
    fun i hi => (mem_holders_restored h hp).2 (.inl hi)
  constructor
  · intro hperm i hb
    by_contra hout
    -- there are no more holders than new cells, so the old cell would be a new one
    have hlen := hperm.length_eq
    rw [length_map, length_map] at hlen
    have hjs : js.Perm ((restored kvSize src dst a b sl js).holders b) :=
      (hp.nodup.subperm hsub).perm_of_length_le hlen.le
    have hi : i ∈ js := hjs.mem_iff.2 ((mem_holders_restored h hp).2 (.inr ⟨hb, hout⟩))
    have hmem : b ∈ (cutSeq b 0 llamaPosMax (dst.cache.cell 0 i)).seq :=
      mem_seq_cutSeq_self.2 ⟨hb, hout⟩
    rw [seq_of_mem_slot h hp hi] at hmem
    simp at hmem
  · intro hpos
    refine List.Perm.map _ ((perm_ext_iff_of_nodup (nodup_holders _ _) hp.nodup).2 ?_)
    intro i
    rw [mem_holders_restored h hp]
    exact or_iff_left fun hb => hb.2 (hpos i hb.1)

lemma restores_iff_of_noWrap (hw : src.NoWrap (some a) 0)
    (hfree : (src.holders a).length ≤ (dst.freeFor b).length) : Restores src dst a b ↔ RestoreOk src dst a b := by
  have hin : ∀ {q i}, q ∈ (src.cache.cell 0 i).seq → src.holders q ≠ [] := fun hq hnil =>
    (holders_eq_nil h.shape.src).1 hnil _ hq
  by_cases hnil : src.holders a = []
  · have hread := stateRead_write (a := a) (b := b) h
    rw [hnil, length_nil, if_pos rfl] at hread
    constructor
    · rintro ⟨dst', hok, hperm, -⟩
      rw [hread] at hok
      cases hok
      rw [hnil, map_nil, perm_nil, map_eq_nil_iff] at hperm
      exact ⟨fun ⟨i, hi⟩ => absurd hnil (hin hi), fun _ => (holders_eq_nil h.shape.dst).1 hperm, hw⟩
    · intro hok
      have hb := hok.none ((holders_eq_nil h.shape.src).1 hnil)
      refine ⟨dst, hread, ?_, fun q _ i => ⟨Iff.rfl, fun _ => rfl⟩⟩
      rw [hnil, (holders_eq_nil h.shape.dst).2 hb]
      exact List.Perm.nil
  · obtain ⟨i, hi⟩ := exists_mem_of_ne_nil _ hnil
    have ha := (mem_holders h.shape.src).1 hi
    constructor
    · rintro ⟨dst', hok, hperm, -⟩
      have hlt : a.val < src.cache.nSeqMax := by
        by_contra hge
        obtain ⟨s, hs⟩ := stateRead_rejects (b := b) h (by omega) hnil
        rw [hs] at hok
        cases hok
      obtain ⟨sl, hslot⟩ := findSlot_of_ok h hlt hnil hok
      obtain ⟨js, hp⟩ := placedIn_removed h hslot
      rw [stateRead_restored h hw hlt hnil hslot hp] at hok
      cases hok
      exact ⟨fun _ => ⟨hlt, (restored_iff h hp).1 hperm⟩, fun hno => absurd ha (hno i), hw⟩
    · intro hok
      obtain ⟨hlt, hpos⟩ := hok.some ⟨i, ha⟩
      obtain ⟨sl, hslot⟩ := findSlot_of_free h hnil hfree hpos
      obtain ⟨js, hp⟩ := placedIn_removed h hslot
      exact ⟨_, stateRead_restored h hw hlt hnil hslot hp, (restored_iff h hp).2 hpos,
        fun q hq => others_restored h hp hq⟩

end

lemma Setting.withData (h : Setting kvSize src dst) (k v : Nat → Mem) : Setting kvSize (src.withData k v) dst where
  shape := ⟨h.shape.params, h.shape.layers, h.shape.src, h.shape.dst⟩
  srcWf := h.srcWf
  dstWf := h.dstWf
  streams := h.streams
  swa := h.swa
  paging := h.paging
  nPos := h.nPos
  cells := ⟨h.cells.size, h.cells.streams, h.cells.pos, h.cells.ext⟩
  layers := ⟨h.layers.length, h.layers.each, h.layers.plain⟩

lemma vRow_eq_of_rows_eq {st st' : KvState} {t i i' : Nat} (h : st.rows t i = st'.rows t i')
    (hlay : st.layers = st'.layers) : ∀ L ∈ st.layers.zipIdx, st.vRow L t i = st'.vRow L t i' := by
  unfold rows at h
  rw [← hlay] at h
  exact fun L hL => (Prod.mk.inj (map_inj_left.1 h L hL)).2

lemma noWrap_of_restores (h : Setting kvSize src dst) (hall : ∀ k v, Restores (src.withData k v) dst a b) :
    src.NoWrap (some a) 0 := by
  by_contra hwrap
  obtain ⟨v₁, v₂, last, hlast, hwrite, hrow⟩ :=
    exists_same_write h.shape.src h.layers (by rw [h.streams]; exact one_pos) hwrap
  obtain ⟨d₁, hok₁, hperm₁, -⟩ := hall src.k v₁
  obtain ⟨d₂, hok₂, hperm₂, -⟩ := hall src.k v₂
  rw [hwrite, hok₁] at hok₂
  cases hok₂
  have ha : a ∈ (src.cache.cell 0 last).seq := by
    rw [saves, Bool.and_eq_true] at hlast
    exact of_decide_eq_true hlast.2
  have hmem : last ∈ (src.withData src.k v₂).holders a := (mem_holders h.shape.src).2 ha
  obtain ⟨i, -, hi⟩ := mem_map.1 ((hperm₂.symm.trans hperm₁).subset (mem_map_of_mem hmem))
  have hrows : (src.withData src.k v₁).rows 0 i = (src.withData src.k v₂).rows 0 last :=
    congrArg (fun x => x.2.2) hi
  obtain ⟨L, hL, hne⟩ := hrow i
  exact hne (vRow_eq_of_rows_eq hrows rfl L hL)

/-- The restore of a sequence, whatever the tensors hold, with enough cells that are free once `b` is removed. -/
theorem restores_iff (h : Setting kvSize src dst) (hfree : (src.holders a).length ≤ (dst.freeFor b).length) :
    (∀ k v, Restores (src.withData k v) dst a b) ↔ RestoreOk src dst a b := by
  constructor
  · intro hall
    exact (restores_iff_of_noWrap h (noWrap_of_restores h hall) hfree).1 (hall src.k src.v)
  · intro hok k v
    exact (restores_iff_of_noWrap (h.withData k v) hok.noWrap hfree).2 ⟨hok.some, hok.none, hok.noWrap⟩

end Main

end KvState

namespace Small
open KvState DryRun

def row : RowShape where
  id := 1
  ty := .f16
  ne0 := 2
  ne0_pos := GgmlType.f16.typeSize_pos
  ne0_dvd := by decide

def layer : LayerShape := { k := row, v := some { row with nEmbdGqa := 2, nEmbdGqa_le := le_rfl } }

/-- A cache of four cells for each stream and up to two sequences, one layer. -/
def empty (unified : Bool) : KvState where
  cache := KvCache.init true unified false 4 2 0 .none 1 0
  layers := [layer]
  k _ a := UInt8.ofNat a
  v _ a := UInt8.ofNat a

/-- A token of sequence `q` is placed in cell 0 of stream `t`. -/
def put (st : KvState) (t : Nat) (q : SeqId) : KvState :=
  st.setCache (st.cache.applyUbatch (cellZero t) (token q))

@[irreducible] def one : KvState := put (empty true) 0 0

lemma steady_empty (unified : Bool) : KvCache.Steady 4 (empty unified).cache :=
  KvCache.steady_init _ _ _ 4 _ _ _ _ (by decide)

lemma placed_put {st : KvState} (h : KvCache.Steady 4 st.cache) {t : Nat} {q : SeqId}
    (hslot : st.cache.findSlot (token q) false = .ok (some (cellZero t))) :
    KvCache.Placed 4 (cellZero t) st.cache (put st t q).cache := by
  obtain ⟨hf, hstrm⟩ := KvCache.found_of_findSlot h.wf.shape h.wf.head_le hslot
  refine KvCache.placed_applyUbatch h hf (KvCache.slotTokens_pos one_pos hslot) ?_ ?_
  · exact nodup_singleton t
  · intro e he
    have hlt := KvCache.lt_nTokens_of_mem_entries hf hstrm he
    obtain h0 : e.1 = 0 := by simpa [token] using hlt
    simp [Ubatch.TokenOk, token, h0]

lemma layersFit {st : KvState} (hl : st.layers = [layer]) : LayersFit st := by
  have hone : ∀ {P : LayerShape → Prop}, P layer → ∀ L ∈ st.layers, P L := by
    intro P hP L hL
    rw [hl, mem_singleton] at hL
    rwa [hL]
  refine ⟨by rw [hl]; decide, hone ⟨by decide, by decide, ?_⟩, fun _ => hone ?_⟩
  · intro v hv
    cases hv
    decide
  · intro v hv
    cases hv
    decide

/-- The tensors are so small that no offset wraps around. -/
lemma noWrap_small {st : KvState} (hl : st.layers = [layer]) {t : Nat} (hsize : (st.cache.cellsOf t).size = 4)
    (seq : Option SeqId) : st.NoWrap seq t := by
  intro _ L hL v hv i hi j hj
  obtain rfl : L = layer := by simpa [hl] using hL
  cases hv
  have hlt : i < 4 := by
    rw [← hsize]
    refine KvCells.lt_size_of_pos_ne fun hpos => ?_
    have hi := hi.1
    simp [saves, KvCells.isEmpty, hpos] at hi
  have hj' : j < 2 := hj
  rw [hsize]
  show (i + j * 4) * 2 < 4294967296
  omega

/-- A cell whose numbers fit, with sequences 0 and 1 only and at least one if it is occupied. -/
def CellOk (x : Cell) : Prop :=
  (IsI32 x.pos ∧ IsI32 x.ext.x ∧ IsI32 x.ext.y) ∧ (∀ q ∈ x.seq, q.val < 2) ∧ (x.pos ≠ -1 → x.seq ≠ ∅)

instance (x : Cell) : Decidable (CellOk x) := inferInstanceAs (Decidable (_ ∧ _))

lemma cellOk_all {st : KvState} (h : KvCache.Shape 4 st.cache)
    (hcells : ∀ t < st.cache.nStream, ∀ i < 4, CellOk (st.cache.cell t i)) (t i : Nat) :
    CellOk (st.cache.cell t i) :=
  forall_cell (P := CellOk) h ⟨by decide, by simp, by simp⟩ hcells t i

lemma cellsFit {st : KvState} (hcells : ∀ t i, CellOk (st.cache.cell t i))
    (hn : st.cache.nStream < 256 ^ 4) : CellsFit 4 st :=
  ⟨by decide, hn, fun t i => (hcells t i).1.1, fun t i => (hcells t i).1.2⟩

lemma computed : (empty true).cache.findSlot (token 0) false = .ok (some (cellZero 0)) ∧
    (∀ t < 1, ∀ i < 4, CellOk (one.cache.cell t i)) ∧
    one.cache.nSeqMax = 2 ∧ one.holders 0 = [0] ∧ one.holders 1 = [] ∧
    (one.freeFor 1).length = 3 ∧ (one.freeFor 0).length = 4 := by
  decide +kernel

lemma placed_one : KvCache.Placed 4 (cellZero 0) (empty true).cache one.cache := by
  obtain ⟨hslot, _⟩ := computed
  unfold one
  exact placed_put (steady_empty true) hslot

lemma cellOk_one (t i : Nat) : CellOk (one.cache.cell t i) := by
  obtain ⟨_, hcells, _⟩ := computed
  refine cellOk_all placed_one.steady.wf.shape ?_ t i
  rw [placed_one.params]
  exact hcells

lemma layers_one : one.layers = [layer] := by
  unfold one
  rfl

lemma setting_one : Setting 4 one one := by
  have hp := placed_one
  have hsh := hp.steady.wf.shape
  have hparams := hp.params
  exact
    { shape := ⟨rfl, rfl, hsh, hsh⟩
      srcWf := hp.steady.wf
      dstWf := hp.steady.wf
      streams := by rw [hparams]; rfl
      swa := by rw [hparams]; rfl
      paging := by rw [hparams]; rfl
      nPos := by rw [hparams]; exact .inl rfl
      cells := cellsFit cellOk_one (by rw [hparams]; decide)
      layers := layersFit layers_one }

end Small

open Small in
/-- Sequence 0 is restored as sequence 1, from a transposed V tensor. -/
theorem KvState.restores_iff_one : Restores (one.withData (marked 0 0) (marked 0 1)) one 0 1 := by
  obtain ⟨_, _, hmax, h0, h1, hfree, _⟩ := computed
  have hsh := setting_one.shape.src
  refine (restores_iff setting_one ?_).2
    ⟨fun _ => ⟨?_, ?_⟩, ?_, noWrap_small layers_one (hsh.size 0 hsh.streams) _⟩ _ _
  · rw [h0, hfree]
    decide
  · rw [hmax]
    decide
  · exact fun i hi => absurd hi ((holders_eq_nil hsh).1 h1 i)
  · exact fun _ => (holders_eq_nil hsh).1 h1

open Small in
/-- Restoring sequence 1, which has no cells, as sequence 0 leaves the old cell of sequence 0. -/
theorem KvState.restore_keeps_old_cells : ¬ ∀ (kvSize : Nat) (src dst : KvState) (a b : SeqId),
    Setting kvSize src dst → (src.holders a).length ≤ (dst.freeFor b).length → Restores src dst a b := by
  intro h
  obtain ⟨_, _, _, h0, h1, _, hfree⟩ := computed
  obtain ⟨dst', hok, hperm, -⟩ := h 4 one one 1 0 setting_one (by rw [h1, hfree]; decide)
  rw [stateRead_write setting_one, h1, length_nil, if_pos rfl] at hok
  cases hok
  rw [h0, h1] at hperm
  simpa using hperm.length_eq

end Mallana
