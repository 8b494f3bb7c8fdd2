import Mallana.State.Load
import Mallana.State.Restore

/-!
# Saving and restoring the whole cache

`state_write` of the whole cache followed by `state_read`, with any number of streams. Each section of the
input is read back as it was written, but `state_read_meta` clears the cache for every section, so that
only the last one is left; the V rows of a tensor that is not transposed are saved from another place
than attention reads them from, except in the first stream; offsets in a transposed V tensor may wrap around; and an input without
cells leaves the old contents of the cache alone. `roundTrips_iff` says that there is nothing else.
-/

namespace Mallana

open Lib List

namespace KvState

open ByteParser ReadM KvCache

def cellData (st : KvState) (t i : Nat) : Option KvCellExt × List (List UInt8 × List UInt8) :=
  (if 1 < st.cache.nPosPerEmbd then some (st.cache.cell t i).ext else none, st.rows t i)

/-- The cells of a stream that hold a sequence at a position. -/
def held (st : KvState) (t : Nat) (q : SeqId) (p : Int) :
    List (Option KvCellExt × List (List UInt8 × List UInt8)) :=
  ((List.range (st.cache.cellsOf t).size).filter fun i =>
    q ∈ (st.cache.cell t i).seq ∧ (st.cache.cell t i).pos = p).map (st.cellData t)

/-- Writing the whole cache `src` and reading it into `dst` consumes all bytes and gives the same cells,
    up to their order. -/
def RoundTrips (src dst : KvState) : Prop :=
  ∃ dst', stateRead none ⟨src.stateWrite none, dst⟩ = .ok () ⟨[], dst'⟩ ∧
    ∀ t q p, (dst'.held t q p).Perm (src.held t q p)

def Occupied (st : KvState) (t : Nat) : Prop := ∃ i, (st.cache.cell t i).pos ≠ -1

/-- The caches for which the round trip works. -/
structure TripOk (src dst : KvState) : Prop where
  one : ∀ t u, src.Occupied t → src.Occupied u → t = u
  first : src.cache.vTrans = false → (∃ L ∈ src.layers, L.v ≠ none) → ∀ t, src.Occupied t → t = 0
  none : (∀ t, ¬ src.Occupied t) → ∀ t i, (dst.cache.cell t i).seq = ∅
  noWrap : ∀ t < src.cache.nStream, src.NoWrap .none t

/-- Two caches of one shape without paging; the source is well formed, its numbers fit, and its cells
    hold sequences below `n_seq_max`, at least one if they are occupied. -/
structure TripSetting (kvSize : Nat) (src dst : KvState) : Prop where
  shape : SameShape kvSize src dst
  srcWf : Wf kvSize src.cache
  paging : src.cache.pgEnabled = false
  cells : CellsFit kvSize src
  layers : LayersFit src
  ids : ∀ t i, ∀ q ∈ (src.cache.cell t i).seq, q.val < src.cache.nSeqMax
  seqs : ∀ t i, (src.cache.cell t i).pos ≠ -1 → (src.cache.cell t i).seq ≠ ∅

section Saved
variable {src dst : KvState} {kvSize t i : Nat}

def saved (kvSize : Nat) (src : KvState) (t : Nat) : List Nat :=
  (List.range kvSize).filter (saves (src.cache.cellsOf t) none)

lemma mem_saved : i ∈ saved kvSize src t ↔ i < kvSize ∧ (src.cache.cell t i).pos ≠ -1 := by
  simp [saved, saves, KvCells.isEmpty, KvCache.cell]

lemma length_saved_le : (saved kvSize src t).length ≤ kvSize := by
  have hle : (saved kvSize src t).length ≤ (List.range kvSize).length := length_filter_le _ _
  rwa [length_range] at hle

lemma saved_ne_nil_iff (h : Shape kvSize src.cache) (ht : t < src.cache.nStream) :
    saved kvSize src t ≠ [] ↔ src.Occupied t := by
  constructor
  · intro hne
    obtain ⟨i, hi⟩ := exists_mem_of_ne_nil _ hne
    exact ⟨i, (mem_saved.1 hi).2⟩
  · rintro ⟨i, hi⟩
    refine ne_nil_of_mem (mem_saved.2 ⟨?_, hi⟩)
    rw [← h.size t ht]
    exact KvCells.lt_size_of_pos_ne hi

lemma Occupied.lt (h : Shape kvSize src.cache) (hocc : src.Occupied t) : t < src.cache.nStream := by
  by_contra ht
  obtain ⟨i, hi⟩ := hocc
  refine hi ?_
  rw [KvCache.cell, cellsOf, getD_eq_default _ _ (by rw [h.cells]; omega),
    KvCells.cell_of_size_le (Nat.zero_le i)]

def idsOf (src : KvState) (t i : Nat) : List Int :=
  (savedIds src.cache (src.cache.cellsOf t) none i).map fun q => (q.val : Int)

def savedCells (kvSize : Nat) (src : KvState) (t : Nat) : List CellMeta :=
  (saved kvSize src t).map fun i => metaOf src.cache t (src.idsOf t i) i

lemma mem_savedIds_none {q : SeqId} : q ∈ savedIds src.cache (src.cache.cellsOf t) none i ↔
    q.val < src.cache.nSeqMax ∧ q ∈ (src.cache.cell t i).seq := by
  simp [savedIds, KvCells.seqHas, KvCache.cell]

lemma seqIdOf_val (q : SeqId) : seqIdOf (q.val : Int) = q := by
  unfold seqIdOf
  rw [Int.toNat_natCast]
  exact Fin.ofNat_val_eq_self q

lemma toFinset_idsOf (hids : ∀ q ∈ (src.cache.cell t i).seq, q.val < src.cache.nSeqMax) :
    ((src.idsOf t i).map seqIdOf).toFinset = (src.cache.cell t i).seq := by
  have hmap : (src.idsOf t i).map seqIdOf = savedIds src.cache (src.cache.cellsOf t) none i := by
    rw [idsOf, map_map]
    exact (map_congr_left fun q _ => seqIdOf_val q).trans (map_id _)
  ext q
  rw [hmap, mem_toFinset, mem_savedIds_none]
  exact and_iff_right_of_imp (hids q)

lemma parses_cellAll (hfit : CellsFit kvSize src) :
    Parses (parseCellAll src.cache.nPosPerEmbd src.cache.nSeqMax)
      (writeCell src.cache (src.cache.cellsOf t) none i) (metaOf src.cache t (src.idsOf t i) i) := by
  have hlen : (savedIds src.cache (src.cache.cellsOf t) none i).length < 256 ^ 4 := by
    have hle : (savedIds src.cache (src.cache.cellsOf t) none i).length ≤
        (List.finRange llamaMaxSeq).length := length_filter_le _ _
    rw [length_finRange] at hle
    exact lt_of_le_of_lt hle (by decide)
  have hid : ∀ q ∈ savedIds src.cache (src.cache.cellsOf t) none i,
      Parses (parseSeqId src.cache.nSeqMax) (i32Bytes q.val) (q.val : Int) := by
    intro q hq
    refine (parses_i32 (isI32_seqId q)).bind_nil (Parses.require_bind ?_ (Parses.pure _))
    have hlt := (mem_savedIds_none.1 hq).1
    exact decide_eq_true ⟨by omega, by omega⟩
  unfold writeCell parseCellAll
  refine (parses_i32 (hfit.pos t i)).bind ((parses_num hlen).bind ?_)
  unfold metaOf parseExtIf
  by_cases hp : 1 < src.cache.nPosPerEmbd
  · simp only [hp, if_true]
    exact (parses_ext (hfit.ext t i)).bind ((parses_times hid).map _)
  · simp only [hp, if_false]
    exact Parses.bind (Parses.pure _) ((parses_times hid).map _)

end Saved

section Sections
variable {src st : KvState} {kvSize t : Nat}

lemma consumes_readSection {n : Nat} {seq : Option SeqId} {bs : List UInt8} {st' : KvState}
    (h : Consumes (do
      let sl ← stateReadMeta t n seq
      stateReadData t n sl : Read Unit) bs st () st') : Consumes (readSection t n seq) bs st () st' := by
  intro rest
  unfold readSection
  rw [h rest]

/-- The state after the section of a stream: everything else is gone. -/
def reload (kvSize : Nat) (src : KvState) (t : Nat) (st : KvState) : KvState :=
  copyData kvSize src.cache.nStream src t t (saved kvSize src t)
    (List.range (saved kvSize src t).length) (loadMeta t (savedCells kvSize src t) st)

lemma sameShape_loadMeta (h : SameShape kvSize src st) (ms : List CellMeta) :
    SameShape kvSize src (loadMeta t ms st) :=
  ⟨(keeps_loadMeta t ms st).params.trans h.params, h.layers, h.src, (keeps_loadMeta t ms st).shape h.dst⟩

lemma sameShape_reload (h : SameShape kvSize src st) : SameShape kvSize src (reload kvSize src t st) :=
  have hload := sameShape_loadMeta (t := t) h (savedCells kvSize src t)
  ⟨hload.params, hload.layers, hload.src, hload.dst⟩

lemma consumes_section (h : SameShape kvSize src st) (hcells : CellsFit kvSize src)
    (hlayers : LayersFit src) (hw : src.NoWrap none t) (hpg : src.cache.pgEnabled = false)
    (ht : t < src.cache.nStream) : Consumes (readSection t (saved kvSize src t).length none)
      ((saved kvSize src t).flatMap (writeCell src.cache (src.cache.cellsOf t) none) ++
        src.stateWriteData t (cellRanges (saves (src.cache.cellsOf t) none) kvSize)) st ()
      (reload kvSize src t st) := by
  have hsize : (st.cache.cellsOf t).size = kvSize := h.dst.size t (by rw [h.params]; exact ht)
  have hparse : Parses (times (parseCellAll st.cache.nPosPerEmbd st.cache.nSeqMax)
      (saved kvSize src t).length)
      ((saved kvSize src t).flatMap (writeCell src.cache (src.cache.cellsOf t) none))
      (savedCells kvSize src t) := by
    rw [h.params]
    exact parses_times fun i _ => parses_cellAll hcells
  have hmeta := consumes_readMetaAll (by rw [hsize]; exact length_saved_le) hparse
  have hlt : ∀ i ∈ List.range (saved kvSize src t).length, i < kvSize := by
    intro i hi
    exact lt_of_lt_of_le (mem_range.1 hi) length_saved_le
  have hslot : (loadSlot t (saved kvSize src t).length).idxs =
      [List.range (saved kvSize src t).length] := rfl
  unfold NoWrap at hw
  rw [h.src.size t ht] at hw
  have hdata := consumes_data (sameShape_loadMeta (t := t) h (savedCells kvSize src t)) hlayers hcells.size hw hpg
    ht ht hslot length_range hlt length_saved_le rfl rfl
  exact consumes_readSection (hmeta.bind hdata)

def reloadStep (kvSize : Nat) (src : KvState) (st : KvState) (t : Nat) : KvState :=
  if (saved kvSize src t).length = 0 then st else reload kvSize src t st

section
variable (h : SameShape kvSize src st) (hcells : CellsFit kvSize src) (hlayers : LayersFit src)
include h hcells hlayers

lemma consumes_stream (hw : src.NoWrap none t) (hpg : src.cache.pgEnabled = false)
    (ht : t < src.cache.nStream) : Consumes (readStream none t) (src.writeStream none t) st () (reloadStep kvSize src st t) := by
  have hsize : (src.cache.cellsOf t).size = kvSize := h.src.size t ht
  have hcount : (List.range kvSize).countP (saves (src.cache.cellsOf t) none) =
      (saved kvSize src t).length := countP_eq_length_filter
  have hmeta : stateWriteMeta src.cache t (cellRanges (saves (src.cache.cellsOf t) none) kvSize) none =
      (saved kvSize src t).flatMap (writeCell src.cache (src.cache.cellsOf t) none) := by
    rw [saved, ← flatMap_ranges]
    rfl
  have hlt : (saved kvSize src t).length < 256 ^ 4 := lt_of_le_of_lt length_saved_le hcells.size
  unfold readStream
  simp only [writeStream, hsize, hcount, hmeta]
  refine (consumes_lift (parses_num hlt) st).bind ?_
  unfold reloadStep
  split
  · exact Consumes.pure () st
  · exact Consumes.state_bind (consumes_section h hcells hlayers hw hpg ht)

lemma consumes_stateRead (hw : ∀ t < src.cache.nStream, src.NoWrap none t)
    (hpg : src.cache.pgEnabled = false) : Consumes (stateRead none) (src.stateWrite none) st ()
      ((List.range src.cache.nStream).foldl (reloadStep kvSize src) st) := by
  unfold stateRead stateWrite
  refine Consumes.state_bind ?_
  rw [h.params]
  simp only [hpg, Bool.false_eq_true, if_false]
  refine (consumes_lift (parses_num hcells.streams) st).bind ?_
  simp only [ne_eq, not_true_eq_false, if_false]
  refine Consumes.forM_inv (P := SameShape kvSize src) (fun t ht s hs => ⟨?_, ?_⟩) h
  · exact consumes_stream hs hcells hlayers (hw t (mem_range.1 ht)) hpg (mem_range.1 ht)
  · unfold reloadStep
    split
    · exact hs
    · exact sameShape_reload hs

end

lemma foldl_reloadStep (h : SameShape kvSize src st) (n : Nat) :
    ((List.range n).foldl (reloadStep kvSize src) st = st ∧
      ∀ t < n, (saved kvSize src t).length = 0) ∨
    ∃ t < n, (saved kvSize src t).length ≠ 0 ∧ ∃ d, SameShape kvSize src d ∧
      (List.range n).foldl (reloadStep kvSize src) st = reload kvSize src t d := by
  induction n with
  | zero => exact .inl ⟨rfl, by simp⟩
  | succ n ih =>
    rw [range_succ, foldl_append, foldl_cons, foldl_nil]
    by_cases hn : (saved kvSize src n).length = 0
    · rw [reloadStep, if_pos hn]
      obtain ⟨hst, hall⟩ | ⟨t, ht, hocc, d, hd, hst⟩ := ih
      · refine .inl ⟨hst, fun t ht => ?_⟩
        obtain rfl | hlt := Nat.lt_succ_iff_lt_or_eq.1 ht |>.symm
        · exact hn
        · exact hall t hlt
      · exact .inr ⟨t, by omega, hocc, d, hd, hst⟩
    · rw [reloadStep, if_neg hn]
      refine .inr ⟨n, by omega, hn, _, ?_, rfl⟩
      obtain ⟨hst, _⟩ | ⟨t, _, _, d, hd, hst⟩ := ih
      · rw [hst]
        exact h
      · rw [hst]
        exact sameShape_reload hd

end Sections

section Reload
variable {src dst d : KvState} {kvSize t i : Nat} (h : TripSetting kvSize src dst) (hd : SameShape kvSize src d)
include hd

lemma cellsOf_size_reload (ht : t < src.cache.nStream) :
    ((reload kvSize src t d).cache.cellsOf t).size = kvSize :=
  have hsh := sameShape_reload (t := t) hd
  hsh.dst.size t (by rw [hsh.params]; exact ht)

lemma zero_mem_vRow_reload (hv : src.cache.vTrans = false) (ht : 0 < t)
    {L : LayerShape × Nat} (hL : src.layers[L.2]? = some L.1) {v : VShape} (hLv : L.1.v = some v) :
    0 ∈ (reload kvSize src t d).vRow L t 0 := by
  have hsh := sameShape_loadMeta (t := t) hd (savedCells kvSize src t)
  have hvt : (loadMeta t (savedCells kvSize src t) d).cache.vTrans = false := by
    rw [hsh.params]
    exact hv
  have hL' : (loadMeta t (savedCells kvSize src t) d).layers[L.2]? = some L.1 := by
    rw [hsh.layers]
    exact hL
  have hsize : (reload kvSize src t d).cache.getSize = kvSize := getSize_eq hsh.dst
  have hcv : (reload kvSize src t d).cache.vTrans = false := hvt
  have hrow := v.toRowShape.rowSize_pos
  have hmem : (reload kvSize src t d).v L.2 (kvSize * v.rowSize * t) = 0 := by
    rw [reload, v_copyData hL', hvt]
    simp only [Bool.false_eq_true, if_false, copyV, hLv]
    refine Mem.writeRows_of_notMem fun i _ => .inl ?_
    have hpos : 0 < t * 32 * v.rowSize := mul_pos (by omega) hrow
    have hbase : t * (kvSize + 32) * v.rowSize = kvSize * v.rowSize * t + t * 32 * v.rowSize := by ring
    rw [vBase_eq]
    simp only [Bool.false_eq_true, if_false]
    omega
  unfold vRow
  simp only [hLv, hcv, hsize, Bool.false_eq_true, if_false, RowShape.rowSize_mul, zero_mul,
    add_zero]
  refine mem_map.2 ⟨kvSize * v.rowSize * t, ?_, hmem⟩
  rw [mem_range'_1]
  omega

include h

lemma cell_reload (ht : t < src.cache.nStream) (u i : Nat) : (reload kvSize src t d).cache.cell u i =
      if u = t then (saved kvSize src t)[i]?.elim {} fun j =>
        { pos := (src.cache.cell t j).pos
          ext := if 1 < src.cache.nPosPerEmbd then (src.cache.cell t j).ext else {}
          seq := (src.cache.cell t j).seq } else {} := by
  have hnp : d.cache.nPosPerEmbd = src.cache.nPosPerEmbd := by rw [hd.params]
  have hlen : (savedCells kvSize src t).length ≤ kvSize := by
    rw [savedCells, length_map]
    exact length_saved_le
  have hcell := cell_loadMeta hd.dst (by rw [hd.params]; exact ht) hlen u i
  refine hcell.trans ?_
  congr 1
  rw [savedCells, getElem?_map, hnp]
  cases (saved kvSize src t)[i]? with
  | none => rfl
  | some j =>
    have hseq := toFinset_idsOf (h.ids t j)
    simp only [Option.map_some, Option.elim_some, metaCell, metaOf, hseq, Finset.union_empty]
    by_cases h1 : 1 < src.cache.nPosPerEmbd
    · simp [h1]
    · simp [h1]

lemma held_reload_of_ne (ht : t < src.cache.nStream) {u : Nat} (hu : u ≠ t) (q : SeqId) (p : Int) :
    (reload kvSize src t d).held u q p = [] := by
  unfold held
  rw [map_eq_nil_iff, filter_eq_nil_iff]
  intro i _
  rw [cell_reload h hd ht, if_neg hu]
  simp

lemma rows_reload (hfirst : src.cache.vTrans = false → (∃ L ∈ src.layers, L.v ≠ none) → t = 0) {j : Nat}
    (hij : (saved kvSize src t)[i]? = some j) :
    (reload kvSize src t d).rows t i = src.rows t j := by
  have hsh := sameShape_loadMeta (t := t) hd (savedCells kvSize src t)
  have hlay : (reload kvSize src t d).layers = src.layers := hsh.layers
  obtain ⟨hi, hj⟩ := List.getElem?_eq_some_iff.1 hij
  have hzip : (j, i) ∈ (saved kvSize src t).zip (List.range (saved kvSize src t).length) := by
    refine mem_iff_getElem?.2 ⟨i, ?_⟩
    rw [getElem?_zip_eq_some]
    exact ⟨hij, by simp [hi]⟩
  have hlt : ∀ i ∈ List.range (saved kvSize src t).length, i < kvSize := by
    intro i hi
    exact lt_of_lt_of_le (mem_range.1 hi) length_saved_le
  unfold rows
  rw [hlay]
  refine map_congr_left fun L hL => ?_
  have hmem := fst_mem_of_mem_zipIdx hL
  have hL' : (loadMeta t (savedCells kvSize src t) d).layers[L.2]? = some L.1 := by
    rw [hsh.layers]
    exact mem_zipIdx_iff_getElem?.1 hL
  refine Prod.ext (kRow_copyData hsh hL' nodup_range hzip) ?_
  refine vRow_copyData hsh h.layers hL' hlt nodup_range (fun hv hn => ?_) hzip
  have ht := hfirst hv ⟨L.1, hmem, hn⟩
  exact ⟨ht, ht⟩

omit hd in
lemma mem_saved_of_mem_seq (hi : i < kvSize) {q : SeqId}
    (hq : q ∈ (src.cache.cell t i).seq) : i ∈ saved kvSize src t := by
  refine mem_saved.2 ⟨hi, fun hp => ?_⟩
  rw [KvCache.cell, ((h.srcWf.inv t).empty i hp).1] at hq
  simp at hq

lemma held_reload (ht : t < src.cache.nStream)
    (hfirst : src.cache.vTrans = false → (∃ L ∈ src.layers, L.v ≠ none) → t = 0) (q : SeqId)
    (p : Int) : (reload kvSize src t d).held t q p = src.held t q p := by
  have hnp : (reload kvSize src t d).cache.nPosPerEmbd = src.cache.nPosPerEmbd :=
    congrArg KvParams.nPosPerEmbd (sameShape_reload hd).params
  have hsaved : src.held t q p = ((saved kvSize src t).filter fun i =>
      q ∈ (src.cache.cell t i).seq ∧ (src.cache.cell t i).pos = p).map (src.cellData t) := by
    unfold held
    rw [h.shape.src.size t ht, saved, filter_filter]
    congr 1
    refine filter_congr fun i hi => ?_
    by_cases hq : q ∈ (src.cache.cell t i).seq
    · have hmem := mem_saved_of_mem_seq h (mem_range.1 hi) hq
      rw [saved, mem_filter] at hmem
      simp [hmem.2]
    · simp [hq]
  rw [hsaved]
  unfold held
  rw [cellsOf_size_reload hd ht]
  refine map_filter_range _ length_saved_le (fun i => ?_) (fun i j hij _ => ?_)
  · rw [cell_reload h hd ht, if_pos rfl]
    cases (saved kvSize src t)[i]? with
    | none => simp
    | some j => rfl
  · unfold cellData
    rw [rows_reload h hd hfirst hij, cell_reload h hd ht, if_pos rfl, hij, hnp]
    by_cases h1 : 1 < src.cache.nPosPerEmbd
    · simp [h1]
    · simp [h1]

end Reload

section Main
variable {src dst : KvState} {kvSize : Nat}

lemma TripSetting.withData (h : TripSetting kvSize src dst) (k v : Nat → Mem) :
    TripSetting kvSize (src.withData k v) dst where
  shape := ⟨h.shape.params, h.shape.layers, h.shape.src, h.shape.dst⟩
  srcWf := h.srcWf
  paging := h.paging
  cells := ⟨h.cells.size, h.cells.streams, h.cells.pos, h.cells.ext⟩
  layers := ⟨h.layers.length, h.layers.each, h.layers.plain⟩
  ids := h.ids
  seqs := h.seqs

lemma mem_held {s : KvState} {t i : Nat} {q : SeqId} (hq : q ∈ (s.cache.cell t i).seq) :
    s.cellData t i ∈ s.held t q (s.cache.cell t i).pos := by
  refine mem_map_of_mem (mem_filter.2 ⟨?_, decide_eq_true ⟨hq, rfl⟩⟩)
  exact mem_range.2 (KvCells.lt_size_of_mem_seq hq)

section
variable (h : TripSetting kvSize src dst)
include h

lemma held_eq_nil {t : Nat} (hno : ¬ src.Occupied t) (q : SeqId)
    (p : Int) : src.held t q p = [] := by
  unfold held
  rw [map_eq_nil_iff, filter_eq_nil_iff]
  intro i _ hi
  have hq := (of_decide_eq_true hi).1
  refine hno ⟨i, fun hp => ?_⟩
  rw [KvCache.cell, ((h.srcWf.inv t).empty i hp).1] at hq
  simp at hq

lemma stateRead_cases (hw : ∀ t < src.cache.nStream, src.NoWrap none t) :
    (stateRead none ⟨src.stateWrite none, dst⟩ = .ok () ⟨[], dst⟩ ∧ ∀ t, ¬ src.Occupied t) ∨
    ∃ t < src.cache.nStream, src.Occupied t ∧ ∃ d, SameShape kvSize src d ∧
      stateRead none ⟨src.stateWrite none, dst⟩ = .ok () ⟨[], reload kvSize src t d⟩ := by
  have hread := consumes_stateRead h.shape h.cells h.layers hw h.paging []
  rw [append_nil] at hread
  obtain ⟨hst, hall⟩ | ⟨t, ht, hne, d, hd, hst⟩ := foldl_reloadStep h.shape src.cache.nStream
  · refine .inl ⟨by rw [hread, hst], fun t hocc => ?_⟩
    have ht := hocc.lt h.shape.src
    refine (saved_ne_nil_iff h.shape.src ht).2 hocc ?_
    exact length_eq_zero_iff.1 (hall t ht)
  · refine .inr ⟨t, ht, ?_, d, hd, by rw [hread, hst]⟩
    refine (saved_ne_nil_iff h.shape.src ht).1 fun hnil => hne ?_
    rw [hnil]
    rfl

lemma eq_of_roundTrips {t : Nat} {d : KvState}
    (hd : SameShape kvSize src d) (ht : t < src.cache.nStream)
    (hheld : ∀ u q p, ((reload kvSize src t d).held u q p).Perm (src.held u q p)) {u : Nat}
    (hu : src.Occupied u) : u = t := by
  by_contra hne
  obtain ⟨i, hi⟩ := hu
  obtain ⟨q, hq⟩ := Finset.nonempty_iff_ne_empty.2 (h.seqs u i hi)
  have hperm := hheld u q (src.cache.cell u i).pos
  rw [held_reload_of_ne h hd ht hne] at hperm
  have hnil := hperm.nil_eq
  have hmem := mem_held hq
  rw [← hnil] at hmem
  simp at hmem

lemma noWrap_of_roundTrips (hall : ∀ k v, RoundTrips (src.withData k v) dst) :
    ∀ t < src.cache.nStream, src.NoWrap none t := by
  intro t ht
  by_contra hwrap
  obtain ⟨v₁, v₂, last, hlast, hwrite, hrow⟩ := exists_same_write h.shape.src h.layers ht hwrap
  obtain ⟨d₁, hok₁, hheld₁⟩ := hall src.k v₁
  obtain ⟨d₂, hok₂, hheld₂⟩ := hall src.k v₂
  rw [hwrite, hok₁] at hok₂
  cases hok₂
  have hpos : (src.cache.cell t last).pos ≠ -1 := by simpa [saves, KvCells.isEmpty, KvCache.cell] using hlast
  obtain ⟨q, hq⟩ := Finset.nonempty_iff_ne_empty.2 (h.seqs t last hpos)
  have hmem := mem_held (s := src.withData src.k v₂) hq
  obtain ⟨i, -, hi⟩ := mem_map.1 (((hheld₂ t q _).symm.trans (hheld₁ t q _)).subset hmem)
  have hrows : (src.withData src.k v₁).rows t i = (src.withData src.k v₂).rows t last := (Prod.mk.inj hi).2
  obtain ⟨L, hL, hne⟩ := hrow i
  exact hne (vRow_eq_of_rows_eq hrows rfl L hL)

lemma eq_zero_of_roundTrips (hv : src.cache.vTrans = false)
    (hw : ∀ t < src.cache.nStream, src.NoWrap none t) (hones : src.v = fun _ _ => 1) {l : LayerShape} (hl : l ∈ src.layers) (hlv : l.v ≠ none)
    (hall : RoundTrips src dst) {u : Nat} (hu : src.Occupied u) : u = 0 := by
  obtain ⟨dst', hok, hheld⟩ := hall
  obtain ⟨_, hno⟩ | ⟨t, ht, hocc, d, hd, hread⟩ := stateRead_cases h hw
  · exact absurd hu (hno u)
  rw [hread] at hok
  cases hok
  rw [eq_of_roundTrips h hd ht hheld hu]
  by_contra hpos
  obtain ⟨v, hlv⟩ := Option.ne_none_iff_exists'.1 hlv
  obtain ⟨il, hil⟩ := getElem?_of_mem hl
  have hne := (saved_ne_nil_iff h.shape.src ht).2 hocc
  obtain ⟨j, hj⟩ : ∃ j, (saved kvSize src t)[0]? = some j :=
    ⟨_, getElem?_eq_getElem (length_pos_iff.2 hne)⟩
  have hsaved := (mem_saved.1 (mem_of_getElem? hj)).2
  obtain ⟨q, hq⟩ := Finset.nonempty_iff_ne_empty.2 (h.seqs t j hsaved)
  have hcell : q ∈ ((reload kvSize src t d).cache.cell t 0).seq := by
    rw [cell_reload h hd ht, if_pos rfl, hj]
    exact hq
  -- cell 0 is the restored form of some saved cell, whose V row has ones only
  obtain ⟨i, _, hi⟩ := mem_map.1 ((hheld t q _).subset (mem_held hcell))
  have hrows : src.rows t i = (reload kvSize src t d).rows t 0 := (Prod.mk.inj hi).2
  have hrow : src.vRow (l, il) t i = (reload kvSize src t d).vRow (l, il) t 0 :=
    vRow_eq_of_rows_eq hrows hd.layers.symm (l, il) (mem_zipIdx_iff_getElem?.2 hil)
  have hzero : 0 ∈ (reload kvSize src t d).vRow (l, il) t 0 :=
    zero_mem_vRow_reload hd hv (pos_of_ne_zero hpos) hil hlv
  rw [← hrow] at hzero
  exact absurd (eq_of_mem_vRow hones hzero) (by decide)

end

/-- The round trip works for all tensor contents exactly for these caches. -/
theorem roundTrips_iff (h : TripSetting kvSize src dst) :
    (∀ k v, RoundTrips (src.withData k v) dst) ↔ TripOk src dst := by
  constructor
  · intro hall
    have hw := noWrap_of_roundTrips h hall
    have hself : RoundTrips src dst := hall src.k src.v
    obtain ⟨dst', hok, hheld⟩ := hself
    obtain ⟨hread, hno⟩ | ⟨t, ht, hocc, d, hd, hread⟩ := stateRead_cases h hw
    · rw [hread] at hok
      cases hok
      refine ⟨fun t _ ht => absurd ht (hno t), fun _ _ t ht => absurd ht (hno t), fun _ t i => ?_, hw⟩
      by_contra hne
      obtain ⟨q, hq⟩ := Finset.nonempty_iff_ne_empty.2 hne
      have hmem := (hheld t q _).subset (mem_held hq)
      rw [held_eq_nil h (hno t)] at hmem
      simp at hmem
    · rw [hread] at hok
      cases hok
      have hone : ∀ u, src.Occupied u → u = t := fun u => eq_of_roundTrips h hd ht hheld
      refine ⟨fun u w hu hw' => (hone u hu).trans (hone w hw').symm, ?_, fun hno => absurd hocc (hno t), hw⟩
      rintro hv ⟨l, hl, hlv⟩ u hu
      exact eq_zero_of_roundTrips (h.withData src.k fun _ _ => 1) hv hw rfl hl hlv (hall _ _) hu
  · intro hok k v
    have hdata := h.withData k v
    obtain ⟨hread, hno⟩ | ⟨t, ht, hocc, d, hd, hread⟩ := stateRead_cases hdata hok.noWrap
    · refine ⟨dst, hread, fun t q p => ?_⟩
      have hdst : dst.held t q p = [] := by
        unfold held
        rw [map_eq_nil_iff, filter_eq_nil_iff]
        intro i _
        simp [hok.none hno t i]
      rw [hdst, held_eq_nil hdata (hno t)]
    · refine ⟨_, hread, fun u q p => ?_⟩
      by_cases hu : u = t
      · subst hu
        rw [held_reload hdata hd ht fun hv hl => hok.first hv hl u hocc]
      · rw [held_reload_of_ne hdata hd ht hu, held_eq_nil hdata fun hu' => hu (hok.one u t hu' hocc)]

end Main

end KvState

namespace Small
open KvState DryRun

/-- A token of sequence 0 in stream 0 and one of sequence 1 in stream 1. -/
@[irreducible] def two : KvState := put (put (empty false) 0 0) 1 1

lemma computed_two : (empty false).cache.findSlot (token 0) false = .ok (some (cellZero 0)) ∧
    (put (empty false) 0 0).cache.findSlot (token 1) false = .ok (some (cellZero 1)) ∧
    (∀ t < 2, ∀ i < 4, CellOk (two.cache.cell t i)) ∧
    (two.cache.cell 0 0).pos = 0 ∧ (two.cache.cell 1 0).pos = 0 := by
  decide +kernel

lemma tripSetting {st : KvState} (hst : KvCache.Steady 4 st.cache) {unified : Bool}
    (hparams : st.cache.toKvParams = (empty unified).cache.toKvParams) (hlayers : st.layers = [layer])
    (hcells : ∀ t i, CellOk (st.cache.cell t i)) : TripSetting 4 st st where
  shape := ⟨rfl, rfl, hst.wf.shape, hst.wf.shape⟩
  srcWf := hst.wf
  paging := by rw [hparams]; rfl
  cells := cellsFit hcells (by rw [hparams]; cases unified <;> decide)
  layers := layersFit hlayers
  ids t i q hq := by
    rw [hparams]
    exact (hcells t i).2.1 q hq
  seqs t i := (hcells t i).2.2

lemma layers_two : two.layers = [layer] := by
  unfold two
  rfl

lemma tripSetting_two : TripSetting 4 two two := by
  obtain ⟨hslot0, hslot1, hcells, _⟩ := computed_two
  have hp0 := placed_put (steady_empty false) hslot0
  have hp1 : KvCache.Placed 4 (cellZero 1) (put (empty false) 0 0).cache two.cache := by
    unfold two
    exact placed_put hp0.steady hslot1
  have hparams := hp1.params.trans hp0.params
  refine tripSetting hp1.steady hparams layers_two (cellOk_all hp1.steady.wf.shape ?_)
  rw [hparams]
  exact hcells

end Small

open Small in
/-- A cache with one occupied stream and transposed V tensors comes back, whatever its tensors hold. -/
theorem KvState.roundTrips_iff_one : TripSetting 4 one one ∧ ∀ k v, RoundTrips (one.withData k v) one := by
  obtain ⟨_, _, _, h0, _⟩ := computed
  have hset : TripSetting 4 one one :=
    tripSetting placed_one.steady placed_one.params layers_one cellOk_one
  have hzero : ∀ t, one.Occupied t → t = 0 := by
    intro t ht
    have hlt := ht.lt hset.shape.src
    rw [placed_one.params] at hlt
    exact Nat.lt_one_iff.1 hlt
  refine ⟨hset, (roundTrips_iff hset).2 ⟨fun t u ht hu => (hzero t ht).trans (hzero u hu).symm,
    fun _ _ => hzero, fun hno => absurd ⟨0, fun hp => ?_⟩ (hno 0),
    fun t ht => noWrap_small layers_one (hset.shape.src.size t ht) _⟩⟩
  have hmem : 0 ∈ one.holders 0 := by rw [h0]; exact mem_singleton_self 0
  have hq := (mem_holders hset.shape.src).1 hmem
  rw [KvCache.cell, ((hset.srcWf.inv 0).empty 0 hp).1] at hq
  simp at hq

open Small in
/-- With two occupied streams one of them is lost. -/
theorem KvState.roundTrip_loses_stream : ¬ ∀ (kvSize : Nat) (src dst : KvState),
    TripSetting kvSize src dst → RoundTrips src dst := by
  intro hall
  obtain ⟨_, _, _, h0, h1⟩ := computed_two
  have hocc0 : two.Occupied 0 := ⟨0, by rw [h0]; decide⟩
  have hocc1 : two.Occupied 1 := ⟨0, by rw [h1]; decide⟩
  obtain ⟨dst', hok, hheld⟩ := hall 4 two two tripSetting_two
  obtain ⟨_, hno⟩ | ⟨t, ht, hocc, d, hd, hread⟩ := stateRead_cases tripSetting_two
    fun t ht => noWrap_small layers_two (tripSetting_two.shape.src.size t ht) _
  · exact hno 0 hocc0
  · rw [hread] at hok
    cases hok
    have e0 := eq_of_roundTrips tripSetting_two hd ht hheld hocc0
    have e1 := eq_of_roundTrips tripSetting_two hd ht hheld hocc1
    omega

end Mallana
