import Mallana.State.Data

/-!
# The bytes that are saved

Which bytes of the tensors `state_write` reads. Two caches with the same cells give the same output exactly if
they agree on these bytes (`SameMeta.stateWrite_eq_iff`). Where an offset of a transposed V tensor wraps
around, the last element of the last saved cell is not among them (`notMem_vOffs`), so that two caches with
different rows give the same output (`exists_same_write`).
-/

namespace Mallana

open Lib List

namespace KvState

open KvCache Mem

/-- The bytes of the rows `is`, counted from the start of a stream. -/
def rowOffs (row : Nat) (is : List Nat) : List Nat := is.flatMap fun i => List.range' (i * row) row

/-- The bytes of the ranges of cells in a transposed V tensor, counted from the start of a stream. -/
def elemOffs (v : VShape) (size : Nat) (ranges : List (Nat × Nat)) : List Nat :=
  (List.range v.nEmbdGqa).flatMap fun j => ranges.flatMap fun r =>
    List.range' (u32 ((r.1 + j * size) * v.ty.typeSize)) ((r.2 - r.1) * v.ty.typeSize)

/-- The cells of a stream that `state_write` saves. -/
def savedIn (st : KvState) (seq : Option SeqId) (t : Nat) : List Nat :=
  (List.range (st.cache.cellsOf t).size).filter (saves (st.cache.cellsOf t) seq)

/-- The ranges of `savedIn`. -/
abbrev savedRanges (st : KvState) (seq : Option SeqId) (t : Nat) : List (Nat × Nat) :=
  cellRanges (saves (st.cache.cellsOf t) seq) (st.cache.cellsOf t).size

/-- The bytes of a K tensor that `state_write` saves. -/
def kOffs (st : KvState) (seq : Option SeqId) (t : Nat) (r : RowShape) : List Nat :=
  rowOffs r.rowSize (st.savedIn seq t)

/-- The bytes of a V tensor that `state_write` saves. -/
def vOffs (st : KvState) (seq : Option SeqId) (t : Nat) (v : VShape) : List Nat :=
  if st.cache.vTrans then elemOffs v (st.cache.cellsOf t).size (st.savedRanges seq t)
  else rowOffs v.rowSize (st.savedIn seq t)

/-- A byte of stream `t` of a K tensor. -/
def kByte (st : KvState) (L : LayerShape × Nat) (t p : Nat) : UInt8 :=
  st.k L.2 (kBase L.1.k st.cache.getSize st.cache.nStream t + p)

/-- A byte of stream `t` of a V tensor. -/
def vByte (st : KvState) (v : VShape) (il t p : Nat) : UInt8 :=
  st.v il (vBase st.cache.vTrans v.toRowShape st.cache.getSize st.cache.nStream t + p)

section Bytes
variable {kvSize t : Nat} {st st' : KvState} {seq : Option SeqId} {L : LayerShape × Nat}

lemma readRows_eq_map (m : Mem) (base row : Nat) (is : List Nat) :
    m.readRows base row is = (rowOffs row is).map fun p => m (base + p) := by
  unfold readRows rowOffs
  rw [map_flatMap]
  congr 1
  funext i
  exact read_add_eq_map m base _ row

lemma writeK_eq (hs : Shape kvSize st.cache) (ht : t < st.cache.nStream) :
    st.writeK t (st.savedRanges seq t) L =
      i32Bytes L.1.k.id ++ (leBytes 8 L.1.k.rowSize ++ (st.kOffs seq t L.1.k).map (st.kByte L t)) := by
  unfold writeK
  simp only []
  rw [flatMap_read_ranges, readRows_eq_map]
  unfold kOffs savedIn kByte
  rw [getSize_eq hs, hs.size t ht]

lemma writeVPart_eq (seq : Option SeqId) (hs : Shape kvSize st.cache) (ht : t < st.cache.nStream)
    {v : VShape} (hv : L.1.v = some v) : ∃ head, (if st.cache.vTrans then st.writeVTrans t else st.writeV t) (st.savedRanges seq t) L =
      head ++ (st.vOffs seq t v).map (st.vByte v L.2 t) ∧
    head = i32Bytes v.id ++ (if st.cache.vTrans then leBytes 4 v.ty.typeSize ++ leBytes 4 v.nEmbdGqa
      else leBytes 8 v.rowSize) := by
  refine ⟨_, ?_, rfl⟩
  unfold vOffs vByte
  rw [getSize_eq hs]
  cases htr : st.cache.vTrans with
  | true =>
    simp only [if_true, writeVTrans, hv, elemOffs, map_flatMap, append_assoc]
    congr 4
    funext j
    congr 1
    funext r
    rw [read_add_eq_map, hs.size t ht]
  | false =>
    simp only [Bool.false_eq_true, if_false, writeV, hv, append_assoc]
    rw [flatMap_read_ranges, readRows_eq_map, hs.size t ht]
    unfold savedIn
    rw [hs.size t ht]

lemma length_writeK (hs : Shape kvSize st.cache) (ht : t < st.cache.nStream) :
    (st.writeK t (st.savedRanges seq t) L).length =
      12 + (st.kOffs seq t L.1.k).length := by
  rw [writeK_eq hs ht]
  simp only [length_append, length_i32Bytes, length_leBytes, length_map]
  omega

lemma cellRanges_eq_nil {ok : Nat → Bool} {size : Nat} (h : ∀ i < size, ok i = false) :
    cellRanges ok size = [] := by
  have hfold : (List.range size).foldl (rangeStep ok size) ([], size) = ([], size) := by
    refine List.foldlRecOn (motive := fun acc => acc = ([], size)) _ _ rfl ?_
    intro acc hacc i hi
    rw [hacc]
    unfold rangeStep
    rw [h i (mem_range.1 hi)]
    simp
  unfold cellRanges
  simp only [hfold]
  simp

end Bytes

/-- The two caches save the same cells with the same metadata. -/
structure SameMeta (st st' : KvState) : Prop where
  params : st'.cache.toKvParams = st.cache.toKvParams
  layers : st'.layers = st.layers
  size : ∀ t, (st'.cache.cellsOf t).size = (st.cache.cellsOf t).size
  cell : ∀ t i, ∃ d, st'.cache.cell t i = { st.cache.cell t i with shift := d }

def SameBytes (st st' : KvState) (seq : Option SeqId) (t : Nat) (L : LayerShape × Nat) : Prop :=
  (∀ p ∈ st.kOffs seq t L.1.k, st'.kByte L t p = st.kByte L t p) ∧
    ∀ v, L.1.v = some v → ∀ p ∈ st.vOffs seq t v, st'.vByte v L.2 t p = st.vByte v L.2 t p

section Same
variable {kvSize t : Nat} {st st' : KvState} {seq : Option SeqId} {L : LayerShape × Nat}

section
variable (h : SameMeta st st')
include h

lemma SameMeta.saves_eq (seq : Option SeqId) (t : Nat) :
    saves (st'.cache.cellsOf t) seq = saves (st.cache.cellsOf t) seq := by
  funext i
  obtain ⟨d, hd⟩ := h.cell t i
  unfold KvCache.cell at hd
  simp only [saves, KvCells.isEmpty, KvCells.seqHas, hd]

lemma SameMeta.writeCell_eq (seq : Option SeqId) (t i : Nat) :
    writeCell st'.cache (st'.cache.cellsOf t) seq i = writeCell st.cache (st.cache.cellsOf t) seq i := by
  obtain ⟨d, hd⟩ := h.cell t i
  unfold KvCache.cell at hd
  simp only [writeCell, savedIds, KvCells.posGet, KvCells.extGet, KvCells.seqHas, hd, h.params]

lemma SameMeta.savedIn_eq (seq : Option SeqId) (t : Nat) : st'.savedIn seq t = st.savedIn seq t := by
  unfold savedIn
  rw [h.saves_eq, h.size]

lemma SameMeta.savedRanges_eq (seq : Option SeqId) (t : Nat) : st'.savedRanges seq t = st.savedRanges seq t := by
  unfold savedRanges
  rw [h.saves_eq, h.size]

lemma SameMeta.kOffs_eq (seq : Option SeqId) (t : Nat) (r : RowShape) : st'.kOffs seq t r = st.kOffs seq t r := by
  unfold kOffs
  rw [h.savedIn_eq]

lemma SameMeta.vOffs_eq (seq : Option SeqId) (t : Nat) (v : VShape) : st'.vOffs seq t v = st.vOffs seq t v := by
  unfold vOffs
  rw [h.savedIn_eq, h.savedRanges_eq, h.size, h.params]

lemma SameMeta.writeK_eq_iff (hs : Shape kvSize st.cache)
    (hs' : Shape kvSize st'.cache) (ht : t < st.cache.nStream) :
    st'.writeK t (st'.savedRanges seq t) L =
      st.writeK t (st.savedRanges seq t) L ↔
    ∀ p ∈ st.kOffs seq t L.1.k, st'.kByte L t p = st.kByte L t p := by
  rw [writeK_eq hs ht, writeK_eq hs' (by rw [h.params]; exact ht), h.kOffs_eq]
  rw [append_cancel_left_eq, append_cancel_left_eq, map_inj_left]

end

abbrev writeVPart (st : KvState) (seq : Option SeqId) (t : Nat) (L : LayerShape × Nat) : List UInt8 :=
  (if st.cache.vTrans then st.writeVTrans t else st.writeV t) (st.savedRanges seq t) L

lemma SameMeta.writeV_eq_iff (h : SameMeta st st') (hs : Shape kvSize st.cache)
    (hs' : Shape kvSize st'.cache) (ht : t < st.cache.nStream) :
    (st'.writeVPart seq t L).length = (st.writeVPart seq t L).length ∧
    (st'.writeVPart seq t L = st.writeVPart seq t L ↔
      ∀ v, L.1.v = some v → ∀ p ∈ st.vOffs seq t v, st'.vByte v L.2 t p = st.vByte v L.2 t p) := by
  cases hv : L.1.v with
  | none =>
    have hnil : ∀ d : KvState, d.writeVPart seq t L = [] := by
      intro d
      unfold writeVPart
      split <;> simp [writeVTrans, writeV, hv]
    rw [hnil, hnil]
    simp
  | some v =>
    obtain ⟨head, heq, hhead⟩ := writeVPart_eq seq hs ht hv
    obtain ⟨head', heq', hhead'⟩ := writeVPart_eq seq hs' (by rw [h.params]; exact ht) hv
    obtain rfl : head' = head := by rw [hhead, hhead', h.params]
    unfold writeVPart
    rw [heq, heq', h.vOffs_eq, append_cancel_left_eq, map_inj_left]
    simp

def savedData (st : KvState) (seq : Option SeqId) (t : Nat) : List UInt8 :=
  st.stateWriteData t (st.savedRanges seq t)

lemma SameMeta.data_eq_iff (h : SameMeta st st') (seq : Option SeqId) (hs : Shape kvSize st.cache)
    (hs' : Shape kvSize st'.cache) (ht : t < st.cache.nStream) (hpg : st.cache.pgEnabled = false) :
    (st'.savedData seq t).length = (st.savedData seq t).length ∧ (st'.savedData seq t = st.savedData seq t ↔
        ∀ L ∈ st.layers.zipIdx, SameBytes st st' seq t L) := by
  have hform : ∀ d : KvState, d.cache.pgEnabled = false →
      d.savedData seq t = leBytes 4 (if d.cache.vTrans then 1 else 0) ++ (leBytes 4 d.layers.length ++
          (d.layers.zipIdx.flatMap (d.writeK t (d.savedRanges seq t)) ++
            d.layers.zipIdx.flatMap (d.writeVPart seq t))) := by
    intro d hd
    unfold savedData stateWriteData
    rw [hd]
    simp only [Bool.false_eq_true, if_false]
    congr 3
    split
    · rename_i hv
      congr 1
      funext L
      simp only [writeVPart, hv, if_true]
    · rename_i hv
      congr 1
      funext L
      simp only [writeVPart, hv]
      rfl
  have hlenK : ∀ L ∈ st.layers.zipIdx,
      (st'.writeK t (st'.savedRanges seq t) L).length =
      (st.writeK t (st.savedRanges seq t) L).length := by
    intro L _
    rw [length_writeK hs ht, length_writeK hs' (by rw [h.params]; exact ht), h.kOffs_eq]
  have hsum : ∀ {f g : LayerShape × Nat → List UInt8}, (∀ L ∈ st.layers.zipIdx, (f L).length = (g L).length) →
        (st.layers.zipIdx.flatMap f).length = (st.layers.zipIdx.flatMap g).length := by
    intro f g hfg
    rw [length_flatMap, length_flatMap]
    congr 1
    exact map_congr_left hfg
  have hlenV : ∀ L ∈ st.layers.zipIdx, (st'.writeVPart seq t L).length = (st.writeVPart seq t L).length :=
    fun L _ => (h.writeV_eq_iff hs hs' ht).1
  rw [hform st hpg, hform st' (by rw [h.params]; exact hpg), h.params, h.layers,
    append_cancel_left_eq, append_cancel_left_eq]
  refine ⟨by simp only [length_append, hsum hlenK, hsum hlenV], ?_⟩
  have hsplit : ∀ {a b c d : List UInt8}, a.length = c.length → (a ++ b = c ++ d ↔ a = c ∧ b = d) := by
    intro a b c d hlen
    constructor
    · exact fun e => append_inj e hlen
    · rintro ⟨rfl, rfl⟩
      rfl
  rw [hsplit, flatMap_eq_flatMap_iff hlenK, flatMap_eq_flatMap_iff hlenV, ← forall₂_and]
  · refine forall₂_congr fun L _ => ?_
    rw [h.writeK_eq_iff hs hs' ht, (h.writeV_eq_iff hs hs' ht).2]
    rfl
  · exact hsum hlenK

lemma SameMeta.writeStream_eq_iff (h : SameMeta st st') (seq : Option SeqId)
    (hs : Shape kvSize st.cache) (hs' : Shape kvSize st'.cache) (ht : t < st.cache.nStream) (hpg : st.cache.pgEnabled = false) :
    (st'.writeStream seq t).length = (st.writeStream seq t).length ∧
      (st'.writeStream seq t = st.writeStream seq t ↔ ∀ L ∈ st.layers.zipIdx, SameBytes st st' seq t L) := by
  have hmeta : stateWriteMeta st'.cache t (st'.savedRanges seq t) seq =
      stateWriteMeta st.cache t (st.savedRanges seq t) seq := by
    unfold stateWriteMeta
    rw [h.savedRanges_eq, funext (h.writeCell_eq seq t)]
  obtain ⟨hlen, hdata⟩ := h.data_eq_iff seq hs hs' ht hpg
  unfold savedData at hlen hdata
  unfold writeStream
  simp only []
  rw [hmeta]
  simp only [savedRanges, h.saves_eq, h.size] at hlen hdata ⊢
  by_cases h0 : (List.range (st.cache.cellsOf t).size).countP (saves (st.cache.cellsOf t) seq) = 0
  · refine ⟨by simp [h0], iff_of_true (by simp [h0]) fun L _ => ?_⟩
    rw [countP_eq_zero] at h0
    have hnone : st.savedIn seq t = [] := filter_eq_nil_iff.2 h0
    have hranges : st.savedRanges seq t = [] :=
      cellRanges_eq_nil fun i hi => Bool.eq_false_of_not_eq_true (h0 i (mem_range.2 hi))
    simp [SameBytes, kOffs, vOffs, rowOffs, elemOffs, hnone, hranges]
  · simp only [h0, if_false, append_cancel_left_eq, length_append, hlen, true_and]
    exact hdata

lemma SameMeta.stateWrite_eq_iff (h : SameMeta st st') (hs : Shape kvSize st.cache)
    (hs' : Shape kvSize st'.cache) : st'.stateWrite seq = st.stateWrite seq ↔ st.cache.pgEnabled = true ∨
      ∀ t < st.cache.nStream, ∀ L ∈ st.layers.zipIdx, SameBytes st st' seq t L := by
  cases hpg : st.cache.pgEnabled with
  | true =>
    unfold stateWrite
    rw [h.params, hpg]
    simp
  | false =>
    rw [or_iff_right (by decide)]
    unfold stateWrite
    rw [h.params, hpg]
    simp only [Bool.false_eq_true, if_false]
    have hstream : ∀ t ∈ List.range st.cache.nStream, _ := fun t ht =>
      h.writeStream_eq_iff (t := t) seq hs hs' (mem_range.1 ht) hpg
    rw [append_cancel_left_eq, flatMap_eq_flatMap_iff fun t ht => (hstream t ht).1]
    constructor
    · exact fun hall t ht => (hstream t (mem_range.2 ht)).2.1 (hall t (mem_range.2 ht))
    · exact fun hall t ht => (hstream t ht).2.2 (hall t (mem_range.1 ht))

end Same

section Offsets
variable {kvSize t p : Nat} {st : KvState} {seq : Option SeqId} {v : VShape}

lemma lt_of_mem_rowOffs {row : Nat} {is : List Nat} (his : ∀ i ∈ is, i < kvSize)
    (hp : p ∈ rowOffs row is) : p < kvSize * row := by
  obtain ⟨i, hi, hp⟩ := mem_flatMap.1 hp
  rw [mem_range'_1] at hp
  have hmul := Nat.mul_le_mul_right row (Nat.succ_le_of_lt (his i hi))
  rw [Nat.succ_mul] at hmul
  omega

section
variable (hs : Shape kvSize st.cache) (ht : t < st.cache.nStream)
include hs ht

lemma lt_of_mem_savedIn {i : Nat} (hi : i ∈ st.savedIn seq t) : i < kvSize := by
  have h := mem_range.1 (mem_of_mem_filter hi)
  rwa [hs.size t ht] at h

lemma lt_of_mem_kOffs {r : RowShape} (hp : p ∈ st.kOffs seq t r) : p < kvSize * r.rowSize :=
  lt_of_mem_rowOffs (fun _ hi => lt_of_mem_savedIn hs ht hi) hp

lemma lt_of_mem_vOffs
    (htr : st.cache.vTrans = true → v.ty.blckSize = 1) (hp : p ∈ st.vOffs seq t v) : p < kvSize * v.rowSize := by
  unfold vOffs at hp
  split at hp
  · rename_i hv
    have hrow : v.nEmbdGqa * v.ty.typeSize ≤ v.rowSize := by
      rw [RowShape.rowSize_eq, htr hv, Nat.div_one, mul_comm]
      exact Nat.mul_le_mul_left _ v.nEmbdGqa_le
    obtain ⟨j, hj, hp⟩ := mem_flatMap.1 hp
    obtain ⟨r, hr, hp⟩ := mem_flatMap.1 hp
    rw [mem_range] at hj
    rw [mem_range'_1, hs.size t ht] at hp
    rw [savedRanges, hs.size t ht] at hr
    -- the range is not empty, so its last cell is one of the saved cells
    have hlt : r.1 < r.2 := by
      by_contra hle
      rw [Nat.sub_eq_zero_of_le (Nat.le_of_not_lt hle), Nat.zero_mul] at hp
      omega
    have hlast : r.2 - 1 < kvSize := by
      have hmem : r.2 - 1 ∈ (List.range kvSize).filter (saves (st.cache.cellsOf t) seq) := by
        rw [← flatMap_cellRanges, mem_flatMap]
        refine ⟨r, hr, ?_⟩
        rw [mem_range'_1]
        omega
      exact mem_range.1 (mem_of_mem_filter hmem)
    have hu : u32 ((r.1 + j * kvSize) * v.ty.typeSize) ≤ (r.1 + j * kvSize) * v.ty.typeSize :=
      Nat.mod_le _ _
    calc p < (r.1 + j * kvSize) * v.ty.typeSize + (r.2 - r.1) * v.ty.typeSize := by omega
      _ = (r.1 + j * kvSize + (r.2 - r.1)) * v.ty.typeSize := (add_mul _ _ _).symm
      _ ≤ ((j + 1) * kvSize) * v.ty.typeSize := by
        refine Nat.mul_le_mul_right _ ?_
        rw [Nat.succ_mul]
        omega
      _ ≤ (v.nEmbdGqa * kvSize) * v.ty.typeSize :=
        Nat.mul_le_mul_right _ (Nat.mul_le_mul_right _ hj)
      _ = kvSize * (v.nEmbdGqa * v.ty.typeSize) := by ring
      _ ≤ kvSize * v.rowSize := Nat.mul_le_mul_left _ hrow
  · exact lt_of_mem_rowOffs (fun _ hi => lt_of_mem_savedIn hs ht hi) hp

/-- Where an offset wraps around, the last element of the last saved cell is not read. -/
lemma notMem_vOffs (htr : st.cache.vTrans = true)
    (hel : v.ty.typeSize < 256 ^ 4) {i j last : Nat} (hi : Begins (saves (st.cache.cellsOf t) seq) i)
    (hj : j < v.nEmbdGqa) (hwrap : 4294967296 ≤ (i + j * kvSize) * v.ty.typeSize)
    (hmax : ∀ x, saves (st.cache.cellsOf t) seq x = true → x ≤ last) :
    (last + (v.nEmbdGqa - 1) * kvSize) * v.ty.typeSize ∉ st.vOffs seq t v := by
  unfold vOffs elemOffs
  rw [if_pos htr, savedRanges, hs.size t ht]
  intro hmem
  obtain ⟨j', hj', hmem⟩ := mem_flatMap.1 hmem
  obtain ⟨r, hr, hmem⟩ := mem_flatMap.1 hmem
  rw [mem_range] at hj'
  rw [mem_range'_1] at hmem
  have hlt : r.1 < r.2 := by
    by_contra hle
    rw [Nat.sub_eq_zero_of_le (Nat.le_of_not_lt hle), Nat.zero_mul] at hmem
    omega
  have hcells : ∀ x, r.1 ≤ x → x < r.2 → x < kvSize ∧ saves (st.cache.cellsOf t) seq x = true := by
    intro x hx hx'
    have hx : x ∈ (cellRanges (saves (st.cache.cellsOf t) seq) kvSize).flatMap rangeCells :=
      mem_flatMap.2 ⟨r, hr, mem_range'_1.2 ⟨hx, by omega⟩⟩
    rw [flatMap_cellRanges, mem_filter, mem_range] at hx
    exact hx
  obtain ⟨hsize, hsaved⟩ := hcells (r.2 - 1) (by omega) (by omega)
  have hend : r.2 ≤ last + 1 := by
    have hle := hmax _ hsaved
    omega
  have hu : u32 ((r.1 + j' * kvSize) * v.ty.typeSize) ≤ (r.1 + j' * kvSize) * v.ty.typeSize := Nat.mod_le _ _
  have hsum : (r.1 + j' * kvSize) * v.ty.typeSize + (r.2 - r.1) * v.ty.typeSize =
      (r.2 + j' * kvSize) * v.ty.typeSize := by
    rw [← add_mul]
    congr 1
    omega
  -- the range ends before the element, unless it is the last range in the last row of elements
  have hstop : last + (v.nEmbdGqa - 1) * kvSize < r.2 + j' * kvSize := by
    by_contra hle
    have hmul := Nat.mul_le_mul_right v.ty.typeSize (Nat.le_of_not_lt hle)
    omega
  have hrow : j' = v.nEmbdGqa - 1 := by
    by_contra hne
    have hmul : (j' + 1) * kvSize ≤ (v.nEmbdGqa - 1) * kvSize := Nat.mul_le_mul_right _ (by omega)
    rw [Nat.succ_mul] at hmul
    omega
  subst hrow
  have hir : i ≤ r.1 := by
    by_contra hlt'
    obtain ⟨-, hgap⟩ := hcells (i - 1) (by omega) (by have hle := hmax i hi.1; omega)
    obtain h0 | hno := hi.2
    · omega
    · rw [hno] at hgap
      cases hgap
  have hoff : (i + j * kvSize) * v.ty.typeSize ≤ (r.1 + (v.nEmbdGqa - 1) * kvSize) * v.ty.typeSize := by
    refine Nat.mul_le_mul_right _ (add_le_add hir (Nat.mul_le_mul_right _ (by omega)))
  have hwrapped : u32 ((r.1 + (v.nEmbdGqa - 1) * kvSize) * v.ty.typeSize) + 4294967296 ≤
      (r.1 + (v.nEmbdGqa - 1) * kvSize) * v.ty.typeSize := by
    unfold u32
    omega
  have hlast : (r.2 + (v.nEmbdGqa - 1) * kvSize) * v.ty.typeSize ≤
      (last + (v.nEmbdGqa - 1) * kvSize) * v.ty.typeSize + v.ty.typeSize := by
    rw [← Nat.succ_mul]
    exact Nat.mul_le_mul_right _ (by omega)
  omega

end

end Offsets

def withData (st : KvState) (k v : Nat → Mem) : KvState := { st with k := k, v := v }

/-- One byte of the V tensor of layer `il` is 1 and all others are 0. -/
def marked (il p : Nat) : Nat → Mem := fun il' p' => if il' = il ∧ p' = p then 1 else 0

lemma eq_of_mem_vRow {st : KvState} {x c : UInt8} (hconst : st.v = fun _ _ => c) {L : LayerShape × Nat} {t i : Nat}
    (hx : x ∈ st.vRow L t i) : x = c := by
  unfold vRow at hx
  cases hv : L.1.v with
  | none => simp [hv] at hx
  | some v =>
    simp only [hv, hconst, Mem.read] at hx
    split at hx
    · obtain ⟨j, -, hx⟩ := mem_flatMap.1 hx
      obtain ⟨_, -, rfl⟩ := mem_map.1 hx
      rfl
    · obtain ⟨_, -, rfl⟩ := mem_map.1 hx
      rfl

lemma mem_vRow {s : KvState} {kvSize t i j : Nat} (hs : Shape kvSize s.cache) (htr : s.cache.vTrans = true)
    {L : LayerShape × Nat} {v : VShape} (hv : L.1.v = some v) (hb : v.ty.blckSize = 1) (hj : j < v.nEmbdGqa)
    {c : UInt8} (hc : s.v L.2 (vBase true v.toRowShape kvSize s.cache.nStream t + (i + j * kvSize) * v.ty.typeSize) = c) :
    c ∈ s.vRow L t i := by
  rw [vRow_trans_eq s.cache.nStream hs htr hv hb]
  refine mem_flatMap.2 ⟨j, mem_range.2 hj, mem_map.2 ⟨_, ?_, hc⟩⟩
  have hpos := v.ty.typeSize_pos
  have hsum : (i + j * kvSize) * v.ty.typeSize = j * kvSize * v.ty.typeSize + i * v.ty.typeSize := by ring
  rw [mem_range'_1]
  omega

section Wrapped
variable {kvSize t : Nat} {src : KvState} {seq : Option SeqId}

lemma stateWrite_marked (hs : Shape kvSize src.cache) (hfit : LayersFit src) (htr : src.cache.vTrans = true)
    (ht : t < src.cache.nStream) {L : LayerShape × Nat} (hL : L ∈ src.layers.zipIdx) {v : VShape} (hv : L.1.v = some v)
    {o : Nat} (ho : o < kvSize * v.rowSize) (hno : o ∉ src.vOffs seq t v) :
    (src.withData src.k (marked L.2 (vBase true v.toRowShape kvSize src.cache.nStream t + o))).stateWrite seq =
      (src.withData src.k fun _ _ => 0).stateWrite seq := by
  have hsame : SameMeta (src.withData src.k fun _ _ => 0)
      (src.withData src.k (marked L.2 (vBase true v.toRowShape kvSize src.cache.nStream t + o))) :=
    ⟨rfl, rfl, fun _ => rfl, fun t i => ⟨(src.cache.cell t i).shift, rfl⟩⟩
  refine (hsame.stateWrite_eq_iff hs hs).2 (.inr fun u hu L' hL' => ⟨fun p _ => rfl, fun v' hv' p hp => ?_⟩)
  refine if_neg ?_
  rintro ⟨hil, hp'⟩
  obtain rfl : L' = L := by
    have h1 := mem_zipIdx_iff_getElem?.1 hL
    have h2 : src.layers[L'.2]? = some L'.1 := mem_zipIdx_iff_getElem?.1 hL'
    rw [← hil, h2] at h1
    exact Prod.ext (Option.some.inj h1) hil
  obtain rfl : v' = v := Option.some.inj (hv'.symm.trans hv)
  have hlt : p < kvSize * v'.rowSize :=
    lt_of_mem_vOffs hs hu (fun h => (hfit.plain h _ (fst_mem_of_mem_zipIdx hL') v' hv').1) hp
  have hbase : vBase src.cache.vTrans v'.toRowShape src.cache.getSize src.cache.nStream u + p =
      vBase true v'.toRowShape kvSize src.cache.nStream t + o := hp'
  rw [htr, getSize_eq hs, vBase_eq, vBase_eq, if_pos rfl, mul_assoc, mul_assoc, mul_comm u,
    mul_comm t] at hbase
  have hdiv := congrArg (· / (kvSize * v'.rowSize)) hbase
  simp only [Nat.mul_add_div (Nat.zero_lt_of_lt hlt), Nat.div_eq_of_lt hlt, Nat.div_eq_of_lt ho, add_zero] at hdiv
  subst hdiv
  obtain rfl : p = o := add_left_cancel hbase
  exact hno hp

/-- If an offset wraps around, the cells of two caches come out the same although the row of a saved cell of the one is not in
    the other. -/
lemma exists_same_write (hs : Shape kvSize src.cache) (hfit : LayersFit src) (ht : t < src.cache.nStream)
    (hwrap : ¬ src.NoWrap seq t) : ∃ v₁ v₂ last, saves (src.cache.cellsOf t) seq last = true ∧
      (src.withData src.k v₂).stateWrite seq = (src.withData src.k v₁).stateWrite seq ∧
      ∀ i, ∃ L ∈ src.layers.zipIdx, (src.withData src.k v₁).vRow L t i ≠ (src.withData src.k v₂).vRow L t last := by
  unfold NoWrap OffsetsFit at hwrap
  simp only [hs.size t ht, not_forall, exists_prop, not_lt] at hwrap
  obtain ⟨htr, l, hl, v, hv, i, hi, j, hj, hwrap⟩ := hwrap
  obtain ⟨il, hil⟩ := getElem?_of_mem hl
  have hL : (l, il) ∈ src.layers.zipIdx := mem_zipIdx_iff_getElem?.2 hil
  have hbound : ∀ x, saves (src.cache.cellsOf t) seq x = true → x < kvSize := by
    intro x hx
    rw [← hs.size t ht]
    refine KvCells.lt_size_of_pos_ne fun hpos => ?_
    simp [saves, KvCells.isEmpty, hpos] at hx
  have hfound := Nat.findGreatest_spec (P := fun x => saves (src.cache.cellsOf t) seq x = true) (hbound i hi.1).le hi.1
  have hmax : ∀ x, saves (src.cache.cellsOf t) seq x = true →
      x ≤ Nat.findGreatest (fun x => saves (src.cache.cellsOf t) seq x = true) kvSize :=
    fun x hx => Nat.le_findGreatest (hbound x hx).le hx
  generalize Nat.findGreatest (fun x => saves (src.cache.cellsOf t) seq x = true) kvSize = last at hfound hmax
  obtain ⟨hb, -⟩ := hfit.plain htr l hl v hv
  have hel : v.ty.typeSize < 256 ^ 4 := ((hfit.each l hl).v v hv).2.2.1
  have hno := notMem_vOffs hs ht htr hel hi hj hwrap hmax
  have hlt : (last + (v.nEmbdGqa - 1) * kvSize) * v.ty.typeSize < kvSize * v.rowSize := by
    have hlast := hbound last hfound
    have hall : (v.nEmbdGqa - 1) * kvSize + kvSize = v.nEmbdGqa * kvSize := by
      rw [← Nat.succ_mul, Nat.succ_eq_add_one, Nat.sub_add_cancel (by omega)]
    rw [RowShape.rowSize_eq, hb, Nat.div_one]
    calc (last + (v.nEmbdGqa - 1) * kvSize) * v.ty.typeSize
        < (kvSize + (v.nEmbdGqa - 1) * kvSize) * v.ty.typeSize :=
          Nat.mul_lt_mul_of_pos_right (Nat.add_lt_add_right hlast _) v.ty.typeSize_pos
      _ = v.nEmbdGqa * kvSize * v.ty.typeSize := by rw [add_comm, hall]
      _ ≤ v.ne0 * kvSize * v.ty.typeSize := Nat.mul_le_mul_right _ (Nat.mul_le_mul_right _ v.nEmbdGqa_le)
      _ = kvSize * (v.ty.typeSize * v.ne0) := by ring
  refine ⟨fun _ _ => 0, _, last, hfound, stateWrite_marked hs hfit htr ht hL hv hlt hno, fun x => ⟨(l, il), hL, fun heq => ?_⟩⟩
  have hone := mem_vRow (s := src.withData src.k (marked il (vBase true v.toRowShape kvSize src.cache.nStream t + _)))
    hs htr (L := (l, il)) (t := t) (i := last) hv hb (Nat.sub_lt (Nat.zero_lt_of_lt hj) Nat.one_pos) (if_pos ⟨rfl, rfl⟩)
  rw [← heq] at hone
  exact absurd (eq_of_mem_vRow rfl hone) (by decide)

end Wrapped

end KvState

end Mallana
