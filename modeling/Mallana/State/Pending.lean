import Mallana.KvCache.Shift
import Mallana.State.RoundTrip
import Mallana.State.Accept

/-!
# Pending updates and the state functions

`seq_add` and a `seq_cp` between streams change the cells at once; the K and V data follow in the next
`update`, which first copies the queued streams and then lets the graph of `build_graph_shift` rotate
K. `state_write` and `state_read` do not run the update before. `pending_commutes_iff` states when this
makes no difference: `state_write` gives the bytes it would give after the update exactly if the update leaves
the bytes of the saved rows alone, and a restored sequence survives the queued copies exactly if the
stream from which its own stream is filled holds the same rows.
-/

namespace Mallana

open Lib List

namespace KvCache

/-- C++ `get_has_shift`. -/
def getHasShift (c : KvCache) : Bool := (List.range c.nStream).any fun t => (c.cellsOf t).hasShift

end KvCache

namespace KvState

open ByteParser ReadM KvCache Mem

/-- What `update` takes from the model: whether the architecture allows a shift, whether it has RoPE, and
    what the graph of `build_graph_shift` makes of the K tensor of a layer, given the input `k_shift`. -/
structure ShiftGraph where
  archShifts : Bool
  rope : Bool
  run : LayerShape × Nat → List Int → Mem → Mem

/-- C++ `get_can_shift`. -/
def getCanShift (M : ShiftGraph) (st : KvState) : Bool := M.archShifts && decide (st.cache.nPosPerEmbd ≤ 1)

/-- The K tensor of a layer after `ggml_backend_tensor_copy(k_stream[c.1], k_stream[c.2])`. -/
def copyStreamK (size nStream : Nat) (c : Nat × Nat) (L : LayerShape × Nat) (m : Mem) : Mem :=
  m.write (kBase L.1.k size nStream c.2) (m.read (kBase L.1.k size nStream c.1) (size * L.1.k.rowSize))

def copyStreamV (vTrans : Bool) (size nStream : Nat) (c : Nat × Nat) (L : LayerShape × Nat) (m : Mem) : Mem :=
  match L.1.v with
  | none => m
  | some v => m.write (vBase vTrans v.toRowShape size nStream c.2)
      (m.read (vBase vTrans v.toRowShape size nStream c.1) (size * v.rowSize))

/-- One stream copy of `update`, in all layers. -/
def copyStream (st : KvState) (c : Nat × Nat) : KvState :=
  st.mapTensors (copyStreamK st.cache.getSize st.cache.nStream c)
    (copyStreamV st.cache.vTrans st.cache.getSize st.cache.nStream c)

/-- The first part of `update`: the queued copies, in order. -/
def copyStreams (st : KvState) : KvState := st.cache.scInfo.foldl copyStream st

/-- The second part of `update`: the K tensors are rotated, unless the model has no RoPE. -/
def rotate (M : ShiftGraph) (st : KvState) : KvState :=
  if M.rope then st.mapTensors (fun L => M.run L st.cache.setInputKShift) fun _ m => m else st

/-- C++ `memory_update`, that is `init_update` and `update`; `none`: the process aborts. Computing the
    graph does not fail. -/
def memoryUpdate (M : ShiftGraph) (st : KvState) : Option KvState :=
  let st := st.copyStreams
  let st := st.setCache { st.cache with scInfo := [] }
  if st.cache.getHasShift then
    if getCanShift M st then
      let st := st.rotate M
      some (st.setCache st.cache.resetShift)
    else none
  else some st

/-- A transposed V tensor has elements of one block: a quantized V cache is never transposed. -/
def TransPlain (st : KvState) : Prop :=
  st.cache.vTrans = true → ∀ L ∈ st.layers, ∀ v, L.v = some v → v.ty.blckSize = 1

section Copies
variable {kvSize t p : Nat} {st st' : KvState} {seq : Option SeqId} {L : LayerShape × Nat} {v : VShape}

lemma foldl_copyStream_cache (q : List (Nat × Nat)) (st : KvState) :
    (q.foldl copyStream st).cache = st.cache ∧ (q.foldl copyStream st).layers = st.layers := by
  induction q generalizing st with
  | nil => exact ⟨rfl, rfl⟩
  | cons c q ih => exact ih (st.copyStream c)

lemma cache_copyStreams (st : KvState) : st.copyStreams.cache = st.cache :=
  (foldl_copyStream_cache _ st).1

lemma layers_copyStreams (st : KvState) : st.copyStreams.layers = st.layers :=
  (foldl_copyStream_cache _ st).2

section
variable (hs : Shape kvSize st.cache) (hL : st.layers[L.2]? = some L.1)
include hs hL

lemma k_foldl_copyStream (q : List (Nat × Nat)) : (q.foldl copyStream st).k L.2 =
      q.foldl (copyBlock (kvSize * L.1.k.rowSize) (kvSize * L.1.k.rowSize)) (st.k L.2) := by
  induction q generalizing st with
  | nil => rfl
  | cons c q ih =>
    have hstep : (st.copyStream c).k L.2 =
        copyBlock (kvSize * L.1.k.rowSize) (kvSize * L.1.k.rowSize) (st.k L.2) c := by
      unfold copyStream mapTensors copyStreamK copyBlock
      simp only [hL, Option.elim_some, kBase_eq, getSize_eq hs, mul_assoc]
    refine (ih (show Shape kvSize (st.copyStream c).cache from hs) hL).trans ?_
    rw [hstep]
    rfl

lemma v_foldl_copyStream (hv : L.1.v = some v) (q : List (Nat × Nat)) : (q.foldl copyStream st).v L.2 =
      q.foldl (copyBlock ((if st.cache.vTrans then kvSize else kvSize + 32) * v.rowSize)
        (kvSize * v.rowSize)) (st.v L.2) := by
  induction q generalizing st with
  | nil => rfl
  | cons c q ih =>
    have hstep : (st.copyStream c).v L.2 =
        copyBlock ((if st.cache.vTrans then kvSize else kvSize + 32) * v.rowSize)
          (kvSize * v.rowSize) (st.v L.2) c := by
      unfold copyStream mapTensors copyStreamV copyBlock
      simp only [hL, Option.elim_some, hv, vBase_eq, getSize_eq hs, mul_assoc]
    refine (ih (show Shape kvSize (st.copyStream c).cache from hs) hL).trans ?_
    rw [hstep]
    rfl

lemma kByte_copyStreams (hp : p < kvSize * L.1.k.rowSize) :
    st.copyStreams.kByte L t p = st.kByte L (blockOrigin st.cache.scInfo t) p := by
  unfold kByte
  rw [cache_copyStreams, getSize_eq hs, kBase_eq, kBase_eq, mul_assoc, mul_assoc]
  unfold copyStreams
  rw [k_foldl_copyStream hs hL, foldl_copyBlock le_rfl _ hp]

lemma vByte_copyStreams (hv : L.1.v = some v) (hp : p < kvSize * v.rowSize) :
    st.copyStreams.vByte v L.2 t p = st.vByte v L.2 (blockOrigin st.cache.scInfo t) p := by
  have hle : kvSize * v.rowSize ≤ (if st.cache.vTrans then kvSize else kvSize + 32) * v.rowSize := by
    refine Nat.mul_le_mul_right _ ?_
    split <;> omega
  unfold vByte
  rw [cache_copyStreams, getSize_eq hs, vBase_eq, vBase_eq, mul_assoc, mul_assoc]
  unfold copyStreams
  rw [v_foldl_copyStream hs hL hv, foldl_copyBlock hle _ hp]

end

end Copies

/-- A K byte after the update: rotated if a shift is pending, else that of the origin of its stream. -/
def updatedK (M : ShiftGraph) (st : KvState) (L : LayerShape × Nat) (t p : Nat) : UInt8 :=
  if st.cache.getHasShift ∧ M.rope then
    M.run L st.cache.setInputKShift (st.copyStreams.k L.2)
      (kBase L.1.k st.cache.getSize st.cache.nStream t + p)
  else st.kByte L (blockOrigin st.cache.scInfo t) p

/-- Nothing is pending for the saved rows: the stream from which their stream is filled holds the same
    bytes, and rotating K gives these bytes again. With paging nothing is saved. -/
def Settled (M : ShiftGraph) (seq : Option SeqId) (st : KvState) : Prop :=
  st.cache.pgEnabled = true ∨ ∀ t < st.cache.nStream, ∀ L ∈ st.layers.zipIdx,
    (∀ p ∈ st.kOffs seq t L.1.k, updatedK M st L t p = st.kByte L t p) ∧
      ∀ v, L.1.v = some v → ∀ p ∈ st.vOffs seq t v,
        st.vByte v L.2 (blockOrigin st.cache.scInfo t) p = st.vByte v L.2 t p

def Survives (st : KvState) (b : SeqId) : Prop :=
  ∀ L ∈ st.layers.zipIdx, SameBytes st st.copyStreams (some b) (st.cache.seqToStream b) L

/-- Stream `o` holds the rows that the sequence has in its own stream. -/
def SameIn (st : KvState) (b : SeqId) (o : Nat) : Prop :=
  ∀ L ∈ st.layers.zipIdx, (∀ p ∈ st.kOffs (some b) (st.cache.seqToStream b) L.1.k,
      st.kByte L o p = st.kByte L (st.cache.seqToStream b) p) ∧
    ∀ v, L.1.v = some v → ∀ p ∈ st.vOffs (some b) (st.cache.seqToStream b) v,
      st.vByte v L.2 o p = st.vByte v L.2 (st.cache.seqToStream b) p

section Main
variable {kvSize t : Nat} {st st' : KvState} {M : ShiftGraph} {L : LayerShape × Nat}

lemma layers_getElem? (h : L ∈ st.layers.zipIdx) : st.layers[L.2]? = some L.1 :=
  mem_zipIdx_iff_getElem?.1 h

/-- What the update does: the metadata stay but for the shifts, and every byte is an updated one. -/
structure Updated (M : ShiftGraph) (kvSize : Nat) (st st' : KvState) : Prop where
  same : SameMeta st st'
  shape : Shape kvSize st'.cache
  k : ∀ L ∈ st.layers.zipIdx, ∀ t, ∀ p < kvSize * L.1.k.rowSize, st'.kByte L t p = updatedK M st L t p
  v : ∀ L ∈ st.layers.zipIdx, ∀ v, L.1.v = some v → ∀ t, ∀ p < kvSize * v.rowSize,
    st'.vByte v L.2 t p = st.vByte v L.2 (blockOrigin st.cache.scInfo t) p

lemma updated_of_tensors (hs : Shape kvSize st.cache) (hsame : SameMeta st st') (hs' : Shape kvSize st'.cache)
    (hk : ∀ L ∈ st.layers.zipIdx, st'.k L.2 = if st.cache.getHasShift ∧ M.rope then
      M.run L st.cache.setInputKShift (st.copyStreams.k L.2) else st.copyStreams.k L.2)
    (hv : ∀ L ∈ st.layers.zipIdx, st'.v L.2 = st.copyStreams.v L.2) : Updated M kvSize st st' := by
  refine ⟨hsame, hs', ?_, ?_⟩
  · intro L hL t p hp
    unfold updatedK
    have hkL := hk L hL
    split
    · rename_i hyes
      rw [if_pos hyes] at hkL
      unfold kByte
      rw [hkL, getSize_eq hs, getSize_eq hs', hsame.params]
    · rename_i hno
      rw [if_neg hno] at hkL
      rw [← kByte_copyStreams hs (layers_getElem? hL) hp]
      unfold kByte
      rw [hkL, cache_copyStreams, getSize_eq hs, getSize_eq hs', hsame.params]
  · intro L hL v hlv t p hp
    rw [← vByte_copyStreams hs (layers_getElem? hL) hlv hp]
    unfold vByte
    rw [hv L hL, cache_copyStreams, getSize_eq hs, getSize_eq hs', hsame.params]

lemma rotate_tensors (M : ShiftGraph) (d : KvState) (hL : d.layers[L.2]? = some L.1) :
    (d.rotate M).k L.2 = (if M.rope then M.run L d.cache.setInputKShift (d.k L.2) else d.k L.2) ∧
      (d.rotate M).v L.2 = d.v L.2 := by
  unfold rotate mapTensors
  split
  · simp [hL]
  · exact ⟨rfl, rfl⟩

lemma rotate_cache (M : ShiftGraph) (d : KvState) :
    (d.rotate M).cache = d.cache ∧ (d.rotate M).layers = d.layers := by
  unfold rotate
  split <;> exact ⟨rfl, rfl⟩

lemma sameMeta_resetShift {c : KvCache} (hst : st'.layers = st.layers)
    (hparams : c.toKvParams = st.cache.toKvParams) (hcells : c.vCells = st.cache.vCells)
    (hc : st'.cache = c.resetShift) : SameMeta st st' := by
  have hcell : ∀ t i, c.cell t i = st.cache.cell t i := by
    intro t i
    unfold KvCache.cell cellsOf
    rw [hcells]
  refine ⟨by rw [hc]; exact hparams, hst, ?_, ?_⟩
  · intro t
    rw [hc]
    show ((c.vCells.map KvCells.resetShift).getD t {}).size = _
    rw [show ({} : KvCells) = KvCells.resetShift {} from rfl, getD_map, KvCells.size_resetShift, hcells]
    rfl
  · intro t i
    refine ⟨0, ?_⟩
    rw [hc, cell_resetShift, hcell]

lemma updated_memoryUpdate (hs : Shape kvSize st.cache) (h : st.memoryUpdate M = some st') :
    Updated M kvSize st st' := by
  obtain ⟨d, hd⟩ : ∃ d, d = st.copyStreams.setCache { st.cache with scInfo := [] } := ⟨_, rfl⟩
  have hcache : d.cache = { st.cache with scInfo := [] } := by rw [hd]; rfl
  have hcells : d.cache.vCells = st.cache.vCells := by rw [hcache]
  have hparams : d.cache.toKvParams = st.cache.toKvParams := by rw [hcache]
  have hshift : d.cache.getHasShift = st.cache.getHasShift := by rw [hcache]; rfl
  have hkshift : d.cache.setInputKShift = st.cache.setInputKShift := by rw [hcache]; rfl
  have hlay : d.layers = st.layers := by rw [hd]; exact layers_copyStreams st
  have hk : d.k = st.copyStreams.k := by rw [hd]; rfl
  have hv : d.v = st.copyStreams.v := by rw [hd]; rfl
  have hsd : Shape kvSize d.cache := by
    rw [hcache]
    exact hs.congr rfl rfl rfl
  unfold memoryUpdate at h
  simp only [cache_copyStreams, ← hd] at h
  split at h
  · rename_i hyes
    split at h
    · obtain rfl := Option.some.inj h
      obtain ⟨hrc, hrl⟩ := rotate_cache M d
      rw [hrc]
      refine updated_of_tensors hs (sameMeta_resetShift (hrl.trans hlay) hparams hcells rfl)
        (shape_resetShift hsd) ?_ ?_
      · intro L hL
        have hrot := (rotate_tensors M d (by rw [hlay]; exact layers_getElem? hL)).1
        refine hrot.trans ?_
        rw [hkshift, hk, ← hshift]
        simp only [hyes, true_and]
      · intro L hL
        rw [← hv]
        exact (rotate_tensors M d (by rw [hlay]; exact layers_getElem? hL)).2
    · cases h
  · rename_i hno
    obtain rfl := Option.some.inj h
    refine updated_of_tensors hs ⟨hparams, hlay, ?_, ?_⟩ hsd ?_ fun L _ => by rw [hv]
    · intro t
      unfold cellsOf
      rw [hcells]
    · intro t i
      refine ⟨(st.cache.cell t i).shift, ?_⟩
      unfold KvCache.cell cellsOf
      rw [hcells]
    · intro L hL
      rw [hk, ← hshift, if_neg fun h => hno h.1]

lemma stateWrite_memoryUpdate_iff {seq : Option SeqId} (hs : Shape kvSize st.cache)
    (hplain : st.TransPlain) (h : st.memoryUpdate M = some st') :
    st'.stateWrite seq = st.stateWrite seq ↔ st.Settled M seq := by
  have hup := updated_memoryUpdate hs h
  rw [hup.same.stateWrite_eq_iff hs hup.shape]
  refine or_congr_right (forall₂_congr fun t ht => forall₂_congr fun L hL => and_congr ?_ ?_)
  · refine forall₂_congr fun p hp => ?_
    rw [hup.k L hL t p (lt_of_mem_kOffs hs ht hp)]
  · refine forall₂_congr fun v hv => forall₂_congr fun p hp => ?_
    have hblk : st.cache.vTrans = true → v.ty.blckSize = 1 :=
      fun htr => hplain htr L.1 (mem_of_getElem? (layers_getElem? hL)) v hv
    rw [hup.v L hL v hv t p (lt_of_mem_vOffs hs ht hblk hp)]

lemma survives_iff {b : SeqId} (hs : Shape kvSize st.cache) (hplain : st.TransPlain) :
    st.Survives b ↔ st.SameIn b (blockOrigin st.cache.scInfo (st.cache.seqToStream b)) := by
  have ht := st.cache.seqToStream_lt hs.streams b
  refine forall₂_congr fun L hL => and_congr ?_ ?_
  · refine forall₂_congr fun p hp => ?_
    rw [kByte_copyStreams hs (layers_getElem? hL) (lt_of_mem_kOffs hs ht hp)]
  · refine forall₂_congr fun v hv => forall₂_congr fun p hp => ?_
    have hblk : st.cache.vTrans = true → v.ty.blckSize = 1 :=
      fun htr => hplain htr L.1 (mem_of_getElem? (layers_getElem? hL)) v hv
    rw [vByte_copyStreams hs (layers_getElem? hL) hv (lt_of_mem_vOffs hs ht hblk hp)]

lemma queue_of_readStreams {b : SeqId} {l : List Nat} {s s' : Session KvState}
    (hs : Shape kvSize s.st.cache) (hpg : s.st.cache.pgEnabled = false)
    (h : l.forM (readStream (some b)) s = .ok () s') : Keeps s.st.cache s'.st.cache ∧ s'.st.layers = s.st.layers ∧
      s'.st.cache.scInfo = s.st.cache.scInfo := by
  induction l generalizing s with
  | nil =>
    cases h
    exact ⟨Keeps.refl _, rfl, rfl⟩
  | cons t l ih =>
    obtain ⟨⟨⟩, s1, h1, h⟩ := ReadM.bind_eq_ok.1 h
    obtain ⟨ms, -, hlay, hcache⟩ := readStream_some_eq_ok hs hpg h1
    have hstep : Keeps s.st.cache s1.st.cache ∧ s1.st.cache.scInfo = s.st.cache.scInfo := by
      obtain ⟨-, hc⟩ | ⟨-, hplaced⟩ := hcache
      · rw [hc]
        exact ⟨Keeps.refl _, rfl⟩
      · refine ⟨hplaced.keeps, ?_⟩
        obtain ⟨sl, -, hc⟩ := hplaced.slot
        rw [hc, scInfo_applyUbatch, scInfo_seqRm]
    obtain ⟨hk, hl, hq⟩ := ih (hstep.1.shape hs) (by rw [hstep.1.params]; exact hpg) h
    exact ⟨hstep.1.trans hk, hl.trans hlay, hq.trans hstep.2⟩

lemma queue_of_stateRead {b : SeqId} {bs : List UInt8} {s' : Session KvState}
    (hs : Shape kvSize st.cache) (h : stateRead (some b) ⟨bs, st⟩ = .ok () s') :
    Keeps st.cache s'.st.cache ∧ s'.st.layers = st.layers ∧ s'.st.cache.scInfo = st.cache.scInfo := by
  cases hpg : st.cache.pgEnabled with
  | true =>
    -- nothing is read
    unfold stateRead at h
    rw [ReadM.bind_apply] at h
    simp only [state, hpg, if_true] at h
    cases h
    exact ⟨Keeps.refl _, rfl, rfl⟩
  | false =>
    obtain ⟨k, rest, -, hrun⟩ := stateRead_eq_ok hpg h
    exact queue_of_readStreams (s := ⟨rest, st⟩) hs hpg hrun

/-- When saving before the update gives what saving after it gives, and when a restored sequence
    survives the copies that were queued before. -/
theorem pending_commutes_iff (hs : Shape kvSize st.cache) (hplain : st.TransPlain)
    (hup : st.memoryUpdate M = some st') : (∀ seq, st'.stateWrite seq = st.stateWrite seq ↔ st.Settled M seq) ∧
      ∀ b bs s', stateRead (some b) ⟨bs, st⟩ = .ok () s' → (s'.st.Survives b ↔
          s'.st.SameIn b (blockOrigin st.cache.scInfo (st.cache.seqToStream b))) := by
  refine ⟨fun seq => stateWrite_memoryUpdate_iff hs hplain hup, ?_⟩
  intro b bs s' hread
  obtain ⟨hk, hl, hq⟩ := queue_of_stateRead hs hread
  have hplain' : s'.st.TransPlain := by
    unfold TransPlain
    rw [hl, hk.params]
    exact hplain
  rw [survives_iff (hk.shape hs) hplain', hq, seqToStream_congr hk.params]

end Main

end KvState

namespace Small
open KvState KvCache

/-- Sequence 0 in stream 0, copied to sequence 1 in stream 1; the copy of the data is queued. -/
@[irreducible] def forked : KvState :=
  (put (empty false) 0 0).setCache (((put (empty false) 0 0).cache.seqCp 0 1 (-1) (-1)).getD
    (put (empty false) 0 0).cache)

def idGraph : ShiftGraph where
  archShifts := true
  rope := true
  run _ _ m := m

lemma computed_forked : ((put (empty false) 0 0).cache.seqCp 0 1 (-1) (-1)).isSome ∧
    (forked.memoryUpdate idGraph).map (fun st => (decide (st.stateWrite (some 0) = forked.stateWrite (some 0)),
      decide (st.stateWrite (some 1) = forked.stateWrite (some 1)))) = some (true, false) ∧
    forked.cache.scInfo = [(0, 1)] ∧ forked.savedIn (some 0) 1 = [] ∧ forked.cache.getHasShift = false := by
  decide +kernel

lemma params_forked : forked.cache.toKvParams = (empty false).cache.toKvParams ∧
    Shape 4 forked.cache ∧ forked.layers = [layer] := by
  obtain ⟨hsome, _⟩ := computed_forked
  obtain ⟨c, hc⟩ := Option.isSome_iff_exists.1 hsome
  have hput : Keeps (empty false).cache (put (empty false) 0 0).cache := keeps_applyUbatch _ _ _
  have hk := hput.trans (keeps_seqCp hc).1
  have hcache : forked.cache = c := by
    unfold forked
    rw [hc]
    rfl
  have hlayers : forked.layers = [layer] := by
    unfold forked
    rfl
  rw [hcache]
  exact ⟨hk.params, hk.shape (steady_empty false).wf.shape, hlayers⟩

lemma transPlain_forked : forked.TransPlain := by
  obtain ⟨-, -, hlayers⟩ := params_forked
  exact fun htr L hL v hv => ((layersFit hlayers).plain htr L hL v hv).1

lemma exists_update : ∃ st, forked.memoryUpdate idGraph = some st ∧
    st.stateWrite (some 1) ≠ forked.stateWrite (some 1) := by
  obtain ⟨_, hmap, _⟩ := computed_forked
  obtain ⟨st, hst, hr⟩ := Option.map_eq_some_iff.1 hmap
  exact ⟨st, hst, of_decide_eq_false (Prod.mk.inj hr).2⟩

end Small

open Small in
/-- The source of a queued copy can be saved before the update. -/
theorem KvState.pending_commutes_iff_source : ∃ st, forked.memoryUpdate idGraph = some st ∧
    st.stateWrite (some 0) = forked.stateWrite (some 0) := by
  obtain ⟨_, _, hq, hnone, hshift⟩ := computed_forked
  obtain ⟨hparams, hs, -⟩ := params_forked
  obtain ⟨st, hup, -⟩ := exists_update
  refine ⟨st, hup, ((pending_commutes_iff hs transPlain_forked hup).1 (some 0)).2 (.inr ?_)⟩
  intro t ht L _
  rw [hparams] at ht
  have hno : ¬ (forked.cache.getHasShift = true ∧ idGraph.rope = true) := by simp [hshift]
  simp only [updatedK, if_neg hno, hq]
  obtain rfl | rfl : t = 0 ∨ t = 1 := by
    have ht' : t < 2 := ht
    omega
  · exact ⟨fun _ _ => rfl, fun _ _ _ _ => rfl⟩
  · have hno : ∀ i < (forked.cache.cellsOf 1).size, saves (forked.cache.cellsOf 1) (some 0) i = false := by
      intro i hi
      exact Bool.eq_false_of_not_eq_true (filter_eq_nil_iff.1 hnone i (mem_range.2 hi))
    simp [kOffs, vOffs, elemOffs, rowOffs, hnone, cellRanges_eq_nil hno]

open Small in
/-- The target of a queued copy cannot: its stream still holds the old rows. -/
theorem KvState.save_before_copy : ¬ ∀ (kvSize : Nat) (st st' : KvState) (M : ShiftGraph)
    (seq : Option SeqId), KvCache.Shape kvSize st.cache → st.TransPlain →
      st.memoryUpdate M = some st' → st'.stateWrite seq = st.stateWrite seq := by
  intro hall
  obtain ⟨st, hup, hne⟩ := exists_update
  exact hne (hall 4 forked st idGraph (some 1) params_forked.2.1 transPlain_forked hup)

end Mallana
