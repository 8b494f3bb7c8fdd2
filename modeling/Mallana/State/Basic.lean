import Mallana.KvCache.Layout
import Mallana.KvCache.Prepare
import Mallana.Lib.Reader

/-!
# Saving and restoring the cache

Model of `llama_kv_cache::state_write` and `llama_kv_cache::state_read` with their parts for metadata and
tensor data. The tensors of a layer are flat memories; `k_stream[s]` and `v_stream[s]` are views into
them, with the offsets that the constructor gives them. The writer returns the bytes. The reader is a
computation on the rest of the input and the cache that keeps the cache as far as it got when it
fails: an exception of `io.read_to` or `io.read` at the end of the input passes through, a `return
false` of the parts (`Fault.rejected`) is caught by `state_read`, which cleans up and throws.

`uint32_t` products are reduced modulo `2^32` where the source computes them in 32 bits: the offsets
of a transposed V tensor. Counts, sizes and row numbers are natural numbers.
-/

namespace Mallana

open Lib

/-- Rows of a tensor: the type with its number in `ggml_type`, and the elements of a row, a whole
    number of blocks. -/
structure RowShape where
  id : Int
  ty : GgmlType
  ne0 : Nat
  ne0_pos : 0 < ne0
  ne0_dvd : ty.blckSize ∣ ne0

/-- C++ `ggml_row_size(t->type, t->ne[0])`. -/
def RowShape.rowSize (r : RowShape) : Nat := r.ty.rowSize r.ne0

/-- The V tensor of a layer; `nEmbdGqa` is `hparams.n_embd_v_gqa(il)`, which a transposed tensor may
    exceed. -/
structure VShape extends RowShape where
  nEmbdGqa : Nat
  nEmbdGqa_le : nEmbdGqa ≤ ne0

/-- The tensors of a layer (C++ `kv_layer`); a layer need not have a V tensor. -/
structure LayerShape where
  k : RowShape
  v : Option VShape

/-- The cache with the contents of its tensors, by layer. -/
structure KvState where
  cache : KvCache
  layers : List LayerShape
  k : Nat → Mem
  v : Nat → Mem

/-- What makes the reader stop. -/
inductive Fault where
  /-- `io` has no more bytes -/
  | endOfInput
  /-- a part returned `false` -/
  | rejected
  | nStreamMismatch
  | restoreFailed
  /-- a `GGML_ASSERT` failed: the process ends -/
  | assertFailed
deriving DecidableEq, Repr

namespace KvState

/-- Offset of `k_stream[s]` in the K tensor. -/
def kBase (r : RowShape) (kvSize nStream s : Nat) : Nat :=
  let k := r.ty.newTensor3d r.ne0 kvSize nStream
  (k.view2d r.ne0 kvSize k.nb1 (s * k.nb2)).offs

/-- Offset of `v_stream[s]` in the V tensor, which has `pg_block_size` more rows for each stream unless
    it is transposed. -/
def vBase (vTrans : Bool) (r : RowShape) (kvSize nStream s : Nat) : Nat :=
  let v := r.ty.newTensor3d r.ne0 (if vTrans then kvSize else kvSize + VLayout.pgBlockSize) nStream
  (v.view2d r.ne0 kvSize v.nb1 (s * v.nb2)).offs

/-- Reduction of a product computed in `uint32_t`. -/
def u32 (x : Nat) : Nat := x % 4294967296

/-- The loop body of the range search in `state_write`: the finished ranges, and the start of the
    current one, `size` if there is none. -/
def rangeStep (ok : Nat → Bool) (size : Nat) (acc : List (Nat × Nat) × Nat) (i : Nat) : List (Nat × Nat) × Nat :=
  if ok i then (acc.1, if acc.2 = size then i else acc.2)
  else if acc.2 ≠ size then (acc.1 ++ [(acc.2, i)], size) else acc

/-- The ranges of cells that satisfy `ok` (`cr.data` in `state_write`). -/
def cellRanges (ok : Nat → Bool) (size : Nat) : List (Nat × Nat) :=
  let r := (List.range size).foldl (rangeStep ok size) ([], size)
  if r.2 ≠ size then r.1 ++ [(r.2, size)] else r.1

/-- Is the cell saved: occupied and, for one sequence, holding it? -/
def saves (x : KvCells) (seq : Option SeqId) (i : Nat) : Bool :=
  !x.isEmpty i && (match seq with | none => true | some s => x.seqHas i s)

def savedIds (c : KvCache) (x : KvCells) (seq : Option SeqId) (i : Nat) : List SeqId :=
  (List.finRange llamaMaxSeq).filter fun cur =>
    cur.val < c.nSeqMax && (seq = some cur || seq = none) && x.seqHas i cur

/-- One cell of `state_write_meta`. -/
def writeCell (c : KvCache) (x : KvCells) (seq : Option SeqId) (i : Nat) : List UInt8 :=
  i32Bytes (x.posGet i) ++ (leBytes 4 (savedIds c x seq i).length ++
    ((if 1 < c.nPosPerEmbd then i32Bytes (x.extGet i).x ++ i32Bytes (x.extGet i).y else []) ++
      (savedIds c x seq i).flatMap fun s => i32Bytes s.val))

/-- C++ `state_write_meta`. -/
def stateWriteMeta (c : KvCache) (t : Nat) (ranges : List (Nat × Nat)) (seq : Option SeqId) : List UInt8 :=
  ranges.flatMap fun r => (List.range' r.1 (r.2 - r.1)).flatMap (writeCell c (c.cellsOf t) seq)

/-- The K part of a layer: type, row size and the rows of each range. -/
def writeK (st : KvState) (t : Nat) (ranges : List (Nat × Nat)) (L : LayerShape × Nat) : List UInt8 :=
  let base := kBase L.1.k (st.cache.cellsOf t).size st.cache.nStream t
  i32Bytes L.1.k.id ++ (leBytes 8 L.1.k.rowSize ++ ranges.flatMap fun r =>
    (st.k L.2).read (base + r.1 * L.1.k.rowSize) ((r.2 - r.1) * L.1.k.rowSize))

def writeV (st : KvState) (t : Nat) (ranges : List (Nat × Nat)) (L : LayerShape × Nat) : List UInt8 :=
  match L.1.v with
  | none => []
  | some v =>
    let base := vBase false v.toRowShape (st.cache.cellsOf t).size st.cache.nStream t
    i32Bytes v.id ++ (leBytes 8 v.rowSize ++ ranges.flatMap fun r =>
      (st.v L.2).read (base + r.1 * v.rowSize) ((r.2 - r.1) * v.rowSize))

/-- The V part of a transposed layer: for each element the values of all cells. -/
def writeVTrans (st : KvState) (t : Nat) (ranges : List (Nat × Nat)) (L : LayerShape × Nat) : List UInt8 :=
  match L.1.v with
  | none => []
  | some v =>
    let kvSize := (st.cache.cellsOf t).size
    let base := vBase true v.toRowShape kvSize st.cache.nStream t
    let el := v.ty.typeSize
    i32Bytes v.id ++ (leBytes 4 el ++ (leBytes 4 v.nEmbdGqa ++
      (List.range v.nEmbdGqa).flatMap fun j => ranges.flatMap fun r =>
        (st.v L.2).read (base + u32 ((r.1 + j * kvSize) * el)) ((r.2 - r.1) * el)))

/-- C++ `state_write_data`. -/
def stateWriteData (st : KvState) (t : Nat) (ranges : List (Nat × Nat)) : List UInt8 :=
  if st.cache.pgEnabled then []
  else leBytes 4 (if st.cache.vTrans then 1 else 0) ++ (leBytes 4 st.layers.length ++
    (st.layers.zipIdx.flatMap (st.writeK t ranges) ++ st.layers.zipIdx.flatMap
        (if st.cache.vTrans then st.writeVTrans t ranges else st.writeV t ranges)))

/-- One stream of `state_write`. -/
def writeStream (st : KvState) (seq : Option SeqId) (t : Nat) : List UInt8 :=
  let x := st.cache.cellsOf t
  let ranges := cellRanges (saves x seq) x.size
  let cellCount := (List.range x.size).countP (saves x seq)
  leBytes 4 cellCount ++ (if cellCount = 0 then [] else
    stateWriteMeta st.cache t ranges seq ++ st.stateWriteData t ranges)

/-- C++ `state_write`; `none` is the sequence id `-1`, the whole cache. -/
def stateWrite (st : KvState) (seq : Option SeqId) : List UInt8 :=
  if st.cache.pgEnabled then []
  else leBytes 4 st.cache.nStream ++ (List.range st.cache.nStream).flatMap (st.writeStream seq)

abbrev Parse (α : Type) : Type := ByteParser Fault α

abbrev Read (α : Type) : Type := ReadM Fault KvState α

open ByteParser ReadM

/-- The data of a cell in the input. -/
structure CellMeta where
  pos : Int
  ext : KvCellExt := {}
  ids : List Int := []
deriving DecidableEq, Repr

/-- C++ `io.read_to(&ext, sizeof(ext))`. -/
def parseExt : Parse KvCellExt := do
  let x ← i32 .endOfInput
  let y ← i32 .endOfInput
  return { x, y }

/-- The 2-D position, if the model has several positions for each token. -/
def parseExtIf (nPos : Nat) : Parse KvCellExt := if 1 < nPos then parseExt else pure {}

/-- One cell for a single sequence; its sequence id is discarded. -/
def parseCell (nPos : Nat) : Parse CellMeta := do
  let pos ← i32 .endOfInput
  let nSeqId ← num .endOfInput 4
  require .rejected (nSeqId = 1)
  let ext ← parseExtIf nPos
  let id ← i32 .endOfInput
  return { pos, ext, ids := [id] }

/-- The ubatch that `state_read_meta` fills for a single sequence. -/
def restoreUbatch (nPos : Nat) (q : SeqId) (l : List CellMeta) : Ubatch where
  nTokens := l.length
  nPos := nPos
  pos := l.map CellMeta.pos ++ if 1 < nPos then l.map (fun m => m.ext.y) ++ l.map (fun m => m.ext.x) else []
  seqId := l.map fun _ => [q]
  seqIdUnq := [q]

def setCache (st : KvState) (c : KvCache) : KvState := { st with cache := c }

/-- C++ `clear(true)`: the metadata and all tensors. -/
def clear (st : KvState) : KvState :=
  { st with cache := st.cache.clear, k := fun _ _ => 0, v := fun _ _ => 0 }

/-- C++ `state_read_meta` for a single sequence. -/
def readMetaSeq (cellCount : Nat) (q : SeqId) : Read SlotInfo := do
  update fun st => st.setCache (st.cache.seqRm (some q) (-1) (-1))
  let st ← state
  let nPos := st.cache.nPosPerEmbd
  let l ← lift (times (parseCell nPos) cellCount)
  let u := restoreUbatch nPos q l
  match st.cache.findSlot u false with
  | .error _ => throw .assertFailed
  | .ok none => throw .rejected
  | .ok (some sl) =>
    update fun st => st.setCache (st.cache.applyUbatch sl u)
    let st ← state
    let x := st.cache.cellsOf (st.cache.seqToStream q)
    -- the debug check: every cell has its position and the sequence
    if (sl.idxs.getD 0 []).length = cellCount ∧ sl.strm.length = 1 ∧ ∀ i ∈ List.range cellCount,
        x.posGet ((sl.idxs.getD 0 []).getD i 0) = u.pos.getD i 0 ∧
          x.seqHas ((sl.idxs.getD 0 []).getD i 0) q = true then
      return sl
    else throw .assertFailed

def seqIdOf (id : Int) : SeqId := Fin.ofNat llamaMaxSeq id.toNat

def setStream (st : KvState) (t : Nat) (f : KvCells → KvCells) : KvState :=
  st.setCache (st.cache.setCells t (f (st.cache.cellsOf t)))

def readSeqId (t i : Nat) : Read Unit := do
  let id ← lift (i32 .endOfInput)
  let st ← state
  if id < 0 ∨ (st.cache.nSeqMax : Int) ≤ id then throw .rejected
  else update fun st => st.setStream t fun x => x.seqAdd i (seqIdOf id)

def readExt (t i : Nat) : Read Unit := do
  let st ← state
  if 1 < st.cache.nPosPerEmbd then
    let ext ← lift parseExt
    update fun st => st.setStream t fun x => x.extSet i ext
  else pure ()

def readCell (t i : Nat) : Read Unit := do
  let pos ← lift (i32 .endOfInput)
  let nSeqId ← lift (num .endOfInput 4)
  update fun st => st.setStream t fun x => x.posSet i pos
  readExt t i
  (List.range nSeqId).forM fun _ => readSeqId t i

/-- C++ `state_read_meta` for the whole cache. -/
def readMetaAll (t cellCount : Nat) : Read SlotInfo := do
  let st ← state
  if (st.cache.cellsOf t).size < cellCount then throw .rejected
  else
    update clear
    (List.range cellCount).forM (readCell t)
    update fun st => st.setCache (st.cache.setHead t 0)
    return { s0 := t, s1 := t, strm := [t], idxs := [List.range cellCount] }

/-- C++ `slot_info::is_contiguous`. -/
def isContiguous (sl : SlotInfo) : Bool :=
  match sl.idxs with
  | [] => true
  | [] :: _ => true
  | (h :: l) :: rest => rest.isEmpty && decide (h :: l = List.range' h (l.length + 1))

/-- Write the rows of a slot: one block if the slot is contiguous, row by row if not. -/
def writeSlot (sl : SlotInfo) (base row : Nat) (bs : List UInt8) (m : Mem) : Mem :=
  if isContiguous sl then m.write (base + (sl.idxs.headD []).headD 0 * row) bs
  else m.writeRows base row (sl.idxs.headD []) bs

/-- The rows of a tensor in the input: type, row size and the data. -/
def parseRows (r : RowShape) (cellCount : Nat) : Parse (List UInt8) := do
  let id ← i32 .endOfInput
  require .rejected (r.id = id)
  let size ← num .endOfInput 8
  require .rejected (r.rowSize = size)
  bytes .endOfInput (cellCount * r.rowSize)

def parseVHead (v : VShape) : Parse Unit := do
  let id ← i32 .endOfInput
  require .rejected (v.id = id)
  let el ← num .endOfInput 4
  require .rejected (v.ty.typeSize = el)
  let n ← num .endOfInput 4
  require .rejected (v.nEmbdGqa = n)

/-- The checks at the start of `state_read_data`. -/
def parseDataHead (vTrans : Bool) (nLayer size cellCount : Nat) : Parse Unit := do
  let vTransRef ← num .endOfInput 4
  let nLayerRef ← num .endOfInput 4
  require .rejected (nLayerRef = nLayer)
  require .rejected (cellCount ≤ size)
  require .rejected (vTrans = (vTransRef != 0))

def setK (st : KvState) (il : Nat) (m : Mem) : KvState := { st with k := Function.update st.k il m }

def setV (st : KvState) (il : Nat) (m : Mem) : KvState := { st with v := Function.update st.v il m }

def readK (nStream t size cellCount : Nat) (sl : SlotInfo) (L : LayerShape × Nat) : Read Unit := do
  let bs ← lift (parseRows L.1.k cellCount)
  update fun st => st.setK L.2
    (writeSlot sl (kBase L.1.k size nStream t) L.1.k.rowSize bs (st.k L.2))

def readV (nStream t size cellCount : Nat) (sl : SlotInfo) (L : LayerShape × Nat) : Read Unit :=
  match L.1.v with
  | none => pure ()
  | some v => do
    let bs ← lift (parseRows v.toRowShape cellCount)
    update fun st => st.setV L.2
      (writeSlot sl (vBase false v.toRowShape size nStream t) v.rowSize bs (st.v L.2))

/-- Write one element of all cells of a slot into a transposed V tensor. -/
def writeElem (sl : SlotInfo) (base size el j : Nat) (bs : List UInt8) (m : Mem) : Mem :=
  if isContiguous sl then
    m.write (base + u32 ((sl.idxs.headD []).headD 0 + j * size) * el) bs
  else m.writeRows base el ((sl.idxs.headD []).map fun i => u32 (i + j * size)) bs

def readVTrans (nStream t size cellCount : Nat) (sl : SlotInfo) (L : LayerShape × Nat) : Read Unit :=
  match L.1.v with
  | none => pure ()
  | some v => do
    lift (parseVHead v)
    (List.range v.nEmbdGqa).forM fun j => do
      let bs ← lift (bytes .endOfInput (cellCount * v.ty.typeSize))
      update fun st => st.setV L.2
        (writeElem sl (vBase true v.toRowShape size nStream t) size v.ty.typeSize j bs (st.v L.2))

/-- C++ `state_read_data`. -/
def stateReadData (t cellCount : Nat) (sl : SlotInfo) : Read Unit := do
  let st ← state
  if st.cache.pgEnabled then throw .rejected
  else
    let size := (st.cache.cellsOf t).size
    let n := st.cache.nStream
    lift (parseDataHead st.cache.vTrans st.layers.length size cellCount)
    st.layers.zipIdx.forM (readK n t size cellCount sl)
    st.layers.zipIdx.forM
      (if st.cache.vTrans then readVTrans n t size cellCount sl else readV n t size cellCount sl)

/-- C++ `state_read_meta`. -/
def stateReadMeta (t cellCount : Nat) (seq : Option SeqId) : Read SlotInfo :=
  match seq with
  | some q => readMetaSeq cellCount q
  | none => readMetaAll t cellCount

/-- What `state_read` does when a part returned `false`. -/
def cleanUp (st : KvState) (seq : Option SeqId) : KvState :=
  match seq with
  | none => st.clear
  | some q => st.setCache (st.cache.seqRm (some q) (-1) (-1))

def readSection (t cellCount : Nat) (seq : Option SeqId) : Read Unit := fun s =>
  match (do
    let sl ← stateReadMeta t cellCount seq
    stateReadData t cellCount sl : Read Unit) s with
  | .error .rejected s' => .error .restoreFailed { s' with st := s'.st.cleanUp seq }
  | r => r

/-- One stream of `state_read`. -/
def readStream (seq : Option SeqId) (s : Nat) : Read Unit := do
  let cellCount ← lift (num .endOfInput 4)
  if cellCount = 0 then pure ()
  else
    let st ← state
    readSection (match seq with | none => s | some q => st.cache.seqToStream q) cellCount seq

/-- C++ `state_read`; `none` is the sequence id `-1`, the whole cache. -/
def stateRead (seq : Option SeqId) : Read Unit := do
  let st ← state
  if st.cache.pgEnabled then pure ()
  else
    let nStream ← lift (num .endOfInput 4)
    if nStream ≠ st.cache.nStream then throw .nStreamMismatch
    else (List.range st.cache.nStream).forM (readStream seq)

end KvState

end Mallana
