import Mallana.KvCells.Basic

/-!
# The KV cache: state and sequence operations

Model of the metadata side of `llama_kv_cache` (`src/src/llama-kv-cache.{h,cpp}`): the cell tables and
search heads of all streams, the pending stream copies and the block pool of PagedAttention, with the
constructor, `clear`, `seq_rm`, `seq_cp`, `seq_keep`, `seq_add` and `seq_div`. Tensor contents are not
part of this state; `Paged/Rows.lean` adds the rows of the V pool and `State/Basic.lean` the bytes of
all tensors.

The loops of the sequence operations over the cells of one stream have one shape, `KvCells.sweep`:
visit every cell once and remember the first one that the visit emptied. An `std::vector` is a list
whose last element is the back. A failing `GGML_ASSERT` is the result `none`.
-/

namespace Mallana

open Lib

/-- Largest `llama_pos`. -/
def llamaPosMax : Int := 2147483647

/-- C++ `llama_swa_type`. -/
inductive SwaType where
  | none
  | standard
  | chunked
  | symmetric
deriving DecidableEq, Repr

/-- The value of an `int32_t` that is computed in two's complement. -/
def toInt32 (n : Int) : Int := Int.bmod n 4294967296

/-- Is the key at `p0` outside the window of a query at `p1` (C++ `llama_hparams::is_masked_swa`)? -/
def isMaskedSwa (nSwa : Nat) (swaType : SwaType) (p0 p1 : Int) : Bool :=
  match swaType with
  | .none => false
  | .standard => toInt32 nSwa ≤ p1 - p0
  | .chunked => p0 < p1 / nSwa * nSwa
  | .symmetric =>
    let half := (toInt32 nSwa).tdiv 2
    p1 - p0 < -half ∨ half < p1 - p0

/-- In the range of `int32_t` nothing wraps. -/
lemma toInt32_eq {n : Int} (hlo : -2147483648 ≤ n) (hhi : n ≤ 2147483647) : toInt32 n = n := by
  rw [toInt32, Int.bmod_def]
  split
  · omega
  · omega

/-- The members of `llama_kv_cache` that the constructor sets and nothing changes. -/
structure KvParams where
  vTrans : Bool
  nSeqMax : Nat
  nStream : Nat
  nSwa : Nat
  swaType : SwaType
  /-- `hparams.n_pos_per_embd()` -/
  nPosPerEmbd : Nat
  pgEnabled : Bool
  pgBlockSize : Nat
  pgNBlocks : Nat
  /-- a budget of zero means no eviction -/
  triattentionPageBudget : Nat

/-- Metadata of a KV cache (C++ `llama_kv_cache`). -/
structure KvCache extends KvParams where
  vHeads : List Nat
  vCells : List KvCells
  /-- pending stream copies, source and destination (C++ `sc_info`) -/
  scInfo : List (Nat × Nat)
  /-- `[stream][logical page]`, `-1` = no physical block -/
  pgPageTable : List (List Int)
  /-- stack of free physical blocks, the last one on top -/
  pgFreeBlocks : List Int

namespace KvCells

/-- Visit the cells in order with `f`, which reports whether it emptied the cell; return the new
    table and the first emptied cell (the size of the table if there is none). -/
def sweep (f : KvCells → Nat → KvCells × Bool) (c : KvCells) : KvCells × Nat :=
  (List.range c.size).foldl
    (fun acc i =>
      let r := f acc.1 i
      (r.1, if r.2 ∧ acc.2 = c.size then i else acc.2))
    (c, c.size)

end KvCells

namespace KvCache

/-- The cell table of a stream (C++ `v_cells[t]`). -/
def cellsOf (c : KvCache) (t : Nat) : KvCells := c.vCells.getD t {}

/-- The search head of a stream (C++ `v_heads[t]`). -/
def headOf (c : KvCache) (t : Nat) : Nat := c.vHeads.getD t 0

def setCells (c : KvCache) (t : Nat) (x : KvCells) : KvCache :=
  { c with vCells := c.vCells.modify t fun _ => x }

def setHead (c : KvCache) (t h : Nat) : KvCache :=
  { c with vHeads := c.vHeads.modify t fun _ => h }

/-- The stream of a sequence (C++ `seq_to_stream`, filled by the constructor and never changed). All
    entries are 0, except that with several streams the first `nStream` entries are their index. -/
def seqToStream (c : KvCache) (s : SeqId) : Nat :=
  if 1 < c.nStream ∧ s.val < c.nStream then s.val else 0

/-- Number of cells of a stream (C++ `get_size`). -/
def getSize (c : KvCache) : Nat := (c.cellsOf (c.seqToStream 0)).size

/-- The physical block of a logical page (C++ `pg_page_table[t][lp]`). -/
def page (c : KvCache) (t lp : Nat) : Int := (c.pgPageTable.getD t []).getD lp (-1)

def setPage (c : KvCache) (t lp : Nat) (b : Int) : KvCache :=
  { c with pgPageTable := c.pgPageTable.modify t (·.modify lp fun _ => b) }

/-- Logical pages of a stream of `kvSize` cells. -/
def pagesFor (kvSize blockSize : Nat) : Nat := (kvSize + blockSize - 1) / blockSize

def freshBlocks (n : Nat) : List Int := (List.range n).map fun i => ((n - i : Nat) : Int)

def releasePage (c : KvCache) (t lp : Nat) : KvCache :=
  { c with pgFreeBlocks := c.pgFreeBlocks ++ [c.page t lp] }.setPage t lp (-1)

def PageLive (c : KvCache) (t lp : Nat) : Prop :=
  let lo := lp * c.pgBlockSize
  let hi := min (lo + c.pgBlockSize) (c.cellsOf 0).size
  ∃ i ∈ List.range' lo (hi - lo), (c.cellsOf t).isEmpty i = false

instance (c : KvCache) (t lp : Nat) : Decidable (c.PageLive t lp) :=
  inferInstanceAs (Decidable (∃ i ∈ List.range' _ _, _))

/-- Give the block of a page back to the pool when all cells of the page are empty (the lambda
    `try_free_page` of `seq_rm`). -/
def tryFreePage (c : KvCache) (t lp : Nat) : KvCache :=
  if c.page t lp < 0 then c
  else if c.PageLive t lp then c
  else c.releasePage t lp

/-- `try_free_page` on every page of a stream. -/
def freePages (c : KvCache) (t : Nat) : KvCache :=
  (List.range (pagesFor (c.cellsOf 0).size c.pgBlockSize)).foldl (fun c lp => c.tryFreePage t lp) c

/-- The constructor, as far as the metadata goes. `pgEnabled` is the outcome of the checks on the
    backend devices and on `LLAMA_PAGING`. -/
def init (vTrans unified pgEnabled : Bool) (kvSize nSeqMax nSwa : Nat) (swaType : SwaType)
    (nPosPerEmbd triattentionPageBudget : Nat) : KvCache :=
  let nStream := if unified then 1 else nSeqMax
  let pages := pagesFor kvSize 32
  let nBlocks := if pgEnabled then (pages + 1) * nStream - 1 else 0
  { vTrans, nSeqMax, nStream, nSwa, swaType, nPosPerEmbd, pgEnabled, triattentionPageBudget
    vHeads := List.replicate nStream 0
    vCells := List.replicate nStream (({} : KvCells).resize kvSize)
    scInfo := []
    pgBlockSize := 32
    pgNBlocks := nBlocks
    pgPageTable := if pgEnabled then List.replicate nStream (List.replicate pages (-1)) else []
    pgFreeBlocks := freshBlocks nBlocks }

/-- The loop body of `clear`. -/
def clearStream (c : KvCache) (t : Nat) : KvCache :=
  let c := (c.setCells t (c.cellsOf t).reset).setHead t 0
  if c.pgEnabled then { c with pgPageTable := c.pgPageTable.modify t (·.map fun _ => -1) } else c

/-- C++ `clear`, metadata part. -/
def clear (c : KvCache) : KvCache :=
  let c := (List.range c.nStream).foldl clearStream c
  if c.pgEnabled then { c with pgFreeBlocks := freshBlocks c.pgNBlocks } else c

/-- Sweep the cells of a stream; a head behind the first emptied cell moves back to it. -/
def sweepStream (c : KvCache) (f : KvCells → Nat → KvCells × Bool) (t : Nat) : KvCache :=
  let r := (c.cellsOf t).sweep f
  let c' := c.setCells t r.1
  if r.2 ≠ (c.cellsOf t).size ∧ r.2 < c.headOf t then c'.setHead t r.2 else c'

/-- The visit of `seq_rm` for one sequence. -/
def seqRmVisit (s : SeqId) (p0 p1 : Int) (x : KvCells) (i : Nat) : KvCells × Bool :=
  if x.posIn i p0 p1 ∧ x.seqHas i s then x.seqRm i s else (x, false)

/-- The visit of `seq_rm` for any sequence. -/
def rmVisit (p0 p1 : Int) (x : KvCells) (i : Nat) : KvCells × Bool :=
  if x.posIn i p0 p1 then (x.rm i, true) else (x, false)

/-- The lower end of a position range: negative means from the start. -/
def rangeLo (p0 : Int) : Int := if p0 < 0 then 0 else p0

/-- The upper end of a position range: negative means without end. -/
def rangeHi (p1 : Int) : Int := if p1 < 0 then llamaPosMax else p1

/-- C++ `seq_rm`; `none` is the sequence id `-1`, any sequence. -/
def seqRm (c : KvCache) (seq : Option SeqId) (p0 p1 : Int) : KvCache :=
  match seq with
  | some s =>
    let c := c.sweepStream (seqRmVisit s (rangeLo p0) (rangeHi p1)) (c.seqToStream s)
    if c.pgEnabled then c.freePages (c.seqToStream s) else c
  | none =>
    let c := (List.range c.nStream).foldl
      (fun c t => c.sweepStream (rmVisit (rangeLo p0) (rangeHi p1)) t) c
    if c.pgEnabled then (List.range c.nStream).foldl freePages c else c

/-- One cell of a copy across streams: `shift` is pending, so the cell is first placed at the
    position its K data has and then shifted. -/
def cpCell (src dst : KvCells) (sDst : SeqId) (i : Nat) : KvCells :=
  let pos := src.posGet i
  let shift := src.getShift i
  let pos := if shift ≠ 0 then pos - shift else pos
  let dst := (dst.posSet i pos).seqAdd i sDst
  let dst := if shift ≠ 0 then (dst.posAdd i shift).1 else dst
  dst.extSet i (src.extGet i)

/-- The cells of a copy across streams: the destination is reset and takes the cells of `sSrc`. -/
def cpCells (src dst : KvCells) (sSrc sDst : SeqId) : KvCells :=
  (List.range src.size).foldl
    (fun x i => if src.seqHas i sSrc then cpCell src x sDst i else x) dst.reset

/-- C++ `seq_cp`. A copy between streams takes the whole stream and is queued in `scInfo`. -/
def seqCp (c : KvCache) (src dst : SeqId) (p0 p1 : Int) : Option KvCache :=
  let s0 := c.seqToStream src
  let s1 := c.seqToStream dst
  if s0 = s1 then
    if src = dst then some c
    else
      let cells := (List.range (c.cellsOf s0).size).foldl
        (fun x i =>
          if x.posIn i (rangeLo p0) (rangeHi p1) ∧ x.seqHas i src then x.seqAdd i dst else x)
        (c.cellsOf s0)
      some (c.setCells s0 cells)
  else
    let cut (p : Int) : Bool := 0 < p ∧ p + 1 < c.getSize
    if cut p0 ∨ cut p1 then none
    else
      let cells := cpCells (c.cellsOf s0) (c.cellsOf s1) src dst
      some { (c.setCells s1 cells).setHead s1 (c.headOf s0) with
        scInfo := c.scInfo ++ [(s0, s1)] }

/-- C++ `seq_keep`. -/
def seqKeep (c : KvCache) (s : SeqId) : KvCache :=
  c.sweepStream (fun x i => x.seqKeep i s) (c.seqToStream s)

/-- The visit of `seq_add`. -/
def seqAddVisit (s : SeqId) (p0 p1 shift : Int) (x : KvCells) (i : Nat) : KvCells × Bool :=
  if x.posIn i p0 p1 ∧ x.seqHas i s then x.posAdd i shift else (x, false)

/-- C++ `seq_add`. Unlike the other operations it moves the head to 0 when no cell was emptied. -/
def seqAdd (c : KvCache) (s : SeqId) (p0 p1 shift : Int) : Option KvCache :=
  if c.nPosPerEmbd ≠ 1 then none
  else if shift = 0 ∨ rangeLo p0 = rangeHi p1 then some c
  else
    let t := c.seqToStream s
    let r := (c.cellsOf t).sweep (seqAddVisit s (rangeLo p0) (rangeHi p1) shift)
    some ((c.setCells t r.1).setHead t (if r.2 ≠ (c.cellsOf t).size then r.2 else 0))

/-- The visit of `seq_div`. -/
def seqDivVisit (s : SeqId) (p0 p1 d : Int) (x : KvCells) (i : Nat) : KvCells × Bool :=
  if x.posIn i p0 p1 ∧ x.seqHas i s then (x.posDiv i d, false) else (x, false)

/-- C++ `seq_div`. -/
def seqDiv (c : KvCache) (s : SeqId) (p0 p1 d : Int) : Option KvCache :=
  if c.nPosPerEmbd ≠ 1 then none
  else if d = 1 ∨ rangeLo p0 = rangeHi p1 then some c
  else
    let t := c.seqToStream s
    some (c.setCells t ((c.cellsOf t).sweep (seqDivVisit s (rangeLo p0) (rangeHi p1) d)).1)

end KvCache

end Mallana
