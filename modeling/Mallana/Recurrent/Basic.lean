import Mathlib.Logic.Equiv.Basic
import Mallana.State.Basic

/-!
# The recurrent memory

Model of `llama_memory_recurrent` (`src/src/llama-memory-recurrent.{h,cpp}`). A cell holds the state of one or more
sequences; the cell of sequence `s` is found through `cells[s].tail`. `find_slot` brings the sequences of a ubatch
into adjacent cells, which moves states between cells: `src` is the row in which the state of a cell
still is, `src0` the row from which the graph copies it.

The cells are a function of their index, of which the first `size` are used; `tail`, `src`, `src0` and `rs_z` are
`none` for `-1`. A function that contains a `GGML_ASSERT` returns `none` if it fails.
-/

namespace Mallana

open Lib

/-- A cell of the recurrent memory (C++ `mem_cell`). -/
structure MemCell where
  pos : Int := -1
  src : Option Nat := none
  src0 : Option Nat := none
  tail : Option Nat := none
  seqId : Finset Nat := ∅

namespace MemCell

def isEmpty (c : MemCell) : Prop := c.seqId = ∅

instance (c : MemCell) : Decidable c.isEmpty := inferInstanceAs (Decidable (c.seqId = ∅))

def hasSeqId (c : MemCell) (seq : Int) : Prop := 0 ≤ seq ∧ seq.toNat ∈ c.seqId

instance (c : MemCell) (seq : Int) : Decidable (c.hasSeqId seq) := inferInstanceAs (Decidable (_ ∧ _))

end MemCell

/-- The memory (C++ `llama_memory_recurrent`). -/
structure Recurrent where
  head : Nat := 0
  size : Nat
  used : Nat := 0
  n : Nat := 0
  rsZ : Option Nat := none
  nSeqMax : Nat
  cells : Nat → MemCell := fun _ => {}

/-- What `find_slot` reads of a ubatch. -/
structure SlotUbatch where
  equalSeqs : Bool := true
  nSeqTokens : Nat
  nSeqs : Nat
  pos : List Int
  seqId : List (List Int)

namespace SlotUbatch

/-- The sequence ids of block `s`, those of its first token. -/
def ids (u : SlotUbatch) (s : Nat) : List Int := u.seqId.getD (s * u.nSeqTokens) []

/-- The first sequence id of block `s`. -/
def first (u : SlotUbatch) (s : Nat) : Nat := ((u.ids s).headD 0).toNat

/-- The position of the last token of block `s`. -/
def lastPos (u : SlotUbatch) (s : Nat) : Int := u.pos.getD (s * u.nSeqTokens + u.nSeqTokens - 1) 0

end SlotUbatch

namespace Recurrent

def modify (m : Recurrent) (i : Nat) (f : MemCell → MemCell) : Recurrent :=
  { m with cells := Function.update m.cells i (f (m.cells i)) }

/-- The cell of sequence `s`. -/
def tail (m : Recurrent) (s : Nat) : Option Nat := (m.cells s).tail

/-- `--used` in `uint32_t`. -/
def decr (used : Nat) : Nat := (used + 4294967295) % 4294967296

/-- C++ `clear`, without the tensors. -/
def clear (m : Recurrent) : Recurrent :=
  { m with
    head := 0
    used := 0
    cells := fun i => { m.cells i with pos := -1, seqId := ∅, src := none, tail := none } }

def startPos (p0 : Int) : Int := if p0 < 0 then 0 else p0

def endPos (p1 : Int) : Int := if p1 < 0 then 2147483647 else p1

/-- Move the head to a freed cell before it; `size` stands for no freed cell. -/
def lowerHead (r : Recurrent × Nat) : Recurrent :=
  if r.2 ≠ r.1.size ∧ r.2 < r.1.head then { r.1 with head := r.2 } else r.1

/-- One cell of the loop in `seq_rm`, with the first freed cell so far. -/
def rmCell (seq p0 p1 : Int) (r : Recurrent × Nat) (i : Nat) : Recurrent × Nat :=
  let c := r.1.cells i
  if p0 ≤ c.pos ∧ c.pos < p1 ∧ (seq < 0 ∨ c.hasSeqId seq) then
    let ids := if seq < 0 then ∅ else c.seqId.erase seq.toNat
    if ids = ∅ then
      ({ r.1.modify i fun c => { c with seqId := ids, pos := -1, src := none } with
          used := if 0 ≤ c.pos then decr r.1.used else r.1.used },
        if r.2 = r.1.size then i else r.2)
    else (r.1.modify i fun c => { c with seqId := ids }, r.2)
  else r

/-- The tail of a sequence whose cell the range covers is invalidated. -/
def rmTail (m : Recurrent) (seq p0 p1 : Int) : Recurrent :=
  match m.tail seq.toNat with
  | none => m
  | some t =>
    if p0 ≤ (m.cells t).pos ∧ (m.cells t).pos < p1 then
      m.modify seq.toNat fun c => { c with tail := none }
    else m

/-- A range that ends in the middle of a sequence: the state cannot be taken back. -/
def Partial (m : Recurrent) (seq p0 p1 : Int) : Prop :=
  ∃ t ∈ m.tail seq.toNat, 0 < p0 ∧ p0 ≤ (m.cells t).pos ∧ (m.cells t).pos < p1

instance (m : Recurrent) (seq p0 p1 : Int) : Decidable (m.Partial seq p0 p1) :=
  inferInstanceAs (Decidable (∃ t ∈ m.tail seq.toNat, _))

/-- C++ `seq_rm`. -/
def seqRm (m : Recurrent) (seq p0 p1 : Int) : Bool × Recurrent :=
  let p0 := startPos p0
  let p1 := endPos p1
  if m.size ≤ seq then (false, m)
  else if 0 ≤ seq ∧ m.Partial seq p0 p1 then (false, m)
  -- a negative sequence: everything or nothing
  else if seq < 0 ∧ p0 ≠ p1 ∧ (p0 ≠ 0 ∨ p1 ≠ 2147483647) then (false, m)
  else
    let m := if 0 ≤ seq then m.rmTail seq p0 p1 else m
    (true, lowerHead ((List.range m.size).foldl (rmCell seq p0 p1) (m, m.size)))

/-- Sequence `s` is not in cell `t` any more. -/
def leave (m : Recurrent) (s t : Nat) : Recurrent :=
  (m.modify t fun c => { c with seqId := c.seqId.erase s }).modify s fun c => { c with tail := none }

/-- Take sequence `s` out of its cell. -/
def release (m : Recurrent) (s : Nat) : Recurrent :=
  match m.tail s with
  | none => m
  | some t =>
    if ((m.leave s t).cells t).isEmpty then
      { (m.leave s t).modify t fun c => { c with pos := -1, src := none } with used := decr m.used }
    else m.leave s t

/-- Enter a sequence in cell `i`. -/
def enter (i : Nat) (m : Recurrent) (seq : Int) : Recurrent :=
  (m.modify i fun c => { c with seqId := insert seq.toNat c.seqId }).modify seq.toNat
    fun c => { c with tail := some i }

/-- C++ `seq_cp`; the positions are not used. -/
def seqCp (m : Recurrent) (src dst : Int) : Recurrent :=
  if src = dst then m
  else if 0 ≤ dst ∧ dst < m.size ∧ 0 ≤ src ∧ src < m.size then
    let m := m.release dst.toNat
    match m.tail src.toNat with
    | none => m
    | some t => enter t m dst
  else m

/-- One cell of the loop in `seq_keep`, with the first freed cell so far. -/
def keepCell (seq : Int) (r : Recurrent × Nat) (i : Nat) : Recurrent × Nat :=
  let m := if (i : Int) ≠ seq then r.1.modify i fun c => { c with tail := none } else r.1
  let c := m.cells i
  if ¬ c.hasSeqId seq then
    ({ m.modify i fun c => { c with pos := -1, src := none, seqId := ∅ } with
        used := if 0 ≤ c.pos then decr m.used else m.used },
      if r.2 = m.size then i else r.2)
  else (m.modify i fun c => { c with seqId := {seq.toNat} }, r.2)

/-- C++ `seq_keep`. -/
def seqKeep (m : Recurrent) (seq : Int) : Recurrent :=
  lowerHead ((List.range m.size).foldl (keepCell seq) (m, m.size))

def movePos (m : Recurrent) (seq p0 p1 : Int) (f : Int → Int) : Recurrent :=
  if 0 ≤ seq ∧ seq < m.size then
    match m.tail seq.toNat with
    | none => m
    | some t =>
      if (m.cells t).hasSeqId seq ∧ p0 ≤ (m.cells t).pos ∧ (m.cells t).pos < p1 then
        m.modify t fun c => { c with pos := f c.pos }
      else m
  else m

/-- C++ `seq_add`. -/
def seqAdd (m : Recurrent) (seq p0 p1 shift : Int) : Recurrent :=
  if shift = 0 then m
  else if startPos p0 = endPos p1 then m
  else m.movePos seq (startPos p0) (endPos p1) (· + shift)

/-- C++ `seq_div`. -/
def seqDiv (m : Recurrent) (seq p0 p1 d : Int) : Recurrent :=
  if d = 1 then m
  else if startPos p0 = endPos p1 then m
  else m.movePos seq (startPos p0) (endPos p1) (·.tdiv d)

/-- The checks of the sequence ids. The ids behind the first of a block leave their cells, since they will
    share the cell of the first. The list has each id with its place in its block. -/
def dropShared (m : Recurrent) : List (Int × Nat) → Bool × Recurrent
  | [] => (true, m)
  | (seq, j) :: rest =>
    if seq < 0 ∨ m.size ≤ seq then (false, m)
    else dropShared (if 0 < j then m.release seq.toNat else m) rest

/-- The first empty cell from `next` on, around the end. -/
def firstEmpty (m : Recurrent) : Nat → Nat → Nat
  | 0, next => next
  | fuel + 1, next =>
    let next := if m.size ≤ next then next - m.size else next
    if (m.cells next).isEmpty then next else firstEmpty m fuel (next + 1)

/-- The first empty cell behind `next`, around the end. -/
def nextEmpty (m : Recurrent) : Nat → Nat → Nat
  | 0, next => next
  | fuel + 1, next =>
    let next := if m.size ≤ next + 1 then next + 1 - m.size else next + 1
    if (m.cells next).isEmpty then next else nextEmpty m fuel next

/-- The search for cells: the memory, the next empty cell and the range of the cells in use. -/
structure Search where
  mem : Recurrent
  next : Nat
  min : Nat
  max : Nat

def ownsCell (m : Recurrent) (seq : Nat) : Option Bool :=
  match m.tail seq with
  | none => some false
  | some t =>
    -- `GGML_ASSERT(cell.has_seq_id(seq_id))`
    if seq ∈ (m.cells t).seqId then some (decide ((m.cells t).seqId.card = 1)) else none

/-- Give the sequence the empty cell `e`, with a copy of what it shares. -/
def moveTo (m : Recurrent) (seq e : Nat) : Option Recurrent :=
  -- `GGML_ASSERT(empty_cell.is_empty())`
  if ¬ (m.cells e).isEmpty then none
  else
    match m.tail seq with
    | none => some (m.modify seq fun c => { c with tail := some e })
    | some t =>
      let m' := (m.modify t fun c => { c with seqId := c.seqId.erase seq }).modify e fun c =>
        { c with pos := (m.cells t).pos, src := (m.cells t).src, seqId := insert seq c.seqId }
      -- `GGML_ASSERT(!orig_cell.is_empty())`
      if (m'.cells t).isEmpty then none
      else some (m'.modify seq fun c => { c with tail := some e })

/-- The cell of block `s`. -/
def takeCell (u : SlotUbatch) (x : Search) (s : Nat) : Option Search := do
  let seq := u.first s
  let owns ← x.mem.ownsCell seq
  let x ← if owns then some x else do
    let m ← x.mem.moveTo seq x.next
    some { x with mem := m, next := if s + 1 < u.nSeqs then m.nextEmpty m.size x.next else x.next }
  let t := (x.mem.tail seq).getD 0
  return { x with min := Nat.min x.min t, max := Nat.max x.max t }

def swapCells (m : Recurrent) (a b : Nat) : Recurrent :=
  { m with cells := fun j =>
      let d := m.cells (Equiv.swap a b j)
      { m.cells j with
        pos := d.pos
        src := d.src
        seqId := d.seqId
        tail := (m.cells j).tail.map (Equiv.swap a b) } }

/-- Bring block `s` into its place. -/
def gather (u : SlotUbatch) (lo : Nat) (m : Recurrent) (s : Nat) : Recurrent :=
  let src := (m.tail (u.first s)).getD 0
  if s + lo ≠ src then m.swapCells (s + lo) src else m

/-- Position and sequences of block `s`. -/
def place (u : SlotUbatch) (lo : Nat) (m : Recurrent) (s : Nat) : Recurrent :=
  (u.ids s).foldl (enter (s + lo))
    (m.modify (s + lo) fun c => { c with pos := u.lastPos s, seqId := ∅ })

/-- How many cells have their state in row `i`. -/
def refCount (m : Recurrent) (i : Nat) : Nat :=
  (List.range m.size).countP fun j => (m.cells j).src = some i

/-- The first row in the range that no cell refers to, the zero state. -/
def zeroRow (m : Recurrent) (lo hi : Nat) : Option Nat :=
  (List.range' lo (hi - lo + 1)).find? fun i => m.refCount i = 0

def stage (m : Recurrent) (lo hi : Nat) : Option Recurrent :=
  let z := m.zeroRow lo hi
  -- `GGML_ASSERT(rs_z >= 0)` if it is needed
  if z.isNone && (List.range' lo (hi - lo + 1)).any fun i => (m.cells i).src.isNone then none
  else some
    { m with
      rsZ := z
      cells := fun i =>
        if lo ≤ i ∧ i ≤ hi then
          { m.cells i with src0 := (m.cells i).src.orElse fun _ => z, src := some i }
        else m.cells i }

def countUsed (m : Recurrent) : Nat := (List.range m.size).countP fun i => ¬ (m.cells i).isEmpty

/-- C++ `find_slot`. -/
def findSlot (m : Recurrent) (u : SlotUbatch) : Option (Bool × Recurrent) :=
  let m := if (m.used + 2 * u.nSeqs) % 4294967296 < m.head then { m with head := 0 } else m
  -- `GGML_ASSERT(ubatch.equal_seqs())`
  if ¬ u.equalSeqs then none
  else
    let r := m.dropShared ((List.range u.nSeqs).flatMap fun s => (u.ids s).zipIdx)
    if r.1 = false then some r
    else do
      let m := r.2
      let x ← (List.range u.nSeqs).foldlM (takeCell u)
        { mem := m, next := m.firstEmpty m.size m.head, min := m.size - 1, max := 0 }
      let m := (List.range u.nSeqs).foldl (gather u x.min) x.mem
      let m := (List.range u.nSeqs).foldl (place u x.min) m
      let m ← m.stage x.min x.max
      let n := x.max - x.min + 1
      return (decide (u.nSeqs ≤ n), { m with head := x.min, n, used := m.countUsed })

def findSlots (m : Recurrent) : List SlotUbatch → Option (Bool × Recurrent)
  | [] => some (true, m)
  | u :: us => do
    let r ← m.findSlot u
    if r.1 then findSlots r.2 us else return r

/-- C++ `prepare`: `n` and `rs_z` are not restored. -/
def prepare (m : Recurrent) (us : List SlotUbatch) : Option (Bool × Recurrent) := do
  let r ← m.findSlots us
  return (r.1, { r.2 with cells := m.cells, used := m.used, head := m.head })

section Graph
variable {R : Type} [Zero R] (m : Recurrent)

/-- C++ `s_copy`. -/
def sCopy (i : Nat) : Nat := ((m.cells (i + m.head)).src0).getD 0

/-- The rows of a state tensor after `build_rs` cleared the zero state. -/
def zeroed (rows : Nat → R) : Nat → R := m.rsZ.elim rows fun z => Function.update rows z 0

/-- The states from which the blocks of a ubatch start (C++ `output_states` in `build_rs`). -/
def outputStates (rows : Nat → R) (s : Nat) : R := m.zeroed rows (m.sCopy s)

/-- The rows after the graph: `build_rs` copies the rows behind those of the ubatch, and the states `out` of the
    blocks are stored. -/
def buildRs (nSeqs : Nat) (out rows : Nat → R) (i : Nat) : R :=
  if m.head ≤ i ∧ i < m.head + nSeqs then out (i - m.head)
  else if m.head ≤ i ∧ i < m.head + m.n then m.zeroed rows (m.sCopy (i - m.head))
  else m.zeroed rows i

end Graph

end Recurrent

/-- The tensors of a layer; layers that are not recurrent have none. -/
structure RsLayer where
  r : Option RowShape
  s : Option RowShape

/-- The memory with the contents of its tensors, by layer. -/
structure RsState where
  mem : Recurrent
  layers : List RsLayer
  r : Nat → Mem
  s : Nat → Mem

namespace RsState

open ByteParser ReadM

abbrev Read (α : Type) : Type := ReadM Fault RsState α

def setMem (st : RsState) (f : Recurrent → Recurrent) : RsState := { st with mem := f st.mem }

/-- C++ `clear` with the tensors. -/
def clear (st : RsState) : RsState :=
  { st with mem := st.mem.clear, r := fun _ _ => 0, s := fun _ _ => 0 }

/-- One cell of a single sequence: its position, and no sequence ids. -/
def parseCell : ByteParser Fault Int := do
  let pos ← i32 .endOfInput
  let nSeqId ← num .endOfInput 4
  require .rejected (nSeqId = 0)
  return pos

def seqUbatch (cellCount : Nat) (pos : List Int) (dest : Int) : SlotUbatch :=
  { nSeqTokens := cellCount, nSeqs := 1, pos, seqId := [[dest]] }

def keepRows (m : Recurrent) (cellCount : Nat) : Recurrent :=
  (List.range cellCount).foldl (fun m i => m.modify (m.head + i) fun c => { c with src := some (m.head + i) }) m

/-- The checks behind `find_slot`. -/
def SlotOk (m : Recurrent) (cellCount : Nat) (pos : List Int) (dest : Int) : Prop :=
  m.head + cellCount ≤ m.size ∧ (m.cells m.head).pos = pos.getD 0 0 ∧
    (m.cells (m.head + cellCount - 1)).pos = pos.getD (cellCount - 1) 0 ∧
    (m.cells m.head).hasSeqId dest ∧ (m.cells (m.head + cellCount - 1)).hasSeqId dest

instance (m : Recurrent) (cellCount : Nat) (pos : List Int) (dest : Int) :
    Decidable (SlotOk m cellCount pos dest) := inferInstanceAs (Decidable (_ ∧ _ ∧ _ ∧ _ ∧ _))

/-- C++ `state_read_meta` for a single sequence. -/
def readMetaSeq (cellCount : Nat) (dest : Int) : Read Unit := do
  update fun st => st.setMem fun m => (m.seqRm dest (-1) (-1)).2
  if cellCount = 0 then pure ()
  else
    let pos ← lift (times parseCell cellCount)
    let st ← state
    match st.mem.findSlot (seqUbatch cellCount pos dest) with
    | none => throw .assertFailed
    | some (ok, m) =>
      update fun st => st.setMem fun _ => m
      if ok = false then throw .rejected
      else if ¬ SlotOk m cellCount pos dest then throw .assertFailed
      else update fun st => st.setMem fun m => keepRows m cellCount

/-- One sequence id of cell `i`. -/
def readSeqId (i : Nat) : Read Unit := do
  let id ← lift (i32 .endOfInput)
  let st ← state
  if id < 0 ∨ (st.mem.nSeqMax : Int) ≤ id then throw .rejected
  else
    update fun st => st.setMem fun m => m.modify i fun c => { c with seqId := insert id.toNat c.seqId }
    if (st.mem.tail id.toNat).isSome then throw .rejected
    else update fun st => st.setMem fun m => m.modify id.toNat fun c => { c with tail := some i }

def readCell (i : Nat) : Read Unit := do
  let pos ← lift (i32 .endOfInput)
  let nSeqId ← lift (num .endOfInput 4)
  update fun st => st.setMem fun m => m.modify i fun c => { c with pos }
  (List.range nSeqId).forM fun _ => readSeqId i

/-- C++ `state_read_meta` for the whole memory. -/
def readMetaAll (cellCount : Nat) : Read Unit := do
  let st ← state
  if st.mem.size < cellCount then throw .rejected
  else
    update clear
    (List.range cellCount).forM readCell
    update fun st => st.setMem fun m => keepRows { m with head := 0, used := cellCount } cellCount

/-- C++ `state_read_meta`; `-1` is the whole memory. -/
def stateReadMeta (cellCount : Nat) (dest : Int) : Read Unit :=
  if dest ≠ -1 then readMetaSeq cellCount dest else readMetaAll cellCount

/-- The checks at the start of `state_read_data`. -/
def parseDataHead (nLayer size cellCount : Nat) : ByteParser Fault Unit := do
  let sTrans ← num .endOfInput 4
  let nLayerRef ← num .endOfInput 4
  require .rejected (nLayerRef = nLayer)
  require .rejected (cellCount ≤ size)
  require .rejected (sTrans = 0)

def readRows (cellCount : Nat) (shape : Option RowShape) (set : Mem → RsState → RsState)
    (get : RsState → Mem) : Read Unit :=
  match shape with
  | none => pure ()
  | some r => do
    let bs ← lift (KvState.parseRows r cellCount)
    update fun st => set ((get st).write (st.mem.head * r.rowSize) bs) st

/-- C++ `state_read_data`. -/
def stateReadData (cellCount : Nat) : Read Unit := do
  let st ← state
  lift (parseDataHead st.layers.length st.mem.size cellCount)
  st.layers.zipIdx.forM fun L => readRows cellCount L.1.r
    (fun m st => { st with r := Function.update st.r L.2 m }) fun st => st.r L.2
  st.layers.zipIdx.forM fun L => readRows cellCount L.1.s
    (fun m st => { st with s := Function.update st.s L.2 m }) fun st => st.s L.2

/-- What `state_read` does when a part returned `false`. -/
def cleanUp (st : RsState) (dest : Int) : RsState :=
  if dest = -1 then st.clear else st.setMem fun m => (m.seqRm dest (-1) (-1)).2

/-- C++ `state_read`. -/
def stateRead (dest : Int) : Read Unit := do
  let cellCount ← lift (num .endOfInput 4)
  fun s =>
    match (do stateReadMeta cellCount dest; stateReadData cellCount : Read Unit) s with
    | .error .rejected s' => .error .restoreFailed { s' with st := s'.st.cleanUp dest }
    | r => r

end RsState

end Mallana
