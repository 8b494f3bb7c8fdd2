import Mathlib.Algebra.Order.Ring.Int
import Mathlib.Order.Fin.Basic
import Mallana.Lib.CountMap
import Mallana.Lib.ListUpdate

/-!
# KV cells

Model of `src/src/llama-kv-cells.h`: the metadata table `llama_kv_cells` of one stream of the KV
cache. The four parallel vectors `pos`, `ext`, `shift` and `seq` are one list of `Cell` records; the
redundant indexes `used` and `seq_pos` are kept as the source keeps them, so that whether they agree
with the cells is a theorem and not a definition.

C++ → Lean naming: `llama_kv_cells` → `KvCells`, `llama_kv_cell_ext` → `KvCellExt`, and each method
in camel case (`seq_rm` → `seqRm`, `pos_set` → `posSet`, …); the two overloads of `cp` and `set` are
`cp`/`cpIdxs` and `set`/`setIdxs`. `assert` is a debug check and is not part of the functions here:
the asserted preconditions are stated in `KvCells/Run.lean`. A `bool` result is returned beside the
new table. Positions are mathematical integers.
-/

namespace Mallana

open Lib

/-- The number of sequences a cache can tell apart (C++ `LLAMA_MAX_SEQ`). -/
abbrev llamaMaxSeq : Nat := 256

abbrev SeqId : Type := Fin llamaMaxSeq

instance : NeZero llamaMaxSeq := ⟨by decide⟩

instance : LawfulBEq SeqId := inferInstance

/-- 2-D spatial position of a cell (C++ `llama_kv_cell_ext`). -/
structure KvCellExt where
  x : Int := 0
  y : Int := 0
deriving DecidableEq, Repr

/-- One cell: entry `i` of the vectors `pos`, `ext`, `shift` and `seq`. The default is the cell
    that `reset` leaves behind. -/
structure Cell where
  pos : Int := -1
  ext : KvCellExt := {}
  shift : Int := 0
  seq : Finset SeqId := ∅
deriving DecidableEq

/-- The cell table of one stream (C++ `llama_kv_cells`). -/
structure KvCells where
  hasShift : Bool := false
  /-- indices of the used cells -/
  used : Finset Nat := ∅
  cells : List Cell := []
  /-- `seqPos s` counts how often each position is present for sequence `s` -/
  seqPos : SeqId → CountMap Int := fun _ => ∅

namespace KvCells

/-- Number of cells (C++ `size`). -/
def size (c : KvCells) : Nat := c.cells.length

/-- The contents of cell `i`. -/
def cell (c : KvCells) (i : Nat) : Cell := c.cells.getD i {}

/-- Overwrite the contents of cell `i`; the indexes are left alone. -/
def putCell (c : KvCells) (i : Nat) (x : Cell) : KvCells :=
  { c with cells := c.cells.modify i fun _ => x }

/-- C++ `seq_pos_dec`. -/
def seqPosDec (c : KvCells) (s : SeqId) (p : Int) : KvCells :=
  { c with seqPos := Function.update c.seqPos s ((c.seqPos s).dec p) }

/-- C++ `seq_pos_inc`. -/
def seqPosInc (c : KvCells) (s : SeqId) (p : Int) : KvCells :=
  { c with seqPos := Function.update c.seqPos s ((c.seqPos s).inc p) }

/-- Remove cell `i` from the position indexes (C++ `seq_pos_rm`). The loop over all sequences
    touches each index `seq_pos[s]` on its own. -/
def seqPosRm (c : KvCells) (i : Nat) : KvCells :=
  { c with seqPos := fun s =>
      if s ∈ (c.cell i).seq then (c.seqPos s).dec (c.cell i).pos else c.seqPos s }

/-- Add cell `i` to the position indexes (C++ `seq_pos_add`). -/
def seqPosAdd (c : KvCells) (i : Nat) : KvCells :=
  { c with seqPos := fun s =>
      if s ∈ (c.cell i).seq then (c.seqPos s).inc (c.cell i).pos else c.seqPos s }

/-- C++ `reset`. -/
def reset (c : KvCells) : KvCells :=
  { hasShift := false, used := ∅, cells := c.cells.map fun _ => {}, seqPos := fun _ => ∅ }

/-- C++ `reset_shift`. -/
def resetShift (c : KvCells) : KvCells :=
  { c with hasShift := false, cells := c.cells.map fun x => { x with shift := 0 } }

/-- C++ `resize`: resize every vector, then `reset`. -/
def resize (c : KvCells) (n : Nat) : KvCells :=
  reset { c with cells := c.cells.take n ++ List.replicate (n - c.size) {} }

/-- C++ `get_used`. -/
def getUsed (c : KvCells) : Nat := c.used.card

/-- Index of the last used cell plus one, 0 if there is none (C++ `used_max_p1`). -/
def usedMaxP1 (c : KvCells) : Nat :=
  if h : c.used.Nonempty then c.used.max' h + 1 else 0

/-- Copy the state of the listed cells (C++ `cp(idxs)`). Only `pos`, `ext` and `seq` are copied: the
    result is a snapshot for `setIdxs`, its own indexes stay empty. -/
def cpIdxs (c : KvCells) (idxs : List Nat) : KvCells :=
  { ({} : KvCells).resize idxs.length with
    cells := idxs.map fun i =>
      { pos := (c.cell i).pos, ext := (c.cell i).ext, seq := (c.cell i).seq } }

/-- Copy the state of cells `[i, i + n)` (C++ `cp(i, n)`). -/
def cp (c : KvCells) (i n : Nat) : KvCells := c.cpIdxs (List.range' i n)

/-- The loop body of `set`: take over the state `o` of a snapshot cell into cell `i`. -/
def setCell (c : KvCells) (i : Nat) (o : Cell) : KvCells :=
  let old := c.cell i
  let c := if old.pos = -1 ∧ o.pos ≠ -1 then { c with used := insert i c.used } else c
  let c := if old.pos ≠ -1 ∧ o.pos = -1 then { c with used := c.used.erase i } else c
  let c := if old.pos ≠ -1 then c.seqPosRm i else c
  let c := c.putCell i { old with pos := o.pos, ext := o.ext, seq := o.seq }
  if o.pos ≠ -1 then c.seqPosAdd i else c

/-- Set the state of the listed cells (C++ `set(idxs, other)`). -/
def setIdxs (c : KvCells) (idxs : List Nat) (other : KvCells) : KvCells :=
  (idxs.zip other.cells).foldl (fun c io => c.setCell io.1 io.2) c

/-- Set the state of cells `[i, i + other.size())` (C++ `set(i, other)`). -/
def set (c : KvCells) (i : Nat) (other : KvCells) : KvCells :=
  c.setIdxs (List.range' i other.size) other

/-- C++ `is_empty`. -/
def isEmpty (c : KvCells) (i : Nat) : Bool := (c.cell i).pos = -1

/-- C++ `seq_count`. -/
def seqCount (c : KvCells) (i : Nat) : Nat := (c.cell i).seq.card

/-- C++ `seq_has`. -/
def seqHas (c : KvCells) (i : Nat) (s : SeqId) : Bool := s ∈ (c.cell i).seq

/-- The first sequence id of the cell; `none` stands for the result `-1` (C++ `seq_get`). -/
def seqGet (c : KvCells) (i : Nat) : Option SeqId :=
  if h : (c.cell i).seq.Nonempty then some ((c.cell i).seq.min' h) else none

/-- C++ `pos_get`. -/
def posGet (c : KvCells) (i : Nat) : Int := (c.cell i).pos

/-- C++ `ext_get`. -/
def extGet (c : KvCells) (i : Nat) : KvCellExt := (c.cell i).ext

/-- C++ `get_shift`. -/
def getShift (c : KvCells) (i : Nat) : Int := (c.cell i).shift

/-- Is the position of the cell within `[p0, p1)` (C++ `pos_in`)? -/
def posIn (c : KvCells) (i : Nat) (p0 p1 : Int) : Bool :=
  p0 ≤ (c.cell i).pos ∧ (c.cell i).pos < p1

/-- Least position of a sequence in the table, `-1` if it is not present (C++ `seq_pos_min`). -/
def seqPosMin (c : KvCells) (s : SeqId) : Int := (c.seqPos s).minKey?.getD (-1)

/-- Greatest position of a sequence in the table, `-1` if not present (C++ `seq_pos_max`). -/
def seqPosMax (c : KvCells) (s : SeqId) : Int := (c.seqPos s).maxKey?.getD (-1)

/-- Clear a non-empty cell (C++ `rm`). -/
def rm (c : KvCells) (i : Nat) : KvCells :=
  let c := (c.seqPosRm i).putCell i {}
  { c with used := c.used.erase i }

/-- Remove a sequence from a cell that has it; true if the cell becomes empty (C++ `seq_rm`). -/
def seqRm (c : KvCells) (i : Nat) (s : SeqId) : KvCells × Bool :=
  let x := c.cell i
  let c := (c.putCell i { x with seq := x.seq.erase s }).seqPosDec s x.pos
  if x.seq.erase s = ∅ then
    let c := c.putCell i {}
    ({ c with used := c.used.erase i }, true)
  else
    (c, false)

/-- Keep only one sequence in a cell; true if the cell becomes empty (C++ `seq_keep`). -/
def seqKeep (c : KvCells) (i : Nat) (s : SeqId) : KvCells × Bool :=
  let x := c.cell i
  if s ∈ x.seq then
    (((c.seqPosRm i).putCell i { x with seq := {s} }).seqPosInc s x.pos, false)
  else if x.seq ≠ ∅ then
    let c := (c.seqPosRm i).putCell i {}
    ({ c with used := c.used.erase i }, true)
  else
    (c, false)

/-- Add a sequence to a non-empty cell that does not have it (C++ `seq_add`). -/
def seqAdd (c : KvCells) (i : Nat) (s : SeqId) : KvCells :=
  let x := c.cell i
  (c.putCell i { x with seq := insert s x.seq }).seqPosInc s x.pos

/-- Set the position of an empty cell (C++ `pos_set`). -/
def posSet (c : KvCells) (i : Nat) (p : Int) : KvCells :=
  let c := c.putCell i { c.cell i with pos := p }
  { c with used := insert i c.used }

/-- C++ `ext_set`. -/
def extSet (c : KvCells) (i : Nat) (e : KvCellExt) : KvCells :=
  c.putCell i { c.cell i with ext := e }

/-- Shift the position of a non-empty cell; true if the cell becomes empty (C++ `pos_add`). A cell
    that becomes empty this way keeps its `ext`. -/
def posAdd (c : KvCells) (i : Nat) (d : Int) : KvCells × Bool :=
  let x := c.cell i
  let c := { c.seqPosRm i with hasShift := true }
  if x.pos + d < 0 then
    let c := c.putCell i { x with pos := -1, shift := 0, seq := ∅ }
    ({ c with used := c.used.erase i }, true)
  else
    ((c.putCell i { x with pos := x.pos + d, shift := x.shift + d }).seqPosAdd i, false)

/-- Divide the position of a non-empty cell, truncating (C++ `pos_div`). -/
def posDiv (c : KvCells) (i : Nat) (d : Int) : KvCells :=
  let x := c.cell i
  let p := x.pos.tdiv d
  let c := (c.seqPosRm i).putCell i { x with pos := p, shift := x.shift + (x.pos - p) }
  { c.seqPosAdd i with hasShift := true }

end KvCells

end Mallana
