import Mallana.Lib.Ranges

/-!
# The dynamic tensor allocator

Model of `ggml_dyn_tallocr` in `ggml-alloc.c`. A chunk has its free blocks in a list; `n_free_blocks`
is its length. Shifting elements of the fixed array is inserting into and erasing from the list, and
the indices at which the source reads or writes `free_blocks` are returned along with the result,
since one of them can be the element behind the array. A result `none` is an abort.

`size_t` arithmetic of the allocation is reduced modulo `2^64`. The sums of `ggml_dyn_tallocr_free_bytes`
are bounds of ranges inside a chunk, and a chunk is smaller than that. The debug build's table of tensors and the message about the
largest block are left out.
-/

namespace Mallana.Alloc

open Lib

/-- The number of values of `size_t`. -/
def sizeMod : Nat := 2 ^ 64

/-- C++ `SIZE_MAX`. -/
def sizeMax : Nat := 2 ^ 64 - 1

/-- C++ `MAX_FREE_BLOCKS`. -/
def maxFreeBlocks : Nat := 256

/-- C++ `GGML_VBUFFER_MAX_CHUNKS`. -/
def vbufferMaxChunks : Nat := 16

/-- C++ `free_block`. -/
abbrev FreeBlock : Type := Range

/-- C++ `tallocr_chunk`. -/
structure TallocrChunk where
  freeBlocks : List FreeBlock
  maxSize : Nat
deriving DecidableEq

/-- C++ `ggml_dyn_tallocr`. -/
structure DynTallocr where
  alignment : Nat
  maxChunkSize : Nat
  chunks : List TallocrChunk
deriving DecidableEq

/-- C++ `buffer_address`. -/
structure BufferAddress where
  chunk : Nat
  offset : Nat
deriving DecidableEq

/-- C++ `ggml_dyn_tallocr_new`. -/
def DynTallocr.new (alignment maxBufferSize : Nat) : DynTallocr :=
  ⟨alignment, min maxBufferSize (sizeMax / 2), []⟩

/-- C++ `aligned_offset(NULL, offset, alignment)`. -/
def alignedOffset (offset alignment : Nat) : Nat :=
  (offset + (alignment - offset % alignment) % alignment) % sizeMod

/-- C++ `ggml_dyn_tallocr_insert_block`. -/
def insertBlock (blocks : List FreeBlock) (offset size : Nat) : Option (List FreeBlock) :=
  if blocks.length < maxFreeBlocks then
    some (blocks.takeWhile (·.offset < offset) ++ ⟨offset, size⟩ :: blocks.dropWhile (·.offset < offset))
  else none

/-- Where `ggml_dyn_tallocr_insert_block` reads and writes behind its assertion: the search, the shift and
    the new block. -/
def insertAccesses (blocks : List FreeBlock) (offset : Nat) : List Nat :=
  let insertPos := (blocks.takeWhile (·.offset < offset)).length
  if blocks.length < maxFreeBlocks then
    List.range blocks.length ++
      (List.range' (insertPos + 1) (blocks.length - insertPos)).flatMap (fun i => [i, i - 1]) ++ [insertPos]
  else []

/-- C++ `ggml_dyn_tallocr_remove_block`. -/
def removeBlock (blocks : List FreeBlock) (idx : Nat) : List FreeBlock := blocks.eraseIdx idx

/-- Where `ggml_dyn_tallocr_remove_block` reads and writes: it shifts in the element behind the last. -/
def removeAccesses (blocks : List FreeBlock) (idx : Nat) : List Nat :=
  (List.range' idx (blocks.length - idx)).flatMap fun i => [i, i + 1]

/-- The best fitting block of a chunk besides the last: the loop with `best_fit_size`. -/
def bestFit (size : Nat) (blocks : List FreeBlock) : Option Nat :=
  (blocks.dropLast.zipIdx.foldl (fun best b =>
    if size ≤ b.1.size ∧ b.1.size ≤ best.2 then (some b.2, b.1.size) else best) (none, sizeMax)).1

/-- The best fitting block besides the last blocks, within any chunk. -/
def bestFitChunk (size : Nat) (chunks : List TallocrChunk) : Option (Nat × Nat) :=
  chunks.zipIdx.foldl (fun best c =>
    match bestFit size c.1.freeBlocks with
    | some i => some (c.2, i)
    | none => best) none

/-- C++ `reuse_factor`, an `int64_t`. -/
def reuseFactor (maxSize offset size : Nat) : Int := Int.bmod (maxSize - offset - size) sizeMod

def bestReuse (size : Nat) (chunks : List TallocrChunk) : Option (Nat × Nat) :=
  (chunks.zipIdx.foldl (fun (best : Option (Nat × Nat) × Int) c =>
    match c.1.freeBlocks.getLast? with
    | none => best
    | some block =>
      let reuse := reuseFactor c.1.maxSize block.offset size
      if size ≤ block.size ∧ (best.2 < 0 ∧ best.2 < reuse ∨ 0 ≤ reuse ∧ reuse < best.2) then
        (some (c.2, c.1.freeBlocks.length - 1), reuse)
      else best) (none, -2 ^ 63)).1

def findBlock (size : Nat) (chunks : List TallocrChunk) : Option (Nat × Nat) :=
  match bestFitChunk size chunks with
  | some found => some found
  | none => bestReuse size chunks

/-- The chunk that `ggml_dyn_tallocr_new_chunk` adds as number `nChunks`. -/
def newChunk (maxChunkSize nChunks minSize : Nat) : TallocrChunk :=
  if nChunks = vbufferMaxChunks - 1 then ⟨[⟨0, sizeMax / 2⟩], 0⟩
  else ⟨[⟨0, max minSize maxChunkSize⟩], 0⟩

/-- What is left of a block when `size` bytes are taken from it; `size_t` arithmetic. -/
def shrink (b : FreeBlock) (size : Nat) : FreeBlock :=
  ⟨(b.offset + size) % sizeMod, (b.size + sizeMod - size) % sizeMod⟩

/-- Take `size` bytes from block `i` of a chunk: the chunk and the offset. -/
def takeBlock (c : TallocrChunk) (i size : Nat) : Option (TallocrChunk × Nat) :=
  match c.freeBlocks[i]? with
  | none => none
  | some b =>
    let blocks := c.freeBlocks.set i (shrink b size)
    let blocks := if (shrink b size).size = 0 then removeBlock blocks i else blocks
    some (⟨blocks, max c.maxSize ((b.offset + size) % sizeMod)⟩, b.offset)

/-- Where taking from a chunk reads and writes its free blocks: the block, and the shift if it is
    removed. -/
def takeAccesses (c : TallocrChunk) (i size : Nat) : List Nat :=
  i :: (if (c.freeBlocks[i]?.map fun b => (shrink b size).size) = some 0
    then removeAccesses c.freeBlocks i else [])

def takeFrom (chunks : List TallocrChunk) (k i size : Nat) : Option (List TallocrChunk × BufferAddress) :=
  match chunks[k]? with
  | none => none
  | some c =>
    match takeBlock c i size with
    | none => none
    | some (c', offset) => some (chunks.set k c', ⟨k, offset⟩)

/-- The chunks, the chunk and the block from which an allocation of `size` bytes takes; `none` when there
    are too many chunks. -/
def chooseBlock (a : DynTallocr) (size : Nat) : Option (List TallocrChunk × Nat × Nat) :=
  match findBlock size a.chunks with
  | some (k, i) => some (a.chunks, k, i)
  | none =>
    if vbufferMaxChunks ≤ a.chunks.length then none
    else some (a.chunks ++ [newChunk a.maxChunkSize a.chunks.length size], a.chunks.length, 0)

/-- C++ `ggml_dyn_tallocr_alloc`. -/
def DynTallocr.alloc (a : DynTallocr) (size : Nat) : Option (DynTallocr × BufferAddress) :=
  match chooseBlock a (alignedOffset size a.alignment) with
  | none => none
  | some (chunks, k, i) =>
    match takeFrom chunks k i (alignedOffset size a.alignment) with
    | none => none
    | some (chunks', addr) => some ({ a with chunks := chunks' }, addr)

/-- Where `ggml_dyn_tallocr_alloc` reads and writes free blocks: every block in the search, then those of
    the chunk it takes from. -/
def DynTallocr.allocAccesses (a : DynTallocr) (size : Nat) : List Nat :=
  a.chunks.flatMap (fun c => List.range c.freeBlocks.length) ++
    match chooseBlock a (alignedOffset size a.alignment) with
    | none => []
    | some (chunks, k, i) =>
      match chunks[k]? with
      | none => []
      | some c => takeAccesses c i (alignedOffset size a.alignment)

/-- The two tests of the loop in `ggml_dyn_tallocr_free_bytes`. -/
def touches (offset size : Nat) (b : FreeBlock) : Bool := b.stop = offset || offset + size = b.offset

def findTouching (blocks : List FreeBlock) (offset size : Nat) : Option Nat :=
  blocks.findIdx? (touches offset size)

/-- The range is at the end of block `i`: extend it, and merge it with the next one if they meet. -/
def mergeBehind (blocks : List FreeBlock) (i : Nat) (b : FreeBlock) (size : Nat) : List FreeBlock :=
  match blocks[i + 1]? with
  | some next =>
    if b.offset + (b.size + size) = next.offset then
      removeBlock (blocks.set i ⟨b.offset, b.size + size + next.size⟩) (i + 1)
    else blocks.set i ⟨b.offset, b.size + size⟩
  | none => blocks.set i ⟨b.offset, b.size + size⟩

/-- The block before block `i`. -/
def previous (blocks : List FreeBlock) (i : Nat) : Option FreeBlock := if 0 < i then blocks[i - 1]? else none

/-- The range is at the beginning of block `i`: extend it, and merge it with the previous one if they
    meet. -/
def mergeBefore (blocks : List FreeBlock) (i : Nat) (b : FreeBlock) (offset size : Nat) : List FreeBlock :=
  match previous blocks i with
  | some prev =>
    if prev.stop = offset then
      removeBlock ((blocks.set i ⟨offset, b.size + size⟩).set (i - 1)
        ⟨prev.offset, prev.size + (b.size + size)⟩) i
    else blocks.set i ⟨offset, b.size + size⟩
  | none => blocks.set i ⟨offset, b.size + size⟩

/-- C++ `ggml_dyn_tallocr_free_bytes` on the blocks of the chunk, with the padded size. -/
def freeBlocks (blocks : List FreeBlock) (offset size : Nat) : Option (List FreeBlock) :=
  match findTouching blocks offset size with
  | none => insertBlock blocks offset size
  | some i =>
    match blocks[i]? with
    | none => none
    | some b =>
      some (if b.stop = offset then mergeBehind blocks i b size else mergeBefore blocks i b offset size)

/-- Whether `ggml_dyn_tallocr_free_bytes` removes a block, and which one. -/
def freeRemoves (blocks : List FreeBlock) (offset size : Nat) : Option Nat :=
  match findTouching blocks offset size with
  | none => none
  | some i =>
    match blocks[i]? with
    | none => none
    | some b =>
      if b.stop = offset then
        if (blocks[i + 1]?.map (·.offset)) = some (b.offset + (b.size + size)) then some (i + 1) else none
      else if ((previous blocks i).map Range.stop) = some offset then some i else none

/-- Where `ggml_dyn_tallocr_free_bytes` reads and writes free blocks. -/
def freeAccesses (blocks : List FreeBlock) (offset size : Nat) : List Nat :=
  List.range blocks.length ++ (match findTouching blocks offset size with
      | none => insertAccesses blocks offset
      | some _ => []) ++
    (match freeRemoves blocks offset size with
      | none => []
      | some idx => removeAccesses blocks idx)

/-- C++ `ggml_dyn_tallocr_free_bytes`. -/
def DynTallocr.freeBytes (a : DynTallocr) (addr : BufferAddress) (size : Nat) : Option DynTallocr :=
  match a.chunks[addr.chunk]? with
  | none => none
  | some c =>
    match freeBlocks c.freeBlocks addr.offset (alignedOffset size a.alignment) with
    | none => none
    | some blocks => some { a with chunks := a.chunks.set addr.chunk { c with freeBlocks := blocks } }

end Mallana.Alloc
