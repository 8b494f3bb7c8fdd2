import Mallana.Batch.Partition
import Mallana.Lib.SwapSort

/-!
# The outputs of a batch

Model of what `llama_context::decode` does with the outputs of the ubatches (`src/src/llama-context.cpp`): their rows are
put in the output buffers in the order of the ubatches, `output_ids` says which row belongs to a token, and the exchanges
that bring the rows in the order of the batch are recorded for `output_reorder`.

A float is its 32 bits. The logits and the embeddings that are computed for a token are parameters. There is no backend
sampler, pooling is off, and the buffer of embeddings is there if embeddings are computed. An access outside a buffer
has no result.
-/

namespace Mallana

open Lib

/-- What the outputs depend on in `hparams`, `vocab` and `cparams`. -/
structure OutputParams where
  nVocab : Nat
  nEmbd : Nat
  nEmbdOutImpl : Nat
  nSeqMax : Nat
  embeddings : Bool

/-- C++ `llama_hparams::n_embd_out`. -/
def OutputParams.nEmbdOut (c : OutputParams) : Nat := if 0 < c.nEmbdOutImpl then c.nEmbdOutImpl else c.nEmbd

/-- A batch whose tokens are split into ubatches, each a list of tokens. -/
structure SplitBatch where
  nTokens : Nat
  output : Nat → Bool
  ubatches : List (List Nat)
  perm : ubatches.flatten.Perm (List.range nTokens)

namespace SplitBatch

variable (c : OutputParams) (b : SplitBatch)

def isOutput (t : Nat) : Bool := c.embeddings || b.output t

/-- C++ `balloc->get_out_ids()`: the outputs in the order of the ubatches. -/
def outIds : List Nat := b.ubatches.flatten.filter (b.isOutput c)

/-- C++ `balloc->get_n_outputs()`. -/
def nOutputsAll : Nat := ((List.range b.nTokens).filter (b.isOutput c)).length

end SplitBatch

/-- C++ `buffer_view<float>`. -/
structure BufferView where
  data : Nat → UInt32
  size : Nat

/-- C++ `ggml_backend_tensor_get_async`: `n` floats of a tensor come to `offset` in a buffer. -/
def BufferView.get (v : BufferView) (tensor : Nat → UInt32) (offset n : Nat) : BufferView :=
  { v with data := fun x => if offset ≤ x ∧ x < offset + n then tensor (x - offset) else v.data x }

def BufferView.swapRows (stride : Nat) (v : BufferView) (swap : Nat × Nat) : Option BufferView :=
  if 0 < v.size then (Lib.swapRows stride v.size v.data swap.1 swap.2).map fun d => { v with data := d } else some v

def rowsTensor (row : Nat → Nat → UInt32) (stride : Nat) (tokens : List Nat) : Nat → UInt32 :=
  fun x => row (tokens.getD (x / stride) 0) (x % stride)

/-- The fields of `llama_context` for the outputs. -/
structure Outputs where
  logits : BufferView
  embd : BufferView
  outputIds : Nat → Int
  outputSwaps : List (Nat × Nat)
  nOutputs : Nat

namespace Outputs

/-- C++ `output_reserve`; `old` is what the buffer for all outputs holds. -/
def outputReserve (c : OutputParams) (nOutputs : Nat) (old : Nat → UInt32) : Outputs :=
  let nOutputsMax := max nOutputs c.nSeqMax
  { logits := ⟨old, c.nVocab * nOutputsMax⟩
    embd := ⟨fun x => old (c.nVocab * nOutputsMax + x), if c.embeddings then c.nEmbdOut * nOutputsMax else 0⟩
    outputIds := fun _ => -1
    outputSwaps := []
    nOutputs := 0 }

/-- The rows of one ubatch, behind the `nOutputsPrev` rows of the ubatches before it. -/
def extract (c : OutputParams) (b : SplitBatch) (logitsRow embdRow : Nat → Nat → UInt32) (st : Outputs × Nat)
    (ubatch : List Nat) : Option (Outputs × Nat) :=
  let (s, nOutputsPrev) := st
  let tokens := ubatch.filter (b.isOutput c)
  let nOutputs := if b.nOutputsAll c = b.nTokens then ubatch.length else tokens.length
  if nOutputs = 0 then some (s, nOutputsPrev)
  -- the assertions on the sizes
  else if nOutputsPrev + nOutputs ≤ b.nOutputsAll c ∧ (nOutputsPrev + nOutputs) * c.nVocab ≤ s.logits.size ∧
      (c.embeddings = true → (nOutputsPrev + nOutputs) * c.nEmbdOut ≤ s.embd.size) then
    some ({ s with
      logits := s.logits.get (rowsTensor logitsRow c.nVocab tokens) (nOutputsPrev * c.nVocab) (nOutputs * c.nVocab)
      embd := if c.embeddings then
          s.embd.get (rowsTensor embdRow c.nEmbdOut tokens) (nOutputsPrev * c.nEmbdOut) (nOutputs * c.nEmbdOut)
        else s.embd }, nOutputsPrev + nOutputs)
  else none

/-- `output_ids[out_ids[i]] = i` for every row. -/
def assignIds (outIds : Nat → Nat) (n : Nat) (outputIds : Nat → Int) : Nat → Int :=
  (List.range n).foldl (fun ids i => Function.update ids (outIds i) (i : Int)) outputIds

/-- The output mappings at the end of `decode`; the rows are sorted by `selectionSort`, on `out_ids` only. -/
def mapOutputs (outIds : Nat → Nat) (s : Outputs) : Outputs :=
  if 0 < s.nOutputs then
    let s := { s with outputIds := assignIds outIds s.nOutputs s.outputIds }
    let sortedOutput := (List.range s.nOutputs).all fun i => outIds i == i
    if sortedOutput = false ∧ 1 < s.nOutputs then
      let r := selectionSort s.nOutputs outIds
      { s with
        outputSwaps := s.outputSwaps ++ r.2
        outputIds := assignIds r.1 s.nOutputs fun _ => -1 }
    else s
  else s

/-- The part of `decode` that deals with the outputs. -/
def decode (c : OutputParams) (b : SplitBatch) (old : Nat → UInt32) (logitsRow embdRow : Nat → Nat → UInt32) :
    Option Outputs := do
  let st ← b.ubatches.foldlM (extract c b logitsRow embdRow) (outputReserve c (b.nOutputsAll c) old, 0)
  return mapOutputs (fun i => (b.outIds c).getD i 0) { st.1 with nOutputs := b.nOutputsAll c }

/-- One recorded exchange in `output_reorder`. -/
def swapOutputs (c : OutputParams) (s : Outputs) (swap : Nat × Nat) : Option Outputs := do
  let logits ← s.logits.swapRows c.nVocab swap
  let embd ← s.embd.swapRows c.nEmbd swap
  return { s with logits := logits, embd := embd }

/-- C++ `output_reorder`. -/
def outputReorder (c : OutputParams) (s : Outputs) : Option Outputs := do
  let s ← s.outputSwaps.foldlM (swapOutputs c) s
  return { s with outputSwaps := [] }

end Outputs

end Mallana
