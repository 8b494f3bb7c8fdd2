import Mathlib.Data.Fintype.Basic
import Mallana.KvCache.Ubatch

/-!
# Batches and their splitting

Model of `llama_batch_allocr` (`src/src/llama-batch.{h,cpp}`): `init` checks a batch, fills in missing
fields and groups the tokens by their sequence sets; `split_simple`, `split_equal` and `split_seq` take
the next ubatch from the tokens that are not used yet, and `ubatch_add` gathers its fields.

An input array that may be absent is an `Option`; `n_seq_id` and `seq_id` of a batch are given together, as
one list of ids for each token. `none` as the result of `init` stands for `false` and for a failed
assertion, `none` as the result of a split for the empty ubatch `{}`. The parallel vectors
`cur_seq_set`, `cur_idx` and `idxs_per_seq` of `split_equal` are one list of `Lane` records. Loops
without a visible bound are recursions on a step budget.
-/

namespace Mallana

open Lib

variable {F : Type}

/-- The input of `init` (C++ `llama_batch`). -/
structure LlamaBatch (F : Type) where
  nTokens : Nat
  token : Option (List Int) := none
  /-- `[nTokens * nEmbd]` -/
  embd : Option (List F) := none
  pos : Option (List Int) := none
  seqId : Option (List (List Int)) := none
  logits : Option (List Int) := none

/-- What `init` asks of the memory (C++ `llama_memory_i`). -/
structure MemoryPos where
  seqPosMin : SeqId → Int
  seqPosMax : SeqId → Int

/-- A batch with all its fields, and the state of its splitting (C++ `llama_batch_allocr`). -/
structure BatchAllocr (F : Type) where
  nPosPerEmbd : Nat
  nEmbd : Nat
  nSeqMax : Nat
  nTokens : Nat
  token : Option (List Int)
  embd : Option (List F)
  pos : List Int
  seqId : List (List SeqId)
  logits : List Int
  hasCpl : Bool
  seqSet : List (Finset SeqId)
  /-- the indices at which a sequence set appears -/
  seqSetMap : Finset SeqId → List Nat
  outIds : List Nat
  nUsed : Nat
  used : List Bool

/-- A ubatch with all its fields (C++ `llama_ubatch`). -/
structure FullUbatch (F : Type) extends Ubatch where
  bEqualSeqs : Bool
  nSeqTokens : Nat
  nSeqs : Nat
  token : Option (List Int)
  embd : Option (List F)
  /-- `[llamaMaxSeq]`, index of a sequence in `seqIdUnq`, `-1` if it is not there -/
  seqIdx : List Int
  output : List Int

namespace LlamaBatch

def Valid (b : LlamaBatch F) (nVocab nSeqMax : Nat) : Prop :=
  0 < b.nTokens ∧ nSeqMax ≤ llamaMaxSeq ∧
    (∀ ts ∈ b.token, ∀ i ∈ List.range b.nTokens, 0 ≤ ts.getD i 0 ∧ ts.getD i 0 < nVocab) ∧
    ∀ ids ∈ b.seqId, ∀ i ∈ List.range b.nTokens, ∀ s ∈ ids.getD i [], 0 ≤ s ∧ s < nSeqMax

instance (b : LlamaBatch F) (nVocab nSeqMax : Nat) : Decidable (b.Valid nVocab nSeqMax) :=
  inferInstanceAs (Decidable (_ ∧ _ ∧ (∀ ts ∈ b.token, _) ∧ ∀ ids ∈ b.seqId, _))

/-- The sequence ids of the tokens; the default is sequence 0. -/
def seqIds (b : LlamaBatch F) : List (List SeqId) :=
  match b.seqId with
  | none => List.replicate b.nTokens [0]
  | some ids => (List.range b.nTokens).map fun i =>
      (ids.getD i []).map fun s => Fin.ofNat llamaMaxSeq s.toNat

/-- The loop that makes up missing positions: `p0` is the next position of each sequence. -/
def autoPos (p0 : SeqId → Int) : List (List SeqId) → List Int
  | [] => []
  | ids :: rest =>
    let p := p0 (ids.headD 0)
    p :: autoPos (fun s => if s ∈ ids then p + 1 else p0 s) rest

/-- The positions of the tokens; missing ones continue the memory. -/
def positions (b : LlamaBatch F) (memory : Option MemoryPos) : List Int :=
  match b.pos with
  | some pos => pos
  | none => autoPos (fun s => memory.elim 0 fun m => m.seqPosMax s + 1) b.seqIds

def outputs (b : LlamaBatch F) (outputAll : Bool) : List Int :=
  match b.logits with
  | none => if outputAll then List.replicate b.nTokens 1 else List.replicate (b.nTokens - 1) 0 ++ [1]
  | some logits =>
    if outputAll ∧ 0 ∈ logits.take b.nTokens then List.replicate b.nTokens 1 else logits

/-- The positions of a sequence (C++ `seq_pos[s]`). -/
def seqPos (seqId : List (List SeqId)) (pos : List Int) (s : SeqId) : Finset Int :=
  (((List.range seqId.length).filter fun i => s ∈ seqId.getD i []).map fun i => pos.getD i 0).toFinset

def seqPosMin (seqId : List (List SeqId)) (pos : List Int) (s : SeqId) : Int :=
  if h : (seqPos seqId pos s).Nonempty then (seqPos seqId pos s).min' h else -1

def seqPosMax (seqId : List (List SeqId)) (pos : List Int) (s : SeqId) : Int :=
  if h : (seqPos seqId pos s).Nonempty then (seqPos seqId pos s).max' h else -1

/-- Some token lists `s1` behind its first sequence `s0` (C++ `seq_cpl[s1][s0]`). -/
def Coupled (seqId : List (List SeqId)) (s1 s0 : SeqId) : Prop :=
  ∃ ids ∈ seqId, ids.head? = some s0 ∧ s1 ∈ ids.tail

instance (seqId : List (List SeqId)) (s1 s0 : SeqId) : Decidable (Coupled seqId s1 s0) :=
  inferInstanceAs (Decidable (∃ ids ∈ seqId, _))

/-- The positions of a sequence continue those of the memory and have no gap; with several positions for
    each token they may jump forward. -/
def PosOk (nPosPerEmbd : Nat) (hasToken : Bool) (memory : Option MemoryPos)
    (seqId : List (List SeqId)) (pos : List Int) (s : SeqId) : Prop :=
  let p0 := memory.elim (-1) fun m => m.seqPosMax s
  let lo := seqPosMin seqId pos s
  if 1 < nPosPerEmbd then
    if hasToken then ¬ (0 ≤ p0 ∧ lo ≤ p0) else ¬ (0 ≤ p0 ∧ lo < p0)
  else (0 ≤ p0 → lo = p0 + 1) ∧ seqPosMax seqId pos s - lo + 1 ≤ (seqPos seqId pos s).card

instance (nPosPerEmbd : Nat) (hasToken : Bool) (memory : Option MemoryPos) (seqId : List (List SeqId))
    (pos : List Int) (s : SeqId) : Decidable (PosOk nPosPerEmbd hasToken memory seqId pos s) :=
  inferInstanceAs (Decidable (if 1 < nPosPerEmbd then _ else _))

/-- One sequence of a token in the last check. The running intersection is stored; the running position
    `cur_seq_pos` is compared but never stored, it stays `-1`. -/
def checkSeq (set : Finset SeqId) (p : Int) (cur : SeqId → Finset SeqId) (s : SeqId) :
    Option (SeqId → Finset SeqId) :=
  if cur s ∩ set = ∅ then none
  else if p < -1 then none
  else some (Function.update cur s (cur s ∩ set))

/-- The last check: no incompatible sequence sets, no decreasing positions. -/
def checkSets (seqId : List (List SeqId)) (pos : List Int) : Option (SeqId → Finset SeqId) :=
  (List.range seqId.length).foldlM
    (fun cur i => (seqId.getD i []).foldlM (checkSeq (seqId.getD i []).toFinset (pos.getD i 0)) cur)
    fun _ => Finset.univ

end LlamaBatch

namespace BatchAllocr

open LlamaBatch

/-- The map from sequence sets to the indices of their tokens, built by appending. -/
def buildMap (sets : List (Finset SeqId)) : Finset SeqId → List Nat :=
  (List.range sets.length).foldl
    (fun m i => Function.update m (sets.getD i ∅) (m (sets.getD i ∅) ++ [i])) fun _ => []

/-- C++ `init`, with the size of the vocabulary. -/
def init (nPosPerEmbd : Nat) (b : LlamaBatch F) (nVocab : Nat) (memory : Option MemoryPos)
    (nEmbd nSeqMax : Nat) (outputAll : Bool) : Option (BatchAllocr F) :=
  let ids := b.seqIds
  let pos := b.positions memory
  let sets := ids.map List.toFinset
  if ¬ b.Valid nVocab nSeqMax then none
  else if ∃ s : SeqId, s.val < nSeqMax ∧ (seqPos ids pos s).Nonempty ∧
      ¬ PosOk nPosPerEmbd b.token.isSome memory ids pos s then none
  else if ∃ m ∈ memory, ∃ s1 s0 : SeqId, Coupled ids s1 s0 ∧
      (m.seqPosMin s1 ≠ m.seqPosMin s0 ∨ m.seqPosMax s1 ≠ m.seqPosMax s0) then none
  else if (checkSets ids pos).isNone then none
  else some
    { nPosPerEmbd, nEmbd, nSeqMax, pos
      nTokens := b.nTokens
      token := b.token
      embd := b.embd
      seqId := ids
      logits := b.outputs outputAll
      hasCpl := ids.any fun l => 1 < l.length
      seqSet := sets
      seqSetMap := buildMap sets
      -- `split_reset`
      outIds := []
      nUsed := 0
      used := List.replicate b.nTokens false }

/-- C++ `split_reset`. -/
def splitReset (a : BatchAllocr F) : BatchAllocr F :=
  { a with outIds := [], nUsed := 0, used := List.replicate a.nTokens false }

/-- Is token `i` used (C++ `used[i]`)? -/
def isUsed (a : BatchAllocr F) (i : Nat) : Bool := a.used.getD i true

/-- The sequence set of token `i` (C++ `seq_set[i]`). -/
def setOf (a : BatchAllocr F) (i : Nat) : Finset SeqId := a.seqSet.getD i ∅

/-- Take token `i`: `used[i] = true; ++n_used`. -/
def use (a : BatchAllocr F) (i : Nat) : BatchAllocr F :=
  { a with used := a.used.modify i fun _ => true, nUsed := a.nUsed + 1 }

def useAll (a : BatchAllocr F) (idxs : List Nat) : BatchAllocr F := idxs.foldl use a

/-- Is token `i` an output? -/
def isOutput (a : BatchAllocr F) (i : Nat) : Bool := a.logits.getD i 0 ≠ 0

def unqOf (a : BatchAllocr F) (idxs : List Nat) : List SeqId :=
  (List.finRange llamaMaxSeq).filter fun s =>
    s.val < a.nSeqMax && idxs.any fun i => s ∈ a.seqId.getD i []

/-- The ubatch of the tokens `idxs` in `n_seqs` blocks. -/
def ubatchOf (a : BatchAllocr F) (idxs : List Nat) (nSeqs : Nat) (equalSeqs : Bool) : FullUbatch F where
  nTokens := idxs.length
  nPos := a.nPosPerEmbd
  -- text has one position for each token, also where the model wants several
  pos := (List.range a.nPosPerEmbd).flatMap fun j => idxs.map fun i =>
    a.pos.getD ((if a.token.isSome then 0 else j * a.nTokens) + i) 0
  seqId := idxs.map fun i => a.seqId.getD i []
  seqIdUnq := a.unqOf idxs
  bEqualSeqs := equalSeqs
  nSeqTokens := idxs.length / nSeqs
  nSeqs := nSeqs
  token := a.token.map fun ts => idxs.map fun i => ts.getD i 0
  embd := a.embd.map fun es => idxs.flatMap fun i => (es.drop (i * a.nEmbd)).take a.nEmbd
  seqIdx := (List.finRange llamaMaxSeq).map fun s =>
    if s ∈ a.unqOf idxs then ((a.unqOf idxs).idxOf s : Int) else -1
  output := idxs.map fun i => a.logits.getD i 0

/-- C++ `ubatch_add`: the ubatch, and the outputs in it are recorded. -/
def ubatchAdd (a : BatchAllocr F) (idxs : List Nat) (nSeqs : Nat) (equalSeqs : Bool) :
    FullUbatch F × BatchAllocr F :=
  (a.ubatchOf idxs nSeqs equalSeqs, { a with outIds := a.outIds ++ idxs.filter a.isOutput })

/-- The first unused token, `nTokens` if there is none. -/
def firstUnused (a : BatchAllocr F) : Nat := a.used.findIdx fun u => !u

/-- The loop of `split_simple`. -/
def simpleLoop (nUbatch : Nat) : (fuel cur : Nat) → List Nat → BatchAllocr F → List Nat × BatchAllocr F
  | 0, _, idxs, a => (idxs, a)
  | fuel + 1, cur, idxs, a =>
    let idxs := idxs ++ [cur]
    let a := a.use cur
    if a.used.length ≤ cur + 1 then (idxs, a)
    else if nUbatch ≤ idxs.length then (idxs, a)
    else simpleLoop nUbatch fuel (cur + 1) idxs a

/-- C++ `split_simple`. -/
def splitSimple (nUbatch : Nat) (a : BatchAllocr F) : Option (FullUbatch F × BatchAllocr F) :=
  let cur := a.firstUnused
  if a.used.length ≤ cur then none
  else
    let r := simpleLoop nUbatch a.used.length cur [] a
    some (r.2.ubatchAdd r.1 r.1.length false)

/-- A sequence set that takes part in a ubatch of `split_equal`, with the place in the list of its tokens
    and the tokens taken so far. -/
structure Lane where
  set : Finset SeqId
  cur : Nat := 0
  idxs : List Nat := []

/-- The test walks over the list, not over all sequence sets. -/
instance (priority := 1100) (acc : List (Finset SeqId)) (T : Finset SeqId) : Decidable (∀ S ∈ acc, S ∩ T = ∅) :=
  List.decidableBAll (fun S => S ∩ T = ∅) acc

/-- The choice of non-overlapping sequence sets in `split_equal`. -/
def pickSets (a : BatchAllocr F) (nUbatch : Nat) (sequential : Bool) :
    List Nat → List (Finset SeqId) → Int → List (Finset SeqId)
  | [], acc, _ => acc
  | i :: is, acc, last =>
    let first : Int := ((a.seqId.getD i []).headD 0).val
    if a.isUsed i then pickSets a nUbatch sequential is acc last
    else if (∀ S ∈ acc, S ∩ a.setOf i = ∅) ∧ (sequential = true → acc = [] ∨ first = last + 1) then
      if nUbatch < (acc ++ [a.setOf i]).length then acc ++ [a.setOf i]
      else pickSets a nUbatch sequential is (acc ++ [a.setOf i]) first
    else pickSets a nUbatch sequential is acc last

def startLane (a : BatchAllocr F) (S : Finset SeqId) : Lane :=
  { set := S, cur := (a.seqSetMap S).findIdx fun i => !a.isUsed i }

def laneNext (a : BatchAllocr F) (l : Lane) : Nat := (a.seqSetMap l.set).getD l.cur 0

def laneStep (a : BatchAllocr F) (l : Lane) : Lane :=
  { l with cur := l.cur + 1, idxs := l.idxs ++ [a.laneNext l] }

/-- The rounds of `split_equal`: one token of each lane, as long as all have one and the ubatch has
    room for another round. -/
def equalLoop (nUbatch : Nat) : (fuel : Nat) → List Lane → BatchAllocr F → List Lane × BatchAllocr F
  | 0, lanes, a => (lanes, a)
  | fuel + 1, lanes, a =>
    if ∃ l ∈ lanes, (a.seqSetMap l.set).length ≤ l.cur then (lanes, a)
    else
      let a' := a.useAll (lanes.map a.laneNext)
      let lanes := lanes.map a.laneStep
      if nUbatch < (((lanes.head?.map Lane.idxs).getD []).length + 1) * lanes.length then (lanes, a')
      else equalLoop nUbatch fuel lanes a'

/-- C++ `split_equal`. -/
def splitEqual (nUbatch : Nat) (sequential : Bool) (a : BatchAllocr F) : Option (FullUbatch F × BatchAllocr F) :=
  if sequential ∧ a.hasCpl then none
  else
    let sets := a.pickSets nUbatch sequential (List.range a.nTokens) [] (-1)
    if sets.length = 0 then none
    else
      let r := equalLoop nUbatch (a.nTokens + 1) (sets.map a.startLane) a
      some (r.2.ubatchAdd (r.1.flatMap Lane.idxs) sets.length true)

/-- The next unused token behind `cur` whose sequence set is within `S`. -/
def nextWithin (a : BatchAllocr F) (S : Finset SeqId) (cur : Nat) : Option Nat :=
  (List.range' (cur + 1) (a.nTokens - (cur + 1))).find? fun j => !a.isUsed j && decide (a.setOf j ⊆ S)

/-- The loop of `split_seq`. -/
def seqLoop (nUbatch : Nat) : (fuel cur : Nat) → List Nat → BatchAllocr F → List Nat × BatchAllocr F
  | 0, _, idxs, a => (idxs, a)
  | fuel + 1, cur, idxs, a =>
    let idxs := idxs ++ [cur]
    let a := a.use cur
    if nUbatch ≤ idxs.length then (idxs, a)
    else
      match a.nextWithin (a.setOf cur) cur with
      | none => (idxs, a)
      | some j => seqLoop nUbatch fuel j idxs a

/-- C++ `split_seq`. -/
def splitSeq (nUbatch : Nat) (a : BatchAllocr F) : Option (FullUbatch F × BatchAllocr F) :=
  let cur := a.firstUnused
  if a.used.length ≤ cur then none
  else
    let r := seqLoop nUbatch a.used.length cur [] a
    some (r.2.ubatchAdd r.1 1 true)

/-- The ways to split a batch. -/
inductive Split where
  | simple
  | seq
  | equal (sequential : Bool)
deriving DecidableEq, Repr

def split (nUbatch : Nat) : Split → BatchAllocr F → Option (FullUbatch F × BatchAllocr F)
  | .simple, a => a.splitSimple nUbatch
  | .seq, a => a.splitSeq nUbatch
  | .equal sequential, a => a.splitEqual nUbatch sequential

end BatchAllocr

end Mallana
