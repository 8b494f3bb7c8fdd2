import Mallana.Server.Prompt

/-!
# Iterations of update_slots

Model of `update_slots` as far as it decides which tokens come into the batch and which slots go on: the context shift of
generating slots, the tokens of generating slots, the prompts, the counter of empty batches, and behind the batch the
child tasks of a parent and the slots that stop. A prompt is text with media chunks in it, which are evaluated beside the
batch, at most one of a slot in an iteration. No adapter is an aLoRA.

Between two iterations tasks are launched, each with its child tasks, and cancelled. The cancel tasks of a request are
posted together to the front of a queue that is drained before the next iteration, so they are one step.
-/

namespace Mallana.Server

/-- `server_task_type` of the tasks that take a slot. -/
inductive SlotTaskType where
  | completion
  | infill
  | embedding
  | rerank
deriving DecidableEq

/-- The fields of `server_task` that the iterations read. `media`: where the media chunks of the prompt begin, and their
numbers of tokens; these tokens are `LLAMA_TOKEN_NULL`. -/
structure Request where
  id : Nat
  type : SlotTaskType
  nTokens : Nat
  nKeep : Int
  nDiscard : Int
  media : List (Nat × Nat)
  media_le : ∀ c ∈ media, c.1 + c.2 ≤ nTokens
deriving DecidableEq

/-- A request with its place in a family of tasks: children have the id of their parent. -/
structure BatchTask extends Request where
  idParent : Option Nat
  isParent : Bool
deriving DecidableEq

/-- What a slot brings to a batch. `nTokens`: the tokens in its memory; `iBatch`: where its logits are in the batch. -/
structure BatchSlot (F : Type) where
  state : SlotState
  task : Option BatchTask
  nTokens : Nat
  lora : List (LoraInfo F)
  iBatch : Int
deriving DecidableEq

structure BatchServer (F : Type) where
  slots : List (BatchSlot F)
  nEmptyConsecutive : Nat
deriving DecidableEq

/-- The parameters of the server and its context; the context keeps the physical batch within the logical one. -/
structure BatchConfig where
  nBatch : Nat
  nUbatch : Nat
  nCtx : Nat
  contBatching : Bool
  ctxShift : Bool
  addBos : Bool
  hasMemory : Bool
  poolingLast : Bool
  partialState : Bool
  nUbatch_pos : 0 < nUbatch
  nUbatch_le : nUbatch ≤ nBatch

/-- What comes from outside during an iteration, slot by slot: how many cached tokens a new prompt reuses, whether the
memory could be truncated, for which tasks a media chunk is not processed, whether the batch was decoded and whether the
sampled token stops the slot. -/
structure Iteration where
  nPast : Nat → Nat
  truncated : Nat → Bool
  mediaFails : BatchTask → Bool
  decoded : Bool
  stops : Nat → Bool

def SlotTaskType.needEmbd : SlotTaskType → Bool
  | .embedding | .rerank => true
  | .completion | .infill => false

def SlotTaskType.needLogits : SlotTaskType → Bool
  | .completion | .infill => true
  | .embedding | .rerank => false

/-- `server_slot::can_split`. -/
def canSplit (cfg : BatchConfig) (r : Request) : Bool := !r.type.needEmbd || (cfg.hasMemory && cfg.poolingLast)

/-- A new prompt is turned down: it is empty, needs a memory that there is not, or does not fit. -/
def rejected (cfg : BatchConfig) (r : Request) : Bool :=
  r.nTokens == 0 || (r.type.needLogits && !cfg.hasMemory) ||
    if canSplit cfg r then decide (cfg.nCtx ≤ r.nTokens)
    else decide (cfg.nUbatch < r.nTokens) || decide (cfg.nCtx < r.nTokens)

/-- The token is one of a media chunk. -/
def Request.isMedia (r : Request) (n : Nat) : Bool := r.media.any fun c => decide (c.1 ≤ n) && decide (n < c.1 + c.2)

/-- The first token that is not in the memory when the media chunk in front of token `n` has been processed, if there is one;
`none` within a chunk, where `find_chunk` throws. -/
def Request.behindMedia (r : Request) (n : Nat) : Option Nat :=
  if r.isMedia n then (r.media.find? fun c => c.1 == n).map fun c => c.1 + c.2 else some n

/-- A common prefix does not end within a chunk. -/
def Request.commonPrefix (r : Request) (n : Nat) : Nat :=
  ((r.media.find? fun c => decide (c.1 < n) && decide (n < c.1 + c.2)).map (·.1)).getD (min n r.nTokens)

section
variable {F : Type}

def BatchSlot.isProcessing (slot : BatchSlot F) : Bool := slot.state != .idle

/-- `server_slot::release`: a child keeps no tokens. -/
def BatchSlot.release (slot : BatchSlot F) : BatchSlot F :=
  { slot with
    state := .idle
    task := none
    nTokens := if slot.task.any (·.idParent.isSome) then 0 else slot.nTokens }

def shiftedTokens (cfg : BatchConfig) (task : BatchTask) (nTokens : Nat) : Nat :=
  let nKeep := min ((cfg.nCtx : Int) - 4) ((if task.nKeep < 0 then (task.nTokens : Int) else task.nKeep) +
    if cfg.addBos then 1 else 0)
  let nDiscard := if task.nDiscard ≠ 0 then task.nDiscard else ((nTokens : Int) - nKeep).tdiv 2
  ((nTokens : Int) - nDiscard).toNat

/-- A generating slot without room is shifted, or released where that is not allowed. -/
def shiftBatchSlot (cfg : BatchConfig) (slot : BatchSlot F) : BatchSlot F :=
  match slot.state, slot.task with
  | .generating, some task =>
    if cfg.nCtx ≤ slot.nTokens + 1 then
      if !cfg.ctxShift || task.isParent || task.idParent.isSome then slot.release
      else { slot with nTokens := shiftedTokens cfg task slot.nTokens }
    else slot
  | _, _ => slot

/-- The batch while it is filled: the number of its tokens, the slot that the others have to agree with (`slot_batched`),
whether the loop over the prompts has ended, and whether an assertion or an exception has ended the program. -/
structure Filling (F : Type) where
  nTokens : Nat
  slotBatched : Option (BatchSlot F)
  full : Bool
  aborted : Bool

end

section
variable {F : Type} [LinearOrder F]

/-- `server_slot::can_batch_with`. -/
def canBatchWith (slot other : BatchSlot F) : Bool :=
  slot.task.map (·.type) == other.task.map (·.type) && areLoraEqual slot.lora other.lora

/-- The slot cannot be in one batch with the slot that is there. -/
def Filling.excludes (f : Filling F) (slot : BatchSlot F) : Bool := f.slotBatched.any fun other => !canBatchWith other slot

/-- The sampled token of a generating slot comes into the batch. -/
def addSampled (slot : BatchSlot F) (f : Filling F) : BatchSlot F × Filling F :=
  if slot.state ≠ .generating ∨ f.excludes slot then (slot, f)
  else
    ({ slot with nTokens := slot.nTokens + 1, iBatch := f.nTokens },
      { f with nTokens := f.nTokens + 1, slotBatched := f.slotBatched.orElse fun _ => some slot })

def addAllSampled : List (BatchSlot F) → Filling F → List (BatchSlot F) × Filling F
  | [], f => ([], f)
  | slot :: rest, f =>
    let (slot, f) := addSampled slot f
    let (rest, f) := addAllSampled rest f
    (slot :: rest, f)

/-- The last few tokens of a prompt are processed separately, so that a checkpoint can be made in front of them. -/
def breaksForCheckpoint (cfg : BatchConfig) (task : BatchTask) (nTokens : Nat) : Bool :=
  cfg.partialState && task.type == .completion &&
    (task.nTokens == nTokens + min cfg.nBatch (4 + cfg.nUbatch) || task.nTokens == nTokens + min cfg.nBatch 4)

/-- The loop that adds the tokens of a prompt up to a media chunk: the tokens of the slot and of the batch behind it. `fuel`
bounds the tokens that are left. -/
def addPrompt (cfg : BatchConfig) (task : BatchTask) : Nat → Nat → Nat → Nat × Nat
  | 0, nTokens, nAll => (nTokens, nAll)
  | fuel + 1, nTokens, nAll =>
    if nTokens < task.nTokens ∧ nAll < cfg.nBatch ∧ task.isMedia nTokens = false then
      if breaksForCheckpoint cfg task (nTokens + 1) then (nTokens + 1, nAll + 1)
      else addPrompt cfg task fuel (nTokens + 1) (nAll + 1)
    else (nTokens, nAll)

/-- The tokens of a new prompt that are kept: at least one has to be evaluated. -/
def keptTokens (cfg : BatchConfig) (task : BatchTask) (nPast : Nat) : Nat :=
  if canSplit cfg task.toRequest then keepCount (task.commonPrefix nPast) task.nTokens else 0

/-- The slot behind the tokens of its prompt, `p.1` in its memory and `p.2` in the batch. -/
def addedPrompt (slot : BatchSlot F) (task : BatchTask) (p : Nat × Nat) : BatchSlot F :=
  if p.1 = task.nTokens then { slot with nTokens := p.1, state := .donePrompt, iBatch := (p.2 : Int) - 1 }
  else { slot with nTokens := p.1 }

/-- A prompt is processed. At its end the batch must not be empty: its last token gets the logits. -/
def batchPrompt (cfg : BatchConfig) (it : Iteration) (i : Nat) (slot : BatchSlot F) (task : BatchTask) (f : Filling F) :
    BatchSlot F × Filling F :=
  if !canSplit cfg task.toRequest && decide (cfg.nBatch < f.nTokens + task.nTokens) then (slot, f)
  else
    let nKept := if it.truncated i then slot.nTokens else 0
    match task.behindMedia nKept with
    | none => (slot, { f with aborted := true })
    | some n =>
      if task.isMedia nKept && it.mediaFails task then ({ slot with nTokens := nKept }.release, f)
      else
        let p := addPrompt cfg task (task.nTokens - n) n f.nTokens
        let slot := addedPrompt slot task p
        (slot, ⟨p.2, f.slotBatched.orElse fun _ => some slot, decide (cfg.nBatch ≤ p.2),
          f.aborted || (decide (p.1 = task.nTokens) && decide (p.2 = 0))⟩)

def fillSlot (cfg : BatchConfig) (it : Iteration) (i : Nat) (slot : BatchSlot F) (f : Filling F) :
    BatchSlot F × Filling F :=
  if !slot.isProcessing || f.excludes slot || slot.state == .waitOther then (slot, f)
  else
    match slot.state, slot.task with
    | .started, some task =>
      if rejected cfg task.toRequest then (slot.release, f)
      else
        batchPrompt cfg it i { slot with state := .processingPrompt, nTokens := keptTokens cfg task (it.nPast i) } task f
    | .processingPrompt, some task => batchPrompt cfg it i slot task f
    | _, _ => (slot, { f with slotBatched := f.slotBatched.orElse fun _ => some slot, full := decide (cfg.nBatch ≤ f.nTokens) })

/-- The loop over the prompts, from slot `i` on. -/
def fillPrompts (cfg : BatchConfig) (it : Iteration) : Nat → List (BatchSlot F) → Filling F → List (BatchSlot F) × Filling F
  | _, [], f => ([], f)
  | i, slot :: rest, f =>
    if f.full then (slot :: rest, f)
    else
      let (slot, f) := fillSlot cfg it i slot f
      let (rest, f) := fillPrompts cfg it (i + 1) rest f
      (slot :: rest, f)

end

section
variable {F : Type}

def doneParent (slots : List (BatchSlot F)) (child : BatchSlot F) : Option (BatchSlot F) :=
  slots.find? fun slot =>
    slot.state == .donePrompt && slot.task.any fun p => p.isParent && child.task.any fun c => c.idParent == some p.id

/-- When the prompt of a parent is done, its children go on with a copy of its state. -/
def activateChild (slots : List (BatchSlot F)) (child : BatchSlot F) : BatchSlot F :=
  if child.state = .waitOther then
    match doneParent slots child with
    | some parent => { child with state := .donePrompt, nTokens := parent.nTokens, iBatch := parent.iBatch }
    | none => child
  else child

/-- A slot with logits in the batch is sampled; an embedding is done with its prompt. -/
def sampleBatchSlot (nTokens : Nat) (stops : Bool) (slot : BatchSlot F) : BatchSlot F :=
  if slot.iBatch < 0 ∨ nTokens ≤ slot.iBatch then slot
  else
    match slot.state with
    | .donePrompt =>
      if slot.task.any (·.type.needEmbd) || stops then { slot.release with iBatch := -1 }
      else { slot with state := .generating, iBatch := -1 }
    | .generating => if stops then { slot.release with iBatch := -1 } else { slot with iBatch := -1 }
    | _ => slot

/-- The slots behind `llama_decode`: an error releases them all. -/
def decodeBatch (it : Iteration) (nTokens : Nat) (slots : List (BatchSlot F)) : List (BatchSlot F) :=
  if nTokens = 0 then slots
  else if it.decoded then (slots.map (activateChild slots)).mapIdx fun i => sampleBatchSlot nTokens (it.stops i)
  else slots.map fun slot => if slot.isProcessing then { slot.release with nTokens := 0 } else slot

end

section
variable {F : Type} [LinearOrder F]

/-- The slots and the batch that `update_slots` comes to. -/
def fillBatch (cfg : BatchConfig) (it : Iteration) (slots : List (BatchSlot F)) : List (BatchSlot F) × Filling F :=
  let (slots, f) := addAllSampled (slots.map (shiftBatchSlot cfg)) ⟨0, none, false, false⟩
  if cfg.contBatching || f.nTokens == 0 then fillPrompts cfg it 0 slots f else (slots, f)

/-- `update_slots`. -/
def updateSlots (cfg : BatchConfig) (it : Iteration) (srv : BatchServer F) : BatchServer F :=
  if srv.slots.all (!·.isProcessing) then srv
  else
    let filled := fillBatch cfg it srv.slots
    { slots := decodeBatch it filled.2.nTokens filled.1
      nEmptyConsecutive := if filled.2.nTokens = 0 then srv.nEmptyConsecutive + 1 else 0 }

end

section
variable {F : Type}

/-- A task in its slot: the last part of `launch_slot_with_task`. -/
def launchBatchSlot (srv : BatchServer F) (i : Nat) (task : BatchTask) (lora : List (LoraInfo F)) : BatchServer F :=
  { slots := srv.slots.modify i fun slot =>
      { slot with state := if task.idParent.isSome then .waitOther else .started, task := some task, lora := lora }
    nEmptyConsecutive := 0 }

def launchChildren (srv : BatchServer F) (parent : Request) (lora : List (LoraInfo F)) : List (Nat × Nat) → BatchServer F
  | [] => srv
  | (i, id) :: rest =>
    launchChildren (launchBatchSlot srv i ⟨{ parent with id := id }, some parent.id, false⟩ lora) parent lora rest

def BatchSlot.ofFamily (slot : BatchSlot F) (idParent : Nat) : Bool :=
  slot.task.any fun t => t.id == idParent || t.idParent == some idParent

/-- A request comes to idle slots, its children first; if a launch fails, the slots of the family are released.
`launched` counts the launches that succeed. -/
def launchFamily (srv : BatchServer F) (i : Nat) (r : Request) (lora : List (LoraInfo F)) (children : List (Nat × Nat))
    (launched : Nat) : BatchServer F :=
  if children.length < launched then
    launchBatchSlot (launchChildren srv r lora children) i ⟨r, none, !children.isEmpty⟩ lora
  else
    let failed := launchChildren srv r lora (children.take launched)
    { failed with slots := failed.slots.map fun slot => if slot.ofFamily r.id then slot.release else slot }

def cancelSlots (srv : BatchServer F) (ids : List Nat) : BatchServer F :=
  { srv with slots := srv.slots.map fun slot => if slot.task.any (ids.contains ·.id) then slot.release else slot }

def areFree (srv : BatchServer F) (slots : List Nat) : Bool :=
  decide slots.Nodup && slots.all fun i => srv.slots[i]?.map (·.isProcessing) == some false

/-- A request comes to slots, `(slot, id)` for each child; requests are cancelled; or the slots are updated. -/
inductive BatchEvent (F : Type) where
  | launch (i : Nat) (r : Request) (lora : List (LoraInfo F)) (children : List (Nat × Nat)) (launched : Nat)
  | cancel (ids : List Nat)
  | update (it : Iteration)

end

section
variable {F : Type} [LinearOrder F]

/-- One step; `none` if it cannot be taken, or the program ends in it. -/
def batchStep (cfg : BatchConfig) (srv : BatchServer F) : BatchEvent F → Option (BatchServer F)
  | .launch i r lora children launched =>
    if areFree srv (i :: children.map (·.1)) then
      some (launchFamily srv i r lora children launched)
    else none
  | .cancel ids => some (cancelSlots srv ids)
  | .update it => if (fillBatch cfg it srv.slots).2.aborted then none else some (updateSlots cfg it srv)

end

section
variable {F : Type}

def BatchServer.Fresh (srv : BatchServer F) : Prop :=
  srv.nEmptyConsecutive = 0 ∧ ∀ slot ∈ srv.slots, slot.state = .idle ∧ slot.task = none

end

end Mallana.Server
