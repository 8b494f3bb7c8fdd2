import Mathlib.Algebra.Order.Ring.Int
import Mathlib.Data.List.Infix
import Mathlib.Data.Option.Basic

/-!
# Prompts of slots

Model of what the slots of the server keep of earlier requests: the tokens whose states are in the memory
(`server_prompt::tokens`), the context checkpoints, the adapters of the slot and the prompt cache. The steps are those of
`launch_slot_with_task`, `server_prompt_cache`, `process_single_task` (slot save, restore and erase, adapters) and
`update_slots` (a new prompt, a batch, a checkpoint, a context shift), for prompts of text.

A cached token carries the adapters its state was computed with, and the data of a checkpoint is the list of tokens
whose state it holds; the source keeps neither. What the memory module answers comes with the step. Where the source
compares floats to choose a slot or a cached prompt, a step may take any.
-/

namespace Mallana.Server

open List

/-- `common_adapter_lora_info`. -/
structure LoraInfo (F : Type) where
  ptr : Nat
  scale : F
deriving DecidableEq

/-- A token in the memory of a slot, with the adapters it was computed with. -/
structure Cell (F : Type) where
  tok : Int
  lora : List (LoraInfo F)
deriving DecidableEq

/-- `server_prompt_checkpoint`. -/
structure Checkpoint where
  posMin : Int
  posMax : Int
  nTokens : Nat
  data : List Int
deriving DecidableEq

/-- `server_prompt`. -/
structure Prompt (F : Type) where
  cells : List (Cell F)
  checkpoints : List Checkpoint
deriving DecidableEq

inductive SlotState where
  | idle
  | waitOther
  | started
  | processingPrompt
  | donePrompt
  | generating
deriving DecidableEq

/-- The fields of `server_task` that the steps read. `lora`: `params.lora`; `aloraStart`: the last position of the
invocation tokens of an aLoRA. -/
structure Task (F : Type) where
  id : Nat
  idParent : Option Nat
  tokens : List Int
  lora : List (Nat × F)
  aloraStart : Option Nat
  isParent : Bool
  cachePrompt : Bool
  nCacheReuse : Nat
  nKeep : Int
  nDiscard : Int
deriving DecidableEq

structure Slot (F : Type) where
  state : SlotState
  task : Option (Task F)
  prompt : Prompt F
  lora : List (LoraInfo F)
deriving DecidableEq

structure ServerState (F : Type) where
  loraAdapters : List (LoraInfo F)
  slots : List (Slot F)
  cache : List (Prompt F)
deriving DecidableEq

/-- The parameters of the server, the model and its memory module. `partialState`: the model is recurrent or hybrid or
uses a sliding window, so that checkpoints are made. -/
structure SlotConfig where
  nInvocationTokens : Nat → Nat
  nCtx : Nat
  nUbatch : Nat
  partialState : Bool
  nSwa : Nat
  canShift : Bool
  addBos : Bool
  nCtxCheckpoints : Nat
  checkpointEveryNt : Int

section
variable {F : Type}

def Prompt.tokens (p : Prompt F) : List Int := p.cells.map (·.tok)

def Prompt.nTokens (p : Prompt F) : Nat := p.cells.length

def Task.isChild (t : Task F) : Bool := t.idParent.isSome

def Slot.isProcessing (s : Slot F) : Bool := s.state != .idle

def Slot.taskTokens (s : Slot F) : List Int := (s.task.map (·.tokens)).getD []

end

section
variable {F : Type} [LinearOrder F] [Zero F]

/-- `lora_all_alora`, with whether one was found so far. -/
def loraAllAloraFrom (inv : Nat → Nat) : Bool → List (LoraInfo F) → Bool
  | found, [] => found
  | found, l :: ls =>
    if l.scale ≠ 0 then if inv l.ptr = 0 then false else loraAllAloraFrom inv true ls else loraAllAloraFrom inv found ls

/-- `lora_all_alora`. -/
def loraAllAlora (inv : Nat → Nat) (loras : List (LoraInfo F)) : Bool := loraAllAloraFrom inv false loras

/-- `lora_get_enabled_ids`. -/
def loraGetEnabledIds (loras : List (LoraInfo F)) : List Nat := (loras.zipIdx.filter (0 < ·.1.scale)).map (·.2)

/-- `are_lora_equal`. -/
def areLoraEqual (l1 l2 : List (LoraInfo F)) : Bool :=
  l1.length == l2.length && (l1.zip l2).all fun p => decide (p.1.scale = p.2.scale) && decide (p.1.ptr = p.2.ptr)

/-- `lora_should_clear_cache`. -/
def loraShouldClearCache (inv : Nat → Nat) (current next : List (LoraInfo F)) : Bool :=
  !((loraGetEnabledIds current).isEmpty || loraAllAlora inv current) || !loraAllAlora inv next

/-- `construct_lora_list`. -/
def constructLoraList (adapters : List (LoraInfo F)) (config : List (Nat × F)) : List (LoraInfo F) :=
  adapters.mapIdx fun i l => { l with scale := (config.lookup i).getD 0 }

/-- The adapters of a request: the first part of `launch_slot_with_task`. -/
def launchLora (inv : Nat → Nat) (adapters : List (LoraInfo F)) (slot : Slot F) (task : Task F) : Slot F :=
  if task.lora.isEmpty then { slot with lora := adapters }
  else if areLoraEqual (constructLoraList adapters task.lora) slot.lora then slot
  else
    { slot with
      prompt := if loraShouldClearCache inv slot.lora (constructLoraList adapters task.lora) then
        { slot.prompt with cells := [] } else slot.prompt
      lora := constructLoraList adapters task.lora }

/-- An aLoRA without its invocation tokens in the prompt is switched off. -/
def disableAlora (inv : Nat → Nat) (task : Task F) (slot : Slot F) : Slot F :=
  if loraAllAlora inv slot.lora && task.aloraStart.isNone then
    { slot with
      lora := slot.lora.mapIdx fun i l =>
        if (loraGetEnabledIds slot.lora).head? = some i then { l with scale := 0 } else l }
  else slot

/-- `launch_slot_with_task`. `valid`: the checks of the tokens and of the sampler pass. -/
def launchSlotWithTask (inv : Nat → Nat) (adapters : List (LoraInfo F)) (slot : Slot F) (task : Task F) (valid : Bool) :
    Slot F :=
  let slot := launchLora inv adapters slot task
  if loraAllAlora inv slot.lora && (loraGetEnabledIds slot.lora).length != 1 then slot
  else
    let slot := disableAlora inv task slot
    if valid then { slot with task := some task, state := if task.isChild then .waitOther else .started } else slot

end

section
variable {F : Type}

/-- `server_tokens::get_common_prefix`. -/
def getCommonPrefix : List Int → List Int → Nat
  | a :: as, b :: bs => if a = b then getCommonPrefix as bs + 1 else 0
  | _, _ => 0

/-- `server_slot::prompt_clear`: the checkpoints stay. -/
def promptClear (slot : Slot F) : Slot F := { slot with prompt := { slot.prompt with cells := [] } }

/-- `server_prompt_cache::alloc`: a prompt that a cached one begins with is not stored, and cached ones that it begins
with are removed. -/
def cacheAlloc (cache : List (Prompt F)) (prompt : Prompt F) : List (Prompt F) :=
  if cache.any fun c => getCommonPrefix c.tokens prompt.tokens == prompt.nTokens then cache
  else cache.filter (fun c => getCommonPrefix c.tokens prompt.tokens != c.nTokens) ++ [prompt]

/-- What `server_prompt_cache::load` does with the entry it finds best. -/
inductive CacheLoad where
  | keep
  | take (entry : Nat)
  | failed

/-- What `get_available_slot` does with the prompt of the slot it selects. `saved`: the state could be stored;
`dropped`: how many of the oldest entries are removed to respect the limits. -/
structure CacheUpdate where
  saved : Bool
  load : CacheLoad
  dropped : Nat

/-- `prompt_save`, `prompt_load` and `server_prompt_cache::update` in `get_available_slot`. -/
def updateCache (cache : List (Prompt F)) (slot : Slot F) (u : CacheUpdate) : Slot F × List (Prompt F) :=
  let cache := if u.saved then cacheAlloc cache slot.prompt else cache
  match u.load with
  | .keep => (slot, cache.drop u.dropped)
  | .failed => (promptClear slot, cache.drop u.dropped)
  | .take entry =>
    match cache[entry]? with
    | some prompt => ({ slot with prompt := prompt }, (cache.eraseIdx entry).drop u.dropped)
    | none => (slot, cache.drop u.dropped)

def moveChunk (cells : List (Cell F)) (headC headP nMatch : Nat) : List (Cell F) :=
  cells.take headP ++ (cells.drop headC).take nMatch ++ cells.drop (headP + nMatch)

/-- The loop that reuses chunks of the cached prompt: the cached tokens and how many of them are kept. -/
def reuseChunks (input : List Int) (nCacheReuse : Nat) : Nat → List (Cell F) → Nat → Nat → List (Cell F) × Nat
  | 0, cells, _, headP => (cells, headP)
  | fuel + 1, cells, headC, headP =>
    if headC < cells.length ∧ headP < input.length then
      let nMatch := getCommonPrefix ((cells.map (·.tok)).drop headC) (input.drop headP)
      if nCacheReuse ≤ nMatch then
        reuseChunks input nCacheReuse fuel (moveChunk cells headC headP nMatch) (headC + nMatch) (headP + nMatch)
      else reuseChunks input nCacheReuse fuel cells (headC + 1) headP
    else (cells, headP)

/-- The number of cached tokens that a prompt begins with; none behind the invocation of an aLoRA. -/
def commonCells (cells : List (Cell F)) (task : Task F) : Nat :=
  let nPast := getCommonPrefix (cells.map (·.tok)) task.tokens
  match task.aloraStart with
  | some start => if 0 < start then min nPast (start - 1) else nPast
  | none => nPast

def reusedCells (cfg : SlotConfig) (cells : List (Cell F)) (task : Task F) : List (Cell F) × Nat :=
  if task.cachePrompt then
    if cfg.canShift && 0 < task.nCacheReuse then
      reuseChunks task.tokens task.nCacheReuse cells.length cells (commonCells cells task) (commonCells cells task)
    else (cells, commonCells cells task)
  else (cells, 0)

def findCheckpoint (checkpoints : List Checkpoint) (posMinThold : Int) : Option Checkpoint :=
  checkpoints.reverse.find? fun c => c.posMin < posMinThold

/-- Where a prompt is continued, and the checkpoint that was restored. -/
structure Resume where
  nPast : Nat
  posNext : Int
  restored : Option Checkpoint
deriving DecidableEq

/-- The checkpoint's own positions bound where the prompt is continued. -/
def restoreCheckpoint (size : Nat) (posNext : Int) (c : Checkpoint) : Resume :=
  let posNext := min posNext (max (c.posMin + 1) c.posMax)
  { nPast := min (min posNext.toNat size) c.nTokens, posNext := posNext, restored := some c }

/-- The search for a checkpoint, for `size` cached tokens of which `nPast` are kept. `posMin` is what the memory holds,
`ok` whether the data could be restored. `none`: the abort for a memory that is empty. -/
def resumePrompt (cfg : SlotConfig) (checkpoints : List Checkpoint) (size nPast : Nat) (posMin : Int) (ok : Bool) :
    Option Resume :=
  let posMinThold := max 0 ((nPast : Int) - cfg.nSwa)
  if 0 < nPast ∧ nPast < size then
    if posMin = -1 then none
    else if posMinThold ≤ posMin then
      match findCheckpoint checkpoints posMinThold with
      | some c => if ok then some (restoreCheckpoint size nPast c) else some ⟨0, 0, none⟩
      | none => some ⟨0, 0, none⟩
    else some ⟨nPast, nPast, none⟩
  else some ⟨nPast, nPast, none⟩

def keepCount (nPast nTask : Nat) : Nat := if nPast = nTask ∧ 0 < nPast then nPast - 1 else nPast

/-- The slot behind the admission of its prompt: checkpoints beyond the point of continuation are erased. -/
def admitPrompt (slot : Slot F) (task : Task F) (cells : List (Cell F)) (r : Resume) : Slot F :=
  { slot with
    state := .processingPrompt
    prompt :=
      { cells := cells.take (keepCount r.nPast task.tokens.length)
        checkpoints := slot.prompt.checkpoints.filter fun c => c.posMax ≤ r.posNext } }

/-- Whether a checkpoint is made in front of the current batch. `nTokens` counts the tokens of the slot with those of
the batch, `nCur` those that the slot added to it, `nAll` all of the batch. -/
def wantsCheckpoint (cfg : SlotConfig) (checkpoints : List Checkpoint) (nTask nTokens nCur nAll : Nat) (posMin : Int) :
    Bool :=
  let last := (checkpoints.getLast?.map (·.nTokens)).getD 0
  cfg.partialState && 0 < cfg.nCtxCheckpoints &&
    (nTokens == nTask || nTask < nTokens + cfg.nUbatch ||
      (0 < cfg.checkpointEveryNt && cfg.checkpointEveryNt ≤ (nTokens : Int) - nAll - last)) &&
    0 ≤ posMin && 64 ≤ nTokens && (checkpoints.isEmpty || last + 64 < nTokens - nCur)

def pushCheckpoint (cfg : SlotConfig) (checkpoints : List Checkpoint) (c : Checkpoint) : List Checkpoint :=
  checkpoints.drop (checkpoints.length + 1 - cfg.nCtxCheckpoints) ++ [c]

/-- What the memory answers while a batch is filled: whether the tokens behind the kept ones could be removed, and the
positions that it holds then. -/
structure MemoryView where
  truncated : Bool
  posMin : Int
  posMax : Int

/-- A prompt is done when all of its tokens are in the batch or before it. -/
def promptState (n nTask : Nat) : SlotState := if n = nTask then .donePrompt else .processingPrompt

/-- The next `n` tokens of the prompt go into the batch, which is computed with the adapters `lora`; a checkpoint of the
state in front of the batch may be made. -/
def addPromptTokens (cfg : SlotConfig) (slot : Slot F) (task : Task F) (lora : List (LoraInfo F)) (n nAll : Nat)
    (m : MemoryView) : Slot F :=
  let before := if m.truncated then slot.prompt.cells else []
  let added := ((task.tokens.drop before.length).take n).map fun t => { tok := t, lora := lora : Cell F }
  let cells := before ++ added
  { slot with
    state := promptState cells.length task.tokens.length
    prompt :=
      { cells := cells
        checkpoints :=
          if wantsCheckpoint cfg slot.prompt.checkpoints task.tokens.length cells.length added.length nAll m.posMin then
            pushCheckpoint cfg slot.prompt.checkpoints
              { posMin := m.posMin, posMax := m.posMax, nTokens := before.length, data := before.map (·.tok) }
          else slot.prompt.checkpoints } }

/-- Tokens of a generating slot: the last sampled one and accepted drafts. -/
def addTokens (slot : Slot F) (toks : List Int) (lora : List (LoraInfo F)) : Slot F :=
  { slot with prompt := { slot.prompt with cells := slot.prompt.cells ++ toks.map fun t => { tok := t, lora := lora } } }

def shiftKeep (cfg : SlotConfig) (task : Task F) : Nat :=
  let nKeep := if task.nKeep < 0 then (task.tokens.length : Int) else task.nKeep
  (min ((cfg.nCtx : Int) - 4) (if cfg.addBos then nKeep + 1 else nKeep)).toNat

/-- The number of tokens that a context shift removes behind them. -/
def shiftDiscard (cfg : SlotConfig) (task : Task F) (nTokens : Nat) : Nat :=
  if task.nDiscard ≠ 0 then task.nDiscard.toNat else (nTokens - shiftKeep cfg task) / 2

def shiftContext (cfg : SlotConfig) (slot : Slot F) (task : Task F) : Slot F :=
  let nKeep := shiftKeep cfg task
  let nDiscard := shiftDiscard cfg task slot.prompt.nTokens
  { slot with
    prompt :=
      { slot.prompt with
        cells := (slot.prompt.cells.take nKeep ++ slot.prompt.cells.drop (nKeep + nDiscard)).take
          (slot.prompt.nTokens - nDiscard) } }

/-- `server_slot::release`: a child keeps no tokens. -/
def releaseSlot (slot : Slot F) : Slot F :=
  let slot := if (slot.task.map (·.isChild)).getD false then promptClear slot else slot
  { slot with state := .idle, task := none }

/-- `server_slot::copy_state_to`, and the child goes on behind its prompt. -/
def copyStateTo (parent child : Slot F) : Slot F := { child with prompt := parent.prompt, state := .donePrompt }

/-- `SERVER_TASK_TYPE_SLOT_RESTORE`: the tokens of the file replace those of the slot, or none if it cannot be read. -/
def restoreSlot (slot : Slot F) (file : Option (List (Cell F))) : Slot F :=
  { slot with prompt := { slot.prompt with cells := file.getD [] } }

end

/-- A step of the server. `select`: `get_available_slot` for a task that is then deferred. `launch` and `erase` also stand for the steps that do the same: a child task is launched
without a look at the prompt cache, and a slot is purged to make space. A prompt that is rejected, an answer and a
cancellation are releases. Saving a slot to a file changes nothing here. -/
inductive SlotEvent (F : Type) where
  | setLora (config : List (Nat × F))
  | select (i : Nat) (update : CacheUpdate)
  | launch (i : Nat) (task : Task F) (update : Option CacheUpdate) (valid : Bool)
  | start (i : Nat) (posMin : Int) (restored : Bool)
  | batch (i batched n nAll : Nat) (m : MemoryView)
  | copy (parent child : Nat)
  | decoded (i : Nat)
  | sample (i batched : Nat) (toks : List Int)
  | shift (i : Nat)
  | release (i : Nat)
  | decodeFailed
  | erase (i : Nat)
  | restore (i : Nat) (file : Option (List (Cell F)))

section
variable {F : Type} [LinearOrder F] [Zero F]

/-- Change one slot; `none` if the step cannot be taken there. -/
def ServerState.onSlot (srv : ServerState F) (i : Nat) (f : Slot F → Option (Slot F)) : Option (ServerState F) :=
  (srv.slots[i]?.bind f).map fun slot => { srv with slots := srv.slots.set i slot }

/-- The slot that `get_available_slot` returns, and the cache. -/
def cachedSlot (srv : ServerState F) (slot : Slot F) : Option CacheUpdate → Slot F × List (Prompt F)
  | some u => if slot.prompt.cells.isEmpty then (slot, srv.cache) else updateCache srv.cache slot u
  | none => (slot, srv.cache)

/-- What `get_available_slot` does with an idle slot and the cache, and then `f` with the slot. -/
def cachedStep (srv : ServerState F) (i : Nat) (update : Option CacheUpdate) (f : Slot F → Slot F) : Option (ServerState F) :=
  match srv.slots[i]? with
  | some slot =>
    if slot.isProcessing then none
    else
      some { srv with
        slots := srv.slots.set i (f (cachedSlot srv slot update).1)
        cache := (cachedSlot srv slot update).2 }
  | none => none

/-- The prompt of a started slot is compared with the cached tokens: the slot and where it continues. -/
def startSlot (cfg : SlotConfig) (slot : Slot F) (posMin : Int) (restored : Bool) : Option (Slot F × Resume) :=
  match slot.state, slot.task with
  | .started, some task =>
    if task.tokens.isEmpty || decide (cfg.nCtx ≤ task.tokens.length) then none
    else
      let (cells, nPast) := reusedCells cfg slot.prompt.cells task
      (resumePrompt cfg slot.prompt.checkpoints cells.length nPast posMin restored).map fun r =>
        (admitPrompt slot task cells r, r)
  | _, _ => none

/-- The slot adds tokens of its prompt to a batch that begins with `batched`. -/
def batchSlot (cfg : SlotConfig) (slot batched : Slot F) (n nAll : Nat) (m : MemoryView) : Option (Slot F) :=
  match slot.state, slot.task with
  | .processingPrompt, some task =>
    if areLoraEqual batched.lora slot.lora then some (addPromptTokens cfg slot task batched.lora n nAll m) else none
  | _, _ => none

def sampleSlot (slot batched : Slot F) (toks : List Int) : Option (Slot F) :=
  if slot.state = .generating ∧ areLoraEqual batched.lora slot.lora then some (addTokens slot toks batched.lora)
  else none

def shiftSlot (cfg : SlotConfig) (slot : Slot F) : Option (Slot F) :=
  match slot.state, slot.task with
  | .generating, some task =>
    if cfg.nCtx ≤ slot.prompt.nTokens + 1 && !task.isParent && !task.isChild then some (shiftContext cfg slot task)
    else none
  | _, _ => none

def copySlot (parent child : Slot F) : Option (Slot F) :=
  match parent.task, child.task with
  | some p, some c =>
    if parent.state = .donePrompt ∧ child.state = .waitOther ∧ c.idParent = some p.id then some (copyStateTo parent child)
    else none
  | _, _ => none

/-- One step; `none` if it cannot be taken. -/
def slotStep (cfg : SlotConfig) (srv : ServerState F) : SlotEvent F → Option (ServerState F)
  | .setLora config => some { srv with loraAdapters := constructLoraList srv.loraAdapters config }
  | .select i update => cachedStep srv i (some update) id
  | .launch i task update valid =>
    cachedStep srv i update fun slot => launchSlotWithTask cfg.nInvocationTokens srv.loraAdapters slot task valid
  | .start i posMin restored => srv.onSlot i fun slot => (startSlot cfg slot posMin restored).map (·.1)
  | .batch i batched n nAll m =>
    srv.onSlot i fun slot => srv.slots[batched]?.bind fun first => batchSlot cfg slot first n nAll m
  | .copy parent child => srv.onSlot child fun slot => srv.slots[parent]?.bind fun p => copySlot p slot
  | .decoded i => srv.onSlot i fun slot =>
    if slot.state = .donePrompt then some { slot with state := .generating } else none
  | .sample i batched toks => srv.onSlot i fun slot => srv.slots[batched]?.bind fun first => sampleSlot slot first toks
  | .shift i => srv.onSlot i fun slot => shiftSlot cfg slot
  | .release i => srv.onSlot i fun slot => if slot.isProcessing then some (releaseSlot slot) else none
  | .decodeFailed =>
    some { srv with slots := srv.slots.map fun slot => if slot.isProcessing then promptClear (releaseSlot slot) else slot }
  | .erase i => srv.onSlot i fun slot => if slot.isProcessing then none else some (promptClear slot)
  | .restore i file => srv.onSlot i fun slot => if slot.isProcessing then none else some (restoreSlot slot file)

def ServerState.Fresh (srv : ServerState F) : Prop :=
  srv.cache = [] ∧ ∀ slot ∈ srv.slots, slot.state = .idle ∧ slot.task = none ∧ slot.prompt = ⟨[], []⟩

end

section
variable {F : Type}

lemma onSlot_eq_some {srv srv' : ServerState F} {i : Nat} {f : Slot F → Option (Slot F)}
    (h : srv.onSlot i f = some srv') :
    ∃ slot slot', srv.slots[i]? = some slot ∧ f slot = some slot' ∧ srv' = { srv with slots := srv.slots.set i slot' } := by
  obtain ⟨slot', hbind, rfl⟩ := Option.map_eq_some_iff.1 h
  obtain ⟨slot, hslot, hf⟩ := Option.bind_eq_some_iff.1 hbind
  exact ⟨slot, slot', hslot, hf, rfl⟩

lemma cachedStep_eq_some {srv srv' : ServerState F} {i : Nat} {update : Option CacheUpdate} {f : Slot F → Slot F}
    (h : cachedStep srv i update f = some srv') :
    ∃ slot, srv.slots[i]? = some slot ∧ slot.isProcessing = false ∧ srv' = { srv with
      slots := srv.slots.set i (f (cachedSlot srv slot update).1)
      cache := (cachedSlot srv slot update).2 } := by
  unfold cachedStep at h
  split at h
  · rename_i slot hslot
    split at h
    · cases h
    · rename_i hidle
      exact ⟨slot, hslot, Bool.eq_false_iff.2 hidle, (Option.some.inj h).symm⟩
  · cases h

lemma forall_mem_set {P : Slot F → Prop} {slots : List (Slot F)} {i : Nat} {slot' : Slot F} (h : ∀ s ∈ slots, P s)
    (h' : P slot') : ∀ s ∈ slots.set i slot', P s := by
  intro s hs
  rcases mem_or_eq_of_mem_set hs with hs | rfl
  · exact h s hs
  · exact h'

lemma areLoraEqual_iff [LinearOrder F] {l1 l2 : List (LoraInfo F)} : areLoraEqual l1 l2 = true ↔ l1 = l2 := by
  rw [areLoraEqual, Bool.and_eq_true, beq_iff_eq, all_eq_true]
  constructor
  · rintro ⟨hlen, hall⟩
    apply ext_getElem hlen
    intro i h1 h2
    have hmem : (l1[i], l2[i]) ∈ l1.zip l2 := by
      rw [← getElem_zip (h := by rw [length_zip]; omega)]
      exact getElem_mem _
    have hpair := hall _ hmem
    rw [Bool.and_eq_true] at hpair
    have hscale := of_decide_eq_true hpair.1
    have hptr := of_decide_eq_true hpair.2
    cases hl1 : l1[i]
    cases hl2 : l2[i]
    rw [hl1, hl2] at hscale hptr
    cases hscale
    cases hptr
    rfl
  · rintro rfl
    refine ⟨rfl, ?_⟩
    intro p hp
    have hpair : p.1 = p.2 := by
      obtain ⟨i, hi, hpi⟩ := getElem_of_mem hp
      rw [← hpi, getElem_zip]
    rw [hpair, Bool.and_eq_true]
    exact ⟨decide_eq_true rfl, decide_eq_true rfl⟩

end

end Mallana.Server
