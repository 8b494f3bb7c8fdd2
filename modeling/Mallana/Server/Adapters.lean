import Mallana.Lib.Reach
import Mallana.Server.Prompt

/-!
# Adapters of cached tokens

Which adapters the cached tokens of a slot were computed with. A request with its own list of adapters drops the cached
tokens if the list differs from that of the slot. A request without a list takes the adapters of the server with no such
check, and a prompt that is loaded from the cache may come from a slot with other adapters.
-/

namespace Mallana.Server

open Mallana.Lib List Option

variable {F : Type}

/-- The tokens of a slot were computed with its adapters. A child slot is left out: it keeps no tokens when it is
released. -/
structure SameLora (slot : Slot F) : Prop where
  cells : (slot.task.map (·.isChild)).getD false = false → ∀ c ∈ slot.prompt.cells, c.lora = slot.lora
  started : slot.state = .started → (slot.task.map (·.isChild)).getD false = false
  idle : slot.isProcessing = false → slot.task = none

def AllSameLora (srv : ServerState F) : Prop := ∀ slot ∈ srv.slots, SameLora slot

variable {slot slot' : Slot F} {cells : List (Cell F)} {c : Cell F} {cfg : SlotConfig}

lemma SameLora.of_subset (h : SameLora slot) (htask : slot'.task = slot.task)
    (hlora : slot'.lora = slot.lora) (hcells : ∀ c ∈ slot'.prompt.cells, c ∈ slot.prompt.cells)
    (hs : slot'.state = .started → slot.state = .started)
    (hidle : slot'.isProcessing = false → slot.isProcessing = false) : SameLora slot' := by
  refine ⟨?_, ?_, ?_⟩
  · rw [htask, hlora]
    intro hchild c hc
    exact h.cells hchild c (hcells c hc)
  · intro hstarted
    rw [htask]
    exact h.started (hs hstarted)
  · intro hproc
    rw [htask]
    exact h.idle (hidle hproc)

lemma SameLora.release (h : SameLora slot) : SameLora (releaseSlot slot) := by
  unfold releaseSlot
  cases hchild : (slot.task.map (·.isChild)).getD false with
  | true =>
    refine ⟨?_, nofun, fun _ => rfl⟩
    intro _ c hc
    cases hc
  | false =>
    refine ⟨?_, nofun, fun _ => rfl⟩
    intro _
    exact h.cells hchild

lemma SameLora.clear (h : SameLora slot) : SameLora (promptClear slot) := by
  apply h.of_subset
  · rfl
  · rfl
  · intro c hc
    cases hc
  · exact id
  · exact id

lemma SameLora.restore (h : SameLora slot) {file : Option (List (Cell F))}
    (hfile : ∀ c ∈ file.getD [], c.lora = slot.lora) : SameLora (restoreSlot slot file) :=
  ⟨fun _ => hfile, h.started, h.idle⟩

lemma mem_moveChunk {headC headP n : Nat} (h : c ∈ moveChunk cells headC headP n) : c ∈ cells := by
  rw [moveChunk, mem_append, mem_append] at h
  rcases h with (h | h) | h
  · exact mem_of_mem_take h
  · exact mem_of_mem_drop (mem_of_mem_take h)
  · exact mem_of_mem_drop h

lemma mem_reuseChunks {input : List Int} {n fuel : Nat} {headC headP : Nat}
    (h : c ∈ (reuseChunks input n fuel cells headC headP).1) : c ∈ cells := by
  induction fuel generalizing cells headC headP with
  | zero => exact h
  | succ fuel ih =>
    simp only [reuseChunks] at h
    split at h
    · split at h
      · exact mem_moveChunk (ih h)
      · exact ih h
    · exact h

lemma mem_reusedCells {task : Task F} (h : c ∈ (reusedCells cfg cells task).1) : c ∈ cells := by
  unfold reusedCells at h
  split at h
  · split at h
    · exact mem_reuseChunks h
    · exact h
  · exact h

lemma promptState_ne_started (n nTask : Nat) : promptState n nTask ≠ .started := by
  unfold promptState
  split
  · exact fun h => by cases h
  · exact fun h => by cases h

lemma promptState_isProcessing (n nTask : Nat) : (promptState n nTask != .idle) ≠ false := by
  unfold promptState
  split <;> decide

lemma SameLora.shift (hslot : SameLora slot) (h : shiftSlot cfg slot = some slot') : SameLora slot' := by
  unfold shiftSlot at h
  split at h
  · split at h
    · cases h
      apply hslot.of_subset
      · rfl
      · rfl
      · intro c hc
        rcases mem_append.1 (mem_of_mem_take hc) with hc | hc
        · exact mem_of_mem_take hc
        · exact mem_of_mem_drop hc
      · exact id
      · exact id
    · cases h
  · cases h

lemma SameLora.copy {parent child : Slot F} (h : copySlot parent child = some slot') : SameLora slot' := by
  unfold copySlot at h
  split at h
  · rename_i p c _ hchild
    split at h
    · rename_i hc
      cases h
      refine ⟨?_, nofun, nofun⟩
      intro hno
      have hno : (child.task.map (·.isChild)).getD false = false := hno
      rw [hchild, map_some, getD_some, Task.isChild, hc.2.2] at hno
      cases hno
    · cases h
  · cases h

lemma startSlot_eq_some {posMin : Int} {restored : Bool} {r : Resume}
    (h : startSlot cfg slot posMin restored = some (slot', r)) :
    ∃ task, slot.state = .started ∧ slot.task = some task ∧
      resumePrompt cfg slot.prompt.checkpoints (reusedCells cfg slot.prompt.cells task).1.length
        (reusedCells cfg slot.prompt.cells task).2 posMin restored = some r ∧
      slot' = admitPrompt slot task (reusedCells cfg slot.prompt.cells task).1 r := by
  unfold startSlot at h
  split at h
  · rename_i task hstate htask
    split at h
    · cases h
    · obtain ⟨r', hr, heq⟩ := map_eq_some_iff.1 h
      cases heq
      exact ⟨task, hstate, htask, hr, rfl⟩
  · cases h

lemma SameLora.start {posMin : Int} {restored : Bool} {r : Resume}
    (hslot : SameLora slot) (h : startSlot cfg slot posMin restored = some (slot', r)) : SameLora slot' := by
  obtain ⟨task, hstate, _, _, rfl⟩ := startSlot_eq_some h
  apply hslot.of_subset
  · rfl
  · rfl
  · intro c hc
    exact mem_reusedCells (mem_of_mem_take hc)
  · intro _
    exact hstate
  · intro hst
    cases hst

section
variable [LinearOrder F]

lemma SameLora.batch {cfg : SlotConfig} {slot batched slot' : Slot F} {n nAll : Nat} {m : MemoryView}
    (hslot : SameLora slot) (h : batchSlot cfg slot batched n nAll m = some slot') : SameLora slot' := by
  unfold batchSlot at h
  split at h
  · rename_i task hstate htask
    split at h
    · rename_i hlora
      have hlora := areLoraEqual_iff.1 hlora
      cases h
      refine ⟨?_, ?_, ?_⟩
      · intro hchild c hc
        simp only [addPromptTokens] at hc hchild ⊢
        rcases mem_append.1 hc with hc | hc
        · split at hc
          · exact hslot.cells hchild c hc
          · cases hc
        · obtain ⟨t, _, rfl⟩ := List.mem_map.1 hc
          exact hlora
      · intro hst
        exact absurd hst (promptState_ne_started _ _)
      · intro hst
        exact absurd hst (promptState_isProcessing _ _)
    · cases h
  · cases h

lemma SameLora.sample {slot batched slot' : Slot F} {toks : List Int} (hslot : SameLora slot)
    (h : sampleSlot slot batched toks = some slot') : SameLora slot' := by
  unfold sampleSlot at h
  split at h
  · rename_i hst
    have hlora := areLoraEqual_iff.1 hst.2
    cases h
    refine ⟨?_, ?_, ?_⟩
    · intro hchild c hc
      rcases mem_append.1 hc with hc | hc
      · exact hslot.cells hchild c hc
      · obtain ⟨t, _, rfl⟩ := List.mem_map.1 hc
        exact hlora
    · intro hstarted
      have hgen : slot.state = .started := hstarted
      rw [hst.1] at hgen
      cases hgen
    · exact hslot.idle
  · cases h

end

section
variable [LinearOrder F] [Zero F]

variable {inv : Nat → Nat}

section
variable (h : ∀ ptr, inv ptr = 0)
include h

lemma loraAllAloraFrom_ordinary (loras : List (LoraInfo F)) :
    loraAllAloraFrom inv false loras = false := by
  induction loras with
  | nil => rfl
  | cons l loras ih =>
    rw [loraAllAloraFrom]
    split
    · rw [if_pos (h l.ptr)]
    · exact ih

lemma loraAllAlora_ordinary (loras : List (LoraInfo F)) :
    loraAllAlora inv loras = false :=
  loraAllAloraFrom_ordinary h loras

lemma loraShouldClearCache_ordinary (current next : List (LoraInfo F)) :
    loraShouldClearCache inv current next = true := by
  rw [loraShouldClearCache, loraAllAlora_ordinary h next, Bool.not_false, Bool.or_true]

lemma launchSlotWithTask_ordinary (adapters : List (LoraInfo F))
    (slot : Slot F) (task : Task F) (valid : Bool) : launchSlotWithTask inv adapters slot task valid =
      if valid then { launchLora inv adapters slot task with
          task := some task, state := if task.isChild then .waitOther else .started }
      else launchLora inv adapters slot task := by
  simp only [launchSlotWithTask, disableAlora, loraAllAlora_ordinary h, Bool.false_and, Bool.false_eq_true, if_false]

end

/-- The cached tokens of a slot fit to a request: they were computed with the adapters of the server if the request has
no list, and with those of the slot if its list makes no difference to them. -/
structure OwnLora (adapters : List (LoraInfo F)) (slot : Slot F) (task : Task F) : Prop where
  server : task.lora.isEmpty = true → ∀ c ∈ slot.prompt.cells, c.lora = adapters
  slot : task.lora.isEmpty = false → constructLoraList adapters task.lora = slot.lora →
    ∀ c ∈ slot.prompt.cells, c.lora = slot.lora

lemma launchLora_cells (h : ∀ ptr, inv ptr = 0) {adapters : List (LoraInfo F)} {slot : Slot F}
    {task : Task F} (hown : OwnLora adapters slot task) :
    ∀ c ∈ (launchLora inv adapters slot task).prompt.cells, c.lora = (launchLora inv adapters slot task).lora := by
  unfold launchLora
  split
  · rename_i hempty
    exact hown.server hempty
  · rename_i hlist
    split
    · rename_i heq
      exact hown.slot (Bool.eq_false_iff.2 hlist) (areLoraEqual_iff.1 heq)
    · intro c hc
      simp only [loraShouldClearCache_ordinary h, if_true] at hc
      cases hc

lemma launchLora_task (inv : Nat → Nat) (adapters : List (LoraInfo F)) (slot : Slot F) (task : Task F) :
    (launchLora inv adapters slot task).task = slot.task ∧ (launchLora inv adapters slot task).state = slot.state := by
  unfold launchLora
  split
  · exact ⟨rfl, rfl⟩
  · split <;> exact ⟨rfl, rfl⟩

lemma SameLora.launch (h : ∀ ptr, inv ptr = 0) {adapters : List (LoraInfo F)} {slot : Slot F}
    {task : Task F} (valid : Bool) (hidle : slot.isProcessing = false) (htask : slot.task = none)
    (hown : OwnLora adapters slot task) : SameLora (launchSlotWithTask inv adapters slot task valid) := by
  have hcells := launchLora_cells h hown
  obtain ⟨htask', hstate⟩ := launchLora_task inv adapters slot task
  rw [launchSlotWithTask_ordinary h]
  cases valid with
  | true =>
    rw [if_pos rfl]
    refine ⟨fun _ => hcells, ?_, ?_⟩
    · intro hst
      cases hchild : task.isChild with
      | true =>
        simp only [hchild, if_true] at hst
        cases hst
      | false => exact hchild
    · intro hproc
      cases hchild : task.isChild with
      | true =>
        simp only [Slot.isProcessing, hchild, if_true] at hproc
        cases hproc
      | false =>
        simp only [Slot.isProcessing, hchild, Bool.false_eq_true, if_false] at hproc
        cases hproc
  | false =>
    rw [if_neg Bool.false_ne_true]
    refine ⟨fun _ => hcells, ?_, fun _ => htask'.trans htask⟩
    intro hst
    rw [Slot.isProcessing, ← hstate, hst] at hidle
    cases hidle

end

def loadedPrompt (srv : ServerState F) (slot : Slot F) : Option CacheUpdate → Option (Prompt F)
  | some u =>
    match u.load with
    | .take entry =>
      if slot.prompt.cells.isEmpty then none
      else (if u.saved then cacheAlloc srv.cache slot.prompt else srv.cache)[entry]?
    | _ => none
  | none => none

lemma cachedSlot_same (srv : ServerState F) (slot : Slot F) (update : Option CacheUpdate) :
    (cachedSlot srv slot update).1.lora = slot.lora ∧ (cachedSlot srv slot update).1.task = slot.task ∧
      (cachedSlot srv slot update).1.state = slot.state := by
  cases update with
  | none => exact ⟨rfl, rfl, rfl⟩
  | some u =>
    rw [cachedSlot]
    split
    · exact ⟨rfl, rfl, rfl⟩
    · unfold updateCache
      cases u.load with
      | keep => exact ⟨rfl, rfl, rfl⟩
      | failed => exact ⟨rfl, rfl, rfl⟩
      | take entry =>
        simp only []
        split <;> exact ⟨rfl, rfl, rfl⟩

lemma cachedSlot_cells {srv : ServerState F} {update : Option CacheUpdate}
    (h : loadedPrompt srv slot update = none) : ∀ c ∈ (cachedSlot srv slot update).1.prompt.cells, c ∈ slot.prompt.cells := by
  cases update with
  | none => exact fun _ => id
  | some u =>
    rw [cachedSlot]
    split
    · exact fun _ => id
    · rename_i hcells
      unfold updateCache
      cases hu : u.load with
      | keep => exact fun _ => id
      | failed => exact nofun
      | take entry =>
        simp only [loadedPrompt, hu, if_neg hcells] at h
        simp only [h]
        exact fun _ => id

lemma cachedSlot_loaded {srv : ServerState F} {update : Option CacheUpdate} {prompt : Prompt F}
    (h : loadedPrompt srv slot update = some prompt) : (cachedSlot srv slot update).1.prompt = prompt := by
  unfold loadedPrompt at h
  split at h
  · split at h
    · rename_i u entry hu
      split at h
      · cases h
      · rename_i hcells
        rw [cachedSlot, if_neg hcells, updateCache]
        simp only [hu, h]
    · cases h
  · cases h

/-- The prompt that the cache leaves in an idle slot. -/
lemma SameLora.cached {srv : ServerState F} {update : Option CacheUpdate} (hsame : SameLora slot) (htask : slot.task = none)
    (hloaded : ∀ prompt, loadedPrompt srv slot update = some prompt → ∀ c ∈ prompt.cells, c.lora = slot.lora) :
    SameLora (cachedSlot srv slot update).1 := by
  obtain ⟨hlora, htask', hstate⟩ := cachedSlot_same srv slot update
  refine ⟨fun _ c hc => ?_, fun hst => ?_, fun _ => htask'.trans htask⟩
  · rw [hlora]
    cases hprompt : loadedPrompt srv slot update with
    | none => exact hsame.cells (by rw [htask]; rfl) c (cachedSlot_cells hprompt c hc)
    | some prompt => exact hloaded prompt hprompt c (cachedSlot_loaded hprompt ▸ hc)
  · rw [htask']
    exact hsame.started (hstate ▸ hst)

lemma Fresh.allSameLora {srv : ServerState F} (h : srv.Fresh) : AllSameLora srv := by
  intro slot hslot
  obtain ⟨hstate, htask, hprompt⟩ := h.2 slot hslot
  refine ⟨?_, ?_, fun _ => htask⟩
  · intro _ c hc
    rw [hprompt] at hc
    cases hc
  · intro hst
    rw [hstate] at hst
    cases hst

section
variable [LinearOrder F] [Zero F]

/-- What a launch needs. A request without a list of adapters comes to a slot without cached tokens, or the server has
the adapters of the slot. A prompt that is loaded from the cache fits to the request. -/
def LaunchOwn (srv : ServerState F) (slot : Slot F) (update : Option CacheUpdate) (task : Task F) : Prop :=
  if loadedPrompt srv slot update = none then
    task.lora.isEmpty = true → (cachedSlot srv slot update).1.prompt.cells = [] ∨ srv.loraAdapters = slot.lora
  else OwnLora srv.loraAdapters (cachedSlot srv slot update).1 task

/-- What a step needs: of a launch what the source does not check; and a prompt that is loaded for a task which is then
deferred, or a file that is restored, holds tokens that were computed with the adapters of the slot. -/
def KeepsLora (srv : ServerState F) : SlotEvent F → Prop
  | .select i update => ∀ slot, srv.slots[i]? = some slot → ∀ prompt, loadedPrompt srv slot (some update) = some prompt →
    ∀ c ∈ prompt.cells, c.lora = slot.lora
  | .launch i task update _ => ∀ slot, srv.slots[i]? = some slot → LaunchOwn srv slot update task
  | .restore i file => ∀ slot, srv.slots[i]? = some slot → ∀ c ∈ file.getD [], c.lora = slot.lora
  | _ => True

omit [LinearOrder F] in
lemma LaunchOwn.ownLora {srv : ServerState F} {slot : Slot F} {update : Option CacheUpdate} {task : Task F}
    (h : LaunchOwn srv slot update task) (hslot : ∀ c ∈ slot.prompt.cells, c.lora = slot.lora) :
    OwnLora srv.loraAdapters (cachedSlot srv slot update).1 task := by
  unfold LaunchOwn at h
  split at h
  · rename_i hnone
    have hmem := cachedSlot_cells hnone
    have hlora := (cachedSlot_same srv slot update).1
    constructor
    · intro hempty c hc
      rcases h hempty with hnil | heq
      · rw [hnil] at hc
        cases hc
      · rw [hslot c (hmem c hc), heq]
    · intro _ _ c hc
      rw [hslot c (hmem c hc), hlora]
  · exact h

/-- A step keeps every cached token with its adapters. -/
lemma allSameLora_step {cfg : SlotConfig} (hinv : ∀ ptr, cfg.nInvocationTokens ptr = 0) {srv srv' : ServerState F}
    {ev : SlotEvent F} (hall : AllSameLora srv) (hkeeps : KeepsLora srv ev) (h : slotStep cfg srv ev = some srv') :
    AllSameLora srv' := by
  have hone : ∀ {i : Nat} {f : Slot F → Option (Slot F)}, srv.onSlot i f = some srv' →
      (∀ slot slot', srv.slots[i]? = some slot → f slot = some slot' → SameLora slot → SameLora slot') →
      AllSameLora srv' := by
    intro i f hs hf
    obtain ⟨slot, slot', hslot, hfs, rfl⟩ := onSlot_eq_some hs
    exact forall_mem_set hall (hf slot slot' hslot hfs (hall slot (mem_of_getElem? hslot)))
  cases ev with
  | setLora config =>
    cases h
    exact hall
  | select i update =>
    obtain ⟨slot, hslot, hidle, rfl⟩ := cachedStep_eq_some h
    refine forall_mem_set hall ((hall slot (mem_of_getElem? hslot)).cached ?_ (hkeeps slot hslot))
    exact (hall slot (mem_of_getElem? hslot)).idle hidle
  | launch i task update valid =>
    unfold slotStep at h
    obtain ⟨slot, hslot, hidle, rfl⟩ := cachedStep_eq_some h
    have hsame := hall slot (mem_of_getElem? hslot)
    have htask := hsame.idle hidle
    have hcells := hsame.cells (by rw [htask]; rfl)
    have hown := (hkeeps slot hslot).ownLora hcells
    obtain ⟨_, htask', hstate⟩ := cachedSlot_same srv slot update
    have hidle' : (cachedSlot srv slot update).1.isProcessing = false := by
      rw [Slot.isProcessing, hstate]
      exact hidle
    exact forall_mem_set hall (SameLora.launch hinv valid hidle' (htask'.trans htask) hown)
  | start i posMin restored =>
    refine hone h ?_
    intro slot slot' _ hf hsame
    obtain ⟨r, hr, rfl⟩ := map_eq_some_iff.1 hf
    exact hsame.start hr
  | batch i batched n nAll m =>
    refine hone h ?_
    intro slot slot' _ hf hsame
    obtain ⟨first, _, hb⟩ := bind_eq_some_iff.1 hf
    exact hsame.batch hb
  | copy parent child =>
    refine hone h ?_
    intro slot slot' _ hf _
    obtain ⟨p, _, hc⟩ := bind_eq_some_iff.1 hf
    exact SameLora.copy hc
  | decoded i =>
    refine hone h ?_
    intro slot slot' _ hf hsame
    split at hf
    · rename_i hdone
      cases hf
      refine ⟨hsame.cells, nofun, nofun⟩
    · cases hf
  | sample i batched toks =>
    refine hone h ?_
    intro slot slot' _ hf hsame
    obtain ⟨first, _, hb⟩ := bind_eq_some_iff.1 hf
    exact hsame.sample hb
  | shift i =>
    refine hone h ?_
    intro slot slot' _ hf hsame
    exact hsame.shift hf
  | release i =>
    refine hone h ?_
    intro slot slot' _ hf hsame
    split at hf
    · cases hf
      exact hsame.release
    · cases hf
  | decodeFailed =>
    cases h
    intro slot hslot
    obtain ⟨slot, hmem, rfl⟩ := List.mem_map.1 hslot
    split
    · exact (hall slot hmem).release.clear
    · exact hall slot hmem
  | erase i =>
    refine hone h ?_
    intro slot slot' _ hf hsame
    split at hf
    · cases hf
    · cases hf
      exact hsame.clear
  | restore i file =>
    refine hone h ?_
    intro slot slot' hslot hf hsame
    split at hf
    · cases hf
    · cases hf
      exact hsame.restore (hkeeps slot hslot)

instance (adapters : List (LoraInfo F)) (slot : Slot F) (task : Task F) : Decidable (OwnLora adapters slot task) :=
  decidable_of_iff ((task.lora.isEmpty = true → ∀ c ∈ slot.prompt.cells, c.lora = adapters) ∧
    (task.lora.isEmpty = false → constructLoraList adapters task.lora = slot.lora →
      ∀ c ∈ slot.prompt.cells, c.lora = slot.lora)) ⟨fun h => ⟨h.1, h.2⟩, fun h => ⟨h.server, h.slot⟩⟩

instance (srv : ServerState F) (slot : Slot F) (update : Option CacheUpdate) (task : Task F) :
    Decidable (LaunchOwn srv slot update task) := by
  unfold LaunchOwn
  infer_instance

instance (srv : ServerState F) (ev : SlotEvent F) : Decidable (KeepsLora srv ev) :=
  match ev with
  | .select i update => inferInstanceAs (Decidable (∀ slot ∈ srv.slots[i]?, ∀ prompt ∈ loadedPrompt srv slot (some update),
    ∀ c ∈ prompt.cells, c.lora = slot.lora))
  | .launch i task update _ => inferInstanceAs (Decidable (∀ slot ∈ srv.slots[i]?, LaunchOwn srv slot update task))
  | .restore i file => inferInstanceAs (Decidable (∀ slot ∈ srv.slots[i]?, ∀ c ∈ file.getD [], c.lora = slot.lora))
  | .setLora _ | .start _ _ _ | .batch _ _ _ _ _ | .copy _ _ | .decoded _ | .sample _ _ _ | .shift _ | .release _
  | .decodeFailed | .erase _ => .isTrue trivial

def keepingStep (cfg : SlotConfig) (srv : ServerState F) (ev : SlotEvent F) : Option (ServerState F) :=
  if KeepsLora srv ev then slotStep cfg srv ev else none

lemma keepingStep_eq_some {cfg : SlotConfig} {srv srv' : ServerState F} {ev : SlotEvent F}
    (h : keepingStep cfg srv ev = some srv') : slotStep cfg srv ev = some srv' ∧ KeepsLora srv ev := by
  unfold keepingStep at h
  split at h
  · rename_i hkeeps
    exact ⟨h, hkeeps⟩
  · cases h

/-- Whenever a run comes to the start of a prompt, the tokens that the prompt keeps were computed with the adapters that
its slot has. -/
def KeepsSameLora (cfg : SlotConfig) (step : ServerState F → SlotEvent F → ServerState F → Prop) : Prop :=
  ∀ srv, Reach ServerState.Fresh step srv → ∀ (i : Nat) (slot slot' : Slot F) (posMin : Int) (restored : Bool) (r : Resume),
    srv.slots[i]? = some slot → startSlot cfg slot posMin restored = some (slot', r) →
      ∀ c ∈ slot'.prompt.cells, c.lora = slot'.lora

end

/-- A model without partial states and with ordinary adapters. -/
def plainConfig : SlotConfig where
  nInvocationTokens := fun _ => 0
  nCtx := 16
  nUbatch := 8
  partialState := false
  nSwa := 0
  canShift := true
  addBos := false
  nCtxCheckpoints := 0
  checkpointEveryNt := -1

def oneSlot : ServerState Int := ⟨[⟨0, 0⟩], [⟨.idle, none, ⟨[], []⟩, []⟩], []⟩

lemma oneSlot_fresh : oneSlot.Fresh := by
  refine ⟨rfl, ?_⟩
  intro slot hslot
  rw [mem_singleton.1 hslot]
  exact ⟨rfl, rfl, rfl⟩

/-- A completion with its own adapters, or with those of the server. -/
def completion (id : Nat) (tokens : List Int) (lora : List (Nat × Int)) : Task Int :=
  ⟨id, none, tokens, lora, none, false, true, 0, 0, 0⟩

/-- A request with the adapter on is computed and released; one without a list of adapters follows. -/
def withAndWithout : List (SlotEvent Int) :=
  [.launch 0 (completion 0 [1, 2] [(0, 1)]) none true, .start 0 (-1) false, .batch 0 0 2 2 ⟨true, -1, -1⟩, .decoded 0,
    .release 0, .launch 0 (completion 1 [1, 3] []) none true]

/-- The slot of the second request at its start: its adapter is off, the token it keeps was computed with it. -/
def keptSlot : Slot Int :=
  ⟨.processingPrompt, some (completion 1 [1, 3] []), ⟨[⟨1, [⟨0, 1⟩]⟩], []⟩, [⟨0, 0⟩]⟩

def launchedTwice : ServerState Int :=
  ⟨[⟨0, 0⟩], [⟨.started, some (completion 1 [1, 3] []), ⟨[⟨1, [⟨0, 1⟩]⟩, ⟨2, [⟨0, 1⟩]⟩], []⟩, [⟨0, 0⟩]⟩], []⟩

/-- The second request has the adapter on as well. Before it comes, its slot is selected for a task that is deferred. -/
def withAndWith : List (SlotEvent Int) :=
  withAndWithout.take 5 ++ [.select 0 ⟨true, .keep, 0⟩, .launch 0 (completion 1 [1, 3] [(0, 1)]) none true]

end Mallana.Server
