import Mallana.Server.Adapters

/-!
# Context checkpoints

Which tokens the state of a checkpoint belongs to. A checkpoint can be used up to its `front`, the tokens from which a
prompt may be continued behind it. The tokens of a slot and the front of each of its checkpoints agree as far as both go
(`Comparable`), and while a prompt is processed the fronts are beginnings of that prompt.

What breaks this is a step that puts other tokens under a checkpoint (a file that is restored, a context shift, a chunk
that is moved), and the bound that prunes checkpoints: one that ends with the very token at `pos_next` is kept.
-/

namespace Mallana.Server

open Mallana.Lib List Option

variable {F : Type}

def Checkpoint.usable (c : Checkpoint) : Nat := min c.nTokens (max (c.posMin + 1) c.posMax).toNat

def Checkpoint.front (c : Checkpoint) : List Int := c.data.take c.usable

def Comparable (xs ys : List Int) : Prop := xs <+: ys ∨ ys <+: xs

/-- What the memory said when the checkpoint was made: it held the tokens in front of the batch. -/
structure Checkpoint.Whole (c : Checkpoint) : Prop where
  posMax : c.posMax + 1 = c.nTokens
  posMin : c.posMin ≤ c.posMax
  nonneg : 0 ≤ c.posMin
  data : c.data.length = c.nTokens

/-- The tokens of a prompt agree with its checkpoints. -/
structure Prompt.Agrees (p : Prompt F) : Prop where
  whole : ∀ c ∈ p.checkpoints, c.Whole
  front : ∀ c ∈ p.checkpoints, Comparable c.front p.tokens

/-- The checkpoints of a slot begin the prompt that it processes, or what it has behind that prompt. -/
structure Slot.Agrees (s : Slot F) : Prop where
  prompt : s.prompt.Agrees
  processing : s.state = .processingPrompt →
    s.prompt.tokens <+: s.taskTokens ∧ ∀ c ∈ s.prompt.checkpoints, c.front <+: s.taskTokens
  done : s.state = .donePrompt ∨ s.state = .generating → ∀ c ∈ s.prompt.checkpoints, c.front <+: s.prompt.tokens

/-- The slots and the prompt cache. -/
structure ServerState.Agrees (srv : ServerState F) : Prop where
  slots : ∀ s ∈ srv.slots, s.Agrees
  cache : ∀ p ∈ srv.cache, p.Agrees

lemma comparable_nil (xs : List Int) : Comparable xs [] := .inr (List.nil_prefix)

lemma Comparable.of_prefixes {xs ys zs : List Int} (hx : xs <+: zs) (hy : ys <+: zs) : Comparable xs ys :=
  prefix_or_prefix_of_prefix hx hy

variable {n : Nat} {c : Checkpoint} {cells : List (Cell F)} {input : List Int} {cfg : SlotConfig}
  {checkpoints : List Checkpoint} {posMin : Int} {slot : Slot F}

lemma Comparable.take_eq {xs ys : List Int} (h : Comparable xs ys) (hx : n ≤ xs.length) (hy : n ≤ ys.length) :
    xs.take n = ys.take n := by
  rcases h with h | h
  · obtain ⟨rest, rfl⟩ := h
    rw [take_append_of_le_length hx]
  · obtain ⟨rest, rfl⟩ := h
    rw [take_append_of_le_length hy]

lemma front_length (h : c.Whole) : c.front.length = c.usable := by
  rw [Checkpoint.front, length_take, h.data]
  exact min_eq_left (min_le_left _ _)

lemma front_le (h : n ≤ c.usable) : c.data.take n = c.front.take n := by
  rw [Checkpoint.front, take_take, min_eq_left h]

lemma Prompt.Agrees.clear {p : Prompt F} (h : p.Agrees) : Prompt.Agrees ({ p with cells := [] } : Prompt F) :=
  ⟨h.whole, fun c _ => comparable_nil c.front⟩

/-- A slot that has not begun with its prompt. -/
lemma Slot.Agrees.of_prompt {s : Slot F} (h : s.prompt.Agrees)
    (hstate : s.state = .idle ∨ s.state = .waitOther ∨ s.state = .started) : s.Agrees := by
  constructor
  · exact h
  · intro hs
    rw [hs] at hstate
    simp at hstate
  · intro hs
    rcases hs with hs | hs <;>
    · rw [hs] at hstate
      simp at hstate

lemma Slot.Agrees.release {s : Slot F} (h : s.Agrees) : (releaseSlot s).Agrees := by
  unfold releaseSlot
  cases (s.task.map (·.isChild)).getD false with
  | true => exact .of_prompt h.prompt.clear (.inl rfl)
  | false => exact .of_prompt h.prompt (.inl rfl)

lemma getCommonPrefix_spec (xs ys : List Int) :
    getCommonPrefix xs ys ≤ xs.length ∧ getCommonPrefix xs ys ≤ ys.length ∧
      xs.take (getCommonPrefix xs ys) = ys.take (getCommonPrefix xs ys) := by
  induction xs generalizing ys with
  | nil => exact ⟨Nat.zero_le _, Nat.zero_le _, rfl⟩
  | cons x xs ih =>
    cases ys with
    | nil => exact ⟨Nat.zero_le _, Nat.zero_le _, rfl⟩
    | cons y ys =>
      rw [getCommonPrefix]
      split
      · rename_i hxy
        obtain ⟨hx, hy, heq⟩ := ih ys
        refine ⟨Nat.succ_le_succ hx, Nat.succ_le_succ hy, ?_⟩
        rw [take_succ_cons, take_succ_cons, hxy, heq]
      · exact ⟨Nat.zero_le _, Nat.zero_le _, rfl⟩

/-- The first `n` cached tokens are those of the prompt. -/
structure Matches (cells : List (Cell F)) (input : List Int) (n : Nat) : Prop where
  le_cells : n ≤ cells.length
  le_input : n ≤ input.length
  take : (cells.map (·.tok)).take n = input.take n

lemma Matches.mono {m : Nat} (h : Matches cells input n) (hm : m ≤ n) : Matches cells input m := by
  refine ⟨le_trans hm h.le_cells, le_trans hm h.le_input, ?_⟩
  calc (cells.map (·.tok)).take m
      = ((cells.map (·.tok)).take n).take m := by rw [take_take, min_eq_left hm]
    _ = (input.take n).take m := by rw [h.take]
    _ = input.take m := by rw [take_take, min_eq_left hm]

lemma commonCells_matches (cells : List (Cell F)) (task : Task F) : Matches cells task.tokens (commonCells cells task) := by
  obtain ⟨hx, hy, heq⟩ := getCommonPrefix_spec (cells.map (·.tok)) task.tokens
  rw [length_map] at hx
  have hfull : Matches cells task.tokens (getCommonPrefix (cells.map (·.tok)) task.tokens) := ⟨hx, hy, heq⟩
  unfold commonCells
  split
  · rename_i start _
    simp only []
    split
    · exact hfull.mono (min_le_left _ _)
    · exact hfull
  · exact hfull

lemma Matches.moveChunk {headC headP : Nat} (h : Matches cells input headP)
    (hle : headP ≤ headC) (hlt : headC ≤ cells.length) :
    let n := getCommonPrefix ((cells.map (·.tok)).drop headC) (input.drop headP)
    Matches (moveChunk cells headC headP n) input (headP + n) ∧
      (moveChunk cells headC headP n).length = cells.length ∧ headC + n ≤ cells.length := by
  intro n
  obtain ⟨hc, hp, htake⟩ := getCommonPrefix_spec ((cells.map (·.tok)).drop headC) (input.drop headP)
  rw [length_drop, length_map] at hc
  rw [length_drop] at hp
  have hc : n ≤ cells.length - headC := hc
  have hp : n ≤ input.length - headP := hp
  have hin := h.le_input
  have hfront : (cells.take headP).length = headP := by
    rw [length_take]
    omega
  have hchunk : ((cells.drop headC).take n).length = n := by
    rw [length_take, length_drop]
    omega
  have hlen : (Server.moveChunk cells headC headP n).length = cells.length := by
    rw [Server.moveChunk, length_append, length_append, hfront, hchunk, length_drop]
    omega
  refine ⟨⟨by omega, by omega, ?_⟩, hlen, by omega⟩
  have hfronts : (cells.take headP ++ (cells.drop headC).take n).length = headP + n := by
    rw [length_append, hfront, hchunk]
  rw [Server.moveChunk, map_append, take_append_of_le_length (by rw [length_map, hfronts]),
    take_of_length_le (by rw [length_map, hfronts]), map_append, map_take, map_take,
    map_drop, h.take, take_add]
  exact congrArg (input.take headP ++ ·) htake

lemma reuseChunks_matches {nReuse fuel : Nat} {headC headP : Nat}
    (h : Matches cells input headP) (hle : headP ≤ headC) :
    Matches (reuseChunks input nReuse fuel cells headC headP).1 input (reuseChunks input nReuse fuel cells headC headP).2 := by
  induction fuel generalizing cells headC headP with
  | zero => exact h
  | succ fuel ih =>
    simp only [reuseChunks]
    split
    · rename_i hin
      split
      · obtain ⟨hmoved, _, _⟩ := h.moveChunk hle (le_of_lt hin.1)
        exact ih hmoved (by omega)
      · exact ih h (by omega)
    · exact h

lemma reusedCells_matches (cfg : SlotConfig) (cells : List (Cell F)) (task : Task F) :
    Matches (reusedCells cfg cells task).1 task.tokens (reusedCells cfg cells task).2 := by
  unfold reusedCells
  split
  · split
    · exact reuseChunks_matches (commonCells_matches cells task) (le_refl _)
    · exact commonCells_matches cells task
  · exact ⟨Nat.zero_le _, Nat.zero_le _, rfl⟩

/-- The prompt has a chunk of the cached tokens behind their common beginning, which is moved. -/
def MovesChunk (cfg : SlotConfig) (cells : List (Cell F)) (task : Task F) : Prop :=
  task.cachePrompt = true ∧ cfg.canShift = true ∧ 0 < task.nCacheReuse ∧ commonCells cells task < task.tokens.length ∧
    ∃ headC < cells.length, commonCells cells task ≤ headC ∧
      task.nCacheReuse ≤ getCommonPrefix ((cells.map (·.tok)).drop headC) (task.tokens.drop (commonCells cells task))

instance (cfg : SlotConfig) (cells : List (Cell F)) (task : Task F) : Decidable (MovesChunk cfg cells task) :=
  inferInstanceAs (Decidable (_ ∧ _ ∧ _ ∧ _ ∧ ∃ headC < cells.length, _))

lemma reuseChunks_le (input : List Int) (nReuse fuel : Nat) (cells : List (Cell F)) (headC headP : Nat) :
    headP ≤ (reuseChunks input nReuse fuel cells headC headP).2 := by
  induction fuel generalizing cells headC headP with
  | zero => exact le_refl _
  | succ fuel ih =>
    simp only [reuseChunks]
    split
    · split
      · exact le_trans (Nat.le_add_right _ _) (ih _ _ _)
      · exact ih _ _ _
    · exact le_refl _

/-- Without a chunk that is long enough nothing is moved. -/
lemma reuseChunks_eq {nReuse fuel headC headP : Nat} (h : headP < input.length → ∀ i < cells.length, headC ≤ i →
    getCommonPrefix ((cells.map (·.tok)).drop i) (input.drop headP) < nReuse) :
    reuseChunks input nReuse fuel cells headC headP = (cells, headP) := by
  induction fuel generalizing headC with
  | zero => rfl
  | succ fuel ih =>
    simp only [reuseChunks]
    split
    · rename_i hin
      rw [if_neg (Nat.not_le_of_lt (h hin.2 headC hin.1 (Nat.le_refl _)))]
      exact ih fun hlt i hi hle => h hlt i hi (Nat.le_of_succ_le hle)
    · rfl

/-- The cached tokens of which the prompt has none behind their common beginning stay as they are, and this beginning stays
in any case. -/
lemma reusedCells_cases (cfg : SlotConfig) (cells : List (Cell F)) (task : Task F) :
    (reusedCells cfg cells task).1 = cells ∧ (reusedCells cfg cells task).2 ≤ commonCells cells task ∨
      MovesChunk cfg cells task ∧ commonCells cells task ≤ (reusedCells cfg cells task).2 := by
  unfold reusedCells
  split
  · rename_i hcache
    split
    · rename_i hshift
      rw [Bool.and_eq_true, decide_eq_true_eq] at hshift
      by_cases hmoves : MovesChunk cfg cells task
      · exact .inr ⟨hmoves, reuseChunks_le _ _ _ _ _ _⟩
      · have hno : commonCells cells task < task.tokens.length → ∀ i < cells.length, commonCells cells task ≤ i →
            getCommonPrefix ((cells.map (·.tok)).drop i) (task.tokens.drop (commonCells cells task)) < task.nCacheReuse := by
          intro hlt i hi hle
          by_contra hmatch
          exact hmoves ⟨hcache, hshift.1, hshift.2, hlt, i, hi, hle, Nat.le_of_not_lt hmatch⟩
        rw [reuseChunks_eq hno]
        exact .inl ⟨rfl, le_refl _⟩
    · exact .inl ⟨rfl, le_refl _⟩
  · exact .inl ⟨rfl, Nat.zero_le _⟩

/-- Where a prompt is continued: not behind what is kept, and not behind what the restored checkpoint stands for. -/
structure Resume.Spec (checkpoints : List Checkpoint) (nPast : Nat) (r : Resume) : Prop where
  le : r.nPast ≤ nPast
  next : r.posNext ≤ nPast
  restored : ∀ c, r.restored = some c → c ∈ checkpoints ∧ r.nPast ≤ c.usable

lemma resumePrompt_spec {size nPast : Nat} {ok : Bool}
    {r : Resume} (h : resumePrompt cfg checkpoints size nPast posMin ok = some r) : r.Spec checkpoints nPast := by
  have hkeep : Resume.Spec checkpoints nPast ⟨nPast, nPast, none⟩ := ⟨le_refl _, Int.le_refl _, nofun⟩
  have hreset : Resume.Spec checkpoints nPast ⟨0, 0, none⟩ := ⟨Nat.zero_le _, Int.natCast_nonneg _, nofun⟩
  unfold resumePrompt at h
  simp only [] at h
  split at h
  · split at h
    · cases h
    split at h
    · split at h
      · rename_i c hc
        split at h
        · cases h
          refine ⟨?_, ?_, ?_⟩
          · simp only [restoreCheckpoint]
            omega
          · exact Int.min_le_left _ _
          · intro c' hc'
            cases hc'
            refine ⟨mem_reverse.1 (mem_of_find?_eq_some hc), ?_⟩
            simp only [restoreCheckpoint, Checkpoint.usable]
            omega
        · cases h
          exact hreset
      · cases h
        exact hreset
    · cases h
      exact hkeep
  · cases h
    exact hkeep

/-- Tokens that are put under the checkpoints of a slot agree with them. -/
def Undisturbed (checkpoints : List Checkpoint) (tokens : List Int) : Prop :=
  ∀ c ∈ checkpoints, Comparable c.front tokens

/-- What a new prompt needs: where a chunk is moved, no checkpoint goes beyond the common beginning of the cached tokens and
the prompt; and a checkpoint of the one position behind this beginning is one of the prompt. -/
structure StartOk (cfg : SlotConfig) (slot : Slot F) (task : Task F) : Prop where
  moved : MovesChunk cfg slot.prompt.cells task → ∀ c ∈ slot.prompt.checkpoints, c.usable ≤ commonCells slot.prompt.cells task
  last : ∀ c ∈ slot.prompt.checkpoints, c.posMin = c.posMax → c.posMax = commonCells slot.prompt.cells task →
    c.front <+: task.tokens

/-- The tokens behind the reuse of chunks agree with the checkpoints as the ones before it do. -/
lemma StartOk.undisturbed {task : Task F} (h : StartOk cfg slot task) (hslot : slot.prompt.Agrees) :
    Undisturbed slot.prompt.checkpoints ((reusedCells cfg slot.prompt.cells task).1.map (·.tok)) := by
  intro c hc
  rcases reusedCells_cases cfg slot.prompt.cells task with ⟨heq, _⟩ | ⟨hmoves, hle⟩
  · rw [heq]
    exact hslot.front c hc
  · have husable := h.moved hmoves c hc
    have hold := (commonCells_matches slot.prompt.cells task).mono husable
    have hnew := (reusedCells_matches cfg slot.prompt.cells task).mono (le_trans husable hle)
    have hlen := front_length (hslot.whole c hc)
    have htake := (hslot.front c hc).take_eq (n := c.usable) (le_of_eq hlen.symm) (by
      rw [Prompt.tokens, length_map]
      exact hold.le_cells)
    rw [take_of_length_le (le_of_eq hlen), Prompt.tokens, hold.take, ← hnew.take] at htake
    rw [htake]
    exact .inl (List.take_prefix _ _)

lemma keepCount_le (nPast nTask : Nat) : keepCount nPast nTask ≤ nPast := by
  unfold keepCount
  split
  · exact Nat.sub_le _ _
  · exact le_refl _

section
variable {cfg : SlotConfig} {slot : Slot F} {task : Task F} {r : Resume} {posMin : Int} {ok : Bool}
  (hslot : slot.prompt.Agrees) (hstart : StartOk cfg slot task)
  (hr : resumePrompt cfg slot.prompt.checkpoints (reusedCells cfg slot.prompt.cells task).1.length
    (reusedCells cfg slot.prompt.cells task).2 posMin ok = some r)
include hslot hstart hr

lemma restored_take_eq {c : Checkpoint} (hc : r.restored = some c) :
    c.data.take r.nPast = task.tokens.take r.nPast := by
  have hspec := resumePrompt_spec hr
  obtain ⟨hmem, hle⟩ := hspec.restored c hc
  have hmatch := (reusedCells_matches cfg slot.prompt.cells task).mono hspec.le
  rw [front_le hle, ← hmatch.take]
  apply (hstart.undisturbed hslot c hmem).take_eq
  · rw [front_length (hslot.whole c hmem)]
    exact hle
  · rw [length_map]
    exact hmatch.le_cells

/-- A checkpoint that is kept begins the prompt. -/
lemma kept_front_prefix {c : Checkpoint} (hmem : c ∈ slot.prompt.checkpoints) (hle : c.posMax ≤ r.posNext) :
    c.front <+: task.tokens := by
  have hwhole := hslot.whole c hmem
  have hnext := (resumePrompt_spec hr).next
  by_cases hlast : c.posMin = c.posMax ∧ c.posMax = commonCells slot.prompt.cells task
  · exact hstart.last c hmem hlast.1 hlast.2
  · have husable : c.usable ≤ commonCells slot.prompt.cells task := by
      rcases reusedCells_cases cfg slot.prompt.cells task with ⟨_, hpast⟩ | ⟨hmoves, _⟩
      · have hmax := hwhole.posMax
        have hmin := hwhole.posMin
        have hpos := hwhole.nonneg
        rw [Checkpoint.usable]
        omega
      · exact hstart.moved hmoves c hmem
    have hmatch := (commonCells_matches slot.prompt.cells task).mono husable
    have hlen := front_length hwhole
    have heq := (hslot.front c hmem).take_eq (n := c.usable) (le_of_eq hlen.symm) (by
      rw [Prompt.tokens, length_map]
      exact hmatch.le_cells)
    rw [take_of_length_le (le_of_eq hlen), Prompt.tokens, hmatch.take] at heq
    rw [heq]
    exact take_prefix _ _

lemma admitPrompt_agrees (htask : slot.task = some task) :
    (admitPrompt slot task (reusedCells cfg slot.prompt.cells task).1 r).Agrees := by
  have hkeep := (reusedCells_matches cfg slot.prompt.cells task).mono
    (le_trans (keepCount_le r.nPast task.tokens.length) (resumePrompt_spec hr).le)
  have htokens : (admitPrompt slot task (reusedCells cfg slot.prompt.cells task).1 r).prompt.tokens <+: task.tokens := by
    simp only [admitPrompt, Prompt.tokens, map_take, hkeep.take]
    exact take_prefix _ _
  have hfront : ∀ c ∈ slot.prompt.checkpoints.filter fun c => c.posMax ≤ r.posNext, c.front <+: task.tokens := by
    intro c hc
    obtain ⟨hmem, hle⟩ := mem_filter.1 hc
    exact kept_front_prefix hslot hstart hr hmem (of_decide_eq_true hle)
  have htaskTokens : (admitPrompt slot task (reusedCells cfg slot.prompt.cells task).1 r).taskTokens = task.tokens := by
    simp only [admitPrompt, Slot.taskTokens, htask, map_some, getD_some]
  refine ⟨⟨?_, ?_⟩, ?_, ?_⟩
  · intro c hc
    exact hslot.whole c (mem_filter.1 hc).1
  · intro c hc
    exact .of_prefixes (hfront c hc) htokens
  · intro _
    rw [htaskTokens]
    exact ⟨htokens, hfront⟩
  · rintro (hs | hs) <;> cases hs

end

/-- What the memory answers when a batch is filled: it holds the tokens in front of the batch. -/
def MemoryView.Holds (m : MemoryView) (slot : Slot F) : Prop :=
  let before := if m.truncated then slot.prompt.cells else []
  0 ≤ m.posMin → m.posMin ≤ m.posMax ∧ m.posMax + 1 = before.length

instance (m : MemoryView) (slot : Slot F) : Decidable (m.Holds slot) :=
  inferInstanceAs (Decidable (0 ≤ m.posMin → m.posMin ≤ m.posMax ∧
    m.posMax + 1 = (if m.truncated then slot.prompt.cells else []).length))

def memoryHolds (srv : ServerState F) : SlotEvent F → Bool
  | .batch i _ _ _ m => (srv.slots[i]?.map fun slot => decide (m.Holds slot)).getD true
  | _ => true

lemma mem_pushCheckpoint {d : Checkpoint}
    (h : d ∈ pushCheckpoint cfg checkpoints c) : d ∈ checkpoints ∨ d = c := by
  rcases mem_append.1 h with h | h
  · exact .inl (mem_of_mem_drop h)
  · exact .inr (mem_singleton.1 h)

lemma nonneg_of_wantsCheckpoint {nTask nTokens nCur nAll : Nat} (h : wantsCheckpoint cfg checkpoints nTask nTokens nCur nAll posMin = true) : 0 ≤ posMin := by
  simp only [wantsCheckpoint, Bool.and_eq_true, decide_eq_true_eq] at h
  exact h.1.1.2

lemma promptState_cases (n nTask : Nat) :
    (promptState n nTask = .donePrompt ∧ n = nTask) ∨ promptState n nTask = .processingPrompt := by
  unfold promptState
  split
  · rename_i h
    exact .inl ⟨rfl, h⟩
  · exact .inr rfl

/-- A batch of the prompt keeps the agreement. -/
lemma addPromptTokens_agrees {task : Task F} {lora : List (LoraInfo F)} {nAll : Nat}
    {m : MemoryView} (hslot : slot.Agrees) (hstate : slot.state = .processingPrompt) (htask : slot.task = some task)
    (hm : m.Holds slot) : (addPromptTokens cfg slot task lora n nAll m).Agrees := by
  have htaskTokens : slot.taskTokens = task.tokens := by rw [Slot.taskTokens, htask]; rfl
  obtain ⟨hkeeps, hfronts⟩ := hslot.processing hstate
  rw [htaskTokens] at hkeeps hfronts
  have hbefore : ((if m.truncated then slot.prompt.cells else []).map (·.tok)) <+: task.tokens := by
    split
    · exact hkeeps
    · exact nil_prefix
  generalize hb : (if m.truncated then slot.prompt.cells else []) = before at hbefore
  have htokens : (addPromptTokens cfg slot task lora n nAll m).prompt.tokens = task.tokens.take (before.length + n) := by
    have heq : task.tokens.take before.length = before.map (·.tok) := by
      have := prefix_iff_eq_take.1 hbefore
      rw [length_map] at this
      exact this.symm
    simp only [addPromptTokens, Prompt.tokens, hb, map_append, List.map_map, take_add, heq]
    congr 1
    exact List.map_id' _
  have hnew : (addPromptTokens cfg slot task lora n nAll m).prompt.tokens <+: task.tokens := by
    rw [htokens]
    exact take_prefix _ _
  have hcheckpoint : ∀ c ∈ (addPromptTokens cfg slot task lora n nAll m).prompt.checkpoints,
      c.Whole ∧ c.front <+: task.tokens := by
    intro c hc
    simp only [addPromptTokens, hb] at hc
    split at hc
    · rename_i hwants
      rcases mem_pushCheckpoint hc with hc | rfl
      · exact ⟨hslot.prompt.whole c hc, hfronts c hc⟩
      · have hpos := nonneg_of_wantsCheckpoint hwants
        obtain ⟨hle, hmax⟩ := hm hpos
        rw [hb] at hmax
        exact ⟨⟨hmax, hle, hpos, length_map _⟩, (List.take_prefix _ _).trans hbefore⟩
    · exact ⟨hslot.prompt.whole c hc, hfronts c hc⟩
  have htaskTokens' : (addPromptTokens cfg slot task lora n nAll m).taskTokens = task.tokens := htaskTokens
  refine ⟨⟨fun c hc => (hcheckpoint c hc).1, fun c hc => .of_prefixes (hcheckpoint c hc).2 hnew⟩, ?_, ?_⟩
  · intro _
    rw [htaskTokens']
    exact ⟨hnew, fun c hc => (hcheckpoint c hc).2⟩
  · intro hdone c hc
    have hstate' : (addPromptTokens cfg slot task lora n nAll m).state =
        promptState (addPromptTokens cfg slot task lora n nAll m).prompt.cells.length task.tokens.length := rfl
    rcases promptState_cases (addPromptTokens cfg slot task lora n nAll m).prompt.cells.length task.tokens.length with
      ⟨_, hall⟩ | hproc
    · have hfull : (addPromptTokens cfg slot task lora n nAll m).prompt.tokens = task.tokens := by
        apply hnew.eq_of_length
        rw [Prompt.tokens, length_map]
        exact hall
      rw [hfull]
      exact (hcheckpoint c hc).2
    · rw [hstate', hproc] at hdone
      rcases hdone with hs | hs <;> cases hs

lemma addTokens_agrees {toks : List Int} {lora : List (LoraInfo F)} (h : slot.Agrees)
    (hstate : slot.state = .generating) : (addTokens slot toks lora).Agrees := by
  have hmore : slot.prompt.tokens <+: (addTokens slot toks lora).prompt.tokens := by
    simp only [addTokens, Prompt.tokens, map_append]
    exact prefix_append _ _
  have hfront : ∀ c ∈ slot.prompt.checkpoints, c.front <+: (addTokens slot toks lora).prompt.tokens := by
    intro c hc
    exact (h.done (.inr hstate) c hc).trans hmore
  refine ⟨⟨h.prompt.whole, fun c hc => .inl (hfront c hc)⟩, ?_, fun _ => hfront⟩
  intro hs
  have hs : slot.state = .processingPrompt := hs
  rw [hstate] at hs
  cases hs

lemma cacheAlloc_agrees {cache : List (Prompt F)} {prompt : Prompt F} (h : ∀ p ∈ cache, p.Agrees) (hp : prompt.Agrees) :
    ∀ p ∈ cacheAlloc cache prompt, p.Agrees := by
  intro p hmem
  unfold cacheAlloc at hmem
  split at hmem
  · exact h p hmem
  · rcases mem_append.1 hmem with hmem | hmem
    · exact h p (mem_filter.1 hmem).1
    · rw [mem_singleton.1 hmem]
      exact hp

lemma cachedSlot_agrees {srv : ServerState F} {update : Option CacheUpdate}
    (hcache : ∀ p ∈ srv.cache, p.Agrees) (hslot : slot.prompt.Agrees) :
    (cachedSlot srv slot update).1.prompt.Agrees ∧ ∀ p ∈ (cachedSlot srv slot update).2, p.Agrees := by
  cases update with
  | none => exact ⟨hslot, hcache⟩
  | some u =>
    rw [cachedSlot]
    split
    · exact ⟨hslot, hcache⟩
    have halloc : ∀ p ∈ (if u.saved then cacheAlloc srv.cache slot.prompt else srv.cache), p.Agrees := by
      split
      · exact cacheAlloc_agrees hcache hslot
      · exact hcache
    unfold updateCache
    generalize (if u.saved then cacheAlloc srv.cache slot.prompt else srv.cache) = cache at halloc
    simp only []
    split
    · exact ⟨hslot, fun p hp => halloc p (mem_of_mem_drop hp)⟩
    · exact ⟨hslot.clear, fun p hp => halloc p (mem_of_mem_drop hp)⟩
    · split
      · rename_i prompt hprompt
        exact ⟨halloc prompt (mem_of_getElem? hprompt),
          fun p hp => halloc p (mem_of_mem_eraseIdx (mem_of_mem_drop hp))⟩
      · exact ⟨hslot, fun p hp => halloc p (mem_of_mem_drop hp)⟩

section
variable [LinearOrder F] [Zero F]

lemma launchSlotWithTask_prompt (inv : Nat → Nat) (adapters : List (LoraInfo F)) (slot : Slot F) (task : Task F)
    (valid : Bool) : ((launchSlotWithTask inv adapters slot task valid).prompt = slot.prompt ∨
      (launchSlotWithTask inv adapters slot task valid).prompt = { slot.prompt with cells := [] }) ∧
    ((launchSlotWithTask inv adapters slot task valid).state = slot.state ∨
      (launchSlotWithTask inv adapters slot task valid).state = .waitOther ∨
      (launchSlotWithTask inv adapters slot task valid).state = .started) := by
  have hlora : (launchLora inv adapters slot task).prompt = slot.prompt ∨
      (launchLora inv adapters slot task).prompt = { slot.prompt with cells := [] } := by
    unfold launchLora
    split
    · exact .inl rfl
    split
    · exact .inl rfl
    · simp only []
      split
      · exact .inr rfl
      · exact .inl rfl
  have hstate := (launchLora_task inv adapters slot task).2
  have hdisable : (disableAlora inv task (launchLora inv adapters slot task)).prompt =
      (launchLora inv adapters slot task).prompt ∧
      (disableAlora inv task (launchLora inv adapters slot task)).state = (launchLora inv adapters slot task).state := by
    unfold disableAlora
    split <;> exact ⟨rfl, rfl⟩
  simp only [launchSlotWithTask]
  split
  · exact ⟨hlora, .inl hstate⟩
  split
  · refine ⟨?_, ?_⟩
    · rw [hdisable.1]
      exact hlora
    · simp only []
      split
      · exact .inr (.inl rfl)
      · exact .inr (.inr rfl)
  · rw [hdisable.1, hdisable.2]
    exact ⟨hlora, .inl hstate⟩

lemma launch_agrees {inv : Nat → Nat} {adapters : List (LoraInfo F)} {slot : Slot F} {task : Task F} (valid : Bool)
    (h : slot.prompt.Agrees) (hidle : slot.isProcessing = false) :
    (launchSlotWithTask inv adapters slot task valid).Agrees := by
  obtain ⟨hprompt, hstate⟩ := launchSlotWithTask_prompt inv adapters slot task valid
  have hagrees : (launchSlotWithTask inv adapters slot task valid).prompt.Agrees := by
    rcases hprompt with heq | heq
    · rw [heq]
      exact h
    · rw [heq]
      exact h.clear
  have hslot : slot.state = .idle := by
    rw [Slot.isProcessing, bne_eq_false_iff_eq] at hidle
    exact hidle
  rw [hslot] at hstate
  exact .of_prompt hagrees hstate

def memoryStep (cfg : SlotConfig) (srv : ServerState F) (ev : SlotEvent F) : Option (ServerState F) :=
  if memoryHolds srv ev then slotStep cfg srv ev else none

/-- What a step needs: no token under a checkpoint is replaced by another one, and no checkpoint that ends exactly where a
prompt is continued stands for one token more. -/
def KeepsCheckpoints (cfg : SlotConfig) (srv : ServerState F) : SlotEvent F → Prop
  | .start i _ _ => ∀ slot, srv.slots[i]? = some slot → ∀ task, slot.task = some task → StartOk cfg slot task
  | .shift i => ∀ slot, srv.slots[i]? = some slot → ∀ task, slot.task = some task →
    ∀ c ∈ slot.prompt.checkpoints, c.front <+: (shiftContext cfg slot task).prompt.tokens
  | .restore i file => ∀ slot, srv.slots[i]? = some slot →
    Undisturbed slot.prompt.checkpoints ((file.getD []).map (·.tok))
  | _ => True

lemma memoryStep_eq_some {cfg : SlotConfig} {srv srv' : ServerState F} {ev : SlotEvent F}
    (h : memoryStep cfg srv ev = some srv') : memoryHolds srv ev = true ∧ slotStep cfg srv ev = some srv' := by
  unfold memoryStep at h
  split at h
  · rename_i hholds
    exact ⟨hholds, h⟩
  · cases h

section Cases
variable {s s' other : Slot F} {m : MemoryView} {n nAll : Nat}

lemma batchSlot_agrees {cfg : SlotConfig} (h : s.Agrees) (hholds : m.Holds s)
    (hb : batchSlot cfg s other n nAll m = some s') : s'.Agrees := by
  unfold batchSlot at hb
  split at hb
  · rename_i task hstate htask
    split at hb
    · cases hb
      exact addPromptTokens_agrees h hstate htask hholds
    · cases hb
  · cases hb

/-- A child gets the prompt of its parent with the checkpoints. -/
lemma copySlot_agrees (h : other.Agrees) (hc : copySlot other s = some s') : s'.Agrees := by
  unfold copySlot at hc
  split at hc
  · split at hc
    · rename_i hcopy
      cases hc
      exact ⟨h.prompt, (by rintro ⟨⟩), fun _ => h.done (.inl hcopy.1)⟩
    · cases hc
  · cases hc

lemma shiftSlot_agrees {cfg : SlotConfig} (h : s.Agrees) (hkeeps : ∀ task, s.task = some task →
    ∀ c ∈ s.prompt.checkpoints, c.front <+: (shiftContext cfg s task).prompt.tokens)
    (hs : shiftSlot cfg s = some s') : s'.Agrees := by
  unfold shiftSlot at hs
  split at hs
  · rename_i task hstate htask
    split at hs
    · cases hs
      have hfront := hkeeps task htask
      refine ⟨⟨h.prompt.whole, fun c hc => .inl (hfront c hc)⟩, ?_, fun _ => hfront⟩
      intro hs
      have hs : s.state = .processingPrompt := hs
      rw [hstate] at hs
      cases hs
    · cases hs
  · cases hs

end Cases

/-- A step that keeps the checkpoints keeps them in agreement with the prompts. -/
lemma agrees_step {cfg : SlotConfig} {srv srv' : ServerState F} {ev : SlotEvent F} (hall : srv.Agrees)
    (hkeeps : KeepsCheckpoints cfg srv ev) (hstep : memoryStep cfg srv ev = some srv') : srv'.Agrees := by
  obtain ⟨hmemory, h⟩ := memoryStep_eq_some hstep
  have hone : ∀ {i : Nat} {f : Slot F → Option (Slot F)}, srv.onSlot i f = some srv' →
      (∀ slot slot', srv.slots[i]? = some slot → f slot = some slot' → slot.Agrees → slot'.Agrees) → srv'.Agrees := by
    intro i f hs hf
    obtain ⟨slot, slot', hslot, hfs, rfl⟩ := onSlot_eq_some hs
    exact ⟨forall_mem_set hall.slots (hf slot slot' hslot hfs (hall.slots slot (mem_of_getElem? hslot))), hall.cache⟩
  cases ev with
  | setLora config =>
    cases h
    exact ⟨hall.slots, hall.cache⟩
  | select i update =>
    obtain ⟨slot, hslot, hidle, rfl⟩ := cachedStep_eq_some h
    obtain ⟨hprompt, hcache⟩ := @cachedSlot_agrees F slot srv (some update) hall.cache
      (hall.slots slot (mem_of_getElem? hslot)).prompt
    have hstate : (cachedSlot srv slot (some update)).1.state = .idle := by
      rw [(cachedSlot_same srv slot (some update)).2.2]
      rwa [Slot.isProcessing, bne_eq_false_iff_eq] at hidle
    exact ⟨forall_mem_set hall.slots (.of_prompt hprompt (.inl hstate)), hcache⟩
  | launch i task update valid =>
    unfold slotStep at h
    obtain ⟨slot, hslot, hidle, rfl⟩ := cachedStep_eq_some h
    obtain ⟨hprompt, hcache⟩ := @cachedSlot_agrees F slot srv update hall.cache
      (hall.slots slot (mem_of_getElem? hslot)).prompt
    have hidle' : (cachedSlot srv slot update).1.isProcessing = false := by
      rw [Slot.isProcessing, (cachedSlot_same srv slot update).2.2]
      exact hidle
    exact ⟨forall_mem_set hall.slots (launch_agrees valid hprompt hidle'), hcache⟩
  | start i posMin restored =>
    refine hone h ?_
    intro slot slot' hslot hf hagrees
    obtain ⟨r, hr, rfl⟩ := map_eq_some_iff.1 hf
    obtain ⟨task, _, htask, hresume, heq⟩ := startSlot_eq_some hr
    rw [heq]
    exact admitPrompt_agrees hagrees.prompt (hkeeps slot hslot task htask) hresume htask
  | batch i batched n nAll m =>
    refine hone h ?_
    intro slot slot' hslot hf hagrees
    obtain ⟨first, _, hb⟩ := bind_eq_some_iff.1 hf
    rw [memoryHolds, hslot] at hmemory
    exact batchSlot_agrees hagrees (of_decide_eq_true hmemory) hb
  | copy parent child =>
    refine hone h ?_
    intro slot slot' _ hf _
    obtain ⟨p, hp, hc⟩ := bind_eq_some_iff.1 hf
    exact copySlot_agrees (hall.slots p (mem_of_getElem? hp)) hc
  | decoded i =>
    refine hone h ?_
    intro slot slot' _ hf hagrees
    split at hf
    · rename_i hdone
      cases hf
      exact ⟨hagrees.prompt, (by rintro ⟨⟩), fun _ => hagrees.done (.inl hdone)⟩
    · cases hf
  | sample i batched toks =>
    refine hone h ?_
    intro slot slot' _ hf hagrees
    obtain ⟨first, _, hb⟩ := bind_eq_some_iff.1 hf
    unfold sampleSlot at hb
    split at hb
    · rename_i hgen
      cases hb
      exact addTokens_agrees hagrees hgen.1
    · cases hb
  | shift i =>
    refine hone h ?_
    intro slot slot' hslot hf hagrees
    exact shiftSlot_agrees hagrees (hkeeps slot hslot) hf
  | release i =>
    refine hone h ?_
    intro slot slot' _ hf hagrees
    split at hf
    · cases hf
      exact hagrees.release
    · cases hf
  | decodeFailed =>
    cases h
    refine ⟨?_, hall.cache⟩
    intro slot hslot
    obtain ⟨slot, hmem, rfl⟩ := List.mem_map.1 hslot
    split
    · exact .of_prompt (hall.slots slot hmem).release.prompt.clear (.inl rfl)
    · exact hall.slots slot hmem
  | erase i =>
    refine hone h ?_
    intro slot slot' _ hf hagrees
    split at hf
    · cases hf
    · rename_i hidle
      cases hf
      have hidle := Bool.eq_false_iff.2 hidle
      rw [Slot.isProcessing, bne_eq_false_iff_eq] at hidle
      exact .of_prompt hagrees.prompt.clear (.inl hidle)
  | restore i file =>
    refine hone h ?_
    intro slot slot' hslot hf hagrees
    split at hf
    · cases hf
    · rename_i hidle
      cases hf
      have hidle := Bool.eq_false_iff.2 hidle
      rw [Slot.isProcessing, bne_eq_false_iff_eq] at hidle
      exact .of_prompt ⟨hagrees.prompt.whole, hkeeps slot hslot⟩ (.inl hidle)

/-- Whenever a checkpoint is restored and a prompt continued behind `nPast` tokens, the checkpoint was made of a prompt
that begins with the same `nPast` tokens. -/
def CheckpointsFresh (cfg : SlotConfig) (step : ServerState F → SlotEvent F → ServerState F → Prop) : Prop :=
  ∀ srv srv', Reach ServerState.Fresh step srv → ∀ (i : Nat) (posMin : Int) (restored : Bool),
    step srv (.start i posMin restored) srv' → ∀ (slot slot' : Slot F) (r : Resume) (c : Checkpoint),
      srv.slots[i]? = some slot → startSlot cfg slot posMin restored = some (slot', r) → r.restored = some c →
        c.data.take r.nPast = slot.taskTokens.take r.nPast

/-- The property holds in the runs whose steps keep the checkpoints. -/
theorem checkpointsFresh_of_keepsCheckpoints (cfg : SlotConfig) :
    CheckpointsFresh cfg fun (s : ServerState F) ev s' => memoryStep cfg s ev = some s' ∧ KeepsCheckpoints cfg s ev := by
  intro srv srv' hrun i posMin restored hstep slot slot' r c hslot hstart hc
  have hall : srv.Agrees := by
    refine hrun.invariant ?_ ?_
    · intro s hfresh
      refine ⟨?_, ?_⟩
      · intro slot hslot
        obtain ⟨hstate, _, hprompt⟩ := hfresh.2 slot hslot
        refine .of_prompt ⟨?_, ?_⟩ (.inl hstate)
        · rw [hprompt]
          exact nofun
        · rw [hprompt]
          exact nofun
      · rw [hfresh.1]
        exact nofun
    · rintro s ev s' hs ⟨hstep, hkeeps⟩
      exact agrees_step hs hkeeps hstep
  obtain ⟨task, _, htask, hresume, _⟩ := startSlot_eq_some hstart
  have htokens : slot.taskTokens = task.tokens := by
    rw [Slot.taskTokens, htask]
    rfl
  rw [htokens]
  exact restored_take_eq (hall.slots slot (mem_of_getElem? hslot)).prompt (hstep.2 slot hslot task htask) hresume hc

end

instance (cfg : SlotConfig) (slot : Slot F) (task : Task F) : Decidable (StartOk cfg slot task) :=
  decidable_of_iff ((MovesChunk cfg slot.prompt.cells task →
      ∀ c ∈ slot.prompt.checkpoints, c.usable ≤ commonCells slot.prompt.cells task) ∧
    ∀ c ∈ slot.prompt.checkpoints, c.posMin = c.posMax → c.posMax = commonCells slot.prompt.cells task →
      c.front <+: task.tokens) ⟨fun h => ⟨h.1, h.2⟩, fun h => ⟨h.moved, h.last⟩⟩

/-- The steps of a run without shifts and files that keep the checkpoints. -/
def keepingMemoryStep (cfg : SlotConfig) (srv : ServerState Int) (ev : SlotEvent Int) : Option (ServerState Int) :=
  match ev with
  | .start i _ _ =>
    if ∀ slot ∈ srv.slots[i]?, ∀ task ∈ slot.task, StartOk cfg slot task then memoryStep cfg srv ev else none
  | .shift _ | .restore _ _ => none
  | _ => memoryStep cfg srv ev

lemma keepingMemoryStep_eq_some {srv srv' : ServerState Int} {ev : SlotEvent Int}
    (h : keepingMemoryStep cfg srv ev = some srv') : memoryStep cfg srv ev = some srv' ∧ KeepsCheckpoints cfg srv ev := by
  unfold keepingMemoryStep at h
  split at h
  · split at h
    · rename_i hkeeps
      exact ⟨h, hkeeps⟩
    · cases h
  · cases h
  · cases h
  · rename_i hstart hshift hrestore
    refine ⟨h, ?_⟩
    cases ev with
    | start i posMin restored => exact absurd rfl (hstart i posMin restored)
    | shift i => exact absurd rfl (hshift i)
    | restore i file => exact absurd rfl (hrestore i file)
    | _ => trivial

def recurrentConfig : SlotConfig where
  nInvocationTokens := fun _ => 0
  nCtx := 256
  nUbatch := 26
  partialState := true
  nSwa := 0
  canShift := false
  addBos := false
  nCtxCheckpoints := 8
  checkpointEveryNt := -1

/-- A prompt of `n` tokens. -/
def tokensFrom (first : Int) (n : Nat) : List Int := (List.range n).map fun i => first + i

/-- A prompt is computed, with a checkpoint behind its first 70 tokens. -/
def computedPrompt : List (SlotEvent Int) :=
  [.launch 0 (completion 0 (tokensFrom 0 100) []) none true, .start 0 (-1) false, .batch 0 0 70 70 ⟨true, -1, -1⟩,
    .batch 0 0 26 26 ⟨true, 69, 69⟩, .batch 0 0 4 4 ⟨true, 95, 95⟩, .decoded 0, .release 0]

/-- A file with another prompt is restored into the slot, and a request comes that begins with 75 tokens of that prompt. -/
def restoredSlot : List (SlotEvent Int) :=
  computedPrompt ++ [.restore 0 (some ((tokensFrom 500 80).map fun t => ⟨t, [⟨0, 0⟩]⟩)),
    .launch 0 (completion 1 (tokensFrom 500 75 ++ tokensFrom 900 5) []) none true]

/-- A request comes that begins with 75 tokens of the prompt. -/
def continuedSlot : List (SlotEvent Int) :=
  computedPrompt ++ [.launch 0 (completion 1 (tokensFrom 0 75 ++ tokensFrom 900 5) []) none true]

def serverBehind (step : ServerState Int → SlotEvent Int → Option (ServerState Int)) (evs : List (SlotEvent Int)) :
    ServerState Int := (evs.foldlM step oneSlot).getD oneSlot

lemma eq_some_getD {α : Type} {x : Option α} (h : x.isSome = true) (d : α) : x = some (x.getD d) := by
  cases x with
  | none => cases h
  | some a => rfl

lemma memoryStep_start {srv : ServerState Int} {i : Nat} {restored : Bool}
    {slot slot' : Slot Int} {r : Resume} (hslot : srv.slots[i]? = some slot)
    (h : startSlot cfg slot posMin restored = some (slot', r)) :
    memoryStep cfg srv (.start i posMin restored) = some { srv with slots := srv.slots.set i slot' } := by
  simp only [memoryStep, memoryHolds, slotStep, ServerState.onSlot, hslot, h, bind_some, map_some, if_true]

/-- The request is continued behind the state of the first 70 tokens, which are its own. -/
theorem checkpointsFresh_of_keepsCheckpoints_continued : ∃ (slot : Slot Int) (r : Resume) (c : Checkpoint),
    r.nPast = 70 ∧ r.restored = some c ∧ c.data.take 70 = slot.taskTokens.take 70 := by
  have hsome : (continuedSlot.foldlM (keepingMemoryStep recurrentConfig) oneSlot).isSome = true := by decide +kernel
  have hreach := Reach.of_foldlM (Reach.init oneSlot_fresh) (fun _ _ _ _ => keepingMemoryStep_eq_some)
    (eq_some_getD hsome oneSlot)
  have hrestored : ((serverBehind (keepingMemoryStep recurrentConfig) continuedSlot).slots[0]?.bind fun slot =>
      (startSlot recurrentConfig slot 99 true).bind fun p => p.2.restored.map fun _ =>
        decide (p.2.nPast = 70 ∧ ∀ task ∈ slot.task, StartOk recurrentConfig slot task)) = some true := by
    decide +kernel
  obtain ⟨slot, hslot, hrestored⟩ := bind_eq_some_iff.1 hrestored
  obtain ⟨⟨slot', r⟩, hstart, hrestored⟩ := bind_eq_some_iff.1 hrestored
  obtain ⟨c, hc, hpast⟩ := map_eq_some_iff.1 hrestored
  obtain ⟨hpast, hkeeps⟩ := of_decide_eq_true hpast
  have hfresh := checkpointsFresh_of_keepsCheckpoints recurrentConfig _ _ hreach 0 99 true
    ⟨memoryStep_start hslot hstart, fun slot₂ hslot₂ => by cases hslot.symm.trans hslot₂; exact hkeeps⟩ slot slot' r c hslot
    hstart hc
  rw [hpast] at hfresh
  exact ⟨slot, r, c, hpast, hc, hfresh⟩

/-- The last request is continued behind the state of the first 70 tokens of the other prompt. -/
theorem not_checkpointsFresh : restoredSlot.foldlM (memoryStep recurrentConfig) oneSlot =
        some (serverBehind (memoryStep recurrentConfig) restoredSlot) ∧
      ¬ CheckpointsFresh recurrentConfig fun (s : ServerState Int) ev s' => memoryStep recurrentConfig s ev = some s' := by
  have hsome : (restoredSlot.foldlM (memoryStep recurrentConfig) oneSlot).isSome = true := by decide +kernel
  have hrun : restoredSlot.foldlM (memoryStep recurrentConfig) oneSlot =
      some (serverBehind (memoryStep recurrentConfig) restoredSlot) := eq_some_getD hsome oneSlot
  refine ⟨hrun, ?_⟩
  intro h
  have hreach := Reach.of_foldlM (Reach.init oneSlot_fresh) (fun _ _ _ _ hstep => hstep) hrun
  have hdiffer : ((serverBehind (memoryStep recurrentConfig) restoredSlot).slots[0]?.bind fun slot => (startSlot recurrentConfig slot 79 true).bind fun p =>
      p.2.restored.map fun c => decide (c.data.take p.2.nPast = slot.taskTokens.take p.2.nPast)) = some false := by
    decide +kernel
  obtain ⟨slot, hslot, hdiffer⟩ := bind_eq_some_iff.1 hdiffer
  obtain ⟨⟨slot', r⟩, hstart, hdiffer⟩ := bind_eq_some_iff.1 hdiffer
  obtain ⟨c, hc, hne⟩ := map_eq_some_iff.1 hdiffer
  exact of_decide_eq_false hne
    (h _ _ hreach 0 79 true (memoryStep_start hslot hstart) slot slot' r c hslot hstart hc)

end Mallana.Server
