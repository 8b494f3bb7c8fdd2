import Mallana.Lib.Reach
import Mallana.Server.UpdateSlots
import Mathlib.Data.List.Forall2

/-!
# The kill switch for empty batches

An iteration leaves the batch empty only if no slot generates and every slot with a prompt is turned down, or released
because a media chunk of it is not processed. Then the slots that are still processing are children that wait, and each of
them waits for a parent that has still a prompt to process. A parent whose prompt is turned down breaks this: its slot is
released and its children wait on, iteration by iteration. So do media chunks side by side: they are processed one in an
iteration, and only behind the last one there is a token for the batch.
-/

namespace Mallana.Server

open Mallana.Lib List

section
variable {F : Type}

/-- A slot with a prompt that is not processed, or whose logits are in the batch. -/
def BatchSlot.active (slot : BatchSlot F) : Prop :=
  slot.state = .started ∨ slot.state = .processingPrompt ∨ slot.state = .donePrompt

/-- Behind a media chunk there is text, or the end of the prompt. -/
def Request.Separated (r : Request) : Prop := ∀ c ∈ r.media, r.isMedia (c.1 + c.2) = false

instance (r : Request) : Decidable r.Separated := inferInstanceAs (Decidable (∀ c ∈ r.media, _))

/-- A parent has no parent, and the media chunks are separated. -/
def BatchTask.Ok (t : BatchTask) : Prop := (t.isParent = true → t.idParent = none) ∧ t.toRequest.Separated

/-- What holds of every slot beside a batch of `n` tokens. -/
structure SlotOk (cfg : BatchConfig) (n : Nat) (slot : BatchSlot F) : Prop where
  hasTask : slot.state ≠ .idle → slot.task.isSome = true
  prompt : slot.state = .processingPrompt → ∀ t, slot.task = some t →
    slot.nTokens < t.nTokens ∧ (canSplit cfg t.toRequest = true ∨ t.nTokens ≤ cfg.nUbatch)
  done : slot.state = .donePrompt → 0 ≤ slot.iBatch ∧ slot.iBatch < n
  task : ∀ t, slot.task = some t → t.Ok

/-- A child waits for this slot, whose prompt is not turned down. -/
def Leads (cfg : BatchConfig) (parent child : BatchSlot F) : Prop :=
  parent.active ∧ ∃ p c, parent.task = some p ∧ child.task = some c ∧ c.idParent = some p.id ∧ p.isParent = true ∧
    rejected cfg p.toRequest = false

/-- What holds of the slots beside a batch of `n` tokens. -/
structure SlotsOk (cfg : BatchConfig) (n : Nat) (slots : List (BatchSlot F)) : Prop where
  ok : ∀ slot ∈ slots, SlotOk cfg n slot
  waits : ∀ child ∈ slots, child.state = .waitOther → ∃ parent ∈ slots, Leads cfg parent child

/-- What a phase of `update_slots` may do to a slot: a parent that is not turned down stays active. -/
structure Passes (cfg : BatchConfig) (n : Nat) (slot slot' : BatchSlot F) : Prop where
  ok : SlotOk cfg n slot'
  waits : slot'.state = .waitOther → slot.state = .waitOther ∧ slot'.task = slot.task
  leads : slot.active → (∀ t, slot.task = some t → t.isParent = true ∧ rejected cfg t.toRequest = false) →
    slot'.active ∧ slot'.task = slot.task

variable {cfg : BatchConfig} {n n' : Nat} {slot slot' : BatchSlot F}

lemma not_active_of (h : slot.state = .idle ∨ slot.state = .waitOther ∨ slot.state = .generating) : ¬ slot.active := by
  rcases h with h | h | h
  · simp [BatchSlot.active, h]
  · simp [BatchSlot.active, h]
  · simp [BatchSlot.active, h]

lemma SlotOk.mono (h : SlotOk cfg n slot) (hle : n ≤ n') : SlotOk cfg n' slot := by
  refine ⟨h.hasTask, h.prompt, ?_, h.task⟩
  intro hdone
  obtain ⟨hpos, hlt⟩ := h.done hdone
  exact ⟨hpos, by omega⟩

lemma Passes.mono (h : Passes cfg n slot slot')
    (hle : n ≤ n') : Passes cfg n' slot slot' := ⟨h.ok.mono hle, h.waits, h.leads⟩

lemma Passes.same (h : SlotOk cfg n slot) :
    Passes cfg n slot slot := ⟨h, fun hwait => ⟨hwait, rfl⟩, fun hactive _ => ⟨hactive, rfl⟩⟩

lemma SlotsOk.passes {slots slots' : List (BatchSlot F)} (h : SlotsOk cfg n slots)
    (hpass : List.Forall₂ (Passes cfg n') slots slots') : SlotsOk cfg n' slots' := by
  have hback : ∀ slot' ∈ slots', ∃ slot ∈ slots, Passes cfg n' slot slot' := by
    intro slot' hmem
    obtain ⟨i, hi, rfl⟩ := mem_iff_getElem.1 hmem
    have hi' : i < slots.length := hpass.length_eq ▸ hi
    exact ⟨slots[i], getElem_mem hi', hpass.get hi' hi⟩
  have hforth : ∀ slot ∈ slots, ∃ slot' ∈ slots', Passes cfg n' slot slot' := by
    intro slot hmem
    obtain ⟨i, hi, rfl⟩ := mem_iff_getElem.1 hmem
    have hi' : i < slots'.length := hpass.length_eq ▸ hi
    exact ⟨slots'[i], getElem_mem hi', hpass.get hi hi'⟩
  constructor
  · intro slot' hmem
    obtain ⟨_, _, hp⟩ := hback slot' hmem
    exact hp.ok
  · intro child' hmem hwait
    obtain ⟨child, hchild, hp⟩ := hback child' hmem
    obtain ⟨hwait, htask⟩ := hp.waits hwait
    obtain ⟨parent, hparent, hactive, p, c, hptask, hctask, hid, hisparent, haccepted⟩ := h.waits child hchild hwait
    obtain ⟨parent', hparent', hpp⟩ := hforth parent hparent
    have hall : ∀ t, parent.task = some t → t.isParent = true ∧ rejected cfg t.toRequest = false := by
      intro t ht
      rw [hptask] at ht
      cases ht
      exact ⟨hisparent, haccepted⟩
    obtain ⟨hactive', htask'⟩ := hpp.leads hactive hall
    exact ⟨parent', hparent', hactive', p, c, htask'.trans hptask, htask.trans hctask, hid, hisparent, haccepted⟩

lemma SlotOk.release (slot : BatchSlot F) : SlotOk cfg n slot.release := by
  refine ⟨fun h => absurd rfl h, nofun, nofun, ?_⟩
  intro t ht
  cases ht

lemma Passes.release (hidle : slot'.state = .idle) (htask : slot'.task = none)
    (hlead : slot.active → ∃ t, slot.task = some t ∧ (t.isParent = true → rejected cfg t.toRequest = true)) :
    Passes cfg n slot slot' := by
  have hok : SlotOk cfg n slot' := by
    refine ⟨fun h => absurd hidle h, ?_, ?_, ?_⟩
    · intro h
      rw [hidle] at h
      cases h
    · intro h
      rw [hidle] at h
      cases h
    · intro t ht
      rw [htask] at ht
      cases ht
  refine ⟨hok, ?_, ?_⟩
  · intro h
    rw [hidle] at h
    cases h
  · intro hactive hall
    obtain ⟨t, ht, hrej⟩ := hlead hactive
    obtain ⟨hisparent, haccepted⟩ := hall t ht
    rw [hrej hisparent] at haccepted
    cases haccepted

lemma Passes.generating (h : SlotOk cfg n slot)
    (hgen : slot.state = .generating) (hstate : slot'.state = .generating) (htask : slot'.task = slot.task) :
    Passes cfg n slot slot' := by
  have hok : SlotOk cfg n slot' := by
    refine ⟨?_, ?_, ?_, ?_⟩
    · intro _
      rw [htask]
      apply h.hasTask
      rw [hgen]
      nofun
    · intro hprompt
      rw [hstate] at hprompt
      cases hprompt
    · intro hdone
      rw [hstate] at hdone
      cases hdone
    · rw [htask]
      exact h.task
  refine ⟨hok, ?_, ?_⟩
  · intro hwait
    rw [hstate] at hwait
    cases hwait
  · intro hactive _
    exact absurd hactive (not_active_of (.inr (.inr hgen)))

lemma Passes.shift (h : SlotOk cfg n slot) : Passes cfg n slot (shiftBatchSlot cfg slot) := by
  unfold shiftBatchSlot
  split
  next task hgen htask =>
    split
    next =>
      split
      next =>
        refine .release rfl rfl ?_
        intro hactive
        exact absurd hactive (not_active_of (.inr (.inr hgen)))
      next => exact .generating h hgen hgen rfl
    next => exact .same h
  next => exact .same h

end

section
variable {F : Type} [LinearOrder F]

variable {cfg : BatchConfig} {slot : BatchSlot F} {slots : List (BatchSlot F)} {f : Filling F}
  {it : Iteration} {i : Nat} {task : BatchTask}

lemma Passes.addSampled {n : Nat} (f : Filling F) (h : SlotOk cfg n slot) :
    Passes cfg n slot (addSampled slot f).1 := by
  unfold Server.addSampled
  split
  next => exact .same h
  next hgen =>
    have hgen : slot.state = .generating := not_not.1 (not_or.1 hgen).1
    exact .generating h hgen hgen rfl

lemma addAllSampled_passes {n : Nat} (f : Filling F)
    (h : ∀ slot ∈ slots, SlotOk cfg n slot) : List.Forall₂ (Passes cfg n) slots (addAllSampled slots f).1 := by
  induction slots generalizing f with
  | nil => exact .nil
  | cons slot rest ih =>
    exact .cons (.addSampled f (h slot mem_cons_self))
      (ih _ fun other hmem => h other (mem_cons_of_mem _ hmem))

lemma addAllSampled_le (slots : List (BatchSlot F)) (f : Filling F) : f.nTokens ≤ (addAllSampled slots f).2.nTokens := by
  induction slots generalizing f with
  | nil => exact le_refl _
  | cons slot rest ih =>
    refine le_trans ?_ (ih (addSampled slot f).2)
    unfold addSampled
    split
    next => exact le_refl _
    next => exact Nat.le_succ _

lemma addAllSampled_empty (hnone : f.slotBatched = none) (hempty : (addAllSampled slots f).2.nTokens ≤ f.nTokens) :
    addAllSampled slots f = (slots, f) ∧ ∀ slot ∈ slots, slot.state ≠ .generating := by
  induction slots with
  | nil => exact ⟨rfl, fun _ => nofun⟩
  | cons slot rest ih =>
    have hexcl : f.excludes slot = false := by
      rw [Filling.excludes, hnone]
      rfl
    have hstate : slot.state ≠ .generating := by
      intro hgen
      have hadd : (addSampled slot f).2.nTokens = f.nTokens + 1 := by
        rw [addSampled, if_neg]
        rw [hexcl]
        exact not_or.2 ⟨not_not.2 hgen, Bool.false_ne_true⟩
      have hle : (addSampled slot f).2.nTokens ≤ f.nTokens := (addAllSampled_le rest _).trans hempty
      omega
    have hskip : addSampled slot f = (slot, f) := if_pos (.inl hstate)
    have hrest : (addAllSampled rest f).2.nTokens ≤ f.nTokens := by
      have hempty := hempty
      rw [addAllSampled, hskip] at hempty
      exact hempty
    obtain ⟨heq, hall⟩ := ih hrest
    refine ⟨?_, ?_⟩
    · rw [addAllSampled, hskip]
      simp only [heq]
    · intro other hmem
      rcases mem_cons.1 hmem with rfl | hmem
      · exact hstate
      · exact hall other hmem

omit [LinearOrder F] in
lemma addPrompt_spec (cfg : BatchConfig) (task : BatchTask) (fuel n nAll : Nat) :
    n ≤ (addPrompt cfg task fuel n nAll).1 ∧
      (addPrompt cfg task fuel n nAll).1 + nAll = n + (addPrompt cfg task fuel n nAll).2 ∧
      (n ≤ task.nTokens → (addPrompt cfg task fuel n nAll).1 ≤ task.nTokens) ∧
      (0 < fuel → n < task.nTokens → nAll < cfg.nBatch → task.isMedia n = false → n < (addPrompt cfg task fuel n nAll).1) := by
  induction fuel generalizing n nAll with
  | zero =>
    refine ⟨le_refl _, rfl, fun h => h, ?_⟩
    intro h
    exact absurd h (lt_irrefl 0)
  | succ fuel ih =>
    unfold addPrompt
    split
    next hroom =>
      split
      next =>
        refine ⟨Nat.le_succ _, by omega, ?_, ?_⟩
        · intro _
          exact hroom.1
        · intro _ _ _ _
          exact Nat.lt_succ_self n
      next =>
        obtain ⟨hle, hsum, hmax, _⟩ := ih (n + 1) (nAll + 1)
        refine ⟨by omega, by omega, ?_, ?_⟩
        · intro _
          exact hmax hroom.1
        · intro _ _ _ _
          exact hle
    next hfull =>
      refine ⟨le_refl _, rfl, fun h => h, ?_⟩
      intro _ hlt hroom htext
      exact absurd ⟨hlt, hroom, htext⟩ hfull

/-- Behind the media chunk that is next there is text, or the end of the prompt. -/
lemma behindMedia_spec {r : Request} {n m : Nat} (h : r.Separated) (hle : n ≤ r.nTokens) (hm : r.behindMedia n = some m) :
    n ≤ m ∧ m ≤ r.nTokens ∧ r.isMedia m = false := by
  unfold Request.behindMedia at hm
  split at hm
  next =>
    obtain ⟨c, hc, rfl⟩ := Option.map_eq_some_iff.1 hm
    have hmem := mem_of_find?_eq_some hc
    have hbegin : c.1 = n := beq_iff_eq.1 (find?_some (p := fun c : Nat × Nat => c.1 == n) hc)
    exact ⟨by omega, r.media_le c hmem, h c hmem⟩
  next htext =>
    cases hm
    exact ⟨le_refl _, hle, Bool.eq_false_iff.2 htext⟩

/-- A slot that is processing its prompt, and what comes of it in the batch `f` unless the program ends. -/
structure Batched (cfg : BatchConfig) (task : BatchTask) (f : Filling F) (slot' : BatchSlot F) (f' : Filling F) : Prop where
  le : f.nTokens ≤ f'.nTokens
  aborted : f'.aborted = false → f.aborted = false
  progress : f.nTokens = 0 → f'.aborted = false → 0 < f'.nTokens
  hasTask : slot'.task = some task
  state : f'.aborted = false → slot'.state = .processingPrompt ∧ slot'.nTokens < task.nTokens ∨
    slot'.state = .donePrompt ∧ 0 ≤ slot'.iBatch ∧ slot'.iBatch < f'.nTokens

omit [LinearOrder F] in
/-- The tokens of a prompt behind token `n`, where there is text or the end of the prompt. -/
lemma Batched.text {n : Nat} {p : Nat × Nat} {slotBatched : Option (BatchSlot F)} {full : Bool}
    (htask : slot.task = some task) (hstate : slot.state = .processingPrompt) (hn : n ≤ task.nTokens)
    (htext : task.isMedia n = false) (hp : p = addPrompt cfg task (task.nTokens - n) n f.nTokens) :
    Batched cfg task f (addedPrompt slot task p)
      ⟨p.2, slotBatched, full, f.aborted || (decide (p.1 = task.nTokens) && decide (p.2 = 0))⟩ := by
  have hbatch : 0 < cfg.nBatch := lt_of_lt_of_le cfg.nUbatch_pos cfg.nUbatch_le
  obtain ⟨hle, hsum, hmax, hadd⟩ := addPrompt_spec cfg task (task.nTokens - n) n f.nTokens
  rw [← hp] at hle hsum hmax hadd
  have hmax := hmax hn
  have hend : (f.aborted || (decide (p.1 = task.nTokens) && decide (p.2 = 0))) = false →
      f.aborted = false ∧ (p.1 = task.nTokens → 0 < p.2) := by
    intro h
    rw [Bool.or_eq_false_iff, Bool.and_eq_false_iff, decide_eq_false_iff_not, decide_eq_false_iff_not] at h
    exact ⟨h.1, fun hdone => Nat.pos_of_ne_zero (h.2.resolve_left fun hne => hne hdone)⟩
  refine ⟨?_, fun h => (hend h).1, ?_, ?_, ?_⟩
  · show f.nTokens ≤ p.2
    omega
  · intro hzero hgoes
    show 0 < p.2
    rcases Nat.eq_or_lt_of_le hmax with hdone | hmore
    · exact (hend hgoes).2 hdone
    · have hlt := hadd (by omega) (by omega) (hzero ▸ hbatch) htext
      omega
  · unfold addedPrompt
    split
    next => exact htask
    next => exact htask
  · intro hgoes
    unfold addedPrompt
    split
    next hdone =>
      have hpos := (hend hgoes).2 hdone
      refine .inr ⟨rfl, ?_, ?_⟩
      · show (0 : Int) ≤ (p.2 : Int) - 1
        omega
      · show (p.2 : Int) - 1 < p.2
        omega
    next hmore =>
      refine .inl ⟨hstate, ?_⟩
      show p.1 < task.nTokens
      omega

/-- The slot was released because a media chunk of its prompt was not processed. -/
structure MediaFailed (it : Iteration) (task : BatchTask) (f : Filling F) (slot' : BatchSlot F) (f' : Filling F) : Prop where
  fails : it.mediaFails task = true
  idle : slot'.state = .idle
  noTask : slot'.task = none
  same : f' = f

omit [LinearOrder F] in
lemma batchPrompt_spec (htask : slot.task = some task) (hstate : slot.state = .processingPrompt)
    (hlt : slot.nTokens < task.nTokens) (hsplit : canSplit cfg task.toRequest = true ∨ task.nTokens ≤ cfg.nUbatch)
    (hseparated : task.toRequest.Separated) :
    Batched cfg task f (batchPrompt cfg it i slot task f).1 (batchPrompt cfg it i slot task f).2 ∨
      MediaFailed it task f (batchPrompt cfg it i slot task f).1 (batchPrompt cfg it i slot task f).2 := by
  have hbatch : 0 < cfg.nBatch := lt_of_lt_of_le cfg.nUbatch_pos cfg.nUbatch_le
  unfold batchPrompt
  split
  next hlater =>
    -- the prompt does not fit behind the tokens that are in the batch
    rw [Bool.and_eq_true, Bool.not_eq_true', decide_eq_true_eq] at hlater
    have hle : task.nTokens ≤ cfg.nBatch := by
      rcases hsplit with hsplit | hle
      · rw [hlater.1] at hsplit
        cases hsplit
      · exact hle.trans cfg.nUbatch_le
    refine .inl ⟨le_refl _, fun h => h, ?_, htask, fun _ => .inl ⟨hstate, hlt⟩⟩
    intro hzero
    omega
  next =>
    have hkept : (if it.truncated i then slot.nTokens else 0) < task.nTokens := by
      split
      next => exact hlt
      next => exact Nat.zero_lt_of_lt hlt
    generalize (if it.truncated i then slot.nTokens else 0) = kept at hkept
    dsimp only
    split
    next => exact .inl ⟨le_refl _, nofun, fun _ => nofun, htask, nofun⟩
    next n hbehind =>
      split
      next hfails =>
        rw [Bool.and_eq_true] at hfails
        exact .inr ⟨hfails.2, rfl, rfl, rfl⟩
      next =>
        obtain ⟨_, hn, htext⟩ := behindMedia_spec hseparated hkept.le hbehind
        exact .inl (.text htask hstate hn htext rfl)

omit [LinearOrder F] in
lemma Batched.passes {f' : Filling F} {slot' : BatchSlot F}
    (h : Batched cfg task f slot' f') (htask : slot.task = some task)
    (hsplit : canSplit cfg task.toRequest = true ∨ task.nTokens ≤ cfg.nUbatch) (hok : task.Ok)
    (hgoes : f'.aborted = false) : Passes cfg f'.nTokens slot slot' := by
  have hactive : slot'.active := by
    rcases h.state hgoes with ⟨hstate, _⟩ | ⟨hstate, _⟩
    · exact .inr (.inl hstate)
    · exact .inr (.inr hstate)
  have heq : ∀ t, slot'.task = some t → t = task := fun t ht => Option.some.inj (ht.symm.trans h.hasTask)
  refine ⟨⟨?_, ?_, ?_, ?_⟩, ?_, fun _ _ => ⟨hactive, h.hasTask.trans htask.symm⟩⟩
  · intro _
    rw [h.hasTask]
    rfl
  · intro hprompt t ht
    rw [heq t ht]
    rcases h.state hgoes with ⟨_, hlt⟩ | ⟨hdone, _⟩
    · exact ⟨hlt, hsplit⟩
    · rw [hdone] at hprompt
      cases hprompt
  · intro hdone
    rcases h.state hgoes with ⟨hprompt, _⟩ | ⟨_, hrange⟩
    · rw [hprompt] at hdone
      cases hdone
    · exact hrange
  · intro t ht
    rw [heq t ht]
    exact hok
  · exact fun hwait => absurd hactive (not_active_of (.inr (.inl hwait)))

lemma Request.commonPrefix_le (r : Request) (n : Nat) : r.commonPrefix n ≤ r.nTokens := by
  unfold commonPrefix
  cases hc : r.media.find? fun c => decide (c.1 < n) && decide (n < c.1 + c.2) with
  | none => exact min_le_right _ _
  | some c =>
    have hle := r.media_le c (mem_of_find?_eq_some hc)
    exact le_trans (Nat.le_add_right _ _) hle

lemma kept_of_accepted (h : rejected cfg task.toRequest = false) (nPast : Nat) :
    keptTokens cfg task nPast < task.nTokens ∧ (canSplit cfg task.toRequest = true ∨ task.nTokens ≤ cfg.nUbatch) := by
  unfold rejected at h
  rw [Bool.or_eq_false_iff, Bool.or_eq_false_iff, beq_eq_false_iff_ne] at h
  obtain ⟨⟨hpos, _⟩, hfits⟩ := h
  have hpos : 0 < task.nTokens := Nat.pos_of_ne_zero hpos
  unfold keptTokens
  cases hsplit : canSplit cfg task.toRequest with
  | true =>
    refine ⟨?_, .inl rfl⟩
    have hprefix := task.commonPrefix_le nPast
    rw [if_pos rfl, keepCount]
    split
    next => omega
    next => omega
  | false =>
    rw [hsplit, if_neg Bool.false_ne_true, Bool.or_eq_false_iff, decide_eq_false_iff_not] at hfits
    refine ⟨?_, .inr (Nat.le_of_not_lt hfits.1)⟩
    rw [if_neg Bool.false_ne_true]
    exact hpos

/-- What becomes of a slot in the loop over the prompts, unless the program ends. -/
structure Filled (cfg : BatchConfig) (slot : BatchSlot F) (f : Filling F) (slot' : BatchSlot F) (f' : Filling F) : Prop where
  le : f.nTokens ≤ f'.nTokens
  aborted : f'.aborted = false → f.aborted = false
  passes : f'.aborted = false → Passes cfg f'.nTokens slot slot'

/-- The prompt is turned down, or a media chunk of it is not processed. -/
def Refused (cfg : BatchConfig) (it : Iteration) (t : BatchTask) : Prop :=
  rejected cfg t.toRequest = true ∨ it.mediaFails t = true

/-- The media chunks of a parent are processed. -/
def ProcessesParents (it : Iteration) : Prop := ∀ t : BatchTask, t.isParent = true → it.mediaFails t = false

omit [LinearOrder F] in
lemma Filled.same (h : SlotOk cfg 0 slot) : Filled cfg slot f slot f :=
  ⟨le_refl _, fun h => h, fun _ => .same (h.mono (Nat.zero_le _))⟩

omit [LinearOrder F] in
/-- A slot whose prompt is refused is released. -/
lemma Filled.refused {slot' : BatchSlot F} (hparents : ProcessesParents it) (hidle : slot'.state = .idle)
    (hnone : slot'.task = none) (htask : slot.task = some task) (h : Refused cfg it task) : Filled cfg slot f slot' f := by
  refine ⟨le_refl _, fun h => h, fun _ => .release hidle hnone fun _ => ⟨task, htask, fun hisparent => ?_⟩⟩
  refine h.resolve_right ?_
  rw [hparents task hisparent]
  exact Bool.false_ne_true

omit [LinearOrder F] in
/-- A slot whose prompt goes on, on the way to the batch. -/
lemma Filled.prompt {slot' : BatchSlot F} {f' : Filling F} (hparents : ProcessesParents it)
    (htask : slot.task = some task) (hsplit : canSplit cfg task.toRequest = true ∨ task.nTokens ≤ cfg.nUbatch)
    (hok : task.Ok) (h : Batched cfg task f slot' f' ∨ MediaFailed it task f slot' f') : Filled cfg slot f slot' f' := by
  rcases h with h | h
  · exact ⟨h.le, h.aborted, h.passes htask hsplit hok⟩
  · rw [h.same]
    exact .refused hparents h.idle h.noTask htask (.inr h.fails)

lemma fillSlot_filled (hparents : ProcessesParents it) (i : Nat) (f : Filling F)
    (h : SlotOk cfg 0 slot) : Filled cfg slot f (fillSlot cfg it i slot f).1 (fillSlot cfg it i slot f).2 := by
  unfold fillSlot
  split
  next => exact .same h
  next =>
    split
    next task hstate htask =>
      split
      next hrej => exact .refused hparents rfl rfl htask (.inl hrej)
      next haccepted =>
        obtain ⟨hkept, hsplit⟩ := kept_of_accepted (Bool.eq_false_iff.2 haccepted) (it.nPast i)
        have hok := h.task task htask
        exact .prompt hparents htask hsplit hok (@batchPrompt_spec _ cfg
          { slot with state := .processingPrompt, nTokens := keptTokens cfg task (it.nPast i) } f it i task htask rfl hkept
          hsplit hok.2)
    next task hstate htask =>
      obtain ⟨hlt, hsplit⟩ := h.prompt hstate task htask
      have hok := h.task task htask
      exact .prompt hparents htask hsplit hok (batchPrompt_spec htask hstate hlt hsplit hok.2)
    next => exact ⟨le_refl _, fun h => h, fun _ => .same (h.mono (Nat.zero_le _))⟩

lemma fillPrompts_passes (hparents : ProcessesParents it) (i : Nat) (f : Filling F)
    (h : ∀ slot ∈ slots, SlotOk cfg 0 slot) : f.nTokens ≤ (fillPrompts cfg it i slots f).2.nTokens ∧
      ((fillPrompts cfg it i slots f).2.aborted = false → f.aborted = false ∧
        List.Forall₂ (Passes cfg (fillPrompts cfg it i slots f).2.nTokens) slots (fillPrompts cfg it i slots f).1) := by
  induction slots generalizing i f with
  | nil => exact ⟨le_refl _, fun h => ⟨h, .nil⟩⟩
  | cons slot rest ih =>
    unfold fillPrompts
    split
    next =>
      refine ⟨le_refl _, fun h' => ⟨h', forall₂_same.2 ?_⟩⟩
      intro other hmem
      exact .same ((h other hmem).mono (Nat.zero_le _))
    next =>
      have hslot := fillSlot_filled hparents i f (h slot mem_cons_self)
      obtain ⟨hle, hrest⟩ := ih (i + 1) (fillSlot cfg it i slot f).2 fun other hmem => h other (mem_cons_of_mem _ hmem)
      refine ⟨hslot.le.trans hle, fun hgoes => ?_⟩
      obtain ⟨hgoes, hpasses⟩ := hrest hgoes
      exact ⟨hslot.aborted hgoes, .cons ((hslot.passes hgoes).mono hle) hpasses⟩

/-- Nothing was batched. -/
abbrev Filling.nothing {F : Type} : Filling F := ⟨0, none, false, false⟩

/-- A slot that adds nothing to an empty batch: its prompt was refused, or it waits. -/
lemma fillSlot_empty (h : SlotOk cfg 0 slot) (hgen : slot.state ≠ .generating)
    (hempty : (fillSlot cfg it i slot .nothing).2.nTokens = 0)
    (hgoes : (fillSlot cfg it i slot .nothing).2.aborted = false) :
    (fillSlot cfg it i slot .nothing).2 = .nothing ∧
      ((fillSlot cfg it i slot .nothing).1.state = .idle ∨
        (fillSlot cfg it i slot .nothing).1 = slot ∧ slot.state = .waitOther) ∧
      (slot.active → ∃ t, slot.task = some t ∧ Refused cfg it t) := by
  unfold BatchSlot.active
  cases hstate : slot.state with
  | idle =>
    have heq : fillSlot cfg it i slot .nothing = (slot, .nothing) := by
      rw [fillSlot, BatchSlot.isProcessing, hstate]
      rfl
    rw [heq]
    exact ⟨rfl, .inl hstate, by simp⟩
  | waitOther =>
    have heq : fillSlot cfg it i slot .nothing = (slot, .nothing) := by
      rw [fillSlot, BatchSlot.isProcessing, hstate]
      rfl
    rw [heq]
    exact ⟨rfl, .inr ⟨rfl, rfl⟩, by simp⟩
  | started =>
    obtain ⟨task, htask⟩ := Option.isSome_iff_exists.1 (h.hasTask (by rw [hstate]; nofun))
    cases hrej : rejected cfg task.toRequest with
    | true =>
      have heq : fillSlot cfg it i slot .nothing = (slot.release, .nothing) := by
        simp [fillSlot, BatchSlot.isProcessing, Filling.excludes, hstate, htask, hrej]
      rw [heq]
      exact ⟨rfl, .inl rfl, fun _ => ⟨task, htask, .inl hrej⟩⟩
    | false =>
      obtain ⟨hkept, hsplit⟩ := kept_of_accepted hrej (it.nPast i)
      have hprompt := @batchPrompt_spec _ cfg
        { slot with state := .processingPrompt, nTokens := keptTokens cfg task (it.nPast i) } .nothing it i task
        htask rfl hkept hsplit (h.task task htask).2
      have heq : fillSlot cfg it i slot .nothing = batchPrompt cfg it i
          { slot with state := .processingPrompt, nTokens := keptTokens cfg task (it.nPast i) } task
          .nothing := by
        simp [fillSlot, BatchSlot.isProcessing, Filling.excludes, hstate, htask, hrej]
      rw [heq] at hempty hgoes ⊢
      rcases hprompt with hbatched | hfailed
      · exact absurd hempty (hbatched.progress rfl hgoes).ne'
      · exact ⟨hfailed.same, .inl hfailed.idle, fun _ => ⟨task, htask, .inr hfailed.fails⟩⟩
  | processingPrompt =>
    obtain ⟨task, htask⟩ := Option.isSome_iff_exists.1 (h.hasTask (by rw [hstate]; nofun))
    obtain ⟨hlt, hsplit⟩ := h.prompt hstate task htask
    have hprompt := @batchPrompt_spec _ cfg slot .nothing it i task htask hstate hlt hsplit (h.task task htask).2
    have heq : fillSlot cfg it i slot .nothing = batchPrompt cfg it i slot task .nothing := by
      simp [fillSlot, BatchSlot.isProcessing, Filling.excludes, hstate, htask]
    rw [heq] at hempty hgoes ⊢
    rcases hprompt with hbatched | hfailed
    · exact absurd hempty (hbatched.progress rfl hgoes).ne'
    · exact ⟨hfailed.same, .inl hfailed.idle, fun _ => ⟨task, htask, .inr hfailed.fails⟩⟩
  | donePrompt =>
    obtain ⟨hpos, hlt⟩ := h.done hstate
    omega
  | generating => exact absurd hstate hgen

lemma fillPrompts_empty (hparents : ProcessesParents it)
    (h : ∀ slot ∈ slots, SlotOk cfg 0 slot) (hgen : ∀ slot ∈ slots, slot.state ≠ .generating)
    (hempty : (fillPrompts cfg it i slots .nothing).2.nTokens = 0)
    (hgoes : (fillPrompts cfg it i slots .nothing).2.aborted = false) :
    (∀ slot' ∈ (fillPrompts cfg it i slots .nothing).1,
        slot'.state = .idle ∨ slot' ∈ slots ∧ slot'.state = .waitOther) ∧
      ∀ slot ∈ slots, slot.active → ∃ t, slot.task = some t ∧ Refused cfg it t := by
  induction slots generalizing i with
  | nil => exact ⟨fun _ => nofun, fun _ => nofun⟩
  | cons slot rest ih =>
    have hrestok : ∀ other ∈ rest, SlotOk cfg 0 other := fun other hmem => h other (mem_cons_of_mem _ hmem)
    have hunfold : fillPrompts cfg it i (slot :: rest) .nothing =
        ((fillSlot cfg it i slot .nothing).1 ::
          (fillPrompts cfg it (i + 1) rest (fillSlot cfg it i slot .nothing).2).1,
        (fillPrompts cfg it (i + 1) rest (fillSlot cfg it i slot .nothing).2).2) := rfl
    rw [hunfold] at hempty hgoes ⊢
    obtain ⟨hle, hpasses⟩ := fillPrompts_passes hparents (i + 1) (fillSlot cfg it i slot .nothing).2 hrestok
    have hslot : (fillSlot cfg it i slot .nothing).2.nTokens = 0 := Nat.le_zero.1 (hle.trans hempty.le)
    obtain ⟨hf, hstate, hactive⟩ := fillSlot_empty (h slot mem_cons_self) (hgen slot mem_cons_self) hslot (hpasses hgoes).1
    rw [hf] at hempty hgoes ⊢
    obtain ⟨hstates, hactives⟩ := ih hrestok (fun other hmem => hgen other (mem_cons_of_mem _ hmem)) hempty hgoes
    constructor
    · intro slot' hmem
      rcases mem_cons.1 hmem with rfl | hmem
      · rcases hstate with hidle | ⟨heq, hwait⟩
        · exact .inl hidle
        · rw [heq]
          exact .inr ⟨mem_cons_self, hwait⟩
      · rcases hstates slot' hmem with hidle | ⟨hmem, hwait⟩
        · exact .inl hidle
        · exact .inr ⟨mem_cons_of_mem _ hmem, hwait⟩
    · intro other hmem
      rcases mem_cons.1 hmem with rfl | hmem
      · exact hactive
      · exact hactives other hmem

lemma fillBatch_ok (hparents : ProcessesParents it) (h : SlotsOk cfg 0 slots)
    (hgoes : (fillBatch cfg it slots).2.aborted = false) :
    SlotsOk cfg (fillBatch cfg it slots).2.nTokens (fillBatch cfg it slots).1 ∧
      ((fillBatch cfg it slots).2.nTokens = 0 → ∀ slot ∈ (fillBatch cfg it slots).1, slot.state = .idle) := by
  have hshift : SlotsOk cfg 0 (slots.map (shiftBatchSlot cfg)) := by
    refine h.passes ?_
    rw [forall₂_map_right_iff]
    exact forall₂_same.2 fun slot hmem => .shift (h.ok slot hmem)
  have hsampled := hshift.passes (addAllSampled_passes .nothing hshift.ok)
  unfold fillBatch at hgoes ⊢
  dsimp only at hgoes ⊢
  split at hgoes
  next hprompts =>
    rw [if_pos hprompts]
    have hfill := fillPrompts_passes hparents 0 (addAllSampled (slots.map (shiftBatchSlot cfg)) .nothing).2
      hsampled.ok
    refine ⟨hsampled.passes (hfill.2 hgoes).2, ?_⟩
    intro hempty
    have hzero := Nat.le_zero.1 (hfill.1.trans hempty.le)
    obtain ⟨heq, hgen⟩ := addAllSampled_empty rfl hzero.le
    rw [heq] at hempty hgoes ⊢
    obtain ⟨hstates, hactives⟩ := fillPrompts_empty hparents hshift.ok hgen hempty hgoes
    intro slot hmem
    rcases hstates slot hmem with hidle | ⟨hmem, hwait⟩
    · exact hidle
    · -- a child that waits has a parent whose prompt was not refused
      obtain ⟨parent, hparent, hactive, p, _, hp, _, _, hisparent, haccepted⟩ := hshift.waits slot hmem hwait
      obtain ⟨t, ht, hrefused⟩ := hactives parent hparent hactive
      rw [hp] at ht
      cases ht
      rcases hrefused with hrej | hfails
      · rw [haccepted] at hrej
        cases hrej
      · rw [hparents p hisparent] at hfails
        cases hfails
  next hprompts =>
    rw [if_neg hprompts]
    refine ⟨⟨fun slot hmem => (hsampled.ok slot hmem).mono (Nat.zero_le _), hsampled.waits⟩, ?_⟩
    intro hempty
    rw [hempty, Bool.or_eq_true, not_or] at hprompts
    exact absurd rfl hprompts.2

end

section
variable {F : Type} {cfg : BatchConfig} {n : Nat} {slots : List (BatchSlot F)}

lemma SlotOk.of_state {slot : BatchSlot F} (hstate : slot.state = .idle ∨ slot.state = .generating ∧ slot.task.isSome = true)
    (htask : ∀ t, slot.task = some t → t.Ok) : SlotOk cfg 0 slot := by
  refine ⟨?_, ?_, ?_, htask⟩
  · intro hbusy
    rcases hstate with hidle | ⟨_, htask⟩
    · exact absurd hidle hbusy
    · exact htask
  · intro hprompt
    rcases hstate with hstate | ⟨hstate, _⟩
    · rw [hstate] at hprompt
      cases hprompt
    · rw [hstate] at hprompt
      cases hprompt
  · intro hdone
    rcases hstate with hstate | ⟨hstate, _⟩
    · rw [hstate] at hdone
      cases hdone
    · rw [hstate] at hdone
      cases hdone

lemma activateChild_cases (slots : List (BatchSlot F)) (child : BatchSlot F) :
    (activateChild slots child = child ∧ (child.state = .waitOther → doneParent slots child = none)) ∨
      child.state = .waitOther ∧ ∃ parent ∈ slots, parent.state = .donePrompt ∧ activateChild slots child =
          { child with state := .donePrompt, nTokens := parent.nTokens, iBatch := parent.iBatch } := by
  unfold activateChild
  split
  next hwait =>
    split
    next parent hparent =>
      have hmem := mem_of_find?_eq_some hparent
      have hcond := find?_some hparent
      rw [Bool.and_eq_true, beq_iff_eq] at hcond
      exact .inr ⟨hwait, parent, hmem, hcond.1, rfl⟩
    next hnone => exact .inl ⟨rfl, fun _ => hnone⟩
  next hwait => exact .inl ⟨rfl, fun h => absurd h hwait⟩

lemma SlotsOk.activate (h : SlotsOk cfg n slots) {child : BatchSlot F} (hmem : child ∈ slots) :
    SlotOk cfg n (activateChild slots child) := by
  rcases activateChild_cases slots child with ⟨heq, _⟩ | ⟨hwait, parent, hparent, hdone, heq⟩
  · rw [heq]
    exact h.ok child hmem
  · rw [heq]
    refine ⟨fun _ => (h.ok child hmem).hasTask (by rw [hwait]; nofun), nofun, ?_, (h.ok child hmem).task⟩
    intro _
    exact (h.ok parent hparent).done hdone

lemma SlotOk.sample {slot : BatchSlot F} (h : SlotOk cfg n slot) (stops : Bool) :
    SlotOk cfg 0 (sampleBatchSlot n stops slot) := by
  have hrelease : ∀ k : Int, SlotOk cfg 0 { slot.release with iBatch := k } := fun _ => .of_state (.inl rfl) nofun
  unfold sampleBatchSlot
  split
  next hout =>
    refine ⟨h.hasTask, h.prompt, ?_, h.task⟩
    intro hdone
    obtain ⟨hpos, hlt⟩ := h.done hdone
    omega
  next =>
    split
    next hdone =>
      split
      next => exact hrelease _
      next => exact .of_state (.inr ⟨rfl, h.hasTask (by rw [hdone]; nofun)⟩) h.task
    next hgen =>
      split
      next => exact hrelease _
      next => exact .of_state (.inr ⟨hgen, h.hasTask (by rw [hgen]; nofun)⟩) h.task
    next hnotdone _ => exact ⟨h.hasTask, h.prompt, fun hdone => absurd hdone hnotdone, h.task⟩

lemma sampleBatchSlot_eq {slot : BatchSlot F} (hdone : slot.state ≠ .donePrompt) (hgen : slot.state ≠ .generating)
    (stops : Bool) : sampleBatchSlot n stops slot = slot := by
  unfold sampleBatchSlot
  split
  next => rfl
  next =>
    split
    next h => exact absurd h hdone
    next h => exact absurd h hgen
    next => rfl

lemma eq_of_sample_waits {slot : BatchSlot F} {stops : Bool} (h : (sampleBatchSlot n stops slot).state = .waitOther) :
    sampleBatchSlot n stops slot = slot := by
  unfold sampleBatchSlot at h ⊢
  split
  next => rfl
  next hin =>
    rw [if_neg hin] at h
    split
    next hdone =>
      simp only [hdone] at h
      split at h
      · cases h
      · cases h
    next hgen =>
      simp only [hgen] at h
      split at h
      · cases h
      · cases h
    next => rfl

/-- Decoding the batch keeps the slots as they should be. -/
lemma decodeBatch_ok (it : Iteration) (h : SlotsOk cfg n slots) : SlotsOk cfg 0 (decodeBatch it n slots) := by
  unfold decodeBatch
  split
  next hzero => exact hzero ▸ h
  next =>
    split
    next =>
      constructor
      · intro slot' hmem
        obtain ⟨i, hi, rfl⟩ := mem_mapIdx.1 hmem
        rw [getElem_map]
        exact (h.activate (getElem_mem _)).sample _
      · intro child' hmem hwait
        obtain ⟨i, hi, rfl⟩ := mem_mapIdx.1 hmem
        have hsame := eq_of_sample_waits hwait
        rw [hsame] at hwait ⊢
        rw [getElem_map] at hwait ⊢
        have hi : i < slots.length := by rwa [length_map] at hi
        rcases activateChild_cases slots slots[i] with ⟨heq, hnone⟩ | ⟨_, _, _, _, heq⟩
        · rw [heq] at hwait ⊢
          obtain ⟨parent, hparent, hactive, p, c, hp, hc, hid, hisparent, haccepted⟩ :=
            h.waits _ (getElem_mem hi) hwait
          -- the parent is not done, or the child would have gone on
          have hnotdone : parent.state ≠ .donePrompt := by
            intro hdone
            have hfind := find?_eq_none.1 (hnone hwait) parent hparent
            rw [hp, hc, hdone] at hfind
            simp [hid, hisparent] at hfind
          have hpending : parent.state = .started ∨ parent.state = .processingPrompt := by
            rcases hactive with hstarted | hprompt | hdone
            · exact .inl hstarted
            · exact .inr hprompt
            · exact absurd hdone hnotdone
          obtain ⟨j, hj, rfl⟩ := mem_iff_getElem.1 hparent
          have hsame : activateChild slots slots[j] = slots[j] := by
            refine if_neg ?_
            intro hwait
            rcases hpending with hstate | hstate
            · rw [hstate] at hwait
              cases hwait
            · rw [hstate] at hwait
              cases hwait
          have hgen : slots[j].state ≠ .generating := by
            intro hgen
            rcases hpending with hstate | hstate
            · rw [hstate] at hgen
              cases hgen
            · rw [hstate] at hgen
              cases hgen
          refine ⟨slots[j], mem_mapIdx.2 ⟨j, by rwa [length_map], ?_⟩, hactive, p, c, hp, hc, hid, hisparent,
            haccepted⟩
          rw [getElem_map, hsame]
          exact sampleBatchSlot_eq hnotdone hgen _
        · rw [heq] at hwait
          cases hwait
    next =>
      have hidle : ∀ slot' ∈ slots.map fun slot => if slot.isProcessing then { slot.release with nTokens := 0 } else slot,
          slot'.state = .idle ∧ ∀ t, slot'.task = some t → t.Ok := by
        intro slot' hmem
        obtain ⟨slot, hslot, rfl⟩ := mem_map.1 hmem
        split
        next => exact ⟨rfl, nofun⟩
        next hidle =>
          rw [BatchSlot.isProcessing, bne_iff_ne, not_not] at hidle
          exact ⟨hidle, (h.ok slot hslot).task⟩
      constructor
      · intro slot' hmem
        exact .of_state (.inl (hidle slot' hmem).1) (hidle slot' hmem).2
      · intro child hmem hwait
        rw [(hidle child hmem).1] at hwait
        cases hwait

end

section
variable {F : Type} {cfg : BatchConfig} {srv : BatchServer F}

def launchState (task : BatchTask) : SlotState := if task.idParent.isSome then .waitOther else .started

/-- What changes when tasks are launched in idle slots: `New` slots replace idle ones. -/
structure Launched (srv srv' : BatchServer F) (New : BatchSlot F → Prop) : Prop where
  mem : ∀ slot' ∈ srv'.slots, slot' ∈ srv.slots ∨ New slot'
  busy : ∀ slot ∈ srv.slots, slot.isProcessing = true → slot ∈ srv'.slots

variable {i : Nat} {children : List (Nat × Nat)} {slot : BatchSlot F} {r : Request}

lemma launchBatchSlot_other {j : Nat} (task : BatchTask) (lora : List (LoraInfo F)) (hne : i ≠ j) :
    (launchBatchSlot srv i task lora).slots[j]? = srv.slots[j]? :=
  getElem?_modify_ne _ _ hne

lemma launchBatchSlot_launched (task : BatchTask) (lora : List (LoraInfo F))
    (hfree : srv.slots[i]?.map (·.isProcessing) = some false) :
    Launched srv (launchBatchSlot srv i task lora) (fun slot => slot.task = some task ∧ slot.state = launchState task) ∧
      ∃ slot ∈ (launchBatchSlot srv i task lora).slots, slot.task = some task ∧ slot.state = launchState task := by
  obtain ⟨old, hold, hidle⟩ := Option.map_eq_some_iff.1 hfree
  have hnew : (launchBatchSlot srv i task lora).slots[i]? =
      some { old with state := launchState task, task := some task, lora := lora } := by
    rw [launchBatchSlot, getElem?_modify_eq, hold]
    rfl
  refine ⟨⟨?_, ?_⟩, _, mem_of_getElem? hnew, rfl, rfl⟩
  · intro slot' hmem
    obtain ⟨j, hj⟩ := mem_iff_getElem?.mp hmem
    by_cases hne : i = j
    · rw [← hne, hnew] at hj
      cases hj
      exact .inr ⟨rfl, rfl⟩
    · rw [launchBatchSlot_other task lora hne] at hj
      exact .inl (mem_of_getElem? hj)
  · intro slot hmem hbusy
    obtain ⟨j, hj⟩ := mem_iff_getElem?.mp hmem
    have hne : i ≠ j := by
      rintro rfl
      rw [hold] at hj
      cases hj
      rw [hidle] at hbusy
      cases hbusy
    exact mem_of_getElem? ((launchBatchSlot_other task lora hne).trans hj)

def IsChildOf (r : Request) (slot : BatchSlot F) : Prop :=
  slot.state = .waitOther ∧ ∃ id, slot.task = some ⟨{ r with id := id }, some r.id, false⟩

lemma launchChildren_launched (r : Request) (lora : List (LoraInfo F)) (hnodup : (children.map (·.1)).Nodup)
    (hfree : ∀ c ∈ children, srv.slots[c.1]?.map (·.isProcessing) = some false) :
    Launched srv (launchChildren srv r lora children) (fun slot => IsChildOf r slot ∧ children ≠ []) ∧
      (∀ j, j ∉ children.map (·.1) → (launchChildren srv r lora children).slots[j]? = srv.slots[j]?) ∧
      (children ≠ [] → (launchChildren srv r lora children).nEmptyConsecutive = 0) := by
  induction children generalizing srv with
  | nil => exact ⟨⟨fun _ => .inl, fun _ hmem _ => hmem⟩, fun _ _ => rfl, fun h => absurd rfl h⟩
  | cons c rest ih =>
    obtain ⟨i, id⟩ := c
    rw [map_cons, nodup_cons] at hnodup
    obtain ⟨hnotin, hnodup⟩ := hnodup
    obtain ⟨hfirst, _⟩ := launchBatchSlot_launched ⟨{ r with id := id }, some r.id, false⟩ lora
      (hfree (i, id) mem_cons_self)
    have hrestfree : ∀ c ∈ rest, (launchBatchSlot srv i ⟨{ r with id := id }, some r.id, false⟩ lora).slots[c.1]?.map
        (·.isProcessing) = some false := by
      intro c hc
      have hne : i ≠ c.1 := by
        rintro rfl
        exact hnotin (mem_map.2 ⟨c, hc, rfl⟩)
      rw [launchBatchSlot_other _ lora hne]
      exact hfree c (mem_cons_of_mem _ hc)
    obtain ⟨hmore, hother, hcount⟩ := ih hnodup hrestfree
    refine ⟨⟨?_, ?_⟩, ?_, ?_⟩
    · intro slot' hmem
      rcases hmore.mem slot' hmem with hmem | hnew
      · exact (hfirst.mem slot' hmem).imp_right fun ⟨htask, hstate⟩ => ⟨⟨hstate, id, htask⟩, cons_ne_nil _ _⟩
      · exact .inr ⟨hnew.1, cons_ne_nil _ _⟩
    · intro slot hmem hbusy
      exact hmore.busy slot (hfirst.busy slot hmem hbusy) hbusy
    · intro j hj
      rw [map_cons, mem_cons, not_or] at hj
      rw [launchChildren, hother j hj.2, launchBatchSlot_other _ lora (Ne.symm hj.1)]
    · intro _
      cases rest with
      | nil => rfl
      | cons c rest => exact hcount (cons_ne_nil c rest)

lemma SlotOk.launch {task : BatchTask} (htask : slot.task = some task)
    (hstate : slot.state = .started ∨ slot.state = .waitOther) (hok : task.Ok) : SlotOk cfg 0 slot := by
  refine ⟨?_, ?_, ?_, ?_⟩
  · intro _
    rw [htask]
    rfl
  · intro hprompt
    rcases hstate with hstate | hstate
    · rw [hstate] at hprompt
      cases hprompt
    · rw [hstate] at hprompt
      cases hprompt
  · intro hdone
    rcases hstate with hstate | hstate
    · rw [hstate] at hdone
      cases hdone
    · rw [hstate] at hdone
      cases hdone
  · intro t ht
    rw [htask] at ht
    cases ht
    exact hok

lemma SlotOk.ofChild (hseparated : r.Separated) (h : IsChildOf r slot) : SlotOk cfg 0 slot := by
  obtain ⟨hwait, id, htask⟩ := h
  exact .launch htask (.inr hwait) ⟨nofun, hseparated⟩

lemma BatchSlot.isProcessing_of_active (h : slot.active) : slot.isProcessing = true := by
  rw [BatchSlot.isProcessing, bne_iff_ne]
  exact fun hidle => not_active_of (.inl hidle) h

/-- What holds between two iterations: the last one was empty at most if every slot has become idle. -/
structure LoopInv (cfg : BatchConfig) (srv : BatchServer F) : Prop where
  slots : SlotsOk cfg 0 srv.slots
  empty : srv.nEmptyConsecutive = 0 ∨ srv.nEmptyConsecutive = 1 ∧ ∀ slot ∈ srv.slots, slot.state = .idle

/-- A reader cancels all tasks of its requests, a parent together with its children. -/
def CancelsFamilies (srv : BatchServer F) : BatchEvent F → Prop
  | .cancel ids => ∀ slot ∈ srv.slots, ∀ t, slot.task = some t → ∀ p, t.idParent = some p → p ∈ ids → t.id ∈ ids
  | _ => True

/-- The media chunks of a prompt are separated; the prompt of a parent is not turned down, and its media chunks are
processed. -/
def AcceptsParents (cfg : BatchConfig) : BatchEvent F → Prop
  | .launch _ r _ children _ => r.Separated ∧ (children = [] ∨ rejected cfg r = false)
  | .cancel _ => True
  | .update it => ProcessesParents it

lemma SlotsOk.releaseSome {slots : List (BatchSlot F)} {p : BatchSlot F → Bool} (h : ∀ slot ∈ slots, SlotOk cfg 0 slot)
    (hwaits : ∀ child ∈ slots, child.state = .waitOther → p child = false →
      ∃ parent ∈ slots, Leads cfg parent child ∧ p parent = false) :
    SlotsOk cfg 0 (slots.map fun slot => if p slot then slot.release else slot) := by
  constructor
  · intro slot' hmem
    obtain ⟨slot, hslot, rfl⟩ := mem_map.1 hmem
    split
    next => exact .release slot
    next => exact h slot hslot
  · intro child' hmem hwait
    obtain ⟨child, hchild, rfl⟩ := mem_map.1 hmem
    split at hwait
    next => cases hwait
    next hstays =>
      obtain ⟨parent, hparent, hleads, hkept⟩ := hwaits child hchild hwait (Bool.eq_false_iff.2 hstays)
      rw [if_neg hstays]
      refine ⟨parent, mem_map.2 ⟨parent, hparent, ?_⟩, hleads⟩
      rw [hkept, if_neg Bool.false_ne_true]

lemma idle_releaseSome {slots : List (BatchSlot F)} {p : BatchSlot F → Bool} (h : ∀ slot ∈ slots, slot.state = .idle) :
    ∀ slot ∈ slots.map fun slot => if p slot then slot.release else slot, slot.state = .idle := by
  intro slot' hmem
  obtain ⟨slot, hslot, rfl⟩ := mem_map.1 hmem
  split
  next => rfl
  next => exact h slot hslot

lemma LoopInv.cancel {ids : List Nat} (h : LoopInv cfg srv) (hclient : CancelsFamilies srv (.cancel ids)) :
    LoopInv cfg (cancelSlots srv ids) := by
  constructor
  · refine SlotsOk.releaseSome (p := fun slot => slot.task.any (ids.contains ·.id)) h.slots.ok ?_
    intro child hchild hwait hstays
    obtain ⟨parent, hparent, hleads⟩ := h.slots.waits child hchild hwait
    refine ⟨parent, hparent, hleads, ?_⟩
    obtain ⟨_, p, c, hp, hc, hid, _, _⟩ := hleads
    rw [hp, Option.any_some, contains_eq_mem, decide_eq_false_iff_not]
    rw [hc, Option.any_some, contains_eq_mem, decide_eq_false_iff_not] at hstays
    intro hmem
    exact hstays (hclient child hchild c hc p.id hid hmem)
  · exact h.empty.imp_right fun ⟨hone, hidle⟩ => ⟨hone, idle_releaseSome hidle⟩

section
variable (h : LoopInv cfg srv) (hfree : areFree srv (i :: children.map (·.1)) = true) (hseparated : r.Separated)
include h hfree hseparated

lemma LoopInv.launched {launched : Nat} {lora : List (LoraInfo F)} (haccepts : children = [] ∨ rejected cfg r = false) (hall : children.length < launched) :
    LoopInv cfg (launchFamily srv i r lora children launched) := by
  rw [areFree, Bool.and_eq_true, decide_eq_true_eq, all_eq_true, nodup_cons] at hfree
  obtain ⟨⟨hnotin, hnodup⟩, hidle⟩ := hfree
  have hidle : ∀ j ∈ i :: children.map (·.1), srv.slots[j]?.map (·.isProcessing) = some false :=
    fun j hj => beq_iff_eq.1 (hidle j hj)
  obtain ⟨hchildren, hother, _⟩ := launchChildren_launched r lora hnodup fun c hc =>
    hidle c.1 (mem_cons_of_mem _ (mem_map.2 ⟨c, hc, rfl⟩))
  have hslot : (launchChildren srv r lora children).slots[i]?.map (·.isProcessing) = some false := by
    rw [hother i hnotin]
    exact hidle i mem_cons_self
  obtain ⟨hparent, parent, hmem, htask, hstate⟩ := launchBatchSlot_launched ⟨r, none, !children.isEmpty⟩ lora hslot
  have heq : launchFamily srv i r lora children launched =
      launchBatchSlot (launchChildren srv r lora children) i ⟨r, none, !children.isEmpty⟩ lora := if_pos hall
  rw [heq]
  refine ⟨⟨?_, ?_⟩, .inl rfl⟩
  · intro slot hslot
    rcases hparent.mem slot hslot with hslot | ⟨htask, hstate⟩
    · rcases hchildren.mem slot hslot with hslot | hchild
      · exact h.slots.ok slot hslot
      · exact .ofChild hseparated hchild.1
    · exact .launch htask (.inl hstate) ⟨fun _ => rfl, hseparated⟩
  · intro child hchild hwait
    rcases hparent.mem child hchild with hchild | ⟨_, hstate⟩
    · rcases hchildren.mem child hchild with hchild | ⟨⟨_, id, hctask⟩, hne⟩
      · obtain ⟨other, hother, hleads⟩ := h.slots.waits child hchild hwait
        have hbusy := BatchSlot.isProcessing_of_active hleads.1
        exact ⟨other, hparent.busy other (hchildren.busy other hother hbusy) hbusy, hleads⟩
      · refine ⟨parent, hmem, .inl hstate, _, _, htask, hctask, rfl, ?_, ?_⟩
        · cases children with
          | nil => exact absurd rfl hne
          | cons c rest => rfl
        · exact haccepts.resolve_left hne
    · rw [hstate] at hwait
      cases hwait

lemma LoopInv.launchFailed {launched : Nat} {lora : List (LoraInfo F)} (hfail : ¬ children.length < launched) : LoopInv cfg (launchFamily srv i r lora children launched) := by
  rw [areFree, Bool.and_eq_true, decide_eq_true_eq, all_eq_true, nodup_cons] at hfree
  obtain ⟨⟨_, hnodup⟩, hidle⟩ := hfree
  have hsub : ∀ c ∈ children.take launched, c ∈ children := fun c => mem_of_mem_take
  have htake : ((children.take launched).map (·.1)).Nodup := hnodup.sublist ((take_sublist _ _).map _)
  obtain ⟨hchildren, _, hcount⟩ := @launchChildren_launched _ srv _ r lora htake fun c hc =>
    beq_iff_eq.1 (hidle c.1 (mem_cons_of_mem _ (mem_map.2 ⟨c, hsub c hc, rfl⟩)))
  have heq : launchFamily srv i r lora children launched =
      { launchChildren srv r lora (children.take launched) with
        slots := (launchChildren srv r lora (children.take launched)).slots.map fun slot =>
          if slot.ofFamily r.id then slot.release else slot } := if_neg hfail
  rw [heq]
  refine ⟨SlotsOk.releaseSome (p := fun slot => slot.ofFamily r.id) ?_ ?_, ?_⟩
  · intro slot hmem
    rcases hchildren.mem slot hmem with hmem | hchild
    · exact h.slots.ok slot hmem
    · exact .ofChild hseparated hchild.1
  · intro child hmem hwait hstays
    rcases hchildren.mem child hmem with hmem | ⟨⟨_, id, hctask⟩, _⟩
    · obtain ⟨parent, hparent, hleads⟩ := h.slots.waits child hmem hwait
      have hbusy := BatchSlot.isProcessing_of_active hleads.1
      refine ⟨parent, hchildren.busy parent hparent hbusy, hleads, ?_⟩
      obtain ⟨_, p, c, hp, hc, hid, hisparent, _⟩ := hleads
      have htop := ((h.slots.ok parent hparent).task p hp).1 hisparent
      rw [BatchSlot.ofFamily, hc, Option.any_some, Bool.or_eq_false_iff, hid] at hstays
      rw [BatchSlot.ofFamily, hp, Option.any_some, htop, Bool.or_eq_false_iff]
      exact ⟨hstays.2, rfl⟩
    · rw [BatchSlot.ofFamily, hctask, Option.any_some] at hstays
      simp at hstays
  · cases hlaunched : children.take launched with
    | nil => exact h.empty.imp_right fun ⟨hone, hidle⟩ => ⟨hone, idle_releaseSome hidle⟩
    | cons c rest => exact .inl (hlaunched ▸ hcount (hlaunched ▸ cons_ne_nil c rest))

end

end

section
variable {F : Type} [LinearOrder F] {cfg : BatchConfig} {srv srv' : BatchServer F}

lemma LoopInv.update {it : Iteration} (h : LoopInv cfg srv) (hparents : ProcessesParents it)
    (hgoes : (fillBatch cfg it srv.slots).2.aborted = false) : LoopInv cfg (updateSlots cfg it srv) := by
  unfold updateSlots
  split
  next => exact h
  next hbusy =>
    have hzero : srv.nEmptyConsecutive = 0 := by
      refine h.empty.resolve_right ?_
      rintro ⟨_, hidle⟩
      refine hbusy (all_eq_true.2 ?_)
      intro slot hmem
      rw [BatchSlot.isProcessing, hidle slot hmem]
      rfl
    obtain ⟨hok, hempty⟩ := fillBatch_ok hparents h.slots hgoes
    refine ⟨decodeBatch_ok it hok, ?_⟩
    by_cases hnone : (fillBatch cfg it srv.slots).2.nTokens = 0
    · refine .inr ⟨?_, ?_⟩
      · dsimp only
        rw [hzero, if_pos hnone]
      · dsimp only
        rw [hnone, decodeBatch, if_pos rfl]
        exact hempty hnone
    · exact .inl (if_neg hnone)

theorem LoopInv.step {ev : BatchEvent F} (h : LoopInv cfg srv) (hclient : CancelsFamilies srv ev)
    (haccepts : AcceptsParents cfg ev) (hstep : batchStep cfg srv ev = some srv') : LoopInv cfg srv' := by
  cases ev with
  | launch i r lora children launched =>
    unfold batchStep at hstep
    dsimp only at hstep
    split at hstep
    next hfree =>
      cases hstep
      by_cases hall : children.length < launched
      · exact h.launched hfree haccepts.1 haccepts.2 hall
      · exact h.launchFailed hfree haccepts.1 hall
    next => cases hstep
  | cancel ids =>
    cases hstep
    exact h.cancel hclient
  | update it =>
    unfold batchStep at hstep
    dsimp only at hstep
    split at hstep
    next => cases hstep
    next hgoes =>
      cases hstep
      exact h.update haccepts (Bool.eq_false_iff.2 hgoes)

omit [LinearOrder F] in
lemma LoopInv.of_fresh (h : srv.Fresh) : LoopInv cfg srv := by
  obtain ⟨hzero, hidle⟩ := h
  refine ⟨⟨?_, ?_⟩, .inl hzero⟩
  · intro slot hmem
    obtain ⟨hstate, htask⟩ := hidle slot hmem
    refine .of_state (.inl hstate) ?_
    intro t ht
    rw [htask] at ht
    cases ht
  · intro child hmem hwait
    rw [(hidle child hmem).1] at hwait
    cases hwait

/-- The kill switch has not been reached: `GGML_ABORT` comes with the fourth empty batch in a row. -/
def NotKilled (srv : BatchServer F) : Prop := srv.nEmptyConsecutive ≤ 3

end

def smallConfig : BatchConfig where
  nBatch := 8
  nUbatch := 8
  nCtx := 8
  contBatching := true
  ctxShift := false
  addBos := false
  hasMemory := true
  poolingLast := false
  partialState := false
  nUbatch_pos := by decide
  nUbatch_le := by decide

def plainIteration : Iteration := ⟨fun _ => 0, fun _ => true, fun _ => false, true, fun _ => false⟩

def twoSlots : BatchServer Int := ⟨[⟨.idle, none, 0, [], -1⟩, ⟨.idle, none, 0, [], -1⟩], 0⟩

lemma twoSlots_fresh : twoSlots.Fresh := by
  refine ⟨rfl, ?_⟩
  intro slot hslot
  simp only [twoSlots, mem_cons, not_mem_nil, or_false, or_self] at hslot
  rw [hslot]
  exact ⟨rfl, rfl⟩

/-- A completion with a prompt of `n` tokens. -/
def completionOf (n : Nat) : Request := ⟨0, .completion, n, 0, 0, [], nofun⟩

/-- A request for two completions of a prompt of `n` tokens. -/
def launchTwo (n : Nat) : BatchEvent Int := .launch 0 (completionOf n) [] [(1, 1)] 2

/-- The child waits in its slot; the batch was empty four times. -/
def waitingChild : BatchServer Int :=
  ⟨[⟨.idle, none, 0, [], -1⟩, ⟨.waitOther, some ⟨{ completionOf 8 with id := 1 }, some 0, false⟩, 0, [], -1⟩], 4⟩

/-- A completion with a prompt of six tokens, of which three are a picture. -/
def pictured : Request := ⟨0, .completion, 6, 0, 0, [(1, 3)], by simp⟩

def picturedTwo (state : SlotState) (n : Nat) (childState : SlotState) (nChild : Nat) : BatchServer Int :=
  ⟨[⟨state, some ⟨pictured, none, true⟩, n, [], -1⟩,
    ⟨childState, some ⟨{ pictured with id := 1 }, some 0, false⟩, nChild, [], -1⟩], 0⟩

def waitingOne : BatchSlot Int := ⟨.waitOther, some ⟨{ completionOf 4 with id := 1 }, some 0, false⟩, 0, [], -1⟩

def launchedTwo : BatchServer Int := ⟨[⟨.started, some ⟨completionOf 4, none, true⟩, 0, [], -1⟩, waitingOne], 0⟩

end Mallana.Server
