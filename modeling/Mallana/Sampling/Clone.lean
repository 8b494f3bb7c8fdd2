import Mallana.Lib.Reach
import Mallana.Sampling.Samplers

/-!
# Clones of samplers

Calls are made on a sampler and on its clone. A clone answers as the sampler does when what the source forgets to copy is not
there yet (`CloneKeeps`): the counts of the penalties sampler, and the positions and the remaining budget of the reasoning
budget. The counts of the penalties sampler are those of its window in every state of a run whose clones are of this kind.
-/

namespace Mallana.Sampling

open Mallana.Lib List Bool

namespace Penalties
variable {F : Type} {ctx : Penalties F}

/-- The entry for a token that occurs `n` times. -/
def entry (n : Nat) : Option Int := if n = 0 then none else some n

def Counts (count : LlamaToken → Option Int) (tokens : List LlamaToken) : Prop := ∀ t, count t = entry (tokens.count t)

lemma entry_getD (n : Nat) : (entry n).getD 0 = n := by
  cases n with
  | zero => rfl
  | succ n => rfl

lemma entry_inj {m n : Nat} (h : entry m = entry n) : m = n := by
  have hm := entry_getD m
  rw [h, entry_getD] at hm
  exact Int.ofNat.inj hm.symm

lemma counts_nil : Counts (fun _ => none) [] := fun _ => rfl

lemma Counts.append {count : LlamaToken → Option Int} {tokens : List LlamaToken} (h : Counts count tokens)
    (token : LlamaToken) : Counts (addCount count token 1) (tokens ++ [token]) := by
  intro t
  rw [count_append, addCount]
  split
  next ht =>
    rw [ht, h token, entry_getD, count_singleton_self]
    rfl
  next ht =>
    rw [h t, count_singleton, if_neg (fun e => ht (beq_iff_eq.1 e).symm), add_zero]

lemma addCount_self (count : LlamaToken → Option Int) (token : LlamaToken) (d : Int) :
    addCount count token d token = some ((count token).getD 0 + d) := if_pos rfl

lemma Counts.tail {count : LlamaToken → Option Int} {old : LlamaToken} {tokens : List LlamaToken}
    (h : Counts count (old :: tokens)) : Counts (dropCount count old) tokens := by
  have hself : addCount count old (-1) old = some (tokens.count old : Int) := by
    rw [addCount_self, h old, entry_getD, count_cons_self, Int.natCast_add]
    exact congrArg some (Int.add_neg_cancel_right _ _)
  have hother : ∀ t, t ≠ old → addCount count old (-1) t = entry (tokens.count t) := fun t ht => by
    rw [addCount, if_neg ht, h t, count_cons_of_ne (Ne.symm ht)]
  intro t
  rw [dropCount, hself]
  rcases Nat.eq_zero_or_pos (tokens.count old) with hz | hp
  · rw [if_pos (by rw [hz]; rfl)]
    split
    next ht =>
      rw [ht, hz]
      rfl
    next ht => exact hother t ht
  · have hne : ¬ some (tokens.count old : Int) = some 0 := fun e => by
      injection e with e
      omega
    rw [if_neg hne]
    rcases eq_or_ne t old with rfl | ht
    · rw [hself, entry, if_neg (by omega)]
    · exact hother t ht

/-- The ring buffer holds the window of the accepted tokens, and the map counts it. -/
structure Good (fl : Floats F) (ctx : Penalties F) (accepted : List LlamaToken) : Prop where
  active : isEmpty fl ctx.penaltyRepeat ctx.penaltyFreq ctx.penaltyPresent = false
  window : ctx.prev.toList = lastN ctx.penaltyLastN accepted
  counts : Counts ctx.tokenCount ctx.prev.toList

variable {fl : Floats F} {accepted : List LlamaToken}

lemma init_good {n : Int} {r f p : F} (h : init fl n r f p = some ctx) : Good fl ctx [] := by
  unfold init at h
  split at h
  next hn =>
    split at h
    · cases h
    · next he =>
      cases h
      exact ⟨eq_false_of_not_eq_true he, (lastN_nil _).symm, counts_nil⟩
  · cases h

section
variable (h : Good fl ctx accepted)
include h

lemma Good.accept (token : LlamaToken) : Good fl (ctx.accept token) (accepted ++ [token]) := by
  have hpush := RingBuffer.toList_pushBack ctx.prev token
  refine ⟨h.active, ?_, ?_⟩
  · show (ctx.prev.pushBack token).toList = lastN ctx.prev.capacity (accepted ++ [token])
    rw [hpush, h.window]
    exact lastN_append _ _ _
  · show Counts (if ctx.prev.capacity ≤ ctx.prev.sz then dropCount _ ctx.prev.front else _) (ctx.prev.pushBack token).toList
    have hadd := h.counts.append token
    rcases lt_or_ge ctx.prev.sz ctx.prev.capacity with hlt | hfull
    · rw [if_neg (Nat.not_le.2 hlt), hpush, lastN_of_length_le]
      · exact hadd
      · rw [length_append, RingBuffer.length_toList]
        exact hlt
    · -- the oldest token leaves the window
      have hsz : ctx.prev.sz = ctx.prev.capacity := le_antisymm ctx.prev.sz_le hfull
      obtain ⟨rest, hrest⟩ : ∃ rest, ctx.prev.toList = ctx.prev.front :: rest :=
        head?_eq_some_iff.1 (RingBuffer.front_eq (hsz ▸ ctx.prev.capacity_pos))
      have hlen : rest.length + 1 = ctx.prev.capacity := by
        rw [← hsz, ← RingBuffer.length_toList, hrest, length_cons]
      rw [hrest] at hpush hadd
      have hlast : lastN ctx.prev.capacity (ctx.prev.front :: rest ++ [token]) = rest ++ [token] := by
        rw [lastN, length_append, length_cons, hlen, length_singleton, Nat.add_sub_cancel_left]
        rfl
      rw [if_pos hfull, hpush, hlast]
      exact hadd.tail

lemma Good.reset : Good fl ctx.reset [] :=
  ⟨h.active, (lastN_nil _).symm, counts_nil⟩

lemma Good.clone : ctx.clone fl = some { ctx with tokenCount := fun _ => none } := by
  have hn : 0 < (ctx.penaltyLastN : Int).toNat := ctx.prev.capacity_pos
  rw [Penalties.clone, init, dif_pos hn, h.active]
  rfl

lemma Good.tokenCount_none (hnil : ctx.prev.toList = []) : ctx.tokenCount = fun _ => none := by
  funext t
  rw [h.counts t, hnil]
  rfl

lemma Good.clone_counts_iff : Counts (fun _ => none) (lastN ctx.penaltyLastN accepted) ↔ ctx.prev.sz = 0 := by
  rw [← h.window, ← RingBuffer.length_toList, length_eq_zero_iff]
  constructor
  · intro hc
    refine eq_nil_iff_forall_not_mem.2 fun t ht => ?_
    have hz : 0 = ctx.prev.toList.count t := entry_inj (hc t)
    exact absurd hz.symm (ne_of_gt (List.count_pos_iff.2 ht))
  · intro hnil
    rw [hnil]
    exact counts_nil

end

end Penalties

@[simp] lemma TokenMatcher.reset_reset (m : TokenMatcher) : m.reset.reset = m.reset := rfl

namespace ReasoningBudget
variable {F : Type} {ctx : ReasoningBudget}

/-- The fields that the state does not read are set to their initial values. -/
def live (ctx : ReasoningBudget) : ReasoningBudget :=
  match ctx.state with
  | .idle => { ctx with remaining := 0, forcePos := 0 }
  | .counting => { ctx with startMatcher := ctx.startMatcher.reset, forcePos := 0 }
  | .waitingUtf8 => { ctx with startMatcher := ctx.startMatcher.reset, remaining := 0, forcePos := 0 }
  | .forcing =>
    { ctx with startMatcher := ctx.startMatcher.reset, endMatcher := ctx.endMatcher.reset, remaining := 0 }
  | .done =>
    { ctx with startMatcher := ctx.startMatcher.reset, endMatcher := ctx.endMatcher.reset, remaining := 0, forcePos := 0 }

/-- What a run keeps: no end sequence is matched outside a block, and an empty budget is not counted. -/
structure Good (ctx : ReasoningBudget) : Prop where
  idle : ctx.state = .idle → ctx.endMatcher.pos = 0
  counting : ctx.state = .counting → 0 < ctx.budget

/-- The fields that the clone loses have their initial values, where the state reads them. -/
def CloneKeeps (ctx : ReasoningBudget) : Prop :=
  match ctx.state with
  | .idle => ctx.startMatcher.pos = 0
  | .counting => ctx.endMatcher.pos = 0 ∧ ctx.remaining = ctx.budget
  | .waitingUtf8 => ctx.endMatcher.pos = 0
  | .forcing => ctx.forcePos = 0
  | .done => True

lemma live_accept (ctx : ReasoningBudget) (token : LlamaToken) : (ctx.live.accept token).live = (ctx.accept token).live := by
  obtain ⟨vocab, start, fin, forced, budget, remaining, state, forcePos⟩ := ctx
  cases state with
  | idle =>
    rcases eq_false_or_eq_true (start.advance token).2 with ht | hf
    · rcases Int.lt_or_le 0 budget with hpos | hneg
      · simp [live, accept, acceptIdle, ht, Int.not_le.2 hpos]
      · simp [live, accept, acceptIdle, ht, hneg]
    · simp [live, accept, acceptIdle, hf]
  | counting =>
    rcases eq_false_or_eq_true (fin.advance token).2 with ht | hf
    · simp [live, accept, acceptBlock, ht]
    · rcases Int.lt_or_le 0 (remaining - 1) with hpos | hneg
      · simp [live, accept, acceptBlock, acceptInside, hf, Int.not_le.2 hpos]
      · rcases eq_false_or_eq_true (vocab.all fun piece => utf8IsComplete (piece token)) with hc | hc <;>
          simp [live, accept, acceptBlock, acceptInside, utf8Complete, hf, hneg, hc]
  | waitingUtf8 =>
    rcases eq_false_or_eq_true (fin.advance token).2 with ht | hf
    · simp [live, accept, acceptBlock, ht]
    · rcases eq_false_or_eq_true (vocab.all fun piece => utf8IsComplete (piece token)) with hc | hc <;>
        simp [live, accept, acceptBlock, acceptInside, utf8Complete, hf, hc]
  | forcing => rfl
  | done => rfl

lemma live_apply (fl : Floats F) (ctx : ReasoningBudget) (cur : LlamaTokenDataArray F) :
    (ctx.live.apply fl cur).1.live = (ctx.apply fl cur).1.live ∧ (ctx.live.apply fl cur).2 = (ctx.apply fl cur).2 := by
  obtain ⟨vocab, start, fin, forced, budget, remaining, state, forcePos⟩ := ctx
  cases state with
  | idle => exact ⟨rfl, rfl⟩
  | counting => exact ⟨rfl, rfl⟩
  | waitingUtf8 => exact ⟨rfl, rfl⟩
  | forcing =>
    rcases hget : forced[forcePos]? with - | token
    · simp [live, apply, hget]
    · rcases lt_or_ge (forcePos + 1) forced.length with hlt | hge
      · simp [live, apply, hget, Nat.not_le.2 hlt]
      · simp [live, apply, hget, hge]
  | done => exact ⟨rfl, rfl⟩

lemma live_reset (ctx : ReasoningBudget) : ctx.live.reset.live = ctx.reset.live := by
  obtain ⟨_, _, _, _, _, _, state, _⟩ := ctx
  cases state <;> rfl

lemma initState_good {vocab : Option (LlamaToken → Tokenizer.Str)} {start fin forced : List LlamaToken} {budget : Int}
    {state : ReasoningBudgetState} : Good (initState vocab start fin forced budget state) := by
  refine ⟨fun _ => rfl, fun h => ?_⟩
  rcases Int.lt_or_le 0 budget with hpos | hneg
  · exact hpos
  · cases state <;> simp [initState, hneg] at h

lemma Good.accept (h : Good ctx) (token : LlamaToken) : Good (ctx.accept token) := by
  obtain ⟨vocab, start, fin, forced, budget, remaining, state, forcePos⟩ := ctx
  cases state with
  | idle =>
    simp only [ReasoningBudget.accept, acceptIdle]
    cases (start.advance token).2 with
    | false => exact ⟨fun _ => h.idle rfl, nofun⟩
    | true =>
      rcases Int.lt_or_le 0 budget with hpos | hneg
      · simp only [if_true, if_neg (Int.not_le.2 hpos)]
        exact ⟨nofun, fun _ => hpos⟩
      · simp only [if_true, if_pos hneg]
        exact ⟨nofun, nofun⟩
  | counting =>
    simp only [ReasoningBudget.accept, acceptBlock, acceptInside]
    cases (fin.advance token).2 with
    | true => exact ⟨nofun, nofun⟩
    | false =>
      rcases Int.lt_or_le 0 (remaining - 1) with hpos | hneg
      · simp only [if_neg (Int.not_le.2 hpos)]
        exact ⟨nofun, fun _ => h.counting rfl⟩
      · simp only [if_pos hneg]
        cases utf8Complete _ token <;> exact ⟨nofun, nofun⟩
  | waitingUtf8 =>
    simp only [ReasoningBudget.accept, acceptBlock, acceptInside]
    cases (fin.advance token).2 with
    | true => exact ⟨nofun, nofun⟩
    | false => cases utf8Complete _ token <;> exact ⟨nofun, nofun⟩
  | forcing => exact h
  | done => exact h

lemma Good.apply (h : Good ctx) (fl : Floats F) (cur : LlamaTokenDataArray F) : Good (ctx.apply fl cur).1 := by
  unfold ReasoningBudget.apply
  split
  next hs =>
    split
    · exact h
    · refine ⟨fun hi => ?_, fun hc => ?_⟩
      · rw [hs] at hi
        split at hi <;> cases hi
      · rw [hs] at hc
        split at hc <;> cases hc
  next => exact h

lemma Good.reset : Good ctx.reset := ⟨fun _ => rfl, nofun⟩

lemma Good.live_clone (h : Good ctx) (keeps : CloneKeeps ctx) : ctx.clone.live = ctx.live := by
  obtain ⟨vocab, start, fin, forced, budget, remaining, state, forcePos⟩ := ctx
  obtain ⟨startTokens, startPos⟩ := start
  obtain ⟨endTokens, endPos⟩ := fin
  cases state with
  | idle =>
    obtain rfl : startPos = 0 := keeps
    obtain rfl : endPos = 0 := h.idle rfl
    rfl
  | counting =>
    obtain rfl : endPos = 0 := keeps.1
    obtain rfl : remaining = budget := keeps.2
    have hpos : ¬ remaining ≤ 0 := Int.not_le.2 (h.counting rfl)
    simp only [clone, initState, if_neg fun hc : _ ∧ _ => hpos hc.2]
    rfl
  | waitingUtf8 =>
    obtain rfl : endPos = 0 := keeps
    rfl
  | forcing =>
    obtain rfl : forcePos = 0 := keeps
    rfl
  | done => rfl

end ReasoningBudget

namespace Dry
variable {F : Type} {fl : Floats F} {ctx : Dry F}

def Good (fl : Floats F) (ctx : Dry F) : Prop := enabled fl ctx.dryMultiplier ctx.dryBase ctx.dryPenaltyLastN = true

lemma init_good {n : Nat} {m b : F} {a l : Int} {br : List (LlamaToken × List LlamaToken)}
    (h : init fl n m b a l br = some ctx) : Good fl ctx := by
  unfold init at h
  simp only [] at h
  split at h
  next he =>
    cases h
    exact he
  next => cases h

lemma Good.accept {ctx' : Dry F} {token : LlamaToken} (h : Good fl ctx) (ha : ctx.accept fl token = some ctx') :
    Good fl ctx' := by
  unfold Dry.accept at ha
  split at ha
  · cases ha
    exact h
  · obtain ⟨r, -, rfl⟩ := Option.map_eq_some_iff.1 ha
    exact h

lemma Good.apply (h : Good fl ctx) (cur : LlamaTokenDataArray F) : Good fl (ctx.apply fl cur).1 := by
  unfold Dry.apply
  split
  · exact h
  · simp only []
    split
    · exact h
    · split <;> exact h

lemma Good.clone (h : Good fl ctx) : ctx.clone fl = some ctx := by
  have he : enabled fl ctx.dryMultiplier ctx.dryBase ctx.dryPenaltyLastN = true := h
  rw [Dry.clone, init, if_pos he]
  rfl

end Dry

/-- The calls on a sampler. -/
inductive Call (F : Type) where
  | accept (token : LlamaToken)
  | apply (cur : LlamaTokenDataArray F)
  | reset

variable {F : Type} {fl : Floats F}

/-- What the calls return: the arrays as `apply` leaves them, and nothing where a call throws, which is the last one. -/
def outputs (fl : Floats F) : List (Call F) → Sampler F → List (Option (LlamaTokenDataArray F))
  | [], _ => []
  | .accept token :: calls, s => (s.accept fl token).elim [none] (outputs fl calls)
  | .apply cur :: calls, s => some (s.apply fl cur).2 :: outputs fl calls (s.apply fl cur).1
  | .reset :: calls, s => outputs fl calls s.reset

/-- A sampler and the tokens that it accepted since it was made or reset. -/
structure Traced (F : Type) where
  sampler : Sampler F
  accepted : List LlamaToken

namespace Sampler

/-- The count of every token is the number of times that it is among the last `penalty_last_n` accepted ones, and the others
have no entry. -/
def CountsWindow (accepted : List LlamaToken) : Sampler F → Prop
  | penalties ctx => Penalties.Counts ctx.tokenCount (lastN ctx.penaltyLastN accepted)
  | dry _ => True
  | reasoningBudget _ => True

/-- The state that a clone does not copy is still the initial one. -/
def CloneKeeps : Sampler F → Prop
  | penalties ctx => ctx.prev.sz = 0
  | dry _ => True
  | reasoningBudget ctx => ctx.CloneKeeps

def Good (fl : Floats F) (accepted : List LlamaToken) : Sampler F → Prop
  | penalties ctx => ctx.Good fl accepted
  | dry ctx => ctx.Good fl
  | reasoningBudget ctx => ctx.Good

variable {s s' : Sampler F} {accepted : List LlamaToken}

lemma Good.countsWindow (h : s.Good fl accepted) : s.CountsWindow accepted := by
  cases s with
  | penalties ctx =>
    show Penalties.Counts _ (lastN _ accepted)
    rw [← h.window]
    exact h.counts
  | dry ctx => trivial
  | reasoningBudget ctx => trivial

lemma Good.accept {token : LlamaToken} (h : s.Good fl accepted) (ha : s.accept fl token = some s') :
    s'.Good fl (accepted ++ [token]) := by
  cases s with
  | penalties ctx =>
    cases ha
    exact Penalties.Good.accept h token
  | dry ctx =>
    obtain ⟨ctx', hctx, rfl⟩ := Option.map_eq_some_iff.1 ha
    exact Dry.Good.accept h hctx
  | reasoningBudget ctx =>
    cases ha
    exact ReasoningBudget.Good.accept h token

lemma Good.apply (h : s.Good fl accepted) (cur : LlamaTokenDataArray F) : (s.apply fl cur).1.Good fl accepted := by
  cases s with
  | penalties ctx => exact h
  | dry ctx => exact Dry.Good.apply h cur
  | reasoningBudget ctx => exact ReasoningBudget.Good.apply h fl cur

lemma Good.reset (h : s.Good fl accepted) : s.reset.Good fl [] := by
  cases s with
  | penalties ctx => exact Penalties.Good.reset h
  | dry ctx => exact h
  | reasoningBudget ctx => exact ReasoningBudget.Good.reset

/-- A sampler without the fields that its state does not read. -/
def live : Sampler F → Sampler F
  | penalties ctx => penalties ctx
  | dry ctx => dry ctx
  | reasoningBudget ctx => reasoningBudget ctx.live

lemma live_accept (s : Sampler F) (token : LlamaToken) :
    (s.live.accept fl token).map live = (s.accept fl token).map live := by
  cases s with
  | penalties ctx => rfl
  | dry ctx => rfl
  | reasoningBudget ctx => exact congrArg (fun ctx => some (reasoningBudget ctx)) (ctx.live_accept token)

lemma live_apply (s : Sampler F) (cur : LlamaTokenDataArray F) :
    (s.live.apply fl cur).1.live = (s.apply fl cur).1.live ∧ (s.live.apply fl cur).2 = (s.apply fl cur).2 := by
  cases s with
  | penalties ctx => exact ⟨rfl, rfl⟩
  | dry ctx => exact ⟨rfl, rfl⟩
  | reasoningBudget ctx =>
    obtain ⟨hctx, hout⟩ := ctx.live_apply fl cur
    exact ⟨congrArg reasoningBudget hctx, hout⟩

lemma live_reset (s : Sampler F) : s.live.reset.live = s.reset.live := by
  cases s with
  | penalties ctx => rfl
  | dry ctx => rfl
  | reasoningBudget ctx => exact congrArg reasoningBudget ctx.live_reset

lemma Good.clone (h : s.Good fl accepted) (keeps : s.CloneKeeps) :
    ∃ c, s.clone fl = some c ∧ c.live = s.live ∧ c.Good fl accepted := by
  cases s with
  | penalties ctx =>
    have hnil : ctx.prev.toList = [] := eq_nil_of_length_eq_zero (RingBuffer.length_toList.trans keeps)
    refine ⟨penalties ctx, ?_, rfl, h⟩
    rw [Sampler.clone, Penalties.Good.clone h, ← Penalties.Good.tokenCount_none h hnil]
    rfl
  | dry ctx =>
    refine ⟨dry ctx, ?_, rfl, h⟩
    rw [Sampler.clone, Dry.Good.clone h]
    rfl
  | reasoningBudget ctx =>
    exact ⟨reasoningBudget ctx.clone, rfl, congrArg reasoningBudget (ReasoningBudget.Good.live_clone h keeps),
      ReasoningBudget.initState_good⟩

end Sampler

lemma outputs_eq_of_live (calls : List (Call F)) : ∀ {s c : Sampler F}, c.live = s.live →
    outputs fl calls c = outputs fl calls s := by
  induction calls with
  | nil => exact fun _ => rfl
  | cons call calls ih =>
    intro s c h
    cases call with
    | accept token =>
      have hmap : (c.accept fl token).map Sampler.live = (s.accept fl token).map Sampler.live := by
        rw [← c.live_accept, h, s.live_accept]
      simp only [outputs]
      rcases hc : c.accept fl token with - | c'
      · rw [hc] at hmap
        rw [Option.map_eq_none_iff.1 hmap.symm]
      · rw [hc] at hmap
        obtain ⟨s', hs, hlive⟩ := Option.map_eq_some_iff.1 hmap.symm
        rw [hs]
        exact ih hlive.symm
    | apply cur =>
      have hctx : (c.apply fl cur).1.live = (s.apply fl cur).1.live := by
        rw [← (c.live_apply cur).1, h, (s.live_apply cur).1]
      have hout : (c.apply fl cur).2 = (s.apply fl cur).2 := by
        rw [← (c.live_apply cur).2, h, (s.live_apply cur).2]
      simp only [outputs]
      rw [hout, ih hctx]
    | reset =>
      simp only [outputs]
      exact ih (by rw [← c.live_reset, h, s.live_reset])

/-- The active samplers, as their `init` functions make them. -/
inductive Started (fl : Floats F) : Traced F → Prop where
  | penalties {n : Int} {r f p : F} {ctx : Penalties F} (h : Penalties.init fl n r f p = some ctx) :
    Started fl ⟨.penalties ctx, []⟩
  | dry {n : Nat} {m b : F} {a l : Int} {breakers : List (LlamaToken × List LlamaToken)} {ctx : Dry F}
    (h : Dry.init fl n m b a l breakers = some ctx) : Started fl ⟨.dry ctx, []⟩
  | reasoningBudget (vocab : Option (LlamaToken → Tokenizer.Str)) (startTokens endTokens forcedTokens : List LlamaToken)
    (budget : Int) (state : ReasoningBudgetState) :
    Started fl ⟨.reasoningBudget (ReasoningBudget.initState vocab startTokens endTokens forcedTokens budget state), []⟩

/-- A call, or going on with a clone of a sampler whose state the clone keeps. -/
inductive Step (fl : Floats F) : Traced F → Option (Call F) → Traced F → Prop where
  | accept {g : Traced F} {token : LlamaToken} {s' : Sampler F} (h : g.sampler.accept fl token = some s') :
    Step fl g (some (.accept token)) ⟨s', g.accepted ++ [token]⟩
  | apply {g : Traced F} (cur : LlamaTokenDataArray F) :
    Step fl g (some (.apply cur)) ⟨(g.sampler.apply fl cur).1, g.accepted⟩
  | reset {g : Traced F} : Step fl g (some .reset) ⟨g.sampler.reset, []⟩
  | clone {g : Traced F} {c : Sampler F} (keeps : g.sampler.CloneKeeps) (h : g.sampler.clone fl = some c) :
    Step fl g none ⟨c, g.accepted⟩

lemma Started.good {g : Traced F} (h : Started fl g) : g.sampler.Good fl g.accepted := by
  cases h with
  | penalties h => exact Penalties.init_good h
  | dry h => exact Dry.init_good h
  | reasoningBudget => exact ReasoningBudget.initState_good

lemma Step.good {g g' : Traced F} {i : Option (Call F)} (h : Step fl g i g') (hg : g.sampler.Good fl g.accepted) :
    g'.sampler.Good fl g'.accepted := by
  cases h with
  | accept h => exact hg.accept h
  | apply cur => exact hg.apply cur
  | reset => exact hg.reset
  | clone keeps h =>
    obtain ⟨c, hc, -, hgood⟩ := hg.clone keeps
    obtain rfl := Option.some.inj (h.symm.trans hc)
    exact hgood

lemma good_of_reach {g : Traced F} (h : Reach (Started fl) (Step fl) g) : g.sampler.Good fl g.accepted :=
  h.invariant (fun _ => Started.good) fun _ _ _ hg hstep => hstep.good hg

/-- In every state of a run the counts of a penalties sampler are those of its window, and a clone that loses nothing has
the right counts and answers every sequence of calls as its original. The counts of the clone of a penalties sampler are
right in no other case. -/
theorem clone_outputs {g : Traced F} (h : Reach (Started fl) (Step fl) g) : g.sampler.CountsWindow g.accepted ∧
    (g.sampler.CloneKeeps → ∃ c, g.sampler.clone fl = some c ∧ c.CountsWindow g.accepted ∧
      ∀ calls, outputs fl calls c = outputs fl calls g.sampler) ∧
    ∀ ctx c, g.sampler = .penalties ctx → g.sampler.clone fl = some c → (c.CountsWindow g.accepted ↔ ctx.prev.sz = 0) := by
  have hg := good_of_reach h
  refine ⟨hg.countsWindow, fun keeps => ?_, fun ctx c hs hc => ?_⟩
  · obtain ⟨c, hc, hlive, hgood⟩ := hg.clone keeps
    exact ⟨c, hc, hgood.countsWindow, fun calls => outputs_eq_of_live calls hlive⟩
  · rw [hs] at hg hc
    have hctx : ctx.Good fl g.accepted := hg
    rw [Sampler.clone, hctx.clone] at hc
    cases hc
    exact hctx.clone_counts_iff

/-! A reasoning budget of two tokens that has just been opened by its start token, the second one. -/

/-- Integers with no rounding; the samplers below need no powers. -/
def intFloats : Floats Int where
  zero := 0
  one := 1
  negInfinity := -1000000
  mul := (· * ·)
  div := (· / ·)
  add := (· + ·)
  sub := (· - ·)
  beq := (· == ·)
  le := fun a b => decide (a ≤ b)
  lt := fun a b => decide (a < b)
  ofInt := id
  pow := fun _ _ => 1
  maxExponent := fun _ => 0

def opened : ReasoningBudget := ((ReasoningBudget.initState none [3] [4] [8, 4] 2 .idle).accept 5).accept 3

lemma reach_opened : Reach (Started intFloats) (Step intFloats) ⟨.reasoningBudget opened, [5, 3]⟩ :=
  .step (.step (.init (.reasoningBudget none [3] [4] [8, 4] 2 .idle)) (.accept rfl)) (.accept rfl)

theorem clone_outputs_opened : opened.state = .counting ∧
    (Sampler.reasoningBudget opened : Sampler Int).CountsWindow [5, 3] ∧
    (∃ c, (Sampler.reasoningBudget opened).clone intFloats = some c ∧ c.CountsWindow [5, 3] ∧
      ∀ calls, outputs intFloats calls c = outputs intFloats calls (.reasoningBudget opened)) := by
  have h := clone_outputs reach_opened
  exact ⟨rfl, h.1, h.2.1 ⟨rfl, rfl⟩⟩

/-! A penalties sampler that accepted token 7, and a reasoning budget that has forced one of its two tokens. -/

def counted : Penalties Int :=
  ⟨1, 1, 0, (RingBuffer.new 2 (Nat.succ_pos 1)).pushBack 7, Penalties.addCount (fun _ => none) 7 1⟩

lemma reach_counted : Reach (Started intFloats) (Step intFloats) ⟨.penalties counted, [7]⟩ :=
  .step (.init (.penalties (n := 2) (r := 1) (f := 1) (p := 0) rfl)) (.accept rfl)

def halfForced : ReasoningBudget :=
  (((ReasoningBudget.initState none [3] [4] [8, 4] 0 .counting).apply intFloats ⟨[], false⟩).1)

/-- The clone of the first has no count for token 7 and leaves its logit as it is; the clone of the second forces the first
token again. -/
theorem clone_forgets :
    ¬ (∀ g : Traced Int, Reach (Started intFloats) (Step intFloats) g → ∃ c, g.sampler.clone intFloats = some c ∧
        c.CountsWindow g.accepted ∧ ∀ calls, outputs intFloats calls c = outputs intFloats calls g.sampler) ∧
    (Sampler.penalties counted).clone intFloats = some (.penalties { counted with tokenCount := fun _ => none }) ∧
    outputs intFloats [.apply ⟨[⟨7, 5⟩], false⟩] (.penalties counted) ≠
      outputs intFloats [.apply ⟨[⟨7, 5⟩], false⟩] (.penalties { counted with tokenCount := fun _ => none }) ∧
    outputs intFloats [.apply ⟨[⟨4, 5⟩], false⟩] (.reasoningBudget halfForced) ≠
      outputs intFloats [.apply ⟨[⟨4, 5⟩], false⟩] (.reasoningBudget halfForced.clone) := by
  refine ⟨fun h => ?_, rfl, by decide, by decide⟩
  obtain ⟨c, hc, hcounts, -⟩ := h _ reach_counted
  cases hc
  exact absurd (hcounts 7) (by decide)

/-- The arrays that `apply` is called with. -/
def applied : List (Call F) → List (LlamaTokenDataArray F)
  | [] => []
  | .apply cur :: calls => cur :: applied calls
  | _ :: calls => applied calls

/-- Only the forced token keeps its logit. -/
def forcedTo (fl : Floats F) (cur : LlamaTokenDataArray F) : Option LlamaToken → LlamaTokenDataArray F
  | none => cur
  | some forced =>
    { cur with data := cur.data.map fun d => if d.id = forced then d else { d with logit := fl.negInfinity } }

/-- Once a block is to be closed, whatever is accepted, each `apply` forces the next of the forced tokens, every one of them once,
and when none is left nothing is forced. -/
theorem outputs_forced {ctx : ReasoningBudget} {calls : List (Call F)} (hreset : .reset ∉ calls)
    (h : ctx.state = .forcing ∨ ctx.state = .done ∧ ctx.forcedTokens.length ≤ ctx.forcePos) :
    outputs fl calls (.reasoningBudget ctx) =
      (applied calls).mapIdx fun k cur => some (forcedTo fl cur ctx.forcedTokens[ctx.forcePos + k]?) := by
  induction calls generalizing ctx with
  | nil => rfl
  | cons call calls ih =>
    obtain ⟨hcall, hrest⟩ := not_or.1 (mem_cons.not.1 hreset)
    cases call with
    | accept token =>
      have hsame : ctx.accept token = ctx := by
        rcases h with h | h
        · simp only [ReasoningBudget.accept, h]
        · simp only [ReasoningBudget.accept, h.1]
      show outputs fl calls (.reasoningBudget (ctx.accept token)) = _
      rw [hsame]
      exact ih hrest h
    | apply cur =>
      show some (ctx.apply fl cur).2 :: outputs fl calls (.reasoningBudget (ctx.apply fl cur).1) = _
      rw [applied, mapIdx_cons, add_zero]
      rcases hget : ctx.forcedTokens[ctx.forcePos]? with - | forced
      · have happly : ctx.apply fl cur = (ctx, cur) := by
          unfold ReasoningBudget.apply
          split
          · rw [hget]
          · rfl
        have hle := getElem?_eq_none_iff.1 hget
        rw [happly, ih hrest h]
        congr 2
        funext k cur
        rw [getElem?_eq_none (by omega), getElem?_eq_none (by omega)]
      · rcases h with h | ⟨-, hle⟩
        · have happly : ctx.apply fl cur = ({ ctx with
              forcePos := ctx.forcePos + 1
              state := if ctx.forcedTokens.length ≤ ctx.forcePos + 1 then .done else ctx.state }, forcedTo fl cur (some forced)) := by
            unfold ReasoningBudget.apply
            rw [if_pos h, hget]
            rfl
          rw [happly, ih hrest]
          · simp only [add_assoc, add_comm 1]
          · rcases lt_or_ge (ctx.forcePos + 1) ctx.forcedTokens.length with hlt | hle
            · exact .inl ((if_neg (Nat.not_le.2 hlt)).trans h)
            · exact .inr ⟨if_pos hle, hle⟩
        · rw [getElem?_eq_none hle] at hget
          cases hget
    | reset => exact absurd rfl hcall

theorem outputs_forced_two : outputs intFloats [.apply ⟨[⟨4, 5⟩, ⟨8, 5⟩], false⟩, .accept 8, .apply ⟨[⟨4, 5⟩, ⟨8, 5⟩], false⟩, .accept 4,
    .apply ⟨[⟨4, 5⟩, ⟨8, 5⟩], false⟩] (.reasoningBudget (.initState none [3] [4] [8, 4] 0 .counting)) =
      [some ⟨[⟨4, -1000000⟩, ⟨8, 5⟩], false⟩, some ⟨[⟨4, 5⟩, ⟨8, -1000000⟩], false⟩, some ⟨[⟨4, 5⟩, ⟨8, 5⟩], false⟩] :=
  outputs_forced (by simp) (.inl rfl)

end Mallana.Sampling
