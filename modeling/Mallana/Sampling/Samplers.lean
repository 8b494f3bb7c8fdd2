import Mallana.Lib.RingBuffer
import Mallana.Tokenizer.Basic

/-!
# Samplers with a memory

The penalties, DRY and reasoning-budget samplers. Each has a context that `accept` feeds with the tokens that were chosen,
an `apply` that changes the logits of the candidates, a `reset`, and a `clone` that builds a new sampler from the parameters
and copies some of the context. `init` gives no context where the source returns the empty sampler.

The operations of floats are a parameter. Reading a ring buffer beyond its size throws in the source; the loops below never
do, since they stay under `last_n_repeat`, which is at most the size.
-/

namespace Mallana.Sampling

open Mallana.Lib
open Mallana.Tokenizer (Str)

abbrev LlamaToken := Int

/-- The operations on floats that the samplers use. -/
structure Floats (F : Type) where
  zero : F
  one : F
  negInfinity : F
  mul : F → F → F
  div : F → F → F
  add : F → F → F
  sub : F → F → F
  beq : F → F → Bool
  le : F → F → Bool
  lt : F → F → Bool
  ofInt : Int → F
  /-- `std::pow` of a float and an integer. -/
  pow : F → Int → F
  /-- `FLOAT_MAX_LOG / std::log(base)` for a base above 1.000001, and 0 for others. -/
  maxExponent : F → Int

structure LlamaTokenData (F : Type) where
  id : LlamaToken
  logit : F
deriving DecidableEq, Repr

structure LlamaTokenDataArray (F : Type) where
  data : List (LlamaTokenData F)
  sorted : Bool
deriving DecidableEq, Repr

structure Penalties (F : Type) where
  penaltyRepeat : F
  penaltyFreq : F
  penaltyPresent : F
  /-- The accepted tokens; the capacity is `penalty_last_n`. -/
  prev : RingBuffer LlamaToken
  /-- The frequency map: what `find` returns. -/
  tokenCount : LlamaToken → Option Int

namespace Penalties
variable {F : Type}

def penaltyLastN (ctx : Penalties F) : Nat := ctx.prev.capacity

/-- `token_count[token] += d`: a missing entry counts as 0. -/
def addCount (count : LlamaToken → Option Int) (token : LlamaToken) (d : Int) : LlamaToken → Option Int :=
  fun t => if t = token then some ((count token).getD 0 + d) else count t

def dropCount (count : LlamaToken → Option Int) (old : LlamaToken) : LlamaToken → Option Int :=
  if addCount count old (-1) old = some 0 then fun t => if t = old then none else addCount count old (-1) t
  else addCount count old (-1)

def accept (ctx : Penalties F) (token : LlamaToken) : Penalties F :=
  let count := addCount ctx.tokenCount token 1
  { ctx with
    tokenCount := if ctx.penaltyLastN ≤ ctx.prev.sz then dropCount count ctx.prev.front else count
    prev := ctx.prev.pushBack token }

/-- The new logit of a candidate that occurs `count` times. -/
def penalise (fl : Floats F) (ctx : Penalties F) (logit : F) (count : Int) : F :=
  let scaled := if fl.le logit fl.zero then fl.mul logit ctx.penaltyRepeat else fl.div logit ctx.penaltyRepeat
  fl.sub scaled (fl.add (fl.mul (fl.ofInt count) ctx.penaltyFreq)
    (fl.mul (fl.ofInt (if 0 < count then 1 else 0)) ctx.penaltyPresent))

def isEmpty (fl : Floats F) (penaltyRepeat penaltyFreq penaltyPresent : F) : Bool :=
  fl.beq penaltyRepeat fl.one && fl.beq penaltyFreq fl.zero && fl.beq penaltyPresent fl.zero

def apply (fl : Floats F) (ctx : Penalties F) (cur : LlamaTokenDataArray F) : LlamaTokenDataArray F :=
  if isEmpty fl ctx.penaltyRepeat ctx.penaltyFreq ctx.penaltyPresent then cur else
    { data := cur.data.map fun d => match ctx.tokenCount d.id with
        | none => d
        | some count => { d with logit := penalise fl ctx d.logit count }
      sorted := false }

def reset (ctx : Penalties F) : Penalties F := { ctx with prev := ctx.prev.clear, tokenCount := fun _ => none }

/-- The parameters of an active sampler: `penalty_last_n` is positive, and some penalty is set. -/
def init (fl : Floats F) (penaltyLastN : Int) (penaltyRepeat penaltyFreq penaltyPresent : F) : Option (Penalties F) :=
  if h : 0 < penaltyLastN.toNat then
    if isEmpty fl penaltyRepeat penaltyFreq penaltyPresent then none else
      some { penaltyRepeat, penaltyFreq, penaltyPresent, prev := RingBuffer.new penaltyLastN.toNat h, tokenCount := fun _ => none }
  else none

/-- A new sampler from the same parameters, to which the ring buffer is copied. -/
def clone (fl : Floats F) (ctx : Penalties F) : Option (Penalties F) :=
  (init fl ctx.penaltyLastN ctx.penaltyRepeat ctx.penaltyFreq ctx.penaltyPresent).map fun result =>
    { result with prev := ctx.prev }

end Penalties

structure Dry (F : Type) where
  totalContextSize : Nat
  dryMultiplier : F
  dryBase : F
  dryAllowedLength : Int
  dryPenaltyLastN : Int
  /-- The entries of the multimap: the first token of a breaker and the others. -/
  dryProcessedBreakers : List (LlamaToken × List LlamaToken)
  dryRepeatCount : List Int
  dryMaxTokenRepeat : LlamaToken → Option Int
  /-- The accepted tokens; a buffer of capacity 0 is `none`. -/
  lastTokens : Option (RingBuffer LlamaToken)

namespace Dry
variable {F : Type}

def enabled (fl : Floats F) (dryMultiplier dryBase : F) (dryPenaltyLastN : Int) : Bool :=
  !fl.beq dryMultiplier fl.zero && fl.le fl.one dryBase && dryPenaltyLastN != 0

/-- The window; `-1` stands for the whole context. -/
def effectiveLastN (totalContextSize : Nat) (dryPenaltyLastN : Int) : Nat :=
  if dryPenaltyLastN = -1 then totalContextSize else dryPenaltyLastN.toNat

def off (fl : Floats F) (ctx : Dry F) : Bool :=
  fl.beq ctx.dryMultiplier fl.zero || fl.lt ctx.dryBase fl.one || ctx.dryPenaltyLastN == 0

/-- `push_back` throws on a buffer of capacity 0. -/
def accept (fl : Floats F) (ctx : Dry F) (token : LlamaToken) : Option (Dry F) :=
  if off fl ctx then some ctx else
    ctx.lastTokens.map fun r => { ctx with lastTokens := some (r.pushBack token) }

def tails (ctx : Dry F) (token : LlamaToken) : List (List LlamaToken) :=
  (ctx.dryProcessedBreakers.filter fun b => b.1 == token).map Prod.snd

section
variable (rat : Nat → LlamaToken)

/-- The tail of a breaker follows its head at `i`: it has at most `i` tokens and they are the ones after it. -/
def tailAt (i : Nat) (tail : List LlamaToken) : Bool :=
  tail.length ≤ i && (List.range tail.length).all fun offset => tail.getD offset 0 == rat (i - offset - 1)

/-- The length of the longest tail at `i`, `-1` without one. -/
def longestMatch (i : Nat) (tails : List (List LlamaToken)) : Int :=
  tails.foldl (fun longest tail => if longest < tail.length && tailAt rat i tail then tail.length else longest) (-1)

/-- The first restart sequence from the end of the window bounds the repetition. -/
def repLimit (tailsOf : LlamaToken → List (List LlamaToken)) (lastNRepeat : Nat) : Nat → Nat → Int
  | 0, _ => lastNRepeat
  | more + 1, i =>
    let longest := longestMatch rat i (tailsOf (rat i))
    if 0 ≤ longest then i - longest else repLimit tailsOf lastNRepeat more (i + 1)

/-- The `while` loops: go on from `i` while the tokens at `i` and at `i - k` agree, inside the window. -/
def extend (lastNRepeat k : Nat) : Nat → Nat → Nat
  | 0, i => i
  | more + 1, i => if i < lastNRepeat ∧ rat i = rat (i - k) then extend lastNRepeat k more (i + 1) else i

/-- One round of the Z-algorithm over the repeat counts and the box from `lt` to `rt`. -/
def zRound (lastNRepeat : Nat) (limit : Int) (z : List Int × Int × Int) (k : Nat) : List Int × Int × Int :=
  let (counts, rt, lt) := z
  let last := lastNRepeat - 1
  if rt < k then
    let n : Int := extend rat lastNRepeat k lastNRepeat k - k
    (counts.set (last - k) (min n limit), if 0 < n then k + n - 1 else rt, if 0 < n then k else lt)
  else
    let p := k - lt.toNat
    let rightPartLen := rt - k + 1
    if counts.getD (last - p) 0 < rightPartLen then
      (counts.set (last - k) (min (counts.getD (last - p) 0) limit), rt, lt)
    else
      let i : Int := extend rat lastNRepeat k lastNRepeat (rt.toNat + 1)
      (counts.set (last - k) (min (i - k) limit), i - 1, k)

/-- How far the end of the window repeats at each earlier place. -/
def repeatCounts (lastNRepeat : Nat) (limit : Int) : List Int :=
  ((List.range' 1 (lastNRepeat - 1)).foldl (zRound rat lastNRepeat limit) (List.replicate lastNRepeat 0, 0, 0)).1

def maxRepeats (allowedLength : Int) (lastNRepeat : Nat) (counts : List Int) : LlamaToken → Option Int :=
  (List.range (lastNRepeat - 1)).foldl (fun repeats i =>
    let token := rat (lastNRepeat - 2 - i)
    let repeatLen := counts.getD i 0
    if allowedLength ≤ repeatLen ∧ (repeats token).all fun n => n < repeatLen then
      fun t => if t = token then some repeatLen else repeats t
    else repeats) fun _ => none

end

/-- What is taken from a logit for a repetition of `repeatLen` tokens. -/
def penalty (fl : Floats F) (ctx : Dry F) (repeatLen : Int) : F :=
  let maxExponent := fl.maxExponent ctx.dryBase
  let repeatExp := repeatLen - ctx.dryAllowedLength
  fl.mul ctx.dryMultiplier
    (fl.pow ctx.dryBase (if 0 < maxExponent ∧ maxExponent < repeatExp then maxExponent else repeatExp))

/-- Step 4: a token that is a breaker by itself keeps its logit. -/
def penalise (fl : Floats F) (ctx : Dry F) (d : LlamaTokenData F) : LlamaTokenData F :=
  match ctx.dryMaxTokenRepeat d.id with
  | none => d
  | some repeatLen =>
    if (ctx.tails d.id).any List.isEmpty then d else { d with logit := fl.sub d.logit (penalty fl ctx repeatLen) }

def apply (fl : Floats F) (ctx : Dry F) (cur : LlamaTokenDataArray F) : Dry F × LlamaTokenDataArray F :=
  if off fl ctx then (ctx, cur) else
  let size := ctx.lastTokens.elim 0 RingBuffer.sz
  let rat := fun i => ctx.lastTokens.elim 0 fun r => r.rat i
  let lastNRepeat := min (min size (effectiveLastN ctx.totalContextSize ctx.dryPenaltyLastN)) ctx.totalContextSize
  if (lastNRepeat : Int) ≤ ctx.dryAllowedLength then (ctx, cur) else
    let limit := repLimit rat ctx.tails lastNRepeat lastNRepeat 0
    if limit < ctx.dryAllowedLength then
      ({ ctx with dryRepeatCount := List.replicate lastNRepeat 0, dryMaxTokenRepeat := fun _ => none }, cur)
    else
      let counts := repeatCounts rat lastNRepeat limit
      let ctx' := { ctx with
        dryRepeatCount := counts
        dryMaxTokenRepeat := maxRepeats rat ctx.dryAllowedLength lastNRepeat counts }
      (ctx', { data := cur.data.map (penalise fl ctx'), sorted := false })

def reset (ctx : Dry F) : Dry F :=
  { ctx with lastTokens := ctx.lastTokens.map RingBuffer.clear, dryRepeatCount := [], dryMaxTokenRepeat := fun _ => none }

/-- `dryProcessedBreakers` is what the processing of the breaker strings gives. -/
def init (fl : Floats F) (totalContextSize : Nat) (dryMultiplier dryBase : F) (dryAllowedLength dryPenaltyLastN : Int)
    (dryProcessedBreakers : List (LlamaToken × List LlamaToken)) : Option (Dry F) :=
  let lastN := effectiveLastN totalContextSize dryPenaltyLastN
  if enabled fl dryMultiplier dryBase dryPenaltyLastN then
    some { totalContextSize, dryMultiplier, dryBase, dryAllowedLength, dryPenaltyLastN, dryProcessedBreakers
           dryRepeatCount := List.replicate lastN 0
           dryMaxTokenRepeat := fun _ => none
           lastTokens := if h : 0 < lastN then some (RingBuffer.new lastN h) else none }
  else none

/-- A sampler without breakers from the same parameters, to which the breakers and the state are copied. -/
def clone (fl : Floats F) (ctx : Dry F) : Option (Dry F) :=
  (init fl ctx.totalContextSize ctx.dryMultiplier ctx.dryBase ctx.dryAllowedLength ctx.dryPenaltyLastN []).map fun result =>
    { result with
      dryProcessedBreakers := ctx.dryProcessedBreakers
      dryRepeatCount := ctx.dryRepeatCount
      dryMaxTokenRepeat := ctx.dryMaxTokenRepeat
      lastTokens := ctx.lastTokens }

end Dry

structure TokenMatcher where
  tokens : List LlamaToken
  pos : Nat
deriving DecidableEq, Repr

namespace TokenMatcher

/-- Feed a token; `true` when it completes the sequence. -/
def advance (m : TokenMatcher) (token : LlamaToken) : TokenMatcher × Bool :=
  if m.tokens.isEmpty then (m, false)
  else if m.tokens[m.pos]? = some token then
    if m.tokens.length ≤ m.pos + 1 then ({ m with pos := 0 }, true) else ({ m with pos := m.pos + 1 }, false)
  else ({ m with pos := if m.tokens[0]? = some token then 1 else 0 }, false)

def reset (m : TokenMatcher) : TokenMatcher := { m with pos := 0 }

end TokenMatcher

inductive ReasoningBudgetState where
  | idle
  | counting
  | forcing
  | waitingUtf8
  | done
deriving DecidableEq, Repr

/-- The last bytes of a piece: the first of them that is no continuation byte says how many bytes its character has. -/
def utf8Tail (rev : Str) : Nat → Nat → Bool
  | 0, _ => false
  | more + 1, i => match rev[i - 1]? with
    | none => false
    | some c =>
      if c &&& 0xC0 ≠ 0x80 then decide ((if c ≥ 0xF0 then 4 else if c ≥ 0xE0 then 3 else if c ≥ 0xC0 then 2 else 1) ≤ i)
      else utf8Tail rev more (i + 1)

def utf8IsComplete (s : Str) : Bool := s.isEmpty || utf8Tail s.reverse (min 4 s.length) 1

structure ReasoningBudget where
  /-- The text of a token; `none` without a vocabulary. -/
  vocab : Option (LlamaToken → Str)
  startMatcher : TokenMatcher
  endMatcher : TokenMatcher
  forcedTokens : List LlamaToken
  budget : Int
  remaining : Int
  state : ReasoningBudgetState
  forcePos : Nat

namespace ReasoningBudget

def utf8Complete (ctx : ReasoningBudget) (token : LlamaToken) : Bool :=
  ctx.vocab.all fun piece => utf8IsComplete (piece token)

def acceptInside (ctx : ReasoningBudget) (token : LlamaToken) : ReasoningBudget :=
  if ctx.state = .waitingUtf8 then
    if ctx.utf8Complete token then { ctx with state := .forcing, forcePos := 0, endMatcher := ctx.endMatcher.reset }
    else ctx
  else
    let remaining := ctx.remaining - 1
    if remaining ≤ 0 then
      if ctx.utf8Complete token then
        { ctx with remaining := remaining, state := .forcing, forcePos := 0, endMatcher := ctx.endMatcher.reset }
      else { ctx with remaining := remaining, state := .waitingUtf8, endMatcher := ctx.endMatcher.reset }
    else { ctx with remaining := remaining }

def acceptIdle (ctx : ReasoningBudget) (token : LlamaToken) : ReasoningBudget :=
  let ctx' := { ctx with startMatcher := (ctx.startMatcher.advance token).1 }
  if (ctx.startMatcher.advance token).2 then
    if ctx.budget ≤ 0 then { ctx' with remaining := ctx.budget, state := .forcing, forcePos := 0 }
    else { ctx' with remaining := ctx.budget, state := .counting }
  else ctx'

def acceptBlock (ctx : ReasoningBudget) (token : LlamaToken) : ReasoningBudget :=
  let ctx' := { ctx with endMatcher := (ctx.endMatcher.advance token).1 }
  if (ctx.endMatcher.advance token).2 then { ctx' with state := .done } else ctx'.acceptInside token

/-- A forced token is counted by `apply`, not here. -/
def accept (ctx : ReasoningBudget) (token : LlamaToken) : ReasoningBudget :=
  match ctx.state with
  | .idle => ctx.acceptIdle token
  | .counting => ctx.acceptBlock token
  | .waitingUtf8 => ctx.acceptBlock token
  | .forcing => ctx
  | .done => ctx

def apply {F : Type} (fl : Floats F) (ctx : ReasoningBudget) (cur : LlamaTokenDataArray F) :
    ReasoningBudget × LlamaTokenDataArray F :=
  if ctx.state = .forcing then
    match ctx.forcedTokens[ctx.forcePos]? with
    | none => (ctx, cur)
    | some forced =>
      ({ ctx with
          forcePos := ctx.forcePos + 1
          state := if ctx.forcedTokens.length ≤ ctx.forcePos + 1 then .done else ctx.state },
        { cur with data := cur.data.map fun d => if d.id = forced then d else { d with logit := fl.negInfinity } })
  else (ctx, cur)

def reset (ctx : ReasoningBudget) : ReasoningBudget :=
  { ctx with
    state := .idle, remaining := ctx.budget
    startMatcher := ctx.startMatcher.reset, endMatcher := ctx.endMatcher.reset, forcePos := 0 }

def initState (vocab : Option (LlamaToken → Str)) (startTokens endTokens forcedTokens : List LlamaToken) (budget : Int)
    (initialState : ReasoningBudgetState) : ReasoningBudget where
  vocab := vocab
  startMatcher := ⟨startTokens, 0⟩
  endMatcher := ⟨endTokens, 0⟩
  forcedTokens := forcedTokens
  budget := budget
  remaining := budget
  state := if initialState = .counting ∧ budget ≤ 0 then .forcing else initialState
  forcePos := 0

def clone (ctx : ReasoningBudget) : ReasoningBudget :=
  initState ctx.vocab ctx.startMatcher.tokens ctx.endMatcher.tokens ctx.forcedTokens ctx.budget ctx.state

end ReasoningBudget

inductive Sampler (F : Type) where
  | penalties (ctx : Penalties F)
  | dry (ctx : Dry F)
  | reasoningBudget (ctx : ReasoningBudget)

namespace Sampler
variable {F : Type}

def accept (fl : Floats F) (token : LlamaToken) : Sampler F → Option (Sampler F)
  | penalties ctx => some (penalties (ctx.accept token))
  | dry ctx => (ctx.accept fl token).map dry
  | reasoningBudget ctx => some (reasoningBudget (ctx.accept token))

def apply (fl : Floats F) (cur : LlamaTokenDataArray F) : Sampler F → Sampler F × LlamaTokenDataArray F
  | penalties ctx => (penalties ctx, ctx.apply fl cur)
  | dry ctx => (dry (ctx.apply fl cur).1, (ctx.apply fl cur).2)
  | reasoningBudget ctx => (reasoningBudget (ctx.apply fl cur).1, (ctx.apply fl cur).2)

def reset : Sampler F → Sampler F
  | penalties ctx => penalties ctx.reset
  | dry ctx => dry ctx.reset
  | reasoningBudget ctx => reasoningBudget ctx.reset

def clone (fl : Floats F) : Sampler F → Option (Sampler F)
  | penalties ctx => (ctx.clone fl).map penalties
  | dry ctx => (ctx.clone fl).map dry
  | reasoningBudget ctx => some (reasoningBudget ctx.clone)

end Sampler

end Mallana.Sampling
