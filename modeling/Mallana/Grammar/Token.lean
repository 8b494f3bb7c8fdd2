import Mallana.Grammar.Basic

/-!
# Tokens and candidates

The functions of `src/src/llama-grammar.cpp` that work on the pieces of tokens: decoding, `llama_grammar_accept_token`,
and the filter of the candidates of a sampler. A vector of code points is modelled without its terminating zero.
-/

namespace Mallana

open Lib

namespace Grammar

/-- The table of `decode_utf8`, less one: the bytes that follow a first byte. -/
def followBytes (b : UInt8) : Int :=
  if b >>> 4 < 8 then 0
  else if b >>> 4 < 12 then -1
  else if b >>> 4 < 14 then 1
  else if b >>> 4 < 15 then 2
  else 3

def firstBits (b : UInt8) (nRemain : Int) : UInt32 :=
  (b &&& (if nRemain = 0 then 127 else if nRemain = 1 then 63 else if nRemain = 2 then 31 else 15)).toUInt32

def nextBits (value : UInt32) (b : UInt8) : UInt32 := (value <<< 6) + (b &&& 63).toUInt32

/-- The decoding of a sequence that was begun before; `none` if it is invalid. -/
def decodeStart : List UInt8 → UInt32 → Int → Option (List UInt8 × UInt32 × Int)
  | [], value, nRemain => some ([], value, nRemain)
  | b :: bs, value, nRemain =>
    if 0 < nRemain then
      if b >>> 6 = 2 then decodeStart bs (nextBits value b) (nRemain - 1) else none
    else some (b :: bs, value, nRemain)

/-- The decoding of the sequences that follow. The state is the value and the number of bytes that remain. -/
def decodeLoop : List UInt8 → UInt32 → Int → List UInt32 → List UInt32 × PartialUtf8
  | [], value, nRemain, codePoints => (codePoints, { value, nRemain })
  | b :: bs, value, nRemain, codePoints =>
    if 0 < nRemain then
      let value := nextBits value b
      decodeLoop bs value (nRemain - 1) (if nRemain - 1 = 0 then codePoints ++ [value] else codePoints)
    else
      let nRemain := followBytes b
      if nRemain < 0 then ([], { value := 0, nRemain })
      else
        let value := firstBits b nRemain
        decodeLoop bs value nRemain (if nRemain = 0 then codePoints ++ [value] else codePoints)

/-- C++ `decode_utf8`. -/
def decodeUtf8 (src : List UInt8) (partialStart : PartialUtf8) : List UInt32 × PartialUtf8 :=
  match decodeStart (src.takeWhile (· ≠ 0)) partialStart.value partialStart.nRemain with
  | none => ([], { value := 0, nRemain := -1 })
  | some (bs, value, nRemain) =>
    decodeLoop bs value nRemain (if 0 < partialStart.nRemain ∧ nRemain = 0 then [value] else [])

/-- C++ `llama_grammar_match_token`; a token is given by its 32 bits. -/
def matchToken (e : GrElement) (token : UInt32) : Option Bool :=
  match e.type with
  | .token => some (e.value == token)
  | .tokenNot => some (e.value != token)
  | _ => none

lemma token_of_matchToken {e : GrElement} {token : UInt32} (h : matchToken e token = some true) :
    e.type = .token ∨ e.type = .tokenNot := by
  unfold matchToken at h
  split at h
  · exact .inl ‹_›
  · exact .inr ‹_›
  · cases h

/-- The loop of `llama_grammar_match_partial_char`. -/
def partialLoop (low high : UInt32) (isPositiveChar : Bool) : List GrElement → Bool
  | [] => !isPositiveChar
  | [e] =>
    if e.type = .charAny then true
    else if low ≤ e.value ∧ e.value ≤ high then isPositiveChar else !isPositiveChar
  | e :: u :: es =>
    if u.type = .charRngUpper then
      -- inclusive range
      if e.value ≤ high ∧ low ≤ u.value then isPositiveChar
      else if es.head?.any fun v => v.type = .charAlt then partialLoop low high isPositiveChar es
      else !isPositiveChar
    else if e.type = .charAny then true
    else if low ≤ e.value ∧ e.value ≤ high then isPositiveChar
    else if u.type = .charAlt then partialLoop low high isPositiveChar (u :: es)
    else !isPositiveChar

/-- C++ `llama_grammar_match_partial_char`. -/
def matchPartialChar (rules : GrRules) (p : GrPos) (partialUtf8 : PartialUtf8) : Option Bool :=
  let type := (elem rules p).type
  let isPositiveChar := decide (type = .char ∨ type = .charAny)
  if isPositiveChar || type = .charNot then
    let n := partialUtf8.nRemain
    if n < 0 ∨ n = 1 ∧ partialUtf8.value < 2 then some false
    else
      let low := partialUtf8.value <<< UInt32.ofNat (n.toNat * 6)
      let high := low ||| ((1 <<< UInt32.ofNat (n.toNat * 6)) - 1)
      let low := if low = 0 then (if n = 2 then 2048 else if n = 3 then 65536 else low) else low
      some (partialLoop low high isPositiveChar (elems rules p))
  else none

/-- C++ `llama_grammar_candidate`: the code points of a token, and the place in them. -/
structure Candidate where
  index : Nat
  codePoints : List UInt32
  pos : Nat := 0
  partialUtf8 : PartialUtf8
  id : UInt32
deriving DecidableEq

/-- C++ `*tok.code_points`. -/
def Candidate.chr (tok : Candidate) : UInt32 := tok.codePoints.getD tok.pos 0

/-- C++ `tok.code_points + 1`. -/
def Candidate.forth (tok : Candidate) : Candidate := { tok with pos := tok.pos + 1 }

/-- C++ `tok.code_points - 1`. -/
def Candidate.back (tok : Candidate) : Candidate := { tok with pos := tok.pos - 1 }

/-- C++ `llama_grammar_reject_candidates`, with the function for one stack. -/
def rejectCandidates (forStack : GrStack → List Candidate → Option (List Candidate)) (grStacks : List GrStack)
    (candidates : List Candidate) : Option (List Candidate) :=
  match grStacks with
  -- `GGML_ASSERT(!stacks.empty())`
  | [] => none
  | stack :: rest =>
    if candidates = [] then some []
    else do
      let rejects ← forStack stack candidates
      rest.foldlM (fun rejects stack => forStack stack rejects) rejects

/-- What happens to a candidate at a character: it is rejected, goes on, or is left in peace. -/
inductive Fate where
  | reject
  | next
  | keep
deriving DecidableEq

/-- The loop of `llama_grammar_reject_candidates_for_stack` over the candidates, at a character. -/
def fateAtChar (rules : GrRules) (p : GrPos) (tok : Candidate) : Option Fate :=
  if tok.chr = 0 then
    -- rejected iff it ends in a sequence that cannot satisfy this position
    if tok.partialUtf8.nRemain ≠ 0 then do
      let ok ← matchPartialChar rules p tok.partialUtf8
      return if ok then .keep else .reject
    else some .keep
  else do
    let m ← matchChar rules p tok.chr
    return if m.1 then .next else .reject

/-- C++ `llama_grammar_reject_candidates_for_stack`. -/
def rejectCandidatesForStack (rules : GrRules) : Nat → GrStack → List Candidate → Option (List Candidate)
  | 0, _, _ => none
  | _ + 1, [], candidates => some (candidates.filter fun tok => tok.chr ≠ 0 ∨ tok.partialUtf8.nRemain ≠ 0)
  | fuel + 1, p :: stack, candidates =>
    if (elem rules p).type = .token ∨ (elem rules p).type = .tokenNot then
      -- only the token is checked
      some (candidates.filter fun tok =>
        if tok.chr = 0 then tok.partialUtf8.nRemain ≠ 0 else matchToken (elem rules p) tok.id ≠ some true)
    else do
      let fates ← candidates.mapM (fateAtChar rules p)
      let marked := candidates.zip fates
      let rejects := (marked.filter fun m => m.2 = .reject).map Prod.fst
      let nextCandidates := (marked.filter fun m => m.2 = .next).map fun m => m.1.forth
      let m ← matchChar rules p 0
      let nextStacks ← advanceStack fuel rules (pushPos rules m.2 stack) []
      let nextRejects ← rejectCandidates (rejectCandidatesForStack rules fuel) nextStacks nextCandidates
      return rejects ++ nextRejects.map Candidate.back

end Grammar

/-- The part of `llama_vocab` that the grammar uses. -/
structure GrVocab where
  tokenToPiece : UInt32 → List UInt8
  isEog : UInt32 → Bool

namespace LlamaGrammar

open Grammar

/-- The candidates of `llama_grammar_apply_impl` that are given to the grammar, and those that it masks itself. -/
def candidate (g : LlamaGrammar) (vocab : GrVocab) (i : Nat) (id : UInt32) : Candidate ⊕ Bool :=
  let piece := vocab.tokenToPiece id
  if vocab.isEog id then .inr (!g.grStacks.any List.isEmpty)
  else if piece.headD 0 = 0 then .inr true
  else
    let decoded := decodeUtf8 piece g.partialUtf8
    .inl { index := i, codePoints := decoded.1, partialUtf8 := decoded.2, id }

/-- C++ `llama_grammar_apply_impl`: is the logit of each candidate set to `-INFINITY`? -/
def applyImpl (fuel : Nat) (g : LlamaGrammar) (vocab : GrVocab) (ids : List UInt32) : Option (List Bool) :=
  if g.awaitingTrigger then some (ids.map fun _ => false)
  else do
    let cands := ids.mapIdx fun i id => g.candidate vocab i id
    let rejects ← rejectCandidates (rejectCandidatesForStack g.rules fuel) g.grStacks (cands.filterMap Sum.getLeft?)
    return cands.mapIdx fun i c => c.elim (fun _ => rejects.any fun r => r.index = i) id

/-- One stack in `llama_grammar_accept_token`. -/
def acceptTokenStack (fuel : Nat) (rules : GrRules) (token : UInt32) (codePoints : List UInt32)
    (stacksNew : List GrStack) : GrStack → Option (List GrStack)
  | [] => some stacksNew
  | p :: stack =>
    if (elem rules p).type = .token ∨ (elem rules p).type = .tokenNot then
      if matchToken (elem rules p) token = some true then
        advanceStack fuel rules (pushPos rules { p with idx := p.idx + 1 } stack) stacksNew
      else some stacksNew
    else do
      let current ← codePoints.foldlM
        (fun (current : List GrStack) chr => current.foldlM (acceptChr fuel rules chr) []) [p :: stack]
      return current.foldl (fun out s => if s ∈ out then out else out ++ [s]) stacksNew

/-- C++ `llama_grammar_accept_token`; the exception for an empty set of stacks is not part of the result. -/
def acceptToken (fuel : Nat) (g : LlamaGrammar) (token : UInt32) (piece : List UInt8) : Option LlamaGrammar := do
  let decoded := decodeUtf8 piece g.partialUtf8
  let stacksNew ← g.grStacks.foldlM (acceptTokenStack fuel g.rules token decoded.1) []
  return { g with grStacks := stacksNew, partialUtf8 := decoded.2 }

end LlamaGrammar

end Mallana
