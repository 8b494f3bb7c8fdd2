import Mallana.Lib.Search

/-!
# The grammar engine

Model of the engine in `src/src/llama-grammar.{h,cpp}`: rules as arrays of elements, stacks of pointers into them,
and the functions that advance a set of stacks by a code point. A pointer is the index of a rule and of an element
in it; the top of a stack is the head of its list.

`llama_grammar_advance_stack` is a search (`Lib.search`) that need not end; it has a fuel here. A function
that contains a `GGML_ASSERT` or `GGML_ABORT` returns `none` if it fails.
-/

namespace Mallana

open Lib

/-- The type of an element (C++ `llama_gretype`). -/
inductive GreType where
  | «end»
  | alt
  | ruleRef
  | char
  | charNot
  | charRngUpper
  | charAlt
  | charAny
  | token
  | tokenNot
deriving DecidableEq, Repr

/-- C++ `llama_grammar_element`. -/
structure GrElement where
  type : GreType
  value : UInt32 := 0
deriving DecidableEq

abbrev GrRule : Type := List GrElement

abbrev GrRules : Type := List GrRule

/-- A pointer to an element. -/
structure GrPos where
  rule : Nat
  idx : Nat
deriving DecidableEq

abbrev GrStack : Type := List GrPos

namespace Grammar

def elems (rules : GrRules) (p : GrPos) : List GrElement := (rules.getD p.rule []).drop p.idx

def elem (rules : GrRules) (p : GrPos) : GrElement := (elems rules p).headD { type := .end }

/-- C++ `llama_grammar_is_end_of_sequence`. -/
def isEndOfSequence (e : GrElement) : Bool :=
  match e.type with
  | .end | .alt => true
  | _ => false

/-- The loop of `llama_grammar_match_char`, with the number of elements behind it. -/
def matchLoop (chr : UInt32) : List GrElement → Bool → Nat → Bool × Nat
  | [], found, k => (found, k)
  | [e], found, k => (if e.type = .charAny then true else found || e.value == chr, k + 1)
  | e :: u :: es, found, k =>
    if u.type = .charRngUpper then
      -- inclusive range
      let found := found || (decide (e.value ≤ chr) && decide (chr ≤ u.value))
      if es.head?.any fun v => v.type = .charAlt then matchLoop chr es found (k + 2) else (found, k + 2)
    else
      let found := if e.type = .charAny then true else found || e.value == chr
      if u.type = .charAlt then matchLoop chr (u :: es) found (k + 1) else (found, k + 1)

/-- C++ `llama_grammar_match_char`. -/
def matchChar (rules : GrRules) (p : GrPos) (chr : UInt32) : Option (Bool × GrPos) :=
  let type := (elem rules p).type
  let isPositiveChar := decide (type = .char ∨ type = .charAny)
  -- `GGML_ASSERT(is_positive_char || pos->type == LLAMA_GRETYPE_CHAR_NOT)`
  if isPositiveChar || type = .charNot then
    let r := matchLoop chr (elems rules p) false 0
    some (r.1 == isPositiveChar, { p with idx := p.idx + r.2 })
  else none

/-- Where the alternatives behind element `i` start. -/
def scanAlts (i : Nat) : List GrElement → List Nat
  | [] => []
  | e :: es =>
    match e.type with
    | .alt => (i + 1) :: scanAlts (i + 1) es
    | .end => []
    | _ => scanAlts (i + 1) es

def alternates (rule : GrRule) : List Nat := 0 :: scanAlts 0 rule

/-- Put a pointer on a stack unless it is at the end of its alternative. -/
def pushPos (rules : GrRules) (p : GrPos) (stack : GrStack) : GrStack :=
  if isEndOfSequence (elem rules p) then stack else p :: stack

/-- What `llama_grammar_advance_stack` does with a stack. -/
def visit (rules : GrRules) : GrStack → Visit GrStack
  | [] => .emit
  | p :: stack =>
    let e := elem rules p
    match e.type with
    | .ruleRef =>
      let id := e.value.toNat
      .expand ((alternates (rules.getD id [])).map fun i =>
        pushPos rules ⟨id, i⟩ (pushPos rules { p with idx := p.idx + 1 } stack))
    | .char | .charNot | .charAny | .token | .tokenNot => .emit
    -- `GGML_ABORT`: a stack is never left there
    | .end | .alt | .charAlt | .charRngUpper => .abort

/-- C++ `llama_grammar_advance_stack`. -/
def advanceStack (fuel : Nat) (rules : GrRules) (stack : GrStack) (newStacks : List GrStack) :
    Option (List GrStack) := search (visit rules) fuel [stack] [] newStacks

/-- C++ `llama_grammar_accept_chr`. -/
def acceptChr (fuel : Nat) (rules : GrRules) (chr : UInt32) (newStacks : List GrStack) :
    GrStack → Option (List GrStack)
  | [] => some newStacks
  | p :: stack =>
    if (elem rules p).type = .token ∨ (elem rules p).type = .tokenNot then some newStacks
    else do
      let m ← matchChar rules p chr
      if m.1 then advanceStack fuel rules (pushPos rules m.2 stack) newStacks else some newStacks

/-- The marks of `llama_grammar_detect_left_recursion`. -/
structure Marks where
  visited : Nat → Bool := fun _ => false
  inProgress : Nat → Bool := fun _ => false
  mayBeEmpty : Nat → Bool := fun _ => false

def hasEmpty (atRuleStart : Bool) : List GrElement → Bool
  | [] => false
  | e :: es =>
    if isEndOfSequence e then
      if atRuleStart then true else hasEmpty true es
    else hasEmpty false es

def detectElems (detect : Nat → Marks → Option (Bool × Marks)) :
    List GrElement → Bool → Marks → Option (Bool × Marks)
  | [], _, d => some (false, d)
  | e :: es, recurse, d =>
    if e.type = .ruleRef ∧ recurse then do
      let r ← detect e.value.toNat d
      if r.1 then return r
      else detectElems detect es (r.2.mayBeEmpty e.value.toNat) r.2
    else detectElems detect es (isEndOfSequence e) d

def Marks.enter (d : Marks) (i : Nat) (rule : GrRule) : Marks :=
  { d with
    inProgress := Function.update d.inProgress i true
    mayBeEmpty := if hasEmpty true rule then Function.update d.mayBeEmpty i true else d.mayBeEmpty }

def Marks.leave (d : Marks) (i : Nat) : Marks :=
  { d with
    inProgress := Function.update d.inProgress i false
    visited := Function.update d.visited i true }

/-- C++ `llama_grammar_detect_left_recursion`. -/
def detectLeftRecursion (rules : GrRules) : Nat → Nat → Marks → Option (Bool × Marks)
  | 0, _, _ => none
  | fuel + 1, i, d =>
    if d.inProgress i then some (true, d)
    else do
      let rule := rules.getD i []
      let r ← detectElems (detectLeftRecursion rules fuel) rule true (d.enter i rule)
      if r.1 then return r else return (false, r.2.leave i)

def detectAll (fuel : Nat) (rules : GrRules) : List Nat → Marks → Option Bool
  | [], _ => some false
  | i :: is, d =>
    if d.visited i then detectAll fuel rules is d
    else do
      let r ← detectLeftRecursion rules fuel i d
      if r.1 then return true else detectAll fuel rules is r.2

end Grammar

/-- C++ `llama_partial_utf8`; `nRemain` is negative after an invalid sequence. -/
structure PartialUtf8 where
  value : UInt32 := 0
  nRemain : Int := 0
deriving DecidableEq

/-- The part of `llama_grammar` that the engine works on; `grStacks` is its field `stacks`. -/
structure LlamaGrammar where
  rules : GrRules
  grStacks : List GrStack
  partialUtf8 : PartialUtf8 := {}
  awaitingTrigger : Bool := false
deriving DecidableEq

namespace LlamaGrammar

open Grammar

def copyRule (rule : GrRule) : GrRule := rule.takeWhile (fun e => e.type ≠ .end) ++ [{ type := .end }]

/-- C++ `llama_grammar_init_impl`; the result is `none` if there is left recursion. -/
def init (fuel : Nat) (rules : GrRules) (startRuleIndex : Nat) : Option (Option LlamaGrammar) := do
  let rules := rules.map copyRule
  let leftRecursion ← detectAll fuel rules (List.range rules.length) {}
  if leftRecursion then return none
  else
    let grStacks ← (alternates (rules.getD startRuleIndex [])).foldlM
      (fun newStacks i => advanceStack fuel rules (pushPos rules ⟨startRuleIndex, i⟩ []) newStacks) []
    return some { rules, grStacks }

/-- C++ `llama_grammar_accept`. -/
def accept (fuel : Nat) (g : LlamaGrammar) (chr : UInt32) : Option LlamaGrammar := do
  let grStacks ← g.grStacks.foldlM (acceptChr fuel g.rules chr) []
  return { g with grStacks }

/-- The code points of a string are accepted one after the other. -/
def acceptAll (fuel : Nat) : LlamaGrammar → List UInt32 → Option LlamaGrammar := List.foldlM (accept fuel)

end LlamaGrammar

end Mallana
