import Mallana.Grammar.Basic

/-!
# The parser of grammars

Model of `llama_grammar_parser` in `src/src/llama-grammar.cpp`. The source is a list of bytes without its terminating
zero; a function that throws returns `none` (`parse` catches every exception and returns `false`). The loops have a
fuel; each of their rounds consumes a byte.
-/

namespace Mallana

/-- The parser, without its vocabulary. -/
structure GrParser where
  symbolIds : List (List UInt8 × UInt32) := []
  rules : GrRules := []

namespace Grammar

def isDigitChar (c : UInt8) : Bool := decide (48 ≤ c) && decide (c ≤ 57)

def isWordChar (c : UInt8) : Bool :=
  decide (97 ≤ c) && decide (c ≤ 122) || decide (65 ≤ c) && decide (c ≤ 90) || c == 45 || isDigitChar c

def hexDigit (c : UInt8) : Option UInt32 :=
  if 97 ≤ c ∧ c ≤ 102 then some (c - 97 + 10).toUInt32
  else if 65 ≤ c ∧ c ≤ 70 then some (c - 65 + 10).toUInt32
  else if 48 ≤ c ∧ c ≤ 57 then some (c - 48).toUInt32
  else none

/-- C++ `parse_hex`. -/
def parseHex : Nat → UInt32 → List UInt8 → Option (UInt32 × List UInt8)
  | 0, value, src => some (value, src)
  | _ + 1, _, [] => none
  | size + 1, value, c :: src => do
    let d ← hexDigit c
    parseHex size ((value <<< 4) + d) src

/-- C++ `parse_space`; the second flag is set inside a comment. -/
def parseSpace (newlineOk : Bool) : Bool → List UInt8 → List UInt8
  | _, [] => []
  | inComment, c :: src =>
    if c = 13 ∨ c = 10 then
      if newlineOk then parseSpace newlineOk false src else c :: src
    else if inComment then parseSpace newlineOk true src
    else if c = 32 ∨ c = 9 then parseSpace newlineOk false src
    else if c = 35 then parseSpace newlineOk true src
    else c :: src

/-- C++ `parse_name`: the name, and what follows it. -/
def parseName (src : List UInt8) : Option (List UInt8 × List UInt8) :=
  if src.takeWhile isWordChar = [] then none else some (src.takeWhile isWordChar, src.dropWhile isWordChar)

/-- C++ `parse_int` with `std::stoull`, which throws for a number that is too large. -/
def parseInt (src : List UInt8) : Option (UInt64 × List UInt8) :=
  let digits := src.takeWhile isDigitChar
  let n := digits.foldl (fun n c => n * 10 + (c.toNat - 48)) 0
  if digits = [] ∨ 18446744073709551616 ≤ n then none else some (UInt64.ofNat n, src.dropWhile isDigitChar)

def decodeTail : Nat → UInt32 → List UInt8 → UInt32 × List UInt8
  | n + 1, value, c :: src => decodeTail n ((value <<< 6) + (c &&& 63).toUInt32) src
  | _, value, src => (value, src)

/-- C++ `decode_utf8` of one code point; the source is assumed to be valid. -/
def decodeOne (c : UInt8) (src : List UInt8) : UInt32 × List UInt8 :=
  if c >>> 4 < 12 then decodeTail 0 (c &&& 127).toUInt32 src
  else if c >>> 4 < 14 then decodeTail 1 (c &&& 63).toUInt32 src
  else if c >>> 4 < 15 then decodeTail 2 (c &&& 31).toUInt32 src
  else decodeTail 3 (c &&& 15).toUInt32 src

/-- C++ `parse_char`. -/
def parseChar : List UInt8 → Option (UInt32 × List UInt8)
  | [] => none
  | c :: src =>
    if c = 92 then
      match src with
      | [] => none
      | d :: src =>
        if d = 120 then parseHex 2 0 src
        else if d = 117 then parseHex 4 0 src
        else if d = 85 then parseHex 8 0 src
        else if d = 116 then some (9, src)
        else if d = 114 then some (13, src)
        else if d = 110 then some (10, src)
        else if d = 92 ∨ d = 34 ∨ d = 91 ∨ d = 93 then some (d.toUInt32, src)
        else none
    else some (decodeOne c src)

/-- C++ `parse_token`. `tokenize` is the only token of a text, if the vocabulary has one. -/
def parseToken (tokenize : List UInt8 → Option UInt32) : List UInt8 → Option (UInt32 × List UInt8)
  | [] => none
  | c :: src =>
    if c ≠ 60 then none
    else if src.head? = some 91 then do
      let n ← parseInt src.tail
      if n.2.head? = some 93 ∧ n.2.tail.head? = some 62 then some (n.1.toUInt32, n.2.tail.tail) else none
    else
      let text := src.takeWhile (· ≠ 62)
      match src.dropWhile (· ≠ 62) with
      | [] => none
      | _ :: rest => (tokenize (c :: text ++ [62])).map fun id => (id, rest)

end Grammar

namespace GrParser

open Grammar

/-- The id of the next symbol; `symbol_ids.size()` as 32 bits. -/
def nextId (p : GrParser) : UInt32 := UInt32.ofNat p.symbolIds.length

/-- C++ `llama_grammar_parser::get_symbol_id`. -/
def getSymbolId (p : GrParser) (name : List UInt8) : UInt32 × GrParser :=
  match p.symbolIds.lookup name with
  | some id => (id, p)
  | none => (p.nextId, { p with symbolIds := p.symbolIds ++ [(name, p.nextId)] })

/-- The name of a generated symbol: `base_name + '_' + std::to_string(next_id)`. -/
def generatedName (baseName : List UInt8) (id : UInt32) : List UInt8 :=
  baseName ++ 95 :: (Nat.repr id.toNat).toUTF8.toList

/-- C++ `llama_grammar_parser::generate_symbol_id`. -/
def generateSymbolId (p : GrParser) (baseName : List UInt8) : UInt32 × GrParser :=
  let name := generatedName baseName p.nextId
  let symbolIds :=
    if (p.symbolIds.any fun kv => kv.1 = name) then
      p.symbolIds.map fun kv => if kv.1 = name then (name, p.nextId) else kv
    else p.symbolIds ++ [(name, p.nextId)]
  (p.nextId, { p with symbolIds })

/-- C++ `llama_grammar_parser::add_rule`. -/
def addRule (p : GrParser) (ruleId : UInt32) (rule : GrRule) : GrParser :=
  { p with rules := (p.rules ++ List.replicate (ruleId.toNat + 1 - p.rules.length) []).set ruleId.toNat rule }

/-- The local variables of `parse_sequence`. -/
structure SeqState where
  src : List UInt8
  rule : GrRule
  lastSymStart : Nat
  nPrevRules : UInt64
  parser : GrParser

def recRules (ruleName : List UInt8) (prevRule : GrRule) (noMax : Bool) :
    Nat → Bool → UInt32 → GrParser → UInt32 × GrParser
  | 0, _, last, p => (last, p)
  | n + 1, first, last, p =>
    let r := p.generateSymbolId ruleName
    let rec' := if !first || noMax then [⟨.ruleRef, if noMax then r.1 else last⟩] else []
    recRules ruleName prevRule noMax n false r.1
      (r.2.addRule r.1 (prevRule ++ rec' ++ [⟨.alt, 0⟩, ⟨.end, 0⟩]))

def totalRules (noMax : Bool) (minTimes maxTimes : UInt64) : UInt64 :=
  if noMax = false ∧ 0 < maxTimes then maxTimes else if 0 < minTimes then minTimes else 1

/-- The lambda `handle_repetitions` of `parse_sequence`. -/
def handleRepetitions (ruleName : List UInt8) (minTimes maxTimes : UInt64) (st : SeqState) : Option SeqState :=
  let noMax := maxTimes == 18446744073709551615
  if st.lastSymStart = st.rule.length then none
  else
    let prevRule := st.rule.drop st.lastSymStart
    let nRules := st.nPrevRules * totalRules noMax minTimes maxTimes
    if 2000 ≤ nRules then none
    else
      let rule := if minTimes = 0 then st.rule.take st.lastSymStart
        else st.rule ++ (List.replicate (minTimes.toNat - 1) prevRule).flatten
      let nOpt := if noMax then 1 else maxTimes - minTimes
      let r := recRules ruleName prevRule noMax nOpt.toNat true 0 st.parser
      -- `GGML_ASSERT(n_prev_rules >= 1)`
      if nRules < 1 then none
      else some { st with
        rule := if 0 < nOpt then rule ++ [⟨.ruleRef, r.1⟩] else rule
        nPrevRules := nRules
        parser := r.2 }

def literal : Nat → List UInt8 → GrRule → Option (List UInt8 × GrRule)
  | 0, _, _ => none
  | fuel + 1, src, rule =>
    if src.head? = some 34 then some (src.tail, rule)
    else do
      let c ← parseChar src
      literal fuel c.2 (rule ++ [⟨.char, c.1⟩])

def charClass (startType : GreType) (lastSymStart : Nat) : Nat → List UInt8 → GrRule → Option (List UInt8 × GrRule)
  | 0, _, _ => none
  | fuel + 1, src, rule =>
    if src.head? = some 93 then some (src.tail, rule)
    else do
      let c ← parseChar src
      let rule := rule ++ [⟨if lastSymStart < rule.length then .charAlt else startType, c.1⟩]
      if c.2.head? = some 45 ∧ c.2.tail.head? ≠ some 93 then
        let e ← parseChar c.2.tail
        charClass startType lastSymStart fuel e.2 (rule ++ [⟨.charRngUpper, e.1⟩])
      else charClass startType lastSymStart fuel c.2 rule

/-- The bounds of `{m}`, `{m,}` or `{m,n}`. -/
def bounds (isNested : Bool) (src : List UInt8) : Option (UInt64 × UInt64 × List UInt8) := do
  let m ← parseInt src
  let src := parseSpace isNested false m.2
  match src with
  | [] => none
  | c :: src =>
    if c = 125 then some (m.1, m.1, parseSpace isNested false src)
    else if c = 44 then
      let src := parseSpace isNested false src
      if (src.head?.map isDigitChar).getD false then do
        let n ← parseInt src
        let src := parseSpace isNested false n.2
        if src.head? = some 125 then some (m.1, n.1, parseSpace isNested false src.tail) else none
      else if src.head? = some 125 then some (m.1, 18446744073709551615, parseSpace isNested false src.tail)
      else none
    else none

/-- The type of `parse_alternates`. -/
abbrev Alternates : Type := List UInt8 → List UInt8 → UInt32 → Bool → GrParser → Option (List UInt8 × GrParser)

/-- One round of the loop of `parse_sequence`; the inner `none` ends the loop. -/
def seqStep (tokenize : List UInt8 → Option UInt32) (alternates : Alternates) (fuel : Nat) (ruleName : List UInt8)
    (isNested : Bool) (st : SeqState) : Option (Option SeqState) :=
  match st.src with
  | [] => some none
  | c :: src =>
    if c = 34 then do
      let r ← literal fuel src st.rule
      return some { st with
        src := parseSpace isNested false r.1, rule := r.2, lastSymStart := st.rule.length, nPrevRules := 1 }
    else if c = 91 then do
      let neg := src.head? = some 94
      let r ← charClass (if neg then .charNot else .char) st.rule.length fuel (if neg then src.tail else src) st.rule
      return some { st with
        src := parseSpace isNested false r.1, rule := r.2, lastSymStart := st.rule.length, nPrevRules := 1 }
    else if c = 60 ∨ c = 33 then do
      let t ← parseToken tokenize (if c = 33 then src else c :: src)
      return some { st with
        src := parseSpace isNested false t.2
        rule := st.rule ++ [⟨if c = 33 then .tokenNot else .token, t.1⟩]
        lastSymStart := st.rule.length, nPrevRules := 1 }
    else if isWordChar c then do
      let n ← parseName (c :: src)
      let r := st.parser.getSymbolId n.1
      return some {
        src := parseSpace isNested false n.2
        rule := st.rule ++ [⟨.ruleRef, r.1⟩]
        lastSymStart := st.rule.length, nPrevRules := 1, parser := r.2 }
    else if c = 40 then do
      let r := st.parser.generateSymbolId ruleName
      let a ← alternates (parseSpace true false src) ruleName r.1 true r.2
      if a.1.head? = some 41 then
        return some {
          src := parseSpace isNested false a.1.tail
          rule := st.rule ++ [⟨.ruleRef, r.1⟩]
          lastSymStart := st.rule.length
          nPrevRules := UInt64.ofNat (max 1 (UInt32.ofNat a.2.symbolIds.length -
            UInt32.ofNat st.parser.symbolIds.length).toNat)
          parser := a.2 }
      else none
    else if c = 46 then
      return some { st with
        src := parseSpace isNested false src, rule := st.rule ++ [⟨.charAny, 0⟩], lastSymStart := st.rule.length
        nPrevRules := 1 }
    else if c = 42 then
      (handleRepetitions ruleName 0 18446744073709551615 { st with src := parseSpace isNested false src }).map some
    else if c = 43 then
      (handleRepetitions ruleName 1 18446744073709551615 { st with src := parseSpace isNested false src }).map some
    else if c = 63 then
      (handleRepetitions ruleName 0 1 { st with src := parseSpace isNested false src }).map some
    else if c = 123 then do
      let b ← bounds isNested (parseSpace isNested false src)
      if 2000 < b.1 ∨ b.2.1 ≠ 18446744073709551615 ∧ 2000 < b.2.1 then none
      else (handleRepetitions ruleName b.1 b.2.1 { st with src := b.2.2 }).map some
    else some none

/-- The loop of `parse_sequence`. -/
def seqLoop (tokenize : List UInt8 → Option UInt32) (alternates : Alternates) (ruleName : List UInt8)
    (isNested : Bool) : Nat → SeqState → Option SeqState
  | 0, _ => none
  | fuel + 1, st => do
    match ← seqStep tokenize alternates fuel ruleName isNested st with
    | none => return st
    | some st => seqLoop tokenize alternates ruleName isNested fuel st

/-- C++ `llama_grammar_parser::parse_sequence`. -/
def parseSequence (tokenize : List UInt8 → Option UInt32) (alternates : Alternates) (fuel : Nat) (src : List UInt8)
    (ruleName : List UInt8) (rule : GrRule) (isNested : Bool) (p : GrParser) :
    Option (List UInt8 × GrRule × GrParser) := do
  let st ← seqLoop tokenize alternates ruleName isNested fuel
    { src, rule, lastSymStart := rule.length, nPrevRules := 1, parser := p }
  return (st.src, st.rule, st.parser)

/-- The loop of `parse_alternates` over the alternatives that follow. -/
def altLoop (tokenize : List UInt8 → Option UInt32) (alternates : Alternates) (ruleName : List UInt8)
    (isNested : Bool) : Nat → List UInt8 → GrRule → GrParser → Option (List UInt8 × GrRule × GrParser)
  | 0, _, _, _ => none
  | fuel + 1, src, rule, p =>
    if src.head? = some 124 then do
      let s ← parseSequence tokenize alternates fuel (parseSpace true false src.tail) ruleName (rule ++ [⟨.alt, 0⟩])
        isNested p
      altLoop tokenize alternates ruleName isNested fuel s.1 s.2.1 s.2.2
    else some (src, rule, p)

/-- C++ `llama_grammar_parser::parse_alternates`. -/
def parseAlternates (tokenize : List UInt8 → Option UInt32) : Nat → Alternates
  | 0 => fun _ _ _ _ _ => none
  | fuel + 1 => fun src ruleName ruleId isNested p => do
    let s ← parseSequence tokenize (parseAlternates tokenize fuel) fuel src ruleName [] isNested p
    let s ← altLoop tokenize (parseAlternates tokenize fuel) ruleName isNested fuel s.1 s.2.1 s.2.2
    return (s.1, s.2.2.addRule ruleId (s.2.1 ++ [⟨.end, 0⟩]))

/-- C++ `llama_grammar_parser::parse_rule`. -/
def parseRule (tokenize : List UInt8 → Option UInt32) (fuel : Nat) (src : List UInt8) (p : GrParser) :
    Option (List UInt8 × GrParser) := do
  let n ← parseName src
  let r := p.getSymbolId n.1
  let rest := parseSpace false false n.2
  if rest.take 3 = [58, 58, 61] then
    let a ← parseAlternates tokenize fuel (parseSpace true false (rest.drop 3)) n.1 r.1 false r.2
    match a.1 with
    | [] => return ([], a.2)
    | c :: src =>
      if c = 13 then return (parseSpace true false (if src.head? = some 10 then src.tail else src), a.2)
      else if c = 10 then return (parseSpace true false src, a.2)
      else none
  else none

/-- The loop of `parse` over the rules. -/
def ruleLoop (tokenize : List UInt8 → Option UInt32) : Nat → List UInt8 → GrParser → Option GrParser
  | _, [], p => some p
  | 0, _ :: _, _ => none
  | fuel + 1, c :: src, p => do
    let r ← parseRule tokenize fuel (c :: src) p
    ruleLoop tokenize fuel r.1 r.2

/-- A reference to a rule that does not exist, by a symbol of the source. -/
def undefinedRef (p : GrParser) (e : GrElement) : Bool :=
  decide (e.type = .ruleRef) && (p.rules.getD e.value.toNat []).isEmpty && p.symbolIds.any fun kv => kv.2 = e.value

/-- C++ `llama_grammar_parser::parse`. -/
def parse (tokenize : List UInt8 → Option UInt32) (fuel : Nat) (src : List UInt8) : Option GrParser := do
  let p ← ruleLoop tokenize fuel (parseSpace true false src) {}
  if (p.rules.any fun rule => rule.isEmpty || rule.any p.undefinedRef) then none else some p

end GrParser

end Mallana
