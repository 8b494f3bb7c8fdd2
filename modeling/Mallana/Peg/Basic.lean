import Mallana.Lib.Trie
import Mallana.Tokenizer.Basic

/-!
# The PEG executor

`common/peg-parser.cpp`: an arena of parsers, and the executor that runs them on an input. A lenient run says that it
needs more input where a strict one fails for want of it. The loops of the executor say why they stop, and the parser
makes a result of that. The nodes of the syntax tree are appended to one arena, and a result carries their numbers.
-/

namespace Mallana.Peg

open Tokenizer (Str isCont low)

/-- `utf8_parse_result`. -/
inductive Utf8Result where
  | success (codepoint : UInt32) (bytesConsumed : Nat)
  | incomplete
  | invalid
deriving DecidableEq

/-- A code point whose first byte holds the bits `head` and is followed by `k` bytes of six bits. -/
def continued (head : UInt32) (k : Nat) (bs : Str) : Utf8Result :=
  if bs.length < k then .incomplete
  else if (bs.take k).all isCont then .success ((bs.take k).foldl (fun c b => c <<< 6 ||| low b 0x3f) head) (k + 1)
  else .invalid

def parseFrom (b : UInt8) (bs : Str) : Utf8Result :=
  if b &&& 0x80 = 0 then .success b.toUInt32 1
  else if b &&& 0x40 = 0 then .invalid
  else if b &&& 0x20 = 0 then continued (low b 0x1f) 1 bs
  else if b &&& 0x10 = 0 then continued (low b 0x0f) 2 bs
  else if b &&& 0x08 = 0 then continued (low b 0x07) 3 bs
  else .invalid

/-- `common_parse_utf8_codepoint` on the input from its offset on. -/
def parseUtf8Codepoint : Str → Utf8Result
  | [] => .incomplete
  | b :: bs => parseFrom b bs

def isHexDigit (c : UInt8) : Bool := (48 ≤ c && c ≤ 57) || (97 ≤ c && c ≤ 102) || (65 ≤ c && c ≤ 70)

/-- `std::isspace` in the C locale. -/
def isSpace (c : UInt8) : Bool := c == 32 || (9 ≤ c && c ≤ 13)

/-- The code points of a word, up to one that cannot be parsed. -/
def wordCodepoints : Nat → Str → List UInt32
  | 0, _ => []
  | fuel + 1, word =>
    match parseUtf8Codepoint word with
    | .success c n => c :: wordCodepoints fuel (word.drop n)
    | _ => []

/-- The `trie` of a list of words. -/
def matcher (words : List Str) : Lib.Trie UInt32 Unit :=
  .ofList (words.map fun word => (wordCodepoints word.length word, ()))

/-- `trie::match_result`. -/
inductive MatchResult where
  | noMatch
  | partialMatch
  | completeMatch
deriving DecidableEq

/-- The loop of `trie::check_at`; `inside` says that the node is not the root. -/
def checkFrom : Nat → Lib.Trie UInt32 Unit → Bool → Str → MatchResult
  | 0, _, inside, _ => if inside then .partialMatch else .noMatch
  | fuel + 1, t, inside, bs =>
    match parseUtf8Codepoint bs with
    | .success c n =>
      match t.child c with
      | none => .noMatch
      | some s => if s.value.isSome then .completeMatch else checkFrom fuel s true (bs.drop n)
    | _ => if inside then .partialMatch else .noMatch

/-- `trie::check_at` on the input from the position on. -/
def checkAt (t : Lib.Trie UInt32 Unit) (bs : Str) : MatchResult := checkFrom (bs.length + 1) t false bs

/-- `common_peg_chars_parser::char_range`. -/
structure CharRange where
  start : UInt32
  stop : UInt32
deriving DecidableEq

def CharRange.contains (r : CharRange) (codepoint : UInt32) : Bool := r.start ≤ codepoint && codepoint ≤ r.stop

/-- `common_peg_parser_variant`. -/
inductive Node where
  | epsilon
  | start
  | end_
  | literal (literal : Str)
  | sequence (children : List Nat)
  | choice (children : List Nat)
  | repetition (child : Nat) (minCount maxCount : Int)
  | and (child : Nat)
  | not (child : Nat)
  | any
  | space
  | chars (pattern : Str) (ranges : List CharRange) (negated : Bool) (minCount maxCount : Int)
  | string (delimiter : UInt8)
  | until_ (delimiters : List Str)
  | schema (child : Nat) (name : Str) (raw : Bool)
  | rule (name : Str) (child : Nat) (trigger : Bool)
  | ref (name : Str)
  | atomic (child : Nat)
  | tag (child : Nat) (tag : Str)
deriving DecidableEq

def Node.children : Node → List Nat
  | .sequence children | .choice children => children
  | .repetition child _ _ | .and child | .not child | .schema child _ _ | .rule _ child _ | .atomic child
  | .tag child _ => [child]
  | _ => []

/-- `common_peg_arena`, with a root, where every number and every name of a rule means a parser. -/
structure Arena where
  parsers : List Node
  rules : List (Str × Nat)
  root : Nat
  root_lt : root < parsers.length
  children_lt : ∀ node ∈ parsers, ∀ child ∈ node.children, child < parsers.length
  rules_lt : ∀ rule ∈ rules, rule.2 < parsers.length
  refs : ∀ name, .ref name ∈ parsers → name ∈ rules.map Prod.fst

/-- `common_peg_arena::get_rule`; `none` if there is no such rule. -/
def Arena.getRule (a : Arena) (name : Str) : Option Nat := (a.rules.find? fun rule => rule.1 = name).map Prod.snd

/-- `common_peg_parse_context`. -/
structure Context where
  input : Str
  lenient : Bool

/-- `common_peg_ast_node`. -/
structure AstNode where
  rule : Str
  tag : Str
  start : Nat
  stop : Nat
  text : Str
  children : List Nat
  isPartial : Bool

/-- `common_peg_ast_arena`; the number of a node is its index. -/
abbrev AstArena := List AstNode

/-- `common_peg_parse_result_type`. -/
inductive ResultType where
  | fail
  | success
  | needMoreInput
deriving DecidableEq

/-- `common_peg_parse_result`. -/
structure Result where
  type : ResultType
  start : Nat
  stop : Nat
  nodes : List Nat := []

/-- Why a scan of the input stopped. -/
inductive Scan where
  | matched (stop : Nat)
  | cut (stop : Nat)
  | differs
deriving DecidableEq

/-- The loop of `common_peg_literal_parser`. -/
def literalLoop (input : Str) : Str → Nat → Scan
  | [], pos => .matched pos
  | b :: literal, pos =>
    match input[pos]? with
    | none => .cut pos
    | some c => if c = b then literalLoop input literal (pos + 1) else .differs

/-- `common_peg_any_parser`. -/
def anyScan (input : Str) (pos : Nat) : Scan :=
  match parseUtf8Codepoint (input.drop pos) with
  | .incomplete => .cut pos
  | .invalid => .differs
  | .success _ n => .matched (pos + n)

/-- The loop of `common_peg_space_parser`: the number of spaces. -/
def spaceLoop : Str → Nat
  | [] => 0
  | c :: cs => if isSpace c then spaceLoop cs + 1 else 0

/-- Why the loop of `common_peg_chars_parser` stopped. -/
inductive CharsStop where
  | full
  | incomplete
  | invalid
  | mismatch
deriving DecidableEq

def inClass (ranges : List CharRange) (negated : Bool) (codepoint : UInt32) : Bool :=
  (ranges.any fun r => r.contains codepoint) != negated

/-- The loop of `common_peg_chars_parser`: why it stopped, where, and behind how many matches. -/
def charsLoop (input : Str) (matches_ : UInt32 → Bool) (maxCount : Int) : Nat → Nat → Nat → Option (CharsStop × Nat × Nat)
  | 0, _, _ => none
  | fuel + 1, pos, count =>
    if maxCount = -1 ∨ count < maxCount then
      match parseUtf8Codepoint (input.drop pos) with
      | .incomplete => some (.incomplete, pos, count)
      | .invalid => some (.invalid, pos, count)
      | .success c n =>
        if matches_ c then charsLoop input matches_ maxCount fuel (pos + n) (count + 1) else some (.mismatch, pos, count)
    else some (.full, pos, count)

/-- The loop of `handle_unicode_escape`. -/
def hexLoop (input : Str) : Nat → Nat → Scan
  | 0, pos => .matched pos
  | k + 1, pos =>
    match input[pos]? with
    | none => .cut pos
    | some c => if isHexDigit c then hexLoop input k (pos + 1) else .differs

/-- The bytes that may follow a backslash, apart from `u`. -/
def escapable (delimiter : UInt8) : List UInt8 := [delimiter, 92, 47, 98, 102, 110, 114, 116]

/-- `handle_escape_sequence` at a backslash. -/
def handleEscapeSequence (input : Str) (delimiter : UInt8) (pos : Nat) : Scan :=
  match input[pos + 1]? with
  | none => .cut (pos + 1)
  | some c =>
    if c ∈ escapable delimiter then .matched (pos + 2)
    else if c = 117 then hexLoop input 4 (pos + 2)
    else .differs

/-- Why the loop of `common_peg_string_parser` stopped. -/
inductive StringStop where
  | closed (stop : Nat)
  | unclosed (stop : Nat)
  | cut (stop : Nat)
  | differs
deriving DecidableEq

def stringChar (input : Str) (delimiter c : UInt8) (pos : Nat) : Scan :=
  if c = 92 then handleEscapeSequence input delimiter pos else anyScan input pos

/-- The loop of `common_peg_string_parser`. -/
def stringLoop (input : Str) (delimiter : UInt8) : Nat → Nat → Option StringStop
  | 0, _ => none
  | fuel + 1, pos =>
    match input[pos]? with
    | none => some (.unclosed pos)
    | some c =>
      if c = delimiter then some (.closed pos)
      else
        match stringChar input delimiter c pos with
        | .matched stop => stringLoop input delimiter fuel stop
        | .cut stop => some (.cut stop)
        | .differs => some .differs

/-- Why the loop of `common_peg_until_parser` stopped. -/
inductive UntilStop where
  | finished
  | incomplete
  | invalid
  | completeMatch
  | partialMatch
deriving DecidableEq

/-- The loop of `common_peg_until_parser`: why it stopped, and where. -/
def untilLoop (input : Str) (t : Lib.Trie UInt32 Unit) : Nat → Nat → Option (UntilStop × Nat)
  | 0, _ => none
  | fuel + 1, pos =>
    if pos < input.length then
      match parseUtf8Codepoint (input.drop pos) with
      | .incomplete => some (.incomplete, pos)
      | .invalid => some (.invalid, pos)
      | .success _ n =>
        match checkAt t (input.drop pos) with
        | .completeMatch => some (.completeMatch, pos)
        | .partialMatch => some (.partialMatch, pos)
        | .noMatch => untilLoop input t fuel (pos + n)
    else some (.finished, pos)

section
variable (c : Context) (start : Nat)

def shortage (stop : Nat) : Result := if c.lenient then ⟨.needMoreInput, start, stop, []⟩ else ⟨.fail, start, start, []⟩

def tooFew (pos : Nat) (nodes : List Nat) : Result :=
  if c.input.length ≤ pos && c.lenient then ⟨.needMoreInput, start, pos, nodes⟩ else ⟨.fail, start, pos, []⟩

def scanResult : Scan → Result
  | .matched stop => ⟨.success, start, stop, []⟩
  | .cut stop => shortage c start stop
  | .differs => ⟨.fail, start, start, []⟩

/-- The result of too few characters; the loop was at `pos` when it stopped. -/
def fewChars (pos : Nat) : CharsStop → Result
  | .incomplete => shortage c start pos
  | .invalid => ⟨.fail, start, start, []⟩
  | .full | .mismatch => tooFew c start pos []

def charsResult (minCount : Int) (out : CharsStop × Nat × Nat) : Result :=
  if out.2.2 < minCount then fewChars c start out.2.1 out.1 else ⟨.success, start, out.2.1, []⟩

def stringResult : StringStop → Result
  | .closed stop => ⟨.success, start, stop, []⟩
  | .unclosed stop => if c.lenient then ⟨.needMoreInput, start, stop, []⟩ else ⟨.fail, start, stop, []⟩
  | .cut stop => shortage c start stop
  | .differs => ⟨.fail, start, start, []⟩

def untilResult : UntilStop × Nat → Result
  | (.incomplete, pos) => shortage c start pos
  | (.invalid, _) => ⟨.fail, start, start, []⟩
  | (.completeMatch, pos) | (.partialMatch, pos) => ⟨.success, start, pos, []⟩
  | (.finished, pos) =>
    if pos = c.input.length && c.lenient then ⟨.needMoreInput, start, pos, []⟩ else ⟨.success, start, pos, []⟩

variable (parse : Nat → Nat → AstArena → Option (Result × AstArena))

/-- The loop of `common_peg_sequence_parser`. -/
def sequenceLoop : List Nat → Nat → List Nat → AstArena → Option (Result × AstArena)
  | [], pos, nodes, ast => some (⟨.success, start, pos, nodes⟩, ast)
  | child :: children, pos, nodes, ast => do
    let (result, ast) ← parse child pos ast
    match result.type with
    | .fail => some (⟨.fail, start, result.stop, []⟩, ast)
    | .needMoreInput => some (⟨.needMoreInput, start, result.stop, nodes ++ result.nodes⟩, ast)
    | .success => sequenceLoop children result.stop (nodes ++ result.nodes) ast

/-- The loop of `common_peg_choice_parser`. -/
def choiceLoop : List Nat → AstArena → Option (Result × AstArena)
  | [], ast => some (⟨.fail, start, start, []⟩, ast)
  | child :: children, ast => do
    let (result, ast) ← parse child start ast
    if result.type = .fail then choiceLoop children ast else some (result, ast)

/-- Why the loop of `common_peg_repetition_parser` stopped. -/
inductive RepetitionStop where
  | full
  | inputEnd
  | empty
  | failed
  | needMore (stop : Nat)
deriving DecidableEq

/-- The loop of `common_peg_repetition_parser`: why it stopped, where, behind how many matches, and their nodes. -/
def repetitionLoop (child : Nat) (maxCount : Int) :
    Nat → Nat → Nat → List Nat → AstArena → Option ((RepetitionStop × Nat × Nat × List Nat) × AstArena)
  | 0, _, _, _, _ => none
  | fuel + 1, pos, count, nodes, ast =>
    if maxCount = -1 ∨ count < maxCount then
      if c.input.length ≤ pos then some ((.inputEnd, pos, count, nodes), ast)
      else do
        let (result, ast) ← parse child pos ast
        match result.type with
        | .success =>
          if result.stop = pos then some ((.empty, pos, count, nodes), ast)
          else repetitionLoop child maxCount fuel result.stop (count + 1) (nodes ++ result.nodes) ast
        | .needMoreInput => some ((.needMore result.stop, pos, count, nodes ++ result.nodes), ast)
        | .fail => some ((.failed, pos, count, nodes), ast)
    else some ((.full, pos, count, nodes), ast)

def repetitionResult (minCount : Int) : RepetitionStop × Nat × Nat × List Nat → Result
  | (.needMore stop, _, _, nodes) => ⟨.needMoreInput, start, stop, nodes⟩
  | (_, pos, count, nodes) =>
    if 0 < minCount ∧ count < minCount then tooFew c start pos nodes else ⟨.success, start, pos, nodes⟩

/-- `&A`: the result without its match. -/
def andResult (result : Result) : Result := ⟨result.type, start, start, []⟩

/-- `!A`. -/
def notResult (result : Result) : Result :=
  match result.type with
  | .success => ⟨.fail, start, start, []⟩
  | .needMoreInput => ⟨.needMoreInput, start, start, []⟩
  | .fail => ⟨.success, start, start, []⟩

/-- The result of a rule or a tag: `add_node` with the nodes of the child. -/
def nodeResult (rule tag : Str) : Result × AstArena → Result × AstArena
  | (result, ast) =>
    if result.type = .fail then (result, ast)
    else
      let text := if result.start < c.input.length then (c.input.drop result.start).take (result.stop - result.start)
        else []
      (⟨result.type, result.start, result.stop, [ast.length]⟩,
        ast ++ [⟨rule, tag, result.start, result.stop, text, result.nodes, result.type == .needMoreInput⟩])

def atomicResult (result : Result) : Result :=
  if result.type = .needMoreInput then { result with nodes := [] } else result

/-- `parser_executor`: one parser, with `parse` for the others. -/
def executor (a : Arena) (node : Node) (ast : AstArena) : Option (Result × AstArena) :=
  match node with
  | .epsilon => some (⟨.success, start, start, []⟩, ast)
  | .start => some (⟨if start = 0 then .success else .fail, start, start, []⟩, ast)
  | .end_ => some (⟨if c.input.length ≤ start then .success else .fail, start, start, []⟩, ast)
  | .literal literal => some (scanResult c start (literalLoop c.input literal start), ast)
  | .sequence children => sequenceLoop start parse children start [] ast
  | .choice children => choiceLoop start parse children ast
  | .repetition child minCount maxCount =>
    (repetitionLoop c parse child maxCount (c.input.length + 1) start 0 [] ast).map
      (Prod.map (repetitionResult c start minCount) id)
  | .and child => (parse child start ast).map (Prod.map (andResult start) id)
  | .not child => (parse child start ast).map (Prod.map (notResult start) id)
  | .any => some (scanResult c start (anyScan c.input start), ast)
  | .space => some (⟨.success, start, start + spaceLoop (c.input.drop start), []⟩, ast)
  | .chars _ ranges negated minCount maxCount =>
    (charsLoop c.input (inClass ranges negated) maxCount (c.input.length + 1) start 0).map
      fun out => (charsResult c start minCount out, ast)
  | .string delimiter =>
    (stringLoop c.input delimiter (c.input.length + 1) start).map fun out => (stringResult c start out, ast)
  | .until_ delimiters =>
    (untilLoop c.input (matcher delimiters) (c.input.length + 1) start).map fun out => (untilResult c start out, ast)
  | .schema child _ _ => parse child start ast
  | .rule name child _ => (parse child start ast).map (nodeResult c name [])
  | .ref name => (a.getRule name).bind fun id => parse id start ast
  | .atomic child => (parse child start ast).map (Prod.map atomicResult id)
  | .tag child tag => (parse child start ast).map (nodeResult c [] tag)

end

/-- `common_peg_arena::parse`: the parser `id` at a position; `none` if the fuel does not suffice. -/
def parse (a : Arena) (c : Context) : Nat → Nat → Nat → AstArena → Option (Result × AstArena)
  | 0, _, _, _ => none
  | fuel + 1, id, start, ast => (a.parsers[id]?).bind fun node => executor c start (parse a c fuel) a node ast

end Mallana.Peg
