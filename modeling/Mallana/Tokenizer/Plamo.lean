import Mallana.Tokenizer.Utf8

/-!
# The PLaMo-2 session

Model of `llm_tokenizer_plamo2` in `llama-vocab.cpp`. The tokenizer is built from all suffixes of the tokens. The rows of
its table are in blocks, one for each suffix, with a row for each piece that the suffix begins with and a last row for an
unknown character. A text is read from its end, and the suffix that stands for a position is found from the one for the
position behind it.

The vector of `PATH_NUM_TOKENS` only reserves memory and is left out.
-/

namespace Mallana.Tokenizer

variable {F : Type}

def invalidScore : Int := -20000000

def unknownScore : Int := -10000000

/-- `suffix_to_score`; the score of a suffix that is no token is not a number. -/
abbrev SuffixScores (F : Type) := List (Str × Option F)

def SuffixScores.has (m : SuffixScores F) (s : Str) : Bool := m.any fun p => p.1 == s

def setScore (m : SuffixScores F) (text : Str) (score : F) : SuffixScores F :=
  if m.has text then m.map fun p => if p.1 = text then (text, some score) else p else m ++ [(text, some score)]

def addSuffix (m : SuffixScores F) (s : Str) : SuffixScores F := if m.has s then m else m ++ [(s, none)]

def properSuffixes (text : Str) : Option (List Str) :=
  (List.range' 1 ((cptsFromUtf8 text).length - 1)).mapM fun i => cptsToUtf8 ((cptsFromUtf8 text).drop i)

/-- The part of a token in `suffix_to_score`. -/
def addToken (m : SuffixScores F) (d : TokenData F) : Option (SuffixScores F) :=
  if d.built.byte then some m
  else do
    let suffixes ← properSuffixes d.text
    some (suffixes.foldl addSuffix (setScore m d.text d.score))

def suffixScores (v : Vocab F) : Option (SuffixScores F) := v.idToToken.foldlM addToken []

def hexValue (b : UInt8) : Option Nat :=
  if 48 ≤ b ∧ b ≤ 57 then some (b.toNat - 48)
  else if 97 ≤ b ∧ b ≤ 102 then some (b.toNat - 87)
  else if 65 ≤ b ∧ b ≤ 70 then some (b.toNat - 55)
  else none

def hexDigits : Str → List Nat
  | [] => []
  | b :: bs =>
    match hexValue b with
    | none => []
    | some d => d :: hexDigits bs

/-- `std::stoi` of two characters to the base 16; a negative number is no index. -/
def stoiHex (s : Str) : Option Nat :=
  let s := s.dropWhile isspace
  let digits := hexDigits (if s.head? = some 43 then s.tail else s)
  if digits = [] then none else some (digits.foldl (fun n d => 16 * n + d) 0)

/-- The part of a token in `bytes_`. -/
def addByte (bytes : List Int) (e : TokenData F × Nat) : Option (List Int) :=
  let text := e.1.text
  if e.1.built.byte && text.length == 6 && text.take 3 == [60, 48, 120] && text.getLast? == some 62 then do
    let n ← stoiHex (span text 3 2)
    some (bytes.set n e.2)
  else some bytes

/-- `bytes_`; every byte has to have a token, which is not the token 0. -/
def plamoBytes (v : Vocab F) : Option (List Int) := do
  let bytes ← v.idToToken.zipIdx.foldlM addByte (List.replicate 256 0)
  if bytes.any fun id => id == 0 then none else some bytes

/-- The order of `std::string`. -/
def lexLe : Str → Str → Bool
  | [], _ => true
  | _ :: _, [] => false
  | a :: as, b :: bs => decide (a < b) || (a == b && lexLe as bs)

def RevLe (a b : Str) : Prop := lexLe a.reverse b.reverse = true

instance : DecidableRel RevLe := fun a b => inferInstanceAs (Decidable (lexLe a.reverse b.reverse = true))

/-- The suffixes, in the lexicographical order of the reversed strings. -/
def sortedSuffixes (m : SuffixScores F) : List Str := (m.map Prod.fst ++ [[]]).insertionSort RevLe

/-- The pieces that a suffix begins with, the longest first, with their numbers of code points. -/
def piecesOf (m : SuffixScores F) (suffix : Str) : Option (List (Nat × Str)) := do
  let pieces ← (List.range (cptsFromUtf8 suffix).length).reverse.mapM fun i => do
    let piece ← cptsToUtf8 ((cptsFromUtf8 suffix).take (i + 1))
    some (i + 1, piece)
  some (pieces.filter fun p => m.has p.2)

abbrev Block := Str × List (Nat × Str)

/-- `suffix_to_id`, `to_suffix_id_` and `num_pieces`, the last entry of a map first. -/
structure Index where
  ids : List (Str × Nat) := []
  toSuffixId : List ((UInt32 × Nat) × Nat) := []
  numPieces : Nat := 0

/-- The body of the loop that builds `suffix_to_id` and `to_suffix_id_`. -/
def indexStep (x : Index) (b : Block) : Option Index :=
  let ids := (b.1, x.numPieces) :: x.ids
  match cptsFromUtf8 b.1 with
  | [] => some { x with ids := ids, numPieces := x.numPieces + 1 }
  | c :: cs => do
    let remaining ← cptsToUtf8 cs
    match ids.lookup remaining with
    | some id =>
      some ⟨ids, ((c, id), x.numPieces) :: x.toSuffixId, x.numPieces + (b.2.length + 1)⟩
    | none =>
      some ⟨(remaining, 0) :: ids, ((c, 0), x.numPieces) :: x.toSuffixId, x.numPieces + (b.2.length + 1)⟩

/-- A row of `table_`. -/
structure TableRow where
  pieceLength : Nat
  tokenId : Int
  score : Int
  pieceId : Nat

def pieceRow (a : Arith F) (v : Vocab F) (m : SuffixScores F) (ids : List (Str × Nat)) (p : Nat × Str) : TableRow where
  pieceLength := p.1
  tokenId := textToToken v p.2
  score := (((m.lookup p.2).bind id).bind a.round).getD invalidScore
  pieceId := (ids.lookup p.2).getD 0

def sentinelRow : TableRow := ⟨1, -1, unknownScore, 0⟩

def blockRows (a : Arith F) (v : Vocab F) (m : SuffixScores F) (ids : List (Str × Nat)) (b : Block) : List TableRow :=
  b.2.map (pieceRow a v m ids) ++ [sentinelRow]

/-- `llm_tokenizer_plamo2`. -/
structure Plamo where
  bytes : List Int
  toSuffixId : List ((UInt32 × Nat) × Nat)
  table : List TableRow

def plamoBlocks (m : SuffixScores F) : Option (List Block) :=
  (sortedSuffixes m).mapM fun s => (piecesOf m s).map fun pieces => (s, pieces)

/-- `llm_tokenizer_plamo2::build`. -/
def plamoBuild (a : Arith F) (v : Vocab F) : Option Plamo := do
  let m ← suffixScores v
  let bytes ← plamoBytes v
  let blocks ← plamoBlocks m
  let x ← blocks.foldlM indexStep {}
  some ⟨bytes, x.toSuffixId, blocks.flatMap (blockRows a v m x.ids)⟩

/-- The best tokenization from a position on: its score and its first token. -/
structure Cell where
  score : Int := 0
  tokenLength : Nat := 0
  tokenId : Int := 0

def noPath : Cell := { score := 2 ^ 60 }

/-- The loop that finds the next suffix, over the rows from the present suffix on. -/
def nextSuffix (t : Plamo) (c : UInt32) : Nat → List TableRow → Nat
  | current, [] => current
  | _, row :: rows =>
    let id := (t.toSuffixId.lookup (c, row.pieceId)).getD 0
    if 0 < id ∨ row.score = unknownScore then id else nextSuffix t c id rows

/-- A row is taken if it makes the score lower; `cells` are those behind the position. -/
def improve (cells : List Cell) (cell : Cell) (row : TableRow) : Cell :=
  let s := (cells.getD (row.pieceLength - 1) noPath).score - row.score
  if invalidScore < row.score ∧ s < cell.score then ⟨s, row.pieceLength, row.tokenId⟩ else cell

def bestCell (cells : List Cell) : Cell → List TableRow → Cell
  | cell, [] => cell
  | cell, row :: rows =>
    if row.score = unknownScore then improve cells cell row else bestCell cells (improve cells cell row) rows

/-- The loop from the end of the text to its beginning: the present suffix and the cells. -/
def sweep (t : Plamo) : List UInt32 → Nat × List Cell
  | [] => (0, [{}])
  | c :: cs =>
    let id := nextSuffix t c (sweep t cs).1 (t.table.drop (sweep t cs).1)
    (id, bestCell (sweep t cs).2 noPath (t.table.drop id) :: (sweep t cs).2)

def byteTokens (t : Plamo) (c : UInt32) : List Int :=
  let s := 1 + (if 0x80 ≤ c then 1 else 0) + (if 0x800 ≤ c then 1 else 0) + (if 0x10000 ≤ c then 1 else 0)
  (List.range s).map fun i =>
    let b := if s = 1 then c.toNat % 256 else if i = 0 then (0xF00 >>> s) % 256 else 0x80
    t.bytes.getD (b ||| ((c.toNat >>> ((s - i - 1) * 6)) &&& 0x3F)) 0

def decodePath (t : Plamo) : Nat → List UInt32 → List Cell → List Int
  | fuel + 1, c :: cs, cell :: cells =>
    (if 0 ≤ cell.tokenId then [cell.tokenId] else byteTokens t c) ++
      decodePath t fuel ((c :: cs).drop cell.tokenLength) ((cell :: cells).drop cell.tokenLength)
  | _, _, _ => []

def plamoData (text : Str) : List UInt32 :=
  match cptsFromUtf8 text with
  | [] => []
  | c :: cs => if c = 0xFEFF then cs else c :: cs

/-- `llm_tokenizer_plamo2::encode`. -/
def plamoEncode (t : Plamo) (text : Str) : List Int :=
  decodePath t (plamoData text).length (plamoData text) (sweep t (plamoData text)).2

end Mallana.Tokenizer
