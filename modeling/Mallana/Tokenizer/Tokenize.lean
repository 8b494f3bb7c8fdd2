import Mallana.Tokenizer.Bpe
import Mallana.Tokenizer.PlamoWalk
import Mallana.Tokenizer.Spm
import Mallana.Tokenizer.Ugm
import Mallana.Tokenizer.Wpm

/-!
# Tokenization

Model of `llama_vocab::impl::tokenize` in `llama-vocab.cpp` for the types SPM, BPE, WPM, UGM and PLaMo-2. The partition
skips the control tokens, but the sessions look up texts in a table that has all tokens.
-/

namespace Mallana.Tokenizer

open List Option

variable {F : Type}

/-- A special token that is put in front of or behind the tokens of a text, with its assertion. -/
def special (wanted : Bool) (id : Int) : Option (List Int) :=
  if wanted then (if id = -1 then none else some [id]) else some []

def spmFragments (a : Arith F) (v : Vocab F) (raw : Str) : List Fragment → Bool → Option (List Int)
  | [], _ => some []
  | .rawText offset length :: fs, isPrevSpecial => do
    let space : Str := if v.addSpacePrefix && isPrevSpecial then [32] else []
    let ids ← spmTokenize a v (escapeWhitespace (space ++ span raw offset length))
    let rest ← spmFragments a v raw fs false
    some (ids ++ rest)
  | .token id :: fs, _ => do
    let rest ← spmFragments a v raw fs true
    some ((id : Int) :: rest)

def eachFragment (session : Str → Option (List Int)) (raw : Str) : List Fragment → Option (List Int)
  | [] => some []
  | .rawText offset length :: fs => do
    let ids ← session (span raw offset length)
    let rest ← eachFragment session raw fs
    some (ids ++ rest)
  | .token id :: fs => do
    let rest ← eachFragment session raw fs
    some ((id : Int) :: rest)

/-- The tokens of the fragments, by the type of the vocabulary. -/
def fragmentTokens (a : Arith F) (u : Unicode) (v : Vocab F) (raw : Str) (fs : List Fragment) : Option (List Int) :=
  match v.type with
  | .spm => spmFragments a v raw fs true
  | .bpe => eachFragment (bpeTokenize u v) raw fs
  | .wpm => eachFragment (wpmTokenize u v) raw fs
  | .ugm => do
    let t ← ugmBuild a v
    eachFragment (ugmTokenize a v t) raw fs
  | .plamo2 => do
    let t ← plamoBuild a v
    eachFragment (fun text => some (plamoEncode t text)) raw fs

def frontSpecial (v : Vocab F) (addSpecial : Bool) : Option (List Int) :=
  match v.type with
  | .spm | .bpe | .ugm => special (addSpecial && v.addBos) v.specialBosId
  | .wpm => special addSpecial v.specialBosId
  | .plamo2 => some []

def backSpecial (v : Vocab F) (addSpecial : Bool) : Option (List Int) :=
  match v.type with
  | .spm | .bpe | .ugm => special (addSpecial && v.addEos) v.specialEosId
  | .wpm => special addSpecial v.specialSepId
  | .plamo2 => some []

/-- `llama_vocab::impl::tokenize`. -/
def tokenize (a : Arith F) (u : Unicode) (v : Vocab F) (raw : Str) (addSpecial parseSpecial : Bool) :
    Option (List Int) := do
  let front ← frontSpecial v addSpecial
  let ids ← fragmentTokens a u v raw (tokenizerStPartition v raw parseSpecial)
  let back ← backSpecial v addSpecial
  some (front ++ ids ++ back)

def wholeScores : Arith Int where
  lt x y := decide (x < y)
  eq x y := decide (x = y)
  add x y := x + y
  sub x y := x - y
  zero := 0
  fltMax := 2 ^ 128
  negFltMax := -2 ^ 128
  negDblMax := -2 ^ 1024
  ten := 10
  round x := some (x * 10000)

/-- Unicode tables for ASCII, and expressions without a match. -/
def asciiTables : Unicode where
  cptsNormalizeNfd cs := cs
  cptFlags c :=
    { isWhitespace := c == 32
      isControl := decide (c < 32)
      isPunctuation := decide (33 ≤ c ∧ c ≤ 47)
      isSymbol := decide (60 ≤ c ∧ c ≤ 62)
      isLetter := decide (97 ≤ c ∧ c ≤ 122)
      isNumber := decide (48 ≤ c ∧ c ≤ 57)
      nonzero := true }
  tolower c := if 65 ≤ c ∧ c ≤ 90 then c + 32 else c
  regexMatches _ _ := some []

def normalToken (text : Str) (score : Int) : TokenData Int := ⟨text, score, { normal := true }, { normal := true }⟩

/-- An SPM vocabulary with the tokens `<`, `s`, `>`, `<s` and the control token `<s>`. -/
def bosVocab : Vocab Int :=
  { Vocab.plain .spm [normalToken [60] (-3), normalToken [115] (-4), normalToken [62] (-5), normalToken [60, 115] (-2),
      ⟨[60, 115, 62], 0, { control := true }, { control := true }⟩] (-1) [4] (by decide) (by decide) (by decide) with
    escapeWhitespaces := true
    addBos := true
    specialBosId := 4 }

end Mallana.Tokenizer
