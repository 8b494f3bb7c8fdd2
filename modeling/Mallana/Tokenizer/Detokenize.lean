import Mallana.Tokenizer.ByteText
import Mallana.Tokenizer.Tokenize

/-!
# Detokenization

Model of `llama_vocab::impl::token_to_piece` in `llama-vocab.cpp`, and of the pieces of a list of tokens. The buffers
are large enough.
-/

namespace Mallana.Tokenizer

open List

variable {F : Type}

/-- `replace_all` with U+2581 and a space; `skip` bytes belong to the last match. -/
def unescapeFrom : Nat → Str → Str
  | _, [] => []
  | skip + 1, _ :: rest => unescapeFrom skip rest
  | 0, b :: rest =>
    if (b :: rest).take 3 = escapedSpace then 32 :: unescapeFrom 2 rest else b :: unescapeFrom 0 rest

/-- `llama_unescape_whitespace`. -/
def unescapeWhitespace (word : Str) : Str := unescapeFrom 0 word

/-- The number that `strtol` and `std::stoi` read of two characters to the base 16, if there are digits. -/
def hexNumber (buf : Str) : Option Int :=
  let buf := buf.dropWhile isspace
  let negative := buf.head? == some 45
  let digits := hexDigits (if negative || buf.head? == some 43 then buf.tail else buf)
  let n : Nat := digits.foldl (fun n d => 16 * n + d) 0
  if digits = [] then none else some (if negative then -n else n)

def lowByte (n : Int) : UInt8 := UInt8.ofNat (n % 256).toNat

/-- `llama_vocab::impl::token_to_byte` for vocabularies of type SPM and UGM, with its assertion. -/
def tokenToByte (v : Vocab F) (d : TokenData F) : Option UInt8 :=
  match v.type with
  | .spm | .ugm =>
    if d.attr.byte && 3 ≤ d.text.length then some (lowByte ((hexNumber (span d.text 3 2)).getD 0)) else none
  | _ => none

/-- `_try_copy`: one leading space may be skipped. -/
def lstripPiece (lstrip : Bool) (piece : Str) : Str := if lstrip && piece.head? == some 32 then piece.tail else piece

/-- The piece of a token of a vocabulary of type WPM, SPM or UGM. -/
def whitespacePiece (v : Vocab F) (lstrip : Bool) (d : TokenData F) : Option Str :=
  if d.attr.unknown || d.attr.control || d.attr.userDefined then some (lstripPiece lstrip d.text)
  else if d.attr.normal then some (lstripPiece lstrip (unescapeWhitespace d.text))
  else if d.attr.byte then (tokenToByte v d).map fun b => lstripPiece lstrip [b]
  -- all unsupported token types are suppressed
  else some []

def plamoPiece (lstrip : Bool) (d : TokenData F) : Option Str :=
  if d.attr.byte && d.text.length == 6 && d.text.take 3 == [60, 48, 120] && d.text.getLast? == some 62 then
    (hexNumber (span d.text 3 2)).map fun n => [lowByte n]
  else some (lstripPiece lstrip d.text)

/-- `llama_vocab::impl::token_to_piece`. -/
def pieceOf (v : Vocab F) (special lstrip : Bool) (id : Int) : Option Str :=
  if v.type = .bpe then (tokenToPiece v special id).map (lstripPiece lstrip)
  else if id < 0 then none
  else
    (v.idToToken[id.toNat]?).bind fun d =>
      if !special && (d.attr.unknown || d.attr.control) then some []
      else if v.type = .plamo2 then plamoPiece lstrip d
      else whitespacePiece v lstrip d

def piecesFrom (v : Vocab F) (special : Bool) : Bool → List Int → Option Str
  | _, [] => some []
  | lstrip, id :: ids => do
    let piece ← pieceOf v special lstrip id
    let rest ← piecesFrom v special false ids
    some (piece ++ rest)

section
variable {v : Vocab F} {ids : List Int}

/-- The pieces of the tokens of two texts are those of both, since only the first token can lose a space. -/
lemma piecesFrom_append {special : Bool} {ids' : List Int} (hne : ids ≠ []) :
    ∀ {lstrip : Bool} {t t' : Str}, piecesFrom v special lstrip ids = some t →
      piecesFrom v special false ids' = some t' → piecesFrom v special lstrip (ids ++ ids') = some (t ++ t') := by
  induction ids with
  | nil => exact absurd rfl hne
  | cons id ids ih =>
    intro lstrip t t' h h'
    obtain ⟨piece, hpiece, h⟩ := Option.bind_eq_some_iff.1 h
    obtain ⟨rest, hrest, h⟩ := Option.bind_eq_some_iff.1 h
    cases h
    rw [cons_append, piecesFrom, hpiece]
    cases ids with
    | nil =>
      cases hrest
      rw [nil_append, h', append_nil]
      rfl
    | cons id' ids =>
      rw [ih (cons_ne_nil _ _) hrest h', append_assoc]
      rfl

end

/-- The text of a byte token gives the byte back. -/
lemma lowByte_byteText (b : UInt8) : lowByte ((hexNumber (span (byteText b) 3 2)).getD 0) = b :=
  forall_byte (fun b => lowByte ((hexNumber (span (byteText b) 3 2)).getD 0) = b) (by decide +kernel) b

/-- No two bytes have the same text. -/
lemma byteText_inj {b c : UInt8} (h : byteText b = byteText c) : b = c := by
  rw [← lowByte_byteText b, h, lowByte_byteText c]

end Mallana.Tokenizer
