import Mathlib.Algebra.Order.Ring.Int
import Mathlib.Data.List.Infix
import Mathlib.Data.List.Sort

/-!
# Vocabularies

Model of the data of `llama_vocab::impl` that tokenization reads, of the UTF-8 functions of `unicode.cpp` and of the
partition of a text by its special tokens. A `std::string` is a list of bytes and a token is an integer, with `-1` for
`LLAMA_TOKEN_NULL`. A result `none` is an exception or an abort.

The tables of Unicode data (`unicode-data.cpp`) and the matches of `std::regex` are parameters, and so is the arithmetic
of scores.
-/

namespace Mallana.Tokenizer

open List

abbrev Str := List UInt8

instance : LawfulBEq Str := inferInstance

/-- The bytes `[start, start + n)` of a string. -/
def span (text : Str) (start n : Nat) : Str := (text.drop start).take n

lemma span_isInfix (text : Str) (start n : Nat) : span text start n <:+: text := by
  have front := take_prefix n (text.drop start)
  exact front.isInfix.trans (drop_suffix _ _).isInfix

lemma span_add (text : Str) (start n m : Nat) :
    span text start (n + m) = span text start n ++ span text (start + n) m := by
  simp only [span, take_add, drop_drop]

lemma mem_of_mapM {α β : Type} {f : α → Option β} :
    ∀ {xs : List α} {ys : List β}, xs.mapM f = some ys → ∀ y ∈ ys, ∃ x ∈ xs, f x = some y := by
  intro xs
  induction xs with
  | nil =>
    intro ys h y hy
    cases h
    cases hy
  | cons x xs ih =>
    intro ys h y hy
    rw [mapM_cons] at h
    obtain ⟨z, hz, h⟩ := Option.bind_eq_some_iff.1 h
    obtain ⟨zs, hzs, h⟩ := Option.bind_eq_some_iff.1 h
    cases h
    rcases mem_cons.1 hy with rfl | hy
    · exact ⟨x, mem_cons_self, hz⟩
    · obtain ⟨w, hw, hfw⟩ := ih hzs y hy
      exact ⟨w, mem_cons_of_mem _ hw, hfw⟩

/-- `unicode_len_utf8`. -/
def lenUtf8 (src : UInt8) : Nat :=
  if src >>> 4 < 12 then 1 else if src >>> 4 < 14 then 2 else if src >>> 4 < 15 then 3 else 4

lemma lenUtf8_pos (src : UInt8) : 0 < lenUtf8 src := by
  unfold lenUtf8
  split
  · decide
  split
  · decide
  split <;> decide

def isCont (b : UInt8) : Bool := b &&& 0xc0 == 0x80

def low (b mask : UInt8) : UInt32 := (b &&& mask).toUInt32

/-- `unicode_cpt_from_utf8` at the head of the bytes: the code point and the number of bytes it takes. -/
def cptFromUtf8 : Str → Option (UInt32 × Nat)
  | [] => none
  | b :: bs =>
    if b &&& 0x80 = 0 then some (b.toUInt32, 1)
    else if b &&& 0x40 = 0 then none
    else if b &&& 0x20 = 0 then
      match bs with
      | b1 :: _ => if isCont b1 then some (low b 0x1f <<< 6 ||| low b1 0x3f, 2) else none
      | _ => none
    else if b &&& 0x10 = 0 then
      match bs with
      | b1 :: b2 :: _ =>
        if isCont b1 && isCont b2 then some (low b 0x0f <<< 12 ||| low b1 0x3f <<< 6 ||| low b2 0x3f, 3) else none
      | _ => none
    else if b &&& 0x08 = 0 then
      match bs with
      | b1 :: b2 :: b3 :: _ =>
        if isCont b1 && isCont b2 && isCont b3 then
          some (low b 0x07 <<< 18 ||| low b1 0x3f <<< 12 ||| low b2 0x3f <<< 6 ||| low b3 0x3f, 4)
        else none
      | _ => none
    else none

/-- The loop of `unicode_cpts_from_utf8`: a byte that begins no code point is replaced by U+FFFD. -/
def cptsLoop : Nat → Str → List UInt32
  | 0, _ => []
  | _ + 1, [] => []
  | fuel + 1, b :: bs =>
    match cptFromUtf8 (b :: bs) with
    | some (c, n) => c :: cptsLoop fuel ((b :: bs).drop n)
    | none => 0xFFFD :: cptsLoop fuel bs

/-- `unicode_cpts_from_utf8`. -/
def cptsFromUtf8 (utf8 : Str) : List UInt32 := cptsLoop utf8.length utf8

def tagged (tag c shift mask : UInt32) : UInt8 := (tag ||| (c >>> shift &&& mask)).toUInt8

/-- `unicode_cpt_to_utf8`. -/
def cptToUtf8 (c : UInt32) : Option Str :=
  if c ≤ 0x7f then some [c.toUInt8]
  else if c ≤ 0x7ff then some [tagged 0xc0 c 6 0x1f, tagged 0x80 c 0 0x3f]
  else if c ≤ 0xffff then some [tagged 0xe0 c 12 0x0f, tagged 0x80 c 6 0x3f, tagged 0x80 c 0 0x3f]
  else if c ≤ 0x10ffff then
    some [tagged 0xf0 c 18 0x07, tagged 0x80 c 12 0x3f, tagged 0x80 c 6 0x3f, tagged 0x80 c 0 0x3f]
  else none

def cptsToUtf8 (cs : List UInt32) : Option Str := (cs.mapM cptToUtf8).map List.flatten

/-- The flags of `llama_token_attr` that tokenization reads. -/
structure Attr where
  unknown : Bool := false
  unused : Bool := false
  normal : Bool := false
  control : Bool := false
  userDefined : Bool := false
  byte : Bool := false
  lstrip : Bool := false
  rstrip : Bool := false
deriving DecidableEq

/-- A token; `built` is the attribute it had when `init_tokenizer` built the tables of the tokenizer. -/
structure TokenData (F : Type) where
  text : Str
  score : F
  attr : Attr
  built : Attr

inductive VocabType where
  | spm
  | bpe
  | wpm
  | ugm
  | plamo2
deriving DecidableEq

/-- The flags of `unicode_cpt_flags` that tokenization reads; `nonzero` says that some flag is set. -/
structure CptFlags where
  isWhitespace : Bool := false
  isControl : Bool := false
  isPunctuation : Bool := false
  isSymbol : Bool := false
  isLetter : Bool := false
  isNumber : Bool := false
  nonzero : Bool := false

/-- The tables of Unicode data, and the positions and lengths of the matches of an expression that `std::regex` finds in
code points. -/
structure Unicode where
  cptsNormalizeNfd : List UInt32 → List UInt32
  cptFlags : UInt32 → CptFlags
  tolower : UInt32 → UInt32
  regexMatches : Str → List UInt32 → Option (List (Nat × Nat))

/-- The arithmetic of scores: `double`, of which the values of type `float` are a part. -/
structure Arith (F : Type) where
  lt : F → F → Bool
  eq : F → F → Bool
  add : F → F → F
  /-- Subtraction of type `float`. -/
  sub : F → F → F
  zero : F
  fltMax : F
  negFltMax : F
  negDblMax : F
  ten : F
  /-- `std::round(score * 1e4)` of a finite score. -/
  round : F → Option Int

/-- The part of `llama_vocab::impl` that tokenization reads. -/
structure Vocab (F : Type) where
  type : VocabType
  idToToken : List (TokenData F)
  bpeRanks : Str → Str → Option Nat
  /-- The expressions of the pre-tokenizer. -/
  regexExprs : List Str
  addSpacePrefix : Bool
  escapeWhitespaces : Bool
  treatWhitespaceAsSuffix : Bool
  removeExtraWhitespaces : Bool
  ignoreMerges : Bool
  addBos : Bool
  addEos : Bool
  specialBosId : Int
  specialEosId : Int
  specialSepId : Int
  specialUnkId : Int
  precompiledCharsmap : Str
  /-- The tokens with a flag CONTROL, USER_DEFINED or UNKNOWN, in the order in which they are tried. -/
  cacheSpecialTokens : List Nat
  cache_special : ∀ id ∈ cacheSpecialTokens, ∃ d, idToToken[id]? = some d ∧
    (d.attr.control = true ∨ d.attr.userDefined = true ∨ d.attr.unknown = true)
  /-- `id_to_token.size() == token_to_id.size()`. -/
  text_nodup : (idToToken.map TokenData.text).Nodup
  /-- An empty token is renamed on loading. -/
  text_ne : ∀ d ∈ idToToken, d.text ≠ []

variable {F : Type}

/-- A vocabulary without rules and flags, whose only special token may be the unknown one. -/
def Vocab.plain (type : VocabType) (tokens : List (TokenData F)) (unk : Int) (special : List Nat)
    (hspecial : ∀ id ∈ special, ∃ d, tokens[id]? = some d ∧
      (d.attr.control = true ∨ d.attr.userDefined = true ∨ d.attr.unknown = true))
    (hnodup : (tokens.map TokenData.text).Nodup) (hne : ∀ d ∈ tokens, d.text ≠ []) : Vocab F where
  type
  idToToken := tokens
  bpeRanks _ _ := none
  regexExprs := []
  addSpacePrefix := false
  escapeWhitespaces := false
  treatWhitespaceAsSuffix := false
  removeExtraWhitespaces := false
  ignoreMerges := false
  addBos := false
  addEos := false
  specialBosId := -1
  specialEosId := -1
  specialSepId := -1
  specialUnkId := unk
  precompiledCharsmap := []
  cacheSpecialTokens := special
  cache_special := hspecial
  text_nodup := hnodup
  text_ne := hne

/-- `llama_vocab::impl::is_control` and the other tests of a flag; `-1` is no token. -/
def attr (v : Vocab F) (id : Int) : Attr :=
  if id < 0 then {} else ((v.idToToken[id.toNat]?).map TokenData.attr).getD {}

/-- `llama_vocab::text_to_token`. -/
def textToToken (v : Vocab F) (text : Str) : Int :=
  match v.idToToken.findIdx? fun d => d.text == text with
  | some id => id
  | none => -1

def hexDigit (n : UInt8) : UInt8 := if n < 10 then 48 + n else 55 + n

/-- The text `<0xHH>` of a byte. -/
def byteText (ch : UInt8) : Str := [60, 48, 120, hexDigit (ch >>> 4), hexDigit (ch &&& 15), 62]

/-- `llama_vocab::byte_to_token` for vocabularies of type SPM and UGM. -/
def byteToToken (v : Vocab F) (ch : UInt8) : Option Int :=
  if textToToken v (byteText ch) ≠ -1 then some (textToToken v (byteText ch))
  else if textToToken v [ch] ≠ -1 then some (textToToken v [ch])
  else none

def escapedSpace : Str := [0xe2, 0x96, 0x81]

/-- `llama_escape_whitespace`. -/
def escapeWhitespace (text : Str) : Str := text.flatMap fun b => if b = 32 then escapedSpace else [b]

/-- `max_token_len`. -/
def maxTokenLen (v : Vocab F) : Nat := (v.idToToken.map fun d => d.text.length).foldl max 0

inductive Fragment where
  | token (id : Nat)
  | rawText (offset length : Nat)
deriving DecidableEq

/-- C `isspace`. -/
def isspace (b : UInt8) : Bool := (9 ≤ b && b ≤ 13) || b == 32

/-- `std::string_view::find` between two offsets. -/
def findIn (text pat : Str) (lo hi : Nat) : Option Nat :=
  (List.range' lo (hi + 1 - pat.length - lo)).find? fun m => span text m pat.length == pat

def lstripLen (raw : Str) (offset : Nat) : Nat → Nat
  | 0 => 0
  | n + 1 => if isspace (raw.getD (offset + n) 0) then lstripLen raw offset n else n + 1

def rstripBy (raw : Str) : Nat → Nat → Nat × Nat
  | offset, 0 => (offset, 0)
  | offset, n + 1 => if isspace (raw.getD offset 0) then rstripBy raw (offset + 1) n else (offset, n + 1)

/-- The loop over the occurrences of a special token in a fragment: what the fragment is replaced by. -/
def splitFragment (raw : Str) (id : Nat) (text : Str) (a : Attr) : Nat → Nat → Nat → List Fragment
  | 0, offset, length => if length = 0 then [] else [.rawText offset length]
  | fuel + 1, offset, length =>
    match findIn raw text offset (offset + length) with
    | none => if length = 0 then [] else [.rawText offset length]
    | some pos =>
      let leftLen := if a.lstrip then lstripLen raw offset (pos - offset) else pos - offset
      let left := if leftLen = 0 then [] else [Fragment.rawText offset leftLen]
      if pos + text.length < offset + length then
        let rightLen := length - ((pos - offset) + text.length)
        let right := if a.rstrip then rstripBy raw (pos + text.length) rightLen else (pos + text.length, rightLen)
        left ++ .token id :: splitFragment raw id text a fuel right.1 right.2
      else left ++ [.token id]

/-- `llama_vocab::impl::tokenizer_st_partition` for one special token. -/
def partitionBy (v : Vocab F) (raw : Str) (parseSpecial : Bool) (buffer : List Fragment) (id : Nat) : List Fragment :=
  match v.idToToken[id]? with
  | none => buffer
  | some data =>
    -- control and unknown tokens are ignored when `parse_special == false`
    if !parseSpecial && (data.attr.control || data.attr.unknown) then buffer
    else buffer.flatMap fun
      | .token t => [.token t]
      | .rawText offset length => splitFragment raw id data.text data.attr length offset length

/-- `llama_vocab::impl::tokenizer_st_partition` on the buffer that `tokenize` hands it. -/
def tokenizerStPartition (v : Vocab F) (raw : Str) (parseSpecial : Bool) : List Fragment :=
  v.cacheSpecialTokens.foldl (partitionBy v raw parseSpecial) (if raw = [] then [] else [.rawText 0 raw.length])

lemma findIn_isInfix {text pat : Str} {lo hi pos : Nat} (h : findIn text pat lo hi = some pos) : pat <:+: text := by
  have heq := find?_some h
  rw [← eq_of_beq heq]
  exact span_isInfix _ _ _

end Mallana.Tokenizer
