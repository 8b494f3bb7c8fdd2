import Mallana.Tokenizer.Basic

/-!
# Pre-tokenization

Model of `unicode_regex_split` in `unicode.cpp`. A text is cut by one expression after the other; what an expression cuts
is a list of lengths, in code points, and each of the parts is cut again by the next one. Some expressions have their own
implementation. The matches that `std::regex` finds for the others are a parameter, as is the text they are found in,
which has one character for each code point.

A part is a list of code points, with the positions counted from its beginning.
-/

namespace Mallana.Tokenizer

def outOfRange : UInt32 := 0xFFFFFFFF

/-- `_get_cpt`. -/
def getCpt (w : List UInt32) (pos : Nat) : UInt32 := w.getD pos outOfRange

/-- `_get_flags`. -/
def getFlags (u : Unicode) (w : List UInt32) (pos : Nat) : CptFlags :=
  if pos < w.length then u.cptFlags (getCpt w pos) else {}

def isLetterAt (u : Unicode) (w : List UInt32) (pos : Nat) : Bool := (getFlags u w pos).isLetter

def isNumberAt (u : Unicode) (w : List UInt32) (pos : Nat) : Bool := (getFlags u w pos).isNumber

def isSpaceAt (u : Unicode) (w : List UInt32) (pos : Nat) : Bool := (getFlags u w pos).isWhitespace

/-- The class `[^\s\p{L}\p{N}]`. -/
def isOther (f : CptFlags) : Bool := !(f.isWhitespace || f.isLetter || f.isNumber) && f.nonzero

def isOtherAt (u : Unicode) (w : List UInt32) (pos : Nat) : Bool := isOther (getFlags u w pos)

def isNewline (c : UInt32) : Bool := c == 13 || c == 10

def isNewlineAt (w : List UInt32) (pos : Nat) : Bool := isNewline (getCpt w pos)

def advance (p : Nat → Bool) : Nat → Nat → Nat
  | 0, pos => pos
  | fuel + 1, pos => if p pos then advance p fuel (pos + 1) else pos

def skipWhile (w : List UInt32) (p : Nat → Bool) (pos : Nat) : Nat := advance p w.length pos

/-- The length of `'s|'t|'re|'ve|'m|'ll|'d` at a position, or 0. -/
def contraction (lower : UInt32 → UInt32) (w : List UInt32) (pos : Nat) : Nat :=
  if getCpt w pos = 39 ∧ pos + 1 < w.length then
    let next := lower (getCpt w (pos + 1))
    if next = 115 ∨ next = 116 ∨ next = 109 ∨ next = 100 then 2
    else if pos + 2 < w.length then
      let nextNext := lower (getCpt w (pos + 2))
      if (next = 114 ∧ nextNext = 101) ∨ (next = 118 ∧ nextNext = 101) ∨ (next = 108 ∧ nextNext = 108) then 3 else 0
    else 0
  else 0

/-- The branches for whitespace and for a code point that nothing matches. -/
def spaceEnd (u : Unicode) (w : List UInt32) (pos : Nat) : Nat :=
  let last := skipWhile w (isSpaceAt u w) pos
  if pos + 1 < last ∧ getCpt w last ≠ outOfRange then last - 1
  else if pos < last then last
  else pos + 1

/-- The end of the last newline in the whitespace from `pos` on, or 0. -/
def newlineEnd (u : Unicode) (w : List UInt32) (pos : Nat) : Nat :=
  (List.range' pos (skipWhile w (isSpaceAt u w) pos - pos)).foldl
    (fun last k => if isNewlineAt w k then k + 1 else last) 0

/-- The loop for `\p{N}{1,3}`: the ends of the groups. -/
def numberEnds (u : Unicode) (w : List UInt32) : Nat → Nat → Nat → List Nat
  | 0, pos, _ => [pos]
  | fuel + 1, pos, ini =>
    if isNumberAt u w pos then
      if 3 ≤ pos + 1 - ini then (pos + 1) :: numberEnds u w fuel (pos + 1) (pos + 1)
      else numberEnds u w fuel (pos + 1) ini
    else [pos]

def behindSpace (w : List UInt32) (pos : Nat) : Nat := if getCpt w pos = 32 then pos + 1 else pos

/-- The body of the loop of `unicode_regex_split_custom_gpt2`: the ends of the words at a position. -/
def gpt2Ends (u : Unicode) (w : List UInt32) (pos : Nat) : List Nat :=
  let first := behindSpace w pos
  let flags2 := getFlags u w first
  if 0 < contraction id w pos then [pos + contraction id w pos]
  else if flags2.isLetter then [skipWhile w (isLetterAt u w) first]
  else if flags2.isNumber then [skipWhile w (isNumberAt u w) first]
  else if isOther flags2 then [skipWhile w (isOtherAt u w) first]
  else [spaceEnd u w pos]

def spaceEnds (u : Unicode) (w : List UInt32) (pos : Nat) : List Nat :=
  if 0 < newlineEnd u w pos then [newlineEnd u w pos] else [spaceEnd u w pos]

/-- The body of the loop of `unicode_regex_split_custom_llama3`. -/
def llama3Ends (u : Unicode) (w : List UInt32) (pos : Nat) : List Nat :=
  let cpt := getCpt w pos
  let flags := getFlags u w pos
  let first := behindSpace w pos
  let flags2 := getFlags u w first
  if 0 < contraction u.tolower w pos then [pos + contraction u.tolower w pos]
  else if !(isNewline cpt || flags.isNumber) && (flags.isLetter || isLetterAt u w (pos + 1)) then
    [skipWhile w (isLetterAt u w) (pos + 1)]
  else if flags.isNumber then numberEnds u w w.length pos pos
  -- the test for an undefined code point is made of the first one
  else if !(flags2.isWhitespace || flags2.isLetter || flags2.isNumber) && flags.nonzero then
    [skipWhile w (isNewlineAt w) (skipWhile w (isOtherAt u w) first)]
  else spaceEnds u w pos

/-- `unicode_cpt_is_han`. -/
def cptIsHan (c : UInt32) : Bool :=
  (0x4E00 ≤ c && c ≤ 0x9FFF) || (0x3400 ≤ c && c ≤ 0x4DBF) || (0x20000 ≤ c && c ≤ 0x2A6DF) ||
  (0x2A700 ≤ c && c ≤ 0x2B73F) || (0x2B740 ≤ c && c ≤ 0x2B81F) || (0x2B820 ≤ c && c ≤ 0x2CEAF) ||
  (0x2CEB0 ≤ c && c ≤ 0x2EBEF) || (0xF900 ≤ c && c ≤ 0xFAFF) || (0x2F800 ≤ c && c ≤ 0x2FA1F)

def isHanAt (w : List UInt32) (pos : Nat) : Bool := cptIsHan (getCpt w pos)

def isK2LetterAt (u : Unicode) (w : List UInt32) (pos : Nat) : Bool := isLetterAt u w pos && !isHanAt w pos

def isLeadingAt (u : Unicode) (w : List UInt32) (pos : Nat) : Bool :=
  !(isNewlineAt w pos || isLetterAt u w pos || isNumberAt u w pos)

def behindLeading (u : Unicode) (w : List UInt32) (pos : Nat) : Nat := if isLeadingAt u w pos then pos + 1 else pos

/-- The branches of the K2 expression behind those for letters. -/
def k2Rest (u : Unicode) (w : List UInt32) (pos : Nat) : List Nat :=
  let flags := getFlags u w pos
  let first := behindSpace w pos
  let flags2 := getFlags u w first
  if flags.isNumber then numberEnds u w w.length pos pos
  else if isOther flags2 then [skipWhile w (isNewlineAt w) (skipWhile w (isOtherAt u w) first)]
  else spaceEnds u w pos

/-- The body of the loop of `unicode_regex_split_custom_kimi_k2`. -/
def kimiK2Ends (u : Unicode) (w : List UInt32) (pos : Nat) : List Nat :=
  let first := behindLeading u w pos
  let last := skipWhile w (isK2LetterAt u w) first
  if isHanAt w pos then [skipWhile w (isHanAt w) pos]
  else if (isK2LetterAt u w pos || (isLeadingAt u w pos && isK2LetterAt u w (pos + 1))) && decide (first < last) then
    [last + contraction u.tolower w last]
  else k2Rest u w pos

def groupEnds : Nat → Nat → Nat → List Nat
  | 0, _, _ => []
  | fuel + 1, current, last => if current < last then (current + 3) :: groupEnds fuel (current + 3) last else []

/-- The loop of `unicode_regex_split_custom_afmoe`: the ends of the words from a position on. -/
def afmoeEnds (u : Unicode) (w : List UInt32) : Nat → Nat → List Nat
  | 0, _ => []
  | fuel + 1, pos =>
    if pos < w.length then
      if isNumberAt u w pos then
        let last := skipWhile w (isNumberAt u w) pos
        let remainder := (last - pos) % 3
        (if 0 < remainder then [pos + remainder] else []) ++ groupEnds w.length (pos + remainder) last ++
          afmoeEnds u w fuel last
      else afmoeEnds u w fuel (pos + 1)
    else []

/-- `_add_token`: the lengths between the ends of words. -/
def lengths : Nat → List Nat → List Nat
  | _, [] => []
  | prev, e :: ends => if 0 < e - prev then (e - prev) :: lengths e ends else lengths e ends

def endsFrom (step : Nat → List Nat) (n : Nat) : Nat → Nat → List Nat
  | 0, _ => []
  | fuel + 1, pos =>
    if pos < n then step pos ++ endsFrom step n fuel ((step pos).getLastD pos) else []

def splitPart (step : List UInt32 → Nat → List Nat) (w : List UInt32) : List Nat :=
  lengths 0 (endsFrom (step w) w.length w.length 0)

/-- The lengths of the words of a part for digits; what is left over is a word. -/
def splitDigits (u : Unicode) (w : List UInt32) : List Nat := lengths 0 (afmoeEnds u w w.length 0 ++ [w.length])

/-- The lengths that `unicode_regex_split_stl` cuts from the matches of a part of `n` code points. -/
def splitMatches (n : Nat) : Nat → List (Nat × Nat) → List Nat
  | start, [] => if start < n then [n - start] else []
  | start, (position, length) :: rest =>
    (if start < position then [position - start] else []) ++ length :: splitMatches n (position + length) rest

def parts (cpts : List UInt32) : List Nat → List (List UInt32)
  | [] => []
  | n :: ns => cpts.take n :: parts (cpts.drop n) ns

/-- The expressions with their own implementation. -/
inductive CustomExpr where
  | gpt2
  | llama3
  | kimiK2
  | afmoe
deriving DecidableEq

/-- `unicode_regex_split_custom` for the parts of a text. -/
def splitCustom (u : Unicode) (e : CustomExpr) (ws : List (List UInt32)) : List Nat :=
  match e with
  | .gpt2 => ws.flatMap (splitPart (gpt2Ends u))
  | .llama3 => ws.flatMap (splitPart (llama3Ends u))
  | .kimiK2 => ws.flatMap (splitPart (kimiK2Ends u))
  | .afmoe => ws.flatMap (splitDigits u)

def ascii (s : String) : Str := s.toList.map fun c => UInt8.ofNat c.toNat

/-- The choice of `unicode_regex_split_custom`. -/
def customExpr (expr : Str) : Option CustomExpr :=
  if expr = ascii "'s|'t|'re|'ve|'m|'ll|'d| ?\\p\x7bL\x7d+| ?\\p\x7bN\x7d+| ?[^\\s\\p\x7bL\x7d\\p\x7bN\x7d]+|\\s+(?!\\S)"
  then some .gpt2
  else if expr = ascii ("(?i:'s|'t|'re|'ve|'m|'ll|'d)|[^\\r\\n\\p\x7bL\x7d\\p\x7bN\x7d]?\\p\x7bL\x7d+|\\p\x7bN\x7d" ++
      "\x7b1,3\x7d| ?[^\\s\\p\x7bL\x7d\\p\x7bN\x7d]+[\\r\\n]*|\\s*[\\r\\n]+|\\s+(?!\\S)|\\s+") then some .llama3
  else if expr = ascii ("(?:'[sS]|'[tT]|'[rR][eE]|'[vV][eE]|'[mM]|'[lL][lL]|'[dD])|[^\\r\\n\\p\x7bL\x7d\\p\x7bN\x7d]?" ++
      "\\p\x7bL\x7d+|\\p\x7bN\x7d\x7b1,3\x7d| ?[^\\s\\p\x7bL\x7d\\p\x7bN\x7d]+[\\r\\n]*|\\s*[\\r\\n]+|\\s+(?!\\S)|\\s+")
  then some .llama3
  else if expr = ascii "\\p\x7bHan\x7d+" then some .kimiK2
  else if expr = ascii "\\p\x7bAFMoE_digits\x7d" then some .afmoe
  else if expr = ascii "\\d\x7b1,3\x7d(?=(?:\\d\x7b3\x7d)*\\b)" then some .afmoe
  else none

def splitStep (u : Unicode) (cpts : List UInt32) (offsets : List Nat) (expr : Str) : Option (List Nat) :=
  let ws := parts cpts offsets
  let tmp := match customExpr expr with
    | none => []
    | some e => splitCustom u e ws
  if tmp ≠ [] then some tmp
  else (ws.mapM fun w => (u.regexMatches expr w).map (splitMatches w.length 0)).map List.flatten

def isVisible (b : UInt8) : Bool := (0x21 ≤ b && b ≤ 0x7E) || (0xA1 ≤ b && b ≤ 0xAC) || 0xAE ≤ b

/-- The code point of a byte in `unicode_byte_to_utf8_map`. The other bytes are numbered from 256 on in their order: 33 of
them up to the space, 34 from 0x7F to 0xA0, and 0xAD. -/
def byteCpt (b : UInt8) : UInt32 :=
  if isVisible b then b.toUInt32
  else if b ≤ 0x20 then 256 + b.toUInt32
  else if b ≤ 0xA0 then 289 + (b - 0x7F).toUInt32
  else 323

/-- `unicode_byte_to_utf8`. -/
def byteToUtf8 (b : UInt8) : Str := (cptToUtf8 (byteCpt b)).getD []

/-- `unicode_byte_encoding_process` for a word. -/
def byteEncode (word : Str) : Option Str := (cptsToUtf8 (cptsFromUtf8 word)).map fun text => text.flatMap byteToUtf8

/-- `unicode_regex_split`. -/
def unicodeRegexSplit (u : Unicode) (exprs : List Str) (text : Str) : Option (List Str) := do
  let cpts := cptsFromUtf8 text
  let offsets ← exprs.foldlM (splitStep u cpts) [cpts.length]
  let words ← (parts cpts offsets).mapM cptsToUtf8
  words.mapM byteEncode

end Mallana.Tokenizer
