import Mallana.Tokenizer.Basic

/-!
# The WPM session

Model of `llm_tokenizer_wpm_session` in `llama-vocab.cpp`. A text is normalized and cut into words, and each word is
matched from its front by the longest tokens.
-/

namespace Mallana.Tokenizer

variable {F : Type}

def isChineseChar (cpt : UInt32) : Bool :=
  (0x04E00 ≤ cpt && cpt ≤ 0x09FFF) || (0x03400 ≤ cpt && cpt ≤ 0x04DBF) || (0x20000 ≤ cpt && cpt ≤ 0x2A6DF) ||
  (0x2A700 ≤ cpt && cpt ≤ 0x2B73F) || (0x2B740 ≤ cpt && cpt ≤ 0x2B81F) || (0x2B920 ≤ cpt && cpt ≤ 0x2CEAF) ||
  (0x0F900 ≤ cpt && cpt ≤ 0x0FAFF) || (0x2F800 ≤ cpt && cpt ≤ 0x2FA1F)

abbrev Words := List Str × Str

def Words.finish (w : Words) : Words := if w.2 = [] then w else (w.1 ++ [w.2], [])

/-- The body of the loop of `preprocess`. -/
def preprocessStep (u : Unicode) (w : Words) (cpt : UInt32) : Option Words :=
  let flags := u.cptFlags cpt
  if flags.isWhitespace then some w.finish
  else if cpt == 0 || cpt == 0xFFFD || flags.isControl then some w
  else do
    let s ← cptToUtf8 (u.tolower cpt)
    if flags.isPunctuation || (decide (cpt < 0x7F) && flags.isSymbol) || isChineseChar cpt then
      some (w.finish.1 ++ [s], [])
    else some (w.1, w.2 ++ s)

/-- `preprocess`. -/
def preprocess (u : Unicode) (text : Str) : Option (List Str) := do
  let w ← (u.cptsNormalizeNfd (cptsFromUtf8 text)).foldlM (preprocessStep u) ([], [])
  some w.finish.1

/-- The loop over the lengths of a match at `i`, from `k` down. -/
def longestMatch (v : Vocab F) (word : Str) (i : Nat) : Nat → Option (Nat × Int)
  | 0 => none
  | k + 1 =>
    if textToToken v (span word i (k + 1)) ≠ -1 then some (k + 1, textToToken v (span word i (k + 1)))
    else longestMatch v word i k

/-- The loop over a word; `none` if there is no match somewhere. -/
def wpmMatch (v : Vocab F) (word : Str) : Nat → Nat → Option (List Int)
  | 0, _ => some []
  | fuel + 1, i =>
    if i < word.length then
      match longestMatch v word i (min word.length (i + maxTokenLen v + 1) - i) with
      | none => none
      | some (k, id) => (wpmMatch v word fuel (i + k)).map fun ids => id :: ids
    else some []

/-- The tokens of a word, which gets a phantom space in front. -/
def wpmWord (v : Vocab F) (word : Str) : List Int :=
  if word = [] then []
  else
    let ids := (wpmMatch v (escapedSpace ++ word) (escapedSpace ++ word).length 0).getD []
    if ids = [] then [v.specialUnkId] else ids

/-- `llm_tokenizer_wpm_session::tokenize`: the tokens that are appended to the output. -/
def wpmTokenize (u : Unicode) (v : Vocab F) (text : Str) : Option (List Int) :=
  (preprocess u text).map fun words => words.flatMap (wpmWord v)

end Mallana.Tokenizer
