import Mallana.Lib.Bytes
import Mallana.Lib.Trie
import Mallana.Tokenizer.Basic

/-!
# The UGM session

Model of `llm_tokenizer_ugm` and `llm_tokenizer_ugm_session` in `llama-vocab.cpp`: the tables that the tokenizer is built
with, the normalization of a text and the search for the tokenization with the highest score.
-/

namespace Mallana.Tokenizer

open Lib List

variable {F : Type}

/-- `llm_tokenizer_ugm`. -/
structure UgmTokenizer (F : Type) where
  xcdaArray : List UInt32
  prefixReplacements : Str
  userDefinedTokenMatcher : Trie UInt8 Nat
  tokenMatcher : Trie UInt8 Nat
  unknownTokenScore : F

def xcdaEntries (bytes : Str) : List UInt32 :=
  (List.range (bytes.length / 4)).map fun i => UInt32.ofNat (leNat (span bytes (4 * i) 4))

/-- The two parts of `precompiled_charsmap`. -/
def readCharsmap (charsmap : Str) : Option (List UInt32 × Str) :=
  if charsmap = [] then some ([], [])
  else
    let blobSize := leNat (charsmap.take 4)
    if charsmap.length ≤ blobSize + 4 then none
    else some (xcdaEntries (span charsmap 4 blobSize), charsmap.drop (4 + blobSize))

/-- The tokens that are put into `token_matcher`, by the attributes at the time. -/
def matched (d : TokenData F) : Bool := d.built.normal || d.built.userDefined || d.built.unused

def matcherEntries (v : Vocab F) (p : TokenData F → Bool) : List (Str × Nat) :=
  (v.idToToken.zipIdx.filter fun e => p e.1).map fun e => (e.1.text, e.2)

/-- `min_score`. -/
def minScore (a : Arith F) (v : Vocab F) : F :=
  (v.idToToken.filter fun d => d.built.normal).foldl (fun s d => if a.lt d.score s then d.score else s) a.fltMax

/-- The constructor of `llm_tokenizer_ugm`. -/
def ugmBuild (a : Arith F) (v : Vocab F) : Option (UgmTokenizer F) := do
  let (xcda, replacements) ← readCharsmap v.precompiledCharsmap
  some
    { xcdaArray := xcda
      prefixReplacements := replacements
      userDefinedTokenMatcher := Trie.ofList (matcherEntries v fun d => d.built.userDefined)
      tokenMatcher := Trie.ofList (matcherEntries v matched)
      unknownTokenScore := a.sub (minScore a v) a.ten }

def xcdaBase (node : UInt32) : UInt32 := (node >>> 10) <<< ((node &&& 0x200) >>> 6)

def xcdaLcheck (node : UInt32) : UInt32 := node &&& 0x800000ff

def xcdaLeaf (node : UInt32) : Bool := (node >>> 8) &&& 1 == 1

def xcdaValue (node : UInt32) : UInt32 := node &&& 0x7fffffff

/-- The walk over the double array: the length of the longest match and the offset of its replacement. -/
def xcdaWalk (xcda : List UInt32) : Str → UInt32 → Nat → Nat × Nat → Option (Nat × Nat)
  | [], _, _, best => some best
  | c :: input, index, length, best =>
    if c = 0 then some best
    else do
      let index := index ^^^ c.toUInt32
      let node ← xcda[index.toNat]?
      if xcdaLcheck node ≠ c.toUInt32 then some best
      else
        let index := index ^^^ xcdaBase node
        if xcdaLeaf node then do
          let leaf ← xcda[index.toNat]?
          xcdaWalk xcda input index (length + 1) (length + 1, (xcdaValue leaf).toNat)
        else xcdaWalk xcda input index (length + 1) best

def xcdaLongest (xcda : List UInt32) (input : Str) : Option (Nat × Nat) :=
  if xcda = [] then some (0, 0)
  else do
    let root ← xcda[0]?
    xcdaWalk xcda input (xcdaBase root) 0 (0, 0)

/-- `normalize_prefix`: what the front of the input is replaced by, and the number of bytes it takes. -/
def normalizePrefix (t : UgmTokenizer F) (input : Str) : Option (Str × Nat) :=
  let user := t.userDefinedTokenMatcher.longest input
  if 0 < user then some (input.take user, user)
  else do
    let (length, offset) ← xcdaLongest t.xcdaArray input
    if 0 < length then
      if t.prefixReplacements.length ≤ offset then none
      else some ((t.prefixReplacements.drop offset).takeWhile fun b => b != 0, length)
    else
      match cptFromUtf8 input with
      | some (_, n) => some (input.take n, n)
      | none => some ([0xEF, 0xBF, 0xBD], 1)

/-- The state of `normalize`. -/
structure Normalizing where
  normalized : Str := []
  isSpacePrepended : Bool := false
  processingNonWs : Bool := false

/-- The space that `normalize` writes. -/
def ugmSpace (v : Vocab F) : Str := if v.escapeWhitespaces then escapedSpace else [32]

/-- The loop of `normalize` for one byte. -/
def normalizeByte (v : Vocab F) (s : Normalizing) (c : UInt8) : Normalizing :=
  let prepend := !v.treatWhitespaceAsSuffix && v.addSpacePrefix
  if c ≠ 32 then
    if !s.processingNonWs then
      if (prepend && !s.isSpacePrepended) || v.removeExtraWhitespaces then
        { normalized := s.normalized ++ ugmSpace v ++ [c], isSpacePrepended := true, processingNonWs := true }
      else { s with normalized := s.normalized ++ [c], processingNonWs := true }
    else { s with normalized := s.normalized ++ [c] }
  else
    { s with
      processingNonWs := false
      normalized := if v.removeExtraWhitespaces then s.normalized else s.normalized ++ ugmSpace v }

/-- The loop of `normalize`. -/
def normalizeLoop (v : Vocab F) (t : UgmTokenizer F) : Nat → Str → Normalizing → Option Normalizing
  | 0, _, s => some s
  | fuel + 1, input, s =>
    if input = [] then some s
    else do
      let (bytes, consumed) ← normalizePrefix t input
      normalizeLoop v t fuel (input.drop consumed) (bytes.foldl (normalizeByte v) s)

/-- `normalize`. -/
def normalize (v : Vocab F) (t : UgmTokenizer F) (input : Str) : Option Str := do
  let s ← normalizeLoop v t input.length input {}
  some (if v.treatWhitespaceAsSuffix && v.addSpacePrefix then s.normalized ++ ugmSpace v else s.normalized)

/-- `best_tokenization`. -/
structure Best (F : Type) where
  tokenId : Int
  inputOffset : Nat
  scoreSum : F

/-- A challenger replaces the champion at a position if its score is higher. -/
def challenge (a : Arith F) (results : List (Best F)) (pos : Nat) (challenger : Best F) : List (Best F) :=
  match results[pos]? with
  | none => results
  | some champ => if a.lt champ.scoreSum challenger.scoreSum then results.set pos challenger else results

def tokenScore (a : Arith F) (v : Vocab F) (id : Nat) : F :=
  if (attr v id).userDefined then a.zero else ((v.idToToken[id]?).map TokenData.score).getD a.zero

/-- The walk over the trie at `offset`: `length` bytes lead to `node`, and `rest` are the bytes behind them. The flag
says whether a token for the whole code point of `units` bytes was found. -/
def matchTokens (a : Arith F) (v : Vocab F) (offset units : Nat) (current : F) :
    Trie UInt8 Nat → Str → Nat → Bool × List (Best F) → Bool × List (Best F)
  | node, rest, length, (found, results) =>
    let state :=
      match node.value with
      | none => (found, results)
      | some id => (found || length == units,
          challenge a results (offset + length) ⟨id, offset, a.add current (tokenScore a v id)⟩)
    match rest with
    | [] => state
    | c :: rest =>
      match node.child c with
      | none => state
      | some node => matchTokens a v offset units current node rest (length + 1) state

def ugmStep (a : Arith F) (v : Vocab F) (t : UgmTokenizer F) (text : Str) (offset : Nat) (results : List (Best F)) :
    List (Best F) :=
  let units := min (lenUtf8 (text.getD offset 0)) (text.length - offset)
  let current := ((results[offset]?).map Best.scoreSum).getD a.zero
  let state :=
    match t.tokenMatcher.child (text.getD offset 0) with
    | none => (false, results)
    | some node => matchTokens a v offset units current node (text.drop (offset + 1)) 1 (false, results)
  if state.1 then state.2
  else challenge a state.2 (offset + units) ⟨v.specialUnkId, offset, a.add current t.unknownTokenScore⟩

def ugmLoop (a : Arith F) (v : Vocab F) (t : UgmTokenizer F) (text : Str) :
    Nat → Nat → List (Best F) → List (Best F)
  | 0, _, results => results
  | fuel + 1, offset, results =>
    if offset < text.length then
      ugmLoop a v t text fuel (offset + min (lenUtf8 (text.getD offset 0)) (text.length - offset))
        (ugmStep a v t text offset results)
    else results

/-- The way back from the end; consecutive unknown tokens are one. -/
def backtrack (results : List (Best F)) (unk : Int) : Nat → Best F → Bool → List Int
  | 0, _, _ => []
  | fuel + 1, best, isPrevUnknown =>
    let isUnknown := best.tokenId == unk
    let here := if isPrevUnknown && isUnknown then [] else [best.tokenId]
    if best.inputOffset = 0 then here
    else
      match results[best.inputOffset]? with
      | none => here
      | some next => here ++ backtrack results unk fuel next isUnknown

/-- `llm_tokenizer_ugm_session::tokenize`: the tokens that are appended to the output. -/
def ugmTokenize (a : Arith F) (v : Vocab F) (t : UgmTokenizer F) (text : Str) : Option (List Int) := do
  let normalized ← normalize v t text
  if normalized = [] then some []
  else
    let start : List (Best F) := ⟨v.specialUnkId, 0, a.zero⟩ ::
      List.replicate normalized.length ⟨v.specialUnkId, 0, a.negDblMax⟩
    let results := ugmLoop a v t normalized normalized.length 0 start
    match results[normalized.length]? with
    | none => none
    | some last => some (backtrack results v.specialUnkId (normalized.length + 1) last false).reverse

variable {v : Vocab F} {text : Str} {results : List (Best F)} {a : Arith F} {t : UgmTokenizer F}

lemma mem_matcherEntries {p : TokenData F → Bool} {k : Nat}
    (h : (text, k) ∈ matcherEntries v p) : ∃ d, v.idToToken[k]? = some d ∧ p d = true ∧ d.text = text := by
  obtain ⟨e, he, heq⟩ := mem_map.1 h
  obtain ⟨hmem, hp⟩ := mem_filter.1 he
  cases heq
  obtain ⟨d, k⟩ := e
  exact ⟨d, mem_zipIdx_iff_getElem?.mp hmem, hp, rfl⟩

end Mallana.Tokenizer
