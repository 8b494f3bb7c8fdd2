import Mallana.Tokenizer.MergeRun
import Mallana.Tokenizer.Split

/-!
# The BPE session

Model of `llm_tokenizer_bpe_session` in `llama-vocab.cpp`. The words of the pre-tokenizer are merged one by one, the rule
with the lowest rank first. They are byte-encoded, so that the assertions of `find_bpe_rank` about spaces and newlines
hold. The symbols of a word point into the word; the list that links the symbols of all words is the list of their texts
in order.
-/

namespace Mallana.Tokenizer

open List

variable {F : Type}

/-- The test of `add_new_bigram`: the rank of the rule for two symbols. -/
def bpeLookup (v : Vocab F) (word : Str) (l r : Symbol) : Option (Nat × Str) :=
  (v.bpeRanks (l.str word) (r.str word)).map fun rank => (rank, l.str word ++ r.str word)

def bpeFresh (word : Str) (b : Bigram Nat) (l r : Symbol) : Bool := l.str word ++ r.str word == b.text

/-- `llm_bigram_bpe::comparator`. -/
def bpeLess (l r : Bigram Nat) : Bool := decide (r.key < l.key) || (l.key == r.key && decide (r.left < l.left))

/-- The symbols of a word: with `ignore_merges`, a word that is a token is one symbol. -/
def wordSymbols (v : Vocab F) (word : Str) : List Symbol :=
  if v.ignoreMerges && textToToken v word != -1 then [{ prev := -1, next := -1, start := 0, n := word.length }]
  else splitSymbols word word.length 0 0

def bpeWord (v : Vocab F) (word : Str) : List Str :=
  let m := mergeAll (bpeLookup v word) (bpeFresh word) bpeLess (wordSymbols v word)
  (m.symbols.filter fun s => decide (0 < s.n)).map (Symbol.str word)

/-- The tokens of a symbol; a byte that is no token is dropped. -/
def bpeTokens (v : Vocab F) (str : Str) : List Int :=
  if textToToken v str = -1 then (str.map fun b => textToToken v [b]).filter fun id => id != -1
  else [textToToken v str]

/-- `llm_tokenizer_bpe_session::tokenize`: the tokens that are appended to the output. -/
def bpeTokenize (u : Unicode) (v : Vocab F) (text : Str) : Option (List Int) :=
  (unicodeRegexSplit u v.regexExprs text).map fun words => (words.flatMap (bpeWord v)).flatMap (bpeTokens v)

def BpeJoins (v : Vocab F) (l r : Str) : Prop := v.bpeRanks l r ≠ none

/-- The spans of a word that BPE can build: its characters, or the word itself, and neighbours with a rule. -/
def BpeBuilt (v : Vocab F) (word : Str) : Nat → Nat → Prop :=
  Built word (AtomOf (wordSymbols v word)) (BpeJoins v)

lemma bpe_sound (v : Vocab F) (word : Str) : Sound word (BpeJoins v) (bpeLookup v word) (bpeFresh word) where
  lookup := by
    intro l r key t _ hl
    obtain ⟨rank, hrank, heq⟩ := Option.map_eq_some_iff.1 hl
    cases heq
    refine ⟨?_, rfl⟩
    rw [BpeJoins, hrank]
    exact Option.some_ne_none _
  fresh := by
    intro b l r hf
    exact .inr (eq_of_beq hf)

lemma textToToken_nil (v : Vocab F) : textToToken v [] = -1 := by
  unfold textToToken
  have : v.idToToken.findIdx? (fun d => d.text == []) = none := by
    apply findIdx?_eq_none_iff.2
    intro d hd
    have := v.text_ne d hd
    simpa using this
  rw [this]

lemma row_wordSymbols (v : Vocab F) (word : Str) : Row word 0 0 (wordSymbols v word) := by
  unfold wordSymbols
  split
  · rename_i hw
    have hne : word ≠ [] := by
      intro heq
      rw [heq, textToToken_nil] at hw
      simp at hw
    have hpos := length_pos_of_ne_nil hne
    refine ⟨rfl, rfl, hpos, ?_, rfl, ?_⟩
    · simp
    · simp [Row]
  · exact row_splitSymbols (Nat.zero_le _) (by omega)

lemma mem_bpeWord {v : Vocab F} {word str : Str} (h : str ∈ bpeWord v word) :
    ∃ s n, BpeBuilt v word s n ∧ str = span word s n := by
  obtain ⟨symbol, hsymbol, rfl⟩ := mem_map.1 h
  obtain ⟨hmem, hlive⟩ := mem_filter.1 hsymbol
  obtain ⟨i, hi, hget⟩ := mem_iff_getElem.1 hmem
  have linked := (@Row.mergeAll word (BpeJoins v) Nat (wordSymbols v word) (bpeLookup v word) (bpeFresh word)
    bpeLess (bpe_sound v word) (row_wordSymbols v word)).linked
  have hat : symAt (mergeAll (bpeLookup v word) (bpeFresh word) bpeLess (wordSymbols v word)).symbols i = symbol := by
    rw [symAt, getD_eq_getElem?_getD, getElem?_eq_getElem hi, hget]
    rfl
  have built := linked.built i (by rw [hat]; exact of_decide_eq_true hlive)
  rw [hat] at built
  exact ⟨_, _, built, rfl⟩

end Mallana.Tokenizer
