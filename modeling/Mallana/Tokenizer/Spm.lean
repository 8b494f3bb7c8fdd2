import Mallana.Tokenizer.MergeRun

/-!
# The SPM session

Model of `llm_tokenizer_spm_session` in `llama-vocab.cpp`. Two neighbours are merged when their text is a token, the one
with the highest score first.
-/

namespace Mallana.Tokenizer

variable {F : Type}

/-- The test of `try_add_bigram`: the score of the token that two symbols make. -/
def spmLookup (v : Vocab F) (text : Str) (l r : Symbol) : Option (F × Str) :=
  let str := span text l.start (l.n + r.n)
  if textToToken v str = -1 then none
  else (v.idToToken[(textToToken v str).toNat]?).map fun data => (data.score, str)

def spmFresh (b : Bigram F) (l r : Symbol) : Bool := l.n + r.n == b.size

/-- `llm_bigram_spm::comparator`. -/
def spmLess (a : Arith F) (l r : Bigram F) : Bool :=
  a.lt l.key r.key || (a.eq l.key r.key && decide (r.left < l.left))

/-- `resegment`; `rev_merge` holds the last bigram that was made for a text. -/
def resegment (v : Vocab F) (text : Str) (m : Merging F) : Nat → Symbol → Option (List Int)
  | 0, _ => none
  | fuel + 1, symbol =>
    let str := symbol.str text
    if textToToken v str ≠ -1 then some [textToToken v str]
    else
      match m.pushed.find? fun b => b.text == str with
      | none => str.mapM (byteToToken v)
      | some b => do
        let left ← resegment v text m fuel (symAt m.symbols b.left)
        let right ← resegment v text m fuel (symAt m.symbols b.right)
        some (left ++ right)

/-- `llm_tokenizer_spm_session::tokenize`: the tokens that are appended to the output. -/
def spmTokenize (a : Arith F) (v : Vocab F) (text : Str) : Option (List Int) := do
  let m := mergeAll (spmLookup v text) spmFresh (spmLess a) (splitSymbols text text.length 0 0)
  let parts ← (chain m.symbols text.length 0).mapM (resegment v text m (text.length + 1))
  some parts.flatten

def SpmJoins (v : Vocab F) (l r : Str) : Prop := textToToken v (l ++ r) ≠ -1

lemma spm_sound (v : Vocab F) (text : Str) : Sound text (SpmJoins v) (spmLookup v text) spmFresh where
  lookup := by
    intro l r key t hstart hl
    have hstr : span text l.start (l.n + r.n) = l.str text ++ r.str text := by
      rw [span_add, Symbol.str, Symbol.str, hstart]
    unfold spmLookup at hl
    simp only [hstr] at hl
    split at hl
    · cases hl
    · rename_i hne
      obtain ⟨data, -, heq⟩ := Option.map_eq_some_iff.1 hl
      cases heq
      exact ⟨hne, rfl⟩
  fresh := by
    intro b l r hf
    exact .inl (eq_of_beq hf)

end Mallana.Tokenizer
