import Mallana.Tokenizer.ByteText
import Mallana.Tokenizer.Tokenize

/-!
# BPE loses nothing

The pieces of the tokens of a text make up the text, if the characters of all bytes and what the rules merge are normal
tokens. With `ignore_merges` a word is looked up as a whole among all tokens, so that it may also become a token that is
not normal; then the pieces make up the text only if no word does.
-/

namespace Mallana.Tokenizer

open List

variable {F : Type}

def TokenData.Normal (d : TokenData F) : Prop :=
  d.attr.normal = true ∧ d.attr.control = false ∧ d.attr.unknown = false ∧ d.attr.userDefined = false

def NormalText (v : Vocab F) (text : Str) : Prop := ∃ d ∈ v.idToToken, d.text = text ∧ d.Normal

section
variable {v : Vocab F} {special : Bool}

lemma textToToken_text {d : TokenData F} (hd : d ∈ v.idToToken) :
    ∃ k : Nat, textToToken v d.text = k ∧ v.idToToken[k]? = some d := by
  unfold textToToken
  cases hfind : v.idToToken.findIdx? fun e => e.text == d.text with
  | none =>
    have := findIdx?_eq_none_iff.1 hfind d hd
    simp at this
  | some k =>
    obtain ⟨hk, heq, -⟩ := findIdx?_eq_some_iff_getElem.1 hfind
    have hsame := inj_on_of_nodup_map v.text_nodup (getElem_mem hk) hd (eq_of_beq heq)
    exact ⟨k, rfl, by rw [getElem?_eq_getElem hk, hsame]⟩

lemma mem_of_textToToken {text : Str} (h : textToToken v text ≠ -1) : ∃ d ∈ v.idToToken, d.text = text := by
  unfold textToToken at h
  cases hfind : v.idToToken.findIdx? fun e => e.text == text with
  | none =>
    rw [hfind] at h
    exact absurd rfl h
  | some k =>
    obtain ⟨hk, heq, -⟩ := findIdx?_eq_some_iff_getElem.1 hfind
    exact ⟨v.idToToken[k], getElem_mem hk, eq_of_beq heq⟩

lemma bpeTokens_text {d : TokenData F} (hd : d ∈ v.idToToken) : bpeTokens v d.text = [textToToken v d.text] := by
  obtain ⟨k, hk, -⟩ := textToToken_text hd
  refine if_neg ?_
  rw [hk]
  omega

lemma pieces_singleton (id : Int) : pieces v special [id] = tokenToPiece v special id := by
  rw [pieces, mapM_cons]
  cases tokenToPiece v special id with
  | none => rfl
  | some p => simp

lemma pieces_append {xs ys : List Int} {p q : Str} (hx : pieces v special xs = some p)
    (hy : pieces v special ys = some q) : pieces v special (xs ++ ys) = some (p ++ q) := by
  obtain ⟨ps, hps, rfl⟩ := Option.map_eq_some_iff.1 hx
  obtain ⟨qs, hqs, rfl⟩ := Option.map_eq_some_iff.1 hy
  rw [pieces, mapM_append, hps, hqs]
  simp

lemma tokenToPiece_text {d : TokenData F} (hd : d ∈ v.idToToken) : tokenToPiece v special (textToToken v d.text) =
      if !special && (d.attr.unknown || d.attr.control) then some []
      else if d.attr.unknown || d.attr.control || d.attr.userDefined then some d.text
      else if d.attr.normal then decodeText d.text else some [] := by
  obtain ⟨k, hk, hget⟩ := textToToken_text hd
  have hnat : ¬ (k : Int) < 0 := by omega
  rw [hk, tokenToPiece, if_neg hnat, Int.toNat_natCast, hget]

lemma pieces_normal {text : Str} (h : NormalText v text) : pieces v special (bpeTokens v text) = decodeText text := by
  obtain ⟨d, hd, rfl, hnormal, hcontrol, hunknown, huser⟩ := h
  rw [bpeTokens_text hd, pieces_singleton, tokenToPiece_text hd]
  simp [hnormal, hcontrol, hunknown, huser]

lemma pieces_encoded : ∀ {strs : List Str}, (∀ str ∈ strs, NormalText v str ∧ ∃ bytes, str = encodeBytes bytes) →
    ∃ bss : List Str, strs = bss.map encodeBytes ∧ pieces v special (strs.flatMap (bpeTokens v)) = some bss.flatten := by
  intro strs
  induction strs with
  | nil =>
    intro _
    exact ⟨[], rfl, rfl⟩
  | cons str strs ih =>
    intro h
    obtain ⟨bss, rfl, hrest⟩ := ih fun s hs => h s (mem_cons_of_mem _ hs)
    obtain ⟨hnormal, bytes, rfl⟩ := h str mem_cons_self
    refine ⟨bytes :: bss, rfl, ?_⟩
    rw [flatMap_cons, flatten_cons]
    refine pieces_append ?_ hrest
    rw [pieces_normal hnormal, decodeText_encodeBytes]

end

lemma splitSymbols_encoded : ∀ {fuel index : Nat} {bs rest : Str},
    ∀ s ∈ splitSymbols (encodeBytes (bs ++ rest)) fuel (encodeBytes bs).length index,
      ∃ b, s.str (encodeBytes (bs ++ rest)) = byteToUtf8 b := by
  intro fuel
  induction fuel with
  | zero =>
    intro index bs rest s hs
    cases hs
  | succ fuel ih =>
    intro index bs rest s hs
    cases rest with
    | nil =>
      rw [append_nil, splitSymbols, if_neg (lt_irrefl _)] at hs
      cases hs
    | cons b rest =>
      have hword : encodeBytes (bs ++ b :: rest) = encodeBytes bs ++ (byteToUtf8 b ++ encodeBytes rest) := by
        rw [encodeBytes_append]
        rfl
      have hpos := length_pos_of_ne_nil (byteToUtf8_ne_nil b)
      have hlt : (encodeBytes bs).length < (encodeBytes (bs ++ b :: rest)).length := by
        rw [hword, length_append, length_append]
        omega
      have hfirst : (encodeBytes (bs ++ b :: rest)).getD (encodeBytes bs).length 0 = (byteToUtf8 b).getD 0 0 := by
        rw [hword, getD_append_right _ _ _ _ (Nat.le_refl _), Nat.sub_self, getD_append _ _ _ _ hpos]
      have hn : min (lenUtf8 ((encodeBytes (bs ++ b :: rest)).getD (encodeBytes bs).length 0))
          ((encodeBytes (bs ++ b :: rest)).length - (encodeBytes bs).length) = (byteToUtf8 b).length := by
        rw [hfirst, lenUtf8_byteToUtf8, hword, length_append, length_append]
        omega
      rw [splitSymbols, if_pos hlt] at hs
      simp only [hn] at hs
      rcases mem_cons.1 hs with rfl | hs
      · refine ⟨b, ?_⟩
        rw [Symbol.str, span, hword, drop_left, take_left]
      · have hnext : (encodeBytes bs).length + (byteToUtf8 b).length = (encodeBytes (bs ++ [b])).length := by
          rw [encodeBytes_append, length_append, encodeBytes_singleton]
        have hsplit : bs ++ b :: rest = (bs ++ [b]) ++ rest := by
          rw [append_assoc, singleton_append]
        rw [hnext, hsplit] at hs
        rw [hsplit]
        exact ih s hs

section
variable {v : Vocab F} {special : Bool}

/-- With `ignore_merges`, a word that is the text of a token is shown as it was: the token is normal, or it is a special
token that is rendered and has the word as its text. -/
def WordShown (v : Vocab F) (special : Bool) (word : Str) : Prop :=
  v.ignoreMerges = true → ∀ d ∈ v.idToToken, d.text = word →
    d.Normal ∨ (special = true ∧ (d.attr.control = true ∨ d.attr.unknown = true) ∧ encodeBytes word = word)

lemma bpeWord_nil (v : Vocab F) : bpeWord v [] = [] := by
  have hsymbols : wordSymbols v [] = [] := by
    rw [wordSymbols, textToToken_nil]
    cases v.ignoreMerges <;> rfl
  simp only [bpeWord, hsymbols]
  rfl

lemma bpeWord_whole {word : Str} (h : (v.ignoreMerges && textToToken v word != -1) = true) : bpeWord v word = [word] := by
  have hsymbols : wordSymbols v word = [{ prev := -1, next := -1, start := 0, n := word.length }] := if_pos h
  have hne : word ≠ [] := by
    intro heq
    rw [heq, textToToken_nil] at h
    simp at h
  have hpos := length_pos_of_ne_nil hne
  simp only [bpeWord, hsymbols]
  rw [show mergeAll (bpeLookup v word) (bpeFresh word) bpeLess [{ prev := -1, next := -1, start := 0, n := word.length }] =
    ⟨[{ prev := -1, next := -1, start := 0, n := word.length }], [], []⟩ from rfl]
  simp [hpos, Symbol.str, span]

lemma tokenToPiece_word {d : TokenData F} (hd : d ∈ v.idToToken) {bytes : Str} (htext : d.text = encodeBytes bytes) :
    ∃ out, tokenToPiece v special (textToToken v d.text) = some out ∧
      (d.Normal ∨ (special = true ∧ (d.attr.control = true ∨ d.attr.unknown = true) ∧ encodeBytes d.text = d.text) →
        out = bytes) ∧ (special = false → d.Normal ∨ out = [] ∨ (d.attr.userDefined = true ∧ out = d.text)) := by
  rw [tokenToPiece_text hd]
  split
  · rename_i hhidden
    obtain ⟨hspecial, hflag⟩ := Bool.and_eq_true_iff.1 hhidden
    refine ⟨[], rfl, ?_, fun _ => .inr (.inl rfl)⟩
    intro h
    rcases h with ⟨-, hcontrol, hunknown, -⟩ | ⟨hrender, -⟩
    · simp [hcontrol, hunknown] at hflag
    · simp [hrender] at hspecial
  rename_i hrendered
  split
  · rename_i hflag
    refine ⟨d.text, rfl, ?_, ?_⟩
    · intro h
      rcases h with ⟨-, hcontrol, hunknown, huser⟩ | ⟨-, -, hsame⟩
      · simp [hcontrol, hunknown, huser] at hflag
      · exact encodeBytes_inj (hsame.trans htext)
    · intro hspecial
      cases huser : d.attr.userDefined with
      | true => exact .inr (.inr ⟨rfl, rfl⟩)
      | false =>
        rw [hspecial] at hrendered
        simp [huser] at hflag hrendered
        simp [hrendered] at hflag
  rename_i hplain
  simp only [Bool.or_eq_true, not_or, Bool.not_eq_true] at hplain
  split
  · rename_i hnormal
    refine ⟨bytes, by rw [htext, decodeText_encodeBytes], fun _ => rfl, fun _ => .inl ?_⟩
    exact ⟨hnormal, hplain.1.2, hplain.1.1, hplain.2⟩
  · rename_i hnormal
    refine ⟨[], rfl, ?_, fun _ => .inr (.inl rfl)⟩
    intro h
    rcases h with ⟨htrue, -⟩ | ⟨-, hflag, -⟩
    · exact absurd htrue hnormal
    · simp [hplain.1.1, hplain.1.2] at hflag

/-- What a word may yield: the word itself if it is shown, and otherwise, without special tokens, less than the word or
the text of a user-defined token. -/
structure Yields (v : Vocab F) (special : Bool) (bytes out : Str) : Prop where
  shown : WordShown v special (encodeBytes bytes) → out = bytes
  hidden : special = false → WordShown v special (encodeBytes bytes) ∨ out.length < bytes.length ∨
    ∃ d ∈ v.idToToken, d.attr.userDefined = true ∧ out = d.text

section
variable (hbytes : ∀ b, NormalText v (byteToUtf8 b))
  (hmerges : ∀ l r, v.bpeRanks l r ≠ none → NormalText v (l ++ r))
include hbytes hmerges

lemma built_normal {word bytes : Str} (hword : word = encodeBytes bytes) {s n : Nat}
    (h : Built word (AtomOf (splitSymbols word word.length 0 0)) (BpeJoins v) s n) :
    NormalText v (span word s n) ∧ ∃ bs, span word s n = encodeBytes bs := by
  induction h with
  | atom h =>
    obtain ⟨i, hi, rfl, rfl⟩ := h
    have hmem : symAt (splitSymbols word word.length 0 0) i ∈ splitSymbols word word.length 0 0 := by
      rw [symAt, getD_eq_getElem _ _ hi]
      exact getElem_mem hi
    generalize symAt (splitSymbols word word.length 0 0) i = symbol at hmem
    rw [hword] at hmem ⊢
    obtain ⟨b, hb⟩ := @splitSymbols_encoded _ 0 [] bytes symbol hmem
    rw [Symbol.str, nil_append] at hb
    rw [hb]
    exact ⟨hbytes b, [b], (encodeBytes_singleton b).symm⟩
  | join hl hr hj ihl ihr =>
    obtain ⟨-, bs, hbs⟩ := ihl
    obtain ⟨-, cs, hcs⟩ := ihr
    rw [span_add]
    refine ⟨hmerges _ _ hj, bs ++ cs, ?_⟩
    rw [hbs, hcs, encodeBytes_append]

lemma pieces_merged {bytes : Str} (hsplit : (v.ignoreMerges && textToToken v (encodeBytes bytes) != -1) = false) :
    pieces v special ((bpeWord v (encodeBytes bytes)).flatMap (bpeTokens v)) = some bytes := by
  have hsymbols : wordSymbols v (encodeBytes bytes) =
      splitSymbols (encodeBytes bytes) (encodeBytes bytes).length 0 0 := by
    rw [wordSymbols, hsplit]
    rfl
  have hstrs : ∀ str ∈ bpeWord v (encodeBytes bytes), NormalText v str ∧ ∃ bs, str = encodeBytes bs := by
    intro str hstr
    obtain ⟨s, n, built, rfl⟩ := mem_bpeWord hstr
    rw [BpeBuilt, hsymbols] at built
    exact built_normal hbytes hmerges rfl built
  obtain ⟨bss, heq, hpieces⟩ := @pieces_encoded F v special _ hstrs
  rw [hpieces]
  cases bytes with
  | nil =>
    rw [show encodeBytes [] = [] from rfl, bpeWord_nil] at heq
    cases map_eq_nil_iff.1 heq.symm
    rfl
  | cons b bytes =>
    have hne : encodeBytes (b :: bytes) ≠ [] := fun hnil => by cases encodeBytes_eq_nil hnil
    have linked := (@Row.mergeAll (encodeBytes (b :: bytes)) (BpeJoins v) Nat _ (bpeLookup v (encodeBytes (b :: bytes)))
      (bpeFresh (encodeBytes (b :: bytes))) bpeLess (bpe_sound v _) (row_wordSymbols v _)).linked
    have hflat : (bpeWord v (encodeBytes (b :: bytes))).flatten = encodeBytes (b :: bytes) := linked.flatten_live hne
    rw [heq, ← encodeBytes_flatten] at hflat
    rw [encodeBytes_inj hflat]

lemma pieces_word (bytes : Str) :
    ∃ out, pieces v special ((bpeWord v (encodeBytes bytes)).flatMap (bpeTokens v)) = some out ∧
      Yields v special bytes out := by
  cases hwhole : v.ignoreMerges && textToToken v (encodeBytes bytes) != -1 with
  | false =>
    refine ⟨bytes, pieces_merged hbytes hmerges hwhole, fun _ => rfl, fun _ => .inl ?_⟩
    intro hignore d hd htext
    obtain ⟨k, hk, -⟩ := textToToken_text hd
    rw [hignore, ← htext, hk] at hwhole
    simp at hwhole
  | true =>
    obtain ⟨hignore, hfound⟩ := Bool.and_eq_true_iff.1 hwhole
    obtain ⟨d, hd, htext⟩ := mem_of_textToToken (bne_iff_ne.1 hfound)
    have hne : bytes ≠ [] := by
      intro heq
      rw [heq, show encodeBytes [] = [] from rfl] at htext
      exact v.text_ne d hd htext
    have hpos := length_pos_of_ne_nil hne
    rw [bpeWord_whole hwhole, flatMap_singleton, ← htext, bpeTokens_text hd, pieces_singleton]
    obtain ⟨out, hout, hshown, hhidden⟩ := @tokenToPiece_word F v special d hd bytes htext
    refine ⟨out, hout, ?_, ?_⟩
    · intro h
      rw [htext] at hshown
      exact hshown (h hignore d hd htext)
    · intro hspecial
      rcases hhidden hspecial with hnormal | hshort | huser
      · left
        intro _ e he heq
        rw [inj_on_of_nodup_map v.text_nodup he hd (heq.trans htext.symm)]
        exact .inl hnormal
      · exact .inr (.inl (by rw [hshort]; exact hpos))
      · exact .inr (.inr ⟨d, hd, huser⟩)

lemma pieces_words (ws : List Str) :
    ∃ outs, pieces v special (((ws.map encodeBytes).flatMap (bpeWord v)).flatMap (bpeTokens v)) = some outs.flatten ∧
      List.Forall₂ (Yields v special) ws outs := by
  induction ws with
  | nil => exact ⟨[], rfl, .nil⟩
  | cons w ws ih =>
    obtain ⟨outs, hrest, hall⟩ := ih
    obtain ⟨out, hout, hyields⟩ := @pieces_word F v special hbytes hmerges w
    refine ⟨out :: outs, ?_, .cons hyields hall⟩
    rw [map_cons, flatMap_cons, flatMap_append, flatten_cons]
    exact pieces_append hout hrest

end

lemma flatten_of_shown : ∀ {ws outs : List Str}, List.Forall₂ (Yields v special) ws outs →
    (∀ w ∈ ws, WordShown v special (encodeBytes w)) → outs = ws := by
  intro ws outs h
  induction h with
  | nil =>
    intro _
    rfl
  | cons hyields _ ih =>
    intro hshown
    rw [hyields.shown (hshown _ mem_cons_self), ih fun w hw => hshown w (mem_cons_of_mem _ hw)]

lemma length_of_hidden : ∀ {ws outs : List Str}, List.Forall₂ (Yields v false) ws outs →
    (∀ out ∈ outs, ∀ d ∈ v.idToToken, d.attr.userDefined = true → out ≠ d.text) →
    outs.flatten.length ≤ ws.flatten.length ∧
      (outs.flatten.length = ws.flatten.length → ∀ w ∈ ws, WordShown v false (encodeBytes w)) := by
  intro ws outs h
  induction h with
  | nil =>
    intro _
    exact ⟨le_refl _, fun _ w hw => by cases hw⟩
  | @cons w out ws outs hyields _ ih =>
    intro hfree
    obtain ⟨hle, heq⟩ := ih fun o ho => hfree o (mem_cons_of_mem _ ho)
    simp only [flatten_cons, length_append]
    rcases hyields.hidden rfl with hshown | hshort | ⟨d, hd, huser, hsame⟩
    · rw [hyields.shown hshown]
      refine ⟨by omega, ?_⟩
      intro hlen w' hw'
      rcases mem_cons.1 hw' with rfl | hw'
      · exact hshown
      · exact heq (by omega) w' hw'
    · exact ⟨by omega, fun hlen => by omega⟩
    · exact absurd hsame (hfree out mem_cons_self d hd huser)

lemma findIn_eq_none {text pat : Str} {lo hi : Nat} (h : ¬ pat <:+: text) : findIn text pat lo hi = none := by
  cases hfind : findIn text pat lo hi with
  | none => rfl
  | some pos => exact absurd (findIn_isInfix hfind) h

lemma tokenizerStPartition_whole {raw : Str}
    (huser : ∀ d ∈ v.idToToken, d.attr.userDefined = true → ¬ d.text <:+: raw) :
    tokenizerStPartition v raw false = if raw = [] then [] else [.rawText 0 raw.length] := by
  have one : ∀ id ∈ v.cacheSpecialTokens,
      partitionBy v raw false (if raw = [] then [] else [.rawText 0 raw.length]) id =
        if raw = [] then [] else [.rawText 0 raw.length] := by
    intro id hid
    obtain ⟨d, hd, hflag⟩ := v.cache_special id hid
    simp only [partitionBy, hd]
    split
    · rfl
    · rename_i hlooked
      simp only [Bool.not_false, Bool.true_and, Bool.or_eq_true, not_or] at hlooked
      have hdefined : d.attr.userDefined = true := by
        rcases hflag with hcontrol | hdefined | hunknown
        · exact absurd hcontrol hlooked.1
        · exact hdefined
        · exact absurd hunknown hlooked.2
      have hnone := fun lo hi => @findIn_eq_none raw d.text lo hi (huser d (mem_of_getElem? hd) hdefined)
      split
      · rfl
      · rename_i hne
        have hpos := length_pos_of_ne_nil hne
        rw [flatMap_singleton]
        cases hlen : raw.length with
        | zero => omega
        | succ n => simp only [splitFragment, hnone, if_neg (Nat.succ_ne_zero n)]
  suffices fold : ∀ ids : List Nat, (∀ id ∈ ids, id ∈ v.cacheSpecialTokens) →
      ids.foldl (partitionBy v raw false) (if raw = [] then [] else [.rawText 0 raw.length]) =
        if raw = [] then [] else [.rawText 0 raw.length] by
    exact fold _ fun _ hid => hid
  intro ids
  induction ids with
  | nil =>
    intro _
    rfl
  | cons id ids ih =>
    intro hids
    rw [foldl_cons, one id (hids id mem_cons_self)]
    exact ih fun i hi => hids i (mem_cons_of_mem _ hi)

/-- With `ignore_merges`, every word of the pre-tokenizer that is the text of a token is shown. -/
def WordsShown (u : Unicode) (v : Vocab F) (special : Bool) (raw : Str) : Prop :=
  ∀ words, unicodeRegexSplit u v.regexExprs raw = some words → ∀ word ∈ words, WordShown v special word

lemma tokenize_words {a : Arith F} {u : Unicode} {raw : Str} {words : List Str} (hv : v.type = .bpe)
    (huser : ∀ d ∈ v.idToToken, d.attr.userDefined = true → ¬ d.text <:+: raw)
    (hwords : unicodeRegexSplit u v.regexExprs raw = some words) (hne : raw ≠ []) :
    tokenize a u v raw false false = some ((words.flatMap (bpeWord v)).flatMap (bpeTokens v)) := by
  have hspan : span raw 0 raw.length = raw := by
    simp [span]
  have hfragments : fragmentTokens a u v raw [.rawText 0 raw.length] =
      some ((words.flatMap (bpeWord v)).flatMap (bpeTokens v)) := by
    rw [fragmentTokens, hv]
    simp [eachFragment, hspan, bpeTokenize, hwords]
  simp [tokenize, frontSpecial, backSpecial, hv, special, tokenizerStPartition_whole huser, hne, hfragments]

/-- A valid text without user-defined tokens is tokenized, and the pieces of the tokens make up the text if every word
that is looked up as a whole is shown, and without special tokens only then. -/
theorem pieces_tokenize_bpe {a : Arith F} {u : Unicode} {raw : Str} {cs : List UInt32} (hv : v.type = .bpe)
    (hbytes : ∀ b, NormalText v (byteToUtf8 b)) (hmerges : ∀ l r, v.bpeRanks l r ≠ none → NormalText v (l ++ r))
    (hu : OrderedMatches u) (hraw : cptsToUtf8 cs = some raw)
    (huser : ∀ d ∈ v.idToToken, d.attr.userDefined = true → ¬ d.text <:+: raw) :
    ∃ ids, tokenize a u v raw false false = some ids ∧ (WordsShown u v true raw → pieces v true ids = some raw) ∧
      (WordsShown u v false raw ↔ pieces v false ids = some raw) := by
  obtain ⟨ws, hwords, hflat⟩ := unicodeRegexSplit_encode hu v.regexExprs hraw
  have hsome : ∀ special, WordsShown u v special raw ↔ ∀ w ∈ ws, WordShown v special (encodeBytes w) := by
    intro special
    constructor
    · intro h w hw
      exact h _ hwords _ (mem_map_of_mem hw)
    · intro h words heq word hword
      cases hwords.symm.trans heq
      obtain ⟨w, hw, rfl⟩ := mem_map.1 hword
      exact h w hw
  rcases eq_or_ne raw [] with rfl | hne
  · have hnil : tokenize a u v [] false false = some [] := by
      simp [tokenize, frontSpecial, backSpecial, hv, special, tokenizerStPartition_whole huser, fragmentTokens,
        eachFragment]
    have hshown : WordsShown u v false [] := by
      apply (hsome false).2
      intro w hw _ d hd htext
      rw [flatten_eq_nil_iff.1 hflat w hw] at htext
      exact absurd htext (v.text_ne d hd)
    exact ⟨[], hnil, fun _ => rfl, fun _ => rfl, fun _ => hshown⟩
  · refine ⟨_, tokenize_words hv huser hwords hne, ?_, ?_⟩
    · intro h
      obtain ⟨outs, houts, hall⟩ := @pieces_words F v true hbytes hmerges ws
      rw [houts, flatten_of_shown hall ((hsome true).1 h), hflat]
    · obtain ⟨outs, houts, hall⟩ := @pieces_words F v false hbytes hmerges ws
      rw [houts]
      constructor
      · intro h
        rw [flatten_of_shown hall ((hsome false).1 h), hflat]
      · intro h
        have heq : outs.flatten = raw := Option.some.inj h
        apply (hsome false).2
        apply (length_of_hidden hall ?_).2
        · rw [heq, hflat]
        · intro out hout d hd hdefined hsame
          apply huser d hd hdefined
          rw [← heq, ← hsame]
          exact infix_of_mem_flatten hout

end

def byteChars : List (TokenData Int) := (List.range 256).map fun n => normalToken (byteToUtf8 (UInt8.ofNat n)) 0

/-- A control token whose text is the encoding of a space and `<s>`. -/
def spaceBos : TokenData Int := ⟨encodeBytes [32, 60, 115, 62], 0, { control := true }, { control := true }⟩

lemma mem_byteChars {d : TokenData Int} : d ∈ byteChars ↔ ∃ b, d = normalToken (byteToUtf8 b) 0 := by
  constructor
  · intro h
    obtain ⟨n, -, rfl⟩ := mem_map.1 h
    exact ⟨_, rfl⟩
  · rintro ⟨b, rfl⟩
    refine mem_map.2 ⟨b.toNat, mem_range.2 (UInt8.toNat_lt b), ?_⟩
    rw [UInt8.ofNat_toNat]

lemma length_byteToUtf8_le (b : UInt8) : (byteToUtf8 b).length ≤ 2 :=
  forall_byte (fun b => (byteToUtf8 b).length ≤ 2) (by decide +kernel) b

lemma nodup_map_bytes {f : UInt8 → Str} (hf : ∀ {b c}, f b = f c → b = c) :
    ((List.range 256).map fun n => f (UInt8.ofNat n)).Nodup := by
  apply List.Nodup.map_on ?_ nodup_range
  intro n hn m hm heq
  have hnat := congrArg UInt8.toNat (hf heq)
  rw [UInt8.toNat_ofNat', UInt8.toNat_ofNat'] at hnat
  have := mem_range.1 hn
  have := mem_range.1 hm
  omega

lemma nodup_byteTexts {d : TokenData Int} (hlen : 2 < d.text.length) : ((byteChars ++ [d]).map TokenData.text).Nodup := by
  rw [map_append, nodup_append]
  refine ⟨?_, nodup_singleton _, ?_⟩
  · rw [byteChars, map_map]
    exact nodup_map_bytes byteToUtf8_inj
  · intro text htext text' htext' heq
    obtain ⟨e, he, rfl⟩ := mem_map.1 htext
    obtain ⟨b, rfl⟩ := mem_byteChars.1 he
    cases mem_singleton.1 htext'
    have hle := length_byteToUtf8_le b
    rw [show byteToUtf8 b = d.text from heq] at hle
    exact absurd hle (Nat.not_le.2 hlen)

/-- A BPE vocabulary of the characters of all bytes and the token `d`, without rules. -/
def bytesAnd (d : TokenData Int) (hlen : 2 < d.text.length) (special : List Nat) (hspecial : ∀ id ∈ special,
    ∃ e, (byteChars ++ [d])[id]? = some e ∧ (e.attr.control = true ∨ e.attr.userDefined = true ∨ e.attr.unknown = true)) :
    Vocab Int :=
  .plain .bpe (byteChars ++ [d]) (-1) special hspecial (nodup_byteTexts hlen)
    (by
      intro e he
      rcases mem_append.1 he with he | he
      · obtain ⟨b, rfl⟩ := mem_byteChars.1 he
        exact byteToUtf8_ne_nil b
      · cases mem_singleton.1 he
        exact ne_nil_of_length_pos (by omega))

/-- With a control token. -/
def byteVocab : Vocab Int :=
  { bytesAnd spaceBos (by decide) [256]
      (by
        intro id hid
        cases mem_singleton.1 hid
        exact ⟨spaceBos, rfl, .inl rfl⟩) with
    ignoreMerges := true
    specialBosId := 256 }

/-- With a token for `é`, which a rule joins from its two bytes. -/
def mergeVocab : Vocab Int :=
  { bytesAnd (normalToken (encodeBytes [0xC3, 0xA9]) 0) (by decide) [] nofun with
    bpeRanks := fun l r => if l ++ r = encodeBytes [0xC3, 0xA9] then some 0 else none
    regexExprs := [ascii "\\p\x7bHan\x7d+"] }

section
variable {v : Vocab Int} {d : TokenData Int} (hv : v.idToToken = byteChars ++ [d])
include hv

lemma normal_byte (b : UInt8) : NormalText v (byteToUtf8 b) := by
  refine ⟨normalToken (byteToUtf8 b) 0, ?_, rfl, rfl, rfl, rfl, rfl⟩
  rw [hv]
  exact mem_append_left _ (mem_byteChars.2 ⟨b, rfl⟩)

lemma not_userDefined (hd : d.attr.userDefined = false) {raw : Str} :
    ∀ e ∈ v.idToToken, e.attr.userDefined = true → ¬ e.text <:+: raw := by
  intro e he hdefined
  rw [hv] at he
  rcases mem_append.1 he with he | he
  · obtain ⟨b, rfl⟩ := mem_byteChars.1 he
    cases hdefined
  · cases mem_singleton.1 he
    cases hd.symm.trans hdefined

end

lemma ordered_asciiTables : OrderedMatches asciiTables := fun _ _ => ⟨[], rfl, trivial⟩

/-- The text of a space and `<s>` becomes the control token, whose piece is empty or its encoded text. -/
theorem pieces_spaceBos_lost : byteVocab.type = .bpe ∧ (∀ b, NormalText byteVocab (byteToUtf8 b)) ∧
    (∀ l r, byteVocab.bpeRanks l r ≠ none → NormalText byteVocab (l ++ r)) ∧ OrderedMatches asciiTables ∧
    cptsToUtf8 [32, 60, 115, 62] = some [32, 60, 115, 62] ∧
    (∀ d ∈ byteVocab.idToToken, d.attr.userDefined = true → ¬ d.text <:+: [32, 60, 115, 62]) ∧
    tokenize wholeScores asciiTables byteVocab [32, 60, 115, 62] false false = some [256] ∧
    ∀ special, pieces byteVocab special [256] ≠ some [32, 60, 115, 62] := by
  refine ⟨rfl, normal_byte (d := spaceBos) rfl, fun l r h => absurd rfl h, ordered_asciiTables, by decide,
    not_userDefined (d := spaceBos) rfl rfl, by decide +kernel, ?_⟩
  intro special
  cases special <;> decide +kernel

/-- The two bytes of `é` are joined. -/
theorem pieces_joined_restored :
    tokenize wholeScores asciiTables mergeVocab [104, 0xC3, 0xA9] false false = some [104, 256] ∧
      pieces mergeVocab false [104, 256] = some [104, 0xC3, 0xA9] := by
  have hids : tokenize wholeScores asciiTables mergeVocab [104, 0xC3, 0xA9] false false = some [104, 256] := by
    decide +kernel
  have hmerges : ∀ l r, mergeVocab.bpeRanks l r ≠ none → NormalText mergeVocab (l ++ r) := by
    intro l r h
    have heq : l ++ r = encodeBytes [0xC3, 0xA9] := by
      by_contra hne
      exact h (if_neg hne)
    exact ⟨_, mem_append_right _ mem_cons_self, heq.symm, rfl, rfl, rfl, rfl⟩
  obtain ⟨ids, h, -, hiff⟩ := @pieces_tokenize_bpe Int mergeVocab wholeScores asciiTables [104, 0xC3, 0xA9] [104, 0xE9] rfl
    (normal_byte rfl) hmerges ordered_asciiTables (by decide) (not_userDefined rfl rfl)
  cases hids.symm.trans h
  exact ⟨hids, hiff.1 fun _ _ _ _ hignore => absurd hignore (by decide)⟩

/-- The words that the pre-tokenizer finds in a text are byte-level text, and they decode, one after the other, to the text. -/
theorem decode_unicodeRegexSplit {u : Unicode} (hu : OrderedMatches u) (exprs : List Str) {cs : List UInt32} {text : Str}
    (h : cptsToUtf8 cs = some text) :
    ∃ words, unicodeRegexSplit u exprs text = some words ∧ (words.mapM decodeText).map flatten = some text := by
  obtain ⟨ws, hwords, hflat⟩ := unicodeRegexSplit_encode hu exprs h
  refine ⟨_, hwords, ?_⟩
  have hdecode : (ws.map encodeBytes).mapM decodeText = some ws := by
    clear hwords hflat
    induction ws with
    | nil => rfl
    | cons w ws ih =>
      rw [map_cons, mapM_cons, decodeText_encodeBytes, ih]
      rfl
  rw [hdecode, ← hflat]
  rfl

theorem decode_unicodeRegexSplit_han : ∃ words, unicodeRegexSplit asciiTables [ascii "\\p\x7bHan\x7d+"] [97, 0xE6, 0xBC, 0xA2] =
      some words ∧ (words.mapM decodeText).map flatten = some [97, 0xE6, 0xBC, 0xA2] :=
  decode_unicodeRegexSplit ordered_asciiTables _ (show cptsToUtf8 [97, 0x6F22] = some [97, 0xE6, 0xBC, 0xA2] by decide)

end Mallana.Tokenizer
