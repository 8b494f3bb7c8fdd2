import Mallana.Tokenizer.Tokenize
import Mathlib.Data.Finset.Max

/-!
# The front of a text that the UGM session normalizes

`normalize_prefix` looks for a user-defined token, then for a key of the double array, then for a code point. The walk
over the double array ends with the longest key. The search for a user-defined token ends with the longest text that some
user-defined token begins with, whether a token ends there or not.
-/

namespace Mallana.Tokenizer

open Lib List Option

variable {F : Type}

/-- `normalize_prefix` at an offset of the input. -/
def normalizePrefixAt (t : UgmTokenizer F) (input : Str) (offset : Nat) : Option (Str × Nat) :=
  if offset = input.length then some ([], 0) else normalizePrefix t (input.drop offset)

/-- `user_defined_token_match.second`. -/
def userDefinedMatch (t : UgmTokenizer F) (input : Str) : Nat := t.userDefinedTokenMatcher.longest input

def userDefinedTexts (v : Vocab F) : List Str := (matcherEntries v fun d => d.built.userDefined).map Prod.fst

section
variable {xcda : List UInt32} {key text : Str} {index index' : UInt32} {leaf leaf' : Bool} {c : UInt8}

/-- The walk over the double array for a text: the index it ends at, and whether a key ends there. -/
inductive XcdaPath (xcda : List UInt32) : Str → UInt32 → Bool → Prop where
  | root {node} : xcda[0]? = some node → XcdaPath xcda [] (xcdaBase node) false
  | child {key index leaf c node} : XcdaPath xcda key index leaf → c ≠ 0 →
      xcda[(index ^^^ c.toUInt32).toNat]? = some node → xcdaLcheck node = c.toUInt32 →
      XcdaPath xcda (key ++ [c]) (index ^^^ c.toUInt32 ^^^ xcdaBase node) (xcdaLeaf node)

/-- A key of the double array and the offset of its replacement. -/
def XcdaKey (xcda : List UInt32) (key : Str) (offset : Nat) : Prop :=
  ∃ index leaf, XcdaPath xcda key index true ∧ xcda[index.toNat]? = some leaf ∧ offset = (xcdaValue leaf).toNat

/-- The longest key among the first `k` prefixes of a text; the length is 0 if there is none. -/
structure LongestKey (xcda : List UInt32) (text : Str) (k : Nat) (best : Nat × Nat) : Prop where
  le : best.1 ≤ k
  key : 0 < best.1 → XcdaKey xcda (text.take best.1) best.2
  longest : ∀ n offset, best.1 < n → n ≤ k → ¬ XcdaKey xcda (text.take n) offset

/-- The walk for a text reads behind the end of the double array. -/
def XcdaBroken (xcda : List UInt32) (text : Str) : Prop :=
  (∃ key index leaf c, key ++ [c] <+: text ∧ XcdaPath xcda key index leaf ∧
    xcda.length ≤ (index ^^^ c.toUInt32).toNat) ∨
  ∃ key index, key <+: text ∧ XcdaPath xcda key index true ∧ xcda.length ≤ index.toNat

lemma XcdaPath.det (h : XcdaPath xcda key index leaf) (h' : XcdaPath xcda key index' leaf') :
    index = index' ∧ leaf = leaf' := by
  induction h generalizing index' leaf' with
  | @root node hnode =>
    generalize hkey : ([] : Str) = key at h'
    cases h' with
    | root hnode' =>
      rw [hnode] at hnode'
      cases hnode'
      exact ⟨rfl, rfl⟩
    | child => simp at hkey
  | @child key index leaf c node hpath hne hnode hcheck ih =>
    generalize hkey : key ++ [c] = key' at h'
    cases h' with
    | root => simp at hkey
    | child hpath' hne' hnode' hcheck' =>
      obtain ⟨rfl, hc⟩ := append_inj' hkey rfl
      cases hc
      obtain ⟨rfl, -⟩ := ih hpath'
      rw [hnode] at hnode'
      cases hnode'
      exact ⟨rfl, rfl⟩

lemma XcdaPath.take (h : XcdaPath xcda key index leaf) :
    ∀ k, ∃ index leaf, XcdaPath xcda (key.take k) index leaf := by
  induction h with
  | root hnode =>
    intro k
    rw [take_nil]
    exact ⟨_, _, .root hnode⟩
  | @child key index leaf c node hpath hne hnode hcheck ih =>
    intro k
    obtain hk | hk := lt_or_ge key.length k
    · rw [take_of_length_le (by simp; omega)]
      exact ⟨_, _, .child hpath hne hnode hcheck⟩
    · rw [take_append_of_le_length hk]
      exact ih k

lemma LongestKey.stop {best : Nat × Nat} (h : LongestKey xcda (key ++ c :: text) key.length best)
    (hpath : XcdaPath xcda key index leaf)
    (hstop : ∀ node, xcda[(index ^^^ c.toUInt32).toNat]? = some node → c ≠ 0 → xcdaLcheck node ≠ c.toUInt32) :
    LongestKey xcda (key ++ c :: text) (key ++ c :: text).length best := by
  refine ⟨h.le.trans (by simp), h.key, ?_⟩
  intro n offset hlt hn hkey
  obtain hk | hk := lt_or_ge key.length n
  · obtain ⟨index', -, hpath', -, -⟩ := hkey
    obtain ⟨i, l, hstep⟩ := hpath'.take (key.length + 1)
    have htake : ((key ++ c :: text).take n).take (key.length + 1) = key ++ [c] := by
      rw [take_take, min_eq_left hk, take_append, take_of_length_le (Nat.le_succ _)]
      simp
    rw [htake] at hstep
    generalize hkey : key ++ [c] = key' at hstep
    cases hstep with
    | root => simp at hkey
    | child hpre hne hnode hcheck =>
      obtain ⟨rfl, hc⟩ := append_inj' hkey rfl
      cases hc
      obtain ⟨rfl, -⟩ := hpath.det hpre
      exact hstop _ hnode hne hcheck
  · exact h.longest n offset hlt hk hkey

lemma LongestKey.next {best : Nat × Nat} {k : Nat} (h : LongestKey xcda text k best)
    (hno : ∀ offset, ¬ XcdaKey xcda (text.take (k + 1)) offset) : LongestKey xcda text (k + 1) best := by
  refine ⟨h.le.trans (Nat.le_succ k), h.key, ?_⟩
  intro n offset hlt hn hkey
  obtain hk | rfl := Nat.le_succ_iff.1 hn
  · exact h.longest n offset hlt hk hkey
  · exact hno offset hkey

lemma xcdaWalk_spec {input : Str} : ∀ {key : Str} {index : UInt32} {leaf : Bool} {best : Nat × Nat},
    XcdaPath xcda key index leaf → LongestKey xcda (key ++ input) key.length best →
    (xcdaWalk xcda input index key.length best = none ∧ XcdaBroken xcda (key ++ input)) ∨
      ∃ best', xcdaWalk xcda input index key.length best = some best' ∧
        LongestKey xcda (key ++ input) (key ++ input).length best' := by
  induction input with
  | nil =>
    intro key index leaf best hpath hbest
    right
    refine ⟨best, rfl, ?_⟩
    rwa [append_nil] at hbest ⊢
  | cons c input ih =>
    intro key index leaf best hpath hbest
    have hsplit : key ++ c :: input = (key ++ [c]) ++ input := by
      simp
    have hlen : (key ++ [c]).length = key.length + 1 := length_append
    have htake : (key ++ c :: input).take (key.length + 1) = key ++ [c] := by
      rw [hsplit, take_append_of_le_length (by simp), take_of_length_le (by simp)]
    rw [xcdaWalk]
    by_cases hc : c = 0
    · rw [if_pos hc]
      exact .inr ⟨best, rfl, hbest.stop hpath fun node _ hne => absurd hc hne⟩
    rw [if_neg hc]
    simp only [bind_eq_bind]
    cases hnode : xcda[(index ^^^ c.toUInt32).toNat]? with
    | none =>
      refine .inl ⟨rfl, .inl ⟨key, index, leaf, c, ?_, hpath, List.getElem?_eq_none_iff.1 hnode⟩⟩
      rw [hsplit]
      exact prefix_append _ _
    | some node =>
      simp only [bind_some]
      by_cases hcheck : xcdaLcheck node ≠ c.toUInt32
      · rw [if_pos hcheck]
        refine .inr ⟨best, rfl, hbest.stop hpath fun node' hnode' _ => ?_⟩
        rw [hnode] at hnode'
        cases hnode'
        exact hcheck
      rw [if_neg hcheck]
      have hchild := hpath.child hc hnode (not_not.1 hcheck)
      cases hleaf : xcdaLeaf node with
      | true =>
        rw [if_pos rfl]
        rw [hleaf] at hchild
        cases hvalue : xcda[(index ^^^ c.toUInt32 ^^^ xcdaBase node).toNat]? with
        | none =>
          refine .inl ⟨rfl, .inr ⟨key ++ [c], _, ?_, hchild, List.getElem?_eq_none_iff.1 hvalue⟩⟩
          rw [hsplit]
          exact prefix_append _ _
        | some value =>
          simp only [bind_some]
          have hkey : XcdaKey xcda (key ++ [c]) (xcdaValue value).toNat := ⟨_, value, hchild, hvalue, rfl⟩
          have hnew : LongestKey xcda (key ++ c :: input) (key.length + 1) (key.length + 1, (xcdaValue value).toNat) := by
            refine ⟨le_refl _, fun _ => ?_, fun n offset hlt hn => absurd hn (Nat.not_le.2 hlt)⟩
            rw [htake]
            exact hkey
          rw [hsplit, ← hlen] at hnew
          have hnext := ih hchild hnew
          rwa [hlen, ← hsplit] at hnext
      | false =>
        rw [if_neg Bool.false_ne_true]
        rw [hleaf] at hchild
        have hnew : LongestKey xcda (key ++ c :: input) (key.length + 1) best := by
          refine hbest.next fun offset hkey => ?_
          obtain ⟨index', -, hpath', -, -⟩ := hkey
          rw [htake] at hpath'
          exact Bool.false_ne_true (hchild.det hpath').2
        rw [hsplit, ← hlen] at hnew
        have hnext := ih hchild hnew
        rwa [hlen, ← hsplit] at hnext

lemma xcdaLongest_spec (xcda : List UInt32) (input : Str) :
    (xcdaLongest xcda input = none ∧ XcdaBroken xcda input) ∨
      ∃ best, xcdaLongest xcda input = some best ∧ LongestKey xcda input input.length best := by
  rw [xcdaLongest]
  cases xcda with
  | nil =>
    refine .inr ⟨(0, 0), rfl, Nat.zero_le _, fun h => absurd h (lt_irrefl 0), ?_⟩
    intro n offset _ _ hkey
    obtain ⟨index, leaf, -, hleaf, -⟩ := hkey
    cases hleaf
  | cons root rest =>
    rw [if_neg (cons_ne_nil _ _)]
    have hpath : XcdaPath (root :: rest) [] (xcdaBase root) false := .root rfl
    have hstart : LongestKey (root :: rest) ([] ++ input) ([] : Str).length (0, 0) :=
      ⟨le_refl 0, fun h => absurd h (lt_irrefl 0), fun n offset hlt hn => absurd hn (Nat.not_le.2 hlt)⟩
    exact xcdaWalk_spec hpath hstart

end

section
variable {a : Arith F} {v : Vocab F} {t : UgmTokenizer F} {input text : Str}

def CharsmapBroken (t : UgmTokenizer F) (input : Str) : Prop :=
  XcdaBroken t.xcdaArray input ∨
    ∃ n offset, XcdaKey t.xcdaArray (input.take n) offset ∧ t.prefixReplacements.length ≤ offset

/-- What stands for the front of an input without a user-defined token, and the number of bytes it stands for. -/
inductive Replaced (t : UgmTokenizer F) (input : Str) : Str × Nat → Prop where
  | charsmap {n offset : Nat} : 0 < n → LongestKey t.xcdaArray input input.length (n, offset) →
      offset < t.prefixReplacements.length →
      Replaced t input ((t.prefixReplacements.drop offset).takeWhile fun b => b != 0, n)
  | codePoint {offset : Nat} {c : UInt32} {n : Nat} : LongestKey t.xcdaArray input input.length (0, offset) → cptFromUtf8 input = some (c, n) →
      Replaced t input (input.take n, n)
  | invalid {offset : Nat} : LongestKey t.xcdaArray input input.length (0, offset) → cptFromUtf8 input = none →
      Replaced t input ([0xEF, 0xBF, 0xBD], 1)

lemma normalizePrefix_replaced (hno : userDefinedMatch t input = 0) :
    (normalizePrefix t input = none ∧ CharsmapBroken t input) ∨
      ∃ r, normalizePrefix t input = some r ∧ Replaced t input r := by
  have hmatch : ¬ 0 < t.userDefinedTokenMatcher.longest input := Nat.not_lt.2 (le_of_eq hno)
  rw [normalizePrefix, if_neg hmatch]
  obtain ⟨hnone, hbroken⟩ | ⟨⟨n, replacement⟩, hsome, hlongest⟩ := xcdaLongest_spec t.xcdaArray input
  · rw [hnone]
    exact .inl ⟨rfl, .inl hbroken⟩
  rw [hsome]
  simp only [bind_eq_bind, bind_some]
  obtain rfl | hn := Nat.eq_zero_or_pos n
  · right
    rw [if_neg (lt_irrefl 0)]
    cases hcpt : cptFromUtf8 input with
    | none => exact ⟨_, rfl, .invalid hlongest hcpt⟩
    | some p => exact ⟨_, rfl, .codePoint hlongest hcpt⟩
  · rw [if_pos hn]
    obtain hlt | hle := lt_or_ge replacement t.prefixReplacements.length
    · rw [if_neg (Nat.not_le.2 hlt)]
      exact .inr ⟨_, rfl, .charsmap hn hlongest hlt⟩
    · rw [if_pos hle]
      exact .inl ⟨rfl, .inr ⟨n, replacement, hlongest.key hn, hle⟩⟩

lemma ugmBuild_userDefined (h : ugmBuild a v = some t) :
    t.userDefinedTokenMatcher = Trie.ofList (matcherEntries v fun d => d.built.userDefined) := by
  obtain ⟨x, -, hx⟩ := bind_eq_some_iff.1 h
  cases hx
  rfl

def BeginsUserDefined (v : Vocab F) (text : Str) : Prop := ∃ token ∈ userDefinedTexts v, text <+: token

lemma isSome_userDefined (h : ugmBuild a v = some t) (hne : text ≠ []) :
    (t.userDefinedTokenMatcher.descend text).isSome ↔ BeginsUserDefined v text := by
  rw [ugmBuild_userDefined h, Trie.isSome_descend_ofList, or_iff_right hne, BeginsUserDefined, userDefinedTexts]
  constructor
  · intro ⟨p, hp, hpre⟩
    exact ⟨p.1, List.mem_map_of_mem hp, hpre⟩
  · intro ⟨token, htoken, hpre⟩
    obtain ⟨p, hp, rfl⟩ := List.mem_map.1 htoken
    exact ⟨p, hp, hpre⟩

lemma length_userDefinedMatch (t : UgmTokenizer F) (input : Str) :
    (input.take (userDefinedMatch t input)).length = userDefinedMatch t input := by
  rw [length_take]
  exact min_eq_left Trie.longest_le

lemma userDefinedMatch_begins (h : ugmBuild a v = some t) (hpos : 0 < userDefinedMatch t input) :
    BeginsUserDefined v (input.take (userDefinedMatch t input)) := by
  refine (isSome_userDefined h ?_).1 Trie.isSome_descend_longest
  intro hnil
  have hlen := congrArg List.length hnil
  rw [length_userDefinedMatch] at hlen
  exact absurd hlen (Nat.pos_iff_ne_zero.1 hpos)

lemma le_userDefinedMatch (h : ugmBuild a v = some t) (hpre : text <+: input) (hbegins : BeginsUserDefined v text) :
    text.length ≤ userDefinedMatch t input := by
  obtain rfl | hne := eq_or_ne text []
  · exact Nat.zero_le _
  · exact Trie.le_longest ((isSome_userDefined h hne).2 hbegins) hpre

lemma normalizePrefixAt_match {offset : Nat} (hoffset : offset < text.length) (hpos : 0 < userDefinedMatch t (text.drop offset)) :
    normalizePrefixAt t text offset =
      some ((text.drop offset).take (userDefinedMatch t (text.drop offset)), userDefinedMatch t (text.drop offset)) := by
  rw [normalizePrefixAt, if_neg (ne_of_lt hoffset), normalizePrefix]
  exact if_pos hpos

lemma mem_userDefinedTexts_ne {token : Str} (h : token ∈ userDefinedTexts v) : token ≠ [] := by
  obtain ⟨⟨s, k⟩, hmem, rfl⟩ := List.mem_map.1 h
  obtain ⟨d, hd, -, rfl⟩ := mem_matcherEntries hmem
  exact v.text_ne d (mem_of_getElem? hd)

lemma exists_longest_token {token : Str} (hmem : token ∈ userDefinedTexts v) (hpre : token <+: input) :
    ∃ best ∈ userDefinedTexts v, best <+: input ∧
      ∀ other ∈ userDefinedTexts v, other <+: input → other.length ≤ best.length := by
  have hne : ((userDefinedTexts v).filter fun s => decide (s <+: input)).toFinset.Nonempty :=
    ⟨token, List.mem_toFinset.2 (mem_filter.2 ⟨hmem, decide_eq_true hpre⟩)⟩
  obtain ⟨best, hbest, hmost⟩ := Finset.exists_max_image _ List.length hne
  obtain ⟨hbest, hfront⟩ := mem_filter.1 (List.mem_toFinset.1 hbest)
  refine ⟨best, hbest, of_decide_eq_true hfront, ?_⟩
  intro other hother hpre
  exact hmost other (List.mem_toFinset.2 (mem_filter.2 ⟨hother, decide_eq_true hpre⟩))

/-- A user-defined token takes precedence where one is present, the longest one, and nothing else is matched. -/
structure PrefersTokens (v : Vocab F) (t : UgmTokenizer F) (text : Str) (offset : Nat) : Prop where
  matched : 0 < userDefinedMatch t (text.drop offset) ↔ ∃ token ∈ userDefinedTexts v, token <+: text.drop offset
  longest : ∀ token ∈ userDefinedTexts v, token <+: text.drop offset →
    (∀ other ∈ userDefinedTexts v, other <+: text.drop offset → other.length ≤ token.length) →
    normalizePrefixAt t text offset = some (token, token.length)
  otherwise : offset < text.length → (∀ token ∈ userDefinedTexts v, ¬ token <+: text.drop offset) →
    (normalizePrefixAt t text offset = none ∧ CharsmapBroken t (text.drop offset)) ∨
      ∃ r, normalizePrefixAt t text offset = some r ∧ Replaced t (text.drop offset) r

/-- The longest front of the input that some user-defined token begins with, if it is not empty, is such a token. -/
def EndsToken (v : Vocab F) (input : Str) : Prop :=
  ∀ s, s ≠ [] → s <+: input → BeginsUserDefined v s →
    (∀ s', s' <+: input → BeginsUserDefined v s' → s'.length ≤ s.length) → s ∈ userDefinedTexts v

/-- `normalize_prefix` prefers the longest user-defined token exactly where the longest front of the remaining text that
begins some user-defined token is one. -/
theorem prefersTokens_iff (h : ugmBuild a v = some t) (text : Str) (offset : Nat) :
    PrefersTokens v t text offset ↔ EndsToken v (text.drop offset) := by
  have offset_lt : ∀ {token}, token ≠ [] → token <+: text.drop offset → offset < text.length := by
    intro token hne hpre
    have hlen := hpre.length_le
    have hpos := length_pos_iff.2 hne
    rw [length_drop] at hlen
    omega
  constructor
  · intro hprefers s hne hpre hbegins hlongest
    have hmax := le_userDefinedMatch h hpre hbegins
    have hpos : 0 < userDefinedMatch t (text.drop offset) := (length_pos_iff.2 hne).trans_le hmax
    have hlen : userDefinedMatch t (text.drop offset) = s.length := by
      apply le_antisymm _ hmax
      have hle := hlongest _ (List.take_prefix _ _) (userDefinedMatch_begins h hpos)
      rwa [length_userDefinedMatch] at hle
    obtain ⟨token, hmem, htoken⟩ := hprefers.matched.1 hpos
    -- of the tokens that stand in front, a longest one is what is passed
    obtain ⟨best, hbest, hfront, hmost⟩ := exists_longest_token hmem htoken
    have hpassed := hprefers.longest best hbest hfront hmost
    rw [normalizePrefixAt_match (offset_lt hne hpre) hpos, hlen, ← prefix_iff_eq_take.1 hpre] at hpassed
    cases hpassed
    exact hbest
  · intro hends
    -- a match is a token
    have hmatch : 0 < userDefinedMatch t (text.drop offset) →
        (text.drop offset).take (userDefinedMatch t (text.drop offset)) ∈ userDefinedTexts v := by
      intro hpos
      have hbegins := userDefinedMatch_begins h hpos
      refine hends _ ?_ (List.take_prefix _ _) hbegins ?_
      · intro hnil
        rw [← length_userDefinedMatch, hnil] at hpos
        exact lt_irrefl 0 hpos
      · intro s' hpre hbegins'
        rw [length_userDefinedMatch]
        exact le_userDefinedMatch h hpre hbegins'
    have htoken : ∀ token ∈ userDefinedTexts v, token <+: text.drop offset →
        token.length ≤ userDefinedMatch t (text.drop offset) := by
      intro token hmem hpre
      exact le_userDefinedMatch h hpre ⟨token, hmem, prefix_rfl⟩
    constructor
    · constructor
      · intro hpos
        exact ⟨_, hmatch hpos, take_prefix _ _⟩
      · intro ⟨token, hmem, hpre⟩
        exact (length_pos_iff.2 (mem_userDefinedTexts_ne hmem)).trans_le (htoken token hmem hpre)
    · intro token hmem hpre hmost
      have hne := mem_userDefinedTexts_ne hmem
      have hpos := (length_pos_iff.2 hne).trans_le (htoken token hmem hpre)
      have hlen : userDefinedMatch t (text.drop offset) = token.length := by
        apply le_antisymm _ (htoken token hmem hpre)
        have hle := hmost _ (hmatch hpos) (List.take_prefix _ _)
        rwa [length_userDefinedMatch] at hle
      rw [normalizePrefixAt_match (offset_lt hne hpre) hpos, hlen, ← prefix_iff_eq_take.1 hpre]
    · intro hoffset hnone
      have hzero : userDefinedMatch t (text.drop offset) = 0 := by
        apply Nat.eq_zero_of_not_pos
        intro hpos
        exact hnone _ (hmatch hpos) (List.take_prefix _ _)
      rw [normalizePrefixAt, if_neg (ne_of_lt hoffset)]
      exact normalizePrefix_replaced hzero

end

def spaceVocab : Vocab Int :=
  { Vocab.plain .ugm [⟨[60], 0, { unknown := true }, { unknown := true }⟩,
      ⟨escapedSpace, 0, { userDefined := true }, { userDefined := true }⟩]
      0 [0, 1] (by decide) (by decide) (by decide) with escapeWhitespaces := true }

/-- Two bytes of U+2582 are passed as a match, and its third byte is left. -/
theorem prefersTokens_firstBytes : ∃ t, ugmBuild wholeScores spaceVocab = some t ∧
    normalizePrefixAt t [0xE2, 0x96, 0x82] 0 = some ([0xE2, 0x96], 2) ∧
    ¬ PrefersTokens spaceVocab t [0xE2, 0x96, 0x82] 0 := by
  refine ⟨_, rfl, rfl, ?_⟩
  intro hprefers
  obtain ⟨token, htoken, hpre⟩ := hprefers.matched.1 (by decide)
  revert token
  decide

/-- U+2581 itself is passed as the user-defined token. -/
theorem prefersTokens_space : ∃ t, ugmBuild wholeScores spaceVocab = some t ∧
    (PrefersTokens spaceVocab t escapedSpace 0 ↔ EndsToken spaceVocab escapedSpace) :=
  ⟨_, rfl, prefersTokens_iff rfl escapedSpace 0⟩

end Mallana.Tokenizer
