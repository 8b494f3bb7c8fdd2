import Mallana.Lib.BestPath
import Mallana.Tokenizer.UgmPrefix
import Mathlib.Algebra.Order.Ring.Rat
import Mathlib.Tactic.Linarith
import Mathlib.Tactic.Positivity

/-!
# The segmentation that the UGM session finds

In exact arithmetic the search of `llm_tokenizer_ugm_session::tokenize` ends with a segmentation of the normalized text
whose score is the highest. An entry of `tokenization_results` is challenged once from each character boundary in front of
it, by a token or by the unknown token for one character.
-/

namespace Mallana.Tokenizer

open Lib List Option

/-- Exact scores, with the bounds of `float` and `double`. -/
def exactScores : Arith ℚ where
  lt x y := decide (x < y)
  eq x y := decide (x = y)
  add x y := x + y
  sub x y := x - y
  zero := 0
  fltMax := (2 ^ 24 - 1) * 2 ^ 104
  negFltMax := -((2 ^ 24 - 1) * 2 ^ 104)
  negDblMax := -((2 ^ 53 - 1) * 2 ^ 971)
  ten := 10
  round x := some (if 0 ≤ x then (x * 10000 + 1 / 2).floor else -(-x * 10000 + 1 / 2).floor)

/-- `n_utf8_code_units`. -/
def charLen (text : Str) (offset : Nat) : Nat := min (lenUtf8 (text.getD offset 0)) (text.length - offset)

/-- The offsets that the loop over the code points visits, and the end of the text. -/
inductive Boundary (text : Str) : Nat → Prop where
  | start : Boundary text 0
  | next {offset : Nat} : Boundary text offset → offset < text.length → Boundary text (offset + charLen text offset)

/-- The tokens that may stand for a part of the text, with their scores: a token with this text, or the unknown token for
a character that is no token itself. -/
inductive UgmPiece (v : Vocab ℚ) (t : UgmTokenizer ℚ) (text : Str) (s e : Nat) : Int → ℚ → Prop where
  | token {k : Nat} : s < e → e ≤ text.length → (span text s (e - s), k) ∈ matcherEntries v matched →
      UgmPiece v t text s e k (tokenScore exactScores v k)
  | unknown : s < text.length → e = s + charLen text s → (∀ k, (span text s (e - s), k) ∉ matcherEntries v matched) →
      UgmPiece v t text s e v.specialUnkId t.unknownTokenScore

def UgmEdge (v : Vocab ℚ) (t : UgmTokenizer ℚ) (text : Str) (s e : Nat) (id : Int) (score : ℚ) : Prop :=
  Boundary text s ∧ Boundary text e ∧ UgmPiece v t text s e id score

/-- Consecutive unknown tokens are one, from the end of the tokens on. -/
def mergeUnknowns (unk : Int) : Bool → List Int → List Int
  | _, [] => []
  | isPrevUnknown, id :: ids =>
    if isPrevUnknown && id == unk then mergeUnknowns unk true ids else id :: mergeUnknowns unk (id == unk) ids

section
variable {text : Str} {s e : Nat}

lemma charLen_pos (h : s < text.length) : 0 < charLen text s := Nat.lt_min.2 ⟨lenUtf8_pos _, Nat.sub_pos_of_lt h⟩

lemma charLen_le : s ≤ text.length → s + charLen text s ≤ text.length := by
  intro h
  have := min_le_right (lenUtf8 (text.getD s 0)) (text.length - s)
  rw [charLen]
  omega

lemma Boundary.le (h : Boundary text s) : s ≤ text.length := by
  cases h with
  | start => exact Nat.zero_le _
  | next _ hlt => exact charLen_le (le_of_lt hlt)

lemma boundary_length : Boundary text text.length := by
  suffices visit : ∀ n o, Boundary text o → text.length - o = n → Boundary text text.length from visit _ 0 .start rfl
  intro n
  induction n using Nat.strongRecOn with
  | ind n ih =>
    intro o ho hn
    obtain hlt | hge := lt_or_ge o text.length
    · have hpos := charLen_pos hlt
      exact ih (text.length - (o + charLen text o)) (by omega) _ (ho.next hlt) rfl
    · rwa [le_antisymm ho.le hge] at ho

lemma Boundary.gap : ∀ {e : Nat}, Boundary text e → ∀ {s : Nat}, Boundary text s → s < e → s + charLen text s ≤ e := by
  intro e
  induction e using Nat.strongRecOn with
  | ind e ih =>
    intro he s hs hlt
    cases he with
    | start => exact absurd hlt (Nat.not_lt_zero s)
    | @next o ho hend =>
      have hpos := charLen_pos hend
      obtain h | rfl | h := lt_trichotomy s o
      · exact (ih o (by omega) ho hs h).trans (Nat.le_add_right _ _)
      · exact le_refl _
      · exact absurd (ih s hlt hs ho h) (Nat.not_le.2 hlt)

end

section
variable {F : Type} {a : Arith F} {v : Vocab F} {results : List (Best F)} {ch : Best F} {offset units : Nat} {current : F}

def champion (a : Arith F) (ch champ : Best F) : Best F := if a.lt champ.scoreSum ch.scoreSum then ch else champ

lemma getElem?_challenge (pos j : Nat) :
    (challenge a results pos ch)[j]? = if pos = j then (results[j]?).map (champion a ch) else results[j]? := by
  rw [challenge]
  cases hpos : results[pos]? with
  | none =>
    dsimp only
    split
    · rename_i heq
      rw [← heq, hpos]
      rfl
    · rfl
  | some champ =>
    dsimp only
    by_cases hj : pos = j
    · subst hj
      have hlt : pos < results.length := (List.getElem?_eq_some_iff.1 hpos).1
      rw [if_pos rfl, hpos, map_some, champion]
      split
      · rw [getElem?_set_self hlt]
      · exact hpos
    · rw [if_neg hj]
      split
      · rw [getElem?_set_ne hj]
      · rfl

def tokenFrom (node : Trie UInt8 Nat) (rest : Str) (n : Nat) : Option Nat :=
  if n ≤ rest.length then node.find (rest.take n) else none

/-- An entry after the challenge by a token, if there is one. -/
def challenged (a : Arith F) (v : Vocab F) (offset : Nat) (current : F) (token : Option Nat) (entry : Option (Best F)) :
    Option (Best F) :=
  match token with
  | none => entry
  | some k => entry.map (champion a ⟨k, offset, a.add current (tokenScore a v k)⟩)

lemma tokenFrom_zero (node : Trie UInt8 Nat) (rest : Str) : tokenFrom node rest 0 = node.value := by
  rw [tokenFrom, if_pos (Nat.zero_le _), take_zero, Trie.find]

lemma tokenFrom_nil (node : Trie UInt8 Nat) (n : Nat) : tokenFrom node [] (n + 1) = none := if_neg (Nat.not_succ_le_zero n)

lemma tokenFrom_succ (node : Trie UInt8 Nat) (c : UInt8) (rest : Str) (n : Nat) :
    tokenFrom node (c :: rest) (n + 1) = (node.child c).bind fun next => tokenFrom next rest n := by
  rw [tokenFrom, length_cons, take_succ_cons, Trie.find]
  cases node.child c with
  | none => exact ite_self _
  | some next =>
    simp only [Nat.add_le_add_iff_right]
    rfl

def atNode (a : Arith F) (v : Vocab F) (offset units : Nat) (current : F) (node : Trie UInt8 Nat) (length : Nat)
    (state : Bool × List (Best F)) : Bool × List (Best F) :=
  match node.value with
  | none => state
  | some id => (state.1 || length == units,
      challenge a state.2 (offset + length) ⟨id, offset, a.add current (tokenScore a v id)⟩)

lemma matchTokens_nil (node : Trie UInt8 Nat) (length : Nat) (state : Bool × List (Best F)) :
    matchTokens a v offset units current node [] length state = atNode a v offset units current node length state := by
  obtain ⟨found, results⟩ := state
  cases hval : node.value with
  | none => simp only [matchTokens, atNode, hval]
  | some id => simp only [matchTokens, atNode, hval]

lemma matchTokens_cons (node : Trie UInt8 Nat) (c : UInt8) (rest : Str) (length : Nat) (state : Bool × List (Best F)) :
    matchTokens a v offset units current node (c :: rest) length state = match node.child c with
      | none => atNode a v offset units current node length state
      | some next => matchTokens a v offset units current next rest (length + 1)
          (atNode a v offset units current node length state) := by
  obtain ⟨found, results⟩ := state
  cases hnext : node.child c <;> cases hval : node.value <;> simp only [matchTokens, atNode, hval, hnext]

lemma getElem?_atNode (node : Trie UInt8 Nat) (length : Nat) (state : Bool × List (Best F)) (j : Nat) :
    (atNode a v offset units current node length state).2[j]? =
      if offset + length = j then challenged a v offset current node.value state.2[j]? else state.2[j]? := by
  rw [atNode]
  cases node.value with
  | none => exact (ite_self _).symm
  | some id => exact getElem?_challenge _ j

lemma found_atNode (node : Trie UInt8 Nat) (length : Nat) (state : Bool × List (Best F)) :
    (atNode a v offset units current node length state).1 =
      (state.1 || (decide (length = units) && node.value.isSome)) := by
  rw [atNode]
  cases node.value with
  | none => simp
  | some id =>
    rw [isSome_some, Bool.and_true]
    rfl

lemma atNode_spec {node : Trie UInt8 Nat} {rest : Str} (hnone : ∀ n, tokenFrom node rest (n + 1) = none) (length : Nat)
    (state : Bool × List (Best F)) : (∀ j, (atNode a v offset units current node length state).2[j]? =
      if offset + length ≤ j then challenged a v offset current (tokenFrom node rest (j - (offset + length))) state.2[j]?
      else state.2[j]?) ∧ (atNode a v offset units current node length state).1 =
      (state.1 || (decide (length ≤ units) && (tokenFrom node rest (units - length)).isSome)) := by
  constructor
  · intro j
    rw [getElem?_atNode]
    obtain hlt | rfl | hgt := lt_trichotomy (offset + length) j
    · obtain ⟨n, rfl⟩ := Nat.exists_eq_add_of_lt hlt
      rw [if_neg (ne_of_lt hlt), if_pos (le_of_lt hlt), add_assoc, Nat.add_sub_cancel_left, hnone]
      rfl
    · rw [if_pos rfl, if_pos (Nat.le_refl _), Nat.sub_self, tokenFrom_zero]
    · rw [if_neg (ne_of_gt hgt), if_neg (Nat.not_le.2 hgt)]
  · rw [found_atNode]
    obtain hlt | rfl | hgt := lt_trichotomy length units
    · obtain ⟨n, rfl⟩ := Nat.exists_eq_add_of_lt hlt
      rw [decide_eq_false (ne_of_lt hlt), add_assoc, Nat.add_sub_cancel_left, hnone]
      simp
    · rw [Nat.sub_self, tokenFrom_zero]
      simp
    · rw [decide_eq_false (ne_of_gt hgt), decide_eq_false (Nat.not_le.2 hgt), Bool.false_and, Bool.false_and]

lemma matchTokens_spec : ∀ {rest : Str} {node : Trie UInt8 Nat} {length : Nat} {state : Bool × List (Best F)},
    (∀ j, (matchTokens a v offset units current node rest length state).2[j]? =
      if offset + length ≤ j then challenged a v offset current (tokenFrom node rest (j - (offset + length))) state.2[j]?
      else state.2[j]?) ∧ (matchTokens a v offset units current node rest length state).1 =
      (state.1 || (decide (length ≤ units) && (tokenFrom node rest (units - length)).isSome)) := by
  intro rest
  induction rest with
  | nil =>
    intro node length state
    rw [matchTokens_nil]
    exact atNode_spec (tokenFrom_nil node) length state
  | cons c rest ih =>
    intro node length state
    have hat := @getElem?_atNode F a v offset units current node length state
    rw [matchTokens_cons]
    cases hchild : node.child c with
    | none =>
      refine atNode_spec (fun n => ?_) length state
      rw [tokenFrom_succ, hchild]
      rfl
    | some next =>
      have hsome : ∀ n, tokenFrom node (c :: rest) (n + 1) = tokenFrom next rest n := fun n => by
        rw [tokenFrom_succ, hchild]; rfl
      obtain ⟨hresults, hfound⟩ := @ih next (length + 1) (atNode a v offset units current node length state)
      constructor
      · intro j
        rw [hresults, hat]
        obtain hlt | rfl | hgt := lt_trichotomy (offset + length) j
        · obtain ⟨n, rfl⟩ := Nat.exists_eq_add_of_lt hlt
          rw [if_neg (ne_of_lt hlt), if_pos (le_of_lt hlt), if_pos (by omega)]
          have h1 : offset + length + n + 1 - (offset + (length + 1)) = n := by omega
          have h2 : offset + length + n + 1 - (offset + length) = n + 1 := by omega
          rw [h1, h2, hsome]
        · rw [if_pos rfl, if_pos (Nat.le_refl _), if_neg (by omega), Nat.sub_self, tokenFrom_zero]
        · rw [if_neg (ne_of_gt hgt), if_neg (Nat.not_le.2 hgt), if_neg (by omega)]
      · rw [hfound, found_atNode]
        obtain hlt | rfl | hgt := lt_trichotomy length units
        · obtain ⟨n, rfl⟩ := Nat.exists_eq_add_of_lt hlt
          have h1 : length + n + 1 - (length + 1) = n := by omega
          have h2 : length + n + 1 - length = n + 1 := by omega
          rw [decide_eq_false (ne_of_lt hlt), decide_eq_true (by omega : length + 1 ≤ length + n + 1),
            decide_eq_true (le_of_lt hlt), h1, h2, hsome]
          simp
        · rw [decide_eq_true rfl, decide_eq_false (by omega : ¬ length + 1 ≤ length),
            decide_eq_true (Nat.le_refl length), Nat.sub_self, tokenFrom_zero]
          simp
        · rw [decide_eq_false (ne_of_gt hgt), decide_eq_false (Nat.not_le.2 hgt),
            decide_eq_false (by omega : ¬ length + 1 ≤ units)]
          simp

end

section
variable {v : Vocab ℚ} {t : UgmTokenizer ℚ} {text : Str} {results : List (Best ℚ)} {offset s e : Nat} {id : Int} {x : ℚ}

/-- The piece from one offset to another and its score, if there is one. -/
def pieceAt (v : Vocab ℚ) (t : UgmTokenizer ℚ) (text : Str) (s e : Nat) : Option (Int × ℚ) :=
  if s < e ∧ e ≤ text.length then
    match t.tokenMatcher.find (span text s (e - s)) with
    | some k => some ((k : Int), tokenScore exactScores v k)
    | none => if e = s + charLen text s then some (v.specialUnkId, t.unknownTokenScore) else none
  else none

def scoreAt (results : List (Best ℚ)) (j : Nat) : ℚ := ((results[j]?).map Best.scoreSum).getD 0

def walkFrom (v : Vocab ℚ) (t : UgmTokenizer ℚ) (text : Str) (offset : Nat) (results : List (Best ℚ)) :
    Bool × List (Best ℚ) :=
  match t.tokenMatcher.child (text.getD offset 0) with
  | none => (false, results)
  | some node => matchTokens exactScores v offset (charLen text offset) (scoreAt results offset) node
      (text.drop (offset + 1)) 1 (false, results)

/-- The token of `n` bytes at an offset. -/
def tokenAt (t : UgmTokenizer ℚ) (text : Str) (offset n : Nat) : Option Nat :=
  if offset + n ≤ text.length then t.tokenMatcher.find (span text offset n) else none

lemma walkFrom_spec (ho : offset < text.length) :
    (∀ j, (walkFrom v t text offset results).2[j]? = if offset < j then
        challenged exactScores v offset (scoreAt results offset) (tokenAt t text offset (j - offset)) results[j]?
      else results[j]?) ∧
    (walkFrom v t text offset results).1 = (tokenAt t text offset (charLen text offset)).isSome := by
  have hfirst : ∀ n, span text offset (n + 1) = text.getD offset 0 :: (text.drop (offset + 1)).take n := by
    intro n
    rw [span, drop_eq_getElem_cons ho, take_succ_cons, getD_eq_getElem?_getD, getElem?_eq_getElem ho]
    rfl
  obtain ⟨units, hunits⟩ := Nat.exists_eq_add_of_lt (charLen_pos ho)
  rw [walkFrom]
  cases hchild : t.tokenMatcher.child (text.getD offset 0) with
  | none =>
    have hnone : ∀ n, tokenAt t text offset (n + 1) = none := by
      intro n
      rw [tokenAt, hfirst, Trie.find, hchild]
      exact ite_self _
    constructor
    · intro j
      dsimp only
      obtain hlt | hge := lt_or_ge offset j
      · obtain ⟨n, rfl⟩ := Nat.exists_eq_add_of_lt hlt
        rw [if_pos hlt, add_assoc, Nat.add_sub_cancel_left, hnone]
        rfl
      · rw [if_neg (Nat.not_lt.2 hge)]
    · rw [hunits, zero_add, hnone]
      rfl
  | some node =>
    have hsome : ∀ n, tokenFrom node (text.drop (offset + 1)) n = tokenAt t text offset (n + 1) := by
      intro n
      rw [tokenFrom, tokenAt, hfirst, Trie.find, hchild, length_drop]
      congr 1
      apply propext
      omega
    obtain ⟨hresults, hfound⟩ := @matchTokens_spec ℚ exactScores v offset (charLen text offset) (scoreAt results offset)
      (text.drop (offset + 1)) node 1 (false, results)
    constructor
    · intro j
      dsimp only
      rw [hresults]
      obtain hlt | hge := lt_or_ge offset j
      · obtain ⟨n, rfl⟩ := Nat.exists_eq_add_of_lt hlt
        have h1 : offset + n + 1 - (offset + 1) = n := by omega
        have h2 : offset + n + 1 - offset = n + 1 := by omega
        rw [if_pos hlt, if_pos (Nat.succ_le_of_lt hlt), h1, h2, hsome]
      · rw [if_neg (Nat.not_lt.2 hge), if_neg (Nat.not_le.2 (Nat.lt_succ_of_le hge))]
    · dsimp only
      rw [hfound, hsome, hunits]
      simp

lemma ugmStep_spec (ho : offset < text.length) (j : Nat) :
    (ugmStep exactScores v t text offset results)[j]? = match pieceAt v t text offset j with
      | none => results[j]?
      | some (id, x) => (results[j]?).map (champion exactScores ⟨id, offset, scoreAt results offset + x⟩) := by
  obtain ⟨hresults, hfound⟩ := @walkFrom_spec v t text results offset ho
  have hstep : ugmStep exactScores v t text offset results = if (walkFrom v t text offset results).1 then
      (walkFrom v t text offset results).2
    else challenge exactScores (walkFrom v t text offset results).2 (offset + charLen text offset)
      ⟨v.specialUnkId, offset, scoreAt results offset + t.unknownTokenScore⟩ := rfl
  have hend := charLen_le (le_of_lt ho)
  have hpos := charLen_pos ho
  have hunknown : ∀ j, (ugmStep exactScores v t text offset results)[j]? =
      if offset + charLen text offset = j ∧ tokenAt t text offset (charLen text offset) = none then
        (walkFrom v t text offset results).2[j]?.map
          (champion exactScores ⟨v.specialUnkId, offset, scoreAt results offset + t.unknownTokenScore⟩)
      else (walkFrom v t text offset results).2[j]? := by
    intro j
    rw [hstep, hfound]
    cases htoken : tokenAt t text offset (charLen text offset) with
    | none =>
      rw [isSome_none, if_neg Bool.false_ne_true, getElem?_challenge]
      simp only [and_true]
    | some k => simp
  rw [hunknown, hresults]
  obtain hlt | hge := lt_or_ge offset j
  · obtain hgt | hle := lt_or_ge text.length j
    · have htoken : tokenAt t text offset (j - offset) = none := if_neg (by omega)
      have hpiece : pieceAt v t text offset j = none := if_neg fun h => Nat.not_le.2 hgt h.2
      rw [hpiece, if_neg (fun h => by omega), if_pos hlt, htoken]
      rfl
    · have htoken : tokenAt t text offset (j - offset) = t.tokenMatcher.find (span text offset (j - offset)) :=
        if_pos (by omega)
      rw [pieceAt, if_pos (⟨hlt, hle⟩ : offset < j ∧ j ≤ text.length), ← htoken, if_pos hlt]
      obtain rfl | hne := eq_or_ne j (offset + charLen text offset)
      · rw [Nat.add_sub_cancel_left]
        cases tokenAt t text offset (charLen text offset) with
        | none => simp [challenged]
        | some k => simp [challenged, exactScores]
      · rw [if_neg (fun h => hne h.1.symm)]
        cases tokenAt t text offset (j - offset) with
        | none => simp [challenged, hne]
        | some k => rfl
  · have hpiece : pieceAt v t text offset j = none := if_neg fun h => Nat.not_lt.2 hge h.1
    rw [hpiece, if_neg (fun h => by omega), if_neg (Nat.not_lt.2 hge)]

end

section
variable {v : Vocab ℚ} {t : UgmTokenizer ℚ} {text : Str} {s e : Nat} {id : Int} {x : ℚ}

lemma pieceAt_pos (h : pieceAt v t text s e = some (id, x)) : s < e ∧ e ≤ text.length := by
  rw [pieceAt] at h
  split at h
  · assumption
  · cases h

lemma matcherEntries_inj {F : Type} {v : Vocab F} {p : TokenData F → Bool} {key : Str} {k l : Nat}
    (hk : (key, k) ∈ matcherEntries v p) (hl : (key, l) ∈ matcherEntries v p) : k = l := by
  obtain ⟨d, hd, -, htext⟩ := mem_matcherEntries hk
  obtain ⟨d', hd', -, htext'⟩ := mem_matcherEntries hl
  have hmap : (v.idToToken.map TokenData.text)[k]? = (v.idToToken.map TokenData.text)[l]? := by
    rw [getElem?_map, getElem?_map, hd, hd', map_some, map_some, htext, htext']
  refine (getElem?_inj ?_ v.text_nodup).1 hmap
  rw [length_map]
  exact (List.getElem?_eq_some_iff.1 hd).1

lemma pieceAt_iff (ht : t.tokenMatcher = Trie.ofList (matcherEntries v matched)) :
    pieceAt v t text s e = some (id, x) ↔ UgmPiece v t text s e id x := by
  constructor
  · intro h
    obtain ⟨hlt, hle⟩ := pieceAt_pos h
    rw [pieceAt, if_pos ⟨hlt, hle⟩] at h
    cases hfind : t.tokenMatcher.find (span text s (e - s)) with
    | some k =>
      rw [hfind] at h
      cases h
      rw [ht] at hfind
      exact .token hlt hle (Trie.mem_of_find_ofList hfind)
    | none =>
      rw [hfind] at h
      dsimp only at h
      split at h
      · rename_i hend
        cases h
        refine .unknown (lt_of_lt_of_le hlt hle) hend fun k hk => ?_
        have hsome := Trie.isSome_find_ofList.2 ⟨_, hk, rfl⟩
        rw [← ht, hfind] at hsome
        cases hsome
      · cases h
  · intro h
    cases h with
    | @token k hlt hle hk =>
      rw [pieceAt, if_pos ⟨hlt, hle⟩]
      obtain ⟨l, hl⟩ := isSome_iff_exists.1 (Trie.isSome_find_ofList.2 ⟨_, hk, rfl⟩)
      cases matcherEntries_inj hk (Trie.mem_of_find_ofList hl)
      rw [ht, hl]
    | unknown hlt hend hno =>
      have hpos := charLen_pos hlt
      have hle := charLen_le (le_of_lt hlt)
      rw [pieceAt, if_pos (by omega)]
      cases hfind : t.tokenMatcher.find (span text s (e - s)) with
      | some k =>
        rw [ht] at hfind
        exact absurd (Trie.mem_of_find_ofList hfind) (hno k)
      | none => exact if_pos hend

lemma pieceAt_next (hlt : s < text.length) : ∃ id x, pieceAt v t text s (s + charLen text s) = some (id, x) := by
  have hpos := charLen_pos hlt
  have hle := charLen_le (le_of_lt hlt)
  rw [pieceAt, if_pos (by omega)]
  cases t.tokenMatcher.find (span text s (s + charLen text s - s)) with
  | some k => exact ⟨_, _, rfl⟩
  | none => exact ⟨_, _, if_pos rfl⟩

end

section
variable {v : Vocab ℚ} {t : UgmTokenizer ℚ} {text : Str} {results : List (Best ℚ)} {offset s e j : Nat} {id : Int} {x : ℚ}

def unreached (v : Vocab ℚ) : Best ℚ := ⟨v.specialUnkId, 0, exactScores.negDblMax⟩

/-- The entries after the boundaries in front of an offset have been visited. -/
structure Champions (v : Vocab ℚ) (t : UgmTokenizer ℚ) (text : Str) (offset : Nat) (results : List (Best ℚ)) : Prop where
  length : results.length = text.length + 1
  start : results[0]? = some ⟨v.specialUnkId, 0, 0⟩
  /-- No piece from a boundary that was visited improves an entry. -/
  upper : ∀ s e id x, Boundary text s → s < offset → pieceAt v t text s e = some (id, x) →
    scoreAt results s + x ≤ scoreAt results e
  /-- An entry has its score from a piece. -/
  origin : ∀ e entry, 0 < e → results[e]? = some entry → entry = unreached v ∨
    ∃ x, Boundary text entry.inputOffset ∧ entry.inputOffset < offset ∧
      pieceAt v t text entry.inputOffset e = some (entry.tokenId, x) ∧
      entry.scoreSum = scoreAt results entry.inputOffset + x

lemma scoreAt_eq {entry : Best ℚ} (h : results[j]? = some entry) : scoreAt results j = entry.scoreSum := by
  rw [scoreAt, h]
  rfl

lemma champion_score (ch champ : Best ℚ) :
    champ.scoreSum ≤ (champion exactScores ch champ).scoreSum ∧ ch.scoreSum ≤ (champion exactScores ch champ).scoreSum := by
  rw [champion]
  split
  · rename_i hlt
    exact ⟨(of_decide_eq_true hlt).le, le_refl _⟩
  · rename_i hge
    exact ⟨le_refl _, le_of_not_gt fun hlt => hge (decide_eq_true hlt)⟩

section
variable (ho : offset < text.length)
include ho

lemma length_ugmStep : (ugmStep exactScores v t text offset results).length = results.length := by
  apply le_antisymm
  · rw [← List.getElem?_eq_none_iff, ugmStep_spec ho, getElem?_eq_none (le_refl _)]
    cases pieceAt v t text offset results.length <;> rfl
  · rw [← List.getElem?_eq_none_iff]
    have hspec := @ugmStep_spec v t text results offset ho (ugmStep exactScores v t text offset results).length
    rw [getElem?_eq_none (le_refl _)] at hspec
    cases hpiece : pieceAt v t text offset (ugmStep exactScores v t text offset results).length with
    | none =>
      rw [hpiece] at hspec
      exact hspec.symm
    | some p =>
      rw [hpiece] at hspec
      exact map_eq_none_iff.1 hspec.symm

lemma ugmStep_kept (hj : j ≤ offset) : (ugmStep exactScores v t text offset results)[j]? = results[j]? := by
  have hpiece : pieceAt v t text offset j = none := if_neg fun h => Nat.not_lt.2 hj h.1
  rw [ugmStep_spec ho, hpiece]

lemma scoreAt_kept (hj : j ≤ offset) :
    scoreAt (ugmStep exactScores v t text offset results) j = scoreAt results j := by
  rw [scoreAt, ugmStep_kept ho hj, scoreAt]

lemma scoreAt_mono : scoreAt results j ≤ scoreAt (ugmStep exactScores v t text offset results) j := by
  rw [scoreAt, scoreAt, ugmStep_spec ho]
  cases pieceAt v t text offset j with
  | none => exact le_refl _
  | some p =>
    cases results[j]? with
    | none => exact le_refl _
    | some champ => exact (champion_score _ champ).1

lemma scoreAt_tried (hlength : results.length = text.length + 1)
    (hpiece : pieceAt v t text offset j = some (id, x)) :
    scoreAt results offset + x ≤ scoreAt (ugmStep exactScores v t text offset results) j := by
  have hle := (pieceAt_pos hpiece).2
  have hj : j < results.length := by omega
  rw [scoreAt.eq_1 (ugmStep exactScores v t text offset results), ugmStep_spec ho, hpiece, getElem?_eq_getElem hj]
  exact (champion_score ⟨id, offset, scoreAt results offset + x⟩ results[j]).2

end

/-- One character further every place has its best token. -/
lemma Champions.step (h : Champions v t text offset results) (hb : Boundary text offset) (ho : offset < text.length) :
    Champions v t text (offset + charLen text offset) (ugmStep exactScores v t text offset results) := by
  have hpos := charLen_pos ho
  constructor
  case length => rw [length_ugmStep ho, h.length]
  case start => rw [ugmStep_kept ho (Nat.zero_le _), h.start]
  case upper =>
    intro s e id x hs hlt hpiece
    obtain hlt' | rfl | hgt := lt_trichotomy s offset
    · rw [scoreAt_kept ho (le_of_lt hlt')]
      exact (h.upper s e id x hs hlt' hpiece).trans (scoreAt_mono ho)
    · rw [scoreAt_kept ho (le_refl _)]
      exact scoreAt_tried ho h.length hpiece
    · exact absurd (hs.gap hb hgt) (Nat.not_le.2 hlt)
  case origin =>
    have old : ∀ e entry, 0 < e → results[e]? = some entry → entry = unreached v ∨
        ∃ x, Boundary text entry.inputOffset ∧ entry.inputOffset < offset + charLen text offset ∧
          pieceAt v t text entry.inputOffset e = some (entry.tokenId, x) ∧
          entry.scoreSum = scoreAt (ugmStep exactScores v t text offset results) entry.inputOffset + x := by
      intro e entry he hentry
      obtain hinit | ⟨x, hs, hlt, hpiece, hscore⟩ := h.origin e entry he hentry
      · exact .inl hinit
      · refine .inr ⟨x, hs, by omega, hpiece, ?_⟩
        rw [scoreAt_kept ho (le_of_lt hlt)]
        exact hscore
    intro e entry he hentry
    rw [ugmStep_spec ho] at hentry
    cases hpiece : pieceAt v t text offset e with
    | none =>
      rw [hpiece] at hentry
      exact old e entry he hentry
    | some p =>
      obtain ⟨id, x⟩ := p
      rw [hpiece] at hentry
      obtain ⟨champ, hchamp, hentry⟩ := map_eq_some_iff.1 hentry
      rw [champion] at hentry
      split at hentry
      · cases hentry
        refine .inr ⟨x, hb, Nat.lt_add_of_pos_right hpos, hpiece, ?_⟩
        dsimp only
        rw [scoreAt_kept ho (le_refl _)]
      · cases hentry
        exact old e _ he hchamp

lemma Champions.loop : ∀ {fuel offset : Nat} {results : List (Best ℚ)}, Champions v t text offset results →
    Boundary text offset → text.length ≤ offset + fuel →
    Champions v t text text.length (ugmLoop exactScores v t text fuel offset results) := by
  intro fuel
  induction fuel with
  | zero =>
    intro offset results h hb hfuel
    cases le_antisymm hb.le hfuel
    exact h
  | succ fuel ih =>
    intro offset results h hb hfuel
    rw [ugmLoop]
    split
    · rename_i ho
      have hpos := charLen_pos ho
      rw [charLen] at hpos
      exact ih (h.step hb ho) (.next hb ho) (by omega)
    · rename_i hend
      cases le_antisymm hb.le (Nat.not_lt.1 hend)
      exact h

lemma champions_start : Champions v t text 0
    (⟨v.specialUnkId, 0, exactScores.zero⟩ :: List.replicate text.length (unreached v)) := by
  constructor
  case length => rw [length_cons, length_replicate]
  case start => rfl
  case upper =>
    intro s e id x _ hlt
    exact absurd hlt (Nat.not_lt_zero s)
  case origin =>
    intro e entry he hentry
    obtain ⟨e, rfl⟩ := Nat.exists_eq_succ_of_ne_zero (ne_of_gt he)
    rw [getElem?_cons_succ] at hentry
    exact .inl (eq_of_mem_replicate (mem_of_getElem? hentry))

def pieceBound : ℚ := 2 ^ 129

section
variable (ht : ugmBuild exactScores v = some t)
  (hscores : ∀ d ∈ v.idToToken, exactScores.negFltMax ≤ d.score)
include hscores

lemma minScore_ge :
    exactScores.negFltMax ≤ minScore exactScores v := by
  suffices fold : ∀ (l : List (TokenData ℚ)) (s : ℚ), (∀ d ∈ l, exactScores.negFltMax ≤ d.score) →
      exactScores.negFltMax ≤ s →
      exactScores.negFltMax ≤ l.foldl (fun s d => if exactScores.lt d.score s then d.score else s) s by
    apply fold
    · intro d hd
      exact hscores d (mem_filter.1 hd).1
    · norm_num [exactScores]
  intro l
  induction l with
  | nil =>
    intro s _ hs
    exact hs
  | cons d l ih =>
    intro s hl hs
    rw [foldl_cons]
    apply ih
    · intro d' hd'
      exact hl d' (mem_cons_of_mem _ hd')
    · split
      · exact hl d mem_cons_self
      · exact hs

lemma tokenScore_ge (k : Nat) :
    exactScores.negFltMax ≤ tokenScore exactScores v k := by
  have hzero : exactScores.negFltMax ≤ exactScores.zero := by norm_num [exactScores]
  rw [tokenScore]
  split
  · exact hzero
  · cases hd : v.idToToken[k]? with
    | none => exact hzero
    | some d => exact hscores d (mem_of_getElem? hd)

include ht

lemma pieceAt_ge (h : pieceAt v t text s e = some (id, x)) :
    -pieceBound ≤ x := by
  have hbound : -pieceBound ≤ exactScores.negFltMax - 10 := by norm_num [exactScores, pieceBound]
  have hunknown : t.unknownTokenScore = minScore exactScores v - 10 := by
    obtain ⟨_, -, hbuild⟩ := bind_eq_some_iff.1 ht
    cases hbuild
    rfl
  rw [pieceAt, if_pos (pieceAt_pos h)] at h
  cases hfind : t.tokenMatcher.find (span text s (e - s)) with
  | some k =>
    rw [hfind] at h
    cases h
    have := tokenScore_ge hscores k
    linarith
  | none =>
    rw [hfind] at h
    dsimp only at h
    split at h
    · cases h
      have := minScore_ge hscores
      linarith
    · cases h

lemma Champions.reached (h : Champions v t text text.length results)
    (hb : Boundary text e) :
    -(e * pieceBound) ≤ scoreAt results e := by
  induction hb with
  | start =>
    rw [scoreAt_eq h.start]
    simp
  | @next offset hb hlt ih =>
    obtain ⟨id, x, hpiece⟩ := @pieceAt_next v t text offset hlt
    have hupper := h.upper offset _ id x hb hlt hpiece
    have hx := pieceAt_ge ht hscores hpiece
    have hpos : (1 : ℚ) ≤ charLen text offset := Nat.one_le_cast.2 (charLen_pos hlt)
    have hbound : (0 : ℚ) < pieceBound := by norm_num [pieceBound]
    push_cast
    nlinarith only [hupper, hx, ih, hpos, hbound]

lemma Champions.ne_unreached (h : Champions v t text text.length results)
    (hlength : text.length < 2 ^ 64)
    (hb : Boundary text e) {entry : Best ℚ} (hentry : results[e]? = some entry) : entry ≠ unreached v := by
  rintro rfl
  have hreached := h.reached ht hscores hb
  have hinit : scoreAt results e = exactScores.negDblMax := scoreAt_eq hentry
  have he : (e : ℚ) ≤ 2 ^ 64 := by
    have := hb.le
    exact_mod_cast le_of_lt (lt_of_le_of_lt this hlength)
  have hproduct : (e : ℚ) * pieceBound ≤ 2 ^ 64 * pieceBound :=
    mul_le_mul_of_nonneg_right he (by norm_num [pieceBound])
  have hdbl : exactScores.negDblMax < -(2 ^ 64 * pieceBound) := by
    have hpow : (2 : ℚ) ^ 193 < 2 ^ 971 := pow_lt_pow_right₀ one_lt_two (by norm_num)
    have hmax : exactScores.negDblMax = -((2 ^ 53 - 1) * 2 ^ 971) := rfl
    rw [hmax, pieceBound, ← pow_add]
    generalize (2 : ℚ) ^ 971 = big at hpow
    norm_num at hpow ⊢
    linarith
  linarith

end

def wayBack (results : List (Best ℚ)) : Nat → Best ℚ → List Int
  | 0, _ => []
  | fuel + 1, best =>
    best.tokenId :: if best.inputOffset = 0 then []
      else
        match results[best.inputOffset]? with
        | none => []
        | some next => wayBack results fuel next

lemma backtrack_eq {unk : Int} : ∀ {fuel : Nat} {best : Best ℚ} {isPrevUnknown : Bool},
    backtrack results unk fuel best isPrevUnknown = mergeUnknowns unk isPrevUnknown (wayBack results fuel best) := by
  intro fuel
  induction fuel with
  | zero =>
    intro best isPrevUnknown
    rfl
  | succ fuel ih =>
    intro best isPrevUnknown
    have hrest : (if best.inputOffset = 0 then [] else match results[best.inputOffset]? with
          | none => []
          | some next => backtrack results unk fuel next (best.tokenId == unk)) =
        mergeUnknowns unk (best.tokenId == unk) (if best.inputOffset = 0 then [] else
          match results[best.inputOffset]? with
          | none => []
          | some next => wayBack results fuel next) := by
      split
      · rfl
      · cases results[best.inputOffset]? with
        | none => rfl
        | some next => exact ih
    rw [wayBack, mergeUnknowns, ← hrest]
    have hbacktrack : backtrack results unk (fuel + 1) best isPrevUnknown =
        (if isPrevUnknown && best.tokenId == unk then [] else [best.tokenId]) ++
          (if best.inputOffset = 0 then [] else match results[best.inputOffset]? with
            | none => []
            | some next => backtrack results unk fuel next (best.tokenId == unk)) := by
      rw [backtrack]
      split
      · rw [append_nil]
      · cases results[best.inputOffset]? with
        | none => rw [append_nil]
        | some next => rfl
    rw [hbacktrack]
    split
    · rename_i hmerge
      rw [(Bool.and_eq_true_iff.1 hmerge).2] at hrest ⊢
      exact hrest
    · rfl

lemma Champions.path (h : Champions v t text text.length results) (ht : ugmBuild exactScores v = some t)
    (hscores : ∀ d ∈ v.idToToken, exactScores.negFltMax ≤ d.score) (hlength : text.length < 2 ^ 64) :
    ∀ {fuel e : Nat} {entry : Best ℚ}, Boundary text e → 0 < e → e < fuel → results[e]? = some entry →
      Path (UgmEdge v t text) 0 e (wayBack results fuel entry).reverse (scoreAt results e) := by
  have hmatcher : t.tokenMatcher = Trie.ofList (matcherEntries v matched) := by
    obtain ⟨_, -, hbuild⟩ := bind_eq_some_iff.1 ht
    cases hbuild
    rfl
  intro fuel
  induction fuel with
  | zero =>
    intro e entry _ _ he
    exact absurd he (Nat.not_lt_zero e)
  | succ fuel ih =>
    intro e entry hb hpos he hentry
    obtain hinit | ⟨x, hs, hlt, hpiece, hscore⟩ := h.origin e entry hpos hentry
    · exact absurd hinit (h.ne_unreached ht hscores hlength hb hentry)
    have hedge : UgmEdge v t text entry.inputOffset e entry.tokenId x := ⟨hs, hb, (pieceAt_iff hmatcher).1 hpiece⟩
    have hback := (pieceAt_pos hpiece).1
    rw [scoreAt_eq hentry, hscore, wayBack, reverse_cons]
    refine .snoc ?_ hedge
    split
    · rename_i hzero
      rw [hzero, scoreAt_eq h.start]
      exact .nil
    · rename_i hne
      obtain ⟨next, hnext⟩ : ∃ next, results[entry.inputOffset]? = some next := by
        have hlen := h.length
        exact ⟨_, getElem?_eq_getElem (by omega)⟩
      rw [hnext]
      exact ih hs (pos_of_ne_zero hne) (by omega) hnext

/-- The loop back over `tokenization_results` with its reference to the last entry, which each turn overwrites. -/
def backtrackInPlace {F : Type} (unk : Int) (inputLen : Nat) : Nat → List (Best F) → Bool → List Int
  | 0, _, _ => []
  | fuel + 1, results, isPrevUnknown =>
    match results[inputLen]? with
    | none => []
    | some tokenization =>
      let isUnknown := tokenization.tokenId == unk
      let here := if isPrevUnknown && isUnknown then [] else [tokenization.tokenId]
      if tokenization.inputOffset = 0 then here
      else
        match results[tokenization.inputOffset]? with
        | none => here
        | some next => here ++ backtrackInPlace unk inputLen fuel (results.set inputLen next) isUnknown

lemma backtrackInPlace_eq {unk : Int} {inputLen : Nat} (hlen : inputLen < results.length)
    (horigin : ∀ (j : Nat) (entry : Best ℚ), results[j]? = some entry → entry.inputOffset = 0 ∨ entry.inputOffset < j) :
    ∀ {fuel e : Nat} {best : Best ℚ} {isPrevUnknown : Bool}, e ≤ inputLen → results[e]? = some best →
      backtrackInPlace unk inputLen fuel (results.set inputLen best) isPrevUnknown =
        backtrack results unk fuel best isPrevUnknown := by
  intro fuel
  induction fuel with
  | zero =>
    intro e best isPrevUnknown _ _
    rfl
  | succ fuel ih =>
    intro e best isPrevUnknown he hbest
    rw [backtrackInPlace, backtrack, getElem?_set_self hlen]
    dsimp only
    obtain hzero | hlt := horigin e best hbest
    · rw [if_pos hzero, if_pos hzero]
    · have hne : inputLen ≠ best.inputOffset := by omega
      rw [getElem?_set_ne hne]
      cases hnext : results[best.inputOffset]? with
      | none => rfl
      | some next =>
        dsimp only
        rw [set_set, ih (by omega) hnext]

lemma Champions.bounds (h : Champions v t text text.length results)
    (hmatcher : t.tokenMatcher = Trie.ofList (matcherEntries v matched)) :
    Bounds (UgmEdge v t text) 0 (scoreAt results) := by
  constructor
  · rw [scoreAt_eq h.start]
  · intro s e id x hedge
    obtain ⟨hs, he, hpiece⟩ := hedge
    have hpiece := (pieceAt_iff hmatcher).2 hpiece
    have hpos := pieceAt_pos hpiece
    exact h.upper s e id x hs (by omega) hpiece

end

def searched (v : Vocab ℚ) (t : UgmTokenizer ℚ) (normalized : Str) : List (Best ℚ) :=
  ugmLoop exactScores v t normalized normalized.length 0
    (⟨v.specialUnkId, 0, exactScores.zero⟩ :: List.replicate normalized.length (unreached v))

lemma champions_searched (v : Vocab ℚ) (t : UgmTokenizer ℚ) (normalized : Str) :
    Champions v t normalized normalized.length (searched v t normalized) :=
  champions_start.loop .start (le_of_eq (zero_add _).symm)

/-- The assignments through the reference change nothing. -/
theorem searched_backtrackInPlace (v : Vocab ℚ) (t : UgmTokenizer ℚ) (normalized : Str) (last : Best ℚ)
    (hlast : (searched v t normalized)[normalized.length]? = some last) :
    backtrackInPlace v.specialUnkId normalized.length (normalized.length + 1) (searched v t normalized) false =
      backtrack (searched v t normalized) v.specialUnkId (normalized.length + 1) last false := by
  have hchampions := champions_searched v t normalized
  have horigin : ∀ (j : Nat) (entry : Best ℚ), (searched v t normalized)[j]? = some entry →
      entry.inputOffset = 0 ∨ entry.inputOffset < j := by
    intro j entry hentry
    obtain rfl | hpos := eq_zero_or_pos j
    · rw [hchampions.start] at hentry
      cases hentry
      exact .inl rfl
    · obtain rfl | ⟨x, -, -, hpiece, -⟩ := hchampions.origin j entry hpos hentry
      · exact .inl rfl
      · exact .inr (pieceAt_pos hpiece).1
  obtain ⟨hlen, hget⟩ := List.getElem?_eq_some_iff.1 hlast
  have hset : (searched v t normalized).set normalized.length last = searched v t normalized := by
    rw [← hget]
    exact set_getElem_self hlen
  rw [← backtrackInPlace_eq hlen horigin (le_refl _) hlast, hset]

/-- In exact arithmetic the session finds a segmentation with the highest score, and merges its unknown tokens. -/
theorem ugmTokenize_best {v : Vocab ℚ} {t : UgmTokenizer ℚ} {text normalized : Str}
    (ht : ugmBuild exactScores v = some t) (hscores : ∀ d ∈ v.idToToken, exactScores.negFltMax ≤ d.score)
    (hnormalized : normalize v t text = some normalized) (hlength : normalized.length < 2 ^ 64) :
    ∃ ids, ugmTokenize exactScores v t text = some (mergeUnknowns v.specialUnkId false ids.reverse).reverse ∧
      Lib.BestPath (UgmEdge v t normalized) 0 normalized.length ids := by
  have hmatcher : t.tokenMatcher = Trie.ofList (matcherEntries v matched) := by
    obtain ⟨_, -, hbuild⟩ := bind_eq_some_iff.1 ht
    cases hbuild
    rfl
  rw [ugmTokenize, hnormalized, bind_eq_bind, bind_some]
  obtain rfl | hne := eq_or_ne normalized []
  · have hnone : Bounds (UgmEdge v t []) 0 fun _ => (0 : ℚ) := by
      refine ⟨le_refl _, fun s e id x hedge => ?_⟩
      obtain ⟨-, -, hpiece⟩ := hedge
      have hpos := pieceAt_pos ((pieceAt_iff hmatcher).2 hpiece)
      exact absurd (lt_of_lt_of_le hpos.1 hpos.2) (Nat.not_lt_zero s)
    exact ⟨[], rfl, Path.best .nil hnone⟩
  · rw [if_neg hne]
    have hpos : 0 < normalized.length := length_pos_iff.2 hne
    have hchampions := champions_searched v t normalized
    obtain ⟨last, hlast⟩ : ∃ last, (searched v t normalized)[normalized.length]? = some last := by
      have hlen := hchampions.length
      exact ⟨_, getElem?_eq_getElem (by omega)⟩
    refine ⟨(wayBack (searched v t normalized) (normalized.length + 1) last).reverse, ?_, ?_⟩
    · rw [reverse_reverse, ← backtrack_eq]
      rw [searched, unreached] at hlast ⊢
      dsimp only
      rw [hlast]
    · exact (hchampions.path ht hscores hlength boundary_length hpos (Nat.lt_succ_self _) hlast).best
        (hchampions.bounds hmatcher)

/-- A vocabulary with the tokens `a`, `ab` and `b` and the unknown token. -/
def letterVocab : Vocab ℚ := .plain .ugm
  [⟨[97], -1, { normal := true }, { normal := true }⟩, ⟨[97, 98], -3, { normal := true }, { normal := true }⟩,
    ⟨[98], -1, { normal := true }, { normal := true }⟩, ⟨[60, 62], 0, { unknown := true }, { unknown := true }⟩]
  3 [] (by simp) (by decide) (by decide)

def letterTokenizer : UgmTokenizer ℚ where
  xcdaArray := []
  prefixReplacements := []
  userDefinedTokenMatcher := Trie.ofList (matcherEntries letterVocab fun d => d.built.userDefined)
  tokenMatcher := Trie.ofList (matcherEntries letterVocab matched)
  unknownTokenScore := exactScores.sub (minScore exactScores letterVocab) exactScores.ten

/-- The tokens of `abc`. -/
theorem ugmTokenize_words : ∃ ids, ugmTokenize exactScores letterVocab letterTokenizer [97, 98, 99] =
      some (mergeUnknowns letterVocab.specialUnkId false ids.reverse).reverse ∧
    Lib.BestPath (UgmEdge letterVocab letterTokenizer [97, 98, 99]) 0 3 ids :=
  ugmTokenize_best (by rfl) (by decide +kernel) (by rfl) (by decide)

theorem searched_letters : ∃ last,
    backtrackInPlace 3 3 4 (searched letterVocab letterTokenizer [97, 98, 99]) false =
      backtrack (searched letterVocab letterTokenizer [97, 98, 99]) 3 4 last false :=
  ⟨_, searched_backtrackInPlace _ _ _ _ (getElem?_eq_getElem (by rw [(champions_searched ..).length]; decide))⟩

end Mallana.Tokenizer
