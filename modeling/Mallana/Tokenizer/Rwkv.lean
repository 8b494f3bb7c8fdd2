import Mallana.Tokenizer.Tokenize
import Mathlib.Logic.Relation

/-!
# The RWKV session

Model of `llm_tokenizer_rwkv` and `llm_tokenizer_rwkv_session` in `llama-vocab.cpp`. The texts of the vocabulary are
unescaped into the bytes that a trie is built of, and a text is cut from its front by the walks down that trie. A result
`none` is a read behind the terminating NUL of the text, or that the fuel did not suffice. The positions are of type
`uint32_t`; `char` is signed.
-/

namespace Mallana.Tokenizer

open Lib List Option

variable {F : Type}

/-- The state of the parser of `llama_unescape_rwkv_token`. -/
structure Unescaping where
  escaping : Bool := false
  hexRemaining : UInt8 := 0
  hexAcc : UInt8 := 0
  output : Str := []

def hexCharValue (c : UInt8) : UInt8 := if 97 ≤ c ∧ c < 128 then c - 97 + 10 else c - 48

/-- The body of the loop of `llama_unescape_rwkv_token`. -/
def unescapeChar (s : Unescaping) (c : UInt8) : Unescaping :=
  if s.hexRemaining ≠ 0 then
    let hexAcc := s.hexAcc <<< 4 + hexCharValue c
    if s.hexRemaining - 1 = 0 then
      { s with hexRemaining := s.hexRemaining - 1, hexAcc := 0, output := s.output ++ [hexAcc] }
    else { s with hexRemaining := s.hexRemaining - 1, hexAcc := hexAcc }
  else if s.escaping then
    if c = 116 then { s with escaping := false, output := s.output ++ [9] }
    else if c = 110 then { s with escaping := false, output := s.output ++ [10] }
    else if c = 114 then { s with escaping := false, output := s.output ++ [13] }
    else if c = 120 then { s with escaping := false, hexRemaining := 2 }
    else { s with escaping := false, output := s.output ++ [c] }
  else if c = 92 then { s with escaping := true }
  else { s with output := s.output ++ [c] }

/-- `llama_unescape_rwkv_token`. -/
def unescapeRwkvToken (escaped : Str) : Str := (escaped.foldl unescapeChar {}).output

/-- The tokens that are put into `token_matcher`. -/
def rwkvEntries (v : Vocab F) : List (Str × Nat) :=
  v.idToToken.zipIdx.map fun e => (unescapeRwkvToken e.1.text, e.2)

/-- The constructor of `llm_tokenizer_rwkv`. -/
def rwkvMatcher (v : Vocab F) : Trie UInt8 Nat := Trie.ofList (rwkvEntries v)

/-- The arithmetic of `uint32_t`. -/
def uint32 (n : Nat) : Nat := n % 2 ^ 32

/-- `text[position]`: behind the text stands a NUL, and nothing may be read behind it. -/
def readByte (text : Str) (position : Nat) : Option UInt8 := (text ++ [0])[position]?

/-- The walk for the longest token: its id and the position behind it. -/
def rwkvWalk (text : Str) : Nat → Trie UInt8 Nat → Nat → Nat × Nat → Option (Nat × Nat)
  | 0, _, _, _ => none
  | fuel + 1, node, position, best =>
    let best := match node.value with
      | some id => (id, uint32 (position + 1))
      | none => best
    let position := uint32 (position + 1)
    (readByte text position).bind fun c =>
      match node.child c with
      | none => some best
      | some node => rwkvWalk text fuel node position best

def rwkvLoop (m : Trie UInt8 Nat) (unk : Int) (text : Str) : Nat → Nat → List Int → Option (List Int)
  | 0, _, _ => none
  | fuel + 1, position, output =>
    if position < text.length then
      (readByte text position).bind fun c =>
        match m.child c with
        | none => rwkvLoop m unk text fuel (uint32 (position + 1)) (output ++ [unk])
        | some node =>
          (rwkvWalk text fuel node position (0, 0)).bind fun best =>
            rwkvLoop m unk text fuel best.2 (output ++ [(best.1 : Int)])
    else some output

/-- `llm_tokenizer_rwkv_session::tokenize`: the tokens that are appended to the output. -/
def rwkvTokenize (v : Vocab F) (fuel : Nat) (text : Str) : Option (List Int) :=
  rwkvLoop (rwkvMatcher v) v.specialUnkId text fuel 0 []

section
variable {tokens : List (Str × Nat)} {unk : Int} {s text : Str}

/-- A token in front of a text that no token in front of it is longer than. -/
structure LongestToken (tokens : List (Str × Nat)) (rest : Str) (s : Str) : Prop where
  ne : s ≠ []
  mem : ∃ id, (s, id) ∈ tokens
  front : s <+: rest
  longest : ∀ p ∈ tokens, p.1 <+: rest → p.1.length ≤ s.length

def NoToken (tokens : List (Str × Nat)) (rest : Str) : Prop := ∀ p ∈ tokens, p.1 ≠ [] → ¬ p.1 <+: rest

/-- The greedy segmentation of a text: the longest token at each position, or the unknown token for one byte. -/
inductive Greedy (tokens : List (Str × Nat)) (unk : Int) : Str → List Int → Prop where
  | nil : Greedy tokens unk [] []
  | token {s rest : Str} {out : List Int} {id : Nat} : LongestToken tokens (s ++ rest) s → (s, id) ∈ tokens → Greedy tokens unk rest out →
      Greedy tokens unk (s ++ rest) ((id : Int) :: out)
  | unknown {b : UInt8} {rest : Str} {out : List Int} : NoToken tokens (b :: rest) → Greedy tokens unk rest out →
      Greedy tokens unk (b :: rest) (unk :: out)

/-- One step of the greedy segmentation: what is left behind the first token. -/
inductive GreedyStep (tokens : List (Str × Nat)) : Str → Str → Prop where
  | token {s rest : Str} : LongestToken tokens (s ++ rest) s → GreedyStep tokens (s ++ rest) rest
  | unknown {b : UInt8} {rest : Str} : NoToken tokens (b :: rest) → GreedyStep tokens (b :: rest) rest

/-- A rest of the text at which the walk down the trie ends with a token, or does not begin, and within the text. -/
structure WalkEnds (tokens : List (Str × Nat)) (rest : Str) : Prop where
  completes : ∀ p ∈ tokens, p.1.head? = rest.head? → ∃ s, LongestToken tokens rest s
  within : ∀ p ∈ tokens, ¬ rest ++ [0] <+: p.1

/-- The walks end well at all positions of the greedy segmentation. -/
def WalksEnd (tokens : List (Str × Nat)) (text : Str) : Prop :=
  ∀ rest, Relation.ReflTransGen (GreedyStep tokens) text rest → rest ≠ [] → WalkEnds tokens rest

lemma LongestToken.unique {rest s' : Str} (h : LongestToken tokens rest s) (h' : LongestToken tokens rest s') : s = s' := by
  obtain ⟨id, hmem⟩ := h.mem
  obtain ⟨id', hmem'⟩ := h'.mem
  have hlen := le_antisymm (h'.longest _ hmem h.front) (h.longest _ hmem' h'.front)
  exact List.IsPrefix.eq_of_length (prefix_of_prefix_length_le h.front h'.front hlen.le) hlen

lemma NoToken.not_longest {rest : Str} (h : NoToken tokens rest) : ¬ LongestToken tokens rest s := by
  intro hs
  obtain ⟨id, hmem⟩ := hs.mem
  exact h _ hmem hs.ne hs.front

lemma GreedyStep.det {rest rest' : Str} (h : GreedyStep tokens text rest) (h' : GreedyStep tokens text rest') : rest = rest' := by
  cases h with
  | @token s rest hs =>
    generalize heq : s ++ rest = text at h' hs
    cases h' with
    | token hs' =>
      obtain rfl := hs.unique hs'
      exact append_cancel_left heq
    | unknown hno => exact absurd hs hno.not_longest
  | @unknown b rest hno =>
    generalize heq : b :: rest = text at h' hno
    cases h' with
    | token hs' => exact absurd hs' hno.not_longest
    | unknown hno' =>
      cases heq
      rfl

end

section
variable {m node : Trie UInt8 Nat} {text pre rest : Str} {fuel k : Nat} {best r : Nat × Nat}

/-- What a walk from `p` on has found among the first `k` bytes: the longest token and the position behind it. -/
def FoundUpTo (m : Trie UInt8 Nat) (p : Nat) (rest : Str) (k : Nat) (best : Nat × Nat) : Prop :=
  (best = (0, 0) ∧ ∀ n, 0 < n → n ≤ k → m.find (rest.take n) = none) ∨
    ∃ n, 0 < n ∧ n ≤ k ∧ best.2 = p + n ∧ m.find (rest.take n) = some best.1 ∧
      ∀ n', n < n' → n' ≤ k → m.find (rest.take n') = none

lemma FoundUpTo.skip {p : Nat} (h : FoundUpTo m p rest k best) {l : Nat} (hl : k ≤ l)
    (hno : ∀ n, k < n → n ≤ l → m.find (rest.take n) = none) : FoundUpTo m p rest l best := by
  obtain ⟨rfl, hnone⟩ | ⟨n, hpos, hn, hbest, hfind, hmost⟩ := h
  · refine .inl ⟨rfl, fun n hpos hn => ?_⟩
    obtain hk | hk := lt_or_ge k n
    · exact hno n hk hn
    · exact hnone n hpos hk
  · refine .inr ⟨n, hpos, hn.trans hl, hbest, hfind, fun n' hlt hn' => ?_⟩
    obtain hk | hk := lt_or_ge k n'
    · exact hno n' hk hn'
    · exact hmost n' hlt hk

def bestAt (node : Trie UInt8 Nat) (position : Nat) (best : Nat × Nat) : Nat × Nat :=
  match node.value with
  | some id => (id, uint32 (position + 1))
  | none => best

lemma FoundUpTo.next {p : Nat} (h : FoundUpTo m p rest k best) (hnode : m.descend (rest.take (k + 1)) = some node)
    (hlt : p + k + 1 < 2 ^ 32) : FoundUpTo m p rest (k + 1) (bestAt node (p + k) best) := by
  have hfind : m.find (rest.take (k + 1)) = node.value := by
    rw [Trie.find_eq_descend, hnode]
    rfl
  cases hvalue : node.value with
  | none =>
    rw [bestAt, hvalue]
    refine h.skip (Nat.le_succ k) fun n hk hn => ?_
    obtain rfl : n = k + 1 := le_antisymm hn hk
    rw [hfind, hvalue]
  | some id =>
    rw [bestAt, hvalue]
    refine .inr ⟨k + 1, Nat.succ_pos k, le_refl _, ?_, ?_, fun n' hlt' hn' => absurd hn' (Nat.not_le.2 hlt')⟩
    · exact Nat.mod_eq_of_lt hlt
    · rw [hfind, hvalue]

lemma rwkvWalk_succ (htext : text ++ [0] = pre ++ rest) (hlt : pre.length + k + 1 < 2 ^ 32) :
    rwkvWalk text (fuel + 1) node (pre.length + k) best = rest[k + 1]?.bind fun c =>
      match node.child c with
      | none => some (bestAt node (pre.length + k) best)
      | some next => rwkvWalk text fuel next (pre.length + (k + 1)) (bestAt node (pre.length + k) best) := by
  have hread : readByte text (pre.length + k + 1) = rest[k + 1]? := by
    rw [readByte, htext, add_assoc, getElem?_append_right (Nat.le_add_right _ _), Nat.add_sub_cancel_left]
  have hposition : uint32 (pre.length + k + 1) = pre.length + k + 1 := Nat.mod_eq_of_lt hlt
  rw [rwkvWalk]
  simp only [bestAt, hposition, hread]
  rfl

lemma descend_succ (hnode : m.descend (rest.take (k + 1)) = some node) {c : UInt8} (hc : rest[k + 1]? = some c) :
    m.descend (rest.take (k + 2)) = node.child c := by
  rw [take_add_one, hc, Trie.descend_append, hnode, toList_some, bind_some, Trie.descend]
  cases node.child c with
  | none => rfl
  | some next => rfl

lemma descend_none {n : Nat} (h : m.descend (rest.take k) = none) (hle : k ≤ n) : m.descend (rest.take n) = none := by
  obtain ⟨i, rfl⟩ := Nat.exists_eq_add_of_le hle
  rw [take_add, Trie.descend_append, h]
  rfl

lemma rwkvWalk_found (htext : text ++ [0] = pre ++ rest) (hlen : text.length + 1 < 2 ^ 32) :
    ∀ {fuel k : Nat} {node : Trie UInt8 Nat} {best : Nat × Nat}, k < rest.length →
      m.descend (rest.take (k + 1)) = some node → FoundUpTo m pre.length rest k best →
      rwkvWalk text fuel node (pre.length + k) best = some r →
      FoundUpTo m pre.length rest (rest.length - 1) r ∧ m.descend rest = none := by
  have htotal : text.length + 1 = pre.length + rest.length := by
    have := congrArg List.length htext
    rwa [length_append, length_append, length_singleton] at this
  intro fuel
  induction fuel with
  | zero =>
    intro k node best _ _ _ h
    cases h
  | succ fuel ih =>
    intro k node best hk hnode hfound h
    have hlt : pre.length + k + 1 < 2 ^ 32 := by omega
    have hnext := hfound.next hnode hlt
    rw [rwkvWalk_succ htext hlt] at h
    cases hc : rest[k + 1]? with
    | none =>
      rw [hc] at h
      cases h
    | some c =>
      rw [hc, bind_some] at h
      have hk' : k + 1 < rest.length := (List.getElem?_eq_some_iff.1 hc).1
      have hchild := descend_succ hnode hc
      cases hnode' : node.child c with
      | none =>
        rw [hnode'] at h hchild
        cases h
        refine ⟨hnext.skip (by omega) fun n hn _ => ?_, ?_⟩
        · rw [Trie.find_eq_descend, descend_none hchild hn]
          rfl
        · have hall := descend_none hchild (show k + 2 ≤ rest.length by omega)
          rwa [take_length] at hall
      | some next =>
        rw [hnode'] at hchild
        simp only [hnode'] at h
        exact ih hk' hchild hnext h

lemma rwkvWalk_mono : ∀ {fuel fuel' : Nat} {node : Trie UInt8 Nat} {position : Nat} {best : Nat × Nat},
    fuel ≤ fuel' → rwkvWalk text fuel node position best = some r → rwkvWalk text fuel' node position best = some r := by
  intro fuel
  induction fuel with
  | zero =>
    intro fuel' node position best _ h
    cases h
  | succ fuel ih =>
    intro fuel' node position best hle h
    obtain ⟨fuel', rfl⟩ := Nat.exists_eq_add_of_le' (Nat.le_of_add_left_le hle)
    rw [rwkvWalk] at h ⊢
    obtain ⟨c, hc, h⟩ := bind_eq_some_iff.1 h
    refine bind_eq_some_iff.2 ⟨c, hc, ?_⟩
    cases hchild : node.child c with
    | none =>
      simp only [hchild] at h ⊢
      exact h
    | some next =>
      simp only [hchild] at h ⊢
      exact ih (Nat.le_of_succ_le_succ hle) h

lemma isSome_rwkvWalk (htext : text ++ [0] = pre ++ rest) (hlen : text.length + 1 < 2 ^ 32)
    (hrest : m.descend rest = none) :
    ∀ {fuel k : Nat} {node : Trie UInt8 Nat} {best : Nat × Nat}, k < rest.length → rest.length ≤ k + fuel →
      m.descend (rest.take (k + 1)) = some node → (rwkvWalk text fuel node (pre.length + k) best).isSome := by
  have htotal : text.length + 1 = pre.length + rest.length := by
    have := congrArg List.length htext
    rwa [length_append, length_append, length_singleton] at this
  intro fuel
  induction fuel with
  | zero =>
    intro k node best hk hfuel _
    exact absurd hfuel (Nat.not_le.2 hk)
  | succ fuel ih =>
    intro k node best hk hfuel hnode
    rw [rwkvWalk_succ htext (by omega)]
    cases hc : rest[k + 1]? with
    | none =>
      have hall := List.getElem?_eq_none_iff.1 hc
      rw [take_of_length_le hall, hrest] at hnode
      cases hnode
    | some c =>
      have hk' : k + 1 < rest.length := (List.getElem?_eq_some_iff.1 hc).1
      have hchild := descend_succ hnode hc
      rw [bind_some]
      cases hnode' : node.child c with
      | none => rfl
      | some next =>
        rw [hnode'] at hchild
        exact ih hk' (by omega) hchild

end

section
variable {tokens : List (Str × Nat)} {unk : Int} {text pre rest : Str} {b : UInt8} {out : List Int} {fuel : Nat}

lemma child_eq_none_iff : (Trie.ofList tokens).child b = none ↔ ∀ p ∈ tokens, p.1.head? ≠ some b := by
  have hpath : ((Trie.ofList tokens).descend [b]).isSome ↔ ((Trie.ofList tokens).child b).isSome := by
    rw [Trie.descend]
    cases (Trie.ofList tokens).child b with
    | none => rfl
    | some s => rfl
  have hhead : ∀ s : Str, [b] <+: s ↔ s.head? = some b := by
    intro s
    cases s with
    | nil => simp
    | cons c s => simp [cons_prefix_cons, eq_comm]
  rw [← not_isSome_iff_eq_none, ← hpath, Trie.isSome_descend_ofList, or_iff_right (cons_ne_nil b [])]
  simp only [hhead, not_exists, not_and, ne_eq]

lemma exists_of_child {node : Trie UInt8 Nat} (h : (Trie.ofList tokens).child b = some node) :
    ∃ p ∈ tokens, p.1.head? = some b := by
  by_contra hno
  simp only [not_exists, not_and] at hno
  rw [child_eq_none_iff.2 hno] at h
  cases h

lemma descend_eq_none_iff : (Trie.ofList tokens).descend (rest ++ [0]) = none ↔ ∀ p ∈ tokens, ¬ rest ++ [0] <+: p.1 := by
  have hne : rest ++ [0] ≠ [] := append_ne_nil_of_right_ne_nil _ (cons_ne_nil _ _)
  rw [← not_isSome_iff_eq_none, Trie.isSome_descend_ofList, or_iff_right hne]
  simp only [not_exists, not_and]

lemma FoundUpTo.longest {p : Nat} {r : Nat × Nat}
    (h : FoundUpTo (Trie.ofList tokens) p (rest ++ [0]) rest.length r) : (r = (0, 0) ∧ NoToken tokens rest) ∨
      ∃ s rest', rest = s ++ rest' ∧ LongestToken tokens rest s ∧ (s, r.1) ∈ tokens ∧ r.2 = p + s.length := by
  have htake : ∀ n ≤ rest.length, (rest ++ [0]).take n = rest.take n := fun n hn => take_append_of_le_length hn
  have hfound : ∀ q ∈ tokens, q.1 <+: rest → (Trie.ofList tokens).find ((rest ++ [0]).take q.1.length) ≠ none := by
    intro q hq hpre hnone
    rw [htake _ hpre.length_le, ← prefix_iff_eq_take.1 hpre] at hnone
    have hsome := Trie.isSome_find_ofList.2 ⟨q, hq, rfl⟩
    rw [hnone] at hsome
    cases hsome
  obtain ⟨rfl, hnone⟩ | ⟨n, hpos, hn, hbest, hfind, hmost⟩ := h
  · refine .inl ⟨rfl, fun q hq hne hpre => ?_⟩
    exact hfound q hq hpre (hnone _ (length_pos_iff.2 hne) hpre.length_le)
  · rw [htake n hn] at hfind
    have hlen : (rest.take n).length = n := by
      rw [length_take, min_eq_left hn]
    have hmem := Trie.mem_of_find_ofList hfind
    refine .inr ⟨rest.take n, rest.drop n, (take_append_drop n rest).symm, ?_, hmem, by rw [hlen, hbest]⟩
    refine ⟨?_, ⟨_, hmem⟩, take_prefix n rest, fun q hq hpre => ?_⟩
    · exact ne_nil_of_length_pos (by rwa [hlen])
    · rw [hlen]
      apply Nat.le_of_not_lt
      intro hlt
      exact hfound q hq hpre (hmost _ hlt hpre.length_le)

lemma rwkvLoop_succ {m : Trie UInt8 Nat} (htext : text = pre ++ b :: rest) (hlen : text.length + 1 < 2 ^ 32) :
    rwkvLoop m unk text (fuel + 1) pre.length out = match m.child b with
      | none => rwkvLoop m unk text fuel (pre ++ [b]).length (out ++ [unk])
      | some node => (rwkvWalk text fuel node pre.length (0, 0)).bind fun best =>
          rwkvLoop m unk text fuel best.2 (out ++ [(best.1 : Int)]) := by
  have hlt : pre.length < text.length := by
    rw [htext, length_append, length_cons]
    omega
  have hread : readByte text pre.length = some b := by
    rw [readByte, htext, append_assoc, getElem?_append_right (Nat.le_refl _), Nat.sub_self]
    rfl
  have hposition : uint32 (pre.length + 1) = (pre ++ [b]).length := by
    rw [length_append, length_singleton]
    exact Nat.mod_eq_of_lt (by omega)
  rw [rwkvLoop, if_pos hlt, hread, bind_some, hposition]

lemma rwkvLoop_end {m : Trie UInt8 Nat} (htext : text = pre) :
    rwkvLoop m unk text (fuel + 1) pre.length out = some out := by
  rw [rwkvLoop, htext, if_neg (lt_irrefl _)]

lemma not_greedyStep_nil : ¬ GreedyStep tokens [] rest := by
  intro h
  generalize hnil : ([] : Str) = s at h
  cases h with
  | token hs => exact hs.ne (append_eq_nil_iff.1 hnil.symm).1
  | unknown => cases hnil

lemma walkEnds_of_child_none (h : (Trie.ofList tokens).child b = none) :
    NoToken tokens (b :: rest) ∧ WalkEnds tokens (b :: rest) := by
  have hhead := child_eq_none_iff.1 h
  have hno : ∀ p ∈ tokens, ∀ s, b :: s ≠ p.1 := by
    intro p hp s heq
    exact hhead p hp (by rw [← heq]; rfl)
  refine ⟨?_, ?_, ?_⟩
  · intro p hp hne hpre
    obtain ⟨c, s, hs⟩ := exists_cons_of_ne_nil hne
    rw [hs, cons_prefix_cons] at hpre
    exact hno p hp s (by rw [hs, hpre.1])
  · intro p hp hfirst
    exact absurd hfirst (hhead p hp)
  · intro p hp hpre
    obtain ⟨s, hs⟩ := hpre
    exact hno p hp _ hs

lemma rwkvWalk_longest (htext : text = pre ++ b :: rest) (hlen : text.length + 1 < 2 ^ 32) {node : Trie UInt8 Nat}
    (hnode : (Trie.ofList tokens).child b = some node) {r : Nat × Nat}
    (h : rwkvWalk text fuel node pre.length (0, 0) = some r) :
    (∀ p ∈ tokens, ¬ b :: rest ++ [0] <+: p.1) ∧ ((r = (0, 0) ∧ NoToken tokens (b :: rest)) ∨
      ∃ s rest', b :: rest = s ++ rest' ∧ LongestToken tokens (b :: rest) s ∧ (s, r.1) ∈ tokens ∧
        r.2 = pre.length + s.length) := by
  have htext' : text ++ [0] = pre ++ (b :: rest ++ [0]) := by
    rw [htext, append_assoc]
  have hfirst : (Trie.ofList tokens).descend ((b :: rest ++ [0]).take (0 + 1)) = some node := by
    simp [Trie.descend, hnode]
  have hstart : FoundUpTo (Trie.ofList tokens) pre.length (b :: rest ++ [0]) 0 (0, 0) :=
    .inl ⟨rfl, fun n hpos hn => absurd hpos (Nat.not_lt.2 hn)⟩
  obtain ⟨hfound, hend⟩ := rwkvWalk_found htext' hlen (Nat.succ_pos _) hfirst hstart h
  rw [length_append, length_singleton, Nat.add_sub_cancel] at hfound
  exact ⟨descend_eq_none_iff.1 hend, hfound.longest⟩

lemma exists_rwkvWalk (htext : text = pre ++ b :: rest) (hlen : text.length + 1 < 2 ^ 32)
    (hends : WalkEnds tokens (b :: rest)) {node : Trie UInt8 Nat} (hnode : (Trie.ofList tokens).child b = some node) :
    ∃ r s rest', rwkvWalk text (rest.length + 2) node pre.length (0, 0) = some r ∧ b :: rest = s ++ rest' ∧
      LongestToken tokens (b :: rest) s ∧ (s, r.1) ∈ tokens ∧ r.2 = pre.length + s.length := by
  have htext' : text ++ [0] = pre ++ (b :: rest ++ [0]) := by
    rw [htext, append_assoc]
  have hfirst : (Trie.ofList tokens).descend ((b :: rest ++ [0]).take (0 + 1)) = some node := by
    simp [Trie.descend, hnode]
  have hwalk := @isSome_rwkvWalk _ _ _ _ htext' hlen (descend_eq_none_iff.2 hends.within) (rest.length + 2) 0 node
    (0, 0) (Nat.succ_pos _) (by simp) hfirst
  obtain ⟨r, hwalk⟩ := isSome_iff_exists.1 hwalk
  obtain ⟨-, ⟨-, hno⟩ | ⟨s, rest', hsplit, hs, hmem, hposition⟩⟩ := rwkvWalk_longest htext hlen hnode hwalk
  · obtain ⟨p, hp, hhead⟩ := exists_of_child hnode
    obtain ⟨s, hs⟩ := hends.completes p hp hhead
    exact absurd hs hno.not_longest
  · exact ⟨r, s, rest', hwalk, hsplit, hs, hmem, hposition⟩

lemma walksEnd_of_rwkvLoop (hlen : text.length + 1 < 2 ^ 32) {ids : List Int} :
    ∀ {fuel : Nat} {pre rest : Str} {out : List Int}, text = pre ++ rest →
      Relation.ReflTransGen (GreedyStep tokens) text rest →
      rwkvLoop (Trie.ofList tokens) unk text fuel pre.length out = some ids → WalksEnd tokens rest := by
  intro fuel
  induction fuel with
  | zero =>
    intro pre rest out _ _ h
    cases h
  | succ fuel ih =>
    intro pre rest out htext hreach h rest' hrest' hne'
    cases rest with
    | nil =>
      obtain heq | ⟨x, hstep, -⟩ := hrest'.cases_head
      · exact absurd heq.symm hne'
      · exact absurd hstep not_greedyStep_nil
    | cons b rest =>
      -- what the first step leaves, and that it ends well
      suffices hfirst : WalkEnds tokens (b :: rest) ∧
          ∃ next, GreedyStep tokens (b :: rest) next ∧ WalksEnd tokens next by
        obtain ⟨hends, next, hstep, hnext⟩ := hfirst
        obtain rfl | ⟨x, hx, hrest⟩ := hrest'.cases_head
        · exact hends
        · obtain rfl := hstep.det hx
          exact hnext rest' hrest hne'
      rw [rwkvLoop_succ htext hlen] at h
      cases hchild : (Trie.ofList tokens).child b with
      | none =>
        simp only [hchild] at h
        obtain ⟨hno, hends⟩ := walkEnds_of_child_none hchild
        have hstep : GreedyStep tokens (b :: rest) rest := .unknown hno
        refine ⟨hends, rest, hstep, ih ?_ (hreach.tail hstep) h⟩
        rw [htext, append_assoc, singleton_append]
      | some node =>
        simp only [hchild] at h
        obtain ⟨r, hwalk, h⟩ := bind_eq_some_iff.1 h
        obtain ⟨hwithin, hlongest⟩ := rwkvWalk_longest htext hlen hchild hwalk
        obtain ⟨rfl, hno⟩ | ⟨s, next, hsplit, hs, hmem, hposition⟩ := hlongest
        · -- the position is 0 again, and from there the loop comes back to this walk
          have hback := ih (nil_append text).symm .refl h _ hreach (cons_ne_nil _ _)
          obtain ⟨p, hp, hhead⟩ := exists_of_child hchild
          obtain ⟨s, hs⟩ := hback.completes p hp hhead
          exact absurd hs hno.not_longest
        · have hstep : GreedyStep tokens (b :: rest) next := by
            rw [hsplit] at hs ⊢
            exact .token hs
          refine ⟨⟨fun p hp _ => ⟨s, hs⟩, hwithin⟩, next, hstep, ?_⟩
          rw [hposition, ← length_append] at h
          refine ih ?_ (hreach.tail hstep) h
          rw [htext, hsplit, append_assoc]

/-- The loop ends with the greedy tokens. -/
lemma rwkvLoop_greedy (hlen : text.length + 1 < 2 ^ 32) :
    ∀ {n : Nat} {pre rest : Str} {out : List Int}, rest.length ≤ n → text = pre ++ rest → WalksEnd tokens rest →
      ∃ N ids, Greedy tokens unk rest ids ∧
        ∀ fuel, N ≤ fuel → rwkvLoop (Trie.ofList tokens) unk text fuel pre.length out = some (out ++ ids) := by
  intro n
  induction n with
  | zero =>
    intro pre rest out hn htext _
    obtain rfl := length_eq_zero_iff.1 (Nat.le_zero.1 hn)
    refine ⟨1, [], .nil, fun fuel hfuel => ?_⟩
    obtain ⟨fuel, rfl⟩ := Nat.exists_eq_add_of_le' hfuel
    rw [append_nil] at htext ⊢
    exact rwkvLoop_end htext
  | succ n ih =>
    intro pre rest out hn htext hends
    cases rest with
    | nil =>
      refine ⟨1, [], .nil, fun fuel hfuel => ?_⟩
      obtain ⟨fuel, rfl⟩ := Nat.exists_eq_add_of_le' hfuel
      rw [append_nil] at htext ⊢
      exact rwkvLoop_end htext
    | cons b rest =>
      have hfirst := hends _ .refl (cons_ne_nil b rest)
      cases hchild : (Trie.ofList tokens).child b with
      | none =>
        have hno : NoToken tokens (b :: rest) := (walkEnds_of_child_none hchild).1
        have hrest : WalksEnd tokens rest := fun rest' hreach => hends rest' (.head (.unknown hno) hreach)
        have htext' : text = (pre ++ [b]) ++ rest := by
          rw [htext, append_assoc, singleton_append]
        obtain ⟨N, ids, hgreedy, hrun⟩ := @ih (pre ++ [b]) rest (out ++ [unk]) (Nat.le_of_succ_le_succ hn) htext' hrest
        refine ⟨N + 1, unk :: ids, .unknown hno hgreedy, fun fuel hfuel => ?_⟩
        obtain ⟨fuel, rfl⟩ := Nat.exists_eq_add_of_le' (Nat.le_of_add_left_le hfuel)
        rw [rwkvLoop_succ htext hlen]
        simp only [hchild]
        rw [hrun fuel (Nat.le_of_succ_le_succ hfuel), append_assoc, singleton_append]
      | some node =>
        obtain ⟨r, s, next, hwalk, hsplit, hs, hmem, hposition⟩ := exists_rwkvWalk htext hlen hfirst hchild
        have hnext : WalksEnd tokens next := by
          intro rest' hreach
          apply hends rest'
          rw [hsplit] at hs ⊢
          exact .head (.token hs) hreach
        have htext' : text = (pre ++ s) ++ next := by
          rw [htext, hsplit, append_assoc]
        have hshort : next.length ≤ n := by
          have hlength := congrArg List.length hsplit
          have hpos := length_pos_iff.2 hs.ne
          rw [length_append, length_cons] at hlength
          rw [length_cons] at hn
          omega
        obtain ⟨N, ids, hgreedy, hrun⟩ := @ih (pre ++ s) next (out ++ [(r.1 : Int)]) hshort htext' hnext
        refine ⟨max N (rest.length + 2) + 1, (r.1 : Int) :: ids, ?_, fun fuel hfuel => ?_⟩
        · rw [hsplit] at hs ⊢
          exact .token hs hmem hgreedy
        · obtain ⟨fuel, rfl⟩ := Nat.exists_eq_add_of_le' (Nat.le_of_add_left_le hfuel)
          have hle := Nat.max_le.1 (Nat.le_of_succ_le_succ hfuel)
          rw [rwkvLoop_succ htext hlen]
          simp only [hchild]
          rw [rwkvWalk_mono hle.2 hwalk, bind_some, hposition, ← length_append, hrun fuel hle.1,
            append_assoc, singleton_append]

end

/-- The session ends with the greedy segmentation of a text exactly if all walks of that segmentation end well: where the
first byte begins a token, some token stands in front of the rest of the text, and the rest with its NUL begins none. The
length of a text is of type `int32_t`. -/
theorem rwkvTokenize_greedy_iff (v : Vocab F) (text : Str) (hlen : text.length < 2 ^ 31) :
    (∃ fuel out, rwkvTokenize v fuel text = some out ∧ Greedy (rwkvEntries v) v.specialUnkId text out) ↔
      WalksEnd (rwkvEntries v) text := by
  have hlen' : text.length + 1 < 2 ^ 32 := by omega
  constructor
  · intro ⟨fuel, out, hrun, _⟩
    exact walksEnd_of_rwkvLoop hlen' (nil_append text).symm .refl hrun
  · intro hends
    obtain ⟨N, ids, hgreedy, hrun⟩ := rwkvLoop_greedy hlen' (le_refl _) (nil_append text).symm hends
    exact ⟨N, ids, hrun N (le_refl N), hgreedy⟩

/-- A vocabulary with the tokens `ab` and `c`; the session does not read its type. -/
def wordVocab : Vocab Int := .plain .spm
  [⟨[60], 0, { unknown := true }, { unknown := true }⟩, normalToken [97, 98] 0, normalToken [99] 0]
  0 [0] (by decide) (by decide) (by decide)

/-- The session does not end on `a`: the walk goes down to `a`, where no token ends, and starts at position 0 again. -/
theorem rwkvTokenize_letter : ¬ ∃ fuel out, rwkvTokenize wordVocab fuel [97] = some out := by
  suffices hloop : ∀ fuel out, rwkvLoop (rwkvMatcher wordVocab) 0 [97] fuel 0 out = none by
    rintro ⟨fuel, out, hrun⟩
    cases (hloop fuel []).symm.trans hrun
  intro fuel
  induction fuel with
  | zero =>
    intro out
    rfl
  | succ fuel ih =>
    intro out
    cases fuel with
    | zero => rfl
    | succ fuel => exact ih _

/-- `abc` is cut into `ab` and `c`. -/
theorem rwkvTokenize_words : (∃ fuel out, rwkvTokenize wordVocab fuel [97, 98, 99] = some out ∧
      Greedy (rwkvEntries wordVocab) wordVocab.specialUnkId [97, 98, 99] out) ↔
      WalksEnd (rwkvEntries wordVocab) [97, 98, 99] :=
  rwkvTokenize_greedy_iff wordVocab [97, 98, 99] (by decide)

example : rwkvTokenize wordVocab 4 [97, 98, 99] = some [1, 2] := by decide

end Mallana.Tokenizer
