import Mallana.Tokenizer.Basic

/-!
# Merging symbols

The merge loop that the SPM and the BPE sessions of `llama-vocab.cpp` share: a list of symbols linked by `prev` and
`next`, and a queue of bigrams from which outdated entries are not removed but skipped. The two sessions differ in when
two symbols may be merged (`lookup`), in how an outdated bigram is recognised (`fresh`) and in the order of the queue.

A symbol points into the text, so it is an offset and a length; the length of a symbol that was merged into another is 0.
-/

namespace Mallana.Tokenizer

open List

/-- `llm_symbol`. -/
structure Symbol where
  prev : Int := -1
  next : Int := -1
  start : Nat := 0
  n : Nat := 0
deriving DecidableEq, Inhabited

def Symbol.str (text : Str) (s : Symbol) : Str := span text s.start s.n

/-- `llm_bigram_spm` and `llm_bigram_bpe`; `key` is the score or the rank. -/
structure Bigram (κ : Type) where
  left : Nat
  right : Nat
  key : κ
  text : Str
  size : Nat

/-- The state of a session. `pushed` are all bigrams that were ever put into the queue, the last one first. -/
structure Merging (κ : Type) where
  symbols : List Symbol
  queue : List (Bigram κ)
  pushed : List (Bigram κ)

def symAt (symbols : List Symbol) (i : Nat) : Symbol := symbols.getD i {}

def splitSymbols (text : Str) : Nat → Nat → Nat → List Symbol
  | 0, _, _ => []
  | fuel + 1, offs, index =>
    if offs < text.length then
      let n := min (lenUtf8 (text.getD offs 0)) (text.length - offs)
      { prev := (index : Int) - 1
        next := if offs + n = text.length then -1 else (index : Int) + 1
        start := offs
        n := n } :: splitSymbols text fuel (offs + n) (index + 1)
    else []

/-- `top` and `pop` of a `std::priority_queue` whose comparator is `less`. -/
def popTop {α : Type} (less : α → α → Bool) : List α → Option (α × List α)
  | [] => none
  | x :: xs =>
    match popTop less xs with
    | none => some (x, [])
    | some (y, ys) => if less x y then some (y, x :: ys) else some (x, xs)

section
variable {κ : Type} (lookup : Symbol → Symbol → Option (κ × Str))
variable (fresh : Bigram κ → Symbol → Symbol → Bool) (less : Bigram κ → Bigram κ → Bool)

/-- `try_add_bigram` and `add_new_bigram`. -/
def addBigram (left right : Int) (m : Merging κ) : Merging κ :=
  if left = -1 ∨ right = -1 then m
  else
    let l := symAt m.symbols left.toNat
    let r := symAt m.symbols right.toNat
    match lookup l r with
    | none => m
    | some (key, text) =>
      let b := ⟨left.toNat, right.toNat, key, text, l.n + r.n⟩
      { m with queue := b :: m.queue, pushed := b :: m.pushed }

/-- The symbols after `right` was merged into `left`. -/
def mergeSymbols (symbols : List Symbol) (left right : Nat) : List Symbol :=
  let l := symAt symbols left
  let r := symAt symbols right
  let merged := (symbols.set left { l with n := l.n + r.n, next := r.next }).set right { r with n := 0 }
  if 0 ≤ r.next then merged.modify r.next.toNat fun s => { s with prev := left } else merged

/-- The body of the merge loop for the bigram `b`. -/
def mergeStep (b : Bigram κ) (m : Merging κ) : Merging κ :=
  let l := symAt m.symbols b.left
  let r := symAt m.symbols b.right
  if l.n = 0 ∨ r.n = 0 ∨ fresh b l r = false then m
  else
    addBigram lookup b.left r.next
      (addBigram lookup l.prev b.left { m with symbols := mergeSymbols m.symbols b.left b.right })

def mergeLoop : Nat → Merging κ → Merging κ
  | 0, m => m
  | fuel + 1, m =>
    match popTop less m.queue with
    | none => m
    | some (b, queue) => mergeLoop fuel (mergeStep lookup fresh b { m with queue := queue })

def seed (symbols : List Symbol) : Merging κ :=
  (List.range' 1 (symbols.length - 1)).foldl (fun m (i : Nat) => addBigram lookup ((i : Int) - 1) i m) ⟨symbols, [], []⟩

/-- Seeding and merging. Every turn of the loop takes a bigram out of the queue, and a merge, of which there
is at most one for each symbol, puts two into it. -/
def mergeAll (symbols : List Symbol) : Merging κ :=
  mergeLoop lookup fresh less (3 * symbols.length) (seed lookup symbols)

end

/-- The symbols along `next`. -/
def chain (symbols : List Symbol) : Nat → Int → List Symbol
  | 0, _ => []
  | fuel + 1, i =>
    if i = -1 then []
    else symAt symbols i.toNat :: chain symbols fuel (symAt symbols i.toNat).next

/-- The spans of a text that are put together from atoms by merging neighbours that join. -/
inductive Built (text : Str) (Atom : Nat → Nat → Prop) (Joins : Str → Str → Prop) : Nat → Nat → Prop
  | atom {s n : Nat} (h : Atom s n) : Built text Atom Joins s n
  | join {s n k : Nat} (hl : Built text Atom Joins s n) (hr : Built text Atom Joins (s + n) k)
      (h : Joins (span text s n) (span text (s + n) k)) : Built text Atom Joins s (n + k)

/-- The live symbols are built spans of the text that follow one another, and the links say so. -/
structure Linked (text : Str) (Atom : Nat → Nat → Prop) (Joins : Str → Str → Prop) (symbols : List Symbol) : Prop where
  head : text ≠ [] → 0 < (symAt symbols 0).n ∧ (symAt symbols 0).start = 0
  built : ∀ i, 0 < (symAt symbols i).n → Built text Atom Joins (symAt symbols i).start (symAt symbols i).n
  bound : ∀ i, 0 < (symAt symbols i).n → (symAt symbols i).start + (symAt symbols i).n ≤ text.length
  mono : ∀ i j, 0 < (symAt symbols i).n → 0 < (symAt symbols j).n → i < j →
    (symAt symbols i).start < (symAt symbols j).start
  next : ∀ i, 0 < (symAt symbols i).n → (symAt symbols i).next ≠ -1 →
    ∃ k : Nat, (symAt symbols i).next = k ∧ 0 < (symAt symbols k).n ∧ (symAt symbols k).prev = i ∧
      (symAt symbols k).start = (symAt symbols i).start + (symAt symbols i).n
  last : ∀ i, 0 < (symAt symbols i).n → (symAt symbols i).next = -1 →
    (symAt symbols i).start + (symAt symbols i).n = text.length
  prev : ∀ i, 0 < (symAt symbols i).n → (symAt symbols i).prev ≠ -1 →
    ∃ k : Nat, (symAt symbols i).prev = k ∧ 0 < (symAt symbols k).n ∧ (symAt symbols k).next = i
  first : ∀ i, 0 < (symAt symbols i).n → (symAt symbols i).prev = -1 → (symAt symbols i).start = 0

/-- A bigram of the queue: the spans it was made from, which the symbols still cover as long as they live. -/
structure Queued (text : Str) (Joins : Str → Str → Prop) (symbols : List Symbol) {κ : Type} (b : Bigram κ)
    (nl nr : Nat) : Prop where
  size : b.size = nl + nr
  str : b.text = span text (symAt symbols b.left).start nl ++ span text (symAt symbols b.right).start nr
  left_le : 0 < (symAt symbols b.left).n → nl ≤ (symAt symbols b.left).n
  right_le : 0 < (symAt symbols b.right).n → nr ≤ (symAt symbols b.right).n
  start : (symAt symbols b.right).start = (symAt symbols b.left).start + nl
  room : (symAt symbols b.right).start + nr ≤ text.length
  joins : Joins (span text (symAt symbols b.left).start nl) (span text (symAt symbols b.right).start nr)

variable {symbols : List Symbol} {j : Nat}

lemma Linked.inj {text : Str} {Atom : Nat → Nat → Prop} {Joins : Str → Str → Prop}
    (h : Linked text Atom Joins symbols) {i : Nat} (hi : 0 < (symAt symbols i).n) (hj : 0 < (symAt symbols j).n)
    (heq : (symAt symbols i).start = (symAt symbols j).start) : i = j := by
  rcases lt_trichotomy i j with hlt | rfl | hlt
  · have := h.mono i j hi hj hlt
    omega
  · rfl
  · have := h.mono j i hj hi hlt
    omega

lemma length_span {text : Str} {s n : Nat} (h : s + n ≤ text.length) : (span text s n).length = n := by
  rw [span, length_take, length_drop]
  omega

lemma symAt_set (x : Symbol) (i : Nat) (h : j < symbols.length) :
    symAt (symbols.set j x) i = if i = j then x else symAt symbols i := by
  simp only [symAt, getD_eq_getElem?_getD]
  split
  · rename_i hij
    rw [hij, getElem?_set_self h]
    rfl
  · rename_i hij
    rw [getElem?_set_ne (Ne.symm hij)]

lemma symAt_modify (f : Symbol → Symbol) (i : Nat) (h : j < symbols.length) :
    symAt (symbols.modify j f) i = if i = j then f (symAt symbols i) else symAt symbols i := by
  simp only [symAt, getD_eq_getElem?_getD, getElem?_modify]
  split
  · rename_i hij
    subst hij
    simp [h]
  · rename_i hij
    simp [Ne.symm hij]

lemma lt_of_live {i : Nat} (h : 0 < (symAt symbols i).n) : i < symbols.length := by
  by_contra hi
  rw [symAt, getD_eq_getElem?_getD, getElem?_eq_none (Nat.le_of_not_lt hi)] at h
  exact absurd h (lt_irrefl 0)

section
variable {text : Str} {Atom : Nat → Nat → Prop} {Joins : Str → Str → Prop} {symbols : List Symbol} {left right : Nat}

/-- A merge of two neighbours. -/
structure Neighbours (symbols : List Symbol) (left right : Nat) : Prop where
  left_live : 0 < (symAt symbols left).n
  right_live : 0 < (symAt symbols right).n
  next : (symAt symbols left).next = right
  start : (symAt symbols right).start = (symAt symbols left).start + (symAt symbols left).n

section
variable (h : Linked text Atom Joins symbols) (hn : Neighbours symbols left right)
include h hn

lemma Linked.behind (hr : (symAt symbols right).next ≠ -1) :
    ∃ k : Nat, (symAt symbols right).next = k ∧ k ≠ left ∧ k ≠ right ∧ 0 < (symAt symbols k).n ∧
      (symAt symbols k).prev = right ∧
      (symAt symbols k).start = (symAt symbols right).start + (symAt symbols right).n := by
  obtain ⟨k, hk, live, prev, start⟩ := h.next right hn.right_live hr
  have h1 := hn.left_live
  have h2 := hn.right_live
  have h3 := hn.start
  refine ⟨k, hk, ?_, ?_, live, prev, start⟩
  · intro heq
    rw [heq] at start
    omega
  · intro heq
    rw [heq] at start
    omega

lemma symAt_mergeSymbols (i : Nat) : symAt (mergeSymbols symbols left right) i =
      { prev := if (symAt symbols right).next = i then left else (symAt symbols i).prev
        next := if i = left then (symAt symbols right).next else (symAt symbols i).next
        start := (symAt symbols i).start
        n := if i = left then (symAt symbols left).n + (symAt symbols right).n
          else if i = right then 0 else (symAt symbols i).n } := by
  have hl := lt_of_live hn.left_live
  have hr := lt_of_live hn.right_live
  have hne : left ≠ right := by
    intro heq
    have h1 := hn.start
    have h2 := hn.right_live
    rw [heq] at h1
    omega
  have hset : ∀ j, symAt ((symbols.set left { symAt symbols left with
        n := (symAt symbols left).n + (symAt symbols right).n, next := (symAt symbols right).next }).set right
        { symAt symbols right with n := 0 }) j =
      if j = right then { symAt symbols right with n := 0 }
      else if j = left then { symAt symbols left with
        n := (symAt symbols left).n + (symAt symbols right).n, next := (symAt symbols right).next }
      else symAt symbols j := by
    intro j
    rw [symAt_set _ _ (by rw [length_set]; exact hr), symAt_set _ _ hl]
  unfold mergeSymbols
  by_cases hnext : (symAt symbols right).next = -1
  · rw [if_neg (by omega), hset]
    have hi : (symAt symbols right).next ≠ i := by omega
    rw [if_neg hi]
    by_cases h1 : i = right
    · subst h1
      simp [Ne.symm hne]
    · by_cases h2 : i = left
      · subst h2
        simp [h1]
      · simp [h1, h2]
  · obtain ⟨k, hk, kl, kr, live, -, -⟩ := h.behind hn hnext
    have hk' := lt_of_live live
    rw [if_pos (by omega), symAt_modify _ _ (by rw [hk]; simpa using hk'), hset]
    have htoNat : (symAt symbols right).next.toNat = k := by omega
    rw [htoNat]
    by_cases h1 : i = right
    · subst h1
      have : (symAt symbols i).next ≠ i := by omega
      simp [Ne.symm hne, Ne.symm kr, this]
    · by_cases h2 : i = left
      · subst h2
        have : (symAt symbols right).next ≠ i := by omega
        simp [h1, Ne.symm kl, this]
      · by_cases h3 : i = k
        · subst h3
          simp [h1, h2, hk]
        · have : (symAt symbols right).next ≠ i := by omega
          simp [h1, h2, h3, this]

/-- The predecessor of the right symbol is the left one. -/
lemma Linked.prev_right : (symAt symbols right).prev = left := by
  obtain ⟨k, hk, -, prev, -⟩ := h.next left hn.left_live (by rw [hn.next]; omega)
  have : k = right := by
    have := hn.next
    omega
  rw [← this]
  exact prev

/-- The right symbol dies, and no other. -/
lemma Linked.alive_merge {i : Nat} (hi : 0 < (symAt (mergeSymbols symbols left right) i).n) :
    i ≠ right ∧ 0 < (symAt symbols i).n := by
  have h1 := hn.left_live
  have h2 := hn.right_live
  have h3 := hn.start
  rw [symAt_mergeSymbols h hn] at hi
  simp only at hi
  split at hi
  · rename_i heq
    subst heq
    refine ⟨?_, h1⟩
    intro heq
    rw [heq] at h3 h1
    omega
  · split at hi
    · omega
    · rename_i hne
      exact ⟨hne, hi⟩

/-- Behind a live symbol stands the one that stood there before, or the one behind the right symbol. -/
lemma Linked.follows_merge (i : Nat) (hi : 0 < (symAt (mergeSymbols symbols left right) i).n)
    (hnext : (symAt (mergeSymbols symbols left right) i).next ≠ -1) :
    ∃ k : Nat, (symAt (mergeSymbols symbols left right) i).next = k ∧
      0 < (symAt (mergeSymbols symbols left right) k).n ∧ (symAt (mergeSymbols symbols left right) k).prev = i ∧
      (symAt (mergeSymbols symbols left right) k).start =
        (symAt (mergeSymbols symbols left right) i).start + (symAt (mergeSymbols symbols left right) i).n := by
  have h1 := hn.left_live
  have h3 := hn.start
  obtain ⟨hir, hlive⟩ := h.alive_merge hn hi
  rw [symAt_mergeSymbols h hn] at hnext
  simp only [symAt_mergeSymbols h hn]
  by_cases hil : i = left
  · subst hil
    simp only [if_true] at hnext ⊢
    obtain ⟨k, hk, kl, kr, klive, -, kstart⟩ := h.behind hn hnext
    refine ⟨k, hk, ?_, ?_, ?_⟩
    · simpa only [kl, kr, if_false] using klive
    · rw [if_pos hk]
    · omega
  · simp only [hil, hir, if_false] at hnext ⊢
    obtain ⟨k, hk, klive, kprev, kstart⟩ := h.next i hlive hnext
    have kr : k ≠ right := by
      intro heq
      rw [heq, h.prev_right hn] at kprev
      exact hil (by exact_mod_cast kprev.symm)
    refine ⟨k, hk, ?_, ?_, kstart⟩
    · split
      · omega
      · simpa only [kr, if_false] using klive
    · rw [if_neg]
      · exact kprev
      · intro heq
        obtain ⟨k', hk', -, -, -, prev', -⟩ := h.behind hn (by omega)
        have : k' = k := by omega
        rw [this, kprev] at prev'
        exact hir (by exact_mod_cast prev')

lemma Linked.precedes_merge (i : Nat) (hi : 0 < (symAt (mergeSymbols symbols left right) i).n)
    (hp : (symAt (mergeSymbols symbols left right) i).prev ≠ -1) :
    ∃ k : Nat, (symAt (mergeSymbols symbols left right) i).prev = k ∧
      0 < (symAt (mergeSymbols symbols left right) k).n ∧ (symAt (mergeSymbols symbols left right) k).next = i := by
  have h1 := hn.left_live
  obtain ⟨hir, hlive⟩ := h.alive_merge hn hi
  rw [symAt_mergeSymbols h hn] at hp
  simp only [symAt_mergeSymbols h hn]
  by_cases hnext : (symAt symbols right).next = i
  · simp only [hnext, if_true]
    refine ⟨left, rfl, ?_, if_pos rfl⟩
    rw [if_pos rfl]
    omega
  · simp only [hnext, if_false] at hp ⊢
    obtain ⟨k, hk, klive, knext⟩ := h.prev i hlive hp
    have kl : k ≠ left := by
      intro heq
      rw [heq, hn.next] at knext
      exact hir (by exact_mod_cast knext.symm)
    have kr : k ≠ right := by
      intro heq
      rw [heq] at knext
      exact hnext knext
    refine ⟨k, hk, ?_, ?_⟩
    · simpa only [kl, kr, if_false] using klive
    · simpa only [kl, if_false] using knext

/-- A merge of two neighbours that join keeps the list of symbols. -/
lemma Linked.merge (hj : Joins ((symAt symbols left).str text) ((symAt symbols right).str text)) :
    Linked text Atom Joins (mergeSymbols symbols left right) := by
  have h1 := hn.left_live
  have h2 := hn.right_live
  have h3 := hn.start
  constructor
  case head =>
    intro hne
    obtain ⟨hlive, hzero⟩ := h.head hne
    have hr : 0 ≠ right := by
      intro heq
      rw [heq] at hzero
      omega
    rw [symAt_mergeSymbols h hn]
    refine ⟨?_, hzero⟩
    simp only [hr, if_false]
    split <;> omega
  case built =>
    intro i hi
    obtain ⟨hir, hlive⟩ := h.alive_merge hn hi
    rw [symAt_mergeSymbols h hn]
    by_cases hil : i = left
    · subst hil
      simp only [if_true]
      refine .join (h.built i hlive) ?_ ?_
      · rw [← h3]
        exact h.built right h2
      · rw [← h3]
        exact hj
    · simp only [hil, hir, if_false]
      exact h.built i hlive
  case bound =>
    intro i hi
    obtain ⟨hir, hlive⟩ := h.alive_merge hn hi
    rw [symAt_mergeSymbols h hn]
    by_cases hil : i = left
    · subst hil
      have := h.bound right h2
      simp only [if_true]
      omega
    · simp only [hil, hir, if_false]
      exact h.bound i hlive
  case mono =>
    intro i j hi hj' hlt
    rw [symAt_mergeSymbols h hn, symAt_mergeSymbols h hn]
    exact h.mono i j (h.alive_merge hn hi).2 (h.alive_merge hn hj').2 hlt
  case next => exact h.follows_merge hn
  case last =>
    intro i hi hnext
    obtain ⟨hir, hlive⟩ := h.alive_merge hn hi
    rw [symAt_mergeSymbols h hn] at hnext ⊢
    by_cases hil : i = left
    · subst hil
      simp only [if_true] at hnext ⊢
      have := h.last right h2 hnext
      omega
    · simp only [hil, hir, if_false] at hnext ⊢
      exact h.last i hlive hnext
  case prev => exact h.precedes_merge hn
  case first =>
    intro i hi hp
    obtain ⟨-, hlive⟩ := h.alive_merge hn hi
    rw [symAt_mergeSymbols h hn] at hp ⊢
    simp only at hp ⊢
    split at hp
    · omega
    · exact h.first i hlive hp

end

lemma Queued.merge {κ : Type} {b : Bigram κ} {nl nr : Nat} (hb : Queued text Joins symbols b nl nr)
    (h : Linked text Atom Joins symbols) (hn : Neighbours symbols left right) :
    Queued text Joins (mergeSymbols symbols left right) b nl nr := by
  have start : ∀ i, (symAt (mergeSymbols symbols left right) i).start = (symAt symbols i).start := by
    intro i
    rw [symAt_mergeSymbols h hn]
  have grow : ∀ i k, (0 < (symAt symbols i).n → k ≤ (symAt symbols i).n) →
      0 < (symAt (mergeSymbols symbols left right) i).n → k ≤ (symAt (mergeSymbols symbols left right) i).n := by
    intro i k hk hlive
    rw [symAt_mergeSymbols h hn] at hlive ⊢
    simp only at hlive ⊢
    have h1 := hn.left_live
    split
    · rename_i heq
      subst heq
      have := hk h1
      omega
    · rename_i hne
      split
      · rename_i heq
        rw [if_neg hne, if_pos heq] at hlive
        exact absurd hlive (lt_irrefl 0)
      · rename_i hne'
        simp only [hne, hne', if_false] at hlive
        exact hk hlive
  exact {
    size := hb.size
    str := by rw [start, start]; exact hb.str
    left_le := grow _ _ hb.left_le
    right_le := grow _ _ hb.right_le
    start := by rw [start, start]; exact hb.start
    room := by rw [start]; exact hb.room
    joins := by rw [start, start]; exact hb.joins }

end

end Mallana.Tokenizer
