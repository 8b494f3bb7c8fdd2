import Mathlib.Data.Prod.Lex
import Mallana.Lib.PairMerge
import Mallana.Tokenizer.Tokenize

/-!
# The order of the merges

The merge loop skips the outdated bigrams of its queue, and what it does not skip is the pair that a scan of all
neighbours would choose. So the sessions end with the symbols of the plain algorithm `mergePairs`.

The invariant of the loop has three parts: the symbols are linked, a bigram of the queue has the key of the spans it was
made for, and every pair of neighbours that can be merged waits in the queue.
-/

namespace Mallana.Tokenizer

open Mallana.Lib List

lemma popTop_max {α L : Type} [LinearOrder L] {less : α → α → Bool} {score : α → L} :
    ∀ {xs : List α} {x : α} {ys : List α}, (∀ y ∈ xs, ∀ z ∈ xs, less y z = true ↔ score y < score z) →
      popTop less xs = some (x, ys) → ∀ y ∈ xs, score y ≤ score x := by
  intro xs
  induction xs with
  | nil =>
    intro x ys _ h
    cases h
  | cons a as ih =>
    intro x ys hless h y hy
    rw [popTop] at h
    cases hp : popTop less as with
    | none =>
      simp only [hp] at h
      cases h
      rw [popTop_none hp] at hy
      cases mem_singleton.1 hy
      exact le_refl _
    | some p =>
      obtain ⟨z, zs⟩ := p
      simp only [hp] at h
      have hz := (mem_popTop hp).1
      have hmax := ih (fun y hy z hz => hless y (mem_cons_of_mem _ hy) z (mem_cons_of_mem _ hz)) hp
      have haz := hless a mem_cons_self z (mem_cons_of_mem _ hz)
      split at h
      · rename_i hlt
        cases h
        rcases mem_cons.1 hy with rfl | hy
        · exact (haz.1 hlt).le
        · exact hmax y hy
      · rename_i hge
        cases h
        have hle : score z ≤ score a := not_lt.1 fun hlt => hge (haz.2 hlt)
        rcases mem_cons.1 hy with rfl | hy
        · exact le_refl _
        · exact (hmax y hy).trans hle

lemma mem_rest_popTop {α : Type} {less : α → α → Bool} :
    ∀ {xs : List α} {x : α} {ys : List α}, popTop less xs = some (x, ys) → ∀ y ∈ xs, y = x ∨ y ∈ ys := by
  intro xs
  induction xs with
  | nil =>
    intro x ys h
    cases h
  | cons a as ih =>
    intro x ys h y hy
    rw [popTop] at h
    cases hp : popTop less as with
    | none =>
      simp only [hp] at h
      cases h
      rw [popTop_none hp] at hy
      exact .inl (mem_singleton.1 hy)
    | some p =>
      obtain ⟨z, zs⟩ := p
      simp only [hp] at h
      split at h
      · cases h
        rcases mem_cons.1 hy with rfl | hy
        · exact .inr mem_cons_self
        · rcases ih hp y hy with heq | hmem
          · exact .inl heq
          · exact .inr (mem_cons_of_mem _ hmem)
      · cases h
        rcases mem_cons.1 hy with rfl | hy
        · exact .inl rfl
        · exact .inr hy

def live (symbols : List Symbol) : List Nat :=
  (List.range symbols.length).filter fun i => decide (0 < (symAt symbols i).n)

def texts (text : Str) (symbols : List Symbol) : List Str :=
  (live symbols).map fun i => (symAt symbols i).str text

lemma mem_live {symbols : List Symbol} {i : Nat} : i ∈ live symbols ↔ 0 < (symAt symbols i).n := by
  rw [live, mem_filter, mem_range, decide_eq_true_iff]
  exact ⟨fun h => h.2, fun h => ⟨lt_of_live h, h⟩⟩

lemma live_sorted (symbols : List Symbol) : (live symbols).Pairwise (· < ·) :=
  pairwise_lt_range.sublist filter_sublist

lemma texts_eq (text : Str) (symbols : List Symbol) :
    (symbols.filter fun s => decide (0 < s.n)).map (Symbol.str text) = texts text symbols := by
  rw [← liveFrom_zero, liveFrom, texts, live, filter_map, map_map, Nat.sub_zero, ← range_eq_range']
  rfl

section
variable {text : Str} {Atom : Nat → Nat → Prop} {Joins : Str → Str → Prop} {symbols : List Symbol} {left right : Nat}

section
variable (h : Linked text Atom Joins symbols)
include h

lemma Linked.isChain_live : (live symbols).IsChain (Neighbours symbols) := by
  apply isChain_iff_forall_rel_of_append_cons_cons.2
  intro i j pre post heq
  have hsorted := live_sorted symbols
  rw [heq, pairwise_append] at hsorted
  obtain ⟨-, htail, hpre⟩ := hsorted
  obtain ⟨hi', htail⟩ := pairwise_cons.1 htail
  obtain ⟨hj', -⟩ := pairwise_cons.1 htail
  have hi : 0 < (symAt symbols i).n := mem_live.1 (by rw [heq]; simp)
  have hj : 0 < (symAt symbols j).n := mem_live.1 (by rw [heq]; simp)
  have hij := hi' j mem_cons_self
  have hdis := h.disjoint hj i hij hi
  have hnext : (symAt symbols i).next ≠ -1 := by
    intro hnone
    have h1 := h.last i hi hnone
    have h2 := h.bound j hj
    omega
  obtain ⟨k, hk, klive, -, kstart⟩ := h.next i hi hnext
  -- the next symbol is not before `i`, and no live symbol is between `i` and `j`
  have hjk : j ≤ k := by
    have hmem := mem_live.2 klive
    rw [heq, mem_append, mem_cons, mem_cons] at hmem
    rcases hmem with hmem | rfl | rfl | hmem
    · have := h.mono k i klive hi (hpre k hmem i mem_cons_self)
      omega
    · omega
    · exact le_refl _
    · exact le_of_lt (hj' k hmem)
  have hkj : k = j := by
    rcases lt_or_eq_of_le hjk with hlt | heq
    · have := h.mono j k hj klive hlt
      omega
    · exact heq.symm
  subst hkj
  exact ⟨hi, hj, hk, kstart⟩

section
variable (hn : Neighbours symbols left right)
include hn

lemma Linked.lt_neighbours : left < right := by
  have h1 := hn.start
  have h2 := hn.left_live
  rcases lt_trichotomy left right with hlt | heq | hlt
  · exact hlt
  · rw [heq] at h1 h2
    omega
  · have := h.mono right left hn.right_live hn.left_live hlt
    omega

lemma Linked.live_split :
    ∃ pre post, live symbols = pre ++ left :: right :: post := by
  obtain ⟨pre, rest, heq⟩ := append_of_mem (mem_live.2 hn.left_live)
  have hsorted := live_sorted symbols
  have hchain := h.isChain_live
  rw [heq] at hsorted hchain
  have hmem := mem_live.2 hn.right_live
  rw [heq, mem_append, mem_cons] at hmem
  have hlt := h.lt_neighbours hn
  rcases hmem with hmem | heq' | hmem
  · have := (pairwise_append.1 hsorted).2.2 right hmem left mem_cons_self
    omega
  · omega
  · cases rest with
    | nil => cases hmem
    | cons j post =>
      have hj := isChain_iff_forall_rel_of_append_cons_cons.1 hchain rfl
      have heq' : j = right := by
        have h1 := hj.next
        have h2 := hn.next
        omega
      exact ⟨pre, post, by rw [heq, heq']⟩

lemma Linked.live_merge {pre post : List Nat}
    (heq : live symbols = pre ++ left :: right :: post) :
    live (mergeSymbols symbols left right) = pre ++ left :: post := by
  have hne := (h.lt_neighbours hn).ne
  have hlen : (mergeSymbols symbols left right).length = symbols.length := by
    unfold mergeSymbols
    simp only
    split <;> simp
  have hfilter : live (mergeSymbols symbols left right) = (live symbols).filter fun i => decide (i ≠ right) := by
    rw [live, live, hlen, filter_filter]
    apply filter_congr
    intro i _
    rw [symAt_mergeSymbols h hn]
    have h1 := hn.left_live
    by_cases hl : i = left
    · subst hl
      simp [hne, h1, Nat.add_pos_left h1]
    · by_cases hr : i = right
      · simp [hr, Ne.symm hne]
      · simp [hl, hr]
  have hsorted := live_sorted symbols
  rw [heq, pairwise_append] at hsorted
  obtain ⟨-, htail, hpre⟩ := hsorted
  obtain ⟨-, htail⟩ := pairwise_cons.1 htail
  obtain ⟨hpost, -⟩ := pairwise_cons.1 htail
  have keeps : ∀ l : List Nat, (∀ i ∈ l, i ≠ right) → l.filter (fun i => decide (i ≠ right)) = l := by
    intro l hl
    apply filter_eq_self.2
    intro i hi
    exact decide_eq_true (hl i hi)
  rw [hfilter, heq, filter_append, filter_cons_of_pos (by simpa using hne),
    filter_cons_of_neg (by simp), keeps pre, keeps post]
  · exact fun i hi => (hpost i hi).ne'
  · exact fun i hi => (hpre i hi right (mem_cons_of_mem _ mem_cons_self)).ne

lemma Linked.texts_merge {pre post : List Nat}
    (heq : live symbols = pre ++ left :: right :: post) :
    texts text (mergeSymbols symbols left right) = mergeAt (· ++ ·) pre.length (texts text symbols) := by
  have hstr : ∀ i, i ≠ left → i ≠ right →
      (symAt (mergeSymbols symbols left right) i).str text = (symAt symbols i).str text := by
    intro i hl hr
    rw [symAt_mergeSymbols h hn]
    simp only [Symbol.str, hl, hr, if_false]
  have hleft : (symAt (mergeSymbols symbols left right) left).str text =
      (symAt symbols left).str text ++ (symAt symbols right).str text := by
    rw [symAt_mergeSymbols h hn]
    simp only [Symbol.str, if_true]
    rw [span_add, hn.start]
  have hsorted := live_sorted symbols
  rw [heq, pairwise_append] at hsorted
  obtain ⟨-, htail, hpre⟩ := hsorted
  obtain ⟨hpost, htail⟩ := pairwise_cons.1 htail
  obtain ⟨hpost', -⟩ := pairwise_cons.1 htail
  have hlen : pre.length = (pre.map fun i => (symAt symbols i).str text).length := (length_map _).symm
  rw [texts, h.live_merge hn heq, texts, heq, map_append, map_append, map_cons, map_cons,
    map_cons, hlen, mergeAt_append, hleft]
  congr 1
  · apply map_congr_left
    intro i hi
    exact hstr i (hpre i hi left mem_cons_self).ne
      (hpre i hi right (mem_cons_of_mem _ mem_cons_self)).ne
  · congr 1
    apply map_congr_left
    intro i hi
    exact hstr i (hpost i (mem_cons_of_mem _ hi)).ne' (hpost' i hi).ne'

end

end

end

section
variable {κ R : Type} [LinearOrder R]

def IsKey (keyOf : Str → Str → Option κ) (k : κ) : Prop := ∃ l r, keyOf l r = some k

/-- What a session does with symbols is what a scan of neighbours does with their texts; `rank` orders the keys. -/
structure Scans (text : Str) (keyOf : Str → Str → Option κ) (worse : κ → κ → Bool) (rank : κ → R)
    (lookup : Symbol → Symbol → Option (κ × Str)) (fresh : Bigram κ → Symbol → Symbol → Bool)
    (less : Bigram κ → Bigram κ → Bool) : Prop where
  lookup : ∀ l r, r.start = l.start + l.n →
    lookup l r = (keyOf (l.str text) (r.str text)).map fun k => (k, l.str text ++ r.str text)
  fresh : ∀ b l r, b.size = l.n + r.n → b.text = l.str text ++ r.str text → fresh b l r = true
  worse : ∀ k k', IsKey keyOf k → IsKey keyOf k' → (worse k k' = true ↔ rank k < rank k')
  less : ∀ b b', IsKey keyOf b.key → IsKey keyOf b'.key →
    (less b b' = true ↔ rank b.key < rank b'.key ∨ rank b.key = rank b'.key ∧ b'.left < b.left)

def place (rank : κ → R) (b : Bigram κ) : R ×ₗ Natᵒᵈ := toLex (rank b.key, OrderDual.toDual b.left)

/-- The key of a bigram is the one of the spans it was made for. -/
def Keyed (text : Str) (keyOf : Str → Str → Option κ) (symbols : List Symbol) (b : Bigram κ) : Prop :=
  keyOf (span text (symAt symbols b.left).start ((symAt symbols b.right).start - (symAt symbols b.left).start))
    (span text (symAt symbols b.right).start
      (b.size - ((symAt symbols b.right).start - (symAt symbols b.left).start))) = some b.key

/-- The bigram of two neighbours. -/
structure Waits (text : Str) (symbols : List Symbol) (i j : Nat) (k : κ) (b : Bigram κ) : Prop where
  left : b.left = i
  right : b.right = j
  key : b.key = k
  size : b.size = (symAt symbols i).n + (symAt symbols j).n
  str : b.text = (symAt symbols i).str text ++ (symAt symbols j).str text

/-- The invariant of the loop. -/
structure InOrder (text : Str) (Atom : Nat → Nat → Prop) (Joins : Str → Str → Prop)
    (keyOf : Str → Str → Option κ) (m : Merging κ) : Prop where
  merges : Merges text Atom Joins m
  keyed : ∀ b ∈ m.queue, Keyed text keyOf m.symbols b
  complete : ∀ i j k, Neighbours m.symbols i j →
    keyOf ((symAt m.symbols i).str text) ((symAt m.symbols j).str text) = some k →
    ∃ b ∈ m.queue, Waits text m.symbols i j k b

variable {text : Str} {Atom : Nat → Nat → Prop} {Joins : Str → Str → Prop} {symbols : List Symbol}
variable {keyOf : Str → Str → Option κ} {worse : κ → κ → Bool} {rank : κ → R}
variable {lookup : Symbol → Symbol → Option (κ × Str)} {fresh : Bigram κ → Symbol → Symbol → Bool}
variable {less : Bigram κ → Bigram κ → Bool} {m : Merging κ}

variable {b : Bigram κ} {rest : List (Bigram κ)}

lemma mem_addBigram {left right : Int} :
    b ∈ (addBigram lookup left right m).queue ↔ b ∈ m.queue ∨ (left ≠ -1 ∧ right ≠ -1 ∧
      ∃ k t, lookup (symAt m.symbols left.toNat) (symAt m.symbols right.toNat) = some (k, t) ∧
        b = ⟨left.toNat, right.toNat, k, t,
          (symAt m.symbols left.toNat).n + (symAt m.symbols right.toNat).n⟩) := by
  unfold addBigram
  split
  · rename_i hnone
    refine ⟨.inl, ?_⟩
    rintro (hb | ⟨hl, hr, -⟩)
    · exact hb
    · rcases hnone with heq | heq
      · exact absurd heq hl
      · exact absurd heq hr
  · rename_i hsome
    rw [not_or] at hsome
    cases hlook : lookup (symAt m.symbols left.toNat) (symAt m.symbols right.toNat) with
    | none => simp [hlook]
    | some kt =>
      obtain ⟨k, t⟩ := kt
      simp only [hlook, mem_cons]
      constructor
      · rintro (rfl | hb)
        · exact .inr ⟨hsome.1, hsome.2, k, t, rfl, rfl⟩
        · exact .inl hb
      · rintro (hb | ⟨-, -, k', t', heq, rfl⟩)
        · exact .inr hb
        · cases heq
          exact .inl rfl

section
variable (hs : Scans text keyOf worse rank lookup fresh less)
include hs

lemma keyed_addBigram {left right : Int} (hn : left ≠ -1 → right ≠ -1 → (symAt m.symbols right.toNat).start =
      (symAt m.symbols left.toNat).start + (symAt m.symbols left.toNat).n)
    (h : ∀ b ∈ m.queue, Keyed text keyOf m.symbols b) :
    ∀ b ∈ (addBigram lookup left right m).queue, Keyed text keyOf (addBigram lookup left right m).symbols b := by
  intro b hb
  rw [symbols_addBigram]
  rcases mem_addBigram.1 hb with hb | ⟨hl, hr, k, t, hlook, rfl⟩
  · exact h b hb
  · have hstart := hn hl hr
    rw [hs.lookup _ _ hstart] at hlook
    obtain ⟨k', hk, heq⟩ := Option.map_eq_some_iff.1 hlook
    cases heq
    simp only [Keyed]
    rw [show (symAt m.symbols right.toNat).start - (symAt m.symbols left.toNat).start =
      (symAt m.symbols left.toNat).n by omega, Nat.add_sub_cancel_left]
    exact hk

lemma waits_addBigram {left right : Nat} {k : κ}
    (hstart : (symAt m.symbols right).start = (symAt m.symbols left).start + (symAt m.symbols left).n)
    (hk : keyOf ((symAt m.symbols left).str text) ((symAt m.symbols right).str text) = some k) :
    ∃ b ∈ (addBigram lookup left right m).queue, Waits text m.symbols left right k b := by
  have hlook : lookup (symAt m.symbols (left : Int).toNat) (symAt m.symbols (right : Int).toNat) =
      some (k, (symAt m.symbols left).str text ++ (symAt m.symbols right).str text) := by
    rw [Int.toNat_natCast, Int.toNat_natCast, hs.lookup _ _ hstart, hk]
    rfl
  exact ⟨_, mem_addBigram.2 (.inr ⟨by omega, by omega, k, _, hlook, rfl⟩), rfl, rfl, rfl, rfl, rfl⟩

lemma InOrder.bestPair (h : InOrder text Atom Joins keyOf m) (hp : popTop less m.queue = some (b, rest))
    (hk : keyOf ((symAt m.symbols b.left).str text) ((symAt m.symbols b.right).str text) = some b.key)
    {pre post : List Nat} (heq : live m.symbols = pre ++ b.left :: b.right :: post) :
    bestPair keyOf worse (texts text m.symbols) = some (pre.length, b.key) := by
  have hisKey : ∀ b' ∈ m.queue, IsKey keyOf b'.key := fun b' hb' => ⟨_, _, h.keyed b' hb'⟩
  have hb := (mem_popTop hp).1
  have hmax : ∀ b' ∈ m.queue, place rank b' ≤ place rank b := by
    refine popTop_max ?_ hp
    intro y hy z hz
    rw [hs.less y z (hisKey y hy) (hisKey z hz), place, place, Prod.Lex.toLex_lt_toLex]
    exact Iff.rfl
  have hsorted := live_sorted m.symbols
  have hchain := h.merges.linked.isChain_live
  rw [heq] at hsorted hchain
  -- no pair of neighbours is better, and one further left is worse
  have hbeats : ∀ i j k', Neighbours m.symbols i j →
      keyOf ((symAt m.symbols i).str text) ((symAt m.symbols j).str text) = some k' →
      worse b.key k' = false ∧ (i < b.left → worse k' b.key = true) := by
    intro i j k' hn hk'
    obtain ⟨b', hb', hw⟩ := h.complete i j k' hn hk'
    have hle := hmax b' hb'
    rw [place, place, Prod.Lex.toLex_le_toLex, hw.key, hw.left] at hle
    rw [← Bool.not_eq_true, hs.worse _ _ (hisKey b hb) ⟨_, _, hk'⟩, hs.worse _ _ ⟨_, _, hk'⟩ (hisKey b hb), not_lt]
    rcases hle with hlt | ⟨hkey, hleft⟩
    · exact ⟨hlt.le, fun _ => hlt⟩
    · refine ⟨hkey.le, ?_⟩
      intro hi
      exact absurd hi (not_lt.2 (OrderDual.toDual_le_toDual.1 hleft))
  rw [texts, heq, map_append, map_cons, map_cons]
  have hlen : (pre.map fun i => (symAt m.symbols i).str text).length = pre.length := length_map _
  rw [← hlen]
  refine bestPair_eq hk ?_ ?_
  · have hfront : (pre ++ [b.left]).IsChain (Neighbours m.symbols) := by
      refine @List.IsChain.left_of_append _ _ _ (b.right :: post) ?_
      simpa using hchain
    have hlast : ∀ i ∈ pre ++ [b.left], i ≤ b.left := by
      intro i hi
      rcases mem_append.1 hi with hi | hi
      · exact ((pairwise_append.1 hsorted).2.2 i hi b.left mem_cons_self).le
      · exact (mem_singleton.1 hi).le
    have hmap := isChain_map (fun i => (symAt m.symbols i).str text) (l := pre ++ [b.left])
      (R := fun x y => ∀ k', keyOf x y = some k' → worse k' b.key = true)
    rw [map_append, map_singleton] at hmap
    apply hmap.2
    refine hfront.imp_of_mem_imp ?_
    intro i j _ hj hn k' hk'
    have hij := h.merges.linked.lt_neighbours hn
    exact (hbeats i j k' hn hk').2 (hij.trans_le (hlast j hj))
  · have hback : (b.right :: post).IsChain (Neighbours m.symbols) := by
      refine @List.IsChain.right_of_append _ _ (pre ++ [b.left]) _ ?_
      simpa using hchain
    have hmap := isChain_map (fun i => (symAt m.symbols i).str text) (l := b.right :: post)
      (R := fun x y => ∀ k', keyOf x y = some k' → worse b.key k' = false)
    rw [map_cons] at hmap
    apply hmap.2
    refine hback.imp ?_
    intro i j hn k' hk'
    exact (hbeats i j k' hn hk').1

lemma InOrder.skip (h : InOrder text Atom Joins keyOf m) (hp : popTop less m.queue = some (b, rest))
    (hold : (symAt m.symbols b.left).n = 0 ∨ (symAt m.symbols b.right).n = 0 ∨
      fresh b (symAt m.symbols b.left) (symAt m.symbols b.right) = false) :
    InOrder text Atom Joins keyOf { m with queue := rest } where
  merges := ⟨h.merges.linked, fun b' hb' => h.merges.queued b' ((mem_popTop hp).2 b' hb')⟩
  keyed := fun b' hb' => h.keyed b' ((mem_popTop hp).2 b' hb')
  complete := by
    intro i j k hn hk
    obtain ⟨b', hb', hw⟩ := h.complete i j k hn hk
    refine ⟨b', ?_, hw⟩
    rcases mem_rest_popTop hp b' hb' with rfl | hmem
    · have hf := hs.fresh b' (symAt m.symbols i) (symAt m.symbols j) hw.size hw.str
      rw [hw.left, hw.right, hf] at hold
      have h1 := hn.left_live
      have h2 := hn.right_live
      rcases hold with hzero | hzero | hfalse
      · exact absurd hzero h1.ne'
      · exact absurd hzero h2.ne'
      · cases hfalse
    · exact hmem

end

section
variable (hsound : Sound text Joins lookup fresh) (hs : Scans text keyOf worse rank lookup fresh less)
include hsound hs

/-- A merge step keeps the order of the symbols and the queue. -/
lemma InOrder.merge (h : InOrder text Atom Joins keyOf m)
    (hp : popTop less m.queue = some (b, rest)) (hn : Neighbours m.symbols b.left b.right)
    (hf : fresh b (symAt m.symbols b.left) (symAt m.symbols b.right) = true) :
    InOrder text Atom Joins keyOf (mergeStep lookup fresh b { m with queue := rest }) := by
  have hb := (mem_popTop hp).1
  obtain ⟨nl, nr, hqueued⟩ := h.merges.queued b hb
  have hlinked := h.merges.linked
  have merged := hlinked.merge hn (hqueued.neighbours hsound hlinked hn.left_live hn.right_live hf).2
  obtain ⟨hprev, hnext⟩ := hlinked.around hn merged
  have hsymAt := symAt_mergeSymbols hlinked hn
  have base : Merges text Atom Joins { m with queue := rest } :=
    ⟨hlinked, fun b' hb' => h.merges.queued b' ((mem_popTop hp).2 b' hb')⟩
  have merges := base.step hsound hqueued
  have hfresh : ¬ ((symAt m.symbols b.left).n = 0 ∨ (symAt m.symbols b.right).n = 0 ∨
      fresh b (symAt m.symbols b.left) (symAt m.symbols b.right) = false) := by
    rw [hf]
    rintro (hzero | hzero | hfalse)
    · exact absurd hzero hn.left_live.ne'
    · exact absurd hzero hn.right_live.ne'
    · cases hfalse
  simp only [mergeStep, if_neg hfresh] at merges ⊢
  refine ⟨merges, ?_, ?_⟩
  case refine_1 =>
    refine keyed_addBigram hs ?_ (keyed_addBigram hs ?_ ?_)
    · intro _ hx
      rw [symbols_addBigram]
      exact (hnext hx).2
    · intro hx _
      exact (hprev hx).2
    · intro b' hb'
      have hkeyed := h.keyed b' ((mem_popTop hp).2 b' hb')
      simp only [Keyed, hsymAt] at hkeyed ⊢
      exact hkeyed
  case refine_2 =>
    intro i j k hn' hk
    simp only [symbols_addBigram] at hn' hk ⊢
    have hi := hn'.left_live
    have hj := hn'.right_live
    by_cases hjl : j = b.left
    · -- the pair in front of the merged symbol
      subst hjl
      have heq : (symAt m.symbols b.left).prev = i := by
        obtain ⟨k', hk', -, prev, -⟩ := merged.next i hi (by rw [hn'.next]; omega)
        have hkj : k' = b.left := by
          have := hn'.next
          omega
        rw [hkj, hlinked.prev_merge hn] at prev
        exact prev
      obtain ⟨b', hb', hw⟩ := waits_addBigram (m := { m with
        symbols := mergeSymbols m.symbols b.left b.right, queue := rest }) hs hn'.start hk
      rw [← heq] at hb'
      exact ⟨b', mem_addBigram.2 (.inl hb'), hw⟩
    · by_cases hil : i = b.left
      · -- the pair behind the merged symbol
        subst hil
        have heq : (symAt m.symbols b.right).next = j := by
          rw [← hlinked.next_merge hn]
          exact hn'.next
        rw [heq]
        have hstart := hn'.start
        have hmem := @waits_addBigram _ _ _ _ _ _ _ lookup _ less (Tokenizer.addBigram lookup
          (symAt m.symbols b.left).prev b.left { m with
            symbols := mergeSymbols m.symbols b.left b.right, queue := rest }) hs b.left j k
        simp only [symbols_addBigram] at hmem
        exact hmem hstart hk
      · -- a pair that was there before
        have hir : i ≠ b.right := by
          rintro rfl
          rw [hsymAt] at hi
          simp [hil] at hi
        have hjr : j ≠ b.right := by
          rintro rfl
          rw [hsymAt] at hj
          simp [hjl] at hj
        have hn0 : Neighbours m.symbols i j := by
          obtain ⟨h1, h2, h3, h4⟩ := hn'
          simp only [hsymAt, hil, hir, hjl, hjr, if_false] at h1 h2 h3 h4
          exact ⟨h1, h2, h3, h4⟩
        simp only [hsymAt, Symbol.str, hil, hir, hjl, hjr, if_false] at hk
        obtain ⟨b', hb', hw⟩ := h.complete i j k hn0 hk
        refine ⟨b', mem_addBigram.2 (.inl (mem_addBigram.2 (.inl ?_))), ?_⟩
        · rcases mem_rest_popTop hp b' hb' with rfl | hmem
          · exact absurd hw.left.symm hil
          · exact hmem
        · refine ⟨hw.left, hw.right, hw.key, ?_, ?_⟩
          · simp only [hsymAt, hil, hir, hjl, hjr, if_false]
            exact hw.size
          · simp only [hsymAt, Symbol.str, hil, hir, hjl, hjr, if_false]
            exact hw.str

lemma InOrder.step (h : InOrder text Atom Joins keyOf m) (hp : popTop less m.queue = some (b, rest)) :
    InOrder text Atom Joins keyOf (mergeStep lookup fresh b { m with queue := rest }) ∧
      Relation.ReflTransGen (MergeStep keyOf worse (· ++ ·)) (texts text m.symbols)
        (texts text (mergeStep lookup fresh b { m with queue := rest }).symbols) := by
  by_cases hold : (symAt m.symbols b.left).n = 0 ∨ (symAt m.symbols b.right).n = 0 ∨
      fresh b (symAt m.symbols b.left) (symAt m.symbols b.right) = false
  · have hstep : mergeStep lookup fresh b { m with queue := rest } = { m with queue := rest } := by
      simp only [mergeStep, if_pos hold]
    rw [hstep]
    exact ⟨h.skip hs hp hold, .refl⟩
  · obtain ⟨hl, hr, hf⟩ := live_of_not_stale hold
    have hlinked := h.merges.linked
    have hb := (mem_popTop hp).1
    obtain ⟨nl, nr, hqueued⟩ := h.merges.queued b hb
    have hn := (hqueued.neighbours hsound hlinked hl hr hf).1
    have hsizes := hqueued.sizes hsound hlinked hl hr hf
    refine ⟨h.merge hsound hs hp hn hf, ?_⟩
    have hk : keyOf ((symAt m.symbols b.left).str text) ((symAt m.symbols b.right).str text) = some b.key := by
      have hkeyed := h.keyed b hb
      rw [Keyed, hn.start, Nat.add_sub_cancel_left, hqueued.size, ← hsizes.1, ← hsizes.2, Nat.add_sub_cancel_left,
        ← hn.start] at hkeyed
      exact hkeyed
    obtain ⟨pre, post, heq⟩ := hlinked.live_split hn
    have hstep : (mergeStep lookup fresh b { m with queue := rest }).symbols =
        mergeSymbols m.symbols b.left b.right := by
      simp only [mergeStep, if_neg hold, symbols_addBigram]
    rw [hstep, hlinked.texts_merge hn heq]
    exact .single (.mk (h.bestPair hs hp hk heq))

lemma InOrder.loop : ∀ {fuel : Nat} {m : Merging κ}, InOrder text Atom Joins keyOf m →
      InOrder text Atom Joins keyOf (mergeLoop lookup fresh less fuel m) ∧
        Relation.ReflTransGen (MergeStep keyOf worse (· ++ ·)) (texts text m.symbols)
          (texts text (mergeLoop lookup fresh less fuel m).symbols) := by
  intro fuel
  induction fuel with
  | zero =>
    intro m h
    exact ⟨h, .refl⟩
  | succ fuel ih =>
    intro m h
    rw [mergeLoop]
    cases hp : popTop less m.queue with
    | none => exact ⟨h, .refl⟩
    | some p =>
      obtain ⟨b, rest⟩ := p
      obtain ⟨hstep, hrun⟩ := h.step hsound hs hp
      obtain ⟨hloop, hrun'⟩ := ih hstep
      exact ⟨hloop, hrun.trans hrun'⟩

end

lemma InOrder.bestPair_none (h : InOrder text Atom Joins keyOf m) (hq : m.queue = []) :
    Lib.bestPair keyOf worse (texts text m.symbols) = none := by
  apply Lib.bestPair_none
  rw [texts, isChain_map]
  refine h.merges.linked.isChain_live.imp ?_
  intro i j hn
  cases hk : keyOf ((symAt m.symbols i).str text) ((symAt m.symbols j).str text) with
  | none => rfl
  | some k =>
    obtain ⟨b, hb, -⟩ := h.complete i j k hn hk
    rw [hq] at hb
    cases hb

lemma Row.inOrder (hsound : Sound text Joins lookup fresh) (hs : Scans text keyOf worse rank lookup fresh less)
    (h : Row text 0 0 symbols) : InOrder text (AtomOf symbols) Joins keyOf (Tokenizer.seed lookup symbols) := by
  obtain ⟨hmerges, hsymbols⟩ := h.seed hsound
  have hlinked := h.linked Joins
  -- along the fold, the pairs that were looked up wait
  suffices fold : ∀ (l : List Nat) (m : Merging κ), (∀ i ∈ l, 0 < i ∧ i < symbols.length) → m.symbols = symbols →
      (∀ b ∈ m.queue, Keyed text keyOf m.symbols b) →
      (∀ b ∈ (l.foldl (fun m (i : Nat) => addBigram lookup ((i : Int) - 1) i m) m).queue, Keyed text keyOf symbols b) ∧
      (∀ b ∈ m.queue, b ∈ (l.foldl (fun m (i : Nat) => addBigram lookup ((i : Int) - 1) i m) m).queue) ∧
      ∀ i k, i + 1 ∈ l → keyOf ((symAt symbols i).str text) ((symAt symbols (i + 1)).str text) = some k →
        ∃ b ∈ (l.foldl (fun m (i : Nat) => addBigram lookup ((i : Int) - 1) i m) m).queue,
          Waits text symbols i (i + 1) k b by
    obtain ⟨hkeyed, -, hwaits⟩ := fold (List.range' 1 (symbols.length - 1)) ⟨symbols, [], []⟩ (by
      intro i hi
      rw [mem_range'_1] at hi
      omega) rfl (fun b hb => by cases hb)
    refine ⟨hmerges, ?_, ?_⟩
    · rw [hsymbols]
      exact hkeyed
    · rw [hsymbols]
      intro i j k hn hk
      have hj := lt_of_live hn.right_live
      have hlt := hlinked.lt_neighbours hn
      have hji : j = i + 1 := by
        have h1 := ((h.get i (by omega)).2.2.2.1 (by omega)).1
        have h2 := hn.next
        omega
      subst hji
      exact hwaits i k (by rw [mem_range'_1]; omega) hk
  intro l
  induction l with
  | nil =>
    intro m _ hsym hkeyed
    refine ⟨by rw [← hsym]; exact hkeyed, fun b hb => hb, ?_⟩
    intro i k hi
    cases hi
  | cons j l ih =>
    intro m hl hsym hkeyed
    obtain ⟨hpos, hlt⟩ := hl j mem_cons_self
    obtain ⟨i, rfl⟩ : ∃ i, j = i + 1 := ⟨j - 1, by omega⟩
    have hindex : (((i + 1 : Nat) : Int) - 1) = (i : Int) := by omega
    have hstart := ((h.get i (by omega)).2.2.2.1 hlt).2
    have hkeyed' : ∀ b ∈ (addBigram lookup (((i + 1 : Nat) : Int) - 1) (i + 1 : Nat) m).queue,
        Keyed text keyOf (addBigram lookup (((i + 1 : Nat) : Int) - 1) (i + 1 : Nat) m).symbols b := by
      refine keyed_addBigram hs ?_ hkeyed
      intro _ _
      rw [hsym, hindex, Int.toNat_natCast, Int.toNat_natCast]
      exact hstart
    obtain ⟨hall, hkeep, hwaits⟩ := ih (addBigram lookup (((i + 1 : Nat) : Int) - 1) (i + 1 : Nat) m)
      (fun j hj => hl j (mem_cons_of_mem _ hj)) (by rw [symbols_addBigram]; exact hsym) hkeyed'
    refine ⟨hall, fun b hb => hkeep b (mem_addBigram.2 (.inl hb)), ?_⟩
    intro i' k hi' hk
    rcases mem_cons.1 hi' with heq | hi'
    · obtain rfl : i' = i := by omega
      have hw := @waits_addBigram _ _ _ _ _ _ _ _ _ less m hs i' (i' + 1) k
      rw [hsym] at hw
      obtain ⟨b, hb, hw⟩ := hw hstart hk
      rw [← hindex] at hb
      exact ⟨b, hkeep b hb, hw⟩
    · exact hwaits i' k hi' hk

lemma Row.texts (h : Row text 0 0 symbols) : texts text symbols = symbols.map (Symbol.str text) := by
  rw [← texts_eq]
  congr 1
  apply filter_eq_self.2
  intro s hs
  obtain ⟨i, hi, rfl⟩ := mem_iff_getElem.1 hs
  have hpos := (h.get i hi).2.1
  rw [symAt, getD_eq_getElem?_getD, getElem?_eq_getElem hi] at hpos
  exact decide_eq_true hpos

/-- The merge loop ends with the symbols of the plain algorithm. -/
theorem Row.texts_mergeAll (hsound : Sound text Joins lookup fresh)
    (hs : Scans text keyOf worse rank lookup fresh less) (h : Row text 0 0 symbols) :
    Tokenizer.texts text (Tokenizer.mergeAll lookup fresh less symbols).symbols =
      mergePairs keyOf worse (· ++ ·) (symbols.map (Symbol.str text)) := by
  have hstart := h.inOrder hsound hs
  obtain ⟨hend, hrun⟩ := @InOrder.loop _ _ _ _ _ _ _ _ _ _ _ _ hsound hs (3 * symbols.length) _ hstart
  rw [(h.seed hsound).2, h.texts] at hrun
  exact (MergeStep.mergePairs_eq hrun (hend.bestPair_none (h.queue_mergeAll hsound))).symm

end

section
variable {text : Str} {Atom : Nat → Nat → Prop} {Joins : Str → Str → Prop} {symbols : List Symbol}

lemma Linked.chain_eq (h : Linked text Atom Joins symbols) :
    ∀ {fuel i : Nat} {pre post : List Nat}, live symbols = pre ++ i :: post → post.length < fuel →
      chain symbols fuel i = (i :: post).map (symAt symbols) := by
  intro fuel
  induction fuel with
  | zero =>
    intro i pre post _ hlen
    exact absurd hlen (Nat.not_lt_zero _)
  | succ fuel ih =>
    intro i pre post heq hlen
    have hi : 0 < (symAt symbols i).n := mem_live.1 (by rw [heq]; simp)
    rw [chain, if_neg (by omega), Int.toNat_natCast, map_cons]
    congr 1
    cases post with
    | nil =>
      have hnext : (symAt symbols i).next = -1 := by
        by_contra hnext
        obtain ⟨k, hk, klive, -, kstart⟩ := h.next i hi hnext
        -- a symbol behind the last one would be live as well
        have hmem := mem_live.2 klive
        have hsorted := live_sorted symbols
        rw [heq] at hmem hsorted
        rcases mem_append.1 hmem with hmem | hmem
        · have hki := (pairwise_append.1 hsorted).2.2 k hmem i mem_cons_self
          have := h.mono k i klive hi hki
          omega
        · cases mem_singleton.1 hmem
          omega
      rw [hnext]
      cases fuel with
      | zero => rfl
      | succ fuel => rfl
    | cons j post =>
      have hchain := h.isChain_live
      rw [heq] at hchain
      have hn := isChain_iff_forall_rel_of_append_cons_cons.1 hchain rfl
      rw [hn.next]
      refine @ih _ (pre ++ [i]) _ ?_ ?_
      · rw [heq, append_assoc, singleton_append]
      · exact Nat.lt_of_succ_lt_succ hlen

lemma Linked.length_live (h : Linked text Atom Joins symbols) : (live symbols).length ≤ text.length := by
  have hsub : (live symbols).map (fun i => (symAt symbols i).start) ⊆ List.range text.length := by
    intro s hs
    obtain ⟨i, hi, rfl⟩ := mem_map.1 hs
    have hpos := mem_live.1 hi
    have := h.bound i hpos
    rw [mem_range]
    omega
  have hnodup : ((live symbols).map fun i => (symAt symbols i).start).Nodup := by
    refine List.Nodup.map_on ?_ ((live_sorted symbols).imp fun hlt => hlt.ne)
    intro i hi j hj heq
    exact h.inj (mem_live.1 hi) (mem_live.1 hj) heq
  have hle := (hnodup.subperm hsub).length_le
  rwa [length_map, length_range] at hle

lemma Linked.chain_texts (h : Linked text Atom Joins symbols) :
    (chain symbols text.length 0).map (Symbol.str text) = texts text symbols := by
  by_cases hne : text = []
  · subst hne
    have := h.length_live
    rw [texts, length_eq_zero_iff.1 (Nat.le_zero.1 this)]
    rfl
  · obtain ⟨pre, post, heq⟩ := append_of_mem (mem_live.2 (h.head hne).1)
    have hpre : pre = [] := by
      have hsorted := live_sorted symbols
      rw [heq] at hsorted
      cases pre with
      | nil => rfl
      | cons i pre =>
        exact absurd ((pairwise_append.1 hsorted).2.2 i mem_cons_self 0 mem_cons_self)
          (Nat.not_lt_zero i)
    subst hpre
    have hlen := h.length_live
    rw [heq, nil_append, length_cons] at hlen
    have hchain := h.chain_eq heq hlen
    rw [show ((0 : Nat) : Int) = 0 from rfl] at hchain
    rw [hchain, texts, heq, map_map]
    rfl

end

section
variable {F : Type}

def spmKey (v : Vocab F) (l r : Str) : Option F :=
  if textToToken v (l ++ r) = -1 then none
  else (v.idToToken[(textToToken v (l ++ r)).toNat]?).map TokenData.score

/-- The scores of a vocabulary are ordered, as a `std::priority_queue` needs it: none of them is a NaN. -/
structure OrderedScores {R : Type} [LinearOrder R] (a : Arith F) (v : Vocab F) (rank : F → R) : Prop where
  lt : ∀ d ∈ v.idToToken, ∀ d' ∈ v.idToToken, (a.lt d.score d'.score = true ↔ rank d.score < rank d'.score)
  eq : ∀ d ∈ v.idToToken, ∀ d' ∈ v.idToToken, (a.eq d.score d'.score = true ↔ rank d.score = rank d'.score)

lemma mem_of_spmKey {v : Vocab F} {k : F} (h : IsKey (spmKey v) k) : ∃ d ∈ v.idToToken, d.score = k := by
  obtain ⟨l, r, hk⟩ := h
  unfold spmKey at hk
  split at hk
  · cases hk
  · obtain ⟨d, hd, rfl⟩ := Option.map_eq_some_iff.1 hk
    exact ⟨d, mem_of_getElem? hd, rfl⟩

lemma spm_scans {R : Type} [LinearOrder R] {a : Arith F} {v : Vocab F} {rank : F → R}
    (h : OrderedScores a v rank) (text : Str) :
    Scans text (spmKey v) a.lt rank (spmLookup v text) spmFresh (spmLess a) where
  lookup := by
    intro l r hstart
    have hstr : span text l.start (l.n + r.n) = l.str text ++ r.str text := by
      rw [span_add, Symbol.str, Symbol.str, hstart]
    unfold spmLookup spmKey
    simp only [hstr]
    split
    · rfl
    · rw [Option.map_map]
      rfl
  fresh := by
    intro b l r hsize _
    rw [spmFresh, hsize]
    exact beq_self_eq_true _
  worse := by
    intro k k' hk hk'
    obtain ⟨d, hd, rfl⟩ := mem_of_spmKey hk
    obtain ⟨d', hd', rfl⟩ := mem_of_spmKey hk'
    exact h.lt d hd d' hd'
  less := by
    intro b b' hk hk'
    obtain ⟨d, hd, hscore⟩ := mem_of_spmKey hk
    obtain ⟨d', hd', hscore'⟩ := mem_of_spmKey hk'
    rw [spmLess, ← hscore, ← hscore', Bool.or_eq_true, Bool.and_eq_true, decide_eq_true_iff, h.lt d hd d' hd',
      h.eq d hd d' hd']

lemma bpe_scans (v : Vocab F) (word : Str) :
    Scans word v.bpeRanks (fun k k' => decide (k' < k)) OrderDual.toDual (bpeLookup v word) (bpeFresh word)
      bpeLess where
  lookup := fun _ _ _ => rfl
  fresh := by
    intro b l r _ htext
    rw [bpeFresh, htext]
    exact beq_self_eq_true _
  worse := by
    intro k k' _ _
    rw [decide_eq_true_iff]
    exact Iff.rfl
  less := by
    intro b b' _ _
    rw [bpeLess, Bool.or_eq_true, Bool.and_eq_true, decide_eq_true_iff, decide_eq_true_iff, beq_iff_eq]
    exact Iff.rfl

/-- Both sessions end with the symbols of the algorithm that scans all neighbours before each merge. -/
theorem mergeAll_scans (R : Type) [LinearOrder R] (a : Arith F) (v : Vocab F) (text : Str) :
    (∀ rank : F → R, OrderedScores a v rank →
      (chain (mergeAll (spmLookup v text) spmFresh (spmLess a) (splitSymbols text text.length 0 0)).symbols
          text.length 0).map (Symbol.str text) =
        mergePairs (spmKey v) a.lt (· ++ ·) ((splitSymbols text text.length 0 0).map (Symbol.str text))) ∧
    bpeWord v text =
      mergePairs v.bpeRanks (fun k k' => decide (k' < k)) (· ++ ·) ((wordSymbols v text).map (Symbol.str text)) := by
  constructor
  · intro rank h
    have row := @row_splitSymbols text text.length 0 0 (Nat.zero_le _) (by omega)
    rw [(row.mergeAll (spm_sound v text)).linked.chain_texts]
    exact row.texts_mergeAll (spm_sound v text) (spm_scans h text)
  · rw [bpeWord, texts_eq]
    exact (row_wordSymbols v text).texts_mergeAll (bpe_sound v text) (bpe_scans v text)

/-- The text `<s>` of the vocabulary `bosVocab` is one symbol in the end. -/
theorem mergeAll_scans_bos : (∀ d ∈ bosVocab.idToToken, ∀ d' ∈ bosVocab.idToToken,
      (wholeScores.lt d.score d'.score = true ↔ d.score < d'.score)) ∧
    (chain (mergeAll (spmLookup bosVocab [60, 115, 62]) spmFresh (spmLess wholeScores)
        (splitSymbols [60, 115, 62] 3 0 0)).symbols 3 0).map (Symbol.str [60, 115, 62]) =
      mergePairs (spmKey bosVocab) wholeScores.lt (· ++ ·) [[60], [115], [62]] := by
  have ordered : OrderedScores wholeScores bosVocab (id : Int → Int) :=
    ⟨fun _ _ _ _ => decide_eq_true_iff, fun _ _ _ _ => decide_eq_true_iff⟩
  exact ⟨ordered.lt, (mergeAll_scans Int wholeScores bosVocab [60, 115, 62]).1 id ordered⟩

end

end Mallana.Tokenizer
