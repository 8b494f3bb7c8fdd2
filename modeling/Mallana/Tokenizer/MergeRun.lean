import Mathlib.Data.Finset.Card
import Mathlib.Data.Finset.Range
import Mallana.Tokenizer.Merge

/-!
# Runs of the merge loop

The invariant of the merge loop, that the symbols a session begins with satisfy it, and that the loop has turns enough
to empty its queue.
-/

namespace Mallana.Tokenizer

open List

/-- The invariant of the merge loop. -/
structure Merges (text : Str) (Atom : Nat → Nat → Prop) (Joins : Str → Str → Prop) {κ : Type} (m : Merging κ) : Prop where
  linked : Linked text Atom Joins m.symbols
  queued : ∀ b ∈ m.queue, ∃ nl nr, Queued text Joins m.symbols b nl nr

variable {α : Type} {less : α → α → Bool} {text : Str} {symbols : List Symbol}

lemma popTop_none {xs : List α} (h : popTop less xs = none) : xs = [] := by
  cases xs with
  | nil => rfl
  | cons x xs =>
    rw [popTop] at h
    cases hp : popTop less xs with
    | none => simp [hp] at h
    | some p =>
      simp only [hp] at h
      split at h <;> cases h

lemma mem_popTop :
    ∀ {xs : List α} {x : α} {ys : List α}, popTop less xs = some (x, ys) → x ∈ xs ∧ ∀ y ∈ ys, y ∈ xs := by
  intro xs
  induction xs with
  | nil =>
    intro x ys h
    cases h
  | cons a as ih =>
    intro x ys h
    rw [popTop] at h
    cases hp : popTop less as with
    | none =>
      simp only [hp] at h
      cases h
      exact ⟨mem_cons_self, fun y hy => by cases hy⟩
    | some p =>
      obtain ⟨z, zs⟩ := p
      obtain ⟨hz, hzs⟩ := ih hp
      simp only [hp] at h
      split at h
      · cases h
        refine ⟨mem_cons_of_mem _ hz, ?_⟩
        intro y hy
        rcases mem_cons.1 hy with rfl | hy
        · exact mem_cons_self
        · exact mem_cons_of_mem _ (hzs y hy)
      · cases h
        exact ⟨mem_cons_self, fun y hy => mem_cons_of_mem _ hy⟩

/-- What the session does with two symbols is right for the spans they stand for. -/
structure Sound (text : Str) (Joins : Str → Str → Prop) {κ : Type} (lookup : Symbol → Symbol → Option (κ × Str))
    (fresh : Bigram κ → Symbol → Symbol → Bool) : Prop where
  lookup : ∀ l r key t, r.start = l.start + l.n → lookup l r = some (key, t) →
    Joins (l.str text) (r.str text) ∧ t = l.str text ++ r.str text
  fresh : ∀ b l r, fresh b l r = true → l.n + r.n = b.size ∨ l.str text ++ r.str text = b.text

section
variable {text : Str} {Atom : Nat → Nat → Prop} {Joins : Str → Str → Prop} {κ : Type}
variable {lookup : Symbol → Symbol → Option (κ × Str)} {fresh : Bigram κ → Symbol → Symbol → Bool}
variable {less : Bigram κ → Bigram κ → Bool} {m : Merging κ} {symbols : List Symbol}

lemma symbols_addBigram (left right : Int) : (addBigram lookup left right m).symbols = m.symbols := by
  simp only [addBigram]
  split
  · rfl
  · cases lookup (symAt m.symbols left.toNat) (symAt m.symbols right.toNat) <;> rfl

lemma Merges.addBigram (hs : Sound text Joins lookup fresh) (h : Merges text Atom Joins m) {left right : Int}
    (hn : left ≠ -1 → right ≠ -1 → 0 < (symAt m.symbols right.toNat).n ∧ (symAt m.symbols right.toNat).start =
        (symAt m.symbols left.toNat).start + (symAt m.symbols left.toNat).n) :
    Merges text Atom Joins (addBigram lookup left right m) := by
  refine ⟨by rw [symbols_addBigram]; exact h.linked, ?_⟩
  intro b hb
  rw [symbols_addBigram]
  unfold Tokenizer.addBigram at hb
  split at hb
  · exact h.queued b hb
  · rename_i hne
    obtain ⟨hright, hstart⟩ := hn (fun heq => hne (.inl heq)) (fun heq => hne (.inr heq))
    cases hl : lookup (symAt m.symbols left.toNat) (symAt m.symbols right.toNat) with
    | none =>
      simp only [hl] at hb
      exact h.queued b hb
    | some kt =>
      obtain ⟨key, t⟩ := kt
      simp only [hl] at hb
      rcases mem_cons.1 hb with rfl | hb
      · obtain ⟨hj, ht⟩ := hs.lookup _ _ _ _ hstart hl
        exact ⟨_, _, {
          size := rfl
          str := ht
          left_le := fun _ => le_refl _
          right_le := fun _ => le_refl _
          start := hstart
          room := h.linked.bound _ hright
          joins := hj }⟩
      · exact h.queued b hb

variable {b : Bigram κ} {nl nr left right : Nat}

section
variable (hb : Queued text Joins symbols b nl nr) (hs : Sound text Joins lookup fresh)
  (h : Linked text Atom Joins symbols) (hl : 0 < (symAt symbols b.left).n) (hr : 0 < (symAt symbols b.right).n)
  (hf : fresh b (symAt symbols b.left) (symAt symbols b.right) = true)
include hb hs h hl hr hf

lemma Queued.sizes :
    (symAt symbols b.left).n = nl ∧ (symAt symbols b.right).n = nr := by
  have h1 := hb.left_le hl
  have h2 := hb.right_le hr
  have sum : (symAt symbols b.left).n + (symAt symbols b.right).n = nl + nr := by
    rcases hs.fresh _ _ _ hf with hsize | htext
    · rw [hsize, hb.size]
    · have hlen := congrArg List.length htext
      have hroom := hb.room
      have hstart := hb.start
      rw [hb.str, length_append, length_append, Symbol.str, Symbol.str, length_span (h.bound _ hl),
        length_span (h.bound _ hr), length_span hroom, length_span (by omega)] at hlen
      exact hlen
  omega

lemma Queued.neighbours : Neighbours symbols b.left b.right ∧
      Joins ((symAt symbols b.left).str text) ((symAt symbols b.right).str text) := by
  obtain ⟨el, er⟩ := hb.sizes hs h hl hr hf
  have start : (symAt symbols b.right).start = (symAt symbols b.left).start + (symAt symbols b.left).n := by
    rw [el]
    exact hb.start
  refine ⟨⟨hl, hr, ?_, start⟩, ?_⟩
  · have hnext : (symAt symbols b.left).next ≠ -1 := by
      intro heq
      have h3 := h.last _ hl heq
      have h4 := h.bound _ hr
      omega
    obtain ⟨k, hk, klive, -, kstart⟩ := h.next _ hl hnext
    rw [hk, h.inj klive hr (by rw [kstart, start])]
  · rw [Symbol.str, Symbol.str, el, er]
    exact hb.joins

end

section
variable (h : Linked text Atom Joins symbols) (hn : Neighbours symbols left right)
include h hn

lemma Linked.prev_merge : (symAt (mergeSymbols symbols left right) left).prev = (symAt symbols left).prev := by
  rw [symAt_mergeSymbols h hn]
  by_cases hnext : (symAt symbols right).next = -1
  · exact if_neg (by omega)
  · obtain ⟨k, hk, kl, -⟩ := h.behind hn hnext
    exact if_neg (by omega)

lemma Linked.next_merge : (symAt (mergeSymbols symbols left right) left).next = (symAt symbols right).next := by
  rw [symAt_mergeSymbols h hn]
  exact if_pos rfl

lemma Linked.around (merged : Linked text Atom Joins (mergeSymbols symbols left right)) :
    ((symAt symbols left).prev ≠ -1 → 0 < (symAt (mergeSymbols symbols left right) left).n ∧
      (symAt (mergeSymbols symbols left right) left).start =
        (symAt (mergeSymbols symbols left right) (symAt symbols left).prev.toNat).start +
          (symAt (mergeSymbols symbols left right) (symAt symbols left).prev.toNat).n) ∧
    ((symAt symbols right).next ≠ -1 →
      0 < (symAt (mergeSymbols symbols left right) (symAt symbols right).next.toNat).n ∧
      (symAt (mergeSymbols symbols left right) (symAt symbols right).next.toNat).start =
        (symAt (mergeSymbols symbols left right) left).start + (symAt (mergeSymbols symbols left right) left).n) := by
  have hl := hn.left_live
  have live : 0 < (symAt (mergeSymbols symbols left right) left).n := by
    rw [symAt_mergeSymbols h hn]
    simp only [if_true]
    omega
  rw [← h.prev_merge hn, ← h.next_merge hn]
  constructor
  · intro hp
    obtain ⟨k, hk, klive, knext⟩ := merged.prev _ live hp
    obtain ⟨k', hk', -, -, start⟩ := merged.next k klive (by omega)
    have : k' = left := by omega
    rw [this] at start
    rw [hk, Int.toNat_natCast]
    exact ⟨live, start⟩
  · intro hx
    obtain ⟨k, hk, klive, -, start⟩ := merged.next _ live hx
    rw [hk, Int.toNat_natCast]
    exact ⟨klive, start⟩

end

lemma live_of_not_stale {symbols : List Symbol} {b : Bigram κ} (h : ¬ ((symAt symbols b.left).n = 0 ∨
    (symAt symbols b.right).n = 0 ∨ fresh b (symAt symbols b.left) (symAt symbols b.right) = false)) :
    0 < (symAt symbols b.left).n ∧ 0 < (symAt symbols b.right).n ∧
      fresh b (symAt symbols b.left) (symAt symbols b.right) = true := by
  simp only [not_or, Bool.not_eq_false] at h
  exact ⟨Nat.pos_of_ne_zero h.1, Nat.pos_of_ne_zero h.2.1, h.2.2⟩

lemma Merges.step (hs : Sound text Joins lookup fresh) (h : Merges text Atom Joins m) (hb : Queued text Joins m.symbols b nl nr) :
    Merges text Atom Joins (mergeStep lookup fresh b m) := by
  simp only [mergeStep]
  split
  · exact h
  · rename_i hlive
    obtain ⟨hl, hr, hf⟩ := live_of_not_stale hlive
    obtain ⟨hn, hj⟩ := hb.neighbours hs h.linked hl hr hf
    have merged := h.linked.merge hn hj
    obtain ⟨hprev, hnext⟩ := h.linked.around hn merged
    have base : Merges text Atom Joins { m with symbols := mergeSymbols m.symbols b.left b.right } := by
      refine ⟨merged, ?_⟩
      intro b' hb'
      obtain ⟨nl', nr', hq⟩ := h.queued b' hb'
      exact ⟨nl', nr', hq.merge h.linked hn⟩
    refine Merges.addBigram hs (Merges.addBigram hs base ?_) ?_
    · intro hp _
      exact hprev hp
    · intro _ hx
      rw [symbols_addBigram]
      exact hnext hx

lemma Merges.loop (hs : Sound text Joins lookup fresh) : ∀ {fuel : Nat} {m : Merging κ}, Merges text Atom Joins m →
      Merges text Atom Joins (mergeLoop lookup fresh less fuel m) := by
  intro fuel
  induction fuel with
  | zero =>
    intro m h
    exact h
  | succ fuel ih =>
    intro m h
    rw [mergeLoop]
    cases hp : popTop less m.queue with
    | none => exact h
    | some p =>
      obtain ⟨b, queue⟩ := p
      obtain ⟨hb, hq⟩ := mem_popTop hp
      obtain ⟨nl, nr, hqueued⟩ := h.queued b hb
      have base : Merges text Atom Joins { m with queue := queue } :=
        ⟨h.linked, fun b' hb' => h.queued b' (hq b' hb')⟩
      exact ih (base.step hs hqueued)

end

/-- Symbols in a row, the first of them at `offs` with the index `index`, the last one at the end of the text. -/
def Row (text : Str) : Nat → Nat → List Symbol → Prop
  | offs, _, [] => offs = text.length
  | offs, index, s :: rest =>
    s.prev = (index : Int) - 1 ∧ s.start = offs ∧ 0 < s.n ∧ offs + s.n ≤ text.length ∧
      s.next = (if rest = [] then -1 else (index : Int) + 1) ∧ Row text (offs + s.n) (index + 1) rest

lemma row_splitSymbols : ∀ {fuel offs index : Nat}, offs ≤ text.length → text.length ≤ offs + fuel →
      Row text offs index (splitSymbols text fuel offs index) := by
  intro fuel
  induction fuel with
  | zero =>
    intro offs index h1 h2
    exact le_antisymm h1 h2
  | succ fuel ih =>
    intro offs index h1 h2
    rw [splitSymbols]
    split
    · rename_i hlt
      have hpos := lenUtf8_pos (text.getD offs 0)
      have rest := @ih (offs + min (lenUtf8 (text.getD offs 0)) (text.length - offs)) (index + 1) (by omega) (by omega)
      refine ⟨rfl, rfl, by simp only; omega, by simp only; omega, ?_, rest⟩
      simp only
      -- the loop stops exactly at the end of the text
      cases hrest : splitSymbols text fuel (offs + min (lenUtf8 (text.getD offs 0)) (text.length - offs)) (index + 1) with
      | nil =>
        rw [hrest, Row] at rest
        rw [if_pos rest, if_pos rfl]
      | cons s ss =>
        rw [hrest] at rest
        obtain ⟨-, -, hn, hle, -⟩ := rest
        rw [if_neg (by omega), if_neg (by simp)]
    · exact le_antisymm h1 (by omega)

lemma symAt_cons_zero (s : Symbol) (ss : List Symbol) : symAt (s :: ss) 0 = s := rfl

lemma symAt_cons_succ (s : Symbol) (ss : List Symbol) (i : Nat) : symAt (s :: ss) (i + 1) = symAt ss i := rfl

lemma Row.get :
    ∀ {symbols : List Symbol} {offs index : Nat}, Row text offs index symbols → ∀ i, i < symbols.length →
      (symAt symbols i).prev = (index : Int) + i - 1 ∧ 0 < (symAt symbols i).n ∧
      (symAt symbols i).start + (symAt symbols i).n ≤ text.length ∧
      (i + 1 < symbols.length → (symAt symbols i).next = (index : Int) + i + 1 ∧
        (symAt symbols (i + 1)).start = (symAt symbols i).start + (symAt symbols i).n) ∧
      (i + 1 = symbols.length → (symAt symbols i).next = -1 ∧
        (symAt symbols i).start + (symAt symbols i).n = text.length) := by
  intro symbols
  induction symbols with
  | nil =>
    intro offs index _ i hi
    cases hi
  | cons s ss ih =>
    intro offs index h i hi
    obtain ⟨hprev, hstart, hpos, hle, hnext, hrest⟩ := h
    cases i with
    | zero =>
      simp only [symAt_cons_zero, symAt_cons_succ]
      refine ⟨by rw [hprev]; omega, hpos, by omega, ?_, ?_⟩
      · intro hlen
        cases ss with
        | nil => exact absurd hlen (by simp)
        | cons t ts =>
          rw [if_neg (by simp)] at hnext
          obtain ⟨-, hstart', -⟩ := hrest
          exact ⟨by omega, by rw [symAt_cons_zero, hstart', hstart]⟩
      · intro hlen
        cases ss with
        | nil =>
          rw [if_pos rfl] at hnext
          exact ⟨hnext, by rw [hstart]; exact hrest⟩
        | cons t ts => exact absurd hlen (by simp)
    | succ i =>
      simp only [symAt_cons_succ]
      obtain ⟨h1, h2, h3, h4, h5⟩ := ih hrest i (by simpa using hi)
      refine ⟨by omega, h2, h3, ?_, ?_⟩
      · intro hlen
        obtain ⟨ha, hb⟩ := h4 (by simpa using hlen)
        exact ⟨by omega, hb⟩
      · intro hlen
        exact h5 (by simpa using hlen)

def AtomOf (symbols : List Symbol) (s n : Nat) : Prop :=
  ∃ i < symbols.length, (symAt symbols i).start = s ∧ (symAt symbols i).n = n

/-- The symbols of the start are linked. -/
lemma Row.linked (h : Row text 0 0 symbols) (Joins : Str → Str → Prop) :
    Linked text (AtomOf symbols) Joins symbols := by
  have mono : ∀ i j, j < symbols.length → i < j → (symAt symbols i).start < (symAt symbols j).start := by
    intro i j
    induction j with
    | zero =>
      intro _ hlt
      cases hlt
    | succ j ih =>
      intro hj hlt
      obtain ⟨-, hpos, -, hnext, -⟩ := h.get j (by omega)
      have := (hnext hj).2
      rcases lt_or_ge i j with hlt' | hge
      · have := ih (by omega) hlt'
        omega
      · have : i = j := by omega
        subst this
        omega
  constructor
  case head =>
    intro hne
    cases symbols with
    | nil => exact absurd (length_eq_zero_iff.1 h.symm) hne
    | cons s ss =>
      obtain ⟨-, hstart, hpos, -⟩ := h
      exact ⟨hpos, hstart⟩
  case built =>
    intro i hi
    exact .atom ⟨i, lt_of_live hi, rfl, rfl⟩
  case bound =>
    intro i hi
    exact (h.get i (lt_of_live hi)).2.2.1
  case mono =>
    intro i j _ hj hlt
    exact mono i j (lt_of_live hj) hlt
  case next =>
    intro i hi hnext
    obtain ⟨-, -, -, hmid, hend⟩ := h.get i (lt_of_live hi)
    rcases lt_or_ge (i + 1) symbols.length with hlt | hge
    · obtain ⟨ha, hb⟩ := hmid hlt
      obtain ⟨hprev, hpos, -⟩ := h.get (i + 1) hlt
      exact ⟨i + 1, by omega, hpos, by omega, hb⟩
    · have := lt_of_live hi
      exact absurd (hend (by omega)).1 hnext
  case last =>
    intro i hi hnext
    obtain ⟨-, -, -, hmid, hend⟩ := h.get i (lt_of_live hi)
    rcases lt_or_ge (i + 1) symbols.length with hlt | hge
    · have := (hmid hlt).1
      omega
    · have := lt_of_live hi
      exact (hend (by omega)).2
  case prev =>
    intro i hi hprev
    have hlt := lt_of_live hi
    obtain ⟨hp, -⟩ := h.get i hlt
    cases i with
    | zero => exact absurd hp (by omega)
    | succ i =>
      obtain ⟨-, hpos, -, hmid, -⟩ := h.get i (by omega)
      have := (hmid hlt).1
      exact ⟨i, by omega, hpos, by omega⟩
  case first =>
    intro i hi hp
    obtain ⟨hprev, -⟩ := h.get i (lt_of_live hi)
    obtain rfl : i = 0 := by omega
    cases symbols with
    | nil => rfl
    | cons s ss => exact h.2.1

section
variable {text : Str} {Joins : Str → Str → Prop} {κ : Type} {symbols : List Symbol}
variable {lookup : Symbol → Symbol → Option (κ × Str)} {fresh : Bigram κ → Symbol → Symbol → Bool}
variable {less : Bigram κ → Bigram κ → Bool}

lemma Row.seed (hs : Sound text Joins lookup fresh) (h : Row text 0 0 symbols) :
    Merges text (AtomOf symbols) Joins (seed lookup symbols) ∧ (seed lookup symbols).symbols = symbols := by
  suffices fold : ∀ (l : List Nat) (m : Merging κ), (∀ i ∈ l, 0 < i ∧ i < symbols.length) →
      Merges text (AtomOf symbols) Joins m → m.symbols = symbols →
      Merges text (AtomOf symbols) Joins (l.foldl (fun m (i : Nat) => addBigram lookup ((i : Int) - 1) i m) m) ∧
        (l.foldl (fun m (i : Nat) => addBigram lookup ((i : Int) - 1) i m) m).symbols = symbols by
    refine fold _ _ ?_ ⟨h.linked Joins, fun b hb => by cases hb⟩ rfl
    intro i hi
    rw [mem_range'_1] at hi
    omega
  intro l
  induction l with
  | nil =>
    intro m _ hm hsym
    exact ⟨hm, hsym⟩
  | cons i l ih =>
    intro m hl hm hsym
    refine ih _ (fun j hj => hl j (mem_cons_of_mem _ hj)) ?_ (by rw [symbols_addBigram]; exact hsym)
    refine hm.addBigram hs ?_
    intro _ _
    obtain ⟨hpos, hlt⟩ := hl i mem_cons_self
    obtain ⟨j, rfl⟩ : ∃ j, i = j + 1 := ⟨i - 1, by omega⟩
    obtain ⟨-, -, -, hmid, -⟩ := h.get j (by omega)
    have htoNat : (((j + 1 : Nat) : Int) - 1).toNat = j := by omega
    rw [hsym, htoNat, Int.toNat_natCast]
    exact ⟨(h.get (j + 1) hlt).2.1, (hmid hlt).2⟩

/-- All that a session merges is built from the symbols it begins with. -/
theorem Row.mergeAll (hs : Sound text Joins lookup fresh) (h : Row text 0 0 symbols) :
    Merges text (AtomOf symbols) Joins (mergeAll lookup fresh less symbols) :=
  Merges.loop hs (h.seed hs).1

end

def liveSet (symbols : List Symbol) : Finset Nat :=
  (Finset.range symbols.length).filter fun i => 0 < (symAt symbols i).n

lemma mem_liveSet {i : Nat} : i ∈ liveSet symbols ↔ 0 < (symAt symbols i).n := by
  rw [liveSet, Finset.mem_filter, Finset.mem_range]
  exact ⟨fun h => h.2, fun h => ⟨lt_of_live h, h⟩⟩

lemma Linked.card_merge {Atom : Nat → Nat → Prop} {Joins : Str → Str → Prop}
    {left right : Nat} (h : Linked text Atom Joins symbols) (hn : Neighbours symbols left right) :
    (liveSet (mergeSymbols symbols left right)).card < (liveSet symbols).card := by
  apply Finset.card_lt_card
  rw [Finset.ssubset_iff_of_subset]
  · refine ⟨right, mem_liveSet.2 hn.right_live, ?_⟩
    intro hmem
    have hlive := mem_liveSet.1 hmem
    have hne : right ≠ left := by
      intro heq
      have h1 := hn.start
      have h2 := hn.left_live
      rw [heq] at h1
      omega
    rw [symAt_mergeSymbols h hn] at hlive
    simp [hne] at hlive
  · intro i hi
    have hlive := mem_liveSet.1 hi
    apply mem_liveSet.2
    rw [symAt_mergeSymbols h hn] at hlive
    simp only at hlive
    split at hlive
    · rename_i heq
      rw [heq]
      exact hn.left_live
    · split at hlive
      · exact absurd hlive (lt_irrefl 0)
      · exact hlive

lemma length_popTop :
    ∀ {xs : List α} {x : α} {ys : List α}, popTop less xs = some (x, ys) → xs.length = ys.length + 1 := by
  intro xs
  induction xs with
  | nil =>
    intro x ys h
    cases h
  | cons a as ih =>
    intro x ys h
    rw [popTop] at h
    cases hp : popTop less as with
    | none =>
      simp only [hp] at h
      cases h
      rw [popTop_none hp]
      rfl
    | some p =>
      obtain ⟨z, zs⟩ := p
      simp only [hp] at h
      split at h
      · cases h
        rw [length_cons, length_cons, ih hp]
      · cases h
        rfl

section
variable {text : Str} {Atom : Nat → Nat → Prop} {Joins : Str → Str → Prop} {κ : Type} {m : Merging κ}
variable {lookup : Symbol → Symbol → Option (κ × Str)} {fresh : Bigram κ → Symbol → Symbol → Bool}
variable {less : Bigram κ → Bigram κ → Bool}

lemma length_addBigram (left right : Int) : (addBigram lookup left right m).queue.length ≤ m.queue.length + 1 := by
  simp only [addBigram]
  split
  · omega
  · cases lookup (symAt m.symbols left.toNat) (symAt m.symbols right.toNat) with
    | none => exact Nat.le_succ _
    | some kt => exact le_refl _

/-- What is left to do: a turn for each bigram, and two more for each symbol that may yet be merged. -/
def work (m : Merging κ) : Nat := m.queue.length + 2 * (liveSet m.symbols).card

lemma Merges.work_step (hs : Sound text Joins lookup fresh) (h : Merges text Atom Joins m) {b : Bigram κ}
    {nl nr : Nat} (hb : Queued text Joins m.symbols b nl nr) : work (mergeStep lookup fresh b m) ≤ work m := by
  simp only [mergeStep]
  split
  · exact le_refl _
  · rename_i hlive
    obtain ⟨hl, hr, hf⟩ := live_of_not_stale hlive
    have card := h.linked.card_merge (hb.neighbours hs h.linked hl hr hf).1
    rw [work, work, symbols_addBigram, symbols_addBigram]
    have h1 := @length_addBigram κ (Tokenizer.addBigram lookup (symAt m.symbols b.left).prev b.left
      { m with symbols := mergeSymbols m.symbols b.left b.right }) lookup b.left (symAt m.symbols b.right).next
    have h2 := @length_addBigram κ { m with symbols := mergeSymbols m.symbols b.left b.right } lookup
      (symAt m.symbols b.left).prev b.left
    simp only at h1 h2 ⊢
    omega

lemma Merges.queue_loop (hs : Sound text Joins lookup fresh) :
    ∀ {fuel : Nat} {m : Merging κ}, Merges text Atom Joins m → work m ≤ fuel →
      (mergeLoop lookup fresh less fuel m).queue = [] := by
  intro fuel
  induction fuel with
  | zero =>
    intro m _ hw
    rw [mergeLoop]
    apply length_eq_zero_iff.1
    rw [work] at hw
    omega
  | succ fuel ih =>
    intro m h hw
    rw [mergeLoop]
    cases hp : popTop less m.queue with
    | none => exact popTop_none hp
    | some p =>
      obtain ⟨b, queue⟩ := p
      obtain ⟨hb, hq⟩ := mem_popTop hp
      obtain ⟨nl, nr, hqueued⟩ := h.queued b hb
      have base : Merges text Atom Joins { m with queue := queue } :=
        ⟨h.linked, fun b' hb' => h.queued b' (hq b' hb')⟩
      refine ih (base.step hs hqueued) ?_
      have hstep := base.work_step hs hqueued
      have hlen := length_popTop hp
      simp only [work] at hstep hw ⊢
      omega

lemma length_seed (symbols : List Symbol) : (seed lookup symbols).queue.length ≤ symbols.length - 1 := by
  suffices fold : ∀ (l : List Nat) (m : Merging κ),
      (l.foldl (fun m (i : Nat) => addBigram lookup ((i : Int) - 1) i m) m).queue.length ≤ m.queue.length + l.length by
    have := fold (List.range' 1 (symbols.length - 1)) ⟨symbols, [], []⟩
    rw [length_range'] at this
    simpa [seed] using this
  intro l
  induction l with
  | nil =>
    intro m
    exact le_refl _
  | cons i l ih =>
    intro m
    have h1 := ih (addBigram lookup ((i : Int) - 1) i m)
    have h2 := @length_addBigram κ m lookup ((i : Int) - 1) i
    simp only [foldl_cons, length_cons] at h1 ⊢
    omega

/-- The merge loop has turns enough. -/
theorem Row.queue_mergeAll {symbols : List Symbol} (hs : Sound text Joins lookup fresh) (h : Row text 0 0 symbols) :
    (Tokenizer.mergeAll lookup fresh less symbols).queue = [] := by
  apply Merges.queue_loop hs (h.seed hs).1
  have h1 := @length_seed κ lookup symbols
  have h2 : (liveSet symbols).card ≤ symbols.length := by
    have := Finset.card_filter_le (Finset.range symbols.length) fun i => 0 < (symAt symbols i).n
    rwa [Finset.card_range] at this
  rw [work, (h.seed hs).2]
  omega

end

section
variable {text : Str} {Atom : Nat → Nat → Prop} {Joins : Str → Str → Prop} {symbols : List Symbol}

lemma Linked.disjoint (h : Linked text Atom Joins symbols) :
    ∀ {j : Nat}, 0 < (symAt symbols j).n → ∀ i < j, 0 < (symAt symbols i).n →
      (symAt symbols i).start + (symAt symbols i).n ≤ (symAt symbols j).start := by
  -- by induction on where the later symbol starts, along its predecessors
  suffices main : ∀ s j, (symAt symbols j).start = s → 0 < (symAt symbols j).n → ∀ i < j, 0 < (symAt symbols i).n →
      (symAt symbols i).start + (symAt symbols i).n ≤ (symAt symbols j).start by
    intro j hj
    exact main _ j rfl hj
  intro s
  induction s using Nat.strong_induction_on with
  | _ s ih =>
    intro j hs hj i hij hi
    have hlt := h.mono i j hi hj hij
    have hprev : (symAt symbols j).prev ≠ -1 := by
      intro heq
      have := h.first j hj heq
      omega
    obtain ⟨k, -, hk, hnext⟩ := h.prev j hj hprev
    obtain ⟨k', hk', -, -, hstart⟩ := h.next k hk (by omega)
    obtain rfl : k' = j := by omega
    rcases lt_trichotomy i k with hik | rfl | hki
    · have := ih _ (by omega) k rfl hk i hik hi
      omega
    · omega
    · have := ih _ (by omega) i rfl hi k hki hk
      omega

def liveFrom (symbols : List Symbol) (i : Nat) : List Symbol :=
  ((List.range' i (symbols.length - i)).map (symAt symbols)).filter fun s => decide (0 < s.n)

lemma liveFrom_skip {i k : Nat} (hik : i ≤ k) (hk : k ≤ symbols.length)
    (h : ∀ j, i ≤ j → j < k → (symAt symbols j).n = 0) : liveFrom symbols i = liveFrom symbols k := by
  unfold liveFrom
  have hsplit : List.range' i (symbols.length - i) = List.range' i (k - i) ++ List.range' k (symbols.length - k) := by
    have h1 : symbols.length - i = (k - i) + (symbols.length - k) := by omega
    have h2 : k = i + (k - i) := by omega
    rw [h1, ← range'_append_1]
    congr 2
    omega
  rw [hsplit, map_append, filter_append]
  have hnone : ((List.range' i (k - i)).map (symAt symbols)).filter (fun s => decide (0 < s.n)) = [] := by
    apply filter_eq_nil_iff.2
    intro s hs
    obtain ⟨j, hj, rfl⟩ := mem_map.1 hs
    rw [mem_range'_1] at hj
    rw [h j hj.1 (by omega)]
    decide
  rw [hnone, nil_append]

lemma liveFrom_live {i : Nat} (h : 0 < (symAt symbols i).n) :
    liveFrom symbols i = symAt symbols i :: liveFrom symbols (i + 1) := by
  have hlt := lt_of_live h
  unfold liveFrom
  have hlen : symbols.length - i = (symbols.length - (i + 1)) + 1 := by omega
  rw [hlen, range'_succ, map_cons, filter_cons_of_pos (by simpa using h)]

lemma Linked.flatten_liveFrom (h : Linked text Atom Joins symbols) :
    ∀ {d i : Nat}, symbols.length - i ≤ d → 0 < (symAt symbols i).n →
      ((liveFrom symbols i).map (Symbol.str text)).flatten = text.drop (symAt symbols i).start := by
  intro d
  induction d with
  | zero =>
    intro i hd hi
    have := lt_of_live hi
    omega
  | succ d ih =>
    intro i hd hi
    have hlt := lt_of_live hi
    rw [liveFrom_live hi, map_cons, flatten_cons]
    have hdrop : text.drop (symAt symbols i).start =
        (symAt symbols i).str text ++ text.drop ((symAt symbols i).start + (symAt symbols i).n) := by
      rw [Symbol.str, span, ← drop_drop, take_append_drop]
    rw [hdrop]
    congr 1
    by_cases hnext : (symAt symbols i).next = -1
    · have hend := h.last i hi hnext
      have hnone : ∀ j, i + 1 ≤ j → j < symbols.length → (symAt symbols j).n = 0 := by
        intro j hij _
        by_contra hj
        have hj' := Nat.pos_of_ne_zero hj
        have h1 := h.disjoint hj' i (by omega) hi
        have h2 := h.bound j hj'
        omega
      rw [liveFrom_skip hlt (le_refl _) hnone, hend, drop_length]
      simp [liveFrom]
    · obtain ⟨k, -, hk, -, hstart⟩ := h.next i hi hnext
      have hik : i < k := by
        by_contra hge
        have hne : k ≠ i := by
          intro heq
          rw [heq] at hstart
          omega
        have := h.mono k i hk hi (by omega)
        omega
      have hnone : ∀ j, i + 1 ≤ j → j < k → (symAt symbols j).n = 0 := by
        intro j hij hjk
        by_contra hj
        have hj' := Nat.pos_of_ne_zero hj
        have h1 := h.disjoint hj' i (by omega) hi
        have h2 := h.mono j k hj' hk hjk
        omega
      rw [liveFrom_skip hik (le_of_lt (lt_of_live hk)) hnone, ih (by omega) hk, hstart]

lemma liveFrom_zero : liveFrom symbols 0 = symbols.filter fun s => decide (0 < s.n) := by
  unfold liveFrom
  congr 1
  apply ext_getElem
  · simp
  · intro i h1 h2
    simp only [getElem_map, getElem_range', zero_add, one_mul]
    rw [symAt, getD_eq_getElem?_getD, getElem?_eq_getElem h2]
    rfl

/-- Merging loses nothing. -/
theorem Linked.flatten_live (h : Linked text Atom Joins symbols) (hne : text ≠ []) :
    ((symbols.filter fun s => decide (0 < s.n)).map (Symbol.str text)).flatten = text := by
  obtain ⟨hlive, hstart⟩ := h.head hne
  rw [← liveFrom_zero, h.flatten_liveFrom (le_refl _) hlive, hstart, drop_zero]

end

end Mallana.Tokenizer
