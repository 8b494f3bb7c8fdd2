import Mathlib.Logic.Equiv.Basic
import Mathlib.Order.Lattice
import Mallana.Lib.Scan

/-!
# Sorting by exchanges

A selection sort that records its exchanges, so that they can be replayed on other memories later. `Selects` is the run
of the sort towards a sorted sequence: an entry that is in place already is skipped, and another one is fetched from
behind. `swapRows` exchanges two rows of a memory that is stored row by row, entry by entry.
-/

namespace Mallana.Lib

open List

section Memory
variable {α β : Type}

def swapAt (m : Nat → α) (a b : Nat) : Nat → α := fun x => if x = a then m b else if x = b then m a else m x

def replay (swaps : List (Nat × Nat)) (m : Nat → α) : Nat → α := swaps.foldl (fun m s => swapAt m s.1 s.2) m

variable {m : Nat → α} {a b x : Nat} {swaps : List (Nat × Nat)}

lemma swapAt_apply : swapAt m a b x = m (Equiv.swap a b x) := by
  rw [swapAt, Equiv.swap_apply_def]
  split_ifs <;> rfl

lemma swapAt_of_ne (ha : x ≠ a) (hb : x ≠ b) : swapAt m a b x = m x := by
  rw [swapAt_apply, Equiv.swap_apply_of_ne_of_ne ha hb]

lemma swapAt_left : swapAt m a b a = m b := by
  rw [swapAt_apply, Equiv.swap_apply_left]

lemma replay_cons (s : Nat × Nat) (swaps : List (Nat × Nat)) (m : Nat → α) :
    replay (s :: swaps) m = replay swaps (swapAt m s.1 s.2) := rfl

lemma replay_comp (f : α → β) (swaps : List (Nat × Nat)) (m : Nat → α) : replay swaps (f ∘ m) = f ∘ replay swaps m := by
  induction swaps generalizing m with
  | nil => rfl
  | cons s swaps ih =>
    have hstep : swapAt (f ∘ m) s.1 s.2 = f ∘ swapAt m s.1 s.2 := by
      funext x
      rw [Function.comp_apply, swapAt_apply, swapAt_apply, Function.comp_apply]
    rw [replay_cons, replay_cons, hstep, ih]

lemma replay_congr {n : Nat} (hswaps : ∀ s ∈ swaps, s.1 < n ∧ s.2 < n) {m m' : Nat → α} (h : ∀ k < n, m k = m' k) :
    ∀ k < n, replay swaps m k = replay swaps m' k := by
  induction swaps generalizing m m' with
  | nil => exact h
  | cons s swaps ih =>
    obtain ⟨⟨hi, hj⟩, hswaps⟩ := forall_mem_cons.1 hswaps
    refine ih hswaps fun k hk => ?_
    change (if k = s.1 then m s.2 else if k = s.2 then m s.1 else m k) = _
    rw [h _ hj, h _ hi, h k hk]
    rfl

end Memory

section Rows
variable {α : Type} {stride n r k : Nat}

/-- Rows `i` and `j` of a memory with rows of length `stride` are exchanged, entry by entry; the memory has `size`
entries, and there is no result if the exchange leaves it. -/
def swapRows (stride size : Nat) (m : Nat → α) (i j : Nat) : Option (Nat → α) :=
  (List.range stride).foldlM (fun m k =>
    if i * stride + k < size ∧ j * stride + k < size then some (swapAt m (i * stride + k) (j * stride + k)) else none) m

lemma row_inj {r r' k k' : Nat} (hk : k < stride) (hk' : k' < stride) (h : r * stride + k = r' * stride + k') :
    r = r' ∧ k = k' := by
  have hpos : 0 < stride := lt_of_le_of_lt (Nat.zero_le k) hk
  have hdiv : ∀ q c, c < stride → (q * stride + c) / stride = q := by
    intro q c hc
    rw [Nat.add_comm, Nat.add_mul_div_right _ _ hpos, Nat.div_eq_of_lt hc, Nat.zero_add]
  have hr : r = r' := by
    rw [← hdiv r k hk, ← hdiv r' k' hk', h]
  subst hr
  exact ⟨rfl, Nat.add_left_cancel h⟩

lemma row_lt {size : Nat} (hr : r < n) (hk : k < stride) (hsize : n * stride ≤ size) : r * stride + k < size := by
  have hle : (r + 1) * stride ≤ n * stride := Nat.mul_le_mul_right _ hr
  rw [Nat.succ_mul] at hle
  omega

variable {size i j x : Nat} {m m' : Nat → α}

lemma swapRows_isSome (hi : i < n) (hj : j < n) (hsize : n * stride ≤ size) : (swapRows stride size m i j).isSome := by
  suffices h : ∀ c ≤ stride, ∀ m : Nat → α, ((List.range c).foldlM (fun m k =>
      if i * stride + k < size ∧ j * stride + k < size then some (swapAt m (i * stride + k) (j * stride + k)) else none)
      m).isSome from h stride (le_refl _) m
  intro c
  induction c with
  | zero => exact fun _ _ => rfl
  | succ c ih =>
    intro hc m
    obtain ⟨m₁, hm₁⟩ := Option.isSome_iff_exists.1 (ih (Nat.le_of_succ_le hc) m)
    rw [range_succ, foldlM_append, hm₁]
    have hbound : i * stride + c < size ∧ j * stride + c < size := ⟨row_lt hi hc hsize, row_lt hj hc hsize⟩
    simp [hbound]

lemma swapRows_spec (hne : i ≠ j) (h : swapRows stride size m i j = some m') (r : Nat) {k : Nat} (hk : k < stride) :
    m' (r * stride + k) = m (Equiv.swap i j r * stride + k) := by
  have hscan := foldlM_scan (l := List.range stride) (P := fun pre d => ∀ r k, k < stride →
    d (r * stride + k) = if k ∈ pre then m (Equiv.swap i j r * stride + k) else m (r * stride + k)) ?_ ?_ h
  · rw [hscan r k hk, if_pos (mem_range.2 hk)]
  · intro r k _
    rw [if_neg not_mem_nil]
  · intro pre c post d d' hsplit hd hstep r k hk
    have hc : c < stride := mem_range.1 (hsplit ▸ mem_append_right _ mem_cons_self)
    split at hstep
    · cases hstep
      by_cases hkc : k = c
      · -- the entries of this step
        subst hkc
        have hfresh : k ∉ pre := by
          have hnodup : (List.range stride).Nodup := nodup_range
          rw [hsplit] at hnodup
          exact fun hmem => (nodup_append.1 hnodup).2.2 k hmem k mem_cons_self rfl
        rw [if_pos (mem_append_right _ (mem_singleton.2 rfl)), swapAt]
        by_cases hri : r = i
        · subst hri
          rw [if_pos rfl, hd j k hk, if_neg hfresh, Equiv.swap_apply_left]
        · rw [if_neg fun heq => hri (row_inj hk hk heq).1]
          by_cases hrj : r = j
          · subst hrj
            rw [if_pos rfl, hd i k hk, if_neg hfresh, Equiv.swap_apply_right]
          · rw [if_neg fun heq => hrj (row_inj hk hk heq).1, hd r k hk, if_neg hfresh,
              Equiv.swap_apply_of_ne_of_ne hri hrj]
      · have hmem : k ∈ pre ++ [c] ↔ k ∈ pre := by simp [hkc]
        rw [swapAt_of_ne (fun heq => hkc (row_inj hk hc heq).2) (fun heq => hkc (row_inj hk hc heq).2), hd r k hk]
        simp only [hmem]
    · cases hstep

lemma swapRows_untouched (h : swapRows stride size m i j = some m')
    (hx : ∀ k < stride, x ≠ i * stride + k ∧ x ≠ j * stride + k) : m' x = m x := by
  refine foldlM_scan (l := List.range stride) (P := fun _ d => d x = m x) rfl ?_ h
  intro pre c post d d' hsplit hd hstep
  have hc : c < stride := mem_range.1 (hsplit ▸ mem_append_right _ mem_cons_self)
  split at hstep
  · cases hstep
    rw [swapAt_of_ne (hx c hc).1 (hx c hc).2, hd]
  · cases hstep

def replayRows (stride size : Nat) (swaps : List (Nat × Nat)) (m : Nat → α) : Option (Nat → α) :=
  swaps.foldlM (fun m s => swapRows stride size m s.1 s.2) m

variable {swaps : List (Nat × Nat)}

lemma replayRows_cons (s : Nat × Nat) (swaps : List (Nat × Nat)) (m : Nat → α) :
    replayRows stride size (s :: swaps) m = (swapRows stride size m s.1 s.2).bind (replayRows stride size swaps) :=
  foldlM_cons

lemma replayRows_isSome (hswaps : ∀ s ∈ swaps, s.1 < n ∧ s.2 < n) (hsize : n * stride ≤ size) :
    (replayRows stride size swaps m).isSome := by
  induction swaps generalizing m with
  | nil => rfl
  | cons s swaps ih =>
    obtain ⟨⟨hi, hj⟩, hswaps⟩ := forall_mem_cons.1 hswaps
    obtain ⟨m₁, hm₁⟩ := Option.isSome_iff_exists.1 (swapRows_isSome hi hj hsize (m := m))
    rw [replayRows_cons, hm₁]
    exact ih hswaps

lemma replayRows_spec (hswaps : ∀ s ∈ swaps, s.1 ≠ s.2) (h : replayRows stride size swaps m = some m') (r : Nat) {k : Nat}
    (hk : k < stride) : m' (r * stride + k) = replay swaps (fun r => m (r * stride + k)) r := by
  induction swaps generalizing m with
  | nil =>
    cases h
    rfl
  | cons s swaps ih =>
    obtain ⟨hne, hswaps⟩ := forall_mem_cons.1 hswaps
    rw [replayRows_cons] at h
    obtain ⟨m₁, hm₁, h⟩ := Option.bind_eq_some_iff.1 h
    rw [ih hswaps h, replay_cons]
    congr 1
    funext q
    rw [swapRows_spec hne hm₁ q hk, swapAt_apply]

lemma replayRows_untouched (h : replayRows stride size swaps m = some m')
    (hx : ∀ s ∈ swaps, ∀ k < stride, x ≠ s.1 * stride + k ∧ x ≠ s.2 * stride + k) : m' x = m x := by
  induction swaps generalizing m with
  | nil =>
    cases h
    rfl
  | cons s swaps ih =>
    obtain ⟨hs, hswaps⟩ := forall_mem_cons.1 hx
    rw [replayRows_cons] at h
    obtain ⟨m₁, hm₁, h⟩ := Option.bind_eq_some_iff.1 h
    rw [ih h hswaps, swapRows_untouched hm₁ hs]

end Rows

section Runs
variable {α : Type}

/-- The exchanges from place `i` on that sort a memory into `s`. -/
inductive Selects (n : Nat) (s : Nat → α) : Nat → (Nat → α) → List (Nat × Nat) → Prop where
  | done {i m} : (∀ k < n, m k = s k) → Selects n s i m []
  | keep {i m swaps} : m i = s i → Selects n s (i + 1) m swaps → Selects n s i m swaps
  | swap {i j m swaps} : i < j → j < n → m j = s i → m i ≠ s i → Selects n s (i + 1) (swapAt m i j) swaps →
      Selects n s i m ((i, j) :: swaps)

/-- The memory has the entries of `s` below `n`, each once. -/
structure Arranges (n : Nat) (s m : Nat → α) : Prop where
  sound : ∀ k < n, ∃ l < n, m k = s l
  complete : ∀ l < n, ∃ k < n, m k = s l
  inj : ∀ k l, k < n → l < n → m k = m l → k = l

variable {n i j i0 : Nat} {s m : Nat → α} {swaps : List (Nat × Nat)}

lemma swap_lt (hi : i < n) (hj : j < n) {k : Nat} (hk : k < n) : Equiv.swap i j k < n := by
  rw [Equiv.swap_apply_def]
  split_ifs
  · exact hj
  · exact hi
  · exact hk

lemma Arranges.swapAt (ha : Arranges n s m) (hi : i < n) (hj : j < n) : Arranges n s (swapAt m i j) where
  sound := fun k hk => by
    rw [swapAt_apply]
    exact ha.sound _ (swap_lt hi hj hk)
  complete := fun l hl => by
    obtain ⟨k, hk, heq⟩ := ha.complete l hl
    refine ⟨Equiv.swap i j k, swap_lt hi hj hk, ?_⟩
    rw [swapAt_apply, Equiv.swap_apply_self, heq]
  inj := fun k l hk hl heq => by
    rw [swapAt_apply, swapAt_apply] at heq
    exact (Equiv.swap i j).injective (ha.inj _ _ (swap_lt hi hj hk) (swap_lt hi hj hl) heq)

section
variable (h : Selects n s i m swaps)
include h

lemma Selects.replay_eq (hfront : ∀ k < i, m k = s k) : ∀ k < n, replay swaps m k = s k := by
  induction h with
  | done hall => exact hall
  | @keep i m swaps hmi _ ih =>
    refine ih fun k hk => ?_
    rcases Nat.lt_succ_iff_lt_or_eq.1 hk with hk | rfl
    · exact hfront k hk
    · exact hmi
  | @swap i j m swaps hij _ hmj _ _ ih =>
    rw [replay_cons]
    refine ih fun k hk => ?_
    rcases Nat.lt_succ_iff_lt_or_eq.1 hk with hk | rfl
    · rw [swapAt_of_ne (ne_of_lt hk) (by omega)]
      exact hfront k hk
    · rw [swapAt_left, hmj]

lemma Selects.lt : ∀ e ∈ swaps, i ≤ e.1 ∧ e.1 < e.2 ∧ e.2 < n := by
  induction h with
  | done _ => exact fun _ he => absurd he not_mem_nil
  | keep _ _ ih => exact fun e he => ⟨Nat.le_of_succ_le (ih e he).1, (ih e he).2⟩
  | swap hij hjn _ _ _ ih =>
    refine forall_mem_cons.2 ⟨⟨le_refl _, hij, hjn⟩, fun e he => ?_⟩
    exact ⟨Nat.le_of_succ_le (ih e he).1, (ih e he).2⟩

lemma Selects.snd_le (hinj : ∀ k l, k < n → l < n → s k = s l → k = l) {last : Nat}
    (hback : ∀ k, last < k → k < n → m k = s k) : ∀ e ∈ swaps, e.2 ≤ last := by
  induction h with
  | done _ => exact fun _ he => absurd he not_mem_nil
  | keep _ _ ih => exact ih hback
  | @swap i j m swaps hij hjn hmj _ _ ih =>
    have hj : j ≤ last := by
      by_contra hlt
      have := hinj j i hjn (Nat.lt_trans hij hjn) ((hback j (Nat.lt_of_not_le hlt) hjn).symm.trans hmj)
      omega
    refine forall_mem_cons.2 ⟨hj, ih fun k hk hkn => ?_⟩
    rw [swapAt_of_ne (by omega) (by omega)]
    exact hback k hk hkn

lemma Selects.eq_nil (hall : ∀ k < n, m k = s k) : swaps = [] := by
  induction h with
  | done _ => rfl
  | keep _ _ ih => exact ih hall
  | swap hij hjn _ hmi _ _ => exact absurd (hall _ (lt_trans hij hjn)) hmi

lemma Selects.first (hi0 : i ≤ i0) (hn : i0 < n) (hbefore : ∀ k, i ≤ k → k < i0 → m k = s k)
    (hwrong : m i0 ≠ s i0) : ∃ j rest, swaps = (i0, j) :: rest ∧ i0 < j ∧ j < n ∧ m j = s i0 ∧ ∀ e ∈ rest, i0 < e.1 := by
  induction h with
  | done hall => exact absurd (hall i0 hn) hwrong
  | @keep i m swaps hmi _ ih =>
    rcases Nat.eq_or_lt_of_le hi0 with rfl | hlt
    · exact absurd hmi hwrong
    · exact ih hlt (fun k hk hk0 => hbefore k (Nat.le_of_succ_le hk) hk0) hwrong
  | @swap i j m swaps hij hjn hmj hmi hrest ih =>
    rcases Nat.eq_or_lt_of_le hi0 with rfl | hlt
    · exact ⟨j, swaps, rfl, hij, hjn, hmj, fun e he => (hrest.lt e he).1⟩
    · exact absurd (hbefore i (le_refl _) hlt) hmi

end

end Runs

section Select
variable {α : Type} [LinearOrder α]

/-- The first place of the smallest entry from `i` on, below `n`. -/
def minFrom (m : Nat → α) (i n : Nat) : Nat :=
  (List.range' (i + 1) (n - (i + 1))).foldl (fun jMin j => if m j < m jMin then j else jMin) i

/-- One step of the sort, for place `i`. -/
def selectStep (n : Nat) (st : (Nat → α) × List (Nat × Nat)) (i : Nat) : (Nat → α) × List (Nat × Nat) :=
  let jMin := minFrom st.1 i n
  if jMin = i then st else (swapAt st.1 i jMin, st.2 ++ [(i, jMin)])

def selectionSort (n : Nat) (m : Nat → α) : (Nat → α) × List (Nat × Nat) :=
  (List.range (n - 1)).foldl (selectStep n) (m, [])

variable {n i : Nat} {s m : Nat → α}

lemma minFrom_spec (hi : i < n) : i ≤ minFrom m i n ∧ minFrom m i n < n ∧ ∀ k, i ≤ k → k < n → m (minFrom m i n) ≤ m k := by
  have hscan := foldl_scan (l := List.range' (i + 1) (n - (i + 1))) (s := i)
    (f := fun jMin j => if m j < m jMin then j else jMin)
    (P := fun pre jMin => (jMin = i ∨ jMin ∈ pre) ∧ m jMin ≤ m i ∧ ∀ k ∈ pre, m jMin ≤ m k)
    ⟨.inl rfl, le_refl _, fun _ hk => absurd hk not_mem_nil⟩ ?_
  · obtain ⟨hplace, hfirst, hall⟩ := hscan
    refine ⟨?_, ?_, fun k hik hkn => ?_⟩
    · rcases hplace with heq | hmem
      · exact le_of_eq heq.symm
      · have := (mem_range'_1.1 hmem).1
        exact Nat.le_of_succ_le this
    · rcases hplace with heq | hmem
      · exact lt_of_le_of_lt (le_of_eq heq) hi
      · have := (mem_range'_1.1 hmem).2
        rw [minFrom]
        omega
    · rcases Nat.eq_or_lt_of_le hik with rfl | hlt
      · exact hfirst
      · exact hall k (mem_range'_1.2 ⟨hlt, by omega⟩)
  · intro pre x post jMin _ hp
    obtain ⟨hplace, hfirst, hall⟩ := hp
    split
    · rename_i hlt
      refine ⟨.inr (mem_append_right _ (mem_singleton.2 rfl)), (le_of_lt hlt).trans hfirst, fun k hk => ?_⟩
      rcases mem_append.1 hk with hk | hk
      · exact (le_of_lt hlt).trans (hall k hk)
      · rw [mem_singleton.1 hk]
    · rename_i hge
      refine ⟨hplace.imp_right (mem_append_left _), hfirst, fun k hk => ?_⟩
      rcases mem_append.1 hk with hk | hk
      · exact hall k hk
      · rw [mem_singleton.1 hk]
        exact not_lt.1 hge

section
variable (hs : ∀ k l, k < l → l < n → s k < s l)
include hs

lemma minFrom_eq (ha : Arranges n s m) (hfront : ∀ k < i, m k = s k) (hi : i < n) :
    m (minFrom m i n) = s i ∧ (m i = s i → minFrom m i n = i) := by
  obtain ⟨hge, hlt, hmin⟩ := minFrom_spec (m := m) hi
  -- what belongs at `i` is not in front
  obtain ⟨k, hk, hki⟩ := ha.complete i hi
  have hik : i ≤ k := by
    by_contra hnot
    have hlt' := Nat.lt_of_not_le hnot
    exact absurd ((hfront k hlt').symm.trans hki) (ne_of_lt (hs k i hlt' hi))
  -- and the smallest belongs at `i` or behind
  obtain ⟨l, hl, hml⟩ := ha.sound _ hlt
  have hil : i ≤ l := by
    by_contra hnot
    have hlt' := Nat.lt_of_not_le hnot
    have := ha.inj _ l hlt hl (hml.trans (hfront l hlt').symm)
    omega
  have hle : s l ≤ s i := by
    have := hmin k hik hk
    rwa [hml, hki] at this
  have hli : l = i := by
    rcases Nat.eq_or_lt_of_le hil with heq | hgt
    · exact heq.symm
    · exact absurd (hs i l hgt hl) (not_lt.2 hle)
  have hmi : m (minFrom m i n) = s i := by rw [hml, hli]
  exact ⟨hmi, fun heq => ha.inj _ _ hlt hi (hmi.trans heq.symm)⟩

lemma Arranges.eq_of_lt (ha : Arranges n s m) (hm : ∀ k l, k < l → l < n → m k < m l) : ∀ k < n, m k = s k := by
  intro k
  induction k using Nat.strong_induction_on with
  | _ k ih =>
    intro hk
    obtain ⟨hmin, -⟩ := minFrom_eq hs ha (fun l hl => ih l hl (lt_trans hl hk)) hk
    obtain ⟨hge, hlt, hle⟩ := minFrom_spec (m := m) hk
    rcases Nat.eq_or_lt_of_le hge with heq | hgt
    · rwa [← heq] at hmin
    · exact absurd (hm k _ hgt hlt) (not_lt.2 (hle k (le_refl _) hk))

/-- The exchanges of the loop are those of a selection sort. -/
lemma selects_foldl (c : Nat) (hc : i + c + 1 = n) (ha : Arranges n s m)
    (hfront : ∀ k < i, m k = s k) (acc : List (Nat × Nat)) : ∃ swaps, Selects n s i m swaps ∧
      (List.range' i c).foldl (selectStep n) (m, acc) = (replay swaps m, acc ++ swaps) := by
  induction c generalizing i m acc with
  | zero =>
    refine ⟨[], .done fun k hk => ?_, by rw [append_nil]; rfl⟩
    rcases lt_or_ge k i with hlt | hge
    · exact hfront k hlt
    · have hki : k = i := by omega
      subst hki
      have hmin := minFrom_eq hs ha hfront hk
      have hself : minFrom m k n = k := by
        rw [minFrom, show n - (k + 1) = 0 by omega]
        rfl
      rw [← hself]
      rw [hself] at hmin ⊢
      exact hmin.1
  | succ c ih =>
    have hi : i < n := by omega
    obtain ⟨hmin, hstay⟩ := minFrom_eq hs ha hfront hi
    obtain ⟨hge, hlt, -⟩ := minFrom_spec (m := m) hi
    rw [range'_succ, foldl_cons, selectStep]
    dsimp only
    by_cases hself : minFrom m i n = i
    · rw [if_pos hself]
      have hmi : m i = s i := by rwa [hself] at hmin
      have hfront' : ∀ k < i + 1, m k = s k := by
        intro k hk
        rcases Nat.lt_succ_iff_lt_or_eq.1 hk with hk | rfl
        · exact hfront k hk
        · exact hmi
      obtain ⟨swaps, hsel, hfold⟩ := ih (by omega) ha hfront' acc
      exact ⟨swaps, .keep hmi hsel, hfold⟩
    · rw [if_neg hself]
      have hij : i < minFrom m i n := lt_of_le_of_ne hge (Ne.symm hself)
      have hfront' : ∀ k < i + 1, swapAt m i (minFrom m i n) k = s k := by
        intro k hk
        rcases Nat.lt_succ_iff_lt_or_eq.1 hk with hk | rfl
        · rw [swapAt_of_ne (ne_of_lt hk) (by omega)]
          exact hfront k hk
        · rw [swapAt_left, hmin]
      obtain ⟨swaps, hsel, hfold⟩ := ih (by omega) (ha.swapAt hi hlt) hfront' (acc ++ [(i, minFrom m i n)])
      refine ⟨(i, minFrom m i n) :: swaps, .swap hij hlt hmin (fun hmi => hself (hstay hmi)) hsel, ?_⟩
      rw [hfold, replay_cons, append_assoc, singleton_append]

/-- The sort runs towards the sorted sequence of its entries. -/
theorem selectionSort_selects (ha : Arranges n s m) :
    Selects n s 0 m (selectionSort n m).2 ∧ (selectionSort n m).1 = replay (selectionSort n m).2 m := by
  cases n with
  | zero => exact ⟨.done fun _ hk => absurd hk (Nat.not_lt_zero _), rfl⟩
  | succ n =>
    obtain ⟨swaps, hsel, hfold⟩ := selects_foldl hs n (by omega) ha (fun _ hk => absurd hk (Nat.not_lt_zero _)) []
    rw [selectionSort, Nat.add_sub_cancel, range_eq_range', hfold]
    exact ⟨hsel, rfl⟩

end

end Select

end Mallana.Lib
