import Mathlib.Order.Interval.Finset.Nat
import Mallana.Recurrent.Slot

/-!
# Bringing the cells together

The second half of `find_slot`: the cells of the ubatch are exchanged until they are adjacent, the sequences are entered, and
the sources of the states are staged for the graph. `findSlot_spec` is what a call of `find_slot` does: it
succeeds without a failed assertion, keeps the invariant, and the rows that the graph copies make every
sequence find its own state in its cell.
-/

namespace Mallana

open Lib List Finset

namespace Recurrent

section Swap
variable {m : Recurrent} {D : Finset Nat} {a b i q t : Nat}

lemma tail_swapCells (m : Recurrent) (a b q : Nat) :
    (m.swapCells a b).tail q = (m.tail q).map (Equiv.swap a b) := rfl

lemma tail_swapCells_eq_some : (m.swapCells a b).tail q = some t ↔ m.tail q = some (Equiv.swap a b t) := by
  rw [tail_swapCells]
  cases ht : m.tail q with
  | none => simp
  | some t' =>
    rw [Option.map_some, Option.some.injEq, Option.some.injEq]
    constructor
    · rintro rfl
      rw [Equiv.swap_apply_self]
    · rintro rfl
      rw [Equiv.swap_apply_self]

lemma swap_lt {size : Nat} (ha : a < size) (hb : b < size) : Equiv.swap a b i < size ↔ i < size := by
  rw [Equiv.swap_apply_def]
  split
  · omega
  · split <;> omega

lemma free_swapCells : (m.swapCells a b).Free i ↔ m.Free (Equiv.swap a b i) := by
  unfold Free
  refine forall₂_congr fun s _ => ?_
  rw [Ne, tail_swapCells_eq_some]

lemma Mid.swapCells (h : m.Mid D) (ha : a < m.size) (hb : b < m.size) : (m.swapCells a b).Mid D where
  lt := h.lt
  bound i hi s hs := by
    obtain ⟨hlt, ht⟩ := h.bound _ ((swap_lt ha hb).2 hi) s hs
    exact ⟨hlt, tail_swapCells_eq_some.2 ht⟩
  tail s hs t ht := by
    obtain ⟨hlt, hmem⟩ := h.tail s hs _ (tail_swapCells_eq_some.1 ht)
    exact ⟨(swap_lt ha hb).1 hlt, hmem⟩
  own s hs := by
    obtain ⟨t, ht, hown⟩ := h.own s hs
    refine ⟨Equiv.swap a b t, ?_, fun q hq htq => ?_⟩
    · rw [tail_swapCells, ht]
      rfl
    · rw [tail_swapCells_eq_some, Equiv.swap_apply_self] at htq
      exact hown q hq htq
  free i hi hf := h.free _ ((swap_lt ha hb).2 hi) (free_swapCells.1 hf)

lemma held_swapCells (m : Recurrent) (a b q : Nat) : (m.swapCells a b).held q = m.held q := by
  unfold held
  rw [tail_swapCells]
  cases m.tail q with
  | none => rfl
  | some t =>
    rw [Option.map_some, Option.map_some, Option.map_some]
    show some ((m.cells (Equiv.swap a b (Equiv.swap a b t))).pos,
      (m.cells (Equiv.swap a b (Equiv.swap a b t))).src) = _
    rw [Equiv.swap_apply_self]

lemma carries_swapCells (ha : a < m.size) (hb : b < m.size) : Carries m (m.swapCells a b) where
  size := rfl
  blank _ hblank _ hi hf := hblank _ ((swap_lt ha hb).2 hi) (free_swapCells.1 hf)
  seqVal rows _ q _ := seqVal_of_held (held_swapCells m a b q) rows

end Swap

/-- The first `k` blocks are in their places between `lo` and `hi`; the cells elsewhere keep to their rows. -/
structure Gathered (m : Recurrent) (u : SlotUbatch) (lo hi k : Nat) (m' : Recurrent) : Prop where
  mid : m'.Mid ((Finset.range u.nSeqs).image u.first)
  carries : Carries m m'
  held : ∀ q < m.size, q ∉ (Finset.range u.nSeqs).image u.first → m'.held q = m.held q
  outside : ∀ i < m.size, ¬ (lo ≤ i ∧ i ≤ hi) →
    (m'.cells i).src = some i ∨ ((m'.cells i).src = none ∧ m'.Free i)
  range : ∀ s < u.nSeqs, ∃ t, m'.tail (u.first s) = some t ∧ lo ≤ t ∧ t ≤ hi
  done : ∀ s < k, m'.tail (u.first s) = some (s + lo)

section Gather
variable {m m' : Recurrent} {u : SlotUbatch} {x : Search} {lo hi k : Nat}

lemma Found.gathered (h : Found m u u.nSeqs x) : Gathered m u x.min x.max 0 x.mem where
  mid := h.mid
  carries := h.carries
  held := h.held
  outside i hi hout := by
    refine h.home i (by rw [h.carries.size]; exact hi) fun q hq ht => ?_
    obtain ⟨s, hs, rfl⟩ := mem_image.1 hq
    obtain ⟨t, ht', hmin, hmax⟩ := h.range s (Finset.mem_range.1 hs)
    rw [ht] at ht'
    cases ht'
    exact hout ⟨hmin, hmax⟩
  range := h.range
  done s hs := absurd hs (Nat.not_lt_zero s)

lemma Gathered.fits (h : Gathered m u lo hi k m') (hu : Fits m.size u) : u.nSeqs ≤ hi + 1 - lo := by
  have hsub : ((Finset.range u.nSeqs).image fun s => (m'.tail (u.first s)).getD 0) ⊆
      Finset.Ico lo (hi + 1) := by
    intro t ht
    obtain ⟨s, hs, rfl⟩ := mem_image.1 ht
    obtain ⟨t, ht, h1, h2⟩ := h.range s (Finset.mem_range.1 hs)
    rw [ht, mem_Ico]
    exact ⟨h1, Nat.lt_succ_of_le h2⟩
  have hinj : Set.InjOn (fun s => (m'.tail (u.first s)).getD 0) (Finset.range u.nSeqs : Set Nat) := by
    intro s hs s' hs' heq
    rw [mem_coe, Finset.mem_range] at hs hs'
    obtain ⟨t, ht, hown⟩ := h.mid.own (u.first s)
      (mem_image.2 ⟨s, Finset.mem_range.2 hs, rfl⟩)
    obtain ⟨t', ht', -⟩ := h.range s' hs'
    simp only [ht, ht', Option.getD_some] at heq
    subst heq
    by_contra hne
    refine hu.first_ne hs' hs (fun h => hne h.symm) (hown _ ?_ ht')
    rw [h.carries.size]
    exact hu.first_lt hs'
  have hcard := card_le_card hsub
  rw [card_image_of_injOn hinj, card_range, Nat.card_Ico] at hcard
  exact hcard

/-- One block is exchanged to its place. -/
lemma Gathered.step (h : Gathered m u lo hi k m') (hu : Fits m.size u) (hk : k < u.nSeqs)
    (hhi : hi < m.size) : Gathered m u lo hi (k + 1) (gather u lo m' k) := by
  have hfit := h.fits hu
  have hsize := h.carries.size
  obtain ⟨t, ht, hlo, hthi⟩ := h.range k hk
  unfold gather
  rw [ht]
  dsimp only [Option.getD_some]
  by_cases hdst : k + lo = t
  · rw [if_neg (not_not.2 hdst)]
    refine ⟨h.mid, h.carries, h.held, h.outside, h.range, fun s hs => ?_⟩
    obtain hlt | rfl := lt_or_eq_of_le (Nat.le_of_lt_succ hs)
    · exact h.done s hlt
    · rw [hdst]
      exact ht
  · rw [if_pos hdst]
    have ha : k + lo < m'.size := by omega
    have hb : t < m'.size := by omega
    refine ⟨h.mid.swapCells ha hb, h.carries.trans (carries_swapCells ha hb), ?_, ?_, ?_, ?_⟩
    · intro q hq hno
      rw [held_swapCells]
      exact h.held q hq hno
    · intro i hi hout
      have hfix : Equiv.swap (k + lo) t i = i := Equiv.swap_apply_of_ne_of_ne (by omega) (by omega)
      rw [free_swapCells, hfix]
      show (m'.cells (Equiv.swap (k + lo) t i)).src = some i ∨
        ((m'.cells (Equiv.swap (k + lo) t i)).src = none ∧ _)
      rw [hfix]
      exact h.outside i hi hout
    · intro s hs
      obtain ⟨t', ht', h1, h2⟩ := h.range s hs
      refine ⟨Equiv.swap (k + lo) t t', by rw [tail_swapCells, ht']; rfl, ?_⟩
      rw [Equiv.swap_apply_def]
      split
      · omega
      · split <;> omega
    · intro s hs
      rw [tail_swapCells]
      obtain hlt | rfl := lt_or_eq_of_le (Nat.le_of_lt_succ hs)
      · -- the blocks before stay in their places
        rw [h.done s hlt, Option.map_some, Equiv.swap_apply_of_ne_of_ne (by omega)]
        rintro rfl
        obtain ⟨t', ht', hown⟩ := h.mid.own (u.first k)
          (mem_image.2 ⟨k, Finset.mem_range.2 hk, rfl⟩)
        rw [ht] at ht'
        cases ht'
        refine hu.first_ne (by omega) hk (by omega) (hown _ ?_ (h.done s hlt))
        rw [hsize]
        exact hu.first_lt (by omega)
      · rw [ht, Option.map_some, Equiv.swap_apply_right]

lemma Gathered.run (h : Gathered m u lo hi 0 m') (hu : Fits m.size u) (hhi : hi < m.size) (hk : k ≤ u.nSeqs) :
    Gathered m u lo hi k ((List.range k).foldl (gather u lo) m') := by
  induction k with
  | zero => exact h
  | succ k ih =>
    rw [range_succ, foldl_append, foldl_cons, foldl_nil]
    exact (ih (by omega)).step hu (by omega) hhi

end Gather

section Enter
variable {m : Recurrent} {i : Nat} {ids : List Int}

lemma size_enters (i : Nat) (ids : List Int) (m : Recurrent) : (ids.foldl (enter i) m).size = m.size := by
  induction ids generalizing m with
  | nil => rfl
  | cons id ids ih => exact ih (enter i m id)

lemma tail_enters (i : Nat) (ids : List Int) (m : Recurrent) (q : Nat) :
    (ids.foldl (enter i) m).tail q = if ∃ id ∈ ids, id.toNat = q then some i else m.tail q := by
  induction ids generalizing m with
  | nil => simp
  | cons id ids ih =>
    rw [foldl_cons, ih, tail_enter]
    by_cases hrest : ∃ id' ∈ ids, id'.toNat = q
    · obtain ⟨id', hid', heq⟩ := hrest
      rw [if_pos ⟨id', hid', heq⟩, if_pos ⟨id', List.mem_cons_of_mem _ hid', heq⟩]
    · rw [if_neg hrest]
      by_cases hq : q = id.toNat
      · rw [if_pos hq, if_pos ⟨id, List.mem_cons_self, hq.symm⟩]
      · rw [if_neg hq, if_neg]
        rintro ⟨id', hid', heq⟩
        obtain rfl | hid' := List.mem_cons.1 hid'
        · exact hq heq.symm
        · exact hrest ⟨id', hid', heq⟩

lemma mem_seqId_enters (i : Nat) (ids : List Int) (m : Recurrent) (j q : Nat) :
    q ∈ ((ids.foldl (enter i) m).cells j).seqId ↔
      q ∈ (m.cells j).seqId ∨ (j = i ∧ ∃ id ∈ ids, id.toNat = q) := by
  induction ids generalizing m with
  | nil => simp
  | cons id ids ih =>
    rw [foldl_cons, ih, seqId_enter]
    by_cases hj : j = i
    · rw [if_pos hj, mem_insert]
      simp only [hj, true_and, List.mem_cons, exists_eq_or_imp]
      rw [eq_comm (a := q), or_assoc, or_left_comm]
    · rw [if_neg hj]
      simp [hj]

lemma field_enters {α : Type} (g : MemCell → α) (hset : ∀ c x, g { c with seqId := x } = g c)
    (htail : ∀ c x, g { c with tail := x } = g c) (i : Nat) (ids : List Int) (m : Recurrent) (j : Nat) :
    g ((ids.foldl (enter i) m).cells j) = g (m.cells j) := by
  induction ids generalizing m with
  | nil => rfl
  | cons id ids ih =>
    rw [foldl_cons, ih]
    exact field_enter g hset htail i m id j

end Enter

/-- The ids of a ubatch that are not the first of their block. -/
def Later (u : SlotUbatch) (q : Nat) : Prop := ∃ s < u.nSeqs, ∃ id ∈ (u.ids s).tail, id.toNat = q

def InBatch (u : SlotUbatch) (q : Nat) : Prop := ∃ s < u.nSeqs, ∃ id ∈ u.ids s, id.toNat = q

/-- The first `k` blocks are entered. -/
structure Entered (m : Recurrent) (u : SlotUbatch) (lo k : Nat) (m' : Recurrent) : Prop where
  size : m'.size = m.size
  mid : m'.Mid ((Finset.Ico k u.nSeqs).image u.first)
  src : ∀ i, (m'.cells i).src = (m.cells i).src
  free : ∀ i, m'.Free i ↔ m.Free i
  done : ∀ s < k, ∀ id ∈ u.ids s, m'.tail id.toNat = some (s + lo)
  pos : ∀ s < k, (m'.cells (s + lo)).pos = u.lastPos s
  todo : ∀ s, k ≤ s → s < u.nSeqs → m'.tail (u.first s) = some (s + lo) ∧
    ∀ id ∈ (u.ids s).tail, m'.tail id.toNat = none
  tail : ∀ q, ¬ InBatch u q → m'.tail q = m.tail q
  rest : ∀ i, (∀ s < k, i ≠ s + lo) → (m'.cells i).pos = (m.cells i).pos

section Place
variable {m m' : Recurrent} {u : SlotUbatch} {lo hi k : Nat}

lemma Gathered.entered {m₀ : Recurrent} (h : Gathered m₀ u lo hi u.nSeqs m)
    (hlater : ∀ q, Later u q → m.tail q = none) : Entered m u lo 0 m where
  size := rfl
  mid := by
    rw [← range_eq_Ico]
    exact h.mid
  src _ := rfl
  free _ := Iff.rfl
  done s hs := absurd hs (Nat.not_lt_zero s)
  pos s hs := absurd hs (Nat.not_lt_zero s)
  todo s _ hs := ⟨h.done s hs, fun id hid => hlater _ ⟨s, hs, id, hid, rfl⟩⟩
  tail _ _ := rfl
  rest _ _ := rfl

lemma size_place (u : SlotUbatch) (lo : Nat) (m : Recurrent) (k : Nat) : (place u lo m k).size = m.size :=
  size_enters ..

lemma tail_place (q : Nat) :
    (place u lo m k).tail q = if ∃ id ∈ u.ids k, id.toNat = q then some (k + lo) else m.tail q := by
  unfold place
  rw [tail_enters]
  have hsame : (m.modify (k + lo) fun c => { c with pos := u.lastPos k, seqId := ∅ }).tail q = m.tail q :=
    modify_field MemCell.tail (by intro; rfl) q
  rw [hsame]

lemma mem_seqId_place (j q : Nat) : q ∈ ((place u lo m k).cells j).seqId ↔
    (j ≠ k + lo ∧ q ∈ (m.cells j).seqId) ∨ (j = k + lo ∧ ∃ id ∈ u.ids k, id.toNat = q) := by
  unfold place
  rw [mem_seqId_enters]
  by_cases hj : j = k + lo
  · subst hj
    rw [modify_self]
    simp
  · rw [modify_of_ne hj]
    simp [hj]

lemma pos_place (j : Nat) :
    ((place u lo m k).cells j).pos = if j = k + lo then u.lastPos k else (m.cells j).pos := by
  unfold place
  rw [field_enters MemCell.pos (fun _ _ => rfl) (fun _ _ => rfl)]
  by_cases hj : j = k + lo
  · subst hj
    rw [modify_self, if_pos rfl]
  · rw [modify_of_ne hj, if_neg hj]

lemma src_place (j : Nat) : ((place u lo m k).cells j).src = (m.cells j).src := by
  unfold place
  rw [field_enters MemCell.src (fun _ _ => rfl) (fun _ _ => rfl)]
  exact modify_field MemCell.src (by intro; rfl) j

/-- The blocks have no id in common. -/
lemma Fits.not_block {size s : Nat} {id : Int} (hu : Fits size u) (hs : s < u.nSeqs) (hk : k < u.nSeqs) (hne : s ≠ k)
    (hid : id ∈ u.ids s) : ¬ ∃ id' ∈ u.ids k, id'.toNat = id.toNat := by
  rintro ⟨id', hid', heq⟩
  exact hne (hu.disjoint hs hk hid hid' heq.symm)

lemma Fits.first_not_block {size s : Nat} (hu : Fits size u) (hs : s < u.nSeqs) (hk : k < u.nSeqs) (hne : s ≠ k) :
    ¬ ∃ id ∈ u.ids k, id.toNat = u.first s := by
  obtain ⟨id, hid, hidf⟩ := hu.first_mem hs
  rw [← hidf]
  exact hu.not_block hs hk hne hid

section
variable (h : Entered m u lo k m') (hu : Fits m.size u) (hk : k < u.nSeqs)
include h hu hk

lemma Entered.first_lt : u.first k < m'.size := by
  rw [h.size]
  exact hu.first_lt hk

/-- The ids of the next block have its cell, or none. -/
lemma Entered.old {q : Nat} (hin : ∃ id ∈ u.ids k, id.toNat = q) : q = u.first k ∨ m'.tail q = none := by
  obtain ⟨id, hid, rfl⟩ := hin
  obtain ⟨-, hlater⟩ := h.todo k (le_refl k) hk
  obtain ⟨id₀, rest, hids, hid₀, -⟩ := hu.head_eq hk
  rw [hids] at hid hlater
  obtain rfl | hid := List.mem_cons.1 hid
  · exact .inl hid₀.symm
  · exact .inr (hlater id hid)

/-- No other sequence is in the cell of the next block. -/
lemma Entered.alone {q : Nat} (hq : q < m'.size) (hno : ¬ ∃ id ∈ u.ids k, id.toNat = q) :
    m'.tail q ≠ some (k + lo) := by
  intro htq
  obtain ⟨hfirst, -⟩ := h.todo k (le_refl k) hk
  obtain ⟨t, ht, hown⟩ := h.mid.own (u.first k) (mem_image_of_mem u.first (mem_Ico.2 ⟨le_refl k, hk⟩))
  rw [hfirst] at ht
  obtain rfl := Option.some.inj ht
  refine hno ?_
  rw [hown q hq htq]
  exact hu.first_mem hk

lemma Entered.free_place (i : Nat) : (place u lo m' k).Free i ↔ m'.Free i := by
  obtain ⟨hfirst, -⟩ := h.todo k (le_refl k) hk
  unfold Free
  rw [size_place]
  constructor
  · intro hf s hs hts
    by_cases hin : ∃ id ∈ u.ids k, id.toNat = s
    · obtain rfl | hn := h.old hu hk hin
      · rw [hfirst] at hts
        exact hf _ hs (by rw [tail_place, if_pos hin]; exact hts)
      · rw [hn] at hts
        cases hts
    · exact hf s hs (by rw [tail_place, if_neg hin]; exact hts)
  · intro hf s hs hts
    rw [tail_place] at hts
    split at hts
    · cases hts
      exact hf _ (h.first_lt hu hk) hfirst
    · exact hf s hs hts

lemma Entered.mid_place (hlo : k + lo < m.size) :
    (place u lo m' k).Mid ((Finset.Ico (k + 1) u.nSeqs).image u.first) := by
  obtain ⟨hfirst, -⟩ := h.todo k (le_refl k) hk
  refine ⟨?_, ?_, ?_, ?_, ?_⟩
  · intro s hs
    obtain ⟨s', hs', rfl⟩ := mem_image.1 hs
    rw [size_place, h.size]
    exact hu.first_lt (mem_Ico.1 hs').2
  · intro i hi s hs
    rw [size_place] at hi ⊢
    rw [tail_place]
    obtain ⟨hne, hmem⟩ | ⟨rfl, hin⟩ := (mem_seqId_place i s).1 hs
    · obtain ⟨hslt, hts⟩ := h.mid.bound i hi s hmem
      refine ⟨hslt, ?_⟩
      rw [if_neg]
      · exact hts
      · intro hin
        obtain rfl | hn := h.old hu hk hin
        · rw [hfirst] at hts
          exact hne (Option.some.inj hts).symm
        · rw [hn] at hts
          cases hts
    · rw [if_pos hin, h.size]
      refine ⟨?_, rfl⟩
      obtain ⟨id, hid, rfl⟩ := hin
      have hb := hu.bound k hk id hid
      omega
  · intro s hs t hts
    rw [size_place] at hs ⊢
    rw [tail_place] at hts
    split at hts
    · rename_i hin
      cases hts
      rw [h.size]
      exact ⟨hlo, fun _ => (mem_seqId_place _ s).2 (.inr ⟨rfl, hin⟩)⟩
    · rename_i hno
      obtain ⟨htlt, hmem⟩ := h.mid.tail s hs t hts
      refine ⟨htlt, fun hn => (mem_seqId_place t s).2 (.inl ⟨?_, hmem fun hin => ?_⟩)⟩
      · rintro rfl
        exact h.alone hu hk hs hno hts
      · obtain ⟨s', hs', rfl⟩ := mem_image.1 hin
        rw [mem_Ico] at hs'
        by_cases hsk : s' = k
        · rw [hsk] at hno
          exact hno (hu.first_mem hk)
        · exact hn (mem_image_of_mem _ (mem_Ico.2 ⟨by omega, hs'.2⟩))
  · intro s hs
    obtain ⟨s', hs', rfl⟩ := mem_image.1 hs
    rw [mem_Ico] at hs'
    have hno := hu.first_not_block hs'.2 hk (by omega)
    obtain ⟨t, htf, hown'⟩ := h.mid.own (u.first s') (mem_image_of_mem _ (mem_Ico.2 ⟨by omega, hs'.2⟩))
    refine ⟨t, by rw [tail_place, if_neg hno]; exact htf, fun q hq htq => ?_⟩
    rw [size_place] at hq
    rw [tail_place] at htq
    split at htq
    · cases htq
      refine absurd htf (h.alone hu hk ?_ hno)
      rw [h.size]
      exact hu.first_lt hs'.2
    · exact hown' q hq htq
  · intro i hi hf
    rw [size_place] at hi
    have hf' := (h.free_place hu hk i).1 hf
    rw [pos_place, if_neg]
    · exact h.mid.free i hi hf'
    · rintro rfl
      exact hf' _ (h.first_lt hu hk) hfirst

/-- One block is entered: the ids get the cell at its place, and the blocks that follow keep theirs. -/
lemma Entered.step (hlo : k + lo < m.size) : Entered m u lo (k + 1) (place u lo m' k) where
  size := (size_place ..).trans h.size
  mid := h.mid_place hu hk hlo
  src i := (src_place i).trans (h.src i)
  free i := (h.free_place hu hk i).trans (h.free i)
  done s hs id hid := by
    rw [tail_place]
    obtain hlt | rfl := lt_or_eq_of_le (Nat.le_of_lt_succ hs)
    · rw [if_neg (hu.not_block (by omega) hk (by omega) hid)]
      exact h.done s hlt id hid
    · rw [if_pos ⟨id, hid, rfl⟩]
  pos s hs := by
    rw [pos_place]
    obtain hlt | rfl := lt_or_eq_of_le (Nat.le_of_lt_succ hs)
    · rw [if_neg (by omega)]
      exact h.pos s hlt
    · rw [if_pos rfl]
  todo s hs hsn := by
    obtain ⟨hfs, hls⟩ := h.todo s (by omega) hsn
    refine ⟨by rw [tail_place, if_neg (hu.first_not_block hsn hk (by omega))]; exact hfs, fun id' hid' => ?_⟩
    rw [tail_place, if_neg (hu.not_block hsn hk (by omega) (mem_of_mem_tail hid'))]
    exact hls id' hid'
  tail q hq := by
    rw [tail_place, if_neg]
    · exact h.tail q hq
    · rintro ⟨id, hid, heq⟩
      exact hq ⟨k, hk, id, hid, heq⟩
  rest i hi := by
    rw [pos_place, if_neg (hi k (Nat.lt_succ_self k))]
    exact h.rest i fun s hs => hi s (by omega)

end

lemma Entered.run (h : Entered m u lo 0 m') (hu : Fits m.size u) (hlo : u.nSeqs + lo ≤ m.size)
    (hk : k ≤ u.nSeqs) : Entered m u lo k ((List.range k).foldl (place u lo) m') := by
  induction k with
  | zero => exact h
  | succ k ih =>
    rw [range_succ, foldl_append, foldl_cons, foldl_nil]
    exact (ih (by omega)).step hu (by omega) (by omega)

end Place

/-- The memory behind `stage`. -/
def staged (m : Recurrent) (lo hi : Nat) : Recurrent :=
  { m with
    rsZ := m.zeroRow lo hi
    cells := fun i =>
      if lo ≤ i ∧ i ≤ hi then
        { m.cells i with src0 := (m.cells i).src.orElse fun _ => m.zeroRow lo hi, src := some i }
      else m.cells i }

/-- The memory that `find_slot` leaves, with the cells from `lo` to `hi` as its window. -/
def windowed (m : Recurrent) (lo hi : Nat) : Recurrent :=
  { m.staged lo hi with head := lo, n := hi - lo + 1, used := (m.staged lo hi).countUsed }

def copied {R : Type} [Zero R] (m : Recurrent) (rows : Nat → R) (i : Nat) : R :=
  if m.head ≤ i ∧ i < m.head + m.n then m.zeroed rows (m.sCopy (i - m.head)) else m.zeroed rows i

section Stage
variable {m : Recurrent} {lo hi z : Nat}

lemma refCount_eq_zero {i : Nat} : m.refCount i = 0 ↔ ∀ j < m.size, (m.cells j).src ≠ some i := by
  unfold refCount
  rw [countP_eq_zero]
  simp

lemma zeroRow_eq_some (h : m.zeroRow lo hi = some z) :
    lo ≤ z ∧ z < lo + (hi - lo + 1) ∧ ∀ j < m.size, (m.cells j).src ≠ some z := by
  have hmem := mem_of_find?_eq_some h
  have hp := find?_some h
  rw [mem_range'_1] at hmem
  exact ⟨hmem.1, hmem.2, refCount_eq_zero.1 (by simpa using hp)⟩

section
variable (hle : lo ≤ hi)
  (hout : ∀ i < m.size, ¬ (lo ≤ i ∧ i ≤ hi) → (m.cells i).src = some i ∨ (m.cells i).src = none)
include hle hout

lemma exists_zeroRow
    {c : Nat} (hc : lo ≤ c ∧ c ≤ hi) (hsrc : (m.cells c).src = none) :
    ∃ z, m.zeroRow lo hi = some z := by
  rw [← Option.ne_none_iff_exists']
  intro hnone
  unfold zeroRow at hnone
  rw [find?_eq_none] at hnone
  have hall : ∀ i, lo ≤ i ∧ i ≤ hi → ∃ j, (lo ≤ j ∧ j ≤ hi) ∧ j ≠ c ∧ (m.cells j).src = some i := by
    intro i hi'
    have href := hnone i (by rw [mem_range'_1]; omega)
    rw [decide_eq_true_eq, refCount_eq_zero] at href
    simp only [not_forall, not_not] at href
    obtain ⟨j, hj, hji⟩ := href
    refine ⟨j, ?_, ?_, hji⟩
    · by_contra hjout
      obtain hself | hn := hout j hj hjout
      · rw [hself] at hji
        cases hji
        exact hjout hi'
      · rw [hn] at hji
        cases hji
    · rintro rfl
      rw [hsrc] at hji
      cases hji
  have hsub : Finset.Icc lo hi ⊆ ((Finset.Icc lo hi).erase c).image fun j => ((m.cells j).src).getD 0 := by
    intro i hi'
    obtain ⟨j, hj, hjc, hji⟩ := hall i (mem_Icc.1 hi')
    refine mem_image.2 ⟨j, mem_erase.2 ⟨hjc, mem_Icc.2 hj⟩, ?_⟩
    rw [hji]
    rfl
  have hcard := (card_le_card hsub).trans card_image_le
  rw [card_erase_of_mem (mem_Icc.2 hc), Nat.card_Icc] at hcard
  omega

lemma stage_eq :
    m.stage lo hi = some (m.staged lo hi) := by
  unfold stage
  dsimp only
  rw [if_neg]
  · rfl
  intro hc
  rw [Bool.and_eq_true, any_eq_true] at hc
  obtain ⟨hz, c, hmem, hsrc⟩ := hc
  rw [mem_range'_1] at hmem
  obtain ⟨z, hz'⟩ := exists_zeroRow hle hout (c := c) (by omega) (by simpa using hsrc)
  rw [hz'] at hz
  cases hz

end

lemma field_windowed {α : Type} (g : MemCell → α) (hg : ∀ c y z, g { c with src0 := y, src := z } = g c) (i : Nat) :
    g ((m.windowed lo hi).cells i) = g (m.cells i) := by
  unfold windowed staged
  dsimp only
  split
  · exact hg _ _ _
  · rfl

lemma tail_windowed (q : Nat) : (m.windowed lo hi).tail q = m.tail q := field_windowed MemCell.tail (fun _ _ _ => rfl) q

lemma free_windowed {i : Nat} : (m.windowed lo hi).Free i ↔ m.Free i :=
  forall₂_congr fun s _ => by rw [tail_windowed]

/-- The copies of the graph change no state: every cell of the window finds in its own row what it referred to. -/
lemma val_windowed (hle : lo ≤ hi)
    (hout : ∀ i < m.size, ¬ (lo ≤ i ∧ i ≤ hi) → (m.cells i).src = some i ∨ (m.cells i).src = none)
    {R : Type} [Zero R] (rows : Nat → R) {i : Nat} (hi' : i < m.size) :
    (m.windowed lo hi).val ((m.windowed lo hi).copied rows) i = m.val rows i := by
  have hhead : (m.windowed lo hi).head = lo := rfl
  have hn : (m.windowed lo hi).n = hi - lo + 1 := rfl
  have hz : (m.windowed lo hi).rsZ = m.zeroRow lo hi := rfl
  -- a row that is referred to is not cleared
  have hzeroed : ∀ j < m.size, ∀ r, (m.cells j).src = some r → (m.windowed lo hi).zeroed rows r = rows r := by
    intro j hj r hr
    unfold zeroed
    rw [hz]
    cases hzr : m.zeroRow lo hi with
    | none => rfl
    | some z =>
      have hne := (zeroRow_eq_some hzr).2.2 j hj
      refine Function.update_of_ne ?_ _ _
      rintro rfl
      exact hne hr
  unfold val
  by_cases hin : lo ≤ i ∧ i ≤ hi
  · have hcell : (m.windowed lo hi).cells i =
        { m.cells i with src0 := (m.cells i).src.orElse fun _ => m.zeroRow lo hi, src := some i } := if_pos hin
    rw [hcell]
    show (m.windowed lo hi).copied rows i = _
    unfold copied
    rw [if_pos (by omega)]
    unfold sCopy
    rw [show i - (m.windowed lo hi).head + (m.windowed lo hi).head = i by omega, hcell]
    cases hsrc : (m.cells i).src with
    | some r => exact hzeroed i hi' r hsrc
    | none =>
      obtain ⟨z, hzr⟩ := exists_zeroRow hle hout hin hsrc
      show (m.windowed lo hi).zeroed rows ((m.zeroRow lo hi).getD 0) = 0
      unfold zeroed
      rw [hz, hzr]
      exact Function.update_self ..
  · have hcell : (m.windowed lo hi).cells i = m.cells i := if_neg hin
    rw [hcell]
    obtain hself | hnone := hout i hi' hin
    · rw [hself]
      show (m.windowed lo hi).copied rows i = rows i
      unfold copied
      rw [if_neg (by omega)]
      exact hzeroed i hi' i hself
    · rw [hnone]
      rfl

/-- What `find_slot` leaves keeps the invariant. -/
lemma Mid.core_windowed (h : m.Mid ∅) (hle : lo ≤ hi) (hhi : hi < m.size)
    (hout : ∀ i < m.size, ¬ (lo ≤ i ∧ i ≤ hi) → (m.cells i).src = some i ∨ ((m.cells i).src = none ∧ m.Free i)) :
    (m.windowed lo hi).Core := by
  have hset : ∀ i, ((m.windowed lo hi).cells i).seqId = (m.cells i).seqId := field_windowed _ fun _ _ _ => rfl
  have hempty : ∀ i, ((m.windowed lo hi).cells i).isEmpty ↔ (m.cells i).isEmpty := by
    intro i
    unfold MemCell.isEmpty
    rw [hset]
  refine ⟨.inl (lt_of_le_of_lt hle hhi), ?_, ?_, ?_, ?_⟩
  · intro i hi q hq
    rw [hset] at hq
    exact (h.bound i hi q hq).1
  · intro q hq t
    rw [tail_windowed, hset]
    constructor
    · intro ht
      obtain ⟨htlt, hmem⟩ := h.tail q hq t ht
      exact ⟨htlt, hmem (notMem_empty q)⟩
    · rintro ⟨htlt, hmem⟩
      exact (h.bound t htlt q hmem).2
  · intro i hi' hemp
    rw [field_windowed MemCell.pos fun _ _ _ => rfl]
    exact h.free i hi' (h.free_of_isEmpty ((hempty i).1 hemp))
  · intro i hi'
    rw [hempty]
    by_cases hin : lo ≤ i ∧ i ≤ hi
    · exact .inl (congrArg MemCell.src (if_pos hin))
    · rw [show (m.windowed lo hi).cells i = m.cells i from if_neg hin]
      exact (hout i hi' hin).imp_right fun hn => ⟨hn.1, h.isEmpty_of_free hi' hn.2⟩

end Stage

section DropShared
variable {m : Recurrent} {s q : Nat}

lemma Core.held_release (h : m.Core) (hq : q < m.size) (hne : q ≠ s) : (m.release s).held q = m.held q := by
  unfold Recurrent.held
  rw [tail_release, if_neg hne]
  cases ht : m.tail q with
  | none => rfl
  | some t =>
    have hmem := ((h.tail q hq t).1 ht).2
    have hno : ¬ m.Freed s t := by
      intro hf
      have hin := mem_erase.2 ⟨hne, hmem⟩
      rw [hf.2] at hin
      exact absurd hin (notMem_empty q)
    rw [Option.map_some, Option.map_some, field_release MemCell.pos (fun _ _ => rfl) (fun _ _ => rfl) m s t hno,
      field_release MemCell.src (fun _ _ => rfl) (fun _ _ => rfl) m s t hno]

lemma Core.blank_release (h : m.Core) {R : Type} [Zero R] {rows : Nat → R} (hb : m.Blank rows) :
    (m.release s).Blank rows := by
  intro i hi hf
  rw [size_release] at hi
  unfold val
  by_cases hfreed : m.Freed s i
  · rw [(freed_release hfreed).2.1]
    rfl
  · rw [field_release MemCell.src (fun _ _ => rfl) (fun _ _ => rfl) m s i hfreed]
    refine hb i hi fun q hq ht => ?_
    by_cases hqs : q = s
    · subst hqs
      -- the cell keeps another sequence, which is then still there
      obtain ⟨p, hp⟩ := nonempty_iff_ne_empty.2 fun he => hfreed ⟨ht, he⟩
      obtain ⟨hpq, hmem⟩ := mem_erase.1 hp
      have hplt := h.bound i hi p hmem
      refine hf p (by rw [size_release]; exact hplt) ?_
      rw [tail_release, if_neg hpq]
      exact (h.tail p hplt i).2 ⟨hi, hmem⟩
    · refine hf q (by rw [size_release]; exact hq) ?_
      rw [tail_release, if_neg hqs]
      exact ht

lemma Core.dropShared (h : m.Core) (l : List (Int × Nat)) (hb : ∀ p ∈ l, 0 ≤ p.1 ∧ p.1 < m.size) :
    ∃ m', m.dropShared l = (true, m') ∧ m'.Core ∧ m'.size = m.size ∧ m'.head = m.head ∧
      (∀ q < m.size, (∃ p ∈ l, 0 < p.2 ∧ p.1.toNat = q) → m'.tail q = none) ∧
      (∀ q < m.size, (¬ ∃ p ∈ l, 0 < p.2 ∧ p.1.toNat = q) → m'.held q = m.held q) ∧
      ∀ {R : Type} [Zero R] (rows : Nat → R), m.Blank rows → m'.Blank rows := by
  induction l generalizing m with
  | nil => exact ⟨m, rfl, h, rfl, rfl, by simp, fun _ _ _ => rfl, fun _ hb => hb⟩
  | cons p l ih =>
    obtain ⟨seq, j⟩ := p
    have hseq := hb (seq, j) List.mem_cons_self
    have hrest : ∀ p ∈ l, 0 ≤ p.1 ∧ p.1 < m.size := fun p hp => hb p (List.mem_cons_of_mem _ hp)
    rw [Recurrent.dropShared, if_neg (by dsimp only at hseq; omega)]
    by_cases hj : 0 < j
    · rw [if_pos hj]
      have hs : seq.toNat < m.size := by
        dsimp only at hseq
        omega
      obtain ⟨m', hrun, hinv, hsize, hhead, hnone, hkeep, hblank⟩ := ih (h.release hs)
        (by rw [size_release]; exact hrest)
      rw [size_release] at hsize hnone hkeep
      rw [head_release] at hhead
      refine ⟨m', hrun, hinv, hsize, hhead, ?_, ?_, fun rows hb => hblank rows (h.blank_release hb)⟩
      · intro q hq hin
        by_cases hl : ∃ p ∈ l, 0 < p.2 ∧ p.1.toNat = q
        · exact hnone q hq hl
        · refine tail_eq_none_of_held (hkeep q hq hl) ?_
          obtain ⟨p, hp, hpos, heq⟩ := hin
          obtain rfl | hp := List.mem_cons.1 hp
          · rw [tail_release, if_pos heq.symm]
          · exact absurd ⟨p, hp, hpos, heq⟩ hl
      · intro q hq hno
        rw [hkeep q hq fun ⟨p, hp, hc⟩ => hno ⟨p, List.mem_cons_of_mem _ hp, hc⟩]
        refine h.held_release hq fun heq => hno ⟨(seq, j), List.mem_cons_self, hj, heq.symm⟩
    · rw [if_neg hj]
      obtain ⟨m', hrun, hinv, hsize, hhead, hnone, hkeep, hblank⟩ := ih h hrest
      refine ⟨m', hrun, hinv, hsize, hhead, fun q hq hin => hnone q hq ?_, fun q hq hno => hkeep q hq ?_, hblank⟩
      · obtain ⟨p, hp, hpos, heq⟩ := hin
        obtain rfl | hp := List.mem_cons.1 hp
        · exact absurd hpos hj
        · exact ⟨p, hp, hpos, heq⟩
      · exact fun ⟨p, hp, hc⟩ => hno ⟨p, List.mem_cons_of_mem _ hp, hc⟩

end DropShared

/-- What a call of `find_slot` does. -/
structure Slotted (m : Recurrent) (u : SlotUbatch) (m' : Recurrent) : Prop where
  core : m'.Core
  used : m'.used = m'.countUsed
  size : m'.size = m.size
  room : u.nSeqs ≤ m'.n ∧ m'.head + m'.n ≤ m.size
  block : ∀ s < u.nSeqs, ∀ id ∈ u.ids s, m'.tail id.toNat = some (m'.head + s)
  pos : ∀ s < u.nSeqs, (m'.cells (m'.head + s)).pos = u.lastPos s
  rest : ∀ q < m.size, ¬ InBatch u q →
    ((m'.tail q).map fun t => (m'.cells t).pos) = (m.tail q).map fun t => (m.cells t).pos
  away : ∀ q < m.size, ¬ InBatch u q → ∀ s < u.nSeqs, m'.tail q ≠ some (m'.head + s)
  blank : ∀ {R : Type} [Zero R] (rows : Nat → R), m.Blank rows → m'.Blank (m'.copied rows)
  seqVal : ∀ {R : Type} [Zero R] (rows : Nat → R), m.Blank rows →
    ∀ q < m.size, ¬ Later u q → m'.seqVal (m'.copied rows) q = m.seqVal rows q

section FindSlot
variable {m : Recurrent} {u : SlotUbatch}

lemma mem_flatMap_zipIdx {q : Nat} :
    (∃ p ∈ (List.range u.nSeqs).flatMap (fun s => (u.ids s).zipIdx), 0 < p.2 ∧ p.1.toNat = q) ↔ Later u q := by
  constructor
  · rintro ⟨⟨id, j⟩, hp, hj, heq⟩
    obtain ⟨s, hs, hp⟩ := mem_flatMap.1 hp
    rw [mem_zipIdx_iff_getElem?] at hp
    obtain ⟨j', rfl⟩ := Nat.exists_eq_succ_of_ne_zero (ne_of_gt hj)
    refine ⟨s, List.mem_range.1 hs, id, ?_, heq⟩
    rw [mem_iff_getElem?]
    exact ⟨j', by rw [getElem?_tail]; exact hp⟩
  · rintro ⟨s, hs, id, hid, heq⟩
    obtain ⟨j, hj⟩ := mem_iff_getElem?.1 hid
    refine ⟨(id, j + 1), mem_flatMap.2 ⟨s, List.mem_range.2 hs, ?_⟩, Nat.succ_pos j, heq⟩
    rw [mem_zipIdx_iff_getElem?]
    rw [getElem?_tail] at hj
    exact hj

lemma Fits.not_first {size q : Nat} (hu : Fits size u) (hq : Later u q) :
    q ∉ (Finset.range u.nSeqs).image u.first := by
  obtain ⟨s, hs, id, hid, rfl⟩ := hq
  intro hin
  obtain ⟨s', hs', heq⟩ := mem_image.1 hin
  rw [Finset.mem_range] at hs'
  obtain ⟨id', hid', hidf⟩ := hu.first_mem hs'
  obtain rfl := hu.disjoint hs hs' (mem_of_mem_tail hid) hid' (heq.symm.trans hidf.symm)
  obtain ⟨id₀, rest, hids, hid₀, hcast⟩ := hu.head_eq hs
  have hnd := (nodup_flatMap.1 hu.nodup).1 s (List.mem_range.2 hs)
  have hb := (hu.bound s hs id (mem_of_mem_tail hid)).1
  rw [hids] at hid hnd
  have hsame : id = id₀ := by
    rw [← hcast, heq]
    exact (Int.toNat_of_nonneg hb).symm
  rw [hsame] at hid
  exact (nodup_cons.1 hnd).1 hid

lemma eq_first_of_not_later {size q : Nat} (hu : Fits size u) (hin : InBatch u q) (hq : ¬ Later u q) :
    ∃ s < u.nSeqs, q = u.first s := by
  obtain ⟨s, hs, id, hid, rfl⟩ := hin
  refine ⟨s, hs, ?_⟩
  obtain ⟨id₀, rest, hids, hid₀, -⟩ := hu.head_eq hs
  by_contra hne
  refine hq ⟨s, hs, id, ?_, rfl⟩
  rw [hids] at hid ⊢
  obtain rfl | hid := List.mem_cons.1 hid
  · exact absurd hid₀.symm hne
  · exact hid

section
variable {m₁ m₃ : Recurrent} {lo hi q : Nat} (hu : Fits m₁.size u) (hg : Gathered m₁ u lo hi u.nSeqs m₃)
include hu hg

/-- A sequence that is not in the ubatch is not in a cell of the ubatch. -/
lemma Gathered.away (hq : q < m₁.size) (hno : ¬ InBatch u q) : ∀ s < u.nSeqs, m₃.tail q ≠ some (s + lo) := by
  intro s hs ht
  obtain ⟨t, ht', hown⟩ := hg.mid.own (u.first s) (mem_image_of_mem _ (Finset.mem_range.2 hs))
  rw [hg.done s hs] at ht'
  cases ht'
  obtain ⟨id, hid, heq⟩ := hu.first_mem hs
  exact hno ⟨s, hs, id, hid, by rw [heq, hown q (by rw [hg.carries.size]; exact hq) ht]⟩

lemma Gathered.pos_eq (hq : q < m₁.size) (hno : ¬ InBatch u q) :
    (m₁.tail q).map (fun t => (m₁.cells t).pos) = (m₃.tail q).map fun t => (m₃.cells t).pos := by
  have hheld := hg.held q hq fun hin => by
    obtain ⟨s, hs, rfl⟩ := mem_image.1 hin
    obtain ⟨id, hid, heq⟩ := hu.first_mem (Finset.mem_range.1 hs)
    exact hno ⟨s, Finset.mem_range.1 hs, id, hid, heq⟩
  have hfst := congrArg (Option.map Prod.fst) hheld
  unfold Recurrent.held at hfst
  rw [Option.map_map, Option.map_map] at hfst
  exact hfst.symm

/-- The tail of a sequence that is not a later id stays. -/
lemma Gathered.tail_eq {m₄ : Recurrent} (he : Entered m₃ u lo u.nSeqs m₄) (hq : ¬ Later u q) :
    m₄.tail q = m₃.tail q := by
  by_cases hin : InBatch u q
  · obtain ⟨s, hs, rfl⟩ := eq_first_of_not_later hu hin hq
    obtain ⟨id, hid, heq⟩ := hu.first_mem hs
    rw [hg.done s hs, ← heq]
    exact he.done s hs id hid
  · exact he.tail q hin

end

/-- The cells that the search found are brought together, entered and staged. -/
lemma slotted_of_found {m₁ : Recurrent} {x : Search} (hu : Fits m₁.size u)
    (hx : Found m₁ u u.nSeqs x) (hlater : ∀ q < m₁.size, Later u q → m₁.tail q = none) :
    ∃ m₄, (List.range u.nSeqs).foldl (place u x.min) ((List.range u.nSeqs).foldl (gather u x.min) x.mem) = m₄ ∧
      m₄.stage x.min x.max = some (m₄.staged x.min x.max) ∧ u.nSeqs ≤ x.max - x.min + 1 ∧
      Slotted m₁ u (m₄.windowed x.min x.max) := by
  have hlo : x.min ≤ x.max := by
    obtain ⟨t, -, h1, h2⟩ := hx.range 0 hu.nSeqs
    omega
  have hhi := hx.max_lt
  have hg := hx.gathered.run hu hhi (le_refl u.nSeqs)
  have hfit := hg.fits hu
  obtain ⟨m₃, hm₃⟩ : ∃ m₃, (List.range u.nSeqs).foldl (gather u x.min) x.mem = m₃ := ⟨_, rfl⟩
  rw [hm₃] at hg ⊢
  have hsize₃ := hg.carries.size
  have hlater₃ : ∀ q, Later u q → m₃.tail q = none := by
    intro q hq
    have hqlt : q < m₁.size := by
      obtain ⟨s, hs, id, hid, rfl⟩ := hq
      have hb := hu.bound s hs id (mem_of_mem_tail hid)
      omega
    exact tail_eq_none_of_held (hg.held q hqlt (hu.not_first hq)) (hlater q hqlt hq)
  have he := (hg.entered hlater₃).run (by rw [hsize₃]; exact hu) (by omega) (le_refl u.nSeqs)
  obtain ⟨m₄, hm₄⟩ : ∃ m₄, (List.range u.nSeqs).foldl (place u x.min) m₃ = m₄ := ⟨_, rfl⟩
  rw [hm₄] at he ⊢
  have hmid := he.mid
  rw [Finset.Ico_self, image_empty] at hmid
  have hsize₄ : m₄.size = m₁.size := he.size.trans hsize₃
  have hout : ∀ i < m₄.size, ¬ (x.min ≤ i ∧ i ≤ x.max) →
      (m₄.cells i).src = some i ∨ ((m₄.cells i).src = none ∧ m₄.Free i) := by
    intro i hi hi'
    rw [hsize₄] at hi
    rw [he.src, he.free]
    exact hg.outside i hi hi'
  have hout' : ∀ i < m₄.size, ¬ (x.min ≤ i ∧ i ≤ x.max) →
      (m₄.cells i).src = some i ∨ (m₄.cells i).src = none :=
    fun i hi hi' => (hout i hi hi').imp_right And.left
  refine ⟨m₄, rfl, stage_eq hlo hout', by omega, hmid.core_windowed hlo (by omega) hout, rfl, hsize₄, ?_, ?_, ?_, ?_,
    ?_, ?_, ?_⟩
  · show u.nSeqs ≤ x.max - x.min + 1 ∧ x.min + (x.max - x.min + 1) ≤ m₁.size
    omega
  · intro s hs id hid
    rw [tail_windowed, he.done s hs id hid]
    exact congrArg some (add_comm s x.min)
  · intro s hs
    rw [field_windowed MemCell.pos fun _ _ _ => rfl]
    show (m₄.cells (x.min + s)).pos = _
    rw [add_comm]
    exact he.pos s hs
  · intro q hq hno
    rw [hg.pos_eq hu hq hno, tail_windowed, he.tail q hno]
    cases ht : m₃.tail q with
    | none => rfl
    | some t =>
      rw [Option.map_some, Option.map_some, field_windowed MemCell.pos fun _ _ _ => rfl, he.rest t]
      rintro s hs rfl
      exact hg.away hu hq hno s hs ht
  · intro q hq hno s hs ht
    rw [tail_windowed, he.tail q hno] at ht
    exact hg.away hu hq hno s hs (ht.trans (congrArg some (add_comm x.min s)))
  · intro R _ rows hb i hi hf
    rw [val_windowed hlo hout' rows hi]
    unfold val
    rw [he.src]
    exact hg.carries.blank rows hb i (by rw [← he.size]; exact hi) ((he.free i).1 (free_windowed.1 hf))
  · intro R _ rows hb q hq hnl
    rw [← hg.carries.seqVal rows hb q hq]
    unfold Recurrent.seqVal
    rw [tail_windowed, hg.tail_eq hu he hnl]
    cases ht : m₃.tail q with
    | none => rfl
    | some t =>
      have htlt := (hg.mid.tail q (by rw [hsize₃]; exact hq) t ht).1
      show (m₄.windowed x.min x.max).val ((m₄.windowed x.min x.max).copied rows) t = m₃.val rows t
      rw [val_windowed hlo hout' rows (by rw [he.size]; exact htlt)]
      unfold val
      rw [he.src]

/-- `find_slot` succeeds on every ubatch that fits. -/
theorem findSlot_spec (h : m.Core) (hu : Fits m.size u) :
    ∃ m', m.findSlot u = some (true, m') ∧ Slotted m u m' := by
  have hpos : 0 < m.size := Nat.zero_lt_of_lt (hu.first_lt hu.nSeqs)
  obtain ⟨hd, hhd, hdlt⟩ : ∃ hd, (if (m.used + 2 * u.nSeqs) % 4294967296 < m.head then { m with head := 0 }
      else m) = { m with head := hd } ∧ hd < m.size := by
    split
    · exact ⟨0, rfl, hpos⟩
    · refine ⟨m.head, rfl, ?_⟩
      have hh := h.head
      omega
  have h₀ : Core { m with head := hd } := h.setHead (.inl hdlt)
  obtain ⟨m₁, hrun, hinv, hsize, hhead, hnone, hkeep, hblank⟩ := h₀.dropShared
    ((List.range u.nSeqs).flatMap fun s => (u.ids s).zipIdx) (by
      rintro ⟨id, j⟩ hp
      obtain ⟨s, hs, hp⟩ := mem_flatMap.1 hp
      exact hu.bound s (List.mem_range.1 hs) id (fst_mem_of_mem_zipIdx hp))
  have hsize' : m₁.size = m.size := hsize
  have hu₁ : Fits m₁.size u := by
    rw [hsize']
    exact hu
  have hheld : ∀ q < m.size, ¬ Later u q → m₁.held q = m.held q :=
    fun q hq hno => hkeep q hq fun hin => hno (mem_flatMap_zipIdx.1 hin)
  obtain ⟨x, hx, hfound⟩ := hinv.found hu₁ (by rw [hhead, hsize']; exact hdlt) (le_refl u.nSeqs)
  obtain ⟨m₄, hplace, hstage, hroom, hs⟩ := slotted_of_found hu₁ hfound fun q hq hin =>
    hnone q (by rw [hsize'] at hq; exact hq) (mem_flatMap_zipIdx.2 hin)
  refine ⟨_, ?_, hs.core, hs.used, hs.size.trans hsize', ?_, hs.block, hs.pos, ?_, ?_, ?_, ?_⟩
  · unfold findSlot
    dsimp only
    rw [hhd, hrun, if_neg (by simp [hu.equalSeqs]), if_neg (by simp)]
    simp only [hx, hplace, hstage, Option.bind_eq_bind, Option.bind_some, Option.pure_def]
    rw [decide_eq_true hroom]
    rfl
  · rw [← hsize']
    exact hs.room
  · intro q hq hno
    have hnl : ¬ Later u q := by
      rintro ⟨s, hs, id, hid, heq⟩
      exact hno ⟨s, hs, id, mem_of_mem_tail hid, heq⟩
    rw [hs.rest q (by rw [hsize']; exact hq) hno]
    have hfst := congrArg (Option.map Prod.fst) (hheld q hq hnl)
    unfold Recurrent.held at hfst
    rw [Option.map_map, Option.map_map] at hfst
    exact hfst
  · intro q hq hno
    exact hs.away q (by rw [hsize']; exact hq) hno
  · intro R _ rows hb
    exact hs.blank rows (hblank rows hb)
  · intro R _ rows hb q hq hnl
    rw [hs.seqVal rows (hblank rows hb) q (by rw [hsize']; exact hq) hnl]
    exact seqVal_of_held (hheld q hq hnl) rows

end FindSlot

end Recurrent

end Mallana
