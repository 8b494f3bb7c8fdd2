import Mathlib.Algebra.Order.BigOperators.Group.Finset
import Mathlib.Data.Finset.Card
import Mallana.Recurrent.Basic

/-!
# The tail invariant

`Core` is the invariant of the cells: `cells[s].tail` is the one cell that stores sequence `s`, an empty cell has no
position, and the state of a cell that is in use is in its own row. `Inv` adds that `used` counts the cells with a
sequence. The operations on single sequences keep both, with two exceptions: `seq_rm` for all sequences leaves
the tails behind, and `seq_keep` only counts the cells with a position that is not negative.
-/

namespace Mallana

open Lib List Finset Function

namespace Recurrent

/-- The invariant of the cells. -/
structure Core (m : Recurrent) : Prop where
  head : m.head < m.size ∨ m.head = 0
  bound : ∀ i < m.size, ∀ s ∈ (m.cells i).seqId, s < m.size
  tail : ∀ s < m.size, ∀ t, m.tail s = some t ↔ t < m.size ∧ s ∈ (m.cells t).seqId
  empty : ∀ i < m.size, (m.cells i).isEmpty → (m.cells i).pos = -1
  src : ∀ i < m.size, (m.cells i).src = some i ∨ ((m.cells i).src = none ∧ (m.cells i).isEmpty)

/-- The invariant of the memory, with the count of the cells in use. -/
structure Inv (m : Recurrent) : Prop extends Core m where
  small : m.size < 4294967296
  used : m.used = m.countUsed

section Cells
variable {m m' : Recurrent} {i j s t : Nat} {f : MemCell → MemCell}

@[simp] lemma modify_self : (m.modify i f).cells i = f (m.cells i) := update_self ..

lemma modify_of_ne (h : j ≠ i) : (m.modify i f).cells j = m.cells j := update_of_ne h ..

@[simp] lemma modify_size : (m.modify i f).size = m.size := rfl

@[simp] lemma modify_used : (m.modify i f).used = m.used := rfl

lemma modify_field {α : Type} (g : MemCell → α) (h : ∀ c, g (f c) = g c) (j : Nat) :
    g ((m.modify i f).cells j) = g (m.cells j) := by
  by_cases hj : j = i
  · subst hj
    rw [modify_self, h]
  · rw [modify_of_ne hj]

lemma modify_congr {g : MemCell → MemCell} (h : f (m.cells i) = g (m.cells i)) : m.modify i f = m.modify i g := by
  unfold modify
  rw [h]

lemma modify_modify (f g : MemCell → MemCell) : (m.modify i f).modify i g = m.modify i fun c => g (f c) := by
  unfold modify
  simp

lemma modify_comm {g : MemCell → MemCell} (h : ∀ c, f (g c) = g (f c)) :
    (m.modify i f).modify j g = (m.modify j g).modify i f := by
  by_cases hij : i = j
  · subst hij
    rw [modify_modify, modify_modify]
    exact modify_congr (h _).symm
  · unfold modify
    dsimp only
    rw [update_of_ne (Ne.symm hij), update_of_ne hij, update_comm hij]

lemma countUsed_eq (m : Recurrent) :
    m.countUsed = ((Finset.range m.size).filter fun i => ¬ (m.cells i).isEmpty).card := by
  unfold countUsed
  rw [countP_eq_length_filter, card_def]
  rfl

lemma countUsed_congr (hsize : m'.size = m.size)
    (h : ∀ i < m.size, (m'.cells i).isEmpty ↔ (m.cells i).isEmpty) : m'.countUsed = m.countUsed := by
  rw [countUsed_eq, countUsed_eq, hsize]
  refine congrArg Finset.card (Finset.filter_congr fun i hi => ?_)
  rw [h i (Finset.mem_range.1 hi)]

lemma countUsed_of_freed (hsize : m'.size = m.size) (hi : i < m.size) (hold : ¬ (m.cells i).isEmpty)
    (hnew : (m'.cells i).isEmpty) (hrest : ∀ j < m.size, j ≠ i → ((m'.cells j).isEmpty ↔ (m.cells j).isEmpty)) :
    m'.countUsed + 1 = m.countUsed := by
  have herase : (Finset.range m.size).filter (fun j => ¬ (m'.cells j).isEmpty) =
      ((Finset.range m.size).filter fun j => ¬ (m.cells j).isEmpty).erase i := by
    ext j
    by_cases hj : j = i
    · subst hj
      simp [hnew]
    · simp only [Finset.mem_filter, Finset.mem_range, mem_erase]
      constructor
      · rintro ⟨hlt, hne⟩
        exact ⟨hj, hlt, fun h => hne ((hrest j hlt hj).2 h)⟩
      · rintro ⟨-, hlt, hne⟩
        exact ⟨hlt, fun h => hne ((hrest j hlt hj).1 h)⟩
  have hmem : i ∈ (Finset.range m.size).filter fun j => ¬ (m.cells j).isEmpty :=
    Finset.mem_filter.2 ⟨Finset.mem_range.2 hi, hold⟩
  rw [countUsed_eq, countUsed_eq, hsize, herase, card_erase_add_one hmem]

lemma countUsed_le (m : Recurrent) : m.countUsed ≤ m.size := by
  rw [countUsed_eq]
  exact (card_filter_le _ _).trans (card_range _).le

lemma decr_succ {n : Nat} (h : n < 4294967296) : decr (n + 1) = n := by
  unfold decr
  omega

end Cells

lemma core_clear (m : Recurrent) : m.clear.Core where
  head := .inr rfl
  bound i hi s hs := by cases hs
  tail s hs t := by
    constructor
    · intro h
      cases h
    · rintro ⟨-, h⟩
      cases h
  empty i hi h := rfl
  src i hi := .inr ⟨rfl, rfl⟩

lemma inv_clear {m : Recurrent} (h : m.size < 4294967296) : m.clear.Inv where
  toCore := core_clear m
  small := h
  used := by
    rw [countUsed_eq, filter_false_of_mem fun i _ h => h rfl]
    rfl

section Release
variable {m : Recurrent} {i j s q t : Nat}

/-- Cell `i` gets empty when sequence `s` leaves it. -/
def Freed (m : Recurrent) (s i : Nat) : Prop := m.tail s = some i ∧ (m.cells i).seqId.erase s = ∅

instance (m : Recurrent) (s i : Nat) : Decidable (m.Freed s i) := inferInstanceAs (Decidable (_ ∧ _))

lemma release_none (h : m.tail s = none) : m.release s = m := by
  unfold release
  rw [h]

@[simp] lemma size_release : (m.release s).size = m.size := by
  unfold release
  split
  · rfl
  · split <;> rfl

@[simp] lemma head_release : (m.release s).head = m.head := by
  unfold release
  split
  · rfl
  · split <;> rfl

lemma seqId_leave (m : Recurrent) (s t i : Nat) : ((m.leave s t).cells i).seqId =
    if i = t then (m.cells i).seqId.erase s else (m.cells i).seqId := by
  have hfield := modify_field (m := m.modify t fun c => { c with seqId := c.seqId.erase s }) (i := s)
    (f := fun c => { c with tail := none }) MemCell.seqId (fun _ => rfl) i
  refine hfield.trans ?_
  by_cases hi : i = t
  · subst hi
    rw [if_pos rfl, modify_self]
  · rw [if_neg hi, modify_of_ne hi]

lemma tail_leave (m : Recurrent) (s t q : Nat) : (m.leave s t).tail q = if q = s then none else m.tail q := by
  unfold leave tail
  by_cases hq : q = s
  · subst hq
    rw [if_pos rfl, modify_self]
  · rw [if_neg hq, modify_of_ne hq]
    exact modify_field MemCell.tail (by intro; rfl) q

lemma isEmpty_leave (h : m.tail s = some t) : ((m.leave s t).cells t).isEmpty ↔ m.Freed s t := by
  unfold MemCell.isEmpty Freed
  rw [seqId_leave, if_pos rfl, and_iff_right h]

lemma cells_release (h : m.tail s = some t) : (m.release s).cells = if m.Freed s t then
    ((m.leave s t).modify t fun c => { c with pos := -1, src := none }).cells
    else (m.leave s t).cells := by
  unfold release
  rw [h]
  dsimp only
  by_cases hf : m.Freed s t
  · rw [if_pos hf, if_pos ((isEmpty_leave h).2 hf)]
  · rw [if_neg hf, if_neg fun he => hf ((isEmpty_leave h).1 he)]

lemma field_release_leave {α : Type} (g : MemCell → α) (hg : ∀ c x y, g { c with pos := x, src := y } = g c)
    (h : m.tail s = some t) (i : Nat) : g ((m.release s).cells i) = g ((m.leave s t).cells i) := by
  rw [cells_release h]
  split
  · exact modify_field g (fun c => hg c _ _) i
  · rfl

lemma seqId_release (m : Recurrent) (s i : Nat) : ((m.release s).cells i).seqId =
    if m.tail s = some i then (m.cells i).seqId.erase s else (m.cells i).seqId := by
  cases ht : m.tail s with
  | none =>
    rw [release_none ht]
    rfl
  | some t =>
    have hleave : ((m.leave s t).cells i).seqId =
        if some t = some i then (m.cells i).seqId.erase s else (m.cells i).seqId := by
      rw [seqId_leave]
      simp only [Option.some.injEq, eq_comm]
    exact (field_release_leave MemCell.seqId (fun _ _ _ => rfl) ht i).trans hleave

lemma tail_release (m : Recurrent) (s q : Nat) : (m.release s).tail q = if q = s then none else m.tail q := by
  cases ht : m.tail s with
  | none =>
    rw [release_none ht]
    split
    · rename_i hq
      rw [hq, ht]
    · rfl
  | some t =>
    exact (field_release_leave MemCell.tail (fun _ _ _ => rfl) ht q).trans (tail_leave m s t q)

lemma field_release {α : Type} (g : MemCell → α) (hset : ∀ c x, g { c with seqId := x } = g c)
    (htail : ∀ c x, g { c with tail := x } = g c) (m : Recurrent) (s i : Nat)
    (hi : ¬ m.Freed s i) : g ((m.release s).cells i) = g (m.cells i) := by
  cases ht : m.tail s with
  | none => rw [release_none ht]
  | some t =>
    have hm : g ((m.leave s t).cells i) = g (m.cells i) := by
      unfold leave
      rw [modify_field g fun c => htail c _, modify_field g fun c => hset c _]
    rw [cells_release ht]
    split
    · rename_i hf
      have hne : i ≠ t := by
        rintro rfl
        exact hi hf
      rw [modify_of_ne hne]
      exact hm
    · exact hm

lemma freed_release (h : m.Freed s i) : ((m.release s).cells i).pos = -1 ∧
    ((m.release s).cells i).src = none ∧ (m.release s).used = decr m.used := by
  unfold release
  rw [h.1]
  dsimp only
  rw [if_pos ((isEmpty_leave h.1).2 h)]
  exact ⟨by rw [modify_self], by rw [modify_self], rfl⟩

lemma used_release (h : ∀ i, ¬ m.Freed s i) : (m.release s).used = m.used := by
  cases ht : m.tail s with
  | none => rw [release_none ht]
  | some t =>
    unfold release
    rw [ht]
    dsimp only
    rw [if_neg fun he => h t ((isEmpty_leave ht).1 he)]
    rfl

lemma Core.isEmpty_release (h : m.Core) (hs : s < m.size) (hf : ¬ m.Freed s i) :
    ((m.release s).cells i).isEmpty ↔ (m.cells i).isEmpty := by
  unfold MemCell.isEmpty
  rw [seqId_release]
  split
  · rename_i ht
    have hs' := ((h.tail s hs i).1 ht).2
    constructor
    · exact fun he => absurd ⟨ht, he⟩ hf
    · intro he
      rw [he] at hs'
      cases hs'
  · rfl

lemma Freed.isEmpty (hf : m.Freed s i) : ((m.release s).cells i).isEmpty := by
  unfold MemCell.isEmpty
  rw [seqId_release, if_pos hf.1]
  exact hf.2

/-- A sequence leaves its cell. -/
lemma Core.release (h : m.Core) (hs : s < m.size) : (m.release s).Core := by
  -- the sequence is in no cell any more
  have hmem : ∀ q t, t < m.size → (q ∈ ((m.release s).cells t).seqId ↔ q ≠ s ∧ q ∈ (m.cells t).seqId) := by
    intro q t ht
    rw [seqId_release]
    split
    · rw [mem_erase]
    · rename_i hne
      refine ⟨fun hq => ⟨?_, hq⟩, fun hq => hq.2⟩
      rintro rfl
      exact hne ((h.tail q hs t).2 ⟨ht, hq⟩)
  refine ⟨?_, ?_, ?_, ?_, ?_⟩
  · rw [size_release, head_release]
    exact h.head
  · intro i hi q hq
    rw [size_release] at hi ⊢
    exact h.bound i hi q ((hmem q i hi).1 hq).2
  · intro q hq t
    rw [size_release] at hq ⊢
    rw [tail_release]
    split
    · rename_i hqs
      constructor
      · intro hn
        cases hn
      · rintro ⟨ht, hq'⟩
        exact absurd hqs ((hmem q t ht).1 hq').1
    · rename_i hqs
      rw [h.tail q hq]
      refine and_congr_right fun ht => ?_
      rw [hmem q t ht]
      exact (and_iff_right hqs).symm
  · intro i hi he
    rw [size_release] at hi
    by_cases hf : m.Freed s i
    · exact (freed_release hf).1
    · rw [field_release MemCell.pos (fun _ _ => rfl) (fun _ _ => rfl) m s i hf]
      exact h.empty i hi ((h.isEmpty_release hs hf).1 he)
  · intro i hi
    rw [size_release] at hi
    by_cases hf : m.Freed s i
    · exact .inr ⟨(freed_release hf).2.1, hf.isEmpty⟩
    · rw [field_release MemCell.src (fun _ _ => rfl) (fun _ _ => rfl) m s i hf, h.isEmpty_release hs hf]
      exact h.src i hi

lemma Inv.release (h : m.Inv) (hs : s < m.size) : (m.release s).Inv := by
  refine ⟨h.toCore.release hs, by rw [size_release]; exact h.small, ?_⟩
  by_cases hf : ∃ i, m.Freed s i
  · obtain ⟨i, hf⟩ := hf
    have hi := (h.tail s hs i).1 hf.1
    have hcount : (m.release s).countUsed + 1 = m.countUsed := by
      refine countUsed_of_freed size_release hi.1 ?_ hf.isEmpty ?_
      · exact fun he => notMem_empty s (he ▸ hi.2)
      · intro j hj hji
        refine h.isEmpty_release hs fun hfj => hji ?_
        exact Option.some.inj (hfj.1.symm.trans hf.1)
    have hle := countUsed_le m
    have hsmall := h.small
    rw [(freed_release hf).2.2, h.used, ← hcount, decr_succ (by omega)]
  · have hno : ∀ i, ¬ m.Freed s i := fun i hi => hf ⟨i, hi⟩
    rw [used_release hno, h.used]
    exact (countUsed_congr size_release fun i _ => h.isEmpty_release hs (hno i)).symm

end Release

section SeqRm
variable {m : Recurrent} {seq p0 p1 : Int} {t : Nat}

lemma Core.setHead (h : m.Core) {hd : Nat} (hhd : hd < m.size ∨ hd = 0) : Core { m with head := hd } :=
  ⟨hhd, h.bound, h.tail, h.empty, h.src⟩

lemma Inv.setHead (h : m.Inv) {hd : Nat} (hhd : hd < m.size ∨ hd = 0) : Inv { m with head := hd } :=
  ⟨h.toCore.setHead hhd, h.small, h.used⟩

lemma lowerHead_eq (r : Recurrent × Nat) :
    ∃ hd, (hd = r.1.head ∨ hd < r.1.head) ∧ lowerHead r = { r.1 with head := hd } := by
  unfold lowerHead
  split
  · rename_i h
    exact ⟨r.2, .inr h.2, rfl⟩
  · exact ⟨r.1.head, .inl rfl, rfl⟩

lemma rmCell_of_not {r : Recurrent × Nat} {i : Nat} (hseq : 0 ≤ seq)
    (h : (r.1.cells i).hasSeqId seq → p0 ≤ (r.1.cells i).pos → ¬ (r.1.cells i).pos < p1) :
    rmCell seq p0 p1 r i = r := by
  unfold rmCell
  dsimp only
  rw [if_neg]
  rintro ⟨h0, h1, hlt | hhas⟩
  · omega
  · exact h hhas h0 h1

lemma Core.eq_of_hasSeqId (h : m.Core) {i : Nat} (hi : i < m.size) (hhas : (m.cells i).hasSeqId seq) :
    m.tail seq.toNat = some i :=
  (h.tail _ (h.bound i hi _ hhas.2) i).2 ⟨hi, hhas.2⟩

lemma Core.seqRm_of_not (h : m.Core) (hseq : 0 ≤ seq)
    (hcov : ∀ t ∈ m.tail seq.toNat, startPos p0 ≤ (m.cells t).pos → ¬ (m.cells t).pos < endPos p1) :
    (m.seqRm seq p0 p1).2 = m := by
  unfold seqRm
  dsimp only
  split
  · rfl
  split
  · rfl
  split
  · rfl
  have htail : m.rmTail seq (startPos p0) (endPos p1) = m := by
    unfold rmTail
    split
    · rfl
    · rename_i t ht
      rw [if_neg fun hc => hcov t ht hc.1 hc.2]
  rw [htail]
  have hloop : (List.range m.size).foldl (rmCell seq (startPos p0) (endPos p1)) (m, m.size) = (m, m.size) := by
    refine List.foldlRecOn (motive := fun r => r = (m, m.size)) _ _ rfl ?_
    rintro r rfl i hi
    exact rmCell_of_not hseq fun hhas => hcov i (h.eq_of_hasSeqId (List.mem_range.1 hi) hhas)
  rw [hloop]
  unfold lowerHead
  rw [if_neg fun hc => hc.1 rfl]

lemma Core.seqRm_of_covers (h : m.Core) (hseq : 0 ≤ seq) (hlt : seq < m.size)
    (hpart : ¬ m.Partial seq (startPos p0) (endPos p1)) (ht : m.tail seq.toNat = some t)
    (hpos : startPos p0 ≤ (m.cells t).pos) (hpos' : (m.cells t).pos < endPos p1) :
    ∃ hd, (hd = m.head ∨ hd < m.head) ∧ m.seqRm seq p0 p1 = (true, { m.release seq.toNat with head := hd }) := by
  have hs : seq.toNat < m.size := by omega
  obtain ⟨htlt, hmem⟩ := (h.tail _ hs t).1 ht
  have hhas : (m.cells t).hasSeqId seq := ⟨hseq, hmem⟩
  have htail : m.rmTail seq (startPos p0) (endPos p1) = m.modify seq.toNat fun c => { c with tail := none } := by
    unfold rmTail
    rw [ht]
    dsimp only
    rw [if_pos ⟨hpos, hpos'⟩]
  have hpos0 : 0 ≤ (m.cells t).pos := by
    unfold startPos at hpos
    split at hpos <;> omega
  obtain ⟨m1, hm1⟩ : ∃ m1, m1 = m.modify seq.toNat fun c => { c with tail := none } := ⟨_, rfl⟩
  have hfield : ∀ i, (m1.cells i).pos = (m.cells i).pos ∧ (m1.cells i).seqId = (m.cells i).seqId := by
    intro i
    rw [hm1]
    exact ⟨modify_field MemCell.pos (by intro; rfl) i, modify_field MemCell.seqId (by intro; rfl) i⟩
  have hsize : m1.size = m.size := by rw [hm1, modify_size]
  have hused : m1.used = m.used := by rw [hm1, modify_used]
  have hleave : m.leave seq.toNat t = m1.modify t fun c => { c with seqId := c.seqId.erase seq.toNat } := by
    unfold leave
    rw [hm1]
    exact modify_comm fun _ => rfl
  have hat : rmCell seq (startPos p0) (endPos p1) (m1, m.size) t =
      (m.release seq.toNat, if m.Freed seq.toNat t then t else m.size) := by
    unfold rmCell
    dsimp only
    rw [(hfield t).1, (hfield t).2, if_neg (Int.not_lt.2 hseq),
      if_pos ⟨hpos, hpos', .inr ⟨hseq, by rw [(hfield t).2]; exact hmem⟩⟩, if_pos hpos0]
    unfold Recurrent.release
    rw [ht]
    dsimp only
    by_cases hf : m.Freed seq.toNat t
    · rw [if_pos hf.2, if_pos hf, if_pos ((isEmpty_leave ht).2 hf), hleave, modify_modify, hused,
        if_pos hsize.symm]
      refine congrArg (fun x : Recurrent => ({ x with used := decr m.used }, t)) (modify_congr ?_)
      rw [(hfield t).2]
    · rw [if_neg fun he => hf ⟨ht, he⟩, if_neg hf, if_neg fun he => hf ((isEmpty_leave ht).1 he), hleave]
      refine congrArg (fun x : Recurrent => (x, m.size)) (modify_congr ?_)
      rw [(hfield t).2]
  have hloop : (List.range m.size).foldl (rmCell seq (startPos p0) (endPos p1)) (m1, m.size) =
      (m.release seq.toNat, if m.Freed seq.toNat t then t else m.size) := by
    refine foldl_range_single htlt (fun i hi => ?_) hat (fun i hi hisz => ?_)
    · refine rmCell_of_not hseq fun hc => ?_
      unfold MemCell.hasSeqId at hc
      rw [(hfield i).2] at hc
      have hit := h.eq_of_hasSeqId (hi.trans htlt) hc
      rw [ht] at hit
      cases hit
      omega
    · refine rmCell_of_not hseq fun hc => ?_
      unfold MemCell.hasSeqId at hc
      rw [seqId_release, if_neg fun hti => by rw [ht] at hti; cases hti; omega] at hc
      have hit := h.eq_of_hasSeqId hisz hc
      rw [ht] at hit
      cases hit
      omega
  unfold seqRm
  dsimp only
  rw [if_neg (by omega), if_neg fun hc => hpart hc.2, if_neg fun hc => by omega, if_pos hseq, htail, ← hm1]
  rw [hsize, hloop]
  obtain ⟨hd, hhd, heq⟩ := lowerHead_eq (m.release seq.toNat, if m.Freed seq.toNat t then t else m.size)
  rw [heq]
  rw [head_release] at hhd
  exact ⟨hd, hhd, rfl⟩

lemma Core.seqRm_eq (h : m.Core) (p0 p1 : Int) (hseq : 0 ≤ seq) : (m.seqRm seq p0 p1).2 = m ∨
    seq.toNat < m.size ∧ ∃ hd, (hd < m.size ∨ hd = 0) ∧
      (m.seqRm seq p0 p1).2 = { m.release seq.toNat with head := hd } := by
  by_cases hlt : seq < m.size
  · by_cases hpart : m.Partial seq (startPos p0) (endPos p1)
    · refine .inl ?_
      unfold seqRm
      dsimp only
      rw [if_neg (by omega), if_pos ⟨hseq, hpart⟩]
    · by_cases hcov : ∃ t ∈ m.tail seq.toNat, startPos p0 ≤ (m.cells t).pos ∧ (m.cells t).pos < endPos p1
      · obtain ⟨t, ht, hpos, hpos'⟩ := hcov
        obtain ⟨hd, hhd, heq⟩ := h.seqRm_of_covers hseq hlt hpart ht hpos hpos'
        refine .inr ⟨by omega, hd, ?_, by rw [heq]⟩
        have hhead := h.head
        omega
      · exact .inl (h.seqRm_of_not hseq fun t ht h0 h1 => hcov ⟨t, ht, h0, h1⟩)
  · refine .inl ?_
    unfold seqRm
    dsimp only
    rw [if_pos (by omega)]

lemma Inv.seqRm (h : m.Inv) (hseq : 0 ≤ seq) : (m.seqRm seq p0 p1).2.Inv := by
  obtain heq | ⟨hs, hd, hhd, heq⟩ := h.toCore.seqRm_eq p0 p1 hseq
  · rw [heq]
    exact h
  · rw [heq]
    exact (h.release hs).setHead (by rw [size_release]; exact hhd)

end SeqRm

section SeqCp
variable {m : Recurrent} {seq src dst : Int} {i : Nat}

lemma seqId_enter (i : Nat) (m : Recurrent) (seq : Int) (j : Nat) : ((enter i m seq).cells j).seqId =
    if j = i then insert seq.toNat (m.cells j).seqId else (m.cells j).seqId := by
  unfold enter
  refine (modify_field MemCell.seqId (by intro; rfl) j).trans ?_
  by_cases hj : j = i
  · subst hj
    rw [if_pos rfl, modify_self]
  · rw [if_neg hj, modify_of_ne hj]

lemma tail_enter (i : Nat) (m : Recurrent) (seq : Int) (q : Nat) :
    (enter i m seq).tail q = if q = seq.toNat then some i else m.tail q := by
  unfold enter tail
  by_cases hq : q = seq.toNat
  · subst hq
    rw [if_pos rfl, modify_self]
  · rw [if_neg hq, modify_of_ne hq]
    exact modify_field MemCell.tail (by intro; rfl) q

lemma field_enter {α : Type} (g : MemCell → α) (hset : ∀ c x, g { c with seqId := x } = g c)
    (htail : ∀ c x, g { c with tail := x } = g c) (i : Nat) (m : Recurrent) (seq : Int) (j : Nat) :
    g ((enter i m seq).cells j) = g (m.cells j) := by
  unfold enter
  rw [modify_field g fun c => htail c _, modify_field g fun c => hset c _]

lemma isEmpty_enter (seq : Int) (hne : ¬ (m.cells i).isEmpty) (j : Nat) :
    ((enter i m seq).cells j).isEmpty ↔ (m.cells j).isEmpty := by
  unfold MemCell.isEmpty at hne ⊢
  rw [seqId_enter]
  split
  · rename_i hj
    subst hj
    exact iff_of_false (insert_ne_empty _ _) hne
  · rfl

lemma Core.enter (h : m.Core) (hs : seq.toNat < m.size) (hnone : m.tail seq.toNat = none) (hi : i < m.size)
    (hne : ¬ (m.cells i).isEmpty) : (enter i m seq).Core := by
  have hset := seqId_enter i m seq
  have hempty := isEmpty_enter seq hne
  refine ⟨h.head, ?_, ?_, ?_, ?_⟩
  · intro j hj q hq
    rw [hset] at hq
    split at hq
    · obtain rfl | hq := mem_insert.1 hq
      · exact hs
      · exact h.bound j hj q hq
    · exact h.bound j hj q hq
  · intro q hq t
    rw [tail_enter, hset]
    by_cases hqs : q = seq.toNat
    · subst hqs
      have hno : ∀ t, t < m.size → seq.toNat ∉ (m.cells t).seqId := by
        intro t ht hmem
        rw [(h.tail _ hs t).2 ⟨ht, hmem⟩] at hnone
        cases hnone
      rw [if_pos rfl]
      constructor
      · intro he
        cases he
        exact ⟨hi, by rw [if_pos rfl]; exact Finset.mem_insert_self _ _⟩
      · rintro ⟨ht, hmem⟩
        split at hmem
        · rename_i hti
          rw [hti]
        · exact absurd hmem (hno t ht)
    · rw [if_neg hqs, h.tail q hq]
      refine and_congr_right fun ht => ?_
      split
      · rw [mem_insert, or_iff_right hqs]
      · rfl
  · intro j hj he
    rw [field_enter MemCell.pos (fun _ _ => rfl) (fun _ _ => rfl)]
    exact h.empty j hj ((hempty j).1 he)
  · intro j hj
    rw [field_enter MemCell.src (fun _ _ => rfl) (fun _ _ => rfl), hempty]
    exact h.src j hj

lemma Inv.enter (h : m.Inv) (hs : seq.toNat < m.size) (hnone : m.tail seq.toNat = none) (hi : i < m.size)
    (hne : ¬ (m.cells i).isEmpty) : (enter i m seq).Inv := by
  refine ⟨h.toCore.enter hs hnone hi hne, h.small, h.used.trans (Eq.symm ?_)⟩
  exact countUsed_congr rfl fun j _ => isEmpty_enter seq hne j

lemma Core.seqCp_eq (h : m.Core) (src dst : Int) :
    (src = dst ∨ ¬ (0 ≤ dst ∧ dst < m.size ∧ 0 ≤ src ∧ src < m.size)) ∧ m.seqCp src dst = m ∨
    src ≠ dst ∧ src.toNat < m.size ∧ dst.toNat < m.size ∧ 0 ≤ src ∧ 0 ≤ dst ∧ ((m.tail src.toNat = none ∧ m.seqCp src dst = m.release dst.toNat) ∨
      ∃ t, m.tail src.toNat = some t ∧ t < m.size ∧ ¬ ((m.release dst.toNat).cells t).isEmpty ∧
        m.seqCp src dst = Recurrent.enter t (m.release dst.toNat) dst) := by
  unfold seqCp
  split
  · rename_i heq
    exact .inl ⟨.inl heq, rfl⟩
  rename_i hne
  split
  · rename_i hb
    have hs : src.toNat < m.size := by omega
    have hd : dst.toNat < m.size := by omega
    have hsd : src.toNat ≠ dst.toNat := by omega
    refine .inr ⟨hne, hs, hd, hb.2.2.1, hb.1, ?_⟩
    dsimp only
    rw [tail_release, if_neg hsd]
    cases ht : m.tail src.toNat with
    | none => exact .inl ⟨rfl, rfl⟩
    | some t =>
      obtain ⟨htlt, hmem⟩ := (h.tail _ hs t).1 ht
      refine .inr ⟨t, rfl, htlt, fun he => ?_, rfl⟩
      unfold MemCell.isEmpty at he
      rw [seqId_release] at he
      have hin : src.toNat ∈ if m.tail dst.toNat = some t then (m.cells t).seqId.erase dst.toNat
          else (m.cells t).seqId := by
        split
        · exact mem_erase.2 ⟨hsd, hmem⟩
        · exact hmem
      rw [he] at hin
      exact notMem_empty _ hin
  · rename_i hb
    exact .inl ⟨.inr hb, rfl⟩

lemma Inv.seqCp (h : m.Inv) : (m.seqCp src dst).Inv := by
  obtain ⟨-, heq⟩ | ⟨-, -, hd, -, -, ⟨-, heq⟩ | ⟨t, -, htlt, hne, heq⟩⟩ := h.toCore.seqCp_eq src dst
  · rw [heq]
    exact h
  · rw [heq]
    exact h.release hd
  · rw [heq]
    refine (h.release hd).enter (by rw [size_release]; exact hd) ?_ (by rw [size_release]; exact htlt) hne
    rw [tail_release, if_pos rfl]

lemma Inv.movePos (h : m.Inv) {p0 p1 : Int} {f : Int → Int} : (m.movePos seq p0 p1 f).Inv := by
  unfold Recurrent.movePos
  split
  · rename_i hseq
    split
    · exact h
    · rename_i t ht
      split
      · rename_i hc
        have hset : ∀ j, ((m.modify t fun c => { c with pos := f c.pos }).cells j).seqId =
            (m.cells j).seqId := modify_field MemCell.seqId (by intro; rfl)
        have hempty : ∀ j, ((m.modify t fun c => { c with pos := f c.pos }).cells j).isEmpty ↔
            (m.cells j).isEmpty := by
          intro j
          unfold MemCell.isEmpty
          rw [hset]
        refine ⟨⟨h.head, ?_, ?_, ?_, ?_⟩, h.small, ?_⟩
        · intro j hj q hq
          rw [hset] at hq
          exact h.bound j hj q hq
        · intro q hq t'
          unfold Recurrent.tail
          rw [hset, modify_field MemCell.tail (by intro; rfl)]
          exact h.tail q hq t'
        · intro j hj he
          have hjt : j ≠ t := by
            rintro rfl
            exact notMem_empty _ (((hempty j).1 he) ▸ hc.1.2)
          rw [modify_of_ne hjt]
          exact h.empty j hj ((hempty j).1 he)
        · intro j hj
          rw [modify_field MemCell.src (by intro; rfl), hempty]
          exact h.src j hj
        · refine h.used.trans (Eq.symm ?_)
          exact countUsed_congr rfl fun j _ => hempty j
      · exact h
  · exact h

lemma Inv.seqAdd (h : m.Inv) {p0 p1 shift : Int} : (m.seqAdd seq p0 p1 shift).Inv := by
  unfold Recurrent.seqAdd
  split
  · exact h
  split
  · exact h
  · exact h.movePos

lemma Inv.seqDiv (h : m.Inv) {p0 p1 d : Int} : (m.seqDiv seq p0 p1 d).Inv := by
  unfold Recurrent.seqDiv
  split
  · exact h
  split
  · exact h
  · exact h.movePos

end SeqCp

section SeqKeep
variable {m : Recurrent} {seq p0 p1 : Int}

/-- Where `seq_keep` counts correctly: the cells it frees have positions that are not negative. -/
def KeepSafe (m : Recurrent) (seq : Int) : Prop :=
  ∀ i < m.size, ¬ (m.cells i).isEmpty → ¬ (m.cells i).hasSeqId seq → 0 ≤ (m.cells i).pos

/-- What `seq_keep` makes of cell `i`. -/
def kept (seq : Int) (i : Nat) (c : MemCell) : MemCell :=
  if c.hasSeqId seq then { c with tail := if (i : Int) = seq then c.tail else none, seqId := {seq.toNat} }
  else { c with tail := if (i : Int) = seq then c.tail else none, pos := -1, src := none, seqId := ∅ }

lemma keepCell_eq (seq : Int) (r : Recurrent × Nat) (i : Nat) : ∃ nh, keepCell seq r i =
    ({ r.1.modify i (kept seq i) with
        used := if ¬ (r.1.cells i).hasSeqId seq ∧ 0 ≤ (r.1.cells i).pos then decr r.1.used else r.1.used },
      nh) := by
  unfold keepCell
  obtain ⟨m', hm'⟩ : ∃ m', m' = if (i : Int) ≠ seq then r.1.modify i fun c => { c with tail := none }
    else r.1 := ⟨_, rfl⟩
  have hmod : ∀ g : MemCell → MemCell, m'.modify i g =
      r.1.modify i fun c => g { c with tail := if (i : Int) = seq then c.tail else none } := by
    intro g
    rw [hm']
    by_cases hi : (i : Int) = seq
    · rw [if_neg (not_not.2 hi)]
      refine modify_congr ?_
      rw [if_pos hi]
    · rw [if_pos hi, modify_modify]
      refine modify_congr ?_
      rw [if_neg hi]
  have hcell : (m'.cells i).pos = (r.1.cells i).pos ∧ (m'.cells i).seqId = (r.1.cells i).seqId ∧
      m'.used = r.1.used := by
    rw [hm']
    split
    · rw [modify_self]
      exact ⟨rfl, rfl, rfl⟩
    · exact ⟨rfl, rfl, rfl⟩
  have hhas : (m'.cells i).hasSeqId seq ↔ (r.1.cells i).hasSeqId seq := by
    unfold MemCell.hasSeqId
    rw [hcell.2.1]
  dsimp only
  rw [← hm', hcell.1, hcell.2.2]
  by_cases hc : (r.1.cells i).hasSeqId seq
  · refine ⟨r.2, ?_⟩
    rw [if_neg (not_not.2 (hhas.2 hc)), if_neg fun h => h.1 hc, hmod]
    refine congrArg (fun x : Recurrent => (x, r.2)) (modify_congr ?_)
    rw [kept, if_pos hc]
  · refine ⟨if r.2 = m'.size then i else r.2, ?_⟩
    rw [if_pos fun h => hc (hhas.1 h), hmod]
    have hkept : (r.1.modify i fun c => { c with
        pos := -1, src := none, tail := if (i : Int) = seq then c.tail else none, seqId := ∅ }) =
        r.1.modify i (kept seq i) := by
      refine modify_congr ?_
      rw [kept, if_neg hc]
    rw [hkept]
    simp only [hc, not_false_eq_true, true_and]

lemma Core.keepLoop (h : m.Core) {k : Nat} (hk : k ≤ m.size) :
    ∃ m' nh, (List.range k).foldl (keepCell seq) (m, m.size) = (m', nh) ∧ m'.size = m.size ∧
      m'.head = m.head ∧ (m.Inv → m.KeepSafe seq → m'.used = m'.countUsed) ∧
      ∀ i, m'.cells i = if i < k then kept seq i (m.cells i) else m.cells i := by
  induction k with
  | zero => exact ⟨m, m.size, rfl, rfl, rfl, fun hm _ => hm.used, fun i => rfl⟩
  | succ k ih =>
    obtain ⟨m', nh, hrun, hsize, hhead, hused, hcells⟩ := ih (by omega)
    obtain ⟨nh', hstep⟩ := keepCell_eq seq (m', nh) k
    have hkcell : m'.cells k = m.cells k := by rw [hcells, if_neg (lt_irrefl k)]
    rw [range_succ, foldl_append, hrun, foldl_cons, foldl_nil, hstep]
    dsimp only
    refine ⟨_, nh', rfl, hsize, hhead, ?_, ?_⟩
    · intro hm hsafe
      specialize hused hm hsafe
      rw [hkcell]
      have hrest : ∀ j < m'.size, j ≠ k → (((m'.modify k (kept seq k)).cells j).isEmpty ↔
          (m'.cells j).isEmpty) := by
        intro j _ hj
        rw [modify_of_ne hj]
      by_cases hc : (m.cells k).hasSeqId seq
      · rw [if_neg fun hn => hn.1 hc]
        refine hused.trans (Eq.symm ?_)
        refine countUsed_congr rfl fun j hj => ?_
        by_cases hjk : j = k
        · subst hjk
          show ((m'.modify j (kept seq j)).cells j).isEmpty ↔ _
          rw [modify_self, hkcell, kept, if_pos hc]
          unfold MemCell.isEmpty
          exact iff_of_false (singleton_ne_empty _) fun he => notMem_empty _ (he ▸ hc.2)
        · exact hrest j hj hjk
      · have hnew : ((m'.modify k (kept seq k)).cells k).isEmpty := by
          rw [modify_self, hkcell, kept, if_neg hc]
          rfl
        by_cases he : (m.cells k).isEmpty
        · rw [if_neg fun hn => by rw [h.empty k (by omega) he] at hn; omega]
          refine hused.trans (Eq.symm ?_)
          refine countUsed_congr rfl fun j hj => ?_
          by_cases hjk : j = k
          · subst hjk
            exact iff_of_true hnew (by rw [hkcell]; exact he)
          · exact hrest j hj hjk
        · rw [if_pos ⟨hc, hsafe k (by omega) he hc⟩, hused]
          have hcount : (m'.modify k (kept seq k)).countUsed + 1 = m'.countUsed :=
            countUsed_of_freed rfl (i := k) (by omega) (by rw [hkcell]; exact he) hnew hrest
          have hle := countUsed_le m'
          have hsmall := hm.small
          rw [← hcount, decr_succ (by omega)]
          rfl
    · intro i
      show (m'.modify k (kept seq k)).cells i = _
      by_cases hik : i = k
      · subst hik
        rw [modify_self, hkcell, if_pos (Nat.lt_succ_self i)]
      · rw [modify_of_ne hik, hcells]
        by_cases hlt : i < k
        · rw [if_pos hlt, if_pos (by omega)]
        · rw [if_neg hlt, if_neg (by omega)]

/-- What `seq_keep` does to every cell. -/
lemma Core.seqKeep_eq (h : m.Core) (seq : Int) : (m.seqKeep seq).Core ∧ (m.seqKeep seq).size = m.size ∧
    (m.Inv → m.KeepSafe seq → (m.seqKeep seq).used = (m.seqKeep seq).countUsed) ∧
    ∀ i < m.size, (m.seqKeep seq).cells i = kept seq i (m.cells i) := by
  obtain ⟨m', nh, hrun, hsize, hhead, hused, hcells⟩ := h.keepLoop (le_refl m.size)
  obtain ⟨hd, hhd, heq⟩ := lowerHead_eq (m', nh)
  have hcells' : ∀ i < m.size, m'.cells i = kept seq i (m.cells i) := by
    intro i hi
    rw [hcells, if_pos hi]
  have hset : ∀ i < m.size, ∀ s, s ∈ (m'.cells i).seqId ↔ s ∈ (m.cells i).seqId ∧ (s : Int) = seq := by
    intro i hi s
    rw [hcells' i hi, kept]
    split
    · rename_i hc
      rw [Finset.mem_singleton]
      constructor
      · rintro rfl
        exact ⟨hc.2, Int.toNat_of_nonneg hc.1⟩
      · rintro ⟨-, rfl⟩
        rfl
    · rename_i hc
      refine iff_of_false (notMem_empty _) ?_
      rintro ⟨hs, rfl⟩
      exact hc ⟨Int.natCast_nonneg s, hs⟩
  unfold seqKeep
  rw [hrun, heq]
  refine ⟨Core.setHead ?_ ?_, hsize, hused, hcells'⟩
  · refine ⟨by rw [hsize, hhead]; exact h.head, ?_, ?_, ?_, ?_⟩
    · intro i hi s hs
      rw [hsize] at hi ⊢
      exact h.bound i hi s ((hset i hi s).1 hs).1
    · intro s hs t
      rw [hsize] at hs ⊢
      have htail : m'.tail s = if (s : Int) = seq then m.tail s else none := by
        unfold Recurrent.tail
        rw [hcells' s hs, kept]
        split <;> rfl
      rw [htail]
      split
      · rename_i hseq
        rw [h.tail s hs]
        refine and_congr_right fun ht => ?_
        rw [hset t ht]
        exact (and_iff_left hseq).symm
      · rename_i hseq
        refine iff_of_false (by simp) ?_
        rintro ⟨ht, hmem⟩
        exact hseq ((hset t ht s).1 hmem).2
    · intro i hi he
      rw [hsize] at hi
      rw [hcells' i hi, kept] at he ⊢
      split at he
      · exact absurd he (singleton_ne_empty _)
      · rename_i hc
        rw [if_neg hc]
    · intro i hi
      rw [hsize] at hi
      rw [hcells' i hi, kept]
      split
      · rename_i hc
        refine .inl ?_
        obtain hsrc | ⟨-, he⟩ := h.src i hi
        · exact hsrc
        · exact absurd hc.2 (by rw [he]; exact notMem_empty _)
      · exact .inr ⟨rfl, rfl⟩
  · have hh := h.head
    dsimp only at hhd
    rw [hhead] at hhd
    rw [hsize]
    omega

lemma Inv.seqKeep (h : m.Inv) (hsafe : m.KeepSafe seq) : (m.seqKeep seq).Inv := by
  obtain ⟨hcore, hsize, hused, -⟩ := h.toCore.seqKeep_eq seq
  exact ⟨hcore, by rw [hsize]; exact h.small, hused h hsafe⟩

/-- Where `seq_rm` of all sequences leaves no tail behind: there is nothing to remove. -/
def RmSafe (m : Recurrent) (seq p0 p1 : Int) : Prop :=
  seq < 0 → startPos p0 = 0 → endPos p1 = 2147483647 →
    ∀ i < m.size, ¬ (m.cells i).isEmpty → 0 ≤ (m.cells i).pos → ¬ (m.cells i).pos < 2147483647

lemma Core.seqRm_neg (h : m.Core) (hseq : seq < 0) (hsafe : m.RmSafe seq p0 p1) : (m.seqRm seq p0 p1).2 = m := by
  unfold Recurrent.seqRm
  dsimp only
  rw [if_neg (by omega), if_neg (by omega)]
  split
  · rfl
  rename_i hall
  rw [if_neg (by omega)]
  have hnone : ∀ i < m.size, ¬ (startPos p0 ≤ (m.cells i).pos ∧ (m.cells i).pos < endPos p1) := by
    rintro i hi ⟨h0, h1⟩
    have hp0 : 0 ≤ startPos p0 := by
      unfold startPos
      split <;> omega
    have hne : startPos p0 ≠ endPos p1 := by omega
    have hrange : startPos p0 = 0 ∧ endPos p1 = 2147483647 := by
      by_contra hc
      refine hall ⟨hseq, hne, ?_⟩
      omega
    by_cases he : (m.cells i).isEmpty
    · have hpos := h.empty i hi he
      omega
    · exact hsafe hseq hrange.1 hrange.2 i hi he (by omega) (by omega)
  have hloop : (List.range m.size).foldl (rmCell seq (startPos p0) (endPos p1)) (m, m.size) = (m, m.size) := by
    refine List.foldlRecOn (motive := fun r => r = (m, m.size)) _ _ rfl ?_
    rintro r rfl i hi
    unfold rmCell
    dsimp only
    rw [if_neg fun hc => hnone i (List.mem_range.1 hi) ⟨hc.1, hc.2.1⟩]
  rw [hloop]
  unfold lowerHead
  rw [if_neg fun hc => hc.1 rfl]

end SeqKeep

end Recurrent

end Mallana
