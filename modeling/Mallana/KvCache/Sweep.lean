import Mallana.KvCells.Invariant
import Mallana.KvCache.Ubatch

/-!
# What the cell loops do

The loops over the cells of one stream visit each cell once, and every visit changes at most the cell
it is at. `IsVisit f g` states this for a visit `f` with the effect `g` on the contents of the cell;
`cell_sweep` lifts it to the whole loop and `Inv.sweep` lifts the representation invariant. The
removals of sequences (`seq_rm`, and the purge of `apply_ubatch`) only cut cells down: `Cell.Cut y x`
says that `y` is `x` with some sequences removed, or the empty cell if none was left.
-/

namespace Mallana

open Lib List

/-- `y` is what is left of `x` after removing sequences. -/
def Cell.Cut (y x : Cell) : Prop :=
  y = x ∨ (y.seq ⊂ x.seq ∧ (y = {} ∨ (y.seq ≠ ∅ ∧ y = { x with seq := y.seq })))

namespace Cell

lemma Cut.refl (x : Cell) : Cut x x := .inl rfl

variable {x y : Cell}

lemma Cut.trans {z : Cell} (h1 : Cut z y) (h2 : Cut y x) : Cut z x := by
  obtain rfl | ⟨hs1, h1⟩ := h1
  · exact h2
  obtain rfl | ⟨hs2, h2⟩ := h2
  · exact .inr ⟨hs1, h1⟩
  refine .inr ⟨hs1.trans hs2, ?_⟩
  obtain h1 | h1 := h1
  · exact .inl h1
  obtain rfl | h2 := h2
  · exact absurd hs1 (by simp)
  · right
    refine ⟨h1.1, ?_⟩
    rw [h1.2, h2.2]

lemma Cut.seq_subset (h : Cut y x) : y.seq ⊆ x.seq := by
  obtain rfl | ⟨hs, _⟩ := h
  · rfl
  · exact hs.1

lemma Cut.eq_of_seq_eq (h : Cut y x) (e : y.seq = x.seq) : y = x := by
  obtain rfl | ⟨hs, _⟩ := h
  · rfl
  · exact absurd e hs.ne

lemma Cut.pos_eq (h : Cut y x) (hy : y.pos ≠ -1) : y.pos = x.pos := by
  obtain rfl | ⟨_, rfl | ⟨_, h⟩⟩ := h
  · rfl
  · exact absurd rfl hy
  · rw [h]

lemma Cut.pos_ne (h : Cut y x) (hy : y.pos ≠ -1) : x.pos ≠ -1 := by
  rw [← h.pos_eq hy]
  exact hy

lemma Cut.shift_eq_zero (h : Cut y x) (hx : x.shift = 0) : y.shift = 0 := by
  obtain rfl | ⟨_, rfl | ⟨_, h⟩⟩ := h
  · exact hx
  · rfl
  · rw [h]
    exact hx

lemma Cut.seq_ne (h : Cut y x) (hy : y.pos ≠ -1) (hx : x.seq ≠ ∅) : y.seq ≠ ∅ := by
  obtain rfl | ⟨_, rfl | ⟨hne, _⟩⟩ := h
  · exact hx
  · exact absurd rfl hy
  · exact hne

/-- The cell after removing sequence `s` from it. -/
def erase (s : SeqId) (x : Cell) : Cell :=
  if x.seq.erase s = ∅ then {} else { x with seq := x.seq.erase s }

lemma cut_erase {s : SeqId} (h : s ∈ x.seq) : Cut (x.erase s) x := by
  right
  have hss := Finset.erase_ssubset h
  by_cases he : x.seq.erase s = ∅
  · rw [he] at hss
    simp [erase, he, hss]
  · simp [erase, he, hss]

lemma seq_erase (s : SeqId) (x : Cell) : (x.erase s).seq = x.seq.erase s := by
  by_cases he : x.seq.erase s = ∅ <;> simp [erase, he]

end Cell

namespace KvCells

lemma cells_ext {c d : KvCells} (hs : c.size = d.size) (h : ∀ i, c.cell i = d.cell i) : c.cells = d.cells :=
  ext_getD {} hs fun i _ => h i

section Updates
variable (c : KvCells) (i j : Nat) (s : SeqId)

@[simp] lemma size_rm : (c.rm i).size = c.size := by
  simp [rm, putCell, seqPosRm, size]

lemma cell_rm : (c.rm i).cell j = if i = j ∧ j < c.size then {} else c.cell j :=
  cell_putCell c i j {}

@[simp] lemma size_seqRm : (c.seqRm i s).1.size = c.size := by
  by_cases he : (c.cell i).seq.erase s = ∅ <;> simp [seqRm, he, putCell, seqPosDec, size]

@[simp] lemma hasShift_seqRm : (c.seqRm i s).1.hasShift = c.hasShift := by
  by_cases he : (c.cell i).seq.erase s = ∅ <;> simp [seqRm, he, putCell, seqPosDec]

lemma cell_seqRm : (c.seqRm i s).1.cell j = if i = j ∧ j < c.size then (c.cell j).erase s else c.cell j := by
  unfold seqRm
  by_cases he : (c.cell i).seq.erase s = ∅
  · simp only [he, if_true]
    have e : ∀ x y : Cell, (((c.putCell i x).seqPosDec s (c.cell i).pos).putCell i y).cell j =
        (c.putCell i y).cell j := by
      intro x y
      simp [putCell, seqPosDec, cell, modify_modify_eq, Function.comp_def]
    refine (e _ _).trans ?_
    rw [cell_putCell]
    by_cases hj : i = j
    · subst hj
      simp [Cell.erase, he]
    · simp [hj]
  · simp only [he, if_false]
    rw [cell_seqPosDec, cell_putCell]
    by_cases hj : i = j
    · subst hj
      simp [Cell.erase, he]
    · simp [hj]

@[simp] lemma size_seqKeep : (c.seqKeep i s).1.size = c.size := by
  by_cases hs : s ∈ (c.cell i).seq
  · simp [seqKeep, hs, putCell, seqPosInc, seqPosRm, size]
  · by_cases he : (c.cell i).seq = ∅ <;> simp [seqKeep, hs, he, putCell, seqPosRm, size]

lemma pos_seqKeep (h : ((c.seqKeep i s).1.cell j).pos ≠ -1) : (c.cell j).pos ≠ -1 := by
  have hput : ∀ x : Cell, (x.pos ≠ -1 → (c.cell i).pos ≠ -1) →
      ((c.putCell i x).cell j).pos ≠ -1 → (c.cell j).pos ≠ -1 := by
    intro x hx
    rw [cell_putCell]
    split
    · rename_i hij
      rw [← hij.1]
      exact hx
    · exact id
  by_cases hs : s ∈ (c.cell i).seq
  · simp only [seqKeep, hs, if_true] at h
    exact hput { c.cell i with seq := {s} } id h
  · by_cases he : (c.cell i).seq = ∅
    · simpa [seqKeep, hs, he] using h
    · simp only [seqKeep, hs, if_false, ne_eq, he, not_false_eq_true, if_true] at h
      exact hput {} (fun e => absurd rfl e) h

@[simp] lemma size_posAdd (d : Int) : (c.posAdd i d).1.size = c.size := by
  by_cases hd : (c.cell i).pos + d < 0 <;>
    simp [posAdd, hd, putCell, seqPosRm, seqPosAdd, size]

lemma cell_posAdd (d : Int) : (c.posAdd i d).1.cell j = if i = j ∧ j < c.size then
      if (c.cell j).pos + d < 0 then { c.cell j with pos := -1, shift := 0, seq := ∅ }
      else { c.cell j with pos := (c.cell j).pos + d, shift := (c.cell j).shift + d }
    else c.cell j := by
  unfold posAdd
  by_cases hd : (c.cell i).pos + d < 0
  · simp only [hd, if_true]
    refine (cell_putCell c i j _).trans ?_
    by_cases hj : i = j
    · subst hj
      simp [hd]
    · simp [hj]
  · simp only [hd, if_false]
    refine (cell_putCell c i j _).trans ?_
    by_cases hj : i = j
    · subst hj
      simp [hd]
    · simp [hj]

@[simp] lemma size_posDiv (d : Int) : (c.posDiv i d).size = c.size := by
  simp [posDiv, putCell, seqPosRm, seqPosAdd, size]

@[simp] lemma size_posSet (p : Int) : (c.posSet i p).size = c.size := by
  simp [posSet, putCell, size]

lemma cell_posSet (p : Int) :
    (c.posSet i p).cell j = if i = j ∧ j < c.size then { c.cell j with pos := p } else c.cell j := by
  refine (cell_putCell c i j _).trans ?_
  by_cases hj : i = j
  · subst hj
    rfl
  · simp [hj]

@[simp] lemma size_extSet (x : KvCellExt) : (c.extSet i x).size = c.size := by
  simp [extSet]

lemma cell_extSet (x : KvCellExt) :
    (c.extSet i x).cell j = if i = j ∧ j < c.size then { c.cell j with ext := x } else c.cell j := by
  refine (cell_putCell c i j _).trans ?_
  by_cases hj : i = j
  · subst hj
    rfl
  · simp [hj]

@[simp] lemma size_seqAdd : (c.seqAdd i s).size = c.size := by
  simp [seqAdd, seqPosInc, putCell, size]

lemma cell_seqAdd : (c.seqAdd i s).cell j =
    if i = j ∧ j < c.size then { c.cell j with seq := insert s (c.cell j).seq } else c.cell j := by
  refine (cell_putCell c i j _).trans ?_
  by_cases hj : i = j
  · subst hj
    rfl
  · simp [hj]

@[simp] lemma size_reset : c.reset.size = c.size := by
  simp [reset, size]

@[simp] lemma cell_reset : c.reset.cell i = {} := by
  by_cases hi : i < c.cells.length <;> simp [reset, cell, hi]

@[simp] lemma size_resize (n : Nat) : (c.resize n).size = n := by
  simp only [resize, reset, size, length_map, length_append, length_take, length_replicate]
  omega

@[simp] lemma cell_resize (n : Nat) : (c.resize n).cell i = {} :=
  cell_reset _ i

end Updates

/-- Visiting cell `i` with `f` applies `g` to that cell and leaves all others alone. -/
structure IsVisit (f : KvCells → Nat → KvCells × Bool) (g : Cell → Cell) : Prop where
  size : ∀ c i, (f c i).1.size = c.size
  cell : ∀ c i j, i < c.size → (f c i).1.cell j = if i = j then g (c.cell j) else c.cell j

variable {f : KvCells → Nat → KvCells × Bool} {g : Cell → Cell}

lemma cell_foldl_visit (h : IsVisit f g) (c : KvCells) (m k : Nat) (hk : k ≤ c.size) :
    let r := (List.range k).foldl
      (fun (acc : KvCells × Nat) i =>
        ((f acc.1 i).1, if (f acc.1 i).2 ∧ acc.2 = m then i else acc.2)) (c, m)
    r.1.size = c.size ∧ ∀ j, r.1.cell j = if j < k then g (c.cell j) else c.cell j := by
  induction k with
  | zero => simp
  | succ k ih =>
    obtain ⟨hs, hc⟩ := ih (by omega)
    rw [range_succ, foldl_append]
    refine ⟨(h.size _ _).trans hs, ?_⟩
    intro j
    refine (h.cell _ k j (by rw [hs]; omega)).trans ?_
    rw [hc j]
    by_cases hj : k = j
    · subst hj
      simp
    · have : j < k + 1 ↔ j < k := by omega
      simp [hj, this]

lemma cell_sweep (h : IsVisit f g)
    (hg : g {} = {}) (c : KvCells) (j : Nat) : (c.sweep f).1.cell j = g (c.cell j) := by
  have hc := (cell_foldl_visit h c c.size c.size le_rfl).2 j
  refine hc.trans ?_
  by_cases hj : j < c.size
  · simp [hj]
  · simp [hj, cell_of_size_le (Nat.le_of_not_lt hj), hg]

lemma sweep_induction {P : KvCells → Prop}
    (hstep : ∀ c i, P c → P (f c i).1) {c : KvCells} (h : P c) : P (c.sweep f).1 := by
  unfold sweep
  generalize hm : (c, c.size) = acc
  have h' : P acc.1 := by
    rw [← hm]
    exact h
  clear hm
  generalize List.range c.size = is
  induction is generalizing acc with
  | nil => exact h'
  | cons i is ih => exact ih _ (hstep _ _ h')

end KvCells

end Mallana
