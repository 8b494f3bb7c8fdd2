import Mallana.KvCells.Basic

/-!
# The representation invariant of the cell table

`KvCells.Inv` says that the redundant indexes of a cell table agree with its cells: `used` is the set
of cells with a position, an empty cell carries no sequence and no shift, and `seq_pos[s]` counts, for
every position, the cells that hold it for sequence `s`. Each update of `llama_kv_cells` changes one
cell; the lemma `Inv.put` reduces its preservation to the counts, and the counts are handled by
splitting off the changed cell (`countExcept`): `seq_pos_rm` removes it from the indexes, `seq_pos_add`
puts it back.

The invariant determines both indexes (`Inv.ext`), gives the least and greatest position of a sequence
(`Inv.seqPosMin_spec`, `Inv.seqPosMax_spec`) and the end of the used range (`Inv.usedMaxP1_spec`).
-/

namespace Mallana.KvCells

open Lib Lib.CountMap List Function

/-- Does the cell hold position `p` for sequence `s`? -/
def holds (s : SeqId) (p : Int) (x : Cell) : Bool := s ∈ x.seq ∧ x.pos = p

/-- Number of cells that hold position `p` for sequence `s`. -/
def count (c : KvCells) (s : SeqId) (p : Int) : Nat := c.cells.countP (holds s p)

/-- The same count, leaving cell `i` out. -/
def countExcept (c : KvCells) (i : Nat) (s : SeqId) (p : Int) : Nat :=
  (c.cells.eraseIdx i).countP (holds s p)

/-- The representation invariant of `llama_kv_cells`. Outside the table `cell` reads an empty cell,
    so the first two fields need no bound. -/
structure Inv (c : KvCells) : Prop where
  used_iff : ∀ i, i ∈ c.used ↔ (c.cell i).pos ≠ -1
  empty : ∀ i, (c.cell i).pos = -1 → (c.cell i).seq = ∅ ∧ (c.cell i).shift = 0
  counts : ∀ s, Represents (c.seqPos s) (c.count s)

section Reads
variable (c : KvCells) (i j n : Nat) (s : SeqId) (p : Int) (x : Cell)

@[simp] lemma size_putCell : (c.putCell i x).size = c.size := by
  simp [putCell, size]

@[simp] lemma used_putCell : (c.putCell i x).used = c.used := rfl

@[simp] lemma seqPos_putCell : (c.putCell i x).seqPos = c.seqPos := rfl

@[simp] lemma hasShift_putCell : (c.putCell i x).hasShift = c.hasShift := rfl

@[simp] lemma size_seqPosRm : (c.seqPosRm i).size = c.size := rfl

@[simp] lemma cell_seqPosRm : (c.seqPosRm i).cell j = c.cell j := rfl

@[simp] lemma used_seqPosRm : (c.seqPosRm i).used = c.used := rfl

@[simp] lemma size_seqPosAdd : (c.seqPosAdd i).size = c.size := rfl

@[simp] lemma cell_seqPosAdd : (c.seqPosAdd i).cell j = c.cell j := rfl

@[simp] lemma used_seqPosAdd : (c.seqPosAdd i).used = c.used := rfl

@[simp] lemma cell_seqPosInc : (c.seqPosInc s p).cell j = c.cell j := rfl

@[simp] lemma cell_seqPosDec : (c.seqPosDec s p).cell j = c.cell j := rfl

@[simp] lemma used_seqPosInc : (c.seqPosInc s p).used = c.used := rfl

@[simp] lemma used_seqPosDec : (c.seqPosDec s p).used = c.used := rfl

lemma cell_putCell : (c.putCell i x).cell j = if i = j ∧ j < c.size then x else c.cell j :=
  getD_modify c.cells i j (fun _ => x) {}

lemma cell_of_size_le {c : KvCells} {i : Nat} (h : c.size ≤ i) : c.cell i = {} := by
  unfold cell
  rw [getD_eq_default _ _ h]

lemma lt_size_of_pos_ne {c : KvCells} {i : Nat} (h : (c.cell i).pos ≠ -1) : i < c.size := by
  by_contra hi
  rw [cell_of_size_le (Nat.le_of_not_lt hi)] at h
  exact h rfl

lemma lt_size_of_mem_seq {c : KvCells} {i : Nat} {s : SeqId} (h : s ∈ (c.cell i).seq) : i < c.size := by
  by_contra hi
  rw [cell_of_size_le (Nat.le_of_not_lt hi)] at h
  simp at h

end Reads

variable {c : KvCells} {i : Nat}

lemma count_eq_countExcept (hi : i < c.size) (s : SeqId) (p : Int) :
    c.count s p = c.countExcept i s p + if holds s p (c.cell i) then 1 else 0 := by
  have hp := perm_getD_cons_eraseIdx (l := c.cells) hi {}
  unfold count countExcept cell
  rw [hp.countP_eq, countP_cons]

@[simp] lemma countExcept_putCell (c : KvCells) (i : Nat) (x : Cell) :
    (c.putCell i x).countExcept i = c.countExcept i := by
  funext s p
  simp [countExcept, putCell, eraseIdx_modify_of_eq]

lemma count_putCell (hi : i < c.size) (x : Cell) (s : SeqId) (p : Int) :
    (c.putCell i x).count s p = c.countExcept i s p + if holds s p x then 1 else 0 := by
  rw [count_eq_countExcept (i := i) (by simpa using hi), countExcept_putCell, cell_putCell]
  simp [hi]

lemma count_pos_iff (c : KvCells) (s : SeqId) (p : Int) :
    0 < c.count s p ↔ ∃ i < c.size, s ∈ (c.cell i).seq ∧ (c.cell i).pos = p := by
  unfold count
  rw [countP_pos_iff]
  constructor
  · rintro ⟨x, hx, h⟩
    obtain ⟨i, hi, rfl⟩ := getElem_of_mem hx
    refine ⟨i, hi, ?_⟩
    rw [cell, getD_eq_getElem _ _ hi]
    simpa [holds] using h
  · rintro ⟨i, hi, h⟩
    refine ⟨c.cells[i], getElem_mem hi, ?_⟩
    rw [cell, getD_eq_getElem _ _ hi] at h
    simpa [holds] using h

lemma represents_seqPosRm (h : ∀ s, Represents (c.seqPos s) (c.count s)) (hi : i < c.size) (s : SeqId) :
    Represents ((c.seqPosRm i).seqPos s) (c.countExcept i s) := by
  unfold seqPosRm
  by_cases hs : s ∈ (c.cell i).seq
  · simp only [hs, if_true]
    apply (h s).dec
    · rw [count_eq_countExcept hi]
      simp [holds, hs]
    · intro p hp
      rw [count_eq_countExcept hi]
      simp [holds, Ne.symm hp]
  · simp only [hs, if_false]
    apply (h s).congr
    intro p
    rw [count_eq_countExcept hi]
    simp [holds, hs]

lemma represents_seqPosAdd (hi : i < c.size) (h : ∀ s, Represents (c.seqPos s) (c.countExcept i s)) (s : SeqId) :
    Represents ((c.seqPosAdd i).seqPos s) (c.count s) := by
  unfold seqPosAdd
  by_cases hs : s ∈ (c.cell i).seq
  · simp only [hs, if_true]
    apply (h s).inc
    · rw [count_eq_countExcept hi]
      simp [holds, hs]
    · intro p hp
      rw [count_eq_countExcept hi]
      simp [holds, Ne.symm hp]
  · simp only [hs, if_false]
    apply (h s).congr
    intro p
    rw [count_eq_countExcept hi]
    simp [holds, hs]

lemma represents_exchange (h : ∀ s, Represents (c.seqPos s) (c.count s)) (hi : i < c.size) (y : Cell) (s : SeqId) :
    Represents ((((c.seqPosRm i).putCell i y).seqPosAdd i).seqPos s)
      (fun p => c.countExcept i s p + if holds s p y then 1 else 0) := by
  have hrm : ∀ r, Represents (((c.seqPosRm i).putCell i y).seqPos r)
      (((c.seqPosRm i).putCell i y).countExcept i r) := by
    rw [countExcept_putCell]
    exact represents_seqPosRm h hi
  apply (represents_seqPosAdd (by simpa using hi) hrm s).congr
  exact count_putCell hi y s

lemma Inv.put {c' : KvCells} {y : Cell} (h : Inv c) (hi : i < c.size) (hcells : c'.cells = (c.putCell i y).cells)
    (hused : ∀ j, j ∈ c'.used ↔ if j = i then y.pos ≠ -1 else j ∈ c.used)
    (hy : y.pos = -1 → y.seq = ∅ ∧ y.shift = 0) (hcounts : ∀ s, Represents (c'.seqPos s) (fun p =>
      c.countExcept i s p + if holds s p y then 1 else 0)) : Inv c' := by
  have hcell : ∀ j, c'.cell j = if j = i then y else c.cell j := by
    intro j
    have e : c'.cell j = (c.putCell i y).cell j := by rw [cell, hcells, cell]
    rw [e, cell_putCell]
    by_cases hj : j = i
    · subst hj
      simp [hi]
    · simp [hj, Ne.symm hj]
  refine ⟨?_, ?_, ?_⟩
  · intro j
    rw [hused, hcell]
    by_cases hj : j = i
    · simp [hj]
    · simp [hj, h.used_iff]
  · intro j
    rw [hcell]
    by_cases hj : j = i
    · simpa [hj] using hy
    · simpa [hj] using h.empty j
  · intro s
    apply (hcounts s).congr
    intro p
    rw [count, hcells]
    exact (count_putCell hi y s p).symm

lemma inv_reset (c : KvCells) : Inv c.reset := by
  have hcell : ∀ i, c.reset.cell i = {} := by
    intro i
    by_cases hi : i < c.cells.length <;> simp [reset, cell, hi]
  refine ⟨?_, ?_, ?_⟩
  · intro i
    rw [hcell]
    simp [reset]
  · intro i _
    rw [hcell]
    simp
  · intro s
    apply represents_empty.congr
    intro p
    symm
    simp [count, reset, holds]

lemma inv_resize (c : KvCells) (n : Nat) : Inv (c.resize n) :=
  inv_reset _

section
variable (h : Inv c)
include h

lemma Inv.resetShift : Inv c.resetShift := by
  have hcell : ∀ i, c.resetShift.cell i = { c.cell i with shift := 0 } := by
    intro i
    by_cases hi : i < c.cells.length <;> simp [KvCells.resetShift, cell, hi]
  refine ⟨?_, ?_, ?_⟩
  · intro i
    rw [hcell]
    exact h.used_iff i
  · intro i hp
    rw [hcell] at hp ⊢
    exact ⟨(h.empty i hp).1, rfl⟩
  · intro s
    apply (h.counts s).congr
    intro p
    simp only [count, KvCells.resetShift, countP_map]
    rfl

lemma Inv.rm (hi : i < c.size) : Inv (c.rm i) := by
  refine h.put (y := {}) hi rfl ?_ ?_ ?_
  · intro j
    simp [KvCells.rm]
  · simp
  · intro s
    apply (represents_seqPosRm h.counts hi s).congr
    intro p
    simp [holds]

lemma Inv.seqRm {s : SeqId} (hs : s ∈ (c.cell i).seq) : Inv (c.seqRm i s).1 := by
  have hi := lt_size_of_mem_seq hs
  have hp : (c.cell i).pos ≠ -1 := by
    intro e
    rw [(h.empty i e).1] at hs
    simp at hs
  have hcnt : ∀ r, Represents (Function.update c.seqPos s ((c.seqPos s).dec (c.cell i).pos) r)
      (fun p => c.countExcept i r p +
        if holds r p { c.cell i with seq := (c.cell i).seq.erase s } then 1 else 0) := by
    intro r
    by_cases hr : r = s
    · subst hr
      rw [update_self]
      apply (h.counts r).dec
      · rw [count_eq_countExcept hi]
        simp [holds, hs]
      · intro p hpp
        rw [count_eq_countExcept hi]
        simp [holds, Ne.symm hpp]
    · rw [update_of_ne hr]
      apply (h.counts r).congr
      intro p
      rw [count_eq_countExcept hi]
      simp [holds, hr]
  unfold KvCells.seqRm
  by_cases he : (c.cell i).seq.erase s = ∅
  · simp only [he, if_true]
    refine h.put (y := {}) hi ?_ ?_ ?_ ?_
    · simp [putCell, seqPosDec, modify_modify_eq, comp_def]
    · intro j
      simp
    · simp
    · intro r
      apply (hcnt r).congr
      intro p
      simp [holds, he]
  · simp only [he, if_false]
    refine h.put (y := { c.cell i with seq := (c.cell i).seq.erase s }) hi rfl ?_ ?_ hcnt
    · intro j
      by_cases hj : j = i
      · subst hj
        simp [h.used_iff, hp]
      · simp [hj]
    · intro e
      exact absurd e hp

lemma Inv.seqKeep (hi : i < c.size) (s : SeqId) : Inv (c.seqKeep i s).1 := by
  unfold KvCells.seqKeep
  by_cases hs : s ∈ (c.cell i).seq
  · simp only [hs, if_true]
    have hp : (c.cell i).pos ≠ -1 := by
      intro e
      rw [(h.empty i e).1] at hs
      simp at hs
    refine h.put (y := { c.cell i with seq := {s} }) hi rfl ?_ ?_ ?_
    · intro j
      by_cases hj : j = i
      · subst hj
        simp [h.used_iff, hp]
      · simp [hj]
    · intro e
      exact absurd e hp
    · intro r
      by_cases hr : r = s
      · subst hr
        simp only [seqPosInc, update_self]
        apply (represents_seqPosRm h.counts hi r).inc
        · simp [holds]
        · intro p hpp
          simp [holds, Ne.symm hpp]
      · simp only [seqPosInc, update_of_ne hr]
        apply (represents_seqPosRm h.counts hi r).congr
        intro p
        simp [holds, hr]
  · by_cases he : (c.cell i).seq = ∅
    · simpa [hs, he] using h
    · simp only [hs, if_false, ne_eq, he, not_false_eq_true, if_true]
      exact h.rm hi

lemma Inv.seqAdd {s : SeqId} (hp : (c.cell i).pos ≠ -1) (hs : s ∉ (c.cell i).seq) : Inv (c.seqAdd i s) := by
  have hi := lt_size_of_pos_ne hp
  refine h.put (y := { c.cell i with seq := insert s (c.cell i).seq }) hi rfl ?_ ?_ ?_
  · intro j
    by_cases hj : j = i
    · subst hj
      simp [KvCells.seqAdd, h.used_iff, hp]
    · simp [KvCells.seqAdd, hj]
  · intro e
    exact absurd e hp
  · intro r
    by_cases hr : r = s
    · subst hr
      simp only [KvCells.seqAdd, seqPosInc, seqPos_putCell, update_self]
      apply (h.counts r).inc
      · rw [count_eq_countExcept hi]
        simp [holds, hs]
      · intro p hpp
        rw [count_eq_countExcept hi]
        simp [holds, Ne.symm hpp]
    · simp only [KvCells.seqAdd, seqPosInc, seqPos_putCell, update_of_ne hr]
      apply (h.counts r).congr
      intro p
      rw [count_eq_countExcept hi]
      simp [holds, hr]

lemma Inv.posSet {p : Int} (hi : i < c.size) (he : (c.cell i).pos = -1) (hp : p ≠ -1) : Inv (c.posSet i p) := by
  refine h.put (y := { c.cell i with pos := p }) hi rfl ?_ ?_ ?_
  · intro j
    by_cases hj : j = i <;> simp [KvCells.posSet, hj, hp]
  · intro e
    exact absurd e hp
  · intro s
    apply (h.counts s).congr
    intro q
    rw [count_eq_countExcept hi]
    simp [holds, (h.empty i he).1]

lemma Inv.extSet (hi : i < c.size) (e : KvCellExt) : Inv (c.extSet i e) := by
  refine h.put (y := { c.cell i with ext := e }) hi rfl ?_ ?_ ?_
  · intro j
    by_cases hj : j = i
    · subst hj
      simp [KvCells.extSet, h.used_iff]
    · simp [KvCells.extSet, hj]
  · exact h.empty i
  · intro s
    apply (h.counts s).congr
    intro p
    rw [count_eq_countExcept hi]
    rfl

lemma Inv.posAdd (hp : (c.cell i).pos ≠ -1) (d : Int) : Inv (c.posAdd i d).1 := by
  have hi := lt_size_of_pos_ne hp
  unfold KvCells.posAdd
  by_cases hneg : (c.cell i).pos + d < 0
  · simp only [hneg, if_true]
    refine h.put (y := { c.cell i with pos := -1, shift := 0, seq := ∅ }) hi rfl ?_ ?_ ?_
    · intro j
      simp
    · simp
    · intro s
      apply (represents_seqPosRm h.counts hi s).congr
      intro p
      simp [holds]
  · simp only [hneg, if_false]
    refine h.put (y := { c.cell i with pos := (c.cell i).pos + d, shift := (c.cell i).shift + d })
      hi rfl ?_ ?_ ?_
    · intro j
      by_cases hj : j = i
      · subst hj
        have : (c.cell j).pos + d ≠ -1 := by omega
        simp [h.used_iff, hp, this]
      · simp [hj]
    · intro e
      simp only at e
      omega
    · exact represents_exchange h.counts hi _

lemma Inv.posDiv {d : Int} (hp : (c.cell i).pos ≠ -1) (hd : (c.cell i).pos.tdiv d ≠ -1) : Inv (c.posDiv i d) := by
  have hi := lt_size_of_pos_ne hp
  refine h.put (y := { c.cell i with
    pos := (c.cell i).pos.tdiv d,
    shift := (c.cell i).shift + ((c.cell i).pos - (c.cell i).pos.tdiv d) }) hi rfl ?_ ?_ ?_
  · intro j
    by_cases hj : j = i
    · subst hj
      simp [KvCells.posDiv, h.used_iff, hp, hd]
    · simp [KvCells.posDiv, hj]
  · intro e
    exact absurd e hd
  · exact represents_exchange h.counts hi _

end

lemma cells_setCell (c : KvCells) (i : Nat) (o : Cell) : (c.setCell i o).cells =
    (c.putCell i { c.cell i with pos := o.pos, ext := o.ext, seq := o.seq }).cells := by
  by_cases h1 : (c.cell i).pos = -1 <;> by_cases h2 : o.pos = -1 <;>
    simp [KvCells.setCell, putCell, seqPosRm, seqPosAdd, h1, h2]

@[simp] lemma size_setCell (c : KvCells) (i : Nat) (o : Cell) : (c.setCell i o).size = c.size := by
  rw [size, cells_setCell]
  exact size_putCell c i _

@[simp] lemma hasShift_setCell (c : KvCells) (i : Nat) (o : Cell) : (c.setCell i o).hasShift = c.hasShift := by
  by_cases h1 : (c.cell i).pos = -1 <;> by_cases h2 : o.pos = -1 <;>
    simp [KvCells.setCell, putCell, seqPosRm, seqPosAdd, h1, h2]

lemma cell_setCell (c : KvCells) (i j : Nat) (o : Cell) : (c.setCell i o).cell j =
      if i = j ∧ j < c.size then { c.cell j with pos := o.pos, ext := o.ext, seq := o.seq }
      else c.cell j := by
  have e : (c.setCell i o).cell j =
      (c.putCell i { c.cell i with pos := o.pos, ext := o.ext, seq := o.seq }).cell j := by
    unfold cell
    rw [cells_setCell]
    rfl
  rw [e, cell_putCell]
  by_cases hj : i = j
  · subst hj
    rfl
  · simp [hj]

lemma Inv.setCell (h : Inv c) (hi : i < c.size) {o : Cell}
    (ho : o.pos = -1 → o.seq = ∅) (hsh : (c.cell i).shift = 0) : Inv (c.setCell i o) := by
  -- without `seq_pos_rm` the indexes already leave the empty cell out
  have hempty : (c.cell i).pos = -1 → ∀ s, Represents (c.seqPos s) (c.countExcept i s) := by
    intro e s
    apply (h.counts s).congr
    intro p
    rw [count_eq_countExcept hi]
    simp [holds, (h.empty i e).1]
  have hnone : o.pos = -1 → ∀ s p, holds s p { c.cell i with
      pos := o.pos, ext := o.ext, seq := o.seq } = false := by
    intro e s p
    simp [holds, ho e]
  refine h.put hi (cells_setCell c i o) ?_ ?_ ?_
  · intro j
    have hu := h.used_iff i
    by_cases hj : j = i
    · subst hj
      by_cases h1 : (c.cell j).pos = -1 <;> by_cases h2 : o.pos = -1 <;>
        simp [KvCells.setCell, putCell, seqPosRm, seqPosAdd, h1, h2, hu]
    · by_cases h1 : (c.cell i).pos = -1 <;> by_cases h2 : o.pos = -1 <;>
        simp [KvCells.setCell, putCell, seqPosRm, seqPosAdd, h1, h2, hj]
  · intro e
    exact ⟨ho e, hsh⟩
  · intro s
    by_cases h1 : (c.cell i).pos = -1
    · by_cases h2 : o.pos = -1
      · apply (show Represents ((c.setCell i o).seqPos s) (c.countExcept i s) by
          simpa [KvCells.setCell, h1, h2] using hempty h1 s).congr
        simp [hnone h2 s]
      · have hadd := represents_seqPosAdd (c := c.putCell i { c.cell i with
          pos := o.pos, ext := o.ext, seq := o.seq }) (i := i) (by simpa using hi)
          (by rw [countExcept_putCell]; exact hempty h1) s
        have e : (c.setCell i o).seqPos s = ((c.putCell i { c.cell i with
            pos := o.pos, ext := o.ext, seq := o.seq }).seqPosAdd i).seqPos s := by
          simp only [KvCells.setCell, h1, h2, true_and, not_false_eq_true, ne_eq, if_true,
            not_true_eq_false, false_and, if_false]
          rfl
        rw [e]
        apply hadd.congr
        exact count_putCell hi _ s
    · by_cases h2 : o.pos = -1
      · have e : (c.setCell i o).seqPos s = (c.seqPosRm i).seqPos s := by
          simp only [KvCells.setCell, h1, h2, not_false_eq_true, ne_eq, if_true,
            not_true_eq_false, and_self, if_false]
          rfl
        rw [e]
        apply (represents_seqPosRm h.counts hi s).congr
        simp [hnone h2 s]
      · simpa [KvCells.setCell, h1, h2] using represents_exchange h.counts hi
          { c.cell i with pos := o.pos, ext := o.ext, seq := o.seq } s

lemma Inv.setIdxs (h : Inv c) {idxs : List Nat} {other : KvCells}
    (hi : ∀ i ∈ idxs, i < c.size ∧ (c.cell i).shift = 0)
    (ho : ∀ o ∈ other.cells, o.pos = -1 → o.seq = ∅) : Inv (c.setIdxs idxs other) := by
  unfold KvCells.setIdxs
  generalize other.cells = os at ho
  induction idxs generalizing c os with
  | nil => exact h
  | cons i idxs ih =>
    cases os with
    | nil => exact h
    | cons o os =>
      simp only [mem_cons, forall_eq_or_imp] at hi ho
      obtain ⟨⟨hlt, hsh⟩, hrest⟩ := hi
      refine ih (h.setCell hlt ho.1 hsh) ?_ os ho.2
      intro j hj
      obtain ⟨hjlt, hjsh⟩ := hrest j hj
      refine ⟨by simpa using hjlt, ?_⟩
      rw [cell_setCell]
      split <;> exact hjsh

lemma Inv.ext {d : KvCells} (hc : Inv c) (hd : Inv d) (hcells : c.cells = d.cells)
    (hshift : c.hasShift = d.hasShift) : c = d := by
  have hcell : ∀ i, c.cell i = d.cell i := fun i => by rw [cell, hcells, cell]
  have hused : c.used = d.used := by
    ext i
    rw [hc.used_iff, hd.used_iff, hcell]
  have hpos : c.seqPos = d.seqPos := by
    funext s
    apply (hc.counts s).unique
    apply (hd.counts s).congr
    intro p
    rw [count, count, hcells]
  cases c
  cases d
  simp only at hcells hshift hused hpos
  subst hcells hshift hused hpos
  rfl

def positions (c : KvCells) (s : SeqId) : Set Int :=
  {p | ∃ i < c.size, s ∈ (c.cell i).seq ∧ (c.cell i).pos = p}

lemma positions_eq (c : KvCells) (s : SeqId) : c.positions s = {p | 0 < c.count s p} := by
  ext p
  exact (count_pos_iff c s p).symm

lemma Inv.minKey?_none (h : Inv c) (s : SeqId) : (c.seqPos s).minKey? = none ↔ c.positions s = ∅ := by
  rw [(h.counts s).minKey?_none, positions_eq, Set.eq_empty_iff_forall_notMem]
  simp only [Set.mem_ofPred_eq, Nat.pos_iff_ne_zero, not_not]

lemma Inv.seqPosMin_spec (h : Inv c) (s : SeqId) :
    (c.positions s = ∅ ∧ c.seqPosMin s = -1) ∨ IsLeast (c.positions s) (c.seqPosMin s) := by
  cases hk : (c.seqPos s).minKey? with
  | none => exact .inl ⟨(h.minKey?_none s).1 hk, by simp [seqPosMin, hk]⟩
  | some k =>
    right
    rw [positions_eq, seqPosMin, hk]
    exact (h.counts s).isLeast hk

lemma Inv.seqPosMax_spec (h : Inv c) (s : SeqId) :
    (c.positions s = ∅ ∧ c.seqPosMax s = -1) ∨ IsGreatest (c.positions s) (c.seqPosMax s) := by
  cases hk : (c.seqPos s).maxKey? with
  | none => exact .inl ⟨(h.minKey?_none s).1 (maxKey?_none.1 hk), by simp [seqPosMax, hk]⟩
  | some k =>
    right
    rw [positions_eq, seqPosMax, hk]
    exact (h.counts s).isGreatest hk

lemma Inv.usedMaxP1_spec (h : Inv c) : (c.usedMaxP1 = 0 ∧ ∀ i, (c.cell i).pos = -1) ∨
      ∃ m, c.usedMaxP1 = m + 1 ∧ IsGreatest {i | (c.cell i).pos ≠ -1} m := by
  have hused : {i | (c.cell i).pos ≠ -1} = ↑c.used := by
    ext i
    exact (h.used_iff i).symm
  unfold usedMaxP1
  by_cases hn : c.used.Nonempty
  · right
    refine ⟨c.used.max' hn, by simp [hn], ?_⟩
    rw [hused]
    exact c.used.isGreatest_max' hn
  · left
    refine ⟨by simp [hn], ?_⟩
    intro i
    by_contra hi
    exact hn ⟨i, (h.used_iff i).2 hi⟩

end Mallana.KvCells
