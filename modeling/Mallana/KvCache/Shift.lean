import Mallana.KvCache.Frame

/-!
# Pending shifts

`seq_add` and `seq_div` change the position of a cell at once and leave the rotation of its K data for the
next `update`: the difference is collected in the `shift` of the cell, `set_input_k_shift` hands it to the
graph and `reset_shift` starts anew. `pos_add` adds the change of the position to `shift`; `pos_div`
subtracts it. `shift_eq_iff` states what this means for a run: the shift of a cell is its
way from the position at the last reset exactly if no `seq_div` of the run moved it.
-/

namespace Mallana

open Lib List

/-- How far the shift of a cell is ahead of its way from position `p`. -/
def Cell.lag (x : Cell) (p : Int) : Int := x.shift - (x.pos - p)

namespace KvCells

lemma cell_posDiv (c : KvCells) (i j : Nat) (d : Int) : (c.posDiv i d).cell j =
    if i = j ∧ j < c.size then
      { c.cell j with
        pos := (c.cell j).pos.tdiv d
        shift := (c.cell j).shift + ((c.cell j).pos - (c.cell j).pos.tdiv d) }
    else c.cell j := by
  refine (cell_putCell c i j _).trans ?_
  by_cases hj : i = j
  · subst hj
    rfl
  · simp [hj]

@[simp] lemma size_resetShift (c : KvCells) : c.resetShift.size = c.size := by
  simp [resetShift, size]

lemma cell_resetShift (c : KvCells) (i : Nat) :
    c.resetShift.cell i = { c.cell i with shift := 0 } := by
  unfold cell resetShift
  rw [show ({} : Cell) = (fun x : Cell => { x with shift := 0 }) {} from rfl, getD_map]

end KvCells

namespace KvCache

/-- The end of `update`: all shifts have been applied. -/
def resetShift (c : KvCache) : KvCache := { c with vCells := c.vCells.map KvCells.resetShift }

/-- The entry of `set_input_k_shift` for one cell. -/
def kShift (c : KvCache) (t i : Nat) : Int :=
  if (c.cellsOf t).isEmpty i then 0 else (c.cellsOf t).getShift i

/-- C++ `set_input_k_shift`: the entries of all cells, stream by stream. -/
def setInputKShift (c : KvCache) : List Int :=
  (List.range c.nStream).flatMap fun t => (List.range (c.cellsOf t).size).map (c.kShift t)

/-- The operations that shift positions. -/
inductive ShiftOp where
  | add (s : SeqId) (p0 p1 d : Int)
  | div (s : SeqId) (p0 p1 d : Int)

namespace ShiftOp

/-- `none`: a failed assertion. -/
def apply (c : KvCache) : ShiftOp → Option KvCache
  | add s p0 p1 d => c.seqAdd s p0 p1 d
  | div s p0 p1 d => c.seqDiv s p0 p1 d

def Proper : ShiftOp → Prop
  | add .. => True
  | div _ _ _ d => 1 ≤ d

end ShiftOp

def runShifts : List ShiftOp → KvCache → Option KvCache
  | [], c => some c
  | op :: ops, c => op.apply c >>= runShifts ops

/-- The operation divides the position of cell `i` of stream `t` and makes it smaller. -/
def Divides (c : KvCache) (t i : Nat) : ShiftOp → Prop
  | .add .. => False
  | .div s p0 p1 d => t = c.seqToStream s ∧ s ∈ (c.cell t i).seq ∧ rangeLo p0 ≤ (c.cell t i).pos ∧
      (c.cell t i).pos < rangeHi p1 ∧ 0 < (c.cell t i).pos ∧ 1 < d

def Undivided (t i : Nat) : List ShiftOp → KvCache → Prop
  | [], _ => True
  | op :: ops, c => ¬ c.Divides t i op ∧ ∀ c', op.apply c = some c' → Undivided t i ops c'

/-- `seq_add` on one cell. -/
def addCell (s : SeqId) (p0 p1 d : Int) (x : Cell) : Cell :=
  if p0 ≤ x.pos ∧ x.pos < p1 ∧ s ∈ x.seq then
    if x.pos + d < 0 then { x with pos := -1, shift := 0, seq := ∅ }
    else { x with pos := x.pos + d, shift := x.shift + d }
  else x

/-- `seq_div` on one cell. -/
def divCell (s : SeqId) (p0 p1 d : Int) (x : Cell) : Cell :=
  if p0 ≤ x.pos ∧ x.pos < p1 ∧ s ∈ x.seq then
    { x with pos := x.pos.tdiv d, shift := x.shift + (x.pos - x.pos.tdiv d) }
  else x

section Cells
variable {s : SeqId} {p0 p1 d : Int}

lemma isVisit_seqAddVisit : KvCells.IsVisit (seqAddVisit s p0 p1 d) (addCell s p0 p1 d) where
  size := size_seqAddVisit s p0 p1 d
  cell c i j hi := by
    unfold seqAddVisit addCell
    by_cases hij : i = j
    · subst hij
      rw [if_pos rfl]
      by_cases hin : p0 ≤ (c.cell i).pos ∧ (c.cell i).pos < p1 ∧ s ∈ (c.cell i).seq
      · rw [if_pos (by simpa [KvCells.posIn, KvCells.seqHas, and_assoc] using hin), if_pos hin,
          KvCells.cell_posAdd, if_pos ⟨rfl, hi⟩]
      · rw [if_neg (by simpa [KvCells.posIn, KvCells.seqHas, and_assoc] using hin), if_neg hin]
    · rw [if_neg hij]
      split
      · rw [KvCells.cell_posAdd, if_neg fun h => hij h.1]
      · rfl

lemma isVisit_seqDivVisit : KvCells.IsVisit (seqDivVisit s p0 p1 d) (divCell s p0 p1 d) where
  size := size_seqDivVisit s p0 p1 d
  cell c i j hi := by
    unfold seqDivVisit divCell
    by_cases hij : i = j
    · subst hij
      rw [if_pos rfl]
      by_cases hin : p0 ≤ (c.cell i).pos ∧ (c.cell i).pos < p1 ∧ s ∈ (c.cell i).seq
      · rw [if_pos (by simpa [KvCells.posIn, KvCells.seqHas, and_assoc] using hin), if_pos hin,
          KvCells.cell_posDiv, if_pos ⟨rfl, hi⟩]
      · rw [if_neg (by simpa [KvCells.posIn, KvCells.seqHas, and_assoc] using hin), if_neg hin]
    · rw [if_neg hij]
      split
      · rw [KvCells.cell_posDiv, if_neg fun h => hij h.1]
      · rfl

lemma rangeLo_nonneg (p : Int) : 0 ≤ rangeLo p := by
  unfold rangeLo
  split <;> omega

lemma addCell_of_early (h : d = 0 ∨ rangeLo p0 = rangeHi p1) (x : Cell) :
    addCell s (rangeLo p0) (rangeHi p1) d x = x := by
  unfold addCell
  split
  · rename_i hin
    obtain rfl | h := h
    · have hlo := rangeLo_nonneg p0
      rw [if_neg (by omega), Int.add_zero, Int.add_zero]
    · omega
  · rfl

lemma divCell_of_early (h : d = 1 ∨ rangeLo p0 = rangeHi p1) (x : Cell) :
    divCell s (rangeLo p0) (rangeHi p1) d x = x := by
  unfold divCell
  split
  · obtain rfl | h := h
    · rw [Int.tdiv_one, Int.sub_self, Int.add_zero]
    · omega
  · rfl

end Cells

section Step
variable {kvSize t i : Nat} {c c' : KvCache} {op : ShiftOp}

/-- What an operation does to a cell of stream `t`. -/
def ShiftOp.act (c : KvCache) (t : Nat) : ShiftOp → Cell → Cell
  | add s p0 p1 d, x => if t = c.seqToStream s then addCell s (rangeLo p0) (rangeHi p1) d x else x
  | div s p0 p1 d, x => if t = c.seqToStream s then divCell s (rangeLo p0) (rangeHi p1) d x else x

lemma ShiftOp.cellsOnly (h : op.apply c = some c') : CellsOnly c c' := by
  cases op with
  | add s p0 p1 d => exact cellsOnly_seqAdd h
  | div s p0 p1 d => exact cellsOnly_seqDiv h

lemma cell_setCells_sweep (hs : Shape kvSize c) {f : KvCells → Nat → KvCells × Bool} {g : Cell → Cell}
    (hf : KvCells.IsVisit f g) (hg : g {} = {}) (s : SeqId) (t i : Nat) :
    (c.setCells (c.seqToStream s) ((c.cellsOf (c.seqToStream s)).sweep f).1).cell t i =
      if t = c.seqToStream s then g (c.cell t i) else c.cell t i := by
  unfold cell
  by_cases ht : t = c.seqToStream s
  · subst ht
    rw [hs.cellsOf_setCells_self (c.seqToStream_lt hs.streams s), if_pos rfl,
      KvCells.cell_sweep hf hg]
  · rw [cellsOf_setCells, if_neg fun h => ht h.1.symm, if_neg ht]

lemma ShiftOp.cell_apply (hs : Shape kvSize c) (h : op.apply c = some c') (t i : Nat) :
    c'.cell t i = op.act c t (c.cell t i) := by
  cases op with
  | add s p0 p1 d =>
    simp only [ShiftOp.apply, seqAdd] at h
    split at h
    · cases h
    split at h
    · rename_i he
      cases h
      simp only [ShiftOp.act, addCell_of_early he, ite_self]
    · cases h
      exact cell_setCells_sweep hs isVisit_seqAddVisit (by simp [addCell]) s t i
  | div s p0 p1 d =>
    simp only [ShiftOp.apply, seqDiv] at h
    split at h
    · cases h
    split at h
    · rename_i he
      cases h
      simp only [ShiftOp.act, divCell_of_early he, ite_self]
    · cases h
      exact cell_setCells_sweep hs isVisit_seqDivVisit (by simp [divCell]) s t i

lemma ShiftOp.act_of_neg {x : Cell} (hx : x.pos < 0) : op.act c t x = x := by
  cases op with
  | add s p0 p1 d =>
    have hlo := rangeLo_nonneg p0
    have hout : ¬ (rangeLo p0 ≤ x.pos ∧ x.pos < rangeHi p1 ∧ s ∈ x.seq) :=
      fun h => absurd h.1 (by omega)
    simp only [ShiftOp.act, addCell]
    rw [if_neg hout, ite_self]
  | div s p0 p1 d =>
    have hlo := rangeLo_nonneg p0
    have hout : ¬ (rangeLo p0 ≤ x.pos ∧ x.pos < rangeHi p1 ∧ s ∈ x.seq) :=
      fun h => absurd h.1 (by omega)
    simp only [ShiftOp.act, divCell]
    rw [if_neg hout, ite_self]

lemma ShiftOp.lag_act (hp : op.Proper) (hne : (op.act c t (c.cell t i)).pos ≠ -1) (p : Int) :
    (c.Divides t i op → (c.cell t i).lag p < (op.act c t (c.cell t i)).lag p) ∧
      (¬ c.Divides t i op → (op.act c t (c.cell t i)).lag p = (c.cell t i).lag p) := by
  cases op with
  | add s p0 p1 d =>
    refine ⟨False.elim, fun _ => ?_⟩
    simp only [ShiftOp.act, addCell] at hne ⊢
    split_ifs at hne ⊢
    · exact absurd rfl hne
    · unfold Cell.lag
      simp only []
      omega
    · rfl
    · rfl
  | div s p0 p1 d =>
    have hlo := rangeLo_nonneg p0
    have hd : 1 ≤ d := hp
    simp only [ShiftOp.act, divCell, Divides]
    split_ifs with ht hin
    · have hpos : 0 ≤ (c.cell t i).pos := hlo.trans hin.1
      constructor
      · rintro ⟨-, -, -, -, h0, h1⟩
        have hlt := Int.ediv_lt_self_of_pos_of_ne_one h0 (by omega : d ≠ 1)
        rw [Int.tdiv_eq_ediv_of_nonneg hpos]
        unfold Cell.lag
        simp only []
        omega
      · intro hno
        have hsame : (c.cell t i).pos.tdiv d = (c.cell t i).pos := by
          by_cases h1 : d = 1
          · rw [h1, Int.tdiv_one]
          · have h0 : (c.cell t i).pos = 0 := by
              by_contra h0
              exact hno ⟨ht, hin.2.2, hin.1, hin.2.1, by omega, by omega⟩
            rw [h0, Int.zero_tdiv]
        rw [hsame]
        unfold Cell.lag
        simp only []
        omega
    · exact ⟨fun h => absurd ⟨h.2.2.1, h.2.2.2.1, h.2.1⟩ hin, fun _ => rfl⟩
    · exact ⟨fun h => absurd h.1 ht, fun _ => rfl⟩

lemma ShiftOp.shift_act {x : Cell} (hp : op.Proper) (h : x.shift = 0 ∨ 0 ≤ x.pos) :
    (op.act c t x).shift = 0 ∨ 0 ≤ (op.act c t x).pos := by
  cases op with
  | add s p0 p1 d =>
    simp only [ShiftOp.act, addCell]
    split_ifs with _ _ hd
    · exact .inl rfl
    · exact .inr (Int.not_lt.1 hd)
    · exact h
    · exact h
  | div s p0 p1 d =>
    have hd : 1 ≤ d := hp
    have hlo := rangeLo_nonneg p0
    simp only [ShiftOp.act, divCell]
    split_ifs with _ hin
    · exact .inr (Int.tdiv_nonneg (hlo.trans hin.1) (by omega))
    · exact h
    · exact h

end Step

section Run
variable {kvSize t i : Nat} {c c' : KvCache} {ops : List ShiftOp}

lemma runShifts_cellsOnly (h : runShifts ops c = some c') : CellsOnly c c' := by
  induction ops generalizing c with
  | nil =>
    cases h
    exact CellsOnly.refl _
  | cons op ops ih =>
    obtain ⟨d, hop, h⟩ := Option.bind_eq_some_iff.1 h
    exact (ShiftOp.cellsOnly hop).trans (ih h)

lemma runShifts_of_neg (hs : Shape kvSize c) (h : runShifts ops c = some c')
    (hneg : (c.cell t i).pos < 0) : c'.cell t i = c.cell t i := by
  induction ops generalizing c with
  | nil =>
    cases h
    rfl
  | cons op ops ih =>
    obtain ⟨d, hop, h⟩ := Option.bind_eq_some_iff.1 h
    have hcell : d.cell t i = c.cell t i := by
      rw [ShiftOp.cell_apply hs hop, ShiftOp.act_of_neg hneg]
    rw [ih ((ShiftOp.cellsOnly hop).shape hs) h (by rw [hcell]; exact hneg), hcell]

section
variable (hs : Shape kvSize c) (hp : ∀ op ∈ ops, op.Proper) (h : runShifts ops c = some c')
include hs hp h

lemma runShifts_lag (hne : (c'.cell t i).pos ≠ -1) (p : Int) :
    (c.cell t i).lag p ≤ (c'.cell t i).lag p ∧
      ((c'.cell t i).lag p = (c.cell t i).lag p ↔ Undivided t i ops c) := by
  induction ops generalizing c with
  | nil =>
    cases h
    exact ⟨le_rfl, iff_of_true rfl trivial⟩
  | cons op ops ih =>
    obtain ⟨d, hop, h⟩ := Option.bind_eq_some_iff.1 h
    simp only [mem_cons, forall_eq_or_imp] at hp
    have hsd := (ShiftOp.cellsOnly hop).shape hs
    have hcell := ShiftOp.cell_apply hs hop t i
    have hned : (d.cell t i).pos ≠ -1 := by
      intro he
      rw [runShifts_of_neg hsd h (by omega)] at hne
      exact hne he
    obtain ⟨hle, hiff⟩ := ih hsd hp.2 h
    have hrest : (∀ d', op.apply c = some d' → Undivided t i ops d') ↔ Undivided t i ops d := by
      rw [hop]
      simp
    obtain ⟨hdiv, hundiv⟩ := ShiftOp.lag_act (i := i) hp.1 (by rw [← hcell]; exact hned) p
    rw [← hcell] at hdiv hundiv
    rw [Undivided, hrest, ← hiff]
    by_cases hd : c.Divides t i op
    · have hlt := hdiv hd
      exact ⟨by omega, iff_of_false (by omega) fun hno => hno.1 hd⟩
    · rw [hundiv hd] at hle ⊢
      exact ⟨hle, (and_iff_right hd).symm⟩

lemma runShifts_shift (h0 : (c.cell t i).shift = 0 ∨ 0 ≤ (c.cell t i).pos) :
    (c'.cell t i).shift = 0 ∨ 0 ≤ (c'.cell t i).pos := by
  induction ops generalizing c with
  | nil =>
    cases h
    exact h0
  | cons op ops ih =>
    obtain ⟨d, hop, h⟩ := Option.bind_eq_some_iff.1 h
    simp only [mem_cons, forall_eq_or_imp] at hp
    refine ih ((ShiftOp.cellsOnly hop).shape hs) hp.2 h ?_
    rw [ShiftOp.cell_apply hs hop]
    exact ShiftOp.shift_act hp.1 h0

end

end Run

section Copy
variable {kvSize : Nat} {c c' : KvCache} {src dst : SeqId} {p0 p1 : Int} {i : Nat}

lemma cell_cpCell {x y : KvCells} (hi : i < y.size) (hy : y.cell i = {}) (s : SeqId)
    (hx : (x.cell i).shift = 0 ∨ 0 ≤ (x.cell i).pos) :
    (cpCell x y s i).cell i = { x.cell i with seq := {s} } := by
  unfold cpCell
  simp only [KvCells.getShift, KvCells.posGet, KvCells.extGet]
  by_cases h0 : (x.cell i).shift = 0
  · simp [h0, KvCells.cell_extSet, KvCells.cell_seqAdd, KvCells.cell_posSet, hi, hy]
  · have hpos := hx.resolve_left h0
    simp only [h0, ne_eq, not_false_eq_true, if_true]
    simp [KvCells.cell_extSet, KvCells.cell_posAdd, KvCells.cell_seqAdd, KvCells.cell_posSet, hi, hy,
      Int.not_lt.2 hpos]

def cpVisit (x : KvCells) (s s' : SeqId) (z : KvCells) (j : Nat) : KvCells :=
  if x.seqHas j s then cpCell x z s' j else z

lemma cell_cpCells {x y : KvCells} (hsize : x.size = y.size) (s s' : SeqId)
    (hx : (x.cell i).shift = 0 ∨ 0 ≤ (x.cell i).pos) (hi : s ∈ (x.cell i).seq) :
    (cpCells x y s s').cell i = { x.cell i with seq := {s'} } := by
  have hlt := KvCells.lt_size_of_mem_seq hi
  -- up to cell `i` the destination is empty there, behind it the copy stands
  have hupTo : ∀ n, ((List.range n).foldl (cpVisit x s s') y.reset).size = y.size ∧
      ((List.range n).foldl (cpVisit x s s') y.reset).cell i =
        if i < n then { x.cell i with seq := {s'} } else {} := by
    intro n
    induction n with
    | zero => simp
    | succ n ih =>
      obtain ⟨hz, hc⟩ := ih
      simp only [range_succ, foldl_append, foldl_cons, foldl_nil]
      unfold cpVisit at hz hc ⊢
      by_cases hn : n = i
      · subst hn
        rw [if_pos (by simpa [KvCells.seqHas] using hi), size_cpCell, if_pos (Nat.lt_succ_self n)]
        rw [if_neg (lt_irrefl n)] at hc
        exact ⟨hz, cell_cpCell (by rw [hz, ← hsize]; exact hlt) hc s' hx⟩
      · have hiff : i < n + 1 ↔ i < n := by omega
        simp only [hiff]
        split
        · rw [size_cpCell, cell_cpCell_of_ne _ _ _ hn]
          exact ⟨hz, hc⟩
        · exact ⟨hz, hc⟩
  have h := (hupTo x.size).2
  rwa [if_pos hlt] at h

lemma cell_seqCp (hs : Shape kvSize c) (hst : c.seqToStream src ≠ c.seqToStream dst)
    (h : c.seqCp src dst p0 p1 = some c')
    (hx : (c.cell (c.seqToStream src) i).shift = 0 ∨ 0 ≤ (c.cell (c.seqToStream src) i).pos)
    (hi : src ∈ (c.cell (c.seqToStream src) i).seq) :
    c'.cell (c.seqToStream dst) i = { c.cell (c.seqToStream src) i with seq := {dst} } := by
  have hsrc := c.seqToStream_lt hs.streams src
  have hdst := c.seqToStream_lt hs.streams dst
  simp only [seqCp, if_neg hst] at h
  split at h
  · cases h
  · cases h
    show ((c.setCells (c.seqToStream dst) _).cellsOf (c.seqToStream dst)).cell i = _
    rw [hs.cellsOf_setCells_self hdst]
    exact cell_cpCells (by rw [hs.size _ hsrc, hs.size _ hdst]) src dst hx hi

end Copy

section Main
variable {kvSize t i : Nat} {c c' : KvCache} {ops : List ShiftOp}

lemma shape_resetShift (hs : Shape kvSize c) : Shape kvSize c.resetShift := by
  refine ⟨hs.streams, ?_, hs.heads, ?_⟩
  · show (c.vCells.map _).length = _
    rw [length_map]
    exact hs.cells
  · intro u hu
    show ((c.vCells.map KvCells.resetShift).getD u {}).size = kvSize
    rw [show ({} : KvCells) = KvCells.resetShift {} from rfl, getD_map, KvCells.size_resetShift]
    exact hs.size u hu

lemma cell_resetShift (c : KvCache) (t i : Nat) :
    c.resetShift.cell t i = { c.cell t i with shift := 0 } := by
  show ((c.vCells.map KvCells.resetShift).getD t {}).cell i = _
  rw [show ({} : KvCells) = KvCells.resetShift {} from rfl, getD_map, KvCells.cell_resetShift]
  rfl

lemma getD_setInputKShift (hs : Shape kvSize c) (ht : t < c.nStream) (hi : i < kvSize) :
    c.setInputKShift.getD (t * kvSize + i) 0 = c.kShift t i := by
  have hrows : c.setInputKShift =
      (List.range c.nStream).flatMap fun t => (List.range kvSize).map (c.kShift t) := by
    refine flatMap_congr fun t ht => ?_
    rw [hs.size t (mem_range.1 ht)]
  rw [hrows, getD_flatMap_range _ ht hi]

/-- Over a run of `seq_add` and `seq_div` after a reset of the shifts, for a cell that is not empty at
    the end (and so never was): its shift is its way since the reset, and the entry of
    `set_input_k_shift` takes its key from the old position to the new one, exactly if no `seq_div` divided
    its position; and a copy to another stream has the same position and shift. -/
theorem shift_eq_iff (hs : Shape kvSize c) (hp : ∀ op ∈ ops, op.Proper)
    (hrun : runShifts ops c.resetShift = some c') (hne : (c'.cell t i).pos ≠ -1) :
    ((c'.cell t i).shift = (c'.cell t i).pos - (c.cell t i).pos ↔ Undivided t i ops c.resetShift) ∧
    ((c.cell t i).pos + c'.setInputKShift.getD (t * kvSize + i) 0 = (c'.cell t i).pos ↔
      Undivided t i ops c.resetShift) ∧
    ∀ src dst p0 p1 c'', t = c'.seqToStream src → c'.seqToStream src ≠ c'.seqToStream dst →
      src ∈ (c'.cell t i).seq → c'.seqCp src dst p0 p1 = some c'' →
        (c''.cell (c'.seqToStream dst) i).pos = (c'.cell t i).pos ∧
        (c''.cell (c'.seqToStream dst) i).shift = (c'.cell t i).shift := by
  have hs0 := shape_resetShift hs
  have hs' := (runShifts_cellsOnly hrun).shape hs0
  have hcell := cell_resetShift c t i
  have hlag := (runShifts_lag hs0 hp hrun hne (c.cell t i).pos).2
  have hzero : (c.resetShift.cell t i).lag (c.cell t i).pos = 0 := by
    rw [hcell]
    unfold Cell.lag
    simp
  have hiff : (c'.cell t i).shift = (c'.cell t i).pos - (c.cell t i).pos ↔
      Undivided t i ops c.resetShift := by
    rw [← hlag, hzero]
    unfold Cell.lag
    omega
  refine ⟨hiff, ?_, ?_⟩
  · have hi : i < (c'.cellsOf t).size := KvCells.lt_size_of_pos_ne hne
    have ht : t < c'.nStream := by
      by_contra ht
      have hlen : c'.vCells.length ≤ t := by
        rw [hs'.cells]
        omega
      rw [cellsOf, getD_eq_default _ _ hlen] at hi
      exact absurd hi (Nat.not_lt_zero i)
    rw [hs'.size t ht] at hi
    have hshift : c'.kShift t i = (c'.cell t i).shift := if_neg (by
      simpa [KvCells.isEmpty, cell] using hne)
    rw [getD_setInputKShift hs' ht hi, hshift, ← hiff]
    omega
  · intro src dst p0 p1 c'' ht hst hmem hcp
    subst ht
    have hok := runShifts_shift (t := c'.seqToStream src) (i := i) hs0 hp hrun
      (.inl (by rw [hcell]))
    rw [cell_seqCp hs' hst hcp hok hmem]
    exact ⟨rfl, rfl⟩

/-- Two streams of two cells; sequence 0 is in the first cell, at position 10. -/
def atTen : KvCache :=
  (init false false false 2 2 0 .none 1 0).setCells 0 (((({} : KvCells).resize 2).posSet 0 10).seqAdd 0 0)

lemma shape_atTen : Shape 2 atTen :=
  (shape_init _ _ _ _ _ _ _ _ _ (by decide)).setCells rfl

def afterRun (ops : List ShiftOp) : Option (Int × Int) :=
  (runShifts ops atTen.resetShift).map fun c => ((c.cell 0 0).pos, (c.cell 0 0).shift)

lemma exists_afterRun (ops : List ShiftOp) (r : Int × Int) (h : afterRun ops = some r) :
    ∃ c, runShifts ops atTen.resetShift = some c ∧ (c.cell 0 0).pos = r.1 ∧ (c.cell 0 0).shift = r.2 := by
  obtain ⟨c, hc, hr⟩ := Option.map_eq_some_iff.1 h
  exact ⟨c, hc, by rw [← hr], by rw [← hr]⟩

/-- Shifted by 5 and divided by 1, the key of the cell moves from 10 to 15. -/
theorem shift_eq_iff_add : ∃ c, runShifts [.add 0 0 (-1) 5, .div 0 0 (-1) 1] atTen.resetShift = some c ∧
    (c.cell 0 0).pos = 15 ∧ (c.cell 0 0).shift = (c.cell 0 0).pos - (atTen.cell 0 0).pos := by
  obtain ⟨c, hrun, hpos, _⟩ := exists_afterRun [.add 0 0 (-1) 5, .div 0 0 (-1) 1] (15, 5)
    (by decide +kernel)
  refine ⟨c, hrun, hpos, ?_⟩
  refine (shift_eq_iff shape_atTen ?_ hrun (by rw [hpos]; decide)).1.2 ?_
  · intro op hop
    simp only [mem_cons, not_mem_nil, or_false] at hop
    obtain rfl | rfl := hop
    · trivial
    · exact le_rfl
  · exact ⟨id, fun _ _ => ⟨fun h => absurd h.2.2.2.2.2 (by decide), fun _ _ => trivial⟩⟩

/-- Divided by 2 the position goes from 10 to 5, but the shift is 5. -/
theorem shift_ne_of_div : ¬ ∀ (kvSize t i : Nat) (c c' : KvCache) (ops : List ShiftOp),
    Shape kvSize c → (∀ op ∈ ops, op.Proper) → runShifts ops c.resetShift = some c' →
      (c'.cell t i).pos ≠ -1 → (c'.cell t i).shift = (c'.cell t i).pos - (c.cell t i).pos := by
  intro hall
  obtain ⟨c, hrun, hpos, hshift⟩ := exists_afterRun [.div 0 0 (-1) 2] (5, 5)
    (by decide +kernel)
  have hten : (atTen.cell 0 0).pos = 10 := by decide +kernel
  have hbad := hall 2 0 0 atTen c _ shape_atTen
    (fun op hop => by rw [mem_singleton.1 hop]; exact (by decide : (1 : Int) ≤ 2)) hrun
    (by rw [hpos]; decide)
  rw [hpos, hshift, hten] at hbad
  omega

end Main

end KvCache

end Mallana
