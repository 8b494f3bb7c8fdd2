import Mallana.Lib.Reach
import Mallana.Recurrent.Gather

/-!
# Every sequence has its own state

What the recurrent memory is for: a table that maps a sequence to its position and its state (`Store`). A ubatch
stores what its blocks produced, `seq_rm` removes an entry, `seq_cp` copies one and `seq_keep` keeps one. The memory
with its rows refines this table: the states are where the tails and `src` say, whatever `find_slot` moved, and a
block of a ubatch starts from the state of its first sequence, which is zero for a sequence without an entry.

The other sequences of a block leave their cells before (`dropShared`), so their own states are lost.
-/

namespace Mallana

open Lib List Option

abbrev Store (R : Type) : Type := Nat → Option (Int × R)

namespace Store

open Recurrent

variable {R : Type} [Zero R] (f : Store R)

def row (q : Nat) : R := (f q).elim 0 Prod.snd

def blockOf (u : SlotUbatch) (q : Nat) : Option Nat :=
  (List.range u.nSeqs).find? fun s => (q : Int) ∈ u.ids s

/-- The sequences of each block get its position and what it produced. -/
def ubatch (u : SlotUbatch) (out : Nat → R) : Store R := fun q =>
  (blockOf u q).elim (f q) fun s => some (u.lastPos s, out s)

/-- A sequence is removed if the range covers its position from the start. -/
def seqRm (seq p0 p1 : Int) : Store R := fun q =>
  if (q : Int) = seq ∧ startPos p0 = 0 ∧ ∃ c ∈ f q, 0 ≤ c.1 ∧ c.1 < endPos p1 then none else f q

def seqCp (size : Nat) (src dst : Int) : Store R := fun q =>
  if (q : Int) = dst ∧ 0 ≤ src ∧ src < size then f src.toNat else f q

def seqKeep (seq : Int) : Store R := fun q => if (q : Int) = seq then f q else none

end Store

namespace Recurrent

/-- What the memory has for sequence `q`. -/
def view {R : Type} [Zero R] (m : Recurrent) (rows : Nat → R) (q : Nat) : Option (Int × R) :=
  (m.tail q).map fun t => ((m.cells t).pos, m.val rows t)

/-- The memory and its rows represent the table. -/
structure Refines {R : Type} [Zero R] (m : Recurrent) (rows : Nat → R) (f : Store R) : Prop where
  core : m.Core
  blank : m.Blank rows
  view : ∀ q < m.size, m.view rows q = f q

section View
variable {R : Type} [Zero R] {m m' : Recurrent} {rows : Nat → R} {f : Store R} {q s t : Nat}

lemma view_eq (m : Recurrent) (rows : Nat → R) (q : Nat) :
    m.view rows q = (m.held q).map fun c => (c.1, c.2.elim 0 rows) := by
  unfold view held
  rw [Option.map_map]
  rfl

lemma view_of_held (h : m'.held q = m.held q) (rows : Nat → R) : m'.view rows q = m.view rows q := by
  rw [view_eq, view_eq, h]

lemma seqVal_eq (m : Recurrent) (rows : Nat → R) (q : Nat) :
    m.seqVal rows q = (m.view rows q).elim 0 Prod.snd := by
  unfold seqVal view
  cases m.tail q <;> rfl

lemma Refines.seqVal (h : m.Refines rows f) (hq : q < m.size) : m.seqVal rows q = f.row q := by
  rw [seqVal_eq, h.view q hq]
  rfl

lemma Refines.release (h : m.Refines rows f) (hs : s < m.size) :
    (m.release s).Refines rows fun q => if q = s then none else f q := by
  refine ⟨h.core.release hs, h.core.blank_release h.blank, ?_⟩
  intro q hq
  rw [size_release] at hq
  split
  · rename_i hqs
    unfold Recurrent.view
    rw [tail_release, if_pos hqs, map_none]
  · rename_i hqs
    rw [view_of_held (h.core.held_release hq hqs)]
    exact h.view q hq

lemma Refines.setHead (h : m.Refines rows f) {hd : Nat} (hhd : hd < m.size ∨ hd = 0) :
    Refines { m with head := hd } rows f :=
  ⟨h.core.setHead hhd, h.blank, h.view⟩

lemma Refines.enter (dst : Int) (h : m.Refines rows f) (hd : dst.toNat < m.size) (hnone : m.tail dst.toNat = none)
    (hs : s < m.size) (ht : m.tail s = some t) :
    (Recurrent.enter t m dst).Refines rows fun q => if q = dst.toNat then f s else f q := by
  obtain ⟨htlt, hmem⟩ := (h.core.tail s hs t).1 ht
  have hpos := field_enter MemCell.pos (fun _ _ => rfl) (fun _ _ => rfl) t m dst
  have hsrc := field_enter MemCell.src (fun _ _ => rfl) (fun _ _ => rfl) t m dst
  have hval : ∀ i, (Recurrent.enter t m dst).val rows i = m.val rows i := by
    intro i
    unfold val
    rw [hsrc]
  refine ⟨h.core.enter hd hnone htlt (Finset.ne_empty_of_mem hmem), ?_, ?_⟩
  · intro i hi hf
    rw [hval]
    refine h.blank i hi fun q hq hqi => ?_
    refine hf q hq ?_
    rw [tail_enter, if_neg]
    · exact hqi
    · rintro rfl
      rw [hnone] at hqi
      cases hqi
  · intro q hq
    unfold Recurrent.view
    rw [tail_enter]
    split
    · rw [map_some, hpos, hval, ← h.view s hs]
      unfold Recurrent.view
      rw [ht, map_some]
    · simp only [hpos, hval]
      exact h.view q hq

lemma Refines.congr {g : Store R} (h : m.Refines rows f) (hg : ∀ q < m.size, g q = f q) : m.Refines rows g :=
  ⟨h.core, h.blank, fun q hq => (h.view q hq).trans (hg q hq).symm⟩

/-- A removal refines that of the states for each sequence. -/
lemma Refines.seqRm {seq p0 p1 : Int} (h : m.Refines rows f) (hseq : 0 ≤ seq) :
    (m.seqRm seq p0 p1).2.Refines rows (f.seqRm seq p0 p1) := by
  have hcast : (seq.toNat : Int) = seq := Int.toNat_of_nonneg hseq
  -- the table changes if the range covers the cell of the sequence from the start
  by_cases hrm : seq < m.size ∧ startPos p0 = 0 ∧ ∃ t, m.tail seq.toNat = some t ∧
      0 ≤ (m.cells t).pos ∧ (m.cells t).pos < endPos p1
  · obtain ⟨hlt, h0, t, ht, hpos, hpos'⟩ := hrm
    have hs : seq.toNat < m.size := by omega
    have hpart : ¬ m.Partial seq (startPos p0) (endPos p1) := by
      rintro ⟨t', -, hp, -⟩
      omega
    obtain ⟨hd, hhd, heq⟩ := h.core.seqRm_of_covers hseq hlt hpart ht (by omega) hpos'
    have hhead := h.core.head
    rw [heq]
    have hset : Refines { m.release seq.toNat with head := hd } rows fun q => if q = seq.toNat then none else f q :=
      (h.release hs).setHead (by rw [size_release]; omega)
    refine hset.congr fun q hq => ?_
    have hq' : q < m.size := by
      rw [← size_release (m := m) (s := seq.toNat)]
      exact hq
    unfold Store.seqRm
    by_cases hqs : q = seq.toNat
    · rw [if_pos hqs, if_pos]
      refine ⟨by omega, h0, ((m.cells t).pos, m.val rows t), ?_, hpos, hpos'⟩
      rw [← h.view q hq', hqs]
      unfold Recurrent.view
      rw [ht]
      rfl
    · rw [if_neg hqs, if_neg]
      rintro ⟨hqs', -⟩
      omega
  · have hsame : (m.seqRm seq p0 p1).2 = m := by
      by_cases hlt : seq < m.size
      · by_cases hpart : m.Partial seq (startPos p0) (endPos p1)
        · unfold Recurrent.seqRm
          dsimp only
          rw [if_neg (by omega), if_pos ⟨hseq, hpart⟩]
        · refine h.core.seqRm_of_not hseq fun t ht hpos hpos' => ?_
          have hp0 : 0 ≤ startPos p0 := by
            unfold startPos
            split <;> omega
          by_cases h0 : startPos p0 = 0
          · exact hrm ⟨hlt, h0, t, ht, by omega, hpos'⟩
          · exact hpart ⟨t, ht, by omega, hpos, hpos'⟩
      · unfold Recurrent.seqRm
        dsimp only
        rw [if_pos (by omega)]
    rw [hsame]
    refine h.congr fun q hq => ?_
    unfold Store.seqRm
    rw [if_neg]
    rintro ⟨hqs, h0, c, hc, hpos, hpos'⟩
    rw [← h.view q hq] at hc
    unfold Recurrent.view at hc
    obtain ⟨t, ht, rfl⟩ := map_eq_some_iff.1 hc
    have hqn : seq.toNat = q := by omega
    exact hrm ⟨by omega, h0, t, hqn ▸ ht, hpos, hpos'⟩

lemma Refines.seqCp {src dst : Int} (h : m.Refines rows f) :
    (m.seqCp src dst).Refines rows (f.seqCp m.size src dst) := by
  obtain ⟨hno, heq⟩ | ⟨hne, hs, hd, hs0, hd0, hcase⟩ := h.core.seqCp_eq src dst
  · rw [heq]
    refine h.congr fun q hq => ?_
    unfold Store.seqCp
    split
    · rename_i hqd
      obtain rfl : src.toNat = q := by omega
      rfl
    · rfl
  have hsd : src.toNat ≠ dst.toNat := by omega
  have hrel := h.release hd
  obtain ⟨hnone, heq⟩ | ⟨t, ht, -, -, heq⟩ := hcase
  · rw [heq]
    refine hrel.congr fun q hq => ?_
    unfold Store.seqCp
    by_cases hqd : q = dst.toNat
    · rw [if_pos hqd, if_pos (by omega), ← h.view _ hs]
      unfold Recurrent.view
      rw [hnone, map_none]
    · rw [if_neg hqd, if_neg (by omega)]
  · rw [heq]
    have hent := Refines.enter dst hrel (s := src.toNat) (t := t) (by rw [size_release]; exact hd)
      (by rw [tail_release, if_pos rfl]) (by rw [size_release]; exact hs) (by rw [tail_release, if_neg hsd, ht])
    refine hent.congr fun q hq => ?_
    unfold Store.seqCp
    by_cases hqd : q = dst.toNat
    · rw [if_pos hqd, if_pos (by omega), if_neg hsd]
    · rw [if_neg hqd, if_neg (by omega), if_neg hqd]

lemma Refines.seqKeep {seq : Int} (h : m.Refines rows f) : (m.seqKeep seq).Refines rows (f.seqKeep seq) := by
  obtain ⟨hcore, hsize, -, hcells⟩ := h.core.seqKeep_eq seq
  -- the cell of the sequence keeps its position and its source
  have hkept : ∀ t < m.size, (m.cells t).hasSeqId seq → ((m.seqKeep seq).cells t).pos = (m.cells t).pos ∧
      ((m.seqKeep seq).cells t).src = (m.cells t).src := by
    intro t ht hhas
    rw [hcells t ht, kept, if_pos hhas]
    exact ⟨rfl, rfl⟩
  have htail : ∀ q < m.size, (m.seqKeep seq).tail q = if (q : Int) = seq then m.tail q else none := by
    intro q hq
    unfold Recurrent.tail
    rw [hcells q hq, kept]
    split <;> rfl
  refine ⟨hcore, ?_, ?_⟩
  · intro i hi hf
    rw [hsize] at hi
    have hno : ¬ (m.cells i).hasSeqId seq := by
      intro hhas
      have hlt := h.core.bound i hi _ hhas.2
      refine hf seq.toNat (by rw [hsize]; exact hlt) ?_
      rw [htail _ hlt, if_pos (Int.toNat_of_nonneg hhas.1)]
      exact h.core.eq_of_hasSeqId hi hhas
    unfold val
    rw [hcells i hi, kept, if_neg hno]
    rfl
  · intro q hq
    rw [hsize] at hq
    unfold Recurrent.view Store.seqKeep
    rw [htail q hq]
    split
    · rename_i hqs
      rw [← h.view q hq]
      unfold Recurrent.view
      cases ht : m.tail q with
      | none => rfl
      | some t =>
        obtain ⟨htlt, hmem⟩ := (h.core.tail q hq t).1 ht
        have hq' : seq.toNat = q := by omega
        obtain ⟨hpos, hsrc⟩ := hkept t htlt ⟨by omega, hq' ▸ hmem⟩
        unfold val
        rw [map_some, map_some, hpos, hsrc]
    · rfl

end View

section Ubatch
variable {R : Type} [Zero R] {m m' : Recurrent} {rows out : Nat → R} {f : Store R} {u : SlotUbatch} {q s t : Nat}

lemma blockOf_eq_none (hno : ¬ InBatch u q) : Store.blockOf u q = none := by
  unfold Store.blockOf
  rw [find?_eq_none]
  intro s hs hmem
  exact hno ⟨s, mem_range.1 hs, q, of_decide_eq_true hmem, rfl⟩

lemma exists_blockOf (hu : Fits m.size u) (hin : InBatch u q) :
    ∃ s < u.nSeqs, (q : Int) ∈ u.ids s ∧ Store.blockOf u q = some s := by
  obtain ⟨s, hs, id, hid, rfl⟩ := hin
  have hcast : (id.toNat : Int) = id := Int.toNat_of_nonneg (hu.bound s hs id hid).1
  cases hfind : Store.blockOf u id.toNat with
  | none =>
    unfold Store.blockOf at hfind
    rw [find?_eq_none] at hfind
    exact absurd (decide_eq_true (hcast.symm ▸ hid)) (hfind s (mem_range.2 hs))
  | some s' =>
    have hs' := mem_range.1 (mem_of_find?_eq_some hfind)
    have hmem : decide ((id.toNat : Int) ∈ u.ids s') = true :=
      find?_some (p := fun s => decide ((id.toNat : Int) ∈ u.ids s)) hfind
    exact ⟨s', hs', of_decide_eq_true hmem, rfl⟩

lemma Core.val_of_tail (h : m.Core) (hq : q < m.size) (ht : m.tail q = some t) : m.val rows t = rows t := by
  obtain ⟨htlt, hmem⟩ := (h.tail q hq t).1 ht
  unfold val
  obtain hsrc | ⟨-, he⟩ := h.src t htlt
  · rw [hsrc]
    rfl
  · exact absurd hmem (he ▸ Finset.notMem_empty q)

lemma buildRs_of_not (h : ¬ (m.head ≤ t ∧ t < m.head + u.nSeqs)) :
    m.buildRs u.nSeqs out rows t = m.copied rows t := by
  unfold buildRs copied
  rw [if_neg h]

lemma Refines.outputStates (h : m.Refines rows f) (hu : Fits m.size u) (hs : Slotted m u m') (hlt : s < u.nSeqs) :
    m'.outputStates rows s = f.row (u.first s) := by
  have hq : u.first s < m.size := hu.first_lt hlt
  obtain ⟨id, hid, hfirst⟩ := hu.first_mem hlt
  have hlater : ¬ Later u (u.first s) := fun hl =>
    hu.not_first hl (Finset.mem_image_of_mem _ (Finset.mem_range.2 hlt))
  have htail := hs.block s hlt id hid
  rw [hfirst] at htail
  have hval : m'.seqVal (m'.copied rows) (u.first s) = m'.copied rows (m'.head + s) := by
    unfold Recurrent.seqVal
    rw [htail]
    exact hs.core.val_of_tail (by rw [hs.size]; exact hq) htail
  have hroom := hs.room.1
  calc m'.outputStates rows s = m'.copied rows (m'.head + s) := by
        unfold Recurrent.outputStates copied
        rw [if_pos (by omega), Nat.add_sub_cancel_left]
    _ = m.seqVal rows (u.first s) := by rw [← hval, hs.seqVal rows h.blank _ hq hlater]
    _ = f.row (u.first s) := h.seqVal hq

/-- A ubatch updates the states of its sequences only. -/
lemma Refines.ubatch (h : m.Refines rows f) (hu : Fits m.size u) (hs : Slotted m u m') :
    m'.Refines (m'.buildRs u.nSeqs out rows) (f.ubatch u out) := by
  refine ⟨hs.core, ?_, ?_⟩
  · intro i hi hf
    have hout : ¬ (m'.head ≤ i ∧ i < m'.head + u.nSeqs) := by
      rintro ⟨h1, h2⟩
      obtain ⟨s, rfl⟩ := Nat.exists_eq_add_of_le h1
      obtain ⟨id, hid, -⟩ := hu.first_mem (s := s) (by omega)
      have hb := hu.bound s (by omega) id hid
      exact hf id.toNat (by rw [hs.size]; omega) (hs.block s (by omega) id hid)
    have hzero := hs.blank rows h.blank i hi hf
    unfold val at hzero ⊢
    obtain hsrc | ⟨hsrc, -⟩ := hs.core.src i hi
    · rw [hsrc] at hzero ⊢
      exact (buildRs_of_not hout).trans hzero
    · rw [hsrc]
      rfl
  · intro q hq
    have hq' : q < m.size := by
      rw [← hs.size]
      exact hq
    unfold Store.ubatch
    by_cases hin : InBatch u q
    · obtain ⟨s, hlt, hmem, hblock⟩ := exists_blockOf hu hin
      have htail : m'.tail q = some (m'.head + s) := hs.block s hlt q hmem
      unfold Recurrent.view
      rw [hblock, htail, map_some, hs.pos s hlt, hs.core.val_of_tail hq htail]
      unfold buildRs
      rw [if_pos (by omega), Nat.add_sub_cancel_left]
      rfl
    · rw [blockOf_eq_none hin, elim_none, ← h.view q hq']
      have hlater : ¬ Later u q := by
        rintro ⟨s, hlt, id, hid, heq⟩
        exact hin ⟨s, hlt, id, mem_of_mem_tail hid, heq⟩
      have hpos := hs.rest q hq' hin
      have hval := hs.seqVal rows h.blank q hq' hlater
      unfold Recurrent.seqVal at hval
      unfold Recurrent.view
      cases ht' : m'.tail q with
      | none =>
        rw [ht', map_none] at hpos
        rw [map_none, map_eq_none_iff.1 hpos.symm, map_none]
      | some t' =>
        rw [ht', map_some] at hpos
        obtain ⟨t, ht, hpos⟩ := map_eq_some_iff.1 hpos.symm
        rw [ht', ht] at hval
        have hout : ¬ (m'.head ≤ t' ∧ t' < m'.head + u.nSeqs) := by
          rintro ⟨h1, h2⟩
          obtain ⟨s, rfl⟩ := Nat.exists_eq_add_of_le h1
          exact hs.away q hq' hin s (by omega) ht'
        have hrow : m'.val (m'.buildRs u.nSeqs out rows) t' = m.val rows t :=
          calc m'.val (m'.buildRs u.nSeqs out rows) t' = m'.copied rows t' := by
                rw [hs.core.val_of_tail hq ht', buildRs_of_not hout]
            _ = m'.val (m'.copied rows) t' := (hs.core.val_of_tail hq ht').symm
            _ = m.val rows t := hval
        rw [map_some, ht, map_some, hrow, hpos]

end Ubatch

end Recurrent

/-- A ubatch with what its blocks produce, or a change of the sequences. -/
inductive RowOp (R : Type) where
  | ubatch (u : SlotUbatch) (out : Nat → R)
  | seqRm (seq p0 p1 : Int)
  | seqCp (src dst : Int)
  | seqKeep (seq : Int)

/-- The memory with its rows, and the table that says what they should be. -/
structure RowSys (R : Type) where
  mem : Recurrent
  rows : Nat → R
  store : Store R

namespace RowSys

variable {R : Type} [Zero R] {x x' : RowSys R}

/-- One step: the memory as the code changes it, the table beside it. -/
def apply (x : RowSys R) : RowOp R → Option (RowSys R)
  | .ubatch u out => (x.mem.findSlot u).map fun r =>
      { mem := r.2, rows := r.2.buildRs u.nSeqs out x.rows, store := x.store.ubatch u out }
  | .seqRm seq p0 p1 => some { x with mem := (x.mem.seqRm seq p0 p1).2, store := x.store.seqRm seq p0 p1 }
  | .seqCp src dst => some { x with mem := x.mem.seqCp src dst, store := x.store.seqCp x.mem.size src dst }
  | .seqKeep seq => some { x with mem := x.mem.seqKeep seq, store := x.store.seqKeep seq }

def Fresh (x : RowSys R) : Prop :=
  x.mem = { size := x.mem.size, nSeqMax := x.mem.nSeqMax } ∧ x.store = fun _ => none

/-- The ubatches have distinct sequence ids below the number of cells, and `seq_rm` names a sequence. -/
def Admits (x : RowSys R) : RowOp R → Prop
  | .ubatch u _ => Recurrent.Fits x.mem.size u
  | .seqRm seq _ _ => 0 ≤ seq
  | _ => True

def Run : RowSys R → Prop := Reach Fresh fun x op x' => x.Admits op ∧ x.apply op = some x'

lemma Fresh.refines (h : x.Fresh) : x.mem.Refines x.rows x.store := by
  obtain ⟨hmem, hstore⟩ := h
  rw [hmem, hstore]
  exact ⟨Recurrent.core_clear { size := x.mem.size, nSeqMax := x.mem.nSeqMax }, fun _ _ _ => rfl, fun _ _ => rfl⟩

lemma refines_step {op : RowOp R} (h : x.mem.Refines x.rows x.store) (hop : x.Admits op)
    (hstep : x.apply op = some x') : x'.mem.Refines x'.rows x'.store := by
  cases op with
  | ubatch u out =>
    obtain ⟨m', hrun, hs⟩ := Recurrent.findSlot_spec h.core hop
    rw [apply, hrun] at hstep
    cases hstep
    exact h.ubatch hop hs
  | seqRm seq p0 p1 =>
    cases hstep
    exact h.seqRm hop
  | seqCp src dst =>
    cases hstep
    exact h.seqCp
  | seqKeep seq =>
    cases hstep
    exact h.seqKeep

/-- In every state of every run the memory has for each sequence what the table says, and each block of the next
    ubatch starts from the state that the table has for its first sequence. -/
theorem Run.isolated (h : x.Run) : (∀ q < x.mem.size, x.mem.view x.rows q = x.store q) ∧
    ∀ u, Recurrent.Fits x.mem.size u → ∃ m', x.mem.findSlot u = some (true, m') ∧
      ∀ s < u.nSeqs, m'.outputStates x.rows s = x.store.row (u.first s) := by
  have href : x.mem.Refines x.rows x.store :=
    Reach.invariant (P := fun x : RowSys R => x.mem.Refines x.rows x.store) h (fun _ h0 => h0.refines)
      fun _ _ _ href hstep => refines_step href hstep.1 hstep.2
  refine ⟨href.view, fun u hu => ?_⟩
  obtain ⟨m', hrun, hs⟩ := Recurrent.findSlot_spec href.core hu
  exact ⟨m', hrun, fun s hlt => href.outputStates hu hs hlt⟩

def threeCells : RowSys Nat :=
  { mem := { size := 3, nSeqMax := 3 }, rows := fun i => 90 + i, store := fun _ => none }

def apart : SlotUbatch := { nSeqTokens := 1, nSeqs := 2, pos := [0, 0], seqId := [[0], [1]] }

def together : SlotUbatch := { nSeqTokens := 1, nSeqs := 1, pos := [1], seqId := [[0, 1]] }

lemma fits_apart : Recurrent.Fits 3 apart := ⟨rfl, by decide, by decide, by decide, by decide⟩

lemma fits_together : Recurrent.Fits 3 together := ⟨rfl, by decide, by decide, by decide, by decide⟩

lemma exists_apart : ∃ x : RowSys Nat, x.Run ∧ x.mem.size = 3 ∧ x.store.row 0 = 11 ∧ x.store.row 1 = 22 ∧
    (x.mem.findSlot together).any fun r => r.2.outputStates x.rows 0 = 11 := by
  have hrun : ((threeCells.apply (.ubatch apart fun s => 11 * (s + 1))).any fun x => x.mem.size = 3 ∧
      x.store.row 0 = 11 ∧ x.store.row 1 = 22 ∧
      (x.mem.findSlot together).any fun r => r.2.outputStates x.rows 0 = 11) = true := by
    decide +kernel
  obtain ⟨x, hx, hp⟩ := (Option.any_eq_true _ _).1 hrun
  have hfresh : threeCells.Fresh := ⟨rfl, rfl⟩
  refine ⟨x, .step (a := RowOp.ubatch apart fun s => 11 * (s + 1)) (.init hfresh) ⟨fits_apart, hx⟩, ?_⟩
  exact of_decide_eq_true hp

/-- Sequences 0 and 1 start from their own states again. -/
theorem Run.isolated_apart : ∃ x : RowSys Nat, x.Run ∧ x.mem.size = 3 ∧ x.store.row 0 = 11 ∧ x.store.row 1 = 22 ∧
    ∃ m', x.mem.findSlot apart = some (true, m') ∧ m'.outputStates x.rows 0 = 11 ∧
      m'.outputStates x.rows 1 = 22 := by
  obtain ⟨x, hx, hsize, h0, h1, -⟩ := exists_apart
  obtain ⟨m', hrun, hout⟩ := (Run.isolated hx).2 apart (by rw [hsize]; exact fits_apart)
  exact ⟨x, hx, hsize, h0, h1, m', hrun, (hout 0 (by decide)).trans h0, (hout 1 (by decide)).trans h1⟩

/-- In a block with both, sequence 1 starts from the state of sequence 0. -/
theorem shared_block_drops_state : ∃ x : RowSys Nat, x.Run ∧ Recurrent.Fits x.mem.size together ∧
    1 ∈ together.ids 0 ∧ x.store.row 1 = 22 ∧
    ∃ m' ok, x.mem.findSlot together = some (ok, m') ∧ m'.outputStates x.rows 0 = 11 := by
  obtain ⟨x, hx, hsize, -, h1, hout⟩ := exists_apart
  obtain ⟨⟨ok, m'⟩, hrun, hp⟩ := (Option.any_eq_true _ _).1 hout
  exact ⟨x, hx, by rw [hsize]; exact fits_together, by decide, h1, m', ok, hrun, of_decide_eq_true hp⟩

end RowSys

end Mallana
