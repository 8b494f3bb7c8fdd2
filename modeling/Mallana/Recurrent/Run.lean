import Mallana.Lib.Reach
import Mallana.Recurrent.Load

/-!
# Runs of the recurrent memory

The operations of `llama_memory_recurrent` in any order, from an empty memory on. In every state of such a run each
sequence should be in at most one cell, its tail should point there, and `used` should count the cells with a
sequence; `find_slot` checks this in debug builds only.

It is so in the runs whose steps are `Safe`. A `seq_rm` of all sequences leaves the tails of the sequences behind
that it removes, so that the next `find_slot` asserts; `seq_keep` does not count the cells with a negative position
that it empties; and a restore counts the announced cells, not those with a sequence.
-/

namespace Mallana

open Lib ReadM

namespace Recurrent

/-- Sequences, tails and the count fit together. -/
structure TailInv (m : Recurrent) : Prop where
  once : ∀ i < m.size, ∀ j < m.size, ∀ s ∈ (m.cells i).seqId, s ∈ (m.cells j).seqId → i = j
  tail : ∀ s < m.size, ∀ t, m.tail s = some t ↔ t < m.size ∧ s ∈ (m.cells t).seqId
  used : m.used = m.countUsed

/-- No assertion of `find_slot` fails, called with a ubatch, in `prepare` or in a restore. -/
structure NoAssert (m : Recurrent) : Prop where
  find : ∀ u, Fits m.size u → (m.findSlot u).isSome
  prepare : ∀ us, (∀ u ∈ us, Fits m.size u) → (m.prepare us).isSome
  restore : ∀ dest cellCount pos, m.RmSafe dest (-1) (-1) →
    ((m.seqRm dest (-1) (-1)).2.findSlot (RsState.seqUbatch cellCount pos dest)).isSome

section Prepare
variable {m : Recurrent}

lemma Inv.findSlot (h : m.Inv) {u : SlotUbatch} (hu : Fits m.size u) :
    ∃ m', m.findSlot u = some (true, m') ∧ m'.Inv ∧ m'.dims = m.dims := by
  obtain ⟨m', hrun, hs⟩ := findSlot_spec h.toCore hu
  refine ⟨m', hrun, ⟨hs.core, ?_, hs.used⟩, dims_findSlot hrun⟩
  rw [hs.size]
  exact h.small

lemma Inv.findSlots (h : m.Inv) {us : List SlotUbatch} (hus : ∀ u ∈ us, Fits m.size u) :
    ∃ m', m.findSlots us = some (true, m') ∧ m'.Inv ∧ m'.dims = m.dims := by
  induction us generalizing m with
  | nil => exact ⟨m, rfl, h, rfl⟩
  | cons u us ih =>
    obtain ⟨m₁, hrun, h₁, hdims⟩ := h.findSlot (hus u List.mem_cons_self)
    have hsize : m₁.size = m.size := congrArg Prod.fst hdims
    obtain ⟨m₂, hruns, h₂, hdims'⟩ := ih h₁ fun u' hu' => by
      rw [hsize]
      exact hus u' (List.mem_cons_of_mem u hu')
    refine ⟨m₂, ?_, h₂, hdims'.trans hdims⟩
    unfold Recurrent.findSlots
    rw [hrun]
    exact hruns

lemma Inv.prepare (h : m.Inv) {us : List SlotUbatch} (hus : ∀ u ∈ us, Fits m.size u) :
    ∃ m', m.prepare us = some (true, m') ∧ m'.Inv ∧ m'.dims = m.dims := by
  obtain ⟨m₁, hrun, -, hdims⟩ := h.findSlots hus
  have hsize : m₁.size = m.size := congrArg Prod.fst hdims
  obtain ⟨m₂, hm₂, hcells, hsize₂, hused, hhead⟩ : ∃ m₂ : Recurrent,
      { m₁ with cells := m.cells, used := m.used, head := m.head } = m₂ ∧ m₂.cells = m.cells ∧
        m₂.size = m.size ∧ m₂.used = m.used ∧ m₂.head = m.head :=
    ⟨_, rfl, rfl, hsize, rfl, rfl⟩
  refine ⟨m₂, ?_, ⟨⟨?_, ?_, ?_, ?_, ?_⟩, ?_, ?_⟩, ?_⟩
  · unfold Recurrent.prepare
    rw [hrun, ← hm₂]
    rfl
  · rw [hsize₂, hhead]
    exact h.head
  · rw [hsize₂, hcells]
    exact h.bound
  · unfold Recurrent.tail
    rw [hsize₂, hcells]
    exact h.tail
  · rw [hsize₂, hcells]
    exact h.empty
  · rw [hsize₂, hcells]
    exact h.src
  · rw [hsize₂]
    exact h.small
  · rw [hused, h.used]
    exact (countUsed_congr hsize₂ fun _ _ => by rw [hcells]).symm
  · rw [← hm₂]
    exact hdims

lemma Inv.toTailInv (h : m.Inv) : m.TailInv := by
  refine ⟨?_, h.tail, h.used⟩
  intro i hi j hj s hs hs'
  have hlt := h.bound i hi s hs
  have ht := (h.tail s hlt i).2 ⟨hi, hs⟩
  rw [(h.tail s hlt j).2 ⟨hj, hs'⟩] at ht
  exact (Option.some.inj ht).symm

lemma Inv.noAssert (h : m.Inv) : m.NoAssert := by
  refine ⟨?_, ?_, ?_⟩
  · intro u hu
    obtain ⟨m', hrun, -⟩ := h.findSlot hu
    rw [hrun]
    rfl
  · intro us hus
    obtain ⟨m', hrun, -⟩ := h.prepare hus
    rw [hrun]
    rfl
  · intro dest cellCount pos hsafe
    have hguard : RsState.Guarded dest m := ⟨h, hsafe⟩
    obtain ⟨ok, m', hrun, -⟩ := RsState.findSlot_seqUbatch (RsState.guarded_seqRm hguard) cellCount pos
    rw [hrun]
    rfl

end Prepare

end Recurrent

/-- The operations of `llama_memory_recurrent`. -/
inductive RsOp where
  | clear
  | seqRm (seq p0 p1 : Int)
  | seqCp (src dst : Int)
  | seqKeep (seq : Int)
  | seqAdd (seq p0 p1 shift : Int)
  | seqDiv (seq p0 p1 d : Int)
  | prepare (us : List SlotUbatch)
  | findSlot (u : SlotUbatch)
  | stateRead (dest : Int) (input : List UInt8)

namespace RsState

/-- One call; `none` if an assertion fails. A restore that fails ends with an exception, and the memory stays as
    it is then. -/
def apply (st : RsState) : RsOp → Option RsState
  | .clear => some st.clear
  | .seqRm seq p0 p1 => some (st.setMem fun m => (m.seqRm seq p0 p1).2)
  | .seqCp src dst => some (st.setMem fun m => m.seqCp src dst)
  | .seqKeep seq => some (st.setMem fun m => m.seqKeep seq)
  | .seqAdd seq p0 p1 shift => some (st.setMem fun m => m.seqAdd seq p0 p1 shift)
  | .seqDiv seq p0 p1 d => some (st.setMem fun m => m.seqDiv seq p0 p1 d)
  | .prepare us => (st.mem.prepare us).map fun r => st.setMem fun _ => r.2
  | .findSlot u => (st.mem.findSlot u).map fun r => st.setMem fun _ => r.2
  | .stateRead dest input =>
    match stateRead dest ⟨input, st⟩ with
    | .error .assertFailed _ => none
    | r => some (final r)

/-- The memory after its constructor; the callers give it at least a cell for each sequence. -/
structure Fresh (st : RsState) : Prop where
  mem : st.mem = { size := st.mem.size, nSeqMax := st.mem.nSeqMax }
  small : st.mem.size < 4294967296
  seqMax : st.mem.nSeqMax ≤ st.mem.size

end RsState

namespace RsOp

/-- The ubatches have distinct sequence ids below the number of cells. -/
def Fits (st : RsState) : RsOp → Prop
  | .prepare us => ∀ u ∈ us, Recurrent.Fits st.mem.size u
  | .findSlot u => Recurrent.Fits st.mem.size u
  | _ => True

def Safe (st : RsState) : RsOp → Prop
  | .seqRm seq p0 p1 => st.mem.RmSafe seq p0 p1
  | .seqKeep seq => st.mem.KeepSafe seq
  | .stateRead dest input => RsState.ReadSafe st.mem dest input
  | _ => True

end RsOp

/-- The states of the runs whose steps all satisfy `ok`, from an empty memory on. -/
def RsRun (ok : RsState → RsOp → Prop) : RsState → Prop :=
  Reach RsState.Fresh fun st op st' => op.Fits st ∧ ok st op ∧ st.apply op = some st'

/-- The invariant, with what a restore needs. -/
structure RsState.Ok (st : RsState) : Prop where
  inv : st.mem.Inv
  seqMax : st.mem.nSeqMax ≤ st.mem.size

section Run
variable {st st' : RsState}

lemma RsState.Fresh.ok (h : st.Fresh) : st.Ok := by
  refine ⟨?_, h.seqMax⟩
  rw [h.mem]
  exact Recurrent.inv_clear (m := { size := st.mem.size, nSeqMax := st.mem.nSeqMax }) h.small

lemma RsState.Ok.of_dims (h : st.Ok) (hinv : st'.mem.Inv) (hdims : st'.mem.dims = st.mem.dims) : st'.Ok := by
  refine ⟨hinv, ?_⟩
  have hsize : st'.mem.size = st.mem.size := congrArg Prod.fst hdims
  have hmax : st'.mem.nSeqMax = st.mem.nSeqMax := congrArg Prod.snd hdims
  rw [hsize, hmax]
  exact h.seqMax

/-- A safe step keeps the invariant. -/
lemma RsState.Ok.step {op : RsOp} (h : st.Ok) (hfits : op.Fits st) (hsafe : op.Safe st)
    (hstep : st.apply op = some st') : st'.Ok := by
  cases op with
  | clear =>
    cases hstep
    exact h.of_dims (Recurrent.inv_clear h.inv.small) rfl
  | seqRm seq p0 p1 =>
    cases hstep
    refine h.of_dims ?_ Recurrent.dims_seqRm
    by_cases hseq : 0 ≤ seq
    · exact h.inv.seqRm hseq
    · show ((st.mem.seqRm seq p0 p1).2).Inv
      rw [h.inv.toCore.seqRm_neg (Int.not_le.1 hseq) hsafe]
      exact h.inv
  | seqCp src dst =>
    cases hstep
    exact h.of_dims h.inv.seqCp Recurrent.dims_seqCp
  | seqKeep seq =>
    cases hstep
    exact h.of_dims (h.inv.seqKeep hsafe) Recurrent.dims_seqKeep
  | seqAdd seq p0 p1 shift =>
    cases hstep
    exact h.of_dims h.inv.seqAdd Recurrent.dims_seqAdd
  | seqDiv seq p0 p1 d =>
    cases hstep
    exact h.of_dims h.inv.seqDiv Recurrent.dims_seqDiv
  | prepare us =>
    obtain ⟨m', hrun, hinv, hdims⟩ := h.inv.prepare hfits
    rw [apply, hrun] at hstep
    cases hstep
    exact h.of_dims hinv hdims
  | findSlot u =>
    obtain ⟨m', hrun, hinv, hdims⟩ := h.inv.findSlot hfits
    rw [apply, hrun] at hstep
    cases hstep
    exact h.of_dims hinv hdims
  | stateRead dest input =>
    have hfinal : st' = final (stateRead dest ⟨input, st⟩) := by
      unfold apply at hstep
      dsimp only at hstep
      split at hstep
      · cases hstep
      · exact (Option.some.inj hstep).symm
    rw [hfinal]
    refine h.of_dims (inv_stateRead h.inv h.seqMax hsafe) ?_
    refine stable_stateRead (J := (·.dims = st.mem.dims)) (fun c => stable_dims c dest) ?_ ⟨input, st⟩ rfl
    intro s hs
    unfold cleanUp
    split
    · exact hs
    · exact Recurrent.dims_seqRm.trans hs

/-- In every state of a run whose steps are safe, sequences, tails and the count fit together, and no assertion of
    `find_slot` fails. -/
theorem RsRun.tailInv (h : RsRun (fun st op => op.Safe st) st) : st.mem.TailInv ∧ st.mem.NoAssert := by
  have hok : st.Ok := Reach.invariant h (fun _ h0 => h0.ok)
    fun _ _ _ hok hstep => hok.step hstep.1 hstep.2.1 hstep.2.2
  exact ⟨hok.inv.toTailInv, hok.inv.noAssert⟩

end Run

def twoCells : RsState := { mem := { size := 2, nSeqMax := 2 }, layers := [], r := fun _ _ => 0, s := fun _ _ => 0 }

def oneToken (seq pos : Int) : SlotUbatch := { nSeqTokens := 1, nSeqs := 1, pos := [pos], seqId := [[seq]] }

lemma fresh_twoCells : twoCells.Fresh := ⟨rfl, by decide, by decide⟩

lemma fits_oneToken : Recurrent.Fits 2 (oneToken 0 0) := ⟨rfl, by decide, by decide, by decide, by decide⟩

lemma exists_oneToken : ∃ st, twoCells.apply (.findSlot (oneToken 0 0)) = some st ∧ st.mem.used = 1 ∧
    (st.apply (.seqRm (-1) (-1) (-1))).all fun st' => st'.mem.size = 2 ∧ st'.mem.tail 0 = some 0 ∧
      (st'.mem.cells 0).isEmpty ∧ (st'.mem.findSlot (oneToken 0 1)).isNone := by
  have hrun : ((twoCells.apply (.findSlot (oneToken 0 0))).any fun st => st.mem.used = 1 ∧
      (st.apply (.seqRm (-1) (-1) (-1))).all fun st' => st'.mem.size = 2 ∧ st'.mem.tail 0 = some 0 ∧
        (st'.mem.cells 0).isEmpty ∧ (st'.mem.findSlot (oneToken 0 1)).isNone) = true := by
    decide +kernel
  obtain ⟨st, hst, hp⟩ := (Option.any_eq_true _ _).1 hrun
  exact ⟨st, hst, of_decide_eq_true hp⟩

/-- The memory after one ubatch. -/
theorem RsRun.tailInv_oneToken : ∃ st, RsRun (fun st op => op.Safe st) st ∧ st.mem.used = 1 ∧
    st.mem.TailInv ∧ st.mem.NoAssert := by
  obtain ⟨st, hrun, hused, -⟩ := exists_oneToken
  have h : RsRun (fun st op => op.Safe st) st :=
    .step (a := RsOp.findSlot (oneToken 0 0)) (.init fresh_twoCells) ⟨fits_oneToken, trivial, hrun⟩
  exact ⟨st, h, hused, RsRun.tailInv h⟩

/-- In such a run `prepare` finds room for every list of ubatches and leaves the cells, their count and the head as they are. The
blocks of a ubatch are put in consecutive cells from the head on; the other sequences keep their positions and are in other
cells. -/
theorem RsRun.slots {st : RsState} (h : RsRun (fun st op => op.Safe st) st) :
    (∀ us, (∀ u ∈ us, Recurrent.Fits st.mem.size u) → ∃ m, st.mem.prepare us = some (true, m) ∧ m.cells = st.mem.cells ∧
      m.used = st.mem.used ∧ m.head = st.mem.head) ∧
    ∀ u, Recurrent.Fits st.mem.size u → ∃ m, st.mem.findSlot u = some (true, m) ∧ m.head + u.nSeqs ≤ st.mem.size ∧
      (∀ s < u.nSeqs, (m.cells (m.head + s)).pos = u.lastPos s ∧ ∀ id ∈ u.ids s, m.tail id.toNat = some (m.head + s)) ∧
      ∀ q < st.mem.size, ¬ Recurrent.InBatch u q →
        ((m.tail q).map fun t => (m.cells t).pos) = ((st.mem.tail q).map fun t => (st.mem.cells t).pos) ∧
        ∀ s < u.nSeqs, m.tail q ≠ some (m.head + s) := by
  have hok : st.Ok := Reach.invariant h (fun _ h0 => h0.ok)
    fun _ _ _ hok hstep => hok.step hstep.1 hstep.2.1 hstep.2.2
  constructor
  · intro us hus
    obtain ⟨m, hrun, -⟩ := hok.inv.findSlots hus
    refine ⟨{ m with cells := st.mem.cells, used := st.mem.used, head := st.mem.head }, ?_, rfl, rfl, rfl⟩
    rw [Recurrent.prepare, hrun]
    rfl
  · intro u hu
    obtain ⟨m, hrun, hs⟩ := Recurrent.findSlot_spec hok.inv.toCore hu
    have hroom := hs.room
    exact ⟨m, hrun, by omega, fun s hlt => ⟨hs.pos s hlt, hs.block s hlt⟩, fun q hq hin => ⟨hs.rest q hq hin, hs.away q hq hin⟩⟩

def threeCells : RsState := { mem := { size := 3, nSeqMax := 3 }, layers := [], r := fun _ _ => 0, s := fun _ _ => 0 }

/-- One token for each of the sequences 0 and 1. -/
def twoSeqs : SlotUbatch := { nSeqTokens := 1, nSeqs := 2, pos := [4, 7], seqId := [[0], [1]] }

/-- Sequences 0 and 1 get a cell each, sequence 2 shares the one of sequence 0, and sequence 1 is removed. -/
lemma exists_sharedCell : ∃ st₁, threeCells.apply (.findSlot twoSeqs) = some st₁ ∧
    ∃ st₂, st₁.apply (.seqCp 0 2) = some st₂ ∧ ∃ st₃, st₂.apply (.seqRm 1 (-1) (-1)) = some st₃ ∧
      st₃.mem.size = 3 ∧ st₃.mem.tail 0 = some 0 ∧ st₃.mem.tail 1 = none ∧ st₃.mem.tail 2 = some 0 ∧
        (st₃.mem.cells 0).pos = 4 := by
  have hrun : ((threeCells.apply (.findSlot twoSeqs)).any fun st₁ => (st₁.apply (.seqCp 0 2)).any fun st₂ =>
      (st₂.apply (.seqRm 1 (-1) (-1))).any fun st₃ => st₃.mem.size = 3 ∧ st₃.mem.tail 0 = some 0 ∧
        st₃.mem.tail 1 = none ∧ st₃.mem.tail 2 = some 0 ∧ (st₃.mem.cells 0).pos = 4) = true := by
    decide +kernel
  obtain ⟨st₁, h₁, hrun⟩ := (Option.any_eq_true _ _).1 hrun
  obtain ⟨st₂, h₂, hrun⟩ := (Option.any_eq_true _ _).1 hrun
  obtain ⟨st₃, h₃, hp⟩ := (Option.any_eq_true _ _).1 hrun
  exact ⟨st₁, h₁, st₂, h₂, st₃, h₃, of_decide_eq_true hp⟩

/-- Behind these steps the next token of sequence 2 moves it to a cell of its own, and sequence 0 keeps its position. -/
theorem RsRun.slots_sharedCell : ∃ st, RsRun (fun st op => op.Safe st) st ∧ st.mem.tail 0 = st.mem.tail 2 ∧
    ∃ m, st.mem.findSlot (oneToken 2 5) = some (true, m) ∧ m.tail 2 = some (m.head + 0) ∧ m.tail 0 ≠ some (m.head + 0) ∧
      (m.cells (m.head + 0)).pos = 5 ∧ ((m.tail 0).map fun t => (m.cells t).pos) = some 4 := by
  obtain ⟨st₁, h₁, st₂, h₂, st, h₃, hsize, htail0, -, htail2, hpos⟩ := exists_sharedCell
  have hfits : Recurrent.Fits 3 twoSeqs := ⟨rfl, by decide, by decide, by decide, by decide⟩
  have hfresh : threeCells.Fresh := ⟨rfl, by decide, by decide⟩
  have hrun : RsRun (fun st op => op.Safe st) st :=
    .step (a := RsOp.seqRm 1 (-1) (-1))
      (.step (a := RsOp.seqCp 0 2)
        (.step (a := RsOp.findSlot twoSeqs) (.init hfresh) ⟨hfits, trivial, h₁⟩)
        ⟨trivial, trivial, h₂⟩)
      ⟨trivial, fun hneg => absurd hneg (by decide), h₃⟩
  have hnext : Recurrent.Fits st.mem.size (oneToken 2 5) := by
    rw [hsize]
    exact ⟨rfl, by decide, by decide, by decide, by decide⟩
  obtain ⟨m, hfind, -, hblock, hrest⟩ := (RsRun.slots hrun).2 (oneToken 2 5) hnext
  have hother : ¬ ∃ s < (oneToken 2 5).nSeqs, ∃ id ∈ (oneToken 2 5).ids s, id.toNat = 0 := by decide
  obtain ⟨hkeep, haway⟩ := hrest 0 (by rw [hsize]; decide) hother
  refine ⟨st, hrun, htail0.trans htail2.symm, m, hfind, (hblock 0 (by decide)).2 2 (by decide), haway 0 (by decide),
    (hblock 0 (by decide)).1, hkeep.trans ?_⟩
  rw [htail0, Option.map_some, hpos]

/-- `seq_rm` of all sequences leaves the tail of sequence 0 behind, and the next `find_slot` for it asserts. -/
theorem seqRm_all_keeps_tail : ∃ st, RsRun (fun _ _ => True) st ∧ st.mem.tail 0 = some 0 ∧
    (st.mem.cells 0).isEmpty ∧ ¬ st.mem.TailInv ∧ st.mem.findSlot (oneToken 0 1) = none ∧ ¬ st.mem.NoAssert := by
  obtain ⟨st, hrun, -, hafter⟩ := exists_oneToken
  have h : RsRun (fun _ _ => True) st :=
    .step (a := RsOp.findSlot (oneToken 0 0)) (.init fresh_twoCells) ⟨fits_oneToken, trivial, hrun⟩
  obtain ⟨hsize, htail, hempty, hnone⟩ := of_decide_eq_true hafter
  refine ⟨_, .step (a := RsOp.seqRm (-1) (-1) (-1)) h ⟨trivial, trivial, rfl⟩, htail, hempty, ?_, Option.isNone_iff_eq_none.1 hnone, ?_⟩
  · intro hinv
    have hmem := ((hinv.tail 0 (by rw [hsize]; decide) 0).1 htail).2
    rw [hempty] at hmem
    exact Finset.notMem_empty 0 hmem
  · intro hno
    have hsome := hno.find (oneToken 0 1) (by rw [hsize]; exact ⟨rfl, by decide, by decide, by decide, by decide⟩)
    rw [Option.isNone_iff_eq_none.1 hnone] at hsome
    cases hsome

end Mallana
