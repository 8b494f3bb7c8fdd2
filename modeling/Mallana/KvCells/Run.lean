import Mallana.KvCells.Invariant
import Mallana.Lib.Reach

/-!
# Runs of the cell table

A program that uses one `llama_kv_cells` table: it applies the operations of the class in any order,
keeps the snapshots that `cp` returns and hands them back to `set`. `CellsOp.Asserted` are the
`assert`s of each operation in `src/src/llama-kv-cells.h`, as a condition on the state before the call.

They are not enough for the representation invariant: `pos_set` does not ask that the position differ
from `-1`, the marker of an empty cell, and then records an empty cell as used. `CellsOp.NoMarker` is
what is missing; with it the invariant holds in every state of every run (`CellsRun.table_inv`).
-/

namespace Mallana

open Lib KvCells

/-- A table and the snapshots taken from it so far. -/
structure CellsEnv where
  table : KvCells := {}
  saved : List KvCells := []

/-- The operations of `llama_kv_cells`. `set` and `setIdxs` name the snapshot they take over. -/
inductive CellsOp where
  | resize (n : Nat)
  | reset
  | resetShift
  | cp (i n : Nat)
  | cpIdxs (idxs : List Nat)
  | set (i k : Nat)
  | setIdxs (idxs : List Nat) (k : Nat)
  | rm (i : Nat)
  | seqRm (i : Nat) (s : SeqId)
  | seqKeep (i : Nat) (s : SeqId)
  | seqAdd (i : Nat) (s : SeqId)
  | posSet (i : Nat) (p : Int)
  | extSet (i : Nat) (e : KvCellExt)
  | posAdd (i : Nat) (d : Int)
  | posDiv (i : Nat) (d : Int)

/-- The `k`-th snapshot. -/
def CellsEnv.snapshot (e : CellsEnv) (k : Nat) : KvCells := e.saved.getD k {}

def CellsEnv.apply (e : CellsEnv) : CellsOp → CellsEnv
  | .resize n => { e with table := e.table.resize n }
  | .reset => { e with table := e.table.reset }
  | .resetShift => { e with table := e.table.resetShift }
  | .cp i n => { e with saved := e.saved ++ [e.table.cp i n] }
  | .cpIdxs idxs => { e with saved := e.saved ++ [e.table.cpIdxs idxs] }
  | .set i k => { e with table := e.table.set i (e.snapshot k) }
  | .setIdxs idxs k => { e with table := e.table.setIdxs idxs (e.snapshot k) }
  | .rm i => { e with table := e.table.rm i }
  | .seqRm i s => { e with table := (e.table.seqRm i s).1 }
  | .seqKeep i s => { e with table := (e.table.seqKeep i s).1 }
  | .seqAdd i s => { e with table := e.table.seqAdd i s }
  | .posSet i p => { e with table := e.table.posSet i p }
  | .extSet i x => { e with table := e.table.extSet i x }
  | .posAdd i d => { e with table := (e.table.posAdd i d).1 }
  | .posDiv i d => { e with table := e.table.posDiv i d }

/-- The `assert`s that guard each call (and, for `pos_div`, a divisor of at least one; for `set` by
    indices, distinct ones). -/
def CellsOp.Asserted (e : CellsEnv) : CellsOp → Prop
  | .resize _ => True
  | .reset => True
  | .resetShift => True
  | .cp i n => i + n ≤ e.table.size ∧ ∀ j < n, (e.table.cell (i + j)).shift = 0
  | .cpIdxs idxs => ∀ i ∈ idxs, i < e.table.size ∧ (e.table.cell i).shift = 0
  | .set i k => i + (e.snapshot k).size ≤ e.table.size ∧
      ∀ j < (e.snapshot k).size, (e.table.cell (i + j)).shift = 0
  | .setIdxs idxs k => idxs.length = (e.snapshot k).size ∧ idxs.Nodup ∧
      ∀ i ∈ idxs, i < e.table.size ∧ (e.table.cell i).shift = 0
  | .rm i => i < e.table.size ∧ (e.table.cell i).pos ≠ -1
  | .seqRm i s => i < e.table.size ∧ s ∈ (e.table.cell i).seq ∧ (e.table.cell i).pos ≠ -1
  | .seqKeep i _ => i < e.table.size ∧ ((e.table.cell i).seq = ∅ → (e.table.cell i).pos = -1)
  | .seqAdd i s => i < e.table.size ∧ (e.table.cell i).pos ≠ -1 ∧ s ∉ (e.table.cell i).seq
  | .posSet i _ => i < e.table.size ∧ (e.table.cell i).pos = -1 ∧ (e.table.cell i).seq = ∅
  | .extSet i _ => i < e.table.size
  | .posAdd i _ => i < e.table.size ∧ (e.table.cell i).pos ≠ -1
  | .posDiv i d => i < e.table.size ∧ (e.table.cell i).pos ≠ -1 ∧ 1 ≤ d

/-- The call does not store `-1`, the marker of an empty cell, as a position. -/
def CellsOp.NoMarker (e : CellsEnv) : CellsOp → Prop
  | .posSet _ p => p ≠ -1
  | .posDiv i d => (e.table.cell i).pos.tdiv d ≠ -1
  | _ => True

/-- The states of the runs whose calls all satisfy `ok`, from a table without cells on. -/
def CellsRun (ok : CellsEnv → CellsOp → Prop) : CellsEnv → Prop :=
  Reach (· = {}) fun e op e' => ok e op ∧ e' = e.apply op

/-- The table satisfies its invariant and no snapshot has an empty cell with a sequence. -/
structure CellsEnv.Ok (e : CellsEnv) : Prop where
  table : Inv e.table
  saved : ∀ k, ∀ o ∈ (e.snapshot k).cells, o.pos = -1 → o.seq = ∅

lemma CellsEnv.Ok.snapshot_append {e : CellsEnv} (h : e.Ok) {idxs : List Nat} :
    ({ e with saved := e.saved ++ [e.table.cpIdxs idxs] } : CellsEnv).Ok := by
  refine ⟨h.table, ?_⟩
  intro k o ho hp
  by_cases hk : k < e.saved.length
  · rw [CellsEnv.snapshot, List.getD_append _ _ _ _ hk] at ho
    exact h.saved k o ho hp
  · rw [CellsEnv.snapshot, List.getD_append_right _ _ _ _ (Nat.le_of_not_lt hk)] at ho
    by_cases h0 : k - e.saved.length = 0
    · rw [h0] at ho
      simp only [KvCells.cpIdxs, List.getD_cons_zero, List.mem_map] at ho
      obtain ⟨i, _, rfl⟩ := ho
      exact (h.table.empty i hp).1
    · obtain ⟨m, hm⟩ := Nat.exists_eq_succ_of_ne_zero h0
      rw [hm] at ho
      simp at ho

lemma CellsEnv.Ok.apply {e : CellsEnv} (h : e.Ok) {op : CellsOp}
    (ha : op.Asserted e) (hn : op.NoMarker e) : (e.apply op).Ok := by
  cases op with
  | resize n => exact ⟨inv_resize _ n, h.saved⟩
  | reset => exact ⟨inv_reset _, h.saved⟩
  | resetShift => exact ⟨h.table.resetShift, h.saved⟩
  | cp i n => exact h.snapshot_append
  | cpIdxs idxs => exact h.snapshot_append
  | set i k =>
    refine ⟨h.table.setIdxs ?_ (h.saved k), h.saved⟩
    intro j hj
    obtain ⟨m, hm, rfl⟩ := List.mem_range'.1 hj
    rw [one_mul]
    exact ⟨by have := ha.1; omega, ha.2 m hm⟩
  | setIdxs idxs k => exact ⟨h.table.setIdxs ha.2.2 (h.saved k), h.saved⟩
  | rm i => exact ⟨h.table.rm ha.1, h.saved⟩
  | seqRm i s => exact ⟨h.table.seqRm ha.2.1, h.saved⟩
  | seqKeep i s => exact ⟨h.table.seqKeep ha.1 s, h.saved⟩
  | seqAdd i s => exact ⟨h.table.seqAdd ha.2.1 ha.2.2, h.saved⟩
  | posSet i p => exact ⟨h.table.posSet ha.1 ha.2.1 hn, h.saved⟩
  | extSet i x => exact ⟨h.table.extSet ha x, h.saved⟩
  | posAdd i d => exact ⟨h.table.posAdd ha.2 d, h.saved⟩
  | posDiv i d => exact ⟨h.table.posDiv ha.2.1 hn, h.saved⟩

lemma CellsEnv.ok_empty : ({} : CellsEnv).Ok := by
  refine ⟨?_, ?_⟩
  · exact inv_reset {}
  · intro k o ho
    simp [CellsEnv.snapshot] at ho

/-- In every run whose calls meet their assertions and store no marker, the indexes agree with the
    cells, and `seq_pos_min`, `seq_pos_max` and `used_max_p1` are what their names say. -/
theorem CellsRun.table_inv {e : CellsEnv} (run : CellsRun (fun e op => op.Asserted e ∧ op.NoMarker e) e) :
    Inv e.table ∧ (∀ s, (e.table.positions s = ∅ ∧ e.table.seqPosMin s = -1) ∨
        IsLeast (e.table.positions s) (e.table.seqPosMin s)) ∧
      (∀ s, (e.table.positions s = ∅ ∧ e.table.seqPosMax s = -1) ∨
        IsGreatest (e.table.positions s) (e.table.seqPosMax s)) ∧
      ((e.table.usedMaxP1 = 0 ∧ ∀ i, (e.table.cell i).pos = -1) ∨
        ∃ m, e.table.usedMaxP1 = m + 1 ∧ IsGreatest {i | (e.table.cell i).pos ≠ -1} m) := by
  have h : e.Ok := by
    apply Reach.invariant run
    · rintro _ rfl
      exact CellsEnv.ok_empty
    · rintro s op _ hs ⟨⟨ha, hn⟩, rfl⟩
      exact hs.apply ha hn
  exact ⟨h.table, h.table.seqPosMin_spec, h.table.seqPosMax_spec, h.table.usedMaxP1_spec⟩

/-- A run with two cells, one of them shared by the sequences 0 and 1. -/
def CellsEnv.shared : CellsEnv :=
  [CellsOp.resize 2, .posSet 0 4, .seqAdd 0 0, .seqAdd 0 1, .posSet 1 6, .seqAdd 1 1].foldl
    CellsEnv.apply {}

/-- The run is one of those the invariant speaks about. -/
theorem CellsRun.table_inv_shared : Inv CellsEnv.shared.table ∧ CellsEnv.shared.table.seqPosMax 1 = 6 := by
  refine ⟨(CellsRun.table_inv (e := CellsEnv.shared) ?_).1, by decide⟩
  refine .step (a := .seqAdd 1 1) (.step (a := .posSet 1 6) (.step (a := .seqAdd 0 1)
    (.step (a := .seqAdd 0 0) (.step (a := .posSet 0 4) (.step (a := .resize 2)
      (.init rfl) ⟨⟨?_, ?_⟩, rfl⟩) ⟨⟨?_, ?_⟩, rfl⟩) ⟨⟨?_, ?_⟩, rfl⟩) ⟨⟨?_, ?_⟩, rfl⟩)
      ⟨⟨?_, ?_⟩, rfl⟩) ⟨⟨?_, ?_⟩, rfl⟩
  all_goals simp only [CellsOp.Asserted, CellsOp.NoMarker]
  all_goals decide

/-- The assertions alone do not give the invariant: `pos_set(0, -1)` on an empty cell passes them and
    leaves a used cell without a position. -/
theorem CellsRun.not_inv_of_asserted : ¬ ∀ e, CellsRun (fun e op => op.Asserted e) e → Inv e.table := by
  intro h
  have hrun : CellsRun (fun e op => op.Asserted e)
      ((({} : CellsEnv).apply (.resize 1)).apply (.posSet 0 (-1))) := by
    refine .step (a := .posSet 0 (-1)) (.step (a := .resize 1) (.init rfl) ⟨?_, rfl⟩) ⟨?_, rfl⟩
    all_goals simp only [CellsOp.Asserted]
    all_goals decide
  have hinv := (h _ hrun).used_iff 0
  revert hinv
  decide

end Mallana
