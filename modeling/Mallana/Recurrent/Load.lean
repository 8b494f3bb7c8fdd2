import Mallana.Recurrent.Gather

/-!
# What a restore leaves behind

`state_read` of a single sequence goes through `seq_rm` and `find_slot` and keeps the invariant. That of the whole
memory builds the cells from the table in the input. It sets `used` to the number of announced cells, and only at
the end: a cell without a sequence id is counted nevertheless, and a table that is cut off leaves its first part
behind, uncounted (`TableSafe` is where neither happens).
-/

namespace Mallana

open Lib ByteParser ReadM List Option Finset

namespace Recurrent

def dims (m : Recurrent) : Nat × Nat := (m.size, m.nSeqMax)

section Dims
variable {m m' : Recurrent} {seq p0 p1 : Int}

@[simp] lemma dims_release (s : Nat) : (m.release s).dims = m.dims := by
  unfold release
  split
  · rfl
  · split
    · simp only [dims, leave, modify]
    · rfl

lemma dims_lowerHead (r : Recurrent × Nat) : (lowerHead r).dims = r.1.dims := by
  unfold lowerHead
  split <;> rfl

lemma dims_seqRm : (m.seqRm seq p0 p1).2.dims = m.dims := by
  unfold seqRm
  dsimp only
  split
  · rfl
  split
  · rfl
  split
  · rfl
  rw [dims_lowerHead]
  refine List.foldlRecOn (motive := fun r : Recurrent × Nat => r.1.dims = m.dims) _ _ ?_ ?_
  · dsimp only
    split
    · unfold rmTail
      split
      · rfl
      · split <;> rfl
    · rfl
  · intro r hr i _
    unfold rmCell
    dsimp only
    split
    · split
      · split <;> exact hr
      · split <;> exact hr
    · exact hr

lemma dims_seqCp {src dst : Int} : (m.seqCp src dst).dims = m.dims := by
  unfold seqCp
  split
  · rfl
  · split
    · dsimp only
      split
      · exact dims_release _
      · exact dims_release _
    · rfl

lemma dims_seqKeep : (m.seqKeep seq).dims = m.dims := by
  unfold seqKeep
  rw [dims_lowerHead]
  refine List.foldlRecOn (motive := fun r : Recurrent × Nat => r.1.dims = m.dims) _ _ rfl ?_
  intro r hr i _
  unfold keepCell
  dsimp only
  split <;> split <;> exact hr

lemma dims_movePos {f : Int → Int} : (m.movePos seq p0 p1 f).dims = m.dims := by
  unfold movePos
  split
  · split
    · rfl
    · split <;> rfl
  · rfl

lemma dims_seqAdd {shift : Int} : (m.seqAdd seq p0 p1 shift).dims = m.dims := by
  unfold seqAdd
  split
  · rfl
  · split
    · rfl
    · exact dims_movePos

lemma dims_seqDiv {d : Int} : (m.seqDiv seq p0 p1 d).dims = m.dims := by
  unfold seqDiv
  split
  · rfl
  · split
    · rfl
    · exact dims_movePos

lemma dims_dropShared (l : List (Int × Nat)) : (m.dropShared l).2.dims = m.dims := by
  induction l generalizing m with
  | nil => rfl
  | cons a l ih =>
    obtain ⟨seq, j⟩ := a
    unfold dropShared
    split
    · rfl
    · rw [ih]
      split
      · exact dims_release _
      · rfl

lemma dims_moveTo {seq e : Nat} (h : m.moveTo seq e = some m') : m'.dims = m.dims := by
  unfold moveTo at h
  split at h
  · cases h
  split at h
  · cases h
    rfl
  · dsimp only at h
    split at h
    · cases h
    · cases h
      rfl

lemma dims_takeCell {u : SlotUbatch} {x x' : Search} {s : Nat} (h : takeCell u x s = some x') :
    x'.mem.dims = x.mem.dims := by
  unfold takeCell at h
  obtain ⟨owns, -, h⟩ := bind_eq_some_iff.1 h
  dsimp only at h
  split at h
  · cases h
    rfl
  · obtain ⟨m₁, hm, h⟩ := bind_eq_some_iff.1 h
    cases h
    exact dims_moveTo hm

lemma dims_foldlM_takeCell {u : SlotUbatch} {x x' : Search} {l : List Nat}
    (h : l.foldlM (takeCell u) x = some x') : x'.mem.dims = x.mem.dims := by
  induction l generalizing x with
  | nil =>
    cases h
    rfl
  | cons s l ih =>
    obtain ⟨x₁, h₁, h⟩ := bind_eq_some_iff.1 h
    exact (ih h).trans (dims_takeCell h₁)

lemma dims_gather (u : SlotUbatch) (lo s : Nat) : (gather u lo m s).dims = m.dims := by
  unfold gather
  dsimp only
  split <;> rfl

lemma dims_place (u : SlotUbatch) (lo s : Nat) : (place u lo m s).dims = m.dims := by
  unfold place
  exact List.foldlRecOn (motive := fun m' : Recurrent => m'.dims = m.dims) _ _ rfl fun m' hm' _ _ => hm'

lemma dims_stage {lo hi : Nat} (h : m.stage lo hi = some m') : m'.dims = m.dims := by
  unfold stage at h
  dsimp only at h
  split at h
  · cases h
  · cases h
    rfl

lemma dims_findSlot {u : SlotUbatch} {ok : Bool} (h : m.findSlot u = some (ok, m')) : m'.dims = m.dims := by
  unfold findSlot at h
  obtain ⟨m₀, hm₀, hhead⟩ : ∃ m₀, (if (m.used + 2 * u.nSeqs) % 4294967296 < m.head then { m with head := 0 }
      else m) = m₀ ∧ m₀.dims = m.dims := by
    refine ⟨_, rfl, ?_⟩
    split <;> rfl
  rw [hm₀] at h
  dsimp only at h
  split at h
  · cases h
  split at h
  · have heq := congrArg (fun r : Bool × Recurrent => r.2.dims) (Option.some.inj h)
    dsimp only at heq
    rw [← heq, dims_dropShared, hhead]
  · obtain ⟨x, hx, h⟩ := bind_eq_some_iff.1 h
    obtain ⟨m₁, hm₁, h⟩ := bind_eq_some_iff.1 h
    have heq := congrArg (fun r : Bool × Recurrent => r.2.dims) (Option.some.inj h)
    have hfold : ∀ (f : Recurrent → Nat → Recurrent), (∀ m s, (f m s).dims = m.dims) →
        ∀ (l : List Nat) m₀, (l.foldl f m₀).dims = m₀.dims :=
      fun f hf l m₀ => List.foldlRecOn (motive := fun m' : Recurrent => m'.dims = m₀.dims) _ _ rfl
        fun m' hm' s _ => (hf m' s).trans hm'
    refine heq.symm.trans ((dims_stage hm₁).trans ?_)
    rw [hfold _ fun m s => dims_place u x.min s, hfold _ fun m s => dims_gather u x.min s,
      dims_foldlM_takeCell hx, dims_dropShared, hhead]

end Dims

end Recurrent

namespace RsState

open Recurrent

/-- The sequence ids of a cell as far as the input has them, and what follows if it has all. -/
def scanIds : Nat → List UInt8 → List Int × Option (List UInt8)
  | 0, bs => ([], some bs)
  | n + 1, bs =>
    match i32 Fault.endOfInput bs with
    | .error _ => ([], none)
    | .ok (id, bs) => (id :: (scanIds n bs).1, (scanIds n bs).2)

def parseHead : ByteParser Fault (Int × Nat) := do
  let pos ← i32 .endOfInput
  let nSeqId ← num .endOfInput 4
  return (pos, nSeqId)

/-- The sequence ids of the cells as far as the input has them, and whether it has all of the table. -/
def scanTable : Nat → List UInt8 → List (List Int) × Bool
  | 0, _ => ([], true)
  | n + 1, bs =>
    match parseHead bs with
    | .error _ => ([], false)
    | .ok (h, bs) =>
      match (scanIds h.2 bs).2 with
      | none => ([(scanIds h.2 bs).1], false)
      | some rest => ((scanIds h.2 bs).1 :: (scanTable n rest).1, (scanTable n rest).2)

def Admitted (nSeqMax : Nat) (ids : List Int) : Prop := ids.Nodup ∧ ∀ id ∈ ids, 0 ≤ id ∧ id < nSeqMax

/-- Where a table that is not rejected is counted correctly: it is complete and gives each cell a sequence id, or
    it is cut off before its first cell. -/
def TableSafe (nSeqMax cellCount : Nat) (bs : List UInt8) : Prop :=
  Admitted nSeqMax (scanTable cellCount bs).1.flatten →
    ((scanTable cellCount bs).2 = true ∧ ∀ ids ∈ (scanTable cellCount bs).1, ids ≠ []) ∨
      (scanTable cellCount bs).1 = []

/-- The memory while the table is read: `ids` are the sequence ids so far, the cells from `i` on are empty. -/
structure Loading (m : Recurrent) (i : Nat) (ids : List Int) : Prop where
  seqMax : m.nSeqMax ≤ m.size
  bound : ∀ j < m.size, ∀ s ∈ (m.cells j).seqId, s < m.size
  tail : ∀ s < m.size, ∀ t, m.tail s = some t ↔ t < m.size ∧ s ∈ (m.cells t).seqId
  seen : ∀ s, (m.tail s).isSome ↔ (s : Int) ∈ ids
  admitted : Admitted m.nSeqMax ids
  behind : ∀ j, i ≤ j → (m.cells j).isEmpty ∧ (m.cells j).pos = -1
  src : ∀ j, (m.cells j).src = none

section Table
variable {m : Recurrent} {st : RsState} {i n : Nat} {ids : List Int} {bs : List UInt8}

lemma loading_clear (h : m.nSeqMax ≤ m.size) : Loading m.clear 0 [] := by
  refine ⟨h, ?_, ?_, ?_, ⟨nodup_nil, by simp⟩, fun _ _ => ⟨rfl, rfl⟩, fun _ => rfl⟩
  · intro j _ s hs
    exact absurd hs (notMem_empty s)
  · intro s _ t
    exact iff_of_false (by simp [Recurrent.tail, Recurrent.clear]) fun ht => notMem_empty s ht.2
  · intro s
    simp [Recurrent.tail, Recurrent.clear]

lemma Loading.setPos (h : Loading m i ids) (pos : Int) :
    Loading (m.modify i fun c => { c with pos }) (i + 1) ids := by
  have hset := modify_field (m := m) (i := i) (f := fun c => { c with pos }) MemCell.seqId (by intro; rfl)
  have htail := modify_field (m := m) (i := i) (f := fun c => { c with pos }) MemCell.tail (by intro; rfl)
  refine ⟨h.seqMax, ?_, ?_, ?_, h.admitted, ?_, ?_⟩
  · intro j hj s hs
    rw [hset] at hs
    exact h.bound j hj s hs
  · intro s hs t
    unfold Recurrent.tail
    rw [htail, hset]
    exact h.tail s hs t
  · intro s
    unfold Recurrent.tail
    rw [htail]
    exact h.seen s
  · intro j hj
    rw [modify_of_ne (by omega)]
    exact h.behind j (by omega)
  · intro j
    rw [modify_field MemCell.src (by intro; rfl)]
    exact h.src j

/-- A restored cell enters one more sequence. -/
lemma Loading.enter (h : Loading m (i + 1) ids) (hi : i < m.size) {id : Int} (h0 : 0 ≤ id)
    (hlt : id < m.nSeqMax) (hnew : id ∉ ids) : Loading (Recurrent.enter i m id) (i + 1) (ids ++ [id]) := by
  have hid : id.toNat < m.size := by
    have := h.seqMax
    omega
  have hcast : (id.toNat : Int) = id := Int.toNat_of_nonneg h0
  have hnone : m.tail id.toNat = none := by
    rw [← not_isSome_iff_eq_none, h.seen, hcast]
    exact hnew
  have hold : ∀ j < m.size, id.toNat ∉ (m.cells j).seqId := by
    intro j hj hmem
    have ht := (h.tail _ hid j).2 ⟨hj, hmem⟩
    rw [hnone] at ht
    cases ht
  refine ⟨h.seqMax, ?_, ?_, ?_, ?_, ?_, ?_⟩
  · intro j hj s hs
    rw [seqId_enter] at hs
    split at hs
    · obtain rfl | hs := mem_insert.1 hs
      · exact hid
      · exact h.bound j hj s hs
    · exact h.bound j hj s hs
  · intro s hs t
    rw [tail_enter, seqId_enter]
    by_cases hsid : s = id.toNat
    · subst hsid
      rw [if_pos rfl]
      constructor
      · rintro ⟨⟩
        rw [if_pos rfl]
        exact ⟨hi, Finset.mem_insert_self _ _⟩
      · rintro ⟨ht, hmem⟩
        split at hmem
        · rename_i hti
          rw [hti]
        · exact absurd hmem (hold t ht)
    · rw [if_neg hsid, h.tail s hs]
      refine and_congr_right fun ht => ?_
      split
      · rw [mem_insert]
        exact ⟨.inr, fun hm => hm.resolve_left hsid⟩
      · rfl
  · intro s
    rw [tail_enter]
    split
    · rename_i hs
      rw [hs, hcast]
      simp
    · rename_i hs
      rw [h.seen, mem_append, List.mem_singleton]
      refine ⟨.inl, fun hm => hm.resolve_right ?_⟩
      omega
  · refine ⟨nodup_append.2 ⟨h.admitted.1, nodup_singleton _, ?_⟩, ?_⟩
    · intro a ha b hb
      rw [List.mem_singleton] at hb
      rintro rfl
      exact hnew (hb ▸ ha)
    · intro a ha
      obtain ha | ha := mem_append.1 ha
      · exact h.admitted.2 a ha
      · rw [List.mem_singleton] at ha
        subst ha
        exact ⟨h0, hlt⟩
  · intro j hj
    obtain ⟨he, hp⟩ := h.behind j hj
    rw [field_enter MemCell.pos (fun _ _ => rfl) (fun _ _ => rfl)]
    refine ⟨?_, hp⟩
    unfold MemCell.isEmpty
    rw [seqId_enter, if_neg (by omega)]
    exact he
  · intro j
    rw [field_enter MemCell.src (fun _ _ => rfl) (fun _ _ => rfl)]
    exact h.src j

/-- Reading the table only adds sequence ids. -/
structure Grows (m m' : Recurrent) : Prop where
  size : m'.size = m.size
  seqMax : m'.nSeqMax = m.nSeqMax
  subset : ∀ j, (m.cells j).seqId ⊆ (m'.cells j).seqId

lemma Grows.trans {m₁ m₂ m₃ : Recurrent} (h1 : Grows m₁ m₂) (h2 : Grows m₂ m₃) : Grows m₁ m₃ :=
  ⟨h2.size.trans h1.size, h2.seqMax.trans h1.seqMax, fun j => (h1.subset j).trans (h2.subset j)⟩

lemma grows_enter (i : Nat) (m : Recurrent) (id : Int) : Grows m (Recurrent.enter i m id) := by
  refine ⟨rfl, rfl, fun j => ?_⟩
  rw [seqId_enter]
  split
  · exact Finset.subset_insert _ _
  · exact Finset.Subset.refl _

lemma grows_setPos (i : Nat) (m : Recurrent) (pos : Int) : Grows m (m.modify i fun c => { c with pos }) := by
  refine ⟨rfl, rfl, fun j => ?_⟩
  rw [modify_field MemCell.seqId (by intro; rfl)]

lemma readSeqId_cases (h : Loading st.mem (i + 1) ids) {id : Int} {rest : List UInt8}
    (hp : i32 Fault.endOfInput bs = .ok (id, rest)) :
    (readSeqId i ⟨bs, st⟩ = .ok () ⟨rest, st.setMem fun m => Recurrent.enter i m id⟩ ∧
        0 ≤ id ∧ id < st.mem.nSeqMax ∧ id ∉ ids) ∨ ∃ s', readSeqId i ⟨bs, st⟩ = .error .rejected s' := by
  unfold readSeqId
  rw [lift_bind_of_ok (by exact hp)]
  rw [state_bind]
  by_cases hb : id < 0 ∨ (st.mem.nSeqMax : Int) ≤ id
  · rw [if_pos hb]
    exact .inr ⟨⟨rest, st⟩, rfl⟩
  rw [if_neg hb, update_bind]
  have hcast : (id.toNat : Int) = id := Int.toNat_of_nonneg (by omega)
  cases ht : st.mem.tail id.toNat with
  | some t =>
    rw [if_pos isSome_some]
    exact .inr ⟨_, rfl⟩
  | none =>
    rw [if_neg (by simp)]
    refine .inl ⟨rfl, by omega, by omega, ?_⟩
    intro hmem
    have hs := (h.seen id.toNat).2 (hcast.symm ▸ hmem)
    rw [ht] at hs
    cases hs

lemma readIds_cases (l : List Nat) (bs : List UInt8) (h : Loading st.mem (i + 1) ids) (hi : i < st.mem.size) :
    (∃ rest st', (l.forM fun _ => readSeqId i) ⟨bs, st⟩ = .ok () ⟨rest, st'⟩ ∧
        (scanIds l.length bs).2 = some rest ∧ Loading st'.mem (i + 1) (ids ++ (scanIds l.length bs).1) ∧
        Grows st.mem st'.mem ∧ ∀ id ∈ (scanIds l.length bs).1, id.toNat ∈ (st'.mem.cells i).seqId) ∨
      (∃ s', (l.forM fun _ => readSeqId i) ⟨bs, st⟩ = .error .rejected s') ∨
      ∃ s', (l.forM fun _ => readSeqId i) ⟨bs, st⟩ = .error .endOfInput s' ∧
        (scanIds l.length bs).2 = none ∧ Admitted st.mem.nSeqMax (ids ++ (scanIds l.length bs).1) := by
  induction l generalizing st ids bs with
  | nil =>
    refine .inl ⟨bs, st, rfl, rfl, ?_, ⟨rfl, rfl, fun _ => Finset.Subset.refl _⟩, ?_⟩
    · rw [length_nil, scanIds, append_nil]
      exact h
    · intro id hid
      cases hid
  | cons a l ih =>
    rw [length_cons, scanIds, forM_cons_apply]
    cases hp : i32 Fault.endOfInput bs with
    | error e =>
      obtain rfl : e = .endOfInput := failsOnly_i32 (E := (· = .endOfInput)) rfl bs e hp
      refine .inr (.inr ⟨⟨bs, st⟩, ?_, rfl, ?_⟩)
      · unfold readSeqId
        rw [lift_bind_of_error (by exact hp)]
      · rw [append_nil]
        exact h.admitted
    | ok r =>
      obtain ⟨id, rest⟩ := r
      obtain ⟨hrun, h0, hlt, hnew⟩ | ⟨s', hrun⟩ := readSeqId_cases h hp
      · rw [hrun]
        have hgrow := grows_enter i st.mem id
        have hnext : Loading (st.setMem fun m => Recurrent.enter i m id).mem (i + 1) (ids ++ [id]) :=
          h.enter hi h0 hlt hnew
        have happ : ids ++ [id] ++ (scanIds l.length rest).1 = ids ++ id :: (scanIds l.length rest).1 := by
          simp
        obtain ⟨rest', st', hrun', hscan, hload, hgrow', hmem⟩ | ⟨s', hrun'⟩ | ⟨s', hrun', hscan, hadm⟩ :=
          ih rest hnext hi
        · rw [happ] at hload
          refine .inl ⟨rest', st', hrun', hscan, hload, hgrow.trans hgrow', ?_⟩
          intro id' hid'
          obtain rfl | hid' := List.mem_cons.1 hid'
          · refine hgrow'.subset i ?_
            show _ ∈ ((Recurrent.enter i st.mem id').cells i).seqId
            rw [seqId_enter, if_pos rfl]
            exact Finset.mem_insert_self _ _
          · exact hmem id' hid'
        · exact .inr (.inl ⟨s', hrun'⟩)
        · rw [happ] at hadm
          exact .inr (.inr ⟨s', hrun', hscan, hadm⟩)
      · rw [hrun]
        exact .inr (.inl ⟨s', rfl⟩)

lemma readCell_of_ok (i : Nat) (st : RsState) {pos : Int} {k : Nat} {rest : List UInt8}
    (hp : parseHead bs = .ok ((pos, k), rest)) : readCell i ⟨bs, st⟩ = ((List.range k).forM fun _ => readSeqId i)
        ⟨rest, st.setMem fun m => m.modify i fun c => { c with pos }⟩ := by
  obtain ⟨p, bs', h1, h2⟩ := ByteParser.bind_eq_ok.1 hp
  obtain ⟨k', bs'', h3, h4⟩ := ByteParser.bind_eq_ok.1 h2
  cases h4
  unfold readCell
  rw [lift_bind_of_ok h1, lift_bind_of_ok h3]
  rfl

lemma readCell_of_error (i : Nat) (st : RsState) {e : Fault} (hp : parseHead bs = .error e) :
    e = .endOfInput ∧ ∃ io, readCell i ⟨bs, st⟩ = .error e ⟨io, st⟩ := by
  unfold parseHead at hp
  unfold readCell
  rw [ByteParser.bind_apply] at hp
  cases h1 : i32 Fault.endOfInput bs with
  | error e' =>
    rw [h1] at hp
    cases hp
    rw [lift_bind_of_error h1]
    exact ⟨failsOnly_i32 (E := (· = Fault.endOfInput)) rfl bs e h1, bs, rfl⟩
  | ok r =>
    rw [h1] at hp
    rw [lift_bind_of_ok h1]
    dsimp only at hp
    rw [ByteParser.bind_apply] at hp
    cases h2 : num Fault.endOfInput 4 r.2 with
    | error e' =>
      rw [h2] at hp
      cases hp
      rw [lift_bind_of_error h2]
      exact ⟨failsOnly_num (E := (· = Fault.endOfInput)) rfl 4 r.2 e h2, r.2, rfl⟩
    | ok r' =>
      rw [h2] at hp
      cases hp

lemma readCells_cases (bs : List UInt8) (h : Loading st.mem i ids) (hn : i + n ≤ st.mem.size) :
    (∃ s', (List.range' i n).forM readCell ⟨bs, st⟩ = .ok () s' ∧ (scanTable n bs).2 = true ∧
        Loading s'.st.mem (i + n) (ids ++ (scanTable n bs).1.flatten) ∧ Grows st.mem s'.st.mem ∧
        ((∀ l ∈ (scanTable n bs).1, l ≠ []) → ∀ j, i ≤ j → j < i + n → ¬ (s'.st.mem.cells j).isEmpty)) ∨
      (∃ s', (List.range' i n).forM readCell ⟨bs, st⟩ = .error .rejected s') ∨
      ∃ s', (List.range' i n).forM readCell ⟨bs, st⟩ = .error .endOfInput s' ∧
        (scanTable n bs).2 = false ∧ Admitted st.mem.nSeqMax (ids ++ (scanTable n bs).1.flatten) ∧
        ((scanTable n bs).1 = [] → s'.st = st) := by
  induction n generalizing st ids bs i with
  | zero =>
    refine .inl ⟨⟨bs, st⟩, rfl, rfl, ?_, ⟨rfl, rfl, fun _ => Finset.Subset.refl _⟩, fun _ j h1 h2 => by omega⟩
    rw [scanTable, flatten_nil, append_nil]
    exact h
  | succ n ih =>
    rw [range'_succ, forM_cons_apply, scanTable]
    cases hp : parseHead bs with
    | error e =>
      obtain ⟨rfl, io, hrun⟩ := readCell_of_error i st hp
      rw [hrun]
      refine .inr (.inr ⟨⟨io, st⟩, rfl, rfl, ?_, fun _ => rfl⟩)
      rw [flatten_nil, append_nil]
      exact h.admitted
    | ok r =>
      obtain ⟨⟨pos, k⟩, rest⟩ := r
      rw [readCell_of_ok i st hp]
      have hload : Loading (st.setMem fun m => m.modify i fun c => { c with pos }).mem (i + 1) ids := h.setPos pos
      have hgrow : Grows st.mem (st.setMem fun m => m.modify i fun c => { c with pos }).mem :=
        grows_setPos i st.mem pos
      have hcases := readIds_cases (List.range k) rest hload (by rw [hgrow.size]; omega)
      rw [length_range] at hcases
      dsimp only
      obtain ⟨rest', st', hrun, hscan, hload', hgrow', hmem⟩ | ⟨s', hrun⟩ | ⟨s', hrun, hscan, hadm⟩ := hcases
      · rw [hrun, hscan]
        dsimp only
        have hg := hgrow.trans hgrow'
        have hcat : ids ++ ((scanIds k rest).1 :: (scanTable n rest').1).flatten =
            ids ++ (scanIds k rest).1 ++ (scanTable n rest').1.flatten := by simp
        rw [hcat]
        obtain ⟨s'', hrun', hwhole, hload'', hgrow'', hfull⟩ | ⟨s'', hrun'⟩ |
            ⟨s'', hrun', hcut, hadm, -⟩ := ih rest' hload' (by rw [hg.size]; omega)
        · refine .inl ⟨s'', hrun', hwhole, ?_, hg.trans hgrow'', ?_⟩
          · rw [← add_assoc, add_right_comm]
            exact hload''
          · intro hne j hij hj
            by_cases hji : j = i
            · subst hji
              obtain ⟨id, hid⟩ := exists_mem_of_ne_nil _ (hne _ List.mem_cons_self)
              exact ne_empty_of_mem (hgrow''.subset j (hmem id hid))
            · exact hfull (fun l hl => hne l (List.mem_cons_of_mem _ hl)) j (by omega) (by omega)
        · exact .inr (.inl ⟨s'', hrun'⟩)
        · refine .inr (.inr ⟨s'', hrun', hcut, hg.seqMax ▸ hadm, ?_⟩)
          simp
      · rw [hrun]
        exact .inr (.inl ⟨s', rfl⟩)
      · rw [hrun, hscan]
        refine .inr (.inr ⟨s', rfl, rfl, ?_, by simp⟩)
        rw [flatten_singleton]
        exact hadm

end Table

lemma keepRows_eq (m : Recurrent) (k : Nat) : keepRows m k = { m with cells := fun j =>
        if m.head ≤ j ∧ j < m.head + k then { m.cells j with src := some j } else m.cells j } := by
  induction k with
  | zero =>
    have hcells : m.cells = fun j =>
        if m.head ≤ j ∧ j < m.head + 0 then { m.cells j with src := some j } else m.cells j := by
      funext j
      rw [if_neg (by omega)]
    exact congrArg (fun c => { m with cells := c }) hcells
  | succ k ih =>
    unfold keepRows at ih ⊢
    rw [range_succ, foldl_append, ih, foldl_cons, foldl_nil]
    refine congrArg (fun c => { m with cells := c }) (funext fun j => ?_)
    by_cases hj : j = m.head + k
    · subst hj
      rw [Function.update_self, if_pos (by omega)]
      dsimp only
      rw [if_neg (by omega)]
    · rw [Function.update_of_ne hj]
      dsimp only
      by_cases hin : m.head ≤ j ∧ j < m.head + k
      · rw [if_pos hin, if_pos (by omega)]
      · rw [if_neg hin, if_neg (by omega)]

section KeepRows
variable {m : Recurrent} {k : Nat}

lemma field_keepRows {α : Type} (g : MemCell → α) (h : ∀ c x, g { c with src := x } = g c) (j : Nat) :
    g ((keepRows m k).cells j) = g (m.cells j) := by
  rw [keepRows_eq]
  dsimp only
  split
  · exact h _ _
  · rfl

lemma isEmpty_keepRows (j : Nat) : ((keepRows m k).cells j).isEmpty ↔ (m.cells j).isEmpty := by
  unfold MemCell.isEmpty
  rw [field_keepRows MemCell.seqId fun _ _ => rfl]

lemma src_keepRows (j : Nat) : ((keepRows m k).cells j).src =
    if m.head ≤ j ∧ j < m.head + k then some j else (m.cells j).src := by
  rw [keepRows_eq]
  exact apply_ite MemCell.src _ _ _

lemma inv_keepRows_of (hsmall : m.size < 4294967296) (hhead : m.head < m.size ∨ m.head = 0)
    (hbound : ∀ j < m.size, ∀ s ∈ (m.cells j).seqId, s < m.size)
    (htail : ∀ s < m.size, ∀ t, m.tail s = some t ↔ t < m.size ∧ s ∈ (m.cells t).seqId)
    (hempty : ∀ j < m.size, (m.cells j).isEmpty → (m.cells j).pos = -1)
    (hsrc : ∀ j < m.size, ¬ (m.head ≤ j ∧ j < m.head + k) →
      (m.cells j).src = some j ∨ ((m.cells j).src = none ∧ (m.cells j).isEmpty))
    (hused : m.used = m.countUsed) : (keepRows m k).Inv := by
  have hset := field_keepRows (m := m) (k := k) MemCell.seqId fun _ _ => rfl
  have htail' := field_keepRows (m := m) (k := k) MemCell.tail fun _ _ => rfl
  have hsize : (keepRows m k).size = m.size := by rw [keepRows_eq]
  have hhead' : (keepRows m k).head = m.head := by rw [keepRows_eq]
  have hused' : (keepRows m k).used = m.used := by rw [keepRows_eq]
  refine ⟨⟨?_, ?_, ?_, ?_, ?_⟩, ?_, ?_⟩
  · rw [hsize, hhead']
    exact hhead
  · intro j hj s hs
    rw [hsize] at hj ⊢
    rw [hset] at hs
    exact hbound j hj s hs
  · intro s hs t
    rw [hsize] at hs ⊢
    unfold Recurrent.tail
    rw [htail', hset]
    exact htail s hs t
  · intro j hj he
    rw [hsize] at hj
    rw [field_keepRows MemCell.pos fun _ _ => rfl]
    exact hempty j hj ((isEmpty_keepRows j).1 he)
  · intro j hj
    rw [hsize] at hj
    rw [src_keepRows, isEmpty_keepRows]
    split
    · exact .inl rfl
    · rename_i hout
      exact hsrc j hj hout
  · rw [hsize]
    exact hsmall
  · rw [hused', hused]
    exact (countUsed_congr hsize fun j _ => isEmpty_keepRows j).symm

lemma inv_keepRows (h : m.Inv) (k : Nat) : (keepRows m k).Inv :=
  inv_keepRows_of h.small h.head h.bound h.tail h.empty (fun j hj _ => h.src j hj) h.used

lemma dims_keepRows : (keepRows m k).dims = m.dims := by
  rw [keepRows_eq]
  rfl

lemma Loading.inv {ids : List Int} (h : Loading m k ids) (hk : k ≤ m.size) (hsmall : m.size < 4294967296)
    (hfull : ∀ j < k, ¬ (m.cells j).isEmpty) : (RsState.keepRows { m with head := 0, used := k } k).Inv := by
  refine inv_keepRows_of hsmall (.inr rfl) h.bound h.tail ?_ ?_ ?_
  · intro j _ he
    by_cases hj : j < k
    · exact absurd he (hfull j hj)
    · exact (h.behind j (by omega)).2
  · intro j _ hj
    dsimp only at hj
    exact .inr ⟨h.src j, (h.behind j (by omega)).1⟩
  · rw [countUsed_eq]
    have hfilter : (Finset.range m.size).filter (fun i => ¬ (m.cells i).isEmpty) = Finset.range k := by
      ext j
      rw [Finset.mem_filter, Finset.mem_range, Finset.mem_range]
      constructor
      · rintro ⟨-, hne⟩
        by_contra hj
        exact hne (h.behind j (by omega)).1
      · exact fun hj => ⟨by omega, hfull j hj⟩
    exact (card_range k).symm.trans (congrArg Finset.card hfilter.symm)

end KeepRows

section Single
variable {m m' : Recurrent} {dest : Int}

/-- What a restore of sequence `dest` keeps. -/
def Guarded (dest : Int) (m : Recurrent) : Prop := m.Inv ∧ m.RmSafe dest (-1) (-1)

lemma guarded_seqRm (h : Guarded dest m) : Guarded dest (m.seqRm dest (-1) (-1)).2 := by
  by_cases hd : 0 ≤ dest
  · exact ⟨h.1.seqRm hd, fun hlt => absurd hlt (by omega)⟩
  · rw [h.1.toCore.seqRm_neg (by omega) h.2]
    exact h

lemma fits_seqUbatch {size : Nat} (h0 : 0 ≤ dest) (hlt : dest < size) (cellCount : Nat) (pos : List Int) :
    Fits size (seqUbatch cellCount pos dest) := by
  have hids : ∀ s < 1, (seqUbatch cellCount pos dest).ids s = [dest] := by
    intro s hs
    obtain rfl : s = 0 := by omega
    unfold SlotUbatch.ids seqUbatch
    rw [zero_mul]
    rfl
  refine ⟨rfl, one_pos, ?_, ?_, ?_⟩
  · intro s hs
    rw [hids s hs]
    exact cons_ne_nil _ _
  · intro s hs id hid
    rw [hids s hs, List.mem_singleton] at hid
    exact hid ▸ ⟨h0, hlt⟩
  · have hflat : (List.range 1).flatMap (seqUbatch cellCount pos dest).ids = [dest] := by
      rw [List.range_one, flatMap_singleton, hids 0 one_pos]
    show ((List.range 1).flatMap (seqUbatch cellCount pos dest).ids).Nodup
    rw [hflat]
    exact nodup_singleton dest

lemma findSlot_seqUbatch (h : Guarded dest m) (cellCount : Nat) (pos : List Int) :
    ∃ ok m', m.findSlot (seqUbatch cellCount pos dest) = some (ok, m') ∧ Guarded dest m' := by
  by_cases hin : 0 ≤ dest ∧ dest < m.size
  · obtain ⟨m', hrun, hs⟩ := findSlot_spec h.1.toCore (fits_seqUbatch hin.1 hin.2 cellCount pos)
    refine ⟨true, m', hrun, ⟨hs.core, ?_, hs.used⟩, fun hlt => absurd hlt (by omega)⟩
    rw [hs.size]
    exact h.1.small
  · have hids : (List.range 1).flatMap (fun s => ((seqUbatch cellCount pos dest).ids s).zipIdx) = [(dest, 0)] := by
      unfold SlotUbatch.ids seqUbatch
      simp
    obtain ⟨m₀, hm₀, hsize, hguard⟩ : ∃ m₀ : Recurrent, (if (m.used + 2 * (seqUbatch cellCount pos dest).nSeqs) %
        4294967296 < m.head then { m with head := 0 } else m) = m₀ ∧ m₀.size = m.size ∧ Guarded dest m₀ := by
      refine ⟨_, rfl, ?_⟩
      split
      · exact ⟨rfl, h.1.setHead (.inr rfl), h.2⟩
      · exact ⟨rfl, h⟩
    refine ⟨false, m₀, ?_, hguard⟩
    unfold findSlot
    rw [hm₀]
    dsimp only
    rw [if_neg (by simp [seqUbatch]), show (seqUbatch cellCount pos dest).nSeqs = 1 from rfl, hids]
    have hdrop : m₀.dropShared [(dest, 0)] = (false, m₀) := by
      rw [dropShared, if_pos (by omega)]
    rw [hdrop, if_pos rfl]

lemma guarded_keepRows (h : Guarded dest m) (k : Nat) : Guarded dest (keepRows m k) := by
  refine ⟨inv_keepRows h.1 k, ?_⟩
  intro hd h0 h1 j hj hne
  rw [isEmpty_keepRows] at hne
  rw [field_keepRows MemCell.pos fun _ _ => rfl]
  have hsize : (keepRows m k).size = m.size := by rw [keepRows_eq]
  exact h.2 hd h0 h1 j (hsize ▸ hj) hne

lemma stable_readMetaSeq (cellCount : Nat) (dest : Int) :
    Stable (fun st : RsState => Guarded dest st.mem) (readMetaSeq cellCount dest) := by
  unfold readMetaSeq
  refine Stable.bind (stable_update fun st (h : Guarded dest st.mem) => guarded_seqRm h) fun _ => ?_
  split
  · exact stable_pure ()
  refine (stable_lift _).bind fun pos => ?_
  intro s h
  rw [state_bind]
  obtain ⟨ok, m', hrun, hguard⟩ := findSlot_seqUbatch h cellCount pos
  rw [hrun]
  dsimp only
  rw [update_bind]
  split
  · exact hguard
  split
  · exact hguard
  · exact guarded_keepRows hguard cellCount

lemma stable_stateReadData (J : Recurrent → Prop) (cellCount : Nat) :
    Stable (fun st : RsState => J st.mem) (stateReadData cellCount) := by
  have hrows : ∀ (shape : Option RowShape) (set : Mem → RsState → RsState) (get : RsState → Mem),
      (∀ x st, (set x st).mem = st.mem) →
      Stable (fun st : RsState => J st.mem) (readRows cellCount shape set get) := by
    intro shape set get hset
    cases shape with
    | none => exact stable_pure ()
    | some r =>
      refine (stable_lift _).bind fun bs => stable_update fun st h => ?_
      rw [hset]
      exact h
  unfold stateReadData
  refine stable_state.bind fun st => (stable_lift _).bind fun _ => Stable.bind ?_ fun _ => ?_
  · refine stable_forM (fun L => hrows _ _ _ ?_) _
    exact fun _ _ => rfl
  · refine stable_forM (fun L => hrows _ _ _ ?_) _
    exact fun _ _ => rfl

end Single

/-- Where a restore keeps the invariant: of the whole memory, if its table is counted correctly; of a sequence, if
    the `seq_rm` with its id is safe. -/
def ReadSafe (m : Recurrent) (dest : Int) (input : List UInt8) : Prop :=
  if dest = -1 then
    ∀ cellCount rest, num Fault.endOfInput 4 input = .ok (cellCount, rest) → cellCount ≤ m.size →
      TableSafe m.nSeqMax cellCount rest
  else m.RmSafe dest (-1) (-1)

section Restore
variable {st : RsState} {dest : Int} {input : List UInt8}

lemma final_stateRead (dest : Int) (input : List UInt8) (st : RsState) :
    final (stateRead dest ⟨input, st⟩) = st ∨ ∃ cellCount rest, num Fault.endOfInput 4 input = .ok (cellCount, rest) ∧
      ((∃ s', (do stateReadMeta cellCount dest; stateReadData cellCount : Read Unit) ⟨rest, st⟩ =
            .error .rejected s' ∧ final (stateRead dest ⟨input, st⟩) = s'.st.cleanUp dest) ∨
        (∀ s', (do stateReadMeta cellCount dest; stateReadData cellCount : Read Unit) ⟨rest, st⟩ ≠
            .error .rejected s') ∧ final (stateRead dest ⟨input, st⟩) =
          final ((do stateReadMeta cellCount dest; stateReadData cellCount : Read Unit) ⟨rest, st⟩)) := by
  cases hp : num Fault.endOfInput 4 input with
  | error e =>
    have hrun : stateRead dest ⟨input, st⟩ = .error e ⟨input, st⟩ := lift_bind_of_error hp
    rw [hrun]
    exact .inl rfl
  | ok r =>
    have hrun : stateRead dest ⟨input, st⟩ = _ := lift_bind_of_ok hp
    refine .inr ⟨r.1, r.2, rfl, ?_⟩
    rw [hrun]
    split
    · rename_i s' hbody
      exact .inl ⟨s', hbody, rfl⟩
    · rename_i hbody
      exact .inr ⟨hbody, rfl⟩

lemma stable_stateRead {J : Recurrent → Prop}
    (hmeta : ∀ cellCount, Stable (fun st : RsState => J st.mem) (stateReadMeta cellCount dest))
    (hclean : ∀ st : RsState, J st.mem → J (st.cleanUp dest).mem) :
    Stable (fun st : RsState => J st.mem) (stateRead dest) := by
  rintro ⟨input, st⟩ h
  have hbody := fun cellCount rest => (hmeta cellCount).bind (fun _ => stable_stateReadData J cellCount) ⟨rest, st⟩ h
  obtain heq | ⟨cellCount, rest, -, ⟨s', hrun, heq⟩ | ⟨-, heq⟩⟩ := final_stateRead dest input st
  · rw [heq]
    exact h
  · have hs' := hbody cellCount rest
    rw [hrun] at hs'
    rw [heq]
    exact hclean s'.st hs'
  · rw [heq]
    exact hbody cellCount rest

lemma stable_dims {d : Nat × Nat} (cellCount : Nat) (dest : Int) :
    Stable (fun st : RsState => st.mem.dims = d) (stateReadMeta cellCount dest) := by
  have hid : ∀ i, Stable (fun st : RsState => st.mem.dims = d) (readSeqId i) := by
    intro i
    refine (stable_lift _).bind fun id => stable_state.bind fun st => ?_
    split
    · exact stable_throw _
    · refine Stable.bind (stable_update fun st h => h) fun _ => ?_
      split
      · exact stable_throw _
      · exact stable_update fun st h => h
  unfold stateReadMeta
  split
  · unfold readMetaSeq
    refine Stable.bind (stable_update fun st h => dims_seqRm.trans h) fun _ => ?_
    split
    · exact stable_pure ()
    refine (stable_lift _).bind fun pos => ?_
    intro s h
    rw [state_bind]
    cases hrun : s.st.mem.findSlot (seqUbatch cellCount pos dest) with
    | none => exact h
    | some r =>
      have hr : r.2.dims = d := Eq.trans (dims_findSlot hrun) h
      dsimp only
      rw [update_bind]
      split
      · exact hr
      split
      · exact hr
      · exact dims_keepRows.trans hr
  · unfold readMetaAll
    refine stable_state.bind fun st => ?_
    split
    · exact stable_throw _
    refine Stable.bind (stable_update fun st h => h) fun _ => Stable.bind (stable_forM (fun i => ?_) _) fun _ => ?_
    · refine (stable_lift _).bind fun pos => (stable_lift _).bind fun n => ?_
      exact Stable.bind (stable_update fun st h => h) fun _ => stable_forM (fun _ => hid i) _
    · exact stable_update fun st h => dims_keepRows.trans h

lemma inv_readMetaAll {cellCount : Nat} (hsmall : st.mem.size < 4294967296) (hmax : st.mem.nSeqMax ≤ st.mem.size)
    (hsafe : cellCount ≤ st.mem.size → TableSafe st.mem.nSeqMax cellCount input) :
    (∃ s', readMetaAll cellCount ⟨input, st⟩ = .ok () s' ∧ s'.st.mem.Inv) ∨
      (∃ s', readMetaAll cellCount ⟨input, st⟩ = .error .rejected s') ∨
      ∃ s', readMetaAll cellCount ⟨input, st⟩ = .error .endOfInput s' ∧ s'.st.mem.Inv := by
  unfold readMetaAll
  rw [state_bind]
  by_cases hlt : st.mem.size < cellCount
  · rw [if_pos hlt]
    exact .inr (.inl ⟨_, rfl⟩)
  rw [if_neg hlt, update_bind, range_eq_range', ReadM.bind_apply]
  have hload : Loading st.clear.mem 0 [] := loading_clear hmax
  obtain ⟨s', hrun, hwhole, hload', hgrow, hfull⟩ | ⟨s', hrun⟩ | ⟨s', hrun, hcut, hadm, hsame⟩ :=
    readCells_cases (n := cellCount) input hload (by rw [Nat.zero_add]; exact Nat.le_of_not_lt hlt)
  · rw [hrun]
    refine .inl ⟨_, rfl, ?_⟩
    rw [zero_add, nil_append] at hload'
    have hsize : s'.st.mem.size = st.mem.size := hgrow.size
    refine hload'.inv (by omega) (by omega) fun j hj => ?_
    have hadm : Admitted st.mem.nSeqMax (scanTable cellCount input).1.flatten := by
      have := hload'.admitted
      rwa [hgrow.seqMax] at this
    obtain ⟨-, hne⟩ | hnil := hsafe (Nat.le_of_not_lt hlt) hadm
    · exact hfull hne j (Nat.zero_le j) (by omega)
    · refine hfull ?_ j (Nat.zero_le j) (by omega)
      rw [hnil]
      simp
  · rw [hrun]
    exact .inr (.inl ⟨s', rfl⟩)
  · rw [hrun]
    refine .inr (.inr ⟨s', rfl, ?_⟩)
    rw [nil_append] at hadm
    obtain ⟨hwhole, -⟩ | hnil := hsafe (Nat.le_of_not_lt hlt) hadm
    · rw [hwhole] at hcut
      cases hcut
    · rw [hsame hnil]
      exact inv_clear hsmall

lemma inv_stateRead (h : st.mem.Inv) (hmax : st.mem.nSeqMax ≤ st.mem.size)
    (hsafe : ReadSafe st.mem dest input) : (final (stateRead dest ⟨input, st⟩)).mem.Inv := by
  unfold ReadSafe at hsafe
  split at hsafe
  · rename_i hd
    subst hd
    obtain heq | ⟨cellCount, rest, hp, ⟨s', hrun, heq⟩ | ⟨hno, heq⟩⟩ := final_stateRead (-1) input st
    · rw [heq]
      exact h
    · have hdims := ((stable_dims cellCount (-1)).bind fun _ =>
        stable_stateReadData (·.dims = st.mem.dims) cellCount) ⟨rest, st⟩ rfl
      rw [hrun] at hdims
      rw [heq, cleanUp, if_pos rfl]
      have hsize : s'.st.mem.size = st.mem.size := congrArg Prod.fst hdims
      exact inv_clear (hsize ▸ h.small)
    · rw [heq, ReadM.bind_apply, stateReadMeta, if_neg (by simp)]
      have hno' : ∀ s', readMetaAll cellCount ⟨rest, st⟩ ≠ .error .rejected s' := by
        intro s' hrun
        refine hno s' ?_
        rw [ReadM.bind_apply, stateReadMeta, if_neg (by simp), hrun]
      obtain ⟨s', hrun, hinv⟩ | ⟨s', hrun⟩ | ⟨s', hrun, hinv⟩ :=
        inv_readMetaAll h.small hmax (hsafe cellCount rest hp)
      · rw [hrun]
        exact stable_stateReadData Inv cellCount s' hinv
      · exact absurd hrun (hno' s')
      · rw [hrun]
        exact hinv
  · rename_i hd
    refine (stable_stateRead (J := Guarded dest) ?_ ?_ ⟨input, st⟩ ⟨h, hsafe⟩).1
    · intro cellCount
      unfold stateReadMeta
      rw [if_pos hd]
      exact stable_readMetaSeq cellCount dest
    · intro st' h'
      unfold cleanUp
      rw [if_neg hd]
      exact guarded_seqRm h'

end Restore

end RsState

end Mallana
