import Mallana.State.Restore
import Mallana.State.Accept

/-!
# What a failed read leaves behind

`state_read` cleans up after a part that returned `false`, but an exception of `io.read` or `io.read_to`
passes by the clean-up. What is left then depends on where the input ends. For a single sequence: before
its first section the old cells; within the cells of a section nothing, as far as `seq_rm` reaches; within
the data of a section, and behind it, the cells that were placed. For the whole cache anything that was placed
since the last `clear`. `leavesNothing_iff` gives the exact condition on input and cache.
-/

namespace Mallana

open Lib List

namespace KvState

open ByteParser ReadM KvCache

def NotHeld (c : KvCache) (b : SeqId) : Prop := ∀ t i, b ∉ (c.cell t i).seq

def Vacant (c : KvCache) : Prop :=
  ∀ t i, i ∉ (c.cellsOf t).used ∧ (c.cell t i).pos = -1 ∧ (c.cell t i).seq = ∅

/-- What is to hold after a failure: the sequence is gone, or the whole cache is empty. -/
def Clean (seq : Option SeqId) (c : KvCache) : Prop :=
  match seq with
  | none => Vacant c
  | some b => NotHeld c b

/-- Reading ends without an exception or leaves nothing behind. A failed assertion ends the process. -/
def LeavesNothing (seq : Option SeqId) (bs : List UInt8) (st : KvState) : Prop :=
  ∀ e s, stateRead seq ⟨bs, st⟩ = .error e s → e ≠ .assertFailed → Clean seq s.st.cache

/-- All cells of the sequence are where `seq_rm(b, -1, -1)` finds them. -/
def Reached (c : KvCache) (b : SeqId) : Prop :=
  ∀ t i, b ∈ (c.cell t i).seq → t = c.seqToStream b ∧ 0 ≤ (c.cell t i).pos ∧ (c.cell t i).pos < llamaPosMax

section Clean
variable {kvSize : Nat} {c : KvCache} {b : SeqId}

lemma mem_seq_seqRm (hs : Shape kvSize c) (t i : Nat) :
    b ∈ ((c.seqRm (some b) (-1) (-1)).cell t i).seq ↔ b ∈ (c.cell t i).seq ∧
      ¬ (t = c.seqToStream b ∧ 0 ≤ (c.cell t i).pos ∧ (c.cell t i).pos < llamaPosMax) := by
  rw [cell_seqRm_some b (-1) (-1) hs]
  by_cases ht : t = c.seqToStream b
  · rw [if_pos ht, mem_seq_cutSeq_self]
    simp only [ht, true_and]
    rfl
  · rw [if_neg ht]
    simp [ht]

lemma notHeld_seqRm_iff (hs : Shape kvSize c) : NotHeld (c.seqRm (some b) (-1) (-1)) b ↔ Reached c b := by
  refine forall₂_congr fun t i => ?_
  rw [mem_seq_seqRm hs, not_and, not_not]

lemma reached_seqRm_iff (hs : Shape kvSize c) : Reached (c.seqRm (some b) (-1) (-1)) b ↔ Reached c b := by
  have hk := keeps_seqRm c (some b) (-1) (-1)
  rw [← notHeld_seqRm_iff hs, ← notHeld_seqRm_iff (hk.shape hs)]
  refine forall₂_congr fun t i => not_congr ?_
  rw [mem_seq_seqRm (hk.shape hs)]
  refine and_iff_left_of_imp fun hb => ?_
  have hold := (mem_seq_seqRm hs t i).1 hb
  rw [seqToStream_congr hk.params]
  by_cases ht : t = c.seqToStream b
  · have hcell : (c.seqRm (some b) (-1) (-1)).cell t i = c.cell t i := by
      rw [cell_seqRm_some b (-1) (-1) hs, if_pos ht]
      unfold cutSeq
      rw [if_neg]
      rintro ⟨h0, h1, _⟩
      exact hold.2 ⟨ht, h0, h1⟩
    rw [hcell]
    exact hold.2
  · exact fun h => ht h.1

lemma vacant_clear (hs : Shape kvSize c) : Vacant c.clear := by
  intro t i
  have hcell := cell_clear hs t i
  refine ⟨?_, by rw [hcell], by rw [hcell]⟩
  by_cases ht : t < c.nStream
  · rw [cellsOf_clear hs ht]
    simp [KvCells.reset]
  · rw [cellsOf, getD_eq_default _ _ (by
      rw [((keeps_clear c).shape hs).cells, (keeps_clear c).params]; omega)]
    simp

lemma not_vacant_of_used {t i : Nat} (h : i ∈ (c.cellsOf t).used) : ¬ Vacant c :=
  fun hv => (hv t i).1 h

end Clean

def InputFault (e : Fault) : Prop := e = .endOfInput ∨ e = .rejected

section Faults

lemma inputFault_end : InputFault .endOfInput := .inl rfl

lemma inputFault_rejected : InputFault .rejected := .inr rfl

lemma failsOnly_parseExtIf (nPos : Nat) : FailsOnly InputFault (parseExtIf nPos) := by
  unfold parseExtIf parseExt
  split
  · exact (failsOnly_i32 inputFault_end).bind fun _ =>
      (failsOnly_i32 inputFault_end).bind fun _ => failsOnly_pure _
  · exact failsOnly_pure _

lemma failsOnly_parseCell (nPos : Nat) : FailsOnly InputFault (parseCell nPos) :=
  (failsOnly_i32 inputFault_end).bind fun _ => (failsOnly_num inputFault_end 4).bind fun _ =>
    (failsOnly_require inputFault_rejected _).bind fun _ => (failsOnly_parseExtIf nPos).bind fun _ =>
      (failsOnly_i32 inputFault_end).bind fun _ => failsOnly_pure _

lemma failsOnly_parseCellAll (nPos nSeqMax : Nat) : FailsOnly InputFault (parseCellAll nPos nSeqMax) :=
  (failsOnly_i32 inputFault_end).bind fun _ => (failsOnly_num inputFault_end 4).bind fun n =>
    (failsOnly_parseExtIf nPos).bind fun _ =>
      (((failsOnly_i32 inputFault_end).bind fun _ =>
        (failsOnly_require inputFault_rejected _).bind fun _ => failsOnly_pure _).times n).bind
          fun _ => failsOnly_pure _

lemma failsOnly_parseRows (r : RowShape) (n : Nat) : FailsOnly InputFault (parseRows r n) :=
  (failsOnly_i32 inputFault_end).bind fun _ => (failsOnly_require inputFault_rejected _).bind fun _ =>
    (failsOnly_num inputFault_end 8).bind fun _ =>
      (failsOnly_require inputFault_rejected _).bind fun _ => failsOnly_bytes inputFault_end _

lemma failsOnly_parseVHead (v : VShape) : FailsOnly InputFault (parseVHead v) :=
  (failsOnly_i32 inputFault_end).bind fun _ => (failsOnly_require inputFault_rejected _).bind fun _ =>
    (failsOnly_num inputFault_end 4).bind fun _ =>
      (failsOnly_require inputFault_rejected _).bind fun _ =>
        (failsOnly_num inputFault_end 4).bind fun _ => failsOnly_require inputFault_rejected _

lemma failsOnly_parseV (vTrans : Bool) (n : Nat) (L : LayerShape × Nat) :
    FailsOnly InputFault (parseV vTrans n L) := by
  unfold parseV
  cases L.1.v with
  | none => exact failsOnly_pure ()
  | some v =>
    cases vTrans with
    | true =>
      exact (failsOnly_parseVHead v).bind fun _ => failsOnly_forM (fun _ =>
        (failsOnly_bytes inputFault_end _).bind fun _ => failsOnly_pure ()) _
    | false => exact (failsOnly_parseRows _ n).bind fun _ => failsOnly_pure ()

lemma failsOnly_parseData (vTrans : Bool) (layers : List LayerShape) (size n : Nat) :
    FailsOnly InputFault (parseData vTrans layers size n) := by
  have hhead : FailsOnly InputFault (parseDataHead vTrans layers.length size n) :=
    (failsOnly_num inputFault_end 4).bind fun _ => (failsOnly_num inputFault_end 4).bind fun _ =>
      (failsOnly_require inputFault_rejected _).bind fun _ =>
        (failsOnly_require inputFault_rejected _).bind fun _ => failsOnly_require inputFault_rejected _
  exact hhead.bind fun _ => (failsOnly_forM (fun L => (failsOnly_parseRows _ n).bind fun _ =>
    failsOnly_pure ()) _).bind fun _ => failsOnly_forM (failsOnly_parseV vTrans n) _

end Faults

section Whole
variable {kvSize t k n : Nat} {s s' : Session KvState} {e : Fault}

lemma readCell_short (h : s.io.length < 8) : ∃ s', readCell t k s = .error .endOfInput s' ∧ s'.st = s.st := by
  unfold readCell
  by_cases h4 : s.io.length < 4
  · rw [lift_bind_of_error (i32_of_lt h4)]
    exact ⟨s, rfl, rfl⟩
  · have hshort : (s.io.drop 4).length < 4 := by
      rw [length_drop]
      omega
    rw [lift_bind_of_ok (i32_of_le (Nat.le_of_not_lt h4)), lift_bind_of_error (num_of_lt hshort)]
    exact ⟨_, rfl, rfl⟩

lemma mem_used_readCell (ht : t < s.st.cache.vCells.length) (h : 8 ≤ s.io.length) :
    k ∈ ((final (readCell t k s)).cache.cellsOf t).used := by
  have hrun : ∃ pos m rest, readCell t k s = (readExt t k >>= fun _ => (List.range m).forM fun _ => readSeqId t k)
        ⟨rest, s.st.setStream t fun x => x.posSet k pos⟩ := by
    have hlong : 4 ≤ (s.io.drop 4).length := by
      rw [length_drop]
      omega
    unfold readCell
    rw [lift_bind_of_ok (i32_of_le (show 4 ≤ s.io.length by omega)), lift_bind_of_ok (num_of_le hlong)]
    exact ⟨_, _, _, rfl⟩
  obtain ⟨pos, m, rest, hrun⟩ := hrun
  have hset : k ∈ ((s.st.setStream t fun x => x.posSet k pos).cache.cellsOf t).used := by
    show k ∈ ((s.st.cache.setCells t _).cellsOf t).used
    rw [cellsOf_setCells, if_pos ⟨rfl, ht⟩]
    exact Finset.mem_insert_self _ _
  rw [hrun]
  have hgrow := (follows_readCellTail (t := t) (k := k) pos m).final
    (s := ⟨rest, s.st.setStream t fun x => x.posSet k pos⟩) rfl
  exact hgrow.used hset

lemma readCells_state (hn : 0 < n) (ht : t < s.st.cache.vCells.length) :
    (s.io.length < 8 → ∃ s', (List.range n).forM (readCell t) s = .error .endOfInput s' ∧ s'.st = s.st) ∧
    (8 ≤ s.io.length → 0 ∈ ((final ((List.range n).forM (readCell t) s)).cache.cellsOf t).used) := by
  obtain ⟨m, rfl⟩ : ∃ m, n = m + 1 := ⟨n - 1, by omega⟩
  have hsplit : (List.range (m + 1)).forM (readCell t) =
      (readCell t 0 >>= fun _ => ((List.range m).map Nat.succ).forM (readCell t)) := by
    rw [range_succ_eq_map]
    rfl
  rw [hsplit, ReadM.bind_apply]
  constructor
  · intro h
    obtain ⟨s', hs', hst⟩ := readCell_short (t := t) (k := 0) h
    rw [hs']
    exact ⟨s', rfl, hst⟩
  · intro h
    have hused := mem_used_readCell (k := 0) ht h
    cases hr : readCell t 0 s with
    | error e s' =>
      rw [hr] at hused
      exact hused
    | ok a s' =>
      rw [hr] at hused
      have hfol := follows_times (l := (List.range m).map Nat.succ)
        (frame_grows t s'.st.cache.toKvParams) fun k _ => follows_readCell (t := t) (k := k)
      exact (hfol.final (s := s') rfl).used hused

def parseSection (st : KvState) (size k : Nat) : Parse (List CellMeta) := do
  let ms ← times (parseCellAll st.cache.nPosPerEmbd st.cache.nSeqMax) k
  parseData st.cache.vTrans st.layers size k
  return ms

lemma readMetaAll_rejects (h : (s.st.cache.cellsOf t).size < n) : readMetaAll t n s = .error .rejected s := by
  unfold readMetaAll
  rw [ReadM.bind_apply]
  simp only [state, h, if_true]
  rfl

lemma readMetaAll_cases (hs : Shape kvSize s.st.cache) (ht : t < s.st.cache.nStream) (hn : 0 < n)
    (hle : n ≤ kvSize) :
    match times (parseCellAll s.st.cache.nPosPerEmbd s.st.cache.nSeqMax) n s.io with
    | .ok (ms, rest) => readMetaAll t n s = .ok (loadSlot t n) ⟨rest, loadMeta t ms s.st⟩ ∧
        8 ≤ s.io.length ∧ 0 ∈ ((loadMeta t ms s.st).cache.cellsOf t).used
    | .error e => ∃ s', readMetaAll t n s = .error e s' ∧ Shape kvSize s'.st.cache ∧
        (Vacant s'.st.cache ↔ s.io.length < 8) := by
  have hlen : t < s.st.clear.cache.vCells.length := by
    have hcells : s.st.clear.cache.vCells.length = s.st.clear.cache.nStream :=
      ((keeps_clear s.st.cache).shape hs).cells
    rw [hcells, params_clear]
    exact ht
  have hrun : readMetaAll t n s = ((List.range n).forM (readCell t) >>= fun _ =>
      (do
        update fun st => st.setCache (st.cache.setHead t 0)
        return loadSlot t n : Read SlotInfo)) ⟨s.io, s.st.clear⟩ := by
    unfold readMetaAll
    rw [ReadM.bind_apply]
    simp only [state, hs.size t ht, Nat.not_lt.2 hle, if_false]
    rfl
  have hfol := follows_readCells (t := t) n ⟨s.io, s.st.clear⟩ (params_clear s.st)
  obtain ⟨hshort, hlong⟩ := readCells_state (s := ⟨s.io, s.st.clear⟩) hn hlen
  rw [hrun, ReadM.bind_apply]
  cases hp : times (parseCellAll s.st.cache.nPosPerEmbd s.st.cache.nSeqMax) n s.io with
  | ok r =>
    rw [hp] at hfol
    obtain ⟨st', hx, ⟨-, hst⟩, -⟩ := hfol
    have hbytes : 8 ≤ s.io.length := by
      by_contra hlt
      obtain ⟨s', herr, -⟩ := hshort (Nat.lt_of_not_le hlt)
      rw [hx] at herr
      cases herr
    have hused := hlong hbytes
    rw [hx] at hused ⊢
    have hload : loadMeta t r.1 s.st = st'.setCache (st'.cache.setHead t 0) := by
      rw [hst]
      rfl
    refine ⟨?_, hbytes, ?_⟩
    · rw [hload]
      rfl
    · rw [hload]
      exact hused
  | error e =>
    rw [hp] at hfol
    obtain ⟨s', hx, hgrow⟩ := hfol
    rw [hx] at hlong ⊢
    refine ⟨s', rfl, hgrow.keeps.shape ((keeps_clear s.st.cache).shape hs), ?_, ?_⟩
    · intro hv
      by_contra hlt
      exact not_vacant_of_used (hlong (Nat.le_of_not_lt hlt)) hv
    · intro hlt
      obtain ⟨s'', herr, hst⟩ := hshort hlt
      rw [hx] at herr
      cases herr
      rw [hst]
      exact vacant_clear hs

lemma readSection_none_cases (hs : Shape kvSize s.st.cache) (hpg : s.st.cache.pgEnabled = false)
    (ht : t < s.st.cache.nStream) (hn : 0 < n) :
    (kvSize < n → ∃ s', readSection t n none s = .error .restoreFailed s' ∧ Vacant s'.st.cache) ∧
    (n ≤ kvSize → match parseSection s.st kvSize n s.io with
      | .ok (_, rest) => ∃ st', readSection t n none s = .ok () ⟨rest, st'⟩ ∧
          Keeps s.st.cache st'.cache ∧ st'.layers = s.st.layers ∧ ¬ Vacant st'.cache
      | .error e => ∃ e' s', readSection t n none s = .error e' s' ∧ e' ≠ .assertFailed ∧
          (Vacant s'.st.cache ↔ (e = .endOfInput → s.io.length < 8))) := by
  constructor
  · intro hgt
    have hrej := readMetaAll_rejects (s := s) (n := n) (by rw [hs.size t ht]; exact hgt)
    refine ⟨{ s with st := s.st.clear }, ?_, vacant_clear hs⟩
    unfold readSection
    rw [ReadM.bind_apply, stateReadMeta, hrej]
    rfl
  · intro hle
    have hmeta := readMetaAll_cases hs ht hn hle
    unfold parseSection
    rw [ByteParser.bind_apply]
    cases hp : times (parseCellAll s.st.cache.nPosPerEmbd s.st.cache.nSeqMax) n s.io with
    | error e =>
      rw [hp] at hmeta
      obtain ⟨s', hx, hsh, hv⟩ := hmeta
      have hfault := (failsOnly_parseCellAll _ _).times n _ _ hp
      unfold readSection
      rw [ReadM.bind_apply, stateReadMeta, hx]
      obtain rfl | rfl := hfault
      · exact ⟨.endOfInput, s', rfl, by decide, by rw [hv]; simp⟩
      · exact ⟨.restoreFailed, _, rfl, by decide, iff_of_true (vacant_clear hsh) (by simp)⟩
    | ok r =>
      rw [hp] at hmeta
      obtain ⟨hx, hbytes, hused⟩ := hmeta
      have hk := keeps_loadMeta t r.1 s.st
      have hsize : ((loadMeta t r.1 s.st).cache.cellsOf t).size = kvSize :=
        (hk.shape hs).size t (by rw [hk.params]; exact ht)
      have hlay : (loadMeta t r.1 s.st).layers = s.st.layers := rfl
      have hat : At (loadMeta t r.1 s.st).cache s.st.layers (loadMeta t r.1 s.st) := ⟨rfl, hlay⟩
      have hdata := follows_stateReadData t n (loadSlot t n)
        (by rw [hk.params]; exact hpg) ⟨r.2, loadMeta t r.1 s.st⟩ hat
      rw [hsize, hk.params] at hdata
      unfold readSection
      rw [ReadM.bind_apply, stateReadMeta, hx]
      simp only []
      rw [ByteParser.bind_apply]
      cases hpd : parseData s.st.cache.vTrans s.st.layers kvSize n r.2 with
      | error e =>
        simp only [hpd] at hdata
        obtain ⟨s', hy, hc, -⟩ := hdata
        have hfault := failsOnly_parseData _ _ _ _ _ _ hpd
        rw [hy]
        obtain rfl | rfl := hfault
        · refine ⟨.endOfInput, s', rfl, by decide, iff_of_false ?_ (by simp; omega)⟩
          rw [hc]
          exact not_vacant_of_used hused
        · refine ⟨.restoreFailed, _, rfl, by decide, iff_of_true ?_ (by simp)⟩
          have hsh : Shape kvSize s'.st.cache := by
            rw [hc]
            exact hk.shape hs
          exact vacant_clear hsh
      | ok r' =>
        simp only [hpd] at hdata
        obtain ⟨st', hy, -, hc, hl⟩ := hdata
        rw [hy]
        refine ⟨st', rfl, ?_, hl.trans hlay, ?_⟩
        · rw [hc]
          exact hk
        · rw [hc]
          exact not_vacant_of_used hused

end Whole

section Single
variable {kvSize t n : Nat} {s s' : Session KvState} {e : Fault} {b : SeqId}

/-- The debug check of `state_read_meta` on the new cells. -/
def Checked (c : KvCache) (b : SeqId) (n : Nat) (sl : SlotInfo) (u : Ubatch) : Prop :=
  (sl.idxs.getD 0 []).length = n ∧ sl.strm.length = 1 ∧ ∀ i ∈ List.range n,
    (c.cellsOf (c.seqToStream b)).posGet ((sl.idxs.getD 0 []).getD i 0) = u.pos.getD i 0 ∧
      (c.cellsOf (c.seqToStream b)).seqHas ((sl.idxs.getD 0 []).getD i 0) b = true

instance (c : KvCache) (b : SeqId) (n : Nat) (sl : SlotInfo) (u : Ubatch) :
    Decidable (Checked c b n sl u) := inferInstanceAs (Decidable (_ ∧ _ ∧ _))

lemma Checked.not_notHeld {c : KvCache} {sl : SlotInfo} {u : Ubatch} (h : Checked c b n sl u)
    (hn : 0 < n) : ¬ NotHeld c b := by
  intro hno
  have hmem := (h.2.2 0 (mem_range.2 hn)).2
  exact hno _ _ (of_decide_eq_true hmem)

def placedCache (c : KvCache) (b : SeqId) (ms : List CellMeta) (sl : SlotInfo) : KvCache :=
  (c.seqRm (some b) (-1) (-1)).applyUbatch sl (restoreUbatch c.nPosPerEmbd b ms)

lemma keeps_placedCache (c : KvCache) (b : SeqId) (ms : List CellMeta) (sl : SlotInfo) :
    Keeps c (placedCache c b ms sl) :=
  (keeps_seqRm c (some b) (-1) (-1)).trans (keeps_applyUbatch _ _ _)

lemma readMetaSeq_cases : match times (parseCell s.st.cache.nPosPerEmbd) n s.io with
    | .error e => readMetaSeq n b s = .error e ⟨s.io, s.st.setCache (s.st.cache.seqRm (some b) (-1) (-1))⟩
    | .ok (ms, rest) =>
      match (s.st.cache.seqRm (some b) (-1) (-1)).findSlot
          (restoreUbatch s.st.cache.nPosPerEmbd b ms) false with
      | .error _ => ∃ s', readMetaSeq n b s = .error .assertFailed s'
      | .ok none => readMetaSeq n b s =
          .error .rejected ⟨rest, s.st.setCache (s.st.cache.seqRm (some b) (-1) (-1))⟩
      | .ok (some sl) =>
        if Checked (placedCache s.st.cache b ms sl) b n sl (restoreUbatch s.st.cache.nPosPerEmbd b ms)
        then readMetaSeq n b s = .ok sl ⟨rest, s.st.setCache (placedCache s.st.cache b ms sl)⟩
        else ∃ s', readMetaSeq n b s = .error .assertFailed s' := by
  have hnp : (s.st.setCache (s.st.cache.seqRm (some b) (-1) (-1))).cache.nPosPerEmbd = s.st.cache.nPosPerEmbd :=
    congrArg KvParams.nPosPerEmbd (keeps_seqRm s.st.cache (some b) (-1) (-1)).params
  unfold readMetaSeq
  rw [ReadM.bind_apply]
  simp only [update]
  rw [ReadM.bind_apply]
  simp only [state, hnp]
  cases hp : times (parseCell s.st.cache.nPosPerEmbd) n s.io with
  | error e =>
    exact lift_bind_of_error (s := ⟨s.io, s.st.setCache (s.st.cache.seqRm (some b) (-1) (-1))⟩) hp
  | ok r =>
    rw [lift_bind_of_ok (s := ⟨s.io, s.st.setCache (s.st.cache.seqRm (some b) (-1) (-1))⟩) hp]
    simp only [setCache]
    cases hslot : (s.st.cache.seqRm (some b) (-1) (-1)).findSlot
        (restoreUbatch s.st.cache.nPosPerEmbd b r.1) false with
    | error e => exact ⟨_, rfl⟩
    | ok o =>
      cases o with
      | none => rfl
      | some sl =>
        simp only [ReadM.bind_apply, update, state]
        by_cases hc : Checked (placedCache s.st.cache b r.1 sl) b n sl
            (restoreUbatch s.st.cache.nPosPerEmbd b r.1)
        · rw [if_pos hc]
          exact congrFun (if_pos hc) _
        · rw [if_neg hc]
          exact ⟨_, congrFun (if_neg hc) _⟩

lemma readSection_of_error (hs : Shape kvSize s.st.cache) {rest : List UInt8} (he : InputFault e)
    (h : readMetaSeq n b s = .error e ⟨rest, s.st.setCache (s.st.cache.seqRm (some b) (-1) (-1))⟩) :
    ∃ e' s', readSection t n (some b) s = .error e' s' ∧ e' ≠ .assertFailed ∧
      (NotHeld s'.st.cache b ↔ Reached s.st.cache b) := by
  have hsh := (keeps_seqRm s.st.cache (some b) (-1) (-1)).shape hs
  unfold readSection
  rw [ReadM.bind_apply, stateReadMeta, h]
  obtain rfl | rfl := he
  · refine ⟨.endOfInput, ⟨rest, s.st.setCache (s.st.cache.seqRm (some b) (-1) (-1))⟩, rfl, by decide, ?_⟩
    simp only [setCache]
    exact notHeld_seqRm_iff hs
  · refine ⟨.restoreFailed, ⟨rest, s.st.setCache ((s.st.cache.seqRm (some b) (-1) (-1)).seqRm (some b) (-1) (-1))⟩, rfl,
      by decide, ?_⟩
    simp only [setCache]
    exact (notHeld_seqRm_iff hsh).trans (reached_seqRm_iff hs)

lemma readSection_of_ok (hs : Shape kvSize s.st.cache) (hpg : s.st.cache.pgEnabled = false)
    (hn : 0 < n) {ms : List CellMeta} {sl : SlotInfo} {rest : List UInt8}
    (hc : Checked (placedCache s.st.cache b ms sl) b n sl (restoreUbatch s.st.cache.nPosPerEmbd b ms))
    (h : readMetaSeq n b s = .ok sl ⟨rest, s.st.setCache (placedCache s.st.cache b ms sl)⟩) :
    match parseData s.st.cache.vTrans s.st.layers kvSize n rest with
    | .ok (_, rest') => ∃ st', readSection (s.st.cache.seqToStream b) n (some b) s = .ok () ⟨rest', st'⟩ ∧
        st'.cache = placedCache s.st.cache b ms sl ∧ st'.layers = s.st.layers
    | .error e => ∃ e' s', readSection (s.st.cache.seqToStream b) n (some b) s = .error e' s' ∧
        e' ≠ .assertFailed ∧
        (NotHeld s'.st.cache b ↔ e = .rejected ∧ Reached (placedCache s.st.cache b ms sl) b) := by
  have hk := keeps_placedCache s.st.cache b ms sl
  have hlt := s.st.cache.seqToStream_lt hs.streams b
  have hsize : ((placedCache s.st.cache b ms sl).cellsOf (s.st.cache.seqToStream b)).size = kvSize :=
    (hk.shape hs).size _ (by rw [hk.params]; exact hlt)
  have hat : At (placedCache s.st.cache b ms sl) s.st.layers
      (s.st.setCache (placedCache s.st.cache b ms sl)) := ⟨rfl, rfl⟩
  have hdata := follows_stateReadData (s.st.cache.seqToStream b) n sl
    (by rw [hk.params]; exact hpg) ⟨rest, s.st.setCache (placedCache s.st.cache b ms sl)⟩ hat
  rw [hsize, hk.params] at hdata
  unfold readSection
  rw [ReadM.bind_apply, stateReadMeta, h]
  simp only []
  cases hpd : parseData s.st.cache.vTrans s.st.layers kvSize n rest with
  | ok r =>
    simp only [hpd] at hdata
    obtain ⟨st', hy, -, hc', hl⟩ := hdata
    rw [hy]
    exact ⟨st', rfl, hc', hl⟩
  | error e =>
    simp only [hpd] at hdata
    obtain ⟨s', hy, hc', -⟩ := hdata
    have hfault := failsOnly_parseData _ _ _ _ _ _ hpd
    have hcache : s'.st.cache = placedCache s.st.cache b ms sl := hc'
    rw [hy]
    obtain rfl | rfl := hfault
    · refine ⟨.endOfInput, s', rfl, by decide, iff_of_false ?_ (by simp)⟩
      rw [hcache]
      exact hc.not_notHeld hn
    · refine ⟨.restoreFailed, _, rfl, by decide, ?_⟩
      have hsh : Shape kvSize s'.st.cache := by
        rw [hcache]
        exact hk.shape hs
      rw [← hcache]
      exact (notHeld_seqRm_iff hsh).trans (and_iff_right rfl).symm

end Single

/-- When nothing is left after a failure in the sections of the whole cache; `vacant` says that nothing
    is in the cache so far. -/
def VacantOk (st : KvState) (size : Nat) (vacant : Prop) : Nat → List UInt8 → Prop
  | 0, _ => True
  | n + 1, bs =>
    match num Fault.endOfInput 4 bs with
    | .error _ => vacant
    | .ok (k, rest) =>
      if k = 0 then VacantOk st size vacant n rest
      else if size < k then True
      else
        match parseSection st size k rest with
        | .ok (_, rest') => VacantOk st size False n rest'
        -- the input may end within the first eight bytes of the first cell
        | .error e => e = .endOfInput → rest.length < 8

/-- When nothing is left after a failure in the sections of a single sequence. -/
def NotHeldOk (st : KvState) (size : Nat) (b : SeqId) : Nat → KvCache → List UInt8 → Prop
  | 0, _, _ => True
  | n + 1, c, bs =>
    match num Fault.endOfInput 4 bs with
    | .error _ => NotHeld c b
    | .ok (k, rest) =>
      if k = 0 then NotHeldOk st size b n c rest
      else
        match times (parseCell st.cache.nPosPerEmbd) k rest with
        | .error _ => Reached c b
        | .ok (ms, rest) =>
          match (c.seqRm (some b) (-1) (-1)).findSlot (restoreUbatch st.cache.nPosPerEmbd b ms) false with
          | .error _ => True
          | .ok none => Reached c b
          | .ok (some sl) =>
            if Checked (placedCache c b ms sl) b k sl (restoreUbatch st.cache.nPosPerEmbd b ms) then
              match parseData st.cache.vTrans st.layers size k rest with
              | .ok (_, rest') => NotHeldOk st size b n (placedCache c b ms sl) rest'
              | .error e => e = .rejected ∧ Reached (placedCache c b ms sl) b
            else True

def FailOk (seq : Option SeqId) (bs : List UInt8) (st : KvState) : Prop :=
  st.cache.pgEnabled = true ∨ match num Fault.endOfInput 4 bs with
    | .error _ => Clean seq st.cache
    | .ok (k, rest) =>
      if k ≠ st.cache.nStream then Clean seq st.cache
      else
        match seq with
        | none => VacantOk st st.cache.getSize (Vacant st.cache) st.cache.nStream rest
        | some b => NotHeldOk st st.cache.getSize b st.cache.nStream st.cache rest

section Main
variable {kvSize t : Nat} {st : KvState} {s : Session KvState} {seq : Option SeqId} {bs : List UInt8}

def Safe (seq : Option SeqId) (x : Read Unit) (s : Session KvState) : Prop :=
  ∀ e s', x s = .error e s' → e ≠ .assertFailed → Clean seq s'.st.cache

variable {x : Read Unit} {s' : Session KvState} {e : Fault} {y : Unit → Read Unit}

lemma safe_of_ok (h : x s = .ok () s') : Safe seq x s := by
  intro e s'' he
  rw [h] at he
  cases he

lemma safe_error_iff (h : x s = .error e s') (he : e ≠ .assertFailed) : Safe seq x s ↔ Clean seq s'.st.cache := by
  constructor
  · exact fun hs => hs e s' h he
  · intro hc e' s'' h'
    rw [h] at h'
    cases h'
    exact fun _ => hc

lemma safe_assert (h : x s = .error .assertFailed s') : Safe seq x s := by
  intro e s'' he hne
  rw [h] at he
  cases he
  exact absurd rfl hne

lemma safe_bind_of_ok (h : x s = .ok () s') : Safe seq (x >>= y) s ↔ Safe seq (y ()) s' := by
  unfold Safe
  rw [ReadM.bind_apply, h]

lemma bind_of_error (h : x s = .error e s') : (x >>= y) s = .error e s' := by
  rw [ReadM.bind_apply, h]

lemma readStream_of_error (h : num Fault.endOfInput 4 s.io = .error e) : readStream seq t s = .error e s := by
  unfold readStream
  exact lift_bind_of_error h

lemma readStream_of_ok (seq : Option SeqId) (t : Nat) {k : Nat} {rest : List UInt8}
    (h : num Fault.endOfInput 4 s.io = .ok (k, rest)) : readStream seq t s = if k = 0 then .ok () ⟨rest, s.st⟩ else
        readSection (match seq with | none => t | some q => s.st.cache.seqToStream q) k seq ⟨rest, s.st⟩ := by
  unfold readStream
  rw [lift_bind_of_ok h]
  split <;> rfl

lemma ne_assertFailed {n : Nat} {io : List UInt8}
    (h : num Fault.endOfInput n io = .error e) : e ≠ .assertFailed := by
  have hfault : InputFault e := failsOnly_num inputFault_end n io e h
  obtain rfl | rfl := hfault <;> decide

lemma safe_section_assert {k : Nat} {b : SeqId} {rest : List UInt8}
    (hread : readStream (some b) t s = readSection (s.st.cache.seqToStream b) k (some b) ⟨rest, s.st⟩)
    (h : ∃ s', readMetaSeq k b ⟨rest, s.st⟩ = .error .assertFailed s') :
    Safe (some b) (readStream (some b) t >>= y) s := by
  obtain ⟨s', h⟩ := h
  have hx : readSection (s.st.cache.seqToStream b) k (some b) ⟨rest, s.st⟩ = .error .assertFailed s' := by
    unfold readSection
    rw [ReadM.bind_apply, stateReadMeta, h]
  exact safe_assert (bind_of_error (hread.trans hx))

section
variable (hs : Shape kvSize s.st.cache) (hparams : s.st.cache.toKvParams = st.cache.toKvParams)
  (hlay : s.st.layers = st.layers) (hpg : st.cache.pgEnabled = false)
include hs hparams hlay hpg

lemma safe_streams_none {l : List Nat} (hl : ∀ t ∈ l, t < st.cache.nStream) :
    Safe none (l.forM (readStream none)) s ↔ VacantOk st kvSize (Vacant s.st.cache) l.length s.io := by
  induction l generalizing s with
  | nil => exact iff_of_true (safe_of_ok rfl) trivial
  | cons t l ih =>
    simp only [mem_cons, forall_eq_or_imp] at hl
    rw [length_cons, VacantOk]
    cases hn : num Fault.endOfInput 4 s.io with
    | error e =>
      exact safe_error_iff (bind_of_error (readStream_of_error hn)) (ne_assertFailed hn)
    | ok r =>
      obtain ⟨k, rest⟩ := r
      have hread := readStream_of_ok none t hn
      simp only []
      by_cases h0 : k = 0
      · rw [if_pos h0] at hread ⊢
        exact (safe_bind_of_ok hread).trans (ih (s := ⟨rest, s.st⟩) hs hparams hlay hl.2)
      · rw [if_neg h0] at hread ⊢
        have hsec : parseSection s.st kvSize k = parseSection st kvSize k := by
          unfold parseSection
          rw [hparams, hlay]
        obtain ⟨hbig, hfit⟩ := readSection_none_cases (s := ⟨rest, s.st⟩) hs
          (by rw [hparams]; exact hpg) (by rw [hparams]; exact hl.1) (pos_of_ne_zero h0)
        by_cases hgt : kvSize < k
        · rw [if_pos hgt]
          obtain ⟨s', hx, hv⟩ := hbig hgt
          refine iff_of_true ?_ trivial
          exact (safe_error_iff (bind_of_error (hread.trans hx)) (by decide)).2 hv
        · rw [if_neg hgt]
          have hfit := hfit (Nat.le_of_not_lt hgt)
          simp only [hsec] at hfit
          cases hp : parseSection st kvSize k rest with
          | ok r' =>
            simp only [hp] at hfit
            obtain ⟨st', hx, hk, hl', hv⟩ := hfit
            have hrest := ih (s := ⟨r'.2, st'⟩) (hk.shape hs) (hk.params.trans hparams)
              (hl'.trans hlay) hl.2
            rw [eq_false hv] at hrest
            exact (safe_bind_of_ok (hread.trans hx)).trans hrest
          | error e =>
            simp only [hp] at hfit
            obtain ⟨e', s', hx, hne, hv⟩ := hfit
            exact (safe_error_iff (bind_of_error (hread.trans hx)) hne).trans hv

lemma safe_streams_some {l : List Nat} {b : SeqId} : Safe (some b) (l.forM (readStream (some b))) s ↔
      NotHeldOk st kvSize b l.length s.st.cache s.io := by
  induction l generalizing s with
  | nil => exact iff_of_true (safe_of_ok rfl) trivial
  | cons t l ih =>
    rw [length_cons, NotHeldOk]
    cases hn : num Fault.endOfInput 4 s.io with
    | error e =>
      exact safe_error_iff (bind_of_error (readStream_of_error hn)) (ne_assertFailed hn)
    | ok r =>
      obtain ⟨k, rest⟩ := r
      have hread := readStream_of_ok (some b) t hn
      simp only []
      by_cases h0 : k = 0
      · rw [if_pos h0] at hread ⊢
        exact (safe_bind_of_ok hread).trans (ih (s := ⟨rest, s.st⟩) hs hparams hlay)
      · rw [if_neg h0] at hread ⊢
        have hmeta := readMetaSeq_cases (s := ⟨rest, s.st⟩) (n := k) (b := b)
        have hpos : s.st.cache.nPosPerEmbd = st.cache.nPosPerEmbd := by rw [hparams]
        simp only [hpos] at hmeta
        cases hp : times (parseCell st.cache.nPosPerEmbd) k rest with
        | error e =>
          simp only [hp] at hmeta
          have hfault := (failsOnly_parseCell _).times k _ _ hp
          obtain ⟨e', s', hx, hne, hv⟩ := readSection_of_error (s := ⟨rest, s.st⟩)
            (t := s.st.cache.seqToStream b) hs hfault hmeta
          exact (safe_error_iff (bind_of_error (hread.trans hx)) hne).trans hv
        | ok r =>
          obtain ⟨ms, rest'⟩ := r
          simp only [hp] at hmeta ⊢
          cases hslot : (s.st.cache.seqRm (some b) (-1) (-1)).findSlot
              (restoreUbatch st.cache.nPosPerEmbd b ms) false with
          | error e =>
            simp only [hslot] at hmeta
            exact iff_of_true (safe_section_assert hread hmeta) trivial
          | ok o =>
            cases o with
            | none =>
              simp only [hslot] at hmeta
              obtain ⟨e', s', hx, hne, hv⟩ := readSection_of_error (s := ⟨rest, s.st⟩)
                (t := s.st.cache.seqToStream b) hs inputFault_rejected hmeta
              exact (safe_error_iff (bind_of_error (hread.trans hx)) hne).trans hv
            | some sl =>
              simp only [hslot] at hmeta
              by_cases hc : Checked (placedCache s.st.cache b ms sl) b k sl
                  (restoreUbatch st.cache.nPosPerEmbd b ms)
              · simp only [if_pos hc] at hmeta ⊢
                have hk := keeps_placedCache s.st.cache b ms sl
                have hdata := readSection_of_ok (s := ⟨rest, s.st⟩) hs
                  (by rw [hparams]; exact hpg) (pos_of_ne_zero h0) (by rw [hpos]; exact hc) hmeta
                simp only [hparams, hlay] at hdata
                cases hpd : parseData st.cache.vTrans st.layers kvSize k rest' with
                | ok r =>
                  simp only [hpd] at hdata
                  obtain ⟨st', hx, hcache, hl⟩ := hdata
                  have hrest := ih (s := ⟨r.2, st'⟩) (by rw [hcache]; exact hk.shape hs)
                    (by rw [hcache]; exact hk.params.trans hparams) hl
                  rw [hcache] at hrest
                  exact (safe_bind_of_ok (hread.trans hx)).trans hrest
                | error e =>
                  simp only [hpd] at hdata
                  obtain ⟨e', s', hx, hne, hv⟩ := hdata
                  exact (safe_error_iff (bind_of_error (hread.trans hx)) hne).trans hv
              · simp only [if_neg hc] at hmeta ⊢
                exact iff_of_true (safe_section_assert hread hmeta) trivial

end

/-- A failed read leaves nothing behind exactly under this condition on input and cache. -/
theorem leavesNothing_iff (hs : Shape kvSize st.cache) : LeavesNothing seq bs st ↔ FailOk seq bs st := by
  have hdef : LeavesNothing seq bs st ↔ Safe seq (stateRead seq) ⟨bs, st⟩ := Iff.rfl
  rw [hdef]
  unfold FailOk
  cases hpg : st.cache.pgEnabled with
  | true =>
    -- nothing is read
    have hrun : stateRead seq ⟨bs, st⟩ = .ok () ⟨bs, st⟩ := by
      unfold stateRead
      rw [ReadM.bind_apply]
      simp only [state, hpg, if_true]
      rfl
    exact iff_of_true (safe_of_ok hrun) (.inl rfl)
  | false =>
    rw [or_iff_right (by decide), getSize_eq hs]
    have hrun : stateRead seq ⟨bs, st⟩ = (lift (num .endOfInput 4) >>= fun nStream =>
        if nStream ≠ st.cache.nStream then throw .nStreamMismatch
        else (List.range st.cache.nStream).forM (readStream seq)) ⟨bs, st⟩ := by
      unfold stateRead
      rw [ReadM.bind_apply]
      simp only [state, hpg, Bool.false_eq_true, if_false]
    cases hn : num Fault.endOfInput 4 bs with
    | error e =>
      exact safe_error_iff (hrun.trans (lift_bind_of_error hn)) (ne_assertFailed hn)
    | ok r =>
      obtain ⟨k, rest⟩ := r
      rw [lift_bind_of_ok hn] at hrun
      simp only []
      by_cases hk : k ≠ st.cache.nStream
      · rw [if_pos hk] at hrun ⊢
        exact safe_error_iff hrun (by decide)
      · rw [if_neg hk] at hrun ⊢
        have hsafe : Safe seq (stateRead seq) ⟨bs, st⟩ ↔
            Safe seq ((List.range st.cache.nStream).forM (readStream seq)) ⟨rest, st⟩ := by
          unfold Safe
          rw [hrun]
        rw [hsafe]
        cases seq with
        | none =>
          have h := safe_streams_none (s := ⟨rest, st⟩) (l := List.range st.cache.nStream) hs rfl rfl hpg
            fun t ht => mem_range.1 ht
          rwa [length_range] at h
        | some b =>
          have h := safe_streams_some (s := ⟨rest, st⟩) (l := List.range st.cache.nStream) (b := b)
            hs rfl rfl hpg
          rwa [length_range] at h

end Main

end KvState

namespace Blank
open KvState ByteParser

/-- The outcome of reading the first `n` bytes of an input: the error, and whether the first cell has
    the sequence. -/
def cut (n : Nat) : Option (Fault × Bool) :=
  match stateRead (some 0) ⟨(input 5).take n, state⟩ with
  | .ok _ _ => none
  | .error e s => some (e, decide (0 ∈ (s.st.cache.cell 0 0).seq))

lemma computed_cut : cut 16 = some (.endOfInput, false) ∧ cut 20 = some (.endOfInput, true) := by
  decide +kernel

lemma exists_error {n : Nat} {r : Fault × Bool} (h : cut n = some r) :
    ∃ s, stateRead (some 0) ⟨(input 5).take n, state⟩ = .error r.1 s ∧
      r.2 = decide (0 ∈ (s.st.cache.cell 0 0).seq) := by
  unfold cut at h
  split at h
  · cases h
  · rename_i e s hs
    cases h
    exact ⟨s, hs, rfl⟩

lemma reached_state : Reached state.cache 0 := by
  intro t i h
  rw [show state.cache.cell t i = {} from KvCache.cell_init _ _ _ _ _ _ _ _ _ t i] at h
  exact absurd h (Finset.notMem_empty _)

lemma computed_parse : num Fault.endOfInput 4 ((input 5).take 16) = .ok (1, ((input 5).take 16).drop 4) ∧
    num Fault.endOfInput 4 (((input 5).take 16).drop 4) = .ok (1, ((input 5).take 16).drop 8) ∧
    times (parseCell state.cache.nPosPerEmbd) 1 (((input 5).take 16).drop 8) = .error .endOfInput := by
  decide +kernel

end Blank

open Blank in
/-- Cut off within the cell, the input is refused and nothing is left. -/
theorem KvState.leavesNothing_iff_cut : ∃ e s,
    stateRead (some 0) ⟨(input 5).take 16, state⟩ = .error e s ∧ NotHeld s.st.cache 0 := by
  obtain ⟨s, hs, _⟩ := exists_error computed_cut.1
  obtain ⟨h0, h1, hcell⟩ := computed_parse
  have hok : FailOk (some 0) ((input 5).take 16) state := by
    refine .inr ?_
    rw [h0]
    simp only []
    rw [if_neg (by decide), show state.cache.nStream = 1 from rfl, NotHeldOk, h1]
    simp only []
    rw [if_neg (by decide), hcell]
    exact reached_state
  exact ⟨_, s, hs, (leavesNothing_iff good_state.wf.shape).2 hok _ s hs (by decide)⟩

open Blank in
/-- Cut off behind the cell, the input is refused as well, but the cell stays. -/
theorem KvState.failure_keeps_cell : ¬ ∀ (kvSize : Nat) (st : KvState) (seq : Option SeqId)
    (bs : List UInt8), KvCache.Shape kvSize st.cache → LeavesNothing seq bs st := by
  intro hall
  obtain ⟨s, hs, hr⟩ := exists_error computed_cut.2
  have hno : NotHeld s.st.cache 0 := hall 4 state (some 0) _ good_state.wf.shape _ s hs (by decide)
  exact hno 0 0 (of_decide_eq_true hr.symm)

end Mallana
