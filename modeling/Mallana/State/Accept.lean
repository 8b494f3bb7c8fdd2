import Mallana.State.Load
import Mathlib.Algebra.Order.BigOperators.Group.List

/-!
# What an accepted input leaves behind

`state_read` checks the sequence ids of an input against `n_seq_max`, but neither their being distinct nor
the positions. For an input that it accepts, the cell tables satisfy their invariant if the
positions are not negative and no cell repeats a sequence id; for the whole cache only the last
section with cells counts, since each of them clears the cache. `accepted_tableOk_iff` also has the
converse, for the whole cache and for a single sequence in a cache with one stream.
-/

namespace Mallana

open Lib List

namespace KvState

open ByteParser ReadM KvCache

/-- The invariant of a cell table: the used cells are those with a position, which is not negative, and
    the position indexes count the cells. -/
structure TableOk (x : KvCells) : Prop where
  used_iff : ∀ i, i ∈ x.used ↔ (x.cell i).pos ≠ -1
  nonneg : ∀ i ∈ x.used, 0 ≤ (x.cell i).pos
  counts : ∀ q, CountMap.Represents (x.seqPos q) (x.count q)

def CellMeta.seqs (m : CellMeta) : List SeqId := m.ids.map seqIdOf

/-- A cell in the input without negative position and repeated sequence. -/
def CellMeta.Ok (m : CellMeta) : Prop := 0 ≤ m.pos ∧ m.seqs.Nodup

section Tally
variable {nPos k : Nat} {m : CellMeta} {x : KvCells} {q : SeqId}

lemma represents_foldl_seqAdd {f : Int → Nat} (hk : k < x.size)
    (h : CountMap.Represents (x.seqPos q) f) (l : List SeqId) :
    CountMap.Represents ((l.foldl (fun x q => x.seqAdd k q) x).seqPos q)
      fun p => f p + if p = (x.cell k).pos then l.count q else 0 := by
  induction l generalizing x f with
  | nil => exact h.congr (by simp)
  | cons r l ih =>
    have hpos : ((x.seqAdd k r).cell k).pos = (x.cell k).pos := by
      rw [KvCells.cell_seqAdd, if_pos ⟨rfl, hk⟩]
    have hstep : CountMap.Represents ((x.seqAdd k r).seqPos q)
        fun p => f p + if p = (x.cell k).pos ∧ r = q then 1 else 0 := by
      by_cases hr : r = q
      · subst hr
        have hseq : (x.seqAdd k r).seqPos r = (x.seqPos r).inc (x.cell k).pos := by
          simp [KvCells.seqAdd, KvCells.seqPosInc]
        rw [hseq]
        exact h.inc (by simp) (by simp +contextual)
      · have hseq : (x.seqAdd k r).seqPos q = x.seqPos q := by
          simp [KvCells.seqAdd, KvCells.seqPosInc, Ne.symm hr]
        rw [hseq]
        exact h.congr (by simp [hr])
    refine (ih (by simpa using hk) hstep).congr fun p => ?_
    rw [hpos, count_cons]
    by_cases hp : p = (x.cell k).pos
    · by_cases hr : r = q
      · simp [hp, hr]
        omega
      · simp [hp, hr]
    · simp [hp]

lemma represents_placeMeta {f : Int → Nat} (hk : k < x.size) (h : CountMap.Represents (x.seqPos q) f) :
    CountMap.Represents ((placeMeta nPos k m x).seqPos q)
      fun p => f p + if m.pos = p then m.seqs.count q else 0 := by
  have hsize : (placeExt nPos k m.ext (x.posSet k m.pos)).size = x.size := by
    unfold placeExt
    split <;> simp
  have hpos : ((placeExt nPos k m.ext (x.posSet k m.pos)).cell k).pos = m.pos := by
    unfold placeExt
    split
    · rw [KvCells.cell_extSet, if_pos ⟨rfl, by simpa using hk⟩, KvCells.cell_posSet, if_pos ⟨rfl, hk⟩]
    · rw [KvCells.cell_posSet, if_pos ⟨rfl, hk⟩]
  have hseq : (placeExt nPos k m.ext (x.posSet k m.pos)).seqPos = x.seqPos := by
    unfold placeExt
    split <;> rfl
  rw [placeMeta, placeIds_eq]
  rw [← hseq] at h
  refine (represents_foldl_seqAdd (by rw [hsize]; exact hk) h _).congr fun p => ?_
  rw [hpos]
  simp only [eq_comm, CellMeta.seqs]

def tally (ms : List CellMeta) (q : SeqId) (p : Int) : Nat :=
  (ms.map fun m => if m.pos = p then m.seqs.count q else 0).sum

def present (ms : List CellMeta) (q : SeqId) (p : Int) : Nat :=
  (ms.map fun m => if m.pos = p ∧ q ∈ m.seqs then 1 else 0).sum

lemma represents_placeAll {ms : List CellMeta} (h : ms.length ≤ x.size) (q : SeqId) :
    CountMap.Represents ((placeAll nPos ms x.reset).seqPos q) (tally ms q) := by
  induction ms using List.reverseRecOn with
  | nil => exact CountMap.represents_empty
  | append_singleton ms m ih =>
    rw [length_append, length_singleton] at h
    rw [placeAll_concat]
    refine (represents_placeMeta (by rw [size_placeAll, KvCells.size_reset]; omega)
      (ih (by omega))).congr fun p => ?_
    simp [tally]

lemma count_placeMeta (hk : k < x.size) (hempty : (x.cell k).seq = ∅) (p : Int) :
    (placeMeta nPos k m x).count q p = x.count q p + if m.pos = p ∧ q ∈ m.seqs then 1 else 0 := by
  have hcells : (placeMeta nPos k m x).cells = (x.putCell k (metaCell nPos m (x.cell k))).cells := by
    refine KvCells.cells_ext (by rw [size_placeMeta, KvCells.size_putCell]) fun i => ?_
    rw [cell_placeMeta hk, KvCells.cell_putCell]
    by_cases hi : i = k
    · subst hi
      simp [hk]
    · simp [hi, Ne.symm hi]
  have hcount : (placeMeta nPos k m x).count q p = (x.putCell k (metaCell nPos m (x.cell k))).count q p := by
    unfold KvCells.count
    rw [hcells]
  rw [hcount, KvCells.count_putCell hk, KvCells.count_eq_countExcept hk]
  simp [KvCells.holds, hempty, metaCell, CellMeta.seqs, and_comm]

lemma count_placeAll {ms : List CellMeta} (h : ms.length ≤ x.size) (q : SeqId) (p : Int) :
    (placeAll nPos ms x.reset).count q p = present ms q p := by
  induction ms using List.reverseRecOn with
  | nil => simp [placeAll, KvCells.count, KvCells.reset, KvCells.holds, present]
  | append_singleton ms m ih =>
    rw [length_append, length_singleton] at h
    have hempty : ((placeAll nPos ms x.reset).cell ms.length).seq = ∅ := by
      rw [cell_placeAll (by rw [KvCells.size_reset]; omega), getElem?_eq_none le_rfl, KvCells.cell_reset]
      rfl
    rw [placeAll_concat, count_placeMeta (by rw [size_placeAll, KvCells.size_reset]; omega) hempty, ih (by omega)]
    simp [present]

lemma present_eq_tally_iff {ms : List CellMeta} :
    (∀ q p, present ms q p = tally ms q p) ↔ ∀ m ∈ ms, m.seqs.Nodup := by
  have hle : ∀ (q : SeqId) (p : Int), ∀ m ∈ ms, (if m.pos = p ∧ q ∈ m.seqs then 1 else 0) ≤
      if m.pos = p then m.seqs.count q else 0 := by
    intro q p m _
    by_cases hp : m.pos = p
    · by_cases hq : q ∈ m.seqs
      · simp [hp, hq]
      · simp [hp, hq]
    · simp [hp]
  constructor
  · intro h m hm
    rw [nodup_iff_count_le_one]
    intro q
    by_contra hdup
    have hq : q ∈ m.seqs := List.count_pos_iff.1 (by omega)
    refine absurd (h q m.pos) (ne_of_lt ?_)
    refine sum_lt_sum _ _ (hle q m.pos) ⟨m, hm, ?_⟩
    simp only [hq, and_self, if_true]
    omega
  · intro h q p
    unfold present tally
    congr 1
    refine map_congr_left fun m hm => ?_
    by_cases hp : m.pos = p
    · by_cases hq : q ∈ m.seqs
      · simp [hp, hq, count_eq_one_of_mem (h m hm) hq]
      · simp [hp, hq, count_eq_zero_of_not_mem hq]
    · simp [hp]

lemma tableOk_placeAll_iff {ms : List CellMeta} (h : ms.length ≤ x.size) :
    TableOk (placeAll nPos ms x.reset) ↔ ∀ m ∈ ms, m.Ok := by
  have hcell : ∀ i, ((placeAll nPos ms x.reset).cell i).pos = ms[i]?.elim (-1) CellMeta.pos := by
    intro i
    rw [cell_placeAll (by rw [KvCells.size_reset]; exact h), KvCells.cell_reset]
    cases ms[i]? <;> rfl
  have hused : ∀ i, i ∈ (placeAll nPos ms x.reset).used ↔ i < ms.length := by
    intro i
    rw [used_placeAll]
    simp [KvCells.reset]
  constructor
  · intro hok m hm
    obtain ⟨i, hi, rfl⟩ := getElem_of_mem hm
    have hin := (hused i).2 hi
    have hpos := hok.nonneg i hin
    rw [hcell, getElem?_eq_getElem hi] at hpos
    refine ⟨hpos, present_eq_tally_iff.1 (fun q p => ?_) _ hm⟩
    rw [← count_placeAll h]
    exact (hok.counts q).eq (represents_placeAll h q) p
  · intro hok
    refine ⟨fun i => ?_, fun i hi => ?_, fun q => ?_⟩
    · rw [hused, hcell]
      by_cases hi : i < ms.length
      · have hpos := (hok _ (getElem_mem hi)).1
        rw [getElem?_eq_getElem hi, Option.elim_some]
        exact iff_of_true hi (by omega)
      · rw [getElem?_eq_none (by omega)]
        exact iff_of_false hi (by simp)
    · have hlt := (hused i).1 hi
      rw [hcell, getElem?_eq_getElem hlt]
      exact (hok _ (getElem_mem hlt)).1
    · refine (represents_placeAll h q).congr fun p => ?_
      rw [count_placeAll h]
      exact (present_eq_tally_iff.2 (fun m hm => (hok m hm).2) q p).symm

lemma tableOk_reset (x : KvCells) : TableOk x.reset := by
  have h : TableOk (placeAll 1 [] x.reset) := (tableOk_placeAll_iff (Nat.zero_le _)).2 (by simp)
  exact h

end Tally

/-- A well-formed cache without negative positions. -/
structure Good (kvSize : Nat) (c : KvCache) : Prop where
  wf : Wf kvSize c
  nonneg : ∀ t i, (c.cell t i).pos = -1 ∨ 0 ≤ (c.cell t i).pos

section Good
variable {kvSize n nPos : Nat} {c : KvCache} {sl : SlotInfo} {u : Ubatch} {b : SeqId}

lemma Good.tableOk (h : Good kvSize c) (t : Nat) : TableOk (c.cellsOf t) := by
  refine ⟨(h.wf.inv t).used_iff, fun i hi => ?_, (h.wf.inv t).counts⟩
  exact (h.nonneg t i).resolve_left (((h.wf.inv t).used_iff i).1 hi)

lemma nonneg_of_cut {x y : Cell} (h : Cell.Cut y x) (hx : x.pos = -1 ∨ 0 ≤ x.pos) : y.pos = -1 ∨ 0 ≤ y.pos := by
  by_cases hy : y.pos = -1
  · exact .inl hy
  · rw [h.pos_eq hy]
    exact hx

lemma Good.seqRm (h : Good kvSize c) (p0 p1 : Int) : Good kvSize (c.seqRm (some b) p0 p1) := by
  refine ⟨h.wf.seqRm b p0 p1, fun t i => ?_⟩
  rw [cell_seqRm_some b p0 p1 h.wf.shape]
  split
  · exact nonneg_of_cut (cut_cutSeq _ _ _ _) (h.nonneg t i)
  · exact h.nonneg t i

lemma Good.applyUbatch (h : Good kvSize c) (hf : Found c n sl) (hn : 0 < n) (hnd : sl.strm.Nodup)
    (hu : ∀ e ∈ sl.entries, 0 ≤ u.pos.getD e.1 0 ∧ (u.seqId.getD e.1 []).Nodup) :
    Good kvSize (c.applyUbatch sl u) := by
  have htok : ∀ e ∈ sl.entries, u.TokenOk e.1 := fun e he => ⟨by have := (hu e he).1; omega, (hu e he).2⟩
  have hnd' := hf.nodup hnd
  have htk := tokensKeep_applyTokens h.wf.shape hf htok
  have hpk := purgeKeep_purge (posMax_ge (c := c) (u := u) hnd') (htk.only.shape h.wf.shape)
    (htk.inv h.wf.inv)
  refine ⟨h.wf.applyUbatch hf hn hnd htok, fun t i => ?_⟩
  rw [KvCache.applyUbatch, cell_moveHeads]
  refine nonneg_of_cut (hpk.cut t i) ?_
  rw [cell_applyTokens h.wf.shape (fun e he => hf.lt h.wf.shape ⟨e, he, rfl⟩) hnd']
  by_cases hi : sl.Has t i
  · obtain ⟨e, he, heq⟩ := hi
    obtain ⟨rfl, rfl⟩ := Prod.mk.inj heq
    rw [written_of_mem hnd' he]
    exact .inr (hu e he).1
  · rw [written_of_not_has hi]
    exact h.nonneg t i

def Stuck (c : KvCache) (t i : Nat) : Prop :=
  i ∈ (c.cellsOf t).used ∧ (c.cell t i).pos < 0

lemma stuck_seqRmVisit {x : KvCells} {i j : Nat} {p0 p1 : Int} (hp : 0 ≤ p0)
    (h : i ∈ x.used ∧ (x.cell i).pos < 0) :
    i ∈ (seqRmVisit b p0 p1 x j).1.used ∧ ((seqRmVisit b p0 p1 x j).1.cell i).pos < 0 := by
  unfold seqRmVisit
  split
  · rename_i hj
    have hne : j ≠ i := by
      rintro rfl
      have hin : p0 ≤ (x.cell j).pos := (of_decide_eq_true hj.1).1
      omega
    rw [KvCells.cell_seqRm, if_neg (fun hk => hne hk.1)]
    refine ⟨?_, h.2⟩
    unfold KvCells.seqRm
    simp only []
    split
    · exact Finset.mem_erase.2 ⟨hne.symm, h.1⟩
    · exact h.1
  · exact h

lemma Stuck.seqRm (hs : Shape kvSize c) {t i : Nat} (h : Stuck c t i) (p0 p1 : Int) :
    Stuck (c.seqRm (some b) p0 p1) t i := by
  have hpg := pagesOnly_seqRm c (some b) p0 p1
  have hlo : 0 ≤ rangeLo p0 := by
    unfold rangeLo
    split <;> omega
  unfold Stuck KvCache.cell
  rw [hpg.cellsOf, cellsOf_rmCells b p0 p1 hs]
  split
  · exact KvCells.sweep_induction
      (P := fun x : KvCells => i ∈ x.used ∧ (x.cell i).pos < 0) (fun x j hx => stuck_seqRmVisit hlo hx) h
  · exact h

lemma Stuck.purge (hs : Shape kvSize c) {t i : Nat} (h : Stuck c t i) (m : PosMaxRm) : Stuck (c.purge m) t i := by
  have hfold : Shape kvSize (c.purge m) ∧ Stuck (c.purge m) t i := by
    refine List.foldlRecOn (motive := fun d : KvCache => Shape kvSize d ∧ Stuck d t i) _ _ ⟨hs, h⟩ ?_
    intro d hd q _
    refine ⟨(keeps_purgeSeq _ _ _).shape hd.1, ?_⟩
    unfold purgeSeq
    simp only []
    split
    · exact hd.2.seqRm hd.1 _ _
    · exact hd.2
  exact hfold.2

lemma used_putToken_evictCell (x : KvCells) (k i : Nat) (m : PosMaxRm) :
    insert i x.used ⊆ (putToken u k i (evictCell x i m).1).used := by
  have hput : ∀ y : KvCells, (putToken u k i y).used = insert i y.used := by
    intro y
    rw [putToken_eq, used_foldl_seqAdd, putPos]
    split <;> rfl
  rw [hput]
  unfold evictCell
  split
  · exact Finset.Subset.refl _
  · intro j hj
    rw [Finset.mem_insert] at hj ⊢
    by_cases e : j = i
    · exact .inl e
    · exact .inr (Finset.mem_erase.2 ⟨e, hj.resolve_left e⟩)

lemma mem_used_foldl_applyToken {t i : Nat} (l : List (Nat × Nat × Nat)) (st : KvCache × PosMaxRm)
    (ht : t < st.1.vCells.length) (h : (∃ e ∈ l, e.2 = (t, i)) ∨ i ∈ (st.1.cellsOf t).used) :
    i ∈ ((l.foldl (applyToken u) st).1.cellsOf t).used := by
  induction l generalizing st with
  | nil => simpa using h
  | cons e l ih =>
    have hlen : t < (applyToken u st e).1.vCells.length := by
      simpa [applyToken, setCells] using ht
    refine ih _ hlen ?_
    have hmono : ∀ j, (e.2 = (t, j) ∨ j ∈ (st.1.cellsOf t).used) → j ∈ ((applyToken u st e).1.cellsOf t).used := by
      intro j hj
      unfold applyToken
      simp only []
      rw [cellsOf_setCells]
      split
      · rename_i het
        refine used_putToken_evictCell _ _ _ _ ?_
        rw [het.1]
        obtain hj | hj := hj
        · rw [hj]
          exact Finset.mem_insert_self _ _
        · exact Finset.mem_insert_of_mem hj
      · rename_i het
        refine hj.resolve_left fun hj => het ⟨?_, ht⟩
        rw [hj]
    obtain ⟨e', he', heq⟩ | hused := h
    · obtain rfl | he' := mem_cons.1 he'
      · exact .inr (hmono i (.inl heq))
      · exact .inl ⟨e', he', heq⟩
    · exact .inr (hmono i (.inr hused))

lemma stuck_applyUbatch (hs : Shape kvSize c) (hf : Found c n sl) (hnd : sl.strm.Nodup)
    {e : Nat × Nat × Nat} (he : e ∈ sl.entries) (hneg : u.pos.getD e.1 0 < 0) :
    Stuck (c.applyUbatch sl u) e.2.1 e.2.2 := by
  have hin : ∀ f ∈ sl.entries, f.2.1 < c.nStream ∧ f.2.2 < kvSize :=
    fun f hfm => hf.lt hs ⟨f, hfm, rfl⟩
  have htokens : Stuck (c.applyTokens sl u).1 e.2.1 e.2.2 := by
    refine ⟨mem_used_foldl_applyToken sl.entries _ ?_ (.inl ⟨e, he, rfl⟩), ?_⟩
    · rw [hs.cells]
      exact (hin e he).1
    · rw [cell_applyTokens hs hin (hf.nodup hnd), written_of_mem (hf.nodup hnd) he]
      exact hneg
  have hpurge := htokens.purge ((cellsOnly_applyTokens c sl u).shape hs) (c.applyTokens sl u).2
  unfold Stuck
  rw [KvCache.applyUbatch, cell_moveHeads, cellsOf, vCells_moveHeads]
  exact hpurge

lemma Stuck.not_tableOk {t i : Nat} (h : Stuck c t i) : ¬ TableOk (c.cellsOf t) := by
  intro hok
  have hnn := hok.nonneg i h.1
  have hneg := h.2
  unfold KvCache.cell at hneg
  omega

end Good

def parseStream (cell : Parse CellMeta) (data : Nat → Parse Unit) : Parse (List CellMeta) := do
  let n ← num .endOfInput 4
  if n = 0 then return []
  else
    let ms ← times cell n
    data n
    return ms

/-- A cell in an input for the whole cache or for a single sequence. -/
def cellParser (prm : KvParams) (seq : Option SeqId) : Parse CellMeta :=
  match seq with
  | none => parseCellAll prm.nPosPerEmbd prm.nSeqMax
  | some _ => parseCell prm.nPosPerEmbd

def parseState (st : KvState) (seq : Option SeqId) : Parse (List (List CellMeta)) := do
  let _ ← num .endOfInput 4
  times (parseStream (cellParser st.cache.toKvParams seq)
    (parseData st.cache.vTrans st.layers st.cache.getSize)) st.cache.nStream

def lastSection (secs : List (List CellMeta)) : Option (List CellMeta) :=
  (secs.filter fun ms => !ms.isEmpty).getLast?

/-- The sections whose cells are left in the end: for the whole cache the last one with cells. -/
def kept (seq : Option SeqId) (secs : List (List CellMeta)) : List (List CellMeta) :=
  match seq with
  | none => (lastSection secs).toList
  | some _ => secs

/-- An input whose cells have positions that are not negative and distinct sequences. -/
def InputOk (st : KvState) (seq : Option SeqId) (bs : List UInt8) : Prop :=
  st.cache.pgEnabled = false → ∀ secs rest, parseState st seq bs = .ok (secs, rest) →
    ∀ ms ∈ kept seq secs, ∀ m ∈ ms, m.Ok

section Sections
variable {kvSize t n : Nat} {st : KvState} {s s' : Session KvState} {seq : Option SeqId}

lemma readSection_eq_ok (h : readSection t n seq s = .ok () s') :
    ∃ sl s1, stateReadMeta t n seq s = .ok sl s1 ∧ stateReadData t n sl s1 = .ok () s' := by
  unfold readSection at h
  split at h
  · cases h
  · exact ReadM.bind_eq_ok.1 h

lemma stateReadData_eq_ok {sl : SlotInfo} (hpg : s.st.cache.pgEnabled = false)
    (h : stateReadData t n sl s = .ok () s') :
    parseData s.st.cache.vTrans s.st.layers (s.st.cache.cellsOf t).size n s.io = .ok ((), s'.io) ∧
      s'.st.cache = s.st.cache ∧ s'.st.layers = s.st.layers := by
  have hs : At s.st.cache s.st.layers s.st := ⟨rfl, rfl⟩
  obtain ⟨_, hp, -, hr⟩ := (follows_stateReadData _ _ _ hpg).of_run hs h
  exact ⟨hp, hr⟩

lemma readMetaAll_eq_ok {sl : SlotInfo} (h : readMetaAll t n s = .ok sl s') :
    ∃ ms, times (parseCellAll s.st.cache.nPosPerEmbd s.st.cache.nSeqMax) n s.io = .ok (ms, s'.io) ∧
      ms.length = n ∧ n ≤ (s.st.cache.cellsOf t).size ∧ s'.st = loadMeta t ms s.st := by
  unfold readMetaAll at h
  obtain ⟨_, _, h0, h⟩ := ReadM.bind_eq_ok.1 h
  cases h0
  split at h
  · cases h
  · rename_i hle
    obtain ⟨_, s1, h1, h⟩ := ReadM.bind_eq_ok.1 h
    cases h1
    obtain ⟨_, s2, h2, h⟩ := ReadM.bind_eq_ok.1 h
    obtain ⟨ms, hp, ⟨hlen, hst⟩, -⟩ := (follows_readCells n).of_run (params_clear s.st) h2
    cases h
    refine ⟨ms, hp, hlen, by omega, ?_⟩
    rw [hst]
    rfl

lemma readStream_none_eq_ok (hs : Shape kvSize s.st.cache) (hpg : s.st.cache.pgEnabled = false)
    (ht : t < s.st.cache.nStream) (h : readStream none t s = .ok () s') :
    ∃ ms, parseStream (cellParser s.st.cache.toKvParams none)
        (parseData s.st.cache.vTrans s.st.layers kvSize) s.io = .ok (ms, s'.io) ∧
      ms.length ≤ kvSize ∧ s'.st.layers = s.st.layers ∧
      s'.st.cache = if ms = [] then s.st.cache else (loadMeta t ms s.st).cache := by
  unfold readStream at h
  obtain ⟨n, s1, h1, h⟩ := ReadM.bind_eq_ok.1 h
  unfold lift at h1
  cases hn : num Fault.endOfInput 4 s.io with
  | error e =>
    rw [hn] at h1
    cases h1
  | ok r =>
    rw [hn] at h1
    cases h1
    unfold parseStream
    rw [ByteParser.bind_apply, hn]
    simp only []
    split at h
    · rename_i h0
      cases h
      exact ⟨[], by rw [if_pos h0]; rfl, Nat.zero_le _, rfl, rfl⟩
    · rename_i h0
      rw [ReadM.bind_apply] at h
      simp only [state] at h
      obtain ⟨sl, s2, hm, hd⟩ := readSection_eq_ok h
      obtain ⟨ms, hp, hlen, hle, hst⟩ := readMetaAll_eq_ok hm
      have hparams : s2.st.cache.toKvParams = s.st.cache.toKvParams := by
        rw [hst]
        exact (keeps_loadMeta t ms s.st).params
      have hlayers : s2.st.layers = s.st.layers := by rw [hst]; rfl
      have hsize : (s2.st.cache.cellsOf t).size = kvSize := by
        rw [hst]
        exact ((keeps_loadMeta t ms s.st).shape hs).size t (by
          rw [(keeps_loadMeta t ms s.st).params]; exact ht)
      obtain ⟨hdata, hc, hl⟩ := stateReadData_eq_ok (by rw [hparams]; exact hpg) hd
      rw [hparams, hlayers, hsize] at hdata
      rw [hs.size t ht] at hle
      refine ⟨ms, ?_, by omega, hl.trans hlayers, ?_⟩
      · rw [if_neg h0, ByteParser.bind_eq_ok]
        refine ⟨ms, s2.io, hp, ?_⟩
        rw [ByteParser.bind_eq_ok]
        exact ⟨(), s'.io, hdata, rfl⟩
      · have hne : ms ≠ [] := by
          rintro rfl
          exact h0 hlen.symm
        rw [hc, hst, if_neg hne]

lemma lastSection_cons (ms : List CellMeta) (secs : List (List CellMeta)) :
    lastSection (ms :: secs) = (lastSection secs).or (if ms = [] then none else some ms) := by
  unfold lastSection
  cases ms with
  | nil => simp
  | cons m ms =>
    rw [filter_cons_of_pos (by simp), getLast?_cons]
    cases (secs.filter fun ms => !ms.isEmpty).getLast? <;> simp

lemma readStreams_none_eq_ok {l : List Nat} (hs : Shape kvSize s.st.cache)
    (hpg : s.st.cache.pgEnabled = false) (hl : ∀ t ∈ l, t < s.st.cache.nStream)
    (h : l.forM (readStream none) s = .ok () s') :
    ∃ secs, times (parseStream (cellParser s.st.cache.toKvParams none)
        (parseData s.st.cache.vTrans s.st.layers kvSize)) l.length s.io = .ok (secs, s'.io) ∧
      (lastSection secs = none → s'.st.cache = s.st.cache) ∧
      ∀ ms, lastSection secs = some ms → ms.length ≤ kvSize ∧ ∃ d : KvState, Shape kvSize d.cache ∧
        ∃ t < d.cache.nStream, s'.st.cache = (loadMeta t ms d).cache := by
  induction l generalizing s with
  | nil =>
    cases h
    exact ⟨[], rfl, fun _ => rfl, fun ms hms => by simp [lastSection] at hms⟩
  | cons t l ih =>
    simp only [mem_cons, forall_eq_or_imp] at hl
    obtain ⟨_, s1, h1, h2⟩ := ReadM.bind_eq_ok.1 h
    obtain ⟨ms, hp, hlen, hlay, hc⟩ := readStream_none_eq_ok hs hpg hl.1 h1
    have hkeep : Keeps s.st.cache s1.st.cache := by
      rw [hc]
      split
      · exact Keeps.refl _
      · exact keeps_loadMeta t ms s.st
    have hparams := hkeep.params
    obtain ⟨secs, hps, hnone, hsome⟩ := ih (hkeep.shape hs) (by rw [hparams]; exact hpg)
      (by rw [hparams]; exact hl.2) h2
    rw [hparams, hlay] at hps
    refine ⟨ms :: secs, ?_, ?_, ?_⟩
    · rw [length_cons, times, ByteParser.bind_eq_ok]
      refine ⟨ms, s1.io, hp, ?_⟩
      rw [ByteParser.bind_eq_ok]
      exact ⟨secs, s'.io, hps, rfl⟩
    · intro hlast
      rw [lastSection_cons, Option.or_eq_none_iff] at hlast
      have hnil : ms = [] := by
        by_contra hne
        simp [hne] at hlast
      rw [hnone hlast.1, hc, if_pos hnil]
    · intro ms' hlast
      rw [lastSection_cons] at hlast
      cases hsec : lastSection secs with
      | some x =>
        rw [hsec] at hlast
        cases hlast
        exact hsome _ hsec
      | none =>
        rw [hsec, Option.none_or] at hlast
        by_cases hne : ms = []
        · simp [hne] at hlast
        · rw [if_neg hne] at hlast
          cases hlast
          rw [if_neg hne] at hc
          exact ⟨hlen, s.st, hs, t, hl.1, (hnone hsec).trans hc⟩

lemma readMetaSeq_eq_ok {b : SeqId} {sl : SlotInfo} (h : readMetaSeq n b s = .ok sl s') :
    ∃ ms, times (parseCell s.st.cache.nPosPerEmbd) n s.io = .ok (ms, s'.io) ∧ ms.length = n ∧
      (s.st.cache.seqRm (some b) (-1) (-1)).findSlot
        (restoreUbatch s.st.cache.nPosPerEmbd b ms) false = .ok (some sl) ∧
      s'.st = s.st.setCache ((s.st.cache.seqRm (some b) (-1) (-1)).applyUbatch sl
        (restoreUbatch s.st.cache.nPosPerEmbd b ms)) := by
  have hnp : (s.st.cache.seqRm (some b) (-1) (-1)).nPosPerEmbd = s.st.cache.nPosPerEmbd :=
    congrArg KvParams.nPosPerEmbd (keeps_seqRm s.st.cache (some b) (-1) (-1)).params
  unfold readMetaSeq at h
  rw [ReadM.bind_apply] at h
  simp only [update] at h
  rw [ReadM.bind_apply] at h
  simp only [state, setCache, hnp] at h
  obtain ⟨ms, s1, h1, h⟩ := ReadM.bind_eq_ok.1 h
  unfold lift at h1
  cases hp : times (parseCell s.st.cache.nPosPerEmbd) n s.io with
  | error e =>
    rw [hp] at h1
    cases h1
  | ok r =>
    rw [hp] at h1
    cases h1
    cases hslot : (s.st.cache.seqRm (some b) (-1) (-1)).findSlot
        (restoreUbatch s.st.cache.nPosPerEmbd b r.1) false with
    | error e =>
      rw [hslot] at h
      cases h
    | ok o =>
      rw [hslot] at h
      cases o with
      | none => cases h
      | some sl' =>
        simp only [ReadM.bind_apply, update, state] at h
        split at h
        · cases h
          exact ⟨_, rfl, length_of_times hp, hslot, rfl⟩
        · cases h

lemma ids_of_parseCell {nPos : Nat} {bs rest : List UInt8} {m : CellMeta}
    (h : parseCell nPos bs = .ok (m, rest)) : ∃ id, m.ids = [id] := by
  unfold parseCell at h
  obtain ⟨pos, _, _, h⟩ := ByteParser.bind_eq_ok.1 h
  obtain ⟨k, _, _, h⟩ := ByteParser.bind_eq_ok.1 h
  obtain ⟨_, _, _, h⟩ := ByteParser.bind_eq_ok.1 h
  obtain ⟨e, _, _, h⟩ := ByteParser.bind_eq_ok.1 h
  obtain ⟨id, _, _, h⟩ := ByteParser.bind_eq_ok.1 h
  cases h
  exact ⟨id, rfl⟩

/-- Applying the cells of a section to the cache. -/
structure Placed (c : KvCache) (b : SeqId) (ms : List CellMeta) (c' : KvCache) : Prop where
  ids : ∀ m ∈ ms, ∃ id, m.ids = [id]
  slot : ∃ sl, (c.seqRm (some b) (-1) (-1)).findSlot (restoreUbatch c.nPosPerEmbd b ms) false = .ok (some sl) ∧
    c' = (c.seqRm (some b) (-1) (-1)).applyUbatch sl (restoreUbatch c.nPosPerEmbd b ms)

lemma Placed.keeps {c c' : KvCache} {b : SeqId} {ms : List CellMeta} (h : Placed c b ms c') : Keeps c c' := by
  obtain ⟨sl, _, rfl⟩ := h.slot
  exact (keeps_seqRm c (some b) (-1) (-1)).trans (keeps_applyUbatch _ _ _)

lemma readStream_some_eq_ok {b : SeqId} (hs : Shape kvSize s.st.cache)
    (hpg : s.st.cache.pgEnabled = false) (h : readStream (some b) t s = .ok () s') :
    ∃ ms, parseStream (cellParser s.st.cache.toKvParams (some b))
        (parseData s.st.cache.vTrans s.st.layers kvSize) s.io = .ok (ms, s'.io) ∧ s'.st.layers = s.st.layers ∧
      (ms = [] ∧ s'.st.cache = s.st.cache ∨ ms ≠ [] ∧ Placed s.st.cache b ms s'.st.cache) := by
  unfold readStream at h
  obtain ⟨n, s1, h1, h⟩ := ReadM.bind_eq_ok.1 h
  unfold lift at h1
  cases hn : num Fault.endOfInput 4 s.io with
  | error e =>
    rw [hn] at h1
    cases h1
  | ok r =>
    rw [hn] at h1
    cases h1
    unfold parseStream
    rw [ByteParser.bind_apply, hn]
    simp only []
    split at h
    · rename_i h0
      cases h
      exact ⟨[], by rw [if_pos h0]; rfl, rfl, .inl ⟨rfl, rfl⟩⟩
    · rename_i h0
      rw [ReadM.bind_apply] at h
      simp only [state] at h
      obtain ⟨sl, s2, hm, hd⟩ := readSection_eq_ok h
      obtain ⟨ms, hp, hlen, hslot, hst⟩ := readMetaSeq_eq_ok hm
      have hplaced : Placed s.st.cache b ms s2.st.cache := by
        refine ⟨fun m hm => ?_, sl, hslot, by rw [hst]; rfl⟩
        obtain ⟨_, _, hcell⟩ := exists_of_mem_times hp hm
        exact ids_of_parseCell hcell
      have hparams : s2.st.cache.toKvParams = s.st.cache.toKvParams := hplaced.keeps.params
      have hlayers : s2.st.layers = s.st.layers := by rw [hst]; rfl
      have hsize : (s2.st.cache.cellsOf (s.st.cache.seqToStream b)).size = kvSize :=
        (hplaced.keeps.shape hs).size _ (by rw [hparams]; exact s.st.cache.seqToStream_lt hs.streams b)
      obtain ⟨hdata, hc, hl⟩ := stateReadData_eq_ok (by rw [hparams]; exact hpg) hd
      rw [hparams, hlayers, hsize] at hdata
      refine ⟨ms, ?_, hl.trans hlayers, .inr ⟨?_, ?_⟩⟩
      · rw [if_neg h0, ByteParser.bind_eq_ok]
        refine ⟨ms, s2.io, hp, ?_⟩
        rw [ByteParser.bind_eq_ok]
        exact ⟨(), s'.io, hdata, rfl⟩
      · rintro rfl
        exact h0 hlen.symm
      · rw [hc]
        exact hplaced

end Sections

section Placed
variable {kvSize : Nat} {c c' : KvCache} {b : SeqId} {ms : List CellMeta}

lemma pos_restoreUbatch {nPos k : Nat} (hk : k < ms.length) :
    (restoreUbatch nPos b ms).pos.getD k 0 = (ms[k]).pos := by
  rw [restoreUbatch, getD_append _ _ _ _ (by simpa using hk)]
  simp [hk]

lemma found_restore {sl : SlotInfo} (h : Wf kvSize c) (hne : ms ≠ [])
    (hslot : c.findSlot (restoreUbatch c.nPosPerEmbd b ms) false = .ok (some sl)) :
    Found c ms.length sl ∧ 0 < ms.length ∧ sl.strm = [c.seqToStream b] ∧ ∀ e ∈ sl.entries, e.1 < ms.length := by
  obtain ⟨hf, hstrm⟩ := found_of_findSlot h.shape h.head_le hslot
  have hseqs : c.slotSeqs (restoreUbatch c.nPosPerEmbd b ms) = [b] := by
    unfold slotSeqs
    split <;> rfl
  have htok : c.slotTokens (restoreUbatch c.nPosPerEmbd b ms) = ms.length := by
    unfold slotTokens
    split
    · exact Nat.div_one _
    · rfl
  have hlt := fun e he => lt_nTokens_of_mem_entries hf hstrm (e := e) he
  rw [htok] at hf
  exact ⟨hf, length_pos_iff.2 hne, by rw [hstrm, hseqs]; rfl, hlt⟩

lemma Placed.good (h : Placed c b ms c') (hc : Good kvSize c) (hne : ms ≠ [])
    (hok : ∀ m ∈ ms, m.Ok) : Good kvSize c' := by
  obtain ⟨sl, hslot, rfl⟩ := h.slot
  have hrm : Good kvSize (c.seqRm (some b) (-1) (-1)) := hc.seqRm _ _
  have hnp : c.nPosPerEmbd = (c.seqRm (some b) (-1) (-1)).nPosPerEmbd :=
    (congrArg KvParams.nPosPerEmbd (keeps_seqRm c (some b) (-1) (-1)).params).symm
  rw [hnp] at hslot ⊢
  obtain ⟨hf, hn, hstrm, hlt⟩ := found_restore hrm.wf hne hslot
  refine hrm.applyUbatch hf hn (by rw [hstrm]; exact nodup_singleton _) fun e he => ?_
  have hk := hlt e he
  refine ⟨?_, ?_⟩
  · rw [pos_restoreUbatch hk]
    exact (hok _ (getElem_mem hk)).1
  · have hids : (restoreUbatch (c.seqRm (some b) (-1) (-1)).nPosPerEmbd b ms).seqId.getD e.1 [] = [b] := by
      simp [restoreUbatch, hk]
    rw [hids]
    exact nodup_singleton b

lemma Placed.nonneg (h : Placed c b ms c') (hc : Good kvSize c) (hne : ms ≠ [])
    (hok : ∀ t, TableOk (c'.cellsOf t)) {m : CellMeta} (hm : m ∈ ms) : 0 ≤ m.pos := by
  obtain ⟨sl, hslot, rfl⟩ := h.slot
  have hrm : Good kvSize (c.seqRm (some b) (-1) (-1)) := hc.seqRm _ _
  have hnp : c.nPosPerEmbd = (c.seqRm (some b) (-1) (-1)).nPosPerEmbd :=
    (congrArg KvParams.nPosPerEmbd (keeps_seqRm c (some b) (-1) (-1)).params).symm
  rw [hnp] at hslot hok
  obtain ⟨hf, hn, hstrm, hlt⟩ := found_restore hrm.wf hne hslot
  obtain ⟨k, hk, rfl⟩ := getElem_of_mem hm
  obtain ⟨js, -, -, hent⟩ := hf.single hstrm
  have he : (k, (c.seqRm (some b) (-1) (-1)).seqToStream b, js.getD k 0) ∈ sl.entries := by
    rw [hent]
    exact mem_map.2 ⟨k, mem_range.2 hk, rfl⟩
  by_contra hneg
  have hpos : (restoreUbatch (c.seqRm (some b) (-1) (-1)).nPosPerEmbd b ms).pos.getD k 0 < 0 := by
    rw [pos_restoreUbatch hk]
    omega
  have hstuck := stuck_applyUbatch hrm.wf.shape hf (by rw [hstrm]; exact nodup_singleton _) he hpos
  exact hstuck.not_tableOk (hok _)

lemma Placed.nodup (h : Placed c b ms c') {m : CellMeta} (hm : m ∈ ms) : m.seqs.Nodup := by
  obtain ⟨id, hid⟩ := h.ids m hm
  rw [CellMeta.seqs, hid]
  exact nodup_singleton _

end Placed

section Main
variable {kvSize : Nat} {st : KvState} {bs : List UInt8} {s s' : Session KvState} {b : SeqId}

def PlacedAll (b : SeqId) : KvCache → List (List CellMeta) → KvCache → Prop
  | c, [], c' => c' = c
  | c, ms :: secs, c' => ∃ d, (ms = [] ∧ d = c ∨ ms ≠ [] ∧ Placed c b ms d) ∧ PlacedAll b d secs c'

lemma readStreams_some_eq_ok {l : List Nat} (hs : Shape kvSize s.st.cache)
    (hpg : s.st.cache.pgEnabled = false) (h : l.forM (readStream (some b)) s = .ok () s') :
    ∃ secs, times (parseStream (cellParser s.st.cache.toKvParams (some b))
        (parseData s.st.cache.vTrans s.st.layers kvSize)) l.length s.io = .ok (secs, s'.io) ∧
      PlacedAll b s.st.cache secs s'.st.cache := by
  induction l generalizing s with
  | nil =>
    cases h
    exact ⟨[], rfl, rfl⟩
  | cons t l ih =>
    obtain ⟨_, s1, h1, h2⟩ := ReadM.bind_eq_ok.1 h
    obtain ⟨ms, hp, hlay, hcases⟩ := readStream_some_eq_ok hs hpg h1
    have hkeep : Keeps s.st.cache s1.st.cache := by
      obtain ⟨_, hcache⟩ | ⟨_, hplaced⟩ := hcases
      · rw [hcache]
        exact Keeps.refl _
      · exact hplaced.keeps
    have hparams := hkeep.params
    obtain ⟨secs, hps, hall⟩ := ih (hkeep.shape hs) (by rw [hparams]; exact hpg) h2
    rw [hparams, hlay] at hps
    refine ⟨ms :: secs, ?_, s1.st.cache, hcases, hall⟩
    rw [length_cons, times, ByteParser.bind_eq_ok]
    refine ⟨ms, s1.io, hp, ?_⟩
    rw [ByteParser.bind_eq_ok]
    exact ⟨secs, s'.io, hps, rfl⟩

lemma PlacedAll.good {c c' : KvCache} {secs : List (List CellMeta)} (h : PlacedAll b c secs c')
    (hc : Good kvSize c) (hok : ∀ ms ∈ secs, ∀ m ∈ ms, m.Ok) : Good kvSize c' := by
  induction secs generalizing c with
  | nil =>
    rw [show c' = c from h]
    exact hc
  | cons ms secs ih =>
    simp only [mem_cons, forall_eq_or_imp] at hok
    obtain ⟨d, hcases, hall⟩ := h
    refine ih hall ?_ hok.2
    obtain ⟨_, rfl⟩ | ⟨hne, hplaced⟩ := hcases
    · exact hc
    · exact hplaced.good hc hne hok.1

lemma PlacedAll.ok {c c' : KvCache} {secs : List (List CellMeta)} (h : PlacedAll b c secs c')
    (hc : Good kvSize c) (hlen : secs.length = 1) (hok : ∀ t, TableOk (c'.cellsOf t)) :
    ∀ ms ∈ secs, ∀ m ∈ ms, m.Ok := by
  obtain ⟨ms, rfl⟩ := length_eq_one_iff.1 hlen
  obtain ⟨d, hcases, hd⟩ := h
  obtain rfl : c' = d := hd
  intro ms' hms m hm
  obtain rfl := mem_singleton.1 hms
  obtain ⟨rfl, _⟩ | ⟨hne, hplaced⟩ := hcases
  · simp at hm
  · exact ⟨hplaced.nonneg hc hne hok hm, hplaced.nodup hm⟩

lemma tableOk_loadMeta_iff {t : Nat} {ms : List CellMeta} (hs : Shape kvSize st.cache)
    (ht : t < st.cache.nStream) (hlen : ms.length ≤ kvSize) :
    (∀ u, TableOk ((loadMeta t ms st).cache.cellsOf u)) ↔ ∀ m ∈ ms, m.Ok := by
  rw [← hs.size t ht] at hlen
  rw [← tableOk_placeAll_iff (x := st.cache.cellsOf t) hlen]
  constructor
  · intro h
    have ht' := h t
    rwa [cellsOf_loadMeta hs ht] at ht'
  · intro h u
    by_cases hu : u = t
    · subst hu
      rw [cellsOf_loadMeta hs ht]
      exact h
    · have hcells : (loadMeta t ms st).cache.cellsOf u = st.cache.clear.cellsOf u := by
        show (st.clear.cache.setCells t _).cellsOf u = _
        rw [cellsOf_setCells, if_neg (fun hk => hu hk.1.symm)]
        rfl
      rw [hcells]
      by_cases hlt : u < st.cache.nStream
      · rw [cellsOf_clear hs hlt]
        exact tableOk_reset _
      · rw [cellsOf, getD_eq_default _ _ (by
          rw [((keeps_clear st.cache).shape hs).cells, (keeps_clear st.cache).params]; omega)]
        exact tableOk_reset {}

lemma stateRead_eq_ok {seq : Option SeqId} (hpg : st.cache.pgEnabled = false)
    (hok : stateRead seq ⟨bs, st⟩ = .ok () s') : ∃ k rest, num Fault.endOfInput 4 bs = .ok (k, rest) ∧
      (List.range st.cache.nStream).forM (readStream seq) ⟨rest, st⟩ = .ok () s' := by
  unfold stateRead at hok
  rw [ReadM.bind_apply] at hok
  simp only [state, hpg, Bool.false_eq_true, if_false] at hok
  obtain ⟨k, s1, h1, hok⟩ := ReadM.bind_eq_ok.1 hok
  unfold lift at h1
  cases hn : num Fault.endOfInput 4 bs with
  | error e =>
    simp only [hn] at h1
    cases h1
  | ok r =>
    simp only [hn] at h1
    cases h1
    split at hok
    · cases hok
    · exact ⟨r.1, r.2, rfl, hok⟩

lemma inputOk_iff {seq : Option SeqId} (hs : Shape kvSize st.cache) (hpg : st.cache.pgEnabled = false)
    {k : Nat} {mid rest : List UInt8} (hn : num Fault.endOfInput 4 bs = .ok (k, mid)) {secs : List (List CellMeta)}
    (hp : times (parseStream (cellParser st.cache.toKvParams seq)
      (parseData st.cache.vTrans st.layers kvSize)) (List.range st.cache.nStream).length mid = .ok (secs, rest)) :
    InputOk st seq bs ↔ ∀ ms ∈ kept seq secs, ∀ m ∈ ms, m.Ok := by
  have hparse : parseState st seq bs = .ok (secs, rest) := by
    unfold parseState
    rw [ByteParser.bind_apply, hn, getSize_eq hs]
    rw [length_range] at hp
    exact hp
  constructor
  · exact fun h => h hpg secs rest hparse
  · intro h _ secs' rest' hp'
    rw [hparse] at hp'
    cases hp'
    exact h

/-- What an accepted input leaves behind. -/
theorem accepted_tableOk_iff (hc : Good kvSize st.cache) {seq : Option SeqId}
    (hok : stateRead seq ⟨bs, st⟩ = .ok () s') : (InputOk st seq bs → ∀ t, TableOk (s'.st.cache.cellsOf t)) ∧
      (seq = none ∨ st.cache.nStream = 1 → (∀ t, TableOk (s'.st.cache.cellsOf t)) → InputOk st seq bs) := by
  have hs := hc.wf.shape
  cases hpg : st.cache.pgEnabled with
  | true =>
    -- nothing is read
    unfold stateRead at hok
    rw [ReadM.bind_apply] at hok
    simp only [state, hpg, if_true] at hok
    cases hok
    exact ⟨fun _ => hc.tableOk, fun _ _ hoff => absurd (hpg.symm.trans hoff) (by decide)⟩
  | false =>
    obtain ⟨k, mid, hn, hrun⟩ := stateRead_eq_ok hpg hok
    cases seq with
    | none =>
      obtain ⟨secs, hp, hnone, hsome⟩ := readStreams_none_eq_ok (s := ⟨mid, st⟩) hs hpg
        (fun t ht => mem_range.1 ht) hrun
      rw [inputOk_iff hs hpg hn hp]
      cases hlast : lastSection secs with
      | none =>
        rw [hnone hlast]
        exact ⟨fun _ => hc.tableOk, fun _ _ => by simp [kept, hlast]⟩
      | some ms =>
        obtain ⟨hlen, d, hd, t, ht, hcache⟩ := hsome ms hlast
        rw [hcache, tableOk_loadMeta_iff hd ht hlen]
        simp [kept, hlast]
    | some b =>
      obtain ⟨secs, hp, hall⟩ := readStreams_some_eq_ok (s := ⟨mid, st⟩) hs hpg hrun
      have hlen := length_of_times hp
      rw [length_range] at hlen
      rw [inputOk_iff hs hpg hn hp]
      refine ⟨fun h => (hall.good hc h).tableOk, fun hone h => ?_⟩
      exact hall.ok hc (hlen.trans (hone.resolve_left (by simp))) h

end Main

end KvState

namespace Blank
open KvState

/-- An empty cache of four cells in one stream, without layers. -/
def state : KvState where
  cache := KvCache.init false true false 4 2 0 .none 1 0
  layers := []
  k _ _ := 0
  v _ _ := 0

/-- An input for the whole cache: one cell of sequence 0 at position `p`, and no data. -/
def input (p : Int) : List UInt8 :=
  leBytes 4 1 ++ (leBytes 4 1 ++ (i32Bytes p ++ (leBytes 4 1 ++ (i32Bytes 0 ++ (leBytes 4 0 ++ leBytes 4 0)))))

lemma good_state : Good 4 state.cache where
  wf := (KvCache.steady_init _ _ _ 4 _ _ _ _ (by decide)).wf
  nonneg t i := by
    rw [show state.cache.cell t i = {} from KvCache.cell_init _ _ _ _ _ _ _ _ _ t i]
    exact .inl rfl

/-- The outcome of reading, as far as it is needed here: was the input accepted, and the first cell. -/
def outcome (p : Int) : Option (Bool × Int) :=
  match stateRead none ⟨input p, state⟩ with
  | .ok _ s => some (decide (0 ∈ (s.st.cache.cellsOf 0).used), (s.st.cache.cell 0 0).pos)
  | .error _ _ => none

lemma computed : outcome 5 = some (true, 5) ∧ outcome (-2) = some (true, -2) ∧
    parseState state none (input 5) = .ok ([[{ pos := 5, ids := [0] }]], []) := by
  decide +kernel

lemma exists_ok {p : Int} {r : Bool × Int} (h : outcome p = some r) :
    ∃ s, stateRead none ⟨input p, state⟩ = .ok () s ∧
      r = (decide (0 ∈ (s.st.cache.cellsOf 0).used), (s.st.cache.cell 0 0).pos) := by
  unfold outcome at h
  split at h
  · rename_i s hs
    exact ⟨s, hs, (Option.some.inj h).symm⟩
  · cases h

end Blank

open Blank in
/-- An input with a proper position is accepted and leaves tables in order. -/
theorem KvState.accepted_tableOk_iff_cell : ∃ s, stateRead none ⟨input 5, state⟩ = .ok () s ∧
    ∀ t, TableOk (s.st.cache.cellsOf t) := by
  obtain ⟨h5, _, hparse⟩ := computed
  obtain ⟨s, hs, _⟩ := exists_ok h5
  refine ⟨s, hs, (accepted_tableOk_iff good_state hs).1 fun _ secs rest hp => ?_⟩
  rw [hparse] at hp
  cases hp
  intro ms hms m hm
  obtain rfl : ms = [{ pos := 5, ids := [0] }] := by simpa [kept, lastSection] using hms
  obtain rfl := mem_singleton.1 hm
  exact ⟨by decide, nodup_singleton _⟩

open Blank in
/-- An input with position `-2` is accepted as well, and leaves a used cell with that position. -/
theorem KvState.accepts_negative_position : ¬ ∀ (kvSize : Nat) (st : KvState) (seq : Option SeqId)
    (bs : List UInt8) (s : Session KvState), Good kvSize st.cache →
      stateRead seq ⟨bs, st⟩ = .ok () s → ∀ t, TableOk (s.st.cache.cellsOf t) := by
  intro hall
  obtain ⟨_, hneg, _⟩ := computed
  obtain ⟨s, hs, hr⟩ := exists_ok hneg
  obtain ⟨hused, hpos⟩ := Prod.mk.inj hr
  have hnn := (hall 4 state none _ s good_state hs 0).nonneg 0 (of_decide_eq_true hused.symm)
  unfold KvCache.cell at hpos
  omega

end Mallana
