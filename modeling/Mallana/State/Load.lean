import Mallana.State.Data
import Mathlib.Data.List.Zip

/-!
# The reader as a parser

What `state_read` does with any input. The cells of the whole cache are read by `readCell` one field at
a time, with the cell table changed in between; `follows_readCells` says that this is the parser
`parseCellAll` followed by `placeMeta` on each cell, and that a failure leaves what was placed before
it. The data part follows the parser `parseData` and does not touch the cells at all.
-/

namespace Mallana

open Lib List

namespace KvState

open ByteParser ReadM KvCache

def parseSeqId (nSeqMax : Nat) : Parse Int := do
  let id ← i32 .endOfInput
  require .rejected (0 ≤ id ∧ id < nSeqMax)
  return id

def parseCellAll (nPos nSeqMax : Nat) : Parse CellMeta := do
  let pos ← i32 .endOfInput
  let nSeqId ← num .endOfInput 4
  let ext ← parseExtIf nPos
  let ids ← times (parseSeqId nSeqMax) nSeqId
  return { pos, ext, ids }

def placeExt (nPos k : Nat) (e : KvCellExt) (x : KvCells) : KvCells :=
  if 1 < nPos then x.extSet k e else x

def placeIds (k : Nat) (ids : List Int) (x : KvCells) : KvCells :=
  ids.foldl (fun x id => x.seqAdd k (seqIdOf id)) x

def placeMeta (nPos k : Nat) (m : CellMeta) (x : KvCells) : KvCells :=
  placeIds k m.ids (placeExt nPos k m.ext (x.posSet k m.pos))

def placeAll (nPos : Nat) (ms : List CellMeta) (x : KvCells) : KvCells :=
  ms.zipIdx.foldl (fun x mk => placeMeta nPos mk.2 mk.1 x) x

section Stream
variable (st : KvState) (t : Nat)

lemma setStream_setStream (f g : KvCells → KvCells) :
    (st.setStream t f).setStream t g = st.setStream t fun x => g (f x) := by
  have hcells : ((st.cache.setCells t (f (st.cache.cellsOf t))).setCells t
      (g ((st.cache.setCells t (f (st.cache.cellsOf t))).cellsOf t))) =
      st.cache.setCells t (g (f (st.cache.cellsOf t))) := by
    rw [cellsOf_setCells]
    unfold setCells
    congr 1
    by_cases ht : t < st.cache.vCells.length
    · rw [if_pos ⟨rfl, ht⟩, modify_modify_eq]
      rfl
    · have hle := Nat.le_of_not_lt ht
      rw [modify_eq_self hle, modify_eq_self hle, modify_eq_self hle]
  unfold setStream setCache
  rw [← hcells]

lemma setStream_self : (st.setStream t fun x => x) = st := by
  have hcells : st.cache.setCells t (st.cache.cellsOf t) = st.cache := by
    unfold setCells cellsOf
    congr 1
    refine ext_getElem (by simp) ?_
    intro i h1 h2
    rw [getElem_modify]
    split
    · rename_i hi
      subst hi
      exact getD_eq_getElem _ _ h2
    · rfl
  unfold setStream setCache
  rw [hcells]

lemma foldl_setStream {γ : Type} (f : γ → KvCells → KvCells) (l : List γ) :
    l.foldl (fun st c => st.setStream t (f c)) st = st.setStream t fun x => l.foldl (fun x c => f c x) x := by
  induction l generalizing st with
  | nil => exact (setStream_self st t).symm
  | cons c l ih => rw [foldl_cons, ih, setStream_setStream]; rfl

end Stream

/-- How the state may move while cells are placed in stream `t`. -/
structure Grows (t : Nat) (st st' : KvState) : Prop where
  keeps : Keeps st.cache st'.cache
  layers : st'.layers = st.layers
  used : (st.cache.cellsOf t).used ⊆ (st'.cache.cellsOf t).used

lemma frame_grows (t : Nat) (prm : KvParams) :
    Frame (fun st : KvState => st.cache.toKvParams = prm) (Grows t) where
  refl _ := ⟨Keeps.refl _, rfl, Finset.Subset.refl _⟩
  trans h1 h2 := ⟨h1.keeps.trans h2.keeps, h2.layers.trans h1.layers, h1.used.trans h2.used⟩
  inv h hp := h.keeps.params.trans hp

lemma grows_setStream {t : Nat} {f : KvCells → KvCells} (hsize : ∀ x, (f x).size = x.size)
    (hused : ∀ x, x.used ⊆ (f x).used) (st : KvState) : Grows t st (st.setStream t f) := by
  refine ⟨⟨rfl, fun h => h.setCells (hsize _)⟩, rfl, ?_⟩
  show _ ⊆ ((st.cache.setCells t (f (st.cache.cellsOf t))).cellsOf t).used
  rw [cellsOf_setCells]
  split
  · exact hused _
  · exact Finset.Subset.refl _

section Cells
variable {t k : Nat} {prm : KvParams}

lemma follows_readSeqId : Follows (fun st => st.cache.toKvParams = prm) (Grows t) (readSeqId t k)
    (parseSeqId prm.nSeqMax) fun id st st' => st' = st.setStream t fun x => x.seqAdd k (seqIdOf id) := by
  refine follows_lift_bind (frame_grows t prm) fun id => ?_
  intro s hs
  have hmax : s.st.cache.nSeqMax = prm.nSeqMax := by rw [← hs]
  rw [ByteParser.bind_apply, ReadM.bind_apply]
  simp only [state, hmax]
  by_cases hid : 0 ≤ id ∧ id < (prm.nSeqMax : Int)
  · have hno : ¬ (id < 0 ∨ (prm.nSeqMax : Int) ≤ id) := by omega
    simp only [require, hid, hno, if_false]
    refine ⟨_, rfl, rfl, grows_setStream (fun x => ?_) (fun x => ?_) _⟩
    · simp [KvCells.size, KvCells.seqAdd, KvCells.seqPosInc, KvCells.putCell]
    · exact Finset.Subset.refl _
  · have hyes : id < 0 ∨ (prm.nSeqMax : Int) ≤ id := by omega
    simp only [require, hid, hyes, if_true]
    exact ⟨_, rfl, (frame_grows t prm).refl _⟩

lemma follows_readExt : Follows (fun st => st.cache.toKvParams = prm) (Grows t) (readExt t k)
    (parseExtIf prm.nPosPerEmbd) fun e st st' => st' = st.setStream t (placeExt prm.nPosPerEmbd k e) := by
  have F := frame_grows t prm
  intro s hs
  unfold readExt parseExtIf placeExt
  rw [ReadM.bind_apply]
  simp only [state, hs]
  by_cases hn : 1 < prm.nPosPerEmbd
  · have hset : Follows (fun st : KvState => st.cache.toKvParams = prm) (Grows t)
        (lift parseExt >>= fun e => update fun st => st.setStream t fun x => x.extSet k e : Read Unit)
        parseExt fun e st st' => st' = st.setStream t fun x => x.extSet k e :=
      follows_lift_update F fun e st _ =>
        ⟨rfl, grows_setStream (fun x => x.size_extSet k e) (fun x => Finset.Subset.refl _) st⟩
    simp only [hn, if_true]
    exact hset s hs
  · simp only [hn, if_false]
    exact ⟨s.st, rfl, (setStream_self _ t).symm, F.refl _⟩

lemma follows_readIds (n : Nat) : Follows (fun st => st.cache.toKvParams = prm) (Grows t)
    ((List.range n).forM fun _ => readSeqId t k) (times (parseSeqId prm.nSeqMax) n)
    fun ids st st' => st' = st.setStream t (placeIds k ids) := by
  have h := follows_times (l := List.range n) (frame_grows t prm)
    fun _ _ => follows_readSeqId (t := t) (k := k)
  rw [length_range] at h
  refine h.mono ?_
  rintro ids st _ ⟨hlen, rfl⟩
  rw [foldl_setStream]
  refine congrArg (st.setStream t) (funext fun x => ?_)
  have hsnd : ((List.range n).zip ids).map Prod.snd = ids := map_snd_zip (by simp [hlen])
  unfold placeIds
  rw [← foldl_map (f := Prod.snd) (g := fun x id => KvCells.seqAdd x k (seqIdOf id)), hsnd]

lemma follows_readCellTail (pos : Int) (n : Nat) : Follows (fun st => st.cache.toKvParams = prm) (Grows t)
      (readExt t k >>= fun _ => (List.range n).forM fun _ => readSeqId t k) (do
        let ext ← parseExtIf prm.nPosPerEmbd let ids ← times (parseSeqId prm.nSeqMax) n
        return ({ pos, ext, ids } : CellMeta)) fun m st st' => m.pos = pos ∧
        st' = st.setStream t fun x => placeIds k m.ids (placeExt prm.nPosPerEmbd k m.ext x) := by
  refine follows_readExt.bind (frame_grows t prm) (W := fun e m st st' => m.pos = pos ∧ m.ext = e ∧
    st' = st.setStream t (placeIds k m.ids)) (fun e => ?_) ?_
  · exact (follows_readIds n).map _ fun h => ⟨rfl, rfl, h⟩
  · rintro e m st _ _ rfl ⟨hpos, rfl, rfl⟩
    exact ⟨hpos, setStream_setStream _ _ _ _⟩

lemma grows_posSet (pos : Int) (st : KvState) : Grows t st (st.setStream t fun x => x.posSet k pos) :=
  grows_setStream (fun x => x.size_posSet k pos) (fun _ => Finset.subset_insert _ _) st

lemma follows_readCell : Follows (fun st => st.cache.toKvParams = prm) (Grows t) (readCell t k)
    (parseCellAll prm.nPosPerEmbd prm.nSeqMax)
    fun m st st' => st' = st.setStream t (placeMeta prm.nPosPerEmbd k m) := by
  have F := frame_grows t prm
  refine follows_lift_bind F fun pos => follows_lift_bind F fun n => ?_
  refine (follows_update_bind F (fun st _ => grows_posSet pos st) (follows_readCellTail pos n)).mono ?_
  rintro m st _ ⟨rfl, rfl⟩
  exact setStream_setStream _ _ _ _

lemma follows_readCells (n : Nat) : Follows (fun st => st.cache.toKvParams = prm) (Grows t)
    ((List.range n).forM (readCell t)) (times (parseCellAll prm.nPosPerEmbd prm.nSeqMax) n)
    fun ms st st' => ms.length = n ∧ st' = st.setStream t (placeAll prm.nPosPerEmbd ms) := by
  have h := follows_times (l := List.range n) (frame_grows t prm)
    fun k _ => follows_readCell (t := t) (k := k)
  rw [length_range] at h
  refine h.mono ?_
  rintro ms st _ ⟨hlen, rfl⟩
  refine ⟨hlen, ?_⟩
  rw [foldl_setStream]
  refine congrArg (st.setStream t) (funext fun x => ?_)
  have hzip : (List.range n).zip ms = ms.zipIdx.map Prod.swap := by
    rw [zipIdx_eq_zip_range', range_eq_range', hlen]
    exact (zip_swap _ _).symm
  rw [hzip, foldl_map]
  rfl

end Cells

section Place
variable {nPos k i : Nat} {m : CellMeta} {x : KvCells}

def metaCell (nPos : Nat) (m : CellMeta) (y : Cell) : Cell :=
  { y with
    pos := m.pos
    ext := if 1 < nPos then m.ext else y.ext
    seq := (m.ids.map seqIdOf).toFinset ∪ y.seq }

lemma placeIds_eq (ids : List Int) : placeIds k ids x = (ids.map seqIdOf).foldl (fun x q => x.seqAdd k q) x := by
  rw [placeIds, foldl_map]

lemma cell_foldl_seqAdd_of_ne (h : i ≠ k) (l : List SeqId) :
    (l.foldl (fun x q => x.seqAdd k q) x).cell i = x.cell i := by
  refine List.foldlRecOn (motive := fun y : KvCells => y.cell i = x.cell i) _ _ rfl ?_
  intro y hy q _
  rw [KvCells.cell_seqAdd, if_neg (fun hk => h hk.1.symm), hy]

lemma size_foldl_seqAdd (l : List SeqId) : (l.foldl (fun x q => x.seqAdd k q) x).size = x.size := by
  refine List.foldlRecOn (motive := fun y : KvCells => y.size = x.size) _ _ rfl ?_
  intro y hy q _
  rw [KvCells.size_seqAdd, hy]

lemma used_foldl_seqAdd (l : List SeqId) : (l.foldl (fun x q => x.seqAdd k q) x).used = x.used := by
  refine List.foldlRecOn (motive := fun y : KvCells => y.used = x.used) _ _ rfl ?_
  intro y hy q _
  exact hy

lemma size_placeMeta : (placeMeta nPos k m x).size = x.size := by
  rw [placeMeta, placeIds_eq, size_foldl_seqAdd, placeExt]
  split <;> simp

lemma used_placeMeta : (placeMeta nPos k m x).used = insert k x.used := by
  rw [placeMeta, placeIds_eq, used_foldl_seqAdd, placeExt]
  split <;> rfl

lemma cell_placeMeta (hk : k < x.size) : (placeMeta nPos k m x).cell i =
    if i = k then metaCell nPos m (x.cell k) else x.cell i := by
  have hsize : (placeExt nPos k m.ext (x.posSet k m.pos)).size = x.size := by
    unfold placeExt
    split <;> simp
  have hcell : ∀ i, (placeExt nPos k m.ext (x.posSet k m.pos)).cell i =
      if i = k then { metaCell nPos m (x.cell k) with seq := (x.cell k).seq } else x.cell i := by
    intro i
    unfold placeExt metaCell
    by_cases hi : i = k
    · subst hi
      rw [if_pos rfl]
      split
      · rw [KvCells.cell_extSet, if_pos ⟨rfl, by simpa using hk⟩, KvCells.cell_posSet, if_pos ⟨rfl, hk⟩]
      · rw [KvCells.cell_posSet, if_pos ⟨rfl, hk⟩]
    · have hne : ∀ n, ¬ (k = i ∧ i < n) := fun _ h => hi h.1.symm
      rw [if_neg hi]
      split
      · rw [KvCells.cell_extSet, if_neg (hne _), KvCells.cell_posSet, if_neg (hne _)]
      · rw [KvCells.cell_posSet, if_neg (hne _)]
  rw [placeMeta, placeIds_eq]
  by_cases hi : i = k
  · subst hi
    rw [cell_foldl_seqAdd _ (by rw [hsize]; exact hk), hcell, if_pos rfl, if_pos rfl]
    rfl
  · rw [cell_foldl_seqAdd_of_ne hi, hcell, if_neg hi, if_neg hi]

lemma placeAll_concat (ms : List CellMeta) :
    placeAll nPos (ms ++ [m]) x = placeMeta nPos ms.length m (placeAll nPos ms x) := by
  simp [placeAll, zipIdx_append]

lemma size_placeAll (ms : List CellMeta) : (placeAll nPos ms x).size = x.size := by
  induction ms using List.reverseRecOn with
  | nil => rfl
  | append_singleton ms m ih => rw [placeAll_concat, size_placeMeta, ih]

lemma used_placeAll (ms : List CellMeta) : (placeAll nPos ms x).used = x.used ∪ Finset.range ms.length := by
  induction ms using List.reverseRecOn with
  | nil => simp [placeAll]
  | append_singleton ms m ih =>
    rw [placeAll_concat, used_placeMeta, ih, length_append, length_singleton,
      Finset.range_add_one, Finset.union_insert]

lemma cell_placeAll {ms : List CellMeta} (h : ms.length ≤ x.size) (i : Nat) :
    (placeAll nPos ms x).cell i = ms[i]?.elim (x.cell i) fun m => metaCell nPos m (x.cell i) := by
  induction ms using List.reverseRecOn generalizing i with
  | nil => rfl
  | append_singleton ms m ih =>
    rw [length_append, length_singleton] at h
    rw [placeAll_concat, cell_placeMeta (by rw [size_placeAll]; omega), ih (by omega), ih (by omega)]
    by_cases hi : i = ms.length
    · subst hi
      simp
    · rw [if_neg hi]
      by_cases hlt : i < ms.length
      · rw [getElem?_append_left hlt]
      · rw [getElem?_eq_none (by omega), getElem?_eq_none (by simp; omega)]

end Place

section Meta
variable {t n kvSize : Nat} {ms : List CellMeta} {st : KvState}

/-- The state with all streams cleared and the cells of stream `t` placed. -/
def loadMeta (t : Nat) (ms : List CellMeta) (st : KvState) : KvState :=
  let st := st.clear.setStream t (placeAll st.cache.nPosPerEmbd ms)
  st.setCache (st.cache.setHead t 0)

def loadSlot (t n : Nat) : SlotInfo := { s0 := t, s1 := t, strm := [t], idxs := [List.range n] }

lemma params_clear (st : KvState) : st.clear.cache.toKvParams = st.cache.toKvParams :=
  (keeps_clear st.cache).params

lemma keeps_loadMeta (t : Nat) (ms : List CellMeta) (st : KvState) : Keeps st.cache (loadMeta t ms st).cache := by
  refine (keeps_clear st.cache).trans ⟨rfl, fun h => ?_⟩
  have hsize : (placeAll st.cache.nPosPerEmbd ms (st.cache.clear.cellsOf t)).size =
      (st.cache.clear.cellsOf t).size := size_placeAll ms
  have hcells := h.setCells hsize
  have hheads : (st.cache.clear.vHeads.modify t fun _ => 0).length = st.cache.clear.nStream := by
    rw [length_modify]
    exact hcells.heads
  exact ⟨hcells.streams, hcells.cells, hheads, hcells.size⟩

lemma cellsOf_loadMeta (h : Shape kvSize st.cache) (ht : t < st.cache.nStream) :
    (loadMeta t ms st).cache.cellsOf t = placeAll st.cache.nPosPerEmbd ms (st.cache.cellsOf t).reset := by
  have hlen : t < st.clear.cache.vCells.length := by
    have hcells : st.clear.cache.vCells.length = st.clear.cache.nStream :=
      ((keeps_clear st.cache).shape h).cells
    rw [hcells, params_clear]
    exact ht
  show ((st.clear.cache.setCells t _).setHead t 0).cellsOf t = _
  rw [cellsOf_setHead, cellsOf_setCells, if_pos ⟨rfl, hlen⟩]
  rw [← cellsOf_clear h ht]
  rfl

lemma cell_loadMeta (h : Shape kvSize st.cache) (ht : t < st.cache.nStream)
    (hlen : ms.length ≤ kvSize) (u i : Nat) : (loadMeta t ms st).cache.cell u i =
      if u = t then ms[i]?.elim {} fun m => metaCell st.cache.nPosPerEmbd m {} else {} := by
  unfold KvCache.cell
  by_cases hu : u = t
  · subst hu
    rw [if_pos rfl, cellsOf_loadMeta h ht, cell_placeAll (by rw [KvCells.size_reset, h.size u ht]; exact hlen),
      KvCells.cell_reset]
  · rw [if_neg hu]
    have hcell := cell_clear h u i
    have hne : ¬ (t = u ∧ u < st.clear.cache.vCells.length) := fun h => hu h.1.symm
    show ((st.clear.cache.setCells t _).cellsOf u).cell i = {}
    rw [cellsOf_setCells, if_neg hne]
    exact hcell

lemma consumes_readMetaAll (hn : n ≤ (st.cache.cellsOf t).size) {bs : List UInt8}
    (hbs : Parses (times (parseCellAll st.cache.nPosPerEmbd st.cache.nSeqMax) n) bs ms) :
    Consumes (readMetaAll t n) bs st (loadSlot t n) (loadMeta t ms st) := by
  have hparams := params_clear st
  unfold readMetaAll
  refine Consumes.state_bind ?_
  rw [if_neg (by omega)]
  refine Consumes.update_bind ?_
  have hcells := (follows_readCells (t := t) n).consumes hbs hparams fun st' h => h.2
  exact hcells.bind_nil (Consumes.update_bind (Consumes.pure _ _))

end Meta

def parseV (vTrans : Bool) (cellCount : Nat) (L : LayerShape × Nat) : Parse Unit :=
  match L.1.v with
  | none => pure ()
  | some v =>
    if vTrans then do
      parseVHead v
      (List.range v.nEmbdGqa).forM fun _ => do
        let _ ← bytes .endOfInput (cellCount * v.ty.typeSize)
        return ()
    else do
      let _ ← parseRows v.toRowShape cellCount
      return ()

def parseData (vTrans : Bool) (layers : List LayerShape) (size cellCount : Nat) : Parse Unit := do
  parseDataHead vTrans layers.length size cellCount
  layers.zipIdx.forM fun L => do
    let _ ← parseRows L.1.k cellCount
    return ()
  layers.zipIdx.forM (parseV vTrans cellCount)

def TensorsOnly (st st' : KvState) : Prop := st'.cache = st.cache ∧ st'.layers = st.layers

section Data
variable {c : KvCache} {ls : List LayerShape} {t n size k : Nat} {sl : SlotInfo} {L : LayerShape × Nat}

/-- The reader is at cache `c` with layers `ls`. -/
def At (c : KvCache) (ls : List LayerShape) (st : KvState) : Prop := st.cache = c ∧ st.layers = ls

lemma frame_tensorsOnly : Frame (At c ls) TensorsOnly where
  refl _ := ⟨rfl, rfl⟩
  trans h1 h2 := ⟨h2.1.trans h1.1, h2.2.trans h1.2⟩
  inv h hp := ⟨h.1.trans hp.1, h.2.trans hp.2⟩

lemma follows_tensor {α : Type} {p : Parse α} {f : α → KvState → KvState} (hf : ∀ a st, TensorsOnly st (f a st)) :
    Follows (At c ls) TensorsOnly (lift p >>= fun a => update (f a) : Read Unit)
      (p >>= fun _ => pure ()) fun _ _ _ => True :=
  follows_lift_bind frame_tensorsOnly fun a => follows_update fun st _ => ⟨trivial, hf a st⟩

lemma follows_readK : Follows (At c ls) TensorsOnly (readK k t size n sl L)
    (parseRows L.1.k n >>= fun _ => pure ()) fun _ _ _ => True :=
  follows_tensor fun _ _ => ⟨rfl, rfl⟩

lemma follows_readV : Follows (At c ls) TensorsOnly (readV k t size n sl L) (parseV false n L)
    fun _ _ _ => True := by
  unfold readV parseV
  cases L.1.v with
  | none => exact follows_pure frame_tensorsOnly fun _ => trivial
  | some v => exact follows_tensor fun _ _ => ⟨rfl, rfl⟩

lemma follows_readVTrans : Follows (At c ls) TensorsOnly (readVTrans k t size n sl L) (parseV true n L)
    fun _ _ _ => True := by
  unfold readVTrans parseV
  cases L.1.v with
  | none => exact follows_pure frame_tensorsOnly fun _ => trivial
  | some v =>
    refine follows_lift_bind frame_tensorsOnly fun _ => ?_
    exact follows_forM frame_tensorsOnly fun j _ => follows_tensor fun _ _ => ⟨rfl, rfl⟩

lemma follows_stateReadData (t n : Nat) (sl : SlotInfo) (hpg : c.pgEnabled = false) :
    Follows (At c ls) TensorsOnly (stateReadData t n sl)
      (parseData c.vTrans ls (c.cellsOf t).size n) fun _ _ _ => True := by
  have F : Frame (At c ls) TensorsOnly := frame_tensorsOnly
  have htail : Follows (At c ls) TensorsOnly (do
      lift (parseDataHead c.vTrans ls.length (c.cellsOf t).size n)
      ls.zipIdx.forM (readK c.nStream t (c.cellsOf t).size n sl)
      ls.zipIdx.forM (if c.vTrans then readVTrans c.nStream t (c.cellsOf t).size n sl
        else readV c.nStream t (c.cellsOf t).size n sl) : Read Unit)
      (parseData c.vTrans ls (c.cellsOf t).size n) fun _ _ _ => True := by
    refine follows_lift_bind F fun _ => ?_
    refine (follows_forM F fun L _ => follows_readK).bind F
      (W := fun _ _ _ _ => True) (fun _ => ?_) fun _ _ => trivial
    refine follows_forM F fun L _ => ?_
    cases c.vTrans with
    | false => exact follows_readV
    | true => exact follows_readVTrans
  intro s hs
  have hrun : stateReadData t n sl s = (do
      lift (parseDataHead c.vTrans ls.length (c.cellsOf t).size n)
      ls.zipIdx.forM (readK c.nStream t (c.cellsOf t).size n sl)
      ls.zipIdx.forM (if c.vTrans then readVTrans c.nStream t (c.cellsOf t).size n sl
        else readV c.nStream t (c.cellsOf t).size n sl) : Read Unit) s := by
    unfold stateReadData
    rw [ReadM.bind_apply]
    simp only [state, hs.1, hs.2, hpg, Bool.false_eq_true, if_false]
  rw [hrun]
  exact htail s hs

end Data

end KvState

end Mallana
