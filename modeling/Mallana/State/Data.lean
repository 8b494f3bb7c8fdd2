import Mallana.State.Basic

/-!
# The tensor part of the state format

What `state_write_data` writes and what `state_read_data` makes of it. The ranges of the writer list
exactly the saved cells in order (`flatMap_cellRanges`), so the data of a tensor is a gather of rows; the
reader scatters them over the cells of its slot, whichever of its two paths it takes. `consumes_data`
puts this together for all layers: `state_read_data` reads exactly what `state_write_data` wrote and
copies every saved row to the corresponding cell of the slot, in both layouts of V, unless an offset of
a transposed V tensor wraps around (`OffsetsFit`).
-/

namespace Mallana

open Lib List

namespace RowShape

lemma rowSize_eq (r : RowShape) : r.rowSize = r.ty.typeSize * (r.ne0 / r.ty.blckSize) :=
  Nat.mul_div_assoc _ r.ne0_dvd

lemma rowSize_pos (r : RowShape) : 0 < r.rowSize := by
  rw [rowSize_eq]
  exact mul_pos r.ty.typeSize_pos
    (Nat.div_pos (Nat.le_of_dvd r.ne0_pos r.ne0_dvd) r.ty.blckSize_pos)

lemma rowSize_mul (r : RowShape) (n : Nat) : r.ty.rowSize (r.ne0 * n) = n * r.rowSize := by
  rw [GgmlType.rowSize, ← mul_assoc, Nat.mul_div_right_comm, ← GgmlType.rowSize, mul_comm]
  · rfl
  · exact Dvd.dvd.mul_left r.ne0_dvd _

end RowShape

namespace KvState

open ByteParser ReadM

abbrev rangeCells (r : Nat × Nat) : List Nat := List.range' r.1 (r.2 - r.1)

/-- The search after `k` cells: the finished ranges and the current one list the cells found so far. -/
def RangesUpTo (ok : Nat → Bool) (size k : Nat) (acc : List (Nat × Nat) × Nat) : Prop :=
  (acc.2 = size ∨ acc.2 < k) ∧ acc.1.flatMap rangeCells ++ (if acc.2 = size then [] else rangeCells (acc.2, k)) =
      (List.range k).filter ok

lemma RangesUpTo.step {ok : Nat → Bool} {size k : Nat} {acc : List (Nat × Nat) × Nat}
    (h : RangesUpTo ok size k acc) (hk : k < size) : RangesUpTo ok size (k + 1) (rangeStep ok size acc k) := by
  obtain ⟨done, b⟩ := acc
  obtain ⟨hb, hexp⟩ := h
  simp only [] at hb hexp
  unfold RangesUpTo rangeStep
  rw [range_succ, filter_append, ← hexp]
  cases hok : ok k with
  | true =>
    have hone : [k].filter ok = [k] := by simp [hok]
    rw [hone]
    obtain rfl | hlt := hb
    · have hne : k ≠ b := by omega
      simp [hne, rangeCells]
    · have hne : b ≠ size := by omega
      have hsucc : k + 1 - b = (k - b) + 1 := by omega
      have hlast : b + (k - b) = k := by omega
      simp [hne, rangeCells, hsucc, range'_concat, hlast]
      omega
  | false =>
    have hnone : [k].filter ok = [] := by simp [hok]
    rw [hnone]
    obtain rfl | hlt := hb
    · simp
    · have hne : b ≠ size := by omega
      simp [hne]

lemma flatMap_cellRanges (ok : Nat → Bool) (size : Nat) :
    (cellRanges ok size).flatMap rangeCells = (List.range size).filter ok := by
  have hpre : ∀ k ≤ size, RangesUpTo ok size k ((List.range k).foldl (rangeStep ok size) ([], size)) := by
    intro k hk
    induction k with
    | zero => exact ⟨.inl rfl, by simp⟩
    | succ k ih =>
      rw [range_succ, foldl_append]
      exact (ih (by omega)).step hk
  obtain ⟨hb, hexp⟩ := hpre size le_rfl
  unfold cellRanges
  simp only []
  rw [← hexp]
  generalize (List.range size).foldl (rangeStep ok size) ([], size) = acc
  by_cases he : acc.2 = size
  · simp [he]
  · simp [he]

/-- A range of saved cells begins with cell `i`. -/
def Begins (ok : Nat → Bool) (i : Nat) : Prop := ok i = true ∧ (i = 0 ∨ ok (i - 1) = false)

lemma begins_of_mem_cellRanges {ok : Nat → Bool} {size : Nat} {r : Nat × Nat} (hr : r ∈ cellRanges ok size) :
    Begins ok r.1 := by
  have hpre : ∀ k ≤ size, ∀ acc, (List.range k).foldl (rangeStep ok size) ([], size) = acc →
      (acc.2 = size → k = 0 ∨ ok (k - 1) = false) ∧ (acc.2 ≠ size → Begins ok acc.2) ∧
        ∀ r ∈ acc.1, Begins ok r.1 := by
    intro k hk
    induction k with
    | zero =>
      rintro acc rfl
      simp
    | succ k ih =>
      rintro acc rfl
      obtain ⟨hgap, hcur, hdone⟩ := ih (by omega) _ rfl
      rw [range_succ, foldl_append, foldl_cons, foldl_nil, rangeStep]
      generalize (List.range k).foldl (rangeStep ok size) ([], size) = acc at hgap hcur hdone
      cases hok : ok k with
      | true =>
        rw [if_pos rfl]
        refine ⟨fun he => ?_, fun _ => ?_, hdone⟩
        · dsimp only at he
          split at he <;> omega
        · dsimp only
          split
          · rename_i hb
            exact ⟨hok, hgap hb⟩
          · rename_i hb
            exact hcur hb
      | false =>
        rw [if_neg (by decide)]
        by_cases hb : acc.2 = size
        · rw [if_neg (not_not.2 hb)]
          exact ⟨fun _ => .inr hok, fun h => absurd hb h, hdone⟩
        · rw [if_pos hb]
          refine ⟨fun _ => .inr hok, fun h => absurd rfl h, fun r hr => ?_⟩
          obtain hr | hr := mem_append.1 hr
          · exact hdone r hr
          · rw [mem_singleton.1 hr]
            exact hcur hb
  obtain ⟨-, hcur, hdone⟩ := hpre size le_rfl _ rfl
  unfold cellRanges at hr
  simp only [] at hr
  split at hr
  · rename_i hne
    obtain hr | hr := mem_append.1 hr
    · exact hdone r hr
    · rw [mem_singleton.1 hr]
      exact hcur hne
  · exact hdone r hr

lemma flatMap_ranges {α : Type} (ok : Nat → Bool) (size : Nat) (f : Nat → List α) :
    (cellRanges ok size).flatMap (fun r => (rangeCells r).flatMap f) =
      ((List.range size).filter ok).flatMap f := by
  rw [← flatMap_cellRanges, flatMap_assoc]

lemma flatMap_read_ranges (ok : Nat → Bool) (size : Nat) (m : Mem) (base row : Nat) :
    (cellRanges ok size).flatMap (fun r => m.read (base + r.1 * row) ((r.2 - r.1) * row)) =
      m.readRows base row ((List.range size).filter ok) := by
  rw [Mem.readRows, ← flatMap_ranges]
  congr 1
  funext r
  rw [← Mem.readRows_range']
  rfl

lemma kBase_eq (r : RowShape) (kvSize nStream s : Nat) : kBase r kvSize nStream s = s * kvSize * r.rowSize := by
  simp only [kBase, Tensor.view2d, GgmlType.newTensor3d, RowShape.rowSize_eq]
  ring

lemma vBase_eq (vTrans : Bool) (r : RowShape) (kvSize nStream s : Nat) : vBase vTrans r kvSize nStream s =
      s * (if vTrans then kvSize else kvSize + 32) * r.rowSize := by
  simp only [vBase, Tensor.view2d, GgmlType.newTensor3d, RowShape.rowSize_eq, VLayout.pgBlockSize]
  ring

/-- The numbers of a layer fit the types in which they are written. -/
structure LayerFits (L : LayerShape) : Prop where
  kId : IsI32 L.k.id
  kRow : L.k.rowSize < 256 ^ 8
  v : ∀ v, L.v = some v → IsI32 v.id ∧ v.rowSize < 256 ^ 8 ∧ v.ty.typeSize < 256 ^ 4 ∧ v.nEmbdGqa < 256 ^ 4

/-- No offset at which a range of saved cells begins in a transposed V tensor wraps around: `state_write_data`
    computes it in `uint32_t`. -/
def OffsetsFit (ok : Nat → Bool) (kvSize : Nat) (v : VShape) : Prop :=
  ∀ i, Begins ok i → ∀ j < v.nEmbdGqa, (i + j * kvSize) * v.ty.typeSize < 4294967296

def NoWrap (src : KvState) (seq : Option SeqId) (t : Nat) : Prop :=
  src.cache.vTrans = true → ∀ L ∈ src.layers, ∀ v, L.v = some v →
    OffsetsFit (saves (src.cache.cellsOf t) seq) (src.cache.cellsOf t).size v

section Copy
variable (kvSize nStream : Nat) (src : KvState) (ts td : Nat) (is js : List Nat)

/-- Copy the K rows `is` of stream `ts` to the rows `js` of stream `td`. -/
def copyK (L : LayerShape × Nat) (m : Mem) : Mem :=
  m.writeRows (kBase L.1.k kvSize nStream td) L.1.k.rowSize js
    ((src.k L.2).readRows (kBase L.1.k kvSize nStream ts) L.1.k.rowSize is)

def copyV (L : LayerShape × Nat) (m : Mem) : Mem :=
  match L.1.v with
  | none => m
  | some v => m.writeRows (vBase false v.toRowShape kvSize nStream td) v.rowSize js
      ((src.v L.2).readRows (vBase false v.toRowShape kvSize nStream ts) v.rowSize is)

def copyElem (v : VShape) (il : Nat) (m : Mem) (j : Nat) : Mem :=
  m.writeRows (vBase true v.toRowShape kvSize nStream td + j * kvSize * v.ty.typeSize)
    v.ty.typeSize js ((src.v il).readRows
      (vBase true v.toRowShape kvSize nStream ts + j * kvSize * v.ty.typeSize) v.ty.typeSize is)

def copyVTrans (L : LayerShape × Nat) (m : Mem) : Mem :=
  match L.1.v with
  | none => m
  | some v => (List.range v.nEmbdGqa).foldl (copyElem kvSize nStream src ts td is js v L.2) m

def mapTensors (gk gv : LayerShape × Nat → Mem → Mem) (st : KvState) : KvState :=
  { st with
    k := fun il => st.layers[il]?.elim (st.k il) fun L => gk (L, il) (st.k il)
    v := fun il => st.layers[il]?.elim (st.v il) fun L => gv (L, il) (st.v il) }

def copyData (st : KvState) : KvState :=
  st.mapTensors (copyK kvSize nStream src ts td is js)
    (if st.cache.vTrans then copyVTrans kvSize nStream src ts td is js
      else copyV kvSize nStream src ts td is js)

end Copy

section Folds
variable {g : LayerShape × Nat → Mem → Mem} (st : KvState)

lemma foldl_setK (l : List LayerShape) : l.zipIdx.foldl (fun st L => st.setK L.2 (g L (st.k L.2))) st =
      { st with k := fun il => l[il]?.elim (st.k il) fun L => g (L, il) (st.k il) } := by
  rw [← foldl_update_zipIdx]
  generalize l.zipIdx = l
  induction l generalizing st with
  | nil => rfl
  | cons L l ih => exact ih (st.setK L.2 (g L (st.k L.2)))

lemma foldl_setV (l : List LayerShape) : l.zipIdx.foldl (fun st L => st.setV L.2 (g L (st.v L.2))) st =
      { st with v := fun il => l[il]?.elim (st.v il) fun L => g (L, il) (st.v il) } := by
  rw [← foldl_update_zipIdx]
  generalize l.zipIdx = l
  induction l generalizing st with
  | nil => rfl
  | cons L l ih => exact ih (st.setV L.2 (g L (st.v L.2)))

lemma consumes_layersK {f : LayerShape × Nat → Read Unit} {enc : LayerShape × Nat → List UInt8}
    {l : List LayerShape} (h : ∀ L ∈ l.zipIdx, ∀ s, Consumes (f L) (enc L) s () (s.setK L.2 (g L (s.k L.2)))) :
    Consumes (l.zipIdx.forM f) (l.zipIdx.flatMap enc) st ()
      { st with k := fun il => l[il]?.elim (st.k il) fun L => g (L, il) (st.k il) } := by
  rw [← foldl_setK]
  exact Consumes.forM h st

lemma consumes_layersV {f : LayerShape × Nat → Read Unit} {enc : LayerShape × Nat → List UInt8}
    {l : List LayerShape} (h : ∀ L ∈ l.zipIdx, ∀ s, Consumes (f L) (enc L) s () (s.setV L.2 (g L (s.v L.2)))) :
    Consumes (l.zipIdx.forM f) (l.zipIdx.flatMap enc) st ()
      { st with v := fun il => l[il]?.elim (st.v il) fun L => g (L, il) (st.v il) } := by
  rw [← foldl_setV]
  exact Consumes.forM h st

lemma foldl_setV_self (f : Mem → Nat → Mem) (il : Nat) (l : List Nat) :
    l.foldl (fun st j => st.setV il (f (st.v il) j)) st = st.setV il (l.foldl f (st.v il)) := by
  induction l generalizing st with
  | nil => rw [foldl_nil, foldl_nil, setV, Function.update_eq_self]
  | cons j l ih =>
    rw [foldl_cons, ih]
    simp [setV]

end Folds

section Slot
variable {sl : SlotInfo} {js : List Nat} {bs : List UInt8} {row : Nat}

lemma eq_range'_of_isContiguous (hsl : sl.idxs = [js]) (h : isContiguous sl = true) :
    js = List.range' (js.headD 0) js.length := by
  unfold isContiguous at h
  rw [hsl] at h
  cases js with
  | nil => rfl
  | cons a l => simpa using h

lemma writeSlot_eq (hsl : sl.idxs = [js]) (hbs : bs.length = js.length * row) (base : Nat) (m : Mem) :
    writeSlot sl base row bs m = m.writeRows base row js bs := by
  unfold writeSlot
  rw [hsl]
  split
  · rename_i hc
    have hjs := eq_range'_of_isContiguous hsl hc
    rw [headD_cons, Mem.write_eq_writeRows m base row (js.headD 0) hbs, ← hjs]
  · rfl

lemma writeRows_map_add (m : Mem) (base d : Nat) (bs : List UInt8) :
    m.writeRows base row (js.map (· + d)) bs = m.writeRows (base + d * row) row js bs := by
  induction js generalizing m bs with
  | nil => rfl
  | cons j js ih =>
    have hoff : base + (j + d) * row = base + d * row + j * row := by ring
    rw [map_cons, Mem.writeRows, Mem.writeRows, ih, hoff]

lemma writeElem_eq (hsl : sl.idxs = [js]) (hbs : bs.length = js.length * row) {size j : Nat}
    (hlt : ∀ i ∈ js, i + j * size < 4294967296) (base : Nat) (m : Mem) :
    writeElem sl base size row j bs m = m.writeRows (base + j * size * row) row js bs := by
  unfold writeElem
  rw [hsl, headD_cons]
  split
  · rename_i hc
    have hjs := eq_range'_of_isContiguous hsl hc
    cases js with
    | nil =>
      obtain rfl : bs = [] := by simpa using hbs
      funext a
      exact Mem.write_of_notMem (by simp only [length_nil]; omega)
    | cons h l =>
      have hoff : base + (h + j * size) * row = base + j * size * row + h * row := by ring
      rw [headD_cons] at hjs ⊢
      rw [u32, Nat.mod_eq_of_lt (hlt h mem_cons_self), hoff, Mem.write_eq_writeRows m _ row h hbs, ← hjs]
  · have hmap : js.map (fun i => u32 (i + j * size)) = js.map (· + j * size) :=
      map_congr_left fun i hi => Nat.mod_eq_of_lt (hlt i hi)
    rw [hmap, writeRows_map_add]

end Slot

lemma parses_rows {r : RowShape} (hid : IsI32 r.id) (hrow : r.rowSize < 256 ^ 8) {n : Nat}
    {bs : List UInt8} (hbs : bs.length = n * r.rowSize) :
    Parses (parseRows r n) (i32Bytes r.id ++ (leBytes 8 r.rowSize ++ bs)) bs := by
  refine (parses_i32 hid).bind (Parses.require_bind (decide_eq_true rfl) ?_)
  refine (parses_num hrow).bind (Parses.require_bind (decide_eq_true rfl) ?_)
  exact parses_bytes hbs

lemma parses_vHead {L : LayerShape} (hL : LayerFits L) {v : VShape} (hv : L.v = some v) : Parses (parseVHead v)
      (i32Bytes v.id ++ (leBytes 4 v.ty.typeSize ++ leBytes 4 v.nEmbdGqa)) () := by
  obtain ⟨hid, _, hel, hn⟩ := hL.v v hv
  refine (parses_i32 hid).bind (Parses.require_bind (decide_eq_true rfl) ?_)
  refine (parses_num hel).bind (Parses.require_bind (decide_eq_true rfl) ?_)
  exact (parses_num hn).bind_nil (parses_require (decide_eq_true rfl))

lemma parses_dataHead {vTrans : Bool} {nLayer size cellCount : Nat} (hn : nLayer < 256 ^ 4)
    (hc : cellCount ≤ size) : Parses (parseDataHead vTrans nLayer size cellCount)
      (leBytes 4 (if vTrans then 1 else 0) ++ leBytes 4 nLayer) () := by
  refine Parses.bind (parses_num (by split <;> decide)) ((parses_num hn).bind_nil ?_)
  refine Parses.require_bind (decide_eq_true rfl) (Parses.require_bind (decide_eq_true hc) ?_)
  refine parses_require ?_
  cases vTrans <;> rfl

section Layers
variable {kvSize nStream ts td n : Nat} {is js : List Nat} {sl : SlotInfo} {src : KvState}
  {ok : Nat → Bool} {L : LayerShape × Nat}

section
variable (hL : LayerFits L.1) (hsl : sl.idxs = [js]) (hjs : js.length = n)
  (hsz : (src.cache.cellsOf ts).size = kvSize) (hns : src.cache.nStream = nStream)
  (his : (List.range kvSize).filter ok = is) (hlen : is.length = n) (s : KvState)
include hL hsl hjs hsz hns his hlen s

lemma consumes_readK :
    Consumes (readK nStream td kvSize n sl L) (src.writeK ts (cellRanges ok kvSize) L) s ()
      (s.setK L.2 (copyK kvSize nStream src ts td is js L (s.k L.2))) := by
  have hbs : ((src.k L.2).readRows (kBase L.1.k kvSize nStream ts) L.1.k.rowSize is).length =
      n * L.1.k.rowSize := by
    rw [Mem.length_readRows, hlen]
  simp only [writeK, hsz, hns, flatMap_read_ranges, his]
  unfold readK copyK
  refine Consumes.bind_nil (consumes_lift (parses_rows hL.kId hL.kRow hbs) s) (consumes_update ?_)
  rw [writeSlot_eq hsl (hbs.trans (by rw [hjs]))]

lemma consumes_readV :
    Consumes (readV nStream td kvSize n sl L) (src.writeV ts (cellRanges ok kvSize) L) s ()
      (s.setV L.2 (copyV kvSize nStream src ts td is js L (s.v L.2))) := by
  unfold readV writeV copyV
  cases hv : L.1.v with
  | none =>
    have hself : s.setV L.2 (s.v L.2) = s := by
      rw [setV, Function.update_eq_self]
    simp only [hself]
    exact Consumes.pure () s
  | some v =>
    obtain ⟨hid, hrow, _⟩ := hL.v v hv
    have hbs : ((src.v L.2).readRows (vBase false v.toRowShape kvSize nStream ts) v.rowSize is).length =
        n * v.rowSize := by
      rw [Mem.length_readRows, hlen]
    simp only [hsz, hns, flatMap_read_ranges, his]
    refine Consumes.bind_nil (consumes_lift (parses_rows hid hrow hbs) s) (consumes_update ?_)
    rw [writeSlot_eq hsl (hbs.trans (by rw [hjs]))]

end

lemma flatMap_read_elem {v : VShape} (hw : OffsetsFit ok kvSize v) {j : Nat}
    (hj : j < v.nEmbdGqa) (base : Nat) (m : Mem) : (cellRanges ok kvSize).flatMap (fun r =>
      m.read (base + u32 ((r.1 + j * kvSize) * v.ty.typeSize)) ((r.2 - r.1) * v.ty.typeSize)) =
      m.readRows (base + j * kvSize * v.ty.typeSize) v.ty.typeSize ((List.range kvSize).filter ok) := by
  rw [Mem.readRows, ← flatMap_ranges]
  refine flatMap_congr fun r hr => ?_
  have hrows := Mem.readRows_range' m (base + j * kvSize * v.ty.typeSize) v.ty.typeSize r.1
    (r.2 - r.1)
  rw [Mem.readRows] at hrows
  rw [hrows, u32, Nat.mod_eq_of_lt (hw r.1 (begins_of_mem_cellRanges hr) j hj)]
  congr 1
  ring

/-- Where the offsets of the writer do not wrap, those of the reader do not either, whatever the slot is. -/
lemma OffsetsFit.index_lt {v : VShape} (hw : OffsetsFit ok kvSize v) (hel : 2 ≤ v.ty.typeSize)
    (hsize : kvSize < 4294967296) (hne : (List.range kvSize).filter ok ≠ []) {i j : Nat} (hi : i < kvSize)
    (hj : j < v.nEmbdGqa) : i + j * kvSize < 4294967296 := by
  obtain ⟨x, hx⟩ := exists_mem_of_ne_nil _ hne
  rw [← flatMap_cellRanges] at hx
  obtain ⟨r, hr, -⟩ := mem_flatMap.1 hx
  have hlt := hw r.1 (begins_of_mem_cellRanges hr) j hj
  have htwo : (r.1 + j * kvSize) * 2 ≤ (r.1 + j * kvSize) * v.ty.typeSize := Nat.mul_le_mul_left _ hel
  obtain rfl | hpos := eq_zero_or_pos j
  · omega
  · have hle : kvSize ≤ j * kvSize := Nat.le_mul_of_pos_left _ hpos
    omega

lemma consumes_readVTrans (hL : LayerFits L.1)
    (hw : ∀ v, L.1.v = some v → 2 ≤ v.ty.typeSize ∧ OffsetsFit ok kvSize v)
    (hsize : kvSize < 4294967296) (hsl : sl.idxs = [js]) (hjs : js.length = n) (hlt : ∀ i ∈ js, i < kvSize)
    (hsz : (src.cache.cellsOf ts).size = kvSize) (hns : src.cache.nStream = nStream)
    (his : (List.range kvSize).filter ok = is) (hlen : is.length = n) (s : KvState) :
    Consumes (readVTrans nStream td kvSize n sl L) (src.writeVTrans ts (cellRanges ok kvSize) L) s ()
      (s.setV L.2 (copyVTrans kvSize nStream src ts td is js L (s.v L.2))) := by
  unfold readVTrans writeVTrans copyVTrans
  cases hv : L.1.v with
  | none =>
    have hself : s.setV L.2 (s.v L.2) = s := by
      rw [setV, Function.update_eq_self]
    simp only [hself]
    exact Consumes.pure () s
  | some v =>
    have hbs : ∀ j, ((src.v L.2).readRows (vBase true v.toRowShape kvSize nStream ts +
        j * kvSize * v.ty.typeSize) v.ty.typeSize is).length = n * v.ty.typeSize := by
      intro j
      rw [Mem.length_readRows, hlen]
    have henc : (List.range v.nEmbdGqa).flatMap (fun j => (cellRanges ok kvSize).flatMap fun r =>
        (src.v L.2).read (vBase true v.toRowShape kvSize nStream ts +
          u32 ((r.1 + j * kvSize) * v.ty.typeSize)) ((r.2 - r.1) * v.ty.typeSize)) =
        (List.range v.nEmbdGqa).flatMap fun j => (src.v L.2).readRows
          (vBase true v.toRowShape kvSize nStream ts + j * kvSize * v.ty.typeSize) v.ty.typeSize is := by
      refine flatMap_congr fun j hj => ?_
      rw [flatMap_read_elem (hw v hv).2 (mem_range.1 hj), his]
    simp only [hsz, hns, henc, ← append_assoc]
    rw [append_assoc (i32Bytes v.id)]
    refine (consumes_lift (parses_vHead hL hv) s).bind ?_
    rw [← foldl_setV_self]
    refine Consumes.forM (fun j hj s' => ?_) s
    refine (consumes_lift (parses_bytes (hbs j)) s').bind_nil (consumes_update ?_)
    rw [writeElem_eq hsl ((hbs j).trans (by rw [hjs]))]
    · rfl
    · intro i hi
      refine (hw v hv).2.index_lt (hw v hv).1 hsize ?_ (hlt i hi) (mem_range.1 hj)
      rw [his]
      rintro rfl
      rw [length_nil, ← hjs, eq_comm, length_eq_zero_iff] at hlen
      rw [hlen] at hi
      exact not_mem_nil hi

end Layers

/-- Two caches of one shape: the same parameters, layers and number of cells. -/
structure SameShape (kvSize : Nat) (src dst : KvState) : Prop where
  params : dst.cache.toKvParams = src.cache.toKvParams
  layers : dst.layers = src.layers
  src : KvCache.Shape kvSize src.cache
  dst : KvCache.Shape kvSize dst.cache

/-- The numbers that describe the layers fit the types in which they are written. A transposed V tensor is not
    quantized: its elements are of one block and of at least two bytes. -/
structure LayersFit (st : KvState) : Prop where
  length : st.layers.length < 256 ^ 4
  each : ∀ L ∈ st.layers, LayerFits L
  plain : st.cache.vTrans = true → ∀ L ∈ st.layers, ∀ v, L.v = some v → v.ty.blckSize = 1 ∧ 2 ≤ v.ty.typeSize

lemma consumes_data {kvSize ts td n : Nat} {src d : KvState} {ok : Nat → Bool} {is js : List Nat}
    {sl : SlotInfo} (h : SameShape kvSize src d) (hfit : LayersFit src) (hsize : kvSize < 256 ^ 4)
    (hw : src.cache.vTrans = true → ∀ L ∈ src.layers, ∀ v, L.v = some v → OffsetsFit ok kvSize v)
    (hpg : src.cache.pgEnabled = false) (hts : ts < src.cache.nStream) (htd : td < src.cache.nStream)
    (hsl : sl.idxs = [js]) (hjs : js.length = n) (hlt : ∀ i ∈ js, i < kvSize) (hn : n ≤ kvSize)
    (his : (List.range kvSize).filter ok = is) (hlen : is.length = n) :
    Consumes (stateReadData td n sl) (src.stateWriteData ts (cellRanges ok kvSize)) d ()
      (copyData kvSize src.cache.nStream src ts td is js d) := by
  have hsz := h.src.size ts hts
  have hszd : (d.cache.cellsOf td).size = kvSize := h.dst.size td (by rw [h.params]; exact htd)
  have hmem : ∀ L ∈ src.layers.zipIdx, L.1 ∈ src.layers := fun L hL => fst_mem_of_mem_zipIdx hL
  unfold stateReadData stateWriteData
  refine Consumes.state_bind ?_
  rw [h.params, h.layers, hszd, hpg, ← append_assoc]
  simp only [Bool.false_eq_true, if_false]
  refine (consumes_lift (parses_dataHead hfit.length hn) d).bind ?_
  refine (consumes_layersK d fun L hL s => consumes_readK (hfit.each L.1 (hmem L hL)) hsl hjs hsz rfl
    his hlen s).bind ?_
  unfold copyData mapTensors
  rw [h.params, h.layers]
  cases hv : src.cache.vTrans with
  | false =>
    exact consumes_layersV _ fun L hL s => consumes_readV (hfit.each L.1 (hmem L hL)) hsl hjs hsz rfl
      his hlen s
  | true =>
    exact consumes_layersV _ fun L hL s => consumes_readVTrans (hfit.each L.1 (hmem L hL))
      (fun v hLv => ⟨(hfit.plain hv L.1 (hmem L hL) v hLv).2, hw hv L.1 (hmem L hL) v hLv⟩) hsize hsl hjs hlt
      hsz rfl his hlen s

/-- The K row of a cell, where `get_k` finds it. -/
def kRow (st : KvState) (L : LayerShape × Nat) (t i : Nat) : List UInt8 :=
  (st.k L.2).read (L.1.k.ty.rowSize (L.1.k.ne0 * st.cache.getSize) * t + i * L.1.k.rowSize)
    L.1.k.rowSize

/-- The V row of a cell, where `get_v` finds it; the elements of a transposed tensor are `kv_size`
    elements apart. -/
def vRow (st : KvState) (L : LayerShape × Nat) (t i : Nat) : List UInt8 :=
  match L.1.v with
  | none => []
  | some v =>
    let kvSize := st.cache.getSize
    if st.cache.vTrans then (List.range v.nEmbdGqa).flatMap fun j =>
      (st.v L.2).read (v.ty.rowSize (kvSize * v.ne0) * t + j * v.ty.rowSize kvSize + i * v.ty.typeSize)
        v.ty.typeSize
    else (st.v L.2).read (v.ty.rowSize (v.ne0 * kvSize) * t + i * v.rowSize) v.rowSize

section Rows
variable {st : KvState} {kvSize : Nat} (nStream : Nat)

lemma getSize_eq {c : KvCache} (h : KvCache.Shape kvSize c) : c.getSize = kvSize :=
  h.size _ (c.seqToStream_lt h.streams 0)

lemma kRow_eq (h : KvCache.Shape kvSize st.cache) (L : LayerShape × Nat) (t i : Nat) :
    st.kRow L t i = (st.k L.2).read (kBase L.1.k kvSize nStream t + i * L.1.k.rowSize) L.1.k.rowSize := by
  rw [kRow, getSize_eq h, RowShape.rowSize_mul, kBase_eq]
  congr 2
  ring

lemma vRow_zero_eq (kvSize : Nat) (hv : st.cache.vTrans = false) {L : LayerShape × Nat} {v : VShape}
    (hL : L.1.v = some v) (i : Nat) :
    st.vRow L 0 i = (st.v L.2).read (vBase false v.toRowShape kvSize nStream 0 + i * v.rowSize) v.rowSize := by
  unfold vRow
  simp only [hL, hv, Bool.false_eq_true, if_false, vBase_eq]
  congr 1
  ring

/-- Element `j` of a cell in a transposed V tensor. -/
def elem (kvSize nStream t : Nat) (v : VShape) (m : Mem) (j i : Nat) : List UInt8 :=
  m.read (vBase true v.toRowShape kvSize nStream t + j * kvSize * v.ty.typeSize + i * v.ty.typeSize)
    v.ty.typeSize

lemma vRow_trans_eq (h : KvCache.Shape kvSize st.cache) (hv : st.cache.vTrans = true)
    {L : LayerShape × Nat} {v : VShape} (hL : L.1.v = some v) (hb : v.ty.blckSize = 1) (t i : Nat) :
    st.vRow L t i = (List.range v.nEmbdGqa).flatMap fun j => elem kvSize nStream t v (st.v L.2) j i := by
  unfold vRow
  simp only [hL, hv, if_true, getSize_eq h, elem, vBase_eq, GgmlType.rowSize, RowShape.rowSize, hb, Nat.div_one]
  refine flatMap_congr fun j _ => ?_
  congr 1
  ring

end Rows

section Copied
variable {kvSize nStream ts td : Nat} {src : KvState} {is js : List Nat} {v : VShape} {il : Nat}

lemma elem_copyElem (hnd : js.Nodup) {i i' : Nat} (hi : (i, i') ∈ is.zip js) (m : Mem) (j : Nat) :
    elem kvSize nStream td v (copyElem kvSize nStream src ts td is js v il m j) j i' =
      elem kvSize nStream ts v (src.v il) j i :=
  Mem.read_writeRows_readRows hnd hi

lemma elem_copyElem_of_notMem {i' : Nat} (hi : i' ∉ js) (m : Mem) (j : Nat) :
    elem kvSize nStream td v (copyElem kvSize nStream src ts td is js v il m j) j i' =
      elem kvSize nStream td v m j i' :=
  Mem.read_writeRows_of_notMem hi

section
variable (hlt : ∀ i ∈ js, i < kvSize)
include hlt

lemma elem_copyElem_of_ne {i j j' : Nat} (hi : i < kvSize) (hj : j ≠ j')
    (m : Mem) : elem kvSize nStream td v (copyElem kvSize nStream src ts td is js v il m j') j i =
      elem kvSize nStream td v m j i := by
  have hoff : vBase true v.toRowShape kvSize nStream td + j * kvSize * v.ty.typeSize +
      i * v.ty.typeSize = vBase true v.toRowShape kvSize nStream td + (i + j * kvSize) * v.ty.typeSize := by ring
  unfold elem copyElem
  rw [← writeRows_map_add, hoff]
  refine Mem.read_writeRows_of_notMem fun hmem => ?_
  obtain ⟨i', hi', heq⟩ := mem_map.1 hmem
  have hdiv := congrArg (· / kvSize) heq
  simp only [Nat.add_mul_div_right _ _ (Nat.zero_lt_of_lt hi), Nat.div_eq_of_lt (hlt i' hi'),
    Nat.div_eq_of_lt hi] at hdiv
  omega

lemma elem_foldl_of_notMem {i j : Nat} (hi : i < kvSize) {l : List Nat} (hj : j ∉ l) (m : Mem) :
    elem kvSize nStream td v (l.foldl (copyElem kvSize nStream src ts td is js v il) m) j i =
      elem kvSize nStream td v m j i := by
  refine List.foldlRecOn (motive := fun m' : Mem => elem kvSize nStream td v m' j i = _) _ _ rfl ?_
  intro m' hm' j' hj'
  have hne : j ≠ j' := by
    rintro rfl
    exact hj hj'
  rw [elem_copyElem_of_ne hlt hi hne, hm']

lemma elem_foldl (hnd : js.Nodup) {i i' j : Nat}
    (hi : (i, i') ∈ is.zip js) {l : List Nat} (hl : l.Nodup) (hj : j ∈ l) (m : Mem) :
    elem kvSize nStream td v (l.foldl (copyElem kvSize nStream src ts td is js v il) m) j i' =
      elem kvSize nStream ts v (src.v il) j i := by
  induction l generalizing m with
  | nil => simp at hj
  | cons j' l ih =>
    rw [nodup_cons] at hl
    rw [foldl_cons]
    by_cases e : j = j'
    · subst e
      rw [elem_foldl_of_notMem hlt (hlt i' (of_mem_zip hi).2) hl.1, elem_copyElem hnd hi]
    · exact ih hl.2 ((mem_cons.1 hj).resolve_left e) _

lemma elem_foldl_of_notMem_row {i' j : Nat} (hi : i' < kvSize) (hni : i' ∉ js) (l : List Nat) (m : Mem) :
    elem kvSize nStream td v (l.foldl (copyElem kvSize nStream src ts td is js v il) m) j i' =
      elem kvSize nStream td v m j i' := by
  refine List.foldlRecOn (motive := fun m' : Mem => elem kvSize nStream td v m' j i' = _) _ _ rfl ?_
  intro m' hm' j' _
  by_cases e : j = j'
  · subst e
    rw [elem_copyElem_of_notMem hni, hm']
  · rw [elem_copyElem_of_ne hlt hi e, hm']

end

end Copied

section CopyData
variable {kvSize ts td : Nat} {src d : KvState} {is js : List Nat} {L : LayerShape × Nat}

lemma k_copyData {nStream : Nat} (hL : d.layers[L.2]? = some L.1) :
    (copyData kvSize nStream src ts td is js d).k L.2 = copyK kvSize nStream src ts td is js L (d.k L.2) := by
  simp [copyData, mapTensors, hL]

lemma v_copyData {nStream : Nat} (hL : d.layers[L.2]? = some L.1) :
    (copyData kvSize nStream src ts td is js d).v L.2 =
      if d.cache.vTrans then copyVTrans kvSize nStream src ts td is js L (d.v L.2)
      else copyV kvSize nStream src ts td is js L (d.v L.2) := by
  simp only [copyData, mapTensors, hL, Option.elim_some]
  split <;> rfl

section
variable (h : SameShape kvSize src d)
include h

lemma shape_copyData : KvCache.Shape kvSize (copyData kvSize src.cache.nStream src ts td is js d).cache := h.dst

lemma kRow_copyData (hL : d.layers[L.2]? = some L.1) (hnd : js.Nodup) {i i' : Nat} (hi : (i, i') ∈ is.zip js) :
    (copyData kvSize src.cache.nStream src ts td is js d).kRow L td i' = src.kRow L ts i := by
  rw [kRow_eq src.cache.nStream h.src, kRow_eq src.cache.nStream (shape_copyData h), k_copyData hL]
  exact Mem.read_writeRows_readRows hnd hi

lemma kRow_copyData_of_notMem (hL : d.layers[L.2]? = some L.1) {i' : Nat} (hi : i' ∉ js) :
    (copyData kvSize src.cache.nStream src ts td is js d).kRow L td i' = d.kRow L td i' := by
  rw [kRow_eq src.cache.nStream h.dst, kRow_eq src.cache.nStream (shape_copyData h), k_copyData hL]
  exact Mem.read_writeRows_of_notMem hi

section
variable (hw : LayersFit src) (hL : d.layers[L.2]? = some L.1) (hlt : ∀ i ∈ js, i < kvSize)
include hw hL hlt

lemma vRow_copyData (hnd : js.Nodup)
    (hfirst : src.cache.vTrans = false → L.1.v ≠ none → ts = 0 ∧ td = 0) {i i' : Nat} (hi : (i, i') ∈ is.zip js) :
    (copyData kvSize src.cache.nStream src ts td is js d).vRow L td i' = src.vRow L ts i := by
  have hvt : d.cache.vTrans = src.cache.vTrans := by rw [h.params]
  have hmem : L.1 ∈ src.layers := by
    rw [← h.layers]
    exact mem_of_getElem? hL
  cases hv : L.1.v with
  | none => simp [vRow, hv]
  | some v =>
    cases ht : src.cache.vTrans with
    | false =>
      obtain ⟨rfl, rfl⟩ := hfirst ht (by simp [hv])
      have hcv : (copyData kvSize src.cache.nStream src 0 0 is js d).cache.vTrans = false := hvt.trans ht
      rw [vRow_zero_eq src.cache.nStream kvSize ht hv, vRow_zero_eq src.cache.nStream kvSize hcv hv,
        v_copyData hL, hvt, ht]
      simp only [Bool.false_eq_true, if_false, copyV, hv]
      exact Mem.read_writeRows_readRows hnd hi
    | true =>
      have hb := (hw.plain ht L.1 hmem v hv).1
      rw [vRow_trans_eq src.cache.nStream h.src ht hv hb,
        vRow_trans_eq src.cache.nStream (shape_copyData h) (hvt.trans ht) hv hb, v_copyData hL, hvt, ht]
      simp only [if_true, copyVTrans, hv]
      exact flatMap_congr fun j hj => elem_foldl hlt hnd hi nodup_range hj _

lemma vRow_copyData_of_notMem
    (hfirst : src.cache.vTrans = false → L.1.v ≠ none → td = 0) {i' : Nat} (hi : i' < kvSize) (hni : i' ∉ js) :
    (copyData kvSize src.cache.nStream src ts td is js d).vRow L td i' = d.vRow L td i' := by
  have hvt : d.cache.vTrans = src.cache.vTrans := by rw [h.params]
  have hmem : L.1 ∈ src.layers := by
    rw [← h.layers]
    exact mem_of_getElem? hL
  cases hv : L.1.v with
  | none => simp [vRow, hv]
  | some v =>
    cases ht : src.cache.vTrans with
    | false =>
      obtain rfl := hfirst ht (by simp [hv])
      have hcv : (copyData kvSize src.cache.nStream src ts 0 is js d).cache.vTrans = false := hvt.trans ht
      rw [vRow_zero_eq src.cache.nStream kvSize (hvt.trans ht) hv,
        vRow_zero_eq src.cache.nStream kvSize hcv hv, v_copyData hL, hvt, ht]
      simp only [Bool.false_eq_true, if_false, copyV, hv]
      exact Mem.read_writeRows_of_notMem hni
    | true =>
      have hb := (hw.plain ht L.1 hmem v hv).1
      rw [vRow_trans_eq src.cache.nStream h.dst (hvt.trans ht) hv hb,
        vRow_trans_eq src.cache.nStream (shape_copyData h) (hvt.trans ht) hv hb, v_copyData hL, hvt, ht]
      simp only [if_true, copyVTrans, hv]
      exact flatMap_congr fun j _ => elem_foldl_of_notMem_row hlt hi hni _ _

end

end

end CopyData

end KvState

end Mallana
