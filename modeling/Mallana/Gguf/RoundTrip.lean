import Mallana.Gguf.Writer
import Mathlib.Data.List.Nodup
import Mathlib.Data.List.TakeWhile

/-!
# Writing and reading back

Whether `gguf_init_from_file_ptr` reads back what `gguf_write_out` has written. The setters keep the
alignment of the context at its default: setting `general.alignment` changes the pair only, which is
what the reader goes by. Beyond that, the reader rejects, or aborts on, lengths and shapes that the
setters accept. `fileRoundTrips_iff` collects these conditions.
-/

namespace Mallana.Gguf

open Lib ByteParser List

lemma maxStringLength_lt : maxStringLength < 256 ^ 8 := by decide

lemma parses_readString {s : List UInt8} (h : s.length ≤ maxStringLength) :
    Parses readString (writeString s) s := by
  have hlt := lt_of_le_of_lt h maxStringLength_lt
  exact (parses_num hlt).bind (Parses.require_bind (decide_eq_true h) (parses_bytes rfl))

def normalise (t : GgufType) (bs : List UInt8) : List UInt8 :=
  if t = .bool then bs.map fun b => if b = 0 then 0 else 1 else bs

lemma parses_readFixed {t : GgufType} {b : List UInt8} (h : b.length = t.size) :
    Parses (readFixed t) b (normalise t b) :=
  (parses_bytes h).map (normalise t)

variable {kv : GgufKv} {α β : Type} {n : Nat} {kvs : List GgufKv} {t : GgmlTensor}
  {infos : List GgufTensorInfo} {ctx : GgufContext}

lemma normalise_of_bounded (h : kv.Bounded) : normalise kv.type kv.data = kv.data := by
  unfold normalise
  split
  next ht =>
    rw [map_congr_left (g := id), map_id]
    intro b hb
    obtain rfl | rfl := h.bools ht b hb
    · rfl
    · rfl
  next => rfl

lemma parses_readVector {elem : Reader α} {l : List β} {enc : β → List UInt8} {val : β → α}
    {size : Nat} (hsize : 0 < size) (hsize8 : size ≤ 8) (hmax : l.length ≤ maxArrayElements)
    (hlen : ∀ b ∈ l, size ≤ (enc b).length) (h : ∀ b ∈ l, Parses elem (enc b) (val b)) :
    Parses (readVector elem size l.length) (l.flatMap enc) (l.map val) := by
  have hbytes : l.length * size ≤ (l.flatMap enc).length := by
    clear hmax h
    induction l with
    | nil => simp
    | cons b l ih =>
      simp only [mem_cons, forall_eq_or_imp] at hlen
      have := ih hlen.2
      rw [flatMap_cons, length_append, length_cons, Nat.succ_mul]
      omega
  have hdiv : l.length ≤ sizeMax / size := by
    refine le_trans hmax (le_trans ?_ (Nat.div_le_div_left hsize8 hsize))
    decide
  refine Parses.require_bind (decide_eq_true hmax) (Parses.require_bind (decide_eq_true hdiv) ?_)
  intro rest
  have hrem : l.length * size ≤ (l.flatMap enc ++ rest).length := by
    rw [length_append]
    omega
  change (require .null (decide (l.length * size ≤ (l.flatMap enc ++ rest).length)) >>= fun _ =>
    times elem l.length) (l.flatMap enc ++ rest) = _
  rw [require_bind_of_true (decide_eq_true hrem)]
  exact parses_times h rest

lemma parses_readMany {elem : Reader α} {l : List β} {enc : β → List UInt8} {val : β → α}
    {isArray : Bool} {size : Nat} (hsize : 0 < size) (hsize8 : size ≤ 8)
    (hmax : isArray = true → l.length ≤ maxArrayElements) (hone : isArray = false → l.length = 1)
    (hlen : ∀ b ∈ l, size ≤ (enc b).length) (h : ∀ b ∈ l, Parses elem (enc b) (val b))
    (hn : isArray = true → n = l.length) :
    Parses (if isArray then readVector elem size n else times elem 1) (l.flatMap enc) (l.map val) := by
  cases isArray with
  | true =>
    rw [if_pos rfl, hn rfl]
    exact parses_readVector hsize hsize8 (hmax rfl) hlen h
  | false =>
    rw [if_neg (by simp), ← hone rfl]
    exact parses_times h

lemma exists_chunks (m : Nat) {data : List UInt8} (h : data.length = m * n) :
    ∃ l : List (List UInt8), l.flatten = data ∧ l.length = m ∧ ∀ b ∈ l, b.length = n := by
  induction m generalizing data with
  | zero =>
    rw [zero_mul, length_eq_zero_iff] at h
    exact ⟨[], h.symm, rfl, by simp⟩
  | succ m ih =>
    rw [Nat.succ_mul] at h
    have hdrop : (data.drop n).length = m * n := by
      rw [length_drop]
      omega
    obtain ⟨l, hl, hlen, hall⟩ := ih hdrop
    refine ⟨data.take n :: l, ?_, by rw [length_cons, hlen], ?_⟩
    · rw [flatten_cons, hl, take_append_drop]
    · intro b hb
      obtain rfl | hb := mem_cons.1 hb
      · rw [length_take]
        omega
      · exact hall b hb

lemma size_le_eight (t : GgufType) : t.size ≤ 8 := by
  cases t <;> decide

/-- A written value is read back. -/
lemma parses_readValue (hok : kv.Ok) (hb : kv.Bounded) (hn : kv.isArray = true → n = kv.getNe) :
    Parses (readValue kv.key kv.type kv.isArray n) (writeElems kv) kv := by
  have hne : kv.getNe = if kv.type = .string then kv.dataString.length
      else kv.data.length / kv.type.size := rfl
  unfold readValue writeElems
  by_cases ht : kv.type = .string
  · rw [if_pos ht] at hne
    rw [if_pos ht, if_pos ht]
    have hmany : Parses (readStrings kv.isArray n) (kv.dataString.flatMap writeString) (kv.dataString.map id) := by
      refine parses_readMany (by decide) (by decide) (fun ha => hne ▸ hb.ne_le ha)
        (fun ha => hne ▸ hok.single ha) ?_ (fun s hs => parses_readString (hb.strings_le s hs))
        (fun ha => hne ▸ hn ha)
      intro s _
      rw [writeString, length_append, length_leBytes]
      exact Nat.le_add_right _ _
    rw [map_id] at hmany
    have hkv : GgufKv.mk kv.key kv.isArray kv.type [] kv.dataString = kv := by
      rw [← hok.strings ht]
    have hmap := hmany.map fun ss => GgufKv.mk kv.key kv.isArray kv.type [] ss
    simpa only [hkv] using hmap
  · rw [if_neg ht] at hne
    rw [if_neg ht, if_neg ht]
    have hpos : 0 < kv.type.size := GgufType.Fixed.size_pos ⟨ht, hok.type_ne⟩
    obtain ⟨hstr, c, hc⟩ := hok.bytes ht
    rw [hc, Nat.mul_div_cancel_left _ hpos] at hne
    obtain ⟨l, hl, hlen, hall⟩ := exists_chunks c (by rw [hc, mul_comm])
    have hmany : Parses (readElems kv.type kv.isArray n) (l.flatMap id) (l.map (normalise kv.type)) := by
      refine parses_readMany hpos (size_le_eight _) (fun ha => ?_) (fun ha => ?_) ?_
        (fun b hbm => parses_readFixed (hall b hbm)) (fun ha => ?_)
      · rw [hlen, ← hne]
        exact hb.ne_le ha
      · rw [hlen, ← hne]
        exact hok.single ha
      · exact fun b hbm => le_of_eq (hall b hbm).symm
      · rw [hlen, ← hne]
        exact hn ha
    have hwrite : (if kv.type = .bool then kv.data.map fun b => if b = 0 then 0 else 1 else kv.data) =
        l.flatMap id := by
      change normalise kv.type kv.data = _
      rw [normalise_of_bounded hb, flatMap_id, hl]
    have hread : (l.map (normalise kv.type)).flatten = kv.data := by
      have hcomm : (l.map (normalise kv.type)).flatten = normalise kv.type l.flatten := by
        unfold normalise
        split
        · rw [map_flatten]
        · rw [map_id']
      rw [hcomm, hl, normalise_of_bounded hb]
    rw [hwrite]
    have hkv : GgufKv.mk kv.key kv.isArray kv.type kv.data [] = kv := by
      rw [← hstr]
    have hmap := hmany.map fun es => GgufKv.mk kv.key kv.isArray kv.type es.flatten []
    simpa only [hread, hkv] using hmap

lemma getNe_lt (hb : kv.Bounded) (ha : kv.isArray = true) : kv.getNe < 256 ^ 8 :=
  lt_of_le_of_lt (hb.ne_le ha) (by decide)

lemma parses_readKv (hok : kv.Ok) (hb : kv.Bounded)
    (hnew : ∀ kv' ∈ kvs, kv'.key ≠ kv.key) : Parses (readKv kvs) (writeKv kv) (kvs ++ [kv]) := by
  have hid : kv.type.id < 256 ^ 4 := lt_trans kv.type.id_lt (by decide)
  have hall : (kvs.all fun x => decide (x.key ≠ kv.key)) = true := by
    rw [all_eq_true]
    exact fun x hx => decide_eq_true (hnew x hx)
  have htyped : ∀ n, (kv.isArray = true → n = kv.getNe) →
      Parses (readTyped kv.key kv.type.id kv.isArray n) (writeElems kv) kv := by
    intro n hn
    unfold readTyped
    rw [GgufType.ofId_id]
    simp only
    rw [if_neg hok.type_ne]
    exact parses_readValue hok hb hn
  have hpair : Parses (readPair kvs) (writeKv kv) kv := by
    unfold writeKv
    rw [append_assoc]
    refine (parses_readString hb.key_le).bind (Parses.require_bind hall ?_)
    unfold writeTag
    cases ha : kv.isArray with
    | true =>
      rw [ha] at htyped
      rw [if_pos rfl, append_assoc, append_assoc]
      refine (parses_num (by decide)).bind ?_
      rw [if_pos rfl]
      refine (parses_num hid).bind ((parses_num (getNe_lt hb ha)).bind ?_)
      exact htyped _ fun _ => rfl
    | false =>
      rw [ha] at htyped
      rw [if_neg (by simp)]
      refine (parses_num hid).bind ?_
      have hne : kv.type.id ≠ GgufType.array.id := by
        intro hc
        have := GgufType.ofId_id kv.type
        rw [hc] at this
        exact hok.type_ne (Option.some.inj this).symm
      rw [if_neg hne]
      exact htyped _ nofun
  have hback : Parses (emplaceBack kvs kv) [] (kvs ++ [kv]) := by
    unfold emplaceBack
    rw [if_neg hok.key_ne]
    exact Parses.pure _
  exact hpair.bind_nil hback

lemma parses_loop {step : List β → Reader (List β)} {enc : α → List UInt8} {val : α → β} {l pre : List α}
    (h : ∀ p a q, pre ++ l = p ++ a :: q → Parses (step (p.map val)) (enc a) (p.map val ++ [val a])) :
    Parses (loop step l.length (pre.map val)) (l.flatMap enc) ((pre ++ l).map val) := by
  induction l generalizing pre with
  | nil =>
    rw [append_nil]
    exact Parses.pure _
  | cons a l ih =>
    have hstep := h pre a l rfl
    have heq : pre ++ a :: l = (pre ++ [a]) ++ l := by simp
    have hrest := @ih (pre ++ [a]) (by rwa [← heq])
    rw [heq]
    refine hstep.bind ?_
    rwa [map_append, map_cons, map_nil] at hrest

/-- The info as the reader makes it: with the strides of a contiguous tensor. -/
def readBack (ti : GgufTensorInfo) : GgufTensorInfo := ⟨ti.t.setStrides, ti.offset⟩

lemma cString_of_notMem {s : List UInt8} (h : 0 ∉ s) : cString s = s := by
  refine takeWhile_eq_self_iff.2 fun x hx => ?_
  rw [decide_eq_true_eq]
  rintro rfl
  exact h hx

lemma getD_take_ne (h1 : 0 < t.ne1) (h2 : 0 < t.ne2) (h3 : 0 < t.ne3) :
    (t.ne.take t.nDims).getD 0 1 = t.ne0 ∧ (t.ne.take t.nDims).getD 1 1 = t.ne1 ∧
      (t.ne.take t.nDims).getD 2 1 = t.ne2 ∧ (t.ne.take t.nDims).getD 3 1 = t.ne3 := by
  unfold GgmlTensor.nDims GgmlTensor.ne
  split
  · exact ⟨rfl, rfl, rfl, rfl⟩
  · split
    · exact ⟨rfl, rfl, rfl, show 1 = t.ne3 by omega⟩
    · split
      · exact ⟨rfl, rfl, show 1 = t.ne2 by omega, show 1 = t.ne3 by omega⟩
      · exact ⟨rfl, show 1 = t.ne1 by omega, show 1 = t.ne2 by omega, show 1 = t.ne3 by omega⟩

lemma nDims_bounds (t : GgmlTensor) : t.nDims ≤ 4 ∧ (t.ne.take t.nDims).length = t.nDims := by
  have hle : t.nDims ≤ 4 := by
    unfold GgmlTensor.nDims
    split
    · decide
    · split
      · decide
      · split <;> decide
  refine ⟨hle, ?_⟩
  rw [length_take]
  exact min_eq_left hle

lemma parses_checkElements (h : TensorOk t) : Parses (checkElements t.ne0 t.ne1 t.ne2 t.ne3) [] () := by
  have h1 := h.ne1_pos
  have h2 := h.ne2_pos
  have h3 := h.ne3_pos
  have e1 := h.elems1
  have e2 := h.elems2
  have e3 := h.elems3
  unfold checkElements
  rw [if_neg (by omega), if_neg (by omega), if_neg (by omega), if_neg (by omega), if_neg (by omega),
    if_neg (by omega)]
  exact Parses.pure ()

lemma parses_readType (h : TensorOk t.setStrides) :
    Parses (readType t.name t.ne0 t.ne1 t.ne2 t.ne3) (leBytes 4 t.type) t.setStrides := by
  have hlt : t.type < 256 ^ 4 := lt_trans h.type_lt (by decide)
  have hblck : (decide (blckSize t.type ≠ 0) && decide (t.ne0 % blckSize t.type = 0)) = true := by
    rw [Bool.and_eq_true, decide_eq_true_eq, decide_eq_true_eq]
    exact ⟨ne_of_gt h.blck_pos, Nat.mod_eq_zero_of_dvd h.blck_dvd⟩
  refine (parses_num hlt).bind_nil ?_
  refine Parses.require_bind (decide_eq_true h.type_lt) (Parses.require_bind hblck ?_)
  exact Parses.require_bind (decide_eq_true h.size_le) (Parses.pure _)

lemma parses_readInfo {ti : GgufTensorInfo} (hv : ti.t.Valid)
    (hok : TensorOk ti.t.setStrides) (hoff : ti.offset < sizeMod) (hnew : ∀ tj ∈ infos, tj.t.name ≠ ti.t.name) :
    Parses (readInfo infos) (writeTensorMeta ti) (infos ++ [readBack ti]) := by
  have hnul := cString_of_notMem hv.name_ne
  have hname : Parses (readName infos) (writeString ti.t.name) ti.t.name := by
    have hlen : ti.t.name.length ≤ maxStringLength := le_trans (le_of_lt hv.name_lt) (by decide)
    have hall : (infos.all fun x => decide (x.t.name ≠ cString ti.t.name)) = true := by
      rw [all_eq_true, hnul]
      exact fun x hx => decide_eq_true (hnew x hx)
    refine (parses_readString hlen).bind_nil ?_
    refine Parses.require_bind (decide_eq_true hv.name_lt) (Parses.require_bind hall ?_)
    rw [hnul]
    exact Parses.pure _
  obtain ⟨hle, hlen⟩ := nDims_bounds ti.t
  have hdims : Parses readDims (leBytes 4 ti.t.nDims ++ (ti.t.ne.take ti.t.nDims).flatMap (leBytes 8))
      (ti.t.ne.take ti.t.nDims) := by
    have hdim : ∀ n ∈ ti.t.ne.take ti.t.nDims, Parses readDim (leBytes 8 n) (id n) := by
      intro n hn
      have hmax := hv.ne_le n ((take_sublist _ _).subset hn)
      have hlt : n < 256 ^ 8 := lt_of_le_of_lt hmax (by decide)
      exact (parses_num hlt).bind_nil (Parses.require_bind (decide_eq_true hmax) (Parses.pure _))
    have hmany := parses_times hdim
    rw [map_id, hlen] at hmany
    exact (parses_num (lt_of_le_of_lt hle (by decide))).bind (Parses.require_bind (decide_eq_true hle) hmany)
  obtain ⟨d0, d1, d2, d3⟩ := getD_take_ne (t := ti.t) hok.ne1_pos hok.ne2_pos hok.ne3_pos
  have htail : Parses (readType ti.t.name ti.t.ne0 ti.t.ne1 ti.t.ne2 ti.t.ne3 >>= fun t => do
      let offset ← num .null 8
      return infos ++ [(⟨t, offset⟩ : GgufTensorInfo)]) (leBytes 4 ti.t.type ++ leBytes 8 ti.offset)
      (infos ++ [readBack ti]) := by
    refine (parses_readType hok).bind ?_
    exact (parses_num hoff).map fun offset => infos ++ [(⟨ti.t.setStrides, offset⟩ : GgufTensorInfo)]
  unfold writeTensorMeta
  rw [append_assoc, append_assoc (writeString ti.t.name), append_assoc (writeString ti.t.name)]
  refine hname.bind ?_
  rw [← append_nil (leBytes 4 ti.t.nDims ++ _), append_assoc]
  refine hdims.bind ?_
  rw [d0, d1, d2, d3]
  exact (parses_checkElements hok).bind htail

lemma pred_mul_congr {a b : Nat} (h : n = 1 ∨ a = b) : (n - 1) * a = (n - 1) * b := by
  obtain rfl | rfl := h
  · simp
  · rfl

lemma nbytes_setStrides (hv : t.Valid) (hc : t.isContiguous = true) : t.setStrides.nbytes = t.nbytes := by
  simp only [GgmlTensor.isContiguous, Bool.and_eq_true, Bool.or_eq_true, decide_eq_true_eq] at hc
  obtain ⟨⟨⟨h0, h1⟩, h2⟩, h3⟩ := hc
  have e1 := pred_mul_congr h1
  have e2 := pred_mul_congr h2
  have e3 := pred_mul_congr h3
  unfold GgmlTensor.nbytes GgmlTensor.setStrides
  simp only
  split
  · rfl
  · rw [← e1, ← e2, ← e3]
    split
    next hb =>
      have e0 : (t.ne0 - 1) * typeSize t.type = (t.ne0 - 1) * t.nb0 := by
        refine pred_mul_congr ?_
        obtain h | h := h0
        · exact .inl (h.trans hb)
        · exact .inr h.symm
      rw [e0]
    next hb => rw [hv.nb0_eq hb]

lemma length_padding {w : Nat} (hw : 32 ∣ w) (hn : n + 31 < sizeMod) :
    n + (padding (w + n) defaultAlignment).length = ggmlPad n defaultAlignment := by
  obtain ⟨c, rfl⟩ := hw
  have hpad := ggmlPad_eq (x := n) (k := 5) (by decide) hn
  have hlen : (padding (32 * c + n) defaultAlignment).length = (32 - (32 * c + n) % 32) % 32 :=
    length_replicate
  change n + _ = ggmlPad n (2 ^ 5)
  rw [hlen, hpad]
  omega

lemma length_tensorData (dat : Nat → Nat → UInt8) (i : Nat) (t : GgmlTensor) :
    (tensorData dat i t).length = t.nbytes := by
  rw [tensorData, length_map, length_range]

/-- The data section: the assertions of the writer hold, the reader computes the same offsets, and the data
    of every tensor is where its offset says. `head` is what is written before, from `base` on the data
    section. -/
lemma dataSection {dat : Nat → Nat → UInt8} {base off i : Nat}
    {head : List UInt8} (hhead : head.length = base + off) (hbase : 32 ∣ base) (hoff : 32 ∣ off)
    (hlinked : Linked defaultAlignment off infos) (hvalid : ∀ ti ∈ infos, ti.t.Valid)
    (hcont : ∀ ti ∈ infos, ti.t.isContiguous = true)
    (hlen : base + off + (writeData defaultAlignment dat infos i (base + off)).length ≤ int64Max) :
    dataAsserts defaultAlignment base infos (base + off) = true ∧
      (∃ size, computeSize defaultAlignment (infos.map readBack) off = .ok size) ∧ ∀ j ti, infos[j]? = some ti →
        ((head ++ writeData defaultAlignment dat infos i (base + off)).drop (base + ti.offset)).take
          ti.t.nbytes = tensorData dat (i + j) ti.t := by
  induction infos generalizing off i head with
  | nil => exact ⟨rfl, ⟨off, rfl⟩, by simp⟩
  | cons ti infos ih =>
    simp only [mem_cons, forall_eq_or_imp] at hvalid hcont
    obtain ⟨ho, hlinked⟩ := hlinked
    have hM : int64Max + 31 < sizeMod := by decide
    have hI : int64Max < sizeMax := by decide
    have hS : sizeMax < sizeMod := by decide
    have hdata := length_tensorData dat i ti.t
    simp only [writeData, length_append, hdata] at hlen
    have hpad := length_padding (w := base + off) (n := ti.t.nbytes) (Nat.dvd_add hbase hoff) (by omega)
    have hnext : nextOffset defaultAlignment ti = off + ggmlPad ti.t.nbytes defaultAlignment := by
      rw [nextOffset, ho]
      exact Nat.mod_eq_of_lt (by omega)
    have hdvd : 32 ∣ off + ggmlPad ti.t.nbytes defaultAlignment :=
      Nat.dvd_add hoff (dvd_ggmlPad (k := 5) (by decide))
    have hwritten : base + off + (ti.t.nbytes + (padding (base + off + ti.t.nbytes) defaultAlignment).length) =
        base + (off + ggmlPad ti.t.nbytes defaultAlignment) := by
      rw [hpad, add_assoc]
    rw [hnext] at hlinked
    rw [hwritten] at hlen
    have hrest := @ih (off + ggmlPad ti.t.nbytes defaultAlignment) (i + 1)
      (head ++ (tensorData dat i ti.t ++ padding (base + off + ti.t.nbytes) defaultAlignment))
      (by rw [length_append, hhead, length_append, hdata, hwritten]) hdvd hlinked hvalid.2 hcont.2
      (by omega)
    obtain ⟨h1, ⟨size, h2⟩, h3⟩ := hrest
    refine ⟨?_, ⟨size, ?_⟩, ?_⟩
    · rw [dataAsserts, add_assoc (base + off), hwritten, h1, hcont.1, ho,
        decide_eq_true (by omega : base + off - base = off)]
      rfl
    · rw [map_cons, computeSize]
      have hnb : (readBack ti).t.nbytes = ti.t.nbytes := nbytes_setStrides hvalid.1 hcont.1
      have hoffs : (readBack ti).offset = off := ho
      rw [hnb, if_neg (not_not.2 hoffs), if_neg (by omega)]
      exact h2
    · intro j tj hj
      simp only [writeData, hdata, length_append]
      rw [hwritten]
      cases j with
      | zero =>
        obtain rfl : ti = tj := by simpa using hj
        have hdrop : (head ++ (tensorData dat i ti.t ++ padding (base + off + ti.t.nbytes) defaultAlignment ++
            writeData defaultAlignment dat infos (i + 1)
              (base + (off + ggmlPad ti.t.nbytes defaultAlignment)))).drop (base + ti.offset) =
            tensorData dat i ti.t ++ padding (base + off + ti.t.nbytes) defaultAlignment ++
              writeData defaultAlignment dat infos (i + 1)
                (base + (off + ggmlPad ti.t.nbytes defaultAlignment)) :=
          drop_left' (by rw [hhead, ho])
        rw [hdrop, append_assoc, take_left' hdata, add_zero]
      | succ j =>
        rw [getElem?_cons_succ] at hj
        have := h3 j tj hj
        rw [append_assoc] at this
        rw [this, add_assoc, add_comm 1 j]

lemma linked_offset_lt {alignment off : Nat} (h : Linked alignment off infos)
    (hoff : off < sizeMod) : ∀ ti ∈ infos, ti.offset < sizeMod := by
  induction infos generalizing off with
  | nil => simp
  | cons t infos ih =>
    simp only [mem_cons, forall_eq_or_imp]
    exact ⟨h.1 ▸ hoff, ih h.2 (Nat.mod_lt _ (by decide))⟩

/-- What is compared of a tensor info: name, type, shape and offset. -/
def GgufTensorInfo.summary (ti : GgufTensorInfo) : List UInt8 × Nat × List Nat × Nat :=
  (ti.t.name, ti.t.type, ti.t.ne, ti.offset)

/-- A context that was read back says the same as the one that was written, and the file has the data of
    every tensor at its offset in the data section. -/
structure Same (ctx ctx' : GgufContext) (dat : Nat → Nat → UInt8) (file : List UInt8) : Prop where
  kv : ctx'.kv = ctx.kv
  info : ctx'.info.map (·.summary) = ctx.info.map (·.summary)
  alignment : ctx'.alignment = ctx.alignment
  data : ∀ (i : Nat) (ti : GgufTensorInfo), ctx.info[i]? = some ti →
    (file.drop (ctx'.offset + ti.offset)).take ti.t.nbytes = tensorData dat i ti.t

/-- Writing succeeds, and so does reading back, with the same context. -/
def RoundTrips (mem : Nat → Bool) (noAlloc : Bool) (ctx : GgufContext) (dat : Nat → Nat → UInt8) : Prop :=
  ∃ file ctx', writeOut ctx dat = some file ∧ initFromFilePtr mem ⟨noAlloc, false⟩ file = .ok ctx' ∧
    Same ctx ctx' dat file

/-- The condition for it. -/
structure Portable (ctx : GgufContext) : Prop where
  /-- the alignment, if it is set, is the default -/
  alignment : ∀ kv ∈ ctx.kv, kv.key = keyGeneralAlignment → leNat kv.data = defaultAlignment
  /-- keys, strings and arrays are not too long, and every `bool` is 0 or 1 -/
  kvs : ∀ kv ∈ ctx.kv, kv.Bounded
  /-- the tensors are contiguous -/
  contiguous : ∀ ti ∈ ctx.info, ti.t.isContiguous = true
  /-- their shapes pass the checks of the reader -/
  shapes : ∀ ti ∈ ctx.info, TensorOk ti.t.setStrides

lemma findKey_eq_some {key : List UInt8} (h : findKey kvs key = some kv) : kv ∈ kvs ∧ kv.key = key := by
  refine ⟨mem_of_find?_eq_some h, ?_⟩
  have := find?_some h
  simpa using this

lemma contiguous_of_dataAsserts {alignment base w : Nat}
    (h : dataAsserts alignment base infos w = true) : ∀ ti ∈ infos, ti.t.isContiguous = true := by
  induction infos generalizing w with
  | nil => simp
  | cons ti infos ih =>
    rw [dataAsserts, Bool.and_eq_true, Bool.and_eq_true] at h
    simp only [mem_cons, forall_eq_or_imp]
    exact ⟨h.1.2, ih h.2⟩

lemma setStrides_congr {t' : GgmlTensor} (hname : t.name = t'.name) (htype : t.type = t'.type)
    (hne : t.ne = t'.ne) : t.setStrides = t'.setStrides := by
  simp only [GgmlTensor.ne, List.cons.injEq, and_true] at hne
  obtain ⟨h0, h1, h2, h3⟩ := hne
  unfold GgmlTensor.setStrides
  rw [hname, htype, h0, h1, h2, h3]

lemma parses_readHeader (h : BuiltOk ctx) :
    Parses readHeader (ggufMagic ++ leBytes 4 ctx.version ++ leBytes 8 ctx.info.length ++
      leBytes 8 ctx.kv.length) ⟨ggufVersion, ctx.info.length, ctx.kv.length⟩ := by
  have hinfo : ctx.info.length ≤ sizeMax / tensorInfoSize :=
    (Nat.le_div_iff_mul_le (by decide)).2 h.info_le
  have hkv : ctx.kv.length ≤ sizeMax / kvSize := (Nat.le_div_iff_mul_le (by decide)).2 h.kv_le
  have hi : sizeMax / tensorInfoSize ≤ int64Max := by decide
  have hk : sizeMax / kvSize ≤ int64Max := by decide
  have h8 : int64Max < 256 ^ 8 := by decide
  have hmagic : Parses (bytes Stop.null 4) ggufMagic ggufMagic := parses_bytes rfl
  have hversion : Parses (num Stop.null 4) (leBytes 4 ggufVersion) ggufVersion := parses_num (by decide)
  rw [h.version_eq, append_assoc, append_assoc]
  refine hmagic.bind (Parses.require_bind rfl (hversion.bind ?_))
  refine Parses.require_bind rfl (Parses.require_bind rfl (Parses.require_bind rfl (Parses.require_bind rfl ?_)))
  refine (parses_num (by omega)).bind (Parses.require_bind ?_ ?_)
  · rw [Bool.and_eq_true, decide_eq_true_eq, decide_eq_true_eq]
    exact ⟨le_trans hinfo hi, hinfo⟩
  refine (parses_num (by omega)).bind_nil (Parses.require_bind ?_ (Parses.pure _))
  rw [Bool.and_eq_true, decide_eq_true_eq, decide_eq_true_eq]
  exact ⟨le_trans hkv hk, hkv⟩

lemma parses_readAlignment (hok : ∀ kv ∈ kvs, kv.Ok) (hres : ∀ kv ∈ kvs, checkReservedKeys kv = true)
    (hal : ∀ kv ∈ kvs, kv.key = keyGeneralAlignment → leNat kv.data = defaultAlignment) :
    Parses (readAlignment kvs) [] defaultAlignment := by
  have hval : Parses (alignmentValue kvs) [] defaultAlignment := by
    unfold alignmentValue
    cases hf : findKey kvs keyGeneralAlignment with
    | none => exact Parses.pure _
    | some kv =>
      obtain ⟨hmem, hkey⟩ := findKey_eq_some hf
      have hr := hres kv hmem
      simp only [checkReservedKeys, hkey, ne_eq, not_true_eq_false, decide_false, Bool.false_or,
        Bool.and_eq_true, decide_eq_true_eq] at hr
      simp only
      unfold getValU32
      rw [if_neg (not_not.2 ((hok kv hmem).single hr.1.2)), if_neg (not_not.2 hr.1.1), hal kv hmem hkey]
      exact Parses.pure _
  exact hval.bind_nil (Parses.require_bind (by decide) (Parses.pure _))

lemma readMeta_writeMeta (h : BuiltOk ctx) (hp : Portable ctx) (rest : List UInt8)
    (hlen : (writeMeta ctx ++ rest).length ≤ int64Max) : readMeta (writeMeta ctx ++ rest) =
      .ok (⟨ggufVersion, ctx.kv, ctx.info.map readBack, defaultAlignment, 0, 0, none⟩, rest) := by
  have hkvs : Parses (loop readKv ctx.kv.length []) (ctx.kv.flatMap writeKv) ctx.kv := by
    have hl := @parses_loop GgufKv GgufKv readKv writeKv id ctx.kv [] fun p kv q hpq => by
      rw [nil_append] at hpq
      have hmem : kv ∈ ctx.kv := by simp [hpq]
      have hnd := h.kv_nodup
      rw [hpq, map_append, map_cons, nodup_append] at hnd
      rw [map_id]
      refine parses_readKv (h.kv_ok kv hmem) (hp.kvs kv hmem) fun x hx => ?_
      exact hnd.2.2 _ (mem_map_of_mem hx) _ mem_cons_self
    simp only [nil_append, map_id] at hl
    exact hl
  have hinfos : Parses (loop readInfo ctx.info.length []) (ctx.info.flatMap writeTensorMeta)
      (ctx.info.map readBack) := by
    have hl := @parses_loop GgufTensorInfo GgufTensorInfo readInfo writeTensorMeta readBack ctx.info []
      fun p ti q hpq => by
        rw [nil_append] at hpq
        have hmem : ti ∈ ctx.info := by simp [hpq]
        have hnd := h.info_nodup
        rw [hpq, map_append, map_cons, nodup_append] at hnd
        refine parses_readInfo (h.info_valid ti hmem) (hp.shapes ti hmem)
          (linked_offset_lt h.linked (by decide) ti hmem) fun x hx => ?_
        obtain ⟨y, hy, rfl⟩ := mem_map.1 hx
        exact hnd.2.2 _ (mem_map_of_mem (f := fun ti : GgufTensorInfo => ti.t.name) hy) _
          mem_cons_self
    rwa [nil_append] at hl
  have hal := parses_readAlignment h.kv_ok h.kv_reserved hp.alignment
  refine (readMeta_eq_ok hlen).2 ⟨⟨ggufVersion, ctx.info.length, ctx.kv.length⟩, ?_, rfl⟩
  have hsplit : writeMeta ctx ++ rest = (ggufMagic ++ leBytes 4 ctx.version ++ leBytes 8 ctx.info.length ++
      leBytes 8 ctx.kv.length) ++ (ctx.kv.flatMap writeKv ++ (ctx.info.flatMap writeTensorMeta ++ rest)) := by
    simp only [writeMeta, append_assoc]
  refine ⟨_, _, ⟨hlen, _, ?_, hkvs _⟩, hal _, hinfos _⟩
  rw [hsplit]
  exact parses_readHeader h _

lemma length_writeHead (ha : ctx.alignment = defaultAlignment) (hlen : (writeMeta ctx).length + 31 < sizeMod) :
    (writeHead ctx).length = ggmlPad (writeMeta ctx).length defaultAlignment := by
  have hpad := length_padding (w := 0) (n := (writeMeta ctx).length) (by decide) hlen
  rw [zero_add] at hpad
  rw [writeHead, length_append, ha, hpad]

/-- Reading back what was written works exactly for portable contexts. The hypothesis on the length says
    that the file can exist: file positions are `int64_t`. -/
theorem fileRoundTrips_iff {mem : Nat → Bool} {noAlloc : Bool} {ctx : GgufContext} {dat : Nat → Nat → UInt8}
    (hbuilt : Built ctx) (hlen : (fileBytes ctx dat).length ≤ int64Max) :
    RoundTrips mem noAlloc ctx dat ↔ Portable ctx := by
  have h := hbuilt.ok
  have hM : int64Max + 31 < sizeMod := by decide
  have hmetalen : (writeMeta ctx).length ≤ int64Max := by
    have hl := hlen
    rw [fileBytes, writeHead, length_append, length_append] at hl
    omega
  have hhead := length_writeHead h.alignment_eq (by omega)
  constructor
  · rintro ⟨file, ctx', hw, hr, hsame⟩
    obtain ⟨hok, -, hd, rest, ⟨r, r', ⟨-, r0, -, hkvs⟩, hal, -⟩, -, -⟩ := initFromFilePtr_eq_ok hr
    have halign := (readAlignment_eq_ok hok.kv_ok hal).2.2
    rw [hsame.kv] at halign
    refine ⟨fun kv hkv hkey => ?_, fun kv hkv => hok.kv_bounded kv (hsame.kv ▸ hkv), ?_, fun ti hti => ?_⟩
    · cases hf : findKey ctx.kv keyGeneralAlignment with
      | none =>
        have := find?_eq_none.1 hf kv hkv
        simp [hkey] at this
      | some kv' =>
        rw [hf] at halign
        -- keys are distinct, so it is this pair
        obtain ⟨hmem, hkey'⟩ := findKey_eq_some hf
        obtain rfl : kv = kv' := inj_on_of_nodup_map h.kv_nodup hkv hmem (hkey.trans hkey'.symm)
        rw [← halign.2.2, hsame.alignment, h.alignment_eq]
    · unfold writeOut at hw
      split at hw
      next ha => exact contiguous_of_dataAsserts ha
      next => cases hw
    · have hmem : ti.summary ∈ ctx'.info.map (·.summary) := by
        rw [hsame.info]
        exact mem_map_of_mem hti
      obtain ⟨ti', hti', hsum⟩ := mem_map.1 hmem
      simp only [GgufTensorInfo.summary, Prod.mk.injEq] at hsum
      have hok' := hok.info_ok ti' hti'
      have hstr := hok'.strides
      rw [setStrides_congr hsum.1 hsum.2.1 hsum.2.2.1] at hstr
      rwa [hstr] at hok'
  · intro hp
    have hbase : 32 ∣ (writeHead ctx).length := by
      rw [hhead]
      exact dvd_ggmlPad (k := 5) (by decide)
    have hfile : fileBytes ctx dat = writeHead ctx ++
        writeData defaultAlignment dat ctx.info 0 ((writeHead ctx).length + 0) := by
      rw [fileBytes, h.alignment_eq, add_zero]
    have hlinked := h.linked
    rw [h.alignment_eq] at hlinked
    have hl := hlen
    rw [hfile, length_append] at hl
    have hstart : (writeHead ctx).length = (writeHead ctx).length + 0 := rfl
    obtain ⟨hasserts, ⟨size, hsize⟩, hdata⟩ := dataSection hstart hbase (Nat.dvd_zero _) hlinked h.info_valid
      hp.contiguous (by omega)
    refine ⟨fileBytes ctx dat, ⟨ggufVersion, ctx.kv, ctx.info.map readBack, defaultAlignment,
      (writeHead ctx).length, size, none⟩, ?_, ?_, ?_⟩
    · rw [add_zero] at hasserts
      rw [writeOut, h.alignment_eq, hasserts]
      rfl
    · have hsplit : fileBytes ctx dat = writeMeta ctx ++ (padding (writeMeta ctx).length ctx.alignment ++
          writeData ctx.alignment dat ctx.info 0 (writeHead ctx).length) := by
        rw [fileBytes, writeHead, append_assoc]
      have hmeta := readMeta_writeMeta h hp (padding (writeMeta ctx).length ctx.alignment ++
          writeData ctx.alignment dat ctx.info 0 (writeHead ctx).length) (hsplit ▸ hlen)
      rw [← hsplit] at hmeta
      have hpos : (fileBytes ctx dat).length - (padding (writeMeta ctx).length ctx.alignment ++
          writeData ctx.alignment dat ctx.info 0 (writeHead ctx).length).length = (writeMeta ctx).length := by
        rw [hsplit, length_append, Nat.add_sub_cancel]
      unfold initFromFilePtr
      rw [if_neg (by omega), hmeta]
      change readData mem ⟨noAlloc, false⟩ _ _ _ = _
      unfold readData
      simp only
      rw [hpos, ← hhead, if_neg (by omega), hsize]
      rfl
    · refine ⟨rfl, ?_, h.alignment_eq.symm, fun i ti hti => ?_⟩
      · rw [map_map]
        rfl
      · have hd := hdata i ti hti
        rw [← hfile, zero_add] at hd
        exact hd

def fourFloats (name : UInt8) : GgmlTensor := ⟨[name], 0, 4, 1, 1, 1, 4, 16, 16, 16⟩

lemma fourFloats_valid {name : UInt8} (h : name ≠ 0) : (fourFloats name).Valid := by
  refine ⟨?_, ?_, ?_, ?_, ?_, ?_, ?_⟩
  · exact (by decide : 1 < ggmlMaxName)
  · simpa [fourFloats] using Ne.symm h
  · exact (by decide : ∀ n ∈ [4, 1, 1, 1], n ≤ int64Max)
  · exact (by decide : 0 < typeTraits.length)
  · exact (by decide : 0 < blckSize 0)
  · exact (by decide : blckSize 0 ∣ 4)
  · exact fun hb => absurd rfl hb

/-- A context with the pair `a`, the number 7, and one tensor. -/
def smallContext : GgufContext :=
  { initEmpty with
    kv := [⟨[97], false, .uint8, [7], []⟩]
    info := [⟨fourFloats 98, 0⟩] }

lemma built_smallContext : Built smallContext := by
  have h1 : Built { initEmpty with kv := [⟨[97], false, .uint8, [7], []⟩] } :=
    .step (.init rfl) (@SetStep.val _ _ [97] .uint8 7 rfl)
  exact .step h1 (@SetStep.tensor _ _ (fourFloats 98) (fourFloats_valid (by decide)) rfl)

/-- The small context is written and read back. -/
theorem roundTrips_smallContext : Built smallContext ∧
    RoundTrips (fun _ => true) true smallContext fun _ _ => 0 := by
  refine ⟨built_smallContext, (fileRoundTrips_iff built_smallContext (by decide +kernel)).2 ⟨?_, ?_, ?_, ?_⟩⟩
  · decide
  · intro kv hkv
    obtain rfl : kv = ⟨[97], false, .uint8, [7], []⟩ := by simpa [smallContext] using hkv
    exact ⟨by decide, by simp, nofun, nofun⟩
  · decide
  · intro ti hti
    obtain rfl : ti = ⟨fourFloats 98, 0⟩ := by simpa [smallContext] using hti
    exact ⟨by decide, by decide, by decide, by decide, by decide, by decide, by decide, by decide, by decide,
      by decide, rfl⟩

def alignedContext : GgufContext :=
  { initEmpty with
    kv := [⟨keyGeneralAlignment, false, .uint32, [64, 0, 0, 0], []⟩]
    info := [⟨fourFloats 97, 0⟩, ⟨fourFloats 98, 32⟩] }

lemma built_alignedContext : Built alignedContext := by
  have h1 : Built { initEmpty with kv := [⟨keyGeneralAlignment, false, .uint32, [64, 0, 0, 0], []⟩] } :=
    .step (.init rfl) (@SetStep.val _ _ keyGeneralAlignment .uint32 64 rfl)
  have h2 : Built { initEmpty with
      kv := [⟨keyGeneralAlignment, false, .uint32, [64, 0, 0, 0], []⟩]
      info := [⟨fourFloats 97, 0⟩] } :=
    .step h1 (@SetStep.tensor _ _ (fourFloats 97) (fourFloats_valid (by decide)) rfl)
  exact .step h2 (@SetStep.tensor _ _ (fourFloats 98) (fourFloats_valid (by decide)) rfl)

/-- With the alignment 64 the writer puts the second tensor at offset 32, which the reader rejects. -/
theorem alignedContext_not_roundTrips : Built alignedContext ∧
    ¬ RoundTrips (fun _ => true) true alignedContext fun _ _ => 0 := by
  refine ⟨built_alignedContext, ?_⟩
  rintro ⟨file, ctx', hw, hr, -⟩
  obtain ⟨hwrite, hread⟩ : writeOut alignedContext (fun _ _ => 0) = some (fileBytes alignedContext fun _ _ => 0) ∧
      initFromFilePtr (fun _ => true) ⟨true, false⟩ (fileBytes alignedContext fun _ _ => 0) = .error .null := by
    decide +kernel
  rw [hwrite] at hw
  cases hw
  rw [hread] at hr
  cases hr

end Mallana.Gguf
