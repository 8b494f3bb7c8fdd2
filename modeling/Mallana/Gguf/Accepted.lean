import Mallana.Gguf.Total

/-!
# What an accepted file says

Facts about the context of a file that the reader accepts: the pairs have distinct keys and values of the
shape their type asks for, the tensor infos have distinct names and passed the checks on dimensions and
type, and the alignment is a power of 2.
-/

namespace Mallana.Gguf

open Lib ByteParser List

lemma leNat_lt (bs : List UInt8) : leNat bs < 256 ^ bs.length := by
  induction bs with
  | nil => decide
  | cons b bs ih =>
    have hb := UInt8.toNat_lt b
    rw [leNat, length_cons, pow_succ]
    omega

/-- The lengths that the reader accepts, and the bytes that it makes of a `bool`. -/
structure GgufKv.Bounded (kv : GgufKv) : Prop where
  key_le : kv.key.length ≤ maxStringLength
  strings_le : ∀ s ∈ kv.dataString, s.length ≤ maxStringLength
  ne_le : kv.isArray = true → kv.getNe ≤ maxArrayElements
  bools : kv.type = .bool → ∀ b ∈ kv.data, b = 0 ∨ b = 1

variable {bs rest : List UInt8} {t : GgufType} {α : Type} {n : Nat} {isArray : Bool} {key : List UInt8}
  {kv : GgufKv} {kvs : List GgufKv}

lemma readString_eq_ok {s : List UInt8} (h : readString bs = .ok (s, rest)) : s.length ≤ maxStringLength := by
  obtain ⟨n, r1, -, h⟩ := bind_eq_ok.1 h
  obtain ⟨_, r2, hc, h⟩ := bind_eq_ok.1 h
  have hle := of_decide_eq_true (require_eq_ok.1 hc).1
  obtain ⟨hn, he⟩ := bytes_eq_ok.1 h
  cases he
  rw [length_take]
  omega

lemma readFixed_eq_ok {b : List UInt8} (h : readFixed t bs = .ok (b, rest)) :
    b.length = t.size ∧ (t = .bool → ∀ x ∈ b, x = 0 ∨ x = 1) := by
  obtain ⟨c, r1, hb, h⟩ := bind_eq_ok.1 h
  obtain ⟨hn, he⟩ := bytes_eq_ok.1 hb
  cases he
  cases h
  split
  next =>
    refine ⟨?_, fun _ x hx => ?_⟩
    · rw [length_map, length_take]
      omega
    · obtain ⟨y, -, rfl⟩ := mem_map.1 hx
      split
      · exact .inl rfl
      · exact .inr rfl
  next ht =>
    refine ⟨?_, fun hc => absurd hc ht⟩
    rw [length_take]
    omega

lemma readVector_eq_ok {elem : Reader α} {size : Nat} {as : List α}
    (h : readVector elem size n bs = .ok (as, rest)) :
    n ≤ maxArrayElements ∧ ∃ bs', times elem n bs' = .ok (as, rest) := by
  obtain ⟨_, r1, hc, h⟩ := bind_eq_ok.1 h
  obtain ⟨_, r2, -, h⟩ := bind_eq_ok.1 h
  obtain ⟨_, r3, -, h⟩ := bind_eq_ok.1 h
  obtain ⟨_, r4, -, h⟩ := bind_eq_ok.1 h
  exact ⟨of_decide_eq_true (require_eq_ok.1 hc).1, r4, h⟩

lemma readMany_eq_ok {elem : Reader α} {size : Nat} {as : List α}
    (h : (if isArray then readVector elem size n else times elem 1) bs = .ok (as, rest)) :
    (isArray = true → as.length ≤ maxArrayElements) ∧ (isArray = false → as.length = 1) ∧
      ∀ a ∈ as, ∃ bs' rest', elem bs' = .ok (a, rest') := by
  cases isArray with
  | true =>
    obtain ⟨hle, bs', ht⟩ := readVector_eq_ok h
    refine ⟨fun _ => ?_, nofun, fun a ha => exists_of_mem_times ht ha⟩
    rw [length_of_times ht]
    exact hle
  | false => exact ⟨nofun, fun _ => length_of_times h, fun a ha => exists_of_mem_times h ha⟩

lemma length_flatten_of_forall {l : List (List UInt8)} (h : ∀ b ∈ l, b.length = n) :
    l.flatten.length = l.length * n := by
  induction l with
  | nil => simp
  | cons b l ih =>
    simp only [mem_cons, forall_eq_or_imp] at h
    rw [flatten_cons, length_append, h.1, ih h.2, length_cons, Nat.succ_mul, add_comm]

lemma readValue_eq_ok (h : readValue key t isArray n bs = .ok (kv, rest)) (ht : t ≠ .array) (hkey : key ≠ [])
    (hlen : key.length ≤ maxStringLength) : kv.Ok ∧ kv.Bounded ∧ kv.key = key := by
  unfold readValue at h
  split at h
  next hs =>
    obtain ⟨ss, r1, hr, h⟩ := bind_eq_ok.1 h
    cases h
    obtain ⟨hmax, hone, hmem⟩ := readMany_eq_ok hr
    have hne : (GgufKv.mk key isArray t [] ss).getNe = ss.length := if_pos hs
    refine ⟨⟨hkey, ht, fun _ => rfl, fun hc => absurd hs hc, fun ha => ?_⟩,
      ⟨hlen, ?_, fun ha => ?_, fun _ => by simp⟩, rfl⟩
    · rw [hne, hone ha]
    · intro s hsm
      obtain ⟨_, _, hread⟩ := hmem s hsm
      exact readString_eq_ok hread
    · rw [hne]
      exact hmax ha
  next hs =>
    obtain ⟨es, r1, hr, h⟩ := bind_eq_ok.1 h
    cases h
    obtain ⟨hmax, hone, hmem⟩ := readMany_eq_ok hr
    have hlenes : es.flatten.length = es.length * t.size := by
      refine length_flatten_of_forall fun b hb => ?_
      obtain ⟨_, _, hread⟩ := hmem b hb
      exact (readFixed_eq_ok hread).1
    have hpos : 0 < t.size := GgufType.Fixed.size_pos ⟨hs, ht⟩
    have hne : (GgufKv.mk key isArray t es.flatten []).getNe = es.length := by
      change (if t = .string then _ else es.flatten.length / t.size) = _
      rw [if_neg hs, hlenes, Nat.mul_div_cancel _ hpos]
    refine ⟨⟨hkey, ht, fun hc => absurd hc hs, fun _ => ⟨rfl, ?_⟩, fun ha => ?_⟩,
      ⟨hlen, by simp, fun ha => ?_, fun hb x hx => ?_⟩, rfl⟩
    · exact ⟨es.length, by rw [hlenes, mul_comm]⟩
    · rw [hne, hone ha]
    · rw [hne]
      exact hmax ha
    · obtain ⟨b, hbm, hx⟩ := mem_flatten.1 hx
      obtain ⟨_, _, hread⟩ := hmem b hbm
      exact (readFixed_eq_ok hread).2 hb x hx

lemma readTyped_eq_ok {tag : Nat} (h : readTyped key tag isArray n bs = .ok (kv, rest)) :
    ∃ t, t ≠ .array ∧ readValue key t isArray n bs = .ok (kv, rest) := by
  unfold readTyped at h
  cases ht : GgufType.ofId tag with
  | none =>
    rw [ht] at h
    cases h
  | some t =>
    simp only [ht] at h
    split at h
    · cases h
    next hne => exact ⟨t, hne, h⟩

lemma key_of_readValue (h : readValue key t isArray n bs = .ok (kv, rest)) : kv.key = key := by
  unfold readValue at h
  split at h
  · obtain ⟨ss, r1, hr, h⟩ := bind_eq_ok.1 h
    cases h
    rfl
  · obtain ⟨es, r1, hr, h⟩ := bind_eq_ok.1 h
    cases h
    rfl

lemma readKv_eq_ok {kvs' : List GgufKv} (h : readKv kvs bs = .ok (kvs', rest)) :
    ∃ kv, kvs' = kvs ++ [kv] ∧ kv.Ok ∧ kv.Bounded ∧ ∀ kv' ∈ kvs, kv'.key ≠ kv.key := by
  obtain ⟨kv, r1, hp, h⟩ := bind_eq_ok.1 h
  unfold emplaceBack at h
  split at h
  · cases h
  next hkey =>
    cases h
    obtain ⟨key, r2, hs, hp⟩ := bind_eq_ok.1 hp
    obtain ⟨_, r3, hdup, hp⟩ := bind_eq_ok.1 hp
    obtain ⟨tag, r4, -, hp⟩ := bind_eq_ok.1 hp
    have hval : ∃ t isArray n bs' rest', t ≠ .array ∧ readValue key t isArray n bs' = .ok (kv, rest') := by
      split at hp
      · obtain ⟨tag', r5, -, hp⟩ := bind_eq_ok.1 hp
        obtain ⟨n, r6, -, hp⟩ := bind_eq_ok.1 hp
        obtain ⟨t, ht, hv⟩ := readTyped_eq_ok hp
        exact ⟨t, _, _, _, _, ht, hv⟩
      · obtain ⟨t, ht, hv⟩ := readTyped_eq_ok hp
        exact ⟨t, _, _, _, _, ht, hv⟩
    obtain ⟨t, isArray, n, bs', rest', ht, hv⟩ := hval
    have hk := key_of_readValue hv
    rw [hk] at hkey
    obtain ⟨hok, hb, -⟩ := readValue_eq_ok hv ht hkey (readString_eq_ok hs)
    refine ⟨kv, rfl, hok, hb, fun kv' hkv' => ?_⟩
    rw [hk]
    exact of_decide_eq_true (all_eq_true.1 (require_eq_ok.1 hdup).1 kv' hkv')

/-- What the reader has checked about a tensor. -/
structure TensorOk (t : GgmlTensor) : Prop where
  ne1_pos : 0 < t.ne1
  ne2_pos : 0 < t.ne2
  ne3_pos : 0 < t.ne3
  elems1 : t.ne0 < int64Max / t.ne1
  elems2 : t.ne0 * t.ne1 < int64Max / t.ne2
  elems3 : t.ne0 * t.ne1 * t.ne2 < int64Max / t.ne3
  type_lt : t.type < typeTraits.length
  blck_pos : 0 < blckSize t.type
  blck_dvd : blckSize t.type ∣ t.ne0
  size_le : t.nelements / blckSize t.type ≤ sizeMax / typeSize t.type
  strides : t = t.setStrides

lemma typeSize_pos {type : Nat} (hlt : type < typeTraits.length) (h : 0 < blckSize type) : 0 < typeSize type := by
  have hall : ∀ i < typeTraits.length, 0 < blckSize i → 0 < typeSize i := by decide
  exact hall type hlt h

lemma checkElements_eq_ok {ne0 ne1 ne2 ne3 : Nat} {r : Unit × List UInt8}
    (h : checkElements ne0 ne1 ne2 ne3 bs = .ok r) :
    r = ((), bs) ∧ 0 < ne1 ∧ 0 < ne2 ∧ 0 < ne3 ∧ ne0 < int64Max / ne1 ∧ ne0 * ne1 < int64Max / ne2 ∧
      ne0 * ne1 * ne2 < int64Max / ne3 := by
  unfold checkElements at h
  split at h
  · cases h
  split at h
  · cases h
  split at h
  · cases h
  split at h
  · cases h
  split at h
  · cases h
  split at h
  · cases h
  cases h
  refine ⟨rfl, ?_, ?_, ?_, ?_, ?_, ?_⟩ <;> omega

lemma readType_eq_ok {name : List UInt8} {ne0 ne1 ne2 ne3 : Nat} {t : GgmlTensor}
    (h : readType name ne0 ne1 ne2 ne3 bs = .ok (t, rest)) :
    t = GgmlTensor.setStrides ⟨name, t.type, ne0, ne1, ne2, ne3, 0, 0, 0, 0⟩ ∧
      t.type < typeTraits.length ∧ 0 < blckSize t.type ∧ blckSize t.type ∣ ne0 ∧
      ne0 * ne1 * ne2 * ne3 / blckSize t.type ≤ sizeMax / typeSize t.type := by
  obtain ⟨type, r1, -, h⟩ := bind_eq_ok.1 h
  obtain ⟨_, r2, hc1, h⟩ := bind_eq_ok.1 h
  obtain ⟨_, r3, hc2, h⟩ := bind_eq_ok.1 h
  obtain ⟨_, r4, hc3, h⟩ := bind_eq_ok.1 h
  cases h
  have hlt := of_decide_eq_true (require_eq_ok.1 hc1).1
  have hblck := (require_eq_ok.1 hc2).1
  have hsize := of_decide_eq_true (require_eq_ok.1 hc3).1
  simp only [Bool.and_eq_true, decide_eq_true_eq] at hblck
  exact ⟨rfl, hlt, Nat.pos_of_ne_zero hblck.1, Nat.dvd_of_mod_eq_zero hblck.2, hsize⟩

lemma readInfo_eq_ok {infos infos' : List GgufTensorInfo} (h : readInfo infos bs = .ok (infos', rest)) :
    ∃ ti, infos' = infos ++ [ti] ∧ TensorOk ti.t ∧ (∀ tj ∈ infos, tj.t.name ≠ ti.t.name) := by
  obtain ⟨name, r1, hn, h⟩ := bind_eq_ok.1 h
  obtain ⟨ne, r2, -, h⟩ := bind_eq_ok.1 h
  obtain ⟨_, r3, hc, h⟩ := bind_eq_ok.1 h
  obtain ⟨t, r4, ht, h⟩ := bind_eq_ok.1 h
  obtain ⟨offset, r5, -, h⟩ := bind_eq_ok.1 h
  cases h
  obtain ⟨-, h1, h2, h3, e1, e2, e3⟩ := checkElements_eq_ok hc
  obtain ⟨heq, hlt, hpos, hdvd, hsize⟩ := readType_eq_ok ht
  refine ⟨⟨t, offset⟩, rfl, ?_, ?_⟩
  · rw [heq]
    exact ⟨h1, h2, h3, e1, e2, e3, hlt, hpos, hdvd, hsize, rfl⟩
  · obtain ⟨s, s1, -, hn⟩ := bind_eq_ok.1 hn
    obtain ⟨_, s2, -, hn⟩ := bind_eq_ok.1 hn
    obtain ⟨_, s3, hdup, hn⟩ := bind_eq_ok.1 hn
    cases hn
    have hall := (require_eq_ok.1 hdup).1
    intro tj hj
    have hne := all_eq_true.1 hall tj hj
    rw [heq]
    exact of_decide_eq_true hne

/-- What the reader establishes for a context. -/
structure GgufContext.Ok (ctx : GgufContext) : Prop where
  kv_ok : ∀ kv ∈ ctx.kv, kv.Ok
  kv_bounded : ∀ kv ∈ ctx.kv, kv.Bounded
  kv_nodup : (ctx.kv.map (·.key)).Nodup
  info_ok : ∀ ti ∈ ctx.info, TensorOk ti.t
  info_nodup : (ctx.info.map (·.t.name)).Nodup
  alignment_pow : ∃ k ≤ 32, ctx.alignment = 2 ^ k

lemma nodup_map_append {β : Type} {f : α → β} {l : List α} {a : α} (hl : (l.map f).Nodup)
    (h : ∀ x ∈ l, f x ≠ f a) : ((l ++ [a]).map f).Nodup := by
  rw [map_append, nodup_append]
  refine ⟨hl, by simp, ?_⟩
  intro x hx y hy
  obtain ⟨z, hz, rfl⟩ := mem_map.1 hx
  obtain rfl := mem_singleton.1 hy
  exact h z hz

lemma loop_readKv_ok (h : loop readKv n [] bs = .ok (kvs, rest)) :
    (∀ kv ∈ kvs, kv.Ok ∧ kv.Bounded) ∧ (kvs.map (·.key)).Nodup := by
  refine loop_inv (P := fun _ (kvs : List GgufKv) => (∀ kv ∈ kvs, kv.Ok ∧ kv.Bounded) ∧
    (kvs.map (·.key)).Nodup) (m := 0) h ⟨by simp, nodup_nil⟩ ?_
  rintro k kvs bs kvs' rest ⟨hall, hnd⟩ hr
  obtain ⟨kv, rfl, hok, hb, hne⟩ := readKv_eq_ok hr
  refine ⟨fun x hx => ?_, nodup_map_append hnd hne⟩
  obtain hx | hx := mem_append.1 hx
  · exact hall x hx
  · obtain rfl := mem_singleton.1 hx
    exact ⟨hok, hb⟩

lemma loop_readInfo_ok {infos : List GgufTensorInfo} (h : loop readInfo n [] bs = .ok (infos, rest)) :
    (∀ ti ∈ infos, TensorOk ti.t) ∧ (infos.map (·.t.name)).Nodup := by
  refine loop_inv (P := fun _ (infos : List GgufTensorInfo) => (∀ ti ∈ infos, TensorOk ti.t) ∧
    (infos.map (·.t.name)).Nodup) (m := 0) h ⟨by simp, nodup_nil⟩ ?_
  rintro k infos bs infos' rest ⟨hall, hnd⟩ hr
  obtain ⟨ti, rfl, hok, hne⟩ := readInfo_eq_ok hr
  refine ⟨fun x hx => ?_, nodup_map_append (f := fun ti : GgufTensorInfo => ti.t.name) hnd hne⟩
  obtain hx | hx := mem_append.1 hx
  · exact hall x hx
  · obtain rfl := mem_singleton.1 hx
    exact hok

lemma readAlignment_eq_ok {r : Nat × List UInt8}
    (hkvs : ∀ kv ∈ kvs, kv.Ok) (h : readAlignment kvs bs = .ok r) :
    r.2 = bs ∧ (∃ k ≤ 32, r.1 = 2 ^ k) ∧ match findKey kvs keyGeneralAlignment with
      | none => r.1 = defaultAlignment
      | some kv => kv.type = .uint32 ∧ kv.data.length = 4 ∧ r.1 = leNat kv.data := by
  obtain ⟨a, r1, hv, h⟩ := bind_eq_ok.1 h
  obtain ⟨_, r2, hc, h⟩ := bind_eq_ok.1 h
  obtain ⟨hpow, he⟩ := require_eq_ok.1 hc
  cases he
  cases h
  obtain ⟨k, hk⟩ := alignmentOk_iff.1 hpow
  unfold alignmentValue at hv
  cases hf : findKey kvs keyGeneralAlignment with
  | none =>
    simp only [hf] at hv
    cases hv
    exact ⟨rfl, ⟨5, by decide, rfl⟩, rfl⟩
  | some kv =>
    simp only [hf] at hv
    unfold getValU32 at hv
    split at hv
    · cases hv
    split at hv
    · cases hv
    next hne htype =>
      have hne := not_not.1 hne
      have htype := not_not.1 htype
      have hmem : kv ∈ kvs := mem_of_find?_eq_some hf
      obtain ⟨-, c, hc⟩ := (hkvs kv hmem).bytes (by rw [htype]; decide)
      have hlen : kv.data.length = 4 := by
        unfold GgufKv.getNe at hne
        rw [if_neg (by rw [htype]; decide), hc, htype] at hne
        rw [hc, htype]
        change 4 * c / 4 = 1 at hne
        change 4 * c = 4
        omega
      cases hv
      refine ⟨rfl, ⟨k, ?_, hk⟩, htype, hlen, rfl⟩
      have hlt := leNat_lt kv.data
      rw [hlen, hk] at hlt
      by_contra hc
      have := Nat.pow_le_pow_right (n := 2) (by decide) (show 33 ≤ k by omega)
      omega

lemma loadTensors_eq_ok {mem : Nat → Bool} {params : GgufInitParams} {ctx ctx' : GgufContext} {remain : Nat} (h : loadTensors mem params ctx remain rest = .ok ctx') :
    ctx' = { ctx with data := ctx'.data } := by
  unfold loadTensors at h
  split at h
  · cases h
    rfl
  cases hm : poolSize params.noAlloc ctx.info.length ctx.size with
  | none =>
    rw [hm] at h
    cases h
  | some memSize =>
    simp only [hm] at h
    split at h
    · cases h
    split at h
    · cases ht : newTensors (poolBytes memSize) ctx.info 0 with
      | error e =>
        rw [ht] at h
        cases h
      | ok c =>
        rw [ht] at h
        cases h
        rfl
    · cases ht : newTensor (poolBytes memSize) 0 ctx.size with
      | error e =>
        rw [ht] at h
        cases h
      | ok c =>
        cases hb : readBlob ctx.size remain rest with
        | error e =>
          rw [ht, hb] at h
          cases h
        | ok data =>
          cases hn : newTensors (poolBytes memSize) ctx.info c with
          | error e =>
            rw [ht, hb] at h
            change (newTensors (poolBytes memSize) ctx.info c >>= _) = _ at h
            rw [hn] at h
            cases h
          | ok c' =>
            rw [ht, hb] at h
            change (newTensors (poolBytes memSize) ctx.info c >>= _) = _ at h
            rw [hn] at h
            cases h
            rfl

lemma initFromFilePtr_eq_ok {mem : Nat → Bool} {params : GgufInitParams} {file : List UInt8}
    {ctx : GgufContext} (h : initFromFilePtr mem params file = .ok ctx) :
    ctx.Ok ∧ computeSize ctx.alignment ctx.info 0 = .ok ctx.size ∧
      ∃ hd rest, InfosRead file hd ctx.kv ctx.alignment hd.nTensors ctx.info rest ∧
        ctx.version = hd.version ∧ ctx.offset = ggmlPad (file.length - rest.length) ctx.alignment := by
  unfold initFromFilePtr at h
  split at h
  · cases h
  next hlen =>
    have hlen := Nat.not_lt.1 hlen
    cases hm : readMeta file with
    | error e =>
      rw [hm] at h
      cases h
    | ok r =>
      obtain ⟨c, rest⟩ := r
      rw [hm] at h
      change readData mem params file c rest = .ok ctx at h
      unfold readData at h
      simp only at h
      split at h
      · cases h
      cases hs : computeSize c.alignment c.info 0 with
      | error e =>
        rw [hs] at h
        cases h
      | ok size =>
        rw [hs] at h
        obtain ⟨hd, hi, hc⟩ := (readMeta_eq_ok hlen).1 hm
        have hctx := loadTensors_eq_ok h
        have hkv : ctx.kv = c.kv := by rw [hctx]
        have hinfo : ctx.info = c.info := by rw [hctx]
        have ha : ctx.alignment = c.alignment := by rw [hctx]
        have hoff : ctx.offset = ggmlPad (file.length - rest.length) c.alignment := by rw [hctx]
        have hsize : ctx.size = size := by rw [hctx]
        have hversion : ctx.version = hd.version := by rw [hctx, hc]
        rw [← hkv, ← hinfo, ← ha] at hi
        refine ⟨?_, by rw [ha, hinfo, hsize, hs], hd, rest, hi, hversion, by rw [hoff, ha]⟩
        obtain ⟨r1, r2, ⟨-, r0, hh, hk⟩, hal, hl⟩ := hi
        obtain ⟨hkvs, hknd⟩ := loop_readKv_ok hk
        obtain ⟨hinfos, hind⟩ := loop_readInfo_ok hl
        exact ⟨fun kv hkv => (hkvs kv hkv).1, fun kv hkv => (hkvs kv hkv).2, hknd, hinfos, hind,
          (readAlignment_eq_ok (fun kv hkv => (hkvs kv hkv).1) hal).2.1⟩

end Mallana.Gguf
