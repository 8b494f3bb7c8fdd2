import Mallana.Rpc.Basic

/-!
# What the tensor commands read and write

Every range of bytes that a tensor command touches lies in the buffer that its request names. The assertions of
`deserialize_tensor` and the checks of the handlers are made with 64-bit words; `rangeInside_toNat` and `dataInside_toNat`
say what they mean for numbers when the buffers end below 2^63.
-/

namespace Mallana.Rpc

open Mallana.Lib
open Mallana.Gguf (typeTraits blckSize typeSize)

lemma bind_eq_ok {ε α β : Type} {x : Except ε α} {f : α → Except ε β} {b : β} :
    x >>= f = .ok b ↔ ∃ a, x = .ok a ∧ f a = .ok b := by
  cases x with
  | error e => exact ⟨nofun, fun ⟨_, h, _⟩ => nomatch h⟩
  | ok a => exact ⟨fun h => ⟨a, rfl, h⟩, fun ⟨_, ha, h⟩ => Except.ok.inj ha ▸ h⟩

lemma map_eq_ok {ε α β : Type} {x : Except ε α} {f : α → β} {b : β} (h : x.map f = .ok b) :
    ∃ a, x = .ok a ∧ f a = b := by
  cases x with
  | error e => cases h
  | ok a => exact ⟨a, rfl, Except.ok.inj h⟩

namespace RpcServer

def Low (srv : RpcServer) : Prop :=
  ∀ handle b, srv.buffers handle = some b → b.base.toNat + b.size.toNat ≤ 9223372036854775808

def Buffer.Contains (b : Buffer) (addr size : Nat) : Prop :=
  b.base.toNat ≤ addr ∧ addr + size ≤ b.base.toNat + b.size.toNat

lemma Buffer.Contains.nbytes_lt {b : Buffer} {addr size : Nat} (h : Buffer.Contains b addr size)
    (hlow : b.base.toNat + b.size.toNat ≤ 9223372036854775808) : size < 9223372036854775808 := by
  obtain ⟨hlo, hhi⟩ := h
  rcases Nat.eq_zero_or_pos b.size.toNat with hz | hpos
  · omega
  · have hne : b.size ≠ 0 := fun e => by
      rw [e] at hpos
      exact absurd hpos (by decide)
    have hbase : b.base.toNat ≠ 0 := fun e => b.base_ne hne (UInt64.toNat_inj.1 e)
    omega

def Access.Inside (srv : RpcServer) (a : Access) : Prop :=
  ∃ b, srv.find a.buffer = some b ∧ Buffer.Contains b a.addr.toNat a.size.toNat

variable {srv : RpcServer} {t : RpcTensor} {r : GgmlTensor} {b : Buffer} {handle data offset size : UInt64}

lemma Low.of_find (h : srv.Low) (hb : srv.find handle = some b) :
    b.base.toNat + b.size.toNat ≤ 9223372036854775808 := by
  unfold find at hb
  split at hb
  · cases hb
  · exact h handle b hb

lemma toNat_add_of_lt {x y : UInt64} (h : x.toNat + y.toNat < 18446744073709551616) : (x + y).toNat = x.toNat + y.toNat := by
  rw [UInt64.toNat_add]
  exact Nat.mod_eq_of_lt h

lemma rangeInside_toNat (hlow : b.base.toNat + b.size.toNat ≤ 9223372036854775808)
    (h : rangeInside b data offset size = true) : Buffer.Contains b (data + offset).toNat size.toNat := by
  simp only [rangeInside, Bool.not_eq_true', Bool.or_eq_false_iff, decide_eq_false_iff_not, UInt64.not_lt, ge_iff_le,
    UInt64.not_le, gt_iff_lt] at h
  obtain ⟨⟨hlo, hhi⟩, hsize⟩ := h
  have hend : (b.base + b.size).toNat = b.base.toNat + b.size.toNat := toNat_add_of_lt (by omega)
  have hsub : b.base + b.size - data - offset = b.base + b.size - (data + offset) := by grind
  rw [UInt64.le_iff_toNat_le] at hlo
  rw [UInt64.lt_iff_toNat_lt, hend] at hhi
  have hle : data + offset ≤ b.base + b.size := by
    rw [UInt64.le_iff_toNat_le, hend]
    exact le_of_lt hhi
  rw [hsub, UInt64.le_iff_toNat_le, UInt64.toNat_sub_of_le _ _ hle, hend] at hsize
  exact ⟨hlo, by omega⟩

lemma dataInside_toNat (hlow : b.base.toNat + b.size.toNat ≤ 9223372036854775808) (h : dataInside b r = true) :
    Buffer.Contains b r.data.toNat r.nbytes.toNat := by
  simp only [dataInside, decide_eq_true_eq] at h
  obtain ⟨hwrap, hlo, hhi⟩ := h
  have hend : (b.base + b.size).toNat = b.base.toNat + b.size.toNat := toNat_add_of_lt (by omega)
  rw [UInt64.le_iff_toNat_le] at hwrap hlo
  rw [UInt64.le_iff_toNat_le, hend] at hhi
  have hsum := UInt64.toNat_add r.data r.nbytes
  have hdata := r.data.toNat_lt
  have hbytes := r.nbytes.toNat_lt
  refine ⟨hlo, ?_⟩
  omega

/-- What a tensor of the server is. -/
structure Deserialized (srv : RpcServer) (t : RpcTensor) (r : GgmlTensor) : Prop where
  eq : r = srv.newTensor t
  type_lt : t.type.toNat < typeTraits.length
  blck_pos : 0 < blckSize t.type.toNat
  inside : ∀ b, srv.find t.buffer = some b → dataInside b r = true

lemma deserializeTensor_eq_ok : srv.deserializeTensor t = .ok r ↔ srv.Deserialized t r := by
  unfold deserializeTensor
  constructor
  · intro h
    split at h
    · cases h
    split at h
    · cases h
    next htype hblck =>
    split at h
    next hall =>
      cases h
      refine ⟨rfl, Nat.lt_of_not_le htype, Nat.pos_of_ne_zero hblck, fun b hb => ?_⟩
      rw [hb] at hall
      exact hall
    · cases h
  · intro h
    rw [if_neg (Nat.not_le.2 h.type_lt), if_neg (ne_of_gt h.blck_pos), if_pos, h.eq]
    rcases hb : srv.find t.buffer with - | b
    · rfl
    · have hin := h.inside b hb
      rw [h.eq] at hin
      exact hin

lemma find_newTensor (srv : RpcServer) (t : RpcTensor) : srv.find (srv.newTensor t).buffer = srv.find t.buffer := by
  show srv.find (if (srv.find t.buffer).isSome then t.buffer else 0) = _
  rcases hb : srv.find t.buffer with - | b
  · exact if_pos rfl
  · exact hb

lemma buffer_newTensor_ne : (srv.newTensor t).buffer ≠ 0 ↔ ∃ b, srv.find t.buffer = some b := by
  rw [← srv.find_newTensor t]
  constructor
  · intro h
    rw [find_newTensor]
    have hne : (if (srv.find t.buffer).isSome then t.buffer else 0) ≠ 0 := h
    rcases hb : srv.find t.buffer with - | b
    · rw [hb] at hne
      exact absurd rfl hne
    · exact ⟨b, rfl⟩
  · rintro ⟨b, hb⟩ hz
    rw [hz] at hb
    cases hb

variable {accesses : List Access} {input : List UInt8}

lemma tensorRange_ok (h : tensorRange handle r offset size = .ok accesses) :
    ∀ a ∈ accesses, a = ⟨handle, r.data + offset, size⟩ := by
  unfold tensorRange at h
  split at h
  · cases h
    exact fun a ha => absurd ha List.not_mem_nil
  split at h
  · cases h
  split at h
  · cases h
    exact fun a ha => List.mem_singleton.1 ha
  · cases h

lemma access_inside (hlow : srv.Low) (h : srv.access t offset size = .ok accesses) :
    ∀ a ∈ accesses, a.buffer = t.buffer ∧ a.Inside srv := by
  obtain ⟨r, hr, h⟩ := bind_eq_ok.1 h
  obtain rfl := (deserializeTensor_eq_ok.1 hr).eq
  rw [find_newTensor] at h
  rcases hb : srv.find t.buffer with - | b
  · rw [hb] at h
    cases h
  · rw [hb] at h
    simp only [] at h
    split at h
    next hin =>
      intro a ha
      obtain rfl := tensorRange_ok h a ha
      exact ⟨rfl, b, hb, rangeInside_toNat (hlow.of_find hb) hin⟩
    · cases h

lemma setTensor_inside (hlow : srv.Low)
    (h : srv.setTensor input = .ok accesses) : ∀ a ∈ accesses, a.Inside srv := by
  unfold setTensor at h
  split at h
  · cases h
  · exact fun a ha => (access_inside hlow h a ha).2

lemma setTensorHash_inside (hlow : srv.Low)
    (h : srv.setTensorHash input = .ok accesses) : ∀ a ∈ accesses, a.Inside srv := by
  obtain ⟨⟨tensor, offset, hash⟩, -, h⟩ := bind_eq_ok.1 h
  simp only [] at h
  split at h
  · cases h
    exact fun a ha => absurd ha List.not_mem_nil
  · exact fun a ha => (access_inside hlow h a ha).2

lemma getTensor_inside (hlow : srv.Low)
    (h : srv.getTensor input = .ok accesses) : ∀ a ∈ accesses, a.Inside srv := by
  obtain ⟨⟨tensor, offset, size⟩, -, h⟩ := bind_eq_ok.1 h
  exact fun a ha => (access_inside hlow h a ha).2

lemma deserializeTensor?_eq_some {r : GgmlTensor} (h : srv.deserializeTensor? t = .ok (some r)) :
    srv.Deserialized t r := by
  unfold deserializeTensor? at h
  split at h
  next result hr =>
    cases h
    exact deserializeTensor_eq_ok.1 hr
  · cases h
  · cases h

lemma copyRange_inside {reqSrc reqDst : RpcTensor} {src dst : GgmlTensor} (hlow : srv.Low)
    (hsrc : srv.Deserialized reqSrc src) (hdst : srv.Deserialized reqDst dst)
    (h : srv.copyRange reqSrc reqDst src dst = .ok accesses) : ∀ a ∈ accesses, a.Inside srv := by
  unfold copyRange at h
  split at h
  next srcBuffer dstBuffer hfs hfd =>
    rw [hsrc.eq, find_newTensor] at hfs
    rw [hdst.eq, find_newTensor] at hfd
    have hs := dataInside_toNat (hlow.of_find hfs) (hsrc.inside _ hfs)
    have hd := dataInside_toNat (hlow.of_find hfd) (hdst.inside _ hfd)
    split at h
    · cases h
    next hend =>
      cases h
      have hls := hlow.of_find hfs
      have hld := hlow.of_find hfd
      have hdata : dst.data.toNat + src.nbytes.toNat < 18446744073709551616 := by
        have h2 := hd.2
        have h3 := hs.nbytes_lt hls
        omega
      rw [gt_iff_lt, UInt64.not_lt, UInt64.le_iff_toNat_le, toNat_add_of_lt hdata, toNat_add_of_lt (by omega)] at hend
      intro a ha
      rcases List.mem_cons.1 ha with rfl | ha
      · exact ⟨srcBuffer, hfs, hs⟩
      · obtain rfl := List.mem_singleton.1 ha
        exact ⟨dstBuffer, hfd, hd.1, hend⟩
  · cases h

lemma copyTensor_inside (hlow : srv.Low)
    (h : srv.copyTensor input = .ok accesses) : ∀ a ∈ accesses, a.Inside srv := by
  obtain ⟨⟨reqSrc, reqDst⟩, -, h⟩ := bind_eq_ok.1 h
  obtain ⟨src, hsrc, h⟩ := bind_eq_ok.1 h
  obtain ⟨dst, hdst, h⟩ := bind_eq_ok.1 h
  rcases src with - | src
  · cases h
  rcases dst with - | dst
  · cases h
  · exact copyRange_inside hlow (deserializeTensor?_eq_some hsrc) (deserializeTensor?_eq_some hdst) h

/-- The tensor commands stay in the buffers that their requests name. -/
theorem handle_inside (hlow : srv.Low) {cmd : TensorCmd}
    (h : srv.handle cmd input = .ok accesses) : ∀ a ∈ accesses, a.Inside srv := by
  cases cmd with
  | setTensor => exact setTensor_inside hlow h
  | setTensorHash => exact setTensorHash_inside hlow h
  | getTensor => exact getTensor_inside hlow h
  | copyTensor => exact copyTensor_inside hlow h

end RpcServer

end Mallana.Rpc
