import Mathlib.Data.Fin.VecNotation
import Mathlib.Data.Set.Card
import Mathlib.Tactic.FinCases
import Mallana.Rpc.Client
import Mallana.Rpc.Safety

/-!
# Sending a graph

`serialize_graph` and `graph_compute` together: the server builds a graph with the nodes, operations, sources and views of the
client. The wire format has 64 bits for pointers and offsets and 32 bits for dimensions and strides. `graphRoundTrips_iff` says
that the elements keep their addresses exactly when the message has a size that fits in an `int` and no stride that is used
needs more than 32 bits.
-/

namespace Mallana.Rpc

open Mallana.Lib List
open Mallana.Gguf (typeTraits blckSize typeSize)

namespace Heap

/-- A tensor of the client in an RPC buffer that the server has registered, with dimensions below 2^32. -/
structure HostedTensor (srv : RpcServer) (h : Heap) (t : GgmlTensor) : Prop where
  type_lt : t.type.toNat < typeTraits.length
  blck_pos : 0 < blckSize t.type.toNat
  dims : ∀ d, (t.ne d).toNat < 4294967296
  resident : ∃ handle b, t.buffer ≠ 0 ∧ h.remotePtr t.buffer = some handle ∧ srv.find handle = some b ∧
    b.base.toNat + b.size.toNat < 18446744073709551616 ∧
    RpcServer.Buffer.Contains b t.data.toNat (if ∃ d, t.ne d = 0 then 0 else t.exactBytes)

/-- The nodes are tensors, and every tensor of the graph lives in a buffer of the server. -/
structure Hosted (srv : RpcServer) (h : Heap) (nodes : List UInt64) : Prop where
  node : ∀ n ∈ nodes, ∃ t, h.tensor n = some t
  tensor : ∀ k t, h.Reached nodes k → h.tensor k = some t → HostedTensor srv h t

/-- The server has the tensor of the client, and its elements have the same addresses. -/
structure SameTensor (t r : GgmlTensor) : Prop where
  type : r.type = t.type
  ne : r.ne = t.ne
  op : r.op = t.op
  opParams : r.opParams = t.opParams
  flags : r.flags = t.flags
  src : r.src = t.src
  viewSrc : r.viewSrc = t.viewSrc
  viewOffs : r.viewOffs = t.viewOffs
  address : ∀ i : Fin 4 → Nat, (∀ d, i d < (t.ne d).toNat) → r.address i = t.address i

/-- The message is sent and accepted, and the graph of the server is that of the client. -/
def RoundTrips (srv : RpcServer) (h : Heap) (device : UInt32) (nodes : List UInt64) : Prop :=
  ∃ bytes g, h.serializeGraph device nodes = some bytes ∧ srv.graphCompute bytes = .ok (device, g) ∧
    g.nodes = nodes.map some ∧ (∀ k, g.Handed k ↔ h.Reached nodes k) ∧
    ∀ k t, h.Reached nodes k → h.tensor k = some t → ∃ r, g.tensors k = some r ∧ SameTensor t r

/-- The tensor has no elements, or the stride of every dimension with more than one element has 32 bits. -/
def StridesFit (t : GgmlTensor) : Prop :=
  (∃ d, t.ne d = 0) ∨ ∀ d, 1 < (t.ne d).toNat → (t.nb d).toNat < 4294967296

/-- The size of the message fits in an `int`, and so do the strides in the wire format. -/
def GraphFits (h : Heap) (nodes : List UInt64) : Prop :=
  8 + nodes.length * 8 + 4 + {k | h.Reached nodes k}.ncard * RpcTensor.codec.size < 2147483648 ∧
    ∀ k t, h.Reached nodes k → h.tensor k = some t → StridesFit t

variable {srv : RpcServer} {h : Heap} {device : UInt32} {nodes : List UInt64} {k n p : UInt64} {t : GgmlTensor}
  {w : RpcTensor}

lemma length_graphTensors (hnodes : ∀ n ∈ nodes, ∃ t, h.tensor n = some t) :
    (h.graphTensors nodes).length = {k | h.Reached nodes k}.ncard := by
  obtain ⟨hnodup, -, hreached⟩ := graphTensors_spec hnodes
  have hset : {k | h.Reached nodes k} = ↑((h.graphTensors nodes).map RpcTensor.id).toFinset := by
    ext k
    rw [Set.mem_ofPred_eq, hreached, coe_toFinset]
    exact mem_map.symm
  rw [hset, Set.ncard_coe_finset, toFinset_card_of_nodup hnodup, length_map]

lemma tensorPtrs_eq_some_iff (hnodes : ∀ n ∈ nodes, ∃ t, h.tensor n = some t) :
    (h.graphRequest device nodes).tensorPtrs k = some w ↔
      h.Reached nodes k ∧ ∃ t, h.tensor k = some t ∧ w = h.serializeTensor k t := by
  obtain ⟨-, htensor, hreached⟩ := graphTensors_spec hnodes
  have hforward : ∀ w, (h.graphRequest device nodes).tensorPtrs k = some w →
      h.Reached nodes k ∧ ∃ t, h.tensor k = some t ∧ w = h.serializeTensor k t := by
    intro w hw
    obtain ⟨hmem, rfl⟩ := RpcServer.tensorPtrs_eq_some hw
    exact ⟨(hreached _).2 ⟨w, hmem, rfl⟩, htensor w hmem⟩
  refine ⟨hforward w, ?_⟩
  rintro ⟨hr, t, ht, rfl⟩
  obtain ⟨w, hmem, hid⟩ := (hreached k).1 hr
  have hsome : ((h.graphRequest device nodes).tensorPtrs k).isSome = true :=
    find?_isSome.2 ⟨w, hmem, decide_eq_true hid⟩
  obtain ⟨w', hw'⟩ := Option.isSome_iff_exists.1 hsome
  obtain ⟨-, t', ht', rfl⟩ := hforward w' hw'
  obtain rfl := Option.some.inj (ht.symm.trans ht')
  exact hw'

lemma ref_serializeTensor (slot : Slot) : (h.serializeTensor p t).ref slot = t.ref slot := by
  cases slot with
  | none => rfl
  | some i => rfl

lemma leads_iff (hnodes : ∀ n ∈ nodes, ∃ t, h.tensor n = some t) (hn : n ∈ nodes) :
    RpcServer.Leads (h.graphRequest device nodes).tensorPtrs n k ↔ h.Leads n k := by
  constructor
  · intro hl
    induction hl with
    | refl => exact .refl
    | tail _ hr ih =>
      obtain ⟨w, slot, hw, hslot, hne⟩ := hr
      obtain ⟨-, t, ht, rfl⟩ := (tensorPtrs_eq_some_iff hnodes).1 hw
      exact ih.tail ⟨t, slot, ht, (ref_serializeTensor slot).symm.trans hslot, hne⟩
  · intro hl
    induction hl with
    | refl => exact .refl
    | tail hl hr ih =>
      obtain ⟨t, slot, ht, hslot, hne⟩ := hr
      exact ih.tail ⟨_, slot, (tensorPtrs_eq_some_iff hnodes).2 ⟨⟨n, hn, hl⟩, t, ht, rfl⟩,
        (ref_serializeTensor slot).trans hslot, hne⟩

lemma ne_newTensor (srv : RpcServer) (h : Heap) (p : UInt64) (hdims : ∀ d, (t.ne d).toNat < 4294967296) : (srv.newTensor (h.serializeTensor p t)).ne = t.ne := by
  funext d
  refine UInt64.toNat_inj.1 ?_
  show (t.ne d).toUInt32.toUInt64.toNat = _
  rw [UInt32.toNat_toUInt64, UInt64.toNat_toUInt32]
  exact Nat.mod_eq_of_lt (hdims d)

lemma nb_newTensor (d : Fin 4) :
    ((srv.newTensor (h.serializeTensor p t)).nb d).toNat = (t.nb d).toNat % 4294967296 := by
  show (t.nb d).toUInt32.toUInt64.toNat = _
  rw [UInt32.toNat_toUInt64, UInt64.toNat_toUInt32]

lemma nb_newTensor_le (d : Fin 4) : ((srv.newTensor (h.serializeTensor p t)).nb d).toNat ≤ (t.nb d).toNat := by
  rw [nb_newTensor]
  exact Nat.mod_le _ _

lemma exactBytes_newTensor_le (srv : RpcServer) (h : Heap) (p : UInt64) (hdims : ∀ d, (t.ne d).toNat < 4294967296) :
    (srv.newTensor (h.serializeTensor p t)).exactBytes ≤ t.exactBytes := by
  have hne := ne_newTensor srv h p hdims
  have hmul : ∀ (d : Fin 4) (a : Nat), a * ((srv.newTensor (h.serializeTensor p t)).nb d).toNat ≤ a * (t.nb d).toNat :=
    fun d a => Nat.mul_le_mul_left a (nb_newTensor_le d)
  have houter : (srv.newTensor (h.serializeTensor p t)).outer (srv.newTensor (h.serializeTensor p t)).lastIndex ≤
      t.outer t.lastIndex := by
    have h1 := hmul 1 (t.lastIndex 1)
    have h2 := hmul 2 (t.lastIndex 2)
    have h3 := hmul 3 (t.lastIndex 3)
    simp only [GgmlTensor.outer, GgmlTensor.lastIndex, hne] at h1 h2 h3 ⊢
    omega
  unfold GgmlTensor.exactBytes
  refine add_le_add ?_ houter
  show (if blckSize t.type.toNat = 1 then _ else _) ≤ _
  split
  · have h0 := hmul 0 (t.lastIndex 0)
    simp only [GgmlTensor.lastIndex, hne] at h0 ⊢
    exact Nat.add_le_add_left h0 (typeSize t.type.toNat)
  · have h0 := hmul 0 (t.ne 0).toNat
    rw [hne]
    exact Nat.div_le_div_right h0

lemma nbytes_newTensor_le (srv : RpcServer) (h : Heap) (p : UInt64) (hdims : ∀ d, (t.ne d).toNat < 4294967296)
    (hsize : (if ∃ d, t.ne d = 0 then 0 else t.exactBytes) < 18446744073709551616) :
    (srv.newTensor (h.serializeTensor p t)).nbytes.toNat ≤ if ∃ d, t.ne d = 0 then 0 else t.exactBytes := by
  have hne := ne_newTensor srv h p hdims
  by_cases hz : ∃ d, t.ne d = 0
  · have hz' : ∃ d, (srv.newTensor (h.serializeTensor p t)).ne d = 0 := by
      rw [hne]
      exact hz
    rw [GgmlTensor.nbytes, if_pos hz']
    exact Nat.zero_le _
  · rw [if_neg hz] at hsize ⊢
    have hle := exactBytes_newTensor_le srv h p hdims
    rw [RpcServer.nbytes_newTensor fun d hd => hz ⟨d, by rw [← hne]; exact hd⟩, UInt64.toNat_ofNat']
    rw [Nat.mod_eq_of_lt (lt_of_le_of_lt hle hsize)]
    exact hle

lemma HostedTensor.deserialized (ht : HostedTensor srv h t) :
    srv.Deserialized (h.serializeTensor p t) (srv.newTensor (h.serializeTensor p t)) ∧
      ∃ b, srv.find (h.serializeTensor p t).buffer = some b := by
  obtain ⟨handle, b, hne, hremote, hfind, hend, hlo, hhi⟩ := ht.resident
  have hbuf : (h.serializeTensor p t).buffer = handle := by
    show (if t.buffer = 0 then 0 else (h.remotePtr t.buffer).getD 0) = handle
    rw [if_neg hne, hremote]
    rfl
  rw [hbuf]
  refine ⟨⟨rfl, ht.type_lt, ht.blck_pos, fun b' hb' => ?_⟩, b, hfind⟩
  rw [hbuf] at hb'
  obtain rfl := Option.some.inj (hfind.symm.trans hb')
  have hle := nbytes_newTensor_le srv h p ht.dims (by omega)
  have hsum : (t.data + (srv.newTensor (h.serializeTensor p t)).nbytes).toNat =
      t.data.toNat + (srv.newTensor (h.serializeTensor p t)).nbytes.toNat := RpcServer.toNat_add_of_lt (by omega)
  have hbend : (b.base + b.size).toNat = b.base.toNat + b.size.toNat := RpcServer.toNat_add_of_lt hend
  unfold RpcServer.dataInside
  refine decide_eq_true ⟨?_, ?_, ?_⟩
  · rw [UInt64.le_iff_toNat_le]
    show t.data.toNat ≤ (t.data + _).toNat
    rw [hsum]
    exact Nat.le_add_right _ _
  · exact UInt64.le_iff_toNat_le.2 hlo
  · rw [UInt64.le_iff_toNat_le, hbend]
    show (t.data + _).toNat ≤ _
    rw [hsum]
    omega

lemma Hosted.sound (hh : Hosted srv h nodes) (device : UInt32) (hk : h.Reached nodes k) :
    RpcServer.Sound srv (h.graphRequest device nodes).tensorPtrs k := by
  obtain ⟨t, ht⟩ := tensor_of_reached hh.node hk
  obtain ⟨hd, b, hb⟩ := (hh.tensor k t hk ht).deserialized (p := k)
  exact ⟨_, b, (tensorPtrs_eq_some_iff hh.node).2 ⟨hk, t, ht, rfl⟩, hd, hb⟩

lemma Hosted.accepted (hh : Hosted srv h nodes) (hdevice : device.toNat < srv.backends)
    (hlen : 8 + nodes.length * 8 + 4 + (h.graphTensors nodes).length * RpcTensor.codec.size < 2147483648) :
    ∃ m, srv.graphCompute (h.graphRequest device nodes).bytes = .ok (device, ⟨nodes.map some, m⟩) ∧
      (∀ k, ServerGraph.Handed ⟨nodes.map some, m⟩ k ↔ h.Reached nodes k) ∧
      ∀ k t, h.Reached nodes k → h.tensor k = some t → m k = some (srv.built (h.serializeTensor k t)) := by
  have hsize := hlen
  rw [show RpcTensor.codec.size = 296 from rfl] at hsize
  have hparse : srv.parseGraph (h.graphRequest device nodes).bytes = some (h.graphRequest device nodes) := by
    refine RpcServer.parseGraph_bytes srv _ hdevice ?_ ?_
    · show nodes.length < _
      omega
    · show (h.graphTensors nodes).length < _
      omega
  obtain ⟨m, hm⟩ := RpcServer.createNodes_of_sound (RpcServer.mem_ids (h.graphRequest device nodes))
    (RpcServer.length_ids _) RpcServer.allFinished_empty fun n hn k hl =>
      hh.sound device ⟨n, hn, (leads_iff hh.node hn).1 hl⟩
  have hnone : none ∉ (h.graphRequest device nodes).nodes.map some := fun hn => by
    obtain ⟨n, -, hn⟩ := mem_map.1 hn
    cases hn
  obtain ⟨-, hfin, -, hmem⟩ := (RpcServer.createNodes_ok (RpcServer.mem_ids _) (RpcServer.length_ids _)
    RpcServer.allFinished_empty hm).1 hnone
  refine ⟨m, RpcServer.graphCompute_eq_ok.2 ⟨_, hparse, rfl, hm⟩, fun k => ?_, fun k t hk ht => ?_⟩
  · exact (hfin.handed_iff hmem).trans (exists_congr fun n => and_congr_right fun hn => leads_iff hh.node hn)
  · obtain ⟨n, hn, hl⟩ := hk
    obtain ⟨-, w, hw, hmk, -⟩ := hfin.of_leads (hmem n hn) ((leads_iff hh.node hn).2 hl)
    obtain ⟨-, t', ht', rfl⟩ := (tensorPtrs_eq_some_iff hh.node).1 hw
    obtain rfl := Option.some.inj (ht.symm.trans ht')
    exact hmk

lemma address_built (hfit : StridesFit t) {i : Fin 4 → Nat} (hi : ∀ d, i d < (t.ne d).toNat) :
    (srv.built (h.serializeTensor p t)).address i = t.address i := by
  have hmul : ∀ d, i d * ((srv.built (h.serializeTensor p t)).nb d).toNat = i d * (t.nb d).toNat := by
    intro d
    show i d * ((srv.newTensor (h.serializeTensor p t)).nb d).toNat = _
    rcases hfit with ⟨d0, h0⟩ | hfit
    · have hlt := hi d0
      rw [h0] at hlt
      exact absurd hlt (Nat.not_lt_zero _)
    · rcases lt_or_ge 1 (t.ne d).toNat with hlt | hge
      · rw [nb_newTensor, Nat.mod_eq_of_lt (hfit d hlt)]
      · have hz : i d = 0 := Nat.lt_one_iff.1 (lt_of_lt_of_le (hi d) hge)
        rw [hz, zero_mul, zero_mul]
  unfold GgmlTensor.address
  rw [hmul 0, hmul 1, hmul 2, hmul 3]
  rfl

def unitIndex (d : Fin 4) : Fin 4 → Nat := fun e => if e = d then 1 else 0

lemma address_unitIndex (r : GgmlTensor) (d : Fin 4) : r.address (unitIndex d) = r.data.toNat + (r.nb d).toNat := by
  unfold GgmlTensor.address unitIndex
  fin_cases d <;> simp

lemma stridesFit_of_address
    (haddr : ∀ i : Fin 4 → Nat, (∀ d, i d < (t.ne d).toNat) → (srv.built (h.serializeTensor p t)).address i = t.address i) :
    StridesFit t := by
  by_cases hz : ∃ d, t.ne d = 0
  · exact .inl hz
  · refine .inr fun d hd => ?_
    have hpos : ∀ e, 0 < (t.ne e).toNat := fun e => pos_of_ne_zero fun he => hz ⟨e, UInt64.toNat_inj.1 he⟩
    have hbelow : ∀ e, unitIndex d e < (t.ne e).toNat := fun e => by
      unfold unitIndex
      split
      next he => rwa [he]
      next => exact hpos e
    have heq := haddr (unitIndex d) hbelow
    rw [address_unitIndex, address_unitIndex] at heq
    have hnb : ((srv.newTensor (h.serializeTensor p t)).nb d).toNat = (t.nb d).toNat := add_left_cancel heq
    rw [← hnb, nb_newTensor]
    exact Nat.mod_lt _ (by decide)

lemma RoundTrips.graphFits (hh : Hosted srv h nodes) (hdevice : device.toNat < srv.backends)
    (hr : RoundTrips srv h device nodes) : GraphFits h nodes := by
  obtain ⟨bytes, g, hbytes, hg, -, -, htensor⟩ := hr
  unfold serializeGraph at hbytes
  split at hbytes
  next hlen =>
    cases hbytes
    obtain ⟨m, hm, -, hbuilt⟩ := hh.accepted hdevice hlen
    obtain rfl : g = ⟨nodes.map some, m⟩ := congrArg Prod.snd (Except.ok.inj (hg.symm.trans hm))
    refine ⟨length_graphTensors hh.node ▸ hlen, fun k t hk ht => ?_⟩
    obtain ⟨r, hr, hsame⟩ := htensor k t hk ht
    obtain rfl := Option.some.inj (hr.symm.trans (hbuilt k t hk ht))
    exact stridesFit_of_address hsame.address
  next => cases hbytes

lemma GraphFits.roundTrips (hh : Hosted srv h nodes) (hdevice : device.toNat < srv.backends) (hf : GraphFits h nodes) :
    RoundTrips srv h device nodes := by
  obtain ⟨hlen, hstrides⟩ := hf
  rw [← length_graphTensors hh.node] at hlen
  obtain ⟨m, hm, hhanded, hbuilt⟩ := hh.accepted hdevice hlen
  refine ⟨(h.graphRequest device nodes).bytes, ⟨nodes.map some, m⟩, if_pos hlen, hm, rfl, hhanded, fun k t hk ht => ?_⟩
  exact ⟨_, hbuilt k t hk ht,
    { type := rfl, ne := ne_newTensor srv h k (hh.tensor k t hk ht).dims, op := rfl, opParams := rfl, flags := rfl, src := rfl
      viewSrc := rfl, viewOffs := rfl, address := fun i hi => address_built (hstrides k t hk ht) hi }⟩

/-- A graph in the buffers of the server survives the round trip exactly when its message and its strides fit. -/
theorem graphRoundTrips_iff (hh : Hosted srv h nodes) (hdevice : device.toNat < srv.backends) :
    RoundTrips srv h device nodes ↔ GraphFits h nodes :=
  ⟨RoundTrips.graphFits hh hdevice, GraphFits.roundTrips hh hdevice⟩

/-! A server with a buffer of 16 GiB, and graphs with a node at address 64 and its source at 128: tensors of bytes with two
matrices of one shape. -/

def largeServer : RpcServer where
  backends := 1
  buffers := fun handle => if handle = 7 then some ⟨4096, 17179869184, fun _ => by decide⟩ else none
  cachedFile := fun _ => none

def matrices (rows cols : UInt64) (src : UInt64) : GgmlTensor where
  type := 24
  buffer := 100
  ne := ![cols, rows, 2, 1]
  nb := ![1, cols, cols * rows, cols * rows * 2]
  op := 1
  opParams := fun _ => 0
  flags := 0
  src := fun i => if i = 0 then src else 0
  viewSrc := 0
  viewOffs := 0
  data := 4096
  name := fun _ => 0
  extra := 0

def matrixHeap (rows cols : UInt64) : Heap where
  tensors := [(64, matrices rows cols 128), (128, matrices rows cols 0)]
  remotePtr := fun p => if p = 100 then some 7 else none
  not_null := by
    intro e he
    rcases mem_cons.1 he with rfl | he
    · exact fun h0 : (64 : UInt64) = 0 => absurd h0 (by decide)
    · obtain rfl := mem_singleton.1 he
      exact fun h0 : (128 : UInt64) = 0 => absurd h0 (by decide)
  closed := by
    intro e he slot hne
    have hsrc : ∀ src, (matrices rows cols src).ref slot ≠ 0 → (matrices rows cols src).ref slot = src := by
      intro src h
      cases slot with
      | none => exact absurd rfl h
      | some i =>
        by_cases hi : i = 0
        · exact if_pos hi
        · exact absurd (if_neg hi) h
    rcases mem_cons.1 he with rfl | he
    · rw [hsrc 128 hne]
      exact mem_cons_of_mem _ mem_cons_self
    · obtain rfl := mem_singleton.1 he
      exact absurd (hsrc 0 hne) hne

lemma matrixHeap_tensor {rows cols : UInt64} (ht : (matrixHeap rows cols).tensor k = some t) :
    ∃ src, t = matrices rows cols src := by
  rcases mem_cons.1 (tensor_eq_some ht) with heq | hmem
  · exact ⟨128, congrArg Prod.snd heq⟩
  · exact ⟨0, congrArg Prod.snd (mem_singleton.1 hmem)⟩

lemma matrixHeap_hosted {rows cols : UInt64} (hnodes : ∀ n ∈ nodes, n = 64 ∨ n = 128)
    (hrows : rows.toNat < 4294967296) (hcols : cols.toNat < 4294967296)
    (hsize : ∀ src, (matrices rows cols src).exactBytes ≤ 17179869184) :
    Hosted largeServer (matrixHeap rows cols) nodes := by
  refine ⟨fun n hn => ?_, fun k t _ ht => ?_⟩
  · rcases hnodes n hn with rfl | rfl
    · exact ⟨matrices rows cols 128, rfl⟩
    · exact ⟨matrices rows cols 0, rfl⟩
  · obtain ⟨src, rfl⟩ := matrixHeap_tensor ht
    have htype : (24 : UInt32).toNat < typeTraits.length := by decide
    have hblck : 0 < blckSize (24 : UInt32).toNat := by decide
    refine ⟨htype, hblck, fun d => ?_, 7, ⟨4096, 17179869184, fun _ => by decide⟩, ?_, rfl, rfl, by decide, ?_, ?_⟩
    · have htwo : (2 : UInt64).toNat < 4294967296 := by decide
      have hone : (1 : UInt64).toNat < 4294967296 := by decide
      fin_cases d
      · exact hcols
      · exact hrows
      · exact htwo
      · exact hone
    · show (100 : UInt64) ≠ 0
      decide
    · show (4096 : UInt64).toNat ≤ (4096 : UInt64).toNat
      exact le_refl _
    · have hle : (if ∃ d, (matrices rows cols src).ne d = 0 then 0 else (matrices rows cols src).exactBytes) ≤ 17179869184 := by
        split
        · exact Nat.zero_le _
        · exact hsize src
      exact Nat.add_le_add_left hle _

lemma smallHeap_hosted (hnodes : ∀ n ∈ nodes, n = 64 ∨ n = 128) : Hosted largeServer (matrixHeap 1 1) nodes := by
  refine matrixHeap_hosted hnodes (by decide) (by decide) fun src => ?_
  have hbytes : (matrices 1 1 src).exactBytes = (matrices 1 1 0).exactBytes := rfl
  rw [hbytes]
  decide

/-- Two tensors of two bytes make the trip. -/
theorem roundTrips_small : RoundTrips largeServer (matrixHeap 1 1) 0 [64] := by
  have hh : Hosted largeServer (matrixHeap 1 1) [64] := smallHeap_hosted fun n hn => .inl (mem_singleton.1 hn)
  have hdevice : (0 : UInt32).toNat < largeServer.backends := by decide
  refine (graphRoundTrips_iff hh hdevice).2 ⟨?_, fun k t _ ht => ?_⟩
  · rw [← length_graphTensors hh.node]
    decide
  · obtain ⟨src, rfl⟩ := matrixHeap_tensor ht
    refine .inr fun d _ => ?_
    have hnb : ((matrices 1 1 src).nb d).toNat = ((matrices 1 1 0).nb d).toNat := rfl
    rw [hnb]
    fin_cases d <;> decide

/-- The second of two matrices of 4 GiB begins 2^32 bytes after the first, and the stride that is sent is 0. -/
theorem roundTrips_large :
    ¬ (∀ (srv : RpcServer) (h : Heap) (device : UInt32) (nodes : List UInt64), Hosted srv h nodes →
        device.toNat < srv.backends → RoundTrips srv h device nodes) ∧
    ((matrixHeap 4096 1048576).serializeTensor 64 (matrices 4096 1048576 128)).nb 2 = 0 := by
  refine ⟨fun hall => ?_, by decide⟩
  have hh : Hosted largeServer (matrixHeap 4096 1048576) [64] := by
    refine matrixHeap_hosted (fun n hn => .inl (mem_singleton.1 hn)) (by decide) (by decide) fun src => ?_
    have hbytes : (matrices 4096 1048576 src).exactBytes = (matrices 4096 1048576 0).exactBytes := rfl
    rw [hbytes]
    decide
  have hdevice : (0 : UInt32).toNat < largeServer.backends := by decide
  have hfits := (RoundTrips.graphFits hh hdevice (hall largeServer _ 0 [64] hh hdevice)).2 64
    (matrices 4096 1048576 128) ⟨64, mem_cons_self, .refl⟩ rfl
  exact absurd hfits (by unfold StridesFit; decide)

end Heap

end Mallana.Rpc
