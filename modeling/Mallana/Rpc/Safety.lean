import Mallana.Rpc.Extent
import Mallana.Rpc.Graph

/-!
# What a backend is handed

A graph that `graph_compute` accepts can hold a null node, where the id is 0 and its tensor cannot be created, and a tensor
whose size wraps around or whose last block ends behind the bytes that were checked. `requests_safe` says that these are the
only ways to a graph that is not safe, and that the tensor commands have none.
-/

namespace Mallana.Rpc

open Mallana.Lib List
open Mallana.Gguf (typeTraits blckSize)

namespace ServerGraph

def Refers (g : ServerGraph) (a b : UInt64) : Prop := ∃ r slot, g.tensors a = some r ∧ r.ref slot = b ∧ b ≠ 0

def Handed (g : ServerGraph) (k : UInt64) : Prop := ∃ n, some n ∈ g.nodes ∧ Relation.ReflTransGen g.Refers n k

/-- No node is null, and every tensor has its elements in its buffer. -/
def Safe (srv : RpcServer) (g : ServerGraph) : Prop :=
  none ∉ g.nodes ∧
    ∀ k, g.Handed k → ∃ r b, g.tensors k = some r ∧ srv.find r.buffer = some b ∧ RpcServer.ElementsInside b r

end ServerGraph

namespace RpcServer

/-- A node with id 0 is a tensor of the message that can be created, and every tensor that a node leads to fits. -/
def GraphFits (srv : RpcServer) (req : GraphRequest) : Prop :=
  (0 ∈ req.nodes → ∀ k, Leads req.tensorPtrs 0 k → Sound srv req.tensorPtrs k) ∧
    ∀ n ∈ req.nodes, ∀ k, Leads req.tensorPtrs n k → ∀ t b, req.tensorPtrs k = some t → srv.find t.buffer = some b →
      Fits b (srv.newTensor t)

variable {srv : RpcServer} {tensorPtrs : UInt64 → Option RpcTensor} {m m' : TensorMap} {id k n : UInt64} {t : RpcTensor}
  {fuel : Nat} {ids nodeIds : List UInt64} {nodes : List (Option UInt64)}

def AllFinished (srv : RpcServer) (tensorPtrs : UInt64 → Option RpcTensor) (m : TensorMap) : Prop :=
  ∀ k, (m k).isSome = true → Finished srv tensorPtrs m k

lemma Creates.isSome {status : NodeStatus} (h : Creates srv tensorPtrs id m m' status) (hk : (m k).isSome = true) :
    (m' k).isSome = true := by
  obtain ⟨r, hr⟩ := Option.isSome_iff_exists.1 hk
  rw [h.keeps k r hr]
  rfl

lemma Creates.allFinished (h : Creates srv tensorPtrs id m m' .created) (hm : AllFinished srv tensorPtrs m) :
    AllFinished srv tensorPtrs m' := by
  intro k hk
  rcases hold : m k with - | r
  · exact h.finished rfl k hk hold
  · have hsome : (m k).isSome = true := by
      rw [hold]
      rfl
    exact (hm k hsome).mono ((h.keeps k r hold).trans hold.symm) fun k hk => h.isSome hk

lemma AllFinished.of_leads (hm : AllFinished srv tensorPtrs m) (hk : (m id).isSome = true) (h : Leads tensorPtrs id k) :
    Finished srv tensorPtrs m k := by
  suffices hsome : (m k).isSome = true from hm k hsome
  induction h with
  | refl => exact hk
  | tail _ hrefers ih =>
    obtain ⟨t, slot, ht, rfl, hne⟩ := hrefers
    obtain ⟨-, t', ht', -, hrefs⟩ := hm _ ih
    obtain rfl := Option.some.inj (ht.symm.trans ht')
    exact hrefs slot hne

section
variable (hids : ∀ k, (tensorPtrs k).isSome = true → k ∈ ids) (hfuel : ids.length < fuel)

include hids hfuel

lemma createNode_creates (srv : RpcServer) (id : UInt64) (m : TensorMap) :
    Creates srv tensorPtrs id m (srv.createNode tensorPtrs fuel id m).1 (srv.createNode tensorPtrs fuel id m).2 :=
  createNode_spec hids fuel id m (lt_of_le_of_lt (unseen_le_length _ _) hfuel)

lemma createNodes_ok (hm : AllFinished srv tensorPtrs m)
    (h : srv.createNodes tensorPtrs fuel nodeIds m = .ok (m', nodes)) :
    (none ∉ nodes → nodes = nodeIds.map some ∧ AllFinished srv tensorPtrs m' ∧
      (∀ k, (m k).isSome = true → (m' k).isSome = true) ∧ ∀ n ∈ nodeIds, (m' n).isSome = true) ∧
    (none ∈ nodes → 0 ∈ nodeIds ∧ ∃ k, Leads tensorPtrs 0 k ∧ ¬ Sound srv tensorPtrs k) := by
  induction nodeIds generalizing m nodes with
  | nil =>
    cases h
    exact ⟨fun _ => ⟨rfl, hm, fun _ hk => hk, fun _ hn => absurd hn not_mem_nil⟩, fun hn => absurd hn not_mem_nil⟩
  | cons id nodeIds ih =>
    have hc := createNode_creates hids hfuel srv id m
    rw [createNodes] at h
    generalize srv.createNode tensorPtrs fuel id m = res at h hc
    obtain ⟨m1, status⟩ := res
    cases status with
    | created =>
      obtain ⟨⟨m2, nodes'⟩, hrest, heq⟩ := map_eq_ok h
      cases heq
      obtain ⟨hnone, hsome⟩ := ih (hc.allFinished hm) hrest
      refine ⟨fun hn => ?_, fun hn => ?_⟩
      · obtain ⟨rfl, hfin, hgrow, hmem⟩ := hnone fun e => hn (mem_cons_of_mem _ e)
        refine ⟨rfl, hfin, fun k hk => hgrow k (hc.isSome hk), fun n hn => ?_⟩
        rcases mem_cons.1 hn with rfl | hn
        · exact hgrow _ (hc.present rfl)
        · exact hmem n hn
      · rcases mem_cons.1 hn with heq | hn
        · cases heq
        · obtain ⟨h0, hbad⟩ := hsome hn
          exact ⟨mem_cons_of_mem _ h0, hbad⟩
    | null =>
      simp only [] at h
      split at h
      next h0 =>
        obtain ⟨⟨m2, nodes'⟩, -, heq⟩ := map_eq_ok h
        cases heq
        refine ⟨fun hn => absurd mem_cons_self hn, fun _ => ⟨h0 ▸ mem_cons_self, ?_⟩⟩
        exact h0 ▸ (hc.failed nofun).2
      · cases h
    | aborted => cases h
    | outOfFuel => exact absurd rfl (hc.failed nofun).1

lemma createNodes_of_sound (hm : AllFinished srv tensorPtrs m)
    (h : ∀ n ∈ nodeIds, ∀ k, Leads tensorPtrs n k → Sound srv tensorPtrs k) :
    ∃ m', srv.createNodes tensorPtrs fuel nodeIds m = .ok (m', nodeIds.map some) := by
  induction nodeIds generalizing m with
  | nil => exact ⟨m, rfl⟩
  | cons id nodeIds ih =>
    have hc := createNode_creates hids hfuel srv id m
    rw [createNodes]
    generalize srv.createNode tensorPtrs fuel id m = res at hc
    obtain ⟨m1, status⟩ := res
    rcases eq_or_ne status .created with rfl | hne
    · obtain ⟨m', hm'⟩ := ih (hc.allFinished hm) fun n hn => h n (mem_cons_of_mem _ hn)
      refine ⟨m', ?_⟩
      simp only [hm']
      rfl
    · obtain ⟨-, k, hlead, hbad⟩ := hc.failed hne
      exact absurd (h id mem_cons_self k hlead) hbad

end

lemma allFinished_empty : AllFinished srv tensorPtrs fun _ => none := fun _ hk => absurd hk Bool.false_ne_true

lemma ref_built (slot : Slot) : (srv.built t).ref slot = t.ref slot := by
  cases slot with
  | none => rfl
  | some i => rfl

lemma Finished.refers (h : Finished srv tensorPtrs m k) (hr : Refers tensorPtrs k n) :
    ServerGraph.Refers ⟨nodes, m⟩ k n := by
  obtain ⟨-, t, ht, hm, -⟩ := h
  obtain ⟨t', slot, ht', hslot, hne⟩ := hr
  obtain rfl := Option.some.inj (ht.symm.trans ht')
  exact ⟨srv.built t, slot, hm, (ref_built slot).trans hslot, hne⟩

lemma AllFinished.refers (hm : AllFinished srv tensorPtrs m) (hr : ServerGraph.Refers ⟨nodes, m⟩ k n) :
    Refers tensorPtrs k n := by
  obtain ⟨r, slot, hr, hslot, hne⟩ := hr
  have hsome : (m k).isSome = true := Option.isSome_iff_exists.2 ⟨r, hr⟩
  obtain ⟨-, t, ht, hmk, -⟩ := hm k hsome
  obtain rfl := Option.some.inj (hr.symm.trans hmk)
  exact ⟨t, slot, ht, (ref_built slot).symm.trans hslot, hne⟩

lemma AllFinished.handed_iff (hm : AllFinished srv tensorPtrs m) (hn : ∀ n ∈ nodeIds, (m n).isSome = true) :
    ServerGraph.Handed ⟨nodeIds.map some, m⟩ k ↔ ∃ n ∈ nodeIds, Leads tensorPtrs n k := by
  constructor
  · rintro ⟨n, hmem, hlead⟩
    obtain ⟨n', hn', heq⟩ := mem_map.1 hmem
    obtain rfl := Option.some.inj heq
    refine ⟨n', hn', ?_⟩
    induction hlead with
    | refl => exact .refl
    | tail _ hr ih => exact ih.tail (hm.refers hr)
  · rintro ⟨n, hmem, hlead⟩
    refine ⟨n, mem_map_of_mem hmem, ?_⟩
    induction hlead with
    | refl => exact .refl
    | tail hlead hr ih => exact ih.tail ((hm.of_leads (hn n hmem) hlead).refers hr)

lemma tensorPtrs_eq_some {req : GraphRequest} (h : req.tensorPtrs k = some t) : t ∈ req.tensors ∧ t.id = k := by
  unfold GraphRequest.tensorPtrs at h
  have hid := find?_some h
  exact ⟨mem_of_find?_eq_some h, of_decide_eq_true hid⟩

lemma mem_ids (req : GraphRequest) (k : UInt64) (h : (req.tensorPtrs k).isSome = true) :
    k ∈ req.tensors.map RpcTensor.id := by
  obtain ⟨t, ht⟩ := Option.isSome_iff_exists.1 h
  obtain ⟨hmem, hid⟩ := tensorPtrs_eq_some ht
  exact mem_map.2 ⟨t, hmem, hid⟩

lemma length_ids (req : GraphRequest) : (req.tensors.map RpcTensor.id).length < req.tensors.length + 1 := by
  rw [length_map]
  exact Nat.lt_succ_self _

lemma graph_safe_iff (hlow : srv.Low) {req : GraphRequest}
    (h : srv.createNodes req.tensorPtrs (req.tensors.length + 1) req.nodes (fun _ => none) = .ok (m, nodes)) :
    ServerGraph.Safe srv ⟨nodes, m⟩ ↔ GraphFits srv req := by
  obtain ⟨hfull, hnull⟩ := createNodes_ok (mem_ids req) (length_ids req) allFinished_empty h
  by_cases hn : none ∈ nodes
  · obtain ⟨h0, k, hlead, hbad⟩ := hnull hn
    exact ⟨fun hsafe => absurd hn hsafe.1, fun hfits => absurd (hfits.1 h0 k hlead) hbad⟩
  · obtain ⟨rfl, hfin, -, hmem⟩ := hfull hn
    constructor
    · rintro ⟨-, hsafe⟩
      refine ⟨fun h0 k hlead => (hfin.of_leads (hmem 0 h0) hlead).1, fun n hnode k hlead t b ht hb => ?_⟩
      obtain ⟨r, b', hr, hb', hin⟩ := hsafe k (hfin.handed_iff hmem |>.mpr ⟨n, hnode, hlead⟩)
      obtain ⟨⟨t', b'', ht', hd, hfind⟩, t'', ht'', hmk, -⟩ := hfin.of_leads (hmem n hnode) hlead
      obtain rfl := Option.some.inj (ht.symm.trans ht')
      obtain rfl := Option.some.inj (ht.symm.trans ht'')
      obtain rfl := Option.some.inj (hr.symm.trans hmk)
      have hbuf : srv.find (srv.built t).buffer = srv.find t.buffer := srv.find_newTensor t
      obtain rfl := Option.some.inj (hb.symm.trans (hbuf.symm.trans hb'))
      exact (elementsInside_iff (hlow.of_find hb) hd hb).1 hin
    · rintro ⟨-, hfits⟩
      refine ⟨hn, fun k hk => ?_⟩
      obtain ⟨n, hnode, hlead⟩ := hfin.handed_iff hmem |>.mp hk
      obtain ⟨⟨t, b, ht, hd, hb⟩, t', ht', hmk, -⟩ := hfin.of_leads (hmem n hnode) hlead
      obtain rfl := Option.some.inj (ht.symm.trans ht')
      refine ⟨srv.built t, b, hmk, (srv.find_newTensor t).trans hb, ?_⟩
      exact (elementsInside_iff (hlow.of_find hb) hd hb).2 (hfits n hnode k hlead t b ht hb)

lemma graphCompute_eq_ok {input : List UInt8} {device : UInt32} {g : ServerGraph} :
    srv.graphCompute input = .ok (device, g) ↔ ∃ req, srv.parseGraph input = some req ∧ req.device = device ∧
      srv.createNodes req.tensorPtrs (req.tensors.length + 1) req.nodes (fun _ => none) = .ok (g.tensors, g.nodes) := by
  unfold graphCompute
  constructor
  · intro h
    split at h
    · cases h
    next req hreq =>
      obtain ⟨⟨m, nodes⟩, hnodes, heq⟩ := map_eq_ok h
      cases heq
      exact ⟨req, hreq, rfl, hnodes⟩
  · rintro ⟨req, hreq, rfl, hnodes⟩
    rw [hreq]
    simp only [hnodes]
    rfl

/-- The tensor commands stay in the buffers of their requests, and a graph that is handed to a backend is safe exactly when
its message fits. -/
theorem requests_safe (hlow : srv.Low) :
    (∀ cmd input accesses, srv.handle cmd input = .ok accesses → ∀ a ∈ accesses, a.Inside srv) ∧
    ∀ input device g, srv.graphCompute input = .ok (device, g) →
      ∃ req, srv.parseGraph input = some req ∧ (ServerGraph.Safe srv g ↔ GraphFits srv req) := by
  refine ⟨fun cmd input accesses h => handle_inside hlow h, fun input device g h => ?_⟩
  obtain ⟨req, hreq, -, hnodes⟩ := graphCompute_eq_ok.1 h
  exact ⟨req, hreq, graph_safe_iff hlow hnodes⟩

/-! A server with a buffer of 4096 bytes, and messages with one tensor of bytes in it: one of 256 elements, and one whose four
products of dimension and stride are 2^62 each. -/

def smallServer : RpcServer where
  backends := 1
  buffers := fun handle => if handle = 7 then some ⟨4096, 4096, fun _ => by decide⟩ else none
  cachedFile := fun _ => none

def byteTensor (ne nb : UInt32) : RpcTensor where
  id := 1
  type := 24
  buffer := 7
  ne := fun _ => ne
  nb := fun _ => nb
  op := 0
  opParams := fun _ => 0
  flags := 0
  src := fun _ => 0
  viewSrc := 0
  viewOffs := 0
  data := 4096
  name := fun _ => 0

def oneTensor (ne nb : UInt32) : GraphRequest := ⟨0, [1], [byteTensor ne nb]⟩

lemma smallServer_low : smallServer.Low := by
  intro handle b hb
  unfold smallServer at hb
  simp only [] at hb
  split at hb
  · cases hb
    decide
  · cases hb

lemma oneTensor_ptrs {ne nb : UInt32} {k : UInt64} {t : RpcTensor} (h : (oneTensor ne nb).tensorPtrs k = some t) :
    k = 1 ∧ t = byteTensor ne nb := by
  obtain ⟨hmem, hid⟩ := tensorPtrs_eq_some h
  obtain rfl := mem_singleton.1 hmem
  exact ⟨hid.symm, rfl⟩

lemma parse_oneTensor (ne nb : UInt32) : smallServer.parseGraph (oneTensor ne nb).bytes = some (oneTensor ne nb) := by
  have hcount : 1 < 4294967296 := by decide
  exact parseGraph_bytes smallServer _ one_pos hcount hcount

lemma oneTensor_leads {ne nb : UInt32} {k : UInt64} (h : Leads (oneTensor ne nb).tensorPtrs 1 k) : k = 1 := by
  induction h with
  | refl => rfl
  | tail _ hr ih =>
    obtain ⟨t, slot, ht, hslot, hne⟩ := hr
    obtain ⟨-, rfl⟩ := oneTensor_ptrs ht
    cases slot with
    | none => exact absurd hslot.symm hne
    | some i => exact absurd hslot.symm hne

lemma oneTensor_accepted (ne nb : UInt32)
    (h : dataInside ⟨4096, 4096, fun _ => by decide⟩ (smallServer.newTensor (byteTensor ne nb)) = true) :
    ∃ g, smallServer.graphCompute (oneTensor ne nb).bytes = .ok (0, g) ∧ g.nodes = [some 1] := by
  have hsound : ∀ n ∈ (oneTensor ne nb).nodes, ∀ k, Leads (oneTensor ne nb).tensorPtrs n k →
      Sound smallServer (oneTensor ne nb).tensorPtrs k := by
    intro n hn k hk
    obtain rfl := mem_singleton.1 hn
    obtain rfl := oneTensor_leads hk
    have type_lt : (24 : UInt32).toNat < typeTraits.length := by decide
    have blck_pos : 0 < blckSize (24 : UInt32).toNat := by decide
    refine ⟨byteTensor ne nb, ⟨4096, 4096, fun _ => by decide⟩, rfl, ⟨rfl, type_lt, blck_pos, fun b hb => ?_⟩, rfl⟩
    cases hb
    exact h
  obtain ⟨m, hm⟩ := createNodes_of_sound (mem_ids (oneTensor ne nb)) (length_ids _) allFinished_empty hsound
  exact ⟨⟨[some 1], m⟩, graphCompute_eq_ok.2
    ⟨oneTensor ne nb, parse_oneTensor ne nb, rfl, hm⟩, rfl⟩

theorem requests_safe_small :
    ∃ g, smallServer.graphCompute (oneTensor 4 64).bytes = .ok (0, g) ∧ ServerGraph.Safe smallServer g := by
  obtain ⟨g, hg, -⟩ := oneTensor_accepted 4 64 (by decide)
  obtain ⟨req, hreq, hiff⟩ := (requests_safe smallServer_low).2 _ _ _ hg
  obtain rfl := Option.some.inj (hreq.symm.trans (parse_oneTensor 4 64))
  refine ⟨g, hg, hiff.2 ⟨fun h0 => absurd h0 (by decide), fun n hn k hk t b ht hb => ?_⟩⟩
  obtain ⟨-, rfl⟩ := oneTensor_ptrs ht
  exact .inr ⟨by decide, .inl (by decide)⟩

/-- The sum of the products is 2^64, so the size of the second tensor is 1; and a graph may consist of a null node. -/
theorem graph_unsafe : (∃ g, smallServer.graphCompute (oneTensor 2147483649 2147483648).bytes = .ok (0, g) ∧
      ¬ ServerGraph.Safe smallServer g) ∧
    ∃ g, smallServer.graphCompute (GraphRequest.bytes ⟨0, [0], []⟩) = .ok (0, g) ∧ none ∈ g.nodes := by
  constructor
  · obtain ⟨g, hg, -⟩ := oneTensor_accepted 2147483649 2147483648 (by decide)
    refine ⟨g, hg, fun hsafe => ?_⟩
    obtain ⟨req, hreq, -, hnodes⟩ := graphCompute_eq_ok.1 hg
    obtain rfl := Option.some.inj (hreq.symm.trans (parse_oneTensor _ _))
    have hfits := ((graph_safe_iff smallServer_low hnodes).1 hsafe).2 1 mem_cons_self 1 .refl _ _ rfl rfl
    exact absurd hfits (by unfold Fits; decide)
  · exact ⟨⟨[none], fun _ => none⟩, graphCompute_eq_ok.2
      ⟨⟨0, [0], []⟩, parseGraph_bytes smallServer _ (by decide) (by decide) (by decide), rfl, rfl⟩, mem_singleton_self _⟩

end RpcServer

end Mallana.Rpc
