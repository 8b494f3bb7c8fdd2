import Mallana.Lib.Reach
import Mallana.Rpc.RoundTrip

/-!
# Computing a graph again

A backend object keeps copies of the nodes that it sent last. When the nodes of a graph are equal to them, it sends
`GRAPH_RECOMPUTE`, and the server computes the graph that it stored last for the device. The copies belong to the object, and
the stored graph to the device and the connection, which objects share; and the copies do not hold the tensors behind the
nodes. `log_described` says that the right graph is computed in every run where a graph that is found in the cache is the one
that was sent last for its device.
-/

namespace Mallana.Rpc

open Mallana.Lib List Function

namespace Heap

/-- Two heaps have the same tensor at an address, in the same buffer. -/
def Agrees (h h' : Heap) (k : UInt64) : Prop :=
  h.tensor k = h'.tensor k ∧ ∀ t, h.tensor k = some t → h.remotePtr t.buffer = h'.remotePtr t.buffer

variable {h h' : Heap} {p : UInt64} {t : GgmlTensor} {s : Walk} {fuel fuel' : Nat} {nodes : List UInt64}

lemma Agrees.serializeTensor (ha : h.Agrees h' p) (ht : h.tensor p = some t) :
    h.serializeTensor p t = h'.serializeTensor p t := by
  unfold Heap.serializeTensor
  rw [ha.2 t ht]

def left (h : Heap) (s : Walk) : Nat := unseen (h.tensors.map Prod.fst) fun q => decide (q ∈ s.2)

lemma left_addTensor_le (hp : p ≠ 0 → ∃ t, h.tensor p = some t) (hfuel : h.left s < fuel) (h' : Heap) :
    h'.left (h.addTensor fuel p s) ≤ h'.left s := by
  obtain ⟨added, ha⟩ := addTensor_spec fuel p s hp hfuel
  exact unseen_mono fun q hq => decide_eq_true ((ha.visited q).2 (.inl (of_decide_eq_true hq)))

lemma addTensor_congr : ∀ (fuel fuel' : Nat) (p : UInt64) (s : Walk), (p ≠ 0 → ∃ t, h.tensor p = some t) →
    h.left s < fuel → h'.left s < fuel' → (p ≠ 0 → ∀ k, h.Leads p k → h.Agrees h' k) →
    h.addTensor fuel p s = h'.addTensor fuel' p s := by
  intro fuel
  induction fuel with
  | zero => exact fun _ _ _ _ hf => absurd hf (Nat.not_lt_zero _)
  | succ fuel ih =>
    intro fuel' p s hp hf hf' hagree
    cases fuel' with
    | zero => exact absurd hf' (Nat.not_lt_zero _)
    | succ fuel' =>
      rw [addTensor, addTensor]
      by_cases hz : p = 0
      · rw [if_pos hz, if_pos hz]
      rw [if_neg hz, if_neg hz]
      by_cases hv : p ∈ s.2
      · rw [if_pos hv, if_pos hv]
      rw [if_neg hv, if_neg hv]
      obtain ⟨t, ht⟩ := hp hz
      have hsame := hagree hz p .refl
      have ht' : h'.tensor p = some t := hsame.1.symm.trans ht
      have hstep : ∀ (g : Heap), g.tensor p = some t → g.left (s.1, p :: s.2) < g.left s := fun g hg =>
        unseen_lt (mem_addresses hg) (decide_eq_false hv) (decide_eq_true mem_cons_self) fun q hq =>
          decide_eq_true (mem_cons_of_mem _ (of_decide_eq_true hq))
      -- the walks over the sources agree one after another
      have hlist : ∀ (l : List Slot) (s' : Walk), h.left s' < fuel → h'.left s' < fuel' →
          (l.map t.ref).foldl (fun s q => h.addTensor fuel q s) s' =
            (l.map t.ref).foldl (fun s q => h'.addTensor fuel' q s) s' := by
        intro l
        induction l with
        | nil => exact fun _ _ _ => rfl
        | cons slot l ihl =>
          intro s' hs hs'
          have hvalid : t.ref slot ≠ 0 → ∃ t', h.tensor (t.ref slot) = some t' := fun hne => exists_ref ht hne
          have heq := ih fuel' (t.ref slot) s' hvalid hs hs' fun hne k hk => hagree hz k (.head ⟨t, slot, ht, rfl, hne⟩ hk)
          have hle := left_addTensor_le hvalid hs h
          have hle' := left_addTensor_le hvalid hs h'
          rw [map_cons, foldl_cons, foldl_cons, ← heq]
          exact ihl _ (by omega) (by omega)
      have h1 := hstep h ht
      have h2 := hstep h' ht'
      simp only [ht, ht']
      rw [hlist slots (s.1, p :: s.2) (by omega) (by omega), hsame.serializeTensor ht]

lemma serializeGraph_congr (hnodes : ∀ n ∈ nodes, ∃ t, h.tensor n = some t)
    (hagree : ∀ k, h.Reached nodes k → h.Agrees h' k) (device : UInt32) :
    h.serializeGraph device nodes = h'.serializeGraph device nodes := by
  have hleft : ∀ (g : Heap) (s : Walk), g.left s < g.tensors.length + 1 := fun g s => by
    have hle := unseen_le_length (g.tensors.map Prod.fst) fun q => decide (q ∈ s.2)
    rw [length_map] at hle
    exact Nat.lt_succ_of_le hle
  have hwalk : ∀ (l : List UInt64) (s : Walk), (∀ n ∈ l, n ∈ nodes) →
      h.addTensors (h.tensors.length + 1) l s = h'.addTensors (h'.tensors.length + 1) l s := by
    intro l
    induction l with
    | nil => exact fun _ _ => rfl
    | cons n l ih =>
      intro s hl
      have hn := hl n mem_cons_self
      have heq := addTensor_congr (h.tensors.length + 1) (h'.tensors.length + 1) n s (fun _ => hnodes n hn) (hleft h s)
        (hleft h' s) fun _ k hk => hagree k ⟨n, hn, hk⟩
      show h.addTensors _ l (h.addTensor _ n s) = h'.addTensors _ l (h'.addTensor _ n s)
      rw [← heq]
      exact ih _ fun n hn => hl n (mem_cons_of_mem _ hn)
  have htensors : h.graphTensors nodes = h'.graphTensors nodes := congrArg Prod.fst (hwalk nodes ([], []) fun _ hn => hn)
  unfold serializeGraph graphRequest
  rw [htensors]

end Heap

variable {ι : Type} [DecidableEq ι]

/-- A call of `graph_compute` on a backend object, with the tensors of the client at that moment. -/
structure Call (ι : Type) where
  backend : ι
  heap : Heap
  nodes : List UInt64
  valid : ∀ n ∈ nodes, ∃ t, heap.tensor n = some t

def Call.structs (c : Call ι) : List GgmlTensor := c.nodes.filterMap c.heap.tensor

/-- The objects of an endpoint, the server at the other end of their connection, and what happened. -/
structure Endpoint (ι : Type) where
  /-- The `graph_cache` of each object. -/
  lastGraph : ι → List GgmlTensor
  /-- `stored_graphs`; nothing when the server has ended the connection. -/
  storedGraphs : Option (UInt32 → Option ServerGraph)
  /-- The call whose graph was sent and stored last for a device. -/
  lastSent : UInt32 → Option (Call ι)
  /-- The graphs that the server computed, with the calls. -/
  log : List (Call ι × ServerGraph)

namespace Endpoint

def start : Endpoint ι := ⟨fun _ => [], some fun _ => none, fun _ => none, []⟩

/-- `GRAPH_RECOMPUTE`: without a stored graph the connection ends. -/
def recompute (srv : RpcServer) (e : Endpoint ι) (c : Call ι) (device : UInt32)
    (stored : UInt32 → Option ServerGraph) : Endpoint ι :=
  if srv.backends ≤ device.toNat then { e with storedGraphs := none }
  else match stored device with
  | none => { e with storedGraphs := none }
  | some g => { e with log := e.log ++ [(c, g)] }

/-- `GRAPH_COMPUTE`: a message that is not accepted ends the connection. -/
def compute (srv : RpcServer) (e : Endpoint ι) (c : Call ι) (stored : UInt32 → Option ServerGraph) (bytes : List UInt8) :
    Endpoint ι :=
  let lastGraph := Function.update e.lastGraph c.backend c.structs
  match srv.graphCompute bytes with
  | .error _ => { e with lastGraph := lastGraph, storedGraphs := none }
  | .ok (device, g) =>
    { lastGraph := lastGraph
      storedGraphs := some (Function.update stored device (some g))
      lastSent := Function.update e.lastSent device (some c)
      log := e.log ++ [(c, g)] }

/-- `ggml_backend_rpc_graph_compute`, and what the server does. It ends the client when there is no node, no connection, or
no room for the message. -/
def graphCompute (srv : RpcServer) (device : ι → UInt32) (e : Endpoint ι) (c : Call ι) : Option (Endpoint ι) :=
  match e.storedGraphs with
  | none => none
  | some stored =>
    if c.nodes = [] then none
    else if e.lastGraph c.backend = c.structs then some (e.recompute srv c (device c.backend) stored)
    else (c.heap.serializeGraph (device c.backend) c.nodes).map (e.compute srv c stored)

def described (srv : RpcServer) (device : ι → UInt32) (c : Call ι) : Option ServerGraph :=
  (c.heap.serializeGraph (device c.backend) c.nodes).bind fun bytes => (srv.graphCompute bytes).toOption.map Prod.snd

/-- If the nodes are in the cache of the object, the graph that was sent last for the device is this one: it has the same
nodes, and the tensors behind them and their buffers are the same. -/
def Current (device : ι → UInt32) (e : Endpoint ι) (c : Call ι) : Prop :=
  e.lastGraph c.backend = c.structs → ∃ c', e.lastSent (device c.backend) = some c' ∧ c.nodes = c'.nodes ∧
    ∀ k, c.heap.Reached c.nodes k → c.heap.Agrees c'.heap k

/-- What a run keeps: a stored graph is the one that was sent last, and every graph was the right one. -/
structure Good (srv : RpcServer) (device : ι → UInt32) (e : Endpoint ι) : Prop where
  stored : ∀ stored d g, e.storedGraphs = some stored → stored d = some g →
    ∀ c, e.lastSent d = some c → described srv device c = some g
  sent : ∀ d c, e.lastSent d = some c → device c.backend = d
  log : ∀ c g, (c, g) ∈ e.log → described srv device c = some g

variable {srv : RpcServer} {device : ι → UInt32} {e e' : Endpoint ι} {c c' : Call ι}

omit [DecidableEq ι] in
lemma described_congr (hnodes : c.nodes = c'.nodes) (hdevice : device c'.backend = device c.backend)
    (hagree : ∀ k, c.heap.Reached c.nodes k → c.heap.Agrees c'.heap k) :
    described srv device c = described srv device c' := by
  unfold described
  rw [Heap.serializeGraph_congr c.valid hagree, hnodes, hdevice]

omit [DecidableEq ι] in
lemma start_good : Good srv device (start : Endpoint ι) :=
  ⟨fun _ _ _ _ _ _ hc => (nomatch hc), fun _ _ hc => (nomatch hc), fun _ _ h => absurd h not_mem_nil⟩

lemma device_of_accepted {h : Heap} {nodes : List UInt64} {d d' : UInt32} {bytes : List UInt8} {g : ServerGraph}
    (hbytes : h.serializeGraph d nodes = some bytes) (hok : srv.graphCompute bytes = .ok (d', g)) : d' = d := by
  unfold Heap.serializeGraph at hbytes
  split at hbytes
  next hlen =>
    cases hbytes
    rw [show RpcTensor.codec.size = 296 from rfl] at hlen
    obtain ⟨req, hreq, rfl, -⟩ := RpcServer.graphCompute_eq_ok.1 hok
    rcases lt_or_ge d.toNat srv.backends with hlt | hge
    · have hparse : srv.parseGraph (h.graphRequest d nodes).bytes = some (h.graphRequest d nodes) := by
        refine RpcServer.parseGraph_bytes srv _ hlt ?_ ?_
        · show nodes.length < _
          omega
        · show (h.graphTensors nodes).length < _
          omega
      obtain rfl := Option.some.inj (hreq.symm.trans hparse)
      rfl
    · -- there is no such device
      have hdevice : Codec.word32.dec (h.graphRequest d nodes).bytes = d := Codec.word32.dec_enc _ _
      unfold RpcServer.parseGraph at hreq
      rw [hdevice] at hreq
      split at hreq
      · cases hreq
      · simp only [if_pos hge] at hreq
        cases hreq
  next => cases hbytes

/-- A computation keeps the caches of both sides the same. -/
lemma Good.step (hg : Good srv device e) (hcur : Current device e c) (hstep : e.graphCompute srv device c = some e') :
    Good srv device e' := by
  unfold graphCompute at hstep
  split at hstep
  · cases hstep
  next stored hstored =>
  split at hstep
  · cases hstep
  split at hstep
  next hcached =>
    cases hstep
    obtain ⟨c', hsent, hnodes, hagree⟩ := hcur hcached
    unfold recompute
    split
    · exact ⟨fun _ _ _ h => (nomatch h), hg.sent, hg.log⟩
    · split
      · exact ⟨fun _ _ _ h => (nomatch h), hg.sent, hg.log⟩
      next g hsome =>
        refine ⟨hg.stored, hg.sent, fun c1 g1 hmem => ?_⟩
        rcases mem_append.1 hmem with hmem | hmem
        · exact hg.log c1 g1 hmem
        · obtain ⟨rfl, rfl⟩ := Prod.mk.inj (mem_singleton.1 hmem)
          rw [described_congr hnodes (hg.sent _ c' hsent) hagree]
          exact hg.stored stored _ g1 hstored hsome c' hsent
  next =>
    obtain ⟨bytes, hbytes, rfl⟩ := Option.map_eq_some_iff.1 hstep
    unfold compute
    simp only []
    split
    · exact ⟨fun _ _ _ h => (nomatch h), hg.sent, hg.log⟩
    next d g hok =>
      have hdescribed : described srv device c = some g := by
        rw [described, hbytes]
        show (srv.graphCompute bytes).toOption.map Prod.snd = some g
        rw [hok]
        rfl
      constructor
      · intro stored' d' g' hst hsome c1 hsent
        cases hst
        rcases eq_or_ne d' d with rfl | hne
        · obtain rfl : c = c1 := Option.some.inj ((update_self d' (some c) e.lastSent).symm.trans hsent)
          obtain rfl : g = g' := Option.some.inj ((update_self d' (some g) stored).symm.trans hsome)
          exact hdescribed
        · exact hg.stored stored d' g' hstored ((update_of_ne hne (some g) stored).symm.trans hsome) c1
            ((update_of_ne hne (some c) e.lastSent).symm.trans hsent)
      · intro d' c1 hsent
        rcases eq_or_ne d' d with rfl | hne
        · obtain rfl : c = c1 := Option.some.inj ((update_self d' (some c) e.lastSent).symm.trans hsent)
          exact (device_of_accepted hbytes hok).symm
        · exact hg.sent d' c1 ((update_of_ne hne (some c) e.lastSent).symm.trans hsent)
      · intro c1 g1 hmem
        rcases mem_append.1 hmem with hmem | hmem
        · exact hg.log c1 g1 hmem
        · obtain ⟨rfl, rfl⟩ := Prod.mk.inj (mem_singleton.1 hmem)
          exact hdescribed

def Step (srv : RpcServer) (device : ι → UInt32) (e : Endpoint ι) (c : Call ι) (e' : Endpoint ι) : Prop :=
  Current device e c ∧ e.graphCompute srv device c = some e'

/-- In every run whose cached graphs are current, each graph that the server computes is the one that a message for its call
describes. -/
theorem log_described (run : Reach (fun e => e = start) (Step srv device) e) :
    ∀ c g, (c, g) ∈ e.log → described srv device c = some g :=
  (run.invariant (fun _ h => h ▸ start_good) fun _ _ _ hg hstep => hg.step hstep.1 hstep.2).log

/-! Two objects on one device, and the graphs of a node at address 64 and of its source at 128. -/

lemma graphCompute_sent {stored : UInt32 → Option ServerGraph} {bytes : List UInt8} {d : UInt32} {g : ServerGraph}
    (hstored : e.storedGraphs = some stored) (hne : c.nodes ≠ []) (hnew : e.lastGraph c.backend ≠ c.structs)
    (hbytes : c.heap.serializeGraph (device c.backend) c.nodes = some bytes) (hok : srv.graphCompute bytes = .ok (d, g)) :
    e.graphCompute srv device c = some
      { lastGraph := Function.update e.lastGraph c.backend c.structs
        storedGraphs := some (Function.update stored d (some g))
        lastSent := Function.update e.lastSent d (some c)
        log := e.log ++ [(c, g)] } := by
  unfold graphCompute
  simp only [hstored, if_neg hne, if_neg hnew, hbytes, Option.map_some, compute, hok]

lemma graphCompute_again {stored : UInt32 → Option ServerGraph} {g : ServerGraph} (hstored : e.storedGraphs = some stored)
    (hne : c.nodes ≠ []) (hcached : e.lastGraph c.backend = c.structs) (hdevice : (device c.backend).toNat < srv.backends)
    (hg : stored (device c.backend) = some g) :
    e.graphCompute srv device c = some { e with log := e.log ++ [(c, g)] } := by
  unfold graphCompute
  simp only [hstored, if_neg hne, if_pos hcached, recompute, if_neg (Nat.not_le.2 hdevice), hg]

def smallCall (backend : Bool) (n : UInt64) (hn : n = 64 ∨ n = 128) : Call Bool where
  backend := backend
  heap := Heap.matrixHeap 1 1
  nodes := [n]
  valid := fun m hm => by
    obtain rfl := mem_singleton.1 hm
    rcases hn with rfl | rfl
    · exact ⟨_, rfl⟩
    · exact ⟨_, rfl⟩

def oneDevice : Bool → UInt32 := fun _ => 0

lemma smallCall_accepted (backend : Bool) {n : UInt64} (hn : n = 64 ∨ n = 128)
    (hlen : ((Heap.matrixHeap 1 1).graphTensors [n]).length ≤ 2) :
    ∃ bytes g, (smallCall backend n hn).heap.serializeGraph 0 [n] = some bytes ∧
      Heap.largeServer.graphCompute bytes = .ok (0, g) ∧ g.nodes = [some n] := by
  have hsize : 8 + [n].length * 8 + 4 + ((Heap.matrixHeap 1 1).graphTensors [n]).length * RpcTensor.codec.size < 2147483648 := by
    rw [show RpcTensor.codec.size = 296 from rfl, length_singleton]
    omega
  have hdevice : (0 : UInt32).toNat < Heap.largeServer.backends := by decide
  have hhosted : Heap.Hosted Heap.largeServer (Heap.matrixHeap 1 1) [n] :=
    Heap.smallHeap_hosted fun m hm => mem_singleton.1 hm ▸ hn
  obtain ⟨m, hm, -, -⟩ := hhosted.accepted hdevice hsize
  exact ⟨_, ⟨[n].map some, m⟩, if_pos hsize, hm, rfl⟩

def sentOnce (c : Call Bool) (g : ServerGraph) : Endpoint Bool where
  lastGraph := Function.update (fun _ => []) c.backend c.structs
  storedGraphs := some (Function.update (fun _ => none) 0 (some g))
  lastSent := Function.update (fun _ => none) 0 (some c)
  log := [(c, g)]

lemma sentOnce_lastGraph (c : Call Bool) (g : ServerGraph) : (sentOnce c g).lastGraph c.backend = c.structs := by
  simp only [sentOnce, update_self]

lemma sentOnce_lastSent (c : Call Bool) (g : ServerGraph) : (sentOnce c g).lastSent 0 = some c := by
  simp only [sentOnce, update_self]

lemma smallCall_first (backend : Bool) {n : UInt64} (hn : n = 64 ∨ n = 128)
    (hlen : ((Heap.matrixHeap 1 1).graphTensors [n]).length ≤ 2) (hstructs : (smallCall backend n hn).structs ≠ []) :
    ∃ g, start.graphCompute Heap.largeServer oneDevice (smallCall backend n hn) =
      some (sentOnce (smallCall backend n hn) g) ∧ g.nodes = [some n] := by
  obtain ⟨bytes, g, hbytes, hok, hg⟩ := smallCall_accepted backend hn hlen
  exact ⟨g, graphCompute_sent rfl (cons_ne_nil _ _) hstructs.symm hbytes hok, hg⟩

/-- One object computes a graph twice; the second time only the recompute command is sent. -/
theorem log_described_twice :
    ∃ e : Endpoint Bool, e.log.length = 2 ∧ ∀ p ∈ e.log, described Heap.largeServer oneDevice p.1 = some p.2 := by
  have hstructs : (smallCall true 64 (.inl rfl)).structs ≠ [] := by decide
  obtain ⟨g, h1, -⟩ := smallCall_first true (.inl rfl) (by decide) hstructs
  have h2 : (sentOnce (smallCall true 64 (.inl rfl)) g).graphCompute Heap.largeServer oneDevice
      (smallCall true 64 (.inl rfl)) = some _ :=
    graphCompute_again (g := g) rfl (cons_ne_nil _ _) (sentOnce_lastGraph _ g) one_pos
      (by simp only [oneDevice, update_self])
  have hcurrent : Current oneDevice (sentOnce (smallCall true 64 (.inl rfl)) g) (smallCall true 64 (.inl rfl)) := fun _ =>
    ⟨_, sentOnce_lastSent _ g, rfl, fun _ _ => ⟨rfl, fun _ _ => rfl⟩⟩
  exact ⟨_, rfl, fun p hp => log_described
    (.step (.step (.init rfl) ⟨fun hc => absurd hc.symm hstructs, h1⟩) ⟨hcurrent, h2⟩) p.1 p.2 hp⟩

/-- Two objects take turns on a device: the third call finds its nodes in the cache of the first object, and the server
computes the graph of the second. -/
theorem recompute_other :
    ¬ ∀ e : Endpoint Bool, Reach (fun e => e = start)
        (fun e c e' => e.graphCompute Heap.largeServer oneDevice c = some e') e →
      ∀ c g, (c, g) ∈ e.log → described Heap.largeServer oneDevice c = some g := by
  intro hall
  have hstructs : (smallCall true 64 (.inl rfl)).structs ≠ [] := by decide
  have hstructs' : (smallCall false 128 (.inr rfl)).structs ≠ [] := by decide
  obtain ⟨g, h1, hg⟩ := smallCall_first true (.inl rfl) (by decide) hstructs
  obtain ⟨bytes, g', hbytes, hok, hg'⟩ := smallCall_accepted false (.inr rfl) (by decide)
  obtain ⟨e, he⟩ : ∃ e : Endpoint Bool, e =
      { lastGraph := Function.update (sentOnce (smallCall true 64 (.inl rfl)) g).lastGraph false
          (smallCall false 128 (.inr rfl)).structs
        storedGraphs := some (Function.update (Function.update (fun _ => none) 0 (some g)) 0 (some g'))
        lastSent := Function.update (sentOnce (smallCall true 64 (.inl rfl)) g).lastSent 0 (smallCall false 128 (.inr rfl))
        log := [(smallCall true 64 (.inl rfl), g), (smallCall false 128 (.inr rfl), g')] } := ⟨_, rfl⟩
  have h2 : (sentOnce (smallCall true 64 (.inl rfl)) g).graphCompute Heap.largeServer oneDevice
      (smallCall false 128 (.inr rfl)) = some e :=
    he ▸ graphCompute_sent rfl (cons_ne_nil _ _) hstructs'.symm hbytes hok
  have hcached : e.lastGraph true = (smallCall true 64 (.inl rfl)).structs := by
    have hne : true ≠ false := nofun
    rw [he]
    exact Eq.trans
      (update_of_ne hne (smallCall false 128 (.inr rfl)).structs
        (sentOnce (smallCall true 64 (.inl rfl)) g).lastGraph)
      (sentOnce_lastGraph (smallCall true 64 (.inl rfl)) g)
  have h3 : e.graphCompute Heap.largeServer oneDevice (smallCall true 64 (.inl rfl)) = some _ :=
    graphCompute_again (g := g') (congrArg Endpoint.storedGraphs he) (cons_ne_nil _ _) hcached one_pos
      (update_self _ _ _)
  have hdescribed := hall _ (.step (.step (.step (.init rfl) h1) h2) h3)
  have hlog : e.log = [(smallCall true 64 (.inl rfl), g), (smallCall false 128 (.inr rfl), g')] :=
    congrArg Endpoint.log he
  have hfirst := hdescribed (smallCall true 64 (.inl rfl)) g
    (mem_append_left _ (hlog ▸ mem_cons_self))
  have hthird := hdescribed (smallCall true 64 (.inl rfl)) g'
    (mem_append_right _ (mem_singleton_self _))
  have heq : g = g' := Option.some.inj (hfirst.symm.trans hthird)
  rw [heq, hg'] at hg
  exact absurd hg (by decide)

end Endpoint

end Mallana.Rpc
