import Mallana.Rpc.Graph

/-!
# Graphs of the client

`add_tensor` walks from a node to its sources and its view, marks every tensor that it meets, and writes a tensor after those
that it needs. `serialize_graph` writes the message with the nodes and the tensors. `addTensors_spec` says what a walk over a
list of pointers adds: every tensor that they lead to and that was not marked before, once.
-/

namespace Mallana.Rpc

open Mallana.Lib List

/-- The tensors of the client by their addresses, and the remote pointers of its RPC buffers. No tensor is at the null
pointer, and the pointers of a tensor are addresses of tensors. -/
structure Heap where
  tensors : List (UInt64 × GgmlTensor)
  remotePtr : UInt64 → Option UInt64
  not_null : ∀ e ∈ tensors, e.1 ≠ 0
  closed : ∀ e ∈ tensors, ∀ slot, e.2.ref slot ≠ 0 → e.2.ref slot ∈ tensors.map Prod.fst

namespace Heap

def tensor (h : Heap) (p : UInt64) : Option GgmlTensor := (h.tensors.find? fun e => e.1 = p).map Prod.snd

def serializeTensor (h : Heap) (p : UInt64) (t : GgmlTensor) : RpcTensor where
  id := p
  type := t.type
  buffer := if t.buffer = 0 then 0 else (h.remotePtr t.buffer).getD 0
  ne := fun i => (t.ne i).toUInt32
  nb := fun i => (t.nb i).toUInt32
  op := t.op
  opParams := t.opParams
  flags := t.flags
  src := t.src
  viewSrc := t.viewSrc
  viewOffs := t.viewOffs
  data := t.data
  name := cstr t.name

/-- The tensors that were written and the ones that were visited. -/
abbrev Walk := List RpcTensor × List UInt64

def addTensor (h : Heap) : Nat → UInt64 → Walk → Walk
  | 0, _, s => s
  | fuel + 1, p, s =>
    if p = 0 then s
    else if p ∈ s.2 then s
    else match h.tensor p with
    | none => s
    | some t =>
      let s' := (slots.map t.ref).foldl (fun s q => addTensor h fuel q s) (s.1, p :: s.2)
      (s'.1 ++ [h.serializeTensor p t], s'.2)

def addTensors (h : Heap) (fuel : Nat) (ptrs : List UInt64) (s : Walk) : Walk :=
  ptrs.foldl (fun s p => h.addTensor fuel p s) s

def graphTensors (h : Heap) (nodes : List UInt64) : List RpcTensor :=
  (h.addTensors (h.tensors.length + 1) nodes ([], [])).1

def graphRequest (h : Heap) (device : UInt32) (nodes : List UInt64) : GraphRequest := ⟨device, nodes, h.graphTensors nodes⟩

/-- The size of the message is computed as an `int`; nothing is sent when it does not fit. -/
def serializeGraph (h : Heap) (device : UInt32) (nodes : List UInt64) : Option (List UInt8) :=
  if 8 + nodes.length * 8 + 4 + (h.graphTensors nodes).length * RpcTensor.codec.size < 2147483648 then
    some (h.graphRequest device nodes).bytes
  else none

variable {h : Heap} {p q : UInt64} {t : GgmlTensor} {s s' s'' : Walk} {ptrs ptrs' : List UInt64} {fuel : Nat}

lemma tensor_eq_some (ht : h.tensor p = some t) : (p, t) ∈ h.tensors := by
  obtain ⟨e, he, rfl⟩ := Option.map_eq_some_iff.1 ht
  have hp := find?_some he
  obtain rfl := of_decide_eq_true hp
  exact mem_of_find?_eq_some he

lemma exists_tensor (hp : p ∈ h.tensors.map Prod.fst) : ∃ t, h.tensor p = some t := by
  obtain ⟨e, he, rfl⟩ := mem_map.1 hp
  have hfind : (h.tensors.find? fun e' => e'.1 = e.1).isSome = true :=
    find?_isSome.2 ⟨e, he, decide_eq_true rfl⟩
  obtain ⟨e', he'⟩ := Option.isSome_iff_exists.1 hfind
  exact ⟨e'.2, by rw [tensor, he']; rfl⟩

lemma mem_addresses (ht : h.tensor p = some t) : p ∈ h.tensors.map Prod.fst :=
  mem_map.2 ⟨(p, t), tensor_eq_some ht, rfl⟩

lemma exists_ref (ht : h.tensor p = some t) {slot : Slot} (hne : t.ref slot ≠ 0) : ∃ t', h.tensor (t.ref slot) = some t' :=
  exists_tensor (h.closed _ (tensor_eq_some ht) slot hne)

lemma ne_zero (ht : h.tensor p = some t) : p ≠ 0 := h.not_null _ (tensor_eq_some ht)

def Refers (h : Heap) (a b : UInt64) : Prop := ∃ t slot, h.tensor a = some t ∧ t.ref slot = b ∧ b ≠ 0

abbrev Leads (h : Heap) : UInt64 → UInt64 → Prop := Relation.ReflTransGen h.Refers

/-- What a walk over some pointers adds to the tensors that were written and visited. -/
structure Adds (h : Heap) (ptrs : List UInt64) (s s' : Walk) (added : List RpcTensor) : Prop where
  written : s'.1 = s.1 ++ added
  visited : ∀ q, q ∈ s'.2 ↔ q ∈ s.2 ∨ ∃ w ∈ added, w.id = q
  fresh : ∀ w ∈ added, w.id ∉ s.2
  nodup : (added.map RpcTensor.id).Nodup
  tensor : ∀ w ∈ added, ∃ t, h.tensor w.id = some t ∧ w = h.serializeTensor w.id t
  present : ∀ p ∈ ptrs, p ≠ 0 → p ∈ s'.2
  closed : ∀ w ∈ added, ∀ t slot, h.tensor w.id = some t → t.ref slot ≠ 0 → t.ref slot ∈ s'.2
  led : ∀ w ∈ added, ∃ p ∈ ptrs, h.Leads p w.id

lemma Adds.nil (h : Heap) (s : Walk) : Adds h [] s s [] where
  written := (append_nil _).symm
  visited := fun _ => ⟨.inl, fun hq => hq.resolve_right fun ⟨_, hw, _⟩ => absurd hw not_mem_nil⟩
  fresh := fun _ hw => absurd hw not_mem_nil
  nodup := nodup_nil
  tensor := fun _ hw => absurd hw not_mem_nil
  present := fun _ hp => absurd hp not_mem_nil
  closed := fun _ hw => absurd hw not_mem_nil
  led := fun _ hw => absurd hw not_mem_nil

lemma Adds.visited_before (hp : p ≠ 0 → p ∈ s.2) : Adds h [p] s s [] :=
  { Adds.nil h s with
    present := fun q hq hne => by
      obtain rfl := mem_singleton.1 hq
      exact hp hne
    led := fun _ hw => absurd hw not_mem_nil }

lemma Adds.append {added added' : List RpcTensor} (h1 : Adds h ptrs s s' added) (h2 : Adds h ptrs' s' s'' added') :
    Adds h (ptrs ++ ptrs') s s'' (added ++ added') where
  written := by rw [h2.written, h1.written, append_assoc]
  visited := fun q => by
    rw [h2.visited, h1.visited, or_assoc]
    refine or_congr_right ⟨?_, ?_⟩
    · rintro (⟨w, hw, hid⟩ | ⟨w, hw, hid⟩)
      · exact ⟨w, mem_append_left _ hw, hid⟩
      · exact ⟨w, mem_append_right _ hw, hid⟩
    · rintro ⟨w, hw, hid⟩
      rcases mem_append.1 hw with hw | hw
      · exact .inl ⟨w, hw, hid⟩
      · exact .inr ⟨w, hw, hid⟩
  fresh := fun w hw => by
    rcases mem_append.1 hw with hw | hw
    · exact h1.fresh w hw
    · exact fun hmem => h2.fresh w hw ((h1.visited _).2 (.inl hmem))
  nodup := by
    rw [map_append]
    refine h1.nodup.append h2.nodup fun q hq hq' => ?_
    obtain ⟨w, hw, rfl⟩ := mem_map.1 hq
    obtain ⟨w', hw', hid⟩ := mem_map.1 hq'
    exact h2.fresh w' hw' (hid ▸ (h1.visited _).2 (.inr ⟨w, hw, rfl⟩))
  tensor := fun w hw => (mem_append.1 hw).elim (h1.tensor w) (h2.tensor w)
  present := fun p hp hne => by
    rcases mem_append.1 hp with hp | hp
    · exact (h2.visited p).2 (.inl (h1.present p hp hne))
    · exact h2.present p hp hne
  closed := fun w hw t slot ht hne => by
    rcases mem_append.1 hw with hw | hw
    · exact (h2.visited _).2 (.inl (h1.closed w hw t slot ht hne))
    · exact h2.closed w hw t slot ht hne
  led := fun w hw => by
    rcases mem_append.1 hw with hw | hw
    · obtain ⟨p, hp, hl⟩ := h1.led w hw
      exact ⟨p, mem_append_left _ hp, hl⟩
    · obtain ⟨p, hp, hl⟩ := h2.led w hw
      exact ⟨p, mem_append_right _ hp, hl⟩

lemma Adds.tensor_last {added : List RpcTensor} (ht : h.tensor p = some t) (hp : p ∉ s.2)
    (ha : Adds h (slots.map t.ref) (s.1, p :: s.2) s' added) :
    Adds h [p] s (s'.1 ++ [h.serializeTensor p t], s'.2) (added ++ [h.serializeTensor p t]) where
  written := by
    rw [ha.written]
    exact append_assoc _ _ _
  visited := fun q => by
    rw [ha.visited, mem_cons]
    constructor
    · rintro ((rfl | hq) | ⟨w, hw, hid⟩)
      · exact .inr ⟨_, mem_append_right _ (mem_singleton_self _), rfl⟩
      · exact .inl hq
      · exact .inr ⟨w, mem_append_left _ hw, hid⟩
    · rintro (hq | ⟨w, hw, hid⟩)
      · exact .inl (.inr hq)
      · rcases mem_append.1 hw with hw | hw
        · exact .inr ⟨w, hw, hid⟩
        · rw [mem_singleton.1 hw] at hid
          exact .inl (.inl hid.symm)
  fresh := fun w hw => by
    rcases mem_append.1 hw with hw | hw
    · exact fun hmem => ha.fresh w hw (mem_cons_of_mem _ hmem)
    · rw [mem_singleton.1 hw]
      exact hp
  nodup := by
    rw [map_append]
    refine ha.nodup.append (nodup_singleton _) fun q hq hq' => ?_
    obtain ⟨w, hw, rfl⟩ := mem_map.1 hq
    have hid : w.id = p := mem_singleton.1 hq'
    exact ha.fresh w hw (hid ▸ mem_cons_self)
  tensor := fun w hw => by
    rcases mem_append.1 hw with hw | hw
    · exact ha.tensor w hw
    · rw [mem_singleton.1 hw]
      exact ⟨t, ht, rfl⟩
  present := fun q hq _ => by
    rw [mem_singleton.1 hq]
    exact (ha.visited p).2 (.inl mem_cons_self)
  closed := fun w hw t' slot ht' hne => by
    rcases mem_append.1 hw with hw | hw
    · exact ha.closed w hw t' slot ht' hne
    · rw [mem_singleton.1 hw] at ht'
      obtain rfl := Option.some.inj (ht.symm.trans ht')
      exact ha.present _ (mem_map_of_mem (mem_slots slot)) hne
  led := fun w hw => by
    refine ⟨p, mem_singleton_self p, ?_⟩
    rcases mem_append.1 hw with hw | hw
    · obtain ⟨q, hq, hl⟩ := ha.led w hw
      obtain ⟨slot, -, rfl⟩ := mem_map.1 hq
      rcases eq_or_ne (t.ref slot) 0 with hz | hne
      · -- nothing is at the null pointer
        obtain ⟨t', ht', -⟩ := ha.tensor w hw
        rcases hl.cases_head with heq | ⟨b, ⟨t0, -, ht0, -⟩, -⟩
        · exact absurd (heq.symm.trans hz) (ne_zero ht')
        · exact absurd hz (ne_zero ht0)
      · exact .head ⟨t, slot, ht, rfl, hne⟩ hl
    · rw [mem_singleton.1 hw]
      exact .refl

lemma addTensors_of_addTensor
    (ih : ∀ p s, (p ≠ 0 → ∃ t, h.tensor p = some t) → unseen (h.tensors.map Prod.fst) (fun q => decide (q ∈ s.2)) < fuel →
      ∃ added, Adds h [p] s (h.addTensor fuel p s) added) :
    ∀ (ptrs : List UInt64) (s : Walk), (∀ p ∈ ptrs, p ≠ 0 → ∃ t, h.tensor p = some t) →
      unseen (h.tensors.map Prod.fst) (fun q => decide (q ∈ s.2)) < fuel →
      ∃ added, Adds h ptrs s (h.addTensors fuel ptrs s) added := by
  intro ptrs
  induction ptrs with
  | nil => exact fun s _ _ => ⟨[], Adds.nil h s⟩
  | cons p ptrs ihp =>
    intro s hvalid hfuel
    obtain ⟨added, ha⟩ := ih p s (hvalid p mem_cons_self) hfuel
    have hle : unseen (h.tensors.map Prod.fst) (fun q => decide (q ∈ (h.addTensor fuel p s).2)) ≤
        unseen (h.tensors.map Prod.fst) fun q => decide (q ∈ s.2) :=
      unseen_mono fun q hq => decide_eq_true ((ha.visited q).2 (.inl (of_decide_eq_true hq)))
    obtain ⟨added', ha'⟩ := ihp (h.addTensor fuel p s) (fun q hq => hvalid q (mem_cons_of_mem _ hq)) (by omega)
    exact ⟨added ++ added', ha.append ha'⟩

lemma addTensor_spec : ∀ (fuel : Nat) (p : UInt64) (s : Walk), (p ≠ 0 → ∃ t, h.tensor p = some t) →
    unseen (h.tensors.map Prod.fst) (fun q => decide (q ∈ s.2)) < fuel →
    ∃ added, Adds h [p] s (h.addTensor fuel p s) added := by
  intro fuel
  induction fuel with
  | zero => exact fun _ _ _ hf => absurd hf (Nat.not_lt_zero _)
  | succ fuel ih =>
    intro p s hp hfuel
    rw [addTensor]
    by_cases hz : p = 0
    · rw [if_pos hz]
      exact ⟨[], .visited_before fun hne => absurd hz hne⟩
    rw [if_neg hz]
    by_cases hv : p ∈ s.2
    · rw [if_pos hv]
      exact ⟨[], .visited_before fun _ => hv⟩
    rw [if_neg hv]
    obtain ⟨t, ht⟩ := hp hz
    rw [ht]
    have hlt : unseen (h.tensors.map Prod.fst) (fun q => decide (q ∈ p :: s.2)) <
        unseen (h.tensors.map Prod.fst) fun q => decide (q ∈ s.2) :=
      unseen_lt (mem_addresses ht) (decide_eq_false hv) (decide_eq_true mem_cons_self) fun q hq =>
        decide_eq_true (mem_cons_of_mem _ (of_decide_eq_true hq))
    have hvalid : ∀ q ∈ slots.map t.ref, q ≠ 0 → ∃ t', h.tensor q = some t' := fun q hq hne => by
      obtain ⟨slot, -, rfl⟩ := mem_map.1 hq
      exact exists_ref ht hne
    obtain ⟨added, ha⟩ := addTensors_of_addTensor ih (slots.map t.ref) (s.1, p :: s.2) hvalid (by
      show unseen (h.tensors.map Prod.fst) (fun q => decide (q ∈ p :: s.2)) < fuel
      omega)
    exact ⟨added ++ [h.serializeTensor p t], .tensor_last ht hv ha⟩

/-- The tensors of a graph: everything that its nodes lead to. -/
def Reached (h : Heap) (nodes : List UInt64) (k : UInt64) : Prop := ∃ n ∈ nodes, h.Leads n k

lemma tensor_of_reached {nodes : List UInt64} {k : UInt64} (hnodes : ∀ n ∈ nodes, ∃ t, h.tensor n = some t)
    (hk : h.Reached nodes k) : ∃ t, h.tensor k = some t := by
  obtain ⟨n, hn, hl⟩ := hk
  rcases hl.cases_tail with rfl | ⟨b, -, t, slot, ht, rfl, hne⟩
  · exact hnodes _ hn
  · exact exists_ref ht hne

/-- The message holds every tensor of the graph once, and nothing else. -/
theorem graphTensors_spec {nodes : List UInt64} (hnodes : ∀ n ∈ nodes, ∃ t, h.tensor n = some t) :
    ((h.graphTensors nodes).map RpcTensor.id).Nodup ∧
    (∀ w ∈ h.graphTensors nodes, ∃ t, h.tensor w.id = some t ∧ w = h.serializeTensor w.id t) ∧
    ∀ k, h.Reached nodes k ↔ ∃ w ∈ h.graphTensors nodes, w.id = k := by
  have hfuel : unseen (h.tensors.map Prod.fst) (fun q => decide (q ∈ ([] : List UInt64))) < h.tensors.length + 1 := by
    have hle := unseen_le_length (h.tensors.map Prod.fst) fun q => decide (q ∈ ([] : List UInt64))
    rw [length_map] at hle
    omega
  obtain ⟨added, ha⟩ := addTensors_of_addTensor (addTensor_spec (h.tensors.length + 1)) nodes ([], [])
    (fun n hn _ => hnodes n hn) hfuel
  have hw : h.graphTensors nodes = added := ha.written
  rw [hw]
  have hvisited : ∀ q, q ∈ (h.addTensors (h.tensors.length + 1) nodes ([], [])).2 ↔ ∃ w ∈ added, w.id = q := fun q =>
    (ha.visited q).trans ⟨fun hq => hq.resolve_left not_mem_nil, .inr⟩
  refine ⟨ha.nodup, ha.tensor, fun k => ⟨?_, ?_⟩⟩
  · rintro ⟨n, hn, hl⟩
    rw [← hvisited]
    induction hl with
    | refl =>
      obtain ⟨t, ht⟩ := hnodes n hn
      exact ha.present n hn (ne_zero ht)
    | tail _ hr ih =>
      obtain ⟨t, slot, ht, rfl, hne⟩ := hr
      obtain ⟨w, hw, rfl⟩ := (hvisited _).1 ih
      exact ha.closed w hw t slot ht hne
  · rintro ⟨w, hw, rfl⟩
    obtain ⟨p, hp, hl⟩ := ha.led w hw
    exact ⟨p, hp, hl⟩

end Heap

end Mallana.Rpc
