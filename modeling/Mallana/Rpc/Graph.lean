import Mathlib.Data.List.FinRange
import Mathlib.Logic.Relation
import Mallana.Lib.Walk
import Mallana.Rpc.Bounds

/-!
# Graphs on the server

`graph_compute` reads a message of node ids and tensors, and `create_node` builds the tensors by recursion over the ids, with
a table of those that were begun. A tensor enters the table before its sources are created, so a walk also ends on a cycle,
and one whose sources fail stays behind.

`createNode_spec` says what one call does: the entries of the table stay, a call that succeeds leaves complete tensors whose
sources are in the table, and one that fails has met a tensor that is missing or has no registered buffer. The recursion never
runs out of fuel.
-/

namespace Mallana.Rpc

open Mallana.Lib List Option
open Mallana.Gguf (typeTraits blckSize typeSize)

abbrev Slot := Option (Fin 10)

/-- The order in which `create_node` follows the ids: the sources, then the view. -/
def slots : List Slot := (List.finRange 10).map some ++ [none]

lemma mem_slots (slot : Slot) : slot ∈ slots := by
  cases slot with
  | none => exact mem_append_right _ (mem_singleton_self _)
  | some i => exact mem_append_left _ (List.mem_map_of_mem (mem_finRange i))

def RpcTensor.ref (t : RpcTensor) : Slot → UInt64
  | some i => t.src i
  | none => t.viewSrc

def GgmlTensor.ref (r : GgmlTensor) : Slot → UInt64
  | some i => r.src i
  | none => r.viewSrc

def GgmlTensor.setRef (r : GgmlTensor) (slot : Slot) (p : UInt64) : GgmlTensor :=
  match slot with
  | some i => { r with src := Function.update r.src i p }
  | none => { r with viewSrc := p }

/-- `tensor_map`: the tensors that were begun, by their ids. -/
abbrev TensorMap := UInt64 → Option GgmlTensor

def TensorMap.modify (m : TensorMap) (id : UInt64) (f : GgmlTensor → GgmlTensor) : TensorMap :=
  fun k => if k = id then (m k).map f else m k

inductive NodeStatus where
  | created
  | null
  | aborted
  | outOfFuel
deriving DecidableEq

namespace RpcServer

/-- One slot of a new tensor: nothing more is done after a failure, and a null id is no source. -/
def linkRef (create : UInt64 → TensorMap → TensorMap × NodeStatus) (t : RpcTensor) (id : UInt64)
    (s : TensorMap × NodeStatus) (slot : Slot) : TensorMap × NodeStatus :=
  if s.2 = .created ∧ t.ref slot ≠ 0 then
    let (m, status) := create (t.ref slot) s.1
    (if status = .created then m.modify id fun r => r.setRef slot (t.ref slot) else m, status)
  else s

def setViewOffs (t : RpcTensor) (id : UInt64) (s : TensorMap × NodeStatus) : TensorMap × NodeStatus :=
  if s.2 = .created then (s.1.modify id fun r => { r with viewOffs := t.viewOffs }, s.2) else s

def createNode (srv : RpcServer) (tensorPtrs : UInt64 → Option RpcTensor) :
    Nat → UInt64 → TensorMap → TensorMap × NodeStatus
  | 0, _, m => (m, .outOfFuel)
  | fuel + 1, id, m =>
    if (m id).isSome then (m, .created)
    else match tensorPtrs id with
    | none => (m, .null)
    | some t =>
      match srv.deserializeTensor t with
      | .error .abort => (m, .aborted)
      | .error .null => (m, .null)
      | .ok result =>
        if result.buffer = 0 then (m, .null)
        else setViewOffs t id
          (slots.foldl (linkRef (createNode srv tensorPtrs fuel) t id) (Function.update m id (some result), .created))

/-- The nodes of the graph in order: a node that is null is passed over when its id is 0. -/
def createNodes (srv : RpcServer) (tensorPtrs : UInt64 → Option RpcTensor) (fuel : Nat) :
    List UInt64 → TensorMap → Except Stop (TensorMap × List (Option UInt64))
  | [], m => .ok (m, [])
  | id :: ids, m =>
    match srv.createNode tensorPtrs fuel id m with
    | (m', .created) => (createNodes srv tensorPtrs fuel ids m').map fun (m, nodes) => (m, some id :: nodes)
    | (m', .null) =>
      if id = 0 then (createNodes srv tensorPtrs fuel ids m').map fun (m, nodes) => (m, none :: nodes)
      else .error .null
    | (_, .aborted) => .error .abort
    | (_, .outOfFuel) => .error .abort

end RpcServer

/-- The parts of a `GRAPH_COMPUTE` message. -/
structure GraphRequest where
  device : UInt32
  nodes : List UInt64
  tensors : List RpcTensor

/-- `tensor_ptrs`: of two tensors with one id the first counts. -/
def GraphRequest.tensorPtrs (req : GraphRequest) (id : UInt64) : Option RpcTensor :=
  req.tensors.find? fun t => t.id = id

def GraphRequest.bytes (req : GraphRequest) : List UInt8 :=
  Codec.word32.enc req.device ++ (Codec.word32.enc (UInt32.ofNat req.nodes.length) ++
    (req.nodes.flatMap Codec.word64.enc ++ (Codec.word32.enc (UInt32.ofNat req.tensors.length) ++
      req.tensors.flatMap RpcTensor.codec.enc)))

/-- The graph that a backend computes: its nodes, null ones included, and the tensors that they lead to. -/
structure ServerGraph where
  nodes : List (Option UInt64)
  tensors : TensorMap

namespace RpcServer

/-- `| device (4 bytes) | n_nodes (4 bytes) | nodes (8 bytes each) | n_tensors (4 bytes) | tensors |`. -/
def parseGraph (srv : RpcServer) (input : List UInt8) : Option GraphRequest :=
  if input.length < 8 then none
  else
    let device := Codec.word32.dec input
    let nNodes := (Codec.word32.dec (input.drop 4)).toNat
    let nTensors := (Codec.word32.dec (input.drop (8 + nNodes * 8))).toNat
    if srv.backends ≤ device.toNat then none
    else if input.length < 8 + nNodes * 8 + 4 then none
    else if input.length < 8 + nNodes * 8 + 4 + nTensors * RpcTensor.codec.size then none
    else some
      { device
        nodes := Codec.word64.decList nNodes (input.drop 8)
        tensors := RpcTensor.codec.decList nTensors (input.drop (8 + nNodes * 8 + 4)) }

lemma parseGraph_bytes (srv : RpcServer) (req : GraphRequest) (hdevice : req.device.toNat < srv.backends)
    (hnodes : req.nodes.length < 4294967296) (htensors : req.tensors.length < 4294967296) :
    srv.parseGraph req.bytes = some req := by
  have hn : (UInt32.ofNat req.nodes.length).toNat = req.nodes.length := by
    rw [UInt32.toNat_ofNat']
    exact Nat.mod_eq_of_lt hnodes
  have ht : (UInt32.ofNat req.tensors.length).toNat = req.tensors.length := by
    rw [UInt32.toNat_ofNat']
    exact Nat.mod_eq_of_lt htensors
  have hlen : req.bytes.length = 8 + req.nodes.length * 8 + 4 + req.tensors.length * RpcTensor.codec.size := by
    simp only [GraphRequest.bytes, length_append, Codec.length_enc, Codec.length_flatMap_enc]
    show 4 + (4 + (req.nodes.length * 8 + (4 + req.tensors.length * RpcTensor.codec.size))) = _
    omega
  have h4 : req.bytes.drop 4 = _ := Codec.word32.drop_enc req.device _
  have h8 := (congrArg (List.drop 4) h4).trans (Codec.word32.drop_enc _ _)
  rw [drop_drop] at h8
  have hcount := (congrArg (List.drop (req.nodes.length * 8)) h8).trans
    (drop_left' (Codec.word64.length_flatMap_enc req.nodes))
  rw [drop_drop] at hcount
  have hlast := (congrArg (List.drop 4) hcount).trans (Codec.word32.drop_enc _ _)
  rw [drop_drop] at hlast
  have hdev : Codec.word32.dec req.bytes = req.device := Codec.word32.dec_enc _ _
  have hnum : (Codec.word32.dec (req.bytes.drop 4)).toNat = req.nodes.length := by
    rw [h4, Codec.word32.dec_enc, hn]
  have htnum : (Codec.word32.dec (req.bytes.drop (8 + req.nodes.length * 8))).toNat = req.tensors.length := by
    rw [hcount, Codec.word32.dec_enc, ht]
  have hsplit := RpcTensor.codec.decList_flatMap req.tensors []
  rw [append_nil] at hsplit
  unfold parseGraph
  rw [if_neg (by rw [hlen]; omega)]
  simp only []
  rw [hdev, hnum, htnum, if_neg (Nat.not_le.2 hdevice), if_neg (by rw [hlen]; omega), if_neg (by rw [hlen]; omega), h8,
    Codec.decList_flatMap, hlast, hsplit]

def graphCompute (srv : RpcServer) (input : List UInt8) : Except Stop (UInt32 × ServerGraph) :=
  match srv.parseGraph input with
  | none => .error .null
  | some req =>
    (srv.createNodes req.tensorPtrs (req.tensors.length + 1) req.nodes fun _ => none).map
      fun (m, nodes) => (req.device, ⟨nodes, m⟩)

variable {srv : RpcServer} {tensorPtrs : UInt64 → Option RpcTensor} {m m' : TensorMap} {id k : UInt64} {t : RpcTensor}

def Refers (tensorPtrs : UInt64 → Option RpcTensor) (a b : UInt64) : Prop :=
  ∃ t slot, tensorPtrs a = some t ∧ t.ref slot = b ∧ b ≠ 0

abbrev Leads (tensorPtrs : UInt64 → Option RpcTensor) : UInt64 → UInt64 → Prop := Relation.ReflTransGen (Refers tensorPtrs)

/-- The id names a tensor of the message that becomes a tensor in a registered buffer. -/
def Sound (srv : RpcServer) (tensorPtrs : UInt64 → Option RpcTensor) (k : UInt64) : Prop :=
  ∃ t b, tensorPtrs k = some t ∧ srv.Deserialized t (srv.newTensor t) ∧ srv.find t.buffer = some b

def built (srv : RpcServer) (t : RpcTensor) : GgmlTensor :=
  { srv.newTensor t with src := t.src, viewSrc := t.viewSrc, viewOffs := t.viewOffs }

def partBuilt (srv : RpcServer) (t : RpcTensor) (done : List Slot) : GgmlTensor :=
  { srv.newTensor t with
    src := fun i => if some i ∈ done then t.src i else 0
    viewSrc := if none ∈ done then t.viewSrc else 0 }

def Finished (srv : RpcServer) (tensorPtrs : UInt64 → Option RpcTensor) (m : TensorMap) (k : UInt64) : Prop :=
  Sound srv tensorPtrs k ∧ ∃ t, tensorPtrs k = some t ∧ m k = some (srv.built t) ∧
    ∀ slot, t.ref slot ≠ 0 → (m (t.ref slot)).isSome = true

/-- What a call does to the table. -/
structure Creates (srv : RpcServer) (tensorPtrs : UInt64 → Option RpcTensor) (id : UInt64) (m m' : TensorMap)
    (status : NodeStatus) : Prop where
  keeps : ∀ k r, m k = some r → m' k = some r
  present : status = .created → (m' id).isSome = true
  finished : status = .created → ∀ k, (m' k).isSome = true → m k = none → Finished srv tensorPtrs m' k
  failed : status ≠ .created → status ≠ .outOfFuel ∧ ∃ k, Leads tensorPtrs id k ∧ ¬ Sound srv tensorPtrs k

/-- What the loop over the slots has done to the table. -/
structure Linking (srv : RpcServer) (tensorPtrs : UInt64 → Option RpcTensor) (t : RpcTensor) (id : UInt64) (m0 : TensorMap)
    (done : List Slot) (s : TensorMap × NodeStatus) : Prop where
  keeps : ∀ k r, m0 k = some r → s.1 k = some r
  part : s.2 = .created → s.1 id = some (srv.partBuilt t done)
  linked : s.2 = .created → ∀ slot ∈ done, t.ref slot ≠ 0 → (s.1 (t.ref slot)).isSome = true
  finished : s.2 = .created → ∀ k, k ≠ id → (s.1 k).isSome = true → m0 k = none → Finished srv tensorPtrs s.1 k
  failed : s.2 ≠ .created → s.2 ≠ .outOfFuel ∧ ∃ k, Leads tensorPtrs id k ∧ ¬ Sound srv tensorPtrs k

lemma modify_of_ne {f : GgmlTensor → GgmlTensor} (h : k ≠ id) : m.modify id f k = m k := if_neg h

lemma modify_self {f : GgmlTensor → GgmlTensor} : m.modify id f id = (m id).map f := if_pos rfl

lemma isSome_modify {f : GgmlTensor → GgmlTensor} : (m.modify id f k).isSome = (m k).isSome := by
  unfold TensorMap.modify
  split
  · exact isSome_map
  · rfl

lemma partBuilt_nil : srv.partBuilt t [] = srv.newTensor t := by
  simp only [partBuilt, not_mem_nil, if_false]
  rfl

lemma partBuilt_append (done : List Slot) (slot : Slot) :
    srv.partBuilt t (done ++ [slot]) = (srv.partBuilt t done).setRef slot (t.ref slot) := by
  cases slot with
  | none => simp [partBuilt, GgmlTensor.setRef, RpcTensor.ref]
  | some i =>
    simp only [partBuilt, GgmlTensor.setRef, RpcTensor.ref, mem_append, mem_singleton, reduceCtorEq, or_false]
    congr 1
    funext j
    rw [Function.update_apply]
    by_cases hj : j = i
    · rw [if_pos (Or.inr (congrArg some hj)), if_pos hj, hj]
    · have hne : ¬ some j = some i := fun e => hj (Option.some.inj e)
      rw [if_neg hj]
      simp only [hne, or_false]

lemma partBuilt_append_null {done : List Slot} {slot : Slot} (h : t.ref slot = 0) :
    srv.partBuilt t (done ++ [slot]) = srv.partBuilt t done := by
  cases slot with
  | none =>
    have hv : t.viewSrc = 0 := h
    simp [partBuilt, hv]
  | some i =>
    have hi : t.src i = 0 := h
    simp only [partBuilt, mem_append, mem_singleton, reduceCtorEq, or_false]
    congr 1
    funext j
    by_cases hj : j = i
    · rw [hj, hi, ite_self, ite_self]
    · have hne : ¬ some j = some i := fun e => hj (Option.some.inj e)
      simp only [hne, or_false]

lemma partBuilt_slots : { srv.partBuilt t slots with viewOffs := t.viewOffs } = srv.built t := by
  simp only [partBuilt, built, mem_slots, if_true]

lemma Finished.mono (h : Finished srv tensorPtrs m k) (hk : m' k = m k)
    (hsome : ∀ k, (m k).isSome = true → (m' k).isSome = true) : Finished srv tensorPtrs m' k := by
  obtain ⟨hs, t, ht, hm, hrefs⟩ := h
  exact ⟨hs, t, ht, hk.trans hm, fun slot hne => hsome _ (hrefs slot hne)⟩

lemma Sound.newTensor_buffer (h : Sound srv tensorPtrs k) (ht : tensorPtrs k = some t) :
    srv.deserializeTensor t = .ok (srv.newTensor t) ∧ (srv.newTensor t).buffer ≠ 0 := by
  obtain ⟨t', b, ht', hd, hb⟩ := h
  obtain rfl := Option.some.inj (ht.symm.trans ht')
  exact ⟨deserializeTensor_eq_ok.2 hd, buffer_newTensor_ne.2 ⟨b, hb⟩⟩

/-- One source of a tensor is linked. -/
lemma Linking.step {create : UInt64 → TensorMap → TensorMap × NodeStatus} {m0 : TensorMap} {done : List Slot}
    {s : TensorMap × NodeStatus} (ht : tensorPtrs id = some t) (hm0 : m0 id = none)
    (hcreate : ∀ ref m, (m id).isSome = true → (∀ k r, m0 k = some r → m k = some r) →
      Creates srv tensorPtrs ref m (create ref m).1 (create ref m).2)
    (h : Linking srv tensorPtrs t id m0 done s) (slot : Slot) :
    Linking srv tensorPtrs t id m0 (done ++ [slot]) (linkRef create t id s slot) := by
  by_cases hs : s.2 = .created
  · by_cases href : t.ref slot = 0
    · -- a null id
      rw [linkRef, if_neg fun hc => hc.2 href]
      refine ⟨h.keeps, fun _ => ?_, fun _ slot' hmem hne => ?_, h.finished, h.failed⟩
      · rw [partBuilt_append_null href]
        exact h.part hs
      · rcases mem_append.1 hmem with hmem | hmem
        · exact h.linked hs slot' hmem hne
        · rw [mem_singleton.1 hmem] at hne
          exact absurd href hne
    · have hid := h.part hs
      have hc := hcreate (t.ref slot) s.1 (by rw [hid]; rfl) h.keeps
      rw [linkRef, if_pos ⟨hs, href⟩]
      simp only []
      by_cases hst : (create (t.ref slot) s.1).2 = .created
      · rw [if_pos hst, hst]
        have hsome : ∀ k, (s.1 k).isSome = true → ((create (t.ref slot) s.1).1 k).isSome = true := fun k hk => by
          obtain ⟨r, hr⟩ := isSome_iff_exists.1 hk
          rw [hc.keeps k r hr]
          rfl
        refine ⟨fun k r hk => ?_, fun _ => ?_, fun _ slot' hmem hne => ?_, fun _ k hne hk hk0 => ?_, fun hf => absurd rfl hf⟩
        · have hne : k ≠ id := fun e => by
            rw [e, hm0] at hk
            cases hk
          exact (modify_of_ne hne).trans (hc.keeps k r (h.keeps k r hk))
        · show TensorMap.modify _ id _ id = _
          rw [modify_self, hc.keeps id _ hid, partBuilt_append]
          rfl
        · rw [isSome_modify]
          rcases mem_append.1 hmem with hmem | hmem
          · exact hsome _ (h.linked hs slot' hmem hne)
          · rw [mem_singleton.1 hmem]
            exact hc.present hst
        · have hgrow : ∀ k, ((create (t.ref slot) s.1).1 k).isSome = true →
              (((create (t.ref slot) s.1).1.modify id fun r => r.setRef slot (t.ref slot)) k).isSome = true := fun k hk => by
            rw [isSome_modify]
            exact hk
          rw [isSome_modify] at hk
          rcases hold : s.1 k with - | r
          · exact (hc.finished hst k hk hold).mono (modify_of_ne hne) hgrow
          · have hfin := h.finished hs k hne (by rw [hold]; rfl) hk0
            exact hfin.mono ((modify_of_ne hne).trans ((hc.keeps k r hold).trans hold.symm))
              fun k hk => hgrow k (hsome k hk)
      · rw [if_neg hst]
        obtain ⟨hfuel, k, hlead, hbad⟩ := hc.failed hst
        exact ⟨fun k r hk => hc.keeps k r (h.keeps k r hk), fun he => absurd he hst, fun he => absurd he hst,
          fun he => absurd he hst, fun _ => ⟨hfuel, k, .head ⟨t, slot, ht, rfl, href⟩ hlead, hbad⟩⟩
  · rw [linkRef, if_neg fun hc => hs hc.1]
    exact ⟨h.keeps, fun he => absurd he hs, fun he => absurd he hs, fun he => absurd he hs, h.failed⟩

lemma Linking.creates {m0 : TensorMap} {s : TensorMap × NodeStatus} (hsound : Sound srv tensorPtrs id)
    (ht : tensorPtrs id = some t) (hm0 : m0 id = none) (h : Linking srv tensorPtrs t id m0 slots s) :
    Creates srv tensorPtrs id m0 (setViewOffs t id s).1 (setViewOffs t id s).2 := by
  unfold setViewOffs
  by_cases hs : s.2 = .created
  · rw [if_pos hs]
    have hid : (s.1.modify id fun r => { r with viewOffs := t.viewOffs }) id = some (srv.built t) := by
      rw [modify_self, h.part hs, ← partBuilt_slots]
      rfl
    have hgrow : ∀ k, (s.1 k).isSome = true →
        ((s.1.modify id fun r => { r with viewOffs := t.viewOffs }) k).isSome = true := fun k hk => by
      rw [isSome_modify]
      exact hk
    refine ⟨fun k r hk => ?_, fun _ => ?_, fun _ k hk hk0 => ?_, fun hf => absurd hs hf⟩
    · have hne : k ≠ id := fun e => by
        rw [e, hm0] at hk
        cases hk
      exact (modify_of_ne hne).trans (h.keeps k r hk)
    · show (TensorMap.modify _ id _ id).isSome = true
      rw [hid]
      rfl
    · rcases eq_or_ne k id with rfl | hne
      · exact ⟨hsound, t, ht, hid, fun slot hne => hgrow _ (h.linked hs slot (mem_slots slot) hne)⟩
      · rw [isSome_modify] at hk
        exact (h.finished hs k hne hk hk0).mono (modify_of_ne hne) hgrow
  · rw [if_neg hs]
    exact ⟨h.keeps, fun he => absurd he hs, fun he => absurd he hs, h.failed⟩

lemma Creates.of_not_sound {status : NodeStatus} (hbad : ¬ Sound srv tensorPtrs id) (hne : status ≠ .created)
    (hfuel : status ≠ .outOfFuel) : Creates srv tensorPtrs id m m status :=
  ⟨fun _ _ hk => hk, fun he => absurd he hne, fun he => absurd he hne, fun _ => ⟨hfuel, id, .refl, hbad⟩⟩

/-- What `create_node` does. -/
theorem createNode_spec {ids : List UInt64} (hids : ∀ k, (tensorPtrs k).isSome = true → k ∈ ids) :
    ∀ (fuel : Nat) (id : UInt64) (m : TensorMap), unseen ids (fun k => (m k).isSome) < fuel →
      Creates srv tensorPtrs id m (srv.createNode tensorPtrs fuel id m).1 (srv.createNode tensorPtrs fuel id m).2 := by
  intro fuel
  induction fuel with
  | zero => exact fun _ _ h => absurd h (Nat.not_lt_zero _)
  | succ fuel ih =>
    intro id m hfuel
    rw [createNode]
    by_cases hid : (m id).isSome = true
    · rw [if_pos hid]
      exact ⟨fun _ _ hk => hk, fun _ => hid, fun _ k hk hk0 => absurd hk (not_isSome_iff_eq_none.2 hk0),
        fun hf => absurd rfl hf⟩
    · rw [if_neg hid]
      have hm0 : m id = none := not_isSome_iff_eq_none.1 hid
      rcases ht : tensorPtrs id with - | t
      · exact .of_not_sound (fun ⟨t, _, ht', _⟩ => nomatch ht.symm.trans ht') nofun nofun
      rcases hd : srv.deserializeTensor t with stop | result
      · have hbad : ¬ Sound srv tensorPtrs id := fun hs => by
          rw [(hs.newTensor_buffer ht).1] at hd
          cases hd
        simp only [hd]
        cases stop with
        | null => exact .of_not_sound hbad nofun nofun
        | abort => exact .of_not_sound hbad nofun nofun
      · have hdes := deserializeTensor_eq_ok.1 hd
        obtain rfl := hdes.eq
        by_cases hb : (srv.newTensor t).buffer = 0
        · simp only [hd, if_pos hb]
          exact .of_not_sound (fun hs => (hs.newTensor_buffer ht).2 hb) nofun nofun
        · simp only [hd, if_neg hb]
          obtain ⟨b, hfind⟩ := buffer_newTensor_ne.1 hb
          have hsound : Sound srv tensorPtrs id := ⟨t, b, ht, hdes, hfind⟩
          refine Linking.creates hsound ht hm0 (foldl_done (P := Linking srv tensorPtrs t id m) ?_ fun done slot s _ h => ?_)
          · -- the new tensor is in the table before its sources
            refine ⟨fun k r hk => ?_, fun _ => ?_, fun _ slot hmem => absurd hmem not_mem_nil, fun _ k hne hk hk0 => ?_,
              fun hf => absurd rfl hf⟩
            · have hne : k ≠ id := fun e => by
                rw [e, hm0] at hk
                cases hk
              exact (Function.update_of_ne hne _ _).trans hk
            · rw [partBuilt_nil]
              exact Function.update_self _ _ _
            · have hold : (m k).isSome = true := Function.update_of_ne hne (some (srv.newTensor t)) m ▸ hk
              exact absurd hold (not_isSome_iff_eq_none.2 hk0)
          · refine h.step ht hm0 (fun ref m' hm' hkeeps => ih ref m' ?_) slot
            have hlt : unseen ids (fun k => (m' k).isSome) < unseen ids fun k => (m k).isSome := by
              refine unseen_lt (hids id (by rw [ht]; rfl)) (by rw [hm0]; rfl) hm' fun k hk => ?_
              obtain ⟨r, hr⟩ := isSome_iff_exists.1 hk
              rw [hkeeps k r hr]
              rfl
            omega

end RpcServer

end Mallana.Rpc
