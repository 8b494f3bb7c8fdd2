import Mallana.Server.ChatFilter

/-!
# Streaming a growing message

A run of `update_chat_msg` over messages of which each extends the previous one (`Growing`). Without `filter_tool_calls`
the deltas rebuild the last message. With it they do unless the name of a call is sent too early: in an update that adds
the call and changes something else as well, the header is sent although the name may still grow, and what is added to
it later is dropped. A call without name and arguments is not sent at all once it was held back. `Timely` excludes the
two, and `streams_iff` says that nothing else goes wrong.
-/

namespace Mallana.Server

open Mallana.Lib Mallana.Tokenizer List

namespace ChatMsg

/-- The name of call `i`. -/
def nameAt (m : ChatMsg) (i : Nat) : Str := (m.toolCalls.getD i {}).name

/-- The id that call `i` keeps: its own, or the generated one. -/
def idOf (gen : Nat → Str) (i : Nat) (c : ToolCall) : Str := if c.id = [] then gen i else c.id

def withIds (gen : Nat → Str) (m : ChatMsg) : ChatMsg :=
  { m with toolCalls := m.toolCalls.mapIdx fun i c => { c with id := idOf gen i c } }

/-- A message extends the previous one. The name of the last call is settled if something else changed after the call
appeared; then, and once it has arguments, it stays. -/
structure GrowsTo (settled : Bool) (m m' : ChatMsg) : Prop extends m.Extends m' where
  name : ∀ i, i < m.toolCalls.length → m.argsAt i ≠ [] ∨ settled = true → m'.nameAt i = m.nameAt i

def settledAfter (settled : Bool) (m m' : ChatMsg) : Bool :=
  m.toolCalls.length = m'.toolCalls.length &&
    (settled || m.reasoningContent ≠ m'.reasoningContent || m.content ≠ m'.content)

def Growing : Bool → ChatMsg → List ChatMsg → Prop
  | _, _, [] => True
  | settled, m, m' :: ms => GrowsTo settled m m' ∧ Growing (settledAfter settled m m') m' ms

/-- Something other than call `i` changes. -/
def OtherChanged (m m' : ChatMsg) (i : Nat) : Prop :=
  m.reasoningContent ≠ m'.reasoningContent ∨ m.content ≠ m'.content ∨ ∃ j, j ≠ i ∧ m.shape j ≠ m'.shape j

/-- A last call appears with a name while something else changes. -/
def Early (m m' : ChatMsg) : Prop :=
  m.toolCalls.length < m'.toolCalls.length ∧ m'.nameAt (m'.toolCalls.length - 1) ≠ [] ∧
    OtherChanged m m' (m'.toolCalls.length - 1)

def Unhurried (last : ChatMsg) : ChatMsg → List ChatMsg → Prop
  | _, [] => True
  | m, m' :: ms => (Early m m' → m'.nameAt (m'.toolCalls.length - 1) = last.nameAt (m'.toolCalls.length - 1)) ∧
      Unhurried last m' ms

/-- No name is sent too early, and a call that appears before the last message gets a name or arguments. -/
def Timely (ms : List ChatMsg) (last : ChatMsg) : Prop :=
  Unhurried last {} ms ∧ ∀ i < (ms.getLastD {}).toolCalls.length, last.nameAt i ≠ [] ∨ last.argsAt i ≠ []

end ChatMsg

open ChatMsg

def feed (gen : Nat → Str) (filter : Bool) :
    TaskResultState → List ChatMsg → Except DiffError (TaskResultState × List ChatDiff)
  | st, [] => .ok (st, [])
  | st, m :: ms => do
    let r ← updateChatMsg gen filter st m true
    let r' ← feed gen filter r.1 ms
    return (r'.1, r.2 ++ r'.2)

def stream (gen : Nat → Str) (filter : Bool) (ms : List ChatMsg) (last : ChatMsg) :
    Except DiffError (TaskResultState × List ChatDiff) := do
  let r ← feed gen filter {} ms
  let r' ← updateChatMsg gen filter r.1 last false
  return (r'.1, r.2 ++ r'.2)

/-- The run does not fail and rebuilds the last message; if the calls are filtered, each name is sent once and first. -/
def Streams (gen : Nat → Str) (ms : List ChatMsg) (last : ChatMsg) : Prop :=
  ∀ filter, ∃ st ds, stream gen filter ms last = .ok (st, ds) ∧ Rebuilds ds (last.withIds gen) ∧
    (filter = true → ∀ i c, (last.withIds gen).toolCalls[i]? = some c → NameOnce ds i c.name)

section
variable {gen : Nat → Str} {m m' : ChatMsg} {i : Nat}

lemma getElem?_withIds : (m.withIds gen).toolCalls[i]? = m.toolCalls[i]?.map fun c => { c with id := idOf gen i c } :=
  getElem?_mapIdx

@[simp] lemma length_withIds : (m.withIds gen).toolCalls.length = m.toolCalls.length := length_mapIdx

@[simp] lemma shape_withIds : (m.withIds gen).shape i = m.shape i := by
  rw [shape, getElem?_withIds, Option.map_map]
  rfl

@[simp] lemma argsAt_withIds : (m.withIds gen).argsAt i = m.argsAt i := by
  unfold argsAt
  rw [getD_eq_getElem?_getD, getD_eq_getElem?_getD, getElem?_withIds]
  cases m.toolCalls[i]? with
  | none => rfl
  | some c => rfl

@[simp] lemma nameAt_withIds : (m.withIds gen).nameAt i = m.nameAt i := by
  unfold nameAt
  rw [getD_eq_getElem?_getD, getD_eq_getElem?_getD, getElem?_withIds]
  cases m.toolCalls[i]? with
  | none => rfl
  | some c => rfl

lemma extends_withIds (h : m.Extends m') : (m.withIds gen).Extends (m'.withIds gen) := by
  refine ⟨h.reasoningContent, h.content, ?_, fun i hi => ?_, fun i c hc => ?_⟩
  · rw [length_withIds, length_withIds]
    exact h.length
  · rw [length_withIds] at hi
    rw [getElem?_withIds, getElem?_withIds, h.old i hi]
  · rw [getElem?_withIds] at hc
    obtain ⟨b, hb, rfl⟩ := Option.map_eq_some_iff.1 hc
    obtain ⟨c', hc', hname, hargs, hid⟩ := h.last i b hb
    refine ⟨{ c' with id := idOf gen i c' }, ?_, hname, hargs, ?_⟩
    · rw [getElem?_withIds, hc']
      rfl
    · show idOf gen i c' = idOf gen i b
      rw [idOf, idOf, hid]

lemma setIdsFrom_eq {ids cache : List Str} {cs : List ToolCall} (hlen : i + cs.length = ids.length)
    (hids : ∀ k c, cs[k]? = some c → ids[i + k]? = some (idOf gen (i + k) c)) (hcache : cache <+: ids)
    (hi : i ≤ cache.length) :
    setIdsFrom gen i cache cs = (cs.mapIdx fun k c => { c with id := idOf gen (i + k) c }, ids) := by
  induction cs generalizing i cache with
  | nil =>
    have heq : cache = ids := hcache.eq_of_length_le (by rw [← hlen]; exact hi)
    rw [setIdsFrom, heq]
    rfl
  | cons c cs ih =>
    have hc := hids 0 c rfl
    have hlt : i < ids.length := by
      rw [← hlen, length_cons]
      omega
    rw [setIdsFrom]
    -- the cache with the id of this call
    have hnext : ∃ cache', (if cache.length ≤ i then cache ++ [if c.id = [] then gen i else c.id] else cache) = cache' ∧
        cache' <+: ids ∧ i + 1 ≤ cache'.length ∧ cache'.getD i [] = idOf gen i c := by
      split
      next hle =>
        obtain rfl : cache.length = i := le_antisymm hle hi
        obtain ⟨t, rfl⟩ := hcache
        cases t with
        | nil =>
          rw [append_nil] at hlt
          exact absurd hlt (lt_irrefl _)
        | cons x t =>
          rw [Nat.add_zero, getElem?_append_right (Nat.le_refl _), Nat.sub_self] at hc
          have hx : x = idOf gen cache.length c := Option.some.inj hc
          refine ⟨_, rfl, ⟨t, ?_⟩, ?_, ?_⟩
          · rw [hx, append_assoc]
            rfl
          · rw [length_append, length_singleton]
          · rw [getD_eq_getElem?_getD, getElem?_append_right (Nat.le_refl _), Nat.sub_self]
            rfl
      next hlt' =>
        refine ⟨cache, rfl, hcache, by omega, ?_⟩
        obtain ⟨t, rfl⟩ := hcache
        rw [add_zero, getElem?_append_left (by omega)] at hc
        rw [getD_eq_getElem?_getD, hc]
        rfl
    obtain ⟨cache', hcache', hpre, hlen', hget⟩ := hnext
    rw [hcache']
    have hrest := @ih (i + 1) cache' (by rw [← hlen, length_cons]; omega)
      (fun k c' hk => by
        have := hids (k + 1) c' hk
        rwa [show i + 1 + k = i + (k + 1) by omega]) hpre hlen'
    simp only [hrest, hget, mapIdx_cons, add_zero]
    have hshift : (fun k c => { c with id := idOf gen (i + 1 + k) c }) =
        fun k (c : ToolCall) => { c with id := idOf gen (i + (k + 1)) c } := by
      funext k c
      rw [show i + 1 + k = i + (k + 1) by omega]
    rw [hshift]

def stateOf (gen : Nat → Str) (m : ChatMsg) (sent : Finset Nat) : TaskResultState where
  chatMsg := m.withIds gen
  generatedToolCallIds := (m.withIds gen).toolCalls.map ToolCall.id
  sentToolCallNames := sent

lemma setIds_eq (h : m.Extends m') : setIdsFrom gen 0 ((m.withIds gen).toolCalls.map ToolCall.id) m'.toolCalls =
    ((m'.withIds gen).toolCalls, (m'.withIds gen).toolCalls.map ToolCall.id) := by
  have hids : ∀ (m : ChatMsg) k, ((m.withIds gen).toolCalls.map ToolCall.id)[k]? = m.toolCalls[k]?.map (idOf gen k) := by
    intro m k
    rw [getElem?_map, getElem?_withIds, Option.map_map]
    rfl
  have hpre : (m.withIds gen).toolCalls.map ToolCall.id <+: (m'.withIds gen).toolCalls.map ToolCall.id := by
    rw [prefix_iff_getElem?]
    intro k hk
    have hlt : k < m.toolCalls.length := by simpa using hk
    obtain ⟨c', hc', _, _, hid⟩ := h.last k _ (getElem?_eq_getElem hlt)
    have hold := getElem?_eq_getElem hk
    rw [hids, getElem?_eq_getElem hlt] at hold
    rw [hids, hc', ← Option.some.inj hold, Option.map_some, idOf, idOf, hid]
  have hset := @setIdsFrom_eq gen 0 ((m'.withIds gen).toolCalls.map ToolCall.id)
    ((m.withIds gen).toolCalls.map ToolCall.id) m'.toolCalls (by simp)
    (fun k c hk => by rw [Nat.zero_add, hids, hk]; rfl) hpre (Nat.zero_le _)
  rw [hset]
  simp only [zero_add]
  rfl

lemma diffsOf_empty (h : m.Extends m') (hempty : m'.empty = true) : m.withIds gen = {} ∧ m'.withIds gen = {} := by
  obtain ⟨hcontent, hcalls, hreasoning⟩ := of_decide_eq_true hempty
  have hlen := h.length
  rw [hcalls] at hlen
  have hnil := length_eq_zero_iff.1 (Nat.le_zero.1 hlen)
  have h1 := h.content
  have h2 := h.reasoningContent
  rw [hcontent] at h1
  rw [hreasoning] at h2
  constructor
  · unfold withIds
    rw [hnil, prefix_nil.1 h1, prefix_nil.1 h2]
    rfl
  · unfold withIds
    rw [hcalls, hcontent, hreasoning]
    rfl

lemma update_plain (h : m.Extends m') (sent : Finset Nat) (isPartial : Bool) :
    updateChatMsg gen false (stateOf gen m sent) m' isPartial =
      .ok (stateOf gen m' sent, diffsOf (m.withIds gen) (m'.withIds gen)) := by
  unfold updateChatMsg
  split
  next hempty =>
    obtain ⟨hm, hm'⟩ := @diffsOf_empty gen _ _ h hempty
    unfold stateOf
    rw [hm, hm']
    rfl
  next =>
    have hset := @setIds_eq gen _ _ h
    have hdiffs := computeDiffs_eq (@extends_withIds gen _ _ h)
    simp only [stateOf, hset]
    show (computeDiffs (m.withIds gen) (m'.withIds gen) >>= _) = _
    rw [hdiffs]
    rfl

lemma update_filtered (h : m.Extends m') (sent : Finset Nat) (isPartial : Bool) {f : Filtered}
    (hf : filterDiffs (m'.withIds gen).toolCalls isPartial sent (diffsOf (m.withIds gen) (m'.withIds gen)) = f) :
    updateChatMsg gen true (stateOf gen m sent) m' isPartial = .ok (stateOf gen m' f.1, f.2) := by
  unfold updateChatMsg
  split
  next hempty =>
    obtain ⟨hm, hm'⟩ := @diffsOf_empty gen _ _ h hempty
    rw [hm, hm'] at hf
    have hnone : f = (sent, []) := by
      rw [← hf]
      cases isPartial <;> rfl
    unfold stateOf
    rw [hm, hm', hnone]
  next =>
    have hset := @setIds_eq gen _ _ h
    have hdiffs := computeDiffs_eq (@extends_withIds gen _ _ h)
    simp only [stateOf, hset]
    show (computeDiffs (m.withIds gen) (m'.withIds gen) >>= _) = _
    rw [hdiffs]
    show Except.ok _ = Except.ok _
    rw [← hf]
    rfl

end

/-- The name that was sent for call `i`. -/
def toldName (i : Nat) (ds : List ChatDiff) : Str := (((about i ds).head?).map fun d => d.toolCallDelta.name).getD []

/-- The deltas `ds` bring the client to the message, but for the calls that are not in `sent` and for the names. -/
structure Sound (m : ChatMsg) (sent : Finset Nat) (ds : List ChatDiff) : Prop where
  reasoningContent : reasoningOf ds = m.reasoningContent
  content : contentOf ds = m.content
  bound : ∀ i ∈ sent, i < m.toolCalls.length
  tells : ∀ i ∈ sent, ∃ t : ToolCall, t.id = (m.toolCalls.getD i {}).id ∧ Tells t (about i ds) ∧
    argsOf (about i ds) = m.argsAt i
  waits : ∀ i, i ∉ sent → about i ds = [] ∧ m.argsAt i = []

section
variable {m m' : ChatMsg} {sent : Finset Nat} {ds : List ChatDiff} {f : Filtered} {isPartial : Bool} {i : Nat}

lemma sound_empty : Sound {} ∅ [] where
  reasoningContent := rfl
  content := rfl
  bound := nofun
  tells := nofun
  waits _ _ := ⟨rfl, rfl⟩

lemma toldName_eq {t : ToolCall} (h : Tells t (about i ds)) : toldName i ds = t.name := by
  obtain ⟨d, rest, hd, hname, _⟩ := h
  rw [toldName, hd]
  exact hname

lemma argsOf_ne_nil {ds : List ChatDiff} : argsOf ds ≠ [] ↔ ∃ d ∈ ds, d.toolCallDelta.arguments ≠ [] := by
  rw [argsOf, Ne, flatMap_eq_nil_iff]
  constructor
  · intro h
    by_contra hno
    exact h fun d hd => by_contra fun hne => hno ⟨d, hd, hne⟩
  · rintro ⟨d, hd, hne⟩ h
    exact hne (h d hd)

lemma due_iff (h : m.Extends m') (i : Nat) : Due m'.toolCalls isPartial (diffsOf m m') i ↔
    (m'.nameAt i ≠ [] ∧ i < m'.toolCalls.length ∧ (OtherChanged m m' i ∨ isPartial = false)) ∨
      argsOf (about i (diffsOf m m')) ≠ [] ∨ (m.shape i ≠ m'.shape i ∧ isPartial = false) := by
  have hdesc := describes h
  have hother : (∃ d ∈ diffsOf m m', d.toolCallIndex ≠ some i) ↔ OtherChanged m m' i := by
    unfold OtherChanged
    rw [← or_assoc, ← hdesc.texts]
    constructor
    · rintro ⟨d, hd, hne⟩
      cases hi : d.toolCallIndex with
      | none => exact .inl ⟨d, hd, hi⟩
      | some j =>
        refine .inr ⟨j, fun hj => hne (hj ▸ hi), (hdesc.changed j).1 (ne_nil_of_mem (mem_about.2 ⟨hd, hi⟩))⟩
    · rintro (⟨d, hd, hnone⟩ | ⟨j, hj, hchanged⟩)
      · exact ⟨d, hd, by rw [hnone]; exact (Option.some_ne_none i).symm⟩
      · obtain ⟨d, hd⟩ := exists_mem_of_ne_nil _ ((hdesc.changed j).2 hchanged)
        obtain ⟨hd, hdj⟩ := mem_about.1 hd
        exact ⟨d, hd, by rw [hdj]; exact fun h => hj (Option.some.inj h)⟩
  have hown : (∃ d ∈ diffsOf m m', d.toolCallIndex = some i ∧ (d.toolCallDelta.arguments ≠ [] ∨ isPartial = false)) ↔
      argsOf (about i (diffsOf m m')) ≠ [] ∨ (m.shape i ≠ m'.shape i ∧ isPartial = false) := by
    rw [argsOf_ne_nil, ← hdesc.changed]
    constructor
    · rintro ⟨d, hd, hi, hargs | hfinal⟩
      · exact .inl ⟨d, mem_about.2 ⟨hd, hi⟩, hargs⟩
      · exact .inr ⟨ne_nil_of_mem (mem_about.2 ⟨hd, hi⟩), hfinal⟩
    · rintro (⟨d, hd, hargs⟩ | ⟨hne, hfinal⟩)
      · obtain ⟨hd, hi⟩ := mem_about.1 hd
        exact ⟨d, hd, hi, .inl hargs⟩
      · obtain ⟨d, hd⟩ := exists_mem_of_ne_nil _ hne
        obtain ⟨hd, hi⟩ := mem_about.1 hd
        exact ⟨d, hd, hi, .inr hfinal⟩
  unfold Due
  rw [hother, hown]
  refine or_congr_left ⟨fun ⟨hi, hname, h⟩ => ⟨hname, hi, h⟩, fun ⟨hname, hi, h⟩ => ⟨hi, hname, h⟩⟩

/-- What one update sends. -/
structure Update (m m' : ChatMsg) (isPartial : Bool) (sent sent' : Finset Nat) (ds ds' : List ChatDiff) : Prop where
  sound : Sound m' sent' ds'
  mem : ∀ i, i ∈ sent' ↔ i ∈ sent ∨ Due m'.toolCalls isPartial (diffsOf m m') i
  stays : ∀ i ∈ sent, toldName i ds' = toldName i ds
  told : ∀ i ∈ sent', i ∉ sent → toldName i ds' = m'.nameAt i

/-- One update sends what the client lacks. -/
lemma Sound.update (hs : Sound m sent ds) (h : m.Extends m')
    (hf : filterDiffs m'.toolCalls isPartial sent (diffsOf m m') = f) :
    Update m m' isPartial sent f.1 ds (ds ++ f.2) := by
  have hdesc := describes h
  obtain ⟨hr, hc, hk, hmem⟩ := filterDiffs_spec sent (fun d hd => hdesc.plain d hd) hdesc.bound hf
  have hargs := hdesc.args
  -- the first delta about a call that is sent now
  have hnew : ∀ i ∈ f.1, i ∉ sent → Tells (m'.toolCalls.getD i {}) (about i (ds ++ f.2)) ∧
      argsOf (about i (ds ++ f.2)) = m'.argsAt i := by
    intro i hi hno
    obtain ⟨hnil, hempty⟩ := hs.waits i hno
    obtain ⟨htells, hx⟩ := (hk i).tells hno hi
    rw [about_append, hnil, nil_append]
    refine ⟨htells, hx.trans ?_⟩
    rw [← hargs i, hempty, nil_append]
  have hold : ∀ i ∈ sent, ∃ t : ToolCall, t.id = (m'.toolCalls.getD i {}).id ∧ Tells t (about i (ds ++ f.2)) ∧
      argsOf (about i (ds ++ f.2)) = m'.argsAt i ∧ toldName i ds = t.name := by
    intro i hi
    obtain ⟨t, hid, htells, hx⟩ := hs.tells i hi
    obtain ⟨_, hplain, hy⟩ := (hk i).stays hi
    refine ⟨t, hid.trans ?_, ?_, ?_, toldName_eq htells⟩
    · have hlt := hs.bound i hi
      obtain ⟨c', hc', _, _, hid'⟩ := h.last i _ (getElem?_eq_getElem hlt)
      rw [getD_eq_getElem?_getD, getD_eq_getElem?_getD, getElem?_eq_getElem hlt, hc']
      exact hid'.symm
    · rw [about_append]
      exact htells.append hplain
    · rw [about_append, argsOf_append, hx, hy]
      exact hargs i
  refine ⟨⟨?_, ?_, ?_, ?_, ?_⟩, hmem, ?_, ?_⟩
  · rw [← hdesc.reasoningContent, ← hs.reasoningContent, ← hr]
    exact flatMap_append ..
  · rw [← hdesc.content, ← hs.content, ← hc]
    exact flatMap_append ..
  · intro i hi
    rcases (hmem i).1 hi with hi | hdue
    · exact lt_of_lt_of_le (hs.bound i hi) h.length
    · rcases hdue with ⟨hlt, _⟩ | ⟨d, hd, hdi, _⟩
      · exact hlt
      · exact hdesc.bound d hd i hdi
  · intro i hi
    by_cases hsent : i ∈ sent
    · obtain ⟨t, hid, htells, hx, _⟩ := hold i hsent
      exact ⟨t, hid, htells, hx⟩
    · obtain ⟨htells, hx⟩ := hnew i hi hsent
      exact ⟨_, rfl, htells, hx⟩
  · intro i hi
    have hno : i ∉ sent := fun hsent => hi ((hmem i).2 (.inl hsent))
    obtain ⟨hnil, hempty⟩ := hs.waits i hno
    obtain ⟨hnone, hx⟩ := (hk i).waits hno hi
    rw [about_append, hnil, hnone, ← hargs i, hempty, hx]
    exact ⟨rfl, rfl⟩
  · intro i hi
    obtain ⟨t, _, htells, _, hname⟩ := hold i hi
    rw [hname]
    exact toldName_eq htells
  · intro i hi hno
    exact toldName_eq (hnew i hi hno).1

end

/-- The client after partial updates: what was sent is not empty. -/
structure Stage (gen : Nat → Str) (m : ChatMsg) (sent : Finset Nat) (ds : List ChatDiff) : Prop where
  sound : Sound (m.withIds gen) sent ds
  shown : ∀ i ∈ sent, m.nameAt i ≠ [] ∨ m.argsAt i ≠ []

/-- The names that were sent are the last ones, or they are those of the message and will stay. -/
def Named (last : ChatMsg) (settled : Bool) (m : ChatMsg) (sent : Finset Nat) (ds : List ChatDiff) : Prop :=
  ∀ i ∈ sent, toldName i ds = last.nameAt i ∨
    toldName i ds = m.nameAt i ∧ (i + 1 < m.toolCalls.length ∨ m.argsAt i ≠ [] ∨ settled = true)

section
variable {gen : Nat → Str} {m m' last : ChatMsg} {settled : Bool} {sent sent' : Finset Nat} {ds ds' : List ChatDiff}
  {i : Nat} {isPartial : Bool}

lemma otherChanged_withIds : OtherChanged (m.withIds gen) (m'.withIds gen) i ↔ OtherChanged m m' i := by
  unfold OtherChanged
  simp only [shape_withIds]
  rfl

lemma due_withIds (h : m.Extends m') (i : Nat) :
    Due (m'.withIds gen).toolCalls isPartial (diffsOf (m.withIds gen) (m'.withIds gen)) i ↔
    (m'.nameAt i ≠ [] ∧ i < m'.toolCalls.length ∧ (OtherChanged m m' i ∨ isPartial = false)) ∨
      argsOf (about i (diffsOf (m.withIds gen) (m'.withIds gen))) ≠ [] ∨ (m.shape i ≠ m'.shape i ∧ isPartial = false) := by
  rw [due_iff (extends_withIds h), otherChanged_withIds, nameAt_withIds, length_withIds, shape_withIds, shape_withIds]

lemma args_withIds (h : m.Extends m') (i : Nat) :
    m.argsAt i ++ argsOf (about i (diffsOf (m.withIds gen) (m'.withIds gen))) = m'.argsAt i := by
  have := (describes (@extends_withIds gen _ _ h)).args i
  rwa [argsAt_withIds, argsAt_withIds] at this

lemma nameAt_starts (h : m.Extends m') (i : Nat) : m.nameAt i <+: m'.nameAt i := by
  unfold nameAt
  rw [getD_eq_getElem?_getD, getD_eq_getElem?_getD]
  cases hc : m.toolCalls[i]? with
  | none => exact nil_prefix
  | some c =>
    obtain ⟨c', hc', hname, _⟩ := h.last i c hc
    rw [hc']
    exact hname

lemma argsAt_starts (h : m.Extends m') (i : Nat) : m.argsAt i <+: m'.argsAt i := ⟨_, @args_withIds (fun _ => []) _ _ h i⟩

lemma ne_nil_of_starts {l l' : Str} (h : l <+: l') (hne : l ≠ []) : l' ≠ [] := by
  rintro rfl
  exact hne (prefix_nil.1 h)

lemma shape_old (h : m.Extends m') {j : Nat} (hj : j + 1 < m.toolCalls.length) : m.shape j = m'.shape j := by
  rw [shape, shape, h.old j hj]

lemma nameAt_old (h : m.Extends m') {j : Nat} (hj : j + 1 < m.toolCalls.length) : m'.nameAt j = m.nameAt j := by
  rw [nameAt, nameAt, getD_eq_getElem?_getD, getD_eq_getElem?_getD, h.old j hj]

lemma shape_beyond {j : Nat} (hj : m.toolCalls.length ≤ j) : m.shape j = none := by
  rw [shape, List.getElem?_eq_none_iff.2 hj]
  rfl

lemma Stage.update (h : Stage gen m sent ds) (hext : m.Extends m')
    (hup : Update (m.withIds gen) (m'.withIds gen) true sent sent' ds ds') : Stage gen m' sent' ds' := by
  refine ⟨hup.sound, fun i hi => ?_⟩
  rcases (hup.mem i).1 hi with hsent | hdue
  · rcases h.shown i hsent with hname | hargs
    · exact .inl (ne_nil_of_starts (nameAt_starts hext i) hname)
    · exact .inr (ne_nil_of_starts (argsAt_starts hext i) hargs)
  · rcases (due_withIds hext i).1 hdue with ⟨hname, _⟩ | hargs | ⟨_, hfinal⟩
    · exact .inl hname
    · refine .inr ?_
      rw [← @args_withIds gen _ _ hext i]
      exact append_ne_nil_of_right_ne_nil _ hargs
    · cases hfinal

lemma ChatMsg.GrowsTo.frozen (h : GrowsTo settled m m') (hi : i < m.toolCalls.length)
    (hfrozen : i + 1 < m.toolCalls.length ∨ m.argsAt i ≠ [] ∨ settled = true) : m'.nameAt i = m.nameAt i ∧
      (i + 1 < m'.toolCalls.length ∨ m'.argsAt i ≠ [] ∨ settledAfter settled m m' = true) := by
  have hlen := h.length
  rcases hfrozen with hlt | hargs | hsettled
  · exact ⟨nameAt_old h.toExtends hlt, .inl (by omega)⟩
  · exact ⟨h.name i hi (.inl hargs), .inr (.inl (ne_nil_of_starts (argsAt_starts h.toExtends i) hargs))⟩
  · refine ⟨h.name i hi (.inr hsettled), ?_⟩
    rcases Nat.eq_or_lt_of_le hlen with heq | hlt
    · refine .inr (.inr ?_)
      rw [settledAfter, decide_eq_true heq, hsettled]
      rfl
    · exact .inl (by omega)

lemma frozen_of_other (h : m.Extends m') (hi : i < m'.toolCalls.length) (hother : OtherChanged m m' i) :
    i + 1 < m'.toolCalls.length ∨ settledAfter settled m m' = true ∨
      m.toolCalls.length < m'.toolCalls.length ∧ i = m'.toolCalls.length - 1 := by
  rcases lt_or_ge (i + 1) m'.toolCalls.length with hlt | hge
  · exact .inl hlt
  · obtain hi : i = m'.toolCalls.length - 1 := by omega
    rcases Nat.eq_or_lt_of_le h.length with heq | hlt
    · refine .inr (.inl ?_)
      rw [settledAfter, decide_eq_true heq, Bool.true_and]
      rcases hother with hr | hc | ⟨j, hj, hchanged⟩
      · rw [decide_eq_true hr, Bool.or_true, Bool.true_or]
      · rw [decide_eq_true hc, Bool.or_true]
      · refine absurd ?_ hchanged
        rcases lt_or_ge (j + 1) m.toolCalls.length with hj' | hj'
        · exact shape_old h hj'
        · rw [shape_beyond (by omega), shape_beyond (by omega)]
    · exact .inr (.inr ⟨hlt, hi⟩)

lemma Named.update (hn : Named last settled m sent ds) (hs : Sound (m.withIds gen) sent ds) (h : GrowsTo settled m m')
    (hearly : Early m m' → m'.nameAt (m'.toolCalls.length - 1) = last.nameAt (m'.toolCalls.length - 1))
    (hup : Update (m.withIds gen) (m'.withIds gen) true sent sent' ds ds') :
    Named last (settledAfter settled m m') m' sent' ds' := by
  intro i hi
  by_cases hsent : i ∈ sent
  · rw [hup.stays i hsent]
    rcases hn i hsent with hlast | ⟨htold, hfrozen⟩
    · exact .inl hlast
    · have hlt := hs.bound i hsent
      rw [length_withIds] at hlt
      obtain ⟨hname, hfrozen'⟩ := h.frozen hlt hfrozen
      exact .inr ⟨htold.trans hname.symm, hfrozen'⟩
  · have htold := hup.told i hi hsent
    rw [nameAt_withIds] at htold
    have hdue := ((hup.mem i).1 hi).resolve_left hsent
    rcases (due_withIds h.toExtends i).1 hdue with ⟨hname, hlt, hother | hfinal⟩ | hargs | ⟨_, hfinal⟩
    · rcases @frozen_of_other _ _ settled _ h.toExtends hlt hother with hnext | hsettled | ⟨hnew, rfl⟩
      · exact .inr ⟨htold, .inl hnext⟩
      · exact .inr ⟨htold, .inr (.inr hsettled)⟩
      · exact .inl (htold.trans (hearly ⟨hnew, hname, hother⟩))
    · cases hfinal
    · refine .inr ⟨htold, .inr (.inl ?_)⟩
      rw [← @args_withIds gen _ _ h.toExtends i]
      exact append_ne_nil_of_right_ne_nil _ hargs
    · cases hfinal

lemma told_of_early (hs : Sound (m.withIds gen) sent ds) (h : m.Extends m') (hearly : Early m m')
    (hup : Update (m.withIds gen) (m'.withIds gen) true sent sent' ds ds') : m'.toolCalls.length - 1 ∈ sent' ∧
      toldName (m'.toolCalls.length - 1) ds' = m'.nameAt (m'.toolCalls.length - 1) := by
  obtain ⟨hnew, hname, hother⟩ := hearly
  have hno : m'.toolCalls.length - 1 ∉ sent := by
    intro hsent
    have hlt := hs.bound _ hsent
    rw [length_withIds] at hlt
    omega
  have hmem : m'.toolCalls.length - 1 ∈ sent' :=
    (hup.mem _).2 (.inr ((due_withIds h _).2 (.inl ⟨hname, by omega, .inl hother⟩)))
  refine ⟨hmem, ?_⟩
  rw [hup.told _ hmem hno, nameAt_withIds]

end

section
variable {gen : Nat → Str} {m last : ChatMsg} {settled : Bool} {sent : Finset Nat} {ds : List ChatDiff}
  {ms : List ChatMsg}

lemma stateOf_empty (gen : Nat → Str) : stateOf gen {} ∅ = {} := rfl

lemma rebuilds_append {m m' : ChatMsg} (h : Rebuilds ds m) (hext : m.Extends m') : Rebuilds (ds ++ diffsOf m m') m' := by
  have hdesc := describes hext
  obtain ⟨hr, hc, hcalls⟩ := rebuilds_iff.1 h
  refine rebuilds_iff.2 ⟨?_, ?_, fun i => ?_⟩
  · rw [← hdesc.reasoningContent, ← hr]
    exact flatMap_append ..
  · rw [← hdesc.content, ← hc]
    exact flatMap_append ..
  · rw [about_append, foldl_append, hcalls i]
    exact hdesc.calls i

lemma feed_plain (hgrow : Growing settled m (ms ++ [last])) (h : Rebuilds ds (m.withIds gen)) :
    ∃ new, feed gen false (stateOf gen m sent) ms = .ok (stateOf gen (ms.getLastD m) sent, new) ∧
      Rebuilds (ds ++ new) ((ms.getLastD m).withIds gen) ∧ (ms.getLastD m).Extends last := by
  induction ms generalizing settled m ds with
  | nil => exact ⟨[], rfl, by rwa [append_nil], hgrow.1.toExtends⟩
  | cons m' ms ih =>
    obtain ⟨hstep, hrest⟩ := hgrow
    obtain ⟨new, hfeed, hnew, hlast⟩ := ih hrest (rebuilds_append h (extends_withIds hstep.toExtends))
    rw [getLastD_cons]
    refine ⟨diffsOf (m.withIds gen) (m'.withIds gen) ++ new, ?_, by rwa [← append_assoc], hlast⟩
    rw [feed, update_plain hstep.toExtends]
    show (feed gen false (stateOf gen m' sent) ms >>= _) = _
    rw [hfeed]
    rfl

lemma feed_filtered (hgrow : Growing settled m (ms ++ [last])) (h : Stage gen m sent ds) :
    ∃ sent' new settled', feed gen true (stateOf gen m sent) ms = .ok (stateOf gen (ms.getLastD m) sent', new) ∧
      Stage gen (ms.getLastD m) sent' (ds ++ new) ∧
      (∀ i ∈ sent, i ∈ sent' ∧ toldName i (ds ++ new) = toldName i ds) ∧ GrowsTo settled' (ms.getLastD m) last ∧
      (Unhurried last m ms → Named last settled m sent ds → Named last settled' (ms.getLastD m) sent' (ds ++ new)) ∧
      ((∀ i ∈ sent', toldName i (ds ++ new) = last.nameAt i) → Unhurried last m ms) := by
  induction ms generalizing settled m sent ds with
  | nil =>
    refine ⟨sent, [], settled, rfl, by rwa [append_nil], fun i hi => ⟨hi, by rw [append_nil]⟩, hgrow.1, ?_, ?_⟩
    · rw [append_nil]
      exact fun _ hn => hn
    · exact fun _ => trivial
  | cons m' ms ih =>
    obtain ⟨hstep, hrest⟩ := hgrow
    obtain ⟨f, hf⟩ : ∃ f, filterDiffs (m'.withIds gen).toolCalls true sent
        (diffsOf (m.withIds gen) (m'.withIds gen)) = f := ⟨_, rfl⟩
    have hup := h.sound.update (extends_withIds hstep.toExtends) hf
    obtain ⟨sent', new, settled', hfeed, hstage, hstays, hgrows, hnamed, hback⟩ := ih hrest (h.update hstep.toExtends hup)
    rw [getLastD_cons]
    refine ⟨sent', f.2 ++ new, settled', ?_, ?_, ?_, hgrows, ?_, ?_⟩
    · rw [feed, update_filtered hstep.toExtends sent true hf]
      show (feed gen true (stateOf gen m' f.1) ms >>= _) = _
      rw [hfeed]
      rfl
    · rwa [← append_assoc]
    · intro i hi
      obtain ⟨hmem, htold⟩ := hstays i ((hup.mem i).2 (.inl hi))
      rw [← append_assoc, htold, hup.stays i hi]
      exact ⟨hmem, rfl⟩
    · rintro ⟨hearly, hunhurried⟩ hn
      rw [← append_assoc]
      exact hnamed hunhurried (hn.update h.sound hstep hearly hup)
    · intro hall
      rw [← append_assoc] at hall
      refine ⟨fun hearly => ?_, hback hall⟩
      obtain ⟨hmem, htold⟩ := told_of_early h.sound hstep.toExtends hearly hup
      obtain ⟨hmem', htold'⟩ := hstays _ hmem
      rw [← htold, ← htold']
      exact hall _ hmem'

lemma foldl_tells {t : ToolCall} {l : List ChatDiff} (h : Tells t l) :
    l.foldl addCall none = some { name := t.name, arguments := argsOf l, id := t.id } := by
  obtain ⟨d, rest, rfl, hname, hid, hrest⟩ := h
  have main : ∀ (l : List ChatDiff) (c : ToolCall), (∀ e ∈ l, e.toolCallDelta.name = [] ∧ e.toolCallDelta.id = []) →
      l.foldl addCall (some c) = some { c with arguments := c.arguments ++ argsOf l } := by
    intro l
    induction l with
    | nil =>
      intro c _
      rw [argsOf_nil, append_nil]
      rfl
    | cons e l ih =>
      intro c he
      rw [forall_mem_cons] at he
      rw [foldl_cons, addCall, Option.getD_some, ToolCall.merge, if_pos he.1.1, if_pos he.1.2, ih _ he.2, argsOf_cons,
        append_assoc]
  rw [foldl_cons, addCall, Option.getD_none, ToolCall.merge_default, main rest _ hrest, argsOf_cons, hname, hid]

lemma nameOnce_of_tells {t : ToolCall} {i : Nat} (h : Tells t (about i ds)) : NameOnce ds i t.name := by
  obtain ⟨d, rest, hd, hname, _, hrest⟩ := h
  refine ⟨fun hne => ?_, fun l e r hl hne => ?_⟩
  · have hnil : (rest.map fun d => d.toolCallDelta.name).filter (· ≠ []) = [] := by
      rw [filter_eq_nil_iff]
      intro n hn
      obtain ⟨e, he, rfl⟩ := mem_map.1 hn
      rw [(hrest e he).1]
      decide
    rw [hd, map_cons, filter_cons_of_pos (by rw [hname]; exact decide_eq_true hne), hnil, hname]
  · rw [hd] at hl
    cases l with
    | nil => rfl
    | cons x l =>
      obtain ⟨_, hl⟩ := List.cons.inj hl
      have hmem : e ∈ rest := by
        rw [hl]
        exact mem_append_right l mem_cons_self
      exact absurd (hrest e hmem).1 hne

end

section
variable {gen : Nat → Str} {m last : ChatMsg} {settled : Bool} {sent : Finset Nat} {ds : List ChatDiff}
  {ms : List ChatMsg}

/-- The client's record of each call after the last update. -/
structure Complete (last : ChatMsg) (sent : Finset Nat) (ds : List ChatDiff) : Prop where
  all : ∀ i < last.toolCalls.length, i ∈ sent
  named : ∀ i ∈ sent, toldName i ds = last.nameAt i

lemma Sound.record (h : Sound (m.withIds gen) sent ds) {i : Nat} (hi : i ∈ sent) :
    (∃ t, Tells t (about i ds)) ∧ ∀ c, (m.withIds gen).toolCalls[i]? = some c →
      (about i ds).foldl addCall none = some { c with name := toldName i ds } := by
  obtain ⟨t, hid, htells, hargs⟩ := h.tells i hi
  refine ⟨⟨t, htells⟩, fun c hc => ?_⟩
  rw [argsAt, getD_eq_getElem?_getD, hc] at hargs
  rw [getD_eq_getElem?_getD, hc] at hid
  rw [foldl_tells htells, hargs, hid, toldName_eq htells]
  rfl

lemma Sound.rebuilds_iff (h : Sound (m.withIds gen) sent ds) : Rebuilds ds (m.withIds gen) ↔ Complete m sent ds := by
  rw [Mallana.Server.rebuilds_iff]
  have hname : ∀ {i : Nat} {c : ToolCall}, (m.withIds gen).toolCalls[i]? = some c → m.nameAt i = c.name := by
    intro i c hc
    rw [← @nameAt_withIds gen, nameAt, getD_eq_getElem?_getD, hc]
    rfl
  constructor
  · rintro ⟨_, _, hcalls⟩
    refine ⟨fun i hi => ?_, fun i hi => ?_⟩
    · by_contra hno
      have hrecord := hcalls i
      rw [(h.waits i hno).1, getElem?_eq_getElem (by rwa [length_withIds])] at hrecord
      cases hrecord
    · have hlt := h.bound i hi
      have hc := getElem?_eq_getElem hlt
      have hrecord := hcalls i
      rw [(h.record hi).2 _ hc, hc] at hrecord
      rw [hname hc]
      exact congrArg ToolCall.name (Option.some.inj hrecord)
  · rintro ⟨hsent, hnamed⟩
    refine ⟨h.reasoningContent, h.content, fun i => ?_⟩
    cases hc : (m.withIds gen).toolCalls[i]? with
    | none =>
      have hno : i ∉ sent := fun hi => Nat.not_le.2 (h.bound i hi) (List.getElem?_eq_none_iff.1 hc)
      rw [(h.waits i hno).1]
      rfl
    | some c =>
      have hi : i ∈ sent := hsent i (by
        have hlt := (List.getElem?_eq_some_iff.1 hc).1
        rwa [length_withIds] at hlt)
      rw [(h.record hi).2 c hc, hnamed i hi, hname hc]

lemma mem_last {sent' : Finset Nat} {ds' : List ChatDiff} (h : Stage gen m sent ds) (hext : m.Extends last)
    (hup : Update (m.withIds gen) (last.withIds gen) false sent sent' ds ds') {i : Nat} (hi : i < last.toolCalls.length) :
    i ∈ sent' ↔ m.toolCalls.length ≤ i ∨ last.nameAt i ≠ [] ∨ last.argsAt i ≠ [] := by
  rw [hup.mem, due_withIds hext]
  constructor
  · rintro (hsent | ⟨hname, _⟩ | hargs | ⟨hchanged, _⟩)
    · rcases h.shown i hsent with hname | hargs
      · exact .inr (.inl (ne_nil_of_starts (nameAt_starts hext i) hname))
      · exact .inr (.inr (ne_nil_of_starts (argsAt_starts hext i) hargs))
    · exact .inr (.inl hname)
    · refine .inr (.inr ?_)
      rw [← @args_withIds gen _ _ hext i]
      exact append_ne_nil_of_right_ne_nil _ hargs
    · by_contra hno
      rw [not_or, not_or, not_not, not_not, not_le] at hno
      obtain ⟨hlt, hname, hargs⟩ := hno
      have hname' : m.nameAt i = [] := prefix_nil.1 (hname ▸ nameAt_starts hext i)
      have hargs' : m.argsAt i = [] := prefix_nil.1 (hargs ▸ argsAt_starts hext i)
      apply hchanged
      unfold nameAt at hname hname'
      unfold argsAt at hargs hargs'
      rw [getD_eq_getElem?_getD, getElem?_eq_getElem hi] at hname hargs
      rw [getD_eq_getElem?_getD, getElem?_eq_getElem hlt] at hname' hargs'
      change last.toolCalls[i].name = [] at hname
      change last.toolCalls[i].arguments = [] at hargs
      change m.toolCalls[i].name = [] at hname'
      change m.toolCalls[i].arguments = [] at hargs'
      rw [shape, shape, getElem?_eq_getElem hi, getElem?_eq_getElem hlt, Option.map_some, Option.map_some, hname,
        hargs, hname', hargs']
  · rintro (hnew | hname | hargs)
    · refine .inr (.inr (.inr ⟨?_, rfl⟩))
      rw [shape_beyond hnew, shape, getElem?_eq_getElem hi]
      exact (Option.some_ne_none _).symm
    · exact .inr (.inl ⟨hname, hi, .inr rfl⟩)
    · by_cases hsent : i ∈ sent
      · exact .inl hsent
      · refine .inr (.inr (.inl ?_))
        have hempty := (h.sound.waits i hsent).2
        have happ := @args_withIds gen _ _ hext i
        rw [argsAt_withIds] at hempty
        rw [hempty, nil_append] at happ
        rwa [happ]

lemma Named.final {sent' : Finset Nat} {ds' : List ChatDiff} (hn : Named last settled m sent ds)
    (hs : Sound (m.withIds gen) sent ds) (h : GrowsTo settled m last)
    (hup : Update (m.withIds gen) (last.withIds gen) false sent sent' ds ds') :
    ∀ i ∈ sent', toldName i ds' = last.nameAt i := by
  intro i hi
  by_cases hsent : i ∈ sent
  · rw [hup.stays i hsent]
    rcases hn i hsent with hlast | ⟨htold, hfrozen⟩
    · exact hlast
    · have hlt := hs.bound i hsent
      rw [length_withIds] at hlt
      exact htold.trans (h.frozen hlt hfrozen).1.symm
  · rw [hup.told i hi hsent, nameAt_withIds]

/-- Streaming a growing message works exactly if no name is sent too early and no call stays without name and arguments. -/
theorem streams_iff (gen : Nat → Str) (hgrow : Growing false {} (ms ++ [last])) : Streams gen ms last ↔ Timely ms last := by
  -- the two runs
  obtain ⟨new, hplain, hrebuilt, hext⟩ := @feed_plain gen {} last false ∅ [] ms hgrow
    (Mallana.Server.rebuilds_iff.2 ⟨rfl, rfl, fun _ => rfl⟩)
  obtain ⟨sent, ds, settled, hfeed, hstage, _, hgrows, hnamed, hback⟩ := @feed_filtered gen {} last false ∅ [] ms hgrow
    ⟨sound_empty, nofun⟩
  rw [stateOf_empty] at hplain hfeed
  rw [nil_append] at hrebuilt hstage hnamed hback
  generalize hm : ms.getLastD {} = m at *
  obtain ⟨f, hf⟩ : ∃ f, filterDiffs (last.withIds gen).toolCalls false sent
      (diffsOf (m.withIds gen) (last.withIds gen)) = f := ⟨_, rfl⟩
  have hup := hstage.sound.update (extends_withIds hext) hf
  have hrun : stream gen true ms last = .ok (stateOf gen last f.1, ds ++ f.2) := by
    rw [stream, hfeed]
    show (updateChatMsg gen true (stateOf gen m sent) last false >>= _) = _
    rw [update_filtered hext sent false hf]
    rfl
  have hcomplete := hup.sound.rebuilds_iff
  have hmem := fun {i : Nat} => @mem_last gen m last sent ds f.1 (ds ++ f.2) hstage hext hup i
  have htimely : Timely ms last ↔ Unhurried last {} ms ∧ ∀ i < m.toolCalls.length, last.nameAt i ≠ [] ∨ last.argsAt i ≠ [] := by
    rw [Timely, hm]
  rw [htimely]
  constructor
  · intro h
    obtain ⟨st, all, hok, hrebuilds, _⟩ := h true
    obtain ⟨rfl, rfl⟩ := Prod.mk.inj (Except.ok.inj (hrun.symm.trans hok))
    obtain ⟨hsent, hname⟩ := hcomplete.1 hrebuilds
    refine ⟨hback fun i hi => ?_, fun i hi => ?_⟩
    · rw [← hup.stays i hi]
      exact hname i ((hup.mem i).2 (.inl hi))
    · have hlt := lt_of_lt_of_le hi hext.length
      exact ((hmem hlt).1 (hsent i hlt)).resolve_left (Nat.not_le.2 hi)
  · rintro ⟨hunhurried, hshown⟩ filter
    cases filter with
    | false =>
      refine ⟨stateOf gen last ∅, new ++ diffsOf (m.withIds gen) (last.withIds gen), ?_,
        rebuilds_append hrebuilt (extends_withIds hext), nofun⟩
      rw [stream, hplain]
      show (updateChatMsg gen false (stateOf gen m ∅) last false >>= _) = _
      rw [update_plain hext]
      rfl
    | true =>
      have hname := (hnamed hunhurried nofun).final hstage.sound hgrows hup
      have hsent : ∀ i < last.toolCalls.length, i ∈ f.1 := by
        intro i hi
        refine (hmem hi).2 ?_
        rcases lt_or_ge i m.toolCalls.length with hlt | hge
        · exact .inr (hshown i hlt)
        · exact .inl hge
      refine ⟨_, _, hrun, hcomplete.2 ⟨hsent, hname⟩, fun _ i c hc => ?_⟩
      have hlt := (List.getElem?_eq_some_iff.1 hc).1
      rw [length_withIds] at hlt
      obtain ⟨⟨t, htells⟩, _⟩ := hup.sound.record (hsent i hlt)
      have honce := nameOnce_of_tells htells
      rw [← toldName_eq htells, hname i (hsent i hlt), ← @nameAt_withIds gen, nameAt,
        getD_eq_getElem?_getD, hc] at honce
      exact honce

end

def contentOnly : ChatMsg := { content := [97] }

def contentAndCall : ChatMsg := { content := [97], toolCalls := [{ name := [103, 101], arguments := [123] }] }

/-- Streaming the two messages works. -/
theorem streams_contentAndCall : Streams (fun _ => [120]) [contentOnly] contentAndCall := by
  have hgrow : Growing false {} ([contentOnly] ++ [contentAndCall]) :=
    ⟨⟨⟨⟨[], rfl⟩, ⟨[97], rfl⟩, le_refl _, nofun, nofun⟩, nofun⟩,
      ⟨⟨⟨[], rfl⟩, ⟨[], rfl⟩, Nat.zero_le _, nofun, nofun⟩, nofun⟩, trivial⟩
  refine (streams_iff (fun _ => [120]) hgrow).2 ⟨⟨?_, trivial⟩, nofun⟩
  rintro ⟨hnew, _⟩
  exact absurd hnew (lt_irrefl 0)

def nameBegins : ChatMsg := { content := [97], toolCalls := [{ name := [103] }] }

def nameComplete : ChatMsg := { content := [97], toolCalls := [{ name := [103, 101] }] }

lemma growing_name : Growing false {} ([nameBegins] ++ [nameComplete]) := by
  refine ⟨⟨⟨⟨[], rfl⟩, ⟨[97], rfl⟩, Nat.zero_le _, nofun, nofun⟩, nofun⟩,
    ⟨⟨⟨[], rfl⟩, ⟨[], rfl⟩, le_refl _, fun i hi => ?_, fun i c hc => ?_⟩, fun i hi h => ?_⟩, trivial⟩
  · exact absurd hi (Nat.not_lt.2 (Nat.le_add_left 1 i))
  · cases i with
    | zero =>
      cases hc
      exact ⟨_, rfl, ⟨[101], rfl⟩, ⟨[], rfl⟩, rfl⟩
    | succ i => cases hc
  · cases Nat.lt_one_iff.1 hi
    rcases h with h | h
    · exact absurd rfl h
    · cases h

/-- The client is left with the beginning. -/
theorem streams_nameBegins : Growing false {} ([nameBegins] ++ [nameComplete]) ∧
    ¬ Streams (fun _ => [120]) [nameBegins] nameComplete := by
  refine ⟨growing_name, fun h => ?_⟩
  obtain ⟨st, ds, hok, hrebuilds, _⟩ := h true
  have hrun : (stream (fun _ => [120]) true [nameBegins] nameComplete).map
      (fun r => ((r.2.foldl ChatClient.add {}).toolCalls 0).map ToolCall.name) = .ok (some [103]) := rfl
  rw [hok] at hrun
  have hcall := hrebuilds.toolCalls 0
  have hname : ((ds.foldl ChatClient.add {}).toolCalls 0).map ToolCall.name = some [103] := Except.ok.inj hrun
  rw [hcall] at hname
  exact absurd hname (by decide)

end Mallana.Server
