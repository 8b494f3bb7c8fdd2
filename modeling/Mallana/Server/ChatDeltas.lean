import Mathlib.Data.Finset.Insert
import Mallana.Server.Generate

/-!
# Deltas of a chat message

Model of `task_result_state::update_chat_msg` with `common_chat_msg_diff::compute_diffs`. The generated text is parsed
anew with each addition; the new message is compared with the previous one, and the differences are sent. With
`filter_tool_calls` a second pass holds the name of a tool call back until something else is sent, or its arguments begin,
or the message is complete. The parser is outside of the model: a message is what it returned.

A client puts the deltas together again (`ChatClient`). For each tool call it is enough to look at the deltas of its
index (`about`), so the two passes are described by what they send about one call.
-/

namespace Mallana.Server

open Mallana.Lib Mallana.Tokenizer List

/-- C++ `common_chat_tool_call`. -/
structure ToolCall where
  name : Str := []
  arguments : Str := []
  id : Str := []
deriving DecidableEq

/-- The part of `common_chat_msg` that the parser fills. -/
structure ChatMsg where
  content : Str := []
  toolCalls : List ToolCall := []
  reasoningContent : Str := []
deriving DecidableEq

/-- C++ `common_chat_msg_diff`; `none` is the index `npos`. -/
structure ChatDiff where
  reasoningContentDelta : Str := []
  contentDelta : Str := []
  toolCallIndex : Option Nat := none
  toolCallDelta : ToolCall := {}
deriving DecidableEq

/-- The exceptions of `compute_diffs`. -/
inductive DiffError where
  | notFoundAtStart (last current : Str)
  | lessToolCalls
  | toolCallMismatch
deriving DecidableEq

namespace ChatMsg

/-- C++ `empty`. -/
def empty (m : ChatMsg) : Bool := m.content = [] ∧ m.toolCalls = [] ∧ m.reasoningContent = []

/-- The loop of `set_tool_call_ids` from call `i` on, with the cached ids; `gen i` is the id that is generated for it. -/
def setIdsFrom (gen : Nat → Str) : Nat → List Str → List ToolCall → List ToolCall × List Str
  | _, cache, [] => ([], cache)
  | i, cache, c :: cs =>
    let cache := if cache.length ≤ i then cache ++ [if c.id = [] then gen i else c.id] else cache
    let r := setIdsFrom gen (i + 1) cache cs
    ({ c with id := cache.getD i [] } :: r.1, r.2)

/-- C++ `string_diff`. -/
def stringDiff (last current : Str) : Except DiffError Str :=
  if last = [] then .ok current
  else if ¬ last <+: current then
    -- the last text ended on a partial stop word
    if current <+: last then .ok []
    else .error (.notFoundAtStart last current)
  else .ok (current.drop last.length)

def textDiff (last current : Str) (wrap : Str → ChatDiff) : Except DiffError (List ChatDiff) :=
  if last ≠ current then (stringDiff last current).map fun d => [wrap d] else .ok []

/-- The difference of the last tool call of the previous message, number `idx`. -/
def callDiff (idx : Nat) (pref newf : ToolCall) : Except DiffError (List ChatDiff) :=
  if pref.name ≠ newf.name ∧ pref.name ≠ [] ∧ newf.name ≠ [] ∧ ¬ pref.name <+: newf.name then .error .toolCallMismatch
  else (stringDiff pref.arguments newf.arguments).map fun args =>
    if args ≠ [] ∨ pref.id ≠ newf.id ∨ pref.name ≠ newf.name then
      [{ toolCallIndex := some idx
         toolCallDelta := if pref.id ≠ newf.id ∨ pref.name ≠ newf.name then { newf with arguments := args }
           else { arguments := args } }]
    else []

def lastCallDiff (prv new : ChatMsg) : Except DiffError (List ChatDiff) :=
  let idx := prv.toolCalls.length - 1
  match prv.toolCalls.getLast? with
  | none => .ok []
  | some pref => callDiff idx pref (new.toolCalls.getD idx {})

/-- The tool calls from number `idx` on as they are. -/
def newCallDiffs (idx : Nat) (calls : List ToolCall) : List ChatDiff :=
  (calls.drop idx).mapIdx fun k c => { toolCallIndex := some (idx + k), toolCallDelta := c }

/-- C++ `compute_diffs`. -/
def computeDiffs (prv new : ChatMsg) : Except DiffError (List ChatDiff) := do
  let reasoning ← textDiff prv.reasoningContent new.reasoningContent fun d => { reasoningContentDelta := d }
  let content ← textDiff prv.content new.content fun d => { contentDelta := d }
  if new.toolCalls.length < prv.toolCalls.length then .error .lessToolCalls
  else
    let last ← lastCallDiff prv new
    return reasoning ++ content ++ last ++ newCallDiffs prv.toolCalls.length new.toolCalls

end ChatMsg

/-- The part of `task_result_state` that `update_chat_msg` reads. -/
structure TaskResultState where
  chatMsg : ChatMsg := {}
  generatedToolCallIds : List Str := []
  sentToolCallNames : Finset Nat := ∅

/-- What the second pass has sent: the calls with a header, and the deltas. -/
abbrev Filtered := Finset Nat × List ChatDiff

/-- The header of tool call `i`: its id and its name. -/
def header (calls : List ToolCall) (i : Nat) : ChatDiff :=
  { toolCallIndex := some i, toolCallDelta := { calls.getD i {} with arguments := [] } }

/-- One step of the loops that send headers: call `i` has a name that was not sent, and `now` says that it is time. -/
def sendHeader (calls : List ToolCall) (now : Nat → Bool) (f : Filtered) (i : Nat) : Filtered :=
  if i ∈ f.1 ∨ (calls.getD i {}).name = [] then f
  else if now i then (insert i f.1, f.2 ++ [header calls i]) else f

def sendHeaders (calls : List ToolCall) (now : Nat → Bool) (f : Filtered) : Filtered :=
  (List.range calls.length).foldl (sendHeader calls now) f

/-- Is this delta a reason to send the header of call `i`? -/
def flushes (d : ChatDiff) (i : Nat) : Bool := d.toolCallIndex ≠ some i ∨ d.toolCallDelta.arguments ≠ []

/-- A delta about call `i` once its header was sent, and before. -/
def passCall (calls : List ToolCall) (isPartial : Bool) (d : ChatDiff) (i : Nat) (f : Filtered) : Filtered :=
  if i ∈ f.1 then
    if d.toolCallDelta.arguments ≠ [] then
      (f.1, f.2 ++ [{ d with toolCallDelta := { d.toolCallDelta with name := [], id := [] } }])
    else f
  else if d.toolCallDelta.arguments ≠ [] ∨ isPartial = false then
    (insert i f.1, f.2 ++ [{ d with toolCallDelta :=
      { d.toolCallDelta with name := (calls.getD i {}).name, id := (calls.getD i {}).id } }])
  else f

def passDiff (calls : List ToolCall) (isPartial : Bool) (f : Filtered) (d : ChatDiff) : Filtered :=
  let f := sendHeaders calls (flushes d) f
  match d.toolCallIndex with
  | none => (f.1, f.2 ++ [d])
  | some i => passCall calls isPartial d i f

def filterDiffs (calls : List ToolCall) (isPartial : Bool) (sent : Finset Nat) (ds : List ChatDiff) : Filtered :=
  let f := ds.foldl (passDiff calls isPartial) (sent, [])
  if isPartial then f else sendHeaders calls (fun _ => true) f

/-- C++ `update_chat_msg`, for the message that the parser returned. -/
def updateChatMsg (gen : Nat → Str) (filterToolCalls : Bool) (st : TaskResultState) (newMsg : ChatMsg)
    (isPartial : Bool) : Except DiffError (TaskResultState × List ChatDiff) :=
  if newMsg.empty then .ok (st, [])
  else do
    let r := ChatMsg.setIdsFrom gen 0 st.generatedToolCallIds newMsg.toolCalls
    let msg := { newMsg with toolCalls := r.1 }
    let diffs ← ChatMsg.computeDiffs st.chatMsg msg
    if filterToolCalls then
      let f := filterDiffs msg.toolCalls isPartial st.sentToolCallNames diffs
      return ({ chatMsg := msg, generatedToolCallIds := r.2, sentToolCallNames := f.1 }, f.2)
    else return ({ st with chatMsg := msg, generatedToolCallIds := r.2 }, diffs)

/-- What a client has put together; the tool calls by their index. -/
structure ChatClient where
  reasoningContent : Str := []
  content : Str := []
  toolCalls : Nat → Option ToolCall := fun _ => none

/-- Arguments are appended, a name or id is set if there is one. -/
def ToolCall.merge (c d : ToolCall) : ToolCall where
  name := if d.name = [] then c.name else d.name
  arguments := c.arguments ++ d.arguments
  id := if d.id = [] then c.id else d.id

lemma ToolCall.merge_default (d : ToolCall) : ToolCall.merge {} d = d := by
  obtain ⟨name, arguments, id⟩ := d
  unfold merge
  congr 1
  · exact ite_eq_right_iff.2 fun h => h.symm
  · exact ite_eq_right_iff.2 fun h => h.symm

def addCall (c : Option ToolCall) (d : ChatDiff) : Option ToolCall := some ((c.getD {}).merge d.toolCallDelta)

def ChatClient.add (c : ChatClient) (d : ChatDiff) : ChatClient where
  reasoningContent := c.reasoningContent ++ d.reasoningContentDelta
  content := c.content ++ d.contentDelta
  toolCalls i := if d.toolCallIndex = some i then addCall (c.toolCalls i) d else c.toolCalls i

/-- The client has the message. -/
structure ChatClient.Has (c : ChatClient) (m : ChatMsg) : Prop where
  reasoningContent : c.reasoningContent = m.reasoningContent
  content : c.content = m.content
  toolCalls : ∀ i, c.toolCalls i = m.toolCalls[i]?

def Rebuilds (ds : List ChatDiff) (m : ChatMsg) : Prop := (ds.foldl ChatClient.add {}).Has m

/-- The deltas about call `i`. -/
def about (i : Nat) (ds : List ChatDiff) : List ChatDiff := ds.filter fun d => d.toolCallIndex = some i

def argsOf (ds : List ChatDiff) : Str := ds.flatMap fun d => d.toolCallDelta.arguments

/-- The name of call `i` is sent exactly once, and after none of its arguments. -/
structure NameOnce (ds : List ChatDiff) (i : Nat) (name : Str) : Prop where
  once : name ≠ [] → ((about i ds).map fun d => d.toolCallDelta.name).filter (· ≠ []) = [name]
  first : ∀ l d r, about i ds = l ++ d :: r → d.toolCallDelta.name ≠ [] → argsOf l = []

section
variable {i : Nat} {d : ChatDiff} {ds es : List ChatDiff}

@[simp] lemma about_nil : about i [] = [] := rfl

@[simp] lemma about_append : about i (ds ++ es) = about i ds ++ about i es := filter_append ..

lemma about_cons_self (h : d.toolCallIndex = some i) : about i (d :: ds) = d :: about i ds :=
  filter_cons_of_pos (decide_eq_true h)

lemma about_cons_ne (h : d.toolCallIndex ≠ some i) : about i (d :: ds) = about i ds :=
  filter_cons_of_neg (by rwa [decide_eq_true_eq])

lemma mem_about : d ∈ about i ds ↔ d ∈ ds ∧ d.toolCallIndex = some i := by
  rw [about, mem_filter, decide_eq_true_eq]

@[simp] lemma argsOf_nil : argsOf [] = [] := rfl

@[simp] lemma argsOf_append : argsOf (ds ++ es) = argsOf ds ++ argsOf es := flatMap_append ..

@[simp] lemma argsOf_cons : argsOf (d :: ds) = d.toolCallDelta.arguments ++ argsOf ds := flatMap_cons ..

lemma calls_foldl (c : ChatClient) (i : Nat) :
    (ds.foldl ChatClient.add c).toolCalls i = (about i ds).foldl addCall (c.toolCalls i) := by
  induction ds generalizing c with
  | nil => rfl
  | cons d ds ih =>
    rw [foldl_cons, ih]
    by_cases h : d.toolCallIndex = some i
    · rw [about_cons_self h, foldl_cons]
      exact congrArg (fun r => (about i ds).foldl addCall r) (if_pos h)
    · rw [about_cons_ne h]
      exact congrArg (fun r => (about i ds).foldl addCall r) (if_neg h)

def reasoningOf (ds : List ChatDiff) : Str := ds.flatMap fun d => d.reasoningContentDelta

def contentOf (ds : List ChatDiff) : Str := ds.flatMap fun d => d.contentDelta

lemma texts_foldl (c : ChatClient) : (ds.foldl ChatClient.add c).reasoningContent = c.reasoningContent ++ reasoningOf ds ∧
    (ds.foldl ChatClient.add c).content = c.content ++ contentOf ds := by
  induction ds generalizing c with
  | nil => exact ⟨(append_nil _).symm, (append_nil _).symm⟩
  | cons d ds ih =>
    obtain ⟨hr, hc⟩ := ih (c.add d)
    refine ⟨hr.trans ?_, hc.trans ?_⟩
    · exact append_assoc ..
    · exact append_assoc ..

lemma rebuilds_iff {m : ChatMsg} : Rebuilds ds m ↔ reasoningOf ds = m.reasoningContent ∧ contentOf ds = m.content ∧
    ∀ i, (about i ds).foldl addCall none = m.toolCalls[i]? := by
  obtain ⟨hr, hc⟩ := @texts_foldl ds {}
  have hcalls := fun i => @calls_foldl ds {} i
  constructor
  · rintro ⟨h1, h2, h3⟩
    exact ⟨hr.symm.trans h1, hc.symm.trans h2, fun i => (hcalls i).symm.trans (h3 i)⟩
  · rintro ⟨h1, h2, h3⟩
    exact ⟨hr.trans h1, hc.trans h2, fun i => (hcalls i).trans (h3 i)⟩

end

namespace ChatMsg

/-- The name and the arguments of call `i`. -/
def shape (m : ChatMsg) (i : Nat) : Option (Str × Str) := m.toolCalls[i]?.map fun c => (c.name, c.arguments)

/-- The arguments of call `i`. -/
def argsAt (m : ChatMsg) (i : Nat) : Str := (m.toolCalls.getD i {}).arguments

/-- A message goes on: the texts and the last tool call grow, and calls are added at the end. -/
structure Extends (m m' : ChatMsg) : Prop where
  reasoningContent : m.reasoningContent <+: m'.reasoningContent
  content : m.content <+: m'.content
  length : m.toolCalls.length ≤ m'.toolCalls.length
  old : ∀ i, i + 1 < m.toolCalls.length → m'.toolCalls[i]? = m.toolCalls[i]?
  last : ∀ (i : Nat) (c : ToolCall), m.toolCalls[i]? = some c → ∃ c' : ToolCall, m'.toolCalls[i]? = some c' ∧ c.name <+: c'.name ∧
    c.arguments <+: c'.arguments ∧ c'.id = c.id

/-- What the deltas of two messages say. -/
structure Describes (m m' : ChatMsg) (ds : List ChatDiff) : Prop where
  reasoningContent : m.reasoningContent ++ reasoningOf ds = m'.reasoningContent
  content : m.content ++ contentOf ds = m'.content
  plain : ∀ d ∈ ds, d.toolCallIndex ≠ none → d.reasoningContentDelta = [] ∧ d.contentDelta = []
  texts : (∃ d ∈ ds, d.toolCallIndex = none) ↔ m.reasoningContent ≠ m'.reasoningContent ∨ m.content ≠ m'.content
  bound : ∀ d ∈ ds, ∀ i, d.toolCallIndex = some i → i < m'.toolCalls.length
  args : ∀ i, m.argsAt i ++ argsOf (about i ds) = m'.argsAt i
  changed : ∀ i, about i ds ≠ [] ↔ m.shape i ≠ m'.shape i
  calls : ∀ i, (about i ds).foldl addCall m.toolCalls[i]? = m'.toolCalls[i]?

section
variable {m m' : ChatMsg} {last current : Str} {i : Nat}

lemma stringDiff_eq (h : last <+: current) : stringDiff last current = .ok (current.drop last.length) := by
  unfold stringDiff
  by_cases hnil : last = []
  · rw [if_pos hnil, hnil]
    rfl
  · rw [if_neg hnil, if_neg (not_not.2 h)]

lemma append_drop (h : last <+: current) : last ++ current.drop last.length = current := by
  obtain ⟨t, rfl⟩ := h
  rw [drop_left]

lemma textDiff_eq (h : last <+: current) (wrap : Str → ChatDiff) :
    textDiff last current wrap = .ok (if last = current then [] else [wrap (current.drop last.length)]) := by
  unfold textDiff
  by_cases heq : last = current
  · rw [if_neg (not_not.2 heq), if_pos heq]
  · rw [if_pos heq, if_neg heq, stringDiff_eq h]
    rfl

def lastDiffs (idx : Nat) (c c' : ToolCall) : List ChatDiff :=
  if c.name = c'.name ∧ c.arguments = c'.arguments then []
  else
    [{ toolCallIndex := some idx
       toolCallDelta := if c.name ≠ c'.name then { c' with arguments := c'.arguments.drop c.arguments.length }
         else { arguments := c'.arguments.drop c.arguments.length } }]

lemma callDiff_eq {idx : Nat} {c c' : ToolCall} (hname : c.name <+: c'.name) (hargs : c.arguments <+: c'.arguments)
    (hid : c'.id = c.id) : callDiff idx c c' = .ok (lastDiffs idx c c') := by
  have hok : ¬ (c.name ≠ c'.name ∧ c.name ≠ [] ∧ c'.name ≠ [] ∧ ¬ c.name <+: c'.name) := fun h => h.2.2.2 hname
  have hdrop : c'.arguments.drop c.arguments.length = [] ↔ c.arguments = c'.arguments := by
    obtain ⟨t, ht⟩ := hargs
    rw [← ht, drop_left]
    exact ⟨fun h => by rw [h, append_nil], fun h => self_eq_append_right.1 h⟩
  unfold callDiff
  rw [if_neg hok, stringDiff_eq hargs]
  unfold lastDiffs
  show Except.ok _ = Except.ok _
  congr 1
  simp only [hid, ne_eq, not_true_eq_false, false_or, hdrop]
  by_cases hn : c.name = c'.name
  · by_cases ha : c.arguments = c'.arguments
    · simp only [hn, ha, not_true_eq_false, or_self, if_false, and_self, if_true]
    · simp only [hn, ha, not_false_eq_true, true_or, if_true, and_false, if_false, not_true_eq_false]
  · simp only [hn, not_false_eq_true, or_true, if_true, false_and, if_false]

def newDiff (i : Nat) (c : ToolCall) : ChatDiff := { toolCallIndex := some i, toolCallDelta := c }

lemma about_mapIdx (l : List ToolCall) (idx i : Nat) : about i (l.mapIdx fun k c => newDiff (idx + k) c) =
      if idx ≤ i then l[i - idx]?.toList.map (newDiff i) else [] := by
  induction l generalizing idx with
  | nil => exact (ite_self []).symm
  | cons c l ih =>
    have hshift : (fun k c => newDiff (idx + (k + 1)) c) = fun k c => newDiff (idx + 1 + k) c := by
      funext k c
      rw [add_right_comm, add_assoc]
    rw [mapIdx_cons, hshift]
    rcases lt_trichotomy idx i with hlt | rfl | hgt
    · rw [about_cons_ne (fun h => ne_of_lt hlt (Option.some.inj h)), ih, if_pos (Nat.succ_le_of_lt hlt),
        if_pos (le_of_lt hlt), show i - idx = i - (idx + 1) + 1 by omega, getElem?_cons_succ]
    · rw [about_cons_self rfl, ih, if_neg (by omega), if_pos (Nat.le_refl _), Nat.sub_self]
      rfl
    · rw [about_cons_ne (fun h => ne_of_gt hgt (Option.some.inj h)), ih, if_neg (by omega), if_neg (by omega)]

lemma about_newCallDiffs (calls : List ToolCall) (idx i : Nat) :
    about i (newCallDiffs idx calls) = if idx ≤ i then calls[i]?.toList.map (newDiff i) else [] := by
  refine (about_mapIdx (calls.drop idx) idx i).trans ?_
  split
  next h => rw [getElem?_drop, Nat.add_sub_cancel' h]
  next => rfl

def oldDiffs (m m' : ChatMsg) : List ChatDiff :=
  (m.toolCalls.getLast?.map fun c =>
    lastDiffs (m.toolCalls.length - 1) c (m'.toolCalls.getD (m.toolCalls.length - 1) {})).getD []

def diffsOf (m m' : ChatMsg) : List ChatDiff :=
  (if m.reasoningContent = m'.reasoningContent then []
    else [{ reasoningContentDelta := m'.reasoningContent.drop m.reasoningContent.length }]) ++
  (if m.content = m'.content then [] else [{ contentDelta := m'.content.drop m.content.length }]) ++
  oldDiffs m m' ++ newCallDiffs m.toolCalls.length m'.toolCalls

lemma computeDiffs_eq (h : Extends m m') : computeDiffs m m' = .ok (diffsOf m m') := by
  unfold computeDiffs
  rw [textDiff_eq h.reasoningContent, textDiff_eq h.content]
  have hlen := Nat.not_lt.2 h.length
  have hold : lastCallDiff m m' = .ok (oldDiffs m m') := by
    unfold lastCallDiff oldDiffs
    cases hl : m.toolCalls.getLast? with
    | none => rfl
    | some c =>
      rw [getLast?_eq_getElem?] at hl
      obtain ⟨c', hc', hname, hargs, hid⟩ := h.last _ c hl
      have hget : m'.toolCalls.getD (m.toolCalls.length - 1) {} = c' := by
        rw [getD_eq_getElem?_getD, hc']
        rfl
      simp only [hget, Option.map_some, Option.getD_some]
      exact callDiff_eq hname hargs hid
  simp only [hold, if_neg hlen]
  rfl

lemma about_old (h : Extends m m') {c c' : ToolCall} (hc : m.toolCalls[i]? = some c) (hc' : m'.toolCalls[i]? = some c') :
    about i (oldDiffs m m') = lastDiffs i c c' := by
  have hlt : i < m.toolCalls.length := (List.getElem?_eq_some_iff.1 hc).1
  unfold oldDiffs
  rw [getLast?_eq_getElem?]
  by_cases hi : i + 1 < m.toolCalls.length
  · -- a call before the last one stays as it is
    have hsame : c = c' := Option.some.inj (hc.symm.trans ((h.old i hi).symm.trans hc'))
    have hnil : lastDiffs i c c' = [] := if_pos ⟨congrArg _ hsame, congrArg _ hsame⟩
    rw [hnil]
    have hlast : m.toolCalls.length - 1 < m.toolCalls.length := by omega
    rw [getElem?_eq_getElem hlast, Option.map_some, Option.getD_some]
    unfold lastDiffs
    split
    · rfl
    · exact about_cons_ne fun he => absurd (Option.some.inj he) (by omega)
  · obtain rfl : i = m.toolCalls.length - 1 := by omega
    rw [hc, Option.map_some, Option.getD_some, getD_eq_getElem?_getD, hc', Option.getD_some]
    unfold lastDiffs
    split
    · rfl
    · exact about_cons_self rfl

lemma about_oldDiffs_new (hi : m.toolCalls.length ≤ i) : about i (oldDiffs m m') = [] := by
  unfold oldDiffs
  rw [getLast?_eq_getElem?]
  cases hl : m.toolCalls[m.toolCalls.length - 1]? with
  | none => rfl
  | some c =>
    have hlt := (List.getElem?_eq_some_iff.1 hl).1
    rw [Option.map_some, Option.getD_some]
    unfold lastDiffs
    split
    · rfl
    · exact about_cons_ne fun he => absurd (Option.some.inj he) (by omega)

lemma about_texts (i : Nat) : about i ((if m.reasoningContent = m'.reasoningContent then []
    else [{ reasoningContentDelta := m'.reasoningContent.drop m.reasoningContent.length }]) ++
    (if m.content = m'.content then [] else [{ contentDelta := m'.content.drop m.content.length }])) = [] := by
  rw [about_append]
  split <;> split <;> rfl

lemma about_diffsOf_old (h : Extends m m') {c c' : ToolCall} (hc : m.toolCalls[i]? = some c)
    (hc' : m'.toolCalls[i]? = some c') : about i (diffsOf m m') = lastDiffs i c c' := by
  have hlt : i < m.toolCalls.length := (List.getElem?_eq_some_iff.1 hc).1
  unfold diffsOf
  rw [about_append, about_append, about_texts, about_old h hc hc', about_newCallDiffs, if_neg (Nat.not_le.2 hlt),
    append_nil, nil_append]

lemma about_diffsOf_new (hi : m.toolCalls.length ≤ i) :
    about i (diffsOf m m') = m'.toolCalls[i]?.toList.map (newDiff i) := by
  unfold diffsOf
  rw [about_append, about_append, about_texts, about_oldDiffs_new hi, about_newCallDiffs, if_pos hi]
  rfl

lemma plain_calls (h : Extends m m') {d : ChatDiff}
    (hd : d ∈ oldDiffs m m' ++ newCallDiffs m.toolCalls.length m'.toolCalls) :
    d.reasoningContentDelta = [] ∧ d.contentDelta = [] ∧ ∃ i < m'.toolCalls.length, d.toolCallIndex = some i := by
  rcases mem_append.1 hd with hd | hd
  · unfold oldDiffs at hd
    rw [getLast?_eq_getElem?] at hd
    cases hl : m.toolCalls[m.toolCalls.length - 1]? with
    | none =>
      rw [hl] at hd
      cases hd
    | some c =>
      have hlt := (List.getElem?_eq_some_iff.1 hl).1
      rw [hl, Option.map_some, Option.getD_some] at hd
      unfold lastDiffs at hd
      split at hd
      · cases hd
      · cases mem_singleton.1 hd
        exact ⟨rfl, rfl, _, lt_of_lt_of_le hlt h.length, rfl⟩
  · obtain ⟨k, hk, rfl⟩ := mem_mapIdx.1 hd
    rw [length_drop] at hk
    exact ⟨rfl, rfl, _, by omega, rfl⟩

lemma text_continues (h : last <+: current) : last ++ (if last = current then [] else current.drop last.length) = current := by
  split
  next heq => rw [heq, append_nil]
  next => exact append_drop h

lemma texts_diffsOf (h : Extends m m') :
    reasoningOf (diffsOf m m') = (if m.reasoningContent = m'.reasoningContent then [] else
      m'.reasoningContent.drop m.reasoningContent.length) ∧
    contentOf (diffsOf m m') = if m.content = m'.content then [] else m'.content.drop m.content.length := by
  have hr : reasoningOf (oldDiffs m m' ++ newCallDiffs m.toolCalls.length m'.toolCalls) = [] :=
    flatMap_eq_nil_iff.2 fun d hd => (plain_calls h hd).1
  have hc : contentOf (oldDiffs m m' ++ newCallDiffs m.toolCalls.length m'.toolCalls) = [] :=
    flatMap_eq_nil_iff.2 fun d hd => (plain_calls h hd).2.1
  unfold diffsOf
  rw [append_assoc]
  constructor
  · unfold reasoningOf at hr ⊢
    rw [flatMap_append, hr, append_nil, flatMap_append]
    split <;> split <;> simp
  · unfold contentOf at hc ⊢
    rw [flatMap_append, hc, append_nil, flatMap_append]
    split <;> split <;> simp

lemma lastDiffs_spec {c c' : ToolCall} (hname : c.name <+: c'.name) (hargs : c.arguments <+: c'.arguments)
    (hid : c'.id = c.id) : (lastDiffs i c c').foldl addCall (some c) = some c' ∧
      c.arguments ++ argsOf (lastDiffs i c c') = c'.arguments ∧
      (lastDiffs i c c' ≠ [] ↔ (c.name, c.arguments) ≠ (c'.name, c'.arguments)) := by
  obtain ⟨n, a, k⟩ := c
  obtain ⟨n', a', k'⟩ := c'
  obtain rfl : k' = k := hid
  have happ : a ++ a'.drop a.length = a' := append_drop hargs
  unfold lastDiffs
  by_cases hn : n = n'
  · by_cases ha : a = a'
    · obtain rfl := hn
      obtain rfl := ha
      simp
    · simp [hn, ha, addCall, ToolCall.merge, happ]
  · have hne : n' ≠ [] := by
      rintro rfl
      exact hn (prefix_nil.1 hname)
    simp [hn, hne, addCall, ToolCall.merge, happ]

/-- The deltas of a message that extends another say what is new. -/
lemma describes (h : Extends m m') : Describes m m' (diffsOf m m') := by
  obtain ⟨hr, hc⟩ := texts_diffsOf h
  have hcalls : ∀ d ∈ diffsOf m m', d.toolCallIndex ≠ none →
      d ∈ oldDiffs m m' ++ newCallDiffs m.toolCalls.length m'.toolCalls := by
    intro d hd hne
    unfold diffsOf at hd
    rw [append_assoc] at hd
    rcases mem_append.1 hd with hd | hd
    · refine absurd ?_ hne
      rcases mem_append.1 hd with hd | hd
      · split at hd
        · cases hd
        · cases mem_singleton.1 hd
          rfl
      · split at hd
        · cases hd
        · cases mem_singleton.1 hd
          rfl
    · exact hd
  -- what is said about call `i`, for a call that was there and for one that was not
  have hcall : ∀ i, (about i (diffsOf m m')).foldl addCall m.toolCalls[i]? = m'.toolCalls[i]? ∧
      m.argsAt i ++ argsOf (about i (diffsOf m m')) = m'.argsAt i ∧
      (about i (diffsOf m m') ≠ [] ↔ m.shape i ≠ m'.shape i) := by
    intro i
    unfold argsAt shape
    simp only [getD_eq_getElem?_getD]
    cases hold : m.toolCalls[i]? with
    | none =>
      rw [about_diffsOf_new (List.getElem?_eq_none_iff.1 hold)]
      cases hnew : m'.toolCalls[i]? with
      | none => simp
      | some c' => simp [newDiff, addCall, ToolCall.merge_default]
    | some c =>
      obtain ⟨c', hc', hname, hargs, hid⟩ := h.last i c hold
      rw [about_diffsOf_old h hold hc', hc']
      obtain ⟨hfold, happ, hne⟩ := lastDiffs_spec (i := i) hname hargs hid
      refine ⟨hfold, happ, hne.trans ?_⟩
      simp
  refine ⟨?_, ?_, ?_, ?_, ?_, fun i => (hcall i).2.1, fun i => (hcall i).2.2, fun i => (hcall i).1⟩
  · rw [hr]
    exact text_continues h.reasoningContent
  · rw [hc]
    exact text_continues h.content
  · exact fun d hd hne => ⟨(plain_calls h (hcalls d hd hne)).1, (plain_calls h (hcalls d hd hne)).2.1⟩
  · constructor
    · rintro ⟨d, hd, hnone⟩
      unfold diffsOf at hd
      rw [append_assoc] at hd
      rcases mem_append.1 hd with hd | hd
      · rcases mem_append.1 hd with hd | hd
        · split at hd
          · cases hd
          next hne => exact .inl hne
        · split at hd
          · cases hd
          next hne => exact .inr hne
      · obtain ⟨_, _, i, _, hi⟩ := plain_calls h hd
        cases hnone.symm.trans hi
    · unfold diffsOf
      rintro (hne | hne)
      · refine ⟨{ reasoningContentDelta := m'.reasoningContent.drop m.reasoningContent.length }, ?_, rfl⟩
        rw [if_neg hne]
        simp
      · refine ⟨{ contentDelta := m'.content.drop m.content.length }, ?_, rfl⟩
        rw [if_neg hne]
        simp
  · intro d hd i hi
    obtain ⟨_, _, j, hj, hd⟩ := plain_calls h (hcalls d hd (by rw [hi]; exact Option.some_ne_none i))
    cases hi.symm.trans hd
    exact hj

end

end ChatMsg

end Mallana.Server
