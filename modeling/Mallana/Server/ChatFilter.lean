import Mallana.Server.ChatDeltas

/-!
# The second pass over the deltas

What `filter_tool_calls` sends about one tool call: nothing while the call is not sent, then a first delta with its name
and id, then arguments only (`Kept`, `Tells`). This is composed over the deltas of an update, together with when the call is
sent (`Due`).
-/

namespace Mallana.Server

open Mallana.Lib Mallana.Tokenizer List

/-- The first delta has the name and the id of the call, the others have neither. -/
def Tells (t : ToolCall) (ds : List ChatDiff) : Prop :=
  ∃ d rest, ds = d :: rest ∧ d.toolCallDelta.name = t.name ∧ d.toolCallDelta.id = t.id ∧
    ∀ e ∈ rest, e.toolCallDelta.name = [] ∧ e.toolCallDelta.id = []

/-- What is sent about a call with the arguments `x`: `was` and `now` say whether the call is sent before and after. -/
structure Kept (t : ToolCall) (was now : Prop) (ds : List ChatDiff) (x : Str) : Prop where
  stays : was → now ∧ (∀ e ∈ ds, e.toolCallDelta.name = [] ∧ e.toolCallDelta.id = []) ∧ argsOf ds = x
  waits : ¬ was → ¬ now → ds = [] ∧ x = []
  tells : ¬ was → now → Tells t ds ∧ argsOf ds = x

section
variable {t : ToolCall} {was now next : Prop} {ds es : List ChatDiff} {x y : Str}

lemma Tells.append (h : Tells t ds) (hes : ∀ e ∈ es, e.toolCallDelta.name = [] ∧ e.toolCallDelta.id = []) :
    Tells t (ds ++ es) := by
  obtain ⟨d, rest, rfl, hname, hid, hrest⟩ := h
  refine ⟨d, rest ++ es, rfl, hname, hid, fun e he => ?_⟩
  rcases mem_append.1 he with he | he
  · exact hrest e he
  · exact hes e he

lemma Kept.none (h : was ↔ now) : Kept t was now [] [] where
  stays hw := ⟨h.1 hw, nofun, rfl⟩
  waits _ _ := ⟨rfl, rfl⟩
  tells hw hn := absurd (h.2 hn) hw

lemma Kept.trans (h : Kept t was now ds x) (h' : Kept t now next es y) : Kept t was next (ds ++ es) (x ++ y) where
  stays hw := by
    obtain ⟨hn, hds, hx⟩ := h.stays hw
    obtain ⟨hnext, hes, hy⟩ := h'.stays hn
    refine ⟨hnext, fun e he => ?_, by rw [argsOf_append, hx, hy]⟩
    exact (mem_append.1 he).elim (hds e) (hes e)
  waits hw hnext := by
    have hn : ¬ now := fun hn => hnext (h'.stays hn).1
    obtain ⟨rfl, rfl⟩ := h.waits hw hn
    obtain ⟨rfl, rfl⟩ := h'.waits hn hnext
    exact ⟨rfl, rfl⟩
  tells hw hnext := by
    by_cases hn : now
    · obtain ⟨ht, hx⟩ := h.tells hw hn
      obtain ⟨_, hes, hy⟩ := h'.stays hn
      exact ⟨ht.append hes, by rw [argsOf_append, hx, hy]⟩
    · obtain ⟨rfl, rfl⟩ := h.waits hw hn
      exact h'.tells hn hnext

end

/-- A part of the second pass, over the deltas `l`. -/
structure Passed (calls : List ToolCall) (f f' : Filtered) (l : List ChatDiff) : Prop where
  emitted : ∃ new, f'.2 = f.2 ++ new ∧ reasoningOf new = reasoningOf l ∧ contentOf new = contentOf l ∧
    ∀ i, Kept (calls.getD i {}) (i ∈ f.1) (i ∈ f'.1) (about i new) (argsOf (about i l))

section
variable {calls : List ToolCall} {f f' f'' : Filtered} {l l' : List ChatDiff} {i j : Nat} {now : Nat → Bool}
  {d : ChatDiff} {isPartial : Bool}

lemma passed_refl : Passed calls f f [] :=
  ⟨[], (append_nil _).symm, rfl, rfl, fun _ => .none Iff.rfl⟩

lemma Passed.trans (h : Passed calls f f' l) (h' : Passed calls f' f'' l') : Passed calls f f'' (l ++ l') := by
  obtain ⟨new, hnew, hr, hc, hk⟩ := h
  obtain ⟨new', hnew', hr', hc', hk'⟩ := h'
  refine ⟨new ++ new', ?_, ?_, ?_, fun i => ?_⟩
  · rw [hnew', hnew, append_assoc]
  · exact (flatMap_append ..).trans ((congrArg₂ _ hr hr').trans (flatMap_append ..).symm)
  · exact (flatMap_append ..).trans ((congrArg₂ _ hc hc').trans (flatMap_append ..).symm)
  · rw [about_append, about_append, argsOf_append]
    exact (hk i).trans (hk' i)

lemma passed_call {e : ChatDiff} (hplain : reasoningOf l = [] ∧ contentOf l = [])
    (he : e.reasoningContentDelta = [] ∧ e.contentDelta = []) (hindex : e.toolCallIndex = some i)
    (hother : ∀ j, j ≠ i → about j l = []) (hk : Kept (calls.getD i {}) (i ∈ f.1) True [e] (argsOf (about i l))) :
    Passed calls f (insert i f.1, f.2 ++ [e]) l := by
  refine ⟨[e], rfl, ?_, ?_, fun j => ?_⟩
  · rw [hplain.1, reasoningOf, flatMap_singleton, he.1]
  · rw [hplain.2, contentOf, flatMap_singleton, he.2]
  · by_cases hj : j = i
    · subst hj
      rw [about_cons_self hindex, about_nil]
      exact ⟨fun hw => ⟨Finset.mem_insert_self _ _, (hk.stays hw).2⟩, fun _ hn => absurd (Finset.mem_insert_self _ _) hn,
        fun hw _ => hk.tells hw trivial⟩
    · rw [about_cons_ne (by rw [hindex]; exact fun h => hj (Option.some.inj h).symm), about_nil, hother j hj]
      exact .none (by rw [Finset.mem_insert]; exact ⟨.inr, fun h => h.resolve_left hj⟩)

lemma passed_sendHeader : Passed calls f (sendHeader calls now f i) [] := by
  unfold sendHeader
  split
  · exact passed_refl
  next hno =>
    split
    · refine passed_call ⟨rfl, rfl⟩ ⟨rfl, rfl⟩ rfl (fun _ _ => rfl) ?_
      refine ⟨fun hw => absurd (.inl hw) hno, fun _ hn => absurd trivial hn, fun _ _ => ⟨?_, rfl⟩⟩
      exact ⟨_, [], rfl, rfl, rfl, nofun⟩
    · exact passed_refl

lemma mem_sendHeader : j ∈ (sendHeader calls now f i).1 ↔ j ∈ f.1 ∨ j = i ∧ (calls.getD i {}).name ≠ [] ∧ now i = true := by
  unfold sendHeader
  split
  next h =>
    refine ⟨.inl, fun h' => h'.elim id ?_⟩
    rintro ⟨rfl, hname, _⟩
    exact h.resolve_right hname
  next h =>
    have hname : (calls.getD i {}).name ≠ [] := fun hname => h (.inr hname)
    split
    next hnow =>
      rw [Finset.mem_insert]
      exact ⟨fun h' => h'.elim (fun h => .inr ⟨h, hname, hnow⟩) .inl, fun h' => h'.elim .inr fun h => .inl h.1⟩
    next hnow => exact ⟨.inl, fun h' => h'.elim id fun h => absurd h.2.2 hnow⟩

lemma passed_headers (js : List Nat) : Passed calls f (js.foldl (sendHeader calls now) f) [] := by
  induction js generalizing f with
  | nil => exact passed_refl
  | cons j js ih => exact passed_sendHeader.trans ih

lemma mem_headers (js : List Nat) : i ∈ (js.foldl (sendHeader calls now) f).1 ↔
    i ∈ f.1 ∨ i ∈ js ∧ (calls.getD i {}).name ≠ [] ∧ now i = true := by
  induction js generalizing f with
  | nil => exact ⟨.inl, fun h => h.elim id fun h => absurd h.1 not_mem_nil⟩
  | cons j js ih =>
    rw [foldl_cons, ih, mem_sendHeader, mem_cons]
    constructor
    · rintro ((h | ⟨rfl, h⟩) | ⟨h, h'⟩)
      · exact .inl h
      · exact .inr ⟨.inl rfl, h⟩
      · exact .inr ⟨.inr h, h'⟩
    · rintro (h | ⟨rfl | h, h'⟩)
      · exact .inl (.inl h)
      · exact .inl (.inr ⟨rfl, h'⟩)
      · exact .inr ⟨h, h'⟩

lemma passed_sendHeaders : Passed calls f (sendHeaders calls now f) [] :=
  passed_headers _

lemma mem_sendHeaders : i ∈ (sendHeaders calls now f).1 ↔
    i ∈ f.1 ∨ i < calls.length ∧ (calls.getD i {}).name ≠ [] ∧ now i = true := by
  rw [sendHeaders, mem_headers, mem_range]

def Plain (d : ChatDiff) : Prop := d.toolCallIndex ≠ none → d.reasoningContentDelta = [] ∧ d.contentDelta = []

lemma passed_passCall (hplain : Plain d) (hi : d.toolCallIndex = some i) :
    Passed calls f (passCall calls isPartial d i f) [d] := by
  have htexts := hplain (by rw [hi]; exact Option.some_ne_none i)
  have hflat : reasoningOf [d] = [] ∧ contentOf [d] = [] := by
    rw [reasoningOf, contentOf, flatMap_singleton, flatMap_singleton]
    exact htexts
  have hself : about i [d] = [d] := about_cons_self hi
  have hother : ∀ j, j ≠ i → about j [d] = [] := fun j hj =>
    about_cons_ne (by rw [hi]; exact fun h => hj (Option.some.inj h).symm)
  -- a delta without arguments that is held back
  have hback : d.toolCallDelta.arguments = [] → Passed calls f f [d] := by
    intro hargs
    refine ⟨[], (append_nil _).symm, hflat.1.symm, hflat.2.symm, fun j => ?_⟩
    have hnone : argsOf (about j [d]) = [] := by
      by_cases hj : j = i
      · rw [hj, hself, argsOf_cons, hargs]
        rfl
      · rw [hother j hj]
        rfl
    rw [hnone]
    exact .none Iff.rfl
  unfold passCall
  split
  next hsent =>
    split
    next =>
      have hinsert : insert i f.1 = f.1 := Finset.insert_eq_self.2 hsent
      have hpassed : Passed calls f
          (insert i f.1, f.2 ++ [{ d with toolCallDelta := { d.toolCallDelta with name := [], id := [] } }]) [d] :=
        passed_call hflat htexts hi hother
        ⟨fun _ => ⟨trivial, fun e he => mem_singleton.1 he ▸ ⟨rfl, rfl⟩, by rw [hself]; rfl⟩,
          fun hw => absurd hsent hw, fun hw => absurd hsent hw⟩
      rwa [hinsert] at hpassed
    next hargs => exact hback (not_not.1 hargs)
  next hsent =>
    split
    next =>
      refine passed_call hflat htexts hi hother ⟨fun hw => absurd hw hsent, fun _ hn => absurd trivial hn, fun _ _ => ?_⟩
      exact ⟨⟨_, [], rfl, rfl, rfl, nofun⟩, by rw [hself]; rfl⟩
    next hno => exact hback (not_not.1 fun h => hno (.inl h))

lemma mem_passCall : j ∈ (passCall calls isPartial d i f).1 ↔
    j ∈ f.1 ∨ j = i ∧ (d.toolCallDelta.arguments ≠ [] ∨ isPartial = false) := by
  unfold passCall
  split
  next hsent =>
    have hmem : j ∈ f.1 ↔ j ∈ f.1 ∨ j = i ∧ (d.toolCallDelta.arguments ≠ [] ∨ isPartial = false) :=
      ⟨.inl, fun h => h.elim id fun h => h.1 ▸ hsent⟩
    split
    · exact hmem
    · exact hmem
  next =>
    split
    next h =>
      rw [Finset.mem_insert]
      exact ⟨fun h' => h'.elim (fun hj => .inr ⟨hj, h⟩) .inl, fun h' => h'.elim .inr fun hj => .inl hj.1⟩
    next h => exact ⟨.inl, fun h' => h'.elim id fun hj => absurd hj.2 h⟩

lemma passed_passDiff (hplain : Plain d) : Passed calls f (passDiff calls isPartial f d) [d] := by
  unfold passDiff
  refine Passed.trans (@passed_sendHeaders calls f (flushes d)) (?_ : Passed calls _ _ [d])
  cases hi : d.toolCallIndex with
  | none =>
    refine ⟨[d], rfl, rfl, rfl, fun i => ?_⟩
    rw [about_cons_ne (by rw [hi]; exact (Option.some_ne_none i).symm)]
    exact .none Iff.rfl
  | some i => exact passed_passCall hplain hi

lemma mem_passDiff (hbound : ∀ i, d.toolCallIndex = some i → i < calls.length) :
    i ∈ (passDiff calls isPartial f d).1 ↔ i ∈ f.1 ∨
      i < calls.length ∧ (calls.getD i {}).name ≠ [] ∧ d.toolCallIndex ≠ some i ∨
      d.toolCallIndex = some i ∧ (d.toolCallDelta.arguments ≠ [] ∨ isPartial = false) := by
  have hflush : flushes d i = true ↔ d.toolCallIndex ≠ some i ∨ d.toolCallDelta.arguments ≠ [] := decide_eq_true_iff
  unfold passDiff
  cases hi : d.toolCallIndex with
  | none =>
    simp only []
    rw [mem_sendHeaders, hflush, hi]
    simp
  | some j =>
    simp only []
    rw [mem_passCall, mem_sendHeaders, hflush, hi]
    have hj := hbound j hi
    by_cases hij : i = j
    · subst hij
      simp only [ne_eq, not_true_eq_false, false_or, and_false, true_and, or_assoc]
      refine or_congr_right ⟨?_, .inr⟩
      rintro (⟨_, _, hargs⟩ | h)
      · exact .inl hargs
      · exact h
    · have hne : ¬ (some j : Option Nat) = some i := fun h => hij (Option.some.inj h).symm
      simp [hij, hne]

/-- Call `i` is sent by this update, if it was not before. -/
def Due (calls : List ToolCall) (isPartial : Bool) (ds : List ChatDiff) (i : Nat) : Prop :=
  i < calls.length ∧ (calls.getD i {}).name ≠ [] ∧ ((∃ d ∈ ds, d.toolCallIndex ≠ some i) ∨ isPartial = false) ∨
    ∃ d ∈ ds, d.toolCallIndex = some i ∧ (d.toolCallDelta.arguments ≠ [] ∨ isPartial = false)

lemma passed_diffs (ds : List ChatDiff) (hplain : ∀ d ∈ ds, Plain d) :
    Passed calls f (ds.foldl (passDiff calls isPartial) f) ds := by
  induction ds generalizing f with
  | nil => exact passed_refl
  | cons d ds ih =>
    rw [forall_mem_cons] at hplain
    exact (passed_passDiff hplain.1).trans (ih hplain.2)

lemma mem_diffs (ds : List ChatDiff) (hbound : ∀ d ∈ ds, ∀ i, d.toolCallIndex = some i → i < calls.length) :
    i ∈ (ds.foldl (passDiff calls isPartial) f).1 ↔ i ∈ f.1 ∨
      (i < calls.length ∧ (calls.getD i {}).name ≠ [] ∧ ∃ d ∈ ds, d.toolCallIndex ≠ some i) ∨
      ∃ d ∈ ds, d.toolCallIndex = some i ∧ (d.toolCallDelta.arguments ≠ [] ∨ isPartial = false) := by
  induction ds generalizing f with
  | nil => simp
  | cons d ds ih =>
    rw [forall_mem_cons] at hbound
    rw [foldl_cons, ih hbound.2, mem_passDiff hbound.1, exists_mem_cons_iff, exists_mem_cons_iff]
    constructor
    · rintro ((h | ⟨hi, hname, h⟩ | h) | ⟨hi, hname, h⟩ | h)
      · exact .inl h
      · exact .inr (.inl ⟨hi, hname, .inl h⟩)
      · exact .inr (.inr (.inl h))
      · exact .inr (.inl ⟨hi, hname, .inr h⟩)
      · exact .inr (.inr (.inr h))
    · rintro (h | ⟨hi, hname, h | h⟩ | h | h)
      · exact .inl (.inl h)
      · exact .inl (.inr (.inl ⟨hi, hname, h⟩))
      · exact .inr (.inl ⟨hi, hname, h⟩)
      · exact .inl (.inr (.inr h))
      · exact .inr (.inr h)

lemma filterDiffs_spec (sent : Finset Nat) {ds : List ChatDiff} (hplain : ∀ d ∈ ds, Plain d)
    (hbound : ∀ d ∈ ds, ∀ i, d.toolCallIndex = some i → i < calls.length) {f : Filtered}
    (hf : filterDiffs calls isPartial sent ds = f) :
    reasoningOf f.2 = reasoningOf ds ∧ contentOf f.2 = contentOf ds ∧
      (∀ i, Kept (calls.getD i {}) (i ∈ sent) (i ∈ f.1) (about i f.2) (argsOf (about i ds))) ∧
      ∀ i, i ∈ f.1 ↔ i ∈ sent ∨ Due calls isPartial ds i := by
  have hpassed : Passed calls (sent, []) f ds := by
    rw [← hf]
    unfold filterDiffs
    split
    · exact passed_diffs ds hplain
    · have h := (@passed_diffs calls (sent, []) isPartial ds hplain).trans (@passed_sendHeaders calls _ fun _ => true)
      rwa [append_nil] at h
  obtain ⟨new, hnew, hr, hc, hk⟩ := hpassed
  rw [nil_append] at hnew
  rw [hnew]
  refine ⟨hr, hc, hk, fun i => ?_⟩
  rw [← hf]
  unfold filterDiffs Due
  cases isPartial with
  | true =>
    rw [if_pos rfl, mem_diffs ds hbound]
    simp only [Bool.true_eq_false, or_false]
  | false =>
    rw [if_neg Bool.false_ne_true, mem_sendHeaders, mem_diffs ds hbound]
    simp only [or_true, and_true]
    constructor
    · rintro ((h | ⟨hi, hname, _⟩ | h) | h)
      · exact .inl h
      · exact .inr (.inl ⟨hi, hname⟩)
      · exact .inr (.inr h)
      · exact .inr (.inl h)
    · rintro (h | h | h)
      · exact .inl (.inl h)
      · exact .inr h
      · exact .inl (.inr (.inr h))

end

end Mallana.Server
