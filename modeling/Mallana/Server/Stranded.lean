import Mallana.Server.Places
import Mathlib.Data.List.Nodup

/-!
# Tasks that are not stranded

The invariant of the queue over all runs. Two kinds of step break it: a parent whose launch fails drops the tasks that
were launched or would have been, and a task that ends without having taken a slot releases none, so a deferred task
stays where it is when that was the last one (`Keeps`). That no task is in two places holds in every run (`once_of_new`).
-/

namespace Mallana.Server

open Mallana.Lib List Option

def cancelTargets (tasks : List QueueTask) : List Nat :=
  tasks.filterMap fun t =>
    match t.type with
    | .cancel target => some target
    | _ => none

def surviving (targets : List Nat) (ts : List QueueTask) : List QueueTask := ts.filter (·.id ∉ targets)

/-- What the clients see to. Ids are new, and a parent asks for no more slots than there are (`n_cmpl`); a reader that
stops cancels all its tasks, a parent together with its children. -/
def ClientOk (s : QueueState) : QueueEvent → Prop
  | .post tasks _ =>
    (tasks.flatMap (·.ids)).Nodup ∧ (∀ a ∈ tasks.flatMap (·.ids), a ∉ s.posted) ∧
      ∀ t ∈ tasks, t.isRequest = true ∧ t.Fits s.slots.length
  | .cancel tasks =>
    (∀ t ∈ tasks, t.children = [] ∧ ∃ target, t.type = .cancel target) ∧
      ∀ t ∈ s.queue ++ s.deferred, t.id ∈ cancelTargets tasks → ∀ child ∈ t.children, child ∈ cancelTargets tasks
  | _ => True

/-- A completion that comes to an idle slot, with enough idle slots for its children. -/
def Launches (s : QueueState) (t : QueueTask) (o : Launch) : Prop :=
  o.rejected = false ∧ ∃ i, targetSlot s t.idSlot o = some (some i) ∧ s.slots[i]? = some none ∧
    t.children.length ≤ (freeSlots s.slots i).length

/-- A task without children that takes no slot: an action on a slot, or a completion that is rejected or does not launch. -/
def EndsWithoutSlot (t : QueueTask) (o : Launch) : Prop :=
  t.children = [] ∧ ((∃ idSlot, t.type = .slotAction idSlot) ∨ o.rejected = true ∨ o.launched = 0)

/-- The steps that strand no task: every launch of a parent succeeds, and where a task ends without a slot or pending
tasks are removed, the deferred tasks that stay have another task or slot to hope on. -/
def Keeps (s : QueueState) : QueueEvent → Prop
  | .run o =>
    ∀ t, s.current = some t →
      (Launches { s with current := none } t o → t.children = [] ∨ t.children.length < o.launched) ∧
        (EndsWithoutSlot t o → Hope { s with current := none })
  | .cancel tasks =>
    Hope { s with
      queue := surviving (cancelTargets tasks) s.queue
      deferred := surviving (cancelTargets tasks) s.deferred }
  | _ => True

section
variable {s s' : QueueState} {t : QueueTask}

lemma frame_current (s : QueueState) : Frame s { s with current := none } [] := by
  refine ⟨rfl, rfl, rfl, ?_, fun _ => .inl⟩
  intro t ht
  rcases mem_append.1 ht with ht | ht
  · rcases mem_append.1 ht with ht | ht
    · exact .inl (mem_append_left _ (mem_append_left _ ht))
    · cases ht
  · exact .inl (mem_append_right _ ht)

lemma count_current (hcur : s.current = some t) (a : Nat) :
    (places { s with current := none }).count a + t.ids.count a = (places s).count a := by
  simp only [count_places, hcur, map_some, map_none, getD_some, getD_none, count_nil]
  omega

lemma mem_pending_current (hcur : s.current = some t) : t ∈ pending s := by
  refine mem_append_left _ (mem_append_right _ ?_)
  rw [hcur]
  exact mem_singleton_self t

lemma QueueInv.of_run {more : List QueueTask} (gone : List Nat) (h : QueueInv s) (hcur : s.current = some t)
    (hframe : Frame { s with current := none } s' more)
    (hcount : ∀ a, (places s').count a + gone.count a = (places { s with current := none }).count a + t.ids.count a)
    (hgone : ∀ a ∈ gone, a ∈ s.cancelled) (hope : Hope s') (hmore : ∀ u ∈ more, u = t) : QueueInv s' := by
  refine h.of_frame more gone ((frame_current s).trans hframe) ?_ hgone hope ?_
  · intro a
    rw [hcount a, count_current hcur a]
  · intro u hu
    rw [hmore u hu]
    exact ⟨h.fits t (mem_pending_current hcur), h.targets t (mem_pending_current hcur)⟩

lemma QueueTask.ids_of_request (hreq : t.isRequest = true) : t.ids = t.id :: t.children := if_pos hreq

lemma QueueTask.ids_of_leaf (hreq : t.isRequest = true) (hleaf : t.children = []) : t.ids = [t.id] := by
  rw [t.ids_of_request hreq, hleaf]

lemma QueueInv.run_answer (h : QueueInv s) (hcur : s.current = some t) (hreq : t.isRequest = true)
    (hleaf : t.children = []) (hope : Hope { s with current := none }) :
    QueueInv (answer { s with current := none } t.id) := by
  refine h.of_run [] hcur (frame_answer _ _) ?_ (fun _ => nofun) hope (fun _ => nofun)
  intro a
  rw [count_answer, t.ids_of_leaf hreq hleaf]
  rfl

lemma QueueInv.run_defer (h : QueueInv s) (hcur : s.current = some t) (hneeds : t.needsSlot = true)
    (hbusy : ∃ slot ∈ s.slots, slot.isSome = true) : QueueInv (defer { s with current := none } t) := by
  refine h.of_run [] hcur (frame_defer _ hneeds) ?_ (fun _ => nofun) (.inr (.inl hbusy)) ?_
  · intro a
    rw [count_defer]
    rfl
  · intro u hu
    exact mem_singleton.1 hu

end

section
variable {s s' : QueueState} {t : QueueTask} {o : Launch}

lemma targetSlot_none {idSlot : Option Nat} (hslots : s.slots ≠ []) (h : targetSlot s idSlot o = some none) :
    ∃ slot ∈ s.slots, slot.isSome = true := by
  unfold targetSlot at h
  cases idSlot with
  | some k => cases h
  | none =>
    cases hsel : o.slot with
    | some i =>
      simp only [hsel] at h
      split at h
      · cases h
      · cases h
    | none =>
      simp only [hsel] at h
      split at h
      next hall =>
        obtain ⟨slot, rest, heq⟩ := exists_cons_of_ne_nil hslots
        have hmem : slot ∈ s.slots := heq ▸ mem_cons_self
        exact ⟨slot, hmem, List.all_eq_true.1 hall slot hmem⟩
      next => cases h

lemma runCompletion_cases {idSlot : Option Nat} (hslots : s.slots ≠ []) (h : runCompletion s t idSlot o = some s') :
    (o.rejected = true ∧ t.children = [] ∧ s' = answer s t.id) ∨
      ((∃ slot ∈ s.slots, slot.isSome = true) ∧ s' = defer s t) ∨
      ∃ i, o.rejected = false ∧ targetSlot s idSlot o = some (some i) ∧ s.slots[i]? = some none ∧
        s' = launchTask s t i o.launched := by
  unfold runCompletion at h
  cases hrej : o.rejected with
  | true =>
    rw [hrej, if_pos rfl] at h
    split at h
    next hleaf =>
      cases h
      exact .inl ⟨rfl, List.isEmpty_iff.1 hleaf, rfl⟩
    next => cases h
  | false =>
    rw [hrej, if_neg Bool.false_ne_true] at h
    cases htarget : targetSlot s idSlot o with
    | none =>
      rw [htarget] at h
      cases h
    | some found =>
      rw [htarget] at h
      cases found with
      | none =>
        cases h
        exact .inr (.inl ⟨targetSlot_none hslots htarget, rfl⟩)
      | some i =>
        cases hslot : s.slots[i]? with
        | none =>
          simp only [hslot] at h
          cases h
        | some slot =>
          simp only [hslot] at h
          cases slot with
          | none =>
            cases h
            exact .inr (.inr ⟨i, rfl, rfl, hslot, rfl⟩)
          | some u =>
            cases h
            exact .inr (.inl ⟨⟨some u, mem_of_getElem? hslot, rfl⟩, rfl⟩)

lemma exists_busy {slots : List (Option SlotTask)} {i n : Nat} (hlt : (freeSlots slots i).length < n)
    (hn : n < slots.length) : ∃ slot ∈ slots, slot.isSome = true := by
  by_contra hidle
  have hall : ∀ slot ∈ slots, slot.isSome = false := by
    intro slot hslot
    exact Bool.eq_false_iff.2 fun hsome => hidle ⟨slot, hslot, hsome⟩
  have := length_freeSlots hall i
  omega

section
variable (h : QueueInv s) (hcur : s.current = some t)
include h hcur

lemma QueueInv.run_completion {idSlot : Option Nat} (htype : t.type = .completion idSlot) (hkeeps : Keeps s (.run o))
    (hrun : runCompletion { s with current := none } t idSlot o = some s') : QueueInv s' := by
  obtain ⟨hlaunch, hends⟩ := hkeeps t hcur
  have hreq : t.isRequest = true := by rw [QueueTask.isRequest, htype]
  have hneeds : t.needsSlot = true := by rw [QueueTask.needsSlot, htype]
  have hslots : ({ s with current := none } : QueueState).slots ≠ [] := h.slots
  rcases runCompletion_cases hslots hrun with ⟨hrej, hleaf, rfl⟩ | ⟨hbusy, rfl⟩ | ⟨i, hrej, htarget, hslot, rfl⟩
  · exact h.run_answer hcur hreq hleaf (hends ⟨hleaf, .inr (.inl hrej)⟩)
  · exact h.run_defer hcur hneeds hbusy
  · unfold launchTask
    cases hchildren : t.children with
    | nil =>
      rw [isEmpty_nil, if_pos rfl]
      cases hlaunched : o.launched with
      | zero => exact h.run_answer hcur hreq hchildren (hends ⟨hchildren, .inr (.inr hlaunched)⟩)
      | succ n =>
        rw [if_neg n.succ_ne_zero]
        obtain ⟨hlt, _⟩ := List.getElem?_eq_some_iff.1 hslot
        have hope : Hope (place { s with current := none } i ⟨t.id, none⟩) :=
          .inr (.inl ⟨some ⟨t.id, none⟩, mem_set hlt _, rfl⟩)
        refine h.of_run [] hcur (frame_place _ i _) ?_ (fun _ => nofun) hope (fun _ => nofun)
        intro a
        rw [count_place _ a _ hslot, t.ids_of_leaf hreq hchildren]
        rfl
    | cons child children =>
      rw [isEmpty_cons, if_neg Bool.false_ne_true, ← hchildren]
      split
      next hlt =>
        exact h.run_defer hcur hneeds (exists_busy hlt (h.fits t (mem_pending_current hcur)).children)
      next hlen =>
        have hlen : t.children.length ≤ (freeSlots s.slots i).length := Nat.le_of_not_lt hlen
        have htarget : targetSlot { s with current := none } t.idSlot o = some (some i) := by
          rw [QueueTask.idSlot, htype]
          exact htarget
        have hall := (hlaunch ⟨hrej, i, htarget, hslot, hlen⟩).resolve_left (hchildren ▸ cons_ne_nil _ _)
        obtain ⟨hcount, hframe, hbusy⟩ := launchParent_spec hslot hlen hall
        refine h.of_run [] hcur hframe ?_ (fun _ => nofun) (.inr (.inl hbusy)) (fun _ => nofun)
        intro a
        rw [hcount a, t.ids_of_request hreq]
        rfl

lemma QueueInv.run_slotAction {idSlot : Nat} (htype : t.type = .slotAction idSlot) (hkeeps : Keeps s (.run o)) :
    QueueInv (runSlotAction { s with current := none } t idSlot o) := by
  have hreq : t.isRequest = true := by rw [QueueTask.isRequest, htype]
  have hneeds : t.needsSlot = true := by rw [QueueTask.needsSlot, htype]
  have hleaf : t.children = [] := by
    refine (h.fits t (mem_pending_current hcur)).leaf ?_
    intro idSlot hcompletion
    rw [htype] at hcompletion
    cases hcompletion
  have hanswer := h.run_answer hcur hreq hleaf
  have hope := (hkeeps t hcur).2 ⟨hleaf, .inl ⟨idSlot, htype⟩⟩
  unfold runSlotAction
  split
  next => exact hanswer hope
  next =>
    split
    next u hu => exact h.run_defer hcur hneeds ⟨some u, mem_of_getElem? hu, rfl⟩
    next => exact hanswer hope

lemma QueueInv.hope_current (hneeds : t.needsSlot = false) :
    Hope { s with current := none } := by
  rcases h.hope with hnil | hbusy | ⟨u, hu, huneeds⟩
  · exact .inl hnil
  · exact .inr (.inl hbusy)
  · rw [hcur] at hu
    rcases mem_append.1 hu with hu | hu
    · exact .inr (.inr ⟨u, mem_append_left _ hu, huneeds⟩)
    · rw [mem_singleton.1 hu, hneeds] at huneeds
      cases huneeds

lemma QueueInv.run_skip (hreq : t.isRequest = false)
    (hneeds : t.needsSlot = false) : QueueInv { s with current := none } := by
  have hids : t.ids = [] := if_neg (Bool.eq_false_iff.1 hreq)
  refine h.of_run [] hcur (Frame.refl _) ?_ (fun _ => nofun) (h.hope_current hcur hneeds) (fun _ => nofun)
  intro a
  rw [hids]

lemma QueueInv.run_cancel {target : Nat} (htype : t.type = .cancel target) :
    QueueInv (runCancel { s with current := none } target) := by
  have hreq : t.isRequest = false := by rw [QueueTask.isRequest, htype]
  have hneeds : t.needsSlot = false := by rw [QueueTask.needsSlot, htype]
  have hids : t.ids = [] := if_neg (Bool.eq_false_iff.1 hreq)
  unfold runCancel
  split
  next i hi =>
    obtain ⟨hlt, htask, _⟩ := findIdx?_eq_some_iff_getElem.1 hi
    obtain ⟨u, hu, hid⟩ := (Option.any_eq_true _ _).1 htask
    have hslot : s.slots[i]? = some (some u) := by rw [getElem?_eq_getElem hlt, hu]
    have htarget : target ∈ s.cancelled := h.targets t (mem_pending_current hcur) target htype
    refine h.of_run [target] hcur (frame_release _ i) ?_ ?_ (hope_release _ i h.needs) (fun _ => nofun)
    · intro a
      rw [hids, ← eq_of_beq hid]
      exact count_release (s := { s with current := none }) hslot a
    · intro a ha
      rw [mem_singleton.1 ha]
      exact htarget
  next => exact h.run_skip hcur hreq hneeds

lemma QueueInv.run (hkeeps : Keeps s (.run o))
    (hrun : processSingleTask { s with current := none } t o = some s') : QueueInv s' := by
  unfold processSingleTask at hrun
  cases htype : t.type with
  | completion idSlot =>
    rw [htype] at hrun
    exact h.run_completion hcur htype hkeeps hrun
  | slotAction idSlot =>
    rw [htype] at hrun
    cases hrun
    exact h.run_slotAction hcur htype hkeeps
  | immediate =>
    rw [htype] at hrun
    cases hrun
    have hreq : t.isRequest = true := by rw [QueueTask.isRequest, htype]
    have hneeds : t.needsSlot = false := by rw [QueueTask.needsSlot, htype]
    have hleaf : t.children = [] := by
      refine (h.fits t (mem_pending_current hcur)).leaf ?_
      intro idSlot hcompletion
      rw [htype] at hcompletion
      cases hcompletion
    exact h.run_answer hcur hreq hleaf (h.hope_current hcur hneeds)
  | cancel target =>
    rw [htype] at hrun
    cases hrun
    exact h.run_cancel hcur htype
  | nextResponse =>
    rw [htype] at hrun
    cases hrun
    have hreq : t.isRequest = false := by rw [QueueTask.isRequest, htype]
    have hneeds : t.needsSlot = false := by rw [QueueTask.needsSlot, htype]
    exact h.run_skip hcur hreq hneeds

end

end

section
variable {s : QueueState}

lemma QueueInv.take {t : QueueTask} {queue : List QueueTask} (h : QueueInv s) (hcur : s.current = none)
    (hqueue : s.queue = t :: queue) : QueueInv { s with current := some t, queue := queue } := by
  have hpending : ∀ u ∈ pending { s with current := some t, queue := queue }, u ∈ pending s := by
    intro u hu
    simp only [pending, hcur, hqueue, toList_some, toList_none, append_nil, mem_append,
      mem_cons, not_mem_nil, or_false] at hu ⊢
    rcases hu with (hu | rfl) | hu
    · exact .inl (.inr hu)
    · exact .inl (.inl rfl)
    · exact .inr hu
  refine h.of_frame [] [] ⟨rfl, rfl, rfl, fun u hu => .inl (hpending u hu), fun _ => .inl⟩ ?_
    (fun _ hmem => absurd hmem not_mem_nil) ?_ (fun _ hmem => absurd hmem not_mem_nil)
  · intro a
    simp only [count_places, hcur, hqueue, flatMap_cons, count_append, map_none, map_some,
      getD_none, getD_some, count_nil]
    omega
  · rcases h.hope with hnil | hbusy | ⟨u, hu, huneeds⟩
    · exact .inl hnil
    · exact .inr (.inl hbusy)
    · refine .inr (.inr ⟨u, ?_, huneeds⟩)
      rw [hcur, hqueue, toList_none, append_nil, mem_cons] at hu
      rcases hu with rfl | hu
      · exact mem_append_right _ (mem_singleton_self u)
      · exact mem_append_left _ hu

lemma QueueInv.finish {i : Nat} {t : SlotTask} (h : QueueInv s) (hslot : s.slots[i]? = some (some t)) :
    QueueInv (releaseSlotTask (answer s t.id) i) := by
  have hframe : Frame s (releaseSlotTask (answer s t.id) i) [] := (frame_answer s t.id).trans (frame_release _ i)
  refine h.of_frame _ [] hframe ?_ (fun _ => nofun) (hope_release _ i h.needs) (fun _ => nofun)
  intro a
  have hrelease := count_release (s := answer s t.id) hslot a
  rw [count_answer] at hrelease
  rw [count_nil]
  omega

lemma Hope.push {front : Bool} {t : QueueTask} (h : Hope s) : Hope (push front s t) := by
  rcases h with hnil | hbusy | ⟨u, hu, huneeds⟩
  · exact .inl hnil
  · exact .inr (.inl hbusy)
  · refine .inr (.inr ⟨u, ?_, huneeds⟩)
    rcases mem_append.1 hu with hu | hu
    · refine mem_append_left _ ?_
      cases front
      · exact mem_append_left _ hu
      · exact mem_cons_of_mem _ hu
    · exact mem_append_right _ hu

lemma frame_push (front : Bool) (s : QueueState) (t : QueueTask) : Frame s (push front s t) [t] := by
  refine ⟨rfl, rfl, rfl, ?_, fun _ => .inl⟩
  intro u hu
  have hmem : u ∈ pending s ∨ u = t := by
    cases front
    · simp only [pending, push, Bool.false_eq_true, if_false, mem_append, mem_cons, not_mem_nil, or_false] at hu ⊢
      rcases hu with ((hu | hu) | hu) | hu
      · exact .inl (.inl (.inl hu))
      · exact .inr hu
      · exact .inl (.inl (.inr hu))
      · exact .inl (.inr hu)
    · simp only [pending, push, if_true, cons_append, mem_append, mem_cons] at hu ⊢
      rcases hu with hu | hu
      · exact .inr hu
      · exact .inl hu
  exact hmem.imp_right mem_singleton.2

lemma QueueInv.next (h : QueueInv s) (id : Nat) : QueueInv (push false s ⟨id, .nextResponse, []⟩) := by
  refine h.of_frame _ [] (frame_push false s _) ?_ (fun _ => nofun) h.hope.push ?_
  · intro a
    rw [count_push]
    rfl
  · intro u hu
    rw [mem_singleton.1 hu]
    exact ⟨⟨length_pos_of_ne_nil h.slots, fun _ => rfl⟩, fun _ => nofun⟩

end

section
variable {s : QueueState} {tasks : List QueueTask}

lemma pushAll_spec (front : Bool) (s : QueueState) (tasks : List QueueTask) :
    Frame s (tasks.foldl (push front) s) tasks ∧ (Hope s → Hope (tasks.foldl (push front) s)) ∧
      ∀ a, (places (tasks.foldl (push front) s)).count a = (places s).count a + (tasks.flatMap (·.ids)).count a := by
  induction tasks generalizing s with
  | nil => exact ⟨Frame.refl s, fun hope => hope, fun _ => rfl⟩
  | cons t tasks ih =>
    obtain ⟨hframe, hope, hcount⟩ := ih (push front s t)
    refine ⟨(frame_push front s t).trans hframe, fun h => hope h.push, ?_⟩
    intro a
    rw [foldl_cons, hcount, count_push, flatMap_cons, count_append]
    omega

lemma QueueInv.post (h : QueueInv s) {front : Bool} (hclient : ClientOk s (.post tasks front)) :
    QueueInv { tasks.foldl (push front) s with posted := s.posted ++ tasks.flatMap (·.ids) } := by
  obtain ⟨hnodup, hnew, htasks⟩ := hclient
  obtain ⟨hframe, hope, hcount⟩ := pushAll_spec front s tasks
  refine ⟨?_, ?_, ?_, hope h.hope, ?_, ?_, ?_, ?_⟩
  · intro a
    have hle := nodup_iff_count_le_one.1 hnodup a
    have hsum := hcount a
    by_cases ha : a ∈ tasks.flatMap (·.ids)
    · have hzero : (places s).count a = 0 := Nat.eq_zero_of_not_pos fun hpos => hnew a ha (h.posted a hpos)
      have : (places (tasks.foldl (push front) s)).count a ≤ 1 := by omega
      exact this
    · have hzero := count_eq_zero.2 ha
      have hone := h.once a
      have : (places (tasks.foldl (push front) s)).count a ≤ 1 := by omega
      exact this
  · intro a ha
    have ha : 0 < (places (tasks.foldl (push front) s)).count a := ha
    rw [hcount a] at ha
    rcases Nat.eq_zero_or_pos ((places s).count a) with hzero | hpos
    · exact mem_append_right _ (List.count_pos_iff.1 (by omega))
    · exact mem_append_left _ (h.posted a hpos)
  · intro a ha hcancelled
    have hcancelled : a ∉ s.cancelled := hframe.cancelled ▸ hcancelled
    have hpos : 0 < (places s).count a + (tasks.flatMap (·.ids)).count a := by
      rcases mem_append.1 ha with ha | ha
      · exact Nat.add_pos_left (h.kept a ha hcancelled) _
      · exact Nat.add_pos_right _ (List.count_pos_iff.2 ha)
    exact (hcount a).symm ▸ hpos
  · intro t ht
    have hfits : t.Fits s.slots.length := (hframe.pending t ht).elim (h.fits t) fun hmem => (htasks t hmem).2
    exact hframe.slots ▸ hfits
  · intro t ht target htarget
    rcases hframe.pending t ht with ht | ht
    · exact hframe.cancelled ▸ h.targets t ht target htarget
    · have hreq := (htasks t ht).1
      rw [QueueTask.isRequest, htarget] at hreq
      cases hreq
  · intro t ht
    exact (hframe.deferred t ht).elim (h.needs t) fun hmem => hmem.2
  · intro hnil
    have hlen := hframe.slots
    rw [hnil] at hlen
    exact h.slots (eq_nil_of_length_eq_zero hlen.symm)

lemma surviving_cons (target : Nat) (targets : List Nat) (ts : List QueueTask) :
    surviving targets (ts.filter (·.id != target)) = surviving (target :: targets) ts := by
  rw [surviving, surviving, List.filter_filter]
  apply filter_congr
  intro t _
  simp only [mem_cons, not_or, Bool.decide_and, bne, Bool.and_comm, decide_not, Bool.beq_eq_decide_eq]

lemma cancelAll_spec (s : QueueState) (htasks : ∀ t ∈ tasks, t.children = [] ∧ ∃ target, t.type = .cancel target) :
    ∃ front, (∀ t ∈ front, t ∈ tasks) ∧ cancelAll s tasks = { s with
        queue := front ++ surviving (cancelTargets tasks) s.queue
        deferred := surviving (cancelTargets tasks) s.deferred
        cancelled := s.cancelled ++ cancelTargets tasks } := by
  induction tasks generalizing s with
  | nil =>
    have hall : ∀ ts, surviving (cancelTargets []) ts = ts := fun ts => filter_eq_self.2 fun _ _ => rfl
    refine ⟨[], fun _ => nofun, ?_⟩
    rw [hall, hall, cancelTargets, filterMap_nil, append_nil]
    rfl
  | cons t tasks ih =>
    obtain ⟨_, target, htarget⟩ := htasks t mem_cons_self
    obtain ⟨front, hfront, heq⟩ := ih { push true (cleanupPendingTask s target) t with
      cancelled := s.cancelled ++ [target] } fun u hu => htasks u (mem_cons_of_mem _ hu)
    have htargets : cancelTargets (t :: tasks) = target :: cancelTargets tasks := by
      rw [cancelTargets, filterMap_cons, htarget]
      rfl
    refine ⟨front ++ surviving (cancelTargets tasks) [t], ?_, ?_⟩
    · intro u hu
      rcases mem_append.1 hu with hu | hu
      · exact mem_cons_of_mem _ (hfront u hu)
      · rw [mem_singleton.1 (mem_of_mem_filter hu)]
        exact mem_cons_self
    · have hstep : cancelAll s (t :: tasks) = cancelAll { push true (cleanupPendingTask s target) t with
          cancelled := s.cancelled ++ [target] } tasks := by
        rw [cancelAll, foldl_cons, htarget]
        rfl
      rw [hstep, heq, htargets, ← surviving_cons, ← surviving_cons, append_assoc, append_assoc]
      have hcons : surviving (cancelTargets tasks) (t :: s.queue.filter (·.id != target)) =
          surviving (cancelTargets tasks) [t] ++ surviving (cancelTargets tasks) (s.queue.filter (·.id != target)) := by
        rw [← singleton_append, surviving, filter_append]
        rfl
      rw [← hcons]
      rfl

lemma count_surviving (targets : List Nat) (ts : List QueueTask) (a : Nat) :
    ((surviving targets ts).flatMap (·.ids)).count a + ((ts.filter (·.id ∈ targets)).flatMap (·.ids)).count a =
      (ts.flatMap (·.ids)).count a := by
  induction ts with
  | nil => rfl
  | cons t ts ih =>
    by_cases ht : t.id ∈ targets
    · have hout : surviving targets (t :: ts) = surviving targets ts :=
        filter_cons_of_neg fun hmem => of_decide_eq_true hmem ht
      rw [hout, filter_cons, if_pos (decide_eq_true ht)]
      simp only [flatMap_cons, count_append]
      omega
    · have hin : surviving targets (t :: ts) = t :: surviving targets ts := filter_cons_of_pos (decide_eq_true ht)
      rw [hin, filter_cons, if_neg fun hmem => ht (of_decide_eq_true hmem)]
      simp only [flatMap_cons, count_append]
      omega

lemma flatMap_ids_cancel {ts : List QueueTask} (h : ∀ t ∈ ts, ∃ target, t.type = .cancel target) :
    ts.flatMap (·.ids) = [] := by
  refine flatMap_eq_nil_iff.2 ?_
  intro t ht
  obtain ⟨target, htarget⟩ := h t ht
  refine if_neg ?_
  rw [QueueTask.isRequest, htarget]
  exact Bool.false_ne_true

lemma mem_cancelled_ids {ts : List QueueTask} {targets : List Nat}
    (hclosed : ∀ t ∈ ts, t.id ∈ targets → ∀ child ∈ t.children, child ∈ targets) {a : Nat}
    (ha : a ∈ (ts.filter (·.id ∈ targets)).flatMap (·.ids)) : a ∈ targets := by
  obtain ⟨t, ht, ha⟩ := mem_flatMap.1 ha
  obtain ⟨ht, hmem⟩ := mem_filter.1 ht
  have hmem : t.id ∈ targets := of_decide_eq_true hmem
  unfold QueueTask.ids at ha
  split at ha
  next =>
    rcases mem_cons.1 ha with rfl | ha
    · exact hmem
    · exact hclosed t ht hmem a ha
  next => cases ha

lemma QueueInv.cancelAll (h : QueueInv s) (hclient : ClientOk s (.cancel tasks)) (hkeeps : Keeps s (.cancel tasks)) :
    QueueInv (cancelAll s tasks) := by
  obtain ⟨htasks, hclosed⟩ := hclient
  obtain ⟨front, hfront, heq⟩ := cancelAll_spec s htasks
  have hcancel : ∀ t ∈ front, ∃ target, t.type = .cancel target := fun t ht => (htasks t (hfront t ht)).2
  -- the invariant knows of the cancelled ids before the tasks are gone
  have hmark : QueueInv { s with cancelled := s.cancelled ++ cancelTargets tasks } := by
    refine ⟨h.once, h.posted, ?_, h.hope, h.fits, ?_, h.needs, h.slots⟩
    · intro a ha hnot
      exact h.kept a ha fun hmem => hnot (mem_append_left _ hmem)
    · intro t ht target htarget
      exact mem_append_left _ (h.targets t ht target htarget)
  have hsub : ∀ ts, ∀ t ∈ surviving (cancelTargets tasks) ts, t ∈ ts := fun ts t => mem_of_mem_filter
  have hope : Hope (Server.cancelAll s tasks) := by
    rw [heq]
    rcases hkeeps with hnil | hbusy | ⟨u, hu, huneeds⟩
    · exact .inl hnil
    · exact .inr (.inl hbusy)
    · refine .inr (.inr ⟨u, ?_, huneeds⟩)
      rw [append_assoc]
      exact mem_append_right _ hu
  refine hmark.of_frame tasks (((s.queue ++ s.deferred).filter (·.id ∈ cancelTargets tasks)).flatMap (·.ids))
    ?_ ?_ ?_ hope ?_
  · rw [heq]
    refine ⟨rfl, rfl, rfl, ?_, fun t ht => .inl (hsub _ t ht)⟩
    intro t ht
    simp only [pending, mem_append] at ht ⊢
    rcases ht with ((ht | ht) | ht) | ht
    · exact .inr (hfront t ht)
    · exact .inl (.inl (.inl (hsub _ t ht)))
    · exact .inl (.inl (.inr ht))
    · exact .inl (.inr (hsub _ t ht))
  · intro a
    have hqueue := count_surviving (cancelTargets tasks) s.queue a
    have hdeferred := count_surviving (cancelTargets tasks) s.deferred a
    rw [heq]
    simp only [count_places, flatMap_append, flatMap_ids_cancel hcancel, nil_append, filter_append, count_append]
    omega
  · intro a ha
    exact mem_append_right _ (mem_cancelled_ids hclosed ha)
  · intro t ht
    obtain ⟨hleaf, target, htarget⟩ := htasks t ht
    refine ⟨⟨hleaf ▸ length_pos_of_ne_nil h.slots, fun _ => hleaf⟩, ?_⟩
    intro target htarget
    refine mem_append_right _ (mem_filterMap.2 ⟨t, ht, ?_⟩)
    rw [htarget]

end

lemma QueueInv.of_fresh {s : QueueState} (h : s.Fresh) : QueueInv s := by
  obtain ⟨hqueue, hcur, hdeferred, hanswered, hposted, hcancelled, hslots, hidle⟩ := h
  have hoccupied : occupied s.slots = [] := by
    rw [occupied, map_eq_nil_iff, List.reduceOption, filterMap_eq_nil_iff]
    exact fun slot hslot => hidle slot hslot
  have hplaces : places s = [] := by
    rw [places, hqueue, hcur, hdeferred, hoccupied, hanswered]
    rfl
  have hpending : pending s = [] := by
    rw [pending, hqueue, hcur, hdeferred]
    rfl
  refine ⟨?_, ?_, ?_, .inl hdeferred, ?_, ?_, ?_, hslots⟩
  · intro a
    rw [hplaces]
    exact Nat.zero_le 1
  · intro a ha
    rw [hplaces] at ha
    exact absurd ha (Nat.lt_irrefl 0)
  · intro a ha
    rw [hposted] at ha
    cases ha
  · intro t ht
    rw [hpending] at ht
    cases ht
  · intro t ht
    rw [hpending] at ht
    cases ht
  · intro t ht
    rw [hdeferred] at ht
    cases ht

/-- A step that strands no task keeps the invariant. -/
theorem QueueInv.step {s s' : QueueState} {ev : QueueEvent} (h : QueueInv s) (hclient : ClientOk s ev)
    (hkeeps : Keeps s ev) (hstep : queueStep s ev = some s') : QueueInv s' := by
  cases ev with
  | post tasks front =>
    cases hstep
    exact h.post hclient
  | cancel tasks =>
    cases hstep
    exact h.cancelAll hclient hkeeps
  | take =>
    cases hcur : s.current with
    | some t =>
      simp only [queueStep, hcur] at hstep
      cases hstep
    | none =>
      cases hqueue : s.queue with
      | nil =>
        simp only [queueStep, hcur, hqueue] at hstep
        cases hstep
      | cons t queue =>
        simp only [queueStep, hcur, hqueue] at hstep
        cases hstep
        exact h.take hcur hqueue
  | run o =>
    cases hcur : s.current with
    | none =>
      simp only [queueStep, hcur] at hstep
      cases hstep
    | some t =>
      simp only [queueStep, hcur] at hstep
      exact h.run hcur hkeeps hstep
  | finish i =>
    simp only [queueStep] at hstep
    split at hstep
    next t hcur hslot =>
      cases hstep
      exact h.finish hslot
    next => cases hstep
  | next id =>
    cases hstep
    exact h.next id

/-- No deferred task is left behind by an idle server, and a task that was posted and not cancelled is in one place. -/
def NotStranded (s : QueueState) : Prop :=
  (s.queue = [] ∧ s.current = none ∧ (∀ slot ∈ s.slots, slot = none) → s.deferred = []) ∧
    ∀ id ∈ s.posted, id ∉ s.cancelled → (places s).count id = 1

lemma QueueInv.notStranded {s : QueueState} (h : QueueInv s) : NotStranded s := by
  constructor
  · rintro ⟨hqueue, hcur, hidle⟩
    rcases h.hope with hnil | ⟨slot, hslot, hbusy⟩ | ⟨t, ht, _⟩
    · exact hnil
    · rw [hidle slot hslot] at hbusy
      cases hbusy
    · rw [hqueue, hcur] at ht
      cases ht
  · intro id hposted hcancelled
    exact Nat.le_antisymm (h.once id) (h.kept id hposted hcancelled)

/-- In a run in which every launch of a parent succeeds, and in which no task ends without a slot and no pending task is
removed while deferred tasks have nothing else to hope on, no task is stranded. -/
theorem notStranded_of_keeps (s : QueueState)
    (run : Reach QueueState.Fresh (fun s ev s' => ClientOk s ev ∧ Keeps s ev ∧ queueStep s ev = some s') s) :
    NotStranded s := by
  have hinv : QueueInv s := by
    refine run.invariant (fun _ => QueueInv.of_fresh) ?_
    rintro s ev s' hinv ⟨hclient, hkeeps, hstep⟩
    exact hinv.step hclient hkeeps hstep
  exact hinv.notStranded

def oneIdleSlot : QueueState := ⟨[], none, [], [none], [], [], []⟩

lemma oneIdleSlot_fresh : oneIdleSlot.Fresh := by
  refine ⟨rfl, rfl, rfl, rfl, rfl, rfl, cons_ne_nil _ _, ?_⟩
  intro slot hslot
  exact mem_singleton.1 hslot

def plainCompletion (id : Nat) : QueueTask := ⟨id, .completion none, []⟩

lemma plainCompletions_ok {ids : List Nat} {front : Bool} (hnodup : ids.Nodup) :
    ClientOk oneIdleSlot (.post (ids.map plainCompletion) front) := by
  have hids : (ids.map plainCompletion).flatMap (·.ids) = ids := by
    rw [flatMap_map]
    exact flatMap_pure_eq_map _ _ |>.trans (List.map_id ids)
  refine ⟨hids.symm ▸ hnodup, fun _ _ => nofun, ?_⟩
  intro t ht
  obtain ⟨id, _, rfl⟩ := List.mem_map.1 ht
  exact ⟨rfl, Nat.one_pos, fun _ => rfl⟩

def threePosted : QueueState := ⟨[0, 1, 2].map plainCompletion, none, [], [none], [], [0, 1, 2], []⟩

/-- The first of three completions is launched, the others are deferred; when the slot is released the second comes
back and does not launch. -/
def secondFails : List QueueEvent :=
  [.take, .run ⟨some 0, false, 1⟩, .take, .run ⟨none, false, 1⟩, .take, .run ⟨none, false, 1⟩, .finish 0, .take,
    .run ⟨some 0, false, 0⟩]

def thirdStranded : QueueState := ⟨[], none, [plainCompletion 2], [none], [0, 1], [0, 1, 2], []⟩

/-- A task that does not launch strands the one that is deferred behind it. -/
theorem not_notStranded :
    ¬ ∀ s, Reach QueueState.Fresh (fun s ev s' => ClientOk s ev ∧ queueStep s ev = some s') s → NotStranded s := by
  intro h
  have hclient : ∀ ev ∈ secondFails, ∀ s s', queueStep s ev = some s' → ClientOk s ev ∧ queueStep s ev = some s' := by
    intro ev hev s s' hstep
    refine ⟨?_, hstep⟩
    cases ev with
    | post tasks front => simp [secondFails] at hev
    | cancel tasks => simp [secondFails] at hev
    | _ => trivial
  have hposted : Reach QueueState.Fresh (fun s ev s' => ClientOk s ev ∧ queueStep s ev = some s') threePosted :=
    (Reach.init oneIdleSlot_fresh).step (a := QueueEvent.post ([0, 1, 2].map plainCompletion) false)
      ⟨plainCompletions_ok (by decide), rfl⟩
  have hrun : secondFails.foldlM queueStep threePosted = some thirdStranded := rfl
  have hstranded := h _ (hposted.of_foldlM hclient hrun)
  have hnil := hstranded.1 ⟨rfl, rfl, fun slot hslot => mem_singleton.1 hslot⟩
  cases hnil

/-- The launch of a completion without children needs no hope. -/
lemma keeps_launch {s : QueueState} {id : Nat} {slot : Option Nat} (hcur : s.current = some (plainCompletion id)) :
    Keeps s (.run ⟨slot, false, 1⟩) := by
  intro t ht
  cases Option.some.inj (hcur.symm.trans ht)
  refine ⟨fun _ => .inl rfl, ?_⟩
  rintro ⟨-, ⟨idSlot, haction⟩ | hrej | hzero⟩
  · cases haction
  · cases hrej
  · cases hzero

/-- Of two completions for one slot the second is deferred and comes back when the first is answered. -/
theorem notStranded_of_keeps_deferred : NotStranded ⟨[], none, [plainCompletion 1], [some ⟨0, none⟩], [], [0, 1], []⟩ ∧
    NotStranded ⟨[], none, [], [none], [0, 1], [0, 1], []⟩ := by
  have hposted : Reach QueueState.Fresh (fun s ev s' => ClientOk s ev ∧ Keeps s ev ∧ queueStep s ev = some s')
      ⟨[0, 1].map plainCompletion, none, [], [none], [], [0, 1], []⟩ :=
    (Reach.init oneIdleSlot_fresh).step (a := QueueEvent.post ([0, 1].map plainCompletion) false)
      ⟨plainCompletions_ok (by decide), trivial, rfl⟩
  have htaken := hposted.step (a := QueueEvent.take) ⟨trivial, trivial, rfl⟩
  have hlaunched := htaken.step (a := QueueEvent.run ⟨some 0, false, 1⟩) ⟨trivial, keeps_launch rfl, rfl⟩
  have hsecond := hlaunched.step (a := QueueEvent.take) ⟨trivial, trivial, rfl⟩
  have hdeferred := hsecond.step (a := QueueEvent.run ⟨none, false, 1⟩) ⟨trivial, keeps_launch rfl, rfl⟩
  have hpopped := hdeferred.step (a := QueueEvent.finish 0) ⟨trivial, trivial, rfl⟩
  have hagain := hpopped.step (a := QueueEvent.take) ⟨trivial, trivial, rfl⟩
  have hslot := hagain.step (a := QueueEvent.run ⟨some 0, false, 1⟩) ⟨trivial, keeps_launch rfl, rfl⟩
  exact ⟨notStranded_of_keeps _ hdeferred, notStranded_of_keeps _ (hslot.step (a := QueueEvent.finish 0) ⟨trivial, trivial, rfl⟩)⟩

/-- The ids that a client posts are new and distinct. -/
def PostsNew (s : QueueState) : QueueEvent → Prop
  | .post tasks _ => (tasks.flatMap (·.ids)).Nodup ∧ ∀ a ∈ tasks.flatMap (·.ids), a ∉ s.posted
  | _ => True

/-- Nothing is posted, and the places have no ids but those they had and `more`. -/
structure Moves (s s' : QueueState) (more : List Nat) : Prop where
  posted : s'.posted = s.posted
  count : ∀ a, (places s').count a ≤ (places s).count a + more.count a

section
variable {s s' s'' : QueueState} {t : QueueTask} {i : Nat} {more : List Nat}

lemma Moves.refl (s : QueueState) (more : List Nat) : Moves s s more := ⟨rfl, fun _ => Nat.le_add_right _ _⟩

lemma Moves.trans (h : Moves s s' more) (h' : Moves s' s'' []) : Moves s s'' more := by
  refine ⟨h'.posted.trans h.posted, fun a => ?_⟩
  have hfirst := h.count a
  have hsecond := h'.count a
  rw [count_nil] at hsecond
  omega

/-- An operation on a task that the server thread has taken. -/
lemma Moves.of_current (hcur : s.current = some t) (h : Moves { s with current := none } s' t.ids) : Moves s s' [] := by
  refine ⟨h.posted, fun a => ?_⟩
  have hmoved := h.count a
  have hcurrent := count_current hcur a
  rw [count_nil]
  omega

lemma moves_answer (s : QueueState) (hreq : t.isRequest = true) : Moves s (answer s t.id) t.ids := by
  refine ⟨rfl, fun a => ?_⟩
  rw [count_answer, t.ids_of_request hreq]
  simp only [count_cons, count_nil]
  omega

lemma moves_defer (s : QueueState) (t : QueueTask) : Moves s (defer s t) t.ids :=
  ⟨rfl, fun a => Nat.le_of_eq (count_defer s a t)⟩

/-- A released slot gives its task up; an idle one has none. -/
lemma moves_release (s : QueueState) (i : Nat) : Moves s (releaseSlotTask s i) [] := by
  refine ⟨(frame_release s i).posted, fun a => ?_⟩
  rw [count_nil]
  by_cases hbusy : ∃ t, s.slots[i]? = some (some t)
  · obtain ⟨t, hslot⟩ := hbusy
    have := count_release hslot a
    omega
  · have hset : s.slots.set i none = s.slots := by
      apply List.ext_getElem? ; intro j
      rw [getElem?_set]
      split
      next hij =>
        subst hij
        cases hslot : s.slots[i]? with
        | none => rw [if_neg (by rwa [getElem?_eq_none_iff, ← Nat.not_lt] at hslot)]
        | some slot =>
          cases slot with
          | some t => exact absurd ⟨t, hslot⟩ hbusy
          | none => rw [if_pos (List.getElem?_eq_some_iff.1 hslot).1]
      next => rfl
    rw [releaseSlotTask, count_pop, hset]
    exact Nat.le_refl _

lemma moves_releaseAll (is : List Nat) (s : QueueState) : Moves s (is.foldl releaseSlotTask s) [] := by
  induction is generalizing s with
  | nil => exact .refl s []
  | cons i is ih => exact (moves_release s i).trans (ih _)

/-- A family is launched as a whole, or the tasks that were launched are dropped and one is answered. -/
lemma moves_launchFamily {launched : Nat} (hreq : t.isRequest = true) (hi : s.slots[i]? = some none)
    (hlen : t.children.length ≤ (freeSlots s.slots i).length) :
    Moves s (launchSlotsWithParentTask s t i launched) t.ids := by
  rw [t.ids_of_request hreq]
  by_cases hall : t.children.length < launched
  · obtain ⟨hcount, hframe, -⟩ := launchParent_spec hi hlen hall
    exact ⟨hframe.posted, fun a => Nat.le_of_eq (hcount a)⟩
  · have hfree : ∀ p ∈ ((freeSlots s.slots i).zip t.children).take launched, s.slots[p.1]? = some none := by
      intro p hp
      exact (mem_freeSlots (of_mem_zip (mem_of_mem_take hp)).1).1
    have hnodup : ((((freeSlots s.slots i).zip t.children).take launched).map (·.1)).Nodup := by
      rw [map_take]
      exact ((freeSlots_nodup s.slots i).sublist (map_fst_zip_sublist _ _)).sublist (take_sublist _ _)
    obtain ⟨hcount, hframe, -⟩ := placeChildren_spec t.id hfree hnodup
    have hplaced : (((freeSlots s.slots i).zip t.children).take launched).map (·.2) = t.children.take launched := by
      rw [map_take, map_snd_zip hlen]
    -- the tasks that were launched and the one that failed are a start of the family
    have hstart : t.children.take launched ++ [(t.children ++ [t.id]).getD launched t.id] =
        (t.children ++ [t.id]).take (launched + 1) := by
      have hlt : launched < (t.children ++ [t.id]).length := by
        rw [length_append, length_singleton]
        omega
      rw [take_succ_eq_append_getElem hlt, take_append_of_le_length (by omega), getD_eq_getElem _ _ hlt]
    have hfailed : Moves s (answer (placeChildren s t.id (((freeSlots s.slots i).zip t.children).take launched))
        ((t.children ++ [t.id]).getD launched t.id)) (t.id :: t.children) := by
      refine ⟨hframe.posted, fun a => ?_⟩
      rw [count_answer, hcount, hplaced, Nat.add_assoc, ← count_append, hstart]
      have hsub := (take_sublist (launched + 1) (t.children ++ [t.id])).count_le a
      rw [count_append, count_singleton] at hsub
      rw [count_cons]
      omega
    rw [launchSlotsWithParentTask, if_neg hall]
    exact hfailed.trans (moves_releaseAll _ _)

lemma moves_completion {idSlot : Option Nat} {o : Launch} (htype : t.type = .completion idSlot)
    (h : runCompletion s t idSlot o = some s') : Moves s s' t.ids := by
  have hreq : t.isRequest = true := by rw [QueueTask.isRequest, htype]
  unfold runCompletion at h
  split at h
  · split at h
    · cases h
      exact moves_answer s hreq
    · cases h
  · split at h
    · cases h
    · cases h
      exact moves_defer s t
    · split at h
      · cases h
        exact moves_defer s t
      · rename_i hslot
        cases h
        unfold launchTask
        split
        · split
          · exact moves_answer s hreq
          · refine ⟨rfl, fun a => ?_⟩
            rw [count_place s a _ hslot, t.ids_of_request hreq]
            simp only [count_cons, count_nil]
            omega
        · split
          · exact moves_defer s t
          · rename_i hlen
            exact moves_launchFamily hreq hslot (Nat.le_of_not_lt hlen)
      · cases h

lemma moves_run {o : Launch} (h : processSingleTask s t o = some s') : Moves s s' t.ids := by
  unfold processSingleTask at h
  cases htype : t.type with
  | completion idSlot =>
    rw [htype] at h
    exact moves_completion htype h
  | slotAction idSlot =>
    rw [htype] at h
    cases h
    have hreq : t.isRequest = true := by rw [QueueTask.isRequest, htype]
    unfold runSlotAction
    split
    · exact moves_answer s hreq
    · split
      · exact moves_defer s t
      · exact moves_answer s hreq
  | immediate =>
    rw [htype] at h
    cases h
    exact moves_answer s (by rw [QueueTask.isRequest, htype])
  | cancel target =>
    rw [htype] at h
    cases h
    unfold runCancel
    split
    next i _ => exact Moves.trans (.refl s _) (moves_release s i)
    next => exact .refl s _
  | nextResponse =>
    rw [htype] at h
    cases h
    exact .refl s _

/-- A cancelled task is removed from the queue and from the deferred tasks. -/
lemma moves_cleanup (s : QueueState) (target : Nat) : Moves s (cleanupPendingTask s target) [] := by
  have hle : ∀ (ts : List QueueTask) (a : Nat),
      ((ts.filter (·.id != target)).flatMap (·.ids)).count a ≤ (ts.flatMap (·.ids)).count a :=
    fun ts a => (filter_sublist.flatMap _).count_le a
  refine ⟨rfl, fun a => ?_⟩
  have hqueue := hle s.queue a
  have hdeferred := hle s.deferred a
  simp only [count_places, cleanupPendingTask, count_nil]
  omega

lemma moves_push (front : Bool) (s : QueueState) (hids : t.ids = []) : Moves s (push front s t) [] := by
  refine ⟨rfl, fun a => Nat.le_of_eq ?_⟩
  rw [count_push, hids]

lemma moves_cancelAll (s : QueueState) (tasks : List QueueTask) : Moves s (cancelAll s tasks) [] := by
  induction tasks generalizing s with
  | nil => exact .refl s []
  | cons t tasks ih =>
    refine Moves.trans ?_ (ih _)
    beta_reduce
    split
    next target htarget =>
      have hids : t.ids = [] := by
        rw [QueueTask.ids, QueueTask.isRequest, htarget]
        rfl
      have hmoved := (moves_cleanup s target).trans (moves_push true _ hids)
      exact ⟨hmoved.posted, hmoved.count⟩
    next => exact .refl s []

end

/-- A step that is no post moves tasks or lets them go. -/
lemma moves_step {s s' : QueueState} {ev : QueueEvent} (hpost : ∀ tasks front, ev ≠ .post tasks front)
    (hstep : queueStep s ev = some s') : Moves s s' [] := by
  cases ev with
  | post tasks front => exact absurd rfl (hpost tasks front)
  | cancel tasks =>
    cases hstep
    exact moves_cancelAll s tasks
  | take =>
    simp only [queueStep] at hstep
    split at hstep
    next t queue hcur hqueue =>
      cases hstep
      refine ⟨rfl, fun a => Nat.le_of_eq ?_⟩
      simp only [count_places, hcur, hqueue, flatMap_cons, count_append, map_none, map_some, getD_none, getD_some,
        count_nil]
      omega
    next => cases hstep
  | run o =>
    simp only [queueStep] at hstep
    split at hstep
    next t hcur => exact (moves_run hstep).of_current hcur
    next => cases hstep
  | finish i =>
    simp only [queueStep] at hstep
    split at hstep
    next t hcur hslot =>
      cases hstep
      refine ⟨(frame_release _ i).posted, fun a => ?_⟩
      have hrelease := count_release (s := answer s t.id) hslot a
      rw [count_answer] at hrelease
      rw [count_nil]
      omega
    next => cases hstep
  | next id =>
    cases hstep
    refine ⟨rfl, fun a => ?_⟩
    rw [count_push]
    exact Nat.le_refl _

/-- Each task is in one place, and none is there that was not posted. -/
structure Once (s : QueueState) : Prop where
  count : ∀ a, (places s).count a ≤ 1
  posted : ∀ a ∈ places s, a ∈ s.posted

lemma Once.moves {s s' : QueueState} (h : Once s) (hm : Moves s s' []) : Once s' := by
  constructor
  · intro a
    have hone := h.count a
    have hmoved := hm.count a
    rw [count_nil] at hmoved
    omega
  · intro a ha
    rw [hm.posted]
    exact h.posted a (count_pos_iff.1 (Nat.lt_of_lt_of_le (count_pos_iff.2 ha) (hm.count a)))

lemma Once.post {s : QueueState} {tasks : List QueueTask} {front : Bool} (h : Once s)
    (hnew : PostsNew s (.post tasks front)) :
    Once { tasks.foldl (push front) s with posted := s.posted ++ tasks.flatMap (·.ids) } := by
  obtain ⟨-, -, hcount⟩ := pushAll_spec front s tasks
  constructor
  · intro a
    refine Nat.le_trans (Nat.le_of_eq (hcount a)) ?_
    have hle := nodup_iff_count_le_one.1 hnew.1 a
    have hone := h.count a
    by_cases ha : a ∈ tasks.flatMap (·.ids)
    · have hzero : (places s).count a = 0 := count_eq_zero.2 fun hmem => hnew.2 a ha (h.posted a hmem)
      omega
    · have hzero := count_eq_zero.2 ha
      omega
  · intro a ha
    have hpos : 0 < (places (tasks.foldl (push front) s)).count a := count_pos_iff.2 ha
    rw [hcount a] at hpos
    by_cases hs : a ∈ places s
    · exact mem_append_left _ (h.posted a hs)
    · rw [count_eq_zero.2 hs, Nat.zero_add] at hpos
      exact mem_append_right _ (count_pos_iff.1 hpos)

/-- In every run in which clients post new ids, whatever is launched, fails or is cancelled, no task is in two places or
answered twice, and none is found or answered that was not posted. -/
theorem once_of_new (s : QueueState)
    (run : Reach QueueState.Fresh (fun s ev s' => PostsNew s ev ∧ queueStep s ev = some s') s) :
    (places s).Nodup ∧ ∀ id ∈ places s, id ∈ s.posted := by
  have honce : Once s := by
    refine run.invariant (fun s hfresh => ?_) ?_
    · have hinv := QueueInv.of_fresh hfresh
      exact ⟨hinv.once, fun a ha => hinv.posted a (count_pos_iff.2 ha)⟩
    · rintro s ev s' honce ⟨hnew, hstep⟩
      cases ev with
      | post tasks front =>
        cases hstep
        exact honce.post hnew
      | _ =>
        refine honce.moves (moves_step ?_ hstep)
        intro tasks front h
        cases h
  exact ⟨nodup_iff_count_le_one.2 honce.count, honce.posted⟩

/-- A parent whose own launch fails behind that of its child. -/
def familyPosted : QueueState := ⟨[⟨0, .completion none, [1]⟩], none, [], [none, none], [], [0, 1], []⟩

/-- The failed parent is answered and its child dropped; of three completions for the two slots the last is deferred and
comes back, and the second is cancelled. -/
theorem once_familyFails :
    (places ⟨[plainCompletion 4], none, [], [none, none], [0, 2], [0, 1, 2, 3, 4], [3]⟩).Nodup := by
  have hfresh : QueueState.Fresh ⟨[], none, [], [none, none], [], [], []⟩ := by
    refine ⟨rfl, rfl, rfl, rfl, rfl, rfl, cons_ne_nil _ _, ?_⟩
    intro slot hslot
    simpa using hslot
  have hfamily : Reach QueueState.Fresh (fun s ev s' => PostsNew s ev ∧ queueStep s ev = some s') familyPosted :=
    (Reach.init hfresh).step (a := QueueEvent.post familyPosted.queue false) ⟨⟨by decide, by decide⟩, rfl⟩
  have hquiet : ∀ evs : List QueueEvent, (∀ ev ∈ evs, ∀ s, PostsNew s ev) → ∀ ev ∈ evs, ∀ s s',
      queueStep s ev = some s' → PostsNew s ev ∧ queueStep s ev = some s' :=
    fun evs hevs ev hev s s' hstep => ⟨hevs ev hev s, hstep⟩
  have hfailed := hfamily.of_foldlM (l := [.take, .run ⟨some 0, false, 1⟩]) (f := queueStep)
    (t := ⟨[], none, [], [none, none], [0], [0, 1], []⟩) (hquiet _ (by simp [PostsNew])) rfl
  have hposted := hfailed.step (a := QueueEvent.post ([2, 3, 4].map plainCompletion) false)
    (t := ⟨[2, 3, 4].map plainCompletion, none, [], [none, none], [0], [0, 1, 2, 3, 4], []⟩) ⟨⟨by decide, by decide⟩, rfl⟩
  have hend := hposted.of_foldlM (f := queueStep) (l := [.take, .run ⟨some 0, false, 1⟩, .take, .run ⟨some 1, false, 1⟩,
    .take, .run ⟨none, false, 1⟩, .finish 0, .cancel [⟨9, .cancel 3, []⟩], .take, .run ⟨none, false, 0⟩])
    (t := ⟨[plainCompletion 4], none, [], [none, none], [0, 2], [0, 1, 2, 3, 4], [3]⟩)
    (hquiet _ (by simp [PostsNew])) rfl
  exact (once_of_new _ hend).1

end Mallana.Server
