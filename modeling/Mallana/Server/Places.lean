import Mallana.Lib.Reach
import Mallana.Server.Queue

/-!
# The places of a task

Where a task is: in the queue, with the server thread, deferred, in a slot or answered (`places`), and what the
operations of the queue and the slots move from one place to another. A deferred task comes back to the queue when a
slot is released, one for each release, so some slot or some other task has to be on its way to that (`Hope`).
-/

namespace Mallana.Server

open Mallana.Lib List

def occupied (slots : List (Option SlotTask)) : List Nat := slots.reduceOption.map (·.id)

def places (s : QueueState) : List Nat :=
  s.queue.flatMap (·.ids) ++ ((s.current.map (·.ids)).getD [] ++ (s.deferred.flatMap (·.ids) ++
    (occupied s.slots ++ s.answered)))

/-- Deferred tasks will come back: a slot is processing, or a task that needs a slot is on its way. -/
def Hope (s : QueueState) : Prop :=
  s.deferred = [] ∨ (∃ slot ∈ s.slots, slot.isSome = true) ∨ ∃ t ∈ s.queue ++ s.current.toList, t.needsSlot = true

/-- The tasks in the queue, with the server thread and deferred. -/
def pending (s : QueueState) : List QueueTask := s.queue ++ s.current.toList ++ s.deferred

/-- What the clients see to: ids are new, only a completion has children, and not more of them than fit beside it. -/
structure QueueTask.Fits (t : QueueTask) (nSlots : Nat) : Prop where
  children : t.children.length < nSlots
  leaf : (∀ idSlot, t.type ≠ .completion idSlot) → t.children = []

/-- What holds in every state. -/
structure QueueInv (s : QueueState) : Prop where
  once : ∀ a, (places s).count a ≤ 1
  posted : ∀ a, 0 < (places s).count a → a ∈ s.posted
  kept : ∀ a ∈ s.posted, a ∉ s.cancelled → 0 < (places s).count a
  hope : Hope s
  fits : ∀ t ∈ pending s, t.Fits s.slots.length
  targets : ∀ t ∈ pending s, ∀ target, t.type = .cancel target → target ∈ s.cancelled
  needs : ∀ t ∈ s.deferred, t.needsSlot = true
  slots : s.slots ≠ []

lemma count_places (s : QueueState) (a : Nat) :
    (places s).count a = (s.queue.flatMap (·.ids)).count a + ((s.current.map (·.ids)).getD []).count a +
      (s.deferred.flatMap (·.ids)).count a + (occupied s.slots).count a + s.answered.count a := by
  simp only [places, count_append]
  omega

variable {slots : List (Option SlotTask)} {i : Nat} {t : QueueTask} {s : QueueState}

lemma count_occupied_none {t : SlotTask} (h : slots[i]? = some (some t))
    (a : Nat) : (occupied (slots.set i none)).count a + [t.id].count a = (occupied slots).count a := by
  induction slots generalizing i with
  | nil => cases h
  | cons x xs ih =>
    cases i with
    | zero =>
      cases h
      simp only [set_cons_zero, occupied, reduceOption_cons_of_none, reduceOption_cons_of_some,
        map_cons, count_cons, count_nil]
      omega
    | succ i =>
      have ih := ih (i := i) h
      cases x with
      | none => exact ih
      | some u =>
        simp only [set_cons_succ, occupied, reduceOption_cons_of_some, map_cons, count_cons] at ih ⊢
        omega

lemma count_occupied_some (t : SlotTask) (h : slots[i]? = some none)
    (a : Nat) : (occupied (slots.set i (some t))).count a = (occupied slots).count a + [t.id].count a := by
  obtain ⟨hlt, heq⟩ := List.getElem?_eq_some_iff.1 h
  have hset : (slots.set i (some t))[i]? = some (some t) := getElem?_set_self hlt
  have hcount := count_occupied_none hset a
  have hback : (slots.set i (some t)).set i none = slots := by
    rw [set_set, ← heq]
    exact set_getElem_self hlt
  rw [hback] at hcount
  omega

lemma count_eraseIdx {ts : List QueueTask} (h : ts[i]? = some t) (a : Nat) :
    ((ts.eraseIdx i).flatMap (·.ids)).count a + t.ids.count a = (ts.flatMap (·.ids)).count a := by
  induction ts generalizing i with
  | nil => cases h
  | cons u us ih =>
    cases i with
    | zero =>
      cases h
      simp only [eraseIdx_cons_zero, flatMap_cons, count_append]
      omega
    | succ i =>
      have ih := ih (i := i) h
      simp only [eraseIdx_cons_succ, flatMap_cons, count_append]
      omega

section
variable (s : QueueState) (a : Nat)

lemma count_answer (id : Nat) : (places (answer s id)).count a = (places s).count a + [id].count a := by
  simp only [count_places, answer, count_append]
  omega

lemma count_defer (t : QueueTask) : (places (defer s t)).count a = (places s).count a + t.ids.count a := by
  simp only [count_places, defer, flatMap_append, flatMap_cons, flatMap_nil, append_nil, count_append]
  omega

lemma count_push (front : Bool) (t : QueueTask) :
    (places (push front s t)).count a = (places s).count a + t.ids.count a := by
  cases front
  · simp only [count_places, push, Bool.false_eq_true, if_false, flatMap_append, flatMap_cons,
      flatMap_nil, append_nil, count_append]
    omega
  · simp only [count_places, push, if_true, flatMap_cons, count_append]
    omega

lemma count_place {i : Nat} (t : SlotTask) (h : s.slots[i]? = some none) :
    (places (place s i t)).count a = (places s).count a + [t.id].count a := by
  simp only [count_places, place, count_occupied_some t h]
  omega

end

lemma popDeferredTask_cases (s : QueueState) (i : Nat) :
    (s.deferred = [] ∧ popDeferredTask s i = s) ∨ ∃ (k : Nat) (t : QueueTask), s.deferred[k]? = some t ∧
      popDeferredTask s i = { s with queue := t :: s.queue, deferred := s.deferred.eraseIdx k } := by
  cases hd : s.deferred with
  | nil =>
    refine .inl ⟨rfl, ?_⟩
    unfold popDeferredTask
    rw [hd, getElem?_nil]
  | cons u us =>
    have hlt : popIndex s.deferred i < s.deferred.length := by
      unfold popIndex
      cases hf : s.deferred.findIdx? fun t => t.idSlot == some i with
      | none =>
        rw [hd]
        exact Nat.succ_pos _
      | some k => exact (findIdx?_eq_some_iff_findIdx_eq.1 hf).1
    refine .inr ⟨popIndex s.deferred i, s.deferred[popIndex s.deferred i], ?_, ?_⟩
    · rw [← hd]
      exact getElem?_eq_getElem hlt
    · unfold popDeferredTask
      rw [getElem?_eq_getElem hlt, ← hd]

lemma count_pop (s : QueueState) (i a : Nat) : (places (popDeferredTask s i)).count a = (places s).count a := by
  rcases popDeferredTask_cases s i with ⟨_, heq⟩ | ⟨k, t, hk, heq⟩
  · rw [heq]
  · have hcount := count_eraseIdx hk a
    rw [heq]
    simp only [count_places, flatMap_cons, count_append]
    omega

lemma count_release {t : SlotTask} (h : s.slots[i]? = some (some t)) (a : Nat) :
    (places (releaseSlotTask s i)).count a + [t.id].count a = (places s).count a := by
  have hcount := count_occupied_none h a
  rw [releaseSlotTask, count_pop]
  simp only [count_places]
  omega

/-- What an operation leaves as it is: what was posted and cancelled, and the number of slots. The tasks that are pending
behind it were so before or are `more`. -/
structure Frame (s s' : QueueState) (more : List QueueTask) : Prop where
  posted : s'.posted = s.posted
  cancelled : s'.cancelled = s.cancelled
  slots : s'.slots.length = s.slots.length
  pending : ∀ t ∈ pending s', t ∈ pending s ∨ t ∈ more
  deferred : ∀ t ∈ s'.deferred, t ∈ s.deferred ∨ t ∈ more ∧ t.needsSlot = true

lemma Frame.refl (s : QueueState) : Frame s s [] := ⟨rfl, rfl, rfl, fun _ => .inl, fun _ => .inl⟩

lemma Frame.trans {s' s'' : QueueState} {more more' : List QueueTask} (h : Frame s s' more) (h' : Frame s' s'' more') :
    Frame s s'' (more ++ more') := by
  refine ⟨h'.posted.trans h.posted, h'.cancelled.trans h.cancelled, h'.slots.trans h.slots, ?_, ?_⟩
  · intro t ht
    rcases h'.pending t ht with ht | ht
    · exact (h.pending t ht).imp_right (mem_append_left _)
    · exact .inr (mem_append_right _ ht)
  · intro t ht
    rcases h'.deferred t ht with ht | ⟨ht, hneeds⟩
    · exact (h.deferred t ht).imp_right fun hmem => ⟨mem_append_left _ hmem.1, hmem.2⟩
    · exact .inr ⟨mem_append_right _ ht, hneeds⟩

lemma frame_answer (s : QueueState) (id : Nat) : Frame s (answer s id) [] := ⟨rfl, rfl, rfl, fun _ => .inl, fun _ => .inl⟩

lemma frame_place (s : QueueState) (i : Nat) (t : SlotTask) : Frame s (place s i t) [] :=
  ⟨rfl, rfl, length_set, fun _ => .inl, fun _ => .inl⟩

lemma frame_defer (s : QueueState) (ht : t.needsSlot = true) : Frame s (defer s t) [t] := by
  have hdeferred : ∀ u ∈ (defer s t).deferred, u ∈ s.deferred ∨ u ∈ [t] ∧ u.needsSlot = true := by
    intro u hu
    rcases mem_append.1 hu with hu | hu
    · exact .inl hu
    · refine .inr ⟨hu, ?_⟩
      rw [mem_singleton.1 hu]
      exact ht
  refine ⟨rfl, rfl, rfl, ?_, hdeferred⟩
  intro u hu
  rcases mem_append.1 hu with hu | hu
  · exact .inl (mem_append_left _ hu)
  · rcases mem_append.1 hu with hu | hu
    · exact .inl (mem_append_right _ hu)
    · exact .inr hu

lemma frame_pop (s : QueueState) (i : Nat) : Frame s (popDeferredTask s i) [] := by
  rcases popDeferredTask_cases s i with ⟨_, heq⟩ | ⟨k, t, hk, heq⟩
  · rw [heq]
    exact .refl s
  · rw [heq]
    have hsub : ∀ u ∈ s.deferred.eraseIdx k, u ∈ s.deferred := fun u => mem_of_mem_eraseIdx
    refine ⟨rfl, rfl, rfl, ?_, fun u hu => .inl (hsub u hu)⟩
    intro u hu
    simp only [pending, cons_append, mem_cons, mem_append] at hu ⊢
    rcases hu with rfl | (hu | hu) | hu
    · exact .inl (.inr (mem_of_getElem? hk))
    · exact .inl (.inl (.inl hu))
    · exact .inl (.inl (.inr hu))
    · exact .inl (.inr (hsub u hu))

lemma frame_release (s : QueueState) (i : Nat) : Frame s (releaseSlotTask s i) [] := by
  have hset : Frame s { s with slots := s.slots.set i none } [] :=
    ⟨rfl, rfl, length_set, fun _ => .inl, fun _ => .inl⟩
  exact hset.trans (frame_pop _ i)

lemma hope_release (s : QueueState) (i : Nat) (h : ∀ t ∈ s.deferred, t.needsSlot = true) : Hope (releaseSlotTask s i) := by
  rw [releaseSlotTask]
  rcases popDeferredTask_cases { s with slots := s.slots.set i none } i with ⟨hnil, heq⟩ | ⟨k, t, hk, heq⟩
  · rw [heq]
    exact .inl hnil
  · rw [heq]
    exact .inr (.inr ⟨t, mem_cons_self, h t (mem_of_getElem? hk)⟩)

lemma QueueInv.of_frame {s' : QueueState} (more : List QueueTask) (gone : List Nat) (h : QueueInv s)
    (hframe : Frame s s' more) (hcount : ∀ a, (places s').count a + gone.count a = (places s).count a)
    (hgone : ∀ a ∈ gone, a ∈ s.cancelled) (hope : Hope s')
    (hmore : ∀ t ∈ more, t.Fits s.slots.length ∧ ∀ target, t.type = .cancel target → target ∈ s.cancelled) :
    QueueInv s' := by
  refine ⟨?_, ?_, ?_, hope, ?_, ?_, ?_, ?_⟩
  · intro a
    have hone := h.once a
    have := hcount a
    omega
  · intro a ha
    have := hcount a
    rw [hframe.posted]
    exact h.posted a (by omega)
  · intro a hposted hcancelled
    rw [hframe.posted] at hposted
    rw [hframe.cancelled] at hcancelled
    have hkept := h.kept a hposted hcancelled
    have hzero : gone.count a = 0 := count_eq_zero.2 fun hmem => hcancelled (hgone a hmem)
    have := hcount a
    omega
  · intro t ht
    rw [hframe.slots]
    rcases hframe.pending t ht with ht | ht
    · exact h.fits t ht
    · exact (hmore t ht).1
  · intro t ht target htarget
    rw [hframe.cancelled]
    rcases hframe.pending t ht with ht | ht
    · exact h.targets t ht target htarget
    · exact (hmore t ht).2 target htarget
  · intro t ht
    rcases hframe.deferred t ht with ht | ht
    · exact h.needs t ht
    · exact ht.2
  · intro hnil
    have hlen := hframe.slots
    rw [hnil] at hlen
    exact h.slots (eq_nil_of_length_eq_zero hlen.symm)

lemma mem_freeSlots {exclude : Nat} (h : i ∈ freeSlots slots exclude) : slots[i]? = some none ∧ i ≠ exclude := by
  have hcond := (mem_filter.1 h).2
  rw [Bool.and_eq_true, decide_eq_true_eq, bne_iff_ne] at hcond
  exact hcond

lemma freeSlots_nodup (slots : List (Option SlotTask)) (exclude : Nat) : (freeSlots slots exclude).Nodup :=
  nodup_range.filter _

lemma length_freeSlots (h : ∀ slot ∈ slots, slot.isSome = false) (exclude : Nat) :
    slots.length - 1 ≤ (freeSlots slots exclude).length := by
  have heq : freeSlots slots exclude = (List.range slots.length).erase exclude := by
    rw [nodup_range.erase_eq_filter, freeSlots]
    apply filter_congr
    intro i hi
    have hlt : i < slots.length := mem_range.1 hi
    have hnone : slots[i]? = some none := by
      rw [getElem?_eq_getElem hlt]
      exact congrArg some (Option.not_isSome_iff_eq_none.1 (Bool.eq_false_iff.1 (h _ (getElem_mem hlt))))
    rw [hnone, decide_eq_true rfl, Bool.true_and]
  rw [heq]
  have hle := @List.le_length_erase Nat _ _ exclude (List.range slots.length)
  rwa [length_range] at hle

lemma place_other {j : Nat} (t : SlotTask) (h : i ≠ j) : (place s i t).slots[j]? = s.slots[j]? :=
  getElem?_set_ne h

lemma placeChildren_spec (idParent : Nat) {pairs : List (Nat × Nat)}
    (hfree : ∀ p ∈ pairs, s.slots[p.1]? = some none) (hnodup : (pairs.map (·.1)).Nodup) :
    (∀ a, (places (placeChildren s idParent pairs)).count a = (places s).count a + (pairs.map (·.2)).count a) ∧
      Frame s (placeChildren s idParent pairs) [] ∧ (placeChildren s idParent pairs).current = s.current ∧
      ∀ j, j ∉ pairs.map (·.1) → (placeChildren s idParent pairs).slots[j]? = s.slots[j]? := by
  induction pairs generalizing s with
  | nil => exact ⟨fun _ => rfl, .refl s, rfl, fun _ _ => rfl⟩
  | cons p pairs ih =>
    obtain ⟨i, child⟩ := p
    rw [map_cons, nodup_cons] at hnodup
    obtain ⟨hnotin, hnodup⟩ := hnodup
    have hi : s.slots[i]? = some none := hfree (i, child) mem_cons_self
    have hrest : ∀ p ∈ pairs, (place s i ⟨child, some idParent⟩).slots[p.1]? = some none := by
      intro p hp
      have hne : i ≠ p.1 := by
        rintro rfl
        exact hnotin (mem_map.2 ⟨p, hp, rfl⟩)
      rw [place_other _ hne]
      exact hfree p (mem_cons_of_mem _ hp)
    obtain ⟨hcount, hframe, hcurrent, hother⟩ := ih hrest hnodup
    refine ⟨?_, (frame_place s i _).trans hframe, hcurrent, ?_⟩
    · intro a
      have hone := count_place s a ⟨child, some idParent⟩ hi
      have hmore := hcount a
      simp only [placeChildren, map_cons, count_cons, count_nil] at hone hmore ⊢
      omega
    · intro j hj
      rw [map_cons, mem_cons, not_or] at hj
      rw [placeChildren, hother j hj.2, place_other _ (Ne.symm hj.1)]

lemma map_fst_zip_sublist (is children : List Nat) : ((is.zip children).map (·.1)).Sublist is := by
  induction is generalizing children with
  | nil => exact nil_sublist _
  | cons i is ih =>
    cases children with
    | nil => exact nil_sublist _
    | cons child children => exact (ih children).cons_cons i

lemma launchParent_spec {launched : Nat} (hi : s.slots[i]? = some none)
    (hlen : t.children.length ≤ (freeSlots s.slots i).length) (hall : t.children.length < launched) :
    (∀ a, (places (launchSlotsWithParentTask s t i launched)).count a = (places s).count a + (t.id :: t.children).count a) ∧
      Frame s (launchSlotsWithParentTask s t i launched) [] ∧
      ∃ slot ∈ (launchSlotsWithParentTask s t i launched).slots, slot.isSome = true := by
  have heq : launchSlotsWithParentTask s t i launched =
      place (placeChildren s t.id ((freeSlots s.slots i).zip t.children)) i ⟨t.id, none⟩ := if_pos hall
  have hfree : ∀ p ∈ (freeSlots s.slots i).zip t.children, s.slots[p.1]? = some none := by
    intro p hp
    exact (mem_freeSlots (of_mem_zip hp).1).1
  have hsub := map_fst_zip_sublist (freeSlots s.slots i) t.children
  obtain ⟨hcount, hframe, _, hother⟩ := placeChildren_spec t.id hfree ((freeSlots_nodup s.slots i).sublist hsub)
  have hnotin : i ∉ ((freeSlots s.slots i).zip t.children).map (·.1) := by
    intro hmem
    exact (mem_freeSlots (hsub.subset hmem)).2 rfl
  have hidle := hother i hnotin
  rw [hi] at hidle
  rw [heq]
  refine ⟨?_, hframe.trans (frame_place _ i _), ?_⟩
  · intro a
    have hchildren : ((freeSlots s.slots i).zip t.children).map (·.2) = t.children := map_snd_zip hlen
    have hplace := count_place _ a ⟨t.id, none⟩ hidle
    have hmore := hcount a
    rw [hchildren] at hmore
    simp only [count_cons, count_nil] at hplace ⊢
    omega
  · obtain ⟨hlt, _⟩ := List.getElem?_eq_some_iff.1 hidle
    exact ⟨some ⟨t.id, none⟩, mem_set hlt _, rfl⟩

end Mallana.Server
