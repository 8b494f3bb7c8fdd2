import Mallana.Lib.ListUpdate
import Mathlib.Data.List.ReduceOption

/-!
# The task queue

Model of `server_queue` (post, defer, `pop_deferred_task`, `cleanup_pending_task`), of `process_single_task` as far as it
moves tasks between the queue, the deferred list and the slots, and of `server_slot::release`. A client thread posts or
cancels between any two steps of the server thread; the task that the server thread has taken from the queue is
`current`.

A slot is either idle or has the id of its task. Which idle slot is taken, whether a launch succeeds and when a slot is
done come with the step.
-/

namespace Mallana.Server

/-- `server_task_type`, as far as the queue and the slots are concerned. `immediate`: metrics and adapters. -/
inductive TaskType where
  | completion (idSlot : Option Nat)
  | slotAction (idSlot : Nat)
  | immediate
  | cancel (target : Nat)
  | nextResponse
deriving DecidableEq

/-- A task in the queue, with the ids of its child tasks. -/
structure QueueTask where
  id : Nat
  type : TaskType
  children : List Nat
deriving DecidableEq

/-- The task of a slot. -/
structure SlotTask where
  id : Nat
  idParent : Option Nat
deriving DecidableEq

structure QueueState where
  queue : List QueueTask
  current : Option QueueTask
  deferred : List QueueTask
  slots : List (Option SlotTask)
  answered : List Nat
  posted : List Nat
  cancelled : List Nat
deriving DecidableEq

def QueueTask.isRequest (t : QueueTask) : Bool :=
  match t.type with
  | .completion _ | .slotAction _ | .immediate => true
  | .cancel _ | .nextResponse => false

def QueueTask.needsSlot (t : QueueTask) : Bool :=
  match t.type with
  | .completion _ | .slotAction _ => true
  | _ => false

/-- The slot a task asks for: `id_slot`. -/
def QueueTask.idSlot (t : QueueTask) : Option Nat :=
  match t.type with
  | .completion idSlot => idSlot
  | _ => none

def QueueTask.ids (t : QueueTask) : List Nat := if t.isRequest then t.id :: t.children else []

/-- `server_queue::post`, to the front or to the back. -/
def push (front : Bool) (s : QueueState) (t : QueueTask) : QueueState :=
  { s with queue := if front then t :: s.queue else s.queue ++ [t] }

/-- `server_queue::cleanup_pending_task`. -/
def cleanupPendingTask (s : QueueState) (target : Nat) : QueueState :=
  { s with
    queue := s.queue.filter (·.id != target)
    deferred := s.deferred.filter (·.id != target) }

/-- `server_queue::defer`. -/
def defer (s : QueueState) (t : QueueTask) : QueueState := { s with deferred := s.deferred ++ [t] }

/-- The deferred task that is popped for a slot: one that asks for the slot, or the first. -/
def popIndex (deferred : List QueueTask) (idSlot : Nat) : Nat :=
  (deferred.findIdx? fun t => t.idSlot == some idSlot).getD 0

/-- `server_queue::pop_deferred_task`. -/
def popDeferredTask (s : QueueState) (idSlot : Nat) : QueueState :=
  match s.deferred[popIndex s.deferred idSlot]? with
  | some t => { s with queue := t :: s.queue, deferred := s.deferred.eraseIdx (popIndex s.deferred idSlot) }
  | none => s

/-- `server_slot::release` of a slot that is processing, with its callback. -/
def releaseSlotTask (s : QueueState) (i : Nat) : QueueState := popDeferredTask { s with slots := s.slots.set i none } i

def answer (s : QueueState) (id : Nat) : QueueState := { s with answered := s.answered ++ [id] }

def place (s : QueueState) (i : Nat) (t : SlotTask) : QueueState := { s with slots := s.slots.set i (some t) }

/-- How a task fares: the idle slot that `get_available_slot` selects, whether the task is turned down (a prompt of the
command line that cannot be tokenized, or an action on a slot where `check_no_mtmd` fails), and how many of the launches, of
the children and then of the task itself, succeed. -/
structure Launch where
  slot : Option Nat
  rejected : Bool
  launched : Nat
deriving DecidableEq

/-- The idle slots besides one: `get_free_slots`. -/
def freeSlots (slots : List (Option SlotTask)) (exclude : Nat) : List Nat :=
  (List.range slots.length).filter fun i => decide (slots[i]? = some none) && i != exclude

/-- The slot that a completion comes to; `none` for a selection that cannot be made. -/
def targetSlot (s : QueueState) (idSlot : Option Nat) (o : Launch) : Option (Option Nat) :=
  match idSlot with
  | some k => some (some (k % s.slots.length))
  | none =>
    match o.slot with
    | some i => if s.slots[i]? = some none then some (some i) else none
    | none => if s.slots.all (·.isSome) then some none else none

def placeChildren (s : QueueState) (idParent : Nat) : List (Nat × Nat) → QueueState
  | [] => s
  | (i, child) :: rest => placeChildren (place s i ⟨child, some idParent⟩) idParent rest

def familySlots (slots : List (Option SlotTask)) (idParent : Nat) : List Nat :=
  (List.range slots.length).filter fun i =>
    match slots[i]? with
    | some (some t) => t.id == idParent || t.idParent == some idParent
    | _ => false

/-- `launch_slots_with_parent_task`: if one launch fails, the slots that were launched are released. -/
def launchSlotsWithParentTask (s : QueueState) (t : QueueTask) (i launched : Nat) : QueueState :=
  let free := (freeSlots s.slots i).zip t.children
  if t.children.length < launched then place (placeChildren s t.id free) i ⟨t.id, none⟩
  else
    let failed := answer (placeChildren s t.id (free.take launched)) ((t.children ++ [t.id]).getD launched t.id)
    (familySlots failed.slots t.id).foldl releaseSlotTask failed

def launchTask (s : QueueState) (t : QueueTask) (i launched : Nat) : QueueState :=
  if t.children.isEmpty then if launched = 0 then answer s t.id else place s i ⟨t.id, none⟩
  else if (freeSlots s.slots i).length < t.children.length then defer s t
  else launchSlotsWithParentTask s t i launched

/-- `SERVER_TASK_TYPE_COMPLETION`. -/
def runCompletion (s : QueueState) (t : QueueTask) (idSlot : Option Nat) (o : Launch) : Option QueueState :=
  if o.rejected then if t.children.isEmpty then some (answer s t.id) else none
  else
    match targetSlot s idSlot o with
    | none => none
    | some none => some (defer s t)
    | some (some i) =>
      match s.slots[i]? with
      | some (some _) => some (defer s t)
      | some none => some (launchTask s t i o.launched)
      | none => none

/-- `SERVER_TASK_TYPE_SLOT_SAVE`, `_RESTORE` and `_ERASE`. -/
def runSlotAction (s : QueueState) (t : QueueTask) (idSlot : Nat) (o : Launch) : QueueState :=
  if o.rejected then answer s t.id
  else
    match s.slots[idSlot % s.slots.length]? with
    | some (some _) => defer s t
    | _ => answer s t.id

/-- `SERVER_TASK_TYPE_CANCEL`: the slot with the task is released. -/
def runCancel (s : QueueState) (target : Nat) : QueueState :=
  match s.slots.findIdx? fun slot => slot.any (·.id == target) with
  | some i => releaseSlotTask s i
  | none => s

/-- `process_single_task`. -/
def processSingleTask (s : QueueState) (t : QueueTask) (o : Launch) : Option QueueState :=
  match t.type with
  | .completion idSlot => runCompletion s t idSlot o
  | .slotAction idSlot => some (runSlotAction s t idSlot o)
  | .immediate => some (answer s t.id)
  | .cancel target => some (runCancel s target)
  | .nextResponse => some s

/-- A client posts the tasks of one reader or cancels them all; the server thread takes a task from the queue, processes
it, finishes a slot in `update_slots` with an answer, or posts its own `NEXT_RESPONSE`. -/
inductive QueueEvent where
  | post (tasks : List QueueTask) (front : Bool)
  | cancel (tasks : List QueueTask)
  | take
  | run (o : Launch)
  | finish (i : Nat)
  | next (id : Nat)

/-- `server_response_reader::stop`: for each id the pending task is removed and a task posted to the front. -/
def cancelAll (s : QueueState) (tasks : List QueueTask) : QueueState :=
  tasks.foldl (fun s t =>
    match t.type with
    | .cancel target => { push true (cleanupPendingTask s target) t with cancelled := s.cancelled ++ [target] }
    | _ => s) s

/-- One step; `none` if it cannot be taken. -/
def queueStep (s : QueueState) : QueueEvent → Option QueueState
  | .post tasks front =>
    some { tasks.foldl (push front) s with posted := s.posted ++ tasks.flatMap (·.ids) }
  | .cancel tasks => some (cancelAll s tasks)
  | .take =>
    match s.current, s.queue with
    | none, t :: queue => some { s with current := some t, queue := queue }
    | _, _ => none
  | .run o =>
    match s.current with
    | some t => processSingleTask { s with current := none } t o
    | none => none
  | .finish i =>
    match s.current, s.slots[i]? with
    | none, some (some t) => some (releaseSlotTask (answer s t.id) i)
    | _, _ => none
  | .next id => some (push false s ⟨id, .nextResponse, []⟩)

/-- A server at the beginning: nothing was posted and every slot is idle. -/
def QueueState.Fresh (s : QueueState) : Prop :=
  s.queue = [] ∧ s.current = none ∧ s.deferred = [] ∧ s.answered = [] ∧ s.posted = [] ∧ s.cancelled = [] ∧
    s.slots ≠ [] ∧ ∀ slot ∈ s.slots, slot = none

end Mallana.Server
