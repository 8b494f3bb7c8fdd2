import Mathlib.Data.List.FinRange
import Mathlib.Logic.Function.Basic

/-!
# Splitting a graph over backends

Model of `ggml_backend_sched_split_graph` in `ggml-backend.cpp`, with `ggml_backend_graph_optimize` as the identity, and of
`ggml_backend_sched_compute_splits`, with each input copied in full. A tensor is named by its address, the sources of a tensor
are those that are not null, and the entries of the hash tables are functions of the address. A result `none` is an abort.
The graph copy for the allocator, names and the growth of arrays are left out.
-/

namespace Mallana.Sched

/-- The operations that the scheduler tells apart. -/
inductive GgmlOp where
  | none
  | view
  | reshape
  | permute
  | transpose
  | rope
  | other (id : Nat)
deriving DecidableEq

/-- C++ `ggml_is_view_op`. -/
def ggmlIsViewOp : GgmlOp → Bool
  | .view => true
  | .reshape => true
  | .permute => true
  | .transpose => true
  | _ => false

/-- C++ `ggml_backend_buffer`: its type, and whether it holds weights. -/
structure BackendBuffer (β : Type) where
  buft : β
  weights : Bool

/-- C++ `ggml_tensor`. -/
structure Tensor (τ β : Type) where
  op : GgmlOp
  src : List τ
  viewSrc : Option τ
  buffer : Option (BackendBuffer β)
  input : Bool

/-- C++ `ggml_cgraph`. -/
structure Cgraph (τ β : Type) where
  tensor : τ → Tensor τ β
  leafs : List τ
  nodes : List τ

namespace Cgraph

variable {τ β : Type} (g : Cgraph τ β)

def isView (t : τ) : Bool := ggmlIsViewOp (g.tensor t).op

def root (t : τ) : τ := (g.tensor t).viewSrc.getD t

/-- `tensor->view_src ? tensor->view_src->buffer : tensor->buffer` -/
def bufferOf (t : τ) : Option (BackendBuffer β) :=
  match (g.tensor t).viewSrc with
  | some r => (g.tensor r).buffer
  | none => (g.tensor t).buffer

def isWeight (t : τ) : Bool :=
  match (g.tensor t).buffer with
  | some buffer => buffer.weights
  | none => false

/-- The first source that holds weights; `ROPE` is not placed by its frequencies. -/
def weightSource (t : τ) : Option τ := (g.tensor t).src.find? fun src => (g.tensor t).op ≠ .rope && g.isWeight src

end Cgraph

/-- C++ `GGML_SCHED_MAX_SPLIT_INPUTS`. -/
def maxSplitInputs : Nat := 30

/-- C++ `ggml_backend_sched` with `n_backends = k + 1`. The assertion is that of `ggml_backend_sched_new`. -/
structure BackendSched (k : Nat) (τ β : Type) where
  bufts : Fin (k + 1) → β
  supportsBuft : Fin (k + 1) → β → Bool
  supportsOp : Fin (k + 1) → τ → Bool
  offloadOp : Fin (k + 1) → τ → Bool
  buftIsHost : β → Bool
  opOffload : Bool
  nCopies : Nat
  curCopy : Nat
  /-- What an earlier graph left in `splits[0].backend_id`. -/
  firstSplit : Fin (k + 1)
  supportsOwn : ∀ b, supportsBuft b (bufts b) = true

/-- C++ `hv_tensor_backend_ids`; -1 is `none`. -/
abbrev BackendIds (k : Nat) (τ : Type) : Type := τ → Option (Fin (k + 1))

namespace BackendSched

variable {k : Nat} {τ β : Type} [DecidableEq τ] [DecidableEq β] (S : BackendSched k τ β) (g : Cgraph τ β)

/-- C++ `ggml_backend_sched_backend_from_buffer`. -/
def backendFromBuffer (t op : τ) : Option (Fin (k + 1)) :=
  match g.bufferOf t with
  | none => none
  | some buffer => (List.finRange (k + 1)).find? fun i => S.supportsBuft i buffer.buft && S.supportsOp i op

/-- The backend of a source that is a weight, or one of higher priority that wants to offload the operation. -/
def backendOfWeight (t src : τ) : Option (Fin (k + 1)) :=
  let srcBackend := S.backendFromBuffer g src t
  let isHost := match (g.tensor src).buffer with
    | some buffer => S.buftIsHost buffer.buft
    | none => false
  if S.opOffload && srcBackend = some (Fin.last k) && isHost then
    match (List.finRange (k + 1)).find? fun b => b < Fin.last k && S.supportsOp b t && S.offloadOp b t with
    | some b => some b
    | none => srcBackend
  else srcBackend

/-- C++ `ggml_backend_sched_backend_id_from_cur`. -/
def backendIdFromCur (t : τ) : Option (Option (Fin (k + 1))) :=
  match S.backendFromBuffer g t t with
  | some b => some (some b)
  | none =>
    match (g.tensor t).viewSrc.bind fun r => S.backendFromBuffer g r t with
    | some b => some (some b)
    | none =>
      -- a tensor in a buffer cannot be moved to another backend
      if (g.tensor t).buffer.isSome || ((g.tensor t).viewSrc.bind fun r => (g.tensor r).buffer).isSome then none
      else if (g.tensor t).input then some (some (Fin.last k))
      else some ((g.weightSource t).bind (S.backendOfWeight g t))

/-- C++ `ggml_backend_sched_buffer_supported`. -/
def bufferSupported (ids : BackendIds k τ) (t : τ) (b : Fin (k + 1)) : Bool :=
  match g.bufferOf t with
  | some buffer => S.supportsBuft b buffer.buft
  | none =>
    match (ids t).or ((g.tensor t).viewSrc.bind ids) with
    | some i => S.supportsBuft b (S.bufts i)
    | none => false

def placeTensor (ids : BackendIds k τ) (t : τ) : Option (BackendIds k τ) :=
  match ids t with
  | some _ => some ids
  | none => (S.backendIdFromCur g t).map fun b => Function.update ids t b

def assignAllocated (ids : BackendIds k τ) : Option (BackendIds k τ) :=
  (g.leafs ++ g.nodes).foldlM (S.placeTensor g) ids

def expandNode (skipLast : Bool) (s : Option (Fin (k + 1)) × BackendIds k τ) (node : τ) :
    Option (Fin (k + 1)) × BackendIds k τ :=
  if g.isView node then s
  else
    match s.2 node with
    | some b => (if skipLast && b = Fin.last k then none else some b, s.2)
    | none =>
      match s.1 with
      | some b => (s.1, if S.supportsOp b node then Function.update s.2 node (some b) else s.2)
      | none => s

def expand (skipLast : Bool) (nodes : List τ) (ids : BackendIds k τ) : BackendIds k τ :=
  (nodes.foldl (S.expandNode g skipLast) (none, ids)).2

/-- The backends but the last are expanded down and up, then all of them. -/
def expandAll (ids : BackendIds k τ) : BackendIds k τ :=
  S.expand g false g.nodes.reverse (S.expand g false g.nodes (S.expand g true g.nodes.reverse
    (S.expand g true g.nodes ids)))

def nSupported (ids : BackendIds k τ) (node : τ) (b : Fin (k + 1)) : Nat :=
  ((g.tensor node).src.filter fun src =>
    ((ids src).isSome || ((g.tensor src).viewSrc.bind ids).isSome) && S.bufferSupported g ids src b).length

/-- The backend with the most supported inputs; `n_supported_best` begins at -1. -/
def bestBackend (ids : BackendIds k τ) (node : τ) : Option (Fin (k + 1)) :=
  ((List.finRange (k + 1)).foldl (fun (best : Int × Option (Fin (k + 1))) b =>
    if S.supportsOp b node then
      if best.1 < S.nSupported g ids node b then ((S.nSupported g ids node b : Int), some b) else best
    else best) (-1, none)).2

/-- A backend of higher priority with the same buffer type that supports the operation and the sources. -/
def upgrade (ids : BackendIds k τ) (node : τ) (b : Fin (k + 1)) : Option (Fin (k + 1)) :=
  (List.finRange (k + 1)).find? fun b' => b' < b && S.bufts b' = S.bufts b && S.supportsOp b' node &&
    (g.tensor node).src.all fun src => S.bufferSupported g ids src b'

def upgradeNode (ids : BackendIds k τ) (node : τ) : BackendIds k τ :=
  if g.isView node then ids
  else
    match ids node with
    | none => Function.update ids node (S.bestBackend g ids node)
    | some b =>
      match S.upgrade g ids node b with
      | some b' => Function.update ids node (some b')
      | none => ids

def upgradeAll (ids : BackendIds k τ) : BackendIds k τ := g.nodes.foldl (S.upgradeNode g) ids

def assignSource (node : τ) (ids : BackendIds k τ) (src : τ) : BackendIds k τ :=
  match ids src with
  | some _ => ids
  | none =>
    match (g.tensor src).viewSrc with
    -- views are always on the same backend as the source
    | some r => Function.update ids src (ids r)
    | none => Function.update ids src (ids node)

def assignView (ids : BackendIds k τ) (node : τ) : BackendIds k τ :=
  match ids node, (g.tensor node).viewSrc with
  | none, some r => Function.update ids node (ids r)
  | _, _ => ids

def assignNode (ids : BackendIds k τ) (node : τ) : Option (BackendIds k τ) :=
  let ids := (g.tensor node).src.foldl (assignSource g node) (assignView g ids node)
  match ids node with
  | some _ => some ids
  | none =>
    match (List.finRange (k + 1)).find? fun b => S.supportsOp b node with
    | some b => some (Function.update ids node (some b))
    | none => none

def assignRest (ids : BackendIds k τ) : Option (BackendIds k τ) := g.nodes.foldlM (S.assignNode g) ids

def assignBackends (fixed : BackendIds k τ) : Option (BackendIds k τ) := do
  let ids ← S.assignAllocated g fixed
  S.assignRest g (S.upgradeAll g (S.expandAll g ids))

end BackendSched

/-- A source of a node: a tensor of the graph, or one of the copies of a tensor on a backend. -/
inductive Source (k : Nat) (τ : Type) where
  | tensor (t : τ)
  | copy (t : τ) (b : Fin (k + 1)) (c : Nat)
deriving DecidableEq

/-- C++ `ggml_backend_sched_split`. -/
structure SchedSplit (k : Nat) (τ : Type) where
  backendId : Fin (k + 1)
  iStart : Nat
  iEnd : Nat
  inputs : List τ
deriving DecidableEq

/-- The state of pass 5: the splits before the current one, the current one, `hv_tensor_copies`, the sources of the nodes and
`graph_inputs`. -/
structure Splitting (k : Nat) (τ : Type) where
  closed : List (SchedSplit k τ)
  split : SchedSplit k τ
  copies : τ → Fin (k + 1) → Option (Nat → Source k τ)
  srcs : τ → List (Source k τ)
  graphInputs : List τ

/-- What `ggml_backend_sched_split_graph` leaves behind. -/
structure SplitGraph (k : Nat) (τ : Type) where
  ids : BackendIds k τ
  splits : List (SchedSplit k τ)
  copies : τ → Fin (k + 1) → Option (Nat → Source k τ)
  srcs : τ → List (Source k τ)

namespace BackendSched

variable {k : Nat} {τ β : Type} [DecidableEq τ] (S : BackendSched k τ β) (g : Cgraph τ β)

def weightElsewhere (ids : BackendIds k τ) (cur : Fin (k + 1)) (src : τ) : Bool :=
  g.isWeight src && ids src ≠ some cur && !S.bufferSupported g ids src cur

/-- A source for which a full split would need one more input. -/
def tooManyInputs (ids : BackendIds k τ) (s : Splitting k τ) (src : τ) : Bool :=
  s.split.inputs.length = maxSplitInputs && ids src ≠ some s.split.backendId &&
    (s.copies src s.split.backendId).isNone && !S.bufferSupported g ids src s.split.backendId

def needNewSplit (ids : BackendIds k τ) (s : Splitting k τ) (node : τ) : Bool :=
  s.split.inputs ≠ [] &&
    (g.tensor node).src.any fun src =>
      S.weightElsewhere g ids s.split.backendId src || S.tooManyInputs g ids s src

def setCopies (s : Splitting k τ) (t : τ) (b : Fin (k + 1)) (f : Nat → Source k τ) : Splitting k τ :=
  { s with copies := Function.update s.copies t (Function.update (s.copies t) b (some f)) }

/-- A user input with pipeline parallelism: the tensor is its own current copy. -/
def addGraphInput (s : Splitting k τ) (src : τ) (b : Fin (k + 1)) : Option (Splitting k τ) :=
  if (g.tensor src).input && 1 < S.nCopies && (s.copies src b).isNone then
    if s.graphInputs.length < maxSplitInputs then
      some { setCopies s src b fun c => if c = S.curCopy then .tensor src else .copy src b c with
        graphInputs := s.graphInputs ++ [src] }
    else none
  else some s

/-- An input of the current split is copied to its backend, unless there is a copy. -/
def addInput (s : Splitting k τ) (src : τ) : Option (Splitting k τ) :=
  match s.copies src s.split.backendId with
  | some _ => some s
  | none =>
    if s.split.inputs.length < maxSplitInputs then
      some { setCopies s src s.split.backendId fun c => .copy src s.split.backendId c with
        split := { s.split with inputs := s.split.inputs ++ [src] } }
    else none

/-- A source of a node of the current split, and what the node reads instead. -/
def splitSource (ids : BackendIds k τ) (s : Splitting k τ) (src : τ) : Option (Splitting k τ × Source k τ) := do
  let b ← ids src
  let s ← S.addGraphInput g s src b
  if b ≠ s.split.backendId && !S.bufferSupported g ids src s.split.backendId then
    let s ← addInput s src
    let f ← s.copies src s.split.backendId
    some (s, f S.curCopy)
  else some (s, .tensor src)

def splitSources (ids : BackendIds k τ) : Splitting k τ → List τ → Option (Splitting k τ × List (Source k τ))
  | s, [] => some (s, [])
  | s, src :: srcs => do
    let (s, r) ← S.splitSource g ids s src
    let (s, rs) ← splitSources ids s srcs
    some (s, r :: rs)

/-- The current split ends before the node at `i`, which begins the next. -/
def newSplit (s : Splitting k τ) (b : Fin (k + 1)) (i : Nat) : Splitting k τ :=
  { s with closed := s.closed ++ [{ s.split with iEnd := i }], split := ⟨b, i, i, []⟩ }

def splitNode (ids : BackendIds k τ) (s : Splitting k τ) (node : τ) (i : Nat) : Option (Splitting k τ) :=
  if g.isView node then some s
  else do
    let b ← ids node
    let s := if b ≠ s.split.backendId || S.needNewSplit g ids s node then newSplit s b i else s
    let (s, rs) ← S.splitSources g ids s (g.tensor node).src
    some { s with srcs := Function.update s.srcs node rs }

def splitNodes (ids : BackendIds k τ) : Splitting k τ → List τ → Nat → Option (Splitting k τ)
  | s, [], _ => some s
  | s, node :: nodes, i => do
    let s ← S.splitNode g ids s node i
    splitNodes ids s nodes (i + 1)

def firstBackend (ids : BackendIds k τ) : Option (Fin (k + 1)) :=
  match g.nodes.find? fun n => !g.isView n with
  | some n => ids n
  | none => some S.firstSplit

def startSplitting (b : Fin (k + 1)) : Splitting k τ where
  closed := []
  split := ⟨b, 0, 0, []⟩
  copies := fun _ _ => none
  srcs := fun t => (g.tensor t).src.map .tensor
  graphInputs := []

/-- C++ `ggml_backend_sched_split_graph`, after a reset and with the backends that the user set. -/
def splitGraph [DecidableEq β] (fixed : BackendIds k τ) : Option (SplitGraph k τ) := do
  let ids ← S.assignBackends g fixed
  let b ← S.firstBackend g ids
  let s ← S.splitNodes g ids (startSplitting g b) g.nodes 0
  some ⟨ids, s.closed ++ [{ s.split with iEnd := g.nodes.length }], s.copies, s.srcs⟩

end BackendSched

/-- The data of the leafs, what the operations compute, and what a view shows of the data of its tensor. -/
structure Meaning (τ V : Type) where
  leaf : τ → V
  eval : τ → List V → V
  view : τ → V → V

/-- The contents of the tensors that hold data and of the copies. -/
abbrev Memory (k : Nat) (τ V : Type) : Type := Source k τ → Option V

namespace Cgraph

variable {k : Nat} {τ β V : Type} (g : Cgraph τ β) (M : Meaning τ V)

def fetch (m : Memory k τ V) (t : τ) : Option V :=
  match (g.tensor t).viewSrc with
  | some r => (m (.tensor r)).map (M.view t)
  | none => m (.tensor t)

def fetchSource (m : Memory k τ V) : Source k τ → Option V
  | .tensor t => g.fetch M m t
  | .copy t b c => m (.copy t b c)

variable [DecidableEq τ]

def runNode (canRead : Source k τ → Bool) (srcs : τ → List (Source k τ)) (m : Memory k τ V) (n : τ) : Memory k τ V :=
  if g.isView n then m
  else
    Function.update m (.tensor n)
      (((srcs n).mapM fun s => if canRead s then g.fetchSource M m s else none).map (M.eval n))

def leafMemory : Memory k τ V
  | .tensor t => if t ∈ g.leafs then some (M.leaf t) else none
  | .copy _ _ _ => none

def computeNode (m : Memory k τ V) (n : τ) : Memory k τ V :=
  g.runNode M (fun _ => true) (fun t => (g.tensor t).src.map .tensor) m n

/-- The nodes are computed one after another, with all tensors in one place. -/
def compute : Memory k τ V := g.nodes.foldl (g.computeNode M) (g.leafMemory M)

def segment (p : SchedSplit k τ) : List τ := (g.nodes.drop p.iStart).take (p.iEnd - p.iStart)

end Cgraph

namespace BackendSched

variable {k : Nat} {τ β V : Type} (S : BackendSched k τ β) (g : Cgraph τ β) (ids : BackendIds k τ)

/-- The type of the buffer that holds the data of a tensor. A tensor that is not allocated gets a buffer of its backend, and a
view is in the buffer of its tensor. -/
def dataBuft (t : τ) : Option β :=
  match g.bufferOf t with
  | some buffer => some buffer.buft
  | none => (ids (g.root t)).map S.bufts

def canRead (b : Fin (k + 1)) : Source k τ → Bool
  | .tensor t => (S.dataBuft g ids t).any (S.supportsBuft b)
  | .copy _ i _ => S.supportsBuft b (S.bufts i)

variable [DecidableEq τ] (M : Meaning τ V)

def copyInput (r : SplitGraph k τ) (b : Fin (k + 1)) (m : Memory k τ V) (t : τ) : Memory k τ V :=
  match r.copies t b with
  | some f => Function.update m (f S.curCopy) (if (S.dataBuft g r.ids t).isSome then g.fetch M m t else none)
  | none => m

def computeSplit (r : SplitGraph k τ) (m : Memory k τ V) (p : SchedSplit k τ) : Memory k τ V :=
  (g.segment p).foldl (g.runNode M (S.canRead g r.ids p.backendId) r.srcs)
    (p.inputs.foldl (S.copyInput g M r p.backendId) m)

/-- C++ `ggml_backend_sched_compute_splits`. -/
def computeSplits (r : SplitGraph k τ) : Memory k τ V := r.splits.foldl (S.computeSplit g M r) (g.leafMemory M)

end BackendSched

/-- The splits are ranges, each from the end of the one before it. -/
def Consecutive {k : Nat} {τ : Type} (stop : Nat) : Nat → List (SchedSplit k τ) → Prop
  | start, [] => start = stop
  | start, p :: splits => p.iStart = start ∧ start ≤ p.iEnd ∧ Consecutive stop p.iEnd splits

/-- What a node of a split on the backend reads for a source: the source, in a buffer that the backend supports, or its copy
on the backend. -/
def BackendSched.Reads {k : Nat} {τ β : Type} (S : BackendSched k τ β) (g : Cgraph τ β) (ids : BackendIds k τ)
    (b : Fin (k + 1)) (t : τ) (s : Source k τ) : Prop :=
  s = .tensor t ∧ S.canRead g ids b s = true ∨ s = .copy t b S.curCopy

/-- The splits compute the graph. -/
structure SplitGraph.Computes {k : Nat} {τ β : Type} [DecidableEq τ] (r : SplitGraph k τ) (S : BackendSched k τ β)
    (g : Cgraph τ β) : Prop where
  ranges : Consecutive g.nodes.length 0 r.splits
  backend : ∀ p ∈ r.splits, ∀ n ∈ g.segment p, g.isView n = false → r.ids n = some p.backendId
  reads : ∀ p ∈ r.splits, ∀ n ∈ g.segment p, g.isView n = false →
    List.Forall₂ (S.Reads g r.ids p.backendId) (g.tensor n).src (r.srcs n)
  values : ∀ {V : Type} (M : Meaning τ V), ∀ n ∈ g.nodes,
    ∃ v, g.fetch M (S.computeSplits g M r) n = some v ∧ g.fetch M (g.compute M : Memory k τ V) n = some v

end Mallana.Sched
