import Mathlib.Data.Finset.Card
import Mathlib.Data.Finset.Dedup
import Mallana.Lib.Bins
import Mallana.Sched.Compute

/-!
# Inputs of a split

Pass 5 looks at the number of inputs of a split before it adds those of a node, and only when the array is full. So a split
is a bin that is begun anew where it is exactly full (`Lib.load`), and `splitNodes_isSome_iff` says for which graphs and
assignments the array does not overflow, with one copy of the tensors.
-/

namespace Mallana.Sched.BackendSched

open List Lib

variable {k : Nat} {τ β : Type} [DecidableEq τ] (S : BackendSched k τ β) (g : Cgraph τ β) (place : τ → Fin (k + 1))

/-- The backends of all tensors. -/
def placed : BackendIds k τ := fun t => some (place t)

/-- A tensor that backend `b` has to read from a copy. -/
def Crosses (b : Fin (k + 1)) (t : τ) : Prop := place t ≠ b ∧ S.bufferSupported g (placed place) t b = false

instance (b : Fin (k + 1)) (t : τ) : Decidable (S.Crosses g place b t) := instDecidableAnd

/-- The nodes that compute something. -/
def computed : List τ := g.nodes.filter fun n => !g.isView n

/-- The sources that need a copy on the backend of node `n`, and that no earlier node on that backend has. -/
def newSources (before : List τ) (n : τ) : Finset τ :=
  {t ∈ (g.tensor n).src.toFinset | S.Crosses g place (place n) t ∧
    ∀ m ∈ before, place m = place n → t ∉ (g.tensor m).src}

/-- How many inputs node `i` adds. -/
def adds (ns : List τ) (i : Nat) : Nat := (ns[i]?.map fun n => (S.newSources g place (ns.take i) n).card).getD 0

/-- Node `i` begins a split whatever the number of inputs: it is on another backend than the node before it, or has a
weight of another backend. -/
def Breaks (ns : List τ) (i : Nat) : Prop :=
  i = 0 ∨ ns[i]?.map place ≠ ns[i - 1]?.map place ∨
    ∃ n ∈ ns[i]?, ∃ t ∈ (g.tensor n).src, S.weightElsewhere g (placed place) (place n) t = true

instance (ns : List τ) : DecidablePred (S.Breaks g place ns) := fun _ => inferInstanceAs (Decidable (_ ∨ _ ∨ _))

/-- The inputs that sources add to the current split: those without a copy on its backend. -/
def newInputs (s : Splitting k τ) (srcs : List τ) : Finset τ :=
  {t ∈ srcs.toFinset | S.Crosses g place s.split.backendId t ∧ s.copies t s.split.backendId = none}

/-- The splits when the sources of a node are looked at. -/
def entered (s : Splitting k τ) (node : τ) (i : Nat) : Splitting k τ :=
  if place node ≠ s.split.backendId || S.needNewSplit g (placed place) s node then newSplit s (place node) i else s

/-- The splits after the computed nodes `pre`: the backend of the last one, and the copies that their sources needed. -/
structure After (pre : List τ) (s : Splitting k τ) : Prop where
  backend : ∀ m ∈ pre.getLast?, s.split.backendId = place m
  copies : ∀ t b, s.copies t b = none ↔ ¬ ∃ m ∈ pre, place m = b ∧ t ∈ (g.tensor m).src ∧ S.Crosses g place b t

variable {S} {s : Splitting k τ} {t node : τ} {nodes pre : List τ} {i : Nat}

lemma splitSource_one (hone : S.nCopies = 1) : S.splitSource g (placed place) s t =
    if S.Crosses g place s.split.backendId t then do
      let s ← addInput s t
      let f ← s.copies t s.split.backendId
      some (s, f S.curCopy)
    else some (s, .tensor t) := by
  have hinput : ∀ b, S.addGraphInput g s t b = some s := fun b => by simp [addGraphInput, hone]
  unfold splitSource
  rw [show placed place t = some (place t) from rfl, Option.bind_eq_bind, Option.bind_some, hinput, Option.bind_eq_bind,
    Option.bind_some]
  simp [Crosses]

/-- What the sources of a node leave behind: the current split with its inputs, and the copies. -/
structure Consumed (s : Splitting k τ) (srcs : List τ) (s' : Splitting k τ) : Prop where
  backend : s'.split.backendId = s.split.backendId
  inputs : s'.split.inputs.length = s.split.inputs.length + (S.newInputs g place s srcs).card
  copies : ∀ t b, s'.copies t b = none ↔
    s.copies t b = none ∧ ¬ (b = s.split.backendId ∧ t ∈ srcs ∧ S.Crosses g place b t)

/-- The splits after a source that gets a copy. -/
def withInput (s : Splitting k τ) (t : τ) : Splitting k τ :=
  { setCopies s t s.split.backendId fun c => .copy t s.split.backendId c with
    split := { s.split with inputs := s.split.inputs ++ [t] } }

lemma copies_withInput (x : τ) (b : Fin (k + 1)) :
    (withInput s t).copies x b = none ↔ s.copies x b = none ∧ ¬ (b = s.split.backendId ∧ x = t) := by
  by_cases hx : x = t
  · by_cases hb : b = s.split.backendId
    · simp [withInput, setCopies, hx, hb]
    · simp [withInput, setCopies, hx, hb]
  · simp [withInput, setCopies, hx]

/-- A copy makes a tensor an input once. -/
lemma card_newInputs_cons (srcs : List τ) (hcross : S.Crosses g place s.split.backendId t)
    (hnone : s.copies t s.split.backendId = none) :
    (S.newInputs g place s (t :: srcs)).card = (S.newInputs g place (withInput s t) srcs).card + 1 := by
  have hb : (withInput s t).split.backendId = s.split.backendId := rfl
  have hinputs : S.newInputs g place s (t :: srcs) = insert t (S.newInputs g place (withInput s t) srcs) := by
    ext x
    by_cases hx : x = t
    · simp [newInputs, hx, hcross, hnone]
    · simp [newInputs, hb, copies_withInput, hx]
  have hnotMem : t ∉ S.newInputs g place (withInput s t) srcs := by
    simp [newInputs, hb, copies_withInput]
  rw [hinputs, Finset.card_insert_of_notMem hnotMem]

lemma newInputs_skip {srcs : List τ}
    (hold : ¬ (S.Crosses g place s.split.backendId t ∧ s.copies t s.split.backendId = none)) :
    S.newInputs g place s (t :: srcs) = S.newInputs g place s srcs := by
  rw [newInputs, toFinset_cons, Finset.filter_insert, if_neg hold]
  rfl

/-- A source that is copied. -/
lemma Consumed.input {s' : Splitting k τ} {srcs : List τ} (hcross : S.Crosses g place s.split.backendId t)
    (hnone : s.copies t s.split.backendId = none) (h : Consumed (S := S) g place (withInput s t) srcs s') :
    Consumed (S := S) g place s (t :: srcs) s' := by
  have hb : (withInput s t).split.backendId = s.split.backendId := rfl
  refine ⟨h.backend.trans hb, ?_, ?_⟩
  · have hlen : (withInput s t).split.inputs.length = s.split.inputs.length + 1 := length_append
    rw [card_newInputs_cons g place _ hcross hnone, h.inputs, hlen]
    omega
  · intro x b
    rw [h.copies, copies_withInput, hb]
    by_cases hx : x = t
    · subst hx
      by_cases hbb : b = s.split.backendId
      · simp [hbb, hcross]
      · simp [hbb]
    · simp [hx]

/-- A source that is not copied, or was before: nothing changes. -/
lemma Consumed.skip {s' : Splitting k τ} {srcs : List τ}
    (hold : ¬ (S.Crosses g place s.split.backendId t ∧ s.copies t s.split.backendId = none))
    (h : Consumed (S := S) g place s srcs s') : Consumed (S := S) g place s (t :: srcs) s' := by
  refine ⟨h.backend, by rw [newInputs_skip g place hold]; exact h.inputs, ?_⟩
  intro x b
  rw [h.copies]
  refine and_congr_right fun hnone => not_congr ?_
  constructor
  · rintro ⟨hb, hmem, hcross⟩
    exact ⟨hb, mem_cons_of_mem t hmem, hcross⟩
  · rintro ⟨hb, hmem, hcross⟩
    rcases mem_cons.1 hmem with rfl | hmem
    · rw [hb] at hcross hnone
      exact absurd ⟨hcross, hnone⟩ hold
    · exact ⟨hb, hmem, hcross⟩

/-- The sources of a node are copied, unless they are too many for the split. -/
lemma splitSources_spec (srcs : List τ) (hone : S.nCopies = 1) (hle : s.split.inputs.length ≤ maxSplitInputs) :
    (∃ s' rs, S.splitSources g (placed place) s srcs = some (s', rs) ∧ Consumed (S := S) g place s srcs s' ∧
        s'.split.inputs.length ≤ maxSplitInputs) ∨
      S.splitSources g (placed place) s srcs = none ∧
        maxSplitInputs < s.split.inputs.length + (S.newInputs g place s srcs).card := by
  induction srcs generalizing s with
  | nil => exact .inl ⟨s, [], rfl, ⟨rfl, rfl, by simp⟩, hle⟩
  | cons t srcs ih =>
    rw [splitSources, splitSource_one g place hone]
    by_cases hnew : S.Crosses g place s.split.backendId t ∧ s.copies t s.split.backendId = none
    · obtain ⟨hcross, hnone⟩ := hnew
      have hcard := card_newInputs_cons g place srcs hcross hnone
      rw [if_pos hcross, addInput, hnone]
      dsimp only
      split
      next hlt =>
        have hlen : (withInput s t).split.inputs.length = s.split.inputs.length + 1 := length_append
        have hcopy : (withInput s t).copies t (withInput s t).split.backendId =
            some fun c => .copy t s.split.backendId c := by
          simp [withInput, setCopies]
        change (∃ s' rs, ((some (withInput s t)).bind _).bind _ = _ ∧ _ ∧ _) ∨ ((some (withInput s t)).bind _).bind _ = _ ∧ _
        simp only [Option.bind_eq_bind, Option.bind_some, hcopy]
        obtain ⟨s', rs, hs', hconsumed, hle'⟩ | ⟨hs', hcount⟩ := ih (s := withInput s t) (by omega)
        · exact .inl ⟨s', _, by rw [hs']; rfl, hconsumed.input g place hcross hnone, hle'⟩
        · exact .inr ⟨by rw [hs']; rfl, by omega⟩
      next hfull => exact .inr ⟨rfl, by omega⟩
    · have hsame : ∃ r, (if S.Crosses g place s.split.backendId t then do
          let s ← addInput s t
          let f ← s.copies t s.split.backendId
          some (s, f S.curCopy)
        else some (s, .tensor t)) = some (s, r) := by
        by_cases hcross : S.Crosses g place s.split.backendId t
        · obtain ⟨f, hf⟩ := Option.ne_none_iff_exists'.1 (not_and.1 hnew hcross)
          rw [if_pos hcross, addInput, hf]
          simp [hf]
        · exact ⟨_, if_neg hcross⟩
      obtain ⟨r, hr⟩ := hsame
      rw [hr, newInputs_skip g place hnew]
      simp only [Option.bind_eq_bind, Option.bind_some]
      obtain ⟨s', rs, hs', hconsumed, hle'⟩ | ⟨hs', hcount⟩ := ih hle
      · exact .inl ⟨s', r :: rs, by rw [hs']; rfl, hconsumed.skip g place hnew, hle'⟩
      · exact .inr ⟨by rw [hs']; rfl, hcount⟩

/-- What a node adds is told by the nodes before it. -/
lemma newInputs_after {s' : Splitting k τ} (h : After (S := S) g place pre s) (hcopies : s'.copies = s.copies)
    (hb : s'.split.backendId = place node) :
    S.newInputs g place s' (g.tensor node).src = S.newSources g place pre node := by
  ext t
  rw [newInputs, newSources, Finset.mem_filter, Finset.mem_filter, hb, hcopies, h.copies]
  refine and_congr_right fun _ => and_congr_right fun hcross => ?_
  constructor
  · intro hno m hm hplace hmem
    exact hno ⟨m, hm, hplace, hmem, hcross⟩
  · rintro hno ⟨m, hm, hplace, hmem, -⟩
    exact hno m hm hplace hmem

section Node
variable {ns rest : List τ}

omit [DecidableEq τ] in
lemma getElem?_after (hns : ns = pre ++ node :: rest) : ns[pre.length]? = some node := by
  rw [hns, getElem?_append_right (Nat.le_refl _), Nat.sub_self]
  rfl

lemma adds_after (hns : ns = pre ++ node :: rest) :
    S.adds g place ns pre.length = (S.newSources g place pre node).card := by
  rw [adds, getElem?_after hns, hns, take_left]
  rfl

omit [DecidableEq τ] in
/-- With an empty split there is nothing to begin anew. -/
lemma needNewSplit_nil (hnil : s.split.inputs = []) : S.needNewSplit g (placed place) s node = false := by
  rw [needNewSplit, hnil]
  rfl

/-- A node on the backend of the split wants another one for a weight, or for an input of a full split. -/
lemma needNewSplit_iff (h : After (S := S) g place pre s) (hplace : place node = s.split.backendId)
    (hpos : s.split.inputs ≠ []) : S.needNewSplit g (placed place) s node = true ↔
      (∃ t ∈ (g.tensor node).src, S.weightElsewhere g (placed place) (place node) t = true) ∨
        s.split.inputs.length = maxSplitInputs ∧ 0 < (S.newSources g place pre node).card := by
  have hmany : ∀ t, S.tooManyInputs g (placed place) s t = true ↔ s.split.inputs.length = maxSplitInputs ∧
      S.Crosses g place s.split.backendId t ∧ s.copies t s.split.backendId = none := by
    intro t
    simp only [tooManyInputs, Crosses, placed, Bool.and_eq_true, decide_eq_true_eq, Bool.not_eq_true', ne_eq,
      Option.some.injEq, Option.isNone_iff_eq_none]
    tauto
  have hnew : 0 < (S.newSources g place pre node).card ↔ ∃ t ∈ (g.tensor node).src,
      S.Crosses g place s.split.backendId t ∧ s.copies t s.split.backendId = none := by
    rw [← newInputs_after g place h rfl hplace.symm, Finset.card_pos, Finset.Nonempty]
    simp only [newInputs, Finset.mem_filter, mem_toFinset]
  rw [needNewSplit, Bool.and_eq_true, any_eq_true, hnew, hplace]
  simp only [Bool.or_eq_true, hmany, decide_eq_true_eq]
  constructor
  · rintro ⟨-, t, ht, hweight | ⟨hlen, hcross⟩⟩
    · exact .inl ⟨t, ht, hweight⟩
    · exact .inr ⟨hlen, t, ht, hcross⟩
  · rintro (⟨t, ht, hweight⟩ | ⟨hlen, t, ht, hcross⟩)
    · exact ⟨hpos, t, ht, .inl hweight⟩
    · exact ⟨hpos, t, ht, .inr ⟨hlen, hcross⟩⟩

/-- A node at a break enters an empty split, and so does one that adds an input to a full one. -/
lemma entered_inputs (hns : ns = pre ++ node :: rest) (h : After (S := S) g place pre s)
    (hcount : s.split.inputs.length = load maxSplitInputs (S.adds g place ns) (S.Breaks g place ns) pre.length) :
    (S.entered g place s node i).split.inputs.length + (S.newSources g place pre node).card =
      load maxSplitInputs (S.adds g place ns) (S.Breaks g place ns) (pre.length + 1) := by
  have hget := getElem?_after hns
  rw [load, adds_after g place hns, ← hcount]
  by_cases hplace : place node = s.split.backendId
  · have hstay : S.entered g place s node i =
        if S.needNewSplit g (placed place) s node = true then newSplit s (place node) i else s := by
      simp [entered, hplace]
    rw [hstay]
    by_cases hnil : s.split.inputs = []
    · -- the split is empty: it does not matter whether it is begun anew
      simp [needNewSplit_nil, hnil]
    · have hne : pre ≠ [] := by
        rintro rfl
        exact hnil (eq_nil_of_length_eq_zero hcount)
      have hlast : ns[pre.length - 1]? = pre.getLast? := by
        rw [hns, getElem?_append_left (by have := length_pos_of_ne_nil hne; omega), getLast?_eq_getElem?]
      have hbreaks : S.Breaks g place ns pre.length ↔
          ∃ t ∈ (g.tensor node).src, S.weightElsewhere g (placed place) (place node) t = true := by
        obtain ⟨m, hm⟩ := Option.ne_none_iff_exists'.1 (mt getLast?_eq_none_iff.1 hne)
        have hsame : place node = place m := hplace.trans (h.backend m hm)
        simp [Breaks, hget, hlast, hm, hne, hsame]
      have hneed := needNewSplit_iff g place h hplace hnil
      by_cases hnew : S.needNewSplit g (placed place) s node = true
      · rw [if_pos hnew, if_pos (by rw [hbreaks]; exact hneed.1 hnew)]
        exact zero_add _
      · rw [if_neg hnew, if_neg (by rw [hbreaks]; exact mt hneed.2 hnew)]
  · have hsplit : (S.entered g place s node i).split.inputs.length = 0 := by
      simp [entered, hplace, newSplit]
    rw [hsplit, zero_add]
    rcases eq_nil_or_concat pre with rfl | ⟨before, m, rfl⟩
    · rw [if_pos (.inl (.inl rfl))]
    · have hlast : ns[(before.concat m).length - 1]? = some m := by
        simp [hns]
      have hm : s.split.backendId = place m := h.backend m (by simp)
      have hdiffer : ns[(before.concat m).length]?.map place ≠ ns[(before.concat m).length - 1]?.map place := by
        rw [hget, hlast, Option.map_some, Option.map_some, ne_eq, Option.some.injEq, ← hm]
        exact hplace
      rw [if_pos (.inl (.inr (.inl hdiffer)))]

omit [DecidableEq τ] in
lemma entered_backend (s : Splitting k τ) (node : τ) (i : Nat) :
    (S.entered g place s node i).split.backendId = place node := by
  unfold entered
  split
  · rfl
  · next hstay =>
    by_contra hne
    exact hstay (by simp [Ne.symm hne])

omit [DecidableEq τ] in
lemma entered_copies (s : Splitting k τ) (node : τ) (i : Nat) : (S.entered g place s node i).copies = s.copies := by
  unfold entered
  split <;> rfl

/-- One node more. -/
lemma After.snoc {s' s'' : Splitting k τ} (h : After (S := S) g place pre s) (hcopies : s'.copies = s.copies)
    (hb : s'.split.backendId = place node) (hs : Consumed (S := S) g place s' (g.tensor node).src s'') :
    After (S := S) g place (pre ++ [node]) s'' := by
  constructor
  · intro m hm
    rw [getLast?_concat, Option.mem_some] at hm
    rw [hs.backend, hb, hm]
  · intro t b
    rw [hs.copies, hcopies, h.copies, hb, ← not_or]
    refine not_congr ?_
    simp only [mem_append, mem_singleton]
    constructor
    · rintro (⟨m, hm, hplace, hmem, hcross⟩ | ⟨hbn, hmem, hcross⟩)
      · exact ⟨m, .inl hm, hplace, hmem, hcross⟩
      · exact ⟨node, .inr rfl, hbn.symm, hmem, hcross⟩
    · rintro ⟨m, hm | rfl, hplace, hmem, hcross⟩
      · exact .inl ⟨m, hm, hplace, hmem, hcross⟩
      · exact .inr ⟨hplace.symm, hmem, hcross⟩

/-- A node goes into the bin, or the assertion fails. -/
lemma splitNode_spec (hone : S.nCopies = 1) (hview : g.isView node = false) (hns : ns = pre ++ node :: rest)
    (h : After (S := S) g place pre s)
    (hcount : s.split.inputs.length = load maxSplitInputs (S.adds g place ns) (S.Breaks g place ns) pre.length)
    (hle : s.split.inputs.length ≤ maxSplitInputs) :
    (∃ s', S.splitNode g (placed place) s node i = some s' ∧ After (S := S) g place (pre ++ [node]) s' ∧
      s'.split.inputs.length = load maxSplitInputs (S.adds g place ns) (S.Breaks g place ns) (pre.length + 1) ∧
      s'.split.inputs.length ≤ maxSplitInputs) ∨
    S.splitNode g (placed place) s node i = none ∧
      maxSplitInputs < load maxSplitInputs (S.adds g place ns) (S.Breaks g place ns) (pre.length + 1) := by
  have hb := S.entered_backend g place s node i
  have hcopies := S.entered_copies g place s node i
  have hsum := entered_inputs g place (i := i) hns h hcount
  have hentered : (S.entered g place s node i).split.inputs.length ≤ maxSplitInputs := by
    unfold entered
    split
    · exact Nat.zero_le _
    · exact hle
  have hnode : S.splitNode g (placed place) s node i =
      (S.splitSources g (placed place) (S.entered g place s node i) (g.tensor node).src).bind fun r =>
        some { r.1 with srcs := Function.update r.1.srcs node r.2 } := by
    unfold splitNode
    rw [hview]
    rfl
  rw [hnode, ← hsum, ← newInputs_after g place h hcopies hb]
  obtain ⟨s', rs, hs', hconsumed, hle'⟩ | ⟨hs', hcount'⟩ :=
    splitSources_spec g place (g.tensor node).src hone hentered
  · rw [hs']
    refine .inl ⟨_, rfl, ?_, hconsumed.inputs, hle'⟩
    have hafter := h.snoc g place hcopies hb hconsumed
    exact ⟨hafter.backend, hafter.copies⟩
  · rw [hs']
    exact .inr ⟨rfl, hcount'⟩

/-- The rest of the nodes go through if and only if no bin overflows from here on. -/
lemma isSome_splitNodes (hone : S.nCopies = 1) (nodes : List τ) (hns : ns = pre ++ nodes.filter fun n => !g.isView n)
    (h : After (S := S) g place pre s)
    (hcount : s.split.inputs.length = load maxSplitInputs (S.adds g place ns) (S.Breaks g place ns) pre.length)
    (hle : s.split.inputs.length ≤ maxSplitInputs) :
    (S.splitNodes g (placed place) s nodes i).isSome = true ↔ ∀ j, pre.length ≤ j → j < ns.length →
      load maxSplitInputs (S.adds g place ns) (S.Breaks g place ns) (j + 1) ≤ maxSplitInputs := by
  induction nodes generalizing s i pre with
  | nil =>
    refine iff_of_true rfl fun j hlow hhigh => ?_
    rw [hns, filter_nil, append_nil] at hhigh
    omega
  | cons node nodes ih =>
    rw [splitNodes]
    cases hview : g.isView node with
    | true =>
      have hskip : S.splitNode g (placed place) s node i = some s := by simp [splitNode, hview]
      rw [hskip, Option.bind_eq_bind, Option.bind_some]
      exact ih (by rw [hns]; simp [hview]) h hcount hle
    | false =>
      have hns' : ns = pre ++ node :: nodes.filter fun n => !g.isView n := by rw [hns]; simp [hview]
      have hlt : pre.length < ns.length := by rw [hns', length_append, length_cons]; omega
      obtain ⟨s', hs', hafter, hload, hle'⟩ | ⟨hs', hover⟩ :=
        splitNode_spec g place (i := i) hone hview hns' h hcount hle
      · rw [hs', Option.bind_eq_bind, Option.bind_some,
          ih (by rw [hns', append_assoc, singleton_append]) hafter (by rw [hload, length_append, length_singleton]) hle',
          length_append, length_singleton]
        constructor
        · intro hrest j hlow hhigh
          rcases Nat.eq_or_lt_of_le hlow with rfl | hlow
          · rw [← hload]
            exact hle'
          · exact hrest j hlow hhigh
        · exact fun hall j hlow hhigh => hall j (Nat.le_of_succ_le hlow) hhigh
      · rw [hs']
        refine iff_of_false Bool.false_ne_true fun hall => ?_
        exact Nat.not_lt_of_le (hall pre.length (Nat.le_refl _) hlt) hover

end Node

omit [DecidableEq τ] in
lemma startSplitting_after (b : Fin (k + 1)) : After (S := S) g place [] (startSplitting g b) := by
  constructor
  · intro m hm
    cases hm
  · intro t b
    refine iff_of_true rfl ?_
    rintro ⟨m, hm, -⟩
    exact not_mem_nil hm

/-- With one copy of the tensors, the assertion on the inputs of a split holds throughout pass 5 if and only if the numbers of
new sources of the nodes, summed from a node that begins a split anyway, reach every multiple of 30 that they pass. -/
theorem splitNodes_isSome_iff (S : BackendSched k τ β) (g : Cgraph τ β) (place : τ → Fin (k + 1)) (b : Fin (k + 1))
    (hone : S.nCopies = 1) : (S.splitNodes g (placed place) (startSplitting g b) g.nodes 0).isSome = true ↔
      MeetsMultiples maxSplitInputs (S.adds g place (computed g)) (S.Breaks g place (computed g)) (computed g).length := by
  rw [isSome_splitNodes g place hone g.nodes (show computed g = [] ++ _ from rfl) (startSplitting_after g place b) rfl
    (Nat.zero_le _), ← load_le_iff (show 0 < maxSplitInputs by decide) (.inl rfl)]
  exact ⟨fun h j hj => h j (Nat.zero_le j) hj, fun h j _ hj => h j hj⟩

/-- The nodes from 100 on, the first with one source and the others with two, which are the leafs. -/
def wideGraph (n : Nat) : Cgraph Nat Nat where
  tensor := fun t => ⟨.other 0, if t < 100 then [] else if t = 100 then [0] else [2 * (t - 100) - 1, 2 * (t - 100)], none,
    none, t < 100⟩
  leafs := List.range (2 * n - 1)
  nodes := List.range' 100 n

/-- The leafs are on the second backend. -/
def leafsApart (t : Nat) : Fin 2 := if t < 100 then Fin.last 1 else ⟨0, Nat.two_pos⟩

/-- Without the first node the sums are even: the next 20 nodes reach 30 and fill a second split. -/
def evenGraph : Cgraph Nat Nat := { wideGraph 21 with nodes := List.range' 101 20 }

/-- 20 nodes with two sources each go through. -/
theorem splitNodes_evenGraph : MeetsMultiples maxSplitInputs (twoBackends.adds evenGraph leafsApart (computed evenGraph))
    (twoBackends.Breaks evenGraph leafsApart (computed evenGraph)) (computed evenGraph).length :=
  (splitNodes_isSome_iff twoBackends evenGraph leafsApart 0 rfl).1 (by decide +kernel)

/-- 16 nodes have 31 sources on the other backend: the last one adds two inputs to a split with 29. -/
theorem wideGraph_overflows : ¬ ∀ (g : Cgraph Nat Nat) (place : Nat → Fin 2) (b : Fin 2),
    (∀ n ∈ g.nodes, (g.tensor n).src.length ≤ 10) →
      (twoBackends.splitNodes g (placed place) (startSplitting g b) g.nodes 0).isSome = true := by
  intro h
  have hnone : (twoBackends.splitNodes (wideGraph 16) (placed leafsApart) (startSplitting (wideGraph 16) 0)
      (wideGraph 16).nodes 0).isSome = false := by
    decide +kernel
  have hsome := h (wideGraph 16) leafsApart 0 (by decide)
  rw [hnone] at hsome
  cases hsome

end Mallana.Sched.BackendSched
