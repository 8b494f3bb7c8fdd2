import Mallana.Sched.Scan

/-!
# Computing the splits

A memory agrees with the computed graph on the tensors that are done. Before a split its inputs are done, so their copies have
the values of the graph, and each node of the split reads these values: from a tensor that is done, or from a copy that its
split or an earlier one made. A copy keeps its value, since a tensor is computed once.
-/

namespace Mallana.Sched

open Mallana.Lib List Function

variable {k : Nat} {τ β V : Type} {g : Cgraph τ β} {M : Meaning τ V}

lemma mapM_congr₂ {α α' γ : Type} {f : α → Option γ} {f' : α' → Option γ} {l : List α} {l' : List α'}
    (h : List.Forall₂ (fun a a' => f' a' = f a) l l') : l'.mapM f' = l.mapM f := by
  induction h with
  | nil => rfl
  | cons ha _ ih => rw [mapM_cons, mapM_cons, ha, ih]

namespace Cgraph

lemma fetch_congr {m m' : Memory k τ V} {t : τ} (h : m (.tensor (g.root t)) = m' (.tensor (g.root t))) :
    g.fetch M m t = g.fetch M m' t := by
  unfold fetch
  cases hv : (g.tensor t).viewSrc with
  | none =>
    rw [root_of_plain hv] at h
    exact h
  | some r =>
    rw [root_of_view hv] at h
    exact congrArg (Option.map (M.view t)) h

lemma fetch_isSome {m : Memory k τ V} {t : τ} {v : V} (h : m (.tensor (g.root t)) = some v) : ∃ w, g.fetch M m t = some w := by
  unfold fetch
  cases hv : (g.tensor t).viewSrc with
  | none =>
    rw [root_of_plain hv] at h
    exact ⟨v, h⟩
  | some r =>
    rw [root_of_view hv] at h
    exact ⟨M.view t v, congrArg (Option.map (M.view t)) h⟩

variable [DecidableEq τ] {pre post : List τ} {n : τ} {canRead : Source k τ → Bool} {srcs : τ → List (Source k τ)}
  {m : Memory k τ V}

lemma runNode_of_ne {s : Source k τ} (hne : s ≠ .tensor n) : g.runNode M canRead srcs m n s = m s := by
  unfold runNode
  split
  next => rfl
  next => exact update_of_ne hne _ _

lemma runNode_self {f : τ → Option V} (hview : g.isView n = false)
    (hread : List.Forall₂ (fun t s => (if canRead s then g.fetchSource M m s else none) = f t) (g.tensor n).src (srcs n)) :
    g.runNode M canRead srcs m n (.tensor n) = ((g.tensor n).src.mapM f).map (M.eval n) := by
  unfold runNode
  rw [if_neg (Bool.eq_false_iff.1 hview), update_self, mapM_congr₂ hread]

/-- What the computed graph holds. -/
structure Holding (g : Cgraph τ β) (M : Meaning τ V) (pre : List τ) (m : Memory k τ V) : Prop where
  leaf : ∀ t ∈ g.leafs, m (.tensor t) = some (M.leaf t)
  node : ∀ n ∈ pre, g.isView n = false →
    ∃ vs, (g.tensor n).src.mapM (g.fetch M m) = some vs ∧ m (.tensor n) = some (M.eval n vs)

omit [DecidableEq τ] in
lemma Holding.value (h : g.Holding M pre m) {t : τ} (ht : g.Holds pre (g.root t)) :
    ∃ v, g.fetch M m t = some v := by
  rcases ht with hleaf | ⟨hmem, hview⟩
  · exact fetch_isSome (h.leaf _ hleaf)
  · obtain ⟨vs, -, hv⟩ := h.node _ hmem hview
    exact fetch_isSome hv

omit [DecidableEq τ] in
lemma exists_mapM {α γ : Type} {f : α → Option γ} {l : List α} (h : ∀ a ∈ l, ∃ v, f a = some v) :
    ∃ vs, l.mapM f = some vs := by
  induction l with
  | nil => exact ⟨[], rfl⟩
  | cons a l ih =>
    obtain ⟨v, hv⟩ := h a mem_cons_self
    obtain ⟨vs, hvs⟩ := ih fun a ha => h a (mem_cons_of_mem _ ha)
    exact ⟨v :: vs, by rw [mapM_cons, hv, hvs]; rfl⟩

lemma Holding.computeNode (hg : g.Ordered) (h : g.Holding M pre m) (hnodes : g.nodes = pre ++ n :: post) :
    g.Holding M (pre ++ [n]) (g.computeNode M m n) := by
  have hmem : n ∈ g.nodes := hnodes ▸ mem_append_right _ mem_cons_self
  -- the node is none of the tensors that hold the data so far
  have hother : ∀ t, g.Holds pre t → g.computeNode M m n (.tensor t) = m (.tensor t) := by
    intro t ht
    refine runNode_of_ne fun heq => ?_
    rw [Source.tensor.inj heq] at ht
    rcases ht with hleaf | ⟨hpre, -⟩
    · exact (hg.leaf n hleaf).1 hmem
    · exact hg.notMem_pre hnodes hpre
  have hsame : ∀ x pre' post', g.nodes = pre' ++ x :: post' → (∀ y ∈ pre', y ∈ pre) →
      (g.tensor x).src.mapM (g.fetch M (g.computeNode M m n)) = (g.tensor x).src.mapM (g.fetch M m) := by
    intro x pre' post' hx hsub
    refine mapM_congr₂ (forall₂_same.2 fun t ht => fetch_congr (hother _ ?_))
    exact (hg.holds_src hx ht).imp_right fun h => ⟨hsub _ h.1, h.2⟩
  refine ⟨fun t ht => (hother t (.inl ht)).trans (h.leaf t ht), fun x hx hview => ?_⟩
  rcases mem_append.1 hx with hx | hx
  · obtain ⟨vs, hvs, hv⟩ := h.node x hx hview
    obtain ⟨pre', post', hpre⟩ := append_of_mem hx
    refine ⟨vs, ?_, (hother x (.inr ⟨hx, hview⟩)).trans hv⟩
    rw [hsame x pre' (post' ++ n :: post) ?_ ?_, hvs]
    · rw [hnodes, hpre, append_assoc, cons_append]
    · exact fun y hy => hpre ▸ mem_append_left _ hy
  · obtain rfl := mem_singleton.1 hx
    obtain ⟨vs, hvs⟩ := exists_mapM fun t ht => h.value (hg.holds_src hnodes ht)
    refine ⟨vs, (hsame x pre post hnodes fun _ h => h).trans hvs, ?_⟩
    rw [Cgraph.computeNode, runNode_self hview, hvs]
    · rfl
    · rw [forall₂_map_right_iff, forall₂_same]
      exact fun t _ => rfl

theorem holding_compute (hg : g.Ordered) : g.Holding M g.nodes (g.compute M : Memory k τ V) := by
  refine foldl_scan (P := fun pre (m : Memory k τ V) => g.Holding M pre m) ⟨fun t ht => if_pos ht, nofun⟩ ?_
  exact fun pre n post m hnodes h => h.computeNode hg hnodes

end Cgraph

namespace BackendSched

variable [DecidableEq τ] {S : BackendSched k τ β} {r : SplitGraph k τ} {m m' w : Memory k τ V} {p : SchedSplit k τ}
  {before splits : List (SchedSplit k τ)} {n : τ} {pre post : List τ}

/-- The memory agrees with the graph on the tensors that are done. -/
def Agrees (g : Cgraph τ β) (w : Memory k τ V) (pre : List τ) (m : Memory k τ V) : Prop :=
  ∀ t, g.Holds pre t → m (.tensor t) = w (.tensor t)

/-- The copies of the inputs of the splits have the values of the graph. -/
def Copied (S : BackendSched k τ β) (g : Cgraph τ β) (M : Meaning τ V) (w : Memory k τ V) (splits : List (SchedSplit k τ))
    (m : Memory k τ V) : Prop :=
  ∀ q ∈ splits, ∀ t ∈ q.inputs, m (.copy t q.backendId S.curCopy) = g.fetch M w t

lemma copyInputs (h : Ready S g r.ids r.copies r.srcs before p) (ha : Agrees g w (g.nodes.take p.iStart) m)
    (hc : Copied S g M w before m) :
    Agrees g w (g.nodes.take p.iStart) (p.inputs.foldl (S.copyInput g M r p.backendId) m) ∧
      Copied S g M w (before ++ [p]) (p.inputs.foldl (S.copyInput g M r p.backendId) m) := by
  have hscan : Agrees g w (g.nodes.take p.iStart) (p.inputs.foldl (S.copyInput g M r p.backendId) m) ∧
      Copied S g M w before (p.inputs.foldl (S.copyInput g M r p.backendId) m) ∧
        ∀ t ∈ p.inputs, p.inputs.foldl (S.copyInput g M r p.backendId) m (.copy t p.backendId S.curCopy) = g.fetch M w t := by
    refine foldl_scan (P := fun pre (m : Memory k τ V) => Agrees g w (g.nodes.take p.iStart) m ∧ Copied S g M w before m ∧
      ∀ t ∈ pre, m (.copy t p.backendId S.curCopy) = g.fetch M w t) ⟨ha, hc, nofun⟩ ?_
    rintro pre x post m hinputs ⟨ha, hc, hpre⟩
    obtain ⟨hcopy, hbuft, -, hroot⟩ := h.inputs x (hinputs ▸ mem_append_right _ mem_cons_self)
    have heq : S.copyInput g M r p.backendId m x =
        Function.update m (.copy x p.backendId S.curCopy) (g.fetch M w x) := by
      unfold copyInput
      rw [hcopy]
      simp only [if_pos hbuft]
      rw [Cgraph.fetch_congr (ha _ hroot)]
    have hkeep : ∀ t b, m (.copy t b S.curCopy) = g.fetch M w t →
        S.copyInput g M r p.backendId m x (.copy t b S.curCopy) = g.fetch M w t := by
      intro t b hv
      rw [heq]
      by_cases hsame : Source.copy t b S.curCopy = Source.copy x p.backendId S.curCopy
      · rw [hsame, update_self, (Source.copy.inj hsame).1]
      · rw [update_of_ne hsame, hv]
    refine ⟨fun t ht => ?_, fun q hq t ht => hkeep t _ (hc q hq t ht), fun t ht => ?_⟩
    · have hne : Source.tensor t ≠ .copy x p.backendId S.curCopy := nofun
      rw [heq, update_of_ne hne]
      exact ha t ht
    · rcases mem_append.1 ht with ht | ht
      · exact hkeep t _ (hpre t ht)
      · obtain rfl := mem_singleton.1 ht
        rw [heq, update_self]
  refine ⟨hscan.1, fun q hq t ht => ?_⟩
  rcases mem_append.1 hq with hq | hq
  · exact hscan.2.1 q hq t ht
  · obtain rfl := mem_singleton.1 hq
    exact hscan.2.2 t ht

section
variable (hg : g.Ordered) (hw : g.Holding M g.nodes w) (h : Ready S g r.ids r.copies r.srcs before p)
include hg hw h

lemma runNode_agrees
    (hnodes : g.nodes = pre ++ n :: post) (hn : n ∈ g.segment p) (ha : Agrees g w pre m)
    (hc : Copied S g M w (before ++ [p]) m) :
    Agrees g w (pre ++ [n]) (g.runNode M (S.canRead g r.ids p.backendId) r.srcs m n) ∧
      Copied S g M w (before ++ [p]) (g.runNode M (S.canRead g r.ids p.backendId) r.srcs m n) := by
  have hmem : n ∈ g.nodes := hnodes ▸ mem_append_right _ mem_cons_self
  have hcopy : ∀ (t : τ) (b : Fin (k + 1)), Source.copy t b S.curCopy ≠ .tensor n := fun _ _ => nofun
  refine ⟨fun t ht => ?_, fun q hq t ht => (Cgraph.runNode_of_ne (hcopy t _)).trans (hc q hq t ht)⟩
  by_cases heq : t = n
  · subst heq
    have hview : g.isView t = false := by
      rcases ht with hleaf | ⟨-, hview⟩
      · exact absurd hmem (hg.leaf t hleaf).1
      · exact hview
    obtain ⟨vs, hvs, hv⟩ := hw.node t hmem hview
    rw [Cgraph.runNode_self (f := g.fetch M w) hview ?_, hvs, hv, Option.map_some]
    -- each source is read as the graph has it
    refine (forall₂_iff_get.2 ?_)
    obtain ⟨hlen, hget⟩ := forall₂_iff_get.1 (h.reads t hn hview)
    refine ⟨hlen, fun i hi hi' => ?_⟩
    have hsrc : (g.tensor t).src.get ⟨i, hi⟩ ∈ (g.tensor t).src := get_mem _ _
    rcases hget i hi hi' with ⟨hs, hread⟩ | ⟨hs, q, hq, hb, ht⟩
    · rw [if_pos hread, hs]
      exact Cgraph.fetch_congr (ha _ (hg.holds_src hnodes hsrc))
    · rw [hs]
      have hread : S.canRead g r.ids p.backendId
          (.copy ((g.tensor t).src.get ⟨i, hi⟩) p.backendId S.curCopy) = true := S.supportsOwn p.backendId
      rw [if_pos hread, ← hb]
      exact hc q hq _ ht
  · rw [Cgraph.runNode_of_ne fun h => heq (Source.tensor.inj h)]
    refine ha t (ht.imp_right fun h => ⟨?_, h.2⟩)
    exact (mem_append.1 h.1).resolve_right fun h => heq (mem_singleton.1 h)

lemma computeSplit_agrees
    (hle : p.iStart ≤ p.iEnd) (ha : Agrees g w (g.nodes.take p.iStart) m) (hc : Copied S g M w before m) :
    Agrees g w (g.nodes.take p.iEnd) (S.computeSplit g M r m p) ∧ Copied S g M w (before ++ [p]) (S.computeSplit g M r m p) := by
  have hcopied := copyInputs h ha hc
  have hsplit : g.nodes.take p.iEnd = g.nodes.take p.iStart ++ g.segment p := by
    rw [Cgraph.segment_eq]
    nth_rewrite 1 [← take_append_drop p.iStart (g.nodes.take p.iEnd)]
    rw [take_take, min_eq_left hle]
  have hscan : Agrees g w (g.nodes.take p.iStart ++ g.segment p) (S.computeSplit g M r m p) ∧
      Copied S g M w (before ++ [p]) (S.computeSplit g M r m p) := by
    refine foldl_scan (P := fun pre (m : Memory k τ V) => Agrees g w (g.nodes.take p.iStart ++ pre) m ∧
      Copied S g M w (before ++ [p]) m) ?_ ?_
    · rw [append_nil]
      exact hcopied
    · rintro pre n post m hseg ⟨ha, hc⟩
      have hnodes : g.nodes = (g.nodes.take p.iStart ++ pre) ++ n :: (post ++ g.nodes.drop p.iEnd) := by
        nth_rewrite 1 [← take_append_drop p.iEnd g.nodes]
        rw [hsplit, hseg]
        simp only [append_assoc, cons_append]
      rw [← append_assoc]
      exact runNode_agrees hg hw h hnodes (hseg ▸ mem_append_right _ mem_cons_self) ha hc
  rw [hsplit]
  exact hscan

end

def endOf (start : Nat) (splits : List (SchedSplit k τ)) : Nat := splits.foldl (fun _ p => p.iEnd) start

omit [DecidableEq τ] in
lemma endOf_append (start : Nat) (splits : List (SchedSplit k τ)) (p : SchedSplit k τ) :
    endOf start (splits ++ [p]) = p.iEnd := by rw [endOf, foldl_append, foldl_cons, foldl_nil]

omit [DecidableEq τ] in
lemma endOf_eq {start stop : Nat} (h : Consecutive stop start splits) : endOf start splits = stop := by
  induction splits generalizing start with
  | nil => exact h
  | cons p splits ih => exact ih h.2.2

omit [DecidableEq τ] in
lemma start_eq {start stop : Nat} {after : List (SchedSplit k τ)} (h : Consecutive stop start (before ++ p :: after)) :
    p.iStart = endOf start before ∧ p.iStart ≤ p.iEnd := by
  induction before generalizing start with
  | nil => exact ⟨h.1, h.1 ▸ h.2.1⟩
  | cons q before ih => exact ih h.2.2

theorem computeSplits_agrees (hg : g.Ordered) (hw : g.Holding M g.nodes w) (h : Prepared S g r) :
    Agrees g w g.nodes (S.computeSplits g M r) := by
  have hscan : Agrees g w (g.nodes.take (endOf 0 r.splits)) (S.computeSplits g M r) ∧
      Copied S g M w r.splits (S.computeSplits g M r) := by
    refine foldl_scan (P := fun pre (m : Memory k τ V) => Agrees g w (g.nodes.take (endOf 0 pre)) m ∧ Copied S g M w pre m)
      ⟨fun t ht => ?_, nofun⟩ ?_
    · rcases ht with hleaf | ⟨hnil, -⟩
      · rw [hw.leaf t hleaf]
        exact if_pos hleaf
      · cases hnil
    · rintro before p after m hsplits ⟨ha, hc⟩
      obtain ⟨hstart, hle⟩ := start_eq (hsplits ▸ h.ranges)
      have hready := h.ready before.length p (by rw [hsplits, getElem?_append_right (Nat.le_refl _), Nat.sub_self]; rfl)
      have htake : r.splits.take before.length = before := by
        rw [hsplits, take_left']
        rfl
      rw [htake] at hready
      rw [endOf_append]
      exact computeSplit_agrees hg hw hready hle (hstart ▸ ha) hc
  rw [endOf_eq h.ranges, take_length] at hscan
  exact hscan.1

/-- Splitting preserves the computation, if the late leafs are settled. -/
theorem splitGraph_computes [DecidableEq β] {fixed : BackendIds k τ} (hg : g.Ordered) (hfix : g.Fixable fixed)
    (hset : g.Settled fixed) (hlast : ∀ n, S.supportsOp (Fin.last k) n = true) (h : S.splitGraph g fixed = some r) :
    r.Computes S g := by
  have hp := prepared_of_splitGraph hg hfix hset hlast h
  refine ⟨hp.ranges, fun p hmem n hn hview => ?_, fun p hmem n hn hview => ?_, fun M n hn => ?_⟩
  · obtain ⟨j, hj⟩ := mem_iff_getElem?.mp hmem
    exact (hp.ready j p hj).backend n hn hview
  · obtain ⟨j, hj⟩ := mem_iff_getElem?.mp hmem
    exact ((hp.ready j p hj).reads n hn hview).imp fun _ _ h => h.reads
  · have hw : g.Holding M g.nodes (g.compute M : Memory k τ _) := Cgraph.holding_compute hg
    have ha := computeSplits_agrees hg hw hp
    have hroot := hg.holds_nodes (.inr hn)
    obtain ⟨v, hv⟩ := hw.value hroot
    exact ⟨v, (Cgraph.fetch_congr (ha _ hroot)).trans hv, hv⟩

/-! A leaf that is neither allocated nor an input, a view of it that a node on the first backend reads, and a node on the
second backend that reads the leaf itself. -/

def twoBackends : BackendSched 1 Nat Nat where
  bufts := fun b => b.val
  supportsBuft := fun b t => b.val == t
  supportsOp := fun _ _ => true
  offloadOp := fun _ _ => false
  buftIsHost := fun _ => false
  opOffload := false
  nCopies := 1
  curCopy := 0
  firstSplit := 0
  supportsOwn := fun b => beq_self_eq_true b.val

def lateTensor : Nat → Tensor Nat Nat
  | 0 => ⟨.none, [], none, none, false⟩
  | 1 => ⟨.none, [], none, some ⟨0, true⟩, false⟩
  | 2 => ⟨.none, [], none, some ⟨1, true⟩, false⟩
  | 3 => ⟨.view, [0], some 0, none, false⟩
  | 4 => ⟨.other 0, [1, 3], none, none, false⟩
  | _ => ⟨.other 0, [2, 0], none, none, false⟩

def lateGraph (nodes : List Nat) : Cgraph Nat Nat := ⟨lateTensor, [0, 1, 2], nodes⟩

lemma lateGraph_ordered {nodes : List Nat} (hmem : ∀ n ∈ nodes, n = 3 ∨ n = 4 ∨ n = 5) (hnodup : nodes.Nodup)
    (hsrc : ∀ i (hi : i < nodes.length), ∀ s ∈ (lateTensor nodes[i]).src, s ∈ [0, 1, 2] ∨ s ∈ nodes.take i) :
    (lateGraph nodes).Ordered where
  nodup := hnodup
  leaf := by
    intro t ht
    have ht : t = 0 ∨ t = 1 ∨ t = 2 := by simpa [lateGraph] using ht
    refine ⟨fun hn => ?_, ?_⟩
    · have hn := hmem t hn
      omega
    · rcases ht with rfl | rfl | rfl <;> rfl
  src := forall_before hsrc
  view := by
    intro n hn hview
    rcases hmem n hn with rfl | rfl | rfl
    · exact ⟨0, rfl, rfl⟩
    · cases hview
    · cases hview
  plain := by
    intro n hn hview
    rcases hmem n hn with rfl | rfl | rfl
    · cases hview
    · rfl
    · rfl
  buffer := by
    intro n hn
    rcases hmem n hn with rfl | rfl | rfl <;> rfl
  input := by
    intro n hn
    rcases hmem n hn with rfl | rfl | rfl <;> rfl

omit [DecidableEq τ] in
lemma fixable_none : g.Fixable fun _ => (none : Option (Fin (k + 1))) := by
  intro t b h
  cases h

/-- When the leaf is read before the view, the view is copied to the first backend. -/
theorem splitGraph_computes_settled : ∃ r, twoBackends.splitGraph (lateGraph [5, 3, 4]) (fun _ => none) = some r ∧
      r.splits = [⟨1, 0, 2, []⟩, ⟨0, 2, 3, [3]⟩] ∧ r.Computes twoBackends (lateGraph [5, 3, 4]) := by
  have hsplits : (twoBackends.splitGraph (lateGraph [5, 3, 4]) fun _ => none).map (·.splits) =
      some [⟨1, 0, 2, []⟩, ⟨0, 2, 3, [3]⟩] := by decide +kernel
  obtain ⟨r, hr, hsplits⟩ := Option.map_eq_some_iff.1 hsplits
  refine ⟨r, hr, hsplits, splitGraph_computes (lateGraph_ordered (by decide) (by decide) (by decide)) fixable_none ?_
    (fun _ => rfl) hr⟩
  refine fun pre v post t hnodes => forall_before (P := fun pre v => ((lateGraph [5, 3, 4]).tensor v).viewSrc = some t →
    (lateGraph [5, 3, 4]).Late (fun _ => (none : Option (Fin 2))) t → ∃ n ∈ pre, (lateGraph [5, 3, 4]).isView n = false ∧
      t ∈ ((lateGraph [5, 3, 4]).tensor n).src) ?_ pre v post hnodes
  rintro i hi ht -
  have hi : i = 0 ∨ i = 1 ∨ i = 2 := by
    have hi : i < 3 := hi
    omega
  rcases hi with rfl | rfl | rfl
  · cases ht
  · cases ht
    exact ⟨5, mem_cons_self, rfl, mem_cons_of_mem _ mem_cons_self⟩
  · cases ht

/-- When the view comes first, it is placed on the first backend and the leaf on the second; the node on the first backend
reads the view in place. -/
theorem splitGraph_astray :
    ¬ ∀ (g : Cgraph Nat Nat) (fixed : BackendIds 1 Nat) (r : SplitGraph 1 Nat), g.Ordered → g.Fixable fixed →
      (∀ n, twoBackends.supportsOp (Fin.last 1) n = true) → twoBackends.splitGraph g fixed = some r →
        r.Computes twoBackends g := by
  intro hall
  have hsplit : (twoBackends.splitGraph (lateGraph [3, 4, 5]) fun _ => none).map
      (fun r => (r.splits, r.srcs 4, r.ids 0)) = some ([⟨0, 0, 2, []⟩, ⟨1, 2, 3, []⟩], [.tensor 1, .tensor 3], some 1) := by
    decide +kernel
  obtain ⟨r, hr, heq⟩ := Option.map_eq_some_iff.1 hsplit
  obtain ⟨hsplits, heq⟩ := Prod.mk.inj heq
  obtain ⟨hsrcs, hids⟩ := Prod.mk.inj heq
  have hcomputes := hall _ _ r (lateGraph_ordered (by decide) (by decide) (by decide)) fixable_none (fun _ => rfl) hr
  have hreads := hcomputes.reads ⟨0, 0, 2, []⟩ (hsplits ▸ mem_cons_self) 4 (by decide) rfl
  rw [hsrcs] at hreads
  obtain ⟨-, hrest⟩ := forall₂_cons.1 hreads
  obtain ⟨hread, -⟩ := forall₂_cons.1 hrest
  rcases hread with ⟨-, hread⟩ | hcopy
  · have hbuft : twoBackends.dataBuft (lateGraph [3, 4, 5]) r.ids 3 = some 1 := by
      rw [dataBuft_free rfl]
      exact congrArg (Option.map twoBackends.bufts) hids
    rw [canRead, hbuft] at hread
    cases hread
  · cases hcopy

end BackendSched

end Mallana.Sched
