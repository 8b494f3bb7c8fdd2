import Mallana.Sched.Assign

/-!
# The splits of a graph

What pass 5 guarantees. The nodes of a split that are not views are on its backend. Its inputs are copied from tensors that
are computed before the split begins, since they are on another backend than all of its nodes so far; and a node reads a copy
only if the tensor is an input of its split, or of an earlier one of the same backend.
-/

namespace Mallana.Sched

open Mallana.Lib List Option Function

variable {k : Nat} {τ β : Type}

lemma Consecutive.append {stop : Nat} {p : SchedSplit k τ} (hle : p.iStart ≤ p.iEnd) (hstop : p.iEnd = stop) :
    ∀ {start : Nat} {splits : List (SchedSplit k τ)}, Consecutive p.iStart start splits →
      Consecutive stop start (splits ++ [p])
  | _, [], h => ⟨h.symm, h ▸ hle, hstop⟩
  | _, _ :: _, ⟨hstart, hend, h⟩ => ⟨hstart, hend, h.append hle hstop⟩

namespace Cgraph

variable {g : Cgraph τ β} {pre post : List τ} {n : τ}

lemma segment_eq (p : SchedSplit k τ) : g.segment p = (g.nodes.take p.iEnd).drop p.iStart := drop_take.symm

lemma segment_subset (p : SchedSplit k τ) : ∀ n ∈ g.segment p, n ∈ g.nodes.take p.iEnd := by
  intro n hn
  rw [segment_eq] at hn
  exact mem_of_mem_drop hn

lemma take_nodes (hnodes : g.nodes = pre ++ post) : g.nodes.take pre.length = pre := by
  rw [hnodes, take_left']
  rfl

lemma segment_next (hnodes : g.nodes = pre ++ n :: post) {p : SchedSplit k τ} (hstart : p.iStart ≤ pre.length) :
    g.segment { p with iEnd := pre.length + 1 } = g.segment { p with iEnd := pre.length } ++ [n] := by
  have hnext : g.nodes = (pre ++ [n]) ++ post := by rw [hnodes, append_assoc, singleton_append]
  have hlen : pre.length + 1 = (pre ++ [n]).length := by rw [length_append, length_singleton]
  rw [segment_eq, segment_eq, take_nodes hnodes, hlen, take_nodes hnext, drop_append_of_le_length hstart]

end Cgraph

namespace BackendSched

variable {S : BackendSched k τ β} {g : Cgraph τ β} {ids : BackendIds k τ} {t : τ} {b cur : Fin (k + 1)}

lemma dataBuft_allocated {buffer : BackendBuffer β} (hbuf : g.bufferOf t = some buffer) :
    S.dataBuft g ids t = some buffer.buft := by
  unfold dataBuft
  rw [hbuf]

lemma dataBuft_free (hbuf : g.bufferOf t = none) : S.dataBuft g ids t = (ids (g.root t)).map S.bufts := by
  unfold dataBuft
  rw [hbuf]

section
variable (hg : g.Ordered) (ha : Assigned S g ids)
include hg ha

section
variable (ht : t ∈ g.leafs ∨ t ∈ g.nodes)
include ht

lemma Assigned.root (hbuf : g.bufferOf t = none) : ids (g.root t) = ids t := by
  rcases hg.viewSrc_of_mem ht with hplain | ⟨hview, hmem⟩
  · rw [Cgraph.root_of_plain hplain]
  · obtain ⟨b, hb, hroot⟩ := ha.view t hmem hview hbuf
    rw [hb, hroot]

lemma Assigned.dataBuft (hbuf : g.bufferOf t = none) (hb : ids t = some b) :
    S.dataBuft g ids t = some (S.bufts b) := by
  rw [dataBuft_free hbuf, ha.root hg ht hbuf, hb, map_some]

lemma Assigned.dataBuft_isSome (hb : ids t = some b) : (S.dataBuft g ids t).isSome = true := by
  cases hbuf : g.bufferOf t with
  | some buffer =>
    rw [dataBuft_allocated hbuf]
    rfl
  | none =>
    rw [ha.dataBuft hg ht hbuf hb]
    rfl

lemma Assigned.canRead (hb : ids t = some b)
    (hstay : b = cur ∨ S.bufferSupported g ids t cur = true) : S.canRead g ids cur (.tensor t) = true := by
  cases hbuf : g.bufferOf t with
  | some buffer =>
    rw [BackendSched.canRead, dataBuft_allocated hbuf, any_some]
    rcases hstay with rfl | hsup
    · obtain ⟨b', hb', hsup⟩ := ha.allocated t ht buffer hbuf
      rw [hb] at hb'
      rwa [Option.some.inj hb']
    · unfold bufferSupported at hsup
      rwa [hbuf] at hsup
  | none =>
    rw [BackendSched.canRead, ha.dataBuft hg ht hbuf hb, any_some]
    rcases hstay with rfl | hsup
    · exact S.supportsOwn b
    · unfold bufferSupported at hsup
      simp only [hbuf, hb, some_or] at hsup
      exact hsup

end

end

/-- What a node of a split on the backend reads for a source, when the copies of the inputs of some splits exist. -/
def ReadsFrom (S : BackendSched k τ β) (g : Cgraph τ β) (ids : BackendIds k τ) (splits : List (SchedSplit k τ))
    (b : Fin (k + 1)) (t : τ) (s : Source k τ) : Prop :=
  s = .tensor t ∧ S.canRead g ids b s = true ∨
    s = .copy t b S.curCopy ∧ ∃ q ∈ splits, q.backendId = b ∧ t ∈ q.inputs

/-- A split that can be computed behind others. -/
structure Ready (S : BackendSched k τ β) (g : Cgraph τ β) (ids : BackendIds k τ)
    (copies : τ → Fin (k + 1) → Option (Nat → Source k τ)) (srcs : τ → List (Source k τ)) (before : List (SchedSplit k τ))
    (p : SchedSplit k τ) : Prop where
  inputs : ∀ t ∈ p.inputs, copies t p.backendId = some (fun c => .copy t p.backendId c) ∧
    (S.dataBuft g ids t).isSome = true ∧ (t ∈ g.leafs ∨ t ∈ g.nodes) ∧ g.Holds (g.nodes.take p.iStart) (g.root t)
  backend : ∀ n ∈ g.segment p, g.isView n = false → ids n = some p.backendId
  reads : ∀ n ∈ g.segment p, g.isView n = false →
    List.Forall₂ (S.ReadsFrom g ids (before ++ [p]) p.backendId) (g.tensor n).src (srcs n)

/-- The nodes before `i` are split. -/
structure Scanned (S : BackendSched k τ β) (g : Cgraph τ β) (ids : BackendIds k τ) (i : Nat) (s : Splitting k τ) :
    Prop where
  ranges : Consecutive s.split.iStart 0 s.closed
  start : s.split.iStart ≤ i
  ends : ∀ p ∈ s.closed, p.iEnd ≤ i
  closed : ∀ j p, s.closed[j]? = some p → Ready S g ids s.copies s.srcs (s.closed.take j) p
  split : Ready S g ids s.copies s.srcs s.closed { s.split with iEnd := i }
  copies : ∀ t b f, s.copies t b = some f → ids t ≠ some b →
    f = (fun c => .copy t b c) ∧ ∃ q ∈ s.closed ++ [s.split], q.backendId = b ∧ t ∈ q.inputs

/-- Each split has its counterpart with the same backend and at least the same inputs. -/
def Covers (splits splits' : List (SchedSplit k τ)) : Prop :=
  ∀ q ∈ splits, ∃ q' ∈ splits', q'.backendId = q.backendId ∧ ∀ t ∈ q.inputs, t ∈ q'.inputs

variable {splits splits' before : List (SchedSplit k τ)} {s s' : Splitting k τ} {src : Source k τ} {i : Nat}
  {p : SchedSplit k τ}

lemma Covers.exists (h : Covers splits splits') (hq : ∃ q ∈ splits, q.backendId = b ∧ t ∈ q.inputs) :
    ∃ q ∈ splits', q.backendId = b ∧ t ∈ q.inputs := by
  obtain ⟨q, hq, rfl, ht⟩ := hq
  obtain ⟨q', hq', hb, hsub⟩ := h q hq
  exact ⟨q', hq', hb, hsub t ht⟩

lemma ReadsFrom.mono (h : S.ReadsFrom g ids splits b t src) (hc : Covers splits splits') :
    S.ReadsFrom g ids splits' b t src := h.imp_right fun h => ⟨h.1, hc.exists h.2⟩

lemma ReadsFrom.reads (h : S.ReadsFrom g ids splits b t src) : S.Reads g ids b t src := h.imp_right And.left

lemma Ready.mono {copies copies' : τ → Fin (k + 1) → Option (Nat → Source k τ)} {srcs srcs' : τ → List (Source k τ)}
    (h : Ready S g ids copies srcs before p) (hcopies : ∀ t b f, copies t b = some f → copies' t b = some f)
    (hsrcs : ∀ n ∈ g.segment p, srcs' n = srcs n) : Ready S g ids copies' srcs' before p := by
  refine ⟨fun t ht => ?_, h.backend, fun n hn hview => ?_⟩
  · obtain ⟨hcopy, hrest⟩ := h.inputs t ht
    exact ⟨hcopies _ _ _ hcopy, hrest⟩
  · rw [hsrcs n hn]
    exact h.reads n hn hview

lemma Scanned.mono (h : Scanned S g ids i s) (hcopies : ∀ t b f, s.copies t b = some f → s'.copies t b = some f)
    (hnew : ∀ t b f, s'.copies t b = some f → ids t ≠ some b → s.copies t b = some f)
    (hclosed : s'.closed = s.closed) (hsplit : s'.split = s.split) (hsrcs : s'.srcs = s.srcs) : Scanned S g ids i s' := by
  refine ⟨?_, ?_, ?_, ?_, ?_, ?_⟩
  · rw [hclosed, hsplit]
    exact h.ranges
  · rw [hsplit]
    exact h.start
  · rw [hclosed]
    exact h.ends
  · rw [hclosed, hsrcs]
    exact fun j p hp => (h.closed j p hp).mono hcopies fun _ _ => rfl
  · rw [hclosed, hsplit, hsrcs]
    exact h.split.mono hcopies fun _ _ => rfl
  · rw [hclosed, hsplit]
    exact fun t b f hf hne => h.copies t b f (hnew t b f hf hne) hne

lemma Covers.last {p p' : SchedSplit k τ} (hb : p'.backendId = p.backendId) (hsub : ∀ t ∈ p.inputs, t ∈ p'.inputs) :
    Covers (before ++ [p]) (before ++ [p']) := by
  intro q hq
  rcases mem_append.1 hq with hq | hq
  · exact ⟨q, mem_append_left _ hq, rfl, fun _ h => h⟩
  · obtain rfl := mem_singleton.1 hq
    exact ⟨p', mem_append_right _ mem_cons_self, hb, hsub⟩

lemma Covers.append (l l' : List (SchedSplit k τ)) : Covers l (l ++ l') :=
  fun q hq => ⟨q, mem_append_left _ hq, rfl, fun _ h => h⟩

section
variable {pre post : List τ} {n : τ} {copies : τ → Fin (k + 1) → Option (Nat → Source k τ)}
  {srcs : τ → List (Source k τ)}

lemma Ready.next (h : Ready S g ids copies srcs before { p with iEnd := pre.length })
    (hnodes : g.nodes = pre ++ n :: post) (hstart : p.iStart ≤ pre.length)
    (hn : g.isView n = false → ids n = some p.backendId ∧
      List.Forall₂ (S.ReadsFrom g ids (before ++ [p]) p.backendId) (g.tensor n).src (srcs n)) :
    Ready S g ids copies srcs before { p with iEnd := pre.length + 1 } := by
  have hsame : ∀ i j, Covers (before ++ [{ p with iEnd := i }]) (before ++ [{ p with iEnd := j }]) := fun i j =>
    Covers.last rfl fun _ h => h
  refine ⟨h.inputs, fun m hm hview => ?_, fun m hm hview => ?_⟩
  · rw [Cgraph.segment_next hnodes hstart] at hm
    rcases mem_append.1 hm with hm | hm
    · exact h.backend m hm hview
    · obtain rfl := mem_singleton.1 hm
      exact (hn hview).1
  · rw [Cgraph.segment_next hnodes hstart] at hm
    rcases mem_append.1 hm with hm | hm
    · exact (h.reads m hm hview).imp fun _ _ h => h.mono (hsame _ _)
    · obtain rfl := mem_singleton.1 hm
      exact (hn hview).2.imp fun _ _ h => h.mono (hsame p.iEnd _)

lemma Scanned.next (h : Scanned S g ids pre.length s) (hnodes : g.nodes = pre ++ n :: post)
    (hn : g.isView n = false → ids n = some s.split.backendId ∧
      List.Forall₂ (S.ReadsFrom g ids (s.closed ++ [s.split]) s.split.backendId) (g.tensor n).src (s.srcs n)) :
    Scanned S g ids (pre.length + 1) s :=
  ⟨h.ranges, Nat.le_succ_of_le h.start, fun p hp => Nat.le_succ_of_le (h.ends p hp), h.closed,
    h.split.next hnodes h.start hn, h.copies⟩

lemma Scanned.newSplit (h : Scanned S g ids i s) (b : Fin (k + 1)) : Scanned S g ids i (newSplit s b i) := by
  refine ⟨Consecutive.append (p := { s.split with iEnd := i }) h.start rfl h.ranges, le_refl i, fun p hp => ?_, fun j p hp => ?_, ?_, fun t b' f hf hne => ?_⟩
  · rcases mem_append.1 hp with hp | hp
    · exact h.ends p hp
    · obtain rfl := mem_singleton.1 hp
      exact le_refl i
  · rcases lt_or_ge j s.closed.length with hlt | hge
    · have hp : s.closed[j]? = some p := (getElem?_append_left hlt).symm.trans hp
      show Ready S g ids s.copies s.srcs ((s.closed ++ _).take j) p
      rw [take_append_of_le_length (le_of_lt hlt)]
      exact h.closed j p hp
    · have hp : [{ s.split with iEnd := i }][j - s.closed.length]? = some p :=
        (getElem?_append_right hge).symm.trans hp
      obtain ⟨hlt, -⟩ := List.getElem?_eq_some_iff.1 hp
      rw [length_singleton, Nat.lt_one_iff] at hlt
      rw [hlt] at hp
      obtain rfl := Option.some.inj hp
      show Ready S g ids s.copies s.srcs ((s.closed ++ _).take j) _
      rw [le_antisymm (Nat.sub_eq_zero_iff_le.1 hlt) hge, take_left']
      · exact h.split
      · rfl
  · have hempty : g.segment ⟨b, i, i, []⟩ = [] := by rw [Cgraph.segment, Nat.sub_self, take_zero]
    refine ⟨fun t ht => absurd ht not_mem_nil, fun n hn => ?_, fun n hn => ?_⟩
    · exact absurd (hempty ▸ hn) not_mem_nil
    · exact absurd (hempty ▸ hn) not_mem_nil
  · obtain ⟨hcopy, hq⟩ := h.copies t b' f hf hne
    have hcovers : Covers (s.closed ++ [s.split]) (s.closed ++ [{ s.split with iEnd := i }]) := .last rfl fun _ h => h
    exact ⟨hcopy, (Covers.append _ _).exists (hcovers.exists hq)⟩

end

/-- Later states of the same split. -/
structure Extends (s s' : Splitting k τ) : Prop where
  closed : s'.closed = s.closed
  srcs : s'.srcs = s.srcs
  backend : s'.split.backendId = s.split.backendId
  inputs : ∀ t ∈ s.split.inputs, t ∈ s'.split.inputs

lemma Extends.trans {s'' : Splitting k τ} (h : Extends s s') (h' : Extends s' s'') : Extends s s'' :=
  ⟨h'.closed.trans h.closed, h'.srcs.trans h.srcs, h'.backend.trans h.backend, fun t ht => h'.inputs t (h.inputs t ht)⟩

lemma Extends.covers (h : Extends s s') : Covers (s.closed ++ [s.split]) (s'.closed ++ [s'.split]) := by
  rw [h.closed]
  exact .last h.backend h.inputs

section
variable [DecidableEq τ]

lemma setCopies_self (s : Splitting k τ) (t : τ) (b : Fin (k + 1)) (f : Nat → Source k τ) :
    (setCopies s t b f).copies t b = some f := by
  show Function.update s.copies t _ t b = _
  rw [update_self, update_self]

lemma setCopies_of_ne (s : Splitting k τ) {t t' : τ} {b b' : Fin (k + 1)} (f : Nat → Source k τ) (hne : ¬ (t' = t ∧ b' = b)) :
    (setCopies s t b f).copies t' b' = s.copies t' b' := by
  show Function.update s.copies t _ t' b' = _
  by_cases ht : t' = t
  · rw [ht, update_self]
    exact update_of_ne (fun hb => hne ⟨ht, hb⟩) _ _
  · rw [update_of_ne ht]

lemma setCopies_grows (s : Splitting k τ) {t : τ} {b : Fin (k + 1)} (f : Nat → Source k τ) (hnone : s.copies t b = none) :
    ∀ t' b' f', s.copies t' b' = some f' → (setCopies s t b f).copies t' b' = some f' := by
  intro t' b' f' hf'
  rw [setCopies_of_ne s f fun heq => ?_, hf']
  rw [heq.1, heq.2, hnone] at hf'
  cases hf'

lemma setCopies_cases {f f' : Nat → Source k τ} {t' : τ} {b' : Fin (k + 1)}
    (h : (setCopies s t b f).copies t' b' = some f') : (t' = t ∧ b' = b ∧ f' = f) ∨ s.copies t' b' = some f' := by
  by_cases heq : t' = t ∧ b' = b
  · rw [heq.1, heq.2, setCopies_self] at h
    exact .inl ⟨heq.1, heq.2, (Option.some.inj h).symm⟩
  · rw [setCopies_of_ne s f heq] at h
    exact .inr h

lemma Scanned.addGraphInput (h : Scanned S g ids i s) (hb : ids t = some b) (hs : S.addGraphInput g s t b = some s') :
    Scanned S g ids i s' ∧ s'.closed = s.closed ∧ s'.split = s.split ∧ s'.srcs = s.srcs := by
  unfold BackendSched.addGraphInput at hs
  split at hs
  next hcond =>
    split at hs
    next =>
      obtain rfl := Option.some.inj hs
      have hnone : s.copies t b = none := isNone_iff_eq_none.1 (Bool.and_eq_true_iff.1 hcond).2
      refine ⟨h.mono (setCopies_grows s _ hnone) (fun t' b' f hf hne => ?_) rfl rfl rfl, rfl, rfl, rfl⟩
      rcases setCopies_cases hf with ⟨rfl, rfl, -⟩ | hf
      · exact absurd hb hne
      · exact hf
    next => cases hs
  next =>
    obtain rfl := Option.some.inj hs
    exact ⟨h, rfl, rfl, rfl⟩

lemma Scanned.addInput (h : Scanned S g ids i s) (hbuft : (S.dataBuft g ids t).isSome = true)
    (ht : t ∈ g.leafs ∨ t ∈ g.nodes) (hroot : g.Holds (g.nodes.take s.split.iStart) (g.root t))
    (hs : addInput s t = some s') : Scanned S g ids i s' ∧ Extends s s' := by
  unfold BackendSched.addInput at hs
  split at hs
  next =>
    obtain rfl := Option.some.inj hs
    exact ⟨h, rfl, rfl, rfl, fun _ h => h⟩
  next hnone =>
    split at hs
    next =>
      obtain rfl := Option.some.inj hs
      have hgrows := setCopies_grows s (fun c => .copy t s.split.backendId c) hnone
      have hcovers : ∀ j, Covers (s.closed ++ [{ s.split with iEnd := j }])
          (s.closed ++ [{ s.split with iEnd := j, inputs := s.split.inputs ++ [t] }]) := fun j =>
        .last rfl fun _ h => mem_append_left _ h
      refine ⟨⟨h.ranges, h.start, h.ends, fun j p hp => (h.closed j p hp).mono hgrows fun _ _ => rfl, ?_, ?_⟩,
        rfl, rfl, rfl, fun _ h => mem_append_left _ h⟩
      · have hready := h.split.mono hgrows fun _ _ => rfl
        refine ⟨fun t' ht' => ?_, hready.backend, fun m hm hview => ?_⟩
        · rcases mem_append.1 ht' with ht' | ht'
          · exact hready.inputs t' ht'
          · obtain rfl := mem_singleton.1 ht'
            exact ⟨setCopies_self s t' _ _, hbuft, ht, hroot⟩
        · exact (hready.reads m hm hview).imp fun _ _ h => h.mono (hcovers i)
      · intro t' b' f hf hne
        rcases setCopies_cases hf with ⟨rfl, rfl, rfl⟩ | hf
        · exact ⟨rfl, _, mem_append_right _ mem_cons_self, rfl, mem_append_right _ mem_cons_self⟩
        · obtain ⟨hcopy, hq⟩ := h.copies t' b' f hf hne
          exact ⟨hcopy, (hcovers s.split.iEnd).exists hq⟩
    next => cases hs

end

section
variable {pre post : List τ} {n : τ} (hg : g.Ordered) (ha : Assigned S g ids)
include hg ha

lemma Scanned.holds_start (h : Scanned S g ids pre.length s) (hnodes : g.nodes = pre ++ n :: post)
    (ht : t ∈ (g.tensor n).src) (hb : ids t = some b) (hne : b ≠ s.split.backendId) :
    g.Holds (g.nodes.take s.split.iStart) (g.root t) := by
  have hn : n ∈ g.nodes := hnodes ▸ mem_append_right _ mem_cons_self
  have hpre := Cgraph.take_nodes hnodes
  rcases hg.holds_src hnodes ht with hleaf | ⟨hmem, hview⟩
  · exact .inl hleaf
  · have hroot : g.root t ∈ g.nodes := hnodes ▸ mem_append_left _ hmem
    have hbuf : g.bufferOf t = none := (Cgraph.bufferOf_eq t).trans (hg.buffer _ hroot)
    have hids : ids (g.root t) = some b := (ha.root hg (hg.mem_of_src hn ht) hbuf).trans hb
    refine .inr ⟨?_, hview⟩
    rw [← hpre, ← take_append_drop s.split.iStart (g.nodes.take pre.length)] at hmem
    rcases mem_append.1 hmem with hmem | hmem
    · rw [take_take, min_eq_left h.start] at hmem
      exact hmem
    · -- the nodes of the split so far are on its own backend
      have hseg : g.root t ∈ g.segment { s.split with iEnd := pre.length } := by
        rw [Cgraph.segment_eq]
        exact hmem
      have hcur := h.split.backend _ hseg hview
      rw [hids] at hcur
      exact absurd (Option.some.inj hcur) hne

variable [DecidableEq τ]

omit hg ha in
lemma Scanned.setSrcs (h : Scanned S g ids i s) (hn : n ∉ g.nodes.take i) (rs : List (Source k τ)) :
    Scanned S g ids i { s with srcs := Function.update s.srcs n rs } := by
  have hother : ∀ p : SchedSplit k τ, p.iEnd ≤ i → ∀ m ∈ g.segment p, Function.update s.srcs n rs m = s.srcs m := by
    intro p hp m hm
    refine update_of_ne (fun heq => hn ?_) _ _
    rw [← heq]
    exact (take_subset_take_left g.nodes hp) (g.segment_subset p m hm)
  refine ⟨h.ranges, h.start, h.ends, fun j p hp => ?_, h.split.mono (fun _ _ _ h => h) (hother _ (le_refl i)), h.copies⟩
  exact (h.closed j p hp).mono (fun _ _ _ h => h) (hother p (h.ends p (mem_of_getElem? hp)))

lemma Scanned.splitSource (h : Scanned S g ids pre.length s) (hnodes : g.nodes = pre ++ n :: post)
    (ht : t ∈ (g.tensor n).src) (hs : S.splitSource g ids s t = some (s', src)) :
    Scanned S g ids pre.length s' ∧ Extends s s' ∧
      S.ReadsFrom g ids (s'.closed ++ [s'.split]) s'.split.backendId t src := by
  have hmem : t ∈ g.leafs ∨ t ∈ g.nodes := hg.mem_of_src (hnodes ▸ mem_append_right _ mem_cons_self) ht
  obtain ⟨b, hb, hs⟩ := bind_eq_some_iff.1 hs
  obtain ⟨s1, hs1, hs⟩ := bind_eq_some_iff.1 hs
  obtain ⟨h1, hclosed, hsplit, hsrcs⟩ := h.addGraphInput hb hs1
  have hext : Extends s s1 := ⟨hclosed, hsrcs, congrArg SchedSplit.backendId hsplit, fun t ht => hsplit ▸ ht⟩
  split at hs
  next hcond =>
    obtain ⟨s2, hs2, hs⟩ := bind_eq_some_iff.1 hs
    obtain ⟨f, hf, hs⟩ := bind_eq_some_iff.1 hs
    obtain ⟨rfl, rfl⟩ := Prod.mk.inj (Option.some.inj hs)
    have hne : b ≠ s1.split.backendId := of_decide_eq_true (Bool.and_eq_true_iff.1 hcond).1
    have hroot := h1.holds_start hg ha hnodes ht hb hne
    obtain ⟨h2, hext2⟩ := h1.addInput (ha.dataBuft_isSome hg hmem hb) hmem hroot hs2
    rw [← hext2.backend] at hne
    obtain ⟨rfl, hq⟩ := h2.copies t _ f hf fun heq => hne (Option.some.inj (hb.symm.trans heq))
    exact ⟨h2, hext.trans hext2, .inr ⟨rfl, hq⟩⟩
  next hcond =>
    obtain ⟨rfl, rfl⟩ := Prod.mk.inj (Option.some.inj hs)
    refine ⟨h1, hext, .inl ⟨rfl, ha.canRead hg hmem hb ?_⟩⟩
    by_contra hno
    rw [not_or, Bool.not_eq_true] at hno
    exact hcond (by rw [hno.2, decide_eq_true hno.1]; rfl)

lemma Scanned.splitSources (hnodes : g.nodes = pre ++ n :: post) :
    ∀ (l : List τ) (s : Splitting k τ) (rs : List (Source k τ)), Scanned S g ids pre.length s →
      (∀ t ∈ l, t ∈ (g.tensor n).src) → S.splitSources g ids s l = some (s', rs) →
        Scanned S g ids pre.length s' ∧ Extends s s' ∧
          List.Forall₂ (S.ReadsFrom g ids (s'.closed ++ [s'.split]) s'.split.backendId) l rs := by
  intro l
  induction l with
  | nil =>
    intro s rs h _ hs
    obtain ⟨rfl, rfl⟩ := Prod.mk.inj (Option.some.inj hs)
    exact ⟨h, ⟨rfl, rfl, rfl, fun _ h => h⟩, .nil⟩
  | cons t l ih =>
    intro s rs h hl hs
    obtain ⟨⟨s1, r⟩, hs1, hs⟩ := bind_eq_some_iff.1 hs
    obtain ⟨⟨s2, rs'⟩, hs2, hs⟩ := bind_eq_some_iff.1 hs
    obtain ⟨rfl, rfl⟩ := Prod.mk.inj (Option.some.inj hs)
    obtain ⟨h1, hext1, hr⟩ := h.splitSource hg ha hnodes (hl t mem_cons_self) hs1
    obtain ⟨h2, hext2, hrs⟩ := ih s1 rs' h1 (fun t ht => hl t (mem_cons_of_mem _ ht)) hs2
    refine ⟨h2, hext1.trans hext2, .cons ?_ hrs⟩
    rw [hext2.backend]
    exact hr.mono hext2.covers

lemma Scanned.splitNode (h : Scanned S g ids pre.length s) (hnodes : g.nodes = pre ++ n :: post)
    (hs : S.splitNode g ids s n pre.length = some s') : Scanned S g ids (pre.length + 1) s' := by
  unfold BackendSched.splitNode at hs
  split at hs
  next hview =>
    obtain rfl := Option.some.inj hs
    exact h.next hnodes fun hno => by rw [hview] at hno; cases hno
  next hview =>
    obtain ⟨b, hb, hs⟩ := bind_eq_some_iff.1 hs
    obtain ⟨⟨s2, rs⟩, hs2, hs⟩ := bind_eq_some_iff.1 hs
    obtain rfl := Option.some.inj hs
    obtain ⟨h1, hb1⟩ : Scanned S g ids pre.length
        (if b ≠ s.split.backendId || S.needNewSplit g ids s n then BackendSched.newSplit s b pre.length else s) ∧
        b = (if b ≠ s.split.backendId || S.needNewSplit g ids s n then
          BackendSched.newSplit s b pre.length else s).split.backendId := by
      split
      next => exact ⟨h.newSplit b, rfl⟩
      next hsame =>
        rw [Bool.not_eq_true, Bool.or_eq_false_iff, decide_eq_false_iff_not, not_not] at hsame
        exact ⟨h, hsame.1⟩
    obtain ⟨h2, hext, hreads⟩ := h1.splitSources hg ha hnodes _ _ _ (fun _ h => h) hs2
    have hnot : n ∉ g.nodes.take pre.length := (Cgraph.take_nodes hnodes).symm ▸ hg.notMem_pre hnodes
    refine (h2.setSrcs hnot rs).next hnodes fun _ => ⟨?_, ?_⟩
    · rw [hb, hb1, ← hext.backend]
    · show List.Forall₂ _ _ (Function.update s2.srcs n rs n)
      rw [update_self]
      exact hreads

lemma Scanned.splitNodes : ∀ (rest pre : List τ) (s : Splitting k τ), g.nodes = pre ++ rest → Scanned S g ids pre.length s →
    S.splitNodes g ids s rest pre.length = some s' → Scanned S g ids g.nodes.length s' := by
  intro rest
  induction rest with
  | nil =>
    intro pre s hnodes h hs
    obtain rfl := Option.some.inj hs
    rwa [hnodes, append_nil]
  | cons n rest ih =>
    intro pre s hnodes h hs
    obtain ⟨s1, hs1, hs⟩ := bind_eq_some_iff.1 hs
    have hlen : pre.length + 1 = (pre ++ [n]).length := by rw [length_append, length_singleton]
    have h1 := h.splitNode hg ha hnodes hs1
    rw [hlen] at h1 hs
    refine ih (pre ++ [n]) s1 ?_ h1 hs
    rw [hnodes, append_assoc, singleton_append]

end

lemma scanned_start [DecidableEq τ] (b : Fin (k + 1)) : Scanned S g ids 0 (startSplitting g b) := by
  have hempty : g.segment ⟨b, 0, 0, []⟩ = [] := by rw [Cgraph.segment, Nat.sub_self, take_zero]
  refine ⟨rfl, le_refl 0, nofun, nofun, ⟨fun t ht => absurd ht not_mem_nil, fun n hn => ?_, fun n hn => ?_⟩, nofun⟩
  · exact absurd (hempty ▸ hn) not_mem_nil
  · exact absurd (hempty ▸ hn) not_mem_nil

/-- What a split graph looks like: consecutive ranges, and each split can be computed behind those before it. -/
structure Prepared (S : BackendSched k τ β) (g : Cgraph τ β) (r : SplitGraph k τ) : Prop where
  ranges : Consecutive g.nodes.length 0 r.splits
  ready : ∀ j p, r.splits[j]? = some p → Ready S g r.ids r.copies r.srcs (r.splits.take j) p

theorem prepared_of_splitGraph [DecidableEq τ] [DecidableEq β] {fixed : BackendIds k τ} {r : SplitGraph k τ}
    (hg : g.Ordered) (hfix : g.Fixable fixed) (hset : g.Settled fixed) (hlast : ∀ n, S.supportsOp (Fin.last k) n = true)
    (h : S.splitGraph g fixed = some r) : Prepared S g r := by
  obtain ⟨ids, hids, h⟩ := bind_eq_some_iff.1 h
  obtain ⟨b, -, h⟩ := bind_eq_some_iff.1 h
  obtain ⟨s, hs, h⟩ := bind_eq_some_iff.1 h
  obtain rfl := Option.some.inj h
  have ha := assigned_of_assignBackends hg hfix hset hlast hids
  have hscan := Scanned.splitNodes hg ha g.nodes [] _ rfl (scanned_start b) hs
  have hclosed := hscan.newSplit b
  exact ⟨hclosed.ranges, hclosed.closed⟩

end BackendSched

end Mallana.Sched
