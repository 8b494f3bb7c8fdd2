import Mallana.Lib.Scan
import Mallana.Sched.Basic

/-!
# The backends of tensors

What the passes 1 to 4 guarantee. A tensor in a buffer is on a backend that supports the type of the buffer. A view of a
tensor that is not allocated is on the backend of that tensor, if the tensor has a backend when the view gets one. Only a leaf
that is neither allocated nor an input nor set by the user can be without a backend then: it gets the backend of the first
node that reads it and is not a view (`Settled`).
-/

namespace Mallana.Sched

open Mallana.Lib List Option Function

variable {k : Nat} {τ β : Type}

/-- A topologically ordered graph: only view operations alias another tensor, and only leaves are allocated or inputs. -/
structure Cgraph.Ordered (g : Cgraph τ β) : Prop where
  nodup : g.nodes.Nodup
  leaf : ∀ t ∈ g.leafs, t ∉ g.nodes ∧ (g.tensor t).viewSrc = none
  src : ∀ pre n post, g.nodes = pre ++ n :: post → ∀ s ∈ (g.tensor n).src, s ∈ g.leafs ∨ s ∈ pre
  view : ∀ n ∈ g.nodes, g.isView n = true → ∃ s, (g.tensor n).src = [s] ∧ (g.tensor n).viewSrc = some (g.root s)
  plain : ∀ n ∈ g.nodes, g.isView n = false → (g.tensor n).viewSrc = none
  buffer : ∀ n ∈ g.nodes, (g.tensor n).buffer = none
  input : ∀ n ∈ g.nodes, (g.tensor n).input = false

def Cgraph.Holds (g : Cgraph τ β) (pre : List τ) (t : τ) : Prop := t ∈ g.leafs ∨ t ∈ pre ∧ g.isView t = false

/-- A leaf that gets its backend from the first node that reads it. -/
def Cgraph.Late (g : Cgraph τ β) (fixed : BackendIds k τ) (t : τ) : Prop :=
  t ∈ g.leafs ∧ (g.tensor t).buffer = none ∧ (g.tensor t).input = false ∧ fixed t = none

/-- Before a view of a late leaf there is a node that reads the leaf and is not a view. -/
def Cgraph.Settled (g : Cgraph τ β) (fixed : BackendIds k τ) : Prop :=
  ∀ pre v post t, g.nodes = pre ++ v :: post → (g.tensor v).viewSrc = some t → g.Late fixed t →
    ∃ n ∈ pre, g.isView n = false ∧ t ∈ (g.tensor n).src

/-- The user sets backends of tensors that are neither allocated nor views. -/
def Cgraph.Fixable (g : Cgraph τ β) (fixed : BackendIds k τ) : Prop :=
  ∀ t b, fixed t = some b → (g.tensor t).viewSrc = none ∧ (g.tensor t).buffer = none

namespace Cgraph

variable {g : Cgraph τ β} {pre post : List τ} {n s t : τ}

lemma root_of_plain (h : (g.tensor t).viewSrc = none) : g.root t = t := by rw [root, h, getD_none]

lemma root_of_view (h : (g.tensor t).viewSrc = some s) : g.root t = s := by rw [root, h, getD_some]

lemma bufferOf_of_plain (h : (g.tensor t).viewSrc = none) : g.bufferOf t = (g.tensor t).buffer := by
  unfold bufferOf
  rw [h]

lemma bufferOf_of_view (h : (g.tensor t).viewSrc = some s) : g.bufferOf t = (g.tensor s).buffer := by
  unfold bufferOf
  rw [h]

lemma bufferOf_eq (t : τ) : g.bufferOf t = (g.tensor (g.root t)).buffer := by
  cases h : (g.tensor t).viewSrc with
  | none => rw [root_of_plain h, bufferOf_of_plain h]
  | some s => rw [root_of_view h, bufferOf_of_view h]

lemma Holds.mono (h : g.Holds pre t) : g.Holds (pre ++ post) t := h.imp_right fun h => ⟨mem_append_left _ h.1, h.2⟩

namespace Ordered

variable (hg : g.Ordered)
include hg

lemma holds_root : ∀ pre post, g.nodes = pre ++ post → ∀ s, s ∈ g.leafs ∨ s ∈ pre → g.Holds pre (g.root s) := by
  refine scan ?_ ?_
  · rintro s (hs | hs)
    · rw [root_of_plain (hg.leaf s hs).2]
      exact .inl hs
    · cases hs
  · rintro pre n post hnodes ih s (hs | hs)
    · exact (ih s (.inl hs)).mono
    · rcases mem_append.1 hs with hs | hs
      · exact (ih s (.inr hs)).mono
      · obtain rfl := mem_singleton.1 hs
        have hmem : s ∈ g.nodes := hnodes ▸ mem_append_right _ mem_cons_self
        cases hview : g.isView s with
        | true =>
          obtain ⟨r, hsrc, hroot⟩ := hg.view s hmem hview
          rw [root_of_view hroot]
          exact (ih r (hg.src pre s post hnodes r (hsrc ▸ mem_cons_self))).mono
        | false =>
          rw [root_of_plain (hg.plain s hmem hview)]
          exact .inr ⟨mem_append_right _ mem_cons_self, hview⟩

lemma holds_src (hnodes : g.nodes = pre ++ n :: post) (hs : s ∈ (g.tensor n).src) : g.Holds pre (g.root s) :=
  hg.holds_root pre (n :: post) hnodes s (hg.src pre n post hnodes s hs)

lemma notMem_pre (hnodes : g.nodes = pre ++ n :: post) : n ∉ pre := by
  intro hmem
  have hnodup := hg.nodup
  rw [hnodes] at hnodup
  exact (nodup_append.1 hnodup).2.2 n hmem n mem_cons_self rfl

lemma viewSrc_of_mem (hs : s ∈ g.leafs ∨ s ∈ g.nodes) :
    (g.tensor s).viewSrc = none ∨ g.isView s = true ∧ s ∈ g.nodes := by
  rcases hs with hs | hs
  · exact .inl (hg.leaf s hs).2
  · cases hview : g.isView s with
    | true => exact .inr ⟨rfl, hs⟩
    | false => exact .inl (hg.plain s hs hview)

lemma mem_of_src (hn : n ∈ g.nodes) (hs : s ∈ (g.tensor n).src) : s ∈ g.leafs ∨ s ∈ g.nodes := by
  obtain ⟨pre, post, hnodes⟩ := append_of_mem hn
  exact (hg.src pre n post hnodes s hs).imp_right fun h => hnodes ▸ mem_append_left _ h

lemma viewSrc_of_holds (h : g.Holds g.nodes t) : (g.tensor t).viewSrc = none := by
  rcases h with ht | ⟨ht, hview⟩
  · exact (hg.leaf t ht).2
  · exact hg.plain t ht hview

lemma holds_nodes (hs : s ∈ g.leafs ∨ s ∈ g.nodes) : g.Holds g.nodes (g.root s) :=
  hg.holds_root g.nodes [] (append_nil _).symm s hs

lemma viewSrc_root (hs : s ∈ g.leafs ∨ s ∈ g.nodes) (hr : (g.tensor s).viewSrc = some t) : (g.tensor t).viewSrc = none :=
  hg.viewSrc_of_holds (root_of_view hr ▸ hg.holds_nodes hs)

end Ordered

end Cgraph

namespace BackendSched

variable {S : BackendSched k τ β} {g : Cgraph τ β} {fixed ids ids' ids'' : BackendIds k τ} {s t n r : τ} {b : Fin (k + 1)}

lemma backendFromBuffer_none (hbuf : g.bufferOf t = none) : S.backendFromBuffer g t s = none := by
  unfold backendFromBuffer
  rw [hbuf]

lemma backendFromBuffer_supports {buffer : BackendBuffer β} (hbuf : g.bufferOf t = some buffer)
    (h : S.backendFromBuffer g t s = some b) : S.supportsBuft b buffer.buft = true := by
  unfold backendFromBuffer at h
  simp only [hbuf] at h
  have hfound := find?_some (p := fun i => S.supportsBuft i buffer.buft && S.supportsOp i s) h
  exact (Bool.and_eq_true_iff.1 hfound).1

lemma backendIdFromCur_allocated (hroot : ∀ r, (g.tensor t).viewSrc = some r → (g.tensor r).viewSrc = none)
    {buffer : BackendBuffer β} (hbuf : g.bufferOf t = some buffer) {i : Option (Fin (k + 1))}
    (h : S.backendIdFromCur g t = some i) : ∃ b, i = some b ∧ S.supportsBuft b buffer.buft = true := by
  unfold backendIdFromCur at h
  split at h
  next b hb =>
    obtain rfl := Option.some.inj h
    exact ⟨b, rfl, backendFromBuffer_supports hbuf hb⟩
  next =>
    split at h
    next b hb =>
      obtain rfl := Option.some.inj h
      obtain ⟨r, hr, hb⟩ := bind_eq_some_iff.1 hb
      have hbuf' : g.bufferOf r = some buffer := by
        rw [Cgraph.bufferOf_of_plain (hroot r hr), ← hbuf, Cgraph.bufferOf_of_view hr]
      exact ⟨b, rfl, backendFromBuffer_supports hbuf' hb⟩
    next =>
      exfalso
      split at h
      next => cases h
      next hno =>
        apply hno
        cases hr : (g.tensor t).viewSrc with
        | none =>
          rw [Cgraph.bufferOf_of_plain hr] at hbuf
          rw [hbuf]
          rfl
        | some r =>
          rw [Cgraph.bufferOf_of_view hr] at hbuf
          rw [bind_some, hbuf, isSome_some, Bool.or_true]

section
variable (hbuf : (g.tensor t).buffer = none)
  (hroot : ∀ r, (g.tensor t).viewSrc = some r → (g.tensor r).viewSrc = none ∧ (g.tensor r).buffer = none)
include hbuf hroot

lemma backendIdFromCur_unallocated :
    S.backendIdFromCur g t = if (g.tensor t).input then some (some (Fin.last k))
      else some ((g.weightSource t).bind (S.backendOfWeight g t)) := by
  have hof : g.bufferOf t = none := by
    cases hr : (g.tensor t).viewSrc with
    | none => rw [Cgraph.bufferOf_of_plain hr, hbuf]
    | some r => rw [Cgraph.bufferOf_of_view hr, (hroot r hr).2]
  have hof' : ((g.tensor t).viewSrc.bind fun r => S.backendFromBuffer g r t) = none := by
    cases hr : (g.tensor t).viewSrc with
    | none => rfl
    | some r =>
      rw [bind_some]
      exact backendFromBuffer_none ((Cgraph.bufferOf_of_plain (hroot r hr).1).trans (hroot r hr).2)
  have hany : ((g.tensor t).viewSrc.bind fun r => (g.tensor r).buffer) = none := by
    cases hr : (g.tensor t).viewSrc with
    | none => rfl
    | some r => rw [bind_some, (hroot r hr).2]
  unfold backendIdFromCur
  simp only [backendFromBuffer_none hof, hof', hbuf, hany, isSome_none, Bool.or_false, Bool.false_eq_true, if_false]

lemma backendIdFromCur_free
    (hinput : (g.tensor t).input = false) (hsrc : ∀ s ∈ (g.tensor t).src, (g.tensor s).buffer = none) :
    S.backendIdFromCur g t = some none := by
  have hfind : g.weightSource t = none := by
    rw [Cgraph.weightSource, find?_eq_none]
    intro s hs
    unfold Cgraph.isWeight
    simp [hsrc s hs]
  rw [backendIdFromCur_unallocated hbuf hroot, hinput, hfind]
  rfl

end

lemma bestBackend_isSome (hlast : S.supportsOp (Fin.last k) n = true) : ∃ b, S.bestBackend g ids n = some b := by
  have hscan : ∀ l : List (Fin (k + 1)), ∀ best : Int × Option (Fin (k + 1)), (best.2 = none → best.1 = -1) →
      (best.2 = none → Fin.last k ∈ l) → (l.foldl (fun (best : Int × Option (Fin (k + 1))) b =>
          if S.supportsOp b n then
            if best.1 < S.nSupported g ids n b then ((S.nSupported g ids n b : Int), some b) else best
          else best) best).2 ≠ none := by
    intro l
    induction l with
    | nil => exact fun best _ hmem hnone => absurd (hmem hnone) not_mem_nil
    | cons b l ih =>
      intro best hbest hmem
      rw [foldl_cons]
      split
      next hop =>
        split
        next => exact ih _ nofun nofun
        next hle =>
          have hsome : best.2 ≠ none := fun hnone => hle (by rw [hbest hnone]; omega)
          exact ih best hbest fun hnone => absurd hnone hsome
      next hop =>
        refine ih best hbest fun hnone => ?_
        refine (mem_cons.1 (hmem hnone)).resolve_left fun heq => ?_
        exact hop (heq ▸ hlast)
  exact ne_none_iff_exists'.1 (hscan _ _ (fun _ => rfl) fun _ => mem_finRange _)

/-- Only nodes that are not views change, and none of them loses its backend. -/
structure Keeps (g : Cgraph τ β) (ids ids' : BackendIds k τ) : Prop where
  some : ∀ t b, ids t = some b → ∃ b', ids' t = some b'
  same : ∀ t, (t ∈ g.nodes → g.isView t = true) → ids' t = ids t

lemma Keeps.refl (g : Cgraph τ β) (ids : BackendIds k τ) : Keeps g ids ids := ⟨fun _ b h => ⟨b, h⟩, fun _ _ => rfl⟩

lemma Keeps.trans (h : Keeps g ids ids') (h' : Keeps g ids' ids'') : Keeps g ids ids'' := by
  refine ⟨fun t b hb => ?_, fun t ht => (h'.same t ht).trans (h.same t ht)⟩
  obtain ⟨b', hb'⟩ := h.some t b hb
  exact h'.some t b' hb'

/-- What the first three passes leave: only views that are not allocated and late leaves are without a backend. -/
structure Placed (S : BackendSched k τ β) (g : Cgraph τ β) (fixed ids : BackendIds k τ) : Prop where
  leaf : ∀ t ∈ g.leafs, ¬ g.Late fixed t → ∃ b, ids t = some b
  plain : ∀ n ∈ g.nodes, g.isView n = false → ∃ b, ids n = some b
  view : ∀ n ∈ g.nodes, g.isView n = true → g.bufferOf n = none → ids n = none
  allocated : ∀ t, t ∈ g.leafs ∨ t ∈ g.nodes → ∀ buffer, g.bufferOf t = some buffer →
    ∃ b, ids t = some b ∧ S.supportsBuft b buffer.buft = true

/-- The nodes that pass 4 has visited. -/
structure Visited (g : Cgraph τ β) (ids0 : BackendIds k τ) (pre : List τ) (ids : BackendIds k τ) : Prop where
  grows : ∀ t b, ids0 t = some b → ids t = some b
  view : ∀ v ∈ pre, g.isView v = true → g.bufferOf v = none → ∃ b, ids v = some b ∧ ids (g.root v) = some b
  rest : ∀ v ∈ g.nodes, v ∉ pre → g.isView v = true → ids v = ids0 v
  read : ∀ n ∈ pre, g.isView n = false → ∀ t ∈ (g.tensor n).src, t ∈ g.leafs → ∃ b, ids t = some b

lemma Visited.root {ids0 : BackendIds k τ} {pre post : List τ} (hset : g.Settled fixed) (h0 : Placed S g fixed ids0)
    (h : Visited g ids0 pre ids) (hnodes : g.nodes = pre ++ n :: post) (hn : (g.tensor n).viewSrc = some r)
    (hr : g.Holds pre r) : ∃ b, ids r = some b := by
  rcases hr with hr | ⟨hr, hview⟩
  · by_cases hlate : g.Late fixed r
    · obtain ⟨m, hm, hview, hsrc⟩ := hset pre n post r hnodes hn hlate
      exact h.read m hm hview r hsrc hr
    · obtain ⟨b, hb⟩ := h0.leaf r hr hlate
      exact ⟨b, h.grows r b hb⟩
  · obtain ⟨b, hb⟩ := h0.plain r (hnodes ▸ mem_append_left _ hr) hview
    exact ⟨b, h.grows r b hb⟩

section
variable [DecidableEq τ]

lemma assignAllocated_spec (h : S.assignAllocated g fixed = some ids) :
    (∀ t b, fixed t = some b → ids t = some b) ∧
      ∀ t ∈ g.leafs ++ g.nodes, fixed t = none → S.backendIdFromCur g t = some (ids t) := by
  have hscan : (∀ t b, fixed t = some b → ids t = some b) ∧
      (∀ t ∈ g.leafs ++ g.nodes, fixed t = none → S.backendIdFromCur g t = some (ids t)) ∧
        ∀ t ∉ g.leafs ++ g.nodes, ids t = fixed t := by
    refine foldlM_scan (P := fun pre ids => (∀ t b, fixed t = some b → ids t = some b) ∧
      (∀ t ∈ pre, fixed t = none → S.backendIdFromCur g t = some (ids t)) ∧ ∀ t ∉ pre, ids t = fixed t)
      ⟨fun t b h => h, fun t h => absurd h not_mem_nil, fun t _ => rfl⟩ ?_ h
    rintro pre x post ids ids' - ⟨hfixed, hcur, hrest⟩ hx
    unfold placeTensor at hx
    split at hx
    next b hb =>
      obtain rfl := Option.some.inj hx
      refine ⟨hfixed, fun t ht hnone => ?_, fun t ht => hrest t fun hmem => ht (mem_append_left _ hmem)⟩
      rcases mem_append.1 ht with hmem | hmem
      · exact hcur t hmem hnone
      · obtain rfl := mem_singleton.1 hmem
        by_cases hmem : t ∈ pre
        · exact hcur t hmem hnone
        · rw [hrest t hmem, hnone] at hb
          cases hb
    next hx' =>
      obtain ⟨i, hi, rfl⟩ := map_eq_some_iff.1 hx
      refine ⟨fun t b hb => ?_, fun t ht hnone => ?_, fun t ht => ?_⟩
      · have hne : t ≠ x := fun heq => by rw [← heq, hfixed t b hb] at hx'; cases hx'
        rw [update_of_ne hne]
        exact hfixed t b hb
      · by_cases heq : t = x
        · rw [heq, update_self]
          exact hi
        · rw [update_of_ne heq]
          exact hcur t ((mem_append.1 ht).resolve_right fun h => heq (mem_singleton.1 h)) hnone
      · have hne : t ≠ x := fun heq => ht (mem_append_right _ (mem_singleton.2 heq))
        rw [update_of_ne hne]
        exact hrest t fun hmem => ht (mem_append_left _ hmem)
  exact ⟨hscan.1, hscan.2.1⟩

lemma Keeps.update (hn : n ∈ g.nodes) (hview : g.isView n = false) (ids : BackendIds k τ) (b : Fin (k + 1)) :
    Keeps g ids (Function.update ids n (Option.some b)) := by
  refine ⟨fun t b' hb' => ?_, fun t ht => ?_⟩
  · by_cases heq : t = n
    · exact ⟨b, by rw [heq, update_self]⟩
    · exact ⟨b', by rw [update_of_ne heq, hb']⟩
  · refine update_of_ne (fun heq => ?_) _ _
    rw [heq] at ht
    rw [ht hn] at hview
    cases hview

lemma expandNode_keeps (skipLast : Bool) (cur : Option (Fin (k + 1))) (ids : BackendIds k τ) (hn : n ∈ g.nodes) :
    Keeps g ids (S.expandNode g skipLast (cur, ids) n).2 := by
  unfold expandNode
  split
  next => exact .refl g ids
  next hview =>
    split
    next => exact .refl g ids
    next =>
      split
      next b _ =>
        show Keeps g ids (if _ then _ else _)
        split
        · exact .update hn (Bool.eq_false_iff.2 hview) ids b
        · exact .refl g ids
      next => exact .refl g ids

lemma expand_keeps (skipLast : Bool) {l : List τ} (hl : ∀ n ∈ l, n ∈ g.nodes) (ids : BackendIds k τ) :
    Keeps g ids (S.expand g skipLast l ids) := by
  refine foldl_scan (P := fun _ (s : Option (Fin (k + 1)) × BackendIds k τ) => Keeps g ids s.2) (Keeps.refl g ids) ?_
  rintro pre x post ⟨cur, ids'⟩ hl' h
  refine h.trans (expandNode_keeps skipLast cur ids' (hl x ?_))
  rw [hl']
  exact mem_append_right _ mem_cons_self

lemma expandAll_keeps (ids : BackendIds k τ) : Keeps g ids (S.expandAll g ids) := by
  have hdown : ∀ n ∈ g.nodes, n ∈ g.nodes := fun _ h => h
  have hup : ∀ n ∈ g.nodes.reverse, n ∈ g.nodes := fun _ h => mem_reverse.1 h
  exact (expand_keeps true hdown ids).trans
    ((expand_keeps true hup _).trans ((expand_keeps false hdown _).trans (expand_keeps false hup _)))

section
variable [DecidableEq β]

lemma upgradeNode_cases (hview : g.isView n = false) (hlast : S.supportsOp (Fin.last k) n = true) :
    (∃ b, S.upgradeNode g ids n = Function.update ids n (some b)) ∨
      S.upgradeNode g ids n = ids ∧ ∃ b, ids n = some b := by
  unfold upgradeNode
  rw [if_neg (Bool.eq_false_iff.1 hview)]
  split
  next hnone =>
    obtain ⟨b, hb⟩ := @bestBackend_isSome k τ β S g ids n hlast
    exact .inl ⟨b, by rw [hb]⟩
  next b hb =>
    split
    next b' _ => exact .inl ⟨b', rfl⟩
    next => exact .inr ⟨rfl, b, hb⟩

lemma upgradeNode_keeps (ids : BackendIds k τ) (hn : n ∈ g.nodes) (hlast : S.supportsOp (Fin.last k) n = true) :
    Keeps g ids (S.upgradeNode g ids n) ∧ (g.isView n = false → ∃ b, S.upgradeNode g ids n n = some b) := by
  cases hview : g.isView n with
  | true =>
    have heq : S.upgradeNode g ids n = ids := if_pos hview
    rw [heq]
    exact ⟨.refl g ids, nofun⟩
  | false =>
    rcases @upgradeNode_cases k τ β S g ids n _ _ hview hlast with ⟨b, heq⟩ | ⟨heq, hsome⟩
    · rw [heq]
      exact ⟨.update hn hview ids b, fun _ => ⟨b, update_self ..⟩⟩
    · rw [heq]
      exact ⟨.refl g ids, fun _ => hsome⟩

lemma upgradeAll_keeps (ids : BackendIds k τ) (hlast : ∀ n, S.supportsOp (Fin.last k) n = true) :
    Keeps g ids (S.upgradeAll g ids) ∧ ∀ n ∈ g.nodes, g.isView n = false → ∃ b, S.upgradeAll g ids n = some b := by
  refine foldl_scan (P := fun pre ids' => Keeps g ids ids' ∧ ∀ n ∈ pre, g.isView n = false → ∃ b, ids' n = some b)
    ⟨.refl g ids, fun n hn => absurd hn not_mem_nil⟩ ?_
  rintro pre x post ids' hnodes ⟨hkeeps, hsome⟩
  have hx : x ∈ g.nodes := hnodes ▸ mem_append_right _ mem_cons_self
  obtain ⟨hstep, hself⟩ := upgradeNode_keeps ids' hx (hlast x)
  refine ⟨hkeeps.trans hstep, fun n hn hview => ?_⟩
  rcases mem_append.1 hn with hn | hn
  · obtain ⟨b, hb⟩ := hsome n hn hview
    exact hstep.some n b hb
  · obtain rfl := mem_singleton.1 hn
    exact hself hview

end

lemma assignSource_cases (ids : BackendIds k τ) (n s : τ) : (∃ b, ids s = some b) ∧ assignSource g n ids s = ids ∨
      ids s = none ∧ ∃ i, assignSource g n ids s = Function.update ids s i ∧
        ((g.tensor s).viewSrc = none → i = ids n) := by
  unfold assignSource
  cases hs : ids s with
  | some b => exact .inl ⟨⟨b, rfl⟩, rfl⟩
  | none =>
    cases hv : (g.tensor s).viewSrc with
    | some r => exact .inr ⟨rfl, _, rfl, nofun⟩
    | none => exact .inr ⟨rfl, _, rfl, fun _ => rfl⟩

lemma assignSource_grows (ids : BackendIds k τ) (h : ids t = some b) : assignSource g n ids s t = some b := by
  rcases @assignSource_cases k τ β g _ ids n s with ⟨_, heq⟩ | ⟨hnone, i, heq, _⟩
  · rw [heq, h]
  · have hne : t ≠ s := fun heq => by rw [← heq, h] at hnone; cases hnone
    rw [heq, update_of_ne hne, h]

lemma assignSource_of_ne (ids : BackendIds k τ) (hne : t ≠ s) : assignSource g n ids s t = ids t := by
  rcases @assignSource_cases k τ β g _ ids n s with ⟨_, heq⟩ | ⟨_, i, heq, _⟩
  · rw [heq]
  · rw [heq, update_of_ne hne]

lemma assignSource_plain (hn : ids n = some b) (hs : (g.tensor s).viewSrc = none) :
    ∃ b, assignSource g n ids s s = some b := by
  rcases @assignSource_cases k τ β g _ ids n s with ⟨hsome, heq⟩ | ⟨_, i, heq, hi⟩
  · rw [heq]
    exact hsome
  · rw [heq, update_self, hi hs]
    exact ⟨b, hn⟩

lemma assignSources_grows (l : List τ) (ids : BackendIds k τ) (h : ids t = some b) :
    l.foldl (assignSource g n) ids t = some b := by
  induction l generalizing ids with
  | nil => exact h
  | cons s l ih => exact ih _ (assignSource_grows ids h)

lemma assignSources_of_notMem {l : List τ} (ids : BackendIds k τ) (ht : t ∉ l) :
    l.foldl (assignSource g n) ids t = ids t := by
  induction l generalizing ids with
  | nil => rfl
  | cons s l ih =>
    rw [foldl_cons, ih _ fun h => ht (mem_cons_of_mem s h)]
    exact assignSource_of_ne ids fun h => ht (h ▸ mem_cons_self)

lemma assignSources_plain {l : List τ} (hn : ids n = some b) (ht : t ∈ l) (hplain : (g.tensor t).viewSrc = none) :
    ∃ b, l.foldl (assignSource g n) ids t = some b := by
  induction l generalizing ids with
  | nil => cases ht
  | cons s l ih =>
    rw [foldl_cons]
    rcases mem_cons.1 ht with rfl | ht
    · obtain ⟨b', hb'⟩ := assignSource_plain hn hplain
      exact ⟨b', assignSources_grows l _ hb'⟩
    · exact ih (assignSource_grows ids hn) ht

section
variable {ids0 : BackendIds k τ} {pre post : List τ}

section
variable (hg : g.Ordered) (hset : g.Settled fixed) (h0 : Placed S g fixed ids0) (h : Visited g ids0 pre ids)
  (hnodes : g.nodes = pre ++ n :: post)
include hg hset h0 h hnodes

lemma Visited.assignView :
    (∀ t, t ≠ n → assignView g ids n t = ids t) ∧ (∀ t b, ids t = some b → assignView g ids n t = some b) ∧
      ∃ b, assignView g ids n n = some b ∧
        (g.isView n = true → g.bufferOf n = none → g.root n ≠ n ∧ ids (g.root n) = some b) := by
  have hmem : n ∈ g.nodes := hnodes ▸ mem_append_right _ mem_cons_self
  cases hview : g.isView n with
  | false =>
    obtain ⟨b, hb⟩ := h0.plain n hmem hview
    have heq : BackendSched.assignView g ids n = ids := by
      unfold BackendSched.assignView
      rw [h.grows n b hb]
    rw [heq]
    exact ⟨fun _ _ => rfl, fun _ _ h => h, b, h.grows n b hb, nofun⟩
  | true =>
    obtain ⟨s, hsrc, hroot⟩ := hg.view n hmem hview
    cases hbuf : g.bufferOf n with
    | some buffer =>
      obtain ⟨b, hb, -⟩ := h0.allocated n (.inr hmem) buffer hbuf
      have heq : BackendSched.assignView g ids n = ids := by
        unfold BackendSched.assignView
        rw [h.grows n b hb]
      rw [heq]
      exact ⟨fun _ _ => rfl, fun _ _ h => h, b, h.grows n b hb, fun _ => nofun⟩
    | none =>
      have hnone : ids n = none := (h.rest n hmem (hg.notMem_pre hnodes) hview).trans (h0.view n hmem hview hbuf)
      have hholds := hg.holds_src hnodes (hsrc ▸ mem_cons_self)
      obtain ⟨b, hb⟩ := h.root hset h0 hnodes hroot hholds
      have heq : BackendSched.assignView g ids n = Function.update ids n (some b) := by
        unfold BackendSched.assignView
        rw [hnone, hroot]
        exact congrArg (Function.update ids n) hb
      have hne : g.root n ≠ n := by
        intro heq
        rw [Cgraph.root_of_view hroot] at heq
        rw [heq] at hholds
        rcases hholds with hleaf | ⟨hpre, -⟩
        · exact (hg.leaf n hleaf).1 hmem
        · exact hg.notMem_pre hnodes hpre
      rw [heq]
      refine ⟨fun t ht => update_of_ne ht _ _, fun t b' hb' => ?_, b, update_self .., fun _ _ => ?_⟩
      · have ht : t ≠ n := fun heq => by rw [heq, hnone] at hb'; cases hb'
        rw [update_of_ne ht, hb']
      · exact ⟨hne, Cgraph.root_of_view hroot ▸ hb⟩

lemma Visited.step (hn : S.assignNode g ids n = some ids') :
    Visited g ids0 (pre ++ [n]) ids' := by
  have hmem : n ∈ g.nodes := hnodes ▸ mem_append_right _ mem_cons_self
  obtain ⟨hother, hgrows, b, hb, hroot⟩ := h.assignView hg hset h0 hnodes
  have hself : (g.tensor n).src.foldl (assignSource g n) (BackendSched.assignView g ids n) n = some b :=
    assignSources_grows _ _ hb
  have hids : ids' = (g.tensor n).src.foldl (assignSource g n) (BackendSched.assignView g ids n) := by
    unfold assignNode at hn
    simp only [hself] at hn
    exact (Option.some.inj hn).symm
  have hgrows' : ∀ t b, ids t = some b → ids' t = some b := by
    intro t b hb
    rw [hids]
    exact assignSources_grows _ _ (hgrows t b hb)
  refine ⟨fun t b hb => hgrows' t b (h.grows t b hb), fun v hv hview hbuf => ?_, fun v hv hpre hview => ?_,
    fun m hm hview t ht hleaf => ?_⟩
  · rcases mem_append.1 hv with hv | hv
    · obtain ⟨b, hv, hr⟩ := h.view v hv hview hbuf
      exact ⟨b, hgrows' _ _ hv, hgrows' _ _ hr⟩
    · obtain rfl := mem_singleton.1 hv
      obtain ⟨hne, hr⟩ := hroot hview hbuf
      exact ⟨b, hids ▸ hself, hgrows' _ _ hr⟩
  · -- a view that comes later is no source of the node
    have hne : v ≠ n := fun heq => hpre (mem_append_right _ (mem_singleton.2 heq))
    have hsrc : v ∉ (g.tensor n).src := by
      intro hsrc
      rcases hg.src pre n post hnodes v hsrc with hleaf | hmem
      · exact (hg.leaf v hleaf).1 hv
      · exact hpre (mem_append_left _ hmem)
    rw [hids, assignSources_of_notMem _ hsrc, hother v hne]
    exact h.rest v hv (fun hmem => hpre (mem_append_left _ hmem)) hview
  · rcases mem_append.1 hm with hm | hm
    · obtain ⟨b, hb⟩ := h.read m hm hview t ht hleaf
      exact ⟨b, hgrows' t b hb⟩
    · obtain rfl := mem_singleton.1 hm
      rw [hids]
      exact assignSources_plain hb ht (hg.leaf t hleaf).2

end

end

/-- What the later pass needs of the backends. -/
structure Assigned (S : BackendSched k τ β) (g : Cgraph τ β) (ids : BackendIds k τ) : Prop where
  allocated : ∀ t, t ∈ g.leafs ∨ t ∈ g.nodes → ∀ buffer, g.bufferOf t = some buffer →
    ∃ b, ids t = some b ∧ S.supportsBuft b buffer.buft = true
  view : ∀ v ∈ g.nodes, g.isView v = true → g.bufferOf v = none → ∃ b, ids v = some b ∧ ids (g.root v) = some b

section
variable [DecidableEq β]

/-- The passes place every node where it can run. -/
lemma placed_of_assign (hg : g.Ordered) (hfix : g.Fixable fixed) (hlast : ∀ n, S.supportsOp (Fin.last k) n = true)
    (h : S.assignAllocated g fixed = some ids) : Placed S g fixed (S.upgradeAll g (S.expandAll g ids)) := by
  obtain ⟨hfixed, hcur⟩ := assignAllocated_spec h
  obtain ⟨hkeeps, hplain⟩ := @upgradeAll_keeps k τ β S g _ _ (S.expandAll g ids) hlast
  have hkeeps := (expandAll_keeps ids).trans hkeeps
  have hallocated : ∀ t, t ∈ g.leafs ∨ t ∈ g.nodes → ∀ buffer, g.bufferOf t = some buffer →
      ∃ b, ids t = some b ∧ S.supportsBuft b buffer.buft = true := by
    intro t ht buffer hbuf
    have hroot : ∀ r, (g.tensor t).viewSrc = some r → (g.tensor r).viewSrc = none := fun r hr => hg.viewSrc_root ht hr
    have hfree : fixed t = none := by
      rw [eq_none_iff_forall_ne_some]
      intro b hb
      obtain ⟨hview, hnone⟩ := hfix t b hb
      rw [Cgraph.bufferOf_of_plain hview, hnone] at hbuf
      cases hbuf
    obtain ⟨b, hb, hsup⟩ := backendIdFromCur_allocated hroot hbuf (hcur t (mem_append.2 ht) hfree)
    exact ⟨b, hb, hsup⟩
  have hstay : ∀ t, t ∈ g.leafs → S.upgradeAll g (S.expandAll g ids) t = ids t := fun t ht =>
    hkeeps.same t fun hmem => absurd hmem (hg.leaf t ht).1
  refine ⟨fun t ht hlate => ?_, hplain, fun n hn hview hbuf => ?_, fun t ht buffer hbuf => ?_⟩
  · have hview := (hg.leaf t ht).2
    rw [hstay t ht]
    cases hfixed' : fixed t with
    | some b => exact ⟨b, hfixed t b hfixed'⟩
    | none =>
      cases hbuf : (g.tensor t).buffer with
      | some buffer =>
        obtain ⟨b, hb, -⟩ := hallocated t (.inl ht) buffer ((Cgraph.bufferOf_of_plain hview).trans hbuf)
        exact ⟨b, hb⟩
      | none =>
        have hinput : (g.tensor t).input = true := by
          cases hinput : (g.tensor t).input with
          | true => rfl
          | false => exact absurd ⟨ht, hbuf, hinput, hfixed'⟩ hlate
        have heq := hcur t (mem_append_left _ ht) hfixed'
        rw [backendIdFromCur_unallocated hbuf (fun r hr => by rw [hview] at hr; cases hr), if_pos hinput] at heq
        exact ⟨Fin.last k, (Option.some.inj heq).symm⟩
  · obtain ⟨s, hsrc, hroot⟩ := hg.view n hn hview
    have hfree : fixed n = none := by
      rw [eq_none_iff_forall_ne_some]
      intro b hb
      rw [(hfix n b hb).1] at hroot
      cases hroot
    have hbuf' : (g.tensor (g.root s)).buffer = none := (Cgraph.bufferOf_of_view hroot).symm.trans hbuf
    have hs : s ∈ g.leafs ∨ s ∈ g.nodes := hg.mem_of_src hn (hsrc ▸ mem_cons_self)
    rw [hkeeps.same n fun _ => hview]
    refine (Option.some.inj ((hcur n (mem_append_right _ hn) hfree).symm.trans
      (backendIdFromCur_free (hg.buffer n hn) (fun r hr => ⟨hg.viewSrc_root (.inr hn) hr, ?_⟩) (hg.input n hn) ?_)))
    · rw [← Cgraph.bufferOf_of_view hr, hbuf]
    · intro s' hs'
      rw [hsrc] at hs'
      obtain rfl := mem_singleton.1 hs'
      rcases hs with hleaf | hmem
      · rwa [Cgraph.root_of_plain (hg.leaf s' hleaf).2] at hbuf'
      · exact hg.buffer s' hmem
  · obtain ⟨b, hb, hsup⟩ := hallocated t ht buffer hbuf
    refine ⟨b, ?_, hsup⟩
    rw [hkeeps.same t, hb]
    intro hmem
    cases hview : g.isView t with
    | true => rfl
    | false =>
      rw [Cgraph.bufferOf_of_plain (hg.plain t hmem hview), hg.buffer t hmem] at hbuf
      cases hbuf

/-- The passes 1 to 4. -/
theorem assigned_of_assignBackends (hg : g.Ordered) (hfix : g.Fixable fixed) (hset : g.Settled fixed)
    (hlast : ∀ n, S.supportsOp (Fin.last k) n = true) (h : S.assignBackends g fixed = some ids) : Assigned S g ids := by
  obtain ⟨ids1, hids1, hrest⟩ := bind_eq_some_iff.1 h
  have h0 := placed_of_assign hg hfix hlast hids1
  have hvisited : Visited g (S.upgradeAll g (S.expandAll g ids1)) g.nodes ids := by
    refine foldlM_scan ⟨fun _ _ h => h, fun v hv => absurd hv not_mem_nil, fun _ _ _ _ => rfl,
      fun n hn => absurd hn not_mem_nil⟩ ?_ hrest
    exact fun pre n post ids ids' hnodes hv hn => hv.step hg hset h0 hnodes hn
  refine ⟨fun t ht buffer hbuf => ?_, hvisited.view⟩
  obtain ⟨b, hb, hsup⟩ := h0.allocated t ht buffer hbuf
  exact ⟨b, hvisited.grows t b hb, hsup⟩

end

end

end BackendSched

end Mallana.Sched
