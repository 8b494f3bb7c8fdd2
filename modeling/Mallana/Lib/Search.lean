import Mathlib.Data.List.Forall2
import Mathlib.Data.Set.Finite.Lattice
import Mathlib.Logic.Relation

/-!
# Depth-first search

A search with a stack of nodes to visit and a set of nodes that were visited. A node is emitted, or replaced by
other nodes, or ends the search (`Visit`). `search_spec` is the rule: if finitely many nodes can be reached
(for example because every descent ends), the search ends and has emitted exactly the nodes that are emitted and can
be reached. Two searches can be compared node by node (`SameVisit`).
-/

namespace Mallana.Lib

open List

variable {σ : Type}

/-- What is done with a node. -/
inductive Visit (σ : Type) where
  | emit
  | expand (l : List σ)
  | abort

/-- The search; `none` if it is ended, or without fuel. The last node of a list is visited first. -/
def search [DecidableEq σ] (visit : σ → Visit σ) : Nat → List σ → List σ → List σ → Option (List σ)
  | _, [], _, out => some out
  | 0, _ :: _, _, _ => none
  | fuel + 1, s :: todo, seen, out =>
    if s ∈ seen then search visit fuel todo seen out
    else
      match visit s with
      | .emit => search visit fuel todo (s :: seen) (if s ∈ out then out else out ++ [s])
      | .expand l => search visit fuel (l.reverse ++ todo) (s :: seen) out
      | .abort => none

/-- `t` is one of the nodes that replace `s`. -/
def Child (visit : σ → Visit σ) (t s : σ) : Prop := ∃ l, visit s = .expand l ∧ t ∈ l

def Reaches (visit : σ → Visit σ) : σ → σ → Prop := Relation.ReflTransGen fun s t => Child visit t s

/-- A search from the node ends. -/
structure Searchable (visit : σ → Visit σ) (s : σ) : Prop where
  finite : {x | Reaches visit s x}.Finite
  safe : ∀ x, Reaches visit s x → visit x ≠ .abort

/-- Nothing is lost: what replaces a visited node was visited or is still to do. -/
def Closed (visit : σ → Visit σ) (todo seen out : List σ) : Prop :=
  ∀ x ∈ seen, (visit x = .emit → x ∈ out) ∧ ∀ t, Child visit t x → t ∈ seen ∨ t ∈ todo

section Search
variable [DecidableEq σ] {visit : σ → Visit σ} {s : σ} {todo seen out out' : List σ} {fuel : Nat}

omit [DecidableEq σ] in
lemma finite_of_acc (h : Acc (Child visit) s) : {x | Reaches visit s x}.Finite := by
  induction h with
  | intro s _ ih =>
    cases hv : visit s with
    | expand l =>
      have hfin : ({s} ∪ ⋃ t ∈ {t | t ∈ l}, {x | Reaches visit t x}).Finite :=
        (Set.finite_singleton s).union (l.finite_toSet.biUnion fun t ht => ih t ⟨l, hv, ht⟩)
      refine hfin.subset fun x hx => ?_
      obtain rfl | ⟨t, ⟨l', hl, ht⟩, hr⟩ := Relation.ReflTransGen.cases_head hx
      · exact .inl rfl
      · rw [hv] at hl
        cases hl
        exact .inr (Set.mem_biUnion ht hr)
    | _ =>
      refine (Set.finite_singleton s).subset fun x hx => ?_
      obtain rfl | ⟨t, ⟨l', hl, -⟩, -⟩ := Relation.ReflTransGen.cases_head hx
      · rfl
      · rw [hv] at hl
        cases hl

lemma search_list {F : Finset σ} (hchild : ∀ s ∈ F, ∀ t, Child visit t s → t ∈ F)
    (hsafe : ∀ s ∈ F, visit s ≠ .abort) {m : Nat} {l : List σ} (hl : ∀ s ∈ l, s ∈ F) (todo seen out : List σ)
    (hm : (F.filter (· ∉ seen)).card ≤ m) :
    ∃ k seen' out', ∀ fuel, search visit (fuel + k) (l ++ todo) seen out = search visit fuel todo seen' out' := by
  induction m generalizing l seen out with
  | zero =>
    -- every node was visited
    have hseen : ∀ s ∈ F, s ∈ seen := by
      intro s hs
      by_contra hnot
      have hmem : s ∈ F.filter (· ∉ seen) := Finset.mem_filter.2 ⟨hs, hnot⟩
      rw [Finset.card_eq_zero.1 (Nat.le_zero.1 hm)] at hmem
      exact absurd hmem (Finset.notMem_empty s)
    clear hm
    induction l with
    | nil => exact ⟨0, seen, out, fun _ => rfl⟩
    | cons s l ih =>
      obtain ⟨hs, hl⟩ := forall_mem_cons.1 hl
      obtain ⟨k, seen', out', hrun⟩ := ih hl
      refine ⟨k + 1, seen', out', fun fuel => ?_⟩
      rw [← add_assoc, cons_append, search, if_pos (hseen s hs)]
      exact hrun fuel
  | succ m ihm =>
    induction l with
    | nil => exact ⟨0, seen, out, fun _ => rfl⟩
    | cons s l ih =>
      obtain ⟨hs, hl⟩ := forall_mem_cons.1 hl
      by_cases hseen : s ∈ seen
      · obtain ⟨k, seen', out', hrun⟩ := ih hl
        refine ⟨k + 1, seen', out', fun fuel => ?_⟩
        rw [← add_assoc, cons_append, search, if_pos hseen]
        exact hrun fuel
      have hless : (F.filter (· ∉ s :: seen)).card ≤ m := by
        have hlt : (F.filter (· ∉ s :: seen)).card < (F.filter (· ∉ seen)).card := by
          refine Finset.card_lt_card (Finset.ssubset_iff_subset_ne.2 ⟨fun x hx => ?_, fun heq => ?_⟩)
          · rw [Finset.mem_filter] at hx ⊢
            exact ⟨hx.1, fun hmem => hx.2 (mem_cons_of_mem s hmem)⟩
          · have hmem : s ∈ F.filter (· ∉ seen) := Finset.mem_filter.2 ⟨hs, hseen⟩
            rw [← heq, Finset.mem_filter] at hmem
            exact hmem.2 mem_cons_self
        omega
      cases hv : visit s with
      | abort => exact absurd hv (hsafe s hs)
      | emit =>
        obtain ⟨k, seen', out', hrun⟩ := ihm hl (s :: seen) (if s ∈ out then out else out ++ [s]) hless
        refine ⟨k + 1, seen', out', fun fuel => ?_⟩
        rw [← add_assoc, cons_append, search, if_neg hseen, hv]
        exact hrun fuel
      | expand l' =>
        have hl' : ∀ t ∈ l'.reverse ++ l, t ∈ F := by
          intro t ht
          obtain ht | ht := mem_append.1 ht
          · exact hchild s hs t ⟨l', hv, mem_reverse.1 ht⟩
          · exact hl t ht
        obtain ⟨k, seen', out', hrun⟩ := ihm hl' (s :: seen) out hless
        refine ⟨k + 1, seen', out', fun fuel => ?_⟩
        rw [← add_assoc, cons_append, search, if_neg hseen, hv]
        rw [append_assoc] at hrun
        exact hrun fuel

lemma Searchable.search_cons (h : Searchable visit s) (todo seen out : List σ) :
    ∃ k seen' out', ∀ fuel, search visit (fuel + k) (s :: todo) seen out = search visit fuel todo seen' out' := by
  have hmem : ∀ x, x ∈ h.finite.toFinset ↔ Reaches visit s x := fun x => h.finite.mem_toFinset
  refine search_list (l := [s]) (fun x hx t hc => ?_) (fun x hx => h.safe x ((hmem x).1 hx)) (fun x hx => ?_)
    todo seen out (le_refl (h.finite.toFinset.filter (· ∉ seen)).card)
  · exact (hmem t).2 (Relation.ReflTransGen.tail ((hmem x).1 hx) hc)
  · rw [mem_singleton.1 hx]
    exact (hmem s).2 .refl

/-- What a search returns was there before or is reached. -/
lemma search_cases (h : search visit fuel todo seen out = some out') (hclosed : Closed visit todo seen out) :
    (∃ seen', Closed visit [] seen' out' ∧ ∀ x, x ∈ seen ∨ x ∈ todo → x ∈ seen') ∧ (∀ x ∈ out, x ∈ out') ∧
      ∀ x ∈ out', x ∈ out ∨ visit x = .emit ∧ ∃ s ∈ todo, Reaches visit s x := by
  induction fuel generalizing todo seen out with
  | zero =>
    cases todo with
    | nil =>
      cases h
      exact ⟨⟨seen, hclosed, fun x hx => hx.resolve_right (not_mem_nil)⟩, fun _ hx => hx, fun _ hx => .inl hx⟩
    | cons s todo => cases h
  | succ fuel ih =>
    cases todo with
    | nil =>
      cases h
      exact ⟨⟨seen, hclosed, fun x hx => hx.resolve_right (not_mem_nil)⟩, fun _ hx => hx, fun _ hx => .inl hx⟩
    | cons s todo =>
      -- what a step has to keep
      have hnext : ∀ {todo₁ seen₁ out₁}, search visit fuel todo₁ seen₁ out₁ = some out' →
          Closed visit todo₁ seen₁ out₁ → (∀ x, x ∈ seen ∨ x ∈ s :: todo → x ∈ seen₁ ∨ x ∈ todo₁) →
          (∀ x ∈ out, x ∈ out₁) → (∀ x ∈ out₁, x ∈ out ∨ visit x = .emit ∧ ∃ t ∈ s :: todo, Reaches visit t x) →
          (∀ t ∈ todo₁, ∃ t₀ ∈ s :: todo, Reaches visit t₀ t) →
          (∃ seen', Closed visit [] seen' out' ∧ ∀ x, x ∈ seen ∨ x ∈ s :: todo → x ∈ seen') ∧ (∀ x ∈ out, x ∈ out') ∧
            ∀ x ∈ out', x ∈ out ∨ visit x = .emit ∧ ∃ t ∈ s :: todo, Reaches visit t x := by
        intro todo₁ seen₁ out₁ hrun hclosed₁ hkeep hout₁ hfrom₁ htodo₁
        obtain ⟨⟨seen', hc', hsub⟩, hout, hfrom⟩ := ih hrun hclosed₁
        refine ⟨⟨seen', hc', fun x hx => hsub x (hkeep x hx)⟩, fun x hx => hout x (hout₁ x hx), fun x hx => ?_⟩
        obtain hx | ⟨he, t, ht, hr⟩ := hfrom x hx
        · exact hfrom₁ x hx
        · obtain ⟨t₀, ht₀, hr₀⟩ := htodo₁ t ht
          exact .inr ⟨he, t₀, ht₀, hr₀.trans hr⟩
      have hself : ∀ t ∈ todo, ∃ t₀ ∈ s :: todo, Reaches visit t₀ t :=
        fun t ht => ⟨t, mem_cons_of_mem s ht, .refl⟩
      rw [search] at h
      by_cases hs : s ∈ seen
      · rw [if_pos hs] at h
        refine hnext h ?_ ?_ (fun _ hx => hx) (fun _ hx => .inl hx) hself
        · intro x hx
          refine ⟨(hclosed x hx).1, fun t ht => ?_⟩
          obtain ht | ht := (hclosed x hx).2 t ht
          · exact .inl ht
          · obtain rfl | ht := mem_cons.1 ht
            · exact .inl hs
            · exact .inr ht
        · rintro x (hx | hx)
          · exact .inl hx
          · obtain rfl | hx := mem_cons.1 hx
            · exact .inl hs
            · exact .inr hx
      rw [if_neg hs] at h
      have hkeep : ∀ {todo₁ : List σ}, (∀ t ∈ todo, t ∈ todo₁) →
          ∀ x, x ∈ seen ∨ x ∈ s :: todo → x ∈ s :: seen ∨ x ∈ todo₁ := by
        rintro todo₁ hsub x (hx | hx)
        · exact .inl (mem_cons_of_mem s hx)
        · obtain rfl | hx := mem_cons.1 hx
          · exact .inl mem_cons_self
          · exact .inr (hsub x hx)
      cases hv : visit s with
      | abort =>
        rw [hv] at h
        cases h
      | emit =>
        rw [hv] at h
        have hmem : ∀ x, x ∈ (if s ∈ out then out else out ++ [s]) ↔ x ∈ out ∨ x = s := by
          intro x
          split
          · rename_i hso
            refine ⟨.inl, fun hx => hx.elim id fun hx => hx ▸ hso⟩
          · rw [mem_append, mem_singleton]
        refine hnext h ?_ (hkeep fun _ ht => ht) (fun x hx => (hmem x).2 (.inl hx)) ?_ hself
        · intro x hx
          obtain rfl | hx := mem_cons.1 hx
          · refine ⟨fun _ => (hmem x).2 (.inr rfl), ?_⟩
            rintro t ⟨l, hl, -⟩
            rw [hv] at hl
            cases hl
          · refine ⟨fun he => (hmem x).2 (.inl ((hclosed x hx).1 he)), fun t ht => ?_⟩
            exact hkeep (fun _ ht => ht) t ((hclosed x hx).2 t ht)
        · intro x hx
          obtain hx | rfl := (hmem x).1 hx
          · exact .inl hx
          · exact .inr ⟨hv, x, mem_cons_self, .refl⟩
      | expand l =>
        rw [hv] at h
        refine hnext h ?_ (hkeep fun _ ht => mem_append_right _ ht) (fun _ hx => hx) (fun _ hx => .inl hx) ?_
        · intro x hx
          obtain rfl | hx := mem_cons.1 hx
          · refine ⟨fun he => absurd (hv.symm.trans he) (by simp), ?_⟩
            rintro t ⟨l', hl, ht⟩
            rw [hv] at hl
            cases hl
            exact .inr (mem_append_left _ (mem_reverse.2 ht))
          · refine ⟨(hclosed x hx).1, fun t ht => ?_⟩
            exact hkeep (fun _ ht => mem_append_right _ ht) t ((hclosed x hx).2 t ht)
        · intro t ht
          obtain ht | ht := mem_append.1 ht
          · exact ⟨s, mem_cons_self, .single ⟨l, hv, mem_reverse.1 ht⟩⟩
          · exact hself t ht

omit [DecidableEq σ] in
lemma Closed.mem_of_reaches {x : σ} (h : Closed visit [] seen out) (hs : s ∈ seen) (hr : Reaches visit s x) :
    x ∈ seen := by
  induction hr with
  | refl => exact hs
  | tail _ hc ih => exact ((h _ ih).2 _ hc).resolve_right not_mem_nil

lemma finite_of_search (h : search visit fuel [s] [] out = some out') : {x | Reaches visit s x}.Finite := by
  obtain ⟨⟨seen', hclosed, hsub⟩, -⟩ := search_cases h fun _ hx => by cases hx
  exact seen'.finite_toSet.subset fun x hx => hclosed.mem_of_reaches (hsub s (.inr mem_cons_self)) hx

/-- The search from a node ends, and emits what is reached from it. -/
theorem Searchable.search_spec (h : Searchable visit s) (out : List σ) :
    ∃ n out', (∀ fuel, n ≤ fuel → search visit fuel [s] [] out = some out') ∧
      ∀ x, x ∈ out' ↔ x ∈ out ∨ visit x = .emit ∧ Reaches visit s x := by
  obtain ⟨n, seen', out', hrun⟩ := h.search_cons [] [] out
  have hrun' : ∀ fuel, n ≤ fuel → search visit fuel [s] [] out = some out' := by
    intro fuel hle
    obtain ⟨k, rfl⟩ := Nat.exists_eq_add_of_le' hle
    rw [hrun]
    cases k <;> rfl
  refine ⟨n, out', hrun', fun x => ?_⟩
  obtain ⟨⟨seen₁, hclosed, hsub⟩, hout, hfrom⟩ := search_cases (hrun' n (le_refl n)) fun _ hx => by cases hx
  constructor
  · intro hx
    obtain hx | ⟨he, t, ht, hr⟩ := hfrom x hx
    · exact .inl hx
    · rw [mem_singleton.1 ht] at hr
      exact .inr ⟨he, hr⟩
  · rintro (hx | ⟨he, hr⟩)
    · exact hout x hx
    · have hseen : x ∈ seen₁ := hclosed.mem_of_reaches (hsub s (.inr mem_cons_self)) hr
      exact (hclosed x hseen).1 he

end Search

/-- Two searches that do the same with related nodes. -/
inductive SameVisit {σ' : Type} (r : σ → σ' → Prop) : Visit σ → Visit σ' → Prop where
  | emit : SameVisit r .emit .emit
  | expand {l l'} : List.Forall₂ r l l' → SameVisit r (.expand l) (.expand l')

section Simulation
variable {σ' : Type} {r : σ → σ' → Prop} {visit : σ → Visit σ} {visit' : σ' → Visit σ'} {s x : σ} {s' x' : σ'}

lemma SameVisit.emit_iff {v : Visit σ} {v' : Visit σ'} (h : SameVisit r v v') : v = .emit ↔ v' = .emit := by
  cases h with
  | emit => exact iff_of_true rfl rfl
  | expand => exact iff_of_false (by simp) (by simp)

lemma exists_of_forall₂ {l : List σ} {l' : List σ'} (h : List.Forall₂ r l l') (hs : s ∈ l) : ∃ s' ∈ l', r s s' := by
  obtain ⟨i, hi, rfl⟩ := getElem_of_mem hs
  have hi' : i < l'.length := h.length_eq ▸ hi
  exact ⟨l'[i], getElem_mem hi', h.get hi hi'⟩

lemma SameVisit.child {t : σ} (h : SameVisit r (visit s) (visit' s')) (hc : Child visit t s) :
    ∃ t', Child visit' t' s' ∧ r t t' := by
  obtain ⟨l, hl, ht⟩ := hc
  rw [hl] at h
  cases hv : visit' s' with
  | emit =>
    rw [hv] at h
    cases h
  | abort =>
    rw [hv] at h
    cases h
  | expand l' =>
    rw [hv] at h
    cases h with
    | expand hf =>
      obtain ⟨t', ht', hr⟩ := exists_of_forall₂ hf ht
      exact ⟨t', ⟨l', hv, ht'⟩, hr⟩

lemma SameVisit.symm {v : Visit σ} {v' : Visit σ'} (h : SameVisit r v v') : SameVisit (flip r) v' v := by
  cases h with
  | emit => exact .emit
  | expand hf => exact .expand hf.flip

variable (hsim : ∀ s s', r s s' → SameVisit r (visit s) (visit' s'))
include hsim

lemma reaches_of_sim (h : r s s') (hx : Reaches visit s x) : ∃ x', Reaches visit' s' x' ∧ r x x' := by
  induction hx with
  | refl => exact ⟨s', .refl, h⟩
  | tail _ hc ih =>
    obtain ⟨y', hy, hr⟩ := ih
    obtain ⟨x', hc', hr'⟩ := (hsim _ _ hr).child hc
    exact ⟨x', hy.tail hc', hr'⟩

lemma reaches_of_sim' (h : r s s') (hx : Reaches visit' s' x') : ∃ x, Reaches visit s x ∧ r x x' := by
  induction hx with
  | refl => exact ⟨s, .refl, h⟩
  | tail _ hc ih =>
    obtain ⟨y, hy, hr⟩ := ih
    obtain ⟨x, hc', hr'⟩ := (hsim _ _ hr).symm.child hc
    exact ⟨x, hy.tail hc', hr'⟩

lemma acc_of_sim (h : r s s') (hacc : Acc (Child visit') s') : Acc (Child visit) s := by
  induction hacc generalizing s with
  | intro s' _ ih =>
    refine ⟨s, fun t hc => ?_⟩
    obtain ⟨t', hc', hr⟩ := (hsim _ _ h).child hc
    exact ih t' hc' hr

lemma searchable_of_sim (h : r s s') (hacc : Acc (Child visit') s') : Searchable visit s := by
  refine ⟨finite_of_acc (acc_of_sim hsim h hacc), fun x hx he => ?_⟩
  obtain ⟨x', -, hr⟩ := reaches_of_sim hsim h hx
  have hv := hsim _ _ hr
  rw [he] at hv
  cases hv

end Simulation

end Mallana.Lib
