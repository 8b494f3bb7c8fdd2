import Mathlib.Data.Finite.Prod
import Mallana.Grammar.Accept
import Mallana.Lib.Growth

/-!
# When the engine ends

The check for left recursion counts a rule as empty only if one of its alternatives is written as empty. A rule can
derive the empty string in other ways, and the recursion behind it is not seen. Every step of every run ends if no
rule that is reached from the root comes back to itself from the left and leaves something behind it; what it leaves
behind is what makes the stacks grow.
-/

namespace Mallana

open Lib List

def GrTerm.Live (t : GrTerm) : Prop := (∃ chr, GrTerm.has chr t = true) ∨ ∃ token, GrTerm.hasToken token t = true

/-- The rule is reached from the root, behind symbols that can be matched. -/
def RuleSet.Reached {n : Nat} (G : RuleSet n) (root A : Fin n) : Prop := Lib.Reached GrTerm.Live G.alts root A

/-- No rule that is reached comes back to itself from the left and leaves something behind it. -/
def RuleSet.Stays {n : Nat} (G : RuleSet n) (root : Fin n) : Prop := ∀ A, G.Reached root A → ¬ Leaves G.alts A A

namespace Grammar

section Finite
variable {n : Nat} {G : RuleSet n} {stack : GrStack} {Γ : List (List (GrSym n))}

def inside (rules : GrRules) : Set GrPos := {p | p.rule < rules.length ∧ p.idx < (rules.getD p.rule []).length}

lemma finite_inside (rules : GrRules) : (inside rules).Finite := by
  have hfin : (⋃ r ∈ {r | r < rules.length}, GrPos.mk r '' {i | i < (rules.getD r []).length}).Finite :=
    (Set.finite_lt_nat _).biUnion fun r _ => (Set.finite_lt_nat _).image _
  refine hfin.subset fun p hp => ?_
  exact Set.mem_biUnion hp.1 ⟨p.idx, hp.2, rfl⟩

lemma finite_lists {P : Set GrPos} (hP : P.Finite) (k : Nat) :
    {l : List GrPos | l.length ≤ k ∧ ∀ p ∈ l, p ∈ P}.Finite := by
  induction k with
  | zero =>
    refine (Set.finite_singleton []).subset fun l hl => ?_
    exact length_eq_zero_iff.1 (Nat.le_zero.1 hl.1)
  | succ k ih =>
    refine ((Set.finite_singleton []).union (Set.Finite.image2 List.cons hP ih)).subset fun l hl => ?_
    cases l with
    | nil => exact .inl rfl
    | cons p l =>
      obtain ⟨hp, hl'⟩ := forall_mem_cons.1 hl.2
      exact .inr ⟨p, hp, l, ⟨Nat.le_of_succ_le_succ hl.1, hl'⟩, rfl⟩

lemma Points.inside {rules : GrRules} {p : GrPos} {β : List (GrSym n)} (h : Points rules p β) :
    p ∈ Grammar.inside rules := by
  obtain ⟨e, es, heq, -⟩ := h
  have hidx : p.idx < (rules.getD p.rule []).length := by
    by_contra hle
    unfold elems at heq
    rw [drop_eq_nil_of_le (Nat.le_of_not_lt hle)] at heq
    exact absurd heq.symm (by simp)
  refine ⟨?_, hidx⟩
  by_contra hle
  rw [getD_eq_default _ _ (Nat.le_of_not_lt hle)] at hidx
  exact Nat.not_lt_zero _ hidx

lemma advances_of_height (h : Stands G.rules stack Γ) {k : Nat} (hk : ∀ x, Reaches (expand G.alts) Γ x → x.length ≤ k) :
    Advances G.rules stack := by
  have hsearch : Searchable (visit G.rules) stack := by
    refine ⟨(finite_lists (finite_inside G.rules) k).subset fun x hx => ?_, fun x hx he => ?_⟩
    · obtain ⟨Δ, hr, hΔ⟩ := reaches_of_sim (fun _ _ => sameVisit) h hx
      refine ⟨hΔ.length_eq ▸ hk Δ hr, fun p hp => ?_⟩
      obtain ⟨β, -, hpoint⟩ := exists_of_forall₂ hΔ hp
      exact hpoint.1.inside
    · obtain ⟨Δ, -, hΔ⟩ := reaches_of_sim (fun _ _ => sameVisit) h hx
      have hv := sameVisit hΔ
      rw [he] at hv
      cases hv
  exact hsearch.search_spec

end Finite

section Near
variable {n : Nat} {G : RuleSet n} {root : Fin n} {stack : GrStack} {Γ : List (List (GrSym n))}

/-- The stack is near the root: it comes only to rules that are reached. -/
def NearRoot (G : RuleSet n) (root : Fin n) (s : GrStack) : Prop :=
  ∃ Γ, Stands G.rules s Γ ∧ Near GrTerm.Live G.alts root Γ.flatten

lemma advances_of_near (hstays : G.Stays root) (h : NearRoot G root stack) : Advances G.rules stack := by
  obtain ⟨Γ, hΓ, hnear⟩ := h
  obtain ⟨k, hk⟩ := hnear.exists_height hΓ.nil_notMem hstays
  exact advances_of_height hΓ hk

lemma NearRoot.reaches {x : GrStack} (h : NearRoot G root stack) (hr : Reaches (visit G.rules) stack x) :
    NearRoot G root x := by
  obtain ⟨Γ, hΓ, hnear⟩ := h
  obtain ⟨Δ, hrΔ, hΔ⟩ := reaches_of_sim (fun _ _ => sameVisit) hΓ hr
  exact ⟨Δ, hΔ, hnear.reaches hrΔ⟩

lemma NearRoot.afterChr {chr : UInt32} {s : GrStack} (h : NearRoot G root stack) (he : visit G.rules stack = .emit)
    (hs : s ∈ Grammar.afterChr G.rules chr stack) : NearRoot G root s := by
  obtain ⟨Γ, hΓ, hnear⟩ := h
  obtain rfl | ⟨t, β, Γ, rfl⟩ := hΓ.cases_emit he
  · cases hΓ
    cases hs
  cases hhas : t.has chr with
  | false =>
    rw [(hΓ.afterChr chr).1 hhas] at hs
    cases hs
  | true =>
    obtain ⟨s', heq, hst⟩ := (hΓ.afterChr chr).2 hhas
    rw [heq] at hs
    cases hs
    refine ⟨push β Γ, hst, ?_⟩
    rw [flatten_push]
    exact Near.term hnear (.inl ⟨chr, hhas⟩)

lemma NearRoot.afterToken {token : UInt32} {s : GrStack} (h : NearRoot G root stack)
    (he : visit G.rules stack = .emit) (hs : s ∈ Grammar.afterToken G.rules token stack) : NearRoot G root s := by
  obtain ⟨Γ, hΓ, hnear⟩ := h
  cases stack with
  | nil => cases hs
  | cons p rest =>
    rw [Grammar.afterToken] at hs
    split at hs
    · rename_i hm
      cases hs
      obtain ⟨negated, id, β, Γ', rfl, helem, hp, hrest⟩ | ⟨t, β, Γ', rfl, hp, hrest, hno⟩ := hΓ.token_or he
      · rw [helem, matchToken_token, Option.some.injEq] at hm
        refine ⟨push β Γ', stands_pushPos hp.tail hrest, ?_⟩
        rw [flatten_push]
        exact Near.term hnear (.inr ⟨token, hm⟩)
      · exfalso
        exact hno (token_of_matchToken hm)
    · cases hs

lemma keeps_near (hstays : G.Stays root) : Keeps G fun s => visit G.rules s = .emit ∧ NearRoot G root s := by
  rintro s ⟨he, hnear⟩
  refine ⟨he, ⟨hnear.choose, hnear.choose_spec.1⟩, fun s' hs' => ?_⟩
  have hnear' : NearRoot G root s' := by
    obtain ⟨chr, hchr⟩ | ⟨token, htoken⟩ := hs'
    · exact hnear.afterChr he hchr
    · exact hnear.afterToken he htoken
  exact ⟨advances_of_near hstays hnear', fun x hx hr => ⟨hx, hnear'.reaches hr⟩⟩

lemma near_start {i : Nat} (hi : i ∈ alternates (G.rules.getD root [])) :
    NearRoot G root (pushPos G.rules ⟨root, i⟩ []) := by
  obtain ⟨α, hα, hp⟩ := exists_of_forall₂ (points_rule G root) hi
  refine ⟨push α [], stands_pushPos hp .nil, ?_⟩
  rw [flatten_push]
  intro β₁ B β₂ heq hpass
  rw [flatten_nil, append_nil] at heq
  exact .step root B β₁ β₂ .root (heq ▸ hα) hpass

end Near

/-- If the check reports nothing and no rule that is reached comes back to itself from the left with something behind
it, the initial stacks are built and every run over code points and tokens ends. -/
theorem LlamaGrammar.run_ends {n : Nat} (G : RuleSet n) (root : Fin n) (hstays : G.Stays root)
    (hdetect : ∃ N, ∀ fuel, N ≤ fuel → detectAll fuel G.rules (List.range G.rules.length) {} = some false)
    (ops : List GrOp) : ∃ N g₀ g, (∀ fuel, N ≤ fuel → LlamaGrammar.init fuel G.rules root = some (some g₀)) ∧
      ∀ fuel, N ≤ fuel → g₀.run fuel ops = some g := by
  obtain ⟨N₁, hdetect⟩ := hdetect
  obtain ⟨N₂, out, hrun, hmem⟩ := foldlM_advance (alternates (G.rules.getD root [])) (fun i hi out =>
    advances_of_near hstays (near_start hi) out) []
  have hholds : LlamaGrammar.Holds G (fun s => visit G.rules s = .emit ∧ NearRoot G root s)
      { rules := G.rules, grStacks := out } := by
    refine ⟨rfl, fun x hx => ?_⟩
    obtain hx | ⟨i, hi, he, hr⟩ := (hmem x).1 hx
    · cases hx
    · exact ⟨he, (near_start hi).reaches hr⟩
  obtain ⟨N₃, g, hrun', -⟩ := hholds.run (keeps_near hstays) ops
  refine ⟨max N₁ (max N₂ N₃), { rules := G.rules, grStacks := out }, g, fun fuel hle => ?_,
    fun fuel hle => hrun' fuel (by omega)⟩
  unfold LlamaGrammar.init
  simp only [map_copyRule, hdetect fuel (by omega), Option.bind_eq_bind, Option.bind_some, Bool.false_eq_true,
    if_false, hrun fuel (by omega), Option.pure_def]

/-- The rules can be ranked so that a rule is of no greater rank than one that it occurs in, and of smaller rank if
something stands behind it. -/
lemma stays_of_rank {n : Nat} {G : RuleSet n} (rank : Fin n → Nat) (h : ∀ A, ∀ α ∈ G.alts A, ∀ i < α.length, ∀ B,
    α[i]? = some (.ref B) → rank B ≤ rank A ∧ (i + 1 < α.length → rank B < rank A)) (root : Fin n) : G.Stays root := by
  have hopens : ∀ {A B γ}, Opens G.alts A B γ → rank B ≤ rank A ∧ (γ ≠ [] → rank B < rank A) := by
    rintro A B γ ⟨β, hβ, -⟩
    have hrank := h A _ hβ β.length (by simp) B (by simp)
    exact ⟨hrank.1, fun hne => hrank.2 (by simpa using length_pos_of_ne_nil hne)⟩
  rintro A - ⟨B, γ, hc, ho, hne⟩
  have hle : rank B ≤ rank A := by
    clear ho
    induction hc with
    | refl => exact Nat.le_refl _
    | tail _ h ih =>
      obtain ⟨_, h⟩ := h
      exact (hopens h).1.trans ih
  exact absurd ((hopens ho).2 hne) hle.not_gt

/-- `root ::= b root | "y"`, `b ::= c`, `c ::= ""`. -/
def restRules : RuleSet 3 where
  alts := fun A => match A with
    | 0 => [[.ref 1, .ref 0], [.term (.cls (.chars false (.one 121) []))]]
    | 1 => [[.ref 2]]
    | 2 => [[]]
  nonempty := fun A => by
    match A with
    | 0 | 1 | 2 => simp
  small := by decide

/-- `root` comes back to itself behind the empty string, and leaves nothing behind. -/
theorem LlamaGrammar.run_ends_rest : ∃ N g₀ g,
    (∀ fuel, N ≤ fuel → LlamaGrammar.init fuel restRules.rules (0 : Fin 3) = some (some g₀)) ∧
      ∀ fuel, N ≤ fuel → g₀.run fuel [.accept 121, .acceptToken 7 [98]] = some g := by
  refine LlamaGrammar.run_ends restRules 0 (stays_of_rank (fun A => if A = 0 then 1 else 0) ?_ 0) ⟨4, fun fuel hle => ?_⟩ _
  · rintro A α hα i hi B hB
    match A with
    | 0 =>
      rcases List.mem_pair.1 hα with rfl | rfl
      · have hi : i = 0 ∨ i = 1 := by
          have : i < 2 := hi
          omega
        obtain rfl | rfl := hi <;> cases hB <;> decide
      · cases Nat.lt_one_iff.1 hi
        cases hB
    | 1 =>
      cases mem_singleton.1 hα
      cases Nat.lt_one_iff.1 hi
      cases hB
      decide
    | 2 =>
      cases mem_singleton.1 hα
      cases hB
  · obtain ⟨k, rfl⟩ := Nat.exists_eq_add_of_le' hle
    rfl
/-- `root ::= b root "x" | "y"`, `b ::= c`, `c ::= ""`. -/
def hiddenRules : RuleSet 3 where
  alts := fun A => match A with
    | 0 => [[.ref 1, .ref 0, .term (.cls (.chars false (.one 120) []))], [.term (.cls (.chars false (.one 121) []))]]
    | 1 => [[.ref 2]]
    | 2 => [[]]
  nonempty := fun A => by
    match A with
    | 0 | 1 | 2 => simp
  small := by decide

lemma hiddenRules_grows (rest : GrStack) :
    Reaches (visit hiddenRules.rules) (⟨0, 0⟩ :: rest) (⟨0, 0⟩ :: ⟨0, 2⟩ :: rest) := by
  have h1 : Child (visit hiddenRules.rules) (⟨1, 0⟩ :: ⟨0, 1⟩ :: rest) (⟨0, 0⟩ :: rest) := ⟨_, rfl, .head _⟩
  have h2 : Child (visit hiddenRules.rules) (⟨0, 1⟩ :: rest) (⟨1, 0⟩ :: ⟨0, 1⟩ :: rest) := ⟨_, rfl, .head _⟩
  have h3 : Child (visit hiddenRules.rules) (⟨0, 0⟩ :: ⟨0, 2⟩ :: rest) (⟨0, 1⟩ :: rest) := ⟨_, rfl, .head _⟩
  have hr : Reaches (visit hiddenRules.rules) (⟨0, 0⟩ :: rest) (⟨1, 0⟩ :: ⟨0, 1⟩ :: rest) := .single h1
  exact (hr.tail h2).tail h3

/-- The check reports nothing, but the first stack is never advanced to an end: `b` derives the empty string only
through `c`. -/
theorem LlamaGrammar.hidden_recursion_never_ends :
    (∀ fuel, detectAll (fuel + 4) hiddenRules.rules (List.range hiddenRules.rules.length) {} = some false) ∧
      ∀ fuel, advanceStack fuel hiddenRules.rules (pushPos hiddenRules.rules ⟨0, 0⟩ []) [] = none := by
  refine ⟨fun _ => rfl, fun fuel => ?_⟩
  cases hrun : advanceStack fuel hiddenRules.rules (pushPos hiddenRules.rules ⟨0, 0⟩ []) [] with
  | none => rfl
  | some out =>
    have hreach : ∀ k, Reaches (visit hiddenRules.rules) [⟨0, 0⟩] (⟨0, 0⟩ :: List.replicate k ⟨0, 2⟩) := by
      intro k
      induction k with
      | zero => exact .refl
      | succ k ih => exact ih.trans (hiddenRules_grows _)
    have hinj : Function.Injective fun k => (⟨0, 0⟩ :: List.replicate k ⟨0, 2⟩ : GrStack) := by
      intro k k' heq
      have hlen := congrArg List.length heq
      simpa using hlen
    have hfin : (Set.range fun k => (⟨0, 0⟩ :: List.replicate k ⟨0, 2⟩ : GrStack)).Finite := by
      refine (finite_of_search hrun).subset ?_
      rintro x ⟨k, rfl⟩
      exact hreach k
    exact absurd hfin (Set.infinite_range_of_injective hinj)

end Grammar

end Mallana
