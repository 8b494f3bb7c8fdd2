import Mathlib.Data.Fintype.EquivFin
import Mathlib.Logic.Function.Basic
import Mallana.Grammar.Denote

/-!
# A grammar without left recursion is not refused

`llama_grammar_init_impl` copies the rules and looks for left recursion. The rules that are in progress are left
ancestors of the rule that is looked at, and a rule that is marked as empty has an empty alternative. So a rule is
met twice only if it reaches itself from the left.
-/

namespace Mallana

open Lib List

namespace Grammar

section Detect
variable {n : Nat} {G : RuleSet n} {d : Marks} {A B : Fin n} {es : List GrElement}

lemma type_of_mem_term {t : GrTerm} {e : GrElement} (h : e ∈ t.elems) : e.type ≠ .ruleRef := by
  have hitem : ∀ (i : CharItem) {type : GreType}, type ≠ .ruleRef → ∀ e ∈ i.elems type, e.type ≠ .ruleRef := by
    intro i type ht e he
    cases i with
    | one a =>
      rw [mem_singleton.1 he]
      exact ht
    | range a b =>
      obtain rfl | he := mem_cons.1 he
      · exact ht
      · rw [mem_singleton.1 he]
        simp
  match t with
  | .cls .any =>
    rw [mem_singleton.1 h]
    decide
  | .cls (.chars negated first more) =>
    obtain h | h := mem_append.1 h
    · exact hitem first (by cases negated <;> decide) e h
    · obtain ⟨i, -, h⟩ := mem_flatMap.1 h
      exact hitem i (by decide) e h
  | .token negated id =>
    rw [mem_singleton.1 h]
    cases negated <;> simp

lemma hasEmpty_append (h : ∀ e ∈ es, isEndOfSequence e = false) (atRuleStart : Bool) (rest : List GrElement) :
    hasEmpty atRuleStart (es ++ rest) = hasEmpty (atRuleStart && es.isEmpty) rest := by
  induction es generalizing atRuleStart with
  | nil => rw [nil_append, isEmpty_nil, Bool.and_true]
  | cons e es ih =>
    simp only [mem_cons, forall_eq_or_imp] at h
    rw [cons_append, hasEmpty, h.1, if_neg Bool.false_ne_true, ih h.2, Bool.false_and, isEmpty_cons,
      Bool.and_false]

lemma seqElems_ne_nil {α : List (GrSym n)} (h : α ≠ []) : RuleSet.seqElems α ≠ [] := by
  cases α with
  | nil => exact absurd rfl h
  | cons x α =>
    obtain ⟨e, es, hx, -⟩ := exists_starts x
    rw [RuleSet.seqElems, flatMap_cons, hx]
    exact cons_ne_nil e _

lemma nil_mem_of_hasEmpty {αs : List (List (GrSym n))} (hne : αs ≠ [])
    (h : hasEmpty true (RuleSet.ruleElems αs) = true) : [] ∈ αs := by
  induction αs with
  | nil => exact absurd rfl hne
  | cons α αs ih =>
    by_cases hα : α = []
    · rw [hα]
      exact mem_cons_self
    have hskip : ∀ rest, hasEmpty true (RuleSet.seqElems α ++ rest) = hasEmpty false rest := by
      intro rest
      rw [hasEmpty_append fun e he => isEnd_of_mem_seqElems he, isEmpty_eq_false_iff.2 (seqElems_ne_nil hα)]
      rfl
    cases αs with
    | nil =>
      rw [RuleSet.ruleElems, hskip] at h
      cases h
    | cons α' αs =>
      rw [RuleSet.ruleElems, hskip] at h
      · exact mem_cons_of_mem α (ih (by simp) h)
      · simp

/-- The marks at a rule below the rules that are in progress. -/
structure MarksOk (G : RuleSet n) (d : Marks) : Prop where
  empty : ∀ A : Fin n, d.mayBeEmpty A = true → [] ∈ G.alts A

/-- Looking at a rule ends without left recursion, and leaves the rules that are in progress. -/
def Finds (G : RuleSet n) (below : Nat → Bool) (B : Fin n) : Prop :=
  ∀ d, MarksOk G d → d.inProgress = below → ∃ N d', MarksOk G d' ∧ d'.inProgress = below ∧
    ∀ fuel, N ≤ fuel → detectLeftRecursion G.rules fuel B d = some (false, d')

lemma detectElems_term {detect : Nat → Marks → Option (Bool × Marks)} (h : ∀ e ∈ es, e.type ≠ .ruleRef)
    (h' : ∀ e ∈ es, isEndOfSequence e = false) (hne : es ≠ []) (rest : List GrElement) (recurse : Bool) (d : Marks) :
    detectElems detect (es ++ rest) recurse d = detectElems detect rest false d := by
  induction es generalizing recurse with
  | nil => exact absurd rfl hne
  | cons e es ih =>
    simp only [mem_cons, forall_eq_or_imp] at h h'
    rw [cons_append, detectElems, if_neg fun hr => h.1 hr.1, h'.1]
    cases es with
    | nil => rfl
    | cons e' es => exact ih h.2 h'.2 (by simp) false

lemma detectElems_seq {below : Nat → Bool} (β : List (GrSym n)) {recurse : Bool}
    (hfind : recurse = true → ∀ B, Begins G.alts β B → Finds G below B) {d : Marks} (hd : MarksOk G d)
    (hbelow : d.inProgress = below) :
    ∃ N d' recurse', MarksOk G d' ∧ d'.inProgress = below ∧ ∀ fuel, N ≤ fuel → ∀ rest,
      detectElems (detectLeftRecursion G.rules fuel) (RuleSet.seqElems β ++ rest) recurse d =
        detectElems (detectLeftRecursion G.rules fuel) rest recurse' d' := by
  induction β generalizing recurse d with
  | nil => exact ⟨0, d, recurse, hd, hbelow, fun _ _ _ => rfl⟩
  | cons x β ih =>
    cases x with
    | term t =>
      obtain ⟨N, d', recurse', hd', hbelow', hrun⟩ := ih (fun h => absurd h Bool.false_ne_true) hd hbelow
      refine ⟨N, d', recurse', hd', hbelow', fun fuel hle rest => ?_⟩
      obtain ⟨e, es, ht, -⟩ := exists_starts (.term t : GrSym n)
      rw [RuleSet.seqElems, flatMap_cons, append_assoc, ← hrun fuel hle rest]
      exact detectElems_term (fun e he => type_of_mem_term he)
        (fun e he => isEnd_of_mem_elems (show e ∈ GrSym.elems (.term t : GrSym n) from he))
        (by rw [show t.elems = e :: es from ht]; simp) _ recurse d
    | ref B =>
      have hstep : ∀ fuel rest, detectElems (detectLeftRecursion G.rules fuel)
          (RuleSet.seqElems (.ref B :: β) ++ rest) recurse d =
          detectElems (detectLeftRecursion G.rules fuel)
            (⟨.ruleRef, UInt32.ofNat B⟩ :: (RuleSet.seqElems β ++ rest)) recurse d := fun _ _ => rfl
      cases recurse with
      | false =>
        obtain ⟨N, d', recurse', hd', hbelow', hrun⟩ := ih (fun h => absurd h Bool.false_ne_true) hd hbelow
        refine ⟨N, d', recurse', hd', hbelow', fun fuel hle rest => ?_⟩
        rw [hstep, detectElems, if_neg (by simp)]
        exact hrun fuel hle rest
      | true =>
        obtain ⟨N₁, d₁, hd₁, hbelow₁, hrun₁⟩ := hfind rfl B .here d hd hbelow
        have hfind' : d₁.mayBeEmpty B = true → ∀ B', Begins G.alts β B' → Finds G below B' :=
          fun hempty B' hB' => hfind rfl B' (.skip (hd₁.empty B hempty) .nil hB')
        obtain ⟨N₂, d₂, recurse', hd₂, hbelow₂, hrun₂⟩ := ih hfind' hd₁ hbelow₁
        refine ⟨max N₁ N₂, d₂, recurse', hd₂, hbelow₂, fun fuel hle rest => ?_⟩
        rw [hstep, detectElems, if_pos ⟨rfl, rfl⟩]
        simp only [toNat_ofNat G, hrun₁ fuel (by omega), Option.bind_eq_bind, Option.bind_some,
          Bool.false_eq_true, if_false]
        exact hrun₂ fuel (by omega) rest

lemma detectElems_rule {below : Nat → Bool} (αs : List (List (GrSym n)))
    (hfind : ∀ α ∈ αs, ∀ B, Begins G.alts α B → Finds G below B) {d : Marks} (hd : MarksOk G d)
    (hbelow : d.inProgress = below) : ∃ N d', MarksOk G d' ∧ d'.inProgress = below ∧ ∀ fuel, N ≤ fuel →
      detectElems (detectLeftRecursion G.rules fuel) (RuleSet.ruleElems αs) true d = some (false, d') := by
  induction αs generalizing d with
  | nil => exact ⟨0, d, hd, hbelow, fun _ _ => rfl⟩
  | cons α αs ih =>
    obtain ⟨hα, hαs⟩ := forall_mem_cons.1 hfind
    obtain ⟨N₁, d₁, recurse', hd₁, hbelow₁, hrun₁⟩ := detectElems_seq α (fun _ => hα) hd hbelow
    cases αs with
    | nil =>
      refine ⟨N₁, d₁, hd₁, hbelow₁, fun fuel hle => ?_⟩
      rw [RuleSet.ruleElems, hrun₁ fuel hle]
      rfl
    | cons α' αs =>
      obtain ⟨N₂, d₂, hd₂, hbelow₂, hrun₂⟩ := ih hαs hd₁ hbelow₁
      refine ⟨max N₁ N₂, d₂, hd₂, hbelow₂, fun fuel hle => ?_⟩
      rw [RuleSet.ruleElems, hrun₁ fuel (by omega), detectElems, if_neg (by simp)]
      · exact hrun₂ fuel (by omega)
      · simp

lemma finds_of_ancestors (hleft : ¬ LeftRecursive G.alts) (B : Fin n) (below : Nat → Bool)
    (hbelow : ∀ A : Fin n, below A = true → Relation.TransGen (LeftCorner G.alts) A B) : Finds G below B := by
  induction B using (wellFounded_leftCorner hleft).induction generalizing below with
  | _ B ih =>
    intro d hd hd'
    have hno : below B = false := by
      by_contra hB
      exact hleft ⟨B, hbelow B (by simpa using hB)⟩
    have hok : MarksOk G (d.enter B (RuleSet.ruleElems (G.alts B))) := by
      refine ⟨fun A hA => ?_⟩
      unfold Marks.enter at hA
      dsimp only at hA
      split at hA
      · rename_i hempty
        by_cases hAB : A = B
        · rw [hAB]
          exact nil_mem_of_hasEmpty (G.nonempty B) hempty
        · rw [Function.update_of_ne fun h => hAB (Fin.ext h)] at hA
          exact hd.empty A hA
      · exact hd.empty A hA
    have hprog : (d.enter B (RuleSet.ruleElems (G.alts B))).inProgress = Function.update below B true := by
      rw [← hd']
      rfl
    have hfind : ∀ α ∈ G.alts B, ∀ B', Begins G.alts α B' → Finds G (Function.update below B true) B' := by
      intro α hα B' hB'
      have hcorner : LeftCorner G.alts B B' := ⟨α, hα, hB'⟩
      refine ih B' hcorner _ fun A hA => ?_
      by_cases hAB : A = B
      · rw [hAB]
        exact .single hcorner
      · rw [Function.update_of_ne fun h => hAB (Fin.ext h)] at hA
        exact (hbelow A hA).tail hcorner
    obtain ⟨N, d₁, hd₁, hbelow₁, hrun⟩ := detectElems_rule (G.alts B) hfind hok hprog
    refine ⟨N + 1, d₁.leave B, ⟨hd₁.empty⟩, ?_, fun fuel hle => ?_⟩
    · unfold Marks.leave
      dsimp only
      rw [hbelow₁, Function.update_idem, ← hno, Function.update_eq_self]
    · obtain ⟨fuel, rfl⟩ : ∃ k, fuel = k + 1 := ⟨fuel - 1, by omega⟩
      rw [detectLeftRecursion, hd', hno, if_neg Bool.false_ne_true, getD_rules]
      simp only [hrun fuel (by omega), Option.bind_eq_bind, Option.bind_some, Bool.false_eq_true, if_false,
        Option.pure_def]

lemma detectAll_false (hleft : ¬ LeftRecursive G.alts) (is : List Nat) (his : ∀ i ∈ is, i < n) {d : Marks}
    (hd : MarksOk G d) (hprog : d.inProgress = fun _ => false) :
    ∃ N, ∀ fuel, N ≤ fuel → detectAll fuel G.rules is d = some false := by
  induction is generalizing d with
  | nil => exact ⟨0, fun _ _ => rfl⟩
  | cons i is ih =>
    obtain ⟨hi, his⟩ := forall_mem_cons.1 his
    by_cases hv : d.visited i = true
    · obtain ⟨N, hrun⟩ := ih his hd hprog
      refine ⟨N, fun fuel hle => ?_⟩
      rw [detectAll, if_pos hv]
      exact hrun fuel hle
    · obtain ⟨N₁, d₁, hd₁, hprog₁, hrun₁⟩ :=
        finds_of_ancestors hleft ⟨i, hi⟩ (fun _ => false) (fun _ h => by cases h) d hd hprog
      obtain ⟨N₂, hrun₂⟩ := ih his hd₁ hprog₁
      refine ⟨max N₁ N₂, fun fuel hle => ?_⟩
      rw [detectAll, if_neg hv, hrun₁ fuel (by omega)]
      exact hrun₂ fuel (by omega)

end Detect

section Copy
variable {n : Nat}

lemma type_ne_end {e : GrElement} (h : isEndOfSequence e = false) : e.type ≠ .end := by
  intro ht
  rw [isEndOfSequence, ht] at h
  cases h

lemma copyRule_ruleElems (αs : List (List (GrSym n))) :
    LlamaGrammar.copyRule (RuleSet.ruleElems αs) = RuleSet.ruleElems αs := by
  unfold LlamaGrammar.copyRule
  induction αs with
  | nil => rfl
  | cons α αs ih =>
    have hseq : ∀ e ∈ RuleSet.seqElems α, (decide (e.type ≠ .end)) = true := fun e he =>
      decide_eq_true (type_ne_end (isEnd_of_mem_seqElems he))
    cases αs with
    | nil =>
      rw [RuleSet.ruleElems, takeWhile_append_of_pos hseq]
      simp
    | cons α' αs =>
      rw [RuleSet.ruleElems, takeWhile_append_of_pos hseq, takeWhile_cons_of_pos (by decide),
        append_assoc, cons_append, ih]
      simp

lemma map_copyRule (G : RuleSet n) : G.rules.map LlamaGrammar.copyRule = G.rules := by
  unfold RuleSet.rules
  rw [map_ofFn]
  congr 1
  funext A
  exact copyRule_ruleElems (G.alts A)

end Copy

end Grammar

end Mallana
