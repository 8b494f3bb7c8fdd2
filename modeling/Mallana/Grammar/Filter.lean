import Mathlib.Data.List.TakeWhile
import Mallana.Grammar.Accept

/-!
# The filter of candidates and the acceptance of tokens

`llama_grammar_apply_impl` follows all candidates through the stacks at once, `llama_grammar_accept_token` one token.
A candidate is kept by the filter if it fits one of the stacks (`Fits`). The filter looks at more than
`llama_grammar_accept_token` does: at an incomplete sequence at the end of a piece, and at token elements that are
reached inside a piece. Apart from these the two agree.
-/

namespace Mallana

open Lib List Option

namespace Grammar

/-- The filter leaves a candidate with these code points to the stack. -/
def Fits (rules : GrRules) (partialUtf8 : PartialUtf8) (id : UInt32) : List UInt32 → GrStack → Prop
  | [], [] => partialUtf8.nRemain = 0
  | [], p :: _ => partialUtf8.nRemain = 0 ∨ matchPartialChar rules p partialUtf8 = some true
  | chr :: chrs, s => (∃ s', s' ∈ afterToken rules id s) ∨
      ∃ s' ∈ afterChr rules chr s, ∃ y, visit rules y = .emit ∧ Reaches (visit rules) s' y ∧
        Fits rules partialUtf8 id chrs y

/-- The code points of a candidate from its place on, up to a zero. -/
def Candidate.rest (tok : Candidate) : List UInt32 := (tok.codePoints.drop tok.pos).takeWhile (· ≠ 0)

def Candidate.Fits (rules : GrRules) (tok : Candidate) (s : GrStack) : Prop :=
  Grammar.Fits rules tok.partialUtf8 tok.id tok.rest s

section Candidates
variable {tok : Candidate}

lemma Candidate.drop_eq (tok : Candidate) : tok.codePoints.drop tok.pos = [] ∧ tok.chr = 0 ∨
    tok.codePoints.drop tok.pos = tok.chr :: tok.codePoints.drop (tok.pos + 1) := by
  unfold Candidate.chr
  by_cases hlt : tok.pos < tok.codePoints.length
  · rw [getD_eq_getElem _ _ hlt]
    exact .inr (drop_eq_getElem_cons hlt)
  · rw [getD_eq_default _ _ (Nat.le_of_not_lt hlt)]
    exact .inl ⟨drop_eq_nil_of_le (Nat.le_of_not_lt hlt), rfl⟩

lemma Candidate.rest_of_zero (h : tok.chr = 0) : tok.rest = [] := by
  unfold Candidate.rest
  obtain ⟨hd, -⟩ | hd := tok.drop_eq
  · rw [hd]
    rfl
  · rw [hd, takeWhile_cons_of_neg (by simp [h])]

lemma Candidate.rest_of_ne (h : tok.chr ≠ 0) : tok.rest = tok.chr :: tok.forth.rest := by
  unfold Candidate.rest Candidate.forth
  obtain ⟨-, hz⟩ | hd := tok.drop_eq
  · exact absurd hz h
  · rw [hd, takeWhile_cons_of_pos (by simp [h])]

end Candidates

section Stack
variable {n : Nat} {G : RuleSet n} {p : GrPos} {rest : GrStack} {β : List (GrSym n)}

variable {Γ : List (List (GrSym n))} {s : GrStack} {t : CharClass} {m : Nat}

lemma exists_emit (hacc : Acc (Child (expand G.alts)) Γ) (hne : [] ∉ Γ) :
    ∃ Δ, Reaches (expand G.alts) Γ Δ ∧ expand G.alts Δ = .emit := by
  induction hacc with
  | intro Γ _ ih =>
    match Γ with
    | [] => exact ⟨[], .refl, rfl⟩
    | [] :: _ => exact absurd mem_cons_self hne
    | (.term t :: γ) :: Γ' => exact ⟨_, .refl, rfl⟩
    | (.ref A :: γ) :: Γ' =>
      obtain ⟨α, hα⟩ := exists_mem_of_ne_nil _ (G.nonempty A)
      have hc : Child (expand G.alts) (push α (push γ Γ')) ((.ref A :: γ) :: Γ') :=
        ⟨_, rfl, List.mem_map.2 ⟨α, hα, rfl⟩⟩
      have hne' : [] ∉ push α (push γ Γ') := fun hmem =>
        hne (mem_cons_of_mem _ (mem_of_mem_push (mem_of_mem_push hmem)))
      obtain ⟨Δ, hr, he⟩ := ih _ hc hne'
      exact ⟨Δ, Relation.ReflTransGen.head hc hr, he⟩

lemma exists_reaches_emit (hleft : ¬ LeftRecursive G.alts)
    (h : Stands G.rules s Γ) : ∃ x, visit G.rules x = .emit ∧ Reaches (visit G.rules) s x := by
  obtain ⟨Δ, hr, he⟩ := exists_emit (acc_expand hleft Γ) h.nil_notMem
  obtain ⟨x, hx, hΔ⟩ := reaches_of_sim' (fun _ _ => sameVisit) h hr
  exact ⟨x, (sameVisit hΔ).emit_iff.2 he, hx⟩

def Ready (G : RuleSet n) (s : GrStack) : Prop := visit G.rules s = .emit ∧ ∃ Γ : List (List (GrSym n)), Stands G.rules s Γ

lemma stands_afterChr {chr : UInt32} {s' : GrStack} (h : Ready G s) (hs : s' ∈ afterChr G.rules chr s) :
    ∃ Γ : List (List (GrSym n)), Stands G.rules s' Γ := by
  obtain ⟨he, Γ, hΓ⟩ := h
  obtain rfl | ⟨t, β, Γ, rfl⟩ := hΓ.cases_emit he
  · cases hΓ
    cases hs
  cases hhas : t.has chr with
  | false =>
    rw [(hΓ.afterChr chr).1 hhas] at hs
    cases hs
  | true =>
    obtain ⟨s₁, heq, hst⟩ := (hΓ.afterChr chr).2 hhas
    rw [heq] at hs
    cases hs
    exact ⟨_, hst⟩

lemma Stands.afterToken {s' : GrStack} {token : UInt32} (h : Stands G.rules s Γ)
    (he : visit G.rules s = .emit) (hs : s' ∈ Grammar.afterToken G.rules token s) :
    ∃ p rest, s = p :: rest ∧ ((elem G.rules p).type = .token ∨ (elem G.rules p).type = .tokenNot) ∧
      ∃ t β Γ', Γ = (.term t :: β) :: Γ' ∧ t.hasToken token = true ∧ Stands G.rules s' (push β Γ') := by
  cases s with
  | nil => cases hs
  | cons p rest =>
    rw [Grammar.afterToken] at hs
    split at hs
    · rename_i hm
      cases hs
      obtain ⟨negated, id, β, Γ', rfl, helem, hp, hrest⟩ | ⟨t, β, Γ', rfl, hp, hrest, hno⟩ := h.token_or he
      · rw [helem, matchToken_token, Option.some.injEq] at hm
        refine ⟨p, rest, rfl, ?_, _, β, Γ', rfl, hm, stands_pushPos hp.tail hrest⟩
        rw [helem]
        exact isToken negated id
      · exfalso
        exact hno (token_of_matchToken hm)
    · cases hs

lemma keeps_ready (hleft : ¬ LeftRecursive G.alts) : Keeps G (Ready G) := by
  rintro s hs
  refine ⟨hs.1, hs.2, fun s' hs' => ?_⟩
  have hst : ∃ Γ : List (List (GrSym n)), Stands G.rules s' Γ := by
    obtain ⟨chr, hchr⟩ | ⟨token, htoken⟩ := hs'
    · exact stands_afterChr hs hchr
    · obtain ⟨Γ, hΓ⟩ := hs.2
      obtain ⟨-, -, -, -, t, β, Γ', -, -, hst⟩ := hΓ.afterToken hs.1 htoken
      exact ⟨_, hst⟩
  obtain ⟨Γ, hΓ⟩ := hst
  refine ⟨advances_of_not_leftRecursive hleft hΓ, fun x hx hr => ⟨hx, ?_⟩⟩
  obtain ⟨Δ, -, hΔ⟩ := reaches_of_sim (fun _ _ => sameVisit) hΓ hr
  exact ⟨Δ, hΔ⟩

lemma Points.matchPartialChar (h : Points G.rules p (.term (.cls t) :: β)) (partialUtf8 : PartialUtf8) :
    ∃ b, Grammar.matchPartialChar G.rules p partialUtf8 = some b := by
  obtain ⟨e, es, hx, hchar⟩ := exists_char t
  have helem : elem G.rules p = e := h.elem_cons hx
  unfold Grammar.matchPartialChar
  dsimp only
  rw [helem]
  have htype : (decide (e.type = .char ∨ e.type = .charAny) || decide (e.type = .charNot)) = true := by
    obtain ht | ht | ht := hchar <;> rw [ht] <;> rfl
  rw [if_pos htype]
  split
  · exact ⟨_, rfl⟩
  · exact ⟨_, rfl⟩

lemma Points.fateAtChar (h : Points G.rules p (.term (.cls t) :: β)) (tok : Candidate) :
    ∃ f, Grammar.fateAtChar G.rules p tok = some f ∧
      (f = .next ↔ tok.chr ≠ 0 ∧ t.has tok.chr = true) ∧
      (f = .keep ↔ tok.chr = 0 ∧ (tok.partialUtf8.nRemain = 0 ∨
        Grammar.matchPartialChar G.rules p tok.partialUtf8 = some true)) := by
  unfold Grammar.fateAtChar
  by_cases hz : tok.chr = 0
  · rw [if_pos hz]
    by_cases hn : tok.partialUtf8.nRemain ≠ 0
    · obtain ⟨b, hb⟩ := h.matchPartialChar tok.partialUtf8
      rw [if_pos hn, hb]
      refine ⟨if b then .keep else .reject, rfl, ?_, ?_⟩
      · cases b <;> simp [hz]
      · cases b <;> simp [hz, hn]
    · rw [if_neg hn]
      refine ⟨.keep, rfl, by simp [hz], ?_⟩
      simp [hz, not_not.1 hn]
  · rw [if_neg hz, h.matchChar]
    refine ⟨if t.has tok.chr then .next else .reject, rfl, ?_, ?_⟩
    · cases t.has tok.chr <;> simp [hz]
    · cases t.has tok.chr <;> simp [hz]

lemma mapM_of_forall {α γ : Type} {g : α → Option γ} {f : α → γ} (h : ∀ a, g a = some (f a)) (l : List α) :
    l.mapM g = some (l.map f) := by
  induction l with
  | nil => rfl
  | cons a l ih =>
    rw [mapM_cons, h a, ih]
    rfl

/-- The filter of one stack leaves over the candidates that do not fit. -/
def Filters (rules : GrRules) (s : GrStack) : Prop :=
  ∀ candidates, ∃ N r, (∀ fuel, N ≤ fuel → rejectCandidatesForStack rules fuel s candidates = some r) ∧
    ∀ tok, tok ∈ r ↔ tok ∈ candidates ∧ ¬ tok.Fits rules s

/-- The filter of one stack, for candidates with few code points. -/
def FiltersUpTo (rules : GrRules) (m : Nat) (s : GrStack) : Prop :=
  ∀ candidates : List Candidate, (∀ tok ∈ candidates, tok.rest.length ≤ m) →
    ∃ N r, (∀ fuel, N ≤ fuel → rejectCandidatesForStack rules fuel s candidates = some r) ∧
      ∀ tok, tok ∈ r ↔ tok ∈ candidates ∧ ¬ tok.Fits rules s

lemma foldlM_filters {l : List GrStack} (hl : ∀ s ∈ l, FiltersUpTo G.rules m s) (cands : List Candidate)
    (hm : ∀ tok ∈ cands, tok.rest.length ≤ m) :
    ∃ N r, (∀ fuel, N ≤ fuel → l.foldlM (fun rejects s => rejectCandidatesForStack G.rules fuel s rejects) cands =
        some r) ∧ ∀ tok, tok ∈ r ↔ tok ∈ cands ∧ ∀ s ∈ l, ¬ tok.Fits G.rules s := by
  induction l generalizing cands with
  | nil => exact ⟨0, cands, fun _ _ => rfl, fun tok => by simp⟩
  | cons s l ih =>
    obtain ⟨hs, hl⟩ := forall_mem_cons.1 hl
    obtain ⟨N₁, r₁, hrun₁, hmem₁⟩ := hs cands hm
    obtain ⟨N₂, r₂, hrun₂, hmem₂⟩ := ih hl r₁ fun tok htok => hm tok ((hmem₁ tok).1 htok).1
    refine ⟨max N₁ N₂, r₂, fun fuel hle => ?_, fun tok => ?_⟩
    · rw [foldlM_cons, hrun₁ fuel (by omega)]
      exact hrun₂ fuel (by omega)
    · rw [hmem₂, hmem₁, forall_mem_cons, and_assoc]

lemma rejectCandidates_spec {l : List GrStack} (hne : l ≠ []) (hl : ∀ s ∈ l, FiltersUpTo G.rules m s)
    (cands : List Candidate) (hm : ∀ tok ∈ cands, tok.rest.length ≤ m) :
    ∃ N r, (∀ fuel, N ≤ fuel → rejectCandidates (rejectCandidatesForStack G.rules fuel) l cands = some r) ∧
      ∀ tok, tok ∈ r ↔ tok ∈ cands ∧ ∀ s ∈ l, ¬ tok.Fits G.rules s := by
  cases l with
  | nil => exact absurd rfl hne
  | cons s l =>
    by_cases hc : cands = []
    · refine ⟨0, [], fun fuel _ => ?_, fun tok => ?_⟩
      · rw [rejectCandidates, if_pos hc]
      · simp [hc]
    · obtain ⟨N, r, hrun, hmem⟩ := foldlM_filters hl cands hm
      refine ⟨N, r, fun fuel hle => ?_, hmem⟩
      rw [rejectCandidates, if_neg hc]
      exact hrun fuel hle

lemma fits_zero {tok : Candidate} (h : tok.chr = 0) (s : GrStack) :
    tok.Fits G.rules s ↔ tok.partialUtf8.nRemain = 0 ∨
      ∃ p ∈ s.head?, matchPartialChar G.rules p tok.partialUtf8 = some true := by
  unfold Candidate.Fits
  rw [Candidate.rest_of_zero h]
  cases s with
  | nil => simp [Fits]
  | cons p rest => simp [Fits]

lemma fits_chr {tok : Candidate} (h : tok.chr ≠ 0) (s : GrStack) :
    tok.Fits G.rules s ↔ (∃ s', s' ∈ afterToken G.rules tok.id s) ∨ ∃ s' ∈ afterChr G.rules tok.chr s,
      ∃ y, visit G.rules y = .emit ∧ Reaches (visit G.rules) s' y ∧
        tok.forth.Fits G.rules y := by
  unfold Candidate.Fits
  rw [Candidate.rest_of_ne h]
  rfl

lemma filters_nil : Filters G.rules [] := by
  intro cands
  refine ⟨1, cands.filter fun tok => tok.chr ≠ 0 ∨ tok.partialUtf8.nRemain ≠ 0, fun fuel hle => ?_, fun tok => ?_⟩
  · obtain ⟨fuel, rfl⟩ : ∃ k, fuel = k + 1 := ⟨fuel - 1, by omega⟩
    rfl
  · rw [mem_filter]
    refine and_congr_right fun _ => ?_
    by_cases hz : tok.chr = 0
    · rw [fits_zero hz]
      simp [hz]
    · rw [fits_chr hz]
      simp [hz, afterToken, afterChr]

lemma filters_token
    (htoken : (elem G.rules p).type = .token ∨ (elem G.rules p).type = .tokenNot) : Filters G.rules (p :: rest) := by
  intro cands
  have hno : ∀ partialUtf8, matchPartialChar G.rules p partialUtf8 = none := by
    intro partialUtf8
    unfold matchPartialChar
    dsimp only
    obtain ht | ht := htoken <;> rw [ht] <;> rfl
  have hchr : ∀ chr, afterChr G.rules chr (p :: rest) = none := by
    intro chr
    rw [afterChr]
    unfold matchChar
    dsimp only
    obtain ht | ht := htoken <;> rw [ht] <;> rfl
  refine ⟨1, cands.filter fun tok =>
    if tok.chr = 0 then tok.partialUtf8.nRemain ≠ 0 else matchToken (elem G.rules p) tok.id ≠ some true,
    fun fuel hle => ?_, fun tok => ?_⟩
  · obtain ⟨fuel, rfl⟩ : ∃ k, fuel = k + 1 := ⟨fuel - 1, by omega⟩
    rw [rejectCandidatesForStack, if_pos htoken]
  · rw [mem_filter]
    refine and_congr_right fun _ => ?_
    by_cases hz : tok.chr = 0
    · rw [fits_zero hz]
      simp [hz, hno]
    · rw [fits_chr hz, hchr, afterToken]
      simp [hz]

/-- The candidates with one fate. -/
lemma mem_fated {α : Type} {f : Candidate → Fate} {x : Fate} {g : Candidate → α} {cands : List Candidate} {y : α} :
    y ∈ ((cands.map fun tok => (tok, f tok)).filter fun m => m.2 = x).map (fun m => g m.1) ↔
      ∃ tok ∈ cands, f tok = x ∧ y = g tok := by
  simp only [List.mem_map, mem_filter, decide_eq_true_eq]
  constructor
  · rintro ⟨_, ⟨⟨tok, h, rfl⟩, hf⟩, rfl⟩
    exact ⟨tok, h, hf, rfl⟩
  · rintro ⟨tok, h, hf, rfl⟩
    exact ⟨_, ⟨⟨tok, h, rfl⟩, hf⟩, rfl⟩

/-- A candidate fits at a class if its code point is in it and the rest fits a stack behind it. -/
lemma fits_class (hp : Points G.rules p (.term (.cls t) :: β))
    (hno : ¬ ((elem G.rules p).type = .token ∨ (elem G.rules p).type = .tokenNot)) {nextStacks : List GrStack}
    (hmem : ∀ x, x ∈ nextStacks ↔ x ∈ ([] : List GrStack) ∨ visit G.rules x = .emit ∧
      Reaches (visit G.rules) (pushPos G.rules { p with idx := p.idx + t.elems.length } rest) x)
    {tok : Candidate} (hz : tok.chr ≠ 0) :
    tok.Fits G.rules (p :: rest) ↔ t.has tok.chr = true ∧ ∃ s ∈ nextStacks, tok.forth.Fits G.rules s := by
  have htok : afterToken G.rules tok.id (p :: rest) = none := by
    rw [afterToken, if_neg]
    intro hmatch
    exact hno (token_of_matchToken hmatch)
  have hafter : afterChr G.rules tok.chr (p :: rest) = if t.has tok.chr then
      some (pushPos G.rules { p with idx := p.idx + t.elems.length } rest) else none := by
    rw [afterChr, hp.matchChar]
    rfl
  rw [fits_chr hz, htok, hafter]
  constructor
  · rintro (⟨s₁, hs₁⟩ | ⟨s₁, hs₁, y, he, hr, hy⟩)
    · cases hs₁
    · split at hs₁
      · rename_i hhas
        cases hs₁
        exact ⟨hhas, y, (hmem y).2 (.inr ⟨he, hr⟩), hy⟩
      · cases hs₁
  · rintro ⟨hhas, y, hy', hy⟩
    obtain ⟨he, hr⟩ := ((hmem y).1 hy').resolve_left not_mem_nil
    exact .inr ⟨_, by rw [if_pos hhas]; rfl, y, he, hr, hy⟩

/-- At a class the candidates go on with one code point, and come back. -/
lemma filters_class (hleft : ¬ LeftRecursive G.alts)
    (hp : Points G.rules p (.term (.cls t) :: β)) (hrest : Stands G.rules rest Γ)
    (hno : ¬ ((elem G.rules p).type = .token ∨ (elem G.rules p).type = .tokenNot))
    (ih : ∀ s, Ready G s → ∀ k, k < m → FiltersUpTo G.rules k s) : FiltersUpTo G.rules m (p :: rest) := by
  intro cands hm
  choose f hf hnext hkeep using hp.fateAtChar
  -- the stacks behind the class do not depend on the code point
  have hst : Stands G.rules (pushPos G.rules { p with idx := p.idx + t.elems.length } rest) (push β Γ) :=
    stands_pushPos hp.tail hrest
  obtain ⟨N₁, nextStacks, hrun₁, hmem₁⟩ := advances_of_not_leftRecursive hleft hst []
  have hready : ∀ s ∈ nextStacks, Ready G s := by
    intro x hx
    obtain ⟨he, hr⟩ := ((hmem₁ x).1 hx).resolve_left not_mem_nil
    obtain ⟨Δ, -, hΔ⟩ := reaches_of_sim (fun _ _ => sameVisit) hst hr
    exact ⟨he, Δ, hΔ⟩
  have hne : nextStacks ≠ [] := by
    obtain ⟨x, he, hr⟩ := exists_reaches_emit hleft hst
    exact ne_nil_of_mem ((hmem₁ x).2 (.inr ⟨he, hr⟩))
  have hzip : cands.zip (cands.map f) = cands.map fun tok => (tok, f tok) := map_prod_left_eq_zip.symm
  obtain ⟨next, hnextdef⟩ : ∃ next, next = ((cands.map fun tok => (tok, f tok)).filter fun m => m.2 = .next).map
      fun m => m.1.forth := ⟨_, rfl⟩
  have hmemnext : ∀ tok, tok ∈ next ↔ ∃ tok₀ ∈ cands, f tok₀ = .next ∧ tok = tok₀.forth := by
    intro tok
    rw [hnextdef]
    exact mem_fated
  have hfew : ∀ tok ∈ next, tok.rest.length ≤ m - 1 ∧ 0 < m := by
    intro tok htok
    obtain ⟨tok₀, h₀, hf₀, rfl⟩ := (hmemnext tok).1 htok
    have hlen := hm tok₀ h₀
    rw [Candidate.rest_of_ne ((hnext tok₀).1 hf₀).1, length_cons] at hlen
    omega
  obtain ⟨N₂, nr, hrun₂, hmem₂⟩ : ∃ N r, (∀ fuel, N ≤ fuel →
      rejectCandidates (rejectCandidatesForStack G.rules fuel) nextStacks next = some r) ∧
      ∀ tok, tok ∈ r ↔ tok ∈ next ∧ ∀ s ∈ nextStacks, ¬ tok.Fits G.rules s := by
    by_cases hempty : next = []
    · refine ⟨0, [], fun fuel _ => ?_, fun tok => by simp [hempty]⟩
      cases nextStacks with
      | nil => exact absurd rfl hne
      | cons s l => rw [rejectCandidates, if_pos hempty]
    · obtain ⟨tok, htok⟩ := exists_mem_of_ne_nil _ hempty
      have hpos := (hfew tok htok).2
      exact rejectCandidates_spec hne (fun s hs => ih s (hready s hs) (m - 1) (by omega)) next
        fun tok htok => (hfew tok htok).1
  refine ⟨max N₁ N₂ + 1, ((cands.map fun tok => (tok, f tok)).filter fun m => m.2 = .reject).map Prod.fst ++
    nr.map Candidate.back, fun fuel hle => ?_, fun tok => ?_⟩
  · obtain ⟨fuel, rfl⟩ : ∃ k, fuel = k + 1 := ⟨fuel - 1, by omega⟩
    rw [rejectCandidatesForStack, if_neg hno, mapM_of_forall hf, hp.matchChar]
    simp only [bind_eq_bind, bind_some, hzip, hrun₁ fuel (by omega)]
    rw [← hnextdef, hrun₂ fuel (by omega)]
    rfl
  · have hrejects : tok ∈ ((cands.map fun tok => (tok, f tok)).filter fun m => m.2 = .reject).map Prod.fst ↔
        tok ∈ cands ∧ f tok = .reject := by
      refine (mem_fated (g := id)).trans ⟨?_, fun h => ⟨tok, h.1, h.2, rfl⟩⟩
      rintro ⟨_, h₀, hf₀, rfl⟩
      exact ⟨h₀, hf₀⟩
    have hback : tok ∈ nr.map Candidate.back ↔
        tok ∈ cands ∧ f tok = .next ∧ ∀ s ∈ nextStacks, ¬ tok.forth.Fits G.rules s := by
      rw [List.mem_map]
      constructor
      · rintro ⟨tok', htok', rfl⟩
        obtain ⟨hin, hnone⟩ := (hmem₂ tok').1 htok'
        obtain ⟨tok₀, h₀, hf₀, rfl⟩ := (hmemnext tok').1 hin
        exact ⟨h₀, hf₀, hnone⟩
      · rintro ⟨h₀, hf₀, hnone⟩
        exact ⟨tok.forth, (hmem₂ _).2 ⟨(hmemnext _).2 ⟨tok, h₀, hf₀, rfl⟩, hnone⟩, rfl⟩
    rw [mem_append, hrejects, hback, ← and_or_left]
    refine and_congr_right fun _ => ?_
    by_cases hz : tok.chr = 0
    · have hfits : tok.Fits G.rules (p :: rest) ↔ f tok = .keep := by
        rw [fits_zero hz, hkeep]
        simp [hz]
      have hnot : f tok ≠ .next := fun h => ((hnext tok).1 h).1 hz
      rw [hfits]
      cases hft : f tok with
      | reject => simp
      | next => exact absurd hft hnot
      | keep => simp
    · have hnot : f tok ≠ .keep := fun h => hz ((hkeep tok).1 h).1
      rw [fits_class hp hno hmem₁ hz]
      cases hft : f tok with
      | reject =>
        have hhas : t.has tok.chr ≠ true := fun h => by
          rw [(hnext tok).2 ⟨hz, h⟩] at hft
          cases hft
        simp [hhas]
      | next => simp [((hnext tok).1 hft).2]
      | keep => exact absurd hft hnot

lemma filters (hleft : ¬ LeftRecursive G.alts) (m : Nat) (hs : Ready G s) : FiltersUpTo G.rules m s := by
  induction m using Nat.strong_induction_on generalizing s with
  | _ m ih =>
    cases s with
    | nil => exact fun cands _ => filters_nil cands
    | cons p rest =>
      obtain ⟨he, Γ, hΓ⟩ := hs
      obtain ⟨negated, id, β, Γ', rfl, helem, -, -⟩ | ⟨t, β, Γ', rfl, hp, hrest, hno⟩ := hΓ.token_or he
      · refine fun cands _ => filters_token ?_ cands
        rw [helem]
        exact isToken negated id
      · exact filters_class hleft hp hrest hno fun s hs k hk => ih k hk hs

end Stack

section Survive
variable {n : Nat} {G : RuleSet n} {partialUtf8 : PartialUtf8} {token : UInt32}

/-- A token element that matches the token is reached inside the code points, behind at least one of them. -/
def MeetsToken (rules : GrRules) (token : UInt32) (chrs : List UInt32) (s : GrStack) : Prop :=
  ∃ chrs₁ chrs₂ x s', chrs = chrs₁ ++ chrs₂ ∧ chrs₁ ≠ [] ∧ chrs₂ ≠ [] ∧ Survives rules chrs₁ s x ∧
    s' ∈ afterToken rules token x

lemma survives_of_fits {chrs : List UInt32} {s : GrStack} (hfits : Fits G.rules partialUtf8 token chrs s)
    (hmeets : ¬ MeetsToken G.rules token chrs s) :
    (∃ x, Survives G.rules chrs s x) ∨ chrs ≠ [] ∧ ∃ s', s' ∈ afterToken G.rules token s := by
  induction chrs generalizing s with
  | nil => exact .inl ⟨s, rfl⟩
  | cons chr chrs ih =>
    obtain htoken | ⟨s', hs', y, he, hr, hy⟩ := hfits
    · exact .inr ⟨by simp, htoken⟩
    refine .inl ?_
    have hmeets' : ¬ MeetsToken G.rules token chrs y := by
      rintro ⟨chrs₁, chrs₂, x, s₁, rfl, -, hne, hx, hs₁⟩
      exact hmeets ⟨chr :: chrs₁, chrs₂, x, s₁, rfl, by simp, hne, ⟨s', hs', y, he, hr, hx⟩, hs₁⟩
    obtain ⟨x, hx⟩ | ⟨hne, s₁, hs₁⟩ := ih hy hmeets'
    · exact ⟨x, s', hs', y, he, hr, hx⟩
    · exact absurd ⟨[chr], chrs, y, s₁, rfl, by simp, hne, ⟨s', hs', y, he, hr, rfl⟩, hs₁⟩ hmeets

lemma fits_of_survives (hn : partialUtf8.nRemain = 0) {chrs : List UInt32} {s x : GrStack}
    (h : Survives G.rules chrs s x) : Fits G.rules partialUtf8 token chrs s := by
  induction chrs generalizing s with
  | nil =>
    cases s with
    | nil => exact hn
    | cons p rest => exact .inl hn
  | cons chr chrs ih =>
    obtain ⟨s', hs', y, he, hr, hy⟩ := h
    exact .inr ⟨s', hs', y, he, hr, ih hy⟩

lemma Survives.append {chrs₁ chrs₂ : List UInt32} {s x : GrStack} (h : Survives G.rules (chrs₁ ++ chrs₂) s x) :
    ∃ y, Survives G.rules chrs₁ s y := by
  induction chrs₁ generalizing s with
  | nil => exact ⟨s, rfl⟩
  | cons chr chrs₁ ih =>
    obtain ⟨s', hs', y, he, hr, hy⟩ := h
    obtain ⟨z, hz⟩ := ih hy
    exact ⟨z, s', hs', y, he, hr, hz⟩

end Survive

end Grammar

namespace LlamaGrammar

open Grammar

/-- The states of a grammar: after `llama_grammar_init_impl`, or after a step from one that leaves some stack (the
functions throw otherwise). -/
inductive Reachable {n : Nat} (G : RuleSet n) (root : Fin n) : LlamaGrammar → Prop where
  | init (N : Nat) (g : LlamaGrammar) : (∀ fuel, N ≤ fuel → LlamaGrammar.init fuel G.rules root = some (some g)) →
      Reachable G root g
  | step (N : Nat) (g g' : LlamaGrammar) (op : GrOp) : Reachable G root g →
      (∀ fuel, N ≤ fuel → g.step fuel op = some g') → g'.grStacks ≠ [] → Reachable G root g'

section Filter
variable {n : Nat} {G : RuleSet n} {root : Fin n} {g : LlamaGrammar}

lemma eq_of_fuel {α : Type} {f : Nat → Option α} {N N' : Nat} {a a' : α} (h : ∀ fuel, N ≤ fuel → f fuel = some a)
    (h' : ∀ fuel, N' ≤ fuel → f fuel = some a') : a = a' := by
  have heq := (h (max N N') (by omega)).symm.trans (h' (max N N') (by omega))
  exact Option.some.inj heq

lemma step_awaiting {fuel : Nat} {op : GrOp} {g' : LlamaGrammar} (h : g.step fuel op = some g') :
    g'.awaitingTrigger = g.awaitingTrigger := by
  cases op with
  | accept chr =>
    simp only [LlamaGrammar.step, LlamaGrammar.accept, bind_eq_bind, Option.pure_def,
      bind_eq_some_iff] at h
    obtain ⟨l, -, h⟩ := h
    cases h
    rfl
  | acceptToken token piece =>
    simp only [LlamaGrammar.step, LlamaGrammar.acceptToken, bind_eq_bind, Option.pure_def,
      bind_eq_some_iff] at h
    obtain ⟨l, -, h⟩ := h
    cases h
    rfl

lemma exists_start (hleft : ¬ LeftRecursive G.alts) (root : Fin n) :
    ∃ N g, (∀ fuel, N ≤ fuel → LlamaGrammar.init fuel G.rules root = some (some g)) ∧ Holds G (Ready G) g ∧
      g.grStacks ≠ [] ∧ g.awaitingTrigger = false := by
  obtain ⟨N₁, hdetect⟩ := detectAll_false hleft (List.range G.rules.length)
    (fun i hi => by rw [mem_range, RuleSet.rules, length_ofFn] at hi; exact hi)
    (show MarksOk G {} from ⟨fun _ h => by cases h⟩) rfl
  have hstart := (covers_start G root).sound
  obtain ⟨N₂, out, hrun, hmem⟩ := foldlM_advance (alternates (G.rules.getD root [])) (fun i hi out => by
    obtain ⟨Γ, hΓ, -⟩ := hstart _ ⟨i, hi, rfl⟩
    exact advances_of_not_leftRecursive hleft hΓ out) []
  refine ⟨max N₁ N₂, { rules := G.rules, grStacks := out }, fun fuel hle => ?_, ⟨rfl, fun x hx => ?_⟩, ?_, rfl⟩
  · unfold LlamaGrammar.init
    simp only [map_copyRule, hdetect fuel (by omega), bind_eq_bind, bind_some, Bool.false_eq_true,
      if_false, hrun fuel (by omega), Option.pure_def]
  · obtain ⟨i, hi, he, hr⟩ := ((hmem x).1 hx).resolve_left not_mem_nil
    obtain ⟨Γ, hΓ, -⟩ := hstart _ ⟨i, hi, rfl⟩
    obtain ⟨Δ, -, hΔ⟩ := reaches_of_sim (fun _ _ => sameVisit) hΓ hr
    exact ⟨he, Δ, hΔ⟩
  · have h0 : 0 ∈ alternates (G.rules.getD root []) := mem_cons_self
    obtain ⟨Γ, hΓ, -⟩ := hstart _ ⟨0, h0, rfl⟩
    obtain ⟨x, he, hr⟩ := exists_reaches_emit hleft hΓ
    exact ne_nil_of_mem ((hmem x).2 (.inr ⟨0, h0, he, hr⟩))

lemma Reachable.holds (hleft : ¬ LeftRecursive G.alts) (h : Reachable G root g) :
    Holds G (Ready G) g ∧ g.grStacks ≠ [] ∧ g.awaitingTrigger = false := by
  induction h with
  | init N g hrun =>
    obtain ⟨N', g', hrun', hholds⟩ := exists_start hleft root
    have heq : some g = some g' := eq_of_fuel hrun hrun'
    cases heq
    exact hholds
  | step N g g' op _ hrun hne ih =>
    obtain ⟨N', g'', hrun', hholds⟩ := ih.1.step (keeps_ready hleft) op
    cases eq_of_fuel hrun hrun'
    exact ⟨hholds, hne, (step_awaiting (hrun N (le_refl N))).trans ih.2.2⟩

lemma decodeLoop_ne (bs : List UInt8) (value : UInt32) (nRemain : Int) (codePoints : List UInt32)
    (h : codePoints ≠ [] ∨ nRemain ≠ 0 ∨ bs ≠ []) :
    (decodeLoop bs value nRemain codePoints).1 ≠ [] ∨ (decodeLoop bs value nRemain codePoints).2.nRemain ≠ 0 := by
  induction bs generalizing value nRemain codePoints with
  | nil =>
    obtain h | h | h := h
    · exact .inl h
    · exact .inr h
    · exact absurd rfl h
  | cons b bs ih =>
    have hpush : ∀ (k : Int) (v : UInt32), (if k = 0 then codePoints ++ [v] else codePoints) ≠ [] ∨ k ≠ 0 ∨ bs ≠ [] := by
      intro k v
      by_cases hk : k = 0
      · rw [if_pos hk]
        exact .inl (by simp)
      · exact .inr (.inl hk)
    rw [decodeLoop]
    split
    · exact ih _ _ _ (hpush _ _)
    · dsimp only
      split
      · rename_i hneg
        exact .inr (by dsimp only; omega)
      · exact ih _ _ _ (hpush _ _)

lemma decodeStart_cases {bs bs' : List UInt8} {value value' : UInt32} {nRemain nRemain' : Int}
    (h : decodeStart bs value nRemain = some (bs', value', nRemain')) (hne : bs ≠ []) :
    bs' ≠ [] ∨ nRemain' ≠ 0 ∨ 0 < nRemain ∧ nRemain' = 0 := by
  by_cases hpos : 0 < nRemain
  · by_cases hz : nRemain' = 0
    · exact .inr (.inr ⟨hpos, hz⟩)
    · exact .inr (.inl hz)
  · cases bs with
    | nil => exact absurd rfl hne
    | cons b bs =>
      rw [decodeStart, if_neg hpos] at h
      cases h
      exact .inl (by simp)

lemma decodeUtf8_ne {piece : List UInt8} (h : piece.headD 0 ≠ 0) (partialStart : PartialUtf8) :
    (decodeUtf8 piece partialStart).1 ≠ [] ∨ (decodeUtf8 piece partialStart).2.nRemain ≠ 0 := by
  have hne : piece.takeWhile (· ≠ 0) ≠ [] := by
    cases piece with
    | nil => exact absurd rfl h
    | cons b bs =>
      have hb : b ≠ 0 := h
      rw [takeWhile_cons_of_pos (by simp [hb])]
      simp
  unfold decodeUtf8
  split
  · exact .inr (by simp)
  · rename_i bs value nRemain hstart
    refine decodeLoop_ne bs value nRemain _ ?_
    obtain hbs | hn | hn := decodeStart_cases hstart hne
    · exact .inr (.inr hbs)
    · exact .inr (.inl hn)
    · rw [if_pos hn]
      exact .inl (by simp)

lemma candidate_eq {vocab : GrVocab} {i : Nat} {id : UInt32} (heog : vocab.isEog id = false)
    (hpiece : (vocab.tokenToPiece id).headD 0 ≠ 0) :
    g.candidate vocab i id = .inl {
      index := i
      codePoints := (decodeUtf8 (vocab.tokenToPiece id) g.partialUtf8).1
      partialUtf8 := (decodeUtf8 (vocab.tokenToPiece id) g.partialUtf8).2
      id } := by
  unfold LlamaGrammar.candidate
  simp only [heog, Bool.false_eq_true, if_false, if_neg hpiece]

lemma index_of_candidate {vocab : GrVocab} {i : Nat} {id : UInt32} {tok : Candidate}
    (h : g.candidate vocab i id = .inl tok) : tok.index = i := by
  unfold LlamaGrammar.candidate at h
  dsimp only at h
  split at h
  · cases h
  · split at h
    · cases h
    · cases h
      rfl

/-- The mask of `apply` with enough fuel. -/
lemma applyImpl_spec (hleft : ¬ LeftRecursive G.alts) (h : Reachable G root g) (vocab : GrVocab) (ids : List UInt32) :
    ∃ N masks, (∀ fuel, N ≤ fuel → g.applyImpl fuel vocab ids = some masks) ∧
      ∀ (i : Nat) (id : UInt32), ids[i]? = some id → vocab.isEog id = false →
        ((vocab.tokenToPiece id).headD 0 = 0 → masks[i]? = some true) ∧
        ((vocab.tokenToPiece id).headD 0 ≠ 0 → ∃ b, masks[i]? = some b ∧ (b = true ↔
          ∀ s ∈ g.grStacks, ¬ Grammar.Fits G.rules (decodeUtf8 (vocab.tokenToPiece id) g.partialUtf8).2 id
            ((decodeUtf8 (vocab.tokenToPiece id) g.partialUtf8).1.takeWhile (· ≠ 0)) s)) := by
  obtain ⟨hholds, hne, hawait⟩ := h.holds hleft
  obtain ⟨cands, hcands⟩ : ∃ cands, cands = ids.mapIdx fun i id => g.candidate vocab i id := ⟨_, rfl⟩
  obtain ⟨toks, htoks⟩ : ∃ toks, toks = cands.filterMap Sum.getLeft? := ⟨_, rfl⟩
  obtain ⟨m, hm⟩ : ∃ m, ∀ tok ∈ toks, tok.rest.length ≤ m := by
    refine ⟨(toks.map fun tok => tok.rest.length).max?.getD 0, fun tok htok => ?_⟩
    exact le_max?_getD_of_mem (List.mem_map.2 ⟨tok, htok, rfl⟩)
  obtain ⟨N, rejects, hrun, hmem⟩ := rejectCandidates_spec hne (fun s hs => filters hleft m (hholds.all s hs)) toks hm
  refine ⟨N, cands.mapIdx fun i c => c.elim (fun _ => rejects.any fun r => r.index = i) (fun b => b),
    fun fuel hle => ?_, fun i id hi heog => ?_⟩
  · unfold LlamaGrammar.applyImpl
    simp only [hawait, Bool.false_eq_true, if_false, hholds.rules, ← hcands, ← htoks, hrun fuel hle,
      bind_eq_bind, bind_some, Option.pure_def]
    rfl
  have hget : (cands.mapIdx fun i c => c.elim (fun _ => rejects.any fun r => r.index = i) (fun b => b))[i]? =
      some ((g.candidate vocab i id).elim (fun _ => rejects.any fun r => r.index = i) (fun b => b)) := by
    rw [getElem?_mapIdx, hcands, getElem?_mapIdx, hi]
    rfl
  rw [hget]
  refine ⟨fun hz => ?_, fun hz => ?_⟩
  · have hinr : g.candidate vocab i id = .inr true := by
      unfold LlamaGrammar.candidate
      simp only [heog, Bool.false_eq_true, if_false, if_pos hz]
    rw [hinr]
    rfl
  · have hinl := candidate_eq (g := g) (i := i) heog hz
    rw [hinl]
    refine ⟨rejects.any fun r => r.index = i, rfl, ?_⟩
    have hin : ∀ tok, tok ∈ toks ↔ ∃ j id', ids[j]? = some id' ∧ g.candidate vocab j id' = .inl tok := by
      intro tok
      rw [htoks, mem_filterMap]
      constructor
      · rintro ⟨c, hc, hleft⟩
        rw [hcands] at hc
        obtain ⟨j, hj⟩ := mem_iff_getElem?.1 hc
        rw [getElem?_mapIdx, map_eq_some_iff] at hj
        obtain ⟨id', hid', rfl⟩ := hj
        exact ⟨j, id', hid', Sum.getLeft?_eq_some_iff.1 hleft⟩
      · rintro ⟨j, id', hid', hc⟩
        refine ⟨.inl tok, ?_, rfl⟩
        rw [hcands, mem_iff_getElem?]
        exact ⟨j, by rw [getElem?_mapIdx, hid', map_some, hc]⟩
    rw [List.any_eq_true]
    constructor
    · rintro ⟨tok, htok, hidx⟩
      obtain ⟨hin', hno⟩ := (hmem tok).1 htok
      obtain ⟨j, id', hid', hc⟩ := (hin tok).1 hin'
      have hj : j = i := (index_of_candidate hc).symm.trans (of_decide_eq_true hidx)
      rw [hj, hi] at hid'
      cases hid'
      rw [hj, hinl] at hc
      cases hc
      exact hno
    · intro hno
      exact ⟨_, (hmem _).2 ⟨(hin _).2 ⟨i, id, hi, hinl⟩, hno⟩, decide_eq_true rfl⟩

/-- The filter and the acceptance of a token, in every state without left recursion. A token that is not masked leaves
some stack, if its code points are not zero and do not run into a token element; a token that is masked leaves none,
if its piece is not empty and ends with a complete code point. -/
theorem filter_agrees (G : RuleSet n) (hleft : ¬ LeftRecursive G.alts) (root : Fin n) (g : LlamaGrammar)
    (hg : Reachable G root g) (vocab : GrVocab) (ids : List UInt32) (i : Nat) (id : UInt32) (hi : ids[i]? = some id)
    (heog : vocab.isEog id = false) :
    ∃ N masks g', (∀ fuel, N ≤ fuel → g.applyImpl fuel vocab ids = some masks) ∧
      (∀ fuel, N ≤ fuel → g.acceptToken fuel id (vocab.tokenToPiece id) = some g') ∧
      (masks[i]? = some false → 0 ∉ (decodeUtf8 (vocab.tokenToPiece id) g.partialUtf8).1 →
        (∀ s ∈ g.grStacks, ¬ MeetsToken G.rules id (decodeUtf8 (vocab.tokenToPiece id) g.partialUtf8).1 s) →
        g'.grStacks ≠ []) ∧
      (masks[i]? = some true → (vocab.tokenToPiece id).headD 0 ≠ 0 →
        (decodeUtf8 (vocab.tokenToPiece id) g.partialUtf8).2.nRemain = 0 → g'.grStacks = []) := by
  obtain ⟨hholds, hne, -⟩ := hg.holds hleft
  have hkeeps := keeps_ready hleft
  obtain ⟨N₁, masks, hrun₁, hmasks⟩ := applyImpl_spec hleft hg vocab ids
  obtain ⟨N₂, g', hrun₂, -, hmem⟩ := hholds.acceptToken_spec hkeeps id (vocab.tokenToPiece id)
  obtain ⟨hempty, hpiece⟩ := hmasks i id hi heog
  obtain ⟨chrs, hchrs⟩ : ∃ chrs, chrs = (decodeUtf8 (vocab.tokenToPiece id) g.partialUtf8).1 := ⟨_, rfl⟩
  rw [← hchrs] at hpiece hmem ⊢
  refine ⟨max N₁ N₂, masks, g', fun fuel hle => hrun₁ fuel (by omega), fun fuel hle => hrun₂ fuel (by omega),
    fun hmask hzero hmeets => ?_, fun hmask hhead hn => ?_⟩
  · have hhead : (vocab.tokenToPiece id).headD 0 ≠ 0 := by
      intro hz
      rw [hempty hz] at hmask
      cases hmask
    obtain ⟨b, hb, hiff⟩ := hpiece hhead
    rw [hmask, Option.some.injEq] at hb
    rw [← hb] at hiff
    -- some stack fits
    obtain ⟨s, hs, hfits⟩ : ∃ s ∈ g.grStacks, Grammar.Fits G.rules
        (decodeUtf8 (vocab.tokenToPiece id) g.partialUtf8).2 id chrs s := by
      by_contra hnone
      have htake : chrs.takeWhile (· ≠ 0) = chrs :=
        takeWhile_eq_self_iff.2 fun c hc => decide_eq_true fun hcz => hzero (hcz ▸ hc)
      rw [htake] at hiff
      exact absurd (hiff.2 fun s hs hfits => hnone ⟨s, hs, hfits⟩) Bool.false_ne_true
    obtain ⟨he, Γ, hΓ⟩ := hholds.all s hs
    have hwhole : chrs = [] → (decodeUtf8 (vocab.tokenToPiece id) g.partialUtf8).2.nRemain ≠ 0 := fun hnil =>
      (decodeUtf8_ne hhead g.partialUtf8).resolve_left fun hne => hne (hchrs ▸ hnil)
    obtain ⟨x, hx⟩ : ∃ x, TokenLeaves G.rules id chrs s x := by
      obtain ⟨x, hx⟩ | ⟨-, s', hs'⟩ := survives_of_fits hfits (hmeets s hs)
      · cases s with
        | nil =>
          cases chrs with
          | nil => exact absurd hfits (hwhole rfl)
          | cons c chrs =>
            obtain ⟨s', hs', -⟩ := hx
            cases hs'
        | cons p rest =>
          by_cases htok : (elem G.rules p).type = .token ∨ (elem G.rules p).type = .tokenNot
          · cases chrs with
            | nil =>
              obtain hn | hpart := hfits
              · exact absurd hn (hwhole rfl)
              · unfold matchPartialChar at hpart
                obtain ht | ht := htok <;> simp [ht] at hpart
            | cons c chrs =>
              obtain ⟨s', hs', -⟩ := hx
              rw [afterChr] at hs'
              unfold matchChar at hs'
              obtain ht | ht := htok <;> simp [ht] at hs'
          · exact ⟨x, .inr ⟨⟨p, rest, rfl, htok⟩, hx⟩⟩
      · obtain ⟨-, -, -, -, t, β, Γ', -, -, hst⟩ := hΓ.afterToken he hs'
        obtain ⟨x, hex, hr⟩ := exists_reaches_emit hleft hst
        exact ⟨x, .inl ⟨s', hs', hex, hr⟩⟩
    exact ne_nil_of_mem ((hmem x).2 ⟨s, hs, hx⟩)
  · obtain ⟨b, hb, hiff⟩ := hpiece hhead
    rw [hmask, Option.some.injEq] at hb
    have hnone := hiff.1 hb.symm
    refine eq_nil_iff_forall_not_mem.2 fun x hx => ?_
    obtain ⟨s, hs, hleaves⟩ := (hmem x).1 hx
    refine hnone s hs ?_
    obtain ⟨s', hs', -⟩ | ⟨-, hsurv⟩ := hleaves
    · cases hw : chrs.takeWhile (· ≠ 0) with
      | nil => exact fits_of_survives hn (x := s) rfl
      | cons c cs => exact .inl ⟨s', hs'⟩
    · have hsplit := takeWhile_append_dropWhile (p := fun c : UInt32 => decide (c ≠ 0)) (l := chrs)
      rw [← hsplit] at hsurv
      obtain ⟨y, hy⟩ := hsurv.append
      exact fits_of_survives hn hy

end Filter

def onePiece (piece : List UInt8) : GrVocab where
  tokenToPiece := fun _ => piece
  isEog := fun _ => false

theorem filter_agrees_ab : ∃ g, Reachable abRules 0 g ∧ ∃ N masks g',
    (∀ fuel, N ≤ fuel → g.applyImpl fuel (onePiece [97, 98]) [7] = some masks) ∧
      (∀ fuel, N ≤ fuel → g.acceptToken fuel 7 [97, 98] = some g') ∧
      (masks[0]? = some false → 0 ∉ (decodeUtf8 [97, 98] g.partialUtf8).1 →
        (∀ s ∈ g.grStacks, ¬ MeetsToken abRules.rules 7 (decodeUtf8 [97, 98] g.partialUtf8).1 s) → g'.grStacks ≠ []) ∧
      (masks[0]? = some true → ([97, 98] : List UInt8).headD 0 ≠ 0 →
        (decodeUtf8 [97, 98] g.partialUtf8).2.nRemain = 0 → g'.grStacks = []) := by
  obtain ⟨N, g, hrun, -⟩ := exists_start (not_leftRecursive abRules_terms) 0
  have hg : Reachable abRules 0 g := .init N g hrun
  exact ⟨g, hg, filter_agrees abRules (not_leftRecursive abRules_terms) 0 g hg (onePiece [97, 98]) [7] 0 7 rfl rfl⟩

/-- `root ::= "a" <[7]>`. -/
def tokenRules : RuleSet 1 where
  alts := fun _ => [[.term (.cls (.chars false (.one 97) [])), .term (.token false 7)]]
  nonempty := fun _ => by simp
  small := RuleSet.one_small

/-- A token that begins a code point which cannot match is masked, though it would leave all stacks; and a token that
runs into an element for itself is not masked, though it would leave none. -/
theorem filter_differs :
    (∃ g masks g', Reachable abRules 0 g ∧ g.applyImpl 9 (onePiece [226]) [7] = some masks ∧ masks[0]? = some true ∧
      g.acceptToken 9 7 [226] = some g' ∧ g'.grStacks ≠ []) ∧
    ∃ g masks g', Reachable tokenRules 0 g ∧ g.applyImpl 9 (onePiece [97, 98]) [7] = some masks ∧
      masks[0]? = some false ∧ g.acceptToken 9 7 [97, 98] = some g' ∧ g'.grStacks = [] := by
  refine ⟨⟨{ rules := abRules.rules, grStacks := [[⟨0, 0⟩], [⟨0, 3⟩]] }, [true],
    { rules := abRules.rules, grStacks := [[⟨0, 0⟩], [⟨0, 3⟩]], partialUtf8 := ⟨2, 2⟩ }, .init 9 _ fun fuel hle => ?_,
      by decide +kernel, rfl, by decide +kernel, by simp⟩,
    ⟨{ rules := tokenRules.rules, grStacks := [[⟨0, 0⟩]] }, [false],
    { rules := tokenRules.rules, grStacks := [], partialUtf8 := ⟨98, 0⟩ }, .init 9 _ fun fuel hle => ?_,
      by decide +kernel, rfl, by decide +kernel, rfl⟩⟩
  · obtain ⟨k, rfl⟩ := Nat.exists_eq_add_of_le' hle
    rfl
  · obtain ⟨k, rfl⟩ := Nat.exists_eq_add_of_le' hle
    rfl

end LlamaGrammar

end Mallana
