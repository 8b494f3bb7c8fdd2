import Mallana.Grammar.Filter
import Mallana.Grammar.Parser

/-!
# What the parser accepts is well formed

The rule that is parsed is a sequence of whole symbols, also behind a repetition, which copies or drops the symbols from
`last_sym_start` on (`SeqOk`). Every reference is to a symbol of the source or to a rule that is there already
(`Defined`); the check at the end of `parse` leaves only rules that are there. So the rules of an accepted source are
those of a grammar (`RuleSet`), on which the engine never aborts.
-/

namespace Mallana

open Lib List Option

abbrev RawSym : Type := GSym GrTerm UInt32

def RawSym.elems : RawSym → List GrElement
  | .term t => t.elems
  | .ref v => [⟨.ruleRef, v⟩]

namespace GrParser

open Grammar

def rawSeq (β : List RawSym) : GrRule := β.flatMap RawSym.elems

def openElems (αs : List (List RawSym)) : GrRule := αs.flatMap fun α => rawSeq α ++ [⟨.alt, 0⟩]

def WellRule (r : GrRule) : Prop := ∃ αs β, r = openElems αs ++ rawSeq β ++ [⟨.end, 0⟩]

/-- The id is of a symbol of the source, or its rule is there. -/
def Defined (p : GrParser) (v : UInt32) : Prop :=
  (∃ k, (k, v) ∈ p.symbolIds ∧ 95 ∉ k) ∨ p.rules.getD v.toNat [] ≠ []

def RefsOk (p : GrParser) (r : GrRule) : Prop := ∀ e ∈ r, e.type = .ruleRef → p.Defined e.value

/-- What holds of the parser at every point. -/
structure Sane (p : GrParser) : Prop where
  well : ∀ r ∈ p.rules, r = [] ∨ WellRule r
  refs : ∀ r ∈ p.rules, p.RefsOk r
  small : p.rules.length ≤ 4294967296

def Le (p p' : GrParser) : Prop := ∀ v, p.Defined v → p'.Defined v

section Basic
variable {p p' p'' : GrParser} {r r' : GrRule} {v : UInt32}

lemma Le.refl : Le p p := fun _ h => h

lemma Le.trans (h : Le p p') (h' : Le p' p'') : Le p p'' := fun v hv => h' v (h v hv)

lemma RefsOk.mono (h : p.RefsOk r) (hle : Le p p') : p'.RefsOk r := fun e he ht => hle _ (h e he ht)

lemma RefsOk.append (h : p.RefsOk r) (h' : p.RefsOk r') : p.RefsOk (r ++ r') := by
  intro e he
  obtain he | he := mem_append.1 he
  · exact h e he
  · exact h' e he

lemma RefsOk.of_mem (h : p.RefsOk r) (hsub : ∀ e ∈ r', e ∈ r) : p.RefsOk r' := fun e he => h e (hsub e he)

lemma refsOk_ref (h : p.Defined v) : p.RefsOk [⟨.ruleRef, v⟩] := by
  intro e he _
  rw [mem_singleton.1 he]
  exact h

lemma refsOk_of_type (h : ∀ e ∈ r, e.type ≠ .ruleRef) : p.RefsOk r := fun e he ht => absurd ht (h e he)

lemma le_of_symbols (hrules : p'.rules = p.rules) (hsym : ∀ k v, (k, v) ∈ p.symbolIds → 95 ∉ k → (k, v) ∈ p'.symbolIds) :
    Le p p' := by
  rintro v (⟨k, hk, hno⟩ | hr)
  · exact .inl ⟨k, hsym k v hk hno, hno⟩
  · exact .inr (hrules ▸ hr)

lemma Sane.of_symbols (h : Sane p) (hrules : p'.rules = p.rules) (hle : Le p p') : Sane p' where
  well := hrules ▸ h.well
  refs := fun r hr => (h.refs r (hrules ▸ hr)).mono hle
  small := hrules ▸ h.small

lemma getSymbolId_spec (h : Sane p) {name : List UInt8} (hname : 95 ∉ name) :
    Sane (p.getSymbolId name).2 ∧ Le p (p.getSymbolId name).2 ∧
      (p.getSymbolId name).2.Defined (p.getSymbolId name).1 := by
  unfold getSymbolId
  cases hl : p.symbolIds.lookup name with
  | some id =>
    obtain ⟨l₁, l₂, heq, -⟩ := lookup_eq_some_iff.1 hl
    refine ⟨h, .refl, .inl ⟨name, ?_, hname⟩⟩
    rw [heq]
    simp
  | none =>
    have hle : Le p { p with symbolIds := p.symbolIds ++ [(name, p.nextId)] } :=
      le_of_symbols rfl fun k v hk _ => mem_append_left _ hk
    exact ⟨h.of_symbols rfl hle, hle, .inl ⟨name, mem_append_right _ (mem_singleton.2 rfl), hname⟩⟩

lemma mem_generatedName (base : List UInt8) (id : UInt32) : 95 ∈ generatedName base id :=
  mem_append_right _ mem_cons_self

lemma generateSymbolId_spec (h : Sane p) (base : List UInt8) :
    Sane (p.generateSymbolId base).2 ∧ Le p (p.generateSymbolId base).2 := by
  have hle : Le p (p.generateSymbolId base).2 := by
    refine le_of_symbols rfl fun k v hk hno => ?_
    unfold generateSymbolId
    dsimp only
    split
    · refine List.mem_map.2 ⟨(k, v), hk, if_neg fun heq => hno ?_⟩
      rw [show k = _ from heq]
      exact mem_generatedName _ _
    · exact mem_append_left _ hk
  exact ⟨h.of_symbols rfl hle, hle⟩

lemma getD_addRule (p : GrParser) (id : UInt32) (r : GrRule) (i : Nat) :
    (p.addRule id r).rules.getD i [] = if i = id.toNat then r else p.rules.getD i [] := by
  unfold addRule
  dsimp only
  rw [getD_eq_getElem?_getD, getElem?_set]
  split
  · rename_i heq
    rw [if_pos heq.symm, if_pos (by simp; omega)]
    rfl
  · rename_i hne
    rw [if_neg fun h => hne h.symm, ← getD_eq_getElem?_getD]
    by_cases hi : i < p.rules.length
    · rw [getD_append _ _ _ _ hi]
    · rw [getD_append_right _ _ _ _ (Nat.le_of_not_lt hi), getD_eq_default _ _ (Nat.le_of_not_lt hi)]
      rw [getD_eq_getElem?_getD, getElem?_replicate]
      split <;> rfl

lemma mem_addRule {id : UInt32} (hr' : r' ∈ (p.addRule id r).rules) : r' = r ∨ r' = [] ∨ r' ∈ p.rules := by
  obtain hmem | heq := mem_or_eq_of_mem_set hr'
  · obtain hmem | hmem := mem_append.1 hmem
    · exact .inr (.inr hmem)
    · exact .inr (.inl (eq_of_mem_replicate hmem))
  · exact .inl heq

lemma addRule_spec (h : Sane p) (id : UInt32) (hwell : WellRule r)
    (hrefs : ∀ e ∈ r, e.type = .ruleRef → e.value = id ∨ p.Defined e.value) :
    Sane (p.addRule id r) ∧ Le p (p.addRule id r) ∧ (p.addRule id r).Defined id := by
  have hne : r ≠ [] := by
    obtain ⟨αs, β, rfl⟩ := hwell
    simp
  have hdef : (p.addRule id r).Defined id := .inr (by rw [getD_addRule, if_pos rfl]; exact hne)
  have hle : Le p (p.addRule id r) := by
    rintro v (⟨k, hk, hno⟩ | hr)
    · exact .inl ⟨k, hk, hno⟩
    · refine .inr ?_
      rw [getD_addRule]
      split
      · exact hne
      · exact hr
  refine ⟨⟨fun r' hr' => ?_, fun r' hr' => ?_, ?_⟩, hle, hdef⟩
  · obtain rfl | rfl | hmem := mem_addRule hr'
    · exact .inr hwell
    · exact .inl rfl
    · exact h.well r' hmem
  · obtain rfl | rfl | hmem := mem_addRule hr'
    · intro e he ht
      obtain heq | hd := hrefs e he ht
      · rw [heq]
        exact hdef
      · exact hle _ hd
    · exact fun e he => by cases he
    · exact (h.refs r' hmem).mono hle
  · unfold addRule
    dsimp only
    rw [length_set, length_append, length_replicate]
    have hsmall := h.small
    have hid : id.toNat < 4294967296 := id.toNat_lt
    omega

end Basic

section Sequence
variable {p p' : GrParser} {r r' : GrRule} {γ β : List RawSym}

@[simp] lemma rawSeq_nil : rawSeq [] = [] := rfl

lemma rawSeq_append (β γ : List RawSym) : rawSeq (β ++ γ) = rawSeq β ++ rawSeq γ := flatMap_append

/-- What holds in the loop of `parse_sequence`: the rule is made of whole symbols, and so is its part from
`last_sym_start` on. -/
structure SeqOk (st : SeqState) : Prop where
  sane : Sane st.parser
  shape : ∃ αs β₁ β₂, st.rule = openElems αs ++ rawSeq β₁ ++ rawSeq β₂ ∧
    st.lastSymStart = (openElems αs ++ rawSeq β₁).length
  refs : st.parser.RefsOk st.rule

variable {st st' : SeqState} {fuel : Nat} {src src' : List UInt8} {negated : Bool} {l : GrRule}

lemma SeqOk.push (h : SeqOk st) {p' : GrParser} (hsane : Sane p') (hle : Le st.parser p')
    (γ : List RawSym) (hγ : p'.RefsOk (rawSeq γ)) (src : List UInt8) (n : UInt64) :
    SeqOk { src, rule := st.rule ++ rawSeq γ, lastSymStart := st.rule.length, nPrevRules := n, parser := p' } where
  sane := hsane
  shape := by
    obtain ⟨αs, β₁, β₂, hr, -⟩ := h.shape
    refine ⟨αs, β₁ ++ β₂, γ, ?_, ?_⟩
    · rw [hr, rawSeq_append, ← append_assoc]
    · rw [hr, rawSeq_append, ← append_assoc]
  refs := (h.refs.mono hle).append hγ

lemma rawSeq_replicate (n : Nat) (β : List RawSym) :
    rawSeq (List.replicate n β).flatten = (List.replicate n (rawSeq β)).flatten := by
  induction n with
  | zero => rfl
  | succ n ih => rw [replicate_succ, replicate_succ, flatten_cons, flatten_cons, rawSeq_append, ih]

lemma rawSeq_ref (v : UInt32) : rawSeq [.ref v] = [⟨.ruleRef, v⟩] := rfl

lemma recRules_spec (ruleName : List UInt8) (noMax : Bool) (n : Nat) (first : Bool) (last : UInt32) (h : Sane p)
    (hγ : p.RefsOk (rawSeq γ)) (hlast : first = false → p.Defined last) :
    Sane (recRules ruleName (rawSeq γ) noMax n first last p).2 ∧ Le p (recRules ruleName (rawSeq γ) noMax n first last p).2 ∧
      (0 < n ∨ first = false → (recRules ruleName (rawSeq γ) noMax n first last p).2.Defined
        (recRules ruleName (rawSeq γ) noMax n first last p).1) := by
  induction n generalizing first last p with
  | zero => exact ⟨h, .refl, fun hf => hlast (hf.resolve_left (lt_irrefl 0))⟩
  | succ n ih =>
    obtain ⟨hsane, hle⟩ := generateSymbolId_spec h ruleName
    obtain ⟨id, hid⟩ : ∃ id, id = (p.generateSymbolId ruleName).1 := ⟨_, rfl⟩
    obtain ⟨p₁, hp₁⟩ : ∃ p₁, p₁ = (p.generateSymbolId ruleName).2 := ⟨_, rfl⟩
    obtain ⟨δ, hδ⟩ : ∃ δ : List RawSym, δ = if !first || noMax then [.ref (if noMax then id else last)] else [] := ⟨_, rfl⟩
    have hrule : rawSeq γ ++ (if !first || noMax then [⟨.ruleRef, if noMax then id else last⟩] else []) ++
        [⟨.alt, 0⟩, ⟨.end, 0⟩] = openElems [γ ++ δ] ++ rawSeq [] ++ [⟨.end, 0⟩] := by
      rw [openElems, flatMap_cons, rawSeq_append, hδ]
      split <;> simp [rawSeq, RawSym.elems]
    rw [← hp₁] at hsane hle
    have hadd := addRule_spec hsane id
      (r := rawSeq γ ++ (if !first || noMax then [⟨.ruleRef, if noMax then id else last⟩] else []) ++
        [⟨.alt, 0⟩, ⟨.end, 0⟩]) ⟨[γ ++ δ], [], hrule⟩ (by
        intro e he ht
        simp only [mem_append, mem_cons, not_mem_nil, or_false] at he
        obtain (he | he) | rfl | rfl := he
        · exact .inr (hle _ (hγ e he ht))
        · split at he
          · rename_i hc
            rw [mem_singleton.1 he]
            cases noMax with
            | true => exact .inl rfl
            | false => exact .inr (hle _ (hlast (by simpa using hc)))
          · cases he
        · cases ht
        · cases ht)
    obtain ⟨hsane', hle', hdef⟩ := hadd
    obtain ⟨hs, hl, hd⟩ := ih false id hsane' ((hγ.mono hle).mono hle') fun _ => hdef
    rw [recRules]
    rw [← hid, ← hp₁]
    exact ⟨hs, (hle.trans hle').trans hl, fun _ => hd (.inr rfl)⟩

lemma handleRepetitions_spec {ruleName : List UInt8} {minTimes maxTimes : UInt64} (st : SeqState)
    (h : SeqOk st) (hrun : handleRepetitions ruleName minTimes maxTimes st = some st') : SeqOk st' ∧ Le st.parser st'.parser := by
  unfold handleRepetitions at hrun
  dsimp only at hrun
  split at hrun
  · cases hrun
  split at hrun
  · cases hrun
  split at hrun
  · cases hrun
  obtain ⟨αs, β₁, β₂, hrule, hstart⟩ := h.shape
  have hdrop : st.rule.drop st.lastSymStart = rawSeq β₂ := by rw [hrule, hstart, drop_left]
  have htake : st.rule.take st.lastSymStart = openElems αs ++ rawSeq β₁ := by rw [hrule, hstart, take_left]
  rw [hdrop, htake] at hrun
  have hβ₂ : st.parser.RefsOk (rawSeq β₂) := h.refs.of_mem fun e he => by
    rw [hrule]
    exact mem_append_right _ he
  obtain ⟨nOpt, hnOpt⟩ : ∃ nOpt : UInt64, nOpt = if maxTimes == 18446744073709551615 then 1 else maxTimes - minTimes :=
    ⟨_, rfl⟩
  rw [← hnOpt] at hrun
  obtain ⟨hsane, hle, hdef⟩ := recRules_spec ruleName (maxTimes == 18446744073709551615) nOpt.toNat true 0 h.sane hβ₂
    fun hf => absurd hf (by simp)
  obtain ⟨res, hres⟩ : ∃ res, res = recRules ruleName (rawSeq β₂) (maxTimes == 18446744073709551615) nOpt.toNat true 0
    st.parser := ⟨_, rfl⟩
  rw [← hres] at hrun hsane hle hdef
  cases hrun
  refine ⟨?_, hle⟩
  -- what is left of the symbols, and the reference that is put behind them
  obtain ⟨β₃, hβ₃, hsub⟩ : ∃ β₃ : List RawSym, (if minTimes = 0 then openElems αs ++ rawSeq β₁ else
      st.rule ++ (List.replicate (minTimes.toNat - 1) (rawSeq β₂)).flatten) = openElems αs ++ rawSeq β₁ ++ rawSeq β₃ ∧
      ∀ e ∈ rawSeq β₃, e ∈ rawSeq β₂ := by
    split
    · exact ⟨[], by simp, fun e he => by cases he⟩
    · refine ⟨β₂ ++ (List.replicate (minTimes.toNat - 1) β₂).flatten, ?_, fun e he => ?_⟩
      · rw [hrule, rawSeq_append, append_assoc (openElems αs ++ rawSeq β₁)]
        congr 2
        exact (rawSeq_replicate _ _).symm
      · rw [rawSeq_append] at he
        obtain he | he := mem_append.1 he
        · exact he
        · obtain ⟨x, hx, he⟩ := mem_flatMap.1 he
          obtain ⟨l, hl, hx⟩ := mem_flatten.1 hx
          rw [eq_of_mem_replicate hl] at hx
          exact mem_flatMap.2 ⟨x, hx, he⟩
  have hrefs₃ : res.2.RefsOk (openElems αs ++ rawSeq β₁ ++ rawSeq β₃) := by
    refine (h.refs.of_mem fun e he => ?_).mono hle
    rw [hrule]
    obtain he | he := mem_append.1 he
    · exact mem_append_left _ he
    · exact mem_append_right _ (hsub e he)
  rw [hβ₃]
  refine ⟨hsane, ?_, ?_⟩
  · dsimp only
    split
    · refine ⟨αs, β₁, β₃ ++ [.ref res.1], ?_, hstart⟩
      rw [rawSeq_append, rawSeq_ref, append_assoc (openElems αs ++ rawSeq β₁)]
    · exact ⟨αs, β₁, β₃, rfl, hstart⟩
  · dsimp only
    split
    · rename_i hpos
      refine hrefs₃.append (refsOk_ref (hdef (.inl ?_)))
      have := UInt64.lt_iff_toNat_lt.1 hpos
      simpa using this
    · exact hrefs₃

lemma literal_spec (hrun : literal fuel src r = some (src', r')) :
    ∃ γ, r' = r ++ rawSeq γ ∧ ∀ e ∈ rawSeq γ, e.type ≠ .ruleRef := by
  induction fuel generalizing src r with
  | zero => cases hrun
  | succ fuel ih =>
    rw [literal] at hrun
    split at hrun
    · cases hrun
      exact ⟨[], by simp, fun e he => by cases he⟩
    · simp only [bind_eq_bind, bind_eq_some_iff] at hrun
      obtain ⟨c, -, hrun⟩ := hrun
      obtain ⟨γ, rfl, hγ⟩ := ih hrun
      refine ⟨.term (.cls (.chars false (.one c.1) [])) :: γ, ?_, fun e he => ?_⟩
      · rw [append_assoc]
        rfl
      · obtain he | he := mem_append.1 he
        · exact type_of_mem_term (t := .cls (.chars false (.one c.1) [])) he
        · exact hγ e he

def ClassElems (negated : Bool) (l : GrRule) : Prop :=
  l = [] ∨ ∃ first more, l = (CharClass.chars negated first more).elems

lemma ClassElems.push (h : ClassElems negated l) (i : CharItem) :
    ClassElems negated (l ++ i.elems (if l = [] then (if negated then .charNot else .char) else .charAlt)) := by
  obtain rfl | ⟨first, more, rfl⟩ := h
  · exact .inr ⟨i, [], by simp [CharClass.elems]⟩
  · have hne : (CharClass.chars negated first more).elems ≠ [] := by
      obtain ⟨e, es, heq, -⟩ := exists_char (.chars negated first more)
      rw [heq]
      simp
    rw [if_neg hne]
    refine .inr ⟨first, more ++ [i], ?_⟩
    simp [CharClass.elems, flatMap_append]

lemma charClass_spec {r₀ : GrRule} (hl : ClassElems negated l)
    (hrun : charClass (if negated then .charNot else .char) r₀.length fuel src (r₀ ++ l) = some (src', r')) :
    ∃ l', r' = r₀ ++ l' ∧ ClassElems negated l' := by
  induction fuel generalizing src l with
  | zero => cases hrun
  | succ fuel ih =>
    rw [charClass] at hrun
    split at hrun
    · cases hrun
      exact ⟨l, rfl, hl⟩
    · simp only [bind_eq_bind, bind_eq_some_iff] at hrun
      obtain ⟨c, -, hrun⟩ := hrun
      have htype : (if r₀.length < (r₀ ++ l).length then GreType.charAlt else if negated then .charNot else .char) =
          if l = [] then (if negated then .charNot else .char) else .charAlt := by
        by_cases hnil : l = []
        · rw [if_pos hnil, if_neg (by simp [hnil])]
        · have hpos : 0 < l.length := length_pos_iff.2 hnil
          rw [if_neg hnil, if_pos (by rw [length_append]; omega)]
      rw [htype] at hrun
      split at hrun
      · simp only [bind_eq_some_iff] at hrun
        obtain ⟨e, -, hrun⟩ := hrun
        rw [append_assoc, append_assoc, singleton_append] at hrun
        exact ih (hl.push (.range c.1 e.1)) hrun
      · rw [append_assoc] at hrun
        exact ih (hl.push (.one c.1)) hrun

lemma ClassElems.rawSeq (h : ClassElems negated l) :
    ∃ γ, l = GrParser.rawSeq γ ∧ ∀ e ∈ GrParser.rawSeq γ, e.type ≠ .ruleRef := by
  obtain rfl | ⟨first, more, rfl⟩ := h
  · exact ⟨[], rfl, fun e he => by cases he⟩
  · refine ⟨[.term (.cls (.chars negated first more))], by simp [GrParser.rawSeq, RawSym.elems, GrTerm.elems], ?_⟩
    intro e he
    simp only [GrParser.rawSeq, RawSym.elems, flatMap_cons, flatMap_nil, append_nil] at he
    exact type_of_mem_term he

lemma notMem_parseName {n : List UInt8 × List UInt8} (h : parseName src = some n) : 95 ∉ n.1 := by
  unfold parseName at h
  split at h
  · cases h
  · cases h
    intro hmem
    exact absurd (mem_takeWhile_imp hmem) (by decide)

/-- What is asked of `parse_alternates`. -/
def AltOk (alternates : Alternates) : Prop :=
  ∀ src ruleName id isNested p src' p', alternates src ruleName id isNested p = some (src', p') → Sane p →
    Sane p' ∧ Le p p' ∧ p'.Defined id

variable {tokenize : List UInt8 → Option UInt32} {alternates : Alternates} {ruleName : List UInt8} {isNested : Bool}

/-- A turn of the sequence loop keeps the rules well formed. -/
lemma seqStep_spec (halt : AltOk alternates) (h : SeqOk st)
    (hrun : seqStep tokenize alternates fuel ruleName isNested st = some (some st')) :
    SeqOk st' ∧ Le st.parser st'.parser := by
  have hrep : ∀ {m n : UInt64} {src : List UInt8}, (handleRepetitions ruleName m n { st with src }).map some =
      some (some st') → SeqOk st' ∧ Le st.parser st'.parser := by
    intro m n src hmap
    obtain ⟨st₁, hst₁, heq⟩ := map_eq_some_iff.1 hmap
    cases heq
    exact handleRepetitions_spec { st with src } ⟨h.sane, h.shape, h.refs⟩ hst₁
  unfold seqStep at hrun
  split at hrun
  · cases hrun
  rename_i c src _
  by_cases h0 : c = 34
  · -- a literal
    rw [if_pos h0] at hrun
    obtain ⟨r, hr, hrun⟩ := bind_eq_some_iff.1 hrun
    cases hrun
    obtain ⟨γ, hγ, hno⟩ := literal_spec hr
    refine ⟨?_, .refl⟩
    rw [hγ]
    exact h.push h.sane .refl γ (refsOk_of_type hno) _ _
  rw [if_neg h0] at hrun
  by_cases h1 : c = 91
  · -- a class
    rw [if_pos h1] at hrun
    obtain ⟨r, hr, hrun⟩ := bind_eq_some_iff.1 hrun
    cases hrun
    have hr' : charClass (if decide (src.head? = some 94) = true then .charNot else .char) st.rule.length fuel
        (if src.head? = some 94 then src.tail else src) (st.rule ++ []) = some (r.1, r.2) := by
      rw [append_nil]
      simp only [decide_eq_true_eq]
      exact hr
    have hclass := charClass_spec (.inl rfl) hr'
    obtain ⟨l', hl', hclass⟩ := hclass
    obtain ⟨γ, rfl, hno⟩ := hclass.rawSeq
    refine ⟨?_, .refl⟩
    rw [hl']
    exact h.push h.sane .refl γ (refsOk_of_type hno) _ _
  rw [if_neg h1] at hrun
  by_cases h2 : c = 60 ∨ c = 33
  · -- a token
    rw [if_pos h2] at hrun
    obtain ⟨t, -, hrun⟩ := bind_eq_some_iff.1 hrun
    cases hrun
    refine ⟨?_, .refl⟩
    have hraw : [⟨if c = 33 then .tokenNot else .token, t.1⟩] = rawSeq [.term (.token (decide (c = 33)) t.1)] := by
      simp [rawSeq, RawSym.elems, GrTerm.elems]
    rw [hraw]
    refine h.push h.sane .refl _ (refsOk_of_type fun e he => ?_) _ _
    rw [← hraw] at he
    rw [mem_singleton.1 he]
    dsimp only
    split <;> simp
  rw [if_neg h2] at hrun
  by_cases h3 : isWordChar c = true
  · -- a reference
    rw [if_pos h3] at hrun
    obtain ⟨n, hn, hrun⟩ := bind_eq_some_iff.1 hrun
    cases hrun
    obtain ⟨hsane, hle, hdef⟩ := getSymbolId_spec h.sane (notMem_parseName hn)
    exact ⟨h.push hsane hle [.ref _] (refsOk_ref hdef) _ _, hle⟩
  rw [if_neg h3] at hrun
  by_cases h4 : c = 40
  · -- a group
    rw [if_pos h4] at hrun
    obtain ⟨a, ha, hrun⟩ := bind_eq_some_iff.1 hrun
    split at hrun
    · cases hrun
      obtain ⟨hsane, hle⟩ := generateSymbolId_spec h.sane ruleName
      obtain ⟨hsane', hle', hdef⟩ := halt _ _ _ _ _ a.1 a.2 ha hsane
      exact ⟨h.push hsane' (hle.trans hle') [.ref _] (refsOk_ref hdef) _ _, hle.trans hle'⟩
    · cases hrun
  rw [if_neg h4] at hrun
  by_cases h5 : c = 46
  · -- any character
    rw [if_pos h5] at hrun
    cases hrun
    refine ⟨h.push h.sane .refl [.term (.cls .any)] (refsOk_of_type fun e he => ?_) _ _, .refl⟩
    rw [mem_singleton.1 he]
    simp
  rw [if_neg h5] at hrun
  split at hrun
  · exact hrep hrun
  split at hrun
  · exact hrep hrun
  split at hrun
  · exact hrep hrun
  split at hrun
  · obtain ⟨b, -, hrun⟩ := bind_eq_some_iff.1 hrun
    split at hrun
    · cases hrun
    · exact hrep hrun
  · cases hrun

lemma seqLoop_spec (halt : AltOk alternates) (h : SeqOk st)
    (hrun : seqLoop tokenize alternates ruleName isNested fuel st = some st') :
    SeqOk st' ∧ Le st.parser st'.parser := by
  induction fuel generalizing st with
  | zero => cases hrun
  | succ fuel ih =>
    rw [seqLoop] at hrun
    obtain ⟨o, ho, hrun⟩ := bind_eq_some_iff.1 hrun
    cases o with
    | none =>
      cases hrun
      exact ⟨h, .refl⟩
    | some st₁ =>
      obtain ⟨h₁, hle₁⟩ := seqStep_spec halt h ho
      obtain ⟨h₂, hle₂⟩ := ih h₁ hrun
      exact ⟨h₂, hle₁.trans hle₂⟩

def OpenRule (r : GrRule) : Prop := ∃ αs β, r = openElems αs ++ rawSeq β

lemma parseSequence_spec (halt : AltOk alternates) (hsane : Sane p) (hopen : OpenRule r) (hrefs : p.RefsOk r)
    (hrun : parseSequence tokenize alternates fuel src ruleName r isNested p = some (src', r', p')) :
    Sane p' ∧ Le p p' ∧ OpenRule r' ∧ p'.RefsOk r' := by
  obtain ⟨st, hst, hrun⟩ := bind_eq_some_iff.1 hrun
  cases hrun
  obtain ⟨αs, β, rfl⟩ := hopen
  obtain ⟨h, hle⟩ := seqLoop_spec halt ⟨hsane, ⟨αs, β, [], by simp, rfl⟩, hrefs⟩ hst
  obtain ⟨αs', β₁, β₂, hr, -⟩ := h.shape
  refine ⟨h.sane, hle, ⟨αs', β₁ ++ β₂, ?_⟩, h.refs⟩
  rw [hr, rawSeq_append, append_assoc]

lemma altLoop_spec (halt : AltOk alternates) (hsane : Sane p) (hopen : OpenRule r) (hrefs : p.RefsOk r)
    (hrun : altLoop tokenize alternates ruleName isNested fuel src r p = some (src', r', p')) :
    Sane p' ∧ Le p p' ∧ OpenRule r' ∧ p'.RefsOk r' := by
  induction fuel generalizing src r p with
  | zero => cases hrun
  | succ fuel ih =>
    rw [altLoop] at hrun
    split at hrun
    · obtain ⟨s, hs, hrun⟩ := bind_eq_some_iff.1 hrun
      have hopen' : OpenRule (r ++ [⟨.alt, 0⟩]) := by
        obtain ⟨αs, β, rfl⟩ := hopen
        refine ⟨αs ++ [β], [], ?_⟩
        simp [openElems]
      have hrefs' : p.RefsOk (r ++ [⟨.alt, 0⟩]) := hrefs.append (refsOk_of_type fun e he => by
        rw [mem_singleton.1 he]
        decide)
      obtain ⟨hsane₁, hle₁, hopen₁, hrefs₁⟩ := parseSequence_spec halt hsane hopen' hrefs' hs
      obtain ⟨hsane₂, hle₂, hopen₂, hrefs₂⟩ := ih hsane₁ hopen₁ hrefs₁ hrun
      exact ⟨hsane₂, hle₁.trans hle₂, hopen₂, hrefs₂⟩
    · cases hrun
      exact ⟨hsane, .refl, hopen, hrefs⟩

lemma altOk_parseAlternates (tokenize : List UInt8 → Option UInt32) (fuel : Nat) :
    AltOk (parseAlternates tokenize fuel) := by
  induction fuel with
  | zero => exact fun _ _ _ _ _ _ _ h => by cases h
  | succ fuel ih =>
    intro src ruleName id isNested p src' p' hrun hsane
    rw [parseAlternates] at hrun
    obtain ⟨s, hs, hrun⟩ := bind_eq_some_iff.1 hrun
    obtain ⟨s', hs', hrun⟩ := bind_eq_some_iff.1 hrun
    cases hrun
    obtain ⟨hsane₁, hle₁, hopen₁, hrefs₁⟩ :=
      parseSequence_spec ih hsane ⟨[], [], rfl⟩ (fun e he => by cases he) hs
    obtain ⟨hsane₂, hle₂, hopen₂, hrefs₂⟩ := altLoop_spec ih hsane₁ hopen₁ hrefs₁ hs'
    have hwell : WellRule (s'.2.1 ++ [⟨.end, 0⟩]) := by
      obtain ⟨αs, β, heq⟩ := hopen₂
      exact ⟨αs, β, by rw [heq]⟩
    obtain ⟨hsane₃, hle₃, hdef⟩ := addRule_spec hsane₂ id hwell fun e he ht => by
      obtain he | he := mem_append.1 he
      · exact .inr (hrefs₂ e he ht)
      · rw [mem_singleton.1 he] at ht
        cases ht
    exact ⟨hsane₃, (hle₁.trans hle₂).trans hle₃, hdef⟩

lemma parseRule_spec (hsane : Sane p) (hrun : parseRule tokenize fuel src p = some (src', p')) : Sane p' := by
  unfold parseRule at hrun
  obtain ⟨n, hn, hrun⟩ := bind_eq_some_iff.1 hrun
  obtain ⟨hsane₁, -, -⟩ := getSymbolId_spec hsane (notMem_parseName hn)
  dsimp only at hrun
  split at hrun
  · obtain ⟨a, ha, hrun⟩ := bind_eq_some_iff.1 hrun
    obtain ⟨hsane₂, -, -⟩ := altOk_parseAlternates tokenize fuel _ _ _ _ _ a.1 a.2 ha hsane₁
    split at hrun
    · cases hrun
      exact hsane₂
    · split at hrun
      · cases hrun
        exact hsane₂
      · split at hrun
        · cases hrun
          exact hsane₂
        · cases hrun
  · cases hrun

lemma ruleLoop_spec (hsane : Sane p) (hrun : ruleLoop tokenize fuel src p = some p') : Sane p' := by
  induction fuel generalizing src p with
  | zero =>
    cases src with
    | nil =>
      cases hrun
      exact hsane
    | cons c src => cases hrun
  | succ fuel ih =>
    cases src with
    | nil =>
      cases hrun
      exact hsane
    | cons c src =>
      rw [ruleLoop] at hrun
      obtain ⟨s, hs, hrun⟩ := bind_eq_some_iff.1 hrun
      exact ih (parseRule_spec hsane hs) hrun

lemma parse_spec (hrun : parse tokenize fuel src = some p) :
    p.rules.length ≤ 4294967296 ∧ (∀ r ∈ p.rules, WellRule r) ∧
      ∀ r ∈ p.rules, ∀ e ∈ r, e.type = .ruleRef → e.value.toNat < p.rules.length := by
  obtain ⟨q, hq, hrun⟩ := bind_eq_some_iff.1 hrun
  have hsane : Sane q := ruleLoop_spec ⟨fun _ h => (by cases h), fun _ h => (by cases h), Nat.zero_le _⟩ hq
  split at hrun
  · cases hrun
  rename_i hcheck
  cases hrun
  have hcheck' : ∀ r ∈ p.rules, r ≠ [] ∧ ∀ e ∈ r, p.undefinedRef e = false := by
    intro r hr
    refine ⟨fun hnil => hcheck ?_, fun e he => ?_⟩
    · exact List.any_eq_true.2 ⟨r, hr, by rw [hnil]; rfl⟩
    · by_contra hundef
      refine hcheck (List.any_eq_true.2 ⟨r, hr, ?_⟩)
      rw [Bool.or_eq_true]
      exact .inr (List.any_eq_true.2 ⟨e, he, by simpa using hundef⟩)
  refine ⟨hsane.small, fun r hr => (hsane.well r hr).resolve_left (hcheck' r hr).1, fun r hr e he ht => ?_⟩
  have hdef : p.rules.getD e.value.toNat [] ≠ [] := by
    obtain ⟨k, hk, -⟩ | hdef := hsane.refs r hr e he ht
    · intro hnil
      have hundef : p.undefinedRef e = true := by
        unfold undefinedRef
        rw [hnil, Bool.and_eq_true, Bool.and_eq_true]
        exact ⟨⟨decide_eq_true ht, rfl⟩, List.any_eq_true.2 ⟨_, hk, decide_eq_true rfl⟩⟩
      rw [(hcheck' r hr).2 e he] at hundef
      cases hundef
    · exact hdef
  by_contra hge
  exact hdef (getD_eq_default _ _ (Nat.le_of_not_lt hge))

end Sequence

section Denote
variable {n : Nat} {p : GrParser}

def checked (hn : 0 < n) : RawSym → GrSym n
  | .term t => .term t
  | .ref v => .ref (if h : v.toNat < n then ⟨v.toNat, h⟩ else ⟨0, hn⟩)

lemma elems_checked (hn : 0 < n) {x : RawSym} (h : ∀ e ∈ x.elems, e.type = .ruleRef → e.value.toNat < n) :
    (checked hn x).elems = x.elems := by
  cases x with
  | term t => rfl
  | ref v =>
    have hv : v.toNat < n := h _ (mem_singleton.2 rfl) rfl
    simp only [checked, dif_pos hv, GrSym.elems, RawSym.elems, UInt32.ofNat_toNat]

lemma seqElems_checked (hn : 0 < n) {β : List RawSym} (h : ∀ e ∈ rawSeq β, e.type = .ruleRef → e.value.toNat < n) :
    RuleSet.seqElems (β.map (checked hn)) = rawSeq β := by
  unfold RuleSet.seqElems rawSeq
  rw [flatMap_map]
  refine flatMap_congr fun x hx => elems_checked hn fun e he => ?_
  exact h e (mem_flatMap.2 ⟨x, hx, he⟩)

lemma ruleElems_cons (α : List (GrSym n)) {αs : List (List (GrSym n))} (hne : αs ≠ []) :
    RuleSet.ruleElems (α :: αs) = RuleSet.seqElems α ++ ⟨.alt, 0⟩ :: RuleSet.ruleElems αs := by
  cases αs with
  | nil => exact absurd rfl hne
  | cons α' αs => rfl

lemma WellRule.exists_alts (hn : 0 < n) {r : GrRule} (h : WellRule r)
    (hrefs : ∀ e ∈ r, e.type = .ruleRef → e.value.toNat < n) :
    ∃ αs : List (List (GrSym n)), αs ≠ [] ∧ RuleSet.ruleElems αs = r := by
  obtain ⟨αs, β, rfl⟩ := h
  induction αs with
  | nil =>
    refine ⟨[β.map (checked hn)], by simp, ?_⟩
    rw [RuleSet.ruleElems, seqElems_checked hn fun e he => hrefs e (by simp [he])]
    rfl
  | cons α αs ih =>
    have hcons : openElems (α :: αs) ++ rawSeq β ++ [⟨.end, 0⟩] =
        rawSeq α ++ ⟨.alt, 0⟩ :: (openElems αs ++ rawSeq β ++ [⟨.end, 0⟩]) := by simp [openElems]
    rw [hcons] at hrefs ⊢
    obtain ⟨αs', hne, heq⟩ := ih fun e he => hrefs e (mem_append_right _ (mem_cons_of_mem _ he))
    refine ⟨α.map (checked hn) :: αs', by simp, ?_⟩
    rw [ruleElems_cons _ hne, heq, seqElems_checked hn fun e he => hrefs e (mem_append_left _ he)]

/-- The rules of an accepted source are those of a grammar. -/
theorem parse_denotes {tokenize : List UInt8 → Option UInt32} {fuel : Nat} {src : List UInt8}
    (hrun : parse tokenize fuel src = some p) : ∃ G : RuleSet p.rules.length, G.rules = p.rules := by
  obtain ⟨hsmall, hwell, hrefs⟩ := parse_spec hrun
  have halts : ∀ A : Fin p.rules.length, ∃ αs : List (List (GrSym p.rules.length)), αs ≠ [] ∧
      RuleSet.ruleElems αs = p.rules[A] := fun A =>
    (hwell _ (getElem_mem A.isLt)).exists_alts (Nat.lt_of_le_of_lt (Nat.zero_le _) A.isLt)
      (hrefs _ (getElem_mem A.isLt))
  choose alts hne heq using halts
  refine ⟨⟨alts, hne, hsmall⟩, ?_⟩
  unfold RuleSet.rules
  simp only [heq]
  exact ofFn_getElem

end Denote

/-- C++ `is_char_element`. -/
def isCharElement (e : GrElement) : Bool :=
  match e.type with
  | .char | .charNot | .charAlt | .charRngUpper | .charAny => true
  | _ => false

/-- Every upper bound and every alternate character follows a character element; the flag says whether one precedes. -/
def charsFollow : Bool → GrRule → Bool
  | _, [] => true
  | prev, e :: es => (prev || !(decide (e.type = .charRngUpper) || decide (e.type = .charAlt))) &&
      charsFollow (isCharElement e) es

section Follow
variable {rest : GrRule}

lemma charsFollow_mono (h : charsFollow false rest = true) (b : Bool) : charsFollow b rest = true := by
  cases rest with
  | nil => rfl
  | cons e es =>
    rw [charsFollow, Bool.and_eq_true] at h ⊢
    refine ⟨?_, h.2⟩
    rw [Bool.false_or] at h
    rw [h.1, Bool.or_true]

lemma charsFollow_item (i : CharItem) {type : GreType} {b : Bool} (hb : b = true ∨ type ≠ .charRngUpper ∧ type ≠ .charAlt)
    (htype : isCharElement ⟨type, 0⟩ = true) (h : charsFollow true rest = true) :
    charsFollow b (i.elems type ++ rest) = true := by
  have hfirst : ∀ v es, charsFollow true es = true → charsFollow b (⟨type, v⟩ :: es) = true := by
    intro v es hes
    rw [charsFollow, Bool.and_eq_true]
    refine ⟨?_, ?_⟩
    · obtain rfl | ⟨h1, h2⟩ := hb
      · rfl
      · simp [h1, h2]
    · rw [show isCharElement ⟨type, v⟩ = true from htype]
      exact hes
  cases i with
  | one a => exact hfirst a rest h
  | range a c =>
    refine hfirst a _ ?_
    show charsFollow true (⟨.charRngUpper, c⟩ :: rest) = true
    rw [charsFollow, Bool.and_eq_true]
    exact ⟨rfl, h⟩

lemma charsFollow_items (more : List CharItem) (h : charsFollow true rest = true) :
    charsFollow true (more.flatMap (CharItem.elems .charAlt) ++ rest) = true := by
  induction more with
  | nil => exact h
  | cons i more ih =>
    rw [flatMap_cons, append_assoc]
    exact charsFollow_item i (.inl rfl) rfl ih

lemma charsFollow_term (t : GrTerm) (b : Bool) (h : charsFollow false rest = true) :
    charsFollow b (t.elems ++ rest) = true := by
  match t with
  | .cls .any =>
    show charsFollow b (⟨.charAny, 0⟩ :: rest) = true
    rw [charsFollow, Bool.and_eq_true]
    exact ⟨by simp, charsFollow_mono h _⟩
  | .cls (.chars negated first more) =>
    show charsFollow b (first.elems _ ++ more.flatMap (CharItem.elems .charAlt) ++ rest) = true
    rw [append_assoc]
    refine charsFollow_item first (.inr ?_) ?_ (charsFollow_items more (charsFollow_mono h _))
    · cases negated <;> decide
    · cases negated <;> rfl
  | .token negated id =>
    show charsFollow b (⟨if negated then .tokenNot else .token, id⟩ :: rest) = true
    rw [charsFollow, Bool.and_eq_true]
    refine ⟨?_, charsFollow_mono h _⟩
    cases negated <;> simp

lemma charsFollow_seq (β : List RawSym) (b : Bool) (h : charsFollow false rest = true) :
    charsFollow b (rawSeq β ++ rest) = true := by
  induction β generalizing b with
  | nil => exact charsFollow_mono h b
  | cons x β ih =>
    rw [rawSeq, flatMap_cons, append_assoc]
    cases x with
    | term t => exact charsFollow_term t b (ih false)
    | ref v =>
      show charsFollow b (⟨.ruleRef, v⟩ :: (rawSeq β ++ rest)) = true
      rw [charsFollow, Bool.and_eq_true]
      exact ⟨by simp, ih _⟩

lemma WellRule.charsFollow {r : GrRule} (h : WellRule r) : GrParser.charsFollow false r = true := by
  obtain ⟨αs, β, rfl⟩ := h
  have hend : GrParser.charsFollow false [⟨.end, 0⟩] = true := rfl
  induction αs with
  | nil => exact charsFollow_seq β false hend
  | cons α αs ih =>
    have hcons : openElems (α :: αs) ++ rawSeq β ++ [⟨.end, 0⟩] =
        rawSeq α ++ ⟨.alt, 0⟩ :: (openElems αs ++ rawSeq β ++ [⟨.end, 0⟩]) := by simp [openElems]
    rw [hcons]
    refine charsFollow_seq α false ?_
    rw [GrParser.charsFollow, Bool.and_eq_true]
    exact ⟨rfl, ih⟩

end Follow

end GrParser

namespace Grammar

/-- The stacks that the engine comes to from the initial ones. -/
inductive StackReach (rules : GrRules) (root : Nat) : GrStack → Prop where
  | start (i : Nat) : i ∈ alternates (rules.getD root []) → StackReach rules root (pushPos rules ⟨root, i⟩ [])
  | expand (s t : GrStack) : StackReach rules root s → Child (visit rules) t s → StackReach rules root t
  | chr (s t : GrStack) (chr : UInt32) : StackReach rules root s → visit rules s = .emit → t ∈ afterChr rules chr s →
      StackReach rules root t
  | token (s t : GrStack) (token : UInt32) : StackReach rules root s → visit rules s = .emit →
      t ∈ afterToken rules token s → StackReach rules root t

def Safe (rules : GrRules) (s : GrStack) : Prop :=
  visit rules s ≠ .abort ∧ ∀ p rest, s = p :: rest → visit rules s = .emit →
    ¬ ((elem rules p).type = .token ∨ (elem rules p).type = .tokenNot) →
    (∀ chr, matchChar rules p chr ≠ none) ∧ ∀ partialUtf8, matchPartialChar rules p partialUtf8 ≠ none

section Safe
variable {n : Nat} {G : RuleSet n} {root : Nat} {s : GrStack}

lemma StackReach.stands (hroot : root < n) (h : StackReach G.rules root s) :
    ∃ Γ : List (List (GrSym n)), Stands G.rules s Γ := by
  induction h with
  | start i hi =>
    obtain ⟨Γ, hΓ, -⟩ := (covers_start G ⟨root, hroot⟩).sound _ ⟨i, hi, rfl⟩
    exact ⟨Γ, hΓ⟩
  | expand s t _ hc ih =>
    obtain ⟨Γ, hΓ⟩ := ih
    obtain ⟨Δ, -, hΔ⟩ := (sameVisit hΓ).child hc
    exact ⟨Δ, hΔ⟩
  | chr s t chr _ he ht ih => exact stands_afterChr ⟨he, ih⟩ ht
  | token s t token _ he ht ih =>
    obtain ⟨Γ, hΓ⟩ := ih
    obtain ⟨-, -, -, -, -, β, Γ', -, -, hst⟩ := hΓ.afterToken he ht
    exact ⟨_, hst⟩

lemma Stands.safe {Γ : List (List (GrSym n))} (h : Stands G.rules s Γ) : Safe G.rules s := by
  refine ⟨fun he => ?_, ?_⟩
  · have hv := sameVisit h
    rw [he] at hv
    cases hv
  · rintro p rest rfl he hno
    obtain ⟨negated, id, β, Γ', rfl, helem, -, -⟩ | ⟨t, β, Γ', rfl, hp, -, -⟩ := h.token_or he
    · rw [helem] at hno
      exact absurd (isToken negated id) hno
    · refine ⟨fun chr => ?_, fun partialUtf8 => ?_⟩
      · rw [hp.matchChar chr]
        simp
      · obtain ⟨b, hb⟩ := hp.matchPartialChar partialUtf8
        rw [hb]
        simp

end Safe

end Grammar

namespace GrParser

open Grammar

/-- A source that is accepted gives well-formed rules: whole, with references in range, and with every upper bound and
alternate character behind a character. The engine does not abort on any stack that it comes to. The name of a
generated rule is never that of a rule in a source. -/
theorem parse_wellFormed (tokenize : List UInt8 → Option UInt32) (fuel : Nat) (src : List UInt8) (p : GrParser)
    (hrun : parse tokenize fuel src = some p) :
    (∀ r ∈ p.rules, r.getLast? = some ⟨.end, 0⟩ ∧ charsFollow false r = true ∧
      ∀ e ∈ r, e.type = .ruleRef → e.value.toNat < p.rules.length) ∧
    (∀ root < p.rules.length, ∀ s, StackReach (p.rules.map LlamaGrammar.copyRule) root s →
      Safe (p.rules.map LlamaGrammar.copyRule) s) ∧
    ∀ src' name rest base id, parseName src' = some (name, rest) → generatedName base id ≠ name := by
  obtain ⟨-, hwell, hrefs⟩ := parse_spec hrun
  refine ⟨fun r hr => ⟨?_, (hwell r hr).charsFollow, hrefs r hr⟩, fun root hroot s hs => ?_, ?_⟩
  · obtain ⟨αs, β, rfl⟩ := hwell r hr
    exact getLast?_concat
  · obtain ⟨G, hG⟩ := parse_denotes hrun
    rw [← hG, map_copyRule] at hs ⊢
    obtain ⟨Γ, hΓ⟩ := hs.stands hroot
    exact hΓ.safe
  · intro src' name rest base id hname heq
    exact notMem_parseName hname (heq ▸ mem_generatedName base id)

/-- `r ::= ([a-c] | "x")*`. -/
theorem parse_wellFormed_star :
    ∃ p, parse (fun _ => none) 30 [114, 58, 58, 61, 40, 91, 97, 45, 99, 93, 124, 34, 120, 34, 41, 42] = some p ∧
    (∀ r ∈ p.rules, r.getLast? = some ⟨.end, 0⟩ ∧ charsFollow false r = true ∧
      ∀ e ∈ r, e.type = .ruleRef → e.value.toNat < p.rules.length) ∧
    (∀ root < p.rules.length, ∀ s, StackReach (p.rules.map LlamaGrammar.copyRule) root s →
      Safe (p.rules.map LlamaGrammar.copyRule) s) ∧
    ∀ src' name rest base id, parseName src' = some (name, rest) → generatedName base id ≠ name := by
  have hsome : (parse (fun _ => none) 30
      [114, 58, 58, 61, 40, 91, 97, 45, 99, 93, 124, 34, 120, 34, 41, 42]).isSome = true := by decide +kernel
  obtain ⟨p, hp⟩ := isSome_iff_exists.1 hsome
  exact ⟨p, hp, parse_wellFormed _ _ _ p hp⟩

end GrParser

end Mallana
