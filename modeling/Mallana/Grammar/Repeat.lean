import Mallana.Grammar.Detect
import Mallana.Grammar.Parser
import Mallana.Lib.Repetition

/-!
# The meaning of a repetition

`handle_repetitions` rewrites the symbols from `last_sym_start` on: it repeats them, and adds rules for the optional
rest (`recAdded`). In every grammar that has these rules the rewritten symbols derive the concatenations of as many
strings of the symbols as the bounds allow. The elements of a rule determine its alternatives (`ruleElems_inj`), so the
grammar has no choice in how it reads the added rules.
-/

namespace Mallana

open Lib List Option

def Apart (es : List GrElement) : Prop := ∀ e ∈ es.head?, e.type ≠ .charAlt ∧ e.type ≠ .charRngUpper

section Elements
variable {n : Nat} {es es' : List GrElement}

lemma Apart.cons {e : GrElement} (h : e.type ≠ .charAlt ∧ e.type ≠ .charRngUpper) : Apart (e :: es) := by
  intro e' he'
  cases he'
  exact h

lemma Grammar.Starts.apart {e : GrElement} (h : Grammar.Starts e) : Apart (e :: es) := by
  apply Apart.cons
  obtain (h | h | h) | (h | h) | h := h <;> rw [h] <;> exact ⟨by decide, by decide⟩

lemma Apart.of_end {e : GrElement} (h : Grammar.isEndOfSequence e = true) : Apart (e :: es) := by
  apply Apart.cons
  refine ⟨fun ht => ?_, fun ht => ?_⟩
  · simp [Grammar.isEndOfSequence, ht] at h
  · simp [Grammar.isEndOfSequence, ht] at h

lemma CharItem.elems_inj {type : GreType} {i j : CharItem} (hes : ∀ e ∈ es.head?, e.type ≠ .charRngUpper)
    (hes' : ∀ e ∈ es'.head?, e.type ≠ .charRngUpper) (h : i.elems type ++ es = j.elems type ++ es') :
    i = j ∧ es = es' := by
  cases i with
  | one a =>
    cases j with
    | one b =>
      cases h
      exact ⟨rfl, rfl⟩
    | range b c =>
      cases h
      exact absurd rfl (hes _ rfl)
  | range a c =>
    cases j with
    | one b =>
      cases h
      exact absurd rfl (hes' _ rfl)
    | range b d =>
      cases h
      exact ⟨rfl, rfl⟩

lemma head_more (hes : Apart es) (more : List CharItem) :
    ∀ e ∈ (more.flatMap (CharItem.elems .charAlt) ++ es).head?, e.type ≠ .charRngUpper := by
  cases more with
  | nil => exact fun e he => (hes e he).2
  | cons i more =>
    obtain ⟨v, tl, hv⟩ := Grammar.CharItem.elems_eq .charAlt i
    rw [flatMap_cons, hv]
    intro e he
    cases he
    simp

lemma more_inj {more more' : List CharItem} (hes : Apart es) (hes' : Apart es')
    (h : more.flatMap (CharItem.elems .charAlt) ++ es = more'.flatMap (CharItem.elems .charAlt) ++ es') :
    more = more' ∧ es = es' := by
  induction more generalizing more' with
  | nil =>
    cases more' with
    | nil => exact ⟨rfl, h⟩
    | cons i more' =>
      obtain ⟨v, tl, hv⟩ := Grammar.CharItem.elems_eq .charAlt i
      rw [flatMap_cons, hv] at h
      rw [flatMap_nil, nil_append] at h
      exact absurd rfl (hes ⟨.charAlt, v⟩ (by rw [h]; rfl)).1
  | cons j more ih =>
    cases more' with
    | nil =>
      obtain ⟨v, tl, hv⟩ := Grammar.CharItem.elems_eq .charAlt j
      rw [flatMap_cons, hv] at h
      rw [flatMap_nil, nil_append] at h
      exact absurd rfl (hes' ⟨.charAlt, v⟩ (by rw [← h]; rfl)).1
    | cons i more' =>
      rw [flatMap_cons, flatMap_cons, append_assoc, append_assoc] at h
      obtain ⟨rfl, hrest⟩ := CharItem.elems_inj (head_more hes more) (head_more hes' more') h
      obtain ⟨rfl, rfl⟩ := ih hrest
      exact ⟨rfl, rfl⟩

lemma CharClass.elems_inj {s t : CharClass} (hes : Apart es) (hes' : Apart es') (h : s.elems ++ es = t.elems ++ es') :
    s = t ∧ es = es' := by
  cases s with
  | any =>
    cases t with
    | any =>
      cases h
      exact ⟨rfl, rfl⟩
    | chars negated first more =>
      obtain ⟨v, tl, hv⟩ := Grammar.CharItem.elems_eq (if negated then .charNot else .char) first
      rw [elems, elems, hv] at h
      cases negated <;> cases h
  | chars negated first more =>
    cases t with
    | any =>
      obtain ⟨v, tl, hv⟩ := Grammar.CharItem.elems_eq (if negated then .charNot else .char) first
      rw [elems, elems, hv] at h
      cases negated <;> cases h
    | chars negated' first' more' =>
      have hneg : negated = negated' := by
        obtain ⟨v, tl, hv⟩ := Grammar.CharItem.elems_eq (if negated then .charNot else .char) first
        obtain ⟨v', tl', hv'⟩ := Grammar.CharItem.elems_eq (if negated' then .charNot else .char) first'
        rw [elems, elems, hv, hv'] at h
        cases negated <;> cases negated' <;> first | rfl | cases h
      subst hneg
      rw [elems, elems, append_assoc, append_assoc] at h
      obtain ⟨rfl, hrest⟩ := CharItem.elems_inj (head_more hes more) (head_more hes' more') h
      obtain ⟨rfl, rfl⟩ := more_inj hes hes' hrest
      exact ⟨rfl, rfl⟩

lemma GrTerm.elems_inj {s t : GrTerm} (hes : Apart es) (hes' : Apart es') (h : s.elems ++ es = t.elems ++ es') :
    s = t ∧ es = es' := by
  cases s with
  | cls s =>
    cases t with
    | cls t =>
      obtain ⟨rfl, rfl⟩ := CharClass.elems_inj hes hes' h
      exact ⟨rfl, rfl⟩
    | token negated id =>
      obtain ⟨e, tl, he, hstarts⟩ := Grammar.exists_char s
      rw [elems, elems, he] at h
      cases h
      cases negated <;> obtain h | h | h := hstarts <;> cases h
  | token negated id =>
    cases t with
    | cls t =>
      obtain ⟨e, tl, he, hstarts⟩ := Grammar.exists_char t
      rw [elems, elems, he] at h
      cases h
      cases negated <;> obtain h | h | h := hstarts <;> cases h
    | token negated' id' =>
      cases negated <;> cases negated' <;> cases h <;> exact ⟨rfl, rfl⟩

lemma GrSym.elems_inj (hn : n ≤ 4294967296) {x y : GrSym n} (hes : Apart es) (hes' : Apart es')
    (h : GrSym.elems x ++ es = GrSym.elems y ++ es') : x = y ∧ es = es' := by
  have hterm : ∀ {t : GrTerm} {A : Fin n} {l l' : List GrElement},
      t.elems ++ l = ⟨.ruleRef, UInt32.ofNat A⟩ :: l' → False := by
    intro t A l l' heq
    obtain ⟨e, tl, he, -⟩ := Grammar.exists_starts (n := n) (.term t)
    have hmem : e ∈ t.elems := by
      change GrTerm.elems t = e :: tl at he
      rw [he]
      exact mem_cons_self
    change GrTerm.elems t = e :: tl at he
    rw [he] at heq
    cases heq
    exact Grammar.type_of_mem_term hmem rfl
  cases x with
  | term s =>
    cases y with
    | term t =>
      obtain ⟨rfl, rfl⟩ := GrTerm.elems_inj hes hes' h
      exact ⟨rfl, rfl⟩
    | ref B => exact (hterm h).elim
  | ref A =>
    cases y with
    | term t => exact (hterm h.symm).elim
    | ref B =>
      have hval : UInt32.ofNat A = UInt32.ofNat B := (GrElement.mk.inj (List.cons.inj h).1).2
      have hAB : A = B := by
        apply Fin.ext
        have := congrArg UInt32.toNat hval
        rwa [UInt32.toNat_ofNat_of_lt' (lt_of_lt_of_le A.isLt hn),
          UInt32.toNat_ofNat_of_lt' (lt_of_lt_of_le B.isLt hn)] at this
      exact ⟨by rw [hAB], (List.cons.inj h).2⟩

namespace RuleSet

lemma seqElems_inj (hn : n ≤ 4294967296) {α β : List (GrSym n)} {e e' : GrElement}
    (he : Grammar.isEndOfSequence e = true) (he' : Grammar.isEndOfSequence e' = true)
    (h : seqElems α ++ e :: es = seqElems β ++ e' :: es') : α = β ∧ e = e' ∧ es = es' := by
  have hapart : ∀ (γ : List (GrSym n)) {l : List GrElement} {d : GrElement}, Grammar.isEndOfSequence d = true →
      Apart (seqElems γ ++ d :: l) := by
    intro γ l d hd
    cases γ with
    | nil => exact .of_end hd
    | cons x γ =>
      obtain ⟨f, tl, hf, hstarts⟩ := Grammar.exists_starts x
      rw [seqElems, flatMap_cons, hf]
      exact hstarts.apart
  have hno : ∀ {x : GrSym n} {l l' : List GrElement} {d : GrElement}, Grammar.isEndOfSequence d = true →
      GrSym.elems x ++ l = d :: l' → False := by
    intro x l l' d hd heq
    obtain ⟨f, tl, hf, hstarts⟩ := Grammar.exists_starts x
    rw [hf] at heq
    cases heq
    rw [hstarts.not_end] at hd
    cases hd
  induction α generalizing β with
  | nil =>
    cases β with
    | nil =>
      cases h
      exact ⟨rfl, rfl, rfl⟩
    | cons y β =>
      rw [seqElems, flatMap_nil, seqElems, flatMap_cons, append_assoc] at h
      exact (hno he h.symm).elim
  | cons x α ih =>
    cases β with
    | nil =>
      rw [seqElems, seqElems, flatMap_nil, flatMap_cons, append_assoc] at h
      exact (hno he' h).elim
    | cons y β =>
      rw [seqElems, seqElems, flatMap_cons, flatMap_cons, append_assoc, append_assoc] at h
      obtain ⟨rfl, hrest⟩ := GrSym.elems_inj hn (hapart α he) (hapart β he') h
      obtain ⟨rfl, hsep⟩ := ih hrest
      exact ⟨rfl, hsep⟩

lemma ruleElems_inj (hn : n ≤ 4294967296) {αs βs : List (List (GrSym n))} (hα : αs ≠ []) (hβ : βs ≠ [])
    (h : ruleElems αs = ruleElems βs) : αs = βs := by
  induction αs generalizing βs with
  | nil => exact absurd rfl hα
  | cons α αs ih =>
    cases βs with
    | nil => exact absurd rfl hβ
    | cons β βs =>
      cases αs with
      | nil =>
        cases βs with
        | nil =>
          obtain ⟨rfl, -⟩ := seqElems_inj hn rfl rfl h
          rfl
        | cons β' βs =>
          obtain ⟨-, hsep, -⟩ := seqElems_inj hn rfl rfl h
          cases hsep
      | cons α' αs =>
        cases βs with
        | nil =>
          obtain ⟨-, hsep, -⟩ := seqElems_inj hn rfl rfl h
          cases hsep
        | cons β' βs =>
          obtain ⟨rfl, -, hrest⟩ := seqElems_inj hn rfl rfl h
          rw [ih (cons_ne_nil _ _) (cons_ne_nil _ _) hrest]

end RuleSet

end Elements

namespace GrParser

open Grammar

/-- The rules that `recRules` adds, with their ids. -/
def recAdded (ruleName : List UInt8) (prevRule : GrRule) (noMax : Bool) :
    Nat → Bool → UInt32 → GrParser → List (UInt32 × GrRule)
  | 0, _, _, _ => []
  | n + 1, first, last, p =>
    let r := p.generateSymbolId ruleName
    let rec' := if !first || noMax then [⟨.ruleRef, if noMax then r.1 else last⟩] else []
    let rule := prevRule ++ rec' ++ [⟨.alt, 0⟩, ⟨.end, 0⟩]
    (r.1, rule) :: recAdded ruleName prevRule noMax n false r.1 (r.2.addRule r.1 rule)

def optTimes (minTimes maxTimes : UInt64) : UInt64 :=
  if maxTimes == 18446744073709551615 then 1 else maxTimes - minTimes

/-- The rules that `handle_repetitions` adds. -/
def addedRules (ruleName : List UInt8) (minTimes maxTimes : UInt64) (st : SeqState) : List (UInt32 × GrRule) :=
  recAdded ruleName (st.rule.drop st.lastSymStart) (maxTimes == 18446744073709551615) (optTimes minTimes maxTimes).toNat
    true 0 st.parser

/-- The operator that a text begins with: its bounds, the greatest number for no upper bound, and what follows it. -/
def operator (isNested : Bool) : List UInt8 → Option (UInt64 × UInt64 × List UInt8)
  | [] => none
  | c :: src =>
    if c = 42 then some (0, 18446744073709551615, parseSpace isNested false src)
    else if c = 43 then some (1, 18446744073709551615, parseSpace isNested false src)
    else if c = 63 then some (0, 1, parseSpace isNested false src)
    else if c = 123 then bounds isNested (parseSpace isNested false src)
    else none

section Added
variable {ruleName : List UInt8} {prevRule : GrRule} {noMax : Bool}

lemma length_recAdded (n : Nat) (first : Bool) (last : UInt32) (p : GrParser) :
    (recAdded ruleName prevRule noMax n first last p).length = n := by
  induction n generalizing first last p with
  | zero => rfl
  | succ n ih => rw [recAdded, length_cons, ih]

lemma lt_of_getD_ne {k : Nat} {G : RuleSet k} {i : Nat} (h : G.rules.getD i [] ≠ []) : i < k := by
  by_contra hge
  apply h
  apply getD_eq_default
  rw [RuleSet.rules, length_ofFn]
  exact Nat.le_of_not_lt hge

lemma alts_of_added {k : Nat} {G : RuleSet k} {id : UInt32} {S δ : List (GrSym k)}
    (h : G.rules.getD id.toNat [] = RuleSet.seqElems S ++ RuleSet.seqElems δ ++ [⟨.alt, 0⟩, ⟨.end, 0⟩]) :
    ∃ A : Fin k, A.val = id.toNat ∧ G.alts A = [S ++ δ, []] := by
  have hlt : id.toNat < k := lt_of_getD_ne (G := G) (by rw [h]; simp)
  refine ⟨⟨id.toNat, hlt⟩, rfl, ?_⟩
  apply RuleSet.ruleElems_inj G.small (G.nonempty _) (cons_ne_nil _ _)
  rw [← getD_rules]
  refine h.trans ?_
  rw [RuleSet.ruleElems, RuleSet.ruleElems, RuleSet.seqElems, RuleSet.seqElems, RuleSet.seqElems, flatMap_append]
  · rfl
  · exact cons_ne_nil _ _

lemma seqElems_ref {k : Nat} (G : RuleSet k) {A : Fin k} {id : UInt32} (hA : A.val = id.toNat) :
    RuleSet.seqElems [.ref A] = [⟨.ruleRef, id⟩] := by
  have hid : UInt32.ofNat A = id := by
    apply UInt32.toNat_inj.1
    rw [toNat_ofNat G, hA]
  change ([⟨.ruleRef, UInt32.ofNat A⟩] : GrRule) = _
  rw [hid]

lemma optionals_recAdded {k : Nat} {G : RuleSet k} {S : List (GrSym k)} (n : Nat) (first : Bool) (last : UInt32)
    (p : GrParser) (i : Nat) (hlast : (first = true ∧ i = 0) ∨
      first = false ∧ ∃ A : Fin k, A.val = last.toNat ∧ Optionals G.alts S i A)
    (hadded : ∀ e ∈ recAdded ruleName (RuleSet.seqElems S) false n first last p, G.rules.getD e.1.toNat [] = e.2)
    (hpos : 0 < i + n) :
    ∃ A : Fin k, A.val = (recRules ruleName (RuleSet.seqElems S) false n first last p).1.toNat ∧
      Optionals G.alts S (i + n) A := by
  induction n generalizing first last p i with
  | zero =>
    rcases hlast with ⟨-, rfl⟩ | ⟨-, A, hA, hopt⟩
    · omega
    · exact ⟨A, hA, hopt⟩
  | succ n ih =>
    rw [recAdded] at hadded
    obtain ⟨hrule, hadded⟩ := forall_mem_cons.1 hadded
    rw [recRules, show i + (n + 1) = i + 1 + n by omega]
    refine ih false _ _ (i + 1) (.inr ⟨rfl, ?_⟩) hadded (by omega)
    rcases hlast with ⟨rfl, rfl⟩ | ⟨rfl, A, hA, hopt⟩
    · obtain ⟨B, hB, halts⟩ := @alts_of_added k G _ S [] hrule
      rw [append_nil] at halts
      exact ⟨B, hB, .one halts⟩
    · obtain ⟨B, hB, halts⟩ := @alts_of_added k G _ S [.ref A] (by rw [seqElems_ref G hA]; exact hrule)
      exact ⟨B, hB, .more hopt halts⟩

lemma repeat_recAdded {k : Nat} {G : RuleSet k} {S : List (GrSym k)} (p : GrParser)
    (hadded : ∀ e ∈ recAdded ruleName (RuleSet.seqElems S) true 1 true 0 p, G.rules.getD e.1.toNat [] = e.2) :
    ∃ A : Fin k, A.val = (recRules ruleName (RuleSet.seqElems S) true 1 true 0 p).1.toNat ∧
      G.alts A = [S ++ [.ref A], []] := by
  have hrule := hadded _ mem_cons_self
  have hlt : (p.generateSymbolId ruleName).1.toNat < k := lt_of_getD_ne (G := G) (by rw [hrule]; simp)
  obtain ⟨A, hA⟩ : ∃ A : Fin k, A.val = (p.generateSymbolId ruleName).1.toNat := ⟨⟨_, hlt⟩, rfl⟩
  obtain ⟨B, hB, halts⟩ := @alts_of_added k G _ S [.ref A] (by rw [seqElems_ref G hA]; exact hrule)
  obtain rfl : B = A := Fin.ext (hB.trans hA.symm)
  exact ⟨B, hB, halts⟩

end Added

lemma handleRepetitions_rule {ruleName : List UInt8} {minTimes maxTimes : UInt64} {st st' : SeqState}
    (hrun : handleRepetitions ruleName minTimes maxTimes st = some st') :
    st'.lastSymStart = st.lastSymStart ∧ st'.rule = st.rule.take st.lastSymStart ++
      (List.replicate minTimes.toNat (st.rule.drop st.lastSymStart)).flatten ++
      (if 0 < optTimes minTimes maxTimes then [⟨.ruleRef, (recRules ruleName (st.rule.drop st.lastSymStart)
        (maxTimes == 18446744073709551615) (optTimes minTimes maxTimes).toNat true 0 st.parser).1⟩] else []) := by
  unfold handleRepetitions at hrun
  dsimp only at hrun
  split at hrun
  · cases hrun
  split at hrun
  · cases hrun
  split at hrun
  · cases hrun
  have hcopies : (if minTimes = 0 then st.rule.take st.lastSymStart else
      st.rule ++ (List.replicate (minTimes.toNat - 1) (st.rule.drop st.lastSymStart)).flatten) =
      st.rule.take st.lastSymStart ++ (List.replicate minTimes.toNat (st.rule.drop st.lastSymStart)).flatten := by
    split
    · rename_i h0
      rw [h0]
      simp
    · rename_i h0
      obtain ⟨m, hm⟩ : ∃ m, minTimes.toNat = m + 1 := by
        refine Nat.exists_eq_succ_of_ne_zero fun hz => h0 ?_
        exact UInt64.toNat_inj.1 hz
      rw [hm, Nat.add_sub_cancel, replicate_succ, flatten_cons, ← append_assoc, take_append_drop]
  rw [hcopies] at hrun
  cases hrun
  refine ⟨rfl, ?_⟩
  change (if 0 < optTimes minTimes maxTimes then _ else _) = _
  split
  · rfl
  · rw [append_nil]

lemma seqStep_operator {tokenize : List UInt8 → Option UInt32} {alternates : Alternates} {fuel : Nat}
    {ruleName rest : List UInt8} {isNested : Bool} {minTimes maxTimes : UInt64} {st st' : SeqState}
    (hop : operator isNested st.src = some (minTimes, maxTimes, rest))
    (hstep : seqStep tokenize alternates fuel ruleName isNested st = some (some st')) :
    handleRepetitions ruleName minTimes maxTimes { st with src := rest } = some st' := by
  have hplain : ∀ {o : Option SeqState}, o.map some = some (some st') → o = some st' :=
    fun h => Option.map_injective (Option.some_injective _) h
  obtain ⟨src, rule, lastSymStart, nPrevRules, parser⟩ := st
  cases src with
  | nil => cases hop
  | cons c src =>
    rw [operator] at hop
    split at hop
    · rename_i hc
      subst hc
      cases hop
      exact hplain hstep
    split at hop
    · rename_i hc
      subst hc
      cases hop
      exact hplain hstep
    split at hop
    · rename_i hc
      subst hc
      cases hop
      exact hplain hstep
    split at hop
    · rename_i hc
      subst hc
      obtain ⟨b, hb, hstep⟩ := bind_eq_some_iff.1 hstep
      rw [hop] at hb
      cases hb
      split at hstep
      · cases hstep
      · exact hplain hstep
    · cases hop

section Rewritten
variable {ruleName : List UInt8} {n : Nat} {G : RuleSet n} {S : List (GrSym n)}

lemma seqElems_replicate (m : Nat) : RuleSet.seqElems (List.replicate m S).flatten =
    (List.replicate m (RuleSet.seqElems S)).flatten := by
  induction m with
  | zero => rfl
  | succ m ih =>
    rw [replicate_succ, replicate_succ, flatten_cons, flatten_cons, ← ih]
    exact flatMap_append

abbrev words (G : RuleSet n) : List (GrSym n) → Language UInt32 := langOf (fun t c => GrTerm.has c t = true) G.alts

lemma exists_rest {minTimes maxTimes : UInt64} (p : GrParser) (hle : minTimes ≤ maxTimes)
    (hadded : ∀ e ∈ recAdded ruleName (RuleSet.seqElems S) (maxTimes == 18446744073709551615)
      (optTimes minTimes maxTimes).toNat true 0 p, G.rules.getD e.1.toNat [] = e.2) :
    ∃ T : List (GrSym n), RuleSet.seqElems T = (if 0 < optTimes minTimes maxTimes then [⟨.ruleRef, (recRules ruleName
        (RuleSet.seqElems S) (maxTimes == 18446744073709551615) (optTimes minTimes maxTimes).toNat true 0 p).1⟩] else []) ∧
      ∀ w, w ∈ words G T ↔ ∃ i, (maxTimes ≠ 18446744073709551615 → minTimes.toNat + i ≤ maxTimes.toNat) ∧
        w ∈ words G S ^ i := by
  have hmin := UInt64.le_iff_toNat_le.1 hle
  by_cases hmax : maxTimes = 18446744073709551615
  · have hopt : optTimes minTimes maxTimes = 1 := by
      rw [optTimes, hmax]
      rfl
    rw [hopt, hmax] at hadded ⊢
    obtain ⟨A, hA, halts⟩ := repeat_recAdded p hadded
    refine ⟨[.ref A], (seqElems_ref G hA).trans (if_pos (by decide)).symm, fun w => ?_⟩
    rw [mem_langOf_repeat halts]
    exact exists_congr fun i => ⟨fun h => ⟨fun hne => absurd rfl hne, h⟩, fun h => h.2⟩
  · have hbeq : (maxTimes == 18446744073709551615) = false := beq_eq_false_iff_ne.2 hmax
    have hopt : optTimes minTimes maxTimes = maxTimes - minTimes := by
      rw [optTimes, hbeq]
      rfl
    have hnat : (optTimes minTimes maxTimes).toNat = maxTimes.toNat - minTimes.toNat := by
      rw [hopt, UInt64.toNat_sub_of_le _ _ hle]
    rw [hbeq] at hadded ⊢
    rcases Nat.eq_zero_or_pos (optTimes minTimes maxTimes).toNat with hzero | hpos
    · have hnot : ¬ 0 < optTimes minTimes maxTimes := fun h => by
        have := UInt64.lt_iff_toNat_lt.1 h
        omega
      refine ⟨[], (if_neg hnot).symm, fun w => ?_⟩
      rw [mem_langOf_nil]
      constructor
      · rintro rfl
        exact ⟨0, fun _ => hmin, Language.nil_mem_one⟩
      · rintro ⟨i, hi, hw⟩
        obtain rfl : i = 0 := by
          have := hi hmax
          omega
        exact hw
    · have hlt : 0 < optTimes minTimes maxTimes := UInt64.lt_iff_toNat_lt.2 (by simpa using hpos)
      obtain ⟨A, hA, hchain⟩ := optionals_recAdded _ true 0 p 0 (.inl ⟨rfl, rfl⟩) hadded (by omega)
      refine ⟨[.ref A], (seqElems_ref G hA).trans (if_pos hlt).symm, fun w => ?_⟩
      rw [hchain.mem_langOf_iff]
      refine exists_congr fun i => and_congr_left fun _ => ⟨fun h _ => ?_, fun h => ?_⟩
      · omega
      · have := h hmax
        omega

end Rewritten

/-- An operator behind the symbols `S` rewrites them into symbols that derive the concatenations of as many strings of
`S` as its bounds allow, in every grammar that has the rules it adds; what stands before `S` stays. The bound that
`handle_repetitions` takes for no upper bound allows any number. -/
theorem seqStep_repeats {tokenize : List UInt8 → Option UInt32} {alternates : Alternates} {fuel : Nat}
    {ruleName rest : List UInt8} {isNested : Bool} {minTimes maxTimes : UInt64} {st st' : SeqState}
    (hop : operator isNested st.src = some (minTimes, maxTimes, rest)) (hle : minTimes ≤ maxTimes)
    (hstep : seqStep tokenize alternates fuel ruleName isNested st = some (some st'))
    {n : Nat} (G : RuleSet n) (S : List (GrSym n)) (hS : st.rule.drop st.lastSymStart = RuleSet.seqElems S)
    (hadded : ∀ e ∈ addedRules ruleName minTimes maxTimes st, G.rules.getD e.1.toNat [] = e.2) :
    ∃ S' : List (GrSym n), st'.rule = st.rule.take st.lastSymStart ++ RuleSet.seqElems S' ∧
      st'.lastSymStart = st.lastSymStart ∧
      ∀ w, G.Derives S' w ↔ ∃ parts : List (List UInt32), w = parts.flatten ∧ (∀ u ∈ parts, G.Derives S u) ∧
        minTimes.toNat ≤ parts.length ∧ (maxTimes ≠ 18446744073709551615 → parts.length ≤ maxTimes.toNat) := by
  obtain ⟨hstart, hrule⟩ := handleRepetitions_rule (seqStep_operator hop hstep)
  simp only [] at hstart hrule
  rw [hS] at hrule
  rw [addedRules, hS] at hadded
  obtain ⟨T, hT, hwords⟩ := exists_rest st.parser hle hadded
  refine ⟨(List.replicate minTimes.toNat S).flatten ++ T, ?_, hstart, fun w => ?_⟩
  · have hseq : RuleSet.seqElems ((List.replicate minTimes.toNat S).flatten ++ T) =
        (List.replicate minTimes.toNat (RuleSet.seqElems S)).flatten ++ RuleSet.seqElems T := by
      rw [← seqElems_replicate]
      exact flatMap_append
    rw [hrule, hseq, hT, append_assoc]
  · have hcopies : words G ((List.replicate minTimes.toNat S).flatten ++ T) =
        words G S ^ minTimes.toNat * words G T := by
      rw [words, langOf_append, langOf_replicate]
    change w ∈ words G _ ↔ _
    rw [hcopies, Language.mem_mul]
    constructor
    · rintro ⟨u, hu, v, hv, rfl⟩
      obtain ⟨i, hi, hv⟩ := (hwords v).1 hv
      have hpow : u ++ v ∈ words G S ^ (minTimes.toNat + i) := by
        rw [pow_add, Language.mem_mul]
        exact ⟨u, hu, v, hv, rfl⟩
      obtain ⟨parts, hparts, hlen, hall⟩ := Language.mem_pow.1 hpow
      exact ⟨parts, hparts, hall, by omega, fun hne => by rw [hlen]; exact hi hne⟩
    · rintro ⟨parts, rfl, hall, hmin, hmax⟩
      have hpow : parts.flatten ∈ words G S ^ (minTimes.toNat + (parts.length - minTimes.toNat)) := by
        rw [Nat.add_sub_cancel' hmin]
        exact Language.mem_pow.2 ⟨parts, rfl, rfl, hall⟩
      rw [pow_add, Language.mem_mul] at hpow
      obtain ⟨u, hu, v, hv, heq⟩ := hpow
      refine ⟨u, hu, v, (hwords v).2 ⟨_, fun hne => ?_, hv⟩, heq⟩
      rw [Nat.add_sub_cancel' hmin]
      exact hmax hne

/-- `root ::= "a" root_1` and `root_1 ::= "a" |`. -/
def upToTwo : RuleSet 2 where
  alts := fun A => if A.val = 0 then [[.term (.cls (.chars false (.one 97) [])), .ref ⟨1, Nat.one_lt_two⟩]]
    else [[.term (.cls (.chars false (.one 97) []))], []]
  nonempty := fun A => by split <;> simp
  small := by decide

/-- The state of the parser behind `root ::= "a"`, at `{1,2}`. -/
def atBounds : SeqState where
  src := [123, 49, 44, 50, 125]
  rule := [⟨.char, 97⟩]
  lastSymStart := 0
  nPrevRules := 1
  parser := { symbolIds := [([114, 111, 111, 116], 0)] }

theorem seqStep_repeats_upToTwo : ∃ st' : SeqState,
    seqStep (fun _ => none) (fun _ _ _ _ _ => none) 9 [114, 111, 111, 116] false atBounds = some (some st') ∧
      ∃ S' : List (GrSym 2), st'.rule = [] ++ RuleSet.seqElems S' ∧ st'.lastSymStart = 0 ∧
        ∀ w, upToTwo.Derives S' w ↔ ∃ parts : List (List UInt32), w = parts.flatten ∧
          (∀ u ∈ parts, upToTwo.Derives [.term (.cls (.chars false (.one 97) []))] u) ∧
          1 ≤ parts.length ∧ ((2 : UInt64) ≠ 18446744073709551615 → parts.length ≤ 2) := by
  have hsome : (seqStep (fun _ => none) (fun _ _ _ _ _ => none) 9 [114, 111, 111, 116] false atBounds).isSome = true := by
    rfl
  have hgoes : ∀ o, seqStep (fun _ => none) (fun _ _ _ _ _ => none) 9 [114, 111, 111, 116] false atBounds = some o →
      o.isSome = true := by
    intro o ho
    have hjoin : (seqStep (fun _ => none) (fun _ _ _ _ _ => none) 9 [114, 111, 111, 116] false atBounds).all
      Option.isSome = true := by decide +kernel
    rw [ho] at hjoin
    exact hjoin
  obtain ⟨o, ho⟩ := isSome_iff_exists.1 hsome
  obtain ⟨st', rfl⟩ := isSome_iff_exists.1 (hgoes o ho)
  have hop : operator false atBounds.src = some (1, 2, []) := by decide
  exact ⟨st', ho, seqStep_repeats hop (by decide) ho upToTwo [.term (.cls (.chars false (.one 97) []))] rfl
    (by decide +kernel)⟩

end GrParser

end Mallana
