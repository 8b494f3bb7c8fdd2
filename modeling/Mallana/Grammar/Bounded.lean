import Mallana.Grammar.Repeat

/-!
# The parser is bounded

Every loop of the parser consumes a byte in each round, so the result of `parse` does not depend on the fuel once there
is as much of it as bytes in the source. What a round adds is bounded by the checks of the two bounds of `{m,n}`, but
only if they are in order: nothing compares them, and `max_times - min_times` wraps around.
-/

namespace Mallana.GrParser

open Grammar List Option

section Words
variable {src : List UInt8} {isNested inComment : Bool}

lemma length_parseSpace : (parseSpace isNested inComment src).length ≤ src.length := by
  induction src generalizing inComment with
  | nil => exact le_refl 0
  | cons c src ih =>
    rw [parseSpace]
    split_ifs
    · exact Nat.le_succ_of_le ih
    · exact le_refl _
    · exact Nat.le_succ_of_le ih
    · exact Nat.le_succ_of_le ih
    · exact Nat.le_succ_of_le ih
    · exact le_refl _

lemma length_parseHex {size : Nat} {value : UInt32} {r : UInt32 × List UInt8} (h : parseHex size value src = some r) :
    r.2.length ≤ src.length := by
  induction size generalizing value src with
  | zero =>
    cases h
    exact le_refl _
  | succ size ih =>
    cases src with
    | nil => cases h
    | cons c src =>
      obtain ⟨d, -, h⟩ := bind_eq_some_iff.1 h
      exact Nat.le_succ_of_le (ih h)

lemma length_decodeTail (n : Nat) (value : UInt32) : (decodeTail n value src).2.length ≤ src.length := by
  induction n generalizing value src with
  | zero => exact le_of_eq (by cases src <;> rfl)
  | succ n ih =>
    cases src with
    | nil => exact le_refl 0
    | cons c src => exact Nat.le_succ_of_le (ih _)

lemma length_decodeOne (c : UInt8) : (decodeOne c src).2.length ≤ src.length := by
  unfold decodeOne
  split_ifs
  · exact length_decodeTail _ _
  · exact length_decodeTail _ _
  · exact length_decodeTail _ _
  · exact length_decodeTail _ _

lemma length_parseChar {r : UInt32 × List UInt8} (h : parseChar src = some r) : r.2.length < src.length := by
  cases src with
  | nil => cases h
  | cons c src =>
    unfold parseChar at h
    dsimp only at h
    split at h
    · cases src with
      | nil => cases h
      | cons d src =>
        refine Nat.lt_succ_of_le (Nat.le_succ_of_le ?_)
        dsimp only at h
        split_ifs at h
        · exact length_parseHex h
        · exact length_parseHex h
        · exact length_parseHex h
        · cases h
          exact le_refl _
        · cases h
          exact le_refl _
        · cases h
          exact le_refl _
        · cases h
          exact le_refl _
    · cases h
      exact Nat.lt_succ_of_le (length_decodeOne c)

lemma length_dropWhile {f : UInt8 → Bool} (h : src.takeWhile f ≠ []) : (src.dropWhile f).length < src.length := by
  have hlen := congrArg List.length (@List.takeWhile_append_dropWhile _ f src)
  have hpos := length_pos_of_ne_nil h
  rw [length_append] at hlen
  omega

lemma length_parseName {r : List UInt8 × List UInt8} (h : parseName src = some r) : r.2.length < src.length := by
  unfold parseName at h
  split at h
  · cases h
  · rename_i hne
    cases h
    exact length_dropWhile hne

lemma length_parseInt {r : UInt64 × List UInt8} (h : parseInt src = some r) : r.2.length < src.length := by
  unfold parseInt at h
  dsimp only at h
  split at h
  · cases h
  · rename_i hno
    cases h
    exact length_dropWhile fun hnil => hno (.inl hnil)

lemma length_parseToken {tokenize : List UInt8 → Option UInt32} {r : UInt32 × List UInt8}
    (h : parseToken tokenize src = some r) : r.2.length < src.length := by
  cases src with
  | nil => cases h
  | cons c src =>
    rw [parseToken] at h
    split at h
    · cases h
    split at h
    · obtain ⟨n, hn, h⟩ := bind_eq_some_iff.1 h
      have hlen := length_parseInt hn
      split at h
      · cases h
        simp only [length_tail, length_cons] at hlen ⊢
        omega
      · cases h
    · dsimp only at h
      split at h
      · cases h
      · rename_i d rest hdrop
        obtain ⟨id, -, rfl⟩ := map_eq_some_iff.1 h
        have hle := (dropWhile_suffix (l := src) (fun b => decide (b ≠ 62))).length_le
        rw [hdrop, length_cons] at hle
        rw [length_cons]
        exact Nat.lt_succ_of_lt (Nat.lt_of_succ_le hle)

lemma length_bounds {r : UInt64 × UInt64 × List UInt8} (h : bounds isNested src = some r) :
    r.2.2.length ≤ src.length := by
  obtain ⟨m, hm, h⟩ := bind_eq_some_iff.1 h
  have hlen := length_parseInt hm
  have hsp := @length_parseSpace m.2 isNested false
  dsimp only at h
  split at h
  · cases h
  rename_i c rest hrest
  rw [hrest, length_cons] at hsp
  split at h
  · cases h
    have := @length_parseSpace rest isNested false
    dsimp only
    omega
  split at h
  · have hsp' := @length_parseSpace rest isNested false
    split at h
    · obtain ⟨n, hn, h⟩ := bind_eq_some_iff.1 h
      have hlen' := length_parseInt hn
      split at h
      · cases h
        have h1 := @length_parseSpace n.2 isNested false
        have h2 := @length_parseSpace (parseSpace isNested false n.2).tail isNested false
        rw [length_tail] at h2
        dsimp only
        omega
      · cases h
    · split at h
      · cases h
        have h2 := @length_parseSpace (parseSpace isNested false rest).tail isNested false
        rw [length_tail] at h2
        dsimp only
        omega
      · cases h
  · cases h

end Words

section Symbols
variable {src : List UInt8} {rule : GrRule} {r : List UInt8 × GrRule} {fuel fuel' : Nat} {startType : GreType}
  {lastSymStart : Nat}

lemma length_literal (h : literal fuel src rule = some r) : r.1.length < src.length := by
  induction fuel generalizing src rule with
  | zero => cases h
  | succ fuel ih =>
    rw [literal] at h
    split at h
    · rename_i hquote
      cases h
      cases src with
      | nil => cases hquote
      | cons c src => exact Nat.lt_succ_self _
    · obtain ⟨c, hc, h⟩ := bind_eq_some_iff.1 h
      exact lt_trans (ih h) (length_parseChar hc)

lemma literal_fuel (h : src.length < fuel) (h' : src.length < fuel') : literal fuel src rule = literal fuel' src rule := by
  induction fuel generalizing fuel' src rule with
  | zero => omega
  | succ fuel ih =>
    cases fuel' with
    | zero => omega
    | succ fuel' =>
      rw [literal, literal]
      split
      · rfl
      · cases hc : parseChar src with
        | none => rfl
        | some c =>
          have hlen := length_parseChar hc
          exact ih (by omega) (by omega)

lemma length_charClass (h : charClass startType lastSymStart fuel src rule = some r) : r.1.length < src.length := by
  induction fuel generalizing src rule with
  | zero => cases h
  | succ fuel ih =>
    rw [charClass] at h
    split at h
    · rename_i hbracket
      cases h
      cases src with
      | nil => cases hbracket
      | cons c src => exact Nat.lt_succ_self _
    · obtain ⟨c, hc, h⟩ := bind_eq_some_iff.1 h
      have hlen := length_parseChar hc
      dsimp only at h
      split at h
      · obtain ⟨e, he, h⟩ := bind_eq_some_iff.1 h
        have hlen' := length_parseChar he
        have := ih h
        rw [length_tail] at hlen'
        omega
      · exact lt_trans (ih h) hlen

lemma charClass_fuel (h : src.length < fuel) (h' : src.length < fuel') :
    charClass startType lastSymStart fuel src rule = charClass startType lastSymStart fuel' src rule := by
  induction fuel generalizing fuel' src rule with
  | zero => omega
  | succ fuel ih =>
    cases fuel' with
    | zero => omega
    | succ fuel' =>
      rw [charClass, charClass]
      split
      · rfl
      · cases hc : parseChar src with
        | none => rfl
        | some c =>
          have hlen := length_parseChar hc
          simp only [bind_eq_bind, bind_some]
          split
          · cases he : parseChar c.2.tail with
            | none => rfl
            | some e =>
              have hlen' := length_parseChar he
              rw [length_tail] at hlen'
              exact ih (by omega) (by omega)
          · exact ih (by omega) (by omega)

end Symbols

/-- `parse_alternates` goes on in the source. -/
def NoLonger (alternates : Alternates) : Prop :=
  ∀ src ruleName id isNested p r, alternates src ruleName id isNested p = some r → r.1.length ≤ src.length

/-- The two agree on the sources that are shorter than `k`. -/
def AgreeBelow (k : Nat) (alternates alternates' : Alternates) : Prop :=
  ∀ src ruleName id isNested p, src.length < k →
    alternates src ruleName id isNested p = alternates' src ruleName id isNested p

section Sequence
variable {tokenize : List UInt8 → Option UInt32} {alternates alternates' : Alternates} {ruleName : List UInt8}
  {isNested : Bool} {st st' : SeqState} {fuel fuel' : Nat}

lemma src_handleRepetitions {minTimes maxTimes : UInt64} (h : handleRepetitions ruleName minTimes maxTimes st = some st') :
    st'.src = st.src := by
  unfold handleRepetitions at h
  dsimp only at h
  split at h
  · cases h
  split at h
  · cases h
  split at h
  · cases h
  · cases h
    rfl

lemma length_seqStep (halt : NoLonger alternates)
    (h : seqStep tokenize alternates fuel ruleName isNested st = some (some st')) : st'.src.length < st.src.length := by
  have hrep : ∀ {m n : UInt64} {src : List UInt8}, (handleRepetitions ruleName m n { st with src }).map some =
      some (some st') → st'.src.length ≤ src.length := by
    intro m n src hmap
    obtain ⟨st₁, hst₁, heq⟩ := map_eq_some_iff.1 hmap
    cases heq
    exact le_of_eq (congrArg List.length (src_handleRepetitions hst₁))
  unfold seqStep at h
  split at h
  · cases h
  rename_i c src hsrc
  rw [hsrc, length_cons]
  apply Nat.lt_succ_of_le
  by_cases h0 : c = 34
  · -- a literal
    rw [if_pos h0] at h
    obtain ⟨r, hr, h⟩ := bind_eq_some_iff.1 h
    cases h
    exact length_parseSpace.trans (le_of_lt (length_literal hr))
  rw [if_neg h0] at h
  by_cases h1 : c = 91
  · -- a class
    rw [if_pos h1] at h
    obtain ⟨r, hr, h⟩ := bind_eq_some_iff.1 h
    cases h
    have hlen := length_charClass hr
    have htail := src.length_tail
    refine length_parseSpace.trans ?_
    split at hlen <;> omega
  rw [if_neg h1] at h
  by_cases h2 : c = 60 ∨ c = 33
  · -- a token
    rw [if_pos h2] at h
    obtain ⟨t, ht, h⟩ := bind_eq_some_iff.1 h
    cases h
    have hlen := length_parseToken ht
    refine length_parseSpace.trans ?_
    split at hlen
    · omega
    · exact Nat.le_of_lt_succ hlen
  rw [if_neg h2] at h
  by_cases h3 : isWordChar c = true
  · -- a reference
    rw [if_pos h3] at h
    obtain ⟨n, hn, h⟩ := bind_eq_some_iff.1 h
    cases h
    exact length_parseSpace.trans (Nat.le_of_lt_succ (length_parseName hn))
  rw [if_neg h3] at h
  by_cases h4 : c = 40
  · -- a group
    rw [if_pos h4] at h
    obtain ⟨a, ha, h⟩ := bind_eq_some_iff.1 h
    split at h
    · cases h
      have hlen := (halt _ _ _ _ _ _ ha).trans length_parseSpace
      have htail := a.1.length_tail
      refine length_parseSpace.trans ?_
      omega
    · cases h
  rw [if_neg h4] at h
  by_cases h5 : c = 46
  · -- any character
    rw [if_pos h5] at h
    cases h
    exact length_parseSpace
  rw [if_neg h5] at h
  split at h
  · exact (hrep h).trans length_parseSpace
  split at h
  · exact (hrep h).trans length_parseSpace
  split at h
  · exact (hrep h).trans length_parseSpace
  split at h
  · obtain ⟨b, hb, h⟩ := bind_eq_some_iff.1 h
    split at h
    · cases h
    · exact (hrep h).trans ((length_bounds hb).trans length_parseSpace)
  · cases h

lemma seqStep_fuel (h : st.src.length ≤ fuel) (h' : st.src.length ≤ fuel')
    (halt : AgreeBelow st.src.length alternates alternates') :
    seqStep tokenize alternates fuel ruleName isNested st = seqStep tokenize alternates' fuel' ruleName isNested st := by
  obtain ⟨src, rule, lastSymStart, nPrevRules, parser⟩ := st
  cases src with
  | nil => rfl
  | cons c src =>
    rw [length_cons] at h h' halt
    have hlit : literal fuel src rule = literal fuel' src rule := literal_fuel (by omega) (by omega)
    have hclass : ∀ startType, charClass startType rule.length fuel (if src.head? = some 94 then src.tail else src) rule =
        charClass startType rule.length fuel' (if src.head? = some 94 then src.tail else src) rule := by
      intro startType
      have hlen : (if src.head? = some 94 then src.tail else src).length ≤ src.length := by
        split
        · rw [length_tail]
          exact Nat.sub_le _ _
        · exact le_refl _
      exact charClass_fuel (by omega) (by omega)
    have hgroup : ∀ id p, alternates (parseSpace true false src) ruleName id true p =
        alternates' (parseSpace true false src) ruleName id true p :=
      fun id p => halt _ _ _ _ _ (Nat.lt_succ_of_le length_parseSpace)
    unfold seqStep
    simp only [hlit, hclass, hgroup]

lemma length_seqLoop (halt : NoLonger alternates) (h : seqLoop tokenize alternates ruleName isNested fuel st = some st') :
    st'.src.length ≤ st.src.length := by
  induction fuel generalizing st with
  | zero => cases h
  | succ fuel ih =>
    rw [seqLoop] at h
    obtain ⟨o, ho, h⟩ := bind_eq_some_iff.1 h
    cases o with
    | none =>
      cases h
      exact le_refl _
    | some st₁ => exact (ih h).trans (le_of_lt (length_seqStep halt ho))

lemma seqLoop_fuel (hlong : NoLonger alternates) (h : st.src.length < fuel) (h' : st.src.length < fuel')
    (halt : AgreeBelow st.src.length alternates alternates') :
    seqLoop tokenize alternates ruleName isNested fuel st = seqLoop tokenize alternates' ruleName isNested fuel' st := by
  induction fuel generalizing fuel' st with
  | zero => omega
  | succ fuel ih =>
    cases fuel' with
    | zero => omega
    | succ fuel' =>
      rw [seqLoop, seqLoop, ← seqStep_fuel (Nat.le_of_lt_succ h) (Nat.le_of_lt_succ h') halt]
      cases hstep : seqStep tokenize alternates fuel ruleName isNested st with
      | none => rfl
      | some o =>
        cases o with
        | none => rfl
        | some st₁ =>
          have hlen := length_seqStep hlong hstep
          exact ih (by omega) (by omega) fun src name id nested p hsrc => halt src name id nested p (by omega)

variable {src : List UInt8} {rule : GrRule} {p : GrParser} {r : List UInt8 × GrRule × GrParser}

lemma length_parseSequence (halt : NoLonger alternates)
    (h : parseSequence tokenize alternates fuel src ruleName rule isNested p = some r) : r.1.length ≤ src.length := by
  obtain ⟨st, hst, h⟩ := bind_eq_some_iff.1 h
  cases h
  exact length_seqLoop halt hst

lemma parseSequence_fuel (hlong : NoLonger alternates) (h : src.length < fuel) (h' : src.length < fuel')
    (halt : AgreeBelow src.length alternates alternates') :
    parseSequence tokenize alternates fuel src ruleName rule isNested p =
      parseSequence tokenize alternates' fuel' src ruleName rule isNested p := by
  rw [parseSequence, parseSequence]
  exact congrArg (Option.bind · _) (seqLoop_fuel hlong h h' halt)

lemma length_altLoop (halt : NoLonger alternates)
    (h : altLoop tokenize alternates ruleName isNested fuel src rule p = some r) : r.1.length ≤ src.length := by
  induction fuel generalizing src rule p with
  | zero => cases h
  | succ fuel ih =>
    rw [altLoop] at h
    split at h
    · obtain ⟨s, hs, h⟩ := bind_eq_some_iff.1 h
      have hlen := (length_parseSequence halt hs).trans length_parseSpace
      have htail := src.length_tail
      have := ih h
      omega
    · cases h
      exact le_refl _

lemma altLoop_fuel (hlong : NoLonger alternates) (h : src.length < fuel) (h' : src.length < fuel')
    (halt : AgreeBelow src.length alternates alternates') :
    altLoop tokenize alternates ruleName isNested fuel src rule p =
      altLoop tokenize alternates' ruleName isNested fuel' src rule p := by
  induction fuel generalizing fuel' src rule p with
  | zero => omega
  | succ fuel ih =>
    cases fuel' with
    | zero => omega
    | succ fuel' =>
      rw [altLoop, altLoop]
      split
      · rename_i hbar
        have hlen : (parseSpace true false src.tail).length < src.length := by
          cases src with
          | nil => cases hbar
          | cons c src => exact Nat.lt_succ_of_le length_parseSpace
        have hbelow : AgreeBelow (parseSpace true false src.tail).length alternates alternates' :=
          fun s name id nested q hs => halt s name id nested q (by omega)
        have heq : parseSequence tokenize alternates fuel (parseSpace true false src.tail) ruleName (rule ++ [⟨.alt, 0⟩])
            isNested p = parseSequence tokenize alternates' fuel' (parseSpace true false src.tail) ruleName
            (rule ++ [⟨.alt, 0⟩]) isNested p := parseSequence_fuel hlong (by omega) (by omega) hbelow
        rw [← heq]
        cases hs : parseSequence tokenize alternates fuel (parseSpace true false src.tail) ruleName
          (rule ++ [⟨.alt, 0⟩]) isNested p with
        | none => rfl
        | some s =>
          have hlen' := length_parseSequence hlong hs
          exact ih (by omega) (by omega) fun t name id nested q ht => halt t name id nested q (by omega)
      · rfl

end Sequence

section Whole
variable {tokenize : List UInt8 → Option UInt32} {fuel fuel' : Nat} {src : List UInt8} {p : GrParser}

lemma noLonger_parseAlternates (tokenize : List UInt8 → Option UInt32) (fuel : Nat) :
    NoLonger (parseAlternates tokenize fuel) := by
  induction fuel with
  | zero => exact fun _ _ _ _ _ _ h => nomatch h
  | succ fuel ih =>
    intro src ruleName id isNested p r h
    rw [parseAlternates] at h
    obtain ⟨s, hs, h⟩ := bind_eq_some_iff.1 h
    obtain ⟨s', hs', h⟩ := bind_eq_some_iff.1 h
    cases h
    exact (length_altLoop ih hs').trans (length_parseSequence ih hs)

lemma parseAlternates_fuel (h : src.length + 1 < fuel) (h' : src.length + 1 < fuel') {ruleName : List UInt8} {id : UInt32}
    {isNested : Bool} : parseAlternates tokenize fuel src ruleName id isNested p =
      parseAlternates tokenize fuel' src ruleName id isNested p := by
  induction fuel generalizing fuel' src ruleName id isNested p with
  | zero => omega
  | succ fuel ih =>
    cases fuel' with
    | zero => omega
    | succ fuel' =>
      have hbelow : AgreeBelow src.length (parseAlternates tokenize fuel) (parseAlternates tokenize fuel') :=
        fun s name id nested q hs => ih (by omega) (by omega)
      have hlong := noLonger_parseAlternates tokenize fuel
      have heq : parseSequence tokenize (parseAlternates tokenize fuel) fuel src ruleName [] isNested p =
          parseSequence tokenize (parseAlternates tokenize fuel') fuel' src ruleName [] isNested p :=
        parseSequence_fuel hlong (by omega) (by omega) hbelow
      rw [parseAlternates, parseAlternates]
      dsimp only
      rw [← heq]
      cases hs : parseSequence tokenize (parseAlternates tokenize fuel) fuel src ruleName [] isNested p with
      | none => rfl
      | some s =>
        have hlen := length_parseSequence hlong hs
        have halt : altLoop tokenize (parseAlternates tokenize fuel) ruleName isNested fuel s.1 s.2.1 s.2.2 =
            altLoop tokenize (parseAlternates tokenize fuel') ruleName isNested fuel' s.1 s.2.1 s.2.2 :=
          altLoop_fuel hlong (by omega) (by omega) fun t name id nested q ht => hbelow t name id nested q (by omega)
        simp only [bind_eq_bind, bind_some]
        rw [halt]

lemma length_parseRule {r : List UInt8 × GrParser} (h : parseRule tokenize fuel src p = some r) :
    r.1.length < src.length := by
  obtain ⟨n, hn, h⟩ := bind_eq_some_iff.1 h
  have hname := length_parseName hn
  have hspace := @length_parseSpace n.2 false false
  dsimp only at h
  split at h
  · obtain ⟨a, ha, h⟩ := bind_eq_some_iff.1 h
    have hlen := (noLonger_parseAlternates tokenize fuel _ _ _ _ _ a ha).trans length_parseSpace
    rw [length_drop] at hlen
    split at h
    · cases h
      exact Nat.lt_of_le_of_lt (Nat.zero_le _) hname
    · rename_i c rest hrest
      rw [hrest, length_cons] at hlen
      have htail := rest.length_tail
      split_ifs at h
      · cases h
        exact lt_of_le_of_lt length_parseSpace (by omega)
      · cases h
        exact lt_of_le_of_lt length_parseSpace (by omega)
      · cases h
        exact lt_of_le_of_lt length_parseSpace (by omega)
  · cases h

lemma parseRule_fuel (h : src.length ≤ fuel + 1) (h' : src.length ≤ fuel' + 1) :
    parseRule tokenize fuel src p = parseRule tokenize fuel' src p := by
  rw [parseRule, parseRule]
  cases hn : parseName src with
  | none => rfl
  | some n =>
    have hname := length_parseName hn
    have hspace := @length_parseSpace n.2 false false
    simp only [bind_eq_bind, bind_some]
    split
    · rename_i hdef
      have hthree : 3 ≤ (parseSpace false false n.2).length := by
        have := congrArg List.length hdef
        rw [length_take] at this
        simp only [length_cons, length_nil] at this
        omega
      have hlen := @length_parseSpace ((parseSpace false false n.2).drop 3) true false
      rw [length_drop] at hlen
      rw [@parseAlternates_fuel tokenize fuel fuel' _ _ (by omega) (by omega)]
    · rfl

lemma ruleLoop_fuel (h : src.length ≤ fuel) (h' : src.length ≤ fuel') :
    ruleLoop tokenize fuel src p = ruleLoop tokenize fuel' src p := by
  induction fuel generalizing fuel' src p with
  | zero =>
    obtain rfl : src = [] := eq_nil_of_length_eq_zero (Nat.le_zero.1 h)
    rw [ruleLoop, ruleLoop]
  | succ fuel ih =>
    cases src with
    | nil => rw [ruleLoop, ruleLoop]
    | cons c src =>
      rw [length_cons] at h h'
      cases fuel' with
      | zero => omega
      | succ fuel' =>
        have heq : parseRule tokenize fuel (c :: src) p = parseRule tokenize fuel' (c :: src) p :=
          parseRule_fuel h h'
        rw [ruleLoop, ruleLoop, ← heq]
        cases hr : parseRule tokenize fuel (c :: src) p with
        | none => rfl
        | some r =>
          have hlen := length_parseRule hr
          rw [length_cons] at hlen
          exact ih (by omega) (by omega)

lemma parse_fuel (h : src.length ≤ fuel) : parse tokenize fuel src = parse tokenize src.length src := by
  rw [parse, parse]
  have hlen := @length_parseSpace src true false
  rw [ruleLoop_fuel (hlen.trans h) hlen]

end Whole

section Operators
variable (tokenize : List UInt8 → Option UInt32) (source : List UInt8)

/-- Where `parse` is before a rule. -/
inductive AtRule : List UInt8 → GrParser → Prop where
  | start : AtRule (parseSpace true false source) {}
  | next {src p fuel r} : AtRule src p → parseRule tokenize fuel src p = some r → AtRule r.1 r.2

/-- Where `parse_sequence` is before a round of its loop: behind `::=`, behind a round, behind `|`, or behind `(`. -/
inductive AtRound : List UInt8 → Bool → SeqState → Prop where
  | rule {src p n} : AtRule tokenize source src p → parseName src = some n →
      (parseSpace false false n.2).take 3 = [58, 58, 61] →
      AtRound n.1 false {
        src := parseSpace true false ((parseSpace false false n.2).drop 3)
        rule := [], lastSymStart := 0, nPrevRules := 1, parser := (p.getSymbolId n.1).2 }
  | round {ruleName isNested st st' fuel fuel'} : AtRound ruleName isNested st →
      seqStep tokenize (parseAlternates tokenize fuel) fuel' ruleName isNested st = some (some st') →
      AtRound ruleName isNested st'
  | alternative {ruleName isNested st fuel fuel'} : AtRound ruleName isNested st →
      seqStep tokenize (parseAlternates tokenize fuel) fuel' ruleName isNested st = some none →
      st.src.head? = some 124 →
      AtRound ruleName isNested {
        src := parseSpace true false st.src.tail
        rule := st.rule ++ [⟨.alt, 0⟩], lastSymStart := st.rule.length + 1, nPrevRules := 1, parser := st.parser }
  | group {ruleName isNested st src} : AtRound ruleName isNested st → st.src = 40 :: src → AtRound ruleName true {
        src := parseSpace true false src
        rule := [], lastSymStart := 0, nPrevRules := 1, parser := (st.parser.generateSymbolId ruleName).2 }

/-- The copies of the symbol that a repetition writes: behind the symbol, and one in each added rule. -/
def copies (minTimes : UInt64) (added : List (UInt32 × GrRule)) : Nat := minTimes.toNat - 1 + added.length

/-- The operator `{m,n}` before the parser, if there is one, makes it fail, or adds at most
`MAX_REPETITION_THRESHOLD + 1` rules and copies. -/
def OperatorBounded (ruleName : List UInt8) (isNested : Bool) (st : SeqState) : Prop :=
  ∀ src minTimes maxTimes rest, st.src = 123 :: src →
    bounds isNested (parseSpace isNested false src) = some (minTimes, maxTimes, rest) →
    (∀ alternates fuel, seqStep tokenize alternates fuel ruleName isNested st = none) ∨
      (addedRules ruleName minTimes maxTimes st).length ≤ 2001 ∧
        copies minTimes (addedRules ruleName minTimes maxTimes st) ≤ 2001

/-- The checks of the parser refuse the bounds: one of them is too large, no symbol precedes, or the rules behind it
are too many. -/
def Refused (minTimes maxTimes : UInt64) (st : SeqState) : Prop :=
  2000 < minTimes ∨ maxTimes ≠ 18446744073709551615 ∧ 2000 < maxTimes ∨ st.lastSymStart = st.rule.length ∨
    2000 ≤ st.nPrevRules * totalRules (maxTimes == 18446744073709551615) minTimes maxTimes ∨
    st.nPrevRules * totalRules (maxTimes == 18446744073709551615) minTimes maxTimes < 1

/-- The bounds of the operator `{m,n}` before the parser are in order, or the checks refuse them. -/
def OperatorOrdered (isNested : Bool) (st : SeqState) : Prop :=
  ∀ src minTimes maxTimes rest, st.src = 123 :: src →
    bounds isNested (parseSpace isNested false src) = some (minTimes, maxTimes, rest) →
    minTimes ≤ maxTimes ∨ Refused minTimes maxTimes st

end Operators

section Operators
variable {tokenize : List UInt8 → Option UInt32} {alternates : Alternates} {fuel : Nat} {ruleName src rest : List UInt8}
  {isNested : Bool} {st : SeqState} {minTimes maxTimes : UInt64}

lemma handleRepetitions_eq_none :
    handleRepetitions ruleName minTimes maxTimes st = none ↔ st.lastSymStart = st.rule.length ∨
      2000 ≤ st.nPrevRules * totalRules (maxTimes == 18446744073709551615) minTimes maxTimes ∨
      st.nPrevRules * totalRules (maxTimes == 18446744073709551615) minTimes maxTimes < 1 := by
  unfold handleRepetitions
  dsimp only
  split
  · rename_i h
    exact ⟨fun _ => .inl h, fun _ => rfl⟩
  rename_i h
  split
  · rename_i h'
    exact ⟨fun _ => .inr (.inl h'), fun _ => rfl⟩
  rename_i h'
  split
  · rename_i h''
    exact ⟨fun _ => .inr (.inr h''), fun _ => rfl⟩
  · rename_i h''
    exact ⟨fun hnone => (nomatch hnone), fun hor => (hor.elim h fun hor => hor.elim h' h'').elim⟩

lemma seqStep_eq_none (hsrc : st.src = 123 :: src)
    (hb : bounds isNested (parseSpace isNested false src) = some (minTimes, maxTimes, rest)) :
    seqStep tokenize alternates fuel ruleName isNested st = none ↔ Refused minTimes maxTimes st := by
  obtain ⟨src', rule, lastSymStart, nPrevRules, parser⟩ := st
  subst hsrc
  have hstep : seqStep tokenize alternates fuel ruleName isNested ⟨123 :: src, rule, lastSymStart, nPrevRules, parser⟩ =
      (bounds isNested (parseSpace isNested false src)).bind fun b =>
        if 2000 < b.1 ∨ b.2.1 ≠ 18446744073709551615 ∧ 2000 < b.2.1 then none
        else (handleRepetitions ruleName b.1 b.2.1 ⟨b.2.2, rule, lastSymStart, nPrevRules, parser⟩).map some := rfl
  rw [hstep, hb, bind_some]
  dsimp only
  split
  · rename_i hlarge
    exact ⟨fun _ => hlarge.elim .inl fun h => .inr (.inl h), fun _ => rfl⟩
  · rename_i hsmall
    rw [map_eq_none_iff, handleRepetitions_eq_none, Refused, ← or_assoc (a := 2000 < minTimes)]
    exact (or_iff_right hsmall).symm

lemma optTimes_le (hle : minTimes ≤ maxTimes) (hmin : ¬ 2000 < minTimes)
    (hmax : ¬ (maxTimes ≠ 18446744073709551615 ∧ 2000 < maxTimes)) :
    (optTimes minTimes maxTimes).toNat ≤ 2001 ∧ minTimes.toNat - 1 + (optTimes minTimes maxTimes).toNat ≤ 2001 := by
  have hmin' : minTimes.toNat ≤ 2000 := UInt64.le_iff_toNat_le.1 (UInt64.not_lt.1 hmin)
  by_cases hnone : maxTimes = 18446744073709551615
  · have hopt : optTimes minTimes maxTimes = 1 := by
      rw [optTimes, hnone]
      rfl
    have hone : (optTimes minTimes maxTimes).toNat = 1 := congrArg UInt64.toNat hopt
    omega
  · have hmax' : maxTimes.toNat ≤ 2000 :=
      UInt64.le_iff_toNat_le.1 (UInt64.not_lt.1 fun hlt => hmax ⟨hnone, hlt⟩)
    have hopt : optTimes minTimes maxTimes = maxTimes - minTimes := by
      rw [optTimes, beq_eq_false_iff_ne.2 hnone]
      rfl
    have hsub : (optTimes minTimes maxTimes).toNat = maxTimes.toNat - minTimes.toNat := by
      rw [hopt, UInt64.toNat_sub_of_le _ _ hle]
    have hle' := UInt64.le_iff_toNat_le.1 hle
    omega

lemma lt_optTimes (hlt : maxTimes < minTimes) (hmin : ¬ 2000 < minTimes) : 2001 < (optTimes minTimes maxTimes).toNat := by
  have hmin' : minTimes.toNat ≤ 2000 := UInt64.le_iff_toNat_le.1 (UInt64.not_lt.1 hmin)
  have hlt' := UInt64.lt_iff_toNat_lt.1 hlt
  have hnone : maxTimes ≠ 18446744073709551615 := by
    rintro rfl
    have : (18446744073709551615 : UInt64).toNat = 18446744073709551615 := rfl
    omega
  have hopt : optTimes minTimes maxTimes = maxTimes - minTimes := by
    rw [optTimes, beq_eq_false_iff_ne.2 hnone]
    rfl
  rw [hopt, UInt64.toNat_sub]
  omega

lemma operatorBounded_iff : OperatorBounded tokenize ruleName isNested st ↔ OperatorOrdered isNested st := by
  refine forall₄_congr fun src minTimes maxTimes rest => forall₂_congr fun hsrc hb => ?_
  have hlen : (addedRules ruleName minTimes maxTimes st).length = (optTimes minTimes maxTimes).toNat :=
    length_recAdded _ _ _ _
  rw [copies, hlen]
  by_cases hrefused : Refused minTimes maxTimes st
  · exact ⟨fun _ => .inr hrefused, fun _ => .inl fun alternates fuel => (seqStep_eq_none hsrc hb).2 hrefused⟩
  · have hmin : ¬ 2000 < minTimes := fun h => hrefused (.inl h)
    have hmax : ¬ (maxTimes ≠ 18446744073709551615 ∧ 2000 < maxTimes) := fun h => hrefused (.inr (.inl h))
    rw [or_iff_left hrefused]
    constructor
    · rintro (hfails | ⟨hadded, -⟩)
      · exact (hrefused ((seqStep_eq_none hsrc hb).1 (hfails (fun _ _ _ _ _ => none) 0))).elim
      · by_contra hnot
        exact absurd (lt_optTimes (UInt64.not_le.1 hnot) hmin) (Nat.not_lt.2 hadded)
    · exact fun hle => .inr (optTimes_le hle hmin hmax)

end Operators

/-- On every source the parser ends, and every operator `{m,n}` that it comes to fails or is bounded, exactly if the
bounds of each are in order or refused by the checks. -/
theorem parse_bounded_iff (tokenize : List UInt8 → Option UInt32) (source : List UInt8) :
    ((∃ r, ∀ fuel, source.length ≤ fuel → parse tokenize fuel source = r) ∧
      ∀ ruleName isNested st, AtRound tokenize source ruleName isNested st → OperatorBounded tokenize ruleName isNested st) ↔
    ∀ ruleName isNested st, AtRound tokenize source ruleName isNested st → OperatorOrdered isNested st := by
  rw [and_iff_right ⟨_, fun fuel hfuel => parse_fuel hfuel⟩]
  exact forall₄_congr fun ruleName isNested st _ => operatorBounded_iff

/-- In `root ::= "a"{2,1}` the operator passes the checks, and adds as many rules as 64 bits can count. -/
theorem parse_unbounded : ∃ source ruleName isNested st,
    source = [114, 111, 111, 116, 32, 58, 58, 61, 32, 34, 97, 34, 123, 50, 44, 49, 125] ∧
      AtRound (fun _ => none) source ruleName isNested st ∧ st.src = [123, 50, 44, 49, 125] ∧
      (addedRules ruleName 2 1 st).length = 18446744073709551615 ∧
      ¬ OperatorBounded (fun _ => none) ruleName isNested st := by
  refine ⟨_, [114, 111, 111, 116], false, { src := [123, 50, 44, 49, 125], rule := [⟨.char, 97⟩], lastSymStart := 0
                                            nPrevRules := 1, parser := { symbolIds := [([114, 111, 111, 116], 0)] } },
    rfl, ?_, rfl, length_recAdded _ _ _ _, fun hb => ?_⟩
  · have hrule : AtRound (fun _ => none) [114, 111, 111, 116, 32, 58, 58, 61, 32, 34, 97, 34, 123, 50, 44, 49, 125]
        [114, 111, 111, 116] false { src := [34, 97, 34, 123, 50, 44, 49, 125], rule := [], lastSymStart := 0
                                     nPrevRules := 1, parser := { symbolIds := [([114, 111, 111, 116], 0)] } } :=
      @AtRound.rule _ _ _ _ ([114, 111, 111, 116], [32, 58, 58, 61, 32, 34, 97, 34, 123, 50, 44, 49, 125]) .start rfl rfl
    exact @AtRound.round _ _ _ _ _ _ 0 9 hrule rfl
  · obtain hle | hrefused := operatorBounded_iff.1 hb [50, 44, 49, 125] 2 1 [] rfl (by rfl)
    · exact absurd hle (by decide)
    · exact absurd hrefused (by unfold Refused; decide)

end Mallana.GrParser
