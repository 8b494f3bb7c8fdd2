import Mallana.Schema.DigitWords

/-!
# Ranges of integers

Model of `build_min_max_int` (`src/common/json-schema-to-grammar.cpp`), which writes a rule for the integers between two
bounds: a range is cut by the number of digits, and `uniform_range` cuts a range of numerals of the same length by the
first digit that differs. `reads_uniformRange` and `reads_digitRanges` say what these texts denote.
-/

namespace Mallana.Schema

open Tokenizer Grammar List

/-- `std::to_string`. -/
def toStr (z : Int) : Str := (if z < 0 then [45] else []) ++ decimal z.natAbs

/-- `std::stoll`, of digits. -/
def stoll (s : Str) : Int64 := Int64.ofNat (s.foldl (fun n c => n * 10 + (c.toNat - 48)) 0)

/-- `digit_range`. -/
def digitRange (a b : UInt8) : Str := 91 :: (if a = b then [a] else [a, 45, b]) ++ [93]

/-- `more_digits`. -/
def moreDigits (minDigits maxDigits : Nat) : Str :=
  [91, 48, 45, 57, 93] ++ if minDigits = maxDigits ∧ minDigits = 1 then []
    else
      123 :: decimal minDigits ++ (if maxDigits ≠ minDigits then
          44 :: if maxDigits ≠ 2147483647 then decimal maxDigits else []
        else []) ++ [125]

def samePrefix : Str → Str → Nat
  | a :: s, b :: t => if a = b then samePrefix s t + 1 else 0
  | _, _ => 0

/-- `uniform_range`; each call is for less of the strings. -/
def uniformRange : Nat → Str → Str → Str
  | 0, _, _ => []
  | fuel + 1, lo, hi =>
    let i := samePrefix lo hi
    (if 0 < i then 34 :: lo.take i ++ [34] else []) ++ match lo.drop i, hi.drop i with
      | a :: loSub, b :: hiSub =>
        (if 0 < i then [32] else []) ++ let subLen := loSub.length
          let subZeros := List.replicate subLen 48
          let subNines := List.replicate subLen 57
          if 0 < subLen then
            -- `to_reached` is only set in the second branch
            let toReached := loSub ≠ subZeros ∧ a.toNat + 1 < b.toNat ∧ hiSub = subNines
            40 :: (if loSub = subZeros then digitRange a (b - 1) ++ 32 :: moreDigits subLen subLen
              else
                91 :: a :: [93, 32] ++ (40 :: uniformRange fuel loSub subNines ++ [41]) ++
                  if a.toNat + 1 < b.toNat then
                    [32, 124, 32] ++ ((if hiSub = subNines then digitRange (a + 1) b else digitRange (a + 1) (b - 1)) ++
                      32 :: moreDigits subLen subLen)
                  else []) ++
              (if toReached then [] else [32, 124, 32] ++ (digitRange b b ++ 32 :: uniformRange fuel subZeros hiSub)) ++
              [41]
          else [91, a, 45, b, 93]
      | _, _ => []

lemma samePrefix_self (s : Str) : samePrefix s s = s.length := by
  induction s with
  | nil => rfl
  | cons c s ih => rw [samePrefix, if_pos rfl, ih, length_cons]

lemma uniformRange_self {s : Str} (fuel : Nat) (hs : s ≠ []) : uniformRange (fuel + 1) s s = 34 :: s ++ [34] := by
  rw [uniformRange, samePrefix_self, if_pos (length_pos_of_ne_nil hs), take_length, drop_length]
  exact append_nil _

/-- The ranges for each number of digits, up to that of the upper bound. -/
def rangeLoop : Nat → Nat → Str → Str → Str
  | 0, _, minS, maxS => uniformRange maxS.length minS maxS
  | n + 1, digits, minS, maxS =>
    uniformRange digits minS (List.replicate digits 57) ++
      [32, 124, 32] ++ rangeLoop n (digits + 1) (49 :: List.replicate digits 48) maxS

def digitRanges (minValue maxValue : Int64) : Str :=
  let minS := toStr minValue.toInt
  let maxS := toStr maxValue.toInt
  rangeLoop (maxS.length - minS.length) minS.length minS maxS

/-- `build_min_max_int`; each call is for fewer digits or has one bound less or one sign less. A bound that is the least
or the greatest number is none, and it throws when there is none. -/
def buildMinMaxInt : Nat → Int64 → Int64 → Nat → Bool → Option Str
  | 0, _, _, _, _ => none
  | fuel + 1, minValue, maxValue, decimalsLeft, topLevel =>
    if minValue ≠ Int64.minValue ∧ maxValue ≠ Int64.maxValue then
      if minValue < 0 ∧ maxValue < 0 then
        (buildMinMaxInt fuel (-maxValue) (-minValue) decimalsLeft true).map fun out =>
          [34, 45, 34, 32] ++ (40 :: out ++ [41])
      else if minValue < 0 then
        (buildMinMaxInt fuel 0 (-minValue) decimalsLeft true).map fun out =>
          [34, 45, 34, 32] ++ (40 :: out ++ [41]) ++ [32, 124, 32] ++ digitRanges 0 maxValue
      else some (digitRanges minValue maxValue)
    else
      let lessDecimals := max (decimalsLeft - 1) 1
      if minValue ≠ Int64.minValue then
        if minValue < 0 then
          (buildMinMaxInt fuel Int64.minValue (-minValue) decimalsLeft false).map fun out =>
            [34, 45, 34, 32] ++ (40 :: out ++ [41]) ++ [32, 124, 32, 91, 48, 93, 32, 124, 32, 91, 49, 45, 57, 93, 32] ++
              moreDigits 0 (decimalsLeft - 1)
        else if minValue = 0 then
          some (if topLevel then [91, 48, 93, 32, 124, 32, 91, 49, 45, 57, 93, 32] ++ moreDigits 0 lessDecimals
            else moreDigits 1 decimalsLeft)
        else if minValue ≤ 9 then
          let c := dig minValue.toInt.toNat
          let rangeStart := if topLevel then 49 else 48
          some ((if rangeStart < c then
              digitRange rangeStart (c - 1) ++ 32 :: moreDigits 1 lessDecimals ++ [32, 124, 32]
            else []) ++ (digitRange c 57 ++ 32 :: moreDigits 0 lessDecimals))
        else
          match toStr minValue.toInt with
          | [] => none
          | c :: minSub =>
            let len := minSub.length + 1
            (buildMinMaxInt fuel (stoll minSub) Int64.maxValue lessDecimals false).map fun out =>
              (if 49 < c then
                digitRange (if topLevel then 49 else 48) (c - 1) ++ 32 :: moreDigits len lessDecimals ++ [32, 124, 32]
              else []) ++ (digitRange c c ++ 32 :: (40 :: out ++ [41])) ++ if c < 57 then
                  [32, 124, 32] ++ (digitRange (c + 1) 57 ++ 32 :: moreDigits (len - 1) lessDecimals)
                else []
      else if maxValue ≠ Int64.maxValue then
        if 0 ≤ maxValue then
          (buildMinMaxInt fuel 0 maxValue decimalsLeft true).map fun out =>
            (if topLevel then [34, 45, 34, 32, 91, 49, 45, 57, 93, 32] ++ moreDigits 0 lessDecimals ++ [32, 124, 32]
              else []) ++ out
        else
          (buildMinMaxInt fuel (-maxValue) Int64.maxValue decimalsLeft false).map fun out =>
            [34, 45, 34, 32] ++ (40 :: out ++ [41])
      else none

section Texts
variable {ok : Nat → Nat → Option Nat → Prop} {env : Str → Language UInt32 → Prop} {a b m n k : Nat}
  {as bs ds : List Nat} {t : Str} {L : Language UInt32}

lemma dig_inj (ha : a < 10) (hb : b < 10) (h : dig a = dig b) : a = b := by
  have := congrArg UInt8.toNat h
  rw [toNat_dig ha, toNat_dig hb] at this
  omega

lemma dig_sub_one (hb : b < 10) (h : 1 ≤ b) : dig b - 1 = dig (b - 1) := by
  obtain ⟨b, rfl⟩ := Nat.exists_eq_add_of_le' h
  exact (by decide : ∀ b < 9, dig (b + 1) - 1 = dig b) b (by omega)

lemma dig_add_one (a : Nat) : dig a + 1 = dig (a + 1) := (UInt8.ofNat_add _ _).symm

lemma map_dig_inj (has : Digits as) (hbs : Digits bs) (h : as.map dig = bs.map dig) : as = bs := by
  apply map_cpt_inj has hbs
  have := congrArg (List.map UInt8.toUInt32) h
  rwa [map_map, map_map] at this

lemma reads_class {i : CharItem} (h : PlainItem i) :
    Reads ok env .atom 0 (classText false [i]) (classWords false i []) :=
  .cls h fun _ hi => absurd hi not_mem_nil

lemma reads_digitRange (ha : a < 10) (hb : b < 10) :
    Reads ok env .item 0 (digitRange (dig a) (dig b)) (spell (digit a b)) := by
  by_cases h : a = b
  · subst h
    have hclass : PlainItem (.one (cpt a)) := plain_cpt a ha
    refine (reads_class hclass).atom.congr ?_ (classWords_one ha)
    rw [digitRange, if_pos rfl, classText, flatMap_singleton, itemText, toUInt8_cpt]
    rfl
  · have hclass : PlainItem (.range (cpt a) (cpt b)) := ⟨plain_cpt a ha, plain_cpt b hb⟩
    refine (reads_class hclass).atom.congr ?_ (classWords_range ha hb)
    rw [digitRange, if_neg fun heq => h (dig_inj ha hb heq), classText, flatMap_singleton, itemText, toUInt8_cpt,
      toUInt8_cpt]
    rfl

lemma reads_moreDigits (hn : n < 2147483647) (hok : ok 0 m (some n)) :
    Reads ok env .item (n - m) (moreDigits m n) (spell (sized m (some n))) := by
  have hplain : PlainItem (.range (cpt 0) (cpt 9)) := by decide
  have hclass : Reads ok env .atom 0 [91, 48, 45, 57, 93] (spell (digit 0 9)) :=
    (reads_class hplain).congr rfl (classWords_range (by decide) (by decide))
  have hrep : ∀ {op}, Operator m (some n) op →
      Reads ok env .item (n - m) ([91, 48, 45, 57, 93] ++ op) (spell (sized m (some n))) := by
    intro op hop
    have := hclass.rep hop hok
    rwa [powers_digits, generated, Option.elim_some, zero_add] at this
  rw [moreDigits]
  by_cases h : m = n ∧ m = 1
  · obtain ⟨rfl, rfl⟩ := h
    rw [if_pos ⟨rfl, rfl⟩, Nat.sub_self, ← digit_pow, pow_one]
    exact hclass.atom
  · rw [if_neg h]
    by_cases heq : n = m
    · subst heq
      rw [if_neg (not_not.2 rfl), append_nil]
      exact hrep (.exactly n)
    · rw [if_pos heq, if_pos (by omega)]
      exact (hrep (.between m n)).congr (by simp) rfl

lemma reads_heads (ha : a < 10) (hb : b < 10) (hn : n < 2147483647) (hok : ok 0 m (some n)) :
    Reads ok env .seq (n - m) (digitRange (dig a) (dig b) ++ 32 :: moreDigits m n)
      (spell (digit a b * sized m (some n))) := by
  rw [map_mul]
  have hmore : Reads ok env .item (n - m) (moreDigits m n) (spell (sized m (some n))) := reads_moreDigits hn hok
  have := (reads_digitRange ha hb).before hmore.single
  rwa [zero_add] at this

lemma Reads.paren (h : Reads ok env .alts k t L) : Reads ok env .item (k + 1) (40 :: t ++ [41]) L :=
  .atom (h.group blank_nil)

lemma formatLiteral_dig (h : Digits ds) : formatLiteral (ds.map dig) = 34 :: ds.map dig ++ [34] := by
  rw [formatLiteral, escaped_of_plain]
  intro c hc
  obtain ⟨d, hd, rfl⟩ := mem_map.1 hc
  exact (by decide : ∀ d < 10, isLiteralEscape (dig d) = false) d (h d hd)

lemma cptsToUtf8_cpt (h : Digits ds) : cptsToUtf8 (ds.map cpt) = some (ds.map dig) := by
  induction ds with
  | nil => rfl
  | cons d ds ih =>
    obtain ⟨hd, hds⟩ := digits_cons.1 h
    exact cptsToUtf8_cons_some ((by decide : ∀ d < 10, cptToUtf8 (cpt d) = some [dig d]) d hd) (ih hds)

lemma reads_digits (h : Digits ds) : Reads ok env .item 0 (34 :: ds.map dig ++ [34]) (spell {ds}) := by
  rw [spell_singleton, ← formatLiteral_dig h]
  exact .lit (cptsToUtf8_cpt h)

lemma samePrefix_append (p s t : Str) : samePrefix (p ++ s) (p ++ t) = p.length + samePrefix s t := by
  induction p with
  | nil => exact (zero_add _).symm
  | cons c p ih =>
    rw [cons_append, cons_append, samePrefix, if_pos rfl, ih, length_cons]
    omega

lemma first_difference (as bs : List Nat) (hlen : as.length = bs.length) :
    as = bs ∨ ∃ p a b as' bs', as = p ++ a :: as' ∧ bs = p ++ b :: bs' ∧ a ≠ b ∧ as'.length = bs'.length := by
  induction as generalizing bs with
  | nil => exact .inl (length_eq_zero_iff.1 hlen.symm).symm
  | cons a as ih =>
    cases bs with
    | nil => cases hlen
    | cons b bs =>
      have htail : as.length = bs.length := Nat.succ.inj hlen
      by_cases h : a = b
      · subst h
        rcases ih bs htail with rfl | ⟨p, a', b', as', bs', rfl, rfl, hne, hlen'⟩
        · exact .inl rfl
        · exact .inr ⟨a :: p, a', b', as', bs', rfl, rfl, hne, hlen'⟩
      · exact .inr ⟨[], a, b, as, bs, rfl, rfl, h, htail⟩

/-! `uniform_range` of strings that share a prefix, and of strings that differ at once. -/

lemma uniformRange_append {p s t : Str} {a b : UInt8} (fuel : Nat) (hp : p ≠ []) (hab : a ≠ b) :
    uniformRange (fuel + 1) (p ++ a :: s) (p ++ b :: t) =
      34 :: p ++ [34] ++ 32 :: uniformRange (fuel + 1) (a :: s) (b :: t) := by
  have hsame : samePrefix (a :: s) (b :: t) = 0 := if_neg hab
  have hpos : 0 < p.length := length_pos_of_ne_nil hp
  rw [uniformRange, uniformRange, samePrefix_append, hsame, add_zero, take_left, drop_left,
    drop_left, if_pos hpos]
  simp only [if_pos hpos, lt_irrefl, if_false, drop_zero, nil_append, singleton_append]

lemma uniformRange_one {a b : UInt8} (fuel : Nat) (hab : a ≠ b) :
    uniformRange (fuel + 1) [a] [b] = digitRange a b := by
  have hsame : samePrefix [a] [b] = 0 := if_neg hab
  rw [uniformRange, hsame, digitRange, if_neg hab]
  rfl

lemma uniformRange_zeros {s t : Str} {a b : UInt8} (fuel : Nat) (hab : a ≠ b) (hs : s ≠ [])
    (hzeros : s = List.replicate s.length 48) : uniformRange (fuel + 1) (a :: s) (b :: t) =
      40 :: ((digitRange a (b - 1) ++ 32 :: moreDigits s.length s.length) ++ 32 :: 124 :: 32 ::
        (digitRange b b ++ 32 :: uniformRange fuel s t)) ++ [41] := by
  have hsame : samePrefix (a :: s) (b :: t) = 0 := if_neg hab
  have hpos : 0 < s.length := length_pos_of_ne_nil hs
  rw [uniformRange, hsame]
  simp only [lt_irrefl, if_false, drop_zero, nil_append]
  rw [if_pos hpos, if_pos hzeros, if_neg fun h => h.1 hzeros, ← hzeros]
  simp

lemma uniformRange_nines {s t : Str} {a b : UInt8} (fuel : Nat) (hab : a.toNat + 1 < b.toNat) (hs : s ≠ [])
    (hzeros : s ≠ List.replicate s.length 48) (hnines : t = List.replicate s.length 57) :
    uniformRange (fuel + 1) (a :: s) (b :: t) =
      40 :: ((digitRange a a ++ 32 :: (40 :: uniformRange fuel s t ++ [41])) ++ 32 :: 124 :: 32 ::
        (digitRange (a + 1) b ++ 32 :: moreDigits s.length s.length)) ++ [41] := by
  have hne : a ≠ b := fun h => by
    subst h
    omega
  have hsame : samePrefix (a :: s) (b :: t) = 0 := if_neg hne
  have hpos : 0 < s.length := length_pos_of_ne_nil hs
  rw [uniformRange, hsame]
  simp only [lt_irrefl, if_false, drop_zero, nil_append]
  rw [if_pos hpos, if_neg hzeros, if_pos hab, if_pos hnines, if_pos ⟨hzeros, hab, hnines⟩, ← hnines]
  simp [digitRange]

lemma uniformRange_heads {s t : Str} {a b : UInt8} (fuel : Nat) (hab : a.toNat + 1 < b.toNat) (hs : s ≠ [])
    (hzeros : s ≠ List.replicate s.length 48) (hnines : t ≠ List.replicate s.length 57) :
    uniformRange (fuel + 1) (a :: s) (b :: t) =
      40 :: ((digitRange a a ++ 32 :: (40 :: uniformRange fuel s (List.replicate s.length 57) ++ [41])) ++
        32 :: 124 :: 32 :: ((digitRange (a + 1) (b - 1) ++ 32 :: moreDigits s.length s.length) ++ 32 :: 124 :: 32 ::
          (digitRange b b ++ 32 :: uniformRange fuel (List.replicate s.length 48) t))) ++ [41] := by
  have hne : a ≠ b := fun h => by
    subst h
    omega
  have hsame : samePrefix (a :: s) (b :: t) = 0 := if_neg hne
  have hpos : 0 < s.length := length_pos_of_ne_nil hs
  rw [uniformRange, hsame]
  simp only [lt_irrefl, if_false, drop_zero, nil_append]
  rw [if_pos hpos, if_neg hzeros, if_pos hab, if_neg hnines, if_neg fun h => hnines h.2.2]
  simp [digitRange]

lemma uniformRange_next {s t : Str} {a b : UInt8} (fuel : Nat) (hne : a ≠ b) (hab : ¬ a.toNat + 1 < b.toNat)
    (hs : s ≠ []) (hzeros : s ≠ List.replicate s.length 48) : uniformRange (fuel + 1) (a :: s) (b :: t) =
      40 :: ((digitRange a a ++ 32 :: (40 :: uniformRange fuel s (List.replicate s.length 57) ++ [41])) ++
        32 :: 124 :: 32 :: (digitRange b b ++ 32 :: uniformRange fuel (List.replicate s.length 48) t)) ++ [41] := by
  have hsame : samePrefix (a :: s) (b :: t) = 0 := if_neg hne
  have hpos : 0 < s.length := length_pos_of_ne_nil hs
  rw [uniformRange, hsame]
  simp only [lt_irrefl, if_false, drop_zero, nil_append]
  rw [if_pos hpos, if_neg hzeros, if_neg hab, if_neg fun h => hab h.2.1]
  simp [digitRange]

lemma uniformRange_ne_nil {s t : Str} {fuel : Nat} (hs : s ≠ []) (hfuel : 0 < fuel) (hlen : t.length = s.length) :
    uniformRange fuel s t ≠ [] := by
  obtain ⟨fuel, rfl⟩ := Nat.exists_eq_add_of_le' hfuel
  rw [uniformRange]
  rcases eq_zero_or_pos (samePrefix s t) with h | h
  · cases s with
    | nil => exact absurd rfl hs
    | cons a s =>
      cases t with
      | nil => cases hlen
      | cons b t =>
        rw [h]
        simp only [lt_irrefl, if_false, drop_zero, nil_append]
        split
        · exact cons_ne_nil _ _
        · exact cons_ne_nil _ _
  · rw [if_pos h]
    exact cons_ne_nil _ _

lemma within_exactly (h : n < 2000) : Within 0 n (some n) := by
  refine ⟨fun i hi => (Option.some.inj hi).le, ?_⟩
  rw [Option.getD_some, Nat.max_eq_left (Nat.zero_le 1), Nat.one_mul]
  omega

/-- What `uniform_range` writes denotes the lists between two; it has less than two groups for each part of a list. -/
def UniformReads (env : Str → Language UInt32 → Prop) (fuel : Nat) (as bs : List Nat) : Prop :=
  ∃ k, k + 2 ≤ 2 ^ (as.length + 1) ∧
    Reads Within env .seq k (uniformRange fuel (as.map dig) (bs.map dig)) (spell (between as bs))

/-- Two lists that `uniform_range` is called with. -/
structure Bounds (as bs : List Nat) : Prop where
  lower : Digits as
  upper : Digits bs
  length : as.length = bs.length
  le : value as ≤ value bs
  nonempty : as ≠ []
  small : as.length < 1000

lemma bounds_nines (has : Digits as) (hne : as ≠ []) (hsmall : as.length < 1000) : Bounds as (nines as.length) where
  lower := has
  upper := digits_nines
  length := length_nines.symm
  le := by
    rw [value_nines]
    exact value_le_nines has
  nonempty := hne
  small := hsmall

lemma zeros_bounds (hbs : Digits bs) (hne : bs ≠ []) (hsmall : bs.length < 1000) : Bounds (zeros bs.length) bs where
  lower := digits_zeros
  upper := hbs
  length := length_zeros
  le := by
    rw [value_zeros]
    exact Nat.zero_le _
  nonempty := fun h => hne (length_eq_zero_iff.1 (length_zeros.symm.trans (congrArg List.length h)))
  small := by rwa [length_zeros]

lemma map_zeros : (zeros n).map dig = List.replicate n 48 := map_replicate

lemma map_nines : (nines n).map dig = List.replicate n 57 := map_replicate

lemma map_dig_eq_zeros (has : Digits as) :
    as.map dig = List.replicate (as.map dig).length 48 ↔ as = zeros as.length := by
  rw [length_map, ← map_zeros]
  exact ⟨map_dig_inj has digits_zeros, fun h => congrArg _ h⟩

lemma map_dig_eq_nines (has : Digits as) : as.map dig = List.replicate n 57 ↔ as = nines n := by
  rw [← map_nines]
  exact ⟨map_dig_inj has digits_nines, fun h => congrArg _ h⟩

lemma reads_differ {fuel : Nat} (ih : ∀ as bs, Bounds as bs → as.length ≤ fuel → UniformReads env fuel as bs)
    (hab : a < b) (hb : b < 10) (has : Digits as) (hbs : Digits bs) (hlen : as.length = bs.length)
    (hfuel : as.length ≤ fuel) (hsmall : as.length < 1000) : UniformReads env (fuel + 1) (a :: as) (b :: bs) := by
  have ha : a < 10 := hab.trans hb
  have hne : dig a ≠ dig b := fun h => hab.ne (dig_inj ha hb h)
  have hgap : (dig a).toNat + 1 < (dig b).toNat ↔ a + 1 < b := by
    rw [toNat_dig ha, toNat_dig hb]
    omega
  rw [UniformReads, map_cons, map_cons]
  cases as with
  | nil =>
    obtain rfl := length_eq_zero_iff.1 hlen.symm
    refine ⟨0, by rw [length_singleton]; decide, ?_⟩
    rw [between_one hb, map_nil, uniformRange_one fuel hne]
    exact (reads_digitRange ha hb).single
  | cons d ds =>
    obtain ⟨as, has'⟩ : ∃ as, as = d :: ds := ⟨_, rfl⟩
    rw [← has'] at has hlen hfuel hsmall ⊢
    have hnil : as ≠ [] := has' ▸ cons_ne_nil d ds
    have hnil' : bs ≠ [] := fun h => hnil (length_eq_zero_iff.1 (hlen.trans (congrArg List.length h)))
    have hmap : as.map dig ≠ [] := fun h => hnil (map_eq_nil_iff.1 h)
    have hmore : ∀ {a b}, a < 10 → b < 10 → Reads Within env .seq 0
        (digitRange (dig a) (dig b) ++ 32 :: moreDigits as.length as.length)
        (spell (digit a b * sized as.length (some as.length))) := by
      intro a b ha hb
      have hheads := @reads_heads Within env _ _ as.length as.length ha hb (by omega) (within_exactly (by omega))
      rwa [Nat.sub_self] at hheads
    obtain ⟨j, hj, hlow⟩ := ih _ _ (bounds_nines has hnil hsmall) hfuel
    obtain ⟨k, hk, hhigh⟩ := ih _ _ (zeros_bounds hbs hnil' (hlen ▸ hsmall)) (length_zeros.trans hlen.symm ▸ hfuel)
    have hlengths : (as.map dig).length = as.length := length_map _
    have hne' : ∀ {t : Str} {a b : Nat}, digitRange (dig a) (dig b) ++ 32 :: t ≠ [] := fun h => by cases h
    have hdigit : ∀ {c}, c < 10 → Reads Within env .item 0 (digitRange (dig c) (dig c)) (spell (digit c c)) :=
      fun hc => reads_digitRange hc hc
    have hfirst := (hdigit ha).before hlow.one.paren.single
    have hlast := (hdigit hb).before hhigh
    rw [map_nines] at hlow hfirst
    rw [length_zeros, ← hlen] at hk
    rw [← map_mul, map_zeros, ← hlen] at hlast
    rw [← map_mul] at hfirst
    by_cases hzeros : as.map dig = List.replicate (as.map dig).length 48
    · -- the lists from the lower bound on begin with digits below the last head
      have has : as = zeros bs.length := hlen ▸ (map_dig_eq_zeros has).1 hzeros
      have htext := (hmore ha (show b - 1 < 10 by omega)).or hlast.one hne'
      refine ⟨_, ?_, htext.paren.single.congr ?_ ?_⟩
      · rw [length_cons, pow_succ]
        omega
      · rw [uniformRange_zeros fuel hne hmap hzeros, dig_sub_one hb (by omega), hlengths, ← hlengths, ← hzeros]
      · rw [← map_add, has, length_zeros, between_cons_zeros hab hb hbs]
    · by_cases hlt : a + 1 < b
      · have hdig : dig (a + 1) = dig a + 1 := (dig_add_one a).symm
        by_cases hnines : bs.map dig = List.replicate (as.map dig).length 57
        · have hbs : bs = nines as.length := by
            rw [hlengths] at hnines
            exact (map_dig_eq_nines hbs).1 hnines
          have htext := hfirst.or (hmore (show a + 1 < 10 by omega) hb).one hne'
          refine ⟨_, ?_, htext.paren.single.congr ?_ ?_⟩
          · rw [length_cons, pow_succ]
            omega
          · rw [uniformRange_nines fuel (hgap.2 hlt) hmap hzeros hnines, ← hdig, hnines, hlengths]
          · rw [← map_add, hbs, between_cons_nines hab hb has]
        · have htext := hfirst.or ((hmore (show a + 1 < 10 by omega) (show b - 1 < 10 by omega)).or hlast.one hne') hne'
          refine ⟨_, ?_, htext.paren.single.congr ?_ ?_⟩
          · rw [length_cons, pow_succ]
            omega
          · rw [uniformRange_heads fuel (hgap.2 hlt) hmap hzeros hnines, ← hdig, dig_sub_one hb (by omega), hlengths]
          · rw [← map_add, ← map_add, between_cons hab hb has hbs hlen, hlen]
      · obtain rfl : b = a + 1 := by omega
        have htext := hfirst.or hlast.one hne'
        refine ⟨_, ?_, htext.paren.single.congr ?_ ?_⟩
        · rw [length_cons, pow_succ]
          omega
        · rw [uniformRange_next fuel hne (fun h => hlt (hgap.1 h)) hmap hzeros, hlengths]
        · rw [← map_add, between_cons_next hb has hbs hlen, hlen]

theorem reads_uniformRange (env : Str → Language UInt32 → Prop) (fuel : Nat) (as bs : List Nat) (h : Bounds as bs)
    (hfuel : as.length ≤ fuel) : UniformReads env fuel as bs := by
  induction fuel generalizing as bs with
  | zero => exact absurd (length_pos_of_ne_nil h.nonempty) (Nat.not_lt_of_le hfuel)
  | succ fuel ih =>
    rcases first_difference as bs h.length with rfl | ⟨p, a, b, as, bs, rfl, rfl, hne, hlen⟩
    · refine ⟨0, ?_, ?_⟩
      · have := Nat.pow_le_pow_right (show 0 < 2 by decide) (Nat.le_add_left 1 as.length)
        omega
      · rw [between_self h.lower, uniformRange_self fuel fun hnil => h.nonempty (map_eq_nil_iff.1 hnil)]
        exact (reads_digits h.lower).single
    · obtain ⟨hp, hlower⟩ := digits_append.1 h.lower
      obtain ⟨ha, has⟩ := digits_cons.1 hlower
      obtain ⟨hb, hbs⟩ := digits_cons.1 (digits_append.1 h.upper).2
      have hle := h.le
      have hsmall := h.small
      rw [value_append, value_append, length_cons, length_cons, hlen, Nat.add_le_add_iff_left,
        value_cons_le has hbs hlen] at hle
      rw [length_append, length_cons] at hsmall hfuel
      have hab : a < b := hle.resolve_right fun h => hne h.1
      obtain ⟨k, hk, hreads⟩ := reads_differ ih hab hb has hbs hlen (by omega) (by omega)
      cases p with
      | nil => exact ⟨k, hk, hreads⟩
      | cons d p =>
        have hne' : (d :: p).map dig ≠ [] := fun h => by cases h
        have hdig : dig a ≠ dig b := fun h => hne (dig_inj ha hb h)
        have hprefix : Reads Within env .item 0 (34 :: (d :: p).map dig ++ [34]) (spell {d :: p}) := reads_digits hp
        have htext := hprefix.before hreads
        refine ⟨0 + k, ?_, htext.congr ?_ ?_⟩
        · have := Nat.pow_le_pow_right (show 0 < 2 by decide)
            (show as.length + 1 + 1 ≤ (d :: p ++ a :: as).length + 1 by
              rw [length_append, length_cons, length_cons]
              omega)
          rw [length_cons] at hk
          omega
        · rw [map_append, map_append]
          exact (uniformRange_append fuel hne' hdig).symm
        · rw [← map_mul, between_append hp (digits_cons.2 ⟨ha, has⟩) (digits_cons.2 ⟨hb, hbs⟩) (congrArg Nat.succ hlen)]

/-- The loop over the numbers of digits. -/
theorem reads_rangeLoop (env : Str → Language UInt32 → Prop) {lo hi : Nat} (n : Nat) (hle : lo ≤ hi)
    (hlen : (digs hi).length = (digs lo).length + n) (hsmall : (digs hi).length < 1000) :
    ∃ k, k ≤ (n + 1) * 2 ^ ((digs hi).length + 1) ∧ Reads Within env .alts k
      (rangeLoop n (digs lo).length (decimal lo) (decimal hi)) (spell (numerals lo hi)) := by
  induction n generalizing lo with
  | zero =>
    rw [add_zero] at hlen
    have hbounds : Bounds (digs lo) (digs hi) := by
      refine ⟨digits_digs lo, digits_digs hi, hlen.symm, ?_, digs_ne_nil lo, hlen.ge.trans_lt hsmall⟩
      rwa [value_digs, value_digs]
    obtain ⟨k, hk, hreads⟩ := reads_uniformRange env _ _ _ hbounds hlen.ge
    refine ⟨k, ?_, ?_⟩
    · rw [hlen]
      omega
    · rw [rangeLoop, decimal_eq, decimal_eq, length_map, numerals_eq hlen.symm]
      exact hreads.one
  | succ n ih =>
    obtain ⟨l, hl⟩ : ∃ l, l = (digs lo).length := ⟨_, rfl⟩
    have hl1 : 1 ≤ l := hl ▸ one_le_length_digs lo
    have hlo : lo < 10 ^ l := hl ▸ lt_pow_length lo
    have hlenpow : (digs (10 ^ l)).length = l + 1 := by
      rw [digs_pow, length_cons, length_zeros]
    have hpow : 10 ^ l ≤ hi := by
      by_contra hlt
      have := length_digs_le (Nat.lt_of_not_le hlt) hl1
      omega
    have hnines : digs (10 ^ l - 1) = nines l := digs_pow_sub_one hl1
    obtain ⟨j, hj, hfirst⟩ := reads_uniformRange env l _ _
      (bounds_nines (digits_digs lo) (digs_ne_nil lo) (by omega)) hl.ge
    rw [← hl, map_nines, ← hnines, ← numerals_eq (by rw [hnines, length_nines, hl])] at hfirst
    obtain ⟨k, hk, hrest⟩ := ih hpow (by omega)
    refine ⟨j + k, ?_, (hfirst.or hrest ?_).congr ?_ ?_⟩
    · have := Nat.pow_le_pow_right (show 0 < 2 by decide) (show (digs lo).length + 1 ≤ (digs hi).length + 1 by omega)
      rw [Nat.succ_mul]
      omega
    · rw [hl]
      exact uniformRange_ne_nil (fun h => digs_ne_nil lo (map_eq_nil_iff.1 h)) (by omega)
        (by rw [length_replicate, length_map])
    · have hone : decimal (10 ^ l) = 49 :: List.replicate l 48 := by
        rw [decimal_eq, digs_pow, map_cons, map_zeros]
        rfl
      rw [rangeLoop, ← hl, hlenpow, hone, decimal_eq lo]
      simp
    · rw [← map_add, numerals_add hlo.le hpow]

end Texts

end Mallana.Schema
