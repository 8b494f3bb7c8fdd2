import Mallana.Schema.MinMaxInt

/-!
# What a rule for integers accepts

With both bounds the rule accepts the numerals of the numbers between them (`buildMinMaxInt_range`), unless the lower
bound is the least number but one: its negation is the greatest number, which stands for no bound. The words of a rule
with one bound are an inductive predicate, `AtLeast`.
-/

namespace Mallana.Schema

open Tokenizer Grammar List

def numeral (z : Int) : List UInt32 := (toStr z).map UInt8.toUInt32

/-- The numerals of the integers between two, and that of minus zero with the negative ones. -/
def intRange (lo hi : Int) : Language UInt32 :=
  {w | (∃ z, lo ≤ z ∧ z ≤ hi ∧ w = numeral z) ∨ lo < 0 ∧ 0 ≤ hi ∧ w = [45, 48]}

section Numerals
variable {lo hi m n : Nat} {w : List UInt32} {z : Int}

lemma map_decimal : (decimal n).map UInt8.toUInt32 = (digs n).map cpt := by
  rw [decimal_eq, map_map]
  rfl

lemma numeral_natCast : numeral n = (digs n).map cpt := by
  rw [numeral, toStr, if_neg (Int.not_lt_of_ge (Int.natCast_nonneg n)), Int.natAbs_natCast, nil_append,
    map_decimal]

lemma numeral_neg (hn : 1 ≤ n) : numeral (-n) = 45 :: (digs n).map cpt := by
  have hlt : -(n : Int) < 0 := by omega
  rw [numeral, toStr, if_pos hlt, Int.natAbs_neg, Int.natAbs_natCast, map_append, map_decimal]
  rfl

lemma head_digs (n : Nat) : ((digs n).map cpt).head? ≠ some 45 := by
  intro h
  rw [head?_map, Option.map_eq_some_iff] at h
  obtain ⟨d, hd, heq⟩ := h
  exact (by decide : ∀ d < 10, cpt d ≠ 45) d (digits_digs n d (mem_of_mem_head? hd)) heq

lemma map_digs_inj (h : (digs m).map cpt = (digs n).map cpt) : m = n := by
  have := map_cpt_inj (digits_digs m) (digits_digs n) h
  rw [← value_digs m, this, value_digs]

lemma mem_numerals : w ∈ spell (numerals lo hi) ↔ ∃ n, lo ≤ n ∧ n ≤ hi ∧ w = (digs n).map cpt := by
  constructor
  · rintro ⟨_, ⟨n, hlo, hhi, rfl⟩, rfl⟩
    exact ⟨n, hlo, hhi, rfl⟩
  · rintro ⟨n, hlo, hhi, rfl⟩
    exact ⟨_, ⟨n, hlo, hhi, rfl⟩, rfl⟩

lemma mem_minus {L : Language UInt32} : w ∈ {[45]} * L ↔ ∃ v ∈ L, w = 45 :: v := by
  constructor
  · rintro ⟨_, rfl, v, hv, rfl⟩
    exact ⟨v, hv, rfl⟩
  · rintro ⟨v, hv, rfl⟩
    exact ⟨[45], rfl, v, hv, rfl⟩

lemma intRange_nonneg : spell (numerals lo hi) = intRange lo hi := by
  ext w
  rw [mem_numerals]
  constructor
  · rintro ⟨n, hlo, hhi, rfl⟩
    exact .inl ⟨n, by omega, by omega, numeral_natCast.symm⟩
  · rintro (⟨z, hlo, hhi, rfl⟩ | ⟨h, -⟩)
    · obtain ⟨n, rfl⟩ := Int.eq_ofNat_of_zero_le (show 0 ≤ z by omega)
      exact ⟨n, by omega, by omega, numeral_natCast⟩
    · omega

lemma intRange_neg (hhi : 1 ≤ hi) : {[45]} * spell (numerals hi lo) = intRange (-lo) (-hi) := by
  ext w
  rw [mem_minus]
  constructor
  · rintro ⟨v, hv, rfl⟩
    obtain ⟨n, hlo, hhi', rfl⟩ := mem_numerals.1 hv
    exact .inl ⟨-n, by omega, by omega, (numeral_neg (by omega)).symm⟩
  · rintro (⟨z, hlo, hhi', rfl⟩ | ⟨-, h, -⟩)
    · obtain ⟨n, hn⟩ := Int.eq_ofNat_of_zero_le (show 0 ≤ -z by omega)
      obtain rfl : z = -n := by omega
      exact ⟨_, mem_numerals.2 ⟨n, by omega, by omega, rfl⟩, numeral_neg (by omega)⟩
    · omega

lemma intRange_both (hlo : 1 ≤ lo) :
    {[45]} * spell (numerals 0 lo) + spell (numerals 0 hi) = intRange (-lo) hi := by
  ext w
  rw [Language.mem_add, mem_minus]
  constructor
  · rintro (⟨v, hv, rfl⟩ | hw)
    · obtain ⟨n, -, hn, rfl⟩ := mem_numerals.1 hv
      rcases eq_zero_or_pos n with rfl | hpos
      · exact .inr ⟨by omega, by omega, rfl⟩
      · exact .inl ⟨-n, by omega, by omega, (numeral_neg hpos).symm⟩
    · obtain ⟨n, -, hn, rfl⟩ := mem_numerals.1 hw
      exact .inl ⟨n, by omega, by omega, numeral_natCast.symm⟩
  · rintro (⟨z, hlo', hhi, rfl⟩ | ⟨-, -, rfl⟩)
    · rcases lt_or_ge z 0 with hneg | hpos
      · obtain ⟨n, hn⟩ := Int.eq_ofNat_of_zero_le (show 0 ≤ -z by omega)
        obtain rfl : z = -n := by omega
        exact .inl ⟨_, mem_numerals.2 ⟨n, Nat.zero_le n, by omega, rfl⟩, numeral_neg (by omega)⟩
      · obtain ⟨n, rfl⟩ := Int.eq_ofNat_of_zero_le hpos
        exact .inr (mem_numerals.2 ⟨n, Nat.zero_le n, by omega, numeral_natCast⟩)
    · exact .inl ⟨_, mem_numerals.2 ⟨0, Nat.le_refl 0, Nat.zero_le lo, rfl⟩, rfl⟩

lemma neg_mem_intRange {lo hi : Int} (h : 45 :: (digs n).map cpt ∈ intRange lo hi) : lo ≤ -n := by
  rcases h with ⟨z, hlo, hhi, heq⟩ | ⟨hlo, hhi, heq⟩
  · rcases lt_or_ge z 0 with hneg | hpos
    · obtain ⟨m, hm⟩ := Int.eq_ofNat_of_zero_le (show 0 ≤ -z by omega)
      obtain rfl : z = -m := by omega
      rw [numeral_neg (by omega)] at heq
      obtain rfl := map_digs_inj (cons_eq_cons.1 heq).2
      exact hlo
    · obtain ⟨m, rfl⟩ := Int.eq_ofNat_of_zero_le hpos
      rw [numeral_natCast] at heq
      exact absurd (heq ▸ rfl) (head_digs m)
  · obtain rfl : n = 0 := map_digs_inj (cons_eq_cons.1 heq).2
    omega

end Numerals

section Both
variable {ok : Nat → Nat → Option Nat → Prop} {env : Str → Language UInt32 → Prop} {x y : Int64} {k lo hi : Nat}
  {t : Str} {L : Language UInt32}

lemma toInt_neg_of_ne (h : x ≠ Int64.minValue) : (-x).toInt = -x.toInt := by
  have hne : x.toInt ≠ -9223372036854775808 := fun heq => h (Int64.toInt_inj.1 heq)
  have hle := x.le_toInt
  have hlt := x.toInt_lt
  rw [Int64.toInt_neg, Int.bmod_def]
  omega

lemma Reads.negated (h : Reads ok env .alts k t L) :
    Reads ok env .seq (k + 1) ([34, 45, 34, 32] ++ (40 :: t ++ [41])) ({[45]} * L) := by
  have hminus : Reads ok env .item 0 (formatLiteral [45]) {[45]} := .lit rfl
  have := hminus.before h.paren.single
  rwa [zero_add] at this

lemma reads_digitRanges (env : Str → Language UInt32 → Prop) (hx : x.toInt = lo) (hy : y.toInt = hi) (hle : lo ≤ hi) :
    ∃ k ≤ 33554432, Reads Within env .alts k (digitRanges x y) (spell (numerals lo hi)) := by
  have hlen : (digs hi).length ≤ 19 := length_digs_le (by have := y.toInt_lt; omega) (by decide)
  have hmono := length_digs_mono hle
  obtain ⟨k, hk, hreads⟩ := reads_rangeLoop env ((digs hi).length - (digs lo).length) hle (by omega) (by omega)
  have hstr : ∀ n : Nat, toStr n = decimal n := fun n => by
    rw [toStr, if_neg (Int.not_lt_of_ge (Int.natCast_nonneg n)), Int.natAbs_natCast, nil_append]
  have hlength : ∀ n, (decimal n).length = (digs n).length := fun n => by
    rw [decimal_eq, length_map]
  refine ⟨k, hk.trans ?_, hreads.congr ?_ rfl⟩
  · have hpow := Nat.pow_le_pow_right (show 0 < 2 by decide) (show (digs hi).length + 1 ≤ 20 by omega)
    have hone := one_le_length_digs lo
    have := Nat.mul_le_mul (show (digs hi).length - (digs lo).length + 1 ≤ 19 by omega) hpow
    omega
  · rw [digitRanges, hx, hy, hstr, hstr, hlength, hlength]

lemma buildMinMaxInt_nonneg {decimalsLeft fuel : Nat} {topLevel : Bool} (hx : 0 ≤ x.toInt) (hy : y ≠ Int64.maxValue) :
    buildMinMaxInt (fuel + 1) x y decimalsLeft topLevel = some (digitRanges x y) := by
  have hmin : x ≠ Int64.minValue := by
    rintro rfl
    exact absurd hx (by decide)
  have hneg : ¬ x < 0 := by
    rw [Int64.lt_iff_toInt_lt]
    exact Int.not_lt_of_ge hx
  rw [buildMinMaxInt, if_pos ⟨hmin, hy⟩, if_neg fun h => hneg h.1, if_neg hneg]

end Both

/-- `less_decimals`. -/
def less (decimalsLeft : Nat) : Nat := max (decimalsLeft - 1) 1

def rangeStart (topLevel : Bool) : Nat := if topLevel then 1 else 0

/-- The words of the rule for the integers from a number on. -/
inductive AtLeast : Nat → Nat → Bool → List Nat → Prop where
  | zero {decimals} : AtLeast 0 decimals true [0]
  | positive {decimals d ds} : 1 ≤ d → d ≤ 9 → ds ∈ sized 0 (some (less decimals)) → AtLeast 0 decimals true (d :: ds)
  | any {decimals ds} : ds ∈ sized 1 (some decimals) → AtLeast 0 decimals false ds
  | longer {n decimals top d ds} : 1 ≤ n → n ≤ 9 → rangeStart top ≤ d → d < n → ds ∈ sized 1 (some (less decimals)) →
      AtLeast n decimals top (d :: ds)
  | digit {n decimals top d ds} : 1 ≤ n → n ≤ 9 → n ≤ d → d ≤ 9 → ds ∈ sized 0 (some (less decimals)) →
      AtLeast n decimals top (d :: ds)
  | lower {n decimals top c cs d ds} : 10 ≤ n → digs n = c :: cs → 1 < c → rangeStart top ≤ d → d < c →
      ds ∈ sized (cs.length + 1) (some (less decimals)) → AtLeast n decimals top (d :: ds)
  | same {n decimals top c cs ds} : 10 ≤ n → digs n = c :: cs → AtLeast (value cs) (less decimals) false ds →
      AtLeast n decimals top (c :: ds)
  | higher {n decimals top c cs d ds} : 10 ≤ n → digs n = c :: cs → c < d → d ≤ 9 →
      ds ∈ sized cs.length (some (less decimals)) → AtLeast n decimals top (d :: ds)

def atLeast (n decimals : Nat) (top : Bool) : Language Nat := {w | AtLeast n decimals top w}

section AtLeast
variable {n decimals m k c d : Nat} {top : Bool} {w ds cs : List Nat} {o : Option Nat}

lemma atLeast_zero : atLeast 0 decimals true = digit 0 0 + digit 1 9 * sized 0 (some (less decimals)) := by
  ext w
  constructor
  · rintro (_ | ⟨hd, hd', hds⟩ | _ | ⟨h, _⟩ | ⟨h, _⟩ | ⟨h, _⟩ | ⟨h, _⟩ | ⟨h, _⟩)
    · exact .inl ⟨0, rfl, le_refl 0, le_refl 0⟩
    · exact .inr (cons_mem_digit_mul.2 ⟨hd, hd', hds⟩)
    all_goals omega
  · rintro (⟨d, rfl, -, hd⟩ | hw)
    · obtain rfl := Nat.le_zero.1 hd
      exact .zero
    · cases w with
      | nil => exact absurd hw nil_mem_digit_mul
      | cons d ds =>
        obtain ⟨hd, hd', hds⟩ := cons_mem_digit_mul.1 hw
        exact .positive hd hd' hds

lemma atLeast_any : atLeast 0 decimals false = sized 1 (some decimals) := by
  ext w
  constructor
  · rintro (_ | _ | h | ⟨h, _⟩ | ⟨h, _⟩ | ⟨h, _⟩ | ⟨h, _⟩ | ⟨h, _⟩)
    · exact h
    all_goals omega
  · exact fun h => .any h

lemma atLeast_digit (hn : 1 ≤ n) (hn' : n ≤ 9) : atLeast n decimals top =
    digit (rangeStart top) (n - 1) * sized 1 (some (less decimals)) + digit n 9 * sized 0 (some (less decimals)) := by
  ext w
  constructor
  · rintro (_ | _ | _ | ⟨-, -, hd, hd', hds⟩ | ⟨-, -, hd, hd', hds⟩ | ⟨h, _⟩ | ⟨h, _⟩ | ⟨h, _⟩)
    · omega
    · omega
    · omega
    · exact .inl (cons_mem_digit_mul.2 ⟨hd, Nat.le_sub_one_of_lt hd', hds⟩)
    · exact .inr (cons_mem_digit_mul.2 ⟨hd, hd', hds⟩)
    all_goals omega
  · cases w with
    | nil => rintro (hw | hw) <;> exact absurd hw nil_mem_digit_mul
    | cons d ds =>
      rintro (hw | hw)
      · obtain ⟨hd, hd', hds⟩ := cons_mem_digit_mul.1 hw
        exact .longer hn hn' hd (by omega) hds
      · obtain ⟨hd, hd', hds⟩ := cons_mem_digit_mul.1 hw
        exact .digit hn hn' hd hd' hds

lemma atLeast_digits (hn : 10 ≤ n) (hdigs : digs n = c :: cs) : atLeast n decimals top =
    (if 1 < c then digit (rangeStart top) (c - 1) * sized (cs.length + 1) (some (less decimals)) else 0) +
      (digit c c * atLeast (value cs) (less decimals) false +
        if c < 9 then digit (c + 1) 9 * sized cs.length (some (less decimals)) else 0) := by
  ext w
  rw [Language.mem_add, Language.mem_add]
  constructor
  · intro h
    cases h with
    | lower _ hdigs' hc hd hd' hds =>
      obtain ⟨rfl, rfl⟩ := cons_eq_cons.1 (hdigs.symm.trans hdigs')
      rw [if_pos hc]
      exact .inl (cons_mem_digit_mul.2 ⟨hd, Nat.le_sub_one_of_lt hd', hds⟩)
    | same _ hdigs' hds =>
      obtain ⟨rfl, rfl⟩ := cons_eq_cons.1 (hdigs.symm.trans hdigs')
      exact .inr (.inl (cons_mem_digit_mul.2 ⟨le_refl _, le_refl _, hds⟩))
    | higher _ hdigs' hd hd' hds =>
      obtain ⟨rfl, rfl⟩ := cons_eq_cons.1 (hdigs.symm.trans hdigs')
      rw [if_pos (show c < 9 by omega)]
      exact .inr (.inr (cons_mem_digit_mul.2 ⟨hd, hd', hds⟩))
    | _ => omega
  · cases w with
    | nil =>
      rintro (hw | hw | hw)
      · split at hw
        · exact absurd hw nil_mem_digit_mul
        · exact absurd hw (Language.notMem_zero _)
      · exact absurd hw nil_mem_digit_mul
      · split at hw
        · exact absurd hw nil_mem_digit_mul
        · exact absurd hw (Language.notMem_zero _)
    | cons d ds =>
      rintro (hw | hw | hw)
      · split at hw
        next hc =>
          obtain ⟨hd, hd', hds⟩ := cons_mem_digit_mul.1 hw
          exact AtLeast.lower hn hdigs hc hd (by omega) hds
        next => exact absurd hw (Language.notMem_zero _)
      · obtain ⟨hd, hd', hds⟩ := cons_mem_digit_mul.1 hw
        obtain rfl := le_antisymm hd' hd
        exact AtLeast.same hn hdigs hds
      · split at hw
        next =>
          obtain ⟨hd, hd', hds⟩ := cons_mem_digit_mul.1 hw
          exact AtLeast.higher hn hdigs hd hd' hds
        next => exact absurd hw (Language.notMem_zero _)

lemma digit_mul_empty {L : Language Nat} (h : k < m) : digit m k * L = 0 := by
  ext w
  constructor
  · intro hw
    cases w with
    | nil => exact absurd hw nil_mem_digit_mul
    | cons d ds =>
      obtain ⟨hd, hd', -⟩ := cons_mem_digit_mul.1 hw
      omega
  · exact fun hw => absurd hw (Language.notMem_zero _)

/-- The operators that the parser can read, where this is asked for. -/
def Limited (short : Prop) (k m : Nat) (n : Option Nat) : Prop := short → Within k m n

lemma limited_between {short : Prop} {i : Nat} (hi : i < 2000) (h : short → m ≤ i) : Limited short 0 m (some i) := by
  intro hshort
  refine ⟨fun j hj => Option.some.inj hj ▸ h hshort, ?_⟩
  rw [Option.getD_some, Nat.max_eq_left (Nat.zero_le 1), Nat.one_mul]
  omega

variable {env : Str → Language UInt32 → Prop} {short : Prop}

lemma reads_more (hc : c < 10) (hd : d < 10) (hk : k < 2000) (h : short → m ≤ k) :
    Reads (Limited short) env .seq (k - m) (digitRange (dig c) (dig d) ++ 32 :: moreDigits m k)
      (spell (digit c d * sized m (some k))) :=
  reads_heads hc hd (by omega) (limited_between hk h)

lemma Reads.orIf {ok : Nat → Nat → Option Nat → Prop} {p : Prop} [Decidable p] {j : Nat} {u t : Str}
    {K L : Language UInt32} (h : p → Reads ok env .seq j u K) (hu : u ≠ []) (h' : Reads ok env .alts k t L) :
    ∃ i ≤ j + k, Reads ok env .alts i ((if p then u ++ [32, 124, 32] else []) ++ t) ((if p then K else 0) + L) := by
  by_cases hp : p
  · refine ⟨j + k, le_refl _, ((h hp).or h' hu).congr ?_ ?_⟩
    · rw [if_pos hp]
      simp
    · rw [if_pos hp]
  · refine ⟨k, Nat.le_add_left k j, h'.congr ?_ ?_⟩
    · rw [if_neg hp]
      rfl
    · rw [if_neg hp, zero_add]

lemma toInt_stoll (hds : Digits ds) (hlen : ds.length ≤ 18) : (stoll (ds.map dig)).toInt = value ds := by
  have hlt := (value_lt hds).trans_le (Nat.pow_le_pow_right (show 0 < 10 by decide) hlen)
  rw [stoll, foldl_dig hds, zero_mul, zero_add]
  exact Int64.toInt_ofNat_of_lt (by omega)

/-! `build_min_max_int` with a lower bound that is not negative. -/

section Lower
variable {fuel : Nat} {x : Int64}

lemma buildMinMaxInt_zero : buildMinMaxInt (fuel + 1) 0 Int64.maxValue decimals top =
    some (if top then [91, 48, 93, 32, 124, 32, 91, 49, 45, 57, 93, 32] ++ moreDigits 0 (less decimals)
      else moreDigits 1 decimals) := by
  rw [buildMinMaxInt, if_neg fun h => h.2 rfl, if_pos (by decide), if_neg (by decide), if_pos rfl]
  rfl

lemma lower_bound (hx : x.toInt = n) : x ≠ Int64.minValue ∧ ¬ x < 0 := by
  rw [Int64.lt_iff_toInt_lt, hx]
  refine ⟨?_, Int.not_lt_of_ge (Int.natCast_nonneg n)⟩
  rintro rfl
  exact absurd (hx ▸ Int.natCast_nonneg n) (by decide)

lemma buildMinMaxInt_digit (hx : x.toInt = n) (hn : 1 ≤ n) (hn' : n ≤ 9) :
    buildMinMaxInt (fuel + 1) x Int64.maxValue decimals top = some ((if rangeStart top < n then
          (digitRange (dig (rangeStart top)) (dig (n - 1)) ++ 32 :: moreDigits 1 (less decimals)) ++ [32, 124, 32]
        else []) ++ (digitRange (dig n) (dig 9) ++ 32 :: moreDigits 0 (less decimals))) := by
  obtain ⟨hmin, hneg⟩ := lower_bound hx
  have hzero : x ≠ 0 := by
    rintro rfl
    have : (0 : Int) = n := hx
    omega
  have hnine : x ≤ 9 := by
    rw [Int64.le_iff_toInt_le, hx]
    exact Int.ofNat_le.2 hn'
  have hstart : (if top then 49 else 48) = dig (rangeStart top) := by cases top <;> rfl
  have hlt : dig (rangeStart top) < dig n ↔ rangeStart top < n := by
    rw [UInt8.lt_iff_toNat_lt, toNat_dig (show n < 10 by omega), toNat_dig (by cases top <;> decide)]
    omega
  rw [buildMinMaxInt, if_neg fun h => h.2 rfl, if_pos hmin, if_neg hneg, if_neg hzero, if_pos hnine, hx,
    Int.toNat_natCast, hstart]
  simp only [hlt, dig_sub_one (show n < 10 by omega) hn]
  rfl

lemma buildMinMaxInt_digits (hx : x.toInt = n) (hn : 10 ≤ n) (hdigs : digs n = c :: cs) :
    buildMinMaxInt (fuel + 1) x Int64.maxValue decimals top =
      (buildMinMaxInt fuel (stoll (cs.map dig)) Int64.maxValue (less decimals) false).map fun out =>
        (if 1 < c then (digitRange (dig (rangeStart top)) (dig (c - 1)) ++
            32 :: moreDigits (cs.length + 1) (less decimals)) ++ [32, 124, 32] else []) ++
          (digitRange (dig c) (dig c) ++ 32 :: (40 :: out ++ [41])) ++ if c < 9 then
              [32, 124, 32] ++ (digitRange (dig (c + 1)) (dig 9) ++ 32 :: moreDigits cs.length (less decimals))
            else [] := by
  obtain ⟨hmin, hneg⟩ := lower_bound hx
  have hzero : x ≠ 0 := by
    rintro rfl
    have : (0 : Int) = n := hx
    omega
  have hnine : ¬ x ≤ 9 := by
    rw [Int64.le_iff_toInt_le, hx]
    intro h
    have : (n : Int) ≤ 9 := h
    omega
  have hc : c < 10 := (digits_cons.1 (hdigs ▸ digits_digs n)).1
  have hc1 : 1 ≤ c := by
    obtain ⟨d, ds, hds, hd⟩ := digs_cons (show n ≠ 0 by omega)
    exact (cons_eq_cons.1 (hdigs.symm.trans hds)).1 ▸ hd
  have hstr : toStr n = dig c :: cs.map dig := by
    rw [toStr, if_neg (Int.not_lt_of_ge (Int.natCast_nonneg n)), Int.natAbs_natCast, nil_append, decimal_eq, hdigs,
      map_cons]
  have hstart : (if top then 49 else 48) = dig (rangeStart top) := by cases top <;> rfl
  have hlow : 49 < dig c ↔ 1 < c := (by decide : ∀ c < 10, 49 < dig c ↔ 1 < c) c hc
  have hhigh : dig c < 57 ↔ c < 9 := (by decide : ∀ c < 10, dig c < 57 ↔ c < 9) c hc
  rw [buildMinMaxInt, if_neg fun h => h.2 rfl, if_pos hmin, if_neg hneg, if_neg hzero, if_neg hnine, hx, hstr]
  simp only [hlow, hhigh, hstart, dig_sub_one hc hc1, dig_add_one, length_map, Nat.add_sub_cancel]
  rfl

/-- What is said of a lower bound: a text is built, and it denotes the words from the bound on. -/
def LowerReads (env : Str → Language UInt32 → Prop) (short : Prop) (fuel n decimals : Nat) (top : Bool) (x : Int64) :
    Prop :=
  ∃ t k, k ≤ 4000 * (digs n).length ∧ t ≠ [] ∧ buildMinMaxInt fuel x Int64.maxValue decimals top = some t ∧
    Reads (Limited short) env .alts k t (spell (atLeast n decimals top))

lemma less_pos : 1 ≤ less decimals := le_max_right _ _

lemma less_le (hpos : 1 ≤ decimals) : less decimals ≤ decimals := by
  rw [less]
  omega

lemma heads_ne_nil {t : Str} {a b : UInt8} : digitRange a b ++ 32 :: t ≠ [] := fun h => by cases h

lemma rangeStart_lt (top : Bool) : rangeStart top < 10 := by cases top <;> decide

lemma reads_digitBound (hx : x.toInt = n) (hn : n < 10) (hpos : 1 ≤ decimals) (hdecimals : decimals < 1000) :
    LowerReads env short (fuel + 1) n decimals top x := by
  have hless := (less_le hpos).trans_lt hdecimals
  have hlen := one_le_length_digs n
  have hfrom : ∀ {c}, c < 10 → Reads (Limited short) env .seq (less decimals - 0)
      (digitRange (dig c) (dig 9) ++ 32 :: moreDigits 0 (less decimals))
      (spell (digit c 9 * sized 0 (some (less decimals)))) := fun hc =>
    reads_more hc (show 9 < 10 by decide) (by omega) fun _ => Nat.zero_le _
  rcases eq_zero_or_pos n with rfl | hn1
  · obtain rfl : x = 0 := Int64.toInt_inj.1 hx
    cases top with
    | true =>
      have hzero : Reads (Limited short) env .item 0 (digitRange (dig 0) (dig 0)) (spell (digit 0 0)) :=
        reads_digitRange (by decide) (by decide)
      refine ⟨_, _, ?_, cons_ne_nil _ _, buildMinMaxInt_zero,
        (hzero.single.or (hfrom (show 1 < 10 by decide)).one fun h => by cases h).congr rfl ?_⟩
      · omega
      · rw [← map_add, atLeast_zero]
    | false =>
      have hmore : Reads (Limited short) env .item (decimals - 1) (moreDigits 1 decimals) _ :=
        reads_moreDigits (show decimals < 2147483647 by omega)
          (limited_between (show decimals < 2000 by omega) fun _ => hpos)
      refine ⟨_, _, ?_, cons_ne_nil _ _, buildMinMaxInt_zero, hmore.single.one.congr rfl ?_⟩
      · omega
      · rw [atLeast_any]
  · obtain ⟨k, hk, hreads⟩ := Reads.orIf (fun _ : rangeStart top < n =>
      reads_more (rangeStart_lt top) (show n - 1 < 10 by omega)
        (show less decimals < 2000 by omega) fun _ => less_pos) heads_ne_nil (hfrom hn).one
    refine ⟨_, k, ?_, append_ne_nil_of_right_ne_nil _ heads_ne_nil, buildMinMaxInt_digit hx hn1 (by omega),
      hreads.congr rfl ?_⟩
    · omega
    · rw [atLeast_digit hn1 (by omega), map_add]
      split
      next => rfl
      next h => rw [digit_mul_empty (show n - 1 < rangeStart top by omega), map_zero]

lemma reads_digitsBound (hx : x.toInt = n) (hn : 10 ≤ n) (hpos : 1 ≤ decimals) (hdecimals : decimals < 1000)
    (hshort : short → (digs n).length < decimals) (hdigs : digs n = c :: cs)
    (hsub : (digs (value cs)).length ≤ cs.length)
    (ih : LowerReads env short fuel (value cs) (less decimals) false (stoll (cs.map dig))) :
    LowerReads env short (fuel + 1) n decimals top x := by
  obtain ⟨out, k, hk, hout, hbuild, hreads⟩ := ih
  have hc : c < 10 := (digits_cons.1 (hdigs ▸ digits_digs n)).1
  have hlength : (digs n).length = cs.length + 1 := by rw [hdigs, length_cons]
  have hless := (less_le hpos).trans_lt hdecimals
  have hfit : short → cs.length + 1 ≤ less decimals := fun h => by
    have := hshort h
    rw [less]
    omega
  have hsame := (reads_digitRange hc hc).before hreads.paren.single
  obtain ⟨j, hj, hrest⟩ : ∃ j ≤ k + 1 + less decimals, Reads (Limited short) env .alts j
      (digitRange (dig c) (dig c) ++ 32 :: (40 :: out ++ [41]) ++ if c < 9 then
        [32, 124, 32] ++ (digitRange (dig (c + 1)) (dig 9) ++ 32 :: moreDigits cs.length (less decimals)) else [])
      (spell (digit c c * atLeast (value cs) (less decimals) false +
        if c < 9 then digit (c + 1) 9 * sized cs.length (some (less decimals)) else 0)) := by
    by_cases hc9 : c < 9
    · have hhigher : Reads (Limited short) env .seq _ _ _ := reads_more (show c + 1 < 10 by omega)
        (show 9 < 10 by decide) (show less decimals < 2000 by omega) fun h => (Nat.le_succ _).trans (hfit h)
      refine ⟨_, ?_, (hsame.or hhigher.one heads_ne_nil).congr ?_ ?_⟩
      · omega
      · rw [if_pos hc9]
        simp
      · rw [if_pos hc9, ← map_mul, ← map_add]
    · refine ⟨_, ?_, hsame.one.congr ?_ ?_⟩
      · omega
      · rw [if_neg hc9, append_nil]
      · rw [if_neg hc9, add_zero, ← map_mul]
  obtain ⟨i, hi, hall⟩ := Reads.orIf (fun _ : 1 < c => reads_more (rangeStart_lt top)
    (show c - 1 < 10 by omega) (show less decimals < 2000 by omega) hfit) heads_ne_nil hrest
  refine ⟨_, i, ?_, ?_, (buildMinMaxInt_digits hx hn hdigs).trans (congrArg (Option.map _) hbuild), hall.congr ?_ ?_⟩
  · omega
  · exact append_ne_nil_of_left_ne_nil (append_ne_nil_of_right_ne_nil _ heads_ne_nil) _
  · exact (append_assoc _ _ _).symm
  · rw [atLeast_digits hn hdigs]
    split
    next => exact (map_add spell _ _).symm
    next => rw [zero_add, zero_add]

/-- The rule for a lower bound that is not negative. -/
theorem reads_atLeast (hx : x.toInt = n) (hfuel : (digs n).length ≤ fuel) (hpos : 1 ≤ decimals)
    (hdecimals : decimals < 1000) (hshort : short → (digs n).length < decimals) :
    LowerReads env short fuel n decimals top x := by
  induction fuel generalizing x n decimals top with
  | zero => exact absurd (one_le_length_digs n) (Nat.not_le_of_lt (Nat.lt_succ_of_le hfuel))
  | succ fuel ih =>
    rcases lt_or_ge n 10 with hn | hn
    · exact reads_digitBound hx hn hpos hdecimals
    · obtain ⟨c, cs, hdigs, -⟩ := digs_cons (show n ≠ 0 by omega)
      have hcs : Digits cs := (digits_cons.1 (hdigs ▸ digits_digs n)).2
      have hlength : (digs n).length = cs.length + 1 := by rw [hdigs, length_cons]
      have hlen : (digs n).length ≤ 19 := length_digs_le (by have := x.toInt_lt; omega) (by decide)
      have hlen2 := two_le_length_digs hn
      have hsub : (digs (value cs)).length ≤ cs.length := length_digs_le (value_lt hcs) (by omega)
      refine reads_digitsBound hx hn hpos hdecimals hshort hdigs hsub (ih (toInt_stoll hcs (by omega)) (by omega)
        less_pos ((less_le hpos).trans_lt hdecimals) fun h => ?_)
      have := hshort h
      rw [less]
      omega

end Lower

end AtLeast

section Words
variable {n decimals d l : Nat} {top : Bool} {w ds : List Nat} {o : Option Nat}

lemma sized_succ (h : ds ++ [d] ∈ sized l o) (hd : d < 9) : ds ++ [d + 1] ∈ sized l o := by
  obtain ⟨hdigits, hlen, hle⟩ := h
  rw [length_append, length_singleton] at hlen hle
  refine ⟨digits_append.2 ⟨(digits_append.1 hdigits).1, digits_cons.2 ⟨by omega, digits_nil⟩⟩, ?_, ?_⟩
  · rwa [length_append, length_singleton]
  · rwa [length_append, length_singleton]

lemma AtLeast.ne_nil (h : AtLeast n decimals top w) : w ≠ [] := by
  cases h with
  | any h =>
    rintro rfl
    exact absurd h.2.1 (by decide)
  | _ => exact cons_ne_nil _ _

lemma AtLeast.digits (h : AtLeast n decimals top w) : Digits w := by
  induction h with
  | zero => exact digits_cons.2 ⟨by decide, digits_nil⟩
  | any h => exact h.1
  | positive _ hd hds => exact digits_cons.2 ⟨by omega, hds.1⟩
  | longer _ hn _ hd hds => exact digits_cons.2 ⟨by omega, hds.1⟩
  | digit _ _ _ hd hds => exact digits_cons.2 ⟨by omega, hds.1⟩
  | lower _ hdigs _ _ hd hds => exact digits_cons.2 ⟨hd.trans (digits_cons.1 (hdigs ▸ digits_digs _)).1, hds.1⟩
  | same _ hdigs _ ih => exact digits_cons.2 ⟨(digits_cons.1 (hdigs ▸ digits_digs _)).1, ih⟩
  | higher _ _ _ hd hds => exact digits_cons.2 ⟨by omega, hds.1⟩

lemma AtLeast.succ (h : AtLeast n decimals top w) (hw : w = ds ++ [d]) (hd : d < 9) :
    AtLeast n decimals top (ds ++ [d + 1]) := by
  induction h generalizing ds with
  | zero =>
    obtain ⟨rfl, rfl⟩ : ds = [] ∧ d = 0 := by
      cases ds with
      | nil => exact ⟨rfl, ((cons_eq_cons.1 hw).1).symm⟩
      | cons e ds => cases ds <;> cases hw
    exact .positive (Nat.le_refl 1) (by decide) ⟨digits_nil, Nat.le_refl 0, fun _ _ => Nat.zero_le _⟩
  | positive he he' hes =>
    cases ds with
    | nil =>
      cases hw
      exact .positive (by omega) (by omega) hes
    | cons e ds =>
      cases hw
      exact .positive he he' (sized_succ hes hd)
  | any h =>
    subst hw
    exact .any (sized_succ h hd)
  | longer hn hn' he he' hes =>
    cases ds with
    | nil =>
      cases hw
      exact absurd hes.2.1 (by decide)
    | cons e ds =>
      cases hw
      exact .longer hn hn' he he' (sized_succ hes hd)
  | digit hn hn' he he' hes =>
    cases ds with
    | nil =>
      cases hw
      exact .digit hn hn' (by omega) (by omega) hes
    | cons e ds =>
      cases hw
      exact .digit hn hn' he he' (sized_succ hes hd)
  | lower hn hdigs hc he he' hes =>
    cases ds with
    | nil =>
      cases hw
      exact absurd hes.2.1 (Nat.not_succ_le_zero _)
    | cons e ds =>
      cases hw
      exact .lower hn hdigs hc he he' (sized_succ hes hd)
  | same hn hdigs hes ih =>
    cases ds with
    | nil =>
      cases hw
      exact absurd rfl hes.ne_nil
    | cons e ds =>
      cases hw
      exact .same hn hdigs (ih rfl)
  | @higher n decimals top c cs e es hn hdigs he he' hes =>
    cases ds with
    | nil =>
      cases hw
      have hlen := two_le_length_digs hn
      rw [hdigs, length_cons] at hlen
      have : cs.length ≤ 0 := hes.2.1
      omega
    | cons e ds =>
      cases hw
      exact .higher hn hdigs he he' (sized_succ hes hd)

end Words

section Range
variable {env : Str → Language UInt32 → Prop} {x y : Int64} {lo hi n fuel : Nat} {L : Language UInt32}
  {short : Prop}

lemma intRange_ne {z : Int} (hz : -9223372036854775807 ≤ z) (hL : ∀ w ∈ L, w.head? ≠ some 45) :
    {[45]} * spell (atLeast n 16 true) + L ≠ intRange (-9223372036854775807) z := by
  intro heq
  have hmem : numeral (-(9223372036854775807 : Nat)) ∈ intRange (-9223372036854775807) z :=
    .inl ⟨_, Int.le_refl _, hz, rfl⟩
  rw [numeral_neg (by decide), ← heq] at hmem
  rcases hmem with hmem | hmem
  · obtain ⟨_, ⟨w, hw, rfl⟩, hdigs⟩ := mem_minus.1 hmem
    obtain rfl := map_cpt_inj (digits_digs _) hw.digits (cons_eq_cons.1 hdigs).2
    rw [digs_of_le (by decide)] at hw
    have hsucc := hw.succ rfl (by decide)
    have hnext : digs 9223372036854775808 = digs (9223372036854775807 / 10) ++ [9223372036854775807 % 10 + 1] :=
      digs_of_le (by decide)
    have hless : 45 :: (digs 9223372036854775808).map cpt ∈ intRange (-9223372036854775807) z := by
      rw [hnext, ← heq]
      exact .inl (mem_minus.2 ⟨_, ⟨_, hsucc, rfl⟩, rfl⟩)
    exact absurd (neg_mem_intRange hless) (by decide)
  · exact hL _ hmem rfl

lemma toInt_cases (hx : x ≠ Int64.minValue) (hy : y ≠ Int64.maxValue) (hle : x ≤ y) :
    -9223372036854775807 ≤ x.toInt ∧ x.toInt ≤ y.toInt ∧ y.toInt < 9223372036854775807 := by
  have hmin : x.toInt ≠ -9223372036854775808 := fun h => hx (Int64.toInt_inj.1 h)
  have hmax : y.toInt ≠ 9223372036854775807 := fun h => hy (Int64.toInt_inj.1 h)
  have hlow := x.le_toInt
  have hhigh := y.toInt_lt
  rw [Int64.le_iff_toInt_le] at hle
  omega

/-- The condition under which the greatest negation is a bound. -/
abbrev Bounded (x : Int64) : Prop := x ≠ -Int64.maxValue

lemma bounded_iff : Bounded x ↔ x.toInt ≠ -9223372036854775807 := by
  rw [Bounded, ne_eq, ← Int64.toInt_inj]
  rfl

lemma reads_magnitudes (env : Str → Language UInt32 → Prop) (hx : x ≠ Int64.minValue) (hneg : x.toInt < 0)
    (hy : y.toInt = n) (hle : n ≤ -x.toInt) (hfuel : 19 ≤ fuel) (hshort : short → Bounded x ∨ n < 1000000000000000) :
    ∃ t k L, k ≤ 33554432 ∧ buildMinMaxInt fuel y (-x) 16 true = some t ∧
      Reads (Limited short) env .alts k t (spell L) ∧
      (Bounded x → L = numerals n (-x.toInt).toNat) ∧ (¬ Bounded x → L = atLeast n 16 true) := by
  obtain ⟨f, rfl⟩ := Nat.exists_eq_add_of_le' (show 1 ≤ fuel by omega)
  have hnegx := toInt_neg_of_ne hx
  by_cases hb : Bounded x
  · have hmax : -x ≠ Int64.maxValue := by
      intro h
      have hval := congrArg Int64.toInt h
      rw [hnegx, Int64.toInt_maxValue] at hval
      exact bounded_iff.1 hb (by omega)
    obtain ⟨k, hk, hreads⟩ := reads_digitRanges env hy (show (-x).toInt = (-x.toInt).toNat by omega)
      (by omega)
    exact ⟨_, k, _, hk, buildMinMaxInt_nonneg (by omega) hmax, hreads.mono fun _ _ _ h _ => h, fun _ => rfl,
      fun h => absurd hb h⟩
  · have hmax : -x = Int64.maxValue := by
      rw [not_not.1 hb]
      decide
    have hlen : (digs n).length ≤ 19 := length_digs_le (by have := y.toInt_lt; omega) (by decide)
    obtain ⟨t, k, hk, -, hbuild, hreads⟩ := @reads_atLeast n 16 true env short (f + 1) y hy
      (hlen.trans hfuel) (by decide) (by decide) fun h =>
        Nat.lt_succ_of_le (length_digs_le ((hshort h).resolve_left hb) (by decide))
    exact ⟨t, k, _, hk.trans (by omega), hmax ▸ hbuild, hreads, fun h => absurd h hb, fun _ => rfl⟩

lemma head_numerals {w : List UInt32} (hw : w ∈ spell (numerals lo hi)) : w.head? ≠ some 45 := by
  obtain ⟨m, -, -, rfl⟩ := mem_numerals.1 hw
  exact head_digs m

lemma reads_bounds (env : Str → Language UInt32 → Prop) (hx : x ≠ Int64.minValue) (hy : y ≠ Int64.maxValue)
    (hle : x ≤ y) (hfuel : 20 ≤ fuel) : ∃ t k L, k < 4294967296 ∧ buildMinMaxInt fuel x y 16 true = some t ∧
      Reads (Limited (Bounded x ∨ -1000000000000000 < y.toInt)) env .alts k t L ∧
      (L = intRange x.toInt y.toInt ↔ Bounded x) := by
  obtain ⟨hlow, hle, hhigh⟩ := toInt_cases hx hy hle
  obtain ⟨f, rfl⟩ := Nat.exists_eq_add_of_le' (show 1 ≤ fuel by omega)
  have hlt0 : ∀ {z : Int64}, z < 0 ↔ z.toInt < 0 := Int64.lt_iff_toInt_lt
  rcases lt_or_ge x.toInt 0 with hneg | hpos
  · obtain ⟨lo, hlo⟩ := Int.eq_ofNat_of_zero_le (show 0 ≤ -x.toInt by omega)
    have hlo' : x.toInt = -lo := by omega
    rcases lt_or_ge y.toInt 0 with hneg' | hpos'
    · obtain ⟨hi, hhi⟩ := Int.eq_ofNat_of_zero_le (show 0 ≤ -y.toInt by omega)
      have hhi' : y.toInt = -hi := by omega
      have hy' : y ≠ Int64.minValue := by
        rintro rfl
        rw [Int64.toInt_minValue] at hle
        omega
      obtain ⟨t, k, L, hk, hbuild, hreads, hbounded, hunbounded⟩ := reads_magnitudes env hx hneg
        ((toInt_neg_of_ne hy').trans hhi) (by omega) (show 19 ≤ f by omega)
        (show _ ∨ -1000000000000000 < y.toInt → _ from Or.imp_right fun h => by omega)
      refine ⟨_, k + 1, {[45]} * spell L, by omega, ?_, hreads.negated.one, ?_⟩
      · rw [buildMinMaxInt, if_pos ⟨hx, hy⟩, if_pos ⟨hlt0.2 hneg, hlt0.2 hneg'⟩, hbuild]
        rfl
      · refine ⟨fun heq hb => ?_, fun hb => ?_⟩
        · have hb' : ¬ Bounded x := not_not.2 hb
          rw [hunbounded hb', ← add_zero ({[45]} * _), not_not.1 (fun h => hb' (bounded_iff.2 h))] at heq
          exact intRange_ne (by omega) (fun w hw => absurd hw (Language.notMem_zero w)) heq
        · rw [hbounded hb, hlo, Int.toNat_natCast, intRange_neg (by omega), hlo', hhi']
    · obtain ⟨hi, hhi⟩ := Int.eq_ofNat_of_zero_le hpos'
      obtain ⟨t, k, L, hk, hbuild, hreads, hbounded, hunbounded⟩ := reads_magnitudes env hx hneg
        (show (0 : Int64).toInt = (0 : Nat) from rfl) (by omega) (show 19 ≤ f by omega) fun _ => .inr (by decide)
      obtain ⟨j, hj, hrange⟩ := reads_digitRanges env (show (0 : Int64).toInt = (0 : Nat) from rfl) hhi
        (Nat.zero_le hi)
      have hall := hreads.negated.or (hrange.mono fun _ _ _ h _ => h) (cons_ne_nil _ _)
      refine ⟨_, _, {[45]} * spell L + spell (numerals 0 hi), by omega, ?_, hall, ?_⟩
      · rw [buildMinMaxInt, if_pos ⟨hx, hy⟩, if_neg (fun h => absurd (hlt0.1 h.2) (by omega)), if_pos (hlt0.2 hneg),
          hbuild, Option.map_some, append_assoc (_ ++ _)]
        rfl
      · refine ⟨fun heq hb => ?_, fun hb => ?_⟩
        · have hb' : ¬ Bounded x := not_not.2 hb
          rw [hunbounded hb', not_not.1 (fun h => hb' (bounded_iff.2 h))] at heq
          exact intRange_ne (by omega) (fun w hw => head_numerals hw) heq
        · rw [hbounded hb, hlo, Int.toNat_natCast, intRange_both (by omega), hlo', hhi]
  · obtain ⟨lo, hlo⟩ := Int.eq_ofNat_of_zero_le hpos
    obtain ⟨hi, hhi⟩ := Int.eq_ofNat_of_zero_le (show 0 ≤ y.toInt by omega)
    obtain ⟨k, hk, hreads⟩ := reads_digitRanges env hlo hhi (by omega)
    refine ⟨_, k, _, by omega, buildMinMaxInt_nonneg hpos hy, hreads.mono fun _ _ _ h _ => h, ?_⟩
    rw [hlo, hhi, intRange_nonneg]
    exact ⟨fun _ => bounded_iff.2 (by omega), fun _ => rfl⟩

/-- With both bounds the rule accepts the numerals of the range exactly if the lower bound is not the negation of the
greatest number. The parser reads the rule if so, or if the upper bound has less than 16 digits behind a minus. -/
theorem buildMinMaxInt_range (hx : x ≠ Int64.minValue) (hy : y ≠ Int64.maxValue) (hle : x ≤ y) (hfuel : 20 ≤ fuel) :
    ∃ text L, buildMinMaxInt fuel x y 16 true = some text ∧
      (∃ k, Reads (fun _ _ _ => True) noRules .alts k text L) ∧
      (L = intRange x.toInt y.toInt ↔ x ≠ -Int64.maxValue) ∧ (x ≠ -Int64.maxValue ∨ -1000000000000000 < y.toInt →
        (Accepts text (intRange x.toInt y.toInt) ↔ x ≠ -Int64.maxValue)) := by
  obtain ⟨t, k, L, hk, hbuild, hreads, hiff⟩ := reads_bounds noRules hx hy hle hfuel
  refine ⟨t, L, hbuild, ⟨k, hreads.mono fun _ _ _ _ => trivial⟩, hiff, fun hread => ?_⟩
  have haccepts : Accepts t L := (hreads.mono fun _ _ _ hlimited => hlimited hread).accepts hk
  exact ⟨fun h => hiff.1 (haccepts.unique h), fun h => hiff.2 h ▸ haccepts⟩

theorem buildMinMaxInt_range_small : ∃ text L, buildMinMaxInt 20 (-5) 30 16 true = some text ∧
    (∃ k, Reads (fun _ _ _ => True) noRules .alts k text L) ∧
    (L = intRange (-5 : Int64).toInt (30 : Int64).toInt ↔ (-5 : Int64) ≠ -Int64.maxValue) ∧
    ((-5 : Int64) ≠ -Int64.maxValue ∨ -1000000000000000 < (30 : Int64).toInt →
      (Accepts text (intRange (-5 : Int64).toInt (30 : Int64).toInt) ↔ (-5 : Int64) ≠ -Int64.maxValue)) :=
  buildMinMaxInt_range (by decide) (by decide) (by decide) (by decide)

/-- From the least number but one to the first below zero, the rule is `"-" ([1-9] [0-9]{0,15})`. -/
theorem buildMinMaxInt_unbounded : ∃ text, buildMinMaxInt 20 (-9223372036854775807) (-1) 16 true = some text ∧
    ¬ Accepts text (intRange (-9223372036854775807) (-1)) := by
  obtain ⟨t, k, L, hk, hbuild, hreads, hiff⟩ := reads_bounds noRules (x := -9223372036854775807) (y := -1)
    (by decide) (by decide) (by decide) (le_refl 20)
  have haccepts : Accepts t L := (hreads.mono fun _ _ _ hlimited => hlimited (.inr (by decide))).accepts hk
  exact ⟨t, hbuild, fun h => absurd (hiff.1 (haccepts.unique h)) (by decide)⟩

end Range

end Mallana.Schema
