import Mallana.Server.ContextShift
import Mallana.Server.ServerTokens
import Mathlib.Data.Finset.Card

/-!
# Positions of tokens with media

`pos_next` counts the positions of the first tokens, `size_up_to_pos` the tokens below a position. A chunk takes as
many positions as it says, whatever the number of its tokens, and all its tokens stand at the first of them. The second
loop looks at the position after it has taken a token or a chunk, so it takes one too many for position 0.
-/

namespace Mallana.Server

open List

/-- The conversion to `int32_t`. -/
def wrap32 (x : Int) : Int := (x + 2147483648) % 4294967296 - 2147483648

namespace ServerTokens

/-- The tokens and the positions that the token or the chunk at `idx` takes. -/
def advance (s : ServerTokens) (idx : Nat) : Nat × Nat :=
  match s.findChunk idx with
  | some c => (c.nTokens, c.nPos)
  | none => (1, 1)

/-- The loop of `pos_next`; `none` where the position overflows. -/
def posLoop (s : ServerTokens) (n : Nat) : Nat → Nat → Int → Option Int
  | 0, _, pos => some pos
  | fuel + 1, idx, pos =>
    if idx < n then do
      let pos ← toInt (pos + (s.advance idx).2)
      s.posLoop n fuel (idx + (s.advance idx).1) pos
    else some pos

/-- `pos_next`. -/
def posNext (s : ServerTokens) (n : Int) : Option Int :=
  if s.hasMtmd then
    if n < 0 then
      some (s.media.foldl (fun res p => wrap32 (res + (p.2.nPos - p.2.nTokens))) (wrap32 s.tokens.length))
    else if n ≤ s.tokens.length then s.posLoop n.toNat n.toNat 0 0 else none
  else some (wrap32 (if n < 0 then s.tokens.length else n))

/-- The loop of `size_up_to_pos`. -/
def sizeLoop (s : ServerTokens) (maxPos : Int) : Nat → Nat → Int → Option Nat
  | 0, idx, _ => some idx
  | fuel + 1, idx, pos =>
    if idx < s.tokens.length then do
      let pos ← toInt (pos + (s.advance idx).2)
      if maxPos ≤ pos then some (idx + (s.advance idx).1) else s.sizeLoop maxPos fuel (idx + (s.advance idx).1) pos
    else some idx

/-- `size_up_to_pos`. -/
def sizeUpToPos (s : ServerTokens) (maxPos : Int) : Option Nat :=
  if s.hasMtmd then s.sizeLoop maxPos s.tokens.length 0 0 else some (min (toSize maxPos) s.tokens.length)

/-- The position behind the first `n` tokens. -/
def posAt (s : ServerTokens) (n : Nat) : Int :=
  n + if s.hasMtmd then (s.media.map fun p => if p.1 < n then (p.2.nPos : Int) - p.2.nTokens else 0).sum else 0

/-- The first token of the chunk that a token is in. -/
def start (s : ServerTokens) (i : Nat) : Nat :=
  if s.hasMtmd then ((s.media.find? fun p => p.1 ≤ i ∧ i < p.1 + p.2.nTokens).map (·.1)).getD i else i

/-- The number of tokens whose position is below `p`. -/
def below (s : ServerTokens) (p : Int) : Nat :=
  ((Finset.range s.tokens.length).filter fun i => s.posAt (s.start i) < p).card

/-- No chunk is split at `n`. -/
def Boundary (s : ServerTokens) (n : Nat) : Prop := n ≤ s.tokens.length ∧ (s.hasMtmd = true → ¬ s.Inside n)

/-- Tokens and positions agree at the boundary `n`, and the tokens below `p` are counted. -/
structure Agrees (s : ServerTokens) (n : Nat) (p : Int) : Prop where
  mono : ∀ m ≤ n, s.Boundary m → ∃ q r, s.posNext m = some q ∧ s.posNext n = some r ∧ q ≤ r
  total : ∃ q, s.posNext (-1) = some q ∧ s.posNext s.tokens.length = some q
  back : ∃ q, s.posNext n = some q ∧ s.sizeUpToPos q = some n
  count : 0 ≤ p → p ≤ posMax → s.sizeUpToPos p = some (s.below p)

section
variable {s : ServerTokens} {n m i : Nat} {p : Int}

lemma wrap32_of_fits {x : Int} (hlo : -2147483648 ≤ x) (hhi : x ≤ posMax) : wrap32 x = x := by
  rw [posMax] at hhi
  rw [wrap32]
  omega

lemma boundary_zero (s : ServerTokens) : s.Boundary 0 := ⟨Nat.zero_le _, fun _ ⟨_, _, hlt, _⟩ => Nat.not_lt_zero _ hlt⟩

lemma Placed.boundary_length (h : s.Placed) : s.Boundary s.tokens.length := by
  refine ⟨le_refl _, ?_⟩
  rintro - ⟨p, hp, -, hhi⟩
  exact absurd (h.end_le hp) (Nat.not_le.2 hhi)

lemma posAt_zero (s : ServerTokens) : s.posAt 0 = 0 := by simp [posAt]

lemma sum_chunk {c : MediaChunk} {l : List (Nat × MediaChunk)}
    (hl : l.Pairwise fun p q => p.1 + p.2.nTokens ≤ q.1) (hc : (i, c) ∈ l) :
    (l.map fun p => if p.1 < i + c.nTokens then (p.2.nPos : Int) - p.2.nTokens else 0).sum =
      (l.map fun p => if p.1 < i then (p.2.nPos : Int) - p.2.nTokens else 0).sum + (c.nPos - c.nTokens) := by
  induction hl with
  | nil => cases hc
  | @cons p l hp _ ih =>
    rw [map_cons, map_cons, sum_cons, sum_cons]
    rcases mem_cons.1 hc with rfl | hc
    · have hterm : ∀ q ∈ l, (if q.1 < i + c.nTokens then (q.2.nPos : Int) - q.2.nTokens else 0) =
          if q.1 < i then (q.2.nPos : Int) - q.2.nTokens else 0 := by
        intro q hq
        have := hp q hq
        dsimp only at this
        rw [if_neg (by omega), if_neg (by omega)]
      rw [map_congr_left hterm, if_pos (Nat.lt_add_of_pos_right c.nTokens_pos), if_neg (lt_irrefl _)]
      dsimp only
      omega
    · have := hp _ hc
      have := p.2.nTokens_pos
      rw [ih hc, if_pos (by omega), if_pos (by omega)]
      omega

section
variable (h : s.Placed) (hm : s.hasMtmd = true)
include h hm

lemma Placed.advance_spec (hb : s.Boundary i) (hi : i < s.tokens.length) :
    0 < (s.advance i).1 ∧ 0 < (s.advance i).2 ∧ s.Boundary (i + (s.advance i).1) ∧
      s.posAt (i + (s.advance i).1) = s.posAt i + (s.advance i).2 ∧
      ∀ n, s.Boundary n → i < n → i + (s.advance i).1 ≤ n := by
  unfold advance posAt
  rw [if_pos hm, if_pos hm]
  cases hfind : s.findChunk i with
  | none =>
    have htok : s.tokens[i]? ≠ some tokenNull := by
      intro htok
      obtain ⟨c, hc⟩ := h.chunk_at (hb.2 hm) htok
      rw [h.findChunk_eq.2 hc] at hfind
      cases hfind
    have hterm : ∀ p ∈ s.media, (if p.1 < i + 1 then (p.2.nPos : Int) - p.2.nTokens else 0) =
        if p.1 < i then (p.2.nPos : Int) - p.2.nTokens else 0 := by
      intro p hp
      have hne : p.1 ≠ i := by
        rintro rfl
        exact htok ((h.blocks p.1).2 ⟨p, hp, le_refl _, Nat.lt_add_of_pos_right p.2.nTokens_pos⟩)
      exact if_congr (by omega) rfl rfl
    refine ⟨one_pos, one_pos, ⟨hi, fun _ => h.not_inside_succ htok⟩, ?_, fun n _ hlt => hlt⟩
    rw [map_congr_left hterm]
    dsimp only
    omega
  | some c =>
    have hc := h.findChunk_eq.1 hfind
    refine ⟨c.nTokens_pos, c.nPos_pos, ⟨h.end_le hc, fun _ => h.not_inside_end hc⟩, ?_, ?_⟩
    · dsimp only
      rw [sum_chunk h.apart hc]
      omega
    · intro n hn hlt
      by_contra hless
      exact hn.2 hm ⟨(i, c), hc, hlt, by dsimp only at hless ⊢; omega⟩

lemma Placed.posAt_lt (hn : s.Boundary n) : ∀ {i : Nat}, s.Boundary i → i < n → s.posAt i < s.posAt n := by
  have hfuel : ∀ fuel i, n ≤ i + fuel → s.Boundary i → i < n → s.posAt i < s.posAt n := by
    intro fuel
    induction fuel with
    | zero =>
      intro i hle _ hlt
      omega
    | succ fuel ih =>
      intro i hle hi hlt
      obtain ⟨hwidth, hpos, hnext, hat, hleast⟩ := h.advance_spec hm hi (lt_of_lt_of_le hlt hn.1)
      rcases lt_or_eq_of_le (hleast n hn hlt) with hless | rfl
      · have := ih _ (by omega) hnext hless
        omega
      · omega
  intro i
  exact hfuel n i (Nat.le_add_left _ _)

lemma Placed.posAt_nonneg (hn : s.Boundary n) : 0 ≤ s.posAt n := by
  rcases Nat.eq_zero_or_pos n with rfl | hpos
  · rw [posAt_zero]
  · have := h.posAt_lt hm hn (boundary_zero s) hpos
    rw [posAt_zero] at this
    omega

lemma Placed.posAt_le (hn : s.Boundary n) (hi : s.Boundary i) (hle : i ≤ n) : s.posAt i ≤ s.posAt n := by
  rcases lt_or_eq_of_le hle with hlt | rfl
  · exact (h.posAt_lt hm hn hi hlt).le
  · exact le_rfl

lemma Placed.posLoop_eq (hn : s.Boundary n) : ∀ {fuel i : Nat},
    n ≤ i + fuel → i ≤ n → s.Boundary i → s.posAt i ≤ posMax → s.posLoop n fuel i (s.posAt i) = toInt (s.posAt n) := by
  intro fuel
  induction fuel with
  | zero =>
    intro i hfuel hle hi hfits
    obtain rfl : i = n := by omega
    have := h.posAt_nonneg hm hi
    rw [posMax] at hfits
    rw [posLoop, toInt, if_pos (by omega)]
  | succ fuel ih =>
    intro i hfuel hle hi hfits
    rw [posLoop]
    split
    · rename_i hlt
      obtain ⟨hwidth, -, hnext, hat, hleast⟩ := h.advance_spec hm hi (lt_of_lt_of_le hlt hn.1)
      have hnonneg := h.posAt_nonneg hm hnext
      have hmono := h.posAt_le hm hn hnext (hleast n hn hlt)
      rw [← hat]
      by_cases hbig : s.posAt (i + (s.advance i).1) ≤ posMax
      · have hint : toInt (s.posAt (i + (s.advance i).1)) = some (s.posAt (i + (s.advance i).1)) := by
          rw [posMax] at hbig
          rw [toInt, if_pos (by omega)]
        rw [hint, Option.bind_eq_bind, Option.bind_some]
        exact ih (by omega) (hleast n hn hlt) hnext hbig
      · rw [posMax] at hbig
        rw [toInt, if_neg (by omega), toInt, if_neg (by omega)]
        rfl
    · obtain rfl : i = n := by omega
      have := h.posAt_nonneg hm hi
      rw [posMax] at hfits
      rw [toInt, if_pos (by omega)]

lemma Placed.sizeLoop_eq (hall : s.posAt s.tokens.length ≤ posMax) :
    ∀ {fuel i : Nat}, s.tokens.length ≤ i + fuel → s.Boundary i → (i < s.tokens.length → s.posAt i < p) →
      ∃ n, s.sizeLoop p fuel i (s.posAt i) = some n ∧ s.Boundary n ∧ i ≤ n ∧
        (∀ m, s.Boundary m → i ≤ m → m < n → s.posAt m < p) ∧ (n < s.tokens.length → p ≤ s.posAt n) := by
  intro fuel
  induction fuel with
  | zero =>
    intro i hfuel hi _
    exact ⟨i, rfl, hi, le_refl _, fun m _ hle hlt => by omega, fun hlt => by omega⟩
  | succ fuel ih =>
    intro i hfuel hi hless
    rw [sizeLoop]
    split
    · rename_i hlt
      obtain ⟨hwidth, -, hnext, hat, hleast⟩ := h.advance_spec hm hi hlt
      have hnonneg := h.posAt_nonneg hm hnext
      have hmono := h.posAt_le hm h.boundary_length hnext hnext.1
      have hint : toInt (s.posAt (i + (s.advance i).1)) = some (s.posAt (i + (s.advance i).1)) := by
        rw [posMax] at hall
        rw [toInt, if_pos (by omega)]
      rw [← hat, hint, Option.bind_eq_bind, Option.bind_some]
      have hbefore : ∀ m, s.Boundary m → i ≤ m → m < i + (s.advance i).1 → s.posAt m < p := by
        intro m hmb hle hbelow
        rcases lt_or_eq_of_le hle with hgt | rfl
        · exact absurd (hleast m hmb hgt) (Nat.not_le.2 hbelow)
        · exact hless hlt
      split
      · rename_i hstop
        exact ⟨_, rfl, hnext, Nat.le_add_right _ _, hbefore, fun _ => hstop⟩
      · rename_i hgo
        obtain ⟨n, hrun, hn, hle, hbelow, hend⟩ := ih (by omega) hnext fun _ => Int.not_le.1 hgo
        refine ⟨n, hrun, hn, by omega, ?_, hend⟩
        intro m hmb hfrom hto
        by_cases hsplit : m < i + (s.advance i).1
        · exact hbefore m hmb hfrom hsplit
        · exact hbelow m hmb (by omega) hto
    · exact ⟨i, rfl, hi, le_refl _, fun m _ hle hlt => by omega, fun hlt => by omega⟩

end

lemma Placed.start_spec (h : s.hasMtmd = true → s.Placed) (hi : i < s.tokens.length) :
    s.Boundary (s.start i) ∧ ∀ n, s.Boundary n → (i < n ↔ s.start i < n) := by
  unfold start
  by_cases hm : s.hasMtmd = true
  · rw [if_pos hm]
    cases hfind : s.media.find? fun p => p.1 ≤ i ∧ i < p.1 + p.2.nTokens with
    | none =>
      refine ⟨⟨hi.le, ?_⟩, fun _ _ => Iff.rfl⟩
      rintro - ⟨p, hp, hlo, hhi⟩
      exact find?_eq_none.1 hfind p hp (decide_eq_true ⟨hlo.le, hhi⟩)
    | some p =>
      have hp := mem_of_find?_eq_some hfind
      have hin : p.1 ≤ i ∧ i < p.1 + p.2.nTokens := by simpa using find?_some hfind
      rw [Option.map_some, Option.getD_some]
      refine ⟨⟨((h hm).key_lt hp).le, ?_⟩, ?_⟩
      · rintro - ⟨q, hq, hlo, hhi⟩
        have := p.2.nTokens_pos
        rcases (h hm).eq_or hp hq with rfl | hle | hle <;> omega
      · intro n hn
        constructor
        · intro hlt
          omega
        · intro hlt
          by_contra hge
          exact hn.2 hm ⟨p, hp, hlt, by omega⟩
  · rw [if_neg hm]
    exact ⟨⟨hi.le, fun hm' => absurd hm' hm⟩, fun _ _ => Iff.rfl⟩

lemma below_eq (h : s.hasMtmd = true → s.Placed) {k : Nat} (hk : s.Boundary k)
    (hless : ∀ m, s.Boundary m → m < k → s.posAt m < p)
    (hmore : ∀ m, s.Boundary m → k ≤ m → m < s.tokens.length → p ≤ s.posAt m) : s.below p = k := by
  have hfilter : (Finset.range s.tokens.length).filter (fun i => s.posAt (s.start i) < p) = Finset.range k := by
    ext i
    rw [Finset.mem_filter, Finset.mem_range, Finset.mem_range]
    constructor
    · rintro ⟨hi, hlt⟩
      obtain ⟨hstart, hside⟩ := Placed.start_spec h hi
      rw [hside k hk]
      by_contra hge
      have := hmore _ hstart (Nat.not_lt.1 hge) ((hside _ ⟨le_rfl, ?_⟩).1 hi)
      · omega
      · rintro hm ⟨q, hq, -, hhi⟩
        exact absurd ((h hm).end_le hq) (Nat.not_le.2 hhi)
    · intro hi
      have hlen := lt_of_lt_of_le hi hk.1
      obtain ⟨hstart, hside⟩ := Placed.start_spec h hlen
      exact ⟨hlen, hless _ hstart ((hside k hk).1 hi)⟩
  rw [below, hfilter, Finset.card_range]

section
variable (h : s.Placed) (hm : s.hasMtmd = true)
include h hm

lemma Placed.sizeUpToPos_eq (hall : s.posAt s.tokens.length ≤ posMax)
    (hp : s.tokens ≠ [] → 0 < p) : s.sizeUpToPos p = some (s.below p) := by
  have hzero : 0 < s.tokens.length → s.posAt 0 < p := fun hpos => by
    rw [posAt_zero]
    exact hp (length_pos_iff.1 hpos)
  obtain ⟨k, hrun, hk, -, hless, hmore⟩ :=
    h.sizeLoop_eq hm hall (le_of_eq (zero_add _).symm) (boundary_zero s) hzero
  rw [posAt_zero] at hrun
  rw [sizeUpToPos, if_pos hm, hrun, below_eq (fun _ => h) hk (fun m hmb hlt => hless m hmb (Nat.zero_le _) hlt)]
  intro m hmb hle hlt
  exact (hmore (lt_of_le_of_lt hle hlt)).trans (h.posAt_le hm hmb hk hle)

lemma Placed.sizeUpToPos_zero (hne : s.tokens ≠ []) : s.sizeUpToPos 0 ≠ some 0 := by
  have hlen := length_pos_iff.2 hne
  obtain ⟨hwidth, hpos, -⟩ := h.advance_spec hm (boundary_zero s) hlen
  rw [sizeUpToPos, if_pos hm]
  obtain ⟨fuel, hfuel⟩ := Nat.exists_eq_succ_of_ne_zero hlen.ne'
  rw [hfuel, sizeLoop, if_pos hlen]
  cases hint : toInt (0 + (s.advance 0).2) with
  | none =>
    intro hsome
    cases hsome
  | some pos =>
    have hval := (toInt_eq hint).1
    rw [Option.bind_eq_bind, Option.bind_some, if_pos (by omega)]
    intro hsome
    have := Option.some.inj hsome
    omega

lemma Placed.posNext_eq (hn : s.Boundary n) : s.posNext n = toInt (s.posAt n) := by
  have hrun := h.posLoop_eq hm hn (le_of_eq (zero_add n).symm) (Nat.zero_le n) (boundary_zero s)
    (by rw [posAt_zero, posMax]; decide)
  rw [posAt_zero] at hrun
  rw [posNext, if_pos hm, if_neg (by omega), if_pos (Int.ofNat_le.2 hn.1), Int.toNat_natCast, hrun]

lemma Placed.posNext_all : s.posNext (-1) = some (wrap32 (s.posAt s.tokens.length)) := by
  have hfold : ∀ (l : List (Nat × MediaChunk)) (x : Int),
      l.foldl (fun res p => wrap32 (res + (p.2.nPos - p.2.nTokens))) (wrap32 x) =
        wrap32 (x + (l.map fun p => (p.2.nPos : Int) - p.2.nTokens).sum) := by
    intro l
    induction l with
    | nil =>
      intro x
      rw [foldl_nil, map_nil, sum_nil, add_zero]
    | cons p l ih =>
      intro x
      have hstep : wrap32 (wrap32 x + (p.2.nPos - p.2.nTokens)) = wrap32 (x + (p.2.nPos - p.2.nTokens)) := by
        unfold wrap32
        omega
      rw [foldl_cons, hstep, ih, map_cons, sum_cons, add_assoc]
  have hall : ∀ p ∈ s.media, (if p.1 < s.tokens.length then (p.2.nPos : Int) - p.2.nTokens else 0) =
      p.2.nPos - p.2.nTokens := fun p hp => if_pos (h.key_lt hp)
  rw [posNext, if_pos hm, if_pos (by decide), hfold, posAt, if_pos hm, map_congr_left hall]

end

end

/-- Tokens and positions agree at a boundary `n`, and at a position `p`, exactly if all positions fit, and with media
neither is 0 or there are no tokens. -/
theorem agrees_iff {s : ServerTokens} {n : Nat} {p : Int} (h : s.hasMtmd = true → s.Placed) (hn : s.Boundary n) :
    s.Agrees n p ↔ if s.hasMtmd then s.posAt s.tokens.length ≤ posMax ∧ (s.tokens = [] ∨ n ≠ 0 ∧ p ≠ 0)
      else (n : Int) ≤ posMax := by
  split
  · rename_i hm
    have hs := h hm
    have hend := hs.boundary_length
    have hfits : ∀ m, s.Boundary m → s.posAt s.tokens.length ≤ posMax → s.posNext m = some (s.posAt m) := by
      intro m hmb hall
      have hle := hs.posAt_le hm hend hmb hmb.1
      have hnonneg := hs.posAt_nonneg hm hmb
      rw [posMax] at hall
      rw [hs.posNext_eq hm hmb, toInt, if_pos (by omega)]
    constructor
    · intro hagree
      have hall : s.posAt s.tokens.length ≤ posMax := by
        obtain ⟨q, -, hq⟩ := hagree.total
        rw [hs.posNext_eq hm hend] at hq
        exact (toInt_eq hq).2.2
      refine ⟨hall, or_iff_not_imp_left.2 fun hne => ⟨?_, ?_⟩⟩
      · rintro rfl
        obtain ⟨q, hq, hback⟩ := hagree.back
        rw [hfits 0 hn hall, posAt_zero] at hq
        cases hq
        exact hs.sizeUpToPos_zero hm hne hback
      · rintro rfl
        have hcount := hagree.count le_rfl (by rw [posMax]; decide)
        rw [below_eq h (boundary_zero s) (fun m _ hlt => absurd hlt (Nat.not_lt_zero m))
          fun m hmb _ _ => hs.posAt_nonneg hm hmb] at hcount
        exact hs.sizeUpToPos_zero hm hne hcount
    · rintro ⟨hall, hcond⟩
      refine ⟨?_, ?_, ?_, ?_⟩
      · intro m hle hmb
        exact ⟨_, _, hfits m hmb hall, hfits n hn hall, hs.posAt_le hm hn hmb hle⟩
      · refine ⟨_, ?_, hfits _ hend hall⟩
        have hnonneg := hs.posAt_nonneg hm hend
        rw [hs.posNext_all hm, wrap32_of_fits (by omega) hall]
      · refine ⟨_, hfits n hn hall, ?_⟩
        have hpos : s.tokens ≠ [] → 0 < s.posAt n := by
          intro hne
          have := hs.posAt_lt hm hn (boundary_zero s) (Nat.pos_of_ne_zero (hcond.resolve_left hne).1)
          rwa [posAt_zero] at this
        rw [hs.sizeUpToPos_eq hm hall hpos, below_eq h hn (fun m hmb hlt => hs.posAt_lt hm hn hmb hlt)]
        exact fun m hmb hle _ => hs.posAt_le hm hmb hn hle
      · intro hnonneg _
        refine hs.sizeUpToPos_eq hm hall fun hne => ?_
        have := (hcond.resolve_left hne).2
        omega
  · rename_i hm
    have hnext : ∀ m : Nat, s.posNext m = some (wrap32 m) := fun m => by
      rw [posNext, if_neg hm, if_neg (by omega)]
    have hat : ∀ m, s.posAt m = m := fun m => by rw [posAt, if_neg hm, add_zero]
    have hbound : ∀ m, m ≤ s.tokens.length → s.Boundary m := fun m hle => ⟨hle, fun hm' => absurd hm' hm⟩
    constructor
    · intro hagree
      obtain ⟨q, r, hq, hr, hle⟩ := hagree.mono 0 (Nat.zero_le n) (boundary_zero s)
      obtain ⟨r', hr', hback⟩ := hagree.back
      rw [hnext] at hq hr hr'
      obtain rfl := Option.some.inj hq
      obtain rfl := Option.some.inj hr
      obtain rfl := Option.some.inj hr'
      rw [sizeUpToPos, if_neg hm] at hback
      have hmin := Option.some.inj hback
      rw [posMax]
      unfold wrap32 at hle hmin
      rw [toSize_of_nonneg (by omega) (by omega)] at hmin
      omega
    · intro hfits
      have hwrap : ∀ m ≤ n, wrap32 m = m := fun m hle => wrap32_of_fits (by omega) (by omega)
      refine ⟨?_, ?_, ?_, ?_⟩
      · intro m hle _
        refine ⟨_, _, hnext m, hnext n, ?_⟩
        rw [hwrap m hle, hwrap n le_rfl]
        exact Int.ofNat_le.2 hle
      · refine ⟨_, ?_, hnext _⟩
        rw [posNext, if_neg hm, if_pos (by decide)]
      · refine ⟨_, hnext n, ?_⟩
        rw [posMax] at hfits
        rw [hwrap n le_rfl, sizeUpToPos, if_neg hm, toSize_of_nonneg (by omega) (by omega), Int.toNat_natCast,
          min_eq_left hn.1]
      · intro hnonneg hp
        rw [posMax] at hp
        rw [sizeUpToPos, if_neg hm, toSize_of_nonneg hnonneg (by omega),
          below_eq h (hbound (min p.toNat s.tokens.length) (min_le_right _ _))]
        · intro m _ hlt
          rw [hat]
          omega
        · intro m _ hle hlt
          rw [hat]
          omega

lemma three_pos : 0 < 3 := Nat.succ_pos 2

/-- A picture of three tokens that takes two positions, and a word behind it. -/
def pictureWord : ServerTokens where
  hasMtmd := true
  media := [(0, ⟨"a", 3, 2, three_pos, Nat.two_pos⟩)]
  tokens := [tokenNull, tokenNull, tokenNull, 7]

lemma placed_pictureWord : pictureWord.Placed := by
  refine ⟨?_, pairwise_singleton _ _⟩
  intro i
  match i with
  | 0 => decide
  | 1 => decide
  | 2 => decide
  | 3 => decide
  | i + 4 => simp [pictureWord]

lemma boundary_pictureWord : pictureWord.Boundary 3 := ⟨by decide, fun _ => by decide⟩

theorem agrees_pictureWord : pictureWord.Agrees 3 2 ↔
    if pictureWord.hasMtmd then pictureWord.posAt pictureWord.tokens.length ≤ posMax ∧
      (pictureWord.tokens = [] ∨ 3 ≠ 0 ∧ (2 : Int) ≠ 0) else ((3 : Nat) : Int) ≤ posMax :=
  agrees_iff (fun _ => placed_pictureWord) boundary_pictureWord

/-- At position 0 the picture is counted. -/
theorem pictureWord_zero : pictureWord.posNext 0 = some 0 ∧ pictureWord.sizeUpToPos 0 = some 3 := by decide

end ServerTokens

end Mallana.Server
