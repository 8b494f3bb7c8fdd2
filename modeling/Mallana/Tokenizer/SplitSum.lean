import Mallana.Tokenizer.Split

/-!
# Pre-tokenization loses nothing

The lengths that an expression cuts a part into add up to the length of the part, whatever the tables of Unicode data say,
and for `std::regex` if its matches are in order and do not overlap.
-/

namespace Mallana.Tokenizer

open List

/-- The ends go up from `a` to `b`. -/
def Climb : Nat → List Nat → Nat → Prop
  | a, [], b => a = b
  | a, e :: ends, b => a ≤ e ∧ Climb e ends b

lemma Climb.le : ∀ {ends : List Nat} {a b : Nat}, Climb a ends b → a ≤ b := by
  intro ends
  induction ends with
  | nil =>
    intro a b h
    exact le_of_eq h
  | cons e ends ih =>
    intro a b h
    exact le_trans h.1 (ih h.2)

lemma Climb.append : ∀ {ends ends' : List Nat} {a b c : Nat}, Climb a ends b → Climb b ends' c →
    Climb a (ends ++ ends') c := by
  intro ends
  induction ends with
  | nil =>
    intro ends' a b c h h'
    cases h
    exact h'
  | cons e ends ih =>
    intro ends' a b c h h'
    exact ⟨h.1, ih h.2 h'⟩

lemma Climb.getLastD : ∀ {ends : List Nat} {a b : Nat}, Climb a ends b → ends.getLastD a = b := by
  intro ends
  induction ends with
  | nil =>
    intro a b h
    exact h
  | cons e ends ih =>
    intro a b h
    rw [getLastD_cons]
    exact ih h.2

lemma climb_singleton {a b : Nat} (h : a ≤ b) : Climb a [b] b := ⟨h, rfl⟩

lemma sum_lengths : ∀ {ends : List Nat} {a b : Nat}, Climb a ends b → (lengths a ends).sum = b - a := by
  intro ends
  induction ends with
  | nil =>
    intro a b h
    cases h
    simp [lengths]
  | cons e ends ih =>
    intro a b h
    have hsum := ih h.2
    have hle := h.2.le
    have hae := h.1
    rw [lengths]
    split
    · rw [sum_cons, hsum]
      omega
    · rw [hsum]
      omega

lemma pos_lengths : ∀ {ends : List Nat} {a : Nat}, ∀ n ∈ lengths a ends, 0 < n := by
  intro ends
  induction ends with
  | nil =>
    intro a n hn
    cases hn
  | cons e ends ih =>
    intro a n hn
    rw [lengths] at hn
    split at hn
    · rename_i hpos
      obtain rfl | hn := mem_cons.1 hn
      · exact hpos
      · exact ih n hn
    · exact ih n hn

lemma flatten_inj : ∀ {ls ms : List (List Nat)},
    List.Forall₂ (fun l m => l.sum = m.sum ∧ (∀ n ∈ l, 0 < n) ∧ ∀ n ∈ m, 0 < n) ls ms → ls.flatten = ms.flatten → ls = ms := by
  have zero : ∀ {x : List Nat}, x.sum = 0 → (∀ n ∈ x, 0 < n) → x = [] := by
    intro x hx hall
    cases x with
    | nil => rfl
    | cons n x =>
      rw [sum_cons] at hx
      have := hall n mem_cons_self
      omega
  intro ls ms h
  induction h with
  | nil =>
    intro _
    rfl
  | @cons l m ls ms hl hls ih =>
    intro heq
    obtain ⟨hsum, hposl, hposm⟩ := hl
    rw [flatten_cons, flatten_cons] at heq
    have hsame : l = m := by
      obtain ⟨x, hx, -⟩ | ⟨x, hx, -⟩ := append_eq_append_iff.1 heq
      · have hs := congrArg List.sum hx
        rw [sum_append, ← hsum] at hs
        have hnil := zero (by omega : x.sum = 0) fun n hn => hposm n (by rw [hx]; exact mem_append_right _ hn)
        rw [hx, hnil, append_nil]
      · have hs := congrArg List.sum hx
        rw [sum_append, hsum] at hs
        have hnil := zero (by omega : x.sum = 0) fun n hn => hposl n (by rw [hx]; exact mem_append_right _ hn)
        rw [hx, hnil, append_nil]
    rw [hsame] at heq
    rw [hsame, ih (append_cancel_left heq)]

/-- The body of a loop over `n` code points: the words go on from the position, and at least by one code point. -/
def GoesOn (n : Nat) (step : Nat → List Nat) : Prop := ∀ pos < n, ∃ b, Climb pos (step pos) b ∧ pos < b ∧ b ≤ n

variable {n : Nat} {p : Nat → Bool} {u : Unicode}

lemma climb_endsFrom {step : Nat → List Nat} (h : GoesOn n step) :
    ∀ {fuel pos : Nat}, pos ≤ n → n ≤ pos + fuel → Climb pos (endsFrom step n fuel pos) n := by
  intro fuel
  induction fuel with
  | zero =>
    intro pos h1 h2
    exact le_antisymm h1 h2
  | succ fuel ih =>
    intro pos h1 h2
    rw [endsFrom]
    split
    · rename_i hlt
      obtain ⟨b, hclimb, hgt, hle⟩ := h pos hlt
      rw [hclimb.getLastD]
      exact hclimb.append (ih hle (by omega))
    · exact le_antisymm h1 (by omega)

lemma sum_splitPart {step : List UInt32 → Nat → List Nat} {w : List UInt32} (h : GoesOn w.length (step w)) :
    (splitPart step w).sum = w.length := by
  rw [splitPart, sum_lengths (climb_endsFrom h (Nat.zero_le _) (by omega)), Nat.sub_zero]

lemma le_advance (p : Nat → Bool) : ∀ (fuel pos : Nat), pos ≤ advance p fuel pos := by
  intro fuel
  induction fuel with
  | zero =>
    intro pos
    exact le_refl _
  | succ fuel ih =>
    intro pos
    rw [advance]
    split
    · exact le_trans (Nat.le_succ _) (ih _)
    · exact le_refl _

lemma advance_le (h : ∀ k, n ≤ k → p k = false) : ∀ {fuel pos : Nat}, pos ≤ n → advance p fuel pos ≤ n := by
  intro fuel
  induction fuel with
  | zero =>
    intro pos hpos
    exact hpos
  | succ fuel ih =>
    intro pos hpos
    rw [advance]
    split
    · rename_i hp
      apply ih
      rcases lt_or_ge pos n with hlt | hge
      · exact hlt
      · rw [h pos hge] at hp
        cases hp
    · exact hpos

lemma advance_meets : ∀ {fuel pos k : Nat}, pos ≤ k → k < advance p fuel pos → p k = true := by
  intro fuel
  induction fuel with
  | zero =>
    intro pos k hle hlt
    exact absurd hlt (Nat.not_lt.2 hle)
  | succ fuel ih =>
    intro pos k hle hlt
    rw [advance] at hlt
    split at hlt
    · rename_i hp
      obtain rfl | hgt := Nat.eq_or_lt_of_le hle
      · exact hp
      · exact ih hgt hlt
    · exact absurd hlt (Nat.not_lt.2 hle)

lemma advance_eq {last : Nat} (hlast : p last = false) : ∀ {fuel pos : Nat}, pos ≤ last →
    last ≤ pos + fuel → (∀ k, pos ≤ k → k < last → p k = true) → advance p fuel pos = last := by
  intro fuel
  induction fuel with
  | zero =>
    intro pos hpos hfuel _
    exact le_antisymm hpos hfuel
  | succ fuel ih =>
    intro pos hpos hfuel hp
    rw [advance]
    obtain rfl | hlt := Nat.eq_or_lt_of_le hpos
    · rw [hlast, if_neg Bool.false_ne_true]
    · rw [if_pos (hp pos (le_refl _) hlt)]
      exact ih hlt (by omega) fun k hk => hp k (Nat.le_of_succ_le hk)

section
variable {u : Unicode} {w : List UInt32} {pos : Nat} {p : Nat → Bool}

lemma le_skipWhile : pos ≤ skipWhile w p pos := le_advance p _ _

lemma skipWhile_le (h : ∀ k, w.length ≤ k → p k = false) (hpos : pos ≤ w.length) : skipWhile w p pos ≤ w.length :=
  advance_le h hpos

lemma lt_skipWhile (hp : p pos = true) (hpos : pos < w.length) : pos < skipWhile w p pos := by
  unfold skipWhile
  cases hn : w.length with
  | zero => omega
  | succ n =>
    rw [advance, if_pos hp]
    exact le_advance p n (pos + 1)

lemma getCpt_out (h : w.length ≤ pos) : getCpt w pos = outOfRange := by
  rw [getCpt, getD_eq_getElem?_getD, getElem?_eq_none h]
  rfl

lemma getFlags_out (h : w.length ≤ pos) : getFlags u w pos = {} := if_neg (Nat.not_lt.2 h)

section
variable (k : Nat) (h : w.length ≤ k)
include k h

lemma letter_out : isLetterAt u w k = false := by
  rw [isLetterAt, getFlags_out h]

lemma number_out : isNumberAt u w k = false := by
  rw [isNumberAt, getFlags_out h]

lemma space_out : isSpaceAt u w k = false := by
  rw [isSpaceAt, getFlags_out h]

lemma other_out : isOtherAt u w k = false := by
  rw [isOtherAt, getFlags_out h]
  rfl

lemma newline_out : isNewlineAt w k = false := by
  rw [isNewlineAt, getCpt_out h]
  decide

lemma han_out : isHanAt w k = false := by
  rw [isHanAt, getCpt_out h]
  decide

lemma k2Letter_out : isK2LetterAt u w k = false := by
  rw [isK2LetterAt, letter_out k h]
  rfl

end

lemma climb_skipWhile {first : Nat} (hout : ∀ k, w.length ≤ k → p k = false) (hfirst : pos ≤ first) (hp : p first = true) :
    ∃ b, Climb pos [skipWhile w p first] b ∧ pos < b ∧ b ≤ w.length := by
  have hlt : first < w.length := by
    by_contra hge
    rw [hout first (Nat.le_of_not_lt hge)] at hp
    cases hp
  have hgt := lt_skipWhile hp hlt
  exact ⟨_, climb_singleton (by omega), by omega, skipWhile_le hout (le_of_lt hlt)⟩

lemma contraction_le (lower : UInt32 → UInt32) (h : 0 < contraction lower w pos) :
    pos + contraction lower w pos ≤ w.length := by
  unfold contraction at h ⊢
  split at h
  · rename_i h1
    simp only [h1, and_self, if_true] at h ⊢
    split
    · omega
    · split
      · split <;> omega
      · omega
  · exact absurd h (lt_irrefl 0)

lemma climb_contraction (lower : UInt32 → UInt32) (h : 0 < contraction lower w pos) :
    ∃ b, Climb pos [pos + contraction lower w pos] b ∧ pos < b ∧ b ≤ w.length :=
  ⟨_, climb_singleton (Nat.le_add_right _ _), by omega, contraction_le lower h⟩

lemma climb_spaceEnd (hpos : pos < w.length) : ∃ b, Climb pos [spaceEnd u w pos] b ∧ pos < b ∧ b ≤ w.length := by
  have hle := skipWhile_le (@space_out u w) (le_of_lt hpos)
  have : pos < spaceEnd u w pos ∧ spaceEnd u w pos ≤ w.length := by
    simp only [spaceEnd]
    split
    · omega
    · split <;> omega
  exact ⟨_, climb_singleton (le_of_lt this.1), this.1, this.2⟩

lemma newlineEnd_bounds (hpos : pos < w.length) (h : 0 < newlineEnd u w pos) :
    pos < newlineEnd u w pos ∧ newlineEnd u w pos ≤ w.length := by
  have hle := skipWhile_le (@space_out u w) (le_of_lt hpos)
  suffices fold : ∀ (l : List Nat) (last : Nat), (∀ k ∈ l, pos ≤ k ∧ k < w.length) →
      (last = 0 ∨ (pos < last ∧ last ≤ w.length)) →
      l.foldl (fun last k => if isNewlineAt w k then k + 1 else last) last = 0 ∨
        (pos < l.foldl (fun last k => if isNewlineAt w k then k + 1 else last) last ∧
          l.foldl (fun last k => if isNewlineAt w k then k + 1 else last) last ≤ w.length) by
    have hrange : ∀ k ∈ List.range' pos (skipWhile w (isSpaceAt u w) pos - pos), pos ≤ k ∧ k < w.length := by
      intro k hk
      rw [mem_range'_1] at hk
      omega
    rcases fold _ 0 hrange (.inl rfl) with hzero | hbounds
    · rw [newlineEnd, hzero] at h
      exact absurd h (lt_irrefl 0)
    · exact hbounds
  intro l
  induction l with
  | nil =>
    intro last _ hlast
    exact hlast
  | cons k l ih =>
    intro last hl hlast
    refine ih _ (fun k' hk' => hl k' (mem_cons_of_mem _ hk')) ?_
    have hk := hl k mem_cons_self
    beta_reduce
    split
    · right
      omega
    · exact hlast

lemma climb_spaceEnds (hpos : pos < w.length) : ∃ b, Climb pos (spaceEnds u w pos) b ∧ pos < b ∧ b ≤ w.length := by
  unfold spaceEnds
  split
  · rename_i h
    obtain ⟨h1, h2⟩ := newlineEnd_bounds hpos h
    exact ⟨_, climb_singleton (le_of_lt h1), h1, h2⟩
  · exact climb_spaceEnd hpos

lemma climb_numberEnds : ∀ {fuel pos ini prev : Nat}, pos ≤ w.length → prev ≤ pos →
    ∃ b, Climb prev (numberEnds u w fuel pos ini) b ∧ pos ≤ b ∧ b ≤ w.length ∧
      (isNumberAt u w pos = true → 0 < fuel → pos < b) := by
  intro fuel
  induction fuel with
  | zero =>
    intro pos ini prev hpos hprev
    exact ⟨pos, climb_singleton hprev, le_refl _, hpos, fun _ h => absurd h (lt_irrefl 0)⟩
  | succ fuel ih =>
    intro pos ini prev hpos hprev
    rw [numberEnds]
    split
    · rename_i hnum
      have hlt : pos < w.length := by
        by_contra hge
        rw [number_out pos (Nat.le_of_not_lt hge)] at hnum
        cases hnum
      split
      · obtain ⟨b, hclimb, hle, hb, -⟩ := @ih (pos + 1) (pos + 1) (pos + 1) hlt (le_refl _)
        exact ⟨b, ⟨by omega, hclimb⟩, by omega, hb, fun _ _ => hle⟩
      · obtain ⟨b, hclimb, hle, hb, -⟩ := @ih (pos + 1) ini prev hlt (by omega)
        exact ⟨b, hclimb, by omega, hb, fun _ _ => hle⟩
    · rename_i hnum
      exact ⟨pos, climb_singleton hprev, le_refl _, hpos, fun h => absurd h hnum⟩

lemma climb_numbers (hpos : pos < w.length) (h : isNumberAt u w pos = true) :
    ∃ b, Climb pos (numberEnds u w w.length pos pos) b ∧ pos < b ∧ b ≤ w.length := by
  obtain ⟨b, hclimb, -, hle, hgt⟩ := @climb_numberEnds u w w.length pos pos pos (le_of_lt hpos) (le_refl _)
  exact ⟨b, hclimb, hgt h (by omega), hle⟩

lemma climb_others {first : Nat} (hpos : pos < w.length) (hfirst : first = pos ∧ isOtherAt u w first = true ∨ first = pos + 1) :
    ∃ b, Climb pos [skipWhile w (isNewlineAt w) (skipWhile w (isOtherAt u w) first)] b ∧ pos < b ∧ b ≤ w.length := by
  have h1 : pos < skipWhile w (isOtherAt u w) first ∧ skipWhile w (isOtherAt u w) first ≤ w.length := by
    rcases hfirst with ⟨rfl, hother⟩ | rfl
    · exact ⟨lt_skipWhile hother hpos, skipWhile_le other_out (le_of_lt hpos)⟩
    · exact ⟨le_skipWhile, skipWhile_le other_out hpos⟩
  have h2 : skipWhile w (isOtherAt u w) first ≤ skipWhile w (isNewlineAt w) (skipWhile w (isOtherAt u w) first) :=
    le_skipWhile
  exact ⟨_, climb_singleton (by omega), by omega, skipWhile_le newline_out h1.2⟩

lemma behindSpace_cases (w : List UInt32) (pos : Nat) :
    behindSpace w pos = pos ∨ (getCpt w pos = 32 ∧ behindSpace w pos = pos + 1) := by
  unfold behindSpace
  split
  · rename_i h
    exact .inr ⟨h, rfl⟩
  · exact .inl rfl

lemma goesOn_gpt2 : GoesOn w.length (gpt2Ends u w) := by
  intro pos hpos
  have hfirst : pos ≤ behindSpace w pos := by
    rcases behindSpace_cases w pos with h | ⟨-, h⟩ <;> omega
  simp only [gpt2Ends]
  split
  · rename_i h
    exact climb_contraction id h
  split
  · rename_i h
    exact climb_skipWhile letter_out hfirst h
  split
  · rename_i h
    exact climb_skipWhile number_out hfirst h
  split
  · rename_i h
    exact climb_skipWhile other_out hfirst h
  · exact climb_spaceEnd hpos

lemma goesOn_llama3 : GoesOn w.length (llama3Ends u w) := by
  intro pos hpos
  simp only [llama3Ends]
  split
  · rename_i h
    exact climb_contraction u.tolower h
  split
  · have hle : pos + 1 ≤ skipWhile w (isLetterAt u w) (pos + 1) := le_skipWhile
    exact ⟨_, climb_singleton (by omega), hle, skipWhile_le letter_out hpos⟩
  split
  · rename_i h
    exact climb_numbers hpos h
  split
  · rename_i h
    apply climb_others hpos
    rcases behindSpace_cases w pos with hsame | ⟨-, hnext⟩
    · rw [hsame] at h ⊢
      exact .inl ⟨rfl, h⟩
    · exact .inr hnext
  · exact climb_spaceEnds hpos

lemma climb_k2Rest (hpos : pos < w.length) : ∃ b, Climb pos (k2Rest u w pos) b ∧ pos < b ∧ b ≤ w.length := by
  simp only [k2Rest]
  split
  · rename_i h
    exact climb_numbers hpos h
  split
  · rename_i h
    apply climb_others hpos
    rcases behindSpace_cases w pos with hsame | ⟨-, hnext⟩
    · rw [hsame] at h ⊢
      exact .inl ⟨rfl, h⟩
    · exact .inr hnext
  · exact climb_spaceEnds hpos

lemma goesOn_kimiK2 : GoesOn w.length (kimiK2Ends u w) := by
  intro pos hpos
  simp only [kimiK2Ends]
  split
  · rename_i h
    exact climb_skipWhile han_out (le_refl _) h
  split
  · rename_i h
    have hlt := of_decide_eq_true (Bool.and_eq_true_iff.1 h).2
    have hbound : pos ≤ behindLeading u w pos ∧ behindLeading u w pos ≤ w.length := by
      unfold behindLeading
      split <;> omega
    have hle := skipWhile_le (@k2Letter_out u w) hbound.2
    refine ⟨_, climb_singleton (by omega), by omega, ?_⟩
    rcases Nat.eq_zero_or_pos (contraction u.tolower w (skipWhile w (isK2LetterAt u w) (behindLeading u w pos)))
      with hzero | hcon
    · rw [hzero]
      exact hle
    · exact contraction_le u.tolower hcon
  · exact climb_k2Rest hpos

lemma climb_groupEnds : ∀ {fuel current last prev b : Nat} {tail : List Nat}, current ≤ last →
    (last - current) % 3 = 0 → last ≤ current + fuel → prev ≤ current → (current = last → prev = last) →
    Climb last tail b → Climb prev (groupEnds fuel current last ++ tail) b := by
  intro fuel
  induction fuel with
  | zero =>
    intro current last prev b tail hle _ hfuel _ hprev htail
    rw [groupEnds, nil_append, hprev (by omega)]
    exact htail
  | succ fuel ih =>
    intro current last prev b tail hle hmod hfuel hprev hend htail
    rw [groupEnds]
    split
    · exact ⟨by omega, ih (by omega) (by omega) (by omega) (le_refl _) (fun h => h) htail⟩
    · rw [nil_append, hend (by omega)]
      exact htail

lemma climb_afmoeEnds : ∀ {fuel pos prev : Nat}, pos ≤ w.length → prev ≤ pos →
    Climb prev (afmoeEnds u w fuel pos ++ [w.length]) w.length := by
  intro fuel
  induction fuel with
  | zero =>
    intro pos prev hpos hprev
    exact climb_singleton (by omega)
  | succ fuel ih =>
    intro pos prev hpos hprev
    rw [afmoeEnds]
    split
    · rename_i hlt
      split
      · rename_i hnum
        have hgt := lt_skipWhile hnum hlt
        have hle := skipWhile_le (@number_out u w) hpos
        generalize skipWhile w (isNumberAt u w) pos = last at hgt hle
        have rest := @ih last last hle (le_refl _)
        simp only [append_assoc]
        split
        · refine ⟨by omega, ?_⟩
          exact climb_groupEnds (by omega) (by omega) (by omega) (le_refl _) (fun h => h) rest
        · rename_i hzero
          exact climb_groupEnds (by omega) (by omega) (by omega) (by omega) (by omega) rest
      · exact ih hlt (by omega)
    · exact climb_singleton (by omega)

lemma sum_splitDigits (u : Unicode) (w : List UInt32) : (splitDigits u w).sum = w.length := by
  rw [splitDigits, sum_lengths (climb_afmoeEnds (Nat.zero_le _) (Nat.le_refl _)), Nat.sub_zero]

end

/-- Matches in order that do not overlap, from `start` on in `n` code points. -/
def MatchesInOrder (n : Nat) : Nat → List (Nat × Nat) → Prop
  | _, [] => True
  | start, (position, length) :: rest => start ≤ position ∧ position + length ≤ n ∧ MatchesInOrder n (position + length) rest

/-- What is assumed of `std::regex`. -/
def OrderedMatches (u : Unicode) : Prop := ∀ expr w, ∃ ms, u.regexMatches expr w = some ms ∧ MatchesInOrder w.length 0 ms

lemma sum_splitMatches : ∀ {ms : List (Nat × Nat)} {start : Nat}, start ≤ n → MatchesInOrder n start ms →
    (splitMatches n start ms).sum = n - start := by
  intro ms
  induction ms with
  | nil =>
    intro start hle _
    rw [splitMatches]
    split
    · simp
    · rw [sum_nil]
      omega
  | cons p ms ih =>
    intro start hle h
    obtain ⟨position, length⟩ := p
    obtain ⟨h1, h2, h3⟩ := h
    rw [splitMatches, sum_append, sum_cons, ih h2 h3]
    split
    · rw [sum_singleton]
      omega
    · rw [sum_nil]
      omega

lemma sum_flatMap {f : List UInt32 → List Nat} (h : ∀ w, (f w).sum = w.length) (ws : List (List UInt32)) :
    (ws.flatMap f).sum = ws.flatten.length := by
  induction ws with
  | nil => rfl
  | cons w ws ih => rw [flatMap_cons, sum_append, h, ih, flatten_cons, length_append]

lemma sum_splitCustom (u : Unicode) (e : CustomExpr) (ws : List (List UInt32)) :
    (splitCustom u e ws).sum = ws.flatten.length := by
  cases e with
  | gpt2 => exact sum_flatMap (fun w => sum_splitPart goesOn_gpt2) ws
  | llama3 => exact sum_flatMap (fun w => sum_splitPart goesOn_llama3) ws
  | kimiK2 => exact sum_flatMap (fun w => sum_splitPart goesOn_kimiK2) ws
  | afmoe => exact sum_flatMap (sum_splitDigits u) ws

lemma flatten_parts : ∀ {offsets : List Nat} {cpts : List UInt32}, offsets.sum = cpts.length →
    (parts cpts offsets).flatten = cpts := by
  intro offsets
  induction offsets with
  | nil =>
    intro cpts h
    exact (length_eq_zero_iff.1 h.symm).symm
  | cons n ns ih =>
    intro cpts h
    rw [sum_cons] at h
    rw [parts, flatten_cons, ih (by rw [length_drop]; omega), take_append_drop]

lemma splitRegex_sum (hu : OrderedMatches u) (expr : Str) (ws : List (List UInt32)) :
    ∃ ls, ws.mapM (fun w => (u.regexMatches expr w).map (splitMatches w.length 0)) = some ls ∧
      ls.flatten.sum = ws.flatten.length := by
  induction ws with
  | nil => exact ⟨[], rfl, rfl⟩
  | cons w ws ih =>
    obtain ⟨ls, hls, hsum⟩ := ih
    obtain ⟨ms, hms, horder⟩ := hu expr w
    refine ⟨splitMatches w.length 0 ms :: ls, ?_, ?_⟩
    · rw [mapM_cons, hms, hls]
      rfl
    · rw [flatten_cons, sum_append, sum_splitMatches (Nat.zero_le _) horder, hsum, flatten_cons,
        length_append, Nat.sub_zero]

lemma splitStep_sum (hu : OrderedMatches u) {cpts : List UInt32} {offsets : List Nat}
    (h : offsets.sum = cpts.length) (expr : Str) :
    ∃ offsets', splitStep u cpts offsets expr = some offsets' ∧ offsets'.sum = cpts.length := by
  have hflat := flatten_parts h
  obtain ⟨ls, hls, hsum⟩ := splitRegex_sum hu expr (parts cpts offsets)
  rw [hflat] at hsum
  cases he : customExpr expr with
  | none =>
    refine ⟨ls.flatten, ?_, hsum⟩
    simp only [splitStep, he, hls]
    rfl
  | some e =>
    by_cases hne : splitCustom u e (parts cpts offsets) = []
    · refine ⟨ls.flatten, ?_, hsum⟩
      simp only [splitStep, he, hls, hne]
      rfl
    · refine ⟨splitCustom u e (parts cpts offsets), ?_, by rw [sum_splitCustom, hflat]⟩
      simp only [splitStep, he]
      exact if_pos hne

/-- The expressions cut a text without loss. -/
theorem splitAll_sum (hu : OrderedMatches u) {cpts : List UInt32} :
    ∀ {exprs : List Str} {offsets : List Nat}, offsets.sum = cpts.length →
      ∃ offsets', exprs.foldlM (splitStep u cpts) offsets = some offsets' ∧ offsets'.sum = cpts.length := by
  intro exprs
  induction exprs with
  | nil =>
    intro offsets h
    exact ⟨offsets, rfl, h⟩
  | cons expr exprs ih =>
    intro offsets h
    obtain ⟨offsets', hstep, hsum⟩ := splitStep_sum hu h expr
    obtain ⟨offsets'', hrest, hsum'⟩ := ih hsum
    exact ⟨offsets'', by rw [foldlM_cons, hstep]; exact hrest, hsum'⟩

end Mallana.Tokenizer
