import Mathlib.Data.List.Basic

/-!
# Regular expressions with backtracking

Expressions over any type of characters, with the meaning of a backtracking matcher: an expression lists what may be left of
an input behind it, in the order in which the matcher tries it, so that alternatives are ordered and repetitions are greedy.
The first of the list is the match. A text is cut into words by matching again behind each match.

`first_seq` and the rules below it compute the match of a sequence from the matches of its parts; `first_many_seq_cons` is
the induction for a repetition of characters that has to give some of them back.
-/

namespace Mallana.Lib

open List Option

inductive Regex (α : Type) where
  | one (p : α → Bool)
  | done
  | seq (r q : Regex α)
  | alt (r q : Regex α)
  | many (r : Regex α)
  | notAhead (r : Regex α)

namespace Regex

variable {α : Type} {p p' : α → Bool} {r q : Regex α} {s t : List α} {c : α}

def opt (r : Regex α) : Regex α := alt r done

def plus (r : Regex α) : Regex α := seq r (many r)

def upToThree (r : Regex α) : Regex α := seq r (opt (seq r (opt r)))

/-- The repetitions of a matcher, as many as possible first. A repetition that takes nothing is not tried. -/
def again (f : List α → List (List α)) : Nat → List α → List (List α)
  | 0, s => [s]
  | fuel + 1, s => ((f s).filter fun t => t.length < s.length).flatMap (again f fuel) ++ [s]

/-- What may be left of an input behind an expression, in the order of the matcher. -/
def rests : Regex α → List α → List (List α)
  | one _, [] => []
  | one p, c :: t => if p c then [t] else []
  | done, s => [s]
  | seq r q, s => (rests r s).flatMap (rests q)
  | alt r q, s => rests r s ++ rests q s
  | many r, s => again (rests r) s.length s
  | notAhead r, s => if (rests r s).isEmpty then [s] else []

def first (r : Regex α) (s : List α) : Option (List α) := (rests r s).head?

/-- The lengths of the words, where a character at which nothing matches is a word. -/
def cut (r : Regex α) : Nat → List α → List Nat
  | 0, _ => []
  | _ + 1, [] => []
  | fuel + 1, c :: t =>
    match first r (c :: t) with
    | none => 1 :: cut r fuel t
    | some rest =>
      if rest.length < t.length + 1 then (t.length + 1 - rest.length) :: cut r fuel rest else 1 :: cut r fuel t

def words (r : Regex α) (s : List α) : List Nat := cut r s.length s

lemma rests_one_cons : rests (one p) (c :: t) = if p c then [t] else [] := rfl

lemma rests_done : rests done s = [s] := rfl

lemma rests_seq : rests (seq r q) s = (rests r s).flatMap (rests q) := rfl

lemma rests_alt : rests (alt r q) s = rests r s ++ rests q s := rfl

lemma rests_many : rests (many r) s = again (rests r) s.length s := rfl

lemma rests_notAhead : rests (notAhead r) s = if (rests r s).isEmpty then [s] else [] := rfl

@[simp] lemma first_one_nil : first (one p) [] = none := rfl

@[simp] lemma first_one_cons : first (one p) (c :: t) = if p c then some t else none := by
  rw [first, rests_one_cons]
  split <;> rfl

@[simp] lemma first_done : first done s = some s := rfl

@[simp] lemma first_alt : first (alt r q) s = (first r s).or (first q s) := head?_append

@[simp] lemma first_opt : first (opt r) s = some ((first r s).getD s) := by
  rw [opt, first_alt, first_done]
  cases first r s <;> rfl

lemma rests_eq_nil : rests r s = [] ↔ first r s = none := head?_eq_none_iff.symm

@[simp] lemma first_notAhead : first (notAhead r) s = if (first r s).isNone then some s else none := by
  have hnone : (rests r s).isEmpty = (first r s).isNone := by
    rw [Bool.eq_iff_iff, List.isEmpty_iff, isNone_iff_eq_none, rests_eq_nil]
  rw [← hnone, first, rests_notAhead]
  split <;> rfl

lemma first_seq : first (seq r q) s = (rests r s).findSome? (first q) := by
  rw [first, rests_seq]
  generalize rests r s = l
  induction l with
  | nil => rfl
  | cons t l ih =>
    rw [flatMap_cons, head?_append, ih, findSome?_cons, ← first]
    cases first q t <;> rfl

@[simp] lemma first_seq_one_nil : first (seq (one p) q) [] = none := rfl

@[simp] lemma first_seq_one_cons : first (seq (one p) q) (c :: t) = if p c then first q t else none := by
  rw [first_seq, rests_one_cons]
  split
  · rw [findSome?_singleton]
  · rfl

lemma first_seq_alt {r' : Regex α} : first (seq (alt r r') q) s = (first (seq r q) s).or (first (seq r' q) s) := by
  rw [first_seq, first_seq, first_seq, rests_alt, findSome?_append]

@[simp] lemma first_seq_done_left : first (seq done q) s = first q s := by
  rw [first_seq, rests_done, findSome?_singleton]

lemma first_seq_opt : first (seq (opt r) q) s = (first (seq r q) s).or (first q s) := by
  rw [opt, first_seq_alt, first_seq_done_left]

lemma first_seq_total (h : ∀ t, (first q t).isSome) : first (seq r q) s = (first r s).bind (first q) := by
  rw [first_seq, first]
  cases rests r s with
  | nil => rfl
  | cons t l =>
    obtain ⟨u, hu⟩ := isSome_iff_exists.1 (h t)
    rw [findSome?_cons, hu, head?_cons, bind_some, hu]

@[simp] lemma rests_many_nil : rests (many (one p)) [] = [[]] := rfl

@[simp] lemma rests_many_cons :
    rests (many (one p)) (c :: t) = if p c then rests (many (one p)) t ++ [c :: t] else [c :: t] := by
  rw [rests_many, rests_many, length_cons, again, rests_one_cons]
  split
  · rw [filter_cons_of_pos (by simp), filter_nil, flatMap_singleton]
  · rfl

@[simp] lemma first_many_seq_nil : first (seq (many (one p)) q) [] = first q [] := by
  rw [first_seq, rests_many_nil, findSome?_singleton]

@[simp] lemma first_many_seq_cons : first (seq (many (one p)) q) (c :: t) =
      if p c then (first (seq (many (one p)) q) t).or (first q (c :: t)) else first q (c :: t) := by
  simp only [first_seq, rests_many_cons]
  split
  · rw [findSome?_append, findSome?_singleton]
  · rw [findSome?_singleton]

@[simp] lemma first_many : first (many (one p)) s = some (s.dropWhile p) := by
  induction s with
  | nil => rfl
  | cons c t ih =>
    rw [first, rests_many_cons, dropWhile_cons]
    split
    · rw [head?_append, ← first, ih]
      rfl
    · rfl

@[simp] lemma first_plus : first (plus (one p)) s = if s.head?.any p then some (s.dropWhile p) else none := by
  cases s with
  | nil => rfl
  | cons c t =>
    rw [plus, first_seq_one_cons, first_many, dropWhile_cons, head?_cons, any_some]
    split <;> rfl

lemma first_many_notAhead : first (seq (many (one p)) (notAhead (one fun c => !p c))) s =
    if s.dropWhile p = [] then some []
    else if s.head?.any p then some (s.drop ((s.takeWhile p).length - 1)) else none := by
  induction s with
  | nil => rfl
  | cons c t ih =>
    rw [first_many_seq_cons, first_notAhead, first_one_cons, ih, head?_cons, any_some]
    by_cases hc : p c
    · rw [if_pos hc, if_pos hc, dropWhile_cons_of_pos hc, takeWhile_cons_of_pos hc, hc]
      split
      · rfl
      · cases t with
        | nil => rfl
        | cons d t =>
          rw [head?_cons, any_some]
          split
          · rename_i hd
            rw [takeWhile_cons_of_pos hd]
            rfl
          · rename_i hd
            rw [takeWhile_cons_of_neg hd]
            rfl
    · rw [if_neg hc, if_neg hc, dropWhile_cons_of_neg hc, if_neg (cons_ne_nil c t), Bool.eq_false_iff.2 hc]
      rfl

lemma first_many_plus (h : ∀ c, p' c = true → p c = true) : first (seq (many (one p)) (plus (one p'))) (c :: t) =
    if p c then (first (seq (many (one p)) (plus (one p'))) t).or (if p' c then some t else none) else none := by
  have begins : ∀ {s : List α} {c : α}, s.head? = some c → p' c = true →
      first (seq (many (one p)) (plus (one p'))) s ≠ none := by
    intro s c hs hc
    cases s with
    | nil => cases hs
    | cons d s =>
      cases hs
      rw [first_many_seq_cons, if_pos (h c hc), first_plus, head?_cons, any_some, if_pos hc]
      intro hnone
      cases (or_eq_none_iff.1 hnone).2
  rw [first_many_seq_cons, first_plus, head?_cons, any_some]
  by_cases hq : p' c
  · rw [if_pos (h c hq), if_pos (h c hq), if_pos hq, if_pos hq, dropWhile_cons_of_pos hq]
    cases hrest : first (seq (many (one p)) (plus (one p'))) t with
    | some s => rfl
    | none =>
      have hsame : t.dropWhile p' = t := by
        cases t with
        | nil => rfl
        | cons d t =>
          refine dropWhile_cons_of_neg fun hd => begins rfl hd hrest
      rw [hsame]
  · rw [if_neg hq, if_neg hq]

lemma first_upToThree : first (upToThree (one p)) s =
    if s.head?.any p then some (s.drop (min 3 (s.takeWhile p).length)) else none := by
  unfold upToThree
  cases s with
  | nil => rfl
  | cons a s =>
    rw [first_seq_one_cons, head?_cons, any_some]
    by_cases ha : p a
    · rw [if_pos ha, if_pos ha, first_opt, takeWhile_cons_of_pos ha]
      cases s with
      | nil => rfl
      | cons b s =>
        rw [first_seq_one_cons]
        by_cases hb : p b
        · rw [if_pos hb, first_opt, takeWhile_cons_of_pos hb]
          cases s with
          | nil => rfl
          | cons c s =>
            rw [first_one_cons]
            by_cases hc : p c
            · rw [if_pos hc, takeWhile_cons_of_pos hc, length_cons, length_cons, length_cons,
                Nat.min_eq_left (by omega)]
              rfl
            · rw [if_neg hc, takeWhile_cons_of_neg hc]
              rfl
        · rw [if_neg hb, takeWhile_cons_of_neg hb]
          rfl
    · rw [if_neg ha, if_neg ha]

lemma cut_eq : ∀ {fuel : Nat} {s : List α}, s.length ≤ fuel → cut r fuel s = words r s := by
  suffices h : ∀ {n fuel fuel' : Nat} {s : List α}, s.length ≤ n → s.length ≤ fuel → s.length ≤ fuel' →
      cut r fuel s = cut r fuel' s from
    @fun _ _ hs => h (Nat.le_refl _) hs (Nat.le_refl _)
  intro n
  induction n with
  | zero =>
    intro fuel fuel' s hn _ _
    obtain rfl := length_eq_zero_iff.1 (Nat.le_zero.1 hn)
    cases fuel <;> cases fuel' <;> rfl
  | succ n ih =>
    intro fuel fuel' s hn hfuel hfuel'
    cases s with
    | nil => cases fuel <;> cases fuel' <;> rfl
    | cons c t =>
      rw [length_cons] at hn hfuel hfuel'
      obtain ⟨fuel, rfl⟩ := Nat.exists_eq_succ_of_ne_zero (Nat.ne_of_gt (Nat.lt_of_lt_of_le (Nat.succ_pos _) hfuel))
      obtain ⟨fuel', rfl⟩ := Nat.exists_eq_succ_of_ne_zero (Nat.ne_of_gt (Nat.lt_of_lt_of_le (Nat.succ_pos _) hfuel'))
      have skip : cut r fuel t = cut r fuel' t := ih (by omega) (by omega) (by omega)
      simp only [cut]
      split
      · rw [skip]
      · split
        · rename_i rest _ hlt
          have hrest : cut r fuel rest = cut r fuel' rest := ih (by omega) (by omega) (by omega)
          rw [hrest]
        · rw [skip]

lemma words_match (h : first r s = some t) (hlt : t.length < s.length) :
    words r s = (s.length - t.length) :: words r t := by
  cases s with
  | nil => exact absurd hlt (Nat.not_lt_zero _)
  | cons c s =>
    rw [length_cons] at hlt ⊢
    rw [words, length_cons, cut, h]
    simp only [if_pos hlt]
    rw [cut_eq (by omega)]

end Regex

end Mallana.Lib
