import Mallana.Schema.Decimal
import Mallana.Schema.Literal

/-!
# The notation of grammars

What a text in the notation of `grammars/README.md` stands for, as rules of inference: `Reads` relates a text to the
language that it denotes, given the languages of the rules that it refers to. It counts the symbols that the parser
generates for a text, which the limit on repetitions depends on.
-/

namespace Mallana.Schema

open Tokenizer Grammar List

/-- How a text is read: as what an operator can follow, as one item, as a sequence, or as alternatives. -/
inductive Kind where
  | atom
  | item
  | seq
  | alts

/-- The texts of an operator, with its bounds. -/
inductive Operator : Nat → Option Nat → Str → Prop where
  | star : Operator 0 none [42]
  | plus : Operator 1 none [43]
  | opt : Operator 0 (some 1) [63]
  | exactly (m) : Operator m (some m) (123 :: decimal m ++ [125])
  | atLeast (m) : Operator m none (123 :: decimal m ++ [44, 125])
  | between (m n) : Operator m (some n) (123 :: decimal m ++ 44 :: decimal n ++ [125])

def powers (L : Language UInt32) (m : Nat) (n : Option Nat) : Language UInt32 :=
  {w | ∃ i, m ≤ i ∧ (∀ k ∈ n, i ≤ k) ∧ w ∈ L ^ i}

def generated (m : Nat) (n : Option Nat) : Nat := n.elim 1 (· - m)

def Plain (c : UInt32) : Prop := c.toNat < 128 ∧ c ≠ 45 ∧ c ≠ 92 ∧ c ≠ 93 ∧ c ≠ 94

instance (c : UInt32) : Decidable (Plain c) := inferInstanceAs (Decidable (_ ∧ _))

def PlainItem : CharItem → Prop
  | .one c => Plain c
  | .range a b => Plain a ∧ Plain b

instance : (i : CharItem) → Decidable (PlainItem i)
  | .one c => inferInstanceAs (Decidable (Plain c))
  | .range a b => inferInstanceAs (Decidable (Plain a ∧ Plain b))

def itemText : CharItem → Str
  | .one c => [c.toUInt8]
  | .range a b => [a.toUInt8, 45, b.toUInt8]

def classText (negated : Bool) (items : List CharItem) : Str :=
  91 :: (if negated then [94] else []) ++ items.flatMap itemText ++ [93]

def letters (f : UInt32 → Bool) : Language UInt32 := {w | ∃ c, w = [c] ∧ f c = true}

def classWords (negated : Bool) (first : CharItem) (more : List CharItem) : Language UInt32 :=
  letters fun c => (CharClass.chars negated first more).has c

def Blank (s : Str) : Prop := ∀ c ∈ s, c = 32

/-- A text denotes a language. `env` has the languages of the rules, and `ok` says which operators are allowed, by the
number of symbols that are generated for what they follow. -/
inductive Reads (ok : Nat → Nat → Option Nat → Prop) (env : Str → Language UInt32 → Prop) :
    Kind → Nat → Str → Language UInt32 → Prop where
  | cls {negated first more} : PlainItem first → (∀ i ∈ more, PlainItem i) →
      Reads ok env .atom 0 (classText negated (first :: more)) (classWords negated first more)
  | ref {name L} : env name L → name ≠ [] → (∀ c ∈ name, isWordChar c = true) → Reads ok env .atom 1 name L
  | group {k s t L} : Blank s → Reads ok env .alts k t L → Reads ok env .atom (k + 1) (40 :: s ++ t ++ [41]) L
  | lit {text cs} : cptsToUtf8 cs = some text → Reads ok env .item 0 (formatLiteral text) {cs}
  | atom {k t L} : Reads ok env .atom k t L → Reads ok env .item k t L
  | rep {k t L m n op} : Reads ok env .atom k t L → Operator m n op → ok k m n →
      Reads ok env .item (k + generated m n) (t ++ op) (powers L m n)
  | nil : Reads ok env .seq 0 [] 1
  | cons {j k s t u K L} : Reads ok env .item j u K → Blank s → (t ≠ [] → s ≠ []) → Reads ok env .seq k t L →
      Reads ok env .seq (j + k) (u ++ s ++ t) (K * L)
  | one {k t L} : Reads ok env .seq k t L → Reads ok env .alts k t L
  | more {j k s t u K L} : Reads ok env .seq j t K → Blank s → Reads ok env .alts k u L →
      Reads ok env .alts (j + k) (t ++ 124 :: s ++ u) (K + L)

section Texts
variable {ok : Nat → Nat → Option Nat → Prop} {env : Str → Language UInt32 → Prop} {kind : Kind} {j k : Nat}
  {t t' u : Str} {K L L' : Language UInt32}

lemma blank_one : Blank [32] := fun _ => mem_singleton.1

lemma blank_nil : Blank [] := fun _ h => (not_mem_nil h).elim

lemma Reads.congr (h : Reads ok env kind k t L) (ht : t = t') (hL : L = L') : Reads ok env kind k t' L' := ht ▸ hL ▸ h

lemma Reads.single (h : Reads ok env .item k t L) : Reads ok env .seq k t L := by
  have := h.cons blank_nil (fun hne => absurd rfl hne) .nil
  rwa [add_zero, append_nil, append_nil, mul_one] at this

lemma Reads.before (h : Reads ok env .item j u K) (h' : Reads ok env .seq k t L) :
    Reads ok env .seq (j + k) (u ++ 32 :: t) (K * L) :=
  (h.cons blank_one (fun _ => cons_ne_nil _ _) h').congr (by simp) rfl

lemma Reads.space {s : Str} (h : Reads ok env .seq k t L) (hs : Blank s) (ht : t ≠ []) :
    Reads ok env .seq k (t ++ s) L := by
  generalize hkind : Kind.seq = kind at h
  induction h with
  | nil => exact absurd rfl ht
  | @cons j k s' t u K L h hs' hsep h' _ ih =>
    cases t with
    | nil =>
      refine (h.cons (s := s' ++ s) (fun c hc => ?_) (fun hne => absurd rfl hne) h').congr (by simp) rfl
      exact (mem_append.1 hc).elim (hs' c) (hs c)
    | cons c t =>
      exact (h.cons hs' (fun _ => hsep (cons_ne_nil c t)) (ih (cons_ne_nil c t) rfl)).congr (by simp) rfl
  | _ => cases hkind

lemma Reads.or (h : Reads ok env .seq j u K) (h' : Reads ok env .alts k t L) (hu : u ≠ []) :
    Reads ok env .alts (j + k) (u ++ 32 :: 124 :: 32 :: t) (K + L) :=
  ((h.space blank_one hu).more blank_one h').congr (by simp) rfl

lemma Reads.mono {ok' : Nat → Nat → Option Nat → Prop} (h : Reads ok env kind k t L)
    (hok : ∀ k m n, ok k m n → ok' k m n) : Reads ok' env kind k t L := by
  induction h with
  | cls h h' => exact .cls h h'
  | ref h h' h'' => exact .ref h h' h''
  | group hs _ ih => exact .group hs ih
  | lit h => exact .lit h
  | atom _ ih => exact .atom ih
  | rep _ hop h ih => exact .rep ih hop (hok _ _ _ h)
  | nil => exact .nil
  | cons _ hs hsep _ ih ih' => exact .cons ih hs hsep ih'
  | one _ ih => exact .one ih
  | more _ hs _ ih ih' => exact .more ih hs ih'

end Texts

end Mallana.Schema
