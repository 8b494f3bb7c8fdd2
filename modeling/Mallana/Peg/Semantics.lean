import Mallana.Lib.Parsing
import Mallana.Peg.Basic

/-!
# The documented productions

The expression that `peg-parser.h` gives for each parser, over the text that is parsed. A number of a parser is a rule of
the grammar. An arena is left recursive if its grammar is.
-/

namespace Mallana.Peg

open Lib
open Tokenizer (Str)

/-- What an expression matches at once. -/
inductive Terminal where
  | start
  | end_
  | literal (literal : Str)
  | any
  | chars (ranges : List CharRange) (negated : Bool)
  | byteIn (bytes : List UInt8)

def Terminal.MayEmpty : Terminal → Prop
  | .start | .end_ => True
  | .literal word => word = []
  | _ => False

abbrev Production := PExpr Terminal Nat

def upTo (maxCount : Int) : Option Nat := if maxCount = -1 then none else some maxCount.toNat

def hexDigits : List UInt8 := [48, 49, 50, 51, 52, 53, 54, 55, 56, 57, 97, 98, 99, 100, 101, 102, 65, 66, 67, 68, 69, 70]

def escapeProduction (delimiter : UInt8) : Production :=
  let hex := .term (.byteIn hexDigits)
  .seq (.term (.byteIn [92])) (.alt (.term (.byteIn (escapable delimiter)))
    (.seq (.term (.byteIn [117])) (.all [hex, hex, hex, hex])))

def stringProduction (delimiter : UInt8) : Production :=
  .seq (.star (.seq (.not (.term (.byteIn [delimiter])))
    (.alt (escapeProduction delimiter) (.seq (.not (.term (.byteIn [92]))) (.term .any)))))
    (.and (.term (.byteIn [delimiter])))

/-- `(!delim .)*` -/
def untilProduction (delimiters : List Str) : Production :=
  .star (.seq (.not (.first (delimiters.map fun word => .term (.literal word)))) (.term .any))

def Node.production (a : Arena) : Node → Production
  | .epsilon => .eps
  | .start => .term .start
  | .end_ => .term .end_
  | .literal word => .term (.literal word)
  | .sequence children => .all (children.map .call)
  | .choice children => .first (children.map .call)
  | .repetition child minCount maxCount => .between (.call child) minCount.toNat (upTo maxCount)
  | .and child => .and (.call child)
  | .not child => .not (.call child)
  | .any => .term .any
  | .space => .star (.term (.byteIn [32, 9, 10]))
  | .chars _ ranges negated minCount maxCount => .between (.term (.chars ranges negated)) minCount.toNat (upTo maxCount)
  | .string delimiter => stringProduction delimiter
  | .until_ delimiters => untilProduction delimiters
  | .schema child _ _ | .rule _ child _ | .atomic child | .tag child _ => .call child
  | .ref name => (a.getRule name).elim .fail .call

def Arena.production (a : Arena) (id : Nat) : Production := (a.parsers[id]?).elim .fail (Node.production a)

/-- A parser can run itself again without having matched anything. -/
def LeftRecursive (a : Arena) : Prop := PExpr.LeftRecursive a.production Terminal.MayEmpty

section
variable {a : Arena} {input : Str} {id : Nat} {node : Node}

lemma getRule_lt {name : Str} (h : a.getRule name = some id) : id < a.parsers.length := by
  obtain ⟨rule, hrule, rfl⟩ := Option.map_eq_some_iff.1 h
  exact a.rules_lt rule (List.mem_of_find?_eq_some hrule)

lemma getRule_isSome {name : Str} (h : .ref name ∈ a.parsers) : ∃ id, a.getRule name = some id := by
  obtain ⟨rule, hrule, rfl⟩ := List.mem_map.1 (a.refs name h)
  have hsome : (a.rules.find? fun r => r.1 = rule.1).isSome := by
    rw [List.find?_isSome]
    exact ⟨rule, hrule, decide_eq_true rfl⟩
  obtain ⟨found, hfound⟩ := Option.isSome_iff_exists.1 hsome
  refine ⟨found.2, ?_⟩
  rw [Arena.getRule, hfound]
  rfl

lemma production_eq (h : a.parsers[id]? = some node) : a.production id = node.production a := by
  rw [Arena.production, h]
  rfl

lemma continued_success {head c : UInt32} {k n : Nat} {bs : Str} (h : continued head k bs = .success c n) :
    n = k + 1 ∧ k ≤ bs.length := by
  unfold continued at h
  split at h
  next => cases h
  next hlen =>
    split at h
    next =>
      cases h
      exact ⟨rfl, Nat.le_of_not_lt hlen⟩
    next => cases h

lemma parseFrom_cases (b : UInt8) : (∀ bs, parseFrom b bs = .success b.toUInt32 1) ∨ (∀ bs, parseFrom b bs = .invalid) ∨
    ∃ head k, ∀ bs, parseFrom b bs = continued head k bs := by
  unfold parseFrom
  split
  next => exact .inl fun _ => rfl
  split
  next => exact .inr (.inl fun _ => rfl)
  split
  next => exact .inr (.inr ⟨_, _, fun _ => rfl⟩)
  split
  next => exact .inr (.inr ⟨_, _, fun _ => rfl⟩)
  split
  next => exact .inr (.inr ⟨_, _, fun _ => rfl⟩)
  next => exact .inr (.inl fun _ => rfl)

lemma parseUtf8Codepoint_success {bs : Str} {c : UInt32} {n : Nat} (h : parseUtf8Codepoint bs = .success c n) :
    0 < n ∧ n ≤ bs.length := by
  cases bs with
  | nil => cases h
  | cons b bs =>
    rw [parseUtf8Codepoint] at h
    rcases parseFrom_cases b with hone | hbad | ⟨head, k, hlong⟩
    · rw [hone] at h
      cases h
      exact ⟨Nat.one_pos, Nat.succ_le_succ (Nat.zero_le _)⟩
    · rw [hbad] at h
      cases h
    · rw [hlong] at h
      obtain ⟨rfl, hle⟩ := continued_success h
      exact ⟨Nat.succ_pos k, Nat.succ_le_succ hle⟩

lemma wellFounded_leftCall (h : ¬ LeftRecursive a) :
    WellFounded fun B A => PExpr.LeftCall a.production Terminal.MayEmpty A B := by
  refine PExpr.wellFounded_leftCall h ((Set.finite_lt_nat a.parsers.length).subset ?_)
  rintro id ⟨B, hB⟩
  refine Nat.lt_of_not_le fun hle => ?_
  have hfail : a.production id = .fail := by
    rw [Arena.production, List.getElem?_eq_none hle]
    rfl
  rw [PExpr.LeftCall, hfail] at hB
  cases hB

end

end Mallana.Peg
