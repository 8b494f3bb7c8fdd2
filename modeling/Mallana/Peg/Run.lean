import Mallana.Peg.Semantics
import Mathlib.Data.Option.Basic

/-!
# Runs of the executor

What one round of a loop does, and that more fuel does not change a result. The loops and scans of the executor go
forward within the input.
-/

namespace Mallana.Peg

open Lib Option
open Tokenizer (Str)

section
variable {a : Arena} {c : Context} {start pos child : Nat} {children nodes : List Nat} {ast : AstArena}
  {f g : Nat → Nat → AstArena → Option (Result × AstArena)} {out : Result × AstArena}

lemma sequenceLoop_cons : sequenceLoop start f (child :: children) pos nodes ast = some out ↔
    ∃ result ast', f child pos ast = some (result, ast') ∧
      (result.type = .fail ∧ out = (⟨.fail, start, result.stop, []⟩, ast') ∨
        result.type = .needMoreInput ∧ out = (⟨.needMoreInput, start, result.stop, nodes ++ result.nodes⟩, ast') ∨
        result.type = .success ∧
          sequenceLoop start f children result.stop (nodes ++ result.nodes) ast' = some out) := by
  simp only [sequenceLoop, bind_eq_bind, bind_eq_some_iff, Prod.exists]
  refine exists₂_congr fun result ast' => and_congr_right fun _ => ?_
  cases result.type <;> simp [eq_comm]

lemma choiceLoop_cons : choiceLoop start f (child :: children) ast = some out ↔
    ∃ result ast', f child start ast = some (result, ast') ∧
      (result.type = .fail ∧ choiceLoop start f children ast' = some out ∨
        result.type ≠ .fail ∧ out = (result, ast')) := by
  simp only [choiceLoop, bind_eq_bind, bind_eq_some_iff, Prod.exists]
  refine exists₂_congr fun result ast' => and_congr_right fun _ => ?_
  cases result.type <;> simp [eq_comm]

variable {maxCount : Int} {fuel count : Nat} {rep : (RepetitionStop × Nat × Nat × List Nat) × AstArena}

def Open (maxCount : Int) (count : Nat) : Prop := maxCount = -1 ∨ count < maxCount

lemma repetitionLoop_succ : repetitionLoop c f child maxCount (fuel + 1) pos count nodes ast = some rep ↔
    ¬ Open maxCount count ∧ rep = ((.full, pos, count, nodes), ast) ∨
      Open maxCount count ∧ c.input.length ≤ pos ∧ rep = ((.inputEnd, pos, count, nodes), ast) ∨
      Open maxCount count ∧ pos < c.input.length ∧ ∃ result ast', f child pos ast = some (result, ast') ∧
        (result.type = .success ∧ result.stop = pos ∧ rep = ((.empty, pos, count, nodes), ast') ∨
          result.type = .success ∧ result.stop ≠ pos ∧
            repetitionLoop c f child maxCount fuel result.stop (count + 1) (nodes ++ result.nodes) ast' = some rep ∨
          result.type = .needMoreInput ∧ rep = ((.needMore result.stop, pos, count, nodes ++ result.nodes), ast') ∨
          result.type = .fail ∧ rep = ((.failed, pos, count, nodes), ast')) := by
  rw [repetitionLoop]
  by_cases hopen : Open maxCount count
  · rw [if_pos (show maxCount = -1 ∨ count < maxCount from hopen)]
    by_cases hend : c.input.length ≤ pos
    · simp [hopen, hend, eq_comm]
    · rw [if_neg hend]
      simp only [hopen, hend, Nat.lt_of_not_le hend, not_true, false_and, true_and, false_or, bind_eq_bind,
        bind_eq_some_iff, Prod.exists]
      refine exists₂_congr fun result ast' => and_congr_right fun _ => ?_
      by_cases hstop : result.stop = pos <;> cases result.type <;> simp [hstop, eq_comm]
  · rw [if_neg (show ¬ (maxCount = -1 ∨ count < maxCount) from hopen)]
    simp [hopen, eq_comm]

lemma map_mono {β γ : Type} {x y : Option β} {F : β → γ} {r : γ} (hxy : ∀ b, x = some b → y = some b)
    (hr : x.map F = some r) : y.map F = some r := by
  obtain ⟨b, hb, rfl⟩ := map_eq_some_iff.1 hr
  rw [hxy b hb, map_some]

section
variable (h : ∀ {id pos ast out}, f id pos ast = some out → g id pos ast = some out)
include h

lemma sequenceLoop_mono (hr : sequenceLoop start f children pos nodes ast = some out) :
    sequenceLoop start g children pos nodes ast = some out := by
  induction children generalizing pos nodes ast with
  | nil => exact hr
  | cons child children ih =>
    rw [sequenceLoop_cons] at hr ⊢
    obtain ⟨result, ast', hresult, hfail | hmore | ⟨htype, hrest⟩⟩ := hr
    · exact ⟨result, ast', h hresult, .inl hfail⟩
    · exact ⟨result, ast', h hresult, .inr (.inl hmore)⟩
    · exact ⟨result, ast', h hresult, .inr (.inr ⟨htype, ih hrest⟩)⟩

lemma choiceLoop_mono (hr : choiceLoop start f children ast = some out) :
    choiceLoop start g children ast = some out := by
  induction children generalizing ast with
  | nil => exact hr
  | cons child children ih =>
    rw [choiceLoop_cons] at hr ⊢
    obtain ⟨result, ast', hresult, ⟨htype, hrest⟩ | hout⟩ := hr
    · exact ⟨result, ast', h hresult, .inl ⟨htype, ih hrest⟩⟩
    · exact ⟨result, ast', h hresult, .inr hout⟩

lemma repetitionLoop_mono (hr : repetitionLoop c f child maxCount fuel pos count nodes ast = some rep) :
    repetitionLoop c g child maxCount fuel pos count nodes ast = some rep := by
  induction fuel generalizing pos count nodes ast with
  | zero => cases hr
  | succ fuel ih =>
    rw [repetitionLoop_succ] at hr ⊢
    obtain hfull | hend | ⟨hopen, hlt, result, ast', hresult, hempty | ⟨htype, hstop, hrest⟩ | hother⟩ := hr
    · exact .inl hfull
    · exact .inr (.inl hend)
    · exact .inr (.inr ⟨hopen, hlt, result, ast', h hresult, .inl hempty⟩)
    · exact .inr (.inr ⟨hopen, hlt, result, ast', h hresult, .inr (.inl ⟨htype, hstop, ih hrest⟩)⟩)
    · exact .inr (.inr ⟨hopen, hlt, result, ast', h hresult, .inr (.inr hother)⟩)

lemma executor_mono {node : Node} (hr : executor c start f a node ast = some out) :
    executor c start g a node ast = some out := by
  cases node with
  | sequence children => exact sequenceLoop_mono h hr
  | choice children => exact choiceLoop_mono h hr
  | repetition child minCount maxCount => exact map_mono (fun _ hloop => repetitionLoop_mono h hloop) hr
  | and child | not child | rule name child trigger | atomic child | tag child tag =>
    exact map_mono (fun _ hresult => h hresult) hr
  | schema child name raw => exact h hr
  | ref name =>
    obtain ⟨id, hid, hresult⟩ := bind_eq_some_iff.1 hr
    exact bind_eq_some_iff.2 ⟨id, hid, h hresult⟩
  | epsilon | start | end_ | literal | any | space | chars | string | until_ => exact hr

end

lemma parse_mono {n m id : Nat} (hle : n ≤ m) (hr : parse a c n id start ast = some out) :
    parse a c m id start ast = some out := by
  induction n generalizing m id start ast out with
  | zero => cases hr
  | succ n ih =>
    cases m with
    | zero => exact absurd hle (Nat.not_succ_le_zero n)
    | succ m =>
      obtain ⟨node, hnode, hr⟩ := bind_eq_some_iff.1 hr
      refine bind_eq_some_iff.2 ⟨node, hnode, executor_mono (fun hresult => ?_) hr⟩
      exact ih (Nat.le_of_succ_le_succ hle) hresult

end

section
variable {input : Str} {start pos stop fuel count n : Nat} {maxCount : Int}

/-- A scan stays in the input; its match has at least `n` bytes. -/
def Scan.Within (input : Str) (pos n : Nat) : Scan → Prop
  | .matched stop => pos + n ≤ stop ∧ stop ≤ input.length
  | .cut stop => pos ≤ stop ∧ stop ≤ input.length
  | .differs => True

lemma Scan.Within.back {scan : Scan} {k : Nat} (h : scan.Within input (pos + k) n) : scan.Within input pos (k + n) := by
  cases scan with
  | matched stop => exact ⟨by have := h.1; omega, h.2⟩
  | cut stop => exact ⟨(Nat.le_add_right pos k).trans h.1, h.2⟩
  | differs => trivial

lemma Scan.Within.least {scan : Scan} {m : Nat} (h : scan.Within input pos n) (hle : m ≤ n) :
    scan.Within input pos m := by
  cases scan with
  | matched stop => exact ⟨(Nat.add_le_add_left hle pos).trans h.1, h.2⟩
  | cut stop => exact h
  | differs => trivial

lemma literalLoop_within {word : Str} (hpos : pos ≤ input.length) :
    (literalLoop input word pos).Within input pos word.length := by
  induction word generalizing pos with
  | nil => exact ⟨le_rfl, hpos⟩
  | cons b word ih =>
    rw [literalLoop]
    cases hget : input[pos]? with
    | none => exact ⟨le_rfl, hpos⟩
    | some d =>
      dsimp only
      split
      · rw [List.length_cons, add_comm]
        exact (ih (List.getElem?_eq_some_iff.1 hget).1).back
      · trivial

lemma parse_bound {codepoint : UInt32} (h : parseUtf8Codepoint (input.drop pos) = .success codepoint n) :
    0 < n ∧ pos + n ≤ input.length := by
  obtain ⟨hpos, hlen⟩ := parseUtf8Codepoint_success h
  rw [List.length_drop] at hlen
  omega

lemma anyScan_within (hpos : pos ≤ input.length) : (anyScan input pos).Within input pos 1 := by
  rw [anyScan]
  cases hparse : parseUtf8Codepoint (input.drop pos) with
  | incomplete => exact ⟨le_rfl, hpos⟩
  | invalid => trivial
  | success codepoint n =>
    obtain ⟨hn, hlen⟩ := parse_bound hparse
    exact ⟨Nat.add_le_add_left hn pos, hlen⟩

lemma hexLoop_within {k : Nat} (hpos : pos ≤ input.length) : (hexLoop input k pos).Within input pos 0 := by
  induction k generalizing pos with
  | zero => exact ⟨le_rfl, hpos⟩
  | succ k ih =>
    rw [hexLoop]
    cases hget : input[pos]? with
    | none => exact ⟨le_rfl, hpos⟩
    | some d =>
      dsimp only
      split
      · have hnext := @ih (pos + 1) (List.getElem?_eq_some_iff.1 hget).1
        exact hnext.back.least (Nat.zero_le _)
      · trivial

lemma stringChar_within {delimiter b : UInt8} (hpos : pos < input.length) :
    (stringChar input delimiter b pos).Within input pos 1 := by
  rw [stringChar]
  split
  · rw [handleEscapeSequence]
    cases hget : input[pos + 1]? with
    | none => exact ⟨Nat.le_succ _, hpos⟩
    | some d =>
      have hlt := (List.getElem?_eq_some_iff.1 hget).1
      dsimp only
      split
      · exact ⟨Nat.le_succ _, hlt⟩
      · split
        · have hhex : (hexLoop input 4 (pos + 2)).Within input (pos + 2) 0 := hexLoop_within hlt
          exact hhex.back.least (Nat.le_succ 1)
        · trivial
  · exact anyScan_within (le_of_lt hpos)

def StringStop.Within (input : Str) (pos : Nat) : StringStop → Prop
  | .closed stop | .unclosed stop | .cut stop => pos ≤ stop ∧ stop ≤ input.length
  | .differs => True

lemma stringLoop_within {delimiter : UInt8} (hpos : pos ≤ input.length) (hfuel : input.length - pos < fuel) :
    ∃ out, stringLoop input delimiter fuel pos = some out ∧ out.Within input pos := by
  induction fuel generalizing pos with
  | zero => exact absurd hfuel (Nat.not_lt_zero _)
  | succ fuel ih =>
    rw [stringLoop]
    cases hget : input[pos]? with
    | none => exact ⟨_, rfl, le_rfl, hpos⟩
    | some b =>
      have hpos' := (List.getElem?_eq_some_iff.1 hget).1
      have hchar : (stringChar input delimiter b pos).Within input pos 1 := stringChar_within hpos'
      dsimp only
      split
      · exact ⟨_, rfl, le_rfl, hpos⟩
      · cases hscan : stringChar input delimiter b pos with
        | matched mid =>
          rw [hscan] at hchar
          have hlt := hchar.1
          obtain ⟨out, hout, hwithin⟩ := ih hchar.2 (by omega)
          refine ⟨out, hout, ?_⟩
          cases out with
          | closed stop | unclosed stop | cut stop => exact ⟨(Nat.le_of_succ_le hlt).trans hwithin.1, hwithin.2⟩
          | differs => trivial
        | cut mid =>
          rw [hscan] at hchar
          exact ⟨_, rfl, hchar⟩
        | differs => exact ⟨_, rfl, trivial⟩

/-- A span of the input; no count without a distance. -/
structure Span (input : Str) (pos count pos' count' : Nat) : Prop where
  le : pos ≤ pos'
  bound : pos' ≤ input.length
  count : pos' = pos → count' = count

lemma Span.refl (hpos : pos ≤ input.length) : Span input pos count pos count := ⟨le_rfl, hpos, fun _ => rfl⟩

lemma Span.next {mid pos' count' : Nat} (hlt : pos < mid) (h : Span input mid (count + 1) pos' count') :
    Span input pos count pos' count' :=
  ⟨hlt.le.trans h.le, h.bound, fun heq => absurd (heq ▸ h.le) (Nat.not_le_of_lt hlt)⟩

lemma charsLoop_span {p : UInt32 → Bool} (hpos : pos ≤ input.length) (hfuel : input.length - pos < fuel) :
    ∃ out, charsLoop input p maxCount fuel pos count = some out ∧ Span input pos count out.2.1 out.2.2 := by
  induction fuel generalizing pos count with
  | zero => exact absurd hfuel (Nat.not_lt_zero _)
  | succ fuel ih =>
    rw [charsLoop]
    split
    · cases hparse : parseUtf8Codepoint (input.drop pos) with
      | incomplete | invalid => exact ⟨_, rfl, .refl hpos⟩
      | success codepoint n =>
        obtain ⟨hn, hlen⟩ := parse_bound hparse
        dsimp only
        split
        · obtain ⟨out, hout, hspan⟩ := @ih _ (count + 1) hlen (by omega)
          exact ⟨out, hout, hspan.next (by omega)⟩
        · exact ⟨_, rfl, .refl hpos⟩
    · exact ⟨_, rfl, .refl hpos⟩

lemma untilLoop_within {t : Lib.Trie UInt32 Unit} (hpos : pos ≤ input.length) (hfuel : input.length - pos < fuel) :
    ∃ out, untilLoop input t fuel pos = some out ∧ pos ≤ out.2 ∧ out.2 ≤ input.length := by
  induction fuel generalizing pos with
  | zero => exact absurd hfuel (Nat.not_lt_zero _)
  | succ fuel ih =>
    rw [untilLoop]
    split
    · cases hparse : parseUtf8Codepoint (input.drop pos) with
      | incomplete | invalid => exact ⟨_, rfl, le_rfl, hpos⟩
      | success codepoint n =>
        obtain ⟨hn, hlen⟩ := parse_bound hparse
        dsimp only
        cases checkAt t (input.drop pos) with
        | completeMatch | partialMatch => exact ⟨_, rfl, le_rfl, hpos⟩
        | noMatch =>
          obtain ⟨out, hout, hle, hbound⟩ := ih hlen (by omega)
          exact ⟨out, hout, by omega, hbound⟩
    · exact ⟨_, rfl, le_rfl, hpos⟩

lemma spaceLoop_le (bs : Str) : spaceLoop bs ≤ bs.length := by
  induction bs with
  | nil => exact le_rfl
  | cons b bs ih =>
    rw [spaceLoop]
    split
    · exact Nat.succ_le_succ ih
    · exact Nat.zero_le _

end

end Mallana.Peg
