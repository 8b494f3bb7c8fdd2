import Mallana.Peg.Spans

/-!
# Runs end

A match goes forward, and is empty only where the production of its parser can be. So without left recursion every run
within the input has a result with enough fuel, and its nodes are nested in its match.
-/

namespace Mallana.Peg

open Lib List Option
open Tokenizer (Str)

/-- A run of a parser at a position has a result with enough fuel. -/
def Ends (a : Arena) (c : Context) (id start : Nat) : Prop := ∀ ast, ∃ n out, parse a c n id start ast = some out

section
variable {a : Arena} {c : Context} {start pos child fuel count : Nat} {children nodes : List Nat} {ast : AstArena}
  {maxCount : Int}

lemma sequenceLoop_ends (hlt : ∀ child ∈ children, child < a.parsers.length)
    (hfirst : pos = start → ∀ A, PExpr.Begins a.production Terminal.MayEmpty (.all (children.map .call)) A →
      Ends a c A start) (hlater : ∀ id q, id < a.parsers.length → start < q → q ≤ c.input.length → Ends a c id q)
    (hpos : start ≤ pos) (hbound : pos ≤ c.input.length) :
    ∃ n out, sequenceLoop start (parse a c n) children pos nodes ast = some out := by
  induction children generalizing pos nodes ast with
  | nil => exact ⟨0, _, rfl⟩
  | cons child children ih =>
    obtain ⟨n, ⟨result, ast'⟩, hresult⟩ : ∃ n out, parse a c n child pos ast = some out := by
      obtain hgt | rfl := hpos.lt_or_eq
      · exact hlater child pos (hlt child mem_cons_self) hgt hbound ast
      · exact hfirst rfl child (.seqLeft .call) ast
    cases htype : result.type with
    | fail => exact ⟨n, _, sequenceLoop_cons.2 ⟨result, ast', hresult, .inl ⟨htype, rfl⟩⟩⟩
    | needMoreInput => exact ⟨n, _, sequenceLoop_cons.2 ⟨result, ast', hresult, .inr (.inl ⟨htype, rfl⟩)⟩⟩
    | success =>
      have hsound := parse_sound hbound hresult
      obtain ⟨_, hle, hstop, _⟩ := hsound.spans (by simp [htype])
      dsimp only at hle
      obtain ⟨m, out, hout⟩ := @ih result.stop (nodes ++ result.nodes) ast'
        (fun id hid => hlt id (mem_cons_of_mem _ hid))
        (fun heq A hA => hfirst (by omega) A (.seqRight (.call (hsound.empty htype (by dsimp only; omega))) hA))
        (hpos.trans hle) hstop
      refine ⟨max n m, out, sequenceLoop_cons.2 ⟨result, ast', ?_, .inr (.inr ⟨htype, ?_⟩)⟩⟩
      · exact parse_mono (le_max_left n m) hresult
      · exact sequenceLoop_mono (parse_mono (le_max_right n m)) hout

lemma choiceLoop_ends (h : ∀ child ∈ children, Ends a c child start) :
    ∃ n out, choiceLoop start (parse a c n) children ast = some out := by
  induction children generalizing ast with
  | nil => exact ⟨0, _, rfl⟩
  | cons child children ih =>
    obtain ⟨n, ⟨result, ast'⟩, hresult⟩ := h child mem_cons_self ast
    by_cases htype : result.type = .fail
    · obtain ⟨m, out, hout⟩ := @ih ast' fun id hid => h id (mem_cons_of_mem _ hid)
      refine ⟨max n m, out, choiceLoop_cons.2 ⟨result, ast', ?_, .inl ⟨htype, ?_⟩⟩⟩
      · exact parse_mono (le_max_left n m) hresult
      · exact choiceLoop_mono (parse_mono (le_max_right n m)) hout
    · exact ⟨n, _, choiceLoop_cons.2 ⟨result, ast', hresult, .inr ⟨htype, rfl⟩⟩⟩

lemma repetitionLoop_ends (hfirst : Open maxCount count → Ends a c child pos)
    (hlater : ∀ q, pos < q → q ≤ c.input.length → Ends a c child q) (hbound : pos ≤ c.input.length)
    (hfuel : c.input.length - pos < fuel) :
    ∃ n rep, repetitionLoop c (parse a c n) child maxCount fuel pos count nodes ast = some rep := by
  induction fuel generalizing pos count nodes ast with
  | zero => exact absurd hfuel (Nat.not_lt_zero _)
  | succ fuel ih =>
    by_cases hopen : Open maxCount count
    · obtain hlt | hend := lt_or_ge pos c.input.length
      · obtain ⟨n, ⟨result, ast'⟩, hresult⟩ := hfirst hopen ast
        cases htype : result.type with
        | fail =>
          exact ⟨n, _, repetitionLoop_succ.2 (.inr (.inr ⟨hopen, hlt, result, ast', hresult,
            .inr (.inr (.inr ⟨htype, rfl⟩))⟩))⟩
        | needMoreInput =>
          exact ⟨n, _, repetitionLoop_succ.2 (.inr (.inr ⟨hopen, hlt, result, ast', hresult,
            .inr (.inr (.inl ⟨htype, rfl⟩))⟩))⟩
        | success =>
          by_cases hstop : result.stop = pos
          · exact ⟨n, _, repetitionLoop_succ.2 (.inr (.inr ⟨hopen, hlt, result, ast', hresult,
              .inl ⟨htype, hstop, rfl⟩⟩))⟩
          · obtain ⟨_, hle, hin, _⟩ := (parse_sound hbound hresult).spans (by simp [htype])
            have hgt := lt_of_le_of_ne hle (Ne.symm hstop)
            obtain ⟨m, rep, hrep⟩ := @ih result.stop (count + 1) (nodes ++ result.nodes) ast'
              (fun _ => hlater _ hgt hin) (fun q hq => hlater q (hgt.trans hq)) hin (by dsimp only at hgt; omega)
            refine ⟨max n m, rep, repetitionLoop_succ.2 (.inr (.inr ⟨hopen, hlt, result, ast', ?_,
              .inr (.inl ⟨htype, hstop, ?_⟩)⟩))⟩
            · exact parse_mono (le_max_left n m) hresult
            · exact repetitionLoop_mono (parse_mono (le_max_right n m)) hrep
      · exact ⟨0, _, repetitionLoop_succ.2 (.inr (.inl ⟨hopen, hend, rfl⟩))⟩
    · exact ⟨0, _, repetitionLoop_succ.2 (.inl ⟨hopen, rfl⟩)⟩

lemma mem_of_begins_all {A : Nat}
    (h : PExpr.Begins a.production Terminal.MayEmpty (.all (children.map .call)) A) : A ∈ children := by
  induction children with
  | nil => cases h
  | cons child children ih =>
    cases h with
    | seqLeft h =>
      cases h
      exact mem_cons_self
    | seqRight _ h => exact mem_cons_of_mem _ (ih h)

lemma begins_first (h : child ∈ children) :
    PExpr.Begins a.production Terminal.MayEmpty (.first (children.map .call)) child := by
  induction children with
  | nil => cases h
  | cons id children ih =>
    obtain rfl | h := mem_cons.1 h
    · exact .altLeft .call
    · exact .altRight (ih h)

lemma upTo_ne_zero (h : Open maxCount 0) : upTo maxCount ≠ some 0 := by
  rw [upTo]
  split
  · nofun
  · rename_i hmax
    have hpos := h.resolve_left hmax
    simp
    omega

lemma executor_ends {node : Node} (hnode : node ∈ a.parsers) (hstart : start ≤ c.input.length)
    (hfirst : ∀ A, A < a.parsers.length → PExpr.Begins a.production Terminal.MayEmpty (node.production a) A →
      Ends a c A start) (hlater : ∀ id q, id < a.parsers.length → start < q → q ≤ c.input.length → Ends a c id q) :
    ∃ n out, executor c start (parse a c n) a node ast = some out := by
  have hchild : ∀ child ∈ node.children, child < a.parsers.length := fun child => a.children_lt node hnode child
  have hfuel : c.input.length - start < c.input.length + 1 := Nat.lt_succ_of_le (Nat.sub_le _ _)
  have hmap {F : Result × AstArena → Result × AstArena} {child : Nat} (h : Ends a c child start) :
      ∃ n out, (parse a c n child start ast).map F = some out := by
    obtain ⟨n, out, hout⟩ := h ast
    exact ⟨n, F out, map_eq_some_iff.2 ⟨out, hout, rfl⟩⟩
  cases node with
  | epsilon | start | end_ | literal | any | space => exact ⟨0, _, rfl⟩
  | sequence children =>
    exact sequenceLoop_ends hchild (fun _ A hA => hfirst A (hchild A (mem_of_begins_all hA)) hA) hlater le_rfl hstart
  | choice children =>
    exact choiceLoop_ends fun child hmem => hfirst child (hchild child hmem) (begins_first hmem)
  | repetition child minCount maxCount =>
    have hlt := hchild child mem_cons_self
    obtain ⟨n, rep, hrep⟩ := @repetitionLoop_ends a c start child (c.input.length + 1) 0 [] ast maxCount
      (fun hopen => hfirst child hlt (PExpr.between_begins (upTo_ne_zero hopen) .call)) (fun q => hlater child q hlt)
      hstart hfuel
    exact ⟨n, _, map_eq_some_iff.2 ⟨rep, hrep, rfl⟩⟩
  | and child => exact hmap (hfirst child (hchild child mem_cons_self) (.not (.not .call)))
  | not child => exact hmap (hfirst child (hchild child mem_cons_self) (.not .call))
  | chars pattern ranges negated minCount maxCount =>
    obtain ⟨stop, hstop, _⟩ := charsLoop_span hstart hfuel
    exact ⟨0, _, map_eq_some_iff.2 ⟨stop, hstop, rfl⟩⟩
  | string delimiter =>
    obtain ⟨stop, hstop, _⟩ := stringLoop_within hstart hfuel
    exact ⟨0, _, map_eq_some_iff.2 ⟨stop, hstop, rfl⟩⟩
  | until_ delimiters =>
    obtain ⟨stop, hstop, _⟩ := untilLoop_within hstart hfuel
    exact ⟨0, _, map_eq_some_iff.2 ⟨stop, hstop, rfl⟩⟩
  | schema child name raw => exact hfirst child (hchild child mem_cons_self) .call ast
  | rule name child trigger => exact hmap (hfirst child (hchild child mem_cons_self) .call)
  | ref name =>
    obtain ⟨id, hid⟩ := getRule_isSome hnode
    obtain ⟨n, out, hout⟩ := hfirst id (getRule_lt hid) (by
      rw [Node.production, hid]
      exact .call) ast
    exact ⟨n, out, bind_eq_some_iff.2 ⟨id, hid, hout⟩⟩
  | atomic child => exact hmap (hfirst child (hchild child mem_cons_self) .call)
  | tag child tag => exact hmap (hfirst child (hchild child mem_cons_self) .call)

/-- Without left recursion every run within the input has a result. -/
theorem parse_total {id : Nat} (h : ¬ LeftRecursive a) (hid : id < a.parsers.length) (hstart : start ≤ c.input.length) :
    Ends a c id start := by
  suffices hle : ∀ k start, start ≤ c.input.length → c.input.length - start = k → ∀ id, id < a.parsers.length →
      Ends a c id start from
    hle _ start hstart rfl id hid
  intro k
  induction k using Nat.strongRecOn with
  | ind k ih =>
    intro start hstart hk id
    induction id using (wellFounded_leftCall h).induction with
    | _ id ihid =>
      intro hid ast
      have hnode : a.parsers[id]? = some a.parsers[id] := getElem?_eq_getElem hid
      obtain ⟨n, out, hout⟩ := @executor_ends a c start ast a.parsers[id] (getElem_mem hid) hstart
        (fun A hA hbegins => ihid A (by rw [PExpr.LeftCall, production_eq hnode]; exact hbegins) hA)
        (fun id q hid hlt hle => ih (c.input.length - q) (by omega) q hle rfl id hid)
      exact ⟨n + 1, out, bind_eq_some_iff.2 ⟨_, hnode, hout⟩⟩

/-- The nodes of every result that is no failure are nested in its match, and without left recursion there is a result. -/
theorem parse_nested {id : Nat} (hleft : ¬ LeftRecursive a) (hid : id < a.parsers.length)
    (hstart : start ≤ c.input.length) : (∃ n out, parse a c n id start ast = some out) ∧
      ∀ n r ast', parse a c n id start ast = some (r, ast') → r.type ≠ .fail →
        r.start = start ∧ start ≤ r.stop ∧ r.stop ≤ c.input.length ∧ Behind c.input ast' start r.stop r.nodes := by
  refine ⟨parse_total hleft hid hstart ast, fun n r ast' hr htype => ?_⟩
  exact (parse_sound hstart hr).spans htype

end

/-- `r ::= (t)*` with a tag around `ab`. -/
def pairArena : Arena where
  parsers := [.rule [114] 1 false, .repetition 2 0 (-1), .tag 3 [116], .literal [97, 98]]
  rules := [([114], 0)]
  root := 0
  root_lt := by decide
  children_lt := by decide
  rules_lt := by decide
  refs := by simp

lemma leftCall_pairArena {A B : Nat} (h : PExpr.LeftCall pairArena.production Terminal.MayEmpty A B) : A < B := by
  rw [PExpr.LeftCall] at h
  rcases A with - | - | - | - | A
  · cases h
    decide
  · cases h with
    | star h =>
      cases h
      decide
  · cases h
    decide
  · cases h
  · cases h

lemma pairArena_leftRecursive : ¬ LeftRecursive pairArena := by
  rintro ⟨A, hA⟩
  have hlt : ∀ {B C : Nat}, Relation.TransGen (PExpr.LeftCall pairArena.production Terminal.MayEmpty) B C → B < C := by
    intro B C h
    induction h with
    | single h => exact leftCall_pairArena h
    | tail _ h ih => exact ih.trans (leftCall_pairArena h)
  exact absurd (hlt hA) (lt_irrefl A)

/-- The nodes for `abab`. -/
theorem parse_pairs : (∃ n out, parse pairArena ⟨[97, 98, 97, 98], false⟩ n 0 0 [] = some out) ∧
      ∀ n r ast', parse pairArena ⟨[97, 98, 97, 98], false⟩ n 0 0 [] = some (r, ast') → r.type ≠ .fail →
        r.start = 0 ∧ 0 ≤ r.stop ∧ r.stop ≤ 4 ∧ Behind [97, 98, 97, 98] ast' 0 r.stop r.nodes :=
  parse_nested pairArena_leftRecursive (by decide) (by decide)

end Mallana.Peg
