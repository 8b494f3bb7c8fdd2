import Mallana.Peg.Run

/-!
# The spans of syntax trees

The nodes of a result stand one behind the other within its match, and so do the children of a node within its span.
A match is empty only where the production of its parser can be.
-/

namespace Mallana.Peg

open Lib List Option
open Tokenizer (Str)

/-- Nodes one behind the other between two positions: each has the text of its span, and such nodes as children. -/
inductive Behind (input : Str) (ast : AstArena) : Nat → Nat → List Nat → Prop where
  | nil {lo hi : Nat} : lo ≤ hi → Behind input ast lo hi []
  | cons {lo hi id : Nat} {ids : List Nat} {node : AstNode} : ast[id]? = some node →
      lo ≤ node.start → node.start ≤ node.stop → node.stop ≤ input.length →
      (node.start < input.length → node.text = (input.drop node.start).take (node.stop - node.start)) →
      Behind input ast node.start node.stop node.children → Behind input ast node.stop hi ids →
      Behind input ast lo hi (id :: ids)

section
variable {input : Str} {ast ast' : AstArena} {lo mid hi : Nat} {ids ids' : List Nat}

lemma Behind.le (h : Behind input ast lo hi ids) : lo ≤ hi := by
  induction h with
  | nil hle => exact hle
  | cons _ hlo hle _ _ _ _ _ ih => exact hlo.trans (hle.trans ih)

lemma Behind.mono (h : Behind input ast lo hi ids) (hgrows : ast <+: ast') : Behind input ast' lo hi ids := by
  induction h with
  | nil hle => exact .nil hle
  | cons hid hlo hle hbound htext _ _ ihc ih =>
    refine .cons ?_ hlo hle hbound htext ihc ih
    obtain ⟨more, rfl⟩ := hgrows
    rw [getElem?_append_left (List.getElem?_eq_some_iff.1 hid).1, hid]

lemma Behind.append (h : Behind input ast lo mid ids) (h' : Behind input ast mid hi ids') :
    Behind input ast lo hi (ids ++ ids') := by
  induction h with
  | nil hle =>
    cases h' with
    | nil hle' => exact .nil (hle.trans hle')
    | cons hid hlo hle' hbound htext hchildren hrest =>
      exact .cons hid (hle.trans hlo) hle' hbound htext hchildren hrest
  | cons hid hlo hle hbound htext hchildren _ _ ih => exact .cons hid hlo hle hbound htext hchildren (ih h')

end

/-- A result of an expression: the nodes that it carries stand between `start` and its end, which is not before `pos`.
A match that ends at `pos` is one of an expression that can match nothing. -/
structure Sound (a : Arena) (input : Str) (e : Production) (start pos : Nat) (ast : AstArena)
    (out : Result × AstArena) : Prop where
  grows : ast <+: out.2
  spans : out.1.type ≠ .fail → out.1.start = start ∧ pos ≤ out.1.stop ∧ out.1.stop ≤ input.length ∧
    Behind input out.2 start out.1.stop out.1.nodes
  empty : out.1.type = .success → out.1.stop = pos → PExpr.Nullable a.production Terminal.MayEmpty e

section
variable {a : Arena} {c : Context} {input : Str} {e : Production} {start pos stop child fuel count n : Nat}
  {children nodes : List Nat} {ast ast' : AstArena} {type : ResultType} {r : Result} {maxCount minCount : Int}
  {f : Nat → Nat → AstArena → Option (Result × AstArena)} {out : Result × AstArena}

lemma Sound.failed : Sound a input e start pos ast (⟨.fail, n, stop, nodes⟩, ast) :=
  ⟨prefix_refl _, fun h => absurd rfl h, nofun⟩

lemma Sound.leaf (hle : start ≤ stop) (hbound : stop ≤ input.length)
    (hempty : stop = start → PExpr.Nullable a.production Terminal.MayEmpty e) :
    Sound a input e start start ast (⟨type, start, stop, []⟩, ast) :=
  ⟨prefix_refl _, fun _ => ⟨rfl, hle, hbound, .nil hle⟩, fun _ => hempty⟩

lemma Sound.need (hle : start ≤ stop) (hbound : stop ≤ input.length) (h : Behind input ast start stop nodes) :
    Sound a input e start start ast (⟨.needMoreInput, start, stop, nodes⟩, ast) :=
  ⟨prefix_refl _, fun _ => ⟨rfl, hle, hbound, h⟩, nofun⟩

lemma shortage_sound (hle : start ≤ stop) (hbound : stop ≤ c.input.length) :
    Sound a c.input e start start ast (shortage c start stop, ast) := by
  rw [shortage]
  split
  · exact .need hle hbound (.nil hle)
  · exact .failed

lemma tooFew_sound (hbound : pos ≤ c.input.length) (h : Behind c.input ast start pos nodes) :
    Sound a c.input e start start ast (tooFew c start pos nodes, ast) := by
  rw [tooFew]
  split
  · exact .need h.le hbound h
  · exact .failed

lemma Scan.Within.sound {scan : Scan} (h : scan.Within c.input start n)
    (hempty : n = 0 → PExpr.Nullable a.production Terminal.MayEmpty e) :
    Sound a c.input e start start ast (scanResult c start scan, ast) := by
  cases scan with
  | matched stop => exact .leaf ((Nat.le_add_right start n).trans h.1) h.2 fun heq => hempty (by have := h.1; omega)
  | cut stop => exact shortage_sound h.1 h.2
  | differs => exact .failed

lemma StringStop.Within.sound {stop : StringStop} (h : stop.Within c.input start)
    (hempty : PExpr.Nullable a.production Terminal.MayEmpty e) :
    Sound a c.input e start start ast (stringResult c start stop, ast) := by
  cases stop with
  | closed stop => exact .leaf h.1 h.2 fun _ => hempty
  | unclosed stop =>
    rw [stringResult]
    split
    · exact .need h.1 h.2 (.nil h.1)
    · exact .failed
  | cut stop => exact shortage_sound h.1 h.2
  | differs => exact .failed

lemma untilResult_sound {out : UntilStop × Nat} (hle : start ≤ out.2) (hbound : out.2 ≤ c.input.length)
    (hempty : PExpr.Nullable a.production Terminal.MayEmpty e) :
    Sound a c.input e start start ast (untilResult c start out, ast) := by
  obtain ⟨reason, pos⟩ := out
  cases reason with
  | finished =>
    rw [untilResult]
    split <;> exact .leaf hle hbound fun _ => hempty
  | incomplete => exact shortage_sound hle hbound
  | invalid => exact .failed
  | completeMatch | partialMatch => exact .leaf hle hbound fun _ => hempty

lemma Span.nullable {m : Option Nat} (h : Span input start 0 stop count) (hmin : minCount.toNat ≤ count)
    (heq : stop = start) : PExpr.Nullable a.production Terminal.MayEmpty (.between e minCount.toNat m) := by
  have hzero : minCount.toNat = 0 := Nat.le_zero.1 (h.count heq ▸ hmin)
  rw [hzero]
  exact PExpr.between_nullable

lemma charsResult_sound {m : Option Nat} {out : CharsStop × Nat × Nat} (h : Span c.input start 0 out.2.1 out.2.2) :
    Sound a c.input (.between e minCount.toNat m) start start ast (charsResult c start minCount out, ast) := by
  rw [charsResult]
  split
  · cases out.1 with
    | incomplete => exact shortage_sound h.le h.bound
    | invalid => exact .failed
    | full | mismatch => exact tooFew_sound h.bound (.nil h.le)
  · exact .leaf h.le h.bound (h.nullable (by omega))

section
variable
  (hf : ∀ {id pos ast out}, pos ≤ input.length → f id pos ast = some out → Sound a input (.call id) pos pos ast out)
include hf

lemma sequenceLoop_sound
    (hpos : pos ≤ input.length) (h : Behind input ast start pos nodes)
    (hr : sequenceLoop start f children pos nodes ast = some out) :
    Sound a input (.all (children.map .call)) start pos ast out := by
  induction children generalizing pos nodes ast with
  | nil =>
    cases hr
    exact ⟨prefix_refl _, fun _ => ⟨rfl, le_rfl, hpos, h⟩, fun _ _ => .eps⟩
  | cons child children ih =>
    obtain ⟨result, ast', hresult, ⟨_, rfl⟩ | ⟨htype, rfl⟩ | ⟨htype, hrest⟩⟩ := sequenceLoop_cons.1 hr
    · exact ⟨(hf hpos hresult).grows, fun hne => absurd rfl hne, nofun⟩
    · have hchild := hf hpos hresult
      obtain ⟨_, hle, hbound, hbehind⟩ := hchild.spans (by simp [htype])
      exact ⟨hchild.grows, fun _ => ⟨rfl, hle, hbound, (h.mono hchild.grows).append hbehind⟩, nofun⟩
    · have hchild := hf hpos hresult
      obtain ⟨_, hle, hbound, hbehind⟩ := hchild.spans (by simp [htype])
      have hrest := ih hbound ((h.mono hchild.grows).append hbehind) hrest
      refine ⟨hchild.grows.trans hrest.grows, fun hne => ?_, fun hsuccess heq => ?_⟩
      · obtain ⟨hstart, hle', hbound', hbehind'⟩ := hrest.spans hne
        exact ⟨hstart, hle.trans hle', hbound', hbehind'⟩
      · have hle' := (hrest.spans (by simp [hsuccess])).2.1
        exact .seq (hchild.empty htype (by omega)) (hrest.empty hsuccess (by omega))

lemma choiceLoop_sound
    (hstart : start ≤ input.length) (hr : choiceLoop start f children ast = some out) :
    Sound a input (.first (children.map .call)) start start ast out := by
  induction children generalizing ast with
  | nil =>
    cases hr
    exact .failed
  | cons child children ih =>
    obtain ⟨result, ast', hresult, ⟨_, hrest⟩ | ⟨_, rfl⟩⟩ := choiceLoop_cons.1 hr
    · have hrest := ih hrest
      exact ⟨(hf hstart hresult).grows.trans hrest.grows, hrest.spans, fun hs heq => .altRight (hrest.empty hs heq)⟩
    · have hchild := hf hstart hresult
      exact ⟨hchild.grows, hchild.spans, fun hs heq => .altLeft (hchild.empty hs heq)⟩

end

/-- What a repetition has come to: the nodes stand within it, also where it needs more input. -/
structure Repeated (input : Str) (start pos count : Nat) (ast : AstArena)
    (rep : (RepetitionStop × Nat × Nat × List Nat) × AstArena) : Prop where
  grows : ast <+: rep.2
  span : Span input pos count rep.1.2.1 rep.1.2.2.1
  nodes : (∀ stop, rep.1.1 ≠ .needMore stop) → Behind input rep.2 start rep.1.2.1 rep.1.2.2.2
  needed : ∀ stop, rep.1.1 = .needMore stop → stop ≤ input.length ∧ Behind input rep.2 start stop rep.1.2.2.2

lemma repetitionLoop_sound {rep : (RepetitionStop × Nat × Nat × List Nat) × AstArena}
    (hf : ∀ {id pos ast out}, pos ≤ c.input.length → f id pos ast = some out →
      Sound a c.input (.call id) pos pos ast out)
    (hpos : pos ≤ c.input.length) (h : Behind c.input ast start pos nodes)
    (hr : repetitionLoop c f child maxCount fuel pos count nodes ast = some rep) :
    Repeated c.input start pos count ast rep := by
  induction fuel generalizing pos count nodes ast with
  | zero => cases hr
  | succ fuel ih =>
    rw [repetitionLoop_succ] at hr
    obtain ⟨_, rfl⟩ | ⟨_, _, rfl⟩ | ⟨_, hlt, result, ast', hresult, hr⟩ := hr
    · exact ⟨prefix_refl _, .refl hpos, fun _ => h, nofun⟩
    · exact ⟨prefix_refl _, .refl hpos, fun _ => h, nofun⟩
    · have hchild := hf hpos hresult
      have hold := h.mono hchild.grows
      obtain ⟨_, _, rfl⟩ | ⟨htype, hstop, hrest⟩ | ⟨htype, rfl⟩ | ⟨_, rfl⟩ := hr
      · exact ⟨hchild.grows, .refl hpos, fun _ => hold, nofun⟩
      · obtain ⟨_, hle, hbound, hbehind⟩ := hchild.spans (by simp [htype])
        have hrest := ih hbound (hold.append hbehind) hrest
        exact ⟨hchild.grows.trans hrest.grows, hrest.span.next (lt_of_le_of_ne hle (Ne.symm hstop)), hrest.nodes, hrest.needed⟩
      · obtain ⟨_, _, hbound, hbehind⟩ := hchild.spans (by simp [htype])
        refine ⟨hchild.grows, .refl hpos, fun hne => absurd rfl (hne _), fun stop heq => ?_⟩
        cases heq
        exact ⟨hbound, hold.append hbehind⟩
      · exact ⟨hchild.grows, .refl hpos, fun _ => hold, nofun⟩

lemma repetitionResult_sound {m : Option Nat} {rep : (RepetitionStop × Nat × Nat × List Nat) × AstArena}
    (h : Repeated c.input start start 0 ast rep) : Sound a c.input (.between e minCount.toNat m) start start ast
      (Prod.map (repetitionResult c start minCount) id rep) := by
  obtain ⟨⟨reason, pos, count, nodes⟩, ast'⟩ := rep
  have main (hnodes : Behind c.input ast' start pos nodes) : Sound a c.input (.between e minCount.toNat m) start start ast'
      (if 0 < minCount ∧ count < minCount then tooFew c start pos nodes else ⟨.success, start, pos, nodes⟩, ast') := by
    split
    · exact tooFew_sound h.span.bound hnodes
    · exact ⟨prefix_refl _, fun _ => ⟨rfl, h.span.le, h.span.bound, hnodes⟩,
        fun _ heq => h.span.nullable (show minCount.toNat ≤ count by omega) heq⟩
  have grown {out : Result × AstArena} (hout : Sound a c.input (.between e minCount.toNat m) start start ast' out) :
      Sound a c.input (.between e minCount.toNat m) start start ast out :=
    ⟨h.grows.trans hout.grows, hout.spans, hout.empty⟩
  cases reason with
  | needMore stop =>
    obtain ⟨hbound, hbehind⟩ := h.needed stop rfl
    exact grown (.need hbehind.le hbound hbehind)
  | full | inputEnd | empty | failed => exact grown (main (h.nodes nofun))

section
variable (h : Sound a c.input e start start ast out)
include h

lemma nodeResult_sound {rule tag : Str} :
    Sound a c.input e start start ast (nodeResult c rule tag out) := by
  obtain ⟨result, ast'⟩ := out
  rw [nodeResult]
  split
  · exact h
  · rename_i hne
    obtain ⟨hstart, hle, hbound, hbehind⟩ := h.spans hne
    dsimp only at hstart hle hbound hbehind
    refine ⟨h.grows.trans (prefix_append _ _), fun _ => ⟨hstart, hle, hbound, ?_⟩, h.empty⟩
    refine .cons getElem?_concat_length hstart.ge (hstart.le.trans hle) hbound (fun hlt => if_pos hlt) ?_
      (.nil le_rfl)
    dsimp only
    rw [hstart]
    exact hbehind.mono (prefix_append _ _)

lemma atomicResult_sound :
    Sound a c.input e start start ast (Prod.map atomicResult id out) := by
  obtain ⟨result, ast'⟩ := out
  rw [Prod.map, atomicResult]
  split
  · rename_i htype
    obtain ⟨hstart, hle, hbound, _⟩ := h.spans (by simp [htype])
    exact ⟨h.grows, fun _ => ⟨hstart, hle, hbound, .nil hle⟩, h.empty⟩
  · exact h

lemma ahead_sound {F : Result → Result} (hstart : start ≤ c.input.length)
    (hF : ∀ result, (F result).start = start ∧ (F result).stop = start ∧ (F result).nodes = []) {e' : Production}
    (hempty : PExpr.Nullable a.production Terminal.MayEmpty e') :
    Sound a c.input e' start start ast (Prod.map F id out) := by
  obtain ⟨hs, hp, hn⟩ := hF out.1
  refine ⟨h.grows, fun _ => ⟨hs, hp.ge, hp.le.trans hstart, ?_⟩, fun _ _ => hempty⟩
  rw [Prod.map_fst, hn, hp]
  exact .nil le_rfl

end

/-- What the executor returns is a derivation. -/
lemma executor_sound {node : Node} (hf : ∀ {id pos ast out}, pos ≤ c.input.length → f id pos ast = some out →
      Sound a c.input (.call id) pos pos ast out)
    (hstart : start ≤ c.input.length) (hr : executor c start f a node ast = some out) :
    Sound a c.input (node.production a) start start ast out := by
  have hfuel : c.input.length - start < c.input.length + 1 := Nat.lt_succ_of_le (Nat.sub_le _ _)
  cases node with
  | epsilon =>
    cases hr
    exact .leaf le_rfl hstart fun _ => .eps
  | start | end_ =>
    cases hr
    exact .leaf le_rfl hstart fun _ => .term trivial
  | literal word =>
    cases hr
    exact (literalLoop_within hstart).sound fun hlen => .term (eq_nil_of_length_eq_zero hlen)
  | sequence children => exact sequenceLoop_sound hf hstart (.nil le_rfl) hr
  | choice children => exact choiceLoop_sound hf hstart hr
  | repetition child minCount maxCount =>
    obtain ⟨rep, hrep, rfl⟩ := map_eq_some_iff.1 hr
    exact repetitionResult_sound (repetitionLoop_sound hf hstart (.nil le_rfl) hrep)
  | and child =>
    obtain ⟨out, hout, rfl⟩ := map_eq_some_iff.1 hr
    exact ahead_sound (hf hstart hout) hstart (fun _ => ⟨rfl, rfl, rfl⟩) .not
  | not child =>
    obtain ⟨out, hout, rfl⟩ := map_eq_some_iff.1 hr
    refine ahead_sound (hf hstart hout) hstart (fun result => ?_) .not
    rw [notResult]
    cases result.type <;> exact ⟨rfl, rfl, rfl⟩
  | any =>
    cases hr
    exact (anyScan_within hstart).sound nofun
  | space =>
    cases hr
    have hle := spaceLoop_le (c.input.drop start)
    rw [length_drop] at hle
    exact .leaf (Nat.le_add_right _ _) (by omega) fun _ => .star
  | chars pattern ranges negated minCount maxCount =>
    obtain ⟨stop, hstop, hspan⟩ := charsLoop_span hstart hfuel
    rw [executor, hstop] at hr
    cases hr
    exact charsResult_sound hspan
  | string delimiter =>
    obtain ⟨stop, hstop, hwithin⟩ := stringLoop_within hstart hfuel
    rw [executor, hstop] at hr
    cases hr
    exact hwithin.sound (.seq .star .not)
  | until_ delimiters =>
    obtain ⟨stop, hstop, hle, hbound⟩ := untilLoop_within hstart hfuel
    rw [executor, hstop] at hr
    cases hr
    exact untilResult_sound hle hbound .star
  | schema child name raw => exact hf hstart hr
  | rule name child trigger =>
    obtain ⟨out, hout, rfl⟩ := map_eq_some_iff.1 hr
    exact nodeResult_sound (hf hstart hout)
  | ref name =>
    obtain ⟨id, hid, hresult⟩ := bind_eq_some_iff.1 hr
    rw [Node.production, hid]
    exact hf hstart hresult
  | atomic child =>
    obtain ⟨out, hout, rfl⟩ := map_eq_some_iff.1 hr
    exact atomicResult_sound (hf hstart hout)
  | tag child tag =>
    obtain ⟨out, hout, rfl⟩ := map_eq_some_iff.1 hr
    exact nodeResult_sound (hf hstart hout)

/-- The nodes of a result stand within its match, which is empty only where the production can be. -/
theorem parse_sound {k id : Nat} (hstart : start ≤ c.input.length) (hr : parse a c k id start ast = some out) :
    Sound a c.input (a.production id) start start ast out := by
  induction k generalizing id start ast out with
  | zero => cases hr
  | succ k ih =>
    obtain ⟨node, hnode, hr⟩ := bind_eq_some_iff.1 hr
    rw [production_eq hnode]
    refine executor_sound (fun hpos hresult => ?_) hstart hr
    have hsound := ih hpos hresult
    exact ⟨hsound.grows, hsound.spans, fun hs heq => .call (hsound.empty hs heq)⟩

end

end Mallana.Peg
