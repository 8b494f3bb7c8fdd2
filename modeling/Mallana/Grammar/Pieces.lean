import Mallana.Grammar.Accept
import Mallana.Tokenizer.Utf8
import Mathlib.Data.List.TakeWhile

/-!
# Texts in pieces

`llama_grammar_accept_str` decodes a piece after the bytes of a character that the piece before it cut off, which it
keeps in `partial_utf8`. So a text can be cut anywhere, also inside its characters, if it goes on where the state left
off: with the bytes that are missing, and with whole characters after them.
-/

namespace Mallana

open Tokenizer List Option

namespace Grammar

/-- A text that begins with `n` continuation bytes and goes on with whole characters; it has no NUL. -/
inductive Utf8From : Nat → List UInt8 → Prop where
  | nil : Utf8From 0 []
  | first {b : UInt8} {bs : List UInt8} {n : Nat} : b ≠ 0 → followBytes b = n → Utf8From n bs → Utf8From 0 (b :: bs)
  | next {b : UInt8} {bs : List UInt8} {n : Nat} : b ≠ 0 → b >>> 6 = 2 → Utf8From n bs → Utf8From (n + 1) (b :: bs)

variable {xs ys bs : List UInt8} {value : UInt32} {nRemain : Int}

lemma Utf8From.ne_zero {n : Nat} (h : Utf8From n bs) : ∀ b ∈ bs, b ≠ 0 := by
  induction h with
  | nil => exact fun b hb => (not_mem_nil hb).elim
  | first hne _ _ ih => exact forall_mem_cons.2 ⟨hne, ih⟩
  | next hne _ _ ih => exact forall_mem_cons.2 ⟨hne, ih⟩

lemma decodeLoop_append (h : Utf8From nRemain.toNat (xs ++ ys)) :
    ∃ cs p, Utf8From (PartialUtf8.nRemain p).toNat ys ∧
      (∀ codePoints, decodeLoop xs value nRemain codePoints = (codePoints ++ cs, p)) ∧
      ∀ codePoints, decodeLoop (xs ++ ys) value nRemain codePoints = decodeLoop ys p.value p.nRemain (codePoints ++ cs) := by
  induction xs generalizing value nRemain with
  | nil =>
    refine ⟨[], ⟨value, nRemain⟩, h, fun codePoints => ?_, fun codePoints => ?_⟩
    · rw [append_nil]
      rfl
    · rw [append_nil]
      rfl
  | cons b xs ih =>
    rw [cons_append] at h ⊢
    rcases Int.lt_or_le 0 nRemain with hpos | hle
    · -- a byte of the character that was begun
      have hrest : Utf8From (nRemain - 1).toNat (xs ++ ys) := by
        generalize hn : nRemain.toNat = n at h
        cases h with
        | first _ _ _ => omega
        | @next _ _ n _ _ hrest =>
          have hn' : (nRemain - 1).toNat = n := by omega
          rwa [hn']
      obtain ⟨cs, p, hp, hxs, hall⟩ := @ih (nextBits value b) (nRemain - 1) hrest
      refine ⟨(if nRemain - 1 = 0 then [nextBits value b] else []) ++ cs, p, hp, fun codePoints => ?_, fun codePoints => ?_⟩
      · rw [decodeLoop, if_pos hpos]
        simp only []
        rw [hxs]
        split <;> simp
      · rw [decodeLoop, if_pos hpos]
        simp only []
        rw [hall]
        split <;> simp
    · -- the first byte of a character
      obtain ⟨k, hk, hrest⟩ : ∃ k : Nat, followBytes b = k ∧ Utf8From k (xs ++ ys) := by
        generalize hn : nRemain.toNat = n at h
        cases h with
        | first _ hk hrest => exact ⟨_, hk, hrest⟩
        | next _ _ _ => omega
      obtain ⟨cs, p, hp, hxs, hall⟩ := @ih (firstBits b k) k hrest
      have hnot : ¬ 0 < nRemain := by omega
      have hneg : ¬ (k : Int) < 0 := by omega
      refine ⟨(if (k : Int) = 0 then [firstBits b k] else []) ++ cs, p, hp, fun codePoints => ?_, fun codePoints => ?_⟩
      · rw [decodeLoop, if_neg hnot, hk]
        simp only []
        rw [if_neg hneg, hxs]
        split <;> simp
      · rw [decodeLoop, if_neg hnot, hk]
        simp only []
        rw [if_neg hneg, hall]
        split <;> simp

lemma decodeStart_eq (hpos : 0 < nRemain) (h : Utf8From nRemain.toNat (bs ++ ys)) :
    ∃ bs' value' nRemain', decodeStart bs value nRemain = some (bs', value', nRemain') ∧
      decodeLoop bs value nRemain [] = decodeLoop bs' value' nRemain' (if nRemain' = 0 then [value'] else []) := by
  induction bs generalizing value nRemain with
  | nil =>
    refine ⟨[], value, nRemain, rfl, ?_⟩
    rw [if_neg (by omega)]
  | cons b bs ih =>
    generalize hn : nRemain.toNat = n at h
    cases h with
    | first _ _ _ => omega
    | @next _ _ n _ hb hrest =>
      have hn' : (nRemain - 1).toNat = n := by omega
      rw [decodeStart, if_pos hpos, if_pos hb, decodeLoop, if_pos hpos]
      simp only []
      rcases Int.lt_or_le 0 (nRemain - 1) with hlt | hle
      · rw [if_neg (by omega)]
        exact ih hlt (hn' ▸ hrest)
      · have hzero : nRemain - 1 = 0 := by omega
        refine ⟨bs, nextBits value b, 0, ?_, ?_⟩
        · rw [hzero]
          cases bs <;> rfl
        · rw [hzero]
          rfl

lemma decodeUtf8_eq {p : PartialUtf8} (h : Utf8From p.nRemain.toNat (bs ++ ys)) :
    decodeUtf8 bs p = decodeLoop bs p.value p.nRemain [] := by
  have hnul : bs.takeWhile (· ≠ 0) = bs := by
    apply takeWhile_eq_self_iff.2
    intro b hb
    exact decide_eq_true (h.ne_zero b (mem_append_left _ hb))
  rw [decodeUtf8, hnul]
  rcases Int.lt_or_le 0 p.nRemain with hpos | hle
  · obtain ⟨bs', value', nRemain', hstart, hloop⟩ := @decodeStart_eq ys bs p.value _ hpos h
    rw [hstart, hloop]
    simp [hpos]
  · have hstart : decodeStart bs p.value p.nRemain = some (bs, p.value, p.nRemain) := by
      cases bs with
      | nil => rfl
      | cons b bs => rw [decodeStart, if_neg (by omega)]
    rw [hstart]
    simp only []
    rw [if_neg (by omega)]

lemma decodeUtf8_append {p : PartialUtf8} (h : Utf8From p.nRemain.toNat (xs ++ ys)) :
    Utf8From (decodeUtf8 xs p).2.nRemain.toNat ys ∧ decodeUtf8 (xs ++ ys) p =
        ((decodeUtf8 xs p).1 ++ (decodeUtf8 ys (decodeUtf8 xs p).2).1, (decodeUtf8 ys (decodeUtf8 xs p).2).2) := by
  obtain ⟨cs, q, hq, hxs, hall⟩ := @decodeLoop_append xs ys p.value _ h
  have hwhole : decodeUtf8 (xs ++ ys) p = decodeLoop (xs ++ ys) p.value p.nRemain [] :=
    @decodeUtf8_eq [] (xs ++ ys) p (by rwa [append_nil])
  have hback : decodeUtf8 ys q = decodeLoop ys q.value q.nRemain [] :=
    @decodeUtf8_eq [] ys q (by rwa [append_nil])
  have hnil : ys = ys ++ [] := (append_nil ys).symm
  obtain ⟨ds, r, -, hys, -⟩ := @decodeLoop_append ys [] q.value q.nRemain (hnil ▸ hq)
  rw [decodeUtf8_eq h, hxs]
  refine ⟨hq, ?_⟩
  rw [hwhole, hall, nil_append, hys, hback, hys, nil_append]

lemma follow_one : ∀ y < 128, followBytes (UInt8.ofNat y) = 0 := by decide

lemma follow_two : ∀ y < 32, followBytes (UInt8.ofNat (0xc0 + y)) = 1 := by decide

lemma follow_three : ∀ y < 16, followBytes (UInt8.ofNat (0xe0 + y)) = 2 := by decide

lemma follow_four : ∀ y < 8, followBytes (UInt8.ofNat (0xf0 + y)) = 3 := by decide

lemma tail_shift : ∀ y < 64, UInt8.ofNat (0x80 + y) >>> 6 = 2 := by decide

lemma followBytes_lead {b : UInt8} {k : Nat} (h : Lead k b) : followBytes b = k := by
  cases h with
  | one hy => exact follow_one _ hy
  | two hy => exact follow_two _ hy
  | three hy => exact follow_three _ hy
  | four hy => exact follow_four _ hy

lemma Utf8From.tail {head tail : List UInt8} (hhead : ∀ b ∈ head, b >>> 6 = 2) (h : Utf8From 0 tail) :
    Utf8From head.length (head ++ tail) := by
  induction head with
  | nil => exact h
  | cons b head ih =>
    obtain ⟨hb, hhead⟩ := forall_mem_cons.1 hhead
    refine .next ?_ hb (ih hhead)
    rintro rfl
    exact absurd hb (by decide)

lemma utf8From_encode {cs : List UInt32} {text : List UInt8} (h : cptsToUtf8 cs = some text) (hnul : 0 ∉ text) :
    Utf8From 0 text := by
  induction cs generalizing text with
  | nil =>
    cases h
    exact .nil
  | cons c cs ih =>
    obtain ⟨bytes, tail, hbytes, htail, rfl⟩ := cptsToUtf8_cons h
    obtain ⟨b, tl, rfl, hlead, htl⟩ := cptToUtf8_lead hbytes
    rw [cons_append] at hnul ⊢
    refine .first (Ne.symm (ne_of_not_mem_cons hnul)) (followBytes_lead hlead) ?_
    have hrest := not_mem_of_not_mem_cons hnul
    refine .tail ?_ (ih htail fun hmem => hrest (mem_append_right _ hmem))
    intro x hx
    obtain ⟨y, hy, rfl⟩ := htl x hx
    exact tail_shift y hy

end Grammar

/-- A text goes on where a decoding left off: it begins with the continuation bytes that are missing, if any, and is
valid UTF-8 without a NUL after them. -/
def PartialUtf8.ContinuedBy (p : PartialUtf8) (text : List UInt8) : Prop :=
  ∃ head tail cs, text = head ++ tail ∧ head.length = p.nRemain.toNat ∧ (∀ b ∈ head, b >>> 6 = 2) ∧
    cptsToUtf8 cs = some tail ∧ 0 ∉ tail

lemma PartialUtf8.ContinuedBy.utf8From {p : PartialUtf8} {text : List UInt8} (h : p.ContinuedBy text) :
    Grammar.Utf8From p.nRemain.toNat text := by
  obtain ⟨head, tail, cs, rfl, hlen, hhead, hcs, hnul⟩ := h
  rw [← hlen]
  exact .tail hhead (Grammar.utf8From_encode hcs hnul)

lemma PartialUtf8.continuedBy {p : PartialUtf8} (hp : p.nRemain ≤ 0) {cs : List UInt32} {text : List UInt8}
    (h : cptsToUtf8 cs = some text) (hnul : 0 ∉ text) : p.ContinuedBy text :=
  ⟨[], text, cs, rfl, (Int.toNat_of_nonpos hp).symm, fun _ hb => (not_mem_nil hb).elim, h, hnul⟩

namespace LlamaGrammar

open Grammar

/-- C++ `llama_grammar_accept_str`: the grammar that it leaves, and whether it throws, which it does last. -/
def acceptStr (fuel : Nat) (g : LlamaGrammar) (piece : List UInt8) : Option (LlamaGrammar × Bool) := do
  let decoded := decodeUtf8 piece g.partialUtf8
  let g' ← acceptAll fuel g decoded.1
  return ({ g' with partialUtf8 := decoded.2 }, g'.grStacks.isEmpty)

/-- The pieces are given to the grammar one after the other; does one of the calls throw? -/
def acceptPieces (fuel : Nat) : LlamaGrammar → List (List UInt8) → Option (LlamaGrammar × Bool)
  | g, [] => some (g, false)
  | g, piece :: pieces => do
    let r ← acceptStr fuel g piece
    let rest ← acceptPieces fuel r.1 pieces
    return (rest.1, r.2 || rest.2)

variable {fuel : Nat} {g : LlamaGrammar}

lemma acceptStr_eq (fuel : Nat) (g : LlamaGrammar) (piece : List UInt8) :
    acceptStr fuel g piece = (acceptAll fuel g (decodeUtf8 piece g.partialUtf8).1).map fun g' =>
      ({ g' with partialUtf8 := (decodeUtf8 piece g.partialUtf8).2 }, g'.grStacks.isEmpty) := by
  rw [acceptStr]
  cases acceptAll fuel g (decodeUtf8 piece g.partialUtf8).1 <;> rfl

lemma acceptAll_partialUtf8 (p : PartialUtf8) (cs : List UInt32) : acceptAll fuel { g with partialUtf8 := p } cs =
      (acceptAll fuel g cs).map fun g' => { g' with partialUtf8 := p } := by
  induction cs generalizing g with
  | nil => rfl
  | cons c cs ih =>
    rw [acceptAll, foldlM_cons, foldlM_cons, accept, accept]
    cases hstacks : g.grStacks.foldlM (acceptChr fuel g.rules c) [] with
    | none => rfl
    | some grStacks => exact @ih { g with grStacks }

lemma acceptAll_nil_stacks (hg : g.grStacks = []) (cs : List UInt32) : acceptAll fuel g cs = some g := by
  induction cs with
  | nil => rfl
  | cons c cs ih =>
    have hstep : accept fuel g c = some g := by
      cases g
      cases hg
      rfl
    rw [acceptAll, foldlM_cons, hstep]
    exact ih

lemma acceptStr_append {xs ys : List UInt8} (h : Utf8From g.partialUtf8.nRemain.toNat (xs ++ ys)) :
    acceptStr fuel g (xs ++ ys) = (acceptStr fuel g xs).bind fun r => acceptStr fuel r.1 ys := by
  rw [acceptStr_eq, acceptStr_eq, (decodeUtf8_append h).2, acceptAll, foldlM_append]
  cases (decodeUtf8 xs g.partialUtf8).1.foldlM (accept fuel) g with
  | none => rfl
  | some g₁ =>
    have hys := @acceptAll_partialUtf8 fuel g₁ (decodeUtf8 xs g.partialUtf8).2
      (decodeUtf8 ys (decodeUtf8 xs g.partialUtf8).2).1
    simp only [bind_eq_bind, bind_some, map_some, acceptStr_eq, hys, Option.map_map]
    rfl

lemma acceptStr_throws {r r' : LlamaGrammar × Bool} {xs ys : List UInt8} (h : acceptStr fuel g xs = some r)
    (h' : acceptStr fuel r.1 ys = some r') (hthrows : r.2 = true) : r'.2 = true := by
  rw [acceptStr_eq] at h h'
  obtain ⟨g₁, -, rfl⟩ := map_eq_some_iff.1 h
  have hnil : g₁.grStacks = [] := List.isEmpty_iff.1 hthrows
  rw [acceptAll_nil_stacks (by exact hnil)] at h'
  cases h'
  exact hthrows

lemma acceptStr_partialUtf8 {r : LlamaGrammar × Bool} {xs : List UInt8} (h : acceptStr fuel g xs = some r) :
    r.1.partialUtf8 = (decodeUtf8 xs g.partialUtf8).2 := by
  rw [acceptStr_eq] at h
  obtain ⟨g₁, -, rfl⟩ := map_eq_some_iff.1 h
  rfl

lemma acceptPieces_of_utf8From (piece : List UInt8) (pieces : List (List UInt8))
    (h : Utf8From g.partialUtf8.nRemain.toNat (piece ++ pieces.flatten)) :
    acceptPieces fuel g (piece :: pieces) = acceptStr fuel g (piece ++ pieces.flatten) := by
  induction pieces generalizing piece g with
  | nil =>
    rw [flatten_nil, append_nil, acceptPieces]
    cases acceptStr fuel g piece with
    | none => rfl
    | some r => simp [acceptPieces]
  | cons next pieces ih =>
    rw [flatten_cons] at h ⊢
    rw [acceptStr_append h, acceptPieces]
    cases hr : acceptStr fuel g piece with
    | none => rfl
    | some r =>
      have hnext : Utf8From r.1.partialUtf8.nRemain.toNat (next ++ pieces.flatten) := by
        rw [acceptStr_partialUtf8 hr]
        exact (decodeUtf8_append h).1
      simp only [bind_eq_bind, bind_some]
      rw [ih next hnext]
      cases hr' : acceptStr fuel r.1 (next ++ pieces.flatten) with
      | none => rfl
      | some r' =>
        have hor : (r.2 || r'.2) = r'.2 := by
          cases hthrows : r.2 with
          | false => rfl
          | true => exact (acceptStr_throws hr hr' hthrows).symm
        rw [bind_some, hor]
        rfl

/-- Where a text that goes on where the state left off is cut makes no difference to the grammar: its pieces leave the
stacks and the partial character that the whole text leaves, and one of the calls throws exactly if the whole throws. -/
theorem acceptPieces_eq (fuel : Nat) (g : LlamaGrammar) (piece : List UInt8) (pieces : List (List UInt8))
    (h : g.partialUtf8.ContinuedBy (piece ++ pieces.flatten)) :
    acceptPieces fuel g (piece :: pieces) = acceptStr fuel g (piece ++ pieces.flatten) :=
  acceptPieces_of_utf8From piece pieces h.utf8From

/-- `root ::= . "b"`, before its first character. -/
def dotB : LlamaGrammar where
  rules := [[⟨.charAny, 0⟩, ⟨.char, 98⟩, ⟨.end, 0⟩]]
  grStacks := [[⟨0, 0⟩]]

theorem acceptPieces_eq_accent : dotB.partialUtf8.ContinuedBy ([0xc3] ++ [[0xa9], [98]].flatten) ∧
    acceptPieces 9 dotB [[0xc3], [0xa9], [98]] = acceptStr 9 dotB ([0xc3] ++ [[0xa9], [98]].flatten) ∧
    acceptStr 9 dotB [0xc3, 0xa9, 98] = some ({ dotB with grStacks := [[]], partialUtf8 := ⟨98, 0⟩ }, false) :=
  have h : dotB.partialUtf8.ContinuedBy ([0xc3] ++ [[0xa9], [98]].flatten) :=
    @PartialUtf8.continuedBy _ (by decide) [0xe9, 98] _ (by decide) (by decide)
  ⟨h, acceptPieces_eq 9 dotB [0xc3] [[0xa9], [98]] h, by decide⟩

/-- After a piece that ends inside a character, `"ab"` is refused as a whole; in two pieces only its first is. -/
theorem acceptPieces_inside_character : LlamaGrammar.init 9 dotB.rules 0 = some (some dotB) ∧
      acceptStr 9 dotB [0xc3] = some ({ dotB with partialUtf8 := ⟨3, 1⟩ }, false) ∧
      cptsToUtf8 [97, 98] = some [97, 98] ∧
      acceptStr 9 { dotB with partialUtf8 := ⟨3, 1⟩ } [97, 98] = some ({ dotB with partialUtf8 := ⟨0, -1⟩ }, false) ∧
      acceptPieces 9 { dotB with partialUtf8 := ⟨3, 1⟩ } [[97], [98]] =
        some ({ dotB with grStacks := [[⟨0, 1⟩]], partialUtf8 := ⟨98, 0⟩ }, false) := by
  decide

end LlamaGrammar

end Mallana
