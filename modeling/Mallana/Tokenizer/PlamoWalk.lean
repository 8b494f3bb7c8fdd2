import Mallana.Tokenizer.PlamoTable

/-!
# The walk of PLaMo-2 over a text

At every position of a text, the present suffix is one that the text goes on with, so that the tokens on the best path
occur in the text.
-/

namespace Mallana.Tokenizer

open List Option

variable {F : Type}

lemma mem_of_lookup {α β : Type} [BEq α] [LawfulBEq α] {k : α} {x : β} :
    ∀ {l : List (α × β)}, l.lookup k = some x → (k, x) ∈ l := by
  intro l
  induction l with
  | nil =>
    intro h
    cases h
  | cons p l ih =>
    intro h
    rw [lookup_cons] at h
    cases hk : k == p.1 with
    | true =>
      simp only [hk] at h
      cases h
      rw [eq_of_beq hk]
      exact mem_cons_self
    | false =>
      simp only [hk] at h
      exact mem_cons_of_mem _ (ih h)

section
variable {a : Arith F} {v : Vocab F} {m : SuffixScores F} {blocks : List Block} {x : Index} {t : Plamo}

/-- A tokenizer that was built from well-formed tokens. -/
structure PlamoOk (a : Arith F) (v : Vocab F) (m : SuffixScores F) (blocks : List Block) (x : Index) (t : Plamo) :
    Prop where
  sound : Blocks m blocks
  indexed : Indexed blocks x
  links : t.toSuffixId = x.toSuffixId
  table : t.table = blocks.flatMap (blockRows a v m x.ids)

def Stands (blocks : List Block) (cs : List UInt32) (r : Nat) : Prop :=
  ∃ b, At blocks b r ∧ cptsFromUtf8 b.1 <+: cs

lemma Blocks.stands_zero (h : Blocks m blocks) (cs : List UInt32) : Stands blocks cs 0 := by
  obtain ⟨rest, rfl⟩ := h.head
  exact ⟨([], []), ⟨[], rest, rfl, rfl⟩, nil_prefix⟩

/-- A row whose piece is in front of the code points `cs`. -/
def GoodRow (v : Vocab F) (blocks : List Block) (cs : List UInt32) (row : TableRow) : Prop :=
  (∃ b n, At blocks b row.pieceId ∧ cptsToUtf8 (cs.take n) = some b.1) ∧
    0 < row.pieceLength ∧ row.pieceLength ≤ cs.length ∧
    ∃ piece, cptsToUtf8 (cs.take row.pieceLength) = some piece ∧ row.tokenId = textToToken v piece

lemma PlamoOk.rows (h : PlamoOk a v m blocks x t) {b : Block} {r : Nat} {cs : List UInt32} (hat : At blocks b r)
    (hpre : cptsFromUtf8 b.1 <+: cs) :
    ∃ front after, t.table.drop r = front ++ sentinelRow :: after ∧ ∀ row ∈ front, GoodRow v blocks cs row := by
  obtain ⟨after, hdrop⟩ := @drop_table F m blocks b r a v x.ids hat
  refine ⟨b.2.map (pieceRow a v m x.ids), after, ?_, ?_⟩
  · rw [h.table, hdrop, blockRows, append_assoc]
    rfl
  · intro row hrow
    obtain ⟨p, hp, rfl⟩ := List.mem_map.1 hrow
    obtain ⟨hpos, hle, henc, b', hb', hname⟩ := h.sound.piece hat.mem hp
    have htake : cs.take p.1 = (cptsFromUtf8 b.1).take p.1 := by
      obtain ⟨rest, rfl⟩ := hpre
      rw [take_append_of_le_length hle]
    obtain ⟨r', hat'⟩ := exists_at hb'
    have hid := h.indexed.ids b' r' hat'
    rw [hname] at hid
    refine ⟨⟨b', p.1, ?_, ?_⟩, hpos, le_trans hle hpre.length_le, p.2, ?_, rfl⟩
    · simpa only [pieceRow, hid, getD_some] using hat'
    · rw [htake, henc, hname]
    · exact htake ▸ henc

lemma PlamoOk.link (h : PlamoOk a v m blocks x t) {c : UInt32} {cs : List UInt32} {b : Block} {n id r : Nat}
    (hat : At blocks b id) (henc : cptsToUtf8 (cs.take n) = some b.1)
    (hlookup : t.toSuffixId.lookup (c, id) = some r) : Stands blocks (c :: cs) r := by
  rw [h.links] at hlookup
  obtain ⟨b₁, b₂, ds, hat₁, hcs, hds, hat₂⟩ := h.indexed.links c id r (mem_of_lookup hlookup)
  have heq := hat₂.inj hat
  rw [heq] at hds
  have htake := cptsToUtf8_inj hds henc
  refine ⟨b₁, hat₁, ?_⟩
  have front := take_prefix n cs
  rw [hcs, htake]
  exact (prefix_cons_inj c).2 front

lemma PlamoOk.nextSuffix (h : PlamoOk a v m blocks x t) {c : UInt32} {cs : List UInt32} {after : List TableRow} :
    ∀ {front : List TableRow} (current : Nat), (∀ row ∈ front, GoodRow v blocks cs row) →
      Stands blocks (c :: cs) (nextSuffix t c current (front ++ sentinelRow :: after)) := by
  intro front
  induction front with
  | nil =>
    intro current _
    rw [nil_append, Tokenizer.nextSuffix, if_pos (.inr rfl)]
    cases hl : t.toSuffixId.lookup (c, sentinelRow.pieceId) with
    | none => exact h.sound.stands_zero _
    | some r =>
      obtain ⟨rest, hrest⟩ := h.sound.head
      have hat : At blocks ([], []) sentinelRow.pieceId := ⟨[], rest, hrest, rfl⟩
      exact @PlamoOk.link F a v m blocks x t h c cs ([], []) 0 _ r hat rfl hl
  | cons row front ih =>
    intro current hgood
    rw [cons_append, Tokenizer.nextSuffix]
    split
    · cases hl : t.toSuffixId.lookup (c, row.pieceId) with
      | none => exact h.sound.stands_zero _
      | some r =>
        obtain ⟨⟨b, n, hat, henc⟩, -⟩ := hgood row mem_cons_self
        exact h.link hat henc hl
    · exact ih _ fun row' hrow' => hgood row' (mem_cons_of_mem _ hrow')

/-- The first token from a position on is in the text there, or it stands for the bytes of the code point. -/
def FineCell (v : Vocab F) (cs : List UInt32) (cell : Cell) : Prop :=
  cell.tokenId = -1 ∨ ∃ n piece, 0 < n ∧ cptsToUtf8 (cs.take n) = some piece ∧ cell.tokenId = textToToken v piece

/-- The scores of the cells from a position on: no code point costs more than an unknown one. -/
def Bounded (cells : List Cell) (n : Nat) : Prop :=
  cells.length = n + 1 ∧ ∀ k ≤ n, (cells.getD k noPath).score ≤ ((n - k : Nat) : Int) * 10000000

lemma improve_cases (cells : List Cell) (cell : Cell) (row : TableRow) : improve cells cell row = cell ∨
      ((improve cells cell row).tokenId = row.tokenId ∧ (improve cells cell row).score < cell.score) := by
  simp only [improve]
  split
  · rename_i h
    exact .inr ⟨rfl, h.2⟩
  · exact .inl rfl

lemma improve_le {cells : List Cell} {cell : Cell} {row : TableRow} (h : row.score = unknownScore) :
    (improve cells cell row).score ≤ (cells.getD (row.pieceLength - 1) noPath).score + 10000000 := by
  simp only [improve, h]
  have h1 : invalidScore < unknownScore := by decide
  have h2 : unknownScore = -10000000 := rfl
  split
  · simp only
    omega
  · rename_i hn
    have : ¬ (cells.getD (row.pieceLength - 1) noPath).score - unknownScore < cell.score :=
      fun hlt => hn ⟨h1, hlt⟩
    omega

lemma bestCell_spec {c : UInt32} {cs : List UInt32} {cells : List Cell} (hb : Bounded cells cs.length)
    {after : List TableRow} :
    ∀ {front : List TableRow} (cell : Cell), (∀ row ∈ front, GoodRow v blocks (c :: cs) row) →
      (bestCell cells cell (front ++ sentinelRow :: after) = cell ∨
        FineCell v (c :: cs) (bestCell cells cell (front ++ sentinelRow :: after))) ∧
      (bestCell cells cell (front ++ sentinelRow :: after)).score ≤ ((cs.length + 1 : Nat) : Int) * 10000000 := by
  intro front
  induction front with
  | nil =>
    intro cell _
    have hlast : sentinelRow.score = unknownScore := rfl
    rw [nil_append, bestCell, if_pos hlast]
    constructor
    · rcases improve_cases cells cell sentinelRow with heq | ⟨hid, -⟩
      · exact .inl heq
      · exact .inr (.inl hid)
    · have h1 := @improve_le cells cell sentinelRow rfl
      have h2 := hb.2 0 (Nat.zero_le _)
      have h3 : sentinelRow.pieceLength - 1 = 0 := rfl
      rw [h3] at h1
      push_cast at h2 ⊢
      omega
  | cons row front ih =>
    intro cell hgood
    obtain ⟨-, hpos, hle, piece, henc, hid⟩ := hgood row mem_cons_self
    have here : improve cells cell row = cell ∨ FineCell v (c :: cs) (improve cells cell row) := by
      rcases improve_cases cells cell row with heq | ⟨htoken, -⟩
      · exact .inl heq
      · exact .inr (.inr ⟨row.pieceLength, piece, hpos, henc, htoken.trans hid⟩)
    rw [cons_append, bestCell]
    split
    · rename_i hscore
      refine ⟨here, ?_⟩
      have h1 := @improve_le cells cell row hscore
      have h2 := hb.2 (row.pieceLength - 1) (by rw [length_cons] at hle; omega)
      have h3 : (cs.length - (row.pieceLength - 1) : Nat) ≤ cs.length := Nat.sub_le _ _
      push_cast at h2 ⊢
      omega
    · obtain ⟨hcell, hscore⟩ := ih (improve cells cell row) fun row' hrow' => hgood row' (mem_cons_of_mem _ hrow')
      refine ⟨?_, hscore⟩
      rcases hcell with heq | hfine
      · rw [heq]
        exact here
      · exact .inr hfine

/-- What holds of the sweep over the code points from a position on. -/
structure Swept (v : Vocab F) (blocks : List Block) (cs : List UInt32) (s : Nat × List Cell) : Prop where
  stands : Stands blocks cs s.1
  bounded : Bounded s.2 cs.length

lemma PlamoOk.swept (h : PlamoOk a v m blocks x t) :
    ∀ {cs : List UInt32}, cs.length < 2 ^ 31 → Swept v blocks cs (sweep t cs) ∧
      ∀ c ds, cs = c :: ds → ∃ cell, (sweep t cs).2 = cell :: (sweep t ds).2 ∧ FineCell v cs cell := by
  intro cs
  induction cs with
  | nil =>
    intro _
    refine ⟨⟨h.sound.stands_zero _, rfl, ?_⟩, fun c ds heq => by cases heq⟩
    intro k hk
    cases Nat.le_zero.1 hk
    exact Int.le_refl 0
  | cons c cs ih =>
    intro hlen
    rw [length_cons] at hlen
    obtain ⟨⟨⟨b, hat, hpre⟩, bounded⟩, -⟩ := ih (by omega)
    obtain ⟨front, after, hdrop, hgood⟩ := h.rows hat hpre
    have stands : Stands blocks (c :: cs) (sweep t (c :: cs)).1 := by
      rw [sweep, hdrop]
      exact h.nextSuffix _ hgood
    obtain ⟨b', hat', hpre'⟩ := stands
    obtain ⟨front', after', hdrop', hgood'⟩ := h.rows hat' hpre'
    obtain ⟨hcell, hscore⟩ := @bestCell_spec F v blocks c cs (sweep t cs).2 bounded after' front' noPath hgood'
    have hcells : (sweep t (c :: cs)).2 = bestCell (sweep t cs).2 noPath
        (front' ++ sentinelRow :: after') :: (sweep t cs).2 := by
      rw [← hdrop']
      rfl
    refine ⟨⟨⟨b', hat', hpre'⟩, ?_⟩, ?_⟩
    · rw [hcells]
      refine ⟨by rw [length_cons, bounded.1]; rfl, ?_⟩
      intro k hk
      cases k with
      | zero => exact hscore
      | succ k =>
        have hk' : k ≤ cs.length := by
          rw [length_cons] at hk
          omega
        have hval := bounded.2 k hk'
        have heq : (c :: cs).length - (k + 1) = cs.length - k := by
          rw [length_cons]
          omega
        rw [heq]
        exact hval
    · intro c' ds heq
      cases heq
      refine ⟨_, hcells, ?_⟩
      rcases hcell with hsame | hfine
      · -- the first cell is not kept: an unknown character is cheaper
        have hmax : noPath.score = 1152921504606846976 := rfl
        rw [hsame, hmax] at hscore
        push_cast at hscore
        omega
      · exact hfine

lemma sweep_drop (t : Plamo) : ∀ {cs : List UInt32} {k : Nat}, k ≤ cs.length →
    (sweep t cs).2.drop k = (sweep t (cs.drop k)).2 := by
  intro cs
  induction cs with
  | nil =>
    intro k hk
    cases Nat.le_zero.1 hk
    rfl
  | cons c cs ih =>
    intro k hk
    cases k with
    | zero => rfl
    | succ k => exact ih (Nat.le_of_succ_le_succ hk)

end

end Mallana.Tokenizer
