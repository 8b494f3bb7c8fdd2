import Mallana.KvCache.Slots

/-!
# What `apply_ubatch` does

The exact effect of `apply_ubatch` on the cells, in two parts. Writing the tokens replaces the cells of
the slot and records, for each sequence, the greatest position it overwrote (`applyTokens`,
`le_posMax_iff`). The purge then takes every sequence out of the cells of its stream that hold it at a
position up to the recorded one (`mem_seq_purge`); nothing else changes. Both parts keep the invariant of
the cell tables, if the tokens are well formed: no position is the marker `-1` and no token names a
sequence twice.
-/

namespace Mallana

open Lib KvCells List Finset

/-- The first sequence of a cell (C++ `seq_get`). -/
def Cell.first (x : Cell) : Option SeqId :=
  if h : x.seq.Nonempty then some (x.seq.min' h) else none

/-- Token `k` has a position and does not name a sequence twice. -/
def Ubatch.TokenOk (u : Ubatch) (k : Nat) : Prop := u.pos.getD k 0 ≠ -1 ∧ (u.seqId.getD k []).Nodup

namespace KvCache

section Token
variable {u : Ubatch} {k i : Nat} {x : KvCells}

/-- The cell that a token leaves behind, from the empty cell `x`. -/
def tokenCell (u : Ubatch) (k : Nat) (x : Cell) : Cell :=
  { x with
    pos := u.pos.getD k 0
    ext := if u.isPos2d then
      { x := u.pos.getD (k + u.nTokens * 2) 0, y := u.pos.getD (k + u.nTokens) 0 } else x.ext
    seq := (u.seqId.getD k []).toFinset ∪ x.seq }

lemma cell_foldl_seqAdd (x : KvCells) (hi : i < x.size) (l : List SeqId) :
    (l.foldl (fun x s => x.seqAdd i s) x).cell i = { x.cell i with seq := l.toFinset ∪ (x.cell i).seq } := by
  induction l generalizing x with
  | nil => simp
  | cons s l ih =>
    have hset : l.toFinset ∪ insert s (x.cell i).seq = (s :: l).toFinset ∪ (x.cell i).seq := by
      ext r
      simp only [toFinset_cons, mem_union, mem_insert]
      tauto
    rw [foldl_cons, ih _ (by simpa using hi), cell_seqAdd, if_pos ⟨rfl, hi⟩]
    simp only [hset]

lemma inv_foldl_seqAdd {x : KvCells} (h : Inv x) (hp : (x.cell i).pos ≠ -1) {l : List SeqId}
    (hnd : l.Nodup) (hd : ∀ s ∈ l, s ∉ (x.cell i).seq) : Inv (l.foldl (fun x s => x.seqAdd i s) x) := by
  induction l generalizing x with
  | nil => exact h
  | cons s l ih =>
    have hi := lt_size_of_pos_ne hp
    simp only [nodup_cons] at hnd
    simp only [List.mem_cons, forall_eq_or_imp] at hd
    have hcell : (x.seqAdd i s).cell i = { x.cell i with seq := insert s (x.cell i).seq } := by
      rw [cell_seqAdd, if_pos ⟨rfl, hi⟩]
    refine ih (h.seqAdd hp hd.1) (by rw [hcell]; exact hp) hnd.2 ?_
    intro r hr
    rw [hcell]
    simp only [mem_insert, not_or]
    exact ⟨fun e => hnd.1 (e ▸ hr), hd.2 r hr⟩

/-- `putToken` up to the sequences. -/
def putPos (u : Ubatch) (k i : Nat) (x : KvCells) : KvCells :=
  let x := x.posSet i (u.pos.getD k 0)
  if u.isPos2d then
    x.extSet i { x := u.pos.getD (k + u.nTokens * 2) 0, y := u.pos.getD (k + u.nTokens) 0 }
  else x

lemma putToken_eq : putToken u k i x = (u.seqId.getD k []).foldl (fun x s => x.seqAdd i s) (putPos u k i x) := rfl

lemma cell_putPos (hi : i < x.size) : (putPos u k i x).cell i =
    { tokenCell u k (x.cell i) with seq := (x.cell i).seq } := by
  unfold putPos tokenCell
  simp only []
  split
  · rw [cell_extSet, if_pos ⟨rfl, by simpa using hi⟩, cell_posSet, if_pos ⟨rfl, hi⟩]
  · rw [cell_posSet, if_pos ⟨rfl, hi⟩]

lemma size_putPos : (putPos u k i x).size = x.size := by
  unfold putPos
  simp only []
  split <;> simp

lemma cell_putToken (hi : i < x.size) : (putToken u k i x).cell i = tokenCell u k (x.cell i) := by
  rw [putToken_eq, cell_foldl_seqAdd _ (by rw [size_putPos]; exact hi), cell_putPos hi]
  rfl

lemma inv_putToken (h : Inv x) (hi : i < x.size) (he : (x.cell i).pos = -1) (hu : u.TokenOk k) :
    Inv (putToken u k i x) := by
  have hpos : Inv (putPos u k i x) := by
    unfold putPos
    simp only []
    split
    · exact (h.posSet hi he hu.1).extSet (by simpa using hi) _
    · exact h.posSet hi he hu.1
  rw [putToken_eq]
  refine inv_foldl_seqAdd hpos ?_ hu.2 ?_
  · rw [cell_putPos hi]
    exact hu.1
  · intro s _
    rw [cell_putPos hi]
    change s ∉ (x.cell i).seq
    rw [(h.empty i he).1]
    simp

lemma hasShift_putToken : (putToken u k i x).hasShift = x.hasShift := by
  rw [putToken_eq]
  refine List.foldlRecOn (motive := fun y : KvCells => y.hasShift = x.hasShift) _ _ ?_ ?_
  · unfold putPos
    simp only []
    split <;> rfl
  · intro y hy s _
    exact hy

lemma cell_evictCell (m : PosMaxRm) (hi : i < x.size) :
    (evictCell x i m).1.cell i = if (x.cell i).pos = -1 then x.cell i else {} := by
  unfold evictCell KvCells.isEmpty
  by_cases he : (x.cell i).pos = -1
  · simp [he]
  · simp [he, cell_rm, hi]

lemma inv_evictCell (m : PosMaxRm) (h : Inv x) (hi : i < x.size) : Inv (evictCell x i m).1 := by
  unfold evictCell
  split
  · exact h
  · exact h.rm hi

lemma hasShift_evictCell (m : PosMaxRm) : (evictCell x i m).1.hasShift = x.hasShift := by
  unfold evictCell
  split <;> rfl

lemma inv_putToken_evictCell (m : PosMaxRm) (h : Inv x) (hi : i < x.size) (hu : u.TokenOk k) :
    Inv (putToken u k i (evictCell x i m).1) := by
  refine inv_putToken (inv_evictCell m h hi) (by rw [size_evictCell]; exact hi) ?_ hu
  rw [cell_evictCell m hi]
  split
  · assumption
  · rfl

end Token

section Tokens
variable {c : KvCache} {sl : SlotInfo} {u : Ubatch} {kvSize n : Nat}

/-- What writing tokens keeps. -/
structure TokensKeep (kvSize : Nat) (c c' : KvCache) : Prop where
  only : CellsOnly c c'
  heads : c'.vHeads = c.vHeads
  scInfo : c'.scInfo = c.scInfo
  inv : (∀ t, Inv (c.cellsOf t)) → ∀ t, Inv (c'.cellsOf t)
  hasShift : ∀ t, (c'.cellsOf t).hasShift = (c.cellsOf t).hasShift
  shift : (∀ t i, (c.cell t i).shift = 0) → ∀ t i, (c'.cell t i).shift = 0

lemma TokensKeep.refl (kvSize : Nat) (c : KvCache) : TokensKeep kvSize c c :=
  ⟨CellsOnly.refl c, rfl, rfl, id, fun _ => rfl, id⟩

lemma TokensKeep.trans {c' c'' : KvCache} (h1 : TokensKeep kvSize c c')
    (h2 : TokensKeep kvSize c' c'') : TokensKeep kvSize c c'' :=
  ⟨h1.only.trans h2.only, h2.heads.trans h1.heads, h2.scInfo.trans h1.scInfo,
    fun h => h2.inv (h1.inv h), fun t => (h2.hasShift t).trans (h1.hasShift t),
    fun h => h2.shift (h1.shift h)⟩

lemma tokensKeep_applyToken (hs : Shape kvSize c) (m : PosMaxRm) {e : Nat × Nat × Nat}
    (hlt : e.2.1 < c.nStream ∧ e.2.2 < kvSize) (hu : u.TokenOk e.1) :
    TokensKeep kvSize c (applyToken u (c, m) e).1 := by
  have hi : e.2.2 < (c.cellsOf e.2.1).size := by
    rw [hs.size _ hlt.1]
    exact hlt.2
  refine ⟨cellsOnly_applyToken u (c, m) e, rfl, rfl, ?_, ?_, ?_⟩
  · intro h t
    unfold applyToken
    simp only []
    rw [cellsOf_setCells]
    split
    · exact inv_putToken_evictCell m (h _) hi hu
    · exact h t
  · intro t
    unfold applyToken
    simp only []
    rw [cellsOf_setCells]
    split
    · rename_i ht
      rw [hasShift_putToken, hasShift_evictCell, ht.1]
    · rfl
  · intro h t i
    by_cases hti : e.2 = (t, i)
    · obtain ⟨rfl, rfl⟩ := Prod.mk.inj hti
      unfold applyToken cell
      simp only []
      rw [hs.cellsOf_setCells_self hlt.1, cell_putToken (by rw [size_evictCell]; exact hi), cell_evictCell m hi]
      change (if _ then _ else _ : Cell).shift = 0
      split
      · exact h e.2.1 e.2.2
      · rfl
    · rw [cell_applyToken_of_ne u (c, m) hti]
      exact h t i

variable {l : List (Nat × Nat × Nat)} {p : Int}

lemma tokensKeep_foldl (hs : Shape kvSize c) (m : PosMaxRm)
    (hl : ∀ e ∈ l, e.2.1 < c.nStream ∧ e.2.2 < kvSize) (hu : ∀ e ∈ l, u.TokenOk e.1) :
    TokensKeep kvSize c (l.foldl (applyToken u) (c, m)).1 := by
  induction l generalizing c m with
  | nil => exact TokensKeep.refl kvSize c
  | cons e l ih =>
    simp only [List.mem_cons, forall_eq_or_imp] at hl hu
    have h1 := tokensKeep_applyToken hs m hl.1 hu.1
    rw [foldl_cons]
    refine h1.trans (ih (h1.only.shape hs) _ ?_ hu.2)
    rw [h1.only.params]
    exact hl.2

/-- What a list of entries overwrites: a recorded position of sequence `q`, or an occupied cell
    whose first sequence is `q`. Each cell is still untouched when its entry is reached. -/
lemma le_posMax_foldl (m : PosMaxRm) (hnd : (l.map Prod.snd).Nodup) (q : SeqId) :
    p ≤ (l.foldl (applyToken u) (c, m)).2 q ↔ p ≤ m q ∨ ∃ e ∈ l, (c.cell e.2.1 e.2.2).pos ≠ -1 ∧
        (c.cell e.2.1 e.2.2).first = some q ∧ p ≤ (c.cell e.2.1 e.2.2).pos := by
  induction l generalizing c m with
  | nil => simp
  | cons e l ih =>
    simp only [List.map_cons, nodup_cons] at hnd
    have hrest : ∀ f ∈ l, (applyToken u (c, m) e).1.cell f.2.1 f.2.2 = c.cell f.2.1 f.2.2 := by
      intro f hf
      refine cell_applyToken_of_ne u (c, m) fun heq => hnd.1 ?_
      rw [heq]
      exact List.mem_map.2 ⟨f, hf, rfl⟩
    have hm : p ≤ (applyToken u (c, m) e).2 q ↔ p ≤ m q ∨ ((c.cell e.2.1 e.2.2).pos ≠ -1 ∧
        (c.cell e.2.1 e.2.2).first = some q ∧ p ≤ (c.cell e.2.1 e.2.2).pos) := by
      change p ≤ (evictCell (c.cellsOf e.2.1) e.2.2 m).2 q ↔ _
      unfold evictCell KvCells.isEmpty
      by_cases he : (c.cell e.2.1 e.2.2).pos = -1
      · have he' : ((c.cellsOf e.2.1).cell e.2.2).pos = -1 := he
        simp [he, he']
      · have he' : ¬ ((c.cellsOf e.2.1).cell e.2.2).pos = -1 := he
        have hfirst : (c.cellsOf e.2.1).seqGet e.2.2 = (c.cell e.2.1 e.2.2).first := rfl
        simp only [he', decide_false, Bool.false_eq_true, if_false, hfirst]
        cases hf : (c.cell e.2.1 e.2.2).first with
        | none => simp
        | some r =>
          by_cases hr : q = r
          · subst hr
            have hpos : (c.cellsOf e.2.1).posGet e.2.2 = (c.cell e.2.1 e.2.2).pos := rfl
            simp [he, hpos]
          · simp [Function.update_of_ne hr, Ne.symm hr]
    rw [foldl_cons]
    have hst := ih (c := (applyToken u (c, m) e).1) (applyToken u (c, m) e).2 hnd.2
    rw [show (applyToken u (c, m) e) = ((applyToken u (c, m) e).1, (applyToken u (c, m) e).2) from rfl, hst, hm]
    simp only [List.mem_cons, exists_eq_or_imp]
    constructor
    · rintro ((h | h) | ⟨f, hf, h⟩)
      · exact .inl h
      · exact .inr (.inl h)
      · rw [hrest f hf] at h
        exact .inr (.inr ⟨f, hf, h⟩)
    · rintro (h | h | ⟨f, hf, h⟩)
      · exact .inl (.inl h)
      · exact .inl (.inr h)
      · rw [← hrest f hf] at h
        exact .inr ⟨f, hf, h⟩

/-- What a cell holds once the entries of a list are written. -/
def writtenBy (u : Ubatch) (l : List (Nat × Nat × Nat)) (c : KvCache) (t i : Nat) : Cell :=
  match l.find? fun e => e.2 = (t, i) with
  | some e => tokenCell u e.1 (if (c.cell t i).pos = -1 then c.cell t i else {})
  | none => c.cell t i

def written (c : KvCache) (sl : SlotInfo) (u : Ubatch) (t i : Nat) : Cell :=
  writtenBy u sl.entries c t i

/-- The slot overwrites an occupied cell of sequence `q` with a position from `p` on. -/
def Overwrites (c : KvCache) (sl : SlotInfo) (q : SeqId) (p : Int) : Prop :=
  ∃ e ∈ sl.entries, (c.cell e.2.1 e.2.2).pos ≠ -1 ∧ (c.cell e.2.1 e.2.2).first = some q ∧
    p ≤ (c.cell e.2.1 e.2.2).pos

lemma cell_foldl_applyToken (hs : Shape kvSize c) (m : PosMaxRm)
    (hl : ∀ e ∈ l, e.2.1 < c.nStream ∧ e.2.2 < kvSize) (hnd : (l.map Prod.snd).Nodup) (t i : Nat) :
    (l.foldl (applyToken u) (c, m)).1.cell t i = writtenBy u l c t i := by
  induction l generalizing c m with
  | nil => rfl
  | cons e l ih =>
    simp only [List.mem_cons, forall_eq_or_imp] at hl
    simp only [List.map_cons, nodup_cons] at hnd
    have h1 := cellsOnly_applyToken u (c, m) e
    have ih' := ih (h1.shape hs) (applyToken u (c, m) e).2 (by rw [h1.params]; exact hl.2) hnd.2
    rw [foldl_cons]
    refine ih'.trans ?_
    unfold writtenBy
    by_cases hti : e.2 = (t, i)
    · have hnone : l.find? (fun f => f.2 = (t, i)) = none := by
        rw [find?_eq_none]
        intro f hf
        simp only [decide_eq_true_eq]
        exact fun heq => hnd.1 (List.mem_map.2 ⟨f, hf, heq.trans hti.symm⟩)
      have hi : e.2.2 < (c.cellsOf e.2.1).size := by
        rw [hs.size _ hl.1.1]
        exact hl.1.2
      rw [hnone, find?_cons_of_pos (by simpa using hti)]
      obtain ⟨rfl, rfl⟩ := Prod.mk.inj hti
      unfold applyToken cell
      simp only []
      rw [hs.cellsOf_setCells_self hl.1.1, cell_putToken (by rw [size_evictCell]; exact hi), cell_evictCell m hi]
    · rw [find?_cons_of_neg (by simpa using hti), cell_applyToken_of_ne u (c, m) hti]

lemma cell_applyTokens (hs : Shape kvSize c) (hl : ∀ e ∈ sl.entries, e.2.1 < c.nStream ∧ e.2.2 < kvSize)
    (hnd : (sl.entries.map Prod.snd).Nodup) (t i : Nat) : (c.applyTokens sl u).1.cell t i = c.written sl u t i :=
  cell_foldl_applyToken hs _ hl hnd t i

lemma written_of_mem (hnd : (sl.entries.map Prod.snd).Nodup) {e : Nat × Nat × Nat}
    (he : e ∈ sl.entries) : c.written sl u e.2.1 e.2.2 = tokenCell u e.1
      (if (c.cell e.2.1 e.2.2).pos = -1 then c.cell e.2.1 e.2.2 else {}) := by
  have hfind : sl.entries.find? (fun f => f.2 = (e.2.1, e.2.2)) = some e := by
    obtain ⟨f, hf⟩ : ∃ f, sl.entries.find? (fun f => f.2 = (e.2.1, e.2.2)) = some f := by
      cases hfind : sl.entries.find? (fun f => f.2 = (e.2.1, e.2.2)) with
      | none =>
        rw [find?_eq_none] at hfind
        exact absurd (decide_eq_true rfl) (hfind e he)
      | some f => exact ⟨f, rfl⟩
    have hsnd : f.2 = e.2 := by simpa using find?_some hf
    rw [hf, inj_on_of_nodup_map hnd (mem_of_find?_eq_some hf) he hsnd]
  rw [written, writtenBy, hfind]

lemma written_of_not_has {t i : Nat} (h : ¬ sl.Has t i) : c.written sl u t i = c.cell t i := by
  have hfind : sl.entries.find? (fun f => f.2 = (t, i)) = none := by
    rw [find?_eq_none]
    intro f hf
    simp only [decide_eq_true_eq]
    exact fun e => h ⟨f, hf, e⟩
  rw [written, writtenBy, hfind]

section
variable (hnd : (sl.entries.map Prod.snd).Nodup) (q : SeqId)
include hnd q

lemma le_posMax_iff : p ≤ (c.applyTokens sl u).2 q ↔ p ≤ -1 ∨ c.Overwrites sl q p :=
  le_posMax_foldl (fun _ => -1) hnd q

lemma le_posMax_of_nonneg (h0 : 0 ≤ p) : p ≤ (c.applyTokens sl u).2 q ↔ c.Overwrites sl q p := by
  rw [le_posMax_iff hnd]
  exact or_iff_right (by omega)

lemma posMax_ge : -1 ≤ (c.applyTokens sl u).2 q :=
  (le_posMax_iff hnd q).2 (.inl le_rfl)

end

end Tokens

/-- Take sequence `q` out of a cell with a position in `[p0, p1)`. -/
def cutSeq (q : SeqId) (p0 p1 : Int) (x : Cell) : Cell :=
  if p0 ≤ x.pos ∧ x.pos < p1 ∧ q ∈ x.seq then x.erase q else x

lemma cut_cutSeq (q : SeqId) (p0 p1 : Int) (x : Cell) : Cell.Cut (cutSeq q p0 p1 x) x := by
  unfold cutSeq
  split
  · rename_i h
    exact Cell.cut_erase h.2.2
  · exact Cell.Cut.refl x

lemma mem_cutSeq (q r : SeqId) (p0 p1 : Int) (x : Cell) :
    r ∈ (cutSeq q p0 p1 x).seq ↔ r ∈ x.seq ∧ ¬ (r = q ∧ p0 ≤ x.pos ∧ x.pos < p1) := by
  unfold cutSeq
  split
  · rename_i hc
    rw [Cell.seq_erase, mem_erase, and_comm]
    exact and_congr_right fun _ => not_congr ⟨fun h => ⟨h, hc.1, hc.2.1⟩, fun h => h.1⟩
  · rename_i hc
    refine ⟨fun hr => ⟨hr, ?_⟩, fun h => h.1⟩
    rintro ⟨rfl, hlo, hhi⟩
    exact hc ⟨hlo, hhi, hr⟩

lemma isVisit_seqRmVisit (q : SeqId) (p0 p1 : Int) : IsVisit (seqRmVisit q p0 p1) (cutSeq q p0 p1) := by
  refine ⟨size_seqRmVisit q p0 p1, ?_⟩
  intro x i j hi
  unfold seqRmVisit cutSeq posIn seqHas
  by_cases hc : p0 ≤ (x.cell i).pos ∧ (x.cell i).pos < p1 ∧ q ∈ (x.cell i).seq
  · rw [if_pos (by simpa [and_assoc] using hc), cell_seqRm]
    by_cases hij : i = j
    · subst hij
      simp [hi, hc]
    · simp [hij]
  · rw [if_neg (by simpa [and_assoc] using hc)]
    by_cases hij : i = j
    · subst hij
      simp [hc]
    · simp [hij]

lemma inv_seqRmVisit (q : SeqId) (p0 p1 : Int) {x : KvCells} (i : Nat) (h : Inv x) :
    Inv (seqRmVisit q p0 p1 x i).1 := by
  unfold seqRmVisit
  split
  · rename_i hc
    exact h.seqRm (by simpa [seqHas] using hc.2)
  · exact h

lemma hasShift_seqRmVisit (q : SeqId) (p0 p1 : Int) (x : KvCells) (i : Nat) :
    (seqRmVisit q p0 p1 x i).1.hasShift = x.hasShift := by
  unfold seqRmVisit
  split
  · exact hasShift_seqRm x i q
  · rfl

section SeqRm
variable {c : KvCache} {kvSize : Nat} (q : SeqId) (p0 p1 : Int)

lemma cellsOf_rmCells (hs : Shape kvSize c) (t : Nat) :
    (c.rmCells (some q) p0 p1).cellsOf t = if t = c.seqToStream q then
      ((c.cellsOf t).sweep (seqRmVisit q (rangeLo p0) (rangeHi p1))).1 else c.cellsOf t := by
  have hlt : c.seqToStream q < c.vCells.length := by
    rw [hs.cells]
    exact c.seqToStream_lt hs.streams q
  rw [rmCells, cellsOf_sweepStream]
  by_cases ht : c.seqToStream q = t
  · subst ht
    rw [if_pos ⟨rfl, hlt⟩, if_pos rfl]
  · rw [if_neg fun e => ht e.1, if_neg fun e => ht e.symm]

lemma cell_seqRm_some (hs : Shape kvSize c) (t i : Nat) :
    (c.seqRm (some q) p0 p1).cell t i = if t = c.seqToStream q then
      cutSeq q (rangeLo p0) (rangeHi p1) (c.cell t i) else c.cell t i := by
  have hempty : cutSeq q (rangeLo p0) (rangeHi p1) {} = {} := by
    unfold cutSeq
    simp
  rw [(pagesOnly_seqRm c (some q) p0 p1).cell, cell, cellsOf_rmCells q p0 p1 hs]
  split
  · rw [cell_sweep (isVisit_seqRmVisit q _ _) hempty]
    rfl
  · rfl

lemma inv_seqRm (hs : Shape kvSize c) (h : ∀ t, Inv (c.cellsOf t)) (t : Nat) :
    Inv ((c.seqRm (some q) p0 p1).cellsOf t) := by
  rw [(pagesOnly_seqRm c (some q) p0 p1).cellsOf, cellsOf_rmCells q p0 p1 hs]
  split
  · exact sweep_induction (P := Inv) (fun x i hx => inv_seqRmVisit q _ _ i hx) (h t)
  · exact h t

lemma hasShift_seqRm_some (hs : Shape kvSize c) (t : Nat) :
    ((c.seqRm (some q) p0 p1).cellsOf t).hasShift = (c.cellsOf t).hasShift := by
  rw [(pagesOnly_seqRm c (some q) p0 p1).cellsOf, cellsOf_rmCells q p0 p1 hs]
  split
  · exact sweep_induction (P := fun x => x.hasShift = (c.cellsOf t).hasShift)
      (fun x i hx => (hasShift_seqRmVisit q _ _ x i).trans hx) rfl
  · rfl

lemma sweep_seqRmVisit_eq {x : KvCells} (h : ∀ i, cutSeq q p0 p1 (x.cell i) = x.cell i) :
    x.sweep (seqRmVisit q p0 p1) = (x, x.size) := by
  have hvisit : ∀ i, seqRmVisit q p0 p1 x i = (x, false) := by
    intro i
    unfold seqRmVisit
    split
    · rename_i hc
      have hmem : q ∈ (x.cell i).seq := by simpa [seqHas] using hc.2
      have hpos : p0 ≤ (x.cell i).pos ∧ (x.cell i).pos < p1 := by simpa [posIn] using hc.1
      have hi := h i
      rw [cutSeq, if_pos ⟨hpos.1, hpos.2, hmem⟩] at hi
      have := congrArg Cell.seq hi
      rw [Cell.seq_erase] at this
      rw [← this] at hmem
      simp at hmem
    · rfl
  unfold sweep
  generalize List.range x.size = l
  induction l with
  | nil => rfl
  | cons i l ih =>
    rw [foldl_cons]
    simp only [hvisit, Bool.false_eq_true, false_and, if_false] at ih ⊢
    exact ih

lemma headOf_seqRm_of_eq {t : Nat}
    (h : t = c.seqToStream q → ∀ i, cutSeq q (rangeLo p0) (rangeHi p1) (c.cell t i) = c.cell t i) :
    (c.seqRm (some q) p0 p1).headOf t = c.headOf t := by
  have hheads : (c.seqRm (some q) p0 p1).headOf t = (c.rmCells (some q) p0 p1).headOf t := by
    rw [headOf, (pagesOnly_seqRm c (some q) p0 p1).heads]
    rfl
  rw [hheads, rmCells, sweepStream]
  by_cases ht : t = c.seqToStream q
  · subst ht
    have hsw := sweep_seqRmVisit_eq q (rangeLo p0) (rangeHi p1) (x := c.cellsOf (c.seqToStream q))
      (h rfl)
    simp [hsw]
  · split
    · rw [headOf_setHead, if_neg fun e => ht e.1.symm]
      rfl
    · rfl

lemma headOf_seqRm_le (t : Nat) : (c.seqRm (some q) p0 p1).headOf t ≤ c.headOf t := by
  have hheads : (c.seqRm (some q) p0 p1).headOf t = (c.rmCells (some q) p0 p1).headOf t := by
    rw [headOf, (pagesOnly_seqRm c (some q) p0 p1).heads]
    rfl
  rw [hheads, rmCells, sweepStream]
  split
  · rename_i hlt
    rw [headOf_setHead]
    split
    · rename_i e
      rw [← e.1]
      exact le_of_lt hlt.2
    · exact le_rfl
  · exact le_rfl

lemma Wf.seqRm (h : Wf kvSize c) : Wf kvSize (c.seqRm (some q) p0 p1) :=
  ⟨(keeps_seqRm _ _ _ _).shape h.shape, fun t => (headOf_seqRm_le q p0 p1 t).trans (h.head_le t),
    inv_seqRm q p0 p1 h.shape h.inv⟩

end SeqRm

lemma pos_cutSeq {q r : SeqId} {p0 p1 : Int} {x : Cell} (h : r ∈ (cutSeq q p0 p1 x).seq) :
    (cutSeq q p0 p1 x).pos = x.pos := by
  obtain heq | ⟨-, heq | ⟨-, heq⟩⟩ := cut_cutSeq q p0 p1 x
  · rw [heq]
  · rw [heq] at h
    exact absurd h (Finset.notMem_empty r)
  · rw [heq]

/-- Reset a cell with a position in `[p0, p1)`. -/
def cutAny (p0 p1 : Int) (x : Cell) : Cell := if p0 ≤ x.pos ∧ x.pos < p1 then {} else x

/-- The visit of `seq_rm` for any sequence resets the cell. -/
lemma isVisit_rmVisit (p0 p1 : Int) : IsVisit (rmVisit p0 p1) (cutAny p0 p1) := by
  refine ⟨size_rmVisit p0 p1, ?_⟩
  intro x i j hi
  unfold rmVisit cutAny posIn
  by_cases hc : p0 ≤ (x.cell i).pos ∧ (x.cell i).pos < p1
  · rw [if_pos (by simpa using hc), cell_rm]
    by_cases hij : i = j
    · subst hij
      simp [hi, hc]
    · simp [hij]
  · rw [if_neg (by simpa using hc)]
    by_cases hij : i = j
    · subst hij
      simp [hc]
    · simp [hij]

/-- `seq_rm` for any sequence sweeps the streams one after the other. -/
lemma cellsOf_rmCells_none {kvSize : Nat} {c : KvCache} (hs : Shape kvSize c) (p0 p1 : Int) (t : Nat) :
    (c.rmCells none p0 p1).cellsOf t =
      if t < c.nStream then ((c.cellsOf t).sweep (rmVisit (rangeLo p0) (rangeHi p1))).1 else c.cellsOf t := by
  have main : ∀ k ≤ c.nStream,
      ((List.range k).foldl (fun c t => c.sweepStream (rmVisit (rangeLo p0) (rangeHi p1)) t) c).cellsOf t =
        if t < k then ((c.cellsOf t).sweep (rmVisit (rangeLo p0) (rangeHi p1))).1 else c.cellsOf t := by
    intro k
    induction k with
    | zero =>
      intro _
      rw [if_neg (Nat.not_lt_zero t)]
      rfl
    | succ k ih =>
      intro hk
      have honly := cellsOnly_foldl (fun c t => cellsOnly_sweepStream (size_rmVisit (rangeLo p0) (rangeHi p1)) c t)
        (List.range k) c
      have hlen := (honly.shape hs).cells.trans (congrArg KvParams.nStream honly.params)
      rw [List.range_succ, foldl_append, foldl_cons, foldl_nil, cellsOf_sweepStream, hlen, ih (Nat.le_of_succ_le hk)]
      rcases lt_trichotomy t k with hlt | rfl | hgt
      · rw [if_neg (by omega), if_pos hlt, if_pos (by omega)]
      · rw [if_pos ⟨rfl, hk⟩, ih (Nat.le_of_succ_le hk), if_neg (lt_irrefl t), if_pos (Nat.lt_succ_self t)]
      · rw [if_neg (by omega), if_neg (by omega), if_neg (by omega)]
  exact main c.nStream (le_refl _)

lemma cell_seqRm_none {kvSize : Nat} {c : KvCache} (hs : Shape kvSize c) (p0 p1 : Int) (t i : Nat) :
    (c.seqRm none p0 p1).cell t i = cutAny (rangeLo p0) (rangeHi p1) (c.cell t i) := by
  have hempty : cutAny (rangeLo p0) (rangeHi p1) {} = {} := by
    unfold cutAny
    exact ite_self _
  rw [(pagesOnly_seqRm c none p0 p1).cell, cell, cellsOf_rmCells_none hs]
  split
  · exact cell_sweep (isVisit_rmVisit _ _) hempty _ i
  · rename_i hout
    -- beyond the streams there are no cells
    have hnil : c.cellsOf t = {} := by
      rw [cellsOf, getD_eq_default _ _ (by rw [hs.cells]; omega)]
    rw [cell, hnil]
    exact hempty.symm

/-- The removals, with `none` for any sequence. -/
def removeAll (c : KvCache) (rms : List (Option SeqId × Int × Int)) : KvCache :=
  rms.foldl (fun c rm => c.seqRm rm.1 rm.2.1 rm.2.2) c

/-- A removal is about sequence `r` in stream `t`. -/
def Concerns (c : KvCache) (seq : Option SeqId) (t : Nat) (r : SeqId) : Prop :=
  seq = none ∨ seq = some r ∧ t = c.seqToStream r

/-- One removal. -/
lemma mem_seqRm {kvSize : Nat} {c : KvCache} (hs : Shape kvSize c) (seq : Option SeqId) (p0 p1 : Int) (t i : Nat)
    (r : SeqId) : r ∈ ((c.seqRm seq p0 p1).cell t i).seq ↔ r ∈ (c.cell t i).seq ∧
      (c.Concerns seq t r → ¬ (rangeLo p0 ≤ (c.cell t i).pos ∧ (c.cell t i).pos < rangeHi p1)) := by
  cases seq with
  | none =>
    rw [cell_seqRm_none hs, cutAny]
    split
    next hin => exact iff_of_false (Finset.notMem_empty r) fun h => h.2 (.inl rfl) hin
    next hout => exact (and_iff_left fun _ => hout).symm
  | some q =>
    rw [cell_seqRm_some _ _ _ hs]
    split
    next ht =>
      rw [mem_cutSeq]
      refine and_congr_right fun _ => ⟨?_, ?_⟩
      · rintro hno (hcase | ⟨heq, -⟩) hin
        · cases hcase
        · cases heq
          exact hno ⟨rfl, hin⟩
      · rintro hno ⟨rfl, hin⟩
        exact hno (.inr ⟨rfl, ht⟩) hin
    next ht =>
      refine (and_iff_left ?_).symm
      rintro (hcase | ⟨heq, hst⟩)
      · cases hcase
      · cases heq
        exact absurd hst ht

/-- A cell that keeps a sequence keeps its position. -/
lemma pos_seqRm {kvSize : Nat} {c : KvCache} (hs : Shape kvSize c) {seq : Option SeqId} {p0 p1 : Int} {t i : Nat}
    {r : SeqId} (h : r ∈ ((c.seqRm seq p0 p1).cell t i).seq) : ((c.seqRm seq p0 p1).cell t i).pos = (c.cell t i).pos := by
  cases seq with
  | none =>
    rw [cell_seqRm_none hs, cutAny] at h ⊢
    split at h
    next => exact absurd h (Finset.notMem_empty r)
    next hout => rw [if_neg hout]
  | some q =>
    rw [cell_seqRm_some _ _ _ hs] at h ⊢
    split at h
    next ht => rw [if_pos ht, pos_cutSeq h]
    next ht => rw [if_neg ht]

/-- After any removals, in any order, a cell has lost exactly the sequences that a removal is about whose range has its
position. -/
theorem mem_removeAll {kvSize : Nat} {c : KvCache} (hs : Shape kvSize c) (rms : List (Option SeqId × Int × Int))
    (t i : Nat) (r : SeqId) : r ∈ ((c.removeAll rms).cell t i).seq ↔ r ∈ (c.cell t i).seq ∧
      ∀ rm ∈ rms, c.Concerns rm.1 t r →
        ¬ (rangeLo rm.2.1 ≤ (c.cell t i).pos ∧ (c.cell t i).pos < rangeHi rm.2.2) := by
  induction rms generalizing c with
  | nil => exact ⟨fun h => ⟨h, nofun⟩, And.left⟩
  | cons rm rms ih =>
    have hcells := cellsOnly_rmCells c rm.1 rm.2.1 rm.2.2
    have hpages := pagesOnly_seqRm c rm.1 rm.2.1 rm.2.2
    have hconcerns : ∀ seq, (c.seqRm rm.1 rm.2.1 rm.2.2).Concerns seq t r ↔ c.Concerns seq t r := by
      intro seq
      rw [Concerns, Concerns, seqToStream_congr (hpages.params.trans hcells.params) r]
    rw [removeAll, foldl_cons, ← removeAll, ih (hpages.shape (hcells.shape hs)), List.forall_mem_cons, ← and_assoc,
      ← mem_seqRm hs]
    simp only [hconcerns]
    exact and_congr_right fun hr => by rw [pos_seqRm hs hr]

/-- A cell of sequence 5 at position 1, and one of the sequences 5 and 6 at position 3. -/
def twoCells : KvCache :=
  (init false true false 2 1 0 .none 1 0).setCells 0
    (((((({} : KvCells).resize 2).posSet 0 1).seqAdd 0 5).posSet 1 3).seqAdd 1 5 |>.seqAdd 1 6)

/-- The removal of sequence 6 leaves sequence 5 in the first cell; the one of any sequence takes both out of the second. -/
theorem mem_removeAll_twoCells :
    5 ∈ ((twoCells.removeAll [(some 6, 0, 2), (none, 3, -1), (some 5, 2, -1)]).cell 0 0).seq ∧
      5 ∉ ((twoCells.removeAll [(some 6, 0, 2), (none, 3, -1)]).cell 0 1).seq ∧
      6 ∉ ((twoCells.removeAll [(some 6, 0, 2), (none, 3, -1)]).cell 0 1).seq := by
  have hs : Shape 2 twoCells := (shape_init _ _ _ _ _ _ _ _ _ (by decide)).setCells (by simp [cellsOf, init])
  have hpos : (twoCells.cell 0 0).pos = 1 ∧ (twoCells.cell 0 1).pos = 3 := by decide +kernel
  refine ⟨(mem_removeAll hs _ 0 0 5).2 ⟨by decide +kernel, ?_⟩, fun h => ?_, fun h => ?_⟩
  · rw [hpos.1]
    simp only [List.forall_mem_cons]
    exact ⟨fun h => absurd h (by simp [Concerns]), fun _ => by decide, fun _ => by decide, forall_mem_nil _⟩
  · exact ((mem_removeAll hs _ 0 1 5).1 h).2 (none, 3, -1) (by decide) (.inl rfl) (by rw [hpos.2]; decide)
  · exact ((mem_removeAll hs _ 0 1 6).1 h).2 (none, 3, -1) (by decide) (.inl rfl) (by rw [hpos.2]; decide)

section Purge
variable {c : KvCache} {kvSize : Nat} {m : PosMaxRm}

/-- The purge looks at a sequence: something was overwritten, and its least position is not past it. -/
def PurgeRuns (m : PosMaxRm) (c : KvCache) (q : SeqId) : Prop :=
  m q ≠ -1 ∧ (c.cellsOf (c.seqToStream q)).seqPosMin q ≤ m q

lemma cell_purgeSeq (hs : Shape kvSize c) (h : ∀ t, Inv (c.cellsOf t)) (hm : ∀ q, -1 ≤ m q)
    (q : SeqId) (t i : Nat) : (purgeSeq m c q).cell t i =
      if t = c.seqToStream q then cutSeq q 0 (m q + 1) (c.cell t i) else c.cell t i := by
  -- a cell that holds the sequence is not before its least position
  have hlo : ∀ i, q ∈ (c.cell (c.seqToStream q) i).seq →
      (c.cellsOf (c.seqToStream q)).seqPosMin q ≤ (c.cell (c.seqToStream q) i).pos := by
    intro i hq
    have hmem : (c.cell (c.seqToStream q) i).pos ∈ (c.cellsOf (c.seqToStream q)).positions q :=
      ⟨i, lt_size_of_mem_seq hq, hq, rfl⟩
    obtain ⟨he, _⟩ | hl := (h (c.seqToStream q)).seqPosMin_spec q
    · rw [he] at hmem
      exact hmem.elim
    · exact hl.2 hmem
  have hmq := hm q
  unfold purgeSeq
  simp only []
  split
  · rename_i hrun
    rw [cell_seqRm_some q _ _ hs]
    split
    · rename_i ht
      subst ht
      have hhi : rangeHi (m q + 1) = m q + 1 := by
        unfold rangeHi
        rw [if_neg (by omega)]
      have hiff : (rangeLo ((c.cellsOf (c.seqToStream q)).seqPosMin q) ≤
            (c.cell (c.seqToStream q) i).pos ∧ (c.cell (c.seqToStream q) i).pos < m q + 1 ∧
            q ∈ (c.cell (c.seqToStream q) i).seq) ↔
          (0 ≤ (c.cell (c.seqToStream q) i).pos ∧ (c.cell (c.seqToStream q) i).pos < m q + 1 ∧
            q ∈ (c.cell (c.seqToStream q) i).seq) := by
        constructor
        · rintro ⟨h1, h2, h3⟩
          refine ⟨?_, h2, h3⟩
          unfold rangeLo at h1
          split at h1 <;> omega
        · rintro ⟨h1, h2, h3⟩
          refine ⟨?_, h2, h3⟩
          have := hlo i h3
          unfold rangeLo
          split <;> omega
      rw [hhi]
      unfold cutSeq
      by_cases hc : 0 ≤ (c.cell (c.seqToStream q) i).pos ∧
          (c.cell (c.seqToStream q) i).pos < m q + 1 ∧ q ∈ (c.cell (c.seqToStream q) i).seq
      · rw [if_pos hc, if_pos (hiff.2 hc)]
      · rw [if_neg hc, if_neg fun hc' => hc (hiff.1 hc')]
    · rfl
  · rename_i hrun
    split
    · rename_i ht
      subst ht
      unfold cutSeq
      rw [if_neg]
      rintro ⟨h1, h2, h3⟩
      have := hlo i h3
      exact hrun ⟨by omega, by omega⟩
    · rfl

/-- What the purge keeps. -/
structure PurgeKeep (c c' : KvCache) : Prop where
  keeps : Keeps c c'
  scInfo : c'.scInfo = c.scInfo
  inv : ∀ t, Inv (c'.cellsOf t)
  hasShift : ∀ t, (c'.cellsOf t).hasShift = (c.cellsOf t).hasShift
  cut : ∀ t i, Cell.Cut (c'.cell t i) (c.cell t i)

lemma PurgeKeep.trans {c' c'' : KvCache} (h1 : PurgeKeep c c') (h2 : PurgeKeep c' c'') : PurgeKeep c c'' :=
  ⟨h1.keeps.trans h2.keeps, h2.scInfo.trans h1.scInfo, h2.inv,
    fun t => (h2.hasShift t).trans (h1.hasShift t), fun t i => (h2.cut t i).trans (h1.cut t i)⟩

lemma purgeKeep_purgeSeq (hs : Shape kvSize c) (h : ∀ t, Inv (c.cellsOf t)) (q : SeqId) :
    PurgeKeep c (purgeSeq m c q) := by
  unfold purgeSeq
  simp only []
  split
  · refine ⟨keeps_seqRm _ _ _ _, scInfo_seqRm _ _ _ _, inv_seqRm _ _ _ hs h, hasShift_seqRm_some _ _ _ hs, ?_⟩
    intro t i
    rw [cell_seqRm_some _ _ _ hs]
    split
    · exact cut_cutSeq _ _ _ _
    · exact Cell.Cut.refl _
  · exact ⟨Keeps.refl c, rfl, h, fun _ => rfl, fun _ _ => Cell.Cut.refl _⟩

lemma cuts_foldl {f : KvCache → SeqId → KvCache} (hit : SeqId → Int → Prop)
    (hkeep : ∀ {c : KvCache}, Shape kvSize c → (∀ t, Inv (c.cellsOf t)) → ∀ q, PurgeKeep c (f c q))
    (hmem : ∀ {c : KvCache}, Shape kvSize c → (∀ t, Inv (c.cellsOf t)) → ∀ q t i r,
      r ∈ ((f c q).cell t i).seq ↔ r ∈ (c.cell t i).seq ∧ ¬ (r = q ∧ t = c.seqToStream r ∧ hit r (c.cell t i).pos))
    (l : List SeqId) (hs : Shape kvSize c) (h : ∀ t, Inv (c.cellsOf t)) : PurgeKeep c (l.foldl f c) ∧
      ∀ t i r, r ∈ ((l.foldl f c).cell t i).seq ↔ r ∈ (c.cell t i).seq ∧
        ¬ (r ∈ l ∧ t = c.seqToStream r ∧ hit r (c.cell t i).pos) := by
  induction l generalizing c with
  | nil => exact ⟨⟨Keeps.refl c, rfl, h, fun _ => rfl, fun _ _ => Cell.Cut.refl _⟩, by simp⟩
  | cons q l ih =>
    have h1 := hkeep hs h q
    obtain ⟨h2, hrest⟩ := ih (h1.keeps.shape hs) h1.inv
    rw [foldl_cons]
    refine ⟨h1.trans h2, fun t i r => ?_⟩
    -- a cell that still holds the sequence kept its position
    have hpos : r ∈ ((f c q).cell t i).seq → ((f c q).cell t i).pos = (c.cell t i).pos := by
      intro hr
      refine (h1.cut t i).pos_eq fun hneg => ?_
      rw [cell, ((h1.inv t).empty i hneg).1] at hr
      exact absurd hr (notMem_empty r)
    rw [hrest, seqToStream_congr h1.keeps.params]
    constructor
    · rintro ⟨hr, hno⟩
      obtain ⟨hr', hno'⟩ := (hmem hs h q t i r).1 hr
      rw [hpos hr] at hno
      refine ⟨hr', ?_⟩
      rintro ⟨hl, hhit⟩
      rcases List.mem_cons.1 hl with rfl | hl
      · exact hno' ⟨rfl, hhit⟩
      · exact hno ⟨hl, hhit⟩
    · rintro ⟨hr, hno⟩
      have hr' := (hmem hs h q t i r).2 ⟨hr, fun hh => hno ⟨List.mem_cons.2 (.inl hh.1), hh.2⟩⟩
      rw [hpos hr']
      exact ⟨hr', fun hh => hno ⟨List.mem_cons_of_mem _ hh.1, hh.2⟩⟩

section
variable (hm : ∀ q, -1 ≤ m q)
include hm

lemma purge_foldl (l : List SeqId) (hs : Shape kvSize c)
    (h : ∀ t, Inv (c.cellsOf t)) : PurgeKeep c (l.foldl (purgeSeq m) c) ∧
      ∀ t i q, q ∈ ((l.foldl (purgeSeq m) c).cell t i).seq ↔ q ∈ (c.cell t i).seq ∧
        ¬ (q ∈ l ∧ t = c.seqToStream q ∧ 0 ≤ (c.cell t i).pos ∧ (c.cell t i).pos ≤ m q) := by
  refine cuts_foldl (fun q p => 0 ≤ p ∧ p ≤ m q) (fun hs h q => purgeKeep_purgeSeq hs h q) ?_ l hs h
  intro c hs h q t i r
  rw [cell_purgeSeq hs h hm q t i]
  split
  · rename_i ht
    rw [mem_cutSeq]
    refine and_congr_right fun _ => not_congr ⟨?_, ?_⟩
    · rintro ⟨rfl, hlo, hhi⟩
      exact ⟨rfl, ht, hlo, Int.lt_add_one_iff.1 hhi⟩
    · rintro ⟨rfl, -, hlo, hhi⟩
      exact ⟨rfl, hlo, Int.lt_add_one_iff.2 hhi⟩
  · rename_i ht
    refine ⟨fun hr => ⟨hr, ?_⟩, fun h => h.1⟩
    rintro ⟨rfl, ht', -⟩
    exact ht ht'

variable (hs : Shape kvSize c) (h : ∀ t, Inv (c.cellsOf t))
include hs h

lemma mem_seq_purge (t i : Nat) (q : SeqId) : q ∈ ((c.purge m).cell t i).seq ↔ q ∈ (c.cell t i).seq ∧
      ¬ (t = c.seqToStream q ∧ 0 ≤ (c.cell t i).pos ∧ (c.cell t i).pos ≤ m q) := by
  have := (purge_foldl hm (List.finRange llamaMaxSeq) hs h).2 t i q
  simpa [purge] using this

lemma purgeKeep_purge : PurgeKeep c (c.purge m) :=
  (purge_foldl hm (List.finRange llamaMaxSeq) hs h).1

lemma cell_purge_eq_iff (t i : Nat) : (c.purge m).cell t i = c.cell t i ↔ ∀ q ∈ (c.cell t i).seq,
      ¬ (t = c.seqToStream q ∧ 0 ≤ (c.cell t i).pos ∧ (c.cell t i).pos ≤ m q) := by
  constructor
  · intro e q hq
    have := (mem_seq_purge hm hs h t i q).1 (by rw [e]; exact hq)
    exact this.2
  · intro hno
    refine ((purgeKeep_purge hm hs h).cut t i).eq_of_seq_eq ?_
    ext q
    rw [mem_seq_purge hm hs h]
    exact ⟨fun hh => hh.1, fun hq => ⟨hq, hno q hq⟩⟩

lemma pos_purge_ne_iff (t i : Nat) : ((c.purge m).cell t i).pos ≠ -1 ↔ (c.cell t i).pos ≠ -1 ∧
      ((c.cell t i).seq = ∅ ∨ ∃ q ∈ (c.cell t i).seq,
        ¬ (t = c.seqToStream q ∧ 0 ≤ (c.cell t i).pos ∧ (c.cell t i).pos ≤ m q)) := by
  have hk := purgeKeep_purge hm hs h
  constructor
  · intro hne
    refine ⟨(hk.cut t i).pos_ne hne, ?_⟩
    by_contra! hno
    obtain ⟨q, hq⟩ := nonempty_iff_ne_empty.2
      ((hk.cut t i).seq_ne hne (nonempty_iff_ne_empty.1 hno.1))
    rw [mem_seq_purge hm hs h] at hq
    exact hq.2 (hno.2 q hq.1)
  · rintro ⟨hne, he | ⟨q, hq, hno⟩⟩
    · have heq := (hk.cut t i).eq_of_seq_eq (by
        rw [he]
        exact subset_empty.1 (he ▸ (hk.cut t i).seq_subset))
      rw [heq]
      exact hne
    · intro hneg
      have hmem := (mem_seq_purge hm hs h t i q).2 ⟨hq, hno⟩
      rw [cell, ((hk.inv t).empty i hneg).1] at hmem
      simp at hmem

end

lemma purge_eq_self (hm : ∀ q, m q = -1) : c.purge m = c := by
  refine List.foldlRecOn (motive := fun b : KvCache => b = c) _ _ rfl ?_
  rintro b rfl q _
  unfold purgeSeq
  simp [hm q]

lemma applyUbatch_eq_of_empty {sl : SlotInfo} {u : Ubatch} (hnd : (sl.entries.map Prod.snd).Nodup)
    (hempty : ∀ e ∈ sl.entries, (c.cell e.2.1 e.2.2).pos = -1) :
    c.applyUbatch sl u = (c.applyTokens sl u).1.moveHeads sl := by
  rw [applyUbatch, purge_eq_self]
  intro q
  have hge := posMax_ge (c := c) (u := u) hnd q
  have hno : ¬ c.Overwrites sl q 0 := by
    rintro ⟨e, he, hne, _⟩
    exact hne (hempty e he)
  rw [← le_posMax_of_nonneg (u := u) hnd q le_rfl] at hno
  omega

lemma headOf_purge (hm : ∀ q, -1 ≤ m q) (hs : Shape kvSize c) (h : ∀ t, Inv (c.cellsOf t)) {t : Nat}
    (hno : ∀ i, ∀ q ∈ (c.cell t i).seq, ¬ (t = c.seqToStream q ∧ 0 ≤ (c.cell t i).pos ∧ (c.cell t i).pos ≤ m q)) :
    (c.purge m).headOf t = c.headOf t := by
  have hrun := List.foldlRecOn (motive := fun b : KvCache => PurgeKeep c b ∧
      (∀ i, b.cell t i = c.cell t i) ∧ b.headOf t = c.headOf t)
    (List.finRange llamaMaxSeq) (purgeSeq m)
    ⟨⟨Keeps.refl c, rfl, h, fun _ => rfl, fun _ _ => Cell.Cut.refl _⟩, fun _ => rfl, rfl⟩ (by
      rintro b ⟨hk, hcell, hhead⟩ q _
      have hst := seqToStream_congr hk.keeps.params q
      have hcut : t = b.seqToStream q → ∀ i, cutSeq q 0 (m q + 1) (b.cell t i) = b.cell t i := by
        intro ht i
        unfold cutSeq
        rw [if_neg]
        rintro ⟨h1, h2, h3⟩
        rw [hcell] at h1 h2 h3
        exact hno i q h3 ⟨by rw [← hst]; exact ht, h1, by omega⟩
      refine ⟨hk.trans (purgeKeep_purgeSeq (hk.keeps.shape hs) hk.inv q), ?_, ?_⟩
      · intro i
        rw [cell_purgeSeq (hk.keeps.shape hs) hk.inv hm, ← hcell i]
        split
        · rename_i ht
          exact hcut ht i
        · rfl
      · rw [← hhead]
        unfold purgeSeq
        simp only []
        split
        · refine headOf_seqRm_of_eq q _ _ fun ht i => ?_
          -- the range starts at the least position, which no cell precedes
          unfold cutSeq
          rw [if_neg]
          rintro ⟨h1, h2, h3⟩
          have hmq := hm q
          rw [hcell] at h1 h2 h3
          refine hno i q h3 ⟨by rw [← hst]; exact ht, ?_, ?_⟩
          · unfold rangeLo at h1
            split at h1 <;> omega
          · unfold rangeHi at h2
            rw [if_neg (by omega)] at h2
            omega
        · rfl)
  exact hrun.2.2

end Purge

section Pages
variable {c c' : KvCache} {kvSize : Nat} {m : PosMaxRm}

lemma PageLive.of_cut (hp : c'.toKvParams = c.toKvParams)
    (h0 : (c'.cellsOf 0).size = (c.cellsOf 0).size) {t lp : Nat}
    (hcut : ∀ i, Cell.Cut (c'.cell t i) (c.cell t i)) (h : c'.PageLive t lp) : c.PageLive t lp := by
  obtain ⟨i, hi, hne⟩ := h
  rw [hp, h0] at hi
  refine ⟨i, hi, ?_⟩
  have hpos : (c'.cell t i).pos ≠ -1 := by simpa [KvCells.isEmpty, cell] using hne
  simpa [KvCells.isEmpty, cell] using (hcut i).pos_ne hpos

/-- Pages only lose blocks, and only the pages of stream `t` do. -/
structure PagesLose (t : Nat) (c c' : KvCache) : Prop where
  pages : PagesOnly c c'
  mono : ∀ u lp, 0 ≤ c'.page u lp → c'.page u lp = c.page u lp
  other : ∀ u lp, u ≠ t → c'.page u lp = c.page u lp

lemma PagesLose.refl (t : Nat) (c : KvCache) : PagesLose t c c :=
  ⟨PagesOnly.refl c, fun _ _ _ => rfl, fun _ _ _ => rfl⟩

lemma PagesLose.trans {t : Nat} {c'' : KvCache} (h1 : PagesLose t c c') (h2 : PagesLose t c' c'') :
    PagesLose t c c'' := by
  refine ⟨h1.pages.trans h2.pages, ?_, ?_⟩
  · intro u lp hp
    have e := h2.mono u lp hp
    rw [e] at hp
    rw [e, h1.mono u lp hp]
  · intro u lp hu
    rw [h2.other u lp hu, h1.other u lp hu]

lemma pagesLose_tryFreePage (c : KvCache) (t lp : Nat) : PagesLose t c (c.tryFreePage t lp) := by
  unfold tryFreePage
  split
  · exact PagesLose.refl t c
  split
  · exact PagesLose.refl t c
  rename_i hneg _
  have hpage : ∀ u mp, (c.releasePage t lp).page u mp =
      if t = u ∧ lp = mp then -1 else c.page u mp := page_releasePage (by omega)
  refine ⟨⟨rfl, rfl, rfl, rfl⟩, ?_, ?_⟩
  · intro u mp h
    rw [hpage] at h ⊢
    split
    · rename_i e
      rw [if_pos e] at h
      exact absurd h (by decide)
    · rfl
  · intro u mp hu
    rw [hpage, if_neg fun e => hu e.1.symm]

lemma pagesLose_foldl (t : Nat) (l : List Nat) (c : KvCache) :
    PagesLose t c (l.foldl (fun c lp => c.tryFreePage t lp) c) :=
  List.foldlRecOn (motive := PagesLose t c) _ _ (PagesLose.refl t c)
    fun b hb lp _ => hb.trans (pagesLose_tryFreePage b t lp)

lemma pagesLose_freePages (c : KvCache) (t : Nat) : PagesLose t c (c.freePages t) :=
  pagesLose_foldl t _ c

lemma pageLive_of_freePages {t lp : Nat} (hlp : lp < pagesFor (c.cellsOf 0).size c.pgBlockSize)
    (hp : 0 ≤ (c.freePages t).page t lp) : c.PageLive t lp := by
  obtain ⟨l, r, hlr⟩ := append_of_mem (List.mem_range.2 hlp)
  unfold freePages at hp
  rw [hlr, foldl_append, foldl_cons] at hp
  generalize hb : l.foldl (fun c lp => c.tryFreePage t lp) c = b at hp
  have hlose : PagesLose t c b := by
    rw [← hb]
    exact pagesLose_foldl t l c
  have hstep := (pagesLose_foldl t r (b.tryFreePage t lp)).mono t lp hp
  rw [hstep] at hp
  have hlive : b.PageLive t lp := by
    by_contra hno
    have hpb : 0 ≤ b.page t lp := by
      have := (pagesLose_tryFreePage b t lp).mono t lp hp
      rwa [this] at hp
    unfold tryFreePage at hp
    rw [if_neg (by omega), if_neg hno, page_releasePage hpb, if_pos ⟨rfl, rfl⟩] at hp
    exact absurd hp (by decide)
  refine hlive.of_cut hlose.pages.params ?_ ?_
  · rw [hlose.pages.cellsOf]
  · intro i
    rw [hlose.pages.cell]
    exact Cell.Cut.refl _

lemma freePages_eq {t : Nat} (h : ∀ lp < pagesFor (c.cellsOf 0).size c.pgBlockSize,
    0 ≤ c.page t lp → c.PageLive t lp) : c.freePages t = c := by
  refine List.foldlRecOn (motive := fun b : KvCache => b = c) _ _ rfl ?_
  rintro b rfl lp hlp
  unfold tryFreePage
  split
  · rfl
  · rw [if_pos (h lp (List.mem_range.1 hlp) (by omega))]

lemma purgeSeq_cases (m : PosMaxRm) (c : KvCache) (q : SeqId) : (¬ PurgeRuns m c q ∧ purgeSeq m c q = c) ∨
      (PurgeRuns m c q ∧ ∃ b, CellsOnly c b ∧ (∀ t, t ≠ c.seqToStream q → b.cellsOf t = c.cellsOf t) ∧
        purgeSeq m c q = if c.pgEnabled then b.freePages (c.seqToStream q) else b) := by
  unfold purgeSeq PurgeRuns
  simp only []
  split
  · rename_i hrun
    have heq := seqRm_eq c (some q) ((c.cellsOf (c.seqToStream q)).seqPosMin q) (m q + 1)
    refine .inr ⟨hrun, _, cellsOnly_rmCells c _ _ _, ?_, heq⟩
    intro t ht
    rw [rmCells, cellsOf_sweepStream, if_neg fun e => ht e.1.symm]
  · rename_i hrun
    exact .inl ⟨hrun, rfl⟩

lemma seqPosMin_congr {x y : KvCells} (hx : Inv x) (hy : Inv y) {q : SeqId}
    (h : x.positions q = y.positions q) : x.seqPosMin q = y.seqPosMin q := by
  obtain ⟨he, e1⟩ | h1 := hx.seqPosMin_spec q
  · obtain ⟨_, e2⟩ | h2 := hy.seqPosMin_spec q
    · rw [e1, e2]
    · rw [← h, he] at h2
      exact h2.1.elim
  · obtain ⟨he, _⟩ | h2 := hy.seqPosMin_spec q
    · rw [h, he] at h1
      exact h1.1.elim
    · rw [h] at h1
      exact h1.unique h2

section
variable (hm : ∀ q, -1 ≤ m q) (hs : Shape kvSize c) (h : ∀ t, Inv (c.cellsOf t))
include hm hs h

lemma purgeRuns_foldl
    {l : List SeqId} {q : SeqId} (hq : q ∉ l) : PurgeRuns m (l.foldl (purgeSeq m) c) q ↔ PurgeRuns m c q := by
  obtain ⟨hk, hmem⟩ := purge_foldl hm l hs h
  unfold PurgeRuns
  rw [seqToStream_congr hk.keeps.params]
  have hpos : ((l.foldl (purgeSeq m) c).cellsOf (c.seqToStream q)).positions q =
      (c.cellsOf (c.seqToStream q)).positions q := by
    have hiff : ∀ i, q ∈ ((l.foldl (purgeSeq m) c).cell (c.seqToStream q) i).seq ↔
        q ∈ (c.cell (c.seqToStream q) i).seq := by
      intro i
      rw [hmem]
      exact ⟨fun hh => hh.1, fun hh => ⟨hh, fun e => hq e.1⟩⟩
    have heq : ∀ i, q ∈ (c.cell (c.seqToStream q) i).seq →
        ((l.foldl (purgeSeq m) c).cell (c.seqToStream q) i).pos = (c.cell (c.seqToStream q) i).pos := by
      intro i hi
      refine (hk.cut _ i).pos_eq fun hneg => ?_
      have := ((hk.inv (c.seqToStream q)).empty i hneg).1
      have hi' := (hiff i).2 hi
      rw [cell, this] at hi'
      simp at hi'
    ext p
    constructor
    · rintro ⟨i, _, hi, hp⟩
      have hi' := (hiff i).1 hi
      exact ⟨i, lt_size_of_mem_seq hi', hi', (heq i hi').symm.trans hp⟩
    · rintro ⟨i, _, hi, hp⟩
      have hi' := (hiff i).2 hi
      exact ⟨i, lt_size_of_mem_seq hi', hi', (heq i hi).trans hp⟩
  rw [seqPosMin_congr (hk.inv _) (h _) hpos]

lemma pool_purge_of_live (hlive : c.pgEnabled = true → ∀ q, PurgeRuns m c q →
      ∀ lp < pagesFor kvSize c.pgBlockSize, 0 ≤ c.page (c.seqToStream q) lp →
        (c.purge m).PageLive (c.seqToStream q) lp) : (c.purge m).pool = c.pool := by
  -- the state after a prefix of the sequences, by induction on the prefix
  suffices hpre : ∀ l r, List.finRange llamaMaxSeq = l ++ r →
      (l.foldl (purgeSeq m) c).pool = c.pool from hpre _ [] (append_nil _).symm
  intro l
  induction l using List.reverseRecOn with
  | nil => exact fun _ _ => rfl
  | append_singleton l q ih =>
    intro r hr
    have ihl := ih (q :: r) (by rw [hr]; simp)
    have hnd : (l ++ [q] ++ r).Nodup := by
      rw [← hr]
      exact nodup_finRange _
    have hq : q ∉ l := by
      intro hmem
      have hnd' := (nodup_append.1 (nodup_append.1 hnd).1).2.2
      exact hnd' q hmem q (by simp) rfl
    obtain ⟨hk, _⟩ := purge_foldl hm l hs h
    have hrest : c.purge m = r.foldl (purgeSeq m) (purgeSeq m (l.foldl (purgeSeq m) c) q) := by
      rw [purge, hr, foldl_append, foldl_append]
      rfl
    have hruns := purgeRuns_foldl hm hs h hq
    have hst := seqToStream_congr hk.keeps.params q
    rw [foldl_append]
    simp only [foldl_cons, foldl_nil]
    generalize l.foldl (purgeSeq m) c = b at *
    have hsb := hk.keeps.shape hs
    obtain ⟨_, e⟩ | ⟨hrun, d, hd, _, e⟩ := purgeSeq_cases m b q
    · rw [e]
      exact ihl
    · have hkd := purgeKeep_purgeSeq (m := m) hsb hk.inv q
      have hkr := (purge_foldl hm r (hkd.keeps.shape hsb) hkd.inv).1
      rw [← hrest] at hkr
      rw [e] at hkr ⊢
      split
      · rename_i hen
        rw [if_pos hen] at hkr
        have hpd := pagesOnly_freePages d (b.seqToStream q)
        rw [freePages_eq, hd.pool]
        · exact ihl
        · intro lp hlp hpage
          rw [(hd.shape hsb).size 0 (hd.shape hsb).streams, hd.params, hk.keeps.params] at hlp
          rw [page_of_pool_eq (hd.pool.trans ihl), hst] at hpage
          have hl := hlive (by rw [← hk.keeps.params]; exact hen) q (hruns.1 hrun) lp hlp hpage
          rw [← hst] at hl
          have hsd := hd.shape hsb
          refine hl.of_cut (hkr.keeps.params.trans hpd.params) ?_ ?_
          · rw [(hkr.keeps.shape (hpd.shape hsd)).size 0 (hkr.keeps.shape (hpd.shape hsd)).streams,
              hsd.size 0 hsd.streams]
          · intro i
            rw [← hpd.cell]
            exact hkr.cut _ i
      · rw [hd.pool]
        exact ihl

lemma live_of_pool_purge (hpool : (c.purge m).pool = c.pool) (hen : c.pgEnabled = true) {q : SeqId}
    (hrun : PurgeRuns m c q) {lp : Nat} (hlp : lp < pagesFor kvSize c.pgBlockSize)
    (hp : 0 ≤ c.page (c.seqToStream q) lp) : (c.purge m).PageLive (c.seqToStream q) lp := by
  suffices hpre : ∀ l : List SeqId, l.Nodup → ∀ q ∈ l, PurgeRuns m c q →
      0 ≤ (l.foldl (purgeSeq m) c).page (c.seqToStream q) lp →
      (l.foldl (purgeSeq m) c).PageLive (c.seqToStream q) lp by
    refine hpre _ (nodup_finRange _) q (mem_finRange q) hrun ?_
    rw [page_of_pool_eq (show (List.foldl (purgeSeq m) c (List.finRange llamaMaxSeq)).pool = c.pool
      from hpool)]
    exact hp
  intro l
  induction l using List.reverseRecOn with
  | nil => simp
  | append_singleton l r ih =>
    intro hnd q hq hrq
    obtain ⟨hndl, _, hdis⟩ := nodup_append.1 hnd
    have hrl : r ∉ l := fun hmem => hdis r hmem r (by simp) rfl
    obtain ⟨hk, _⟩ := purge_foldl hm l hs h
    have hruns := purgeRuns_foldl hm hs h hrl
    have hst := seqToStream_congr hk.keeps.params r
    have ihl := ih hndl
    rw [foldl_append]
    simp only [foldl_cons, foldl_nil]
    generalize l.foldl (purgeSeq m) c = b at *
    have hsb := hk.keeps.shape hs
    obtain ⟨hno, e⟩ | ⟨hrun, d, hd, hother, e⟩ := purgeSeq_cases m b r
    · rw [e]
      obtain hql | hqr := mem_append.1 hq
      · exact ihl q hql hrq
      · obtain rfl : q = r := by simpa using hqr
        exact absurd (hruns.2 hrq) hno
    · have hen' : b.pgEnabled = true := by
        rw [hk.keeps.params]
        exact hen
      rw [e, if_pos hen', hst]
      have hsd := hd.shape hsb
      have hlose := pagesLose_freePages d (c.seqToStream r)
      intro hp
      -- liveness only depends on the cells, which the freeing leaves alone
      have hback : d.PageLive (c.seqToStream q) lp →
          (d.freePages (c.seqToStream r)).PageLive (c.seqToStream q) lp := by
        intro hl
        refine hl.of_cut hlose.pages.params.symm ?_ ?_
        · rw [hlose.pages.cellsOf]
        · intro i
          rw [hlose.pages.cell]
          exact Cell.Cut.refl _
      apply hback
      by_cases hqr : c.seqToStream q = c.seqToStream r
      · rw [hqr] at hp ⊢
        refine pageLive_of_freePages ?_ hp
        rw [hsd.size 0 hsd.streams, hd.params, hk.keeps.params]
        exact hlp
      · have hql : q ∈ l := by
          obtain hql | hqr' := mem_append.1 hq
          · exact hql
          · obtain rfl : q = r := by simpa using hqr'
            exact absurd rfl hqr
        rw [hlose.other _ _ hqr, page_of_pool_eq hd.pool] at hp
        refine (ihl q hql hrq hp).of_cut hd.params.symm ?_ ?_
        · rw [hsb.size 0 hsb.streams, hsd.size 0 hsd.streams]
        · intro i
          rw [cell, cell, hother _ (by rw [hst]; exact hqr)]
          exact Cell.Cut.refl _

end

end Pages

end KvCache

end Mallana
