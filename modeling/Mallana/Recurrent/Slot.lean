import Mallana.Recurrent.Invariant

/-!
# Finding a slot

`find_slot` in steps. `Mid` is the invariant between them: a sequence of the ubatch that got a cell owns it, but
need not be entered there yet. The search for cells (`takeCell`) never runs out of empty cells, since
there are as many cells as sequences (`exists_free`). The states follow their sequences:
`Carries` says that a step changes neither the state of a sequence nor that of a free cell.
-/

namespace Mallana

open Lib List Finset

namespace Recurrent

def Free (m : Recurrent) (i : Nat) : Prop := ∀ s < m.size, m.tail s ≠ some i

/-- Between the steps of `find_slot`: the sequences `D` own their cells. -/
structure Mid (m : Recurrent) (D : Finset Nat) : Prop where
  lt : ∀ s ∈ D, s < m.size
  bound : ∀ i < m.size, ∀ s ∈ (m.cells i).seqId, s < m.size ∧ m.tail s = some i
  tail : ∀ s < m.size, ∀ t, m.tail s = some t → t < m.size ∧ (s ∉ D → s ∈ (m.cells t).seqId)
  own : ∀ s ∈ D, ∃ t, m.tail s = some t ∧ ∀ q < m.size, m.tail q = some t → q = s
  free : ∀ i < m.size, m.Free i → (m.cells i).pos = -1

/-- The sequence has no cell, or shares it. -/
def Shared (m : Recurrent) (q : Nat) : Prop := ∀ t, m.tail q = some t → ∃ p < m.size, p ≠ q ∧ m.tail p = some t

section Mid
variable {m : Recurrent} {D : Finset Nat} {i q t : Nat}

lemma Mid.isEmpty_of_free (h : m.Mid D) (hi : i < m.size) (hf : m.Free i) : (m.cells i).isEmpty := by
  refine eq_empty_of_forall_notMem fun s hs => ?_
  obtain ⟨hlt, ht⟩ := h.bound i hi s hs
  exact hf s hlt ht

lemma Core.mid (h : m.Core) : m.Mid ∅ where
  lt s hs := absurd hs (notMem_empty s)
  bound i hi s hs := ⟨h.bound i hi s hs, (h.tail s (h.bound i hi s hs) i).2 ⟨hi, hs⟩⟩
  tail s hs t ht := by
    obtain ⟨hlt, hmem⟩ := (h.tail s hs t).1 ht
    exact ⟨hlt, fun _ => hmem⟩
  own s hs := absurd hs (notMem_empty s)
  free i hi hf := by
    refine h.empty i hi (eq_empty_of_forall_notMem fun s hs => ?_)
    have hlt := h.bound i hi s hs
    exact hf s hlt ((h.tail s hlt i).2 ⟨hi, hs⟩)

lemma Mid.free_of_isEmpty (h : m.Mid ∅) (he : (m.cells i).isEmpty) : m.Free i := by
  intro s hs ht
  have hmem := (h.tail s hs i ht).2 (notMem_empty s)
  exact notMem_empty s (he ▸ hmem)

lemma exists_free (hq : q < m.size) (hshare : m.Shared q) :
    ∃ i < m.size, m.Free i := by
  by_contra hno
  have hall : ∀ i < m.size, ∃ p < m.size, p ≠ q ∧ m.tail p = some i := by
    intro i hi
    by_contra hp
    refine hno ⟨i, hi, fun s hs ht => ?_⟩
    by_cases hsq : s = q
    · subst hsq
      exact hp (hshare i ht)
    · exact hp ⟨s, hs, hsq, ht⟩
  have hsub : Finset.range m.size ⊆
      ((Finset.range m.size).erase q).image fun p => (m.tail p).getD 0 := by
    intro i hi
    obtain ⟨p, hp, hpq, ht⟩ := hall i (Finset.mem_range.1 hi)
    refine mem_image.2 ⟨p, mem_erase.2 ⟨hpq, Finset.mem_range.2 hp⟩, ?_⟩
    rw [ht]
    rfl
  have hcard := (card_le_card hsub).trans card_image_le
  rw [card_erase_of_mem (Finset.mem_range.2 hq), card_range] at hcard
  omega

end Mid

section States
variable {R : Type} [Zero R] (rows : Nat → R)

/-- The state of a cell, if the state data is `rows`; without a source it is zero. -/
def val (m : Recurrent) (i : Nat) : R := (m.cells i).src.elim 0 rows

def seqVal (m : Recurrent) (q : Nat) : R := (m.tail q).elim 0 (m.val rows)

def Blank (m : Recurrent) : Prop := ∀ i < m.size, m.Free i → m.val rows i = 0

end States

/-- The sequences and the free cells keep their states. -/
structure Carries (m m' : Recurrent) : Prop where
  size : m'.size = m.size
  blank : ∀ {R : Type} [Zero R] (rows : Nat → R), m.Blank rows → m'.Blank rows
  seqVal : ∀ {R : Type} [Zero R] (rows : Nat → R), m.Blank rows → ∀ q < m.size, m'.seqVal rows q = m.seqVal rows q

def held (m : Recurrent) (q : Nat) : Option (Int × Option Nat) :=
  (m.tail q).map fun t => ((m.cells t).pos, (m.cells t).src)

/-- A cell that is not owned by one of the sequences `D` has its state in its own row. -/
def Home (m : Recurrent) (D : Finset Nat) : Prop :=
  ∀ i < m.size, (∀ q ∈ D, m.tail q ≠ some i) → (m.cells i).src = some i ∨ ((m.cells i).src = none ∧ m.Free i)

section Carries
variable {m m' m'' : Recurrent} {q : Nat}

lemma carries_refl (m : Recurrent) : Carries m m := ⟨rfl, fun _ h => h, fun _ _ _ _ => rfl⟩

lemma Carries.trans (h : Carries m m') (h' : Carries m' m'') : Carries m m'' where
  size := h'.size.trans h.size
  blank rows hb := h'.blank rows (h.blank rows hb)
  seqVal rows hb q hq := (h'.seqVal rows (h.blank rows hb) q (h.size ▸ hq)).trans (h.seqVal rows hb q hq)

lemma seqVal_of_held (h : m'.held q = m.held q) {R : Type} [Zero R] (rows : Nat → R) :
    m'.seqVal rows q = m.seqVal rows q := by
  have hval : ∀ x : Recurrent, x.seqVal rows q = (x.held q).elim 0 fun c => c.2.elim 0 rows := by
    intro x
    unfold seqVal held
    cases x.tail q <;> rfl
  rw [hval, hval, h]

lemma tail_eq_none_of_held (h : m'.held q = m.held q) (hn : m.tail q = none) : m'.tail q = none := by
  unfold held at h
  rw [hn, Option.map_none, Option.map_eq_none_iff] at h
  exact h

lemma Core.home (h : m.Core) : m.Home ∅ := by
  intro i hi _
  obtain hs | ⟨hs, he⟩ := h.src i hi
  · exact .inl hs
  · exact .inr ⟨hs, h.mid.free_of_isEmpty he⟩

end Carries

/-- The cell `o` places behind `start`, around the end. -/
def around (size start o : Nat) : Nat := if start + o < size then start + o else start + o - size

/-- The next empty cell of the search that began at `start`: if there is a free cell at all, it is the first one. -/
def Points (m : Recurrent) (start next : Nat) : Prop :=
  (∃ i < m.size, m.Free i) → ∃ o < m.size, next = around m.size start o ∧ m.Free next ∧
    (∀ o' < o, ¬ m.Free (around m.size start o')) ∧
    ∀ o', o ≤ o' → o' < m.size → (m.cells (around m.size start o')).isEmpty → m.Free (around m.size start o')

section Search
variable {m : Recurrent} {start next i : Nat}

lemma around_lt {size o : Nat} (hs : start < size) (ho : o < size) : around size start o < size := by
  unfold around
  split <;> omega

lemma exists_around {size : Nat} (hs : start < size) (hi : i < size) : ∃ o < size, i = around size start o := by
  by_cases h : start ≤ i
  · refine ⟨i - start, by omega, ?_⟩
    rw [around, if_pos (by omega)]
    omega
  · refine ⟨i + size - start, by omega, ?_⟩
    rw [around, if_neg (by omega)]
    omega

lemma firstEmpty_eq (hs : start < m.size) (fuel o next : Nat)
    (hnext : (if m.size ≤ next then next - m.size else next) = around m.size start o) (hfuel : o + fuel = m.size)
    (hex : ∃ o', o ≤ o' ∧ o' < m.size ∧ (m.cells (around m.size start o')).isEmpty) :
    ∃ o', o ≤ o' ∧ o' < m.size ∧ m.firstEmpty fuel next = around m.size start o' ∧
      (m.cells (around m.size start o')).isEmpty ∧
      ∀ o'', o ≤ o'' → o'' < o' → ¬ (m.cells (around m.size start o'')).isEmpty := by
  induction fuel generalizing o next with
  | zero =>
    obtain ⟨o', h1, h2, -⟩ := hex
    omega
  | succ fuel ih =>
    rw [firstEmpty, hnext]
    by_cases he : (m.cells (around m.size start o)).isEmpty
    · rw [if_pos he]
      exact ⟨o, le_rfl, by omega, rfl, he, fun o'' h1 h2 => by omega⟩
    · rw [if_neg he]
      obtain ⟨e, h1, h2, he'⟩ := hex
      have hne : e ≠ o := by
        rintro rfl
        exact he he'
      have hlt := around_lt (o := o) hs (by omega)
      obtain ⟨o', ho, ho', hrun, hempty, hbefore⟩ := ih (o + 1) (around m.size start o + 1) (by
        unfold around at hlt ⊢
        split <;> split <;> split <;> omega) (by omega) ⟨e, by omega, h2, he'⟩
      refine ⟨o', by omega, ho', hrun, hempty, fun o'' h1 h2 => ?_⟩
      by_cases hoo : o'' = o
      · rw [hoo]
        exact he
      · exact hbefore o'' (by omega) h2

lemma nextEmpty_eq (hs : start < m.size) (fuel o : Nat) (ho : o < m.size) (hfuel : m.size ≤ o + fuel)
    (hex : ∃ o', o < o' ∧ o' < m.size ∧ (m.cells (around m.size start o')).isEmpty) :
    ∃ o', o < o' ∧ o' < m.size ∧ m.nextEmpty fuel (around m.size start o) = around m.size start o' ∧
      (m.cells (around m.size start o')).isEmpty ∧
      ∀ o'', o < o'' → o'' < o' → ¬ (m.cells (around m.size start o'')).isEmpty := by
  induction fuel generalizing o with
  | zero => omega
  | succ fuel ih =>
    obtain ⟨e, h1, h2, he⟩ := hex
    have hstep : (if m.size ≤ around m.size start o + 1 then around m.size start o + 1 - m.size
        else around m.size start o + 1) = around m.size start (o + 1) := by
      unfold around
      split <;> split <;> split <;> omega
    rw [nextEmpty, hstep]
    by_cases hnow : (m.cells (around m.size start (o + 1))).isEmpty
    · rw [if_pos hnow]
      exact ⟨o + 1, Nat.lt_succ_self o, by omega, rfl, hnow, fun o'' h1 h2 => by omega⟩
    · rw [if_neg hnow]
      have hne : e ≠ o + 1 := by
        rintro rfl
        exact hnow he
      obtain ⟨o', ho1, ho2, hrun, hempty, hbefore⟩ := ih (o + 1) (by omega) (by omega)
        ⟨e, by omega, h2, he⟩
      refine ⟨o', by omega, ho2, hrun, hempty, fun o'' h1 h2 => ?_⟩
      by_cases hoo : o'' = o + 1
      · rw [hoo]
        exact hnow
      · exact hbefore o'' (by omega) h2

lemma Mid.points_firstEmpty (h : m.Mid ∅) (hs : start < m.size) : m.Points start (m.firstEmpty m.size start) := by
  rintro ⟨i, hi, hf⟩
  obtain ⟨e, he, rfl⟩ := exists_around hs hi
  obtain ⟨o, -, ho, hrun, hempty, hbefore⟩ := firstEmpty_eq hs m.size 0 start
    (by rw [if_neg (by omega), around, if_pos (by omega)]; rfl) (zero_add _)
    ⟨e, Nat.zero_le e, he, h.isEmpty_of_free hi hf⟩
  rw [hrun]
  refine ⟨o, ho, rfl, h.free_of_isEmpty hempty, fun o' ho' hf' => ?_, fun o' _ _ he' =>
    h.free_of_isEmpty he'⟩
  exact hbefore o' (Nat.zero_le _) ho' (h.isEmpty_of_free (around_lt hs (by omega)) hf')

end Search

/-- The effect of `moveTo`: sequence `q` has the cell `e`, with the position and the source that it had. -/
structure Moved (m : Recurrent) (q e : Nat) (m' : Recurrent) : Prop where
  size : m'.size = m.size
  tail : ∀ p, m'.tail p = if p = q then some e else m.tail p
  seqId : ∀ i, (m'.cells i).seqId = if m.tail q = some i then (m.cells i).seqId.erase q
    else if i = e ∧ (m.tail q).isSome then insert q (m.cells i).seqId else (m.cells i).seqId
  rest : ∀ i, i ≠ e → (m'.cells i).pos = (m.cells i).pos ∧ (m'.cells i).src = (m.cells i).src
  cell : ∀ c, c = (m.tail q).getD e → (m'.cells e).pos = (m.cells c).pos ∧ (m'.cells e).src = (m.cells c).src

section MoveTo
variable {m m' : Recurrent} {D : Finset Nat} {q e : Nat}

lemma Mid.moveTo (h : m.Mid D) (hq : q < m.size) (hqD : q ∉ D)
    (hshare : ∀ t, m.tail q = some t → (m.cells t).seqId.card ≠ 1) (he : e < m.size) (hf : m.Free e) :
    ∃ m', m.moveTo q e = some m' ∧ Moved m q e m' := by
  have hempty := h.isEmpty_of_free he hf
  unfold Recurrent.moveTo
  rw [if_neg (not_not.2 hempty)]
  cases ht : m.tail q with
  | none =>
    refine ⟨_, rfl, rfl, fun p => ?_, fun i => ?_, fun i _ => ?_, ?_⟩
    · unfold Recurrent.tail
      by_cases hp : p = q
      · subst hp
        rw [if_pos rfl, modify_self]
      · rw [if_neg hp, modify_of_ne hp]
    · rw [ht, if_neg (by simp), if_neg (by simp)]
      exact modify_field MemCell.seqId (by intro; rfl) i
    · exact ⟨modify_field MemCell.pos (by intro; rfl) i, modify_field MemCell.src (by intro; rfl) i⟩
    · rintro c rfl
      rw [ht]
      exact ⟨modify_field MemCell.pos (by intro; rfl) e, modify_field MemCell.src (by intro; rfl) e⟩
  | some t =>
    obtain ⟨htlt, hmem⟩ := h.tail q hq t ht
    have hte : t ≠ e := by
      rintro rfl
      exact hf q hq ht
    obtain ⟨m1, hm1⟩ : ∃ m1, m1 = (m.modify t fun c => { c with seqId := c.seqId.erase q }).modify e fun c =>
        { c with pos := (m.cells t).pos, src := (m.cells t).src, seqId := insert q c.seqId } := ⟨_, rfl⟩
    have hcell : ∀ i, i ≠ t → i ≠ e → m1.cells i = m.cells i := by
      intro i hit hie
      rw [hm1, modify_of_ne hie, modify_of_ne hit]
    have hct : m1.cells t = { m.cells t with seqId := (m.cells t).seqId.erase q } := by
      rw [hm1, modify_of_ne hte, modify_self]
    have hce : m1.cells e = { m.cells e with
        pos := (m.cells t).pos, src := (m.cells t).src, seqId := insert q (m.cells e).seqId } := by
      rw [hm1, modify_self, modify_of_ne (Ne.symm hte)]
    have hrest : ¬ (m1.cells t).isEmpty := by
      rw [hct]
      intro hn
      have hcard := card_erase_add_one (hmem hqD)
      rw [show (m.cells t).seqId.erase q = ∅ from hn, card_empty] at hcard
      exact hshare t ht hcard.symm
    dsimp only
    rw [← hm1, if_neg hrest]
    have hfield : ∀ {α : Type} (g : MemCell → α), (∀ c x, g { c with tail := x } = g c) → ∀ i,
        g ((m1.modify q fun c => { c with tail := some e }).cells i) = g (m1.cells i) :=
      fun g hg i => modify_field g (fun c => hg c _) i
    refine ⟨_, rfl, by rw [hm1]; rfl, fun p => ?_, fun i => ?_, fun i hie => ?_, ?_⟩
    · unfold Recurrent.tail
      by_cases hp : p = q
      · subst hp
        rw [if_pos rfl, modify_self]
      · rw [if_neg hp, modify_of_ne hp, hm1, modify_field MemCell.tail (by intro; rfl),
          modify_field MemCell.tail (by intro; rfl)]
    · rw [hfield MemCell.seqId (fun _ _ => rfl), ht]
      by_cases hit : i = t
      · subst hit
        rw [if_pos rfl, hct]
      · rw [if_neg fun hn => hit (Option.some.inj hn).symm]
        by_cases hie : i = e
        · subst hie
          rw [if_pos ⟨rfl, rfl⟩, hce]
        · rw [if_neg fun hn => hie hn.1, hcell i hit hie]
    · rw [hfield MemCell.pos (fun _ _ => rfl), hfield MemCell.src (fun _ _ => rfl)]
      by_cases hit : i = t
      · subst hit
        rw [hct]
        exact ⟨rfl, rfl⟩
      · rw [hcell i hit hie]
        exact ⟨rfl, rfl⟩
    · rintro c rfl
      rw [hfield MemCell.pos (fun _ _ => rfl), hfield MemCell.src (fun _ _ => rfl), hce, ht]
      exact ⟨rfl, rfl⟩

section
variable (hm : Moved m q e m')
include hm

lemma Moved.free_iff (hq : q < m.size)
    (hshare : m.Shared q) (i : Nat) :
    m'.Free i ↔ i ≠ e ∧ m.Free i := by
  unfold Free
  rw [hm.size]
  constructor
  · intro hf
    refine ⟨?_, fun s hs ht => ?_⟩
    · rintro rfl
      exact hf q hq (by rw [hm.tail, if_pos rfl])
    · by_cases hsq : s = q
      · subst hsq
        obtain ⟨p, hp, hpq, htp⟩ := hshare i ht
        exact hf p hp (by rw [hm.tail, if_neg hpq]; exact htp)
      · exact hf s hs (by rw [hm.tail, if_neg hsq]; exact ht)
  · rintro ⟨hie, hf⟩ s hs ht
    rw [hm.tail] at ht
    split at ht
    · exact hie (Option.some.inj ht).symm
    · exact hf s hs ht

lemma Moved.mid (h : m.Mid D) (hq : q < m.size) (hqD : q ∉ D)
    (hshare : m.Shared q) (he : e < m.size)
    (hf : m.Free e) : m'.Mid (insert q D) := by
  have hmem : ∀ s i, i < m.size → s ≠ q → (s ∈ (m'.cells i).seqId ↔ s ∈ (m.cells i).seqId) := by
    intro s i hi hsq
    rw [hm.seqId]
    split
    · rw [mem_erase, and_iff_right hsq]
    · split
      · rw [mem_insert, or_iff_right hsq]
      · rfl
  have hmemq : ∀ i < m.size, q ∈ (m'.cells i).seqId → i = e := by
    intro i hi hmem
    rw [hm.seqId] at hmem
    split at hmem
    · exact absurd rfl (mem_erase.1 hmem).1
    · rename_i hne
      split at hmem
      · rename_i hie
        exact hie.1
      · exact absurd (h.bound i hi q hmem).2 hne
  refine ⟨?_, ?_, ?_, ?_, ?_⟩
  · intro s hs
    rw [hm.size]
    obtain rfl | hs := mem_insert.1 hs
    · exact hq
    · exact h.lt s hs
  · intro i hi s hs
    rw [hm.size] at hi ⊢
    rw [hm.tail]
    by_cases hsq : s = q
    · subst hsq
      rw [if_pos rfl, hmemq i hi hs]
      exact ⟨hq, rfl⟩
    · rw [if_neg hsq]
      exact h.bound i hi s ((hmem s i hi hsq).1 hs)
  · intro s hs t ht
    rw [hm.size] at hs ⊢
    rw [hm.tail] at ht
    by_cases hsq : s = q
    · subst hsq
      rw [if_pos rfl] at ht
      cases ht
      exact ⟨he, fun hn => absurd (Finset.mem_insert_self _ _) hn⟩
    · rw [if_neg hsq] at ht
      obtain ⟨htlt, hin⟩ := h.tail s hs t ht
      exact ⟨htlt, fun hn => (hmem s t htlt hsq).2 (hin fun hD => hn (Finset.mem_insert_of_mem hD))⟩
  · intro s hs
    rw [hm.size]
    by_cases hsq : s = q
    · subst hsq
      refine ⟨e, by rw [hm.tail, if_pos rfl], fun p hp htp => ?_⟩
      rw [hm.tail] at htp
      split at htp
      · rename_i hps
        exact hps
      · exact absurd htp (hf p hp)
    · have hsD := (mem_insert.1 hs).resolve_left hsq
      obtain ⟨t, ht, hown⟩ := h.own s hsD
      refine ⟨t, by rw [hm.tail, if_neg hsq]; exact ht, fun p hp htp => ?_⟩
      rw [hm.tail] at htp
      split at htp
      · cases htp
        exact absurd ht (hf s (h.lt s hsD))
      · exact hown p hp htp
  · intro i hi hfi
    rw [hm.size] at hi
    obtain ⟨hie, hfi⟩ := (hm.free_iff hq hshare i).1 hfi
    rw [(hm.rest i hie).1]
    exact h.free i hi hfi

lemma Moved.carries (hq : q < m.size)
    (hshare : m.Shared q) (he : e < m.size)
    (hf : m.Free e) : Carries m m' := by
  have hval : ∀ {R : Type} [Zero R] (rows : Nat → R) (i : Nat), i ≠ e → m'.val rows i = m.val rows i := by
    intro R _ rows i hie
    unfold val
    rw [(hm.rest i hie).2]
  refine ⟨hm.size, ?_, ?_⟩
  · intro R _ rows hb i hi hfi
    rw [hm.size] at hi
    obtain ⟨hie, hfi⟩ := (hm.free_iff hq hshare i).1 hfi
    rw [hval rows i hie]
    exact hb i hi hfi
  · intro R _ rows hb p hp
    unfold seqVal
    rw [hm.tail]
    by_cases hpq : p = q
    · subst hpq
      rw [if_pos rfl]
      show m'.val rows e = _
      unfold val
      rw [(hm.cell _ rfl).2]
      cases ht : m.tail p with
      | none => exact hb e he hf
      | some t => rfl
    · rw [if_neg hpq]
      cases ht : m.tail p with
      | none => rfl
      | some t =>
        refine hval rows t ?_
        rintro rfl
        exact hf p hp ht

lemma Moved.held (hf : m.Free e) {p : Nat} (hp : p < m.size) (hpq : p ≠ q) : m'.held p = m.held p := by
  unfold Recurrent.held
  rw [hm.tail, if_neg hpq]
  cases ht : m.tail p with
  | none => rfl
  | some t =>
    have hte : t ≠ e := by
      rintro rfl
      exact hf p hp ht
    rw [Option.map_some, Option.map_some, (hm.rest t hte).1, (hm.rest t hte).2]

lemma Moved.home (hD : m.Home D) (hq : q < m.size) (hqD : q ∉ D)
    (hshare : m.Shared q) : m'.Home (insert q D) := by
  intro i hi hown
  rw [hm.size] at hi
  have hie : i ≠ e := by
    rintro rfl
    exact hown q (Finset.mem_insert_self _ _) (by rw [hm.tail, if_pos rfl])
  rw [(hm.rest i hie).2]
  obtain hs | ⟨hs, hfi⟩ := hD i hi fun p hp ht => by
    have hpq : p ≠ q := by
      rintro rfl
      exact hqD hp
    exact hown p (Finset.mem_insert_of_mem hp) (by rw [hm.tail, if_neg hpq]; exact ht)
  · exact .inl hs
  · exact .inr ⟨hs, (hm.free_iff hq hshare i).2 ⟨hie, hfi⟩⟩

lemma Moved.isEmpty (h : m.Mid D) (hq : q < m.size)
    (hshare : m.Shared q) {i : Nat} (hie : i ≠ e)
    (hempty : (m'.cells i).isEmpty) : (m.cells i).isEmpty := by
  unfold MemCell.isEmpty at hempty ⊢
  rw [hm.seqId, if_neg (c := i = e ∧ _) fun hc => hie hc.1] at hempty
  split at hempty
  · rename_i ht
    -- the cell that `q` leaves is shared
    obtain ⟨p, hp, hpq, htp⟩ := hshare i ht
    have hpD : p ∉ D := by
      intro hpD
      obtain ⟨t, htp', hown⟩ := h.own p hpD
      rw [htp] at htp'
      cases htp'
      exact hpq (hown q hq ht).symm
    have hmem := mem_erase.2 ⟨hpq, (h.tail p hp i htp).2 hpD⟩
    rw [hempty] at hmem
    exact absurd hmem (notMem_empty p)
  · exact hempty

lemma Moved.points (h : m.Mid D) (hq : q < m.size) (hqD : q ∉ D)
    (hshare : m.Shared q) (he : e < m.size)
    (hf : m.Free e) {start : Nat} (hs : start < m.size) (hp : m.Points start e) :
    m'.Points start (m'.nextEmpty m'.size e) := by
  obtain ⟨o, ho, heo, -, hbefore, hafter⟩ := hp ⟨e, he, hf⟩
  have hmid := hm.mid h hq hqD hshare he hf
  have hfree := hm.free_iff hq hshare
  have hinj : ∀ o', o' < m.size → o' ≠ o → around m.size start o' ≠ e := by
    intro o' ho' hne
    rw [heo]
    unfold around
    split <;> split <;> omega
  have hto : ∀ o', o < o' → o' < m.size → (m'.cells (around m.size start o')).isEmpty →
      m'.Free (around m.size start o') := by
    intro o' h1 h2 hempty
    have hie := hinj o' h2 (by omega)
    exact (hfree _).2 ⟨hie, hafter o' h1.le h2 (hm.isEmpty h hq hshare hie hempty)⟩
  rintro ⟨i, hi, hfi⟩
  have hempty := hmid.isEmpty_of_free hi hfi
  rw [hm.size] at hi
  obtain ⟨hie, hfi⟩ := (hfree i).1 hfi
  obtain ⟨oi, hoi, rfl⟩ := exists_around hs hi
  have hlt : o < oi := by
    by_contra hle
    obtain hlt | rfl := Nat.lt_or_eq_of_le (Nat.le_of_not_lt hle)
    · exact hbefore oi hlt hfi
    · exact hie heo.symm
  have hs' : start < m'.size := by
    rw [hm.size]
    exact hs
  obtain ⟨o', h1, h2, hrun, hemp, hskip⟩ := nextEmpty_eq hs' m'.size o (by rw [hm.size]; exact ho)
    (by omega) ⟨oi, hlt, by rw [hm.size]; exact hoi, by rw [hm.size]; exact hempty⟩
  rw [hm.size] at h2 hrun hemp hskip
  rw [hm.size, heo, hrun]
  refine ⟨o', h2, rfl, hto o' h1 h2 hemp, fun o'' ho'' hf'' => ?_, fun o'' h3 h4 => hto o'' (by omega) h4⟩
  obtain hlt | rfl | hgt := lt_trichotomy o'' o
  · exact hbefore o'' hlt ((hfree _).1 hf'').2
  · exact ((hfree _).1 hf'').1 heo.symm
  · refine hskip o'' hgt ho'' (hmid.isEmpty_of_free ?_ hf'')
    rw [hm.size]
    exact around_lt hs (by omega)

end

end MoveTo

/-- The cells of the first `k` blocks of a ubatch are found. -/
structure Found (m : Recurrent) (u : SlotUbatch) (k : Nat) (x : Search) : Prop where
  mid : x.mem.Mid ((Finset.range k).image u.first)
  home : x.mem.Home ((Finset.range k).image u.first)
  carries : Carries m x.mem
  held : ∀ q < m.size, q ∉ (Finset.range k).image u.first → x.mem.held q = m.held q
  points : k < u.nSeqs → x.mem.Points m.head x.next
  max_lt : x.max < m.size
  range : ∀ s < k, ∃ t, x.mem.tail (u.first s) = some t ∧ x.min ≤ t ∧ t ≤ x.max

section TakeCell
variable {m : Recurrent} {u : SlotUbatch} {k : Nat} {x : Search}

lemma Mid.insert_own {m : Recurrent} {D : Finset Nat} {q t : Nat} (h : m.Mid D) (hq : q < m.size)
    (ht : m.tail q = some t) (hcard : (m.cells t).seqId.card = 1) (hmem : q ∈ (m.cells t).seqId) :
    m.Mid (insert q D) := by
  obtain ⟨a, ha⟩ := card_eq_one.1 hcard
  rw [ha, Finset.mem_singleton] at hmem
  subst hmem
  refine ⟨?_, h.bound, ?_, ?_, h.free⟩
  · intro s hs
    obtain rfl | hs := mem_insert.1 hs
    · exact hq
    · exact h.lt s hs
  · intro s hs t' ht'
    obtain ⟨hlt, hin⟩ := h.tail s hs t' ht'
    exact ⟨hlt, fun hn => hin fun hD => hn (Finset.mem_insert_of_mem hD)⟩
  · intro s hs
    obtain rfl | hs := mem_insert.1 hs
    · refine ⟨t, ht, fun p hp htp => ?_⟩
      by_cases hpD : p ∈ D
      · obtain ⟨t', ht', hown⟩ := h.own p hpD
        rw [htp] at ht'
        cases ht'
        exact (hown s hq ht).symm
      · have hmem := (h.tail p hp t htp).2 hpD
        rw [ha, Finset.mem_singleton] at hmem
        exact hmem
    · exact h.own s hs

lemma Found.range_step (h : Found m u k x) {m' : Recurrent} {t : Nat} {nx : Nat}
    (htail : ∀ s < k, m'.tail (u.first s) = x.mem.tail (u.first s)) (ht : m'.tail (u.first k) = some t) :
    ∀ s < k + 1, ∃ t', (Search.mk m' nx (Nat.min x.min t) (Nat.max x.max t)).mem.tail (u.first s) = some t' ∧
      Nat.min x.min t ≤ t' ∧ t' ≤ Nat.max x.max t := by
  intro s hs
  obtain hlt | rfl := lt_or_eq_of_le (Nat.le_of_lt_succ hs)
  · obtain ⟨t', ht', hmin, hmax⟩ := h.range s hlt
    refine ⟨t', (htail s hlt).trans ht', ?_, ?_⟩
    · exact (min_le_left _ _).trans hmin
    · exact hmax.trans (le_max_left _ _)
  · exact ⟨t, ht, min_le_right _ _, le_max_right _ _⟩

/-- The search takes the cell of one more block. -/
lemma Found.step (h : Found m u k x) (hhead : m.head < m.size) (hk : k < u.nSeqs)
    (hlt : u.first k < m.size) (hnew : ∀ s < k, u.first s ≠ u.first k) :
    ∃ x', takeCell u x k = some x' ∧ Found m u (k + 1) x' := by
  have hsize := h.carries.size
  have hqD : u.first k ∉ (Finset.range k).image u.first := by
    intro hin
    obtain ⟨s, hs, heq⟩ := mem_image.1 hin
    exact hnew s (Finset.mem_range.1 hs) heq
  have hD : (Finset.range (k + 1)).image u.first = insert (u.first k) ((Finset.range k).image u.first) := by
    rw [range_add_one, image_insert]
  have hlt' : u.first k < x.mem.size := by
    rw [hsize]
    exact hlt
  unfold takeCell
  by_cases howns : ∃ t, x.mem.tail (u.first k) = some t ∧ (x.mem.cells t).seqId.card = 1
  · -- the sequence stays where it is
    obtain ⟨t, ht, hcard⟩ := howns
    obtain ⟨htlt, hmem⟩ := h.mid.tail _ hlt' t ht
    have hown : x.mem.ownsCell (u.first k) = some true := by
      unfold ownsCell
      rw [ht]
      dsimp only
      rw [if_pos (hmem hqD), decide_eq_true hcard]
    refine ⟨{ x with min := Nat.min x.min t, max := Nat.max x.max t }, ?_, ?_⟩
    · simp [hown, ht]
    · refine ⟨?_, ?_, h.carries, ?_, fun hk' => h.points (by omega), ?_, ?_⟩
      · rw [hD]
        exact h.mid.insert_own hlt' ht hcard (hmem hqD)
      · rw [hD]
        exact fun i hi hno => h.home i hi fun p hp => hno p (Finset.mem_insert_of_mem hp)
      · rw [hD]
        exact fun p hp hno => h.held p hp fun hin => hno (Finset.mem_insert_of_mem hin)
      · rw [hsize] at htlt
        exact Nat.max_lt.2 ⟨h.max_lt, htlt⟩
      · exact h.range_step (fun _ _ => rfl) ht
  · -- the sequence moves to a free cell
    have hcard : ∀ t, x.mem.tail (u.first k) = some t → (x.mem.cells t).seqId.card ≠ 1 :=
      fun t ht hc => howns ⟨t, ht, hc⟩
    have hshare : ∀ t, x.mem.tail (u.first k) = some t →
        ∃ p < x.mem.size, p ≠ u.first k ∧ x.mem.tail p = some t := by
      intro t ht
      obtain ⟨htlt, hmem⟩ := h.mid.tail _ hlt' t ht
      have hone : 1 < (x.mem.cells t).seqId.card := by
        have hpos := card_pos.2 ⟨_, hmem hqD⟩
        have hne := hcard t ht
        omega
      obtain ⟨p, hp, hpq⟩ := exists_mem_ne hone (u.first k)
      obtain ⟨hplt, htp⟩ := h.mid.bound t htlt p hp
      exact ⟨p, hplt, hpq, htp⟩
    have hown : x.mem.ownsCell (u.first k) = some false := by
      unfold ownsCell
      cases ht : x.mem.tail (u.first k) with
      | none => rfl
      | some t =>
        dsimp only
        rw [if_pos ((h.mid.tail _ hlt' t ht).2 hqD), decide_eq_false (hcard t ht)]
    obtain ⟨o, ho, heo, hf, -⟩ := h.points hk (exists_free hlt' hshare)
    have he : x.next < x.mem.size := by
      rw [heo]
      exact around_lt (by rw [hsize]; exact hhead) ho
    obtain ⟨m', hmove, hm⟩ := h.mid.moveTo hlt' hqD hcard he hf
    have htail : m'.tail (u.first k) = some x.next := by rw [hm.tail, if_pos rfl]
    refine ⟨⟨m', if k + 1 < u.nSeqs then m'.nextEmpty m'.size x.next else x.next,
      Nat.min x.min x.next, Nat.max x.max x.next⟩, ?_, ?_⟩
    · simp [hown, hmove, htail]
    · refine ⟨?_, ?_, h.carries.trans (hm.carries hlt' hshare he hf), ?_, ?_, ?_, ?_⟩
      · rw [hD]
        exact hm.mid h.mid hlt' hqD hshare he hf
      · rw [hD]
        exact hm.home h.home hlt' hqD hshare
      · rw [hD]
        intro p hp hno
        rw [mem_insert, not_or] at hno
        rw [← h.held p hp hno.2]
        exact hm.held hf (by rw [hsize]; exact hp) hno.1
      · intro hk'
        dsimp only
        rw [if_pos hk']
        exact hm.points h.mid hlt' hqD hshare he hf (by rw [hsize]; exact hhead) (h.points hk)
      · rw [hsize] at he
        exact Nat.max_lt.2 ⟨h.max_lt, he⟩
      · refine h.range_step (fun s hs => ?_) htail
        rw [hm.tail, if_neg (hnew s hs)]

end TakeCell

/-- The ubatch has at least one block, the blocks have sequences, and these are distinct and below the size. -/
structure Fits (size : Nat) (u : SlotUbatch) : Prop where
  equalSeqs : u.equalSeqs = true
  nSeqs : 0 < u.nSeqs
  ids : ∀ s < u.nSeqs, u.ids s ≠ []
  bound : ∀ s < u.nSeqs, ∀ id ∈ u.ids s, 0 ≤ id ∧ id < size
  nodup : ((List.range u.nSeqs).flatMap u.ids).Nodup

section Fits
variable {m : Recurrent} {u : SlotUbatch} {size s s' : Nat}

section
variable (h : Fits size u) (hs : s < u.nSeqs)
include h hs

lemma Fits.head_eq : ∃ id rest, u.ids s = id :: rest ∧ u.first s = id.toNat ∧ (u.first s : Int) = id := by
  obtain ⟨id, rest, heq⟩ := exists_cons_of_ne_nil (h.ids s hs)
  have hid := (h.bound s hs id (by rw [heq]; exact List.mem_cons_self)).1
  refine ⟨id, rest, heq, ?_, ?_⟩
  · unfold SlotUbatch.first
    rw [heq]
    rfl
  · unfold SlotUbatch.first
    rw [heq]
    exact Int.toNat_of_nonneg hid

lemma Fits.disjoint (hs' : s' < u.nSeqs) {id id' : Int}
    (hid : id ∈ u.ids s) (hid' : id' ∈ u.ids s') (heq : id.toNat = id'.toNat) : s = s' := by
  have h1 := (h.bound s hs id hid).1
  have h2 := (h.bound s' hs' id' hid').1
  obtain rfl : id = id' := by omega
  by_contra hne
  have hpw := (nodup_flatMap.1 h.nodup).2
  rw [pairwise_iff_getElem] at hpw
  have hno : ∀ i j, i < u.nSeqs → j < u.nSeqs → i < j → id ∈ u.ids i → id ∉ u.ids j := by
    intro i j hi hj hij hi' hj'
    have hdis := hpw i j (by simpa using hi) (by simpa using hj) hij
    simp only [Function.onFun, getElem_range] at hdis
    exact hdis hi' hj'
  obtain hlt | hlt := Nat.lt_or_gt_of_ne hne
  · exact hno s s' hs hs' hlt hid hid'
  · exact hno s' s hs' hs hlt hid' hid

lemma Fits.first_mem : ∃ id ∈ u.ids s, id.toNat = u.first s := by
  obtain ⟨id, rest, heq, hfirst, -⟩ := h.head_eq hs
  exact ⟨id, by rw [heq]; exact List.mem_cons_self, hfirst.symm⟩

lemma Fits.first_lt : u.first s < size := by
  obtain ⟨id, hid, heq⟩ := h.first_mem hs
  have hb := h.bound s hs id hid
  omega

lemma Fits.first_ne (hs' : s' < u.nSeqs) (hne : s ≠ s') : u.first s ≠ u.first s' := by
  obtain ⟨id, hid, heq⟩ := h.first_mem hs
  obtain ⟨id', hid', heq'⟩ := h.first_mem hs'
  intro hf
  exact hne (h.disjoint hs hs' hid hid' (by rw [heq, heq', hf]))

end

lemma Core.found (h : m.Core) (hu : Fits m.size u) (hhead : m.head < m.size) {k : Nat} (hk : k ≤ u.nSeqs) :
    ∃ x, (List.range k).foldlM (takeCell u)
      { mem := m, next := m.firstEmpty m.size m.head, min := m.size - 1, max := 0 } = some x ∧ Found m u k x := by
  induction k with
  | zero =>
    refine ⟨_, rfl, ?_⟩
    refine ⟨h.mid, h.home, carries_refl m, fun _ _ _ => rfl, fun _ => h.mid.points_firstEmpty hhead, ?_, ?_⟩
    · dsimp only
      omega
    · intro s hs
      omega
  | succ k ih =>
    obtain ⟨x, hrun, hfound⟩ := ih (by omega)
    obtain ⟨x', hstep, hfound'⟩ := hfound.step hhead (by omega) (hu.first_lt (by omega))
      fun s hs => hu.first_ne (by omega) (by omega) (by omega)
    refine ⟨x', ?_, hfound'⟩
    rw [range_succ, foldlM_append, hrun]
    simp [hstep]

end Fits

end Recurrent

end Mallana
