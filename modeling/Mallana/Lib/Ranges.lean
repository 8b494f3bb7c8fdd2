import Mathlib.Algebra.Order.Ring.Int
import Mathlib.Data.List.Basic
import Mathlib.Data.List.Pairwise
import Mathlib.Data.List.Perm.Basic

/-!
# Ranges of addresses

Half-open ranges and lists of them. `Apart` is disjointness as sets of addresses, so an empty range is
apart from every other. `Spaced` lists are sorted with a gap between neighbours: disjoint and without
ranges that could be joined. `Tiled` is the invariant of a region that is divided into spaced free
ranges and live ranges; it says what taking from a free range and giving a live range back preserve.
-/

namespace Mallana.Lib

open List

/-- The addresses from `offset` on, `size` many. -/
structure Range where
  offset : Nat
  size : Nat
deriving DecidableEq, Repr

namespace Range

def stop (r : Range) : Nat := r.offset + r.size

def Apart (a b : Range) : Prop := a.size = 0 ∨ b.size = 0 ∨ a.stop ≤ b.offset ∨ b.stop ≤ a.offset

/-- The range `a` is inside `b`. -/
def Within (a b : Range) : Prop := b.offset ≤ a.offset ∧ a.stop ≤ b.stop

lemma Apart.symm {a b : Range} (h : Apart a b) : Apart b a := by
  unfold Apart at h ⊢
  omega

lemma Apart.of_within {a b c : Range} (h : Apart a c) (hw : Within b a) : Apart b c := by
  unfold Apart Within stop at *
  omega

lemma Apart.join {a b c d : Range} (ha : Apart a c) (hb : Apart b c) (hadj : a.stop = b.offset)
    (hd : d.offset = a.offset) (hs : d.size = a.size + b.size) : Apart d c := by
  unfold Apart stop at *
  omega

end Range

open Range

def Spaced (l : List Range) : Prop := l.Pairwise fun a b => a.stop < b.offset

instance (l : List Range) : Decidable (Spaced l) := inferInstanceAs (Decidable (List.Pairwise _ l))

section Spaced
variable {pre post : List Range} {b : Range}

lemma spaced_middle : Spaced (pre ++ b :: post) ↔ Spaced (pre ++ post) ∧ (∀ a ∈ pre, a.stop < b.offset) ∧
    ∀ c ∈ post, b.stop < c.offset := by
  unfold Spaced
  simp only [pairwise_append, pairwise_cons, mem_cons]
  constructor
  · rintro ⟨hpre, ⟨hb, hpost⟩, hcross⟩
    exact ⟨⟨hpre, hpost, fun a ha c hc => hcross a ha c (.inr hc)⟩, fun a ha => hcross a ha b (.inl rfl), hb⟩
  · rintro ⟨⟨hpre, hpost, hcross⟩, hb1, hb2⟩
    refine ⟨hpre, ⟨hb2, hpost⟩, ?_⟩
    rintro a ha c (rfl | hc)
    · exact hb1 a ha
    · exact hcross a ha c hc

end Spaced

/-- A region up to `cap` whose free ranges are spaced and not empty, and whose live ranges are apart from
    them and from each other; all begin at multiples of `align`. -/
structure Tiled (cap align : Nat) (free live : List Range) : Prop where
  spaced : Spaced free
  pos : ∀ b ∈ free, 0 < b.size
  apart : ∀ b ∈ free, ∀ l ∈ live, Apart b l
  live_apart : live.Pairwise Apart
  free_le : ∀ b ∈ free, b.stop ≤ cap
  live_le : ∀ l ∈ live, l.stop ≤ cap
  free_dvd : ∀ b ∈ free, align ∣ b.offset
  live_dvd : ∀ l ∈ live, align ∣ l.offset

namespace Tiled
variable {cap align : Nat} {pre post free live live' : List Range} {b r : Range}

lemma perm (h : Tiled cap align free live) (hp : live.Perm live') : Tiled cap align free live' where
  spaced := h.spaced
  pos := h.pos
  apart := fun b hb l hl => h.apart b hb l (hp.mem_iff.2 hl)
  live_apart := (hp.pairwise_iff fun {_ _} hab => hab.symm).1 h.live_apart
  free_le := h.free_le
  live_le := fun l hl => h.live_le l (hp.mem_iff.2 hl)
  free_dvd := h.free_dvd
  live_dvd := fun l hl => h.live_dvd l (hp.mem_iff.2 hl)

lemma single (hcap : 0 < cap) : Tiled cap align [⟨0, cap⟩] [] where
  spaced := pairwise_singleton _ _
  pos := by simpa using hcap
  apart := by simp
  live_apart := List.Pairwise.nil
  free_le := by simp [stop]
  live_le := by simp
  free_dvd := by simp
  live_dvd := by simp

lemma erase (h : Tiled cap align (pre ++ b :: post) live) : Tiled cap align (pre ++ post) live := by
  have hmem : ∀ c ∈ pre ++ post, c ∈ pre ++ b :: post := by
    intro c hc
    simp only [mem_append, mem_cons] at hc ⊢
    tauto
  exact ⟨(spaced_middle.1 h.spaced).1, fun c hc => h.pos c (hmem c hc), fun c hc => h.apart c (hmem c hc),
    h.live_apart, fun c hc => h.free_le c (hmem c hc), h.live_le, fun c hc => h.free_dvd c (hmem c hc),
    h.live_dvd⟩

lemma insert (h : Tiled cap align (pre ++ post) live) (hpos : 0 < b.size) (hle : b.stop ≤ cap)
    (hdvd : align ∣ b.offset) (hpre : ∀ a ∈ pre, a.stop < b.offset) (hpost : ∀ c ∈ post, b.stop < c.offset)
    (hlive : ∀ l ∈ live, Apart b l) : Tiled cap align (pre ++ b :: post) live := by
  have hmem : ∀ c ∈ pre ++ b :: post, c = b ∨ c ∈ pre ++ post := by
    intro c hc
    simp only [mem_append, mem_cons] at hc ⊢
    tauto
  refine ⟨spaced_middle.2 ⟨h.spaced, hpre, hpost⟩, ?_, ?_, h.live_apart, ?_, h.live_le, ?_, h.live_dvd⟩
  · intro c hc
    obtain rfl | hc := hmem c hc
    · exact hpos
    · exact h.pos c hc
  · intro c hc
    obtain rfl | hc := hmem c hc
    · exact hlive
    · exact h.apart c hc
  · intro c hc
    obtain rfl | hc := hmem c hc
    · exact hle
    · exact h.free_le c hc
  · intro c hc
    obtain rfl | hc := hmem c hc
    · exact hdvd
    · exact h.free_dvd c hc

lemma take (h : Tiled cap align (pre ++ b :: post) live) (hoff : r.offset = b.offset) (hsize : r.size ≤ b.size) :
    Tiled cap align (pre ++ post) (r :: live) := by
  obtain ⟨-, hpre, hpost⟩ := spaced_middle.1 h.spaced
  have hb : b ∈ pre ++ b :: post := by simp
  have hw : Within r b := by
    unfold Within stop
    omega
  have he := h.erase
  refine ⟨he.spaced, he.pos, ?_, ?_, he.free_le, ?_, he.free_dvd, ?_⟩
  · intro c hc l hl
    obtain rfl | hl := mem_cons.1 hl
    · have hbc : Apart b c := by
        obtain hc | hc := mem_append.1 hc
        · have := hpre c hc
          unfold Apart
          omega
        · have := hpost c hc
          unfold Apart
          omega
      exact (hbc.of_within hw).symm
    · exact he.apart c hc l hl
  · exact List.Pairwise.cons (fun l hl => (h.apart b hb l hl).of_within hw) h.live_apart
  · intro l hl
    obtain rfl | hl := mem_cons.1 hl
    · have := h.free_le b hb
      unfold Within at hw
      omega
    · exact h.live_le l hl
  · intro l hl
    obtain rfl | hl := mem_cons.1 hl
    · rw [hoff]
      exact h.free_dvd b hb
    · exact h.live_dvd l hl

lemma take_part (h : Tiled cap align (pre ++ b :: post) live) (hoff : r.offset = b.offset)
    (hsize : r.size < b.size) (hdvd : align ∣ r.size) :
    Tiled cap align (pre ++ ⟨b.offset + r.size, b.size - r.size⟩ :: post) (r :: live) := by
  obtain ⟨-, hpre, hpost⟩ := spaced_middle.1 h.spaced
  have hb : b ∈ pre ++ b :: post := by simp
  have hle := h.free_le b hb
  refine (h.take hoff (le_of_lt hsize)).insert ?_ ?_ ?_ ?_ ?_ ?_
  · exact Nat.sub_pos_of_lt hsize
  · unfold stop at hle ⊢
    simp only
    omega
  · exact (Nat.dvd_add_iff_right (h.free_dvd b hb)).1 hdvd
  · intro a ha
    have := hpre a ha
    simp only
    omega
  · intro c hc
    have := hpost c hc
    unfold stop at this ⊢
    simp only
    omega
  · intro l hl
    obtain rfl | hl := mem_cons.1 hl
    · unfold Apart stop
      simp only
      omega
    · refine (h.apart b hb l hl).of_within ?_
      unfold Within stop
      simp only
      omega

lemma drop_live (h : Tiled cap align free (r :: live)) : Tiled cap align free live where
  spaced := h.spaced
  pos := h.pos
  apart := fun b hb l hl => h.apart b hb l (mem_cons_of_mem _ hl)
  live_apart := (pairwise_cons.1 h.live_apart).2
  free_le := h.free_le
  live_le := fun l hl => h.live_le l (mem_cons_of_mem _ hl)
  free_dvd := h.free_dvd
  live_dvd := fun l hl => h.live_dvd l (mem_cons_of_mem _ hl)

lemma give (h : Tiled cap align (pre ++ post) (r :: live)) (hpos : 0 < r.size)
    (hpre : ∀ a ∈ pre, a.offset < r.offset ∧ a.stop ≠ r.offset)
    (hpost : ∀ c ∈ post, r.offset ≤ c.offset ∧ r.stop ≠ c.offset) : Tiled cap align (pre ++ r :: post) live := by
  refine h.drop_live.insert hpos (h.live_le r (by simp)) (h.live_dvd r (by simp)) ?_ ?_ ?_
  · intro a ha
    have hap := h.apart a (mem_append_left _ ha) r (by simp)
    have hsz := h.pos a (mem_append_left _ ha)
    have := hpre a ha
    unfold Apart stop at *
    omega
  · intro c hc
    have hap := h.apart c (mem_append_right _ hc) r (by simp)
    have hsz := h.pos c (mem_append_right _ hc)
    have := hpost c hc
    unfold Apart stop at *
    omega
  · exact fun l hl => (pairwise_cons.1 h.live_apart).1 l hl

lemma give_behind (h : Tiled cap align (pre ++ b :: post) (r :: live)) (hpos : 0 < r.size)
    (hadj : b.stop = r.offset) (hpost : ∀ c ∈ post, r.stop ≠ c.offset) :
    Tiled cap align (pre ++ ⟨b.offset, b.size + r.size⟩ :: post) live := by
  obtain ⟨-, hpre, hbpost⟩ := spaced_middle.1 h.spaced
  have hb : b ∈ pre ++ b :: post := by simp
  have hstop : (⟨b.offset, b.size + r.size⟩ : Range).stop = r.stop := by
    unfold stop at hadj ⊢
    simp only
    omega
  refine h.erase.drop_live.insert ?_ ?_ (h.free_dvd b hb) hpre ?_ ?_
  · exact Nat.add_pos_right _ hpos
  · rw [hstop]
    exact h.live_le r (by simp)
  · intro c hc
    have hcm : c ∈ pre ++ b :: post := by simp [hc]
    have hap := h.apart c hcm r (by simp)
    have hsz := h.pos c hcm
    have h1 := hbpost c hc
    have h2 := hpost c hc
    rw [hstop]
    unfold Apart stop at *
    omega
  · intro l hl
    have h1 := h.apart b hb l (mem_cons_of_mem _ hl)
    have h2 := (pairwise_cons.1 h.live_apart).1 l hl
    exact h1.join h2 hadj rfl rfl

lemma give_before (h : Tiled cap align (pre ++ b :: post) (r :: live)) (hpos : 0 < r.size)
    (hadj : r.stop = b.offset) (hpre : ∀ a ∈ pre, a.stop ≠ r.offset) :
    Tiled cap align (pre ++ ⟨r.offset, b.size + r.size⟩ :: post) live := by
  obtain ⟨-, hbpre, hpost⟩ := spaced_middle.1 h.spaced
  have hb : b ∈ pre ++ b :: post := by simp
  have hstop : (⟨r.offset, b.size + r.size⟩ : Range).stop = b.stop := by
    unfold stop at hadj ⊢
    simp only
    omega
  refine h.erase.drop_live.insert ?_ ?_ (h.live_dvd r (by simp)) ?_ ?_ ?_
  · exact Nat.add_pos_right _ hpos
  · rw [hstop]
    exact h.free_le b hb
  · intro a ha
    have ham : a ∈ pre ++ b :: post := by simp [ha]
    have hap := h.apart a ham r (by simp)
    have hsz := h.pos a ham
    have h1 := hbpre a ha
    have h2 := hpre a ha
    unfold Apart stop at *
    simp only
    omega
  · intro c hc
    rw [hstop]
    exact hpost c hc
  · intro l hl
    have h1 := h.apart b hb l (mem_cons_of_mem _ hl)
    have h2 := (pairwise_cons.1 h.live_apart).1 l hl
    exact h2.join h1 hadj rfl (add_comm _ _)

lemma give_between {c : Range} (h : Tiled cap align (pre ++ b :: c :: post) (r :: live))
    (hbr : b.stop = r.offset) (hrc : r.stop = c.offset) :
    Tiled cap align (pre ++ ⟨b.offset, b.size + r.size + c.size⟩ :: post) live := by
  obtain ⟨hs, hpre, -⟩ := spaced_middle.1 h.spaced
  obtain ⟨-, -, hpost⟩ := spaced_middle.1 hs
  have hb : b ∈ pre ++ b :: c :: post := by simp
  have hc : c ∈ pre ++ b :: c :: post := by simp
  have hstop : (⟨b.offset, b.size + r.size + c.size⟩ : Range).stop = c.stop := by
    unfold stop at hbr hrc ⊢
    simp only
    omega
  refine h.erase.erase.drop_live.insert ?_ ?_ (h.free_dvd b hb) hpre ?_ ?_
  · exact Nat.add_pos_right _ (h.pos c hc)
  · rw [hstop]
    exact h.free_le c hc
  · intro d hd
    rw [hstop]
    exact hpost d hd
  · intro l hl
    have h1 := h.apart b hb l (mem_cons_of_mem _ hl)
    have h2 := (pairwise_cons.1 h.live_apart).1 l hl
    have h3 := h.apart c hc l (mem_cons_of_mem _ hl)
    have h12 : Apart ⟨b.offset, b.size + r.size⟩ l := h1.join h2 hbr rfl rfl
    refine h12.join h3 ?_ rfl rfl
    unfold stop at *
    simp only
    omega

end Tiled

end Mallana.Lib
