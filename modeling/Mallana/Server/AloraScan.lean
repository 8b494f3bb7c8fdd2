import Mallana.Server.Prompt
import Mathlib.Data.List.Basic
import Mathlib.Data.Nat.Find

/-!
# The invocation tokens of an aLoRA

`launch_slot_with_task` scans the prompt backwards for the invocation tokens of the adapter. Where a token does not
match, the scan starts over in front of it, so it misses an occurrence that ends within what was matched before.
-/

namespace Mallana.Server

open List

/-- The loop over the tokens in front of place `i`, with the next one to find at `matchIdx`. -/
def scanLoop (tokens invocation : List Int) : Nat → Nat → Option Nat
  | 0, _ => none
  | i + 1, matchIdx =>
    if tokens[i]? = invocation[matchIdx]? then
      if matchIdx = 0 then some i else scanLoop tokens invocation i (matchIdx - 1)
    else scanLoop tokens invocation i (invocation.length - 1)

/-- The fields of a slot that the scan sets. -/
structure AloraSlot (F : Type) where
  lora : List (LoraInfo F)
  aloraInvocationStart : Int
deriving DecidableEq

/-- The part of `launch_slot_with_task` for aLoRAs; `none` is the error that there are several. `invocation`: the
invocation tokens of an adapter. -/
def launchAlora {F : Type} [LinearOrder F] [Zero F] (invocation : Nat → List Int) (tokens : List Int)
    (slot : AloraSlot F) : Option (AloraSlot F) :=
  if loraAllAlora (fun ptr => (invocation ptr).length) slot.lora then
    match loraGetEnabledIds slot.lora with
    | [id] => (slot.lora[id]?).map fun lora =>
      match scanLoop tokens (invocation lora.ptr) tokens.length ((invocation lora.ptr).length - 1) with
      | none => { slot with lora := slot.lora.set id { lora with scale := 0 } }
      | some i => { slot with aloraInvocationStart := i }
    | _ => none
  else some slot

/-- The sequence stands at a place of the prompt, and at none behind it. -/
def LastAt (seq tokens : List Int) (i : Nat) : Prop :=
  seq <+: tokens.drop i ∧ ∀ j, i < j → ¬ seq <+: tokens.drop j

/-- A row of pieces, each a token and behind it an end of the sequence that the token does not continue. -/
inductive Restarts (seq : List Int) : List Int → Prop where
  | nil : Restarts seq []
  | cons {before after rest : List Int} {expected token : Int} : seq = before ++ expected :: after →
      token ≠ expected → Restarts seq rest → Restarts seq (token :: after ++ rest)

section
variable {tokens seq before between after matched rest : List Int} {expected token : Int} {i start : Nat}

lemma scanLoop_eq (htokens : tokens = before ++ token :: rest) (hseq : seq = between ++ expected :: matched) :
    scanLoop tokens seq (before.length + 1) between.length = if token = expected then
        if between = [] then some before.length else scanLoop tokens seq before.length (between.length - 1)
      else scanLoop tokens seq before.length (seq.length - 1) := by
  have htoken : tokens[before.length]? = some token := by
    rw [htokens, getElem?_append_right le_rfl, Nat.sub_self, getElem?_cons_zero]
  have hexpected : seq[between.length]? = some expected := by
    rw [hseq, getElem?_append_right le_rfl, Nat.sub_self, getElem?_cons_zero]
  rw [scanLoop, htoken, hexpected]
  simp only [Option.some.injEq, length_eq_zero_iff]

lemma scanLoop_matches (htokens : tokens = before ++ matched ++ rest) (hseq : seq = between ++ matched ++ after)
    (hne : between ≠ []) :
    scanLoop tokens seq (before.length + matched.length) (between.length + matched.length - 1) =
      scanLoop tokens seq before.length (between.length - 1) := by
  induction matched using reverseRecOn generalizing rest after with
  | nil => rfl
  | append_singleton matched token ih =>
    have hstep := @scanLoop_eq tokens seq (before ++ matched) (between ++ matched) after rest token token
      (by simp [htokens]) (by simp [hseq])
    rw [if_pos rfl, if_neg (by simp [hne])] at hstep
    simp only [length_append, length_cons, length_nil, zero_add] at hstep ⊢
    rw [← add_assoc, ← add_assoc, Nat.add_sub_cancel, hstep]
    exact @ih (token :: after) (token :: rest) (by simp [htokens]) (by simp [hseq])

lemma scanLoop_restarts (h : Restarts seq between) (htokens : tokens = before ++ between ++ rest) :
    scanLoop tokens seq (before.length + between.length) (seq.length - 1) =
      scanLoop tokens seq before.length (seq.length - 1) := by
  induction h generalizing before with
  | nil => rfl
  | @cons first last pieces expected token hseq hne _ ih =>
    have hpieces := @ih (before ++ token :: last) (by simp [htokens])
    have hlast := @scanLoop_matches tokens seq (before ++ [token]) (first ++ [expected]) [] last (pieces ++ rest)
      (by simp [htokens]) (by simp [hseq]) (by simp)
    have hstep := @scanLoop_eq tokens seq before first last (last ++ pieces ++ rest) expected token
      (by simp [htokens]) hseq
    rw [if_neg hne] at hstep
    rw [← hstep]
    have hlength : seq.length - 1 = (first ++ [expected]).length + last.length - 1 := by
      simp [hseq]
    rw [← hlength] at hlast
    simp only [length_append, length_cons, length_nil, zero_add, Nat.add_sub_cancel] at hpieces hlast ⊢
    rw [← hlast, show before.length + (last.length + 1 + pieces.length) =
      before.length + (last.length + 1) + pieces.length by omega, hpieces]
    congr 1
    omega

lemma scanLoop_occurs (hne : seq ≠ []) (htokens : tokens = before ++ seq ++ rest) :
    scanLoop tokens seq (before.length + seq.length) (seq.length - 1) = some before.length := by
  obtain ⟨token, last, rfl⟩ := exists_cons_of_ne_nil hne
  have hlast := @scanLoop_matches tokens (token :: last) (before ++ [token]) [token] [] last rest (by simp [htokens])
    (by simp) (by simp)
  have hstep := @scanLoop_eq tokens (token :: last) before [] last (last ++ rest) token token (by simp [htokens]) rfl
  rw [if_pos rfl, if_pos rfl] at hstep
  simp only [length_append, length_cons, length_nil, zero_add, sub_self] at hlast hstep ⊢
  rw [← hstep, ← hlast]
  congr 1
  · omega
  · omega

/-- What the scan finds is an occurrence of the sequence. -/
lemma occurs_of_scanLoop (hseq : seq = between ++ expected :: matched) (htokens : tokens = before ++ matched ++ rest)
    (hrest : Restarts seq rest) (h : scanLoop tokens seq before.length between.length = some start) :
    ∃ behind, tokens = tokens.take start ++ seq ++ behind ∧ start ≤ tokens.length ∧ Restarts seq behind := by
  induction before using reverseRecOn generalizing between expected matched rest with
  | nil => cases h
  | append_singleton before token ih =>
    rw [length_append, length_cons, length_nil, zero_add,
      @scanLoop_eq tokens seq before between matched (matched ++ rest) expected token (by simp [htokens]) hseq] at h
    split at h
    · rename_i heq
      split at h
      · rename_i hnil
        cases h
        refine ⟨rest, ?_, by simp [htokens], hrest⟩
        rw [hseq, hnil, htokens, heq]
        simp
      · rename_i hne
        obtain ⟨first, last, rfl⟩ := (eq_nil_or_concat' between).resolve_left hne
        exact @ih first (expected :: matched) rest last (by simp [hseq]) (by simp [htokens, heq]) hrest
          (by simpa using h)
    · rename_i hne
      have hnonempty : seq ≠ [] := by simp [hseq]
      obtain ⟨first, last, hends⟩ := (eq_nil_or_concat' seq).resolve_left hnonempty
      exact @ih first [] (token :: matched ++ rest) last hends (by simp [htokens]) (.cons hseq hne hrest)
        (by simpa [hends] using h)
lemma scanLoop_last (hne : seq ≠ []) {i : Nat} (hlast : LastAt seq tokens i) :
    scanLoop tokens seq tokens.length (seq.length - 1) = some i ↔ Restarts seq (tokens.drop (i + seq.length)) := by
  obtain ⟨behind, hbehind⟩ := hlast.1
  have htokens : tokens = tokens.take i ++ seq ++ behind := by rw [append_assoc, hbehind, take_append_drop]
  have hlength : (tokens.take i).length = i := by
    have hpos := length_pos_of_ne_nil hne
    have := congrArg length hbehind
    rw [length_append, length_drop] at this
    rw [length_take]
    omega
  have hdrop : tokens.drop (i + seq.length) = behind := by
    rw [← drop_drop, ← hbehind, drop_left]
  rw [hdrop]
  constructor
  · intro h
    obtain ⟨first, last, hends⟩ := (eq_nil_or_concat' seq).resolve_left hne
    obtain ⟨behind', htokens', _, hrest⟩ := @occurs_of_scanLoop tokens seq tokens first [] [] last i (by simp [hends])
      (by simp) .nil (by simpa [hends] using h)
    have heq : seq ++ behind = seq ++ behind' :=
      hbehind.trans (append_cancel_left ((take_append_drop i tokens).trans (htokens'.trans (append_assoc _ _ _))))
    rw [append_cancel_left heq]
    exact hrest
  · intro h
    have hover := @scanLoop_restarts tokens seq (tokens.take i ++ seq) behind [] h (by simpa using htokens)
    rw [← length_append, ← htokens] at hover
    rw [hover, length_append]
    exact (scanLoop_occurs hne htokens).trans (congrArg some hlength)
lemma exists_lastAt (hne : seq ≠ []) (h : seq <+: tokens.drop i) : ∃ j, LastAt seq tokens j := by
  have hle : ∀ j, seq <+: tokens.drop j → j ≤ tokens.length := by
    intro j hj
    have hlen := hj.length_le
    have hpos := length_pos_of_ne_nil hne
    rw [length_drop] at hlen
    omega
  refine ⟨Nat.findGreatest (fun j => seq <+: tokens.drop j) tokens.length, ?_, fun j hlt hj => ?_⟩
  · exact Nat.findGreatest_spec (P := fun j => seq <+: tokens.drop j) (hle i h) h
  · exact absurd (Nat.le_findGreatest (hle j hj) hj) (Nat.not_le_of_lt hlt)

lemma occurs_of_scanLoop_eq (hne : seq ≠ []) (h : scanLoop tokens seq tokens.length (seq.length - 1) = some i) :
    seq <+: tokens.drop i := by
  obtain ⟨first, last, hends⟩ := (eq_nil_or_concat' seq).resolve_left hne
  obtain ⟨behind, htokens, _, _⟩ := @occurs_of_scanLoop tokens seq tokens first [] [] last i (by simp [hends])
    (by simp) .nil (by simpa [hends] using h)
  refine ⟨behind, ?_⟩
  exact (append_cancel_left ((take_append_drop i tokens).trans (htokens.trans (append_assoc _ _ _)))).symm

end

section
variable {F : Type} [LinearOrder F] [Zero F] {invocation : Nat → List Int} {tokens : List Int} {slot : AloraSlot F}
  {id : Nat} {lora : LoraInfo F}

lemma invocation_ne_nil (hmem : lora ∈ slot.lora) (hscale : lora.scale ≠ 0)
    (hall : loraAllAlora (fun ptr => (invocation ptr).length) slot.lora = true) : invocation lora.ptr ≠ [] := by
  suffices h : ∀ (loras : List (LoraInfo F)) (found : Bool), lora ∈ loras →
      loraAllAloraFrom (fun ptr => (invocation ptr).length) found loras = true → invocation lora.ptr ≠ [] from
    h _ _ hmem hall
  intro loras
  induction loras with
  | nil => exact fun _ h => absurd h not_mem_nil
  | cons l loras ih =>
    intro found hmem hall
    rw [loraAllAloraFrom] at hall
    rcases mem_cons.1 hmem with rfl | hmem
    · rw [if_pos hscale] at hall
      split at hall
      · cases hall
      · rename_i hlen
        exact fun hnil => hlen (by rw [hnil, length_nil])
    · split at hall
      · split at hall
        · cases hall
        · exact ih _ hmem hall
      · exact ih _ hmem hall

lemma scale_pos_of_enabled (hids : loraGetEnabledIds slot.lora = [id]) (hlora : slot.lora[id]? = some lora) :
    0 < lora.scale := by
  have hmem : id ∈ loraGetEnabledIds slot.lora := by simp [hids]
  obtain ⟨⟨l, k⟩, hl, rfl⟩ := mem_map.1 hmem
  obtain ⟨hzip, hscale⟩ := mem_filter.1 hl
  have hget := mem_zipIdx_iff_getElem?.mp hzip
  rw [hlora] at hget
  cases hget
  exact of_decide_eq_true hscale

/-- The scan sets the start of the last occurrence, and switches the adapter off exactly if there is none, if and only if
what stands behind the last occurrence is a row of pieces. -/
theorem launchAlora_iff (hall : loraAllAlora (fun ptr => (invocation ptr).length) slot.lora = true)
    (hids : loraGetEnabledIds slot.lora = [id]) (hlora : slot.lora[id]? = some lora) :
    (∃ slot', launchAlora invocation tokens slot = some slot' ∧
        (∀ i : Nat, LastAt (invocation lora.ptr) tokens i → slot'.aloraInvocationStart = i) ∧
        ((slot'.lora[id]?).map LoraInfo.scale = some 0 ↔ ∀ i, ¬ invocation lora.ptr <+: tokens.drop i)) ↔
      ∀ i, LastAt (invocation lora.ptr) tokens i →
        Restarts (invocation lora.ptr) (tokens.drop (i + (invocation lora.ptr).length)) := by
  have hpos := scale_pos_of_enabled hids hlora
  have hne := invocation_ne_nil (mem_of_getElem? hlora) hpos.ne' hall
  have hlt : id < slot.lora.length := (List.getElem?_eq_some_iff.1 hlora).1
  simp only [launchAlora, hall, if_true, hids, hlora, Option.map_some]
  generalize hseq : invocation lora.ptr = seq at hne ⊢
  cases hscan : scanLoop tokens seq tokens.length (seq.length - 1) with
  | none =>
    have hnever : (∀ i, LastAt seq tokens i → Restarts seq (tokens.drop (i + seq.length))) ↔
        ∀ i, ¬ seq <+: tokens.drop i := by
      constructor
      · intro h i hi
        obtain ⟨j, hj⟩ := exists_lastAt hne hi
        have hfound := (scanLoop_last hne hj).2 (h j hj)
        rw [hscan] at hfound
        cases hfound
      · exact fun h i hi => absurd hi.1 (h i)
    rw [hnever]
    simp only [Option.some.injEq, exists_eq_left', getElem?_set_self hlt, Option.map_some, true_iff]
    exact ⟨fun h => h.2, fun h => ⟨fun i hi => absurd hi.1 (h i), h⟩⟩
  | some j =>
    have hoccurs := occurs_of_scanLoop_eq hne hscan
    simp only [Option.some.injEq, exists_eq_left', hlora, Option.map_some, hpos.ne', false_iff, Int.natCast_inj]
    constructor
    · intro ⟨hstart, _⟩ i hi
      refine (scanLoop_last hne hi).1 ?_
      rw [hscan, hstart i hi]
    · intro h
      refine ⟨fun i hi => ?_, fun hnone => hnone j hoccurs⟩
      have hfound := (scanLoop_last hne hi).2 (h i hi)
      rw [hscan] at hfound
      exact Option.some.inj hfound

/-- A prompt that ends with the sequence `1 2 1 2 3`. -/
theorem launchAlora_ends :
    (∃ slot', launchAlora (fun _ => [1, 2, 1, 2, 3]) [5, 1, 2, 1, 2, 3] ⟨[⟨0, (1 : Int)⟩], -1⟩ = some slot' ∧
        (∀ i : Nat, LastAt [1, 2, 1, 2, 3] [5, 1, 2, 1, 2, 3] i → slot'.aloraInvocationStart = i) ∧
        ((slot'.lora[0]?).map LoraInfo.scale = some 0 ↔ ∀ i, ¬ [1, 2, 1, 2, 3] <+: ([5, 1, 2, 1, 2, 3] : List Int).drop i)) ↔
      ∀ i, LastAt [1, 2, 1, 2, 3] [5, 1, 2, 1, 2, 3] i →
        Restarts [1, 2, 1, 2, 3] (([5, 1, 2, 1, 2, 3] : List Int).drop (i + 5)) :=
  @launchAlora_iff Int _ _ (fun _ => [1, 2, 1, 2, 3]) [5, 1, 2, 1, 2, 3] ⟨[⟨0, 1⟩], -1⟩ 0 ⟨0, 1⟩ (by decide) (by decide) rfl

/-- In `1 2 2` the scan takes the last token for the end of `1 2`, and does not look at it again. -/
theorem launchAlora_misses : ¬ ∃ slot', launchAlora (fun _ => [1, 2]) [1, 2, 2] ⟨[⟨0, (1 : Int)⟩], -1⟩ = some slot' ∧
    (∀ i : Nat, LastAt [1, 2] [1, 2, 2] i → slot'.aloraInvocationStart = i) ∧
    ((slot'.lora[0]?).map LoraInfo.scale = some 0 ↔ ∀ i, ¬ [1, 2] <+: ([1, 2, 2] : List Int).drop i) := by
  rintro ⟨slot', hslot, _, hscale⟩
  have hrun : launchAlora (fun _ => [1, 2]) [1, 2, 2] ⟨[⟨0, (1 : Int)⟩], -1⟩ = some ⟨[⟨0, 0⟩], -1⟩ := by decide +kernel
  rw [hrun] at hslot
  cases hslot
  exact hscale.1 rfl 0 ⟨[2], rfl⟩

end

end Mallana.Server
