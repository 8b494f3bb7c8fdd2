import Mathlib.Logic.Basic

/-!
# Reachable states

The states that a labelled transition relation reaches from its initial states, and the rule that
derives an invariant of every reachable state from one step. A restriction on the steps of a run is
part of the relation: `step s a s'` may demand anything of the state `s` before the step and of the
label `a`.
-/

namespace Mallana.Lib

variable {σ ι : Type}

/-- The states reached from `init` by `step`. -/
inductive Reach (init : σ → Prop) (step : σ → ι → σ → Prop) : σ → Prop where
  | init {s} : init s → Reach init step s
  | step {s a t} : Reach init step s → step s a t → Reach init step t

lemma Reach.invariant {init : σ → Prop} {step : σ → ι → σ → Prop} {P : σ → Prop} {s : σ}
    (run : Reach init step s) (h0 : ∀ s, init s → P s) (hstep : ∀ s a s', P s → step s a s' → P s') : P s := by
  induction run with
  | init h => exact h0 _ h
  | step _ st ih => exact hstep _ _ _ ih st

lemma Reach.of_foldlM {init : σ → Prop} {step : σ → ι → σ → Prop} {f : σ → ι → Option σ} {s t : σ} {l : List ι}
    (run : Reach init step s) (hstep : ∀ a ∈ l, ∀ s s', f s a = some s' → step s a s') (h : l.foldlM f s = some t) :
    Reach init step t := by
  induction l generalizing s with
  | nil =>
    cases h
    exact run
  | cons a l ih =>
    rw [List.foldlM_cons] at h
    obtain ⟨s1, h1, h⟩ := Option.bind_eq_some_iff.1 h
    exact ih (run.step (hstep a List.mem_cons_self s s1 h1)) (fun a ha => hstep a (List.mem_cons_of_mem _ ha)) h

end Mallana.Lib
