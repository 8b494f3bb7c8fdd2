import Mathlib.Data.List.Basic

/-!
# Tries

A trie over an arbitrary alphabet with values at some of its nodes. A trie is the map of what was inserted into it, the
last value for each key.
-/

namespace Mallana.Lib

open List

inductive Trie (α β : Type) where
  | node (value : Option β) (children : List (α × Trie α β))

namespace Trie

variable {α β : Type}

def empty : Trie α β := .node none []

def value : Trie α β → Option β
  | .node value _ => value

def children : Trie α β → List (α × Trie α β)
  | .node _ children => children

variable [DecidableEq α]

def child (t : Trie α β) (c : α) : Option (Trie α β) := (t.children.find? fun p => decide (p.1 = c)).map Prod.snd

def setChild (t : Trie α β) (c : α) (s : Trie α β) : Trie α β :=
  .node t.value ((c, s) :: t.children.filter fun p => decide (p.1 ≠ c))

def insert : List α → β → Trie α β → Trie α β
  | [], x, t => .node (some x) t.children
  | c :: key, x, t => t.setChild c (insert key x ((t.child c).getD empty))

def find : Trie α β → List α → Option β
  | t, [] => t.value
  | t, c :: path =>
    match t.child c with
    | none => none
    | some s => s.find path

def longest : Trie α β → List α → Nat
  | _, [] => 0
  | t, c :: key =>
    match t.child c with
    | none => 0
    | some s => s.longest key + 1

def ofList (l : List (List α × β)) : Trie α β := l.foldl (fun t p => insert p.1 p.2 t) empty

lemma find?_filter_fst_ne {c d : α} (h : d ≠ c) (l : List (α × Trie α β)) :
    (l.filter fun p => decide (p.1 ≠ c)).find? (fun p => decide (p.1 = d)) = l.find? fun p => decide (p.1 = d) := by
  induction l with
  | nil => rfl
  | cons p l ih =>
    by_cases hp : p.1 = d
    · rw [filter_cons_of_pos (by simpa [hp] using h), find?_cons_of_pos (by simpa using hp),
        find?_cons_of_pos (by simpa using hp)]
    · by_cases hq : p.1 = c
      · rw [filter_cons_of_neg (by simpa using hq), find?_cons_of_neg (by simpa using hp)]
        exact ih
      · rw [filter_cons_of_pos (by simpa using hq), find?_cons_of_neg (by simpa using hp),
          find?_cons_of_neg (by simpa using hp)]
        exact ih

lemma child_setChild (t : Trie α β) (c d : α) (s : Trie α β) :
    (t.setChild c s).child d = if d = c then some s else t.child d := by
  cases t with
  | node value children =>
    simp only [child, setChild, Trie.children]
    by_cases h : d = c
    · subst h
      rw [find?_cons_of_pos (by simp), if_pos rfl]
      rfl
    · rw [find?_cons_of_neg (by simpa using Ne.symm h), find?_filter_fst_ne h, if_neg h]

lemma find_empty (path : List α) : (empty : Trie α β).find path = none := by
  cases path with
  | nil => rfl
  | cons c path => rfl

variable {x : β} {l : List (List α × β)} {path : List α}

lemma find_insert {key : List α} :
    ∀ {t : Trie α β} {path : List α}, (insert key x t).find path = if path = key then some x else t.find path := by
  induction key with
  | nil =>
    intro t path
    cases path with
    | nil => rfl
    | cons d path => rfl
  | cons c key ih =>
    intro t path
    cases path with
    | nil => rfl
    | cons d path =>
      rw [insert, find, child_setChild]
      by_cases h : d = c
      · subst h
        simp only [if_true, ih, List.cons.injEq, true_and]
        cases hc : t.child d with
        | none => simp [find, hc, find_empty]
        | some s => simp [find, hc]
      · simp only [h, if_false, List.cons.injEq, false_and]
        rfl

def descend : Trie α β → List α → Option (Trie α β)
  | t, [] => some t
  | t, c :: path =>
    match t.child c with
    | none => none
    | some s => s.descend path

lemma find_eq_descend : ∀ {path : List α} {t : Trie α β}, t.find path = (t.descend path).bind value := by
  intro path
  induction path with
  | nil =>
    intro t
    rfl
  | cons c path ih =>
    intro t
    rw [find, descend]
    cases t.child c with
    | none => rfl
    | some s => exact ih

lemma descend_append (p q : List α) : ∀ {t : Trie α β}, t.descend (p ++ q) = (t.descend p).bind fun s => s.descend q := by
  induction p with
  | nil =>
    intro t
    rfl
  | cons c p ih =>
    intro t
    rw [cons_append, descend, descend]
    cases t.child c with
    | none => rfl
    | some s => exact ih

lemma isSome_descend_insert {key : List α} : ∀ {t : Trie α β} {path : List α},
    ((insert key x t).descend path).isSome ↔ path <+: key ∨ (t.descend path).isSome := by
  induction key with
  | nil =>
    intro t path
    cases path with
    | nil => simp [descend]
    | cons d path =>
      rw [prefix_nil]
      exact (or_iff_right (cons_ne_nil d path)).symm
  | cons c key ih =>
    intro t path
    cases path with
    | nil => simp [descend]
    | cons d path =>
      rw [insert, descend, child_setChild]
      by_cases h : d = c
      · subst h
        simp only [if_true, ih, prefix_cons_inj, descend]
        cases hc : t.child d with
        | none => cases path <;> simp [descend, empty, child, children]
        | some s => simp
      · simp only [h, if_false, cons_prefix_cons, false_and, false_or, descend]

lemma isSome_descend_ofList : ((ofList l).descend path).isSome ↔ path = [] ∨ ∃ p ∈ l, path <+: p.1 := by
  suffices fold : ∀ (l : List (List α × β)) (t : Trie α β),
      ((l.foldl (fun t p => insert p.1 p.2 t) t).descend path).isSome ↔
        (t.descend path).isSome ∨ ∃ p ∈ l, path <+: p.1 by
    rw [ofList, fold]
    cases path <;> simp [descend, empty, child, children]
  intro l
  induction l with
  | nil => simp
  | cons p l ih =>
    intro t
    rw [foldl_cons, ih, isSome_descend_insert]
    simp only [mem_cons, exists_eq_or_imp, or_assoc, or_left_comm]

lemma mem_of_find_ofList (h : (ofList l).find path = some x) : (path, x) ∈ l := by
  suffices fold : ∀ (l : List (List α × β)) (t : Trie α β),
      (l.foldl (fun t p => insert p.1 p.2 t) t).find path = some x → (path, x) ∈ l ∨ t.find path = some x by
    rcases fold l empty h with hmem | hempty
    · exact hmem
    · rw [find_empty] at hempty
      cases hempty
  intro l
  induction l with
  | nil =>
    intro t ht
    exact .inr ht
  | cons p l ih =>
    intro t ht
    rcases ih _ ht with hmem | hins
    · exact .inl (mem_cons_of_mem _ hmem)
    · rw [find_insert] at hins
      split at hins
      · rename_i heq
        cases hins
        left
        rw [heq]
        exact mem_cons_self
      · exact .inr hins

lemma isSome_find_ofList : ((ofList l).find path).isSome ↔ ∃ p ∈ l, p.1 = path := by
  suffices fold : ∀ (l : List (List α × β)) (t : Trie α β),
      ((l.foldl (fun t p => insert p.1 p.2 t) t).find path).isSome ↔ (t.find path).isSome ∨ ∃ p ∈ l, p.1 = path by
    rw [ofList, fold, find_empty]
    simp
  intro l
  induction l with
  | nil => simp
  | cons p l ih =>
    intro t
    rw [foldl_cons, ih, find_insert]
    simp only [mem_cons, exists_eq_or_imp]
    by_cases h : path = p.1
    · simp [h]
    · simp [h, Ne.symm h]

lemma longest_le : ∀ {key : List α} {t : Trie α β}, t.longest key ≤ key.length := by
  intro key
  induction key with
  | nil =>
    intro t
    exact Nat.le_refl 0
  | cons c key ih =>
    intro t
    rw [longest]
    cases t.child c with
    | none => exact Nat.zero_le _
    | some s => exact Nat.succ_le_succ ih

lemma isSome_descend_longest : ∀ {key : List α} {t : Trie α β}, (t.descend (key.take (t.longest key))).isSome := by
  intro key
  induction key with
  | nil =>
    intro t
    rfl
  | cons c key ih =>
    intro t
    rw [longest]
    cases hc : t.child c with
    | none => rfl
    | some s =>
      rw [take_succ_cons, descend, hc]
      exact ih

lemma le_longest : ∀ {path key : List α} {t : Trie α β}, (t.descend path).isSome → path <+: key →
    path.length ≤ t.longest key := by
  intro path
  induction path with
  | nil =>
    intro key t _ _
    exact Nat.zero_le _
  | cons c path ih =>
    intro key t hsome hpre
    obtain ⟨rest, rfl⟩ := hpre
    rw [descend] at hsome
    rw [cons_append, longest]
    cases hc : t.child c with
    | none =>
      rw [hc] at hsome
      cases hsome
    | some s =>
      rw [hc] at hsome
      exact Nat.succ_le_succ (ih hsome (prefix_append _ _))

end Trie

end Mallana.Lib
