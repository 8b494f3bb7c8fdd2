import Mallana.Lib.Bytes

/-!
# Reading bytes into a state

A `ByteParser` reads from the front of a byte list and may fail. A `ReadM` computation reads from a byte list
and changes a state; when it fails, the state stays as far as it got. `Consumes` is the rule for the
good case: what is read, and the state afterwards, with the bytes of a composition put together from
the bytes of its parts. `Follows` ties a computation to the parser that reads the same bytes: they
succeed and fail together, and the state moves as the values read say. `Stable` is what a computation keeps
whether it succeeds or fails.
-/

namespace Mallana.Lib

open List

variable {ε σ α β : Type}

/-- A parser: a value and the rest of the input, or an error. -/
abbrev ByteParser (ε α : Type) : Type := StateT (List UInt8) (Except ε) α

namespace ByteParser

/-- The next `n` bytes. -/
def bytes (e : ε) (n : Nat) : ByteParser ε (List UInt8) := fun bs =>
  if n ≤ bs.length then .ok (bs.take n, bs.drop n) else .error e

/-- An unsigned number of `n` bytes. -/
def num (e : ε) (n : Nat) : ByteParser ε Nat := do
  let bs ← bytes e n
  return leNat bs

def i32 (e : ε) : ByteParser ε Int := do
  let bs ← bytes e 4
  return i32Of bs

def require (e : ε) (b : Bool) : ByteParser ε Unit := if b then pure () else throw e

/-- Run a parser `n` times. -/
def times (p : ByteParser ε α) : Nat → ByteParser ε (List α)
  | 0 => pure []
  | n + 1 => do
    let a ← p
    let as ← times p n
    return a :: as

def remaining : ByteParser ε Nat := fun bs => .ok (bs.length, bs)

/-- Run a step `n` times on a state. -/
def loop (step : σ → ByteParser ε σ) : Nat → σ → ByteParser ε σ
  | 0, s => pure s
  | n + 1, s => do
    let s' ← step s
    loop step n s'

/-- The parser reads exactly the bytes `bs`, whatever follows. -/
def Parses (p : ByteParser ε α) (bs : List UInt8) (a : α) : Prop :=
  ∀ rest, p (bs ++ rest) = .ok (a, rest)

variable {e : ε} {n : Nat} {bs : List UInt8} {p : ByteParser ε α} {rest : List UInt8}

lemma num_of_le (h : n ≤ bs.length) : num e n bs = .ok (leNat (bs.take n), bs.drop n) := by
  change (bytes e n bs >>= fun r => _) = _
  rw [bytes, if_pos h]
  rfl

lemma num_of_lt (h : bs.length < n) : num e n bs = .error e := by
  change (bytes e n bs >>= fun r => _) = _
  rw [bytes, if_neg (by omega)]
  rfl

lemma i32_of_le (h : 4 ≤ bs.length) : i32 e bs = .ok (i32Of (bs.take 4), bs.drop 4) := by
  change (bytes e 4 bs >>= fun r => _) = _
  rw [bytes, if_pos h]
  rfl

lemma i32_of_lt (h : bs.length < 4) : i32 e bs = .error e := by
  change (bytes e 4 bs >>= fun r => _) = _
  rw [bytes, if_neg (by omega)]
  rfl

lemma bind_apply (p : ByteParser ε α) (f : α → ByteParser ε β) (bs : List UInt8) :
    (p >>= f) bs = match p bs with
      | .ok (a, rest) => f a rest
      | .error e => .error e := by
  change (p bs >>= fun r => f r.1 r.2) = _
  cases p bs <;> rfl

lemma bind_eq_ok {f : α → ByteParser ε β} {r : β × List UInt8} :
    (p >>= f) bs = .ok r ↔ ∃ a rest, p bs = .ok (a, rest) ∧ f a rest = .ok r := by
  rw [bind_apply]
  cases h : p bs with
  | error e => simp
  | ok r' =>
    constructor
    · exact fun hf => ⟨r'.1, r'.2, rfl, hf⟩
    · rintro ⟨a, rest, ⟨⟩, hf⟩
      exact hf

lemma bind_eq_error {f : α → ByteParser ε β} : (p >>= f) bs = .error e ↔
      p bs = .error e ∨ ∃ a rest, p bs = .ok (a, rest) ∧ f a rest = .error e := by
  rw [bind_apply]
  cases h : p bs with
  | error e' => simp
  | ok r =>
    constructor
    · exact fun hf => .inr ⟨r.1, r.2, rfl, hf⟩
    · rintro (hp | ⟨a, rest, ⟨⟩, hf⟩)
      · cases hp
      · exact hf

lemma require_eq_ok {c : Bool} {r : Unit × List UInt8} : require e c bs = .ok r ↔ c = true ∧ r = ((), bs) := by
  constructor
  · intro h
    cases c with
    | false => cases h
    | true =>
      cases h
      exact ⟨rfl, rfl⟩
  · rintro ⟨rfl, rfl⟩
    rfl

lemma require_bind_of_true {c : Bool} {g : Unit → ByteParser ε β} (h : c = true)
    (bs : List UInt8) : (require e c >>= g) bs = g () bs := by
  subst h
  rfl

lemma bytes_eq_ok {r : List UInt8 × List UInt8} :
    bytes e n bs = .ok r ↔ n ≤ bs.length ∧ r = (bs.take n, bs.drop n) := by
  unfold bytes
  split
  next h => simp [h, eq_comm]
  next h => simp [h]

lemma loop_eq_error {step : σ → ByteParser ε σ} {s : σ} : loop step n s bs = .error e ↔
      ∃ k < n, ∃ s' rest, loop step k s bs = .ok (s', rest) ∧ step s' rest = .error e := by
  induction n generalizing s bs with
  | zero =>
    constructor
    · intro h
      cases h
    · rintro ⟨k, hk, -⟩
      omega
  | succ n ih =>
    change (step s >>= fun s' => loop step n s') bs = .error e ↔ _
    rw [bind_eq_error]
    constructor
    · rintro (h | ⟨s', rest, hs, h⟩)
      · exact ⟨0, by omega, s, bs, rfl, h⟩
      · obtain ⟨k, hk, s'', rest', hl, he⟩ := ih.1 h
        exact ⟨k + 1, by omega, s'', rest', bind_eq_ok.2 ⟨s', rest, hs, hl⟩, he⟩
    · rintro ⟨k, hk, s'', rest', hl, he⟩
      cases k with
      | zero =>
        cases hl
        exact .inl he
      | succ k =>
        obtain ⟨s', rest, hs, hl⟩ := bind_eq_ok.1 hl
        exact .inr ⟨s', rest, hs, ih.2 ⟨k, by omega, s'', rest', hl, he⟩⟩

lemma loop_inv {P : Nat → σ → Prop} {step : σ → ByteParser ε σ} {m : Nat} {s s' : σ} (h : loop step n s bs = .ok (s', rest)) (hs : P m s)
    (hstep : ∀ k t bs t' rest, P k t → step t bs = .ok (t', rest) → P (k + 1) t') : P (m + n) s' := by
  induction n generalizing s bs m with
  | zero =>
    cases h
    exact hs
  | succ n ih =>
    obtain ⟨t, r, ht, h⟩ := bind_eq_ok.1 h
    have hP := ih h (hstep m s bs t r hs ht)
    rwa [add_assoc, add_comm 1] at hP

lemma length_of_times {as : List α} (h : times p n bs = .ok (as, rest)) : as.length = n := by
  induction n generalizing bs as with
  | zero =>
    cases h
    rfl
  | succ n ih =>
    obtain ⟨a, r1, _, h⟩ := bind_eq_ok.1 h
    obtain ⟨as', r2, htl, h⟩ := bind_eq_ok.1 h
    cases h
    rw [length_cons, ih htl]

lemma exists_of_mem_times {as : List α} {a : α}
    (h : times p n bs = .ok (as, rest)) (ha : a ∈ as) : ∃ bs' rest', p bs' = .ok (a, rest') := by
  induction n generalizing bs as with
  | zero =>
    cases h
    simp at ha
  | succ n ih =>
    obtain ⟨a', r1, hp, h⟩ := bind_eq_ok.1 h
    obtain ⟨as', r2, htl, h⟩ := bind_eq_ok.1 h
    cases h
    obtain rfl | ha := mem_cons.1 ha
    · exact ⟨bs, r1, hp⟩
    · exact ih htl ha

section Rules
variable {p : ByteParser ε α} {f : α → ByteParser ε β} {bs b1 b2 : List UInt8} {a : α} {b : β} {e : ε}

lemma Parses.pure (a : α) : Parses (Pure.pure a : ByteParser ε α) [] a := fun _ => rfl

lemma Parses.bind_apply (h : Parses p bs a) (f : α → ByteParser ε β) (rest : List UInt8) :
    (p >>= f) (bs ++ rest) = f a rest := by
  rw [ByteParser.bind_apply, h rest]

lemma Parses.bind (h1 : Parses p b1 a) (h2 : Parses (f a) b2 b) : Parses (p >>= f) (b1 ++ b2) b := by
  intro rest
  rw [append_assoc, h1.bind_apply]
  exact h2 rest

lemma Parses.map (h : Parses p bs a) (g : α → β) : Parses (do return g (← p)) bs (g a) := by
  intro rest
  rw [h.bind_apply]
  rfl

lemma parses_bytes {n : Nat} (h : bs.length = n) : Parses (bytes e n) bs bs := by
  intro rest
  subst h
  simp [bytes]

lemma parses_num {n x : Nat} (h : x < 256 ^ n) : Parses (num e n) (leBytes n x) x := by
  have := (parses_bytes (e := e) (length_leBytes n x)).map leNat
  rwa [leNat_leBytes h] at this

lemma parses_i32 {x : Int} (h : IsI32 x) : Parses (i32 e) (i32Bytes x) x := by
  have := (parses_bytes (e := e) (length_i32Bytes x)).map i32Of
  rwa [i32Of_i32Bytes h] at this

lemma parses_require {c : Bool} (h : c = true) : Parses (require e c) [] () := by
  subst h
  exact Parses.pure ()

lemma Parses.require_bind {c : Bool} {g : Unit → ByteParser ε β} (h : c = true)
    (h2 : Parses (g ()) bs b) : Parses (require e c >>= g) bs b :=
  (parses_require h).bind h2

lemma Parses.bind_nil (h1 : Parses p bs a) (h2 : Parses (f a) [] b) : Parses (p >>= f) bs b := by
  have := h1.bind h2
  rwa [append_nil] at this

lemma parses_times {l : List β} {enc : β → List UInt8} {val : β → α}
    (h : ∀ b ∈ l, Parses p (enc b) (val b)) : Parses (times p l.length) (l.flatMap enc) (l.map val) := by
  induction l with
  | nil => exact Parses.pure []
  | cons b l ih =>
    simp only [mem_cons, forall_eq_or_imp] at h
    have htl := (ih h.2).map (val b :: ·)
    exact h.1.bind htl

end Rules

/-- All errors of the parser satisfy `E`. -/
def FailsOnly (E : ε → Prop) (p : ByteParser ε α) : Prop := ∀ bs e, p bs = .error e → E e

section Fails
variable {E : ε → Prop} {p : ByteParser ε α} {f : α → ByteParser ε β} {e : ε}

lemma failsOnly_pure (a : α) : FailsOnly E (pure a : ByteParser ε α) := by
  intro bs e h
  cases h

lemma FailsOnly.bind (h1 : FailsOnly E p) (h2 : ∀ a, FailsOnly E (f a)) : FailsOnly E (p >>= f) := by
  intro bs e h
  rw [bind_apply] at h
  cases hp : p bs with
  | error e' =>
    rw [hp] at h
    cases h
    exact h1 bs _ hp
  | ok r =>
    rw [hp] at h
    exact h2 r.1 r.2 e h

lemma failsOnly_bytes (he : E e) (n : Nat) : FailsOnly E (bytes e n) := by
  intro bs e' h
  unfold bytes at h
  split at h
  · cases h
  · cases h
    exact he

lemma failsOnly_num (he : E e) (n : Nat) : FailsOnly E (num e n) :=
  (failsOnly_bytes he n).bind fun _ => failsOnly_pure _

lemma failsOnly_i32 (he : E e) : FailsOnly E (i32 e) :=
  (failsOnly_bytes he 4).bind fun _ => failsOnly_pure _

lemma failsOnly_require (he : E e) (b : Bool) : FailsOnly E (require e b) := by
  intro bs e' h
  cases b
  · cases h
    exact he
  · cases h

lemma FailsOnly.times (h : FailsOnly E p) (n : Nat) : FailsOnly E (times p n) := by
  induction n with
  | zero => exact failsOnly_pure []
  | succ n ih => exact h.bind fun _ => ih.bind fun _ => failsOnly_pure _

lemma failsOnly_forM {γ : Type} {q : γ → ByteParser ε Unit} (h : ∀ c, FailsOnly E (q c)) (l : List γ) :
    FailsOnly E (l.forM q) := by
  induction l with
  | nil => exact failsOnly_pure ()
  | cons c l ih => exact (h c).bind fun _ => ih

end Fails

end ByteParser

/-- The rest of the input, with a state. -/
structure Session (σ : Type) where
  io : List UInt8
  st : σ

/-- Read bytes and change the state; an error keeps the state reached. -/
abbrev ReadM (ε σ α : Type) : Type := EStateM ε (Session σ) α

namespace ReadM
open ByteParser

def lift (p : ByteParser ε α) : ReadM ε σ α := fun s =>
  match p s.io with
  | .ok (a, rest) => .ok a { s with io := rest }
  | .error e => .error e s

def update (f : σ → σ) : ReadM ε σ Unit := fun s => .ok () { s with st := f s.st }

def state : ReadM ε σ σ := fun s => .ok s.st s

def final : EStateM.Result ε (Session σ) α → σ
  | .ok _ s => s.st
  | .error _ s => s.st

lemma bind_apply (x : ReadM ε σ α) (f : α → ReadM ε σ β) (s : Session σ) :
    (x >>= f) s = match x s with
      | .ok a s' => f a s'
      | .error e s' => .error e s' := by
  change EStateM.bind x f s = _
  unfold EStateM.bind
  cases x s <;> rfl

variable {f : α → ReadM ε σ β} {s : Session σ}

lemma bind_eq_ok {x : ReadM ε σ α} {s'' : Session σ} {b : β} :
    (x >>= f) s = .ok b s'' ↔ ∃ a s', x s = .ok a s' ∧ f a s' = .ok b s'' := by
  rw [bind_apply]
  cases h : x s with
  | error e s' => simp
  | ok a s' =>
    constructor
    · exact fun hf => ⟨a, s', rfl, hf⟩
    · rintro ⟨_, _, ⟨⟩, hf⟩
      exact hf

lemma lift_bind_of_ok {p : ByteParser ε α} {a : α}
    {rest : List UInt8} (h : p s.io = .ok (a, rest)) : (lift p >>= f) s = f a ⟨rest, s.st⟩ := by
  rw [bind_apply, lift, h]

lemma lift_bind_of_error {p : ByteParser ε α} {e : ε} (h : p s.io = .error e) : (lift p >>= f) s = .error e s := by
  rw [bind_apply, lift, h]

lemma state_bind (f : σ → ReadM ε σ β) (s : Session σ) : (state >>= f) s = f s.st s := rfl

lemma update_bind (g : σ → σ) (f : Unit → ReadM ε σ β) (s : Session σ) :
    (update g >>= f) s = f () { s with st := g s.st } := rfl

lemma forM_cons_apply {γ : Type} (c : γ) (l : List γ) (f : γ → ReadM ε σ Unit) (s : Session σ) :
    (c :: l).forM f s = match f c s with
      | .ok _ s' => l.forM f s'
      | .error e s' => .error e s' := by
  change (f c >>= fun _ => l.forM f) s = _
  rw [bind_apply]
  cases f c s <;> rfl

/-- From the state `s` the computation reads exactly the bytes `bs`, returns `a` and ends in `s'`. -/
def Consumes (x : ReadM ε σ α) (bs : List UInt8) (s : σ) (a : α) (s' : σ) : Prop :=
  ∀ rest, x ⟨bs ++ rest, s⟩ = .ok a ⟨rest, s'⟩

section Consumes
variable {x : ReadM ε σ α} {f : α → ReadM ε σ β} {bs b1 b2 : List UInt8} {s s' s'' : σ} {a : α} {b : β}

lemma Consumes.pure (a : α) (s : σ) : Consumes (Pure.pure a : ReadM ε σ α) [] s a s := fun _ => rfl

lemma Consumes.bind (h1 : Consumes x b1 s a s') (h2 : Consumes (f a) b2 s' b s'') :
    Consumes (x >>= f) (b1 ++ b2) s b s'' := by
  intro rest
  rw [bind_apply, append_assoc, h1]
  exact h2 rest

lemma Consumes.bind_nil (h1 : Consumes x bs s a s') (h2 : Consumes (f a) [] s' b s'') :
    Consumes (x >>= f) bs s b s'' := by
  have := h1.bind h2
  rwa [append_nil] at this

lemma consumes_lift {p : ByteParser ε α} (h : Parses p bs a) (s : σ) : Consumes (lift p) bs s a s := by
  intro rest
  simp only [lift, h rest]

lemma consumes_update {f : σ → σ} (h : f s = s') : Consumes (update f : ReadM ε σ Unit) [] s () s' := by
  subst h
  exact fun _ => rfl

lemma Consumes.state_bind {f : σ → ReadM ε σ β} (h : Consumes (f s) bs s b s') :
    Consumes (state >>= f) bs s b s' := fun rest => h rest

lemma Consumes.update_bind {g : σ → σ} {f : Unit → ReadM ε σ β} (h : Consumes (f ()) bs (g s) b s') :
    Consumes (update g >>= f) bs s b s' := fun rest => h rest

lemma Consumes.forM_inv {P : σ → Prop} {l : List β} {f : β → ReadM ε σ Unit} {enc : β → List UInt8}
    {step : σ → β → σ} (h : ∀ b ∈ l, ∀ s, P s → Consumes (f b) (enc b) s () (step s b) ∧ P (step s b)) {s : σ}
    (hs : P s) : Consumes (l.forM f) (l.flatMap enc) s () (l.foldl step s) := by
  induction l generalizing s with
  | nil => exact Consumes.pure () s
  | cons b l ih =>
    simp only [mem_cons, forall_eq_or_imp] at h
    obtain ⟨hb, hp⟩ := h.1 s hs
    exact hb.bind (ih h.2 hp)

lemma Consumes.forM {l : List β} {f : β → ReadM ε σ Unit} {enc : β → List UInt8} {step : σ → β → σ}
    (h : ∀ b ∈ l, ∀ s, Consumes (f b) (enc b) s () (step s b)) (s : σ) :
    Consumes (l.forM f) (l.flatMap enc) s () (l.foldl step s) :=
  Consumes.forM_inv (P := fun _ => True) (fun b hb s _ => ⟨h b hb s, trivial⟩) trivial

end Consumes

/-- What holds of every step of a computation: the steps compose, and they keep an invariant. -/
structure Frame (P : σ → Prop) (R : σ → σ → Prop) : Prop where
  refl : ∀ s, R s s
  trans : ∀ {s s' s''}, R s s' → R s' s'' → R s s''
  inv : ∀ {s s'}, R s s' → P s → P s'

/-- From states in `P` the computation succeeds and fails as the parser does on the same bytes. The
    state moves within `R`, also on failure, and on success as the value read says by `Q`. -/
def Follows (P : σ → Prop) (R : σ → σ → Prop) (x : ReadM ε σ Unit) (p : ByteParser ε α)
    (Q : α → σ → σ → Prop) : Prop :=
  ∀ s, P s.st → match p s.io with
    | .ok (a, rest) => ∃ st', x s = .ok () ⟨rest, st'⟩ ∧ Q a s.st st' ∧ R s.st st'
    | .error e => ∃ s', x s = .error e s' ∧ R s.st s'.st

section Follows
variable {P : σ → Prop} {R : σ → σ → Prop} {x y : ReadM ε σ Unit} {p : ByteParser ε α}
  {q : α → ByteParser ε β} {Q : α → σ → σ → Prop} {Q' : β → σ → σ → Prop}

lemma Follows.of_ok (h : Follows P R x p Q) {s : Session σ} (hs : P s.st) {a : α}
    {rest : List UInt8} (hp : p s.io = .ok (a, rest)) :
    ∃ st', x s = .ok () ⟨rest, st'⟩ ∧ Q a s.st st' ∧ R s.st st' := by
  have hs := h s hs
  rwa [hp] at hs

lemma Follows.of_error (h : Follows P R x p Q) {s : Session σ} (hs : P s.st) {e : ε}
    (hp : p s.io = .error e) : ∃ s', x s = .error e s' ∧ R s.st s'.st := by
  have hs := h s hs
  rwa [hp] at hs

lemma Follows.of_run (h : Follows P R x p Q) {s s' : Session σ} (hs : P s.st)
    (hx : x s = .ok () s') : ∃ a, p s.io = .ok (a, s'.io) ∧ Q a s.st s'.st ∧ R s.st s'.st := by
  cases hp : p s.io with
  | error e =>
    obtain ⟨s'', he, -⟩ := h.of_error hs hp
    rw [he] at hx
    cases hx
  | ok r =>
    obtain ⟨st', hy, hq, hr⟩ := h.of_ok hs hp
    rw [hy] at hx
    cases hx
    exact ⟨r.1, rfl, hq, hr⟩

lemma Follows.final (h : Follows P R x p Q) {s : Session σ} (hs : P s.st) : R s.st (final (x s)) := by
  cases hp : p s.io with
  | error e =>
    obtain ⟨s', hx, hr⟩ := h.of_error hs hp
    rw [hx]
    exact hr
  | ok r =>
    obtain ⟨st', hx, -, hr⟩ := h.of_ok hs hp
    rw [hx]
    exact hr

lemma follows_pure (F : Frame P R) {a : α} (hQ : ∀ s, Q a s s) :
    Follows P R (pure () : ReadM ε σ Unit) (pure a) Q :=
  fun s _ => ⟨s.st, rfl, hQ s.st, F.refl s.st⟩

lemma follows_lift_bind (F : Frame P R) {f : α → ReadM ε σ Unit}
    (h : ∀ a, Follows P R (f a) (q a) Q') : Follows P R (lift p >>= f) (p >>= q) Q' := by
  intro s hs
  rw [ByteParser.bind_apply, bind_apply]
  unfold lift
  cases hp : p s.io with
  | error e => exact ⟨s, rfl, F.refl s.st⟩
  | ok r => exact h r.1 ⟨r.2, s.st⟩ hs

lemma follows_update {f : σ → σ} {a : α} (h : ∀ s, P s → Q a s (f s) ∧ R s (f s)) :
    Follows P R (update f : ReadM ε σ Unit) (pure a) Q :=
  fun s hs => ⟨f s.st, rfl, h s.st hs⟩

lemma follows_update_bind (F : Frame P R) {f : σ → σ} (hf : ∀ s, P s → R s (f s)) (h : Follows P R y p Q) :
    Follows P R (update f >>= fun _ => y) p fun a s s' => Q a (f s) s' := by
  intro s hs
  have hr := hf s.st hs
  have hy := h ⟨s.io, f s.st⟩ (F.inv hr hs)
  change match p s.io with
    | .ok (a, rest) => ∃ st', y ⟨s.io, f s.st⟩ = .ok () ⟨rest, st'⟩ ∧ Q a (f s.st) st' ∧ R s.st st'
    | .error e => ∃ s', y ⟨s.io, f s.st⟩ = .error e s' ∧ R s.st s'.st
  cases hp : p s.io with
  | error e =>
    rw [hp] at hy
    obtain ⟨s', hx, hr'⟩ := hy
    exact ⟨s', hx, F.trans hr hr'⟩
  | ok r =>
    rw [hp] at hy
    obtain ⟨st', hx, hq, hr'⟩ := hy
    exact ⟨st', hx, hq, F.trans hr hr'⟩

lemma Follows.bind (F : Frame P R) (h1 : Follows P R x p Q) {W : α → β → σ → σ → Prop}
    (h2 : ∀ a, Follows P R y (q a) (W a)) (hQ : ∀ {a b s s' s''}, Q a s s' → W a b s' s'' → Q' b s s'') :
    Follows P R (x >>= fun _ => y) (p >>= q) Q' := by
  intro s hs
  rw [ByteParser.bind_apply, bind_apply]
  cases hp : p s.io with
  | error e =>
    obtain ⟨s', hx, hr⟩ := h1.of_error hs hp
    rw [hx]
    exact ⟨s', rfl, hr⟩
  | ok r =>
    obtain ⟨st', hx, hq, hr⟩ := h1.of_ok hs hp
    rw [hx]
    have hs' := F.inv hr hs
    simp only []
    cases hq' : q r.1 r.2 with
    | error e =>
      obtain ⟨s', hx', hr'⟩ := (h2 r.1).of_error (s := ⟨r.2, st'⟩) hs' hq'
      rw [hx']
      exact ⟨s', rfl, F.trans hr hr'⟩
    | ok r' =>
      obtain ⟨st'', hx', hw, hr'⟩ := (h2 r.1).of_ok (s := ⟨r.2, st'⟩) hs' hq'
      rw [hx']
      exact ⟨st'', rfl, hQ hq hw, F.trans hr hr'⟩

lemma Follows.mono (h : Follows P R x p Q) {W : α → σ → σ → Prop}
    (hQ : ∀ {a s s'}, Q a s s' → W a s s') : Follows P R x p W := by
  intro s hs
  cases hp : p s.io with
  | error e => exact h.of_error hs hp
  | ok r =>
    obtain ⟨st', hx, hq, hr⟩ := h.of_ok hs hp
    exact ⟨st', hx, hQ hq, hr⟩

lemma Follows.map (h : Follows P R x p Q) (g : α → β)
    (hQ : ∀ {a s s'}, Q a s s' → Q' (g a) s s') : Follows P R x (do return g (← p)) Q' := by
  intro s hs
  rw [ByteParser.bind_apply]
  cases hp : p s.io with
  | error e => exact h.of_error hs hp
  | ok r =>
    obtain ⟨st', hx, hq, hr⟩ := h.of_ok hs hp
    exact ⟨st', hx, hQ hq, hr⟩

lemma follows_lift_update (F : Frame P R) {f : α → σ → σ} (h : ∀ a s, P s → Q a s (f a s) ∧ R s (f a s)) :
    Follows P R (lift p >>= fun a => update (f a) : ReadM ε σ Unit) p Q := by
  have hread := follows_lift_bind (p := p) (q := pure) F fun a => follows_update fun s hs => h a s hs
  rwa [bind_pure] at hread

lemma follows_times (F : Frame P R) {γ : Type} {f : γ → ReadM ε σ Unit} {step : γ → α → σ → σ}
    {l : List γ} (h : ∀ c ∈ l, Follows P R (f c) p fun a s s' => s' = step c a s) :
    Follows P R (l.forM f) (times p l.length) fun as s s' =>
      as.length = l.length ∧ s' = (l.zip as).foldl (fun s ca => step ca.1 ca.2 s) s := by
  induction l with
  | nil => exact follows_pure F fun s => ⟨rfl, rfl⟩
  | cons c l ih =>
    simp only [mem_cons, forall_eq_or_imp] at h
    refine h.1.bind F (W := fun a as s s' => ∃ as', as = a :: as' ∧ as'.length = l.length ∧
      s' = (l.zip as').foldl (fun s ca => step ca.1 ca.2 s) s) (fun a => ?_) ?_
    · exact (ih h.2).map _ fun hs => ⟨_, rfl, hs⟩
    · rintro a _ s _ _ rfl ⟨as', rfl, hlen, rfl⟩
      exact ⟨congrArg Nat.succ hlen, rfl⟩

lemma follows_forM (F : Frame P R) {γ : Type} {f : γ → ReadM ε σ Unit} {q : γ → ByteParser ε Unit}
    {l : List γ} (h : ∀ c ∈ l, Follows P R (f c) (q c) fun _ _ _ => True) :
    Follows P R (l.forM f) (l.forM q) fun _ _ _ => True := by
  induction l with
  | nil => exact follows_pure F fun _ => trivial
  | cons c l ih =>
    simp only [mem_cons, forall_eq_or_imp] at h
    exact h.1.bind F (fun _ => ih h.2) fun _ _ => trivial

lemma Follows.consumes (h : Follows P R x p Q) {bs : List UInt8} {a : α} (hp : Parses p bs a)
    {s s' : σ} (hs : P s) (hQ : ∀ st, Q a s st → st = s') : Consumes x bs s () s' := by
  intro rest
  obtain ⟨st', hx, hq, -⟩ := h.of_ok (s := ⟨bs ++ rest, s⟩) hs (hp rest)
  rw [hx, hQ st' hq]

end Follows

/-- The computation keeps `J`, whatever its outcome. -/
def Stable (J : σ → Prop) (x : ReadM ε σ α) : Prop := ∀ s, J s.st → J (final (x s))

section Stable
variable {J : σ → Prop} {x : ReadM ε σ α} {f : α → ReadM ε σ β}

lemma stable_pure (a : α) : Stable J (pure a : ReadM ε σ α) := fun _ h => h

lemma stable_throw (e : ε) : Stable J (throw e : ReadM ε σ α) := fun _ h => h

lemma stable_state : Stable J (state : ReadM ε σ σ) := fun _ h => h

lemma stable_lift (p : ByteParser ε α) : Stable J (lift p : ReadM ε σ α) := by
  intro s h
  unfold lift
  cases p s.io with
  | ok r => exact h
  | error e => exact h

lemma stable_update {f : σ → σ} (h : ∀ s, J s → J (f s)) : Stable J (update f : ReadM ε σ Unit) :=
  fun s => h s.st

lemma Stable.bind (h1 : Stable J x) (h2 : ∀ a, Stable J (f a)) : Stable J (x >>= f) := by
  intro s hs
  have h := h1 s hs
  rw [bind_apply]
  cases hx : x s with
  | ok a s' =>
    rw [hx] at h
    exact h2 a s' h
  | error e s' =>
    rw [hx] at h
    exact h

lemma stable_forM {γ : Type} {f : γ → ReadM ε σ Unit} (h : ∀ c, Stable J (f c)) (l : List γ) :
    Stable J (l.forM f) := by
  induction l with
  | nil => exact stable_pure ()
  | cons c l ih => exact (h c).bind fun _ => ih

end Stable

end ReadM

end Mallana.Lib
