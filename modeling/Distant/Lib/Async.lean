import Mathlib.Logic.Basic

/-!
# Asynchronous computations

`Async L ε σ α` is an async function as the executor sees it: it returns, it throws, it runs
synchronous code on the state `σ`, or it awaits a leaf operation of the family `L`. A leaf is
polled on the state; as long as it is pending the computation stays suspended there, and the
environment may change the state. Dropping a suspended computation is forgetting it: the state
stays as it is.

`wp` is the weakest precondition of a computation under such an environment. It is given what the
environment may do, what has to hold whenever the computation is suspended (so that it may be
dropped there), and what has to hold at its end. `wp_of_run` is its soundness; `wp_bind`,
`wp_attempt` and `wp_lift` are its rules.
-/

namespace Distant

/-- A computation over the leaf operations `L` and the state `σ` that throws `ε` or returns `α`. -/
inductive Async (L : Type → Type) (ε σ α : Type) : Type 1 where
  | ret (a : α)
  | throw (e : ε)
  | call {β : Type} (f : σ → Except ε β × σ) (k : Except ε β → Async L ε σ α)
  | await {β : Type} (l : L β) (k : Except ε β → Async L ε σ α)

/-- What polling a leaf says: not yet, and which leaf to poll next time, or how it ended. -/
inductive Poll (L : Type → Type) (ε β : Type) : Type where
  | pending (l : L β)
  | ready (r : Except ε β)

/-- The meaning of the leaves on the state. -/
abbrev Leaves (L : Type → Type) (ε σ : Type) := ∀ β : Type, L β → σ → Poll L ε β × σ

namespace Async

variable {L : Type → Type} {ε σ α β γ : Type}

protected def bind (p : Async L ε σ α) (f : α → Async L ε σ β) : Async L ε σ β :=
  match p with
  | ret a => f a
  | throw e => throw e
  | call g k => call g fun r => (k r).bind f
  | await l k => await l fun r => (k r).bind f

instance : Monad (Async L ε σ) where
  pure := ret
  bind := Async.bind

def ofExcept : Except ε α → Async L ε σ α
  | .ok a => ret a
  | .error e => throw e

/-- Await one leaf. -/
def lift (l : L α) : Async L ε σ α := await l ofExcept

/-- Run synchronous code. -/
def sync (f : σ → Except ε α × σ) : Async L ε σ α := call f ofExcept

/-- Run `p` to its end and return how it ended, where `catches` says what of an error is handed
back. What it does not catch is thrown on. -/
def attempt {ε' : Type} (catches : ε → Option ε') (p : Async L ε σ α) :
    Async L ε σ (Except ε' α) :=
  match p with
  | ret a => ret (.ok a)
  | throw e =>
    match catches e with
    | some e' => ret (.error e')
    | none => throw e
  | call f k => call f fun r => (k r).attempt catches
  | await l k => await l fun r => (k r).attempt catches

@[simp] theorem ret_bind (a : α) (f : α → Async L ε σ β) : (ret a >>= f) = f a := rfl

@[simp] theorem throw_bind (e : ε) (f : α → Async L ε σ β) : (throw e >>= f) = throw e := rfl

@[simp] theorem call_bind (g : σ → Except ε γ × σ) (k : Except ε γ → Async L ε σ α)
    (f : α → Async L ε σ β) : (call g k >>= f) = call g fun r => k r >>= f := rfl

@[simp] theorem await_bind (l : L γ) (k : Except ε γ → Async L ε σ α) (f : α → Async L ε σ β) :
    (await l k >>= f) = await l fun r => k r >>= f := rfl

@[simp] theorem pure_eq_ret (a : α) : (pure a : Async L ε σ α) = ret a := rfl

theorem bind_assoc (p : Async L ε σ α) (f : α → Async L ε σ β) (g : β → Async L ε σ γ) :
    (p >>= f >>= g) = p >>= fun a => f a >>= g := by
  induction p with
  | ret a => rfl
  | throw e => rfl
  | call h k ih => exact congrArg (call h) (funext fun r => ih r)
  | await l k ih => exact congrArg (await l) (funext fun r => ih r)

/-! ## Running -/

/-- Runs the synchronous code up to the next leaf, or to the end. -/
def settle (p : Async L ε σ α) (s : σ) : Async L ε σ α × σ :=
  match p with
  | ret a => (ret a, s)
  | throw e => (throw e, s)
  | call f k => (k (f s).1).settle (f s).2
  | await l k => (await l k, s)

/-- Polls the leaf that the computation is suspended at, and when that has ended, goes on to the
next one. -/
def tick (leaves : Leaves L ε σ) (p : Async L ε σ α) (s : σ) : Async L ε σ α × σ :=
  match p with
  | await l k =>
    match leaves _ l s with
    | (.pending l', s') => (await l' k, s')
    | (.ready r, s') => (k r).settle s'
  | p => p.settle s

/-- The computation is waiting for a leaf. -/
def isSuspended : Async L ε σ α → Bool
  | await _ _ => true
  | _ => false

/-- Ticks, and changes that the environment makes to the state of a suspended computation. -/
inductive Run (leaves : Leaves L ε σ) (R : σ → σ → Prop) :
    Async L ε σ α → σ → Async L ε σ α → σ → Prop
  | refl (p s) : Run leaves R p s p s
  | tick {p s q t} : Run leaves R p s q t →
      Run leaves R p s (q.tick leaves t).1 (q.tick leaves t).2
  | env {p s q t t'} : Run leaves R p s q t → q.isSuspended = true → R t t' →
      Run leaves R p s q t'

/-! ## Weakest preconditions -/

section Wp

variable (leaves : Leaves L ε σ) (R : σ → σ → Prop) (D : σ → Prop)

/-- Awaiting `l` from `s`: some invariant of the leaf and the state holds now, survives the
environment and every poll that stays pending, implies `D`, and gives `Q` when the leaf ends. -/
def Awaits (l : L β) (Q : Except ε β → σ → Prop) (s : σ) : Prop :=
  ∃ J : L β → σ → Prop, J l s ∧ (∀ l s, J l s → D s) ∧
    (∀ l s s', J l s → R s s' → J l s') ∧
    ∀ l s, J l s →
      match leaves _ l s with
      | (.pending l', s') => J l' s'
      | (.ready r, s') => Q r s'

/-- From `s`, `D` holds whenever the computation is suspended, and `Q` when it has ended. -/
def wp (p : Async L ε σ α) (Q : Except ε α → σ → Prop) (s : σ) : Prop :=
  match p with
  | ret a => Q (.ok a) s
  | throw e => Q (.error e) s
  | call f k => (k (f s).1).wp Q (f s).2
  | await l k => Awaits leaves R D l (fun r => (k r).wp Q) s

/-- What follows a computation has to be right after each of its ends. -/
def thenWp (f : α → Async L ε σ β) (Q : Except ε β → σ → Prop) : Except ε α → σ → Prop
  | .ok a, s => (f a).wp leaves R D Q s
  | .error e, s => Q (.error e) s

variable {leaves R D}

theorem Awaits.mono {l : L β} {Q Q' : Except ε β → σ → Prop} {s : σ}
    (h : Awaits leaves R D l Q s) (hQ : ∀ r s, Q r s → Q' r s) :
    Awaits leaves R D l Q' s := by
  obtain ⟨J, hJ, hD, hR, hpoll⟩ := h
  refine ⟨J, hJ, hD, hR, ?_⟩
  intro l s hls
  have hnext := hpoll l s hls
  cases hrun : leaves _ l s with
  | mk r s' =>
      rw [hrun] at hnext
      cases r with
      | pending l' => exact hnext
      | ready r => exact hQ _ _ hnext

theorem wp_mono {p : Async L ε σ α} {Q Q' : Except ε α → σ → Prop} {s : σ}
    (h : p.wp leaves R D Q s) (hQ : ∀ r s, Q r s → Q' r s) : p.wp leaves R D Q' s := by
  induction p generalizing s with
  | ret a => exact hQ _ _ h
  | throw e => exact hQ _ _ h
  | call f k ih => exact ih _ h
  | await l k ih => exact h.mono fun r s hr => ih r hr

theorem wp_bind {p : Async L ε σ α} {f : α → Async L ε σ β} {Q : Except ε β → σ → Prop} {s : σ}
    (h : p.wp leaves R D (thenWp leaves R D f Q) s) : (p >>= f).wp leaves R D Q s := by
  induction p generalizing s with
  | ret a => exact h
  | throw e => exact h
  | call f k ih => exact ih _ h
  | await l k ih => exact h.mono fun r s hr => ih r hr

/-- How an attempt hands on the end of what it ran. -/
def attemptPost {ε' : Type} (catches : ε → Option ε') (Q : Except ε (Except ε' α) → σ → Prop) :
    Except ε α → σ → Prop
  | .ok a, s => Q (.ok (.ok a)) s
  | .error e, s =>
    match catches e with
    | some e' => Q (.ok (.error e')) s
    | none => Q (.error e) s

theorem wp_attempt {ε' : Type} {catches : ε → Option ε'} {p : Async L ε σ α}
    {Q : Except ε (Except ε' α) → σ → Prop} {s : σ}
    (h : p.wp leaves R D (attemptPost catches Q) s) :
    (p.attempt catches).wp leaves R D Q s := by
  induction p generalizing s with
  | ret a => exact h
  | throw e =>
      simp only [wp, attemptPost] at h
      unfold attempt
      cases hc : catches e with
      | none =>
          rw [hc] at h
          exact h
      | some e' =>
          rw [hc] at h
          exact h
  | call f k ih => exact ih _ h
  | await l k ih => exact h.mono fun r s hr => ih r hr

theorem wp_ofExcept {r : Except ε α} {Q : Except ε α → σ → Prop} {s : σ} (h : Q r s) :
    (ofExcept (L := L) r).wp leaves R D Q s := by
  cases r with
  | ok a => exact h
  | error e => exact h

theorem wp_sync {f : σ → Except ε α × σ} {Q : Except ε α → σ → Prop} {s : σ}
    (h : Q (f s).1 (f s).2) : (sync (L := L) f).wp leaves R D Q s :=
  wp_ofExcept h

theorem wp_settle {p : Async L ε σ α} {Q : Except ε α → σ → Prop} {s : σ}
    (h : p.wp leaves R D Q s) : (p.settle s).1.wp leaves R D Q (p.settle s).2 := by
  induction p generalizing s with
  | ret a => exact h
  | throw e => exact h
  | call f k ih => exact ih _ h
  | await l k => exact h

/-- What holds however a computation ends, and wherever it is suspended. -/
theorem wp_of_forall {Q : Except ε α → σ → Prop} (hD : ∀ s, D s) (hQ : ∀ r s, Q r s)
    (p : Async L ε σ α) (s : σ) : p.wp leaves R D Q s := by
  induction p generalizing s with
  | ret a => exact hQ _ s
  | throw e => exact hQ _ s
  | call f k ih => exact ih _ _
  | await l k ih =>
      refine ⟨fun _ _ => True, trivial, fun _ s _ => hD s, fun _ _ _ _ _ => trivial, ?_⟩
      intro l s _
      cases leaves _ l s with
      | mk r s' =>
          cases r with
          | pending l' => trivial
          | ready r => exact ih r s'

/-- One tick keeps the weakest precondition. -/
theorem wp_tick {p : Async L ε σ α} {Q : Except ε α → σ → Prop} {s : σ}
    (h : p.wp leaves R D Q s) :
    (p.tick leaves s).1.wp leaves R D Q (p.tick leaves s).2 := by
  cases p with
  | ret a => exact h
  | throw e => exact h
  | call f k => exact wp_settle h
  | await l k =>
      obtain ⟨J, hJ, hD, hR, hpoll⟩ := h
      have hnext := hpoll l s hJ
      cases hrun : leaves _ l s with
      | mk r s' =>
          rw [hrun] at hnext
          simp only [tick, hrun]
          cases r with
          | pending l' => exact ⟨J, hnext, hD, hR, hpoll⟩
          | ready r => exact wp_settle hnext

/-- So does a move of the environment while the computation is suspended. -/
theorem wp_env {p : Async L ε σ α} {Q : Except ε α → σ → Prop} {s s' : σ}
    (h : p.wp leaves R D Q s) (hp : p.isSuspended = true) (hs : R s s') :
    p.wp leaves R D Q s' := by
  cases p with
  | ret a => cases hp
  | throw e => cases hp
  | call f k => cases hp
  | await l k =>
      obtain ⟨J, hJ, hD, hR, hpoll⟩ := h
      exact ⟨J, hR l s s' hJ hs, hD, hR, hpoll⟩

/-- The weakest precondition is an invariant of every run. -/
theorem wp_of_run {p q : Async L ε σ α} {Q : Except ε α → σ → Prop} {s t : σ}
    (hrun : Run leaves R p s q t) (h : p.wp leaves R D Q s) : q.wp leaves R D Q t := by
  induction hrun with
  | refl => exact h
  | tick _ ih => exact wp_tick ih
  | env _ hsusp hR ih => exact wp_env ih hsusp hR

end Wp

end Async

end Distant
