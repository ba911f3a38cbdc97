import Mathlib.Logic.Function.Basic
import Distant.Lib.Machine
import Distant.Lib.Rust
import Distant.Protocol

/-!
# The lonely shutdown timer

A server that is to shut down when it is lonely has a timer, which runs from the start. The accept
loop stops it for every connection that comes in. The task of a connection looks at the table of
connections when it terminates, and restarts the timer if it finds no more than one unfinished
connection there: its own.

But a task whose setup has failed is not in the table, a task that takes over from another one is
out of it for a while, and two tasks that terminate together find each other. `lonely_of_run` says
that the timer is right in all runs in which none of this makes a difference.
-/

namespace Distant

/-- Where the task of a connection is. -/
inductive LonelyPhase where
  /-- until the connection is established and accepted -/
  | setup
  /-- about to take an entry with its id out of the table -/
  | looking (id : ConnectionId)
  /-- waiting for the state of the task `owner`, with the lock on the table -/
  | waiting (id : ConnectionId) (owner : Nat)
  /-- about to put its own entry into the table -/
  | storing (id : ConnectionId)
  | serving (id : ConnectionId)
  /-- terminating, and about to count the entries -/
  | counting
  /-- terminating, and about to restart the timer -/
  | restarting
  | ended
  deriving DecidableEq, Repr

/-- `ShutdownTimer`, with a shutdown that is `Lonely`. -/
inductive LonelyTimer where
  | counting
  /-- stopped, and the task that sleeps is still to be cancelled -/
  | aborted
  | idle
  | fired
  deriving DecidableEq, Repr

namespace LonelyTimer

def stop : LonelyTimer → LonelyTimer
  | counting => aborted
  | timer => timer

/-- Restarts the timer, doing nothing if its task is there already, or has fired. -/
def restart : LonelyTimer → LonelyTimer
  | idle => counting
  | timer => timer

end LonelyTimer

structure LonelyServer where
  spawned : Nat
  phases : Nat → LonelyPhase
  /-- the entries of the table, each with the task that it is for -/
  connections : HashMap ConnectionId Nat
  /-- the entry of the task is finished -/
  finished : Nat → Bool
  /-- the task that holds the write lock on the table -/
  lock : Option Nat
  /-- a connection was accepted, and the timer is still to be stopped for it -/
  accepting : Bool
  timer : LonelyTimer

inductive LonelyEvent where
  | accept
  /-- the accept loop stops the timer and spawns the task of the connection -/
  | stop
  /-- the task of a stopped timer is gone -/
  | cancelled
  | established (k : Nat) (id : ConnectionId)
  | setupFails (k : Nat)
  | lookup (k : Nat)
  | restore (k : Nat)
  | store (k : Nat)
  /-- the other side closes, there is an error, or the task was told to shut down -/
  | terminate (k : Nat)
  /-- the entry of a task that has sent its channels back, or dropped them, is finished -/
  | finish (k : Nat)
  | count (k : Nat)
  | restart (k : Nat)
  | fire

namespace LonelyServer

def new : LonelyServer where
  spawned := 0
  phases := fun _ => .ended
  connections := ∅
  finished := fun _ => false
  lock := none
  accepting := false
  timer := .counting

def setPhase (s : LonelyServer) (k : Nat) (phase : LonelyPhase) : LonelyServer :=
  { s with phases := Function.update s.phases k phase }

/-- How many entries are not finished. -/
def unfinished (s : LonelyServer) : Nat :=
  (s.connections.entries.filter fun entry => !s.finished entry.2).length

def step (s : LonelyServer) : LonelyEvent → Option LonelyServer
  | .accept =>
    if s.accepting = true ∨ s.timer = .fired then none else some { s with accepting := true }
  | .stop =>
    if s.accepting = true then
      some { s.setPhase s.spawned .setup with
        spawned := s.spawned + 1
        accepting := false
        timer := s.timer.stop }
    else none
  | .cancelled => if s.timer = .aborted then some { s with timer := .idle } else none
  | .established k id =>
    match s.phases k with
    | .setup => some (s.setPhase k (.looking id))
    | _ => none
  | .setupFails k =>
    match s.phases k with
    | .setup => some (s.setPhase k .counting)
    | _ => none
  | .lookup k =>
    match s.phases k, s.lock with
    | .looking id, none =>
      match s.connections.lookup id with
      | some owner =>
        some ({ s with connections := s.connections.erase id, lock := some k }.setPhase k
          (.waiting id owner))
      | none => some (s.setPhase k (.storing id))
    | _, _ => none
  | .restore k =>
    match s.phases k with
    | .waiting id owner =>
      if s.finished owner = true then some ({ s with lock := none }.setPhase k (.storing id))
      else none
    | _ => none
  | .store k =>
    match s.phases k, s.lock with
    | .storing id, none =>
      some ({ s with connections := s.connections.insert id k }.setPhase k (.serving id))
    | _, _ => none
  | .terminate k =>
    match s.phases k with
    | .serving _ => some (s.setPhase k .counting)
    | _ => none
  | .finish k =>
    match s.phases k with
    | .counting => some { s with finished := Function.update s.finished k true }
    | .restarting => some { s with finished := Function.update s.finished k true }
    | .ended => some { s with finished := Function.update s.finished k true }
    | _ => none
  | .count k =>
    match s.phases k, s.lock with
    | .counting, none => some (s.setPhase k (if s.unfinished ≤ 1 then .restarting else .ended))
    | _, _ => none
  | .restart k =>
    match s.phases k with
    | .restarting => some ({ s with timer := s.timer.restart }.setPhase k .ended)
    | _ => none
  | .fire => if s.timer = .counting then some { s with timer := .fired } else none

/-- The connection of the task is live. -/
def Live (s : LonelyServer) (k : Nat) : Prop := ∃ id, s.phases k = .serving id

/-- No step is in progress: every connection is live or has ended, and no timer is being stopped. -/
def Quiet (s : LonelyServer) : Prop :=
  s.accepting = false ∧ s.timer ≠ .aborted ∧ ∀ k, s.Live k ∨ s.phases k = .ended

/-- While the timer is counting down, so that it can fire, no connection is live; and if none is and
no step is in progress, the timer is counting down, or has done so. -/
def Right (s : LonelyServer) : Prop :=
  (s.timer = .counting → ∀ k, ¬ s.Live k) ∧
  (s.Quiet → (∀ k, ¬ s.Live k) → s.timer = .counting ∨ s.timer = .fired)

/-- Every other task has ended. -/
def Alone (s : LonelyServer) (k : Nat) : Prop := ∀ j, j ≠ k → s.phases j = .ended

/-- What a task finds in the table tells it whether it is alone; it still is when it restarts the
timer, and the timer is not just being stopped. -/
def Meets (s : LonelyServer) : LonelyEvent → Prop
  | .count k => s.unfinished ≤ 1 ↔ s.Alone k
  | .restart k => s.Alone k ∧ s.timer ≠ .aborted
  | _ => True

/-- The timer counts down only when all tasks have ended, and then it does. -/
structure Inv (s : LonelyServer) : Prop where
  ended : s.timer = .counting → ∀ k, s.phases k = .ended
  counting : (∀ k, s.phases k = .ended) → s.timer = .counting ∨ s.timer = .fired

variable {s s' : LonelyServer}

theorem Inv.right (h : s.Inv) : s.Right := by
  constructor
  · rintro htimer k ⟨id, hlive⟩
    rw [h.ended htimer k] at hlive
    cases hlive
  · rintro ⟨-, -, hquiet⟩ hlive
    apply h.counting
    intro k
    exact (hquiet k).resolve_left (hlive k)

theorem inv_new : new.Inv := ⟨fun _ _ => rfl, fun _ => .inl rfl⟩

theorem phases_setPhase (s : LonelyServer) (k j : Nat) (phase : LonelyPhase) :
    (s.setPhase k phase).phases j = if j = k then phase else s.phases j :=
  Function.update_apply ..

/-- A step from one phase that is not the last to another one. -/
theorem Inv.setPhase (h : s.Inv) {k : Nat} {phase phase' : LonelyPhase}
    (hphase : s.phases k = phase) (hbefore : phase ≠ .ended) (hafter : phase' ≠ .ended) :
    (s.setPhase k phase').Inv := by
  constructor
  · intro htimer
    exact absurd (hphase.symm.trans (h.ended htimer k)) hbefore
  · intro hended
    have hk := hended k
    rw [phases_setPhase, if_pos rfl] at hk
    exact absurd hk hafter

theorem Inv.congr (h : s.Inv) (htimer : s'.timer = s.timer) (hphases : s'.phases = s.phases) :
    s'.Inv :=
  ⟨by rw [htimer, hphases]; exact h.ended, by rw [htimer, hphases]; exact h.counting⟩

theorem inv_step {e : LonelyEvent} (h : s.Inv) (hmeets : s.Meets e) (hstep : s.step e = some s') :
    s'.Inv := by
  cases e <;> simp only [step] at hstep
  case accept =>
    split at hstep <;> cases hstep
    exact h.congr rfl rfl
  case stop =>
    split at hstep <;> cases hstep
    constructor
    · intro htimer
      have htimer : s.timer.stop = .counting := htimer
      cases hbefore : s.timer <;> rw [hbefore] at htimer <;> cases htimer
    · intro hended
      have hk : (s.setPhase s.spawned .setup).phases s.spawned = .ended := hended s.spawned
      rw [phases_setPhase, if_pos rfl] at hk
      cases hk
  case cancelled =>
    split at hstep
    · next haborted =>
        cases hstep
        refine ⟨fun htimer => (by cases htimer), fun hended => ?_⟩
        rcases h.counting hended with hcounting | hfired
        · rw [hcounting] at haborted
          cases haborted
        · rw [hfired] at haborted
          cases haborted
    · cases hstep
  case established k id =>
    split at hstep <;> cases hstep
    exact h.setPhase ‹_› (by simp) (by simp)
  case setupFails k =>
    split at hstep <;> cases hstep
    exact h.setPhase ‹_› (by simp) (by simp)
  case lookup k =>
    split at hstep
    · split at hstep <;> cases hstep
      · exact (h.setPhase ‹_› (by simp) (by simp)).congr rfl rfl
      · exact h.setPhase ‹_› (by simp) (by simp)
    · cases hstep
  case restore k =>
    split at hstep
    · split at hstep <;> cases hstep
      exact (h.setPhase ‹_› (by simp) (by simp)).congr rfl rfl
    · cases hstep
  case store k =>
    split at hstep <;> cases hstep
    exact (h.setPhase ‹_› (by simp) (by simp)).congr rfl rfl
  case terminate k =>
    split at hstep <;> cases hstep
    exact h.setPhase ‹_› (by simp) (by simp)
  case finish k =>
    split at hstep <;> cases hstep <;> exact h.congr rfl rfl
  case count k =>
    split at hstep
    · next hphase _ =>
        cases hstep
        by_cases hfew : s.unfinished ≤ 1
        · rw [if_pos hfew]
          exact h.setPhase hphase (by simp) (by simp)
        · -- some other task is still there
          rw [if_neg hfew]
          constructor
          · intro htimer
            have hk := h.ended htimer k
            rw [hphase] at hk
            cases hk
          · intro hended
            refine absurd (hmeets.mpr fun j hj => ?_) hfew
            have hother := hended j
            rw [phases_setPhase, if_neg hj] at hother
            exact hother
    · cases hstep
  case restart k =>
    split at hstep
    · next hphase =>
        cases hstep
        obtain ⟨halone, haborted⟩ := hmeets
        have hended : ∀ j, (s.setPhase k .ended).phases j = .ended := by
          intro j
          rw [phases_setPhase]
          split
          · rfl
          · next hj => exact halone j hj
        refine ⟨fun _ => hended, fun _ => ?_⟩
        show s.timer.restart = .counting ∨ s.timer.restart = .fired
        cases htimer : s.timer with
        | counting => exact .inl rfl
        | aborted => exact absurd htimer haborted
        | idle => exact .inl rfl
        | fired => exact .inr rfl
    · cases hstep
  case fire =>
    split at hstep
    · next hcounting =>
        cases hstep
        exact ⟨fun htimer => (by cases htimer), fun _ => .inr rfl⟩
    · cases hstep

/-- The timer is right in all states of all runs whose steps meet the condition. -/
theorem lonely_of_run {es : List LonelyEvent} {s : LonelyServer}
    (hmeets : Machine.Meeting step Meets es new) (hrun : Machine.run step es new = some s) :
    s.Right :=
  (Machine.invariant (fun _ _ _ h hC hstep => inv_step h hC hstep) inv_new hmeets hrun).right

/-- A connection comes in and is served by the task `k`. -/
def serve (k : Nat) (id : ConnectionId) : List LonelyEvent :=
  [.accept, .stop, .cancelled, .established k id, .lookup k, .store k]

/-- The only connection ends. -/
theorem lonely_afterLast : ∃ s, Machine.run step
    (serve 0 7 ++ [.terminate 0, .finish 0, .count 0, .restart 0]) new = some s ∧ s.Right ∧
      s.timer = .counting := by
  suffices hmeets : Machine.Meeting step Meets
      (serve 0 7 ++ [.terminate 0, .finish 0, .count 0, .restart 0]) new from
    ⟨_, rfl, lonely_of_run hmeets rfl, rfl⟩
  iterate 8 refine Machine.Meeting.cons trivial rfl ?_
  refine Machine.Meeting.cons ⟨fun _ j hj => ?_, fun _ => by decide⟩ rfl ?_
  · simp [LonelyServer.setPhase, new, hj]
  · refine Machine.Meeting.cons ⟨fun j hj => ?_, by decide⟩ rfl trivial
    simp [LonelyServer.setPhase, new, hj]

/-- A setup fails while a connection is live, and the timer is started; two connections end
together, and it is not; and a client reconnects, and it is started by the task that it takes over
from. -/
theorem not_lonely :
    (∃ s, Machine.run step (serve 0 7 ++ [.accept, .stop, .setupFails 1, .count 1, .restart 1]) new
      = some s ∧ ¬ s.Right) ∧
    (∃ s, Machine.run step (serve 0 7 ++ [.accept, .stop, .established 1 8, .lookup 1, .store 1,
      .terminate 0, .terminate 1, .count 0, .count 1]) new = some s ∧ ¬ s.Right) ∧
    ∃ s, Machine.run step (serve 0 7 ++ [.accept, .stop, .established 1 7, .lookup 1, .terminate 0,
      .finish 0, .restore 1, .count 0, .restart 0, .store 1]) new = some s ∧ ¬ s.Right := by
  refine ⟨⟨_, rfl, fun h => h.1 rfl 0 ⟨7, rfl⟩⟩, ⟨_, rfl, fun h => ?_⟩,
    ⟨_, rfl, fun h => h.1 rfl 1 ⟨7, rfl⟩⟩⟩
  -- both have counted two entries, and nothing is left that would start the timer
  refine absurd (h.2 ⟨rfl, by decide, fun k => .inr ?_⟩ ?_) (by decide)
  · match k with
    | 0 => rfl
    | 1 => rfl
    | k + 2 => rfl
  · rintro k ⟨id, hlive⟩
    match k with
    | 0 => cases hlive
    | 1 => cases hlive
    | k + 2 => cases hlive

end LonelyServer

end Distant
