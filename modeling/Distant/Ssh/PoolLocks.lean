import Mathlib.Data.List.Nodup
import Mathlib.Data.Prod.Lex
import Mathlib.Logic.Function.Basic
import Mathlib.Tactic.IntervalCases
import Distant.Lib.Fair
import Distant.Ssh.Pool

/-!
# The locks of the pool

`open_channel` asks the server for a channel with the lock on the handle, and the guard of that lock
is a temporary of the whole `match` on the answer: it lives while the answer is counted, or while the
limit is noted, the cached session evicted and the call tried once more. The second try waits for
the handle that the first one holds.

`LockedPool` has the two locks with those who wait for them, in the order in which they came, and any
number of calls at any point. `completes_iff` says of its fair runs that all calls return what they
should, and that nobody waits for the handle for ever, exactly if no call that fails to open a
channel ever finds a session to evict.
-/

namespace Distant

/-- What is behind the lock on `inner`. -/
structure PoolInner where
  sftp : Option Nat
  open_count : Nat
  channel_limit : Option Nat
  deriving DecidableEq, Repr

namespace PoolInner

def count (p : PoolInner) : PoolInner := { p with open_count := p.open_count + 1 }

def note (p : PoolInner) : PoolInner :=
  { p with channel_limit := some (p.channel_limit.getD p.open_count) }

/-- What `evict_sftp` leaves, if it evicts a session. -/
def evict (p : PoolInner) : Option PoolInner :=
  p.sftp.map fun _ => { p with sftp := none, open_count := p.open_count - 1 }

theorem evict_of_none {p : PoolInner} (h : p.sftp = none) : p.evict = none := by
  unfold evict
  rw [h, Option.map_none]

theorem evict_of_some {p : PoolInner} {session : Nat} (h : p.sftp = some session) :
    p.evict = some { p with sftp := none, open_count := p.open_count - 1 } := by
  unfold evict
  rw [h, Option.map_some]

end PoolInner

/-- What else the lock on `inner` is taken for: `sftp` looks at the cache, `sftp` and `return_sftp`
cache a session, `release_slot`, and `channel_limit`. -/
inductive PoolUse where
  | look
  | cache (session : Nat)
  | release
  | limit
  deriving DecidableEq, Repr

def PoolUse.apply : PoolUse → PoolInner → PoolInner
  | look, p => p
  | cache session, p => { p with sftp := some session }
  | release, p => { p with open_count := p.open_count - 1 }
  | limit, p => p

/-! ## The data of the pool -/

namespace ChannelPool

/-- What the pool has behind the lock on `inner`. -/
def inner (s : ChannelPool) : PoolInner := ⟨s.sftp, s.open_count, s.channel_limit⟩

theorem inner_evict_sftp (s : ChannelPool) : s.evict_sftp.map inner = s.inner.evict := by
  rw [evict_sftp, PoolInner.evict, Option.map_map]
  rfl

/-- Every step of the pool does one of these things to its data, or nothing. -/
theorem inner_of_step {s s' : ChannelPool} {e : PoolEvent} (hstep : s.step e = some s') :
    s'.inner = s.inner.count ∨ s'.inner = s.inner.note ∨ some s'.inner = s.inner.evict ∨
      ∃ u : PoolUse, s'.inner = u.apply s.inner := by
  have hsame (h : s'.inner = s.inner) : ∃ u : PoolUse, s'.inner = u.apply s.inner := ⟨.look, h⟩
  unfold step at hstep
  cases e with
  | sftp =>
      cases hstep
      exact Or.inr (Or.inr (Or.inr (hsame rfl)))
  | openExec =>
      cases hstep
      exact Or.inr (Or.inr (Or.inr (hsame rfl)))
  | openExecs n =>
      cases n with
      | zero =>
          cases hstep
          exact Or.inr (Or.inr (Or.inr (hsame rfl)))
      | succ n =>
          cases hstep
          exact Or.inr (Or.inr (Or.inr (hsame rfl)))
  | look =>
      simp only [Option.ite_none_right_eq_some] at hstep
      obtain ⟨-, hstep⟩ := hstep
      split at hstep
      · cases hstep
        exact Or.inr (Or.inr (Or.inr (hsame rfl)))
      · cases hstep
        exact Or.inr (Or.inr (Or.inr (hsame rfl)))
  | answer purpose ok =>
      simp only [Option.ite_none_right_eq_some, Option.some.injEq] at hstep
      obtain ⟨-, rfl⟩ := hstep
      exact Or.inr (Or.inr (Or.inr (hsame rfl)))
  | count purpose =>
      simp only [Option.ite_none_right_eq_some, Option.some.injEq] at hstep
      obtain ⟨-, rfl⟩ := hstep
      exact Or.inl rfl
  | note purpose =>
      simp only [Option.ite_none_right_eq_some, Option.some.injEq] at hstep
      obtain ⟨-, rfl⟩ := hstep
      exact Or.inr (Or.inl rfl)
  | evict purpose =>
      simp only [Option.ite_none_right_eq_some] at hstep
      obtain ⟨-, hstep⟩ := hstep
      split at hstep
      · next s₁ hevict =>
          cases hstep
          refine Or.inr (Or.inr (Or.inl ?_))
          rw [← inner_evict_sftp, hevict]
          rfl
      · cases hstep
        exact Or.inr (Or.inr (Or.inr (hsame rfl)))
  | start c ok =>
      simp only [Option.ite_none_right_eq_some, Option.some.injEq] at hstep
      obtain ⟨-, rfl⟩ := hstep
      exact Or.inr (Or.inr (Or.inr (hsame rfl)))
  | cache c =>
      simp only [Option.ite_none_right_eq_some, Option.some.injEq] at hstep
      obtain ⟨-, rfl⟩ := hstep
      exact Or.inr (Or.inr (Or.inr ⟨.cache c, rfl⟩))
  | dropSftp c =>
      simp only [Option.ite_none_right_eq_some, Option.some.injEq] at hstep
      obtain ⟨-, rfl⟩ := hstep
      exact Or.inr (Or.inr (Or.inr (hsame rfl)))
  | returnSftp c =>
      simp only [Option.ite_none_right_eq_some, Option.some.injEq] at hstep
      obtain ⟨-, rfl⟩ := hstep
      exact Or.inr (Or.inr (Or.inr ⟨.cache c, rfl⟩))
  | dropExec c =>
      simp only [Option.ite_none_right_eq_some, Option.some.injEq] at hstep
      obtain ⟨-, rfl⟩ := hstep
      exact Or.inr (Or.inr (Or.inr (hsame rfl)))
  | take c =>
      simp only [Option.ite_none_right_eq_some, Option.some.injEq] at hstep
      obtain ⟨-, rfl⟩ := hstep
      exact Or.inr (Or.inr (Or.inr (hsame rfl)))
  | close c =>
      simp only [Option.ite_none_right_eq_some, Option.some.injEq] at hstep
      obtain ⟨-, rfl⟩ := hstep
      exact Or.inr (Or.inr (Or.inr (hsame rfl)))
  | dropPermit c =>
      simp only [Option.ite_none_right_eq_some, Option.some.injEq] at hstep
      obtain ⟨-, rfl⟩ := hstep
      exact Or.inr (Or.inr (Or.inr (hsame rfl)))
  | release c =>
      simp only [Option.ite_none_right_eq_some, Option.some.injEq] at hstep
      obtain ⟨-, rfl⟩ := hstep
      exact Or.inr (Or.inr (Or.inr ⟨.release, rfl⟩))

end ChannelPool

/-! ## The locks -/

/-- Where `open_channel` is. -/
inductive OpenPhase where
  /-- waits for the handle -/
  | locking
  /-- waits for the answer of the server -/
  | asking
  /-- has a channel, and waits for `inner` to count it -/
  | counting
  /-- has no channel, and waits for `inner` to note the limit -/
  | noting
  /-- in `evict_sftp`, waits for `inner` -/
  | evicting
  /-- in the delay after the eviction -/
  | sleeping
  deriving DecidableEq, Repr

inductive OpenOutcome where
  | opened
  | failed
  deriving DecidableEq, Repr

inductive PoolCall where
  | idle
  /-- `open_channel`, in as many calls within each other as the depth says and one more -/
  | opening (depth : Nat) (phase : OpenPhase)
  | returned (outcome : OpenOutcome)
  /-- `handle`, waiting for the guard or with it -/
  | guarding
  /-- waits for `inner` -/
  | waiting (u : PoolUse)
  deriving DecidableEq, Repr

namespace PoolCall

def isFree : PoolCall → Bool
  | idle => true
  | returned _ => true
  | _ => false

/-- Waits for the handle or has it. -/
def WantsHandle : PoolCall → Prop
  | opening _ _ => True
  | guarding => True
  | _ => False

/-- Waits for `inner`. -/
def WantsInner : PoolCall → Prop
  | opening _ .counting => True
  | opening _ .noting => True
  | opening _ .evicting => True
  | waiting _ => True
  | _ => False

section

variable {call : PoolCall} {depth : Nat} {phase : OpenPhase} {outcome : OpenOutcome} {u : PoolUse}

@[simp] theorem wantsHandle_opening : (opening depth phase).WantsHandle := trivial
@[simp] theorem wantsHandle_guarding : guarding.WantsHandle := trivial
@[simp] theorem not_wantsHandle_idle : ¬ idle.WantsHandle := id
@[simp] theorem not_wantsHandle_returned : ¬ (returned outcome).WantsHandle := id
@[simp] theorem not_wantsHandle_waiting : ¬ (waiting u).WantsHandle := id

@[simp] theorem wantsInner_opening : (opening depth phase).WantsInner ↔
    phase = .counting ∨ phase = .noting ∨ phase = .evicting := by
  cases phase <;> simp [WantsInner]

@[simp] theorem wantsInner_waiting : (waiting u).WantsInner := trivial
@[simp] theorem not_wantsInner_idle : ¬ idle.WantsInner := id
@[simp] theorem not_wantsInner_returned : ¬ (returned outcome).WantsInner := id
@[simp] theorem not_wantsInner_guarding : ¬ guarding.WantsInner := id

theorem not_wants_of_isFree (h : call.isFree = true) : ¬ call.WantsHandle ∧ ¬ call.WantsInner := by
  cases call <;> simp_all [isFree]

end

end PoolCall

/-- Both locks are given to those who wait in the order in which they came. The first one in a queue
has the lock. In the queue for the handle, each of the calls to `open_channel` within each other has
its own place; `inner` is let go of before anything is awaited. -/
structure LockedPool where
  inner : PoolInner
  handleQueue : List (Nat × Nat)
  innerQueue : List Nat
  calls : Nat → PoolCall

inductive LockedEvent where
  | openChannel (i : Nat)
  | lock (i depth : Nat)
  /-- the server answers `channel_open_session` -/
  | answer (i depth : Nat) (ok : Bool)
  | count (i depth : Nat)
  | note (i depth : Nat)
  | evict (i depth : Nat)
  | wake (i depth : Nat)
  | guard (i : Nat)
  | dropGuard (i : Nat)
  | use (i : Nat) (u : PoolUse)
  | done (i : Nat) (u : PoolUse)
  deriving DecidableEq, Repr

namespace LockedPool

/-- A pool that nobody is using. -/
def fresh (inner : PoolInner) : LockedPool := ⟨inner, [], [], fun _ => .idle⟩

def set (s : LockedPool) (i : Nat) (call : PoolCall) : LockedPool :=
  { s with calls := Function.update s.calls i call }

/-- The call returns, and all its guards of the handle are dropped. -/
def finish (s : LockedPool) (i : Nat) (outcome : OpenOutcome) : LockedPool :=
  { s.set i (.returned outcome) with
    handleQueue := s.handleQueue.filter fun ticket => ticket.1 ≠ i
    innerQueue := s.innerQueue.tail }

/-- What an event does. The lock on `inner` is taken and let go of in one step. -/
def step (s : LockedPool) : LockedEvent → Option LockedPool
  | .openChannel i =>
    if (s.calls i).isFree = true then
      some { s.set i (.opening 0 .locking) with handleQueue := s.handleQueue ++ [(i, 0)] }
    else none
  | .lock i depth =>
    if s.calls i = .opening depth .locking ∧ s.handleQueue.head? = some (i, depth) then
      some (s.set i (.opening depth .asking))
    else none
  | .answer i depth ok =>
    if s.calls i = .opening depth .asking then
      some { s.set i (.opening depth (if ok then .counting else .noting)) with
        innerQueue := s.innerQueue ++ [i] }
    else none
  | .count i depth =>
    if s.calls i = .opening depth .counting ∧ s.innerQueue.head? = some i then
      some { s.finish i .opened with inner := s.inner.count }
    else none
  | .note i depth =>
    if s.calls i = .opening depth .noting ∧ s.innerQueue.head? = some i then
      -- the lock is let go of, and taken again by `evict_sftp`
      some { s.set i (.opening depth .evicting) with
        inner := s.inner.note
        innerQueue := s.innerQueue.tail ++ [i] }
    else none
  | .evict i depth =>
    if s.calls i = .opening depth .evicting ∧ s.innerQueue.head? = some i then
      match s.inner.evict with
      | none => some (s.finish i .failed)
      | some inner =>
        some { s.set i (.opening depth .sleeping) with
          inner := inner
          innerQueue := s.innerQueue.tail }
    else none
  | .wake i depth =>
    if s.calls i = .opening depth .sleeping then
      -- the guard of the handle is still alive
      some { s.set i (.opening (depth + 1) .locking) with
        handleQueue := s.handleQueue ++ [(i, depth + 1)] }
    else none
  | .guard i =>
    if (s.calls i).isFree = true then
      some { s.set i .guarding with handleQueue := s.handleQueue ++ [(i, 0)] }
    else none
  | .dropGuard i =>
    if s.calls i = .guarding ∧ s.handleQueue.head? = some (i, 0) then
      some { s.set i .idle with handleQueue := s.handleQueue.tail }
    else none
  | .use i u =>
    if (s.calls i).isFree = true then
      some { s.set i (.waiting u) with innerQueue := s.innerQueue ++ [i] }
    else none
  | .done i u =>
    if s.calls i = .waiting u ∧ s.innerQueue.head? = some i then
      some { s.set i .idle with
        inner := u.apply s.inner
        innerQueue := s.innerQueue.tail }
    else none

end LockedPool

/-- Whose turn an event is; anybody may begin something at any time. -/
def LockedEvent.turn : LockedEvent → Option Nat
  | .lock i _ => some i
  | .answer i _ _ => some i
  | .count i _ => some i
  | .note i _ => some i
  | .evict i _ => some i
  | .wake i _ => some i
  | .dropGuard i => some i
  | .done i _ => some i
  | .openChannel _ => none
  | .guard _ => none
  | .use _ _ => none

namespace LockedPool

/-- The call waits for the handle in one of its calls to `open_channel` and has it in another. -/
def WaitsForItself (s : LockedPool) (i : Nat) : Prop :=
  ∃ depth held, s.calls i = .opening depth .locking ∧ s.handleQueue.head? = some (i, held) ∧
    held ≠ depth

/-- What is asked of the calls in a run. -/
structure Completes (run : Machine.FairRun step LockedEvent.turn) : Prop where
  /-- No call waits for itself. -/
  noSelfWait : ∀ n i, ¬ (run.state n).WaitsForItself i
  /-- A call that has a channel returns it. -/
  opened : ∀ n i depth, (run.state n).calls i = .opening depth .counting →
    ∃ m, n ≤ m ∧ (run.state m).calls i = .returned .opened
  /-- A call that finds no session to evict returns an error. -/
  failed : ∀ n i depth, (run.state n).calls i = .opening depth .evicting →
    run.event n = some (.evict i depth) → (run.state n).inner.sftp = none →
      (run.state (n + 1)).calls i = .returned .failed
  /-- A call that evicts a session tries once more, and returns what comes of it. -/
  retried : ∀ n i depth, (run.state n).calls i = .opening depth .evicting →
    run.event n = some (.evict i depth) → (run.state n).inner.sftp ≠ none →
      ∃ m ok m', n ≤ m ∧ run.event m = some (.answer i (depth + 1) ok) ∧
        m ≤ m' ∧ (run.state m').calls i = .returned (if ok then .opened else .failed)
  /-- Every call returns. -/
  returns : ∀ n i depth phase, (run.state n).calls i = .opening depth phase →
    ∃ m outcome, n ≤ m ∧ (run.state m).calls i = .returned outcome
  /-- Whoever else waits for the handle gets it. -/
  guarded : ∀ n i, (run.state n).calls i = .guarding →
    ∃ m, n ≤ m ∧ (run.state m).calls i = .guarding ∧
      (run.state m).handleQueue.head? = some (i, 0)

/-- No session is there to be evicted. -/
def NothingToEvict (s : LockedPool) : LockedEvent → Prop
  | .evict _ _ => s.inner.sftp = none
  | _ => True

/-! ## As long as nothing is evicted -/

/-- The calls in the queues are those that wait, and what goes on beyond waiting for the handle goes
on with the handle. -/
structure Inv (s : LockedPool) : Prop where
  flat : ∀ i depth phase, s.calls i = .opening depth phase → depth = 0 ∧ phase ≠ .sleeping
  queued : ∀ i depth, (i, depth) ∈ s.handleQueue ↔ depth = 0 ∧ (s.calls i).WantsHandle
  once : s.handleQueue.Nodup
  holds : ∀ i depth phase, s.calls i = .opening depth phase → phase ≠ .locking →
    s.handleQueue.head? = some (i, depth)
  innerQueued : ∀ i, i ∈ s.innerQueue ↔ (s.calls i).WantsInner
  innerOnce : s.innerQueue.Nodup

section Inv

variable {s s' : LockedPool} {e : LockedEvent} {i j : Nat} {call : PoolCall}

@[simp] theorem set_calls (s : LockedPool) (i : Nat) (call : PoolCall) (j : Nat) :
    (s.set i call).calls j = if j = i then call else s.calls j := Function.update_apply _ _ _ _

@[simp] theorem set_handleQueue (s : LockedPool) (i : Nat) (call : PoolCall) :
    (s.set i call).handleQueue = s.handleQueue := rfl

@[simp] theorem set_innerQueue (s : LockedPool) (i : Nat) (call : PoolCall) :
    (s.set i call).innerQueue = s.innerQueue := rfl

@[simp] theorem set_inner (s : LockedPool) (i : Nat) (call : PoolCall) :
    (s.set i call).inner = s.inner := rfl

theorem inv_fresh (inner : PoolInner) : (fresh inner).Inv where
  flat := by simp [fresh]
  queued := by simp [fresh, PoolCall.WantsHandle]
  once := List.nodup_nil
  holds := by simp [fresh]
  innerQueued := by simp [fresh, PoolCall.WantsInner]
  innerOnce := List.nodup_nil

/-- A call takes its place in the queue for the handle. -/
theorem Inv.arrive (h : s.Inv) (hfree : (s.calls i).isFree = true)
    (hcall : call = .opening 0 .locking ∨ call = .guarding) :
    Inv { s.set i call with handleQueue := s.handleQueue ++ [(i, 0)] } := by
  obtain ⟨hhandle, hinner⟩ := PoolCall.not_wants_of_isFree hfree
  have hnot : (i, 0) ∉ s.handleQueue := fun hmem => hhandle ((h.queued i 0).mp hmem).2
  refine ⟨?_, ?_, ?_, ?_, ?_, h.innerOnce⟩
  · intro j depth phase hj
    simp only [set_calls] at hj
    split_ifs at hj with heq
    · rcases hcall with rfl | rfl
      · cases hj
        exact ⟨rfl, by decide⟩
      · cases hj
    · exact h.flat j depth phase hj
  · intro j depth
    simp only [set_calls, List.mem_append, List.mem_singleton, Prod.mk.injEq, h.queued]
    by_cases heq : j = i
    · subst heq
      rcases hcall with rfl | rfl <;> simp [hhandle]
    · simp [heq]
  · exact h.once.append (List.nodup_singleton _) (by simpa using hnot)
  · intro j depth phase hj hphase
    simp only [set_calls] at hj
    split_ifs at hj with heq
    · rcases hcall with rfl | rfl
      · cases hj
        exact absurd rfl hphase
      · cases hj
    · simp only [List.head?_append, h.holds j depth phase hj hphase, Option.some_or]
  · intro j
    simp only [set_calls, set_innerQueue, h.innerQueued]
    split_ifs with heq
    · subst heq
      rcases hcall with rfl | rfl <;> simp [hinner]
    · rfl

/-- A call that has the handle goes on with it. -/
theorem Inv.advance (h : s.Inv) {phase phase' : OpenPhase} {inner : PoolInner} {queue : List Nat}
    (hi : s.calls i = .opening 0 phase) (hhead : s.handleQueue.head? = some (i, 0))
    (hsleep : phase' ≠ .sleeping)
    (hqueue : ∀ j, j ∈ queue ↔
      if j = i then (PoolCall.opening 0 phase').WantsInner else j ∈ s.innerQueue)
    (hnodup : queue.Nodup) :
    Inv { s.set i (.opening 0 phase') with inner := inner, innerQueue := queue } := by
  refine ⟨?_, ?_, h.once, ?_, ?_, hnodup⟩
  · intro j depth phase hj
    simp only [set_calls] at hj
    split_ifs at hj with heq
    · cases hj
      exact ⟨rfl, hsleep⟩
    · exact h.flat j depth phase hj
  · intro j depth
    simp only [set_calls, set_handleQueue, h.queued]
    split_ifs with heq
    · rw [heq, hi]
      simp
    · rfl
  · intro j depth phase hj hphase
    simp only [set_calls] at hj
    split_ifs at hj with heq
    · cases hj
      rw [heq]
      exact hhead
    · exact h.holds j depth phase hj hphase
  · intro j
    rw [hqueue j]
    simp only [set_calls]
    split_ifs
    · rfl
    · exact h.innerQueued j

theorem mem_tail_iff {α : Type*} {queue : List α} {a b : α} (hnodup : queue.Nodup)
    (hhead : queue.head? = some a) : b ∈ queue.tail ↔ b ≠ a ∧ b ∈ queue := by
  obtain ⟨rest, rfl⟩ := List.head?_eq_some_iff.mp hhead
  have hnot := (List.nodup_cons.mp hnodup).1
  rw [List.tail_cons, List.mem_cons]
  constructor
  · intro hmem
    exact ⟨fun heq => hnot (heq ▸ hmem), Or.inr hmem⟩
  · rintro ⟨hne, heq | hmem⟩
    · exact absurd heq hne
    · exact hmem

/-- A call that has the handle lets go of it. -/
theorem Inv.leave (h : s.Inv) {inner : PoolInner} {queue : List Nat}
    (hhead : s.handleQueue.head? = some (i, 0)) (hfree : call.isFree = true)
    (hqueue : ∀ j, j ∈ queue ↔ j ≠ i ∧ j ∈ s.innerQueue) (hnodup : queue.Nodup) :
    Inv { s.set i call with
      inner := inner
      handleQueue := s.handleQueue.tail
      innerQueue := queue } := by
  obtain ⟨hhandle, hinner⟩ := PoolCall.not_wants_of_isFree hfree
  refine ⟨?_, ?_, h.once.tail, ?_, ?_, hnodup⟩
  · intro j depth phase hj
    simp only [set_calls] at hj
    split_ifs at hj with heq
    · rw [hj] at hhandle
      exact absurd PoolCall.wantsHandle_opening hhandle
    · exact h.flat j depth phase hj
  · intro j depth
    rw [mem_tail_iff h.once hhead, h.queued]
    simp only [set_calls, ne_eq, Prod.mk.injEq]
    split_ifs with heq
    · simp only [hhandle, and_false, iff_false, heq, true_and]
      exact fun hboth => hboth.1 hboth.2.1
    · simp [heq]
  · intro j depth phase hj hphase
    simp only [set_calls] at hj
    split_ifs at hj with heq
    · rw [hj] at hhandle
      exact absurd PoolCall.wantsHandle_opening hhandle
    · have hother := h.holds j depth phase hj hphase
      rw [hhead] at hother
      cases hother
      exact absurd rfl heq
  · intro j
    rw [hqueue j]
    simp only [set_calls]
    split_ifs with heq
    · simp [heq, hinner]
    · simp [heq, h.innerQueued]

/-- Who has no place in the queue for the handle begins or ends with `inner`. -/
theorem Inv.changeInner (h : s.Inv) {inner : PoolInner} {queue : List Nat}
    (hi : ¬ (s.calls i).WantsHandle) (hcall : ¬ call.WantsHandle)
    (hqueue : ∀ j, j ∈ queue ↔ if j = i then call.WantsInner else j ∈ s.innerQueue)
    (hnodup : queue.Nodup) :
    Inv { s.set i call with inner := inner, innerQueue := queue } := by
  refine ⟨?_, ?_, h.once, ?_, ?_, hnodup⟩
  · intro j depth phase hj
    simp only [set_calls] at hj
    split_ifs at hj with heq
    · rw [hj] at hcall
      exact absurd PoolCall.wantsHandle_opening hcall
    · exact h.flat j depth phase hj
  · intro j depth
    simp only [set_calls, set_handleQueue, h.queued]
    split_ifs with heq
    · simp [heq, hi, hcall]
    · rfl
  · intro j depth phase hj hphase
    simp only [set_calls] at hj
    split_ifs at hj with heq
    · rw [hj] at hcall
      exact absurd PoolCall.wantsHandle_opening hcall
    · exact h.holds j depth phase hj hphase
  · intro j
    rw [hqueue j]
    simp only [set_calls]
    split_ifs
    · rfl
    · exact h.innerQueued j

/-- Of a call that has the handle, nothing is in the queue but what is in front. -/
theorem Inv.finish_eq (h : s.Inv) (hhead : s.handleQueue.head? = some (i, 0))
    (outcome : OpenOutcome) :
    s.finish i outcome = { s.set i (.returned outcome) with
      handleQueue := s.handleQueue.tail
      innerQueue := s.innerQueue.tail } := by
  have hqueue : s.handleQueue.filter (fun ticket => ticket.1 ≠ i) = s.handleQueue.tail := by
    obtain ⟨rest, hrest⟩ := List.head?_eq_some_iff.mp hhead
    have honce := h.once
    rw [hrest, List.nodup_cons] at honce
    rw [hrest, List.filter_cons_of_neg (by simp), List.tail_cons, List.filter_eq_self]
    rintro ⟨j, depth⟩ hmem
    rw [decide_eq_true_eq]
    rintro rfl
    -- all places are those of outermost calls
    have hflat := ((h.queued j depth).mp (hrest ▸ List.mem_cons_of_mem _ hmem)).1
    rw [hflat] at hmem
    exact honce.1 hmem
  rw [finish, hqueue]

/-- The call at the front of the queue for `inner` lets go of it. -/
theorem Inv.mem_innerTail (h : s.Inv) (hhead : s.innerQueue.head? = some i) (j : Nat) :
    j ∈ s.innerQueue.tail ↔ j ≠ i ∧ j ∈ s.innerQueue := mem_tail_iff h.innerOnce hhead

/-- A call takes its place in the queue for `inner`. -/
theorem Inv.mem_innerAppend (hcall : call.WantsInner) (j : Nat) :
    j ∈ s.innerQueue ++ [i] ↔ if j = i then call.WantsInner else j ∈ s.innerQueue := by
  rw [List.mem_append, List.mem_singleton]
  split_ifs with heq
  · exact iff_of_true (Or.inr heq) hcall
  · exact or_iff_left heq

theorem Inv.nodup_innerAppend (h : s.Inv) (hi : ¬ (s.calls i).WantsInner) :
    (s.innerQueue ++ [i]).Nodup := by
  refine h.innerOnce.append (List.nodup_singleton _) ?_
  rw [List.disjoint_singleton, h.innerQueued]
  exact hi

theorem Inv.step (h : s.Inv) (hC : s.NothingToEvict e) (hstep : s.step e = some s') : s'.Inv := by
  unfold LockedPool.step at hstep
  cases e with
  | openChannel i =>
      simp only [Option.ite_none_right_eq_some, Option.some.injEq] at hstep
      obtain ⟨hfree, rfl⟩ := hstep
      exact h.arrive hfree (Or.inl rfl)
  | guard i =>
      simp only [Option.ite_none_right_eq_some, Option.some.injEq] at hstep
      obtain ⟨hfree, rfl⟩ := hstep
      exact h.arrive hfree (Or.inr rfl)
  | lock i depth =>
      simp only [Option.ite_none_right_eq_some, Option.some.injEq] at hstep
      obtain ⟨⟨hi, hhead⟩, rfl⟩ := hstep
      obtain ⟨rfl, -⟩ := h.flat i depth _ hi
      refine h.advance hi hhead (by decide) (fun j => ?_) h.innerOnce
      split_ifs with heq
      · simp [h.innerQueued, heq, hi]
      · rfl
  | answer i depth ok =>
      simp only [Option.ite_none_right_eq_some, Option.some.injEq] at hstep
      obtain ⟨hi, rfl⟩ := hstep
      obtain ⟨rfl, -⟩ := h.flat i depth _ hi
      have hhead := h.holds i 0 _ hi (by decide)
      have hphase : (if ok then OpenPhase.counting else .noting) ≠ .sleeping := by
        cases ok <;> decide
      refine h.advance hi hhead hphase (Inv.mem_innerAppend ?_) (h.nodup_innerAppend ?_)
      · cases ok <;> simp
      · simp [hi]
  | count i depth =>
      simp only [Option.ite_none_right_eq_some, Option.some.injEq] at hstep
      obtain ⟨⟨hi, hinner⟩, rfl⟩ := hstep
      obtain ⟨rfl, -⟩ := h.flat i depth _ hi
      have hhead := h.holds i 0 _ hi (by decide)
      rw [h.finish_eq hhead]
      exact h.leave hhead rfl (h.mem_innerTail hinner) h.innerOnce.tail
  | note i depth =>
      simp only [Option.ite_none_right_eq_some, Option.some.injEq] at hstep
      obtain ⟨⟨hi, hinner⟩, rfl⟩ := hstep
      obtain ⟨rfl, -⟩ := h.flat i depth _ hi
      have hhead := h.holds i 0 _ hi (by decide)
      refine h.advance hi hhead (by decide) (fun j => ?_) ?_
      · rw [List.mem_append, List.mem_singleton, h.mem_innerTail hinner]
        split_ifs with heq
        · simp [heq]
        · simp [heq]
      · refine h.innerOnce.tail.append (List.nodup_singleton _) ?_
        rw [List.disjoint_singleton, h.mem_innerTail hinner]
        exact fun hboth => hboth.1 rfl
  | evict i depth =>
      have hnone : s.inner.evict = none := PoolInner.evict_of_none hC
      simp only [Option.ite_none_right_eq_some, hnone, Option.some.injEq] at hstep
      obtain ⟨⟨hi, hinner⟩, rfl⟩ := hstep
      obtain ⟨rfl, -⟩ := h.flat i depth _ hi
      have hhead := h.holds i 0 _ hi (by decide)
      rw [h.finish_eq hhead]
      exact h.leave hhead rfl (h.mem_innerTail hinner) h.innerOnce.tail
  | wake i depth =>
      simp only [Option.ite_none_right_eq_some, Option.some.injEq] at hstep
      exact absurd rfl (h.flat i depth _ hstep.1).2
  | dropGuard i =>
      simp only [Option.ite_none_right_eq_some, Option.some.injEq] at hstep
      obtain ⟨⟨hi, hhead⟩, rfl⟩ := hstep
      refine h.leave hhead rfl (fun j => ?_) h.innerOnce
      constructor
      · intro hmem
        refine ⟨?_, hmem⟩
        rintro rfl
        rw [set_innerQueue, h.innerQueued, hi] at hmem
        exact PoolCall.not_wantsInner_guarding hmem
      · exact fun hboth => hboth.2
  | use i u =>
      simp only [Option.ite_none_right_eq_some, Option.some.injEq] at hstep
      obtain ⟨hfree, rfl⟩ := hstep
      obtain ⟨hhandle, hinner⟩ := PoolCall.not_wants_of_isFree hfree
      exact h.changeInner hhandle PoolCall.not_wantsHandle_waiting
        (Inv.mem_innerAppend PoolCall.wantsInner_waiting) (h.nodup_innerAppend hinner)
  | done i u =>
      simp only [Option.ite_none_right_eq_some, Option.some.injEq] at hstep
      obtain ⟨⟨hi, hinner⟩, rfl⟩ := hstep
      refine h.changeInner (by simp [hi]) PoolCall.not_wantsHandle_idle (fun j => ?_)
        h.innerOnce.tail
      rw [h.mem_innerTail hinner]
      split_ifs with heq
      · simp [heq]
      · simp [heq]

end Inv

/-! ## How long a call waits for the handle -/

/-- What is left to do up to a place in a queue. -/
def upTo {α : Type*} [DecidableEq α] (work : α → Nat) (last : α) : List α → Nat
  | [] => 0
  | a :: queue => work a + if a = last then 0 else upTo work last queue

section UpTo

variable {α : Type*} [DecidableEq α] {work work' : α → Nat} {a last : α} {queue : List α}

theorem upTo_cons (work : α → Nat) (last a : α) (queue : List α) :
    upTo work last (a :: queue) = work a + if a = last then 0 else upTo work last queue := rfl

theorem upTo_append (h : last ∈ queue) (more : List α) :
    upTo work last (queue ++ more) = upTo work last queue := by
  induction queue with
  | nil => cases h
  | cons b queue ih =>
      rw [List.cons_append, upTo_cons, upTo_cons]
      split_ifs with heq
      · rfl
      · rw [ih ((List.mem_cons.mp h).resolve_left fun hlast => heq hlast.symm)]

theorem upTo_congr (h : ∀ b ∈ queue, work' b = work b) :
    upTo work' last queue = upTo work last queue := by
  induction queue with
  | nil => rfl
  | cons b queue ih =>
      rw [upTo_cons, upTo_cons, h b List.mem_cons_self, ih fun c hc => h c (List.mem_cons_of_mem _ hc)]

/-- Less is left to do when the first one has less to do. -/
theorem upTo_lt (hhead : queue.head? = some a) (hlt : work' a < work a)
    (h : ∀ b ∈ queue.tail, work' b = work b) : upTo work' last queue < upTo work last queue := by
  obtain ⟨rest, rfl⟩ := List.head?_eq_some_iff.mp hhead
  rw [List.tail_cons] at h
  rw [upTo_cons, upTo_cons, upTo_congr h]
  omega

/-- Less is left to do when the first one has gone. -/
theorem upTo_tail_lt (hhead : queue.head? = some a) (hne : a ≠ last) (hpos : 0 < work a)
    (h : ∀ b ∈ queue.tail, work' b = work b) :
    upTo work' last queue.tail < upTo work last queue := by
  obtain ⟨rest, rfl⟩ := List.head?_eq_some_iff.mp hhead
  rw [List.tail_cons] at h ⊢
  rw [upTo_cons, if_neg hne, upTo_congr h]
  omega

end UpTo

/-- How many turns a call has before it lets go of the handle. -/
def turns : PoolCall → Nat
  | .opening _ .locking => 4
  | .opening _ .asking => 3
  | .opening _ .noting => 2
  | .opening _ .evicting => 1
  | .opening _ .counting => 1
  | .opening _ .sleeping => 0
  | .guarding => 1
  | .idle => 0
  | .returned _ => 0
  | .waiting _ => 0

/-- The turns of those in front of a call and of itself. -/
def ahead (s : LockedPool) (i : Nat) : Nat :=
  upTo (fun ticket => turns (s.calls ticket.1)) (i, 0) s.handleQueue

/-- How many are in front of the call with the handle, if it waits for `inner`. -/
def inFront (s : LockedPool) : Nat :=
  match s.handleQueue.head? with
  | some (j, _) => if j ∈ s.innerQueue then s.innerQueue.idxOf j else 0
  | none => 0

/-- Whose turn it is that everybody waits for who waits for the handle. -/
def helper (s : LockedPool) : Nat :=
  match s.handleQueue.head? with
  | some (j, _) => if j ∈ s.innerQueue then s.innerQueue.headD j else j
  | none => 0

/-- Turns are ranked before those who are in front. -/
def rank (i : Nat) (s : LockedPool) : Nat × Nat := (s.ahead i, s.inFront)

/-- The call has what it waited for. -/
def Served (i : Nat) (s : LockedPool) : Prop :=
  (∃ outcome, s.calls i = .returned outcome) ∨
    (s.calls i = .guarding ∧ s.handleQueue.head? = some (i, 0))

/-- The call waits for the handle, or has it, and nothing has been evicted. -/
def Pending (i : Nat) (s : LockedPool) : Prop := s.Inv ∧ (s.calls i).WantsHandle

section Rank

variable {s s' : LockedPool} {e : LockedEvent} {i j k : Nat} {call : PoolCall}

theorem Pending.mem (h : s.Pending i) : (i, 0) ∈ s.handleQueue := (h.1.queued i 0).mpr ⟨rfl, h.2⟩

theorem inFront_of_mem {depth : Nat} (hhead : s.handleQueue.head? = some (j, depth))
    (hmem : j ∈ s.innerQueue) : s.inFront = s.innerQueue.idxOf j := by
  simp only [inFront, hhead, if_pos hmem]

theorem inFront_of_not_mem {depth : Nat} (hhead : s.handleQueue.head? = some (j, depth))
    (hmem : j ∉ s.innerQueue) : s.inFront = 0 := by
  simp only [inFront, hhead, if_neg hmem]

theorem helper_of_mem {depth : Nat} (hhead : s.handleQueue.head? = some (j, depth))
    (hmem : j ∈ s.innerQueue) : s.innerQueue.head? = some s.helper := by
  simp only [helper, hhead, if_pos hmem]
  cases hqueue : s.innerQueue with
  | nil => rw [hqueue] at hmem; cases hmem
  | cons k queue => rfl

theorem helper_of_not_mem {depth : Nat} (hhead : s.handleQueue.head? = some (j, depth))
    (hmem : j ∉ s.innerQueue) : s.helper = j := by
  simp only [helper, hhead, if_neg hmem]

/-- Somebody has the handle. -/
theorem Pending.exists_head (h : s.Pending i) :
    ∃ j, s.handleQueue.head? = some (j, 0) ∧ (s.calls j).WantsHandle := by
  cases hqueue : s.handleQueue with
  | nil =>
      have hmem := h.mem
      rw [hqueue] at hmem
      cases hmem
  | cons ticket queue =>
      obtain ⟨j, depth⟩ := ticket
      have hmem : (j, depth) ∈ s.handleQueue := hqueue ▸ List.mem_cons_self
      obtain ⟨rfl, hwants⟩ := (h.1.queued j depth).mp hmem
      exact ⟨j, rfl, hwants⟩

/-- The call at the front of the queue for `inner` can have its turn. -/
theorem Inv.canTurn_inner (h : s.Inv) (hhead : s.innerQueue.head? = some k) :
    Machine.CanTurn LockedPool.step LockedEvent.turn k s := by
  have hwants : (s.calls k).WantsInner := by
    rw [← h.innerQueued]
    exact List.mem_of_mem_head? hhead
  cases hk : s.calls k with
  | waiting u =>
      refine ⟨.done k u, _, rfl, if_pos ⟨hk, hhead⟩⟩
  | opening depth phase =>
      rw [hk, PoolCall.wantsInner_opening] at hwants
      rcases hwants with rfl | rfl | rfl
      · exact ⟨.count k depth, _, rfl, if_pos ⟨hk, hhead⟩⟩
      · exact ⟨.note k depth, _, rfl, if_pos ⟨hk, hhead⟩⟩
      · cases hevict : s.inner.evict with
        | none =>
            refine ⟨.evict k depth, s.finish k .failed, rfl, ?_⟩
            unfold LockedPool.step
            simp only [if_pos (And.intro hk hhead), hevict]
        | some inner =>
            refine ⟨.evict k depth, { s.set k (.opening depth .sleeping) with
              inner := inner
              innerQueue := s.innerQueue.tail }, rfl, ?_⟩
            unfold LockedPool.step
            simp only [if_pos (And.intro hk hhead), hevict]
  | idle => rw [hk] at hwants; exact absurd hwants PoolCall.not_wantsInner_idle
  | returned outcome => rw [hk] at hwants; exact absurd hwants PoolCall.not_wantsInner_returned
  | guarding => rw [hk] at hwants; exact absurd hwants PoolCall.not_wantsInner_guarding

/-- As long as a call waits, the one that it waits for can have its turn. -/
theorem Pending.canTurn (h : s.Pending i) :
    Machine.CanTurn LockedPool.step LockedEvent.turn s.helper s := by
  obtain ⟨j, hhead, hwants⟩ := h.exists_head
  by_cases hmem : j ∈ s.innerQueue
  · exact h.1.canTurn_inner (helper_of_mem hhead hmem)
  · rw [helper_of_not_mem hhead hmem]
    rw [h.1.innerQueued] at hmem
    cases hj : s.calls j with
    | guarding => exact ⟨.dropGuard j, _, rfl, if_pos ⟨hj, hhead⟩⟩
    | opening depth phase =>
        obtain ⟨rfl, hsleep⟩ := h.1.flat j depth phase hj
        rw [hj, PoolCall.wantsInner_opening, not_or, not_or] at hmem
        cases phase with
        | locking => exact ⟨.lock j 0, _, rfl, if_pos ⟨hj, hhead⟩⟩
        | asking => exact ⟨.answer j 0 true, _, rfl, if_pos hj⟩
        | counting => exact absurd rfl hmem.1
        | noting => exact absurd rfl hmem.2.1
        | evicting => exact absurd rfl hmem.2.2
        | sleeping => exact absurd rfl hsleep
    | idle => rw [hj] at hwants; exact absurd hwants PoolCall.not_wantsHandle_idle
    | returned outcome => rw [hj] at hwants; exact absurd hwants PoolCall.not_wantsHandle_returned
    | waiting u => rw [hj] at hwants; exact absurd hwants PoolCall.not_wantsHandle_waiting

theorem Inv.ne_of_mem_tail (h : s.Inv) (hhead : s.handleQueue.head? = some (k, 0))
    {ticket : Nat × Nat} (hmem : ticket ∈ s.handleQueue.tail) : ticket.1 ≠ k := by
  obtain ⟨j, depth⟩ := ticket
  obtain ⟨hne, hmem⟩ := (mem_tail_iff h.once hhead).mp hmem
  obtain ⟨rfl, -⟩ := (h.queued j depth).mp hmem
  rintro rfl
  exact hne rfl

/-- Nothing is ahead that was not, when somebody takes a place in a queue who had none. -/
theorem Pending.rank_arrive (h : s.Pending i) (hk : (s.calls k).isFree = true)
    (hcalls : ∀ j, j ≠ k → s'.calls j = s.calls j) {tickets : List (Nat × Nat)}
    (hqueue : s'.handleQueue = s.handleQueue ++ tickets)
    {waiting : List Nat} (hinner : s'.innerQueue = s.innerQueue ++ waiting)
    (hwaiting : ∀ j ∈ waiting, j = k) :
    rank i s' = rank i s ∧ s'.helper = s.helper := by
  obtain ⟨hhandle, -⟩ := PoolCall.not_wants_of_isFree hk
  have hahead : s'.ahead i = s.ahead i := by
    unfold ahead
    rw [hqueue, upTo_append h.mem]
    apply upTo_congr
    rintro ⟨j, depth⟩ hmem
    rw [hcalls]
    rintro rfl
    exact hhandle ((h.1.queued _ depth).mp hmem).2
  obtain ⟨j, hhead, hwants⟩ := h.exists_head
  have hhead' : s'.handleQueue.head? = some (j, 0) := by
    rw [hqueue, List.head?_append, hhead, Option.some_or]
  have hne : j ≠ k := by
    rintro rfl
    exact hhandle hwants
  by_cases hmem : j ∈ s.innerQueue
  · have hmem' : j ∈ s'.innerQueue := hinner ▸ List.mem_append_left _ hmem
    refine ⟨?_, ?_⟩
    · rw [rank, rank, hahead, inFront_of_mem hhead hmem, inFront_of_mem hhead' hmem', hinner,
        List.idxOf_append_of_mem hmem]
    · have hfirst := helper_of_mem hhead' hmem'
      rw [hinner, List.head?_append, helper_of_mem hhead hmem, Option.some_or] at hfirst
      exact (Option.some.inj hfirst).symm
  · have hmem' : j ∉ s'.innerQueue := by
      rw [hinner, List.mem_append]
      exact not_or.mpr ⟨hmem, fun hj => hne (hwaiting j hj)⟩
    refine ⟨?_, ?_⟩
    · rw [rank, rank, hahead, inFront_of_not_mem hhead hmem, inFront_of_not_mem hhead' hmem']
    · rw [helper_of_not_mem hhead hmem, helper_of_not_mem hhead' hmem']

/-- The call with the handle goes on. -/
theorem Pending.rank_advance (h : s.Pending i) (hhead : s.handleQueue.head? = some (k, 0))
    (hcalls : ∀ j, s'.calls j = if j = k then call else s.calls j)
    (hqueue : s'.handleQueue = s.handleQueue) (hlt : turns call < turns (s.calls k)) :
    Prod.Lex (· < ·) (· < ·) (rank i s') (rank i s) := by
  apply Prod.Lex.left
  unfold ahead
  rw [hqueue]
  refine upTo_lt hhead ?_ ?_
  · rw [hcalls, if_pos rfl]
    exact hlt
  · intro ticket hmem
    rw [hcalls, if_neg (h.1.ne_of_mem_tail hhead hmem)]

/-- The call with the handle lets go of it. -/
theorem Pending.rank_leave (h : s.Pending i) (hhead : s.handleQueue.head? = some (k, 0))
    (hne : k ≠ i) (hcalls : ∀ j, s'.calls j = if j = k then call else s.calls j)
    (hqueue : s'.handleQueue = s.handleQueue.tail) (hpos : 0 < turns (s.calls k)) :
    Prod.Lex (· < ·) (· < ·) (rank i s') (rank i s) := by
  apply Prod.Lex.left
  unfold ahead
  rw [hqueue]
  refine upTo_tail_lt hhead (fun heq => hne (Prod.mk.inj heq).1) hpos ?_
  intro ticket hmem
  rw [hcalls, if_neg (h.1.ne_of_mem_tail hhead hmem)]

/-- Somebody else lets go of `inner`. -/
theorem Pending.rank_done (h : s.Pending i) (hk : ¬ (s.calls k).WantsHandle)
    (hinner : s.innerQueue.head? = some k)
    (hcalls : ∀ j, s'.calls j = if j = k then call else s.calls j)
    (hqueue : s'.handleQueue = s.handleQueue) (hinner' : s'.innerQueue = s.innerQueue.tail) :
    Prod.Lex (· < ·) (· < ·) (rank i s') (rank i s) ∨
      (rank i s' = rank i s ∧ s'.helper = s.helper ∧ some k ≠ some s.helper) := by
  have hahead : s'.ahead i = s.ahead i := by
    unfold ahead
    rw [hqueue]
    apply upTo_congr
    rintro ⟨j, depth⟩ hmem
    rw [hcalls, if_neg]
    rintro rfl
    exact hk ((h.1.queued _ depth).mp hmem).2
  obtain ⟨j, hhead, hwants⟩ := h.exists_head
  have hne : j ≠ k := by
    rintro rfl
    exact hk hwants
  have hhead' : s'.handleQueue.head? = some (j, 0) := by rw [hqueue, hhead]
  by_cases hmem : j ∈ s.innerQueue
  · have hmem' : j ∈ s'.innerQueue := by
      rw [hinner', mem_tail_iff h.1.innerOnce hinner]
      exact ⟨hne, hmem⟩
    refine Or.inl ?_
    rw [rank, rank, hahead, inFront_of_mem hhead hmem, inFront_of_mem hhead' hmem', hinner']
    apply Prod.Lex.right
    obtain ⟨rest, hrest⟩ := List.head?_eq_some_iff.mp hinner
    rw [hrest, List.tail_cons, List.idxOf_cons_ne _ (Ne.symm hne)]
    exact Nat.lt_succ_self _
  · have hmem' : j ∉ s'.innerQueue := fun hj => hmem (List.mem_of_mem_tail (hinner' ▸ hj))
    refine Or.inr ⟨?_, ?_, ?_⟩
    · rw [rank, rank, hahead, inFront_of_not_mem hhead hmem, inFront_of_not_mem hhead' hmem']
    · rw [helper_of_not_mem hhead hmem, helper_of_not_mem hhead' hmem']
    · rw [helper_of_not_mem hhead hmem]
      exact fun heq => hne (Option.some.inj heq).symm

/-- What a step does for a call that waits. -/
def Nearer (i : Nat) (s s' : LockedPool) (e : LockedEvent) : Prop :=
  Prod.Lex (· < ·) (· < ·) (rank i s') (rank i s) ∨
    (rank i s' = rank i s ∧ s'.helper = s.helper ∧ e.turn ≠ some s.helper)

/-- The call with the handle goes on, be it the one that is looked at or another one. -/
theorem Pending.nearer_advance {phase phase' : OpenPhase} (h : s.Pending i)
    (hk : s.calls k = .opening 0 phase) (hhead : s.handleQueue.head? = some (k, 0))
    (hcalls : ∀ j, s'.calls j = if j = k then .opening 0 phase' else s.calls j)
    (hqueue : s'.handleQueue = s.handleQueue)
    (hlt : turns (.opening 0 phase') < turns (.opening 0 phase)) :
    (s'.calls i).WantsHandle ∧ Nearer i s s' e := by
  refine ⟨?_, Or.inl (h.rank_advance hhead hcalls hqueue (hk ▸ hlt))⟩
  rw [hcalls]
  split_ifs
  · exact PoolCall.wantsHandle_opening
  · exact h.2

/-- The call with the handle returns, be it the one that is looked at or another one. -/
theorem Pending.nearer_finish {outcome : OpenOutcome} (h : s.Pending i)
    (hhead : s.handleQueue.head? = some (k, 0))
    (hcalls : ∀ j, s'.calls j = if j = k then .returned outcome else s.calls j)
    (hqueue : s'.handleQueue = s.handleQueue.tail) (hpos : 0 < turns (s.calls k)) :
    Served i s' ∨ ((s'.calls i).WantsHandle ∧ Nearer i s s' e) := by
  by_cases heq : i = k
  · refine Or.inl (Or.inl ⟨outcome, ?_⟩)
    rw [hcalls, if_pos heq]
  · refine Or.inr ⟨?_, Or.inl (h.rank_leave hhead (Ne.symm heq) hcalls hqueue hpos)⟩
    rw [hcalls, if_neg heq]
    exact h.2

/-- Somebody begins who had no place in a queue. -/
theorem Pending.nearer_arrive (h : s.Pending i) (hk : (s.calls k).isFree = true)
    (hcalls : ∀ j, s'.calls j = if j = k then call else s.calls j) {tickets : List (Nat × Nat)}
    (hqueue : s'.handleQueue = s.handleQueue ++ tickets)
    {waiting : List Nat} (hinner : s'.innerQueue = s.innerQueue ++ waiting)
    (hwaiting : ∀ j ∈ waiting, j = k) (hturn : e.turn = none) :
    (s'.calls i).WantsHandle ∧ Nearer i s s' e := by
  have hne : i ≠ k := by
    rintro rfl
    exact (PoolCall.not_wants_of_isFree hk).1 h.2
  have hothers (j : Nat) (hj : j ≠ k) : s'.calls j = s.calls j := by rw [hcalls, if_neg hj]
  obtain ⟨hrank, hhelper⟩ := h.rank_arrive hk hothers hqueue hinner hwaiting
  refine ⟨(hothers i hne).symm ▸ h.2, Or.inr ⟨hrank, hhelper, ?_⟩⟩
  rw [hturn]
  exact Option.some_ne_none _ |>.symm

/-- As long as a call waits, every step brings it nearer to the handle, or leaves the turn that does
to the one whose turn it is. -/
theorem Pending.step (h : s.Pending i) (hnot : ¬ Served i s) (hC : s.NothingToEvict e)
    (hstep : s.step e = some s') : Served i s' ∨ (s'.Pending i ∧ Nearer i s s' e) := by
  have hinv := h.1.step hC hstep
  suffices hwants : Served i s' ∨ ((s'.calls i).WantsHandle ∧ Nearer i s s' e) from
    hwants.imp_right fun hboth => ⟨⟨hinv, hboth.1⟩, hboth.2⟩
  unfold LockedPool.step at hstep
  cases e with
  | openChannel k =>
      simp only [Option.ite_none_right_eq_some, Option.some.injEq] at hstep
      obtain ⟨hfree, rfl⟩ := hstep
      exact Or.inr (h.nearer_arrive hfree (set_calls s k _) rfl (List.append_nil _).symm
        (fun j hj => absurd hj List.not_mem_nil) rfl)
  | guard k =>
      simp only [Option.ite_none_right_eq_some, Option.some.injEq] at hstep
      obtain ⟨hfree, rfl⟩ := hstep
      exact Or.inr (h.nearer_arrive hfree (set_calls s k _) rfl (List.append_nil _).symm
        (fun j hj => absurd hj List.not_mem_nil) rfl)
  | use k u =>
      simp only [Option.ite_none_right_eq_some, Option.some.injEq] at hstep
      obtain ⟨hfree, rfl⟩ := hstep
      exact Or.inr (h.nearer_arrive hfree (set_calls s k _) (List.append_nil _).symm rfl
        (fun j hj => List.mem_singleton.mp hj) rfl)
  | lock k depth =>
      simp only [Option.ite_none_right_eq_some, Option.some.injEq] at hstep
      obtain ⟨⟨hk, hhead⟩, rfl⟩ := hstep
      obtain ⟨rfl, -⟩ := h.1.flat k depth _ hk
      exact Or.inr (h.nearer_advance hk hhead (set_calls s k _) rfl (by decide))
  | answer k depth ok =>
      simp only [Option.ite_none_right_eq_some, Option.some.injEq] at hstep
      obtain ⟨hk, rfl⟩ := hstep
      obtain ⟨rfl, -⟩ := h.1.flat k depth _ hk
      refine Or.inr (h.nearer_advance hk (h.1.holds k 0 _ hk (by decide)) (set_calls s k _) rfl ?_)
      cases ok <;> decide
  | note k depth =>
      simp only [Option.ite_none_right_eq_some, Option.some.injEq] at hstep
      obtain ⟨⟨hk, -⟩, rfl⟩ := hstep
      obtain ⟨rfl, -⟩ := h.1.flat k depth _ hk
      exact Or.inr (h.nearer_advance hk (h.1.holds k 0 _ hk (by decide)) (set_calls s k _) rfl
        (by decide))
  | count k depth =>
      simp only [Option.ite_none_right_eq_some, Option.some.injEq] at hstep
      obtain ⟨⟨hk, -⟩, rfl⟩ := hstep
      obtain ⟨rfl, -⟩ := h.1.flat k depth _ hk
      have hhead := h.1.holds k 0 _ hk (by decide)
      rw [h.1.finish_eq hhead]
      exact h.nearer_finish hhead (set_calls s k _) rfl (by rw [hk]; decide)
  | evict k depth =>
      have hnone : s.inner.evict = none := PoolInner.evict_of_none hC
      simp only [Option.ite_none_right_eq_some, hnone, Option.some.injEq] at hstep
      obtain ⟨⟨hk, -⟩, rfl⟩ := hstep
      obtain ⟨rfl, -⟩ := h.1.flat k depth _ hk
      have hhead := h.1.holds k 0 _ hk (by decide)
      rw [h.1.finish_eq hhead]
      exact h.nearer_finish hhead (set_calls s k _) rfl (by rw [hk]; decide)
  | wake k depth =>
      simp only [Option.ite_none_right_eq_some, Option.some.injEq] at hstep
      exact absurd rfl (h.1.flat k depth _ hstep.1).2
  | dropGuard k =>
      simp only [Option.ite_none_right_eq_some, Option.some.injEq] at hstep
      obtain ⟨⟨hk, hhead⟩, rfl⟩ := hstep
      have hne : k ≠ i := by
        rintro rfl
        exact hnot (Or.inr ⟨hk, hhead⟩)
      refine Or.inr ⟨?_, Or.inl (h.rank_leave hhead hne (set_calls s k _) rfl (by rw [hk]; decide))⟩
      simp only [set_calls, if_neg (Ne.symm hne)]
      exact h.2
  | done k u =>
      simp only [Option.ite_none_right_eq_some, Option.some.injEq] at hstep
      obtain ⟨⟨hk, hinner⟩, rfl⟩ := hstep
      have hwants : ¬ (s.calls k).WantsHandle := hk ▸ PoolCall.not_wantsHandle_waiting
      have hne : i ≠ k := by
        rintro rfl
        exact hwants h.2
      refine Or.inr ⟨?_, h.rank_done hwants hinner (set_calls s k _) rfl rfl⟩
      simp only [set_calls, if_neg hne]
      exact h.2

end Rank

/-! ## Runs -/

section Runs

variable {s s' : LockedPool} {e : LockedEvent} {i : Nat} {depth : Nat} {phase : OpenPhase}
  {run : Machine.FairRun LockedPool.step LockedEvent.turn} {inner : PoolInner}

theorem Inv.not_waitsForItself (h : s.Inv) (i : Nat) : ¬ s.WaitsForItself i := by
  rintro ⟨depth, held, hi, hhead, hne⟩
  obtain ⟨rfl, -⟩ := h.flat i depth _ hi
  exact hne ((h.queued i held).mp (List.mem_of_mem_head? hhead)).1

/-- What a turn makes of the call `i`. -/
inductive Goes (s : LockedPool) (i : Nat) : PoolCall → PoolCall → Prop where
  | openChannel {call : PoolCall} : call.isFree = true → Goes s i call (.opening 0 .locking)
  | guard {call : PoolCall} : call.isFree = true → Goes s i call .guarding
  | use {call : PoolCall} {u : PoolUse} : call.isFree = true → Goes s i call (.waiting u)
  | lock {depth : Nat} : s.handleQueue.head? = some (i, depth) →
      Goes s i (.opening depth .locking) (.opening depth .asking)
  | answer {depth : Nat} {ok : Bool} : Goes s i (.opening depth .asking)
      (.opening depth (if ok then .counting else .noting))
  | count {depth : Nat} : Goes s i (.opening depth .counting) (.returned .opened)
  | note {depth : Nat} : Goes s i (.opening depth .noting) (.opening depth .evicting)
  | fail {depth : Nat} : s.inner.sftp = none →
      Goes s i (.opening depth .evicting) (.returned .failed)
  | evict {depth : Nat} : s.inner.sftp ≠ none →
      Goes s i (.opening depth .evicting) (.opening depth .sleeping)
  | wake {depth : Nat} : Goes s i (.opening depth .sleeping) (.opening (depth + 1) .locking)
  | dropGuard : s.handleQueue.head? = some (i, 0) → Goes s i .guarding .idle
  | done {u : PoolUse} : Goes s i (.waiting u) .idle

theorem goes_of_set {calls : Nat → PoolCall} {k : Nat} {call call' : PoolCall}
    (hk : s.calls k = call) (hcalls : calls = (s.set k call').calls) (hgoes : Goes s k call call')
    (i : Nat) : calls i = s.calls i ∨ Goes s i (s.calls i) (calls i) := by
  rw [hcalls, set_calls]
  split_ifs with heq
  · rw [heq, hk]
    exact Or.inr hgoes
  · exact Or.inl rfl

/-- A step leaves a call as it is, or it is a turn of the call. -/
theorem goes_of_step (hstep : s.step e = some s') (i : Nat) :
    s'.calls i = s.calls i ∨ Goes s i (s.calls i) (s'.calls i) := by
  unfold LockedPool.step at hstep
  cases e with
  | openChannel k =>
      simp only [Option.ite_none_right_eq_some, Option.some.injEq] at hstep
      obtain ⟨hfree, rfl⟩ := hstep
      exact goes_of_set rfl rfl (.openChannel hfree) i
  | guard k =>
      simp only [Option.ite_none_right_eq_some, Option.some.injEq] at hstep
      obtain ⟨hfree, rfl⟩ := hstep
      exact goes_of_set rfl rfl (.guard hfree) i
  | use k u =>
      simp only [Option.ite_none_right_eq_some, Option.some.injEq] at hstep
      obtain ⟨hfree, rfl⟩ := hstep
      exact goes_of_set rfl rfl (.use hfree) i
  | lock k depth =>
      simp only [Option.ite_none_right_eq_some, Option.some.injEq] at hstep
      obtain ⟨⟨hk, hhead⟩, rfl⟩ := hstep
      exact goes_of_set hk rfl (.lock hhead) i
  | answer k depth ok =>
      simp only [Option.ite_none_right_eq_some, Option.some.injEq] at hstep
      obtain ⟨hk, rfl⟩ := hstep
      exact goes_of_set hk rfl .answer i
  | count k depth =>
      simp only [Option.ite_none_right_eq_some, Option.some.injEq] at hstep
      obtain ⟨⟨hk, -⟩, rfl⟩ := hstep
      exact goes_of_set hk rfl .count i
  | note k depth =>
      simp only [Option.ite_none_right_eq_some, Option.some.injEq] at hstep
      obtain ⟨⟨hk, -⟩, rfl⟩ := hstep
      exact goes_of_set hk rfl .note i
  | evict k depth =>
      simp only [Option.ite_none_right_eq_some] at hstep
      obtain ⟨⟨hk, -⟩, hstep⟩ := hstep
      cases hcached : s.inner.sftp with
      | none =>
          simp only [PoolInner.evict_of_none hcached, Option.some.injEq] at hstep
          subst hstep
          exact goes_of_set hk rfl (.fail hcached) i
      | some session =>
          simp only [PoolInner.evict_of_some hcached, Option.some.injEq] at hstep
          subst hstep
          exact goes_of_set hk rfl (.evict (by simp [hcached])) i
  | wake k depth =>
      simp only [Option.ite_none_right_eq_some, Option.some.injEq] at hstep
      obtain ⟨hk, rfl⟩ := hstep
      exact goes_of_set hk rfl .wake i
  | dropGuard k =>
      simp only [Option.ite_none_right_eq_some, Option.some.injEq] at hstep
      obtain ⟨⟨hk, hhead⟩, rfl⟩ := hstep
      exact goes_of_set hk rfl (.dropGuard hhead) i
  | done k u =>
      simp only [Option.ite_none_right_eq_some, Option.some.injEq] at hstep
      obtain ⟨⟨hk, -⟩, rfl⟩ := hstep
      exact goes_of_set hk rfl .done i

/-- A call whose state is always such that it wants the handle comes to what it waits for. -/
theorem eventually_of_served (h : ∀ n, (run.state n).Inv) (hC : run.Meets NothingToEvict)
    {G : PoolCall → Prop} {D : LockedPool → Prop} (hG : ∀ call, G call → call.WantsHandle)
    (hstep : ∀ s e s', G (s.calls i) → ¬ D s → s.NothingToEvict e → s.step e = some s' →
      G (s'.calls i) ∨ D s')
    (hserved : ∀ s, Served i s → G (s.calls i) → D s) {n : Nat} (hn : G ((run.state n).calls i)) :
    ∃ m, n ≤ m ∧ D (run.state m) := by
  have hwf : WellFounded (Prod.Lex (· < ·) (· < ·) : Nat × Nat → Nat × Nat → Prop) :=
    WellFounded.prod_lex Nat.lt_wfRel.wf Nat.lt_wfRel.wf
  refine run.eventually (I := fun s => s.Inv ∧ G (s.calls i)) (rank i) helper hC hwf
    (fun s hs _ => Pending.canTurn ⟨hs.1, hG _ hs.2⟩) (fun s e s' hs hD hC' hstep' => ?_)
    ⟨h n, hn⟩
  have hnot : ¬ Served i s := fun hserved' => hD (hserved s hserved' hs.2)
  rcases hstep s e s' hs.2 hD hC' hstep' with hG' | hD'
  · rcases Pending.step ⟨hs.1, hG _ hs.2⟩ hnot hC' hstep' with hserved' | ⟨hpending, hnearer⟩
    · exact Or.inl (hserved s' hserved' hG')
    · exact Or.inr ⟨⟨hpending.1, hG'⟩, hnearer⟩
  · exact Or.inl hD'

/-- A turn of a call is not without effect. -/
theorem calls_ne_of_turn (hturn : e.turn = some i) (hstep : s.step e = some s') :
    s'.calls i ≠ s.calls i := by
  unfold LockedPool.step at hstep
  cases e with
  | openChannel k => cases hturn
  | guard k => cases hturn
  | use k u => cases hturn
  | lock k depth =>
      simp only [Option.ite_none_right_eq_some, Option.some.injEq] at hstep
      obtain ⟨⟨hk, -⟩, rfl⟩ := hstep
      cases hturn
      simp [hk]
  | answer k depth ok =>
      simp only [Option.ite_none_right_eq_some, Option.some.injEq] at hstep
      obtain ⟨hk, rfl⟩ := hstep
      cases hturn
      cases ok <;> simp [hk]
  | count k depth =>
      simp only [Option.ite_none_right_eq_some, Option.some.injEq] at hstep
      obtain ⟨⟨hk, -⟩, rfl⟩ := hstep
      cases hturn
      simp [finish, hk]
  | note k depth =>
      simp only [Option.ite_none_right_eq_some, Option.some.injEq] at hstep
      obtain ⟨⟨hk, -⟩, rfl⟩ := hstep
      cases hturn
      simp [hk]
  | evict k depth =>
      simp only [Option.ite_none_right_eq_some] at hstep
      obtain ⟨⟨hk, -⟩, hstep⟩ := hstep
      cases hturn
      split at hstep
      · cases hstep
        simp [finish, hk]
      · cases hstep
        simp [hk]
  | wake k depth =>
      simp only [Option.ite_none_right_eq_some, Option.some.injEq] at hstep
      obtain ⟨hk, rfl⟩ := hstep
      cases hturn
      simp [hk]
  | dropGuard k =>
      simp only [Option.ite_none_right_eq_some, Option.some.injEq] at hstep
      obtain ⟨⟨hk, -⟩, rfl⟩ := hstep
      cases hturn
      simp [hk]
  | done k u =>
      simp only [Option.ite_none_right_eq_some, Option.some.injEq] at hstep
      obtain ⟨⟨hk, -⟩, rfl⟩ := hstep
      cases hturn
      simp [hk]

/-- A call that has a channel returns it. -/
theorem eventually_opened (h : ∀ n, (run.state n).Inv) (hC : run.Meets NothingToEvict) {n : Nat}
    (hn : (run.state n).calls i = .opening depth .counting) :
    ∃ m, n ≤ m ∧ (run.state m).calls i = .returned .opened := by
  refine eventually_of_served h hC (G := fun call => call = .opening depth .counting)
    (D := fun s => s.calls i = .returned .opened) ?_ ?_ ?_ hn
  · rintro call rfl
    exact PoolCall.wantsHandle_opening
  · intro s e s' hi _ _ hstep
    rcases goes_of_step hstep i with hsame | hgoes
    · exact Or.inl (hsame.trans hi)
    · rw [hi] at hgoes
      generalize s'.calls i = call' at hgoes
      cases hgoes with
      | count => exact Or.inr rfl
      | openChannel hfree => cases hfree
      | guard hfree => cases hfree
      | use hfree => cases hfree
  · rintro s (⟨outcome, hreturned⟩ | ⟨hguarding, -⟩) hi
    · rw [hi] at hreturned
      cases hreturned
    · rw [hi] at hguarding
      cases hguarding

/-- Every call returns. -/
theorem eventually_returned (h : ∀ n, (run.state n).Inv) (hC : run.Meets NothingToEvict) {n : Nat}
    (hn : (run.state n).calls i = .opening depth phase) :
    ∃ m outcome, n ≤ m ∧ (run.state m).calls i = .returned outcome := by
  have hreturned : ∃ m, n ≤ m ∧ ∃ outcome, (run.state m).calls i = .returned outcome := by
    refine eventually_of_served h hC (G := fun call => ∃ depth phase, call = .opening depth phase)
      (D := fun s => ∃ outcome, s.calls i = .returned outcome) ?_ ?_ ?_ ⟨depth, phase, hn⟩
    · rintro call ⟨depth, phase, rfl⟩
      exact PoolCall.wantsHandle_opening
    · rintro s e s' ⟨depth, phase, hi⟩ _ _ hstep
      rcases goes_of_step hstep i with hsame | hgoes
      · exact Or.inl ⟨depth, phase, hsame.trans hi⟩
      · rw [hi] at hgoes
        generalize s'.calls i = call' at hgoes
        cases hgoes with
        | openChannel hfree => cases hfree
        | guard hfree => cases hfree
        | use hfree => cases hfree
        | count => exact Or.inr ⟨_, rfl⟩
        | fail => exact Or.inr ⟨_, rfl⟩
        | lock => exact Or.inl ⟨_, _, rfl⟩
        | answer => exact Or.inl ⟨_, _, rfl⟩
        | note => exact Or.inl ⟨_, _, rfl⟩
        | evict => exact Or.inl ⟨_, _, rfl⟩
        | wake => exact Or.inl ⟨_, _, rfl⟩
    · rintro s (hreturned | ⟨hguarding, -⟩) ⟨depth, phase, hi⟩
      · exact hreturned
      · rw [hi] at hguarding
        cases hguarding
  obtain ⟨m, hm, outcome, hreturned⟩ := hreturned
  exact ⟨m, outcome, hm, hreturned⟩

/-- Whoever waits for the guard gets it. -/
theorem eventually_guarded (h : ∀ n, (run.state n).Inv) (hC : run.Meets NothingToEvict) {n : Nat}
    (hn : (run.state n).calls i = .guarding) :
    ∃ m, n ≤ m ∧ (run.state m).calls i = .guarding ∧
      (run.state m).handleQueue.head? = some (i, 0) := by
  refine eventually_of_served h hC (G := fun call => call = .guarding)
    (D := fun s => s.calls i = .guarding ∧ s.handleQueue.head? = some (i, 0)) ?_ ?_ ?_ hn
  · rintro call rfl
    exact PoolCall.wantsHandle_guarding
  · intro s e s' hi hD _ hstep
    rcases goes_of_step hstep i with hsame | hgoes
    · exact Or.inl (hsame.trans hi)
    · rw [hi] at hgoes
      generalize s'.calls i = call' at hgoes
      cases hgoes with
      | openChannel hfree => cases hfree
      | guard hfree => cases hfree
      | use hfree => cases hfree
      | dropGuard hhead => exact absurd ⟨hi, hhead⟩ hD
  · rintro s (⟨outcome, hreturned⟩ | hguarding) hi
    · rw [hi] at hreturned
      cases hreturned
    · exact hguarding

/-! ## A session that is evicted -/

/-- The call has the handle and waits for it, or will. -/
structure Frozen (i : Nat) (s : LockedPool) : Prop where
  head : s.handleQueue.head? = some (i, 0)
  call : s.calls i = .opening 0 .sleeping ∨ s.calls i = .opening 1 .locking
  others : ∀ j depth phase, j ≠ i → s.calls j = .opening depth phase → phase = .locking

/-- No turn of anybody else but those who begin, and who use `inner`, is possible. -/
theorem Frozen.others_step (h : s.Frozen i) (hstep : s.step e = some s') (j : Nat) (hj : j ≠ i) :
    ∀ depth phase, s'.calls j = .opening depth phase → phase = .locking := by
  intro depth phase hphase
  rcases goes_of_step hstep j with hsame | hgoes
  · exact h.others j depth phase hj (hsame ▸ hphase)
  · rw [hphase] at hgoes
    generalize hcall : s.calls j = call at hgoes
    cases hgoes with
    | openChannel hfree => rfl
    | wake => exact absurd (h.others j _ _ hj hcall) (by decide)
    | answer => exact absurd (h.others j _ _ hj hcall) (by decide)
    | note => exact absurd (h.others j _ _ hj hcall) (by decide)
    | evict => exact absurd (h.others j _ _ hj hcall) (by decide)
    | lock hhead =>
        rw [h.head] at hhead
        cases hhead
        exact absurd rfl hj

/-- The call itself can do nothing but wait. -/
theorem Frozen.call_step (h : s.Frozen i) (hstep : s.step e = some s') :
    s'.calls i = s.calls i ∨ s'.calls i = .opening 1 .locking := by
  rcases goes_of_step hstep i with hsame | hgoes
  · exact Or.inl hsame
  · rcases h.call with hcall | hcall
    · rw [hcall] at hgoes
      generalize s'.calls i = call' at hgoes
      cases hgoes with
      | openChannel hfree => cases hfree
      | guard hfree => cases hfree
      | use hfree => cases hfree
      | wake => exact Or.inr rfl
    · rw [hcall] at hgoes
      generalize s'.calls i = call' at hgoes
      cases hgoes with
      | openChannel hfree => cases hfree
      | guard hfree => cases hfree
      | use hfree => cases hfree
      | lock hhead =>
          rw [h.head] at hhead
          cases hhead

/-- Nobody is past waiting for the handle. -/
theorem Frozen.phase_eq (h : s.Frozen i) {k : Nat} (hk : s.calls k = .opening depth phase) :
    phase = .locking ∨ phase = .sleeping := by
  by_cases heq : k = i
  · rw [heq] at hk
    rcases h.call with hcall | hcall
    · rw [hcall] at hk
      cases hk
      exact Or.inr rfl
    · rw [hcall] at hk
      cases hk
      exact Or.inl rfl
  · exact Or.inl (h.others k depth phase heq hk)

theorem Frozen.head_step (h : s.Frozen i) (hstep : s.step e = some s') :
    s'.handleQueue.head? = some (i, 0) := by
  have happend (tickets : List (Nat × Nat)) :
      (s.handleQueue ++ tickets).head? = some (i, 0) := by
    rw [List.head?_append, h.head, Option.some_or]
  unfold LockedPool.step at hstep
  cases e with
  | openChannel k =>
      simp only [Option.ite_none_right_eq_some, Option.some.injEq] at hstep
      obtain ⟨-, rfl⟩ := hstep
      exact happend _
  | guard k =>
      simp only [Option.ite_none_right_eq_some, Option.some.injEq] at hstep
      obtain ⟨-, rfl⟩ := hstep
      exact happend _
  | wake k depth =>
      simp only [Option.ite_none_right_eq_some, Option.some.injEq] at hstep
      obtain ⟨-, rfl⟩ := hstep
      exact happend _
  | use k u =>
      simp only [Option.ite_none_right_eq_some, Option.some.injEq] at hstep
      obtain ⟨-, rfl⟩ := hstep
      exact h.head
  | lock k depth =>
      simp only [Option.ite_none_right_eq_some, Option.some.injEq] at hstep
      obtain ⟨-, rfl⟩ := hstep
      exact h.head
  | done k u =>
      simp only [Option.ite_none_right_eq_some, Option.some.injEq] at hstep
      obtain ⟨-, rfl⟩ := hstep
      exact h.head
  | answer k depth ok =>
      simp only [Option.ite_none_right_eq_some, Option.some.injEq] at hstep
      obtain ⟨-, rfl⟩ := hstep
      exact h.head
  | note k depth =>
      simp only [Option.ite_none_right_eq_some, Option.some.injEq] at hstep
      obtain ⟨-, rfl⟩ := hstep
      exact h.head
  | count k depth =>
      simp only [Option.ite_none_right_eq_some] at hstep
      exact absurd (h.phase_eq hstep.1.1) (by decide)
  | evict k depth =>
      simp only [Option.ite_none_right_eq_some] at hstep
      exact absurd (h.phase_eq hstep.1.1) (by decide)
  | dropGuard k =>
      simp only [Option.ite_none_right_eq_some] at hstep
      obtain ⟨⟨hk, hhead⟩, -⟩ := hstep
      rw [h.head] at hhead
      cases hhead
      rcases h.call with hcall | hcall
      · rw [hcall] at hk
        cases hk
      · rw [hcall] at hk
        cases hk

theorem Frozen.step (h : s.Frozen i) (hstep : s.step e = some s') : s'.Frozen i where
  head := h.head_step hstep
  call := by
    rcases h.call_step hstep with hsame | hwaits
    · rw [hsame]
      exact h.call
    · exact Or.inr hwaits
  others := fun j depth phase hj => h.others_step hstep j hj depth phase

/-- Whatever happens, the call neither returns nor lets go of the handle. -/
theorem Frozen.of_run {es : List LockedEvent} (h : s.Frozen i)
    (hrun : Machine.run LockedPool.step es s = some s') : s'.Frozen i :=
  Machine.invariant (fun _ _ _ hs (_ : True) hstep => hs.step hstep) h
    (Machine.meeting_of_mem (fun _ _ => trivial) s) hrun

theorem frozen_of_evict (h : s.Inv) (hcached : s.inner.sftp ≠ none)
    (hstep : s.step (.evict i depth) = some s') :
    s'.Frozen i ∧ s'.calls i = .opening 0 .sleeping := by
  obtain ⟨session, hsession⟩ := Option.ne_none_iff_exists'.mp hcached
  unfold LockedPool.step at hstep
  simp only [Option.ite_none_right_eq_some, PoolInner.evict_of_some hsession,
    Option.some.injEq] at hstep
  obtain ⟨⟨hi, -⟩, rfl⟩ := hstep
  obtain ⟨rfl, -⟩ := h.flat i depth _ hi
  have hhead := h.holds i 0 _ hi (by decide)
  refine ⟨⟨hhead, Or.inl (by simp), ?_⟩, by simp⟩
  intro j depth phase hj hphase
  simp only [set_calls, if_neg hj] at hphase
  by_contra hpast
  have hother := h.holds j depth phase hphase hpast
  rw [hhead] at hother
  cases hother
  exact hj rfl

/-- In a fair run, the delay of the call comes to its end, and it waits for itself. -/
theorem eventually_waitsForItself {n : Nat} (hn : (run.state n).Frozen i)
    (hcall : (run.state n).calls i = .opening 0 .sleeping) :
    ∃ m, n ≤ m ∧ (run.state m).WaitsForItself i := by
  refine run.eventually (I := fun s => s.Frozen i ∧ s.calls i = .opening 0 .sleeping)
    (P := fun s => s.WaitsForItself i) (C := fun _ _ => True) (fun _ => 0) (fun _ => i)
    (fun _ _ _ => trivial) Nat.lt_wfRel.wf
    (fun s hs _ => ?_) (fun s e s' hs _ _ hstep => ?_) ⟨hn, hcall⟩
  · refine ⟨.wake i 0, { s.set i (.opening 1 .locking) with
      handleQueue := s.handleQueue ++ [(i, 1)] }, rfl, ?_⟩
    unfold step
    simp only [if_pos hs.2, Nat.zero_add]
  have hfrozen := hs.1.step hstep
  rcases hs.1.call_step hstep with hsame | hwaits
  · refine Or.inr ⟨⟨hfrozen, hsame.trans hs.2⟩, Or.inr ⟨rfl, rfl, ?_⟩⟩
    exact fun hturn => calls_ne_of_turn hturn hstep hsame
  · exact Or.inl ⟨1, 0, hwaits, hfrozen.head, by decide⟩

/-- A call that finds no session to evict returns an error at once. -/
theorem failed_of_evict (hcached : s.inner.sftp = none)
    (hstep : s.step (.evict i depth) = some s') : s'.calls i = .returned .failed := by
  unfold LockedPool.step at hstep
  simp only [Option.ite_none_right_eq_some, PoolInner.evict_of_none hcached,
    Option.some.injEq] at hstep
  obtain ⟨-, rfl⟩ := hstep
  simp [finish]

/-- All calls complete if nothing is evicted. -/
theorem completes_of_meets (hfresh : run.state 0 = fresh inner) (hC : run.Meets NothingToEvict) :
    Completes run := by
  have h (n : Nat) : (run.state n).Inv := by
    rw [← Nat.zero_add n]
    refine run.invariant (fun s e s' hs hC' hstep => Inv.step hs hC' hstep) ?_ n
      (fun m e _ _ hevent => hC m e hevent)
    rw [hfresh]
    exact inv_fresh inner
  refine ⟨fun n i => (h n).not_waitsForItself i, fun n i depth => eventually_opened h hC, ?_, ?_,
    fun n i depth phase => eventually_returned h hC, fun n i => eventually_guarded h hC⟩
  · intro n i depth _ hevent hcached
    exact failed_of_evict hcached (run.step_some n _ hevent)
  · intro n i depth _ hevent hcached
    exact absurd (hC n _ hevent) hcached

/-- All calls of a fair run complete exactly if no call that could not open a channel ever finds a
session to evict. -/
theorem completes_iff (hfresh : run.state 0 = fresh inner) :
    Completes run ↔ run.Meets NothingToEvict := by
  refine ⟨fun hcompletes => ?_, completes_of_meets hfresh⟩
  by_contra hnot
  -- the first session that is evicted
  obtain ⟨n, e, hevent, hC, hfirst⟩ := run.exists_first hnot
  have hinv : (run.state n).Inv := by
    rw [← Nat.zero_add n]
    refine run.invariant (fun s e s' hs hC' hstep => Inv.step hs hC' hstep) ?_ n
      (fun m e _ hm hevent => hfirst m e (by omega) hevent)
    rw [hfresh]
    exact inv_fresh inner
  have hnext := run.step_some n e hevent
  cases e with
  | evict i depth =>
      obtain ⟨hfrozen, hcall⟩ := frozen_of_evict hinv hC hnext
      obtain ⟨m, -, hwaits⟩ := eventually_waitsForItself hfrozen hcall
      exact hcompletes.noSelfWait m i hwaits
  | openChannel i => exact hC trivial
  | lock i depth => exact hC trivial
  | answer i depth ok => exact hC trivial
  | count i depth => exact hC trivial
  | note i depth => exact hC trivial
  | wake i depth => exact hC trivial
  | guard i => exact hC trivial
  | dropGuard i => exact hC trivial
  | use i u => exact hC trivial
  | done i u => exact hC trivial

end Runs

/-! ### A session in the way -/

/-- Only who is doing something has a turn. -/
theorem not_isFree_of_turn {s s' : LockedPool} {e : LockedEvent} {i : Nat}
    (hturn : e.turn = some i) (hstep : s.step e = some s') : (s.calls i).isFree = false := by
  unfold step at hstep
  cases e with
  | openChannel k => cases hturn
  | guard k => cases hturn
  | use k u => cases hturn
  | lock k depth =>
      simp only [Option.ite_none_right_eq_some] at hstep
      cases hturn
      rw [hstep.1.1]
      rfl
  | answer k depth ok =>
      simp only [Option.ite_none_right_eq_some] at hstep
      cases hturn
      rw [hstep.1]
      rfl
  | count k depth =>
      simp only [Option.ite_none_right_eq_some] at hstep
      cases hturn
      rw [hstep.1.1]
      rfl
  | note k depth =>
      simp only [Option.ite_none_right_eq_some] at hstep
      cases hturn
      rw [hstep.1.1]
      rfl
  | evict k depth =>
      simp only [Option.ite_none_right_eq_some] at hstep
      cases hturn
      rw [hstep.1.1]
      rfl
  | wake k depth =>
      simp only [Option.ite_none_right_eq_some] at hstep
      cases hturn
      rw [hstep.1]
      rfl
  | dropGuard k =>
      simp only [Option.ite_none_right_eq_some] at hstep
      cases hturn
      rw [hstep.1.1]
      rfl
  | done k u =>
      simp only [Option.ite_none_right_eq_some] at hstep
      cases hturn
      rw [hstep.1.1]
      rfl

theorem not_canTurn {s : LockedPool} (h : ∀ i, (s.calls i).isFree = true) (k : Nat) :
    ¬ Machine.CanTurn step LockedEvent.turn k s := by
  rintro ⟨e, s', hturn, hstep⟩
  have hbusy := not_isFree_of_turn hturn hstep
  rw [h k] at hbusy
  cases hbusy

/-- Two calls at once: one has a channel, and the other one fails when nothing is cached. -/
def twoCalls : List LockedEvent :=
  [.openChannel 0, .openChannel 1, .lock 0 0, .answer 0 0 true, .count 0 0, .lock 1 0,
    .answer 1 0 false, .note 1 0, .evict 1 0]

theorem completes_twoCalls :
    ∃ run : Machine.FairRun step LockedEvent.turn,
      run.state 0 = fresh ⟨none, 0, none⟩ ∧ run.event 8 = some (.evict 1 0) ∧ Completes run := by
  obtain ⟨s, hs⟩ : ∃ s, Machine.run step twoCalls (fresh ⟨none, 0, none⟩) = some s := ⟨_, rfl⟩
  have hfree : ∀ i, (s.calls i).isFree = true := by
    intro i
    cases hs
    match i with
    | 0 => rfl
    | 1 => rfl
    | i + 2 => rfl
  refine ⟨.ofRun twoCalls hs (not_canTurn hfree), rfl, rfl, ?_⟩
  have hfresh : (Machine.FairRun.ofRun twoCalls hs (not_canTurn hfree)).state 0 =
    fresh ⟨none, 0, none⟩ := rfl
  refine (completes_iff hfresh).mpr fun n e hevent => ?_
  have hlt : n < 9 := (List.getElem?_eq_some_iff.mp hevent).1
  interval_cases n <;> cases hevent <;> trivial

/-- A session is cached, nobody else is there, and the server refuses a channel: the call that is to
make room for itself waits for itself for ever. -/
theorem not_completes_cached :
    ∃ s, Machine.run step [.openChannel 0, .lock 0 0, .answer 0 0 false, .note 0 0, .evict 0 0,
        .wake 0 0] (fresh ⟨some 0, 1, none⟩) = some s ∧
      s.WaitsForItself 0 ∧
      ∀ es s', Machine.run step es s = some s' →
        s'.handleQueue.head? = some (0, 0) ∧ (s'.calls 0).isFree = false := by
  obtain ⟨s, hs⟩ : ∃ s, Machine.run step [.openChannel 0, .lock 0 0, .answer 0 0 false, .note 0 0,
      .evict 0 0, .wake 0 0] (fresh ⟨some 0, 1, none⟩) = some s := ⟨_, rfl⟩
  have hfrozen : s.Frozen 0 := by
    cases hs
    refine ⟨rfl, Or.inr rfl, fun j depth phase hj hphase => ?_⟩
    cases j with
    | zero => exact absurd rfl hj
    | succ j => cases (show PoolCall.idle = .opening depth phase from hphase)
  refine ⟨s, hs, ?_, fun es s' hrun => ?_⟩
  · cases hs
    exact ⟨1, 0, rfl, rfl, by decide⟩
  · have hlater := hfrozen.of_run hrun
    refine ⟨hlater.head, ?_⟩
    rcases hlater.call with hcall | hcall
    · rw [hcall]
      rfl
    · rw [hcall]
      rfl

end LockedPool

end Distant
