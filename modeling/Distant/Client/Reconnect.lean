import Mathlib.Order.Basic
import Distant.Lib.Rust

/-!
# Reconnecting

A client that has lost its connection attempts to reconnect by a strategy, which says how often it
tries, how long an attempt may take and how long it waits in between. `Contract` is what a strategy
promises for a sequence of attempts. `contract_iff` says when it is kept: not if no attempt is
allowed, and not if the first wait, which is not limited, is too long and another attempt follows it.
-/

namespace Distant

/-! ## Durations -/

/-- A `Duration` of that many nanoseconds. -/
structure Duration where
  nanos : Nat
  lt : nanos < 2 ^ 64 * 10 ^ 9
  deriving DecidableEq

namespace Duration

def ZERO : Duration := ⟨0, by decide⟩

/-- `Duration::MAX` -/
def MAX : Duration := ⟨2 ^ 64 * 10 ^ 9 - 1, by decide⟩

def fromMillis (millis : UInt64) : Duration :=
  ⟨millis.toNat * 10 ^ 6, by
    have := millis.toNat_lt
    omega⟩

def asMillis (d : Duration) : Nat := d.nanos / 10 ^ 6

def checkedAdd (a b : Duration) : Option Duration :=
  if h : a.nanos + b.nanos < 2 ^ 64 * 10 ^ 9 then some ⟨a.nanos + b.nanos, h⟩ else none

/-- `std::cmp::min` -/
def min (a b : Duration) : Duration := if a.nanos ≤ b.nanos then a else b

theorem nanos_min_le (a b : Duration) : (a.min b).nanos ≤ b.nanos := by
  unfold min
  split_ifs with h
  · exact h
  · exact Nat.le_refl _

end Duration

/-! ## Strategies -/

/-- The strategy to apply when attempting to reconnect the client to the server. -/
inductive ReconnectStrategy where
  | fail
  | exponentialBackoff (base : Duration) (factor : Float) (maxDuration : Option Duration)
      (maxRetries : Option Nat) (timeout : Option Duration)
  | fibonacciBackoff (base : Duration) (maxDuration : Option Duration) (maxRetries : Option Nat)
      (timeout : Option Duration)
  | fixedInterval (interval : Duration) (maxRetries : Option Nat) (timeout : Option Duration)

/-- What comes of an attempt to reconnect, and whether it is there before the timeout. -/
structure Attempt where
  inTime : Bool
  result : Except IoError Unit

namespace ReconnectStrategy

def isFail : ReconnectStrategy → Bool
  | fail => true
  | _ => false

/-- The maximum duration between attempts, or none if there is no limit. -/
def maxDuration : ReconnectStrategy → Option Duration
  | fail => none
  | exponentialBackoff _ _ maxDuration _ _ => maxDuration
  | fibonacciBackoff _ maxDuration _ _ => maxDuration
  | fixedInterval _ _ _ => none

/-- The maximum attempts the strategy will perform, or none if it will attempt forever. -/
def maxRetries : ReconnectStrategy → Option Nat
  | fail => none
  | exponentialBackoff _ _ _ maxRetries _ => maxRetries
  | fibonacciBackoff _ _ maxRetries _ => maxRetries
  | fixedInterval _ maxRetries _ => maxRetries

/-- The timeout per attempt. -/
def timeout : ReconnectStrategy → Option Duration
  | fail => none
  | exponentialBackoff _ _ _ _ timeout => timeout
  | fibonacciBackoff _ _ _ timeout => timeout
  | fixedInterval _ _ timeout => timeout

def initialSleepDuration : ReconnectStrategy → Duration
  | fail => .ZERO
  | exponentialBackoff base _ _ _ _ => base
  | fibonacciBackoff base _ _ _ => base
  | fixedInterval interval _ _ => interval

/-- Adjusts the next sleep duration. A conversion of a float to an integer saturates. -/
def adjustSleep (s : ReconnectStrategy) (prev : Option Duration) (curr : Duration) : Duration :=
  match s with
  | fail => .ZERO
  | exponentialBackoff _ factor _ _ _ =>
    let nextMillis := Float.ofNat curr.asMillis * factor
    .fromMillis (if Float.ofNat (2 ^ 64 - 1) < nextMillis then .ofNat (2 ^ 64 - 1)
      else nextMillis.toUInt64)
  | fibonacciBackoff _ _ _ _ => ((prev.getD .ZERO).checkedAdd curr).getD .MAX
  | fixedInterval _ _ _ => curr

/-- What an attempt comes to, with the timeout if there is one. -/
def attempt (s : ReconnectStrategy) (a : Attempt) : Except IoError Unit :=
  match s.timeout with
  | some _ => if a.inTime then a.result else .error (.ofKind .timedOut)
  | none => a.result

end ReconnectStrategy

/-! ## The loop -/

/-- The variables of the loop, and what has happened: how many attempts were made, and the waits
after them. -/
structure Reconnecting where
  previousSleep : Option Duration
  currentSleep : Duration
  retriesRemaining : Option Nat
  result : Except IoError Unit
  attempts : Nat
  waits : List Duration

namespace ReconnectStrategy

/-- Before the first attempt. -/
def start (s : ReconnectStrategy) : Reconnecting where
  previousSleep := none
  currentSleep := s.initialSleepDuration
  retriesRemaining := s.maxRetries
  result := .ok ()
  attempts := 0
  waits := []

/-- An attempt that fails is counted, and then there is a wait. -/
def failed (s : ReconnectStrategy) (r : Reconnecting) : Reconnecting :=
  let nextSleep := s.adjustSleep r.previousSleep r.currentSleep
  { r with
    retriesRemaining := r.retriesRemaining.map (· - 1)
    waits := r.waits ++ [r.currentSleep]
    previousSleep := some r.currentSleep
    currentSleep :=
      match s.maxDuration with
      | some duration => nextSleep.min duration
      | none => nextSleep }

/-- That many turns of the loop: where it is then, and the result if it has returned. The attempts
come out as `outcomes` says, each in its turn. -/
def loop (s : ReconnectStrategy) (outcomes : Nat → Attempt) :
    Nat → Reconnecting → Reconnecting × Option (Except IoError Unit)
  | 0, r => (r, none)
  | turns + 1, r =>
    if r.retriesRemaining = some 0 then (r, some r.result)
    else
      let r := { r with result := s.attempt (outcomes r.attempts), attempts := r.attempts + 1 }
      match r.result with
      | .ok () => (r, some (.ok ()))
      | .error _ => loop s outcomes turns (s.failed r)

/-- `ReconnectStrategy::reconnect`, as far as it has come after that many turns of the loop. -/
def reconnect (s : ReconnectStrategy) (outcomes : Nat → Attempt) (turns : Nat) :
    Reconnecting × Option (Except IoError Unit) :=
  if s.isFail then (s.start, some (.error (.ofKind .connectionAborted)))
  else s.loop outcomes turns s.start

/-! ## The contract -/

/-- How many attempts are allowed, if there is a limit. -/
def allowed (s : ReconnectStrategy) : Option Nat := if s.isFail then some 0 else s.maxRetries

/-- What a strategy promises. -/
structure Contract (s : ReconnectStrategy) (outcomes : Nat → Attempt) : Prop where
  /-- It returns, if an attempt succeeds or there is a limit. -/
  returns : (s.allowed ≠ none ∨ ∃ k, s.attempt (outcomes k) = .ok ()) →
    ∃ turns result, (s.reconnect outcomes turns).2 = some result
  /-- The result is good exactly if an attempt was made and the last one was good. -/
  ok : ∀ turns result, (s.reconnect outcomes turns).2 = some result →
    (result = .ok () ↔ ∃ k, (s.reconnect outcomes turns).1.attempts = k + 1 ∧
      s.attempt (outcomes k) = .ok ())
  /-- Otherwise all the attempts that are allowed were made, and it is the error of the last one. -/
  error : ∀ turns e, (s.reconnect outcomes turns).2 = some (.error e) →
    s.allowed = some (s.reconnect outcomes turns).1.attempts ∧
      ∀ k, (s.reconnect outcomes turns).1.attempts = k + 1 → s.attempt (outcomes k) = .error e
  /-- No wait that an attempt follows is longer than the limit. -/
  waits : ∀ turns max, s.maxDuration = some max →
    ∀ w ∈ (s.reconnect outcomes turns).1.waits.take ((s.reconnect outcomes turns).1.attempts - 1),
      w.nanos ≤ max.nanos

/-! ## What holds in the loop -/

/-- Between two turns of the loop. -/
structure Going (s : ReconnectStrategy) (outcomes : Nat → Attempt) (r : Reconnecting) : Prop where
  failed : ∀ k < r.attempts, s.attempt (outcomes k) ≠ .ok ()
  result : ∀ k, r.attempts = k + 1 → r.result = s.attempt (outcomes k)
  first : r.attempts = 0 → r = s.start
  remaining : r.retriesRemaining = s.maxRetries.map (· - r.attempts)
  within : ∀ n, s.maxRetries = some n → r.attempts ≤ n
  length : r.waits.length = r.attempts
  /-- The first wait is the initial one, and the others are limited. -/
  head : ∀ w, r.waits.head? = some w → w = s.initialSleepDuration
  tail : ∀ max, s.maxDuration = some max → ∀ w ∈ r.waits.tail, w.nanos ≤ max.nanos
  current : ∀ max, s.maxDuration = some max → r.attempts ≠ 0 → r.currentSleep.nanos ≤ max.nanos

section Loop

variable {s : ReconnectStrategy} {outcomes : Nat → Attempt} {r : Reconnecting} {turns : Nat}

theorem going_start (s : ReconnectStrategy) (outcomes : Nat → Attempt) :
    Going s outcomes s.start := by
  refine ⟨?_, ?_, fun _ => rfl, ?_, ?_, rfl, ?_, ?_, ?_⟩
  · intro k hk
    cases hk
  · intro k hk
    cases hk
  · cases h : s.maxRetries with
    | none => simp [start, h]
    | some n => simp [start, h]
  · intro n _
    exact Nat.zero_le _
  · intro w hw
    cases hw
  · intro max _ w hw
    cases hw
  · intro max _ hne
    exact absurd rfl hne

/-- The loop ends where no retries remain, which is after as many attempts as are allowed. -/
theorem Going.remaining_eq_zero_iff (h : Going s outcomes r) :
    r.retriesRemaining = some 0 ↔ s.maxRetries = some r.attempts := by
  rw [h.remaining, Option.map_eq_some_iff]
  constructor
  · rintro ⟨n, hn, hzero⟩
    have hle := h.within n hn
    rw [hn, Option.some.injEq]
    omega
  · intro hn
    exact ⟨_, hn, Nat.sub_self _⟩

/-- An attempt that fails, where one is allowed. -/
theorem Going.failed_attempt (h : Going s outcomes r) (hmore : s.maxRetries ≠ some r.attempts)
    (hfails : s.attempt (outcomes r.attempts) ≠ .ok ()) :
    Going s outcomes (ReconnectStrategy.failed s
      { r with result := s.attempt (outcomes r.attempts), attempts := r.attempts + 1 }) := by
  refine ⟨?_, ?_, ?_, ?_, ?_, ?_, ?_, ?_, ?_⟩
  · intro k hk
    rcases Nat.lt_succ_iff_lt_or_eq.mp hk with hk | rfl
    · exact h.failed k hk
    · exact hfails
  · intro k hk
    cases hk
    rfl
  · intro hzero
    cases hzero
  · simp only [ReconnectStrategy.failed, h.remaining, Option.map_map]
    rfl
  · intro n hn
    have hle := h.within n hn
    have hne : n ≠ r.attempts := fun heq => hmore (heq ▸ hn)
    simp only [ReconnectStrategy.failed]
    omega
  · simp [ReconnectStrategy.failed, h.length]
  · -- the first attempt is followed by the initial wait
    intro w hw
    simp only [ReconnectStrategy.failed] at hw
    cases hwaits : r.waits with
    | nil =>
        have hzero : r.attempts = 0 := by rw [← h.length, hwaits, List.length_nil]
        rw [hwaits, h.first hzero] at hw
        cases hw
        rfl
    | cons v waits =>
        rw [hwaits] at hw
        cases hw
        exact h.head _ (by rw [hwaits]; rfl)
  · -- each later one by a wait that the turn before has limited
    intro max hmax w hw
    simp only [ReconnectStrategy.failed] at hw
    cases hwaits : r.waits with
    | nil =>
        rw [hwaits] at hw
        cases hw
    | cons v waits =>
        rw [hwaits, List.cons_append, List.tail_cons] at hw
        rcases List.mem_append.mp hw with hw | hw
        · exact h.tail max hmax w (by rw [hwaits]; exact hw)
        · rw [List.mem_singleton.mp hw]
          apply h.current max hmax
          rw [← h.length, hwaits]
          exact Nat.succ_ne_zero _
  · intro max hmax _
    simp only [ReconnectStrategy.failed, hmax]
    exact Duration.nanos_min_le _ _

/-- How far the loop comes: it is still going, an attempt has succeeded, or none is left. -/
inductive Stands (s : ReconnectStrategy) (outcomes : Nat → Attempt) (attempts : Nat) :
    Reconnecting × Option (Except IoError Unit) → Prop
  | going {r : Reconnecting} : Going s outcomes r → r.attempts = attempts →
      Stands s outcomes attempts (r, none)
  | succeeded {r : Reconnecting} : Going s outcomes r → s.maxRetries ≠ some r.attempts →
      s.attempt (outcomes r.attempts) = .ok () →
      Stands s outcomes attempts
        ({ r with result := .ok (), attempts := r.attempts + 1 }, some (.ok ()))
  | exhausted {r : Reconnecting} : Going s outcomes r → s.maxRetries = some r.attempts →
      Stands s outcomes attempts (r, some r.result)

theorem Going.stands (h : Going s outcomes r) (turns : Nat) :
    Stands s outcomes (r.attempts + turns) (s.loop outcomes turns r) := by
  induction turns generalizing r with
  | zero => exact .going h rfl
  | succ turns ih =>
      rw [loop]
      by_cases hmore : s.maxRetries = some r.attempts
      · rw [if_pos (h.remaining_eq_zero_iff.mpr hmore)]
        exact .exhausted h hmore
      · rw [if_neg fun hzero => hmore (h.remaining_eq_zero_iff.mp hzero)]
        cases hattempt : s.attempt (outcomes r.attempts) with
        | ok =>
            simp only
            exact .succeeded h hmore hattempt
        | error e =>
            have hfails : s.attempt (outcomes r.attempts) ≠ .ok () := by
              rw [hattempt]
              simp
            have hnext := ih (h.failed_attempt hmore hfails)
            rw [hattempt] at hnext
            have hcount : r.attempts + (turns + 1) = r.attempts + 1 + turns := by omega
            rw [hcount]
            exact hnext

theorem Going.initial_mem (h : Going s outcomes r) {n : Nat} (hn : n ≠ 0) (hne : r.attempts ≠ 0) :
    s.initialSleepDuration ∈ r.waits.take n := by
  obtain ⟨n, rfl⟩ := Nat.exists_eq_add_one_of_ne_zero hn
  cases hwaits : r.waits with
  | nil =>
      rw [← h.length, hwaits] at hne
      exact absurd rfl hne
  | cons v waits =>
      rw [List.take_succ_cons, h.head v (by rw [hwaits]; rfl)]
      exact List.mem_cons_self

/-- The waits that an attempt has followed are limited, if the first one is. -/
theorem Going.waits_le (h : Going s outcomes r) {max : Duration} (hmax : s.maxDuration = some max)
    {n : Nat} (hfirst : n ≠ 0 → s.initialSleepDuration.nanos ≤ max.nanos) :
    ∀ w ∈ r.waits.take n, w.nanos ≤ max.nanos := by
  intro w hw
  cases n with
  | zero => cases hw
  | succ n =>
      cases hwaits : r.waits with
      | nil =>
          rw [hwaits] at hw
          cases hw
      | cons v waits =>
          rw [hwaits, List.take_succ_cons] at hw
          rcases List.mem_cons.mp hw with rfl | hw
          · rw [h.head w (by rw [hwaits]; rfl)]
            exact hfirst (Nat.succ_ne_zero n)
          · exact h.tail max hmax w (by rw [hwaits]; exact List.mem_of_mem_take hw)

end Loop

/-! ## When the contract is kept -/

/-- The first wait is within the limit, or no attempt follows it. -/
def FirstWaitAllowed (s : ReconnectStrategy) (outcomes : Nat → Attempt) : Prop :=
  ∀ max, s.maxDuration = some max → s.initialSleepDuration.nanos ≤ max.nanos ∨
    s.maxRetries = some 1 ∨ s.attempt (outcomes 0) = .ok ()

section Contract

variable {s : ReconnectStrategy} {outcomes : Nat → Attempt} {turns : Nat}

theorem eq_fail_of_isFail (h : s.isFail = true) : s = fail := by
  cases s with
  | fail => rfl
  | exponentialBackoff base factor maxDuration maxRetries timeout => cases h
  | fibonacciBackoff base maxDuration maxRetries timeout => cases h
  | fixedInterval interval maxRetries timeout => cases h

theorem isFail_eq_false (h : s ≠ fail) : s.isFail = false := by
  rw [← Bool.not_eq_true]
  exact fun hfail => h (eq_fail_of_isFail hfail)

/-- To fail immediately is to make all of no attempts. -/
theorem contract_fail (outcomes : Nat → Attempt) : Contract fail outcomes := by
  constructor
  · intro _
    exact ⟨0, _, rfl⟩
  · intro turns result hresult
    cases hresult
    refine iff_of_false (by simp) ?_
    rintro ⟨k, hk, -⟩
    cases hk
  · intro turns e _
    refine ⟨rfl, ?_⟩
    intro k hk
    cases hk
  · intro turns max hmax
    cases hmax

theorem stands_reconnect (hfail : s.isFail = false) (outcomes : Nat → Attempt) (turns : Nat) :
    Stands s outcomes turns (s.reconnect outcomes turns) := by
  have h := (going_start s outcomes).stands turns
  rw [reconnect, hfail]
  rwa [show s.start.attempts + turns = turns from Nat.zero_add turns] at h

/-- Where several attempts are made, the first one has failed and was not the only one allowed. -/
theorem Going.first_le {r : Reconnecting} (hgoing : Going s outcomes r)
    (h : FirstWaitAllowed s outcomes) {max : Duration} (hmax : s.maxDuration = some max)
    (hone : s.maxRetries ≠ some 1) (hne : r.attempts ≠ 0) :
    s.initialSleepDuration.nanos ≤ max.nanos := by
  rcases h max hmax with hle | heq | heq
  · exact hle
  · exact absurd heq hone
  · exact absurd heq (hgoing.failed 0 (Nat.pos_of_ne_zero hne))

/-- The waits that an attempt has followed are limited. -/
theorem Stands.waits_le {reached : Reconnecting × Option (Except IoError Unit)}
    (hstands : Stands s outcomes turns reached) (h : FirstWaitAllowed s outcomes) {max : Duration}
    (hmax : s.maxDuration = some max) :
    ∀ w ∈ reached.1.waits.take (reached.1.attempts - 1), w.nanos ≤ max.nanos := by
  cases hstands with
  | @going r hgoing hattempts =>
      apply hgoing.waits_le hmax
      intro hne
      apply hgoing.first_le h hmax
      · intro hone
        have hle := hgoing.within 1 hone
        simp only at hne
        omega
      · simp only at hne
        omega
  | @succeeded r hgoing hmore hok =>
      apply hgoing.waits_le hmax
      intro hne
      simp only at hne
      apply hgoing.first_le h hmax
      · -- one attempt more than was allowed would have been made
        intro hone
        have hle := hgoing.within 1 hone
        have hlast : r.attempts = 1 := by omega
        exact hmore (by rw [hlast]; exact hone)
      · omega
  | exhausted hgoing hnone =>
      apply hgoing.waits_le hmax
      intro hne
      simp only at hne
      apply hgoing.first_le h hmax
      · intro hone
        have hle := hgoing.within 1 hone
        omega
      · omega

/-- A result is good where the last attempt was. -/
theorem Stands.eq_ok_iff {reached : Reconnecting × Option (Except IoError Unit)}
    (hstands : Stands s outcomes turns reached) (hzero : s.maxRetries ≠ some 0)
    {result : Except IoError Unit} (hresult : reached.2 = some result) :
    result = .ok () ↔ ∃ k, reached.1.attempts = k + 1 ∧ s.attempt (outcomes k) = .ok () := by
  cases hstands with
  | going hgoing hattempts => cases hresult
  | succeeded hgoing hmore hok =>
      cases hresult
      exact iff_of_true rfl ⟨_, rfl, hok⟩
  | @exhausted r hgoing hnone =>
      cases hresult
      obtain ⟨k, hk⟩ : ∃ k, r.attempts = k + 1 := by
        refine Nat.exists_eq_add_one_of_ne_zero fun h => hzero ?_
        rw [hnone, h]
      -- the last attempt is one of those that have failed
      have hfails := hgoing.failed k (by omega)
      apply iff_of_false
      · rw [hgoing.result k hk]
        exact hfails
      · rintro ⟨k', hk', hok⟩
        simp only at hk'
        obtain rfl : k = k' := by omega
        exact hfails hok

/-- An error is that of the last attempt that was allowed. -/
theorem Stands.eq_error {reached : Reconnecting × Option (Except IoError Unit)}
    (hstands : Stands s outcomes turns reached) {e : IoError}
    (hresult : reached.2 = some (.error e)) :
    s.maxRetries = some reached.1.attempts ∧
      ∀ k, reached.1.attempts = k + 1 → s.attempt (outcomes k) = .error e := by
  cases hstands with
  | going hgoing hattempts => cases hresult
  | succeeded hgoing hmore hok => cases hresult
  | exhausted hgoing hnone =>
      refine ⟨hnone, fun k hk => ?_⟩
      rw [← hgoing.result k hk]
      exact Option.some.inj hresult

theorem exists_return (hfail : s.isFail = false)
    (h : s.maxRetries ≠ none ∨ ∃ k, s.attempt (outcomes k) = .ok ()) :
    ∃ turns result, (s.reconnect outcomes turns).2 = some result := by
  -- one turn more than there are attempts
  have hbound : ∃ bound, ∀ r, Going s outcomes r → r.attempts ≠ bound + 1 := by
    rcases h with h | ⟨k, hk⟩
    · obtain ⟨n, hn⟩ := Option.ne_none_iff_exists'.mp h
      refine ⟨n, fun r hr heq => ?_⟩
      have hle := hr.within n hn
      omega
    · refine ⟨k, fun r hr heq => ?_⟩
      exact hr.failed k (by omega) hk
  obtain ⟨bound, hbound⟩ := hbound
  have hstands := stands_reconnect hfail outcomes (bound + 1)
  refine ⟨bound + 1, ?_⟩
  cases hr : s.reconnect outcomes (bound + 1) with
  | mk r result =>
      rw [hr] at hstands
      cases hstands with
      | going hgoing hattempts => exact absurd hattempts (hbound r hgoing)
      | succeeded hgoing hmore hok => exact ⟨_, rfl⟩
      | exhausted hgoing hmore => exact ⟨_, rfl⟩

theorem contract_of_allowed (hzero : s.maxRetries ≠ some 0) (hwait : FirstWaitAllowed s outcomes) :
    Contract s outcomes := by
  cases hfail : s.isFail with
  | true =>
      rw [eq_fail_of_isFail hfail]
      exact contract_fail outcomes
  | false =>
      have hallowed : s.allowed = s.maxRetries := by
        rw [allowed, hfail]
        rfl
      have hstands := stands_reconnect hfail outcomes
      constructor
      · rw [hallowed]
        exact exists_return hfail
      · intro turns result hresult
        exact (hstands turns).eq_ok_iff hzero hresult
      · intro turns e hresult
        rw [hallowed]
        exact (hstands turns).eq_error hresult
      · intro turns max hmax
        exact (hstands turns).waits_le hwait hmax

/-- Without an allowed attempt, the result is good at once. -/
theorem reconnect_of_zero (hzero : s.maxRetries = some 0) (outcomes : Nat → Attempt) :
    s.reconnect outcomes 1 = (s.start, some (.ok ())) := by
  have hfail : s.isFail = false := by
    apply isFail_eq_false
    rintro rfl
    cases hzero
  have hstart : s.start.retriesRemaining = some 0 := hzero
  rw [reconnect, hfail, if_neg (by decide), loop, if_pos hstart]
  rfl

/-- The wait between the first two attempts is the initial one. -/
theorem reconnect_two (hfail : s.isFail = false) (hzero : s.maxRetries ≠ some 0)
    (hone : s.maxRetries ≠ some 1) (hfails : s.attempt (outcomes 0) ≠ .ok ()) :
    s.initialSleepDuration ∈ (s.reconnect outcomes 2).1.waits.take
      ((s.reconnect outcomes 2).1.attempts - 1) := by
  have hstands := stands_reconnect hfail outcomes 2
  cases hr : s.reconnect outcomes 2 with
  | mk r ret =>
      rw [hr] at hstands
      cases hstands with
      | going hgoing hattempts =>
          exact hgoing.initial_mem (by simp only; omega) (by omega)
      | @succeeded r hgoing hmore hok =>
          have hne : r.attempts ≠ 0 := by
            intro heq
            rw [heq] at hok
            exact hfails hok
          exact hgoing.initial_mem (by simp only; omega) hne
      | exhausted hgoing hnone =>
          have hne : r.attempts ≠ 0 ∧ r.attempts ≠ 1 := by
            rw [hnone] at hzero hone
            exact ⟨fun heq => hzero (by rw [heq]), fun heq => hone (by rw [heq])⟩
          exact hgoing.initial_mem (by simp only; omega) hne.1

/-- What the contract needs. -/
theorem Contract.allowed (h : Contract s outcomes) :
    s.maxRetries ≠ some 0 ∧ FirstWaitAllowed s outcomes := by
  have hzero : s.maxRetries ≠ some 0 := by
    intro hzero
    have hreturn := reconnect_of_zero hzero outcomes
    obtain ⟨k, hk, -⟩ := (h.ok 1 (.ok ()) (by rw [hreturn])).mp rfl
    rw [hreturn] at hk
    cases hk
  refine ⟨hzero, fun max hmax => ?_⟩
  by_contra hnot
  rw [not_or, not_or] at hnot
  obtain ⟨hlong, hone, hfails⟩ := hnot
  have hfail : s.isFail = false := by
    apply isFail_eq_false
    rintro rfl
    cases hmax
  exact hlong (h.waits 2 max hmax _ (reconnect_two hfail hzero hone hfails))

/-- The contract of a strategy is kept exactly if it allows an attempt and its first wait is within
the limit, unless no attempt follows this wait. -/
theorem contract_iff (s : ReconnectStrategy) (outcomes : Nat → Attempt) :
    Contract s outcomes ↔ s.maxRetries ≠ some 0 ∧ FirstWaitAllowed s outcomes :=
  ⟨fun h => h.allowed, fun h => contract_of_allowed h.1 h.2⟩

/-- Once it has returned, more turns change nothing. -/
theorem loop_of_returned {r : Reconnecting} {result : Except IoError Unit}
    (h : (s.loop outcomes turns r).2 = some result) (more : Nat) :
    s.loop outcomes (turns + more) r = s.loop outcomes turns r := by
  induction turns generalizing r with
  | zero => cases h
  | succ turns ih =>
      rw [Nat.succ_add, loop, loop]
      rw [loop] at h
      split_ifs at h ⊢ with hzero
      · rfl
      · simp only at h ⊢
        cases hattempt : s.attempt (outcomes r.attempts) with
        | ok => rfl
        | error e =>
            rw [hattempt] at h
            exact ih h

end Contract

end ReconnectStrategy

/-! ## The client -/

namespace Client

/-- The state of a connection. -/
inductive ConnectionState where
  | reconnecting
  | connected
  | disconnected
  deriving DecidableEq, Repr

/-- What the task of the client tells its watchers of the result. -/
def ConnectionState.afterReconnect : Except IoError Unit → ConnectionState
  | .ok () => connected
  | .error _ => disconnected

end Client

/-- Where the contract is kept, a client that says that it is connected has been reconnected by the
last attempt. -/
theorem ReconnectStrategy.Contract.connected_iff {s : ReconnectStrategy}
    {outcomes : Nat → Attempt} (h : s.Contract outcomes) {turns : Nat}
    {result : Except IoError Unit} (hresult : (s.reconnect outcomes turns).2 = some result) :
    Client.ConnectionState.afterReconnect result = .connected ↔
      ∃ k, (s.reconnect outcomes turns).1.attempts = k + 1 ∧ s.attempt (outcomes k) = .ok () := by
  rw [← h.ok turns result hresult]
  cases result with
  | ok => exact iff_of_true rfl rfl
  | error e => exact iff_of_false (by simp [Client.ConnectionState.afterReconnect]) (by simp)

/-! ### Strategies that break it -/

namespace Breaking

def refused : Nat → Attempt := fun _ => ⟨true, .error (.ofKind .other)⟩

def second : Duration := ⟨10 ^ 9, by decide⟩

def minute : Duration := ⟨60 * 10 ^ 9, by decide⟩

/-- No attempt is allowed, or the first wait is a minute where a second is the limit. -/
theorem not_contract :
    ¬ (ReconnectStrategy.fixedInterval second (some 0) none).Contract refused ∧
    ¬ (ReconnectStrategy.fibonacciBackoff minute (some second) (some 3) none).Contract refused := by
  constructor
  · intro h
    exact h.allowed.1 rfl
  · intro h
    rcases h.allowed.2 second rfl with hle | hone | hok
    · exact absurd hle (by decide)
    · cases hone
    · cases hok

end Breaking

end Distant
