import Mathlib.Data.List.Infix
import Distant.Lib.Machine
import Distant.Protocol

/-!
# What a caller sends to a remote process

One task forwards what is written to stdin, resizes and kills, in a loop that takes from whichever of
the three channels has something. A kill ends the loop, also the one that the client issues itself
when the process is done, and so does a channel whose senders are all gone. `forwards_of_run` says
what is forwarded as long as the callers keep their handles: everything that was asked for, but for
what waits when a kill is taken.
-/

namespace Distant

/-- `errors::dead_channel` -/
def deadChannel : IoError := .new .brokenPipe "Channel is dead"

namespace Request

def stdinOf : Request → Option Bytes
  | .procStdin _ data => some data
  | .procResizePty _ _ => none
  | .procKill _ => none
  | .tunnelWrite _ _ => none
  | .tunnelClose _ => none

def resizeOf : Request → Option PtySize
  | .procStdin _ _ => none
  | .procResizePty _ size => some size
  | .procKill _ => none
  | .tunnelWrite _ _ => none
  | .tunnelClose _ => none

end Request

/-- The three channels of a process, and the loop that takes from them. A call that waits for room is
in its channel already, behind all others. -/
structure Outgoing where
  stdin : List Bytes
  resizes : List PtySize
  kills : Nat
  /-- there is a handle to stdin -/
  stdinOpen : Bool
  /-- there is a handle to resize, and one to kill -/
  processOpen : Bool
  /-- the task of the responses, which has a sender for kills, is done -/
  concluded : Bool
  /-- how the loop has ended -/
  result : Option (Except IoError Unit)
  /-- the requests to the server -/
  fired : List Request
  /-- what the callers have asked for: data that was accepted, and all resizes and kills -/
  asked : List Request

inductive OutgoingEvent where
  | write (data : Bytes)
  | dropStdin
  | resize (size : PtySize)
  | kill
  /-- the process and all that was cloned from it are dropped -/
  | dropProcess
  /-- the task of the responses ends -/
  | conclude
  /-- the loop takes from a channel, and fires a request -/
  | takeStdin (fire : Except IoError Unit)
  | takeResize (fire : Except IoError Unit)
  | takeKill (fire : Except IoError Unit)

/-- The loop takes from a channel. -/
def OutgoingEvent.IsTake : OutgoingEvent → Prop
  | .takeStdin _ => True
  | .takeResize _ => True
  | .takeKill _ => True
  | _ => False

/-- The loop takes from a channel, and the connection takes the request. -/
def OutgoingEvent.IsTurn (e : OutgoingEvent) : Prop :=
  e = .takeStdin (.ok ()) ∨ e = .takeResize (.ok ()) ∨ e = .takeKill (.ok ())

namespace Outgoing

def new : Outgoing := ⟨[], [], 0, true, true, false, none, [], []⟩

variable (id : ProcessId)

/-- `channel.fire`, with what comes after it. -/
def fire (s : Outgoing) (request : Request) (next : Option (Except IoError Unit)) :
    Except IoError Unit → Outgoing
  | .ok () => { s with fired := s.fired ++ [request], result := next }
  | .error e => { s with result := some (.error e) }

/-- A channel is closed. -/
def dead (s : Outgoing) : Outgoing := { s with result := some (.error deadChannel) }

/-- `kill_tx.try_send(())`, which fails if there is a kill already. -/
def conclude (s : Outgoing) : Outgoing := { s with concluded := true, kills := max 1 s.kills }

def step (s : Outgoing) : OutgoingEvent → Option Outgoing
  | .write data =>
    if ¬ s.stdinOpen then none
    else if s.result.isSome then some s
    else some { s with stdin := s.stdin ++ [data], asked := s.asked ++ [.procStdin id data] }
  | .dropStdin => some { s with stdinOpen := false }
  | .resize size =>
    if ¬ s.processOpen then none
    else
      let s := { s with asked := s.asked ++ [.procResizePty id size] }
      if s.result.isSome then some s else some { s with resizes := s.resizes ++ [size] }
  | .kill =>
    if ¬ s.processOpen then none
    else
      let s := { s with asked := s.asked ++ [.procKill id] }
      if s.result.isSome then some s else some { s with kills := s.kills + 1 }
  | .dropProcess => some { s with stdinOpen := false, processOpen := false }
  | .conclude => some s.conclude
  | .takeStdin fired =>
    match s.result, s.stdin with
    | some _, _ => none
    | none, data :: stdin => some ({ s with stdin := stdin }.fire (.procStdin id data) none fired)
    | none, [] => if s.stdinOpen then none else some s.dead
  | .takeResize fired =>
    match s.result, s.resizes with
    | some _, _ => none
    | none, size :: resizes =>
      some ({ s with resizes := resizes }.fire (.procResizePty id size) none fired)
    | none, [] => if s.processOpen then none else some s.dead
  | .takeKill fired =>
    match s.result, s.kills with
    | some _, _ => none
    | none, kills + 1 => some ({ s with kills := kills }.fire (.procKill id) (some (.ok ())) fired)
    | none, 0 => if s.processOpen || ¬ s.concluded then none else some s.dead

/-! ## One turn of the loop -/

/-- What the loop may yet take. -/
def rest (s : Outgoing) : Nat :=
  if s.result.isSome then 0 else s.stdin.length + s.resizes.length + 1

section Take

variable {id} {s s' : Outgoing} {e : OutgoingEvent}

theorem fire_cases (s : Outgoing) (request : Request) (fired : Except IoError Unit) :
    (s.fire request none fired).result.isSome = true ∨
      s.fire request none fired = { s with fired := s.fired ++ [request], result := none } := by
  cases fired with
  | ok u => exact .inr rfl
  | error e => exact .inl rfl

/-- After its end the loop takes nothing. -/
theorem running_of_take (htake : e.IsTake) (hstep : step id s e = some s') : s.result = none := by
  cases hresult : s.result with
  | none => rfl
  | some result =>
      cases e with
      | takeStdin fire => simp [step, hresult] at hstep
      | takeResize fire => simp [step, hresult] at hstep
      | takeKill fire => simp [step, hresult] at hstep
      | write | dropStdin | resize | kill | dropProcess | conclude => cases htake

/-- The loop ends, or has taken something other than a kill. -/
theorem take_cases (htake : e.IsTake) (hstep : step id s e = some s') :
    s.result = none ∧ (s'.result.isSome = true ∨ (s'.result = none ∧ s'.kills = s.kills ∧
      s'.stdin.length + s'.resizes.length < s.stdin.length + s.resizes.length)) := by
  have hrunning := running_of_take htake hstep
  obtain ⟨stdin, resizes, kills, stdinOpen, processOpen, concluded, result, fired, asked⟩ := s
  cases hrunning
  refine ⟨rfl, ?_⟩
  cases e with
  | takeStdin fire =>
      cases stdin with
      | nil =>
          cases stdinOpen <;> cases hstep
          exact .inl rfl
      | cons data stdin =>
          cases hstep
          refine (fire_cases _ _ fire).imp (fun h => h) fun h => ?_
          rw [h]
          exact ⟨rfl, rfl, by simp⟩
  | takeResize fire =>
      cases resizes with
      | nil =>
          cases processOpen <;> cases hstep
          exact .inl rfl
      | cons size resizes =>
          cases hstep
          refine (fire_cases _ _ fire).imp (fun h => h) fun h => ?_
          rw [h]
          exact ⟨rfl, rfl, by simp⟩
  | takeKill fire =>
      cases kills with
      | zero =>
          cases processOpen <;> cases concluded <;> cases hstep
          exact .inl rfl
      | succ kills =>
          cases hstep
          cases fire <;> exact .inl rfl
  | write | dropStdin | resize | kill | dropProcess | conclude => cases htake

theorem rest_lt (htake : e.IsTake) (hstep : step id s e = some s') : s'.rest < s.rest := by
  obtain ⟨hrunning, hended | ⟨hrunning', -, hlt⟩⟩ := take_cases htake hstep
  · simp [rest, hrunning, hended]
  · simp only [rest, hrunning, hrunning', Option.isSome_none, Bool.false_eq_true, if_false]
    omega

/-- A caller, or the other task, leaves alone what the loop has done, and takes nothing back. -/
theorem call_cases (hcall : ¬ e.IsTake) (hstep : step id s e = some s') :
    s'.result = s.result ∧ s'.fired = s.fired ∧ s.asked <+: s'.asked ∧ s.kills ≤ s'.kills ∧
      (s.concluded = true → s'.concluded = true) := by
  cases e with
  | takeStdin fire | takeResize fire | takeKill fire => exact absurd trivial hcall
  | dropStdin | dropProcess =>
      cases hstep
      exact ⟨rfl, rfl, List.prefix_rfl, Nat.le_refl _, fun h => h⟩
  | conclude =>
      cases hstep
      exact ⟨rfl, rfl, List.prefix_rfl, Nat.le_max_right 1 _, fun _ => rfl⟩
  | write data =>
      rw [step] at hstep
      split at hstep
      · cases hstep
      · split at hstep <;> cases hstep
        · exact ⟨rfl, rfl, List.prefix_rfl, Nat.le_refl _, fun h => h⟩
        · exact ⟨rfl, rfl, List.prefix_append _ _, Nat.le_refl _, fun h => h⟩
  | resize size =>
      rw [step] at hstep
      split at hstep
      · cases hstep
      · dsimp only at hstep
        split at hstep <;> cases hstep <;>
          exact ⟨rfl, rfl, List.prefix_append _ _, Nat.le_refl _, fun h => h⟩
  | kill =>
      rw [step] at hstep
      split at hstep
      · cases hstep
      · dsimp only at hstep
        split at hstep <;> cases hstep
        · exact ⟨rfl, rfl, List.prefix_append _ _, Nat.le_refl _, fun h => h⟩
        · exact ⟨rfl, rfl, List.prefix_append _ _, Nat.le_succ _, fun h => h⟩

/-- A kill does not get lost while the loop runs. -/
theorem kills_pos (hkills : s.result = none → 0 < s.kills) (hstep : step id s e = some s')
    (hrunning : s'.result = none) : 0 < s'.kills := by
  by_cases htake : e.IsTake
  · obtain ⟨hresult, hended | ⟨-, hkept, -⟩⟩ := take_cases htake hstep
    · rw [hrunning] at hended
      cases hended
    · rw [hkept]
      exact hkills hresult
  · obtain ⟨hresult, -, -, hle, -⟩ := call_cases htake hstep
    exact Nat.lt_of_lt_of_le (hkills (hresult ▸ hrunning)) hle

theorem exists_takeKill (hrunning : s.result = none) (hkills : 0 < s.kills) :
    ∃ s', step id s (.takeKill (.ok ())) = some s' := by
  obtain ⟨k, hk⟩ := Nat.exists_eq_add_of_lt hkills
  rw [Nat.zero_add] at hk
  rw [step, hrunning, hk]
  exact ⟨_, rfl⟩

end Take

/-! ## What is kept -/

/-- The condition on a step: no channel loses its last sender while the loop runs, and the connection
takes the requests. -/
def Attached (s : Outgoing) : OutgoingEvent → Prop
  | .dropStdin => s.result.isSome = true
  | .dropProcess => s.result.isSome = true
  | .takeStdin fired => fired = .ok ()
  | .takeResize fired => fired = .ok ()
  | .takeKill fired => fired = .ok ()
  | _ => True

/-- The loop goes on, and whatever was asked for was forwarded in order or waits. -/
structure Running (s : Outgoing) : Prop where
  result : s.result = none
  stdinOpen : s.stdinOpen = true
  processOpen : s.processOpen = true
  stdin : s.asked.filterMap Request.stdinOf = s.fired.filterMap Request.stdinOf ++ s.stdin
  resizes : s.asked.filterMap Request.resizeOf = s.fired.filterMap Request.resizeOf ++ s.resizes
  kills : 0 < s.kills ↔ .procKill id ∈ s.asked ∨ s.concluded = true
  fired : .procKill id ∉ s.fired

/-- A kill was forwarded, as the last request; what was forwarded before was in order. -/
structure Killed (s : Outgoing) : Prop where
  result : s.result = some (.ok ())
  stdin : s.fired.filterMap Request.stdinOf <+: s.asked.filterMap Request.stdinOf
  resizes : s.fired.filterMap Request.resizeOf <+: s.asked.filterMap Request.resizeOf
  kill : .procKill id ∈ s.asked ∨ s.concluded = true
  fired : ∃ before, s.fired = before ++ [.procKill id] ∧ .procKill id ∉ before

section Step

variable {id} {s s' : Outgoing} {e : OutgoingEvent}

theorem running_new : Running id new where
  result := rfl
  stdinOpen := rfl
  processOpen := rfl
  stdin := rfl
  resizes := rfl
  kills := by simp [new]
  fired := nofun

/-- What is asked for after the end is not forwarded, and nothing else happens. -/
theorem step_ended (hended : s.result.isSome = true) (hstep : step id s e = some s') :
    s'.result = s.result ∧ s'.fired = s.fired ∧ s.asked <+: s'.asked ∧
      (s.concluded = true → s'.concluded = true) := by
  have hcall : ¬ e.IsTake := by
    intro htake
    rw [running_of_take htake hstep] at hended
    cases hended
  obtain ⟨hresult, hfired, hasked, -, hconcluded⟩ := call_cases hcall hstep
  exact ⟨hresult, hfired, hasked, hconcluded⟩

theorem Killed.step (h : Killed id s) (hstep : Outgoing.step id s e = some s') : Killed id s' := by
  have hended : s.result.isSome = true := by rw [h.result]; rfl
  obtain ⟨hresult, hfired, hasked, hconcluded⟩ := step_ended hended hstep
  refine ⟨hresult.trans h.result, ?_, ?_, ?_, ?_⟩
  · rw [hfired]
    exact h.stdin.trans (hasked.filterMap _)
  · rw [hfired]
    exact h.resizes.trans (hasked.filterMap _)
  · exact h.kill.imp (fun hmem => hasked.subset hmem) hconcluded
  · rw [hfired]
    exact h.fired

theorem Running.turn (h : Running id s) (hturn : e.IsTurn) (hstep : Outgoing.step id s e = some s') :
    (Running id s' ∧ s'.asked = s.asked ∧ s'.kills = s.kills ∧
      s'.stdin.length + s'.resizes.length < s.stdin.length + s.resizes.length) ∨
    (Killed id s' ∧ 0 < s.kills) := by
  obtain ⟨stdin, resizes, kills, stdinOpen, processOpen, concluded, result, fired, asked⟩ := s
  obtain ⟨rfl, rfl, rfl, hstdin, hresizes, hkills, hfired⟩ := h
  rcases hturn with rfl | rfl | rfl
  · cases stdin with
    | nil => cases hstep
    | cons data stdin =>
        cases hstep
        refine .inl ⟨⟨rfl, rfl, rfl, ?_, ?_, hkills, ?_⟩, rfl, rfl, ?_⟩
        · simpa [List.filterMap_cons, Request.stdinOf, fire] using hstdin
        · simpa [List.filterMap_cons, Request.resizeOf, fire] using hresizes
        · simpa [fire] using hfired
        · simp [fire]
  · cases resizes with
    | nil => cases hstep
    | cons size resizes =>
        cases hstep
        refine .inl ⟨⟨rfl, rfl, rfl, ?_, ?_, hkills, ?_⟩, rfl, rfl, ?_⟩
        · simpa [List.filterMap_cons, Request.stdinOf, fire] using hstdin
        · simpa [List.filterMap_cons, Request.resizeOf, fire] using hresizes
        · simpa [fire] using hfired
        · simp [fire]
  · cases kills with
    | zero => cases hstep
    | succ kills =>
        cases hstep
        refine .inr ⟨⟨rfl, ?_, ?_, hkills.mp (Nat.succ_pos _), fired, rfl, hfired⟩, Nat.succ_pos _⟩
        · exact ⟨stdin, by simpa [List.filterMap_cons, Request.stdinOf, fire] using hstdin.symm⟩
        · exact ⟨resizes, by simpa [List.filterMap_cons, Request.resizeOf, fire] using hresizes.symm⟩

theorem Running.step (h : Running id s) (hattached : Attached s e)
    (hstep : Outgoing.step id s e = some s') : Running id s' ∨ Killed id s' := by
  cases e with
  | takeStdin fired =>
      cases hattached
      exact (h.turn (.inl rfl) hstep).imp And.left And.left
  | takeResize fired =>
      cases hattached
      exact (h.turn (.inr (.inl rfl)) hstep).imp And.left And.left
  | takeKill fired =>
      cases hattached
      exact (h.turn (.inr (.inr rfl)) hstep).imp And.left And.left
  | dropStdin =>
      have hended : s.result.isSome = true := hattached
      rw [h.result] at hended
      cases hended
  | dropProcess =>
      have hended : s.result.isSome = true := hattached
      rw [h.result] at hended
      cases hended
  | write data =>
      obtain ⟨stdin, resizes, kills, stdinOpen, processOpen, concluded, result, fired, asked⟩ := s
      obtain ⟨rfl, rfl, rfl, hstdin, hresizes, hkills, hfired⟩ := h
      cases hstep
      refine .inl ⟨rfl, rfl, rfl, ?_, ?_, ?_, hfired⟩
      · simp [Request.stdinOf, hstdin]
      · simp [List.filterMap_cons, Request.resizeOf, hresizes]
      · simpa using hkills
  | resize size =>
      obtain ⟨stdin, resizes, kills, stdinOpen, processOpen, concluded, result, fired, asked⟩ := s
      obtain ⟨rfl, rfl, rfl, hstdin, hresizes, hkills, hfired⟩ := h
      cases hstep
      refine .inl ⟨rfl, rfl, rfl, ?_, ?_, ?_, hfired⟩
      · simp [List.filterMap_cons, Request.stdinOf, hstdin]
      · simp [Request.resizeOf, hresizes]
      · simpa using hkills
  | kill =>
      obtain ⟨stdin, resizes, kills, stdinOpen, processOpen, concluded, result, fired, asked⟩ := s
      obtain ⟨rfl, rfl, rfl, hstdin, hresizes, hkills, hfired⟩ := h
      cases hstep
      refine .inl ⟨rfl, rfl, rfl, ?_, ?_, ?_, hfired⟩
      · simp [List.filterMap_cons, Request.stdinOf, hstdin]
      · simp [List.filterMap_cons, Request.resizeOf, hresizes]
      · simp
  | conclude =>
      cases hstep
      refine .inl ⟨h.result, h.stdinOpen, h.processOpen, h.stdin, h.resizes, ?_, h.fired⟩
      exact ⟨fun _ => .inr rfl, fun _ => Nat.lt_of_lt_of_le Nat.one_pos (Nat.le_max_left 1 s.kills)⟩

/-- Once there is a kill, a request for it is fired, however often the loop takes from the other
channels before. -/
theorem Running.killed (h : Running id s) (hkills : 0 < s.kills) :
    Machine.Inevitable (Outgoing.step id) OutgoingEvent.IsTurn (Killed id) s := by
  refine Machine.inevitable_of_rank (I := fun s => Running id s ∧ 0 < s.kills)
    (fun s => s.stdin.length + s.resizes.length) ?_ ?_ ⟨h, hkills⟩
  · rintro s ⟨h, hkills⟩ -
    obtain ⟨s', hs'⟩ : ∃ s', Outgoing.step id s (.takeKill (.ok ())) = some s' :=
      exists_takeKill h.result hkills
    exact ⟨.takeKill (.ok ()), s', .inr (.inr rfl), hs'⟩
  · rintro s e s' ⟨h, hkills⟩ - hturn hstep
    rcases h.turn hturn hstep with ⟨h', -, hkept, hlt⟩ | ⟨h', -⟩
    · exact .inr ⟨⟨h', hkept ▸ hkills⟩, hlt⟩
    · exact .inl h'

/-- All that was asked for is forwarded, if there is no kill. -/
theorem Running.forwarded (h : Running id s) (hkills : s.kills = 0) :
    Machine.Inevitable (Outgoing.step id) OutgoingEvent.IsTurn (fun s' => Running id s' ∧
      s'.fired.filterMap Request.stdinOf = s.asked.filterMap Request.stdinOf ∧
      s'.fired.filterMap Request.resizeOf = s.asked.filterMap Request.resizeOf) s := by
  refine Machine.inevitable_of_rank
    (I := fun s' => Running id s' ∧ s'.kills = 0 ∧ s'.asked = s.asked)
    (fun s => s.stdin.length + s.resizes.length) ?_ ?_ ⟨h, hkills, rfl⟩
  · rintro s' ⟨h', -, hasked⟩ hnot
    cases hstdin : s'.stdin with
    | cons data stdin =>
        refine ⟨.takeStdin (.ok ()), { s' with stdin := stdin }.fire (.procStdin id data) none
          (.ok ()), .inl rfl, ?_⟩
        simp only [Outgoing.step, h'.result, hstdin]
    | nil =>
        cases hresizes : s'.resizes with
        | cons size resizes =>
            refine ⟨.takeResize (.ok ()), { s' with resizes := resizes }.fire
              (.procResizePty id size) none (.ok ()), .inr (.inl rfl), ?_⟩
            simp only [Outgoing.step, h'.result, hresizes]
        | nil =>
            refine absurd ⟨h', ?_, ?_⟩ hnot
            · rw [← hasked, h'.stdin, hstdin, List.append_nil]
            · rw [← hasked, h'.resizes, hresizes, List.append_nil]
  · rintro s₁ e s' ⟨h', hnone, hasked⟩ - hturn hstep
    rcases h'.turn hturn hstep with ⟨h'', hsame, hkept, hlt⟩ | ⟨-, hpos⟩
    · exact .inr ⟨⟨h'', hkept.trans hnone, hsame.trans hasked⟩, hlt⟩
    · omega

/-- After the end of the loop nothing is forwarded. -/
theorem fired_of_run {es : List OutgoingEvent} (hended : s.result.isSome = true)
    (hrun : Machine.run (Outgoing.step id) es s = some s') : s'.fired = s.fired := by
  have hall : Machine.Meeting (Outgoing.step id) (fun _ _ => True) es s :=
    Machine.meeting_of_always (fun _ _ _ => trivial) s
  have h := Machine.invariant (I := fun s' => s'.result = s.result ∧ s'.fired = s.fired) ?_
    ⟨rfl, rfl⟩ hall hrun
  · exact h.2
  · rintro s₁ e s₂ ⟨hresult, hfired⟩ - hstep
    obtain ⟨hresult', hfired', -⟩ := step_ended (hresult ▸ hended) hstep
    exact ⟨hresult'.trans hresult, hfired'.trans hfired⟩

end Step

/-- As long as the callers keep their handles and the connection stays, the loop ends with a kill
only. Until then nothing of what was asked for is lost: without a kill all of it is forwarded in
order, and a kill is forwarded as well, as the last request. -/
theorem forwards_of_run {es : List OutgoingEvent} {s : Outgoing}
    (hattached : Machine.Meeting (step id) Attached es new)
    (hrun : Machine.run (step id) es new = some s) :
    (Running id s ∧
      (0 < s.kills → Machine.Inevitable (step id) OutgoingEvent.IsTurn (Killed id) s) ∧
      (s.kills = 0 → Machine.Inevitable (step id) OutgoingEvent.IsTurn (fun s' => Running id s' ∧
        s'.fired.filterMap Request.stdinOf = s.asked.filterMap Request.stdinOf ∧
        s'.fired.filterMap Request.resizeOf = s.asked.filterMap Request.resizeOf) s)) ∨
    Killed id s := by
  have hkept := Machine.invariant (I := fun s => Running id s ∨ Killed id s)
    (fun s e s' h hC hstep => h.elim (fun h => h.step hC hstep) fun h => .inr (h.step hstep))
    (.inl running_new) hattached hrun
  exact hkept.imp (fun h => ⟨h, h.killed, h.forwarded⟩) fun h => h

/-- Data, a resize and a kill, and the loop takes the data first. -/
def writesAndKills : List OutgoingEvent :=
  [.write [1], .resize ⟨24, 80, 0, 0⟩, .takeStdin (.ok ()), .kill]

theorem forwards_writesAndKills : ∃ s, Machine.run (step 1) writesAndKills new = some s ∧
    s.fired = [.procStdin 1 [1]] ∧
    Machine.Inevitable (step 1) OutgoingEvent.IsTurn (Killed 1) s := by
  refine ⟨_, rfl, rfl, ?_⟩
  have hattached : Machine.Meeting (step 1) Attached writesAndKills new :=
    .cons trivial rfl (.cons trivial rfl (.cons rfl rfl (.cons trivial rfl trivial)))
  rcases forwards_of_run 1 hattached rfl with ⟨-, hkilled, -⟩ | h
  · exact hkilled (Nat.succ_pos 0)
  · exact .now h

/-- The handle to stdin is dropped, and the process is to be resized and killed afterwards. -/
def dropsStdin : List OutgoingEvent :=
  [.dropStdin, .takeStdin (.ok ()), .resize ⟨24, 80, 0, 0⟩, .kill]

/-- A kill is taken before what was written, and before a resize. -/
def killsFirst : List OutgoingEvent :=
  [.write [1], .resize ⟨24, 80, 0, 0⟩, .kill, .takeKill (.ok ())]

theorem not_forwards :
    (∃ s, Machine.run (step 1) dropsStdin new = some s ∧
      s.asked = [.procResizePty 1 ⟨24, 80, 0, 0⟩, .procKill 1] ∧ s.concluded = false ∧
      ∀ es s', Machine.run (step 1) es s = some s' → s'.fired = []) ∧
    (∃ s, Machine.run (step 1) killsFirst new = some s ∧
      s.asked = [.procStdin 1 [1], .procResizePty 1 ⟨24, 80, 0, 0⟩, .procKill 1] ∧
      s.concluded = false ∧
      ∀ es s', Machine.run (step 1) es s = some s' → s'.fired = [.procKill 1]) :=
  ⟨⟨_, rfl, rfl, rfl, fun _ _ hrun => fired_of_run rfl hrun⟩,
    ⟨_, rfl, rfl, rfl, fun _ _ hrun => fired_of_run rfl hrun⟩⟩

end Outgoing

end Distant
