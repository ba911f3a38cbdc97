import Mathlib.Algebra.GroupWithZero.Nat
import Distant.Host.Tunnel

/-!
# The bytes of a tunnel

What becomes of the data that a write to one connection was accepted with. The task of the
connection relays what the remote side sends, and a task of its own writes to the socket; when one of
the two ends, so does the connection, and if it is the reading side the other task is aborted.
`written_iff` says that all data is written, unless the socket fails, in the runs in which nothing is
left to write when the task that was aborted is cancelled.
-/

namespace Distant

/-- The task that writes to the socket. -/
inductive WriteTask where
  /-- waits for the next chunk -/
  | receiving
  /-- in `write_all`, with what is left of the chunk -/
  | writing (rest : Bytes)
  /-- is done, or was cancelled, and has dropped the receiver of the channel -/
  | ended
  deriving DecidableEq, Repr

/-- One connection of a host, and the entry that the actor has for it. -/
structure Relay where
  /-- the entry with the sender of the channel is in the table -/
  entry : Bool
  channel : List Bytes
  writeTask : WriteTask
  /-- the task that writes was aborted, which takes effect when it next yields -/
  aborted : Bool
  /-- `connection_task` is in its `select` -/
  reading : Bool
  /-- what was written to the socket -/
  stream : Bytes
  /-- a write to the socket has failed -/
  failed : Bool
  /-- what was sent to the client -/
  relayed : List Bytes
  /-- the data of all writes that were answered with `Ok` -/
  accepted : List Bytes

inductive RelayEvent where
  /-- the actor deals with a write -/
  | write (data : Bytes)
  /-- the actor closes the tunnel -/
  | close
  /-- the remote side has sent something, and it is sent on if the client is there -/
  | read (data : Bytes) (sent : Bool)
  /-- the end of the stream, or an error -/
  | readEnd
  /-- the task takes a chunk, or sees that the channel is closed -/
  | receive
  /-- the socket takes some bytes -/
  | put (n : Nat)
  /-- all of the chunk was written -/
  | written
  /-- the socket takes no more -/
  | fail
  /-- the task that was aborted yields -/
  | cancel
  /-- `select` sees that the task has ended -/
  | finish
  /-- the actor was told that the connection has ended -/
  | internalRemove
  deriving DecidableEq, Repr

/-- The task that writes goes on. -/
def RelayEvent.IsTurn : RelayEvent → Prop
  | .receive => True
  | .put _ => True
  | .written => True
  | _ => False

namespace Relay

def new : Relay := ⟨true, [], .receiving, false, true, [], false, [], []⟩

/-- The reading side ends first. -/
def abort (s : Relay) : Relay := { s with reading := false, aborted := true }

def step (s : Relay) : RelayEvent → Option Relay
  | .write data =>
    -- refused without an entry, and if the channel is full or closed
    if s.entry ∧ s.channel.length < WRITE_CAPACITY ∧ s.writeTask ≠ .ended then
      some { s with channel := s.channel ++ [data], accepted := s.accepted ++ [data] }
    else some s
  | .close => some { s with entry := false }
  | .read data sent =>
    if ¬ s.reading then none
    else if sent then some { s with relayed := s.relayed ++ [data] }
    else some s.abort
  | .readEnd => if s.reading then some s.abort else none
  | .receive =>
    match s.writeTask, s.channel with
    | .receiving, data :: channel => some { s with channel := channel, writeTask := .writing data }
    | .receiving, [] => if s.entry then none else some { s with writeTask := .ended }
    | _, _ => none
  | .put n =>
    match s.writeTask with
    | .writing rest =>
      if 0 < n ∧ n ≤ rest.length then
        some { s with stream := s.stream ++ rest.take n, writeTask := .writing (rest.drop n) }
      else none
    | _ => none
  | .written => if s.writeTask = .writing [] then some { s with writeTask := .receiving } else none
  | .fail =>
    match s.writeTask with
    | .writing (_ :: _) => some { s with failed := true, writeTask := .ended }
    | _ => none
  | .cancel =>
    if s.aborted ∧ s.writeTask ≠ .ended then some { s with writeTask := .ended } else none
  | .finish =>
    if s.reading ∧ s.writeTask = .ended then some { s with reading := false } else none
  | .internalRemove => if s.reading then none else some { s with entry := false }

/-! ## What is claimed, and under which condition -/

/-- Nothing but what was accepted is written, in its order, and as long as the task that writes goes
on all of it will be, unless the socket has failed. -/
structure Written (s : Relay) : Prop where
  inOrder : s.stream <+: s.accepted.flatten
  whole : s.failed = true ∨
    Machine.Inevitable step RelayEvent.IsTurn (fun s' => s'.stream = s.accepted.flatten) s

/-- What was accepted and is not written yet. -/
def unwritten (s : Relay) : Bytes :=
  match s.writeTask with
  | .writing rest => rest ++ s.channel.flatten
  | _ => s.channel.flatten

/-- The condition on a step: a task is not cancelled as long as there is something to write. -/
def Harmless (s : Relay) : RelayEvent → Prop
  | .cancel => s.unwritten = []
  | _ => True

/-- Each byte that was accepted was written or is yet to be, and who has ended has nothing left. -/
structure Kept (s : Relay) : Prop where
  inOrder : s.stream <+: s.accepted.flatten
  all : s.failed = false → s.stream ++ s.unwritten = s.accepted.flatten
  done : s.failed = false → s.writeTask = .ended → s.unwritten = []
  ended : s.failed = true → s.writeTask = .ended

section

variable {s s' : Relay} {e : RelayEvent}

theorem kept_new : Kept new where
  inOrder := List.prefix_rfl
  all _ := rfl
  done _ _ := rfl
  ended := nofun

/-- A step that changes neither what was accepted nor what there is to write. -/
theorem Kept.of_same (h : Kept s) (hchannel : s'.channel = s.channel)
    (htask : s'.writeTask = s.writeTask) (hstream : s'.stream = s.stream)
    (hfailed : s'.failed = s.failed) (haccepted : s'.accepted = s.accepted) : Kept s' := by
  have hunwritten : s'.unwritten = s.unwritten := by rw [unwritten, unwritten, htask, hchannel]
  constructor
  · rw [hstream, haccepted]
    exact h.inOrder
  · rw [hfailed, hstream, hunwritten, haccepted]
    exact h.all
  · rw [hfailed, htask, hunwritten]
    exact h.done
  · rw [hfailed, htask]
    exact h.ended

theorem Kept.write {data : Bytes} (h : Kept s) (hstep : step s (.write data) = some s') :
    Kept s' := by
  rw [step] at hstep
  split at hstep
  · rename_i hopen
    cases hstep
    have hunwritten (accepted : List Bytes) :
        unwritten { s with channel := s.channel ++ [data], accepted := accepted }
          = s.unwritten ++ data := by
      unfold unwritten
      cases s.writeTask <;> simp
    have haccepted : (s.accepted ++ [data]).flatten = s.accepted.flatten ++ data := by simp
    refine ⟨?_, fun hfailed => ?_, fun _ hended => absurd hended hopen.2.2, h.ended⟩
    · exact haccepted ▸ h.inOrder.trans (List.prefix_append _ _)
    · rw [hunwritten, haccepted, ← h.all hfailed, List.append_assoc]
  · cases hstep
    exact h

/-- The task that writes goes on; what it writes moves from one side to the other. -/
theorem Kept.turn (h : Kept s) (hturn : e.IsTurn) (hstep : step s e = some s') :
    Kept s' ∧ s'.accepted = s.accepted ∧ s'.failed = s.failed := by
  obtain ⟨entry, channel, writeTask, aborted, reading, stream, failed, relayed, accepted⟩ := s
  obtain ⟨hinOrder, hall, hdone, hended⟩ := h
  dsimp only at hinOrder hall hdone hended
  cases e with
  | receive =>
      cases writeTask with
      | writing => cases hstep
      | ended => cases hstep
      | receiving =>
          cases channel with
          | nil =>
              cases entry <;> cases hstep
              exact ⟨⟨hinOrder, hall, fun _ _ => rfl, fun _ => rfl⟩, rfl, rfl⟩
          | cons data channel =>
              cases hstep
              exact ⟨⟨hinOrder, hall, nofun, fun hfailed => nomatch hended hfailed⟩, rfl, rfl⟩
  | put n =>
      cases writeTask with
      | receiving => cases hstep
      | ended => cases hstep
      | writing rest =>
          rw [step] at hstep
          dsimp only at hstep
          split at hstep
          · cases hstep
            have hfine : failed = false := by
              cases failed with
              | false => rfl
              | true => cases hended rfl
            have hmoved : stream ++ rest.take n ++ (rest.drop n ++ channel.flatten)
                = accepted.flatten := by
              rw [List.append_assoc, ← List.append_assoc (rest.take n), List.take_append_drop]
              exact hall hfine
            refine ⟨⟨⟨_, hmoved⟩, fun _ => hmoved, nofun, fun hfailed => nomatch hended hfailed⟩,
              rfl, rfl⟩
          · cases hstep
  | written =>
      rw [step] at hstep
      split at hstep
      · rename_i htask
        cases htask
        cases hstep
        exact ⟨⟨hinOrder, hall, nofun, fun hfailed => nomatch hended hfailed⟩, rfl, rfl⟩
      · cases hstep
  | write | close | read | readEnd | fail | cancel | finish | internalRemove => cases hturn

theorem Kept.step (h : Kept s) (hharmless : Harmless s e) (hstep : Relay.step s e = some s') :
    Kept s' := by
  cases e with
  | write data => exact h.write hstep
  | receive | put | written => exact (h.turn (by exact trivial) hstep).1
  | close =>
      cases hstep
      exact h.of_same rfl rfl rfl rfl rfl
  | read data sent =>
      rw [Relay.step] at hstep
      split at hstep
      · cases hstep
      · split at hstep <;> cases hstep <;> exact h.of_same rfl rfl rfl rfl rfl
  | readEnd =>
      rw [Relay.step] at hstep
      split at hstep <;> cases hstep
      exact h.of_same rfl rfl rfl rfl rfl
  | finish =>
      rw [Relay.step] at hstep
      split at hstep <;> cases hstep
      exact h.of_same rfl rfl rfl rfl rfl
  | internalRemove =>
      rw [Relay.step] at hstep
      split at hstep <;> cases hstep
      exact h.of_same rfl rfl rfl rfl rfl
  | fail =>
      rw [Relay.step] at hstep
      split at hstep <;> cases hstep
      exact ⟨h.inOrder, nofun, nofun, fun _ => rfl⟩
  | cancel =>
      rw [Relay.step] at hstep
      split at hstep
      · rename_i hrunning
        cases hstep
        have hnil : s.unwritten = [] := hharmless
        have hchannel : s.channel.flatten = [] := by
          unfold unwritten at hnil
          split at hnil
          · exact (List.append_eq_nil_iff.mp hnil).2
          · exact hnil
        refine ⟨h.inOrder, fun hfailed => ?_, fun _ _ => hchannel, fun _ => rfl⟩
        show s.stream ++ s.channel.flatten = _
        rw [hchannel, ← hnil]
        exact h.all hfailed
      · cases hstep

/-! ## Until all is written -/

/-- What the task that writes has yet to do. -/
def rest (s : Relay) : Nat :=
  (s.channel.map fun data => data.length + 2).sum +
  match s.writeTask with
  | .writing rest => rest.length + 1
  | _ => 0

theorem rest_turn (hwaits : s.writeTask = .receiving → s.channel ≠ []) (hturn : e.IsTurn)
    (hstep : Relay.step s e = some s') : s'.rest < s.rest := by
  obtain ⟨entry, channel, writeTask, aborted, reading, stream, failed, relayed, accepted⟩ := s
  cases e with
  | receive =>
      cases writeTask with
      | writing => cases hstep
      | ended => cases hstep
      | receiving =>
          cases channel with
          | nil => exact absurd rfl (hwaits rfl)
          | cons data channel =>
              cases hstep
              simp only [rest, List.map_cons, List.sum_cons]
              omega
  | put n =>
      cases writeTask with
      | receiving => cases hstep
      | ended => cases hstep
      | writing left =>
          rw [Relay.step] at hstep
          dsimp only at hstep
          split at hstep
          · cases hstep
            simp only [rest, List.length_drop]
            omega
          · cases hstep
  | written =>
      rw [Relay.step] at hstep
      split at hstep
      · rename_i htask
        cases htask
        cases hstep
        simp [rest]
      · cases hstep
  | write | close | read | readEnd | fail | cancel | finish | internalRemove => cases hturn

/-- As long as something is to be written, the task can go on. -/
theorem exists_turn (hrunning : s.writeTask ≠ .ended)
    (hwaits : s.writeTask = .receiving → s.channel ≠ []) :
    ∃ e s', RelayEvent.IsTurn e ∧ Relay.step s e = some s' := by
  obtain ⟨entry, channel, writeTask, aborted, reading, stream, failed, relayed, accepted⟩ := s
  cases writeTask with
  | ended => exact absurd rfl hrunning
  | receiving =>
      cases channel with
      | nil => exact absurd rfl (hwaits rfl)
      | cons data channel => exact ⟨.receive, _, trivial, rfl⟩
  | writing left =>
      cases left with
      | nil =>
          exact ⟨.written, ⟨entry, channel, .receiving, aborted, reading, stream, failed, relayed,
            accepted⟩, trivial, by simp [Relay.step]⟩
      | cons b left =>
          exact ⟨.put 1, ⟨entry, channel, .writing left, aborted, reading, stream ++ [b], failed,
            relayed, accepted⟩, trivial, by simp [Relay.step]⟩

theorem Kept.waits (h : Kept s) (hfailed : s.failed = false)
    (hnot : s.stream ≠ s.accepted.flatten) :
    s.writeTask ≠ .ended ∧ (s.writeTask = .receiving → s.channel ≠ []) := by
  have hne : s.unwritten ≠ [] := by
    intro hnil
    have hall := h.all hfailed
    rw [hnil, List.append_nil] at hall
    exact hnot hall
  refine ⟨fun hended => hne (h.done hfailed hended), fun hreceiving hchannel => hne ?_⟩
  rw [unwritten, hreceiving, hchannel]
  rfl

/-- All that was accepted is written if the task that writes goes on. -/
theorem Kept.written (h : Kept s) : Written s := by
  refine ⟨h.inOrder, ?_⟩
  cases hfailed : s.failed with
  | true => exact .inl rfl
  | false =>
      refine .inr (Machine.inevitable_of_rank
        (I := fun s' => Kept s' ∧ s'.failed = false ∧ s'.accepted = s.accepted) rest ?_ ?_
        ⟨h, hfailed, rfl⟩)
      · rintro s₁ ⟨h₁, hfine, hsame⟩ hnot
        obtain ⟨hrunning, hwaits⟩ := h₁.waits hfine (hsame ▸ hnot)
        exact exists_turn hrunning hwaits
      · rintro s₁ e s₂ ⟨h₁, hfine, hsame⟩ hnot hturn hstep
        obtain ⟨-, hwaits⟩ := h₁.waits hfine (hsame ▸ hnot)
        obtain ⟨h₂, haccepted, hfailed₂⟩ := h₁.turn hturn hstep
        exact .inr ⟨⟨h₂, hfailed₂.trans hfine, haccepted.trans hsame⟩, rest_turn hwaits hturn hstep⟩

/-- What was to be written when the task is cancelled is lost. -/
theorem Kept.cancel_loses (h : Kept s) (hleft : s.unwritten ≠ [])
    (hstep : Relay.step s .cancel = some s') : ¬ Written s' := by
  intro hwritten
  rw [Relay.step] at hstep
  split at hstep
  · rename_i hrunning
    cases hstep
    have hfailed : s.failed = false := by
      cases hfailed : s.failed with
      | false => rfl
      | true => exact absurd (h.ended hfailed) hrunning.2
    have hall := h.all hfailed
    rcases hwritten.whole with hfailed' | hinevitable
    · rw [hfailed] at hfailed'
      cases hfailed'
    · refine Machine.not_inevitable
        (I := fun s' : Relay => s'.writeTask = .ended ∧ s'.stream ≠ s.accepted.flatten)
        (fun s' h' => h'.2) ?_ ⟨rfl, ?_⟩ hinevitable
      · rintro s₁ e s₂ ⟨hended, -⟩ hturn hstep
        cases e with
        | receive | put | written => simp [Relay.step, hended] at hstep
        | write | close | read | readEnd | fail | cancel | finish | internalRemove => cases hturn
      · intro hstream
        rw [← hall] at hstream
        exact hleft (List.append_right_eq_self.mp hstream.symm)
  · cases hstep

end

/-- In every state of a run, what was accepted is written in order and the rest of it will be, or the
socket has failed, exactly if nothing is to be written whenever the task that writes is cancelled. -/
theorem written_iff {es : List RelayEvent} {s : Relay} (hrun : Machine.run step es new = some s) :
    (∀ es₁ s₁, es₁ <+: es → Machine.run step es₁ new = some s₁ → Written s₁) ↔
      Machine.Meeting step Harmless es new := by
  refine Machine.always_iff (I := Kept) (fun s e s' h hharmless hstep => h.step hharmless hstep)
    (fun s h => h.written) ?_ kept_new hrun
  intro s e s' h hharmful hstep
  cases e with
  | cancel => exact h.cancel_loses hharmful hstep
  | write | close | read | readEnd | receive | put | written | fail | finish | internalRemove =>
      exact absurd trivial hharmful

/-- The remote side ends its stream when all that was accepted is written. -/
def writesThenEnds : List RelayEvent :=
  [.write [1, 2], .receive, .put 1, .put 1, .written, .readEnd, .cancel, .internalRemove]

theorem written_writesThenEnds : ∃ s, Machine.run step writesThenEnds new = some s ∧ Written s := by
  have hmeeting : Machine.Meeting step Harmless writesThenEnds new :=
    .cons trivial rfl (.cons trivial rfl (.cons trivial rfl (.cons trivial rfl (.cons trivial rfl
      (.cons trivial rfl (.cons rfl rfl (.cons trivial rfl trivial)))))))
  exact ⟨_, rfl, (written_iff rfl).mpr hmeeting writesThenEnds _ List.prefix_rfl rfl⟩

/-- The remote side ends its stream, which it can still read from, with a chunk in the channel. -/
def endsWhileQueued : List RelayEvent := [.write [1, 2], .readEnd, .cancel]

theorem not_written : ∃ s, Machine.run step endsWhileQueued new = some s ∧ s.accepted = [[1, 2]] ∧
    s.failed = false ∧ s.entry = true ∧ s.stream = [] ∧ ¬ Written s := by
  refine ⟨_, rfl, rfl, rfl, rfl, rfl, ?_⟩
  have hbefore : Kept ⟨true, [[1, 2]], .receiving, true, false, [], false, [], [[1, 2]]⟩ :=
    ⟨List.nil_prefix, fun _ => rfl, nofun, nofun⟩
  exact hbefore.cancel_loses (by decide) rfl

end Relay

end Distant
