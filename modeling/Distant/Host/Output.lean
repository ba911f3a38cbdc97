import Mathlib.Logic.Function.Basic
import Distant.Lib.Machine

/-!
# The output of a process on the host

Without a pty, a task reads each output pipe of a process, chunk by chunk with a pause after each,
and passes the chunks to a task that puts them into the reply. When the process has exited, the task
that waits for it aborts the two readers, waits until the other two tasks have forwarded what is in
their channels, and puts `ProcDone` into the reply.

So what a reader has not passed on when it is cancelled is lost. `complete_of_run` says that nothing
is in all runs in which a cancelled reader has nothing in its hands and nothing left in its pipe.
-/

namespace Distant

def MAX_PIPE_CHUNK_SIZE : Nat := 16384

inductive OutputKind where
  | stdout
  | stderr
  deriving DecidableEq, Repr

structure ExitStatus where
  success : Bool
  code : Option Int
  deriving DecidableEq, Repr

/-- What is put into the reply, without the id of the process. -/
inductive OutputResponse where
  | proc (kind : OutputKind) (data : List UInt8)
  | procDone (success : Bool) (code : Option Int)
  deriving DecidableEq, Repr

/-- Where `read_handler` is. -/
inductive ReadPhase where
  | reading
  /-- waiting for room in the channel -/
  | sending (data : List UInt8)
  | pausing
  | ended
  deriving DecidableEq, Repr

/-- One of the outputs, with its reader, its forwarder and the channel between the two. -/
structure OutputStream where
  /-- all that the process has written -/
  written : List UInt8
  pipe : List UInt8
  reader : ReadPhase
  channel : List (List UInt8)
  /-- the forwarder is still running -/
  forwarding : Bool
  deriving DecidableEq, Repr

/-- Where `wait_task` is. -/
inductive WaitPhase where
  | waiting
  | draining (status : ExitStatus)
  | done
  deriving DecidableEq, Repr

structure ProcessOutput where
  streams : OutputKind → OutputStream
  exited : Option ExitStatus
  wait : WaitPhase
  reply : List OutputResponse
  /-- nobody takes from the reply any more -/
  closed : Bool

inductive OutputEvent where
  | write (kind : OutputKind) (data : List UInt8)
  | exit (status : ExitStatus)
  | read (kind : OutputKind) (n : Nat)
  /-- the pipe would block -/
  | block (kind : OutputKind)
  | eof (kind : OutputKind)
  | send (kind : OutputKind)
  /-- the other end of the channel is gone -/
  | broken (kind : OutputKind)
  | resume (kind : OutputKind)
  | forward (kind : OutputKind)
  /-- the forwarder finds its channel closed -/
  | finish (kind : OutputKind)
  /-- the exit status is there, and the readers are aborted -/
  | abort
  /-- an aborted reader is gone -/
  | cancel (kind : OutputKind)
  /-- both forwarders are done -/
  | done
  | close
  deriving DecidableEq, Repr

namespace ReadPhase

/-- What the reader has read and not passed on. -/
def hand : ReadPhase → List UInt8
  | sending data => data
  | _ => []

end ReadPhase

namespace ProcessOutput

def new : ProcessOutput where
  streams := fun _ =>
    { written := [], pipe := [], reader := .reading, channel := [], forwarding := true }
  exited := none
  wait := .waiting
  reply := []
  closed := false

def set (s : ProcessOutput) (kind : OutputKind) (stream : OutputStream) : ProcessOutput :=
  { s with streams := Function.update s.streams kind stream }

/-- The status that `SimpleProcess::wait` makes of what the process exited with. -/
def status (status : ExitStatus) : ExitStatus :=
  if status.success = true ∧ status.code = none then { status with code := some 0 } else status

/-- The channel to a forwarder has room for one chunk. -/
def step (s : ProcessOutput) : OutputEvent → Option ProcessOutput
  | .write kind data =>
    let stream := s.streams kind
    if s.exited = none then
      some (s.set kind { stream with
        written := stream.written ++ data
        pipe := stream.pipe ++ data })
    else none
  | .exit status => if s.exited = none then some { s with exited := some status } else none
  | .read kind n =>
    let stream := s.streams kind
    if stream.reader = .reading ∧ 0 < n ∧ n ≤ MAX_PIPE_CHUNK_SIZE ∧ n ≤ stream.pipe.length then
      some (s.set kind { stream with
        pipe := stream.pipe.drop n
        reader := .sending (stream.pipe.take n) })
    else none
  | .block kind =>
    let stream := s.streams kind
    if stream.reader = .reading ∧ stream.pipe = [] then
      some (s.set kind { stream with reader := .pausing })
    else none
  | .eof kind =>
    let stream := s.streams kind
    if stream.reader = .reading ∧ stream.pipe = [] ∧ s.exited ≠ none then
      some (s.set kind { stream with reader := .ended })
    else none
  | .send kind =>
    let stream := s.streams kind
    match stream.reader with
    | .sending data =>
      if stream.channel = [] ∧ stream.forwarding = true then
        some (s.set kind { stream with reader := .pausing, channel := [data] })
      else none
    | _ => none
  | .broken kind =>
    let stream := s.streams kind
    match stream.reader with
    | .sending _ =>
      if stream.forwarding = false then some (s.set kind { stream with reader := .ended })
      else none
    | _ => none
  | .resume kind =>
    let stream := s.streams kind
    if stream.reader = .pausing then some (s.set kind { stream with reader := .reading })
    else none
  | .forward kind =>
    let stream := s.streams kind
    match stream.channel with
    | [] => none
    | data :: channel =>
      if stream.forwarding = false then none
      else if s.closed = true then
        some (s.set kind { stream with channel := channel, forwarding := false })
      else
        some { s.set kind { stream with channel := channel } with
          reply := s.reply ++ [.proc kind data] }
  | .finish kind =>
    let stream := s.streams kind
    if stream.forwarding = true ∧ stream.channel = [] ∧ stream.reader = .ended then
      some (s.set kind { stream with forwarding := false })
    else none
  | .abort =>
    match s.wait, s.exited with
    | .waiting, some status => some { s with wait := .draining (ProcessOutput.status status) }
    | _, _ => none
  | .cancel kind =>
    let stream := s.streams kind
    if s.wait ≠ .waiting ∧ stream.reader ≠ .ended then
      some (s.set kind { stream with reader := .ended })
    else none
  | .done =>
    match s.wait with
    | .draining status =>
      if (s.streams .stdout).forwarding = true ∨ (s.streams .stderr).forwarding = true then none
      else if s.closed = true then some { s with wait := .done }
      else
        some { s with
          wait := .done
          reply := s.reply ++ [.procDone status.success status.code] }
    | _ => none
  | .close => some { s with closed := true }

/-- The bytes of an output in a reply. -/
def received (kind : OutputKind) (reply : List OutputResponse) : List UInt8 :=
  reply.flatMap fun
    | .proc kind' data => if kind' = kind then data else []
    | .procDone .. => []

/-- All that the process has written is in the reply before `ProcDone`. -/
def Complete (s : ProcessOutput) : Prop :=
  ∀ earlier success code later, s.reply = earlier ++ .procDone success code :: later →
    ∀ kind, received kind earlier = (s.streams kind).written

/-- A reader that is cancelled has nothing in its hands, and there is nothing in its pipe. -/
def Meets (s : ProcessOutput) : OutputEvent → Prop
  | .cancel kind => (s.streams kind).reader.hand = [] ∧ (s.streams kind).pipe = []
  | _ => True

/-- The bytes of an output are in the reply, in the channel, with the reader and in the pipe, in this
order; and a task that has ended has left nothing behind. -/
structure Flow (stream : OutputStream) (bytes : List UInt8) (exited : Prop) : Prop where
  written : bytes ++ (stream.channel.flatten ++ (stream.reader.hand ++ stream.pipe)) =
    stream.written
  ended : stream.reader = .ended → stream.pipe = [] ∧ exited
  finished : stream.forwarding = false → stream.channel = [] ∧ stream.reader = .ended

structure Inv (s : ProcessOutput) : Prop where
  flow : s.closed = false → ∀ kind, Flow (s.streams kind) (received kind s.reply) (s.exited ≠ none)
  exited : s.wait ≠ .waiting → s.exited ≠ none
  pending : s.wait ≠ .done → ∀ success code, .procDone success code ∉ s.reply
  finished : s.wait = .done → ∀ kind, (s.streams kind).forwarding = false
  complete : s.Complete

variable {s s' : ProcessOutput} {stream : OutputStream} {kind : OutputKind}

theorem inv_new : new.Inv where
  flow := fun _ kind => ⟨rfl, fun h => (by cases h), fun h => (by cases h)⟩
  exited := fun h => absurd rfl h
  pending := fun _ _ _ h => (by cases h)
  finished := fun h => (by cases h)
  complete := fun earlier _ _ _ h => (by cases earlier <;> cases h)

theorem streams_set (k : OutputKind) :
    (s.set kind stream).streams k = if k = kind then stream else s.streams k :=
  Function.update_apply ..

/-- One of the streams changes, and nothing else. -/
theorem Inv.set (h : s.Inv)
    (hflow : s.closed = false → Flow stream (received kind s.reply) (s.exited ≠ none))
    (hforwarding : (s.streams kind).forwarding = false → stream.forwarding = false)
    (hwritten : s.wait = .done → stream.written = (s.streams kind).written) :
    (s.set kind stream).Inv where
  flow := by
    intro hclosed k
    rw [streams_set]
    split
    · next hk =>
        subst hk
        exact hflow hclosed
    · exact h.flow hclosed k
  exited := h.exited
  pending := h.pending
  finished := by
    intro hdone k
    rw [streams_set]
    split
    · exact hforwarding (h.finished hdone kind)
    · exact h.finished hdone k
  complete := by
    intro earlier success code later hreply k
    have hdone : s.wait = .done := by
      by_contra hwait
      have hmem : OutputResponse.procDone success code ∈ s.reply :=
        hreply ▸ List.mem_append_right _ List.mem_cons_self
      exact h.pending hwait success code hmem
    rw [h.complete earlier success code later hreply k, streams_set]
    split
    · next hk => rw [hwritten hdone, hk]
    · rfl

theorem received_append (kind : OutputKind) (reply reply' : List OutputResponse) :
    received kind (reply ++ reply') = received kind reply ++ received kind reply' :=
  List.flatMap_append

theorem complete_of_open (hopen : ∀ success code, .procDone success code ∉ s.reply) : s.Complete := by
  intro earlier success code later hreply
  refine absurd ?_ (hopen success code)
  rw [hreply]
  exact List.mem_append_right _ List.mem_cons_self

/-- A forwarder passes a chunk on. -/
theorem Inv.forward_step (h : s.Inv) {data : List UInt8} {channel : List (List UInt8)}
    (hchannel : (s.streams kind).channel = data :: channel)
    (hforwarding : ¬ (s.streams kind).forwarding = false) :
    Inv { s.set kind { s.streams kind with channel := channel } with
      reply := s.reply ++ [.proc kind data] } := by
  have hwaiting : s.wait ≠ .done := fun hdone => hforwarding (h.finished hdone kind)
  have hopen : ∀ success code, .procDone success code ∉ s.reply ++ [.proc kind data] := by
    intro success code hmem
    rcases List.mem_append.mp hmem with hmem | hmem
    · exact h.pending hwaiting success code hmem
    · cases List.mem_singleton.mp hmem
  refine ⟨fun hclosed k => ?_, h.exited, fun _ => hopen, fun hdone => absurd hdone hwaiting,
    complete_of_open hopen⟩
  show Flow ((s.set kind _).streams k) _ _
  rw [streams_set, received_append]
  have hflow := h.flow hclosed k
  split
  · next hk =>
      subst hk
      refine ⟨?_, hflow.ended, fun hfinished => absurd hfinished hforwarding⟩
      show (_ ++ ((if k = k then data else []) ++ [])) ++ (channel.flatten ++ _) = _
      rw [← hflow.written, hchannel, if_pos rfl, List.flatten_cons]
      simp only [List.append_nil, List.append_assoc]
  · next hk =>
      show Flow _ (_ ++ ((if kind = k then data else []) ++ [])) _
      rw [if_neg (Ne.symm hk), List.append_nil, List.append_nil]
      exact hflow

/-- When both forwarders are done, everything is in the reply. -/
theorem Inv.done_step (h : s.Inv) {status : ExitStatus} (hwait : s.wait = .draining status)
    (hfinished : ∀ kind, (s.streams kind).forwarding = false) (hclosed : s.closed = false) :
    Inv { s with
      wait := .done
      reply := s.reply ++ [.procDone status.success status.code] } := by
  have hopen := h.pending (by simp [hwait])
  refine ⟨fun hclosed kind => ?_, fun _ => h.exited (by simp [hwait]), fun hdone => absurd rfl hdone,
    fun _ => hfinished, ?_⟩
  · rw [received_append]
    show Flow _ (_ ++ []) _
    rw [List.append_nil]
    exact h.flow hclosed kind
  · intro earlier success code later hreply kind
    have hearlier : earlier = s.reply := by
      rcases List.eq_nil_or_concat later with rfl | ⟨later, last, rfl⟩
      · exact (List.append_inj' hreply rfl).1.symm
      · -- the reply would have had a `ProcDone` before
        have hsplit : s.reply ++ [.procDone status.success status.code] =
            (earlier ++ .procDone success code :: later) ++ [last] := by
          rw [List.concat_eq_append] at hreply
          rw [List.append_assoc]
          exact hreply
        refine absurd ?_ (hopen success code)
        rw [(List.append_inj' hsplit rfl).1]
        exact List.mem_append_right _ List.mem_cons_self
    have hflow := h.flow hclosed kind
    obtain ⟨hchannel, hended⟩ := hflow.finished (hfinished kind)
    show received kind earlier = (s.streams kind).written
    rw [← hflow.written, hchannel, hended, (hflow.ended hended).1, hearlier]
    exact (List.append_nil _).symm

theorem inv_step {e : OutputEvent} (h : s.Inv) (hmeets : s.Meets e) (hstep : s.step e = some s') :
    s'.Inv := by
  cases e with
  | write kind data =>
      simp only [step] at hstep
      split at hstep <;> cases hstep
      next hexited =>
        have hwaiting : s.wait ≠ .done := by
          intro hdone
          exact h.exited (by rw [hdone]; decide) hexited
        refine h.set ?_ id (fun hdone => absurd hdone hwaiting)
        intro hclosed
        have hflow := h.flow hclosed kind
        refine ⟨?_, fun hended => absurd hexited (hflow.ended hended).2, hflow.finished⟩
        show _ ++ (_ ++ (_ ++ ((s.streams kind).pipe ++ data))) = (s.streams kind).written ++ data
        rw [← hflow.written]
        simp only [List.append_assoc]
  | exit status =>
      simp only [step] at hstep
      split at hstep <;> cases hstep
      refine ⟨fun hclosed kind => ?_, fun _ => by simp, h.pending, h.finished, h.complete⟩
      have hflow := h.flow hclosed kind
      exact ⟨hflow.written, fun hended => ⟨(hflow.ended hended).1, by simp⟩, hflow.finished⟩
  | read kind n =>
      simp only [step] at hstep
      split at hstep <;> cases hstep
      next hread =>
        refine h.set ?_ id (fun _ => rfl)
        intro hclosed
        have hflow := h.flow hclosed kind
        refine ⟨?_, fun hended => (by cases hended), fun hforwarding => ?_⟩
        · rw [← hflow.written, hread.1]
          show _ ++ (_ ++ (List.take n _ ++ List.drop n _)) = _ ++ (_ ++ ([] ++ _))
          rw [List.take_append_drop, List.nil_append]
        · rw [(hflow.finished hforwarding).2] at hread
          cases hread.1
  | block kind =>
      simp only [step] at hstep
      split at hstep <;> cases hstep
      next hread =>
        refine h.set ?_ id (fun _ => rfl)
        intro hclosed
        have hflow := h.flow hclosed kind
        refine ⟨?_, fun hended => (by cases hended), fun hforwarding => ?_⟩
        · rw [← hflow.written, hread.1]
          rfl
        · rw [(hflow.finished hforwarding).2] at hread
          cases hread.1
  | eof kind =>
      simp only [step] at hstep
      split at hstep <;> cases hstep
      next hread =>
        refine h.set ?_ id (fun _ => rfl)
        intro hclosed
        have hflow := h.flow hclosed kind
        refine ⟨?_, fun _ => hread.2, fun hforwarding => ⟨(hflow.finished hforwarding).1, rfl⟩⟩
        rw [← hflow.written, hread.1]
        rfl
  | send kind =>
      simp only [step] at hstep
      split at hstep
      · next data hreader =>
          split at hstep <;> cases hstep
          next hroom =>
            refine h.set ?_ id (fun _ => rfl)
            intro hclosed
            have hflow := h.flow hclosed kind
            refine ⟨?_, fun hended => (by cases hended), fun hforwarding => ?_⟩
            · rw [← hflow.written, hreader, hroom.1]
              show _ ++ ((data ++ []) ++ ([] ++ _)) = _ ++ ([] ++ (data ++ _))
              rw [List.append_nil, List.nil_append, List.nil_append]
            · rw [hroom.2] at hforwarding
              cases hforwarding
      · cases hstep
  | broken kind =>
      simp only [step] at hstep
      split at hstep
      · next data hreader =>
          split at hstep <;> cases hstep
          next hforwarding =>
            refine h.set ?_ id (fun _ => rfl)
            intro hclosed
            -- the forwarder has only ended early when nobody takes from the reply
            have hended := ((h.flow hclosed kind).finished hforwarding).2
            rw [hreader] at hended
            cases hended
      · cases hstep
  | resume kind =>
      simp only [step] at hstep
      split at hstep <;> cases hstep
      next hpausing =>
        refine h.set ?_ id (fun _ => rfl)
        intro hclosed
        have hflow := h.flow hclosed kind
        refine ⟨?_, fun hended => (by cases hended), fun hforwarding => ?_⟩
        · rw [← hflow.written, hpausing]
          rfl
        · have hended := (hflow.finished hforwarding).2
          rw [hpausing] at hended
          cases hended
  | forward kind =>
      simp only [step] at hstep
      split at hstep
      · cases hstep
      · next data channel hchannel =>
          split at hstep
          · cases hstep
          · next hforwarding =>
              split at hstep <;> cases hstep
              · next hclosed =>
                  refine h.set ?_ (fun _ => rfl) (fun _ => rfl)
                  intro hopen
                  rw [hclosed] at hopen
                  cases hopen
              · exact h.forward_step hchannel hforwarding
  | finish kind =>
      simp only [step] at hstep
      split at hstep <;> cases hstep
      next hfinish =>
        refine h.set ?_ (fun _ => rfl) (fun _ => rfl)
        intro hclosed
        have hflow := h.flow hclosed kind
        exact ⟨hflow.written, hflow.ended, fun _ => hfinish.2⟩
  | abort =>
      simp only [step] at hstep
      split at hstep <;> cases hstep
      next hwait hexited =>
        refine ⟨h.flow, fun _ => by simp [hexited], fun _ => h.pending (by simp [hwait]), ?_,
          h.complete⟩
        intro hdone
        cases hdone
  | cancel kind =>
      simp only [step] at hstep
      split at hstep <;> cases hstep
      next hcancel =>
        refine h.set ?_ id (fun _ => rfl)
        intro hclosed
        have hflow := h.flow hclosed kind
        refine ⟨?_, fun _ => ⟨hmeets.2, h.exited hcancel.1⟩,
          fun hforwarding => ⟨(hflow.finished hforwarding).1, rfl⟩⟩
        rw [← hflow.written, hmeets.1]
        rfl
  | done =>
      simp only [step] at hstep
      split at hstep
      · next status hwait =>
          split at hstep
          · cases hstep
          · next hforwarding =>
              have hfinished : ∀ kind, (s.streams kind).forwarding = false := by
                rw [not_or] at hforwarding
                intro kind
                cases kind
                · exact Bool.eq_false_iff.mpr hforwarding.1
                · exact Bool.eq_false_iff.mpr hforwarding.2
              split at hstep <;> cases hstep
              · refine ⟨h.flow, fun _ => h.exited (by simp [hwait]), fun hdone => absurd rfl hdone,
                  fun _ => hfinished, h.complete⟩
              · next hclosed =>
                  exact h.done_step hwait hfinished (Bool.eq_false_iff.mpr hclosed)
      · cases hstep
  | close =>
      cases hstep
      exact ⟨fun hclosed => (by cases hclosed), h.exited, h.pending, h.finished, h.complete⟩

/-- No output is lost in all runs whose steps meet the condition. -/
theorem complete_of_run {es : List OutputEvent} {s : ProcessOutput}
    (hmeets : Machine.Meeting step Meets es new) (hrun : Machine.run step es new = some s) :
    s.Complete :=
  (Machine.invariant (fun _ _ _ h hC hstep => inv_step h hC hstep) inv_new hmeets hrun).complete

/-- A process writes to both outputs and exits; one reader comes to the end of its pipe, the other
one is cancelled in its pause. -/
def readInTime : List OutputEvent :=
  [.write .stdout [1, 2], .read .stdout 2, .write .stderr [3], .read .stderr 1, .send .stdout,
    .exit ⟨true, none⟩, .send .stderr, .forward .stdout, .resume .stdout, .eof .stdout, .abort,
    .finish .stdout, .cancel .stderr, .forward .stderr, .finish .stderr, .done]

theorem complete_readInTime : ∃ s, Machine.run step readInTime new = some s ∧ s.Complete ∧
    s.reply = [.proc .stdout [1, 2], .proc .stderr [3], .procDone true (some 0)] := by
  suffices hmeets : Machine.Meeting step Meets readInTime new from
    ⟨_, rfl, complete_of_run hmeets rfl, rfl⟩
  iterate 12 refine Machine.Meeting.cons trivial rfl ?_
  refine Machine.Meeting.cons ⟨rfl, rfl⟩ rfl ?_
  iterate 3 refine Machine.Meeting.cons trivial rfl ?_
  trivial

/-- A process writes one byte and exits before it is read. -/
theorem not_complete : ∃ s, Machine.run step [.write .stdout [1], .exit ⟨true, some 0⟩, .abort,
    .cancel .stdout, .cancel .stderr, .finish .stdout, .finish .stderr, .done] new = some s ∧
    ¬ s.Complete := by
  refine ⟨_, rfl, fun h => ?_⟩
  have hlost := h [] true (some 0) [] rfl .stdout
  cases hlost

end ProcessOutput

end Distant
