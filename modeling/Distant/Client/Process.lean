import Mathlib.Algebra.GroupWithZero.Nat
import Mathlib.Data.List.Basic
import Distant.Client.Outgoing

/-!
# The output of a remote process

One task puts what the process writes into two bounded channels, and ends when the process is done;
`output` waits for this task before it takes anything out of them. `output_iff` says that it returns
all that was written exactly if the channels have room for it.
-/

namespace Distant

/-- Capacity associated stdin, stdout, and stderr pipes receiving data from remote server -/
def CLIENT_PIPE_CAPACITY : Nat := 10000

/-- `errors::unexpected_eof` -/
def unexpectedEof : IoError := .ofKind .unexpectedEof

structure RemoteStatus where
  success : Bool
  code : Option Int
  deriving DecidableEq, Repr

structure RemoteOutput where
  success : Bool
  code : Option Int
  stdout : Bytes
  stderr : Bytes
  deriving DecidableEq, Repr

/-- The responses to the request that has started a process. -/
inductive ProcessResponse where
  | procStdout (id : ProcessId) (data : Bytes)
  | procStderr (id : ProcessId) (data : Bytes)
  | procDone (id : ProcessId) (status : RemoteStatus)
  | other
  deriving DecidableEq, Repr

namespace ProcessResponse

def stdoutOf (id : ProcessId) : ProcessResponse → Option Bytes
  | .procStdout pid data => if pid = id then some data else none
  | .procStderr _ _ => none
  | .procDone _ _ => none
  | .other => none

def stderrOf (id : ProcessId) : ProcessResponse → Option Bytes
  | .procStdout _ _ => none
  | .procStderr pid data => if pid = id then some data else none
  | .procDone _ _ => none
  | .other => none

def statusOf (id : ProcessId) : ProcessResponse → Option RemoteStatus
  | .procStdout _ _ => none
  | .procStderr _ _ => none
  | .procDone pid status => if pid = id then some status else none
  | .other => none

theorem stderrOf_of_stdoutOf {id : ProcessId} {r : ProcessResponse} {data : Bytes}
    (h : r.stdoutOf id = some data) : r.stderrOf id = none := by
  cases r with
  | procStdout => rfl
  | procStderr => cases h
  | procDone => cases h
  | other => cases h

end ProcessResponse

/-- `process_incoming_responses` -/
inductive IncomingPhase where
  /-- waits for the next payload -/
  | listening
  /-- goes through a payload, and knows whether it says that the process is done -/
  | forwarding (exitStatus : Option RemoteStatus) (payload : List ProcessResponse)
  | returned (result : Except IoError RemoteStatus)

/-- `output`, with the readers of both channels -/
inductive OutputPhase where
  /-- waits for the two tasks of the process -/
  | waiting
  | readingStdout (status : RemoteStatus) (stdout : Bytes)
  | readingStderr (status : RemoteStatus) (stdout stderr : Bytes)
  | returned (result : Except IoError RemoteOutput)

structure RemoteProcess where
  outgoing : Outgoing
  /-- what the mailbox has yet to give, payload by payload -/
  mailbox : List (Msg ProcessResponse)
  /-- nothing comes after that -/
  closed : Bool
  incoming : IncomingPhase
  stdout : List Bytes
  stderr : List Bytes
  output : OutputPhase

inductive ProcessEvent where
  /-- a caller asks for something, or the task of the requests goes on -/
  | outgoing (e : OutgoingEvent)
  /-- the task of the responses goes on -/
  | incoming
  /-- `output` goes on -/
  | output

/-- It is not a caller that does something. -/
def ProcessEvent.IsTask : ProcessEvent → Prop
  | .outgoing e => e.IsTake
  | .incoming => True
  | .output => True

namespace RemoteProcess

def new (mailbox : List (Msg ProcessResponse)) (closed : Bool) : RemoteProcess :=
  ⟨.new, mailbox, closed, .listening, [], [], .waiting⟩

/-- The task of the responses ends, and flags that the other task should conclude. -/
def endIncoming (s : RemoteProcess) (result : Except IoError RemoteStatus) : RemoteProcess :=
  { s with outgoing := s.outgoing.conclude, incoming := .returned result }

variable (id : ProcessId)

def stepIncoming (s : RemoteProcess) : Option RemoteProcess :=
  match s.incoming with
  | .listening =>
    match s.mailbox with
    | [] => if s.closed then some (s.endIncoming (.error unexpectedEof)) else none
    | res :: mailbox =>
      some { s with
        mailbox := mailbox
        incoming := .forwarding (res.intoVec.findSome? (·.statusOf id)) res.intoVec }
  | .forwarding exitStatus (data :: payload) =>
    match data.stdoutOf id, data.stderrOf id with
    | some data, _ =>
      if s.stdout.length < CLIENT_PIPE_CAPACITY then
        some { s with stdout := s.stdout ++ [data], incoming := .forwarding exitStatus payload }
      else none
    | none, some data =>
      if s.stderr.length < CLIENT_PIPE_CAPACITY then
        some { s with stderr := s.stderr ++ [data], incoming := .forwarding exitStatus payload }
      else none
    | none, none => some { s with incoming := .forwarding exitStatus payload }
  | .forwarding (some status) [] => some (s.endIncoming (.ok status))
  | .forwarding none [] => some { s with incoming := .listening }
  | .returned _ => none

def stepOutput (s : RemoteProcess) : Option RemoteProcess :=
  match s.output with
  | .waiting =>
    match s.outgoing.result, s.incoming with
    | some _, .returned (.ok status) => some { s with output := .readingStdout status [] }
    | some _, .returned (.error e) => some { s with output := .returned (.error e) }
    | _, _ => none
  | .readingStdout status stdout =>
    match s.stdout with
    | data :: rest => some { s with stdout := rest, output := .readingStdout status (stdout ++ data) }
    -- the sender went with its task
    | [] => some { s with output := .readingStderr status stdout [] }
  | .readingStderr status stdout stderr =>
    match s.stderr with
    | data :: rest =>
      some { s with stderr := rest, output := .readingStderr status stdout (stderr ++ data) }
    | [] =>
      some { s with output := .returned (.ok ⟨status.success, status.code, stdout, stderr⟩) }
  | .returned _ => none

def step (s : RemoteProcess) : ProcessEvent → Option RemoteProcess
  -- this one is up to the task of the responses
  | .outgoing .conclude => none
  | .outgoing e => (s.outgoing.step id e).map fun outgoing => { s with outgoing := outgoing }
  | .incoming => stepIncoming id s
  | .output => stepOutput s

/-! ## What the server sends -/

/-- The responses of all payloads. -/
def flat (mailbox : List (Msg ProcessResponse)) : List ProcessResponse := mailbox.flatMap Msg.intoVec

/-- The data of stdout and of stderr, chunk by chunk, and the status of the process at the end. -/
structure Completes (status : RemoteStatus) (responses : List ProcessResponse)
    (out err : List Bytes) : Prop where
  ends : ∃ before, responses = before ++ [.procDone id status] ∧
    ∀ r ∈ before, r.statusOf id = none
  out_eq : out = responses.filterMap (·.stdoutOf id)
  err_eq : err = responses.filterMap (·.stderrOf id)

/-- `output` has returned all that was written. -/
def Collected (status : RemoteStatus) (out err : List Bytes) (s : RemoteProcess) : Prop :=
  s.output = .returned (.ok ⟨status.success, status.code, out.flatten, err.flatten⟩)

/-! ## Until the process is done -/

/-- What the task of the responses has yet to put in the channels; it does not know that the process
is done before it has the last payload. -/
inductive Pending (status : RemoteStatus) :
    List (Msg ProcessResponse) → IncomingPhase → List ProcessResponse → Prop where
  | listening {mailbox : List (Msg ProcessResponse)} {before : List ProcessResponse}
      (hflat : flat mailbox = before ++ [.procDone id status])
      (hbefore : ∀ r ∈ before, r.statusOf id = none) :
      Pending status mailbox .listening (flat mailbox)
  | forwarding {mailbox : List (Msg ProcessResponse)} {payload before : List ProcessResponse}
      (hflat : flat mailbox = before ++ [.procDone id status])
      (hbefore : ∀ r ∈ before, r.statusOf id = none) :
      Pending status mailbox (.forwarding none payload) (payload ++ flat mailbox)
  | last {mailbox : List (Msg ProcessResponse)} {payload : List ProcessResponse}
      (hflat : flat mailbox = []) :
      Pending status mailbox (.forwarding (some status) payload) payload

/-- Nothing was taken out of the channels, and nothing was lost. -/
structure Collecting (status : RemoteStatus) (out err : List Bytes) (s : RemoteProcess) : Prop where
  output : s.output = .waiting
  pending : ∃ responses, Pending id status s.mailbox s.incoming responses ∧
    out = s.stdout ++ responses.filterMap (·.stdoutOf id) ∧
    err = s.stderr ++ responses.filterMap (·.stderrOf id)
  stdout_le : s.stdout.length ≤ CLIENT_PIPE_CAPACITY
  stderr_le : s.stderr.length ≤ CLIENT_PIPE_CAPACITY

section Collecting

variable {id} {status : RemoteStatus} {out err : List Bytes} {s s' : RemoteProcess}
  {responses payload : List ProcessResponse} {res : Msg ProcessResponse}
  {mailbox : List (Msg ProcessResponse)}

theorem Completes.collecting (h : Completes id status (flat mailbox) out err) (closed : Bool) :
    Collecting id status out err (new mailbox closed) := by
  obtain ⟨before, hflat, hbefore⟩ := h.ends
  exact ⟨rfl, ⟨_, .listening hflat hbefore, h.out_eq, h.err_eq⟩, Nat.zero_le _, Nat.zero_le _⟩

/-- A payload is taken, which may be the last. -/
theorem Pending.next (h : Pending id status (res :: mailbox) .listening responses) :
    Pending id status mailbox
      (.forwarding (res.intoVec.findSome? (·.statusOf id)) res.intoVec) responses := by
  cases h with
  | @listening before hflat hbefore =>
      have hcons : flat (res :: mailbox) = res.intoVec ++ flat mailbox := rfl
      rw [hcons] at hflat ⊢
      rcases List.append_eq_append_iff.mp hflat with ⟨rest, rfl, hrest⟩ | ⟨rest, hres, hdone⟩
      · have hnone : res.intoVec.findSome? (·.statusOf id) = none :=
          List.findSome?_eq_none_iff.mpr fun r hr => hbefore r (List.mem_append_left _ hr)
        rw [hnone]
        exact .forwarding hrest fun r hr => hbefore r (List.mem_append_right _ hr)
      · have hnone : before.findSome? (·.statusOf id) = none :=
          List.findSome?_eq_none_iff.mpr hbefore
        rcases List.append_eq_singleton_iff.mp hdone.symm with ⟨rfl, hflat'⟩ | ⟨rfl, hflat'⟩
        · rw [List.append_nil] at hres
          rw [hres, hnone]
          exact @Pending.forwarding id status _ _ [] hflat' nofun
        · rw [hres, List.findSome?_append, hnone, hflat', List.append_nil]
          have hsome : [ProcessResponse.procDone id status].findSome? (·.statusOf id)
              = some status := by simp [ProcessResponse.statusOf]
          rw [hsome]
          exact .last hflat'

/-- A response of the payload is dealt with. -/
theorem Pending.tail {exitStatus : Option RemoteStatus} {r : ProcessResponse}
    (h : Pending id status mailbox (.forwarding exitStatus (r :: payload)) responses) :
    ∃ rest, responses = r :: rest ∧
      Pending id status mailbox (.forwarding exitStatus payload) rest := by
  cases h with
  | forwarding hflat hbefore => exact ⟨payload ++ flat mailbox, rfl, .forwarding hflat hbefore⟩
  | last hflat => exact ⟨payload, rfl, .last hflat⟩

/-- What is in a response for a channel is put there, where there is room for it. -/
theorem forwarded_cases {outgoing : Outgoing} {closed : Bool} {exitStatus : Option RemoteStatus}
    {r : ProcessResponse} {stdout stderr : List Bytes} {output : OutputPhase}
    (hstep : stepIncoming id ⟨outgoing, mailbox, closed, .forwarding exitStatus (r :: payload), stdout,
      stderr, output⟩ = some s') :
    ∃ stdout' stderr',
      s' = ⟨outgoing, mailbox, closed, .forwarding exitStatus payload, stdout', stderr', output⟩ ∧
      stdout' = stdout ++ (r.stdoutOf id).toList ∧ stderr' = stderr ++ (r.stderrOf id).toList ∧
      (stdout.length ≤ CLIENT_PIPE_CAPACITY → stdout'.length ≤ CLIENT_PIPE_CAPACITY) ∧
      (stderr.length ≤ CLIENT_PIPE_CAPACITY → stderr'.length ≤ CLIENT_PIPE_CAPACITY) ∧
      stdout'.length + stderr'.length ≤ stdout.length + stderr.length + 1 := by
  rw [stepIncoming] at hstep
  dsimp only at hstep
  split at hstep
  · rename_i data hdata
    split at hstep
    · rename_i hroom
      cases hstep
      rw [hdata, ProcessResponse.stderrOf_of_stdoutOf hdata]
      refine ⟨_, _, rfl, rfl, by simp, fun _ => ?_, fun h => h, ?_⟩
      · rwa [List.length_append, List.length_singleton]
      · rw [List.length_append, List.length_singleton]
        omega
    · cases hstep
  · rename_i data hnone hdata
    split at hstep
    · rename_i hroom
      cases hstep
      rw [hnone, hdata]
      refine ⟨_, _, rfl, by simp, rfl, fun h => h, fun _ => ?_, ?_⟩
      · rwa [List.length_append, List.length_singleton]
      · rw [List.length_append, List.length_singleton]
        omega
    · cases hstep
  · rename_i hnone hnone'
    cases hstep
    rw [hnone, hnone']
    exact ⟨_, _, rfl, by simp, by simp, fun h => h, fun h => h, Nat.le_succ _⟩

theorem filterMap_cons_toList {α β : Type} (f : α → Option β) (a : α) (l : List α) :
    (a :: l).filterMap f = (f a).toList ++ l.filterMap f := by
  cases h : f a <;> simp [h]

/-- The task of the responses goes on, until the process is done. -/
theorem Collecting.incoming (h : Collecting id status out err s)
    (hstep : stepIncoming id s = some s') :
    Collecting id status out err s' ∨
    (s' = s.endIncoming (.ok status) ∧ s.stdout = out ∧ s.stderr = err) := by
  obtain ⟨outgoing, mailbox, closed, incoming, stdout, stderr, output⟩ := s
  obtain ⟨rfl, ⟨responses, hpending, hout, herr⟩, hstdout, hstderr⟩ := h
  dsimp only at hpending hout herr hstdout hstderr
  cases incoming with
  | returned => cases hstep
  | listening =>
      cases mailbox with
      | nil =>
          cases hpending with
          | listening hflat => exact absurd hflat.symm (List.append_ne_nil_of_right_ne_nil _ nofun)
      | cons res mailbox =>
          cases hstep
          exact .inl ⟨rfl, ⟨responses, hpending.next, hout, herr⟩, hstdout, hstderr⟩
  | forwarding exitStatus payload =>
      cases payload with
      | nil =>
          cases hpending with
          | forwarding hflat hbefore =>
              cases hstep
              exact .inl ⟨rfl, ⟨_, .listening hflat hbefore, hout, herr⟩, hstdout, hstderr⟩
          | last hflat =>
              cases hstep
              exact .inr ⟨rfl, by rw [hout]; simp, by rw [herr]; simp⟩
      | cons r payload =>
          obtain ⟨rest, rfl, hrest⟩ := hpending.tail
          rw [filterMap_cons_toList, ← List.append_assoc] at hout herr
          obtain ⟨stdout', stderr', rfl, rfl, rfl, hstdout', hstderr', -⟩ := forwarded_cases hstep
          exact .inl ⟨rfl, ⟨rest, hrest, hout, herr⟩, hstdout' hstdout, hstderr' hstderr⟩

end Collecting

/-! ## Until everything is returned -/

/-- `output` gets all that was written, as nothing of it is in the way of the task of the responses. -/
inductive OnCourse (status : RemoteStatus) (out err : List Bytes) : RemoteProcess → Prop where
  | collecting {s : RemoteProcess} (h : Collecting id status out err s)
      (hout : out.length ≤ CLIENT_PIPE_CAPACITY) (herr : err.length ≤ CLIENT_PIPE_CAPACITY) :
      OnCourse status out err s
  -- the task of the requests has a kill to take
  | done {outgoing : Outgoing} {mailbox : List (Msg ProcessResponse)} {closed : Bool}
      (hkills : outgoing.result = none → 0 < outgoing.kills) :
      OnCourse status out err ⟨outgoing, mailbox, closed, .returned (.ok status), out, err, .waiting⟩
  | readingStdout {outgoing : Outgoing} {mailbox : List (Msg ProcessResponse)} {closed : Bool}
      {stdout : List Bytes} {read : Bytes} (hread : out.flatten = read ++ stdout.flatten) :
      OnCourse status out err ⟨outgoing, mailbox, closed, .returned (.ok status), stdout, err,
        .readingStdout status read⟩
  | readingStderr {outgoing : Outgoing} {mailbox : List (Msg ProcessResponse)} {closed : Bool}
      {stdout stderr : List Bytes} {read : Bytes} (hread : err.flatten = read ++ stderr.flatten) :
      OnCourse status out err ⟨outgoing, mailbox, closed, .returned (.ok status), stdout, stderr,
        .readingStderr status out.flatten read⟩
  | returned {outgoing : Outgoing} {mailbox : List (Msg ProcessResponse)} {closed : Bool}
      {stdout stderr : List Bytes} :
      OnCourse status out err ⟨outgoing, mailbox, closed, .returned (.ok status), stdout, stderr,
        .returned (.ok ⟨status.success, status.code, out.flatten, err.flatten⟩)⟩

/-- What is left to do: a response of a payload may go to a channel, and from there to the caller. -/
def rest (s : RemoteProcess) : Nat :=
  s.outgoing.rest + (s.mailbox.map fun res => 2 * res.intoVec.length + 2).sum +
  (match s.incoming with
    | .listening => 1
    | .forwarding _ payload => 2 * payload.length + 2
    | .returned _ => 0) +
  s.stdout.length + s.stderr.length +
  (match s.output with
    | .waiting => 3
    | .readingStdout _ _ => 2
    | .readingStderr _ _ _ => 1
    | .returned _ => 0)

section OnCourse

variable {id} {status : RemoteStatus} {out err : List Bytes} {s s' : RemoteProcess}

theorem step_outgoing {e : OutgoingEvent}
    (hstep : RemoteProcess.step id s (.outgoing e) = some s') :
    ∃ o, s.outgoing.step id e = some o ∧ s' = { s with outgoing := o } := by
  by_cases he : e = .conclude
  · subst he
    cases hstep
  · rw [RemoteProcess.step] at hstep
    · obtain ⟨o, ho, rfl⟩ := Option.map_eq_some_iff.mp hstep
      exact ⟨o, ho, rfl⟩
    · exact he

/-- `output` waits for the task of the responses. -/
theorem returned_of_waiting (h : s.output = .waiting) (hstep : stepOutput s = some s') :
    ∃ result, s.incoming = .returned result := by
  rw [stepOutput, h] at hstep
  dsimp only at hstep
  split at hstep
  · rename_i status _ hincoming
    exact ⟨_, hincoming⟩
  · rename_i e _ hincoming
    exact ⟨_, hincoming⟩
  · cases hstep

/-- What the callers and the task of the requests do is in the way of nothing. -/
theorem OnCourse.outgoing {e : OutgoingEvent} {o : Outgoing} (h : OnCourse id status out err s)
    (hstep : s.outgoing.step id e = some o) :
    OnCourse id status out err { s with outgoing := o } := by
  cases h with
  | collecting h hout herr =>
      exact .collecting ⟨h.output, h.pending, h.stdout_le, h.stderr_le⟩ hout herr
  | done hkills => exact .done (Outgoing.kills_pos hkills hstep)
  | readingStdout hread => exact .readingStdout hread
  | readingStderr hread => exact .readingStderr hread
  | returned => exact .returned

theorem OnCourse.incoming (h : OnCourse id status out err s)
    (hstep : stepIncoming id s = some s') :
    OnCourse id status out err s' := by
  cases h with
  | collecting h hout herr =>
      rcases h.incoming hstep with h' | ⟨rfl, rfl, rfl⟩
      · exact .collecting h' hout herr
      · have houtput := h.output
        obtain ⟨outgoing, mailbox, closed, incoming, stdout, stderr, output⟩ := s
        cases houtput
        exact .done fun _ => Nat.lt_of_lt_of_le Nat.one_pos (Nat.le_max_left 1 outgoing.kills)
  | done => cases hstep
  | readingStdout => cases hstep
  | readingStderr => cases hstep
  | returned => cases hstep

theorem OnCourse.output (h : OnCourse id status out err s) (hstep : stepOutput s = some s') :
    OnCourse id status out err s' := by
  cases h with
  | collecting h hout herr =>
      obtain ⟨responses, hpending, -⟩ := h.pending
      obtain ⟨result, hresult⟩ := returned_of_waiting h.output hstep
      rw [hresult] at hpending
      cases hpending
  | @done outgoing mailbox closed hkills =>
      rw [stepOutput] at hstep
      dsimp only at hstep
      cases hresult : outgoing.result with
      | none =>
          rw [hresult] at hstep
          cases hstep
      | some result =>
          rw [hresult] at hstep
          cases hstep
          exact .readingStdout rfl
  | @readingStdout outgoing mailbox closed stdout read hread =>
      cases stdout with
      | nil =>
          cases hstep
          rw [List.flatten_nil, List.append_nil] at hread
          rw [← hread]
          exact .readingStderr rfl
      | cons data stdout =>
          cases hstep
          exact .readingStdout (by rw [hread, List.flatten_cons, List.append_assoc])
  | @readingStderr outgoing mailbox closed stdout stderr read hread =>
      cases stderr with
      | nil =>
          cases hstep
          rw [List.flatten_nil, List.append_nil] at hread
          rw [← hread]
          exact .returned
      | cons data stderr =>
          cases hstep
          exact .readingStderr (by rw [hread, List.flatten_cons, List.append_assoc])
  | returned => cases hstep

theorem OnCourse.step {e : ProcessEvent} (h : OnCourse id status out err s)
    (hstep : RemoteProcess.step id s e = some s') : OnCourse id status out err s' := by
  cases e with
  | incoming => exact h.incoming hstep
  | output => exact h.output hstep
  | outgoing e =>
      obtain ⟨o, ho, rfl⟩ := step_outgoing hstep
      exact h.outgoing ho

theorem rest_incoming (hstep : stepIncoming id s = some s') : s'.rest < s.rest := by
  obtain ⟨outgoing, mailbox, closed, incoming, stdout, stderr, output⟩ := s
  have hconclude : outgoing.conclude.rest = outgoing.rest := rfl
  cases incoming with
  | returned => cases hstep
  | listening =>
      cases mailbox with
      | nil =>
          cases closed <;> cases hstep
          simp only [rest, endIncoming, hconclude]
          omega
      | cons res mailbox =>
          cases hstep
          simp only [rest, List.map_cons, List.sum_cons]
          omega
  | forwarding exitStatus payload =>
      cases payload with
      | nil =>
          cases exitStatus <;> cases hstep
          · simp only [rest, List.length_nil]
            omega
          · simp only [rest, endIncoming, hconclude, List.length_nil]
            omega
      | cons r payload =>
          obtain ⟨stdout', stderr', rfl, -, -, -, -, hle⟩ := forwarded_cases hstep
          simp only [rest, List.length_cons]
          omega

theorem rest_output (hstep : stepOutput s = some s') : s'.rest < s.rest := by
  obtain ⟨outgoing, mailbox, closed, incoming, stdout, stderr, output⟩ := s
  cases output with
  | returned => cases hstep
  | waiting =>
      rw [stepOutput] at hstep
      dsimp only at hstep
      split at hstep <;> cases hstep
      · simp only [rest]
        omega
      · simp only [rest]
        omega
  | readingStdout =>
      cases stdout with
      | nil =>
          cases hstep
          simp only [rest]
          omega
      | cons =>
          cases hstep
          simp only [rest, List.length_cons]
          omega
  | readingStderr =>
      cases stderr with
      | nil =>
          cases hstep
          simp only [rest]
          omega
      | cons =>
          cases hstep
          simp only [rest, List.length_cons]
          omega

/-- Each task has only so much to do. -/
theorem rest_step {e : ProcessEvent} (htask : e.IsTask) (hstep : RemoteProcess.step id s e = some s') :
    s'.rest < s.rest := by
  cases e with
  | incoming => exact rest_incoming hstep
  | output => exact rest_output hstep
  | outgoing e =>
      obtain ⟨o, ho, rfl⟩ := step_outgoing hstep
      have hlt : o.rest < s.outgoing.rest := Outgoing.rest_lt htask ho
      simp only [rest]
      omega

/-- There is room for what the task of the responses has to put in. -/
theorem Collecting.exists_incoming (h : Collecting id status out err s)
    (hout : out.length ≤ CLIENT_PIPE_CAPACITY) (herr : err.length ≤ CLIENT_PIPE_CAPACITY) :
    ∃ s', stepIncoming id s = some s' := by
  obtain ⟨responses, hpending, hout_eq, herr_eq⟩ := h.pending
  obtain ⟨outgoing, mailbox, closed, incoming, stdout, stderr, output⟩ := s
  dsimp only at hpending hout_eq herr_eq
  cases incoming with
  | returned => cases hpending
  | listening =>
      cases mailbox with
      | cons res mailbox => exact ⟨_, rfl⟩
      | nil =>
          cases hpending with
          | listening hflat => exact absurd hflat.symm (List.append_ne_nil_of_right_ne_nil _ nofun)
  | forwarding exitStatus payload =>
      cases payload with
      | nil => cases exitStatus <;> exact ⟨_, rfl⟩
      | cons r payload =>
          obtain ⟨rest, rfl, -⟩ := hpending.tail
          rw [stepIncoming]
          dsimp only
          split
          · rename_i data hdata
            rw [List.filterMap_cons, hdata] at hout_eq
            have hlt : stdout.length < CLIENT_PIPE_CAPACITY := by
              rw [hout_eq, List.length_append, List.length_cons] at hout
              omega
            rw [if_pos hlt]
            exact ⟨_, rfl⟩
          · rename_i data hnone hdata
            rw [List.filterMap_cons, hdata] at herr_eq
            have hlt : stderr.length < CLIENT_PIPE_CAPACITY := by
              rw [herr_eq, List.length_append, List.length_cons] at herr
              omega
            rw [if_pos hlt]
            exact ⟨_, rfl⟩
          · exact ⟨_, rfl⟩

theorem OnCourse.exists_step (h : OnCourse id status out err s) (hnot : ¬ Collected status out err s) :
    ∃ e s', ProcessEvent.IsTask e ∧ RemoteProcess.step id s e = some s' := by
  cases h with
  | collecting h hout herr =>
      obtain ⟨s', hs'⟩ := h.exists_incoming hout herr
      exact ⟨.incoming, s', trivial, hs'⟩
  | @done outgoing mailbox closed hkills =>
      cases hresult : outgoing.result with
      | some result =>
          refine ⟨.output, ⟨outgoing, mailbox, closed, .returned (.ok status), out, err,
            .readingStdout status []⟩, trivial, ?_⟩
          simp only [RemoteProcess.step, stepOutput, hresult]
      | none =>
          obtain ⟨o, ho⟩ : ∃ o, outgoing.step id (.takeKill (.ok ())) = some o :=
            Outgoing.exists_takeKill hresult (hkills hresult)
          refine ⟨.outgoing (.takeKill (.ok ())), ⟨o, mailbox, closed, .returned (.ok status), out, err,
            .waiting⟩, trivial, ?_⟩
          simp only [RemoteProcess.step, ho, Option.map_some]
  | @readingStdout outgoing mailbox closed stdout read hread =>
      cases stdout <;> exact ⟨.output, _, trivial, rfl⟩
  | @readingStderr outgoing mailbox closed stdout stderr read hread =>
      cases stderr <;> exact ⟨.output, _, trivial, rfl⟩
  | returned => exact absurd rfl hnot

theorem OnCourse.inevitable (h : OnCourse id status out err s) :
    Machine.Inevitable (RemoteProcess.step id) ProcessEvent.IsTask (Collected status out err) s :=
  Machine.inevitable_of_rank rest (fun _ h hnot => h.exists_step hnot)
    (fun _ _ _ h _ htask hstep => .inr ⟨h.step hstep, rest_step htask hstep⟩) h

/-- With too much for one of the channels, the task of the responses comes to wait for room, and
`output` waits for the task. -/
theorem not_inevitable (h : Collecting id status out err s)
    (hover : CLIENT_PIPE_CAPACITY < out.length ∨ CLIENT_PIPE_CAPACITY < err.length) :
    ¬ Machine.Inevitable (RemoteProcess.step id) ProcessEvent.IsTask (Collected status out err) s := by
  refine Machine.not_inevitable (I := Collecting id status out err) (fun s h hcollected => ?_)
    (fun s e s' h _ hstep => ?_) h
  · rw [Collected, h.output] at hcollected
    cases hcollected
  · cases e with
    | outgoing e =>
        obtain ⟨o, ho, rfl⟩ := step_outgoing hstep
        exact ⟨h.output, h.pending, h.stdout_le, h.stderr_le⟩
    | incoming =>
        rcases h.incoming hstep with h' | ⟨-, rfl, rfl⟩
        · exact h'
        · have hstdout := h.stdout_le
          have hstderr := h.stderr_le
          omega
    | output =>
        obtain ⟨responses, hpending, -⟩ := h.pending
        obtain ⟨result, hresult⟩ := returned_of_waiting h.output hstep
        rw [hresult] at hpending
        cases hpending

end OnCourse

/-- Whatever the callers do, and in whatever order the tasks run, `output` returns the status with
all data of stdout and stderr in order, exactly if each of the two came in no more chunks than its
channel has room for. -/
theorem output_iff (id : ProcessId) {mailbox : List (Msg ProcessResponse)} {status : RemoteStatus}
    {out err : List Bytes} (h : Completes id status (flat mailbox) out err) (closed : Bool) :
    (∀ es s, Machine.run (step id) es (new mailbox closed) = some s →
      Machine.Inevitable (step id) ProcessEvent.IsTask (Collected status out err) s) ↔
    out.length ≤ CLIENT_PIPE_CAPACITY ∧ err.length ≤ CLIENT_PIPE_CAPACITY := by
  constructor
  · intro hall
    by_contra hnot
    refine not_inevitable (h.collecting closed) ?_ (hall [] _ rfl)
    omega
  · rintro ⟨hout, herr⟩ es s hrun
    have hstart : OnCourse id status out err (new mailbox closed) :=
      .collecting (h.collecting closed) hout herr
    have hall : Machine.Meeting (step id) (fun _ _ => True) es (new mailbox closed) :=
      Machine.meeting_of_always (fun _ _ _ => trivial) _
    have hs := Machine.invariant (I := OnCourse id status out err)
      (fun s e s' h _ hstep => h.step hstep) hstart hall hrun
    exact hs.inevitable

def succeeded : RemoteStatus := ⟨true, some 0⟩

/-- A chunk of each, in one payload, and then the end. -/
def bothPipes : List (Msg ProcessResponse) :=
  [.batch [.procStderr 1 [33], .procStdout 1 [104, 105]], .single (.procDone 1 succeeded)]

theorem output_bothPipes : Machine.Inevitable (step 1) ProcessEvent.IsTask
    (Collected succeeded [[104, 105]] [[33]]) (new bothPipes false) := by
  have h : Completes 1 succeeded (flat bothPipes) [[104, 105]] [[33]] :=
    ⟨⟨[.procStderr 1 [33], .procStdout 1 [104, 105]], rfl, by decide⟩, by decide, by decide⟩
  exact (output_iff 1 h false).mpr ⟨by decide, by decide⟩ [] _ rfl

/-- One chunk of stdout too many. -/
def tooManyChunks : List (Msg ProcessResponse) :=
  .replicate (CLIENT_PIPE_CAPACITY + 1) (.single (.procStdout 1 [0])) ++
    [.single (.procDone 1 succeeded)]

theorem flat_tooManyChunks : flat tooManyChunks =
    .replicate (CLIENT_PIPE_CAPACITY + 1) (.procStdout 1 [0]) ++ [.procDone 1 succeeded] := by
  have hreplicate (n : Nat) : flat (.replicate n (.single (.procStdout 1 [0])))
      = .replicate n (.procStdout 1 [0]) := by
    induction n with
    | zero => rfl
    | succ n ih => exact congrArg (ProcessResponse.procStdout 1 [0] :: ·) ih
  rw [tooManyChunks, flat, List.flatMap_append]
  exact congrArg (· ++ [.procDone 1 succeeded]) (hreplicate _)

theorem not_output : Completes 1 succeeded (flat tooManyChunks)
      (.replicate (CLIENT_PIPE_CAPACITY + 1) [0]) [] ∧
    ¬ Machine.Inevitable (step 1) ProcessEvent.IsTask
      (Collected succeeded (.replicate (CLIENT_PIPE_CAPACITY + 1) [0]) []) (new tooManyChunks false) := by
  have h : Completes 1 succeeded (flat tooManyChunks)
      (.replicate (CLIENT_PIPE_CAPACITY + 1) [0]) [] := by
    rw [flat_tooManyChunks]
    refine ⟨⟨_, rfl, fun r hr => ?_⟩, ?_, ?_⟩
    · rw [(List.mem_replicate.mp hr).2]
      rfl
    · have hsome : (ProcessResponse.procStdout 1 [0]).stdoutOf 1 = some [0] := rfl
      rw [List.filterMap_append, List.filterMap_replicate_of_some hsome]
      exact (List.append_nil _).symm
    · have hnone : (ProcessResponse.procStdout 1 [0]).stderrOf 1 = none := rfl
      rw [List.filterMap_append, List.filterMap_replicate_of_none hnone]
      rfl
  refine ⟨h, not_inevitable (h.collecting false) (.inl ?_)⟩
  rw [List.length_replicate]
  exact Nat.lt_succ_self _

end RemoteProcess

end Distant
