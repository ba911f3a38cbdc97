import Mathlib.Logic.Function.Basic
import Distant.Host.Tunnel
import Distant.Lib.Dispatch

/-!
# From a client's writes to a process or a tunnel

What a client writes to a process or a tunnel goes into the channel of a task of its own, which
fires a request for each chunk and does not wait for the answers. The connection keeps the order of
the requests. Its task on the server starts a handler for each one, and a handler sends its message
to the actor of the processes or to that of the tunnels whenever it gets to run.
-/

namespace Distant

/-- What a request is about. -/
inductive Target where
  | process (id : ProcessId)
  | tunnel (id : TunnelId)
  deriving DecidableEq, Repr

/-- The actors of the host, which share nothing. -/
inductive Actor where
  | processes
  | tunnels
  deriving DecidableEq, Repr

def Target.actor : Target → Actor
  | .process _ => .processes
  | .tunnel _ => .tunnels

namespace Request

def target : Request → Target
  | .procStdin id _ => .process id
  | .procResizePty id _ => .process id
  | .procKill id => .process id
  | .tunnelWrite id _ => .tunnel id
  | .tunnelClose id => .tunnel id

def actor (r : Request) : Actor := r.target.actor

/-- The data that is written to `t`. -/
def chunk (t : Target) : Request → Option Bytes
  | .procStdin id data => if t = .process id then some data else none
  | .tunnelWrite id data => if t = .tunnel id then some data else none
  | _ => none

/-- Does the request write to `t`, or close it? -/
def isData (t : Target) : Request → Bool
  | .procStdin id _ => t == .process id
  | .tunnelWrite id _ => t == .tunnel id
  | .tunnelClose id => t == .tunnel id
  | _ => false

def isWrite : Request → Bool
  | .procStdin .. => true
  | .tunnelWrite .. => true
  | _ => false

end Request

/-! ## The client -/

/-- The task `process_outgoing_requests` and the channels that it receives from. -/
structure ProcessOutgoing where
  stdin : List Bytes
  resize : List PtySize
  kill : Bool
  finished : Bool
  deriving DecidableEq, Repr

/-- The branches of its `select!`, of which any that is ready may run. -/
inductive ProcessBranch where
  | stdin
  | resize
  | kill
  deriving DecidableEq, Repr

/-- One round of the loop of `process_outgoing_requests`. -/
def processOutgoingRequests (id : ProcessId) (p : ProcessOutgoing) :
    ProcessBranch → Option (Request × ProcessOutgoing)
  | .stdin =>
    match p.finished, p.stdin with
    | false, data :: stdin => some (.procStdin id data, { p with stdin := stdin })
    | _, _ => none
  | .resize =>
    match p.finished, p.resize with
    | false, size :: resize => some (.procResizePty id size, { p with resize := resize })
    | _, _ => none
  | .kill =>
    match p.finished, p.kill with
    | false, true => some (.procKill id, { p with finished := true })
    | _, _ => none

inductive TunnelPhase where
  | running
  /-- out of the main loop, and the channel is not closed yet -/
  | leaving
  | draining
  | finished
  deriving DecidableEq, Repr

/-- The task `process_tunnel_outgoing` and its channels. -/
structure TunnelOutgoing where
  writer : List Bytes
  /-- told to close, or all senders are gone -/
  closing : Bool
  phase : TunnelPhase
  deriving DecidableEq, Repr

/-- One round of a loop of `process_tunnel_outgoing`, or what it does between them. -/
def processTunnelOutgoing (id : TunnelId) (t : TunnelOutgoing) :
    Option (Option Request × TunnelOutgoing) :=
  match t.phase, t.writer with
  -- `biased`: a write comes before the signal to close
  | .running, data :: writer => some (some (.tunnelWrite id data), { t with writer := writer })
  | .running, [] => if t.closing then some (none, { t with phase := .leaving }) else none
  | .leaving, _ => some (none, { t with phase := .draining })
  | .draining, data :: writer => some (some (.tunnelWrite id data), { t with writer := writer })
  | .draining, [] => some (some (.tunnelClose id), { t with phase := .finished })
  | .finished, _ => none

/-- Does the channel take more data? -/
def TunnelOutgoing.isOpen (t : TunnelOutgoing) : Bool :=
  t.phase == .running || t.phase == .leaving

/-! ## The server -/

/-- How many messages the channel to an actor has room for. -/
def ACTOR_CAPACITY : Nat := 1

/-- A process or the connection of a tunnel, and its entry in the table of the actor. -/
structure TargetState where
  listed : Bool
  running : Bool
  /-- how much data waits in its write channel -/
  queued : Nat
  /-- the data that it was handed -/
  handed : List Bytes
  deriving DecidableEq, Repr

/-- A client with its connection, and the host that serves it. -/
structure Serving where
  processes : ProcessId → ProcessOutgoing
  tunnels : TunnelId → TunnelOutgoing
  dispatch : Dispatch Request Actor
  targets : Target → TargetState
  /-- the requests that the actors have dealt with, and the answers -/
  answers : List (Request × Except IoError Unit)

inductive ServingEvent where
  /-- the client's program writes, resizes and kills -/
  | writeStdin (id : ProcessId) (data : Bytes)
  | resizePty (id : ProcessId) (size : PtySize)
  | killProcess (id : ProcessId)
  | writeTunnel (id : TunnelId) (data : Bytes)
  /-- the client's program closes a tunnel or lets go of it -/
  | closeTunnel (id : TunnelId)
  /-- the client's tasks take a step -/
  | processOutgoing (id : ProcessId) (branch : ProcessBranch)
  | tunnelOutgoing (id : TunnelId)
  /-- the task of the connection reads a request and starts a handler -/
  | read
  /-- a handler sends its message -/
  | send (i : Nat)
  /-- an actor deals with a message; `outcome` is what resizing and killing return -/
  | handle (actor : Actor) (outcome : Except IoError Unit)
  /-- a process exits, or a tunnel ends at its other side -/
  | ends (t : Target)
  /-- what has ended is taken out of the table -/
  | removed (t : Target)
  /-- a tunnel takes data out of its write channel -/
  | drain (t : Target)

namespace Serving

/-- A client that was told about some processes and tunnels of a host. -/
def start (present : Target → Bool) : Serving where
  processes := fun id => ⟨[], [], false, !present (.process id)⟩
  tunnels := fun id => ⟨[], false, if present (.tunnel id) then .running else .finished⟩
  dispatch := .new
  targets := fun t => ⟨present t, present t, 0, []⟩
  answers := []

def setTarget (s : Serving) (t : Target) (st : TargetState) : Serving :=
  { s with targets := Function.update s.targets t st }

def answer (s : Serving) (r : Request) (result : Except IoError Unit) : Serving :=
  { s with answers := s.answers ++ [(r, result)] }

/-- The arm `Stdin` of `process_task`. -/
def onStdin (s : Serving) (id : ProcessId) (data : Bytes) : Except IoError Unit × Serving :=
  let st := s.targets (.process id)
  if !st.listed then (.error (.new .other s!"No process found with id {id}"), s)
  else if !st.running then (.error (.new .brokenPipe "Input channel closed"), s)
  else (.ok (), s.setTarget (.process id) { st with handed := st.handed ++ [data] })

/-- The arms `Resize` and `Kill` of `process_task`. -/
def onProcess (s : Serving) (id : ProcessId) (outcome : Except IoError Unit) :
    Except IoError Unit × Serving :=
  if (s.targets (.process id)).listed then (outcome, s)
  else (.error (.new .other s!"No process found with id {id}"), s)

/-- The arm `Write` of the actor of the tunnels. -/
def onWrite (s : Serving) (id : TunnelId) (data : Bytes) : Except IoError Unit × Serving :=
  let st := s.targets (.tunnel id)
  if !st.listed then (.error (.new .other s!"No tunnel found with id {id}"), s)
  else if !st.running || WRITE_CAPACITY ≤ st.queued then
    (.error (.new .other s!"Tunnel {id} write channel full or closed"), s)
  else
    (.ok (), s.setTarget (.tunnel id)
      { st with queued := st.queued + 1, handed := st.handed ++ [data] })

/-- The arm `Close` of the actor of the tunnels. -/
def onClose (s : Serving) (id : TunnelId) : Except IoError Unit × Serving :=
  let st := s.targets (.tunnel id)
  if st.listed then (.ok (), s.setTarget (.tunnel id) { st with listed := false })
  else (.error (.new .other s!"No tunnel found with id {id}"), s)

/-- What the actors do with a message. -/
def perform (s : Serving) (outcome : Except IoError Unit) :
    Request → Except IoError Unit × Serving
  | .procStdin id data => s.onStdin id data
  | .procResizePty id _ => s.onProcess id outcome
  | .procKill id => s.onProcess id outcome
  | .tunnelWrite id data => s.onWrite id data
  | .tunnelClose id => s.onClose id

def fire (s : Serving) (r : Request) : Serving := { s with dispatch := s.dispatch.fire r }

def setProcess (s : Serving) (id : ProcessId) (p : ProcessOutgoing) : Serving :=
  { s with processes := Function.update s.processes id p }

def setTunnel (s : Serving) (id : TunnelId) (t : TunnelOutgoing) : Serving :=
  { s with tunnels := Function.update s.tunnels id t }

def step (s : Serving) : ServingEvent → Option Serving
  | .writeStdin id data =>
    some (s.setProcess id { s.processes id with stdin := (s.processes id).stdin ++ [data] })
  | .resizePty id size =>
    some (s.setProcess id { s.processes id with resize := (s.processes id).resize ++ [size] })
  | .killProcess id => some (s.setProcess id { s.processes id with kill := true })
  | .writeTunnel id data =>
    if (s.tunnels id).isOpen then
      some (s.setTunnel id { s.tunnels id with writer := (s.tunnels id).writer ++ [data] })
    else none
  | .closeTunnel id => some (s.setTunnel id { s.tunnels id with closing := true })
  | .processOutgoing id branch =>
    (processOutgoingRequests id (s.processes id) branch).map fun (r, p) =>
      (s.setProcess id p).fire r
  | .tunnelOutgoing id =>
    (processTunnelOutgoing id (s.tunnels id)).map fun
      | (none, t) => s.setTunnel id t
      | (some r, t) => (s.setTunnel id t).fire r
  | .read => s.dispatch.read.map fun d => { s with dispatch := d }
  | .send i => (s.dispatch.send Request.actor ACTOR_CAPACITY i).map fun d =>
      { s with dispatch := d }
  | .handle actor outcome =>
    (s.dispatch.take actor).map fun (r, d) =>
      let (result, s) := { s with dispatch := d }.perform outcome r
      s.answer r result
  | .ends t => some (s.setTarget t { s.targets t with running := false })
  | .removed t =>
    if (s.targets t).running then none
    else some (s.setTarget t { s.targets t with listed := false })
  | .drain t => some (s.setTarget t { s.targets t with queued := (s.targets t).queued - 1 })

/-- The data that was fired at `t`, in order. -/
def chunksFired (s : Serving) (t : Target) : List Bytes :=
  s.dispatch.fired.filterMap (Request.chunk t)

/-- Everything that was fired and not dealt with yet. -/
def underWay (s : Serving) (a : Actor) : List Request :=
  s.dispatch.queue a ++ s.dispatch.tasks ++ s.dispatch.wire

end Serving

end Distant
