import Mathlib.Logic.Function.Basic
import Distant.Lib.Machine
import Distant.Protocol

/-!
# The tunnels of a host

One actor owns the table of all tunnels, and takes its messages from a channel with room for one.
Each tunnel is a connection with a task of its own, or a listener, whose task accepts connections
and has each of them registered as a sub-tunnel. `TunnelState.step` lets the actor and the tasks
move in any order: a message is sent, taken and dealt with in three steps, and between them
everything else can happen.

A task is known by the number of tasks spawned before it; the ids that clients see are 32-bit
numbers that wrap around.
-/

namespace Distant

/-- What a task was spawned for. The parent of a sub-tunnel is the task of its listener. -/
inductive TunnelKind where
  | connection (parent : Option Nat)
  | listener
  deriving DecidableEq, Repr

structure Spawned where
  id : TunnelId
  kind : TunnelKind
  deriving DecidableEq, Repr

inductive ConnectionPhase where
  | running
  /-- about to tell the actor -/
  | ended
  | finished
  deriving DecidableEq, Repr

structure ConnectionState where
  phase : ConnectionPhase
  /-- how much data waits in the write channel -/
  queued : Nat
  deriving DecidableEq, Repr

inductive ListenerPhase where
  | accepting
  /-- about to have the connection of a task registered, which it has announced and spawned -/
  | registering (task : Nat) (tunnelId : TunnelId) (host : String) (port : UInt16)
  /-- about to tell the actor -/
  | ended
  | finished
  | cancelled
  deriving DecidableEq, Repr

structure ListenerState where
  phase : ListenerPhase
  /-- told to abort, which takes effect when the task next yields -/
  aborted : Bool
  deriving DecidableEq, Repr

/-- A message to the actor. `r` is the request that waits for the answer. -/
inductive InnerTunnelMsg where
  | opening (r : Nat) (host : String) (port : UInt16)
  | listening (r : Nat) (host : String) (port : UInt16)
  | write (r : Nat) (id : TunnelId) (data : Bytes)
  | close (r : Nat) (id : TunnelId)
  /-- sent by a task when it ends -/
  | internalRemove (id : TunnelId)
  /-- sent by the accept loop of a listener -/
  | internalRegisterSubTunnel (listenerId tunnelId : TunnelId) (host : String) (port : UInt16)
      (task : Nat)
  deriving DecidableEq, Repr

/-- An entry in the tunnel map. -/
inductive TunnelEntry where
  | connection (info : TunnelInfo) (task : Nat)
  | listener (info : TunnelInfo) (subTunnelIds : List TunnelId) (task : Nat)
  deriving DecidableEq, Repr

def TunnelEntry.task : TunnelEntry → Nat
  | .connection _ task => task
  | .listener _ _ task => task

/-- Forgets a sub-tunnel. -/
def TunnelEntry.forget (id : TunnelId) : TunnelEntry → TunnelEntry
  | .connection info task => .connection info task
  | .listener info subTunnelIds task => .listener info (subTunnelIds.filter (· ≠ id)) task

/-- What becomes of a write. -/
inductive WriteResult where
  | accepted
  | full
  | closed
  | listener
  | notFound
  deriving DecidableEq, Repr

/-- The answer to a write. -/
def WriteResult.toResult (id : TunnelId) : WriteResult → Except IoError Unit
  | .accepted => .ok ()
  | .full => .error (.new .other s!"Tunnel {id} write channel full or closed")
  | .closed => .error (.new .other s!"Tunnel {id} write channel full or closed")
  | .listener => .error (.new .other s!"Cannot write to listener {id}")
  | .notFound => .error (.new .other s!"No tunnel found with id {id}")

/-- What clients are told. -/
inductive TunnelReply where
  | opened (r : Nat) (result : Except IoError TunnelId)
  | listening (r : Nat) (result : Except IoError (TunnelId × UInt16))
  | written (r : Nat) (result : Except IoError Unit)
  | closed (r : Nat) (result : Except IoError Unit)
  | tunnelIncoming (listenerId tunnelId : TunnelId)
  | tunnelClosed (id : TunnelId)

/-- How much data a write channel has room for. -/
def WRITE_CAPACITY : Nat := 1024

/-- How many messages the channel to the actor has room for. -/
def TUNNEL_CAPACITY : Nat := 1

structure TunnelState where
  nextId : TunnelId
  tunnels : TunnelId → Option TunnelEntry
  /-- the messages to the actor -/
  queue : List InnerTunnelMsg
  /-- the message that the actor deals with -/
  busy : Option InnerTunnelMsg
  /-- all tasks that were ever spawned -/
  spawned : List Spawned
  connections : Nat → ConnectionState
  listeners : Nat → ListenerState
  replies : List TunnelReply
  /-- the tasks of all connections that were ever put into the table -/
  registered : List Nat
  /-- all ids that the actor was told to remove -/
  removed : List TunnelId
  /-- the tasks of all tunnels that a request to close has closed -/
  closed : List Nat
  /-- every write that was answered: was the tunnel due to be written to, and the result -/
  writes : List (Bool × WriteResult)

inductive TunnelEvent where
  /-- a client's request is sent to the actor -/
  | request (msg : InnerTunnelMsg)
  /-- the actor takes a message -/
  | take
  /-- the actor is done with the message, and `outcome` is how connecting or binding ended -/
  | finish (outcome : Except IoError UInt16)
  /-- a listener accepts a connection and announces it -/
  | accept (listener : Nat) (host : String) (port : UInt16)
  /-- a listener cannot accept, or cannot announce what it has accepted -/
  | acceptFails (listener : Nat) (drawn : Bool)
  /-- a listener sends what it has to register -/
  | register (listener : Nat)
  /-- a connection ends at either of its sides -/
  | connectionEnds (task : Nat)
  /-- a connection takes data out of its write channel -/
  | drain (task : Nat)
  /-- a task that has ended tells the actor -/
  | sendRemove (task : Nat)
  /-- a listener that was told to abort yields -/
  | cancel (listener : Nat)

namespace TunnelState

def new : TunnelState where
  nextId := 1
  tunnels := fun _ => none
  queue := []
  busy := none
  spawned := []
  connections := fun _ => ⟨.running, 0⟩
  listeners := fun _ => ⟨.accepting, false⟩
  replies := []
  registered := []
  removed := []
  closed := []
  writes := []

/-- The messages that the actor has yet to deal with. -/
def inFlight (s : TunnelState) : List InnerTunnelMsg := s.busy.toList ++ s.queue

def isConnection (s : TunnelState) (task : Nat) : Bool :=
  match s.spawned[task]? with
  | some ⟨_, .connection _⟩ => true
  | _ => false

def isListener (s : TunnelState) (task : Nat) : Bool :=
  match s.spawned[task]? with
  | some ⟨_, .listener⟩ => true
  | _ => false

/-- Draws an id and spawns a task for it. -/
def spawn (s : TunnelState) (kind : TunnelKind) : TunnelState :=
  { s with
    nextId := s.nextId + 1
    spawned := s.spawned ++ [⟨s.nextId, kind⟩]
    connections := Function.update s.connections s.spawned.length ⟨.running, 0⟩
    listeners := Function.update s.listeners s.spawned.length ⟨.accepting, false⟩ }

def insert (s : TunnelState) (id : TunnelId) (entry : TunnelEntry) : TunnelState :=
  { s with tunnels := Function.update s.tunnels id (some entry) }

def reply (s : TunnelState) (reply : TunnelReply) : TunnelState :=
  { s with replies := s.replies ++ [reply] }

/-- Was this tunnel, or the listener that it belongs to, closed by a request? -/
def wasClosed (s : TunnelState) (task : Nat) (parent : Option Nat) : Bool :=
  s.closed.contains task || parent.any s.closed.contains

/-- The task is that of a tunnel with this id whose connection has not ended and which was not
closed. -/
def isDueTask (s : TunnelState) (id : TunnelId) (task : Nat) : Bool :=
  match s.spawned[task]? with
  | some ⟨id', .connection parent⟩ =>
    id' == id && (s.connections task).phase == .running && !s.wasClosed task parent
  | _ => false

/-- A tunnel that was announced under this id has not ended and was not closed. -/
def isDue (s : TunnelState) (id : TunnelId) : Bool :=
  (List.range s.spawned.length).any (s.isDueTask id)

/-- `try_send` on the write channel of a tunnel. -/
def trySend (s : TunnelState) (task : Nat) : WriteResult × TunnelState :=
  let c := s.connections task
  if c.phase ≠ .running then (.closed, s)
  else if WRITE_CAPACITY ≤ c.queued then (.full, s)
  else
    (.accepted,
      { s with
        connections := Function.update s.connections task { c with queued := c.queued + 1 } })

/-- The arm `Write` of the actor. -/
def onWrite (s : TunnelState) (r : Nat) (id : TunnelId) : TunnelState :=
  let due := s.isDue id
  let (result, s) :=
    match s.tunnels id with
    | some (.connection _ task) => s.trySend task
    | some (.listener ..) => (.listener, s)
    | none => (.notFound, s)
  { s with writes := s.writes ++ [(due, result)] }.reply (.written r (result.toResult id))

/-- `close_tunnel` -/
def closeTunnel (s : TunnelState) (id : TunnelId) : Except IoError Unit × TunnelState :=
  match s.tunnels id with
  | some (.connection _ task) =>
    -- dropping the write channel is what ends the connection
    (.ok (), { s with tunnels := Function.update s.tunnels id none, closed := task :: s.closed })
  | some (.listener _ subTunnelIds task) =>
    (.ok (),
      { s with
        tunnels := fun i => if i = id ∨ i ∈ subTunnelIds then none else s.tunnels i
        listeners := Function.update s.listeners task { s.listeners task with aborted := true }
        closed := task :: s.closed })
  | none => (.error (.new .other s!"No tunnel found with id {id}"), s)

/-- The arm `InternalRemove` of the actor, which removes connections only. -/
def onRemove (s : TunnelState) (id : TunnelId) : TunnelState :=
  let s := { s with removed := id :: s.removed }
  match s.tunnels id with
  | some (.connection ..) =>
    { s with
      tunnels := fun i => if i = id then none else (s.tunnels i).map (TunnelEntry.forget id) }
  | _ => s

/-- The arm `InternalRegisterSubTunnel` of the actor. -/
def onRegister (s : TunnelState) (listenerId tunnelId : TunnelId) (host : String) (port : UInt16)
    (task : Nat) : TunnelState :=
  let s := s.insert tunnelId (.connection ⟨tunnelId, .reverse, host, port⟩ task)
  let s := { s with registered := task :: s.registered }
  match s.tunnels listenerId with
  | some (.listener info subTunnelIds listener) =>
    s.insert listenerId (.listener info (subTunnelIds ++ [tunnelId]) listener)
  | _ => s

/-- What the actor does with a message. -/
def handle (s : TunnelState) (outcome : Except IoError UInt16) : InnerTunnelMsg → TunnelState
  | .opening r host port =>
    match outcome with
    | .error e => s.reply (.opened r (.error e))
    | .ok _ =>
      let id := s.nextId
      let task := s.spawned.length
      let s := s.spawn (.connection none)
      let s := s.insert id (.connection ⟨id, .forward, host, port⟩ task)
      { s with registered := task :: s.registered }.reply (.opened r (.ok id))
  | .listening r host _ =>
    match outcome with
    | .error e => s.reply (.listening r (.error e))
    | .ok actualPort =>
      let id := s.nextId
      let task := s.spawned.length
      let s := s.spawn .listener
      let s := s.insert id (.listener ⟨id, .reverse, host, actualPort⟩ [] task)
      s.reply (.listening r (.ok (id, actualPort)))
  | .write r id _ => s.onWrite r id
  | .close r id =>
    let (result, s) := s.closeTunnel id
    s.reply (.closed r result)
  | .internalRemove id => s.onRemove id
  | .internalRegisterSubTunnel listenerId tunnelId host port task =>
    s.onRegister listenerId tunnelId host port task

/-- Sends a message to the actor, if there is room. -/
def send (s : TunnelState) (msg : InnerTunnelMsg) : Option TunnelState :=
  if s.queue.length < TUNNEL_CAPACITY then some { s with queue := s.queue ++ [msg] } else none

def setConnection (s : TunnelState) (task : Nat) (c : ConnectionState) : TunnelState :=
  { s with connections := Function.update s.connections task c }

def setListener (s : TunnelState) (task : Nat) (phase : ListenerPhase) : TunnelState :=
  { s with listeners := Function.update s.listeners task { s.listeners task with phase := phase } }

/-- The id that a task was spawned with. -/
def idOf (s : TunnelState) (task : Nat) : TunnelId :=
  match s.spawned[task]? with
  | some t => t.id
  | none => 0

/-- A request of a client, as opposed to a message of a task. -/
def isRequest : InnerTunnelMsg → Bool
  | .internalRemove _ => false
  | .internalRegisterSubTunnel .. => false
  | _ => true

def step (s : TunnelState) : TunnelEvent → Option TunnelState
  | .request msg => if isRequest msg then s.send msg else none
  | .take =>
    match s.busy, s.queue with
    | none, msg :: queue => some { s with busy := some msg, queue := queue }
    | _, _ => none
  | .finish outcome => s.busy.map fun msg => { s with busy := none }.handle outcome msg
  | .accept listener host port =>
    if s.isListener listener && (s.listeners listener).phase == .accepting then
      let tunnelId := s.nextId
      let task := s.spawned.length
      let s := s.reply (.tunnelIncoming (s.idOf listener) tunnelId)
      some ((s.spawn (.connection (some listener))).setListener listener
        (.registering task tunnelId host port))
    else none
  | .acceptFails listener drawn =>
    if s.isListener listener && (s.listeners listener).phase == .accepting then
      -- the id is drawn before the announcement fails
      let s := if drawn then { s with nextId := s.nextId + 1 } else s
      some ((s.setListener listener .ended).reply (.tunnelClosed (s.idOf listener)))
    else none
  | .register listener =>
    if s.isListener listener then
      match (s.listeners listener).phase with
      | .registering task tunnelId host port =>
        (s.send (.internalRegisterSubTunnel (s.idOf listener) tunnelId host port task)).map
          fun s => s.setListener listener .accepting
      | _ => none
    else none
  | .connectionEnds task =>
    if s.isConnection task && (s.connections task).phase == .running then
      some ((s.setConnection task { s.connections task with phase := .ended }).reply
        (.tunnelClosed (s.idOf task)))
    else none
  | .drain task =>
    if s.isConnection task && (s.connections task).phase == .running then
      some (s.setConnection task
        { s.connections task with queued := (s.connections task).queued - 1 })
    else none
  | .sendRemove task =>
    if s.isConnection task && (s.connections task).phase == .ended then
      (s.send (.internalRemove (s.idOf task))).map fun s =>
        s.setConnection task { s.connections task with phase := .finished }
    else if s.isListener task && (s.listeners task).phase == .ended then
      (s.send (.internalRemove (s.idOf task))).map fun s => s.setListener task .finished
    else none
  | .cancel listener =>
    if s.isListener listener && (s.listeners listener).aborted then
      some (s.setListener listener .cancelled)
    else none

end TunnelState

end Distant
