import Mathlib.Logic.Function.Basic
import Distant.Manager.Connection
import Distant.Protocol

/-!
# The manager server

`ManagerServer` keeps three tables, each behind its own lock: the connections to servers, the
channels open on them, and the tunnels that the manager runs over them. Each request runs as a task
of its own, and can be interrupted by any other wherever it awaits something. `Task` lists these
places, with the variables that are live there, and one turn of a task takes it to the next one.

`kill` holds the lock on the connections from the moment it takes its connection out of the table
until it has swept away the tunnels. Starting a tunnel looks its connection up, lets go of the lock,
and puts the tunnel into the table when it has been set up.
-/

namespace Distant

abbrev ManagedTunnelId := UInt32

structure ManagedTunnelInfo where
  id : ManagedTunnelId
  connectionId : ConnectionId
  direction : TunnelDirection
  bindPort : UInt16
  remoteHost : String
  remotePort : UInt16
  deriving DecidableEq, Repr

inductive ManagerRequest where
  | launch (destination options : String)
  | connect (destination options : String)
  | openChannel (id : ConnectionId)
  | channel (id : ManagerChannelId) (request : UntypedRequest)
  | closeChannel (id : ManagerChannelId)
  | kill (id : ConnectionId)
  | forwardTunnel (connectionId : ConnectionId) (bindPort : UInt16) (remoteHost : String)
      (remotePort : UInt16)
  | reverseTunnel (connectionId : ConnectionId) (remotePort : UInt16) (localHost : String)
      (localPort : UInt16)
  | closeManagedTunnel (id : ManagedTunnelId)

inductive ManagerResponse where
  | killed
  | error (description : String)
  | launched (destination : String)
  | connected (id : ConnectionId)
  | channelOpened (id : ManagerChannelId)
  | channelClosed (id : ManagerChannelId)
  | managedTunnelStarted (id : ManagedTunnelId) (port : UInt16)
  | managedTunnelClosed
  deriving DecidableEq, Repr

/-- Where the responses of a channel go: to the client that opened it with its request, or to the
manager itself. -/
inductive ManagerReply where
  | request (r : Nat)
  | internal
  deriving DecidableEq, Repr

/-- A connection as the table has it. Ids are drawn at random; `serial` tells apart the connections
that drew the same one. -/
structure ManagedConnection where
  id : ConnectionId
  destination : String
  options : String
  serial : Nat
  deriving DecidableEq, Repr

/-- A channel, and the connection that it belongs to. -/
structure ManagerChannel where
  channelId : ManagerChannelId
  serial : Nat
  deriving DecidableEq, Repr

structure ManagedTunnel where
  id : ManagedTunnelId
  connectionId : ConnectionId
  info : ManagedTunnelInfo
  managerChannel : ManagerChannel
  deriving DecidableEq, Repr

/-- What a tunnel request asks for. -/
structure TunnelSetup where
  direction : TunnelDirection
  connectionId : ConnectionId
  /-- the port to bind, here or at the server -/
  bindPort : UInt16
  host : String
  port : UInt16
  deriving DecidableEq, Repr

/-- Where the task of a request waits, and for what. -/
inductive Task where
  /-- for the plugin, to launch a server -/
  | launching
  /-- for the plugin, to connect to a server -/
  | connecting (destination options : String)
  /-- for the lock on the connections, to insert one -/
  | inserting (id : ConnectionId) (destination options : String)
  /-- for the lock on the connections, to look one up -/
  | openingChannel (id : ConnectionId)
  /-- for the lock on the channels; the connections are locked for reading -/
  | registering (channel : ManagerChannel)
  | sending (id : ManagerChannelId) (request : UntypedRequest)
  | closingChannel (id : ManagerChannelId)
  /-- for the lock on the connections, to remove one -/
  | killing (id : ConnectionId)
  /-- for the ids of the channels; the connections are locked from here on -/
  | asking (id : ConnectionId) (connection : ManagedConnection)
  /-- for the lock on the channels -/
  | closing (id : ConnectionId) (connection : ManagedConnection) (ids : List ManagerChannelId)
  /-- for the lock on the tunnels -/
  | sweeping (id : ConnectionId) (connection : ManagedConnection)
  /-- for the lock on the connections, to open a tunnel on one -/
  | tunnelling (setup : TunnelSetup)
  /-- for the tunnel to be set up -/
  | starting (setup : TunnelSetup) (channel : ManagerChannel)
  /-- for the lock on the tunnels, to insert one -/
  | storing (tunnel : ManagedTunnel) (port : UInt16)
  | closingTunnel (id : ManagedTunnelId)

structure ManagerServer where
  connections : HashMap ConnectionId ManagedConnection
  channels : HashMap ManagerChannelId ManagerChannel
  managedTunnels : HashMap ManagedTunnelId ManagedTunnel
  /-- `NEXT_MANAGED_TUNNEL_ID` -/
  nextManagedTunnelId : ManagedTunnelId
  /-- who has locked the connections for writing -/
  writer : Option Nat
  /-- who has locked the connections for reading -/
  readers : List Nat
  tasks : Nat → Option Task
  /-- the tasks of every connection, by its serial number -/
  actors : Nat → ManagerConnection ManagerReply
  /-- all connections that were ever inserted -/
  history : List ManagedConnection
  /-- the serial numbers of all connections whose kill has completed -/
  killed : List Nat
  /-- all responses to requests -/
  replies : List (Nat × ManagerResponse)

inductive ManagerEvent where
  | request (r : Nat) (request : ManagerRequest)
  /-- the plugin is done with launching -/
  | launched (r : Nat) (result : Except String String)
  /-- the plugin is done with connecting; the id is the one that is drawn for the connection -/
  | connected (r : Nat) (result : Except String ConnectionId)
  /-- a tunnel is set up on this port, or could not be -/
  | started (r : Nat) (result : Except String UInt16)
  /-- a turn of a task; `draw` is the channel id that is drawn in it, if one is -/
  | turn (r : Nat) (draw : ManagerChannelId)
  /-- something happens to the tasks of a connection -/
  | connection (serial : Nat) (event : ConnectionEvent ManagerReply)

namespace ManagerServer

def new : ManagerServer where
  connections := ∅
  channels := ∅
  managedTunnels := ∅
  nextManagedTunnelId := 1
  writer := none
  readers := []
  tasks := fun _ => none
  actors := fun _ => .spawn
  history := []
  killed := []
  replies := []

/-- The task of `r` waits at `task` now. -/
def await (s : ManagerServer) (r : Nat) (task : Task) : ManagerServer :=
  { s with tasks := Function.update s.tasks r (some task) }

/-- The task of `r` is over. -/
def finish (s : ManagerServer) (r : Nat) : ManagerServer :=
  { s with tasks := Function.update s.tasks r none }

/-- The task of `r` is over, and this is its response. -/
def reply (s : ManagerServer) (r : Nat) (response : ManagerResponse) : ManagerServer :=
  { s.finish r with replies := s.replies ++ [(r, response)] }

/-- Sends an action to the tasks of a connection. -/
def act (s : ManagerServer) (serial : Nat) (a : Action ManagerReply) : ManagerServer :=
  { s with actors := Function.update s.actors serial ((s.actors serial).enqueue a) }

/-- `ManagerConnection::abort` -/
def abort (s : ManagerServer) (serial : Nat) : ManagerServer :=
  { s with actors := Function.update s.actors serial { s.actors serial with aborted := true } }

def isAborted (s : ManagerServer) (serial : Nat) : Bool := (s.actors serial).aborted

/-- `ManagerChannel::close`, whose result the caller may ignore. -/
def closeChannel (s : ManagerServer) (channel : ManagerChannel) : ManagerServer :=
  s.act channel.serial (.unregister channel.channelId)

/-- Inserts a connection that has just been spawned. One that had drawn the same id is dropped, and
with it its tasks end. -/
def insertConnection (s : ManagerServer) (id : ConnectionId) (destination options : String) :
    ManagerServer :=
  let s :=
    match s.connections.lookup id with
    | none => s
    | some old => s.abort old.serial
  let connection : ManagedConnection := ⟨id, destination, options, s.history.length⟩
  { s with
    connections := s.connections.insert id connection
    history := s.history ++ [connection] }

/-- The loop of `kill` over the channels of its connection. -/
def closeChannels : List ManagerChannelId → ManagerServer → ManagerServer
  | [], s => s
  | id :: ids, s =>
    match s.channels.lookup id with
    | none => closeChannels ids s
    | some channel =>
      closeChannels ids ({ s with channels := s.channels.erase id }.closeChannel channel)

/-- The loop of `kill` over the tunnels of its connection. -/
def abortTunnels : List ManagedTunnelId → ManagerServer → ManagerServer
  | [], s => s
  | id :: ids, s =>
    match s.managedTunnels.lookup id with
    | none => abortTunnels ids s
    | some tunnel =>
      abortTunnels ids
        ({ s with managedTunnels := s.managedTunnels.erase id }.closeChannel tunnel.managerChannel)

/-- The ids of the tunnels that belong to a connection. -/
def tunnelIds (s : ManagerServer) (id : ConnectionId) : List ManagedTunnelId :=
  (s.managedTunnels.entries.filter fun t => t.2.connectionId == id).map fun t => t.2.id

/-- Where the task of a request starts. -/
def onRequest : ManagerRequest → Task
  | .launch _ _ => .launching
  | .connect destination options => .connecting destination options
  | .openChannel id => .openingChannel id
  | .channel id request => .sending id request
  | .closeChannel id => .closingChannel id
  | .kill id => .killing id
  | .forwardTunnel connectionId bindPort remoteHost remotePort =>
    .tunnelling ⟨.forward, connectionId, bindPort, remoteHost, remotePort⟩
  | .reverseTunnel connectionId remotePort localHost localPort =>
    .tunnelling ⟨.reverse, connectionId, remotePort, localHost, localPort⟩
  | .closeManagedTunnel id => .closingTunnel id

/-- What a task does up to the next place where it waits. `none` if it has to wait longer. -/
def turn (s : ManagerServer) (r : Nat) (draw : ManagerChannelId) : Task → Option ManagerServer
  | .launching => none
  | .connecting _ _ => none
  | .inserting id destination options =>
    if s.writer.isSome || !s.readers.isEmpty then none
    else some ((s.insertConnection id destination options).reply r (.connected id))
  | .openingChannel id =>
    if s.writer.isSome then none
    else
      match s.connections.lookup id with
      | none => some (s.reply r (.error "Connection does not exist"))
      | some connection =>
        if s.isAborted connection.serial then
          some (s.reply r (.error "open_channel failed: channel closed"))
        else
          let s := s.act connection.serial (.register draw (.request r))
          some ({ s with readers := r :: s.readers }.await r (.registering ⟨draw, connection.serial⟩))
  | .registering channel =>
    let s :=
      { s with
        readers := s.readers.erase r
        channels := s.channels.insert channel.channelId channel }
    some (s.reply r (.channelOpened channel.channelId))
  | .sending id request =>
    match s.channels.lookup id with
    | none => some (s.reply r (.error "Channel is not open or does not exist"))
    | some channel =>
      if s.isAborted channel.serial then
        some (s.reply r (.error s!"channel {channel.channelId} send failed: channel closed"))
      else some ((s.act channel.serial (.write channel.channelId request)).finish r)
  | .closingChannel id =>
    match s.channels.lookup id with
    | none => some (s.reply r (.error "Channel is not open or does not exist"))
    | some channel =>
      let s := { s with channels := s.channels.erase id }
      if s.isAborted channel.serial then
        some (s.reply r (.error s!"channel {channel.channelId} close failed: channel closed"))
      else some ((s.closeChannel channel).reply r (.channelClosed id))
  | .killing id =>
    if s.writer.isSome || !s.readers.isEmpty then none
    else
      match s.connections.lookup id with
      | none => some (s.reply r (.error "No connection found"))
      | some connection =>
        let s := { s with connections := s.connections.erase id, writer := some r }
        some ((s.act connection.serial (.getRegistered r)).await r (.asking id connection))
  | .asking id connection =>
    match (s.actors connection.serial).answered.lookup r with
    | some ids => some (s.await r (.closing id connection ids))
    | none =>
      -- the tasks of the connection are gone, and nobody will answer
      if s.isAborted connection.serial then some (s.await r (.sweeping id connection)) else none
  | .closing id connection ids => some ((closeChannels ids s).await r (.sweeping id connection))
  | .sweeping id connection =>
    let s := (abortTunnels (s.tunnelIds id) s).abort connection.serial
    let s := { s with writer := none, killed := connection.serial :: s.killed }
    some (s.reply r .killed)
  | .tunnelling setup =>
    if s.writer.isSome then none
    else
      match s.connections.lookup setup.connectionId with
      | none => some (s.reply r (.error "Connection does not exist"))
      | some connection =>
        if s.isAborted connection.serial then
          some (s.reply r (.error "open_channel failed: channel closed"))
        else
          let s := s.act connection.serial (.register draw .internal)
          some (s.await r (.starting setup ⟨draw, connection.serial⟩))
  | .starting _ _ => none
  | .storing tunnel port =>
    let s := { s with managedTunnels := s.managedTunnels.insert tunnel.id tunnel }
    some (s.reply r (.managedTunnelStarted tunnel.id port))
  | .closingTunnel id =>
    match s.managedTunnels.lookup id with
    | none => some (s.reply r (.error s!"No managed tunnel with id {id}"))
    | some tunnel =>
      let s := { s with managedTunnels := s.managedTunnels.erase id }
      some ((s.closeChannel tunnel.managerChannel).reply r .managedTunnelClosed)

/-- The tunnel that has been set up: `start_forward_tunnel` and `start_reverse_tunnel`. -/
def tunnelOf (id : ManagedTunnelId) (setup : TunnelSetup) (channel : ManagerChannel)
    (port : UInt16) : ManagedTunnel where
  id := id
  connectionId := setup.connectionId
  info := ⟨id, setup.connectionId, setup.direction, port, setup.host, setup.port⟩
  managerChannel := channel

def step (s : ManagerServer) : ManagerEvent → Option ManagerServer
  | .request r request =>
    match s.tasks r with
    | none => some (s.await r (onRequest request))
    | some _ => none
  | .launched r result =>
    match s.tasks r, result with
    | some .launching, .ok destination => some (s.reply r (.launched destination))
    | some .launching, .error e => some (s.reply r (.error e))
    | _, _ => none
  | .connected r result =>
    match s.tasks r, result with
    | some (.connecting destination options), .ok id =>
      some (s.await r (.inserting id destination options))
    | some (.connecting _ _), .error e => some (s.reply r (.error e))
    | _, _ => none
  | .started r result =>
    match s.tasks r, result with
    | some (.starting setup channel), .ok port =>
      let tunnel := tunnelOf s.nextManagedTunnelId setup channel port
      some ({ s with nextManagedTunnelId := s.nextManagedTunnelId + 1 }.await r
        (.storing tunnel port))
    | some (.starting _ _), .error e => some (s.reply r (.error e))
    | _, _ => none
  | .turn r draw =>
    match s.tasks r with
    | none => none
    | some task => s.turn r draw task
  | .connection serial event =>
    match event with
    | .respond _ | .act | .fire =>
      ((s.actors serial).step event).map fun actor =>
        { s with actors := Function.update s.actors serial actor }
    | _ => none

end ManagerServer

end Distant
