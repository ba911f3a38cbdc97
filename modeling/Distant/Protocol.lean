import Distant.Lib.Rust

/-!
# The parts of the protocol that several components share
-/

namespace Distant

abbrev ConnectionId := UInt32

inductive TunnelDirection where
  | forward
  | reverse
  deriving DecidableEq, Repr

abbrev TunnelId := UInt32

structure TunnelInfo where
  id : TunnelId
  direction : TunnelDirection
  host : String
  port : UInt16
  deriving DecidableEq, Repr

abbrev ProcessId := UInt32

structure PtySize where
  rows : UInt16
  cols : UInt16
  pixelWidth : UInt16
  pixelHeight : UInt16
  deriving DecidableEq, Repr

inductive FileType where
  | dir
  | file
  | symlink
  deriving DecidableEq, Repr

/-- What a listing says of one entry, with its path as the remote writes it. -/
structure DirEntry where
  path : String
  fileType : FileType
  depth : Nat
  deriving DecidableEq, Repr

/-- The requests of a client about a process or a tunnel that is there already. -/
inductive Request where
  | procStdin (id : ProcessId) (data : Bytes)
  | procResizePty (id : ProcessId) (size : PtySize)
  | procKill (id : ProcessId)
  | tunnelWrite (id : TunnelId) (data : Bytes)
  | tunnelClose (id : TunnelId)
  deriving DecidableEq, Repr

/-- A wrapper around a message, supporting single and batch payloads. -/
inductive Msg (T : Type) where
  | single (payload : T)
  | batch (payloads : List T)
  deriving DecidableEq, Repr

/-- Convert into a collection of payload data. -/
def Msg.intoVec {T : Type} : Msg T → List T
  | .single x => [x]
  | .batch x => x

/-- A request whose payload is bytes instead of a specific type. -/
structure UntypedRequest where
  header : Bytes
  id : String
  payload : Bytes
  deriving DecidableEq, Repr

def UntypedRequest.setId (req : UntypedRequest) (id : String) : UntypedRequest :=
  { req with id := id }

/-- A response whose payload is bytes instead of a specific type. -/
structure UntypedResponse where
  header : Bytes
  id : String
  originId : String
  payload : Bytes
  deriving DecidableEq, Repr

def UntypedResponse.setOriginId (res : UntypedResponse) (originId : String) : UntypedResponse :=
  { res with originId := originId }

end Distant
