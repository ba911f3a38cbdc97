import Mathlib.Algebra.Order.Group.Nat
import Mathlib.Data.List.ReduceOption
import Mathlib.Logic.Function.Basic
import Distant.Lib.Machine
import Distant.Protocol

/-!
# A reverse tunnel at the client

The server tells the client of each connection that its listener accepts, and of what comes from it,
all in one mailbox. A task of `RemoteTunnelListener` makes a channel for each connection and puts
there what is for it. It waits where a channel is full, so a connection that nobody reads from can
hold up all others.

`reads_own` says that a reader yields what came for its connection, and `delivered_iff` when all that
is read from comes through.
-/

namespace Distant

/-- Capacity associated with a client tunnel receiving data -/
def CLIENT_TUNNEL_CAPACITY : Nat := 10000

/-- Of the responses that are not about tunnels only the name is used, and the error. -/
inductive TunnelResponse where
  | error (e : IoError)
  | tunnelOpened (id : TunnelId)
  | tunnelListening (id : TunnelId) (port : UInt16)
  | tunnelData (id : TunnelId) (data : Bytes)
  | tunnelIncoming (listenerId tunnelId : TunnelId) (peerAddr : Option String)
  | tunnelClosed (id : TunnelId)
  | other (name : String)
  deriving DecidableEq, Repr

def TunnelResponse.asRef : TunnelResponse → String
  | .error _ => "error"
  | .tunnelOpened _ => "tunnel_opened"
  | .tunnelListening .. => "tunnel_listening"
  | .tunnelData .. => "tunnel_data"
  | .tunnelIncoming .. => "tunnel_incoming"
  | .tunnelClosed _ => "tunnel_closed"
  | .other name => name

/-- A sub-tunnel, with the channel of its reader. -/
structure SubTunnel where
  tunnelId : TunnelId
  peerAddr : Option String
  channel : List Bytes
  /-- the reader was dropped -/
  dropped : Bool
  /-- what `read` has returned, and at the end that there is no more -/
  yielded : List (Option Bytes)
  deriving Repr

/-- Its reader is dropped. -/
def SubTunnel.drop (t : SubTunnel) : SubTunnel := { t with channel := [], dropped := true }

/-- The data that `read` has returned. -/
def SubTunnel.taken (t : SubTunnel) : List Bytes := t.yielded.reduceOption

/-- The task that reads the mailbox. -/
inductive RemoteListenerTask where
  /-- waits for the next payload -/
  | waiting
  /-- what is left of the payload -/
  | routing (rest : List TunnelResponse)
  /-- hands the sub-tunnel `n` to the caller -/
  | handing (n : Nat) (rest : List TunnelResponse)
  | ended

inductive RemoteListenerPhase where
  | confirming
  /-- `listen` has returned an error -/
  | failed (e : IoError)
  | listening (id : TunnelId) (port : UInt16) (task : RemoteListenerTask)

structure RemoteTunnelListener where
  /-- what the mailbox has yet to give, payload by payload -/
  mailbox : List (Msg TunnelResponse)
  /-- nothing comes after that -/
  closed : Bool
  phase : RemoteListenerPhase
  /-- the table of the task, by the number of the sub-tunnel -/
  subTunnels : TunnelId → Option Nat
  /-- how many sub-tunnels there have been -/
  made : Nat
  tunnels : Nat → SubTunnel
  /-- the incoming tunnels that wait for the caller -/
  channel : List Nat
  /-- the listener, and with it the receiver, was dropped -/
  dropped : Bool
  /-- what `next` has returned, and at the end that there is no more -/
  accepted : List (Option Nat)

inductive RemoteListenerEvent where
  /-- `listen` goes on -/
  | listen
  /-- the task goes on -/
  | task
  /-- `next` returns -/
  | next
  /-- `read` of a sub-tunnel returns -/
  | read (n : Nat)
  | dropReader (n : Nat)
  | drop
  /-- the task is aborted -/
  | close
  deriving DecidableEq

namespace RemoteTunnelListener

/-- Before the first payload. -/
def new (mailbox : List (Msg TunnelResponse)) (closed : Bool) : RemoteTunnelListener :=
  ⟨mailbox, closed, .confirming, fun _ => none, 0, fun _ => ⟨0, none, [], false, []⟩, [], false, []⟩

/-- What `listen` makes of the first payload. -/
def confirm : Msg TunnelResponse → Except IoError (TunnelId × UInt16)
  | .single (.tunnelListening id port) => .ok (id, port)
  | .single (.error e) => .error e
  | .single x => .error (.new .invalidData ("Got response type of " ++ x.asRef))
  | .batch _ => .error (.new .invalidData "Got batch instead of single response")

def stepListen (s : RemoteTunnelListener) : Option RemoteTunnelListener :=
  match s.phase, s.mailbox with
  | .confirming, [] =>
    if s.closed then some { s with phase := .failed (.ofKind .connectionAborted) }
    else none
  | .confirming, res :: mailbox =>
    match confirm res with
    | .error e => some { s with mailbox := mailbox, phase := .failed e }
    | .ok (id, port) => some { s with mailbox := mailbox, phase := .listening id port .waiting }
  | _, _ => none

def setTunnel (s : RemoteTunnelListener) (n : Nat) (t : SubTunnel) : RemoteTunnelListener :=
  { s with tunnels := Function.update s.tunnels n t }

/-- The sender of the sub-tunnel leaves the table. -/
def forget (s : RemoteTunnelListener) (id : TunnelId) : RemoteTunnelListener :=
  { s with subTunnels := Function.update s.subTunnels id none }

/-- Makes a sub-tunnel. -/
def make (s : RemoteTunnelListener) (id : TunnelId) (peerAddr : Option String) :
    RemoteTunnelListener :=
  { s with
    subTunnels := Function.update s.subTunnels id (some s.made)
    made := s.made + 1
    tunnels := Function.update s.tunnels s.made ⟨id, peerAddr, [], false, []⟩ }

/-- What the task does with a response, and how it goes on. The payload is left at once where the
caller is not there any more. -/
def route (s : RemoteTunnelListener) (id : TunnelId) (rest : List TunnelResponse) :
    TunnelResponse → Option (RemoteTunnelListener × RemoteListenerTask)
  | .tunnelIncoming listenerId tunnelId peerAddr =>
    if listenerId ≠ id then some (s, .routing rest)
    else if s.dropped then some (s, .waiting)
    else some (s.make tunnelId peerAddr, .handing s.made rest)
  | .tunnelData dataId data =>
    match s.subTunnels dataId with
    | none => some (s, .routing rest)
    | some n =>
      let t := s.tunnels n
      if t.dropped then some (s.forget dataId, .routing rest)
      else if t.channel.length < CLIENT_TUNNEL_CAPACITY then
        some (s.setTunnel n { t with channel := t.channel ++ [data] }, .routing rest)
      else none
  | .tunnelClosed closedId =>
    match s.subTunnels closedId with
    | some _ => some (s.forget closedId, .routing rest)
    | none => some (s, if closedId = id then .ended else .routing rest)
  | _ => some (s, .routing rest)

/-- Sends the incoming tunnel `n` to the caller. If that fails, its reader goes with it. -/
def hand (s : RemoteTunnelListener) (n : Nat) (rest : List TunnelResponse) :
    Option (RemoteTunnelListener × RemoteListenerTask) :=
  if s.dropped then
    some (s.setTunnel n (s.tunnels n).drop, .waiting)
  else if s.channel.length < CLIENT_TUNNEL_CAPACITY then
    some ({ s with channel := s.channel ++ [n] }, .routing rest)
  else none

/-- One round of the task. -/
def advance (s : RemoteTunnelListener) (id : TunnelId) :
    RemoteListenerTask → Option (RemoteTunnelListener × RemoteListenerTask)
  | .waiting =>
    match s.mailbox with
    | [] => if s.closed then some (s, .ended) else none
    | res :: mailbox => some ({ s with mailbox := mailbox }, .routing res.intoVec)
  | .routing [] => some (s, .waiting)
  | .routing (r :: rest) => s.route id rest r
  | .handing n rest => s.hand n rest
  | .ended => none

def stepTask (s : RemoteTunnelListener) : Option RemoteTunnelListener :=
  match s.phase with
  | .listening id port task =>
    (s.advance id task).map fun (s, task) => { s with phase := .listening id port task }
  | _ => none

def hasEnded (s : RemoteTunnelListener) : Bool :=
  match s.phase with
  | .listening _ _ .ended => true
  | _ => false

def stepNext (s : RemoteTunnelListener) : Option RemoteTunnelListener :=
  if s.dropped || s.accepted.contains none then none
  else
    match s.channel with
    | n :: channel => some { s with channel := channel, accepted := s.accepted ++ [some n] }
    | [] => if s.hasEnded then some { s with accepted := s.accepted ++ [none] } else none

/-- The task still has the sender of the sub-tunnel. -/
def isRouted (s : RemoteTunnelListener) (n : Nat) : Bool :=
  !s.hasEnded && s.subTunnels (s.tunnels n).tunnelId == some n

def stepRead (s : RemoteTunnelListener) (n : Nat) : Option RemoteTunnelListener :=
  let t := s.tunnels n
  if t.dropped || !s.accepted.contains (some n) || t.yielded.contains none then none
  else
    match t.channel with
    | data :: channel =>
      some (s.setTunnel n { t with channel := channel, yielded := t.yielded ++ [some data] })
    | [] =>
      if s.isRouted n then none
      else some (s.setTunnel n { t with yielded := t.yielded ++ [none] })

def step (s : RemoteTunnelListener) : RemoteListenerEvent → Option RemoteTunnelListener
  | .listen => s.stepListen
  | .task => s.stepTask
  | .next => s.stepNext
  | .read n => s.stepRead n
  | .dropReader n =>
    if s.accepted.contains (some n) then
      some (s.setTunnel n (s.tunnels n).drop)
    else none
  | .drop =>
    match s.dropped, s.phase with
    | false, .listening .. =>
      -- with the receiver go the tunnels in it
      some { s with
        dropped := true
        channel := []
        tunnels := fun n => if n ∈ s.channel then (s.tunnels n).drop else s.tunnels n }
    | _, _ => none
  | .close =>
    match s.dropped, s.phase with
    | false, .listening id port (.handing n _) =>
      some ({ s with phase := .listening id port .ended }.setTunnel n (s.tunnels n).drop)
    | false, .listening id port _ => some { s with phase := .listening id port .ended }
    | _, _ => none

/-! ## What is meant for whom -/

/-- What comes for a connection after it has been announced: until it is closed, its id is given to
another, or the listener is closed. -/
def dataOf (listenerId id : TunnelId) : List TunnelResponse → List Bytes
  | [] => []
  | .tunnelData dataId data :: rest =>
    if dataId = id then data :: dataOf listenerId id rest else dataOf listenerId id rest
  | .tunnelIncoming incomingId tunnelId _ :: rest =>
    if incomingId = listenerId ∧ tunnelId = id then [] else dataOf listenerId id rest
  | .tunnelClosed closedId :: rest =>
    if closedId = id ∨ closedId = listenerId then [] else dataOf listenerId id rest
  | _ :: rest => dataOf listenerId id rest

/-- Nothing more comes for a connection after that. -/
def isEnd (listenerId id : TunnelId) : TunnelResponse → Bool
  | .tunnelIncoming incomingId tunnelId _ => incomingId = listenerId ∧ tunnelId = id
  | .tunnelClosed closedId => closedId = id ∨ closedId = listenerId
  | _ => false

/-- A connection, and all that comes from it. -/
structure Incoming where
  tunnelId : TunnelId
  peerAddr : Option String
  data : List Bytes
  ended : Bool
  deriving DecidableEq, Repr

/-- The connections that are announced until the listener is closed. -/
def incomings (listenerId : TunnelId) : List TunnelResponse → List Incoming
  | [] => []
  | .tunnelIncoming incomingId tunnelId peerAddr :: rest =>
    if incomingId = listenerId then
      ⟨tunnelId, peerAddr, dataOf listenerId tunnelId rest, rest.any (isEnd listenerId tunnelId)⟩ ::
        incomings listenerId rest
    else incomings listenerId rest
  | .tunnelClosed closedId :: rest =>
    if closedId = listenerId then [] else incomings listenerId rest
  | _ :: rest => incomings listenerId rest

/-- The responses of all payloads. -/
def flat (mailbox : List (Msg TunnelResponse)) : List TunnelResponse := mailbox.flatMap Msg.intoVec

/-! ## What the task does -/

/-- All of it, or, if that is not asked for, some of it from the start on. -/
def UpTo {α : Type} (whole : Prop) (xs ys : List α) : Prop := xs <+: ys ∧ (whole → xs = ys)

theorem UpTo.shorten {α : Type} {whole : Prop} {xs xs' ys : List α} (h : UpTo whole xs ys)
    (hle : xs' <+: xs) (hexact : ¬ whole) : UpTo whole xs' ys :=
  ⟨hle.trans h.1, fun h => absurd h hexact⟩

/-- What was read, waits to be read, or is still to come. -/
def dataFor (listenerId : TunnelId) (rest : List TunnelResponse) (s : RemoteTunnelListener)
    (n : Nat) : List Bytes :=
  let t := s.tunnels n
  t.taken ++ t.channel ++
    if s.subTunnels t.tunnelId = some n then dataOf listenerId t.tunnelId rest else []

/-- The sub-tunnels are those that were announced, and nothing of their data is lost. `rest` is what
the task has yet to read. -/
structure Routes (listenerId : TunnelId) (announced : List Incoming) (whole : Prop)
    (rest : List TunnelResponse) (s : RemoteTunnelListener) : Prop where
  table : ∀ id n, s.subTunnels id = some n → n < s.made ∧ (s.tunnels n).tunnelId = id
  ahead : UpTo whole (incomings listenerId rest) (announced.drop s.made)
  tunnels : ∀ n < s.made, ∃ i, announced[n]? = some i ∧ (s.tunnels n).tunnelId = i.tunnelId ∧
    (s.tunnels n).peerAddr = i.peerAddr ∧
      ((s.tunnels n).dropped = false → UpTo whole (s.dataFor listenerId rest n) i.data)

section Routes

@[simp]
theorem tunnels_setTunnel_self (s : RemoteTunnelListener) (n : Nat) (t : SubTunnel) :
    (s.setTunnel n t).tunnels n = t := Function.update_self _ _ _

theorem tunnels_setTunnel_of_ne (s : RemoteTunnelListener) {n m : Nat} (h : m ≠ n) (t : SubTunnel) :
    (s.setTunnel n t).tunnels m = s.tunnels m := Function.update_of_ne h _ _

@[simp]
theorem subTunnels_forget_self (s : RemoteTunnelListener) (id : TunnelId) :
    (s.forget id).subTunnels id = none := Function.update_self _ _ _

theorem subTunnels_forget_of_ne (s : RemoteTunnelListener) {id id' : TunnelId} (h : id' ≠ id) :
    (s.forget id).subTunnels id' = s.subTunnels id' := Function.update_of_ne h _ _

section

variable (s : RemoteTunnelListener) (id : TunnelId) (peerAddr : Option String)

@[simp]
theorem subTunnels_make_self : (s.make id peerAddr).subTunnels id = some s.made :=
  Function.update_self _ _ _

theorem subTunnels_make_of_ne {id' : TunnelId} (h : id' ≠ id) :
    (s.make id peerAddr).subTunnels id' = s.subTunnels id' := Function.update_of_ne h _ _

@[simp]
theorem tunnels_make_self : (s.make id peerAddr).tunnels s.made = ⟨id, peerAddr, [], false, []⟩ :=
  Function.update_self _ _ _

theorem tunnels_make_of_lt {n : Nat} (h : n < s.made) :
    (s.make id peerAddr).tunnels n = s.tunnels n := Function.update_of_ne (Nat.ne_of_lt h) _ _

end

variable {l : TunnelId} {announced : List Incoming} {whole : Prop} {r : TunnelResponse}
  {rest rest' : List TunnelResponse} {s s' : RemoteTunnelListener}

/-- Where no tunnel is made, and the data of those that are read is the same. -/
theorem Routes.congr (h : Routes l announced whole rest s) (hmade : s'.made = s.made)
    (htable : ∀ id n, s'.subTunnels id = some n → s.subTunnels id = some n)
    (hahead : incomings l rest' = incomings l rest)
    (hsame : ∀ n < s.made, (s'.tunnels n).tunnelId = (s.tunnels n).tunnelId ∧
      (s'.tunnels n).peerAddr = (s.tunnels n).peerAddr ∧
        ((s'.tunnels n).dropped = false → (s.tunnels n).dropped = false ∧
          s'.dataFor l rest' n = s.dataFor l rest n)) :
    Routes l announced whole rest' s' where
  table id n hn := by
    obtain ⟨hlt, hid⟩ := h.table id n (htable id n hn)
    rw [hmade, (hsame n hlt).1]
    exact ⟨hlt, hid⟩
  ahead := by
    rw [hmade, hahead]
    exact h.ahead
  tunnels n hn := by
    rw [hmade] at hn
    obtain ⟨hid, hpeer, hdata⟩ := hsame n hn
    obtain ⟨i, hi, hid', hpeer', hupto⟩ := h.tunnels n hn
    refine ⟨i, hi, hid.trans hid', hpeer.trans hpeer', fun hdropped => ?_⟩
    rw [(hdata hdropped).2]
    exact hupto (hdata hdropped).1

theorem dataFor_of_routed {n : Nat} (hn : s.subTunnels (s.tunnels n).tunnelId = some n) :
    s.dataFor l rest n =
      (s.tunnels n).taken ++ (s.tunnels n).channel ++ dataOf l (s.tunnels n).tunnelId rest := by
  simp only [dataFor, if_pos hn]

theorem dataFor_of_not_routed {n : Nat} (hn : s.subTunnels (s.tunnels n).tunnelId ≠ some n) :
    s.dataFor l rest n = (s.tunnels n).taken ++ (s.tunnels n).channel := by
  simp only [dataFor, if_neg hn, List.append_nil]

/-- A response that is for none of the tunnels changes nothing. -/
theorem Routes.skip (h : Routes l announced whole (r :: rest) s)
    (hahead : incomings l (r :: rest) = incomings l rest)
    (hnobody : ∀ n, s.subTunnels (s.tunnels n).tunnelId = some n →
      dataOf l (s.tunnels n).tunnelId (r :: rest) = dataOf l (s.tunnels n).tunnelId rest) :
    Routes l announced whole rest s := by
  refine h.congr rfl (fun _ _ h => h) hahead.symm fun n _ =>
    ⟨rfl, rfl, fun hdropped => ⟨hdropped, ?_⟩⟩
  by_cases hn : s.subTunnels (s.tunnels n).tunnelId = some n
  · rw [dataFor_of_routed hn, dataFor_of_routed hn, hnobody n hn]
  · rw [dataFor_of_not_routed hn, dataFor_of_not_routed hn]

/-- A tunnel that nothing more comes for, or that is not read, leaves the table. -/
theorem Routes.forget (h : Routes l announced whole (r :: rest) s) {id : TunnelId} {k : Nat}
    (hk : s.subTunnels id = some k) (hahead : incomings l (r :: rest) = incomings l rest)
    (hgone : (s.tunnels k).dropped = true ∨ dataOf l id (r :: rest) = [])
    (hothers : ∀ id', id' ≠ id → dataOf l id' (r :: rest) = dataOf l id' rest) :
    Routes l announced whole rest (s.forget id) := by
  have hid := (h.table id k hk).2
  refine h.congr rfl (fun id' n hn => ?_) hahead.symm fun n _ =>
    ⟨rfl, rfl, fun hdropped => ⟨hdropped, ?_⟩⟩
  · by_cases heq : id' = id
    · rw [heq, subTunnels_forget_self] at hn
      cases hn
    · rwa [subTunnels_forget_of_ne s heq] at hn
  · by_cases heq : (s.tunnels n).tunnelId = id
    · have hnew : (s.forget id).subTunnels (s.tunnels n).tunnelId ≠ some n := by
        rw [heq, subTunnels_forget_self]
        simp
      rw [dataFor_of_not_routed hnew]
      by_cases hn : s.subTunnels (s.tunnels n).tunnelId = some n
      · rw [heq, hk] at hn
        cases hn
        have hread : (s.tunnels k).dropped ≠ true := by
          rw [show (s.tunnels k).dropped = false from hdropped]
          simp
        rw [dataFor_of_routed (by rwa [hid]), hid, hgone.resolve_left hread, List.append_nil]
        rfl
      · rw [dataFor_of_not_routed hn]
        rfl
    · have hsame := subTunnels_forget_of_ne s heq
      by_cases hn : s.subTunnels (s.tunnels n).tunnelId = some n
      · rw [dataFor_of_routed (hsame.trans hn), dataFor_of_routed hn, hothers _ heq]
        rfl
      · rw [dataFor_of_not_routed fun h => hn (hsame.symm.trans h), dataFor_of_not_routed hn]
        rfl

/-- Data goes to the channel of the tunnel that it is for. -/
theorem Routes.forward {id : TunnelId} {data : Bytes}
    (h : Routes l announced whole (.tunnelData id data :: rest) s) {k : Nat}
    (hk : s.subTunnels id = some k) :
    Routes l announced whole rest
      (s.setTunnel k { s.tunnels k with channel := (s.tunnels k).channel ++ [data] }) := by
  have hid := (h.table id k hk).2
  refine h.congr rfl (fun _ _ h => h) rfl fun n _ => ?_
  by_cases hnk : n = k
  · subst hnk
    rw [tunnels_setTunnel_self]
    refine ⟨rfl, rfl, fun hdropped => ⟨hdropped, ?_⟩⟩
    rw [dataFor_of_routed (s := s.setTunnel _ _) (by rwa [tunnels_setTunnel_self, hid]),
      dataFor_of_routed (by rwa [hid]), tunnels_setTunnel_self, dataOf, if_pos hid.symm]
    simp [SubTunnel.taken]
  · have hsame := tunnels_setTunnel_of_ne s hnk
      { s.tunnels k with channel := (s.tunnels k).channel ++ [data] }
    rw [hsame]
    refine ⟨rfl, rfl, fun hdropped => ⟨hdropped, ?_⟩⟩
    by_cases hn : s.subTunnels (s.tunnels n).tunnelId = some n
    · have hne : id ≠ (s.tunnels n).tunnelId := by
        rintro rfl
        exact hnk (Option.some.inj (hn.symm.trans hk))
      rw [dataFor_of_routed (s := s.setTunnel _ _) (by rwa [hsame]), dataFor_of_routed hn, hsame,
        dataOf, if_neg hne]
    · rw [dataFor_of_not_routed (s := s.setTunnel _ _) (by rwa [hsame]), dataFor_of_not_routed hn,
        hsame]

/-- A tunnel is made for what has been announced. -/
theorem Routes.make {id : TunnelId} {peerAddr : Option String}
    (h : Routes l announced whole (.tunnelIncoming l id peerAddr :: rest) s) :
    Routes l announced whole rest (s.make id peerAddr) := by
  have hahead := h.ahead
  rw [incomings, if_pos rfl] at hahead
  obtain ⟨⟨more, hmore⟩, hexact⟩ := hahead
  have hi : announced[s.made]? = some ⟨id, peerAddr, dataOf l id rest, rest.any (isEnd l id)⟩ := by
    rw [← List.head?_drop, ← hmore]
    rfl
  have htail : announced.drop (s.made + 1) = incomings l rest ++ more := by
    rw [← List.tail_drop, ← hmore]
    rfl
  refine ⟨fun id' n hn => ?_, ?_, fun n hn => ?_⟩
  · by_cases heq : id' = id
    · rw [heq, subTunnels_make_self] at hn
      cases hn
      exact ⟨Nat.lt_succ_self _, by rw [tunnels_make_self, heq]⟩
    · rw [subTunnels_make_of_ne s id peerAddr heq] at hn
      obtain ⟨hlt, hid⟩ := h.table id' n hn
      exact ⟨Nat.lt_succ_of_lt hlt, by rw [tunnels_make_of_lt s id peerAddr hlt, hid]⟩
  · show UpTo whole (incomings l rest) (announced.drop (s.made + 1))
    refine ⟨⟨more, htail.symm⟩, fun he => ?_⟩
    rw [← List.tail_drop, ← hexact he]
    rfl
  · rcases Nat.lt_succ_iff_lt_or_eq.1 hn with hlt | rfl
    · have hsame := tunnels_make_of_lt s id peerAddr hlt
      obtain ⟨i, hi, hid, hpeer, hupto⟩ := h.tunnels n hlt
      rw [hsame]
      refine ⟨i, hi, hid, hpeer, fun hdropped => ?_⟩
      have hdata : (s.make id peerAddr).dataFor l rest n =
          s.dataFor l (.tunnelIncoming l id peerAddr :: rest) n := by
        by_cases heq : (s.tunnels n).tunnelId = id
        · have hnew : (s.make id peerAddr).subTunnels ((s.make id peerAddr).tunnels n).tunnelId ≠
              some n := by
            rw [hsame, heq, subTunnels_make_self]
            simpa using (Nat.ne_of_lt hlt).symm
          have hnone : dataOf l id (.tunnelIncoming l id peerAddr :: rest) = [] := if_pos ⟨rfl, rfl⟩
          rw [dataFor_of_not_routed hnew, hsame]
          simp only [dataFor, heq, hnone, ite_self, List.append_nil]
        · have hskip : dataOf l (s.tunnels n).tunnelId (.tunnelIncoming l id peerAddr :: rest) =
              dataOf l (s.tunnels n).tunnelId rest := if_neg fun h => heq h.2.symm
          simp only [dataFor, hsame, subTunnels_make_of_ne s id peerAddr heq, hskip]
      rw [hdata]
      exact hupto hdropped
    · refine ⟨_, hi, ?_⟩
      rw [tunnels_make_self]
      refine ⟨rfl, rfl, fun _ => ?_⟩
      have hdata : (s.make id peerAddr).dataFor l rest s.made = dataOf l id rest := by
        rw [dataFor_of_routed (by rw [tunnels_make_self, subTunnels_make_self]), tunnels_make_self]
        rfl
      rw [hdata]
      exact ⟨List.prefix_rfl, fun _ => rfl⟩

/-- What the task has yet to read. -/
def aheadOf (mailbox : List (Msg TunnelResponse)) : RemoteListenerTask → List TunnelResponse
  | .waiting => flat mailbox
  | .routing rest => rest ++ flat mailbox
  | .handing _ rest => rest ++ flat mailbox
  | .ended => []

/-- No connection has the id of the listener in the table. -/
theorem Routes.ne_listener (h : Routes l announced whole rest s)
    (hown : ∀ i ∈ announced, i.tunnelId ≠ l) {id : TunnelId} {n : Nat}
    (hn : s.subTunnels id = some n) : id ≠ l := by
  obtain ⟨hlt, hid⟩ := h.table id n hn
  obtain ⟨i, hi, hid', -⟩ := h.tunnels n hlt
  rw [← hid, hid']
  exact hown i (List.mem_of_getElem? hi)

/-- The tunnel that the task is handing to the caller. -/
def inHand : RemoteListenerTask → List Nat
  | .handing n _ => [n]
  | _ => []

/-- What a round of the task leaves alone while the caller has the listener. -/
structure Advances (s s' : RemoteTunnelListener) (task task' : RemoteListenerTask) : Prop where
  dropped : s'.dropped = s.dropped
  closed : s'.closed = s.closed
  accepted : s'.accepted = s.accepted
  handed : ∃ more, s'.channel ++ inHand task' = s.channel ++ inHand task ++ more ∧
    List.range s'.made = List.range s.made ++ more
  tunnels : ∀ n < s.made, (s'.tunnels n).tunnelId = (s.tunnels n).tunnelId ∧
    (s'.tunnels n).yielded = (s.tunnels n).yielded ∧ (s'.tunnels n).dropped = (s.tunnels n).dropped
  /-- where the sender is gone, nothing more comes -/
  gone : ∀ n < s.made, s.subTunnels (s.tunnels n).tunnelId ≠ some n →
    s'.subTunnels (s.tunnels n).tunnelId ≠ some n ∧ (s'.tunnels n).channel = (s.tunnels n).channel
  fresh : ∀ n, s.made ≤ n → n < s'.made →
    (s'.tunnels n).yielded = [] ∧ (s'.tunnels n).dropped = false
  room : ∀ n, (s.tunnels n).channel.length ≤ CLIENT_TUNNEL_CAPACITY →
    (s'.tunnels n).channel.length ≤ CLIENT_TUNNEL_CAPACITY

theorem Advances.skip {task task' : RemoteListenerTask} (h : inHand task' = inHand task)
    (mailbox : List (Msg TunnelResponse)) : Advances s { s with mailbox := mailbox } task task' :=
  ⟨rfl, rfl, rfl, ⟨[], by simp [h], by simp⟩, fun _ _ => ⟨rfl, rfl, rfl⟩, fun _ _ h => ⟨h, rfl⟩,
    fun _ hle hlt => absurd hlt (Nat.not_lt.2 hle), fun _ h => h⟩

theorem Advances.forget {task task' : RemoteListenerTask} (h : inHand task' = inHand task)
    (id : TunnelId) : Advances s (s.forget id) task task' where
  dropped := rfl
  closed := rfl
  accepted := rfl
  handed := ⟨[], by simp [h, RemoteTunnelListener.forget], by simp [RemoteTunnelListener.forget]⟩
  tunnels _ _ := ⟨rfl, rfl, rfl⟩
  gone n _ hn := by
    refine ⟨?_, rfl⟩
    by_cases heq : (s.tunnels n).tunnelId = id
    · rw [heq, subTunnels_forget_self]
      simp
    · rwa [subTunnels_forget_of_ne s heq]
  fresh _ hle hlt := absurd hlt (Nat.not_lt.2 hle)
  room _ h := h

theorem Advances.forward {task task' : RemoteListenerTask} (h : inHand task' = inHand task)
    {k : Nat} (hk : s.subTunnels (s.tunnels k).tunnelId = some k) {channel : List Bytes}
    (hroom : channel.length ≤ CLIENT_TUNNEL_CAPACITY) :
    Advances s (s.setTunnel k { s.tunnels k with channel := channel }) task task' where
  dropped := rfl
  closed := rfl
  accepted := rfl
  handed := ⟨[], by simp [h, setTunnel], by simp [setTunnel]⟩
  tunnels n _ := by
    by_cases heq : n = k
    · rw [heq, tunnels_setTunnel_self]
      exact ⟨rfl, rfl, rfl⟩
    · rw [tunnels_setTunnel_of_ne s heq]
      exact ⟨rfl, rfl, rfl⟩
  gone n _ hn := by
    refine ⟨hn, ?_⟩
    have hne : n ≠ k := by
      rintro rfl
      exact hn hk
    rw [tunnels_setTunnel_of_ne s hne]
  fresh _ hle hlt := absurd hlt (Nat.not_lt.2 hle)
  room n h := by
    by_cases heq : n = k
    · rw [heq, tunnels_setTunnel_self]
      exact hroom
    · rwa [tunnels_setTunnel_of_ne s heq]

theorem Advances.make {task : RemoteListenerTask} (h : inHand task = []) (id : TunnelId)
    (peerAddr : Option String) (rest : List TunnelResponse) :
    Advances s (s.make id peerAddr) task (.handing s.made rest) where
  dropped := rfl
  closed := rfl
  accepted := rfl
  handed := ⟨[s.made], by rw [h, List.append_nil]; rfl, List.range_succ⟩
  tunnels n hn := by
    rw [tunnels_make_of_lt s id peerAddr hn]
    exact ⟨rfl, rfl, rfl⟩
  gone n hlt hn := by
    refine ⟨?_, by rw [tunnels_make_of_lt s id peerAddr hlt]⟩
    by_cases heq : (s.tunnels n).tunnelId = id
    · rw [heq, subTunnels_make_self]
      simpa using (Nat.ne_of_lt hlt).symm
    · rwa [subTunnels_make_of_ne s id peerAddr heq]
  fresh n hle hlt := by
    obtain rfl := Nat.le_antisymm (Nat.le_of_lt_succ hlt) hle
    rw [tunnels_make_self]
    exact ⟨rfl, rfl⟩
  room n h := by
    by_cases heq : n = s.made
    · rw [heq, tunnels_make_self]
      exact Nat.zero_le _
    · have hsame : (s.make id peerAddr).tunnels n = s.tunnels n := Function.update_of_ne heq _ _
      rwa [hsame]

theorem Routes.route (h : Routes l announced whole (r :: rest) s)
    (hown : ∀ i ∈ announced, i.tunnelId ≠ l) (hkept : s.dropped = false)
    {rest' : List TunnelResponse} {task : RemoteListenerTask}
    (hstep : s.route l rest' r = some (s', task)) :
    s'.mailbox = s.mailbox ∧ Advances s s' (.routing (r :: rest')) task ∧
      ((task = .ended ∧ Routes l announced whole [] s') ∨
        ((task = .routing rest' ∨ task = .handing s.made rest') ∧
          Routes l announced whole rest s')) := by
  cases r with
  | tunnelIncoming listenerId id peerAddr =>
    rw [RemoteTunnelListener.route] at hstep
    split_ifs at hstep with hl hdropped
    · cases hstep
      exact ⟨rfl, .skip (by rfl) _,
        .inr ⟨.inl rfl, h.skip (if_neg hl) fun n _ => if_neg fun h => hl h.1⟩⟩
    · rw [hkept] at hdropped
      cases hdropped
    · cases hstep
      rw [not_not] at hl
      subst hl
      exact ⟨rfl, .make (by rfl) id peerAddr rest', .inr ⟨.inr rfl, h.make⟩⟩
  | tunnelData id data =>
    rw [RemoteTunnelListener.route] at hstep
    split at hstep
    · next hnone =>
      cases hstep
      refine ⟨rfl, .skip (by rfl) _, .inr ⟨.inl rfl, h.skip rfl fun n hn => if_neg ?_⟩⟩
      rintro rfl
      rw [hnone] at hn
      cases hn
    · next k hk =>
      dsimp only at hstep
      split_ifs at hstep with hdropped hroom
      · cases hstep
        exact ⟨rfl, .forget (by rfl) id,
          .inr ⟨.inl rfl, h.forget hk rfl (.inl hdropped) fun id' hne => if_neg hne.symm⟩⟩
      · cases hstep
        have hid := (h.table id k hk).2
        exact ⟨rfl, .forward (by rfl) (by rwa [hid]) (by simpa using Nat.succ_le_of_lt hroom),
          .inr ⟨.inl rfl, h.forward hk⟩⟩
  | tunnelClosed id =>
    rw [RemoteTunnelListener.route] at hstep
    split at hstep
    · next k hk =>
      cases hstep
      have hne := h.ne_listener hown hk
      refine ⟨rfl, .forget (by rfl) id, .inr ⟨.inl rfl,
        h.forget hk (if_neg hne) (.inr (if_pos (.inl rfl))) fun id' hne' => ?_⟩⟩
      exact if_neg fun h => h.elim hne'.symm hne
    · next hnone =>
      cases hstep
      have hnobody : ∀ n, s.subTunnels (s.tunnels n).tunnelId = some n →
          id ≠ (s.tunnels n).tunnelId := by
        rintro n hn rfl
        rw [hnone] at hn
        cases hn
      split_ifs with hl
      · subst hl
        refine ⟨rfl, .skip (by rfl) _,
          .inl ⟨rfl, h.congr rfl (fun _ _ h => h) (if_pos rfl).symm fun n _ =>
          ⟨rfl, rfl, fun hdropped => ⟨hdropped, ?_⟩⟩⟩⟩
        by_cases hn : s.subTunnels (s.tunnels n).tunnelId = some n
        · rw [dataFor_of_routed hn, dataFor_of_routed hn]
          rw [dataOf, dataOf, if_pos (.inr rfl)]
        · rw [dataFor_of_not_routed hn, dataFor_of_not_routed hn]
      · refine ⟨rfl, .skip (by rfl) _,
          .inr ⟨.inl rfl, h.skip (if_neg hl) fun n hn => if_neg fun h => ?_⟩⟩
        exact h.elim (hnobody n hn) hl
  | error | tunnelOpened | tunnelListening | other =>
    cases hstep
    exact ⟨rfl, .skip (by rfl) _, .inr ⟨.inl rfl, h.skip rfl fun _ _ => rfl⟩⟩

/-- One round of the task loses nothing. -/
theorem Routes.advance {task task' : RemoteListenerTask}
    (h : Routes l announced whole (aheadOf s.mailbox task) s)
    (hown : ∀ i ∈ announced, i.tunnelId ≠ l) (hkept : s.dropped = false)
    (hstep : s.advance l task = some (s', task')) :
    Advances s s' task task' ∧ Routes l announced whole (aheadOf s'.mailbox task') s' := by
  cases task with
  | waiting =>
    rw [RemoteTunnelListener.advance] at hstep
    split at hstep
    · next hmailbox =>
      split_ifs at hstep
      cases hstep
      rw [aheadOf, hmailbox] at h
      exact ⟨.skip (by rfl) _, h⟩
    · next res mailbox hmailbox =>
      cases hstep
      rw [aheadOf, hmailbox] at h
      exact ⟨.skip (by rfl) _, h.table, h.ahead, h.tunnels⟩
  | routing rest =>
    cases rest with
    | nil =>
      cases hstep
      exact ⟨.skip (by rfl) _, h⟩
    | cons r rest =>
      obtain ⟨hmailbox, hadvances, hroutes⟩ :=
        @Routes.route _ _ _ _ (rest ++ flat s.mailbox) _ _ h hown hkept _ _ hstep
      refine ⟨hadvances, ?_⟩
      rcases hroutes with ⟨rfl, h⟩ | ⟨rfl | rfl, h⟩
      · exact h
      · rw [hmailbox]
        exact h
      · rw [hmailbox]
        exact h
  | handing n rest =>
    have hdropped : ¬ s.dropped = true := by simp [hkept]
    rw [RemoteTunnelListener.advance, hand, if_neg hdropped] at hstep
    split_ifs at hstep
    cases hstep
    refine ⟨⟨rfl, rfl, rfl, ⟨[], ?_, ?_⟩, fun _ _ => ⟨rfl, rfl, rfl⟩, fun _ _ h => ⟨h, rfl⟩,
      fun n hle hlt => absurd hlt (Nat.not_lt.2 hle), fun _ h => h⟩, h.table, h.ahead, h.tunnels⟩
    · simp [inHand]
    · simp
  | ended => cases hstep

end Routes

/-! ## The caller -/

section

variable {l : TunnelId} {announced : List Incoming} {whole : Prop} {s s' : RemoteTunnelListener}

theorem stepNext_eq_some : s.stepNext = some s' ↔
    s.dropped = false ∧ none ∉ s.accepted ∧ (s.channel = [] → s.hasEnded = true) ∧
      s' = { s with channel := s.channel.tail, accepted := s.accepted ++ [s.channel.head?] } := by
  by_cases hstop : (s.dropped || s.accepted.contains none) = true
  · rw [stepNext, if_pos hstop]
    refine iff_of_false nofun fun ⟨hdropped, hnone, _⟩ => ?_
    simp [hdropped, hnone] at hstop
  · rw [stepNext, if_neg hstop]
    obtain ⟨hdropped, hnone⟩ : s.dropped = false ∧ none ∉ s.accepted := by simpa using hstop
    cases hchannel : s.channel with
    | nil =>
      by_cases hended : s.hasEnded = true
      · rw [if_pos hended, Option.some_inj]
        exact ⟨fun h => ⟨hdropped, hnone, fun _ => hended, h.symm⟩, fun h => h.2.2.2.symm⟩
      · rw [if_neg hended]
        exact iff_of_false nofun fun h => hended (h.2.2.1 rfl)
    | cons n channel =>
      rw [Option.some_inj]
      exact ⟨fun h => ⟨hdropped, hnone, nofun, h.symm⟩, fun h => h.2.2.2.symm⟩

theorem stepRead_eq_some {n : Nat} : s.stepRead n = some s' ↔
    (s.tunnels n).dropped = false ∧ some n ∈ s.accepted ∧ none ∉ (s.tunnels n).yielded ∧
      ((s.tunnels n).channel = [] → s.isRouted n = false) ∧
      s' = s.setTunnel n { s.tunnels n with
        channel := (s.tunnels n).channel.tail
        yielded := (s.tunnels n).yielded ++ [(s.tunnels n).channel.head?] } := by
  by_cases hstop : ((s.tunnels n).dropped || !s.accepted.contains (some n) ||
      (s.tunnels n).yielded.contains none) = true
  · rw [stepRead, if_pos hstop]
    refine iff_of_false nofun fun ⟨hdropped, haccepted, hnone, _⟩ => ?_
    simp [hdropped, haccepted, hnone] at hstop
  · rw [stepRead, if_neg hstop]
    obtain ⟨⟨hdropped, haccepted⟩, hnone⟩ : ((s.tunnels n).dropped = false ∧ some n ∈ s.accepted) ∧
        none ∉ (s.tunnels n).yielded := by
      simpa using hstop
    cases hchannel : (s.tunnels n).channel with
    | nil =>
      by_cases hrouted : s.isRouted n = true
      · rw [if_pos hrouted]
        refine iff_of_false nofun fun h => ?_
        rw [h.2.2.2.1 rfl] at hrouted
        cases hrouted
      · rw [if_neg hrouted, Option.some_inj]
        exact ⟨fun h => ⟨hdropped, haccepted, hnone, fun _ => Bool.eq_false_iff.2 hrouted, h.symm⟩,
          fun h => h.2.2.2.2.symm⟩
    | cons data channel =>
      rw [Option.some_inj]
      exact ⟨fun h => ⟨hdropped, haccepted, hnone, nofun, h.symm⟩, fun h => h.2.2.2.2.symm⟩

/-- How far the caller has got with the sub-tunnel `n`. -/
inductive Reading (s : RemoteTunnelListener) (n : Nat) : Prop where
  | going (h : (s.tunnels n).yielded = (s.tunnels n).taken.map some)
  | told (h : (s.tunnels n).yielded = (s.tunnels n).taken.map some ++ [none])
      (hchannel : (s.tunnels n).channel = []) (hgone : s.isRouted n = false)

/-- How far the caller has got with the listener. -/
inductive Accepting (s : RemoteTunnelListener) : Prop where
  | going (h : s.accepted = s.accepted.reduceOption.map some)
  | told (h : s.accepted = s.accepted.reduceOption.map some ++ [none]) (hchannel : s.channel = [])
      (hended : s.hasEnded = true)

/-- The caller has the listener, which is set up. -/
structure Serving (l : TunnelId) (announced : List Incoming) (whole : Prop)
    (s : RemoteTunnelListener) : Prop where
  listening : ∃ port task, s.phase = .listening l port task ∧
    Routes l announced whole (aheadOf s.mailbox task) s ∧
      UpTo (whole ∨ s.hasEnded = false) (s.accepted.reduceOption ++ (s.channel ++ inHand task))
        (List.range s.made)
  kept : s.dropped = false
  reading : ∀ n < s.made, Reading s n
  accepting : Accepting s

theorem hasEnded_of_advance {port : UInt16} {task task' : RemoteListenerTask}
    (hphase : s.phase = .listening l port task) (h : s.advance l task = some (s', task')) :
    s.hasEnded = false := by
  rw [hasEnded, hphase]
  cases task with
  | ended => cases h
  | waiting | routing | handing => rfl

theorem Serving.task (h : Serving l announced whole s) (hown : ∀ i ∈ announced, i.tunnelId ≠ l)
    (hstep : s.stepTask = some s') : Serving l announced whole s' := by
  obtain ⟨port, task, hphase, hroutes, horder⟩ := h.listening
  rw [stepTask, hphase] at hstep
  obtain ⟨⟨s₁, task'⟩, hadvance, rfl⟩ := Option.map_eq_some_iff.1 hstep
  have hgoing := hasEnded_of_advance hphase hadvance
  obtain ⟨ha, hroutes'⟩ := hroutes.advance hown h.kept hadvance
  obtain ⟨more, hchannel, hmade⟩ := ha.handed
  refine ⟨⟨port, task', rfl, ⟨hroutes'.table, hroutes'.ahead, hroutes'.tunnels⟩, ?_⟩,
    ha.dropped.trans h.kept, fun n hn => ?_, ?_⟩
  · show UpTo _ (s₁.accepted.reduceOption ++ (s₁.channel ++ inHand task')) (List.range s₁.made)
    rw [ha.accepted, hchannel, hmade, ← List.append_assoc, horder.2 (.inr hgoing)]
    exact ⟨List.prefix_rfl, fun _ => rfl⟩
  · by_cases hlt : n < s.made
    · obtain ⟨hid, hyielded, -⟩ := ha.tunnels n hlt
      have htaken : (s₁.tunnels n).taken = (s.tunnels n).taken := by
        rw [SubTunnel.taken, hyielded, SubTunnel.taken]
      cases h.reading n hlt with
      | going h =>
        refine .going ?_
        show (s₁.tunnels n).yielded = (s₁.tunnels n).taken.map some
        rw [htaken, hyielded, h]
      | told h hchannel hgone =>
        rw [isRouted, hgoing, Bool.not_false, Bool.true_and, beq_eq_false_iff_ne] at hgone
        obtain ⟨hgone', hsame⟩ := ha.gone n hlt hgone
        refine .told ?_ (hsame.trans hchannel) ?_
        · show (s₁.tunnels n).yielded = (s₁.tunnels n).taken.map some ++ [none]
          rw [htaken, hyielded, h]
        · rw [isRouted, Bool.and_eq_false_iff, beq_eq_false_iff_ne]
          refine .inr ?_
          show s₁.subTunnels (s₁.tunnels n).tunnelId ≠ some n
          rwa [hid]
    · refine .going ?_
      have hnone := (ha.fresh n (Nat.not_lt.1 hlt) hn).1
      show (s₁.tunnels n).yielded = (s₁.tunnels n).taken.map some
      rw [SubTunnel.taken, hnone]
      rfl
  · cases h.accepting with
    | going h =>
      refine .going ?_
      show s₁.accepted = s₁.accepted.reduceOption.map some
      rwa [ha.accepted]
    | told _ _ hended =>
      rw [hgoing] at hended
      cases hended

/-- One tunnel is read, or dropped. -/
theorem Routes.setTunnel {rest : List TunnelResponse} (h : Routes l announced whole rest s)
    {n : Nat} {t : SubTunnel} (hid : t.tunnelId = (s.tunnels n).tunnelId)
    (hpeer : t.peerAddr = (s.tunnels n).peerAddr)
    (hdata : t.dropped = false → (s.tunnels n).dropped = false ∧
      t.taken ++ t.channel = (s.tunnels n).taken ++ (s.tunnels n).channel) :
    Routes l announced whole rest (s.setTunnel n t) := by
  refine h.congr rfl (fun _ _ h => h) rfl fun m _ => ?_
  by_cases heq : m = n
  · subst heq
    rw [tunnels_setTunnel_self]
    refine ⟨hid, hpeer, fun hdropped => ⟨(hdata hdropped).1, ?_⟩⟩
    simp only [dataFor, tunnels_setTunnel_self, (hdata hdropped).2, hid]
    rfl
  · rw [tunnels_setTunnel_of_ne s heq]
    refine ⟨rfl, rfl, fun hdropped => ⟨hdropped, ?_⟩⟩
    simp only [dataFor, tunnels_setTunnel_of_ne s heq]
    rfl

theorem Reading.eq_of_going {n : Nat} (h : Reading s n) (hnone : none ∉ (s.tunnels n).yielded) :
    (s.tunnels n).yielded = (s.tunnels n).taken.map some := by
  cases h with
  | going h => exact h
  | told h =>
    rw [h] at hnone
    simp at hnone

theorem Accepting.eq_of_going (h : Accepting s) (hnone : none ∉ s.accepted) :
    s.accepted = s.accepted.reduceOption.map some := by
  cases h with
  | going h => exact h
  | told h =>
    rw [h] at hnone
    simp at hnone

theorem Serving.next (h : Serving l announced whole s) (hstep : s.stepNext = some s') :
    Serving l announced whole s' := by
  obtain ⟨port, task, hphase, hroutes, horder⟩ := h.listening
  obtain ⟨hdropped, hnone, hended, rfl⟩ := stepNext_eq_some.1 hstep
  have hgoing := h.accepting.eq_of_going hnone
  refine ⟨⟨port, task, hphase, ⟨hroutes.table, hroutes.ahead, hroutes.tunnels⟩, ?_⟩, h.kept,
    fun n hn => ?_, ?_⟩
  · show UpTo (whole ∨ s.hasEnded = false)
      ((s.accepted ++ [s.channel.head?]).reduceOption ++ (s.channel.tail ++ inHand task))
      (List.range s.made)
    cases hchannel : s.channel with
    | nil => simpa [List.reduceOption_append, hchannel] using horder
    | cons n channel => simpa [List.reduceOption_append, hchannel] using horder
  · cases h.reading n hn with
    | going h => exact .going h
    | told h hchannel hgone => exact .told h hchannel hgone
  · cases hchannel : s.channel with
    | nil =>
      refine .told ?_ rfl (hended hchannel)
      show s.accepted ++ [none] = (s.accepted ++ [none]).reduceOption.map some ++ [none]
      rw [List.reduceOption_append, List.map_append, ← hgoing]
      simp
    | cons n channel =>
      refine .going ?_
      show s.accepted ++ [some n] = (s.accepted ++ [some n]).reduceOption.map some
      rw [List.reduceOption_append, List.map_append, ← hgoing]
      rfl

theorem isRouted_setTunnel {n : Nat} {t : SubTunnel} (hid : t.tunnelId = (s.tunnels n).tunnelId)
    (m : Nat) : (s.setTunnel n t).isRouted m = s.isRouted m := by
  have hsame : ((s.setTunnel n t).tunnels m).tunnelId = (s.tunnels m).tunnelId := by
    by_cases heq : m = n
    · rw [heq, tunnels_setTunnel_self, hid]
    · rw [tunnels_setTunnel_of_ne s heq]
  simp only [isRouted, hsame]
  rfl

/-- Only the tunnel `n` is any different. -/
theorem Serving.setTunnel (h : Serving l announced whole s) {n : Nat} {t : SubTunnel}
    (hid : t.tunnelId = (s.tunnels n).tunnelId) (hpeer : t.peerAddr = (s.tunnels n).peerAddr)
    (hdata : t.dropped = false → (s.tunnels n).dropped = false ∧
      t.taken ++ t.channel = (s.tunnels n).taken ++ (s.tunnels n).channel)
    (hreading : n < s.made → Reading (s.setTunnel n t) n) :
    Serving l announced whole (s.setTunnel n t) := by
  obtain ⟨port, task, hphase, hroutes, horder⟩ := h.listening
  refine ⟨⟨port, task, hphase, hroutes.setTunnel hid hpeer hdata, horder⟩, h.kept, fun m hm => ?_,
    ?_⟩
  · by_cases heq : m = n
    · rw [heq] at hm ⊢
      exact hreading hm
    · have hsame := tunnels_setTunnel_of_ne s heq t
      cases h.reading m hm with
      | going h => exact .going (by rwa [hsame])
      | told h hchannel hgone =>
        exact .told (by rwa [hsame]) (by rwa [hsame]) (by rwa [isRouted_setTunnel hid])
  · cases h.accepting with
    | going h => exact .going h
    | told h hchannel hended => exact .told h hchannel hended

theorem Serving.read (h : Serving l announced whole s) {n : Nat} (hstep : s.stepRead n = some s') :
    Serving l announced whole s' := by
  obtain ⟨hdropped, -, hnone, hgone, rfl⟩ := stepRead_eq_some.1 hstep
  cases hchannel : (s.tunnels n).channel with
  | nil =>
    refine h.setTunnel rfl rfl (fun hdropped => ⟨hdropped, ?_⟩) fun hn => .told ?_ ?_ ?_
    · simp [SubTunnel.taken, List.reduceOption_append, hchannel]
    · rw [tunnels_setTunnel_self]
      show (s.tunnels n).yielded ++ [none] =
        ((s.tunnels n).yielded ++ [none]).reduceOption.map some ++ [none]
      rw [List.reduceOption_append, List.map_append]
      refine congrArg (· ++ [none]) ?_
      rw [List.reduceOption_singleton, Option.toList_none, List.map_nil, List.append_nil]
      exact (h.reading n hn).eq_of_going hnone
    · rw [tunnels_setTunnel_self]
      rfl
    · refine (isRouted_setTunnel ?_ n).trans (hgone hchannel)
      rfl
  | cons data channel =>
    refine h.setTunnel rfl rfl (fun hdropped => ⟨hdropped, ?_⟩) fun hn => .going ?_
    · simp [SubTunnel.taken, List.reduceOption_append, hchannel]
    · rw [tunnels_setTunnel_self]
      show (s.tunnels n).yielded ++ [some data] =
        ((s.tunnels n).yielded ++ [some data]).reduceOption.map some
      rw [List.reduceOption_append, List.map_append]
      exact congrArg₂ _ ((h.reading n hn).eq_of_going hnone) rfl

theorem Serving.dropReader (h : Serving l announced whole s) (n : Nat) :
    Serving l announced whole (s.setTunnel n (s.tunnels n).drop) := by
  refine h.setTunnel rfl rfl (fun hdropped => ?_) fun hn => ?_
  · cases hdropped
  · cases h.reading n hn with
    | going h =>
      refine .going ?_
      rw [tunnels_setTunnel_self]
      exact h
    | told h _ hgone =>
      refine .told ?_ ?_ ?_
      · rw [tunnels_setTunnel_self]
        exact h
      · rw [tunnels_setTunnel_self]
        rfl
      · rwa [isRouted_setTunnel (t := (s.tunnels n).drop) rfl]

/-- The task is aborted. -/
theorem Serving.stop (h : Serving l announced whole s) (hexact : ¬ whole) {port : UInt16} :
    Serving l announced whole { s with phase := .listening l port .ended } := by
  obtain ⟨port', task, hphase, hroutes, horder⟩ := h.listening
  refine ⟨⟨port, .ended, rfl, ⟨hroutes.table, ?_, fun n hn => ?_⟩, ?_⟩, h.kept, fun n hn => ?_, ?_⟩
  · exact hroutes.ahead.shorten (List.nil_prefix) hexact
  · obtain ⟨i, hi, hid, hpeer, hupto⟩ := hroutes.tunnels n hn
    refine ⟨i, hi, hid, hpeer, fun hdropped => (hupto hdropped).shorten ?_ hexact⟩
    rw [dataFor, dataFor]
    refine (List.prefix_append_right_inj _).2 ?_
    split_ifs
    · exact List.nil_prefix
    · exact List.nil_prefix
  · refine ⟨List.IsPrefix.trans ?_ horder.1, fun h => ?_⟩
    · show s.accepted.reduceOption ++ (s.channel ++ []) <+: _
      rw [List.append_nil, ← List.append_assoc]
      exact List.prefix_append _ _
    · rcases h with h | h
      · exact absurd h hexact
      · cases h
  · cases h.reading n hn with
    | going h => exact .going h
    | told h hchannel _ => exact .told h hchannel rfl
  · cases h.accepting with
    | going h => exact .going h
    | told h hchannel _ => exact .told h hchannel rfl

theorem Serving.step (h : Serving l announced whole s) (hown : ∀ i ∈ announced, i.tunnelId ≠ l)
    {e : RemoteListenerEvent} (hdrop : e ≠ .drop) (hclose : whole → e ≠ .close)
    (hstep : s.step e = some s') : Serving l announced whole s' := by
  cases e with
  | listen =>
    obtain ⟨port, task, hphase, -⟩ := h.listening
    rw [RemoteTunnelListener.step, stepListen, hphase] at hstep
    cases hstep
  | task => exact h.task hown hstep
  | next => exact h.next hstep
  | read n => exact h.read hstep
  | dropReader n =>
    rw [RemoteTunnelListener.step] at hstep
    split_ifs at hstep
    cases hstep
    exact h.dropReader n
  | drop => exact absurd rfl hdrop
  | close =>
    have hexact : ¬ whole := fun he => hclose he rfl
    obtain ⟨port, task, hphase, -⟩ := h.listening
    rw [RemoteTunnelListener.step] at hstep
    split at hstep
    · next hphase' =>
      rw [hphase] at hphase'
      cases hphase'
      cases hstep
      exact (h.stop hexact).dropReader _
    · next hphase' =>
      rw [hphase] at hphase'
      cases hphase'
      cases hstep
      exact h.stop hexact
    · cases hstep

/-- The listener is confirmed, and nothing else can happen before. -/
theorem serving_of_new {port : UInt16} {mailbox : List (Msg TunnelResponse)} {closed : Bool}
    {e : RemoteListenerEvent}
    (hstep : (new (.single (.tunnelListening l port) :: mailbox) closed).step e = some s) :
    e = .listen ∧ s = { new mailbox closed with phase := .listening l port .waiting } := by
  cases e with
  | listen =>
    cases hstep
    exact ⟨rfl, rfl⟩
  | task | next | read | dropReader | drop | close => cases hstep

theorem serving_new (port : UInt16) (mailbox : List (Msg TunnelResponse)) (closed : Bool) :
    Serving l (incomings l (flat mailbox)) whole
      { new mailbox closed with phase := .listening l port .waiting } where
  listening := ⟨port, .waiting, rfl, ⟨nofun, ⟨List.prefix_rfl, fun _ => rfl⟩, nofun⟩,
    List.prefix_rfl, fun _ => rfl⟩
  kept := rfl
  reading _ h := absurd h (Nat.not_lt_zero _)
  accepting := .going rfl

variable (whole) in
theorem serving_of_run {port : UInt16} {mailbox : List (Msg TunnelResponse)} {closed : Bool}
    (hown : ∀ i ∈ incomings l (flat mailbox), i.tunnelId ≠ l) {es : List RemoteListenerEvent}
    (hdrop : .drop ∉ es) (hclose : whole → .close ∉ es)
    (hrun : Machine.run step es (new (.single (.tunnelListening l port) :: mailbox) closed) =
      some s) :
    s = new (.single (.tunnelListening l port) :: mailbox) closed ∨
      Serving l (incomings l (flat mailbox)) whole s := by
  let C : RemoteTunnelListener → RemoteListenerEvent → Prop :=
    fun _ e => e ≠ .drop ∧ (whole → e ≠ .close)
  have hC : Machine.Meeting step C es
      (new (.single (.tunnelListening l port) :: mailbox) closed) := by
    refine Machine.meeting_of_mem
      (C := fun e : RemoteListenerEvent => e ≠ .drop ∧ (whole → e ≠ .close)) (fun e he => ?_) _
    exact ⟨fun h => hdrop (h ▸ he), fun hexact h => hclose hexact (h ▸ he)⟩
  refine Machine.invariant (I := fun s => s = new _ _ ∨ Serving l _ whole s) ?_ (.inl rfl) hC hrun
  · rintro s e s' (rfl | h) ⟨hdrop, hclose⟩ hstep
    · obtain ⟨-, rfl⟩ := serving_of_new hstep
      exact .inr (serving_new port mailbox closed)
    · exact .inr (h.step hown hdrop hclose hstep)

/-- A reader that has been told that there is no more has had all. -/
theorem dataFor_of_told {port : UInt16} {task : RemoteListenerTask} {n : Nat}
    (hphase : s.phase = .listening l port task) (hchannel : (s.tunnels n).channel = [])
    (hgone : s.isRouted n = false) :
    s.dataFor l (aheadOf s.mailbox task) n = (s.tunnels n).taken := by
  by_cases hn : s.subTunnels (s.tunnels n).tunnelId = some n
  · rw [dataFor_of_routed hn, hchannel, List.append_nil]
    rw [isRouted, hn, hasEnded, hphase] at hgone
    cases task with
    | ended => exact List.append_nil _
    | waiting | routing | handing => simp at hgone
  · rw [dataFor_of_not_routed hn, hchannel, List.append_nil]

theorem Serving.order (h : Serving l announced whole s) :
    s.accepted.reduceOption <+: List.range s.made := by
  obtain ⟨port, task, -, -, horder⟩ := h.listening
  exact (List.prefix_append _ _).trans horder.1

/-- What a reader has yielded. -/
theorem Serving.tunnel (h : Serving l announced whole s) {n : Nat} (hn : n < s.made) :
    ∃ i, announced[n]? = some i ∧ (s.tunnels n).tunnelId = i.tunnelId ∧
      (s.tunnels n).peerAddr = i.peerAddr ∧
      ((s.tunnels n).dropped = false → (s.tunnels n).taken <+: i.data ∧
        (none ∈ (s.tunnels n).yielded → whole → (s.tunnels n).taken = i.data)) := by
  obtain ⟨port, task, hphase, hroutes, horder⟩ := h.listening
  obtain ⟨i, hi, hid, hpeer, hupto⟩ := hroutes.tunnels n hn
  refine ⟨i, hi, hid, hpeer, fun hdropped => ⟨?_, fun hnone hexact => ?_⟩⟩
  · refine List.IsPrefix.trans ?_ (hupto hdropped).1
    rw [dataFor, List.append_assoc]
    exact List.prefix_append _ _
  · rw [← (hupto hdropped).2 hexact]
    cases h.reading n hn with
    | going h =>
      rw [h] at hnone
      simp at hnone
    | told _ hchannel hgone => exact (dataFor_of_told hphase hchannel hgone).symm

end

/-! ## When all comes through -/

section

variable {l : TunnelId} {announced : List Incoming} {s s' : RemoteTunnelListener} {K : Nat → Prop}

variable (K) in
/-- The task goes on, and the caller takes the connections and reads from those in `K`. It keeps the
others, too. -/
def Keeps : RemoteListenerEvent → Prop
  | .listen => True
  | .task => True
  | .next => True
  | .read n => K n
  | _ => False

variable (K announced) in
/-- The caller has been given all connections, and all data of those that it reads from. -/
def Delivered (s : RemoteTunnelListener) : Prop :=
  s.accepted = (List.range announced.length).map some ++ [none] ∧
    ∀ n i, announced[n]? = some i → K n → (s.tunnels n).yielded = i.data.map some ++ [none]

variable (l announced K) in
/-- Nobody has dropped anything, and what is not read from fills up. -/
structure OnCourse (s : RemoteTunnelListener) : Prop where
  serving : Serving l announced True s
  kept : ∀ n < s.made, (s.tunnels n).dropped = false
  idle : ∀ n < s.made, ¬ K n → (s.tunnels n).yielded = []
  room : ∀ n, (s.tunnels n).channel.length ≤ CLIENT_TUNNEL_CAPACITY
  ends : s.closed = true ∨ s.hasEnded = true ∨ ∃ port task, s.phase = .listening l port task ∧
    .tunnelClosed l ∈ aheadOf s.mailbox task

/-! ### What is left to do -/

def mailboxCost (mailbox : List (Msg TunnelResponse)) : Nat :=
  (mailbox.map fun res => 2 + 2 * res.intoVec.length).sum

def taskCost : RemoteListenerTask → Nat
  | .waiting => 1
  | .routing rest => 2 + 2 * rest.length
  | .handing _ rest => 3 + 2 * rest.length
  | .ended => 0

def phaseCost : RemoteListenerPhase → Nat
  | .listening _ _ task => taskCost task
  | _ => 0

/-- How often the sub-tunnel `n` has been read. -/
def reads (s : RemoteTunnelListener) (n : Nat) : Nat :=
  if n < s.made then (s.tunnels n).yielded.length else 0

variable (announced) in
/-- What is left for the task, for the one who takes the connections, and for each reader. -/
def left (s : RemoteTunnelListener) : Option (Option (Fin announced.length)) → Nat
  | none => mailboxCost s.mailbox + phaseCost s.phase
  | some none => announced.length + 1 - s.accepted.length
  | some (some n) => announced[n].data.length + 1 - s.reads n

theorem cost_route {id : TunnelId} {rest : List TunnelResponse} {r : TunnelResponse}
    {task : RemoteListenerTask} (h : s.route id rest r = some (s', task)) :
    s'.mailbox = s.mailbox ∧ taskCost task < 4 + 2 * rest.length := by
  cases r with
  | tunnelIncoming listenerId id peerAddr =>
    rw [route] at h
    split_ifs at h <;> cases h <;> refine ⟨rfl, ?_⟩ <;> rw [taskCost] <;> omega
  | tunnelData id data =>
    rw [route] at h
    split at h
    · cases h
      exact ⟨rfl, by rw [taskCost]; omega⟩
    · dsimp only at h
      split_ifs at h <;> cases h <;> refine ⟨rfl, ?_⟩ <;> rw [taskCost] <;> omega
  | tunnelClosed id =>
    rw [route] at h
    split at h
    · cases h
      exact ⟨rfl, by rw [taskCost]; omega⟩
    · cases h
      refine ⟨rfl, ?_⟩
      split_ifs <;> rw [taskCost] <;> omega
  | error | tunnelOpened | tunnelListening | other =>
    cases h
    exact ⟨rfl, by rw [taskCost]; omega⟩

/-- Each round of the task brings it nearer to the end. -/
theorem cost_advance {task task' : RemoteListenerTask} (h : s.advance l task = some (s', task')) :
    mailboxCost s'.mailbox + taskCost task' < mailboxCost s.mailbox + taskCost task := by
  cases task with
  | waiting =>
    rw [advance] at h
    split at h
    · split_ifs at h
      cases h
      simp [taskCost]
    · next hmailbox =>
      cases h
      simp only [hmailbox, mailboxCost, taskCost, List.map_cons, List.sum_cons]
      omega
  | routing rest =>
    cases rest with
    | nil =>
      cases h
      simp [taskCost]
    | cons r rest =>
      obtain ⟨hmailbox, hlt⟩ := cost_route h
      rw [hmailbox, taskCost, List.length_cons]
      omega
  | handing n rest =>
    rw [advance, hand] at h
    split_ifs at h
    · cases h
      simp only [taskCost, RemoteTunnelListener.setTunnel]
      omega
    · cases h
      simp [taskCost]
  | ended => cases h

/-- The end of the listener is read. -/
theorem closes_of_advance {whole : Prop} {task task' : RemoteListenerTask}
    (h : Routes l announced whole (aheadOf s.mailbox task) s)
    (hown : ∀ i ∈ announced, i.tunnelId ≠ l) (hkept : s.dropped = false)
    (hstep : s.advance l task = some (s', task'))
    (hcloses : .tunnelClosed l ∈ aheadOf s.mailbox task) :
    task' = .ended ∨ .tunnelClosed l ∈ aheadOf s'.mailbox task' := by
  cases task with
  | waiting =>
    rw [advance] at hstep
    split at hstep
    · split_ifs at hstep
      cases hstep
      exact .inl rfl
    · next hmailbox =>
      cases hstep
      rw [aheadOf, hmailbox] at hcloses
      exact .inr hcloses
  | routing rest =>
    cases rest with
    | nil =>
      cases hstep
      exact .inr hcloses
    | cons r rest =>
      obtain ⟨hmailbox, -, hroutes⟩ :=
        @Routes.route _ _ _ _ (rest ++ flat s.mailbox) _ _ h hown hkept _ _ hstep
      by_cases hr : r = .tunnelClosed l
      · subst hr
        rw [advance, route] at hstep
        split at hstep
        · next hk => exact absurd rfl (h.ne_listener hown hk)
        · cases hstep
          exact .inl (if_pos rfl)
      · have hrest : .tunnelClosed l ∈ rest ++ flat s.mailbox :=
          (List.mem_cons.1 hcloses).resolve_left fun h => hr h.symm
        rcases hroutes with ⟨rfl, -⟩ | ⟨rfl | rfl, -⟩
        · exact .inl rfl
        · rw [hmailbox]
          exact .inr hrest
        · rw [hmailbox]
          exact .inr hrest
  | handing n rest =>
    have hdropped : ¬ s.dropped = true := by simp [hkept]
    rw [advance, hand, if_neg hdropped] at hstep
    split_ifs at hstep
    cases hstep
    exact .inr hcloses
  | ended => cases hstep

theorem OnCourse.task (h : OnCourse l announced K s) (hown : ∀ i ∈ announced, i.tunnelId ≠ l)
    (hstep : s.stepTask = some s') :
    OnCourse l announced K s' ∧ s'.left announced none < s.left announced none ∧
      ∀ i, i ≠ none → s'.left announced i = s.left announced i := by
  obtain ⟨port, task, hphase, hroutes, horder⟩ := h.serving.listening
  have hserving := h.serving.task hown hstep
  rw [stepTask, hphase] at hstep
  obtain ⟨⟨s₁, task'⟩, hadvance, rfl⟩ := Option.map_eq_some_iff.1 hstep
  obtain ⟨ha, -⟩ := hroutes.advance hown h.serving.kept hadvance
  have hreads : ∀ n, s₁.reads n = s.reads n := by
    intro n
    obtain ⟨more, -, hmade⟩ := ha.handed
    have hle : s.made ≤ s₁.made := by
      have hlen := congrArg List.length hmade
      rw [List.length_append, List.length_range, List.length_range] at hlen
      omega
    by_cases hn : n < s.made
    · rw [reads, reads, if_pos hn, if_pos (Nat.lt_of_lt_of_le hn hle), (ha.tunnels n hn).2.1]
    · rw [reads, reads, if_neg hn]
      split_ifs with hn'
      · rw [(ha.fresh n (Nat.not_lt.1 hn) hn').1]
        rfl
      · rfl
  refine ⟨⟨hserving, fun n hn => ?_, fun n hn hidle => ?_, fun n => ha.room n (h.room n), ?_⟩, ?_,
    ?_⟩
  · by_cases hlt : n < s.made
    · exact (ha.tunnels n hlt).2.2.trans (h.kept n hlt)
    · exact (ha.fresh n (Nat.not_lt.1 hlt) hn).2
  · by_cases hlt : n < s.made
    · exact (ha.tunnels n hlt).2.1.trans (h.idle n hlt hidle)
    · exact (ha.fresh n (Nat.not_lt.1 hlt) hn).1
  · rcases h.ends with hclosed | hended | ⟨port', task₁, hphase', hcloses⟩
    · exact .inl (ha.closed.trans hclosed)
    · rw [hasEnded_of_advance hphase hadvance] at hended
      cases hended
    · rw [hphase] at hphase'
      cases hphase'
      rcases closes_of_advance hroutes hown h.serving.kept hadvance hcloses with rfl | hcloses
      · exact .inr (.inl rfl)
      · exact .inr (.inr ⟨port, task', rfl, hcloses⟩)
  · have hcost := cost_advance hadvance
    show mailboxCost s₁.mailbox + taskCost task' < mailboxCost s.mailbox + phaseCost s.phase
    rw [hphase]
    exact hcost
  · intro i hi
    match i with
    | none => exact absurd rfl hi
    | some none =>
      show announced.length + 1 - s₁.accepted.length = _
      rw [ha.accepted]
      rfl
    | some (some n) =>
      show announced[n].data.length + 1 - s₁.reads n = _
      rw [hreads]
      rfl

theorem OnCourse.made_le (h : OnCourse l announced K s) : s.made ≤ announced.length := by
  obtain ⟨port, task, hphase, hroutes, horder⟩ := h.serving.listening
  cases hmade : s.made with
  | zero => exact Nat.zero_le _
  | succ n =>
    obtain ⟨i, hi, -⟩ := hroutes.tunnels n (by omega)
    exact (List.getElem?_eq_some_iff.1 hi).1

theorem OnCourse.next (h : OnCourse l announced K s) (hstep : s.stepNext = some s') :
    OnCourse l announced K s' ∧ s'.left announced (some none) < s.left announced (some none) ∧
      ∀ i, i ≠ some none → s'.left announced i = s.left announced i := by
  obtain ⟨port, task, hphase, hroutes, horder⟩ := h.serving.listening
  have hserving := h.serving.next hstep
  obtain ⟨-, hnone, -, rfl⟩ := stepNext_eq_some.1 hstep
  refine ⟨⟨hserving, h.kept, h.idle, h.room, h.ends⟩, ?_, fun i hi => ?_⟩
  · have hlen : s.accepted.length ≤ s.made := by
      have hle := horder.1.length_le
      rw [h.serving.accepting.eq_of_going hnone, List.length_map]
      rw [List.length_append, List.length_range] at hle
      omega
    have hmade := h.made_le
    show announced.length + 1 - (s.accepted ++ [s.channel.head?]).length < _
    rw [List.length_append, List.length_singleton, left]
    omega
  · match i with
    | none => rfl
    | some none => exact absurd rfl hi
    | some (some n) => rfl

theorem OnCourse.read (h : OnCourse l announced K s) {n : Nat} (hn : K n)
    (hstep : s.stepRead n = some s') :
    OnCourse l announced K s' ∧ ∃ i, s'.left announced i < s.left announced i ∧
      ∀ j, j ≠ i → s'.left announced j = s.left announced j := by
  obtain ⟨port, task, hphase, hroutes, horder⟩ := h.serving.listening
  have hserving := h.serving.read hstep
  obtain ⟨hdropped, haccepted, hnone, -, rfl⟩ := stepRead_eq_some.1 hstep
  have hmade : n < s.made := by
    have hmem : n ∈ s.accepted.reduceOption := List.reduceOption_mem_iff.2 haccepted
    exact List.mem_range.1 (horder.1.subset (List.mem_append_left _ hmem))
  obtain ⟨i, hi, -, -, hupto⟩ := hroutes.tunnels n hmade
  obtain ⟨hlt, rfl⟩ := List.getElem?_eq_some_iff.1 hi
  refine ⟨⟨hserving, fun m hm => ?_, fun m hm hidle => ?_, fun m => ?_, h.ends⟩,
    some (some ⟨n, hlt⟩), ?_, fun j hj => ?_⟩
  · by_cases heq : m = n
    · rw [heq, tunnels_setTunnel_self]
      exact hdropped
    · rw [tunnels_setTunnel_of_ne s heq]
      exact h.kept m hm
  · by_cases heq : m = n
    · rw [heq] at hidle
      exact absurd hn hidle
    · rw [tunnels_setTunnel_of_ne s heq]
      exact h.idle m hm hidle
  · by_cases heq : m = n
    · rw [heq, tunnels_setTunnel_self]
      exact Nat.le_trans (List.tail_sublist _).length_le (h.room n)
    · rw [tunnels_setTunnel_of_ne s heq]
      exact h.room m
  · have hlen : (s.tunnels n).yielded.length ≤ announced[n].data.length := by
      have hle := (hupto hdropped).1.length_le
      rw [dataFor, List.append_assoc, List.length_append] at hle
      rw [(h.serving.reading n hmade).eq_of_going hnone, List.length_map]
      omega
    simp only [left, reads, tunnels_setTunnel_self, List.length_append, List.length_singleton]
    rw [if_pos hmade]
    have hmade' : n < (s.setTunnel n { s.tunnels n with
        channel := (s.tunnels n).channel.tail
        yielded := (s.tunnels n).yielded ++ [(s.tunnels n).channel.head?] }).made := hmade
    rw [if_pos hmade']
    show announced[n].data.length + 1 - _ < announced[n].data.length + 1 - _
    omega
  · match j with
    | none => rfl
    | some none => rfl
    | some (some m) =>
      have hne : m.val ≠ n := by
        rintro rfl
        exact hj rfl
      simp only [left, reads, tunnels_setTunnel_of_ne s hne]
      rfl

theorem OnCourse.exists_next (h : OnCourse l announced K s) (hchannel : s.channel ≠ []) :
    ∃ s', s.step .next = some s' := by
  have hnone : none ∉ s.accepted := by
    intro hmem
    cases h.serving.accepting with
    | going h =>
      rw [h] at hmem
      simp at hmem
    | told _ hempty => exact hchannel hempty
  exact ⟨_, stepNext_eq_some.2 ⟨h.serving.kept, hnone, fun h => absurd h hchannel, rfl⟩⟩

theorem exists_task {port : UInt16} {task : RemoteListenerTask}
    (hphase : s.phase = .listening l port task) (hadvance : s.advance l task ≠ none) :
    ∃ s', s.step .task = some s' := by
  obtain ⟨p, hp⟩ := Option.ne_none_iff_exists'.1 hadvance
  refine ⟨{ p.1 with phase := .listening l port p.2 }, ?_⟩
  rw [step, stepTask, hphase]
  exact congrArg (Option.map _) hp

/-- The task waits only for room in a channel. -/
theorem full_of_route_eq_none {id : TunnelId} {rest : List TunnelResponse} {r : TunnelResponse}
    (h : s.route id rest r = none) : ∃ dataId data k, r = .tunnelData dataId data ∧
      s.subTunnels dataId = some k ∧ CLIENT_TUNNEL_CAPACITY ≤ (s.tunnels k).channel.length := by
  cases r with
  | tunnelIncoming listenerId id peerAddr =>
    rw [route] at h
    split_ifs at h
  | tunnelData dataId data =>
    rw [route] at h
    split at h
    · cases h
    · next k hk =>
      dsimp only at h
      split_ifs at h with _ hroom
      exact ⟨dataId, data, k, rfl, hk, Nat.not_lt.1 hroom⟩
  | tunnelClosed closedId =>
    rw [route] at h
    split at h <;> cases h
  | error | tunnelOpened | tunnelListening | other => cases h

/-- Where a channel is full, the caller can read from it, or has yet to take the connection. -/
theorem OnCourse.exists_read (h : OnCourse l announced K s) {port : UInt16} {dataId : TunnelId}
    {data : Bytes} {rest : List TunnelResponse} {k : Nat}
    (hphase : s.phase = .listening l port (.routing (.tunnelData dataId data :: rest)))
    (hk : s.subTunnels dataId = some k)
    (hfull : CLIENT_TUNNEL_CAPACITY ≤ (s.tunnels k).channel.length)
    (hidle : ∀ n i, announced[n]? = some i → ¬ K n → i.data.length ≤ CLIENT_TUNNEL_CAPACITY) :
    ∃ e s', Keeps K e ∧ s.step e = some s' := by
  obtain ⟨port', task, hphase', hroutes, horder⟩ := h.serving.listening
  rw [hphase] at hphase'
  cases hphase'
  have hgoing : s.hasEnded = false := by
    rw [hasEnded, hphase]
  obtain ⟨hmade, hid⟩ := hroutes.table dataId k hk
  by_cases hread : K k
  · have hmem : k ∈ List.range s.made := List.mem_range.2 hmade
    have hhand : inHand (.routing (.tunnelData dataId data :: rest)) = [] := rfl
    rw [← horder.2 (.inl trivial), hhand, List.append_nil, List.mem_append] at hmem
    rcases hmem with haccepted | hchannel
    · have hrouted : s.isRouted k = true := by
        rw [isRouted, hgoing, hid, hk]
        simp
      have hnone : none ∉ (s.tunnels k).yielded := by
        intro hmem
        cases h.serving.reading k hmade with
        | going h =>
          rw [h] at hmem
          simp at hmem
        | told _ _ hgone =>
          rw [hrouted] at hgone
          cases hgone
      have hmore : (s.tunnels k).channel = [] → s.isRouted k = false := by
        intro hempty
        rw [hempty] at hfull
        exact absurd hfull (by decide)
      exact ⟨.read k, _, hread, stepRead_eq_some.2
        ⟨h.kept k hmade, List.reduceOption_mem_iff.1 haccepted, hnone, hmore, rfl⟩⟩
    · obtain ⟨s', hs'⟩ := h.exists_next (List.ne_nil_of_mem hchannel)
      exact ⟨.next, s', trivial, hs'⟩
  · -- what is not read from has room for all its data
    obtain ⟨i, hi, -, -, hupto⟩ := hroutes.tunnels k hmade
    have hlen := congrArg List.length ((hupto (h.kept k hmade)).2 trivial)
    have htaken : (s.tunnels k).taken = [] := by
      rw [SubTunnel.taken, h.idle k hmade hread]
      rfl
    rw [dataFor_of_routed (by rwa [hid]), htaken, hid, aheadOf, List.cons_append, dataOf,
      if_pos rfl, List.nil_append, List.length_append, List.length_cons] at hlen
    have hle := hidle k i hi hread
    omega

/-- When the task has ended, there is something for the caller, as long as it has not had all. -/
theorem OnCourse.exists_step_of_ended (h : OnCourse l announced K s) {port : UInt16}
    (hphase : s.phase = .listening l port .ended) (hleft : ¬ Delivered announced K s) :
    ∃ e s', Keeps K e ∧ s.step e = some s' := by
  obtain ⟨port', task, hphase', hroutes, horder⟩ := h.serving.listening
  rw [hphase] at hphase'
  cases hphase'
  have hended : s.hasEnded = true := by
    rw [hasEnded, hphase]
  have hmade : s.made = announced.length := by
    have hall : [] = announced.drop s.made := hroutes.ahead.2 trivial
    exact Nat.le_antisymm h.made_le (List.drop_eq_nil_iff.1 hall.symm)
  by_cases hnone : none ∈ s.accepted
  · cases h.serving.accepting with
    | going h =>
      rw [h] at hnone
      simp at hnone
    | told haccepted hchannel _ =>
      have hgiven : s.accepted.reduceOption = List.range announced.length := by
        rw [← hmade, ← horder.2 (.inl trivial), hchannel]
        exact (List.append_nil _).symm
      rw [Delivered, not_and] at hleft
      have hunread := hleft (by rw [haccepted, hgiven])
      simp only [not_forall] at hunread
      obtain ⟨n, i, hi, hread, hyielded⟩ := hunread
      have hlt : n < announced.length := (List.getElem?_eq_some_iff.1 hi).1
      have hn : n < s.made := by rwa [hmade]
      have haccepted' : some n ∈ s.accepted := by
        rw [← List.reduceOption_mem_iff, hgiven]
        exact List.mem_range.2 hlt
      have hmore : none ∉ (s.tunnels n).yielded := by
        intro hmem
        cases h.serving.reading n hn with
        | going h =>
          rw [h] at hmem
          simp at hmem
        | told htold hempty hgone =>
          obtain ⟨i', hi', -, -, hupto⟩ := hroutes.tunnels n hn
          rw [hi] at hi'
          cases hi'
          have htaken := dataFor_of_told hphase hempty hgone
          rw [(hupto (h.kept n hn)).2 trivial] at htaken
          exact hyielded (by rw [htold, htaken])
      have hgone : s.isRouted n = false := by
        rw [isRouted, hended]
        rfl
      exact ⟨.read n, _, hread, stepRead_eq_some.2
        ⟨h.kept n hn, haccepted', hmore, fun _ => hgone, rfl⟩⟩
  · exact ⟨.next, _, trivial, stepNext_eq_some.2 ⟨h.serving.kept, hnone, fun _ => hended, rfl⟩⟩

/-- There is always somebody to go on, if what is not read from has room. -/
theorem OnCourse.exists_step (h : OnCourse l announced K s)
    (hidle : ∀ n i, announced[n]? = some i → ¬ K n → i.data.length ≤ CLIENT_TUNNEL_CAPACITY)
    (hleft : ¬ Delivered announced K s) : ∃ e s', Keeps K e ∧ s.step e = some s' := by
  obtain ⟨port, task, hphase, hroutes, horder⟩ := h.serving.listening
  by_cases hadvance : s.advance l task = none
  · cases task with
    | waiting =>
      rw [advance] at hadvance
      split at hadvance
      · next hmailbox =>
        split_ifs at hadvance with hclosed
        rcases h.ends with hends | hends | ⟨port', task', hphase', hcloses⟩
        · exact absurd hends hclosed
        · rw [hasEnded, hphase] at hends
          cases hends
        · rw [hphase] at hphase'
          cases hphase'
          rw [aheadOf, hmailbox] at hcloses
          cases hcloses
      · cases hadvance
    | routing rest =>
      cases rest with
      | nil => cases hadvance
      | cons r rest =>
        obtain ⟨dataId, data, k, rfl, hk, hfull⟩ := full_of_route_eq_none hadvance
        exact h.exists_read hphase hk hfull hidle
    | handing n rest =>
      have hchannel : s.channel ≠ [] := by
        intro hempty
        rw [advance, hand, hempty] at hadvance
        split_ifs at hadvance with _ hroom
        exact hroom (by decide)
      obtain ⟨s', hs'⟩ := h.exists_next hchannel
      exact ⟨.next, s', trivial, hs'⟩
    | ended => exact h.exists_step_of_ended hphase hleft
  · obtain ⟨s', hs'⟩ := exists_task hphase hadvance
    exact ⟨.task, s', trivial, hs'⟩

theorem OnCourse.step {e : RemoteListenerEvent} (h : OnCourse l announced K s)
    (hown : ∀ i ∈ announced, i.tunnelId ≠ l) (he : Keeps K e) (hstep : s.step e = some s') :
    OnCourse l announced K s' ∧ ∃ i, s'.left announced i < s.left announced i ∧
      ∀ j, j ≠ i → s'.left announced j = s.left announced j := by
  cases e with
  | listen =>
    obtain ⟨port, task, hphase, -⟩ := h.serving.listening
    rw [RemoteTunnelListener.step, stepListen, hphase] at hstep
    cases hstep
  | task =>
    obtain ⟨h', hlt, hsame⟩ := h.task hown hstep
    exact ⟨h', none, hlt, hsame⟩
  | next =>
    obtain ⟨h', hlt, hsame⟩ := h.next hstep
    exact ⟨h', some none, hlt, hsame⟩
  | read n => exact h.read he hstep
  | dropReader | drop | close => cases he

/-- When all is delivered, what is not read from has all its data in its channel. -/
theorem OnCourse.fits_of_delivered (h : OnCourse l announced K s) (hall : Delivered announced K s)
    {n : Nat} {i : Incoming} (hi : announced[n]? = some i) (hidle : ¬ K n) :
    i.data.length ≤ CLIENT_TUNNEL_CAPACITY := by
  obtain ⟨port, task, hphase, hroutes, horder⟩ := h.serving.listening
  have hended : s.hasEnded = true := by
    cases h.serving.accepting with
    | going h =>
      rw [hall.1] at h
      have hmem : none ∈ (List.range announced.length).map some ++ [none] := by simp
      rw [h] at hmem
      simp at hmem
    | told _ _ hended => exact hended
  have hahead : aheadOf s.mailbox task = [] := by
    rw [hasEnded, hphase] at hended
    cases task with
    | ended => rfl
    | waiting | routing | handing => cases hended
  rw [hahead] at hroutes
  have hmade : n < s.made := by
    have hall : [] = announced.drop s.made := hroutes.ahead.2 trivial
    exact Nat.lt_of_lt_of_le (List.getElem?_eq_some_iff.1 hi).1 (List.drop_eq_nil_iff.1 hall.symm)
  obtain ⟨i', hi', -, -, hupto⟩ := hroutes.tunnels n hmade
  rw [hi] at hi'
  cases hi'
  have hdata : s.dataFor l [] n = (s.tunnels n).channel := by
    have htaken : (s.tunnels n).taken = [] := by
      rw [SubTunnel.taken, h.idle n hmade hidle]
      rfl
    rw [dataFor, htaken]
    simp [dataOf]
  rw [← (hupto (h.kept n hmade)).2 trivial, hdata]
  exact h.room n

end

/-! ## Two connections -/

/-- Of the first connection comes one chunk before the second is announced, and one after it. -/
def twoConnections : List (Msg TunnelResponse) :=
  [.single (.tunnelIncoming 1 2 none), .batch [.tunnelData 2 [10], .tunnelIncoming 1 3 none],
    .single (.tunnelData 3 [20]), .single (.tunnelData 2 [30]), .single (.tunnelClosed 2),
    .single (.tunnelClosed 1)]

/-- The caller reads the first connection to its end. -/
def firstRead : List RemoteListenerEvent :=
  .listen :: List.replicate 7 .task ++ [.next, .read 0] ++ List.replicate 12 .task ++
    [.read 0, .read 0]

end RemoteTunnelListener

end Distant
