import Mathlib.Logic.Function.Basic
import Distant.Lib.Machine
import Distant.Protocol

/-!
# The sessions of a server

Every connection that a server accepts gets a task. The task first establishes the connection: the
other side either connects, or reconnects with the id of a session and the one-time password that
goes with it. A reconnect takes the entry of the session out of the keychain, waits for the backup
of the connection that had it, and brings both sides up to date; if that fails, it puts an entry
with the same password back. When the connection is established, the task looks its id up in the
table of connections, tells the task that it finds there to shut down, takes over the channel of its
replies, and serves the connection until it ends.

The write lock on the table is held from the lookup until the channel has arrived, and let go
before the task stores its own state. The tasks move in any order.

What a backup holds is left open: `B` is its type, and `replay` is what a synchronization makes of
it, when it succeeds and when it fails.
-/

namespace Distant

/-- A one-time password. -/
abbrev Otp := Bytes

/-- The receiving end of a oneshot channel. -/
inductive Oneshot (α : Type) where
  | pending
  | sent (a : α)
  /-- the sender was dropped, or the value was received -/
  | closed
  deriving DecidableEq, Repr

inductive ConnectType where
  | connect
  | reconnect (id : ConnectionId) (otp : Otp)
  deriving DecidableEq, Repr

/-- Where a task is, with what it has in its hands. A backup stands for the connection object. -/
inductive SessionPhase (B : Type) where
  /-- waiting for the connection type -/
  | establishing
  | verifying (id : ConnectionId)
  /-- waiting for the backup of the task `source` -/
  | acquiring (id : ConnectionId) (otp : Otp) (source : Nat)
  | exchanging (id : ConnectionId) (otp : Otp) (backup : B)
  | synchronizing (id : ConnectionId) (otp newOtp : Otp) (backup : B)
  /-- in `on_connect` -/
  | accepting (id : ConnectionId) (backup : B)
  /-- about to look up its id in the table -/
  | looking (id : ConnectionId) (backup : B)
  /-- waiting for the channel of the task `owner`, with the lock on the table -/
  | waiting (id : ConnectionId) (backup : B) (owner : Nat)
  /-- about to store its own state in the table -/
  | storing (id : ConnectionId) (backup : B) (channel : Nat)
  | serving (id : ConnectionId) (backup : B) (channel : Nat)
  /-- has sent its channel back, and is about to look at the table once more -/
  | leaving (id : ConnectionId) (backup : B)
  | ended

structure SessionTask (B : Type) where
  phase : SessionPhase B
  /-- told to shut down through its entry in the table -/
  signalled : Bool
  /-- carries the backup when the connection object is dropped -/
  backupRx : Oneshot B
  /-- carries the channel when the task leaves -/
  channelRx : Oneshot Nat

structure Sessions (B R : Type) where
  /-- how many tasks were spawned -/
  spawned : Nat
  tasks : Nat → SessionTask B
  /-- the password of each session, and the task whose backup belongs to it -/
  keychain : ConnectionId → Option (Otp × Nat)
  connections : ConnectionId → Option Nat
  /-- the task that holds the write lock on the table -/
  lock : Option Nat
  /-- all tasks were told to shut down -/
  shutdown : Bool
  /-- how many reply channels were made -/
  channels : Nat
  queues : Nat → List R
  /-- the session that a task serves, and the channel into which its handlers put their replies -/
  replies : Nat → Option (ConnectionId × Nat)
  /-- all replies that the handlers of a session's tasks have put into a channel -/
  put : ConnectionId → List R
  /-- all replies that a task has taken out of its channel -/
  taken : Nat → List R
  /-- the tasks that have served a session, one after the other -/
  servers : ConnectionId → List Nat

/-- How a task leaves its loop. -/
inductive Leave where
  /-- the other side closes, or there is an error -/
  | ends
  /-- a shutdown was seen -/
  | shutdown
  deriving DecidableEq, Repr

inductive SessionEvent (B R X : Type) where
  /-- the server accepts a connection -/
  | accept
  /-- the connection type is read; `drawn` is the id drawn for a new connection -/
  | connectType (k : Nat) (drawn : ConnectionId) (type : ConnectType)
  /-- a new connection is verified, and its password derived -/
  | verified (k : Nat) (otp : Otp) (backup : B)
  /-- the handshake, the verification or the reading of the connection type fails -/
  | fails (k : Nat)
  /-- the backup arrives -/
  | acquire (k : Nat)
  /-- the new password is derived, or that fails -/
  | exchange (k : Nat) (newOtp : Option Otp)
  | synchronize (k : Nat) (x : X)
  /-- `on_connect` returns, with an error if not `ok` -/
  | connected (k : Nat) (ok : Bool)
  | lookup (k : Nat)
  /-- the channel of the former task arrives -/
  | restore (k : Nat)
  | store (k : Nat)
  /-- frames are sent and received, which changes the backup -/
  | frames (k : Nat) (backup : B)
  /-- a handler that was started by the task `k` replies -/
  | reply (k : Nat) (r : R)
  /-- the task takes a reply out of its channel -/
  | take (k : Nat)
  | leave (k : Nat) (why : Leave)
  | finish (k : Nat)
  /-- all tasks are told to shut down -/
  | shutdown
  /-- a task that is not in its loop yet sees that -/
  | stops (k : Nat)

namespace Sessions

variable {B R X : Type}

def new : Sessions B R where
  spawned := 0
  tasks := fun _ => ⟨.ended, false, .closed, .closed⟩
  keychain := fun _ => none
  connections := fun _ => none
  lock := none
  shutdown := false
  channels := 0
  queues := fun _ => []
  replies := fun _ => none
  put := fun _ => []
  taken := fun _ => []
  servers := fun _ => []

def phase (s : Sessions B R) (k : Nat) : SessionPhase B := (s.tasks k).phase

def setTask (s : Sessions B R) (k : Nat) (t : SessionTask B) : Sessions B R :=
  { s with tasks := Function.update s.tasks k t }

def setPhase (s : Sessions B R) (k : Nat) (phase : SessionPhase B) : Sessions B R :=
  s.setTask k { s.tasks k with phase := phase }

/-- The task ends, and what it drops sends `backup`, or nothing. -/
def endTask (s : Sessions B R) (k : Nat) (backup : Oneshot B) : Sessions B R :=
  s.setTask k { s.tasks k with phase := .ended, backupRx := backup }

/-- `Keychain::insert` -/
def insert (s : Sessions B R) (id : ConnectionId) (otp : Otp) (k : Nat) : Sessions B R :=
  { s with keychain := Function.update s.keychain id (some (otp, k)) }

/-- The macro `unwrap_or_fail!`: the backup and the password go back into the keychain. -/
def restoreBackup (s : Sessions B R) (k : Nat) (id : ConnectionId) (otp : Otp) (backup : B) :
    Sessions B R :=
  (s.endTask k (.sent backup)).insert id otp k

/-- What the task does with a connection type. -/
def onConnectType (s : Sessions B R) (k : Nat) (drawn : ConnectionId) :
    ConnectType → Sessions B R
  | .connect => s.setPhase k (.verifying drawn)
  | .reconnect id otp =>
    -- `Keychain::remove_if_has_key`
    match s.keychain id with
    | some (otp', source) =>
      if otp = otp' then
        { s with keychain := Function.update s.keychain id none }.setPhase k
          (.acquiring id otp source)
      else s.endTask k .closed
    | none => s.endTask k .closed

/-- The task has the channel of its replies. -/
def takeOver (s : Sessions B R) (k : Nat) (id : ConnectionId) (backup : B) (channel : Nat) :
    Sessions B R :=
  { s.setPhase k (.storing id backup channel) with
    replies := Function.update s.replies k (some (id, channel))
    servers := Function.update s.servers id (s.servers id ++ [k]) }

/-- The task makes a new channel for its replies. -/
def makeChannel (s : Sessions B R) (k : Nat) (id : ConnectionId) (backup : B) : Sessions B R :=
  { s.takeOver k id backup s.channels with channels := s.channels + 1 }

variable (replay : X → B → Except B B) (noBackup : B)

/-- One step of the server. -/
def step (s : Sessions B R) : SessionEvent B R X → Option (Sessions B R)
  | .accept =>
    some { s.setTask s.spawned ⟨.establishing, false, .pending, .pending⟩ with
      spawned := s.spawned + 1 }
  | .connectType k drawn type =>
    match s.phase k with
    | .establishing => some (s.onConnectType k drawn type)
    | _ => none
  | .verified k otp backup =>
    match s.phase k with
    | .verifying id => some ((s.setPhase k (.accepting id backup)).insert id otp k)
    | _ => none
  | .fails k =>
    match s.phase k with
    | .establishing => some (s.endTask k .closed)
    | .verifying _ => some (s.endTask k .closed)
    | _ => none
  | .acquire k =>
    match s.phase k with
    | .acquiring id otp source =>
      match (s.tasks source).backupRx with
      | .pending => none
      | .sent backup =>
        some ((s.setTask source { s.tasks source with backupRx := .closed }).setPhase k
          (.exchanging id otp backup))
      | .closed => some (s.setPhase k (.exchanging id otp noBackup))
    | _ => none
  | .exchange k newOtp =>
    match s.phase k, newOtp with
    | .exchanging id otp backup, some newOtp =>
      some (s.setPhase k (.synchronizing id otp newOtp backup))
    | .exchanging id otp backup, none => some (s.restoreBackup k id otp backup)
    | _, _ => none
  | .synchronize k x =>
    match s.phase k with
    | .synchronizing id otp newOtp backup =>
      match replay x backup with
      | .ok backup => some ((s.setPhase k (.accepting id backup)).insert id newOtp k)
      | .error backup => some (s.restoreBackup k id otp backup)
    | _ => none
  | .connected k ok =>
    match s.phase k with
    | .accepting id backup =>
      if ok then some (s.setPhase k (.looking id backup))
      else some (s.endTask k (.sent backup))
    | _ => none
  | .lookup k =>
    match s.phase k, s.lock with
    | .looking id backup, none =>
      match s.connections id with
      | some owner =>
        let s := { s with
          connections := Function.update s.connections id none
          lock := some k }
        let s := s.setTask owner { s.tasks owner with signalled := true }
        some (s.setPhase k (.waiting id backup owner))
      | none => some (s.makeChannel k id backup)
    | _, _ => none
  | .restore k =>
    match s.phase k with
    | .waiting id backup owner =>
      match (s.tasks owner).channelRx with
      | .pending => none
      | .sent channel =>
        some ({ s with lock := none }.setTask owner { s.tasks owner with channelRx := .closed }
          |>.takeOver k id backup channel)
      -- existing connection with id, but channels not saved
      | .closed => some ({ s with lock := none }.makeChannel k id backup)
    | _ => none
  | .store k =>
    match s.phase k, s.lock with
    | .storing id backup channel, none =>
      some ({ s with connections := Function.update s.connections id (some k) }.setPhase k
        (.serving id backup channel))
    | _, _ => none
  | .frames k backup =>
    match s.phase k with
    | .serving id _ channel => some (s.setPhase k (.serving id backup channel))
    | _ => none
  | .reply k r =>
    match s.replies k with
    | some (id, channel) =>
      some { s with
        queues := Function.update s.queues channel (s.queues channel ++ [r])
        put := Function.update s.put id (s.put id ++ [r]) }
    | none => none
  | .take k =>
    match s.phase k with
    | .serving _ _ channel =>
      match s.queues channel with
      | [] => none
      | r :: queue =>
        some { s with
          queues := Function.update s.queues channel queue
          taken := Function.update s.taken k (s.taken k ++ [r]) }
    | _ => none
  | .leave k why =>
    match s.phase k with
    | .serving id backup channel =>
      if why = .ends ∨ s.shutdown = true ∨ (s.tasks k).signalled = true then
        some (s.setTask k
          { s.tasks k with phase := .leaving id backup, channelRx := .sent channel })
      else none
    | _ => none
  | .finish k =>
    match s.phase k, s.lock with
    | .leaving _ backup, none => some (s.endTask k (.sent backup))
    | _, _ => none
  | .shutdown => some { s with shutdown := true }
  | .stops k =>
    if s.shutdown = true then
      match s.phase k with
      | .establishing => some (s.endTask k .closed)
      | .verifying _ => some (s.endTask k .closed)
      -- the entry and the backup that the attempt has taken are gone
      | .acquiring .. => some (s.endTask k .closed)
      | .exchanging .. => some (s.endTask k .closed)
      | .synchronizing .. => some (s.endTask k .closed)
      | .accepting _ backup => some (s.endTask k (.sent backup))
      | _ => none
    else none

/-! ## What a step can do -/

/-- The steps of a server, one constructor for each way that a task can go on. -/
inductive Turn (s : Sessions B R) : SessionEvent B R X → Sessions B R → Prop where
  | accept : Turn s .accept
      { s.setTask s.spawned ⟨.establishing, false, .pending, .pending⟩ with
        spawned := s.spawned + 1 }
  | connecting {k drawn} (hphase : s.phase k = .establishing) :
      Turn s (.connectType k drawn .connect) (s.setPhase k (.verifying drawn))
  | reconnecting {k drawn id otp source} (hphase : s.phase k = .establishing)
      (hentry : s.keychain id = some (otp, source)) :
      Turn s (.connectType k drawn (.reconnect id otp))
        ({ s with keychain := Function.update s.keychain id none }.setPhase k
          (.acquiring id otp source))
  | refused {k drawn id otp} (hphase : s.phase k = .establishing)
      (hentry : ∀ source, s.keychain id ≠ some (otp, source)) :
      Turn s (.connectType k drawn (.reconnect id otp)) (s.endTask k .closed)
  | verified {k id otp backup} (hphase : s.phase k = .verifying id) :
      Turn s (.verified k otp backup) ((s.setPhase k (.accepting id backup)).insert id otp k)
  | fails {k} (hphase : s.phase k = .establishing ∨ ∃ id, s.phase k = .verifying id) :
      Turn s (.fails k) (s.endTask k .closed)
  | acquired {k id otp source backup} (hphase : s.phase k = .acquiring id otp source)
      (hsent : (s.tasks source).backupRx = .sent backup) :
      Turn s (.acquire k)
        ((s.setTask source { s.tasks source with backupRx := .closed }).setPhase k
          (.exchanging id otp backup))
  | missing {k id otp source} (hphase : s.phase k = .acquiring id otp source)
      (hclosed : (s.tasks source).backupRx = .closed) :
      Turn s (.acquire k) (s.setPhase k (.exchanging id otp noBackup))
  | exchanged {k id otp backup newOtp} (hphase : s.phase k = .exchanging id otp backup) :
      Turn s (.exchange k (some newOtp)) (s.setPhase k (.synchronizing id otp newOtp backup))
  | notExchanged {k id otp backup} (hphase : s.phase k = .exchanging id otp backup) :
      Turn s (.exchange k none) (s.restoreBackup k id otp backup)
  | synchronized {k id otp newOtp backup backup' x}
      (hphase : s.phase k = .synchronizing id otp newOtp backup)
      (hreplay : replay x backup = .ok backup') :
      Turn s (.synchronize k x) ((s.setPhase k (.accepting id backup')).insert id newOtp k)
  | notSynchronized {k id otp newOtp backup backup' x}
      (hphase : s.phase k = .synchronizing id otp newOtp backup)
      (hreplay : replay x backup = .error backup') :
      Turn s (.synchronize k x) (s.restoreBackup k id otp backup')
  | connected {k id backup} (hphase : s.phase k = .accepting id backup) :
      Turn s (.connected k true) (s.setPhase k (.looking id backup))
  | notConnected {k id backup} (hphase : s.phase k = .accepting id backup) :
      Turn s (.connected k false) (s.endTask k (.sent backup))
  | found {k id backup owner} (hphase : s.phase k = .looking id backup) (hlock : s.lock = none)
      (hentry : s.connections id = some owner) :
      Turn s (.lookup k)
        (({ s with
            connections := Function.update s.connections id none
            lock := some k }.setTask owner { s.tasks owner with signalled := true }).setPhase k
          (.waiting id backup owner))
  | fresh {k id backup} (hphase : s.phase k = .looking id backup) (hlock : s.lock = none)
      (hentry : s.connections id = none) : Turn s (.lookup k) (s.makeChannel k id backup)
  | restored {k id backup owner channel} (hphase : s.phase k = .waiting id backup owner)
      (hsent : (s.tasks owner).channelRx = .sent channel) :
      Turn s (.restore k)
        (({ s with lock := none }.setTask owner
          { s.tasks owner with channelRx := .closed }).takeOver k id backup channel)
  | notSaved {k id backup owner} (hphase : s.phase k = .waiting id backup owner)
      (hclosed : (s.tasks owner).channelRx = .closed) :
      Turn s (.restore k) ({ s with lock := none }.makeChannel k id backup)
  | stored {k id backup channel} (hphase : s.phase k = .storing id backup channel)
      (hlock : s.lock = none) :
      Turn s (.store k)
        ({ s with connections := Function.update s.connections id (some k) }.setPhase k
          (.serving id backup channel))
  | frames {k id backup backup' channel} (hphase : s.phase k = .serving id backup channel) :
      Turn s (.frames k backup') (s.setPhase k (.serving id backup' channel))
  | reply {k id channel r} (hreplies : s.replies k = some (id, channel)) :
      Turn s (.reply k r) { s with
        queues := Function.update s.queues channel (s.queues channel ++ [r])
        put := Function.update s.put id (s.put id ++ [r]) }
  | take {k id backup channel r queue} (hphase : s.phase k = .serving id backup channel)
      (hqueue : s.queues channel = r :: queue) :
      Turn s (.take k) { s with
        queues := Function.update s.queues channel queue
        taken := Function.update s.taken k (s.taken k ++ [r]) }
  | leave {k id backup channel why} (hphase : s.phase k = .serving id backup channel)
      (hwhy : why = .ends ∨ s.shutdown = true ∨ (s.tasks k).signalled = true) :
      Turn s (.leave k why)
        (s.setTask k
          { s.tasks k with phase := .leaving id backup, channelRx := .sent channel })
  | finish {k id backup} (hphase : s.phase k = .leaving id backup) (hlock : s.lock = none) :
      Turn s (.finish k) (s.endTask k (.sent backup))
  | shutdown : Turn s .shutdown { s with shutdown := true }
  | stops {k} (hphase : s.phase k = .establishing ∨ (∃ id, s.phase k = .verifying id) ∨
      (∃ id otp source, s.phase k = .acquiring id otp source) ∨
      (∃ id otp backup, s.phase k = .exchanging id otp backup) ∨
      ∃ id otp newOtp backup, s.phase k = .synchronizing id otp newOtp backup) :
      Turn s (.stops k) (s.endTask k .closed)
  | stopsAccepting {k id backup} (hphase : s.phase k = .accepting id backup) :
      Turn s (.stops k) (s.endTask k (.sent backup))

variable {replay noBackup} {s s' : Sessions B R}

theorem turn_of_connectType {k : Nat} {drawn : ConnectionId} {type : ConnectType}
    (hphase : s.phase k = .establishing) :
    Turn replay noBackup s (.connectType k drawn type) (s.onConnectType k drawn type) := by
  cases type with
  | connect => exact .connecting hphase
  | reconnect id otp =>
      cases hentry : s.keychain id with
      | none =>
          simp only [onConnectType, hentry]
          refine .refused hphase fun source heq => ?_
          rw [hentry] at heq
          cases heq
      | some entry =>
          obtain ⟨otp', source⟩ := entry
          by_cases hotp : otp = otp'
          · subst hotp
            simp only [onConnectType, hentry, if_true]
            exact .reconnecting hphase hentry
          · simp only [onConnectType, hentry, if_neg hotp]
            refine .refused hphase fun source' heq => ?_
            rw [hentry] at heq
            cases heq
            exact hotp rfl

theorem turn_of_step {e : SessionEvent B R X} (h : s.step replay noBackup e = some s') :
    Turn replay noBackup s e s' := by
  cases e <;> simp only [step] at h
  case accept => cases h; exact .accept
  case connectType k drawn type =>
    split at h <;> cases h
    exact turn_of_connectType ‹_›
  case verified k otp backup =>
    split at h <;> cases h
    exact .verified ‹_›
  case fails k =>
    split at h <;> cases h
    · exact .fails (.inl ‹_›)
    · exact .fails (.inr ⟨_, ‹_›⟩)
  case acquire k =>
    split at h
    · split at h <;> cases h
      · exact .acquired ‹_› ‹_›
      · exact .missing ‹_› ‹_›
    · cases h
  case exchange k newOtp =>
    split at h <;> cases h
    · exact .exchanged ‹_›
    · exact .notExchanged ‹_›
  case synchronize k x =>
    split at h
    · split at h <;> cases h
      · exact .synchronized ‹_› ‹_›
      · exact .notSynchronized ‹_› ‹_›
    · cases h
  case connected k ok =>
    split at h
    · split at h <;> cases h
      · next hok => subst hok; exact .connected ‹_›
      · next hok =>
          obtain rfl : ok = false := by simpa using hok
          exact .notConnected ‹_›
    · cases h
  case lookup k =>
    split at h
    · split at h <;> cases h
      · exact .found ‹_› ‹_› ‹_›
      · exact .fresh ‹_› ‹_› ‹_›
    · cases h
  case restore k =>
    split at h
    · split at h <;> cases h
      · exact .restored ‹_› ‹_›
      · exact .notSaved ‹_› ‹_›
    · cases h
  case store k =>
    split at h <;> cases h
    exact .stored ‹_› ‹_›
  case frames k backup =>
    split at h <;> cases h
    exact .frames ‹_›
  case reply k r =>
    split at h <;> cases h
    exact .reply ‹_›
  case take k =>
    split at h
    · split at h <;> cases h
      exact .take ‹_› ‹_›
    · cases h
  case leave k why =>
    split at h
    · split at h <;> cases h
      exact .leave ‹_› ‹_›
    · cases h
  case finish k =>
    split at h <;> cases h
    exact .finish ‹_› ‹_›
  case shutdown => cases h; exact .shutdown
  case stops k =>
    split at h
    · split at h <;> cases h
      · exact .stops (.inl ‹_›)
      · exact .stops (.inr (.inl ⟨_, ‹_›⟩))
      · exact .stops (.inr (.inr (.inl ⟨_, _, _, ‹_›⟩)))
      · exact .stops (.inr (.inr (.inr (.inl ⟨_, _, _, ‹_›⟩))))
      · exact .stops (.inr (.inr (.inr (.inr ⟨_, _, _, _, ‹_›⟩))))
      · exact .stopsAccepting ‹_›
    · cases h

end Sessions

end Distant
