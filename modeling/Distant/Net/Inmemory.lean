import Mathlib.Logic.Function.Basic
import Distant.Lib.Machine
import Distant.Lib.Rust

/-!
# Transports in memory

Two transports are linked by two bounded channels. What a read leaves of a chunk is stored, and so is
a chunk that is received only to see if the channel is closed. The storage and the receiver have a
lock each: `Incoming.act` takes a step for each time that a call has what it needs, so that the calls
of several tasks can be between two locks at once.

`Ordered` is the invariant: what was read, what is stored, what was received and is not stored yet,
and what is in the channel are what was written. `reads_of_run` is what follows for every run.
-/

namespace Distant

/-- Who has called `is_rx_closed`. -/
inductive RxCaller where
  | direct
  | ready
  deriving DecidableEq, Repr

/-- A part of `Ready`. -/
inductive ReadyFlag where
  | readable
  | writable
  | readClosed
  | writeClosed
  deriving DecidableEq, Repr

/-- One of the two channels, and what the transport that reads from it holds. -/
structure Incoming where
  capacity : Nat
  queue : List Bytes
  /-- the transport that writes is closed -/
  senderDropped : Bool
  /-- the transport that reads is closed -/
  receiverDropped : Bool
  /-- data of a chunk that was more than a read could return -/
  buf : Option Bytes
  /-- what a call of `is_rx_closed` has received, which holds the receiver and waits for `buf` -/
  received : Option (RxCaller × Bytes)
  /-- the room of a call of `try_read`, which holds `buf` with nothing in it and waits for the
  receiver -/
  reading : Option Nat
  /-- calls of `ready` that have seen the channel closed and wait for `buf` -/
  probing : Nat
  /-- all that writes have accepted -/
  accepted : Bytes
  /-- all that reads have returned -/
  delivered : Bytes
  deriving DecidableEq

/-- What a call returns, with what it was called with. -/
inductive InmemoryReply where
  /-- the call goes on -/
  | nothing
  | wrote (data : Bytes) (result : Except IoError Nat)
  /-- with the bytes that were copied -/
  | read (len : Nat) (result : Except IoError Bytes)
  | isRxClosed (closed : Bool)
  | ready (flag : ReadyFlag)

/-- What a caller makes of a channel that is not closed. -/
def RxCaller.notClosed : RxCaller → InmemoryReply
  | direct => .isRxClosed false
  | ready => .ready .readable

inductive TryRecvError where
  | empty
  | disconnected

inductive TrySendError where
  | full
  | closed

/-- A step of a call. -/
inductive InmemoryOp where
  | tryWrite (data : Bytes)
  /-- `try_read` locks the storage -/
  | tryRead (len : Nat)
  /-- `try_read` locks the receiver as well -/
  | tryReadRecv
  /-- `is_rx_closed` locks the receiver -/
  | isRxClosed (caller : RxCaller)
  /-- `is_rx_closed` locks the storage as well -/
  | isRxClosedStore
  /-- `ready` looks at the storage -/
  | readyRead
  /-- `ready` looks at the sender -/
  | readyWrite
  deriving DecidableEq

namespace Incoming

/-- `mpsc::channel`, and no storage. -/
def new (buffer : Nat) : Incoming where
  capacity := buffer
  queue := []
  senderDropped := false
  receiverDropped := false
  buf := none
  received := none
  reading := none
  probing := 0
  accepted := []
  delivered := []

def tryRecv (c : Incoming) : Except TryRecvError (Bytes × Incoming) :=
  match c.queue with
  | data :: queue => .ok (data, { c with queue := queue })
  | [] => .error (if c.senderDropped then .disconnected else .empty)

def trySend (c : Incoming) (data : Bytes) : Except TrySendError Incoming :=
  if c.receiverDropped then .error .closed
  else if c.capacity ≤ c.queue.length then .error .full
  else .ok { c with queue := c.queue ++ [data] }

/-- Copies data, storing what there is no room for: the bytes that are copied. -/
def copyAndStore (c : Incoming) (data : Bytes) (len : Nat) : Incoming × Bytes :=
  if len < data.length then ({ c with buf := some (data.drop len) }, data.take len)
  else ({ c with buf := none }, data)

/-- `existing.append(&mut data)`, or the data alone -/
def storeBehind : Option Bytes → Bytes → Bytes
  | some existing, data => existing ++ data
  | none, data => data

def tryWrite (c : Incoming) (data : Bytes) : Incoming × Except IoError Nat :=
  match c.trySend data with
  | .ok c' => (c', .ok data.length)
  | .error .full => (c, .error (.ofKind .wouldBlock))
  | .error .closed => (c, .ok 0)

/-- What a caller makes of a channel that is closed. -/
def seenClosed (c : Incoming) : RxCaller → Incoming × InmemoryReply
  | .direct => (c, .isRxClosed true)
  | .ready => ({ c with probing := c.probing + 1 }, .nothing)

/-- Can anyone lock the receiver? -/
def rxFree (c : Incoming) : Bool := c.received.isNone

/-- Can anyone lock the storage? -/
def bufFree (c : Incoming) : Bool := c.reading.isNone

/-- A step of a call, if it has the locks that it needs. Only transports that are not closed have
calls. -/
def act (c : Incoming) : InmemoryOp → Option (Incoming × InmemoryReply)
  | .tryWrite data =>
    if c.senderDropped then none
    else
      let (c', result) := c.tryWrite data
      some (c', .wrote data result)
  | .tryRead len =>
    if c.receiverDropped || !c.bufFree then none
    else
      match c.buf with
      | some data =>
        let (c', out) := c.copyAndStore data len
        some (c', .read len (.ok out))
      | none => some ({ c with reading := some len }, .nothing)
  | .tryReadRecv =>
    match c.reading with
    | none => none
    | some len =>
      if !c.rxFree then none
      else
        match c.tryRecv with
        | .ok (data, c') =>
          let (c'', out) := c'.copyAndStore data len
          some ({ c'' with reading := none }, .read len (.ok out))
        | .error .empty =>
          some ({ c with reading := none }, .read len (.error (.ofKind .wouldBlock)))
        | .error .disconnected => some ({ c with reading := none }, .read len (.ok []))
  | .isRxClosed caller =>
    if c.receiverDropped || !c.rxFree then none
    else
      match c.tryRecv with
      | .ok (data, c') => some ({ c' with received := some (caller, data) }, .nothing)
      | .error .empty => some (c, caller.notClosed)
      | .error .disconnected => some (c.seenClosed caller)
  | .isRxClosedStore =>
    match c.received with
    | none => none
    | some (caller, data) =>
      if !c.bufFree then none
      else
        some ({ c with buf := some (storeBehind c.buf data), received := none }, caller.notClosed)
  | .readyRead =>
    if c.probing = 0 || !c.bufFree then none
    else
      some ({ c with probing := c.probing - 1 },
        .ready (if c.buf.isNone then .readClosed else .readable))
  | .readyWrite =>
    if c.senderDropped then none
    else some (c, .ready (if c.receiverDropped then .writeClosed else .writable))

/-- What a reply adds to what was written and read. -/
def record (c : Incoming) : InmemoryReply → Incoming
  | .wrote data (.ok n) => { c with accepted := c.accepted ++ data.take n }
  | .read _ (.ok out) => { c with delivered := c.delivered ++ out }
  | _ => c

/-- No call of the transport that reads is under way. -/
def idle (c : Incoming) : Bool := c.bufFree && c.rxFree && c.probing == 0

end Incoming

/-! ## Pairs -/

inductive TransportSide where
  | left
  | right
  deriving DecidableEq, Repr

def TransportSide.other : TransportSide → TransportSide
  | left => right
  | right => left

theorem TransportSide.eq_of_ne_other {x y : TransportSide} (h : x ≠ y.other) : x = y := by
  cases x with
  | left =>
      cases y with
      | left => rfl
      | right => exact absurd rfl h
  | right =>
      cases y with
      | left => exact absurd rfl h
      | right => rfl

/-- The channel that each of the two transports reads from. -/
abbrev InmemoryPair := TransportSide → Incoming

inductive InmemoryEvent where
  /-- a call on the channel that one of the sides reads from, and the other one writes to -/
  | call (reader : TransportSide) (op : InmemoryOp)
  /-- one of the transports is dropped -/
  | drop (side : TransportSide)
  deriving DecidableEq

namespace InmemoryPair

/-- `InmemoryTransport::pair` -/
def pair (buffer : Nat) : InmemoryPair := fun _ => .new buffer

/-- What happens, and what is returned. -/
def act (p : InmemoryPair) : InmemoryEvent → Option (InmemoryPair × InmemoryReply)
  | .call reader op =>
    ((p reader).act op).map fun (c, reply) => (Function.update p reader (c.record reply), reply)
  | .drop side =>
    if (p side).receiverDropped || !(p side).idle then none
    else
      -- what is in the channel is dropped with the receiver
      let p := Function.update p side { p side with receiverDropped := true, queue := [], buf := none }
      let writes := p side.other
      some (Function.update p side.other { writes with senderDropped := true }, .nothing)

def step (p : InmemoryPair) (e : InmemoryEvent) : Option InmemoryPair := (p.act e).map (·.1)

end InmemoryPair

/-! ## The order of what is read -/

/-- Data is written in no empty pieces. -/
def InmemoryOp.Nonempty : InmemoryOp → Prop
  | .tryWrite data => data ≠ []
  | _ => True

namespace Incoming

/-- What is stored stands in front of what a call has received, which stands in front of what is in
the channel. -/
def waiting (c : Incoming) : Bytes :=
  c.buf.getD [] ++ ((c.received.map (·.2)).getD [] ++ c.queue.flatten)

/-- Nothing is lost, repeated or out of order. -/
structure Ordered (c : Incoming) : Prop where
  order : c.receiverDropped = false → c.delivered ++ c.waiting = c.accepted
  isPrefix : c.delivered <+: c.accepted
  reading : c.reading ≠ none → c.buf = none
  queue : ∀ data ∈ c.queue, data ≠ []
  buf : c.buf ≠ some []
  received : ∀ caller, c.received ≠ some (caller, [])
  /-- Where a call has seen the channel closed, nothing more comes out of it. -/
  probing : c.probing ≠ 0 → c.senderDropped = true ∧ c.queue = [] ∧ c.received = none
  dropped : c.receiverDropped = true → c.reading = none ∧ c.received = none

section Ordered

variable {c c' : Incoming} {op : InmemoryOp} {reply : InmemoryReply} {data out : Bytes} {len : Nat}

/-- Nothing is lost between what is copied and what is stored. -/
theorem exists_copyAndStore (c : Incoming) (data : Bytes) (len : Nat) :
    ∃ stored out, c.copyAndStore data len = ({ c with buf := stored }, out) ∧
      out ++ stored.getD [] = data ∧ stored ≠ some [] ∧ (data ≠ [] → 0 < len → out ≠ []) := by
  unfold copyAndStore
  split_ifs with hlen
  · refine ⟨_, _, rfl, List.take_append_drop len data, ?_, ?_⟩
    · rw [ne_eq, Option.some.injEq, List.drop_eq_nil_iff]
      omega
    · intro hdata hpos
      rw [ne_eq, List.take_eq_nil_iff]
      grind
  · exact ⟨_, _, rfl, List.append_nil data, by simp, fun hdata _ => hdata⟩

theorem tryRecv_eq_ok_iff :
    c.tryRecv = .ok (data, c') ↔
      ∃ queue, c.queue = data :: queue ∧ c' = { c with queue := queue } := by
  unfold tryRecv
  cases c.queue with
  | nil => simp
  | cons d queue => grind

theorem tryRecv_eq_disconnected_iff :
    c.tryRecv = .error .disconnected ↔ c.queue = [] ∧ c.senderDropped = true := by
  unfold tryRecv
  cases c.queue with
  | nil =>
      cases c.senderDropped with
      | false => simp
      | true => simp
  | cons d queue => simp

/-- What a read returns has been in front of everything that waited. -/
theorem Ordered.deliver (h : c.Ordered) (hopen : c.receiverDropped = false) {rest : Bytes}
    (hwaiting : c.waiting = out ++ rest) : c.delivered ++ out ++ rest = c.accepted := by
  rw [List.append_assoc, ← hwaiting]
  exact h.order hopen

theorem Ordered.tryWrite (h : c.Ordered) (hdata : data ≠ [])
    (hact : c.act (.tryWrite data) = some (c', reply)) : (c'.record reply).Ordered := by
  unfold act at hact
  simp only at hact
  split_ifs at hact with hsender
  unfold Incoming.tryWrite trySend at hact
  split_ifs at hact with hreceiver hfull
  · -- nothing is accepted when the other side is closed
    cases hact
    have hnothing : c.accepted ++ data.take 0 = c.accepted := List.append_nil c.accepted
    simp only [record, hnothing]
    exact h
  · cases hact
    exact h
  · cases hact
    have hopen : c.receiverDropped = false := by simpa using hreceiver
    simp only [record, List.take_length]
    have horder : c.delivered ++ waiting { c with
        queue := c.queue ++ [data], accepted := c.accepted ++ data } = c.accepted ++ data := by
      rw [← h.order hopen]
      simp [waiting]
    refine ⟨fun _ => horder, ⟨_, horder⟩, h.reading, ?_, h.buf, h.received, ?_, h.dropped⟩
    · intro d hd
      rcases List.mem_append.mp hd with hd | hd
      · exact h.queue d hd
      · rw [List.mem_singleton] at hd
        rwa [hd]
    · -- a channel that was seen closed takes no more data
      intro hprobing
      exact absurd (h.probing hprobing).1 hsender

/-- A read that has nothing to return lets go of its locks. -/
theorem Ordered.letGo (h : c.Ordered) : Ordered { c with reading := none } :=
  ⟨h.order, h.isPrefix, fun hnot => absurd rfl hnot, h.queue, h.buf, h.received, h.probing,
    fun hdropped => ⟨rfl, (h.dropped hdropped).2⟩⟩

theorem Ordered.open_of_reading (h : c.Ordered) (hreading : c.reading = some len) :
    c.receiverDropped = false := by
  cases hdropped : c.receiverDropped with
  | false => rfl
  | true => cases hreading.symm.trans (h.dropped hdropped).1

theorem Ordered.open_of_received (h : c.Ordered) {caller : RxCaller}
    (hreceived : c.received = some (caller, data)) : c.receiverDropped = false := by
  cases hdropped : c.receiverDropped with
  | false => rfl
  | true => cases hreceived.symm.trans (h.dropped hdropped).2

theorem Ordered.tryRead (h : c.Ordered) (hact : c.act (.tryRead len) = some (c', reply)) :
    (c'.record reply).Ordered := by
  unfold act at hact
  simp only at hact
  split_ifs at hact with hfree
  obtain ⟨hopen, hreading⟩ : c.receiverDropped = false ∧ c.reading = none := by
    simpa [bufFree] using hfree
  split at hact
  · next data hbuf =>
      -- what is stored comes first, and what there is no room for is stored again
      obtain ⟨stored, out, hcopy, hdata, hne, -⟩ := exists_copyAndStore c data len
      simp only [hcopy] at hact
      cases hact
      have horder : c.delivered ++ out ++ waiting { c with buf := stored } = c.accepted :=
        h.deliver hopen (by simp [waiting, hbuf, ← hdata])
      exact ⟨fun _ => horder, ⟨_, horder⟩, fun hnot => absurd hreading hnot, h.queue, hne,
        h.received, h.probing, h.dropped⟩
  · next hbuf =>
      cases hact
      refine ⟨h.order, h.isPrefix, fun _ => hbuf, h.queue, h.buf, h.received, h.probing, ?_⟩
      intro hdropped
      cases hopen.symm.trans hdropped

theorem Ordered.tryReadRecv (h : c.Ordered) (hact : c.act .tryReadRecv = some (c', reply)) :
    (c'.record reply).Ordered := by
  unfold act at hact
  simp only at hact
  split at hact
  · cases hact
  · next len hreading =>
      have hbuf : c.buf = none := h.reading (by simp [hreading])
      have hopen := h.open_of_reading hreading
      split_ifs at hact with hfree
      have hreceived : c.received = none := by simpa [rxFree] using hfree
      split at hact
      · next data c'' hrecv =>
          -- with the two locks, there is nothing in front of the chunk
          obtain ⟨queue, hqueue, rfl⟩ := tryRecv_eq_ok_iff.mp hrecv
          obtain ⟨stored, out, hcopy, hdata, hne, -⟩ :=
            exists_copyAndStore { c with queue := queue } data len
          simp only [hcopy] at hact
          cases hact
          have horder : c.delivered ++ out ++ waiting { c with queue := queue, buf := stored } =
              c.accepted :=
            h.deliver hopen (by simp [waiting, hbuf, hreceived, hqueue, ← hdata])
          refine ⟨fun _ => horder, ⟨_, horder⟩, fun hnot => absurd rfl hnot, ?_, hne, h.received,
            ?_, fun _ => ⟨rfl, hreceived⟩⟩
          · intro d hd
            exact h.queue d (by rw [hqueue]; exact List.mem_cons_of_mem _ hd)
          · intro hprobing
            cases hqueue.symm.trans (h.probing hprobing).2.1
      · -- the channel is empty
        cases hact
        exact h.letGo
      · -- it is closed, and nothing is read
        cases hact
        have hnothing : c.delivered ++ [] = c.delivered := List.append_nil c.delivered
        simp only [record, hnothing]
        exact h.letGo

theorem record_notClosed (c : Incoming) (caller : RxCaller) :
    c.record caller.notClosed = c := by
  cases caller with
  | direct => rfl
  | ready => rfl

theorem Ordered.isRxClosed (h : c.Ordered) {caller : RxCaller}
    (hact : c.act (.isRxClosed caller) = some (c', reply)) : (c'.record reply).Ordered := by
  unfold act at hact
  simp only at hact
  split_ifs at hact with hfree
  obtain ⟨hopen, hreceived⟩ : c.receiverDropped = false ∧ c.received = none := by
    simpa [rxFree] using hfree
  split at hact
  · next data c'' hrecv =>
      obtain ⟨queue, hqueue, rfl⟩ := tryRecv_eq_ok_iff.mp hrecv
      cases hact
      -- the chunk is still in front of the others
      have hwaiting : waiting { c with queue := queue, received := some (caller, data) } =
          c.waiting := by
        simp [waiting, hreceived, hqueue]
      refine ⟨?_, h.isPrefix, h.reading, ?_, h.buf, ?_, ?_, ?_⟩
      · intro _
        simp only [record, hwaiting]
        exact h.order hopen
      · intro d hd
        exact h.queue d (by rw [hqueue]; exact List.mem_cons_of_mem _ hd)
      · intro caller' heq
        cases heq
        exact h.queue [] (by rw [hqueue]; exact List.mem_cons_self) rfl
      · intro hprobing
        cases hqueue.symm.trans (h.probing hprobing).2.1
      · intro hdropped
        cases hopen.symm.trans hdropped
  · cases hact
    rw [record_notClosed]
    exact h
  · next hrecv =>
      obtain ⟨hqueue, hsender⟩ := tryRecv_eq_disconnected_iff.mp hrecv
      cases caller with
      | direct =>
          cases hact
          exact h
      | ready =>
          -- no one holds a chunk when the call has seen the end of the channel
          cases hact
          exact ⟨h.order, h.isPrefix, h.reading, h.queue, h.buf, h.received,
            fun _ => ⟨hsender, hqueue, hreceived⟩, h.dropped⟩

theorem Ordered.isRxClosedStore (h : c.Ordered) (hact : c.act .isRxClosedStore = some (c', reply)) :
    (c'.record reply).Ordered := by
  unfold act at hact
  simp only at hact
  split at hact
  · cases hact
  · next caller data hreceived =>
      split_ifs at hact with hfree
      have hreading : c.reading = none := by simpa [bufFree] using hfree
      have hopen := h.open_of_received hreceived
      cases hact
      rw [record_notClosed]
      have hdata : data ≠ [] := by
        rintro rfl
        exact h.received caller hreceived
      have hwaiting : waiting { c with buf := some (storeBehind c.buf data), received := none } =
          c.waiting := by
        cases hbuf : c.buf with
        | none => simp [waiting, storeBehind, hbuf, hreceived]
        | some existing => simp [waiting, storeBehind, hbuf, hreceived]
      refine ⟨?_, h.isPrefix, fun hnot => absurd hreading hnot, h.queue, ?_, by simp, ?_, ?_⟩
      · intro _
        rw [hwaiting]
        exact h.order hopen
      · intro heq
        cases hbuf : c.buf with
        | none => simp [storeBehind, hbuf, hdata] at heq
        | some existing => simp [storeBehind, hbuf, hdata] at heq
      · intro hprobing
        cases hreceived.symm.trans (h.probing hprobing).2.2
      · intro hdropped
        cases hopen.symm.trans hdropped

theorem Ordered.readyRead (h : c.Ordered) (hact : c.act .readyRead = some (c', reply)) :
    (c'.record reply).Ordered := by
  unfold act at hact
  simp only at hact
  split at hact
  · cases hact
  · next hfree =>
      cases hact
      refine ⟨h.order, h.isPrefix, h.reading, h.queue, h.buf, h.received, ?_, h.dropped⟩
      -- the call has seen the same as those that still wait
      intro _
      apply h.probing
      intro hnone
      simp [hnone] at hfree

theorem Ordered.readyWrite (h : c.Ordered) (hact : c.act .readyWrite = some (c', reply)) :
    (c'.record reply).Ordered := by
  unfold act at hact
  simp only at hact
  split_ifs at hact
  · cases hact
    exact h
  · cases hact
    exact h

/-- No step of a call breaks the order. -/
theorem Ordered.act (h : c.Ordered) (hop : op.Nonempty) (hact : c.act op = some (c', reply)) :
    (c'.record reply).Ordered := by
  cases op with
  | tryWrite data => exact h.tryWrite hop hact
  | tryRead len => exact h.tryRead hact
  | tryReadRecv => exact h.tryReadRecv hact
  | isRxClosed caller => exact h.isRxClosed hact
  | isRxClosedStore => exact h.isRxClosedStore hact
  | readyRead => exact h.readyRead hact
  | readyWrite => exact h.readyWrite hact

/-- Which steps make a read return. -/
theorem op_of_read {result : Except IoError Bytes} (hact : c.act op = some (c', .read len result)) :
    (op = .tryRead len ∧ c.buf ≠ none) ∨ (op = .tryReadRecv ∧ c.reading = some len) := by
  unfold Incoming.act at hact
  cases op with
  | tryRead len' =>
      simp only at hact
      split_ifs at hact
      split at hact
      · next data hbuf =>
          cases hact
          exact Or.inl ⟨rfl, by simp [hbuf]⟩
      · cases hact
  | tryReadRecv =>
      simp only at hact
      split at hact
      · cases hact
      · next len' hreading =>
          split_ifs at hact
          split at hact
          · cases hact
            exact Or.inr ⟨rfl, hreading⟩
          · cases hact
            exact Or.inr ⟨rfl, hreading⟩
          · cases hact
            exact Or.inr ⟨rfl, hreading⟩
  | tryWrite data =>
      simp only at hact
      split_ifs at hact
      cases hact
  | isRxClosed caller =>
      simp only at hact
      split_ifs at hact
      cases caller with
      | direct => split at hact <;> cases hact
      | ready => split at hact <;> cases hact
  | isRxClosedStore =>
      simp only at hact
      split at hact
      · cases hact
      · next caller data hreceived =>
          split_ifs at hact
          cases caller with
          | direct => cases hact
          | ready => cases hact
  | readyRead =>
      simp only at hact
      split_ifs at hact <;> cases hact
  | readyWrite =>
      simp only at hact
      split_ifs at hact <;> cases hact

/-- A read with room returns nothing only when everything has been read and no more can come. -/
theorem Ordered.done_of_read (h : c.Ordered) (hlen : 0 < len)
    (hact : c.act op = some (c', .read len (.ok []))) :
    c.senderDropped = true ∧ c.delivered = c.accepted := by
  rcases op_of_read hact with ⟨rfl, hbuf⟩ | ⟨rfl, hreading⟩
  · obtain ⟨data, hdata⟩ := Option.ne_none_iff_exists'.mp hbuf
    obtain ⟨stored, out, hcopy, -, -, hout⟩ := exists_copyAndStore c data len
    unfold Incoming.act at hact
    simp only at hact
    split_ifs at hact
    simp only [hdata, hcopy] at hact
    cases hact
    -- something is stored, which a read with room returns some of
    refine absurd rfl (hout ?_ hlen)
    rintro rfl
    exact h.buf hdata
  · unfold Incoming.act at hact
    simp only at hact
    simp only [hreading] at hact
    split_ifs at hact with hfree
    have hreceived : c.received = none := by simpa [rxFree] using hfree
    split at hact
    · next data c'' hrecv =>
        obtain ⟨queue, hqueue, rfl⟩ := tryRecv_eq_ok_iff.mp hrecv
        obtain ⟨stored, out, hcopy, -, -, hout⟩ :=
          exists_copyAndStore { c with queue := queue } data len
        simp only [hcopy] at hact
        cases hact
        exact absurd rfl (hout (h.queue data (by rw [hqueue]; exact List.mem_cons_self)) hlen)
    · cases hact
    · next hrecv =>
        -- the end of the channel, with nothing that waits
        obtain ⟨hqueue, hsender⟩ := tryRecv_eq_disconnected_iff.mp hrecv
        have horder := h.order (h.open_of_reading hreading)
        have hbuf : c.buf = none := h.reading (by simp [hreading])
        rw [waiting, hbuf, hreceived, hqueue] at horder
        exact ⟨hsender, by simpa using horder⟩

/-- The same of a call of `ready` that says so. -/
theorem Ordered.done_of_ready (h : c.Ordered) (hopen : c.receiverDropped = false)
    (hact : c.act .readyRead = some (c', .ready .readClosed)) :
    c.senderDropped = true ∧ c.delivered = c.accepted := by
  unfold Incoming.act at hact
  simp only at hact
  split_ifs at hact with hfree hbuf
  · have hprobing : c.probing ≠ 0 := by
      intro hnone
      simp [hnone] at hfree
    obtain ⟨hsender, hqueue, hreceived⟩ := h.probing hprobing
    have horder := h.order hopen
    rw [waiting, Option.isNone_iff_eq_none.mp hbuf, hreceived, hqueue] at horder
    exact ⟨hsender, by simpa using horder⟩
  · cases hact

/-- Nothing has been written to a new channel. -/
theorem ordered_new (buffer : Nat) : (new buffer).Ordered := by
  refine ⟨fun _ => rfl, List.prefix_rfl, fun _ => rfl, ?_, by simp [new], by simp [new], ?_, ?_⟩
  · intro data hdata
    cases hdata
  · exact fun hprobing => absurd rfl hprobing
  · exact fun _ => ⟨rfl, rfl⟩

/-- The reading side is dropped, with what it holds and what is in the channel. -/
theorem Ordered.dropReceiver (h : c.Ordered) (hidle : c.idle = true) :
    Ordered { c with receiverDropped := true, queue := [], buf := none } := by
  obtain ⟨⟨hreading, hreceived⟩, hprobing⟩ : (c.reading = none ∧ c.received = none) ∧
      c.probing = 0 := by
    simpa [idle, bufFree, rxFree] using hidle
  refine ⟨?_, h.isPrefix, fun _ => rfl, ?_, by simp, h.received, ?_, fun _ => ⟨hreading, hreceived⟩⟩
  · intro hopen
    cases hopen
  · intro data hdata
    cases hdata
  · exact fun hnot => absurd hprobing hnot

theorem Ordered.dropSender (h : c.Ordered) : Ordered { c with senderDropped := true } :=
  ⟨h.order, h.isPrefix, h.reading, h.queue, h.buf, h.received,
    fun hprobing => ⟨rfl, (h.probing hprobing).2⟩, h.dropped⟩

end Ordered

end Incoming

/-! ## Runs of a pair -/

/-- Data is written in no empty pieces. -/
def InmemoryEvent.Nonempty : InmemoryEvent → Prop
  | .call _ op => op.Nonempty
  | .drop _ => True

namespace InmemoryPair

variable {p p' : InmemoryPair} {e : InmemoryEvent}

theorem ordered_step (h : ∀ side, (p side).Ordered) (he : e.Nonempty)
    (hstep : step p e = some p') : ∀ side, (p' side).Ordered := by
  obtain ⟨⟨p'', reply⟩, hact, rfl⟩ := Option.map_eq_some_iff.mp hstep
  intro side
  cases e with
  | call reader op =>
      obtain ⟨⟨c, reply'⟩, hcall, heq⟩ := Option.map_eq_some_iff.mp hact
      cases heq
      by_cases hside : side = reader
      · subst hside
        simpa using (h side).act he hcall
      · simpa [hside] using h side
  | drop dropped =>
      unfold act at hact
      simp only at hact
      split_ifs at hact with hfree
      have hidle : (p dropped).idle = true := by simp_all
      cases hact
      -- each of the two channels loses one end
      by_cases hother : side = dropped.other
      · subst hother
        have hne : dropped.other ≠ dropped := by cases dropped <;> decide
        simpa [hne] using (h dropped.other).dropSender
      · obtain rfl := TransportSide.eq_of_ne_other hother
        simpa [hother] using (h side).dropReceiver hidle

theorem ordered_pair {buffer : Nat} {es : List InmemoryEvent} (hes : ∀ e ∈ es, e.Nonempty)
    (hrun : Machine.run step es (pair buffer) = some p) : ∀ side, (p side).Ordered := by
  have hstep : ∀ (p : InmemoryPair) e p', (∀ side, (p side).Ordered) → e.Nonempty →
      step p e = some p' → ∀ side, (p' side).Ordered := fun _ _ _ h he => ordered_step h he
  exact Machine.invariant hstep (fun _ => Incoming.ordered_new buffer)
    (Machine.meeting_of_mem hes _) hrun

/-- After any interleaving of the calls on two linked transports, the bytes that one side has read
are a prefix of those that the other side has written. As long as a side is open, the rest waits for
it. A read with room that returns nothing says that the other side is closed and that all it wrote
has been read. -/
theorem reads_of_run (buffer : Nat) {es : List InmemoryEvent} (hes : ∀ e ∈ es, e.Nonempty)
    (hrun : Machine.run step es (pair buffer) = some p) (reader : TransportSide) :
    (p reader).delivered <+: (p reader).accepted ∧
    ((p reader).receiverDropped = false →
      (p reader).delivered ++ (p reader).waiting = (p reader).accepted) ∧
    ∀ op len, 0 < len → (p.act (.call reader op)).map (·.2) = some (.read len (.ok [])) →
      (p reader).senderDropped = true ∧ (p reader).delivered = (p reader).accepted := by
  have h := ordered_pair hes hrun reader
  refine ⟨h.isPrefix, h.order, ?_⟩
  intro op len hlen hact
  obtain ⟨⟨p'', reply⟩, hact, rfl⟩ := Option.map_eq_some_iff.mp hact
  obtain ⟨⟨c, reply'⟩, hcall, heq⟩ := Option.map_eq_some_iff.mp hact
  cases heq
  exact h.done_of_read hlen hcall

/-! ### A chunk that is stored between two reads -/

/-- The left side writes and is dropped; the right side reads in pieces, with a call of `ready` in
between that receives a chunk. -/
def pieces : List InmemoryEvent :=
  [.call .right (.tryWrite [1, 2, 3]), .call .right (.tryRead 2), .call .right .tryReadRecv,
    .call .right (.tryWrite [4]), .call .right (.isRxClosed .ready),
    .call .right .isRxClosedStore, .drop .left, .call .right (.tryRead 8)]

theorem reads_pieces :
    ∃ p, Machine.run step pieces (pair 1) = some p ∧
      (p .right).delivered <+: (p .right).accepted ∧
      ((p .right).receiverDropped = false →
        (p .right).delivered ++ (p .right).waiting = (p .right).accepted) ∧
      ∀ op len, 0 < len → (p.act (.call .right op)).map (·.2) = some (.read len (.ok [])) →
        (p .right).senderDropped = true ∧ (p .right).delivered = (p .right).accepted := by
  obtain ⟨p, hp⟩ : ∃ p, Machine.run step pieces (pair 1) = some p :=
    Option.isSome_iff_exists.mp rfl
  refine ⟨p, hp, reads_of_run 1 ?_ hp .right⟩
  intro e he
  simp only [pieces, List.mem_cons, List.not_mem_nil, or_false] at he
  rcases he with rfl | rfl | rfl | rfl | rfl | rfl | rfl | rfl
  · exact List.cons_ne_nil _ _
  · trivial
  · trivial
  · exact List.cons_ne_nil _ _
  · trivial
  · trivial
  · trivial
  · trivial

end InmemoryPair

/-! ## The order of the locks -/

/-- Is this a step of a call on the side that reads? -/
def InmemoryOp.Reads : InmemoryOp → Prop
  | .tryWrite _ => False
  | .readyWrite => False
  | _ => True

/-- `is_rx_closed` locks the receiver first and `try_read` the storage. With a call of each between
its two locks, no call on this side ever goes on. -/
theorem Incoming.stuck {c : Incoming} (hreceived : c.received ≠ none) (hreading : c.reading ≠ none)
    {op : InmemoryOp} (hop : op.Reads) : c.act op = none := by
  have hrx : c.rxFree = false := by simpa [rxFree, Option.isSome_iff_ne_none] using hreceived
  have hbuf : c.bufFree = false := by simpa [bufFree, Option.isSome_iff_ne_none] using hreading
  obtain ⟨⟨caller, data⟩, hdata⟩ := Option.ne_none_iff_exists'.mp hreceived
  obtain ⟨len, hlen⟩ := Option.ne_none_iff_exists'.mp hreading
  cases op with
  | tryWrite data => cases hop
  | tryRead len => simp [act, hbuf]
  | tryReadRecv => simp [act, hlen, hrx]
  | isRxClosed caller => simp [act, hrx]
  | isRxClosedStore => simp [act, hdata, hbuf]
  | readyRead => simp [act, hbuf]
  | readyWrite => cases hop

/-- Two tasks of one side get there when there is something to read. -/
theorem InmemoryPair.exists_stuck :
    ∃ p, Machine.run step [.call .right (.tryWrite [1]), .call .right (.isRxClosed .ready),
        .call .right (.tryRead 1)] (pair 1) = some p ∧
      ∀ op : InmemoryOp, op.Reads → (p .right).act op = none := by
  obtain ⟨p, hp⟩ : ∃ p, Machine.run step [.call .right (.tryWrite [1]),
      .call .right (.isRxClosed .ready), .call .right (.tryRead 1)] (pair 1) = some p :=
    Option.isSome_iff_exists.mp rfl
  refine ⟨p, hp, fun op hop => Incoming.stuck ?_ ?_ hop⟩
  · cases hp
    decide
  · cases hp
    decide

end Distant
