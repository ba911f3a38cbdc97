import Distant.Lib.Async
import Distant.Net.FramedTransport

/-!
# The async methods of the framed transport

The async methods of the source are computations over the leaf operations `Io`, which are polled
on a `FramedTransport`. A retry loop that waits for the transport, tries, and sleeps when it would
have blocked is one leaf: each poll that finds the transport ready tries once. `write_frame` is a
leaf that goes on as another one, since it queues its frame only once.
-/

namespace Distant

/-- The leaf operations of the async methods of `FramedTransport`. -/
inductive Io : Type → Type where
  /-- `Reconnectable::reconnect` of the underlying transport -/
  | reconnect : Io Unit
  /-- `read_exact` of the underlying transport, with that many bytes to go -/
  | readExact (left : Nat) : Io Unit
  /-- `write_frame`, before its frame is queued -/
  | writeFrame (frame : Frame) : Io Unit
  /-- `write_frame`, once its frame is queued but not yet flushed -/
  | writing : Io Unit
  | flush : Io Unit
  | readFrame : Io (Option Frame)

namespace Io

open FramedTransport

/-- Is a full frame waiting, or is the underlying transport ready? `none` means not yet. -/
def readable (p : Profile) (t : FramedTransport) : Option (Except Fault Unit) :=
  match Frame.available p t.incoming with
  | .error e => some (.error (.panic e))
  | .ok true => some (.ok ())
  | .ok false => t.inner.ready.map fun r => r.mapError .io

def writeable (t : FramedTransport) : Option (Except Fault Unit) :=
  t.inner.ready.map fun r => r.mapError .io

/-- One turn of a retry loop: wait for `ready`, then try, and sleep on `WouldBlock`. -/
def retry {β γ : Type} (waiting again : Io γ) (ready : Option (Except Fault Unit))
    (attempt : FramedTransport → Except Fault β × FramedTransport) (done : β → γ)
    (t : FramedTransport) : Poll Io Fault γ × FramedTransport :=
  match ready with
  | none => (.pending waiting, t)
  | some (.error e) => (.ready (.error e), t)
  | some (.ok ()) =>
    match attempt t with
    | (.ok b, t') => (.ready (.ok (done b)), t')
    | (.error e, t') => (if e.isWouldBlock then .pending again else .ready (.error e), t')

/-- All that a turn of a retry loop can do: wait, fail, end, or have blocked. -/
theorem retry_cases {β γ : Type} (waiting again : Io γ) (ready : Option (Except Fault Unit))
    (attempt : FramedTransport → Except Fault β × FramedTransport) (done : β → γ)
    (t : FramedTransport) :
    (ready = none ∧ retry waiting again ready attempt done t = (.pending waiting, t)) ∨
    (∃ e t', retry waiting again ready attempt done t = (.ready (.error e), t')) ∨
    (∃ b t', attempt t = (.ok b, t') ∧
      retry waiting again ready attempt done t = (.ready (.ok (done b)), t')) ∨
    (∃ e t', attempt t = (.error e, t') ∧ e.isWouldBlock = true ∧
      retry waiting again ready attempt done t = (.pending again, t')) := by
  unfold retry
  split
  · exact .inl ⟨rfl, rfl⟩
  · exact .inr (.inl ⟨_, _, rfl⟩)
  · cases hrun : attempt t with
    | mk r t' =>
        cases r with
        | ok b => exact .inr (.inr (.inl ⟨b, t', rfl, rfl⟩))
        | error e =>
            cases he : e.isWouldBlock with
            | true => exact .inr (.inr (.inr ⟨e, t', rfl, he, by simp [he]⟩))
            | false => exact .inr (.inl ⟨e, t', by simp [he]⟩)

/-- A turn that finds the transport ready and does what it tries. -/
theorem retry_of_ok {β γ : Type} {waiting again : Io γ} {ready : Option (Except Fault Unit)}
    {attempt : FramedTransport → Except Fault β × FramedTransport} {done : β → γ}
    {t t' : FramedTransport} {b : β} (hready : ready = some (.ok ()))
    (hrun : attempt t = (.ok b, t')) :
    retry waiting again ready attempt done t = (.ready (.ok (done b)), t') := by
  simp only [retry, hready, hrun]

/-- A turn that finds the transport ready and would block. -/
theorem retry_of_wouldBlock {β γ : Type} {waiting again : Io γ}
    {ready : Option (Except Fault Unit)}
    {attempt : FramedTransport → Except Fault β × FramedTransport} {done : β → γ}
    {t t' : FramedTransport} {e : Fault} (hready : ready = some (.ok ()))
    (hrun : attempt t = (.error e, t')) (he : e.isWouldBlock = true) :
    retry waiting again ready attempt done t = (.pending again, t') := by
  simp only [retry, hready, hrun, he, if_true]

theorem ready_of_readable {p : Profile} {t : FramedTransport} (h : readable p t = none) :
    t.inner.ready = none := by
  unfold readable at h
  split at h
  · cases h
  · cases h
  · exact Option.map_eq_none_iff.mp h

theorem ready_of_writeable {t : FramedTransport} (h : writeable t = none) :
    t.inner.ready = none :=
  Option.map_eq_none_iff.mp h

/-- One turn of `read_exact`, whose buffer has room for `left` bytes. -/
def pollReadExact (left : Nat) (t : FramedTransport) : Poll Io Fault Unit × FramedTransport :=
  if left = 0 then (.ready (.ok ()), t)
  else
    match t.inner.ready with
    | none => (.pending (.readExact left), t)
    | some (.error e) => (.ready (.error (.io e)), t)
    | some (.ok ()) =>
      match t.inner.tryRead with
      | (.error e, wire) =>
        (if e.kind == .wouldBlock then .pending (.readExact left) else .ready (.error (.io e)),
          { t with inner := wire })
      | (.ok chunk, wire) =>
        if chunk.val.isEmpty then
          (.ready (.error (.io (.ofKind .unexpectedEof))), { t with inner := wire })
        else if h : chunk.val.length ≤ left then
          (.pending (.readExact (left - chunk.val.length)), { t with inner := wire })
        else
          -- what the buffer has no room for stays in the transport
          have hrest : (chunk.val.drop left).length ≤ READ_BUF_SIZE := by
            have := chunk.property
            simp only [List.length_drop]
            omega
          (.ready (.ok ()),
            { t with inner := { wire with
                reads := .ok ⟨chunk.val.drop left, hrest⟩ :: wire.reads } })

/-- What one poll of a leaf does. -/
def poll (p : Profile) : Leaves Io Fault FramedTransport := fun _ l t =>
  match l with
  | .reconnect =>
    match t.inner.reconnected with
    | none => (.pending .reconnect, t)
    | some r => (.ready (r.mapError .io), t)
  | .readExact left => pollReadExact left t
  | .writeFrame frame =>
    retry (.writeFrame frame) .writing (writeable t) (·.tryWriteFrame frame) id t
  | .writing => retry .writing .writing (writeable t) tryFlush (fun _ => ()) t
  | .flush =>
    if t.outgoing.isEmpty then (.ready (.ok ()), t)
    else retry .flush .flush (writeable t) tryFlush (fun _ => ()) t
  | .readFrame => retry .readFrame .readFrame (readable p t) (tryReadFrame p) id t

theorem poll_writeFrame (p : Profile) (frame : Frame) (t : FramedTransport) :
    poll p _ (.writeFrame frame) t =
      retry (.writeFrame frame) .writing (writeable t) (·.tryWriteFrame frame) id t := rfl

theorem poll_writing (p : Profile) (t : FramedTransport) :
    poll p _ .writing t = retry .writing .writing (writeable t) tryFlush (fun _ => ()) t := rfl

theorem poll_flush (p : Profile) (t : FramedTransport) :
    poll p _ .flush t =
      if t.outgoing.isEmpty then (.ready (.ok ()), t)
      else retry .flush .flush (writeable t) tryFlush (fun _ => ()) t := rfl

theorem poll_readFrame (p : Profile) (t : FramedTransport) :
    poll p _ .readFrame t =
      retry .readFrame .readFrame (readable p t) (tryReadFrame p) id t := rfl

end Io

/-- A computation of the framed transport. -/
abbrev TransportM (α : Type) := Async Io Fault FramedTransport α

namespace FramedTransport

/-! ## The methods as computations -/

/-- Synchronous code that cannot fail. -/
def modify (f : FramedTransport → FramedTransport) : TransportM Unit :=
  .sync fun t => (.ok (), f t)

/-- Hands out a part of the transport and leaves something else in its place. -/
def replace {β : Type} (f : FramedTransport → β × FramedTransport) : TransportM β :=
  .sync fun t => (.ok (f t).1, (f t).2)

def writeFrame (frame : Frame) : TransportM Unit := .lift (.writeFrame frame)

def flush : TransportM Unit := .lift .flush

def readFrame : TransportM (Option Frame) := .lift .readFrame

/-- Catches the errors, as a caller that looks at an `io::Result` does. A panic unwinds. -/
def catchIo : Fault → Option IoError
  | .io e => some e
  | .panic _ => none

/-- Awaits `p` and hands its `io::Result` to the caller. -/
def attempt {α : Type} (p : TransportM α) : TransportM (Except IoError α) :=
  Async.attempt catchIo p

def throwIo {α : Type} (e : IoError) : TransportM α := .throw (.io e)

end FramedTransport

/-! ## Serialized frames -/

/-- The serialized form of a type, with what the serialization format promises: a value that
serializes does so to at least one byte, and deserializes to itself. -/
structure Serde (α : Type) where
  ser : α → Except String Bytes
  de : Bytes → Except String α
  ser_ne_nil : ∀ a bs, ser a = .ok bs → bs ≠ []
  de_ser : ∀ a bs, ser a = .ok bs → de bs = .ok a

namespace Serde

variable {α : Type}

/-- The frame that holds a serialized value. -/
def serializeToFrame (s : Serde α) (a : α) : Except Fault Frame :=
  match s.ser a with
  | .error x => .error (.io (.new .invalidData s!"Serialize failed: {x}"))
  | .ok bs => Frame.ofVec bs

def deserializeFromSlice (s : Serde α) (bs : Bytes) : Except Fault α :=
  match s.de bs with
  | .error x => .error (.io (.new .invalidData s!"Deserialize failed: {x}"))
  | .ok a => .ok a

theorem deserialize_of_serialize {s : Serde α} {a : α} {f : Frame}
    (h : s.serializeToFrame a = .ok f) :
    s.deserializeFromSlice f.item = .ok a ∧ f.item ≠ [] := by
  unfold serializeToFrame at h
  cases hser : s.ser a with
  | error x => simp [hser] at h
  | ok bs =>
      rw [hser] at h
      have hitem := Frame.item_of_ofVec h
      rw [hitem]
      refine ⟨?_, s.ser_ne_nil a bs hser⟩
      simp [deserializeFromSlice, s.de_ser a bs hser]

end Serde

namespace FramedTransport

variable {α : Type}

/-- Serializes a value and writes the frame. -/
def writeFrameFor (s : Serde α) (a : α) : TransportM Unit := do
  let frame ← Async.ofExcept (s.serializeToFrame a)
  writeFrame frame

def deserializeFrame (s : Serde α) : Option Frame → TransportM (Option α)
  | some frame => do
    let a ← Async.ofExcept (s.deserializeFromSlice frame.item)
    return some a
  | none => return none

/-- Reads a frame and deserializes it. -/
def readFrameAs (s : Serde α) : TransportM (Option α) := do
  let found ← readFrame
  deserializeFrame s found

end FramedTransport

end Distant
