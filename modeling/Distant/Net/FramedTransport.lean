import Distant.Net.Backup
import Distant.Net.Codec

/-!
# The framed transport

`FramedTransport` wraps a transport of raw bytes with an incoming and an outgoing buffer, a codec
and a backup. The underlying transport is a `Wire`: the script of the results that its `try_read`,
`try_write` and `ready` will give from here on, and the bytes that it has accepted. A call that
finds its script at an end would block. All scripts are allowed, so every chunking of the incoming
bytes, every partial write and every error is.

`tryFlush`, `tryReadFrame` and `tryWriteFrame` follow the source. What each of them can do is said
once: `tryFlush_spec`, `tryReadFrame_cases` and `tryWriteFrame_spec`.
-/

namespace Distant

/-- Size of the read buffer when reading bytes to construct a frame. -/
def READ_BUF_SIZE : Nat := 8 * 1024

/-- What one `try_read` puts into the read buffer; no bytes at all mean the end of the stream. -/
abbrev Chunk := { bs : Bytes // bs.length ≤ READ_BUF_SIZE }

/-- A chunk that is not the end of the stream. A longer one arrives as several of these. -/
abbrev Piece := { c : Chunk // c.val ≠ [] }

/-- The underlying transport, as the results that it will give. -/
structure Wire where
  /-- whether `ready` has completed, and with what -/
  ready : Option (Except IoError Unit)
  /-- whether `reconnect` has completed, and with what -/
  reconnected : Option (Except IoError Unit)
  reads : List (Except IoError Chunk)
  /-- how many bytes each `try_write` is willing to take -/
  writes : List (Except IoError Nat)
  /-- all bytes accepted so far -/
  written : Bytes

namespace Wire

/-- A transport on which nothing happens. -/
def idle : Wire := ⟨none, none, [], [], []⟩

def tryRead (w : Wire) : Except IoError Chunk × Wire :=
  match w.reads with
  | [] => (.error (.ofKind .wouldBlock), w)
  | r :: reads => (r, { w with reads := reads })

def tryWrite (w : Wire) (buf : Bytes) : Except IoError Nat × Wire :=
  match w.writes with
  | [] => (.error (.ofKind .wouldBlock), w)
  | .ok n :: writes =>
    (.ok (min n buf.length), { w with writes := writes, written := w.written ++ buf.take n })
  | .error e :: writes => (.error e, { w with writes := writes })

/-- A write either takes some bytes from the front of the buffer, or fails and takes none. -/
theorem tryWrite_cases (w : Wire) (buf : Bytes) :
    (∃ n inner, w.tryWrite buf = (.ok n, inner) ∧ inner.written = w.written ++ buf.take n ∧
      inner.reads = w.reads) ∨
    (∃ e inner, w.tryWrite buf = (.error e, inner) ∧ inner.written = w.written ∧
      inner.reads = w.reads) := by
  unfold tryWrite
  split
  · exact .inr ⟨_, _, rfl, rfl, rfl⟩
  · next n writes _ =>
      refine .inl ⟨_, _, rfl, ?_, rfl⟩
      rw [← List.take_eq_take_min]
  · exact .inr ⟨_, _, rfl, rfl, rfl⟩

end Wire

structure FramedTransport where
  inner : Wire
  codec : Codec
  /-- how many frames were encoded so far, which decides what the next one draws at random -/
  draws : Nat
  incoming : Bytes
  outgoing : Bytes
  backup : Backup

namespace FramedTransport

def new (inner : Wire) (codec : Codec) : FramedTransport :=
  ⟨inner, codec, 0, [], [], Backup.new⟩

/-- A transport with the plain codec. -/
def plain (inner : Wire) : FramedTransport := new inner PlainCodec

def setCodec (t : FramedTransport) (codec : Codec) : FramedTransport := { t with codec := codec }

/-- Clears the internal transport buffers. -/
def clear (t : FramedTransport) : FramedTransport := { t with incoming := [], outgoing := [] }

/-! ## Writing -/

/-- The loop of `tryFlush`, which gives up after `fuel` calls of `try_write`. -/
def flushLoop : Nat → FramedTransport → Nat → Except Fault Nat × FramedTransport
  | 0, t, _ => (.error (.io (.ofKind .wouldBlock)), t)
  | fuel + 1, t, bytesWritten =>
    if t.outgoing.isEmpty then (.ok bytesWritten, t)
    else
      match t.inner.tryWrite t.outgoing with
      -- 0 bytes on write: the channel has closed
      | (.ok 0, inner) => (.error (.io (.ofKind .writeZero)), { t with inner := inner })
      | (.ok n, inner) =>
        flushLoop fuel { t with inner := inner, outgoing := t.outgoing.drop n } (bytesWritten + n)
      | (.error e, inner) => (.error (.io e), { t with inner := inner })

/-- Attempts to flush the outgoing queue, returning the total bytes written. Each `try_write` uses
up an entry of the script, and the one past its end blocks. -/
def tryFlush (t : FramedTransport) : Except Fault Nat × FramedTransport :=
  flushLoop (t.inner.writes.length + 1) t 0

/-- Updates the tracking stats of the backup: a nonempty frame counts as sent once it is queued,
and is saved raw (non-encoded) in case it has to be sent again. -/
def trackSent (b : Backup) (frame : Frame) : Backup :=
  if frame.isNonempty then b.incrementSentCnt.pushFrame frame else b

/-- Encodes a frame into the outgoing queue and attempts to write everything in the queue. -/
def tryWriteFrame (t : FramedTransport) (frame : Frame) : Except Fault Unit × FramedTransport :=
  match t.codec.encode t.draws frame with
  | .error e => (.error e, { t with draws := t.draws + 1 })
  | .ok encoded =>
    let t := { t with draws := t.draws + 1, outgoing := encoded.write t.outgoing }
    let t := { t with backup := trackSent t.backup frame }
    match t.tryFlush with
    | (.error e, t) => (.error e, t)
    | (.ok _, t) => (.ok (), t)

/-! ## Reading -/

/-- A received frame is counted by its item as it came, still encoded. -/
def trackReceived (b : Backup) (frame : Frame) : Backup :=
  if frame.isNonempty then b.incrementReceivedCnt else b

/-- Takes a frame off the incoming buffer and decodes it; `none` when there is no full frame. -/
def readNextFrame (p : Profile) (t : FramedTransport) :
    Option (Except Fault (Option Frame)) × FramedTransport :=
  match Frame.read p t.incoming with
  | .error e => (some (.error (.panic e)), t)
  | .ok (none, incoming) => (none, { t with incoming := incoming })
  | .ok (some frame, incoming) =>
    -- counted before it is decoded
    let t := { t with incoming := incoming, backup := trackReceived t.backup frame }
    (some ((t.codec.decode frame).map some), t)

/-- The loop of `tryReadFrame`, which gives up after `fuel` calls of `try_read`. -/
def readLoop (p : Profile) :
    Nat → FramedTransport → Except Fault (Option Frame) × FramedTransport
  | 0, t => (.error (.io (.ofKind .wouldBlock)), t)
  | fuel + 1, t =>
    match t.inner.tryRead with
    | (.error e, inner) => (.error (.io e), { t with inner := inner })
    | (.ok chunk, inner) =>
      let t := { t with inner := inner }
      if chunk.val.isEmpty then
        -- an expected end only when no frame has begun
        if t.incoming.isEmpty then (.ok none, t)
        else (.error (.io (.ofKind .unexpectedEof)), t)
      else
        match readNextFrame p { t with incoming := t.incoming ++ chunk.val } with
        | (some result, t) => (result, t)
        | (none, t) => readLoop p fuel t

/-- Reads a frame: `some frame`, or `none` if the underlying transport has closed. -/
def tryReadFrame (p : Profile) (t : FramedTransport) :
    Except Fault (Option Frame) × FramedTransport :=
  if t.incoming.isEmpty then readLoop p (t.inner.reads.length + 1) t
  else
    match readNextFrame p t with
    | (some result, t) => (result, t)
    | (none, t) => readLoop p (t.inner.reads.length + 1) t

/-! ## What the tracking does to each field -/

@[simp] theorem frozen_trackSent (b : Backup) (f : Frame) :
    (trackSent b f).frozen = b.frozen := by
  unfold trackSent; split <;> simp

@[simp] theorem receivedCnt_trackSent (b : Backup) (f : Frame) :
    (trackSent b f).receivedCnt = b.receivedCnt := by
  unfold trackSent; split <;> simp

theorem sentCnt_trackSent {b : Backup} (h : b.frozen = false) (f : Frame) :
    (trackSent b f).sentCnt = b.sentCnt + if f.isNonempty then 1 else 0 := by
  unfold trackSent
  split <;> simp [Backup.sentCnt_incrementSentCnt h]

@[simp] theorem maxBackupSize_trackSent (b : Backup) (f : Frame) :
    (trackSent b f).maxBackupSize = b.maxBackupSize := by
  unfold trackSent; split <;> simp

/-- A frame with something in it joins the end of the stored frames. -/
theorem frames_trackSent_suffix {b : Backup} (hmax : 0 < b.maxBackupSize) (h : b.frozen = false)
    {f : Frame} (hf : f.item ≠ []) : (trackSent b f).frames <:+ b.frames ++ [f] := by
  unfold trackSent
  rw [if_pos ((Frame.isNonempty_iff f).mpr hf)]
  have hpush := Backup.pushFrame_suffix (b := b.incrementSentCnt) (by simpa using hmax)
    (by simpa using h) f
  simpa using hpush

@[simp] theorem maxBackupSize_trackReceived (b : Backup) (f : Frame) :
    (trackReceived b f).maxBackupSize = b.maxBackupSize := by
  unfold trackReceived; split <;> simp

@[simp] theorem frozen_trackReceived (b : Backup) (f : Frame) :
    (trackReceived b f).frozen = b.frozen := by
  unfold trackReceived; split <;> simp

@[simp] theorem frames_trackReceived (b : Backup) (f : Frame) :
    (trackReceived b f).frames = b.frames := by
  unfold trackReceived; split <;> simp

@[simp] theorem sentCnt_trackReceived (b : Backup) (f : Frame) :
    (trackReceived b f).sentCnt = b.sentCnt := by
  unfold trackReceived; split <;> simp

theorem receivedCnt_trackReceived {b : Backup} (h : b.frozen = false) (f : Frame) :
    (trackReceived b f).receivedCnt = b.receivedCnt + if f.isNonempty then 1 else 0 := by
  unfold trackReceived
  split <;> simp [Backup.receivedCnt_incrementReceivedCnt h]

/-! ## What a flush does -/

/-- A flush moves some bytes from the front of the outgoing queue to the transport, and all of
them if it succeeds. -/
theorem tryFlush_spec (t : FramedTransport) :
    ∃ k inner, t.tryFlush.2 = { t with inner := inner, outgoing := t.outgoing.drop k } ∧
      inner.written = t.inner.written ++ t.outgoing.take k ∧ inner.reads = t.inner.reads ∧
      (∀ n, t.tryFlush.1 = .ok n → t.outgoing.drop k = []) := by
  suffices h : ∀ fuel t n, ∃ k inner, (flushLoop fuel t n).2 =
      { t with inner := inner, outgoing := t.outgoing.drop k } ∧
      inner.written = t.inner.written ++ t.outgoing.take k ∧ inner.reads = t.inner.reads ∧
      (∀ m, (flushLoop fuel t n).1 = .ok m → t.outgoing.drop k = []) from h _ _ _
  intro fuel
  induction fuel with
  | zero => exact fun t n => ⟨0, t.inner, by simp [flushLoop]⟩
  | succ fuel ih =>
      intro t n
      rw [flushLoop]
      split
      · next hempty => exact ⟨0, t.inner, by simp, by simp, rfl, by simpa using hempty⟩
      · rcases t.inner.tryWrite_cases t.outgoing with
          ⟨m, wire, hw, hwritten, hreads⟩ | ⟨e, wire, hw, hwritten, hreads⟩
        · cases m with
          | zero => exact ⟨0, wire, by simp [hw], by simpa using hwritten, hreads, by simp [hw]⟩
          | succ m =>
              obtain ⟨k, wire', hstate, hwritten', hreads', hok⟩ :=
                ih { t with inner := wire, outgoing := t.outgoing.drop (m + 1) } (n + (m + 1))
              simp only [hw, List.drop_drop] at hstate hwritten' hok ⊢
              refine ⟨m + 1 + k, wire', hstate, ?_, hreads'.trans hreads, hok⟩
              rw [hwritten', hwritten, List.append_assoc, ← List.take_add]
        · exact ⟨0, wire, by simp [hw], by simpa using hwritten, hreads, by simp [hw]⟩

/-- A write either fails to encode, or queues the encoded frame and flushes what it can. -/
theorem tryWriteFrame_spec (t : FramedTransport) (f : Frame) :
    (∃ e, t.codec.encode t.draws f = .error e ∧
      t.tryWriteFrame f = (.error e, { t with draws := t.draws + 1 })) ∨
    (∃ g k inner, t.codec.encode t.draws f = .ok g ∧
      (t.tryWriteFrame f).2 =
        { t with
          inner := inner
          draws := t.draws + 1
          outgoing := (t.outgoing ++ g.toBytes).drop k
          backup := trackSent t.backup f } ∧
      inner.written = t.inner.written ++ (t.outgoing ++ g.toBytes).take k ∧
      inner.reads = t.inner.reads ∧
      ((t.tryWriteFrame f).1 = .ok () → (t.outgoing ++ g.toBytes).drop k = [])) := by
  cases henc : t.codec.encode t.draws f with
  | error e => exact .inl ⟨e, rfl, by simp [tryWriteFrame, henc]⟩
  | ok g =>
      right
      let queued : FramedTransport :=
        { t with
          draws := t.draws + 1
          outgoing := g.write t.outgoing
          backup := trackSent t.backup f }
      obtain ⟨k, wire, hstate, hwritten, hreads, hok⟩ := tryFlush_spec queued
      have hq : queued.outgoing = t.outgoing ++ g.toBytes := g.write_eq t.outgoing
      rw [hq] at hstate hwritten hok
      have hrun : t.tryWriteFrame f = (queued.tryFlush.1.map fun _ => (), queued.tryFlush.2) := by
        simp only [tryWriteFrame, henc]
        cases hf : queued.tryFlush with
        | mk r t' => cases r <;> simp [queued, hf, Except.map] at hf ⊢
      refine ⟨g, k, wire, rfl, by rw [hrun]; exact hstate, hwritten, hreads, ?_⟩
      rw [hrun]
      intro h
      cases hr : queued.tryFlush.1 with
      | error e => rw [hr] at h; cases h
      | ok n => exact hok n hr

/-- What writing does: some bytes join the end of the outgoing queue, and some leave its front for
the wire. Reading is not affected. -/
structure Emits (t t' : FramedTransport) (bs : Bytes) : Prop where
  codec : t'.codec = t.codec
  incoming : t'.incoming = t.incoming
  reads : t'.inner.reads = t.inner.reads
  bytes : t'.inner.written ++ t'.outgoing = t.inner.written ++ t.outgoing ++ bs

theorem Emits.refl (t : FramedTransport) : Emits t t [] := ⟨rfl, rfl, rfl, by simp⟩

theorem Emits.trans {t t' t'' : FramedTransport} {bs bs' : Bytes} (h : Emits t t' bs)
    (h' : Emits t' t'' bs') : Emits t t'' (bs ++ bs') :=
  ⟨h'.codec.trans h.codec, h'.incoming.trans h.incoming, h'.reads.trans h.reads, by
    rw [h'.bytes, h.bytes, List.append_assoc]⟩

theorem tryFlush_emits (t : FramedTransport) : Emits t t.tryFlush.2 [] := by
  obtain ⟨k, wire, hstate, hwritten, hreads, -⟩ := t.tryFlush_spec
  rw [hstate]
  exact ⟨rfl, rfl, hreads, by simp [hwritten]⟩

theorem tryFlush_backup (t : FramedTransport) : t.tryFlush.2.backup = t.backup := by
  obtain ⟨k, wire, hstate, -⟩ := t.tryFlush_spec
  rw [hstate]

/-- A frame that encodes is queued and tracked, whether or not its bytes could all be written. -/
theorem tryWriteFrame_emits {t : FramedTransport} {f g : Frame}
    (henc : t.codec.encode t.draws f = .ok g) :
    Emits t (t.tryWriteFrame f).2 g.toBytes ∧
      (t.tryWriteFrame f).2.backup = trackSent t.backup f := by
  rcases tryWriteFrame_spec t f with ⟨e, herr, -⟩ | ⟨g', k, inner, henc', hstate, hwritten, hreads, -⟩
  · rw [henc] at herr
    cases herr
  · rw [henc] at henc'
    cases henc'
    rw [hstate]
    exact ⟨⟨rfl, rfl, hreads, by simp [hwritten]⟩, rfl⟩

/-- A flush that succeeds leaves nothing in the outgoing queue, and neither does a write. -/
theorem outgoing_of_tryFlush {t : FramedTransport} {n : Nat} (h : t.tryFlush.1 = .ok n) :
    t.tryFlush.2.outgoing = [] := by
  obtain ⟨k, wire, hstate, -, -, hok⟩ := t.tryFlush_spec
  rw [hstate]
  exact hok n h

theorem outgoing_of_tryWriteFrame {t : FramedTransport} {f : Frame}
    (h : (t.tryWriteFrame f).1 = .ok ()) : (t.tryWriteFrame f).2.outgoing = [] := by
  rcases tryWriteFrame_spec t f with ⟨e, -, herr⟩ | ⟨g, k, inner, -, hstate, -, -, hok⟩
  · rw [herr] at h
    cases h
  · rw [hstate]
    exact hok h

/-- A frame that does not encode changes nothing but the random source. -/
theorem tryWriteFrame_of_error {t : FramedTransport} {f : Frame} {e : Fault}
    (henc : t.codec.encode t.draws f = .error e) :
    t.tryWriteFrame f = (.error e, { t with draws := t.draws + 1 }) := by
  simp [tryWriteFrame, henc]

/-! ## What a read does -/

/-- The bytes of a list of chunks. -/
def bytesOf (cs : List Chunk) : Bytes := (cs.map Subtype.val).flatten

@[simp] theorem bytesOf_nil : bytesOf [] = [] := rfl

@[simp] theorem bytesOf_cons (c : Chunk) (cs : List Chunk) :
    bytesOf (c :: cs) = c.val ++ bytesOf cs := rfl

@[simp] theorem bytesOf_append (cs ds : List Chunk) :
    bytesOf (cs ++ ds) = bytesOf cs ++ bytesOf ds := by
  simp [bytesOf]

/-- How a read that finds no frame ends, given the rest of the script and the bytes it is left
with. -/
inductive Stops (incoming : Bytes) :
    List (Except IoError Chunk) → Except Fault (Option Frame) → List (Except IoError Chunk) → Prop
  | dry : Stops incoming [] (.error (.io (.ofKind .wouldBlock))) []
  | error (e reads) : Stops incoming (.error e :: reads) (.error (.io e)) reads
  | closed (c : Chunk) (reads) : c.val = [] → incoming = [] →
      Stops incoming (.ok c :: reads) (.ok none) reads
  | truncated (c : Chunk) (reads) : c.val = [] → incoming ≠ [] →
      Stops incoming (.ok c :: reads) (.error (.io (.ofKind .unexpectedEof))) reads

/-- All that `tryReadFrame` can do: take in some nonempty chunks and return the frame that they
complete, or take in all chunks up to the next stop without completing one, or panic. -/
inductive ReadStep (p : Profile) (t : FramedTransport) :
    Except Fault (Option Frame) → FramedTransport → Prop
  | frame (cs : List Chunk) (reads) (g : Frame) (rest : Bytes) : (∀ c ∈ cs, c.val ≠ []) →
      (cs ≠ [] → Frame.NoneIn t.incoming) →
      t.inner.reads = cs.map .ok ++ reads → t.incoming ++ bytesOf cs = g.toBytes ++ rest →
      g.item ++ rest ≠ [] →
      ReadStep p t ((t.codec.decode g).map some)
        { t with
          inner := { t.inner with reads := reads }
          incoming := rest
          backup := trackReceived t.backup g }
  | short (cs : List Chunk) (tail reads) (r) : (∀ c ∈ cs, c.val ≠ []) →
      t.inner.reads = cs.map .ok ++ tail → Frame.NoneIn (t.incoming ++ bytesOf cs) →
      Stops (t.incoming ++ bytesOf cs) tail r reads →
      ReadStep p t r
        { t with
          inner := { t.inner with reads := reads }, incoming := t.incoming ++ bytesOf cs }
  | panic (cs : List Chunk) (reads) (e) : (∀ c ∈ cs, c.val ≠ []) →
      t.inner.reads = cs.map .ok ++ reads →
      Frame.read p (t.incoming ++ bytesOf cs) = .error e →
      ReadStep p t (.error (.panic e))
        { t with
          inner := { t.inner with reads := reads }, incoming := t.incoming ++ bytesOf cs }

/-- A read after taking in one more chunk. -/
theorem ReadStep.cons {p : Profile} {t t' : FramedTransport} {c : Chunk} {reads}
    {r : Except Fault (Option Frame)} (hc : c.val ≠ []) (hnone : Frame.NoneIn t.incoming)
    (hreads : t.inner.reads = .ok c :: reads) (h : ReadStep p { t with
      inner := { t.inner with reads := reads }, incoming := t.incoming ++ c.val } r t') :
    ReadStep p t r t' := by
  have hcons (cs : List Chunk) (hcs : ∀ c ∈ cs, c.val ≠ []) : ∀ d ∈ c :: cs, d.val ≠ [] := by
    simpa using ⟨hc, fun a ha h => hcs ⟨a, ha⟩ h⟩
  cases h with
  | frame cs reads' g rest hcs _ hr hsrc hne =>
      simp only [List.append_assoc, ← bytesOf_cons] at hsrc
      exact .frame (c :: cs) reads' g rest (hcons cs hcs) (fun _ => hnone) (by simp_all) hsrc hne
  | short cs tail reads' r hcs hr hnone' hstop =>
      simp only [List.append_assoc, ← bytesOf_cons] at hnone' hstop ⊢
      exact .short (c :: cs) tail reads' r (hcons cs hcs) (by simp_all) hnone' hstop
  | panic cs reads' e hcs hr hread =>
      simp only [List.append_assoc, ← bytesOf_cons] at hread ⊢
      exact .panic (c :: cs) reads' e (hcons cs hcs) (by simp_all) hread

/-- The macro `read_next_frame!` ends the read, or finds nothing and changes nothing. -/
theorem readNextFrame_step (p : Profile) (t : FramedTransport) :
    (∃ r t', readNextFrame p t = (some r, t') ∧ ReadStep p t r t') ∨
    (readNextFrame p t = (none, t) ∧ Frame.NoneIn t.incoming) := by
  have hnil : t.incoming ++ bytesOf [] = t.incoming := by simp [bytesOf]
  rcases Frame.read_cases p t.incoming with ⟨g, rest, hsrc, hne, hr⟩ | ⟨hr, -⟩ | ⟨-, -, e, hr⟩
  · refine .inl ⟨_, _, by simp only [readNextFrame, hr]; rfl, ?_⟩
    exact .frame [] t.inner.reads g rest (by simp) (by simp) (by simp) (by rw [hnil, hsrc]) hne
  · exact .inr ⟨by simp only [readNextFrame, hr], Frame.noneIn_of_read_none hr⟩
  · refine .inl ⟨_, _, by simp only [readNextFrame, hr]; rfl, ?_⟩
    have h := ReadStep.panic (p := p) (t := t) [] t.inner.reads e (by simp) (by simp)
      (by rw [hnil, hr])
    rwa [hnil] at h

theorem readLoop_step (p : Profile) (fuel : Nat) (t : FramedTransport)
    (hfuel : t.inner.reads.length < fuel) (hnone : Frame.NoneIn t.incoming) :
    ReadStep p t (readLoop p fuel t).1 (readLoop p fuel t).2 := by
  have hnil : ∀ src : Bytes, src ++ bytesOf [] = src := by simp [bytesOf]
  induction fuel generalizing t with
  | zero => omega
  | succ fuel ih =>
      cases hreads : t.inner.reads with
      | nil =>
          have h := ReadStep.short (p := p) (t := t) [] [] [] _ (by simp) (by simp [hreads])
            (by rwa [hnil]) .dry
          have hsame : ({ t.inner with reads := [] } : Wire) = t.inner := by rw [← hreads]
          simpa [readLoop, Wire.tryRead, hreads, hnil, hsame] using h
      | cons entry reads =>
          cases entry with
          | error e =>
              have h := ReadStep.short (p := p) (t := t) [] _ reads _ (by simp) (by simp [hreads])
                (by rwa [hnil]) (.error e reads)
              simpa [readLoop, Wire.tryRead, hreads, hnil] using h
          | ok c =>
              cases hc : c.val with
              | nil =>
                  by_cases hin : t.incoming = []
                  · have h := ReadStep.short (p := p) (t := t) [] _ reads _ (by simp)
                      (by simp [hreads]) (by rwa [hnil]) (.closed c reads hc (by rwa [hnil]))
                    simpa [readLoop, Wire.tryRead, hreads, hnil, hc, hin] using h
                  · have h := ReadStep.short (p := p) (t := t) [] _ reads _ (by simp)
                      (by simp [hreads]) (by rwa [hnil]) (.truncated c reads hc (by rwa [hnil]))
                    simpa [readLoop, Wire.tryRead, hreads, hnil, hc, hin] using h
              | cons b bs =>
                  let next : FramedTransport :=
                    { t with
                      inner := { t.inner with reads := reads }, incoming := t.incoming ++ c.val }
                  rcases readNextFrame_step p next with ⟨r, t', hrun, hstep⟩ | ⟨hrun, hnone'⟩
                  · have hloop : readLoop p (fuel + 1) t = (r, t') := by
                      simp only [next] at hrun
                      simp [readLoop, Wire.tryRead, hreads, hc] at hrun ⊢
                      rw [hrun]
                    rw [hloop]
                    exact hstep.cons (by simp [hc]) hnone hreads
                  · have hloop : readLoop p (fuel + 1) t = readLoop p fuel next := by
                      simp only [next] at hrun
                      simp [readLoop, Wire.tryRead, hreads, hc, next] at hrun ⊢
                      rw [hrun]
                    rw [hloop]
                    refine (ih next ?_ hnone').cons (by simp [hc]) hnone hreads
                    simp only [hreads, List.length_cons] at hfuel
                    simpa [next] using by omega

theorem tryReadFrame_step (p : Profile) (t : FramedTransport) :
    ReadStep p t (tryReadFrame p t).1 (tryReadFrame p t).2 := by
  unfold tryReadFrame
  split
  · next hempty =>
      refine readLoop_step p _ t (Nat.lt_succ_self _) ?_
      rw [List.isEmpty_iff.mp hempty]
      exact Frame.noneIn_nil
  · rcases readNextFrame_step p t with ⟨r, t', hrun, hstep⟩ | ⟨hrun, hnone⟩
    · rw [hrun]
      exact hstep
    · rw [hrun]
      exact readLoop_step p _ t (Nat.lt_succ_self _) hnone

end FramedTransport

end Distant
