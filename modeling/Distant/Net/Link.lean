import Mathlib.Data.List.Forall2
import Distant.Lib.Machine
import Distant.Net.Synchronize

/-!
# Two transports joined by a link

`Net` is two framed transports, the bytes that are in flight towards each of them, and the
synchronization that each may be in. Its events are the calls that the two sides make, with any
partial writes and any chunking, the loss of the link, and the ticks of the two synchronizations
that follow on a fresh link. Two histories are kept on the side: the frames that a side has
written, and those that its reads have returned.

The bytes on the way from one side to the other stand in three places: the outgoing buffer of the
one, the link, and the incoming buffer of the other. `channel` is all of them in order, and the
lemmas of this file say what every operation does to it: writing adds at its end, reading takes
from its front.
-/

namespace Distant

open FramedTransport

inductive Side where
  | a
  | b
  deriving DecidableEq, Repr

def Side.other : Side → Side
  | .a => .b
  | .b => .a

@[simp] theorem Side.other_other (x : Side) : x.other.other = x := by
  cases x <;> rfl

@[simp] theorem Side.other_ne (x : Side) : x.other ≠ x := by
  cases x <;> decide

@[simp] theorem Side.ne_other (x : Side) : x ≠ x.other := by
  cases x <;> decide

theorem Side.eq_or_eq_other (x y : Side) : y = x ∨ y = x.other := by
  cases x <;> cases y <;> decide

structure Endpoint where
  transport : FramedTransport
  /-- the synchronization under way -/
  task : Option (TransportM Unit)
  /-- all frames written so far -/
  sent : List Frame
  /-- all frames returned by reads so far -/
  got : List Frame

structure Net where
  ends : Side → Endpoint
  /-- the bytes in flight towards a side -/
  link : Side → Bytes

/-- The bytes of some pieces. -/
def piecesOf (ps : List Piece) : Bytes := bytesOf (ps.map Subtype.val)

/-- A transport whose next reads return `ps`, and whose next writes take that many bytes. -/
def FramedTransport.load (t : FramedTransport) (ps : List Piece) (writes : List Nat) :
    FramedTransport :=
  { t with
    inner :=
      { ready := some (.ok ())
        reconnected := none
        reads := ps.map fun c => .ok c.val
        writes := writes.map .ok
        written := [] } }

namespace Net

/-- The net after side `x` has moved to `e`, and the bytes in flight have become `toX` and
`toOther`. -/
def put (n : Net) (x : Side) (e : Endpoint) (toX toOther : Bytes) : Net where
  ends := fun y => if y = x then e else n.ends y
  link := fun y => if y = x then toX else toOther

/-- What an operation of one side leads to. -/
structure Operated (α : Type u) where
  result : α
  transport : FramedTransport
  /-- the bytes in flight towards the side itself -/
  toSelf : Bytes
  /-- the bytes in flight towards the other side -/
  toOther : Bytes

/-- Runs an operation of side `x` that reads exactly the pieces `ps` off the link, if these are
what comes next on it. -/
def operate {α : Type u} (n : Net) (x : Side) (ps : List Piece) (writes : List Nat)
    (op : FramedTransport → α × FramedTransport) : Option (Operated α) :=
  if piecesOf ps <+: n.link x then
    let (result, t) := op ((n.ends x).transport.load ps writes)
    if t.inner.reads.isEmpty then
      some {
        result := result
        transport := { t with inner := Wire.idle }
        toSelf := (n.link x).drop (piecesOf ps).length
        toOther := n.link x.other ++ t.inner.written }
    else none
  else none

end Net

inductive Event where
  /-- a call of `try_write_frame` -/
  | write (x : Side) (frame : Frame) (writes : List Nat)
  /-- a call of `try_flush` -/
  | flush (x : Side) (writes : List Nat)
  /-- a call of `try_read_frame` -/
  | read (x : Side) (ps : List Piece)
  /-- the link is lost, and both sides start to synchronize on a fresh one -/
  | lose
  /-- a tick of a synchronization -/
  | tick (x : Side) (ps : List Piece) (writes : List Nat)

/-- The frame, if it is accepted: one that does not encode does not count as written. -/
def accepted (t : FramedTransport) (frame : Frame) : List Frame :=
  match t.codec.encode t.draws frame with
  | .ok _ => [frame]
  | .error _ => []

namespace Net

variable (p : Profile) (stats : Serde Stats)

/-- The frame that a read returned. -/
def returned : Except Fault (Option Frame) → List Frame
  | .ok (some frame) => [frame]
  | _ => []

/-- The next synchronization state of a side, unless the synchronization failed. -/
def taskAfter : TransportM Unit → Option (Option (TransportM Unit))
  | .throw _ => none
  | .ret () => some none
  | task => some (some task)

/-- `x` moves to `e` after an operation. -/
def putAfter {α : Type u} (n : Net) (x : Side) (o : Operated α) (e : Endpoint) : Net :=
  n.put x { e with transport := o.transport } o.toSelf o.toOther

def step (n : Net) : Event → Option Net
  | .write x frame writes =>
    if (n.ends x).task.isSome then none
    else
      let e := n.ends x
      (n.operate x [] writes (·.tryWriteFrame frame)).map fun o =>
        n.putAfter x o { e with sent := e.sent ++ accepted e.transport frame }
  | .flush x writes =>
    if (n.ends x).task.isSome then none
    else (n.operate x [] writes tryFlush).map fun o => n.putAfter x o (n.ends x)
  | .read x ps =>
    if (n.ends x).task.isSome then none
    else
      (n.operate x ps [] (tryReadFrame p)).map fun o =>
        n.putAfter x o { n.ends x with got := (n.ends x).got ++ returned o.result }
  | .lose =>
    if (n.ends .a).task.isSome ∨ (n.ends .b).task.isSome then none
    else
      some {
        ends := fun x =>
          { n.ends x with
            transport := (n.ends x).transport.clear
            task := some (synchronize stats) }
        link := fun _ => [] }
  | .tick x ps writes =>
    match (n.ends x).task with
    | none => none
    | some task =>
      match n.operate x ps writes (task.tick (Io.poll p)) with
      | none => none
      | some o => (taskAfter o.result).map fun task => n.putAfter x o { n.ends x with task := task }

/-- Two fresh transports. -/
def fresh (codec : Side → Codec) : Net where
  ends := fun x => ⟨FramedTransport.new Wire.idle (codec x), none, [], []⟩
  link := fun _ => []

/-- The bytes on the way from `x` that the other side has not taken in yet, first the oldest. -/
def flight (n : Net) (x : Side) : Bytes := n.link x.other ++ (n.ends x).transport.outgoing

/-- All bytes on the way from `x` to the other side, first the oldest. -/
def channel (n : Net) (x : Side) : Bytes :=
  (n.ends x.other).transport.incoming ++ n.flight x

/-! ## What an operation does to the channels -/

@[simp] theorem ends_putAfter_self {α : Type u} (n : Net) (x : Side) (o : Operated α)
    (e : Endpoint) : (n.putAfter x o e).ends x = { e with transport := o.transport } := by
  simp [putAfter, put]

@[simp] theorem ends_putAfter_other {α : Type u} (n : Net) (x : Side) (o : Operated α)
    (e : Endpoint) : (n.putAfter x o e).ends x.other = n.ends x.other := by
  simp [putAfter, put]

theorem operate_eq_some {α : Type u} {n : Net} {x : Side} {ps : List Piece} {writes : List Nat}
    {op : FramedTransport → α × FramedTransport} {o : Operated α}
    (h : n.operate x ps writes op = some o) :
    ∃ t, op ((n.ends x).transport.load ps writes) = (o.result, t) ∧ t.inner.reads = [] ∧
      n.link x = piecesOf ps ++ o.toSelf ∧ o.toOther = n.link x.other ++ t.inner.written ∧
      o.transport = { t with inner := Wire.idle } := by
  unfold operate at h
  split at h
  · next hprefix =>
      obtain ⟨rest, hrest⟩ := hprefix
      cases hop : op ((n.ends x).transport.load ps writes) with
      | mk result t =>
          rw [hop] at h
          simp only at h
          split at h
          · next hreads =>
              cases h
              refine ⟨t, rfl, List.isEmpty_iff.mp hreads, ?_, rfl, rfl⟩
              rw [← hrest, List.drop_left' rfl]
          · cases h
  · cases h

/-- What an operation writes joins the end of what is in flight. -/
theorem flight_putAfter_self {α : Type u} {n : Net} {x : Side} {o : Operated α} {e : Endpoint}
    {t : FramedTransport} {bs : Bytes} (hother : o.toOther = n.link x.other ++ t.inner.written)
    (ht : o.transport = { t with inner := Wire.idle })
    (hbytes : t.inner.written ++ t.outgoing = (n.ends x).transport.outgoing ++ bs) :
    (n.putAfter x o e).flight x = n.flight x ++ bs := by
  have hlink : (n.putAfter x o e).link x.other = o.toOther := by simp [putAfter, put]
  simp only [flight, hlink, ends_putAfter_self, hother, ht, List.append_assoc, hbytes]

/-- The pieces that an operation reads leave the front of what is in flight towards it. -/
theorem flight_putAfter_other {α : Type u} {n : Net} {x : Side} {o : Operated α} {e : Endpoint}
    {ps : List Piece} (hself : n.link x = piecesOf ps ++ o.toSelf) :
    n.flight x.other = piecesOf ps ++ (n.putAfter x o e).flight x.other := by
  have hlink : (n.putAfter x o e).link x = o.toSelf := by simp [putAfter, put]
  simp only [flight, Side.other_other, hlink, ends_putAfter_other, hself, List.append_assoc]

end Net

/-! ## Reading some pieces -/

/-- What a read of the bytes `bs` does when it uses them up. -/
inductive Reads (p : Profile) (t : FramedTransport) (bs : Bytes) :
    Except Fault (Option Frame) → FramedTransport → Prop
  | frame (g : Frame) (t' : FramedTransport) : t.incoming ++ bs = g.toBytes ++ t'.incoming →
      g.item ++ t'.incoming ≠ [] → (bs ≠ [] → Frame.NoneIn t.incoming) →
      t'.backup = trackReceived t.backup g →
      Reads p t bs ((t.codec.decode g).map some) t'
  | short (t' : FramedTransport) : t'.incoming = t.incoming ++ bs →
      Frame.NoneIn (t.incoming ++ bs) → t'.backup = t.backup →
      Reads p t bs (.error (.io (.ofKind .wouldBlock))) t'
  | panic (e : Panic) (t' : FramedTransport) : Frame.read p (t.incoming ++ bs) = .error e →
      Reads p t bs (.error (.panic e)) t'

theorem map_ok_eq_append {ps : List Piece} {cs : List Chunk} {tail : List (Except IoError Chunk)}
    (h : ps.map (fun c => Except.ok c.val) = cs.map .ok ++ tail) :
    ∃ qs : List Piece, tail = qs.map (fun c => .ok c.val) ∧ piecesOf ps =
      bytesOf cs ++ piecesOf qs := by
  induction cs generalizing ps with
  | nil => exact ⟨ps, h.symm, rfl⟩
  | cons c cs ih =>
      cases ps with
      | nil => cases h
      | cons q qs =>
          simp only [List.map_cons, List.cons_append, List.cons.injEq, Except.ok.injEq] at h
          obtain ⟨rfl, h⟩ := h
          obtain ⟨rs, htail, hbytes⟩ := ih h
          refine ⟨rs, htail, ?_⟩
          simp only [piecesOf, List.map_cons, bytesOf_cons, List.append_assoc] at hbytes ⊢
          rw [hbytes]

/-- A read of a loaded transport that uses up the pieces. What it leaves alone is said apart. -/
theorem reads_of_step {p : Profile} {t t' : FramedTransport} {ps : List Piece} {writes : List Nat}
    {r : Except Fault (Option Frame)} (h : ReadStep p (t.load ps writes) r t')
    (hreads : t'.inner.reads = []) :
    Reads p t (piecesOf ps) r t' ∧ t'.codec = t.codec ∧ t'.outgoing = t.outgoing ∧
      t'.inner.written = [] := by
  cases h with
  | frame cs reads g rest hcs hfirst hr hsrc hne =>
      obtain ⟨qs, hqs, hbytes⟩ := map_ok_eq_append hr
      simp only at hreads
      rw [hreads] at hqs
      have hq : qs = [] := List.map_eq_nil_iff.mp hqs.symm
      simp only [hq, piecesOf, List.map_nil, bytesOf_nil, List.append_nil] at hbytes
      refine ⟨.frame g _ ?_ hne ?_ rfl, rfl, rfl, rfl⟩
      · rw [piecesOf, hbytes]
        exact hsrc
      · intro hps
        refine hfirst ?_
        intro hcs'
        rw [piecesOf, hbytes, hcs'] at hps
        exact hps rfl
  | short cs tail reads r hcs hr hnone hstop =>
      obtain ⟨qs, hqs, hbytes⟩ := map_ok_eq_append hr
      cases qs with
      | nil =>
          simp only [List.map_nil] at hqs
          subst hqs
          cases hstop
          simp only [piecesOf, List.map_nil, bytesOf_nil, List.append_nil] at hbytes
          rw [piecesOf, hbytes]
          exact ⟨.short _ rfl hnone rfl, rfl, rfl, rfl⟩
      | cons q qs =>
          rw [hqs, List.map_cons] at hstop
          cases hstop with
          | closed _ _ hq => exact absurd hq q.property
          | truncated _ _ hq => exact absurd hq q.property
  | panic cs reads e hcs hr hread =>
      obtain ⟨qs, hqs, hbytes⟩ := map_ok_eq_append hr
      simp only at hreads
      rw [hreads] at hqs
      have hq : qs = [] := List.map_eq_nil_iff.mp hqs.symm
      simp only [hq, piecesOf, List.map_nil, bytesOf_nil, List.append_nil] at hbytes
      refine ⟨.panic e _ ?_, rfl, rfl, rfl⟩
      rw [piecesOf, hbytes]
      exact hread

/-- Nothing of this depends on the wire that the transport is left with. -/
theorem Reads.idle {p : Profile} {t t' : FramedTransport} {bs : Bytes}
    {r : Except Fault (Option Frame)} (h : Reads p t bs r t') :
    Reads p t bs r { t' with inner := Wire.idle } := by
  cases h with
  | frame g _ hbytes hne hfirst hbackup => exact .frame g _ hbytes hne hfirst hbackup
  | short _ hbytes hnone hbackup => exact .short _ hbytes hnone hbackup
  | panic e _ herr => exact .panic e _ herr

/-! ## Frames under way -/

/-- The codecs of the two sides: each undoes the encoding of either, none encodes a frame with
something in it as an empty one, and none says that encoding would block. -/
structure Shared (codec : Side → Codec) : Prop where
  undoes : ∀ x y, (codec x).Undoes (codec y)
  keepsNonempty : ∀ x, (codec x).KeepsNonempty
  neverBlocks : ∀ x n f e, (codec x).encode n f = .error e → e.isWouldBlock = false

/-- The codecs that the code builds are of this kind. -/
theorem BoxedCodec.shared {crates : Crates} (hc : crates.Documented) (c : BoxedCodec)
    (nonces : Side → Nat → Nonce) : Shared fun x => c.codec crates (nonces x) where
  undoes := fun x y => BoxedCodec.undoes hc c (nonces x) (nonces y)
  keepsNonempty := fun x => BoxedCodec.keepsNonempty hc c (nonces x)
  neverBlocks := fun _ _ _ _ h => BoxedCodec.neverBlocks hc h

/-- One of the sides has encoded `f` as `g`. -/
def Coded (codec : Side → Codec) (f g : Frame) : Prop := ∃ x n, (codec x).encode n f = .ok g

theorem Coded.decode {codec : Side → Codec} (hc : Shared codec) {f g : Frame} (h : Coded codec f g)
    (y : Side) : (codec y).decode g = .ok f := by
  obtain ⟨x, n, henc⟩ := h
  exact hc.undoes x y n f g henc

theorem Coded.item_ne_nil {codec : Side → Codec} (hkeeps : ∀ x, (codec x).KeepsNonempty)
    {f g : Frame} (h : Coded codec f g) (hf : f.item ≠ []) : g.item ≠ [] := by
  obtain ⟨x, n, henc⟩ := h
  exact hkeeps x n f g henc hf

/-- The bytes are those of the frames, each encoded by one of the sides. -/
def Carries (codec : Side → Codec) (bs : Bytes) (fs : List Frame) : Prop :=
  ∃ gs, bs = Frame.encodings gs ∧ List.Forall₂ (Coded codec) fs gs

namespace Carries

variable {codec : Side → Codec}

theorem nil : Carries codec [] [] := ⟨[], rfl, .nil⟩

theorem append {bs bs' : Bytes} {fs fs' : List Frame} (h : Carries codec bs fs)
    (h' : Carries codec bs' fs') : Carries codec (bs ++ bs') (fs ++ fs') := by
  obtain ⟨gs, rfl, hgs⟩ := h
  obtain ⟨gs', rfl, hgs'⟩ := h'
  exact ⟨gs ++ gs', by simp, List.rel_append hgs hgs'⟩

theorem single {f g : Frame} (h : Coded codec f g) : Carries codec g.toBytes [f] :=
  ⟨[g], by simp, .cons h .nil⟩

theorem eq_nil {fs : List Frame} (h : Carries codec [] fs) : fs = [] := by
  obtain ⟨gs, hgs, hfs⟩ := h
  rw [Frame.encodings_eq_nil_iff.mp hgs.symm] at hfs
  exact List.forall₂_nil_right_iff.mp hfs

/-- The frame at the front of the bytes is the first of the frames. -/
theorem front {g : Frame} {bs : Bytes} {fs : List Frame}
    (h : Carries codec (g.toBytes ++ bs) fs) :
    ∃ f fs', fs = f :: fs' ∧ Coded codec f g ∧ Carries codec bs fs' := by
  obtain ⟨gs, hgs, hfs⟩ := h
  obtain ⟨gs', rfl, hrest⟩ := Frame.eq_cons_of_encodings hgs.symm
  obtain ⟨f, fs', hcoded, hfs', rfl⟩ := List.forall₂_cons_right_iff.mp hfs
  exact ⟨f, fs', rfl, hcoded, gs', hrest.symm, hfs'⟩

/-- The first of the frames is at the front of the bytes. -/
theorem uncons {bs : Bytes} {f : Frame} {fs : List Frame} (h : Carries codec bs (f :: fs)) :
    ∃ g bs', bs = g.toBytes ++ bs' ∧ Coded codec f g ∧ Carries codec bs' fs := by
  obtain ⟨gs, rfl, hgs⟩ := h
  obtain ⟨g, gs', hcoded, hgs', rfl⟩ := List.forall₂_cons_left_iff.mp hgs
  exact ⟨g, Frame.encodings gs', rfl, hcoded, gs', rfl, hgs'⟩

/-- A beginning of the bytes that is made of whole frames carries a beginning of the frames. -/
theorem split {hs : List Frame} {bs : Bytes} {fs : List Frame}
    (h : Carries codec (Frame.encodings hs ++ bs) fs) :
    ∃ fs₁ fs₂, fs = fs₁ ++ fs₂ ∧ List.Forall₂ (Coded codec) fs₁ hs ∧ Carries codec bs fs₂ := by
  induction hs generalizing fs with
  | nil => exact ⟨[], fs, rfl, .nil, h⟩
  | cons g hs ih =>
      rw [Frame.encodings_cons, List.append_assoc] at h
      obtain ⟨f, fs', rfl, hcoded, hrest⟩ := h.front
      obtain ⟨fs₁, fs₂, rfl, hfs₁, hfs₂⟩ := ih hrest
      exact ⟨f :: fs₁, fs₂, rfl, .cons hcoded hfs₁, hfs₂⟩

/-- No beginning of such bytes makes a read panic. -/
theorem read_ne_error {p : Profile} {bs bs' : Bytes} {fs : List Frame}
    (h : Carries codec (bs ++ bs') fs) (e : Panic) : Frame.read p bs ≠ .error e := by
  obtain ⟨gs, hgs, -⟩ := h
  exact Frame.read_ne_error_of_begins ⟨bs', hgs⟩ e

end Carries

namespace Net

/-! ## What the calls do -/

section Calls

variable {p : Profile} {stats : Serde Stats} {n n' : Net} {x : Side}

/-- Side `x` has moved, in no synchronization, and its codec and the other side are unchanged. -/
structure Moves (n n' : Net) (x : Side) : Prop where
  idle : (n.ends x).task = none
  task : (n'.ends x).task = none
  codec : (n'.ends x).transport.codec = (n.ends x).transport.codec
  other : n'.ends x.other = n.ends x.other

theorem moves_put {α : Type u} {o : Operated α} {e : Endpoint} {t : FramedTransport}
    (hidle : (n.ends x).task = none) (htask : e.task = none)
    (ht : o.transport = { t with inner := Wire.idle })
    (hcodec : t.codec = (n.ends x).transport.codec) : n.Moves (n.putAfter x o e) x :=
  ⟨hidle, by simpa using htask, by simpa [ht] using hcodec, by simp⟩

/-- A write queues the encoded frame and tracks it, or, if the frame does not encode, does
nothing. -/
theorem step_write {f : Frame} {writes : List Nat}
    (h : n.step p stats (.write x f writes) = some n') :
    n.Moves n' x ∧ n'.flight x.other = n.flight x.other ∧
      (n'.ends x).transport.incoming = (n.ends x).transport.incoming ∧
      (n'.ends x).got = (n.ends x).got ∧
      ((∃ g, (n.ends x).transport.codec.encode (n.ends x).transport.draws f = .ok g ∧
          n'.flight x = n.flight x ++ g.toBytes ∧
          (n'.ends x).sent = (n.ends x).sent ++ [f] ∧
          (n'.ends x).transport.backup = trackSent (n.ends x).transport.backup f) ∨
        (n'.flight x = n.flight x ∧ (n'.ends x).sent = (n.ends x).sent ∧
          (n'.ends x).transport.backup = (n.ends x).transport.backup)) := by
  unfold step at h
  simp only at h
  split at h
  · cases h
  · next hidle =>
      have hnone : (n.ends x).task = none := by simpa using hidle
      obtain ⟨o, hop, rfl⟩ := Option.map_eq_some_iff.mp h
      obtain ⟨t, hrun, -, hself, hother, ht⟩ := operate_eq_some hop
      have hstate := congrArg Prod.snd hrun
      simp only at hstate
      have hin (e : Endpoint) : n.flight x.other = [] ++ (n.putAfter x o e).flight x.other :=
        flight_putAfter_other hself
      cases henc : (n.ends x).transport.codec.encode (n.ends x).transport.draws f with
      | error e =>
          rw [tryWriteFrame_of_error (t := (n.ends x).transport.load [] writes) henc] at hstate
          subst hstate
          have hacc : accepted (n.ends x).transport f = [] := by simp [accepted, henc]
          have hout (e : Endpoint) : (n.putAfter x o e).flight x = n.flight x ++ [] :=
            flight_putAfter_self hother ht (by simp [load])
          exact ⟨moves_put hnone hnone ht rfl, (hin _).symm, by simp [ht, load], by simp,
            .inr ⟨by simpa using hout _, by simp [hacc], by simp [ht, load]⟩⟩
      | ok g =>
          obtain ⟨hemits, hbackup⟩ :=
            tryWriteFrame_emits (t := (n.ends x).transport.load [] writes) henc
          rw [hstate] at hemits hbackup
          have hincoming : t.incoming = (n.ends x).transport.incoming := hemits.incoming
          have hacc : accepted (n.ends x).transport f = [f] := by simp [accepted, henc]
          refine ⟨moves_put hnone hnone ht hemits.codec, (hin _).symm, by simp [ht, hincoming],
            by simp, .inl ⟨g, rfl, flight_putAfter_self hother ht hemits.bytes, by simp [hacc], ?_⟩⟩
          rw [ends_putAfter_self, ht]
          exact hbackup

/-- A flush changes nothing but where the bytes in flight stand. -/
theorem step_flush {writes : List Nat} (h : n.step p stats (.flush x writes) = some n') :
    n.Moves n' x ∧ n'.flight x.other = n.flight x.other ∧ n'.flight x = n.flight x ∧
      (n'.ends x).transport.incoming = (n.ends x).transport.incoming ∧
      (n'.ends x).got = (n.ends x).got ∧ (n'.ends x).sent = (n.ends x).sent ∧
      (n'.ends x).transport.backup = (n.ends x).transport.backup := by
  unfold step at h
  simp only at h
  split at h
  · cases h
  · next hidle =>
      have hnone : (n.ends x).task = none := by simpa using hidle
      obtain ⟨o, hop, rfl⟩ := Option.map_eq_some_iff.mp h
      obtain ⟨t, hrun, -, hself, hother, ht⟩ := operate_eq_some hop
      have hemits := tryFlush_emits ((n.ends x).transport.load [] writes)
      have hbackup := tryFlush_backup ((n.ends x).transport.load [] writes)
      rw [congrArg Prod.snd hrun] at hemits hbackup
      have hin : n.flight x.other = [] ++ (n.putAfter x o (n.ends x)).flight x.other :=
        flight_putAfter_other hself
      have hout : (n.putAfter x o (n.ends x)).flight x = n.flight x ++ [] :=
        flight_putAfter_self hother ht hemits.bytes
      refine ⟨moves_put hnone hnone ht hemits.codec, hin.symm, by simpa using hout, ?_, by simp,
        by simp, ?_⟩
      · rw [ends_putAfter_self, ht]
        exact hemits.incoming
      · rw [ends_putAfter_self, ht]
        exact hbackup

/-- A read uses up some pieces of what is in flight. -/
theorem step_read {ps : List Piece} (h : n.step p stats (.read x ps) = some n') :
    n.Moves n' x ∧ n'.flight x = n.flight x ∧
      n.flight x.other = piecesOf ps ++ n'.flight x.other ∧
      (n'.ends x).sent = (n.ends x).sent ∧
      ∃ r, Reads p (n.ends x).transport (piecesOf ps) r (n'.ends x).transport ∧
        (n'.ends x).got = (n.ends x).got ++ returned r := by
  unfold step at h
  simp only at h
  split at h
  · cases h
  · next hidle =>
      have hnone : (n.ends x).task = none := by simpa using hidle
      obtain ⟨o, hop, rfl⟩ := Option.map_eq_some_iff.mp h
      obtain ⟨t, hrun, hreads, hself, hother, ht⟩ := operate_eq_some hop
      have hstep := tryReadFrame_step p ((n.ends x).transport.load ps [])
      rw [hrun] at hstep
      obtain ⟨hread, hcodec, hsame, hwritten⟩ := reads_of_step hstep hreads
      simp only at hread hcodec hsame hwritten
      have hout (e : Endpoint) : (n.putAfter x o e).flight x = n.flight x ++ [] :=
        flight_putAfter_self hother ht (by simp [hsame, hwritten])
      refine ⟨moves_put hnone hnone ht hcodec, by simpa using hout _, flight_putAfter_other hself,
        by simp, o.result, ?_, by simp⟩
      rw [ends_putAfter_self, ht]
      exact hread.idle

/-- A synchronization that goes on is awaited again; one that is over is not. -/
theorem taskAfter_task (ph : SyncPhase) : taskAfter (ph.task stats) = some (ph.pending stats) := by
  cases ph <;> rfl

theorem task_of_pending {ph : SyncPhase} (h : ph ≠ .done) :
    ph.pending stats = some (ph.task stats) := by
  cases ph with
  | done => exact absurd rfl h
  | _ => rfl

/-- A tick that leads to a phase can happen, and this is what it does to the net. -/
theorem step_of_operate {ps : List Piece} {writes : List Nat} {task : TransportM Unit}
    {ph' : SyncPhase} {o : Operated (TransportM Unit)} (htask : (n.ends x).task = some task)
    (hop : n.operate x ps writes (task.tick (Io.poll p)) = some o)
    (hresult : o.result = ph'.task stats) :
    ∃ n' t, n.step p stats (.tick x ps writes) = some n' ∧
      task.tick (Io.poll p) ((n.ends x).transport.load ps writes) = (ph'.task stats, t) ∧
      t.inner.reads = [] ∧ (n'.ends x).transport = { t with inner := Wire.idle } ∧
      (n'.ends x).task = ph'.pending stats ∧ n'.ends x.other = n.ends x.other ∧
      (n'.ends x).sent = (n.ends x).sent ∧ (n'.ends x).got = (n.ends x).got ∧
      n.flight x.other = piecesOf ps ++ n'.flight x.other ∧
      n'.flight x = n.link x.other ++ (t.inner.written ++ t.outgoing) := by
  obtain ⟨t, hrun, hreads, hself, hother, ht⟩ := operate_eq_some hop
  refine ⟨n.putAfter x o { n.ends x with task := ph'.pending stats }, t, ?_, hresult ▸ hrun, hreads,
    by simp [ht], by simp, by simp, by simp, by simp, flight_putAfter_other hself, ?_⟩
  · unfold step
    simp only [htask, hop, hresult, taskAfter_task]
    rfl
  · simp [flight, putAfter, put, hother, ht]

/-- A tick moves the synchronization on as `SyncStep` says. -/
theorem step_tick {ps : List Piece} {writes : List Nat} {ph : SyncPhase}
    (h : n.step p stats (.tick x ps writes) = some n') (hph : (n.ends x).task = ph.pending stats) :
    ∃ ph' t, SyncStep p stats ph ((n.ends x).transport.load ps writes) ph' t ∧
      t.inner.reads = [] ∧ (n'.ends x).transport = { t with inner := Wire.idle } ∧
      (n'.ends x).task = ph'.pending stats ∧ n'.ends x.other = n.ends x.other ∧
      (n'.ends x).sent = (n.ends x).sent ∧ (n'.ends x).got = (n.ends x).got ∧
      n.flight x.other = piecesOf ps ++ n'.flight x.other ∧
      n'.flight x = n.link x.other ++ (t.inner.written ++ t.outgoing) := by
  have hdone : ph ≠ .done := by
    intro hdone
    subst hdone
    unfold step at h
    simp only [hph, SyncPhase.pending] at h
    cases h
  have htask : (n.ends x).task = some (ph.task stats) := hph.trans (task_of_pending hdone)
  cases hop : n.operate x ps writes ((ph.task stats).tick (Io.poll p)) with
  | none => simp [step, htask, hop] at h
  | some o =>
      obtain ⟨t, hrun, -⟩ := operate_eq_some hop
      have hsteps : Steps p stats ph _ _ :=
        synchronize_step ph ((n.ends x).transport.load ps writes) hdone
      rw [hrun] at hsteps
      rcases hsteps with ⟨e, herr⟩ | ⟨ph', hresult, hstep⟩
      · simp only at herr
        simp [step, htask, hop, herr, taskAfter] at h
      · simp only at hresult hstep
        obtain ⟨n'', t', hstep', hrun', hmoved⟩ := step_of_operate htask hop hresult
        rw [h] at hstep'
        cases hstep'
        have ht : t' = t := (Prod.ext_iff.mp (hrun'.symm.trans hrun)).2
        subst ht
        exact ⟨ph', t', hstep, hmoved⟩

end Calls

end Net

end Distant
