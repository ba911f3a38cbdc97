import Distant.Net.FramedTransport

/-!
# The framing round trip

A list of frames is written down, its bytes are cut into pieces anywhere and delivered one after
the other, and then the stream ends. `RoundTrips` says that reading with the plain codec gives
back exactly the frames, all of them before the end of the stream is looked at, and then a clean
end. `roundTrips_iff` says when that is so: unless the last frame is an empty one, which a read
only takes off the buffer once another byte has come in behind it.

`Feeds.step` says what a single read does with such a stream; the two directions are inductions
over the reads.
-/

namespace Distant

open FramedTransport Distant.Frame

/-- What the end of a stream puts into the read buffer. -/
def endOfStream : Chunk := ⟨[], Nat.zero_le _⟩

/-- The reads that deliver some pieces, where `none` is a read that finds nothing there yet, and
then the end of the stream. -/
def readsOf : List (Option Piece) → List (Except IoError Chunk)
  | [] => [.ok endOfStream]
  | none :: ps => .error (.ofKind .wouldBlock) :: readsOf ps
  | some c :: ps => .ok c.val :: readsOf ps

/-- The bytes that some pieces deliver. -/
def deliveredBy : List (Option Piece) → Bytes
  | [] => []
  | none :: ps => deliveredBy ps
  | some c :: ps => c.val.val ++ deliveredBy ps

/-- The encodings of `frames`, cut into pieces. -/
structure Delivery (frames : List Frame) where
  pieces : List (Option Piece)
  whole : deliveredBy pieces = encodings frames

/-- A fresh transport with the plain codec that some frames are delivered to. -/
def Delivery.transport {frames : List Frame} (d : Delivery frames) : FramedTransport :=
  .plain { Wire.idle with reads := readsOf d.pieces }

/-- The results of `n` calls of `tryReadFrame`, and the transport after them. -/
def readTimes (p : Profile) :
    Nat → FramedTransport → List (Except Fault (Option Frame)) × FramedTransport
  | 0, t => ([], t)
  | n + 1, t =>
    let (result, t) := tryReadFrame p t
    let (results, t) := readTimes p n t
    (result :: results, t)

/-- A result that says something: not that there is nothing to be read yet. -/
def isSettled : Except Fault (Option Frame) → Bool
  | .ok _ => true
  | .error e => !e.isWouldBlock

/-- Reading again and again gives back exactly the frames while the end of the stream has not been
looked at, and the read that looks at it reports a clean end. -/
def RoundTrips (p : Profile) {frames : List Frame} (d : Delivery frames) : Prop :=
  ∃ n results t, readTimes p n d.transport = (results, t) ∧
    results.filter isSettled = frames.map (fun f => .ok (some f)) ∧
    t.inner.reads = [.ok endOfStream] ∧ (tryReadFrame p t).1 = .ok none

/-! ## One read -/

/-- What is to come on `t`: the pieces `ps`, which together with the bytes already taken in are
the encodings of `fs`, and then the end of the stream. -/
structure Feeds (t : FramedTransport) (ps : List (Option Piece)) (fs : List Frame) : Prop where
  codec : t.codec = PlainCodec
  reads : t.inner.reads = readsOf ps
  bytes : t.incoming ++ deliveredBy ps = encodings fs

theorem Delivery.feeds {frames : List Frame} (d : Delivery frames) :
    Feeds d.transport d.pieces frames :=
  ⟨rfl, rfl, d.whole⟩

/-- Nonempty chunks at the front of the script are pieces. -/
theorem exists_pieces {ps : List (Option Piece)} {cs : List Chunk}
    {tail : List (Except IoError Chunk)} (hcs : ∀ c ∈ cs, c.val ≠ [])
    (h : readsOf ps = cs.map .ok ++ tail) :
    ∃ qs, tail = readsOf qs ∧ deliveredBy ps = bytesOf cs ++ deliveredBy qs ∧
      qs.length + cs.length = ps.length := by
  induction cs generalizing ps with
  | nil => exact ⟨ps, by simpa using h.symm, rfl, rfl⟩
  | cons c cs ih =>
      have hc := hcs c (by simp)
      match ps with
      | [] =>
          simp only [readsOf, List.map_cons, List.cons_append, List.cons.injEq,
            Except.ok.injEq] at h
          exact absurd (congrArg Subtype.val h.1).symm hc
      | none :: ps => simp [readsOf] at h
      | some d :: ps =>
          simp only [readsOf, List.map_cons, List.cons_append, List.cons.injEq,
            Except.ok.injEq] at h
          obtain ⟨rfl, h⟩ := h
          obtain ⟨qs, htail, hbytes, hlen⟩ := ih (fun c hc => hcs c (by simp [hc])) h
          refine ⟨qs, htail, ?_, ?_⟩
          · simp [deliveredBy, hbytes]
          · simp only [List.length_cons]
            omega

/-- What a read does with such a stream. -/
inductive Fed (t : FramedTransport) (ps : List (Option Piece)) (fs : List Frame) :
    Except Fault (Option Frame) → FramedTransport → Prop
  /-- it returns the next frame, which is not an empty one with nothing behind it -/
  | frame (f qs fs' t') : fs = f :: fs' → f :: fs' ≠ [empty] → qs.length ≤ ps.length →
      Feeds t' qs fs' → Fed t ps fs (.ok (some f)) t'
  /-- it uses up a piece, and finds nothing yet -/
  | wait (qs t') : qs.length < ps.length → Feeds t' qs fs →
      Fed t ps fs (.error (.io (.ofKind .wouldBlock))) t'
  /-- it finds the end of the stream, and nothing before it -/
  | closed (t') : ps = [] → fs = [] → Fed t ps fs (.ok none) t'
  /-- it finds the end of the stream behind an empty frame -/
  | truncated (t') : fs = [empty] → Fed t ps fs (.error (.io (.ofKind .unexpectedEof))) t'

theorem Feeds.fed {p : Profile} {t t' : FramedTransport} {ps : List (Option Piece)}
    {fs : List Frame} {r : Except Fault (Option Frame)} (h : Feeds t ps fs)
    (hstep : ReadStep p t r t') : Fed t ps fs r t' := by
  have hpfx {cs : List Chunk} {qs} (hbytes : deliveredBy ps = bytesOf cs ++ deliveredBy qs) :
      t.incoming ++ bytesOf cs ++ deliveredBy qs = encodings fs := by
    rw [List.append_assoc, ← hbytes, h.bytes]
  cases hstep with
  | frame cs reads g rest hcs _ hreads hsrc hne =>
      obtain ⟨qs, rfl, hbytes, hlen⟩ := exists_pieces hcs (h.reads ▸ hreads)
      have henc := hpfx hbytes
      rw [hsrc, List.append_assoc] at henc
      obtain ⟨fs', rfl, hrest⟩ := eq_cons_of_encodings henc.symm
      have hlast : g :: fs' ≠ [empty] := by
        intro heq
        cases heq
        simp only [encodings_nil, item_empty, List.nil_append] at hrest hne
        exact hne (List.append_eq_nil_iff.mp hrest.symm).1
      have hdecode : t.codec.decode g = .ok g := by
        rw [h.codec]
        rfl
      rw [hdecode]
      exact .frame g qs fs' _ rfl hlast (by omega) ⟨h.codec, rfl, hrest.symm⟩
  | short cs tail reads r hcs hreads hnone hstop =>
      obtain ⟨qs, rfl, hbytes, hlen⟩ := exists_pieces hcs (h.reads ▸ hreads)
      have henc := hpfx hbytes
      rcases qs with _ | ⟨_ | c, qs⟩ <;> simp only [readsOf] at hstop
      · -- the pieces are used up
        simp only [deliveredBy, List.append_nil] at henc
        cases hstop with
        | closed _ _ _ hin =>
            have hcs' : cs = [] := by
              cases cs with
              | nil => rfl
              | cons c cs =>
                  simp only [bytesOf_cons, List.append_eq_nil_iff] at hin
                  exact absurd hin.2.1 (hcs c (by simp))
            subst hcs'
            exact .closed _ (List.length_eq_zero_iff.mp (by simpa using hlen.symm))
              (encodings_eq_nil_iff.mp (henc.symm.trans hin))
        | truncated _ _ _ hin =>
            refine .truncated _ ?_
            cases fs with
            | nil => exact absurd henc hin
            | cons f fs =>
                have hend := hnone f (encodings fs) henc
                obtain ⟨hitem, hfs⟩ := List.append_eq_nil_iff.mp hend
                rw [encodings_eq_nil_iff.mp hfs, ext_item (hitem.trans item_empty.symm)]
      · -- nothing there yet
        cases hstop with
        | error =>
            simp only [List.length_cons] at hlen
            exact .wait qs _ (by omega) ⟨h.codec, rfl, henc⟩
      · -- a piece is no end of the stream
        cases hstop with
        | closed _ _ hd => exact absurd hd c.property
        | truncated _ _ hd => exact absurd hd c.property
  | panic cs reads e hcs hreads hread =>
      obtain ⟨qs, rfl, hbytes, hlen⟩ := exists_pieces hcs (h.reads ▸ hreads)
      exact absurd hread (read_ne_error_of_begins ⟨_, hpfx hbytes⟩ e)

theorem Feeds.step (p : Profile) {t : FramedTransport} {ps : List (Option Piece)}
    {fs : List Frame} (h : Feeds t ps fs) :
    Fed t ps fs (tryReadFrame p t).1 (tryReadFrame p t).2 :=
  h.fed (tryReadFrame_step p t)

/-! ## All reads -/

/-- Unless an empty frame comes last, the reads return all frames before the end of the stream. -/
theorem Feeds.readTimes (p : Profile) {t : FramedTransport} {ps : List (Option Piece)}
    {fs : List Frame} (h : Feeds t ps fs) (hlast : fs.getLast? ≠ some empty) :
    ∃ n results t', Distant.readTimes p n t = (results, t') ∧
      results.filter isSettled = fs.map (fun f => .ok (some f)) ∧ Feeds t' [] [] := by
  -- every read uses up a piece or a frame
  induction hk : ps.length + fs.length using Nat.strong_induction_on generalizing t ps fs with
  | _ k ih =>
      cases hstep : tryReadFrame p t with
      | mk r t₁ =>
          have hfed := h.step p
          rw [hstep] at hfed
          cases hfed with
          | frame f qs fs' _ hfs hne hle hnext =>
              subst hfs
              have hlast' : fs'.getLast? ≠ some empty := by
                cases fs' with
                | nil => simp
                | cons g gs => simpa using hlast
              simp only [List.length_cons] at hk
              obtain ⟨n, results, t', hrun, hres, hend⟩ := ih _ (by omega) hnext hlast' rfl
              refine ⟨n + 1, .ok (some f) :: results, t', ?_, ?_, hend⟩
              · simp only [Distant.readTimes, hstep, hrun]
              · rw [List.filter_cons_of_pos rfl, hres]
                rfl
          | wait qs _ hlt hnext =>
              obtain ⟨n, results, t', hrun, hres, hend⟩ := ih _ (by omega) hnext hlast rfl
              refine ⟨n + 1, .error (.io (.ofKind .wouldBlock)) :: results, t', ?_, ?_, hend⟩
              · simp only [Distant.readTimes, hstep, hrun]
              · rw [← hres]
                rfl
          | closed _ hps hfs =>
              subst hps hfs
              exact ⟨0, [], t, rfl, rfl, h⟩
          | truncated _ hfs => exact absurd (by rw [hfs]; rfl) hlast

/-- An empty frame that comes last is never returned. -/
theorem Feeds.ne_of_last_empty (p : Profile) {t : FramedTransport} {ps : List (Option Piece)}
    {fs : List Frame} (h : Feeds t ps fs) (hlast : fs.getLast? = some empty) (n : Nat) :
    (Distant.readTimes p n t).1.filter isSettled ≠ fs.map (fun f => .ok (some f)) := by
  induction n generalizing t ps fs with
  | zero =>
      intro hres
      cases fs with
      | nil => simp at hlast
      | cons f fs => simp [Distant.readTimes] at hres
  | succ n ih =>
      cases hstep : tryReadFrame p t with
      | mk r t₁ =>
          have hfed := h.step p
          rw [hstep] at hfed
          intro hres
          simp only [Distant.readTimes, hstep] at hres
          cases hfed with
          | frame f qs fs' _ hfs hne hle hnext =>
              subst hfs
              have hlast' : fs'.getLast? = some empty := by
                cases fs' with
                | nil => simp at hlast; exact absurd (by rw [hlast]) hne
                | cons g gs => simpa using hlast
              refine ih hnext hlast' ?_
              rw [List.filter_cons_of_pos rfl] at hres
              exact (List.cons.inj hres).2
          | wait qs _ hlt hnext => exact ih hnext hlast hres
          | closed _ hps hfs => simp [hfs] at hlast
          | truncated _ hfs =>
              subst hfs
              rw [List.filter_cons_of_pos rfl] at hres
              cases (List.cons.inj hres).1

/-- The framing round trip holds, for every split into pieces, unless the last frame is an empty
one. -/
theorem roundTrips_iff (p : Profile) (frames : List Frame) (d : Delivery frames) :
    RoundTrips p d ↔ frames.getLast? ≠ some empty := by
  constructor
  · intro ⟨n, results, t, hrun, hres, _⟩ hlast
    have hne := d.feeds.ne_of_last_empty p hlast n
    rw [hrun] at hne
    exact hne hres
  · intro hlast
    obtain ⟨n, results, t, hrun, hres, hend⟩ := d.feeds.readTimes p hlast
    refine ⟨n, results, t, hrun, hres, hend.reads, ?_⟩
    have hfed := hend.step p
    generalize (tryReadFrame p t).1 = r at hfed ⊢
    cases hfed with
    | frame f qs fs' _ hfs => cases hfs
    | wait qs _ hlt => cases hlt
    | closed => rfl
    | truncated _ hfs => cases hfs

/-- The eight zero bytes of a heartbeat, in one piece. -/
def heartbeat : Delivery [empty] where
  pieces := [some ⟨⟨empty.toBytes, by simp [READ_BUF_SIZE]⟩, toBytes_ne_nil empty⟩]
  whole := by simp [deliveredBy]

/-- A lone heartbeat is not returned, and the end of the stream behind it is reported as a
truncated frame. -/
theorem not_roundTrips_heartbeat :
    ¬ RoundTrips .dev heartbeat ∧
      (tryReadFrame .dev heartbeat.transport).1 = .error (.io (.ofKind .unexpectedEof)) := by
  constructor
  · intro ⟨n, results, t, hrun, hres, _⟩
    have hne := heartbeat.feeds.ne_of_last_empty .dev rfl n
    rw [hrun] at hne
    exact hne hres
  · rfl

end Distant
