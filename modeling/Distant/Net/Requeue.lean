import Distant.Net.Resend

/-!
# What a synchronization receives

The receive loop takes a frame off the front of the incoming buffer and puts it back at the end of
that buffer, as often as frames are expected. If the buffer has whole frames in it when the loop
begins, nothing else comes in before it is through, and the frames in the buffer are turned round
once for each frame expected. `carries_of_run` says that all frames are in their places at the
end exactly if this brings them back there.
-/

namespace Distant

open FramedTransport

/-- Side `x` starts to synchronize; what comes to it are the stats of the other side, the frames
that it misses, and then all that the other side sends after them. -/
structure Arriving (codec : Side → Codec) (stats : Serde Stats) (n : Net) (x : Side)
    (other : Stats) (resent later : List Frame) : Prop where
  uses : (n.ends x).transport.codec = codec x
  begins : ∃ bs, Beginning stats n x other bs ∧ Carries codec bs (resent ++ later)
  expected : resent.length = expectedCnt (statsOf (n.ends x).transport.backup) other
  nonempty : ∀ f ∈ resent, f.item ≠ []

/-- The receive loop of the synchronization that began at `n₀` takes its first frame from a buffer
with these bytes. -/
def TakesFirst (p : Profile) (stats : Serde Stats) (n₀ : Net) (other : Stats) (n : Net) (x : Side)
    (ps : List Piece) : Prop :=
  ∃ backup left,
    (n.ends x).task = (SyncPhase.receive (statsOf (n₀.ends x).transport.backup) other backup
      left).pending stats ∧
    left + 1 = expectedCnt (statsOf (n₀.ends x).transport.backup) other ∧
    Frame.available p ((n.ends x).transport.incoming ++ piecesOf ps) = .ok true

/-- The buffer holds whole frames then. -/
def Whole (p : Profile) (stats : Serde Stats) (n₀ : Net) (other : Stats) (n : Net) : Event → Prop
  | .tick x ps _ => TakesFirst p stats n₀ other n x ps →
    ∃ gs, (n.ends x).transport.incoming ++ piecesOf ps = Frame.encodings gs
  | _ => True

/-- The buffer holds whole frames then, and turning them round as often as frames are expected
brings each of them back to its place. -/
def ComesRound (p : Profile) (stats : Serde Stats) (n₀ : Net) (other : Stats) (n : Net) :
    Event → Prop
  | .tick x ps _ => TakesFirst p stats n₀ other n x ps →
    ∃ gs, (n.ends x).transport.incoming ++ piecesOf ps = Frame.encodings gs ∧
      (gs.map (n.ends x).transport.codec.decode).rotate
          (expectedCnt (statsOf (n₀.ends x).transport.backup) other) =
        gs.map (n.ends x).transport.codec.decode
  | _ => True

section Receiving

variable {codec : Side → Codec} {p : Profile} {stats : Serde Stats} {n₀ n n' : Net} {x : Side}
  {other : Stats} {resent later fs : List Frame}

theorem ComesRound.whole {e : Event} (h : ComesRound p stats n₀ other n e) :
    Whole p stats n₀ other n e := by
  cases e with
  | tick y ps writes =>
      intro hfirst
      obtain ⟨gs, hgs, -⟩ := h hfirst
      exact ⟨gs, hgs⟩
  | _ => trivial

/-! ## The bytes on the way -/

/-- The buffer, and then what is still in flight, holds the frames. -/
def Straight (codec : Side → Codec) (n : Net) (x : Side) (fs : List Frame) : Prop :=
  Carries codec ((n.ends x).transport.incoming ++ n.flight x.other) fs

/-- The first of the frames are in the buffer, turned round `k` times. -/
def Turning (codec : Side → Codec) (n : Net) (x : Side) (fs : List Frame)
    (R : List Frame → Prop) (k : Nat) : Prop :=
  ∃ hs tl, fs = hs ++ tl ∧ (∃ f ∈ hs, f.item ≠ []) ∧ R hs ∧
    Carries codec (n.ends x).transport.incoming (hs.rotate k) ∧ Carries codec (n.flight x.other) tl

theorem Turning.carries {R : List Frame → Prop} {k : Nat} (h : Turning codec n x fs R k) :
    ∃ fs', Carries codec ((n.ends x).transport.incoming ++ n.flight x.other) fs' := by
  obtain ⟨hs, tl, -, -, -, hin, htl⟩ := h
  exact ⟨hs.rotate k ++ tl, hin.append htl⟩

theorem Turning.mono {R R' : List Frame → Prop} {k : Nat} (h : Turning codec n x fs R k)
    (hR : ∀ hs, R hs → R' hs) : Turning codec n x fs R' k := by
  obtain ⟨hs, tl, hfs, hne, hr, hin, htl⟩ := h
  exact ⟨hs, tl, hfs, hne, hR hs hr, hin, htl⟩

theorem Straight.congr (h : Straight codec n x fs)
    (hbytes : (n'.ends x).transport.incoming ++ n'.flight x.other =
      (n.ends x).transport.incoming ++ n.flight x.other) : Straight codec n' x fs := by
  unfold Straight
  rwa [hbytes]

theorem Turning.congr {R : List Frame → Prop} {k : Nat} (h : Turning codec n x fs R k)
    (hincoming : (n'.ends x).transport.incoming = (n.ends x).transport.incoming)
    (hflight : n'.flight x.other = n.flight x.other) : Turning codec n' x fs R k := by
  unfold Turning
  rwa [hincoming, hflight]

/-- The frames that some bytes carry are determined. -/
theorem Carries.unique (hc : Shared codec) {bs : Bytes} {fs' : List Frame} (h : Carries codec bs fs)
    (h' : Carries codec bs fs') : fs = fs' := by
  obtain ⟨gs, rfl, hgs⟩ := h
  have hwhole : Carries codec (Frame.encodings gs ++ []) fs' := by rwa [List.append_nil]
  obtain ⟨fs₁, fs₂, rfl, hfs₁, hfs₂⟩ := hwhole.split
  rw [hfs₂.eq_nil, List.append_nil]
  have hmap := (map_decode_of_coded hc hgs .a).symm.trans (map_decode_of_coded hc hfs₁ .a)
  have hinj : Function.Injective (Except.ok (ε := Fault) : Frame → _) :=
    fun _ _ heq => Except.ok.inj heq
  exact hinj.list_map hmap

/-- A buffer with a frame with something in it has a frame to read. -/
theorem Carries.not_noneIn (hkeeps : ∀ x, (codec x).KeepsNonempty) {bs : Bytes}
    (h : Carries codec bs fs) (hne : ∃ f ∈ fs, f.item ≠ []) (more : Bytes) :
    ¬ Frame.NoneIn (bs ++ more) := by
  intro hnone
  obtain ⟨f, hf, hitem⟩ := hne
  cases fs with
  | nil => cases hf
  | cons f₀ fs =>
      obtain ⟨g, bs', rfl, hcoded, hrest⟩ := h.uncons
      have hnil := List.append_eq_nil_iff.mp (hnone g (bs' ++ more) (List.append_assoc _ _ _))
      rw [(List.append_eq_nil_iff.mp hnil.2).1] at hrest
      rcases List.mem_cons.mp hf with rfl | hf
      · exact hcoded.item_ne_nil hkeeps hitem hnil.1
      · rw [hrest.eq_nil] at hf
        cases hf

/-! ## Reading -/

/-- The first frame of the buffer goes to its end. -/
theorem rotate_of_take {bs rest : Bytes} {g g' f : Frame} {hs : List Frame} {k : Nat}
    (hin : Carries codec bs (hs.rotate k)) (hfront : bs = g.toBytes ++ rest) (hc : Shared codec)
    (hcoded : Coded codec f g) (hcoded' : Coded codec f g') :
    Carries codec (rest ++ g'.toBytes) (hs.rotate (k + 1)) := by
  rw [hfront] at hin
  obtain ⟨f', ks, hrot, hcoded₁, hks⟩ := hin.front
  have hsame : f' = f := Except.ok.inj ((hcoded₁.decode hc .a).symm.trans (hcoded.decode hc .a))
  rw [← List.rotate_rotate, hrot, List.rotate_cons_succ, List.rotate_zero, hsame]
  exact hks.append (.single hcoded')

/-- A tick takes a frame while the buffer is part of the way round. -/
theorem Turning.take (hc : Shared codec) (hcodec : (n.ends x).transport.codec = codec x)
    {R : List Frame → Prop} {k : Nat} (h : Turning codec n x fs R k) {ps : List Piece}
    {writes : List Nat} {f g : Frame} {t t₁ : FramedTransport} (htick : Ticked n n' x ps t)
    (hread : ReadStep p ((n.ends x).transport.load ps writes) (.ok (some f)) t₁)
    (hreads : t₁.inner.reads = []) (henc : t₁.codec.encode t₁.draws f = .ok g)
    (hincoming : t.incoming = t₁.incoming ++ g.toBytes) : Turning codec n' x fs R (k + 1) := by
  obtain ⟨g₀, hcoded, hfront, hfirst, -⟩ := front_of_read hc hcodec h.carries htick hread hreads
  obtain ⟨-, hcodec₁, -, -⟩ := reads_of_step hread hreads
  obtain ⟨hs, tl, hfs, hne, hr, hin, htl⟩ := h
  have hcoded' : Coded codec f g := ⟨x, _, by rw [← hcodec, ← hcodec₁]; exact henc⟩
  -- nothing comes in as long as the buffer holds a whole frame
  have hps : piecesOf ps = [] := by
    by_contra hps
    refine hin.not_noneIn hc.keepsNonempty ?_ [] (by simpa using hfirst hps)
    obtain ⟨f', hf', hitem⟩ := hne
    exact ⟨f', List.mem_rotate.mpr hf', hitem⟩
  have htaken := htick.taken
  rw [hps, List.nil_append] at htaken
  rw [hps, List.append_nil] at hfront
  refine ⟨hs, tl, hfs, hne, hr, ?_, htaken ▸ htl⟩
  rw [htick.transport]
  show Carries codec t.incoming _
  rw [hincoming]
  exact rotate_of_take hin hfront hc hcoded hcoded'

/-- The first frame is taken from a buffer of whole frames. -/
theorem Straight.take (hc : Shared codec) (hcodec : (n.ends x).transport.codec = codec x)
    (h : Straight codec n x fs) (hhead : ∃ f fs', fs = f :: fs' ∧ f.item ≠ []) {ps : List Piece}
    {writes : List Nat} {f g : Frame} {t t₁ : FramedTransport} (htick : Ticked n n' x ps t)
    (hread : ReadStep p ((n.ends x).transport.load ps writes) (.ok (some f)) t₁)
    (hreads : t₁.inner.reads = []) (henc : t₁.codec.encode t₁.draws f = .ok g)
    (hincoming : t.incoming = t₁.incoming ++ g.toBytes) {gs : List Frame}
    (hgs : (n.ends x).transport.incoming ++ piecesOf ps = Frame.encodings gs) :
    Turning codec n' x fs (fun hs => gs.map (codec x).decode = hs.map .ok) 1 := by
  obtain ⟨g₀, hcoded, hfront, -, -⟩ := front_of_read hc hcodec ⟨fs, h⟩ htick hread hreads
  obtain ⟨-, hcodec₁, -, -⟩ := reads_of_step hread hreads
  have hcoded' : Coded codec f g := ⟨x, _, by rw [← hcodec, ← hcodec₁]; exact henc⟩
  unfold Straight at h
  rw [htick.taken, ← List.append_assoc, hgs] at h
  obtain ⟨hs, tl, rfl, hhs, htl⟩ := h.split
  refine ⟨hs, tl, rfl, ?_, map_decode_of_coded hc hhs x, ?_, htl⟩
  · obtain ⟨f₀, fs', hfs, hitem⟩ := hhead
    cases hs with
    | nil =>
        cases hhs
        rw [hgs] at hfront
        exact absurd (List.append_eq_nil_iff.mp hfront.symm).1 g₀.toBytes_ne_nil
    | cons f₁ hs =>
        cases hfs
        exact ⟨f₀, List.mem_cons_self, hitem⟩
  · rw [htick.transport]
    show Carries codec t.incoming _
    rw [hincoming]
    refine rotate_of_take (k := 0) ⟨gs, rfl, ?_⟩ (hgs ▸ hfront) hc hcoded hcoded'
    rwa [List.rotate_zero]

/-! ## The stages -/

/-- Where the frames are, as long as the receive loop comes full circle. -/
def Received (codec : Side → Codec) (n : Net) (x : Side) (fs : List Frame) (expected : Nat) :
    SyncPhase → Prop
  | .flush _ _ _ => Straight codec n x fs
  | .receive _ _ _ left => (left + 1 = expected ∧ Straight codec n x fs) ∨
      (left + 1 < expected ∧
        Turning codec n x fs (fun hs => hs.rotate expected = hs) (expected - (left + 1)))
  | .done => Straight codec n x fs
  | _ => True

/-- Where they are when it does not. -/
def Displaced (codec : Side → Codec) (n : Net) (x : Side) (fs : List Frame) (expected : Nat) :
    SyncPhase → Prop
  | .receive _ _ _ left => left + 1 < expected ∧
      Turning codec n x fs (fun hs => hs.rotate expected ≠ hs) (expected - (left + 1))
  | .done => Turning codec n x fs (fun hs => hs.rotate expected ≠ hs) expected
  | _ => False

/-- What a tick of the receive loop does while the buffer is part of the way round. -/
theorem Turning.tick (hc : Shared codec) (hcodec : (n.ends x).transport.codec = codec x)
    {R : List Frame → Prop} {expected left : Nat} {own : Stats} {backup : Backup}
    (h : Turning codec n x fs R (expected - (left + 1))) (hleft : left + 1 < expected)
    {ps : List Piece} {writes : List Nat} {ph' : SyncPhase} {t : FramedTransport}
    (hs : SyncStep p stats (.receive own other backup left) ((n.ends x).transport.load ps writes)
      ph' t) (hreads : t.inner.reads = []) (htick : Ticked n n' x ps t) :
    (∃ left', ph' = .receive own other backup left' ∧ left' + 1 < expected ∧
        Turning codec n' x fs R (expected - (left' + 1))) ∨
      (ph' = .done ∧ Turning codec n' x fs R expected) := by
  cases hs with
  | wait hready => cases hready
  | short _ hread he =>
      obtain ⟨-, -, hnone⟩ := short_of_read hc hcodec h.carries htick hread hreads
      obtain ⟨hs, tl, -, hne, -, hin, -⟩ := h
      refine absurd hnone (hin.not_noneIn hc.keepsNonempty ?_ _)
      obtain ⟨f, hf, hitem⟩ := hne
      exact ⟨f, List.mem_rotate.mpr hf, hitem⟩
  | @receive _ _ _ left f g _ t₁ hread henc =>
      have hnext := h.take hc hcodec htick hread hreads henc rfl
      refine .inl ⟨left, rfl, by omega, ?_⟩
      rwa [show expected - (left + 1 + 1) + 1 = expected - (left + 1) by omega] at hnext
  | received hread henc =>
      have hnext := h.take hc hcodec htick hread hreads henc rfl
      refine .inr ⟨rfl, ?_⟩
      rwa [show expected - (0 + 1) + 1 = expected by omega] at hnext

/-- Back in place. -/
theorem Turning.straight {expected : Nat}
    (h : Turning codec n x fs (fun hs => hs.rotate expected = hs) expected) :
    Straight codec n x fs := by
  obtain ⟨hs, tl, rfl, -, hr, hin, htl⟩ := h
  rw [hr] at hin
  exact hin.append htl

/-- Not in place. -/
theorem Turning.not_straight (hc : Shared codec) {expected : Nat}
    (h : Turning codec n x fs (fun hs => hs.rotate expected ≠ hs) expected) :
    ¬ Straight codec n x fs := by
  obtain ⟨hs, tl, rfl, -, hr, hin, htl⟩ := h
  intro hstraight
  have heq := Carries.unique hc hstraight (hin.append htl)
  exact hr (List.append_cancel_right heq).symm

/-- What a tick of the receive loop does before the first frame is taken. -/
theorem Straight.tick (hc : Shared codec) (hcodec : (n.ends x).transport.codec = codec x)
    (h : Straight codec n x fs) (hhead : ∃ f fs', fs = f :: fs' ∧ f.item ≠ []) {left : Nat}
    {own : Stats} {backup : Backup} {ps : List Piece} {writes : List Nat} {ph' : SyncPhase}
    {t : FramedTransport}
    (hs : SyncStep p stats (.receive own other backup left) ((n.ends x).transport.load ps writes)
      ph' t) (hreads : t.inner.reads = []) (htick : Ticked n n' x ps t) :
    (ph' = .receive own other backup left ∧ Straight codec n' x fs ∧
        Frame.NoneIn ((n.ends x).transport.incoming ++ piecesOf ps)) ∨
      (Frame.available p ((n.ends x).transport.incoming ++ piecesOf ps) = .ok true ∧
        ∀ gs, (n.ends x).transport.incoming ++ piecesOf ps = Frame.encodings gs →
          Turning codec n' x fs (fun hs => gs.map (codec x).decode = hs.map .ok) 1 ∧
          ((∃ left', left = left' + 1 ∧ ph' = .receive own other backup left') ∨
            (left = 0 ∧ ph' = .done))) := by
  cases hs with
  | wait hready => cases hready
  | short _ hread he =>
      obtain ⟨hincoming, -, hnone⟩ := short_of_read hc hcodec ⟨fs, h⟩ htick hread hreads
      refine .inl ⟨rfl, h.congr ?_, hnone⟩
      rw [hincoming, htick.taken, List.append_assoc]
  | receive hread henc =>
      obtain ⟨-, -, -, -, havail⟩ := front_of_read hc hcodec ⟨fs, h⟩ htick hread hreads
      refine .inr ⟨havail, fun gs hgs => ⟨?_, .inl ⟨_, rfl, rfl⟩⟩⟩
      exact h.take hc hcodec hhead htick hread hreads henc rfl hgs
  | received hread henc =>
      obtain ⟨-, -, -, -, havail⟩ := front_of_read hc hcodec ⟨fs, h⟩ htick hread hreads
      refine .inr ⟨havail, fun gs hgs => ⟨?_, .inr ⟨rfl, rfl⟩⟩⟩
      exact h.take hc hcodec hhead htick hread hreads henc rfl hgs

/-- The step of the synchronization that began at `n₀`. -/
structure Moved (p : Profile) (stats : Serde Stats) (n₀ n n' : Net) (x : Side) (other : Stats)
    (ph ph' : SyncPhase) (ps : List Piece) (writes : List Nat) (t : FramedTransport) : Prop where
  before : Synchronizing stats n₀ n x other ph
  after : Synchronizing stats n₀ n' x other ph'
  step : SyncStep p stats ph ((n.ends x).transport.load ps writes) ph' t
  reads : t.inner.reads = []
  ticked : Ticked n n' x ps t

theorem Synchronizing.moved {bs : Bytes} (hblocks : (n₀.ends x).transport.codec.NeverBlocks)
    (hbegin : Beginning stats n₀ x other bs) {ph : SyncPhase}
    (h : Synchronizing stats n₀ n x other ph) {e : Event} (he : TicksOf x e)
    (hstep : n.step p stats e = some n') :
    ∃ ps writes ph' t, e = .tick x ps writes ∧ Moved p stats n₀ n n' x other ph ph' ps writes t := by
  cases e with
  | tick y ps writes =>
      obtain rfl : y = x := he
      obtain ⟨ph', t, hs, hreads, htrans, htask, hother, hsent, hgot, hin, hout⟩ :=
        Net.step_tick hstep h.task
      have htick : Ticked n n' y ps t := ⟨htrans, hother, hsent, hgot, hin, hout⟩
      exact ⟨ps, writes, ph', t, rfl, h, h.tick hblocks hbegin hs hreads htick htask, hs, hreads,
        htick⟩
  | _ => exact he.elim

theorem Arriving.neverBlocks (hc : Shared codec)
    (ha : Arriving codec stats n₀ x other resent later) :
    (n₀.ends x).transport.codec.NeverBlocks := by
  rw [ha.uses]
  exact hc.neverBlocks x

theorem Moved.sameCodec (ha : Arriving codec stats n₀ x other resent later) {ph ph' : SyncPhase}
    {ps : List Piece} {writes : List Nat} {t : FramedTransport}
    (h : Moved p stats n₀ n n' x other ph ph' ps writes t) :
    (n.ends x).transport.codec = codec x :=
  h.before.codec.trans ha.uses

/-- The first of the frames that are expected has something in it. -/
theorem Arriving.head (ha : Arriving codec stats n₀ x other resent later)
    (hpos : 0 < resent.length) : ∃ f fs', resent ++ later = f :: fs' ∧ f.item ≠ [] := by
  cases resent with
  | nil => cases hpos
  | cons f fs => exact ⟨f, fs ++ later, rfl, ha.nonempty f List.mem_cons_self⟩

theorem not_noneIn_of_available {src : Bytes} (h : Frame.available p src = .ok true) :
    ¬ Frame.NoneIn src := by
  intro hnone
  rcases Frame.read_cases p src with ⟨g, rest, hsrc, hne, -⟩ | ⟨hr, -⟩ | ⟨-, -, e, hr⟩
  · exact hne (hnone g rest hsrc)
  · rw [Frame.available_of_read hr] at h
    cases h
  · simp [Frame.available, hr, bind, Except.bind] at h

/-- The tick that takes the first frame, or one that waits for it. -/
theorem Moved.first (hc : Shared codec) (ha : Arriving codec stats n₀ x other resent later)
    {own other' : Stats} {backup : Backup} {left : Nat} {ph' : SyncPhase}
    {ps : List Piece} {writes : List Nat} {t : FramedTransport}
    (h : Moved p stats n₀ n n' x other (.receive own other' backup left) ph' ps writes t)
    (hleft : left + 1 = resent.length) (hstraight : Straight codec n x (resent ++ later)) :
    (ph' = .receive own other' backup left ∧ Straight codec n' x (resent ++ later) ∧
        ¬ TakesFirst p stats n₀ other n x ps) ∨
      (TakesFirst p stats n₀ other n x ps ∧
        ∀ gs, (n.ends x).transport.incoming ++ piecesOf ps = Frame.encodings gs →
          Turning codec n' x (resent ++ later) (fun hs => gs.map (codec x).decode = hs.map .ok) 1 ∧
          ((∃ left', left = left' + 1 ∧ ph' = .receive own other' backup left') ∨
            (left = 0 ∧ ph' = .done))) := by
  obtain ⟨rfl, rfl, -⟩ := h.before.stage
  rcases hstraight.tick hc (h.sameCodec ha) (ha.head (by omega)) h.step h.reads h.ticked with
    ⟨hph, hnext, hnone⟩ | ⟨havail, hgs⟩
  · refine .inl ⟨hph, hnext, ?_⟩
    rintro ⟨_, _, -, -, havail⟩
    exact not_noneIn_of_available havail hnone
  · exact .inr ⟨⟨backup, left, h.before.task, hleft.trans ha.expected, havail⟩, hgs⟩

/-- Turning the frames is turning their encodings. -/
theorem rotate_eq_iff {gs hs : List Frame} {k : Nat}
    (h : gs.map (codec x).decode = hs.map .ok) :
    (gs.map (codec x).decode).rotate k = gs.map (codec x).decode ↔ hs.rotate k = hs := by
  have hinj : Function.Injective (Except.ok (ε := Fault) : Frame → _) :=
    fun _ _ heq => Except.ok.inj heq
  rw [h, ← List.map_rotate]
  exact ⟨fun heq => hinj.list_map heq, congrArg _⟩

theorem Received.tick (hc : Shared codec) (ha : Arriving codec stats n₀ x other resent later)
    {ph ph' : SyncPhase} {ps : List Piece} {writes : List Nat} {t : FramedTransport}
    (h : Moved p stats n₀ n n' x other ph ph' ps writes t)
    (hr : Received codec n x (resent ++ later) resent.length ph)
    (hround : ComesRound p stats n₀ other n (.tick x ps writes)) :
    Received codec n' x (resent ++ later) resent.length ph' := by
  have hstep := h.step
  cases ph with
  | start =>
      cases hstep with
      | start => trivial
      | wait hready => cases hready
      | short hreading => cases hreading
  | write backup f =>
      cases hstep with
      | wait hready => cases hready
      | write _ _ hph => rcases hph with rfl | ⟨rfl, -⟩ <;> trivial
      | dropped => trivial
      | short hreading => cases hreading
  | writing backup =>
      cases hstep with
      | wait hready => cases hready
      | writing _ hph => rcases hph with rfl | ⟨rfl, -⟩ <;> trivial
      | short hreading => cases hreading
  | stats backup =>
      cases hstep with
      | wait hready => cases hready
      | short => trivial
      | @stats _ f other' gs _ t₁ _ hread hde hreplays =>
          obtain ⟨bs, hbegin, hcarries⟩ := ha.begins
          obtain ⟨-, -, -, hincoming⟩ := h.before.stage
          have hreads₁ : t₁.inner.reads = [] := hreplays.emits.reads.symm.trans h.reads
          obtain ⟨-, hrest⟩ :=
            eq_other_of_read hbegin h.before.codec hincoming hread hreads₁ h.ticked hde
          show Carries codec ((n'.ends x).transport.incoming ++ _) _
          rw [h.ticked.transport]
          show Carries codec (t.incoming ++ _) _
          rwa [hreplays.emits.incoming, hrest]
  | flush own other' backup =>
      cases hstep with
      | wait hready => cases hready
      | short hreading => cases hreading
      | flush hemits hph =>
          obtain ⟨-, hflight, hincoming⟩ := h.ticked.flight_of_emits hemits h.reads
          have hnext : Straight codec n' x (resent ++ later) :=
            Straight.congr hr (by rw [hflight, hincoming])
          rcases hph with rfl | ⟨-, left, hexp, rfl⟩
          · exact hnext
          · obtain ⟨rfl, rfl, -⟩ := h.before.stage
            exact .inl ⟨(ha.expected.trans hexp).symm, hnext⟩
      | flushed hemits hflushed hexp =>
          refine Straight.congr hr ?_
          have hps : ps = [] := List.map_eq_nil_iff.mp (hemits.reads.symm.trans h.reads)
          have htaken := h.ticked.taken
          rw [hps] at htaken
          rw [h.ticked.transport, htaken]
          exact congrArg (· ++ _) hemits.incoming
  | receive own other' backup left =>
      rcases hr with ⟨hleft, hstraight⟩ | ⟨hleft, hturning⟩
      · rcases h.first hc ha hleft hstraight with ⟨rfl, hnext, -⟩ | ⟨hfirst, hgs⟩
        · exact .inl ⟨hleft, hnext⟩
        · obtain ⟨gs, hwhole, hrotate⟩ := hround hfirst
          rw [h.sameCodec ha, ← ha.expected] at hrotate
          obtain ⟨hnext, hph⟩ := hgs gs hwhole
          replace hnext := hnext.mono fun hs heq => (rotate_eq_iff heq).mp hrotate
          rcases hph with ⟨left', rfl, rfl⟩ | ⟨rfl, rfl⟩
          · refine .inr ⟨by omega, ?_⟩
            rwa [show resent.length - (left' + 1) = 1 by omega]
          · rw [← hleft] at hnext ⊢
            exact hnext.straight
      · rcases hturning.tick hc (h.sameCodec ha) hleft hstep h.reads h.ticked with
          ⟨left', rfl, hleft', hnext⟩ | ⟨rfl, hnext⟩
        · exact .inr ⟨hleft', hnext⟩
        · exact hnext.straight
  | done =>
      cases hstep with
      | wait hready => cases hready
      | short hreading => cases hreading

/-- The first frame is taken from a buffer that does not come full circle. -/
theorem displaced_of_not_comesRound (hc : Shared codec)
    (ha : Arriving codec stats n₀ x other resent later) {ph ph' : SyncPhase} {ps : List Piece}
    {writes : List Nat} {t : FramedTransport}
    (h : Moved p stats n₀ n n' x other ph ph' ps writes t)
    (hr : Received codec n x (resent ++ later) resent.length ph)
    (hwhole : Whole p stats n₀ other n (.tick x ps writes))
    (hround : ¬ ComesRound p stats n₀ other n (.tick x ps writes)) :
    Displaced codec n' x (resent ++ later) resent.length ph' := by
  simp only [ComesRound, Classical.not_imp] at hround
  obtain ⟨hfirst, hnot⟩ := hround
  obtain ⟨gs, hgs⟩ := hwhole hfirst
  obtain ⟨backup, left, htask, hleft, -⟩ := id hfirst
  obtain ⟨own', other', backup', rfl⟩ :=
    SyncPhase.eq_receive_of_pending (h.before.task.symm.trans htask)
  rw [← ha.expected] at hleft
  rcases hr with ⟨-, hstraight⟩ | ⟨hlt, -⟩
  · rcases h.first hc ha hleft hstraight with ⟨-, -, hnotFirst⟩ | ⟨-, hturns⟩
    · exact absurd hfirst hnotFirst
    · obtain ⟨hnext, hph⟩ := hturns gs hgs
      replace hnext : Turning codec n' x (resent ++ later)
          (fun hs => hs.rotate resent.length ≠ hs) 1 := by
        refine hnext.mono fun hs heq hrotate => hnot ⟨gs, hgs, ?_⟩
        rw [h.sameCodec ha, ← ha.expected]
        exact (rotate_eq_iff heq).mpr hrotate
      rcases hph with ⟨left', rfl, rfl⟩ | ⟨rfl, rfl⟩
      · refine ⟨by omega, ?_⟩
        rwa [show resent.length - (left' + 1) = 1 by omega]
      · show Turning codec n' x _ _ _
        rwa [← hleft] at hnext ⊢
  · omega

theorem Displaced.tick (hc : Shared codec) (ha : Arriving codec stats n₀ x other resent later)
    {ph ph' : SyncPhase} {ps : List Piece} {writes : List Nat} {t : FramedTransport}
    (h : Moved p stats n₀ n n' x other ph ph' ps writes t)
    (hd : Displaced codec n x (resent ++ later) resent.length ph) :
    Displaced codec n' x (resent ++ later) resent.length ph' := by
  have hstep := h.step
  cases ph with
  | receive own other' backup left =>
      rcases hd.2.tick hc (h.sameCodec ha) hd.1 hstep h.reads h.ticked with
        ⟨left', rfl, hleft', hnext⟩ | ⟨rfl, hnext⟩
      · exact ⟨hleft', hnext⟩
      · exact hnext
  | done =>
      cases hstep with
      | wait hready => cases hready
      | short hreading => cases hreading
  | _ => exact hd.elim

end Receiving

/-- Whenever the synchronization ends without an error, in whatever pieces the bytes came: if the
receive loop comes full circle, the buffer and then the link hold all frames in their order. If it
starts with whole frames in the buffer, they do so only then. -/
theorem carries_of_run {codec : Side → Codec} (hc : Shared codec) (p : Profile)
    (stats : Serde Stats) (x : Side) (n₀ n : Net) (other : Stats) (resent later : List Frame)
    (es : List Event) (ha : Arriving codec stats n₀ x other resent later)
    (hticks : ∀ e ∈ es, TicksOf x e) (hrun : Machine.run (Net.step p stats) es n₀ = some n)
    (hdone : (n.ends x).task = none) :
    (Machine.Meeting (Net.step p stats) (ComesRound p stats n₀ other) es n₀ →
      Carries codec (n.channel x.other) (resent ++ later)) ∧
    (Machine.Meeting (Net.step p stats) (Whole p stats n₀ other) es n₀ →
      Carries codec (n.channel x.other) (resent ++ later) →
      Machine.Meeting (Net.step p stats) (ComesRound p stats n₀ other) es n₀) := by
  obtain ⟨bs, hbegin, -⟩ := id ha.begins
  have hblocks := ha.neverBlocks hc
  have hchannel : Carries codec (n.channel x.other) (resent ++ later) ↔
      Straight codec n x (resent ++ later) := by
    rw [Straight, Net.channel, Side.other_other]
  have hdichotomy (hwhole : Machine.Meeting (Net.step p stats) (Whole p stats n₀ other) es n₀) :=
    Machine.kept_or_broken (C := ComesRound p stats n₀ other)
      (I := fun m => ∃ ph, Synchronizing stats n₀ m x other ph ∧
        Received codec m x (resent ++ later) resent.length ph)
      (D := fun m => ∃ ph, Synchronizing stats n₀ m x other ph ∧
        Displaced codec m x (resent ++ later) resent.length ph)
      (fun m e m' h hW hround hstep => by
        obtain ⟨ph, hsync, hr⟩ := h
        obtain ⟨ps, writes, ph', t, rfl, hmoved⟩ := hsync.moved hblocks hbegin hW.1 hstep
        exact ⟨ph', hmoved.after, hr.tick hc ha hmoved hround⟩)
      (fun m e m' h hW hround hstep => by
        obtain ⟨ph, hsync, hr⟩ := h
        obtain ⟨ps, writes, ph', t, rfl, hmoved⟩ := hsync.moved hblocks hbegin hW.1 hstep
        exact ⟨ph', hmoved.after, displaced_of_not_comesRound hc ha hmoved hr hW.2 hround⟩)
      (fun m e m' h hW hstep => by
        obtain ⟨ph, hsync, hd⟩ := h
        obtain ⟨ps, writes, ph', t, rfl, hmoved⟩ := hsync.moved hblocks hbegin hW.1 hstep
        exact ⟨ph', hmoved.after, hd.tick hc ha hmoved⟩)
      ⟨.start, synchronizing_begin hbegin, trivial⟩
      ((Machine.meeting_of_mem hticks n₀).and hwhole) hrun
  have hend {ph : SyncPhase} (h : Synchronizing stats n₀ n x other ph) : ph = .done :=
    eq_done_of_pending (h.task.symm.trans hdone)
  constructor
  · intro hround
    rcases hdichotomy (hround.mono fun _ _ h => h.whole) with ⟨-, ph, hsync, hr⟩ | ⟨hnot, -⟩
    · obtain rfl := hend hsync
      exact hchannel.mpr hr
    · exact absurd hround hnot
  · intro hwhole hcarries
    rcases hdichotomy hwhole with ⟨hround, -⟩ | ⟨-, ph, hsync, hd⟩
    · exact hround
    · obtain rfl := hend hsync
      exact absurd (hchannel.mp hcarries) (Turning.not_straight hc hd)

/-! ## A later frame in the same chunk, and in the next one -/

namespace Requeueing

open Overtaking (first second firstPiece bothPieces)

/-- Side `a` has received nothing, and the other side has sent one frame and sends another one. -/
def net : Net where
  ends := fun
    | .a => ⟨FramedTransport.plain Wire.idle, some (synchronize Overtaking.stats), [], []⟩
    | .b => ⟨FramedTransport.plain Wire.idle, none, [first, second], []⟩
  link := fun
    | .a => [0, 0, 0, 0, 0, 0, 0, 3, 1, 0, 1] ++ bothPieces.val.val
    | .b => []

theorem arriving : Arriving Overtaking.codec Overtaking.stats net .a ⟨1, 0, 1⟩ [first] [second] where
  uses := rfl
  begins := ⟨bothPieces.val.val, ⟨rfl, ⟨[1, 0, 1], by decide⟩, ⟨[1, 0, 1], by decide⟩, rfl, rfl, rfl⟩,
    [first, second], rfl, .cons ⟨.a, 0, rfl⟩ (.cons ⟨.a, 0, rfl⟩ .nil)⟩
  expected := rfl
  nonempty := by
    intro f hf
    rw [List.mem_singleton.mp hf]
    decide

/-- The ticks up to the receive loop, which then finds these pieces. -/
def events (ps : List Piece) : List Event :=
  [.tick .a [] [], .tick .a [] [11], .tick .a [Overtaking.statsA] [], .tick .a [] [],
    .tick .a ps []]

theorem ticksOf_events (ps : List Piece) : ∀ e ∈ events ps, TicksOf .a e := by
  intro e he
  simp only [events, List.mem_cons, List.not_mem_nil, or_false] at he
  rcases he with rfl | rfl | rfl | rfl | rfl <;> rfl

/-- The later frame is in front of the one that was sent again. -/
theorem not_carries_bothPieces :
    ∃ n, Machine.run (Net.step .dev Overtaking.stats) (events [bothPieces]) net = some n ∧
      (n.ends .a).task = none ∧ n.channel .b = second.toBytes ++ first.toBytes ∧
      ¬ Carries Overtaking.codec (n.channel .b) ([first] ++ [second]) := by
  refine ⟨_, rfl, rfl, rfl, fun h => ?_⟩
  have hswapped : Carries Overtaking.codec (Frame.encodings [second, first]) [second, first] :=
    ⟨_, rfl, .cons ⟨.a, 0, rfl⟩ (.cons ⟨.a, 0, rfl⟩ .nil)⟩
  have heq : [first, second] = [second, first] := Carries.unique Overtaking.shared h hswapped
  exact absurd heq (by decide)

/-- A tick that finds nothing to read. -/
theorem comesRound_of_nil {n : Net} {other : Stats} {ps : List Piece} {writes : List Nat}
    (h : (n.ends .a).transport.incoming ++ piecesOf ps = []) :
    ComesRound .dev Overtaking.stats net other n (.tick .a ps writes) := by
  rintro ⟨_, _, -, -, havail⟩
  rw [h] at havail
  cases havail

/-- A tick that finds one frame. -/
theorem comesRound_of_single {n : Net} {other : Stats} {ps : List Piece} {writes : List Nat}
    (g : Frame) (h : (n.ends .a).transport.incoming ++ piecesOf ps = g.toBytes) :
    ComesRound .dev Overtaking.stats net other n (.tick .a ps writes) := by
  intro _
  exact ⟨[g], by simpa using h, List.rotate_singleton _ _⟩

/-- The later frame comes in after the synchronization. -/
theorem carries_firstPiece :
    ∃ n, Machine.run (Net.step .dev Overtaking.stats) (events [firstPiece]) net = some n ∧
      (n.ends .a).task = none ∧
      Carries Overtaking.codec (n.channel .b) ([first] ++ [second]) := by
  refine ⟨_, rfl, rfl, (carries_of_run Overtaking.shared .dev Overtaking.stats .a net _ _ [first]
    [second] (events [firstPiece]) arriving (ticksOf_events _) rfl rfl).1 ?_⟩
  refine .cons (comesRound_of_nil rfl) rfl <| .cons (comesRound_of_nil rfl) rfl <|
    .cons (comesRound_of_single ⟨[1, 0, 1], by decide⟩ rfl) rfl <|
    .cons (comesRound_of_nil rfl) rfl <| .cons (comesRound_of_single first rfl) rfl trivial

end Requeueing

end Distant
