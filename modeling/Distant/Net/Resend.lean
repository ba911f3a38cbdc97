import Distant.Net.Delivery
import Distant.Net.Stored

/-!
# What a synchronization sends

One side synchronizes: it polls its task as often as it takes, and the bytes of the other side come
in cut in any way. `SyncStage` says, for each place where the task can be suspended, what has been put
on the link and what has been taken off it. `resends_of_run` is what holds at the end: the stats and
then the frames that the other side has not received are on the link, and those frames are what the
backup is left with. A frozen backup ignores the truncation, and all that it stores is sent again.
-/

namespace Distant

open FramedTransport

/-- The codec encodes `f` as `g`. -/
def Codec.Encodes (c : Codec) (f g : Frame) : Prop := ∃ draws, c.encode draws f = .ok g

/-- The codec never says that encoding would block. -/
def Codec.NeverBlocks (c : Codec) : Prop :=
  ∀ draws f e, c.encode draws f = .error e → e.isWouldBlock = false

/-- A tick of the synchronization of `x`. -/
def TicksOf (x : Side) : Event → Prop
  | .tick y _ _ => y = x
  | _ => False

/-- Side `x` starts to synchronize, and the stats `other` are the first that it will find on the
link. -/
structure Beginning (stats : Serde Stats) (n : Net) (x : Side) (other : Stats) (bs : Bytes) :
    Prop where
  task : (n.ends x).task = some (synchronize stats)
  announced : ∃ f g, n.flight x.other = g.toBytes ++ bs ∧
    (n.ends x).transport.codec.decode g = .ok f ∧ stats.deserializeFromSlice f.item = .ok other

/-- The backup that is left when the other side has announced its stats. -/
def leftOf (b : Backup) (other : Stats) : Backup := b.truncateFront (resendCnt (statsOf b) other)

/-- Side `x` has put its stats and then the frames `fs` on the link, and keeps these. -/
structure Resends (stats : Serde Stats) (n₀ n : Net) (x : Side) (fs : List Frame) : Prop where
  sent : ∃ f g gs, stats.serializeToFrame (statsOf (n₀.ends x).transport.backup) = .ok f ∧
    (n₀.ends x).transport.codec.Encodes f g ∧
    List.Forall₂ (n₀.ends x).transport.codec.Encodes fs gs ∧
    n.link x.other = n₀.link x.other ++ g.toBytes ++ Frame.encodings gs
  flushed : (n.ends x).transport.outgoing = []
  frames : (n.ends x).transport.backup.frames = fs
  sentCnt : (n.ends x).transport.backup.sentCnt = (n₀.ends x).transport.backup.sentCnt

/-! ## The stages -/

section Stages

variable {p : Profile} {stats : Serde Stats} {n₀ n n' : Net} {x : Side} {other : Stats} {bs : Bytes}

/-- The stats, and then the encoded frames, are in flight. -/
def InFlight (stats : Serde Stats) (n₀ n : Net) (x : Side) (fs : List Frame) : Prop :=
  ∃ f g gs, stats.serializeToFrame (statsOf (n₀.ends x).transport.backup) = .ok f ∧
    (n₀.ends x).transport.codec.Encodes f g ∧
    List.Forall₂ (n₀.ends x).transport.codec.Encodes fs gs ∧
    n.flight x = n₀.link x.other ++ g.toBytes ++ Frame.encodings gs

/-- What has come and gone at each place of the synchronization that began at `n₀`. -/
def SyncStage (stats : Serde Stats) (n₀ n : Net) (x : Side) (other : Stats) : SyncPhase → Prop
  | .start => (n.ends x).transport.backup = (n₀.ends x).transport.backup ∧
      n.link x.other = n₀.link x.other ∧ n.flight x.other = n₀.flight x.other
  | .write backup f => backup = (n₀.ends x).transport.backup ∧
      stats.serializeToFrame (statsOf backup) = .ok f ∧ (n.ends x).transport.outgoing = [] ∧
      n.link x.other = n₀.link x.other ∧
      (n.ends x).transport.incoming ++ n.flight x.other = n₀.flight x.other
  | .writing backup => backup = (n₀.ends x).transport.backup ∧ InFlight stats n₀ n x [] ∧
      (n.ends x).transport.incoming ++ n.flight x.other = n₀.flight x.other
  | .stats backup => backup = (n₀.ends x).transport.backup ∧ InFlight stats n₀ n x [] ∧
      (n.ends x).transport.outgoing = [] ∧
      (n.ends x).transport.incoming ++ n.flight x.other = n₀.flight x.other
  | .flush own other' backup => own = statsOf (n₀.ends x).transport.backup ∧ other' = other ∧
      backup = leftOf (n₀.ends x).transport.backup other ∧
      InFlight stats n₀ n x backup.frames ∧ (n.ends x).transport.outgoing = []
  | .receive own other' backup left => own = statsOf (n₀.ends x).transport.backup ∧
      other' = other ∧ backup = leftOf (n₀.ends x).transport.backup other ∧
      InFlight stats n₀ n x backup.frames ∧ (n.ends x).transport.outgoing = [] ∧
      left < expectedCnt own other'
  | .done => (n.ends x).transport.backup =
        catchUp other (leftOf (n₀.ends x).transport.backup other) ∧
      InFlight stats n₀ n x (leftOf (n₀.ends x).transport.backup other).frames ∧
      (n.ends x).transport.outgoing = []

/-- Where the synchronization of `x` stands. -/
structure Synchronizing (stats : Serde Stats) (n₀ n : Net) (x : Side) (other : Stats)
    (ph : SyncPhase) : Prop where
  task : (n.ends x).task = ph.pending stats
  codec : (n.ends x).transport.codec = (n₀.ends x).transport.codec
  stage : SyncStage stats n₀ n x other ph

theorem Ticked.link {ps : List Piece} {t : FramedTransport} (h : Ticked n n' x ps t) :
    n'.link x.other = n.link x.other ++ t.inner.written := by
  have hgiven := h.given
  rw [Net.flight, h.transport, ← List.append_assoc] at hgiven
  exact List.append_cancel_right hgiven

theorem forall₂_encodes_of_replays {t t' : FramedTransport} {fs gs : List Frame} {c : Codec}
    (h : Replays t fs gs t') (hcodec : t.codec = c) : List.Forall₂ c.Encodes fs gs := by
  induction h with
  | nil t => exact .nil
  | cons henc hemits _ _ ih =>
      have hencodes : c.Encodes _ _ := ⟨_, hcodec ▸ henc⟩
      exact .cons hencodes (ih (hemits.codec.trans hcodec))

/-- What is in flight does not change. -/
theorem InFlight.congr {fs : List Frame} (h : InFlight stats n₀ n x fs)
    (hflight : n'.flight x = n.flight x) : InFlight stats n₀ n' x fs := by
  obtain ⟨f, g, gs, hser, henc, hgs, heq⟩ := h
  exact ⟨f, g, gs, hser, henc, hgs, hflight.trans heq⟩

/-- The stats were read off the front of what has come in. -/
theorem eq_other_of_read {ps : List Piece} {writes : List Nat} {f : Frame} {t t₁ : FramedTransport}
    {other' : Stats} (hbegin : Beginning stats n₀ x other bs)
    (hcodec : (n.ends x).transport.codec = (n₀.ends x).transport.codec)
    (hincoming : (n.ends x).transport.incoming ++ n.flight x.other = n₀.flight x.other)
    (hread : ReadStep p ((n.ends x).transport.load ps writes) (.ok (some f)) t₁)
    (hreads : t₁.inner.reads = []) (htick : Ticked n n' x ps t)
    (hde : stats.deserializeFromSlice f.item = .ok other') :
    other' = other ∧ t₁.incoming ++ n'.flight x.other = bs := by
  obtain ⟨hr, -, -, -⟩ := reads_of_step hread hreads
  obtain ⟨f₀, g₀, hstream, hdecode, hde₀⟩ := hbegin.announced
  rw [htick.taken, ← List.append_assoc, hstream] at hincoming
  generalize hres : (Except.ok (some f) : Except Fault (Option Frame)) = r at hr
  cases hr with
  | short => cases hres
  | panic => cases hres
  | frame g _ hfront hne hfirst =>
      rw [hfront, List.append_assoc] at hincoming
      obtain ⟨rfl, hrest⟩ := Frame.toBytes_append_inj hincoming
      rw [hcodec, hdecode] at hres
      cases hres
      rw [hde₀] at hde
      cases hde
      exact ⟨rfl, hrest⟩

theorem synchronizing_begin (hbegin : Beginning stats n₀ x other bs) :
    Synchronizing stats n₀ n₀ x other .start :=
  ⟨hbegin.task, rfl, rfl, rfl, rfl⟩

/-- No frame has come in yet: what was taken off the link is kept. -/
theorem incoming_of_short {ps : List Piece} {writes : List Nat} {e : Fault} {t : FramedTransport}
    (hbegin : Beginning stats n₀ x other bs)
    (hcodec : (n.ends x).transport.codec = (n₀.ends x).transport.codec)
    (hincoming : (n.ends x).transport.incoming ++ n.flight x.other = n₀.flight x.other)
    (hread : ReadStep p ((n.ends x).transport.load ps writes) (.error e) t)
    (he : e.isWouldBlock = true) (hreads : t.inner.reads = []) (htick : Ticked n n' x ps t) :
    (n'.ends x).transport.incoming ++ n'.flight x.other = n₀.flight x.other := by
  obtain ⟨hr, -, -, -⟩ := reads_of_step hread hreads
  obtain ⟨f₀, g₀, hstream, hdecode, -⟩ := hbegin.announced
  have hcame := hincoming
  rw [htick.taken, ← List.append_assoc, hstream] at hcame
  rw [← hincoming, htick.taken, htick.transport]
  generalize hres : (Except.error e : Except Fault (Option Frame)) = r at hr
  cases hr with
  | frame g _ hfront =>
      rw [hfront, List.append_assoc] at hcame
      obtain ⟨rfl, -⟩ := Frame.toBytes_append_inj hcame
      rw [hcodec, hdecode] at hres
      cases hres
  | short _ hbytes =>
      show t.incoming ++ _ = _
      rw [hbytes, List.append_assoc]
  | panic e' =>
      cases hres
      cases he

/-- A read does not touch what goes out. -/
theorem outgoing_of_read {ps : List Piece} {writes : List Nat}
    {r : Except Fault (Option Frame)} {t t₁ : FramedTransport} (htick : Ticked n n' x ps t)
    (hread : ReadStep p ((n.ends x).transport.load ps writes) r t₁) (hreads : t₁.inner.reads = [])
    (hwritten : t.inner.written = t₁.inner.written) (houtgoing : t.outgoing = t₁.outgoing) :
    n'.flight x = n.flight x ∧ (n'.ends x).transport.outgoing = (n.ends x).transport.outgoing := by
  obtain ⟨-, -, hsame, hnone⟩ := reads_of_step hread hreads
  refine ⟨?_, ?_⟩
  · rw [htick.given, hwritten, houtgoing, hsame, hnone, List.nil_append, Net.flight]
  · rw [htick.transport]
    exact houtgoing.trans hsame

/-- A tick goes on to the next stage. -/
theorem Synchronizing.tick (hblocks : (n₀.ends x).transport.codec.NeverBlocks)
    (hbegin : Beginning stats n₀ x other bs) {ph ph' : SyncPhase}
    (h : Synchronizing stats n₀ n x other ph) {ps : List Piece} {writes : List Nat}
    {t : FramedTransport} (hstep : SyncStep p stats ph ((n.ends x).transport.load ps writes) ph' t)
    (hreads : t.inner.reads = []) (htick : Ticked n n' x ps t)
    (htask : (n'.ends x).task = ph'.pending stats) : Synchronizing stats n₀ n' x other ph' := by
  obtain ⟨-, hcodec, hstage⟩ := h
  have hcodec' : t.codec = (n.ends x).transport.codec →
      (n'.ends x).transport.codec = (n₀.ends x).transport.codec := by
    intro ht
    rw [htick.transport]
    exact ht.trans hcodec
  cases hstep with
  | @start _ f hser =>
      obtain ⟨hbackup, hlink, hflight⟩ := hstage
      have hps : ps = [] := List.map_eq_nil_iff.mp hreads
      have htaken := htick.taken
      subst hps
      refine ⟨htask, hcodec' rfl, hbackup, hser, ?_, ?_, ?_⟩
      · rw [htick.transport]
      · rw [htick.link, hlink]
        exact List.append_nil _
      · rw [htick.transport, ← hflight, htaken]
        rfl
  | wait hready => cases hready
  | @write backup f g _ _ t' henc hemits hph =>
      obtain ⟨hbackup, hser, houtgoing, hlink, hincoming⟩ := hstage
      obtain ⟨hself, hother, hsame⟩ := htick.flight_of_emits hemits hreads
      have hflight : InFlight stats n₀ n' x [] := by
        refine ⟨f, g, [], hbackup ▸ hser, ⟨_, hcodec ▸ henc⟩, .nil, ?_⟩
        rw [hself, Net.flight, houtgoing, hlink]
        simp
      have hcame : (n'.ends x).transport.incoming ++ n'.flight x.other = n₀.flight x.other := by
        rw [hsame, hother, hincoming]
      rcases hph with rfl | ⟨rfl, hflushed⟩
      · exact ⟨htask, hcodec' hemits.codec, hbackup, hflight, hcame⟩
      · refine ⟨htask, hcodec' hemits.codec, hbackup, hflight, ?_, hcame⟩
        rw [htick.transport]
        exact hflushed
  | dropped henc he =>
      have hnot := hblocks _ _ _ (hcodec ▸ henc)
      rw [hnot] at he
      cases he
  | writing hemits hph =>
      obtain ⟨hbackup, hflight, hincoming⟩ := hstage
      obtain ⟨hself, hother, hsame⟩ := htick.flight_of_emits hemits hreads
      rw [List.append_nil] at hself
      have hcame : (n'.ends x).transport.incoming ++ n'.flight x.other = n₀.flight x.other := by
        rw [hsame, hother, hincoming]
      rcases hph with rfl | ⟨rfl, hflushed⟩
      · exact ⟨htask, hcodec' hemits.codec, hbackup, hflight.congr hself, hcame⟩
      · refine ⟨htask, hcodec' hemits.codec, hbackup, hflight.congr hself, ?_, hcame⟩
        rw [htick.transport]
        exact hflushed
  | short hreading hread he =>
      obtain ⟨-, hcodec₁, -, -⟩ := reads_of_step hread hreads
      obtain ⟨hself, hout⟩ := outgoing_of_read htick hread hreads rfl rfl
      cases ph with
      | stats backup =>
          obtain ⟨hbackup, hflight, houtgoing, hincoming⟩ := hstage
          exact ⟨htask, hcodec' hcodec₁, hbackup, hflight.congr hself, hout.trans houtgoing,
            incoming_of_short hbegin hcodec hincoming hread he hreads htick⟩
      | receive own other' backup left =>
          obtain ⟨hown, hother, hbackup, hflight, houtgoing, hleft⟩ := hstage
          exact ⟨htask, hcodec' hcodec₁, hown, hother, hbackup, hflight.congr hself,
            hout.trans houtgoing, hleft⟩
      | start => cases hreading
      | write backup f => cases hreading
      | writing backup => cases hreading
      | flush own other' backup => cases hreading
      | done => cases hreading
  | @stats backup f other' gs _ t₁ _ hread hde hreplays =>
      obtain ⟨hbackup, ⟨f₀, g₀, gs₀, hser, henc, hgs₀, hflight⟩, houtgoing, hincoming⟩ := hstage
      have hemits := hreplays.emits
      have hreads₁ : t₁.inner.reads = [] := hemits.reads.symm.trans hreads
      obtain ⟨-, hcodec₁, hout₁, hwritten₁⟩ := reads_of_step hread hreads₁
      obtain ⟨rfl, -⟩ := eq_other_of_read hbegin hcodec hincoming hread hreads₁ htick hde
      have hgs := forall₂_encodes_of_replays hreplays (hcodec₁.trans hcodec)
      subst hbackup
      refine ⟨htask, hcodec' (hemits.codec.trans hcodec₁), rfl, rfl, rfl,
        ⟨f₀, g₀, gs, hser, henc, hgs, ?_⟩, ?_⟩
      · cases hgs₀
        have hself : n'.flight x = n.flight x ++ Frame.encodings gs := by
          rw [htick.given, hemits.bytes, hwritten₁, hout₁, List.nil_append, Net.flight,
            List.append_assoc]
        rw [hself, hflight, Frame.encodings_nil, List.append_nil]
      · rw [htick.transport]
        exact hreplays.outgoing (hout₁.trans houtgoing)
  | flush hemits hph =>
      obtain ⟨hown, hother, hbackup, hflight, houtgoing⟩ := hstage
      obtain ⟨hself, -, -⟩ := htick.flight_of_emits hemits hreads
      rw [List.append_nil] at hself
      have hout : (n'.ends x).transport.outgoing = [] := by
        have hbytes : t.inner.written ++ t.outgoing = (n.ends x).transport.outgoing ++ [] :=
          hemits.bytes
        rw [houtgoing] at hbytes
        rw [htick.transport]
        exact (List.append_eq_nil_iff.mp hbytes).2
      rcases hph with rfl | ⟨-, left, hexp, rfl⟩
      · exact ⟨htask, hcodec' hemits.codec, hown, hother, hbackup, hflight.congr hself, hout⟩
      · refine ⟨htask, hcodec' hemits.codec, hown, hother, hbackup, hflight.congr hself, hout, ?_⟩
        rw [hexp]
        exact Nat.lt_succ_self left
  | @flushed own other' backup _ t' hemits hflushed hexp =>
      obtain ⟨-, rfl, rfl, hflight, -⟩ := hstage
      have hself : n'.flight x = n.flight x := by
        have hbytes : t'.inner.written ++ t'.outgoing = (n.ends x).transport.outgoing ++ [] :=
          hemits.bytes
        rw [htick.given]
        show n.link x.other ++ (t'.inner.written ++ t'.outgoing) = _
        rw [hbytes, List.append_nil, Net.flight]
      refine ⟨htask, hcodec' hemits.codec, ?_, hflight.congr hself, ?_⟩
      · rw [htick.transport]
      · rw [htick.transport]
        exact hflushed
  | receive hread henc =>
      obtain ⟨hown, hother, hbackup, hflight, houtgoing, hleft⟩ := hstage
      obtain ⟨-, hcodec₁, -, -⟩ := reads_of_step hread hreads
      obtain ⟨hself, hout⟩ := outgoing_of_read htick hread hreads rfl rfl
      exact ⟨htask, hcodec' hcodec₁, hown, hother, hbackup, hflight.congr hself,
        hout.trans houtgoing, Nat.lt_of_succ_lt hleft⟩
  | received hread henc =>
      obtain ⟨-, rfl, rfl, hflight, houtgoing, -⟩ := hstage
      obtain ⟨-, hcodec₁, -, -⟩ := reads_of_step hread hreads
      obtain ⟨hself, hout⟩ := outgoing_of_read htick hread hreads rfl rfl
      refine ⟨htask, hcodec' hcodec₁, ?_, hflight.congr hself, hout.trans houtgoing⟩
      rw [htick.transport]

/-- One step of a run in which only `x` does something. -/
theorem Synchronizing.step (hblocks : (n₀.ends x).transport.codec.NeverBlocks)
    (hbegin : Beginning stats n₀ x other bs) {ph : SyncPhase}
    (h : Synchronizing stats n₀ n x other ph) {e : Event} (hticks : TicksOf x e)
    (hstep : n.step p stats e = some n') : ∃ ph', Synchronizing stats n₀ n' x other ph' := by
  cases e with
  | tick y ps writes =>
      obtain rfl : y = x := hticks
      obtain ⟨ph', t, hs, hreads, htrans, htask, hother, hsent, hgot, hin, hout⟩ :=
        Net.step_tick hstep h.task
      exact ⟨ph', h.tick hblocks hbegin hs hreads ⟨htrans, hother, hsent, hgot, hin, hout⟩ htask⟩
  | _ => exact hticks.elim

theorem Synchronizing.resends {b₀ : Backup} (hb₀ : (n₀.ends x).transport.backup = b₀)
    (h : Synchronizing stats n₀ n x other .done) :
    Resends stats n₀ n x (leftOf b₀ other).frames := by
  subst hb₀
  obtain ⟨hbackup, ⟨f, g, gs, hser, henc, hgs, hflight⟩, houtgoing⟩ := h.stage
  refine ⟨⟨f, g, gs, hser, henc, hgs, ?_⟩, houtgoing, ?_, ?_⟩
  · rw [Net.flight, houtgoing, List.append_nil] at hflight
    exact hflight
  · rw [hbackup, frames_catchUp]
  · rw [hbackup, sentCnt_catchUp]
    exact Backup.sentCnt_truncateFront _ _

end Stages

/-- The frames that `synchronize` sends again: the last ones, as many as the other side has not
received, or all that are stored if the backup is frozen. -/
def missing (b : Backup) (sent : List Frame) (other : Stats) : List Frame :=
  if b.frozen then b.frames
  else sent.drop (sent.length - min (sent.length - other.received) b.frameCnt)

theorem frames_leftOf {b : Backup} {sent : List Frame} {other : Stats}
    (hlast : Usage.LastCounted b sent) (hother : other.received ≤ sent.length) :
    (leftOf b other).frames = missing b sent other := by
  unfold missing
  cases hfrozen : b.frozen with
  | true => simp [leftOf, Backup.truncateFront, hfrozen]
  | false =>
      have hcnt := hlast.sentCnt
      rw [if_neg Bool.false_ne_true, leftOf,
        (hlast.numbered.resent hfrozen other (by omega)).1]
      simp only [resendCnt, statsOf, hcnt]

/-- Whenever a synchronization of a side that stores the last of the frames it has sent ends without
an error, in whatever pieces the bytes came and went, the frames on the link are the last ones that
the other side has not received, as far as they are stored, and the backup is left with these. -/
theorem resends_of_run (p : Profile) (stats : Serde Stats) (x : Side) (n₀ n : Net)
    (other : Stats) (bs : Bytes) (sent : List Frame) (es : List Event)
    (hblocks : (n₀.ends x).transport.codec.NeverBlocks) (hbegin : Beginning stats n₀ x other bs)
    (hlast : Usage.LastCounted (n₀.ends x).transport.backup sent)
    (hother : other.received ≤ sent.length) (hticks : ∀ e ∈ es, TicksOf x e)
    (hrun : Machine.run (Net.step p stats) es n₀ = some n) (hdone : (n.ends x).task = none) :
    Resends stats n₀ n x (missing (n₀.ends x).transport.backup sent other) := by
  have hinv : ∃ ph, Synchronizing stats n₀ n x other ph := by
    refine Machine.invariant (I := fun m => ∃ ph, Synchronizing stats n₀ m x other ph)
      (C := fun _ e => TicksOf x e) ?_ ⟨_, synchronizing_begin hbegin⟩
      (Machine.meeting_of_mem hticks n₀) hrun
    rintro m e m' ⟨ph, h⟩ he hstep
    exact h.step hblocks hbegin he hstep
  obtain ⟨ph, h⟩ := hinv
  have hph : ph = .done := eq_done_of_pending (h.task.symm.trans hdone)
  subst hph
  rw [← frames_leftOf hlast hother]
  exact h.resends rfl

/-! ## A frozen backup, and one that is not -/

namespace Resending

open Overtaking (first first_fits)

/-- One frame has been sent, and is stored. -/
def stored (frozen : Bool) : Backup := ((Backup.new.incrementSentCnt).pushFrame first).setFrozen frozen

theorem lastCounted_stored (frozen : Bool) : Usage.LastCounted (stored frozen) [first] :=
  ⟨rfl, List.suffix_rfl⟩

/-- Side `a` starts to synchronize, and the other side has received `received` frames. -/
def net (frozen : Bool) (received : UInt8) : Net where
  ends := fun
    | .a => ⟨{ FramedTransport.plain Wire.idle with backup := stored frozen },
        some (synchronize Overtaking.stats), [first], []⟩
    | .b => ⟨FramedTransport.plain Wire.idle, none, [], []⟩
  link := fun
    | .a => [0, 0, 0, 0, 0, 0, 0, 3, 0, received, 0]
    | .b => []

def announcement (received : UInt8) : Frame := ⟨[0, received, 0], by simp⟩

theorem beginning (frozen : Bool) (received : UInt8) :
    Beginning Overtaking.stats (net frozen received) .a ⟨0, received.toNat, 0⟩ [] := by
  refine ⟨rfl, announcement received, announcement received, ?_, rfl, rfl⟩
  have hlen : beBytes 8 3 = [0, 0, 0, 0, 0, 0, 0, 3] := by decide
  rw [List.append_nil, Frame.toBytes_eq]
  show [0, 0, 0, 0, 0, 0, 0, 3, 0, received, 0] ++ [] = beBytes 8 3 ++ [0, received, 0]
  rw [hlen]
  rfl

def piece (received : UInt8) : Piece :=
  ⟨⟨[0, 0, 0, 0, 0, 0, 0, 3, 0, received, 0], by simp [READ_BUF_SIZE]⟩, by simp⟩

def events (received : UInt8) : List Event :=
  [.tick .a [] [], .tick .a [] [11], .tick .a [piece received] [9], .tick .a [] []]

/-- The other side has received the frame, and it is sent again all the same. -/
theorem not_resends_frozen :
    ∃ n, Machine.run (Net.step .dev Overtaking.stats) (events 1) (net true 1) = some n ∧
      (n.ends .a).task = none ∧
      n.link .b = [0, 0, 0, 0, 0, 0, 0, 3, 1, 0, 1] ++ first.toBytes ∧
      ¬ Resends Overtaking.stats (net true 1) n .a
        ([first].drop (1 - min (1 - 1) (stored true).frameCnt)) := by
  refine ⟨_, rfl, rfl, rfl, fun h => ?_⟩
  have hframes : [first] = [] := h.frames
  cases hframes

/-- The other side has not received the frame. -/
theorem resends_stored :
    ∃ n, Machine.run (Net.step .dev Overtaking.stats) (events 0) (net false 0) = some n ∧
      n.link .b = [0, 0, 0, 0, 0, 0, 0, 3, 1, 0, 1] ++ first.toBytes ∧
      Resends Overtaking.stats (net false 0) n .a [first] := by
  refine ⟨_, rfl, rfl, ?_⟩
  refine resends_of_run .dev Overtaking.stats .a (net false 0) _ _ [] [first] (events 0) ?_
    (beginning false 0) (lastCounted_stored false) (by decide) ?_ rfl rfl
  · rintro draws f e ⟨⟩
  · intro e he
    simp only [events, List.mem_cons, List.not_mem_nil, or_false] at he
    rcases he with rfl | rfl | rfl | rfl <;> rfl

end Resending

end Distant
