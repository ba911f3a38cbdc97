import Distant.Net.Way

/-!
# Delivery across reconnections

The frames that a side has written should reach the other side exactly once and in order, however
often the link is lost, as long as both sides complete `synchronize` on a fresh link each time.
`delivers_of_run` says when they do. Two habits of `synchronize` stand in the way, and `Meets` is
the condition that keeps a run clear of them.

* It counts the frames that it is sent again as received at once, by setting the received count to
  the other side's sent count, and they are counted a second time when they are read. A later loss
  finds a count that is too high, and frames that have not been read are not sent again.
* It puts each frame that it receives back at the end of the incoming buffer, and takes the next
  one from the front of that same buffer. When more than one frame has come in, it goes round.

`Overtaking` is a run in which the second habit makes a later frame overtake an earlier one.
-/

namespace Distant

open FramedTransport FramedTransport.SyncPhase

/-! ## What is claimed, and under which condition -/

/-- What the other side has read is a beginning of what `x` has written, and all of it once
everything is flushed and read and no synchronization is under way. -/
def Delivers (n : Net) (x : Side) : Prop :=
  (n.ends x.other).got <+: (n.ends x).sent ∧
    ((n.ends x).task = none → (n.ends x.other).task = none → n.channel x = [] →
      (n.ends x.other).got = (n.ends x).sent)

/-- The received count of a side is right, or nothing that the other side has written is missing. -/
def CountsRight (n : Net) (x : Side) : Prop :=
  (n.ends x.other).transport.backup.receivedCnt = (n.ends x.other).got.length ∨
    (n.ends x.other).got = (n.ends x).sent

/-- All frames that the other side has not read yet are still stored after this write. -/
def KeepsUnread (n : Net) (x : Side) (frame : Frame) : Prop :=
  ((n.ends x).sent ++ [frame]).drop (n.ends x.other).got.length <:+
    (trackSent (n.ends x).transport.backup frame).frames

/-- When the receive loop of a synchronization is about to take the first of the frames that it
expects from a buffer, the buffer holds whole frames, and going round it that many times brings
each of them back to its place. -/
def RoundComplete (p : Profile) (stats : Serde Stats) (n : Net) (x : Side) (ps : List Piece) :
    Prop :=
  ∀ own other backup left,
    (n.ends x).task = (SyncPhase.receive own other backup left).pending stats →
    left + 1 = expectedCnt own other →
    Frame.available p ((n.ends x).transport.incoming ++ piecesOf ps) = .ok true →
    ∃ gs, (n.ends x).transport.incoming ++ piecesOf ps = Frame.encodings gs ∧
      (gs.map (n.ends x).transport.codec.decode).rotate (expectedCnt own other) =
        gs.map (n.ends x).transport.codec.decode

/-- The condition on a step: only frames with something in them are written and none that the
other side has not read is evicted, the counts are right whenever the link is lost, and the receive
loop comes full circle. -/
def Meets (p : Profile) (stats : Serde Stats) (n : Net) : Event → Prop
  | .write x frame _ => frame.item ≠ [] ∧ KeepsUnread n x frame
  | .lose => ∀ x, CountsRight n x
  | .tick x ps _ => RoundComplete p stats n x ps
  | .flush _ _ => True
  | .read _ _ => True

/-! ## Steps of the net -/

section Net

variable {codec : Side → Codec} {p : Profile} {stats : Serde Stats} {n n' : Net}
  {ph : Side → SyncPhase} {rep : Side → Stats} {x : Side}

theorem eq_done_of_pending {ph : SyncPhase} (h : ph.pending stats = none) : ph = .done := by
  cases ph <;> first | rfl | cases h

/-- To keep the invariant when side `x` moves is to keep what is known of it, and of the two ways
from it and to it. -/
theorem Delivering.of_move (h : Delivering codec stats n ph rep) (ph₁ : SyncPhase)
    (hother : n'.ends x.other = n.ends x.other)
    (hstanding : Standing (codec x) stats (n'.ends x) ph₁ (rep x) (rep x.other))
    (hout : Way codec stats (n'.ends x) (n.ends x.other) ph₁ (ph x.other) (rep x) (rep x.other)
      (n'.flight x))
    (hin : Way codec stats (n.ends x.other) (n'.ends x) (ph x.other) ph₁ (rep x.other) (rep x)
      (n'.flight x.other)) :
    ∃ ph', Delivering codec stats n' ph' rep := by
  refine ⟨fun y => if y = x then ph₁ else ph y, ?_, ?_⟩
  · intro y
    rcases x.eq_or_eq_other y with rfl | rfl
    · simpa using hstanding
    · simpa [hother] using h.standing x.other
  · intro y
    rcases x.eq_or_eq_other y with rfl | rfl
    · simpa [hother] using hout
    · simpa [hother] using hin

theorem Delivering.way_other (h : Delivering codec stats n ph rep) (x : Side) :
    Way codec stats (n.ends x.other) (n.ends x) (ph x.other) (ph x) (rep x.other) (rep x)
      (n.flight x.other) := by
  have hway := h.way x.other
  rwa [Side.other_other] at hway

/-- What is known of a side that is in no synchronization. -/
theorem Standing.done {c : Codec} {e : Endpoint} {own other : Stats}
    (hcodec : e.transport.codec = c) (htask : e.task = none)
    (hfrozen : e.transport.backup.frozen = false) (hstores : 0 < e.transport.backup.maxBackupSize)
    (hsentCnt : e.transport.backup.sentCnt = e.sent.length)
    (hframes : e.transport.backup.frames <:+ e.sent)
    (hreceived : e.got.length ≤ e.transport.backup.receivedCnt)
    (hnonempty : ∀ f ∈ e.sent, f.item ≠ []) : Standing c stats e .done own other :=
  ⟨hcodec, htask, hfrozen, hstores, hsentCnt, hframes, hreceived, hnonempty, trivial⟩

/-- It still is so when its backup, and what it has sent and got, are what they were. -/
theorem Standing.kept {c : Codec} {e e' : Endpoint} {own other : Stats}
    (hs : Standing c stats e .done own other) (hcodec : e'.transport.codec = e.transport.codec)
    (htask : e'.task = none) (hbackup : e'.transport.backup = e.transport.backup)
    (hsent : e'.sent = e.sent) (hgot : e'.got = e.got) : Standing c stats e' .done own other := by
  apply Standing.done (hcodec.trans hs.codec) htask
  · rw [hbackup]
    exact hs.frozen
  · rw [hbackup]
    exact hs.stores
  · rw [hbackup, hsent]
    exact hs.sentCnt
  · rw [hbackup, hsent]
    exact hs.frames
  · rw [hbackup, hgot]
    exact hs.received
  · rw [hsent]
    exact hs.nonempty

theorem Delivering.write (h : Delivering codec stats n ph rep) {f : Frame} {writes : List Nat}
    (hf : f.item ≠ []) (hkeeps : KeepsUnread n x f)
    (hstep : n.step p stats (.write x f writes) = some n') :
    ∃ ph', Delivering codec stats n' ph' rep := by
  obtain ⟨hm, hother, hincoming, hgot, heffect⟩ := Net.step_write hstep
  have hs := h.standing x
  have hdone : ph x = .done := eq_done_of_pending (hs.task.symm.trans hm.idle)
  have hout := h.way x
  have hin := h.way_other x
  rw [hdone] at hs hout hin
  have hfrozen : (n.ends x).transport.backup.frozen = false := hs.frozen
  have hin' : Way codec stats (n.ends x.other) (n'.ends x) (ph x.other) .done (rep x.other) (rep x)
      (n'.flight x.other) := by
    rw [hother]
    exact hin.of_same rfl hgot hincoming rfl rfl rfl rfl rfl (fun _ => rfl) (fun hne => hne)
  rcases heffect with ⟨g, henc, hself, hsent, hbackup⟩ | ⟨hself, hsent, hbackup⟩
  · have hcoded : Coded codec f g := ⟨x, _, by rw [← hs.codec]; exact henc⟩
    refine h.of_move .done hm.other (.done (hm.codec.trans hs.codec) hm.task ?_ ?_ ?_ ?_ ?_ ?_) ?_
      hin'
    · rwa [hbackup, frozen_trackSent]
    · rw [hbackup, maxBackupSize_trackSent]
      exact hs.stores
    · rw [hbackup, sentCnt_trackSent hfrozen, hsent, if_pos ((Frame.isNonempty_iff f).mpr hf),
        List.length_append]
      exact congrArg (· + 1) hs.sentCnt
    · rw [hbackup, hsent]
      refine (frames_trackSent_suffix hs.stores hfrozen hf).trans ?_
      obtain ⟨pre, hpre⟩ := hs.frames
      exact ⟨pre, by rw [← hpre, List.append_assoc]⟩
    · rw [hbackup, hgot, receivedCnt_trackSent]
      exact hs.received
    · rw [hsent]
      intro f' hf'
      rcases List.mem_append.mp hf' with hold | hnew
      · exact hs.nonempty f' hold
      · rw [List.mem_singleton.mp hnew]
        exact hf
    · rw [hself]
      refine hout.write hcoded hsent ?_
      show _ <:+ (n'.ends x).transport.backup.frames
      rw [hbackup, hsent]
      exact hkeeps
  · refine h.of_move .done hm.other (hs.kept hm.codec hm.task hbackup hsent hgot) ?_ hin'
    rw [hself]
    exact hout.of_same hsent rfl rfl (congrArg Backup.frames hbackup) rfl rfl rfl rfl
      (fun _ => rfl) (fun hne => hne)

theorem Delivering.flush (h : Delivering codec stats n ph rep) {writes : List Nat}
    (hstep : n.step p stats (.flush x writes) = some n') :
    ∃ ph', Delivering codec stats n' ph' rep := by
  obtain ⟨hm, hother, hself, hincoming, hgot, hsent, hbackup⟩ := Net.step_flush hstep
  have hs := h.standing x
  have hdone : ph x = .done := eq_done_of_pending (hs.task.symm.trans hm.idle)
  have hout := h.way x
  have hin := h.way_other x
  rw [hdone] at hs hout hin
  apply h.of_move .done hm.other (hs.kept hm.codec hm.task hbackup hsent hgot)
  · rw [hself]
    exact hout.of_same hsent rfl rfl (congrArg Backup.frames hbackup) rfl rfl rfl rfl
      (fun _ => rfl) (fun hne => hne)
  · rw [hother]
    exact hin.of_same rfl hgot hincoming rfl rfl rfl rfl rfl (fun _ => rfl) (fun hne => hne)

theorem Delivering.read (hc : Shared codec) (h : Delivering codec stats n ph rep)
    {ps : List Piece} (hstep : n.step p stats (.read x ps) = some n') :
    ∃ ph', Delivering codec stats n' ph' rep := by
  obtain ⟨hm, hself, hother, hsent, r, hread, hgot⟩ := Net.step_read hstep
  have hs := h.standing x
  have hdone : ph x = .done := eq_done_of_pending (hs.task.symm.trans hm.idle)
  have hout := h.way x
  have hin := h.way_other x
  rw [hdone] at hs hout hin
  have hfrozen : (n.ends x).transport.backup.frozen = false := hs.frozen
  have hnonempty := (h.standing x.other).nonempty
  cases hread with
  | frame g _ hfront hne hfirst hbackup =>
      obtain ⟨f, hcoded, hmem, hin'⟩ := hin.read hfront hother
      rw [hs.codec, hcoded.decode hc x] at hgot
      have hg : g.isNonempty = true :=
        (Frame.isNonempty_iff g).mpr (hcoded.item_ne_nil hc.keepsNonempty (hnonempty f hmem))
      refine h.of_move .done hm.other (.done (hm.codec.trans hs.codec) hm.task ?_ ?_ ?_ ?_ ?_ ?_) ?_
        (hin' hgot)
      · rwa [hbackup, frozen_trackReceived]
      · rw [hbackup, maxBackupSize_trackReceived]
        exact hs.stores
      · rw [hbackup, hsent, sentCnt_trackReceived]
        exact hs.sentCnt
      · rw [hbackup, hsent, frames_trackReceived]
        exact hs.frames
      · rw [hbackup, hgot, receivedCnt_trackReceived hfrozen, if_pos hg]
        show ((n.ends x).got ++ [f]).length ≤ _
        rw [List.length_append]
        exact Nat.add_le_add_right hs.received 1
      · rw [hsent]
        exact hs.nonempty
      · rw [hself]
        refine hout.of_same hsent rfl rfl ?_ rfl rfl rfl rfl (fun _ => rfl) (fun hne => hne)
        show (n'.ends x).transport.backup.frames = (n.ends x).transport.backup.frames
        rw [hbackup, frames_trackReceived]
  | short _ hincoming hnone hbackup =>
      replace hgot : (n'.ends x).got = (n.ends x).got := by simpa [Net.returned] using hgot
      apply h.of_move .done hm.other (hs.kept hm.codec hm.task hbackup hsent hgot)
      · rw [hself]
        exact hout.of_same hsent rfl rfl (congrArg Backup.frames hbackup) rfl rfl rfl rfl
          (fun _ => rfl) (fun hne => hne)
      · exact hin.short hc.keepsNonempty hnonempty hnone hgot hincoming hother
  | panic e _ herr =>
      obtain ⟨fs, hcarries⟩ := hin.carries
      rw [hother, ← List.append_assoc] at hcarries
      exact absurd herr (hcarries.read_ne_error e)

/-- Both sides report what they have in store, and nothing is on the way. -/
theorem Delivering.lose (h : Delivering codec stats n ph rep) (hright : ∀ x, CountsRight n x)
    (hstep : n.step p stats .lose = some n') :
    ∃ ph' rep', Delivering codec stats n' ph' rep' := by
  simp only [Net.step] at hstep
  split at hstep
  · cases hstep
  · next hidle =>
      cases hstep
      simp only [not_or, Option.not_isSome_iff_eq_none] at hidle
      have hdone (x : Side) : ph x = .done := by
        have htask := (h.standing x).task
        cases x with
        | a => exact eq_done_of_pending (htask.symm.trans hidle.1)
        | b => exact eq_done_of_pending (htask.symm.trans hidle.2)
      have hstanding (x : Side) : Standing (codec x) stats (n.ends x) .done (rep x)
          (rep x.other) := by
        have hs := h.standing x
        rwa [hdone x] at hs
      have hway (x : Side) : Way codec stats (n.ends x) (n.ends x.other) .done .done (rep x)
          (rep x.other) (n.flight x) := by
        have hw := h.way x
        rwa [hdone x, hdone x.other] at hw
      refine ⟨fun _ => .start, fun x => statsOf (n.ends x).transport.backup, ?_, ?_⟩
      · intro x
        have hs := hstanding x
        exact ⟨hs.codec, rfl, hs.frozen, hs.stores, hs.sentCnt, hs.frames, hs.received,
          hs.nonempty, rfl, rfl⟩
      · intro x
        have hprefix := (hway x).got_begins
        refine ⟨⟨[], .silent rfl rfl rfl, rfl, hprefix⟩, (hway x).kept, fun _ => hright x,
          fun _ => (hstanding x.other).received, fun _ => ?_⟩
        show _ ≤ (n.ends x).transport.backup.sentCnt
        have hcnt : (n.ends x).transport.backup.sentCnt = (n.ends x).sent.length :=
          (hstanding x).sentCnt
        rw [hcnt]
        exact hprefix.length_le

/-! ## Ticks -/

/-- The frames that are sent again are those that the other side has not read. -/
theorem frames_truncateFront {b : Backup} {sent got : List Frame} {other : Stats}
    (hfrozen : b.frozen = false) (hsentCnt : b.sentCnt = sent.length)
    (hkept : sent.drop got.length <:+ b.frames)
    (hagreed : other.received = got.length ∨ got = sent) (hcounted : got.length ≤ other.received) :
    (b.truncateFront (resendCnt (statsOf b) other)).frames = sent.drop got.length := by
  obtain ⟨pre, hpre⟩ := hkept
  have hlen : (sent.drop got.length).length ≤ b.frames.length := by
    rw [← hpre, List.length_append]
    exact Nat.le_add_left _ _
  have hcnt : resendCnt (statsOf b) other = (sent.drop got.length).length := by
    simp only [resendCnt, statsOf, Backup.frameCnt, hsentCnt, List.length_drop] at hlen ⊢
    rcases hagreed with heq | heq
    · rw [heq, Nat.min_eq_left hlen]
    · rw [heq] at hcounted ⊢
      rw [Nat.sub_self, Nat.sub_eq_zero_of_le hcounted, Nat.zero_min]
  rw [Backup.truncateFront_frames hfrozen, hcnt]
  have hdrop : b.frames.length - (sent.drop got.length).length = pre.length := by
    rw [← hpre, List.length_append, Nat.add_sub_cancel]
  rw [hdrop, ← hpre, List.drop_left' rfl]

theorem forall₂_coded_of_replays {t t' : FramedTransport} {fs gs : List Frame}
    (h : Replays t fs gs t') (hcodec : t.codec = codec x) : List.Forall₂ (Coded codec) fs gs := by
  induction h with
  | nil t => exact .nil
  | cons henc hemits _ _ ih =>
      exact .cons ⟨x, _, by rw [← hcodec]; exact henc⟩ (ih (hemits.codec.trans hcodec))

/-- A tick leaves the real backup as it is, or catches up its received count at the end. -/
theorem Standing.settled {c : Codec} {e e' : Endpoint} {pw pw' : SyncPhase} {own other : Stats}
    (h : Standing c stats e pw own other) (hcodec : e'.transport.codec = e.transport.codec)
    (htask : e'.task = pw'.pending stats)
    (hreal : pw'.real e'.transport = pw.real e.transport ∨ ∃ o : Stats, e.got.length ≤ o.sent ∧
      pw'.real e'.transport = catchUp o (pw.real e.transport))
    (hsent : e'.sent = e.sent) (hgot : e'.got = e.got)
    (hknown : pw'.Known stats e'.transport own other) : Standing c stats e' pw' own other := by
  have hnonempty : ∀ f ∈ e'.sent, f.item ≠ [] := by
    rw [hsent]
    exact h.nonempty
  rcases hreal with hreal | ⟨o, hbounded, hreal⟩
  · refine ⟨hcodec.trans h.codec, htask, ?_, ?_, ?_, ?_, ?_, hnonempty, hknown⟩ <;>
      simp only [hreal, hsent, hgot]
    · exact h.frozen
    · exact h.stores
    · exact h.sentCnt
    · exact h.frames
    · exact h.received
  · refine ⟨hcodec.trans h.codec, htask, ?_, ?_, ?_, ?_, ?_, hnonempty, hknown⟩ <;>
      simp only [hreal, hsent, hgot, frozen_catchUp, maxBackupSize_catchUp, sentCnt_catchUp,
        frames_catchUp]
    · exact h.frozen
    · exact h.stores
    · exact h.sentCnt
    · exact h.frames
    · rw [receivedCnt_catchUp h.frozen]
      exact hbounded

/-- The endpoint of side `x` before and after a tick, and what has come and gone meanwhile. -/
structure Ticked (n n' : Net) (x : Side) (ps : List Piece) (t : FramedTransport) : Prop where
  transport : (n'.ends x).transport = { t with inner := Wire.idle }
  other : n'.ends x.other = n.ends x.other
  sent : (n'.ends x).sent = (n.ends x).sent
  got : (n'.ends x).got = (n.ends x).got
  taken : n.flight x.other = piecesOf ps ++ n'.flight x.other
  given : n'.flight x = n.link x.other ++ (t.inner.written ++ t.outgoing)

theorem Ticked.flight_of_emits {ps : List Piece} {t : FramedTransport} {writes : List Nat}
    {bs : Bytes} (h : Ticked n n' x ps t)
    (hemits : Emits ((n.ends x).transport.load ps writes) t bs) (hreads : t.inner.reads = []) :
    n'.flight x = n.flight x ++ bs ∧ n'.flight x.other = n.flight x.other ∧
      (n'.ends x).transport.incoming = (n.ends x).transport.incoming := by
  have hps : ps = [] := List.map_eq_nil_iff.mp (hemits.reads.symm.trans hreads)
  have htaken := h.taken
  subst hps
  refine ⟨?_, htaken.symm, ?_⟩
  · have hbytes : t.inner.written ++ t.outgoing = (n.ends x).transport.outgoing ++ bs := hemits.bytes
    rw [h.given, hbytes, Net.flight, List.append_assoc]
  · rw [h.transport]
    exact hemits.incoming

/-- A frame that is read is the first on the way. -/
theorem front_of_read (hc : Shared codec) (hcodec : (n.ends x).transport.codec = codec x)
    (hcarries : ∃ fs', Carries codec ((n.ends x).transport.incoming ++ n.flight x.other) fs')
    {ps : List Piece} {writes : List Nat} {f : Frame} {t t₁ : FramedTransport}
    (htick : Ticked n n' x ps t)
    (hread : ReadStep p ((n.ends x).transport.load ps writes) (.ok (some f)) t₁)
    (hreads : t₁.inner.reads = []) :
    ∃ g, Coded codec f g ∧
      (n.ends x).transport.incoming ++ piecesOf ps = g.toBytes ++ t₁.incoming ∧
      (piecesOf ps ≠ [] → Frame.NoneIn (n.ends x).transport.incoming) ∧
      Frame.available p ((n.ends x).transport.incoming ++ piecesOf ps) = .ok true := by
  obtain ⟨hr, -, -, -⟩ := reads_of_step hread hreads
  obtain ⟨fs', hcarries⟩ := hcarries
  rw [htick.taken, ← List.append_assoc] at hcarries
  generalize hres : (Except.ok (some f) : Except Fault (Option Frame)) = r at hr
  cases hr with
  | short => cases hres
  | panic => cases hres
  | frame g _ hfront hne hfirst =>
      refine ⟨g, ?_, hfront, hfirst, ?_⟩
      · rw [hfront, List.append_assoc] at hcarries
        obtain ⟨f', -, -, hcoded, -⟩ := hcarries.front
        rw [hcodec, hcoded.decode hc x] at hres
        cases hres
        exact hcoded
      · rw [hfront]
        exact Frame.available_of_read (Frame.read_toBytes_append p g _ hne)

/-- A read that blocks has kept what it took off the link, and there is no frame in it. -/
theorem short_of_read (hc : Shared codec) (hcodec : (n.ends x).transport.codec = codec x)
    (hcarries : ∃ fs', Carries codec ((n.ends x).transport.incoming ++ n.flight x.other) fs')
    {ps : List Piece} {writes : List Nat} {e : Fault} {t : FramedTransport}
    (htick : Ticked n n' x ps t)
    (hread : ReadStep p ((n.ends x).transport.load ps writes) (.error e) t)
    (hreads : t.inner.reads = []) :
    (n'.ends x).transport.incoming = (n.ends x).transport.incoming ++ piecesOf ps ∧
      (n'.ends x).transport.backup = (n.ends x).transport.backup ∧
      Frame.NoneIn ((n.ends x).transport.incoming ++ piecesOf ps) := by
  obtain ⟨hr, -, -, -⟩ := reads_of_step hread hreads
  obtain ⟨fs', hcarries⟩ := hcarries
  rw [htick.taken, ← List.append_assoc] at hcarries
  -- the way holds encoded frames, so that the read can only have run out of bytes
  generalize hres : (Except.error e : Except Fault (Option Frame)) = r at hr
  cases hr with
  | frame g _ hfront =>
      rw [hfront, List.append_assoc] at hcarries
      obtain ⟨f, -, -, hcoded, -⟩ := hcarries.front
      rw [hcodec, hcoded.decode hc x] at hres
      cases hres
  | panic e' _ herr => exact absurd herr (hcarries.read_ne_error e')
  | short _ hincoming hnone hbackup =>
      rw [htick.transport]
      exact ⟨hincoming, hbackup, hnone⟩

/-- A tick that only writes, and leaves the phase of one kind. -/
theorem Delivering.of_emits (h : Delivering codec stats n ph rep) {ps : List Piece}
    {t : FramedTransport} {writes : List Nat} {pw pw' : SyncPhase} (hpx : ph x = pw)
    (htick : Ticked n n' x ps t) (hemits : Emits ((n.ends x).transport.load ps writes) t [])
    (hreads : t.inner.reads = []) (htask : (n'.ends x).task = pw'.pending stats)
    (hreal : pw'.real (n'.ends x).transport = pw.real (n.ends x).transport ∨
      ∃ o : Stats, (n.ends x).got.length ≤ o.sent ∧
        pw'.real (n'.ends x).transport = catchUp o (pw.real (n.ends x).transport))
    (hknown : pw'.Known stats (n'.ends x).transport (rep x) (rep x.other))
    (hunsent : pw'.isUnsent = pw.isUnsent) (hearly : pw'.isEarly = pw.isEarly)
    (htaken : pw'.taken = pw.taken) (hexpected : pw.taken ≠ 0 → pw'.expected = pw.expected)
    (hdone : pw' ≠ .done → pw ≠ .done) : ∃ ph', Delivering codec stats n' ph' rep := by
  subst hpx
  obtain ⟨hself, hother, hincoming⟩ := htick.flight_of_emits hemits hreads
  have hcodec : (n'.ends x).transport.codec = (n.ends x).transport.codec := by
    rw [htick.transport]
    exact hemits.codec
  refine h.of_move pw' htick.other ?_ ?_ ?_
  · exact (h.standing x).settled hcodec htask hreal htick.sent htick.got hknown
  · rw [hself, List.append_nil]
    refine (h.way x).of_same htick.sent rfl rfl ?_ hunsent hearly rfl rfl (fun _ => rfl)
      (fun hne => hne)
    rcases hreal with hreal | ⟨o, -, hreal⟩
    · exact congrArg Backup.frames hreal
    · rw [hreal, frames_catchUp]
  · rw [hother]
    exact (h.way_other x).of_same rfl htick.got hincoming rfl rfl rfl hearly htaken hexpected hdone

/-- The stats are ready to be sent, and the buffers are empty. -/
theorem Delivering.tick_start (h : Delivering codec stats n ph rep) (hpx : ph x = .start)
    {ps : List Piece} {writes : List Nat} {f : Frame}
    (hser : stats.serializeToFrame (statsOf (n.ends x).transport.backup) = .ok f)
    (htick : Ticked n n' x ps { (n.ends x).transport.load ps writes with
      backup := Backup.new, incoming := [], outgoing := [] })
    (hreads : ((n.ends x).transport.load ps writes).inner.reads = [])
    (htask : (n'.ends x).task = (SyncPhase.write (n.ends x).transport.backup f).pending stats) :
    ∃ ph', Delivering codec stats n' ph' rep := by
  have hst := h.standing x
  have hout := h.way x
  rw [hpx] at hst hout
  obtain ⟨hincoming, hown⟩ := hst.known
  have houtgoing : (n.ends x).transport.outgoing = [] := by
    obtain ⟨pend, hcontent, -⟩ := hout.stream
    cases hcontent with
    | silent _ _ hbytes =>
        exact (List.append_eq_nil_iff.mp (List.append_eq_nil_iff.mp hbytes).2).2
    | stats _ _ _ _ h₁ => cases h₁
    | flowing _ h₁ => cases h₁
    | turning _ _ h₁ => cases h₁
  have hemits : Emits ((n.ends x).transport.load ps writes)
      { (n.ends x).transport.load ps writes with
        backup := Backup.new, incoming := [], outgoing := [] } [] :=
    ⟨rfl, hincoming.symm, rfl, by simp [load, houtgoing]⟩
  exact h.of_emits hpx htick hemits hreads htask (.inl rfl) ⟨hown, by rwa [hown]⟩ rfl rfl rfl
    (fun _ => rfl) (fun _ hne => by cases hne)

/-- The stats are queued. -/
theorem Delivering.tick_write (h : Delivering codec stats n ph rep) {backup : Backup}
    {f g : Frame} (hpx : ph x = .write backup f) {ps : List Piece} {writes : List Nat}
    {t : FramedTransport} {ph₁ : SyncPhase}
    (henc : ((n.ends x).transport.load ps writes).codec.encode (n.ends x).transport.draws f = .ok g)
    (hemits : Emits ((n.ends x).transport.load ps writes) t g.toBytes)
    (hph : ph₁ = .writing backup ∨ (ph₁ = .stats backup ∧ t.outgoing = [])) (htick : Ticked n n' x ps t)
    (hreads : t.inner.reads = []) (htask : (n'.ends x).task = ph₁.pending stats) :
    ∃ ph', Delivering codec stats n' ph' rep := by
  have hst := h.standing x
  have hout := h.way x
  have hin := h.way_other x
  rw [hpx] at hst hout hin
  obtain ⟨hown, hser⟩ := hst.known
  obtain ⟨hself, hother, hincoming⟩ := htick.flight_of_emits hemits hreads
  have hcodec : (n'.ends x).transport.codec = (n.ends x).transport.codec := by
    rw [htick.transport]
    exact hemits.codec
  have hcoded : Coded codec f g := ⟨x, _, by rw [← hst.codec]; exact henc⟩
  have hreal : ph₁.real (n'.ends x).transport = backup := by
    rcases hph with rfl | ⟨rfl, -⟩ <;> rfl
  have hkind : ph₁.isUnsent = false ∧ ph₁.isEarly = true ∧ ph₁.taken = 0 := by
    rcases hph with rfl | ⟨rfl, -⟩ <;> exact ⟨rfl, rfl, rfl⟩
  refine h.of_move ph₁ htick.other ?_ ?_ ?_
  · refine hst.settled hcodec htask (.inl hreal) htick.sent htick.got ?_
    rcases hph with rfl | ⟨rfl, -⟩ <;> exact hown
  · rw [hself]
    exact hout.queueStats rfl hser hcoded htick.sent (congrArg Backup.frames hreal) hkind.1 hkind.2.1
  · rw [hother]
    exact hin.of_same rfl htick.got hincoming rfl rfl rfl hkind.2.1 hkind.2.2
      (fun hne => absurd rfl hne) (fun _ hdone => by cases hdone)

theorem known_of_isReading {ph : SyncPhase} {t t' : FramedTransport} {own other : Stats}
    (hphase : ph.isReading = true) (h : ph.Known stats t own other) :
    ph.Known stats t' own other := by
  cases ph with
  | stats backup => exact h
  | receive own' other' backup left => exact h
  | start => cases hphase
  | write backup f => cases hphase
  | writing backup => cases hphase
  | flush own' other' backup => cases hphase
  | done => cases hphase

/-- Some bytes come in, and no whole frame with them. -/
theorem Delivering.tick_short (hc : Shared codec) (h : Delivering codec stats n ph rep)
    {ps : List Piece} {writes : List Nat} {e : Fault} {t : FramedTransport}
    (hread : ReadStep p ((n.ends x).transport.load ps writes) (.error e) t)
    (hphase : (ph x).isReading = true) (htick : Ticked n n' x ps t) (hreads : t.inner.reads = [])
    (htask : (n'.ends x).task = (ph x).pending stats) :
    ∃ ph', Delivering codec stats n' ph' rep := by
  have hst := h.standing x
  obtain ⟨-, hcodec, houtgoing, hwritten⟩ := reads_of_step hread hreads
  obtain ⟨hincoming, hbackup, hnone⟩ :=
    short_of_read hc hst.codec (h.way_other x).carries htick hread hreads
  have hreal : (ph x).real (n'.ends x).transport = (ph x).real (n.ends x).transport := by
    cases hpx : ph x <;> first | rfl | exact hbackup
  refine h.of_move (ph x) htick.other ?_ ?_ ?_
  · refine hst.settled ?_ htask (.inl hreal) htick.sent htick.got ?_
    · rw [htick.transport]
      exact hcodec
    · exact known_of_isReading hphase hst.known
  · have hself : n'.flight x = n.flight x := by
      rw [htick.given, hwritten, houtgoing, List.nil_append, Net.flight]
    rw [hself]
    exact (h.way x).of_same htick.sent rfl rfl (congrArg Backup.frames hreal) rfl rfl rfl rfl
      (fun _ => rfl) (fun hne => hne)
  · exact (h.way_other x).short hc.keepsNonempty (h.standing x.other).nonempty hnone htick.got
      hincoming htick.taken

/-- A frame that comes in is one that was encoded, and is decoded again. -/
theorem Delivering.reads_frame (hc : Shared codec) (h : Delivering codec stats n ph rep)
    {ps : List Piece} {writes : List Nat} {f : Frame} {t t₁ : FramedTransport}
    (hread : ReadStep p ((n.ends x).transport.load ps writes) (.ok (some f)) t₁)
    (hreads : t₁.inner.reads = []) (htick : Ticked n n' x ps t) :
    ∃ g, Coded codec f g ∧
      (n.ends x).transport.incoming ++ piecesOf ps = g.toBytes ++ t₁.incoming ∧
      (piecesOf ps ≠ [] → Frame.NoneIn (n.ends x).transport.incoming) ∧
      Frame.available p ((n.ends x).transport.incoming ++ piecesOf ps) = .ok true :=
  front_of_read hc (h.standing x).codec (h.way_other x).carries htick hread hreads

/-- The stats of the other side are read, and what it has not received is sent again. -/
theorem Delivering.tick_stats (hc : Shared codec) (h : Delivering codec stats n ph rep)
    {backup : Backup} (hpx : ph x = .stats backup) {ps : List Piece} {writes : List Nat}
    {f : Frame} {other : Stats} {gs : List Frame} {t t₁ : FramedTransport}
    (hread : ReadStep p ((n.ends x).transport.load ps writes) (.ok (some f)) t₁)
    (hde : stats.deserializeFromSlice f.item = .ok other)
    (hreplays : Replays t₁ (backup.truncateFront (resendCnt (statsOf backup) other)).frames gs t)
    (htick : Ticked n n' x ps t) (hreads : t.inner.reads = [])
    (htask : (n'.ends x).task = (SyncPhase.flush (statsOf backup) other
      (backup.truncateFront (resendCnt (statsOf backup) other))).pending stats) :
    ∃ ph', Delivering codec stats n' ph' rep := by
  have hemits := hreplays.emits
  have hreads₁ : t₁.inner.reads = [] := hemits.reads.symm.trans hreads
  obtain ⟨g, hcoded, hfront, -, -⟩ := h.reads_frame hc hread hreads₁ htick
  obtain ⟨-, hcodec, houtgoing, hwritten⟩ := reads_of_step hread hreads₁
  have hst := h.standing x
  have hout := h.way x
  have hin := h.way_other x
  rw [hpx] at hst hout hin
  have hown : rep x = statsOf backup := hst.known
  have hincoming : (n'.ends x).transport.incoming = t₁.incoming := by
    rw [htick.transport]
    exact hemits.incoming
  rw [← hincoming] at hfront
  have hearly : (SyncPhase.flush (statsOf backup) other
    (backup.truncateFront (resendCnt (statsOf backup) other))).isEarly = false := rfl
  obtain ⟨⟨f', hser, hcoded'⟩, hin'⟩ :=
    hin.readStats rfl htick.got hfront htick.taken hearly rfl
  -- what was read are the stats that the other side has sent
  have hother : other = rep x.other := by
    have hsame : f' = f := Except.ok.inj ((hcoded'.decode hc x).symm.trans (hcoded.decode hc x))
    rw [hsame] at hser
    exact Except.ok.inj (hde.symm.trans (Serde.deserialize_of_serialize hser).1)
  have hframes : (backup.truncateFront (resendCnt (statsOf backup) other)).frames =
      (n.ends x).sent.drop (n.ends x.other).got.length := by
    rw [hother]
    exact frames_truncateFront hst.frozen hst.sentCnt hout.kept (hout.agreed rfl) (hout.counted rfl)
  have hgs := forall₂_coded_of_replays (x := x) hreplays (hcodec.trans hst.codec)
  refine h.of_move (.flush (statsOf backup) other
    (backup.truncateFront (resendCnt (statsOf backup) other))) htick.other ?_ ?_ ?_
  · refine ⟨?_, htask, ?_, ?_, ?_, ?_, ?_, ?_, hown.symm, hother⟩
    · rw [htick.transport]
      exact (hemits.codec.trans hcodec).trans hst.codec
    · exact (Backup.frozen_truncateFront _ _).trans hst.frozen
    · show 0 < (backup.truncateFront _).maxBackupSize
      rw [Backup.maxBackupSize_truncateFront]
      exact hst.stores
    · show (backup.truncateFront _).sentCnt = _
      rw [Backup.sentCnt_truncateFront, htick.sent]
      exact hst.sentCnt
    · show (backup.truncateFront _).frames <:+ _
      rw [hframes, htick.sent]
      exact List.drop_suffix _ _
    · show _ ≤ (backup.truncateFront _).receivedCnt
      rw [Backup.receivedCnt_truncateFront, htick.got]
      exact hst.received
    · rw [htick.sent]
      exact hst.nonempty
  · have hself : n'.flight x = n.flight x ++ Frame.encodings gs := by
      rw [htick.given, hemits.bytes, hwritten, houtgoing, List.nil_append, Net.flight,
        List.append_assoc]
    rw [hself]
    rw [hframes] at hgs
    exact hout.replay rfl rfl htick.sent hframes hgs rfl rfl
  · exact hin'

/-- A frame is taken from the front of the incoming buffer and put back at its end. -/
theorem Delivering.tick_receive (hc : Shared codec) (h : Delivering codec stats n ph rep)
    {own other : Stats} {backup : Backup} {left : Nat} (hpx : ph x = .receive own other backup left)
    {ps : List Piece} {writes : List Nat} {f g : Frame} {t : FramedTransport} {last : Backup}
    {ph₁ : SyncPhase} (hround : RoundComplete p stats n x ps)
    (hread : ReadStep p ((n.ends x).transport.load ps writes) (.ok (some f)) t)
    (henc : t.codec.encode t.draws f = .ok g)
    (htick : Ticked n n' x ps { t with
      draws := t.draws + 1, incoming := t.incoming ++ g.toBytes, backup := last })
    (hreads : t.inner.reads = []) (htask : (n'.ends x).task = ph₁.pending stats)
    (hph : (∃ left', left = left' + 1 ∧ ph₁ = .receive own other backup left') ∨
      left = 0 ∧ ph₁ = .done ∧ last = catchUp other backup) :
    ∃ ph', Delivering codec stats n' ph' rep := by
  obtain ⟨g₀, hcoded, hfront, hfirst, havail⟩ := h.reads_frame hc hread hreads htick
  obtain ⟨-, hcodec, houtgoing, hwritten⟩ := reads_of_step hread hreads
  have hst := h.standing x
  have hout := h.way x
  have hin := h.way_other x
  rw [hpx] at hst hout hin
  obtain ⟨rfl, rfl, hleft⟩ := hst.known
  have htaken : (SyncPhase.receive (rep x) (rep x.other) backup left).taken =
    expectedCnt (rep x) (rep x.other) - (left + 1) := rfl
  have hexpected : (SyncPhase.receive (rep x) (rep x.other) backup left).expected =
    expectedCnt (rep x) (rep x.other) := rfl
  have hturn : (SyncPhase.receive (rep x) (rep x.other) backup left).taken = 0 → ∃ gs,
      (n.ends x).transport.incoming ++ piecesOf ps = Frame.encodings gs ∧
        (gs.map (codec x).decode).rotate
          (SyncPhase.receive (rep x) (rep x.other) backup left).expected =
          gs.map (codec x).decode := by
    intro hzero
    have hfull : left + 1 = expectedCnt (rep x) (rep x.other) := by
      rw [htaken] at hzero
      omega
    have hgs := hround _ _ backup left hst.task hfull havail
    rwa [hst.codec] at hgs
  obtain ⟨f', hcoded', htake⟩ := hin.take hc
    (h.standing x.other).nonempty x rfl nofun hfront hfirst hturn htick.taken
  have hsame : f' = f := Except.ok.inj ((hcoded'.decode hc x).symm.trans (hcoded.decode hc x))
  have hcodec' : t.codec = codec x := hcodec.trans hst.codec
  have hcoded_g : Coded codec f' g := ⟨x, _, by rw [hsame, ← hcodec']; exact henc⟩
  have hincoming : (n'.ends x).transport.incoming = t.incoming ++ g.toBytes := by
    rw [htick.transport]
  -- the phases: either there are more frames to take, or this was the last one
  have hkind : ph₁.isUnsent = false ∧ ph₁.isEarly = false ∧
      (ph₁.taken = (SyncPhase.receive (rep x) (rep x.other) backup left).taken + 1 ∧
          ph₁.expected = (SyncPhase.receive (rep x) (rep x.other) backup left).expected ∨
        ph₁.taken = 0 ∧ (SyncPhase.receive (rep x) (rep x.other) backup left).taken + 1 =
          (SyncPhase.receive (rep x) (rep x.other) backup left).expected) := by
    rw [htaken, hexpected]
    rcases hph with ⟨left', rfl, rfl⟩ | ⟨rfl, rfl, -⟩
    · refine ⟨rfl, rfl, .inl ⟨?_, rfl⟩⟩
      show expectedCnt (rep x) (rep x.other) - (left' + 1) = _
      omega
    · refine ⟨rfl, rfl, .inr ⟨rfl, ?_⟩⟩
      omega
  have hreal : ph₁.real (n'.ends x).transport = backup ∨ ∃ o : Stats,
      (n.ends x).got.length ≤ o.sent ∧ ph₁.real (n'.ends x).transport = catchUp o backup := by
    rcases hph with ⟨left', -, rfl⟩ | ⟨-, rfl, rfl⟩
    · exact .inl rfl
    · refine .inr ⟨rep x.other, ?_, by rw [htick.transport]; rfl⟩
      exact hin.bounded nofun
  refine h.of_move ph₁ htick.other ?_ ?_ ?_
  · refine hst.settled ?_ htask hreal htick.sent htick.got ?_
    · rw [htick.transport]
      exact hcodec
    · rcases hph with ⟨left', rfl, rfl⟩ | ⟨-, rfl, -⟩
      · exact ⟨rfl, rfl, Nat.lt_of_succ_lt hleft⟩
      · trivial
  · have hself : n'.flight x = n.flight x := by
      rw [htick.given]
      show n.link x.other ++ (t.inner.written ++ t.outgoing) = _
      rw [hwritten, houtgoing, List.nil_append, Net.flight]
    rw [hself]
    refine hout.of_same htick.sent rfl rfl ?_ hkind.1 hkind.2.1 rfl rfl (fun _ => rfl)
      (fun hne => hne)
    rcases hreal with hreal | ⟨o, -, hreal⟩
    · exact congrArg Backup.frames hreal
    · rw [hreal, frames_catchUp]
      rfl
  · exact htake g _ ph₁ hcoded_g htick.got hincoming hkind.2.1 hkind.2.2

theorem Delivering.tick (hc : Shared codec) (h : Delivering codec stats n ph rep)
    {ps : List Piece} {writes : List Nat} (hround : RoundComplete p stats n x ps)
    (hstep : n.step p stats (.tick x ps writes) = some n') :
    ∃ ph', Delivering codec stats n' ph' rep := by
  obtain ⟨ph₁, t, hs, hreads, htrans, htask, hother, hsent, hgot, hin_f, hout_f⟩ :=
    Net.step_tick hstep (h.standing x).task
  have htick : Ticked n n' x ps t := ⟨htrans, hother, hsent, hgot, hin_f, hout_f⟩
  have hst := h.standing x
  generalize hpx : ph x = pw at hs hst
  cases hs with
  | start hser => exact h.tick_start hpx hser htick hreads htask
  | wait hready => cases hready
  | write henc hemits hph => exact h.tick_write hpx henc hemits hph htick hreads htask
  | dropped henc he =>
      rw [show ((n.ends x).transport.load ps writes).codec = codec x from hst.codec] at henc
      rw [hc.neverBlocks x _ _ _ henc] at he
      cases he
  | writing hemits hph =>
      rcases hph with rfl | ⟨rfl, -⟩ <;>
        exact h.of_emits hpx htick hemits hreads htask (.inl rfl) hst.known rfl rfl rfl
          (fun _ => rfl) (fun _ => nofun)
  | short hreading hread he =>
      subst hpx
      exact h.tick_short hc hread hreading htick hreads htask
  | stats hread hde hreplays => exact h.tick_stats hc hpx hread hde hreplays htick hreads htask
  | flush hemits hph =>
      obtain ⟨rfl, rfl⟩ := hst.known
      rcases hph with rfl | ⟨-, left, hexp, rfl⟩
      · exact h.of_emits hpx htick hemits hreads htask (.inl rfl) ⟨rfl, rfl⟩ rfl rfl rfl
          (fun _ => rfl) (fun _ => nofun)
      · have hleft : left < expectedCnt (rep x) (rep x.other) := by
          rw [hexp]
          exact Nat.lt_succ_self left
        have htaken : expectedCnt (rep x) (rep x.other) - (left + 1) = 0 := by
          rw [hexp, Nat.sub_self]
        exact h.of_emits hpx htick hemits hreads htask (.inl rfl) ⟨rfl, rfl, hleft⟩ rfl rfl htaken
          (fun hne => absurd rfl hne) (fun _ => nofun)
  | flushed hemits _ hexp =>
      obtain ⟨rfl, rfl⟩ := hst.known
      have hin := h.way_other x
      rw [hpx] at hin
      refine h.of_emits hpx htick ⟨hemits.codec, hemits.incoming, hemits.reads, hemits.bytes⟩ hreads
        htask (.inr ⟨rep x.other, hin.bounded nofun, ?_⟩) trivial rfl rfl rfl (fun _ => rfl)
        (fun _ => nofun)
      rw [htick.transport]
      rfl
  | receive hread henc =>
      exact h.tick_receive hc hpx hround hread henc htick hreads htask (.inl ⟨_, rfl, rfl⟩)
  | received hread henc =>
      exact h.tick_receive hc hpx hround hread henc htick hreads htask (.inr ⟨rfl, rfl, rfl⟩)

/-- One step keeps the invariant. -/
theorem Delivering.step (hc : Shared codec) (h : Delivering codec stats n ph rep) {e : Event}
    (hmeets : Meets p stats n e) (hstep : n.step p stats e = some n') :
    ∃ ph' rep', Delivering codec stats n' ph' rep' := by
  cases e with
  | write x f writes =>
      obtain ⟨ph', h'⟩ := h.write hmeets.1 hmeets.2 hstep
      exact ⟨ph', rep, h'⟩
  | flush x writes =>
      obtain ⟨ph', h'⟩ := h.flush hstep
      exact ⟨ph', rep, h'⟩
  | read x ps =>
      obtain ⟨ph', h'⟩ := h.read hc hstep
      exact ⟨ph', rep, h'⟩
  | lose => exact h.lose hmeets hstep
  | tick x ps writes =>
      obtain ⟨ph', h'⟩ := h.tick hc hmeets hstep
      exact ⟨ph', rep, h'⟩

theorem delivering_fresh (codec : Side → Codec) (stats : Serde Stats) :
    Delivering codec stats (Net.fresh codec) (fun _ => .done) (fun _ => ⟨0, 0, 0⟩) where
  standing := fun _ =>
    .done rfl rfl rfl (show 0 < Backup.new.maxBackupSize by decide) rfl List.suffix_rfl (Nat.le_refl 0)
      nofun
  way := fun _ => ⟨⟨[], .flowing [] rfl rfl rfl .nil, rfl⟩, List.suffix_rfl, nofun, nofun,
    fun hne => absurd rfl hne⟩

/-- The invariant says what has been delivered. -/
theorem Delivering.delivers (h : Delivering codec stats n ph rep) (x : Side) : Delivers n x := by
  have hway := h.way x
  refine ⟨hway.got_begins, fun hself hother hempty => ?_⟩
  have hdone (y : Side) (htask : (n.ends y).task = none) : ph y = .done :=
    eq_done_of_pending ((h.standing y).task.symm.trans htask)
  rw [hdone x hself, hdone x.other hother] at hway
  obtain ⟨pend, hcontent, hpend⟩ := hway.stream
  rw [if_neg (by simp [isEarly])] at hpend
  cases hcontent with
  | silent h₁ => cases h₁
  | stats _ _ _ _ _ h₂ => cases h₂
  | turning _ _ _ _ h₃ => exact absurd rfl h₃
  | flowing pend _ _ _ hcarries =>
      have hnil : n.channel x = [] := hempty
      rw [← Net.channel, hnil] at hcarries
      rw [hpend, hcarries.eq_nil, List.append_nil]

end Net

/-- In every run whose steps meet the condition, what one side has read is a beginning of what the
other has written, and all of it once everything is flushed and read. -/
theorem delivers_of_run {codec : Side → Codec} (hc : Shared codec) (p : Profile)
    (stats : Serde Stats) (es : List Event) (n : Net)
    (hmeets : Machine.Meeting (Net.step p stats) (Meets p stats) es (Net.fresh codec))
    (hrun : Machine.run (Net.step p stats) es (Net.fresh codec) = some n) (x : Side) :
    Delivers n x := by
  have hinv : ∃ ph rep, Delivering codec stats n ph rep := by
    refine Machine.invariant (I := fun m => ∃ ph rep, Delivering codec stats m ph rep) ?_
      ⟨_, _, delivering_fresh codec stats⟩ hmeets hrun
    rintro m e m' ⟨ph, rep, h⟩ hm hstep
    exact h.step hc hm hstep
  obtain ⟨ph, rep, h⟩ := hinv
  exact h.delivers x

/-! ## A run that delivers, and one that does not -/

namespace Overtaking

/-- The stats in three bytes, as long as they fit. -/
def serStats (s : Stats) : Except String Bytes :=
  if s.sent < 256 ∧ s.received < 256 ∧ s.available < 256 then
    .ok [UInt8.ofNat s.sent, UInt8.ofNat s.received, UInt8.ofNat s.available]
  else .error "too many frames"

def deStats : Bytes → Except String Stats
  | [sent, received, available] => .ok ⟨sent.toNat, received.toNat, available.toNat⟩
  | _ => .error "not three bytes"

theorem deStats_serStats {s : Stats} {bs : Bytes} (h : serStats s = .ok bs) :
    deStats bs = .ok s := by
  unfold serStats at h
  split at h
  · next hsmall =>
      cases h
      cases s
      simp_all [deStats]
  · cases h

def stats : Serde Stats where
  ser := serStats
  de := deStats
  ser_ne_nil := by
    intro s bs h
    unfold serStats at h
    split at h <;> cases h
    exact List.cons_ne_nil _ _
  de_ser := fun _ _ => deStats_serStats

def codec (_ : Side) : Codec := PlainCodec

theorem shared : Shared codec where
  undoes := fun _ _ => PlainCodec.undoes
  keepsNonempty := fun _ => PlainCodec.keepsNonempty
  neverBlocks := nofun

theorem first_fits : ([7] : Bytes).length + 8 < 2 ^ 64 := by decide

def first : Frame := ⟨[7], first_fits⟩

def second : Frame := ⟨[9], by decide⟩

/-- The stats of the side that has sent one frame, and of the other. -/
def statsA : Piece := ⟨⟨[0, 0, 0, 0, 0, 0, 0, 3, 1, 0, 1], by decide⟩, by decide⟩

def statsB : Piece := ⟨⟨[0, 0, 0, 0, 0, 0, 0, 3, 0, 0, 0], by decide⟩, by decide⟩

def firstPiece : Piece := ⟨⟨[0, 0, 0, 0, 0, 0, 0, 1, 7], by decide⟩, by decide⟩

def bothPieces : Piece :=
  ⟨⟨[0, 0, 0, 0, 0, 0, 0, 1, 7, 0, 0, 0, 0, 0, 0, 0, 1, 9], by decide⟩, by decide⟩

/-- A frame is written and lost. Side `a` sends it again in the synchronization, and writes another
one right after it. -/
def opening : List Event :=
  [.write .a first [], .lose, .tick .a [] [], .tick .b [] [], .tick .a [] [11], .tick .b [] [11],
    .tick .a [statsB] [9], .tick .a [] [9]]

/-- Side `b` finds both frames in its buffer when it expects one of them. -/
def events : List Event :=
  opening ++ [.write .a second [9], .tick .b [statsA] [], .tick .b [] [], .tick .b [bothPieces] [],
    .read .b []]

/-- Side `b` is done with its synchronization before the second frame is written. -/
def quietEvents : List Event :=
  opening ++ [.tick .b [statsA] [], .tick .b [] [], .tick .b [firstPiece] [], .read .b []]

/-- What the runs are promised: only frames with something in them are written, and none that the
other side has not read is evicted. -/
def Promised (n : Net) : Event → Prop
  | .write x frame _ => frame.item ≠ [] ∧ KeepsUnread n x frame
  | _ => True

/-- The second frame is read first. -/
theorem not_delivers_events :
    Machine.Meeting (Net.step .dev stats) Promised events (Net.fresh codec) ∧
      ∃ n, Machine.run (Net.step .dev stats) events (Net.fresh codec) = some n ∧
        ¬ Delivers n .a := by
  constructor
  · refine .cons ⟨by decide, [], rfl⟩ rfl <| .cons trivial rfl <| .cons trivial rfl <|
      .cons trivial rfl <| .cons trivial rfl <| .cons trivial rfl <| .cons trivial rfl <|
      .cons trivial rfl <| .cons ⟨by decide, [], rfl⟩ rfl <| .cons trivial rfl <|
      .cons trivial rfl <| .cons trivial rfl <| .cons trivial rfl trivial
  · refine ⟨_, rfl, ?_⟩
    intro h
    have hprefix : [second] <+: [first, second] := h.1
    exact absurd hprefix (by decide)

/-- Whatever a synchronization expects, one frame alone stays in its place. -/
theorem roundComplete_of_single {p : Profile} {stats : Serde Stats} {n : Net} {x : Side}
    {ps : List Piece} (g : Frame)
    (h : (n.ends x).transport.incoming ++ piecesOf ps = g.toBytes) : RoundComplete p stats n x ps := by
  intro own other backup left _ _ _
  exact ⟨[g], by simpa using h, List.rotate_singleton _ _⟩

theorem roundComplete_of_nil {p : Profile} {stats : Serde Stats} {n : Net} {x : Side}
    {ps : List Piece} (h : (n.ends x).transport.incoming ++ piecesOf ps = []) :
    RoundComplete p stats n x ps := by
  intro own other backup left _ _ havail
  rw [h] at havail
  cases havail

/-- The frame that was lost is delivered by the synchronization. -/
theorem delivers_quietEvents :
    ∃ n, Machine.run (Net.step .dev stats) quietEvents (Net.fresh codec) = some n ∧
      (n.ends .b).got = [first] ∧ Delivers n .a := by
  refine ⟨_, rfl, rfl, ?_⟩
  refine delivers_of_run shared .dev stats quietEvents _ ?_ rfl .a
  refine .cons ⟨by decide, [], rfl⟩ rfl <| .cons (fun x => .inl (by cases x <;> rfl)) rfl <|
    .cons (roundComplete_of_nil rfl) rfl <| .cons (roundComplete_of_nil rfl) rfl <|
    .cons (roundComplete_of_nil rfl) rfl <| .cons (roundComplete_of_nil rfl) rfl <|
    .cons (roundComplete_of_single ⟨[0, 0, 0], by decide⟩ rfl) rfl <|
    .cons (roundComplete_of_nil rfl) rfl <|
    .cons (roundComplete_of_single ⟨[1, 0, 1], by decide⟩ rfl) rfl <|
    .cons (roundComplete_of_nil rfl) rfl <| .cons (roundComplete_of_single first rfl) rfl <|
    .cons trivial rfl trivial

end Overtaking

end Distant
