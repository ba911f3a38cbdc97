import Distant.Net.Requeue

/-!
# Synchronizing over a slow link

A slow link takes and gives parts of what it is asked for, and says now and then that it would
block. While the stats are written, and while a synchronization waits for frames, this is waited
out. But the frames that the other side has not received are sent by `try_write_frame`, and there it
is an error: `slow_of_run` says that a synchronization over a slow link fails exactly if the link
does not take these frames at once.
-/

namespace Distant

open FramedTransport

/-! ## Writes that are taken in part -/

/-- What is left of the writes that a link will take after a flush of that many bytes, unless it
would have blocked before the last of them. -/
def afterFlush : List Nat → Nat → Option (List Nat)
  | writes, 0 => some writes
  | [], _ + 1 => none
  | n :: writes, len + 1 => afterFlush writes (len + 1 - n)

/-- The link takes the encoded frames one after the other, and each of them whole. -/
def takesEach (c : Codec) : Nat → List Frame → List Nat → Bool
  | _, [], _ => true
  | draws, frame :: frames, writes =>
    match c.encode draws frame with
    | .error _ => false
    | .ok encoded =>
      match afterFlush writes encoded.toBytes.length with
      | none => false
      | some writes => takesEach c (draws + 1) frames writes

/-- The transport is ready, and its next writes take these numbers of bytes, each at least one. -/
structure Slow (t : FramedTransport) (writes : List Nat) : Prop where
  ready : t.inner.ready = some (.ok ())
  script : t.inner.writes = writes.map .ok
  positive : ∀ n ∈ writes, 0 < n

section Writes

variable {t : FramedTransport} {writes : List Nat}

theorem slow_load (t : FramedTransport) (ps : List Piece) (h : ∀ n ∈ writes, 0 < n) :
    Slow (t.load ps writes) writes := ⟨rfl, rfl, h⟩

theorem Slow.writeable (h : Slow t writes) : Io.writeable t = some (.ok ()) := by
  rw [Io.writeable, h.ready]
  rfl

/-- How a flush ends over a slow link. -/
def FlushEnds (t : FramedTransport) (writes : List Nat)
    (run : Except Fault Nat × FramedTransport) : Prop :=
  match afterFlush writes t.outgoing.length with
  | some left => ∃ n wire, run = (.ok n, { t with inner := wire, outgoing := [] }) ∧
      Slow { t with inner := wire, outgoing := [] } left
  | none => ∃ t', run = (.error (.io (.ofKind .wouldBlock)), t')

theorem flushEnds_of_empty (h : Slow t writes) (hout : t.outgoing = []) (fuel n : Nat) :
    FlushEnds t writes (flushLoop (fuel + 1) t n) := by
  have hsame : { t with outgoing := [] } = t := by rw [← hout]
  have hafter : afterFlush writes t.outgoing.length = some writes := by
    rw [hout]
    cases writes <;> rfl
  rw [FlushEnds, hafter, flushLoop, hout]
  exact ⟨n, t.inner, by rw [hsame]; rfl, by rw [hsame]; exact h⟩

theorem flushLoop_ends (h : Slow t writes) {fuel : Nat} (hfuel : writes.length < fuel) (n : Nat) :
    FlushEnds t writes (flushLoop fuel t n) := by
  obtain ⟨fuel, rfl⟩ := Nat.exists_eq_add_one_of_ne_zero (show fuel ≠ 0 by omega)
  induction writes generalizing t fuel n with
  | nil =>
      cases hout : t.outgoing with
      | nil => exact flushEnds_of_empty h hout fuel n
      | cons b bs =>
          have hscript : t.inner.writes = [] := h.script
          simp only [FlushEnds, hout, List.length_cons, afterFlush, flushLoop, List.isEmpty_cons,
            Bool.false_eq_true, if_false, Wire.tryWrite, hscript]
          exact ⟨_, rfl⟩
  | cons w writes ih =>
      cases hout : t.outgoing with
      | nil => exact flushEnds_of_empty h hout fuel n
      | cons b bs =>
          have hscript : t.inner.writes = .ok w :: writes.map .ok := h.script
          have hw : 0 < w := h.positive w List.mem_cons_self
          -- the part that is taken is not empty
          obtain ⟨k, hk⟩ := Nat.exists_eq_add_one_of_ne_zero
            (show min w (bs.length + 1) ≠ 0 by omega)
          let next : FramedTransport :=
            { t with
              inner := { t.inner with
                writes := writes.map .ok, written := t.inner.written ++ (b :: bs).take w }
              outgoing := (b :: bs).drop (k + 1) }
          have hnext : Slow next writes :=
            ⟨h.ready, rfl, fun m hm => h.positive m (List.mem_cons_of_mem _ hm)⟩
          have hloop : flushLoop (fuel + 1) t n = flushLoop fuel next (n + (k + 1)) := by
            simp only [flushLoop, hout, List.isEmpty_cons, Bool.false_eq_true, if_false,
              Wire.tryWrite, hscript, List.length_cons, hk, next]
          have hlen : next.outgoing.length = bs.length + 1 - w := by
            simp only [next, List.length_drop, List.length_cons, ← hk]
            omega
          rw [List.length_cons] at hfuel
          obtain ⟨fuel, rfl⟩ := Nat.exists_eq_add_one_of_ne_zero (show fuel ≠ 0 by omega)
          have hends := ih hnext (n + (k + 1)) fuel (by omega)
          rw [← hloop] at hends
          simpa only [FlushEnds, hlen, hout, List.length_cons, afterFlush] using hends

theorem tryFlush_ends (h : Slow t writes) : FlushEnds t writes t.tryFlush := by
  refine flushLoop_ends h ?_ 0
  rw [h.script, List.length_map]
  exact Nat.lt_succ_self _

/-- How a frame is written over a slow link, when nothing else is to be flushed. -/
theorem tryWriteFrame_ends (h : Slow t writes) (hout : t.outgoing = []) {f g : Frame}
    (henc : t.codec.encode t.draws f = .ok g) :
    (∃ left t', afterFlush writes g.toBytes.length = some left ∧
      t.tryWriteFrame f = (.ok (), t') ∧ Slow t' left ∧ t'.outgoing = [] ∧ t'.codec = t.codec ∧
      t'.draws = t.draws + 1) ∨
    (∃ t', afterFlush writes g.toBytes.length = none ∧
      t.tryWriteFrame f = (.error (.io (.ofKind .wouldBlock)), t')) := by
  let queued : FramedTransport :=
    { t with
      draws := t.draws + 1
      outgoing := g.write t.outgoing
      backup := trackSent t.backup f }
  have hqueued : Slow queued writes := ⟨h.ready, h.script, h.positive⟩
  have hbytes : queued.outgoing = g.toBytes := by
    show g.write t.outgoing = _
    rw [hout, g.write_eq, List.nil_append]
  have hends := tryFlush_ends hqueued
  rw [FlushEnds, hbytes] at hends
  cases hafter : afterFlush writes g.toBytes.length with
  | some left =>
      rw [hafter] at hends
      obtain ⟨n, wire, hrun, hslow⟩ := hends
      refine .inl ⟨left, _, rfl, ?_, hslow, rfl, rfl, rfl⟩
      simp only [queued] at hrun
      simp only [tryWriteFrame, henc, hrun]
      rfl
  | none =>
      rw [hafter] at hends
      obtain ⟨t', hrun⟩ := hends
      refine .inr ⟨t', rfl, ?_⟩
      simp only [queued] at hrun
      simp only [tryWriteFrame, henc, hrun]

/-- The replay loop sends every frame if the link takes each of them, and otherwise ends the
synchronization with an error. -/
theorem replay_slow (h : Slow t writes) (hout : t.outgoing = []) (frames : List Frame)
    (k : Unit → TransportM Unit) (backup : Backup) (other : Stats) :
    (takesEach t.codec t.draws frames writes = true ∧ ∃ gs t', Replays t frames gs t' ∧
      (attempt (replay frames >>= k) >>= afterReplay backup other >>= restore).settle t =
        (attempt (k ()) >>= afterReplay backup other >>= restore).settle t') ∨
    (takesEach t.codec t.draws frames writes = false ∧
      ∃ e, ((attempt (replay frames >>= k) >>= afterReplay backup other >>= restore).settle t).1 =
        .throw e) := by
  induction frames generalizing t writes with
  | nil => exact .inl ⟨rfl, [], t, .nil t, rfl⟩
  | cons f fs ih =>
      rw [replay_cons]
      cases henc : t.codec.encode t.draws f with
      | error e =>
          rw [tryWriteFrame_of_error henc]
          exact .inr ⟨by rw [takesEach, henc], throws_of_replay e _ _ _ _⟩
      | ok g =>
          have hemits := (tryWriteFrame_emits henc).1
          rcases tryWriteFrame_ends h hout henc with
            ⟨left, t', hafter, hrun, hslow, hflushed, hcodec, hdraws⟩ | ⟨t', hafter, hrun⟩
          · rw [hrun] at hemits ⊢
            have htakes : takesEach t.codec t.draws (f :: fs) writes =
                takesEach t'.codec t'.draws fs left := by
              rw [takesEach, henc, hcodec, hdraws]
              simp only [hafter]
            rw [htakes]
            rcases ih hslow hflushed with ⟨heach, gs, t'', hreplays, heq⟩ | ⟨hnot, hthrow⟩
            · exact .inl ⟨heach, g :: gs, t'', .cons henc hemits hflushed hreplays, heq⟩
            · exact .inr ⟨hnot, hthrow⟩
          · rw [hrun]
            refine .inr ⟨?_, throws_of_replay _ _ _ _ _⟩
            rw [takesEach, henc]
            simp only [hafter]

end Writes

/-! ## Reads that come in part -/

section Reads

variable {p : Profile} {t : FramedTransport} {writes : List Nat} {ps : List Piece} {more : Bytes}
  {gs : List Frame}

/-- Frames that come in pieces are read as soon as the first of them is there. -/
theorem read_ends (hgs : t.incoming ++ piecesOf ps ++ more = Frame.encodings gs)
    (hpositive : ∀ n ∈ writes, 0 < n) :
    (∃ g gs' t', gs = g :: gs' ∧
      tryReadFrame p (t.load ps writes) = ((t.codec.decode g).map some, t') ∧
      t'.codec = t.codec ∧ t'.draws = t.draws ∧ t'.outgoing = t.outgoing ∧ Slow t' writes ∧
      Frame.available p (t.incoming ++ piecesOf ps) = .ok true) ∨
    (∃ t', tryReadFrame p (t.load ps writes) = (.error (.io (.ofKind .wouldBlock)), t') ∧
      Frame.NoneIn (t.incoming ++ piecesOf ps)) := by
  have hread := tryReadFrame_step p (t.load ps writes)
  generalize hrun : tryReadFrame p (t.load ps writes) = run at hread
  obtain ⟨r, t'⟩ := run
  cases hread with
  | frame cs reads g rest hcs hfirst hr hsrc hne =>
      obtain ⟨qs, -, hbytes⟩ := map_ok_eq_append hr
      have hsrc : t.incoming ++ bytesOf cs = g.toBytes ++ rest := hsrc
      have hfront : t.incoming ++ piecesOf ps = g.toBytes ++ (rest ++ piecesOf qs) := by
        rw [hbytes, ← List.append_assoc, hsrc, List.append_assoc]
      rw [hfront, List.append_assoc] at hgs
      obtain ⟨gs', rfl, -⟩ := Frame.eq_cons_of_encodings hgs.symm
      refine .inl ⟨g, gs', _, rfl, rfl, rfl, rfl, rfl, ⟨rfl, rfl, hpositive⟩, ?_⟩
      rw [hfront]
      refine Frame.available_of_read (Frame.read_toBytes_append p g _ fun hnil => hne ?_)
      rw [List.append_eq_nil_iff] at hnil ⊢
      exact ⟨hnil.1, (List.append_eq_nil_iff.mp hnil.2).1⟩
  | short cs tail reads r hcs hr hnone hstop =>
      obtain ⟨qs, hqs, hbytes⟩ := map_ok_eq_append hr
      cases qs with
      | nil =>
          rw [List.map_nil] at hqs
          subst hqs
          cases hstop
          refine .inr ⟨_, rfl, ?_⟩
          rw [hbytes, piecesOf, List.map_nil, bytesOf_nil, List.append_nil]
          exact hnone
      | cons q qs =>
          rw [hqs, List.map_cons] at hstop
          cases hstop with
          | closed _ _ hq => exact absurd hq q.property
          | truncated _ _ hq => exact absurd hq q.property
  | panic cs reads e hcs hr herr =>
      obtain ⟨qs, -, hbytes⟩ := map_ok_eq_append hr
      have hbegins : t.incoming ++ bytesOf cs <+: Frame.encodings gs := by
        refine ⟨piecesOf qs ++ more, ?_⟩
        rw [← hgs, hbytes, List.append_assoc, List.append_assoc, List.append_assoc]
      exact absurd herr (Frame.read_ne_error_of_begins hbegins e)

variable (p ps writes) in
/-- There is always something to wait for. -/
theorem readable_of_begins (hgs : t.incoming ++ more = Frame.encodings gs) :
    Io.readable p (t.load ps writes) = some (.ok ()) := by
  cases hread : Frame.read p t.incoming with
  | error e => exact absurd hread (Frame.read_ne_error_of_begins ⟨more, hgs⟩ e)
  | ok found =>
      obtain ⟨found, rest⟩ := found
      have havail : Frame.available p (t.load ps writes).incoming = .ok found.isSome :=
        Frame.available_of_read hread
      unfold Io.readable
      rw [havail]
      cases found <;> rfl

end Reads

/-! ## What a tick does -/

/-- How many ticks a synchronization takes at most from here, if it never waits. -/
def FramedTransport.SyncPhase.rank (expected : Nat) : SyncPhase → Nat
  | start => expected + 5
  | write _ _ => expected + 4
  | writing _ => expected + 3
  | .stats _ => expected + 2
  | flush _ _ _ => expected + 1
  | receive _ _ _ left => left + 1
  | done => 0

def Poll.isPending {L : Type → Type} {ε β : Type} : Poll L ε β → Bool
  | .pending _ => true
  | .ready _ => false

/-- The transport would block at what the task is waiting for. -/
def blocked (p : Profile) (task : TransportM Unit) (t : FramedTransport) : Bool :=
  match task with
  | .await l _ => (Io.poll p _ l t).1.isPending
  | _ => false

/-- The synchronization goes on, or the transport has blocked. -/
def Advances (p : Profile) (stats : Serde Stats) (expected : Nat) (ph : SyncPhase)
    (t : FramedTransport) (run : TransportM Unit × FramedTransport) : Prop :=
  ∃ ph', run.1 = ph'.task stats ∧ SyncStep p stats ph t ph' run.2 ∧
    (ph'.rank expected < ph.rank expected ∨
      (ph'.rank expected ≤ ph.rank expected ∧ blocked p (ph.task stats) t = true))

section Ticks

variable {p : Profile} {stats : Serde Stats} {t : FramedTransport} {writes : List Nat}
  {expected : Nat} {backup : Backup} {own other : Stats}

theorem start_advances {f : Frame} (hser : stats.serializeToFrame (statsOf t.backup) = .ok f) :
    Advances p stats expected .start t ((SyncPhase.start.task stats).tick (Io.poll p) t) := by
  have hrun : (SyncPhase.start.task stats).tick (Io.poll p) t =
      (attempt (Async.ofExcept (stats.serializeToFrame (statsOf t.backup)) >>= writeFrame >>=
        fun _ => readStats stats) >>= afterStats t.backup >>= restore).settle
        { t with backup := Backup.new, incoming := [], outgoing := [] } := rfl
  rw [hrun, hser]
  exact ⟨.write t.backup f, rfl, .start hser, .inl (Nat.lt_succ_self _)⟩

theorem write_advances (h : Slow t writes) (hout : t.outgoing = []) {f g : Frame}
    (henc : t.codec.encode t.draws f = .ok g) :
    Advances p stats expected (.write backup f) t
      (((SyncPhase.write backup f).task stats).tick (Io.poll p) t) := by
  show Advances p stats expected _ t ((attempt (Async.lift (.writeFrame f) >>=
    fun _ => readStats stats) >>= afterStats backup >>= restore).tick (Io.poll p) t)
  have hemits := (tryWriteFrame_emits henc).1
  rw [tick_exchange, Io.poll_writeFrame]
  rcases tryWriteFrame_ends h hout henc with ⟨left, t', -, hrun, -, hflushed, -⟩ | ⟨t', -, hrun⟩
  · rw [Io.retry_of_ok h.writeable hrun]
    rw [hrun] at hemits
    exact ⟨.stats backup, rfl, .write henc hemits (.inr ⟨rfl, hflushed⟩),
      .inl (show expected + 2 < expected + 4 by omega)⟩
  · rw [Io.retry_of_wouldBlock h.writeable hrun rfl]
    rw [hrun] at hemits
    exact ⟨.writing backup, rfl, .write henc hemits (.inl rfl), .inl (Nat.lt_succ_self _)⟩

theorem writing_advances (h : Slow t writes) :
    Advances p stats expected (.writing backup) t
      (((SyncPhase.writing backup).task stats).tick (Io.poll p) t) := by
  show Advances p stats expected _ t ((attempt (Async.lift .writing >>=
    fun _ => readStats stats) >>= afterStats backup >>= restore).tick (Io.poll p) t)
  have hemits := tryFlush_emits t
  have hends := tryFlush_ends h
  rw [tick_exchange, Io.poll_writing]
  unfold FlushEnds at hends
  split at hends
  · obtain ⟨n, wire, hrun, -⟩ := hends
    rw [Io.retry_of_ok h.writeable hrun]
    rw [hrun] at hemits
    exact ⟨.stats backup, rfl, .writing hemits (.inr ⟨rfl, rfl⟩), .inl (Nat.lt_succ_self _)⟩
  · obtain ⟨t', hrun⟩ := hends
    have hpoll : Io.retry .writing .writing (Io.writeable t) tryFlush (fun _ => ()) t =
        (.pending .writing, t') := Io.retry_of_wouldBlock h.writeable hrun rfl
    rw [hpoll]
    rw [hrun] at hemits
    refine ⟨.writing backup, rfl, .writing hemits (.inl rfl), .inr ⟨Nat.le_refl _, ?_⟩⟩
    show (Io.poll p _ .writing t).1.isPending = true
    rw [Io.poll_writing, hpoll]
    rfl

theorem flush_advances (hout : t.outgoing = []) (hexpected : expectedCnt own other = expected) :
    Advances p stats expected (.flush own other backup) t
      (((SyncPhase.flush own other backup).task stats).tick (Io.poll p) t) := by
  show Advances p stats expected _ t ((attempt (Async.lift .flush >>= fun _ =>
    FramedTransport.receive (expectedCnt own other) (expectedCnt own other)) >>=
    afterReplay backup other >>= restore).tick (Io.poll p) t)
  rw [tick_replay, Io.poll_flush, if_pos (List.isEmpty_iff.mpr hout), hexpected]
  cases expected with
  | zero => exact ⟨.done, rfl, .flushed (Emits.refl t) hout hexpected, .inl (Nat.lt_succ_self _)⟩
  | succ left =>
      refine ⟨.receive own other backup left, ?_, ?_, .inl (Nat.lt_succ_self _)⟩
      · rw [SyncPhase.task, hexpected]
        rfl
      · exact .flush (Emits.refl t) (.inr ⟨hout, left, hexpected, rfl⟩)

/-- A wait for a frame. -/
theorem polls_again {t' : FramedTransport} (hreadable : Io.readable p t = some (.ok ()))
    (hrun : tryReadFrame p t = (.error (.io (.ofKind .wouldBlock)), t')) :
    Io.poll p _ .readFrame t = (.pending .readFrame, t') := by
  rw [Io.poll_readFrame]
  exact Io.retry_of_wouldBlock hreadable hrun rfl

theorem stats_waits {t' : FramedTransport} (hreadable : Io.readable p t = some (.ok ()))
    (hrun : tryReadFrame p t = (.error (.io (.ofKind .wouldBlock)), t')) :
    Advances p stats expected (.stats backup) t
      (((SyncPhase.stats backup).task stats).tick (Io.poll p) t) := by
  have hread := tryReadFrame_step p t
  have hpoll := polls_again hreadable hrun
  rw [hrun] at hread
  refine ⟨.stats backup, ?_, ?_, .inr ⟨Nat.le_refl _, ?_⟩⟩
  · rw [task_stats, tick_exchange, hpoll]
  · rw [task_stats, tick_exchange, hpoll]
    exact .short rfl hread rfl
  · rw [task_stats]
    show (Io.poll p _ .readFrame t).1.isPending = true
    rw [hpoll]
    rfl

variable (expected backup) in
/-- The stats are there, and the other side gets what it has not received; the synchronization goes
on if the link takes all of that at once. -/
theorem stats_sends {f : Frame} {t' : FramedTransport}
    (hreadable : Io.readable p t = some (.ok ())) (hrun : tryReadFrame p t = (.ok (some f), t'))
    (hde : stats.deserializeFromSlice f.item = .ok other) (h : Slow t' writes)
    (hout : t'.outgoing = []) :
    (takesEach t'.codec t'.draws
        (backup.truncateFront (resendCnt (statsOf backup) other)).frames writes = true ∧
      Advances p stats expected (.stats backup) t
        (((SyncPhase.stats backup).task stats).tick (Io.poll p) t)) ∨
    (takesEach t'.codec t'.draws
        (backup.truncateFront (resendCnt (statsOf backup) other)).frames writes = false ∧
      ∃ e, (((SyncPhase.stats backup).task stats).tick (Io.poll p) t).1 = .throw e) := by
  have hread := tryReadFrame_step p t
  rw [hrun] at hread
  have htick : ((SyncPhase.stats backup).task stats).tick (Io.poll p) t =
      (attempt (deserializeFrame stats (some f) >>= statsOrEof) >>= afterStats backup >>=
        restore).settle t' := by
    rw [task_stats, tick_exchange, Io.poll_readFrame, Io.retry_of_ok hreadable hrun]
    rfl
  rw [htick, exchanged_eq backup hde]
  let b' := backup.truncateFront (resendCnt (statsOf backup) other)
  rcases replay_slow h hout b'.frames (fun _ => FramedTransport.flush >>= fun _ =>
      FramedTransport.receive (expectedCnt (statsOf backup) other)
        (expectedCnt (statsOf backup) other)) b' other with
    ⟨htakes, gs, t'', hreplays, heq⟩ | hnot
  · refine .inl ⟨htakes, .flush (statsOf backup) other b', ?_, ?_, .inl (Nat.lt_succ_self _)⟩
    · rw [heq]
      rfl
    · rw [heq]
      exact .stats hread hde hreplays
  · exact .inr hnot

theorem receive_waits {left : Nat} {t' : FramedTransport}
    (hreadable : Io.readable p t = some (.ok ()))
    (hrun : tryReadFrame p t = (.error (.io (.ofKind .wouldBlock)), t')) :
    Advances p stats expected (.receive own other backup left) t
      (((SyncPhase.receive own other backup left).task stats).tick (Io.poll p) t) := by
  have hread := tryReadFrame_step p t
  have hpoll := polls_again hreadable hrun
  rw [hrun] at hread
  refine ⟨.receive own other backup left, ?_, ?_, .inr ⟨Nat.le_refl _, ?_⟩⟩
  · simp only [SyncPhase.task, FramedTransport.receive, readFrame]
    rw [tick_replay, hpoll]
  · simp only [SyncPhase.task, FramedTransport.receive, readFrame]
    rw [tick_replay, hpoll]
    exact .short rfl hread rfl
  · show (Io.poll p _ .readFrame t).1.isPending = true
    rw [hpoll]
    rfl

theorem receive_takes {left : Nat} {f g : Frame} {t' : FramedTransport}
    (hreadable : Io.readable p t = some (.ok ())) (hrun : tryReadFrame p t = (.ok (some f), t'))
    (henc : t'.codec.encode t'.draws f = .ok g) :
    Advances p stats expected (.receive own other backup left) t
      (((SyncPhase.receive own other backup left).task stats).tick (Io.poll p) t) := by
  have hread := tryReadFrame_step p t
  rw [hrun] at hread
  simp only [SyncPhase.task, FramedTransport.receive, readFrame]
  rw [tick_replay, Io.poll_readFrame, Io.retry_of_ok hreadable hrun]
  show Advances p stats expected _ t ((attempt (Async.ofExcept (requeue f t').1 >>= fun _ =>
    FramedTransport.receive (expectedCnt own other) left) >>=
    afterReplay backup other >>= restore).settle (requeue f t').2)
  simp only [requeue, henc, Frame.write_eq]
  cases left with
  | zero => exact ⟨.done, rfl, .received hread henc, .inl (Nat.lt_succ_self _)⟩
  | succ left =>
      exact ⟨.receive own other backup left, rfl, .receive hread henc, .inl (Nat.lt_succ_self _)⟩

end Ticks

/-! ## The conditions on a tick -/

/-- A tick of `x` over a slow link, which reads just these pieces. -/
def Slowly (p : Profile) (x : Side) (n : Net) : Event → Prop
  | .tick y ps writes => y = x ∧ (∀ k ∈ writes, 0 < k) ∧ ∃ task o,
      (n.ends y).task = some task ∧ n.operate y ps writes (task.tick (Io.poll p)) = some o
  | _ => False

/-- The tick ends the synchronization with an error. -/
def Fails (p : Profile) (n : Net) : Event → Prop
  | .tick x ps writes => ∃ task o e, (n.ends x).task = some task ∧
      n.operate x ps writes (task.tick (Io.poll p)) = some o ∧ o.result = .throw e
  | _ => False

/-- The tick meets a transport that would block. -/
def waits (p : Profile) (n : Net) : Event → Bool
  | .tick x ps writes =>
    match (n.ends x).task with
    | some task => blocked p task ((n.ends x).transport.load ps writes)
    | none => false
  | _ => false

/-- The link takes the frames to send again at once, when the stats of the other side are there. -/
def TakesAll (p : Profile) (stats : Serde Stats) (n₀ : Net) (other : Stats) (n : Net) :
    Event → Prop
  | .tick x ps writes =>
    (n.ends x).task = (SyncPhase.stats (n₀.ends x).transport.backup).pending stats →
    Frame.available p ((n.ends x).transport.incoming ++ piecesOf ps) = .ok true →
    takesEach (n.ends x).transport.codec (n.ends x).transport.draws
      (leftOf (n₀.ends x).transport.backup other).frames writes = true
  | _ => True

/-- If more than one frame is expected, the first one is taken from a buffer of whole frames. -/
def Aligned (p : Profile) (stats : Serde Stats) (n₀ : Net) (other : Stats) (n : Net) : Event → Prop
  | .tick x ps _ => 1 < expectedCnt (statsOf (n₀.ends x).transport.backup) other →
    TakesFirst p stats n₀ other n x ps →
    ∃ gs, (n.ends x).transport.incoming ++ piecesOf ps = Frame.encodings gs
  | _ => True

/-- What a codec has to encode in a synchronization besides the frames that are sent again: the
stats, and the frames that come in. -/
structure Encodable (c : Codec) (stats : Serde Stats) (own : Stats) (incoming : List Frame) :
    Prop where
  stats : ∃ f, stats.serializeToFrame own = .ok f ∧ ∀ draws, ∃ g, c.encode draws f = .ok g
  incoming : ∀ f ∈ incoming, ∀ draws, ∃ g, c.encode draws f = .ok g

/-! ## The frames on the way -/

/-- Whole frames are on the way as long as frames are expected. -/
def Legible (codec : Side → Codec) (n : Net) (x : Side) (fs : List Frame) (expected : Nat) :
    SyncPhase → Prop
  | .flush _ _ _ => Straight codec n x fs
  | .receive _ _ _ left => (left + 1 = expected ∧ Straight codec n x fs) ∨
      (left + 1 < expected ∧ Turning codec n x fs (fun _ => True) (expected - (left + 1)))
  | _ => True

section Runs

variable {codec : Side → Codec} {p : Profile} {stats : Serde Stats} {n₀ n n' : Net} {x : Side}
  {other : Stats} {resent later fs : List Frame} {expected : Nat} {ph ph' : SyncPhase}
  {ps : List Piece} {writes : List Nat} {t : FramedTransport}

theorem Received.legible (h : Received codec n x fs expected ph) :
    Legible codec n x fs expected ph := by
  cases ph with
  | flush => exact h
  | receive =>
      rcases h with hstraight | ⟨hleft, hturning⟩
      · exact .inl hstraight
      · exact .inr ⟨hleft, hturning.mono fun _ _ => trivial⟩
  | _ => trivial

/-- Before the receive loop nothing has been turned round. -/
theorem Legible.tick_before (hc : Shared codec)
    (ha : Arriving codec stats n₀ x other resent later)
    (h : Moved p stats n₀ n n' x other ph ph' ps writes t)
    (hbefore : ∀ own other' backup left, ph ≠ .receive own other' backup left)
    (hl : Legible codec n x (resent ++ later) resent.length ph) :
    Legible codec n' x (resent ++ later) resent.length ph' := by
  have hround : ComesRound p stats n₀ other n (.tick x ps writes) := by
    rintro ⟨backup, left, htask, -⟩
    obtain ⟨own, other', backup', heq⟩ :=
      SyncPhase.eq_receive_of_pending (h.before.task.symm.trans htask)
    exact absurd heq (hbefore own other' backup' left)
  have hr : Received codec n x (resent ++ later) resent.length ph := by
    cases ph with
    | flush => exact hl
    | receive own other' backup left => exact absurd rfl (hbefore own other' backup left)
    | done =>
        cases h.step with
        | wait hready => cases hready
        | short hreading => cases hreading
    | _ => trivial
  exact (hr.tick hc ha h hround).legible

/-- The last of the frames is taken, or waited for. -/
theorem Legible.tick_last (hc : Shared codec) (ha : Arriving codec stats n₀ x other resent later)
    {own other' : Stats} {backup : Backup}
    (h : Moved p stats n₀ n n' x other (.receive own other' backup 0) ph' ps writes t)
    (hlen : 1 = resent.length) (hstraight : Straight codec n x (resent ++ later)) :
    Legible codec n' x (resent ++ later) resent.length ph' := by
  have hstep := h.step
  cases hstep with
  | wait hready => cases hready
  | short _ hread he =>
      obtain ⟨hincoming, -⟩ :=
        short_of_read hc (h.sameCodec ha) ⟨_, hstraight⟩ h.ticked hread h.reads
      refine .inl ⟨hlen, hstraight.congr ?_⟩
      rw [hincoming, h.ticked.taken, List.append_assoc]
  | received => trivial

theorem Legible.tick (hc : Shared codec) (ha : Arriving codec stats n₀ x other resent later)
    (h : Moved p stats n₀ n n' x other ph ph' ps writes t)
    (hl : Legible codec n x (resent ++ later) resent.length ph)
    (haligned : Aligned p stats n₀ other n (.tick x ps writes)) :
    Legible codec n' x (resent ++ later) resent.length ph' := by
  cases ph with
  | receive own other' backup left =>
      rcases hl with ⟨hleft, hstraight⟩ | ⟨hleft, hturning⟩
      · cases left with
        | zero => exact Legible.tick_last hc ha h hleft hstraight
        | succ left =>
            rcases h.first hc ha hleft hstraight with ⟨rfl, hnext, -⟩ | ⟨hfirst, hgs⟩
            · exact .inl ⟨hleft, hnext⟩
            · obtain ⟨gs, hwhole⟩ := haligned (by rw [← ha.expected]; omega) hfirst
              obtain ⟨hnext, hph⟩ := hgs gs hwhole
              rcases hph with ⟨left', hsucc, rfl⟩ | ⟨hzero, -⟩
              · cases hsucc
                refine .inr ⟨by omega, ?_⟩
                rw [show resent.length - (left + 1) = 1 by omega]
                exact hnext.mono fun _ _ => trivial
              · cases hzero
      · rcases hturning.tick hc (h.sameCodec ha) hleft h.step h.reads h.ticked with
          ⟨left', rfl, hleft', hnext⟩ | ⟨rfl, hnext⟩
        · exact .inr ⟨hleft', hnext⟩
        · trivial
  | _ => exact Legible.tick_before hc ha h (by rintro _ _ _ _ ⟨⟩) hl

/-- Whole frames are on the way to the receive loop, all of them from the other side. -/
theorem Legible.carries {own other' : Stats} {backup : Backup} {left : Nat}
    (h : Legible codec n x fs expected (.receive own other' backup left)) :
    ∃ fs', Carries codec ((n.ends x).transport.incoming ++ n.flight x.other) fs' ∧
      ∀ f ∈ fs', f ∈ fs := by
  rcases h with ⟨-, hstraight⟩ | ⟨-, hs, tl, rfl, -, -, hin, htl⟩
  · exact ⟨fs, hstraight, fun _ hf => hf⟩
  · refine ⟨_, hin.append htl, fun f hf => ?_⟩
    rw [List.mem_append, List.mem_rotate] at hf
    exact List.mem_append.mpr hf

/-! ## A tick over a slow link -/

theorem eq_stats_of_pending {backup : Backup}
    (h : ph.pending stats = (SyncPhase.stats backup).pending stats) : ∃ b, ph = .stats b := by
  cases ph with
  | start => cases h
  | write b f =>
      injection h with h
      injection h with hu
      exact (SyncPhase.unit_ne_option hu Frame.empty).elim
  | writing b =>
      injection h with h
      injection h with hu
      exact (SyncPhase.unit_ne_option hu Frame.empty).elim
  | stats b => exact ⟨b, rfl⟩
  | flush own other' b =>
      injection h with h
      injection h with hu
      exact (SyncPhase.unit_ne_option hu Frame.empty).elim
  | receive own other' b left =>
      obtain ⟨_, _, _, heq⟩ := SyncPhase.eq_receive_of_pending h.symm
      cases heq
  | done => cases h

/-- Pieces that come next on the link, and what is behind them. -/
theorem exists_flight {toSelf : Bytes} (hself : n.link x = piecesOf ps ++ toSelf) :
    ∃ more, n.flight x.other = piecesOf ps ++ more := by
  refine ⟨toSelf ++ (n.ends x.other).transport.outgoing, ?_⟩
  rw [Net.flight, Side.other_other, hself, List.append_assoc]

/-- The tick that looks for the stats of the other side. -/
theorem stats_tick (ha : Arriving codec stats n₀ x other resent later) {backup : Backup}
    (h : Synchronizing stats n₀ n x other (.stats backup)) (hpositive : ∀ k ∈ writes, 0 < k)
    {toSelf : Bytes} (hself : n.link x = piecesOf ps ++ toSelf) :
    (TakesAll p stats n₀ other n (.tick x ps writes) ∧
      Advances p stats expected (.stats backup) ((n.ends x).transport.load ps writes)
        (((SyncPhase.stats backup).task stats).tick (Io.poll p)
          ((n.ends x).transport.load ps writes))) ∨
    (¬ TakesAll p stats n₀ other n (.tick x ps writes) ∧
      ∃ e, (((SyncPhase.stats backup).task stats).tick (Io.poll p)
        ((n.ends x).transport.load ps writes)).1 = .throw e) := by
  obtain ⟨bs, hbegin, gs, rfl, -⟩ := ha.begins
  obtain ⟨rfl, -, hout, hincoming⟩ := h.stage
  obtain ⟨f, g, hstream, hdecode, hde⟩ := hbegin.announced
  obtain ⟨more, hmore⟩ := exists_flight hself
  have hgs : (n.ends x).transport.incoming ++ piecesOf ps ++ more =
      Frame.encodings (g :: gs) := by
    rw [List.append_assoc, ← hmore, hincoming, hstream, Frame.encodings_cons]
  have hbegins : (n.ends x).transport.incoming ++ (piecesOf ps ++ more) =
      Frame.encodings (g :: gs) := by
    rw [← List.append_assoc]
    exact hgs
  have hreadable := readable_of_begins p writes ps hbegins
  rcases read_ends (p := p) hgs hpositive with
    ⟨g', gs', t', heq, hrun, hcodec, hdraws, hout', hslow, havail⟩ | ⟨t', hrun, hnone⟩
  · cases heq
    rw [h.codec, hdecode] at hrun
    have hsends := stats_sends expected (n₀.ends x).transport.backup hreadable hrun hde hslow
      (hout'.trans hout)
    rw [hcodec, hdraws] at hsends
    rcases hsends with ⟨htakes, hadvances⟩ | ⟨hnot, hthrow⟩
    · exact .inl ⟨fun _ _ => htakes, hadvances⟩
    · refine .inr ⟨fun htakes => ?_, hthrow⟩
      have hall := htakes h.task havail
      rw [leftOf, hnot] at hall
      cases hall
  · refine .inl ⟨fun _ havail => ?_, stats_waits hreadable hrun⟩
    exact absurd hnone (not_noneIn_of_available havail)

/-- The tick that looks for a frame. -/
theorem receive_tick (hc : Shared codec) (ha : Arriving codec stats n₀ x other resent later)
    {own other' : Stats} {backup : Backup} {left : Nat}
    (henc : Encodable (codec x) stats own (resent ++ later))
    (h : Synchronizing stats n₀ n x other (.receive own other' backup left))
    (hl : Legible codec n x (resent ++ later) resent.length (.receive own other' backup left))
    (hpositive : ∀ k ∈ writes, 0 < k) {toSelf : Bytes}
    (hself : n.link x = piecesOf ps ++ toSelf) :
    Advances p stats expected (.receive own other' backup left)
      ((n.ends x).transport.load ps writes)
      (((SyncPhase.receive own other' backup left).task stats).tick (Io.poll p)
        ((n.ends x).transport.load ps writes)) := by
  have hcodec : (n.ends x).transport.codec = codec x := h.codec.trans ha.uses
  obtain ⟨fs', ⟨gs, hbytes, hfs'⟩, hmem⟩ := hl.carries
  obtain ⟨more, hmore⟩ := exists_flight hself
  rw [hmore, ← List.append_assoc] at hbytes
  have hbegins : (n.ends x).transport.incoming ++ (piecesOf ps ++ more) = Frame.encodings gs := by
    rw [← List.append_assoc]
    exact hbytes
  have hreadable := readable_of_begins p writes ps hbegins
  rcases read_ends (p := p) hbytes hpositive with
    ⟨g, gs', t', rfl, hrun, hcodec', hdraws, -, -, -⟩ | ⟨t', hrun, -⟩
  · obtain ⟨f, fs₁, hcoded, -, rfl⟩ := List.forall₂_cons_right_iff.mp hfs'
    rw [hcodec, hcoded.decode hc x] at hrun
    obtain ⟨g', hg'⟩ := henc.incoming f (hmem f List.mem_cons_self) t'.draws
    exact receive_takes hreadable hrun (by rw [hcodec', hcodec]; exact hg')
  · exact receive_waits hreadable hrun

/-- A tick fails exactly if the link does not take all frames that are to be sent again. -/
theorem slow_tick (hc : Shared codec) (ha : Arriving codec stats n₀ x other resent later)
    (henc : Encodable (codec x) stats (statsOf (n₀.ends x).transport.backup) (resent ++ later))
    (h : Synchronizing stats n₀ n x other ph)
    (hl : Legible codec n x (resent ++ later) resent.length ph) (hdone : ph ≠ .done)
    (hpositive : ∀ k ∈ writes, 0 < k) {toSelf : Bytes}
    (hself : n.link x = piecesOf ps ++ toSelf) :
    (TakesAll p stats n₀ other n (.tick x ps writes) ∧
      Advances p stats resent.length ph ((n.ends x).transport.load ps writes)
        ((ph.task stats).tick (Io.poll p) ((n.ends x).transport.load ps writes))) ∨
    (¬ TakesAll p stats n₀ other n (.tick x ps writes) ∧
      ∃ e, ((ph.task stats).tick (Io.poll p) ((n.ends x).transport.load ps writes)).1 =
        .throw e) := by
  have hslow := slow_load (n.ends x).transport ps hpositive
  have hother (hne : ∀ b, ph ≠ .stats b) : TakesAll p stats n₀ other n (.tick x ps writes) := by
    intro htask
    obtain ⟨b, hb⟩ := eq_stats_of_pending (h.task.symm.trans htask)
    exact absurd hb (hne b)
  obtain ⟨f, hser, hf⟩ := henc.stats
  cases ph with
  | start =>
      obtain ⟨hbackup, -⟩ := h.stage
      refine .inl ⟨hother (by rintro _ ⟨⟩), start_advances (f := f) ?_⟩
      rw [← hser, ← hbackup]
      rfl
  | write backup f' =>
      obtain ⟨rfl, hser', hout, -⟩ := h.stage
      rw [hser] at hser'
      cases hser'
      obtain ⟨g, hg⟩ := hf (n.ends x).transport.draws
      refine .inl ⟨hother (by rintro _ ⟨⟩), write_advances hslow hout (g := g) ?_⟩
      show (n.ends x).transport.codec.encode _ _ = _
      rw [h.codec, ha.uses]
      exact hg
  | writing backup => exact .inl ⟨hother (by rintro _ ⟨⟩), writing_advances hslow⟩
  | stats backup => exact stats_tick ha h hpositive hself
  | flush own other' backup =>
      obtain ⟨rfl, rfl, -, -, hout⟩ := h.stage
      exact .inl ⟨hother (by rintro _ ⟨⟩), flush_advances hout ha.expected.symm⟩
  | receive own other' backup left =>
      obtain ⟨rfl, -⟩ := h.stage
      exact .inl ⟨hother (by rintro _ ⟨⟩), receive_tick hc ha henc h hl hpositive hself⟩
  | done => exact absurd rfl hdone

theorem Fails.step_eq_none {e : Event} (h : Fails p n e) : n.step p stats e = none := by
  cases e with
  | tick y ps writes =>
      obtain ⟨task, o, e, htask, hop, hthrow⟩ := h
      simp only [Net.step, htask, hop, hthrow]
      rfl
  | _ => exact h.elim

/-- Where the synchronization of `x` stands over a slow link. -/
def Slowed (codec : Side → Codec) (stats : Serde Stats) (n₀ : Net) (x : Side) (other : Stats)
    (resent later : List Frame) (n : Net) (ph : SyncPhase) : Prop :=
  Synchronizing stats n₀ n x other ph ∧ Legible codec n x (resent ++ later) resent.length ph

/-- A tick over a slow link goes on, or it fails. -/
theorem Slowed.step (hc : Shared codec) (ha : Arriving codec stats n₀ x other resent later)
    (henc : Encodable (codec x) stats (statsOf (n₀.ends x).transport.backup) (resent ++ later))
    (h : Slowed codec stats n₀ x other resent later n ph) {e : Event} (he : Slowly p x n e)
    (haligned : Aligned p stats n₀ other n e) :
    (TakesAll p stats n₀ other n e ∧ ¬ Fails p n e ∧
      ∃ n' ph', n.step p stats e = some n' ∧ Slowed codec stats n₀ x other resent later n' ph' ∧
        (ph'.rank resent.length < ph.rank resent.length ∨
          (ph'.rank resent.length ≤ ph.rank resent.length ∧ waits p n e = true))) ∨
    (¬ TakesAll p stats n₀ other n e ∧ Fails p n e) := by
  obtain ⟨hsync, hl⟩ := h
  obtain ⟨bs, hbegin, -⟩ := id ha.begins
  cases e with
  | tick y ps writes =>
      obtain ⟨rfl, hpositive, task, o, htask, hop⟩ := he
      have hdone : ph ≠ .done := by
        rintro rfl
        rw [hsync.task] at htask
        cases htask
      obtain rfl : task = ph.task stats :=
        Option.some.inj (htask.symm.trans (hsync.task.trans (Net.task_of_pending hdone)))
      obtain ⟨t, hrun, -, hself, -⟩ := Net.operate_eq_some hop
      rcases slow_tick (p := p) hc ha henc hsync hl hdone hpositive hself with
        ⟨htakes, ph', hresult, hstep, hrank⟩ | ⟨hnot, e, hthrow⟩
      · rw [hrun] at hresult hstep
        refine .inl ⟨htakes, ?_, ?_⟩
        · rintro ⟨task', o', e, htask', hop', hthrow⟩
          rw [htask] at htask'
          cases htask'
          rw [hop] at hop'
          cases hop'
          rw [show o.result = _ from hresult] at hthrow
          cases ph' <;> cases hthrow
        · obtain ⟨n', t', hnext, hrun', hreads, htrans, htask', hother, hsent, hgot, hin, hout⟩ :=
            Net.step_of_operate htask hop hresult
          have ht : t' = t := (Prod.ext_iff.mp (hrun'.symm.trans hrun)).2
          subst ht
          have htick : Ticked n n' y ps t' := ⟨htrans, hother, hsent, hgot, hin, hout⟩
          have hafter := hsync.tick (ha.neverBlocks hc) hbegin hstep hreads htick htask'
          have hmoved : Moved p stats n₀ n n' y other ph ph' ps writes t' :=
            ⟨hsync, hafter, hstep, hreads, htick⟩
          refine ⟨n', ph', hnext, ⟨hafter, hl.tick hc ha hmoved haligned⟩, ?_⟩
          have hwaits : waits p n (.tick y ps writes) =
              blocked p (ph.task stats) ((n.ends y).transport.load ps writes) := by
            simp only [waits, htask]
          rwa [hwaits]
      · refine .inr ⟨hnot, ph.task stats, o, e, htask, hop, ?_⟩
        rw [hrun] at hthrow
        exact hthrow
  | _ => exact he.elim

end Runs

/-- A synchronization over a slow link, whose ticks find the frames that they expect, fails in none
of its ticks exactly if the link takes all frames to send again at once. It then goes on as long as
it is polled, takes no more ticks than the link has blocked and a fixed number, and has sent these
frames whole when it ends. -/
theorem slow_of_run {codec : Side → Codec} (hc : Shared codec) (p : Profile) (stats : Serde Stats)
    (x : Side) (n₀ : Net) (other : Stats) (resent later : List Frame)
    (ha : Arriving codec stats n₀ x other resent later)
    (henc : Encodable (codec x) stats (statsOf (n₀.ends x).transport.backup) (resent ++ later))
    (es : List Event)
    (hes : Machine.Meeting (Net.step p stats)
      (fun n e => Slowly p x n e ∧ Aligned p stats n₀ other n e) es n₀) :
    (Machine.Meeting (Net.step p stats) (fun n e => ¬ Fails p n e) es n₀ ↔
      Machine.Meeting (Net.step p stats) (TakesAll p stats n₀ other) es n₀) ∧
    (Machine.Meeting (Net.step p stats) (TakesAll p stats n₀ other) es n₀ →
      ∃ n, Machine.run (Net.step p stats) es n₀ = some n ∧
        es.length ≤ Machine.count (Net.step p stats) (waits p) es n₀ + (resent.length + 5) ∧
        ((n.ends x).task = none →
          Resends stats n₀ n x (leftOf (n₀.ends x).transport.backup other).frames)) := by
  obtain ⟨bs, hbegin, -⟩ := id ha.begins
  have hstart : Slowed codec stats n₀ x other resent later n₀ .start :=
    ⟨synchronizing_begin hbegin, trivial⟩
  have hstep (m : Net) (e : Event) (ph : SyncPhase)
      (h : Slowed codec stats n₀ x other resent later m ph)
      (hW : Slowly p x m e ∧ Aligned p stats n₀ other m e) := h.step hc ha henc hW.1 hW.2
  constructor
  · refine Machine.meeting_iff (I := fun m => ∃ ph, Slowed codec stats n₀ x other resent later m ph)
      (W := fun m e => Slowly p x m e ∧ Aligned p stats n₀ other m e) ?_ ?_ ⟨_, hstart⟩ hes
    · rintro m e ⟨ph, h⟩ hW
      rcases hstep m e ph h hW with ⟨htakes, hgoes, -⟩ | ⟨hnot, hfails⟩
      · exact iff_of_true hgoes htakes
      · exact iff_of_false (not_not_intro hfails) hnot
    · rintro m e m' ⟨ph, h⟩ hW hnext
      rcases hstep m e ph h hW with ⟨-, -, m'', ph', hnext', h', -⟩ | ⟨-, hfails⟩
      · rw [hnext] at hnext'
        cases hnext'
        exact ⟨ph', h'⟩
      · rw [hfails.step_eq_none] at hnext
        cases hnext
  · intro htakes
    obtain ⟨n, hrun, ph, hsync, -⟩ := Machine.exists_run
      (I := fun m => ∃ ph, Slowed codec stats n₀ x other resent later m ph)
      (fun m e h hC => by
        obtain ⟨ph, h⟩ := h
        rcases hstep m e ph h hC.1 with ⟨-, -, m', ph', hnext, h', -⟩ | ⟨hnot, -⟩
        · exact ⟨m', hnext, ph', h'⟩
        · exact absurd hC.2 hnot)
      ⟨.start, hstart⟩ (hes.and htakes)
    refine ⟨n, hrun, ?_, ?_⟩
    · exact Machine.length_le_count
        (I := fun m r => ∃ ph, Slowed codec stats n₀ x other resent later m ph ∧
          ph.rank resent.length = r)
        (fun m e m' r h hW hnext => by
          obtain ⟨ph, h, rfl⟩ := h
          rcases hstep m e ph h hW with ⟨-, -, m'', ph', hnext', h', hrank⟩ | ⟨-, hfails⟩
          · rw [hnext] at hnext'
            cases hnext'
            exact ⟨_, ⟨ph', h', rfl⟩, hrank⟩
          · rw [hfails.step_eq_none] at hnext
            cases hnext)
        ⟨.start, hstart, rfl⟩ hes hrun
    · intro hnone
      obtain rfl : ph = .done := eq_done_of_pending (hsync.task.symm.trans hnone)
      exact hsync.resends rfl

/-! ## A frame that the link takes in two parts -/

namespace Slowing

open Overtaking (first)
open Resending (net piece)

/-- The other side has not received the frame, and sends none itself. -/
theorem arriving : Arriving Overtaking.codec Overtaking.stats (net false 0) .a ⟨0, 0, 0⟩ [] [] where
  uses := rfl
  begins := ⟨[], Resending.beginning false 0, .nil⟩
  expected := rfl
  nonempty := by
    intro f hf
    cases hf

theorem encodable : Encodable PlainCodec Overtaking.stats (statsOf (Resending.stored false)) [] where
  stats := ⟨⟨[1, 0, 1], by decide⟩, rfl, fun _ => ⟨_, rfl⟩⟩
  incoming := by
    intro f hf
    cases hf

/-- The ticks up to the one that sends the frame, in which the link takes these numbers of bytes. -/
def events (writes : List Nat) : List Event :=
  [.tick .a [] [], .tick .a [] [3], .tick .a [] [8], .tick .a [piece 0] writes]

/-- The link takes the frame in two parts, but without blocking in between. -/
def patientEvents : List Event := events [4, 5] ++ [Event.tick .a [] []]

/-- No frame is expected. -/
theorem aligned (n : Net) (e : Event) (h : TicksOf .a e) :
    Aligned .dev Overtaking.stats (net false 0) ⟨0, 0, 0⟩ n e := by
  cases e with
  | tick y ps writes =>
      obtain rfl : y = .a := h
      intro hexpected
      exact absurd hexpected (by decide)
  | _ => trivial

/-- The stats have been sent in two parts, and then the link takes only a part of the frame. -/
theorem fails_partly :
    Machine.Meeting (Net.step .dev Overtaking.stats)
      (fun n e => Slowly .dev .a n e ∧
        Aligned .dev Overtaking.stats (net false 0) ⟨0, 0, 0⟩ n e) (events [4]) (net false 0) ∧
    ¬ Machine.Meeting (Net.step .dev Overtaking.stats) (fun n e => ¬ Fails .dev n e) (events [4])
      (net false 0) := by
  constructor
  · refine .cons ⟨⟨rfl, by decide, _, _, rfl, rfl⟩, aligned _ _ rfl⟩ rfl <|
      .cons ⟨⟨rfl, by decide, _, _, rfl, rfl⟩, aligned _ _ rfl⟩ rfl <|
      .cons ⟨⟨rfl, by decide, _, _, rfl, rfl⟩, aligned _ _ rfl⟩ rfl
      ⟨⟨⟨rfl, by decide, _, _, rfl, rfl⟩, aligned _ _ rfl⟩, fun _ _ => trivial⟩
  · intro h
    exact (((h.2 _ rfl).2 _ rfl).2 _ rfl).1 ⟨_, _, _, rfl, rfl, rfl⟩

theorem slowly_patient :
    Machine.Meeting (Net.step .dev Overtaking.stats)
      (fun n e => Slowly .dev .a n e ∧
        Aligned .dev Overtaking.stats (net false 0) ⟨0, 0, 0⟩ n e) patientEvents (net false 0) :=
  .cons ⟨⟨rfl, by decide, _, _, rfl, rfl⟩, aligned _ _ rfl⟩ rfl <|
    .cons ⟨⟨rfl, by decide, _, _, rfl, rfl⟩, aligned _ _ rfl⟩ rfl <|
    .cons ⟨⟨rfl, by decide, _, _, rfl, rfl⟩, aligned _ _ rfl⟩ rfl <|
    .cons ⟨⟨rfl, by decide, _, _, rfl, rfl⟩, aligned _ _ rfl⟩ rfl <|
    .cons ⟨⟨rfl, by decide, _, _, rfl, rfl⟩, aligned _ _ rfl⟩ rfl trivial

theorem takesAll_patient :
    Machine.Meeting (Net.step .dev Overtaking.stats)
      (TakesAll .dev Overtaking.stats (net false 0) ⟨0, 0, 0⟩) patientEvents (net false 0) :=
  .cons (fun _ h => by cases h) rfl <| .cons (fun _ h => by cases h) rfl <|
    .cons (fun _ h => by cases h) rfl <| .cons (fun _ _ => rfl) rfl <|
    .cons (fun _ h => by cases h) rfl trivial

theorem resends_patient :
    ∃ n, Machine.run (Net.step .dev Overtaking.stats) patientEvents (net false 0) = some n ∧
      5 ≤ Machine.count (Net.step .dev Overtaking.stats) (waits .dev) patientEvents (net false 0) +
        (0 + 5) ∧
      (n.ends .a).task = none ∧ Resends Overtaking.stats (net false 0) n .a [first] := by
  obtain ⟨n, hrun, hlen, hresends⟩ := (slow_of_run Overtaking.shared .dev Overtaking.stats .a
    (net false 0) ⟨0, 0, 0⟩ [] [] arriving encodable patientEvents slowly_patient).2
    takesAll_patient
  obtain rfl : _ = n := Option.some.inj hrun
  exact ⟨_, hrun, hlen, rfl, hresends rfl⟩

end Slowing

end Distant
