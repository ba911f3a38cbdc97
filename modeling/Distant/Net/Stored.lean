import Distant.Net.Counters

/-!
# Which frames are stored

`synchronize` tells the stored frames apart by their position from the end only, so the backup has
to hold the last ones of the frames that `sent_cnt` has counted, without a gap. `Usage` is a
transport in use with those frames on the side. A limit of zero stops `push_frame` before it
stores anything and before it evicts anything: a frame that is written while older ones are stored
is counted, but leaves a gap. `numbered_of_run` says that nothing else does.
-/

namespace Distant

open FramedTransport

/-- The transport over another wire. -/
def FramedTransport.over (t : FramedTransport) (wire : Wire) : FramedTransport :=
  { t with inner := wire }

structure Usage where
  transport : FramedTransport
  /-- the synchronization under way -/
  task : Option (TransportM Unit)
  /-- the frames that the sent count has counted -/
  counted : List Frame

inductive UsageEvent where
  /-- a call of `try_write_frame`, and how the wire answers -/
  | write (frame : Frame) (wire : Wire)
  /-- a call of `try_read_frame`, and how the wire answers -/
  | read (wire : Wire)
  | setMaxBackupSize (size : Nat)
  | freeze
  | unfreeze
  | synchronize
  /-- a tick of the synchronization, and how the wire answers -/
  | tick (wire : Wire)

namespace Usage

/-- The frame, if writing it counts it as sent. -/
def newlyCounted (t : FramedTransport) (frame : Frame) : List Frame :=
  match t.codec.encode t.draws frame with
  | .ok _ => if frame.isNonempty && !t.backup.frozen then [frame] else []
  | .error _ => []

/-- The transport with a changed backup. -/
def modifyBackup (s : Usage) (f : Backup → Backup) : Usage :=
  { s with transport := { s.transport with backup := f s.transport.backup } }

def step (p : Profile) (stats : Serde Stats) (s : Usage) : UsageEvent → Option Usage
  | .tick wire =>
    match s.task with
    | none => none
    | some task =>
      match task.tick (Io.poll p) (s.transport.over wire) with
      | (.ret (), t) => some { s with transport := t, task := none }
      -- an error that is returned leaves the transport in use, a panic does not
      | (.throw (.io _), t) => some { s with transport := t, task := none }
      | (.throw (.panic _), _) => none
      | (task, t) =>
        if task.isSuspended then some { s with transport := t, task := some task } else none
  | event =>
    -- the synchronization borrows the transport
    if s.task.isSome then none
    else
      match event with
      | .write frame wire =>
        some { s with
          transport := ((s.transport.over wire).tryWriteFrame frame).2
          counted := s.counted ++ newlyCounted s.transport frame }
      | .read wire => some { s with transport := (tryReadFrame p (s.transport.over wire)).2 }
      | .setMaxBackupSize size => some (s.modifyBackup (·.setMaxBackupSize size))
      | .freeze => some (s.modifyBackup Backup.freeze)
      | .unfreeze => some (s.modifyBackup Backup.unfreeze)
      | .synchronize => some { s with task := some (FramedTransport.synchronize stats) }
      | .tick _ => none

/-- A new transport. -/
def fresh (codec : Codec) : Usage := ⟨FramedTransport.new Wire.idle codec, none, []⟩

/-- The stored frames are the last ones of those counted, and so the ones that a synchronization
sends again are the last ones, and not received. -/
structure Numbered (b : Backup) (counted : List Frame) : Prop where
  sentCnt : b.sentCnt = counted.length
  stored : b.frames = counted.drop (counted.length - b.frameCnt)
  resent : b.frozen = false → ∀ other : Stats, other.received ≤ b.sentCnt →
    (b.truncateFront (resendCnt (statsOf b) other)).frames =
        counted.drop (counted.length - resendCnt (statsOf b) other) ∧
      other.received ≤ counted.length - resendCnt (statsOf b) other

/-- No frame with something in it is written past stored frames while the limit is zero. -/
def Meets (s : Usage) : UsageEvent → Prop
  | .write frame _ => s.transport.backup.frozen = false → s.transport.backup.maxBackupSize = 0 →
      frame.item ≠ [] → s.transport.backup.frames = []
  | _ => True

/-! ## What keeps the numbering -/

/-- The stored frames are an end of those counted. -/
structure LastCounted (b : Backup) (counted : List Frame) : Prop where
  sentCnt : b.sentCnt = counted.length
  suffix : b.frames <:+ counted

variable {b : Backup} {counted : List Frame}

theorem LastCounted.numbered (h : LastCounted b counted) : Numbered b counted := by
  obtain ⟨older, hframes⟩ := h.suffix
  have hlen : counted.length = older.length + b.frames.length := by
    rw [← hframes, List.length_append]
  refine ⟨h.sentCnt, ?_, fun hfrozen other hother => ?_⟩
  · rw [Backup.frameCnt, hlen, Nat.add_sub_cancel, ← hframes, List.drop_left' rfl]
  · have hresend : resendCnt (statsOf b) other ≤ b.frames.length := Nat.min_le_right _ _
    have hmissing : resendCnt (statsOf b) other ≤ b.sentCnt - other.received :=
      Nat.min_le_left _ _
    have hcnt := h.sentCnt
    refine ⟨?_, by omega⟩
    rw [Backup.truncateFront_frames hfrozen, ← hframes, List.drop_append]
    have hover : older.drop (counted.length - resendCnt (statsOf b) other) = [] :=
      List.drop_eq_nil_of_le (by omega)
    rw [hframes, hover, List.nil_append]
    congr 1
    omega

theorem LastCounted.congr {b' : Backup} (h : LastCounted b counted)
    (hcnt : b'.sentCnt = b.sentCnt) (hframes : b'.frames <:+ b.frames) :
    LastCounted b' counted :=
  ⟨hcnt.trans h.sentCnt, hframes.trans h.suffix⟩

theorem LastCounted.truncateFront (h : LastCounted b counted) (n : Nat) :
    LastCounted (b.truncateFront n) counted := by
  refine h.congr (b.sentCnt_truncateFront n) ?_
  cases hfrozen : b.frozen with
  | true =>
      have heq : (b.truncateFront n).frames = b.frames := by
        unfold Backup.truncateFront
        rw [if_pos hfrozen]
      exact ⟨[], heq⟩
  | false =>
      rw [Backup.truncateFront_frames hfrozen]
      exact List.drop_suffix _ _

/-- However a synchronization ends that does not panic, it counts nothing, and drops frames from
the front only. -/
theorem LastCounted.synchronized (h : LastCounted b counted) {r : Except Fault Unit}
    {b' : Backup} (hends : SyncEnds b r b') (hr : ∀ e, r ≠ .error (.panic e)) :
    LastCounted b' counted := by
  cases hends with
  | unread e => exact h
  | failed e other => exact h.truncateFront _
  | done other =>
      exact (h.truncateFront _).congr (sentCnt_catchUp _ _) ⟨[], frames_catchUp _ _⟩
  | panic e b' => exact absurd rfl (hr e)

/-- A write that counts its frame stores it, or stores nothing. -/
theorem LastCounted.write {t : FramedTransport} (h : LastCounted t.backup counted) {f : Frame}
    (hmeets : t.backup.frozen = false → t.backup.maxBackupSize = 0 → f.item ≠ [] →
      t.backup.frames = []) (wire : Wire) :
    LastCounted ((t.over wire).tryWriteFrame f).2.backup (counted ++ newlyCounted t f) := by
  cases henc : t.codec.encode t.draws f with
  | error e =>
      have hnone : newlyCounted t f = [] := by simp [newlyCounted, henc]
      rw [tryWriteFrame_of_error (t := t.over wire) henc, hnone, List.append_nil]
      exact h
  | ok g =>
      rw [(tryWriteFrame_emits (t := t.over wire) henc).2]
      show LastCounted (trackSent t.backup f) _
      by_cases hf : f.item = []
      · have hempty : f.isNonempty = false := by simp [Frame.isNonempty, Frame.isEmpty, hf]
        have hnone : newlyCounted t f = [] := by simp [newlyCounted, henc, hempty]
        rw [hnone, List.append_nil, trackSent, if_neg (by simp [hempty])]
        exact h
      · have hfull : f.isNonempty = true := (Frame.isNonempty_iff f).mpr hf
        cases hfrozen : t.backup.frozen with
        | true =>
            have hnone : newlyCounted t f = [] := by simp [newlyCounted, henc, hfrozen]
            have hsame : trackSent t.backup f = t.backup := by
              simp [trackSent, hfull, Backup.incrementSentCnt, Backup.pushFrame, hfrozen]
            rw [hnone, List.append_nil, hsame]
            exact h
        | false =>
            have hone : newlyCounted t f = [f] := by simp [newlyCounted, henc, hfull, hfrozen]
            rw [hone]
            refine ⟨?_, ?_⟩
            · rw [sentCnt_trackSent hfrozen, if_pos hfull, h.sentCnt, List.length_append]
              rfl
            · rcases Nat.eq_zero_or_pos t.backup.maxBackupSize with hzero | hpos
              -- nothing is stored, and nothing was
              · have hnil := hmeets hfrozen hzero hf
                have hframes : (trackSent t.backup f).frames = [] := by
                  simp [trackSent, hfull, Backup.pushFrame, hzero, hnil]
                rw [hframes]
                exact List.nil_suffix
              · refine (frames_trackSent_suffix hpos hfrozen hf).trans ?_
                obtain ⟨older, holder⟩ := h.suffix
                exact ⟨older, by rw [← List.append_assoc, holder]⟩

theorem LastCounted.read {t : FramedTransport} (h : LastCounted t.backup counted) (p : Profile)
    (wire : Wire) : LastCounted (tryReadFrame p (t.over wire)).2.backup counted := by
  have hstep := tryReadFrame_step p (t.over wire)
  generalize (tryReadFrame p (t.over wire)).1 = r at hstep
  generalize (tryReadFrame p (t.over wire)).2 = t' at hstep
  cases hstep with
  | frame cs reads g rest _ _ _ _ _ =>
      refine h.congr (sentCnt_trackReceived _ _) ?_
      rw [frames_trackReceived]
      exact List.suffix_rfl
  | short => exact h
  | panic => exact h

/-! ## Runs -/

/-- The environment may put the transport on another wire. -/
def Rewired (t t' : FramedTransport) : Prop := ∃ wire, t' = t.over wire

/-- The backup of a transport in no synchronization has the last frames counted, and so has the
one that a synchronization has taken and will put back. -/
def Upkept (p : Profile) (s : Usage) : Prop :=
  match s.task with
  | none => LastCounted s.transport.backup s.counted
  | some task => ∃ b, LastCounted b s.counted ∧ ∀ wire,
      task.wp (Io.poll p) Rewired (fun _ => True) (fun r t => SyncEnds b r t.backup)
        (s.transport.over wire)

variable {p : Profile} {stats : Serde Stats} {s s' : Usage}

theorem Upkept.of_idle (hidle : s.task = none) (h : LastCounted s.transport.backup s.counted) :
    Upkept p s := by
  unfold Upkept
  rwa [hidle]

theorem Upkept.lastCounted (h : Upkept p s) (hidle : s.task = none) :
    LastCounted s.transport.backup s.counted := by
  unfold Upkept at h
  rwa [hidle] at h

theorem upkept_tick {wire : Wire} (h : Upkept p s) (hstep : s.step p stats (.tick wire) = some s') :
    Upkept p s' := by
  unfold Upkept at h
  simp only [step] at hstep
  cases htask : s.task with
  | none => simp [htask] at hstep
  | some task =>
      rw [htask] at h hstep
      obtain ⟨b, hb, hwp⟩ := h
      have hnext := Async.wp_tick (hwp wire)
      simp only at hstep
      generalize task.tick (Io.poll p) (s.transport.over wire) = run at hnext hstep
      obtain ⟨task', t⟩ := run
      cases task' with
      | ret u =>
          cases hstep
          exact hb.synchronized hnext (by rintro e ⟨⟩)
      | throw fault =>
          cases fault with
          | io e =>
              cases hstep
              exact hb.synchronized hnext (by rintro e' ⟨⟩)
          | panic e => cases hstep
      | call f k => cases hstep
      | await l k =>
          cases hstep
          exact ⟨b, hb, fun wire' => Async.wp_env hnext rfl ⟨wire', rfl⟩⟩

theorem upkept_step {e : UsageEvent} (h : Upkept p s) (hmeets : s.Meets e)
    (hstep : s.step p stats e = some s') : Upkept p s' := by
  cases htask : s.task with
  | some task =>
      cases e with
      | tick wire => exact upkept_tick h hstep
      | _ => simp [step, htask] at hstep
  | none =>
      have hlast := h.lastCounted htask
      cases e with
      | tick wire => exact upkept_tick h hstep
      | write f wire =>
          simp only [step, htask] at hstep
          cases hstep
          exact Upkept.of_idle rfl (hlast.write hmeets wire)
      | read wire =>
          simp only [step, htask] at hstep
          cases hstep
          exact Upkept.of_idle rfl (hlast.read p wire)
      | setMaxBackupSize size =>
          simp only [step, htask] at hstep
          cases hstep
          exact Upkept.of_idle htask (hlast.congr (Backup.sentCnt_setMaxBackupSize _ _)
            ⟨[], Backup.frames_setMaxBackupSize _ _⟩)
      | freeze =>
          simp only [step, htask] at hstep
          cases hstep
          exact Upkept.of_idle htask (hlast.congr rfl List.suffix_rfl)
      | unfreeze =>
          simp only [step, htask] at hstep
          cases hstep
          exact Upkept.of_idle htask (hlast.congr rfl List.suffix_rfl)
      | synchronize =>
          simp only [step, htask] at hstep
          cases hstep
          exact ⟨_, hlast, fun wire => synchronize_ends stats (s.transport.over wire)⟩

def first : Frame := ⟨[1], by decide⟩

def second : Frame := ⟨[2], by decide⟩

/-- The limit becomes zero while a frame is stored, and another one is written. -/
def gap : List UsageEvent :=
  [.write first Wire.idle, .setMaxBackupSize 0, .write second Wire.idle]

/-- The limit becomes zero before anything is stored, and is lifted again. -/
def noGap : List UsageEvent :=
  [.setMaxBackupSize 0, .write first Wire.idle, .setMaxBackupSize 1, .write second Wire.idle]

end Usage

end Distant
