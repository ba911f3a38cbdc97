import Distant.Net.Io

/-!
# Synchronization

`FramedTransport.synchronize` tells the other side how many frames were sent and received, sends
again what the other side has not received, and waits for the frames that it has not received
itself. The real backup is taken out of the transport meanwhile, and put back at the end however
the synchronization ended; a synchronization that is dropped never puts it back.

`SyncPhase` lists the leaves that `synchronize` can be suspended at, with the variables that are
live there. `synchronize_step` says all that one tick can do from each of them.
-/

namespace Distant

/-- Frame counters in the form of (sent, received, available). -/
structure Stats where
  sent : Nat
  received : Nat
  available : Nat
  deriving DecidableEq, Repr

namespace FramedTransport

/-- Swaps out the backup, so that what follows does not mutate it. -/
def takeBackup : TransportM Backup := replace fun t => (t.backup, { t with backup := Backup.new })

def statsOf (backup : Backup) : Stats := ⟨backup.sentCnt, backup.receivedCnt, backup.frameCnt⟩

/-- How many frames to send again: those not received, or those available, whichever is fewer. -/
def resendCnt (own other : Stats) : Nat := min (own.sent - other.received) own.available

/-- How many frames to expect from the other side. -/
def expectedCnt (own other : Stats) : Nat := min (other.sent - own.received) other.available

def statsOrEof : Option Stats → TransportM Stats
  | some other => return other
  | none => throwIo (.new .unexpectedEof "Transport terminated before getting replay stats")

/-- Waits until the stats of the other side arrive. -/
def readStats (stats : Serde Stats) : TransportM Stats := do
  let found ← readFrameAs stats
  statsOrEof found

/-- Clears the buffers and communicates the frame counters with the other side. -/
def exchangeStats (stats : Serde Stats) (backup : Backup) : TransportM Stats := do
  modify clear
  writeFrameFor stats (statsOf backup)
  readStats stats

/-- Sends the frames, where a write that would block is an error. -/
def replay : List Frame → TransportM Unit
  | [] => return ()
  | frame :: frames => do
    Async.sync (·.tryWriteFrame frame)
    replay frames

/-- Encodes a frame that was read and queues it in the incoming data again. -/
def requeue (frame : Frame) (t : FramedTransport) : Except Fault Unit × FramedTransport :=
  match t.codec.encode t.draws frame with
  | .error e => (.error e, { t with draws := t.draws + 1 })
  | .ok encoded =>
    (.ok (), { t with draws := t.draws + 1, incoming := encoded.write t.incoming })

/-- The loop that receives the last `left` of the `expected` frames, placing their contents into
the incoming queue. -/
def receive (expected : Nat) : Nat → TransportM Unit
  | 0 => return ()
  | left + 1 => do
    match ← readFrame with
    | none =>
      throwIo (.new .unexpectedEof
        s!"Transport terminated before getting frame {expected - left}/{expected}")
    | some frame => do
      Async.sync (requeue frame)
      receive expected left

/-- Catches up the read count, as the other side can have sent more frames than it has kept. -/
def catchUp (other : Stats) (backup : Backup) : Backup :=
  if backup.receivedCnt ≠ other.sent then backup.setReceivedCnt other.sent else backup

@[simp] theorem frames_catchUp (other : Stats) (b : Backup) : (catchUp other b).frames = b.frames := by
  unfold catchUp; split <;> simp

@[simp] theorem sentCnt_catchUp (other : Stats) (b : Backup) :
    (catchUp other b).sentCnt = b.sentCnt := by
  unfold catchUp; split <;> simp

@[simp] theorem frozen_catchUp (other : Stats) (b : Backup) :
    (catchUp other b).frozen = b.frozen := by
  unfold catchUp; split <;> simp

@[simp] theorem maxBackupSize_catchUp (other : Stats) (b : Backup) :
    (catchUp other b).maxBackupSize = b.maxBackupSize := by
  unfold catchUp; split <;> simp

theorem receivedCnt_catchUp {b : Backup} (h : b.frozen = false) (other : Stats) :
    (catchUp other b).receivedCnt = other.sent := by
  unfold catchUp
  split
  · exact Backup.receivedCnt_setReceivedCnt h _
  · next heq => exact not_not.mp heq

/-- The end of `synchronizeImpl`. -/
def afterReplay (backup : Backup) (other : Stats) :
    Except IoError Unit → TransportM (Except IoError Unit × Backup)
  | .error e => return (.error e, backup)
  | .ok () => return (.ok (), catchUp other backup)

/-- `synchronizeImpl` once the other side's stats are there: drop the frames that it has received,
send the others, and receive all that are expected. -/
def afterStats (backup : Backup) :
    Except IoError Stats → TransportM (Except IoError Unit × Backup)
  | .error e => return (.error e, backup)
  | .ok other => do
    let own := statsOf backup
    let expected := expectedCnt own other
    let backup := backup.truncateFront (resendCnt own other)
    let result ← attempt do
      replay backup.frames
      flush
      receive expected expected
    afterReplay backup other result

/-- The body of `synchronize`, which mutates the backup that it is given also when it fails. -/
def synchronizeImpl (stats : Serde Stats) (backup : Backup) :
    TransportM (Except IoError Unit × Backup) := do
  let other ← attempt (exchangeStats stats backup)
  afterStats backup other

/-- Puts the backup back, and then returns what the body returned. -/
def restore : Except IoError Unit × Backup → TransportM Unit
  | (result, backup) => do
    modify fun t => { t with backup := backup }
    Async.ofExcept (result.mapError .io)

def synchronize (stats : Serde Stats) : TransportM Unit := do
  let backup ← takeBackup
  let result ← synchronizeImpl stats backup
  restore result

/-! ## The places to be suspended at -/

/-- Where a synchronization stands. `own` and `other` are the stats of the two sides, and
`backup` is the real backup as the synchronization holds it. -/
inductive SyncPhase where
  /-- not yet polled -/
  | start
  /-- about to queue the stats -/
  | write (backup : Backup) (frame : Frame)
  /-- flushing the stats -/
  | writing (backup : Backup)
  /-- waiting for the stats of the other side -/
  | stats (backup : Backup)
  /-- flushing the replayed frames -/
  | flush (own other : Stats) (backup : Backup)
  /-- waiting for a frame, with `left` more to come after it -/
  | receive (own other : Stats) (backup : Backup) (left : Nat)
  | done

namespace SyncPhase

variable (stats : Serde Stats)

/-- What is left to do. -/
def task : SyncPhase → TransportM Unit
  | start => synchronize stats
  | write backup frame =>
    attempt (writeFrame frame >>= fun _ => readStats stats) >>= afterStats backup >>= restore
  | writing backup =>
    attempt (Async.lift .writing >>= fun _ => readStats stats) >>= afterStats backup >>= restore
  | .stats backup => attempt (readStats stats) >>= afterStats backup >>= restore
  | flush own other backup =>
    attempt (FramedTransport.flush >>= fun _ =>
      FramedTransport.receive (expectedCnt own other) (expectedCnt own other)) >>=
      afterReplay backup other >>= restore
  | receive own other backup left =>
    attempt (FramedTransport.receive (expectedCnt own other) (left + 1)) >>=
      afterReplay backup other >>= restore
  | done => .ret ()

/-- What is left to do, if anything is. -/
def pending : SyncPhase → Option (TransportM Unit)
  | done => none
  | ph => some (ph.task stats)

/-- Waiting for a frame. -/
def isReading : SyncPhase → Bool
  | .stats _ => true
  | receive _ _ _ _ => true
  | _ => false

/-- The backup that the transport has, or will have back. -/
def real (ph : SyncPhase) (t : FramedTransport) : Backup :=
  match ph with
  | start => t.backup
  | write backup _ => backup
  | writing backup => backup
  | .stats backup => backup
  | flush _ _ backup => backup
  | receive _ _ backup _ => backup
  | done => t.backup

variable {stats}

theorem unit_ne_option {α : Type} (h : Unit = Option α) (a : α) : False := by
  have hsub : Subsingleton (Option α) := h ▸ inferInstanceAs (Subsingleton Unit)
  cases hsub.elim none (some a)

/-- The frames that are still to come can be told from what is left to do. -/
theorem receive_inj {expected expected' : Nat} {backup backup' : Backup} {other other' : Stats}
    {left left' : Nat}
    (h : (attempt (FramedTransport.receive expected left) >>= afterReplay backup other >>= restore) =
      (attempt (FramedTransport.receive expected' left') >>= afterReplay backup' other' >>= restore)) :
    left = left' := by
  induction left generalizing left' with
  | zero =>
      cases left' with
      | zero => rfl
      | succ left' => cases h
  | succ left ih =>
      cases left' with
      | zero => cases h
      | succ left' =>
          injection h with _ _ hk
          have hk' := congrFun hk (.ok (some Frame.empty))
          injection hk' with _ _ hk'
          have hnext := congrFun hk' (.ok ())
          rw [ih hnext]

theorem eq_receive_of_pending {ph : SyncPhase} {own other : Stats} {backup : Backup} {left : Nat}
    (h : ph.pending stats = (SyncPhase.receive own other backup left).pending stats) :
    ∃ own' other' backup', ph = .receive own' other' backup' left := by
  cases ph with
  | start => cases h
  | write b f =>
      injection h with h
      injection h with hu
      exact (unit_ne_option hu Frame.empty).elim
  | writing b =>
      injection h with h
      injection h with hu
      exact (unit_ne_option hu Frame.empty).elim
  | stats b =>
      injection h with h
      injection h with _ _ hk
      have hk' := congrFun hk (.ok none)
      injection hk' with _ _ hk'
      have hnext := congrFun hk' (.ok ())
      injection hnext with he
      injection he with he
      injection he with _ htext
      injection htext with htext
      have hchars := congrArg (fun s => (String.toList s)[36]?) htext
      simp only [String.toList_append, List.append_assoc] at hchars
      rw [List.getElem?_append_left (by decide)] at hchars
      exact absurd hchars (by decide)
  | flush own' other' b =>
      injection h with h
      injection h with hu
      exact (unit_ne_option hu Frame.empty).elim
  | receive own' other' b left' =>
      injection h with h
      have hleft := Nat.succ.inj (receive_inj h)
      exact ⟨own', other', b, by rw [hleft]⟩
  | done => cases h

end SyncPhase

/-! ## One tick -/

/-- Replaying some frames queues their encodings. -/
inductive Replays : FramedTransport → List Frame → List Frame → FramedTransport → Prop
  | nil (t) : Replays t [] [] t
  | cons {t t' t'' f fs g gs} : t.codec.encode t.draws f = .ok g → Emits t t' g.toBytes →
      t'.outgoing = [] → Replays t' fs gs t'' → Replays t (f :: fs) (g :: gs) t''

theorem Replays.emits {t t' : FramedTransport} {fs gs : List Frame} (h : Replays t fs gs t') :
    Emits t t' (Frame.encodings gs) := by
  induction h with
  | nil t => exact Emits.refl t
  | cons henc hemits _ _ ih =>
      rw [Frame.encodings_cons]
      exact hemits.trans ih

/-- Each frame is written whole before the next one is queued. -/
theorem Replays.outgoing {t t' : FramedTransport} {fs gs : List Frame} (h : Replays t fs gs t')
    (ht : t.outgoing = []) : t'.outgoing = [] := by
  induction h with
  | nil t => exact ht
  | cons _ _ hflushed _ ih => exact ih hflushed

/-- What one tick does to a synchronization that does not fail. -/
inductive SyncStep (p : Profile) (stats : Serde Stats) :
    SyncPhase → FramedTransport → SyncPhase → FramedTransport → Prop
  | start {t f} : stats.serializeToFrame (statsOf t.backup) = .ok f →
      SyncStep p stats .start t (.write t.backup f)
        { t with backup := Backup.new, incoming := [], outgoing := [] }
  /-- the transport is not ready -/
  | wait {ph t} : t.inner.ready = none → SyncStep p stats ph t ph t
  | write {backup f g ph t t'} : t.codec.encode t.draws f = .ok g → Emits t t' g.toBytes →
      ph = .writing backup ∨ (ph = .stats backup ∧ t'.outgoing = []) →
      SyncStep p stats (.write backup f) t ph t'
  /-- the codec itself says that it would block, and the frame is never queued -/
  | dropped {backup f e t} : t.codec.encode t.draws f = .error e → e.isWouldBlock = true →
      SyncStep p stats (.write backup f) t (.writing backup) { t with draws := t.draws + 1 }
  | writing {backup ph t t'} : Emits t t' [] →
      ph = .writing backup ∨ (ph = .stats backup ∧ t'.outgoing = []) →
      SyncStep p stats (.writing backup) t ph t'
  /-- no full frame has come in yet -/
  | short {ph e t t'} : ph.isReading = true → ReadStep p t (.error e) t' →
      e.isWouldBlock = true → SyncStep p stats ph t ph t'
  | stats {backup f other gs t t₁ t'} : ReadStep p t (.ok (some f)) t₁ →
      stats.deserializeFromSlice f.item = .ok other →
      Replays t₁ (backup.truncateFront (resendCnt (statsOf backup) other)).frames gs t' →
      SyncStep p stats (.stats backup) t
        (.flush (statsOf backup) other
          (backup.truncateFront (resendCnt (statsOf backup) other))) t'
  | flush {own other backup ph t t'} : Emits t t' [] →
      ph = .flush own other backup ∨ (t'.outgoing = [] ∧
        ∃ left, expectedCnt own other = left + 1 ∧ ph = .receive own other backup left) →
      SyncStep p stats (.flush own other backup) t ph t'
  | flushed {own other backup t t'} : Emits t t' [] → t'.outgoing = [] → expectedCnt own other = 0 →
      SyncStep p stats (.flush own other backup) t .done
        { t' with backup := catchUp other backup }
  | receive {own other backup left f g t t'} : ReadStep p t (.ok (some f)) t' →
      t'.codec.encode t'.draws f = .ok g →
      SyncStep p stats (.receive own other backup (left + 1)) t (.receive own other backup left)
        { t' with draws := t'.draws + 1, incoming := t'.incoming ++ g.toBytes }
  | received {own other backup f g t t'} : ReadStep p t (.ok (some f)) t' →
      t'.codec.encode t'.draws f = .ok g →
      SyncStep p stats (.receive own other backup 0) t .done
        { t' with
          draws := t'.draws + 1
          incoming := t'.incoming ++ g.toBytes
          backup := catchUp other backup }

/-- A tick failed, or went on to some phase in the way that `SyncStep` describes. -/
def Steps (p : Profile) (stats : Serde Stats) (ph : SyncPhase) (t : FramedTransport)
    (run : TransportM Unit × FramedTransport) : Prop :=
  (∃ e, run.1 = .throw e) ∨ ∃ ph', run.1 = ph'.task stats ∧ SyncStep p stats ph t ph' run.2

section Step

variable {p : Profile} {stats : Serde Stats}

/-- An error while the stats are exchanged ends in a throw, after the backup is put back. -/
theorem throws_of_exchange {α : Type} (e : Fault) (k : α → TransportM Stats) (backup : Backup)
    (t : FramedTransport) :
    ∃ e', ((attempt ((Async.ofExcept (.error e) : TransportM α) >>= k) >>= afterStats backup >>=
      restore).settle t).1 = .throw e' := by
  cases e <;> exact ⟨_, rfl⟩

/-- So does an error after that. -/
theorem throws_of_replay {α : Type} (e : Fault) (k : α → TransportM Unit) (backup : Backup)
    (other : Stats) (t : FramedTransport) :
    ∃ e', ((attempt ((Async.ofExcept (.error e) : TransportM α) >>= k) >>=
      afterReplay backup other >>= restore).settle t).1 = .throw e' := by
  cases e <;> exact ⟨_, rfl⟩

/-- A tick while the stats are exchanged polls the leaf that is waited for. -/
theorem tick_exchange {α : Type} (l : Io α) (k : α → TransportM Stats) (backup : Backup)
    (t : FramedTransport) :
    (attempt (Async.lift l >>= k) >>= afterStats backup >>= restore).tick (Io.poll p) t =
      match Io.poll p _ l t with
      | (.pending l', t') => (attempt (Async.lift l' >>= k) >>= afterStats backup >>= restore, t')
      | (.ready r, t') =>
        (attempt (Async.ofExcept r >>= k) >>= afterStats backup >>= restore).settle t' := by
  show Async.tick (Io.poll p) (Async.await l fun r =>
    attempt (Async.ofExcept r >>= k) >>= afterStats backup >>= restore) t = _
  simp only [Async.tick]
  cases Io.poll p _ l t with
  | mk r t' => cases r <;> rfl

/-- So does a tick after that. -/
theorem tick_replay {α : Type} (l : Io α) (k : α → TransportM Unit) (backup : Backup)
    (other : Stats) (t : FramedTransport) :
    (attempt (Async.lift l >>= k) >>= afterReplay backup other >>= restore).tick (Io.poll p) t =
      match Io.poll p _ l t with
      | (.pending l', t') =>
        (attempt (Async.lift l' >>= k) >>= afterReplay backup other >>= restore, t')
      | (.ready r, t') =>
        (attempt (Async.ofExcept r >>= k) >>= afterReplay backup other >>= restore).settle t' := by
  show Async.tick (Io.poll p) (Async.await l fun r =>
    attempt (Async.ofExcept r >>= k) >>= afterReplay backup other >>= restore) t = _
  simp only [Async.tick]
  cases Io.poll p _ l t with
  | mk r t' => cases r <;> rfl

theorem start_step (t : FramedTransport) :
    Steps p stats .start t ((SyncPhase.start.task stats).tick (Io.poll p) t) := by
  have hrun : (SyncPhase.start.task stats).tick (Io.poll p) t =
      (attempt (Async.ofExcept (stats.serializeToFrame (statsOf t.backup)) >>= writeFrame >>=
        fun _ => readStats stats) >>= afterStats t.backup >>= restore).settle
        { t with backup := Backup.new, incoming := [], outgoing := [] } := rfl
  rw [hrun]
  cases hser : stats.serializeToFrame (statsOf t.backup) with
  | error e => exact .inl (throws_of_exchange e _ _ _)
  | ok f => exact .inr ⟨.write t.backup f, rfl, .start hser⟩

theorem write_step (backup : Backup) (f : Frame) (t : FramedTransport) :
    Steps p stats (.write backup f) t
      (((SyncPhase.write backup f).task stats).tick (Io.poll p) t) := by
  show Steps p stats _ t ((attempt (Async.lift (.writeFrame f) >>= fun _ => readStats stats) >>=
    afterStats backup >>= restore).tick (Io.poll p) t)
  rw [tick_exchange, Io.poll_writeFrame]
  rcases Io.retry_cases (.writeFrame f) .writing (Io.writeable t) (·.tryWriteFrame f) id t with
    ⟨hready, h⟩ | ⟨e, t', h⟩ | ⟨b, t', hrun, h⟩ | ⟨e, t', hrun, he, h⟩ <;> rw [h]
  · exact .inr ⟨.write backup f, rfl, .wait (Io.ready_of_writeable hready)⟩
  · exact .inl (throws_of_exchange e _ _ _)
  · right
    refine ⟨.stats backup, rfl, ?_⟩
    cases henc : t.codec.encode t.draws f with
    | error e =>
        rw [tryWriteFrame_of_error henc] at hrun
        cases hrun
    | ok g =>
        have hemits := (tryWriteFrame_emits henc).1
        have hflushed := outgoing_of_tryWriteFrame (t := t) (f := f) (by rw [hrun])
        rw [hrun] at hemits hflushed
        exact .write henc hemits (.inr ⟨rfl, hflushed⟩)
  · right
    refine ⟨.writing backup, rfl, ?_⟩
    cases henc : t.codec.encode t.draws f with
    | error e' =>
        rw [tryWriteFrame_of_error henc] at hrun
        cases hrun
        exact .dropped henc he
    | ok g =>
        have hemits := (tryWriteFrame_emits henc).1
        rw [hrun] at hemits
        exact .write henc hemits (.inl rfl)

theorem writing_step (backup : Backup) (t : FramedTransport) :
    Steps p stats (.writing backup) t
      (((SyncPhase.writing backup).task stats).tick (Io.poll p) t) := by
  show Steps p stats _ t ((attempt (Async.lift .writing >>= fun _ => readStats stats) >>=
    afterStats backup >>= restore).tick (Io.poll p) t)
  rw [tick_exchange, Io.poll_writing]
  have hemits := tryFlush_emits t
  rcases Io.retry_cases .writing .writing (Io.writeable t) tryFlush (fun _ => ()) t with
    ⟨hready, h⟩ | ⟨e, t', h⟩ | ⟨b, t', hrun, h⟩ | ⟨e, t', hrun, he, h⟩ <;> rw [h]
  · exact .inr ⟨.writing backup, rfl, .wait (Io.ready_of_writeable hready)⟩
  · exact .inl (throws_of_exchange e _ _ _)
  · have hflushed := outgoing_of_tryFlush (t := t) (by rw [hrun])
    rw [hrun] at hemits hflushed
    exact .inr ⟨.stats backup, rfl, .writing hemits (.inr ⟨rfl, hflushed⟩)⟩
  · rw [hrun] at hemits
    exact .inr ⟨.writing backup, rfl, .writing hemits (.inl rfl)⟩

theorem replay_cons (f : Frame) (fs : List Frame) (k : Unit → TransportM Unit) (backup : Backup)
    (other : Stats) (t : FramedTransport) :
    (attempt (replay (f :: fs) >>= k) >>= afterReplay backup other >>= restore).settle t =
      (attempt (Async.ofExcept (t.tryWriteFrame f).1 >>= fun _ => replay fs >>= k) >>=
        afterReplay backup other >>= restore).settle (t.tryWriteFrame f).2 := by
  show Async.settle (attempt ((Async.ofExcept (t.tryWriteFrame f).1 >>= fun _ =>
    replay fs) >>= k) >>= _ >>= _) _ = _
  rw [Async.bind_assoc (Async.ofExcept _)]

/-- The replay loop queues every frame, or ends the synchronization with an error. -/
theorem replay_settle (frames : List Frame) (k : Unit → TransportM Unit) (backup : Backup)
    (other : Stats) (t : FramedTransport) :
    (∃ e, ((attempt (replay frames >>= k) >>= afterReplay backup other >>= restore).settle t).1 =
      .throw e) ∨
    ∃ gs t', Replays t frames gs t' ∧
      (attempt (replay frames >>= k) >>= afterReplay backup other >>= restore).settle t =
        (attempt (k ()) >>= afterReplay backup other >>= restore).settle t' := by
  induction frames generalizing t with
  | nil => exact .inr ⟨[], t, .nil t, rfl⟩
  | cons f fs ih =>
      rw [replay_cons]
      cases henc : t.codec.encode t.draws f with
      | error e =>
          rw [tryWriteFrame_of_error henc]
          exact .inl (throws_of_replay e _ _ _ _)
      | ok g =>
          have hemits := (tryWriteFrame_emits henc).1
          cases hrun : t.tryWriteFrame f with
          | mk r t₁ =>
              rw [hrun] at hemits
              cases r with
              | error e => exact .inl (throws_of_replay e _ _ _ _)
              | ok u =>
                  have hflushed := outgoing_of_tryWriteFrame (t := t) (f := f) (by rw [hrun])
                  rw [hrun] at hflushed
                  rcases ih t₁ with hthrow | ⟨gs, t', hreplays, heq⟩
                  · exact .inl hthrow
                  · exact .inr ⟨g :: gs, t', .cons henc hemits hflushed hreplays, heq⟩

theorem task_stats (backup : Backup) : (SyncPhase.stats backup).task stats =
    (attempt (Async.lift .readFrame >>= fun found => deserializeFrame stats found >>=
      statsOrEof) >>= afterStats backup >>= restore) := by
  rw [← Async.bind_assoc]
  rfl

/-- What follows once the stats of the other side are there. -/
theorem exchanged_eq {f : Frame} {other : Stats} (backup : Backup)
    (hde : stats.deserializeFromSlice f.item = .ok other) :
    (attempt (deserializeFrame stats (some f) >>= statsOrEof) >>= afterStats backup >>= restore) =
      (attempt (replay (backup.truncateFront (resendCnt (statsOf backup) other)).frames >>=
        fun _ => FramedTransport.flush >>= fun _ =>
          FramedTransport.receive (expectedCnt (statsOf backup) other)
            (expectedCnt (statsOf backup) other)) >>=
        afterReplay (backup.truncateFront (resendCnt (statsOf backup) other)) other >>= restore) := by
  rw [deserializeFrame, hde]
  rfl

theorem stats_step (backup : Backup) (t : FramedTransport) :
    Steps p stats (.stats backup) t
      (((SyncPhase.stats backup).task stats).tick (Io.poll p) t) := by
  rw [task_stats, tick_exchange, Io.poll_readFrame]
  have hread := tryReadFrame_step p t
  rcases Io.retry_cases .readFrame .readFrame (Io.readable p t) (tryReadFrame p) id t with
    ⟨hready, h⟩ | ⟨e, t', h⟩ | ⟨b, t', hrun, h⟩ | ⟨e, t', hrun, he, h⟩ <;> rw [h]
  · exact .inr ⟨.stats backup, (task_stats backup).symm, .wait (Io.ready_of_readable hready)⟩
  · exact .inl (throws_of_exchange e _ _ _)
  · rw [hrun] at hread
    cases b with
    | none => exact .inl ⟨_, rfl⟩
    | some f =>
        cases hde : stats.deserializeFromSlice f.item with
        | error e =>
            left
            have hthrow := throws_of_exchange (α := Stats) e
              (fun a => pure (some a) >>= statsOrEof) backup t'
            simpa [deserializeFrame, hde, Async.ofExcept] using hthrow
        | ok other =>
            let b' := backup.truncateFront (resendCnt (statsOf backup) other)
            show Steps p stats _ t ((attempt (deserializeFrame stats (some f) >>= statsOrEof) >>=
              afterStats backup >>= restore).settle t')
            rw [exchanged_eq backup hde]
            rcases replay_settle b'.frames _ b' other t' with hthrow | ⟨gs, t'', hreplays, heq⟩
            · exact .inl hthrow
            · right
              rw [heq]
              exact ⟨.flush (statsOf backup) other b', rfl, .stats hread hde hreplays⟩
  · rw [hrun] at hread
    exact .inr ⟨.stats backup, (task_stats backup).symm, .short rfl hread he⟩

/-- What follows a completed flush: the synchronization is over, or waits for the first frame. -/
theorem flushed_step (own other : Stats) (backup : Backup) {t t' : FramedTransport}
    (h : Emits t t' []) (hflushed : t'.outgoing = []) :
    Steps p stats (.flush own other backup) t
      ((attempt (FramedTransport.receive (expectedCnt own other) (expectedCnt own other)) >>=
        afterReplay backup other >>= restore).settle t') := by
  right
  cases hexp : expectedCnt own other with
  | zero => exact ⟨.done, rfl, .flushed h hflushed hexp⟩
  | succ left =>
      refine ⟨.receive own other backup left, ?_, .flush h (.inr ⟨hflushed, left, hexp, rfl⟩)⟩
      rw [SyncPhase.task, hexp]
      rfl

theorem flush_step (own other : Stats) (backup : Backup) (t : FramedTransport) :
    Steps p stats (.flush own other backup) t
      (((SyncPhase.flush own other backup).task stats).tick (Io.poll p) t) := by
  show Steps p stats _ t ((attempt (Async.lift .flush >>= fun _ =>
    FramedTransport.receive (expectedCnt own other) (expectedCnt own other)) >>=
    afterReplay backup other >>= restore).tick (Io.poll p) t)
  rw [tick_replay, Io.poll_flush]
  have hemits := tryFlush_emits t
  cases hempty : t.outgoing.isEmpty with
  | true => exact flushed_step own other backup (Emits.refl t) (List.isEmpty_iff.mp hempty)
  | false =>
      rw [if_neg (by simp)]
      rcases Io.retry_cases .flush .flush (Io.writeable t) tryFlush (fun _ => ()) t with
        ⟨hready, h⟩ | ⟨e, t', h⟩ | ⟨b, t', hrun, h⟩ | ⟨e, t', hrun, he, h⟩ <;> rw [h]
      · exact .inr ⟨.flush own other backup, rfl, .wait (Io.ready_of_writeable hready)⟩
      · exact .inl (throws_of_replay e _ _ _ _)
      · have hflushed := outgoing_of_tryFlush (t := t) (by rw [hrun])
        rw [hrun] at hemits hflushed
        exact flushed_step own other backup hemits hflushed
      · rw [hrun] at hemits
        exact .inr ⟨.flush own other backup, rfl, .flush hemits (.inl rfl)⟩

theorem receive_step (own other : Stats) (backup : Backup) (left : Nat) (t : FramedTransport) :
    Steps p stats (.receive own other backup left) t
      (((SyncPhase.receive own other backup left).task stats).tick (Io.poll p) t) := by
  have hread := tryReadFrame_step p t
  simp only [SyncPhase.task, FramedTransport.receive, readFrame]
  rw [tick_replay, Io.poll_readFrame]
  rcases Io.retry_cases .readFrame .readFrame (Io.readable p t) (tryReadFrame p) id t with
    ⟨hready, h⟩ | ⟨e, t', h⟩ | ⟨b, t', hrun, h⟩ | ⟨e, t', hrun, he, h⟩ <;> rw [h]
  · exact .inr ⟨.receive own other backup left, rfl, .wait (Io.ready_of_readable hready)⟩
  · exact .inl (throws_of_replay e _ _ _ _)
  · rw [hrun] at hread
    cases b with
    | none => exact .inl ⟨_, rfl⟩
    | some f =>
        show Steps p stats _ t ((attempt (Async.ofExcept (requeue f t').1 >>= fun _ =>
          FramedTransport.receive (expectedCnt own other) left) >>=
          afterReplay backup other >>= restore).settle (requeue f t').2)
        cases henc : t'.codec.encode t'.draws f with
        | error e =>
            simp only [requeue, henc]
            exact .inl (throws_of_replay e _ _ _ _)
        | ok g =>
            simp only [requeue, henc, Frame.write_eq]
            right
            cases left with
            | zero => exact ⟨.done, rfl, .received hread henc⟩
            | succ left => exact ⟨.receive own other backup left, rfl, .receive hread henc⟩
  · rw [hrun] at hread
    exact .inr ⟨.receive own other backup left, rfl, .short rfl hread he⟩

/-- All that one tick of a synchronization can do: fail, or move on as `SyncStep` says. -/
theorem synchronize_step (ph : SyncPhase) (t : FramedTransport) (h : ph ≠ .done) :
    Steps p stats ph t ((ph.task stats).tick (Io.poll p) t) := by
  cases ph with
  | start => exact start_step t
  | write backup f => exact write_step backup f t
  | writing backup => exact writing_step backup t
  | stats backup => exact stats_step backup t
  | flush own other backup => exact flush_step own other backup t
  | receive own other backup left => exact receive_step own other backup left t
  | done => exact absurd rfl h

end Step

/-! ## The end -/

/-- How a synchronization of a transport with the backup `b` can end, and with which backup. -/
inductive SyncEnds (b : Backup) : Except Fault Unit → Backup → Prop
  /-- an error before the stats of the other side are there -/
  | unread (e : IoError) : SyncEnds b (.error (.io e)) b
  /-- an error after that -/
  | failed (e : IoError) (other : Stats) :
      SyncEnds b (.error (.io e)) (b.truncateFront (resendCnt (statsOf b) other))
  | done (other : Stats) :
      SyncEnds b (.ok ()) (catchUp other (b.truncateFront (resendCnt (statsOf b) other)))
  | panic (e : Panic) (b' : Backup) : SyncEnds b (.error (.panic e)) b'

/-- How the body of a synchronization hands its backup back. -/
def ImplEnds (b : Backup) : Except Fault (Except IoError Unit × Backup) → FramedTransport → Prop
  | .ok (result, b'), _ => SyncEnds b (result.mapError .io) b'
  | .error (.io _), _ => False
  | .error (.panic _), _ => True

section End

variable {leaves : Leaves Io Fault FramedTransport} {R : FramedTransport → FramedTransport → Prop}

theorem afterStats_ends (b : Backup) (r : Except IoError Stats) (t : FramedTransport) :
    (afterStats b r).wp leaves R (fun _ => True) (ImplEnds b) t := by
  cases r with
  | error e => exact SyncEnds.unread e
  | ok other =>
      apply Async.wp_bind
      apply Async.wp_attempt
      apply Async.wp_of_forall (fun _ => trivial)
      intro r t'
      cases r with
      | ok u => exact SyncEnds.done other
      | error fault =>
          cases fault with
          | io e => exact SyncEnds.failed e other
          | panic e => trivial

theorem synchronizeImpl_ends (stats : Serde Stats) (b : Backup) (t : FramedTransport) :
    (synchronizeImpl stats b).wp leaves R (fun _ => True) (ImplEnds b) t := by
  apply Async.wp_bind
  apply Async.wp_attempt
  apply Async.wp_of_forall (fun _ => trivial)
  intro r t'
  cases r with
  | ok other => exact afterStats_ends b (.ok other) t'
  | error fault =>
      cases fault with
      | io e => exact SyncEnds.unread e
      | panic e => trivial

/-- However a synchronization that is not dropped ends, the transport has a backup again. -/
theorem synchronize_ends (stats : Serde Stats) (t : FramedTransport) :
    (synchronize stats).wp leaves R (fun _ => True) (fun r t' => SyncEnds t.backup r t'.backup)
      t := by
  apply Async.wp_bind
  apply Async.wp_sync
  show (synchronizeImpl stats t.backup >>= restore).wp leaves R _ _ _
  apply Async.wp_bind
  apply Async.wp_mono (synchronizeImpl_ends stats t.backup _)
  intro r t' h
  cases r with
  | ok result =>
      apply Async.wp_bind
      apply Async.wp_sync
      exact Async.wp_ofExcept h
  | error fault =>
      cases fault with
      | io e => exact h.elim
      | panic e => exact SyncEnds.panic e _

end End

end FramedTransport

end Distant
