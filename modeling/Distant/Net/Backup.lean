import Distant.Net.Frame

/-!
# The backup of sent frames

`Backup` stores outgoing frames for reuse, with counters of the frames sent and received. Every
mutation is ignored while the backup is frozen. The size tracker is tied to the stored frames by
the field `tracked`, so the `usize` subtractions of the source never underflow.

The two operations that drop frames only ever drop them from the front: `pushFrame_frames` and
`truncateFront_frames`. The counters are `Nat`s, as 2^64 frames are not sent in practice.
-/

namespace Distant

/-- Total size (in bytes) of a list of frames. -/
def totalLen (frames : List Frame) : Nat := (frames.map Frame.len).sum

@[simp] theorem totalLen_nil : totalLen [] = 0 := rfl

@[simp] theorem totalLen_cons (f : Frame) (fs : List Frame) :
    totalLen (f :: fs) = f.len + totalLen fs := by
  simp [totalLen]

@[simp] theorem totalLen_append (fs gs : List Frame) :
    totalLen (fs ++ gs) = totalLen fs + totalLen gs := by
  simp [totalLen]

/-- Maximum size (in bytes) for saved frames (256MiB). -/
def MAX_BACKUP_SIZE : Nat := 256 * 1024 * 1024

structure Backup where
  /-- maximum size (in bytes) to save frames; if 0, no frames are stored -/
  maxBackupSize : Nat
  /-- total size (in bytes) of the stored frames -/
  currentBackupSize : Nat
  /-- outgoing frames in case they need to be reused -/
  frames : List Frame
  sentCnt : Nat
  receivedCnt : Nat
  /-- whether mutations are ignored -/
  frozen : Bool
  tracked : currentBackupSize = totalLen frames
  deriving DecidableEq

namespace Backup

/-- A new, unfrozen backup. -/
def new : Backup := ⟨MAX_BACKUP_SIZE, 0, [], 0, 0, false, rfl⟩

def isFrozen (b : Backup) : Bool := b.frozen

def setFrozen (b : Backup) (frozen : Bool) : Backup := { b with frozen := frozen }

def freeze (b : Backup) : Backup := b.setFrozen true

def unfreeze (b : Backup) : Backup := b.setFrozen false

/-- Clears the backup of any stored data and resets the counters. -/
def clear (b : Backup) : Backup :=
  if b.frozen then b
  else { b with currentBackupSize := 0, frames := [], sentCnt := 0, receivedCnt := 0, tracked := rfl }

def setMaxBackupSize (b : Backup) (size : Nat) : Backup :=
  if b.frozen then b else { b with maxBackupSize := size }

def incrementSentCnt (b : Backup) : Backup :=
  if b.frozen then b else { b with sentCnt := b.sentCnt + 1 }

def incrementReceivedCnt (b : Backup) : Backup :=
  if b.frozen then b else { b with receivedCnt := b.receivedCnt + 1 }

def setReceivedCnt (b : Backup) (cnt : Nat) : Backup :=
  if b.frozen then b else { b with receivedCnt := cnt }

/-- The eviction loop of `pushFrame`: pop frames from the front while `current` exceeds `max`. -/
def evict (max : Nat) : Nat → List Frame → Nat × List Frame
  | current, [] => if current > max then (0, []) else (current, [])
  | current, f :: fs => if current > max then evict max (current - f.len) fs else (current, f :: fs)

/-- The loop of `truncateFront`: pop frames from the front while there are more than `size`. -/
def popFront (size : Nat) : Nat → List Frame → Nat × List Frame
  | current, [] => (current, [])
  | current, f :: fs =>
    if (f :: fs).length > size then popFront size (current - min f.len current) fs
    else (current, f :: fs)

theorem evict_tracked (max : Nat) (fs : List Frame) :
    (evict max (totalLen fs) fs).1 = totalLen (evict max (totalLen fs) fs).2 := by
  induction fs with
  | nil => simp [evict]
  | cons f fs ih =>
      rw [evict]
      split
      · simpa using ih
      · rfl

theorem popFront_tracked (size : Nat) (fs : List Frame) :
    (popFront size (totalLen fs) fs).1 = totalLen (popFront size (totalLen fs) fs).2 := by
  induction fs with
  | nil => rfl
  | cons f fs ih =>
      rw [popFront]
      split
      · simpa using ih
      · rfl

/-- Pushes a new frame to the end of the queue, evicting from its front what exceeds the limit. -/
def pushFrame (b : Backup) (frame : Frame) : Backup :=
  if b.maxBackupSize > 0 ∧ b.frozen = false then
    let kept := evict b.maxBackupSize (b.currentBackupSize + frame.len) (b.frames ++ [frame])
    { b with
      currentBackupSize := kept.1
      frames := kept.2
      tracked := by
        have h : b.currentBackupSize + frame.len = totalLen (b.frames ++ [frame]) := by
          simp [b.tracked]
        simp only [kept, h]
        exact evict_tracked _ _ }
  else b

def frameCnt (b : Backup) : Nat := b.frames.length

/-- Truncates the stored frames to at most `size` frames by popping from the front. -/
def truncateFront (b : Backup) (size : Nat) : Backup :=
  if b.frozen then b
  else
    let kept := popFront size b.currentBackupSize b.frames
    { b with
      currentBackupSize := kept.1
      frames := kept.2
      tracked := by
        simp only [kept, b.tracked]
        exact popFront_tracked _ _ }

/-! ## What the mutations do to each field -/

@[simp] theorem frames_incrementSentCnt (b : Backup) : b.incrementSentCnt.frames = b.frames := by
  unfold incrementSentCnt; split <;> rfl

@[simp] theorem frames_incrementReceivedCnt (b : Backup) :
    b.incrementReceivedCnt.frames = b.frames := by
  unfold incrementReceivedCnt; split <;> rfl

@[simp] theorem sentCnt_incrementReceivedCnt (b : Backup) :
    b.incrementReceivedCnt.sentCnt = b.sentCnt := by
  unfold incrementReceivedCnt; split <;> rfl

@[simp] theorem receivedCnt_incrementSentCnt (b : Backup) :
    b.incrementSentCnt.receivedCnt = b.receivedCnt := by
  unfold incrementSentCnt; split <;> rfl

@[simp] theorem frozen_incrementSentCnt (b : Backup) : b.incrementSentCnt.frozen = b.frozen := by
  unfold incrementSentCnt; split <;> rfl

@[simp] theorem frozen_incrementReceivedCnt (b : Backup) :
    b.incrementReceivedCnt.frozen = b.frozen := by
  unfold incrementReceivedCnt; split <;> rfl

theorem sentCnt_incrementSentCnt {b : Backup} (h : b.frozen = false) :
    b.incrementSentCnt.sentCnt = b.sentCnt + 1 := by
  simp [incrementSentCnt, h]

theorem receivedCnt_incrementReceivedCnt {b : Backup} (h : b.frozen = false) :
    b.incrementReceivedCnt.receivedCnt = b.receivedCnt + 1 := by
  simp [incrementReceivedCnt, h]

@[simp] theorem sentCnt_pushFrame (b : Backup) (f : Frame) :
    (b.pushFrame f).sentCnt = b.sentCnt := by
  unfold pushFrame; split <;> rfl

@[simp] theorem receivedCnt_pushFrame (b : Backup) (f : Frame) :
    (b.pushFrame f).receivedCnt = b.receivedCnt := by
  unfold pushFrame; split <;> rfl

@[simp] theorem frozen_pushFrame (b : Backup) (f : Frame) : (b.pushFrame f).frozen = b.frozen := by
  unfold pushFrame; split <;> rfl

@[simp] theorem sentCnt_truncateFront (b : Backup) (n : Nat) :
    (b.truncateFront n).sentCnt = b.sentCnt := by
  unfold truncateFront; split <;> rfl

@[simp] theorem receivedCnt_truncateFront (b : Backup) (n : Nat) :
    (b.truncateFront n).receivedCnt = b.receivedCnt := by
  unfold truncateFront; split <;> rfl

@[simp] theorem frozen_truncateFront (b : Backup) (n : Nat) :
    (b.truncateFront n).frozen = b.frozen := by
  unfold truncateFront; split <;> rfl

@[simp] theorem frames_setFrozen (b : Backup) (x : Bool) : (b.setFrozen x).frames = b.frames := rfl

@[simp] theorem sentCnt_setFrozen (b : Backup) (x : Bool) :
    (b.setFrozen x).sentCnt = b.sentCnt := rfl

@[simp] theorem frozen_setFrozen (b : Backup) (x : Bool) : (b.setFrozen x).frozen = x := rfl

@[simp] theorem frames_setMaxBackupSize (b : Backup) (n : Nat) :
    (b.setMaxBackupSize n).frames = b.frames := by
  unfold setMaxBackupSize; split <;> rfl

@[simp] theorem sentCnt_setMaxBackupSize (b : Backup) (n : Nat) :
    (b.setMaxBackupSize n).sentCnt = b.sentCnt := by
  unfold setMaxBackupSize; split <;> rfl

@[simp] theorem frames_setReceivedCnt (b : Backup) (n : Nat) :
    (b.setReceivedCnt n).frames = b.frames := by
  unfold setReceivedCnt; split <;> rfl

@[simp] theorem sentCnt_setReceivedCnt (b : Backup) (n : Nat) :
    (b.setReceivedCnt n).sentCnt = b.sentCnt := by
  unfold setReceivedCnt; split <;> rfl

@[simp] theorem frozen_setReceivedCnt (b : Backup) (n : Nat) :
    (b.setReceivedCnt n).frozen = b.frozen := by
  unfold setReceivedCnt; split <;> rfl

theorem receivedCnt_setReceivedCnt {b : Backup} (h : b.frozen = false) (n : Nat) :
    (b.setReceivedCnt n).receivedCnt = n := by
  simp [setReceivedCnt, h]

@[simp] theorem maxBackupSize_incrementSentCnt (b : Backup) :
    b.incrementSentCnt.maxBackupSize = b.maxBackupSize := by
  unfold incrementSentCnt; split <;> rfl

@[simp] theorem maxBackupSize_incrementReceivedCnt (b : Backup) :
    b.incrementReceivedCnt.maxBackupSize = b.maxBackupSize := by
  unfold incrementReceivedCnt; split <;> rfl

@[simp] theorem maxBackupSize_pushFrame (b : Backup) (f : Frame) :
    (b.pushFrame f).maxBackupSize = b.maxBackupSize := by
  unfold pushFrame; split <;> rfl

@[simp] theorem maxBackupSize_truncateFront (b : Backup) (n : Nat) :
    (b.truncateFront n).maxBackupSize = b.maxBackupSize := by
  unfold truncateFront; split <;> rfl

@[simp] theorem maxBackupSize_setReceivedCnt (b : Backup) (n : Nat) :
    (b.setReceivedCnt n).maxBackupSize = b.maxBackupSize := by
  unfold setReceivedCnt; split <;> rfl

/-! ## Frames leave from the front only -/

theorem evict_suffix (max current : Nat) (fs : List Frame) : (evict max current fs).2 <:+ fs := by
  induction fs generalizing current with
  | nil => unfold evict; split <;> exact List.suffix_rfl
  | cons f fs ih =>
      unfold evict
      split
      · exact (ih _).trans (List.suffix_cons f fs)
      · exact List.suffix_rfl

theorem popFront_frames (size current : Nat) (fs : List Frame) :
    (popFront size current fs).2 = fs.drop (fs.length - size) := by
  induction fs generalizing current with
  | nil => simp [popFront]
  | cons f fs ih =>
      unfold popFront
      split
      · next h =>
          have hlen : (f :: fs).length - size = fs.length - size + 1 := by
            simp only [List.length_cons] at h ⊢; omega
          rw [hlen, List.drop_succ_cons]
          exact ih _
      · next h => rw [Nat.sub_eq_zero_of_le (by omega), List.drop_zero]

/-- Pushing a frame keeps a suffix of the queue with that frame at its end. -/
theorem pushFrame_suffix {b : Backup} (hmax : 0 < b.maxBackupSize) (h : b.frozen = false)
    (f : Frame) : (b.pushFrame f).frames <:+ b.frames ++ [f] := by
  unfold pushFrame
  rw [if_pos ⟨hmax, h⟩]
  exact evict_suffix _ _ _

theorem truncateFront_frames {b : Backup} (h : b.frozen = false) (n : Nat) :
    (b.truncateFront n).frames = b.frames.drop (b.frames.length - n) := by
  simp [truncateFront, h, popFront_frames]

end Backup

end Distant
