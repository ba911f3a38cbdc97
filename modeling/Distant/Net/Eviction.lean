import Distant.Net.Backup

/-!
# The size tracker of the backup

`RawBackup` has the fields of `Backup` without the tie between the size tracker and the frames. Its
operations are those of the source, with the `usize` subtractions checked: one that would underflow
ends the operation with `Slip.underflow`, and so does the branch of the eviction loop that finds no
frame to remove, with `Slip.exhausted`.

`run_raw` says that neither ever happens, and that a raw run is the run of the `Backup`s whose size
tracker is tied to the frames. What an eviction leaves is a longest fit: `evict_longestFit`.
-/

namespace Distant

/-- What the operations of a backup should never come to. -/
inductive Slip where
  /-- a `usize` subtraction whose result would be negative -/
  | underflow
  /-- the eviction loop has no frame left to remove -/
  | exhausted
  deriving DecidableEq, Repr

/-- The modifications of a backup. -/
inductive BackupOp where
  | pushFrame (frame : Frame)
  | truncateFront (size : Nat)
  | clear
  | setMaxBackupSize (size : Nat)
  | setFrozen (frozen : Bool)
  | freeze
  | unfreeze
  | incrementSentCnt
  | incrementReceivedCnt
  | setReceivedCnt (cnt : Nat)
  deriving DecidableEq

/-- Of all ends of `all` that `max` has room for, `kept` is the longest. -/
structure LongestFit (max : Nat) (all kept : List Frame) : Prop where
  suffix : kept <:+ all
  fits : totalLen kept ≤ max
  longest : ∀ fs, fs <:+ all → totalLen fs ≤ max → fs <:+ kept

structure RawBackup where
  maxBackupSize : Nat
  currentBackupSize : Nat
  frames : List Frame
  sentCnt : Nat
  receivedCnt : Nat
  frozen : Bool
  deriving DecidableEq

namespace RawBackup

def new : RawBackup := ⟨MAX_BACKUP_SIZE, 0, [], 0, 0, false⟩

/-- `a - b` on `usize`. -/
def checkedSub (a b : Nat) : Except Slip Nat := if b ≤ a then .ok (a - b) else .error .underflow

/-- The loop of `push_frame`. -/
def evict (max : Nat) : Nat → List Frame → Except Slip (Nat × List Frame)
  | current, [] => if current > max then .error .exhausted else .ok (current, [])
  | current, frame :: frames =>
    if current > max then do
      let current ← checkedSub current frame.len
      evict max current frames
    else .ok (current, frame :: frames)

/-- The loop of `truncate_front`. -/
def popFront (size : Nat) : Nat → List Frame → Except Slip (Nat × List Frame)
  | current, [] => .ok (current, [])
  | current, frame :: frames =>
    if (frame :: frames).length > size then do
      let current ← checkedSub current (min frame.len current)
      popFront size current frames
    else .ok (current, frame :: frames)

def pushFrame (b : RawBackup) (frame : Frame) : Except Slip RawBackup :=
  if b.maxBackupSize > 0 ∧ b.frozen = false then do
    let kept ← evict b.maxBackupSize (b.currentBackupSize + frame.len) (b.frames ++ [frame])
    return { b with currentBackupSize := kept.1, frames := kept.2 }
  else return b

def truncateFront (b : RawBackup) (size : Nat) : Except Slip RawBackup :=
  if b.frozen then return b
  else do
    let kept ← popFront size b.currentBackupSize b.frames
    return { b with currentBackupSize := kept.1, frames := kept.2 }

/-- A modification that a frozen backup ignores. -/
def unlessFrozen (b : RawBackup) (modified : RawBackup) : RawBackup :=
  if b.frozen then b else modified

def apply (b : RawBackup) : BackupOp → Except Slip RawBackup
  | .pushFrame frame => b.pushFrame frame
  | .truncateFront size => b.truncateFront size
  | .clear =>
    return b.unlessFrozen
      { b with currentBackupSize := 0, frames := [], sentCnt := 0, receivedCnt := 0 }
  | .setMaxBackupSize size => return b.unlessFrozen { b with maxBackupSize := size }
  | .setFrozen frozen => return { b with frozen := frozen }
  | .freeze => return { b with frozen := true }
  | .unfreeze => return { b with frozen := false }
  | .incrementSentCnt => return b.unlessFrozen { b with sentCnt := b.sentCnt + 1 }
  | .incrementReceivedCnt => return b.unlessFrozen { b with receivedCnt := b.receivedCnt + 1 }
  | .setReceivedCnt cnt => return b.unlessFrozen { b with receivedCnt := cnt }

def run : List BackupOp → RawBackup → Except Slip RawBackup
  | [], b => .ok b
  | op :: ops, b => do
    let b ← b.apply op
    run ops b

/-- What is always true of a backup: the tracker is right, a push leaves what fits, and no
modification touches a frozen backup. -/
structure Sound (b : RawBackup) : Prop where
  tracked : b.currentBackupSize = totalLen b.frames
  pushed : b.frozen = false → 0 < b.maxBackupSize → ∀ frame, ∃ b', b.pushFrame frame = .ok b' ∧
    b'.currentBackupSize ≤ b.maxBackupSize ∧
    LongestFit b.maxBackupSize (b.frames ++ [frame]) b'.frames
  ignored : b.frozen = true → ∀ op b', b.apply op = .ok b' → b' = { b with frozen := b'.frozen }

end RawBackup

namespace Backup

/-- The fields of a backup. -/
def raw (b : Backup) : RawBackup :=
  ⟨b.maxBackupSize, b.currentBackupSize, b.frames, b.sentCnt, b.receivedCnt, b.frozen⟩

def apply (b : Backup) : BackupOp → Backup
  | .pushFrame frame => b.pushFrame frame
  | .truncateFront size => b.truncateFront size
  | .clear => b.clear
  | .setMaxBackupSize size => b.setMaxBackupSize size
  | .setFrozen frozen => b.setFrozen frozen
  | .freeze => b.freeze
  | .unfreeze => b.unfreeze
  | .incrementSentCnt => b.incrementSentCnt
  | .incrementReceivedCnt => b.incrementReceivedCnt
  | .setReceivedCnt cnt => b.setReceivedCnt cnt

/-! ## The checked loops are the loops -/

theorem evict_raw (max : Nat) (fs : List Frame) :
    RawBackup.evict max (totalLen fs) fs = .ok (evict max (totalLen fs) fs) := by
  induction fs with
  | nil => simp [RawBackup.evict, evict]
  | cons f fs ih =>
      rw [RawBackup.evict, evict]
      split
      · have hle : f.len ≤ totalLen (f :: fs) := by simp
        have hrest : totalLen (f :: fs) - f.len = totalLen fs := by simp
        rw [RawBackup.checkedSub, if_pos hle, hrest]
        exact ih
      · rfl

theorem popFront_raw (size : Nat) (current : Nat) (fs : List Frame) :
    RawBackup.popFront size current fs = .ok (popFront size current fs) := by
  induction fs generalizing current with
  | nil => rfl
  | cons f fs ih =>
      rw [RawBackup.popFront, popFront]
      split
      · rw [RawBackup.checkedSub, if_pos (Nat.min_le_right _ _)]
        exact ih _
      · rfl

theorem pushFrame_raw (b : Backup) (f : Frame) :
    b.raw.pushFrame f = .ok (b.pushFrame f).raw := by
  have hloop : RawBackup.evict b.maxBackupSize (b.currentBackupSize + f.len) (b.frames ++ [f]) =
      .ok (evict b.maxBackupSize (b.currentBackupSize + f.len) (b.frames ++ [f])) := by
    have hsize : b.currentBackupSize + f.len = totalLen (b.frames ++ [f]) := by
      simp [b.tracked]
    rw [hsize]
    exact evict_raw _ _
  by_cases h : b.maxBackupSize > 0 ∧ b.frozen = false
  · have hraw : b.raw.maxBackupSize > 0 ∧ b.raw.frozen = false := h
    rw [RawBackup.pushFrame, if_pos hraw, pushFrame, if_pos h]
    simp only [raw, hloop]
    rfl
  · have hraw : ¬ (b.raw.maxBackupSize > 0 ∧ b.raw.frozen = false) := h
    rw [RawBackup.pushFrame, if_neg hraw, pushFrame, if_neg h]
    rfl

theorem truncateFront_raw (b : Backup) (n : Nat) :
    b.raw.truncateFront n = .ok (b.truncateFront n).raw := by
  cases h : b.frozen with
  | true =>
      have hraw : b.raw.frozen = true := h
      rw [RawBackup.truncateFront, if_pos hraw, truncateFront, if_pos h]
      rfl
  | false =>
      have hraw : ¬ b.raw.frozen = true := by simp [raw, h]
      rw [RawBackup.truncateFront, if_neg hraw, truncateFront, if_neg (by simp [h])]
      simp only [raw, popFront_raw]
      rfl

/-- No operation slips, and the raw one does what the one on backups does. -/
theorem apply_raw (b : Backup) (op : BackupOp) : b.raw.apply op = .ok (b.apply op).raw := by
  cases op with
  | pushFrame f => exact b.pushFrame_raw f
  | truncateFront n => exact b.truncateFront_raw n
  | setFrozen x => rfl
  | freeze => rfl
  | unfreeze => rfl
  | clear | setMaxBackupSize | incrementSentCnt | incrementReceivedCnt | setReceivedCnt =>
      cases hfrozen : b.frozen <;>
        simp [RawBackup.apply, apply, RawBackup.unlessFrozen, raw, hfrozen, clear,
          setMaxBackupSize, incrementSentCnt, incrementReceivedCnt, setReceivedCnt, pure,
          Except.pure]

/-- A raw run from a backup never slips: it is the run of the backups. -/
theorem run_raw (ops : List BackupOp) (b : Backup) :
    RawBackup.run ops b.raw = .ok (ops.foldl apply b).raw := by
  induction ops generalizing b with
  | nil => rfl
  | cons op ops ih =>
      rw [RawBackup.run, apply_raw]
      exact ih (b.apply op)

/-! ## What an eviction leaves -/

/-- Popping from the front until the rest fits leaves the longest end that fits. -/
theorem evict_longestFit (max : Nat) (fs : List Frame) :
    LongestFit max fs (evict max (totalLen fs) fs).2 := by
  induction fs with
  | nil => simpa [evict] using ⟨List.suffix_rfl, by simp, fun fs h _ => h⟩
  | cons f fs ih =>
      rw [evict]
      split
      · next hover =>
          have hrest : totalLen (f :: fs) - f.len = totalLen fs := by simp
          rw [hrest]
          refine ⟨ih.suffix.trans (List.suffix_cons f fs), ih.fits, fun gs hgs hfits => ?_⟩
          rcases List.suffix_cons_iff.mp hgs with rfl | hgs
          -- the whole list does not fit
          · omega
          · exact ih.longest gs hgs hfits
      · next hfits => exact ⟨List.suffix_rfl, Nat.le_of_not_lt hfits, fun _ hgs _ => hgs⟩

/-- A frozen backup keeps all but its flag. -/
theorem apply_of_frozen {b : Backup} (h : b.frozen = true) (op : BackupOp) :
    (b.apply op).raw = { b.raw with frozen := (b.apply op).frozen } := by
  cases op <;>
    simp [apply, raw, h, pushFrame, truncateFront, clear, setMaxBackupSize, setFrozen, freeze,
      unfreeze, incrementSentCnt, incrementReceivedCnt, setReceivedCnt]

theorem raw_sound (b : Backup) : b.raw.Sound where
  tracked := b.tracked
  pushed := by
    intro hfrozen hmax f
    have hfit := evict_longestFit b.maxBackupSize (b.frames ++ [f])
    have hsize : b.currentBackupSize + f.len = totalLen (b.frames ++ [f]) := by
      simp [b.tracked]
    have hframes : (b.pushFrame f).frames =
        (evict b.maxBackupSize (totalLen (b.frames ++ [f])) (b.frames ++ [f])).2 := by
      unfold pushFrame
      rw [if_pos ⟨hmax, hfrozen⟩, ← hsize]
    refine ⟨_, b.pushFrame_raw f, ?_, ?_⟩
    · show (b.pushFrame f).currentBackupSize ≤ _
      rw [(b.pushFrame f).tracked, hframes]
      exact hfit.fits
    · show LongestFit _ _ (b.pushFrame f).frames
      rw [hframes]
      exact hfit
  ignored := by
    intro hfrozen op b' h
    rw [apply_raw] at h
    cases h
    exact apply_of_frozen hfrozen op

end Backup

/-- Whatever is done to a new backup, nothing slips and the backup is sound. -/
theorem RawBackup.sound_of_run (ops : List BackupOp) :
    ∃ b, RawBackup.run ops RawBackup.new = .ok b ∧ b.Sound :=
  ⟨_, Backup.run_raw ops Backup.new, Backup.raw_sound _⟩

end Distant
