import Distant.Net.Synchronize
import Distant.Server.Sessions

/-!
# Who has the backup of a session

A server keeps the entries of its sessions in a `Keychain`: the one-time password, and the receiving
end of the channel that brings the backup when the connection of the session is dropped. `Attempts`
are the runs of `Connection::server` that share one keychain. An attempt that reconnects to a
session looks the password up and takes the entry out in one go, waits for the backup, exchanges
keys and synchronizes; when one of the last two fails, it sends the backup into its own channel and
puts that into the keychain. Each wait for the lock of the keychain is a step of its own, and the
attempts move in any order.

`session` follows a session from the attempt that has begun it to the ones that go on with it, and
`took` records what an attempt took and what its other side has reported. `owned_of_run` says that a
backup never has two holders and does not get lost when an attempt fails.
-/

namespace Distant

/-- Passwords and data by id. -/
abbrev Keychain (T : Type) := ConnectionId → Option (Otp × T)

inductive KeychainResult (T : Type) where
  | ok (data : T)
  | invalidPassword
  | invalidId
  deriving DecidableEq, Repr

namespace Keychain

variable {T : Type}

/-- Stores a new key and data by an id. -/
def insert (keychain : Keychain T) (id : ConnectionId) (key : Otp) (data : T) : Keychain T :=
  Function.update keychain id (some (key, data))

/-- Takes the data out if the id exists and has this key. -/
def removeIfHasKey (keychain : Keychain T) (id : ConnectionId) (key : Otp) :
    KeychainResult T × Keychain T :=
  match keychain id with
  | some (k, data) =>
    if key = k then (.ok data, Function.update keychain id none) else (.invalidPassword, keychain)
  | none => (.invalidId, keychain)

/-- The data is taken out, or nothing changes. -/
theorem removeIfHasKey_cases (keychain : Keychain T) (id : ConnectionId) (key : Otp) :
    (∃ data, keychain id = some (key, data) ∧
      keychain.removeIfHasKey id key = (.ok data, Function.update keychain id none)) ∨
    ((∀ data, keychain id ≠ some (key, data)) ∧
      (keychain.removeIfHasKey id key = (.invalidPassword, keychain) ∨
        keychain.removeIfHasKey id key = (.invalidId, keychain))) := by
  unfold removeIfHasKey
  cases hentry : keychain id with
  | none => exact .inr ⟨fun data => by simp, .inr rfl⟩
  | some entry =>
      obtain ⟨k, data⟩ := entry
      by_cases hkey : key = k
      · subst hkey
        exact .inl ⟨data, rfl, by simp⟩
      · refine .inr ⟨fun data' h => ?_, .inl (by simp [hkey])⟩
        cases h
        exact hkey rfl

end Keychain

namespace Backup

/-- The frames that the other side has not reported as received. The last frame is the one with the
number `sentCnt`, and `reported` are its stats, if they have arrived. -/
def unreported (b : Backup) : Option Stats → List Frame
  | none => b.frames
  | some other => b.frames.drop (b.frames.length - (b.sentCnt - other.received))

/-- `b'` has all of these. -/
def Keeps (b : Backup) (reported : Option Stats) (b' : Backup) : Prop :=
  b.unreported reported <:+ b'.frames ∧ b'.frames <:+ b.frames ∧ b'.sentCnt = b.sentCnt

theorem keeps_self (b : Backup) : b.Keeps none b :=
  ⟨List.suffix_rfl, List.suffix_rfl, rfl⟩

/-- What a synchronization cuts off was reported as received. -/
theorem keeps_truncateFront (b : Backup) (other : Stats) :
    b.Keeps (some other)
      (b.truncateFront (FramedTransport.resendCnt (FramedTransport.statsOf b) other)) := by
  refine ⟨?_, ?_, by simp⟩
  · cases hfrozen : b.frozen with
    | true =>
        have hsame : ∀ n, b.truncateFront n = b := fun n => by simp [truncateFront, hfrozen]
        rw [hsame]
        exact List.drop_suffix _ _
    | false =>
        have hcnt : b.frames.length - FramedTransport.resendCnt (FramedTransport.statsOf b) other
            = b.frames.length - (b.sentCnt - other.received) := by
          simp only [FramedTransport.resendCnt, FramedTransport.statsOf, frameCnt]
          omega
        rewrite [truncateFront_frames hfrozen, hcnt]
        exact List.suffix_rfl
  · cases hfrozen : b.frozen with
    | true =>
        have hsame : ∀ n, b.truncateFront n = b := fun n => by simp [truncateFront, hfrozen]
        rewrite [hsame]
        exact List.suffix_rfl
    | false =>
        rw [truncateFront_frames hfrozen]
        exact List.drop_suffix _ _

end Backup

/-- What an attempt took out of the keychain, and the stats that were reported to it since. -/
structure Taken where
  id : ConnectionId
  otp : Otp
  backup : Backup
  reported : Option Stats

/-- Where an attempt is, with what it has in its hands. -/
inductive ServerPhase where
  /-- until the connection type is read -/
  | opening
  /-- authentication and key exchange of a new connection -/
  | verifying (id : ConnectionId)
  /-- about to look the id up -/
  | removing (id : ConnectionId) (otp : Otp)
  /-- waiting for the backup of the connection of the attempt `source` -/
  | acquiring (id : ConnectionId) (otp : Otp) (source : Nat)
  | exchanging (id : ConnectionId) (otp : Otp) (backup : Backup)
  /-- synchronizing, until the stats of the other side arrive -/
  | exchangingStats (id : ConnectionId) (otp newOtp : Otp) (backup : Backup)
  /-- synchronizing, with the stats of the other side -/
  | replaying (id : ConnectionId) (otp newOtp : Otp) (backup : Backup) (other : Stats)
  /-- has failed and sent the backup into its channel, and is about to insert that -/
  | restoring (id : ConnectionId) (otp : Otp)
  /-- has succeeded, and is about to insert its channel -/
  | storing (id : ConnectionId) (otp : Otp) (backup : Backup)
  /-- has returned the connection -/
  | connected (id : ConnectionId) (backup : Backup)
  /-- has returned an error without having taken anything -/
  | refused
  /-- has returned an error after it had taken an entry -/
  | failed
  /-- the attempt, or the connection that it has returned, was dropped -/
  | dropped
  deriving DecidableEq

namespace ServerPhase

/-- The attempt has an entry in its hands that is not in the keychain. -/
def isHolding : ServerPhase → Bool
  | acquiring .. | exchanging .. | exchangingStats .. | replaying .. | restoring .. | storing .. => true
  | _ => false

/-- The attempt has no entry yet, and has put none into the keychain. -/
def isYoung : ServerPhase → Bool
  | opening | verifying _ | removing .. => true
  | _ => false

/-- The attempt is over. -/
def isSettled : ServerPhase → Bool
  | connected .. | refused | failed | dropped => true
  | _ => false

theorem isHolding_of_isSettled {phase : ServerPhase} (h : phase.isSettled = true) :
    phase.isHolding = false := by
  cases phase <;> first | rfl | cases h

theorem isYoung_of_isSettled {phase : ServerPhase} (h : phase.isSettled = true) :
    phase.isYoung = false := by
  cases phase <;> first | rfl | cases h

end ServerPhase

structure Attempts where
  /-- how many attempts were begun -/
  spawned : Nat
  phases : Nat → ServerPhase
  /-- what the channel of each attempt brings -/
  backupRx : Nat → Oneshot Backup
  /-- the attempts whose channel it is, by their id -/
  keychain : Keychain Nat
  /-- the attempt that has begun the session -/
  session : Nat → Nat
  took : Nat → Option Taken

inductive AttemptEvent where
  | accept
  /-- the connection type is read; `drawn` is the id drawn for a new connection -/
  | connectType (k : Nat) (drawn : ConnectionId) (type : ConnectType)
  /-- an error before the connection type is read, or while a new connection is verified -/
  | fails (k : Nat)
  | verified (k : Nat) (otp : Otp) (backup : Backup)
  | remove (k : Nat)
  | acquire (k : Nat)
  /-- the new password is derived, or that fails -/
  | exchange (k : Nat) (newOtp : Option Otp)
  /-- the stats of the other side arrive, or that fails -/
  | stats (k : Nat) (other : Option Stats)
  /-- the frames are replayed and received, or that fails -/
  | replay (k : Nat) (ok : Bool)
  | insert (k : Nat)
  /-- frames are sent and received over a connection, which changes its backup -/
  | frames (k : Nat) (backup : Backup)
  /-- a connection is dropped -/
  | close (k : Nat)
  /-- an attempt is dropped, as the server shuts down -/
  | drop (k : Nat)

namespace Attempts

def new : Attempts where
  spawned := 0
  phases := fun _ => .dropped
  backupRx := fun _ => .closed
  keychain := fun _ => none
  session := id
  took := fun _ => none

def setPhase (s : Attempts) (k : Nat) (phase : ServerPhase) : Attempts :=
  { s with phases := Function.update s.phases k phase }

def setBackupRx (s : Attempts) (k : Nat) (backup : Oneshot Backup) : Attempts :=
  { s with backupRx := Function.update s.backupRx k backup }

def setTook (s : Attempts) (k : Nat) (taken : Option Taken) : Attempts :=
  { s with took := Function.update s.took k taken }

/-- The attempt is over, and its channel with it. -/
def endAttempt (s : Attempts) (k : Nat) (phase : ServerPhase) : Attempts :=
  (s.setPhase k phase).setBackupRx k .closed

/-- The first half of the macro `unwrap_or_fail!`, up to the insertion. -/
def restore (s : Attempts) (k : Nat) (id : ConnectionId) (otp : Otp) (backup : Backup) : Attempts :=
  (s.setPhase k (.restoring id otp)).setBackupRx k (.sent backup)

/-- The attempt has a backup. -/
def acquired (s : Attempts) (k : Nat) (id : ConnectionId) (otp : Otp) (backup : Backup) : Attempts :=
  (s.setPhase k (.exchanging id otp backup)).setTook k (some ⟨id, otp, backup, none⟩)

open FramedTransport in
/-- One step of the attempts. -/
def step (s : Attempts) : AttemptEvent → Option Attempts
  | .accept =>
    some { (s.setPhase s.spawned .opening).setBackupRx s.spawned .pending with
      spawned := s.spawned + 1 }
  | .connectType k drawn type =>
    match s.phases k with
    | .opening =>
      match type with
      | .connect => some (s.setPhase k (.verifying drawn))
      | .reconnect id otp => some (s.setPhase k (.removing id otp))
    | _ => none
  | .fails k =>
    match s.phases k with
    | .opening => some (s.endAttempt k .refused)
    | .verifying _ => some (s.endAttempt k .refused)
    | _ => none
  | .verified k otp backup =>
    match s.phases k with
    | .verifying id => some (s.setPhase k (.storing id otp backup))
    | _ => none
  | .remove k =>
    match s.phases k with
    | .removing id otp =>
      match s.keychain.removeIfHasKey id otp with
      | (.ok source, keychain) =>
        some ({ s with
          keychain := keychain
          session := Function.update s.session k (s.session source) }.setPhase k
            (.acquiring id otp source))
      | (.invalidPassword, keychain) => some ({ s with keychain := keychain }.endAttempt k .refused)
      | (.invalidId, keychain) => some ({ s with keychain := keychain }.endAttempt k .refused)
    | _ => none
  | .acquire k =>
    match s.phases k with
    | .acquiring id otp source =>
      match s.backupRx source with
      | .pending => none
      | .sent backup => some ((s.setBackupRx source .closed).acquired k id otp backup)
      -- missing backup, will use fresh copy
      | .closed => some (s.acquired k id otp Backup.new)
    | _ => none
  | .exchange k newOtp =>
    match s.phases k with
    | .exchanging id otp backup =>
      match newOtp with
      | some newOtp => some (s.setPhase k (.exchangingStats id otp newOtp backup))
      | none => some (s.restore k id otp backup)
    | _ => none
  | .stats k other =>
    match s.phases k with
    | .exchangingStats id otp newOtp backup =>
      match other with
      | some other =>
        some ((s.setPhase k (.replaying id otp newOtp
          (backup.truncateFront (resendCnt (statsOf backup) other)) other)).setTook k
            ((s.took k).map fun taken => { taken with reported := some other }))
      | none => some (s.restore k id otp backup)
    | _ => none
  | .replay k ok =>
    match s.phases k with
    | .replaying id otp newOtp backup other =>
      if ok then some (s.setPhase k (.storing id newOtp (catchUp other backup)))
      else some (s.restore k id otp backup)
    | _ => none
  | .insert k =>
    match s.phases k with
    | .restoring id otp =>
      some ({ s with keychain := s.keychain.insert id otp k }.setPhase k .failed)
    | .storing id otp backup =>
      some ({ s with keychain := s.keychain.insert id otp k }.setPhase k (.connected id backup))
    | _ => none
  | .frames k backup =>
    match s.phases k with
    | .connected id _ => some (s.setPhase k (.connected id backup))
    | _ => none
  | .close k =>
    match s.phases k with
    | .connected _ backup => some ((s.setPhase k .dropped).setBackupRx k (.sent backup))
    | _ => none
  | .drop k =>
    if (s.phases k).isSettled then none else some (s.endAttempt k .dropped)

/-! ## What a step can do -/

open FramedTransport in
/-- The steps, one constructor for each way that an attempt can go on. -/
inductive Turn (s : Attempts) : AttemptEvent → Attempts → Prop where
  | accept : Turn s .accept
      { (s.setPhase s.spawned .opening).setBackupRx s.spawned .pending with
        spawned := s.spawned + 1 }
  | connecting {k drawn} (hphase : s.phases k = .opening) :
      Turn s (.connectType k drawn .connect) (s.setPhase k (.verifying drawn))
  | reconnecting {k drawn id otp} (hphase : s.phases k = .opening) :
      Turn s (.connectType k drawn (.reconnect id otp)) (s.setPhase k (.removing id otp))
  | fails {k} (hphase : s.phases k = .opening ∨ ∃ id, s.phases k = .verifying id) :
      Turn s (.fails k) (s.endAttempt k .refused)
  | verified {k id otp backup} (hphase : s.phases k = .verifying id) :
      Turn s (.verified k otp backup) (s.setPhase k (.storing id otp backup))
  | removed {k id otp source} (hphase : s.phases k = .removing id otp)
      (hentry : s.keychain id = some (otp, source)) :
      Turn s (.remove k) ({ s with
        keychain := Function.update s.keychain id none
        session := Function.update s.session k (s.session source) }.setPhase k
          (.acquiring id otp source))
  | refused {k id otp} (hphase : s.phases k = .removing id otp)
      (hentry : ∀ source, s.keychain id ≠ some (otp, source)) :
      Turn s (.remove k) (s.endAttempt k .refused)
  | acquired {k id otp source backup} (hphase : s.phases k = .acquiring id otp source)
      (hsent : s.backupRx source = .sent backup) :
      Turn s (.acquire k) ((s.setBackupRx source .closed).acquired k id otp backup)
  | missing {k id otp source} (hphase : s.phases k = .acquiring id otp source)
      (hclosed : s.backupRx source = .closed) :
      Turn s (.acquire k) (s.acquired k id otp Backup.new)
  | exchanged {k id otp backup newOtp} (hphase : s.phases k = .exchanging id otp backup) :
      Turn s (.exchange k (some newOtp)) (s.setPhase k (.exchangingStats id otp newOtp backup))
  | notExchanged {k id otp backup} (hphase : s.phases k = .exchanging id otp backup) :
      Turn s (.exchange k none) (s.restore k id otp backup)
  | reported {k id otp newOtp backup other}
      (hphase : s.phases k = .exchangingStats id otp newOtp backup) :
      Turn s (.stats k (some other))
        ((s.setPhase k (.replaying id otp newOtp
          (backup.truncateFront (resendCnt (statsOf backup) other)) other)).setTook k
            ((s.took k).map fun taken => { taken with reported := some other }))
  | notReported {k id otp newOtp backup}
      (hphase : s.phases k = .exchangingStats id otp newOtp backup) :
      Turn s (.stats k none) (s.restore k id otp backup)
  | replayed {k id otp newOtp backup other}
      (hphase : s.phases k = .replaying id otp newOtp backup other) :
      Turn s (.replay k true) (s.setPhase k (.storing id newOtp (catchUp other backup)))
  | notReplayed {k id otp newOtp backup other}
      (hphase : s.phases k = .replaying id otp newOtp backup other) :
      Turn s (.replay k false) (s.restore k id otp backup)
  | restored {k id otp} (hphase : s.phases k = .restoring id otp) :
      Turn s (.insert k) ({ s with keychain := s.keychain.insert id otp k }.setPhase k .failed)
  | stored {k id otp backup} (hphase : s.phases k = .storing id otp backup) :
      Turn s (.insert k)
        ({ s with keychain := s.keychain.insert id otp k }.setPhase k (.connected id backup))
  | frames {k id backup backup'} (hphase : s.phases k = .connected id backup) :
      Turn s (.frames k backup') (s.setPhase k (.connected id backup'))
  | close {k id backup} (hphase : s.phases k = .connected id backup) :
      Turn s (.close k) ((s.setPhase k .dropped).setBackupRx k (.sent backup))
  | drop {k} (hphase : (s.phases k).isSettled = false) :
      Turn s (.drop k) (s.endAttempt k .dropped)

variable {s s' : Attempts}

theorem turn_of_remove {k : Nat} {id : ConnectionId} {otp : Otp}
    (hphase : s.phases k = .removing id otp) (h : s.step (.remove k) = some s') :
    Turn s (.remove k) s' := by
  unfold step at h
  simp only [hphase] at h
  rcases s.keychain.removeIfHasKey_cases id otp with
    ⟨source, hentry, hremove⟩ | ⟨hentry, hremove | hremove⟩ <;> rw [hremove] at h <;> cases h
  · exact .removed hphase hentry
  · exact .refused hphase hentry
  · exact .refused hphase hentry

theorem turn_of_step {e : AttemptEvent} (h : s.step e = some s') : Turn s e s' := by
  unfold step at h
  cases e
  case accept => cases h; exact .accept
  case connectType k drawn type =>
    simp only at h
    split at h
    · split at h <;> cases h
      · exact .connecting ‹_›
      · exact .reconnecting ‹_›
    · cases h
  case fails k =>
    simp only at h
    split at h <;> cases h
    · exact .fails (.inl ‹_›)
    · exact .fails (.inr ⟨_, ‹_›⟩)
  case verified k otp backup =>
    simp only at h
    split at h <;> cases h
    exact .verified ‹_›
  case remove k =>
    have hphase : ∃ id otp, s.phases k = .removing id otp := by
      simp only at h
      split at h
      · exact ⟨_, _, ‹_›⟩
      · cases h
    obtain ⟨id, otp, hphase⟩ := hphase
    exact turn_of_remove hphase h
  case acquire k =>
    simp only at h
    split at h
    · split at h <;> cases h
      · exact .acquired ‹_› ‹_›
      · exact .missing ‹_› ‹_›
    · cases h
  case exchange k newOtp =>
    simp only at h
    split at h
    · split at h <;> cases h
      · exact .exchanged ‹_›
      · exact .notExchanged ‹_›
    · cases h
  case stats k other =>
    simp only at h
    split at h
    · split at h <;> cases h
      · exact .reported ‹_›
      · exact .notReported ‹_›
    · cases h
  case replay k ok =>
    simp only at h
    split at h
    · split at h <;> cases h
      · next hok => subst hok; exact .replayed ‹_›
      · next hok =>
          obtain rfl : ok = false := by simpa using hok
          exact .notReplayed ‹_›
    · cases h
  case insert k =>
    simp only at h
    split at h <;> cases h
    · exact .restored ‹_›
    · exact .stored ‹_›
  case frames k backup =>
    simp only at h
    split at h <;> cases h
    exact .frames ‹_›
  case close k =>
    simp only at h
    split at h <;> cases h
    exact .close ‹_›
  case drop k =>
    simp only at h
    split at h
    · cases h
    · next hsettled =>
        cases h
        exact .drop (by simpa using hsettled)

/-! ## Holding a backup -/

/-- Who can have the backup of a session. An entry of the keychain has it through its channel. -/
inductive Holder where
  | keychain (id : ConnectionId)
  | attempt (k : Nat)
  deriving DecidableEq

def Holds (s : Attempts) (session : Nat) : Holder → Prop
  | .keychain id => ∃ otp k, s.keychain id = some (otp, k) ∧ s.session k = session
  | .attempt k => (s.phases k).isHolding = true ∧ s.session k = session

/-- No session's backup has two holders. -/
def Exclusive (s : Attempts) : Prop :=
  ∀ session h h', s.Holds session h → s.Holds session h' → h = h'

/-- The holders after a step stand for different holders before it. -/
theorem Exclusive.of_map (h : s.Exclusive) (f : Holder → Holder)
    (hf : ∀ session x, s'.Holds session x → s.Holds session (f x))
    (hinj : ∀ session x y, s'.Holds session x → s'.Holds session y → f x = f y → x = y) :
    s'.Exclusive :=
  fun session x y hx hy =>
    hinj session x y hx hy (h session (f x) (f y) (hf session x hx) (hf session y hy))

/-- What holds of the attempts at all times. -/
structure Inv (s : Attempts) : Prop where
  exclusive : s.Exclusive
  /-- an entry of the keychain is that of an attempt that is over -/
  entry : ∀ id otp k, s.keychain id = some (otp, k) → k < s.spawned ∧ (s.phases k).isSettled = true
  /-- so is one that was taken out -/
  source : ∀ k id otp j, s.phases k = .acquiring id otp j →
    j < s.spawned ∧ (s.phases j).isSettled = true
  late : ∀ k, s.spawned ≤ k → s.phases k = .dropped
  /-- an attempt that has no entry yet is the only one of its session -/
  own : ∀ k, (s.phases k).isYoung = true ∨ s.spawned ≤ k → ∀ j, s.session j = k ↔ j = k

theorem inv_new : new.Inv where
  exclusive := by
    intro session x y hx hy
    cases x with
    | keychain id =>
        obtain ⟨otp, k, hentry, -⟩ := hx
        cases hentry
    | attempt k => cases hx.1
  entry := fun id otp k h => by cases h
  source := fun k id otp j h => by cases h
  late := fun k _ => rfl
  own := fun k _ j => Iff.rfl

theorem Inv.lt (h : s.Inv) {k : Nat} (hphase : s.phases k ≠ .dropped) : k < s.spawned :=
  Nat.lt_of_not_le fun hle => hphase (h.late k hle)

theorem phases_setPhase (s : Attempts) (k j : Nat) (phase : ServerPhase) :
    (s.setPhase k phase).phases j = if j = k then phase else s.phases j :=
  Function.update_apply ..

/-- A step of an attempt that leaves the keychain alone. -/
theorem Inv.setPhase_of_exclusive (h : s.Inv) {k : Nat} {phase : ServerPhase}
    (hlive : s.phases k ≠ .dropped) (hexclusive : (s.setPhase k phase).Exclusive)
    (hyoung : phase.isYoung = true → (s.phases k).isYoung = true)
    (hsettled : (s.phases k).isSettled = true → phase.isSettled = true)
    (hacquiring : ∀ id otp j, phase ≠ .acquiring id otp j) : (s.setPhase k phase).Inv := by
  have hkeeps : ∀ j, (s.phases j).isSettled = true →
      ((s.setPhase k phase).phases j).isSettled = true := by
    intro j hj
    rw [phases_setPhase]
    split
    · next heq =>
        subst heq
        exact hsettled hj
    · exact hj
  refine ⟨hexclusive, ?_, ?_, ?_, ?_⟩
  · intro i otp j hentry
    exact ⟨(h.entry i otp j hentry).1, hkeeps j (h.entry i otp j hentry).2⟩
  · intro j i otp source hphase
    rw [phases_setPhase] at hphase
    split at hphase
    · exact absurd hphase (hacquiring i otp source)
    · exact ⟨(h.source j i otp source hphase).1, hkeeps source (h.source j i otp source hphase).2⟩
  · intro j hle
    rw [phases_setPhase, if_neg (Nat.ne_of_gt (Nat.lt_of_lt_of_le (h.lt hlive) hle))]
    exact h.late j hle
  · intro j hj
    apply h.own j
    rcases hj with hj | hj
    · rw [phases_setPhase] at hj
      split at hj
      · next heq =>
          subst heq
          exact .inl (hyoung hj)
      · exact .inl hj
    · exact .inr hj

/-- A step of an attempt that gives it nothing. -/
theorem Inv.setPhase (h : s.Inv) {k : Nat} {phase : ServerPhase} (hlive : s.phases k ≠ .dropped)
    (hholding : phase.isHolding = true → (s.phases k).isHolding = true)
    (hyoung : phase.isYoung = true → (s.phases k).isYoung = true)
    (hsettled : (s.phases k).isSettled = true → phase.isSettled = true)
    (hacquiring : ∀ id otp j, phase ≠ .acquiring id otp j) : (s.setPhase k phase).Inv := by
  apply h.setPhase_of_exclusive hlive _ hyoung hsettled hacquiring
  apply h.exclusive.of_map id _ fun _ _ _ _ _ heq => heq
  intro session x hx
  cases x with
  | keychain i => exact hx
  | attempt j =>
      refine ⟨?_, hx.2⟩
      have hj := hx.1
      rw [phases_setPhase] at hj
      split at hj
      · next heq =>
          subst heq
          exact hholding hj
      · exact hj

/-- What the channels bring does not matter. -/
theorem Inv.setBackupRx (h : s.Inv) {k : Nat} {backup : Oneshot Backup} :
    (s.setBackupRx k backup).Inv :=
  ⟨h.exclusive, h.entry, h.source, h.late, h.own⟩

theorem Inv.setTook (h : s.Inv) {k : Nat} {taken : Option Taken} : (s.setTook k taken).Inv :=
  ⟨h.exclusive, h.entry, h.source, h.late, h.own⟩

theorem Inv.accept (h : s.Inv) :
    Inv { (s.setPhase s.spawned .opening).setBackupRx s.spawned .pending with
      spawned := s.spawned + 1 } := by
  have hsame : ∀ j, j < s.spawned → (s.setPhase s.spawned .opening).phases j = s.phases j := by
    intro j hj
    rw [phases_setPhase, if_neg (Nat.ne_of_lt hj)]
  refine ⟨h.exclusive.of_map id ?_ fun _ _ _ _ _ heq => heq, ?_, ?_, ?_, ?_⟩
  · intro session x hx
    cases x with
    | keychain i => exact hx
    | attempt j =>
        refine ⟨?_, hx.2⟩
        have hj : ((s.setPhase s.spawned .opening).phases j).isHolding = true := hx.1
        rw [phases_setPhase] at hj
        split at hj
        · cases hj
        · exact hj
  · intro i otp j hentry
    obtain ⟨hlt, hsettled⟩ := h.entry i otp j hentry
    refine ⟨Nat.lt_succ_of_lt hlt, ?_⟩
    show ((s.setPhase s.spawned .opening).phases j).isSettled = true
    rw [hsame j hlt]
    exact hsettled
  · intro j i otp source hphase
    have hphase : (s.setPhase s.spawned .opening).phases j = .acquiring i otp source := hphase
    rw [phases_setPhase] at hphase
    split at hphase
    · cases hphase
    · obtain ⟨hlt, hsettled⟩ := h.source j i otp source hphase
      refine ⟨Nat.lt_succ_of_lt hlt, ?_⟩
      show ((s.setPhase s.spawned .opening).phases source).isSettled = true
      rw [hsame source hlt]
      exact hsettled
  · intro j hle
    show (s.setPhase s.spawned .opening).phases j = .dropped
    rw [phases_setPhase, if_neg (Nat.ne_of_gt hle)]
    exact h.late j (Nat.le_of_succ_le hle)
  · intro j hj
    apply h.own j
    rcases hj with hj | hj
    · have hj : ((s.setPhase s.spawned .opening).phases j).isYoung = true := hj
      rw [phases_setPhase] at hj
      split at hj
      · next heq => exact .inr (Nat.le_of_eq heq.symm)
      · exact .inl hj
    · exact .inr (Nat.le_of_succ_le hj)

/-- A new session is that of no other attempt. -/
theorem Inv.verified (h : s.Inv) {k : Nat} {id : ConnectionId} {otp : Otp} {backup : Backup}
    (hphase : s.phases k = .verifying id) : (s.setPhase k (.storing id otp backup)).Inv := by
  have hyoung : (s.phases k).isYoung = true := by rw [hphase]; rfl
  -- whatever else has the session of the attempt is the attempt
  have hother : ∀ x, (s.setPhase k (.storing id otp backup)).Holds k x → x = .attempt k := by
    intro x hx
    cases x with
    | keychain i =>
        obtain ⟨otp', j, hentry, hsession⟩ := hx
        obtain rfl : j = k := (h.own k (.inl hyoung) j).mp hsession
        have hsettled := (h.entry i otp' j hentry).2
        rw [hphase] at hsettled
        cases hsettled
    | attempt j => exact congrArg Holder.attempt ((h.own k (.inl hyoung) j).mp hx.2)
  apply h.setPhase_of_exclusive
  · rw [hphase]
    exact fun h => by cases h
  · intro session x y hx hy
    by_cases hk : session = k
    · subst hk
      rw [hother x hx, hother y hy]
    · have hbefore : ∀ z, (s.setPhase k (.storing id otp backup)).Holds session z →
          s.Holds session z := by
        intro z hz
        cases z with
        | keychain i => exact hz
        | attempt j =>
            have hne : j ≠ k := by
              intro heq
              subst heq
              exact hk (hz.2.symm.trans ((h.own j (.inl hyoung) j).mpr rfl))
            have hj := hz.1
            rw [phases_setPhase, if_neg hne] at hj
            exact ⟨hj, hz.2⟩
      exact h.exclusive session x y (hbefore x hx) (hbefore y hy)
  · exact fun _ => hyoung
  · rw [hphase]
    exact fun h => by cases h
  · exact fun _ _ _ h => by cases h

/-- The attempt takes the place of the entry that it takes. -/
theorem Inv.removed (h : s.Inv) {k source : Nat} {id : ConnectionId} {otp : Otp}
    (hphase : s.phases k = .removing id otp) (hentry : s.keychain id = some (otp, source)) :
    Inv ({ s with
      keychain := Function.update s.keychain id none
      session := Function.update s.session k (s.session source) }.setPhase k
        (.acquiring id otp source)) := by
  have hyoung : (s.phases k).isYoung = true := by rw [hphase]; rfl
  have hlt : k < s.spawned := h.lt (by rw [hphase]; exact fun h => by cases h)
  have hne : ∀ j, (s.phases j).isSettled = true → j ≠ k := by
    intro j hj heq
    subst heq
    rw [hphase] at hj
    cases hj
  have hkeychain : ∀ i otp' j, Function.update s.keychain id none i = some (otp', j) →
      i ≠ id ∧ s.keychain i = some (otp', j) := by
    intro i otp' j hi
    rw [Function.update_apply] at hi
    split at hi
    · cases hi
    · exact ⟨‹_›, hi⟩
  refine ⟨?_, ?_, ?_, ?_, ?_⟩
  · let f : Holder → Holder := fun x => if x = .attempt k then .keychain id else x
    apply h.exclusive.of_map f
    · intro session x hx
      cases x with
      | keychain i =>
          obtain ⟨otp', j, hi, hsession⟩ := hx
          have hold := (hkeychain i otp' j hi).2
          have hsession : Function.update s.session k (s.session source) j = session := hsession
          rw [Function.update_of_ne (hne j (h.entry i otp' j hold).2)] at hsession
          exact ⟨otp', j, hold, hsession⟩
      | attempt j =>
          have hsession : Function.update s.session k (s.session source) j = session := hx.2
          by_cases hj : j = k
          · subst hj
            rw [Function.update_self] at hsession
            simp only [f, if_true]
            exact ⟨otp, source, hentry, hsession⟩
          · rw [Function.update_of_ne hj] at hsession
            have hholding := hx.1
            rw [phases_setPhase, if_neg hj] at hholding
            simp only [f, Holder.attempt.injEq, if_neg hj]
            exact ⟨hholding, hsession⟩
    · -- the entry itself is gone
      have hgone : ∀ session x, Holds ({ s with
          keychain := Function.update s.keychain id none
          session := Function.update s.session k (s.session source) }.setPhase k
            (.acquiring id otp source)) session x → x ≠ .keychain id := by
        rintro session x hx rfl
        obtain ⟨otp', j, hi, -⟩ := hx
        exact (hkeychain id otp' j hi).1 rfl
      intro session x y hx hy heq
      have hx' := hgone session x hx
      have hy' := hgone session y hy
      simp only [f] at heq
      grind
  · intro i otp' j hi
    have hold := (hkeychain i otp' j hi).2
    obtain ⟨hlt, hsettled⟩ := h.entry i otp' j hold
    rw [phases_setPhase, if_neg (hne j hsettled)]
    exact ⟨hlt, hsettled⟩
  · intro j i otp' source' hj
    rw [phases_setPhase] at hj
    have hsource : source' < s.spawned ∧ (s.phases source').isSettled = true := by
      split at hj
      · cases hj
        exact h.entry id otp source hentry
      · exact h.source j i otp' source' hj
    rw [phases_setPhase, if_neg (hne source' hsource.2)]
    exact hsource
  · intro j hle
    rw [phases_setPhase, if_neg (Nat.ne_of_gt (Nat.lt_of_lt_of_le hlt hle))]
    exact h.late j hle
  · intro j hj i
    have hjk : j ≠ k := by
      rintro rfl
      rcases hj with hj | hj
      · rw [phases_setPhase, if_pos rfl] at hj
        cases hj
      · exact Nat.lt_irrefl _ (Nat.lt_of_lt_of_le hlt hj)
    have hown : (s.phases j).isYoung = true ∨ s.spawned ≤ j := by
      rw [phases_setPhase, if_neg hjk] at hj
      exact hj
    show Function.update s.session k (s.session source) i = j ↔ i = j
    by_cases hik : i = k
    · subst hik
      rw [Function.update_self]
      refine ⟨fun heq => ?_, fun heq => absurd heq.symm hjk⟩
      -- the session that is gone on with is not that of an attempt without an entry
      obtain rfl := (h.own j hown source).mp heq
      obtain ⟨hlt, hsettled⟩ := h.entry id otp source hentry
      rcases hown with hyoung | hle
      · rw [ServerPhase.isYoung_of_isSettled hsettled] at hyoung
        cases hyoung
      · omega
    · rw [Function.update_of_ne hik]
      exact h.own j hown i

/-- The entry takes the place of the attempt that puts it into the keychain. -/
theorem Inv.inserted (h : s.Inv) {k : Nat} {id : ConnectionId} {otp : Otp} {phase : ServerPhase}
    (hholding : (s.phases k).isHolding = true) (hsettled : phase.isSettled = true) :
    Inv ({ s with keychain := s.keychain.insert id otp k }.setPhase k phase) := by
  have hphase : ∀ j, (s.phases j).isSettled = true → j ≠ k := by
    rintro j hj rfl
    rw [ServerPhase.isHolding_of_isSettled hj] at hholding
    cases hholding
  have hlt : k < s.spawned := h.lt fun hdropped => by
    rw [hdropped] at hholding
    cases hholding
  have hkeychain : ∀ i otp' j, s.keychain.insert id otp k i = some (otp', j) →
      (i = id ∧ j = k) ∨ (i ≠ id ∧ s.keychain i = some (otp', j)) := by
    intro i otp' j hi
    rw [Keychain.insert, Function.update_apply] at hi
    split at hi
    · cases hi
      exact .inl ⟨‹_›, rfl⟩
    · exact .inr ⟨‹_›, hi⟩
  have hphases : ∀ j, j ≠ k → (({ s with keychain := s.keychain.insert id otp k } :
      Attempts).setPhase k phase).phases j = s.phases j := by
    intro j hj
    rw [phases_setPhase, if_neg hj]
  refine ⟨?_, ?_, ?_, ?_, ?_⟩
  · let f : Holder → Holder := fun x => if x = .keychain id then .attempt k else x
    apply h.exclusive.of_map f
    · intro session x hx
      cases x with
      | keychain i =>
          obtain ⟨otp', j, hi, hsession⟩ := hx
          rcases hkeychain i otp' j hi with ⟨rfl, rfl⟩ | ⟨hne, hold⟩
          · simp only [f, if_true]
            exact ⟨hholding, hsession⟩
          · simp only [f, Holder.keychain.injEq, if_neg hne]
            exact ⟨otp', j, hold, hsession⟩
      | attempt j =>
          have hj := hx.1
          rw [phases_setPhase] at hj
          split at hj
          · rw [ServerPhase.isHolding_of_isSettled hsettled] at hj
            cases hj
          · exact ⟨hj, hx.2⟩
    · have hgone : ∀ session x, Holds ({ s with
          keychain := s.keychain.insert id otp k }.setPhase k phase) session x →
          x ≠ .attempt k := by
        rintro session x hx rfl
        have hk := hx.1
        rw [phases_setPhase, if_pos rfl, ServerPhase.isHolding_of_isSettled hsettled] at hk
        cases hk
      intro session x y hx hy heq
      have hx' := hgone session x hx
      have hy' := hgone session y hy
      simp only [f] at heq
      grind
  · intro i otp' j hi
    rcases hkeychain i otp' j hi with ⟨-, rfl⟩ | ⟨-, hold⟩
    · rw [phases_setPhase, if_pos rfl]
      exact ⟨hlt, hsettled⟩
    · obtain ⟨hlt, hj⟩ := h.entry i otp' j hold
      rw [hphases j (hphase j hj)]
      exact ⟨hlt, hj⟩
  · intro j i otp' source hj
    rw [phases_setPhase] at hj
    split at hj
    · rw [hj] at hsettled
      cases hsettled
    · obtain ⟨hlt, hsource⟩ := h.source j i otp' source hj
      rw [hphases source (hphase source hsource)]
      exact ⟨hlt, hsource⟩
  · intro j hle
    rw [hphases j (Nat.ne_of_gt (Nat.lt_of_lt_of_le hlt hle))]
    exact h.late j hle
  · intro j hj
    apply h.own j
    rcases hj with hj | hj
    · rw [phases_setPhase] at hj
      split at hj
      · rw [ServerPhase.isYoung_of_isSettled hsettled] at hj
        cases hj
      · exact .inl hj
    · exact .inr hj

/-- An attempt that goes on to a phase of the same kind. -/
theorem Inv.move (h : s.Inv) {k : Nat} {phase phase' : ServerPhase} (hphase : s.phases k = phase)
    (hkind : phase'.isHolding = phase.isHolding ∧ phase'.isYoung = phase.isYoung ∧
      phase'.isSettled = phase.isSettled)
    (hlive : phase ≠ .dropped) (hacquiring : ∀ id otp j, phase' ≠ .acquiring id otp j) :
    (s.setPhase k phase').Inv := by
  subst hphase
  obtain ⟨hholding, hyoung, hsettled⟩ := hkind
  exact h.setPhase hlive (fun hx => hholding ▸ hx) (fun hx => hyoung ▸ hx) (fun hx => hsettled ▸ hx)
    hacquiring

/-- An attempt that is over and has put nothing into the keychain. -/
theorem Inv.settle (h : s.Inv) {k : Nat} {phase phase' : ServerPhase} (hphase : s.phases k = phase)
    (hlive : phase ≠ .dropped) (hsettled : phase'.isSettled = true) :
    (s.setPhase k phase').Inv := by
  subst hphase
  apply h.setPhase hlive
  · intro hholding
    rw [ServerPhase.isHolding_of_isSettled hsettled] at hholding
    cases hholding
  · intro hyoung
    rw [ServerPhase.isYoung_of_isSettled hsettled] at hyoung
    cases hyoung
  · exact fun _ => hsettled
  · rintro id otp j rfl
    cases hsettled

theorem inv_turn {e : AttemptEvent} (h : s.Inv) (hturn : Turn s e s') : s'.Inv := by
  cases hturn with
  | accept => exact h.accept
  | connecting hphase => exact h.move hphase ⟨rfl, rfl, rfl⟩ (by simp) (by simp)
  | reconnecting hphase => exact h.move hphase ⟨rfl, rfl, rfl⟩ (by simp) (by simp)
  | fails hphase =>
      rcases hphase with hphase | ⟨id, hphase⟩
      · apply Inv.setBackupRx
        exact h.settle hphase (by simp) rfl
      · apply Inv.setBackupRx
        exact h.settle hphase (by simp) rfl
  | verified hphase => exact h.verified hphase
  | removed hphase hentry => exact h.removed hphase hentry
  | refused hphase hentry =>
      apply Inv.setBackupRx
      exact h.settle hphase (by simp) rfl
  | acquired hphase hsent =>
      apply Inv.setTook
      exact h.setBackupRx.move hphase ⟨rfl, rfl, rfl⟩ (by simp) (by simp)
  | missing hphase hclosed =>
      apply Inv.setTook
      exact h.move hphase ⟨rfl, rfl, rfl⟩ (by simp) (by simp)
  | exchanged hphase => exact h.move hphase ⟨rfl, rfl, rfl⟩ (by simp) (by simp)
  | notExchanged hphase =>
      apply Inv.setBackupRx
      exact h.move hphase ⟨rfl, rfl, rfl⟩ (by simp) (by simp)
  | reported hphase =>
      apply Inv.setTook
      exact h.move hphase ⟨rfl, rfl, rfl⟩ (by simp) (by simp)
  | notReported hphase =>
      apply Inv.setBackupRx
      exact h.move hphase ⟨rfl, rfl, rfl⟩ (by simp) (by simp)
  | replayed hphase => exact h.move hphase ⟨rfl, rfl, rfl⟩ (by simp) (by simp)
  | notReplayed hphase =>
      apply Inv.setBackupRx
      exact h.move hphase ⟨rfl, rfl, rfl⟩ (by simp) (by simp)
  | restored hphase => exact h.inserted (by rw [hphase]; rfl) rfl
  | stored hphase => exact h.inserted (by rw [hphase]; rfl) rfl
  | frames hphase => exact h.move hphase ⟨rfl, rfl, rfl⟩ (by simp) (by simp)
  | close hphase =>
      apply Inv.setBackupRx
      exact h.settle hphase (by simp) rfl
  | @drop k hphase =>
      apply Inv.setBackupRx
      refine h.settle rfl ?_ rfl
      intro hdropped
      rw [hdropped] at hphase
      cases hphase

/-! ## What an attempt puts back -/

open FramedTransport in
/-- What is recorded of an attempt agrees with what it has in its hands, and with its channel. -/
def Records (taken : Option Taken) (backupRx : Oneshot Backup) : ServerPhase → Prop
  | .exchanging id otp backup => taken = some ⟨id, otp, backup, none⟩
  | .exchangingStats id otp _ backup => taken = some ⟨id, otp, backup, none⟩
  | .replaying id otp _ backup other =>
    ∃ before, taken = some ⟨id, otp, before, some other⟩ ∧
      backup = before.truncateFront (resendCnt (statsOf before) other)
  | .restoring id otp =>
    ∃ before reported backup, taken = some ⟨id, otp, before, reported⟩ ∧
      backupRx = .sent backup ∧ before.Keeps reported backup
  | _ => True

def Recorded (s : Attempts) : Prop := ∀ k, Records (s.took k) (s.backupRx k) (s.phases k)

theorem records_of_isSettled {phase : ServerPhase} (h : phase.isSettled = true)
    (taken : Option Taken) (backupRx : Oneshot Backup) : Records taken backupRx phase := by
  cases phase <;> trivial

/-- What a step does to one attempt is all that it does to what is recorded. -/
theorem Recorded.of_eq (h : s.Recorded) (k : Nat)
    (hk : Records (s'.took k) (s'.backupRx k) (s'.phases k))
    (hother : ∀ j, j ≠ k → s'.took j = s.took j ∧ s'.backupRx j = s.backupRx j ∧
      s'.phases j = s.phases j) : s'.Recorded := by
  intro j
  by_cases hj : j = k
  · subst hj
    exact hk
  · obtain ⟨htook, hrx, hphase⟩ := hother j hj
    rw [htook, hrx, hphase]
    exact h j

theorem recorded_setPhase (h : s.Recorded) {k : Nat} {phase : ServerPhase}
    (hk : Records (s.took k) (s.backupRx k) phase) : (s.setPhase k phase).Recorded := by
  apply h.of_eq k
  · rw [phases_setPhase, if_pos rfl]
    exact hk
  · intro j hj
    exact ⟨rfl, rfl, by rw [phases_setPhase, if_neg hj]⟩

theorem recorded_setBackupRx (h : s.Recorded) {k : Nat} {backup : Oneshot Backup}
    (hk : Records (s.took k) backup (s.phases k)) : (s.setBackupRx k backup).Recorded := by
  apply h.of_eq k
  · simp only [setBackupRx, Function.update_self]
    exact hk
  · intro j hj
    exact ⟨rfl, Function.update_of_ne hj _ _, rfl⟩

theorem recorded_endAttempt (h : s.Recorded) (k : Nat) {phase : ServerPhase}
    (hsettled : phase.isSettled = true) : (s.endAttempt k phase).Recorded := by
  apply recorded_setBackupRx
  · exact recorded_setPhase h (records_of_isSettled hsettled _ _)
  · rw [phases_setPhase, if_pos rfl]
    exact records_of_isSettled hsettled _ _

theorem recorded_acquired (h : s.Recorded) (k : Nat) (id : ConnectionId) (otp : Otp)
    (backup : Backup) : (s.acquired k id otp backup).Recorded := by
  apply h.of_eq k
  · show Records (Function.update s.took k _ k) _ ((s.setPhase k _).phases k)
    rw [Function.update_self, phases_setPhase, if_pos rfl]
    exact rfl
  · intro j hj
    refine ⟨Function.update_of_ne hj _ _, rfl, ?_⟩
    show (s.setPhase k _).phases j = _
    rw [phases_setPhase, if_neg hj]

theorem recorded_restore (h : s.Recorded) {k : Nat} {id : ConnectionId} {otp : Otp}
    {before backup : Backup} {reported : Option Stats}
    (htook : s.took k = some ⟨id, otp, before, reported⟩) (hkeeps : before.Keeps reported backup) :
    (s.restore k id otp backup).Recorded := by
  apply h.of_eq k
  · show Records (s.took k) (Function.update s.backupRx k _ k) ((s.setPhase k _).phases k)
    rw [Function.update_self, phases_setPhase, if_pos rfl]
    exact ⟨before, reported, backup, htook, rfl, hkeeps⟩
  · intro j hj
    refine ⟨rfl, Function.update_of_ne hj _ _, ?_⟩
    show (s.setPhase k _).phases j = _
    rw [phases_setPhase, if_neg hj]

theorem recorded_turn {e : AttemptEvent} (hinv : s.Inv) (h : s.Recorded) (hturn : Turn s e s') :
    s'.Recorded := by
  cases hturn with
  | accept =>
      apply recorded_setBackupRx (s := s.setPhase s.spawned .opening)
      · exact recorded_setPhase h trivial
      · rw [phases_setPhase, if_pos rfl]
        trivial
  | connecting hphase => exact recorded_setPhase h trivial
  | reconnecting hphase => exact recorded_setPhase h trivial
  | fails hphase => exact recorded_endAttempt h _ rfl
  | verified hphase => exact recorded_setPhase h trivial
  | removed hphase hentry => exact recorded_setPhase (s := { s with .. }) h trivial
  | refused hphase hentry => exact recorded_endAttempt h _ rfl
  | @acquired k id otp source backup hphase hsent =>
      have hsettled := (hinv.source k id otp source hphase).2
      exact recorded_acquired (recorded_setBackupRx h (records_of_isSettled hsettled _ _)) k id otp
        backup
  | @missing k id otp source hphase hclosed => exact recorded_acquired h k id otp Backup.new
  | @exchanged k id otp backup newOtp hphase =>
      have hk := h k
      rw [hphase] at hk
      exact recorded_setPhase h hk
  | @notExchanged k id otp backup hphase =>
      have hk := h k
      rw [hphase] at hk
      exact recorded_restore h hk backup.keeps_self
  | @reported k id otp newOtp backup other hphase =>
      have hk := h k
      rw [hphase] at hk
      have hk : s.took k = some ⟨id, otp, backup, none⟩ := hk
      apply h.of_eq k
      · show Records (Function.update s.took k _ k) _ ((s.setPhase k _).phases k)
        rw [Function.update_self, phases_setPhase, if_pos rfl, hk]
        exact ⟨backup, rfl, rfl⟩
      · intro j hj
        refine ⟨Function.update_of_ne hj _ _, rfl, ?_⟩
        show (s.setPhase k _).phases j = _
        rw [phases_setPhase, if_neg hj]
  | @notReported k id otp newOtp backup hphase =>
      have hk := h k
      rw [hphase] at hk
      exact recorded_restore h hk backup.keeps_self
  | replayed hphase => exact recorded_setPhase h trivial
  | @notReplayed k id otp newOtp backup other hphase =>
      have hk := h k
      rw [hphase] at hk
      obtain ⟨before, htook, rfl⟩ := hk
      exact recorded_restore h htook (before.keeps_truncateFront other)
  | restored hphase => exact recorded_setPhase (s := { s with .. }) h trivial
  | stored hphase => exact recorded_setPhase (s := { s with .. }) h trivial
  | frames hphase => exact recorded_setPhase h trivial
  | @close k id backup hphase =>
      apply recorded_setBackupRx
      · exact recorded_setPhase h trivial
      · rw [phases_setPhase, if_pos rfl]
        trivial
  | drop hphase => exact recorded_endAttempt h _ rfl

/-! ## Ownership -/

/-- An attempt gets an entry only with its password, or makes it itself. -/
def ByPassword (s s' : Attempts) : Prop :=
  ∀ k, (s.phases k).isHolding = false → (s'.phases k).isHolding = true →
    (∃ id, s.phases k = .verifying id) ∨
    ∃ id otp source, s.phases k = .removing id otp ∧ s.keychain id = some (otp, source) ∧
      s'.keychain id = none ∧ s'.phases k = .acquiring id otp source

/-- The keychain changes only by an attempt that has the password, or has an entry. -/
def Guarded (s : Attempts) (e : AttemptEvent) (s' : Attempts) : Prop :=
  s'.keychain = s.keychain ∨
  (∃ k id otp source, e = .remove k ∧ s.phases k = .removing id otp ∧
    s.keychain id = some (otp, source)) ∨
  ∃ k, e = .insert k ∧ (s.phases k).isHolding = true

/-- An unknown id or a wrong password ends the attempt, and that is all. -/
def Refuses (s : Attempts) : Prop :=
  ∀ k id otp, s.phases k = .removing id otp → (∀ source, s.keychain id ≠ some (otp, source)) →
    s.step (.remove k) = some (s.endAttempt k .refused) ∧
      (s.endAttempt k .refused).keychain = s.keychain

/-- The errors that an attempt can meet after it has taken an entry. -/
def IsFailure (k : Nat) (e : AttemptEvent) : Prop :=
  e = .exchange k none ∨ e = .stats k none ∨ e = .replay k false

/-- After such an error, the attempt goes on to put the entry back that it has taken. -/
def Restores (s : Attempts) (e : AttemptEvent) (s' : Attempts) : Prop :=
  ∀ k, IsFailure k e →
    ∃ taken, s.took k = some taken ∧ s'.took k = some taken ∧
      s'.phases k = .restoring taken.id taken.otp

/-- It can do so, does nothing else before, and the entry has the same password and all frames that
the other side has not reported as received. -/
def PutsBack (s : Attempts) : Prop :=
  ∀ k id otp, s.phases k = .restoring id otp →
    (∃ s', s.step (.insert k) = some s') ∧
    ∀ e s', s.step e = some s' → s'.phases k = .restoring id otp ∨ e = .drop k ∨
      (s'.phases k = .failed ∧ ∃ taken backup, s.took k = some taken ∧ taken.id = id ∧
        taken.otp = otp ∧ s'.keychain id = some (otp, k) ∧ s'.backupRx k = .sent backup ∧
        taken.backup.Keeps taken.reported backup)

theorem inv_step {e : AttemptEvent} (h : s.Inv ∧ s.Recorded) (hstep : s.step e = some s') :
    s'.Inv ∧ s'.Recorded :=
  have hturn := turn_of_step hstep
  ⟨inv_turn h.1 hturn, recorded_turn h.1 h.2 hturn⟩

theorem inv_of_run {es : List AttemptEvent} (hrun : Machine.run step es new = some s) :
    s.Inv ∧ s.Recorded :=
  Machine.invariant (C := fun _ _ => True) (fun _ _ _ h _ hstep => inv_step h hstep)
    ⟨inv_new, fun _ => trivial⟩ (Machine.meeting_of_always (fun _ _ _ => trivial) new) hrun

theorem phases_endAttempt (s : Attempts) (k j : Nat) (phase : ServerPhase) :
    (s.endAttempt k phase).phases j = if j = k then phase else s.phases j :=
  phases_setPhase s k j phase

theorem byPassword_turn {e : AttemptEvent} (hturn : Turn s e s') : s.ByPassword s' := by
  intro j hbefore hafter
  -- a step that leaves the attempt as it is, or takes it to a phase of the same kind
  have hsame : ∀ {k phase}, s'.phases j = (if j = k then phase else s.phases j) →
      (phase.isHolding = true → (s.phases k).isHolding = true) → False := by
    intro k phase hphases hkind
    rw [hphases] at hafter
    split at hafter
    · next heq =>
        subst heq
        rw [hkind hafter] at hbefore
        cases hbefore
    · rw [hbefore] at hafter
      cases hafter
  cases hturn
  case verified k id otp backup hphase =>
    rw [phases_setPhase] at hafter
    split at hafter
    · next heq =>
        subst heq
        exact .inl ⟨id, hphase⟩
    · rw [hbefore] at hafter
      cases hafter
  case removed k id otp source hphase hentry =>
    by_cases hj : j = k
    · subst hj
      refine .inr ⟨id, otp, source, hphase, hentry, Function.update_self .., ?_⟩
      rw [phases_setPhase, if_pos rfl]
    · rw [phases_setPhase, if_neg hj] at hafter
      have hafter : (s.phases j).isHolding = true := hafter
      rw [hbefore] at hafter
      cases hafter
  -- no other step gives an attempt an entry
  all_goals exact (hsame (phases_setPhase ..) (by simp [*, ServerPhase.isHolding])).elim

theorem guarded_turn {e : AttemptEvent} (hturn : Turn s e s') : s.Guarded e s' := by
  cases hturn with
  | removed hphase hentry => exact .inr (.inl ⟨_, _, _, _, rfl, hphase, hentry⟩)
  | restored hphase => exact .inr (.inr ⟨_, rfl, by rw [hphase]; rfl⟩)
  | stored hphase => exact .inr (.inr ⟨_, rfl, by rw [hphase]; rfl⟩)
  | _ => exact .inl rfl

theorem refuses (s : Attempts) : s.Refuses := by
  intro k id otp hphase hentry
  refine ⟨?_, rfl⟩
  unfold step
  simp only [hphase]
  rcases s.keychain.removeIfHasKey_cases id otp with
    ⟨source, hsome, -⟩ | ⟨-, hremove | hremove⟩
  · exact absurd hsome (hentry source)
  · rw [hremove]
  · rw [hremove]

theorem restores_turn {e : AttemptEvent} (h : s.Recorded) (hturn : Turn s e s') :
    s.Restores e s' := by
  have hrestore : ∀ k id otp (before backup : Backup) reported,
      s.took k = some ⟨id, otp, before, reported⟩ →
      ∃ taken, s.took k = some taken ∧ (s.restore k id otp backup).took k = some taken ∧
        (s.restore k id otp backup).phases k = .restoring taken.id taken.otp := by
    intro k id otp before backup reported htook
    refine ⟨_, htook, htook, ?_⟩
    show (s.setPhase k _).phases k = _
    rw [phases_setPhase, if_pos rfl]
  rintro k (rfl | rfl | rfl)
  · cases hturn with
    | @notExchanged k id otp backup hphase =>
        have hk := h k
        rw [hphase] at hk
        exact hrestore k id otp backup backup none hk
  · cases hturn with
    | @notReported k id otp newOtp backup hphase =>
        have hk := h k
        rw [hphase] at hk
        exact hrestore k id otp backup backup none hk
  · cases hturn with
    | @notReplayed k id otp newOtp backup other hphase =>
        have hk := h k
        rw [hphase] at hk
        obtain ⟨before, htook, -⟩ := hk
        exact hrestore k id otp before backup _ htook

/-- What one step leaves of the phase of an attempt that is about to put an entry back. -/
theorem restoring_turn {e : AttemptEvent} {k : Nat} {id : ConnectionId} {otp : Otp}
    (hinv : s.Inv) (hk : s.phases k = .restoring id otp) (hturn : Turn s e s') :
    s'.phases k = .restoring id otp ∨ e = .drop k ∨
      (e = .insert k ∧
        s' = { s with keychain := s.keychain.insert id otp k }.setPhase k .failed) := by
  -- a step of another attempt
  have hother : ∀ {j phase}, s.phases j ≠ .restoring id otp →
      s'.phases k = (if k = j then phase else s.phases k) → s'.phases k = .restoring id otp := by
    intro j phase hne hphases
    have hkj : k ≠ j := by
      rintro rfl
      exact hne hk
    rw [hphases, if_neg hkj, hk]
  cases hturn
  case accept =>
    left
    apply hother (j := s.spawned) _ (phases_setPhase ..)
    rw [hinv.late s.spawned (Nat.le_refl _)]
    simp
  case fails j hphase =>
    left
    apply hother (j := j) _ (phases_setPhase ..)
    rcases hphase with hphase | ⟨id', hphase⟩ <;> simp [hphase]
  case restored j id' otp' hphase =>
    by_cases hkj : k = j
    · subst hkj
      rw [hk] at hphase
      cases hphase
      exact .inr (.inr ⟨rfl, rfl⟩)
    · left
      rw [phases_setPhase, if_neg hkj]
      exact hk
  case drop j hphase =>
    by_cases hkj : k = j
    · exact .inr (.inl (congrArg AttemptEvent.drop hkj.symm))
    · left
      rw [phases_endAttempt, if_neg hkj]
      exact hk
  all_goals
    left
    exact hother (by simp [*]) (phases_setPhase ..)

theorem putsBack (hinv : s.Inv) (hrec : s.Recorded) : s.PutsBack := by
  intro k id otp hphase
  constructor
  · exact ⟨_, by simp only [step, hphase]; rfl⟩
  · intro e s' hstep
    rcases restoring_turn hinv hphase (turn_of_step hstep) with hsame | hdrop | ⟨-, rfl⟩
    · exact .inl hsame
    · exact .inr (.inl hdrop)
    · have hk := hrec k
      rw [hphase] at hk
      obtain ⟨before, reported, backup, htook, hsent, hkeeps⟩ := hk
      refine .inr (.inr ⟨?_, _, backup, htook, rfl, rfl, ?_, hsent, hkeeps⟩)
      · rw [phases_setPhase, if_pos rfl]
      · exact Function.update_self ..

/-- In every run of attempts over one keychain, a session's backup never has two holders; an
attempt gets an entry only with the stored password, and is refused without any change otherwise;
and an attempt that fails with an entry puts it back as it was, with all frames that may be needed. -/
theorem owned_of_run {es : List AttemptEvent} {s : Attempts}
    (hrun : Machine.run step es new = some s) :
    s.Exclusive ∧ s.Refuses ∧ s.PutsBack ∧
      ∀ e s', s.step e = some s' → s.ByPassword s' ∧ s.Guarded e s' ∧ s.Restores e s' := by
  obtain ⟨hinv, hrec⟩ := inv_of_run hrun
  refine ⟨hinv.exclusive, refuses s, putsBack hinv hrec, ?_⟩
  intro e s' hstep
  have hturn := turn_of_step hstep
  exact ⟨byPassword_turn hturn, guarded_turn hturn, restores_turn hrec hturn⟩

/-- A session with one frame sent. Its connection is dropped, and its client reconnects, as another
one does that guesses the password; then the link fails after the client has reported its stats. -/
def reconnectTwice : List AttemptEvent :=
  [.accept, .connectType 0 7 .connect, .verified 0 [1] Backup.new, .insert 0,
    .accept, .connectType 1 8 (.reconnect 7 [1]), .accept, .connectType 2 9 (.reconnect 7 [2]),
    .frames 0 (Backup.new.incrementSentCnt.pushFrame ⟨[5], by decide⟩), .close 0, .remove 2, .remove 1,
    .acquire 1, .exchange 1 (some [3]), .stats 1 (some ⟨0, 0, 0⟩), .replay 1 false]

theorem owned_reconnectTwice : ∃ s, Machine.run step reconnectTwice new = some s ∧
    s.phases 1 = .restoring 7 [1] ∧ s.phases 2 = .refused ∧ s.Exclusive ∧ s.PutsBack := by
  have hrun : ∃ s, Machine.run step reconnectTwice new = some s ∧ s.phases 1 = .restoring 7 [1] ∧
      s.phases 2 = .refused := ⟨_, rfl, rfl, rfl⟩
  obtain ⟨s, hrun, hfirst, hsecond⟩ := hrun
  have howned := owned_of_run hrun
  exact ⟨s, hrun, hfirst, hsecond, howned.1, howned.2.2.1⟩

/-! ## The synchronization of the framed transport -/

open FramedTransport in
/-- A synchronization of the framed transport that ends without a panic is one or two steps of its
attempt, and leaves the backup that the attempt has then. -/
theorem steps_of_synchronize {k : Nat} {id : ConnectionId} {otp newOtp : Otp} {backup : Backup}
    (hphase : s.phases k = .exchangingStats id otp newOtp backup) {p : Profile}
    {R : FramedTransport → FramedTransport → Prop} {stats : Serde Stats} {t t' : FramedTransport}
    {q : TransportM Unit} (hbackup : t.backup = backup)
    (hrun : Async.Run (Io.poll p) R (synchronize stats) t q t') :
    (q = .ret () → ∃ other s', Machine.run step [.stats k (some other), .replay k true] s = some s' ∧
      s'.phases k = .storing id newOtp t'.backup) ∧
    ∀ e, q = .throw (.io e) →
      (∃ s', s.step (.stats k none) = some s' ∧ s'.phases k = .restoring id otp ∧
        s'.backupRx k = .sent t'.backup) ∨
      ∃ other s', Machine.run step [.stats k (some other), .replay k false] s = some s' ∧
        s'.phases k = .restoring id otp ∧ s'.backupRx k = .sent t'.backup := by
  have hends := Async.wp_of_run hrun (synchronize_ends stats t)
  -- the attempt once the stats have arrived
  let s₁ : Stats → Attempts := fun other => (s.setPhase k (.replaying id otp newOtp
    (backup.truncateFront (resendCnt (statsOf backup) other)) other)).setTook k
      ((s.took k).map fun taken => { taken with reported := some other })
  have hreported : ∀ other, s.step (.stats k (some other)) = some (s₁ other) := by
    intro other
    unfold step
    simp only [hphase, s₁]
  have hreplaying : ∀ other, (s₁ other).phases k = .replaying id otp newOtp
      (backup.truncateFront (resendCnt (statsOf backup) other)) other := by
    intro other
    show (s.setPhase k _).phases k = _
    rw [phases_setPhase, if_pos rfl]
  have hreplay : ∀ other ok, (s₁ other).step (.replay k ok) =
      if ok then some ((s₁ other).setPhase k (.storing id newOtp (catchUp other
        (backup.truncateFront (resendCnt (statsOf backup) other)))))
      else some ((s₁ other).restore k id otp
        (backup.truncateFront (resendCnt (statsOf backup) other))) := by
    intro other ok
    unfold step
    simp only [hreplaying]
  constructor
  · rintro rfl
    have hends : SyncEnds t.backup (.ok ()) t'.backup := hends
    generalize t'.backup = b' at hends ⊢
    cases hends with
    | done other =>
        refine ⟨other, (s₁ other).setPhase k (.storing id newOtp (catchUp other
          (backup.truncateFront (resendCnt (statsOf backup) other)))), ?_, ?_⟩
        · simp only [Machine.run, hreported, hreplay, if_true]
        · rw [hbackup, phases_setPhase, if_pos rfl]
  · rintro e rfl
    have hends : SyncEnds t.backup (.error (.io e)) t'.backup := hends
    generalize t'.backup = b' at hends ⊢
    cases hends with
    | unread =>
        left
        refine ⟨s.restore k id otp backup, by simp only [step, hphase], ?_, ?_⟩
        · show (s.setPhase k _).phases k = _
          rw [phases_setPhase, if_pos rfl]
        · rw [hbackup]
          exact Function.update_self ..
    | failed _ other =>
        right
        refine ⟨other, (s₁ other).restore k id otp
          (backup.truncateFront (resendCnt (statsOf backup) other)), ?_, ?_, ?_⟩
        · simp only [Machine.run, hreported, hreplay, Bool.false_eq_true, if_false]
        · show (Attempts.setPhase _ k _).phases k = _
          rw [phases_setPhase, if_pos rfl]
        · rw [hbackup]
          exact Function.update_self ..

end Attempts

end Distant
