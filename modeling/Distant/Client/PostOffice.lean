import Mathlib.Logic.Function.Basic
import Distant.Lib.Machine

/-!
# Delivering mail

The client hands every response to `deliver`, which looks for the mailbox of its origin under the
lock on the mailboxes, and keeps the lock while it waits for room in that mailbox. If the receiver
of the mailbox is gone it asks for the same lock again to take the mailbox out, and waits for itself.
`delivers_iff` says that nothing else keeps `deliver` from doing what it says.
-/

namespace Distant

abbrev Id := String

/-- The channel of a mailbox. -/
structure Mailbox (T : Type) where
  capacity : Nat
  /-- what was put in, and by which call -/
  sent : List (Nat × T)
  /-- how many of these the receiver has taken -/
  taken : Nat
  /-- the receiver was closed or dropped -/
  closed : Bool

/-- Where a call of `deliver` sends the value. -/
inductive Addressee where
  /-- the mailbox registered for the id -/
  | registered (box : Nat)
  /-- the default mailbox, as there is no mailbox for the id -/
  | unregistered (box : Nat)
  | nobody

def Addressee.box : Addressee → Option Nat
  | .registered box => some box
  | .unregistered box => some box
  | .nobody => none

inductive DeliverPhase where
  /-- waits for the lock on the mailboxes -/
  | locking
  /-- has the lock, and waits for room in the mailbox -/
  | sending (box : Nat)
  /-- has the lock, and waits for it to take the mailbox out -/
  | removing (box : Nat)
  /-- found no mailbox; the lock was dropped before the `else` -/
  | unregistered
  /-- has the lock on the default mailbox for reading, and waits for room in it -/
  | sendingDefault (box : Nat)
  | returned (addressee : Addressee) (success : Bool)

/-- A call of `deliver`. -/
structure Deliver (T : Type) where
  id : Id
  value : T
  phase : DeliverPhase

structure PostOffice (T : Type) where
  /-- which of the boxes is registered for an id -/
  mailboxes : Id → Option Nat
  defaultBox : Option Nat
  boxes : Nat → Mailbox T
  /-- how many boxes were made -/
  made : Nat
  /-- the call that holds the lock on the mailboxes -/
  lock : Option Nat
  /-- the calls that hold the lock on the default mailbox for reading -/
  readers : List Nat
  calls : Nat → Option (Deliver T)

inductive PostEvent (T : Type) where
  /-- a call of `deliver` -/
  | deliver (i : Nat) (id : Id) (value : T)
  /-- the call goes on -/
  | turn (i : Nat)
  | makeMailbox (id : Id) (buffer : Nat)
  | cancel (id : Id)
  | cancelMany (ids : List Id)
  | cancelAll
  /-- the task that runs every minute gets the lock -/
  | cleanup
  | assignDefaultMailbox (buffer : Nat)
  | removeDefaultMailbox
  /-- the receiver takes the next value -/
  | recv (box : Nat)
  /-- the receiver is closed or dropped -/
  | close (box : Nat)

namespace PostOffice

variable {T : Type}

def new : PostOffice T :=
  ⟨fun _ => none, none, fun _ => ⟨0, [], 0, false⟩, 0, none, [], fun _ => none⟩

def setCall (s : PostOffice T) (i : Nat) (c : Deliver T) : PostOffice T :=
  { s with calls := Function.update s.calls i (some c) }

def setBox (s : PostOffice T) (b : Nat) (m : Mailbox T) : PostOffice T :=
  { s with boxes := Function.update s.boxes b m }

/-- The call goes on to another phase. -/
def setPhase (s : PostOffice T) (i : Nat) (c : Deliver T) (phase : DeliverPhase) : PostOffice T :=
  s.setCall i ⟨c.id, c.value, phase⟩

/-- The call puts its value into a box. -/
def hand (s : PostOffice T) (i : Nat) (c : Deliver T) (b : Nat) : PostOffice T :=
  s.setBox b { s.boxes b with sent := (s.boxes b).sent ++ [(i, c.value)] }

/-- The mailboxes after some entries were taken out. -/
def retain (s : PostOffice T) (keep : Id → Nat → Bool) : PostOffice T :=
  { s with mailboxes := fun id => (s.mailboxes id).filter (keep id) }

def hasRoom (s : PostOffice T) (b : Nat) : Bool :=
  (s.boxes b).sent.length < (s.boxes b).taken + (s.boxes b).capacity

/-- The call returns, and drops the lock on the default mailbox. -/
def returnDefault (s : PostOffice T) (i : Nat) (c : Deliver T) (b : Nat) (success : Bool) :
    PostOffice T :=
  { s with readers := s.readers.filter (· != i) }.setPhase i c (.returned (.unregistered b) success)

/-- `deliver` up to where it has to wait next. -/
def turn (s : PostOffice T) (i : Nat) (c : Deliver T) : Option (PostOffice T) :=
  match c.phase with
  | .locking =>
    if s.lock.isSome then none
    else
      match s.mailboxes c.id with
      | some b => some ({ s with lock := some i }.setPhase i c (.sending b))
      | none => some (s.setPhase i c .unregistered)
  | .sending b =>
    -- the guard lives to the end of the block
    if (s.boxes b).closed then some (s.setPhase i c (.removing b))
    else if s.hasRoom b then
      some ({ s.hand i c b with lock := none }.setPhase i c (.returned (.registered b) true))
    else none
  | .removing b =>
    if s.lock.isSome then none
    else
      some ((s.retain fun id _ => id != c.id).setPhase i c (.returned (.registered b) false))
  | .unregistered =>
    match s.defaultBox with
    | some b => some ({ s with readers := i :: s.readers }.setPhase i c (.sendingDefault b))
    | none => some (s.setPhase i c (.returned .nobody false))
  | .sendingDefault b =>
    if (s.boxes b).closed then some (s.returnDefault i c b false)
    else if s.hasRoom b then some ((s.hand i c b).returnDefault i c b true)
    else none
  | .returned _ _ => none

/-- Makes the channel of a new mailbox, which has the number `made`. -/
def channel (s : PostOffice T) (buffer : Nat) : PostOffice T :=
  { s.setBox s.made ⟨buffer, [], 0, false⟩ with made := s.made + 1 }

/-- What the code does at an event. A channel without a buffer cannot be made, and those who ask
for a lock wait until it is free. -/
def step (s : PostOffice T) : PostEvent T → Option (PostOffice T)
  | .deliver i id value =>
    if (s.calls i).isSome then none else some (s.setCall i ⟨id, value, .locking⟩)
  | .turn i => (s.calls i).bind (s.turn i)
  | .makeMailbox id buffer =>
    if s.lock.isSome || buffer == 0 then none
    else some { s.channel buffer with mailboxes := Function.update s.mailboxes id (some s.made) }
  | .cancel id => if s.lock.isSome then none else some (s.retain fun id' _ => id' != id)
  | .cancelMany ids => if s.lock.isSome then none else some (s.retain fun id' _ => id' ∉ ids)
  | .cancelAll => if s.lock.isSome then none else some (s.retain fun _ _ => false)
  | .cleanup =>
    if s.lock.isSome then none else some (s.retain fun _ b => !(s.boxes b).closed)
  | .assignDefaultMailbox buffer =>
    if !s.readers.isEmpty || buffer == 0 then none
    else some { s.channel buffer with defaultBox := some s.made }
  | .removeDefaultMailbox =>
    if !s.readers.isEmpty then none else some { s with defaultBox := none }
  | .recv b =>
    if (s.boxes b).taken < (s.boxes b).sent.length then
      some (s.setBox b { s.boxes b with taken := (s.boxes b).taken + 1 })
    else none
  | .close b =>
    if b < s.made then some (s.setBox b { s.boxes b with closed := true }) else none

/-! ## What a call promises -/

/-- The calls go on, the receivers take values, and the cleanup runs. -/
def Helps : PostEvent T → Prop
  | .turn _ => True
  | .recv _ => True
  | .cleanup => True
  | _ => False

def DeliverPhase.isReturned : DeliverPhase → Bool
  | .returned _ _ => true
  | _ => false

/-- The call can come to its end. -/
def CanReturn (s : PostOffice T) (i : Nat) : Prop :=
  ∃ s' c, Machine.Reaches step Helps s s' ∧ s'.calls i = some c ∧
    DeliverPhase.isReturned c.phase = true

/-- The value of the call is in the box, and the call put nothing anywhere else. -/
def Handed (s : PostOffice T) (i : Nat) (value : T) (b : Nat) : Prop :=
  ∀ b' v, (i, v) ∈ (s.boxes b').sent ↔ b' = b ∧ v = value

structure Delivers (s : PostOffice T) : Prop where
  /-- no call waits for the lock that it holds -/
  noSelfWait : ∀ i c b, s.calls i = some c → c.phase = .removing b → s.lock ≠ some i
  completes : ∀ i c, s.calls i = some c → s.CanReturn i
  /-- a call sends to the mailbox that is registered for its id -/
  registered : ∀ i c b, s.calls i = some c → c.phase = .sending b → s.mailboxes c.id = some b
  /-- or to the default one -/
  unregistered : ∀ i c b, s.calls i = some c → c.phase = .sendingDefault b → s.defaultBox = some b
  success : ∀ i c a r, s.calls i = some c → c.phase = .returned a r →
    (r = true ↔ ∃ b, a.box = some b ∧ s.Handed i c.value b)
  /-- the mailbox of a receiver that was gone is not registered any more -/
  gone : ∀ i c b, s.calls i = some c → c.phase = .returned (.registered b) false →
    s.mailboxes c.id ≠ some b
  /-- a call takes out no mailbox of another id, and puts nothing into a box but the one it sends to -/
  untouched : ∀ i c s', s.calls i = some c → s.step (.turn i) = some s' →
    (∀ id, id ≠ c.id → s'.mailboxes id = s.mailboxes id) ∧
    ∀ b, c.phase ≠ .sending b → c.phase ≠ .sendingDefault b → s'.boxes b = s.boxes b

/-- A call that gets the lock finds an open receiver or no mailbox, and no receiver is closed while
a call has the lock to send to it. -/
def Received (s : PostOffice T) : PostEvent T → Prop
  | .turn i => ∀ c b, s.calls i = some c → c.phase = .locking → s.mailboxes c.id = some b →
      (s.boxes b).closed = false
  | .close b => ∀ i c, s.calls i = some c → c.phase ≠ .sending b
  | _ => True

/-! ## What a turn does -/

variable {s s' : PostOffice T} {i : Nat} {c : Deliver T}

theorem calls_setCall_self : (s.setCall i c).calls i = some c := Function.update_self _ _ _

theorem calls_setCall_of_ne {j : Nat} (h : j ≠ i) (c : Deliver T) :
    (s.setCall i c).calls j = s.calls j :=
  Function.update_of_ne h _ _

theorem calls_setPhase_self (phase : DeliverPhase) :
    (s.setPhase i c phase).calls i = some ⟨c.id, c.value, phase⟩ :=
  calls_setCall_self

theorem calls_setPhase_of_ne {j : Nat} (h : j ≠ i) (phase : DeliverPhase) :
    (s.setPhase i c phase).calls j = s.calls j :=
  calls_setCall_of_ne h _

/-- The turns of a call. -/
inductive Turned (s : PostOffice T) (i : Nat) (c : Deliver T) : PostOffice T → Prop where
  | locked (b : Nat) : c.phase = .locking → s.lock = none → s.mailboxes c.id = some b →
      Turned s i c ({ s with lock := some i }.setPhase i c (.sending b))
  | notFound : c.phase = .locking → s.lock = none → s.mailboxes c.id = none →
      Turned s i c (s.setPhase i c .unregistered)
  | fails (b : Nat) : c.phase = .sending b → (s.boxes b).closed = true →
      Turned s i c (s.setPhase i c (.removing b))
  | sent (b : Nat) : c.phase = .sending b → (s.boxes b).closed = false → s.hasRoom b = true →
      Turned s i c
        ({ s.hand i c b with lock := none }.setPhase i c (.returned (.registered b) true))
  | removed (b : Nat) : c.phase = .removing b → s.lock = none →
      Turned s i c
        ((s.retain fun id _ => id != c.id).setPhase i c (.returned (.registered b) false))
  | reads (b : Nat) : c.phase = .unregistered → s.defaultBox = some b →
      Turned s i c ({ s with readers := i :: s.readers }.setPhase i c (.sendingDefault b))
  | noDefault : c.phase = .unregistered → s.defaultBox = none →
      Turned s i c (s.setPhase i c (.returned .nobody false))
  | failsDefault (b : Nat) : c.phase = .sendingDefault b → (s.boxes b).closed = true →
      Turned s i c (s.returnDefault i c b false)
  | sentDefault (b : Nat) : c.phase = .sendingDefault b → (s.boxes b).closed = false →
      s.hasRoom b = true → Turned s i c ((s.hand i c b).returnDefault i c b true)

theorem turned_of_turn (h : s.turn i c = some s') : Turned s i c s' := by
  unfold turn at h
  cases hphase : c.phase with
  | locking =>
      simp only [hphase] at h
      split at h
      · cases h
      · next hlock =>
          have hfree : s.lock = none := by simpa using hlock
          cases hbox : s.mailboxes c.id with
          | some b =>
              simp only [hbox] at h
              cases h
              exact .locked b hphase hfree hbox
          | none =>
              simp only [hbox] at h
              cases h
              exact .notFound hphase hfree hbox
  | sending b =>
      simp only [hphase] at h
      split at h
      · next hclosed =>
          cases h
          exact .fails b hphase hclosed
      · next hopen =>
          split at h
          · next hroom =>
              cases h
              exact .sent b hphase (by simpa using hopen) hroom
          · cases h
  | removing b =>
      simp only [hphase] at h
      split at h
      · cases h
      · next hlock =>
          cases h
          exact .removed b hphase (by simpa using hlock)
  | unregistered =>
      simp only [hphase] at h
      split at h
      · next b hbox =>
          cases h
          exact .reads b hphase hbox
      · next hbox =>
          cases h
          exact .noDefault hphase hbox
  | sendingDefault b =>
      simp only [hphase] at h
      split at h
      · next hclosed =>
          cases h
          exact .failsDefault b hphase hclosed
      · next hopen =>
          split at h
          · next hroom =>
              cases h
              exact .sentDefault b hphase (by simpa using hopen) hroom
          · cases h
  | returned a r => simp [hphase] at h

theorem step_turn (h : s.step (.turn i) = some s') :
    ∃ c, s.calls i = some c ∧ Turned s i c s' := by
  unfold step at h
  simp only at h
  cases hcall : s.calls i with
  | none => simp [hcall] at h
  | some c =>
      rw [hcall, Option.bind_some] at h
      exact ⟨c, rfl, turned_of_turn h⟩

/-! ## What all steps keep -/

/-- The call has put nothing into a box. -/
def Unsent (s : PostOffice T) (i : Nat) : Prop := ∀ b v, (i, v) ∉ (s.boxes b).sent

def DeliverPhase.holdsLock : DeliverPhase → Bool
  | .sending _ => true
  | .removing _ => true
  | _ => false

/-- Where a call has got to agrees with the locks, the registered mailboxes and the boxes. -/
def CallKept (s : PostOffice T) (i : Nat) (c : Deliver T) : Prop :=
  match c.phase with
  | .locking => s.Unsent i
  | .sending b => s.lock = some i ∧ s.mailboxes c.id = some b ∧ s.Unsent i
  | .removing _ => s.lock = some i ∧ s.Unsent i
  | .unregistered => s.Unsent i
  | .sendingDefault b => i ∈ s.readers ∧ s.defaultBox = some b ∧ s.Unsent i
  | .returned (.registered b) r => r = true ∧ s.Handed i c.value b
  | .returned (.unregistered b) true => s.Handed i c.value b
  | .returned (.unregistered _) false => s.Unsent i
  | .returned .nobody r => r = false ∧ s.Unsent i

structure Upkept (s : PostOffice T) : Prop where
  registered : ∀ id b, s.mailboxes id = some b → b < s.made
  unregistered : ∀ b, s.defaultBox = some b → b < s.made
  capacity : ∀ b, b < s.made → 0 < (s.boxes b).capacity
  unmade : ∀ b, s.made ≤ b → (s.boxes b).sent = []
  holder : ∀ i, s.lock = some i →
    ∃ c, s.calls i = some c ∧ DeliverPhase.holdsLock c.phase = true
  call : ∀ i c, s.calls i = some c → s.CallKept i c
  uncalled : ∀ i, s.calls i = none → s.Unsent i

theorem upkept_new : (new : PostOffice T).Upkept where
  registered := by rintro id b ⟨⟩
  unregistered := by rintro b ⟨⟩
  capacity := fun b h => absurd h (Nat.not_lt_zero b)
  unmade := fun _ _ => rfl
  holder := by rintro i ⟨⟩
  call := by rintro i c ⟨⟩
  uncalled := fun _ _ _ _ h => by cases h

theorem Upkept.not_holder (h : s.Upkept) (hcall : s.calls i = some c)
    (hphase : DeliverPhase.holdsLock c.phase = false) : s.lock ≠ some i := by
  intro hlock
  obtain ⟨c', hc', hholds⟩ := h.holder i hlock
  rw [hcall] at hc'
  cases hc'
  rw [hphase] at hholds
  cases hholds

/-- A call stays where it is in a state with the same boxes, if its locks keep what they guard. -/
theorem CallKept.congr (h : s.CallKept i c)
    (hsent : ∀ b v, (i, v) ∈ (s'.boxes b).sent ↔ (i, v) ∈ (s.boxes b).sent)
    (hlock : s.lock = some i → s'.lock = some i ∧ s'.mailboxes c.id = s.mailboxes c.id)
    (hreader : i ∈ s.readers → i ∈ s'.readers ∧ s'.defaultBox = s.defaultBox) :
    s'.CallKept i c := by
  have hunsent : s.Unsent i → s'.Unsent i := fun h b v hin => h b v ((hsent b v).mp hin)
  have hhanded : ∀ b, s.Handed i c.value b → s'.Handed i c.value b :=
    fun b h b' v => (hsent b' v).trans (h b' v)
  unfold CallKept at h ⊢
  split at h
  · exact hunsent h
  · exact ⟨(hlock h.1).1, (hlock h.1).2.trans h.2.1, hunsent h.2.2⟩
  · exact ⟨(hlock h.1).1, hunsent h.2⟩
  · exact hunsent h
  · exact ⟨(hreader h.1).1, (hreader h.1).2.trans h.2.1, hunsent h.2.2⟩
  · exact ⟨h.1, hhanded _ h.2⟩
  · exact hhanded _ h
  · exact hunsent h
  · exact ⟨h.1, hunsent h.2⟩

/-- What the turn of a call leaves alone, when the phase of that call is not looked at. -/
structure Frame (i : Nat) (s s' : PostOffice T) : Prop where
  calls : s'.calls = s.calls
  made : s'.made = s.made
  defaultBox : s'.defaultBox = s.defaultBox
  mailboxes : ∀ id b, s'.mailboxes id = some b → s.mailboxes id = some b
  capacity : ∀ b, (s'.boxes b).capacity = (s.boxes b).capacity
  unmade : ∀ b, s.made ≤ b → (s'.boxes b).sent = (s.boxes b).sent
  sent : ∀ j, j ≠ i → ∀ b v, (j, v) ∈ (s'.boxes b).sent ↔ (j, v) ∈ (s.boxes b).sent
  lock : ∀ j, j ≠ i → (s'.lock = some j ↔ s.lock = some j)
  locked : ∀ j, j ≠ i → s.lock = some j → s'.mailboxes = s.mailboxes
  readers : ∀ j, j ≠ i → j ∈ s.readers → j ∈ s'.readers

theorem Upkept.setPhase (h : s.Upkept) (hcall : s.calls i = some c) {s₁ : PostOffice T}
    (hframe : Frame i s s₁) {phase : DeliverPhase}
    (hlock : s₁.lock = some i → DeliverPhase.holdsLock phase = true)
    (hkept : s₁.CallKept i ⟨c.id, c.value, phase⟩) : (s₁.setPhase i c phase).Upkept where
  registered id b hbox := by
    have hb := h.registered id b (hframe.mailboxes id b hbox)
    exact hframe.made.symm ▸ hb
  unregistered b hbox := by
    have hb := h.unregistered b (hframe.defaultBox.symm.trans hbox)
    exact hframe.made.symm ▸ hb
  capacity b hb := by
    have hpos := h.capacity b (hframe.made ▸ hb)
    exact (hframe.capacity b).symm ▸ hpos
  unmade b hb := by
    have hmade : s.made ≤ b := hframe.made ▸ hb
    exact (hframe.unmade b hmade).trans (h.unmade b hmade)
  holder j hj := by
    by_cases heq : j = i
    · subst heq
      exact ⟨_, calls_setPhase_self phase, hlock hj⟩
    · obtain ⟨c', hc', hholds⟩ := h.holder j ((hframe.lock j heq).mp hj)
      refine ⟨c', ?_, hholds⟩
      exact (calls_setPhase_of_ne heq phase).trans ((congrFun hframe.calls j).trans hc')
  call j c' hj := by
    by_cases heq : j = i
    · subst heq
      rw [calls_setPhase_self] at hj
      cases hj
      exact hkept
    · rw [calls_setPhase_of_ne heq, hframe.calls] at hj
      refine (h.call j c' hj).congr (hframe.sent j heq) (fun hj' => ?_) fun hj' => ?_
      · exact ⟨(hframe.lock j heq).mpr hj', congrFun (hframe.locked j heq hj') c'.id⟩
      · exact ⟨hframe.readers j heq hj', hframe.defaultBox⟩
  uncalled j hj := by
    by_cases heq : j = i
    · subst heq
      rw [calls_setPhase_self] at hj
      cases hj
    · rw [calls_setPhase_of_ne heq, hframe.calls] at hj
      exact fun b v hin => h.uncalled j hj b v ((hframe.sent j heq b v).mp hin)

/-! ## Putting a value into a box -/

theorem sent_hand (b b' : Nat) :
    ((s.hand i c b).boxes b').sent =
      if b' = b then (s.boxes b).sent ++ [(i, c.value)] else (s.boxes b').sent := by
  unfold hand setBox
  by_cases heq : b' = b
  · subst heq
    simp
  · simp [heq]

theorem capacity_hand (b b' : Nat) :
    ((s.hand i c b).boxes b').capacity = (s.boxes b').capacity := by
  unfold hand setBox
  by_cases heq : b' = b
  · subst heq
    simp
  · simp [heq]

theorem closed_hand (b b' : Nat) : ((s.hand i c b).boxes b').closed = (s.boxes b').closed := by
  unfold hand setBox
  by_cases heq : b' = b
  · subst heq
    simp
  · simp [heq]

theorem Unsent.hand (h : s.Unsent i) (b : Nat) : (s.hand i c b).Handed i c.value b := by
  intro b' v
  rw [sent_hand]
  split
  · next heq =>
      have hnew : (i, v) ∉ (s.boxes b).sent := h b v
      simp [hnew, heq]
  · next hne => exact ⟨fun hin => absurd hin (h b' v), fun heq => absurd heq.1 hne⟩

theorem Frame.hand (hb : b < s.made) : Frame i s (s.hand i c b) where
  calls := rfl
  made := rfl
  defaultBox := rfl
  mailboxes _ _ h := h
  capacity := capacity_hand b
  unmade b' hb' := by rw [sent_hand, if_neg (by omega)]
  sent j hj b' v := by
    rw [sent_hand]
    split
    · next heq => simp [heq, hj]
    · exact Iff.rfl
  lock _ _ := Iff.rfl
  locked _ _ _ := rfl
  readers _ _ h := h

theorem Frame.refl : Frame i s s :=
  ⟨rfl, rfl, rfl, fun _ _ h => h, fun _ => rfl, fun _ _ => rfl, fun _ _ _ _ => Iff.rfl,
    fun _ _ => Iff.rfl, fun _ _ _ => rfl, fun _ _ h => h⟩

/-- The call takes the free lock, or gives back its own. -/
theorem Frame.relock {s₁ : PostOffice T} (h : Frame i s s₁) {lock : Option Nat}
    (hlock : ∀ j, j ≠ i → s₁.lock ≠ some j) (hlock' : ∀ j, j ≠ i → lock ≠ some j) :
    Frame i s { s₁ with lock := lock } :=
  { h with lock := fun j hj => ⟨fun h' => absurd h' (hlock' j hj), fun h' =>
      absurd ((h.lock j hj).mpr h') (hlock j hj)⟩ }

/-- The call becomes a reader of the default mailbox, or is none any more. -/
theorem Frame.reread {s₁ : PostOffice T} (h : Frame i s s₁) {readers : List Nat}
    (hreaders : ∀ j, j ≠ i → j ∈ s₁.readers → j ∈ readers) :
    Frame i s { s₁ with readers := readers } :=
  { h with readers := fun j hj h' => hreaders j hj (h.readers j hj h') }

/-! ## The steps of the post office -/

theorem Upkept.turned (h : s.Upkept) (hcall : s.calls i = some c) (hturn : Turned s i c s') :
    s'.Upkept := by
  have hkept := h.call i c hcall
  unfold CallKept at hkept
  cases hturn with
  | locked b hphase hlock hbox =>
      rw [hphase] at hkept
      refine h.setPhase hcall (Frame.refl.relock ?_ ?_) (fun _ => rfl) ⟨rfl, hbox, hkept⟩
      · intro j _ hj
        rw [hlock] at hj
        cases hj
      · rintro j hj ⟨⟩
        exact hj rfl
  | notFound hphase hlock hbox =>
      rw [hphase] at hkept
      refine h.setPhase hcall Frame.refl (fun hi => ?_) hkept
      rw [hlock] at hi
      cases hi
  | fails b hphase hclosed =>
      rw [hphase] at hkept
      exact h.setPhase hcall Frame.refl (fun _ => rfl) ⟨hkept.1, hkept.2.2⟩
  | sent b hphase hopen hroom =>
      rw [hphase] at hkept
      obtain ⟨hlock, hbox, hunsent⟩ := hkept
      have hframe : Frame i s (s.hand i c b) := .hand (h.registered c.id b hbox)
      refine h.setPhase hcall (hframe.relock ?_ ?_) (by rintro ⟨⟩) ⟨rfl, hunsent.hand b⟩
      · intro j hj hj'
        rw [PostOffice.hand, setBox, hlock] at hj'
        cases hj'
        exact hj rfl
      · rintro j hj ⟨⟩
  | removed b hphase hlock =>
      rw [hphase] at hkept
      rw [hkept.1] at hlock
      cases hlock
  | reads b hphase hbox =>
      rw [hphase] at hkept
      refine h.setPhase hcall (Frame.refl.reread ?_) ?_ ⟨List.mem_cons_self, hbox, hkept⟩
      · exact fun j _ hj => List.mem_cons_of_mem i hj
      · exact fun hlock => absurd hlock (h.not_holder hcall (by rw [hphase]; rfl))
  | noDefault hphase hbox =>
      rw [hphase] at hkept
      refine h.setPhase hcall Frame.refl ?_ ⟨rfl, hkept⟩
      exact fun hlock => absurd hlock (h.not_holder hcall (by rw [hphase]; rfl))
  | failsDefault b hphase hclosed =>
      rw [hphase] at hkept
      refine h.setPhase hcall (Frame.refl.reread ?_) ?_ hkept.2.2
      · exact fun j hj hin => List.mem_filter.mpr ⟨hin, by simpa using hj⟩
      · exact fun hlock => absurd hlock (h.not_holder hcall (by rw [hphase]; rfl))
  | sentDefault b hphase hopen hroom =>
      rw [hphase] at hkept
      obtain ⟨_, hbox, hunsent⟩ := hkept
      have hframe : Frame i s (s.hand i c b) := .hand (h.unregistered b hbox)
      refine h.setPhase hcall (hframe.reread ?_) ?_ (hunsent.hand b)
      · exact fun j hj hin => List.mem_filter.mpr ⟨hin, by simpa using hj⟩
      · exact fun hlock => absurd hlock (h.not_holder hcall (by rw [hphase]; rfl))

theorem Upkept.deliver (h : s.Upkept) (hnew : s.calls i = none) (id : Id) (value : T) :
    (s.setCall i ⟨id, value, .locking⟩).Upkept := by
  have hunsent := h.uncalled i hnew
  have hne : ∀ {j}, s.calls j ≠ none → j ≠ i := by
    rintro j hj rfl
    exact hj hnew
  refine ⟨h.registered, h.unregistered, h.capacity, h.unmade, ?_, ?_, ?_⟩
  · intro j hj
    obtain ⟨c, hc, hholds⟩ := h.holder j hj
    have hji : j ≠ i := hne (by rw [hc]; exact Option.some_ne_none c)
    exact ⟨c, (calls_setCall_of_ne hji _).trans hc, hholds⟩
  · intro j c hj
    by_cases heq : j = i
    · subst heq
      rw [calls_setCall_self] at hj
      cases hj
      exact hunsent
    · rw [calls_setCall_of_ne heq] at hj
      exact h.call j c hj
  · intro j hj
    by_cases heq : j = i
    · subst heq
      exact hunsent
    · rw [calls_setCall_of_ne heq] at hj
      exact h.uncalled j hj

/-- The post office with other boxes that hold the same values, and perhaps other tables, where
these are not locked. -/
theorem Upkept.congr (h : s.Upkept) (hcalls : s'.calls = s.calls) (hlock : s'.lock = s.lock)
    (hreaders : s'.readers = s.readers)
    (hregistered : ∀ id b, s'.mailboxes id = some b → b < s'.made)
    (hunregistered : ∀ b, s'.defaultBox = some b → b < s'.made)
    (hcapacity : ∀ b, b < s'.made → 0 < (s'.boxes b).capacity) (hmade : s.made ≤ s'.made)
    (hsent : ∀ b, (s'.boxes b).sent = (s.boxes b).sent)
    (hlocked : ∀ i, s.lock = some i → s'.mailboxes = s.mailboxes)
    (hread : ∀ i, i ∈ s.readers → s'.defaultBox = s.defaultBox) : s'.Upkept where
  registered := hregistered
  unregistered := hunregistered
  capacity := hcapacity
  unmade b hb := (hsent b).trans (h.unmade b (Nat.le_trans hmade hb))
  holder i hi := by
    rw [hcalls]
    exact h.holder i (hlock ▸ hi)
  call i c hi := by
    refine (h.call i c (hcalls ▸ hi)).congr (fun b v => by rw [hsent b]) (fun hi => ?_) fun hi => ?_
    · exact ⟨hlock.trans hi, congrFun (hlocked i hi) c.id⟩
    · exact ⟨hreaders ▸ hi, hread i hi⟩
  uncalled i hi b v hin := by
    rw [hsent b] at hin
    exact h.uncalled i (hcalls ▸ hi) b v hin

theorem Upkept.retain (h : s.Upkept) (hlock : s.lock = none) (keep : Id → Nat → Bool) :
    (s.retain keep).Upkept := by
  refine h.congr rfl rfl rfl (fun id b hb => ?_) h.unregistered h.capacity (Nat.le_refl _) (fun _ => rfl)
    (fun i hi => ?_) fun _ _ => rfl
  · exact h.registered id b (Option.filter_eq_some_iff.mp hb).1
  · rw [hlock] at hi
    cases hi

/-- A box changes, but not in what was put into it. -/
theorem Upkept.setBox (h : s.Upkept) {b : Nat} {m : Mailbox T}
    (hcapacity : m.capacity = (s.boxes b).capacity) (hsent : m.sent = (s.boxes b).sent) :
    (s.setBox b m).Upkept := by
  have hbox : ∀ b', ((s.setBox b m).boxes b').capacity = (s.boxes b').capacity ∧
      ((s.setBox b m).boxes b').sent = (s.boxes b').sent := by
    intro b'
    unfold PostOffice.setBox
    by_cases heq : b' = b
    · subst heq
      simp [hcapacity, hsent]
    · simp [heq]
  refine h.congr rfl rfl rfl h.registered h.unregistered (fun b' hb' => ?_) (Nat.le_refl _)
    (fun b' => (hbox b').2) (fun _ _ => rfl) fun _ _ => rfl
  rw [(hbox b').1]
  exact h.capacity b' hb'

theorem sent_channel (h : s.Upkept) (buffer b : Nat) :
    ((s.channel buffer).boxes b).sent = (s.boxes b).sent := by
  unfold channel PostOffice.setBox
  by_cases heq : b = s.made
  · subst heq
    simp [h.unmade s.made (Nat.le_refl _)]
  · simp [heq]

theorem capacity_channel (h : s.Upkept) {buffer : Nat} (hbuffer : 0 < buffer) {b : Nat}
    (hb : b < s.made + 1) : 0 < ((s.channel buffer).boxes b).capacity := by
  unfold channel PostOffice.setBox
  by_cases heq : b = s.made
  · subst heq
    simpa using hbuffer
  · simpa [heq] using h.capacity b (by omega)

theorem Upkept.makeMailbox (h : s.Upkept) (hlock : s.lock = none) {buffer : Nat}
    (hbuffer : 0 < buffer) (id : Id) :
    ({ s.channel buffer with
        mailboxes := Function.update s.mailboxes id (some s.made) } : PostOffice T).Upkept := by
  refine h.congr rfl rfl rfl (fun id' b hb => ?_) (fun b hb => ?_)
    (fun b hb => capacity_channel h hbuffer hb) (Nat.le_succ _) (sent_channel h buffer)
    (fun i hi => ?_) fun _ _ => rfl
  · show b < s.made + 1
    have hb' : Function.update s.mailboxes id (some s.made) id' = some b := hb
    by_cases heq : id' = id
    · rw [heq, Function.update_self] at hb'
      cases hb'
      exact Nat.lt_succ_self _
    · rw [Function.update_of_ne heq] at hb'
      exact Nat.lt_succ_of_lt (h.registered id' b hb')
  · exact Nat.lt_succ_of_lt (h.unregistered b hb)
  · rw [hlock] at hi
    cases hi

theorem Upkept.assignDefaultMailbox (h : s.Upkept) (hreaders : s.readers = []) {buffer : Nat}
    (hbuffer : 0 < buffer) :
    ({ s.channel buffer with defaultBox := some s.made } : PostOffice T).Upkept := by
  refine h.congr rfl rfl rfl (fun id b hb => Nat.lt_succ_of_lt (h.registered id b hb))
    (fun b hb => ?_) (fun b hb => capacity_channel h hbuffer hb) (Nat.le_succ _)
    (sent_channel h buffer) (fun _ _ => rfl) fun i hi => ?_
  · cases hb
    exact Nat.lt_succ_self _
  · rw [hreaders] at hi
    cases hi

theorem Upkept.removeDefaultMailbox (h : s.Upkept) (hreaders : s.readers = []) :
    ({ s with defaultBox := none } : PostOffice T).Upkept := by
  refine h.congr rfl rfl rfl h.registered (by rintro b ⟨⟩) h.capacity (Nat.le_refl _) (fun _ => rfl)
    (fun _ _ => rfl) fun i hi => ?_
  rw [hreaders] at hi
  cases hi

/-- The events of the lock on the mailboxes happen when it is free. -/
theorem of_unlocked {s₁ : PostOffice T} (h : (if s.lock.isSome then none else some s₁) = some s') :
    s.lock = none ∧ s' = s₁ := by
  split at h
  · cases h
  · next hlock => exact ⟨by simpa using hlock, (Option.some.inj h).symm⟩

theorem Upkept.step (h : s.Upkept) {e : PostEvent T} (hstep : s.step e = some s') : s'.Upkept := by
  unfold PostOffice.step at hstep
  cases e with
  | deliver i id value =>
      simp only at hstep
      split at hstep
      · cases hstep
      · next hnew =>
          cases hstep
          exact h.deliver (by simpa using hnew) id value
  | turn i =>
      obtain ⟨c, hcall, hturn⟩ := step_turn hstep
      exact h.turned hcall hturn
  | makeMailbox id buffer =>
      simp only at hstep
      split at hstep
      · cases hstep
      · next hfree =>
          cases hstep
          simp only [Bool.or_eq_true, Option.isSome_iff_ne_none, beq_iff_eq, not_or, not_not] at hfree
          exact h.makeMailbox hfree.1 (Nat.pos_of_ne_zero hfree.2) id
  | cancel id =>
      obtain ⟨hlock, rfl⟩ := of_unlocked hstep
      exact h.retain hlock _
  | cancelMany ids =>
      obtain ⟨hlock, rfl⟩ := of_unlocked hstep
      exact h.retain hlock _
  | cancelAll =>
      obtain ⟨hlock, rfl⟩ := of_unlocked hstep
      exact h.retain hlock _
  | cleanup =>
      obtain ⟨hlock, rfl⟩ := of_unlocked hstep
      exact h.retain hlock _
  | assignDefaultMailbox buffer =>
      simp only at hstep
      split at hstep
      · cases hstep
      · next hfree =>
          cases hstep
          simp only [Bool.or_eq_true, Bool.not_eq_true', List.isEmpty_eq_false_iff, beq_iff_eq,
            not_or, ne_eq, not_not] at hfree
          exact h.assignDefaultMailbox hfree.1 (Nat.pos_of_ne_zero hfree.2)
  | removeDefaultMailbox =>
      simp only at hstep
      split at hstep
      · cases hstep
      · next hfree =>
          cases hstep
          exact h.removeDefaultMailbox (by simpa using hfree)
  | recv b =>
      simp only at hstep
      split at hstep
      · cases hstep
        exact h.setBox rfl rfl
      · cases hstep
  | close b =>
      simp only at hstep
      split at hstep
      · cases hstep
        exact h.setBox rfl rfl
      · cases hstep

/-! ## Receivers that stay open -/

/-- No call sends to a receiver that is gone. -/
def Open (s : PostOffice T) : Prop :=
  ∀ i c, s.calls i = some c →
    (∀ b, c.phase = .sending b → (s.boxes b).closed = false) ∧ ∀ b, c.phase ≠ .removing b

theorem Open.congr (h : s.Open) (hcalls : s'.calls = s.calls)
    (hclosed : ∀ i c b, s.calls i = some c → c.phase = .sending b → (s.boxes b).closed = false →
      (s'.boxes b).closed = false) : s'.Open := by
  intro i c hi
  rw [hcalls] at hi
  exact ⟨fun b hb => hclosed i c b hi hb ((h i c hi).1 b hb), (h i c hi).2⟩

theorem Open.setPhase (h : s.Open) {s₁ : PostOffice T} (hcalls : s₁.calls = s.calls)
    (hclosed : ∀ b, (s₁.boxes b).closed = (s.boxes b).closed) {phase : DeliverPhase}
    (hsending : ∀ b, phase = .sending b → (s.boxes b).closed = false)
    (hremoving : ∀ b, phase ≠ .removing b) : (s₁.setPhase i c phase).Open := by
  intro j c' hj
  by_cases heq : j = i
  · subst heq
    rw [calls_setPhase_self] at hj
    cases hj
    exact ⟨fun b hb => (hclosed b).trans (hsending b hb), hremoving⟩
  · rw [calls_setPhase_of_ne heq, hcalls] at hj
    exact ⟨fun b hb => (hclosed b).trans ((h j c' hj).1 b hb), (h j c' hj).2⟩

theorem Open.turned (h : s.Open) (hcall : s.calls i = some c) (hmeets : s.Received (.turn i))
    (hturn : Turned s i c s') : s'.Open := by
  cases hturn with
  | locked b hphase hlock hbox =>
      refine h.setPhase rfl (fun _ => rfl) (fun b' hb' => ?_) (by rintro b' ⟨⟩)
      cases hb'
      exact hmeets c b hcall hphase hbox
  | notFound => exact h.setPhase rfl (fun _ => rfl) (by rintro b ⟨⟩) (by rintro b ⟨⟩)
  | fails b hphase hclosed =>
      have hopen := (h i c hcall).1 b hphase
      rw [hclosed] at hopen
      cases hopen
  | sent b =>
      refine Open.setPhase h (show ({ s.hand i c b with lock := none } : PostOffice T).calls = _
        from rfl) (closed_hand b) ?_ ?_
      · rintro b' ⟨⟩
      · rintro b' ⟨⟩
  | removed b hphase => exact absurd hphase ((h i c hcall).2 b)
  | reads => exact h.setPhase rfl (fun _ => rfl) (by rintro b ⟨⟩) (by rintro b ⟨⟩)
  | noDefault => exact h.setPhase rfl (fun _ => rfl) (by rintro b ⟨⟩) (by rintro b ⟨⟩)
  | failsDefault => exact h.setPhase rfl (fun _ => rfl) (by rintro b ⟨⟩) (by rintro b ⟨⟩)
  | sentDefault b =>
      refine Open.setPhase h (show ({ s.hand i c b with
        readers := s.readers.filter (· != i) } : PostOffice T).calls = _ from rfl)
        (closed_hand b) ?_ ?_
      · rintro b' ⟨⟩
      · rintro b' ⟨⟩

theorem closed_setBox (b : Nat) (m : Mailbox T) (b' : Nat) :
    ((s.setBox b m).boxes b').closed = if b' = b then m.closed else (s.boxes b').closed := by
  unfold setBox
  by_cases heq : b' = b
  · subst heq
    simp
  · simp [heq]

theorem Open.step (h : s.Open) {e : PostEvent T} (hmeets : s.Received e)
    (hstep : s.step e = some s') : s'.Open := by
  have hkeeps : ∀ b m, m.closed = (s.boxes b).closed → ∀ b',
      (s.boxes b').closed = false → ((s.setBox b m).boxes b').closed = false := by
    intro b m hm b' hb'
    rw [closed_setBox]
    split
    · next heq => rw [hm, ← heq, hb']
    · exact hb'
  have hchannel : ∀ buffer b, (s.boxes b).closed = false →
      ((s.channel buffer).boxes b).closed = false := by
    intro buffer b hb
    show ((s.setBox s.made _).boxes b).closed = false
    rw [closed_setBox]
    split
    · rfl
    · exact hb
  unfold PostOffice.step at hstep
  cases e with
  | deliver i id value =>
      simp only at hstep
      split at hstep
      · cases hstep
      · cases hstep
        intro j c hj
        by_cases heq : j = i
        · subst heq
          rw [calls_setCall_self] at hj
          cases hj
          exact ⟨by rintro b ⟨⟩, by rintro b ⟨⟩⟩
        · rw [calls_setCall_of_ne heq] at hj
          exact h j c hj
  | turn i =>
      obtain ⟨c, hcall, hturn⟩ := step_turn hstep
      exact h.turned hcall hmeets hturn
  | makeMailbox id buffer =>
      simp only at hstep
      split at hstep
      · cases hstep
      · cases hstep
        exact h.congr rfl fun _ _ b _ _ hb => hchannel buffer b hb
  | cancel id =>
      obtain ⟨-, rfl⟩ := of_unlocked hstep
      exact h.congr rfl fun _ _ _ _ _ hb => hb
  | cancelMany ids =>
      obtain ⟨-, rfl⟩ := of_unlocked hstep
      exact h.congr rfl fun _ _ _ _ _ hb => hb
  | cancelAll =>
      obtain ⟨-, rfl⟩ := of_unlocked hstep
      exact h.congr rfl fun _ _ _ _ _ hb => hb
  | cleanup =>
      obtain ⟨-, rfl⟩ := of_unlocked hstep
      exact h.congr rfl fun _ _ _ _ _ hb => hb
  | assignDefaultMailbox buffer =>
      simp only at hstep
      split at hstep
      · cases hstep
      · cases hstep
        exact h.congr rfl fun _ _ b _ _ hb => hchannel buffer b hb
  | removeDefaultMailbox =>
      simp only at hstep
      split at hstep
      · cases hstep
      · cases hstep
        exact h.congr rfl fun _ _ _ _ _ hb => hb
  | recv b =>
      simp only at hstep
      split at hstep
      · cases hstep
        exact h.congr rfl fun _ _ b' _ _ hb' => hkeeps b { s.boxes b with taken := (s.boxes b).taken + 1 } rfl b' hb'
      · cases hstep
  | close b =>
      simp only at hstep
      split at hstep
      · cases hstep
        refine h.congr rfl fun i c b' hi hb' hclosed => ?_
        rw [closed_setBox, if_neg]
        · exact hclosed
        · rintro rfl
          exact hmeets i c hi hb'
      · cases hstep

/-! ## Every call comes to its end -/

theorem CanReturn.head {e : PostEvent T} (hstep : s.step e = some s') (hhelps : Helps e)
    (h : s'.CanReturn i) : s.CanReturn i := by
  obtain ⟨s'', c, hreaches, hc⟩ := h
  exact ⟨s'', c, .head hstep hhelps hreaches, hc⟩

theorem CanReturn.reaches (hreaches : Machine.Reaches step Helps s s') (h : s'.CanReturn i) :
    s.CanReturn i := by
  obtain ⟨s'', c, hreaches', hc⟩ := h
  exact ⟨s'', c, hreaches.trans hreaches', hc⟩

theorem CanReturn.of_returned {a : Addressee} {r : Bool} (hcall : s.calls i = some c)
    (hphase : c.phase = .returned a r) : s.CanReturn i :=
  ⟨s, c, .refl, hcall, by rw [hphase]; rfl⟩

theorem step_turn_eq (hcall : s.calls i = some c) : s.step (.turn i) = s.turn i c := by
  unfold step
  simp only [hcall, Option.bind_some]

/-- The receiver of the box has taken this many values. -/
def takeTo (s : PostOffice T) (b taken : Nat) : PostOffice T :=
  s.setBox b { s.boxes b with taken := taken }

theorem boxes_takeTo (b taken : Nat) :
    (s.takeTo b taken).boxes b = { s.boxes b with taken := taken } :=
  Function.update_self _ _ _

theorem takeTo_takeTo (b taken taken' : Nat) :
    (s.takeTo b taken).takeTo b taken' = s.takeTo b taken' := by
  simp [takeTo, setBox]

theorem takeTo_self (b : Nat) : s.takeTo b (s.boxes b).taken = s := by
  simp [takeTo, setBox]

/-- The receiver of a box takes all that is in it. -/
theorem reaches_drained (b n : Nat) (hn : (s.boxes b).sent.length ≤ (s.boxes b).taken + n) :
    ∃ taken, (s.boxes b).sent.length ≤ taken ∧
      Machine.Reaches step Helps s (s.takeTo b taken) := by
  induction n generalizing s with
  | zero =>
      refine ⟨(s.boxes b).taken, hn, ?_⟩
      rw [takeTo_self]
      exact .refl
  | succ n ih =>
      by_cases htaken : (s.boxes b).taken < (s.boxes b).sent.length
      · have hrecv : s.step (.recv b) = some (s.takeTo b ((s.boxes b).taken + 1)) := if_pos htaken
        have hn' : (s.boxes b).sent.length ≤ (s.boxes b).taken + 1 + n := by omega
        obtain ⟨taken, hle, hreaches⟩ :=
          @ih (s.takeTo b ((s.boxes b).taken + 1)) (by rwa [boxes_takeTo])
        rw [boxes_takeTo] at hle
        rw [takeTo_takeTo] at hreaches
        exact ⟨taken, hle, .head hrecv trivial hreaches⟩
      · exact ih (by omega)

/-- Room is made in a box. -/
theorem reaches_room (h : s.Upkept) {b : Nat} (hb : b < s.made) :
    ∃ taken, Machine.Reaches step Helps s (s.takeTo b taken) ∧
      (s.takeTo b taken).hasRoom b = true := by
  obtain ⟨taken, hle, hreaches⟩ := reaches_drained (s := s) b (s.boxes b).sent.length (by omega)
  have hpos := h.capacity b hb
  refine ⟨taken, hreaches, ?_⟩
  rw [hasRoom, boxes_takeTo]
  exact decide_eq_true (by show (s.boxes b).sent.length < taken + (s.boxes b).capacity; omega)

/-- A call that sends to an open receiver hands its value over and gives the lock back. -/
theorem reaches_sent (h : s.Upkept) (hcall : s.calls i = some c) {b : Nat}
    (hphase : c.phase = .sending b) (hopen : (s.boxes b).closed = false) :
    ∃ s', Machine.Reaches step Helps s s' ∧ s'.lock = none ∧
      s'.calls i = some ⟨c.id, c.value, .returned (.registered b) true⟩ ∧
      ∀ j, j ≠ i → s'.calls j = s.calls j := by
  have hkept := h.call i c hcall
  unfold CallKept at hkept
  rw [hphase] at hkept
  obtain ⟨taken, hreaches, hroom⟩ := reaches_room h (h.registered c.id b hkept.2.1)
  have hopen' : ((s.takeTo b taken).boxes b).closed = false := by
    rw [boxes_takeTo]
    exact hopen
  have hturn : (s.takeTo b taken).step (.turn i) =
      some ({ (s.takeTo b taken).hand i c b with lock := none }.setPhase i c
        (.returned (.registered b) true)) := by
    rw [step_turn_eq (s := s.takeTo b taken) hcall]
    simp only [turn, hphase, hopen', hroom, if_true, Bool.false_eq_true, if_false]
  exact ⟨_, hreaches.trans (.head hturn trivial .refl), rfl, calls_setPhase_self _,
    fun j hj => calls_setPhase_of_ne hj _⟩

theorem canReturn_sendingDefault (h : s.Upkept) (hcall : s.calls i = some c) {b : Nat}
    (hphase : c.phase = .sendingDefault b) : s.CanReturn i := by
  have hkept := h.call i c hcall
  unfold CallKept at hkept
  rw [hphase] at hkept
  cases hclosed : (s.boxes b).closed with
  | true =>
      have hturn : s.step (.turn i) = some (s.returnDefault i c b false) := by
        rw [step_turn_eq hcall]
        simp only [turn, hphase, hclosed, if_true]
      exact .head hturn trivial (.of_returned (calls_setPhase_self _) rfl)
  | false =>
      obtain ⟨taken, hreaches, hroom⟩ := reaches_room h (h.unregistered b hkept.2.1)
      have hopen : ((s.takeTo b taken).boxes b).closed = false := by
        rw [boxes_takeTo]
        exact hclosed
      have hturn : (s.takeTo b taken).step (.turn i) =
          some (((s.takeTo b taken).hand i c b).returnDefault i c b true) := by
        rw [step_turn_eq (s := s.takeTo b taken) hcall]
        simp only [turn, hphase, hopen, hroom, if_true, Bool.false_eq_true, if_false]
      exact .reaches hreaches (.head hturn trivial (.of_returned (calls_setPhase_self _) rfl))

theorem canReturn_unregistered (h : s.Upkept) (hcall : s.calls i = some c)
    (hphase : c.phase = .unregistered) : s.CanReturn i := by
  cases hbox : s.defaultBox with
  | none =>
      have hturn : s.step (.turn i) = some (s.setPhase i c (.returned .nobody false)) := by
        rw [step_turn_eq hcall]
        simp only [turn, hphase, hbox]
      exact .head hturn trivial (.of_returned (calls_setPhase_self _) rfl)
  | some b =>
      have hturn : s.step (.turn i) =
          some ({ s with readers := i :: s.readers }.setPhase i c (.sendingDefault b)) := by
        rw [step_turn_eq hcall]
        simp only [turn, hphase, hbox]
      exact .head hturn trivial (canReturn_sendingDefault (h.step hturn) (calls_setPhase_self _) rfl)

/-- A call that gets the lock when the cleanup has just run. -/
theorem canReturn_locking (h : s.Upkept) (hcall : s.calls i = some c) (hphase : c.phase = .locking)
    (hlock : s.lock = none) : s.CanReturn i := by
  have hclean : s.step .cleanup = some (s.retain fun _ b => !(s.boxes b).closed) := by
    unfold step
    simp only [hlock, Option.isSome_none, Bool.false_eq_true, if_false]
  refine .head hclean trivial ?_
  have hkept := h.step hclean
  cases hbox : (s.retain fun _ b => !(s.boxes b).closed).mailboxes c.id with
  | none =>
      have hturn : (s.retain fun _ b => !(s.boxes b).closed).step (.turn i) =
          some ((s.retain fun _ b => !(s.boxes b).closed).setPhase i c .unregistered) := by
        rw [step_turn_eq (s := s.retain _) hcall]
        simp only [turn, hphase, hbox]
        rw [if_neg]
        simpa [retain] using hlock
      exact .head hturn trivial
        (canReturn_unregistered (hkept.step hturn) (calls_setPhase_self _) rfl)
  | some b =>
      have hopen : (s.boxes b).closed = false := by
        simpa using (Option.filter_eq_some_iff.mp hbox).2
      have hturn : (s.retain fun _ b => !(s.boxes b).closed).step (.turn i) =
          some ({ s.retain (fun _ b => !(s.boxes b).closed) with lock := some i }.setPhase i c
            (.sending b)) := by
        rw [step_turn_eq (s := s.retain _) hcall]
        simp only [turn, hphase, hbox]
        rw [if_neg]
        simpa [retain] using hlock
      refine .head hturn trivial ?_
      obtain ⟨s', hreaches, -, hreturned, -⟩ :=
        reaches_sent (hkept.step hturn) (calls_setPhase_self _) rfl hopen
      exact .reaches hreaches (.of_returned hreturned rfl)

/-- A call returns unless a receiver is gone that some call sends to; whoever has the lock sends its
value first. -/
theorem canReturn_of_open (h : s.Upkept) (hopen : s.Open) (hcall : s.calls i = some c) :
    s.CanReturn i := by
  cases hphase : c.phase with
  | sending b =>
      obtain ⟨s', hreaches, -, hreturned, -⟩ :=
        reaches_sent h hcall hphase ((hopen i c hcall).1 b hphase)
      exact .reaches hreaches (.of_returned hreturned rfl)
  | removing b => exact absurd hphase ((hopen i c hcall).2 b)
  | unregistered => exact canReturn_unregistered h hcall hphase
  | sendingDefault b => exact canReturn_sendingDefault h hcall hphase
  | returned a r => exact .of_returned hcall hphase
  | locking =>
      cases hlock : s.lock with
      | none => exact canReturn_locking h hcall hphase hlock
      | some j =>
          obtain ⟨d, hd, hholds⟩ := h.holder j hlock
          have hji : j ≠ i := by
            rintro rfl
            rw [hcall] at hd
            cases hd
            rw [hphase] at hholds
            cases hholds
          cases hphase' : d.phase with
          | sending b =>
              obtain ⟨s', hreaches, hfree, -, hothers⟩ :=
                reaches_sent h hd hphase' ((hopen j d hd).1 b hphase')
              have hkept := hreaches.invariant (I := Upkept) (fun _ _ _ h _ => h.step) h
              have hcall' := (hothers i hji.symm).trans hcall
              exact .reaches hreaches (canReturn_locking hkept hcall' hphase hfree)
          | removing b => exact absurd hphase' ((hopen j d hd).2 b)
          | locking => simp [hphase', DeliverPhase.holdsLock] at hholds
          | unregistered => simp [hphase', DeliverPhase.holdsLock] at hholds
          | sendingDefault b => simp [hphase', DeliverPhase.holdsLock] at hholds
          | returned a r => simp [hphase', DeliverPhase.holdsLock] at hholds

/-! ## What `deliver` does while the receivers are open -/

theorem turned_untouched (hturn : Turned s i c s') :
    (∀ id, id ≠ c.id → s'.mailboxes id = s.mailboxes id) ∧
      ∀ b, c.phase ≠ .sending b → c.phase ≠ .sendingDefault b → s'.boxes b = s.boxes b := by
  cases hturn with
  | removed b hphase hlock =>
      refine ⟨fun id hid => ?_, fun _ _ _ => rfl⟩
      show (s.mailboxes id).filter (fun _ => id != c.id) = s.mailboxes id
      cases s.mailboxes id with
      | none => rfl
      | some b => simp [hid]
  | sent b hphase hopen hroom =>
      exact ⟨fun _ _ => rfl, fun b' hb' _ => Function.update_of_ne (by rintro rfl; exact hb' hphase) _ _⟩
  | sentDefault b hphase hopen hroom =>
      exact ⟨fun _ _ => rfl, fun b' _ hb' => Function.update_of_ne (by rintro rfl; exact hb' hphase) _ _⟩
  | _ => exact ⟨fun _ _ => rfl, fun _ _ _ => rfl⟩

theorem Handed.mem {value : T} {b : Nat} (h : s.Handed i value b) :
    (i, value) ∈ (s.boxes b).sent :=
  (h b value).mpr ⟨rfl, rfl⟩

theorem delivers_of_open (h : s.Upkept) (hopen : s.Open) : s.Delivers where
  noSelfWait i c b hcall hphase := absurd hphase ((hopen i c hcall).2 b)
  completes i c hcall := canReturn_of_open h hopen hcall
  registered i c b hcall hphase := by
    have hkept := h.call i c hcall
    unfold CallKept at hkept
    rw [hphase] at hkept
    exact hkept.2.1
  unregistered i c b hcall hphase := by
    have hkept := h.call i c hcall
    unfold CallKept at hkept
    rw [hphase] at hkept
    exact hkept.2.1
  success i c a r hcall hphase := by
    have hkept := h.call i c hcall
    unfold CallKept at hkept
    rw [hphase] at hkept
    cases a with
    | registered b => exact ⟨fun _ => ⟨b, rfl, hkept.2⟩, fun _ => hkept.1⟩
    | unregistered b =>
        cases r with
        | true => exact ⟨fun _ => ⟨b, rfl, hkept⟩, fun _ => rfl⟩
        | false =>
            refine ⟨by rintro ⟨⟩, ?_⟩
            rintro ⟨b', -, hhanded⟩
            exact absurd hhanded.mem (hkept b' c.value)
    | nobody =>
        refine ⟨fun hr => ?_, ?_⟩
        · rw [hkept.1] at hr
          cases hr
        · rintro ⟨b, hb, -⟩
          cases hb
  gone i c b hcall hphase := by
    have hkept := h.call i c hcall
    unfold CallKept at hkept
    rw [hphase] at hkept
    exact absurd hkept.1 Bool.false_ne_true
  untouched i c s' hcall hstep := by
    rw [step_turn_eq hcall] at hstep
    exact turned_untouched (turned_of_turn hstep)

/-! ## A receiver that is gone -/

/-- The call has the lock and cannot give it back. -/
def Doomed (s : PostOffice T) (i : Nat) : Prop :=
  ∃ c, s.calls i = some c ∧
    ((∃ b, c.phase = .sending b ∧ (s.boxes b).closed = true) ∨ ∃ b, c.phase = .removing b)

theorem Doomed.lock (h : s.Upkept) (hdoomed : s.Doomed i) : s.lock = some i := by
  obtain ⟨c, hcall, hphase⟩ := hdoomed
  have hkept := h.call i c hcall
  unfold CallKept at hkept
  obtain ⟨b, hphase, -⟩ | ⟨b, hphase⟩ := hphase
  · rw [hphase] at hkept
    exact hkept.1
  · rw [hphase] at hkept
    exact hkept.1

theorem Doomed.congr (hdoomed : s.Doomed i) (hcalls : s'.calls i = s.calls i)
    (hclosed : ∀ c b, s.calls i = some c → c.phase = .sending b → (s.boxes b).closed = true →
      (s'.boxes b).closed = true) : s'.Doomed i := by
  obtain ⟨c, hcall, hphase⟩ := hdoomed
  refine ⟨c, hcalls.trans hcall, hphase.imp_left ?_⟩
  rintro ⟨b, hb, hb'⟩
  exact ⟨b, hb, hclosed c b hcall hb hb'⟩

theorem Doomed.turned (h : s.Upkept) (hdoomed : s.Doomed i) {j : Nat} {d : Deliver T}
    (hcall : s.calls j = some d) (hturn : Turned s j d s') : s'.Doomed i := by
  have hlock := hdoomed.lock h
  by_cases hji : i = j
  · subst hji
    obtain ⟨c, hc, hphase⟩ := hdoomed
    rw [hcall] at hc
    cases hc
    obtain ⟨b, hphase, hclosed⟩ | ⟨b, hphase⟩ := hphase
    · cases hturn with
      | fails b' => exact ⟨_, calls_setPhase_self _, .inr ⟨b', rfl⟩⟩
      | sent b' hphase' hopen =>
          rw [hphase] at hphase'
          cases hphase'
          rw [hclosed] at hopen
          cases hopen
      | _ hphase' => simp_all
    · cases hturn with
      | removed b' hphase' hfree =>
          rw [hlock] at hfree
          cases hfree
      | _ hphase' => simp_all
  · cases hturn with
    | locked b hphase hfree =>
        rw [hlock] at hfree
        cases hfree
    | sent b hphase =>
        refine hdoomed.congr (calls_setPhase_of_ne hji _) fun c b' _ _ hclosed => ?_
        exact (closed_hand b b').trans hclosed
    | sentDefault b hphase =>
        refine hdoomed.congr (calls_setPhase_of_ne hji _) fun c b' _ _ hclosed => ?_
        exact (closed_hand b b').trans hclosed
    | _ => exact hdoomed.congr (calls_setPhase_of_ne hji _) fun _ _ _ _ hclosed => hclosed

theorem Doomed.step (h : s.Upkept) (hdoomed : s.Doomed i) {e : PostEvent T}
    (hstep : s.step e = some s') : s'.Doomed i := by
  have hlock := hdoomed.lock h
  have hlocked : ∀ {s₁}, (if s.lock.isSome then none else some s₁) ≠ some s' := by
    intro s₁ heq
    have hfree := (of_unlocked heq).1
    rw [hlock] at hfree
    cases hfree
  have hkeeps : ∀ b m, ((s.boxes b).closed = true → m.closed = true) →
      (s.setBox b m).Doomed i := by
    intro b m hm
    refine hdoomed.congr rfl fun c b' _ _ hclosed => ?_
    rw [closed_setBox]
    split
    · next heq => exact hm (heq ▸ hclosed)
    · exact hclosed
  unfold PostOffice.step at hstep
  cases e with
  | deliver j id value =>
      simp only at hstep
      split at hstep
      · cases hstep
      · next hnew =>
          cases hstep
          refine hdoomed.congr (calls_setCall_of_ne ?_ _) fun _ _ _ _ hclosed => hclosed
          rintro rfl
          obtain ⟨c, hcall, -⟩ := hdoomed
          simp [hcall] at hnew
  | turn j =>
      obtain ⟨d, hcall, hturn⟩ := step_turn hstep
      exact hdoomed.turned h hcall hturn
  | makeMailbox id buffer => simp [hlock] at hstep
  | cancel id => exact absurd hstep hlocked
  | cancelMany ids => exact absurd hstep hlocked
  | cancelAll => exact absurd hstep hlocked
  | cleanup => exact absurd hstep hlocked
  | assignDefaultMailbox buffer =>
      simp only at hstep
      split at hstep
      · cases hstep
      · cases hstep
        refine hdoomed.congr rfl fun c b hcall hphase hclosed => ?_
        show ((s.setBox s.made _).boxes b).closed = true
        rw [closed_setBox, if_neg]
        · exact hclosed
        · have hkept := h.call i c hcall
          unfold CallKept at hkept
          rw [hphase] at hkept
          exact Nat.ne_of_lt (h.registered c.id b hkept.2.1)
  | removeDefaultMailbox =>
      simp only at hstep
      split at hstep
      · cases hstep
      · cases hstep
        exact hdoomed.congr rfl fun _ _ _ _ hclosed => hclosed
  | recv b =>
      simp only at hstep
      split at hstep
      · cases hstep
        exact hkeeps b _ id
      · cases hstep
  | close b =>
      simp only at hstep
      split at hstep
      · cases hstep
        exact hkeeps b _ fun _ => rfl
      · cases hstep

theorem not_canReturn_of_doomed (h : s.Upkept) (hdoomed : s.Doomed i) : ¬ s.CanReturn i := by
  rintro ⟨s', c, hreaches, hcall, hreturned⟩
  have hkeep : ∀ s e s', (s.Upkept ∧ s.Doomed i) → Helps e → step s e = some s' →
      s'.Upkept ∧ Doomed (T := T) s' i :=
    fun _ _ _ h _ hstep => ⟨h.1.step hstep, h.2.step h.1 hstep⟩
  obtain ⟨-, c', hcall', hphase⟩ := hreaches.invariant hkeep ⟨h, hdoomed⟩
  rw [hcall] at hcall'
  cases hcall'
  obtain ⟨b, hphase, -⟩ | ⟨b, hphase⟩ := hphase
  · rw [hphase] at hreturned
    cases hreturned
  · rw [hphase] at hreturned
    cases hreturned

theorem doomed_of_not_received {e : PostEvent T} (hmeets : ¬ s.Received e)
    (hstep : s.step e = some s') : ∃ i, s'.Doomed i := by
  cases e with
  | turn i =>
      simp only [Received, not_forall, Bool.not_eq_false] at hmeets
      obtain ⟨c, b, hcall, hphase, hbox, hclosed⟩ := hmeets
      obtain ⟨c', hcall', hturn⟩ := step_turn hstep
      rw [hcall] at hcall'
      cases hcall'
      refine ⟨i, ?_⟩
      cases hturn with
      | locked b' hphase' hlock hbox' =>
          rw [hbox] at hbox'
          cases hbox'
          exact ⟨_, calls_setPhase_self _, .inl ⟨b, rfl, hclosed⟩⟩
      | notFound hphase' hlock hbox' =>
          rw [hbox] at hbox'
          cases hbox'
      | _ hphase' => simp_all
  | close b =>
      simp only [Received, not_forall, not_not] at hmeets
      obtain ⟨i, c, hcall, hphase⟩ := hmeets
      unfold step at hstep
      simp only at hstep
      split at hstep
      · cases hstep
        refine ⟨i, c, hcall, .inl ⟨b, hphase, ?_⟩⟩
        rw [closed_setBox, if_pos rfl]
      · cases hstep
  | _ => exact absurd trivial hmeets

/-- All along a run, `deliver` does what it says exactly if a call never gets the lock to send to a
receiver that is gone, and no receiver goes while a call has the lock to send to it. -/
theorem delivers_iff (es : List (PostEvent T)) (s : PostOffice T)
    (hrun : Machine.run step es new = some s) :
    (∀ es₁ s₁, es₁ <+: es → Machine.run step es₁ (new : PostOffice T) = some s₁ → s₁.Delivers) ↔
      Machine.Meeting step Received es (new : PostOffice T) := by
  refine Machine.always_iff (I := fun s => s.Upkept ∧ s.Open) ?_ ?_ ?_ ⟨upkept_new, ?_⟩ hrun
  · exact fun s e s' h hmeets hstep => ⟨h.1.step hstep, h.2.step hmeets hstep⟩
  · exact fun s h => delivers_of_open h.1 h.2
  · intro s e s' h hmeets hstep hdelivers
    obtain ⟨i, hdoomed⟩ := doomed_of_not_received hmeets hstep
    obtain ⟨c, hcall, -⟩ := id hdoomed
    exact not_canReturn_of_doomed (h.1.step hstep) hdoomed (hdelivers.completes i c hcall)
  · rintro i c ⟨⟩

/-- A response comes after the caller has dropped its mailbox. -/
def late : List (PostEvent Nat) :=
  [.makeMailbox "a" 1, .close 0, .deliver 0 "a" 7, .turn 0, .turn 0]

/-- It is never delivered, nor refused: the call waits for its own lock. -/
theorem not_delivers_late : ∃ s, Machine.run step late new = some s ∧ s.lock = some 0 ∧
    (∃ c, s.calls 0 = some c ∧ c.phase = .removing 0) ∧ ¬ s.Delivers := by
  refine ⟨_, rfl, rfl, ⟨_, rfl, rfl⟩, fun h => ?_⟩
  exact h.noSelfWait 0 _ 0 rfl rfl rfl

/-- A response comes in time, and another one after the caller has dropped its mailbox and the
cleanup has run. -/
def inTime : List (PostEvent Nat) :=
  [.makeMailbox "a" 1, .deliver 0 "a" 7, .turn 0, .turn 0, .recv 0, .close 0, .cleanup,
    .deliver 1 "a" 8, .turn 1, .turn 1]

theorem delivers_inTime : ∃ s, Machine.run step inTime new = some s ∧ s.Delivers := by
  refine ⟨_, rfl, (delivers_iff inTime _ rfl).mpr ?_ inTime _ List.prefix_rfl rfl⟩
  refine .cons trivial rfl <| .cons trivial rfl <| .cons ?_ rfl <| .cons ?_ rfl <|
    .cons trivial rfl <| .cons ?_ rfl <| .cons trivial rfl <| .cons trivial rfl <|
    .cons ?_ rfl <| .cons ?_ rfl trivial
  · rintro c b ⟨⟩ - ⟨⟩
    rfl
  · rintro c b ⟨⟩ ⟨⟩
  · intro i c hcall hphase
    by_cases hi : i = 0
    · subst hi
      cases hcall
      cases hphase
    · simp [setBox, setPhase, setCall, hand, channel, new, hi] at hcall
  · rintro c b ⟨⟩ - hbox
    cases hbox
  · rintro c b ⟨⟩ ⟨⟩

end PostOffice

end Distant
