import Mathlib.Data.List.Basic
import Mathlib.Logic.Function.Basic
import Distant.Lib.Machine

/-!
# The queued reply of a request

The handler of a request, and the tasks it leaves running, send through clones of one
`QueuedServerReply`. While `hold` is set a message goes to the queue; `on_request` puts the response
before all of them and flushes. A call of `send` looks at `hold` and takes the lock of the queue
later, so that the flush may come in between: `answered_iff` says that messages are lost in this way
only.
-/

namespace Distant

variable {M R : Type}

/-- What is put in the reply channel of the connection: the response, or a message of a sender. -/
inductive Message (M R : Type) where
  | response (response : R)
  | sent (sender : Nat) (data : M)

/-- A call of `send`. -/
inductive SendPhase (M : Type) where
  | idle
  /-- has looked at `hold`, and goes to the queue or to the channel -/
  | checked (data : M) (hold : Bool)

inductive RequestPhase (R : Type) where
  /-- the handler runs -/
  | handling
  /-- `send_before` has looked at `hold` -/
  | responding (response : R) (hold : Bool)
  | responded (response : R)
  /-- `flush` has the lock of `hold` -/
  | flushing (response : R)
  | flushed (response : R)

structure QueuedServerReply (M R : Type) where
  hold : Bool
  queue : List (Message M R)
  /-- what was put in the channel -/
  channel : List (Message M R)
  /-- the receiver of the channel is gone -/
  closed : Bool
  request : RequestPhase R
  senders : Nat → SendPhase M
  /-- what each sender has called `send` with -/
  given : Nat → List M

inductive ReplyEvent (M R : Type) where
  /-- a sender calls `send`, and acquires `hold` -/
  | send (k : Nat) (data : M)
  /-- its call acquires `queue`, or puts the message in the channel -/
  | finish (k : Nat)
  /-- the handler is done, and `send_before` acquires `hold` -/
  | sendBefore (response : R)
  /-- `send_before` acquires `queue`, or puts the response in the channel -/
  | insert
  /-- `flush(false)` acquires `hold` -/
  | flush
  /-- `flush` acquires `queue` -/
  | drain
  /-- the receiver of the channel is dropped -/
  | close

namespace QueuedServerReply

/-- The reply that `ServerReply::queue` makes. -/
def new : QueuedServerReply M R := ⟨true, [], [], false, .handling, fun _ => .idle, fun _ => []⟩

/-- Puts messages in the channel; if the receiver is gone they are lost. -/
def inner (s : QueuedServerReply M R) (messages : List (Message M R)) : QueuedServerReply M R :=
  if s.closed then s else { s with channel := s.channel ++ messages }

def step (s : QueuedServerReply M R) : ReplyEvent M R → Option (QueuedServerReply M R)
  | .send k data =>
    match s.request, s.senders k with
    | .flushing _, _ => none
    | _, .checked _ _ => none
    | _, .idle =>
      some { s with
        senders := Function.update s.senders k (.checked data s.hold)
        given := Function.update s.given k (s.given k ++ [data]) }
  | .finish k =>
    match s.senders k with
    | .idle => none
    | .checked data hold =>
      let s' := { s with senders := Function.update s.senders k .idle }
      if hold then some { s' with queue := s'.queue ++ [.sent k data] }
      else some (s'.inner [.sent k data])
  | .sendBefore response =>
    match s.request with
    | .handling => some { s with request := .responding response s.hold }
    | _ => none
  | .insert =>
    match s.request with
    | .responding response hold =>
      let s' := { s with request := .responded response }
      if hold then some { s' with queue := .response response :: s'.queue }
      else some (s'.inner [.response response])
    | _ => none
  | .flush =>
    match s.request with
    | .responded response => some { s with request := .flushing response }
    | _ => none
  | .drain =>
    match s.request with
    | .flushing response =>
      let s' := { s with queue := [], request := .flushed response }
      -- the first message that cannot be sent ends the loop, and `hold` stays
      if s.closed && !s.queue.isEmpty then some s'
      else some { s'.inner s.queue with hold := false }
    | _ => none
  | .close => some { s with closed := true }

/-- The messages of a sender. -/
def ofSender (k : Nat) : Message M R → Option M
  | .response _ => none
  | .sent k' data => if k' = k then some data else none

def IsResponse : Message M R → Prop
  | .response _ => True
  | .sent _ _ => False

/-- The response comes before all else, and once. -/
def Responds (response : R) (messages : List (Message M R)) : Prop :=
  ∃ rest, messages = .response response :: rest ∧ ∀ m ∈ rest, ¬ IsResponse m

/-- Nothing is in the channel, or the response and then messages of senders. -/
def RespondsFirst (s : QueuedServerReply M R) : Prop :=
  s.channel = [] ∨ ∃ response, s.request = .flushed response ∧ Responds response s.channel

/-- All calls have returned. -/
def Returned (s : QueuedServerReply M R) : Prop :=
  (∃ response, s.request = .flushed response) ∧ ∀ k, s.senders k = .idle

/-- The response and then all else is in the channel, in each sender's own order. -/
structure Answered (s : QueuedServerReply M R) : Prop where
  first : ∃ response, s.request = .flushed response ∧ Responds response s.channel
  all : ∀ k, s.channel.filterMap (ofSender k) = s.given k
  queue : s.queue = []

/-- Whoever has seen `hold` set gets to the queue before it is flushed. -/
def InTime (s : QueuedServerReply M R) : ReplyEvent M R → Prop
  | .finish k => ∀ data response, s.senders k = .checked data true → s.request ≠ .flushed response
  | _ => True

/-! ## What a step does -/

variable {s s' : QueuedServerReply M R}

theorem inner_of_open (h : s.closed = false) (messages : List (Message M R)) :
    s.inner messages = { s with channel := s.channel ++ messages } := by
  rw [inner, if_neg (by rw [h]; exact Bool.false_ne_true)]

theorem inner_of_closed (h : s.closed = true) (messages : List (Message M R)) :
    s.inner messages = s := by
  rw [inner, if_pos h]

/-- The steps, each with what it needs. -/
inductive Stepped (s : QueuedServerReply M R) : ReplyEvent M R → QueuedServerReply M R → Prop where
  | send (k : Nat) (data : M) : s.senders k = .idle → (∀ response, s.request ≠ .flushing response) →
      Stepped s (.send k data) { s with
        senders := Function.update s.senders k (.checked data s.hold)
        given := Function.update s.given k (s.given k ++ [data]) }
  | push (k : Nat) (data : M) : s.senders k = .checked data true →
      Stepped s (.finish k) { s with
        senders := Function.update s.senders k .idle
        queue := s.queue ++ [.sent k data] }
  | direct (k : Nat) (data : M) : s.senders k = .checked data false →
      Stepped s (.finish k)
        ({ s with senders := Function.update s.senders k .idle }.inner [.sent k data])
  | sendBefore (response : R) : s.request = .handling →
      Stepped s (.sendBefore response) { s with request := .responding response s.hold }
  | insert (response : R) : s.request = .responding response true →
      Stepped s .insert
        { s with request := .responded response, queue := .response response :: s.queue }
  | insertDirect (response : R) : s.request = .responding response false →
      Stepped s .insert ({ s with request := .responded response }.inner [.response response])
  | flush (response : R) : s.request = .responded response →
      Stepped s .flush { s with request := .flushing response }
  | drain (response : R) : s.request = .flushing response → s.closed = false →
      Stepped s .drain { s with
        queue := [], request := .flushed response, channel := s.channel ++ s.queue, hold := false }
  | drainClosed (response : R) (hold : Bool) : s.request = .flushing response → s.closed = true →
      Stepped s .drain { s with queue := [], request := .flushed response, hold := hold }
  | close : Stepped s .close { s with closed := true }

theorem stepped_of_step {e : ReplyEvent M R} (h : s.step e = some s') : Stepped s e s' := by
  cases e with
  | send k data =>
      simp only [step] at h
      split at h
      · cases h
      · cases h
      · next hidle hflushing =>
          cases h
          exact .send k data hidle hflushing
  | finish k =>
      simp only [step] at h
      split at h
      · cases h
      · next data hold hphase =>
          cases hold with
          | true =>
              cases h
              exact .push k data hphase
          | false =>
              cases h
              exact .direct k data hphase
  | sendBefore response =>
      simp only [step] at h
      split at h
      · next hphase =>
          cases h
          exact .sendBefore response hphase
      · cases h
  | insert =>
      simp only [step] at h
      split at h
      · next response hold hphase =>
          cases hold with
          | true =>
              cases h
              exact .insert response hphase
          | false =>
              cases h
              exact .insertDirect response hphase
      · cases h
  | flush =>
      simp only [step] at h
      split at h
      · next response hphase =>
          cases h
          exact .flush response hphase
      · cases h
  | drain =>
      simp only [step] at h
      split at h
      · next response hphase =>
          by_cases hlost : (s.closed && !s.queue.isEmpty) = true
          · rw [if_pos hlost] at h
            cases h
            exact .drainClosed response s.hold hphase (Bool.and_eq_true_iff.mp hlost).1
          · rw [if_neg hlost] at h
            cases h
            rcases Bool.eq_false_or_eq_true s.closed with hclosed | hclosed
            · rw [inner_of_closed (by exact hclosed)]
              exact .drainClosed response false hphase hclosed
            · rw [inner_of_open (by exact hclosed)]
              exact .drain response hphase hclosed
      · cases h
  | close =>
      cases h
      exact .close

/-! ## Before and after the flush -/

/-- Nothing has got past the queue. -/
structure Holding (s : QueuedServerReply M R) : Prop where
  hold : s.hold = true
  channel : s.channel = []
  checked : ∀ k data hold, s.senders k = .checked data hold → hold = true

/-- What the queue has until `flush` has drained it. -/
def Awaiting : RequestPhase R → List (Message M R) → Prop
  | .handling, queue => ∀ m ∈ queue, ¬ IsResponse m
  | .responding _ hold, queue => hold = true ∧ ∀ m ∈ queue, ¬ IsResponse m
  | .responded response, queue => Responds response queue
  | .flushing response, queue => Responds response queue
  | .flushed _, _ => False

def Ordered (s : QueuedServerReply M R) : Prop :=
  (Holding s ∧ Awaiting s.request s.queue) ∨ ∃ response, s.request = .flushed response ∧
    ((s.closed = true ∧ s.channel = []) ∨ Responds response s.channel)

theorem not_response_append {messages : List (Message M R)} (h : ∀ m ∈ messages, ¬ IsResponse m)
    (k : Nat) (data : M) : ∀ m ∈ messages ++ [.sent k data], ¬ IsResponse m := by
  intro m hm
  rcases List.mem_append.mp hm with hm | hm
  · exact h m hm
  · cases List.mem_singleton.mp hm
    exact id

theorem Responds.append {response : R} {messages : List (Message M R)}
    (h : Responds response messages) (k : Nat) (data : M) :
    Responds response (messages ++ [.sent k data]) := by
  obtain ⟨rest, rfl, hrest⟩ := h
  exact ⟨rest ++ [.sent k data], rfl, not_response_append hrest k data⟩

theorem Awaiting.append {request : RequestPhase R} {queue : List (Message M R)}
    (h : Awaiting request queue) (k : Nat) (data : M) :
    Awaiting request (queue ++ [.sent k data]) := by
  cases request with
  | handling => exact not_response_append h k data
  | responding response hold => exact ⟨h.1, not_response_append h.2 k data⟩
  | responded response => exact Responds.append h k data
  | flushing response => exact Responds.append h k data
  | flushed response => exact h

/-- A sender goes on; what it has seen of `hold` is that it is set. -/
theorem Holding.setSender (h : Holding s) {k : Nat} {phase : SendPhase M}
    (hphase : ∀ data hold, phase = .checked data hold → hold = true)
    (given : Nat → List M) (queue : List (Message M R)) :
    Holding { s with
      senders := Function.update s.senders k phase, given := given, queue := queue } where
  hold := h.hold
  channel := h.channel
  checked := by
    intro j data hold hj
    simp only at hj
    by_cases heq : j = k
    · rw [heq, Function.update_self] at hj
      exact hphase data hold hj
    · rw [Function.update_of_ne heq] at hj
      exact h.checked j data hold hj

/-- `on_request` goes on, or the receiver goes. -/
theorem Holding.setRequest (h : Holding s) (request : RequestPhase R) (queue : List (Message M R))
    (closed : Bool) : Holding { s with request := request, queue := queue, closed := closed } :=
  ⟨h.hold, h.channel, h.checked⟩

theorem ordered_new : (new : QueuedServerReply M R).Ordered :=
  .inl ⟨⟨rfl, rfl, by rintro k data hold ⟨⟩⟩, by rintro m ⟨⟩⟩

/-- Until the queue is drained. -/
theorem Ordered.holding (h : s.Ordered) (hr : ∀ response, s.request ≠ .flushed response) :
    Holding s ∧ Awaiting s.request s.queue := by
  rcases h with h | ⟨response, hflushed, -⟩
  · exact h
  · exact absurd hflushed (hr response)

theorem Ordered.step (h : s.Ordered) {e : ReplyEvent M R} (hstep : Stepped s e s') : s'.Ordered := by
  cases hstep with
  | send k data hk hflushing =>
      rcases h with ⟨hholding, hqueue⟩ | h
      · refine .inl ⟨hholding.setSender ?_ _ s.queue, hqueue⟩
        rintro data' hold ⟨⟩
        exact hholding.hold
      · exact .inr h
  | push k data hk =>
      rcases h with ⟨hholding, hqueue⟩ | h
      · exact .inl ⟨hholding.setSender (by rintro _ _ ⟨⟩) s.given _, hqueue.append k data⟩
      · exact .inr h
  | direct k data hk =>
      rcases h with ⟨hholding, -⟩ | ⟨response, hr, h⟩
      · exact absurd (hholding.checked k data false hk) Bool.false_ne_true
      · refine .inr ⟨response, ?_⟩
        rcases Bool.eq_false_or_eq_true s.closed with hclosed | hclosed
        · rw [inner_of_closed (by exact hclosed)]
          exact ⟨hr, h⟩
        · rw [inner_of_open (by exact hclosed)]
          refine ⟨hr, h.imp (fun h => ?_) fun h => h.append k data⟩
          rw [hclosed] at h
          exact absurd h.1 Bool.false_ne_true
  | sendBefore response hr =>
      obtain ⟨hholding, hqueue⟩ := h.holding (by rw [hr]; rintro _ ⟨⟩)
      rw [hr] at hqueue
      exact .inl ⟨hholding.setRequest _ s.queue s.closed, hholding.hold, hqueue⟩
  | insert response hr =>
      obtain ⟨hholding, hqueue⟩ := h.holding (by rw [hr]; rintro _ ⟨⟩)
      rw [hr] at hqueue
      exact .inl ⟨hholding.setRequest _ _ s.closed, s.queue, rfl, hqueue.2⟩
  | insertDirect response hr =>
      obtain ⟨-, hqueue⟩ := h.holding (by rw [hr]; rintro _ ⟨⟩)
      rw [hr] at hqueue
      exact absurd hqueue.1 Bool.false_ne_true
  | flush response hr =>
      obtain ⟨hholding, hqueue⟩ := h.holding (by rw [hr]; rintro _ ⟨⟩)
      rw [hr] at hqueue
      exact .inl ⟨hholding.setRequest _ s.queue s.closed, hqueue⟩
  | drain response hr hclosed =>
      obtain ⟨hholding, hqueue⟩ := h.holding (by rw [hr]; rintro _ ⟨⟩)
      rw [hr] at hqueue
      refine .inr ⟨response, rfl, .inr ?_⟩
      rw [hholding.channel]
      exact hqueue
  | drainClosed response hold hr hclosed =>
      obtain ⟨hholding, -⟩ := h.holding (by rw [hr]; rintro _ ⟨⟩)
      exact .inr ⟨response, rfl, .inl ⟨hclosed, hholding.channel⟩⟩
  | close =>
      rcases h with ⟨hholding, hqueue⟩ | ⟨response, hr, h⟩
      · exact .inl ⟨hholding.setRequest s.request s.queue true, hqueue⟩
      · exact .inr ⟨response, hr, h.imp_left fun h => ⟨rfl, h.2⟩⟩

theorem Ordered.respondsFirst (h : s.Ordered) : s.RespondsFirst := by
  rcases h with ⟨hholding, -⟩ | ⟨response, hr, ⟨-, hchannel⟩ | h⟩
  · exact .inl hholding.channel
  · exact .inl hchannel
  · exact .inr ⟨response, hr, h⟩

/-! ## What was sent and what was lost -/

/-- The message of a call that has not returned. -/
def inFlight : SendPhase M → List M
  | .idle => []
  | .checked data _ => [data]

/-- Every message is in the channel, in the queue or with its sender, in this order, and after the
flush none is in the queue. -/
def Accounted (s : QueuedServerReply M R) : Prop :=
  s.closed = false →
    (∀ k, s.channel.filterMap (ofSender k) ++ s.queue.filterMap (ofSender k) ++
      inFlight (s.senders k) = s.given k) ∧
    ∀ response, s.request = .flushed response → s.queue = []

/-- Something was left in the queue. -/
def Stranded (s : QueuedServerReply M R) : Prop :=
  (∃ response, s.request = .flushed response) ∧ s.queue ≠ []

@[simp] theorem ofSender_sent (k j : Nat) (data : M) :
    ofSender (R := R) k (.sent j data) = if j = k then some data else none := rfl

@[simp] theorem ofSender_response (k : Nat) (response : R) :
    ofSender (M := M) k (.response response) = none := rfl

/-- A call has put its message where all that the sender had sent before comes first. -/
theorem given_of_put {k : Nat} {data : M} {hold : Bool} (hk : s.senders k = .checked data hold)
    {past : List (Message M R)}
    (h : ∀ j, past.filterMap (ofSender j) ++ inFlight (s.senders j) = s.given j) (j : Nat) :
    (past ++ [Message.sent k data]).filterMap (ofSender j) ++
      inFlight (Function.update s.senders k .idle j) = s.given j := by
  rw [← h j, List.filterMap_append]
  by_cases heq : j = k
  · subst heq
    simp [hk, inFlight]
  · simp [heq, Ne.symm heq]

theorem accounted_new : (new : QueuedServerReply M R).Accounted :=
  fun _ => ⟨fun _ => rfl, by rintro response ⟨⟩⟩

theorem Accounted.step (h : s.Accounted) (hordered : s.Ordered) {e : ReplyEvent M R}
    (hinTime : s.InTime e) (hstep : Stepped s e s') : s'.Accounted := by
  intro hopen
  cases hstep with
  | send k data hk hflushing =>
      obtain ⟨hcount, hempty⟩ := h hopen
      refine ⟨fun j => ?_, hempty⟩
      simp only
      by_cases heq : j = k
      · subst heq
        rw [Function.update_self, Function.update_self, ← hcount j, hk]
        simp [inFlight]
      · rw [Function.update_of_ne heq, Function.update_of_ne heq]
        exact hcount j
  | push k data hk =>
      obtain ⟨hcount, hempty⟩ := h hopen
      refine ⟨fun j => ?_, fun response hr => absurd hr (hinTime data response hk)⟩
      rw [← List.filterMap_append, ← List.append_assoc]
      exact given_of_put hk (fun j => by rw [List.filterMap_append]; exact hcount j) j
  | direct k data hk =>
      rcases hordered with ⟨hholding, -⟩ | ⟨response, hr, -⟩
      · exact absurd (hholding.checked k data false hk) Bool.false_ne_true
      · rcases Bool.eq_false_or_eq_true s.closed with hclosed | hclosed
        · rw [inner_of_closed (by exact hclosed)] at hopen
          exact absurd (hclosed.symm.trans hopen) (by simp)
        · obtain ⟨hcount, hempty⟩ := h hclosed
          have hqueue := hempty response hr
          rw [inner_of_open (by exact hclosed)]
          refine ⟨fun j => ?_, hempty⟩
          have hput : ∀ j, s.channel.filterMap (ofSender j) ++ inFlight (s.senders j) =
              s.given j := by
            intro j
            have hj := hcount j
            rwa [hqueue, List.filterMap_nil, List.append_nil] at hj
          rw [hqueue, List.filterMap_nil, List.append_nil]
          exact given_of_put hk hput j
  | sendBefore response hr =>
      obtain ⟨hcount, -⟩ := h hopen
      exact ⟨hcount, by rintro r ⟨⟩⟩
  | insert response hr =>
      obtain ⟨hcount, -⟩ := h hopen
      refine ⟨fun j => ?_, by rintro r ⟨⟩⟩
      rw [List.filterMap_cons_none (by rfl)]
      exact hcount j
  | insertDirect response hr =>
      obtain ⟨-, hqueue⟩ := hordered.holding (by rw [hr]; rintro _ ⟨⟩)
      rw [hr] at hqueue
      exact absurd hqueue.1 Bool.false_ne_true
  | flush response hr =>
      obtain ⟨hcount, -⟩ := h hopen
      exact ⟨hcount, by rintro r ⟨⟩⟩
  | drain response hr hclosed =>
      obtain ⟨hcount, -⟩ := h hclosed
      refine ⟨fun j => ?_, fun _ _ => rfl⟩
      rw [List.filterMap_append, List.filterMap_nil, List.append_nil]
      exact hcount j
  | drainClosed response hold hr hclosed => exact absurd (hclosed.symm.trans hopen) (by simp)
  | close => cases hopen

theorem Stranded.step (h : s.Stranded) {e : ReplyEvent M R} (hstep : Stepped s e s') :
    s'.Stranded := by
  obtain ⟨⟨response, hr⟩, hqueue⟩ := h
  cases hstep with
  | send => exact ⟨⟨response, hr⟩, hqueue⟩
  | push k data hk => exact ⟨⟨response, hr⟩, by simp⟩
  | direct k data hk =>
      unfold Stranded inner
      split
      · exact ⟨⟨response, hr⟩, hqueue⟩
      · exact ⟨⟨response, hr⟩, hqueue⟩
  | close => exact ⟨⟨response, hr⟩, hqueue⟩
  | sendBefore response' hr' =>
      rw [hr] at hr'
      cases hr'
  | insert response' hr' =>
      rw [hr] at hr'
      cases hr'
  | insertDirect response' hr' =>
      rw [hr] at hr'
      cases hr'
  | flush response' hr' =>
      rw [hr] at hr'
      cases hr'
  | drain response' hr' =>
      rw [hr] at hr'
      cases hr'
  | drainClosed response' hold hr' =>
      rw [hr] at hr'
      cases hr'

theorem stranded_of_not_inTime {e : ReplyEvent M R} (hinTime : ¬ s.InTime e)
    (hstep : Stepped s e s') : s'.Stranded := by
  cases hstep with
  | push k data hk =>
      simp only [InTime, not_forall, not_not] at hinTime
      obtain ⟨data', response, -, hr⟩ := hinTime
      exact ⟨⟨response, hr⟩, by simp⟩
  | direct k data hk =>
      simp only [InTime, not_forall] at hinTime
      obtain ⟨data', response, hk', -⟩ := hinTime
      rw [hk] at hk'
      cases hk'
  | _ => exact absurd trivial hinTime

theorem answered_of_accounted (h : s.Accounted) (hordered : s.Ordered) (hreturned : s.Returned)
    (hopen : s.closed = false) : s.Answered := by
  obtain ⟨⟨response, hr⟩, hidle⟩ := hreturned
  obtain ⟨hcount, hempty⟩ := h hopen
  have hqueue := hempty response hr
  refine ⟨⟨response, hr, ?_⟩, fun k => ?_, hqueue⟩
  · rcases hordered with ⟨-, hawaiting⟩ | ⟨response', hr', h⟩
    · rw [hr] at hawaiting
      exact hawaiting.elim
    · rw [hr] at hr'
      cases hr'
      refine h.resolve_left fun h => ?_
      rw [hopen] at h
      exact Bool.false_ne_true h.1
  · have hk := hcount k
    rw [hqueue, hidle k] at hk
    simpa [inFlight] using hk

/-- In every run the response is the first message of the channel. Once all calls have returned, and
the receiver of the channel is still there, the messages of all senders have come after it, exactly
if nobody who had seen `hold` set got to the queue after the flush. -/
theorem answered_iff (es : List (ReplyEvent M R)) (s : QueuedServerReply M R)
    (hrun : Machine.run step es new = some s) :
    s.RespondsFirst ∧ (s.Returned → s.closed = false →
      (s.Answered ↔ Machine.Meeting step InTime es (new : QueuedServerReply M R))) := by
  have hordered : s.Ordered :=
    Machine.invariant (C := fun _ _ => True)
      (fun _ _ _ h _ hstep => h.step (stepped_of_step hstep)) ordered_new
      (Machine.meeting_of_always (fun _ _ _ => trivial) _) hrun
  refine ⟨hordered.respondsFirst, fun hreturned hopen => ?_⟩
  have hrest := Machine.kept_or_broken (I := fun s => s.Ordered ∧ s.Accounted) (C := InTime)
    (D := Stranded)
    (fun s e s' h _ hinTime hstep =>
      ⟨h.1.step (stepped_of_step hstep), h.2.step h.1 hinTime (stepped_of_step hstep)⟩)
    (fun s e s' _ _ hinTime hstep => stranded_of_not_inTime hinTime (stepped_of_step hstep))
    (fun s e s' h _ hstep => h.step (stepped_of_step hstep)) ⟨ordered_new, accounted_new⟩
    (Machine.meeting_of_always (C := fun _ _ => True) (fun _ _ _ => trivial) _) hrun
  rcases hrest with ⟨hmeets, -, haccounted⟩ | ⟨hmeets, hstranded⟩
  · exact ⟨fun _ => hmeets, fun _ => answered_of_accounted haccounted hordered hreturned hopen⟩
  · exact ⟨fun h => absurd h.queue hstranded.2, fun h => absurd h hmeets⟩

/-- A sender looks at `hold` before the flush and gets to the queue after it. -/
def overtaken : List (ReplyEvent Nat Nat) :=
  [.send 0 7, .sendBefore 200, .insert, .flush, .drain, .finish 0]

/-- All calls have returned, and the message is still in the queue. -/
theorem not_answered_overtaken : ∃ s, Machine.run step overtaken new = some s ∧ s.Returned ∧
    s.closed = false ∧ s.channel = [.response 200] ∧ s.queue = [.sent 0 7] ∧ ¬ s.Answered := by
  refine ⟨_, rfl, ⟨⟨200, rfl⟩, fun k => ?_⟩, rfl, rfl, rfl, fun h => ?_⟩
  · by_cases hk : k = 0
    · rw [hk]
      rfl
    · simp [hk, new, inner]
  · cases h.queue

/-- One message before the flush and one after it. -/
def answeredRun : List (ReplyEvent Nat Nat) :=
  [.send 0 7, .sendBefore 200, .finish 0, .insert, .flush, .drain, .send 0 8, .finish 0]

theorem answered_answeredRun : ∃ s, Machine.run step answeredRun new = some s ∧ s.Answered ∧
    s.channel = [.response 200, .sent 0 7, .sent 0 8] := by
  refine ⟨_, rfl, ((answered_iff answeredRun _ rfl).2 ⟨⟨200, rfl⟩, fun k => ?_⟩ rfl).mpr ?_, rfl⟩
  · simp [new, inner]
  · refine .cons trivial rfl <| .cons trivial rfl <| .cons ?_ rfl <| .cons trivial rfl <|
      .cons trivial rfl <| .cons trivial rfl <| .cons trivial rfl <| .cons ?_ rfl trivial
    · rintro data response - ⟨⟩
    · rintro data response ⟨⟩

end QueuedServerReply

end Distant
