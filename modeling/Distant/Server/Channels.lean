import Distant.Server.Waiting

/-!
# The channel of a session's replies

The replies of a session go into one channel, which every connection of the session hands on to the
next one. A task takes the state of its predecessor out of the table, and puts its own in when it
has the channel; between the two the table has no entry for the session, and the lock on it is free.
`continuous_of_run` says that no reply is lost or taken twice in any run in which no other task looks
up the same id meanwhile.
-/

namespace Distant

/-- How a task has to do with the channel of its session. -/
inductive Stage where
  | waiting (owner : Nat)
  | storing (channel : Nat)
  | serving (channel : Nat)
  deriving DecidableEq, Repr

namespace SessionPhase

variable {B : Type}

def stage : SessionPhase B → Option (ConnectionId × Stage)
  | .waiting id _ owner => some (id, .waiting owner)
  | .storing id _ channel => some (id, .storing channel)
  | .serving id _ channel => some (id, .serving channel)
  | _ => none

/-- The task had the channel of its session, or will not get it. -/
def isPast : SessionPhase B → Bool
  | .storing .. => true
  | .serving .. => true
  | .leaving .. => true
  | .ended => true
  | _ => false

/-- The task has not sent its channel back. -/
def isRunning : SessionPhase B → Bool
  | .leaving .. => false
  | .ended => false
  | _ => true

def isStoring : SessionPhase B → Bool
  | .storing .. => true
  | _ => false

end SessionPhase

namespace Sessions

variable {B R X : Type} {replay : X → B → Except B B} {noBackup : B} {s s' : Sessions B R}

def stage (s : Sessions B R) (k : Nat) : Option (ConnectionId × Stage) := (s.phase k).stage

/-! ## What is claimed, and under which condition -/

/-- All replies of a session that were taken, by one task after the other. -/
def takenAll (s : Sessions B R) (id : ConnectionId) : List R := (s.servers id).flatMap s.taken

structure Continuous (s : Sessions B R) : Prop where
  /-- what the tasks of a session have taken is how its handlers' replies begin -/
  isFront : ∀ id, s.takenAll id <+: s.put id
  /-- and the channel with all the others is at a task, or is saved for the next one -/
  available : ∀ id, s.servers id ≠ [] → ∃ channel, s.takenAll id ++ s.queues channel = s.put id ∧
    ((∃ k, s.stage k = some (id, .storing channel) ∨ s.stage k = some (id, .serving channel)) ∨
      ∃ k, (s.tasks k).channelRx = .sent channel ∧
        (s.connections id = some k ∨ ∃ w, s.stage w = some (id, .waiting k)))

/-- The condition on a step: an id is not looked up while a task that has taken its entry out of the
table has yet to store its own. -/
def Exclusive (s : Sessions B R) : SessionEvent B R X → Prop
  | .lookup k => ∀ id backup, s.phase k = .looking id backup →
    ∀ j channel, s.stage j ≠ some (id, .storing channel)
  | _ => True

/-! ## The invariant -/

/-- The task serves with the channel, or has sent it back. -/
def Holding (s : Sessions B R) (id : ConnectionId) (k channel : Nat) : Prop :=
  (s.stage k = some (id, .serving channel) ∧ (s.tasks k).channelRx = .pending) ∨
    ((s.tasks k).channelRx = .sent channel ∧ ∀ st, s.stage k ≠ some (id, st))

/-- Where the channel of a session is, if `k` was the last that got it. -/
inductive Place (s : Sessions B R) (id : ConnectionId) (k channel : Nat) : Prop where
  | storing (hstage : s.stage k = some (id, .storing channel)) (hentry : s.connections id = none)
      (alone : ∀ j st, s.stage j = some (id, st) → j = k)
  | listed (hholds : s.Holding id k channel) (hentry : s.connections id = some k)
      (alone : ∀ j st, s.stage j = some (id, st) → j = k ∧ st = .serving channel)
  | awaited (w : Nat) (hholds : s.Holding id k channel) (hentry : s.connections id = none)
      (hwaits : s.stage w = some (id, .waiting k))
      (alone : ∀ j st, s.stage j = some (id, st) → j = w ∨ (j = k ∧ st = .serving channel))

inductive Session (s : Sessions B R) (id : ConnectionId) : Prop where
  /-- no task has served it yet -/
  | none (hservers : s.servers id = []) (hentry : s.connections id = none) (hput : s.put id = [])
      (alone : ∀ j st, s.stage j ≠ some (id, st))
  | owned (before : List Nat) (k channel : Nat) (hservers : s.servers id = before ++ [k])
      (hown : ∀ j channel', s.replies j = some (id, channel') → channel' = channel)
      (hput : s.takenAll id ++ s.queues channel = s.put id) (hplace : s.Place id k channel)

structure Lineage (s : Sessions B R) : Prop where
  lock : ∀ w id k, s.stage w = some (id, .waiting k) → s.lock = some w
  known : ∀ j id channel, s.replies j = some (id, channel) →
    channel < s.channels ∧ j < s.spawned ∧ (s.phase j).isPast = true ∧ j ∈ s.servers id
  member : ∀ id, ∀ j ∈ s.servers id, ∃ channel, s.replies j = some (id, channel)
  nodup : ∀ id, (s.servers id).Nodup
  /-- no two sessions share a channel -/
  apart : ∀ j j' id id' channel, s.replies j = some (id, channel) →
    s.replies j' = some (id', channel) → id = id'
  unused : ∀ channel, s.channels ≤ channel → s.queues channel = []
  untaken : ∀ j, s.replies j = none → s.taken j = []
  pending : ∀ j, (s.phase j).isRunning = true → (s.tasks j).channelRx = .pending
  session : ∀ id, s.Session id

theorem Session.isFront {id : ConnectionId} (h : s.Session id) : s.takenAll id <+: s.put id := by
  cases h with
  | none hservers hentry hput alone =>
      unfold takenAll
      rw [hservers]
      exact List.nil_prefix
  | owned before k channel hservers hown hput hplace =>
      rw [← hput]
      exact List.prefix_append _ _

theorem Lineage.continuous (h : s.Lineage) : s.Continuous where
  isFront := fun id => (h.session id).isFront
  available := by
    intro id hne
    cases h.session id with
    | none hservers => exact absurd hservers hne
    | owned before k channel hservers hown hput hplace =>
        refine ⟨channel, hput, ?_⟩
        cases hplace with
        | storing hstage => exact .inl ⟨k, .inl hstage⟩
        | listed hholds hentry =>
            rcases hholds with ⟨hserving, -⟩ | ⟨hsent, -⟩
            · exact .inl ⟨k, .inr hserving⟩
            · exact .inr ⟨k, hsent, .inl hentry⟩
        | awaited w hholds hentry hwaits =>
            rcases hholds with ⟨hserving, -⟩ | ⟨hsent, -⟩
            · exact .inl ⟨k, .inr hserving⟩
            · exact .inr ⟨k, hsent, .inr ⟨w, hwaits⟩⟩

theorem lineage_new : (new : Sessions B R).Lineage where
  lock := nofun
  known := nofun
  member := nofun
  nodup := fun _ => .nil
  apart := nofun
  unused := fun _ _ => rfl
  untaken := fun _ _ => rfl
  pending := nofun
  session := fun _ => .none rfl rfl rfl nofun

/-! ## Steps that leave the channels alone -/

theorem stage_setTask (k : Nat) (t : SessionTask B) (j : Nat) :
    (s.setTask k t).stage j = if j = k then t.phase.stage else s.stage j := by
  unfold stage
  rw [phase_setTask]
  split <;> rfl

/-- What a step leaves alone when it is none of the business of a session. -/
structure Undisturbed (s s' : Sessions B R) (id : ConnectionId) : Prop where
  servers : s'.servers id = s.servers id
  put : s'.put id = s.put id
  connections : s'.connections id = s.connections id
  stage : ∀ j st, s'.stage j = some (id, st) ↔ s.stage j = some (id, st)
  channelRx : ∀ j channel, s.replies j = some (id, channel) →
    (s'.tasks j).channelRx = (s.tasks j).channelRx
  replies : ∀ j channel, s'.replies j = some (id, channel) ↔ s.replies j = some (id, channel)
  taken : ∀ j ∈ s.servers id, s'.taken j = s.taken j
  queues : ∀ j channel, s.replies j = some (id, channel) → s'.queues channel = s.queues channel

theorem Undisturbed.takenAll {id : ConnectionId} (h : Undisturbed s s' id) :
    s'.takenAll id = s.takenAll id := by
  unfold Sessions.takenAll
  rw [h.servers]
  exact List.flatMap_congr h.taken

theorem Undisturbed.holding {id : ConnectionId} (h : Undisturbed s s' id) {k channel channel' : Nat}
    (hreplies : s.replies k = some (id, channel')) (hholds : s.Holding id k channel) :
    s'.Holding id k channel := by
  unfold Holding at hholds ⊢
  rw [h.channelRx k channel' hreplies]
  rcases hholds with ⟨hserving, hpending⟩ | ⟨hsent, hno⟩
  · exact .inl ⟨(h.stage k _).mpr hserving, hpending⟩
  · exact .inr ⟨hsent, fun st hst => hno st ((h.stage k st).mp hst)⟩

theorem Undisturbed.place {id : ConnectionId} (h : Undisturbed s s' id) {k channel channel' : Nat}
    (hreplies : s.replies k = some (id, channel')) (hplace : s.Place id k channel) :
    s'.Place id k channel := by
  cases hplace with
  | storing hstage hentry alone =>
      exact .storing ((h.stage k _).mpr hstage) (h.connections.trans hentry)
        fun j st hst => alone j st ((h.stage j st).mp hst)
  | listed hholds hentry alone =>
      exact .listed (h.holding hreplies hholds) (h.connections.trans hentry)
        fun j st hst => alone j st ((h.stage j st).mp hst)
  | awaited w hholds hentry hwaits alone =>
      exact .awaited w (h.holding hreplies hholds) (h.connections.trans hentry)
        ((h.stage w _).mpr hwaits) fun j st hst => alone j st ((h.stage j st).mp hst)

theorem Lineage.undisturbed (hl : s.Lineage) {id : ConnectionId} (h : Undisturbed s s' id) :
    s'.Session id := by
  cases hl.session id with
  | none hservers hentry hput alone =>
      exact .none (h.servers.trans hservers) (h.connections.trans hentry) (h.put.trans hput)
        fun j st hst => alone j st ((h.stage j st).mp hst)
  | owned before k channel hservers hown hput hplace =>
      obtain ⟨channel', hreplies⟩ := hl.member id k (by rw [hservers]; simp)
      obtain rfl := hown k channel' hreplies
      refine .owned before k channel' (h.servers.trans hservers)
        (fun j c hc => hown j c ((h.replies j c).mp hc)) ?_ (h.place hreplies hplace)
      rw [h.takenAll, h.queues k channel' hreplies, hput, h.put]

/-- What a step may change that has nothing to do with the channels. -/
structure Calm (s s' : Sessions B R) : Prop where
  rest : s' = { s with
    spawned := s'.spawned, tasks := s'.tasks, keychain := s'.keychain, shutdown := s'.shutdown }
  spawned : s.spawned ≤ s'.spawned
  stage : ∀ j, s'.stage j = s.stage j
  channelRx : ∀ j, (s'.tasks j).channelRx = (s.tasks j).channelRx ∨
    s.spawned ≤ j ∧ (s'.tasks j).channelRx = .pending
  past : ∀ j, j < s.spawned → (s.phase j).isPast = true → (s'.phase j).isPast = true
  pending : ∀ j, (s'.phase j).isRunning = true →
    (s.phase j).isRunning = true ∨ (s'.tasks j).channelRx = .pending

theorem Calm.channelRx_eq (h : Calm s s') {j : Nat} (hj : j < s.spawned) :
    (s'.tasks j).channelRx = (s.tasks j).channelRx := by
  rcases h.channelRx j with heq | ⟨hnew, -⟩
  · exact heq
  · exact absurd hj (Nat.not_lt.mpr hnew)

theorem Calm.undisturbed (h : Calm s s') (hl : s.Lineage) (id : ConnectionId) :
    Undisturbed s s' id where
  servers := congrFun (congrArg Sessions.servers h.rest) id
  put := congrFun (congrArg Sessions.put h.rest) id
  connections := congrFun (congrArg Sessions.connections h.rest) id
  stage := fun j st => by rw [h.stage]
  channelRx := fun j channel hreplies => h.channelRx_eq (hl.known j id channel hreplies).2.1
  replies := fun j channel => by rw [congrFun (congrArg Sessions.replies h.rest) j]
  taken := fun j _ => congrFun (congrArg Sessions.taken h.rest) j
  queues := fun _ channel _ => congrFun (congrArg Sessions.queues h.rest) channel

theorem Lineage.calm (hl : s.Lineage) (hknown : s.Known) (h : Calm s s') : s'.Lineage where
  lock := by
    intro w id k hst
    rw [h.stage] at hst
    exact (congrArg Sessions.lock h.rest).trans (hl.lock w id k hst)
  known := by
    intro j id channel hreplies
    rw [congrFun (congrArg Sessions.replies h.rest) j] at hreplies
    obtain ⟨hchannel, hlt, hpast, hmem⟩ := hl.known j id channel hreplies
    refine ⟨?_, Nat.lt_of_lt_of_le hlt h.spawned, h.past j hlt hpast, ?_⟩
    · rw [congrArg Sessions.channels h.rest]
      exact hchannel
    · rw [congrFun (congrArg Sessions.servers h.rest) id]
      exact hmem
  member := by
    intro id j hj
    rw [congrFun (congrArg Sessions.servers h.rest) id] at hj
    rw [congrFun (congrArg Sessions.replies h.rest) j]
    exact hl.member id j hj
  nodup := by
    intro id
    rw [congrFun (congrArg Sessions.servers h.rest) id]
    exact hl.nodup id
  apart := by
    rw [congrArg Sessions.replies h.rest]
    exact hl.apart
  unused := by
    rw [congrArg Sessions.channels h.rest, congrArg Sessions.queues h.rest]
    exact hl.unused
  untaken := by
    rw [congrArg Sessions.replies h.rest, congrArg Sessions.taken h.rest]
    exact hl.untaken
  pending := by
    intro j hj
    rcases h.pending j hj with hrunning | hpending
    · have hne : s.phase j ≠ .ended := fun hended => by
        rw [hended] at hrunning
        cases hrunning
      rw [h.channelRx_eq (hknown.running j hne)]
      exact hl.pending j hrunning
    · exact hpending
  session := fun id => hl.undisturbed (h.undisturbed hl id)

/-! ### The calm steps -/

theorem Calm.setTask {k : Nat} {t : SessionTask B} (hstage : t.phase.stage = (s.phase k).stage)
    (hchannel : t.channelRx = (s.tasks k).channelRx)
    (hpast : (s.phase k).isPast = true → t.phase.isPast = true)
    (hrunning : t.phase.isRunning = true → (s.phase k).isRunning = true) :
    Calm s (s.setTask k t) where
  rest := rfl
  spawned := Nat.le_refl _
  stage := by
    intro j
    rw [stage_setTask]
    split
    · next heq => rw [heq]; exact hstage
    · rfl
  channelRx := by
    intro j
    rw [tasks_setTask]
    split
    · next heq => rw [heq]; exact .inl hchannel
    · exact .inl rfl
  past := by
    intro j _ hj
    rw [phase_setTask]
    split
    · next heq => exact hpast (heq ▸ hj)
    · exact hj
  pending := by
    intro j hj
    rw [phase_setTask] at hj
    split at hj
    · next heq => rw [heq]; exact .inl (hrunning hj)
    · exact .inl hj

/-- A task that neither has a channel nor waits for one goes on. -/
theorem Calm.setPhase {k : Nat} {ph ph' : SessionPhase B} (hphase : s.phase k = ph)
    (hstage : ph'.stage = ph.stage) (hpast : ph.isPast = true → ph'.isPast = true)
    (hrunning : ph.isRunning = true) : Calm s (s.setPhase k ph') := by
  subst hphase
  exact Calm.setTask hstage rfl hpast fun _ => hrunning

theorem Calm.endTask {k : Nat} {ph : SessionPhase B} (hphase : s.phase k = ph)
    (hstage : ph.stage = none) (backup : Oneshot B) : Calm s (s.endTask k backup) := by
  subst hphase
  exact Calm.setTask hstage.symm rfl (fun _ => rfl) nofun

theorem Calm.trans {s'' : Sessions B R} (h : Calm s s') (h' : Calm s' s'') : Calm s s'' where
  rest := by
    have hrest := h'.rest
    rw [h.rest] at hrest
    exact hrest
  spawned := Nat.le_trans h.spawned h'.spawned
  stage := fun j => (h'.stage j).trans (h.stage j)
  channelRx := by
    intro j
    rcases h'.channelRx j with heq | ⟨hnew, hpending⟩
    · rw [heq]
      exact h.channelRx j
    · exact .inr ⟨Nat.le_trans h.spawned hnew, hpending⟩
  past := fun j hj hp => h'.past j (Nat.lt_of_lt_of_le hj h.spawned) (h.past j hj hp)
  pending := by
    intro j hj
    rcases h'.pending j hj with hrunning | hpending
    · rcases h.pending j hrunning with hrunning | hpending
      · exact .inl hrunning
      · rcases h'.channelRx j with heq | ⟨-, hpending⟩
        · exact .inr (heq.trans hpending)
        · exact .inr hpending
    · exact .inr hpending

theorem Calm.keychain (h : Calm s s') (keychain : ConnectionId → Option (Otp × Nat)) :
    Calm s { s' with keychain := keychain } :=
  ⟨by rw [h.rest], h.spawned, h.stage, h.channelRx, h.past, h.pending⟩

theorem calm_accept (hknown : s.Known) :
    Calm s { s.setTask s.spawned ⟨.establishing, false, .pending, .pending⟩ with
      spawned := s.spawned + 1 } := by
  have hended : s.phase s.spawned = .ended := by
    by_contra hne
    exact absurd (hknown.running _ hne) (Nat.lt_irrefl _)
  refine ⟨rfl, Nat.le_succ _, fun j => ?_, fun j => ?_, fun j hlt hpast => ?_, fun j hrunning => ?_⟩
  · refine (stage_setTask ..).trans ?_
    split
    · next heq => rw [heq, stage, hended]; rfl
    · rfl
  · show ((s.setTask _ _).tasks j).channelRx = _ ∨ _
    rw [tasks_setTask]
    split
    · next heq => exact .inr ⟨Nat.le_of_eq heq.symm, rfl⟩
    · exact .inl rfl
  · refine (congrArg SessionPhase.isPast (phase_setTask ..)).trans ?_
    rw [if_neg (Nat.ne_of_lt hlt)]
    exact hpast
  · have hrunning := (congrArg SessionPhase.isRunning (phase_setTask ..)).symm.trans hrunning
    show _ ∨ ((s.setTask _ _).tasks j).channelRx = _
    rw [tasks_setTask]
    split at hrunning
    · next heq => rw [if_pos heq]; exact .inr rfl
    · exact .inl hrunning

theorem calm_acquired {k : Nat} {id : ConnectionId} {otp : Otp} {source : Nat} {backup : B}
    (hphase : s.phase k = .acquiring id otp source) :
    Calm s ((s.setTask source { s.tasks source with backupRx := .closed }).setPhase k
      (.exchanging id otp backup)) := by
  have hsource : Calm s (s.setTask source { s.tasks source with backupRx := .closed }) :=
    Calm.setTask rfl rfl (fun h => h) fun h => h
  exact hsource.trans (Calm.setPhase ((phase_touched ..).trans hphase) rfl nofun rfl)

/-! ## Steps of a session -/

/-- The other sessions do not notice when a task goes on that belongs to this one. -/
theorem Undisturbed.of_ne {id id' : ConnectionId} (hne : id' ≠ id)
    (hservers : s'.servers id' = s.servers id') (hput : s'.put id' = s.put id')
    (hconnections : s'.connections id' = s.connections id')
    (hstage : ∀ j, s'.stage j = s.stage j ∨
      (∀ st, s.stage j ≠ some (id', st)) ∧ ∀ st, s'.stage j ≠ some (id', st))
    (hrx : ∀ j channel, s.replies j = some (id', channel) →
      (s'.tasks j).channelRx = (s.tasks j).channelRx)
    (hreplies : ∀ j, s'.replies j = s.replies j ∨
      s.replies j = none ∧ ∃ c, s'.replies j = some (id, c))
    (htaken : ∀ j ∈ s.servers id', s'.taken j = s.taken j)
    (hqueues : ∀ j channel, s.replies j = some (id', channel) → s'.queues channel = s.queues channel) :
    Undisturbed s s' id' where
  servers := hservers
  put := hput
  connections := hconnections
  stage := by
    intro j st
    rcases hstage j with heq | ⟨hno, hno'⟩
    · rw [heq]
    · exact ⟨fun h => absurd h (hno' st), fun h => absurd h (hno st)⟩
  channelRx := hrx
  replies := by
    intro j channel
    rcases hreplies j with heq | ⟨hnone, c, hsome⟩
    · rw [heq]
    · rw [hnone, hsome]
      refine ⟨fun h => ?_, nofun⟩
      cases h
      exact absurd rfl hne
  taken := htaken
  queues := hqueues

theorem Lineage.lt_channels (hl : s.Lineage) {j : Nat} {id : ConnectionId} {channel : Nat}
    (h : s.replies j = some (id, channel)) : channel < s.channels :=
  (hl.known j id channel h).1

/-- A task that has yet to take over has no channel. -/
theorem Lineage.replies_none (hl : s.Lineage) {k : Nat} (h : (s.phase k).isPast = false) :
    s.replies k = none := by
  cases hreplies : s.replies k with
  | none => rfl
  | some entry =>
      obtain ⟨id, channel⟩ := entry
      have hpast := (hl.known k id channel hreplies).2.2.1
      rw [h] at hpast
      cases hpast

/-- What taking a session over does, wherever the channel is from. -/
structure TakesOver (s s' : Sessions B R) (k : Nat) (id : ConnectionId) (backup : B)
    (channel : Nat) : Prop where
  replies : s'.replies = Function.update s.replies k (some (id, channel))
  servers : s'.servers = Function.update s.servers id (s.servers id ++ [k])
  phase : ∀ j, s'.phase j = if j = k then .storing id backup channel else s.phase j
  put : s'.put = s.put
  taken : s'.taken = s.taken
  queues : s'.queues = s.queues
  connections : s'.connections = s.connections
  spawned : s'.spawned = s.spawned
  channels : s.channels ≤ s'.channels
  channelRx : ∀ j id' channel', id' ≠ id → s.replies j = some (id', channel') →
    (s'.tasks j).channelRx = (s.tasks j).channelRx
  pending : ∀ j, (s.phase j).isRunning = true → (s'.tasks j).channelRx = .pending

section TakesOver

variable {k : Nat} {id : ConnectionId} {backup : B} {channel : Nat}

theorem TakesOver.stage (h : TakesOver s s' k id backup channel) (j : Nat) :
    s'.stage j = if j = k then some (id, .storing channel) else s.stage j := by
  unfold Sessions.stage
  rw [h.phase]
  split <;> rfl

theorem TakesOver.undisturbed (h : TakesOver s s' k id backup channel)
    (hnone : s.replies k = none) (hold : ∀ id' st, id' ≠ id → s.stage k ≠ some (id', st))
    {id' : ConnectionId} (hne : id' ≠ id) : Undisturbed s s' id' := by
  refine .of_ne hne ?_ ?_ ?_ ?_ ?_ ?_ ?_ ?_
  · rw [h.servers, Function.update_of_ne hne]
  · rw [h.put]
  · rw [h.connections]
  · intro j
    rw [h.stage]
    split
    · next heq =>
        refine .inr ⟨fun st => heq ▸ hold id' st hne, fun st hst => ?_⟩
        cases hst
        exact hne rfl
    · exact .inl rfl
  · exact fun j channel' hreplies => h.channelRx j id' channel' hne hreplies
  · intro j
    rw [h.replies]
    by_cases heq : j = k
    · subst heq
      exact .inr ⟨hnone, channel, Function.update_self ..⟩
    · exact .inl (Function.update_of_ne heq ..)
  · exact fun j _ => by rw [h.taken]
  · exact fun j channel' _ => by rw [h.queues]

theorem Lineage.takesOver (hl : s.Lineage) (h : TakesOver s s' k id backup channel)
    (hlt : k < s.spawned) (hnone : s.replies k = none)
    (hold : ∀ id' st, id' ≠ id → s.stage k ≠ some (id', st))
    (hrunning : (s.phase k).isRunning = true)
    (hlock : ∀ w id' k', w ≠ k → s.stage w = some (id', .waiting k') → s'.lock = some w)
    (hchannel : channel < s'.channels)
    (happart : ∀ j id', s.replies j = some (id', channel) → id' = id)
    (hsession : s'.Session id) : s'.Lineage where
  lock := by
    intro w id' k' hst
    rw [h.stage] at hst
    split at hst
    · cases hst
    · next hne => exact hlock w id' k' hne hst
  known := by
    intro j id' channel' hreplies
    rw [h.phase, h.spawned]
    rw [h.replies] at hreplies
    by_cases heq : j = k
    · subst heq
      rw [Function.update_self] at hreplies
      cases hreplies
      rw [if_pos rfl, h.servers, Function.update_self]
      exact ⟨hchannel, hlt, rfl, by simp⟩
    · rw [Function.update_of_ne heq] at hreplies
      obtain ⟨hlt', hspawned, hpast, hmem⟩ := hl.known j id' channel' hreplies
      rw [if_neg heq]
      refine ⟨Nat.lt_of_lt_of_le hlt' h.channels, hspawned, hpast, ?_⟩
      rw [h.servers]
      by_cases hid : id' = id
      · subst hid
        rw [Function.update_self]
        exact List.mem_append_left _ hmem
      · rw [Function.update_of_ne hid]
        exact hmem
  member := by
    intro id' j hj
    rw [h.replies]
    by_cases heq : j = k
    · subst heq
      rw [Function.update_self]
      rw [h.servers] at hj
      by_cases hid : id' = id
      · exact ⟨channel, by rw [hid]⟩
      · rw [Function.update_of_ne hid] at hj
        obtain ⟨c, hc⟩ := hl.member id' j hj
        rw [hnone] at hc
        cases hc
    · rw [Function.update_of_ne heq]
      rw [h.servers] at hj
      by_cases hid : id' = id
      · subst hid
        rw [Function.update_self] at hj
        rcases List.mem_append.mp hj with hj | hj
        · exact hl.member id' j hj
        · exact absurd (List.mem_singleton.mp hj) heq
      · rw [Function.update_of_ne hid] at hj
        exact hl.member id' j hj
  nodup := by
    intro id'
    rw [h.servers]
    by_cases hid : id' = id
    · subst hid
      rw [Function.update_self, List.nodup_append]
      refine ⟨hl.nodup id', List.nodup_singleton k, fun j hj j' hj' heq => ?_⟩
      rw [List.mem_singleton.mp hj'] at heq
      subst heq
      obtain ⟨c, hc⟩ := hl.member id' j hj
      rw [hnone] at hc
      cases hc
    · rw [Function.update_of_ne hid]
      exact hl.nodup id'
  apart := by
    intro j j' id₁ id₂ c hj hj'
    rw [h.replies] at hj hj'
    by_cases heq : j = k <;> by_cases heq' : j' = k
    · subst heq heq'
      rw [hj] at hj'
      cases hj'
      rfl
    · subst heq
      rw [Function.update_self] at hj
      rw [Function.update_of_ne heq'] at hj'
      cases hj
      exact (happart j' id₂ hj').symm
    · subst heq'
      rw [Function.update_of_ne heq] at hj
      rw [Function.update_self] at hj'
      cases hj'
      exact happart j id₁ hj
    · rw [Function.update_of_ne heq] at hj
      rw [Function.update_of_ne heq'] at hj'
      exact hl.apart j j' id₁ id₂ c hj hj'
  unused := by
    intro c hc
    rw [h.queues]
    exact hl.unused c (Nat.le_trans h.channels hc)
  untaken := by
    intro j hj
    rw [h.taken]
    rw [h.replies] at hj
    by_cases heq : j = k
    · subst heq
      rw [Function.update_self] at hj
      cases hj
    · rw [Function.update_of_ne heq] at hj
      exact hl.untaken j hj
  pending := by
    intro j hj
    rw [h.phase] at hj
    refine h.pending j ?_
    split at hj
    · next heq => exact heq ▸ hrunning
    · exact hj
  session := by
    intro id'
    by_cases hid : id' = id
    · exact hid ▸ hsession
    · exact hl.undisturbed (h.undisturbed hnone hold hid)

end TakesOver

theorem channelRx_setPhase (k : Nat) (ph : SessionPhase B) (j : Nat) :
    ((s.setPhase k ph).tasks j).channelRx = (s.tasks j).channelRx := by
  unfold setPhase
  rw [tasks_setTask]
  split
  · next heq => rw [heq]
  · rfl

theorem takenAll_append {before : List Nat} {k : Nat} {id : ConnectionId}
    (h : s.servers id = before ++ [k]) : s.takenAll id = before.flatMap s.taken ++ s.taken k := by
  unfold takenAll
  rw [h]
  simp

theorem Lineage.fresh (hl : s.Lineage) (hknown : s.Known) {k : Nat} {id : ConnectionId} {backup : B}
    (hphase : s.phase k = .looking id backup) (hlock : s.lock = none)
    (hentry : s.connections id = none)
    (hexclusive : ∀ j channel, s.stage j ≠ some (id, .storing channel)) :
    (s.makeChannel k id backup).Lineage := by
  have hnone : s.replies k = none := hl.replies_none (by rw [hphase]; rfl)
  have hstage : s.stage k = none := by
    unfold stage
    rw [hphase]
    rfl
  have htakes : TakesOver s (s.makeChannel k id backup) k id backup s.channels := by
    refine ⟨rfl, rfl, fun j => phase_setTask .., rfl, rfl, rfl, rfl, rfl, Nat.le_succ _, ?_, ?_⟩
    · exact fun j id' channel' _ _ => channelRx_setPhase ..
    · exact fun j hj => (channelRx_setPhase ..).trans (hl.pending j hj)
  refine hl.takesOver htakes (hknown.running k (by rw [hphase]; exact nofun)) hnone
    (fun id' st _ hst => ?_) (by rw [hphase]; rfl) (fun w id' k' _ hst => ?_) (Nat.lt_succ_self _)
    (fun j id' hreplies => ?_) ?_
  · rw [hstage] at hst
    cases hst
  · exact hl.lock w id' k' hst
  · exact absurd (hl.lt_channels hreplies) (Nat.lt_irrefl _)
  · -- the session is new: otherwise its channel would be saved, awaited or about to be stored
    cases hl.session id with
    | none hservers _ hput alone =>
        have hservers' : (s.makeChannel k id backup).servers id = [] ++ [k] := by
          rw [htakes.servers, Function.update_self, hservers]
        refine .owned [] k s.channels hservers' (fun j channel' hj => ?_) ?_ ?_
        · rw [htakes.replies] at hj
          by_cases heq : j = k
          · subst heq
            rw [Function.update_self] at hj
            cases hj
            rfl
          · rw [Function.update_of_ne heq] at hj
            have hmem := (hl.known j id channel' hj).2.2.2
            rw [hservers] at hmem
            cases hmem
        · rw [takenAll_append hservers', htakes.taken, htakes.queues, htakes.put, hput,
            hl.untaken k hnone, hl.unused _ (Nat.le_refl _)]
          rfl
        · refine .storing ((htakes.stage k).trans (if_pos rfl)) hentry fun j st hst => ?_
          by_contra hne
          rw [htakes.stage, if_neg hne] at hst
          exact alone j st hst
    | owned before owner channel hservers hown hput hplace =>
        cases hplace with
        | storing hstoring => exact absurd hstoring (hexclusive owner channel)
        | listed _ hlisted =>
            rw [hentry] at hlisted
            cases hlisted
        | awaited w _ _ hwaits =>
            have hheld := hl.lock w id owner hwaits
            rw [hlock] at hheld
            cases hheld

/-- A task that waits for a channel waits for the one that got it last. -/
theorem Lineage.awaited (hl : s.Lineage) {w : Nat} {id : ConnectionId} {owner : Nat}
    (hwaits : s.stage w = some (id, .waiting owner)) :
    ∃ before channel, s.servers id = before ++ [owner] ∧
      (∀ j channel', s.replies j = some (id, channel') → channel' = channel) ∧
      s.takenAll id ++ s.queues channel = s.put id ∧ s.Holding id owner channel ∧
      s.connections id = none ∧
      ∀ j st, s.stage j = some (id, st) → j = w ∨ j = owner ∧ st = .serving channel := by
  cases hl.session id with
  | none _ _ _ alone => exact absurd hwaits (alone w _)
  | owned before k channel hservers hown hput hplace =>
      cases hplace with
      | storing hstoring _ alone =>
          rw [alone w _ hwaits, hstoring] at hwaits
          cases hwaits
      | listed _ _ alone => cases (alone w _ hwaits).2
      | awaited w' hholds hentry hwaits' alone =>
          rcases alone w _ hwaits with rfl | ⟨-, hserving⟩
          · rw [hwaits'] at hwaits
            cases hwaits
            exact ⟨before, channel, hservers, hown, hput, hholds, hentry, alone⟩
          · cases hserving

theorem Lineage.restored (hl : s.Lineage) (hknown : s.Known) {k : Nat} {id : ConnectionId}
    {backup : B} {owner channel : Nat} (hphase : s.phase k = .waiting id backup owner)
    (hsent : (s.tasks owner).channelRx = .sent channel) :
    (({ s with lock := none }.setTask owner
      { s.tasks owner with channelRx := .closed }).takeOver k id backup channel).Lineage := by
  have hnone : s.replies k = none := hl.replies_none (by rw [hphase]; rfl)
  have hstage : s.stage k = some (id, .waiting owner) := by
    unfold stage
    rw [hphase]
    rfl
  obtain ⟨before, channel', hservers, hown, hput, hholds, hentry, alone⟩ := hl.awaited hstage
  obtain ⟨hsaved, hgone⟩ : channel' = channel ∧ ∀ st, s.stage owner ≠ some (id, st) := by
    rcases hholds with ⟨-, hpending⟩ | ⟨hsent', hgone⟩
    · rw [hpending] at hsent
      cases hsent
    · rw [hsent'] at hsent
      cases hsent
      exact ⟨rfl, hgone⟩
  subst hsaved
  obtain ⟨c, hreplies⟩ := hl.member id owner (by rw [hservers]; simp)
  rw [hown owner c hreplies] at hreplies
  have hne : owner ≠ k := fun heq => by
    rw [heq, hnone] at hreplies
    cases hreplies
  -- the channel of any other task stays where it is
  have hrx : ∀ j, j ≠ owner →
      ((({ s with lock := none }.setTask owner
        { s.tasks owner with channelRx := .closed }).takeOver k id backup channel').tasks j).channelRx
        = (s.tasks j).channelRx := by
    intro j hj
    refine (channelRx_setPhase ..).trans ?_
    rw [tasks_setTask, if_neg hj]
  have htakes : TakesOver s (({ s with lock := none }.setTask owner
      { s.tasks owner with channelRx := .closed }).takeOver k id backup channel') k id backup
      channel' := by
    refine ⟨rfl, rfl, fun j => ?_, rfl, rfl, rfl, rfl, rfl, Nat.le_refl _, ?_, ?_⟩
    · refine (phase_setTask ..).trans ?_
      rw [phase_touched]
      rfl
    · intro j id' c hid hj
      refine hrx j fun heq => ?_
      rw [heq, hreplies] at hj
      cases hj
      exact hid rfl
    · intro j hj
      refine (hrx j fun heq => ?_).trans (hl.pending j hj)
      rw [heq] at hj
      rw [hl.pending owner hj] at hsent
      cases hsent
  refine hl.takesOver htakes (hknown.running k (by rw [hphase]; exact nofun)) hnone
    (fun id' st hid hst => ?_) (by rw [hphase]; rfl) (fun w id' k' hw hst => ?_)
    (hl.lt_channels hreplies) (fun j id' hj => (hl.apart owner j id id' channel' hreplies hj).symm) ?_
  · rw [hstage] at hst
    cases hst
    exact hid rfl
  · -- only the task that waits has the lock
    have hheld := hl.lock k id owner hstage
    rw [hl.lock w id' k' hst] at hheld
    cases hheld
    exact absurd rfl hw
  · have hservers' : (({ s with lock := none }.setTask owner
        { s.tasks owner with channelRx := .closed }).takeOver k id backup channel').servers id
        = (before ++ [owner]) ++ [k] := by
      rw [htakes.servers, Function.update_self, hservers]
    refine .owned (before ++ [owner]) k channel' hservers' (fun j c hj => ?_) ?_ ?_
    · rw [htakes.replies] at hj
      by_cases heq : j = k
      · subst heq
        rw [Function.update_self] at hj
        cases hj
        rfl
      · rw [Function.update_of_ne heq] at hj
        exact hown j c hj
    · rw [takenAll_append hservers', htakes.taken, htakes.queues, htakes.put,
        hl.untaken k hnone, List.append_nil, ← hput]
      unfold takenAll
      rw [hservers]
    · refine .storing ((htakes.stage k).trans (if_pos rfl)) hentry fun j st hst => ?_
      by_contra hjk
      rw [htakes.stage, if_neg hjk] at hst
      rcases alone j st hst with heq | ⟨heq, -⟩
      · exact hjk heq
      · exact hgone st (heq ▸ hst)

/-- A task that serves is the last that got the channel of its session. -/
theorem Lineage.serving (hl : s.Lineage) {k : Nat} {id : ConnectionId} {channel : Nat}
    (hstage : s.stage k = some (id, .serving channel)) :
    ∃ before, s.servers id = before ++ [k] ∧
      (∀ j channel', s.replies j = some (id, channel') → channel' = channel) ∧
      s.takenAll id ++ s.queues channel = s.put id ∧ s.Place id k channel := by
  cases hl.session id with
  | none _ _ _ alone => exact absurd hstage (alone k _)
  | owned before owner channel' hservers hown hput hplace =>
      have hsame : k = owner ∧ channel = channel' := by
        cases hplace with
        | storing hstoring _ alone =>
            rw [alone k _ hstage, hstoring] at hstage
            cases hstage
        | listed _ _ alone =>
            obtain ⟨hk, hserving⟩ := alone k _ hstage
            cases hserving
            exact ⟨hk, rfl⟩
        | awaited w _ _ hwaits alone =>
            rcases alone k _ hstage with rfl | ⟨hk, hserving⟩
            · rw [hwaits] at hstage
              cases hstage
            · cases hserving
              exact ⟨hk, rfl⟩
      obtain ⟨rfl, rfl⟩ := hsame
      exact ⟨before, hservers, hown, hput, hplace⟩

theorem Lineage.reply (hl : s.Lineage) {k : Nat} {id : ConnectionId} {channel : Nat} {r : R}
    (hreplies : s.replies k = some (id, channel)) :
    ({ s with
      queues := Function.update s.queues channel (s.queues channel ++ [r])
      put := Function.update s.put id (s.put id ++ [r]) } : Sessions B R).Lineage where
  lock := hl.lock
  known := hl.known
  member := hl.member
  nodup := hl.nodup
  apart := hl.apart
  unused := by
    intro c hc
    have hne : c ≠ channel := fun heq =>
      absurd (hl.lt_channels hreplies) (Nat.not_lt.mpr (heq ▸ hc))
    exact (Function.update_of_ne hne ..).trans (hl.unused c hc)
  untaken := hl.untaken
  pending := hl.pending
  session := by
    intro id'
    by_cases hid : id' = id
    · subst hid
      cases hl.session id' with
      | none hservers =>
          have hmem := (hl.known k id' channel hreplies).2.2.2
          rw [hservers] at hmem
          cases hmem
      | owned before owner channel' hservers hown hput hplace =>
          obtain rfl := hown k channel hreplies
          refine .owned before owner channel hservers hown ?_ ?_
          · show s.takenAll id' ++ Function.update s.queues channel _ channel
              = Function.update s.put id' _ id'
            rw [Function.update_self, Function.update_self, ← List.append_assoc, hput]
          · cases hplace with
            | storing hstoring hentry alone => exact .storing hstoring hentry alone
            | listed hholds hentry alone => exact .listed hholds hentry alone
            | awaited w hholds hentry hwaits alone => exact .awaited w hholds hentry hwaits alone
    · refine hl.undisturbed (.of_ne hid rfl (Function.update_of_ne hid ..) rfl (fun _ => .inl rfl)
        (fun _ _ _ => rfl) (fun _ => .inl rfl) (fun _ _ => rfl) fun j c hj => ?_)
      refine Function.update_of_ne (fun heq => ?_) ..
      subst heq
      exact hid (hl.apart j k id' id c hj hreplies)

theorem Lineage.take (hl : s.Lineage) {k : Nat} {id : ConnectionId} {backup : B} {channel : Nat}
    {r : R} {queue : List R} (hphase : s.phase k = .serving id backup channel)
    (hqueue : s.queues channel = r :: queue) :
    ({ s with
      queues := Function.update s.queues channel queue
      taken := Function.update s.taken k (s.taken k ++ [r]) } : Sessions B R).Lineage := by
  have hstage : s.stage k = some (id, .serving channel) := by
    unfold stage
    rw [hphase]
    rfl
  obtain ⟨before, hservers, hown, hput, hplace⟩ := hl.serving hstage
  obtain ⟨c, hreplies⟩ := hl.member id k (by rw [hservers]; simp)
  rw [hown k c hreplies] at hreplies
  have hnodup := hl.nodup id
  rw [hservers, List.nodup_append] at hnodup
  have hbefore : ∀ j ∈ before, j ≠ k := fun j hj => hnodup.2.2 j hj k (by simp)
  refine ⟨hl.lock, hl.known, hl.member, hl.nodup, hl.apart, ?_, ?_, hl.pending, ?_⟩
  · intro c' hc'
    have hne : c' ≠ channel := fun heq =>
      absurd (hl.lt_channels hreplies) (Nat.not_lt.mpr (heq ▸ hc'))
    exact (Function.update_of_ne hne ..).trans (hl.unused c' hc')
  · intro j hj
    have hne : j ≠ k := fun heq => by
      have hj : s.replies j = none := hj
      rw [heq, hreplies] at hj
      cases hj
    exact (Function.update_of_ne hne ..).trans (hl.untaken j hj)
  · intro id'
    by_cases hid : id' = id
    · subst hid
      refine .owned before k channel hservers hown ?_ ?_
      · refine (congrArg (· ++ _) (takenAll_append (s := { s with
          queues := Function.update s.queues channel queue
          taken := Function.update s.taken k (s.taken k ++ [r]) }) hservers)).trans ?_
        rw [takenAll_append hservers, hqueue] at hput
        show before.flatMap (Function.update s.taken k _) ++ Function.update s.taken k _ k
          ++ Function.update s.queues channel queue channel = s.put id'
        rw [Function.update_self, Function.update_self,
          List.flatMap_congr fun j hj => Function.update_of_ne (hbefore j hj) .., ← hput]
        simp
      · cases hplace with
        | storing hstoring hentry alone => exact .storing hstoring hentry alone
        | listed hholds hentry alone => exact .listed hholds hentry alone
        | awaited w hholds hentry hwaits alone => exact .awaited w hholds hentry hwaits alone
    · refine hl.undisturbed (.of_ne hid rfl rfl rfl (fun _ => .inl rfl) (fun _ _ _ => rfl)
        (fun _ => .inl rfl) (fun j hj => ?_) fun j c' hj => ?_)
      · refine Function.update_of_ne (fun heq => ?_) ..
        subst heq
        obtain ⟨c', hc'⟩ := hl.member id' j hj
        rw [hreplies] at hc'
        cases hc'
        exact hid rfl
      · refine Function.update_of_ne (fun heq => ?_) ..
        subst heq
        exact hid (hl.apart j k id' id c' hj hreplies)

/-- What a task may change that goes on with the channel where it is. -/
structure Moves (s s' : Sessions B R) (k : Nat) (id : ConnectionId) : Prop where
  rest : s' = { s with
    tasks := s'.tasks, connections := s'.connections, lock := s'.lock }
  connections : ∀ id', id' ≠ id → s'.connections id' = s.connections id'
  stage : ∀ j, j ≠ k → s'.stage j = s.stage j
  own : ∀ id' st, id' ≠ id → s.stage k ≠ some (id', st) ∧ s'.stage k ≠ some (id', st)
  channelRx : ∀ j, j ≠ k → (s'.tasks j).channelRx = (s.tasks j).channelRx
  past : ∀ j, (s.phase j).isPast = true → (s'.phase j).isPast = true
  pending : ∀ j, (s'.phase j).isRunning = true →
    (s.phase j).isRunning = true ∧ (s'.tasks j).channelRx = (s.tasks j).channelRx

theorem Moves.undisturbed {k : Nat} {id id' : ConnectionId} (h : Moves s s' k id)
    (hreplies : ∀ id' channel, id' ≠ id → s.replies k ≠ some (id', channel)) (hne : id' ≠ id) :
    Undisturbed s s' id' := by
  refine .of_ne hne (congrFun (congrArg Sessions.servers h.rest) id')
    (congrFun (congrArg Sessions.put h.rest) id') (h.connections id' hne) (fun j => ?_)
    (fun j channel hj => ?_) (fun j => .inl (congrFun (congrArg Sessions.replies h.rest) j))
    (fun j _ => congrFun (congrArg Sessions.taken h.rest) j)
    (fun _ channel _ => congrFun (congrArg Sessions.queues h.rest) channel)
  · by_cases hj : j = k
    · subst hj
      exact .inr ⟨fun st => (h.own id' st hne).1, fun st => (h.own id' st hne).2⟩
    · exact .inl (h.stage j hj)
  · refine h.channelRx j fun heq => ?_
    subst heq
    exact hreplies id' channel hne hj

theorem Lineage.moves (hl : s.Lineage) {k : Nat} {id : ConnectionId} (h : Moves s s' k id)
    (hreplies : ∀ id' channel, id' ≠ id → s.replies k ≠ some (id', channel))
    (hlock : ∀ w id' k', s'.stage w = some (id', .waiting k') → s'.lock = some w)
    (hsession : s'.Session id) : s'.Lineage where
  lock := hlock
  known := by
    intro j id' channel hj
    rw [congrArg Sessions.replies h.rest] at hj
    obtain ⟨hchannel, hlt, hpast, hmem⟩ := hl.known j id' channel hj
    rw [congrArg Sessions.channels h.rest, congrArg Sessions.spawned h.rest,
      congrArg Sessions.servers h.rest]
    exact ⟨hchannel, hlt, h.past j hpast, hmem⟩
  member := by
    rw [congrArg Sessions.servers h.rest, congrArg Sessions.replies h.rest]
    exact hl.member
  nodup := by
    rw [congrArg Sessions.servers h.rest]
    exact hl.nodup
  apart := by
    rw [congrArg Sessions.replies h.rest]
    exact hl.apart
  unused := by
    rw [congrArg Sessions.channels h.rest, congrArg Sessions.queues h.rest]
    exact hl.unused
  untaken := by
    rw [congrArg Sessions.replies h.rest, congrArg Sessions.taken h.rest]
    exact hl.untaken
  pending := by
    intro j hj
    obtain ⟨hrunning, hsame⟩ := h.pending j hj
    rw [hsame]
    exact hl.pending j hrunning
  session := by
    intro id'
    by_cases hid : id' = id
    · exact hid ▸ hsession
    · exact hl.undisturbed (h.undisturbed hreplies hid)

/-- The session of a step that keeps all histories and queues. -/
theorem Moves.owned {k : Nat} {id : ConnectionId} (h : Moves s s' k id) {before : List Nat}
    {owner channel : Nat} (hservers : s.servers id = before ++ [owner])
    (hown : ∀ j channel', s.replies j = some (id, channel') → channel' = channel)
    (hput : s.takenAll id ++ s.queues channel = s.put id) (hplace : s'.Place id owner channel) :
    s'.Session id := by
  refine .owned before owner channel ?_ ?_ ?_ hplace
  · rw [congrArg Sessions.servers h.rest]
    exact hservers
  · rw [congrArg Sessions.replies h.rest]
    exact hown
  · unfold takenAll at hput ⊢
    rw [congrArg Sessions.servers h.rest, congrArg Sessions.taken h.rest,
      congrArg Sessions.queues h.rest, congrArg Sessions.put h.rest]
    exact hput

theorem Lineage.stored (hl : s.Lineage) {k : Nat} {id : ConnectionId} {backup : B} {channel : Nat}
    (hphase : s.phase k = .storing id backup channel) (hlock : s.lock = none) :
    ({ s with connections := Function.update s.connections id (some k) }.setPhase k
      (.serving id backup channel)).Lineage := by
  have hstage : s.stage k = some (id, .storing channel) := by
    unfold stage
    rw [hphase]
    rfl
  have hpending : (s.tasks k).channelRx = .pending := hl.pending k (by rw [hphase]; rfl)
  have hstage' : ∀ j, ({ s with connections := Function.update s.connections id (some k) }.setPhase k
      (.serving id backup channel)).stage j
      = if j = k then some (id, .serving channel) else s.stage j := fun j => stage_setTask ..
  have hmoves : Moves s ({ s with connections := Function.update s.connections id (some k) }.setPhase
      k (.serving id backup channel)) k id := by
    refine ⟨rfl, fun id' hne => Function.update_of_ne hne .., fun j hj => ?_, fun id' st hne => ?_,
      fun j _ => channelRx_setPhase .., fun j hj => ?_, fun j hj => ⟨?_, channelRx_setPhase ..⟩⟩
    · rw [hstage', if_neg hj]
    · rw [hstage', if_pos rfl, hstage]
      refine ⟨fun heq => ?_, fun heq => ?_⟩ <;> cases heq <;> exact hne rfl
    · refine (congrArg SessionPhase.isPast (phase_setTask ..)).trans ?_
      split
      · rfl
      · exact hj
    · have hj := (congrArg SessionPhase.isRunning (phase_setTask ..)).symm.trans hj
      split at hj
      · next heq => rw [heq, hphase]; rfl
      · exact hj
  cases hl.session id with
  | none _ _ _ alone => exact absurd hstage (alone k _)
  | owned before owner channel' hservers hown hput hplace =>
      cases hplace with
      | listed _ _ alone => cases (alone k _ hstage).2
      | awaited w _ _ hwaits alone =>
          have hheld := hl.lock w id owner hwaits
          rw [hlock] at hheld
          cases hheld
      | storing hstoring _ alone =>
          obtain rfl := alone k _ hstage
          rw [hstage] at hstoring
          cases hstoring
          obtain ⟨c, hc⟩ := hl.member id k (by rw [hservers]; simp)
          refine hl.moves hmoves (fun id' c' hne hc' => ?_) (fun w id' k' hst => ?_)
            (hmoves.owned hservers hown hput (.listed (.inl ⟨?_, ?_⟩) (Function.update_self ..)
              fun j st hst => ?_))
          · rw [hc] at hc'
            cases hc'
            exact hne rfl
          · rw [hstage'] at hst
            split at hst
            · cases hst
            · exact hl.lock w id' k' hst
          · rw [hstage', if_pos rfl]
          · exact (channelRx_setPhase ..).trans hpending
          · rw [hstage'] at hst
            split at hst
            · next heq => cases hst; exact ⟨heq, rfl⟩
            · next hne => exact absurd (alone j st hst) hne

theorem Lineage.leave (hl : s.Lineage) {k : Nat} {id : ConnectionId} {backup : B} {channel : Nat}
    (hphase : s.phase k = .serving id backup channel) :
    (s.setTask k
      { s.tasks k with phase := .leaving id backup, channelRx := .sent channel }).Lineage := by
  have hstage : s.stage k = some (id, .serving channel) := by
    unfold stage
    rw [hphase]
    rfl
  obtain ⟨before, hservers, hown, hput, hplace⟩ := hl.serving hstage
  obtain ⟨c, hreplies⟩ := hl.member id k (by rw [hservers]; simp)
  have hstage' : ∀ j, (s.setTask k
      { s.tasks k with phase := .leaving id backup, channelRx := .sent channel }).stage j
      = if j = k then none else s.stage j := fun j => stage_setTask ..
  have hmoves : Moves s (s.setTask k
      { s.tasks k with phase := .leaving id backup, channelRx := .sent channel }) k id := by
    refine ⟨rfl, fun _ _ => rfl, fun j hj => ?_, fun id' st hne => ?_, fun j hj => ?_,
      fun j hj => ?_, fun j hj => ?_⟩
    · rw [hstage', if_neg hj]
    · rw [hstage', if_pos rfl, hstage]
      refine ⟨fun heq => ?_, nofun⟩
      cases heq
      exact hne rfl
    · rw [tasks_setTask, if_neg hj]
    · rw [phase_setTask]
      split
      · rfl
      · exact hj
    · rw [phase_setTask] at hj
      split at hj
      · cases hj
      · next hne => exact ⟨hj, by rw [tasks_setTask, if_neg hne]⟩
  have hsent : (s.setTask k { s.tasks k with phase := .leaving id backup
                                             channelRx := .sent channel }).Holding id k channel := by
    refine .inr ⟨?_, fun st => ?_⟩
    · rw [tasks_setTask, if_pos rfl]
    · rw [hstage', if_pos rfl]
      exact nofun
  refine hl.moves hmoves (fun id' c' hne hc' => ?_) (fun w id' k' hst => ?_)
    (hmoves.owned hservers hown hput ?_)
  · rw [hreplies] at hc'
    cases hc'
    exact hne rfl
  · rw [hstage'] at hst
    split at hst
    · cases hst
    · exact hl.lock w id' k' hst
  · cases hplace with
    | storing hstoring =>
        rw [hstage] at hstoring
        cases hstoring
    | listed _ hentry alone =>
        refine .listed hsent hentry fun j st hst => ?_
        rw [hstage'] at hst
        split at hst
        · cases hst
        · exact alone j st hst
    | awaited w _ hentry hwaits alone =>
        refine .awaited w hsent hentry ?_ fun j st hst => ?_
        · rw [hstage', if_neg]
          · exact hwaits
          · intro heq
            rw [heq, hstage] at hwaits
            cases hwaits
        · rw [hstage'] at hst
          split at hst
          · cases hst
          · exact alone j st hst

theorem Lineage.found (hl : s.Lineage) {k : Nat} {id : ConnectionId} {backup : B} {owner : Nat}
    (hphase : s.phase k = .looking id backup) (hlock : s.lock = none)
    (hentry : s.connections id = some owner) :
    (({ s with
        connections := Function.update s.connections id none
        lock := some k }.setTask owner { s.tasks owner with signalled := true }).setPhase k
      (.waiting id backup owner)).Lineage := by
  have hnone : s.replies k = none := hl.replies_none (by rw [hphase]; rfl)
  have hstage : s.stage k = none := by
    unfold stage
    rw [hphase]
    rfl
  have hphase' : ∀ j, (({ s with
        connections := Function.update s.connections id none
        lock := some k }.setTask owner { s.tasks owner with signalled := true }).setPhase k
      (.waiting id backup owner)).phase j = if j = k then .waiting id backup owner else s.phase j := by
    intro j
    refine (phase_setTask ..).trans ?_
    rw [phase_touched]
    rfl
  have hstage' : ∀ j, (({ s with
        connections := Function.update s.connections id none
        lock := some k }.setTask owner { s.tasks owner with signalled := true }).setPhase k
      (.waiting id backup owner)).stage j
      = if j = k then some (id, .waiting owner) else s.stage j := by
    intro j
    unfold stage
    rw [hphase']
    split <;> rfl
  have hrx : ∀ j, ((({ s with
        connections := Function.update s.connections id none
        lock := some k }.setTask owner { s.tasks owner with signalled := true }).setPhase k
      (.waiting id backup owner)).tasks j).channelRx = (s.tasks j).channelRx := by
    intro j
    refine (channelRx_setPhase ..).trans ?_
    rw [tasks_setTask]
    split
    · next heq => rw [heq]
    · rfl
  have hmoves : Moves s (({ s with
        connections := Function.update s.connections id none
        lock := some k }.setTask owner { s.tasks owner with signalled := true }).setPhase k
      (.waiting id backup owner)) k id := by
    refine ⟨rfl, fun id' hne => Function.update_of_ne hne .., fun j hj => ?_, fun id' st hne => ?_,
      fun j _ => hrx j, fun j hj => ?_, fun j hj => ⟨?_, hrx j⟩⟩
    · rw [hstage', if_neg hj]
    · rw [hstage', if_pos rfl, hstage]
      refine ⟨nofun, fun heq => ?_⟩
      cases heq
      exact hne rfl
    · rw [hphase']
      split
      · next heq =>
          rw [heq, hphase] at hj
          cases hj
      · exact hj
    · rw [hphase'] at hj
      split at hj
      · next heq => rw [heq, hphase]; rfl
      · exact hj
  have hfree : ∀ w id' k', s.stage w ≠ some (id', .waiting k') := by
    intro w id' k' hst
    have hheld := hl.lock w id' k' hst
    rw [hlock] at hheld
    cases hheld
  refine hl.moves hmoves (fun id' c _ hc => ?_) (fun w id' k' hst => ?_) ?_
  · rw [hnone] at hc
    cases hc
  · rw [hstage'] at hst
    split at hst
    · next heq => exact congrArg some heq.symm
    · exact absurd hst (hfree w id' k')
  · cases hl.session id with
    | none _ hempty =>
        rw [hempty] at hentry
        cases hentry
    | owned before last channel hservers hown hput hplace =>
        refine hmoves.owned hservers hown hput ?_
        cases hplace with
        | storing _ hempty =>
            rw [hempty] at hentry
            cases hentry
        | awaited w _ _ hwaits => exact absurd hwaits (hfree w id last)
        | listed hholds hlisted alone =>
            rw [hentry] at hlisted
            cases hlisted
            obtain ⟨c, hc⟩ := hl.member id owner (by rw [hservers]; simp)
            have hne : owner ≠ k := fun heq => by
              rw [heq, hnone] at hc
              cases hc
            refine .awaited k ?_ (Function.update_self ..) ?_ fun j st hst => ?_
            · rcases hholds with ⟨hserving, hpending⟩ | ⟨hsent, hgone⟩
              · exact .inl ⟨by rw [hstage', if_neg hne]; exact hserving, (hrx owner).trans hpending⟩
              · refine .inr ⟨(hrx owner).trans hsent, fun st => ?_⟩
                rw [hstage', if_neg hne]
                exact hgone st
            · rw [hstage', if_pos rfl]
            · rw [hstage'] at hst
              split at hst
              · next heq => exact .inl heq
              · exact .inr (alone j st hst)

/-! ## Runs -/

theorem Lineage.turn (hl : s.Lineage) (hknown : s.Known) {e : SessionEvent B R X}
    (hC : s.Exclusive e) (hturn : Turn replay noBackup s e s') : s'.Lineage := by
  cases hturn with
  | accept => exact hl.calm hknown (calm_accept hknown)
  | connecting hphase => exact hl.calm hknown (.setPhase hphase rfl nofun rfl)
  | @reconnecting k drawn id otp source hphase =>
      have hset : Calm s (s.setPhase k (.acquiring id otp source)) := .setPhase hphase rfl nofun rfl
      exact hl.calm hknown (hset.keychain _)
  | refused hphase => exact hl.calm hknown (.endTask hphase rfl _)
  | @verified k id otp backup hphase =>
      have hset : Calm s (s.setPhase k (.accepting id backup)) := .setPhase hphase rfl nofun rfl
      exact hl.calm hknown (hset.keychain _)
  | fails hphase =>
      rcases hphase with hphase | ⟨_, hphase⟩ <;> exact hl.calm hknown (.endTask hphase rfl _)
  | acquired hphase => exact hl.calm hknown (calm_acquired hphase)
  | missing hphase => exact hl.calm hknown (.setPhase hphase rfl nofun rfl)
  | exchanged hphase => exact hl.calm hknown (.setPhase hphase rfl nofun rfl)
  | notExchanged hphase => exact hl.calm hknown ((Calm.endTask hphase rfl _).keychain _)
  | @synchronized k id otp newOtp backup backup' x hphase =>
      have hset : Calm s (s.setPhase k (.accepting id backup')) := .setPhase hphase rfl nofun rfl
      exact hl.calm hknown (hset.keychain _)
  | notSynchronized hphase => exact hl.calm hknown ((Calm.endTask hphase rfl _).keychain _)
  | connected hphase => exact hl.calm hknown (.setPhase hphase rfl nofun rfl)
  | notConnected hphase => exact hl.calm hknown (.endTask hphase rfl _)
  | found hphase hlock hentry => exact hl.found hphase hlock hentry
  | @fresh k id backup hphase hlock hentry =>
      exact hl.fresh hknown hphase hlock hentry (hC id backup hphase)
  | restored hphase hsent => exact hl.restored hknown hphase hsent
  | @notSaved k id backup owner hphase hclosed =>
      -- the channel of a task that is waited for is not gone
      have hstage : s.stage k = some (id, .waiting owner) := by
        unfold stage
        rw [hphase]
        rfl
      obtain ⟨_, _, _, _, _, hholds, -⟩ := hl.awaited hstage
      rcases hholds with ⟨-, hpending⟩ | ⟨hsent, -⟩
      · rw [hclosed] at hpending
        cases hpending
      · rw [hclosed] at hsent
        cases hsent
  | stored hphase hlock => exact hl.stored hphase hlock
  | frames hphase => exact hl.calm hknown (.setPhase hphase rfl (fun _ => rfl) rfl)
  | reply hreplies => exact hl.reply hreplies
  | take hphase hqueue => exact hl.take hphase hqueue
  | leave hphase => exact hl.leave hphase
  | finish hphase => exact hl.calm hknown (.endTask hphase rfl _)
  | shutdown =>
      exact hl.calm hknown ⟨rfl, Nat.le_refl _, fun _ => rfl, fun _ => .inl rfl, fun _ _ h => h,
        fun _ h => .inl h⟩
  | stops hphase =>
      rcases hphase with h | ⟨_, h⟩ | ⟨_, _, _, h⟩ | ⟨_, _, _, h⟩ | ⟨_, _, _, _, h⟩ <;>
        exact hl.calm hknown (.endTask h rfl _)
  | stopsAccepting hphase => exact hl.calm hknown (.endTask hphase rfl _)

/-- In every run in which no id is looked up while a task that has taken its entry out of the table
has yet to store its own, the replies of each session are taken in order, each once, and the
channel with those that are left is at hand. -/
theorem continuous_of_run (replay : X → B → Except B B) (noBackup : B)
    (es : List (SessionEvent B R X)) (s : Sessions B R)
    (hmeets : Machine.Meeting (step replay noBackup) Exclusive es new)
    (hrun : Machine.run (step replay noBackup) es new = some s) : s.Continuous := by
  have hboth : s.Known ∧ s.Lineage := by
    refine Machine.invariant (I := fun s => s.Known ∧ s.Lineage) ?_ ⟨known_new, lineage_new⟩ hmeets
      hrun
    intro s e s' h hC hstep
    have hturn := turn_of_step hstep
    exact ⟨h.1.turn hturn, h.2.turn h.1 hC hturn⟩
  exact hboth.2.continuous

theorem known_of_run (replay : X → B → Except B B) (noBackup : B)
    (es : List (SessionEvent B R X))
    (hrun : Machine.run (step replay noBackup) es new = some s) : s.Known :=
  Machine.invariant (C := fun _ _ => True) (fun _ _ _ h _ hstep => h.turn (turn_of_step hstep))
    known_new (Machine.meeting_of_always (fun _ _ _ => trivial) _) hrun

/-- Where no task is about to store its state, any id may be looked up. -/
theorem exclusive_of_all (hknown : s.Known)
    (h : ((List.range s.spawned).all fun j => !(s.phase j).isStoring) = true) (k : Nat) :
    s.Exclusive (.lookup k : SessionEvent B R X) := by
  intro id backup _ j channel hst
  have hphase : (s.phase j).isStoring = true := by
    unfold stage SessionPhase.stage at hst
    split at hst <;> simp_all [SessionPhase.isStoring]
  have hne : s.phase j ≠ .ended := fun hended => by
    rw [hended] at hphase
    cases hphase
  have hj := List.all_eq_true.mp h j (List.mem_range.mpr (hknown.running j hne))
  rw [hphase] at hj
  cases hj

/-- A reply is put in under the first connection, which ends before it is taken. The first attempt
to take the session over is turned down by `on_connect`, and the second one takes the reply. -/
def untilSecondLookup : List (SessionEvent Nat Nat Unit) :=
  [.store 0, .reply 0 5, .take 0, .reply 0 6, .leave 0 .ends, .finish 0] ++ reconnect ++
    [.acquire 1, .exchange 1 (some [2]), .synchronize 1 (), .connected 1 false, .accept,
      .connectType 2 9 (.reconnect 7 [2]), .acquire 2, .exchange 2 (some [3]), .synchronize 2 (),
      .connected 2 true]

def afterSecondLookup : List (SessionEvent Nat Nat Unit) := [.restore 2, .store 2, .take 2]

def takeOverTwice : List (SessionEvent Nat Nat Unit) :=
  connectFirst ++ .lookup 0 :: (untilSecondLookup ++ .lookup 2 :: afterSecondLookup)

theorem continuous_twoAttempts : ∃ s, Machine.run (step countReplays 0) takeOverTwice new = some s ∧
    s.Continuous ∧ s.takenAll 7 = [5, 6] := by
  refine ⟨_, rfl, continuous_of_run countReplays 0 takeOverTwice _ ?_ rfl, rfl⟩
  -- only the two lookups have a condition
  refine Machine.Meeting.append (Machine.meeting_of_always ?_ _) rfl ?_
  · simp [connectFirst, Exclusive]
  refine Machine.Meeting.cons
    (exclusive_of_all (known_of_run countReplays 0 connectFirst rfl) rfl 0) rfl ?_
  refine Machine.Meeting.append (Machine.meeting_of_always ?_ _) rfl ?_
  · simp [untilSecondLookup, reconnect, Exclusive]
  refine Machine.Meeting.cons (exclusive_of_all
    (known_of_run countReplays 0 (connectFirst ++ .lookup 0 :: untilSecondLookup) rfl) rfl 2) rfl ?_
  refine Machine.meeting_of_always ?_ _
  simp [afterSecondLookup, Exclusive]

/-- Two clients connect, and the same id is drawn for both. The second one looks it up while the
task of a third, which takes the session over from the first, has yet to store its state. -/
def drawnTwice : List (SessionEvent Nat Nat Unit) :=
  serveFirst ++ [.reply 0 5, .leave 0 .ends, .finish 0] ++ reconnect ++
    [.acquire 1, .exchange 1 (some [2]), .synchronize 1 (), .connected 1 true, .lookup 1,
      .restore 1, .accept, .connectType 2 7 .connect, .verified 2 [3] 0, .connected 2 true,
      .lookup 2, .store 2, .reply 2 6, .take 2]

theorem not_continuous_drawnTwice : ∃ s, Machine.run (step countReplays 0) drawnTwice new = some s ∧
    ¬ s.Continuous := by
  refine ⟨_, rfl, fun h => ?_⟩
  have hfront : ([6] : List Nat) <+: [5, 6] := h.isFront 7
  revert hfront
  decide

end Sessions

end Distant
