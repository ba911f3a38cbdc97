import Distant.Host.Tunnel

/-!
# What the tunnel table holds

A sub-tunnel is announced to the client, then its task is spawned, and only then is the actor asked
to put it into the table. Until that message is dealt with its connection may have ended, its
listener may have been closed, and the client may have written to it.

`registry_of_run` says that these, an accept loop that ends by itself, and an id that is drawn
twice, are all that can put the table in disorder.
-/

namespace Distant

namespace TunnelState

/-- The task behind an entry has not finished. -/
def isAlive (s : TunnelState) : TunnelEntry → Bool
  | .connection _ task => (s.connections task).phase != .finished
  | .listener _ _ task =>
    (s.listeners task).phase != .finished && (s.listeners task).phase != .cancelled

/-! ## What is claimed, and under which condition -/

structure Registry (s : TunnelState) : Prop where
  /-- no sub-tunnel of a closed listener is in the table -/
  swept : ∀ l ∈ s.closed, ∀ (id : TunnelId) (info : TunnelInfo) (task : Nat) (i : TunnelId),
    s.tunnels id = some (.connection info task) →
    s.spawned[task]? ≠ some ⟨i, .connection (some l)⟩
  /-- a task behind an entry is running, or has just told the actor to remove it -/
  alive : ∀ id entry, s.tunnels id = some entry →
    s.isAlive entry = true ∨ .internalRemove id ∈ s.inFlight
  /-- a write to a tunnel that is due for it is refused only when its channel is full -/
  served : ∀ due result, (due, result) ∈ s.writes → due = true →
    result = .accepted ∨ result = .full

/-- The id that is drawn next belongs to no tunnel yet. -/
def Fresh (s : TunnelState) : Prop := ∀ t ∈ s.spawned, t.id ≠ s.nextId

/-- The condition on a step. -/
def InOrder (s : TunnelState) : TunnelEvent → Prop
  | .finish _ =>
    match s.busy with
    | some (.opening ..) => s.Fresh
    | some (.listening ..) => s.Fresh
    -- a sub-tunnel is registered while its listener is there, and before it is removed
    | some (.internalRegisterSubTunnel listenerId tunnelId _ _ _) =>
      (∃ info subTunnelIds task, s.tunnels listenerId = some (.listener info subTunnelIds task)) ∧
        tunnelId ∉ s.removed
    -- and before it is written to
    | some (.write _ id _) => ∀ task, s.isDueTask id task = true → task ∈ s.registered
    | _ => True
  | .accept .. => s.Fresh
  -- an accept loop ends by itself only when its listener is closed
  | .acceptFails listener _ => listener ∈ s.closed
  | _ => True

/-! ## The invariant -/

/-- The listener's task is in its accept loop. -/
def isServing (s : TunnelState) (listener : Nat) : Bool :=
  match (s.listeners listener).phase with
  | .accepting => true
  | .registering .. => true
  | _ => false

/-- The id is that of a task, but of no connection that is running. -/
def Leaving (s : TunnelState) (id : TunnelId) : Prop :=
  (∃ t ∈ s.spawned, t.id = id) ∧ ∀ (n : Nat) (parent : Option Nat),
    s.spawned[n]? = some ⟨id, .connection parent⟩ → (s.connections n).phase ≠ .running

structure Tidy (s : TunnelState) : Prop where
  unique : ∀ (n n' : Nat) (t t' : Spawned),
    s.spawned[n]? = some t → s.spawned[n']? = some t' → t.id = t'.id → n = n'
  /-- a connection is in the table with its listener -/
  connection : ∀ id info task, s.tunnels id = some (.connection info task) →
    ∃ parent, s.spawned[task]? = some ⟨id, .connection parent⟩ ∧ ∀ l, parent = some l →
      ∃ lid info subs, s.tunnels lid = some (.listener info subs l) ∧ id ∈ subs
  ending : ∀ id info task, s.tunnels id = some (.connection info task) →
    (s.connections task).phase = .finished → .internalRemove id ∈ s.inFlight
  listener : ∀ id info subs task, s.tunnels id = some (.listener info subs task) →
    task ∉ s.closed ∧ s.isServing task = true ∧ s.spawned[task]? = some ⟨id, .listener⟩ ∧
      ∀ sid ∈ subs, ∃ m : Nat, s.spawned[m]? = some ⟨sid, .connection (some task)⟩
  /-- what was registered is in the table until it ends or is closed -/
  present : ∀ task ∈ s.registered, ∀ id parent, s.spawned[task]? = some ⟨id, .connection parent⟩ →
    (s.connections task).phase = .running → s.wasClosed task parent = false →
    ∃ info, s.tunnels id = some (.connection info task)
  removes : ∀ id, .internalRemove id ∈ s.inFlight → s.Leaving id
  finished : ∀ (n : Nat) (id : TunnelId) (parent : Option Nat),
    s.spawned[n]? = some ⟨id, .connection parent⟩ →
    (s.connections n).phase = .finished → .internalRemove id ∈ s.inFlight ∨ id ∈ s.removed
  registers : ∀ lid tid host port m, .internalRegisterSubTunnel lid tid host port m ∈ s.inFlight →
    ∃ l : Nat, s.spawned[l]? = some ⟨lid, .listener⟩ ∧ s.spawned[m]? = some ⟨tid, .connection (some l)⟩
  registering : ∀ (l m : Nat) (tid : TunnelId) (host : String) (port : UInt16),
    (s.listeners l).phase = .registering m tid host port →
    s.spawned[m]? = some ⟨tid, .connection (some l)⟩
  aborted : ∀ l, (s.listeners l).aborted = true → l ∈ s.closed
  known : ∀ n ∈ s.closed ++ s.registered, n < s.spawned.length
  served : ∀ due result, (due, result) ∈ s.writes → due = true →
    result = .accepted ∨ result = .full

theorem isAlive_of_isServing {s : TunnelState} {info : TunnelInfo} {subs : List TunnelId} {l : Nat}
    (h : s.isServing l = true) : s.isAlive (.listener info subs l) = true := by
  unfold isServing at h
  unfold isAlive
  split at h
  · next hphase => simp [hphase]
  · next hphase => simp [hphase]
  · cases h

theorem Tidy.registry {s : TunnelState} (h : s.Tidy) : s.Registry where
  swept := by
    intro l hl id info task i hentry hspawned
    obtain ⟨parent, hown, hparent⟩ := h.connection id info task hentry
    rw [hown] at hspawned
    obtain ⟨lid, linfo, subs, hlistener, -⟩ := hparent l (by grind)
    exact (h.listener lid linfo subs l hlistener).1 hl
  alive := by
    intro id entry hentry
    cases entry with
    | connection info task =>
        by_cases hphase : (s.connections task).phase = .finished
        · exact .inr (h.ending id info task hentry hphase)
        · exact .inl (by simpa [isAlive] using hphase)
    | listener info subs task =>
        exact .inl (isAlive_of_isServing (h.listener id info subs task hentry).2.1)
  served := h.served

theorem tidy_new : new.Tidy where
  unique := by simp [new]
  connection := nofun
  ending := nofun
  listener := nofun
  present := nofun
  removes := nofun
  finished := by simp [new]
  registers := nofun
  registering := nofun
  aborted := nofun
  known := nofun
  served := nofun

/-! ## Steps of the tasks -/

section Steps

variable {s s' : TunnelState}

/-- What a step outside the actor may change. -/
structure Moves (s s' : TunnelState) : Prop where
  spawned : s'.spawned = s.spawned
  tunnels : s'.tunnels = s.tunnels
  closed : s'.closed = s.closed
  registered : s'.registered = s.registered
  removed : s'.removed = s.removed
  writes : s'.writes = s.writes
  flight : ∀ msg ∈ s.inFlight, msg ∈ s'.inFlight
  removes : ∀ id, .internalRemove id ∈ s'.inFlight →
    .internalRemove id ∈ s.inFlight ∨ s'.Leaving id
  registers : ∀ lid tid host port m,
    .internalRegisterSubTunnel lid tid host port m ∈ s'.inFlight →
    .internalRegisterSubTunnel lid tid host port m ∈ s.inFlight ∨
      ∃ l : Nat, s.spawned[l]? = some ⟨lid, .listener⟩ ∧
        s.spawned[m]? = some ⟨tid, .connection (some l)⟩
  running : ∀ n, (s'.connections n).phase = .running → (s.connections n).phase = .running
  finished : ∀ (n : Nat) (id : TunnelId) (parent : Option Nat),
    s.spawned[n]? = some ⟨id, .connection parent⟩ →
    (s'.connections n).phase = .finished →
    (s.connections n).phase = .finished ∨ .internalRemove id ∈ s'.inFlight
  serving : ∀ l, l ∉ s.closed → s.isServing l = true → s'.isServing l = true
  registering : ∀ (l m : Nat) (tid : TunnelId) (host : String) (port : UInt16),
    (s'.listeners l).phase = .registering m tid host port →
    (s.listeners l).phase = .registering m tid host port
  aborted : ∀ l, (s'.listeners l).aborted = true → (s.listeners l).aborted = true

theorem Tidy.of_moves (h : s.Tidy) (hm : Moves s s') : s'.Tidy where
  unique := by
    rw [hm.spawned]
    exact h.unique
  connection := by
    rw [hm.spawned, hm.tunnels]
    exact h.connection
  ending := by
    intro id info task hentry hphase
    rw [hm.tunnels] at hentry
    obtain ⟨parent, hspawned, -⟩ := h.connection id info task hentry
    rcases hm.finished task id parent hspawned hphase with hfinished | hflight
    · exact hm.flight _ (h.ending id info task hentry hfinished)
    · exact hflight
  listener := by
    rw [hm.spawned, hm.tunnels, hm.closed]
    intro id info subs task hentry
    obtain ⟨hclosed, hserving, hrest⟩ := h.listener id info subs task hentry
    exact ⟨hclosed, hm.serving task hclosed hserving, hrest⟩
  present := by
    rw [hm.registered, hm.spawned, hm.tunnels]
    intro task htask id parent hspawned hphase hopen
    refine h.present task htask id parent hspawned (hm.running task hphase) ?_
    unfold wasClosed at hopen ⊢
    rwa [hm.closed] at hopen
  removes := by
    intro id hid
    rcases hm.removes id hid with hold | hnew
    · obtain ⟨hknown, hphase⟩ := h.removes id hold
      unfold Leaving
      rw [hm.spawned]
      exact ⟨hknown, fun n parent hn hrun => hphase n parent hn (hm.running n hrun)⟩
    · exact hnew
  finished := by
    rw [hm.spawned, hm.removed]
    intro n id parent hspawned hphase
    rcases hm.finished n id parent hspawned hphase with hfinished | hflight
    · rcases h.finished n id parent hspawned hfinished with hold | hold
      · exact .inl (hm.flight _ hold)
      · exact .inr hold
    · exact .inl hflight
  registers := by
    rw [hm.spawned]
    intro lid tid host port m hmsg
    rcases hm.registers lid tid host port m hmsg with hold | hnew
    · exact h.registers lid tid host port m hold
    · exact hnew
  registering := by
    rw [hm.spawned]
    intro l m tid host port hphase
    exact h.registering l m tid host port (hm.registering l m tid host port hphase)
  aborted := by
    rw [hm.closed]
    exact fun l hl => h.aborted l (hm.aborted l hl)
  known := by
    rw [hm.closed, hm.registered, hm.spawned]
    exact h.known
  served := by
    rw [hm.writes]
    exact h.served

theorem send_eq_some {msg : InnerTunnelMsg} (h : s.send msg = some s') :
    s' = { s with queue := s.queue ++ [msg] } := by
  unfold send at h
  split at h
  · exact (Option.some.inj h).symm
  · cases h

theorem mem_inFlight_send (s : TunnelState) (msg msg' : InnerTunnelMsg) :
    msg' ∈ { s with queue := s.queue ++ [msg] }.inFlight ↔ msg' ∈ s.inFlight ∨ msg' = msg := by
  simp [inFlight, or_assoc]

theorem spawned_of_isConnection {n : Nat} (h : s.isConnection n = true) :
    ∃ parent, s.spawned[n]? = some ⟨s.idOf n, .connection parent⟩ := by
  unfold isConnection at h
  split at h
  · next id parent hspawned => exact ⟨parent, by simp [idOf, hspawned]⟩
  · cases h

theorem spawned_of_isListener {n : Nat} (h : s.isListener n = true) :
    s.spawned[n]? = some ⟨s.idOf n, .listener⟩ := by
  unfold isListener at h
  split at h
  · next id hspawned => simp [idOf, hspawned]
  · cases h

/-- A request joins the queue. -/
theorem moves_request {msg : InnerTunnelMsg} (hmsg : isRequest msg = true)
    (hsend : s.send msg = some s') : Moves s s' := by
  obtain rfl := send_eq_some hsend
  refine ⟨rfl, rfl, rfl, rfl, rfl, rfl, ?_, ?_, ?_, fun _ h => h, fun _ _ _ _ h => .inl h,
    fun _ _ h => h, fun _ _ _ _ _ h => h, fun _ h => h⟩
  · exact fun msg' h => (mem_inFlight_send s msg msg').mpr (.inl h)
  · intro id h
    rcases (mem_inFlight_send s _ _).mp h with h | rfl
    · exact .inl h
    · cases hmsg
  · intro lid tid host port m h
    rcases (mem_inFlight_send s _ _).mp h with h | rfl
    · exact .inl h
    · cases hmsg

theorem moves_take {msg : InnerTunnelMsg} {queue : List InnerTunnelMsg} (hbusy : s.busy = none)
    (hqueue : s.queue = msg :: queue) : Moves s { s with busy := some msg, queue := queue } := by
  have hflight : { s with busy := some msg, queue := queue }.inFlight = s.inFlight := by
    simp [inFlight, hbusy, hqueue]
  refine ⟨rfl, rfl, rfl, rfl, rfl, rfl, ?_, ?_, ?_, fun _ h => h, fun _ _ _ _ h => .inl h,
    fun _ _ h => h, fun _ _ _ _ _ h => h, fun _ h => h⟩
  · rw [hflight]
    exact fun _ h => h
  · rw [hflight]
    exact fun _ h => .inl h
  · rw [hflight]
    exact fun _ _ _ _ _ h => .inl h

/-- A connection moves on, and sends nothing. -/
theorem moves_setConnection {n : Nat} {c : ConnectionState} {replies : List TunnelReply}
    (hrunning : c.phase = .running → (s.connections n).phase = .running)
    (hfinished : c.phase ≠ .finished) :
    Moves s { s.setConnection n c with replies := replies } := by
  refine ⟨rfl, rfl, rfl, rfl, rfl, rfl, fun _ h => h, fun _ h => .inl h, fun _ _ _ _ _ h => .inl h,
    ?_, ?_, fun _ _ h => h, fun _ _ _ _ _ h => h, fun _ h => h⟩
  · intro m hm
    by_cases heq : m = n
    · subst heq
      simp only [setConnection, Function.update_self] at hm
      exact hrunning hm
    · simpa [setConnection, heq] using hm
  · intro m id parent _ hm
    by_cases heq : m = n
    · subst heq
      simp only [setConnection, Function.update_self] at hm
      exact absurd hm hfinished
    · exact .inl (by simpa [setConnection, heq] using hm)

/-- A listener that is not in its accept loop any more, or was closed, moves on. -/
theorem moves_setListener {l : Nat} {phase : ListenerPhase} {replies : List TunnelReply}
    {nextId : TunnelId} (hserving : l ∉ s.closed → s.isServing l = false)
    (hphase : ∀ m tid host port, phase ≠ .registering m tid host port) :
    Moves s { s.setListener l phase with replies := replies, nextId := nextId } := by
  refine ⟨rfl, rfl, rfl, rfl, rfl, rfl, fun _ h => h, fun _ h => .inl h, fun _ _ _ _ _ h => .inl h,
    fun _ h => h, fun _ _ _ _ h => .inl h, ?_, ?_, ?_⟩
  · intro m hopen hm
    by_cases heq : m = l
    · subst heq
      rw [hserving hopen] at hm
      cases hm
    · simpa [isServing, setListener, heq] using hm
  · intro m k tid host port hm
    by_cases heq : m = l
    · subst heq
      simp only [setListener, Function.update_self] at hm
      exact absurd hm (hphase k tid host port)
    · simpa [setListener, heq] using hm
  · intro m hm
    by_cases heq : m = l
    · subst heq
      simpa [setListener] using hm
    · simpa [setListener, heq] using hm

/-- A listener has what it has announced registered. -/
theorem moves_register (h : s.Tidy) {l m : Nat} {tid : TunnelId} {host : String} {port : UInt16}
    (hl : s.isListener l = true) (hphase : (s.listeners l).phase = .registering m tid host port)
    (hsend : s.send (.internalRegisterSubTunnel (s.idOf l) tid host port m) = some s') :
    Moves s (s'.setListener l .accepting) := by
  obtain rfl := send_eq_some hsend
  refine ⟨rfl, rfl, rfl, rfl, rfl, rfl, ?_, ?_, ?_, fun _ h => h, fun _ _ _ _ h => .inl h, ?_, ?_, ?_⟩
  · exact fun msg hmsg => (mem_inFlight_send s _ _).mpr (.inl hmsg)
  · intro id hid
    rcases (mem_inFlight_send s _ _).mp hid with hid | hid
    · exact .inl hid
    · cases hid
  · intro lid tid' host' port' m' hmsg
    rcases (mem_inFlight_send s _ _).mp hmsg with hmsg | hmsg
    · exact .inl hmsg
    · cases hmsg
      exact .inr ⟨l, spawned_of_isListener hl, h.registering l m tid host port hphase⟩
  · intro k _ hk
    by_cases heq : k = l
    · subst heq
      simp [isServing, setListener]
    · simpa [isServing, setListener, heq] using hk
  · intro k m' tid' host' port' hk
    by_cases heq : k = l
    · subst heq
      simp [setListener] at hk
    · simpa [setListener, heq] using hk
  · intro k hk
    by_cases heq : k = l
    · subst heq
      simpa [setListener] using hk
    · simpa [setListener, heq] using hk

/-- A connection that has ended tells the actor. -/
theorem moves_removeConnection (h : s.Tidy) {n : Nat} (hn : s.isConnection n = true)
    (hsend : s.send (.internalRemove (s.idOf n)) = some s') :
    Moves s (s'.setConnection n { s.connections n with phase := .finished }) := by
  obtain rfl := send_eq_some hsend
  obtain ⟨parent, hspawned⟩ := spawned_of_isConnection hn
  have hothers (m : Nat) (hm : m ≠ n) : (({ s with
      queue := s.queue ++ [.internalRemove (s.idOf n)] } : TunnelState).setConnection n
        { s.connections n with phase := .finished }).connections m = s.connections m := by
    simp [setConnection, hm]
  refine ⟨rfl, rfl, rfl, rfl, rfl, rfl, ?_, ?_, ?_, ?_, ?_, fun _ _ h => h, fun _ _ _ _ _ h => h,
    fun _ h => h⟩
  · exact fun msg hmsg => (mem_inFlight_send s _ _).mpr (.inl hmsg)
  · intro id hid
    rcases (mem_inFlight_send s _ _).mp hid with hid | hid
    · exact .inl hid
    · cases hid
      refine .inr ⟨⟨_, List.mem_of_getElem? hspawned, rfl⟩, fun m parent' hm => ?_⟩
      obtain rfl := h.unique m n _ _ hm hspawned rfl
      simp [setConnection]
  · intro lid tid host port m hmsg
    rcases (mem_inFlight_send s _ _).mp hmsg with hmsg | hmsg
    · exact .inl hmsg
    · cases hmsg
  · intro m hm
    by_cases heq : m = n
    · subst heq
      simp [setConnection] at hm
    · rwa [hothers m heq] at hm
  · intro m id parent' hm hphase
    by_cases heq : m = n
    · subst heq
      rw [hspawned] at hm
      cases hm
      exact .inr ((mem_inFlight_send s _ _).mpr (.inr rfl))
    · rw [hothers m heq] at hphase
      exact .inl hphase

/-- So does a listener. -/
theorem moves_removeListener (h : s.Tidy) {l : Nat} (hl : s.isListener l = true)
    (hphase : (s.listeners l).phase = .ended)
    (hsend : s.send (.internalRemove (s.idOf l)) = some s') :
    Moves s (s'.setListener l .finished) := by
  obtain rfl := send_eq_some hsend
  have hspawned := spawned_of_isListener hl
  refine ⟨rfl, rfl, rfl, rfl, rfl, rfl, ?_, ?_, ?_, fun _ h => h, fun _ _ _ _ h => .inl h, ?_, ?_, ?_⟩
  · exact fun msg hmsg => (mem_inFlight_send s _ _).mpr (.inl hmsg)
  · intro id hid
    rcases (mem_inFlight_send s _ _).mp hid with hid | hid
    · exact .inl hid
    · cases hid
      -- the id is that of a listener, and so of no connection
      refine .inr ⟨⟨_, List.mem_of_getElem? hspawned, rfl⟩, fun m parent hm => ?_⟩
      have hm' : s.spawned[m]? = _ := hm
      obtain rfl := h.unique m l _ _ hm' hspawned rfl
      rw [hspawned] at hm'
      cases hm'
  · intro lid tid host port m hmsg
    rcases (mem_inFlight_send s _ _).mp hmsg with hmsg | hmsg
    · exact .inl hmsg
    · cases hmsg
  · intro k _ hk
    by_cases heq : k = l
    · subst heq
      simp [isServing, hphase] at hk
    · simpa [isServing, setListener, heq] using hk
  · intro k m' tid' host' port' hk
    by_cases heq : k = l
    · subst heq
      simp [setListener] at hk
    · simpa [setListener, heq] using hk
  · intro k hk
    by_cases heq : k = l
    · subst heq
      simpa [setListener] using hk
    · simpa [setListener, heq] using hk

/-! ## Steps of the actor -/

theorem getElem?_spawn_of_some {kind : TunnelKind} {n : Nat} {t : Spawned}
    (h : s.spawned[n]? = some t) : (s.spawn kind).spawned[n]? = some t := by
  show (s.spawned ++ _)[n]? = _
  rw [List.getElem?_append_left (List.getElem?_eq_some_iff.mp h).1]
  exact h

theorem getElem?_spawn {kind : TunnelKind} {n : Nat} {t : Spawned}
    (h : (s.spawn kind).spawned[n]? = some t) :
    s.spawned[n]? = some t ∨ n = s.spawned.length ∧ t = ⟨s.nextId, kind⟩ := by
  have h' : (s.spawned ++ [⟨s.nextId, kind⟩])[n]? = some t := h
  by_cases hn : n < s.spawned.length
  · rw [List.getElem?_append_left hn] at h'
    exact .inl h'
  · have hlt := (List.getElem?_eq_some_iff.mp h').1
    have hlen : n = s.spawned.length := by
      simp only [List.length_append, List.length_singleton] at hlt
      omega
    subst hlen
    rw [List.getElem?_concat_length] at h'
    exact .inr ⟨rfl, (Option.some.inj h').symm⟩

theorem getElem?_spawn_self (kind : TunnelKind) :
    (s.spawn kind).spawned[s.spawned.length]? = some ⟨s.nextId, kind⟩ :=
  List.getElem?_concat_length

/-- The states of the tasks that are there already stay as they are. -/
theorem states_spawn (kind : TunnelKind) {n : Nat} (hn : n ≠ s.spawned.length) :
    (s.spawn kind).connections n = s.connections n ∧
      (s.spawn kind).listeners n = s.listeners n := by
  simp [spawn, hn]

theorem ne_length_of_some {n : Nat} {t : Spawned} (h : s.spawned[n]? = some t) :
    n ≠ s.spawned.length :=
  Nat.ne_of_lt (List.getElem?_eq_some_iff.mp h).1

theorem Tidy.spawn (h : s.Tidy) (hfresh : s.Fresh) (kind : TunnelKind) : (s.spawn kind).Tidy where
  unique := by
    intro n n' t t' hn hn' hid
    rcases getElem?_spawn hn with hn | ⟨rfl, rfl⟩ <;> rcases getElem?_spawn hn' with hn' | ⟨rfl, rfl⟩
    · exact h.unique n n' t t' hn hn' hid
    · exact absurd hid (hfresh t (List.mem_of_getElem? hn))
    · exact absurd hid.symm (hfresh t' (List.mem_of_getElem? hn'))
    · rfl
  connection := by
    intro id info task hentry
    obtain ⟨parent, hspawned, hparent⟩ := h.connection id info task hentry
    exact ⟨parent, getElem?_spawn_of_some hspawned, hparent⟩
  ending := by
    intro id info task hentry hphase
    obtain ⟨parent, hspawned, -⟩ := h.connection id info task hentry
    rw [(states_spawn kind (ne_length_of_some hspawned)).1] at hphase
    exact h.ending id info task hentry hphase
  listener := by
    intro id info subs task hentry
    obtain ⟨hclosed, hserving, hspawned, hsubs⟩ := h.listener id info subs task hentry
    refine ⟨hclosed, ?_, getElem?_spawn_of_some hspawned, fun sid hsid => ?_⟩
    · unfold isServing
      rw [(states_spawn kind (ne_length_of_some hspawned)).2]
      exact hserving
    · obtain ⟨m, hm⟩ := hsubs sid hsid
      exact ⟨m, getElem?_spawn_of_some hm⟩
  present := by
    intro task htask id parent hspawned hphase hopen
    rcases getElem?_spawn hspawned with hspawned | ⟨rfl, -⟩
    · rw [(states_spawn kind (ne_length_of_some hspawned)).1] at hphase
      exact h.present task htask id parent hspawned hphase hopen
    · exact absurd (h.known _ (List.mem_append_right _ htask)) (Nat.lt_irrefl _)
  removes := by
    intro id hid
    obtain ⟨⟨t, ht, rfl⟩, hphase⟩ := h.removes id hid
    refine ⟨⟨t, List.mem_append_left _ ht, rfl⟩, fun n parent hn => ?_⟩
    rcases getElem?_spawn hn with hn | ⟨-, heq⟩
    · rw [(states_spawn kind (ne_length_of_some hn)).1]
      exact hphase n parent hn
    · exact absurd (congrArg Spawned.id heq) (hfresh t ht)
  finished := by
    intro n id parent hn hphase
    rcases getElem?_spawn hn with hn | ⟨rfl, -⟩
    · rw [(states_spawn kind (ne_length_of_some hn)).1] at hphase
      exact h.finished n id parent hn hphase
    · simp [TunnelState.spawn] at hphase
  registers := by
    intro lid tid host port m hmsg
    obtain ⟨l, hl, hm⟩ := h.registers lid tid host port m hmsg
    exact ⟨l, getElem?_spawn_of_some hl, getElem?_spawn_of_some hm⟩
  registering := by
    intro l m tid host port hphase
    by_cases heq : l = s.spawned.length
    · subst heq
      simp [TunnelState.spawn] at hphase
    · rw [(states_spawn kind heq).2] at hphase
      exact getElem?_spawn_of_some (h.registering l m tid host port hphase)
  aborted := by
    intro l hl
    by_cases heq : l = s.spawned.length
    · subst heq
      simp [TunnelState.spawn] at hl
    · rw [(states_spawn kind heq).2] at hl
      exact h.aborted l hl
  known := by
    intro n hn
    show n < (s.spawned ++ _).length
    rw [List.length_append]
    exact Nat.lt_add_right _ (h.known n hn)
  served := h.served

/-- No entry of the table has an id that is not drawn yet. -/
theorem Tidy.tunnels_nextId (h : s.Tidy) (hfresh : s.Fresh) : s.tunnels s.nextId = none := by
  cases hentry : s.tunnels s.nextId with
  | none => rfl
  | some entry =>
      cases entry with
      | connection info task =>
          obtain ⟨parent, hspawned, -⟩ := h.connection _ info task hentry
          exact absurd rfl (hfresh _ (List.mem_of_getElem? hspawned))
      | listener info subs task =>
          obtain ⟨-, -, hspawned, -⟩ := h.listener _ info subs task hentry
          exact absurd rfl (hfresh _ (List.mem_of_getElem? hspawned))

/-- The other entries of the table when a connection is put into it: a listener gets to know its
sub-tunnel. -/
inductive Extends (id : TunnelId) (parent : Option Nat) :
    Option TunnelEntry → Option TunnelEntry → Prop
  | same (entry) : Extends id parent entry entry
  | sub {info subs l} : parent = some l →
      Extends id parent (some (.listener info subs l)) (some (.listener info (subs ++ [id]) l))

theorem Tidy.insertConnection (h : s.Tidy) {id : TunnelId} {info : TunnelInfo} {task : Nat}
    {parent : Option Nat} {tunnels : TunnelId → Option TunnelEntry}
    (hspawned : s.spawned[task]? = some ⟨id, .connection parent⟩)
    (hnew : tunnels id = some (.connection info task))
    (hothers : ∀ i, i ≠ id → Extends id parent (s.tunnels i) (tunnels i))
    (hparent : ∀ l, parent = some l →
      ∃ lid info subs, tunnels lid = some (.listener info subs l) ∧ id ∈ subs)
    (hending : (s.connections task).phase = .finished → .internalRemove id ∈ s.inFlight) :
    { s with tunnels := tunnels, registered := task :: s.registered }.Tidy where
  unique := h.unique
  connection := by
    intro i info' n (hentry : tunnels i = _)
    by_cases heq : i = id
    · subst heq
      rw [hnew] at hentry
      cases hentry
      exact ⟨parent, hspawned, hparent⟩
    · have hext := hothers i heq
      rw [hentry] at hext
      generalize hold : s.tunnels i = old at hext
      cases hext with
      | same =>
          obtain ⟨parent', hn, hparent'⟩ := h.connection i info' n hold
          refine ⟨parent', hn, fun l hl => ?_⟩
          obtain ⟨lid, linfo, subs, hlistener, hmem⟩ := hparent' l hl
          have hlid : lid ≠ id := by
            rintro rfl
            have hlspawned := (h.listener lid linfo subs l hlistener).2.2.1
            obtain rfl := h.unique l task _ _ hlspawned hspawned rfl
            rw [hlspawned] at hspawned
            cases hspawned
          have hlext := hothers lid hlid
          rw [hlistener] at hlext
          generalize hnow : tunnels lid = now at hlext
          cases hlext with
          | same => exact ⟨lid, linfo, subs, hnow, hmem⟩
          | sub => exact ⟨lid, linfo, _, hnow, List.mem_append_left _ hmem⟩
  ending := by
    intro i info' n (hentry : tunnels i = _) hphase
    by_cases heq : i = id
    · subst heq
      rw [hnew] at hentry
      cases hentry
      exact hending hphase
    · have hext := hothers i heq
      rw [hentry] at hext
      generalize hold : s.tunnels i = old at hext
      cases hext with
      | same => exact h.ending i info' n hold hphase
  listener := by
    intro i info' subs l (hentry : tunnels i = _)
    by_cases heq : i = id
    · subst heq
      rw [hnew] at hentry
      cases hentry
    · have hext := hothers i heq
      rw [hentry] at hext
      generalize hold : s.tunnels i = old at hext
      cases hext with
      | same => exact h.listener i info' subs l hold
      | @sub _ subs' _ hl =>
          obtain ⟨hclosed, hserving, hlspawned, hsubs⟩ := h.listener i info' subs' l hold
          refine ⟨hclosed, hserving, hlspawned, fun sid hsid => ?_⟩
          rcases List.mem_append.mp hsid with hsid | hsid
          · exact hsubs sid hsid
          · obtain rfl := List.mem_singleton.mp hsid
            exact ⟨task, by rw [hspawned, hl]⟩
  present := by
    intro n hn i parent' hnspawned hphase hopen
    by_cases heq : i = id
    · subst heq
      obtain rfl := h.unique n task _ _ hnspawned hspawned rfl
      exact ⟨info, hnew⟩
    · have hmem : n ∈ s.registered := by
        rcases List.mem_cons.mp hn with rfl | hmem
        · rw [hspawned] at hnspawned
          cases hnspawned
          exact absurd rfl heq
        · exact hmem
      obtain ⟨info', hentry⟩ := h.present n hmem i parent' hnspawned hphase hopen
      have hext := hothers i heq
      rw [hentry] at hext
      generalize hnow : tunnels i = now at hext
      cases hext with
      | same => exact ⟨info', hnow⟩
  removes := h.removes
  finished := h.finished
  registers := h.registers
  registering := h.registering
  aborted := h.aborted
  known := by
    intro n hn
    rcases List.mem_append.mp hn with hn | hn
    · exact h.known n (List.mem_append_left _ hn)
    · rcases List.mem_cons.mp hn with rfl | hn
      · exact (List.getElem?_eq_some_iff.mp hspawned).1
      · exact h.known n (List.mem_append_right _ hn)
  served := h.served

theorem tunnels_insert_of_ne {id i : TunnelId} (hne : i ≠ id) (entry : TunnelEntry) :
    (s.insert id entry).tunnels i = s.tunnels i := by
  simp [TunnelState.insert, hne]

theorem tunnels_insert_self (id : TunnelId) (entry : TunnelEntry) :
    (s.insert id entry).tunnels id = some entry := by
  simp [TunnelState.insert]

theorem Tidy.insertListener (h : s.Tidy) {id : TunnelId} {info : TunnelInfo} {task : Nat}
    (hspawned : s.spawned[task]? = some ⟨id, .listener⟩) (hnone : s.tunnels id = none)
    (hclosed : task ∉ s.closed) (hserving : s.isServing task = true) :
    (s.insert id (.listener info [] task)).Tidy where
  unique := h.unique
  connection := by
    intro i info' n hentry
    have hne : i ≠ id := by
      rintro rfl
      simp [TunnelState.insert] at hentry
    rw [tunnels_insert_of_ne hne] at hentry
    obtain ⟨parent, hn, hparent⟩ := h.connection i info' n hentry
    refine ⟨parent, hn, fun l hl => ?_⟩
    obtain ⟨lid, linfo, subs, hlistener, hmem⟩ := hparent l hl
    have hlid : lid ≠ id := by
      rintro rfl
      rw [hnone] at hlistener
      cases hlistener
    exact ⟨lid, linfo, subs, by rw [tunnels_insert_of_ne hlid, hlistener], hmem⟩
  ending := by
    intro i info' n hentry hphase
    have hne : i ≠ id := by
      rintro rfl
      simp [TunnelState.insert] at hentry
    rw [tunnels_insert_of_ne hne] at hentry
    exact h.ending i info' n hentry hphase
  listener := by
    intro i info' subs l hentry
    by_cases heq : i = id
    · subst heq
      rw [tunnels_insert_self] at hentry
      cases hentry
      exact ⟨hclosed, hserving, hspawned, nofun⟩
    · rw [tunnels_insert_of_ne heq] at hentry
      exact h.listener i info' subs l hentry
  present := by
    intro n hn i parent hnspawned hphase hopen
    obtain ⟨info', hentry⟩ := h.present n hn i parent hnspawned hphase hopen
    have hne : i ≠ id := by
      rintro rfl
      rw [hnone] at hentry
      cases hentry
    exact ⟨info', by rw [tunnels_insert_of_ne hne, hentry]⟩
  removes := h.removes
  finished := h.finished
  registers := h.registers
  registering := h.registering
  aborted := h.aborted
  known := h.known
  served := h.served

/-- The actor is done with a message that removes nothing. -/
theorem Tidy.settle (h : s.Tidy) {msg : InnerTunnelMsg} (hbusy : s.busy = some msg)
    (hmsg : ∀ id, msg ≠ .internalRemove id) : { s with busy := none }.Tidy := by
  have hflight : s.inFlight = msg :: { s with busy := none }.inFlight := by simp [inFlight, hbusy]
  have hremove (id : TunnelId) (hid : .internalRemove id ∈ s.inFlight) :
      .internalRemove id ∈ { s with busy := none }.inFlight := by
    rw [hflight] at hid
    exact (List.mem_cons.mp hid).resolve_left fun heq => hmsg id heq.symm
  have hmem {msg' : InnerTunnelMsg} (hin : msg' ∈ { s with busy := none }.inFlight) :
      msg' ∈ s.inFlight := by
    rw [hflight]
    exact List.mem_cons_of_mem _ hin
  refine ⟨h.unique, h.connection, ?_, h.listener, h.present, ?_, ?_, ?_, h.registering, h.aborted,
    h.known, h.served⟩
  · exact fun id info task hentry hphase => hremove id (h.ending id info task hentry hphase)
  · exact fun id hid => h.removes id (hmem hid)
  · intro n id parent hn hphase
    rcases h.finished n id parent hn hphase with hin | hremoved
    · exact .inl (hremove id hin)
    · exact .inr hremoved
  · exact fun lid tid host port m hin => h.registers lid tid host port m (hmem hin)

theorem Tidy.reply (h : s.Tidy) (r : TunnelReply) : (s.reply r).Tidy :=
  ⟨h.unique, h.connection, h.ending, h.listener, h.present, h.removes, h.finished, h.registers,
    h.registering, h.aborted, h.known, h.served⟩

theorem Tidy.logWrite (h : s.Tidy) {due : Bool} {result : WriteResult}
    (hserved : due = true → result = .accepted ∨ result = .full) :
    { s with writes := s.writes ++ [(due, result)] }.Tidy := by
  refine ⟨h.unique, h.connection, h.ending, h.listener, h.present, h.removes, h.finished,
    h.registers, h.registering, h.aborted, h.known, ?_⟩
  intro due' result' hmem
  rcases List.mem_append.mp hmem with hmem | hmem
  · exact h.served due' result' hmem
  · cases List.mem_singleton.mp hmem
    exact hserved

theorem moves_trySend (task : Nat) : Moves s (s.trySend task).2 := by
  unfold trySend
  simp only
  split
  · exact ⟨rfl, rfl, rfl, rfl, rfl, rfl, fun _ h => h, fun _ h => .inl h, fun _ _ _ _ _ h => .inl h,
      fun _ h => h, fun _ _ _ _ h => .inl h, fun _ _ h => h, fun _ _ _ _ _ h => h, fun _ h => h⟩
  · next hrunning =>
      split
      · exact ⟨rfl, rfl, rfl, rfl, rfl, rfl, fun _ h => h, fun _ h => .inl h,
          fun _ _ _ _ _ h => .inl h, fun _ h => h, fun _ _ _ _ h => .inl h, fun _ _ h => h,
          fun _ _ _ _ _ h => h, fun _ h => h⟩
      · refine moves_setConnection (fun _ => not_not.mp hrunning) ?_
        simp [not_not.mp hrunning]

theorem isDue_eq_true {id : TunnelId} (h : s.isDue id = true) :
    ∃ task parent, s.isDueTask id task = true ∧ s.spawned[task]? = some ⟨id, .connection parent⟩ ∧
      (s.connections task).phase = .running ∧ s.wasClosed task parent = false := by
  obtain ⟨task, -, htask⟩ := List.any_eq_true.mp h
  have hdue := htask
  unfold isDueTask at htask
  split at htask
  · next id' parent hspawned =>
      simp only [Bool.and_eq_true, beq_iff_eq, Bool.not_eq_true'] at htask
      obtain ⟨⟨rfl, hphase⟩, hopen⟩ := htask
      exact ⟨task, parent, hdue, hspawned, hphase, hopen⟩
  · cases htask

theorem Tidy.onWrite (h : s.Tidy) (r : Nat) {id : TunnelId}
    (hregistered : ∀ task, s.isDueTask id task = true → task ∈ s.registered) :
    (s.onWrite r id).Tidy := by
  have hserved (hdue : s.isDue id = true) : ∃ info task, s.tunnels id = some (.connection info task) ∧
      (s.connections task).phase = .running := by
    obtain ⟨task, parent, hduetask, hspawned, hphase, hopen⟩ := isDue_eq_true hdue
    obtain ⟨info, hentry⟩ :=
      h.present task (hregistered task hduetask) id parent hspawned hphase hopen
    exact ⟨info, task, hentry, hphase⟩
  unfold TunnelState.onWrite
  apply Tidy.reply
  cases hentry : s.tunnels id with
  | none =>
      refine h.logWrite fun hdue => ?_
      obtain ⟨info, task, hsome, -⟩ := hserved hdue
      rw [hentry] at hsome
      cases hsome
  | some entry =>
      cases entry with
      | listener info subs task =>
          refine h.logWrite fun hdue => ?_
          obtain ⟨info, task, hsome, -⟩ := hserved hdue
          rw [hentry] at hsome
          cases hsome
      | connection info task =>
          refine (h.of_moves (moves_trySend task)).logWrite fun hdue => ?_
          obtain ⟨info', task', hsome, hphase⟩ := hserved hdue
          rw [hentry] at hsome
          cases hsome
          unfold trySend
          simp only [hphase]
          split
          · contradiction
          · split
            · exact .inr rfl
            · exact .inl rfl

/-- A connection is closed. -/
theorem Tidy.closeConnection (h : s.Tidy) {id : TunnelId} {info : TunnelInfo} {task : Nat}
    (hentry : s.tunnels id = some (.connection info task)) :
    { s with
      tunnels := Function.update s.tunnels id none
      closed := task :: s.closed }.Tidy := by
  obtain ⟨parent, hspawned, hparent⟩ := h.connection id info task hentry
  have hold {i : TunnelId} {e : TunnelEntry}
      (hi : Function.update s.tunnels id none i = some e) : i ≠ id ∧ s.tunnels i = some e := by
    by_cases heq : i = id
    · rw [heq, Function.update_self] at hi
      cases hi
    · rw [Function.update_of_ne heq] at hi
      exact ⟨heq, hi⟩
  refine ⟨h.unique, ?_, ?_, ?_, ?_, h.removes, h.finished, h.registers, h.registering, ?_, ?_,
    h.served⟩
  · intro i info' n hi
    obtain ⟨hne, hi⟩ := hold hi
    obtain ⟨parent', hn, hparent'⟩ := h.connection i info' n hi
    refine ⟨parent', hn, fun l hl => ?_⟩
    obtain ⟨lid, linfo, subs, hlistener, hmem⟩ := hparent' l hl
    refine ⟨lid, linfo, subs, ?_, hmem⟩
    have hlid : lid ≠ id := by
      rintro rfl
      rw [hentry] at hlistener
      cases hlistener
    simp [hlid, hlistener]
  · exact fun i info' n hi hphase => h.ending i info' n (hold hi).2 hphase
  · intro i info' subs l hi
    obtain ⟨hne, hi⟩ := hold hi
    obtain ⟨hclosed, hserving, hl, hsubs⟩ := h.listener i info' subs l hi
    refine ⟨fun hmem => ?_, hserving, hl, hsubs⟩
    rcases List.mem_cons.mp hmem with rfl | hmem
    · rw [hspawned] at hl
      cases hl
    · exact hclosed hmem
  · intro n hn i parent' hnspawned hphase hopen
    simp only [wasClosed, List.contains_cons, Bool.or_eq_false_iff] at hopen
    have hne : n ≠ task := by simpa using hopen.1.1
    have hopen' : s.wasClosed n parent' = false := by
      unfold wasClosed
      rw [hopen.1.2, Bool.false_or]
      cases parent' with
      | none => rfl
      | some l => simpa using (by simpa using hopen.2 : l ≠ task ∧ l ∉ s.closed).2
    obtain ⟨info', hi⟩ := h.present n hn i parent' hnspawned hphase hopen'
    have hi' : i ≠ id := by
      rintro rfl
      exact hne (h.unique n task _ _ hnspawned hspawned rfl)
    exact ⟨info', by simp [hi', hi]⟩
  · exact fun l hl => List.mem_cons_of_mem _ (h.aborted l hl)
  · intro n hn
    rcases List.mem_cons.mp hn with rfl | hn
    · exact (List.getElem?_eq_some_iff.mp hspawned).1
    · exact h.known n hn

/-- A listener is closed with all its sub-tunnels. -/
theorem Tidy.closeListener (h : s.Tidy) {id : TunnelId} {info : TunnelInfo} {subs : List TunnelId}
    {task : Nat} (hentry : s.tunnels id = some (.listener info subs task)) :
    { s with
      tunnels := fun i => if i = id ∨ i ∈ subs then none else s.tunnels i
      listeners := Function.update s.listeners task { s.listeners task with aborted := true }
      closed := task :: s.closed }.Tidy := by
  obtain ⟨hclosed, hserving, hspawned, hsubs⟩ := h.listener id info subs task hentry
  have hold {i : TunnelId} {e : TunnelEntry}
      (hi : (if i = id ∨ i ∈ subs then none else s.tunnels i) = some e) :
      (i ≠ id ∧ i ∉ subs) ∧ s.tunnels i = some e := by
    split at hi
    · cases hi
    · next hnot => exact ⟨not_or.mp hnot, hi⟩
  have hphases (n : Nat) : (Function.update s.listeners task
      { s.listeners task with aborted := true } n).phase = (s.listeners n).phase := by
    by_cases heq : n = task
    · rw [heq, Function.update_self]
    · rw [Function.update_of_ne heq]
  refine ⟨h.unique, ?_, ?_, ?_, ?_, h.removes, h.finished, h.registers, ?_, ?_, ?_, h.served⟩
  · intro i info' n hi
    obtain ⟨⟨hne, hnot⟩, hi⟩ := hold hi
    obtain ⟨parent', hn, hparent'⟩ := h.connection i info' n hi
    refine ⟨parent', hn, fun l hl => ?_⟩
    obtain ⟨lid, linfo, subs', hlistener, hmem⟩ := hparent' l hl
    refine ⟨lid, linfo, subs', ?_, hmem⟩
    -- the listener of a tunnel that stays is another one
    have hlid : ¬(lid = id ∨ lid ∈ subs) := by
      rintro (rfl | hsub)
      · rw [hentry] at hlistener
        cases hlistener
        exact hnot hmem
      · obtain ⟨m, hm⟩ := hsubs lid hsub
        have hlspawned := (h.listener lid linfo subs' l hlistener).2.2.1
        obtain rfl := h.unique m l _ _ hm hlspawned rfl
        rw [hm] at hlspawned
        cases hlspawned
    exact (if_neg hlid).trans hlistener
  · exact fun i info' n hi hphase => h.ending i info' n (hold hi).2 hphase
  · intro i info' subs' l hi
    obtain ⟨⟨hne, hnot⟩, hi⟩ := hold hi
    obtain ⟨hlclosed, hlserving, hl, hlsubs⟩ := h.listener i info' subs' l hi
    refine ⟨fun hmem => ?_, ?_, hl, hlsubs⟩
    · rcases List.mem_cons.mp hmem with rfl | hmem
      · rw [hspawned] at hl
        cases hl
        exact hne rfl
      · exact hlclosed hmem
    · unfold isServing at hlserving ⊢
      rw [hphases]
      exact hlserving
  · intro n hn i parent' hnspawned hphase hopen
    simp only [wasClosed, List.contains_cons, Bool.or_eq_false_iff] at hopen
    have hopen' : s.wasClosed n parent' = false ∧ parent' ≠ some task := by
      unfold wasClosed
      rw [hopen.1.2, Bool.false_or]
      cases parent' with
      | none => exact ⟨rfl, nofun⟩
      | some l =>
          have hl : l ≠ task ∧ l ∉ s.closed := by simpa using hopen.2
          exact ⟨by simpa using hl.2, fun heq => hl.1 (Option.some.inj heq)⟩
    obtain ⟨info', hi⟩ := h.present n hn i parent' hnspawned hphase hopen'.1
    have hnot : ¬(i = id ∨ i ∈ subs) := by
      rintro (rfl | hsub)
      · rw [hentry] at hi
        cases hi
      · obtain ⟨m, hm⟩ := hsubs i hsub
        obtain rfl := h.unique m n _ _ hm hnspawned rfl
        rw [hm] at hnspawned
        cases hnspawned
        exact hopen'.2 rfl
    exact ⟨info', (if_neg hnot).trans hi⟩
  · intro l m tid host port hphase
    rw [hphases] at hphase
    exact h.registering l m tid host port hphase
  · intro l hl
    by_cases heq : l = task
    · subst heq
      exact List.mem_cons_self
    · have hold' : (s.listeners l).aborted = true := by simpa [heq] using hl
      exact List.mem_cons_of_mem _ (h.aborted l hold')
  · intro n hn
    rcases List.mem_cons.mp hn with rfl | hn
    · exact (List.getElem?_eq_some_iff.mp hspawned).1
    · exact h.known n hn

theorem Tidy.closeTunnel (h : s.Tidy) (id : TunnelId) : (s.closeTunnel id).2.Tidy := by
  unfold TunnelState.closeTunnel
  split
  · next hentry => exact h.closeConnection hentry
  · next hentry => exact h.closeListener hentry
  · exact h

theorem Tidy.onRemove (h : s.Tidy) {id : TunnelId} (hbusy : s.busy = some (.internalRemove id)) :
    ({ s with busy := none }.onRemove id).Tidy := by
  have hflight : s.inFlight = .internalRemove id :: { s with busy := none }.inFlight := by
    simp [inFlight, hbusy]
  have hmem {msg : InnerTunnelMsg} (hin : msg ∈ { s with busy := none }.inFlight) :
      msg ∈ s.inFlight := by
    rw [hflight]
    exact List.mem_cons_of_mem _ hin
  have hremove {i : TunnelId} (hin : .internalRemove i ∈ s.inFlight) :
      i = id ∨ .internalRemove i ∈ { s with busy := none }.inFlight := by
    rw [hflight] at hin
    rcases List.mem_cons.mp hin with heq | hin
    · cases heq
      exact .inl rfl
    · exact .inr hin
  have hleaving := h.removes id (by rw [hflight]; exact List.mem_cons_self)
  have hfinished (n : Nat) (i : TunnelId) (parent : Option Nat)
      (hn : s.spawned[n]? = some ⟨i, .connection parent⟩)
      (hphase : (s.connections n).phase = .finished) :
      .internalRemove i ∈ { s with busy := none }.inFlight ∨ i ∈ id :: s.removed := by
    rcases h.finished n i parent hn hphase with hin | hremoved
    · rcases hremove hin with rfl | hin
      · exact .inr List.mem_cons_self
      · exact .inl hin
    · exact .inr (List.mem_cons_of_mem _ hremoved)
  unfold TunnelState.onRemove
  simp only
  split
  · next info task hentry =>
      have hold {i : TunnelId} {e : TunnelEntry}
          (hi : (if i = id then none else (s.tunnels i).map (TunnelEntry.forget id)) = some e) :
          i ≠ id ∧ ∃ e', s.tunnels i = some e' ∧ e'.forget id = e := by
        split at hi
        · cases hi
        · next hne => exact ⟨hne, Option.map_eq_some_iff.mp hi⟩
      have hnow {i : TunnelId} {e : TunnelEntry} (hne : i ≠ id) (hi : s.tunnels i = some e) :
          (if i = id then none else (s.tunnels i).map (TunnelEntry.forget id)) =
            some (e.forget id) := by
        rw [if_neg hne, hi]
        rfl
      refine ⟨h.unique, ?_, ?_, ?_, ?_, ?_, hfinished, ?_, h.registering, h.aborted, h.known, h.served⟩
      · intro i info' n hi
        obtain ⟨hne, e, he, hforget⟩ := hold hi
        cases e with
        | listener => cases hforget
        | connection info'' n' =>
            cases hforget
            obtain ⟨parent, hn, hparent⟩ := h.connection i info' n he
            refine ⟨parent, hn, fun l hl => ?_⟩
            obtain ⟨lid, linfo, subs, hlistener, hsub⟩ := hparent l hl
            have hlid : lid ≠ id := by
              rintro rfl
              rw [hentry] at hlistener
              cases hlistener
            exact ⟨lid, linfo, _, hnow hlid hlistener, List.mem_filter.mpr ⟨hsub, by simpa using hne⟩⟩
      · intro i info' n hi hphase
        obtain ⟨hne, e, he, hforget⟩ := hold hi
        cases e with
        | listener => cases hforget
        | connection info'' n' =>
            cases hforget
            exact (hremove (h.ending i info' n he hphase)).resolve_left hne
      · intro i info' subs l hi
        obtain ⟨hne, e, he, hforget⟩ := hold hi
        cases e with
        | connection => cases hforget
        | listener info'' subs' l' =>
            cases hforget
            obtain ⟨hclosed, hserving, hl, hsubs⟩ := h.listener i info' subs' l he
            exact ⟨hclosed, hserving, hl, fun sid hsid => hsubs sid (List.mem_filter.mp hsid).1⟩
      · intro n hn i parent hspawned hphase hopen
        obtain ⟨info', hi⟩ := h.present n hn i parent hspawned hphase hopen
        have hne : i ≠ id := by
          rintro rfl
          exact hleaving.2 n parent hspawned hphase
        exact ⟨info', hnow hne hi⟩
      · exact fun i hi => h.removes i (hmem hi)
      · exact fun lid tid host port m hin => h.registers lid tid host port m (hmem hin)
  · next hother =>
      refine ⟨h.unique, h.connection, ?_, h.listener, h.present, ?_, hfinished, ?_, h.registering,
        h.aborted, h.known, h.served⟩
      · intro i info' n hi hphase
        have hne : i ≠ id := by
          rintro rfl
          exact hother info' n hi
        exact (hremove (h.ending i info' n hi hphase)).resolve_left hne
      · exact fun i hi => h.removes i (hmem hi)
      · exact fun lid tid host port m hin => h.registers lid tid host port m (hmem hin)

/-- A sub-tunnel is registered with a listener that is there, and was not removed before. -/
theorem Tidy.onRegister (h : s.Tidy) {lid tid : TunnelId} {host : String} {port : UInt16}
    {task l : Nat} {linfo : TunnelInfo} {subs : List TunnelId} {k : Nat}
    (hl : s.spawned[l]? = some ⟨lid, .listener⟩)
    (htask : s.spawned[task]? = some ⟨tid, .connection (some l)⟩)
    (hlistener : s.tunnels lid = some (.listener linfo subs k)) (hremoved : tid ∉ s.removed) :
    (s.onRegister lid tid host port task).Tidy := by
  obtain rfl := h.unique k l _ _ (h.listener lid linfo subs k hlistener).2.2.1 hl rfl
  have hne : lid ≠ tid := by
    rintro rfl
    obtain rfl := h.unique _ _ _ _ hl htask rfl
    rw [hl] at htask
    cases htask
  have hfound : (s.insert tid (.connection ⟨tid, .reverse, host, port⟩ task)).tunnels lid =
      some (.listener linfo subs k) := by
    rw [tunnels_insert_of_ne hne, hlistener]
  have hstate : s.onRegister lid tid host port task =
      { s with
        tunnels := Function.update
          (Function.update s.tunnels tid (some (.connection ⟨tid, .reverse, host, port⟩ task))) lid
          (some (.listener linfo (subs ++ [tid]) k))
        registered := task :: s.registered } := by
    unfold TunnelState.onRegister
    simp only [hfound]
    rfl
  rw [hstate]
  refine h.insertConnection htask
    ((Function.update_of_ne hne.symm _ _).trans (Function.update_self _ _ _)) ?_ ?_ ?_
  · intro i hi
    by_cases heq : i = lid
    · subst heq
      rw [Function.update_self, hlistener]
      exact .sub rfl
    · rw [Function.update_of_ne heq, Function.update_of_ne hi]
      exact .same _
  · intro l' hl'
    cases hl'
    exact ⟨lid, linfo, subs ++ [tid], Function.update_self _ _ _, by simp⟩
  · exact fun hphase => (h.finished task tid _ htask hphase).resolve_right hremoved

theorem Tidy.handle (h : s.Tidy) {msg : InnerTunnelMsg} (hbusy : s.busy = some msg)
    (outcome : Except IoError UInt16) (hC : s.InOrder (.finish outcome)) :
    ({ s with busy := none }.handle outcome msg).Tidy := by
  simp only [InOrder, hbusy] at hC
  cases msg with
  | opening r host port =>
      have hs := h.settle hbusy nofun
      cases outcome with
      | error e => exact hs.reply _
      | ok actualPort =>
          have hspawn := hs.spawn hC (.connection none)
          refine Tidy.reply (hspawn.insertConnection (getElem?_spawn_self _)
            (tunnels_insert_self _ _) (fun i hi => ?_) nofun (fun hphase => ?_)) _
          · rw [tunnels_insert_of_ne hi]
            exact .same _
          · simp [TunnelState.spawn] at hphase
  | listening r host port =>
      have hs := h.settle hbusy nofun
      cases outcome with
      | error e => exact hs.reply _
      | ok actualPort =>
          have hspawn := hs.spawn hC .listener
          refine Tidy.reply (hspawn.insertListener (getElem?_spawn_self _)
            (hs.tunnels_nextId hC) (fun hmem => ?_) ?_) _
          · exact absurd (h.known _ (List.mem_append_left _ hmem)) (Nat.lt_irrefl _)
          · simp [isServing, TunnelState.spawn]
  | write r id data => exact (h.settle hbusy nofun).onWrite r hC
  | close r id => exact ((h.settle hbusy nofun).closeTunnel id).reply _
  | internalRemove id => exact h.onRemove hbusy
  | internalRegisterSubTunnel lid tid host port task =>
      obtain ⟨⟨linfo, subs, k, hlistener⟩, hremoved⟩ := hC
      obtain ⟨l, hl, htask⟩ := h.registers lid tid host port task (by simp [inFlight, hbusy])
      exact (h.settle hbusy nofun).onRegister hl htask hlistener hremoved

/-- A listener accepts a connection, announces it, and is about to have it registered. -/
theorem Tidy.accept (h : s.Tidy) (hfresh : s.Fresh) {l : Nat} (hl : s.isListener l = true)
    (hphase : (s.listeners l).phase = .accepting) (host : String) (port : UInt16) :
    ((s.spawn (.connection (some l))).setListener l
      (.registering s.spawned.length s.nextId host port)).Tidy := by
  have hspawn := h.spawn hfresh (.connection (some l))
  have hne := ne_length_of_some (spawned_of_isListener hl)
  have hstate := (states_spawn (s := s) (.connection (some l)) hne).2
  refine ⟨hspawn.unique, hspawn.connection, hspawn.ending, ?_, hspawn.present, hspawn.removes,
    hspawn.finished, hspawn.registers, ?_, ?_, hspawn.known, hspawn.served⟩
  · intro id info subs k hentry
    obtain ⟨hclosed, hserving, hk, hsubs⟩ := hspawn.listener id info subs k hentry
    refine ⟨hclosed, ?_, hk, hsubs⟩
    by_cases heq : k = l
    · subst heq
      simp [isServing, setListener]
    · simpa [isServing, setListener, heq] using hserving
  · intro k m tid host' port' hk
    by_cases heq : k = l
    · subst heq
      simp only [setListener, Function.update_self] at hk
      cases hk
      exact getElem?_spawn_self _
    · exact hspawn.registering k m tid host' port' (by simpa [setListener, heq] using hk)
  · intro k hk
    by_cases heq : k = l
    · subst heq
      exact hspawn.aborted k (by simpa [setListener] using hk)
    · exact hspawn.aborted k (by simpa [setListener, heq] using hk)

theorem Tidy.step {e : TunnelEvent} (h : s.Tidy) (hC : s.InOrder e) (hstep : s.step e = some s') :
    s'.Tidy := by
  cases e with
  | request msg =>
      simp only [TunnelState.step] at hstep
      split at hstep
      · next hmsg => exact h.of_moves (moves_request hmsg hstep)
      · cases hstep
  | take =>
      simp only [TunnelState.step] at hstep
      split at hstep
      · next hbusy hqueue =>
          cases hstep
          exact h.of_moves (moves_take hbusy hqueue)
      · cases hstep
  | finish outcome =>
      obtain ⟨msg, hbusy, rfl⟩ := Option.map_eq_some_iff.mp hstep
      exact h.handle hbusy outcome hC
  | accept l host port =>
      simp only [TunnelState.step] at hstep
      split at hstep
      · next hguard =>
          cases hstep
          simp only [Bool.and_eq_true, beq_iff_eq] at hguard
          exact (h.reply _).accept hC hguard.1 hguard.2 host port
      · cases hstep
  | acceptFails l drawn =>
      simp only [TunnelState.step] at hstep
      split at hstep
      · cases hstep
        split
        · exact h.of_moves (moves_setListener (fun hopen => absurd hC hopen) nofun)
        · exact h.of_moves (moves_setListener (fun hopen => absurd hC hopen) nofun)
      · cases hstep
  | register l =>
      simp only [TunnelState.step] at hstep
      split at hstep
      · next hl =>
          split at hstep
          · next hphase =>
              obtain ⟨s₁, hsend, rfl⟩ := Option.map_eq_some_iff.mp hstep
              exact h.of_moves (moves_register h hl hphase hsend)
          · cases hstep
      · cases hstep
  | connectionEnds n =>
      simp only [TunnelState.step] at hstep
      split at hstep
      · cases hstep
        exact h.of_moves (moves_setConnection nofun nofun)
      · cases hstep
  | drain n =>
      simp only [TunnelState.step] at hstep
      split at hstep
      · next hguard =>
          cases hstep
          simp only [Bool.and_eq_true, beq_iff_eq] at hguard
          exact h.of_moves (moves_setConnection (fun _ => hguard.2) (by simp [hguard.2]))
      · cases hstep
  | sendRemove n =>
      simp only [TunnelState.step] at hstep
      split at hstep
      · next hguard =>
          obtain ⟨s₁, hsend, rfl⟩ := Option.map_eq_some_iff.mp hstep
          simp only [Bool.and_eq_true, beq_iff_eq] at hguard
          have hsame : s₁.connections n = s.connections n := by
            rw [send_eq_some hsend]
          rw [hsame]
          exact h.of_moves (moves_removeConnection h hguard.1 hsend)
      · split at hstep
        · next hguard =>
            obtain ⟨s₁, hsend, rfl⟩ := Option.map_eq_some_iff.mp hstep
            simp only [Bool.and_eq_true, beq_iff_eq] at hguard
            exact h.of_moves (moves_removeListener h hguard.1 hguard.2 hsend)
        · cases hstep
  | cancel l =>
      simp only [TunnelState.step] at hstep
      split at hstep
      · next hguard =>
          cases hstep
          simp only [Bool.and_eq_true] at hguard
          exact h.of_moves (moves_setListener
            (fun hopen => absurd (h.aborted l hguard.2) hopen) nofun)
      · cases hstep

end Steps

/-! ## Runs -/

/-- In every run whose steps are in order, the table holds what it should, and writes are served. -/
theorem registry_of_run {es : List TunnelEvent} {s : TunnelState}
    (hC : Machine.Meeting step InOrder es new) (hrun : Machine.run step es new = some s) :
    s.Registry :=
  (Machine.invariant (fun _ _ _ h hC hstep => h.step hC hstep) tidy_new hC hrun).registry

/-- A listener accepts a connection, which is registered, and then the listener is closed. -/
def orderly : List TunnelEvent :=
  [.request (.listening 0 "localhost" 80), .take, .finish (.ok 80), .accept 0 "peer" 5000,
    .register 0, .take, .finish (.ok 0), .request (.close 1 1), .take, .finish (.ok 0)]

theorem registry_orderly : ∃ s, Machine.run step orderly new = some s ∧
    s.registered = [1] ∧ s.closed = [0] ∧ s.Registry := by
  have hC : Machine.Meeting step InOrder orderly new := by
    refine .cons trivial rfl <| .cons trivial rfl <| .cons nofun rfl <| .cons ?_ rfl <|
      .cons trivial rfl <| .cons trivial rfl <| .cons ?_ rfl <| .cons trivial rfl <|
      .cons trivial rfl <| .cons trivial rfl trivial
    -- the id of the sub-tunnel is a new one
    · intro t ht
      obtain rfl := List.mem_singleton.mp ht
      decide
    -- its listener is there when it is registered
    · exact ⟨⟨_, _, _, rfl⟩, nofun⟩
  exact ⟨_, rfl, rfl, rfl, registry_of_run hC rfl⟩

/-- The listener is closed while its sub-tunnel is still to be registered. -/
def lateRegistration : List TunnelEvent :=
  [.request (.listening 0 "localhost" 80), .take, .finish (.ok 80), .accept 0 "peer" 5000,
    .request (.close 1 1), .take, .register 0, .finish (.ok 0), .take, .finish (.ok 0)]

/-- The listener was closed, but its sub-tunnel is put into the table. -/
theorem not_registry_lateRegistration : ∃ s, Machine.run step lateRegistration new = some s ∧
    .closed 1 (.ok ()) ∈ s.replies ∧ ¬s.Registry := by
  refine ⟨_, rfl, List.mem_of_getElem? (i := 2) rfl, fun h => ?_⟩
  exact h.swept 0 (List.mem_singleton.mpr rfl) 2 _ 1 2 rfl rfl

end TunnelState

end Distant
