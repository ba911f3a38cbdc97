import Distant.Manager.Server

/-!
# Tunnels belong to live connections

Every tunnel in the manager's table should name a connection that is there, and a connection that
has been killed should have no tunnel left. The lock that `kill` holds keeps most interleavings
away, but a tunnel that is being set up while its connection is killed comes too late for the
sweep. `tunnelsLive_of_run` says that this is the only way to break the law: in every run in which
each tunnel still has its connection when it is put into the table, the law holds in every state.
-/

namespace Distant

/-- The connection that the task has taken out of the table, with the id it looked up. -/
def Task.taken : Task → Option (ConnectionId × ManagedConnection)
  | .asking id connection => some (id, connection)
  | .closing id connection _ => some (id, connection)
  | .sweeping id connection => some (id, connection)
  | _ => none

/-- The connection that the task has opened a channel on, with the id it looked up. -/
def Task.opened : Task → Option (ConnectionId × Nat)
  | .starting setup channel => some (setup.connectionId, channel.serial)
  | .storing tunnel _ => some (tunnel.connectionId, tunnel.managerChannel.serial)
  | _ => none

namespace ManagerServer

/-- What the task of `r` has taken out of the table. -/
def takenBy (s : ManagerServer) (r : Nat) : Option (ConnectionId × ManagedConnection) :=
  (s.tasks r).bind Task.taken

/-- A connection is in the table, or a kill has just taken it out and has yet to sweep away its
tunnels. -/
def HasConnection (s : ManagerServer) (id : ConnectionId) (c : ManagedConnection) : Prop :=
  s.connections.lookup id = some c ∨ ∃ r, s.takenBy r = some (id, c)

/-! ## What is claimed, and under which condition -/

/-- Every tunnel names a connection in the table, or one that is just being killed, and no tunnel
is one of a connection whose kill has completed. -/
structure TunnelsLive (s : ManagerServer) : Prop where
  present : ∀ tid t, s.managedTunnels.lookup tid = some t → ∃ c, s.HasConnection t.connectionId c
  swept : ∀ tid t, s.managedTunnels.lookup tid = some t → t.managerChannel.serial ∉ s.killed

/-- The condition on a step: a tunnel that is put into the table still has its connection. -/
def InTime (s : ManagerServer) : ManagerEvent → Prop
  | .turn r _ => ∀ tunnel port, s.tasks r = some (.storing tunnel port) →
      ∃ c, s.HasConnection tunnel.connectionId c ∧ c.serial = tunnel.managerChannel.serial
  | _ => True

/-! ## The invariant -/

/-- A connection that was inserted under its id, and whose kill has not completed. -/
structure Known (s : ManagerServer) (id : ConnectionId) (c : ManagedConnection) : Prop where
  history : s.history[c.serial]? = some c
  id : c.id = id
  alive : c.serial ∉ s.killed

/-- The connection with this serial number was inserted under this id. -/
def Inserted (s : ManagerServer) (id : ConnectionId) (serial : Nat) : Prop :=
  ∃ c, s.history[serial]? = some c ∧ c.id = id

structure Kept (s : ManagerServer) : Prop where
  table : ∀ id c, s.connections.lookup id = some c → s.Known id c
  taken : ∀ r id c, s.takenBy r = some (id, c) →
    s.writer = some r ∧ s.Known id c ∧ s.connections.lookup id = none
  opened : ∀ r task id serial, s.tasks r = some task → task.opened = some (id, serial) →
    s.Inserted id serial
  tunnels : ∀ tid t, s.managedTunnels.lookup tid = some t → t.id = tid ∧
    s.Inserted t.connectionId t.managerChannel.serial ∧ t.managerChannel.serial ∉ s.killed ∧
    ∃ c, s.HasConnection t.connectionId c
  killed : ∀ serial ∈ s.killed, serial < s.history.length

theorem Kept.live {s : ManagerServer} (h : s.Kept) : s.TunnelsLive where
  present := fun tid t ht => (h.tunnels tid t ht).2.2.2
  swept := fun tid t ht => (h.tunnels tid t ht).2.2.1

theorem kept_new : new.Kept where
  table := by
    intro id c h
    cases h
  taken := by
    intro r id c h
    cases h
  opened := by
    intro r task id serial h
    cases h
  tunnels := by
    intro tid t h
    cases h
  killed := nofun

/-- When a task has ended, the others are what they were. -/
theorem ne_of_update_none {tasks : Nat → Option Task} {r r' : Nat} {t : Task}
    (h : Function.update tasks r none r' = some t) : r' ≠ r ∧ tasks r' = some t := by
  by_cases hr : r' = r
  · rw [hr, Function.update_self] at h
    cases h
  · rw [Function.update_of_ne hr] at h
    exact ⟨hr, h⟩

/-- Two connections with one serial number are the same one. -/
theorem Known.eq_of_serial {s : ManagerServer} {id id' : ConnectionId} {c c' : ManagedConnection}
    (h : s.Known id c) (h' : s.Known id' c') (hserial : c.serial = c'.serial) : id = id' := by
  have hsame : some c = some c' := by rw [← h.history, hserial, h'.history]
  rw [← h.id, ← h'.id, Option.some.inj hsame]

/-! ## What the steps leave alone -/

/-- The tables that the invariant is about are the same. -/
structure SameTables (s s' : ManagerServer) : Prop where
  connections : s'.connections = s.connections
  managedTunnels : s'.managedTunnels = s.managedTunnels
  history : s'.history = s.history
  killed : s'.killed = s.killed
  writer : s'.writer = s.writer
  tasks : s'.tasks = s.tasks

theorem SameTables.refl (s : ManagerServer) : SameTables s s := ⟨rfl, rfl, rfl, rfl, rfl, rfl⟩

theorem SameTables.trans {s s' s'' : ManagerServer} (h : SameTables s s') (h' : SameTables s' s'') :
    SameTables s s'' :=
  ⟨h'.connections.trans h.connections, h'.managedTunnels.trans h.managedTunnels,
    h'.history.trans h.history, h'.killed.trans h.killed, h'.writer.trans h.writer,
    h'.tasks.trans h.tasks⟩

theorem sameTables_closeChannels (ids : List ManagerChannelId) (s : ManagerServer) :
    SameTables s (closeChannels ids s) := by
  induction ids generalizing s with
  | nil => exact .refl s
  | cons id ids ih =>
      unfold closeChannels
      split
      · exact ih s
      · refine SameTables.trans ?_ (ih _)
        exact ⟨rfl, rfl, rfl, rfl, rfl, rfl⟩

/-- The sweep takes the tunnels with the given ids out of their table, and leaves the other tables
alone. -/
theorem abortTunnels_spec (ids : List ManagedTunnelId) (s : ManagerServer) :
    SameTables s { abortTunnels ids s with managedTunnels := s.managedTunnels } ∧
      ∀ tid t, (abortTunnels ids s).managedTunnels.lookup tid = some t →
        tid ∉ ids ∧ s.managedTunnels.lookup tid = some t := by
  induction ids generalizing s with
  | nil => exact ⟨.refl s, fun tid t ht => ⟨List.not_mem_nil, ht⟩⟩
  | cons id ids ih =>
      unfold abortTunnels
      split
      · next hnone =>
          refine ⟨(ih s).1, fun tid t ht => ?_⟩
          obtain ⟨hids, hold⟩ := (ih s).2 tid t ht
          refine ⟨fun hmem => ?_, hold⟩
          rcases List.mem_cons.mp hmem with rfl | hmem
          · rw [hnone] at hold
            cases hold
          · exact hids hmem
      · next tunnel htunnel =>
          obtain ⟨hsame, hrest⟩ := ih
            ({ s with managedTunnels := s.managedTunnels.erase id }.closeChannel
              tunnel.managerChannel)
          refine ⟨⟨hsame.connections, rfl, hsame.history, hsame.killed, hsame.writer, hsame.tasks⟩,
            fun tid t ht => ?_⟩
          obtain ⟨hids, hold⟩ := hrest tid t ht
          have hold' : (s.managedTunnels.erase id).lookup tid = some t := hold
          by_cases heq : tid = id
          · rw [heq, AList.lookup_erase] at hold'
            cases hold'
          · rw [AList.lookup_erase_ne heq] at hold'
            exact ⟨fun hmem => (List.mem_cons.mp hmem).elim heq hids, hold'⟩

theorem mem_tunnelIds {s : ManagerServer} {tid : ManagedTunnelId} {t : ManagedTunnel}
    (ht : s.managedTunnels.lookup tid = some t) : t.id ∈ s.tunnelIds t.connectionId := by
  have hentry : ⟨tid, t⟩ ∈ s.managedTunnels.entries := AList.mem_lookup_iff.mp ht
  refine List.mem_map.mpr ⟨⟨tid, t⟩, ?_, rfl⟩
  simp [hentry]

/-! ## Steps -/

section Steps

variable {s s' : ManagerServer} {r : Nat}

theorem HasConnection.congr {id : ConnectionId} {c : ManagedConnection}
    (h : s.HasConnection id c) (hconn : s'.connections = s.connections)
    (htaken : ∀ r, s'.takenBy r = s.takenBy r) : s'.HasConnection id c := by
  rcases h with h | ⟨r, h⟩
  · exact .inl (by rw [hconn, h])
  · exact .inr ⟨r, by rw [htaken, h]⟩

theorem Known.congr {id : ConnectionId} {c : ManagedConnection} (h : s.Known id c)
    (hhistory : s'.history = s.history) (hkilled : s'.killed = s.killed) : s'.Known id c := by
  refine ⟨?_, h.id, ?_⟩
  · rw [hhistory]
    exact h.history
  · rw [hkilled]
    exact h.alive

theorem Inserted.congr {id : ConnectionId} {serial : Nat} (h : s.Inserted id serial)
    (hhistory : s'.history = s.history) : s'.Inserted id serial := by
  unfold Inserted
  rw [hhistory]
  exact h

/-- Whoever has taken a connection holds the lock, so nobody else has taken one. -/
theorem Kept.takenBy_eq_none (h : s.Kept) (hwriter : s.writer ≠ some r) : s.takenBy r = none := by
  cases hby : s.takenBy r with
  | none => rfl
  | some x => exact absurd (h.taken r x.1 x.2 hby).1 hwriter

/-- Nothing that the invariant is about changes, but for the task of `r`, which still has taken
what it had taken. -/
theorem Kept.of_task (h : s.Kept) {task : Option Task}
    (hsame : SameTables { s with tasks := Function.update s.tasks r task } s')
    (htaken : task.bind Task.taken = s.takenBy r)
    (hopened : ∀ t id serial, task = some t → t.opened = some (id, serial) →
      s.Inserted id serial) : s'.Kept := by
  have htasks : s'.tasks = Function.update s.tasks r task := hsame.tasks
  have hconn : s'.connections = s.connections := hsame.connections
  have hhistory : s'.history = s.history := hsame.history
  have hkilled : s'.killed = s.killed := hsame.killed
  have hby (r' : Nat) : s'.takenBy r' = s.takenBy r' := by
    by_cases hr : r' = r
    · subst hr
      rw [← htaken, takenBy, htasks, Function.update_self]
    · rw [takenBy, htasks, Function.update_of_ne hr]
      rfl
  refine ⟨?_, ?_, ?_, ?_, ?_⟩
  · intro id c hc
    rw [hconn] at hc
    exact (h.table id c hc).congr hhistory hkilled
  · intro r' id c hc
    rw [hby] at hc
    obtain ⟨hwriter, hk, hnone⟩ := h.taken r' id c hc
    exact ⟨hsame.writer.trans hwriter, hk.congr hhistory hkilled, by rw [hconn, hnone]⟩
  · intro r' t id serial ht ho
    rw [htasks] at ht
    by_cases hr : r' = r
    · subst hr
      rw [Function.update_self] at ht
      exact (hopened t id serial ht ho).congr hhistory
    · rw [Function.update_of_ne hr] at ht
      exact (h.opened r' t id serial ht ho).congr hhistory
  · intro tid t ht
    have ht' : s.managedTunnels.lookup tid = some t := by rw [← ht, hsame.managedTunnels]
    obtain ⟨hid, hi, halive, c, hc⟩ := h.tunnels tid t ht'
    exact ⟨hid, hi.congr hhistory, by rw [hkilled]; exact halive, c, hc.congr hconn hby⟩
  · intro serial hserial
    rw [hkilled] at hserial
    rw [hhistory]
    exact h.killed serial hserial

/-- A task that has taken and opened nothing ends, or goes on to another such place. -/
theorem Kept.of_idle (h : s.Kept) {task : Option Task} {old : Task} (hold : s.tasks r = some old)
    (hnone : old.taken = none)
    (hsame : SameTables { s with tasks := Function.update s.tasks r task } s')
    (htaken : task.bind Task.taken = none) (hopened : task.bind Task.opened = none) : s'.Kept := by
  refine h.of_task hsame ?_ ?_
  · rw [htaken, takenBy, hold]
    exact hnone.symm
  · rintro t id serial rfl ho
    rw [Option.bind_some, ho] at hopened
    cases hopened

/-- A connection is inserted while nobody has locked the table. -/
theorem Kept.insertConnection (h : s.Kept) (hwriter : s.writer = none) (id : ConnectionId)
    (destination options : String) : (s.insertConnection id destination options).Kept := by
  have hfree (r : Nat) : s.takenBy r = none := h.takenBy_eq_none (by simp [hwriter])
  let connection : ManagedConnection := ⟨id, destination, options, s.history.length⟩
  -- a connection that is dropped only loses its tasks
  have hsame : SameTables { s with
      connections := s.connections.insert id connection
      history := s.history ++ [connection] } (s.insertConnection id destination options) := by
    unfold ManagerServer.insertConnection
    split <;> exact ⟨rfl, rfl, rfl, rfl, rfl, rfl⟩
  have hconn : (s.insertConnection id destination options).connections =
      s.connections.insert id connection := hsame.connections
  have hhistory : (s.insertConnection id destination options).history =
      s.history ++ [connection] := hsame.history
  have hkilled : (s.insertConnection id destination options).killed = s.killed := hsame.killed
  have hby (r : Nat) : (s.insertConnection id destination options).takenBy r = none := by
    rw [takenBy, hsame.tasks]
    exact hfree r
  have hinserted {id' serial} (hi : s.Inserted id' serial) :
      (s.insertConnection id destination options).Inserted id' serial := by
    obtain ⟨c, hc, hid⟩ := hi
    refine ⟨c, ?_, hid⟩
    rw [hhistory, List.getElem?_append_left (List.getElem?_eq_some_iff.mp hc).1]
    exact hc
  refine ⟨?_, ?_, ?_, ?_, ?_⟩
  · intro id' c hc
    rw [hconn] at hc
    by_cases heq : id' = id
    · subst heq
      rw [AList.lookup_insert] at hc
      obtain rfl := (Option.some.inj hc).symm
      refine ⟨?_, rfl, ?_⟩
      · rw [hhistory]
        exact List.getElem?_concat_length
      · rw [hkilled]
        exact fun hmem => absurd (h.killed _ hmem) (Nat.lt_irrefl _)
    · rw [AList.lookup_insert_ne heq] at hc
      have hk := h.table id' c hc
      refine ⟨?_, hk.id, by rw [hkilled]; exact hk.alive⟩
      rw [hhistory, List.getElem?_append_left (List.getElem?_eq_some_iff.mp hk.history).1]
      exact hk.history
  · intro r id' c hc
    rw [hby] at hc
    cases hc
  · intro r task id' serial ht ho
    rw [hsame.tasks] at ht
    exact hinserted (h.opened r task id' serial ht ho)
  · intro tid t ht
    rw [hsame.managedTunnels] at ht
    obtain ⟨hid, hi, halive, c, hc⟩ := h.tunnels tid t ht
    refine ⟨hid, hinserted hi, by rw [hkilled]; exact halive, ?_⟩
    rcases hc with hc | ⟨r, hc⟩
    · by_cases heq : t.connectionId = id
      · exact ⟨connection, .inl (by rw [hconn, heq, AList.lookup_insert])⟩
      · exact ⟨c, .inl (by rw [hconn, AList.lookup_insert_ne heq, hc])⟩
    · rw [hfree] at hc
      cases hc
  · intro serial hserial
    rw [hkilled] at hserial
    rw [hhistory, List.length_append]
    exact Nat.lt_add_right 1 (h.killed serial hserial)

/-- `kill` takes its connection out of the table and locks it. -/
theorem Kept.kill (h : s.Kept) (hwriter : s.writer = none) {id : ConnectionId}
    {c : ManagedConnection} (hc : s.connections.lookup id = some c)
    (hsame : SameTables { s with
      connections := s.connections.erase id
      writer := some r
      tasks := Function.update s.tasks r (some (.asking id c)) } s') : s'.Kept := by
  have hfree (r' : Nat) : s.takenBy r' = none := h.takenBy_eq_none (by simp [hwriter])
  have hconn : s'.connections = s.connections.erase id := hsame.connections
  have hhistory : s'.history = s.history := hsame.history
  have hkilled : s'.killed = s.killed := hsame.killed
  have htasks : s'.tasks = Function.update s.tasks r (some (.asking id c)) := hsame.tasks
  have hself : s'.takenBy r = some (id, c) := by
    rw [takenBy, htasks, Function.update_self]
    rfl
  refine ⟨?_, ?_, ?_, ?_, ?_⟩
  · intro id' c' hc'
    rw [hconn] at hc'
    by_cases heq : id' = id
    · subst heq
      rw [AList.lookup_erase] at hc'
      cases hc'
    · rw [AList.lookup_erase_ne heq] at hc'
      exact (h.table id' c' hc').congr hhistory hkilled
  · intro r' id' c' hc'
    by_cases hr : r' = r
    · subst hr
      rw [hself] at hc'
      cases hc'
      exact ⟨hsame.writer, (h.table id c hc).congr hhistory hkilled, by rw [hconn, AList.lookup_erase]⟩
    · rw [takenBy, htasks, Function.update_of_ne hr] at hc'
      rw [← takenBy, hfree] at hc'
      cases hc'
  · intro r' t id' serial ht ho
    rw [htasks] at ht
    by_cases hr : r' = r
    · subst hr
      rw [Function.update_self] at ht
      cases ht
      cases ho
    · rw [Function.update_of_ne hr] at ht
      exact (h.opened r' t id' serial ht ho).congr hhistory
  · intro tid t ht
    rw [hsame.managedTunnels] at ht
    obtain ⟨hid, hi, halive, c', hc'⟩ := h.tunnels tid t ht
    refine ⟨hid, hi.congr hhistory, by rw [hkilled]; exact halive, ?_⟩
    by_cases heq : t.connectionId = id
    · exact ⟨c, .inr ⟨r, by rw [hself, heq]⟩⟩
    · rcases hc' with hc' | ⟨r', hc'⟩
      · exact ⟨c', .inl (by rw [hconn, AList.lookup_erase_ne heq, hc'])⟩
      · rw [hfree] at hc'
        cases hc'
  · intro serial hserial
    rw [hkilled] at hserial
    rw [hhistory]
    exact h.killed serial hserial

/-- The sweep takes all tunnels of the connection out of their table, and lets go of the lock. -/
theorem Kept.sweep (h : s.Kept) {id : ConnectionId} {c : ManagedConnection}
    (htask : s.tasks r = some (.sweeping id c))
    (hsame : SameTables { s with
      managedTunnels := s'.managedTunnels
      writer := none
      killed := c.serial :: s.killed
      tasks := Function.update s.tasks r none } s')
    (hrest : ∀ tid t, s'.managedTunnels.lookup tid = some t →
      tid ∉ s.tunnelIds id ∧ s.managedTunnels.lookup tid = some t) : s'.Kept := by
  have hby : s.takenBy r = some (id, c) := by
    rw [takenBy, htask]
    rfl
  obtain ⟨hwriter, hknown, hnone⟩ := h.taken r id c hby
  have hconn : s'.connections = s.connections := hsame.connections
  have hhistory : s'.history = s.history := hsame.history
  have hkilled : s'.killed = c.serial :: s.killed := hsame.killed
  have htasks : s'.tasks = Function.update s.tasks r none := hsame.tasks
  -- the lock was held for this kill only
  have hothers (r' : Nat) (hr : r' ≠ r) : s.takenBy r' = none := by
    apply h.takenBy_eq_none
    rw [hwriter]
    exact fun heq => hr (Option.some.inj heq).symm
  refine ⟨?_, ?_, ?_, ?_, ?_⟩
  · intro id' c' hc'
    rw [hconn] at hc'
    have hk := h.table id' c' hc'
    refine ⟨by rw [hhistory]; exact hk.history, hk.id, ?_⟩
    rw [hkilled]
    intro hmem
    rcases List.mem_cons.mp hmem with heq | hmem
    · have hid := hk.eq_of_serial hknown heq
      rw [hid, hnone] at hc'
      cases hc'
    · exact hk.alive hmem
  · intro r' id' c' hc'
    rw [takenBy, htasks] at hc'
    by_cases hr : r' = r
    · subst hr
      rw [Function.update_self] at hc'
      cases hc'
    · rw [Function.update_of_ne hr, ← takenBy, hothers r' hr] at hc'
      cases hc'
  · intro r' t id' serial ht ho
    rw [htasks] at ht
    exact (h.opened r' t id' serial (ne_of_update_none ht).2 ho).congr hhistory
  · intro tid t ht
    obtain ⟨hids, hold⟩ := hrest tid t ht
    obtain ⟨hid, hi, halive, c', hc'⟩ := h.tunnels tid t hold
    have hne : t.connectionId ≠ id := by
      intro heq
      have hmem := mem_tunnelIds hold
      rw [hid, heq] at hmem
      exact hids hmem
    refine ⟨hid, hi.congr hhistory, ?_, c', ?_⟩
    · rw [hkilled]
      intro hmem
      rcases List.mem_cons.mp hmem with heq | hmem
      · obtain ⟨d, hd, hdid⟩ := hi
        rw [heq, hknown.history] at hd
        cases hd
        exact hne (hdid.symm.trans hknown.id)
      · exact halive hmem
    · rcases hc' with hc' | ⟨r', hc'⟩
      · exact .inl (by rw [hconn, hc'])
      · by_cases hr : r' = r
        · subst hr
          rw [hby] at hc'
          cases hc'
          exact absurd rfl hne
        · rw [hothers r' hr] at hc'
          cases hc'
  · intro serial hserial
    rw [hkilled] at hserial
    rw [hhistory]
    rcases List.mem_cons.mp hserial with rfl | hserial
    · exact (List.getElem?_eq_some_iff.mp hknown.history).1
    · exact h.killed serial hserial

/-- A tunnel that still has its connection is put into the table. -/
theorem Kept.store (h : s.Kept) {tunnel : ManagedTunnel} {c : ManagedConnection}
    (hinserted : s.Inserted tunnel.connectionId tunnel.managerChannel.serial)
    (hc : s.HasConnection tunnel.connectionId c)
    (hserial : c.serial = tunnel.managerChannel.serial) :
    { s with managedTunnels := s.managedTunnels.insert tunnel.id tunnel }.Kept where
  table := fun id c hc => ⟨(h.table id c hc).history, (h.table id c hc).id, (h.table id c hc).alive⟩
  taken := by
    intro r id c hc
    obtain ⟨hwriter, hk, hnone⟩ := h.taken r id c hc
    exact ⟨hwriter, ⟨hk.history, hk.id, hk.alive⟩, hnone⟩
  opened := h.opened
  tunnels := by
    intro tid t ht
    have ht' : (s.managedTunnels.insert tunnel.id tunnel).lookup tid = some t := ht
    by_cases heq : tid = tunnel.id
    · subst heq
      rw [AList.lookup_insert] at ht'
      cases ht'
      have hk : s.Known tunnel.connectionId c := by
        rcases hc with hc | ⟨r, hc⟩
        · exact h.table _ _ hc
        · exact (h.taken r _ _ hc).2.1
      refine ⟨rfl, hinserted, ?_, c, hc⟩
      rw [← hserial]
      exact hk.alive
    · rw [AList.lookup_insert_ne heq] at ht'
      exact h.tunnels tid t ht'
  killed := h.killed

/-- A tunnel is closed. -/
theorem Kept.eraseTunnel (h : s.Kept) (id : ManagedTunnelId) :
    { s with managedTunnels := s.managedTunnels.erase id }.Kept where
  table := fun id c hc => ⟨(h.table id c hc).history, (h.table id c hc).id, (h.table id c hc).alive⟩
  taken := by
    intro r id c hc
    obtain ⟨hwriter, hk, hnone⟩ := h.taken r id c hc
    exact ⟨hwriter, ⟨hk.history, hk.id, hk.alive⟩, hnone⟩
  opened := h.opened
  tunnels := by
    intro tid t ht
    have ht' : (s.managedTunnels.erase id).lookup tid = some t := ht
    by_cases heq : tid = id
    · rw [heq, AList.lookup_erase] at ht'
      cases ht'
    · rw [AList.lookup_erase_ne heq] at ht'
      exact h.tunnels tid t ht'
  killed := h.killed

theorem writer_eq_none (h : ¬(s.writer.isSome || !s.readers.isEmpty) = true) :
    s.writer = none := by
  cases hwriter : s.writer with
  | none => rfl
  | some r => simp [hwriter] at h

theorem Kept.turn {draw : ManagerChannelId} {task : Task} (h : s.Kept)
    (htask : s.tasks r = some task) (hin : s.InTime (.turn r draw))
    (hturn : s.turn r draw task = some s') : s'.Kept := by
  cases task with
  | launching => cases hturn
  | connecting destination options => cases hturn
  | inserting id destination options =>
      simp only [ManagerServer.turn] at hturn
      split at hturn
      · cases hturn
      · next hfree =>
          cases hturn
          have hwriter := writer_eq_none hfree
          have htask' : (s.insertConnection id destination options).tasks r =
              some (.inserting id destination options) := by
            rw [← htask]
            unfold ManagerServer.insertConnection
            split <;> rfl
          exact (h.insertConnection hwriter id destination options).of_idle htask' rfl
            ⟨rfl, rfl, rfl, rfl, rfl, rfl⟩ rfl rfl
  | openingChannel id =>
      simp only [ManagerServer.turn] at hturn
      split at hturn
      · cases hturn
      · split at hturn
        · cases hturn
          exact h.of_idle htask rfl ⟨rfl, rfl, rfl, rfl, rfl, rfl⟩ rfl rfl
        · split at hturn <;> cases hturn
          · exact h.of_idle htask rfl ⟨rfl, rfl, rfl, rfl, rfl, rfl⟩ rfl rfl
          · exact h.of_idle htask rfl ⟨rfl, rfl, rfl, rfl, rfl, rfl⟩ rfl rfl
  | registering channel =>
      cases hturn
      exact h.of_idle htask rfl ⟨rfl, rfl, rfl, rfl, rfl, rfl⟩ rfl rfl
  | sending id request =>
      simp only [ManagerServer.turn] at hturn
      split at hturn
      · cases hturn
        exact h.of_idle htask rfl ⟨rfl, rfl, rfl, rfl, rfl, rfl⟩ rfl rfl
      · split at hturn <;> cases hturn
        · exact h.of_idle htask rfl ⟨rfl, rfl, rfl, rfl, rfl, rfl⟩ rfl rfl
        · exact h.of_idle htask rfl ⟨rfl, rfl, rfl, rfl, rfl, rfl⟩ rfl rfl
  | closingChannel id =>
      simp only [ManagerServer.turn] at hturn
      split at hturn
      · cases hturn
        exact h.of_idle htask rfl ⟨rfl, rfl, rfl, rfl, rfl, rfl⟩ rfl rfl
      · split at hturn <;> cases hturn
        · exact h.of_idle htask rfl ⟨rfl, rfl, rfl, rfl, rfl, rfl⟩ rfl rfl
        · exact h.of_idle htask rfl ⟨rfl, rfl, rfl, rfl, rfl, rfl⟩ rfl rfl
  | killing id =>
      simp only [ManagerServer.turn] at hturn
      split at hturn
      · cases hturn
      · next hfree =>
          have hwriter := writer_eq_none hfree
          split at hturn
          · cases hturn
            exact h.of_idle htask rfl ⟨rfl, rfl, rfl, rfl, rfl, rfl⟩ rfl rfl
          · next connection hconnection =>
              cases hturn
              exact h.kill hwriter hconnection ⟨rfl, rfl, rfl, rfl, rfl, rfl⟩
  | asking id connection =>
      have hby : s.takenBy r = some (id, connection) := by
        rw [takenBy, htask]
        rfl
      simp only [ManagerServer.turn] at hturn
      split at hturn
      · cases hturn
        exact h.of_task ⟨rfl, rfl, rfl, rfl, rfl, rfl⟩ hby.symm (by rintro _ _ _ ⟨⟩ ⟨⟩)
      · split at hturn <;> cases hturn
        exact h.of_task ⟨rfl, rfl, rfl, rfl, rfl, rfl⟩ hby.symm (by rintro _ _ _ ⟨⟩ ⟨⟩)
  | closing id connection ids =>
      have hby : s.takenBy r = some (id, connection) := by
        rw [takenBy, htask]
        rfl
      cases hturn
      have hsame := sameTables_closeChannels ids s
      have hsame' : SameTables { s with
          tasks := Function.update s.tasks r (some (.sweeping id connection)) }
          ((closeChannels ids s).await r (.sweeping id connection)) := by
        refine ⟨hsame.connections, hsame.managedTunnels, hsame.history, hsame.killed,
          hsame.writer, ?_⟩
        unfold await
        rw [hsame.tasks]
      exact h.of_task hsame' hby.symm (by rintro _ _ _ ⟨⟩ ⟨⟩)
  | sweeping id connection =>
      cases hturn
      obtain ⟨hsame, hrest⟩ := abortTunnels_spec (s.tunnelIds id) s
      refine h.sweep htask ⟨hsame.connections, rfl, hsame.history, ?_, rfl, ?_⟩ hrest
      · show connection.serial :: (abortTunnels (s.tunnelIds id) s).killed = _
        rw [show (abortTunnels (s.tunnelIds id) s).killed = s.killed from hsame.killed]
      · show Function.update (abortTunnels (s.tunnelIds id) s).tasks r none = _
        rw [show (abortTunnels (s.tunnelIds id) s).tasks = s.tasks from hsame.tasks]
  | tunnelling setup =>
      simp only [ManagerServer.turn] at hturn
      split at hturn
      · cases hturn
      · split at hturn
        · cases hturn
          exact h.of_idle htask rfl ⟨rfl, rfl, rfl, rfl, rfl, rfl⟩ rfl rfl
        · next connection hconnection =>
            split at hturn <;> cases hturn
            · exact h.of_idle htask rfl ⟨rfl, rfl, rfl, rfl, rfl, rfl⟩ rfl rfl
            · refine h.of_task ⟨rfl, rfl, rfl, rfl, rfl, rfl⟩ ?_ ?_
              · rw [takenBy, htask]
                rfl
              · rintro _ id serial ⟨⟩ ⟨⟩
                have hknown := h.table _ _ hconnection
                exact ⟨connection, hknown.history, hknown.id⟩
  | starting setup channel => cases hturn
  | storing tunnel port =>
      cases hturn
      obtain ⟨c, hc, hserial⟩ := hin tunnel port htask
      have hinserted := h.opened r _ tunnel.connectionId tunnel.managerChannel.serial htask rfl
      exact (h.store hinserted hc hserial).of_idle htask rfl ⟨rfl, rfl, rfl, rfl, rfl, rfl⟩ rfl rfl
  | closingTunnel id =>
      simp only [ManagerServer.turn] at hturn
      split at hturn
      · cases hturn
        exact h.of_idle htask rfl ⟨rfl, rfl, rfl, rfl, rfl, rfl⟩ rfl rfl
      · cases hturn
        exact (h.eraseTunnel id).of_idle htask rfl ⟨rfl, rfl, rfl, rfl, rfl, rfl⟩ rfl rfl

theorem Kept.step {e : ManagerEvent} (h : s.Kept) (hin : s.InTime e) (hstep : s.step e = some s') :
    s'.Kept := by
  cases e with
  | request r request =>
      simp only [ManagerServer.step] at hstep
      split at hstep
      · next hfree =>
          cases hstep
          refine h.of_task ⟨rfl, rfl, rfl, rfl, rfl, rfl⟩ ?_ ?_
          · rw [takenBy, hfree]
            cases request <;> rfl
          · rintro _ id serial ⟨⟩ ho
            cases request <;> cases ho
      · cases hstep
  | launched r result =>
      simp only [ManagerServer.step] at hstep
      split at hstep
      · next htask =>
          cases hstep
          exact h.of_idle htask rfl ⟨rfl, rfl, rfl, rfl, rfl, rfl⟩ rfl rfl
      · next htask =>
          cases hstep
          exact h.of_idle htask rfl ⟨rfl, rfl, rfl, rfl, rfl, rfl⟩ rfl rfl
      · cases hstep
  | connected r result =>
      simp only [ManagerServer.step] at hstep
      split at hstep
      · next htask =>
          cases hstep
          exact h.of_idle htask rfl ⟨rfl, rfl, rfl, rfl, rfl, rfl⟩ rfl rfl
      · next htask =>
          cases hstep
          exact h.of_idle htask rfl ⟨rfl, rfl, rfl, rfl, rfl, rfl⟩ rfl rfl
      · cases hstep
  | started r result =>
      simp only [ManagerServer.step] at hstep
      split at hstep
      · next setup channel port htask =>
          cases hstep
          refine h.of_task ⟨rfl, rfl, rfl, rfl, rfl, rfl⟩ ?_ ?_
          · rw [takenBy, htask]
            rfl
          · rintro _ id serial ⟨⟩ ⟨⟩
            exact h.opened r _ setup.connectionId channel.serial htask rfl
      · next htask =>
          cases hstep
          exact h.of_idle htask rfl ⟨rfl, rfl, rfl, rfl, rfl, rfl⟩ rfl rfl
      · cases hstep
  | turn r draw =>
      simp only [ManagerServer.step] at hstep
      split at hstep
      · cases hstep
      · next task htask => exact h.turn htask hin hstep
  | connection serial event =>
      -- only the tasks of a connection change
      have hactors : ∃ actors, s' = { s with actors := actors } := by
        simp only [ManagerServer.step] at hstep
        split at hstep
        · obtain ⟨actor, -, rfl⟩ := Option.map_eq_some_iff.mp hstep
          exact ⟨_, rfl⟩
        · obtain ⟨actor, -, rfl⟩ := Option.map_eq_some_iff.mp hstep
          exact ⟨_, rfl⟩
        · obtain ⟨actor, -, rfl⟩ := Option.map_eq_some_iff.mp hstep
          exact ⟨_, rfl⟩
        · cases hstep
      obtain ⟨actors, rfl⟩ := hactors
      exact ⟨fun id c hc => (h.table id c hc).congr rfl rfl,
        fun r id c hc => ⟨(h.taken r id c hc).1, (h.taken r id c hc).2.1.congr rfl rfl,
          (h.taken r id c hc).2.2⟩, h.opened, h.tunnels, h.killed⟩

end Steps

/-! ## Runs -/

/-- In every run in which each tunnel still has its connection when it is put into the table, every
tunnel names a connection that is there, and no tunnel is one of a connection that was killed. -/
theorem tunnelsLive_of_run {es : List ManagerEvent} {s : ManagerServer}
    (hin : Machine.Meeting step InTime es new) (hrun : Machine.run step es new = some s) :
    s.TunnelsLive :=
  (Machine.invariant (fun _ _ _ h hC hstep => h.step hC hstep) kept_new hin hrun).live

/-- A client connects, and another has a tunnel set up that is put into the table; then the
connection is killed. -/
def timelyTunnel : List ManagerEvent :=
  [.request 0 (.connect "ssh://host" ""), .connected 0 (.ok 7), .turn 0 0,
    .request 1 (.forwardTunnel 7 80 "localhost" 80), .turn 1 5, .started 1 (.ok 80), .turn 1 0,
    .request 2 (.kill 7), .turn 2 0]

theorem tunnelsLive_timelyTunnel : ∃ s, Machine.run step timelyTunnel new = some s ∧
    s.managedTunnels.lookup 1 ≠ none ∧ s.connections.lookup 7 = none ∧ s.TunnelsLive := by
  have hin : Machine.Meeting step InTime timelyTunnel new := by
    refine .cons trivial rfl <| .cons trivial rfl <| .cons ?_ rfl <| .cons trivial rfl <|
      .cons ?_ rfl <| .cons trivial rfl <| .cons ?_ rfl <| .cons trivial rfl <| .cons ?_ rfl trivial
    · rintro tunnel port ⟨⟩
    · rintro tunnel port ⟨⟩
    -- the one tunnel that is put into the table has its connection
    · rintro tunnel port ⟨⟩
      exact ⟨_, .inl rfl, rfl⟩
    · rintro tunnel port ⟨⟩
  exact ⟨_, rfl, nofun, rfl, tunnelsLive_of_run hin rfl⟩

/-- The same, but the tunnel is set up only when the kill has completed. -/
def lateTunnel : List ManagerEvent :=
  [.request 0 (.connect "ssh://host" ""), .connected 0 (.ok 7), .turn 0 0,
    .request 1 (.forwardTunnel 7 80 "localhost" 80), .turn 1 5,
    .request 2 (.kill 7), .turn 2 0, .connection 0 .act, .connection 0 .act, .turn 2 0, .turn 2 0,
    .turn 2 0, .started 1 (.ok 80), .turn 1 0]

/-- The tunnel is in the table, but the connection it names is not, and was killed. -/
theorem not_tunnelsLive_lateTunnel : ∃ s, Machine.run step lateTunnel new = some s ∧
    (2, .killed) ∈ s.replies ∧ s.connections.lookup 7 = none ∧ ¬s.TunnelsLive := by
  refine ⟨_, rfl, by decide, rfl, fun h => ?_⟩
  exact h.swept 1 _ rfl (by decide)

end ManagerServer

end Distant
