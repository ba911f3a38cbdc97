import Distant.Client.TunnelListener
import Distant.Host.Registry

/-!
# A reverse tunnel from end to end

What a connection sends to a listener of the host is read by the task of the connection and sent to
the client, through the same queue as everything else that is about this listener. `reverse_reads`
says that whoever reads the connection at the client gets just that, however the tasks take turns on
either side.
-/

namespace Distant

open RemoteTunnelListener (incomings dataOf isEnd)

/-- With what comes after that. -/
def RemoteTunnelListener.Incoming.extend (listenerId : TunnelId) (more : List TunnelResponse)
    (i : Incoming) : Incoming :=
  if i.ended then i
  else
    { i with
      data := i.data ++ dataOf listenerId i.tunnelId more
      ended := more.any (isEnd listenerId i.tunnelId) }

section

variable (l : TunnelId)

@[simp]
theorem RemoteTunnelListener.Incoming.tunnelId_extend (more : List TunnelResponse) (i : Incoming) :
    (i.extend l more).tunnelId = i.tunnelId := by
  rw [extend]
  split_ifs <;> rfl

theorem RemoteTunnelListener.Incoming.extend_of_ended {i : Incoming} (h : i.ended = true)
    (more : List TunnelResponse) : i.extend l more = i := if_pos h

theorem RemoteTunnelListener.Incoming.data_extend {i : Incoming} (h : i.ended = false)
    (more : List TunnelResponse) : (i.extend l more).data = i.data ++ dataOf l i.tunnelId more := by
  rw [extend, h]
  rfl

theorem RemoteTunnelListener.Incoming.ended_extend {i : Incoming} (h : i.ended = false)
    (more : List TunnelResponse) : (i.extend l more).ended = more.any (isEnd l i.tunnelId) := by
  rw [extend, h]
  rfl

/-- Where nothing comes for it, it is the same. -/
theorem RemoteTunnelListener.Incoming.data_extend_of_nil {i : Incoming} {more : List TunnelResponse}
    (h : dataOf l i.tunnelId more = []) : (i.extend l more).data = i.data := by
  cases hended : i.ended with
  | true => rw [extend_of_ended l hended]
  | false => rw [data_extend l hended, h, List.append_nil]

theorem dataOf_cons_of_end {id : TunnelId} {r : TunnelResponse} (h : isEnd l id r = true)
    (xs : List TunnelResponse) : dataOf l id (r :: xs) = [] := by
  cases r with
  | tunnelIncoming | tunnelClosed => exact if_pos (of_decide_eq_true h)
  | error | tunnelOpened | tunnelListening | tunnelData | other => cases h

theorem dataOf_cons {id : TunnelId} {r : TunnelResponse} (h : isEnd l id r = false)
    (xs : List TunnelResponse) : dataOf l id (r :: xs) = dataOf l id [r] ++ dataOf l id xs := by
  cases r with
  | tunnelIncoming | tunnelClosed =>
    have hnot := of_decide_eq_false h
    rw [dataOf, dataOf, if_neg hnot, if_neg hnot]
    rfl
  | tunnelData dataId data =>
    rw [dataOf, dataOf]
    split_ifs <;> rfl
  | error | tunnelOpened | tunnelListening | other => rfl

theorem dataOf_append (id : TunnelId) (xs ys : List TunnelResponse) : dataOf l id (xs ++ ys) =
    dataOf l id xs ++ if xs.any (isEnd l id) then [] else dataOf l id ys := by
  induction xs with
  | nil => rfl
  | cons r xs ih =>
    rw [List.cons_append, List.any_cons]
    cases h : isEnd l id r with
    | true => rw [dataOf_cons_of_end l h, dataOf_cons_of_end l h, Bool.true_or, if_pos rfl,
        List.nil_append]
    | false => rw [dataOf_cons l h, dataOf_cons l h xs, ih, Bool.false_or, List.append_assoc]

theorem ended_of_mem_incomings {xs : List TunnelResponse} (h : .tunnelClosed l ∈ xs) :
    ∀ i ∈ incomings l xs, i.ended = true := by
  induction xs with
  | nil => cases h
  | cons r xs ih =>
    by_cases hr : r = .tunnelClosed l
    · rw [hr, incomings, if_pos rfl]
      intro i hi
      cases hi
    have hxs : .tunnelClosed l ∈ xs := (List.mem_cons.1 h).resolve_left fun heq => hr heq.symm
    cases r with
    | tunnelIncoming incomingId id peerAddr =>
      rw [incomings]
      split_ifs
      · refine List.forall_mem_cons.2 ⟨?_, ih hxs⟩
        exact List.any_eq_true.2 ⟨_, hxs, by simp [isEnd]⟩
      · exact ih hxs
    | tunnelClosed id =>
      rw [incomings]
      split_ifs
      · intro i hi
        cases hi
      · exact ih hxs
    | error | tunnelOpened | tunnelListening | tunnelData | other => exact ih hxs

theorem incomings_append (xs ys : List TunnelResponse) : incomings l (xs ++ ys) =
    (incomings l xs).map (RemoteTunnelListener.Incoming.extend l ys) ++
      if .tunnelClosed l ∈ xs then [] else incomings l ys := by
  induction xs with
  | nil => simp [incomings]
  | cons r xs ih =>
    cases r with
    | tunnelIncoming incomingId id peerAddr =>
      have hmem : .tunnelClosed l ∈ .tunnelIncoming incomingId id peerAddr :: xs ↔
          .tunnelClosed l ∈ xs := by simp
      rw [List.cons_append, incomings, incomings, ih]
      simp only [hmem]
      by_cases hl : incomingId = l
      · rw [if_pos hl, if_pos hl, List.map_cons, List.cons_append,
          RemoteTunnelListener.Incoming.extend, dataOf_append, List.any_append]
        cases xs.any (isEnd l id) with
        | true => simp only [if_true, List.append_nil, Bool.true_or]
        | false => simp only [Bool.false_eq_true, if_false, Bool.false_or]
      · rw [if_neg hl, if_neg hl]
    | tunnelClosed id =>
      rw [List.cons_append, incomings, incomings]
      by_cases hl : id = l
      · rw [if_pos hl, if_pos hl, if_pos (by simp [hl])]
        rfl
      · have hmem : .tunnelClosed l ∈ .tunnelClosed id :: xs ↔ .tunnelClosed l ∈ xs := by
          simp [Ne.symm hl]
        rw [if_neg hl, if_neg hl, ih]
        simp only [hmem]
    | error | tunnelOpened | tunnelListening | tunnelData | other =>
      simpa [incomings] using ih

end

/-- How much a connection reads at once, at most. -/
def TUNNEL_RELAY_BUFFER_SIZE : Nat := 8192

/-- The tunnels of a host, with what is read from their connections. -/
structure ReverseTunnels where
  host : TunnelState
  /-- what the task of a connection has read -/
  read : Nat → List Bytes
  /-- the tasks of the connections that a listener has accepted -/
  accepted : Nat → List Nat
  /-- what a listener and its connections have sent to the client -/
  sent : Nat → List TunnelResponse

inductive ReverseEvent where
  | host (e : TunnelEvent)
  /-- the task of a connection reads something, and sends it -/
  | read (task : Nat) (data : Bytes)

namespace ReverseTunnels

def new : ReverseTunnels := ⟨.new, fun _ => [], fun _ => [], fun _ => []⟩

/-- The listener that a connection belongs to. -/
def parent (s : TunnelState) (task : Nat) : Option Nat :=
  match s.spawned[task]? with
  | some ⟨_, .connection parent⟩ => parent
  | _ => none

/-- Sends a response to the client of a listener. -/
def send (s : ReverseTunnels) (listener : Nat) (r : TunnelResponse) : ReverseTunnels :=
  { s with sent := Function.update s.sent listener (s.sent listener ++ [r]) }

def accept (s : ReverseTunnels) (listener task : Nat) : ReverseTunnels :=
  { s with accepted := Function.update s.accepted listener (s.accepted listener ++ [task]) }

section

variable (socketAddr : String → UInt16 → String)

/-- What a step of the host sends to the client of a listener. -/
def tell (s : ReverseTunnels) : TunnelEvent → ReverseTunnels
  | .accept listener host port =>
    (s.send listener (.tunnelIncoming (s.host.idOf listener) s.host.nextId
      (some (socketAddr host port)))).accept listener s.host.spawned.length
  -- where the announcement has failed, the client is not there any more
  | .acceptFails listener false => s.send listener (.tunnelClosed (s.host.idOf listener))
  | .connectionEnds task =>
    match parent s.host task with
    | some listener => s.send listener (.tunnelClosed (s.host.idOf task))
    | none => s
  | _ => s

def step (s : ReverseTunnels) : ReverseEvent → Option ReverseTunnels
  | .host e => (s.host.step e).map fun host => { tell socketAddr s e with host := host }
  | .read task data =>
    if s.host.isConnection task ∧ (s.host.connections task).phase = .running ∧ data ≠ [] ∧
        data.length ≤ TUNNEL_RELAY_BUFFER_SIZE then
      let s := { s with read := Function.update s.read task (s.read task ++ [data]) }
      match parent s.host task with
      | some listener => some (s.send listener (.tunnelData (s.host.idOf task) data))
      | none => some s
    else none

end

end ReverseTunnels

/-! ## What a step of the host can do -/

namespace TunnelState

variable {s s' s'' : TunnelState} {P : TunnelKind → Prop}

/-- Tasks stay what they are, and none that has ended runs again; those that are new satisfy `P`. -/
structure Follows (P : TunnelKind → Prop) (s s' : TunnelState) : Prop where
  spawned : s.spawned <+: s'.spawned
  born : ∀ (n : Nat) (t : Spawned), s'.spawned[n]? = some t → s.spawned[n]? = some t ∨ P t.kind
  running : ∀ n < s.spawned.length, (s'.connections n).phase = .running →
    (s.connections n).phase = .running
  serving : ∀ l < s.spawned.length, s'.isServing l = true → s.isServing l = true

theorem isServing_of_phase {l : Nat} (h : (s'.listeners l).phase = (s.listeners l).phase) :
    s'.isServing l = s.isServing l := by
  unfold isServing
  rw [h]

theorem Follows.of_same (hspawned : s'.spawned = s.spawned)
    (hconnections : s'.connections = s.connections)
    (hlisteners : s'.listeners = s.listeners) : Follows P s s' where
  spawned := by rw [hspawned]
  born n t h := .inl (by rwa [hspawned] at h)
  running n _ h := by rwa [hconnections] at h
  serving l _ h := by rwa [isServing_of_phase (congrArg (fun f => (f l).phase) hlisteners)] at h

theorem Follows.trans (h : Follows P s s') (h' : Follows P s' s'') : Follows P s s'' where
  spawned := h.spawned.trans h'.spawned
  born n t hn := (h'.born n t hn).elim (h.born n t) .inr
  running n hn hphase :=
    h.running n hn (h'.running n (Nat.lt_of_lt_of_le hn h.spawned.length_le) hphase)
  serving l hl hserving :=
    h.serving l hl (h'.serving l (Nat.lt_of_lt_of_le hl h.spawned.length_le) hserving)

theorem follows_spawn {kind : TunnelKind} (hkind : P kind) : Follows P s (s.spawn kind) where
  spawned := List.prefix_append _ _
  born n t hn := (getElem?_spawn hn).imp id fun ⟨_, h⟩ => h ▸ hkind
  running n hn hphase := by rwa [(states_spawn kind (Nat.ne_of_lt hn)).1] at hphase
  serving l hl hserving := by
    rwa [isServing_of_phase (congrArg _ (states_spawn kind (Nat.ne_of_lt hl)).2)] at hserving

theorem follows_setConnection {n : Nat} {c : ConnectionState}
    (h : c.phase = .running → (s.connections n).phase = .running) :
    Follows P s (s.setConnection n c) where
  spawned := List.prefix_rfl
  born _ _ h := .inl h
  running m _ hphase := by
    by_cases heq : m = n
    · have hself : (s.setConnection n c).connections n = c := Function.update_self _ _ _
      rw [heq, hself] at hphase
      rw [heq]
      exact h hphase
    · have hsame : (s.setConnection n c).connections m = s.connections m :=
        Function.update_of_ne heq _ _
      rwa [hsame] at hphase
  serving _ _ h := h

theorem follows_setListener {l : Nat} {phase : ListenerPhase}
    (h : (s.setListener l phase).isServing l = true → s.isServing l = true) :
    Follows P s (s.setListener l phase) where
  spawned := List.prefix_rfl
  born _ _ h := .inl h
  running _ _ h := h
  serving m _ hserving := by
    by_cases heq : m = l
    · rw [heq] at hserving ⊢
      exact h hserving
    · have hsame : (s.setListener l phase).listeners m = s.listeners m :=
        Function.update_of_ne heq _ _
      rwa [isServing_of_phase (congrArg _ hsame)] at hserving

theorem follows_trySend (task : Nat) : Follows P s (s.trySend task).2 := by
  unfold trySend
  dsimp only
  split_ifs
  · exact .of_same rfl rfl rfl
  · exact .of_same rfl rfl rfl
  · exact follows_setConnection fun h => h

theorem follows_closeTunnel (id : TunnelId) : Follows P s (s.closeTunnel id).2 := by
  unfold closeTunnel
  split
  · exact .of_same rfl rfl rfl
  · next task _ =>
    refine ⟨List.prefix_rfl, fun _ _ h => .inl h, fun _ _ h => h, fun l _ hserving => ?_⟩
    rwa [isServing_of_phase] at hserving
    by_cases heq : l = task
    · simp [heq]
    · simp [heq]
  · exact .of_same rfl rfl rfl

theorem follows_handle (hP : ∀ kind, (∀ l, kind ≠ .connection (some l)) → P kind)
    (outcome : Except IoError UInt16) (msg : InnerTunnelMsg) :
    Follows P s (s.handle outcome msg) := by
  cases msg with
  | opening r host port =>
    cases outcome with
    | error e => exact .of_same rfl rfl rfl
    | ok actualPort =>
      exact (follows_spawn (hP (.connection none) (by simp))).trans (.of_same rfl rfl rfl)
  | listening r host port =>
    cases outcome with
    | error e => exact .of_same rfl rfl rfl
    | ok actualPort =>
      exact (follows_spawn (hP .listener (by simp))).trans (.of_same rfl rfl rfl)
  | write r id data =>
    rw [handle, onWrite]
    split
    next due result s₁ heq =>
    have h : Follows P s s₁ := by
      split at heq
      · next task _ =>
        have h := follows_trySend (s := s) (P := P) task
        rw [heq] at h
        exact h
      · cases heq
        exact .of_same rfl rfl rfl
      · cases heq
        exact .of_same rfl rfl rfl
    exact ⟨h.spawned, h.born, h.running, h.serving⟩
  | close r id =>
    have h := follows_closeTunnel (s := s) (P := P) id
    exact ⟨h.spawned, h.born, h.running, h.serving⟩
  | internalRemove id =>
    rw [handle, onRemove]
    split <;> exact .of_same rfl rfl rfl
  | internalRegisterSubTunnel lid tid host port task =>
    rw [handle, onRegister]
    split <;> exact .of_same rfl rfl rfl

theorem follows_send {msg : InnerTunnelMsg} (h : s.send msg = some s') : Follows P s s' := by
  rw [send_eq_some h]
  exact .of_same rfl rfl rfl

/-- A task for a connection of a listener is spawned by this listener only. -/
theorem follows_step {e : TunnelEvent} (h : s.step e = some s') :
    Follows (fun kind => ∀ l, kind = .connection (some l) → ∃ host port, e = .accept l host port)
      s s' := by
  cases e with
  | request msg =>
    rw [step] at h
    split_ifs at h
    exact follows_send h
  | take =>
    rw [step] at h
    split at h
    · cases h
      exact .of_same rfl rfl rfl
    · cases h
  | finish outcome =>
    obtain ⟨msg, -, rfl⟩ := Option.map_eq_some_iff.1 h
    refine Follows.trans ?_ (follows_handle (fun kind hkind l h => absurd h (hkind l)) outcome msg)
    exact .of_same rfl rfl rfl
  | accept listener host port =>
    rw [step] at h
    split_ifs at h with hguard
    cases h
    obtain ⟨hlistener, hphase⟩ := (Bool.and_eq_true _ _).mp hguard
    have hne := ne_length_of_some (spawned_of_isListener hlistener)
    have hserving : s.isServing listener = true := by
      rw [isServing, eq_of_beq hphase]
    refine Follows.trans ?_ (.trans (follows_spawn ?_) (follows_setListener fun _ => ?_))
    · exact .of_same rfl rfl rfl
    · rintro l ⟨⟩
      exact ⟨host, port, rfl⟩
    have hsame := states_spawn (s := s.reply (.tunnelIncoming (s.idOf listener) s.nextId))
      (.connection (some listener)) hne
    rw [isServing_of_phase (congrArg _ hsame.2)]
    exact hserving
  | acceptFails listener drawn =>
    rw [step] at h
    by_cases hguard : (s.isListener listener && (s.listeners listener).phase == .accepting) = true
    · rw [if_pos hguard] at h
      cases drawn with
      | true =>
        cases h
        refine Follows.trans ?_
          (.trans (@follows_setListener { s with nextId := s.nextId + 1 } _ listener .ended
            (by simp [isServing, setListener])) (.of_same rfl rfl rfl))
        exact .of_same rfl rfl rfl
      | false =>
        cases h
        exact .trans (@follows_setListener s _ listener .ended (by simp [isServing, setListener]))
          (.of_same rfl rfl rfl)
    · rw [if_neg hguard] at h
      cases h
  | register listener =>
    rw [step] at h
    split_ifs at h
    split at h
    · next task tunnelId host port hphase =>
      obtain ⟨s₁, hsend, rfl⟩ := Option.map_eq_some_iff.1 h
      refine (follows_send hsend).trans (follows_setListener fun _ => ?_)
      rw [send_eq_some hsend]
      show s.isServing listener = true
      rw [isServing, hphase]
    · cases h
  | connectionEnds task =>
    rw [step] at h
    split_ifs at h
    cases h
    exact .trans (follows_setConnection fun h => by cases h) (.of_same rfl rfl rfl)
  | drain task =>
    rw [step] at h
    split_ifs at h
    cases h
    exact follows_setConnection fun h => h
  | sendRemove task =>
    rw [step] at h
    split_ifs at h
    · obtain ⟨s₁, hsend, rfl⟩ := Option.map_eq_some_iff.1 h
      exact (follows_send hsend).trans (follows_setConnection fun h => by cases h)
    · obtain ⟨s₁, hsend, rfl⟩ := Option.map_eq_some_iff.1 h
      exact (follows_send hsend).trans (follows_setListener (by simp [isServing, setListener]))
  | cancel listener =>
    rw [step] at h
    split_ifs at h
    cases h
    exact follows_setListener (by simp [isServing, setListener])

theorem idOf_of_spawned {n : Nat} {t : Spawned} (h : s.spawned[n]? = some t) : s.idOf n = t.id := by
  rw [idOf, h]

theorem Follows.getElem? (h : Follows P s s') {n : Nat} {t : Spawned}
    (hn : s.spawned[n]? = some t) : s'.spawned[n]? = some t := by
  obtain ⟨more, hmore⟩ := h.spawned
  rw [← hmore, List.getElem?_append_left (List.getElem?_eq_some_iff.1 hn).1]
  exact hn

theorem Follows.idOf (h : Follows P s s') {n : Nat} (hn : n < s.spawned.length) :
    s'.idOf n = s.idOf n := by
  have ht : s.spawned[n]? = some s.spawned[n] := List.getElem?_eq_getElem hn
  rw [idOf_of_spawned ht, idOf_of_spawned (h.getElem? ht)]

end TunnelState

/-! ## What the client is told -/

namespace ReverseTunnels

variable {socketAddr : String → UInt16 → String} {s s' : ReverseTunnels}

/-- The id that a listener draws for a connection belongs to no tunnel yet. -/
def Orderly (s : ReverseTunnels) : ReverseEvent → Prop
  | .host (.accept ..) => s.host.Fresh
  | _ => True

/-- The client is told of all connections of the listener, and sent what was read from each, as long
as the listener itself has not ended. -/
def Told (s : ReverseTunnels) (id : TunnelId) (accepted : List Nat) (sent : List TunnelResponse) :
    Prop :=
  (incomings id sent).length = accepted.length ∧
    ∀ k task : Nat, accepted[k]? = some task → ∃ i, (incomings id sent)[k]? = some i ∧
      i.tunnelId = s.host.idOf task ∧
      RemoteTunnelListener.UpTo (.tunnelClosed id ∉ sent) i.data (s.read task) ∧
      (.tunnelClosed id ∉ sent → (s.host.connections task).phase = .running → i.ended = false)

structure Honest (s : ReverseTunnels) : Prop where
  accepted : ∀ listener, ∀ task ∈ s.accepted listener, ∃ id id',
    s.host.spawned[listener]? = some ⟨id, .listener⟩ ∧
      s.host.spawned[task]? = some ⟨id', .connection (some listener)⟩
  /-- and only these -/
  complete : ∀ (task : Nat) (id : TunnelId) (listener : Nat),
    s.host.spawned[task]? = some ⟨id, .connection (some listener)⟩ → task ∈ s.accepted listener
  distinct : ∀ listener, (s.host.idOf listener :: (s.accepted listener).map s.host.idOf).Nodup
  unread : ∀ task, s.host.spawned.length ≤ task → s.read task = []
  silent : ∀ listener, s.host.spawned.length ≤ listener → s.sent listener = []
  serving : ∀ listener, .tunnelClosed (s.host.idOf listener) ∈ s.sent listener →
    s.host.isServing listener = false
  told : ∀ listener, s.Told (s.host.idOf listener) (s.accepted listener) (s.sent listener)

section

variable {id : TunnelId} {accepted : List Nat} {sent : List TunnelResponse} {r : TunnelResponse}

/-- A response that announces no connection. -/
theorem Told.append (h : s.Told id accepted sent) (hr : incomings id [r] = [])
    (hids : ∀ task ∈ accepted, s'.host.idOf task = s.host.idOf task)
    (hdata : ∀ task ∈ accepted,
      (dataOf id (s.host.idOf task) [r] = [] ∧ s'.read task = s.read task) ∨
        ((s.host.connections task).phase = .running ∧
          s'.read task = s.read task ++ dataOf id (s.host.idOf task) [r]))
    (hrunning : r ≠ .tunnelClosed id → ∀ task ∈ accepted,
      (s'.host.connections task).phase = .running →
        (s.host.connections task).phase = .running ∧ isEnd id (s.host.idOf task) r = false) :
    s'.Told id accepted (sent ++ [r]) := by
  have hincomings : incomings id (sent ++ [r]) =
      (incomings id sent).map (RemoteTunnelListener.Incoming.extend id [r]) := by
    rw [incomings_append, hr, ite_self, List.append_nil]
  have hopen : .tunnelClosed id ∉ sent ++ [r] → .tunnelClosed id ∉ sent ∧ r ≠ .tunnelClosed id := by
    intro hnot
    simpa [eq_comm] using hnot
  refine ⟨by rw [hincomings, List.length_map, h.1], fun k task hk => ?_⟩
  have hmem := List.mem_of_getElem? hk
  obtain ⟨i, hi, hid, hupto, hgoing⟩ := h.2 k task hk
  refine ⟨i.extend id [r], by rw [hincomings, List.getElem?_map, hi]; rfl, ?_, ?_,
    fun hnot hphase => ?_⟩
  · rw [RemoteTunnelListener.Incoming.tunnelId_extend, hid, hids task hmem]
  · by_cases hclosed : .tunnelClosed id ∈ sent
    · -- the listener has ended, and nothing that comes after that counts
      have hended := ended_of_mem_incomings id hclosed i (List.mem_of_getElem? hi)
      rw [i.extend_of_ended id hended]
      refine ⟨hupto.1.trans ?_, fun hnot => absurd hclosed (hopen hnot).1⟩
      rcases hdata task hmem with ⟨-, hread⟩ | ⟨-, hread⟩
      · rw [hread]
      · rw [hread]
        exact List.prefix_append _ _
    · have hsame := hupto.2 hclosed
      have hdata' : (i.extend id [r]).data = s'.read task := by
        rcases hdata task hmem with ⟨hnone, hread⟩ | ⟨hrun, hread⟩
        · rw [i.data_extend_of_nil id (by rwa [hid]), hread, hsame]
        · rw [i.data_extend id (hgoing hclosed hrun), hread, hid, hsame]
      rw [hdata']
      exact ⟨List.prefix_rfl, fun _ => rfl⟩
  · obtain ⟨hclosed, hne⟩ := hopen hnot
    obtain ⟨hrun, hnoEnd⟩ := hrunning hne task hmem hphase
    rw [i.ended_extend id (hgoing hclosed hrun), hid]
    simpa using hnoEnd

/-- A connection is announced. -/
theorem Told.accept (h : s.Told id accepted sent) {task : Nat} {newId : TunnelId}
    {peerAddr : Option String} (hopen : .tunnelClosed id ∉ sent)
    (hids : ∀ m ∈ accepted, s'.host.idOf m = s.host.idOf m ∧ s.host.idOf m ≠ newId)
    (hread : ∀ m ∈ accepted, s'.read m = s.read m) (hid : s'.host.idOf task = newId)
    (hnew : s'.read task = [])
    (hrunning : ∀ m ∈ accepted, (s'.host.connections m).phase = .running →
      (s.host.connections m).phase = .running) :
    s'.Told id (accepted ++ [task]) (sent ++ [.tunnelIncoming id newId peerAddr]) := by
  have hincomings : incomings id (sent ++ [.tunnelIncoming id newId peerAddr]) =
      (incomings id sent).map
        (RemoteTunnelListener.Incoming.extend id [.tunnelIncoming id newId peerAddr]) ++
        [⟨newId, peerAddr, [], false⟩] := by
    rw [incomings_append, if_neg hopen]
    simp [incomings, dataOf]
  refine ⟨by simp [hincomings, h.1], fun k m hk => ?_⟩
  rw [hincomings]
  rw [List.getElem?_append] at hk ⊢
  rw [List.length_map, h.1]
  split_ifs at hk ⊢ with hlt
  · have hmem := List.mem_of_getElem? hk
    obtain ⟨i, hi, hid, hupto, hgoing⟩ := h.2 k m hk
    have hnone : dataOf id i.tunnelId [.tunnelIncoming id newId peerAddr] = [] := by
      rw [dataOf]
      split_ifs <;> rfl
    refine ⟨_, by rw [List.getElem?_map, hi]; rfl, ?_, ?_, fun _ hphase => ?_⟩
    · rw [RemoteTunnelListener.Incoming.tunnelId_extend, (hids m hmem).1, hid]
    · rw [i.data_extend_of_nil id hnone, hread m hmem]
      exact ⟨hupto.1, fun _ => hupto.2 hopen⟩
    · rw [i.ended_extend id (hgoing hopen (hrunning m hmem hphase))]
      have hne := (hids m hmem).2
      rw [← hid] at hne
      simp [isEnd, Ne.symm hne]
  · cases hzero : k - accepted.length with
    | zero =>
      rw [hzero] at hk
      cases hk
      exact ⟨_, rfl, hid.symm, by rw [hnew]; exact ⟨List.prefix_rfl, fun _ => rfl⟩, fun _ _ => rfl⟩
    | succ n =>
      rw [hzero] at hk
      cases hk

end

/-- The same has been read, and nothing more is sent. -/
theorem Told.congr {id : TunnelId} {accepted : List Nat} {sent : List TunnelResponse}
    (h : s.Told id accepted sent) (hids : ∀ task ∈ accepted, s'.host.idOf task = s.host.idOf task)
    (hread : ∀ task ∈ accepted, s'.read task = s.read task)
    (hrunning : ∀ task ∈ accepted, (s'.host.connections task).phase = .running →
      (s.host.connections task).phase = .running) : s'.Told id accepted sent := by
  refine ⟨h.1, fun k task hk => ?_⟩
  have hmem := List.mem_of_getElem? hk
  obtain ⟨i, hi, hid, hupto, hgoing⟩ := h.2 k task hk
  refine ⟨i, hi, by rw [hids task hmem, hid], by rwa [hread task hmem], fun hopen hphase => ?_⟩
  exact hgoing hopen (hrunning task hmem hphase)

theorem Honest.lt_of_accepted (h : Honest s) {listener task : Nat}
    (ht : task ∈ s.accepted listener) :
    listener < s.host.spawned.length ∧ task < s.host.spawned.length := by
  obtain ⟨id, id', hl, ht⟩ := h.accepted listener task ht
  exact ⟨(List.getElem?_eq_some_iff.1 hl).1, (List.getElem?_eq_some_iff.1 ht).1⟩

theorem Honest.accepted_of_le (h : Honest s) {listener : Nat}
    (hle : s.host.spawned.length ≤ listener) : s.accepted listener = [] := by
  refine List.eq_nil_iff_forall_not_mem.2 fun task ht => ?_
  exact absurd (h.lt_of_accepted ht).1 (Nat.not_lt.2 hle)

theorem told_nil (s : ReverseTunnels) (id : TunnelId) : s.Told id [] [] := ⟨rfl, nofun⟩

/-- What a step of the host keeps, as far as this listener goes. -/
theorem Honest.told_host (h : Honest s) {P : TunnelKind → Prop}
    (hf : TunnelState.Follows P s.host s'.host) {listener : Nat}
    (hread : ∀ task ∈ s.accepted listener, s'.read task = s.read task) :
    s'.Told (s'.host.idOf listener) (s.accepted listener) (s.sent listener) := by
  by_cases hlt : listener < s.host.spawned.length
  · rw [hf.idOf hlt]
    exact (h.told listener).congr (fun task ht => hf.idOf (h.lt_of_accepted ht).2) hread
      fun task ht => hf.running task (h.lt_of_accepted ht).2
  · have hle := Nat.not_lt.1 hlt
    rw [h.accepted_of_le hle, h.silent listener hle]
    exact told_nil s' _

theorem Honest.distinct_host (h : Honest s) {P : TunnelKind → Prop} {host : TunnelState}
    (hf : TunnelState.Follows P s.host host) (listener : Nat) :
    (host.idOf listener :: (s.accepted listener).map host.idOf).Nodup := by
  by_cases hlt : listener < s.host.spawned.length
  · have hmap : (s.accepted listener).map host.idOf = (s.accepted listener).map s.host.idOf :=
      List.map_congr_left fun task ht => hf.idOf (h.lt_of_accepted ht).2
    rw [hf.idOf hlt, hmap]
    exact h.distinct listener
  · rw [h.accepted_of_le (Nat.not_lt.1 hlt)]
    simp

theorem Honest.serving_host (h : Honest s) {P : TunnelKind → Prop} {host : TunnelState}
    (hf : TunnelState.Follows P s.host host) {listener : Nat}
    (hclosed : .tunnelClosed (host.idOf listener) ∈ s.sent listener) :
    host.isServing listener = false := by
  have hlt : listener < s.host.spawned.length := by
    by_contra hnot
    rw [h.silent listener (Nat.not_lt.1 hnot)] at hclosed
    cases hclosed
  rw [hf.idOf hlt] at hclosed
  have hended := h.serving listener hclosed
  refine Bool.eq_false_iff.2 fun hserving => ?_
  rw [hf.serving listener hlt hserving] at hended
  cases hended

/-- A step of the host that accepts no connection. -/
theorem Honest.host (h : Honest s) {host : TunnelState}
    (hf : TunnelState.Follows (fun kind => ∀ l, kind ≠ .connection (some l)) s.host host) :
    Honest { s with host := host } where
  accepted listener task ht := by
    obtain ⟨id, id', hl, ht⟩ := h.accepted listener task ht
    exact ⟨id, id', hf.getElem? hl, hf.getElem? ht⟩
  complete task id listener ht :=
    (hf.born task _ ht).elim (h.complete task id listener) fun hnot => absurd rfl (hnot listener)
  distinct := h.distinct_host hf
  unread task hle := h.unread task (Nat.le_trans hf.spawned.length_le hle)
  silent listener hle := h.silent listener (Nat.le_trans hf.spawned.length_le hle)
  serving _ hclosed := h.serving_host hf hclosed
  told _ := h.told_host hf fun _ _ => rfl

/-- A listener or one of its connections sends something, which may have been read before. -/
theorem Honest.send (h : Honest s) {listener : Nat} {r : TunnelResponse} {read : Nat → List Bytes}
    (hl : listener < s.host.spawned.length)
    (hserving : r = .tunnelClosed (s.host.idOf listener) → s.host.isServing listener = false)
    (hr : incomings (s.host.idOf listener) [r] = [])
    (hothers : ∀ other, other ≠ listener → ∀ task ∈ s.accepted other, read task = s.read task)
    (hunread : ∀ task, s.host.spawned.length ≤ task → read task = s.read task)
    (hdata : ∀ task ∈ s.accepted listener,
      (dataOf (s.host.idOf listener) (s.host.idOf task) [r] = [] ∧ read task = s.read task) ∨
        ((s.host.connections task).phase = .running ∧
          read task = s.read task ++ dataOf (s.host.idOf listener) (s.host.idOf task) [r]))
    (hrunning : r ≠ .tunnelClosed (s.host.idOf listener) → ∀ task ∈ s.accepted listener,
      (s.host.connections task).phase = .running →
        isEnd (s.host.idOf listener) (s.host.idOf task) r = false) :
    Honest { s.send listener r with read := read } where
  accepted := h.accepted
  complete := h.complete
  distinct := h.distinct
  unread task hle := (hunread task hle).trans (h.unread task hle)
  silent other hle := by
    have hne : other ≠ listener := by
      rintro rfl
      exact absurd hl (Nat.not_lt.2 hle)
    exact (Function.update_of_ne hne _ _).trans (h.silent other hle)
  serving other hclosed := by
    by_cases heq : other = listener
    · subst heq
      have hsent : (s.send other r).sent other = s.sent other ++ [r] := Function.update_self _ _ _
      rcases List.mem_append.1 (hsent ▸ hclosed) with hold | hnew
      · exact h.serving other hold
      · exact hserving (List.mem_singleton.1 hnew).symm
    · have hsent : (s.send listener r).sent other = s.sent other := Function.update_of_ne heq _ _
      exact h.serving other (hsent ▸ hclosed)
  told other := by
    by_cases heq : other = listener
    · subst heq
      have hsent : (s.send other r).sent other = s.sent other ++ [r] := Function.update_self _ _ _
      show Told _ _ (s.accepted other) ((s.send other r).sent other)
      rw [hsent]
      exact (h.told other).append hr (fun _ _ => rfl) hdata
        fun hne task ht hphase => ⟨hphase, hrunning hne task ht hphase⟩
    · have hsent : (s.send listener r).sent other = s.sent other := Function.update_of_ne heq _ _
      show Told _ _ (s.accepted other) ((s.send listener r).sent other)
      rw [hsent]
      exact (h.told other).congr (fun _ _ => rfl) (hothers other heq) fun _ _ h => h

theorem Honest.eq_of_accepted (h : Honest s) {listener other task : Nat}
    (ht : task ∈ s.accepted listener) (ht' : task ∈ s.accepted other) : other = listener := by
  obtain ⟨id, id', -, hspawned⟩ := h.accepted listener task ht
  obtain ⟨_, _, -, hspawned'⟩ := h.accepted other task ht'
  rw [hspawned] at hspawned'
  cases hspawned'
  rfl

theorem Honest.idOf_ne (h : Honest s) {listener task : Nat} (ht : task ∈ s.accepted listener) :
    s.host.idOf task ≠ s.host.idOf listener := by
  intro heq
  have hnot := (List.nodup_cons.1 (h.distinct listener)).1
  exact hnot (heq ▸ List.mem_map_of_mem ht)

theorem Honest.idOf_inj (h : Honest s) {listener task task' : Nat} (ht : task ∈ s.accepted listener)
    (ht' : task' ∈ s.accepted listener) (heq : s.host.idOf task = s.host.idOf task') :
    task = task' :=
  List.inj_on_of_nodup_map (List.nodup_cons.1 (h.distinct listener)).2 ht ht' heq

theorem mem_accepted_of_parent (h : Honest s) {task listener : Nat}
    (hp : parent s.host task = some listener) : task ∈ s.accepted listener := by
  unfold parent at hp
  split at hp
  · next id parent hspawned =>
    subst hp
    exact h.complete task id listener hspawned
  · cases hp

/-- The task of a connection reads something. -/
theorem Honest.read (h : Honest s) {task : Nat} {data : Bytes}
    (hrunning : (s.host.connections task).phase = .running) (hlt : task < s.host.spawned.length) :
    Honest (match parent s.host task with
      | some listener => { s with read := Function.update s.read task (s.read task ++ [data]) }.send
          listener (.tunnelData (s.host.idOf task) data)
      | none => { s with read := Function.update s.read task (s.read task ++ [data]) }) := by
  have hother : ∀ task', task' ≠ task →
      Function.update s.read task (s.read task ++ [data]) task' = s.read task' :=
    fun task' hne => Function.update_of_ne hne _ _
  have hunread : ∀ task', s.host.spawned.length ≤ task' →
      Function.update s.read task (s.read task ++ [data]) task' = s.read task' :=
    fun task' hle => hother task' (by omega)
  cases hp : parent s.host task with
  | some listener =>
    have ht := mem_accepted_of_parent h hp
    refine h.send (h.lt_of_accepted ht).1 nofun rfl (fun other hne task' ht' => ?_) hunread
      (fun task' ht' => ?_) fun _ _ _ _ => rfl
    · refine hother task' ?_
      rintro rfl
      exact hne (h.eq_of_accepted ht ht')
    · by_cases heq : task' = task
      · subst heq
        have hself : Function.update s.read task' (s.read task' ++ [data]) task' =
            s.read task' ++ [data] := Function.update_self _ _ _
        refine .inr ⟨hrunning, hself.trans ?_⟩
        rw [dataOf, if_pos rfl]
        rfl
      · refine .inl ⟨if_neg fun hid => heq (h.idOf_inj ht' ht hid.symm), hother task' heq⟩
  | none =>
    have hnone : ∀ listener, task ∉ s.accepted listener := by
      intro listener ht
      obtain ⟨id, id', -, hspawned⟩ := h.accepted listener task ht
      rw [parent, hspawned] at hp
      cases hp
    refine ⟨h.accepted, h.complete, h.distinct,
      fun task' hle => (hunread task' hle).trans (h.unread task' hle), h.silent, h.serving,
      fun listener => (h.told listener).congr (fun _ _ => rfl) (fun task' ht' => hother task' ?_)
        fun _ _ h => h⟩
    rintro rfl
    exact hnone listener ht'

/-- A listener accepts a connection. -/
theorem Honest.acceptHost (h : Honest s) (hfresh : s.host.Fresh) {listener : Nat} {host : String}
    {port : UInt16} {host' : TunnelState}
    (hstep : s.host.step (.accept listener host port) = some host') :
    Honest { tell socketAddr s (.accept listener host port) with host := host' } := by
  have hf := TunnelState.follows_step hstep
  rw [TunnelState.step] at hstep
  split_ifs at hstep with hguard
  obtain ⟨hlistener, hphase⟩ := (Bool.and_eq_true _ _).mp hguard
  have hspawned := TunnelState.spawned_of_isListener hlistener
  have hserving : s.host.isServing listener = true := by
    rw [TunnelState.isServing, eq_of_beq hphase]
  have hnew : host'.spawned = s.host.spawned ++ [⟨s.host.nextId, .connection (some listener)⟩] := by
    cases hstep
    rfl
  have hidNew : host'.idOf s.host.spawned.length = s.host.nextId := by
    rw [TunnelState.idOf, hnew, List.getElem?_concat_length]
  clear hstep
  have hlt : listener < s.host.spawned.length := (List.getElem?_eq_some_iff.1 hspawned).1
  have hopen : .tunnelClosed (s.host.idOf listener) ∉ s.sent listener := by
    intro hclosed
    rw [h.serving listener hclosed] at hserving
    cases hserving
  have hids : ∀ n < s.host.spawned.length, s.host.idOf n ≠ s.host.nextId := by
    intro n hn
    have ht : s.host.spawned[n]? = some s.host.spawned[n] := List.getElem?_eq_getElem hn
    rw [TunnelState.idOf_of_spawned ht]
    exact hfresh _ (List.getElem_mem hn)
  let s' : ReverseTunnels := { tell socketAddr s (.accept listener host port) with host := host' }
  have haccepted : s'.accepted listener = s.accepted listener ++ [s.host.spawned.length] :=
    Function.update_self _ _ _
  have hsent : s'.sent listener = s.sent listener ++ [.tunnelIncoming (s.host.idOf listener)
      s.host.nextId (some (socketAddr host port))] := Function.update_self _ _ _
  have hacceptedOther : ∀ other, other ≠ listener → s'.accepted other = s.accepted other :=
    fun other hne => Function.update_of_ne hne _ _
  have hsentOther : ∀ other, other ≠ listener → s'.sent other = s.sent other :=
    fun other hne => Function.update_of_ne hne _ _
  have hself : s'.host.spawned[s.host.spawned.length]? =
      some ⟨s.host.nextId, .connection (some listener)⟩ := by
    show host'.spawned[s.host.spawned.length]? = _
    rw [hnew, List.getElem?_concat_length]
  show Honest s'
  refine ⟨fun other task ht => ?_, fun task id other ht => ?_, fun other => ?_, fun task hle => ?_,
    fun other hle => ?_, fun other hclosed => ?_, fun other => ?_⟩
  · by_cases heq : other = listener
    · subst heq
      rw [haccepted] at ht
      rcases List.mem_append.1 ht with hold | hlast
      · obtain ⟨id, id', hl, ht⟩ := h.accepted other task hold
        exact ⟨id, id', hf.getElem? hl, hf.getElem? ht⟩
      · obtain rfl := List.mem_singleton.1 hlast
        exact ⟨_, _, hf.getElem? hspawned, hself⟩
    · rw [hacceptedOther other heq] at ht
      obtain ⟨id, id', hl, ht⟩ := h.accepted other task ht
      exact ⟨id, id', hf.getElem? hl, hf.getElem? ht⟩
  · have ht' : (s.host.spawned ++ [⟨s.host.nextId, .connection (some listener)⟩])[task]? =
        some ⟨id, .connection (some other)⟩ := hnew ▸ ht
    rw [List.getElem?_append] at ht'
    split_ifs at ht' with hold
    · have hmem := h.complete task id other ht'
      by_cases heq : other = listener
      · subst heq
        rw [haccepted]
        exact List.mem_append_left _ hmem
      · rwa [hacceptedOther other heq]
    · obtain ⟨hzero, hlast⟩ := List.getElem?_eq_some_iff.1 ht'
      have htask : task = s.host.spawned.length := by
        rw [List.length_singleton] at hzero
        omega
      have hlast' := (List.mem_singleton.1 (List.mem_of_getElem? ht')).symm
      have hother : other = listener := by
        cases hlast'
        rfl
      rw [hother, haccepted, htask]
      exact List.mem_append_right _ List.mem_cons_self
  · have hdistinct := h.distinct_host hf other
    by_cases heq : other = listener
    · subst heq
      show (host'.idOf other :: (s'.accepted other).map host'.idOf).Nodup
      rw [haccepted, List.map_append, ← List.cons_append]
      refine List.nodup_append.2 ⟨hdistinct, List.nodup_singleton _, fun id hid id' hid' => ?_⟩
      obtain rfl : id' = s.host.nextId := (List.mem_singleton.1 hid').trans hidNew
      rcases List.mem_cons.1 hid with rfl | hid
      · rw [hf.idOf hlt]
        exact hids other hlt
      · obtain ⟨task, ht, rfl⟩ := List.mem_map.1 hid
        rw [hf.idOf (h.lt_of_accepted ht).2]
        exact hids task (h.lt_of_accepted ht).2
    · show (host'.idOf other :: (s'.accepted other).map host'.idOf).Nodup
      rwa [hacceptedOther other heq]
  · exact h.unread task (Nat.le_trans hf.spawned.length_le hle)
  · have hle' := Nat.le_trans hf.spawned.length_le hle
    rw [hsentOther other (by omega)]
    exact h.silent other hle'
  · by_cases heq : other = listener
    · subst heq
      have hclosed' : .tunnelClosed (host'.idOf other) ∈ s'.sent other := hclosed
      rw [hsent, hf.idOf hlt] at hclosed'
      simp [hopen] at hclosed'
    · rw [hsentOther other heq] at hclosed
      exact h.serving_host hf hclosed
  · by_cases heq : other = listener
    · subst heq
      show s'.Told (host'.idOf other) (s'.accepted other) (s'.sent other)
      rw [haccepted, hsent, hf.idOf hlt]
      exact (h.told other).accept hopen
        (fun m hm => ⟨hf.idOf (h.lt_of_accepted hm).2, hids m (h.lt_of_accepted hm).2⟩)
        (fun _ _ => rfl) hidNew (h.unread _ (Nat.le_refl _))
        fun m hm => hf.running m (h.lt_of_accepted hm).2
    · rw [hacceptedOther other heq, hsentOther other heq]
      exact h.told_host hf fun _ _ => rfl

theorem follows_of_quiet {e : TunnelEvent} {host host' : TunnelState}
    (hstep : host.step e = some host')
    (he : ∀ listener h port, e ≠ .accept listener h port) :
    TunnelState.Follows (fun kind => ∀ l, kind ≠ .connection (some l)) host host' := by
  have hf := TunnelState.follows_step hstep
  refine ⟨hf.spawned, fun n t ht => (hf.born n t ht).imp id fun hnew l hkind => ?_, hf.running,
    hf.serving⟩
  obtain ⟨h, port, heq⟩ := hnew l hkind
  exact he l h port heq

/-- A listener has ended, and says so. -/
theorem Honest.acceptFails (h : Honest s) {listener : Nat} {host' : TunnelState}
    (hstep : s.host.step (.acceptFails listener false) = some host') :
    Honest { tell socketAddr s (.acceptFails listener false) with host := host' } := by
  have hf := follows_of_quiet hstep nofun
  have hmoved := h.host hf
  by_cases hguard : (s.host.isListener listener &&
      (s.host.listeners listener).phase == .accepting) = true
  case neg =>
    rw [TunnelState.step, if_neg hguard] at hstep
    cases hstep
  rw [TunnelState.step, if_pos hguard] at hstep
  have hspawned := TunnelState.spawned_of_isListener ((Bool.and_eq_true _ _).mp hguard).1
  have hlt : listener < s.host.spawned.length := (List.getElem?_eq_some_iff.1 hspawned).1
  have hended : host'.isServing listener = false := by
    cases hstep
    simp [TunnelState.isServing, TunnelState.setListener, TunnelState.reply]
  have hsend := @Honest.send _ hmoved listener (.tunnelClosed (host'.idOf listener)) s.read
    (Nat.lt_of_lt_of_le hlt hf.spawned.length_le) (fun _ => hended) (if_pos rfl)
    (fun _ _ _ _ => rfl) (fun _ _ => rfl) (fun _ _ => .inl ⟨if_pos (.inr rfl), rfl⟩) fun hne => absurd rfl hne
  rw [hf.idOf hlt] at hsend
  exact hsend

/-- A connection has ended. -/
theorem Honest.connectionEnds (h : Honest s) {task : Nat} {host' : TunnelState}
    (hstep : s.host.step (.connectionEnds task) = some host') :
    Honest { tell socketAddr s (.connectionEnds task) with host := host' } := by
  have hf := follows_of_quiet hstep nofun
  have hmoved := h.host hf
  have hended : (host'.connections task).phase ≠ .running := by
    rw [TunnelState.step] at hstep
    split_ifs at hstep
    cases hstep
    simp [TunnelState.setConnection, TunnelState.reply]
  cases hp : parent s.host task with
  | none =>
    have htell : tell socketAddr s (.connectionEnds task) = s := by rw [tell, hp]
    rw [htell]
    exact hmoved
  | some listener =>
    have htell : tell socketAddr s (.connectionEnds task) =
        s.send listener (.tunnelClosed (s.host.idOf task)) := by rw [tell, hp]
    have ht := mem_accepted_of_parent h hp
    obtain ⟨hlt, hlt'⟩ := h.lt_of_accepted ht
    have hne : host'.idOf task ≠ host'.idOf listener := hmoved.idOf_ne ht
    have hsend := @Honest.send _ hmoved listener (.tunnelClosed (host'.idOf task)) s.read
      (Nat.lt_of_lt_of_le hlt hf.spawned.length_le)
      (fun heq => absurd (TunnelResponse.tunnelClosed.inj heq) hne) (if_neg hne)
      (fun _ _ _ _ => rfl) (fun _ _ => rfl)
      (fun task' _ => .inl ⟨by rw [dataOf]; split_ifs <;> rfl, rfl⟩)
      fun _ task' ht' hphase => by
        have hne' : host'.idOf task ≠ host'.idOf task' := by
          intro heq
          rw [← hmoved.idOf_inj ht ht' heq] at hphase
          exact hended hphase
        simp [isEnd, hne, hne']
    rw [hf.idOf hlt'] at hsend
    rw [htell]
    exact hsend

theorem Honest.step (h : Honest s) {e : ReverseEvent} (he : s.Orderly e)
    (hstep : s.step socketAddr e = some s') : Honest s' := by
  cases e with
  | read task data =>
    rw [ReverseTunnels.step] at hstep
    split_ifs at hstep with hguard
    have hlt : task < s.host.spawned.length := by
      obtain ⟨parent, hspawned⟩ := TunnelState.spawned_of_isConnection hguard.1
      exact (List.getElem?_eq_some_iff.1 hspawned).1
    have hread := @Honest.read s h task data hguard.2.1 hlt
    dsimp only at hstep
    split at hstep
    · next listener hp =>
      cases hstep
      rw [hp] at hread
      exact hread
    · next hp =>
      cases hstep
      rw [hp] at hread
      exact hread
  | host e =>
    obtain ⟨host', hhost, rfl⟩ := Option.map_eq_some_iff.1 hstep
    cases e with
    | accept listener host port => exact h.acceptHost he hhost
    | acceptFails listener drawn =>
      cases drawn with
      | true => exact h.host (follows_of_quiet hhost nofun)
      | false => exact h.acceptFails hhost
    | connectionEnds task => exact h.connectionEnds hhost
    | request | take | finish | register | drain | sendRemove | cancel =>
      exact h.host (follows_of_quiet hhost nofun)

theorem honest_new : Honest new where
  accepted := nofun
  complete _ _ _ h := by simp [new, TunnelState.new] at h
  distinct _ := List.nodup_singleton _
  unread _ _ := rfl
  silent _ _ := rfl
  serving := nofun
  told listener := told_nil new _

theorem honest_of_run {es : List ReverseEvent}
    (hfresh : Machine.Meeting (step socketAddr) Orderly es new)
    (hrun : Machine.run (step socketAddr) es new = some s) : Honest s :=
  Machine.invariant (fun _ _ _ h he hstep => h.step he hstep) honest_new hfresh hrun

/-! ## From end to end -/

theorem flat_single (responses : List TunnelResponse) :
    RemoteTunnelListener.flat (responses.map .single) = responses := by
  induction responses with
  | nil => rfl
  | cons r responses ih => exact congrArg (r :: ·) ih

/-- A listener accepts a connection, which sends something and ends. -/
def oneConnection : List ReverseEvent :=
  [.host (.request (.listening 0 "::" 0)), .host .take, .host (.finish (.ok 80)),
    .host (.accept 0 "peer" 9), .read 1 [10], .host (.register 0), .host (.connectionEnds 1)]

/-- The client reads it to its end. -/
def oneReader : List RemoteListenerEvent :=
  .listen :: List.replicate 9 .task ++ [.next, .read 0, .read 0]

end ReverseTunnels

end Distant
