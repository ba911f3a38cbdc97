import Distant.Lib.Owned
import Distant.Manager.Tunnels

/-!
# A kill closes the channels of its connection

The manager's table of channels and the registrations in each connection's action task are kept in
step by the lock on the connections, and by the queue of the action task: whatever is put there
before a kill asks for the registered channels is done by then.

`closesOwn_of_run` says that in every run in which no channel id is drawn that is registered with
a connection already, a kill closes exactly the channels of its connection, and requests do not
wait for one another forever. The steps are sorted by what they do to the tables (`Effect`), and
what they keep is in three parts: who has locked the connections (`Locks`), that the connections run
(`Care`), and that the channels are registered once (`InStep`).
-/

namespace Distant

/-! ## What a queue of actions comes to -/

/-- Whether a channel is registered after an action. -/
def Action.leaves {ρ : Type} (id : ManagerChannelId) (registered : Bool) : Action ρ → Bool
  | .register id' _ => if id' = id then true else registered
  | .unregister id' => if id' = id then false else registered
  | _ => registered

namespace ManagerConnection

variable {ρ : Type}

def isRegistered (n : ManagerConnection ρ) (id : ManagerChannelId) : Bool :=
  (n.registered.lookup id).isSome

/-- The channel is registered when all actions of the queue are done. -/
def Registers (n : ManagerConnection ρ) (id : ManagerChannelId) : Prop :=
  n.actions.foldl (Action.leaves id) (n.isRegistered id) = true

/-- The task has been asked for nothing, and runs. -/
structure Unasked (n : ManagerConnection ρ) : Prop where
  runs : n.aborted = false
  answered : n.answered = []
  actions : ∀ cb, .getRegistered cb ∉ n.actions

/-- The answer to `cb` has been given, or is on its way behind some actions, and it has all channels
of `must` and only those of `may`. -/
inductive Answers (n : ManagerConnection ρ) (cb : Nat) (must may : ManagerChannelId → Prop) : Prop
  | waiting (before after : List (Action ρ)) (hq : n.actions = before ++ .getRegistered cb :: after)
      (hnone : ∀ cb', .getRegistered cb' ∉ before) (ha : n.answered = [])
      (hmust : ∀ id, must id → before.foldl (Action.leaves id) (n.isRegistered id) = true)
      (hmay : ∀ id, before.foldl (Action.leaves id) (n.isRegistered id) = true → may id)
  | given (ids : List ManagerChannelId) (ha : n.answered.lookup cb = some ids)
      (hmust : ∀ id, must id → id ∈ ids) (hmay : ∀ id ∈ ids, may id)

theorem Answers.mono {n : ManagerConnection ρ} {cb : Nat}
    {must may must' may' : ManagerChannelId → Prop} (h : n.Answers cb must may)
    (hmust : ∀ id, must' id → must id) (hmay : ∀ id, may id → may' id) :
    n.Answers cb must' may' := by
  cases h with
  | waiting before after hq hnone ha hmust' hmay' =>
      exact .waiting before after hq hnone ha (fun id h => hmust' id (hmust id h))
        fun id h => hmay id (hmay' id h)
  | given ids ha hmust' hmay' =>
      exact .given ids ha (fun id h => hmust' id (hmust id h)) fun id h => hmay id (hmay' id h)

theorem isRegistered_actionTask (n : ManagerConnection ρ) (a : Action ρ) (id : ManagerChannelId) :
    (n.actionTask a).isRegistered id = a.leaves id (n.isRegistered id) := by
  cases a with
  | register id' reply =>
      show ((n.registered.insert id' reply).lookup id).isSome =
        if id' = id then true else (n.registered.lookup id).isSome
      by_cases h : id' = id
      · subst h
        simp
      · rw [if_neg h, AList.lookup_insert_ne (Ne.symm h)]
  | unregister id' =>
      show ((n.registered.erase id').lookup id).isSome =
        if id' = id then false else (n.registered.lookup id).isSome
      by_cases h : id' = id
      · subst h
        simp
      · rw [if_neg h, AList.lookup_erase_ne (Ne.symm h)]
  | getRegistered cb => rfl
  | read res =>
      show (n.read res).isRegistered id = n.isRegistered id
      rcases n.read_cases res with h | ⟨c, reply, oid, -, h⟩
      · rw [h]
      · rw [h]
        rfl
  | write id' req => rfl

theorem registers_enqueue {n : ManagerConnection ρ} (hruns : n.aborted = false) (a : Action ρ)
    (id : ManagerChannelId) :
    (n.enqueue a).Registers id ↔
      a.leaves id (n.actions.foldl (Action.leaves id) (n.isRegistered id)) = true := by
  unfold Registers enqueue
  rw [hruns]
  simp only [Bool.false_eq_true, if_false, List.foldl_append, List.foldl_cons, List.foldl_nil]
  rfl

theorem registers_enqueue_of_leaves (n : ManagerConnection ρ) {a : Action ρ}
    (ha : ∀ id registered, a.leaves id registered = registered) (id : ManagerChannelId) :
    (n.enqueue a).Registers id ↔ n.Registers id := by
  cases hruns : n.aborted with
  | true =>
      unfold enqueue
      rw [hruns]
      rfl
  | false =>
      rw [registers_enqueue hruns, ha]
      rfl

theorem registers_register {n : ManagerConnection ρ} (hruns : n.aborted = false)
    {id id' : ManagerChannelId} {reply : ρ} :
    (n.enqueue (.register id' reply)).Registers id ↔ id' = id ∨ n.Registers id := by
  rw [registers_enqueue hruns]
  show (if id' = id then true else _) = true ↔ _
  split
  · next heq => exact ⟨fun _ => .inl heq, fun _ => rfl⟩
  · next hne => exact (or_iff_right hne).symm

theorem registers_unregister (n : ManagerConnection ρ) {id id' : ManagerChannelId}
    (hne : id' ≠ id) : (n.enqueue (.unregister id')).Registers id ↔ n.Registers id := by
  cases hruns : n.aborted with
  | true =>
      unfold enqueue
      rw [hruns]
      rfl
  | false =>
      rw [registers_enqueue hruns]
      show (if id' = id then false else _) = true ↔ _
      rw [if_neg hne]
      rfl

/-- Nothing is registered by taking a registration away. -/
theorem registers_of_unregister {n : ManagerConnection ρ} {id id' : ManagerChannelId}
    (h : (n.enqueue (.unregister id')).Registers id) : n.Registers id := by
  by_cases heq : id' = id
  · cases hruns : n.aborted with
    | true =>
        unfold enqueue at h
        rwa [hruns] at h
    | false =>
        rw [registers_enqueue hruns] at h
        have hfalse : (if id' = id then false else _) = true := h
        rw [if_pos heq] at hfalse
        cases hfalse
  · exact (n.registers_unregister heq).1 h

/-- One turn of the action task. -/
theorem act_cases {n n' : ManagerConnection ρ} (h : n.step .act = some n') :
    n.aborted = false ∧ ∃ a rest, n.actions = a :: rest ∧
      n' = actionTask { n with actions := rest, processed := n.processed ++ [a] } a := by
  simp only [step] at h
  split at h
  · cases h
  · next a rest hq =>
      split at h
      · cases h
      · next hruns =>
          cases h
          exact ⟨by simpa using hruns, a, rest, hq, rfl⟩

/-- Whoever waits for an answer can go on waiting. -/
structure Serves (n n' : ManagerConnection ρ) : Prop where
  aborted : n'.aborted = n.aborted
  unasked : n.Unasked → n'.Unasked
  answers : ∀ {cb must may}, n.Answers cb must may → n'.Answers cb must may

theorem Serves.refl (n : ManagerConnection ρ) : n.Serves n := ⟨rfl, id, id⟩

/-- And the same channels are registered. -/
structure Keeps (n n' : ManagerConnection ρ) : Prop extends n.Serves n' where
  registers : ∀ id, n'.Registers id ↔ n.Registers id

theorem serves_enqueue (n : ManagerConnection ρ) {a : Action ρ}
    (hask : ∀ cb, a ≠ .getRegistered cb) : n.Serves (n.enqueue a) where
  aborted := by
    unfold enqueue
    split <;> rfl
  unasked h := by
    have heq : n.enqueue a = { n with actions := n.actions ++ [a] } := by
      rw [enqueue, h.runs]
      rfl
    rw [heq]
    refine ⟨h.runs, h.answered, fun cb hm => ?_⟩
    rcases List.mem_append.mp hm with hm | hm
    · exact h.actions cb hm
    · exact hask cb (List.mem_singleton.mp hm).symm
  answers h := by
    unfold enqueue
    split
    · exact h
    · cases h with
      | waiting before after hq hnone ha hmust hmay =>
          refine .waiting before (after ++ [a]) ?_ hnone ha hmust hmay
          show n.actions ++ [a] = _
          rw [hq, List.append_assoc]
          rfl
      | given ids ha hmust hmay => exact .given ids ha hmust hmay

theorem keeps_enqueue (n : ManagerConnection ρ) {a : Action ρ}
    (ha : ∀ id registered, a.leaves id registered = registered)
    (hask : ∀ cb, a ≠ .getRegistered cb) : n.Keeps (n.enqueue a) where
  toServes := n.serves_enqueue hask
  registers := n.registers_enqueue_of_leaves ha

theorem actionTask_answered (n : ManagerConnection ρ) (a : Action ρ) :
    (n.actionTask a).answered = n.answered ++
      match a with
      | .getRegistered cb => [(cb, n.registered.keys)]
      | _ => [] := by
  cases a with
  | register id reply => exact (List.append_nil _).symm
  | unregister id => exact (List.append_nil _).symm
  | getRegistered cb => rfl
  | write id req => exact (List.append_nil _).symm
  | read res =>
      show (n.read res).answered = n.answered ++ []
      rw [List.append_nil]
      rcases n.read_cases res with heq | ⟨_, _, _, -, heq⟩
      · rw [heq]
      · rw [heq]

theorem keeps_act {n n' : ManagerConnection ρ} (h : n.step .act = some n') : n.Keeps n' := by
  obtain ⟨hruns, a, rest, hq, rfl⟩ := act_cases h
  generalize hn : ({ n with actions := rest, processed := n.processed ++ [a] } :
    ManagerConnection ρ) = m
  have hregistered (id : ManagerChannelId) :
      (m.actionTask a).isRegistered id = a.leaves id (n.isRegistered id) := by
    rw [isRegistered_actionTask, ← hn]
    rfl
  have hactions : (m.actionTask a).actions = rest := by
    rw [(actionTask_queue m a).2.1, ← hn]
  have haborted : (m.actionTask a).aborted = n.aborted := by
    rw [(actionTask_queue m a).2.2, ← hn]
  have hanswered := actionTask_answered m a
  have hm : m.answered = n.answered ∧ m.registered = n.registered := by
    rw [← hn]
    exact ⟨rfl, rfl⟩
  rw [hm.1, hm.2] at hanswered
  have hother (hask : ∀ cb, a ≠ .getRegistered cb) : (m.actionTask a).answered = n.answered := by
    rw [hanswered]
    cases a with
    | getRegistered cb => exact absurd rfl (hask cb)
    | register id reply => exact List.append_nil _
    | unregister id => exact List.append_nil _
    | read res => exact List.append_nil _
    | write id req => exact List.append_nil _
  refine ⟨⟨haborted, fun hu => ?_, fun hans => ?_⟩, fun id => ?_⟩
  · have hask (cb : Nat) : a ≠ .getRegistered cb := by
      rintro rfl
      exact hu.actions cb (by rw [hq]; exact List.mem_cons_self)
    refine ⟨haborted.trans hu.runs, (hother hask).trans hu.answered, fun cb hmem => ?_⟩
    rw [hactions] at hmem
    exact hu.actions cb (by rw [hq]; exact List.mem_cons_of_mem _ hmem)
  · cases hans with
    | waiting before after hq' hnone ha hmust hmay =>
        rw [hq] at hq'
        cases before with
        | nil =>
            -- this is the turn that answers
            obtain ⟨rfl, rfl⟩ := List.cons.inj hq'
            have hmem (id : ManagerChannelId) :
                id ∈ n.registered.keys ↔ n.isRegistered id = true := by
              rw [isRegistered, AList.lookup_isSome]
              exact Iff.rfl
            refine .given n.registered.keys ?_ (fun id hid => (hmem id).2 (hmust id hid))
              fun id hid => hmay id ((hmem id).1 hid)
            rw [hanswered, ha]
            simp
        | cons first before =>
            obtain ⟨rfl, hrest⟩ := List.cons.inj hq'
            have hask (cb : Nat) : a ≠ .getRegistered cb := by
              rintro rfl
              exact hnone cb List.mem_cons_self
            refine .waiting before after (hactions.trans hrest)
              (fun cb' hc => hnone cb' (List.mem_cons_of_mem _ hc)) ((hother hask).trans ha) ?_ ?_
            · intro id hid
              rw [hregistered]
              exact hmust id hid
            · intro id hid
              rw [hregistered] at hid
              exact hmay id hid
    | given ids ha hmust hmay =>
        refine .given ids ?_ hmust hmay
        rw [hanswered, List.lookup_append, ha]
        rfl
  · unfold Registers
    rw [hactions, hregistered, hq, List.foldl_cons]

theorem keeps_fire {n n' : ManagerConnection ρ} (h : n.step .fire = some n') : n.Keeps n' := by
  simp only [step] at h
  split at h
  · cases h
  · split at h
    · cases h
    · cases h
      refine ⟨⟨rfl, fun hu => ⟨hu.runs, hu.answered, hu.actions⟩, fun hans => ?_⟩, fun id => .rfl⟩
      cases hans with
      | waiting before after hq hnone ha hmust hmay =>
          exact .waiting before after hq hnone ha hmust hmay
      | given ids ha hmust hmay => exact .given ids ha hmust hmay

theorem keeps_respond {n n' : ManagerConnection ρ} {res : UntypedResponse}
    (h : n.step (.respond res) = some n') : n.Keeps n' := by
  simp only [step] at h
  split at h
  · cases h
  · cases h
    exact n.keeps_enqueue (fun _ _ => rfl) (by rintro cb ⟨⟩)

end ManagerConnection

/-! ## Who holds which channel -/

/-- The channel that the task is about to put into a table, or holds for a tunnel. -/
def Task.channel : Task → Option ManagerChannel
  | .registering channel => some channel
  | .starting _ channel => some channel
  | .storing tunnel _ => some tunnel.managerChannel
  | _ => none

/-- Neither in the way of others, nor a holder of anything. -/
def Task.Idle (task : Option Task) : Prop :=
  task.bind Task.channel = none ∧ task.bind Task.taken = none

/-- The task draws a channel id when it goes on. -/
def Task.Draws : Option Task → Prop
  | some (.openingChannel _) => True
  | some (.tunnelling _) => True
  | _ => False

/-- The task waits for nothing from outside, and does not go on to do so. -/
def Task.Waits : Task → Prop
  | .launching => False
  | .connecting _ _ => False
  | .tunnelling _ => False
  | .starting _ _ => False
  | _ => True

inductive Holder where
  | channel (id : ManagerChannelId)
  | task (r : Nat)
  | tunnel (id : ManagedTunnelId)

namespace ManagerServer

def held (s : ManagerServer) : Holder → Option ManagerChannel
  | .channel id => s.channels.lookup id
  | .task r => (s.tasks r).bind Task.channel
  | .tunnel id => (s.managedTunnels.lookup id).map (·.managerChannel)

/-- The channel is registered with its connection when all of its queue is done. -/
def Registered (s : ManagerServer) (channel : ManagerChannel) : Prop :=
  (s.actors channel.serial).Registers channel.channelId

/-- The tasks of the connection run. -/
def Live (s : ManagerServer) (channel : ManagerChannel) : Prop :=
  (s.actors channel.serial).aborted = false

/-- A holder for a client: the table, or the task that is about to insert the channel there. -/
def HeldForClient (s : ManagerServer) (channel : ManagerChannel) : Prop :=
  s.channels.lookup channel.channelId = some channel ∨
    ∃ r, s.tasks r = some (.registering channel)

/-! ## What a step may do -/

/-- Nothing changes but the responses, and the next id of a tunnel. -/
def Same (s s' : ManagerServer) : Prop :=
  ∃ n replies, s' = { s with nextManagedTunnelId := n, replies := replies }

def setTask (s : ManagerServer) (r : Nat) (task : Option Task) : ManagerServer :=
  { s with tasks := Function.update s.tasks r task }

inductive Effect (s : ManagerServer) : ManagerEvent → ManagerServer → Prop
  | idle {e : ManagerEvent} (r : Nat) (task : Option Task) (h : Task.Idle (s.tasks r))
      (h' : Task.Idle task) : Effect s e (s.setTask r task)
  | insert {r : Nat} {draw : ManagerChannelId} {id : ConnectionId} {destination options : String}
      (h : s.tasks r = some (.inserting id destination options)) (hw : s.writer = none)
      (hr : s.readers = []) :
      Effect s (.turn r draw) ((s.insertConnection id destination options).setTask r none)
  | openChannel {r : Nat} {draw : ManagerChannelId} {id : ConnectionId} {c : ManagedConnection}
      (h : s.tasks r = some (.openingChannel id)) (hw : s.writer = none)
      (hc : s.connections.lookup id = some c) :
      Effect s (.turn r draw) ({ s.act c.serial (.register draw (.request r)) with
        readers := r :: s.readers }.setTask r (some (.registering ⟨draw, c.serial⟩)))
  | register {r : Nat} {draw : ManagerChannelId} {channel : ManagerChannel}
      (h : s.tasks r = some (.registering channel)) :
      Effect s (.turn r draw) ({ s with
        readers := s.readers.erase r
        channels := s.channels.insert channel.channelId channel }.setTask r none)
  | send {r : Nat} {draw : ManagerChannelId} {id : ManagerChannelId} {request : UntypedRequest}
      {channel : ManagerChannel} (h : s.tasks r = some (.sending id request)) :
      Effect s (.turn r draw)
        ((s.act channel.serial (.write channel.channelId request)).setTask r none)
  | closeChannel {r : Nat} {draw : ManagerChannelId} {id : ManagerChannelId}
      {channel : ManagerChannel} (h : s.tasks r = some (.closingChannel id))
      (hc : s.channels.lookup id = some channel) :
      Effect s (.turn r draw)
        (({ s with channels := s.channels.erase id }.closeChannel channel).setTask r none)
  | take {r : Nat} {draw : ManagerChannelId} {id : ConnectionId} {c : ManagedConnection}
      (h : s.tasks r = some (.killing id)) (hw : s.writer = none) (hr : s.readers = [])
      (hc : s.connections.lookup id = some c) :
      Effect s (.turn r draw) (({ s with
        connections := s.connections.erase id
        writer := some r }.act c.serial (.getRegistered r)).setTask r (some (.asking id c)))
  | answer {r : Nat} {draw : ManagerChannelId} {id : ConnectionId} {c : ManagedConnection}
      {ids : List ManagerChannelId} (h : s.tasks r = some (.asking id c))
      (ha : (s.actors c.serial).answered.lookup r = some ids) :
      Effect s (.turn r draw) (s.setTask r (some (.closing id c ids)))
  | skip {r : Nat} {draw : ManagerChannelId} {id : ConnectionId} {c : ManagedConnection}
      (h : s.tasks r = some (.asking id c)) (ha : (s.actors c.serial).aborted = true) :
      Effect s (.turn r draw) (s.setTask r (some (.sweeping id c)))
  | close {r : Nat} {draw : ManagerChannelId} {id : ConnectionId} {c : ManagedConnection}
      {ids : List ManagerChannelId} (h : s.tasks r = some (.closing id c ids)) :
      Effect s (.turn r draw) ((closeChannels ids s).setTask r (some (.sweeping id c)))
  | sweep {r : Nat} {draw : ManagerChannelId} {id : ConnectionId} {c : ManagedConnection}
      (h : s.tasks r = some (.sweeping id c)) :
      Effect s (.turn r draw) ({ (abortTunnels (s.tunnelIds id) s).abort c.serial with
        writer := none
        killed := c.serial :: (abortTunnels (s.tunnelIds id) s).killed }.setTask r none)
  | openTunnel {r : Nat} {draw : ManagerChannelId} {setup : TunnelSetup} {c : ManagedConnection}
      (h : s.tasks r = some (.tunnelling setup)) (hw : s.writer = none)
      (hc : s.connections.lookup setup.connectionId = some c) :
      Effect s (.turn r draw) ((s.act c.serial (.register draw .internal)).setTask r
        (some (.starting setup ⟨draw, c.serial⟩)))
  | start {e : ManagerEvent} {r : Nat} {setup : TunnelSetup} {channel : ManagerChannel}
      {tunnel : ManagedTunnel} {port : UInt16} (h : s.tasks r = some (.starting setup channel))
      (ht : tunnel.managerChannel = channel) :
      Effect s e (s.setTask r (some (.storing tunnel port)))
  | giveUp {e : ManagerEvent} {r : Nat} {setup : TunnelSetup} {channel : ManagerChannel}
      (h : s.tasks r = some (.starting setup channel)) : Effect s e (s.setTask r none)
  | store {r : Nat} {draw : ManagerChannelId} {tunnel : ManagedTunnel} {port : UInt16}
      (h : s.tasks r = some (.storing tunnel port)) :
      Effect s (.turn r draw) ({ s with
        managedTunnels := s.managedTunnels.insert tunnel.id tunnel }.setTask r none)
  | closeTunnel {r : Nat} {draw : ManagerChannelId} {id : ManagedTunnelId} {tunnel : ManagedTunnel}
      (h : s.tasks r = some (.closingTunnel id))
      (ht : s.managedTunnels.lookup id = some tunnel) :
      Effect s (.turn r draw)
        (({ s with managedTunnels := s.managedTunnels.erase id }.closeChannel
          tunnel.managerChannel).setTask r none)
  | work {serial : Nat} {event : ConnectionEvent ManagerReply} {n : ManagerConnection ManagerReply}
      (h : (s.actors serial).Keeps n) :
      Effect s (.connection serial event) { s with actors := Function.update s.actors serial n }

theorem idle_onRequest (request : ManagerRequest) : Task.Idle (some (onRequest request)) := by
  cases request <;> exact ⟨rfl, rfl⟩

theorem act_aborted {s : ManagerServer} {serial : Nat} (h : s.isAborted serial = true)
    (a : Action ManagerReply) : s.act serial a = s := by
  have hn : (s.actors serial).enqueue a = s.actors serial := by
    unfold ManagerConnection.enqueue
    rw [show (s.actors serial).aborted = true from h]
    rfl
  unfold act
  rw [hn, Function.update_eq_self]

theorem turn_effect {s s' : ManagerServer} {r : Nat} {draw : ManagerChannelId} {task : Task}
    (htask : s.tasks r = some task) (h : s.turn r draw task = some s') :
    ∃ s'', Effect s (.turn r draw) s'' ∧ Same s'' s' := by
  have hidle (hi : Task.Idle (some task)) (response : ManagerResponse) :
      ∃ s'', Effect s (.turn r draw) s'' ∧ Same s'' (s.reply r response) :=
    ⟨_, .idle r none (by rw [htask]; exact hi) ⟨rfl, rfl⟩, _, _, rfl⟩
  have hwriter (hw : ¬s.writer.isSome = true) : s.writer = none := by simpa using hw
  have hfree (hf : ¬(s.writer.isSome || !s.readers.isEmpty) = true) :
      s.writer = none ∧ s.readers = [] := by simpa using hf
  cases task with
  | launching => cases h
  | connecting destination options => cases h
  | inserting id destination options =>
      simp only [turn] at h
      split at h
      · cases h
      · next hf =>
          cases h
          exact ⟨_, .insert htask (hfree hf).1 (hfree hf).2, _, _, rfl⟩
  | openingChannel id =>
      simp only [turn] at h
      split at h
      · cases h
      · next hw =>
          split at h
          · cases h
            exact hidle ⟨rfl, rfl⟩ _
          · next c hc =>
              split at h <;> cases h
              · exact hidle ⟨rfl, rfl⟩ _
              · exact ⟨_, .openChannel htask (hwriter hw) hc, _, _, rfl⟩
  | registering channel =>
      cases h
      exact ⟨_, .register htask, _, _, rfl⟩
  | sending id request =>
      simp only [turn] at h
      split at h
      · cases h
        exact hidle ⟨rfl, rfl⟩ _
      · split at h <;> cases h
        · exact hidle ⟨rfl, rfl⟩ _
        · exact ⟨_, .send htask, _, _, rfl⟩
  | closingChannel id =>
      simp only [turn] at h
      split at h
      · cases h
        exact hidle ⟨rfl, rfl⟩ _
      · next channel hc =>
          split at h <;> cases h
          · next haborted =>
              have he : Effect s (.turn r draw) _ := .closeChannel htask hc
              rw [closeChannel, act_aborted haborted] at he
              exact ⟨_, he, _, _, rfl⟩
          · exact ⟨_, .closeChannel htask hc, _, _, rfl⟩
  | killing id =>
      simp only [turn] at h
      split at h
      · cases h
      · next hf =>
          split at h
          · cases h
            exact hidle ⟨rfl, rfl⟩ _
          · next c hc =>
              cases h
              exact ⟨_, .take htask (hfree hf).1 (hfree hf).2 hc, _, _, rfl⟩
  | asking id c =>
      simp only [turn] at h
      split at h
      · next ids hids =>
          cases h
          exact ⟨_, .answer htask hids, _, _, rfl⟩
      · split at h <;> cases h
        next haborted => exact ⟨_, .skip htask haborted, _, _, rfl⟩
  | closing id c ids =>
      cases h
      refine ⟨_, .close htask, (closeChannels ids s).nextManagedTunnelId,
        (closeChannels ids s).replies, ?_⟩
      rfl
  | sweeping id c =>
      cases h
      exact ⟨_, .sweep htask, _, _, rfl⟩
  | tunnelling setup =>
      simp only [turn] at h
      split at h
      · cases h
      · next hw =>
          split at h
          · cases h
            exact hidle ⟨rfl, rfl⟩ _
          · next c hc =>
              split at h <;> cases h
              · exact hidle ⟨rfl, rfl⟩ _
              · exact ⟨_, .openTunnel htask (hwriter hw) hc, _, _, rfl⟩
  | starting setup channel => cases h
  | storing tunnel port =>
      cases h
      exact ⟨_, .store htask, _, _, rfl⟩
  | closingTunnel id =>
      simp only [turn] at h
      split at h
      · cases h
        exact hidle ⟨rfl, rfl⟩ _
      · next tunnel ht =>
          cases h
          exact ⟨_, .closeTunnel htask ht, _, _, rfl⟩

theorem step_effect {s s' : ManagerServer} {e : ManagerEvent} (h : s.step e = some s') :
    ∃ s'', Effect s e s'' ∧ Same s'' s' := by
  have hidle {r : Nat} {task : Option Task} (hi : Task.Idle (s.tasks r)) (hi' : Task.Idle task) :
      Effect s e (s.setTask r task) := .idle r task hi hi'
  cases e with
  | request r request =>
      simp only [step] at h
      split at h
      · next hfree =>
          cases h
          exact ⟨_, hidle (by rw [hfree]; exact ⟨rfl, rfl⟩) (idle_onRequest request), _, _, rfl⟩
      · cases h
  | launched r result =>
      simp only [step] at h
      split at h
      · next htask =>
          cases h
          exact ⟨_, hidle (by rw [htask]; exact ⟨rfl, rfl⟩) ⟨rfl, rfl⟩, _, _, rfl⟩
      · next htask =>
          cases h
          exact ⟨_, hidle (by rw [htask]; exact ⟨rfl, rfl⟩) ⟨rfl, rfl⟩, _, _, rfl⟩
      · cases h
  | connected r result =>
      simp only [step] at h
      split at h
      · next htask =>
          cases h
          exact ⟨_, hidle (by rw [htask]; exact ⟨rfl, rfl⟩) ⟨rfl, rfl⟩, _, _, rfl⟩
      · next htask =>
          cases h
          exact ⟨_, hidle (by rw [htask]; exact ⟨rfl, rfl⟩) ⟨rfl, rfl⟩, _, _, rfl⟩
      · cases h
  | started r result =>
      simp only [step] at h
      split at h
      · next setup channel port htask =>
          cases h
          exact ⟨_, .start htask rfl, _, _, rfl⟩
      · next htask =>
          cases h
          exact ⟨_, .giveUp htask, _, _, rfl⟩
      · cases h
  | turn r draw =>
      simp only [step] at h
      split at h
      · cases h
      · next task htask => exact turn_effect htask h
  | connection serial event =>
      cases event with
      | respond res =>
          obtain ⟨n, hn, rfl⟩ := Option.map_eq_some_iff.mp h
          exact ⟨_, .work (ManagerConnection.keeps_respond hn), _, _, rfl⟩
      | act =>
          obtain ⟨n, hn, rfl⟩ := Option.map_eq_some_iff.mp h
          exact ⟨_, .work (ManagerConnection.keeps_act hn), _, _, rfl⟩
      | fire =>
          obtain ⟨n, hn, rfl⟩ := Option.map_eq_some_iff.mp h
          exact ⟨_, .work (ManagerConnection.keeps_fire hn), _, _, rfl⟩
      | openChannel id reply => cases h
      | send id req => cases h
      | close id => cases h
      | channelIds cb => cases h
      | abort => cases h

/-! ## The locks -/

/-- The task has locked the connections for reading. -/
def Reads : Option Task → Prop
  | some (.registering _) => True
  | _ => False

/-- Those that have locked the connections are the tasks that are in the middle of something. -/
structure Locks (readers : List Nat) (writer : Option Nat) (tasks : Nat → Option Task) : Prop where
  nodup : readers.Nodup
  reading : ∀ r, r ∈ readers ↔ Reads (tasks r)
  writing : ∀ r, writer = some r ↔ ((tasks r).bind Task.taken).isSome
  apart : ∀ r, writer = some r → readers = []

section Locks

variable {readers : List Nat} {writer : Option Nat} {tasks : Nat → Option Task} {r : Nat}

theorem not_reads_of_idle {task : Option Task} (h : Task.Idle task) : ¬Reads task := by
  cases task with
  | none => exact id
  | some task =>
      cases task with
      | registering channel => cases h.1
      | _ => exact id

theorem Locks.setTask {task : Option Task} (h : Locks readers writer tasks)
    (hreads : Reads task ↔ Reads (tasks r))
    (htaken : (task.bind Task.taken).isSome = ((tasks r).bind Task.taken).isSome) :
    Locks readers writer (Function.update tasks r task) where
  nodup := h.nodup
  reading r' := by
    rw [h.reading]
    by_cases hr : r' = r
    · rw [hr, Function.update_self, hreads]
    · rw [Function.update_of_ne hr]
  writing r' := by
    rw [h.writing]
    by_cases hr : r' = r
    · rw [hr, Function.update_self, htaken]
    · rw [Function.update_of_ne hr]
  apart := h.apart

theorem Locks.lockRead (h : Locks readers none tasks) (hidle : Task.Idle (tasks r))
    (channel : ManagerChannel) :
    Locks (r :: readers) none (Function.update tasks r (some (.registering channel))) where
  nodup := List.nodup_cons.mpr ⟨fun hr => not_reads_of_idle hidle ((h.reading r).1 hr), h.nodup⟩
  reading r' := by
    by_cases hr : r' = r
    · rw [hr, Function.update_self]
      exact ⟨fun _ => trivial, fun _ => List.mem_cons_self⟩
    · rw [Function.update_of_ne hr, ← h.reading, List.mem_cons]
      exact or_iff_right hr
  writing r' := by
    rw [h.writing]
    by_cases hr : r' = r
    · rw [hr, Function.update_self, hidle.2]
      rfl
    · rw [Function.update_of_ne hr]
  apart r' hr := by cases hr

theorem Locks.unlockRead {channel : ManagerChannel} (h : Locks readers writer tasks)
    (htask : tasks r = some (.registering channel)) :
    Locks (readers.erase r) writer (Function.update tasks r none) where
  nodup := h.nodup.erase r
  reading r' := by
    rw [h.nodup.mem_erase_iff, h.reading]
    by_cases hr : r' = r
    · rw [hr, Function.update_self]
      exact ⟨fun hne => absurd rfl hne.1, False.elim⟩
    · rw [Function.update_of_ne hr]
      exact and_iff_right hr
  writing r' := by
    rw [h.writing]
    by_cases hr : r' = r
    · rw [hr, Function.update_self, htask]
      rfl
    · rw [Function.update_of_ne hr]
  apart r' hr := by
    rw [h.apart r' hr]
    rfl

theorem Locks.lockWrite (h : Locks [] none tasks) (hidle : Task.Idle (tasks r))
    (id : ConnectionId) (c : ManagedConnection) :
    Locks [] (some r) (Function.update tasks r (some (.asking id c))) where
  nodup := h.nodup
  reading r' := by
    rw [h.reading]
    by_cases hr : r' = r
    · rw [hr, Function.update_self]
      exact ⟨fun hreads => absurd hreads (not_reads_of_idle hidle), False.elim⟩
    · rw [Function.update_of_ne hr]
  writing r' := by
    by_cases hr : r' = r
    · rw [hr, Function.update_self]
      exact ⟨fun _ => rfl, fun _ => rfl⟩
    · rw [Function.update_of_ne hr, ← h.writing r']
      exact ⟨fun heq => absurd (Option.some.inj heq).symm hr, nofun⟩
  apart _ _ := rfl

theorem Locks.unlockWrite {id : ConnectionId} {c : ManagedConnection}
    (h : Locks readers writer tasks) (htask : tasks r = some (.sweeping id c)) :
    Locks readers none (Function.update tasks r none) where
  nodup := h.nodup
  reading r' := by
    rw [h.reading]
    by_cases hr : r' = r
    · rw [hr, Function.update_self, htask]
      exact Iff.rfl
    · rw [Function.update_of_ne hr]
  writing r' := by
    have hwriter : writer = some r := (h.writing r).2 (by rw [htask]; rfl)
    by_cases hr : r' = r
    · rw [hr, Function.update_self]
      exact ⟨nofun, nofun⟩
    · rw [Function.update_of_ne hr, ← h.writing r', hwriter]
      exact ⟨nofun, fun heq => absurd (Option.some.inj heq).symm hr⟩
  apart r' hr := by cases hr

end Locks

/-! ## The connections -/

/-- The connections in the table and those that a kill has taken run. -/
structure Care (s : ManagerServer) : Prop where
  table : ∀ id c, s.connections.lookup id = some c →
    s.Known id c ∧ (s.actors c.serial).Unasked
  taken : ∀ r id c, s.takenBy r = some (id, c) →
    s.Known id c ∧ (s.actors c.serial).aborted = false ∧ s.connections.lookup id = none
  unborn : ∀ serial, s.history.length ≤ serial →
    (s.actors serial).Unasked ∧ ∀ id, ¬(s.actors serial).Registers id
  past : ∀ serial ∈ s.killed, serial < s.history.length

theorem Known.born {s : ManagerServer} {id : ConnectionId} {c : ManagedConnection}
    (h : s.Known id c) : c.serial < s.history.length :=
  (List.getElem?_eq_some_iff.mp h.history).1

section Care

variable {s s' : ManagerServer} {r : Nat}

/-- Tasks come to their ends and the connections work. -/
theorem Care.frame (h : s.Care) (hconn : s'.connections = s.connections)
    (hhistory : s'.history = s.history) (hkilled : s'.killed = s.killed)
    (htaken : ∀ r v, s'.takenBy r = some v → s.takenBy r = some v)
    (hserves : ∀ serial, (s.actors serial).Serves (s'.actors serial))
    (hregisters : ∀ serial id, s.history.length ≤ serial →
      (s'.actors serial).Registers id → (s.actors serial).Registers id) : s'.Care where
  table id c hc := by
    rw [hconn] at hc
    obtain ⟨hknown, hunasked⟩ := h.table id c hc
    exact ⟨hknown.congr hhistory hkilled, (hserves _).unasked hunasked⟩
  taken r id c hc := by
    obtain ⟨hknown, hruns, hnone⟩ := h.taken r id c (htaken r _ hc)
    refine ⟨hknown.congr hhistory hkilled, (hserves _).aborted.trans hruns, ?_⟩
    rw [hconn, hnone]
  unborn serial hserial := by
    rw [hhistory] at hserial
    obtain ⟨hunasked, hnone⟩ := h.unborn serial hserial
    exact ⟨(hserves _).unasked hunasked, fun id hid => hnone id (hregisters serial id hserial hid)⟩
  past serial hserial := by
    rw [hkilled] at hserial
    rw [hhistory]
    exact h.past serial hserial

/-- The connections in the table differ from one that was taken out of it. -/
theorem Care.serial_ne (h : s.Care) {id id' : ConnectionId} {c c' : ManagedConnection}
    (htaken : s.takenBy r = some (id, c)) (hc' : s.connections.lookup id' = some c') :
    c'.serial ≠ c.serial := by
  intro hserial
  obtain ⟨hknown, -, hnone⟩ := h.taken r id c htaken
  rw [(h.table id' c' hc').1.eq_of_serial hknown hserial, hnone] at hc'
  cases hc'

theorem Care.insertConnection (h : s.Care) (hfree : ∀ r, s.takenBy r = none) (id : ConnectionId)
    (destination options : String) : (s.insertConnection id destination options).Care := by
  have hactors (serial : Nat) (hne : ∀ old, s.connections.lookup id = some old →
      serial ≠ old.serial) : (s.insertConnection id destination options).actors serial =
      s.actors serial := by
    unfold ManagerServer.insertConnection
    split
    · rfl
    · next old hold => exact Function.update_of_ne (hne old hold) _ _
  have hsame : ∃ actors, s.insertConnection id destination options = { s with
      connections := s.connections.insert id ⟨id, destination, options, s.history.length⟩
      history := s.history ++ [⟨id, destination, options, s.history.length⟩]
      actors := actors } := by
    unfold ManagerServer.insertConnection
    split <;> exact ⟨_, rfl⟩
  obtain ⟨actors, hsame⟩ := hsame
  rw [hsame] at hactors ⊢
  -- the connection that is dropped is older than the new one
  have hborn (serial : Nat) (hserial : s.history.length ≤ serial) :
      actors serial = s.actors serial := by
    apply hactors
    rintro old hold rfl
    exact absurd (h.table id old hold).1.born (Nat.not_lt.mpr hserial)
  refine ⟨?_, ?_, ?_, ?_⟩
  · intro id' c hc
    have hc' : (s.connections.insert id _).lookup id' = some c := hc
    by_cases heq : id' = id
    · rw [heq, AList.lookup_insert] at hc'
      cases hc'
      refine ⟨⟨List.getElem?_concat_length, heq.symm, ?_⟩, ?_⟩
      · exact fun hmem => absurd (h.past _ hmem) (Nat.lt_irrefl _)
      · show (actors s.history.length).Unasked
        rw [hborn _ le_rfl]
        exact (h.unborn _ le_rfl).1
    · rw [AList.lookup_insert_ne heq] at hc'
      obtain ⟨hknown, hunasked⟩ := h.table id' c hc'
      refine ⟨⟨?_, hknown.id, hknown.alive⟩, ?_⟩
      · show (s.history ++ _)[c.serial]? = some c
        rw [List.getElem?_append_left hknown.born]
        exact hknown.history
      · show (actors c.serial).Unasked
        have hsame : actors c.serial = s.actors c.serial := by
          apply hactors
          exact fun old hold hserial => heq (hknown.eq_of_serial (h.table id old hold).1 hserial)
        rwa [hsame]
  · intro r id' c hc
    have hc' : s.takenBy r = some (id', c) := hc
    rw [hfree] at hc'
    cases hc'
  · intro serial hserial
    have hlength : (s.history ++ [(⟨id, destination, options, s.history.length⟩ :
        ManagedConnection)]).length ≤ serial := hserial
    rw [List.length_append] at hlength
    show (actors serial).Unasked ∧ ∀ id, ¬(actors serial).Registers id
    rw [hborn serial (Nat.le_of_succ_le hlength)]
    exact h.unborn serial (Nat.le_of_succ_le hlength)
  · intro serial hserial
    show serial < (s.history ++ _).length
    rw [List.length_append]
    exact Nat.lt_add_right _ (h.past serial hserial)

/-- What is done with the actor of a connection does not concern the connections yet to come. -/
theorem Care.unborn_update (h : s.Care) {serial serial' : Nat} (hborn : serial' < s.history.length)
    (hserial : s.history.length ≤ serial) (actor : ManagerConnection ManagerReply) :
    (Function.update s.actors serial' actor serial).Unasked ∧
      ∀ id, ¬(Function.update s.actors serial' actor serial).Registers id := by
  have hne : serial ≠ serial' := by
    rintro rfl
    exact absurd hborn (Nat.not_lt.mpr hserial)
  rw [Function.update_of_ne hne]
  exact h.unborn serial hserial

/-- One task is changed, and no other has taken a connection. -/
theorem taken_update {r' : Nat} {task : Option Task} {v : ConnectionId × ManagedConnection}
    (hothers : ∀ r', r' ≠ r → s.takenBy r' = none)
    (htaken : (Function.update s.tasks r task r').bind Task.taken = some v) :
    task.bind Task.taken = some v := by
  by_cases hr : r' = r
  · subst hr
    rwa [Function.update_self] at htaken
  · rw [Function.update_of_ne hr] at htaken
    have hnone := hothers r' hr
    rw [takenBy, htaken] at hnone
    cases hnone

/-- A kill takes its connection, and asks for the channels. -/
theorem Care.take (h : s.Care) (hfree : ∀ r, s.takenBy r = none) {id : ConnectionId}
    {c : ManagedConnection} (hc : s.connections.lookup id = some c) :
    (({ s with
      connections := s.connections.erase id
      writer := some r }.act c.serial (.getRegistered r)).setTask r
        (some (.asking id c))).Care := by
  have hknown := (h.table id c hc).1
  have hactors (serial : Nat) (hne : serial ≠ c.serial) : Function.update s.actors c.serial
      ((s.actors c.serial).enqueue (.getRegistered r)) serial = s.actors serial :=
    Function.update_of_ne hne _ _
  refine ⟨?_, ?_, ?_, h.past⟩
  · intro id' c' hc'
    have hlookup : (s.connections.erase id).lookup id' = some c' := hc'
    by_cases heq : id' = id
    · rw [heq, AList.lookup_erase] at hlookup
      cases hlookup
    · rw [AList.lookup_erase_ne heq] at hlookup
      obtain ⟨hknown', hunasked⟩ := h.table id' c' hlookup
      refine ⟨hknown'.congr rfl rfl, ?_⟩
      show (Function.update s.actors c.serial _ c'.serial).Unasked
      rw [hactors]
      · exact hunasked
      · exact fun hserial => heq (hknown'.eq_of_serial hknown hserial)
  · intro r' id' c' hc'
    have htaken := taken_update (fun r' _ => hfree r') hc'
    cases htaken
    refine ⟨hknown.congr rfl rfl, ?_, AList.lookup_erase _ _⟩
    show (Function.update s.actors c.serial _ c.serial).aborted = false
    rw [Function.update_self]
    unfold ManagerConnection.enqueue
    split
    · exact (h.table id c hc).2.runs
    · exact (h.table id c hc).2.runs
  · exact fun serial hserial => h.unborn_update hknown.born hserial _

/-- A kill ends. -/
theorem Care.sweep (h : s.Care) {id : ConnectionId} {c : ManagedConnection}
    (htask : s.tasks r = some (.sweeping id c)) (hothers : ∀ r', r' ≠ r → s.takenBy r' = none) :
    ({ s.abort c.serial with
      writer := none
      killed := c.serial :: s.killed }.setTask r none).Care := by
  have hby : s.takenBy r = some (id, c) := by
    rw [takenBy, htask]
    rfl
  have hknown := (h.taken r id c hby).1
  have hactors (serial : Nat) (hne : serial ≠ c.serial) : Function.update s.actors c.serial
      { s.actors c.serial with aborted := true } serial = s.actors serial :=
    Function.update_of_ne hne _ _
  refine ⟨?_, ?_, ?_, ?_⟩
  · intro id' c' hc'
    obtain ⟨hknown', hunasked⟩ := h.table id' c' hc'
    have hne := h.serial_ne hby hc'
    refine ⟨⟨hknown'.history, hknown'.id, ?_⟩, ?_⟩
    · exact fun hmem => (List.mem_cons.mp hmem).elim hne hknown'.alive
    · show (Function.update s.actors c.serial _ c'.serial).Unasked
      rw [hactors _ hne]
      exact hunasked
  · intro r' id' c' hc'
    have htaken := taken_update hothers hc'
    cases htaken
  · exact fun serial hserial => h.unborn_update hknown.born hserial _
  · intro serial hserial
    rcases List.mem_cons.mp hserial with rfl | hserial
    · exact hknown.born
    · exact h.past serial hserial

end Care

/-! ## The channels -/

/-- The connection has this channel in the table. -/
def HasChannel (s : ManagerServer) (serial : Nat) (id : ManagerChannelId) : Prop :=
  ∃ channel, s.channels.lookup id = some channel ∧ channel.serial = serial

/-- No other connection that runs has this channel in the table. -/
def MayClose (s : ManagerServer) (serial : Nat) (id : ManagerChannelId) : Prop :=
  ∀ channel, s.channels.lookup id = some channel → s.Live channel → channel.serial = serial

/-- How far the task has come. -/
def Facing (s : ManagerServer) (r : Nat) : Task → Prop
  | .registering channel => ∃ id c, s.connections.lookup id = some c ∧ c.serial = channel.serial
  | .asking _ c => (s.actors c.serial).Answers r (s.HasChannel c.serial) (s.MayClose c.serial)
  | .closing _ c ids => (∀ id, s.HasChannel c.serial id → id ∈ ids) ∧
      ∀ id ∈ ids, s.MayClose c.serial id
  | .sweeping _ c => ∀ id, ¬s.HasChannel c.serial id
  | _ => True

/-- The table of channels and the registrations are in step. -/
structure InStep (s : ManagerServer) : Prop where
  born : ∀ holder channel, s.held holder = some channel → channel.serial < s.history.length
  owned : Owned s.held s.Registered s.Live
  named : ∀ id channel, s.channels.lookup id = some channel → channel.channelId = id
  alone : ∀ channel, s.HeldForClient channel → s.Live channel → ∀ serial,
    (s.actors serial).aborted = false → (s.actors serial).Registers channel.channelId →
    serial = channel.serial
  facing : ∀ r task, s.tasks r = some task → s.Facing r task
  closed : ∀ id channel, s.channels.lookup id = some channel → channel.serial ∉ s.killed

section InStep

variable {s s' : ManagerServer} {r : Nat}

theorem HasChannel.mono {serial : Nat} {id : ManagerChannelId} (h : s'.HasChannel serial id)
    (hchannels : ∀ id channel, s'.channels.lookup id = some channel →
      s.channels.lookup id = some channel) : s.HasChannel serial id := by
  obtain ⟨channel, hlookup, hserial⟩ := h
  exact ⟨channel, hchannels id channel hlookup, hserial⟩

theorem MayClose.mono {serial : Nat} {id : ManagerChannelId} (h : s.MayClose serial id)
    (hchannels : ∀ id channel, s'.channels.lookup id = some channel →
      s.channels.lookup id = some channel)
    (haborted : ∀ serial, (s'.actors serial).aborted = (s.actors serial).aborted) :
    s'.MayClose serial id := by
  intro channel hlookup hlive
  exact h channel (hchannels id channel hlookup) ((haborted _).symm.trans hlive)

theorem Facing.mono {task : Task} (h : s.Facing r task) (hconn : s'.connections = s.connections)
    (hchannels : ∀ id channel, s'.channels.lookup id = some channel →
      s.channels.lookup id = some channel)
    (hserves : ∀ serial, (s.actors serial).Serves (s'.actors serial)) : s'.Facing r task := by
  have haborted (serial : Nat) := (hserves serial).aborted
  cases task with
  | registering channel =>
      show ∃ id c, s'.connections.lookup id = some c ∧ _
      rw [hconn]
      exact h
  | asking id c =>
      refine ((hserves c.serial).answers h).mono (fun id hid => hid.mono hchannels) ?_
      exact fun id hid => hid.mono hchannels haborted
  | closing id c ids =>
      exact ⟨fun id hid => h.1 id (hid.mono hchannels),
        fun id hid => (h.2 id hid).mono hchannels haborted⟩
  | sweeping id c => exact fun id hid => h id (hid.mono hchannels)
  | _ => trivial

/-- A task goes on, and gets hold of nothing. -/
theorem InStep.setTask {task : Option Task} (h : s.InStep)
    (hchannel : ∀ channel, task.bind Task.channel = some channel → s.held (.task r) = some channel)
    (hreads : ∀ channel, task = some (.registering channel) →
      s.tasks r = some (.registering channel))
    (hfacing : ∀ t, task = some t → s.Facing r t) : (s.setTask r task).InStep := by
  have hheld (holder : Holder) (channel : ManagerChannel)
      (hc : (s.setTask r task).held holder = some channel) : s.held holder = some channel := by
    cases holder with
    | task r' =>
        have hc' : (Function.update s.tasks r task r').bind Task.channel = some channel := hc
        by_cases hr : r' = r
        · rw [hr, Function.update_self] at hc'
          rw [hr]
          exact hchannel channel hc'
        · rwa [Function.update_of_ne hr] at hc'
    | channel id => exact hc
    | tunnel id => exact hc
  refine ⟨fun holder channel hc => h.born holder channel (hheld holder channel hc),
    h.owned.mono hheld (fun _ _ hreg => hreg) (fun _ hl => hl), h.named, ?_, ?_, h.closed⟩
  · intro channel hc
    refine h.alone channel ?_
    rcases hc with hc | ⟨r', hc⟩
    · exact .inl hc
    · have hc' : Function.update s.tasks r task r' = some (.registering channel) := hc
      by_cases hr : r' = r
      · rw [hr, Function.update_self] at hc'
        exact .inr ⟨r, hreads channel hc'⟩
      · rw [Function.update_of_ne hr] at hc'
        exact .inr ⟨r', hc'⟩
  · intro r' t ht
    have ht' : Function.update s.tasks r task r' = some t := ht
    have hface : s.Facing r' t := by
      by_cases hr : r' = r
      · rw [hr, Function.update_self] at ht'
        rw [hr]
        exact hfacing t ht'
      · rw [Function.update_of_ne hr] at ht'
        exact h.facing r' t ht'
    exact hface.mono rfl (fun _ _ hc => hc) (fun _ => .refl _)

/-- Channels and tunnels go, and so do registrations. -/
theorem InStep.shrink (h : s.InStep) (hconn : s'.connections = s.connections)
    (hhistory : s'.history = s.history) (hkilled : s'.killed = s.killed)
    (htasks : s'.tasks = s.tasks)
    (hchannels : ∀ id channel, s'.channels.lookup id = some channel →
      s.channels.lookup id = some channel)
    (hheld : ∀ holder channel, s'.held holder = some channel → s.held holder = some channel)
    (hserves : ∀ serial, (s.actors serial).Serves (s'.actors serial))
    (hregisters : ∀ serial id, (s'.actors serial).Registers id → (s.actors serial).Registers id)
    (howned : Owned s'.held s'.Registered s'.Live) : s'.InStep where
  born holder channel hc := by
    rw [hhistory]
    exact h.born holder channel (hheld holder channel hc)
  owned := howned
  named id channel hc := h.named id channel (hchannels id channel hc)
  alone channel hc hlive serial hruns hreg := by
    refine h.alone channel ?_ ((hserves _).aborted.symm.trans hlive) serial
      ((hserves _).aborted.symm.trans hruns) (hregisters serial _ hreg)
    rcases hc with hc | ⟨r, hc⟩
    · exact .inl (hchannels _ _ hc)
    · rw [htasks] at hc
      exact .inr ⟨r, hc⟩
  facing r task htask := by
    rw [htasks] at htask
    exact (h.facing r task htask).mono hconn hchannels hserves
  closed id channel hc := by
    rw [hkilled]
    exact h.closed id channel (hchannels id channel hc)

/-- While no task is in the middle of something, connections come, and tasks of connections end. -/
theorem InStep.quiet (h : s.InStep)
    (hquiet : ∀ r task, s.tasks r = some task → ¬Reads (some task) ∧ task.taken = none)
    (hhistory : s.history.length ≤ s'.history.length) (htasks : s'.tasks = s.tasks)
    (hchannels : s'.channels = s.channels) (htunnels : s'.managedTunnels = s.managedTunnels)
    (hruns : ∀ serial, (s'.actors serial).aborted = false → (s.actors serial).aborted = false)
    (hregisters : ∀ serial id, (s'.actors serial).Registers id ↔ (s.actors serial).Registers id)
    (hclosed : ∀ id channel, s.channels.lookup id = some channel → channel.serial ∉ s'.killed) :
    s'.InStep := by
  have hheld (holder : Holder) : s'.held holder = s.held holder := by
    cases holder with
    | channel id => exact congrArg (AList.lookup id) hchannels
    | task r => exact congrArg (fun tasks => (tasks r).bind Task.channel) htasks
    | tunnel id =>
        exact congrArg (fun tunnels => (AList.lookup id tunnels).map (·.managerChannel)) htunnels
  refine ⟨?_, ?_, ?_, ?_, ?_, ?_⟩
  · intro holder channel hc
    rw [hheld] at hc
    exact Nat.lt_of_lt_of_le (h.born holder channel hc) hhistory
  · refine h.owned.mono (fun holder channel hc => (hheld holder).symm.trans hc) ?_ ?_
    · exact fun channel _ hreg => (hregisters _ _).2 hreg
    · exact fun channel hlive => hruns _ hlive
  · rw [hchannels]
    exact h.named
  · intro channel hc hlive serial hr hreg
    refine h.alone channel ?_ (hruns _ hlive) serial (hruns _ hr) ((hregisters _ _).1 hreg)
    unfold HeldForClient at hc ⊢
    rwa [hchannels, htasks] at hc
  · intro r task htask
    rw [htasks] at htask
    obtain ⟨hreads, htaken⟩ := hquiet r task htask
    cases task with
    | registering channel => exact absurd trivial hreads
    | asking id c => cases htaken
    | closing id c ids => cases htaken
    | sweeping id c => cases htaken
    | _ => trivial
  · rw [hchannels]
    exact hclosed

theorem serves_act (s : ManagerServer) (serial : Nat) {a : Action ManagerReply}
    (hask : ∀ cb, a ≠ .getRegistered cb) (serial' : Nat) :
    (s.actors serial').Serves ((s.act serial a).actors serial') := by
  show (s.actors serial').Serves (Function.update s.actors serial _ serial')
  by_cases heq : serial' = serial
  · rw [heq, Function.update_self]
    exact (s.actors serial).serves_enqueue hask
  · rw [Function.update_of_ne heq]
    exact .refl _

/-- A channel is closed: nothing else loses its registration. -/
theorem registers_closeChannel (s : ManagerServer) (channel : ManagerChannel) (serial : Nat)
    (id : ManagerChannelId) :
    (((s.closeChannel channel).actors serial).Registers id → (s.actors serial).Registers id) ∧
      ((⟨id, serial⟩ : ManagerChannel) ≠ channel → (s.actors serial).Registers id →
        ((s.closeChannel channel).actors serial).Registers id) := by
  show ((Function.update s.actors channel.serial _ serial).Registers id → _) ∧
    (_ → _ → (Function.update s.actors channel.serial _ serial).Registers id)
  by_cases heq : serial = channel.serial
  · subst heq
    rw [Function.update_self]
    refine ⟨ManagerConnection.registers_of_unregister, fun hne hreg => ?_⟩
    refine (ManagerConnection.registers_unregister _ ?_).2 hreg
    rintro rfl
    exact hne rfl
  · rw [Function.update_of_ne heq]
    exact ⟨fun hreg => hreg, fun _ hreg => hreg⟩

/-- Whoever held the channel lets it go when it is closed. -/
theorem InStep.release (h : s.InStep) {holder₀ : Holder} {channel : ManagerChannel}
    (hheld₀ : s.held holder₀ = some channel) (hconn : s'.connections = s.connections)
    (hhistory : s'.history = s.history) (hkilled : s'.killed = s.killed)
    (htasks : s'.tasks = s.tasks) (hactors : s'.actors = (s.closeChannel channel).actors)
    (hchannels : ∀ id channel, s'.channels.lookup id = some channel →
      s.channels.lookup id = some channel)
    (hheld : ∀ holder channel, s'.held holder = some channel →
      holder ≠ holder₀ ∧ s.held holder = some channel) : s'.InStep := by
  have hserves (serial : Nat) : (s.actors serial).Serves (s'.actors serial) := by
    rw [hactors]
    exact serves_act s channel.serial (by rintro cb ⟨⟩) serial
  refine h.shrink hconn hhistory hkilled htasks hchannels (fun holder c hc => (hheld holder c hc).2)
    hserves ?_ ?_
  · intro serial id hreg
    rw [hactors] at hreg
    exact (registers_closeChannel s channel serial id).1 hreg
  · have hreleased : Owned s'.held s'.Registered s.Live := by
      refine h.owned.release hheld₀ hheld fun c hne hreg => ?_
      show (s'.actors c.serial).Registers c.channelId
      rw [hactors]
      exact (registers_closeChannel s channel c.serial c.channelId).2 hne hreg
    refine hreleased.mono (fun _ _ hc => hc) (fun _ _ hreg => hreg) ?_
    exact fun c hlive => (hserves _).aborted.symm.trans hlive

theorem InStep.dropChannel (h : s.InStep) {id : ManagerChannelId} {channel : ManagerChannel}
    (hc : s.channels.lookup id = some channel) :
    ({ s with channels := s.channels.erase id }.closeChannel channel).InStep := by
  have hlookup (id' : ManagerChannelId) (c : ManagerChannel)
      (hc' : (s.channels.erase id).lookup id' = some c) :
      id' ≠ id ∧ s.channels.lookup id' = some c := by
    by_cases heq : id' = id
    · rw [heq, AList.lookup_erase] at hc'
      cases hc'
    · rw [AList.lookup_erase_ne heq] at hc'
      exact ⟨heq, hc'⟩
  have hheld₀ : s.held (.channel id) = some channel := hc
  refine h.release hheld₀ rfl rfl rfl rfl rfl (fun id' c hc' => (hlookup id' c hc').2) ?_
  intro holder c hheld
  cases holder with
  | channel id' =>
      obtain ⟨hne, hold⟩ := hlookup id' c hheld
      exact ⟨fun heq => hne (Holder.channel.inj heq), hold⟩
  | task r => exact ⟨nofun, hheld⟩
  | tunnel id' => exact ⟨nofun, hheld⟩

theorem InStep.dropTunnel (h : s.InStep) {id : ManagedTunnelId} {tunnel : ManagedTunnel}
    (ht : s.managedTunnels.lookup id = some tunnel) :
    ({ s with managedTunnels := s.managedTunnels.erase id }.closeChannel
      tunnel.managerChannel).InStep := by
  have hheld₀ : s.held (.tunnel id) = some tunnel.managerChannel := by
    show (s.managedTunnels.lookup id).map _ = _
    rw [ht]
    rfl
  refine h.release hheld₀ rfl rfl rfl rfl rfl (fun _ _ hc' => hc') ?_
  intro holder c hheld
  cases holder with
  | channel id' => exact ⟨nofun, hheld⟩
  | task r => exact ⟨nofun, hheld⟩
  | tunnel id' =>
      have hmap : ((s.managedTunnels.erase id).lookup id').map (·.managerChannel) = some c := hheld
      by_cases heq : id' = id
      · rw [heq, AList.lookup_erase] at hmap
        cases hmap
      · rw [AList.lookup_erase_ne heq] at hmap
        exact ⟨fun hsame => heq (Holder.tunnel.inj hsame), hmap⟩

/-- A channel that nobody has is opened on a connection that runs. -/
theorem InStep.acquire (h : s.InStep) (hcare : s.Care) {id : ConnectionId} {c : ManagedConnection}
    (hc : s.connections.lookup id = some c) {draw : ManagerChannelId} {reply : ManagerReply}
    {task : Task} {readers : List Nat}
    (hfresh : ∀ serial, (s.actors serial).aborted = false → ¬(s.actors serial).Registers draw)
    (hchannel : task.channel = some ⟨draw, c.serial⟩)
    (hface : s.Facing r task) :
    ({ s.act c.serial (.register draw reply) with
      readers := readers }.setTask r (some task)).InStep := by
  obtain ⟨hknown, hunasked⟩ := hcare.table id c hc
  have hruns := hunasked.runs
  generalize hs' : ({ s.act c.serial (.register draw reply) with
    readers := readers }.setTask r (some task)) = s'
  have hserves (serial : Nat) : (s.actors serial).Serves (s'.actors serial) := by
    rw [← hs']
    exact serves_act s c.serial (by rintro cb ⟨⟩) serial
  have hregisters (serial : Nat) (id' : ManagerChannelId) : (s'.actors serial).Registers id' ↔
      (serial = c.serial ∧ id' = draw) ∨ (s.actors serial).Registers id' := by
    rw [← hs']
    show (Function.update s.actors c.serial _ serial).Registers id' ↔ _
    by_cases heq : serial = c.serial
    · rw [heq, Function.update_self, ManagerConnection.registers_register hruns]
      exact or_congr_left ⟨fun hid => ⟨rfl, hid.symm⟩, fun hid => hid.2.symm⟩
    · rw [Function.update_of_ne heq]
      exact ⟨.inr, fun hor => hor.resolve_left fun hand => heq hand.1⟩
  have htasks : s'.tasks = Function.update s.tasks r (some task) := by rw [← hs']; rfl
  have hchannels : s'.channels = s.channels := by rw [← hs']; rfl
  have hheld (holder : Holder) (channel : ManagerChannel) (hheld : s'.held holder = some channel) :
      (holder = .task r ∧ channel = ⟨draw, c.serial⟩) ∨ s.held holder = some channel := by
    cases holder with
    | channel id' =>
        rw [← hs'] at hheld
        exact .inr hheld
    | tunnel id' =>
        rw [← hs'] at hheld
        exact .inr hheld
    | task r' =>
        have hbind : (s'.tasks r').bind Task.channel = some channel := hheld
        rw [htasks] at hbind
        by_cases hr : r' = r
        · rw [hr, Function.update_self, Option.bind_some, hchannel] at hbind
          rw [hr]
          exact .inl ⟨rfl, (Option.some.inj hbind).symm⟩
        · rw [Function.update_of_ne hr] at hbind
          exact .inr hbind
  have howned : Owned s'.held s'.Registered s.Live := by
    have hnew : ¬s.Registered ⟨draw, c.serial⟩ := hfresh c.serial hruns
    refine h.owned.acquire hnew hheld ((hregisters _ _).2 (.inl ⟨rfl, rfl⟩)) ?_
    exact fun channel hreg => (hregisters _ _).2 (.inr hreg)
  refine ⟨?_, ?_, ?_, ?_, ?_, ?_⟩
  · intro holder channel hold
    have hhistory : s'.history = s.history := by rw [← hs']; rfl
    rw [hhistory]
    rcases hheld holder channel hold with ⟨-, rfl⟩ | hold
    · exact hknown.born
    · exact h.born holder channel hold
  · refine howned.mono (fun _ _ hold => hold) (fun _ _ hreg => hreg) ?_
    exact fun channel hlive => (hserves _).aborted.symm.trans hlive
  · rw [hchannels]
    exact h.named
  · intro channel hclient hlive serial hr hreg
    have hlive' : s.Live channel := (hserves _).aborted.symm.trans hlive
    have hr' : (s.actors serial).aborted = false := (hserves _).aborted.symm.trans hr
    have hcases : s.HeldForClient channel ∨ channel = ⟨draw, c.serial⟩ := by
      rcases hclient with hclient | ⟨r', hclient⟩
      · rw [hchannels] at hclient
        exact .inl (.inl hclient)
      · rw [htasks] at hclient
        by_cases hrr : r' = r
        · rw [hrr, Function.update_self] at hclient
          cases hclient
          exact .inr (Option.some.inj hchannel)
        · rw [Function.update_of_ne hrr] at hclient
          exact .inl (.inr ⟨r', hclient⟩)
    rcases hcases with hclient | rfl
    · rcases (hregisters _ _).1 hreg with ⟨-, hid⟩ | hreg
      · -- an older channel would have the id that was just drawn
        have hheldOld : ∃ holder, s.held holder = some channel := by
          rcases hclient with hclient | ⟨r', hclient⟩
          · exact ⟨.channel channel.channelId, hclient⟩
          · refine ⟨.task r', ?_⟩
            show (s.tasks r').bind Task.channel = _
            rw [hclient]
            rfl
        obtain ⟨holder, hold⟩ := hheldOld
        have hregOld : (s.actors channel.serial).Registers channel.channelId :=
          h.owned.known hold hlive'
        rw [hid] at hregOld
        exact absurd hregOld (hfresh _ hlive')
      · exact h.alone channel hclient hlive' serial hr' hreg
    · rcases (hregisters _ _).1 hreg with ⟨heq, -⟩ | hreg
      · exact heq
      · exact absurd hreg (hfresh serial hr')
  · intro r' t ht
    rw [htasks] at ht
    have hface' : s.Facing r' t := by
      by_cases hr : r' = r
      · rw [hr, Function.update_self] at ht
        cases ht
        rw [hr]
        exact hface
      · rw [Function.update_of_ne hr] at ht
        exact h.facing r' t ht
    refine hface'.mono ?_ (fun id' channel hlookup => ?_) hserves
    · rw [← hs']
      rfl
    · rwa [hchannels] at hlookup
  · rw [← hs']
    exact h.closed

/-- A channel that a task has just opened is put into the table. -/
theorem InStep.register (h : s.InStep) (hcare : s.Care)
    (hlocks : Locks s.readers s.writer s.tasks) {channel : ManagerChannel}
    (htask : s.tasks r = some (.registering channel)) {readers : List Nat} :
    ({ s with
      readers := readers
      channels := s.channels.insert channel.channelId channel }.setTask r none).InStep := by
  have hheld₀ : s.held (.task r) = some channel := by
    show (s.tasks r).bind Task.channel = _
    rw [htask]
    rfl
  have hlookup (id : ManagerChannelId) (c : ManagerChannel)
      (hc : (s.channels.insert channel.channelId channel).lookup id = some c) :
      (id = channel.channelId ∧ c = channel) ∨ s.channels.lookup id = some c := by
    by_cases heq : id = channel.channelId
    · rw [heq, AList.lookup_insert] at hc
      exact .inl ⟨heq, (Option.some.inj hc).symm⟩
    · rw [AList.lookup_insert_ne heq] at hc
      exact .inr hc
  refine ⟨?_, ?_, ?_, ?_, ?_, ?_⟩
  · intro holder c hc
    cases holder with
    | channel id =>
        rcases hlookup id c hc with ⟨-, rfl⟩ | hc
        · exact h.born _ _ hheld₀
        · exact h.born (.channel id) c hc
    | task r' =>
        obtain ⟨t, ht, hchannel⟩ := Option.bind_eq_some_iff.mp hc
        refine h.born (.task r') c ?_
        show (s.tasks r').bind _ = _
        rw [(ne_of_update_none ht).2]
        exact hchannel
    | tunnel id => exact h.born (.tunnel id) c hc
  · refine h.owned.move (.channel channel.channelId) hheld₀ fun holder c hc => ?_
    cases holder with
    | channel id =>
        rcases hlookup id c hc with ⟨rfl, rfl⟩ | hc
        · exact .inl ⟨rfl, rfl⟩
        · exact .inr ⟨nofun, hc⟩
    | task r' =>
        obtain ⟨t, ht, hchannel⟩ := Option.bind_eq_some_iff.mp hc
        obtain ⟨hne, ht⟩ := ne_of_update_none ht
        refine .inr ⟨fun heq => hne (Holder.task.inj heq), ?_⟩
        show (s.tasks r').bind _ = _
        rw [ht]
        exact hchannel
    | tunnel id => exact .inr ⟨nofun, hc⟩
  · intro id c hc
    rcases hlookup id c hc with ⟨rfl, rfl⟩ | hc
    · rfl
    · exact h.named id c hc
  · intro c hclient
    refine h.alone c ?_
    rcases hclient with hc | ⟨r', hc⟩
    · rcases hlookup c.channelId c hc with ⟨-, rfl⟩ | hc
      · exact .inr ⟨r, htask⟩
      · exact .inl hc
    · exact .inr ⟨r', (ne_of_update_none hc).2⟩
  · intro r' t ht
    obtain ⟨-, ht⟩ := ne_of_update_none ht
    have hface := h.facing r' t ht
    -- the connections are locked for reading, so no kill is under way
    have hnone : t.taken = none := by
      have hread : r ∈ s.readers := (hlocks.reading r).2 (by rw [htask]; trivial)
      cases htaken : t.taken with
      | none => rfl
      | some v =>
          have hwriter : s.writer = some r' := by
            refine (hlocks.writing r').2 ?_
            rw [ht, Option.bind_some, htaken]
            rfl
          rw [hlocks.apart r' hwriter] at hread
          cases hread
    cases t with
    | asking id c => cases hnone
    | closing id c ids => cases hnone
    | sweeping id c => cases hnone
    | registering c => exact hface
    | _ => trivial
  · intro id c hc
    rcases hlookup id c hc with ⟨-, rfl⟩ | hc
    · obtain ⟨id', c', hc', hserial⟩ := h.facing r _ htask
      rw [← hserial]
      exact (hcare.table id' c' hc').1.alive
    · exact h.closed id c hc

/-- A tunnel that has been set up is put into the table. -/
theorem InStep.store (h : s.InStep) {tunnel : ManagedTunnel} {port : UInt16}
    (htask : s.tasks r = some (.storing tunnel port)) :
    ({ s with
      managedTunnels := s.managedTunnels.insert tunnel.id tunnel }.setTask r none).InStep := by
  have hheld₀ : s.held (.task r) = some tunnel.managerChannel := by
    show (s.tasks r).bind Task.channel = _
    rw [htask]
    rfl
  have hheld (holder : Holder) (c : ManagerChannel)
      (hc : ({ s with managedTunnels := s.managedTunnels.insert tunnel.id tunnel }.setTask r
        none).held holder = some c) :
      (holder = .tunnel tunnel.id ∧ c = tunnel.managerChannel) ∨
        (holder ≠ .task r ∧ s.held holder = some c) := by
    cases holder with
    | channel id => exact .inr ⟨nofun, hc⟩
    | task r' =>
        obtain ⟨t, ht, hchannel⟩ := Option.bind_eq_some_iff.mp hc
        obtain ⟨hne, ht⟩ := ne_of_update_none ht
        refine .inr ⟨fun heq => hne (Holder.task.inj heq), ?_⟩
        show (s.tasks r').bind _ = _
        rw [ht]
        exact hchannel
    | tunnel id =>
        have hc' : ((s.managedTunnels.insert tunnel.id tunnel).lookup id).map
            (·.managerChannel) = some c := hc
        by_cases heq : id = tunnel.id
        · rw [heq, AList.lookup_insert] at hc'
          rw [heq]
          exact .inl ⟨rfl, (Option.some.inj hc').symm⟩
        · rw [AList.lookup_insert_ne heq] at hc'
          exact .inr ⟨nofun, hc'⟩
  refine ⟨?_, h.owned.move (.tunnel tunnel.id) hheld₀ hheld, h.named, ?_, ?_, h.closed⟩
  · intro holder c hc
    rcases hheld holder c hc with ⟨-, rfl⟩ | ⟨-, hc⟩
    · exact h.born _ _ hheld₀
    · exact h.born holder c hc
  · intro c hclient
    refine h.alone c ?_
    rcases hclient with hc | ⟨r', hc⟩
    · exact .inl hc
    · exact .inr ⟨r', (ne_of_update_none hc).2⟩
  · intro r' t ht
    exact (h.facing r' t (ne_of_update_none ht).2).mono rfl (fun _ _ hc => hc) (fun _ => .refl _)

theorem quiet_of_free (hlocks : Locks s.readers s.writer s.tasks) (hw : s.writer = none)
    (hr : s.readers = []) {r : Nat} {task : Task} (htask : s.tasks r = some task) :
    ¬Reads (some task) ∧ task.taken = none := by
  constructor
  · intro hreads
    have hmem := (hlocks.reading r).2 (by rw [htask]; exact hreads)
    rw [hr] at hmem
    cases hmem
  · cases htaken : task.taken with
    | none => rfl
    | some v =>
        have hwriter := (hlocks.writing r).2 (by rw [htask, Option.bind_some, htaken]; rfl)
        rw [hw] at hwriter
        cases hwriter

/-- What a kill waits for when it has taken its connection. -/
theorem InStep.take (h : s.InStep) (hcare : s.Care) (hlocks : Locks s.readers s.writer s.tasks)
    (hw : s.writer = none) (hr : s.readers = []) {id : ConnectionId} {c : ManagedConnection}
    (hc : s.connections.lookup id = some c) :
    (({ s with
      connections := s.connections.erase id
      writer := some r }.act c.serial (.getRegistered r)).setTask r
        (some (.asking id c))).InStep := by
  obtain ⟨hknown, hunasked⟩ := hcare.table id c hc
  have hactor (serial : Nat) :
      (Function.update s.actors c.serial ((s.actors c.serial).enqueue (.getRegistered r)) serial =
        s.actors serial) ∨ serial = c.serial := by
    by_cases heq : serial = c.serial
    · exact .inr heq
    · exact .inl (Function.update_of_ne heq _ _)
  have haborted (n : ManagerConnection ManagerReply) :
      (n.enqueue (.getRegistered r)).aborted = n.aborted := by
    unfold ManagerConnection.enqueue
    split <;> rfl
  have hmid : ({ s with
      connections := s.connections.erase id
      writer := some r }.act c.serial (.getRegistered r)).InStep := by
    refine h.quiet (fun r task htask => quiet_of_free hlocks hw hr htask) le_rfl rfl rfl rfl ?_ ?_
      h.closed
    · intro serial hruns
      have hruns' : (Function.update s.actors c.serial _ serial).aborted = false := hruns
      rcases hactor serial with heq | rfl
      · rwa [heq] at hruns'
      · rwa [Function.update_self, haborted] at hruns'
    · intro serial id'
      show (Function.update s.actors c.serial _ serial).Registers id' ↔ _
      rcases hactor serial with heq | rfl
      · rw [heq]
      · rw [Function.update_self]
        exact ManagerConnection.registers_enqueue_of_leaves _ (fun _ _ => rfl) id'
  refine hmid.setTask (by rintro channel ⟨⟩) (by rintro channel ⟨⟩) ?_
  rintro _ ⟨⟩
  show (Function.update s.actors c.serial _ c.serial).Answers r _ _
  rw [Function.update_self]
  have hqueue : (s.actors c.serial).enqueue (.getRegistered r) =
      { s.actors c.serial with
        actions := (s.actors c.serial).actions ++ [.getRegistered r] } :=
    if_neg (by simp [hunasked.runs])
  rw [hqueue]
  refine .waiting (s.actors c.serial).actions [] rfl hunasked.actions hunasked.answered ?_ ?_
  · rintro id' ⟨channel, hlookup, hserial⟩
    have hlive : s.Live channel := by
      rw [Live, hserial]
      exact hunasked.runs
    have hreg : (s.actors channel.serial).Registers channel.channelId :=
      h.owned.known (h := .channel id') hlookup hlive
    rw [hserial, h.named id' channel hlookup] at hreg
    exact hreg
  · intro id' hreg channel hlookup hlive
    have hlookup' : s.channels.lookup id' = some channel := hlookup
    have hid := h.named id' channel hlookup'
    have hlive' : s.Live channel := by
      have hruns : (Function.update s.actors c.serial _ channel.serial).aborted = false := hlive
      rcases hactor channel.serial with heq | heq
      · rwa [heq] at hruns
      · rw [Live, heq]
        exact hunasked.runs
    refine (h.alone channel ?_ hlive' c.serial hunasked.runs ?_).symm
    · rw [← hid] at hlookup'
      exact .inl hlookup'
    · rw [hid]
      exact hreg

/-- What a kill leaves when it ends. -/
theorem InStep.sweep (h : s.InStep) (hlocks : Locks s.readers s.writer s.tasks) {id : ConnectionId}
    {c : ManagedConnection} (htask : s.tasks r = some (.sweeping id c)) :
    ({ s.abort c.serial with
      writer := none
      killed := c.serial :: s.killed }.setTask r none).InStep := by
  have hmid : (s.setTask r none).InStep :=
    h.setTask (by rintro channel ⟨⟩) (by rintro channel ⟨⟩) (by rintro t ⟨⟩)
  have hlocks' : Locks s.readers none (s.setTask r none).tasks := hlocks.unlockWrite htask
  have hreaders : s.readers = [] := hlocks.apart r ((hlocks.writing r).2 (by rw [htask]; rfl))
  have hgone := h.facing r _ htask
  have hactor (serial : Nat) :
      (Function.update s.actors c.serial { s.actors c.serial with aborted := true } serial =
        s.actors serial) ∨ serial = c.serial := by
    by_cases heq : serial = c.serial
    · exact .inr heq
    · exact .inl (Function.update_of_ne heq _ _)
  refine hmid.quiet (fun r' task ht => ?_) le_rfl rfl rfl rfl ?_ ?_ ?_
  · have hfree : Locks ({ s.setTask r none with writer := none }).readers
        ({ s.setTask r none with writer := none }).writer
        ({ s.setTask r none with writer := none }).tasks := hlocks'
    exact quiet_of_free hfree rfl hreaders ht
  · intro serial hruns
    have hruns' : (Function.update s.actors c.serial _ serial).aborted = false := hruns
    rcases hactor serial with heq | rfl
    · rwa [heq] at hruns'
    · rw [Function.update_self] at hruns'
      cases hruns'
  · intro serial id'
    show (Function.update s.actors c.serial _ serial).Registers id' ↔
      (s.actors serial).Registers id'
    rcases hactor serial with heq | rfl
    · rw [heq]
    · rw [Function.update_self]
      exact Iff.rfl
  · intro id' channel hlookup hmem
    rcases List.mem_cons.mp hmem with hserial | hmem
    · exact hgone id' ⟨channel, hlookup, hserial⟩
    · exact h.closed id' channel hlookup hmem

end InStep

/-! ## All of it -/

structure Safe (s : ManagerServer) : Prop where
  locks : Locks s.readers s.writer s.tasks
  care : s.Care
  inStep : s.InStep

/-- The condition on a step: the id that is drawn for a channel is not registered with any
connection that runs. -/
def FreshDraw (s : ManagerServer) : ManagerEvent → Prop
  | .turn r draw => Task.Draws (s.tasks r) →
      ∀ serial, s.isAborted serial = false → ¬(s.actors serial).Registers draw
  | _ => True

section Safe

variable {s s' : ManagerServer} {r : Nat}

theorem takenBy_eq_none (hlocks : Locks s.readers s.writer s.tasks) (hw : s.writer ≠ some r) :
    s.takenBy r = none := by
  cases htaken : s.takenBy r with
  | none => rfl
  | some v => exact absurd ((hlocks.writing r).2 (by rw [← takenBy, htaken]; rfl)) hw

theorem Safe.same (h : s.Safe) (hsame : Same s s') : s'.Safe := by
  obtain ⟨n, replies, rfl⟩ := hsame
  refine ⟨h.locks, ⟨fun id c hc => ?_, fun r id c hc => ?_, h.care.unborn, h.care.past⟩,
    ⟨h.inStep.born, h.inStep.owned, h.inStep.named, h.inStep.alone, fun r task ht => ?_,
      h.inStep.closed⟩⟩
  · exact ⟨(h.care.table id c hc).1.congr rfl rfl, (h.care.table id c hc).2⟩
  · exact ⟨(h.care.taken r id c hc).1.congr rfl rfl, (h.care.taken r id c hc).2⟩
  · exact (h.inStep.facing r task ht).mono rfl (fun _ _ hc => hc) (fun _ => .refl _)

theorem takenBy_of_update {task : Option Task} (htasks : s'.tasks = Function.update s.tasks r task)
    (htaken : ∀ v, task.bind Task.taken = some v → s.takenBy r = some v) {r' : Nat}
    {v : ConnectionId × ManagedConnection} (hv : s'.takenBy r' = some v) :
    s.takenBy r' = some v := by
  rw [takenBy, htasks] at hv
  by_cases hr : r' = r
  · rw [hr, Function.update_self] at hv
    rw [hr]
    exact htaken v hv
  · rwa [Function.update_of_ne hr] at hv

theorem Care.setTask {task : Option Task} (h : s.Care)
    (htaken : ∀ v, task.bind Task.taken = some v → s.takenBy r = some v) :
    (s.setTask r task).Care :=
  h.frame rfl rfl rfl (fun _ _ hv => takenBy_of_update rfl htaken hv) (fun _ => .refl _)
    fun _ _ _ hreg => hreg

theorem Care.acquire (h : s.Care) {id : ConnectionId} {c : ManagedConnection}
    (hc : s.connections.lookup id = some c) {draw : ManagerChannelId} {reply : ManagerReply}
    {task : Task} {readers : List Nat} (htaken : task.taken = none) :
    ({ s.act c.serial (.register draw reply) with
      readers := readers }.setTask r (some task)).Care := by
  have hnone (v : ConnectionId × ManagedConnection) (hv : (some task).bind Task.taken = some v) :
      s.takenBy r = some v := by
    rw [Option.bind_some, htaken] at hv
    cases hv
  refine h.frame rfl rfl rfl (fun _ _ hv => takenBy_of_update rfl hnone hv)
    (serves_act s c.serial (by rintro cb ⟨⟩)) fun serial id' hserial hreg => ?_
  have hreg' : (Function.update s.actors c.serial _ serial).Registers id' := hreg
  rwa [Function.update_of_ne] at hreg'
  rintro rfl
  exact absurd (h.table id c hc).1.born (Nat.not_lt.mpr hserial)

theorem Safe.setTask {task : Option Task} (h : s.Safe) (hreads : Reads task ↔ Reads (s.tasks r))
    (htaken : task.bind Task.taken = s.takenBy r)
    (hchannel : ∀ channel, task.bind Task.channel = some channel → s.held (.task r) = some channel)
    (hfacing : ∀ t, task = some t → s.Facing r t) : (s.setTask r task).Safe where
  locks := h.locks.setTask hreads (by rw [htaken]; rfl)
  care := h.care.setTask fun v hv => htaken ▸ hv
  inStep := by
    refine h.inStep.setTask hchannel (fun channel heq => ?_) hfacing
    subst heq
    have hold := hreads.1 trivial
    have hheld := hchannel channel rfl
    cases htask : s.tasks r with
    | none =>
        rw [htask] at hold
        cases hold
    | some old =>
        cases old with
        | registering channel' =>
            rw [held, htask] at hheld
            exact congrArg (fun c => some (Task.registering c)) (Option.some.inj hheld)
        | _ =>
            rw [htask] at hold
            cases hold

/-- The task of `r` ends, or goes on without anything in its hands. -/
theorem Safe.rest {task : Option Task} (h : s.Safe) (hreads : ¬Reads (s.tasks r))
    (htaken : s.takenBy r = none) (hidle : Task.Idle task) : (s.setTask r task).Safe := by
  refine h.setTask (iff_of_false (not_reads_of_idle hidle) hreads) (hidle.2.trans htaken.symm) ?_ ?_
  · intro channel hchannel
    rw [hidle.1] at hchannel
    cases hchannel
  · rintro t rfl
    obtain ⟨hchannel, htaken⟩ := hidle
    cases t with
    | registering channel => cases hchannel
    | asking id c => cases htaken
    | closing id c ids => cases htaken
    | sweeping id c => cases htaken
    | _ => trivial

theorem Safe.keeps (h : s.Safe) {serial : Nat} {n : ManagerConnection ManagerReply}
    (hkeeps : (s.actors serial).Keeps n) :
    { s with actors := Function.update s.actors serial n }.Safe := by
  have hall (serial' : Nat) :
      (s.actors serial').Keeps (Function.update s.actors serial n serial') := by
    by_cases heq : serial' = serial
    · rw [heq, Function.update_self]
      exact hkeeps
    · rw [Function.update_of_ne heq]
      exact ⟨.refl _, fun _ => Iff.rfl⟩
  refine ⟨h.locks, ?_, ?_⟩
  · exact h.care.frame rfl rfl rfl (fun _ _ hv => hv) (fun serial => (hall serial).toServes)
      fun serial id _ hreg => ((hall serial).registers id).1 hreg
  · refine h.inStep.shrink rfl rfl rfl rfl (fun _ _ hc => hc) (fun _ _ hc => hc)
      (fun serial => (hall serial).toServes) (fun serial id => ((hall serial).registers id).1) ?_
    refine h.inStep.owned.mono (fun _ _ hc => hc) ?_ ?_
    · exact fun channel _ hreg => ((hall _).registers _).2 hreg
    · exact fun channel hlive => (hall _).aborted.symm.trans hlive

theorem Safe.dropChannel (h : s.Safe) {id : ManagerChannelId} {channel : ManagerChannel}
    (hc : s.channels.lookup id = some channel) :
    ({ s with channels := s.channels.erase id }.closeChannel channel).Safe where
  locks := h.locks
  care := h.care.frame rfl rfl rfl (fun _ _ hv => hv)
    (serves_act s channel.serial (by rintro cb ⟨⟩))
    fun serial id _ => (registers_closeChannel s channel serial id).1
  inStep := h.inStep.dropChannel hc

theorem Safe.dropTunnel (h : s.Safe) {id : ManagedTunnelId} {tunnel : ManagedTunnel}
    (ht : s.managedTunnels.lookup id = some tunnel) :
    ({ s with managedTunnels := s.managedTunnels.erase id }.closeChannel
      tunnel.managerChannel).Safe where
  locks := h.locks
  care := h.care.frame rfl rfl rfl (fun _ _ hv => hv)
    (serves_act s tunnel.managerChannel.serial (by rintro cb ⟨⟩))
    fun serial id _ => (registers_closeChannel s tunnel.managerChannel serial id).1
  inStep := h.inStep.dropTunnel ht

/-- The loop of a kill over the channels leaves those in the table that it is not for. -/
theorem closeChannels_spec (ids : List ManagerChannelId) (h : s.Safe) :
    (closeChannels ids s).Safe ∧ (closeChannels ids s).tasks = s.tasks ∧
      (closeChannels ids s).connections = s.connections ∧
      (closeChannels ids s).killed = s.killed ∧
      ∀ id, (closeChannels ids s).channels.lookup id =
        if id ∈ ids then none else s.channels.lookup id := by
  induction ids generalizing s with
  | nil => exact ⟨h, rfl, rfl, rfl, fun id => rfl⟩
  | cons id ids ih =>
      unfold closeChannels
      split
      · next hnone =>
          obtain ⟨hsafe, htasks, hconn, hkilled, hlookup⟩ := ih h
          refine ⟨hsafe, htasks, hconn, hkilled, fun id' => ?_⟩
          rw [hlookup]
          by_cases heq : id' = id
          · subst heq
            simp [hnone]
          · simp [heq]
      · next channel hc =>
          obtain ⟨hsafe, htasks, hconn, hkilled, hlookup⟩ := ih (h.dropChannel hc)
          refine ⟨hsafe, htasks, hconn, hkilled, fun id' => ?_⟩
          rw [hlookup]
          show (if id' ∈ ids then none else (s.channels.erase id).lookup id') = _
          by_cases heq : id' = id
          · subst heq
            simp
          · rw [AList.lookup_erase_ne heq]
            simp [heq]

theorem Safe.abortTunnels (ids : List ManagedTunnelId) (h : s.Safe) :
    (abortTunnels ids s).Safe ∧ (ManagerServer.abortTunnels ids s).tasks = s.tasks := by
  induction ids generalizing s with
  | nil => exact ⟨h, rfl⟩
  | cons id ids ih =>
      unfold ManagerServer.abortTunnels
      split
      · exact ih h
      · next tunnel ht => exact ih (h.dropTunnel ht)

theorem insertConnection_same (s : ManagerServer) (id : ConnectionId)
    (destination options : String) :
    (s.insertConnection id destination options).channels = s.channels ∧
      (s.insertConnection id destination options).tasks = s.tasks ∧
      (s.insertConnection id destination options).killed = s.killed := by
  unfold ManagerServer.insertConnection
  split <;> exact ⟨rfl, rfl, rfl⟩

theorem Safe.insertConnection (h : s.Safe) (hw : s.writer = none) (hr : s.readers = [])
    (id : ConnectionId) (destination options : String) :
    (s.insertConnection id destination options).Safe := by
  have hfree (r : Nat) : s.takenBy r = none :=
    takenBy_eq_none h.locks (by rw [hw]; rintro ⟨⟩)
  have hcare := h.care.insertConnection hfree id destination options
  have hsame : ∃ actors, s.insertConnection id destination options = { s with
      connections := s.connections.insert id ⟨id, destination, options, s.history.length⟩
      history := s.history ++ [⟨id, destination, options, s.history.length⟩]
      actors := actors } ∧ ∀ serial, ((actors serial).aborted = false →
        (s.actors serial).aborted = false) ∧
        ∀ id, (actors serial).Registers id ↔ (s.actors serial).Registers id := by
    unfold ManagerServer.insertConnection
    split
    · exact ⟨_, rfl, fun serial => ⟨fun hruns => hruns, fun _ => Iff.rfl⟩⟩
    · next old hold =>
        refine ⟨_, rfl, fun serial => ?_⟩
        show ((Function.update s.actors old.serial _ serial).aborted = false → _) ∧
          ∀ id, (Function.update s.actors old.serial _ serial).Registers id ↔ _
        by_cases heq : serial = old.serial
        · rw [heq, Function.update_self]
          exact ⟨nofun, fun _ => Iff.rfl⟩
        · rw [Function.update_of_ne heq]
          exact ⟨fun hruns => hruns, fun _ => Iff.rfl⟩
  obtain ⟨actors, hsame, hactors⟩ := hsame
  rw [hsame] at hcare ⊢
  refine ⟨h.locks, hcare, ?_⟩
  refine h.inStep.quiet (fun r task htask => quiet_of_free h.locks hw hr htask) ?_ rfl rfl rfl
    (fun serial => (hactors serial).1) (fun serial => (hactors serial).2) h.inStep.closed
  show s.history.length ≤ (s.history ++ _).length
  rw [List.length_append]
  exact Nat.le_add_right _ _

/-- Every step keeps all of it, if a channel id that is drawn in it is fresh. -/
theorem Safe.effect {e : ManagerEvent} (h : s.Safe) (hfresh : s.FreshDraw e)
    (he : Effect s e s') : s'.Safe := by
  cases he with
  | idle r task hidle hidle' => exact h.rest (not_reads_of_idle hidle) hidle.2 hidle'
  | @insert r draw id destination options htask hw hr =>
      have hsafe := h.insertConnection hw hr id destination options
      have htasks := (s.insertConnection_same id destination options).2.1
      have hold := (congrFun htasks r).trans htask
      refine hsafe.rest (r := r) ?_ ?_ ⟨rfl, rfl⟩
      · rw [hold]
        exact not_false
      · rw [takenBy, hold]
        rfl
  | @openChannel r draw id c htask hw hc =>
      have hidle : Task.Idle (s.tasks r) := by
        rw [htask]
        exact ⟨rfl, rfl⟩
      have hdraws : Task.Draws (s.tasks r) := by
        rw [htask]
        trivial
      have hlocks : Locks s.readers none s.tasks := hw ▸ h.locks
      refine ⟨?_, h.care.acquire hc rfl, h.inStep.acquire h.care hc (hfresh hdraws) rfl ?_⟩
      · show Locks (r :: s.readers) s.writer (Function.update s.tasks r _)
        rw [hw]
        exact hlocks.lockRead hidle _
      · exact ⟨id, c, hc, rfl⟩
  | @register r draw channel htask =>
      refine ⟨h.locks.unlockRead htask, ?_, h.inStep.register h.care h.locks htask⟩
      exact h.care.frame rfl rfl rfl (fun _ _ hv => takenBy_of_update rfl (by rintro v ⟨⟩) hv)
        (fun _ => .refl _) fun _ _ _ hreg => hreg
  | @send r draw id request channel htask =>
      have hkeeps := (s.actors channel.serial).keeps_enqueue
        (a := .write channel.channelId request) (fun _ _ => rfl) (by rintro cb ⟨⟩)
      refine (h.keeps hkeeps).rest (r := r) ?_ ?_ ⟨rfl, rfl⟩
      · show ¬Reads (s.tasks r)
        rw [htask]
        exact not_false
      · show (s.tasks r).bind _ = none
        rw [htask]
        rfl
  | @closeChannel r draw id channel htask hc =>
      refine (h.dropChannel hc).rest (r := r) ?_ ?_ ⟨rfl, rfl⟩
      · show ¬Reads (s.tasks r)
        rw [htask]
        exact not_false
      · show (s.tasks r).bind _ = none
        rw [htask]
        rfl
  | @take r draw id c htask hw hr hc =>
      have hidle : Task.Idle (s.tasks r) := by
        rw [htask]
        exact ⟨rfl, rfl⟩
      have hlocks : Locks [] none s.tasks := by
        rw [← hw, ← hr]
        exact h.locks
      refine ⟨?_, h.care.take (fun r => takenBy_eq_none h.locks (by rw [hw]; rintro ⟨⟩)) hc,
        h.inStep.take h.care h.locks hw hr hc⟩
      show Locks s.readers (some r) (Function.update s.tasks r _)
      rw [hr]
      exact hlocks.lockWrite hidle id c
  | @answer r draw id c ids htask hids =>
      have hreads : ¬Reads (s.tasks r) := by
        rw [htask]
        exact not_false
      refine h.setTask (iff_of_false not_false hreads) ?_ (by rintro channel ⟨⟩) ?_
      · rw [takenBy, htask]
        rfl
      · rintro _ ⟨⟩
        have hface : (s.actors c.serial).Answers r (s.HasChannel c.serial) (s.MayClose c.serial) :=
          h.inStep.facing r _ htask
        cases hface with
        | waiting before after hq hnone ha hmust hmay =>
            rw [ha] at hids
            cases hids
        | given ids' ha hmust hmay =>
            rw [ha] at hids
            cases hids
            exact ⟨hmust, hmay⟩
  | @skip r draw id c htask haborted =>
      have hby : s.takenBy r = some (id, c) := by
        rw [takenBy, htask]
        rfl
      rw [(h.care.taken r id c hby).2.1] at haborted
      cases haborted
  | @close r draw id c ids htask =>
      obtain ⟨hsafe, htasks, -, -, hlookup⟩ := closeChannels_spec ids h
      have htask' := (congrFun htasks r).trans htask
      have hreads : ¬Reads ((closeChannels ids s).tasks r) := by
        rw [htask']
        exact not_false
      refine hsafe.setTask (iff_of_false not_false hreads) ?_ (by rintro channel ⟨⟩) ?_
      · rw [takenBy, htask']
        rfl
      · rintro _ ⟨⟩ id' ⟨channel, hc, hserial⟩
        rw [hlookup] at hc
        split at hc
        · cases hc
        · next hids =>
            exact hids ((h.inStep.facing r _ htask).1 id' ⟨channel, hc, hserial⟩)
  | @sweep r draw id c htask =>
      obtain ⟨hsafe, htasks⟩ := h.abortTunnels (s.tunnelIds id)
      have htask' := (congrFun htasks r).trans htask
      refine ⟨hsafe.locks.unlockWrite htask', hsafe.care.sweep htask' fun r' hr => ?_,
        hsafe.inStep.sweep hsafe.locks htask'⟩
      refine takenBy_eq_none hsafe.locks ?_
      rw [(hsafe.locks.writing r).2 (by rw [htask']; rfl)]
      exact fun heq => hr (Option.some.inj heq).symm
  | @openTunnel r draw setup c htask hw hc =>
      have hidle : Task.Idle (s.tasks r) := by
        rw [htask]
        exact ⟨rfl, rfl⟩
      have hdraws : Task.Draws (s.tasks r) := by
        rw [htask]
        trivial
      refine ⟨?_, h.care.acquire hc rfl, h.inStep.acquire h.care hc (hfresh hdraws) rfl trivial⟩
      refine h.locks.setTask (iff_of_false not_false (not_reads_of_idle hidle)) ?_
      rw [hidle.2]
      rfl
  | @start _ r setup channel tunnel port htask ht =>
      have hreads : ¬Reads (s.tasks r) := by
        rw [htask]
        exact not_false
      refine h.setTask (iff_of_false not_false hreads) ?_ ?_ ?_
      · rw [takenBy, htask]
        rfl
      · rintro _ ⟨⟩
        rw [held, htask, ht]
        rfl
      · rintro _ ⟨⟩
        trivial
  | @giveUp _ r setup channel htask =>
      refine h.rest ?_ ?_ ⟨rfl, rfl⟩
      · rw [htask]
        exact not_false
      · rw [takenBy, htask]
        rfl
  | @store r draw tunnel port htask =>
      refine ⟨?_, ?_, h.inStep.store htask⟩
      · refine h.locks.setTask (iff_of_false not_false ?_) ?_
        · rw [htask]
          exact not_false
        · rw [htask]
          rfl
      · exact h.care.frame rfl rfl rfl (fun _ _ hv => takenBy_of_update rfl (by rintro v ⟨⟩) hv)
          (fun _ => .refl _) fun _ _ _ hreg => hreg
  | @closeTunnel r draw id tunnel htask ht =>
      refine (h.dropTunnel ht).rest (r := r) ?_ ?_ ⟨rfl, rfl⟩
      · show ¬Reads (s.tasks r)
        rw [htask]
        exact not_false
      · show (s.tasks r).bind _ = none
        rw [htask]
        rfl
  | work hkeeps => exact h.keeps hkeeps

theorem Safe.step {e : ManagerEvent} (h : s.Safe) (hfresh : s.FreshDraw e)
    (hstep : s.step e = some s') : s'.Safe := by
  obtain ⟨s'', he, hsame⟩ := step_effect hstep
  exact (h.effect hfresh he).same hsame

theorem safe_new : new.Safe where
  locks := by
    refine ⟨List.nodup_nil, fun r => ⟨nofun, nofun⟩, fun r => ⟨nofun, nofun⟩, fun r hr => ?_⟩
    cases hr
  care := by
    refine ⟨fun id c hc => ?_, fun r id c hc => ?_, fun serial _ => ?_, fun serial hserial => ?_⟩
    · cases hc
    · cases hc
    · exact ⟨⟨rfl, rfl, fun cb hmem => by cases hmem⟩, fun id hid => by cases hid⟩
    · cases hserial
  inStep := by
    have hnone (holder : Holder) (channel : ManagerChannel) (hc : new.held holder = some channel) :
        False := by
      cases holder <;> cases hc
    refine ⟨fun holder channel hc => (hnone holder channel hc).elim, ⟨fun hc _ => ?_,
      fun hc _ _ => ?_⟩, fun id channel hc => ?_, fun channel hc => ?_, fun r task ht => ?_,
      fun id channel hc => ?_⟩
    · exact (hnone _ _ hc).elim
    · exact (hnone _ _ hc).elim
    · cases hc
    · rcases hc with hc | ⟨r, hc⟩
      · cases hc
      · cases hc
    · cases ht
    · cases hc

end Safe

/-! ## What is claimed -/

/-- The channel belongs to a connection in the table. -/
def OfConnection (s : ManagerServer) (channel : ManagerChannel) : Prop :=
  ∃ id c, s.connections.lookup id = some c ∧ c.serial = channel.serial

/-- What the tasks of requests and of connections do by themselves. -/
def Inner : ManagerEvent → Prop
  | .turn _ _ => True
  | .connection _ .act => True
  | _ => False

/-- The request of `r` can come to its end. -/
def Finishes (s : ManagerServer) (r : Nat) : Prop :=
  ∃ s', Machine.Reaches step Inner s s' ∧ s'.tasks r = none

structure ClosesOwn (s : ManagerServer) : Prop where
  /-- no channel of a connection that was killed is in the table -/
  gone : ∀ id channel, s.channels.lookup id = some channel → channel.serial ∉ s.killed
  /-- the channels of the connections that are there are registered -/
  registered : ∀ id channel, s.channels.lookup id = some channel → s.OfConnection channel →
    s.Registered channel
  /-- and stay until they are closed by a request of their own -/
  stays : ∀ e s', s.step e = some s' → ∀ id channel, s.channels.lookup id = some channel →
    s.OfConnection channel → s'.channels.lookup id = some channel ∨
      ∃ r draw, e = .turn r draw ∧ s.tasks r = some (.closingChannel id)
  /-- whoever is told of a kill had taken a connection that is killed from then on -/
  told : ∀ e s' r, s.step e = some s' → (r, .killed) ∈ s'.replies →
    (r, .killed) ∈ s.replies ∨ ∃ id c, s.takenBy r = some (id, c) ∧ c.serial ∈ s'.killed
  final : ∀ e s', s.step e = some s' → ∀ serial ∈ s.killed, serial ∈ s'.killed
  /-- requests do not wait for one another forever -/
  free : ∀ r task, s.tasks r = some task → task.Waits → s.Finishes r

section Claimed

variable {s s' : ManagerServer} {r : Nat}

theorem Safe.stays (h : s.Safe) {e : ManagerEvent} (he : Effect s e s') {id : ManagerChannelId}
    {channel : ManagerChannel} (hc : s.channels.lookup id = some channel)
    (hof : s.OfConnection channel) : s'.channels.lookup id = some channel ∨
      ∃ r draw, e = .turn r draw ∧ s.tasks r = some (.closingChannel id) := by
  obtain ⟨cid, c, hlookup, hserial⟩ := hof
  have hlive : s.Live channel := by
    rw [Live, ← hserial]
    exact (h.care.table cid c hlookup).2.runs
  cases he with
  | @register r draw new htask =>
      left
      show (s.channels.insert new.channelId new).lookup id = _
      by_cases heq : id = new.channelId
      · -- both are registered with connections that run, so they are the same
        have hid := h.inStep.named id channel hc
        obtain ⟨nid, nc, hnlookup, hnserial⟩ := h.inStep.facing r _ htask
        have hnlive : s.Live new := by
          rw [Live, ← hnserial]
          exact (h.care.table nid nc hnlookup).2.runs
        have hreg : (s.actors channel.serial).Registers channel.channelId :=
          h.inStep.owned.known (h := .channel id) hc hlive
        have hsame : channel.serial = new.serial := by
          refine h.inStep.alone new (.inr ⟨r, htask⟩) hnlive channel.serial hlive ?_
          rwa [← heq, ← hid]
        rw [heq, AList.lookup_insert]
        rw [heq] at hid
        cases channel
        cases new
        cases hid
        cases hsame
        rfl
      · rw [AList.lookup_insert_ne heq]
        exact hc
  | @closeChannel r draw id' channel' htask hc' =>
      by_cases heq : id = id'
      · subst heq
        exact .inr ⟨r, draw, rfl, htask⟩
      · left
        show (s.channels.erase id').lookup id = _
        rw [AList.lookup_erase_ne heq]
        exact hc
  | @close r draw kid k ids htask =>
      left
      obtain ⟨-, -, -, -, hafter⟩ := closeChannels_spec ids h
      show (closeChannels ids s).channels.lookup id = _
      rw [hafter, if_neg]
      · exact hc
      · intro hmem
        have hby : s.takenBy r = some (kid, k) := by
          rw [takenBy, htask]
          rfl
        have hkilled := (h.inStep.facing r _ htask).2 id hmem channel hc hlive
        exact h.care.serial_ne hby hlookup (hserial.trans hkilled)
  | @insert r draw id' destination options htask hw hr =>
      left
      have hsame := (s.insertConnection_same id' destination options).1
      exact (congrArg (AList.lookup id) hsame).trans hc
  | @sweep r draw kid k htask =>
      left
      have hsame (ids : List ManagedTunnelId) (t : ManagerServer) :
          (ManagerServer.abortTunnels ids t).channels = t.channels := by
        induction ids generalizing t with
        | nil => rfl
        | cons id ids ih =>
            unfold ManagerServer.abortTunnels
            split
            · exact ih t
            · exact ih _
      exact (congrArg (AList.lookup id) (hsame _ _)).trans hc
  | idle r task hidle hidle' => exact .inl hc
  | openChannel htask hw hc' => exact .inl hc
  | send htask => exact .inl hc
  | take htask hw hr hc' => exact .inl hc
  | answer htask hids => exact .inl hc
  | skip htask haborted => exact .inl hc
  | openTunnel htask hw hc' => exact .inl hc
  | start htask ht => exact .inl hc
  | giveUp htask => exact .inl hc
  | store htask => exact .inl hc
  | closeTunnel htask ht => exact .inl hc
  | work hkeeps => exact .inl hc

theorem Safe.final (h : s.Safe) {e : ManagerEvent} (he : Effect s e s') {serial : Nat}
    (hserial : serial ∈ s.killed) : serial ∈ s'.killed := by
  cases he with
  | @insert r draw id destination options htask hw hr =>
      show serial ∈ (s.insertConnection id destination options).killed
      rw [(s.insertConnection_same id destination options).2.2]
      exact hserial
  | @close r draw id c ids htask =>
      obtain ⟨-, -, -, hkilled, -⟩ := closeChannels_spec ids h
      show serial ∈ (closeChannels ids s).killed
      rw [hkilled]
      exact hserial
  | @sweep r draw id c htask =>
      have hsame : (ManagerServer.abortTunnels (s.tunnelIds id) s).killed = s.killed :=
        (abortTunnels_spec (s.tunnelIds id) s).1.killed
      refine List.mem_cons_of_mem _ ?_
      rw [hsame]
      exact hserial
  | _ => exact hserial

/-- A response of another kind tells nobody of a kill. -/
theorem mem_of_reply {r' : Nat} {response : ManagerResponse}
    (hr : (r, .killed) ∈ (s.reply r' response).replies) (hne : .killed ≠ response) :
    (r, .killed) ∈ s.replies := by
  rcases List.mem_append.mp hr with hmem | hmem
  · exact hmem
  · exact absurd (congrArg Prod.snd (List.mem_singleton.mp hmem)) hne

/-- Only the end of a kill is answered by `Killed`. -/
theorem told_of_turn {r' : Nat} {draw : ManagerChannelId} {task : Task}
    (htask : s.tasks r' = some task) (h : s.turn r' draw task = some s')
    (hr : (r, .killed) ∈ s'.replies) :
    (r, .killed) ∈ s.replies ∨ ∃ id c, s.takenBy r = some (id, c) ∧ c.serial ∈ s'.killed := by
  cases task with
  | launching => cases h
  | connecting destination options => cases h
  | inserting id destination options =>
      simp only [turn] at h
      split at h <;> cases h
      have hsame : (s.insertConnection id destination options).replies = s.replies := by
        unfold ManagerServer.insertConnection
        split <;> rfl
      have hmem := mem_of_reply hr (by rintro ⟨⟩)
      rw [hsame] at hmem
      exact .inl hmem
  | openingChannel id =>
      simp only [turn] at h
      split at h
      · cases h
      · split at h
        · cases h
          exact .inl (mem_of_reply hr (by rintro ⟨⟩))
        · split at h <;> cases h
          · exact .inl (mem_of_reply hr (by rintro ⟨⟩))
          · exact .inl hr
  | registering channel =>
      cases h
      exact .inl (mem_of_reply hr (by rintro ⟨⟩))
  | sending id request =>
      simp only [turn] at h
      split at h
      · cases h
        exact .inl (mem_of_reply hr (by rintro ⟨⟩))
      · split at h <;> cases h
        · exact .inl (mem_of_reply hr (by rintro ⟨⟩))
        · exact .inl hr
  | closingChannel id =>
      simp only [turn] at h
      split at h
      · cases h
        exact .inl (mem_of_reply hr (by rintro ⟨⟩))
      · split at h <;> cases h
        · exact .inl (mem_of_reply hr (by rintro ⟨⟩))
        · exact .inl (mem_of_reply hr (by rintro ⟨⟩))
  | killing id =>
      simp only [turn] at h
      split at h
      · cases h
      · split at h <;> cases h
        · exact .inl (mem_of_reply hr (by rintro ⟨⟩))
        · exact .inl hr
  | asking id c =>
      simp only [turn] at h
      split at h
      · cases h
        exact .inl hr
      · split at h <;> cases h
        exact .inl hr
  | closing id c ids =>
      cases h
      have hsame (ids : List ManagerChannelId) (t : ManagerServer) :
          (closeChannels ids t).replies = t.replies := by
        induction ids generalizing t with
        | nil => rfl
        | cons id ids ih =>
            unfold closeChannels
            split
            · exact ih t
            · exact ih _
      have hmem : (r, .killed) ∈ (closeChannels ids s).replies := hr
      rw [hsame] at hmem
      exact .inl hmem
  | sweeping id c =>
      cases h
      have hsame (ids : List ManagedTunnelId) (t : ManagerServer) :
          (ManagerServer.abortTunnels ids t).replies = t.replies := by
        induction ids generalizing t with
        | nil => rfl
        | cons id ids ih =>
            unfold ManagerServer.abortTunnels
            split
            · exact ih t
            · exact ih _
      have hmem : (r, .killed) ∈ (ManagerServer.abortTunnels (s.tunnelIds id) s).replies ++
        [(r', .killed)] := hr
      rw [hsame] at hmem
      rcases List.mem_append.mp hmem with hmem | hmem
      · exact .inl hmem
      · cases List.mem_singleton.mp hmem
        refine .inr ⟨id, c, ?_, List.mem_cons_self⟩
        rw [takenBy, htask]
        rfl
  | tunnelling setup =>
      simp only [turn] at h
      split at h
      · cases h
      · split at h
        · cases h
          exact .inl (mem_of_reply hr (by rintro ⟨⟩))
        · split at h <;> cases h
          · exact .inl (mem_of_reply hr (by rintro ⟨⟩))
          · exact .inl hr
  | starting setup channel => cases h
  | storing tunnel port =>
      cases h
      exact .inl (mem_of_reply hr (by rintro ⟨⟩))
  | closingTunnel id =>
      simp only [turn] at h
      split at h
      · cases h
        exact .inl (mem_of_reply hr (by rintro ⟨⟩))
      · cases h
        exact .inl (mem_of_reply hr (by rintro ⟨⟩))

theorem told_of_step {e : ManagerEvent} (h : s.step e = some s') (hr : (r, .killed) ∈ s'.replies) :
    (r, .killed) ∈ s.replies ∨ ∃ id c, s.takenBy r = some (id, c) ∧ c.serial ∈ s'.killed := by
  cases e with
  | turn r' draw =>
      simp only [step] at h
      split at h
      · cases h
      · next task htask => exact told_of_turn htask h hr
  | request r' request =>
      simp only [step] at h
      split at h <;> cases h
      exact .inl hr
  | launched r' result =>
      simp only [step] at h
      split at h <;> cases h
      · exact .inl (mem_of_reply hr (by rintro ⟨⟩))
      · exact .inl (mem_of_reply hr (by rintro ⟨⟩))
  | connected r' result =>
      simp only [step] at h
      split at h <;> cases h
      · exact .inl hr
      · exact .inl (mem_of_reply hr (by rintro ⟨⟩))
  | started r' result =>
      simp only [step] at h
      split at h <;> cases h
      · exact .inl hr
      · exact .inl (mem_of_reply hr (by rintro ⟨⟩))
  | connection serial event =>
      left
      simp only [step] at h
      split at h
      · obtain ⟨n, -, rfl⟩ := Option.map_eq_some_iff.mp h
        exact hr
      · obtain ⟨n, -, rfl⟩ := Option.map_eq_some_iff.mp h
        exact hr
      · obtain ⟨n, -, rfl⟩ := Option.map_eq_some_iff.mp h
        exact hr
      · cases h

/-! ## Nobody waits forever -/

theorem step_turn (draw : ManagerChannelId) {task : Task} (htask : s.tasks r = some task) :
    s.step (.turn r draw) = s.turn r draw task := by
  simp only [step, htask]

theorem Finishes.of_turn {task : Task} (htask : s.tasks r = some task)
    (hturn : s.turn r 0 task = some s') (h : s'.Finishes r) : s.Finishes r := by
  obtain ⟨s'', hreaches, hnone⟩ := h
  exact ⟨s'', .head ((step_turn _ htask).trans hturn) trivial hreaches, hnone⟩

theorem Finishes.of_last {task : Task} (htask : s.tasks r = some task)
    (h : ∃ s', s.turn r 0 task = some s' ∧ s'.tasks r = none) : s.Finishes r := by
  obtain ⟨s', hturn, hnone⟩ := h
  exact .of_turn htask hturn ⟨s', .refl, hnone⟩

theorem finishes_reply (s : ManagerServer) (r : Nat) (response : ManagerResponse) :
    (s.reply r response).Finishes r := ⟨_, .refl, Function.update_self _ _ _⟩

theorem Safe.turn (h : s.Safe) (draw : ManagerChannelId) {task : Task}
    (htask : s.tasks r = some task) (hdraws : ¬Task.Draws (some task))
    (hturn : s.turn r draw task = some s') : s'.Safe := by
  refine h.step ?_ ((step_turn _ htask).trans hturn)
  intro hd
  rw [htask] at hd
  exact absurd hd hdraws

/-- The task of `r` can end, with the connections unlocked, while no other task has its turn. -/
def Ends (s : ManagerServer) (r : Nat) : Prop :=
  ∃ s', Machine.Reaches step Inner s s' ∧ s'.Safe ∧ s'.writer = none ∧
    s'.tasks = Function.update s.tasks r none

theorem Ends.of_turn {task task' : Task} (htask : s.tasks r = some task)
    (hturn : s.turn r 0 task = some s') (htasks : s'.tasks = Function.update s.tasks r (some task'))
    (h : s'.Ends r) : s.Ends r := by
  obtain ⟨s'', hreaches, hsafe, hw, hend⟩ := h
  refine ⟨s'', .head ((step_turn _ htask).trans hturn) trivial hreaches, hsafe, hw, ?_⟩
  rw [hend, htasks, Function.update_idem]

theorem Safe.ends_sweeping (h : s.Safe) {id : ConnectionId} {c : ManagedConnection}
    (htask : s.tasks r = some (.sweeping id c)) : s.Ends r := by
  refine ⟨_, .head ((step_turn 0 htask).trans rfl) trivial .refl,
    h.turn 0 htask not_false rfl, rfl, ?_⟩
  show Function.update (ManagerServer.abortTunnels (s.tunnelIds id) s).tasks r none = _
  rw [(h.abortTunnels (s.tunnelIds id)).2]

theorem Safe.ends_closing (h : s.Safe) {id : ConnectionId} {c : ManagedConnection}
    {ids : List ManagerChannelId} (htask : s.tasks r = some (.closing id c ids)) : s.Ends r := by
  have htasks : ((closeChannels ids s).await r (.sweeping id c)).tasks =
      Function.update s.tasks r (some (.sweeping id c)) := by
    show Function.update (closeChannels ids s).tasks r _ = _
    rw [(closeChannels_spec ids h).2.1]
  refine .of_turn htask rfl htasks ?_
  have hnext : ((closeChannels ids s).await r (.sweeping id c)).tasks r =
      some (.sweeping id c) := by
    rw [htasks, Function.update_self]
  exact (h.turn 0 htask not_false rfl).ends_sweeping hnext

theorem Safe.ends_answered (h : s.Safe) {id : ConnectionId} {c : ManagedConnection}
    {ids : List ManagerChannelId} (htask : s.tasks r = some (.asking id c))
    (ha : (s.actors c.serial).answered.lookup r = some ids) : s.Ends r := by
  have hturn : s.turn r 0 (.asking id c) = some (s.await r (.closing id c ids)) := by
    simp only [ManagerServer.turn, ha]
  refine .of_turn htask hturn rfl ?_
  exact (h.turn 0 htask not_false hturn).ends_closing (Function.update_self _ _ _)

/-- The action task gets to the question, and answers it. -/
theorem Safe.ends_asking (h : s.Safe) {id : ConnectionId} {c : ManagedConnection}
    (htask : s.tasks r = some (.asking id c)) : s.Ends r := by
  have hface : (s.actors c.serial).Answers r (s.HasChannel c.serial) (s.MayClose c.serial) :=
    h.inStep.facing r _ htask
  generalize hn : (s.actors c.serial).actions.length = n
  induction n generalizing s with
  | zero =>
      cases hface with
      | waiting before after hq hnone ha hmust hmay => simp [hq] at hn
      | given ids ha hmust hmay => exact h.ends_answered htask ha
  | succ n ih =>
      cases hface with
      | given ids ha hmust hmay => exact h.ends_answered htask ha
      | waiting before after hq hnone ha hmust hmay =>
          have hby : s.takenBy r = some (id, c) := by
            rw [takenBy, htask]
            rfl
          have hruns := (h.care.taken r id c hby).2.1
          cases hactions : (s.actors c.serial).actions with
          | nil => simp [hactions] at hn
          | cons a rest =>
              generalize hn' : ManagerConnection.actionTask { s.actors c.serial with
                actions := rest
                processed := (s.actors c.serial).processed ++ [a] } a = n'
              have hact : (s.actors c.serial).step .act = some n' := by
                simp only [ManagerConnection.step, hactions, hruns, ← hn']
                rfl
              have hstep : s.step (.connection c.serial .act) =
                  some { s with actors := Function.update s.actors c.serial n' } := by
                simp only [ManagerServer.step, hact, Option.map_some]
              have hfresh : s.FreshDraw (.connection c.serial .act) := trivial
              have hsafe := h.step hfresh hstep
              have hrest : (Function.update s.actors c.serial n' c.serial).actions.length = n := by
                rw [Function.update_self, ← hn', (ManagerConnection.actionTask_queue _ a).2.1]
                rw [hactions] at hn
                exact Nat.succ.inj hn
              obtain ⟨s'', hreaches, hend⟩ := ih hsafe htask (hsafe.inStep.facing r _ htask) hrest
              exact ⟨s'', .head hstep trivial hreaches, hend⟩

/-- Whoever has locked the connections for writing comes to its end. -/
theorem Safe.ends_writer (h : s.Safe) (hw : s.writer = some r) : s.Ends r := by
  have htaken := (h.locks.writing r).1 hw
  cases htask : s.tasks r with
  | none =>
      rw [htask] at htaken
      cases htaken
  | some task =>
      cases task with
      | asking id c => exact h.ends_asking htask
      | closing id c ids => exact h.ends_closing htask
      | sweeping id c => exact h.ends_sweeping htask
      | _ =>
          rw [htask] at htaken
          cases htaken

theorem finishes_registering {channel : ManagerChannel}
    (htask : s.tasks r = some (.registering channel)) : s.Finishes r :=
  .of_turn htask rfl (finishes_reply _ _ _)

/-- Some steps unlock the connections; the other tasks are as they were. -/
theorem Safe.unlocked (h : s.Safe) : ∃ s', Machine.Reaches ManagerServer.step Inner s s' ∧ s'.Safe ∧
    s'.writer = none ∧ s'.readers = [] ∧ ∀ r, s'.tasks r = s.tasks r ∨ s'.tasks r = none := by
  -- without a writer, the readers have their turns one after the other
  have hreaders (readers : List Nat) (t : ManagerServer) (ht : t.Safe) (hw : t.writer = none)
      (hr : t.readers = readers) : ∃ s', Machine.Reaches ManagerServer.step Inner t s' ∧ s'.Safe ∧
      s'.writer = none ∧ s'.readers = [] ∧ ∀ r, s'.tasks r = t.tasks r ∨ s'.tasks r = none := by
    induction readers generalizing t with
    | nil => exact ⟨t, .refl, ht, hw, hr, fun r => .inl rfl⟩
    | cons r rest ih =>
        have hreads := (ht.locks.reading r).1 (by rw [hr]; exact List.mem_cons_self)
        cases htask : t.tasks r with
        | none =>
            rw [htask] at hreads
            cases hreads
        | some task =>
            cases task with
            | registering channel =>
                have hstep : t.step (.turn r 0) = _ := step_turn 0 htask
                have hsafe := ht.turn 0 htask not_false rfl
                have hrest : t.readers.erase r = rest := by
                  rw [hr, List.erase_cons_head]
                obtain ⟨s', hreaches, hsafe', hw', hr', htasks⟩ := ih _ hsafe hw hrest
                refine ⟨s', .head hstep trivial hreaches, hsafe', hw', hr', fun r' => ?_⟩
                rcases htasks r' with heq | heq
                · have heq' : s'.tasks r' = Function.update t.tasks r none r' := heq
                  by_cases hrr : r' = r
                  · rw [hrr, Function.update_self] at heq'
                    rw [hrr]
                    exact .inr heq'
                  · rw [Function.update_of_ne hrr] at heq'
                    exact .inl heq'
                · exact .inr heq
            | _ =>
                rw [htask] at hreads
                cases hreads
  cases hw : s.writer with
  | none => exact hreaders s.readers s h hw rfl
  | some r =>
      obtain ⟨t, hreaches, hsafe, hnone, htasks⟩ := h.ends_writer hw
      obtain ⟨s', hreaches', hsafe', hw', hr', hrest⟩ := hreaders t.readers t hsafe hnone rfl
      refine ⟨s', hreaches.trans hreaches', hsafe', hw', hr', fun r' => ?_⟩
      rcases hrest r' with heq | heq
      · rw [htasks] at heq
        by_cases hrr : r' = r
        · rw [hrr, Function.update_self] at heq
          rw [hrr]
          exact .inr heq
        · rw [Function.update_of_ne hrr] at heq
          exact .inl heq
      · exact .inr heq

theorem Finishes.of_ends (h : s.Ends r) : s.Finishes r := by
  obtain ⟨s', hreaches, -, -, htasks⟩ := h
  refine ⟨s', hreaches, ?_⟩
  rw [htasks, Function.update_self]

/-- With the connections unlocked, a task has its turns until it ends. -/
theorem Safe.finishes_unlocked (h : s.Safe) (hw : s.writer = none) (hr : s.readers = [])
    {task : Task} (htask : s.tasks r = some task) (hwaits : task.Waits) : s.Finishes r := by
  cases task with
  | launching => cases hwaits
  | connecting destination options => cases hwaits
  | tunnelling setup => cases hwaits
  | starting setup channel => cases hwaits
  | inserting id destination options =>
      refine .of_last htask ?_
      simp only [ManagerServer.turn, hw, hr]
      exact ⟨_, rfl, Function.update_self _ _ _⟩
  | openingChannel id =>
      cases hc : s.connections.lookup id with
      | none =>
          refine .of_last htask ?_
          simp only [ManagerServer.turn, hw, hc]
          exact ⟨_, rfl, Function.update_self _ _ _⟩
      | some c =>
          have hruns : s.isAborted c.serial = false := (h.care.table id c hc).2.runs
          have hturn : s.turn r 0 (.openingChannel id) = some
              ({ s.act c.serial (.register 0 (.request r)) with readers := r :: s.readers }.await r
                (.registering ⟨0, c.serial⟩)) := by
            simp only [ManagerServer.turn, hw, hc, hruns]
            rfl
          exact .of_turn htask hturn (finishes_registering (Function.update_self _ _ _))
  | registering channel => exact finishes_registering htask
  | sending id request =>
      refine .of_last htask ?_
      simp only [ManagerServer.turn]
      split
      · exact ⟨_, rfl, Function.update_self _ _ _⟩
      · split
        · exact ⟨_, rfl, Function.update_self _ _ _⟩
        · exact ⟨_, rfl, Function.update_self _ _ _⟩
  | closingChannel id =>
      refine .of_last htask ?_
      simp only [ManagerServer.turn]
      split
      · exact ⟨_, rfl, Function.update_self _ _ _⟩
      · split
        · exact ⟨_, rfl, Function.update_self _ _ _⟩
        · exact ⟨_, rfl, Function.update_self _ _ _⟩
  | killing id =>
      cases hc : s.connections.lookup id with
      | none =>
          refine .of_last htask ?_
          simp only [ManagerServer.turn, hw, hr, hc]
          exact ⟨_, rfl, Function.update_self _ _ _⟩
      | some c =>
          have hturn : s.turn r 0 (.killing id) = some
              (({ s with
                connections := s.connections.erase id
                writer := some r }.act c.serial (.getRegistered r)).await r (.asking id c)) := by
            simp only [ManagerServer.turn, hw, hr, hc]
            rfl
          have hsafe := h.turn 0 htask not_false hturn
          exact .of_turn htask hturn (.of_ends (hsafe.ends_asking (Function.update_self _ _ _)))
  | asking id c => exact .of_ends (h.ends_asking htask)
  | closing id c ids => exact .of_ends (h.ends_closing htask)
  | sweeping id c => exact .of_ends (h.ends_sweeping htask)
  | storing tunnel port => exact .of_turn htask rfl (finishes_reply _ _ _)
  | closingTunnel id =>
      refine .of_last htask ?_
      simp only [ManagerServer.turn]
      split
      · exact ⟨_, rfl, Function.update_self _ _ _⟩
      · exact ⟨_, rfl, Function.update_self _ _ _⟩

theorem Safe.finishes (h : s.Safe) {task : Task} (htask : s.tasks r = some task)
    (hwaits : task.Waits) : s.Finishes r := by
  obtain ⟨s₁, hreaches, hsafe, hw, hr, htasks⟩ := h.unlocked
  rcases htasks r with heq | hnone
  · obtain ⟨s₂, hreaches', hnone⟩ := hsafe.finishes_unlocked hw hr (heq.trans htask) hwaits
    exact ⟨s₂, hreaches.trans hreaches', hnone⟩
  · exact ⟨s₁, hreaches, hnone⟩

theorem Safe.closesOwn (h : s.Safe) : s.ClosesOwn where
  gone := h.inStep.closed
  registered id channel hc hof := by
    obtain ⟨cid, c, hlookup, hserial⟩ := hof
    refine h.inStep.owned.known (h := .channel id) hc ?_
    rw [Live, ← hserial]
    exact (h.care.table cid c hlookup).2.runs
  stays e s' hstep id channel hc hof := by
    obtain ⟨s'', he, n, replies, rfl⟩ := step_effect hstep
    exact h.stays he hc hof
  told _ _ _ hstep hr := told_of_step hstep hr
  final e s' hstep serial hserial := by
    obtain ⟨s'', he, n, replies, rfl⟩ := step_effect hstep
    exact h.final he hserial
  free _ _ htask hwaits := h.finishes htask hwaits

end Claimed

/-! ## Runs -/

/-- In every run in which each channel id that is drawn is registered with no connection that runs,
a kill closes exactly the channels of its connection, and requests do not wait for one another
forever. -/
theorem closesOwn_of_run {es : List ManagerEvent} {s : ManagerServer}
    (hfresh : Machine.Meeting step FreshDraw es new) (hrun : Machine.run step es new = some s) :
    s.ClosesOwn :=
  (Machine.invariant (fun _ _ _ h hC hstep => h.step hC hstep) safe_new hfresh hrun).closesOwn

/-- Two clients connect to two servers, and each opens a channel; then one connection is killed. -/
def twoConnections : List ManagerEvent :=
  [.request 0 (.connect "ssh://first" ""), .connected 0 (.ok 7), .turn 0 0,
    .request 1 (.connect "ssh://second" ""), .connected 1 (.ok 8), .turn 1 0,
    .request 2 (.openChannel 7), .turn 2 5, .turn 2 0,
    .request 3 (.openChannel 8), .turn 3 6, .turn 3 0,
    .request 4 (.kill 7), .turn 4 0, .connection 0 .act, .connection 0 .act, .turn 4 0, .turn 4 0,
    .turn 4 0]

/-- The first channel is gone with its connection, and the second is still there. -/
theorem closesOwn_twoConnections : ∃ s, Machine.run step twoConnections new = some s ∧
    (4, .killed) ∈ s.replies ∧ s.channels.lookup 5 = none ∧ s.channels.lookup 6 = some ⟨6, 1⟩ ∧
    s.ClosesOwn := by
  have hfresh : Machine.Meeting step FreshDraw twoConnections new := by
    refine .cons trivial rfl <| .cons trivial rfl <| .cons nofun rfl <| .cons trivial rfl <|
      .cons trivial rfl <| .cons nofun rfl <| .cons trivial rfl <| .cons ?_ rfl <|
      .cons nofun rfl <| .cons trivial rfl <| .cons ?_ rfl <| .cons nofun rfl <|
      .cons trivial rfl <| .cons nofun rfl <| .cons trivial rfl <| .cons trivial rfl <|
      .cons nofun rfl <| .cons nofun rfl <| .cons nofun rfl trivial
    · rintro - serial - ⟨⟩
    -- by now the first connection has registered another id
    · rintro - serial - hreg
      have hreg' : (Function.update (fun _ => ManagerConnection.spawn) 0
        (ManagerConnection.spawn.enqueue (.register 5 (ManagerReply.request 2)))
          serial).Registers 6 := hreg
      by_cases heq : serial = 0
      · rw [heq, Function.update_self] at hreg'
        cases (show false = true from hreg')
      · rw [Function.update_of_ne heq] at hreg'
        cases hreg'
  exact ⟨_, rfl, by decide, rfl, rfl, closesOwn_of_run hfresh rfl⟩

/-- The same, but both channels draw the same id, and the kill is about to close its channels. -/
def sharedDraw : List ManagerEvent :=
  [.request 0 (.connect "ssh://first" ""), .connected 0 (.ok 7), .turn 0 0,
    .request 1 (.connect "ssh://second" ""), .connected 1 (.ok 8), .turn 1 0,
    .request 2 (.openChannel 7), .turn 2 5, .turn 2 0,
    .request 3 (.openChannel 8), .turn 3 5, .turn 3 0,
    .request 4 (.kill 7), .turn 4 0, .connection 0 .act, .connection 0 .act, .turn 4 0]

/-- The kill removes the channel of the connection that it is not for. -/
theorem not_closesOwn_sharedDraw : ∃ s s', Machine.run step sharedDraw new = some s ∧
    Machine.run step [.turn 4 0, .turn 4 0] s = some s' ∧ (4, .killed) ∈ s'.replies ∧
    (s'.connections.lookup 8).isSome ∧ (3, .channelOpened 5) ∈ s'.replies ∧
    s.channels.lookup 5 = some ⟨5, 1⟩ ∧ s'.channels.lookup 5 = none ∧ ¬s.ClosesOwn := by
  refine ⟨_, _, rfl, rfl, by decide, rfl, by decide, rfl, rfl, fun h => ?_⟩
  have hstays := h.stays (.turn 4 0) _ rfl 5 ⟨5, 1⟩ rfl ⟨8, _, rfl, rfl⟩
  rcases hstays with hthere | ⟨r, draw, hturn, hclosing⟩
  · cases hthere
  · cases hturn
    cases hclosing

end ManagerServer

end Distant
