import Mathlib.Data.Finset.Card
import Distant.Lib.Machine

/-!
# The pool of SSH channels

The pool counts the session channels that are open and keeps one SFTP session for everybody. The
count is stepped when a channel has been opened, when the session is evicted to make room, and by
the tasks that dropped guards leave behind; the cached session comes back from such tasks, too.

The count is wrong for good once a session cannot be started on its counted channel, once the cache
is given a second session over one that nobody else holds, or once a session is evicted while a
guard holds it. `accounting_of_run` says that it is right in all runs without such a step.
-/

namespace Distant

/-- What a channel is opened for. -/
inductive PoolPurpose where
  | sftp
  | exec
  /-- `open_execs`, with the channels that it has opened and how many come after this one -/
  | execs (opened : List Nat) (missing : Nat)
  deriving DecidableEq, Repr

/-- What a call, a caller or a spawned task is doing with the pool, or holds of it. -/
inductive PoolTask where
  /-- `sftp`, about to look at the cache -/
  | looking
  /-- `open_channel`, waiting for the answer of the server -/
  | opening (purpose : PoolPurpose)
  /-- `open_channel`, about to count its channel -/
  | counting (purpose : PoolPurpose)
  /-- `open_channel`, about to note the limit -/
  | noting (purpose : PoolPurpose)
  | evicting (purpose : PoolPurpose)
  /-- `sftp`, requesting the subsystem and starting the session on its channel -/
  | starting (c : Nat)
  /-- `sftp`, about to cache its session -/
  | caching (c : Nat)
  | sftp (c : Nat)
  | exec (c : Nat)
  | permit (c : Nat)
  /-- dropped with an SFTP session -/
  | returning (c : Nat)
  /-- dropped with an exec channel -/
  | closing (c : Nat)
  /-- about to free the slot of a channel -/
  | releasing (c : Nat)
  deriving DecidableEq, Repr

/-- Channels are numbered in the order in which they are counted. -/
structure ChannelPool where
  sftp : Option Nat
  open_count : Nat
  channel_limit : Option Nat
  tasks : List PoolTask
  /-- how many channels were counted -/
  counted : Nat
  /-- the sessions that were evicted -/
  evicted : List Nat

inductive PoolEvent where
  | sftp
  | openExec
  | openExecs (n : Nat)
  | look
  /-- the server answers `channel_open_session` -/
  | answer (purpose : PoolPurpose) (ok : Bool)
  | count (purpose : PoolPurpose)
  | note (purpose : PoolPurpose)
  | evict (purpose : PoolPurpose)
  /-- the session is started on the channel, or cannot be -/
  | start (c : Nat) (ok : Bool)
  | cache (c : Nat)
  | dropSftp (c : Nat)
  | returnSftp (c : Nat)
  | dropExec (c : Nat)
  | take (c : Nat)
  | close (c : Nat)
  | dropPermit (c : Nat)
  | release (c : Nat)
  deriving DecidableEq, Repr

namespace PoolPurpose

/-- The channels that the caller holds already. -/
def channels : PoolPurpose → List Nat
  | execs opened _ => opened
  | _ => []

/-- What comes of a call when its channel `c` is open. -/
def opened (c : Nat) : PoolPurpose → List PoolTask
  | sftp => [.starting c]
  | exec => [.exec c]
  | execs opened 0 => (opened ++ [c]).map .exec
  | execs opened (missing + 1) => [.opening (.execs (opened ++ [c]) missing)]

/-- What comes of a call when its channel cannot be opened: `open_execs` drops the others. -/
def failed (purpose : PoolPurpose) : List PoolTask := purpose.channels.map .closing

end PoolPurpose

namespace PoolTask

/-- The channels that the task has for itself. -/
def own : PoolTask → List Nat
  | opening purpose => purpose.channels
  | counting purpose => purpose.channels
  | noting purpose => purpose.channels
  | evicting purpose => purpose.channels
  | starting c => [c]
  | caching c => [c]
  | exec c => [c]
  | permit c => [c]
  | closing c => [c]
  | releasing c => [c]
  | looking => []
  | sftp _ => []
  | returning _ => []

/-- The SFTP session that the task has a share in. -/
def session : PoolTask → List Nat
  | sftp c => [c]
  | returning c => [c]
  | _ => []

/-- The task is one that a dropped guard has spawned. -/
def Spawned : PoolTask → Prop
  | returning _ => True
  | closing _ => True
  | releasing _ => True
  | _ => False

end PoolTask

namespace ChannelPool

def new : ChannelPool where
  sftp := none
  open_count := 0
  channel_limit := none
  tasks := []
  counted := 0
  evicted := []

/-- Something new comes of a task. -/
def turn (s : ChannelPool) (task : PoolTask) (next : List PoolTask) : ChannelPool :=
  { s with tasks := next ++ s.tasks.erase task }

/-- Takes the cached session, if there is one, to free a slot. -/
def evict_sftp (s : ChannelPool) : Option ChannelPool :=
  s.sftp.map fun c => { s with
    sftp := none
    open_count := s.open_count - 1
    evicted := c :: s.evicted }

def return_sftp (s : ChannelPool) (c : Nat) : ChannelPool := { s with sftp := some c }

def release_slot (s : ChannelPool) : ChannelPool := { s with open_count := s.open_count - 1 }

/-- What an event does, for the task that it is a step of. The lock on the handle, which only keeps
some of these steps from happening at the same time, is left out. -/
def step (s : ChannelPool) : PoolEvent → Option ChannelPool
  | .sftp => some { s with tasks := .looking :: s.tasks }
  | .openExec => some { s with tasks := .opening .exec :: s.tasks }
  | .openExecs 0 => some s
  | .openExecs (n + 1) => some { s with tasks := .opening (.execs [] n) :: s.tasks }
  | .look =>
    if .looking ∈ s.tasks then
      match s.sftp with
      | some c => some (s.turn .looking [.sftp c])
      | none => some (s.turn .looking [.opening .sftp])
    else none
  | .answer purpose ok =>
    if .opening purpose ∈ s.tasks then
      some (s.turn (.opening purpose) [if ok then .counting purpose else .noting purpose])
    else none
  | .count purpose =>
    if .counting purpose ∈ s.tasks then
      some { s.turn (.counting purpose) (purpose.opened s.counted) with
        open_count := s.open_count + 1
        counted := s.counted + 1 }
    else none
  | .note purpose =>
    if .noting purpose ∈ s.tasks then
      some { s.turn (.noting purpose) [.evicting purpose] with
        channel_limit := some (s.channel_limit.getD s.open_count) }
    else none
  | .evict purpose =>
    if .evicting purpose ∈ s.tasks then
      match s.evict_sftp with
      -- after a delay, the call tries again
      | some s => some (s.turn (.evicting purpose) [.opening purpose])
      | none => some (s.turn (.evicting purpose) purpose.failed)
    else none
  | .start c ok =>
    if .starting c ∈ s.tasks then
      -- the channel is dropped when the session cannot be started on it
      some (s.turn (.starting c) (if ok then [.caching c] else []))
    else none
  | .cache c =>
    if .caching c ∈ s.tasks then some ((s.return_sftp c).turn (.caching c) [.sftp c]) else none
  | .dropSftp c =>
    if .sftp c ∈ s.tasks then some (s.turn (.sftp c) [.returning c]) else none
  | .returnSftp c =>
    if .returning c ∈ s.tasks then some ((s.return_sftp c).turn (.returning c) []) else none
  | .dropExec c =>
    if .exec c ∈ s.tasks then some (s.turn (.exec c) [.closing c]) else none
  | .take c => if .exec c ∈ s.tasks then some (s.turn (.exec c) [.permit c]) else none
  | .close c =>
    if .closing c ∈ s.tasks then some (s.turn (.closing c) [.releasing c]) else none
  | .dropPermit c =>
    if .permit c ∈ s.tasks then some (s.turn (.permit c) [.releasing c]) else none
  | .release c =>
    if .releasing c ∈ s.tasks then some (s.release_slot.turn (.releasing c) []) else none

/-- The channels that somebody has for himself. -/
def own (s : ChannelPool) : List Nat := s.tasks.flatMap PoolTask.own

/-- The sessions that a guard, or the task that it left behind, has a share in. -/
def shared (s : ChannelPool) : List Nat := s.tasks.flatMap PoolTask.session

/-- The sessions of the cache and of the guards. -/
def sessions (s : ChannelPool) : Finset Nat := (s.sftp.toList ++ s.shared).toFinset

/-- The channels that were opened through the pool and are still open or held. -/
def channels (s : ChannelPool) : Finset Nat := s.own.toFinset ∪ s.sessions

/-- All tasks that dropped guards have spawned have run. -/
def Settled (s : ChannelPool) : Prop := ∀ task ∈ s.tasks, ¬ task.Spawned

/-- When no task is left of a dropped guard, the count is right; and the cached session is one that
was counted, and not evicted. -/
def Right (s : ChannelPool) : Prop :=
  (s.Settled → s.open_count = s.channels.card) ∧
  ∀ c, s.sftp = some c → c < s.counted ∧ c ∉ s.evicted

/-- Caching the session `c` takes no other session out of the cache that nobody else holds. -/
def Replaces (s : ChannelPool) (c : Nat) : Prop :=
  ∀ cached, s.sftp = some cached → cached ≠ c → cached ∈ s.shared

/-- A session can always be started on its counted channel, none is evicted that somebody holds,
and none is replaced in the cache that nobody holds. -/
def Meets (s : ChannelPool) : PoolEvent → Prop
  | .start _ ok => ok = true
  | .cache c => s.Replaces c
  | .returnSftp c => s.Replaces c
  | .evict _ => ∀ c, s.sftp = some c → c ∉ s.shared
  | _ => True

/-- The count is right with all tasks counted in, each channel is in one place, and an evicted
session is in none. -/
structure Inv (s : ChannelPool) : Prop where
  count : s.open_count = s.own.length + s.sessions.card
  once : s.own.Nodup
  apart : ∀ c ∈ s.own, c ∉ s.sessions
  old : ∀ c, c ∈ s.own ∨ c ∈ s.sessions → c < s.counted
  gone : ∀ c ∈ s.evicted, c < s.counted ∧ c ∉ s.own ∧ c ∉ s.sessions

variable {s s' : ChannelPool} {task : PoolTask} {next : List PoolTask} {c : Nat}

theorem mem_sessions : c ∈ s.sessions ↔ s.sftp = some c ∨ c ∈ s.shared := by
  simp [sessions]

theorem Inv.right (h : s.Inv) : s.Right := by
  constructor
  · intro _
    have hdisjoint : Disjoint s.own.toFinset s.sessions :=
      Finset.disjoint_left.mpr fun c hown => h.apart c (List.mem_toFinset.mp hown)
    rw [channels, Finset.card_union_of_disjoint hdisjoint, List.toFinset_card_of_nodup h.once]
    exact h.count
  · intro c hcached
    have hsession : c ∈ s.sessions := mem_sessions.mpr (.inl hcached)
    exact ⟨h.old c (.inr hsession), fun hgone => (h.gone c hgone).2.2 hsession⟩

theorem inv_new : new.Inv where
  count := rfl
  once := .nil
  apart := fun _ hown => (by cases hown)
  old := fun _ hc => (by rcases hc with hown | hsession <;> simp [own, sessions, shared, new] at *)
  gone := fun _ hgone => (by cases hgone)

/-- A step that leaves everything where it is. -/
theorem Inv.congr (h : s.Inv) (hown : s'.own.Perm s.own) (hsessions : s'.sessions = s.sessions)
    (hcount : s'.open_count = s.open_count) (hcounted : s'.counted = s.counted)
    (hevicted : s'.evicted = s.evicted) : s'.Inv where
  count := by rw [hcount, hown.length_eq, hsessions, h.count]
  once := hown.nodup_iff.mpr h.once
  apart := by
    intro c hc
    rw [hsessions]
    exact h.apart c (hown.mem_iff.mp hc)
  old := by
    intro c hc
    rw [hsessions, hown.mem_iff] at hc
    rw [hcounted]
    exact h.old c hc
  gone := by
    rw [hevicted, hcounted, hsessions]
    intro c hc
    rw [hown.mem_iff]
    exact h.gone c hc

theorem perm_own (htask : task ∈ s.tasks) :
    s.own.Perm (task.own ++ (s.tasks.erase task).flatMap PoolTask.own) :=
  (List.perm_cons_erase htask).flatMap_right _

theorem perm_shared (htask : task ∈ s.tasks) :
    s.shared.Perm (task.session ++ (s.tasks.erase task).flatMap PoolTask.session) :=
  (List.perm_cons_erase htask).flatMap_right _

theorem own_turn : (s.turn task next).own =
    next.flatMap PoolTask.own ++ (s.tasks.erase task).flatMap PoolTask.own :=
  List.flatMap_append

theorem shared_turn : (s.turn task next).shared =
    next.flatMap PoolTask.session ++ (s.tasks.erase task).flatMap PoolTask.session :=
  List.flatMap_append

theorem perm_own_turn (htask : task ∈ s.tasks) (hnext : (next.flatMap PoolTask.own).Perm task.own) :
    (s.turn task next).own.Perm s.own := by
  rw [own_turn]
  exact (hnext.append_right _).trans (perm_own htask).symm

theorem perm_shared_turn (htask : task ∈ s.tasks)
    (hnext : (next.flatMap PoolTask.session).Perm task.session) :
    (s.turn task next).shared.Perm s.shared := by
  rw [shared_turn]
  exact (hnext.append_right _).trans (perm_shared htask).symm

/-- A task goes on with the channels that it has. -/
theorem Inv.turn (h : s.Inv) (htask : task ∈ s.tasks)
    (hown : (next.flatMap PoolTask.own).Perm task.own)
    (hsession : (next.flatMap PoolTask.session).Perm task.session) : (s.turn task next).Inv := by
  apply h.congr (perm_own_turn htask hown) _ rfl rfl rfl
  ext c
  rw [mem_sessions, mem_sessions, (perm_shared_turn htask hsession).mem_iff]
  rfl

theorem own_opened (purpose : PoolPurpose) (c : Nat) :
    (purpose.opened c).flatMap PoolTask.own = purpose.channels ++ [c] := by
  match purpose with
  | .sftp => rfl
  | .exec => rfl
  | .execs opened 0 =>
      rw [PoolPurpose.opened, List.flatMap_map]
      exact List.flatMap_singleton' _
  | .execs opened (missing + 1) => exact List.append_nil _

theorem session_opened (purpose : PoolPurpose) (c : Nat) :
    (purpose.opened c).flatMap PoolTask.session = [] := by
  match purpose with
  | .sftp => rfl
  | .exec => rfl
  | .execs opened 0 => simp [PoolPurpose.opened, PoolTask.session]
  | .execs opened (missing + 1) => rfl

theorem own_failed (purpose : PoolPurpose) :
    purpose.failed.flatMap PoolTask.own = purpose.channels := by
  rw [PoolPurpose.failed, List.flatMap_map]
  exact List.flatMap_singleton' _

theorem session_failed (purpose : PoolPurpose) :
    purpose.failed.flatMap PoolTask.session = [] := by
  simp [PoolPurpose.failed, PoolTask.session]

/-- A channel is counted: it is a new one. -/
theorem Inv.count_step (h : s.Inv) {purpose : PoolPurpose} (htask : .counting purpose ∈ s.tasks) :
    Inv { s.turn (.counting purpose) (purpose.opened s.counted) with
      open_count := s.open_count + 1
      counted := s.counted + 1 } := by
  have hown : (s.turn (.counting purpose) (purpose.opened s.counted)).own.Perm
      (s.counted :: s.own) := by
    rw [own_turn, own_opened, List.append_assoc]
    exact List.perm_middle.trans ((perm_own htask).symm.cons _)
  have hsessions : (s.turn (.counting purpose) (purpose.opened s.counted)).sessions =
      s.sessions := by
    ext c
    rw [mem_sessions, mem_sessions, (perm_shared_turn htask _).mem_iff]
    · rfl
    · rw [session_opened]
      rfl
  have hnew : s.counted ∉ s.own ∧ s.counted ∉ s.sessions :=
    ⟨fun hc => absurd (h.old _ (.inl hc)) (lt_irrefl _),
      fun hc => absurd (h.old _ (.inr hc)) (lt_irrefl _)⟩
  constructor
  · show s.open_count + 1 = _ + (s.turn _ _).sessions.card
    rw [hsessions, h.count]
    have hlength := hown.length_eq
    rw [List.length_cons] at hlength
    show _ = (s.turn _ _).own.length + _
    omega
  · exact hown.nodup_iff.mpr (List.nodup_cons.mpr ⟨hnew.1, h.once⟩)
  · intro c hc
    show c ∉ (s.turn _ _).sessions
    rw [hsessions]
    rcases List.mem_cons.mp (hown.mem_iff.mp hc) with rfl | hc
    · exact hnew.2
    · exact h.apart c hc
  · intro c hc
    show c < s.counted + 1
    replace hc : c ∈ (s.turn _ _).own ∨ c ∈ (s.turn _ _).sessions := hc
    rw [hsessions, hown.mem_iff, List.mem_cons] at hc
    rcases hc with (rfl | hc) | hc
    · exact Nat.lt_succ_self _
    · exact Nat.lt_succ_of_lt (h.old c (.inl hc))
    · exact Nat.lt_succ_of_lt (h.old c (.inr hc))
  · intro c hc
    obtain ⟨hold, hout, hoff⟩ := h.gone c hc
    refine ⟨Nat.lt_succ_of_lt hold, ?_, ?_⟩
    · show c ∉ (s.turn _ _).own
      rw [hown.mem_iff, List.mem_cons]
      rintro (rfl | hown)
      · exact lt_irrefl _ hold
      · exact hout hown
    · show c ∉ (s.turn _ _).sessions
      rw [hsessions]
      exact hoff

/-- The session that nobody holds is evicted. -/
theorem Inv.evict_step (h : s.Inv) (hfree : ∀ c, s.sftp = some c → c ∉ s.shared)
    (hevict : s.evict_sftp = some s') : s'.Inv := by
  cases hcached : s.sftp with
  | none =>
      rw [evict_sftp, hcached] at hevict
      cases hevict
  | some c =>
      rw [evict_sftp, hcached] at hevict
      cases hevict
      have hc : c ∈ s.sessions := mem_sessions.mpr (.inl hcached)
      have hsessions : s.shared.toFinset = s.sessions.erase c := by
        ext c'
        rw [Finset.mem_erase, mem_sessions, hcached, List.mem_toFinset]
        constructor
        · rintro hshared
          exact ⟨fun heq => hfree c hcached (heq ▸ hshared), .inr hshared⟩
        · rintro ⟨hne, heq | hshared⟩
          · cases heq
            exact absurd rfl hne
          · exact hshared
      have hcard : s.shared.toFinset.card = s.sessions.card - 1 := by
        rw [hsessions, Finset.card_erase_of_mem hc]
      have hpos : 0 < s.sessions.card := Finset.card_pos.mpr ⟨c, hc⟩
      have hsub : ∀ c', c' ∈ s.shared.toFinset → c' ∈ s.sessions := by
        rw [hsessions]
        exact fun c' => Finset.mem_of_mem_erase
      refine ⟨?_, h.once, ?_, ?_, ?_⟩
      · show s.open_count - 1 = s.own.length + s.shared.toFinset.card
        rw [h.count, hcard]
        omega
      · exact fun c' hown hshared => h.apart c' hown (hsub c' hshared)
      · exact fun c' hc' => h.old c' (hc'.imp_right (hsub c'))
      · intro c' hgone
        rcases List.mem_cons.mp hgone with rfl | hgone
        · refine ⟨h.old _ (.inr hc), fun hown => h.apart _ hown hc, fun hshared => ?_⟩
          exact hfree _ hcached (List.mem_toFinset.mp hshared)
        · obtain ⟨hold, hout, hoff⟩ := h.gone c' hgone
          exact ⟨hold, hout, fun hshared => hoff (hsub c' hshared)⟩

/-- The cache takes a session over, without losing one. -/
theorem mem_sessions_return (hreplaces : s.Replaces c) (htask : task ∈ s.tasks)
    (hkept : ∀ c', c' ∈ task.session → c' = c) {c' : Nat} :
    c' ∈ ((s.return_sftp c).turn task next).sessions ↔
      c' = c ∨ c' ∈ next.flatMap PoolTask.session ∨ c' ∈ s.sessions := by
  rw [mem_sessions, mem_sessions, shared_turn, List.mem_append]
  rw [(perm_shared htask).mem_iff, List.mem_append]
  show some c = some c' ∨ _ ∨ c' ∈ (s.tasks.erase task).flatMap PoolTask.session ↔ _
  constructor
  · rintro (hc | hnext | hrest)
    · cases hc
      exact .inl rfl
    · exact .inr (.inl hnext)
    · exact .inr (.inr (.inr (.inr hrest)))
  · rintro (rfl | hnext | hcached | htask' | hrest)
    · exact .inl rfl
    · exact .inr (.inl hnext)
    · by_cases hc : c' = c
      · exact .inl (hc ▸ rfl)
      · have hshared := hreplaces c' hcached hc
        rw [(perm_shared htask).mem_iff, List.mem_append] at hshared
        rcases hshared with htask' | hrest
        · exact absurd (hkept c' htask') hc
        · exact .inr (.inr hrest)
    · exact .inl (hkept c' htask' ▸ rfl)
    · exact .inr (.inr hrest)

theorem Inv.cache_step (h : s.Inv) (htask : .caching c ∈ s.tasks) (hreplaces : s.Replaces c) :
    ((s.return_sftp c).turn (.caching c) [.sftp c]).Inv := by
  have hown : s.own.Perm (c :: ((s.return_sftp c).turn (.caching c) [.sftp c]).own) := by
    rw [own_turn]
    exact perm_own htask
  have hsessions : ((s.return_sftp c).turn (.caching c) [.sftp c]).sessions =
      insert c s.sessions := by
    ext c'
    rw [mem_sessions_return hreplaces htask (fun c' hc' => (by cases hc')), Finset.mem_insert]
    simp [PoolTask.session]
  have hc : c ∉ s.sessions := h.apart c (hown.mem_iff.mpr List.mem_cons_self)
  have honce := hown.nodup_iff.mp h.once
  constructor
  · show s.open_count = _
    rw [hsessions, Finset.card_insert_of_notMem hc, h.count, hown.length_eq, List.length_cons]
    omega
  · exact (List.nodup_cons.mp honce).2
  · intro c' hc'
    rw [hsessions, Finset.mem_insert]
    rintro (rfl | hsession)
    · exact (List.nodup_cons.mp honce).1 hc'
    · exact h.apart c' (hown.mem_iff.mpr (List.mem_cons_of_mem _ hc')) hsession
  · intro c' hc'
    rw [hsessions, Finset.mem_insert] at hc'
    rcases hc' with hc' | rfl | hc'
    · exact h.old c' (.inl (hown.mem_iff.mpr (List.mem_cons_of_mem _ hc')))
    · exact h.old c' (.inl (hown.mem_iff.mpr List.mem_cons_self))
    · exact h.old c' (.inr hc')
  · intro c' hgone
    obtain ⟨hold, hout, hoff⟩ := h.gone c' hgone
    rw [hown.mem_iff, List.mem_cons, not_or] at hout
    refine ⟨hold, hout.2, ?_⟩
    rw [hsessions, Finset.mem_insert, not_or]
    exact ⟨hout.1, hoff⟩

theorem Inv.return_step (h : s.Inv) (htask : .returning c ∈ s.tasks) (hreplaces : s.Replaces c) :
    ((s.return_sftp c).turn (.returning c) []).Inv := by
  have hown : ((s.return_sftp c).turn (.returning c) []).own.Perm s.own :=
    perm_own_turn (s := s.return_sftp c) htask .rfl
  apply h.congr hown _ rfl rfl rfl
  · ext c'
    rw [mem_sessions_return hreplaces htask (fun c' hc' => List.mem_singleton.mp hc')]
    have hc : c ∈ s.sessions := by
      rw [mem_sessions, (perm_shared htask).mem_iff]
      exact .inr List.mem_cons_self
    constructor
    · rintro (rfl | hnext | hc')
      · exact hc
      · cases hnext
      · exact hc'
    · exact fun hc' => .inr (.inr hc')

/-- A slot is freed: the count is not yet zero. -/
theorem Inv.release_step (h : s.Inv) (htask : .releasing c ∈ s.tasks) :
    (s.release_slot.turn (.releasing c) []).Inv := by
  have hown : s.own.Perm (c :: (s.release_slot.turn (.releasing c) []).own) := by
    rw [own_turn]
    exact perm_own htask
  have hsessions : (s.release_slot.turn (.releasing c) []).sessions = s.sessions := by
    have hshared : (s.release_slot.turn (.releasing c) []).shared.Perm s.shared :=
      perm_shared_turn (s := s.release_slot) htask .rfl
    ext c'
    rw [mem_sessions, mem_sessions, hshared.mem_iff]
    rfl
  have hsub : ∀ c', c' ∈ (s.release_slot.turn (.releasing c) []).own → c' ∈ s.own :=
    fun c' hc' => hown.mem_iff.mpr (List.mem_cons_of_mem _ hc')
  constructor
  · show s.open_count - 1 = _
    rw [hsessions, h.count, hown.length_eq, List.length_cons]
    omega
  · exact (List.nodup_cons.mp (hown.nodup_iff.mp h.once)).2
  · rw [hsessions]
    exact fun c' hc' => h.apart c' (hsub c' hc')
  · rw [hsessions]
    exact fun c' hc' => h.old c' (hc'.imp_left (hsub c'))
  · rw [hsessions]
    intro c' hgone
    obtain ⟨hold, hout, hoff⟩ := h.gone c' hgone
    exact ⟨hold, fun hc' => hout (hsub c' hc'), hoff⟩

theorem inv_step {e : PoolEvent} (h : s.Inv) (hmeets : s.Meets e) (hstep : s.step e = some s') :
    s'.Inv := by
  have hcall : ∀ task : PoolTask, task.own = [] → task.session = [] →
      Inv { s with tasks := task :: s.tasks } := by
    intro task hown hsession
    refine h.congr ?_ ?_ rfl rfl rfl
    · show ((task :: s.tasks).flatMap PoolTask.own).Perm _
      rw [List.flatMap_cons, hown]
      exact .rfl
    · show (s.sftp.toList ++ (task :: s.tasks).flatMap PoolTask.session).toFinset = _
      rw [List.flatMap_cons, hsession]
      rfl
  cases e with
  | sftp =>
      cases hstep
      exact hcall .looking rfl rfl
  | openExec =>
      cases hstep
      exact hcall (.opening .exec) rfl rfl
  | openExecs n =>
      cases n <;> cases hstep
      · exact h
      · exact hcall _ rfl rfl
  | look =>
      simp only [step] at hstep
      split at hstep
      · next htask =>
          cases hcached : s.sftp with
          | none =>
              rw [hcached] at hstep
              cases hstep
              exact h.turn htask .rfl .rfl
          | some c =>
              rw [hcached] at hstep
              cases hstep
              refine h.congr (perm_own_turn htask .rfl) ?_ rfl rfl rfl
              -- one more share in the cached session
              ext c'
              rw [mem_sessions, mem_sessions, shared_turn, List.mem_append,
                (perm_shared htask).mem_iff]
              show s.sftp = some c' ∨ c' ∈ [c] ∨ _ ↔ s.sftp = some c' ∨ _
              rw [hcached, List.mem_singleton]
              constructor
              · rintro (hc | rfl | hrest)
                · exact .inl hc
                · exact .inl rfl
                · exact .inr hrest
              · rintro (hc | hrest)
                · exact .inl hc
                · exact .inr (.inr hrest)
      · cases hstep
  | answer purpose ok =>
      simp only [step] at hstep
      split at hstep <;> cases hstep
      cases ok
      · exact h.turn ‹_› (by simp [PoolTask.own]) .rfl
      · exact h.turn ‹_› (by simp [PoolTask.own]) .rfl
  | count purpose =>
      simp only [step] at hstep
      split at hstep <;> cases hstep
      exact h.count_step ‹_›
  | note purpose =>
      simp only [step] at hstep
      split at hstep <;> cases hstep
      have hturn : (s.turn (.noting purpose) [.evicting purpose]).Inv :=
        h.turn ‹_› (by simp [PoolTask.own]) .rfl
      exact hturn.congr .rfl rfl rfl rfl rfl
  | evict purpose =>
      simp only [step] at hstep
      split at hstep
      · next htask =>
          cases hevict : s.evict_sftp with
          | none =>
              rw [hevict] at hstep
              cases hstep
              apply h.turn htask
              · rw [own_failed]
                exact .rfl
              · rw [session_failed]
                exact .rfl
          | some s₁ =>
              rw [hevict] at hstep
              cases hstep
              have htasks : s₁.tasks = s.tasks := by
                unfold evict_sftp at hevict
                obtain ⟨c, -, rfl⟩ := Option.map_eq_some_iff.mp hevict
                rfl
              apply (h.evict_step hmeets hevict).turn (htasks ▸ htask) _ .rfl
              simp [PoolTask.own]
      · cases hstep
  | start c ok =>
      cases hmeets
      simp only [step] at hstep
      split at hstep <;> cases hstep
      exact h.turn ‹_› .rfl .rfl
  | cache c =>
      simp only [step] at hstep
      split at hstep <;> cases hstep
      exact h.cache_step ‹_› hmeets
  | returnSftp c =>
      simp only [step] at hstep
      split at hstep <;> cases hstep
      exact h.return_step ‹_› hmeets
  | release c =>
      simp only [step] at hstep
      split at hstep <;> cases hstep
      exact h.release_step ‹_›
  | _ =>
      -- the task goes on with the channel that it has
      simp only [step] at hstep
      split at hstep <;> cases hstep
      exact h.turn ‹_› .rfl .rfl

/-- The accounting is right in all states of all runs whose steps meet the condition. -/
theorem accounting_of_run {es : List PoolEvent} {s : ChannelPool}
    (hmeets : Machine.Meeting step Meets es new) (hrun : Machine.run step es new = some s) :
    s.Right :=
  (Machine.invariant (fun _ _ _ h hC hstep => inv_step h hC hstep) inv_new hmeets hrun).right

/-- A session is created and cached. -/
def createSftp (c : Nat) : List PoolEvent :=
  [.sftp, .look, .answer .sftp true, .count .sftp, .start c true, .cache c]

/-- `open_execs` fails on its third channel and drops the other two, and a session is created, whose
guard is dropped. -/
def partialFailure : List PoolEvent :=
  [.openExecs 3, .answer (.execs [] 2) true, .count (.execs [] 2), .answer (.execs [0] 1) true,
    .count (.execs [0] 1), .answer (.execs [0, 1] 0) false, .note (.execs [0, 1] 0),
    .evict (.execs [0, 1] 0), .close 0, .close 1, .release 0, .release 1] ++
  createSftp 2 ++ [.dropSftp 2, .returnSftp 2]

theorem accounting_partialFailure : ∃ s, Machine.run step partialFailure new = some s ∧ s.Right ∧
    s.channel_limit = some 2 ∧ s.open_count = 1 := by
  suffices hmeets : Machine.Meeting step Meets partialFailure new from
    ⟨_, rfl, accounting_of_run hmeets rfl, rfl, rfl⟩
  iterate 7 refine Machine.Meeting.cons trivial rfl ?_
  refine Machine.Meeting.cons (fun _ h => (by cases h)) rfl ?_
  iterate 8 refine Machine.Meeting.cons trivial rfl ?_
  refine Machine.Meeting.cons rfl rfl (Machine.Meeting.cons (fun _ h => (by cases h)) rfl ?_)
  refine Machine.Meeting.cons trivial rfl (Machine.Meeting.cons ?_ rfl trivial)
  intro cached hcached hne
  cases hcached
  exact absurd rfl hne

/-- The subsystem is refused, two calls create a session each, and a session is evicted under its
guard: the count is one too high, one too high, and one too low with an evicted session cached. -/
theorem not_accounting :
    (∃ s, Machine.run step [.sftp, .look, .answer .sftp true, .count .sftp, .start 0 false] new =
      some s ∧ ¬ s.Right) ∧
    (∃ s, Machine.run step ([.sftp, .sftp, .look, .look, .answer .sftp true, .answer .sftp true,
      .count .sftp, .count .sftp, .start 0 true, .start 1 true, .cache 0, .cache 1, .dropSftp 0,
      .dropSftp 1, .returnSftp 0, .returnSftp 1]) new = some s ∧ ¬ s.Right) ∧
    ∃ s, Machine.run step (createSftp 0 ++ [.openExec, .answer .exec false, .note .exec,
      .evict .exec, .dropSftp 0, .returnSftp 0]) new = some s ∧ ¬ s.Right := by
  refine ⟨⟨_, rfl, fun h => ?_⟩, ⟨_, rfl, fun h => ?_⟩, ⟨_, rfl, fun h => ?_⟩⟩
  · exact absurd (h.1 (fun task htask => (by cases htask))) (by decide)
  · exact absurd (h.1 (fun task htask => (by cases htask))) (by decide)
  · exact (h.2 0 rfl).2 List.mem_cons_self

end ChannelPool

end Distant
