import Distant.Lib.Feed
import Distant.Lib.Machine
import Distant.Lib.Rust
import Distant.Protocol

/-!
# The process actor of the host

One task handles all requests about processes in the order in which they come in. For a `Stdin`
request it waits until there is room in the channel of the process, whose capacity is one, and with
it wait all requests behind.

`Roomy` says of a state that what waits for each process fits into its pipe without the process
reading, but for the last two chunks: one stays in the channel and one with the writer. While this
is so, the task gets to any request by itself (`reaches_of_roomy`).
-/

namespace Distant

/-- The capacity of the channel to the writer of a process. -/
def STDIN_CAPACITY : Nat := 1

/-- A process, with the task that writes to its stdin and the one that waits for its exit. -/
structure ProcessEntry where
  feed : Feed UInt8
  /-- the writer is gone -/
  ended : Bool
  /-- it was told to die -/
  killing : Bool
  exited : Bool
  /-- `InternalRemove` was sent -/
  removing : Bool

/-- What the actor is sent. `Spawn` has the id that the process will get, if there will be one. -/
inductive InnerProcessMsg where
  | spawn (id : Option ProcessId)
  | resize (id : ProcessId)
  | stdin (id : ProcessId) (data : List UInt8)
  | kill (id : ProcessId)
  | internalRemove (id : ProcessId)
  deriving DecidableEq, Repr

structure ProcessActor where
  processes : HashMap ProcessId ProcessEntry
  /-- the messages in the channel, and those that wait for room there -/
  queue : List InnerProcessMsg
  /-- what the actor is handling -/
  busy : Option InnerProcessMsg

inductive ProcessActorEvent where
  | request (msg : InnerProcessMsg)
  | take
  /-- the chunk of a `Stdin` is in the channel, or cannot get there -/
  | sent
  | killed
  /-- the writer takes a chunk -/
  | pull (id : ProcessId)
  | write (id : ProcessId) (n : Nat)
  /-- the writer ends because the process has exited -/
  | endWriter (id : ProcessId)
  /-- the process that was told to die is dead -/
  | die (id : ProcessId)
  | removed (id : ProcessId)
  /-- the process reads from its stdin -/
  | read (id : ProcessId) (n : Nat)
  | exit (id : ProcessId)

namespace ProcessEntry

def new : ProcessEntry := ⟨.new, false, false, false, false⟩

/-- What the next `Stdin` goes to: without the writer, nothing is left of the others. -/
def stdin (entry : ProcessEntry) : Feed UInt8 := if entry.ended = true then .new else entry.feed

end ProcessEntry

namespace ProcessActor

def new : ProcessActor := ⟨∅, [], none⟩

def set (s : ProcessActor) (id : ProcessId) (entry : ProcessEntry) : ProcessActor :=
  { s with processes := s.processes.insert id entry }

/-- The actor takes a message from its channel. -/
def handle (s : ProcessActor) : InnerProcessMsg → ProcessActor
  | .spawn none => s
  | .spawn (some id) => s.set id .new
  | .resize _ => s
  | .stdin id data =>
    match s.processes.lookup id with
    | some _ => { s with busy := some (.stdin id data) }
    | none => s
  | .kill id =>
    match s.processes.lookup id with
    | some _ => { s with busy := some (.kill id) }
    | none => s
  | .internalRemove id => { s with processes := s.processes.erase id }

/-- One step, with pipes of the given size. -/
def step (size : Nat) (s : ProcessActor) : ProcessActorEvent → Option ProcessActor
  | .request (.internalRemove _) => none
  | .request msg => some { s with queue := s.queue ++ [msg] }
  | .take =>
    match s.busy, s.queue with
    | none, msg :: queue => some ({ s with queue := queue }.handle msg)
    | _, _ => none
  | .sent =>
    match s.busy with
    | some (.stdin id data) =>
      match s.processes.lookup id with
      | some entry =>
        if entry.ended = true then some { s with busy := none }
        else if entry.feed.channel.length < STDIN_CAPACITY then
          some { s.set id { entry with feed := entry.feed.send data } with busy := none }
        else none
      | none => none
    | _ => none
  | .killed =>
    match s.busy with
    | some (.kill id) =>
      match s.processes.lookup id with
      | some entry =>
        if entry.exited = true then some { s with busy := none }
        else if entry.killing = false then
          some { s.set id { entry with killing := true } with busy := none }
        else none
      | none => none
    | _ => none
  | .pull id =>
    match s.processes.lookup id with
    | some entry =>
      if entry.ended = true then none
      else entry.feed.pull.map fun feed => s.set id { entry with feed := feed }
    | none => none
  | .write id n =>
    match s.processes.lookup id with
    | some entry =>
      if entry.ended = true then none
      else (entry.feed.write size n).map fun feed => s.set id { entry with feed := feed }
    | none => none
  | .endWriter id =>
    match s.processes.lookup id with
    | some entry =>
      if entry.exited = true then some (s.set id { entry with ended := true }) else none
    | none => none
  | .die id =>
    match s.processes.lookup id with
    | some entry =>
      if entry.killing = true then some (s.set id { entry with exited := true }) else none
    | none => none
  | .removed id =>
    match s.processes.lookup id with
    | some entry =>
      if entry.exited = true ∧ entry.removing = false then
        some { s.set id { entry with removing := true } with
          queue := s.queue ++ [.internalRemove id] }
      else none
    | none => none
  | .read id n =>
    (s.processes.lookup id).map fun entry => s.set id { entry with feed := entry.feed.read n }
  | .exit id =>
    (s.processes.lookup id).map fun entry => s.set id { entry with exited := true }

/-- A step of the program, and not of a client or of a process. -/
def Own : ProcessActorEvent → Prop
  | .request _ => False
  | .read .. => False
  | .exit _ => False
  | _ => True

/-- The chunk that a message has for a process. -/
def chunk (id : ProcessId) : InnerProcessMsg → Option (List UInt8)
  | .stdin id' data => if id' = id then some data else none
  | _ => none

/-- The chunks that wait for room in the channel of a process. -/
def waiting (s : ProcessActor) (id : ProcessId) : List (List UInt8) :=
  (s.busy.toList ++ s.queue).filterMap (chunk id)

/-- What the next `Stdin` for the process goes to. -/
def feed (s : ProcessActor) (id : ProcessId) : Feed UInt8 :=
  (s.processes.lookup id).elim .new ProcessEntry.stdin

/-- There is a process with the id, or will be one. -/
def Known (s : ProcessActor) (id : ProcessId) : Prop :=
  s.processes.lookup id ≠ none ∨ .spawn (some id) ∈ s.queue

/-- All that waits for a process, but for the last two chunks, fits into its pipe. -/
def Roomy (size : Nat) (s : ProcessActor) : Prop :=
  ∀ id, s.Known id → (s.feed id).Fits size (STDIN_CAPACITY + 1) (s.waiting id)

/-- A request comes in only when it leaves enough room. -/
def Meets (size : Nat) (s : ProcessActor) : ProcessActorEvent → Prop
  | .request msg => Roomy size { s with queue := s.queue ++ [msg] }
  | _ => True

/-- The actor gets to each `Kill` in its queue by steps of the program. -/
def KillsReached (size : Nat) (s : ProcessActor) : Prop :=
  ∀ before id after, s.queue = before ++ .kill id :: after →
    ∃ s', Machine.Reaches (step size) Own s s' ∧ s'.busy = none ∧ ∃ later, s'.queue = .kill id :: later

structure Inv (size : Nat) (s : ProcessActor) : Prop where
  roomy : Roomy size s
  busy : ∀ msg, s.busy = some msg → ∃ id entry, s.processes.lookup id = some entry ∧
    (msg = .kill id ∨ ∃ data, msg = .stdin id data)
  short : ∀ id entry, s.processes.lookup id = some entry →
    entry.feed.channel.length ≤ STDIN_CAPACITY

variable {size : Nat} {s s' : ProcessActor} {id : ProcessId} {entry entry' : ProcessEntry}
  {msg : InnerProcessMsg} {queue : List InnerProcessMsg}

theorem inv_new : Inv size new where
  roomy := by
    rintro id (h | h)
    · exact absurd rfl h
    · cases h
  busy := fun msg h => (by cases h)
  short := fun id entry h => (by cases h)

/-- No process is there that was not known before, and for none is there less room. -/
theorem Roomy.of (h : Roomy size s)
    (hstep : ∀ id, s'.Known id → s.Known id ∧
      ((s.feed id).Fits size (STDIN_CAPACITY + 1) (s.waiting id) →
        (s'.feed id).Fits size (STDIN_CAPACITY + 1) (s'.waiting id))) : Roomy size s' :=
  fun id hid => (hstep id hid).2 (h id (hstep id hid).1)

theorem lookup_set (id' : ProcessId) : (s.set id entry).processes.lookup id' =
    if id' = id then some entry else s.processes.lookup id' := by
  show (s.processes.insert id entry).lookup id' = _
  split
  · next h => rw [h, AList.lookup_insert]
  · next h => rw [AList.lookup_insert_ne h]

theorem lookup_set_self : (s.set id entry).processes.lookup id = some entry := AList.lookup_insert _

/-- A process changes, and no chunk that waits for it. -/
theorem Inv.set (h : Inv size s) (hentry : s.processes.lookup id = some entry)
    (hfits : ∀ waiting, entry.stdin.Fits size (STDIN_CAPACITY + 1) waiting →
      entry'.stdin.Fits size (STDIN_CAPACITY + 1) waiting)
    (hshort : entry'.feed.channel.length ≤ STDIN_CAPACITY) : Inv size (s.set id entry') := by
  refine ⟨h.roomy.of fun id' hid' => ?_, fun msg hbusy => ?_, fun id' found hfound => ?_⟩
  · by_cases hsame : id' = id
    · subst hsame
      refine ⟨.inl (by simp [hentry]), fun hroom => ?_⟩
      rw [feed, lookup_set, if_pos rfl]
      rw [feed, hentry] at hroom
      exact hfits _ hroom
    · rw [Known, lookup_set, if_neg hsame] at hid'
      refine ⟨hid', fun hroom => ?_⟩
      rw [feed, lookup_set, if_neg hsame]
      exact hroom
  · obtain ⟨id', found, hfound, hmsg⟩ := h.busy msg hbusy
    by_cases hsame : id' = id
    · exact ⟨id', entry', by rw [lookup_set, if_pos hsame], hmsg⟩
    · exact ⟨id', found, by rw [lookup_set, if_neg hsame]; exact hfound, hmsg⟩
  · rw [lookup_set] at hfound
    split at hfound
    · cases hfound
      exact hshort
    · exact h.short id' found hfound

/-- A process changes in what has nothing to do with its stdin. -/
theorem Inv.set_same (h : Inv size s) (hentry : s.processes.lookup id = some entry)
    (hfeed : entry'.feed = entry.feed) (hended : entry'.ended = entry.ended) :
    Inv size (s.set id entry') := by
  refine h.set hentry (fun waiting hfits => ?_) (hfeed ▸ h.short id entry hentry)
  rw [ProcessEntry.stdin, hfeed, hended]
  exact hfits

theorem waiting_cons (hbusy : s.busy = none) (hqueue : s.queue = msg :: queue) (id : ProcessId) :
    s.waiting id = (chunk id msg).toList ++ queue.filterMap (chunk id) := by
  rw [waiting, hbusy, hqueue]
  show List.filterMap (chunk id) (msg :: queue) = _
  rw [List.filterMap_cons]
  cases chunk id msg <;> rfl

theorem Inv.handle_step (h : Inv size s) (hbusy : s.busy = none) (hqueue : s.queue = msg :: queue) :
    Inv size (ProcessActor.handle { s with queue := queue } msg) := by
  have hknown : ∀ id, Known { s with queue := queue } id → s.Known id := by
    rintro id (hlookup | hspawn)
    · exact .inl hlookup
    · exact .inr (hqueue ▸ List.mem_cons_of_mem _ hspawn)
  have hidle : ∀ msg', ({ s with queue := queue } : ProcessActor).busy = some msg' →
      ∃ id entry, s.processes.lookup id = some entry ∧
        (msg' = .kill id ∨ ∃ data, msg' = .stdin id data) := by
    intro msg' hmsg'
    rw [show ({ s with queue := queue } : ProcessActor).busy = s.busy from rfl, hbusy] at hmsg'
    cases hmsg'
  -- a message that has no chunk for anybody, and changes nothing
  have hskip : (∀ id, chunk id msg = none) → Inv size { s with queue := queue } := by
    intro hchunk
    refine ⟨h.roomy.of fun id hid => ⟨hknown id hid, fun hroom => ?_⟩, hidle, h.short⟩
    rw [waiting_cons hbusy hqueue, hchunk id] at hroom
    show (s.feed id).Fits _ _ ((s.busy.toList ++ queue).filterMap (chunk id))
    rw [hbusy]
    exact hroom
  cases msg with
  | spawn spawned =>
      cases spawned with
      | none => exact hskip fun _ => rfl
      | some id =>
          have hskip := hskip fun _ => rfl
          refine ⟨fun id' hid' => ?_, fun msg' hmsg' => ?_, fun id' found hfound => ?_⟩
          · by_cases hsame : id' = id
            · subst hsame
              have hroom := h.roomy id' (.inr (hqueue ▸ List.mem_cons_self))
              rw [waiting_cons hbusy hqueue] at hroom
              show (feed (ProcessActor.set _ _ _) _).Fits _ _
                ((s.busy.toList ++ queue).filterMap (chunk id'))
              rw [feed, lookup_set, if_pos rfl, hbusy]
              exact hroom.new
            · have hlookup : (ProcessActor.set { s with queue := queue } id .new).processes.lookup id' =
                  s.processes.lookup id' := by
                rw [lookup_set, if_neg hsame]
              have hroom := hskip.roomy id' (by
                rcases hid' with hfound | hspawn
                · exact .inl (hlookup ▸ hfound)
                · exact .inr hspawn)
              show (feed (ProcessActor.set _ _ _) _).Fits _ _ _
              rw [feed, hlookup]
              exact hroom
          · obtain ⟨id', found, hfound, hmsg⟩ := hidle msg' hmsg'
            rw [show (ProcessActor.handle _ _).busy = s.busy from rfl, hbusy] at hmsg'
            cases hmsg'
          · rw [show (ProcessActor.handle { s with queue := queue } (.spawn (some id))) =
              ProcessActor.set { s with queue := queue } id .new from rfl, lookup_set] at hfound
            split at hfound
            · cases hfound
              exact Nat.zero_le _
            · exact h.short id' found hfound
  | resize id => exact hskip fun _ => rfl
  | stdin id data =>
      unfold ProcessActor.handle
      cases hentry : s.processes.lookup id with
      | some entry =>
          simp only [hentry]
          refine ⟨h.roomy.of fun id' hid' => ⟨hknown id' hid', fun hroom => ?_⟩, ?_, h.short⟩
          · rw [waiting, hbusy, hqueue] at hroom
            exact hroom
          · rintro msg' ⟨⟩
            exact ⟨id, entry, hentry, .inr ⟨data, rfl⟩⟩
      | none =>
          simp only [hentry]
          refine ⟨h.roomy.of fun id' hid' => ⟨hknown id' hid', fun hroom => ?_⟩, hidle, h.short⟩
          show (s.feed id').Fits _ _ ((s.busy.toList ++ queue).filterMap (chunk id'))
          rw [waiting_cons hbusy hqueue] at hroom
          rw [hbusy]
          by_cases hsame : id = id'
          · subst hsame
            rw [chunk, if_pos rfl] at hroom
            rw [feed, hentry]
            exact hroom.new.sublist (List.sublist_cons_self _ _)
          · rw [chunk, if_neg hsame] at hroom
            exact hroom
  | kill id =>
      have hskip := hskip fun _ => rfl
      unfold ProcessActor.handle
      cases hentry : s.processes.lookup id with
      | some entry =>
          simp only [hentry]
          refine ⟨h.roomy.of fun id' hid' => ⟨hknown id' hid', fun hroom => ?_⟩, ?_, h.short⟩
          · rw [waiting, hbusy, hqueue] at hroom
            exact hroom
          · rintro msg' ⟨⟩
            exact ⟨id, entry, hentry, .inl rfl⟩
      | none =>
          simp only [hentry]
          exact hskip
  | internalRemove id =>
      have hskip := hskip fun _ => rfl
      have hlookup : ∀ id', (s.processes.erase id).lookup id' =
          if id' = id then none else s.processes.lookup id' := by
        intro id'
        split
        · next hsame => rw [hsame, AList.lookup_erase]
        · next hsame => rw [AList.lookup_erase_ne hsame]
      refine ⟨fun id' hid' => ?_, fun msg' hmsg' => ?_, fun id' found hfound => ?_⟩
      · have hknown' : Known { s with queue := queue } id' := by
          rcases hid' with hfound | hspawn
          · refine .inl fun hnone => hfound ?_
            show (s.processes.erase id).lookup id' = none
            rw [hlookup]
            split
            · rfl
            · exact hnone
          · exact .inr hspawn
        have hroom := hskip.roomy id' hknown'
        show Feed.Fits size _ (((s.processes.erase id).lookup id').elim .new ProcessEntry.stdin) _
        rw [hlookup]
        split
        · exact hroom.new
        · exact hroom
      · rw [show (ProcessActor.handle _ _).busy = s.busy from rfl, hbusy] at hmsg'
        cases hmsg'
      · have hfound : (s.processes.erase id).lookup id' = some found := hfound
        rw [hlookup] at hfound
        split at hfound
        · cases hfound
        · exact h.short id' found hfound

/-- The actor is done with what it was handling, if the rest of what waits still fits. -/
theorem Inv.idle (h : Inv size s) (hwaiting : ∀ id, s.Known id →
    (s.feed id).Fits size (STDIN_CAPACITY + 1) (s.queue.filterMap (chunk id))) :
    Inv size { s with busy := none } :=
  ⟨hwaiting, fun msg hmsg => (by cases hmsg), h.short⟩

theorem waiting_busy (hbusy : s.busy = some msg) (id : ProcessId) :
    s.waiting id = (chunk id msg).toList ++ s.queue.filterMap (chunk id) := by
  rw [waiting, hbusy]
  show List.filterMap (chunk id) (msg :: s.queue) = _
  rw [List.filterMap_cons]
  cases chunk id msg <;> rfl

theorem Inv.killed_step (h : Inv size s) (hbusy : s.busy = some (.kill id)) :
    Inv size { s with busy := none } := by
  refine h.idle fun id' hid' => ?_
  have hroom := h.roomy id' hid'
  rw [waiting_busy hbusy] at hroom
  exact hroom

/-- The chunk cannot get to the writer, which is gone. -/
theorem Inv.refused_step (h : Inv size s) {data : List UInt8} (hbusy : s.busy = some (.stdin id data))
    (hentry : s.processes.lookup id = some entry) (hended : entry.ended = true) :
    Inv size { s with busy := none } := by
  refine h.idle fun id' hid' => ?_
  have hroom := h.roomy id' hid'
  rw [waiting_busy hbusy] at hroom
  by_cases hsame : id = id'
  · subst hsame
    rw [chunk, if_pos rfl] at hroom
    rw [feed, hentry]
    show entry.stdin.Fits _ _ _
    rw [ProcessEntry.stdin, if_pos hended]
    exact hroom.new.sublist (List.sublist_cons_self _ _)
  · rw [chunk, if_neg hsame] at hroom
    exact hroom

theorem Inv.sent_step (h : Inv size s) {data : List UInt8} (hbusy : s.busy = some (.stdin id data))
    (hentry : s.processes.lookup id = some entry) (hended : ¬ entry.ended = true)
    (hroom : entry.feed.channel.length < STDIN_CAPACITY) :
    Inv size { s.set id { entry with feed := entry.feed.send data } with busy := none } := by
  refine ⟨fun id' hid' => ?_, fun msg hmsg => (by cases hmsg), fun id' found hfound => ?_⟩
  · show ((s.set id _).feed id').Fits _ _ (s.queue.filterMap (chunk id'))
    rw [feed, lookup_set]
    by_cases hsame : id' = id
    · subst hsame
      have hfits := h.roomy id' (.inl (by simp [hentry]))
      rw [waiting_busy hbusy, feed, hentry, chunk, if_pos rfl] at hfits
      replace hfits : entry.stdin.Fits size (STDIN_CAPACITY + 1) (data :: _) := hfits
      rw [ProcessEntry.stdin, if_neg hended] at hfits
      rw [if_pos rfl]
      show (ProcessEntry.stdin _).Fits _ _ _
      rw [ProcessEntry.stdin, if_neg hended]
      exact hfits.send
    · have hfits := h.roomy id' (by
        rcases hid' with hfound | hspawn
        · refine .inl fun hnone => hfound ?_
          show (s.set id _).processes.lookup id' = none
          rw [lookup_set, if_neg hsame]
          exact hnone
        · exact .inr hspawn)
      rw [waiting_busy hbusy, chunk, if_neg (Ne.symm hsame)] at hfits
      rw [if_neg hsame]
      exact hfits
  · have hfound : (s.set id _).processes.lookup id' = some found := hfound
    rw [lookup_set] at hfound
    split at hfound
    · cases hfound
      show (entry.feed.channel ++ [data]).length ≤ STDIN_CAPACITY
      rw [List.length_append]
      exact hroom
    · exact h.short id' found hfound

/-- The stdin of a process that is there changes. -/
theorem Inv.set_feed (h : Inv size s) (hentry : s.processes.lookup id = some entry)
    {feed : Feed UInt8} (hfits : ∀ waiting, entry.feed.Fits size (STDIN_CAPACITY + 1) waiting →
      feed.Fits size (STDIN_CAPACITY + 1) waiting)
    (hshort : feed.channel.length ≤ entry.feed.channel.length) :
    Inv size (s.set id { entry with feed := feed }) := by
  refine h.set hentry (fun waiting hroom => ?_) (hshort.trans (h.short id entry hentry))
  unfold ProcessEntry.stdin at hroom ⊢
  split at hroom
  · next hended =>
      rw [if_pos hended]
      exact hroom
  · next hended =>
      rw [if_neg hended]
      exact hfits _ hroom

theorem inv_step {e : ProcessActorEvent} (h : Inv size s) (hmeets : Meets size s e)
    (hstep : s.step size e = some s') : Inv size s' := by
  unfold step at hstep
  cases e with
  | request msg =>
      have hs' : s' = { s with queue := s.queue ++ [msg] } := by
        cases msg <;> cases hstep <;> rfl
      subst hs'
      exact ⟨hmeets, h.busy, h.short⟩
  | take =>
      simp only at hstep
      split at hstep <;> cases hstep
      next hbusy hqueue => exact h.handle_step hbusy hqueue
  | sent =>
      simp only at hstep
      split at hstep
      · next id data hbusy =>
          split at hstep
          · next entry hentry =>
              split at hstep
              · next hended =>
                  cases hstep
                  exact h.refused_step hbusy hentry hended
              · next hended =>
                  split at hstep <;> cases hstep
                  exact h.sent_step hbusy hentry hended ‹_›
          · cases hstep
      · cases hstep
  | killed =>
      simp only at hstep
      split at hstep
      · next id hbusy =>
          split at hstep
          · next entry hentry =>
              split at hstep
              · cases hstep
                exact h.killed_step hbusy
              · split at hstep <;> cases hstep
                have hset : Inv size (s.set id { entry with killing := true }) :=
                  h.set_same hentry rfl rfl
                exact Inv.killed_step hset hbusy
          · cases hstep
      · cases hstep
  | pull id =>
      simp only at hstep
      split at hstep
      · next entry hentry =>
          split at hstep
          · cases hstep
          · obtain ⟨feed, hpull, rfl⟩ := Option.map_eq_some_iff.mp hstep
            exact h.set_feed hentry (fun _ hfits => hfits.pull hpull) (Feed.length_pull hpull)
      · cases hstep
  | write id n =>
      simp only at hstep
      split at hstep
      · next entry hentry =>
          split at hstep
          · cases hstep
          · obtain ⟨feed, hwrite, rfl⟩ := Option.map_eq_some_iff.mp hstep
            exact h.set_feed hentry (fun _ hfits => hfits.write hwrite)
              (le_of_eq (congrArg _ (Feed.channel_write hwrite)))
      · cases hstep
  | endWriter id =>
      simp only at hstep
      split at hstep
      · next entry hentry =>
          split at hstep <;> cases hstep
          refine h.set hentry (fun waiting hroom => ?_) (h.short id entry hentry)
          exact hroom.new
      · cases hstep
  | die id =>
      simp only at hstep
      split at hstep
      · next entry hentry =>
          split at hstep <;> cases hstep
          exact h.set_same hentry rfl rfl
      · cases hstep
  | removed id =>
      simp only at hstep
      split at hstep
      · next entry hentry =>
          split at hstep <;> cases hstep
          have hset : Inv size (s.set id { entry with removing := true }) :=
            h.set_same hentry rfl rfl
          refine ⟨hset.roomy.of fun id' hid' => ?_, hset.busy, hset.short⟩
          refine ⟨hid'.imp_right fun hspawn => ?_, fun hroom => ?_⟩
          · rcases List.mem_append.mp hspawn with hspawn | hspawn
            · exact hspawn
            · cases List.mem_singleton.mp hspawn
          · show Feed.Fits size _ _ ((s.busy.toList ++ (s.queue ++ [_])).filterMap (chunk id'))
            rw [← List.append_assoc, List.filterMap_append]
            show Feed.Fits size _ _ (_ ++ [])
            rw [List.append_nil]
            exact hroom
      · cases hstep
  | read id n =>
      obtain ⟨entry, hentry, rfl⟩ := Option.map_eq_some_iff.mp hstep
      exact h.set_feed hentry (fun _ hfits => hfits.read n) (le_refl _)
  | exit id =>
      obtain ⟨entry, hentry, rfl⟩ := Option.map_eq_some_iff.mp hstep
      exact h.set_same hentry rfl rfl

theorem inv_own {e : ProcessActorEvent} (h : Inv size s) (howned : Own e)
    (hstep : s.step size e = some s') : Inv size s' := by
  refine inv_step h ?_ hstep
  cases e
  case request => cases howned
  all_goals trivial

/-- The actor is done with what it was handling. -/
def Unblocks (size : Nat) (s : ProcessActor) : Prop :=
  ∃ s', Machine.Reaches (step size) Own s s' ∧ s'.busy = none ∧ s'.queue = s.queue

theorem unblocks_of_step {e : ProcessActorEvent} (hstep : s.step size e = some s') (howned : Own e)
    (hqueue : s'.queue = s.queue) (h : Unblocks size s') :
    Unblocks size s := by
  obtain ⟨s₁, hreach, hbusy, hsame⟩ := h
  exact ⟨s₁, .head hstep howned hreach, hbusy, hsame.trans hqueue⟩

theorem unblocks_of_idle (hbusy : s.busy = none) : Unblocks size s := ⟨s, .refl, hbusy, rfl⟩

variable {data : List UInt8}

theorem unblocks_of_room (hbusy : s.busy = some (.stdin id data))
    (hentry : s.processes.lookup id = some entry)
    (hroom : entry.ended = true ∨ entry.feed.channel.length < STDIN_CAPACITY) :
    Unblocks size s := by
  by_cases hended : entry.ended = true
  · have hstep : s.step size .sent = some { s with busy := none } := by
      unfold step
      simp only [hbusy, hentry, if_pos hended]
    exact unblocks_of_step hstep trivial rfl (unblocks_of_idle rfl)
  · have hstep : s.step size .sent = some
        { s.set id { entry with feed := entry.feed.send data } with busy := none } := by
      unfold step
      simp only [hbusy, hentry, if_neg hended, if_pos (hroom.resolve_left hended)]
    exact unblocks_of_step hstep trivial rfl (unblocks_of_idle rfl)

/-- The writer has nothing to write, and takes the chunk out of the channel. -/
theorem unblocks_of_waiting (hbusy : s.busy = some (.stdin id data))
    (hentry : s.processes.lookup id = some entry) (hwriting : entry.feed.writing = none)
    (hshort : entry.feed.channel.length ≤ STDIN_CAPACITY) : Unblocks size s := by
  by_cases hended : entry.ended = true
  · exact unblocks_of_room hbusy hentry (.inl hended)
  · cases hchannel : entry.feed.channel with
    | nil => exact unblocks_of_room hbusy hentry (.inr (by rw [hchannel]; exact Nat.one_pos))
    | cons chunk channel =>
        rw [hchannel] at hshort
        have hstep : s.step size (.pull id) = some (s.set id { entry with
            feed := { entry.feed with channel := channel, writing := some chunk } }) := by
          unfold step
          simp only [hentry, if_neg hended, Feed.pull, hwriting, hchannel, Option.map_some]
        refine unblocks_of_step hstep trivial rfl
          (unblocks_of_room hbusy lookup_set_self (.inr ?_))
        exact Nat.lt_of_succ_le hshort

theorem Inv.unblocks_stdin (h : Inv size s) (hbusy : s.busy = some (.stdin id data))
    (hentry : s.processes.lookup id = some entry) : Unblocks size s := by
  have hshort := h.short id entry hentry
  by_cases hended : entry.ended = true
  · exact unblocks_of_room hbusy hentry (.inl hended)
  by_cases hroom : entry.feed.channel.length < STDIN_CAPACITY
  · exact unblocks_of_room hbusy hentry (.inr hroom)
  cases hwriting : entry.feed.writing with
  | none => exact unblocks_of_waiting hbusy hentry hwriting hshort
  | some rest =>
      -- a full channel, and one more chunk: what is being written fits
      have hfits := h.roomy id (.inl (by simp [hentry]))
      rw [waiting_busy hbusy, feed, hentry, chunk, if_pos rfl] at hfits
      replace hfits : entry.stdin.Fits size (STDIN_CAPACITY + 1) (data :: _) := hfits
      rw [ProcessEntry.stdin, if_neg hended] at hfits
      have hwritable := hfits.writable hwriting (by
        rw [List.length_append, List.length_cons]
        omega)
      have hstep : s.step size (.write id rest.length) = some (s.set id { entry with
          feed := { entry.feed with
            writing := none
            buffered := entry.feed.buffered + rest.length } }) := by
        unfold step
        simp only [hentry, if_neg hended, Feed.write_all hwriting hwritable, Option.map_some]
      exact unblocks_of_step hstep trivial rfl
        (unblocks_of_waiting hbusy lookup_set_self rfl hshort)

theorem unblocks_kill (hbusy : s.busy = some (.kill id))
    (hentry : s.processes.lookup id = some entry) : Unblocks size s := by
  have hexited : ∀ s₁ : ProcessActor, ∀ entry₁ : ProcessEntry, s₁.busy = some (.kill id) →
      s₁.processes.lookup id = some entry₁ → entry₁.exited = true → Unblocks size s₁ := by
    intro s₁ entry₁ hbusy hentry hexited
    have hstep : s₁.step size .killed = some { s₁ with busy := none } := by
      unfold step
      simp only [hbusy, hentry, if_pos hexited]
    exact unblocks_of_step hstep trivial rfl (unblocks_of_idle rfl)
  by_cases hdead : entry.exited = true
  · exact hexited s entry hbusy hentry hdead
  cases hkilling : entry.killing with
  | false =>
      have hstep : s.step size .killed =
          some { s.set id { entry with killing := true } with busy := none } := by
        unfold step
        simp only [hbusy, hentry, if_neg hdead, hkilling, if_true]
      exact unblocks_of_step hstep trivial rfl (unblocks_of_idle rfl)
  | true =>
      have hstep : s.step size (.die id) = some (s.set id { entry with exited := true }) := by
        unfold step
        simp only [hentry, hkilling, if_true]
      exact unblocks_of_step hstep trivial rfl
        (hexited _ _ hbusy lookup_set_self rfl)

theorem Inv.unblocks (h : Inv size s) : Unblocks size s := by
  cases hbusy : s.busy with
  | none => exact unblocks_of_idle hbusy
  | some msg =>
      obtain ⟨id, entry, hentry, rfl | ⟨data, rfl⟩⟩ := h.busy msg hbusy
      · exact unblocks_kill hbusy hentry
      · exact h.unblocks_stdin hbusy hentry

theorem queue_handle (msg : InnerProcessMsg) : (s.handle msg).queue = s.queue := by
  cases msg with
  | spawn spawned => cases spawned <;> rfl
  | resize id => rfl
  | stdin id data =>
      unfold handle
      cases hentry : s.processes.lookup id <;> simp only [hentry]
  | kill id =>
      unfold handle
      cases hentry : s.processes.lookup id <;> simp only [hentry]
  | internalRemove id => rfl

/-- One message after the other is handled, until the `Kill` is next. -/
theorem Inv.killsReached (h : Inv size s) : KillsReached size s := by
  intro before
  induction before generalizing s with
  | nil =>
      intro id after hqueue
      obtain ⟨s', hreach, hbusy, hsame⟩ := h.unblocks
      exact ⟨s', hreach, hbusy, after, hsame.trans hqueue⟩
  | cons msg before ih =>
      intro id after hqueue
      obtain ⟨s₁, hreach, hbusy, hsame⟩ := h.unblocks
      have hnext : s₁.queue = msg :: (before ++ .kill id :: after) := hsame.trans hqueue
      have htake : s₁.step size .take = some (ProcessActor.handle
          { s₁ with queue := before ++ .kill id :: after } msg) := by
        unfold step
        simp only [hbusy, hnext]
      have hinv := inv_own (e := .take) (hreach.invariant (fun _ _ _ => inv_own) h) trivial htake
      obtain ⟨s', hreach', hdone⟩ := ih hinv id after (queue_handle msg)
      exact ⟨s', hreach.trans (.head htake trivial hreach'), hdone⟩

/-- All kills are reached in all states of all runs whose steps meet the condition. -/
theorem reached_of_run {es : List ProcessActorEvent} {s : ProcessActor}
    (hmeets : Machine.Meeting (step size) (Meets size) es new)
    (hrun : Machine.run (step size) es new = some s) : KillsReached size s :=
  (Machine.invariant (fun _ _ _ h hC hstep => inv_step h hC hstep) inv_new hmeets hrun).killsReached

theorem roomy_of_new (hfeed : ∀ id, s.feed id = .new)
    (hfew : (s.busy.toList ++ s.queue).length ≤ STDIN_CAPACITY + 1) : Roomy size s := by
  intro id _
  rw [hfeed]
  exact Feed.fits_new ((List.length_filterMap_le _ _).trans hfew)

/-- A process is given one chunk, and is to be killed. -/
def killed : List ProcessActorEvent :=
  [.request (.spawn (some 7)), .take, .request (.stdin 7 [1]), .request (.kill 7)]

theorem meeting_killed : Machine.Meeting (step size) (Meets size) killed new := by
  refine .cons (roomy_of_new (fun _ => rfl) (by decide)) rfl (.cons trivial rfl ?_)
  have hfeed : ∀ id, (ProcessActor.set new 7 .new).feed id = .new := by
    intro id
    rw [feed, lookup_set]
    split <;> rfl
  refine .cons (roomy_of_new hfeed (by decide)) rfl (.cons ?_ rfl trivial)
  exact roomy_of_new hfeed (by decide)

/-- A process that never reads is given one byte more than its pipe takes, and two more chunks; then it is to be
killed. -/
def unread (size : Nat) : List ProcessActorEvent :=
  [.request (.spawn (some 7)), .take, .request (.stdin 7 (List.replicate (size + 1) 0)), .take, .sent,
    .pull 7, .write 7 size, .request (.stdin 7 [1]), .take, .sent, .request (.stdin 7 [2]), .take,
    .request (.kill 7)]

/-- The process that does not read, with the actor waiting for it. -/
def stuck (size : Nat) : ProcessActor where
  processes := (∅ : HashMap ProcessId ProcessEntry).insert 7
    { ProcessEntry.new with feed := ⟨[[1]], some [0], size⟩ }
  queue := [.kill 7]
  busy := some (.stdin 7 [2])

theorem run_unread (hsize : 0 < size) :
    Machine.run (step size) (unread size) new = some (stuck size) := by
  have hlookup : ∀ e : ProcessEntry,
      (AList.singleton 7 e : HashMap ProcessId ProcessEntry).lookup 7 = some e := by
    intro e
    rw [← AList.insert_empty]
    exact AList.lookup_insert _
  simp [unread, Machine.run, step, handle, new, set, ProcessEntry.new, Feed.new, Feed.pull, Feed.write,
    Feed.send, STDIN_CAPACITY, stuck, hlookup, AList.insert_singleton_eq, List.drop_replicate, hsize]

theorem not_step_stuck {e : ProcessActorEvent} (howned : Own e) : (stuck size).step size e = none := by
  have hlookup : ∀ id : ProcessId, (stuck size).processes.lookup id =
      if id = 7 then some { ProcessEntry.new with feed := ⟨[[1]], some [0], size⟩ } else none := by
    intro id
    split
    · next h => rw [h]; exact AList.lookup_insert _
    · next h => exact AList.lookup_insert_ne h
  cases e with
  | request msg => cases howned
  | take => rfl
  | sent => rfl
  | killed => rfl
  | read id n => cases howned
  | exit id => cases howned
  | write id n =>
      unfold step
      simp only [hlookup]
      by_cases h : id = 7
      · simp [h, ProcessEntry.new, Feed.write]
      · simp [h]
  | _ id =>
      unfold step
      simp only [hlookup]
      by_cases h : id = 7
      · simp [h, ProcessEntry.new, Feed.pull]
      · simp [h]

theorem not_killsReached_stuck : ¬ KillsReached size (stuck size) := by
  intro h
  obtain ⟨s', hreach, hbusy, -⟩ := h [] 7 [] rfl
  rw [hreach.eq_of_stuck fun _ => not_step_stuck] at hbusy
  cases hbusy

end ProcessActor

end Distant
