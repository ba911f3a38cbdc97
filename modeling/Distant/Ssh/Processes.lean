import Distant.Host.Processes

/-!
# The process table of the SSH backend

The table is behind a lock that goes to those who wait for it in the order in which they came: to
one that writes when nobody has it, and to one that reads when no writer has it. A `Stdin` request
keeps the lock while it waits for room in the channel of the process, whose capacity is 32, and a
`Resize` request while it waits for room in another one; a `Kill` needs the lock for itself.

Again a request is reached if what waits fits without the process reading, but for the last 33
chunks (`Roomy`); all of it has to when more than one resize is waiting, since the task that writes
to stdin also takes the resizes.
-/

namespace Distant

namespace Ssh

/-- The capacity of the channel with the chunks for stdin. -/
def STDIN_CAPACITY : Nat := 32

structure Process where
  feed : Feed UInt8
  /-- the sizes in their channel, whose capacity is one -/
  resizes : Nat
  pty : Bool
  /-- the sender of the channel to kill the process is there -/
  killer : Bool
  /-- there is a message in this channel -/
  killing : Bool
  /-- the task with the other ends of the channels is gone -/
  ended : Bool
  exited : Bool
  removing : Bool

/-- What needs the lock on the table. -/
inductive TableRequest where
  | stdin (id : ProcessId) (data : List UInt8)
  | resize (id : ProcessId)
  | kill (id : ProcessId)
  | insert (id : ProcessId) (pty : Bool)
  | remove (id : ProcessId)
  deriving DecidableEq, Repr

structure ProcessTable where
  processes : HashMap ProcessId Process
  /-- those that wait for the lock -/
  queue : List TableRequest
  /-- those that have it and wait for room in a channel -/
  readers : List TableRequest

inductive TableEvent where
  | request (request : TableRequest)
  /-- the lock goes to the next one -/
  | grant
  /-- the first chunk for the process is in its channel, or cannot get there -/
  | sent (id : ProcessId)
  | resized (id : ProcessId)
  | pull (id : ProcessId)
  | write (id : ProcessId) (n : Nat)
  | takeResize (id : ProcessId)
  | takeKill (id : ProcessId)
  | endTask (id : ProcessId)
  | cleanup (id : ProcessId)
  /-- the process reads from its stdin -/
  | read (id : ProcessId) (n : Nat)
  | exit (id : ProcessId)

namespace Process

def new (pty : Bool) : Process where
  feed := .new
  resizes := 0
  pty := pty
  killer := true
  killing := false
  ended := false
  exited := false
  removing := false

/-- What the next chunk goes to: without its task, nothing is left of the others. -/
def stdin (process : Process) : Feed UInt8 := if process.ended = true then .new else process.feed

/-- The sizes that are still to be taken. -/
def sizes (process : Process) : Nat := if process.ended = true then 0 else process.resizes

end Process

namespace ProcessTable

def new : ProcessTable := ⟨∅, [], []⟩

def set (s : ProcessTable) (id : ProcessId) (process : Process) : ProcessTable :=
  { s with processes := s.processes.insert id process }

/-- The chunk that a request has for a process. -/
def chunk (id : ProcessId) : TableRequest → Option (List UInt8)
  | .stdin id' data => if id' = id then some data else none
  | _ => none

/-- A request has the lock. -/
def handle (s : ProcessTable) : TableRequest → Option ProcessTable
  | .stdin id data =>
    match s.processes.lookup id with
    | some _ => some { s with readers := s.readers ++ [.stdin id data] }
    | none => some s
  | .resize id =>
    match s.processes.lookup id with
    | some _ => some { s with readers := s.readers ++ [.resize id] }
    | none => some s
  | .kill id =>
    if s.readers = [] then
      match s.processes.lookup id with
      | some process =>
        if process.killer = true then
          some (s.set id { process with killer := false, killing := true })
        else some s
      | none => some s
    else none
  | .insert id pty => if s.readers = [] then some (s.set id (.new pty)) else none
  | .remove id =>
    if s.readers = [] then some { s with processes := s.processes.erase id } else none

/-- One step, where each process takes so much more than it has read. -/
def step (size : Nat) (s : ProcessTable) : TableEvent → Option ProcessTable
  | .request (.remove _) => none
  | .request request => some { s with queue := s.queue ++ [request] }
  | .grant =>
    match s.queue with
    | request :: queue => { s with queue := queue }.handle request
    | [] => none
  | .sent id =>
    match s.processes.lookup id, s.readers.findSome? (chunk id) with
    | some process, some data =>
      let s' := { s with readers := s.readers.erase (.stdin id data) }
      if process.ended = true then some s'
      else if process.feed.channel.length < STDIN_CAPACITY then
        some (s'.set id { process with feed := process.feed.send data })
      else none
    | _, _ => none
  | .resized id =>
    match s.processes.lookup id with
    | some process =>
      if .resize id ∈ s.readers then
        let s' := { s with readers := s.readers.erase (.resize id) }
        if process.ended = true ∨ process.pty = false then some s'
        else if process.resizes = 0 then some (s'.set id { process with resizes := 1 })
        else none
      else none
    | none => none
  | .pull id =>
    match s.processes.lookup id with
    | some process =>
      if process.ended = true then none
      else process.feed.pull.map fun feed => s.set id { process with feed := feed }
    | none => none
  | .write id n =>
    match s.processes.lookup id with
    | some process =>
      if process.ended = true then none
      else (process.feed.write size n).map fun feed => s.set id { process with feed := feed }
    | none => none
  | .takeResize id =>
    match s.processes.lookup id with
    | some process =>
      -- the task is not in the middle of a chunk
      if process.ended = false ∧ process.feed.writing = none ∧ 0 < process.resizes then
        some (s.set id { process with resizes := process.resizes - 1 })
      else none
    | none => none
  | .takeKill id =>
    match s.processes.lookup id with
    | some process =>
      if process.ended = false ∧ process.feed.writing = none ∧ process.killing = true then
        some (s.set id { process with ended := true })
      else none
    | none => none
  | .endTask id =>
    match s.processes.lookup id with
    | some process =>
      if process.exited = true then some (s.set id { process with ended := true }) else none
    | none => none
  | .cleanup id =>
    match s.processes.lookup id with
    | some process =>
      if process.exited = true ∧ process.removing = false then
        some { s.set id { process with removing := true } with queue := s.queue ++ [.remove id] }
      else none
    | none => none
  | .read id n =>
    (s.processes.lookup id).map fun process =>
      s.set id { process with feed := process.feed.read n }
  | .exit id =>
    (s.processes.lookup id).map fun process => s.set id { process with exited := true }

/-- A step of the program, and not of a client or of a process. -/
def Own : TableEvent → Prop
  | .request _ => False
  | .read .. => False
  | .exit _ => False
  | _ => True

/-- The chunks that wait for room in the channel of a process. -/
def waiting (s : ProcessTable) (id : ProcessId) : List (List UInt8) :=
  (s.readers ++ s.queue).filterMap (chunk id)

/-- The resizes of a process that wait, those in their channel counted in. -/
def resizes (s : ProcessTable) (id : ProcessId) : Nat :=
  (s.processes.lookup id).elim 0 Process.sizes + (s.readers ++ s.queue).count (.resize id)

def feed (s : ProcessTable) (id : ProcessId) : Feed UInt8 :=
  (s.processes.lookup id).elim .new Process.stdin

def Known (s : ProcessTable) (id : ProcessId) : Prop :=
  s.processes.lookup id ≠ none ∨ ∃ pty, .insert id pty ∈ s.queue

/-- How many chunks at the end of the line need not fit. -/
def spare (s : ProcessTable) (id : ProcessId) : Nat :=
  if s.resizes id ≤ 1 then STDIN_CAPACITY + 1 else 0

/-- What waits for each process fits, as far as it has to. -/
def Roomy (size : Nat) (s : ProcessTable) : Prop :=
  ∀ id, s.Known id → (s.feed id).Fits size (s.spare id) (s.waiting id)

/-- A request comes in only when it leaves enough room. -/
def Meets (size : Nat) (s : ProcessTable) : TableEvent → Prop
  | .request request => Roomy size { s with queue := s.queue ++ [request] }
  | _ => True

/-- Each `Kill` that waits for the lock is the next one, with nobody having the lock, after some
steps of the program. -/
def KillsReached (size : Nat) (s : ProcessTable) : Prop :=
  ∀ before id after, s.queue = before ++ .kill id :: after →
    ∃ s', Machine.Reaches (step size) Own s s' ∧ s'.readers = [] ∧
      ∃ later, s'.queue = .kill id :: later

structure Inv (size : Nat) (s : ProcessTable) : Prop where
  roomy : Roomy size s
  holders : ∀ request ∈ s.readers, ∃ id process, s.processes.lookup id = some process ∧
    (request = .resize id ∨ ∃ data, request = .stdin id data)
  short : ∀ id process, s.processes.lookup id = some process →
    process.feed.channel.length ≤ STDIN_CAPACITY
  single : ∀ id process, s.processes.lookup id = some process → process.resizes ≤ 1

variable {size : Nat} {s s' : ProcessTable} {id : ProcessId} {process process' : Process}
  {request : TableRequest} {queue : List TableRequest} {data : List UInt8}

theorem inv_new : Inv size new where
  roomy := by
    rintro id (h | ⟨pty, h⟩)
    · exact absurd rfl h
    · cases h
  holders := fun request h => (by cases h)
  short := fun id process h => (by cases h)
  single := fun id process h => (by cases h)

theorem spare_le {id : ProcessId} (h : s'.resizes id ≤ s.resizes id) : s.spare id ≤ s'.spare id := by
  unfold spare
  split
  · next hfew => rw [if_pos (h.trans hfew)]
  · exact Nat.zero_le _

/-- No process is there that was not known before, no more resizes wait, and for no process is there
less room. -/
theorem Roomy.of (h : Roomy size s) (hknown : ∀ id, s'.Known id → s.Known id)
    (hresizes : ∀ id, s'.resizes id ≤ s.resizes id)
    (hfits : ∀ id spare, (s.feed id).Fits size spare (s.waiting id) →
      (s'.feed id).Fits size spare (s'.waiting id)) : Roomy size s' :=
  fun id hid => (hfits id _ (h id (hknown id hid))).anti (spare_le (hresizes id))

theorem lookup_set (id' : ProcessId) : (s.set id process).processes.lookup id' =
    if id' = id then some process else s.processes.lookup id' := by
  show (s.processes.insert id process).lookup id' = _
  split
  · next h => rw [h, AList.lookup_insert]
  · next h => rw [AList.lookup_insert_ne h]

theorem lookup_set_self : (s.set id process).processes.lookup id = some process :=
  AList.lookup_insert _

/-- A process changes, or is new. -/
theorem Inv.set (h : Inv size s) (hknown : s.Known id)
    (hsizes : process.sizes ≤ (s.processes.lookup id).elim 0 Process.sizes)
    (hfits : ∀ spare waiting, (s.feed id).Fits size spare waiting →
      process.stdin.Fits size spare waiting)
    (hshort : process.feed.channel.length ≤ STDIN_CAPACITY) (hsingle : process.resizes ≤ 1) :
    Inv size (s.set id process) := by
  refine ⟨h.roomy.of ?_ ?_ ?_, ?_, ?_, ?_⟩
  · rintro id' (hfound | hinsert)
    · by_cases hsame : id' = id
      · exact hsame ▸ hknown
      · rw [lookup_set, if_neg hsame] at hfound
        exact .inl hfound
    · exact .inr hinsert
  · intro id'
    refine Nat.add_le_add_right ?_ _
    rw [lookup_set]
    split
    · next hsame => exact hsame ▸ hsizes
    · exact Nat.le_refl _
  · intro id' spare hroom
    rw [feed, lookup_set]
    split
    · next hsame =>
        subst hsame
        exact hfits _ _ hroom
    · exact hroom
  · intro request hrequest
    obtain ⟨id', found, hfound, hmsg⟩ := h.holders request hrequest
    by_cases hsame : id' = id
    · exact ⟨id', process, by rw [lookup_set, if_pos hsame], hmsg⟩
    · exact ⟨id', found, by rw [lookup_set, if_neg hsame]; exact hfound, hmsg⟩
  · intro id' found hfound
    rw [lookup_set] at hfound
    split at hfound
    · cases hfound
      exact hshort
    · exact h.short id' found hfound
  · intro id' found hfound
    rw [lookup_set] at hfound
    split at hfound
    · cases hfound
      exact hsingle
    · exact h.single id' found hfound

/-- A process that is there changes. -/
theorem Inv.update (h : Inv size s) (hprocess : s.processes.lookup id = some process)
    (hsizes : process'.sizes ≤ process.sizes)
    (hfits : ∀ spare waiting, process.stdin.Fits size spare waiting →
      process'.stdin.Fits size spare waiting)
    (hshort : process'.feed.channel.length ≤ process.feed.channel.length)
    (hsingle : process'.resizes ≤ process.resizes) : Inv size (s.set id process') := by
  refine h.set (.inl (by simp [hprocess])) (by rw [hprocess]; exact hsizes) ?_
    (hshort.trans (h.short id process hprocess)) (hsingle.trans (h.single id process hprocess))
  rw [feed, hprocess]
  exact hfits

/-- The stdin of a process that is there changes. -/
theorem Inv.update_feed (h : Inv size s) (hprocess : s.processes.lookup id = some process)
    {feed : Feed UInt8} (hfits : ∀ spare waiting, process.feed.Fits size spare waiting →
      feed.Fits size spare waiting)
    (hshort : feed.channel.length ≤ process.feed.channel.length) :
    Inv size (s.set id { process with feed := feed }) := by
  refine h.update hprocess (Nat.le_refl _) (fun spare waiting hroom => ?_) hshort (Nat.le_refl _)
  unfold Process.stdin at hroom ⊢
  split at hroom
  · next hended =>
      rw [if_pos hended]
      exact hroom
  · next hended =>
      rw [if_neg hended]
      exact hfits _ _ hroom

/-- The task of a process ends. -/
theorem Inv.ended (h : Inv size s) (hprocess : s.processes.lookup id = some process) :
    Inv size (s.set id { process with ended := true }) := by
  refine h.update hprocess (Nat.zero_le _) (fun spare waiting hroom => ?_) (Nat.le_refl _)
    (Nat.le_refl _)
  exact hroom.new

/-- The queue has lost its first request, which had nothing for anybody. -/
theorem Inv.dequeue (h : Inv size s) (hqueue : s.queue = request :: queue) :
    Inv size { s with queue := queue } := by
  refine ⟨h.roomy.of ?_ ?_ ?_, h.holders, h.short, h.single⟩
  · rintro id (hfound | ⟨pty, hinsert⟩)
    · exact .inl hfound
    · exact .inr ⟨pty, hqueue ▸ List.mem_cons_of_mem _ hinsert⟩
  · intro id
    refine Nat.add_le_add_left ?_ _
    rw [hqueue]
    exact ((List.sublist_cons_self _ _).append_left _).count_le _
  · intro id spare hroom
    apply hroom.sublist
    show (List.filterMap _ (s.readers ++ queue)).Sublist (List.filterMap _ (s.readers ++ s.queue))
    rw [hqueue]
    exact ((List.sublist_cons_self _ _).append_left _).filterMap _

/-- A request takes the lock to wait for room in a channel. -/
theorem Inv.wait (h : Inv size s) (hqueue : s.queue = request :: queue)
    (hprocess : s.processes.lookup id = some process)
    (hrequest : request = .resize id ∨ ∃ data, request = .stdin id data) :
    Inv size { s with queue := queue, readers := s.readers ++ [request] } := by
  have hsame : (s.readers ++ [request]) ++ queue = s.readers ++ s.queue := by
    rw [hqueue, List.append_assoc]
    rfl
  refine ⟨h.roomy.of ?_ ?_ ?_, ?_, h.short, h.single⟩
  · rintro id (hfound | ⟨pty, hinsert⟩)
    · exact .inl hfound
    · exact .inr ⟨pty, hqueue ▸ List.mem_cons_of_mem _ hinsert⟩
  · intro id
    refine Nat.add_le_add_left ?_ _
    show ((s.readers ++ [request]) ++ queue).count _ ≤ _
    rw [hsame]
  · intro id spare hroom
    show Feed.Fits size spare (s.feed id) (((s.readers ++ [request]) ++ queue).filterMap (chunk id))
    rw [hsame]
    exact hroom
  · intro request' hmem
    rcases List.mem_append.mp hmem with hmem | hmem
    · exact h.holders request' hmem
    · rw [List.mem_singleton.mp hmem]
      exact ⟨id, process, hprocess, hrequest⟩

theorem Inv.handle_step (h : Inv size s) (hqueue : s.queue = request :: queue)
    (hstep : ProcessTable.handle { s with queue := queue } request = some s') : Inv size s' := by
  have hdequeue := h.dequeue hqueue
  cases request with
  | stdin id data =>
      simp only [ProcessTable.handle] at hstep
      split at hstep <;> cases hstep
      · exact h.wait hqueue ‹_› (.inr ⟨data, rfl⟩)
      · exact hdequeue
  | resize id =>
      simp only [ProcessTable.handle] at hstep
      split at hstep <;> cases hstep
      · exact h.wait hqueue ‹_› (.inl rfl)
      · exact hdequeue
  | kill id =>
      simp only [ProcessTable.handle] at hstep
      split at hstep
      · split at hstep
        · next process hprocess =>
            split at hstep <;> cases hstep
            · exact hdequeue.update hprocess (Nat.le_refl _) (fun _ _ hroom => hroom)
                (Nat.le_refl _) (Nat.le_refl _)
            · exact hdequeue
        · cases hstep
          exact hdequeue
      · cases hstep
  | insert id pty =>
      simp only [ProcessTable.handle] at hstep
      split at hstep <;> cases hstep
      next hreaders =>
        -- with the request still there, the id is known
        have hset : Inv size (s.set id (.new pty)) := h.set
          (.inr ⟨pty, hqueue ▸ List.mem_cons_self⟩) (Nat.zero_le _) (fun _ _ hroom => hroom.new)
          (Nat.zero_le _) (Nat.zero_le _)
        exact hset.dequeue hqueue
  | remove id =>
      simp only [ProcessTable.handle] at hstep
      split at hstep <;> cases hstep
      next hreaders =>
        have hlookup : ∀ id', (s.processes.erase id).lookup id' =
            if id' = id then none else s.processes.lookup id' := by
          intro id'
          split
          · next hsame => rw [hsame, AList.lookup_erase]
          · next hsame => rw [AList.lookup_erase_ne hsame]
        have hfound : ∀ id' found, (s.processes.erase id).lookup id' = some found →
            s.processes.lookup id' = some found := by
          intro id' found hfound
          rw [hlookup] at hfound
          split at hfound
          · cases hfound
          · exact hfound
        refine ⟨hdequeue.roomy.of ?_ ?_ ?_, ?_, fun id' found hid' => h.short id' found (hfound _ _ hid'),
          fun id' found hid' => h.single id' found (hfound _ _ hid')⟩
        · rintro id' (hid' | hinsert)
          · obtain ⟨found, hid'⟩ := Option.ne_none_iff_exists'.mp hid'
            exact .inl (by simp [hfound id' found hid'])
          · exact .inr hinsert
        · intro id'
          refine Nat.add_le_add_right ?_ _
          show ((s.processes.erase id).lookup id').elim 0 Process.sizes ≤ _
          rw [hlookup]
          split
          · exact Nat.zero_le _
          · exact Nat.le_refl _
        · intro id' spare hroom
          show Feed.Fits size spare (((s.processes.erase id).lookup id').elim .new Process.stdin) _
          rw [hlookup]
          split
          · exact hroom.new
          · exact hroom
        · intro request hrequest
          rw [show ({ s with queue := queue } : ProcessTable).readers = s.readers from rfl] at hreaders
          replace hrequest : request ∈ s.readers := hrequest
          rw [hreaders] at hrequest
          cases hrequest

theorem eq_stdin_of_chunk (h : chunk id request = some data) : request = .stdin id data := by
  cases request with
  | stdin id' data' =>
      rw [chunk] at h
      split at h
      · next hsame =>
          cases h
          rw [hsame]
      · cases h
  | _ => cases h

theorem filterMap_erase_of_none {readers : List TableRequest} (h : chunk id request = none) :
    (readers.erase request).filterMap (chunk id) = readers.filterMap (chunk id) := by
  induction readers with
  | nil => rfl
  | cons reader readers ih =>
      by_cases hsame : reader = request
      · rw [hsame, List.erase_cons_head, List.filterMap_cons_none h]
      · rw [List.erase_cons_tail (by simpa using hsame), List.filterMap_cons, List.filterMap_cons, ih]

/-- The first chunk for a process is the first one that waits for room in its channel. -/
theorem filterMap_erase_first {readers : List TableRequest}
    (h : readers.findSome? (chunk id) = some data) : readers.filterMap (chunk id) =
      data :: (readers.erase (.stdin id data)).filterMap (chunk id) := by
  induction readers with
  | nil => cases h
  | cons reader readers ih =>
      cases hchunk : chunk id reader with
      | some data' =>
          rw [List.findSome?_cons, hchunk] at h
          cases h
          rw [List.filterMap_cons_some hchunk, eq_stdin_of_chunk hchunk, List.erase_cons_head]
      | none =>
          rw [List.findSome?_cons, hchunk] at h
          have hne : reader ≠ .stdin id data := by
            rintro rfl
            rw [chunk, if_pos rfl] at hchunk
            cases hchunk
          rw [List.filterMap_cons_none hchunk, List.erase_cons_tail (by simpa using hne),
            List.filterMap_cons_none hchunk]
          exact ih h

theorem chunk_self : chunk id (.stdin id data) = some data := if_pos rfl

theorem chunk_of_ne {id' : ProcessId} (h : id' ≠ id) : chunk id' (.stdin id data) = none :=
  if_neg (Ne.symm h)

/-- A request gives up the lock. -/
theorem Inv.leave (h : Inv size s) (request : TableRequest) :
    Inv size { s with readers := s.readers.erase request } := by
  have hsub : (s.readers.erase request ++ s.queue).Sublist (s.readers ++ s.queue) :=
    List.erase_sublist.append_right _
  refine ⟨h.roomy.of (fun _ hid => hid) (fun id => ?_) (fun id spare hroom => ?_),
    fun request' hmem => h.holders request' (List.mem_of_mem_erase hmem), h.short, h.single⟩
  · exact Nat.add_le_add_left (hsub.count_le _) _
  · exact hroom.sublist (hsub.filterMap _)

/-- A request that waited for a process gives up the lock, and the process changes. -/
theorem Inv.proceed (h : Inv size s) (hprocess : s.processes.lookup id = some process)
    (hother : ∀ id', id' ≠ id → chunk id' request = none)
    (hsizes : process'.sizes + (s.readers.erase request).count (.resize id) ≤
      process.sizes + s.readers.count (.resize id))
    (hfits : ∀ spare waiting,
      process.stdin.Fits size spare (s.readers.filterMap (chunk id) ++ waiting) →
      process'.stdin.Fits size spare ((s.readers.erase request).filterMap (chunk id) ++ waiting))
    (hshort : process'.feed.channel.length ≤ STDIN_CAPACITY) (hsingle : process'.resizes ≤ 1) :
    Inv size (ProcessTable.set { s with readers := s.readers.erase request } id process') := by
  have hleave := h.leave request
  refine ⟨h.roomy.of ?_ ?_ ?_, ?_, ?_, ?_⟩
  · rintro id' (hfound | hinsert)
    · rw [lookup_set] at hfound
      split at hfound
      · next hsame =>
          subst hsame
          exact .inl (by simp [hprocess])
      · exact .inl hfound
    · exact .inr hinsert
  · intro id'
    have hcount : ∀ readers : List TableRequest, (readers ++ s.queue).count (.resize id') =
        readers.count (.resize id') + s.queue.count (.resize id') := fun _ => List.count_append
    rw [resizes, resizes, lookup_set]
    refine le_trans (le_of_eq (congrArg _ (hcount (s.readers.erase request)))) ?_
    rw [hcount, ← Nat.add_assoc, ← Nat.add_assoc]
    refine Nat.add_le_add_right ?_ _
    split
    · next hsame =>
        subst hsame
        rw [hprocess]
        exact hsizes
    · exact Nat.add_le_add_left (List.erase_sublist.count_le _) _
  · intro id' spare hroom
    have hwaiting : s.waiting id' =
        s.readers.filterMap (chunk id') ++ s.queue.filterMap (chunk id') := List.filterMap_append
    rw [hwaiting] at hroom
    show Feed.Fits size spare _ ((s.readers.erase request ++ s.queue).filterMap (chunk id'))
    rw [List.filterMap_append, feed, lookup_set]
    split
    · next hsame =>
        subst hsame
        rw [feed, hprocess] at hroom
        exact hfits _ _ hroom
    · next hsame =>
        rw [filterMap_erase_of_none (hother id' hsame)]
        exact hroom
  · intro request' hrequest
    obtain ⟨id', found, hfound, hmsg⟩ := hleave.holders request' hrequest
    by_cases hsame : id' = id
    · exact ⟨id', _, by rw [hsame]; exact lookup_set_self, hmsg⟩
    · exact ⟨id', found, by rw [lookup_set, if_neg hsame]; exact hfound, hmsg⟩
  · intro id' found hfound
    rw [lookup_set] at hfound
    split at hfound
    · cases hfound
      exact hshort
    · exact h.short id' found hfound
  · intro id' found hfound
    rw [lookup_set] at hfound
    split at hfound
    · cases hfound
      exact hsingle
    · exact h.single id' found hfound

theorem Inv.sent_step (h : Inv size s) (hprocess : s.processes.lookup id = some process)
    (hfirst : s.readers.findSome? (chunk id) = some data) (hended : ¬ process.ended = true)
    (hroom : process.feed.channel.length < STDIN_CAPACITY) :
    Inv size (ProcessTable.set { s with readers := s.readers.erase (.stdin id data) } id
      { process with feed := process.feed.send data }) := by
  refine h.proceed hprocess (fun id' => chunk_of_ne) ?_ ?_ ?_ (h.single id process hprocess)
  · exact Nat.add_le_add_left (List.erase_sublist.count_le _) _
  · intro spare waiting hfits
    rw [filterMap_erase_first hfirst] at hfits
    unfold Process.stdin at hfits ⊢
    rw [if_neg hended] at hfits
    rw [if_neg hended]
    exact hfits.send
  · show (process.feed.channel ++ [data]).length ≤ STDIN_CAPACITY
    rw [List.length_append]
    exact hroom

theorem Inv.resized_step (h : Inv size s) (hprocess : s.processes.lookup id = some process)
    (hreader : .resize id ∈ s.readers) :
    Inv size (ProcessTable.set { s with readers := s.readers.erase (.resize id) } id
      { process with resizes := 1 }) := by
  refine h.proceed hprocess (fun _ _ => rfl) ?_ ?_ (h.short id process hprocess) (Nat.le_refl _)
  · -- the size has come into the channel
    have hsizes : Process.sizes { process with resizes := 1 } ≤ process.sizes + 1 := by
      unfold Process.sizes
      split
      · exact Nat.zero_le _
      · exact Nat.le_add_left _ _
    have hcount : 0 < s.readers.count (.resize id) := List.count_pos_iff.mpr hreader
    rw [List.count_erase_self]
    omega
  · intro spare waiting hfits
    rw [filterMap_erase_of_none rfl]
    exact hfits

theorem inv_step {e : TableEvent} (h : Inv size s) (hmeets : Meets size s e)
    (hstep : s.step size e = some s') : Inv size s' := by
  cases e with
  | request request =>
      have hs' : s' = { s with queue := s.queue ++ [request] } := by
        cases request <;> cases hstep <;> rfl
      subst hs'
      exact ⟨hmeets, h.holders, h.short, h.single⟩
  | grant =>
      simp only [step] at hstep
      split at hstep
      · next hqueue => exact h.handle_step hqueue hstep
      · cases hstep
  | sent id =>
      simp only [step] at hstep
      split at hstep
      · next process data hprocess hfirst =>
          split at hstep
          · cases hstep
            exact h.leave _
          · next hended =>
              split at hstep <;> cases hstep
              exact h.sent_step hprocess hfirst hended ‹_›
      · cases hstep
  | resized id =>
      simp only [step] at hstep
      split at hstep
      · next process hprocess =>
          split at hstep
          · next hreader =>
              split at hstep
              · cases hstep
                exact h.leave _
              · split at hstep <;> cases hstep
                exact h.resized_step hprocess hreader
          · cases hstep
      · cases hstep
  | pull id =>
      simp only [step] at hstep
      split at hstep
      · next process hprocess =>
          split at hstep
          · cases hstep
          · obtain ⟨feed, hpull, rfl⟩ := Option.map_eq_some_iff.mp hstep
            exact h.update_feed hprocess (fun _ _ hfits => hfits.pull hpull)
              (Feed.length_pull hpull)
      · cases hstep
  | write id n =>
      simp only [step] at hstep
      split at hstep
      · next process hprocess =>
          split at hstep
          · cases hstep
          · obtain ⟨feed, hwrite, rfl⟩ := Option.map_eq_some_iff.mp hstep
            exact h.update_feed hprocess (fun _ _ hfits => hfits.write hwrite)
              (le_of_eq (congrArg _ (Feed.channel_write hwrite)))
      · cases hstep
  | takeResize id =>
      simp only [step] at hstep
      split at hstep
      · next process hprocess =>
          split at hstep <;> cases hstep
          refine h.update hprocess ?_ (fun _ _ hfits => hfits) (Nat.le_refl _) (Nat.sub_le _ _)
          unfold Process.sizes
          split
          · exact Nat.le_refl _
          · exact Nat.sub_le _ _
      · cases hstep
  | takeKill id =>
      simp only [step] at hstep
      split at hstep
      · next process hprocess =>
          split at hstep <;> cases hstep
          exact h.ended hprocess
      · cases hstep
  | endTask id =>
      simp only [step] at hstep
      split at hstep
      · next process hprocess =>
          split at hstep <;> cases hstep
          exact h.ended hprocess
      · cases hstep
  | cleanup id =>
      simp only [step] at hstep
      split at hstep
      · next process hprocess =>
          split at hstep <;> cases hstep
          have hset : Inv size (s.set id { process with removing := true }) :=
            h.update hprocess (Nat.le_refl _) (fun _ _ hfits => hfits) (Nat.le_refl _)
              (Nat.le_refl _)
          refine ⟨hset.roomy.of ?_ ?_ ?_, hset.holders, hset.short, hset.single⟩
          · rintro id' (hfound | ⟨pty, hinsert⟩)
            · exact .inl hfound
            · rcases List.mem_append.mp hinsert with hinsert | hinsert
              · exact .inr ⟨pty, hinsert⟩
              · cases List.mem_singleton.mp hinsert
          · intro id'
            refine Nat.add_le_add_left (le_of_eq ?_) _
            show (s.readers ++ (s.queue ++ [TableRequest.remove id])).count _ = (s.readers ++ s.queue).count _
            rw [← List.append_assoc, List.count_append]
            rfl
          · intro id' spare hroom
            show Feed.Fits size spare _ ((s.readers ++ (s.queue ++ [TableRequest.remove id])).filterMap _)
            rw [← List.append_assoc, List.filterMap_append]
            show Feed.Fits size spare _ (_ ++ [])
            rw [List.append_nil]
            exact hroom
      · cases hstep
  | read id n =>
      obtain ⟨process, hprocess, rfl⟩ := Option.map_eq_some_iff.mp hstep
      exact h.update_feed hprocess (fun _ _ hfits => hfits.read n) (Nat.le_refl _)
  | exit id =>
      obtain ⟨process, hprocess, rfl⟩ := Option.map_eq_some_iff.mp hstep
      exact h.update hprocess (Nat.le_refl _) (fun _ _ hfits => hfits) (Nat.le_refl _)
        (Nat.le_refl _)

/-- The first request of those that have the lock is done. -/
def Unblocks (size : Nat) (s : ProcessTable) : Prop :=
  ∃ s', Machine.Reaches (step size) Own s s' ∧ s'.readers = s.readers.tail ∧ s'.queue = s.queue

theorem unblocks_of_step {e : TableEvent} (hstep : s.step size e = some s') (howned : Own e)
    (hreaders : s'.readers = s.readers) (hqueue : s'.queue = s.queue) (h : Unblocks size s') :
    Unblocks size s := by
  obtain ⟨s₁, hreach, htail, hsame⟩ := h
  exact ⟨s₁, .head hstep howned hreach, hreaders ▸ htail, hsame.trans hqueue⟩

theorem unblocks_of_last {e : TableEvent} (hstep : s.step size e = some s') (howned : Own e)
    (hreaders : s'.readers = s.readers.tail) (hqueue : s'.queue = s.queue) : Unblocks size s :=
  ⟨s', .head hstep howned .refl, hreaders, hqueue⟩

variable {readers : List TableRequest}

theorem unblocks_of_room (hreaders : s.readers = .stdin id data :: readers)
    (hprocess : s.processes.lookup id = some process)
    (hroom : process.ended = true ∨ process.feed.channel.length < STDIN_CAPACITY) :
    Unblocks size s := by
  have hfirst : s.readers.findSome? (chunk id) = some data := by
    rw [hreaders, List.findSome?_cons, chunk_self]
  have herase : s.readers.erase (.stdin id data) = s.readers.tail := by
    rw [hreaders, List.erase_cons_head]
    rfl
  by_cases hended : process.ended = true
  · have hstep : s.step size (.sent id) =
        some { s with readers := s.readers.erase (.stdin id data) } := by
      unfold step
      simp only [hprocess, hfirst, if_pos hended]
    exact unblocks_of_last hstep trivial herase rfl
  · have hstep : s.step size (.sent id) = some (ProcessTable.set
        { s with readers := s.readers.erase (.stdin id data) } id
        { process with feed := process.feed.send data }) := by
      unfold step
      simp only [hprocess, hfirst, if_neg hended, if_pos (hroom.resolve_left hended)]
    exact unblocks_of_last hstep trivial herase rfl

theorem unblocks_of_waiting (hreaders : s.readers = .stdin id data :: readers)
    (hprocess : s.processes.lookup id = some process) (hwriting : process.feed.writing = none)
    (hshort : process.feed.channel.length ≤ STDIN_CAPACITY) : Unblocks size s := by
  by_cases hended : process.ended = true
  · exact unblocks_of_room hreaders hprocess (.inl hended)
  · cases hchannel : process.feed.channel with
    | nil =>
        refine unblocks_of_room hreaders hprocess (.inr ?_)
        rw [hchannel]
        exact Nat.zero_lt_succ _
    | cons chunk channel =>
        rw [hchannel] at hshort
        have hstep : s.step size (.pull id) = some (s.set id { process with
            feed := { process.feed with channel := channel, writing := some chunk } }) := by
          unfold step
          simp only [hprocess, if_neg hended, Feed.pull, hwriting, hchannel, Option.map_some]
        refine unblocks_of_step hstep trivial rfl rfl
          (unblocks_of_room hreaders lookup_set_self (.inr ?_))
        exact Nat.lt_of_succ_le hshort

/-- The state in which all of what was being written is written. -/
theorem step_write_all {rest : List UInt8} (hprocess : s.processes.lookup id = some process)
    (hended : ¬ process.ended = true) (hwriting : process.feed.writing = some rest)
    (hroom : process.feed.buffered + rest.length ≤ size) :
    s.step size (.write id rest.length) = some (s.set id { process with
      feed := { process.feed with
        writing := none
        buffered := process.feed.buffered + rest.length } }) := by
  unfold step
  simp only [hprocess, if_neg hended, Feed.write_all hwriting hroom, Option.map_some]

theorem Inv.unblocks_stdin (h : Inv size s) (hreaders : s.readers = .stdin id data :: readers)
    (hprocess : s.processes.lookup id = some process) : Unblocks size s := by
  have hshort := h.short id process hprocess
  by_cases hended : process.ended = true
  · exact unblocks_of_room hreaders hprocess (.inl hended)
  by_cases hroom : process.feed.channel.length < STDIN_CAPACITY
  · exact unblocks_of_room hreaders hprocess (.inr hroom)
  cases hwriting : process.feed.writing with
  | none => exact unblocks_of_waiting hreaders hprocess hwriting hshort
  | some rest =>
      -- a full channel, and one more chunk: what is being written fits
      have hfits := h.roomy id (.inl (by simp [hprocess]))
      rw [waiting, hreaders, feed, hprocess] at hfits
      replace hfits : process.stdin.Fits size (s.spare id)
        (List.filterMap (chunk id) (.stdin id data :: (readers ++ s.queue))) := hfits
      rw [Process.stdin, if_neg hended, List.filterMap_cons_some chunk_self] at hfits
      have hspare : s.spare id ≤ STDIN_CAPACITY + 1 := by
        unfold spare
        split <;> omega
      have hwritable := hfits.writable hwriting (by
        rw [List.length_append, List.length_cons]
        omega)
      exact unblocks_of_step (step_write_all hprocess hended hwriting hwritable) trivial rfl rfl
        (unblocks_of_waiting hreaders lookup_set_self rfl hshort)

theorem unblocks_of_size (hreaders : s.readers = .resize id :: readers)
    (hprocess : s.processes.lookup id = some process)
    (hroom : process.ended = true ∨ process.resizes = 0) : Unblocks size s := by
  have hmem : .resize id ∈ s.readers := by
    rw [hreaders]
    exact List.mem_cons_self
  have herase : s.readers.erase (.resize id) = s.readers.tail := by
    rw [hreaders, List.erase_cons_head]
    rfl
  by_cases hdeaf : process.ended = true ∨ process.pty = false
  · have hstep : s.step size (.resized id) =
        some { s with readers := s.readers.erase (.resize id) } := by
      unfold step
      simp only [hprocess, if_pos hmem, if_pos hdeaf]
    exact unblocks_of_last hstep trivial herase rfl
  · have hresizes := hroom.resolve_left fun hended => hdeaf (.inl hended)
    have hstep : s.step size (.resized id) = some (ProcessTable.set
        { s with readers := s.readers.erase (.resize id) } id { process with resizes := 1 }) := by
      unfold step
      simp only [hprocess, if_pos hmem, if_neg hdeaf, if_pos hresizes]
    exact unblocks_of_last hstep trivial herase rfl

/-- The task of the process has nothing to write, and takes the size out of the channel. -/
theorem unblocks_of_resizing (hreaders : s.readers = .resize id :: readers)
    (hprocess : s.processes.lookup id = some process) (hended : ¬ process.ended = true)
    (hwriting : process.feed.writing = none) (hresizes : process.resizes = 1) :
    Unblocks size s := by
  have hstep : s.step size (.takeResize id) =
      some (s.set id { process with resizes := process.resizes - 1 }) := by
    unfold step
    simp only [hprocess]
    rw [if_pos ⟨Bool.eq_false_iff.mpr hended, hwriting, hresizes ▸ Nat.one_pos⟩]
  refine unblocks_of_step hstep trivial rfl rfl
    (unblocks_of_size hreaders lookup_set_self (.inr ?_))
  show process.resizes - 1 = 0
  rw [hresizes]

theorem Inv.unblocks_resize (h : Inv size s) (hreaders : s.readers = .resize id :: readers)
    (hprocess : s.processes.lookup id = some process) : Unblocks size s := by
  by_cases hended : process.ended = true
  · exact unblocks_of_size hreaders hprocess (.inl hended)
  by_cases hnone : process.resizes = 0
  · exact unblocks_of_size hreaders hprocess (.inr hnone)
  have hone : process.resizes = 1 := by
    have hsingle := h.single id process hprocess
    omega
  cases hwriting : process.feed.writing with
  | none => exact unblocks_of_resizing hreaders hprocess hended hwriting hone
  | some rest =>
      -- two sizes wait, so that all that waits for stdin fits
      have hmany : ¬ s.resizes id ≤ 1 := by
        rw [resizes, hprocess, hreaders]
        show ¬ process.sizes + List.count _ (.resize id :: (readers ++ s.queue)) ≤ 1
        rw [List.count_cons_self, Process.sizes, if_neg hended]
        omega
      have hfits := h.roomy id (.inl (by simp [hprocess]))
      rw [spare, if_neg hmany, feed, hprocess] at hfits
      replace hfits : process.stdin.Fits size 0 (s.waiting id) := hfits
      rw [Process.stdin, if_neg hended] at hfits
      have hwritable := hfits.writable hwriting (Nat.zero_le _)
      exact unblocks_of_step (step_write_all hprocess hended hwriting hwritable) trivial rfl rfl
        (unblocks_of_resizing hreaders lookup_set_self hended rfl hone)

theorem Inv.unblocks (h : Inv size s) : Unblocks size s := by
  cases hreaders : s.readers with
  | nil => exact ⟨s, .refl, by rw [hreaders]; rfl, rfl⟩
  | cons request readers =>
      obtain ⟨id, process, hprocess, rfl | ⟨data, rfl⟩⟩ :=
        h.holders request (hreaders ▸ List.mem_cons_self)
      · exact h.unblocks_resize hreaders hprocess
      · exact h.unblocks_stdin hreaders hprocess

theorem inv_own {e : TableEvent} (h : Inv size s) (howned : Own e)
    (hstep : s.step size e = some s') : Inv size s' := by
  refine inv_step h ?_ hstep
  cases e
  case request => cases howned
  all_goals trivial

/-- One after the other, those who have the lock give it up. -/
theorem Inv.free (h : Inv size s) : ∃ s', Machine.Reaches (step size) Own s s' ∧
    s'.readers = [] ∧ s'.queue = s.queue := by
  generalize hreaders : s.readers = readers
  induction readers generalizing s with
  | nil => exact ⟨s, .refl, hreaders, rfl⟩
  | cons request readers ih =>
      obtain ⟨s₁, hreach, htail, hqueue⟩ := h.unblocks
      rw [hreaders] at htail
      obtain ⟨s', hreach', hdone, hqueue'⟩ :=
        ih (hreach.invariant (fun _ _ _ => inv_own) h) htail
      exact ⟨s', hreach.trans hreach', hdone, hqueue'.trans hqueue⟩

/-- With the lock free, the next request gets it. -/
theorem handle_free (hreaders : s.readers = []) (request : TableRequest) :
    ∃ s', s.handle request = some s' ∧ s'.queue = s.queue := by
  cases request with
  | stdin id data =>
      cases hprocess : s.processes.lookup id with
      | none => exact ⟨s, by simp only [handle, hprocess], rfl⟩
      | some process =>
          exact ⟨{ s with readers := s.readers ++ [.stdin id data] },
            by simp only [handle, hprocess], rfl⟩
  | resize id =>
      cases hprocess : s.processes.lookup id with
      | none => exact ⟨s, by simp only [handle, hprocess], rfl⟩
      | some process =>
          exact ⟨{ s with readers := s.readers ++ [.resize id] },
            by simp only [handle, hprocess], rfl⟩
  | kill id =>
      cases hprocess : s.processes.lookup id with
      | none => exact ⟨s, by simp only [handle, if_pos hreaders, hprocess], rfl⟩
      | some process =>
          by_cases hkiller : process.killer = true
          · exact ⟨s.set id { process with killer := false, killing := true },
              by simp only [handle, if_pos hreaders, hprocess, if_pos hkiller], rfl⟩
          · exact ⟨s, by simp only [handle, if_pos hreaders, hprocess, if_neg hkiller], rfl⟩
  | insert id pty => exact ⟨_, if_pos hreaders, rfl⟩
  | remove id => exact ⟨_, if_pos hreaders, rfl⟩

/-- One request after the other gets the lock, until the `Kill` is next. -/
theorem Inv.killsReached (h : Inv size s) : KillsReached size s := by
  intro before
  induction before generalizing s with
  | nil =>
      intro id after hqueue
      obtain ⟨s', hreach, hreaders, hsame⟩ := h.free
      exact ⟨s', hreach, hreaders, after, hsame.trans hqueue⟩
  | cons request before ih =>
      intro id after hqueue
      obtain ⟨s₁, hreach, hreaders, hsame⟩ := h.free
      have hnext : s₁.queue = request :: (before ++ .kill id :: after) := hsame.trans hqueue
      obtain ⟨s₂, hhandle, hrest⟩ := handle_free
        (s := { s₁ with queue := before ++ .kill id :: after }) hreaders request
      have hgrant : s₁.step size .grant = some s₂ := by
        unfold step
        simp only [hnext]
        exact hhandle
      have hinv := inv_own (e := .grant) (hreach.invariant (fun _ _ _ => inv_own) h) trivial hgrant
      obtain ⟨s', hreach', hdone⟩ := ih hinv id after hrest
      exact ⟨s', hreach.trans (.head hgrant trivial hreach'), hdone⟩

/-- All kills are reached in all states of all runs whose steps meet the condition. -/
theorem reached_of_run {es : List TableEvent} {s : ProcessTable}
    (hmeets : Machine.Meeting (step size) (Meets size) es new)
    (hrun : Machine.run (step size) es new = some s) : KillsReached size s :=
  (Machine.invariant (fun _ _ _ h hC hstep => inv_step h hC hstep) inv_new hmeets hrun).killsReached

theorem roomy_of_new (hfeed : ∀ id, s.feed id = .new)
    (hsizes : ∀ id, (s.processes.lookup id).elim 0 Process.sizes = 0)
    (hfew : (s.readers ++ s.queue).length ≤ 1) : Roomy size s := by
  intro id _
  have hresizes : s.resizes id ≤ 1 := by
    rw [resizes, hsizes, Nat.zero_add]
    exact List.count_le_length.trans hfew
  rw [hfeed, spare, if_pos hresizes]
  refine Feed.fits_new ((List.length_filterMap_le _ _).trans (hfew.trans ?_))
  exact Nat.le_add_left _ _

/-- A process is there, and is to be killed. -/
def killed : List TableEvent := [.request (.insert 7 true), .grant, .request (.kill 7)]

theorem meeting_killed : Machine.Meeting (step size) (Meets size) killed new := by
  refine .cons (roomy_of_new (fun _ => rfl) (fun _ => rfl) (by decide)) rfl (.cons trivial rfl ?_)
  refine .cons (roomy_of_new (fun id => ?_) (fun id => ?_) (by decide)) rfl trivial
  · show (ProcessTable.set new 7 (.new true)).feed id = .new
    rw [feed, lookup_set]
    split <;> rfl
  · show ((ProcessTable.set new 7 (.new true)).processes.lookup id).elim 0 Process.sizes = 0
    rw [lookup_set]
    split <;> rfl

/-- A process with `k` chunks in its channel, whose task is in the middle of another one. -/
def filled (size k : Nat) : ProcessTable where
  processes := (∅ : HashMap ProcessId Process).insert 7
    { Process.new false with feed := ⟨List.replicate k [1], some [0], size⟩ }
  queue := []
  readers := []

/-- One chunk more. -/
def fill : List TableEvent := [.request (.stdin 7 [1]), .grant, .sent 7]

/-- A process that never reads is given one byte more than it takes, and 33 more chunks; then it is
to be killed. -/
def unread (size : Nat) : List TableEvent :=
  [.request (.insert 7 false), .grant, .request (.stdin 7 (List.replicate (size + 1) 0)), .grant,
    .sent 7, .pull 7, .write 7 size] ++ (List.replicate 32 fill).flatten ++
  [.request (.stdin 7 [2]), .grant, .request (.kill 7)]

/-- The process that does not read, with a chunk waiting for it under the lock. -/
def stuck (size : Nat) : ProcessTable :=
  { filled size 32 with queue := [.kill 7], readers := [.stdin 7 [2]] }

theorem lookup_singleton (process : Process) :
    (AList.singleton 7 process : HashMap ProcessId Process).lookup 7 = some process := by
  rw [← AList.insert_empty]
  exact AList.lookup_insert _

theorem run_fill {k : Nat} (hk : k < 32) :
    Machine.run (step size) fill (filled size k) = some (filled size (k + 1)) := by
  simp [fill, Machine.run, step, handle, set, filled, Process.new, Feed.send, STDIN_CAPACITY, chunk,
    lookup_singleton, AList.insert_singleton_eq, hk, List.replicate_succ']

theorem run_fills {k : Nat} (hk : k ≤ 32) : Machine.run (step size) (List.replicate k fill).flatten
    (filled size 0) = some (filled size k) := by
  induction k with
  | zero => rfl
  | succ k ih =>
      rw [List.replicate_succ', List.flatten_append, Machine.run_append, ih (Nat.le_of_succ_le hk),
        Option.bind_some, List.flatten_singleton, run_fill hk]

theorem run_unread (hsize : 0 < size) :
    Machine.run (step size) (unread size) new = some (stuck size) := by
  have hfirst : Machine.run (step size) [.request (.insert 7 false), .grant,
      .request (.stdin 7 (List.replicate (size + 1) 0)), .grant, .sent 7, .pull 7, .write 7 size] new =
      some (filled size 0) := by
    simp [Machine.run, step, handle, new, set, filled, Process.new, Feed.new, Feed.pull, Feed.write,
      Feed.send, STDIN_CAPACITY, chunk, lookup_singleton, AList.insert_singleton_eq,
      List.drop_replicate, hsize]
  rw [unread, Machine.run_append, Machine.run_append, hfirst, Option.bind_some,
    run_fills (Nat.le_refl _), Option.bind_some]
  simp [Machine.run, step, handle, stuck, filled, lookup_singleton]

theorem not_step_stuck {e : TableEvent} (howned : Own e) : (stuck size).step size e = none := by
  have hlookup : ∀ id : ProcessId, (stuck size).processes.lookup id =
      if id = 7 then some { Process.new false with feed := ⟨List.replicate 32 [1], some [0], size⟩ }
      else none := by
    intro id
    split
    · next h =>
        rw [h]
        exact AList.lookup_insert _
    · next h => exact AList.lookup_insert_ne h
  cases e with
  | request request => cases howned
  | grant => rfl
  | read id n => cases howned
  | exit id => cases howned
  | write id n =>
      unfold step
      simp only [hlookup]
      by_cases h : id = 7
      · simp [h, Process.new, Feed.write]
      · simp [h]
  | sent id =>
      unfold step
      simp only [hlookup]
      by_cases h : id = 7
      · simp [h, Process.new, stuck, chunk, STDIN_CAPACITY]
      · simp [h]
  | _ id =>
      unfold step
      simp only [hlookup]
      by_cases h : id = 7
      · simp [h, Process.new, Feed.pull, stuck]
      · simp [h]

theorem not_killsReached_stuck : ¬ KillsReached size (stuck size) := by
  intro h
  obtain ⟨s', hreach, hreaders, -⟩ := h [] 7 [] rfl
  rw [hreach.eq_of_stuck fun _ => not_step_stuck] at hreaders
  cases hreaders

end ProcessTable

end Ssh

/-- No kill is held up by a process that does not read, on the host with pipes of one size or over
SSH with windows of another one, in any state of any run in which each request leaves enough
room. -/
theorem kill_reached (size window : Nat) :
    (∀ (es : List ProcessActorEvent) (s : ProcessActor),
      Machine.Meeting (ProcessActor.step size) (ProcessActor.Meets size) es .new →
      Machine.run (ProcessActor.step size) es .new = some s → s.KillsReached size) ∧
    ∀ (es : List Ssh.TableEvent) (s : Ssh.ProcessTable),
      Machine.Meeting (Ssh.ProcessTable.step window) (Ssh.ProcessTable.Meets window) es .new →
      Machine.run (Ssh.ProcessTable.step window) es .new = some s → s.KillsReached window :=
  ⟨fun _ _ => ProcessActor.reached_of_run, fun _ _ => Ssh.ProcessTable.reached_of_run⟩

theorem kill_reached_killed :
    (∃ s, Machine.run (ProcessActor.step 65536) ProcessActor.killed .new = some s ∧
      s.KillsReached 65536) ∧
    ∃ s, Machine.run (Ssh.ProcessTable.step 2097152) Ssh.ProcessTable.killed .new = some s ∧
      s.KillsReached 2097152 :=
  ⟨⟨_, rfl, (kill_reached 65536 2097152).1 _ _ ProcessActor.meeting_killed rfl⟩,
    _, rfl, (kill_reached 65536 2097152).2 _ _ Ssh.ProcessTable.meeting_killed rfl⟩

/-- With the pipes of Linux, and with the window of OpenSSH, a kill waits for ever, unless a process
reads or exits. -/
theorem kill_not_reached :
    (∃ s, Machine.run (ProcessActor.step 65536) (ProcessActor.unread 65536) .new = some s ∧
      ¬ s.KillsReached 65536) ∧
    ∃ s, Machine.run (Ssh.ProcessTable.step 2097152) (Ssh.ProcessTable.unread 2097152) .new =
      some s ∧ ¬ s.KillsReached 2097152 :=
  ⟨⟨_, ProcessActor.run_unread (by decide), ProcessActor.not_killsReached_stuck⟩,
    _, Ssh.ProcessTable.run_unread (by decide), Ssh.ProcessTable.not_killsReached_stuck⟩

end Distant
