import Distant.Server.Requests

/-!
# The order in which data arrives

Nothing puts the handlers in order, so a chunk may be handed over before an older one, and a tunnel
may be closed before what was written to it arrives. `ordered_of_run` says that the data arrives as
it was fired in every run in which the handlers of one process or tunnel happen to run in order, and
it can take what it is handed.
-/

namespace Distant

namespace Serving

/-! ## What is claimed, and under which condition -/

structure Ordered (s : Serving) : Prop where
  /-- the chunks are handed over in the order in which they were fired, each once -/
  handed : ∀ t, (s.targets t).handed <+: s.chunksFired t
  /-- and all of them, once nothing is under way -/
  whole : ∀ t, (∀ r ∈ s.underWay t.actor, r.isData t = false) →
    (s.targets t).handed = s.chunksFired t
  /-- no write is refused after the tunnel was closed by a request -/
  served : s.answers.Pairwise fun x y => ∀ id data e, x = (.tunnelClose id, .ok ()) →
    y ≠ (.tunnelWrite id data, .error e)

/-- The process or tunnel of a write has not ended by itself, and has room for the data. -/
def CanTake (s : Serving) : Request → Prop
  | .procStdin id _ => (s.targets (.process id)).running = true
  | .tunnelWrite id _ =>
    (s.targets (.tunnel id)).running = true ∧ (s.targets (.tunnel id)).queued < WRITE_CAPACITY
  | _ => True

/-- The condition on a step. -/
def InOrder (s : Serving) : ServingEvent → Prop
  -- a handler does not overtake an older one for the same process or tunnel
  | .send i => ∀ r t, s.dispatch.tasks[i]? = some r → r.isData t = true →
    ∀ r' ∈ s.dispatch.tasks.take i, r'.isData t = false
  | .handle actor _ => ∀ r, (s.dispatch.queue actor).head? = some r → s.CanTake r
  | _ => True

/-! ## The invariant -/

structure Steady (s : Serving) : Prop where
  routed : s.dispatch.Routed Request.actor
  straight : ∀ t, s.dispatch.Straight (Request.isData t) t.actor
  handed : ∀ t, (s.targets t).handed = (s.dispatch.taken t.actor).filterMap (Request.chunk t)
  process : ∀ id, (s.targets (.process id)).running = true →
    (s.targets (.process id)).listed = true
  /-- only a request takes a tunnel out of the table while it runs -/
  tunnel : ∀ id, (s.targets (.tunnel id)).running = true →
    (s.targets (.tunnel id)).listed = true ∨ .tunnelClose id ∈ s.dispatch.taken .tunnels
  /-- closing is the last that is fired at a tunnel -/
  closeLast : ∀ id, (s.dispatch.fired.filter (Request.isData (.tunnel id))).Pairwise
    fun r _ => r ≠ .tunnelClose id
  finished : ∀ id, .tunnelClose id ∈ s.dispatch.fired → (s.tunnels id).phase = .finished
  served : ∀ r result, (r, result) ∈ s.answers → r.isWrite = true → result = .ok ()

theorem isData_of_chunk {t : Target} {r : Request} {data : Bytes} (h : r.chunk t = some data) :
    r.isData t = true := by
  cases r <;> simp_all [Request.chunk, Request.isData]

theorem actor_of_isData {t : Target} {r : Request} (h : r.isData t = true) :
    r.actor = t.actor := by
  cases r <;> simp_all [Request.isData, Request.actor, Request.target]

/-- The chunks among some requests are those among the requests that carry data. -/
theorem filterMap_chunk_filter (t : Target) (l : List Request) :
    (l.filter (Request.isData t)).filterMap (Request.chunk t) = l.filterMap (Request.chunk t) := by
  rw [List.filterMap_filter]
  refine List.filterMap_congr fun r _ => ?_
  by_cases hdata : r.isData t = true
  · rw [if_pos hdata]
  · rw [if_neg hdata]
    cases hchunk : r.chunk t with
    | none => rfl
    | some data => exact absurd (isData_of_chunk hchunk) hdata

theorem Steady.ordered {s : Serving} (h : s.Steady) : s.Ordered where
  handed := by
    intro t
    have hfront := (h.straight t).isFront_taken
    have hprefix := hfront.filterMap (Request.chunk t)
    rwa [filterMap_chunk_filter, filterMap_chunk_filter, ← h.handed] at hprefix
  whole := by
    intro t hnone
    have heq := congrArg (List.filterMap (Request.chunk t)) ((h.straight t).taken_eq hnone)
    rwa [filterMap_chunk_filter, filterMap_chunk_filter, ← h.handed] at heq
  served := by
    -- no write is refused at all
    refine List.pairwise_of_forall_mem_list fun x _ y hy id data e _ heq => ?_
    subst heq
    cases h.served _ _ hy rfl

theorem steady_start (present : Target → Bool) : (start present).Steady where
  routed := nofun
  straight := fun _ => rfl
  handed := fun _ => rfl
  process := fun _ hrunning => hrunning
  tunnel := fun _ hrunning => .inl hrunning
  closeLast := fun _ => .nil
  finished := nofun
  served := nofun

/-! ## Steps -/

section Steps

variable {s s' : Serving}

/-- A step of the client's program, or of one of its tasks, that fires nothing. -/
theorem Steady.client (h : s.Steady) (hdispatch : s'.dispatch = s.dispatch)
    (htargets : s'.targets = s.targets) (hanswers : s'.answers = s.answers)
    (hphase : ∀ id, (s.tunnels id).phase = .finished → (s'.tunnels id).phase = .finished) :
    s'.Steady where
  routed := by
    rw [hdispatch]
    exact h.routed
  straight := by
    rw [hdispatch]
    exact h.straight
  handed := by
    rw [hdispatch, htargets]
    exact h.handed
  process := by
    rw [htargets]
    exact h.process
  tunnel := by
    rw [hdispatch, htargets]
    exact h.tunnel
  closeLast := by
    rw [hdispatch]
    exact h.closeLast
  finished := by
    rw [hdispatch]
    exact fun id hclose => hphase id (h.finished id hclose)
  served := by
    rw [hanswers]
    exact h.served

/-- A request is fired, and if it is about a tunnel, then by a task that has not finished. -/
theorem Steady.fire (h : s.Steady) {r : Request}
    (hopen : ∀ id, r.isData (.tunnel id) = true → .tunnelClose id ∉ s.dispatch.fired)
    (hclose : ∀ id, r = .tunnelClose id → (s.tunnels id).phase = .finished) :
    (s.fire r).Steady where
  routed := h.routed
  straight := fun t => Dispatch.straight_fire (h.straight t) r
  handed := h.handed
  process := h.process
  tunnel := h.tunnel
  closeLast := by
    intro id
    show ((s.dispatch.fired ++ [r]).filter _).Pairwise _
    rw [List.filter_append, List.pairwise_append]
    refine ⟨h.closeLast id, ?_, ?_⟩
    · exact (List.pairwise_singleton _ r).sublist List.filter_sublist
    · intro x hx y hy heq
      obtain ⟨hy, hdata⟩ := List.mem_filter.mp hy
      rw [List.mem_singleton.mp hy] at hdata
      exact hopen id hdata (heq ▸ (List.mem_filter.mp hx).1)
  finished := by
    intro id hmem
    rcases List.mem_append.mp hmem with hmem | hmem
    · exact h.finished id hmem
    · exact hclose id (List.mem_singleton.mp hmem).symm
  served := h.served

/-- A step between the line and the queues. -/
theorem Steady.dispatched (h : s.Steady) {d : Dispatch Request Actor}
    (hkeeps : d.fired = s.dispatch.fired ∧ d.taken = s.dispatch.taken)
    (hrouted : d.Routed Request.actor) (hstraight : ∀ t, d.Straight (Request.isData t) t.actor) :
    ({ s with dispatch := d } : Serving).Steady where
  routed := hrouted
  straight := hstraight
  handed := by
    rw [hkeeps.2]
    exact h.handed
  process := h.process
  tunnel := by
    rw [hkeeps.2]
    exact h.tunnel
  closeLast := by
    rw [hkeeps.1]
    exact h.closeLast
  finished := by
    rw [hkeeps.1]
    exact h.finished
  served := h.served

/-- A process or a tunnel ends, or leaves the table after that, or makes room. -/
theorem Steady.target (h : s.Steady) {t : Target} {st : TargetState}
    (hhanded : st.handed = (s.targets t).handed)
    (hrunning : st.running = true → (s.targets t).running = true ∧ st.listed = (s.targets t).listed) :
    (s.setTarget t st).Steady where
  routed := h.routed
  straight := h.straight
  handed := by
    intro t'
    refine Eq.trans ?_ (h.handed t')
    by_cases heq : t' = t
    · subst heq
      simp [setTarget, hhanded]
    · simp [setTarget, heq]
  process := by
    intro id hrun
    by_cases heq : Target.process id = t
    · subst heq
      simp only [setTarget, Function.update_self] at hrun ⊢
      rw [(hrunning hrun).2]
      exact h.process id (hrunning hrun).1
    · simp only [setTarget, Function.update_of_ne heq] at hrun ⊢
      exact h.process id hrun
  tunnel := by
    intro id hrun
    by_cases heq : Target.tunnel id = t
    · subst heq
      simp only [setTarget, Function.update_self] at hrun ⊢
      rw [(hrunning hrun).2]
      exact h.tunnel id (hrunning hrun).1
    · simp only [setTarget, Function.update_of_ne heq] at hrun ⊢
      exact h.tunnel id hrun
  closeLast := h.closeLast
  finished := h.finished
  served := h.served

/-! ### The actors -/

/-- What an actor does with a request that it can serve. -/
structure Performs (s s' : Serving) (r : Request) (result : Except IoError Unit) : Prop where
  rest : s' = { s with targets := s'.targets }
  handed : ∀ t, (s'.targets t).handed = (s.targets t).handed ++ (r.chunk t).toList
  running : ∀ t, (s'.targets t).running = (s.targets t).running
  listed : ∀ t, (s'.targets t).listed = (s.targets t).listed ∨
    ∃ id, t = .tunnel id ∧ r = .tunnelClose id
  accepted : r.isWrite = true → result = .ok ()

theorem performs_write {t : Target} {r : Request} {data : Bytes} {st : TargetState}
    (hchunk : ∀ t', r.chunk t' = if t' = t then some data else none)
    (hhanded : st.handed = (s.targets t).handed ++ [data])
    (hrunning : st.running = (s.targets t).running) (hlisted : st.listed = (s.targets t).listed) :
    Performs s (s.setTarget t st) r (.ok ()) where
  rest := rfl
  handed := by
    intro t'
    rw [hchunk t']
    by_cases heq : t' = t
    · subst heq
      simp [setTarget, hhanded]
    · simp [setTarget, heq]
  running := by
    intro t'
    by_cases heq : t' = t
    · subst heq
      simp [setTarget, hrunning]
    · simp [setTarget, heq]
  listed := by
    intro t'
    refine .inl ?_
    by_cases heq : t' = t
    · subst heq
      simp [setTarget, hlisted]
    · simp [setTarget, heq]
  accepted := fun _ => rfl

/-- A request that carries no data and closes nothing leaves the targets alone. -/
theorem performs_nothing {r : Request} (hchunk : ∀ t, r.chunk t = none) (hwrite : r.isWrite = false)
    (result : Except IoError Unit) : Performs s s r result where
  rest := rfl
  handed := by simp [hchunk]
  running := fun _ => rfl
  listed := fun _ => .inl rfl
  accepted := by simp [hwrite]

theorem performs_close (id : TunnelId) :
    Performs s (s.onClose id).2 (.tunnelClose id) (s.onClose id).1 := by
  unfold onClose
  cases hlisted : (s.targets (.tunnel id)).listed with
  | false =>
      simp only [hlisted, Bool.false_eq_true, if_false]
      exact performs_nothing (fun _ => rfl) rfl _
  | true =>
      simp only [hlisted, if_true]
      refine ⟨rfl, fun t => ?_, fun t => ?_, fun t => ?_, nofun⟩
      · by_cases heq : t = .tunnel id
        · subst heq
          simp [setTarget, Request.chunk]
        · simp [setTarget, heq, Request.chunk]
      · by_cases heq : t = .tunnel id
        · subst heq
          simp [setTarget]
        · simp [setTarget, heq]
      · by_cases heq : t = .tunnel id
        · exact .inr ⟨id, heq, rfl⟩
        · simp [setTarget, heq]

theorem performs (outcome : Except IoError Unit) {r : Request} (hcan : s.CanTake r)
    (hlisted : r.isWrite = true → (s.targets r.target).listed = true) :
    Performs s (s.perform outcome r).2 r (s.perform outcome r).1 := by
  cases r with
  | procStdin id data =>
      have hlisted : (s.targets (.process id)).listed = true := hlisted rfl
      have hrun : (s.targets (.process id)).running = true := hcan
      simp only [perform, onStdin, hlisted, hrun, Bool.not_true, Bool.false_eq_true, if_false]
      exact performs_write (fun _ => rfl) rfl hrun.symm hlisted.symm
  | procResizePty id size =>
      simp only [perform, onProcess]
      split <;> exact performs_nothing (fun _ => rfl) rfl _
  | procKill id =>
      simp only [perform, onProcess]
      split <;> exact performs_nothing (fun _ => rfl) rfl _
  | tunnelWrite id data =>
      have hlisted : (s.targets (.tunnel id)).listed = true := hlisted rfl
      obtain ⟨hrun, hroom⟩ : (s.targets (.tunnel id)).running = true ∧ _ := hcan
      simp only [perform, onWrite, hlisted, hrun, Nat.not_le.mpr hroom, Bool.not_true, decide_false,
        Bool.or_self, Bool.false_eq_true, if_false]
      exact performs_write (fun _ => rfl) rfl hrun.symm hlisted.symm
  | tunnelClose id => exact performs_close id

/-- A write that is next finds its process or tunnel in the table. -/
theorem Steady.isListed (h : s.Steady) {r : Request} (hwrite : r.isWrite = true)
    (hqueue : r ∈ s.dispatch.queue r.actor) (hcan : s.CanTake r) :
    (s.targets r.target).listed = true := by
  cases r with
  | procStdin id data => exact h.process id hcan
  | tunnelWrite id data =>
      rcases h.tunnel id hcan.1 with hlisted | hclosed
      · exact hlisted
      · -- it would have been fired after the tunnel was closed
        have hdata : (Request.tunnelClose id).isData (.tunnel id) = true := by
          simp [Request.isData]
        have hdata' : (Request.tunnelWrite id data).isData (.tunnel id) = true := by
          simp [Request.isData]
        exact absurd rfl
          ((h.straight (.tunnel id)).fired_before (h.closeLast id) hclosed hqueue hdata hdata')
  | procResizePty id size => cases hwrite
  | procKill id => cases hwrite
  | tunnelClose id => cases hwrite

theorem Steady.handle (h : s.Steady) {actor : Actor} {r : Request} {d : Dispatch Request Actor}
    (htake : s.dispatch.take actor = some (r, d)) {result : Except IoError Unit} {s' : Serving}
    (hperforms : Performs { s with dispatch := d } s' r result) : (s'.answer r result).Steady := by
  obtain ⟨hmem, -, hfired, htaken⟩ := Dispatch.take_keeps htake
  have hroute : r.actor = actor := h.routed actor r hmem
  have hdispatch : s'.dispatch = d := by rw [hperforms.rest]
  have hsub : ∀ r' a, r' ∈ s.dispatch.taken a → r' ∈ d.taken a := by
    intro r' a hr'
    rw [htaken]
    split
    · exact List.mem_append_left _ hr'
    · exact hr'
  refine ⟨?_, ?_, ?_, ?_, ?_, ?_, ?_, ?_⟩
  · show s'.dispatch.Routed _
    rw [hdispatch]
    exact h.routed.take htake
  · intro t
    show s'.dispatch.Straight _ _
    rw [hdispatch]
    exact Dispatch.straight_take (h.straight t) htake
  · intro t
    show (s'.targets t).handed = (s'.dispatch.taken t.actor).filterMap _
    rw [hdispatch, hperforms.handed, htaken, show _ = _ from h.handed t]
    by_cases heq : t.actor = actor
    · rw [if_pos heq, List.filterMap_append]
      cases hchunk : r.chunk t <;> simp [hchunk]
    · -- the other actor's targets get nothing
      rw [if_neg heq]
      cases hchunk : r.chunk t with
      | none => simp
      | some data =>
          exact absurd ((actor_of_isData (isData_of_chunk hchunk)).symm.trans hroute) heq
  · intro id hrun
    have hrun : (s'.targets (.process id)).running = true := hrun
    rw [hperforms.running] at hrun
    rcases hperforms.listed (.process id) with hlisted | ⟨_, heq, -⟩
    · exact hlisted.trans (h.process id hrun)
    · cases heq
  · intro id hrun
    have hrun : (s'.targets (.tunnel id)).running = true := hrun
    rw [hperforms.running] at hrun
    show _ ∨ _ ∈ s'.dispatch.taken _
    rw [hdispatch]
    rcases hperforms.listed (.tunnel id) with hlisted | ⟨id', heq, rfl⟩
    · exact (h.tunnel id hrun).imp hlisted.trans (hsub _ _)
    · cases heq
      have hactor : Actor.tunnels = actor := hroute
      rw [htaken, if_pos hactor]
      exact .inr (List.mem_append_right _ (List.mem_singleton.mpr rfl))
  · intro id
    show (s'.dispatch.fired.filter _).Pairwise _
    rw [hdispatch, hfired]
    exact h.closeLast id
  · intro id hclose
    have hclose : _ ∈ s'.dispatch.fired := hclose
    rw [hdispatch, hfired] at hclose
    show (s'.tunnels id).phase = _
    rw [hperforms.rest]
    exact h.finished id hclose
  · intro r' result' hanswer hwrite
    rcases List.mem_append.mp hanswer with hanswer | hanswer
    · rw [hperforms.rest] at hanswer
      exact h.served r' result' hanswer hwrite
    · cases List.mem_singleton.mp hanswer
      exact hperforms.accepted hwrite

end Steps

/-- What `process_outgoing_requests` fires is no business of the tunnels. -/
theorem not_isData_of_process {id : ProcessId} {p p' : ProcessOutgoing} {branch : ProcessBranch}
    {r : Request} (h : processOutgoingRequests id p branch = some (r, p')) (t : TunnelId) :
    r.isData (.tunnel t) = false := by
  cases branch with
  | stdin => grind [processOutgoingRequests, Request.isData]
  | resize => grind [processOutgoingRequests, Request.isData]
  | kill => grind [processOutgoingRequests, Request.isData]

/-- `process_tunnel_outgoing` fires only until it has finished, and closing is the last. -/
theorem tunnelOutgoing_cases {id : TunnelId} {t t' : TunnelOutgoing} {r : Option Request}
    (h : processTunnelOutgoing id t = some (r, t')) :
    t.phase ≠ .finished ∧ (r = none ∨ (∃ data, r = some (.tunnelWrite id data)) ∨
      (r = some (.tunnelClose id) ∧ t'.phase = .finished)) := by
  unfold processTunnelOutgoing at h
  cases hphase : t.phase <;> cases hwriter : t.writer <;> simp only [hphase, hwriter] at h
  case running.nil => split at h <;> cases h; exact ⟨nofun, .inl rfl⟩
  case running.cons => cases h; exact ⟨nofun, .inr (.inl ⟨_, rfl⟩)⟩
  case leaving.nil => cases h; exact ⟨nofun, .inl rfl⟩
  case leaving.cons => cases h; exact ⟨nofun, .inl rfl⟩
  case draining.nil => cases h; exact ⟨nofun, .inr (.inr ⟨rfl, rfl⟩)⟩
  case draining.cons => cases h; exact ⟨nofun, .inr (.inl ⟨_, rfl⟩)⟩
  case finished.nil => cases h
  case finished.cons => cases h

variable {s s' : Serving}

/-- Setting one tunnel's task keeps the others, and what has finished. -/
theorem Steady.setTunnel (h : s.Steady) (id : TunnelId) {t : TunnelOutgoing}
    (hphase : (s.tunnels id).phase = .finished → t.phase = .finished) : (s.setTunnel id t).Steady := by
  refine h.client rfl rfl rfl fun id' hfinished => ?_
  by_cases heq : id' = id
  · subst heq
    simpa [Serving.setTunnel] using hphase hfinished
  · simpa [Serving.setTunnel, heq] using hfinished

theorem Steady.setProcess (h : s.Steady) (id : ProcessId) (p : ProcessOutgoing) :
    (s.setProcess id p).Steady :=
  h.client rfl rfl rfl fun _ hfinished => hfinished

theorem Steady.tunnelOutgoing (h : s.Steady) {id : TunnelId} {r : Option Request}
    {t : TunnelOutgoing} (hstep : processTunnelOutgoing id (s.tunnels id) = some (r, t)) :
    (match r with
      | none => s.setTunnel id t
      | some r => (s.setTunnel id t).fire r).Steady := by
  obtain ⟨hrunning, hcases⟩ := tunnelOutgoing_cases hstep
  have hset : (s.setTunnel id t).Steady := h.setTunnel id fun hphase => absurd hphase hrunning
  have hnotClosed : .tunnelClose id ∉ s.dispatch.fired := fun hmem => hrunning (h.finished id hmem)
  rcases hcases with rfl | ⟨data, rfl⟩ | ⟨rfl, hphase⟩
  · exact hset
  · refine hset.fire (fun id' hdata => ?_) nofun
    obtain rfl : id' = id := by simpa [Request.isData] using hdata
    exact hnotClosed
  · refine hset.fire (fun id' hdata => ?_) fun id' heq => ?_
    · obtain rfl : id' = id := by simpa [Request.isData] using hdata
      exact hnotClosed
    · cases heq
      simpa [Serving.setTunnel] using hphase

theorem Steady.step (h : s.Steady) {e : ServingEvent} (hC : s.InOrder e)
    (hstep : s.step e = some s') : s'.Steady := by
  cases e with
  | writeStdin id data =>
      cases hstep
      exact h.setProcess id _
  | resizePty id size =>
      cases hstep
      exact h.setProcess id _
  | killProcess id =>
      cases hstep
      exact h.setProcess id _
  | writeTunnel id data =>
      simp only [Serving.step] at hstep
      split at hstep
      · cases hstep
        exact h.setTunnel id fun hphase => hphase
      · cases hstep
  | closeTunnel id =>
      cases hstep
      exact h.setTunnel id fun hphase => hphase
  | processOutgoing id branch =>
      obtain ⟨⟨r, p⟩, hfires, rfl⟩ := Option.map_eq_some_iff.mp hstep
      have hother := not_isData_of_process hfires
      refine (h.setProcess id p).fire (fun t hdata => ?_) fun t heq => ?_
      · rw [hother t] at hdata
        cases hdata
      · subst heq
        simpa [Request.isData] using hother t
  | tunnelOutgoing id =>
      obtain ⟨⟨r, t⟩, hfires, rfl⟩ := Option.map_eq_some_iff.mp hstep
      have hsteady := h.tunnelOutgoing hfires
      cases r <;> exact hsteady
  | read =>
      obtain ⟨d, hread, rfl⟩ := Option.map_eq_some_iff.mp hstep
      exact h.dispatched (Dispatch.read_keeps hread) (h.routed.read hread)
        fun t => Dispatch.straight_read (h.straight t) hread
  | send i =>
      obtain ⟨d, hsend, rfl⟩ := Option.map_eq_some_iff.mp hstep
      exact h.dispatched (Dispatch.send_keeps hsend) (h.routed.send hsend)
        fun t => Dispatch.straight_send (h.straight t) (fun r => actor_of_isData) hsend
          fun r hr hdata => hC r t hr hdata
  | handle actor outcome =>
      obtain ⟨⟨r, d⟩, htake, rfl⟩ := Option.map_eq_some_iff.mp hstep
      obtain ⟨hmem, hhead, -⟩ := Dispatch.take_keeps htake
      have hcan := hC r hhead
      have hactor := h.routed actor r hmem
      exact h.handle htake (performs outcome hcan
        fun hwrite => h.isListed hwrite (hactor ▸ hmem) hcan)
  | ends t =>
      cases hstep
      exact h.target rfl nofun
  | removed t =>
      simp only [Serving.step] at hstep
      split at hstep
      · cases hstep
      · next hended =>
          cases hstep
          exact h.target rfl fun hrun => absurd hrun hended
  | drain t =>
      cases hstep
      exact h.target rfl fun hrun => ⟨hrun, rfl⟩

/-- In every run in which the handlers of one process or tunnel run in the order of their requests,
and the process or tunnel can take what it is handed, the data arrives as it was fired. -/
theorem ordered_of_run (present : Target → Bool) (es : List ServingEvent) (s : Serving)
    (hmeets : Machine.Meeting Serving.step InOrder es (start present))
    (hrun : Machine.run Serving.step es (start present) = some s) : s.Ordered :=
  (Machine.invariant (fun _ _ _ h hC hstep => h.step hC hstep) (steady_start present) hmeets
    hrun).ordered

theorem inOrder_send_zero (s : Serving) : s.InOrder (.send 0) := by
  intro r t _ _ r' hr'
  cases hr'

/-- Two chunks for a process, and one for a tunnel that is closed then, are fired and read. -/
def firing : List ServingEvent :=
  [.writeStdin 1 [1], .writeStdin 1 [2], .processOutgoing 1 .stdin, .processOutgoing 1 .stdin,
    .writeTunnel 1 [3], .closeTunnel 1, .tunnelOutgoing 1, .tunnelOutgoing 1, .tunnelOutgoing 1,
    .tunnelOutgoing 1, .read, .read, .read, .read]

/-- The handlers run in order. -/
def handling : List ServingEvent :=
  [.send 0, .handle .processes (.ok ()), .send 0, .handle .processes (.ok ()), .send 0,
    .handle .tunnels (.ok ()), .send 0, .handle .tunnels (.ok ())]

theorem ordered_handling : ∃ s, Machine.run Serving.step (firing ++ handling)
    (start fun _ => true) = some s ∧ s.Ordered ∧ (s.targets (.process 1)).handed = [[1], [2]] ∧
      (s.targets (.tunnel 1)).handed = [[3]] := by
  refine ⟨_, rfl, ordered_of_run (fun _ => true) (firing ++ handling) _ ?_ rfl, rfl, rfl⟩
  iterate 14 refine Machine.Meeting.cons trivial rfl ?_
  refine Machine.Meeting.cons (inOrder_send_zero _) rfl ?_
  refine Machine.Meeting.cons (fun r hr => by cases hr; rfl) rfl ?_
  refine Machine.Meeting.cons (inOrder_send_zero _) rfl ?_
  refine Machine.Meeting.cons (fun r hr => by cases hr; rfl) rfl ?_
  refine Machine.Meeting.cons (inOrder_send_zero _) rfl ?_
  refine Machine.Meeting.cons (fun r hr => by cases hr; exact ⟨rfl, by decide⟩) rfl ?_
  refine Machine.Meeting.cons (inOrder_send_zero _) rfl ?_
  exact Machine.Meeting.cons (fun r hr => by cases hr; trivial) rfl trivial

/-- A handler that overtakes: the process is handed the second chunk first, and the tunnel is
closed before it was handed its data. -/
theorem not_ordered_overtaking :
    (∃ s, Machine.run Serving.step (firing ++ [.send 1, .handle .processes (.ok ())])
      (start fun _ => true) = some s ∧ ¬ s.Ordered) ∧
    (∃ s, Machine.run Serving.step (firing ++ [.send 3, .handle .tunnels (.ok ()), .send 2,
      .handle .tunnels (.ok ())]) (start fun _ => true) = some s ∧ ¬ s.Ordered) := by
  constructor
  · refine ⟨_, rfl, fun h => ?_⟩
    have hprefix : ([[2]] : List Bytes) <+: [[1], [2]] := h.handed (.process 1)
    revert hprefix
    decide
  · refine ⟨_, rfl, fun h => ?_⟩
    have hserved := h.served
    exact (List.pairwise_cons.mp hserved).1 _ (List.mem_singleton.mpr rfl) 1 [3] _ rfl rfl

end Serving

end Distant
