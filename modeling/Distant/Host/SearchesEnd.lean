import Distant.Host.Searches

/-!
# How the searches of the host end

Each visitor, each reporter and each request has only so much left to do, and none of them waits for
what does not come. `searches_end` says that all searches come to their end in this way, and that the
table of the actor is empty then.
-/

namespace Distant

/-! ## What is left to do -/

/-- What is left to do for an entry. -/
def Visit.cost : Visit → Nat
  | .waiting ms => 6 * ms.length + 3
  | .searching ms => 6 * ms.length + 2
  | .searched => 0

theorem sum_set {l : List Nat} {j a : Nat} (h : l[j]? = some a) (b : Nat) :
    (l.set j b).sum + a = l.sum + b := by
  induction l generalizing j with
  | nil => cases h
  | cons x l ih =>
    cases j with
    | zero =>
      cases h
      simp only [List.set_cons_zero, List.sum_cons]
      omega
    | succ j =>
      have hl := ih h
      simp only [List.set_cons_succ, List.sum_cons]
      omega

namespace QueuedServerReply

/-- What is left to do for the request and its one sender. -/
def cost (s : QueuedServerReply SearchResponse SearchResponse) : Nat :=
  (match s.request with
    | .handling => 4
    | .responding .. => 3
    | .responded _ => 2
    | .flushing _ => 1
    | .flushed _ => 0) +
  match s.senders 0 with
  | .idle => 0
  | .checked .. => 1

variable {s s' : QueuedServerReply SearchResponse SearchResponse}
  {e : ReplyEvent SearchResponse SearchResponse}

theorem cost_inner (messages : List (Message SearchResponse SearchResponse)) :
    (s.inner messages).cost = s.cost := by
  rw [inner]
  split_ifs <;> rfl

/-- A call of `send` begins, or something comes to its end. -/
theorem cost_step (h : Stepped s e s') (hothers : ∀ k ≠ 0, s.senders k = .idle) (he : e ≠ .close) :
    (∃ k data, e = .send k data ∧ s'.cost ≤ s.cost + 1) ∨ s'.cost < s.cost := by
  cases h with
  | send k data hidle =>
    refine .inl ⟨k, data, rfl, ?_⟩
    simp only [cost]
    refine Nat.add_le_add_left ?_ _ |>.trans (Nat.add_assoc .. |>.ge)
    split <;> split <;> omega
  | push k data hk =>
    obtain rfl : k = 0 := by
      by_contra hne
      rw [hothers k hne] at hk
      cases hk
    refine .inr ?_
    simp [cost, hk]
  | direct k data hk =>
    obtain rfl : k = 0 := by
      by_contra hne
      rw [hothers k hne] at hk
      cases hk
    refine .inr ?_
    rw [cost_inner]
    simp [cost, hk]
  | sendBefore response hr => exact .inr (by simp [cost, hr])
  | insert response hr => exact .inr (by simp [cost, hr])
  | insertDirect response hr =>
    refine .inr ?_
    rw [cost_inner]
    simp [cost, hr]
  | flush response hr => exact .inr (by simp [cost, hr])
  | drain response hr => exact .inr (by simp [cost, hr])
  | drainClosed response hold hr => exact .inr (by simp [cost, hr])
  | close => exact absurd rfl he

end QueuedServerReply

namespace HostSearch

variable {s s' : HostSearch} {interrupted : Bool} {e : SearchEvent}

def executorCost : ExecutorPhase → Nat
  | .running => 2
  | .done => 1
  | .removed => 0

def reporterCost : ReporterPhase → Nat
  | .receiving => 6
  | .leaving => 1
  | .ended => 0

/-- What is left to do for a search. -/
def cost (s : HostSearch) : Nat :=
  (s.visits.map Visit.cost).sum + 5 * s.waiting.length + executorCost s.executor +
    reporterCost s.reporter + 2 * s.outbox.length + s.reply.cost

theorem length_remaining (id : SearchId) (r : Reporting) : (remaining id r).length ≤ 2 := by
  rw [remaining]
  split_ifs <;> simp

theorem cost_set {j : Nat} {v : Visit} (hv : s.visits[j]? = some v) (v' : Visit) :
    ((s.visits.set j v').map Visit.cost).sum + v.cost =
      (s.visits.map Visit.cost).sum + v'.cost := by
  rw [List.map_set]
  exact sum_set (by rw [List.getElem?_map, hv]; rfl) _

theorem length_outbox_onMatch {id : SearchId} {options : ReporterOptions} {m : SearchQueryMatch}
    {r r' : Reporting} (h : SearchQueryReporter.onMatch id options m r = (r', true)) :
    (r'.sent.drop r.sent.length).length ≤ 1 := by
  have hr : r' = (SearchQueryReporter.onMatch id options m r).1 := by rw [h]
  rw [hr, SearchQueryReporter.onMatch]
  split_ifs <;> simp

/-- Only the reporter has begun to send. -/
def Alone (s : HostSearch) : Prop := ∀ k ≠ 0, s.reply.senders k = .idle

theorem alone_stepReply {e : ReplyEvent SearchResponse SearchResponse} (h : s.Alone)
    (hstep : s.stepReply e = some s') : s'.Alone := by
  obtain ⟨reply, hreply, hcases⟩ := stepReply_some hstep
  have hsame : s'.reply = reply := by
    rcases hcases with ⟨_, _, -, -, rfl⟩ | ⟨-, -, rfl⟩ <;> rfl
  intro k hk
  rw [hsame]
  rcases (QueuedServerReply.stepped_of_step hreply).senders with
    ⟨j, data, rfl, -, hothers, -⟩ | ⟨-, -, hidle, -⟩
  · rcases hcases with ⟨_, _, heq, -⟩ | ⟨hnot, -⟩
    · cases heq
      rw [hothers k hk]
      exact h k hk
    · exact absurd rfl (hnot j data)
  · exact hidle k (h k hk)

/-- A step outside the reply leaves it as it is. -/
theorem reply_step (hstep : s.step interrupted e = some s') :
    s'.reply = s.reply ∨ ∃ e', e = .reply e' ∧ s.stepReply e' = some s' := by
  cases e with
  | reply e' => exact .inr ⟨e', rfl, hstep⟩
  | visit | leave =>
    rw [step] at hstep
    split at hstep
    · try split_ifs at hstep
      cases hstep
      exact .inl rfl
    · cases hstep
  | found =>
    rw [step] at hstep
    split at hstep
    · split_ifs at hstep <;> cases hstep <;> exact .inl rfl
    · cases hstep
  | receive =>
    rw [step] at hstep
    split at hstep
    · split_ifs at hstep
      cases hstep
      rw [onMatch]
      split <;> exact .inl rfl
    · cases hstep
  | done | finish | drop =>
    rw [step] at hstep
    split_ifs at hstep
    cases hstep
    exact .inl rfl

theorem Alone.step (h : s.Alone) (hstep : s.step interrupted e = some s') : s'.Alone := by
  rcases reply_step hstep with hsame | ⟨e', rfl, hreply⟩
  · intro k hk
    rw [hsame]
    exact h k hk
  · exact alone_stepReply h hreply

/-- Each step brings a search nearer to its end. -/
theorem cost_step (halone : s.Alone) (he : e ≠ .reply .close)
    (hstep : s.step interrupted e = some s') : s'.cost < s.cost := by
  cases e with
  | visit j =>
    rw [step] at hstep
    split at hstep
    · next ms hv =>
      split_ifs at hstep
      cases hstep
      have hset := cost_set hv (.searching ms)
      simp only [Visit.cost] at hset
      simp only [cost]
      omega
    · cases hstep
  | found j =>
    rw [step] at hstep
    split at hstep
    · next m ms hv =>
      split_ifs at hstep <;> cases hstep
      · have hset := cost_set hv (.searching [])
        simp only [Visit.cost, List.length_cons, List.length_nil] at hset
        simp only [cost]
        omega
      · have hset := cost_set hv (.searching ms)
        simp only [Visit.cost, List.length_cons] at hset
        simp only [cost, List.length_append, List.length_singleton]
        omega
    · cases hstep
  | leave j =>
    rw [step] at hstep
    split at hstep
    · next hv =>
      cases hstep
      have hset := cost_set hv .searched
      simp only [Visit.cost, List.length_nil] at hset
      simp only [cost]
      omega
    · cases hstep
  | done =>
    rw [step] at hstep
    split_ifs at hstep with hguard
    cases hstep
    simp only [cost, hguard.1, executorCost]
    omega
  | receive =>
    rw [step] at hstep
    split at hstep
    · next m waiting hphase hwaiting =>
      split_ifs at hstep with hsent
      cases hstep
      rw [onMatch]
      split
      · next r hr =>
        have hlen := length_outbox_onMatch hr
        simp only [cost, hwaiting, (hasSent_iff.1 hsent).1, List.length_cons, List.length_nil]
        dsimp only at hlen
        omega
      · next r hr =>
        have hlen := length_remaining s.id r
        simp only [cost, hwaiting, hphase, (hasSent_iff.1 hsent).1, reporterCost, List.length_cons,
          List.length_nil]
        omega
    · cases hstep
  | finish =>
    rw [step] at hstep
    split_ifs at hstep with hguard
    cases hstep
    have hlen := length_remaining s.id s.reporting
    simp only [cost, hguard.1, (hasSent_iff.1 hguard.2.2.2).1, reporterCost, List.length_nil]
    omega
  | drop =>
    rw [step] at hstep
    split_ifs at hstep with hguard
    cases hstep
    simp only [cost, hguard.1, reporterCost, List.length_nil]
    omega
  | reply e =>
    obtain ⟨reply, hreply, hcases⟩ := stepReply_some hstep
    have hless := QueuedServerReply.cost_step (QueuedServerReply.stepped_of_step hreply) halone
      fun h => he (congrArg _ h)
    rcases hcases with ⟨data, outbox, rfl, houtbox, rfl⟩ | ⟨hnot, -, rfl⟩
    · have hle : reply.cost ≤ s.reply.cost + 1 := by
        rcases hless with ⟨_, _, _, hle⟩ | hlt
        · exact hle
        · omega
      simp only [cost, houtbox, List.length_cons]
      omega
    · have hlt : reply.cost < s.reply.cost := by
        rcases hless with ⟨k, data, heq, -⟩ | hlt
        · exact absurd heq (hnot k data)
        · exact hlt
      simp only [cost]
      omega

/-- All tasks of the search have ended. -/
def IsOver (s : HostSearch) : Prop :=
  s.executor = .removed ∧ s.reporter = .ended ∧ s.reply.Returned

/-- A walk that goes on has a visitor that can go on, or is over. -/
theorem exists_visit (hrunning : s.executor = .running) :
    ∃ e s', e ≠ .reply .close ∧ s.step interrupted e = some s' := by
  by_cases hover : s.visits.all (Visit.isOver interrupted) = true
  · exact ⟨.done, _, by simp, if_pos ⟨hrunning, hover⟩⟩
  · obtain ⟨v, hmem, hv⟩ : ∃ v ∈ s.visits, v.isOver interrupted = false := by
      simpa [List.all_eq_true] using hover
    obtain ⟨j, hj⟩ := List.getElem?_of_mem hmem
    cases v with
    | waiting ms =>
      refine ⟨.visit j, { s with visits := s.visits.set j (.searching ms) }, by simp, ?_⟩
      rw [step, hj]
      exact if_pos ⟨hrunning, hv⟩
    | searching ms =>
      cases ms with
      | nil =>
        refine ⟨.leave j, { s with visits := s.visits.set j .searched }, by simp, ?_⟩
        rw [step, hj]
      | cons m ms =>
        obtain ⟨s', hs'⟩ : ∃ s', s.step interrupted (.found j) = some s' := by
          rw [step, hj]
          dsimp only
          split_ifs <;> exact ⟨_, rfl⟩
        exact ⟨.found j, s', by simp, hs'⟩
    | searched => cases hv

/-- What is neither the reporter's to send nor the request's to put first is up to the reply. -/
theorem exists_of_reply {e : ReplyEvent SearchResponse SearchResponse}
    {reply : QueuedServerReply SearchResponse SearchResponse}
    (hreply : s.reply.step e = some reply) (hclose : e ≠ .close)
    (hsend : ∀ k data, e ≠ .send k data) (hbefore : ∀ response, e ≠ .sendBefore response) :
    ∃ e s', e ≠ .reply .close ∧ s.step interrupted e = some s' := by
  refine ⟨.reply e, { s with reply }, by simpa using hclose, ?_⟩
  rw [step, stepReply, hreply]
  · rfl
  · exact hsend 0
  · exact hsend
  · exact hbefore

/-- The request and the reporter go on with the reply, or have nothing more to send. -/
theorem exists_reply (halone : s.Alone) :
    (∃ e s', e ≠ .reply .close ∧ s.step interrupted e = some s') ∨
      s.hasSent = true ∧ s.reply.Returned := by
  -- the request comes first: while `flush` has the lock of `hold` no call of `send` can begin
  cases hrequest : s.reply.request with
  | handling =>
    obtain ⟨reply, hreply⟩ : ∃ reply,
        s.reply.step (.sendBefore (.searchStarted s.id)) = some reply := by
      rw [QueuedServerReply.step, hrequest]
      exact ⟨_, rfl⟩
    refine .inl ⟨.reply (.sendBefore (.searchStarted s.id)), { s with reply }, by simp, ?_⟩
    rw [step, stepReply, if_pos rfl, hreply]
    rfl
  | responding response hold =>
    obtain ⟨reply, hreply⟩ : ∃ reply, s.reply.step .insert = some reply := by
      rw [QueuedServerReply.step, hrequest]
      dsimp only
      split_ifs <;> exact ⟨_, rfl⟩
    exact .inl (exists_of_reply hreply (by simp) (by simp) (by simp))
  | responded response =>
    have hreply : s.reply.step .flush = some { s.reply with request := .flushing response } := by
      rw [QueuedServerReply.step, hrequest]
    exact .inl (exists_of_reply hreply (by simp) (by simp) (by simp))
  | flushing response =>
    obtain ⟨reply, hreply⟩ : ∃ reply, s.reply.step .drain = some reply := by
      rw [QueuedServerReply.step, hrequest]
      dsimp only
      split_ifs <;> exact ⟨_, rfl⟩
    exact .inl (exists_of_reply hreply (by simp) (by simp) (by simp))
  | flushed response =>
    cases hsender : s.reply.senders 0 with
    | checked data hold =>
      obtain ⟨reply, hreply⟩ : ∃ reply, s.reply.step (.finish 0) = some reply := by
        rw [QueuedServerReply.step, hsender]
        dsimp only
        split_ifs <;> exact ⟨_, rfl⟩
      exact .inl (exists_of_reply hreply (by simp) (by simp) (by simp))
    | idle =>
      cases houtbox : s.outbox with
      | cons data outbox =>
        obtain ⟨reply, hreply⟩ : ∃ reply, s.reply.step (.send 0 data) = some reply := by
          rw [QueuedServerReply.step, hrequest, hsender]
          exact ⟨_, rfl⟩
        refine .inl ⟨.reply (.send 0 data), { s with outbox, reply }, by simp, ?_⟩
        rw [step, stepReply, houtbox]
        dsimp only
        rw [if_pos rfl, hreply]
        rfl
      | nil =>
        refine .inr ⟨hasSent_iff.2 ⟨houtbox, hsender⟩, ⟨response, hrequest⟩, fun k => ?_⟩
        by_cases hk : k = 0
        · rw [hk, hsender]
        · exact halone k hk

/-- A search that is not over can go on, or the actor is to be told of its end. -/
theorem exists_step (halone : s.Alone) (hover : ¬ s.IsOver) (hdone : s.executor ≠ .done) :
    ∃ e s', e ≠ .reply .close ∧ s.step interrupted e = some s' := by
  cases hexecutor : s.executor with
  | running => exact exists_visit hexecutor
  | done => exact absurd hexecutor hdone
  | removed =>
    rcases @exists_reply s interrupted halone with hmoves | ⟨hsent, hreturned⟩
    · exact hmoves
    · cases hreporter : s.reporter with
      | receiving =>
        cases hwaiting : s.waiting with
        | nil =>
          refine ⟨.finish, _, by simp, if_pos ⟨hreporter, hwaiting, ?_, hsent⟩⟩
          simp [hexecutor]
        | cons m waiting =>
          refine ⟨.receive, { s with waiting }.onMatch m, by simp, ?_⟩
          rw [step, hreporter, hwaiting]
          exact if_pos hsent
      | leaving => exact ⟨.drop, _, by simp, if_pos ⟨hreporter, hsent⟩⟩
      | ended => exact absurd ⟨hexecutor, hreporter, hreturned⟩ hover

end HostSearch

namespace SearchState

variable {s s' : SearchState} {e : SearchStateEvent}

/-- No search is started or cancelled, and the connections stay. -/
def Quiet : SearchStateEvent → Prop
  | .start .. => False
  | .cancel _ => False
  | .search _ (.reply .close) => False
  | _ => True

/-- All searches have ended, and none is in the table. -/
def IsOver (s : SearchState) : Prop :=
  (∀ t ∈ s.started, t.IsOver) ∧ ∀ id, s.searches id = none

/-- What is needed for the searches to go on. -/
structure GoesOn (s : SearchState) : Prop where
  listed : s.Listed
  alone : ∀ t ∈ s.started, t.Alone

theorem goesOn_new : new.GoesOn :=
  ⟨fun _ _ h => (by cases h), fun _ h => (by cases h)⟩

theorem GoesOn.step (h : s.GoesOn) (hstep : s.step e = some s') : s'.GoesOn where
  listed := h.listed.step hstep
  alone := by
    intro t' ht
    obtain ⟨n, hn⟩ := List.getElem?_of_mem ht
    rcases started_step hstep hn with hold | ⟨id, options, entries, -, -, rfl⟩ |
      ⟨t, hold, -, -, rfl⟩ | ⟨t, e', hold, -, ht'⟩
    · exact h.alone t' (List.mem_of_getElem? hold)
    · exact fun _ _ => rfl
    · exact h.alone t (List.mem_of_getElem? hold)
    · exact (h.alone t (List.mem_of_getElem? hold)).step ht'

/-- One search has come nearer to its end, and nothing else has changed. -/
theorem cost_step (h : s.GoesOn) (he : Quiet e) (hstep : s.step e = some s') :
    ∃ (n : Nat) (t t' : HostSearch), s.started[n]? = some t ∧ s'.started = s.started.set n t' ∧
      t'.cost < t.cost := by
  cases e with
  | start | cancel => exact he.elim
  | remove n =>
    rw [SearchState.step] at hstep
    split at hstep
    · cases hstep
    · next t ht =>
      split_ifs at hstep with hdone
      cases hstep
      refine ⟨n, t, _, ht, rfl, ?_⟩
      simp only [HostSearch.cost, hdone, HostSearch.executorCost]
      omega
  | search n e =>
    rw [SearchState.step] at hstep
    split at hstep
    · cases hstep
    · next t ht =>
      obtain ⟨t', ht', rfl⟩ := Option.map_eq_some_iff.1 hstep
      refine ⟨n, t, t', ht, rfl, HostSearch.cost_step (h.alone t (List.mem_of_getElem? ht)) ?_ ht'⟩
      rintro rfl
      exact he

theorem exists_step (h : s.GoesOn) (hover : ¬ s.IsOver) : ∃ e s', Quiet e ∧ s.step e = some s' := by
  by_cases hall : ∀ t ∈ s.started, t.IsOver
  · refine absurd ⟨hall, fun id => Option.eq_none_iff_forall_ne_some.2 fun n hn => ?_⟩ hover
    obtain ⟨t, ht, -, hlive⟩ := h.listed id n hn
    exact hlive (hall t (List.mem_of_getElem? ht)).1
  · simp only [not_forall] at hall
    obtain ⟨t, hmem, ht⟩ := hall
    obtain ⟨n, hn⟩ := List.getElem?_of_mem hmem
    by_cases hdone : t.executor = .done
    · obtain ⟨s', hs'⟩ : ∃ s', s.step (.remove n) = some s' := by
        rw [step, hn]
        exact ⟨_, if_pos hdone⟩
      exact ⟨.remove n, s', trivial, hs'⟩
    · obtain ⟨e, t', he, ht'⟩ :=
        @HostSearch.exists_step t (s.isInterrupted n t) (h.alone t hmem) ht hdone
      refine ⟨.search n e, { s with started := s.started.set n t' }, ?_, ?_⟩
      · cases e with
        | reply e =>
          cases e with
          | close => exact absurd rfl he
          | _ => trivial
        | _ => trivial
      · rw [step, hn]
        dsimp only
        rw [ht']
        rfl

/-- Once no more requests come, all searches end, whatever ids were drawn and whichever page was
overtaken: each executor, each reporter and each request comes to its end, and the table is empty
then. -/
theorem searches_end {es : List SearchStateEvent} (hrun : Machine.run step es new = some s) :
    Machine.Inevitable step Quiet IsOver s := by
  have hgoes : s.GoesOn := Machine.invariant (C := fun _ _ => True)
    (fun _ _ _ h _ hstep => h.step hstep) goesOn_new
    (Machine.meeting_of_always (fun _ _ _ => trivial) _) hrun
  -- the parts are the searches, of which there are as many as before
  refine Machine.inevitable_of_parts
    (I := fun s' => s'.GoesOn ∧ s'.started.length = s.started.length) Nat.lt_wfRel.wf
    (fun s' (i : Fin s.started.length) => (s'.started[i.val]?).elim 0 HostSearch.cost)
    (fun s' h hover => exists_step h.1 hover) (fun s₁ e s₂ h _ he hstep => ?_) ⟨hgoes, rfl⟩
  obtain ⟨n, t, t', ht, hset, hlt⟩ := cost_step h.1 he hstep
  have hn := (List.getElem?_eq_some_iff.1 ht).1
  refine ⟨⟨h.1.step hstep, by rw [hset, List.length_set, h.2]⟩, ⟨n, h.2 ▸ hn⟩, ?_, fun j hj => ?_⟩
  · show (s₂.started[n]?).elim 0 HostSearch.cost < (s₁.started[n]?).elim 0 HostSearch.cost
    rw [hset, List.getElem?_set_self hn, ht]
    exact hlt
  · have hne : n ≠ j.val := fun heq => hj (Fin.ext heq.symm)
    rw [hset, List.getElem?_set_ne hne]

/-- A search is started, and one more with its id. -/
def twoSearches : List SearchStateEvent :=
  [.start 7 ⟨none, none⟩ [[someMatch]], .start 7 ⟨some 1, none⟩ [[someMatch, someMatch]],
    .search 1 (.visit 0)]

theorem searches_end_two :
    ∃ s, Machine.run step twoSearches new = some s ∧ Machine.Inevitable step Quiet IsOver s := by
  have hrun : Machine.run step twoSearches new =
      some ((Machine.run step twoSearches new).get (by decide)) := (Option.some_get _).symm
  exact ⟨_, hrun, searches_end hrun⟩

end SearchState

end Distant
