import Distant.Client.Searcher
import Distant.Search.Reporter
import Distant.Server.Replies

/-!
# A search from end to end

The actor of the host keeps the cancel sender of each search under its id. The visitors of a search
put what they find in the channel of its reporter, which sends it in pages through the reply of the
request. `search_arrives` says what the client is given in the end.
-/

namespace Distant

/-- How far the search of an entry has got. -/
inductive Visit where
  /-- no visitor has come to it; what there is to find -/
  | waiting (ms : List SearchQueryMatch)
  /-- its visitor has yet to send these -/
  | searching (ms : List SearchQueryMatch)
  | searched
  deriving DecidableEq

/-- A visitor that comes to an entry after it was interrupted ends the walk. -/
def Visit.isOver (interrupted : Bool) : Visit → Bool
  | .waiting _ => interrupted
  | .searching _ => false
  | .searched => true

inductive ExecutorPhase where
  | running
  /-- `run` has returned, and the actor is to be told -/
  | done
  /-- the actor knows -/
  | removed
  deriving DecidableEq

inductive ReporterPhase where
  | receiving
  /-- has left the loop -/
  | leaving
  /-- has returned, and the receiver of the matches is gone -/
  | ended
  deriving DecidableEq

/-- The tasks of a search. -/
structure HostSearch where
  id : SearchId
  options : ReporterOptions
  /-- what there is to find in each entry that passes the filters -/
  entries : List (List SearchQueryMatch)
  visits : List Visit
  executor : ExecutorPhase
  /-- what was put in the channel, with the entry it is from -/
  found : List (Nat × SearchQueryMatch)
  /-- what is in the channel -/
  waiting : List SearchQueryMatch
  reporting : Reporting
  reporter : ReporterPhase
  /-- what the reporter is about to send -/
  outbox : List SearchResponse
  reply : QueuedServerReply SearchResponse SearchResponse

inductive SearchEvent where
  /-- a visitor comes to an entry -/
  | visit (entry : Nat)
  /-- it sends a match -/
  | found (entry : Nat)
  | leave (entry : Nat)
  /-- all visitors have returned -/
  | done
  /-- the reporter receives a match -/
  | receive
  /-- it is told that there are no more -/
  | finish
  | drop
  /-- the reporter or `on_request` goes on with the reply -/
  | reply (e : ReplyEvent SearchResponse SearchResponse)

namespace HostSearch

def new (id : SearchId) (options : ReporterOptions) (entries : List (List SearchQueryMatch)) :
    HostSearch :=
  ⟨id, options, entries, entries.map .waiting, .running, [], [], ⟨[], 0, []⟩, .receiving, [], .new⟩

/-- What the reporter sends last. -/
def remaining (id : SearchId) (r : Reporting) : List SearchResponse :=
  (if r.held = [] then [] else [.searchResults id r.held]) ++ [.searchDone id]

/-- All that the reporter has sent is on its way. -/
def hasSent (s : HostSearch) : Bool :=
  match s.outbox, s.reply.senders 0 with
  | [], .idle => true
  | _, _ => false

/-- The reporter takes a match, and leaves the loop if that is the last one. -/
def onMatch (s : HostSearch) (m : SearchQueryMatch) : HostSearch :=
  match SearchQueryReporter.onMatch s.id s.options m s.reporting with
  | (r, true) => { s with reporting := r, outbox := r.sent.drop s.reporting.sent.length }
  | (r, false) => { s with reporting := r, reporter := .leaving, outbox := remaining s.id r }

def stepReply (s : HostSearch) (e : ReplyEvent SearchResponse SearchResponse) : Option HostSearch :=
  match e with
  -- the only clone of the reply is the reporter's
  | .send 0 data =>
    match s.outbox with
    | [] => none
    | r :: outbox =>
      if r = data then (s.reply.step e).map fun reply => { s with outbox, reply } else none
  | .send _ _ => none
  | .sendBefore response =>
    if response = .searchStarted s.id then (s.reply.step e).map fun reply => { s with reply }
    else none
  | _ => (s.reply.step e).map fun reply => { s with reply }

/-- A step of one search; `interrupted` is what a visitor sees of its cancel receiver. -/
def step (interrupted : Bool) (s : HostSearch) : SearchEvent → Option HostSearch
  | .visit entry =>
    match s.visits[entry]? with
    | some (.waiting ms) =>
      if s.executor = .running ∧ interrupted = false then
        some { s with visits := s.visits.set entry (.searching ms) }
      else none
    | _ => none
  | .found entry =>
    match s.visits[entry]? with
    | some (.searching (m :: ms)) =>
      -- the search of the entry ends where the receiver is gone
      if s.reporter = .ended then some { s with visits := s.visits.set entry (.searching []) }
      else
        some { s with
          visits := s.visits.set entry (.searching ms)
          found := s.found ++ [(entry, m)]
          waiting := s.waiting ++ [m] }
    | _ => none
  | .leave entry =>
    match s.visits[entry]? with
    | some (.searching []) => some { s with visits := s.visits.set entry .searched }
    | _ => none
  | .done =>
    if s.executor = .running ∧ s.visits.all (Visit.isOver interrupted) then
      some { s with executor := .done }
    else none
  | .receive =>
    match s.reporter, s.waiting with
    | .receiving, m :: waiting =>
      if s.hasSent then some ({ s with waiting }.onMatch m) else none
    | _, _ => none
  | .finish =>
    if s.reporter = .receiving ∧ s.waiting = [] ∧ s.executor ≠ .running ∧ s.hasSent then
      some { s with reporter := .leaving, outbox := remaining s.id s.reporting }
    else none
  | .drop =>
    if s.reporter = .leaving ∧ s.hasSent then some { s with reporter := .ended, waiting := [] }
    else none
  | .reply e => s.stepReply e

end HostSearch

/-- The searches of the host, with those that have a cancel sender in the table. -/
structure SearchState where
  searches : SearchId → Option Nat
  started : List HostSearch
  /-- those whose cancellation was granted -/
  cancelled : List Nat

inductive SearchStateEvent where
  /-- the actor starts a search with the id that was drawn -/
  | start (id : SearchId) (options : ReporterOptions) (entries : List (List SearchQueryMatch))
  | cancel (id : SearchId)
  /-- the actor is told that a search has ended -/
  | remove (n : Nat)
  | search (n : Nat) (e : SearchEvent)

namespace SearchState

def new : SearchState := ⟨fun _ => none, [], []⟩

/-- Its cancel sender is gone. -/
def isInterrupted (s : SearchState) (n : Nat) (t : HostSearch) : Bool := s.searches t.id != some n

def step (s : SearchState) : SearchStateEvent → Option SearchState
  | .start id options entries =>
    some { s with
      searches := Function.update s.searches id (some s.started.length)
      started := s.started ++ [.new id options entries] }
  | .cancel id =>
    match s.searches id with
    | some n => some { s with
        searches := Function.update s.searches id none
        cancelled := s.cancelled ++ [n] }
    -- an error is returned
    | none => some s
  | .remove n =>
    match s.started[n]? with
    | none => none
    | some t =>
      if t.executor = .done then
        some { s with
          searches := Function.update s.searches t.id none
          started := s.started.set n { t with executor := .removed } }
      else none
  | .search n e =>
    match s.started[n]? with
    | none => none
    | some t =>
      (t.step (s.isInterrupted n t) e).map fun t => { s with started := s.started.set n t }

end SearchState

/-! ## What the reporter sends -/

namespace SearchQueryReporter

/-- The matches that are sent: as many as the limit allows, but at least one if there is one. -/
def reported (limit : Option UInt64) (ms : List SearchQueryMatch) : List SearchQueryMatch :=
  match limit with
  | none => ms
  | some len => ms.take (max 1 len.toNat)

/-- There is room for one more. -/
def IsBelow (limit : Option UInt64) (n : Nat) : Prop :=
  ∀ len, limit = some len → n < max 1 len.toNat

variable {id : SearchId} {options : ReporterOptions} {r r' : Reporting} {m : SearchQueryMatch}
  {goesOn : Bool}

theorem onMatch_count (h : onMatch id options m r = (r', goesOn)) :
    r'.totalMatchesCnt = r.totalMatchesCnt + 1 := by
  have hr : r' = (onMatch id options m r).1 := by rw [h]
  rw [hr, onMatch]
  split_ifs <;> rfl

theorem sent_onMatch (h : onMatch id options m r = (r', true)) :
    r.sent ++ r'.sent.drop r.sent.length = r'.sent := by
  have hr : r' = (onMatch id options m r).1 := by rw [h]
  rw [hr, onMatch]
  split_ifs <;> simp

theorem loop_onMatch (h : onMatch id options m r = (r', true)) (ms : List SearchQueryMatch) :
    loop id options (m :: ms) r = loop id options ms r' := by rw [loop, h]

theorem onMatch_last (h : onMatch id options m r = (r', false)) :
    r'.sent = r.sent ∧ ∀ ms, loop id options (m :: ms) r = r' := by
  refine ⟨?_, fun ms => by rw [loop, h]⟩
  rw [onMatch] at h
  split_ifs at h <;> cases h
  rfl

theorem run_eq (ms : List SearchQueryMatch) : run id options ms =
    (loop id options ms ⟨[], 0, []⟩).sent ++
      HostSearch.remaining id (loop id options ms ⟨[], 0, []⟩) := List.append_assoc ..

/-- The loop goes on exactly below the limit. -/
theorem onMatch_isBelow {seen : Nat} (hbelow : IsBelow options.limit seen)
    (hcount : r.totalMatchesCnt = UInt64.ofNat seen) (h : onMatch id options m r = (r', goesOn)) :
    (goesOn = true → IsBelow options.limit (seen + 1)) ∧
      (goesOn = false → ∃ len, options.limit = some len ∧ seen + 1 = max 1 len.toNat) := by
  have hgoes : goesOn = !options.limit.any (· ≤ r.totalMatchesCnt + 1) := by
    have hr : goesOn = (onMatch id options m r).2 := by rw [h]
    rw [hr, onMatch]
    dsimp only
    cases options.limit.any (· ≤ r.totalMatchesCnt + 1) with
    | true => rfl
    | false =>
      rw [if_neg Bool.false_ne_true]
      split_ifs <;> rfl
  have hiff : ∀ len, options.limit = some len →
      (len ≤ r.totalMatchesCnt + 1 ↔ seen + 1 = max 1 len.toNat) := by
    intro len hlen
    have hlt := hbelow len hlen
    by_cases hzero : len = 0
    · subst hzero
      have hseen : seen = 0 := by simpa using hlt
      simp [hseen]
    · have hpos : 0 < len.toNat := Nat.pos_of_ne_zero fun h => hzero (UInt64.toNat_inj.mp h)
      rw [Nat.max_eq_right hpos] at hlt ⊢
      rw [← List.length_replicate (n := seen) (a := m)] at hcount hlt ⊢
      exact le_count_iff hlt hcount
  constructor
  · rintro rfl len hlen
    have hlt := hbelow len hlen
    have hnot : ¬ len ≤ r.totalMatchesCnt + 1 := by simpa [hlen] using hgoes
    have hne := mt (hiff len hlen).2 hnot
    omega
  · rintro rfl
    obtain ⟨len, hlen, hle⟩ := (Option.any_eq_true _ _).1 (by simpa using hgoes)
    exact ⟨len, hlen, (hiff len hlen).1 (of_decide_eq_true hle)⟩

/-- A client that reads all responses is given these matches. -/
theorem ends_run (ms : List SearchQueryMatch) :
    Searcher.Ends (run id options ms) (reported options.limit ms) := by
  have hpages : ∀ pages : List (List SearchQueryMatch), Searcher.Ends
      (pages.map (.searchResults id) ++ [.searchDone id]) pages.flatten := by
    intro pages
    induction pages with
    | nil => exact .done id []
    | cons page pages ih => exact .results id page ih
  by_cases hlimit : options.limit = some 0
  · cases ms with
    | nil =>
      rw [hlimit, reported]
      exact .done id []
    | cons m ms =>
      have hrun : run id options (m :: ms) = [.searchResults id [m], .searchDone id] := by
        simp [run, loop, onMatch, hlimit]
      rw [hrun, hlimit, reported]
      simpa using hpages [[m]]
  · obtain ⟨pages, hsent, hall, -⟩ : Reports id options ms (run id options ms) :=
      reports_of_limit hlimit ms
    have hsame : reported options.limit ms = limited options.limit ms := by
      cases hlen : options.limit with
      | none => rfl
      | some len =>
        have hpos : 0 < len.toNat := Nat.pos_of_ne_zero fun h =>
          hlimit (by rw [hlen, UInt64.toNat_inj.mp (h.trans UInt64.toNat_zero.symm)])
        rw [reported, limited, Nat.max_eq_right hpos]
    rw [hsent, hsame, ← hall]
    exact hpages pages

end SearchQueryReporter

/-! ## The reply of a search -/

def Message.payload {M : Type} : Message M M → M
  | .response r => r
  | .sent _ data => data

namespace QueuedServerReply

variable {M R : Type} {s s' : QueuedServerReply M R} {e : ReplyEvent M R}

def isFlushed (s : QueuedServerReply M R) : Bool :=
  match s.request with
  | .flushed _ => true
  | _ => false

theorem isFlushed_iff : s.isFlushed = true ↔ ∃ response, s.request = .flushed response := by
  rw [isFlushed]
  split
  · next response hr => exact iff_of_true rfl ⟨response, hr⟩
  · next hnot => exact iff_of_false nofun fun ⟨response, hr⟩ => hnot response hr

/-- The call has seen `hold` set. -/
def isHeld (s : QueuedServerReply M R) (k : Nat) : Bool :=
  match s.senders k with
  | .checked _ hold => hold
  | .idle => false

theorem inTime_finish (k : Nat) :
    s.InTime (.finish k) ↔ ¬ (s.isHeld k = true ∧ s.isFlushed = true) := by
  rw [isFlushed_iff, isHeld]
  constructor
  · rintro h ⟨hheld, response, hr⟩
    split at hheld
    · next data hold hk =>
      subst hheld
      exact h data response hk hr
    · cases hheld
  · intro h data response hk hr
    exact h ⟨by rw [hk], response, hr⟩

instance (s : QueuedServerReply M R) (e : ReplyEvent M R) : Decidable (s.InTime e) :=
  match e with
  | .finish k => decidable_of_iff _ (inTime_finish k).symm
  | .send .. | .sendBefore _ | .insert | .flush | .drain | .close => isTrue trivial

/-- The response, once the handler is done. -/
def answer (s : QueuedServerReply M R) : Option R :=
  match s.request with
  | .handling => none
  | .responding response _ => some response
  | .responded response => some response
  | .flushing response => some response
  | .flushed response => some response

@[simp]
theorem answer_inner (messages : List (Message M R)) : (s.inner messages).answer = s.answer := by
  rw [inner]
  split_ifs <;> rfl

@[simp]
theorem senders_inner (messages : List (Message M R)) : (s.inner messages).senders = s.senders := by
  rw [inner]
  split_ifs <;> rfl

@[simp]
theorem given_inner (messages : List (Message M R)) : (s.inner messages).given = s.given := by
  rw [inner]
  split_ifs <;> rfl

/-- Only a call of `send` gives something, and its sender is the only one to begin a call. -/
theorem Stepped.senders (h : Stepped s e s') :
    (∃ k data, e = .send k data ∧ s'.given = Function.update s.given k (s.given k ++ [data]) ∧
      (∀ j, j ≠ k → s'.senders j = s.senders j) ∧ s'.answer = s.answer) ∨
    ((∀ k data, e ≠ .send k data) ∧ s'.given = s.given ∧
      (∀ j, s.senders j = .idle → s'.senders j = .idle) ∧
      (s'.answer = s.answer ∨
        ∃ response, e = .sendBefore response ∧ s'.answer = some response)) := by
  cases h with
  | send k data hidle =>
    exact .inl ⟨k, data, rfl, rfl, fun j hj => Function.update_of_ne hj _ _, rfl⟩
  | push k data hk =>
    refine .inr ⟨nofun, rfl, fun j hj => ?_, .inl rfl⟩
    by_cases hjk : j = k
    · rw [hjk]
      exact Function.update_self ..
    · exact (Function.update_of_ne hjk _ _).trans hj
  | direct k data hk =>
    refine .inr ⟨nofun, given_inner _, fun j hj => ?_, .inl (answer_inner _)⟩
    rw [senders_inner]
    by_cases hjk : j = k
    · rw [hjk]
      exact Function.update_self ..
    · exact (Function.update_of_ne hjk _ _).trans hj
  | sendBefore response hr => exact .inr ⟨nofun, rfl, fun _ h => h, .inr ⟨response, rfl, rfl⟩⟩
  | insert response hr => exact .inr ⟨nofun, rfl, fun _ h => h, .inl (by simp [answer, hr])⟩
  | insertDirect response hr =>
    refine .inr ⟨nofun, given_inner _, fun j hj => ?_, .inl ?_⟩
    · rw [senders_inner]
      exact hj
    · rw [answer_inner]
      simp [answer, hr]
  | flush response hr => exact .inr ⟨nofun, rfl, fun _ h => h, .inl (by simp [answer, hr])⟩
  | drain response hr => exact .inr ⟨nofun, rfl, fun _ h => h, .inl (by simp [answer, hr])⟩
  | drainClosed response hold hr =>
    exact .inr ⟨nofun, rfl, fun _ h => h, .inl (by simp [answer, hr])⟩
  | close => exact .inr ⟨nofun, rfl, fun _ h => h, .inl rfl⟩

/-- Where there is one sender, the channel has the response and then all that it has sent. -/
theorem Answered.channel_eq (h : s.Answered) (hothers : ∀ k ≠ 0, s.given k = []) {response : R}
    (hresponse : s.answer = some response) :
    s.channel = .response response :: (s.given 0).map (.sent 0) := by
  obtain ⟨response', hr, rest, hchannel, hrest⟩ := h.first
  have heq : response' = response := by
    rw [answer, hr] at hresponse
    exact Option.some.inj hresponse
  have hall : ∀ m ∈ rest, ∃ data, m = .sent 0 data := by
    intro m hm
    cases m with
    | response r => exact absurd trivial (hrest _ hm)
    | sent k data =>
      by_cases hk : k = 0
      · exact ⟨data, by rw [hk]⟩
      · have hmem : data ∈ s.channel.filterMap (ofSender k) :=
          List.mem_filterMap.2 ⟨_, hchannel ▸ List.mem_cons_of_mem _ hm, by simp⟩
        rw [h.all k, hothers k hk] at hmem
        cases hmem
  rw [hchannel, heq, ← h.all 0, hchannel, List.filterMap_cons_none (by rfl)]
  congr 1
  clear hchannel hrest
  induction rest with
  | nil => rfl
  | cons m rest ih =>
    obtain ⟨data, rfl⟩ := hall m List.mem_cons_self
    rw [List.filterMap_cons_some (b := data) (by rfl), List.map_cons]
    exact congrArg _ (ih fun m hm => hall m (List.mem_cons_of_mem _ hm))

end QueuedServerReply

namespace HostSearch

variable {s s' : HostSearch} {e : ReplyEvent SearchResponse SearchResponse}

theorem stepReply_some (h : s.stepReply e = some s') :
    ∃ reply, s.reply.step e = some reply ∧
      ((∃ data outbox, e = .send 0 data ∧ s.outbox = data :: outbox ∧
        s' = { s with outbox, reply }) ∨
      ((∀ k data, e ≠ .send k data) ∧
        (∀ response, e = .sendBefore response → response = .searchStarted s.id) ∧
        s' = { s with reply })) := by
  cases e with
  | send k data =>
    cases k with
    | succ k => cases h
    | zero =>
      rw [stepReply] at h
      split at h
      · cases h
      · next r outbox houtbox =>
        split_ifs at h with heq
        obtain ⟨reply, hreply, rfl⟩ := Option.map_eq_some_iff.1 h
        exact ⟨reply, hreply, .inl ⟨data, outbox, rfl, heq ▸ houtbox, rfl⟩⟩
  | sendBefore response =>
    rw [stepReply] at h
    split_ifs at h with heq
    obtain ⟨reply, hreply, rfl⟩ := Option.map_eq_some_iff.1 h
    refine ⟨reply, hreply, .inr ⟨nofun, ?_, rfl⟩⟩
    rintro _ ⟨⟩
    exact heq
  | close =>
    cases h
    exact ⟨_, rfl, .inr ⟨nofun, nofun, rfl⟩⟩
  | finish | insert | flush | drain =>
    obtain ⟨reply, hreply, rfl⟩ := Option.map_eq_some_iff.1 h
    exact ⟨reply, hreply, .inr ⟨nofun, nofun, rfl⟩⟩

/-- The reply is the reporter's and that of the request, and nothing is lost. -/
structure Replies (s : HostSearch) : Prop where
  ordered : s.reply.Ordered
  accounted : s.reply.Accounted
  others : ∀ k ≠ 0, s.reply.senders k = .idle ∧ s.reply.given k = []
  started : ∀ response, s.reply.answer = some response → response = .searchStarted s.id

theorem Replies.step (h : Replies s) (hinTime : s.reply.InTime e)
    (hstep : s.stepReply e = some s') : Replies s' := by
  obtain ⟨reply, hreply, hcases⟩ := stepReply_some hstep
  have hstepped := QueuedServerReply.stepped_of_step hreply
  have hreply' : s'.reply = reply ∧ s'.id = s.id := by
    rcases hcases with ⟨data, outbox, -, -, rfl⟩ | ⟨-, -, rfl⟩ <;> exact ⟨rfl, rfl⟩
  refine ⟨?_, ?_, ?_, ?_⟩ <;> rw [hreply'.1]
  · exact h.ordered.step hstepped
  · exact h.accounted.step h.ordered hinTime hstepped
  · intro k hk
    rcases hstepped.senders with ⟨j, data, rfl, hgiven, hsame, -⟩ | ⟨-, hgiven, hidle, -⟩
    · have hj : j = 0 := by
        rcases hcases with ⟨_, _, heq, -⟩ | ⟨hnot, -⟩
        · cases heq
          rfl
        · exact absurd rfl (hnot j data)
      rw [hgiven, Function.update_of_ne (hj ▸ hk), hsame k (hj ▸ hk)]
      exact h.others k hk
    · rw [hgiven]
      exact ⟨hidle k (h.others k hk).1, (h.others k hk).2⟩
  · intro response hr
    rw [hreply'.2]
    rcases hstepped.senders with ⟨j, data, -, -, -, hsame⟩ | ⟨-, -, -, hsame | ⟨r, rfl, hanswer⟩⟩
    · exact h.started response (hsame ▸ hr)
    · exact h.started response (hsame ▸ hr)
    · rw [hanswer] at hr
      cases hr
      rcases hcases with ⟨_, _, heq, -⟩ | ⟨-, hstarted, -⟩
      · cases heq
      · exact hstarted _ rfl

theorem Replies.congr (h : Replies s) (hreply : s'.reply = s.reply) (hid : s'.id = s.id) :
    Replies s' := by
  refine ⟨?_, ?_, ?_, ?_⟩ <;> rw [hreply]
  · exact h.ordered
  · exact h.accounted
  · exact h.others
  · rw [hid]
    exact h.started

/-- What the reporter has handed on or is about to is the same as before. -/
theorem given_stepReply (hstep : s.stepReply e = some s') :
    s'.reply.given 0 ++ s'.outbox = s.reply.given 0 ++ s.outbox := by
  obtain ⟨reply, hreply, hcases⟩ := stepReply_some hstep
  rcases (QueuedServerReply.stepped_of_step hreply).senders with
    ⟨j, data, rfl, hgiven, -⟩ | ⟨hnot, hgiven, -⟩
  · rcases hcases with ⟨data', outbox, heq, houtbox, rfl⟩ | ⟨hnot, -⟩
    · cases heq
      dsimp only
      rw [hgiven, houtbox, Function.update_self, List.append_assoc]
      rfl
    · exact absurd rfl (hnot j data)
  · rcases hcases with ⟨data', outbox, heq, -⟩ | ⟨-, -, rfl⟩
    · exact absurd heq (hnot 0 data')
    · dsimp only
      rw [hgiven]

end HostSearch

/-! ## What is found and reported -/

/-- What was sent of an entry is what comes first in it, and all if nothing was turned away. -/
def Visit.Has (whole : Prop) (entry sent : List SearchQueryMatch) : Visit → Prop
  | .waiting ms => ms = entry ∧ sent = []
  | .searching ms => sent ++ ms <+: entry ∧ (whole → sent ++ ms = entry)
  | .searched => sent <+: entry ∧ (whole → sent = entry)

theorem Visit.Has.mono {whole whole' : Prop} {v : Visit} {entry sent : List SearchQueryMatch}
    (h : v.Has whole entry sent) (hwhole : whole' → whole) : v.Has whole' entry sent := by
  cases v with
  | waiting => exact h
  | searching | searched => exact ⟨h.1, fun hw => h.2 (hwhole hw)⟩

namespace HostSearch

variable {s s' : HostSearch}

/-- What was found in an entry, and put in the channel. -/
def foundIn (s : HostSearch) (entry : Nat) : List SearchQueryMatch :=
  s.found.filterMap fun x => if x.1 = entry then some x.2 else none

/-- What the reporter has handed to the reply, or is about to. -/
def told (s : HostSearch) : List SearchResponse := s.reply.given 0 ++ s.outbox

/-- The reporter has received the matches that were seen, and has said so. -/
inductive Tells (s : HostSearch) : Prop where
  | receiving (seen : List SearchQueryMatch) (hphase : s.reporter = .receiving)
      (hfound : s.found.map Prod.snd = seen ++ s.waiting)
      (hloop : ∀ ms, SearchQueryReporter.loop s.id s.options (seen ++ ms) ⟨[], 0, []⟩ =
        SearchQueryReporter.loop s.id s.options ms s.reporting)
      (hcount : s.reporting.totalMatchesCnt = UInt64.ofNat seen.length)
      (hbelow : SearchQueryReporter.IsBelow s.options.limit seen.length)
      (htold : s.told = s.reporting.sent)
  /-- it has left at the limit, whatever comes then -/
  | limited (seen rest : List SearchQueryMatch) (hphase : s.reporter ≠ .receiving)
      (hfound : s.found.map Prod.snd = seen ++ rest)
      (hlimit : ¬ SearchQueryReporter.IsBelow s.options.limit seen.length)
      (htold : ∀ ms, SearchQueryReporter.run s.id s.options (seen ++ ms) = s.told)
  /-- it has left after the last match -/
  | finished (hphase : s.reporter ≠ .receiving) (hexecutor : s.executor ≠ .running)
      (htold : SearchQueryReporter.run s.id s.options (s.found.map Prod.snd) = s.told)

structure Sound (s : HostSearch) : Prop where
  replies : s.Replies
  length : s.visits.length = s.entries.length
  visits : ∀ (j : Nat) (v : Visit) (entry : List SearchQueryMatch), s.visits[j]? = some v →
    s.entries[j]? = some entry →
    v.Has (SearchQueryReporter.IsBelow s.options.limit s.found.length) entry (s.foundIn j)
  known : ∀ x ∈ s.found, x.1 < s.entries.length
  stopped : s.executor ≠ .running → ∀ v ∈ s.visits, ∀ ms, v ≠ .searching ms
  tells : s.Tells
  ended : s.reporter = .ended → s.outbox = []

/-- No send of the reporter is overtaken by the flush. -/
def InTime (s : HostSearch) : SearchEvent → Prop
  | .reply e => s.reply.InTime e
  | _ => True

instance (s : HostSearch) (e : SearchEvent) : Decidable (s.InTime e) :=
  match e with
  | .reply e => inferInstanceAs (Decidable (s.reply.InTime e))
  | .visit _ | .found _ | .leave _ | .done | .receive | .finish | .drop => isTrue trivial

section

variable {visits : List Visit} {entries : List (List SearchQueryMatch)} {whole whole' : Prop}
  {sent sent' : Nat → List SearchQueryMatch}

/-- One visit goes on. -/
theorem visits_set {j : Nat} {v' : Visit}
    (h : ∀ (k : Nat) (v : Visit) (entry : List SearchQueryMatch), visits[k]? = some v →
      entries[k]? = some entry → v.Has whole entry (sent k))
    (hwhole : whole' → whole) (hothers : ∀ k, k ≠ j → sent' k = sent k)
    (hv : ∀ entry, entries[j]? = some entry → v'.Has whole' entry (sent' j)) :
    ∀ (k : Nat) (v : Visit) (entry : List SearchQueryMatch), (visits.set j v')[k]? = some v →
      entries[k]? = some entry → v.Has whole' entry (sent' k) := by
  intro k v entry hk hentry
  by_cases hkj : k = j
  · subst hkj
    obtain rfl : v' = v := by
      rw [List.getElem?_set_self'] at hk
      obtain ⟨_, _, rfl⟩ := Option.map_eq_some_iff.1 hk
      rfl
    exact hv entry hentry
  · rw [List.getElem?_set_ne (Ne.symm hkj)] at hk
    rw [hothers k hkj]
    exact (h k v entry hk hentry).mono hwhole

end

variable {interrupted : Bool}

theorem sound_new (id : SearchId) (options : ReporterOptions)
    (entries : List (List SearchQueryMatch)) : Sound (new id options entries) where
  replies := ⟨QueuedServerReply.ordered_new, QueuedServerReply.accounted_new,
    fun _ _ => ⟨rfl, rfl⟩, nofun⟩
  length := List.length_map _
  visits := by
    intro j v entry hv hentry
    have hentry' : entries[j]? = some entry := hentry
    rw [new, List.getElem?_map, hentry'] at hv
    cases hv
    exact ⟨rfl, rfl⟩
  known := nofun
  stopped := fun h => absurd rfl h
  tells := .receiving [] rfl rfl (fun _ => rfl) rfl
    (fun len _ => Nat.lt_of_lt_of_le Nat.one_pos (Nat.le_max_left ..)) rfl
  ended := nofun

theorem hasSent_iff : s.hasSent = true ↔ s.outbox = [] ∧ s.reply.senders 0 = .idle := by
  rw [hasSent]
  split
  · next houtbox hidle => exact iff_of_true rfl ⟨houtbox, hidle⟩
  · next hnot => exact iff_of_false Bool.false_ne_true fun h => hnot h.1 h.2

theorem Tells.congr (h : Tells s) (hid : s'.id = s.id) (hoptions : s'.options = s.options)
    (hfound : s'.found = s.found) (hwaiting : s'.waiting = s.waiting)
    (hreporting : s'.reporting = s.reporting) (hreporter : s'.reporter = s.reporter)
    (hexecutor : s.executor ≠ .running → s'.executor ≠ .running) (htold : s'.told = s.told) :
    Tells s' := by
  cases h with
  | receiving seen hphase hall hloop hcount hbelow hsent =>
    refine .receiving seen (hreporter.trans hphase) ?_ ?_ (hreporting ▸ hcount) (hoptions ▸ hbelow)
      ?_
    · rw [hfound, hwaiting, hall]
    · rw [hid, hoptions, hreporting]
      exact hloop
    · rw [htold, hreporting, hsent]
  | limited seen rest hphase hall hlimit hrun =>
    refine .limited seen rest (hreporter ▸ hphase) (hfound ▸ hall) (hoptions ▸ hlimit) ?_
    rw [hid, hoptions, htold]
    exact hrun
  | finished hphase hover hrun =>
    refine .finished (hreporter ▸ hphase) (hexecutor hover) ?_
    rw [hid, hoptions, hfound, htold]
    exact hrun

theorem Sound.executor_running (h : Sound s) {j : Nat} {ms : List SearchQueryMatch}
    (hv : s.visits[j]? = some (.searching ms)) : s.executor = .running := by
  by_contra hover
  exact h.stopped hover _ (List.mem_of_getElem? hv) ms rfl

theorem Sound.exists_visit (h : Sound s) {j : Nat} {entry : List SearchQueryMatch}
    (hentry : s.entries[j]? = some entry) : ∃ v, s.visits[j]? = some v := by
  have hlt := (List.getElem?_eq_some_iff.1 hentry).1
  exact ⟨_, List.getElem?_eq_getElem (h.length ▸ hlt)⟩

/-- The reporter has left before the visitors only at the limit. -/
theorem Sound.not_isBelow (h : Sound s) (hphase : s.reporter ≠ .receiving)
    (hrunning : s.executor = .running) :
    ¬ SearchQueryReporter.IsBelow s.options.limit s.found.length := by
  cases h.tells with
  | receiving _ hreceiving => exact absurd hreceiving hphase
  | finished _ hover => exact absurd hrunning hover
  | limited seen rest _ hfound hlimit _ =>
    intro hbelow
    refine hlimit fun len hlen => Nat.lt_of_le_of_lt ?_ (hbelow len hlen)
    rw [← List.length_map Prod.snd, hfound, List.length_append]
    exact Nat.le_add_right ..

section

variable {j : Nat} {m : SearchQueryMatch} {ms : List SearchQueryMatch}

/-- A visitor goes on and sends nothing. -/
theorem Sound.setVisit (h : Sound s) {v : Visit} (hrunning : s.executor = .running)
    (hv : ∀ entry, s.entries[j]? = some entry →
      v.Has (SearchQueryReporter.IsBelow s.options.limit s.found.length) entry (s.foundIn j)) :
    Sound { s with visits := s.visits.set j v } where
  replies := h.replies.congr rfl rfl
  length := (List.length_set ..).trans h.length
  visits := visits_set h.visits (fun h => h) (fun _ _ => rfl) hv
  known := h.known
  stopped hover := absurd hrunning hover
  tells := h.tells.congr rfl rfl rfl rfl rfl rfl (fun h => h) rfl
  ended := h.ended

theorem Sound.visit (h : Sound s) (hv : s.visits[j]? = some (.waiting ms))
    (hrunning : s.executor = .running) :
    Sound { s with visits := s.visits.set j (.searching ms) } := by
  refine h.setVisit hrunning fun entry hentry => ?_
  obtain ⟨hms, hnone⟩ := h.visits j _ entry hv hentry
  rw [Visit.Has, hnone, hms, List.nil_append]
  exact ⟨List.prefix_rfl, fun _ => rfl⟩

theorem Sound.leave (h : Sound s) (hv : s.visits[j]? = some (.searching [])) :
    Sound { s with visits := s.visits.set j .searched } := by
  refine h.setVisit (h.executor_running hv) fun entry hentry => ?_
  have hhas := h.visits j _ entry hv hentry
  rwa [Visit.Has, List.append_nil] at hhas

/-- The reporter has gone. -/
theorem Sound.turnedAway (h : Sound s) (hv : s.visits[j]? = some (.searching (m :: ms)))
    (hended : s.reporter = .ended) :
    Sound { s with visits := s.visits.set j (.searching []) } := by
  have hrunning := h.executor_running hv
  refine h.setVisit hrunning fun entry hentry => ?_
  obtain ⟨hsome, -⟩ := h.visits j _ entry hv hentry
  rw [Visit.Has, List.append_nil]
  refine ⟨(List.prefix_append _ _).trans hsome, fun hbelow => ?_⟩
  exact absurd hbelow (h.not_isBelow (by rw [hended]; nofun) hrunning)

theorem foundIn_append (x : SearchQueryMatch) (k : Nat) :
    foundIn { s with found := s.found ++ [(j, x)] } k =
      s.foundIn k ++ if j = k then [x] else [] := by
  rw [foundIn, List.filterMap_append]
  split_ifs with h <;> simp [foundIn, h]

theorem Sound.found (h : Sound s) (hv : s.visits[j]? = some (.searching (m :: ms))) :
    Sound { s with
      visits := s.visits.set j (.searching ms)
      found := s.found ++ [(j, m)]
      waiting := s.waiting ++ [m] } where
  replies := h.replies.congr rfl rfl
  length := (List.length_set ..).trans h.length
  visits := by
    refine visits_set h.visits (fun hbelow len hlen => ?_) (fun k hk => ?_) fun entry hentry => ?_
    · have hlt := hbelow len hlen
      rw [List.length_append] at hlt
      exact Nat.lt_of_le_of_lt (Nat.le_add_right ..) hlt
    · exact (foundIn_append m k).trans (by rw [if_neg (Ne.symm hk), List.append_nil])
    · obtain ⟨hsome, hall⟩ := h.visits j _ entry hv hentry
      have hsent : s.foundIn j ++ [m] ++ ms = s.foundIn j ++ m :: ms := List.append_cons .. |>.symm
      have hfound : foundIn { s with
          visits := s.visits.set j (.searching ms)
          found := s.found ++ [(j, m)]
          waiting := s.waiting ++ [m] } j = s.foundIn j ++ [m] :=
        (foundIn_append m j).trans (by rw [if_pos rfl])
      rw [Visit.Has, hfound, hsent]
      refine ⟨hsome, fun hbelow => hall fun len hlen => ?_⟩
      have hlt := hbelow len hlen
      rw [List.length_append] at hlt
      exact Nat.lt_of_le_of_lt (Nat.le_add_right ..) hlt
  known := by
    intro x hx
    rcases List.mem_append.1 hx with hx | hx
    · exact h.known x hx
    · rw [List.mem_singleton.1 hx, ← h.length]
      exact (List.getElem?_eq_some_iff.1 hv).1
  stopped hover := absurd (h.executor_running hv) hover
  tells := by
    have hmap : (s.found ++ [(j, m)]).map Prod.snd = s.found.map Prod.snd ++ [m] :=
      List.map_append
    cases h.tells with
    | receiving seen hphase hfound hloop hcount hbelow hsent =>
      refine .receiving seen hphase ?_ hloop hcount hbelow hsent
      rw [hmap, hfound, List.append_assoc]
    | limited seen rest hphase hfound hlimit hrun =>
      refine .limited seen (rest ++ [m]) hphase ?_ hlimit hrun
      rw [hmap, hfound, List.append_assoc]
    | finished _ hover => exact absurd (h.executor_running hv) hover
  ended := h.ended

theorem Sound.done (h : Sound s) (hover : s.visits.all (Visit.isOver interrupted) = true) :
    Sound { s with executor := .done } where
  replies := h.replies.congr rfl rfl
  length := h.length
  visits := h.visits
  known := h.known
  stopped := by
    rintro - v hv ms rfl
    exact Bool.false_ne_true (List.all_eq_true.1 hover _ hv)
  tells := h.tells.congr rfl rfl rfl rfl rfl rfl (fun _ => nofun) rfl
  ended := h.ended

theorem Sound.removed (h : Sound s) (hdone : s.executor = .done) :
    Sound { s with executor := .removed } where
  replies := h.replies.congr rfl rfl
  length := h.length
  visits := h.visits
  known := h.known
  stopped _ := h.stopped (by rw [hdone]; nofun)
  tells := h.tells.congr rfl rfl rfl rfl rfl rfl (fun _ => nofun) rfl
  ended := h.ended

/-- The reporter takes a match. -/
theorem Sound.receive (h : Sound s) {waiting : List SearchQueryMatch}
    (hphase : s.reporter = .receiving) (hwaiting : s.waiting = m :: waiting)
    (hsent : s.hasSent = true) : Sound ({ s with waiting }.onMatch m) := by
  obtain ⟨houtbox, -⟩ := hasSent_iff.1 hsent
  obtain ⟨seen, -, hfound, hloop, hcount, hbelow, htold⟩ : ∃ seen, s.reporter = .receiving ∧
      s.found.map Prod.snd = seen ++ s.waiting ∧
      (∀ ms, SearchQueryReporter.loop s.id s.options (seen ++ ms) ⟨[], 0, []⟩ =
        SearchQueryReporter.loop s.id s.options ms s.reporting) ∧
      s.reporting.totalMatchesCnt = UInt64.ofNat seen.length ∧
      SearchQueryReporter.IsBelow s.options.limit seen.length ∧ s.told = s.reporting.sent := by
    cases h.tells with
    | receiving seen hphase hfound hloop hcount hbelow hsent =>
      exact ⟨seen, hphase, hfound, hloop, hcount, hbelow, hsent⟩
    | limited _ _ hnot => exact absurd hphase hnot
    | finished hnot => exact absurd hphase hnot
  rw [told, houtbox, List.append_nil] at htold
  have hfound' : s.found.map Prod.snd = seen ++ [m] ++ waiting := by
    rw [hfound, hwaiting, List.append_assoc]
    rfl
  obtain ⟨⟨r, goesOn⟩, hr⟩ : ∃ p, SearchQueryReporter.onMatch s.id s.options m s.reporting = p :=
    ⟨_, rfl⟩
  have hbelow' := SearchQueryReporter.onMatch_isBelow hbelow hcount hr
  have hlen : (seen ++ [m]).length = seen.length + 1 := List.length_append
  have hcons : ∀ ms, seen ++ [m] ++ ms = seen ++ m :: ms := fun ms => (List.append_cons ..).symm
  cases goesOn with
  | true =>
    have honMatch : { s with waiting }.onMatch m = { s with
        waiting, reporting := r, outbox := r.sent.drop s.reporting.sent.length } := by
      rw [onMatch]
      dsimp only
      rw [hr]
    rw [honMatch]
    refine ⟨h.replies.congr rfl rfl, h.length,
      h.visits, h.known, h.stopped, ?_, fun hended => ?_⟩
    · refine .receiving (seen ++ [m]) hphase hfound' (fun ms => ?_) ?_ ?_ ?_
      · rw [hcons, hloop, SearchQueryReporter.loop_onMatch hr]
      · rw [hlen, UInt64.ofNat_add, ← hcount]
        exact SearchQueryReporter.onMatch_count hr
      · rw [hlen]
        exact hbelow'.1 rfl
      · rw [told]
        dsimp only
        rw [htold, SearchQueryReporter.sent_onMatch hr]
    · rw [hphase] at hended
      cases hended
  | false =>
    have honMatch : { s with waiting }.onMatch m = { s with
        waiting, reporting := r, reporter := .leaving, outbox := remaining s.id r } := by
      rw [onMatch]
      dsimp only
      rw [hr]
    rw [honMatch]
    obtain ⟨hsame, hlast⟩ := SearchQueryReporter.onMatch_last hr
    refine ⟨h.replies.congr rfl rfl, h.length,
      h.visits, h.known, h.stopped, ?_, nofun⟩
    refine .limited (seen ++ [m]) waiting nofun hfound' (fun hbelow => ?_) fun ms => ?_
    · obtain ⟨len, hlimit, heq⟩ := hbelow'.2 rfl
      have hlt := hbelow len hlimit
      rw [hlen, heq] at hlt
      exact Nat.lt_irrefl _ hlt
    · rw [SearchQueryReporter.run_eq, hcons, hloop, hlast, told]
      dsimp only
      rw [htold, hsame]

/-- The reporter leaves after the last match. -/
theorem Sound.finish (h : Sound s) (hphase : s.reporter = .receiving) (hwaiting : s.waiting = [])
    (hover : s.executor ≠ .running) (hsent : s.hasSent = true) :
    Sound { s with reporter := .leaving, outbox := remaining s.id s.reporting } := by
  refine ⟨h.replies.congr rfl rfl, h.length,
    h.visits, h.known, h.stopped, ?_, nofun⟩
  cases h.tells with
  | receiving seen _ hfound hloop _ _ htold =>
    have hrun := hloop []
    rw [List.append_nil, SearchQueryReporter.loop] at hrun
    rw [hwaiting, List.append_nil] at hfound
    rw [told, (hasSent_iff.1 hsent).1, List.append_nil] at htold
    refine .finished (by simp) hover ?_
    rw [told]
    dsimp only
    rw [hfound, SearchQueryReporter.run_eq, hrun, htold]
  | limited _ _ hnot => exact absurd hphase hnot
  | finished hnot => exact absurd hphase hnot

theorem Sound.drop (h : Sound s) (hphase : s.reporter = .leaving) (hsent : s.hasSent = true) :
    Sound { s with reporter := .ended, waiting := [] } := by
  refine ⟨h.replies.congr rfl rfl, h.length,
    h.visits, h.known, h.stopped, ?_, fun _ => (hasSent_iff.1 hsent).1⟩
  cases h.tells with
  | receiving _ hreceiving =>
    rw [hphase] at hreceiving
    cases hreceiving
  | limited seen rest _ hfound hlimit hrun => exact .limited seen rest nofun hfound hlimit hrun
  | finished _ hover hrun => exact .finished nofun hover hrun

theorem Sound.reply {e : ReplyEvent SearchResponse SearchResponse} (h : Sound s)
    (hinTime : s.reply.InTime e) (hstep : s.stepReply e = some s') : Sound s' := by
  have hreplies := h.replies.step hinTime hstep
  have htold := given_stepReply hstep
  obtain ⟨reply, -, ⟨data, outbox, rfl, houtbox, rfl⟩ | ⟨-, -, rfl⟩⟩ := stepReply_some hstep
  · refine ⟨hreplies, h.length, h.visits, h.known, h.stopped,
      h.tells.congr rfl rfl rfl rfl rfl rfl (fun h => h) htold, fun hended => ?_⟩
    rw [h.ended hended] at houtbox
    cases houtbox
  · exact ⟨hreplies, h.length, h.visits, h.known, h.stopped,
      h.tells.congr rfl rfl rfl rfl rfl rfl (fun h => h) htold, h.ended⟩

end

theorem Sound.step (h : Sound s) {e : SearchEvent} (hinTime : s.InTime e)
    (hstep : s.step interrupted e = some s') : Sound s' := by
  unfold HostSearch.step at hstep
  cases e with
  | visit j =>
    simp only at hstep
    split at hstep
    · next ms hv =>
      split_ifs at hstep with hguard
      cases hstep
      exact h.visit hv hguard.1
    · cases hstep
  | found j =>
    simp only at hstep
    split at hstep
    · next m ms hv =>
      split_ifs at hstep with hended <;> cases hstep
      · exact h.turnedAway hv hended
      · exact h.found hv
    · cases hstep
  | leave j =>
    simp only at hstep
    split at hstep
    · next hv =>
      cases hstep
      exact h.leave hv
    · cases hstep
  | done =>
    simp only at hstep
    split_ifs at hstep with hguard
    cases hstep
    exact h.done hguard.2
  | receive =>
    simp only at hstep
    split at hstep
    · next m waiting hphase hwaiting =>
      split_ifs at hstep with hsent
      cases hstep
      exact h.receive hphase hwaiting hsent
    · cases hstep
  | finish =>
    simp only at hstep
    split_ifs at hstep with hguard
    cases hstep
    exact h.finish hguard.1 hguard.2.1 hguard.2.2.1 hguard.2.2.2
  | drop =>
    simp only at hstep
    split_ifs at hstep with hguard
    cases hstep
    exact h.drop hguard.1 hguard.2
  | reply e => exact h.reply hinTime hstep

/-- What a step does to the walk. -/
theorem step_walk {e : SearchEvent} (hstep : s.step interrupted e = some s') :
    s'.id = s.id ∧ s'.entries = s.entries ∧ s'.options = s.options ∧
      ((s'.executor = s.executor ∧ (s'.visits = s.visits ∨ s.executor = .running ∨
          ∃ (j : Nat) (ms : List SearchQueryMatch), s.visits[j]? = some (.searching ms))) ∨
        (s.executor = .running ∧ s'.executor = .done ∧ s'.visits = s.visits ∧
          s.visits.all (Visit.isOver interrupted) = true)) := by
  unfold step at hstep
  cases e with
  | visit j =>
    simp only at hstep
    split at hstep
    · split_ifs at hstep with hguard
      cases hstep
      exact ⟨rfl, rfl, rfl, .inl ⟨rfl, .inr (.inl hguard.1)⟩⟩
    · cases hstep
  | found j =>
    simp only at hstep
    split at hstep
    · next m ms hv =>
      split_ifs at hstep <;> cases hstep <;>
        exact ⟨rfl, rfl, rfl, .inl ⟨rfl, .inr (.inr ⟨j, _, hv⟩)⟩⟩
    · cases hstep
  | leave j =>
    simp only at hstep
    split at hstep
    · next hv =>
      cases hstep
      exact ⟨rfl, rfl, rfl, .inl ⟨rfl, .inr (.inr ⟨j, _, hv⟩)⟩⟩
    · cases hstep
  | done =>
    simp only at hstep
    split_ifs at hstep with hguard
    cases hstep
    exact ⟨rfl, rfl, rfl, .inr ⟨hguard.1, rfl, rfl, hguard.2⟩⟩
  | receive =>
    simp only at hstep
    split at hstep
    · split_ifs at hstep
      cases hstep
      rw [onMatch]
      split <;> exact ⟨rfl, rfl, rfl, .inl ⟨rfl, .inl rfl⟩⟩
    · cases hstep
  | finish | drop =>
    simp only at hstep
    split_ifs at hstep
    cases hstep
    exact ⟨rfl, rfl, rfl, .inl ⟨rfl, .inl rfl⟩⟩
  | reply e =>
    obtain ⟨reply, -, ⟨_, _, -, -, rfl⟩ | ⟨-, -, rfl⟩⟩ := stepReply_some hstep <;>
      exact ⟨rfl, rfl, rfl, .inl ⟨rfl, .inl rfl⟩⟩

end HostSearch

/-! ## The table of the searches -/

namespace SearchState

variable {s s' : SearchState} {e : SearchStateEvent}

/-- The id that is drawn is that of no search that goes on. -/
def Fresh (s : SearchState) : SearchStateEvent → Prop
  | .start id _ _ => ∀ t ∈ s.started, t.id = id → t.executor = .removed
  | _ => True

def InTime (s : SearchState) : SearchStateEvent → Prop
  | .search n e => ∀ t, s.started[n]? = some t → t.InTime e
  | _ => True

instance (s : SearchState) (e : SearchStateEvent) : Decidable (s.Fresh e) :=
  match e with
  | .start id _ _ =>
    inferInstanceAs (Decidable (∀ t ∈ s.started, t.id = id → t.executor = .removed))
  | .cancel _ | .remove _ | .search .. => isTrue trivial

instance (s : SearchState) (e : SearchStateEvent) : Decidable (s.InTime e) :=
  match e with
  | .search n e =>
    match h : s.started[n]? with
    | none => isTrue fun t ht => by rw [h] at ht; cases ht
    | some t => decidable_of_iff (t.InTime e)
        ⟨fun hin t' ht => by rw [h] at ht; cases ht; exact hin, fun hin => hin t h⟩
  | .start .. | .cancel _ | .remove _ => isTrue trivial

/-- Where a search comes from. -/
theorem started_step (hstep : s.step e = some s') {n : Nat} {t' : HostSearch}
    (ht : s'.started[n]? = some t') :
    s.started[n]? = some t' ∨
    (∃ id options entries, e = .start id options entries ∧ n = s.started.length ∧
      t' = .new id options entries) ∨
    (∃ t, s.started[n]? = some t ∧ e = .remove n ∧ t.executor = .done ∧
      t' = { t with executor := .removed }) ∨
    (∃ t e', s.started[n]? = some t ∧ e = .search n e' ∧
      t.step (s.isInterrupted n t) e' = some t') := by
  have hset : ∀ {m : Nat} {t u : HostSearch}, s.started[m]? = some t →
      (s.started.set m u)[n]? = some t' → s.started[n]? = some t' ∨ (n = m ∧ t' = u) := by
    intro m t u hm hn
    by_cases hnm : n = m
    · subst hnm
      rw [List.getElem?_set_self', hm] at hn
      exact .inr ⟨rfl, (Option.some.inj hn).symm⟩
    · rw [List.getElem?_set_ne (Ne.symm hnm)] at hn
      exact .inl hn
  unfold step at hstep
  cases e with
  | start id options entries =>
    cases hstep
    rw [List.getElem?_append] at ht
    split_ifs at ht with hlt
    · exact .inl ht
    · obtain ⟨hzero, hlast⟩ := List.getElem?_eq_some_iff.1 ht
      rw [List.length_singleton] at hzero
      refine .inr (.inl ⟨id, options, entries, rfl, by omega, ?_⟩)
      exact (List.mem_singleton.1 (List.mem_of_getElem? ht))
  | cancel id =>
    simp only at hstep
    split at hstep <;> cases hstep <;> exact .inl ht
  | remove m =>
    simp only at hstep
    split at hstep
    · cases hstep
    · next t hm =>
      split_ifs at hstep with hdone
      cases hstep
      rcases hset hm ht with hold | ⟨rfl, rfl⟩
      · exact .inl hold
      · exact .inr (.inr (.inl ⟨t, hm, rfl, hdone, rfl⟩))
  | search m e' =>
    simp only at hstep
    split at hstep
    · cases hstep
    · next t hm =>
      obtain ⟨u, hu, rfl⟩ := Option.map_eq_some_iff.1 hstep
      rcases hset hm ht with hold | ⟨rfl, rfl⟩
      · exact .inl hold
      · exact .inr (.inr (.inr ⟨t, e', hm, rfl, hu⟩))

/-- What becomes of a search that has been started. -/
theorem exists_started_step (hstep : s.step e = some s') {n : Nat} {t : HostSearch}
    (ht : s.started[n]? = some t) : ∃ t', s'.started[n]? = some t' ∧ t'.id = t.id ∧
      (t'.executor = .removed → t.executor = .removed ∨ e = .remove n) := by
  have hlt := (List.getElem?_eq_some_iff.1 ht).1
  have hlt' : n < s'.started.length := by
    unfold step at hstep
    cases e with
    | start =>
      cases hstep
      rw [List.length_append]
      omega
    | cancel =>
      simp only at hstep
      split at hstep <;> cases hstep <;> exact hlt
    | remove =>
      simp only at hstep
      split at hstep
      · cases hstep
      · split_ifs at hstep
        cases hstep
        rwa [List.length_set]
    | search =>
      simp only at hstep
      split at hstep
      · cases hstep
      · obtain ⟨u, -, rfl⟩ := Option.map_eq_some_iff.1 hstep
        rwa [List.length_set]
  have ht' : s'.started[n]? = some s'.started[n] := List.getElem?_eq_getElem hlt'
  refine ⟨s'.started[n], ht', ?_⟩
  rcases started_step hstep ht' with hold | ⟨_, _, _, -, hn, -⟩ | ⟨u, hu, he, -, heq⟩ |
    ⟨u, e', hu, he, hu'⟩
  · rw [ht] at hold
    cases hold
    exact ⟨rfl, .inl⟩
  · omega
  · rw [ht] at hu
    cases hu
    rw [heq]
    exact ⟨rfl, fun _ => .inr he⟩
  · rw [ht] at hu
    cases hu
    obtain ⟨hid, -, -, ⟨hexecutor, -⟩ | ⟨-, hdone, -⟩⟩ := HostSearch.step_walk hu'
    · exact ⟨hid, fun h => .inl (hexecutor ▸ h)⟩
    · refine ⟨hid, fun h => ?_⟩
      rw [hdone] at h
      cases h

/-- A step that does not cancel or remove a search leaves its place in the table. -/
theorem searches_step (hstep : s.step e = some s') (id : SearchId) :
    s'.searches id = s.searches id ∨
    (∃ options entries, e = .start id options entries ∧ s'.searches id = some s.started.length) ∨
    (e = .cancel id ∧ s'.searches id = none ∧
      ∀ n, s.searches id = some n → s'.cancelled = s.cancelled ++ [n]) ∨
    ∃ n t, e = .remove n ∧ s.started[n]? = some t ∧ t.id = id ∧ t.executor = .done ∧
      s'.searches id = none := by
  unfold step at hstep
  cases e with
  | start id' options entries =>
    cases hstep
    by_cases hid : id = id'
    · subst hid
      exact .inr (.inl ⟨options, entries, rfl, Function.update_self ..⟩)
    · exact .inl (Function.update_of_ne hid ..)
  | cancel id' =>
    simp only at hstep
    split at hstep
    · next n hn =>
      cases hstep
      by_cases hid : id = id'
      · subst hid
        refine .inr (.inr (.inl ⟨rfl, Function.update_self .., fun k hk => ?_⟩))
        rw [hn] at hk
        cases hk
        rfl
      · exact .inl (Function.update_of_ne hid ..)
    · cases hstep
      exact .inl rfl
  | remove m =>
    simp only at hstep
    split at hstep
    · cases hstep
    · next t hm =>
      split_ifs at hstep with hdone
      cases hstep
      by_cases hid : id = t.id
      · subst hid
        exact .inr (.inr (.inr ⟨m, t, rfl, hm, rfl, hdone, Function.update_self ..⟩))
      · exact .inl (Function.update_of_ne hid ..)
  | search m e' =>
    simp only at hstep
    split at hstep
    · cases hstep
    · obtain ⟨u, -, rfl⟩ := Option.map_eq_some_iff.1 hstep
      exact .inl rfl

theorem cancelled_step (hstep : s.step e = some s') : s.cancelled <+: s'.cancelled := by
  unfold step at hstep
  cases e with
  | start =>
    cases hstep
    exact List.prefix_rfl
  | cancel id =>
    simp only at hstep
    split at hstep <;> cases hstep
    · exact List.prefix_append ..
    · exact List.prefix_rfl
  | remove m =>
    simp only at hstep
    split at hstep
    · cases hstep
    · split_ifs at hstep
      cases hstep
      exact List.prefix_rfl
  | search m e' =>
    simp only at hstep
    split at hstep
    · cases hstep
    · obtain ⟨u, -, rfl⟩ := Option.map_eq_some_iff.1 hstep
      exact List.prefix_rfl

/-- What is in the table goes on. -/
def Listed (s : SearchState) : Prop := ∀ id n, s.searches id = some n →
  ∃ t, s.started[n]? = some t ∧ t.id = id ∧ t.executor ≠ .removed

theorem Listed.step (h : s.Listed) (hstep : s.step e = some s') : s'.Listed := by
  intro id n hn
  have hnone : s'.searches id ≠ none := by
    rw [hn]
    nofun
  rcases searches_step hstep id with hsame | ⟨options, entries, rfl, hself⟩ | ⟨-, hgone, -⟩ |
    ⟨m, u, rfl, hm, hid, hdone, hgone⟩
  · obtain ⟨t, ht, hid, hlive⟩ := h id n (hsame ▸ hn)
    obtain ⟨t', ht', hid', hremoved⟩ := exists_started_step hstep ht
    refine ⟨t', ht', hid'.trans hid, fun hgone => ?_⟩
    rcases hremoved hgone with hgone | rfl
    · exact hlive hgone
    · unfold SearchState.step at hstep
      simp only at hstep
      rw [ht] at hstep
      dsimp only at hstep
      split_ifs at hstep
      cases hstep
      rw [← hid] at hn
      exact absurd ((Function.update_self ..).symm.trans hn) nofun
  · cases hstep
    rw [hself] at hn
    cases hn
    exact ⟨_, List.getElem?_concat_length .., rfl, nofun⟩
  · exact absurd hgone hnone
  · exact absurd hgone hnone

/-- Searches that go on have different ids, and are in the table unless they were cancelled; no
other ends before it has seen all entries. -/
structure Kept (s : SearchState) : Prop where
  unique : ∀ (n n' : Nat) (t t' : HostSearch), s.started[n]? = some t → s.started[n']? = some t' →
    t.executor ≠ .removed → t'.executor ≠ .removed → t.id = t'.id → n = n'
  listed : ∀ (n : Nat) (t : HostSearch), s.started[n]? = some t → t.executor ≠ .removed →
    n ∉ s.cancelled → s.searches t.id = some n
  searched : ∀ (n : Nat) (t : HostSearch), s.started[n]? = some t → t.executor ≠ .running →
    n ∉ s.cancelled → ∀ v ∈ t.visits, v = .searched

/-- A search that goes on is new or has gone on before. -/
theorem live_step (hstep : s.step e = some s') {n : Nat} {t' : HostSearch}
    (ht : s'.started[n]? = some t') (hlive : t'.executor ≠ .removed) :
    (∃ options entries, e = .start t'.id options entries ∧ n = s.started.length) ∨
      ∃ t, s.started[n]? = some t ∧ t'.id = t.id ∧ t.executor ≠ .removed := by
  rcases started_step hstep ht with hold | ⟨id, options, entries, he, hn, rfl⟩ |
    ⟨t, -, -, -, rfl⟩ | ⟨t, e', ht, -, ht'⟩
  · exact .inr ⟨t', hold, rfl, hlive⟩
  · exact .inl ⟨options, entries, he, hn⟩
  · exact absurd rfl hlive
  · obtain ⟨hid, -, -, ⟨hexecutor, -⟩ | ⟨hrunning, -⟩⟩ := HostSearch.step_walk ht'
    · exact .inr ⟨t, ht, hid, hexecutor ▸ hlive⟩
    · refine .inr ⟨t, ht, hid, ?_⟩
      rw [hrunning]
      nofun

theorem Kept.step (h : s.Kept) (hfresh : s.Fresh e) (hstep : s.step e = some s') : s'.Kept := by
  have hcancelled : ∀ n, n ∉ s'.cancelled → n ∉ s.cancelled := fun n hn hmem =>
    hn ((cancelled_step hstep).subset hmem)
  refine ⟨?_, ?_, ?_⟩
  · intro n n' t t' ht ht' hlive hlive' hid
    rcases live_step hstep ht hlive with ⟨options, entries, rfl, hn⟩ | ⟨u, hu, hidu, hliveu⟩ <;>
      rcases live_step hstep ht' hlive' with ⟨_, _, he, hn'⟩ | ⟨u', hu', hidu', hliveu'⟩
    · exact hn.trans hn'.symm
    · exact absurd (hfresh u' (List.mem_of_getElem? hu') (hidu'.symm.trans hid.symm)) hliveu'
    · rw [he] at hfresh
      exact absurd (hfresh u (List.mem_of_getElem? hu) (hidu.symm.trans hid)) hliveu
    · exact h.unique n n' u u' hu hu' hliveu hliveu' (hidu.symm.trans (hid.trans hidu'))
  · intro n t' ht hlive hn
    rcases live_step hstep ht hlive with ⟨options, entries, rfl, rfl⟩ | ⟨t, ht₀, hid, hlive₀⟩
    · cases hstep
      exact Function.update_self ..
    · have hentry := h.listed n t ht₀ hlive₀ (hcancelled n hn)
      rw [hid]
      rcases searches_step hstep t.id with hsame | ⟨options, entries, rfl, -⟩ | ⟨-, -, hgranted⟩ |
        ⟨m, u, rfl, hm, hidu, hdone, -⟩
      · exact hsame.trans hentry
      · exact absurd (hfresh t (List.mem_of_getElem? ht₀) rfl) hlive₀
      · rw [hgranted n hentry] at hn
        exact absurd (List.mem_append_right _ List.mem_cons_self) hn
      · -- it is the one that is removed
        obtain rfl : m = n := h.unique m n u t hm ht₀ (by rw [hdone]; nofun) hlive₀ hidu
        unfold SearchState.step at hstep
        simp only at hstep
        rw [hm] at hstep
        dsimp only at hstep
        rw [if_pos hdone] at hstep
        cases hstep
        rw [List.getElem?_set_self', hm] at ht
        cases ht
        exact absurd rfl hlive
  · intro n t' ht hover hn
    rcases started_step hstep ht with hold | ⟨id, options, entries, -, -, rfl⟩ |
      ⟨t, ht₀, -, hdone, rfl⟩ | ⟨t, e', ht₀, -, ht'⟩
    · exact h.searched n t' hold hover (hcancelled n hn)
    · exact absurd rfl hover
    · exact h.searched n t ht₀ (by rw [hdone]; nofun) (hcancelled n hn)
    · obtain ⟨-, -, -, ⟨hexecutor, hvisits⟩ | ⟨hrunning, -, hvisits, hall⟩⟩ :=
        HostSearch.step_walk ht'
      · rw [hexecutor] at hover
        have hold := h.searched n t ht₀ hover (hcancelled n hn)
        rcases hvisits with hvisits | hrunning | ⟨j, ms, hj⟩
        · rwa [hvisits]
        · exact absurd hrunning hover
        · exact absurd (hold _ (List.mem_of_getElem? hj)) nofun
      · have hentry := h.listed n t ht₀ (by rw [hrunning]; nofun) (hcancelled n hn)
        have hnot : s.isInterrupted n t = false := by
          rw [isInterrupted, hentry]
          exact bne_self_eq_false ..
        rw [hnot] at hall
        intro v hv
        rw [hvisits] at hv
        have hv' := List.all_eq_true.1 hall v hv
        cases v with
        | searched => rfl
        | waiting | searching => cases hv'

/-- What holds in every run. -/
structure Sound (s : SearchState) : Prop where
  search : ∀ (n : Nat) (t : HostSearch), s.started[n]? = some t → t.Sound
  kept : s.Kept

theorem sound_new : new.Sound where
  search := by simp [new]
  kept := ⟨by simp [new], by simp [new], by simp [new]⟩

theorem Sound.step (h : s.Sound) (hfresh : s.Fresh e) (hinTime : s.InTime e)
    (hstep : s.step e = some s') : s'.Sound where
  search := by
    intro n t' ht
    rcases started_step hstep ht with hold | ⟨id, options, entries, -, -, rfl⟩ |
      ⟨t, hold, -, hdone, rfl⟩ | ⟨t, e', hold, rfl, ht'⟩
    · exact h.search n t' hold
    · exact HostSearch.sound_new id options entries
    · exact (h.search n t hold).removed hdone
    · exact (h.search n t hold).step (hinTime t hold) ht'
  kept := h.kept.step hfresh hstep

theorem sound_reached {es : List SearchStateEvent}
    (hmeets : Machine.Meeting step (fun s e => s.Fresh e ∧ s.InTime e) es new)
    (hrun : Machine.run step es new = some s) : s.Sound :=
  Machine.invariant (fun _ _ _ h hC hstep => h.step hC.1 hC.2 hstep) sound_new hmeets hrun

/-! ## What the client is given -/

/-- What was found in an entry comes first there. -/
theorem foundIn_starts {t : HostSearch} (h : t.Sound) {j : Nat} {entry : List SearchQueryMatch}
    (hentry : t.entries[j]? = some entry) : t.foundIn j <+: entry := by
  obtain ⟨v, hv⟩ := h.exists_visit hentry
  have hhas := h.visits j v entry hv hentry
  cases v with
  | waiting ms =>
    rw [hhas.2]
    exact List.nil_prefix
  | searching ms => exact (List.prefix_append _ _).trans hhas.1
  | searched => exact hhas.1

/-- Where no id is drawn that is in use, and no page is overtaken by the flush of its reply, the
client of a search that has ended is given what was found, as far as the limit goes: of each entry
what comes first, and all that there is in all entries unless the search was cancelled or the limit
was reached. -/
theorem search_arrives (debug : SearchResponse → String) (closed : Bool)
    {es : List SearchStateEvent}
    (hmeets : Machine.Meeting step (fun s e => s.Fresh e ∧ s.InTime e) es new)
    (hrun : Machine.run step es new = some s) {n : Nat} {t : HostSearch}
    (ht : s.started[n]? = some t) (hended : t.reporter = .ended) (hreturned : t.reply.Returned)
    (hopen : t.reply.closed = false) :
    Machine.Inevitable (Searcher.step debug) SearcherEvent.GoesOn
        (Searcher.Delivered (SearchQueryReporter.reported t.options.limit (t.found.map Prod.snd)))
        (Searcher.new (t.reply.channel.map fun m => .single m.payload) closed) ∧
      (∀ x ∈ t.found, x.1 < t.entries.length) ∧
      ∀ (j : Nat) (entry : List SearchQueryMatch), t.entries[j]? = some entry →
        t.foundIn j <+: entry ∧
        (n ∉ s.cancelled → SearchQueryReporter.IsBelow t.options.limit t.found.length →
          t.foundIn j = entry) := by
  have hsound := sound_reached hmeets hrun
  have h := hsound.search n t ht
  have hreceiving : t.reporter ≠ .receiving := by
    rw [hended]
    nofun
  refine ⟨?_, h.known, fun j entry hentry => ⟨foundIn_starts h hentry, fun hgoes hbelow => ?_⟩⟩
  · obtain ⟨response, hresponse⟩ := hreturned.1
    have hanswer : t.reply.answer = some response := by rw [QueuedServerReply.answer, hresponse]
    have hchannel := (QueuedServerReply.answered_of_accounted h.replies.accounted
      h.replies.ordered hreturned hopen).channel_eq (fun k hk => (h.replies.others k hk).2) hanswer
    have htold : SearchQueryReporter.run t.id t.options (t.found.map Prod.snd) =
        t.reply.given 0 := by
      have hall : t.told = t.reply.given 0 := by
        rw [HostSearch.told, h.ended hended, List.append_nil]
      rw [← hall]
      cases h.tells with
      | receiving _ hnot => exact absurd hnot hreceiving
      | limited seen rest _ hfound _ hsaid =>
        rw [hfound]
        exact hsaid rest
      | finished _ _ hsaid => exact hsaid
    rw [hchannel, h.replies.started response hanswer, ← htold]
    set ms := t.found.map Prod.snd
    set mailbox : List (Msg SearchResponse) :=
      (SearchQueryReporter.run t.id t.options ms).map .single
    have hmap : (Message.response (.searchStarted t.id) ::
        (SearchQueryReporter.run t.id t.options ms).map (Message.sent 0)).map
          (fun m : Message SearchResponse SearchResponse => Msg.single m.payload) =
        .single (.searchStarted t.id) :: mailbox := by
      rw [List.map_cons, List.map_map]
      rfl
    have hflat : Searcher.flat mailbox = SearchQueryReporter.run t.id t.options ms := by
      have hsingle : ∀ rs : List SearchResponse, Searcher.flat (rs.map .single) = rs := by
        intro rs
        induction rs with
        | nil => rfl
        | cons r rs ih => exact congrArg (r :: ·) ih
      exact hsingle _
    rw [hmap]
    have hcompletes : Searcher.Completes (Searcher.flat (.single (.searchStarted t.id) :: mailbox))
        (SearchQueryReporter.reported t.options.limit ms) := by
      refine .started t.id ?_
      show Searcher.Ends (Searcher.flat mailbox) _
      rw [hflat]
      exact SearchQueryReporter.ends_run ms
    have hfits : Searcher.Fits (.single (.searchStarted t.id) :: mailbox) :=
      ⟨by rintro r ⟨⟩ <;> [rfl; contradiction], Nat.zero_le _⟩
    have hon : Searcher.OnCourse (SearchQueryReporter.reported t.options.limit ms)
        (Searcher.new (.single (.searchStarted t.id) :: mailbox) closed) :=
      .confirming ((Searcher.fitsAfter_zero_iff _).mpr hfits) hcompletes rfl
    exact hon.inevitable
  · have hover : t.executor ≠ .running := fun hrunning => h.not_isBelow hreceiving hrunning hbelow
    obtain ⟨v, hv⟩ := h.exists_visit hentry
    have hsearched := hsound.kept.searched n t ht hover hgoes v (List.mem_of_getElem? hv)
    have hhas := h.visits j v entry hv hentry
    rw [hsearched] at hhas
    exact hhas.2 hbelow

/-- A path that matches. -/
def someMatch : SearchQueryMatch := .path ⟨"a".toList, []⟩

/-- There is one match, and all is sent before the response to the request. -/
def oneSearch : List SearchStateEvent :=
  [.start 7 ⟨none, none⟩ [[someMatch], []], .search 0 (.visit 1), .search 0 (.visit 0),
    .search 0 (.found 0), .search 0 .receive, .search 0 (.leave 1), .search 0 (.leave 0),
    .search 0 .done, .remove 0, .search 0 .finish,
    .search 0 (.reply (.send 0 (.searchResults 7 [someMatch]))), .search 0 (.reply (.finish 0)),
    .search 0 (.reply (.send 0 (.searchDone 7))), .search 0 (.reply (.finish 0)),
    .search 0 (.reply (.sendBefore (.searchStarted 7))), .search 0 (.reply .insert),
    .search 0 (.reply .flush), .search 0 (.reply .drain), .search 0 .drop]

theorem search_arrives_one :
    ∃ s t, Machine.run step oneSearch new = some s ∧ s.started[0]? = some t ∧
      Machine.Inevitable (Searcher.step fun _ => "") SearcherEvent.GoesOn
        (Searcher.Delivered (SearchQueryReporter.reported t.options.limit (t.found.map Prod.snd)))
        (Searcher.new (t.reply.channel.map fun m => .single m.payload) false) ∧
      (∀ x ∈ t.found, x.1 < t.entries.length) ∧
      ∀ (j : Nat) (entry : List SearchQueryMatch), t.entries[j]? = some entry →
        t.foundIn j <+: entry ∧
        (0 ∉ s.cancelled → SearchQueryReporter.IsBelow t.options.limit t.found.length →
          t.foundIn j = entry) := by
  have hmeets : Machine.Meeting step (fun s e => s.Fresh e ∧ s.InTime e) oneSearch new := by
    decide
  let s := (Machine.run step oneSearch new).get (by decide)
  let t := (s.started[0]?).get (by decide)
  have hrun : Machine.run step oneSearch new = some s := (Option.some_get _).symm
  have ht : s.started[0]? = some t := (Option.some_get _).symm
  have hreturned : t.reply.Returned := by
    refine ⟨QueuedServerReply.isFlushed_iff.1 (by decide), fun k => ?_⟩
    by_cases hk : k = 0
    · subst hk
      exact (HostSearch.hasSent_iff.1 (by decide)).2
    · exact (((sound_reached hmeets hrun).search 0 t ht).replies.others k hk).1
  exact ⟨s, t, hrun, ht, search_arrives (fun _ => "") false hmeets hrun ht (by decide)
    hreturned (by decide)⟩

end SearchState

end Distant
