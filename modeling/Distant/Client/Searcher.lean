import Mathlib.Algebra.GroupWithZero.Nat
import Mathlib.Data.List.Basic
import Distant.Lib.Machine
import Distant.Protocol
import Distant.Search.Matches

/-!
# Searching

`Searcher::search` waits until the search has started and keeps the matches that come before. It puts
them in the channel of the searcher, of which the receiver is in nobody's hands yet, and starts a
task that puts in all others. `arrive_iff` says when every match gets to the caller: it must not be
that the payload which starts the search also ends it, and the channel must have room for all that
comes up to the end of that payload.
-/

namespace Distant

/-- Capacity associated with a client searcher receiving matches -/
def CLIENT_SEARCHER_CAPACITY : Nat := 10000

namespace SearchResponse

def found : SearchResponse → List SearchQueryMatch
  | .searchResults _ found => found
  | _ => []

def isStarted : SearchResponse → Bool
  | .searchStarted _ => true
  | _ => false

def isDone : SearchResponse → Bool
  | .searchDone _ => true
  | _ => false

end SearchResponse

/-- The task that forwards matches. -/
inductive SearcherTask where
  /-- waits for the next payload -/
  | listening
  /-- has matches to send, and what is left of the payload -/
  | sending (found : List SearchQueryMatch) (rest : List SearchResponse)
  | ended

inductive SearcherPhase where
  /-- waits for the confirmation; `queue` are the matches that came before it -/
  | confirming (queue : List SearchQueryMatch)
  /-- sends what was queued -/
  | forwarding (id : SearchId) (queue : List SearchQueryMatch)
  /-- `search` has returned an error -/
  | failed (e : IoError)
  /-- `search` has returned a searcher -/
  | searching (id : SearchId) (task : SearcherTask)

structure Searcher where
  /-- what the mailbox has yet to give, payload by payload -/
  mailbox : List (Msg SearchResponse)
  /-- nothing comes after that -/
  closed : Bool
  phase : SearcherPhase
  channel : List SearchQueryMatch
  /-- the searcher, and with it the receiver, was dropped -/
  dropped : Bool
  /-- what `next` has returned so far -/
  yielded : List (Option SearchQueryMatch)

inductive SearcherEvent where
  /-- `search` goes on -/
  | search
  /-- the task goes on -/
  | task
  /-- `next` is called, or goes on, and returns -/
  | next
  | drop

/-- The tasks go on, and the caller keeps the searcher and takes from it. -/
def SearcherEvent.GoesOn : SearcherEvent → Prop
  | .drop => False
  | _ => True

namespace Searcher

/-- Before the first payload. -/
def new (mailbox : List (Msg SearchResponse)) (closed : Bool) : Searcher :=
  ⟨mailbox, closed, .confirming [], [], false, []⟩

section

variable (debug : SearchResponse → String)

/-- What `search` does with a payload: the matches that it has queued then, and the id if the search
has started. -/
def confirm (queue : List SearchQueryMatch) (searchId : Option SearchId) :
    List SearchResponse → Except IoError (List SearchQueryMatch × Option SearchId)
  | [] => .ok (queue, searchId)
  -- results before the started indicator are queued up
  | .searchResults _ found :: rest => confirm (queue ++ found) searchId rest
  | .searchStarted id :: rest => confirm queue (some id) rest
  | .error e :: _ => .error e
  | x :: _ => .error (.new .other ("Unexpected response: " ++ debug x))

def stepSearch (s : Searcher) : Option Searcher :=
  match s.phase with
  | .confirming queue =>
    match s.mailbox with
    | [] =>
      if s.closed then
        some { s with phase := .failed (.new .other "Search query missing started confirmation") }
      else none
    | res :: mailbox =>
      match confirm debug queue none res.intoVec with
      | .error e => some { s with mailbox := mailbox, phase := .failed e }
      | .ok (queue, none) => some { s with mailbox := mailbox, phase := .confirming queue }
      | .ok (queue, some id) => some { s with mailbox := mailbox, phase := .forwarding id queue }
  | .forwarding id [] => some { s with phase := .searching id .listening }
  | .forwarding id (m :: queue) =>
    if s.channel.length < CLIENT_SEARCHER_CAPACITY then
      some { s with channel := s.channel ++ [m], phase := .forwarding id queue }
    else none
  | _ => none

/-- The task goes on to `task`. -/
def setTask (s : Searcher) (id : SearchId) (task : SearcherTask) : Searcher :=
  { s with phase := .searching id task }

def stepTask (s : Searcher) : Option Searcher :=
  match s.phase with
  | .searching id .listening =>
    match s.mailbox with
    | [] => if s.closed then some (s.setTask id .ended) else none
    | res :: mailbox => some ({ s with mailbox := mailbox }.setTask id (.sending [] res.intoVec))
  | .searching id (.sending [] []) => some (s.setTask id .listening)
  | .searching id (.sending [] (.searchResults _ found :: rest)) =>
    -- leaves the loop over the payload, not only that over the matches
    if s.dropped then some (s.setTask id .listening) else some (s.setTask id (.sending found rest))
  | .searching id (.sending [] (.searchDone _ :: _)) => some (s.setTask id .ended)
  | .searching id (.sending [] (_ :: rest)) => some (s.setTask id (.sending [] rest))
  | .searching id (.sending (m :: found) rest) =>
    if s.dropped then some (s.setTask id (.sending [] rest))
    else if s.channel.length < CLIENT_SEARCHER_CAPACITY then
      some ({ s with channel := s.channel ++ [m] }.setTask id (.sending found rest))
    else none
  | _ => none

def stepNext (s : Searcher) : Option Searcher :=
  match s.phase with
  | .searching _ task =>
    if s.dropped then none
    else
      match s.channel, task with
      | m :: channel, _ => some { s with channel := channel, yielded := s.yielded ++ [some m] }
      -- the sender went with the task
      | [], .ended => some { s with yielded := s.yielded ++ [none] }
      | [], _ => none
  | _ => none

def step (s : Searcher) : SearcherEvent → Option Searcher
  | .search => stepSearch debug s
  | .task => stepTask s
  | .next => stepNext s
  | .drop =>
    match s.phase with
    | .searching _ _ => some { s with dropped := true, channel := [] }
    | _ => none

end

/-! ## What the server sends -/

/-- From the confirmation on: results until the search is done, and anything after that. The matches
are those of the results. -/
inductive Ends : List SearchResponse → List SearchQueryMatch → Prop where
  | done (id : SearchId) (tail : List SearchResponse) : Ends (.searchDone id :: tail) []
  | results {rest : List SearchResponse} {ms : List SearchQueryMatch} (id : SearchId)
      (found : List SearchQueryMatch) (h : Ends rest ms) :
      Ends (.searchResults id found :: rest) (found ++ ms)

/-- All responses: there may be results before the confirmation. -/
inductive Completes : List SearchResponse → List SearchQueryMatch → Prop where
  | started {rest : List SearchResponse} {ms : List SearchQueryMatch} (id : SearchId)
      (h : Ends rest ms) : Completes (.searchStarted id :: rest) ms
  | results {rest : List SearchResponse} {ms : List SearchQueryMatch} (id : SearchId)
      (found : List SearchQueryMatch) (h : Completes rest ms) :
      Completes (.searchResults id found :: rest) (found ++ ms)

/-- The matches of some responses. -/
def allFound (responses : List SearchResponse) : List SearchQueryMatch :=
  responses.flatMap SearchResponse.found

/-- The responses of all payloads. -/
def flat (mailbox : List (Msg SearchResponse)) : List SearchResponse := mailbox.flatMap Msg.intoVec

/-- The responses up to the end of the payload that has the confirmation. -/
def untilStarted : List (Msg SearchResponse) → List SearchResponse
  | [] => []
  | res :: mailbox =>
    if res.intoVec.any SearchResponse.isStarted then res.intoVec
    else res.intoVec ++ untilStarted mailbox

/-- The search is not over in the payload that starts it, and the channel has room for the matches
that come up to its end. -/
structure Fits (mailbox : List (Msg SearchResponse)) : Prop where
  notDone : ∀ r ∈ untilStarted mailbox, r.isDone = false
  room : (allFound (untilStarted mailbox)).length ≤ CLIENT_SEARCHER_CAPACITY

/-- `next` has returned the matches one after the other, and then that there are no more. -/
def Delivered (ms : List SearchQueryMatch) (s : Searcher) : Prop :=
  s.yielded = ms.map some ++ [none]

/-! ## Reading a payload -/

section Confirm

variable (debug : SearchResponse → String) {payload rest : List SearchResponse}
  {ms : List SearchQueryMatch}

/-- What is left of a payload after the confirmation. -/
theorem confirm_ends (queue : List SearchQueryMatch) (id : SearchId)
    (h : Ends (payload ++ rest) ms) :
    ((∀ r ∈ payload, r.isDone = false) ∧
      confirm debug queue (some id) payload = .ok (queue ++ allFound payload, some id) ∧
      ∃ ms', ms = allFound payload ++ ms' ∧ Ends rest ms') ∨
    ((∃ r ∈ payload, r.isDone = true) ∧ ∃ e, confirm debug queue (some id) payload = .error e) := by
  induction payload generalizing queue ms with
  | nil => exact .inl ⟨nofun, by simp [confirm, allFound], ms, rfl, h⟩
  | cons r payload ih =>
      cases h with
      | done => exact .inr ⟨⟨_, List.mem_cons_self, rfl⟩, _, rfl⟩
      | @results _ ms rid found h =>
          rcases ih (queue ++ found) h with ⟨hdone, hok, ms', rfl, hrest⟩ | ⟨⟨r, hr, hdone⟩, e, he⟩
          · refine .inl ⟨?_, ?_, ms', ?_, hrest⟩
            · exact List.forall_mem_cons.mpr ⟨rfl, hdone⟩
            · rw [confirm, hok, List.append_assoc]
              rfl
            · rw [← List.append_assoc]
              rfl
          · exact .inr ⟨⟨r, List.mem_cons_of_mem _ hr, hdone⟩, e, he⟩

/-- A payload is either read before the confirmation, or has it, and then it may be the last. -/
theorem confirm_completes (queue : List SearchQueryMatch) (h : Completes (payload ++ rest) ms) :
    (payload.any SearchResponse.isStarted = false ∧ (∀ r ∈ payload, r.isDone = false) ∧
      confirm debug queue none payload = .ok (queue ++ allFound payload, none) ∧
      ∃ ms', ms = allFound payload ++ ms' ∧ Completes rest ms') ∨
    (payload.any SearchResponse.isStarted = true ∧
      (((∀ r ∈ payload, r.isDone = false) ∧
        (∃ id, confirm debug queue none payload = .ok (queue ++ allFound payload, some id)) ∧
        ∃ ms', ms = allFound payload ++ ms' ∧ Ends rest ms') ∨
      ((∃ r ∈ payload, r.isDone = true) ∧ ∃ e, confirm debug queue none payload = .error e))) := by
  induction payload generalizing queue ms with
  | nil => exact .inl ⟨rfl, nofun, by simp [confirm, allFound], ms, rfl, h⟩
  | cons r payload ih =>
      cases h with
      | started id h =>
          refine .inr ⟨rfl, ?_⟩
          rcases confirm_ends debug queue id h with ⟨hdone, hok, ms', rfl, hrest⟩ | ⟨⟨r, hr, hdone⟩, he⟩
          · exact .inl ⟨List.forall_mem_cons.mpr ⟨rfl, hdone⟩, ⟨id, hok⟩, ms', rfl, hrest⟩
          · exact .inr ⟨⟨r, List.mem_cons_of_mem _ hr, hdone⟩, he⟩
      | @results _ ms rid found h =>
          have hall : queue ++ found ++ allFound payload
              = queue ++ allFound (.searchResults rid found :: payload) := List.append_assoc _ _ _
          have hfound (ms' : List SearchQueryMatch) : found ++ (allFound payload ++ ms')
              = allFound (.searchResults rid found :: payload) ++ ms' :=
            (List.append_assoc _ _ _).symm
          have hcons : ∀ r ∈ payload, r ∈ SearchResponse.searchResults rid found :: payload :=
            fun r hr => List.mem_cons_of_mem _ hr
          rcases ih (queue ++ found) h with ⟨hany, hdone, hok, ms', rfl, hrest⟩ | ⟨hany, hor⟩
          · exact .inl ⟨hany, List.forall_mem_cons.mpr ⟨rfl, hdone⟩, hall ▸ hok, ms', hfound ms', hrest⟩
          · refine .inr ⟨hany, ?_⟩
            rcases hor with ⟨hdone, ⟨id, hok⟩, ms', rfl, hrest⟩ | ⟨⟨r, hr, hdone⟩, he⟩
            · exact .inl ⟨List.forall_mem_cons.mpr ⟨rfl, hdone⟩, ⟨id, hall ▸ hok⟩, ms', hfound ms', hrest⟩
            · exact .inr ⟨⟨r, hcons r hr, hdone⟩, he⟩

end Confirm

/-! ## Whether the matches fit -/

/-- As `Fits`, when some matches are queued already. -/
def FitsAfter (queued : Nat) (mailbox : List (Msg SearchResponse)) : Prop :=
  (∀ r ∈ untilStarted mailbox, r.isDone = false) ∧
    queued + (allFound (untilStarted mailbox)).length ≤ CLIENT_SEARCHER_CAPACITY

theorem fitsAfter_zero_iff (mailbox : List (Msg SearchResponse)) :
    FitsAfter 0 mailbox ↔ Fits mailbox := by
  rw [FitsAfter, Nat.zero_add]
  exact ⟨fun h => ⟨h.1, h.2⟩, fun h => ⟨h.notDone, h.room⟩⟩

section FitsAfter

variable {res : Msg SearchResponse} {queued : Nat}

theorem fitsAfter_before (hany : res.intoVec.any SearchResponse.isStarted = false)
    (hdone : ∀ r ∈ res.intoVec, r.isDone = false) (mailbox : List (Msg SearchResponse)) :
    FitsAfter queued (res :: mailbox) ↔
      FitsAfter (queued + (allFound res.intoVec).length) mailbox := by
  have hall : allFound (res.intoVec ++ untilStarted mailbox)
      = allFound res.intoVec ++ allFound (untilStarted mailbox) := List.flatMap_append
  rw [FitsAfter, FitsAfter, untilStarted, hany, if_neg Bool.false_ne_true, hall, List.length_append,
    Nat.add_assoc]
  refine and_congr_left fun _ => ⟨fun h r hr => h r (List.mem_append_right _ hr), fun h r hr => ?_⟩
  rcases List.mem_append.mp hr with hr | hr
  · exact hdone r hr
  · exact h r hr

theorem fitsAfter_started (hany : res.intoVec.any SearchResponse.isStarted = true)
    (mailbox : List (Msg SearchResponse)) :
    FitsAfter queued (res :: mailbox) ↔ (∀ r ∈ res.intoVec, r.isDone = false) ∧
      queued + (allFound res.intoVec).length ≤ CLIENT_SEARCHER_CAPACITY := by
  rw [FitsAfter, untilStarted, hany, if_pos rfl]

end FitsAfter

/-! ## When they fit -/

/-- Nothing of `ms` is lost, and what was queued has room. -/
inductive OnCourse (ms : List SearchQueryMatch) : Searcher → Prop where
  | confirming {mailbox : List (Msg SearchResponse)} {closed : Bool}
      {queue ms' : List SearchQueryMatch} (hfits : FitsAfter queue.length mailbox)
      (h : Completes (flat mailbox) ms') (hms : ms = queue ++ ms') :
      OnCourse ms ⟨mailbox, closed, .confirming queue, [], false, []⟩
  | forwarding {mailbox : List (Msg SearchResponse)} {closed : Bool} {id : SearchId}
      {queue channel ms' : List SearchQueryMatch}
      (hroom : channel.length + queue.length ≤ CLIENT_SEARCHER_CAPACITY)
      (h : Ends (flat mailbox) ms') (hms : ms = channel ++ queue ++ ms') :
      OnCourse ms ⟨mailbox, closed, .forwarding id queue, channel, false, []⟩
  | listening {mailbox : List (Msg SearchResponse)} {closed : Bool} {id : SearchId}
      {channel ms' : List SearchQueryMatch} {yielded : List (Option SearchQueryMatch)}
      (h : Ends (flat mailbox) ms') (hms : ms.map some = yielded ++ (channel ++ ms').map some) :
      OnCourse ms ⟨mailbox, closed, .searching id .listening, channel, false, yielded⟩
  | sending {mailbox : List (Msg SearchResponse)} {closed : Bool} {id : SearchId}
      {found channel ms' : List SearchQueryMatch} {rest : List SearchResponse}
      {yielded : List (Option SearchQueryMatch)} (h : Ends (rest ++ flat mailbox) ms')
      (hms : ms.map some = yielded ++ (channel ++ (found ++ ms')).map some) :
      OnCourse ms ⟨mailbox, closed, .searching id (.sending found rest), channel, false, yielded⟩
  | ended {mailbox : List (Msg SearchResponse)} {closed : Bool} {id : SearchId}
      {channel : List SearchQueryMatch} {yielded : List (Option SearchQueryMatch)}
      (hms : ms.map some = yielded ++ channel.map some) :
      OnCourse ms ⟨mailbox, closed, .searching id .ended, channel, false, yielded⟩

/-! ## What is left to do -/

/-- Each response is read, and each match goes to the channel and from there to the caller. -/
def cost (responses : List SearchResponse) : Nat :=
  (responses.map fun r => 1 + 2 * r.found.length).sum

def mailboxCost (mailbox : List (Msg SearchResponse)) : Nat :=
  (mailbox.map fun res => 2 + cost res.intoVec).sum

def phaseCost : SearcherPhase → Nat
  | .confirming queue => 2 * queue.length + 2
  | .forwarding _ queue => 2 * queue.length + 1
  | .failed _ => 0
  | .searching _ .listening => 0
  | .searching _ (.sending found rest) => 2 * found.length + cost rest + 1
  | .searching _ .ended => 0

def rest (s : Searcher) : Nat :=
  mailboxCost s.mailbox + phaseCost s.phase + s.channel.length

theorem cost_cons (r : SearchResponse) (responses : List SearchResponse) :
    cost (r :: responses) = 1 + 2 * r.found.length + cost responses := List.sum_cons

theorem mailboxCost_cons (res : Msg SearchResponse) (mailbox : List (Msg SearchResponse)) :
    mailboxCost (res :: mailbox) = 2 + cost res.intoVec + mailboxCost mailbox := List.sum_cons

theorem length_allFound_le (responses : List SearchResponse) :
    2 * (allFound responses).length ≤ cost responses := by
  induction responses with
  | nil => exact Nat.le_refl 0
  | cons r responses ih =>
      have hcons : (allFound (r :: responses)).length
          = r.found.length + (allFound responses).length := by
        rw [allFound, List.flatMap_cons, List.length_append]
        rfl
      rw [cost_cons, hcons]
      omega

/-! ## Until the caller has all -/

section OnCourse

variable {debug : SearchResponse → String} {ms : List SearchQueryMatch} {s s' : Searcher}

theorem OnCourse.search (h : OnCourse ms s) (hstep : stepSearch debug s = some s') :
    OnCourse ms s' ∧ s'.rest < s.rest := by
  cases h with
  | @confirming mailbox closed queue ms' hfits h hms =>
      cases mailbox with
      | nil => cases h
      | cons res mailbox =>
          rw [stepSearch] at hstep
          dsimp only at hstep
          have hle := length_allFound_le res.intoVec
          rcases @confirm_completes debug res.intoVec _ _ queue h with
            ⟨hany, hdone, hok, ms'', rfl, hrest⟩ | ⟨hany, hor⟩
          · rw [hok] at hstep
            cases hstep
            rw [fitsAfter_before hany hdone, ← List.length_append] at hfits
            refine ⟨.confirming hfits hrest (by rw [hms, List.append_assoc]), ?_⟩
            simp only [Searcher.rest, mailboxCost_cons, phaseCost, List.length_append]
            omega
          · obtain ⟨hdone, hroom⟩ := (fitsAfter_started hany mailbox).mp hfits
            rcases hor with ⟨-, ⟨id, hok⟩, ms'', rfl, hrest⟩ | ⟨⟨r, hr, hr'⟩, -⟩
            · rw [hok] at hstep
              cases hstep
              refine ⟨.forwarding ?_ hrest (by rw [hms, List.nil_append, List.append_assoc]), ?_⟩
              · rw [List.length_nil, Nat.zero_add, List.length_append]
                exact hroom
              · simp only [Searcher.rest, mailboxCost_cons, phaseCost, List.length_append]
                omega
            · rw [hdone r hr] at hr'
              cases hr'
  | @forwarding mailbox closed id queue channel ms' hroom h hms =>
      cases queue with
      | nil =>
          cases hstep
          refine ⟨.listening h (by rw [hms, List.append_nil, List.nil_append]), ?_⟩
          simp [Searcher.rest, phaseCost]
      | cons m queue =>
          rw [stepSearch] at hstep
          dsimp only at hstep
          split at hstep
          · cases hstep
            rw [List.length_cons] at hroom
            refine ⟨.forwarding ?_ h (by simp [hms]), ?_⟩
            · rw [List.length_append, List.length_singleton]
              omega
            · simp only [Searcher.rest, phaseCost, List.length_append, List.length_cons, List.length_nil]
              omega
          · cases hstep
  | listening => cases hstep
  | sending => cases hstep
  | ended => cases hstep

theorem OnCourse.task (h : OnCourse ms s) (hstep : stepTask s = some s') :
    OnCourse ms s' ∧ s'.rest < s.rest := by
  cases h with
  | confirming => cases hstep
  | forwarding => cases hstep
  | ended => cases hstep
  | @listening mailbox closed id channel ms' yielded h hms =>
      cases mailbox with
      | nil => cases h
      | cons res mailbox =>
          cases hstep
          refine ⟨.sending h hms, ?_⟩
          simp only [Searcher.rest, setTask, mailboxCost_cons, phaseCost, List.length_nil]
          omega
  | @sending mailbox closed id found channel ms' rest yielded h hms =>
      cases found with
      | cons m found =>
          rw [stepTask] at hstep
          simp only [Bool.false_eq_true, if_false] at hstep
          split at hstep
          · cases hstep
            refine ⟨.sending h (by simp [hms]), ?_⟩
            simp only [Searcher.rest, setTask, phaseCost, List.length_append, List.length_cons,
              List.length_nil]
            omega
          · cases hstep
      | nil =>
          cases rest with
          | nil =>
              cases hstep
              refine ⟨.listening h hms, ?_⟩
              simp [Searcher.rest, setTask, phaseCost]
          | cons r rest =>
              generalize hall : r :: rest ++ flat mailbox = all at h
              cases h with
              | done did tail =>
                  cases hall
                  cases hstep
                  refine ⟨.ended (by simpa using hms), ?_⟩
                  simp only [Searcher.rest, setTask, phaseCost, cost_cons, List.length_nil]
                  omega
              | results rid found h =>
                  cases hall
                  cases hstep
                  refine ⟨.sending h (by simpa using hms), ?_⟩
                  simp only [Searcher.rest, setTask, phaseCost, cost_cons, List.length_nil,
                    SearchResponse.found]
                  omega

/-- The caller is given a match, or told that there are no more. -/
theorem OnCourse.next (h : OnCourse ms s) (hstep : stepNext s = some s') :
    Delivered ms s' ∨ (OnCourse ms s' ∧ s'.rest < s.rest) := by
  cases h with
  | confirming => cases hstep
  | forwarding => cases hstep
  | @listening mailbox closed id channel ms' yielded h hms =>
      cases channel with
      | nil => cases hstep
      | cons m channel =>
          cases hstep
          exact .inr ⟨.listening h (by simp [hms]), Nat.lt_succ_self _⟩
  | @sending mailbox closed id found channel ms' rest yielded h hms =>
      cases channel with
      | nil => cases hstep
      | cons m channel =>
          cases hstep
          exact .inr ⟨.sending h (by simp [hms]), Nat.lt_succ_self _⟩
  | @ended mailbox closed id channel yielded hms =>
      cases channel with
      | nil =>
          cases hstep
          rw [List.map_nil, List.append_nil] at hms
          exact .inl (congrArg (· ++ [none]) hms.symm)
      | cons m channel =>
          cases hstep
          exact .inr ⟨.ended (by simp [hms]), Nat.lt_succ_self _⟩

/-- There is always somebody to go on: where the task waits for room, the caller can take. -/
theorem OnCourse.exists_step (h : OnCourse ms s) :
    ∃ e s', SearcherEvent.GoesOn e ∧ step debug s e = some s' := by
  cases h with
  | @confirming mailbox closed queue ms' hfits h hms =>
      cases mailbox with
      | nil => cases h
      | cons res mailbox =>
          obtain ⟨s', hs'⟩ : ∃ s', stepSearch debug
              ⟨res :: mailbox, closed, .confirming queue, [], false, []⟩ = some s' := by
            rw [stepSearch]
            dsimp only
            split <;> exact ⟨_, rfl⟩
          exact ⟨.search, s', trivial, hs'⟩
  | @forwarding mailbox closed id queue channel ms' hroom h hms =>
      cases queue with
      | nil => exact ⟨.search, _, trivial, rfl⟩
      | cons m queue =>
          have hlt : channel.length < CLIENT_SEARCHER_CAPACITY := by
            rw [List.length_cons] at hroom
            omega
          exact ⟨.search, _, trivial, if_pos hlt⟩
  | @listening mailbox closed id channel ms' yielded h hms =>
      cases mailbox with
      | nil => cases h
      | cons res mailbox => exact ⟨.task, _, trivial, rfl⟩
  | @sending mailbox closed id found channel ms' rest yielded h hms =>
      cases channel with
      | cons m channel => exact ⟨.next, _, trivial, rfl⟩
      | nil =>
          cases found with
          | cons m found => exact ⟨.task, _, trivial, rfl⟩
          | nil =>
              cases rest with
              | nil => exact ⟨.task, _, trivial, rfl⟩
              | cons r rest => cases r <;> exact ⟨.task, _, trivial, rfl⟩
  | @ended mailbox closed id channel yielded hms =>
      cases channel with
      | nil => exact ⟨.next, _, trivial, rfl⟩
      | cons m channel => exact ⟨.next, _, trivial, rfl⟩

theorem OnCourse.inevitable (h : OnCourse ms s) :
    Machine.Inevitable (step debug) SearcherEvent.GoesOn (Delivered ms) s := by
  refine Machine.inevitable_of_rank rest (fun s h _ => h.exists_step) (fun s e s' h _ hgoes hstep => ?_) h
  cases e with
  | search => exact .inr (h.search hstep)
  | task => exact .inr (h.task hstep)
  | next => exact h.next hstep
  | drop => cases hgoes

end OnCourse

/-! ## When they do not -/

/-- `search` returns an error, or waits for room that nobody makes. -/
inductive OffCourse : Searcher → Prop where
  | confirming {mailbox : List (Msg SearchResponse)} {closed : Bool}
      {queue ms : List SearchQueryMatch} (hfits : ¬ FitsAfter queue.length mailbox)
      (h : Completes (flat mailbox) ms) :
      OffCourse ⟨mailbox, closed, .confirming queue, [], false, []⟩
  | forwarding {mailbox : List (Msg SearchResponse)} {closed : Bool} {id : SearchId}
      {queue channel : List SearchQueryMatch} (hle : channel.length ≤ CLIENT_SEARCHER_CAPACITY)
      (hover : CLIENT_SEARCHER_CAPACITY < channel.length + queue.length) :
      OffCourse ⟨mailbox, closed, .forwarding id queue, channel, false, []⟩
  | failed {mailbox : List (Msg SearchResponse)} {closed : Bool} {e : IoError} :
      OffCourse ⟨mailbox, closed, .failed e, [], false, []⟩

section OffCourse

variable {debug : SearchResponse → String} {s s' : Searcher}

theorem OffCourse.search (h : OffCourse s) (hstep : stepSearch debug s = some s') : OffCourse s' := by
  cases h with
  | failed => cases hstep
  | @confirming mailbox closed queue ms hfits h =>
      cases mailbox with
      | nil => cases h
      | cons res mailbox =>
          rw [stepSearch] at hstep
          dsimp only at hstep
          rcases @confirm_completes debug res.intoVec _ _ queue h with
            ⟨hany, hdone, hok, ms', -, hrest⟩ | ⟨hany, ⟨hdone, ⟨id, hok⟩, -⟩ | ⟨-, e, he⟩⟩
          · rw [hok] at hstep
            cases hstep
            rw [fitsAfter_before hany hdone, ← List.length_append] at hfits
            exact .confirming hfits hrest
          · rw [hok] at hstep
            cases hstep
            rw [fitsAfter_started hany, ← List.length_append] at hfits
            refine .forwarding (Nat.zero_le _) ?_
            rw [List.length_nil, Nat.zero_add]
            exact Nat.lt_of_not_le fun hle => hfits ⟨hdone, hle⟩
          · rw [he] at hstep
            cases hstep
            exact .failed
  | @forwarding mailbox closed id queue channel hle hover =>
      cases queue with
      | nil =>
          rw [List.length_nil] at hover
          omega
      | cons m queue =>
          rw [stepSearch] at hstep
          dsimp only at hstep
          split at hstep
          · cases hstep
            rw [List.length_cons] at hover
            refine .forwarding ?_ ?_
            · rw [List.length_append, List.length_singleton]
              omega
            · rw [List.length_append, List.length_singleton]
              omega
          · cases hstep

theorem OffCourse.step {e : SearcherEvent} (h : OffCourse s)
    (hstep : Searcher.step debug s e = some s') : OffCourse s' := by
  cases e with
  | search => exact h.search hstep
  | task => cases h <;> cases hstep
  | next => cases h <;> cases hstep
  | drop => cases h <;> cases hstep

theorem OffCourse.not_delivered (h : OffCourse s) (ms : List SearchQueryMatch) :
    ¬ Delivered ms s := by
  have hyielded : s.yielded = [] := by cases h <;> rfl
  rw [Delivered, hyielded]
  exact fun hnil => absurd hnil.symm (List.append_ne_nil_of_right_ne_nil _ (List.cons_ne_nil _ _))

theorem not_inevitable {mailbox : List (Msg SearchResponse)} {ms : List SearchQueryMatch}
    (h : Completes (flat mailbox) ms) (hfits : ¬ Fits mailbox) (closed : Bool) :
    ¬ Machine.Inevitable (Searcher.step debug) SearcherEvent.GoesOn (Delivered ms)
      (new mailbox closed) := by
  rw [← fitsAfter_zero_iff] at hfits
  have hoff : OffCourse (new mailbox closed) := .confirming hfits h
  exact Machine.not_inevitable (fun s hs => hs.not_delivered ms)
    (fun s e s' hs _ hstep => hs.step hstep) hoff

end OffCourse

/-- Whatever the schedule, `search` returns a searcher and `next` gives all matches in order and then
`None`, exactly if the payload that starts the search does not end it and the channel has room for
the matches up to its end. -/
theorem arrive_iff (debug : SearchResponse → String) {mailbox : List (Msg SearchResponse)}
    {ms : List SearchQueryMatch} (h : Completes (flat mailbox) ms) (closed : Bool) :
    Machine.Inevitable (step debug) SearcherEvent.GoesOn (Delivered ms) (new mailbox closed) ↔
      Fits mailbox := by
  constructor
  · intro hinevitable
    by_contra hfits
    exact not_inevitable h hfits closed hinevitable
  · intro hfits
    have hon : OnCourse ms (new mailbox closed) :=
      .confirming ((fitsAfter_zero_iff mailbox).mpr hfits) h rfl
    exact hon.inevitable

def oneMatch : SearchQueryMatch := .path ⟨"a".toList, []⟩

/-- The search is started by a response of its own. -/
def twoPayloads : List (Msg SearchResponse) :=
  [.single (.searchStarted 1), .batch [.searchResults 1 [oneMatch], .searchDone 1]]

theorem delivers_twoPayloads :
    Machine.Inevitable (step fun _ => "") SearcherEvent.GoesOn (Delivered [oneMatch])
      (new twoPayloads false) := by
  have h : Completes (flat twoPayloads) [oneMatch] := .started 1 (.results 1 _ (.done 1 []))
  exact (arrive_iff (fun _ => "") h false).mpr ⟨by decide, by decide⟩

/-- The search is over in the payload that starts it. -/
def onePayload : List (Msg SearchResponse) :=
  [.batch [.searchStarted 1, .searchResults 1 [oneMatch], .searchDone 1]]

/-- One match too many comes before the confirmation. -/
def tooMany : List (Msg SearchResponse) :=
  [.single (.searchResults 1 (.replicate (CLIENT_SEARCHER_CAPACITY + 1) oneMatch)),
    .single (.searchStarted 1), .single (.searchDone 1)]

theorem not_delivers :
    (Completes (flat onePayload) [oneMatch] ∧
      ¬ Machine.Inevitable (step fun _ => "") SearcherEvent.GoesOn (Delivered [oneMatch])
        (new onePayload false)) ∧
    (Completes (flat tooMany) (.replicate (CLIENT_SEARCHER_CAPACITY + 1) oneMatch) ∧
      ¬ Machine.Inevitable (step fun _ => "") SearcherEvent.GoesOn
        (Delivered (.replicate (CLIENT_SEARCHER_CAPACITY + 1) oneMatch)) (new tooMany false)) := by
  constructor
  · have h : Completes (flat onePayload) [oneMatch] := .started 1 (.results 1 _ (.done 1 []))
    refine ⟨h, not_inevitable h (fun hfits => ?_) false⟩
    exact absurd hfits.notDone (by decide)
  · have h : Completes (flat tooMany) (.replicate (CLIENT_SEARCHER_CAPACITY + 1) oneMatch ++ []) :=
      .results 1 _ (.started 1 (.done 1 []))
    rw [List.append_nil] at h
    refine ⟨h, not_inevitable h (fun hfits => ?_) false⟩
    have huntil : untilStarted tooMany
        = [.searchResults 1 (.replicate (CLIENT_SEARCHER_CAPACITY + 1) oneMatch),
          .searchStarted 1] := rfl
    have hroom := hfits.room
    rw [huntil] at hroom
    simp only [allFound, List.flatMap_cons, SearchResponse.found, List.flatMap_nil, List.append_nil,
      List.length_replicate] at hroom
    exact absurd hroom (Nat.not_succ_le_self _)

end Searcher

end Distant
