import Distant.Client.Authenticate

/-!
# Authentication through the manager

For each request to connect the manager runs a task, whose plugin can call a `ManagerAuthenticator`.
A call that asks something draws an id, puts a oneshot channel under it into a registry that all
tasks share, and sends the message with the id to the client, whose response comes back as a request
of its own. The client answers what asks something and otherwise only looks for a fatal error, until
the result of its request arrives.

`Session` is one request with its client, as if it were alone, and `Relay` all requests with the
registry. `run_of_relay` says that as long as no id is drawn that is in use, each session goes on as
if it were alone; `ends_through_manager` that all of them come to the end that there is when each
question is answered on the spot; and `abandoned` that a task whose client has given up waits for
ever, with its entry in the registry.
-/

namespace Distant

namespace Auth

abbrev ManagerAuthenticationId := UInt32

namespace ManagerAuthenticator

/-- A response to another kind of question. -/
def unexpected (debug : AuthenticationResponse → String) (response : AuthenticationResponse) :
    IoError := .new .other s!"Unexpected response: {debug response}"

/-- What waiting for the response returns when the sender is gone. -/
def senderDropped : IoError := .new .other "channel closed"

end ManagerAuthenticator

/-- What `ManagerClient::connect` does with a message. -/
def AuthHandler.managerReact {H : Type} (a : AuthHandler H) (h : H) : Authentication → Reaction × H
  | .initialization methods => (a.onInitialization methods h).map (.ofAnswer .initialization) id
  | .challenge asked => (a.onChallenge asked h).map (.ofAnswer .challenge) id
  | .verification asked => (a.onVerification asked h).map (.ofAnswer .verification) id
  | .error error =>
    (if error.kind = .fatal then .returns (.error error.intoIoPermissionDenied) else .goesOn, h)
  | .info _ | .startMethod _ | .finished => (.goesOn, h)

/-- The responses to a request to connect. -/
inductive ConnectResponse (β : Type) where
  | authenticate (id : ManagerAuthenticationId) (msg : Authentication)
  | connected (b : β)
  | error (description : String)

/-- The task of a request. -/
inductive ConnectTask (β : Type) where
  | running (program : Program (Except IoError β))
  /-- for the response under this id -/
  | waiting (id : ManagerAuthenticationId)
      (next : Except IoError AuthenticationResponse → Program (Except IoError β))
  | replied (result : Except IoError β)

/-- A request to connect, and its client. -/
structure Session (β H : Type) where
  task : ConnectTask β
  toClient : List (ConnectResponse β)
  /-- the responses on their way back -/
  requests : List (ManagerAuthenticationId × AuthenticationResponse)
  /-- whether there is still a connection to the client -/
  connected : Bool
  handler : H
  /-- what `connect` has returned -/
  returned : Option (Except IoError β)

inductive SessionEvent where
  /-- the task goes on, and `rand::random` returns the id -/
  | task (id : ManagerAuthenticationId)
  /-- the manager takes the next response of the client -/
  | resolve
  | client
  /-- the connection to the client is lost -/
  | hangUp
  deriving DecidableEq, Repr

namespace Session

section

variable {β H : Type}

def start (program : Program (Except IoError β)) (h : H) : Session β H :=
  ⟨.running program, [], [], true, h, none⟩

/-- `ServerReply::send`. -/
def send (s : Session β H) (response : ConnectResponse β) : Except IoError Unit × Session β H :=
  if s.connected then (.ok (), { s with toClient := s.toClient ++ [response] })
  else (.error (.new .brokenPipe "Connection reply closed"), s)

def setTask (s : Session β H) (task : ConnectTask β) : Session β H := { s with task }

/-- The task gets what it waits for under the id, if it does. -/
def wake (s : Session β H) (id : ManagerAuthenticationId)
    (r : Except IoError AuthenticationResponse) : Session β H :=
  match s.task with
  | .waiting id' next => if id' = id then s.setTask (.running (next r)) else s
  | _ => s

variable (unexpected : AuthenticationResponse → IoError) (display : IoError → String)

def ofResult : Except IoError β → ConnectResponse β
  | .ok b => .connected b
  | .error e => .error (display e)

/-- What `connect` returns in the end. -/
def verdict : Except IoError β → Except IoError β
  | .ok b => .ok b
  | .error e => .error (.new .other (display e))

/-- The task goes on. If it asks something, it waits under the id. -/
def stepTask (s : Session β H) (id : ManagerAuthenticationId) : Option (Session β H) :=
  match s.task with
  | .running program =>
    match program.call unexpected with
    | .returned result => some ((s.send (ofResult display result)).2.setTask (.replied result))
    | .asks msg next =>
      match s.send (.authenticate id msg) with
      | (.ok (), s) => some (s.setTask (.waiting id next))
      | (.error e, s) => some (s.setTask (.running (next (.error e))))
    | .tells msg next =>
      some ((s.send (.authenticate id msg)).2.setTask
        (.running (next (s.send (.authenticate id msg)).1)))
  | _ => none

def missingConfirmation : IoError := .new .unexpectedEof "Missing connection confirmation"

/-- One turn of the loop in `ManagerClient::connect`. What it sends after the connection is lost
gets nowhere. -/
def stepClient (a : AuthHandler H) (s : Session β H) : Option (Session β H) :=
  match s.returned, s.toClient with
  | some _, _ => none
  | none, [] =>
    if s.connected then none else some { s with returned := some (.error missingConfirmation) }
  | none, .connected b :: toClient => some { s with toClient, returned := some (.ok b) }
  | none, .error description :: toClient =>
    some { s with toClient, returned := some (.error (.new .other description)) }
  | none, .authenticate id msg :: toClient =>
    match a.managerReact s.handler msg with
    | (.answers response, handler) =>
      let requests := if s.connected then s.requests ++ [(id, response)] else s.requests
      some { s with toClient, handler, requests }
    | (.returns (.error e), handler) => some
        { s with toClient, handler, returned := some (.error e) }
    | (_, handler) => some { s with toClient, handler }

/-- One session as if it were alone: the task gets the response from the client itself. -/
def step (a : AuthHandler H) (s : Session β H) : SessionEvent → Option (Session β H)
  | .task id => stepTask unexpected display s id
  | .resolve =>
    match s.requests with
    | [] => none
    | (id, response) :: requests => some ({ s with requests }.wake id (.ok response))
  | .client => stepClient a s
  | .hangUp => if s.connected then some { s with connected := false } else none

end

end Session

/-- The requests, and the tasks whose senders are under an id. -/
structure Relay (ι β H : Type) where
  sessions : ι → Session β H
  registry : HashMap ManagerAuthenticationId ι

namespace Relay

section

variable {ι β H : Type} [DecidableEq ι]

def start (programs : ι → Program (Except IoError β)) (h : ι → H) : Relay ι β H :=
  ⟨fun i => .start (programs i) (h i), ∅⟩

def set (s : Relay ι β H) (i : ι) (session : Session β H) : Relay ι β H :=
  { s with sessions := Function.update s.sessions i session }

/-- `insert` into the registry. A sender that was there is dropped. -/
def insert (s : Relay ι β H) (id : ManagerAuthenticationId) (i : ι) : Relay ι β H :=
  let s := match s.registry.lookup id with
    | none => s
    | some j => s.set j ((s.sessions j).wake id (.error ManagerAuthenticator.senderDropped))
  { s with registry := s.registry.insert id i }

variable (unexpected : AuthenticationResponse → IoError) (display : IoError → String)

/-- Whether the task puts a sender into the registry with its next turn. -/
def asks (session : Session β H) : Bool :=
  match session.task with
  | .running program =>
    match program.call unexpected with
    | .asks _ _ => true
    | _ => false
  | _ => false

/-- What the manager does with an `Authenticate` request. -/
def resolve (s : Relay ι β H) (id : ManagerAuthenticationId) (response : AuthenticationResponse) :
    Relay ι β H :=
  match s.registry.lookup id with
  | none => s
  | some j =>
    { s.set j ((s.sessions j).wake id (.ok response)) with registry := s.registry.erase id }

variable (a : ι → AuthHandler H)

def step (s : Relay ι β H) : ι × SessionEvent → Option (Relay ι β H)
  | (i, .task id) =>
    let s := if asks unexpected (s.sessions i) then s.insert id i else s
    (Session.stepTask unexpected display (s.sessions i) id).map (s.set i)
  | (i, .resolve) =>
    match (s.sessions i).requests with
    | [] => none
    | (id, response) :: requests =>
      some ((s.set i { s.sessions i with requests }).resolve id response)
  | (i, .client) => (Session.stepClient (a i) (s.sessions i)).map (s.set i)
  | (i, .hangUp) =>
    if (s.sessions i).connected then some (s.set i { s.sessions i with connected := false })
    else none

end

end Relay

/-! ## One session alone -/

namespace Session

variable {β H : Type} {unexpected : AuthenticationResponse → IoError} {display : IoError → String}
  {a : AuthHandler H} {s s' : Session β H} {event : SessionEvent}

/-- The id of a question. -/
def askId : ConnectResponse β → Option ManagerAuthenticationId
  | .authenticate id msg => if msg.isAsk then some id else none
  | _ => none

/-- The ids of the questions and responses on their way. -/
def outstanding (s : Session β H) : List ManagerAuthenticationId :=
  s.toClient.filterMap askId ++ s.requests.map Prod.fst

/-- At most one question or response is on its way, and then the task waits for it. -/
def Sound (s : Session β H) : Prop :=
  s.outstanding = [] ∨ ∃ id next, s.task = .waiting id next ∧ s.outstanding = [id]

theorem sound_start (program : Program (Except IoError β)) (h : H) : (start program h).Sound :=
  .inl rfl

/-- The client responds to questions only. -/
theorem isAsk_of_answers {h : H} {msg : Authentication} {response : AuthenticationResponse}
    (hreact : (a.managerReact h msg).1 = .answers response) : msg.isAsk = true := by
  cases msg with
  | initialization methods => rfl
  | challenge asked => rfl
  | verification asked => rfl
  | info text => cases hreact
  | startMethod method => cases hreact
  | finished => cases hreact
  | error error =>
      by_cases hfatal : error.kind = .fatal
      · simp [AuthHandler.managerReact, hfatal] at hreact
      · simp [AuthHandler.managerReact, hfatal] at hreact

/-- What the task does with its next turn. -/
theorem stepTask_some {id : ManagerAuthenticationId}
    (hstep : stepTask unexpected display s id = some s') :
    ∃ p, s.task = .running p ∧
      ((∃ result, p = .ret result ∧
        s' = (s.send (ofResult display result)).2.setTask (.replied result)) ∨
      (∃ msg next, p.call unexpected = .asks msg next ∧ s.connected = true ∧
        s' = (s.send (.authenticate id msg)).2.setTask (.waiting id next)) ∨
      (∃ msg next e, p.call unexpected = .asks msg next ∧ s.connected = false ∧
        s' = s.setTask (.running (next (.error e)))) ∨
      ∃ msg next r, p.call unexpected = .tells msg next ∧ (s.connected = true → r = .ok ()) ∧
        s' = (s.send (.authenticate id msg)).2.setTask (.running (next r))) := by
  unfold stepTask at hstep
  split at hstep
  · next p htask =>
      refine ⟨p, htask, ?_⟩
      split at hstep
      · next result hcall =>
          cases hstep
          cases p <;> cases hcall
          exact .inl ⟨result, rfl, rfl⟩
      · next msg next hcall =>
          unfold send at hstep ⊢
          split at hstep
          · next hsend =>
              split at hsend
              · next hconnected =>
                  cases hsend
                  cases hstep
                  exact .inr (.inl ⟨msg, next, hcall, hconnected, by rw [if_pos hconnected]⟩)
              · cases hsend
          · next e hsend =>
              split at hsend
              · cases hsend
              · next hconnected =>
                  cases hsend
                  cases hstep
                  exact .inr (.inr (.inl ⟨msg, next, _, hcall, by simpa using hconnected, rfl⟩))
      · next msg next hcall =>
          cases hstep
          refine .inr (.inr (.inr ⟨msg, next, _, hcall, fun hconnected => ?_, rfl⟩))
          unfold send
          rw [if_pos hconnected]
  · cases hstep

/-- What the client does with a message that it takes. -/
inductive Took (a : AuthHandler H) (s : Session β H) (rest : List (ConnectResponse β)) :
    ConnectResponse β → Session β H → Prop where
  | connected (b : β) :
      Took a s rest (.connected b) { s with toClient := rest, returned := some (.ok b) }
  | error (description : String) : Took a s rest (.error description)
      { s with toClient := rest, returned := some (.error (.new .other description)) }
  | answers {id : ManagerAuthenticationId} {msg : Authentication}
      {response : AuthenticationResponse}
      (hreact : (a.managerReact s.handler msg).1 = .answers response) :
      Took a s rest (.authenticate id msg)
        { s with
          toClient := rest
          handler := (a.managerReact s.handler msg).2
          requests := if s.connected then s.requests ++ [(id, response)] else s.requests }
  | fails {id : ManagerAuthenticationId} {msg : Authentication} {e : IoError}
      (hreact : (a.managerReact s.handler msg).1 = .returns (.error e)) :
      Took a s rest (.authenticate id msg)
        { s with
          toClient := rest
          handler := (a.managerReact s.handler msg).2
          returned := some (.error e) }
  | goesOn {id : ManagerAuthenticationId} {msg : Authentication}
      (hreact : (a.managerReact s.handler msg).1 = .goesOn) :
      Took a s rest (.authenticate id msg)
        { s with toClient := rest, handler := (a.managerReact s.handler msg).2 }

theorem managerReact_ne_ok (h : H) (msg : Authentication) :
    (a.managerReact h msg).1 ≠ .returns (.ok ()) := by
  cases msg with
  | initialization methods =>
      show Reaction.ofAnswer _ (a.onInitialization methods h).1 ≠ _
      cases (a.onInitialization methods h).1 <;> simp [Reaction.ofAnswer]
  | challenge asked =>
      show Reaction.ofAnswer _ (a.onChallenge asked h).1 ≠ _
      cases (a.onChallenge asked h).1 <;> simp [Reaction.ofAnswer]
  | verification asked =>
      show Reaction.ofAnswer _ (a.onVerification asked h).1 ≠ _
      cases (a.onVerification asked h).1 <;> simp [Reaction.ofAnswer]
  | error error => by_cases hfatal : error.kind = .fatal <;> simp [AuthHandler.managerReact, hfatal]
  | info text => simp [AuthHandler.managerReact]
  | startMethod method => simp [AuthHandler.managerReact]
  | finished => simp [AuthHandler.managerReact]

theorem stepClient_some (hstep : stepClient a s = some s') :
    s.returned = none ∧
      ((s.toClient = [] ∧ s.connected = false ∧
        s' = { s with returned := some (.error missingConfirmation) }) ∨
      ∃ response rest, s.toClient = response :: rest ∧ Took a s rest response s') := by
  unfold stepClient at hstep
  split at hstep
  · cases hstep
  · next hreturned hempty =>
      split at hstep
      · cases hstep
      · next hconnected =>
          cases hstep
          exact ⟨hreturned, .inl ⟨hempty, by simpa using hconnected, rfl⟩⟩
  · next b rest hreturned hcons =>
      cases hstep
      exact ⟨hreturned, .inr ⟨_, rest, hcons, .connected b⟩⟩
  · next description rest hreturned hcons =>
      cases hstep
      exact ⟨hreturned, .inr ⟨_, rest, hcons, .error description⟩⟩
  · next id msg rest hreturned hcons =>
      refine ⟨hreturned, .inr ⟨_, rest, hcons, ?_⟩⟩
      have hstate : ∀ {reaction : Reaction} {h : H}, a.managerReact s.handler msg = (reaction, h) →
          (a.managerReact s.handler msg).1 = reaction ∧ h = (a.managerReact s.handler msg).2 := by
        intro reaction h hreact
        rw [hreact]
        exact ⟨rfl, rfl⟩
      split at hstep
      · next response h hreact =>
          cases hstep
          obtain ⟨hfst, rfl⟩ := hstate hreact
          exact .answers hfst
      · next e h hreact =>
          cases hstep
          obtain ⟨hfst, rfl⟩ := hstate hreact
          exact .fails hfst
      · next reaction h hanswers hfails hreact =>
          cases hstep
          obtain ⟨hfst, rfl⟩ := hstate hreact
          refine .goesOn ?_
          cases reaction with
          | answers response => exact absurd rfl (hanswers response)
          | goesOn => exact hfst
          | returns result =>
              cases result with
              | error e => exact absurd rfl (hfails e)
              | ok => exact absurd hfst (managerReact_ne_ok s.handler msg)

omit a in
theorem isAsk_of_tells {p : Program (Except IoError β)} {msg : Authentication}
    {next : Except IoError Unit → Program (Except IoError β)}
    (hcall : p.call unexpected = .tells msg next) : msg.isAsk = false := by
  cases p <;> cases hcall
  exact Program.isAsk_message _

theorem outstanding_send {response : ConnectResponse β} (hs : s.outstanding = []) :
    ((s.send response).2).outstanding = if s.connected then (askId response).toList else [] := by
  obtain ⟨htoClient, hrequests⟩ := List.append_eq_nil_iff.mp hs
  unfold send
  split
  · show (s.toClient ++ [response]).filterMap askId ++ s.requests.map Prod.fst = _
    rw [hrequests, List.filterMap_append, htoClient]
    cases hask : askId response <;> simp [hask]
  · exact hs

theorem resolve_some (hstep : step unexpected display a s .resolve = some s') :
    ∃ id response requests, s.requests = (id, response) :: requests ∧
      s' = { s with requests }.wake id (.ok response) := by
  have hstep : (match s.requests with
    | [] => none
    | (id, response) :: requests => some ({ s with requests }.wake id (.ok response))) = some s' :=
        hstep
  split at hstep
  · cases hstep
  · next id response requests hrequests =>
      cases hstep
      exact ⟨id, response, requests, hrequests, rfl⟩

theorem hangUp_some (hstep : step unexpected display a s .hangUp = some s') :
    s.connected = true ∧ s' = { s with connected := false } := by
  have hstep : (if s.connected then some { s with connected := false } else none) = some s' := hstep
  split at hstep
  · next hconnected =>
      cases hstep
      exact ⟨hconnected, rfl⟩
  · cases hstep

/-- The task waits for the response that is on its way, and for no other. -/
theorem Sound.waits (hs : s.Sound) {id : ManagerAuthenticationId}
    {response : AuthenticationResponse}
    {requests : List (ManagerAuthenticationId × AuthenticationResponse)}
    (hrequests : s.requests = (id, response) :: requests) :
    s.toClient.filterMap askId = [] ∧ requests = [] ∧ ∃ next, s.task = .waiting id next := by
  rcases hs with hs | ⟨id', next, hwaiting, hs⟩
  · obtain ⟨-, hs⟩ := List.append_eq_nil_iff.mp hs
    rw [hrequests] at hs
    cases hs
  · unfold outstanding at hs
    rw [hrequests, List.map_cons] at hs
    rcases List.append_eq_singleton_iff.mp hs with ⟨htoClient, hs⟩ | ⟨-, hs⟩
    · obtain ⟨rfl, hnone⟩ := List.cons.inj hs
      exact ⟨htoClient, List.map_eq_nil_iff.mp hnone, next, hwaiting⟩
    · cases hs

/-- The task waits for the response to the question that is on its way, and to no other. -/
theorem Sound.waits_ask (hs : s.Sound) {id : ManagerAuthenticationId} {msg : Authentication}
    {rest : List (ConnectResponse β)} (hcons : s.toClient = .authenticate id msg :: rest)
    (hask : msg.isAsk = true) :
    rest.filterMap askId = [] ∧ s.requests = [] ∧ ∃ next, s.task = .waiting id next := by
  have houtstanding : s.outstanding = id :: (rest.filterMap askId ++ s.requests.map Prod.fst) := by
    unfold outstanding
    rw [hcons, List.filterMap_cons_some (b := id) (by rw [askId, if_pos hask]), List.cons_append]
  rcases hs with hs | ⟨id', next, hwaiting, hs⟩
  · rw [houtstanding] at hs
    cases hs
  · rw [houtstanding] at hs
    obtain ⟨rfl, hnone⟩ := List.cons.inj hs
    obtain ⟨hrest, hrequests⟩ := List.append_eq_nil_iff.mp hnone
    exact ⟨hrest, List.map_eq_nil_iff.mp hrequests, next, hwaiting⟩

/-- A session of which less is on its way is sound, too. -/
theorem Sound.of_sublist (hs : s.Sound) (htask : s'.task = s.task)
    (hless : s'.outstanding.Sublist s.outstanding) : s'.Sound := by
  rcases hs with hs | ⟨id, next, hwaiting, hs⟩
  · rw [hs] at hless
    exact .inl (List.sublist_nil.mp hless)
  · rw [hs] at hless
    rcases List.sublist_singleton.mp hless with hs' | hs'
    · exact .inl hs'
    · exact .inr ⟨id, next, htask.trans hwaiting, hs'⟩

/-- A step keeps the session sound. -/
theorem Sound.step (hs : s.Sound) (hstep : step unexpected display a s event = some s') :
    s'.Sound := by
  cases event with
  | task id =>
      obtain ⟨p, htask, hcases⟩ := stepTask_some hstep
      have hnone : s.outstanding = [] := by
        rcases hs with hs | ⟨id, next, hwaiting, -⟩
        · exact hs
        · rw [htask] at hwaiting
          cases hwaiting
      rcases hcases with ⟨result, rfl, rfl⟩ | ⟨msg, next, hcall, hconnected, rfl⟩ |
        ⟨msg, next, e, hcall, hconnected, rfl⟩ | ⟨msg, next, r, hcall, -, rfl⟩
      · refine .inl ((outstanding_send hnone).trans ?_)
        cases result <;> exact ite_self _
      · refine .inr ⟨id, next, rfl, (outstanding_send hnone).trans ?_⟩
        rw [if_pos hconnected, askId, if_pos (Program.isAsk_of_call unexpected hcall)]
        rfl
      · exact .inl hnone
      · refine .inl ((outstanding_send hnone).trans ?_)
        simp [askId, isAsk_of_tells hcall]
  | resolve =>
      obtain ⟨id, response, requests, hrequests, rfl⟩ := resolve_some hstep
      obtain ⟨htoClient, rfl, next, hwaiting⟩ := hs.waits hrequests
      refine .inl ?_
      unfold wake outstanding
      simp [hwaiting, setTask, htoClient]
  | client =>
      obtain ⟨-, ⟨-, -, rfl⟩ | ⟨message, rest, hcons, htook⟩⟩ := stepClient_some hstep
      · exact hs.of_sublist rfl (List.Sublist.refl _)
      · have hrest : (rest.filterMap askId ++ s.requests.map Prod.fst).Sublist s.outstanding := by
          unfold outstanding
          rw [hcons]
          exact ((List.sublist_cons_self _ _).filterMap _).append_right _
        cases htook with
        | connected => exact hs.of_sublist rfl hrest
        | error => exact hs.of_sublist rfl hrest
        | fails => exact hs.of_sublist rfl hrest
        | goesOn => exact hs.of_sublist rfl hrest
        | @answers id msg response hreact =>
            obtain ⟨hrest, hrequests, next, hwaiting⟩ :=
              hs.waits_ask hcons (isAsk_of_answers hreact)
            cases hconnected : s.connected with
            | true => exact .inr ⟨id, next, hwaiting, by simp [outstanding, hrest, hrequests]⟩
            | false => exact .inl (by simp [outstanding, hrest, hrequests])
  | hangUp =>
      obtain ⟨-, rfl⟩ := hangUp_some hstep
      exact hs.of_sublist rfl (List.Sublist.refl _)

/-- The client leaves the task alone. -/
theorem task_of_stepClient (hstep : stepClient a s = some s') : s'.task = s.task := by
  obtain ⟨-, ⟨-, -, rfl⟩ | ⟨message, rest, hcons, htook⟩⟩ := stepClient_some hstep
  · rfl
  · cases htook <;> rfl

/-- Where the task is in its program. -/
def phase : ConnectTask β → ServerPhase β
  | .running program => .running program
  | .waiting _ next => .reading next
  | .replied result => .running (.ret result)

/-- What is left to do apart from the program. -/
def rank (s : Session β H) : Nat :=
  2 * s.toClient.length + s.requests.length + (if s.returned.isNone then 1 else 0) +
    (if s.connected then 1 else 0) +
    match s.task with
    | .replied _ => 0
    | _ => 3

theorem rank_send (response : ConnectResponse β) (result : Except IoError β) :
    rank ((s.send response).2.setTask (.replied result)) + 1 ≤
      rank (s.setTask (.running (.ret result))) := by
  unfold rank send setTask
  split
  · simp
    omega
  · simp

/-- With each step the task gets on in its program, or there is less left to do. -/
theorem step_lt (hstep : step unexpected display a s event = some s') :
    Prod.Lex (Conversation.Before unexpected) (· < ·) (phase s'.task, rank s')
      (phase s.task, rank s) := by
  cases event with
  | task id =>
      obtain ⟨p, htask, ⟨result, rfl, rfl⟩ | ⟨msg, next, hcall, -, rfl⟩ |
        ⟨msg, next, e, hcall, -, rfl⟩ |
        ⟨msg, next, r, hcall, -, rfl⟩⟩ := stepTask_some hstep
      · have hrank : rank s = rank (s.setTask (.running (.ret result))) := by
          unfold rank setTask
          rw [htask]
        rw [htask, hrank]
        exact .right _ (rank_send _ _)
      · rw [htask]
        exact .left _ _ (.asks hcall)
      · rw [htask]
        exact .left _ _ (.fails hcall _)
      · rw [htask]
        exact .left _ _ (.tells hcall _)
  | resolve =>
      obtain ⟨id, response, requests, hrequests, rfl⟩ := resolve_some hstep
      have hless : Prod.Lex (Conversation.Before unexpected) (· < ·)
          (phase s.task, rank { s with requests }) (phase s.task, rank s) := by
        refine .right _ ?_
        simp only [rank, hrequests, List.length_cons]
        omega
      unfold wake
      split
      · next id' next hwaiting =>
          split
          · rw [hwaiting]
            exact .left _ _ (.reads _)
          · exact hless
      · exact hless
  | client =>
      obtain ⟨hreturned, ⟨-, -, rfl⟩ | ⟨message, rest, hcons, htook⟩⟩ := stepClient_some hstep
      · refine .right _ ?_
        simp [rank, hreturned]
      · rw [task_of_stepClient hstep]
        refine .right _ ?_
        cases htook with
        | connected =>
            simp only [rank, hcons, hreturned, List.length_cons, Option.isNone_none,
              Option.isNone_some]
            grind
        | error =>
            simp only [rank, hcons, hreturned, List.length_cons, Option.isNone_none,
              Option.isNone_some]
            grind
        | fails =>
            simp only [rank, hcons, hreturned, List.length_cons, Option.isNone_none,
              Option.isNone_some]
            grind
        | goesOn => simp [rank, hcons, hreturned]
        | answers hreact =>
            cases hconnected : s.connected with
            | true =>
                simp only [rank, hcons, hreturned, hconnected, List.length_cons]
                grind
            | false => simp [rank, hcons, hreturned, hconnected]
  | hangUp =>
      obtain ⟨hconnected, rfl⟩ := hangUp_some hstep
      refine .right _ ?_
      simp [rank, hconnected]

/-- A task whose client has returned before it answered stays as it is. -/
theorem stays_abandoned {id : ManagerAuthenticationId}
    {next : Except IoError AuthenticationResponse → Program (Except IoError β)}
    (hstep : step unexpected display a s event = some s')
    (hs : s.task = .waiting id next ∧ s.returned ≠ none ∧ s.requests = []) :
    s'.task = .waiting id next ∧ s'.returned ≠ none ∧ s'.requests = [] := by
  obtain ⟨hwaiting, hreturned, hrequests⟩ := hs
  cases event with
  | task id' =>
      obtain ⟨p, htask, -⟩ := stepTask_some hstep
      rw [hwaiting] at htask
      cases htask
  | resolve =>
      obtain ⟨id', response, requests, hcons, -⟩ := resolve_some hstep
      rw [hrequests] at hcons
      cases hcons
  | client => exact absurd (stepClient_some hstep).1 hreturned
  | hangUp =>
      obtain ⟨-, rfl⟩ := hangUp_some hstep
      exact ⟨hwaiting, hreturned, hrequests⟩

variable (unexpected display a) in
/-- How far a session is, if something is expected to come of it. -/
inductive Stage (expected : Option (Except IoError β × H)) : Session β H → Prop where
  /-- the task has something to do -/
  | talking {p : Program (Except IoError β)}
      {told : List (ManagerAuthenticationId × Authentication)} {h : H} (htold : ∀ m ∈ told, m.2.isAsk = false)
      (hnext : ∀ x ∈ expected, ∃ h', (told.map Prod.snd).foldlM (hear a.managerReact) h = some h' ∧
        p.converse unexpected a.managerReact h' = some x) :
      Stage expected ⟨.running p, told.map fun m => .authenticate m.1 m.2, [], true, h, none⟩
  /-- a question is on the way -/
  | asking {id : ManagerAuthenticationId}
      {next : Except IoError AuthenticationResponse → Program (Except IoError β)}
      {told : List (ManagerAuthenticationId × Authentication)} {ask : Authentication} {h : H}
      (htold : ∀ m ∈ told, m.2.isAsk = false) (hask : ask.isAsk = true)
      (hnext : ∀ x ∈ expected, ∃ h', (told.map Prod.snd).foldlM (hear a.managerReact) h = some h' ∧
        ∃ response, (a.managerReact h' ask).1 = .answers response ∧
          (next (.ok response)).converse unexpected a.managerReact (a.managerReact h' ask).2 =
          some x) :
      Stage expected ⟨.waiting id next,
        (told.map fun m => .authenticate m.1 m.2) ++ [.authenticate id ask], [], true, h, none⟩
  /-- the response is on the way -/
  | answered {id : ManagerAuthenticationId}
      {next : Except IoError AuthenticationResponse → Program (Except IoError β)}
      {response : AuthenticationResponse} {h : H}
      (hnext : ∀ x ∈ expected, (next (.ok response)).converse unexpected a.managerReact h =
        some x) :
      Stage expected ⟨.waiting id next, [], [(id, response)], true, h, none⟩
  /-- the result is on the way -/
  | replied {result : Except IoError β} {told : List (ManagerAuthenticationId × Authentication)}
      {h : H}
      (htold : ∀ m ∈ told, m.2.isAsk = false)
      (hnext : ∀ x ∈ expected, result = x.1 ∧
        (told.map Prod.snd).foldlM (hear a.managerReact) h = some x.2) :
      Stage expected ⟨.replied result,
        (told.map fun m => .authenticate m.1 m.2) ++ [ofResult display result], [], true, h, none⟩
  | concluded {result : Except IoError β} {h : H} (hnext : ∀ x ∈ expected, x = (result, h)) :
      Stage expected ⟨.replied result, [], [], true, h, some (verdict display result)⟩
  /-- the client has given up -/
  | left {task : ConnectTask β} {toClient : List (ConnectResponse β)} {h : H} {e : IoError}
      (hnone : expected = none) : Stage expected ⟨task, toClient, [], true, h, some (.error e)⟩

section Stages

variable {expected : Option (Except IoError β × H)}

theorem managerReact_ask {h : H} {msg : Authentication} (hask : msg.isAsk = true) :
    a.managerReact h msg = a.react h msg := by
  cases msg <;> cases hask <;> rfl

/-- What is only told is heard, or makes the client give up. -/
theorem managerReact_notice {h : H} {msg : Authentication} (hmsg : msg.isAsk = false) :
    (a.managerReact h msg).1 = .goesOn ∨
      hear a.managerReact h msg = none ∧ ∃ e, (a.managerReact h msg).1 = .returns (.error e) := by
  cases msg with
  | initialization methods => cases hmsg
  | challenge asked => cases hmsg
  | verification asked => cases hmsg
  | info text => exact .inl rfl
  | startMethod method => exact .inl rfl
  | finished => exact .inl rfl
  | error error =>
      by_cases hfatal : error.kind = .fatal
      · refine .inr ⟨?_, error.intoIoPermissionDenied, ?_⟩
        · simp [hear, AuthHandler.managerReact, hfatal]
        · simp [AuthHandler.managerReact, hfatal]
      · refine .inl ?_
        simp [AuthHandler.managerReact, hfatal]

/-- A message that is only told leaves the rest to be told, or the client has given up and nothing
is expected. -/
theorem Took.told {id : ManagerAuthenticationId} {msg : Authentication} (told : List Authentication)
    {rest : List (ConnectResponse β)} (hmsg : msg.isAsk = false)
    (htook : Took a s rest (.authenticate id msg) s') :
    s' = { s with toClient := rest, handler := (a.managerReact s.handler msg).2 } ∨
      (∀ h', (msg :: told).foldlM (hear a.managerReact) s.handler ≠ some h') ∧
        ∃ e, s' = { s with
          toClient := rest
          handler := (a.managerReact s.handler msg).2
          returned := some (.error e) } := by
  rcases managerReact_notice (a := a) (h := s.handler) hmsg with hgoes | ⟨hdeaf, e, hreturns⟩
  · cases htook with
    | answers hreact => rw [hgoes] at hreact; cases hreact
    | fails hreact => rw [hgoes] at hreact; cases hreact
    | goesOn => exact .inl rfl
  · cases htook with
    | answers hreact => rw [hreturns] at hreact; cases hreact
    | fails hreact =>
        refine .inr ⟨fun h' hhears => ?_, _, rfl⟩
        cases hdeaf.symm.trans (hears_cons hhears).1
    | goesOn hreact => rw [hreturns] at hreact; cases hreact

theorem told_concat {told : List (ManagerAuthenticationId × Authentication)}
    {id : ManagerAuthenticationId} {msg : Authentication} (htold : ∀ m ∈ told, m.2.isAsk = false)
    (hmsg : msg.isAsk = false) : ∀ m ∈ told ++ [(id, msg)], m.2.isAsk = false := by
  intro m hm
  rcases List.mem_append.mp hm with hm | hm
  · exact htold m hm
  · cases List.mem_singleton.mp hm
    exact hmsg

/-- A task to which nothing is on the way from its session. -/
theorem Stage.starting {p : Program (Except IoError β)} {h : H}
    (hnext : ∀ x ∈ expected, p.converse unexpected a.managerReact h = some x) :
    Stage unexpected display a expected ⟨.running p, [], [], true, h, none⟩ :=
  @Stage.talking _ _ _ _ _ _ _ [] _ (fun _ hm => (by cases hm)) fun x hx => ⟨h, rfl, hnext x hx⟩

/-- A turn of the task. -/
theorem Stage.stepTask {id : ManagerAuthenticationId}
    (hs : Stage unexpected display a expected s)
    (hstep : stepTask unexpected display s id = some s') :
    Stage unexpected display a expected s' := by
  obtain ⟨p, htask, hcases⟩ := stepTask_some hstep
  cases hs with
  | @talking p told h htold hnext =>
      cases htask
      rcases hcases with ⟨result, rfl, rfl⟩ | ⟨msg, next, hcall, -, rfl⟩ |
        ⟨msg, next, e, hcall, hconnected, -⟩ | ⟨msg, next, r, hcall, hr, rfl⟩
      · refine .replied htold fun x hx => ?_
        obtain ⟨h', hhears, hconverse⟩ := hnext x hx
        cases hconverse
        exact ⟨rfl, hhears⟩
      · refine .asking htold (Program.isAsk_of_call unexpected hcall) fun x hx => ?_
        obtain ⟨h', hhears, hconverse⟩ := hnext x hx
        exact ⟨h', hhears, converse_asks unexpected hcall hconverse⟩
      · cases hconnected
      · obtain rfl := hr rfl
        have htold' : ∀ m ∈ told ++ [(id, msg)], m.2.isAsk = false :=
          told_concat htold (isAsk_of_tells hcall)
        have hstage : Stage unexpected display a expected ⟨.running (next (.ok ())),
            (told ++ [(id, msg)]).map fun m => .authenticate m.1 m.2, [], true, h, none⟩ := by
          refine .talking htold' fun x hx => ?_
          obtain ⟨h', hhears, hconverse⟩ := hnext x hx
          obtain ⟨h'', hhear, hconverse⟩ := converse_tells unexpected hcall hconverse
          refine ⟨h'', ?_, hconverse⟩
          rw [List.map_append]
          exact hears_concat hhears hhear
        rw [List.map_append] at hstage
        exact hstage
  | asking => cases htask
  | answered => cases htask
  | replied => cases htask
  | concluded => cases htask
  | left hnone =>
      cases htask
      rcases hcases with ⟨result, rfl, rfl⟩ | ⟨msg, next, hcall, -, rfl⟩ |
        ⟨msg, next, e, hcall, hconnected, -⟩ | ⟨msg, next, r, hcall, hr, rfl⟩
      · exact .left hnone
      · exact .left hnone
      · cases hconnected
      · exact .left hnone

/-- A turn of the client. -/
theorem Stage.stepClient (hs : Stage unexpected display a expected s)
    (hstep : stepClient a s = some s') : Stage unexpected display a expected s' := by
  obtain ⟨hreturned, ⟨-, hconnected, -⟩ | ⟨message, rest, hcons, htook⟩⟩ := stepClient_some hstep
  · cases hs <;> cases hconnected
  · cases hs with
    | @talking p told h htold hnext =>
        cases told with
        | nil => cases hcons
        | cons first told =>
            cases hcons
            have htold' : ∀ m ∈ told, m.2.isAsk = false := fun m hm =>
              htold m (List.mem_cons_of_mem _ hm)
            rcases htook.told (told.map Prod.snd) (htold first List.mem_cons_self) with
              rfl | ⟨hdeaf, e, rfl⟩
            · refine .talking htold' fun x hx => ?_
              obtain ⟨h', hhears, hconverse⟩ := hnext x hx
              exact ⟨h', (hears_cons hhears).2, hconverse⟩
            · refine .left (Option.eq_none_iff_forall_not_mem.mpr fun x hx => ?_)
              obtain ⟨h', hhears, -⟩ := hnext x hx
              exact hdeaf h' hhears
    | @asking id next told ask h htold hask hnext =>
        cases told with
        | nil =>
            cases hcons
            cases htook with
            | answers hreact =>
                refine .answered fun x hx => ?_
                obtain ⟨h', hhears, response', hreact', hconverse⟩ := hnext x hx
                cases hhears
                rw [hreact] at hreact'
                cases hreact'
                exact hconverse
            | fails hreact =>
                refine .left (Option.eq_none_iff_forall_not_mem.mpr fun x hx => ?_)
                obtain ⟨h', hhears, response', hreact', -⟩ := hnext x hx
                cases hhears
                rw [hreact] at hreact'
                cases hreact'
            | goesOn hreact =>
                rw [managerReact_ask hask] at hreact
                rcases a.react_ask h hask with ⟨response, hanswers⟩ | ⟨e, hreturns⟩
                · rw [hanswers] at hreact
                  cases hreact
                · rw [hreturns] at hreact
                  cases hreact
        | cons first told =>
            cases hcons
            have htold' : ∀ m ∈ told, m.2.isAsk = false := fun m hm =>
              htold m (List.mem_cons_of_mem _ hm)
            rcases htook.told (told.map Prod.snd) (htold first List.mem_cons_self) with
              rfl | ⟨hdeaf, e, rfl⟩
            · refine .asking htold' hask fun x hx => ?_
              obtain ⟨h', hhears, hanswer⟩ := hnext x hx
              exact ⟨h', (hears_cons hhears).2, hanswer⟩
            · refine .left (Option.eq_none_iff_forall_not_mem.mpr fun x hx => ?_)
              obtain ⟨h', hhears, -⟩ := hnext x hx
              exact hdeaf h' hhears
    | answered => cases hcons
    | @replied result told h htold hnext =>
        cases told with
        | nil =>
            have hover : ∀ x ∈ expected, x = (result, h) := by
              intro x hx
              obtain ⟨rfl, hhears⟩ := hnext x hx
              cases hhears
              rfl
            cases result with
            | ok b =>
                cases hcons
                cases htook
                exact .concluded hover
            | error e =>
                cases hcons
                cases htook
                exact .concluded hover
        | cons first told =>
            cases hcons
            have htold' : ∀ m ∈ told, m.2.isAsk = false := fun m hm =>
              htold m (List.mem_cons_of_mem _ hm)
            rcases htook.told (told.map Prod.snd) (htold first List.mem_cons_self) with
              rfl | ⟨hdeaf, e, rfl⟩
            · refine .replied htold' fun x hx => ?_
              obtain ⟨hresult, hhears⟩ := hnext x hx
              exact ⟨hresult, (hears_cons hhears).2⟩
            · refine .left (Option.eq_none_iff_forall_not_mem.mpr fun x hx => ?_)
              exact hdeaf _ (hnext x hx).2
    | concluded => cases hreturned
    | left => cases hreturned

/-- As long as the connection is not lost, each step keeps what is expected. -/
theorem Stage.step (hs : Stage unexpected display a expected s) (hevent : event ≠ .hangUp)
    (hstep : Session.step unexpected display a s event = some s') :
    Stage unexpected display a expected s' := by
  cases event with
  | task id => exact hs.stepTask hstep
  | client => exact hs.stepClient hstep
  | hangUp => exact absurd rfl hevent
  | resolve =>
      obtain ⟨id, response, requests, hrequests, rfl⟩ := resolve_some hstep
      cases hs with
      | talking => cases hrequests
      | asking => cases hrequests
      | replied => cases hrequests
      | concluded => cases hrequests
      | left => cases hrequests
      | answered hnext =>
          cases hrequests
          simpa [wake, setTask] using (Stage.starting hnext : Stage unexpected display a expected _)

/-- Nothing more will happen: the client has returned, and the task has, too, or waits for a
response that will not come. -/
def Settled (s : Session β H) : Prop :=
  s.returned ≠ none ∧ ((∃ result, s.task = .replied result) ∨
    ∃ id next, s.task = .waiting id next ∧ s.requests = [])

variable (unexpected display) in
omit a in
theorem exists_stepTask {p : Program (Except IoError β)} (htask : s.task = .running p)
    (id : ManagerAuthenticationId) : ∃ s', stepTask unexpected display s id = some s' := by
  unfold stepTask
  rw [htask]
  simp only
  split
  · exact ⟨_, rfl⟩
  · split <;> exact ⟨_, rfl⟩
  · exact ⟨_, rfl⟩

theorem exists_stepClient (hreturned : s.returned = none) (hsome : s.toClient ≠ []) :
    ∃ s', stepClient a s = some s' := by
  unfold stepClient
  rw [hreturned]
  split
  · next h => cases h
  · next h => exact absurd h hsome
  · exact ⟨_, rfl⟩
  · exact ⟨_, rfl⟩
  · split <;> exact ⟨_, rfl⟩

/-- What is expected is what comes of it. -/
theorem Stage.eq_of_settled {x : Except IoError β × H}
    (hs : Stage unexpected display a (some x) s) (hsettled : s.Settled) :
    s = ⟨.replied x.1, [], [], true, x.2, some (verdict display x.1)⟩ := by
  obtain ⟨hreturned, -⟩ := hsettled
  cases hs with
  | talking => exact absurd rfl hreturned
  | asking => exact absurd rfl hreturned
  | answered => exact absurd rfl hreturned
  | replied => exact absurd rfl hreturned
  | left hnone => cases hnone
  | concluded hnext =>
      obtain rfl := hnext x rfl
      rfl

theorem Stage.connected (hs : Stage unexpected display a expected s) : s.connected = true := by
  cases hs <;> rfl

/-- A session that is not settled can go on, drawing an id if it is the task's turn. -/
theorem Stage.moves (hs : Stage unexpected display a expected s) (hsettled : ¬ s.Settled) :
    (∃ s', Session.stepClient a s = some s') ∨ s.requests ≠ [] ∨ ∃ p, s.task = .running p := by
  cases hs with
  | talking => exact .inr (.inr ⟨_, rfl⟩)
  | asking => exact .inl (exists_stepClient rfl (List.concat_ne_nil _ _))
  | answered => exact .inr (.inl (List.cons_ne_nil _ _))
  | replied => exact .inl (exists_stepClient rfl (List.concat_ne_nil _ _))
  | concluded => exact absurd ⟨Option.some_ne_none _, .inl ⟨_, rfl⟩⟩ hsettled
  | @left task toClient h e hnone =>
      cases task with
      | running p => exact .inr (.inr ⟨p, rfl⟩)
      | waiting id next =>
          exact absurd ⟨Option.some_ne_none _, .inr ⟨id, next, rfl, rfl⟩⟩ hsettled
      | replied result => exact absurd ⟨Option.some_ne_none _, .inl ⟨result, rfl⟩⟩ hsettled

end Stages

end Session

/-! ## The sessions do not get in each other's way -/

namespace Relay

variable {ι β H : Type} [DecidableEq ι] {unexpected : AuthenticationResponse → IoError}
  {display : IoError → String} {a : ι → AuthHandler H} {s s' : Relay ι β H}
  {event : ι × SessionEvent}

/-- The ids that tasks wait for are in the registry. -/
structure Inv (s : Relay ι β H) : Prop where
  sound : ∀ i, (s.sessions i).Sound
  registered : ∀ i id next, (s.sessions i).task = .waiting id next → s.registry.lookup id = some i

variable (unexpected) in
/-- No id is drawn for a question that is already in the registry. -/
def Fresh (s : Relay ι β H) : ι × SessionEvent → Prop
  | (i, .task id) => asks unexpected (s.sessions i) = true → s.registry.lookup id = none
  | _ => True

omit [DecidableEq ι] in
theorem inv_start (programs : ι → Program (Except IoError β)) (h : ι → H) :
    (start programs h).Inv :=
  ⟨fun i => Session.sound_start (programs i) (h i), fun _ _ _ hwaiting => (by cases hwaiting)⟩

/-- Only session `i` has changed. -/
def Only (i : ι) (s s' : Relay ι β H) : Prop := ∀ j, j ≠ i → s'.sessions j = s.sessions j

@[simp]
theorem sessions_set (i : ι) (session : Session β H) : (s.set i session).sessions i = session :=
  Function.update_self _ _ _

@[simp]
theorem registry_set (i : ι) (session : Session β H) : (s.set i session).registry = s.registry :=
  rfl

/-- A turn of a task that asks nothing leaves it waiting for nothing. -/
theorem not_waiting_of_stepTask {session session' : Session β H} {id id' : ManagerAuthenticationId}
    {next : Except IoError AuthenticationResponse → Program (Except IoError β)}
    (hstep : Session.stepTask unexpected display session id = some session')
    (hasks : asks unexpected session = false) : session'.task ≠ .waiting id' next := by
  obtain ⟨p, htask, ⟨result, rfl, rfl⟩ | ⟨msg, next, hcall, -, rfl⟩ |
    ⟨msg, next, e, hcall, -, rfl⟩ |
    ⟨msg, next, r, hcall, -, rfl⟩⟩ := Session.stepTask_some hstep
  · exact fun h => (by cases h)
  · simp [asks, htask, hcall] at hasks
  · exact fun h => (by cases h)
  · exact fun h => (by cases h)

/-- A task that asks waits under the id that has been drawn, if at all. -/
theorem id_of_stepTask {session session' : Session β H} {id id' : ManagerAuthenticationId}
    {next : Except IoError AuthenticationResponse → Program (Except IoError β)}
    (hstep : Session.stepTask unexpected display session id = some session')
    (hwaiting : session'.task = .waiting id' next) : id' = id := by
  obtain ⟨p, htask, ⟨result, rfl, rfl⟩ | ⟨msg, next, hcall, -, rfl⟩ |
    ⟨msg, next, e, hcall, -, rfl⟩ |
    ⟨msg, next, r, hcall, -, rfl⟩⟩ := Session.stepTask_some hstep <;> cases hwaiting
  rfl

variable (unexpected) in
/-- The registry after an event that does not clash with another session. -/
def registryAfter (s : Relay ι β H) : ι × SessionEvent → HashMap ManagerAuthenticationId ι
  | (i, .task id) =>
    if asks unexpected (s.sessions i) then s.registry.insert id i else s.registry
  | (i, .resolve) =>
    match (s.sessions i).requests with
    | [] => s.registry
    | (id, _) :: _ => s.registry.erase id
  | _ => s.registry

section

variable {i : ι} {id : ManagerAuthenticationId}

omit [DecidableEq ι] in
theorem registryAfter_quiet (hasks : asks unexpected (s.sessions i) = false) :
    registryAfter unexpected s (i, .task id) = s.registry :=
  if_neg fun h => Bool.false_ne_true (hasks.symm.trans h)

omit [DecidableEq ι] in
theorem registryAfter_asks (hasks : asks unexpected (s.sessions i) = true) :
    registryAfter unexpected s (i, .task id) = s.registry.insert id i := if_pos hasks

omit [DecidableEq ι] in
theorem registryAfter_resolve {response : AuthenticationResponse}
    {requests : List (ManagerAuthenticationId × AuthenticationResponse)}
    (hrequests : (s.sessions i).requests = (id, response) :: requests) :
    registryAfter unexpected s (i, .resolve) = s.registry.erase id := by
  simp only [registryAfter, hrequests]

end

/-- Without a clash of ids, what one session does is what it does alone. -/
theorem step_eq (hs : s.Inv) (hfresh : Fresh unexpected s event)
    (hstep : step unexpected display a s event = some s') :
    ∃ session, Session.step unexpected display (a event.1) (s.sessions event.1) event.2 =
      some session ∧
      s' = ⟨Function.update s.sessions event.1 session, registryAfter unexpected s event⟩ := by
  obtain ⟨i, event⟩ := event
  cases event with
  | task id =>
      cases hasks : asks unexpected (s.sessions i) with
      | false =>
          rw [registryAfter_quiet hasks]
          have hstep : (Session.stepTask unexpected display (s.sessions i) id).map (s.set i) =
              some s' := by
            simpa only [step, hasks, Bool.false_eq_true, if_false] using hstep
          obtain ⟨session, hsession, rfl⟩ := Option.map_eq_some_iff.mp hstep
          exact ⟨session, hsession, rfl⟩
      | true =>
          rw [registryAfter_asks hasks]
          have hinsert : s.insert id i = { s with registry := s.registry.insert id i } := by
            unfold insert
            rw [hfresh hasks]
          have hstep : (Session.stepTask unexpected display (s.sessions i) id).map
              (fun session => set { s with registry := s.registry.insert id i } i session) =
              some s' := by
            simpa only [step, hasks, if_true, hinsert] using hstep
          obtain ⟨session, hsession, rfl⟩ := Option.map_eq_some_iff.mp hstep
          exact ⟨session, hsession, rfl⟩
  | resolve =>
      have hstep : (match (s.sessions i).requests with
        | [] => none
        | (id, response) :: requests =>
          some ((s.set i { s.sessions i with requests }).resolve id response)) = some s' := hstep
      split at hstep
      · cases hstep
      · next id response requests hrequests =>
          cases hstep
          obtain ⟨-, -, next, hwaiting⟩ := (hs.sound i).waits hrequests
          refine ⟨{ s.sessions i with requests }.wake id (.ok response), ?_, ?_⟩
          · simp only [Session.step, hrequests]
          · unfold resolve
            rw [registry_set, hs.registered i id next hwaiting, registryAfter_resolve hrequests]
            simp only [sessions_set]
            unfold set
            rw [Function.update_idem]
  | client =>
      have hstep : (Session.stepClient (a i) (s.sessions i)).map (s.set i) = some s' := hstep
      obtain ⟨session, hsession, rfl⟩ := Option.map_eq_some_iff.mp hstep
      exact ⟨session, hsession, rfl⟩
  | hangUp =>
      have hstep : (if (s.sessions i).connected then
          some (s.set i { s.sessions i with connected := false }) else none) = some s' := hstep
      split at hstep
      · next hconnected =>
          cases hstep
          exact ⟨_, if_pos hconnected, rfl⟩
      · cases hstep

omit [DecidableEq ι] in
/-- What other tasks wait for stays in the registry. -/
theorem lookup_registryAfter (hs : s.Inv) (hfresh : Fresh unexpected s event) {j : ι}
    {id : ManagerAuthenticationId} (hj : j ≠ event.1) :
    (registryAfter unexpected s event).lookup id = some j ↔ s.registry.lookup id = some j := by
  obtain ⟨i, event⟩ := event
  cases event with
  | task drawn =>
      cases hasks : asks unexpected (s.sessions i) with
      | false => rw [registryAfter_quiet hasks]
      | true =>
          rw [registryAfter_asks hasks]
          by_cases hid : id = drawn
          · subst hid
            rw [AList.lookup_insert, hfresh hasks]
            refine iff_of_false (fun h => hj (Option.some.inj h).symm) (fun h => (by cases h))
          · rw [AList.lookup_insert_ne hid]
  | resolve =>
      cases hrequests : (s.sessions i).requests with
      | nil => simp only [registryAfter, hrequests]
      | cons request requests =>
          obtain ⟨resolved, response⟩ := request
          obtain ⟨-, -, next, hwaiting⟩ := (hs.sound i).waits hrequests
          rw [registryAfter_resolve hrequests]
          by_cases hid : id = resolved
          · subst hid
            rw [AList.lookup_erase, hs.registered i id next hwaiting]
            refine iff_of_false (fun h => (by cases h)) (fun h => hj (Option.some.inj h).symm)
          · rw [AList.lookup_erase_ne hid]
  | client => exact Iff.rfl
  | hangUp => exact Iff.rfl

omit [DecidableEq ι] in
/-- What the task of the session waits for is in the registry. -/
theorem registered_registryAfter (hs : s.Inv) {i : ι} {event : SessionEvent} {session : Session β H}
    (hsession : Session.step unexpected display (a i) (s.sessions i) event = some session)
    {id : ManagerAuthenticationId}
    {next : Except IoError AuthenticationResponse → Program (Except IoError β)}
    (hwaiting : session.task = .waiting id next) :
    (registryAfter unexpected s (i, event)).lookup id = some i := by
  cases event with
  | task drawn =>
      cases hasks : asks unexpected (s.sessions i) with
      | false => exact absurd hwaiting (not_waiting_of_stepTask hsession hasks)
      | true =>
          rw [registryAfter_asks hasks, id_of_stepTask hsession hwaiting]
          exact AList.lookup_insert _
  | resolve =>
      obtain ⟨resolved, response, requests, hrequests, rfl⟩ := Session.resolve_some hsession
      obtain ⟨-, -, next', hwaiting'⟩ := (hs.sound i).waits hrequests
      simp [Session.wake, hwaiting', Session.setTask] at hwaiting
  | client =>
      rw [Session.task_of_stepClient hsession] at hwaiting
      exact hs.registered i id next hwaiting
  | hangUp =>
      obtain ⟨-, rfl⟩ := Session.hangUp_some hsession
      exact hs.registered i id next hwaiting

theorem step_spec (hs : s.Inv) (hfresh : Fresh unexpected s event)
    (hstep : step unexpected display a s event = some s') :
    s'.Inv ∧ Only event.1 s s' ∧
      Session.step unexpected display (a event.1) (s.sessions event.1) event.2 =
        some (s'.sessions event.1) := by
  obtain ⟨session, hsession, rfl⟩ := step_eq hs hfresh hstep
  have honly : Only event.1 s ⟨Function.update s.sessions event.1 session,
      registryAfter unexpected s event⟩ := fun _ hj => Function.update_of_ne hj _ _
  refine ⟨⟨fun j => ?_, fun j id next hwaiting => ?_⟩, honly, ?_⟩
  · by_cases hj : j = event.1
    · subst hj
      simp only [Function.update_self]
      exact (hs.sound _).step hsession
    · rw [honly j hj]
      exact hs.sound j
  · by_cases hj : j = event.1
    · subst hj
      simp only [Function.update_self] at hwaiting
      exact registered_registryAfter hs hsession hwaiting
    · rw [honly j hj] at hwaiting
      exact (lookup_registryAfter hs hfresh hj).mpr (hs.registered j id next hwaiting)
  · simp only [Function.update_self]
    exact hsession

variable (unexpected display a) in
/-- A step, unless it draws an id for a question that is already in the registry. -/
def freshStep (s : Relay ι β H) (event : ι × SessionEvent) : Option (Relay ι β H) :=
  match event with
  | (i, .task id) =>
    if asks unexpected (s.sessions i) && (s.registry.lookup id).isSome then none
    else step unexpected display a s (i, .task id)
  | event => step unexpected display a s event

theorem freshStep_some (hstep : freshStep unexpected display a s event = some s') :
    Fresh unexpected s event ∧ step unexpected display a s event = some s' := by
  obtain ⟨i, event⟩ := event
  cases event with
  | task id =>
      have hstep : (if asks unexpected (s.sessions i) && (s.registry.lookup id).isSome then none
        else step unexpected display a s (i, .task id)) = some s' := hstep
      split at hstep
      · cases hstep
      · next hclash =>
          refine ⟨fun hasks => ?_, hstep⟩
          simpa [hasks] using hclash
  | resolve => exact ⟨trivial, hstep⟩
  | client => exact ⟨trivial, hstep⟩
  | hangUp => exact ⟨trivial, hstep⟩

theorem freshStep_spec (hs : s.Inv) (hstep : freshStep unexpected display a s event = some s') :
    s'.Inv ∧ Only event.1 s s' ∧
      Session.step unexpected display (a event.1) (s.sessions event.1) event.2 =
        some (s'.sessions event.1) := by
  obtain ⟨hfresh, hstep⟩ := freshStep_some hstep
  exact step_spec hs hfresh hstep

/-- As long as no id is drawn that is in use, each session goes on as if it were alone. -/
theorem run_of_relay (programs : ι → Program (Except IoError β)) (h : ι → H)
    {events : List (ι × SessionEvent)}
    (hrun : Machine.run (freshStep unexpected display a) events (start programs h) = some s)
    (i : ι) :
    Machine.run (Session.step unexpected display (a i))
      (events.filterMap fun event => if event.1 = i then some event.2 else none)
      (.start (programs i) (h i)) = some (s.sessions i) := by
  refine Machine.run_of_part (fun s : Relay ι β H => s.sessions i)
    (fun event => if event.1 = i then some event.2 else none) (I := Inv) (C := fun _ _ => True) ?_
    (inv_start programs h) (Machine.meeting_of_always (fun _ _ _ => trivial) _) hrun
  intro s event s' hs _ hstep
  obtain ⟨hs', honly, hsession⟩ := freshStep_spec hs hstep
  refine ⟨hs', fun e' he' => ?_, fun hnone => ?_⟩
  · split at he'
    · next heq =>
        cases he'
        subst heq
        exact hsession
    · cases he'
  · split at hnone
    · cases hnone
    · next hne => exact honly i fun heq => hne heq.symm

section

variable (expected : ι → Option (Except IoError β × H))

variable (unexpected display a) in
/-- How far the sessions are, and that the registry holds the tasks that wait and no others. -/
structure Stages (s : Relay ι β H) : Prop where
  inv : s.Inv
  stage : ∀ i, Session.Stage unexpected display (a i) (expected i) (s.sessions i)
  waiting : ∀ i id, s.registry.lookup id = some i → ∃ next, (s.sessions i).task = .waiting id next

variable {expected}

/-- A connected task that asks waits for the response. -/
theorem waits_of_asks {session session' : Session β H} {id : ManagerAuthenticationId}
    (hstep : Session.stepTask unexpected display session id = some session')
    (hasks : asks unexpected session = true) (hconnected : session.connected = true) :
    ∃ next, session'.task = .waiting id next := by
  obtain ⟨p, htask, ⟨result, rfl, rfl⟩ | ⟨msg, next, hcall, -, rfl⟩ |
    ⟨msg, next, e, hcall, hnot, rfl⟩ | ⟨msg, next, r, hcall, -, rfl⟩⟩ := Session.stepTask_some hstep
  · simp [asks, htask, Program.call] at hasks
  · exact ⟨next, rfl⟩
  · rw [hconnected] at hnot
    cases hnot
  · simp [asks, htask, hcall] at hasks

omit [DecidableEq ι] in
/-- The registry holds the session only for what its task waits for. -/
theorem waits_of_lookup (hs : Stages unexpected display a expected s) {i : ι} {event : SessionEvent}
    {session : Session β H} (hevent : event ≠ .hangUp)
    (hsession : Session.step unexpected display (a i) (s.sessions i) event = some session)
    {id : ManagerAuthenticationId}
    (hlookup : (registryAfter unexpected s (i, event)).lookup id = some i) :
    ∃ next, session.task = .waiting id next := by
  cases event with
  | task drawn =>
      obtain ⟨p, htask, -⟩ := Session.stepTask_some hsession
      cases hasks : asks unexpected (s.sessions i) with
      | false =>
          rw [registryAfter_quiet hasks] at hlookup
          obtain ⟨next, hwaiting⟩ := hs.waiting i id hlookup
          rw [htask] at hwaiting
          cases hwaiting
      | true =>
          rw [registryAfter_asks hasks] at hlookup
          by_cases hid : id = drawn
          · rw [hid]
            exact waits_of_asks hsession hasks (hs.stage i).connected
          · rw [AList.lookup_insert_ne hid] at hlookup
            obtain ⟨next, hwaiting⟩ := hs.waiting i id hlookup
            rw [htask] at hwaiting
            cases hwaiting
  | resolve =>
      obtain ⟨resolved, response, requests, hrequests, rfl⟩ := Session.resolve_some hsession
      obtain ⟨-, -, next', hwaiting'⟩ := (hs.inv.sound i).waits hrequests
      rw [registryAfter_resolve hrequests] at hlookup
      by_cases hid : id = resolved
      · rw [hid, AList.lookup_erase] at hlookup
        cases hlookup
      · rw [AList.lookup_erase_ne hid] at hlookup
        obtain ⟨next, hwaiting⟩ := hs.waiting i id hlookup
        rw [hwaiting'] at hwaiting
        cases hwaiting
        exact absurd rfl hid
  | client =>
      obtain ⟨next, hwaiting⟩ := hs.waiting i id hlookup
      exact ⟨next, (Session.task_of_stepClient hsession).trans hwaiting⟩
  | hangUp => exact absurd rfl hevent

theorem Stages.step (hs : Stages unexpected display a expected s) (hevent : event.2 ≠ .hangUp)
    (hstep : freshStep unexpected display a s event = some s') :
    Stages unexpected display a expected s' := by
  obtain ⟨hfresh, hstep⟩ := freshStep_some hstep
  obtain ⟨hinv, honly, hsession⟩ := step_spec hs.inv hfresh hstep
  obtain ⟨session, -, rfl⟩ := step_eq hs.inv hfresh hstep
  refine ⟨hinv, fun j => ?_, fun j id hlookup => ?_⟩
  · by_cases hj : j = event.1
    · rw [hj]
      exact (hs.stage event.1).step hevent hsession
    · rw [honly j hj]
      exact hs.stage j
  · by_cases hj : j = event.1
    · subst hj
      exact waits_of_lookup hs hevent hsession hlookup
    · rw [honly j hj]
      exact hs.waiting j id ((lookup_registryAfter hs.inv hfresh hj).mp hlookup)

variable (unexpected display) in
theorem moves_client {i : ι} {session : Session β H}
    (hsession : Session.stepClient (a i) (s.sessions i) = some session) :
    ∃ s', freshStep unexpected display a s (i, .client) = some s' :=
  ⟨s.set i session, Option.map_eq_some_iff.mpr ⟨session, hsession, rfl⟩⟩

variable (unexpected display a) in
theorem moves_resolve {i : ι} (hrequests : (s.sessions i).requests ≠ []) :
    ∃ s', freshStep unexpected display a s (i, .resolve) = some s' := by
  show ∃ s', (match (s.sessions i).requests with
    | [] => none
    | (id, response) :: requests =>
      some ((s.set i { s.sessions i with requests }).resolve id response)) = some s'
  split
  · next h => exact absurd h hrequests
  · exact ⟨_, rfl⟩

variable (unexpected display a) in
theorem moves_task {i : ι} {id : ManagerAuthenticationId} {p : Program (Except IoError β)}
    (htask : (s.sessions i).task = .running p) (hid : s.registry.lookup id = none) :
    ∃ s', freshStep unexpected display a s (i, .task id) = some s' := by
  obtain ⟨session, hsession⟩ := Session.exists_stepTask unexpected display htask id
  have hsame : (if asks unexpected (s.sessions i) then s.insert id i else s).sessions i =
      s.sessions i := by
    split
    · unfold insert
      rw [hid]
    · rfl
  refine ⟨set (if asks unexpected (s.sessions i) then s.insert id i else s) i session, ?_⟩
  show (if asks unexpected (s.sessions i) && (s.registry.lookup id).isSome then none
    else step unexpected display a s (i, .task id)) = _
  rw [hid, Option.isSome_none, Bool.and_false, if_neg Bool.false_ne_true]
  refine Option.map_eq_some_iff.mpr ⟨session, ?_, rfl⟩
  rw [hsame]
  exact hsession

/-- One of the sessions can go on, if there is an id left or one of them can go on without. -/
theorem Stages.moves (hs : Stages unexpected display a expected s)
    (hsettled : ¬ ∀ i, (s.sessions i).Settled)
    (hroom : (∃ id, s.registry.lookup id = none) ∨
      ∃ i, ¬ (s.sessions i).Settled ∧ ∀ p, (s.sessions i).task ≠ .running p) :
    ∃ event s', event.2 ≠ .hangUp ∧ freshStep unexpected display a s event = some s' := by
  have hmoves : ∃ i, ¬ (s.sessions i).Settled ∧
      ((∃ id, s.registry.lookup id = none) ∨ ∀ p, (s.sessions i).task ≠ .running p) := by
    rcases hroom with hid | ⟨i, hi, hrunning⟩
    · obtain ⟨i, hi⟩ := not_forall.mp hsettled
      exact ⟨i, hi, .inl hid⟩
    · exact ⟨i, hi, .inr hrunning⟩
  obtain ⟨i, hi, hroom⟩ := hmoves
  rcases (hs.stage i).moves hi with ⟨session, hsession⟩ | hrequests | ⟨p, htask⟩
  · obtain ⟨s', hs'⟩ := moves_client unexpected display hsession
    exact ⟨(i, .client), s', by simp, hs'⟩
  · obtain ⟨s', hs'⟩ := moves_resolve unexpected display a hrequests
    exact ⟨(i, .resolve), s', by simp, hs'⟩
  · rcases hroom with ⟨id, hid⟩ | hrunning
    · obtain ⟨s', hs'⟩ := moves_task unexpected display a htask hid
      exact ⟨(i, .task id), s', by simp, hs'⟩
    · exact absurd htask (hrunning p)

theorem Stages.inevitable [Finite ι] (hs : Stages unexpected display a expected s)
    (hroom : ∀ s, Stages unexpected display a expected s → (∀ id, s.registry.lookup id ≠ none) →
      ∃ i, ¬ (s.sessions i).Settled ∧ ∀ p, (s.sessions i).task ≠ .running p) :
    Machine.Inevitable (freshStep unexpected display a) (fun event => event.2 ≠ .hangUp)
      (fun s => Stages unexpected display a expected s ∧ ∀ i, (s.sessions i).Settled) s := by
  refine Machine.inevitable_of_parts (I := Stages unexpected display a expected)
    (Prod.lex ⟨Conversation.Before unexpected, Conversation.wellFounded_before unexpected⟩
      Nat.lt_wfRel).wf
    (fun s i => (Session.phase (s.sessions i).task, Session.rank (s.sessions i)))
    (fun s hs hnot => ?_) (fun s event s' hs _ hevent hstep => ?_) hs
  · have hsettled : ¬ ∀ i, (s.sessions i).Settled := fun h => hnot ⟨hs, h⟩
    obtain ⟨event, s', hevent, hstep⟩ := hs.moves hsettled (by
      by_cases hid : ∃ id, s.registry.lookup id = none
      · exact .inl hid
      · exact .inr (hroom s hs (not_exists.mp hid)))
    exact ⟨event, s', hevent, hstep⟩
  · refine ⟨hs.step hevent hstep, event.1, ?_⟩
    obtain ⟨hfresh, hstep⟩ := freshStep_some hstep
    obtain ⟨-, honly, hsession⟩ := step_spec hs.inv hfresh hstep
    exact ⟨Session.step_lt hsession, fun j hj => by rw [honly j hj]⟩

omit [DecidableEq ι] in
theorem stages_start {programs : ι → Program (Except IoError β)} {h : ι → H}
    (hexpected : ∀ i, ∀ x ∈ expected i,
      (programs i).converse unexpected (a i).managerReact (h i) = some x) :
    Stages unexpected display a expected (start programs h) :=
  ⟨inv_start programs h,
    fun i => .starting (hexpected i),
    fun i id hlookup => (by cases hlookup)⟩

end

/-- As long as no id is drawn that is in use and no connection is lost, all clients return, and all
tasks but those whose client has given up. -/
theorem settles [Fintype ι] (hcard : Fintype.card ι < 2 ^ 32)
    (programs : ι → Program (Except IoError β)) (h : ι → H) :
    Machine.Inevitable (freshStep unexpected display a) (fun event => event.2 ≠ .hangUp)
      (fun s => ∀ i, (s.sessions i).Settled) (start programs h) := by
  have hstart : Stages unexpected display a (fun _ => none) (start programs h) :=
    stages_start fun i x hx => (by cases hx)
  refine (hstart.inevitable fun s hs hfull => ?_).mono fun s hs => hs.2
  -- the ids cannot all be in use, as each is in use by another session
  have hused : ∀ id, ∃ i, s.registry.lookup id = some i := fun id =>
    Option.ne_none_iff_exists'.mp (hfull id)
  choose user huser using hused
  have hinjective : Function.Injective user := by
    intro id id' hid
    obtain ⟨next, hwaiting⟩ := hs.waiting _ id (huser id)
    obtain ⟨next', hwaiting'⟩ := hs.waiting _ id' (huser id')
    rw [hid, hwaiting'] at hwaiting
    cases hwaiting
    rfl
  have hinjective' : Function.Injective fun n : Fin UInt32.size => user (.ofFin n) :=
    fun n n' hn => congrArg UInt32.toFin (hinjective hn)
  have hle := Fintype.card_le_of_injective _ hinjective'
  rw [Fintype.card_fin] at hle
  exact absurd hcard (Nat.not_lt.mpr hle)

/-- As long as no id is drawn that is in use and no connection is lost, all requests come to the end
that there is when each question is answered on the spot, and nothing is left in the registry. -/
theorem ends_through_manager [Finite ι] {programs : ι → Program (Except IoError β)} {h h' : ι → H}
    {result : ι → Except IoError β}
    (hconverse : ∀ i, (programs i).converse unexpected (a i).managerReact (h i) =
      some (result i, h' i)) :
    Machine.Inevitable (freshStep unexpected display a) (fun event => event.2 ≠ .hangUp)
      (fun s => (∀ i, (s.sessions i).task = .replied (result i) ∧
        (s.sessions i).returned = some (Session.verdict display (result i)) ∧
        (s.sessions i).handler = h' i) ∧ ∀ id, s.registry.lookup id = none)
      (start programs h) := by
  have hstart : Stages unexpected display a (fun i => some (result i, h' i))
      (start programs h) := by
    refine stages_start fun i x hx => ?_
    cases hx
    exact hconverse i
  refine (hstart.inevitable fun s hs hfull => ?_).mono fun s hs => ?_
  · -- whoever uses an id waits, and is not settled
    obtain ⟨i, hlookup⟩ := Option.ne_none_iff_exists'.mp (hfull 0)
    obtain ⟨next, hwaiting⟩ := hs.waiting i 0 hlookup
    refine ⟨i, fun hsettled => ?_, fun p htask => ?_⟩
    · have hover := (hs.stage i).eq_of_settled hsettled
      rw [hover] at hwaiting
      cases hwaiting
    · rw [hwaiting] at htask
      cases htask
  · obtain ⟨hstages, hsettled⟩ := hs
    have hover := fun i => (hstages.stage i).eq_of_settled (hsettled i)
    refine ⟨fun i => ?_, fun id => ?_⟩
    · rw [hover i]
      exact ⟨rfl, rfl, rfl⟩
    · refine Option.eq_none_iff_forall_ne_some.mpr fun i hlookup => ?_
      obtain ⟨next, hwaiting⟩ := hstages.waiting i id hlookup
      rw [hover i] at hwaiting
      cases hwaiting

/-- A plugin that asks for a key. -/
def keyProgram : Program (Except IoError Nat) :=
  .challenge ⟨[⟨"key", "Provide a key: ", ∅⟩], ∅⟩ fun
    | .ok ["secret"] => .ret (.ok 1)
    | .ok _ => .ret (.error (.new .permissionDenied "answer does not match key"))
    | .error e => .ret (.error e)

/-- Two clients, of which only the first has the key. -/
def twoClients (i : Fin 2) : AuthHandler Unit :=
  singleAuthHandler (staticKeyHandler (if i = 0 then "secret" else "guess"))

/-- Two requests, of which the second is answered first. -/
def twoTurns : List (Fin 2 × SessionEvent) :=
  [(0, .task 7), (1, .task 8), (1, .client), (0, .client), (1, .resolve), (0, .resolve)]

theorem run_of_relay_two :
    ∃ s, Machine.run (freshStep (fun _ => .ofKind .other) (fun _ => "") twoClients) twoTurns
        (start (fun _ => keyProgram) fun _ => ()) = some s ∧
      Machine.run (Session.step (fun _ => .ofKind .other) (fun _ => "") (twoClients 0))
        [.task 7, .client, .resolve] (.start keyProgram ()) = some (s.sessions 0) := by
  have hsome : (Machine.run (freshStep (fun _ => .ofKind .other) (fun _ => "") twoClients) twoTurns
      (start (fun _ => keyProgram) fun _ => ())).isSome := rfl
  obtain ⟨s, hs⟩ := Option.isSome_iff_exists.mp hsome
  exact ⟨s, hs, run_of_relay _ _ hs 0⟩

/-- Both requests come to their end, the one with a connection and the other with an error. -/
theorem ends_through_manager_two :
    Machine.Inevitable (freshStep (fun _ => .ofKind .other) (fun _ => "denied") twoClients)
      (fun event => event.2 ≠ .hangUp)
      (fun s => (∀ i, (s.sessions i).task = .replied (if i = 0 then .ok 1 else
          .error (.new .permissionDenied "answer does not match key")) ∧
        (s.sessions i).returned =
          some (Session.verdict (fun _ => "denied") (if i = 0 then .ok 1 else
          .error (.new .permissionDenied "answer does not match key"))) ∧
        (s.sessions i).handler = ()) ∧ ∀ id, s.registry.lookup id = none)
      (start (fun _ => keyProgram) fun _ => ()) := by
  have hconverse : ∀ i,
      keyProgram.converse (fun _ => .ofKind .other) (twoClients i).managerReact () =
      some (if i = 0 then .ok 1
        else .error (.new .permissionDenied "answer does not match key"), ()) := by
    intro i
    match i with
    | 0 => rfl
    | 1 => rfl
  exact ends_through_manager hconverse

/-- `DummyAuthHandler`. -/
def dummyAuthHandler : AuthHandler Unit :=
  singleAuthHandler
    { onChallenge := fun _ h => (.error (.ofKind .unsupported), h)
      onVerification := fun _ h => (.error (.ofKind .unsupported), h)
      onInfo := fun _ h => (.error (.ofKind .unsupported), h)
      onError := fun _ h => (.error (.ofKind .unsupported), h) }

theorem settles_dummy :
    Machine.Inevitable
      (freshStep (fun _ => .ofKind .other) (fun _ => "") fun _ : Fin 2 => dummyAuthHandler)
      (fun event => event.2 ≠ .hangUp) (fun s => ∀ i, (s.sessions i).Settled)
      (start (fun _ => keyProgram) fun _ => ()) :=
  settles (by simp) (fun _ => keyProgram) fun _ => ()

/-- The relay of a client that cannot answer, and then loses its connection. -/
abbrev dummyRun (events : List (Fin 1 × SessionEvent)) :
    Relay (Fin 1) Nat Unit → Option (Relay (Fin 1) Nat Unit) :=
  Machine.run (freshStep (fun _ => .ofKind .other) (fun _ => "") fun _ => dummyAuthHandler) events

end Relay

end Auth

end Distant
