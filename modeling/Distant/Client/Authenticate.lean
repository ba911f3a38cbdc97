import Distant.Lib.Machine
import Distant.Server.Auth

/-!
# Both sides of the authentication

`authenticate` is what the client does while the server verifies it. It takes one message after the
other, lets a handler answer those that ask something, and returns with `Finished`, with a fatal
error, or with the first error of the handler. The server is a program over an authenticator, as the
verifier is (`verify_eq_run`). What one of them writes gets to the other, until that one has left.

`ends_together` says that both come to an end, in whatever order they go on, and that the client
believes to be let in only if it is. `ends_as_answered` says that where the handler does not fail,
the server ends as the program does when each of its questions is answered on the spot, and
`admits_iff` that the static key lets in exactly those who have it.
-/

namespace Distant

namespace Auth

/-- What the client does with the messages of a method. -/
structure AuthMethodHandler (H : Type) where
  onChallenge : Challenge → H → Except IoError (List String) × H
  onVerification : Verification → H → Except IoError Bool × H
  onInfo : String → H → Except IoError Unit × H
  onError : Error → H → Except IoError Unit × H

/-- What the client does with all messages. -/
structure AuthHandler (H : Type) extends AuthMethodHandler H where
  onInitialization : List String → H → Except IoError (List String) × H
  onStartMethod : String → H → Except IoError Unit × H
  onFinished : H → Except IoError Unit × H

/-- The same handler for all methods, with the default callbacks. -/
def singleAuthHandler {H : Type} (handler : AuthMethodHandler H) : AuthHandler H where
  toAuthMethodHandler := handler
  onInitialization methods h := (.ok methods, h)
  onStartMethod _ h := (.ok (), h)
  onFinished h := (.ok (), h)

/-- Answers to questions about a key, of which `text` is the display. -/
def keyAnswers (text : String) : List Question → Except IoError (List String)
  | [] => .ok []
  | question :: questions =>
    if question.label ≠ "key" then .error (.new .invalidInput "Only 'key' challenges are supported")
    else (keyAnswers text questions).map (text :: ·)

/-- `StaticKeyAuthMethodHandler::simple`. -/
def staticKeyHandler (text : String) : AuthMethodHandler Unit where
  onChallenge asked h := (keyAnswers text asked.questions, h)
  onVerification _ h := (.ok true, h)
  onInfo _ h := (.ok (), h)
  onError _ h := (.ok (), h)

/-- A handler for each method, and the id of the method that has been started. -/
structure AuthHandlerMap (H : Type) where
  active : String
  handler : H

namespace AuthHandlerMap

variable {H : Type} (map : HashMap String (AuthMethodHandler H))

/-- A callback of the handler for the active method. -/
def onActive {T : Type} (callback : AuthMethodHandler H → H → Except IoError T × H)
    (h : AuthHandlerMap H) : Except IoError T × AuthHandlerMap H :=
  match map.lookup h.active with
  | none => (.error (.new .other s!"No active handler for {h.active}"), h)
  | some handler => (callback handler h.handler).map id ({ h with handler := · })

end AuthHandlerMap

open AuthHandlerMap in
def authHandlerMap {H : Type} (map : HashMap String (AuthMethodHandler H)) :
    AuthHandler (AuthHandlerMap H) where
  onInitialization methods h := (.ok (methods.filter fun method => (map.lookup method).isSome), h)
  onStartMethod method h := (.ok (), { h with active := method })
  onFinished h := (.ok (), h)
  onChallenge asked := onActive map fun handler => handler.onChallenge asked
  onVerification asked := onActive map fun handler => handler.onVerification asked
  onInfo text := onActive map fun handler => handler.onInfo text
  onError error := onActive map fun handler => handler.onError error

/-- `AuthHandlerMap::with_static_key` on an empty map. -/
def withStaticKey (text : String) : HashMap String (AuthMethodHandler Unit) :=
  AList.insert "static_key" (staticKeyHandler text) ∅

/-- How `authenticate` goes on after a message. -/
inductive Reaction where
  | answers (response : AuthenticationResponse)
  | goesOn
  | returns (result : Except IoError Unit)

namespace Reaction

/-- The handler has answered a question, or failed. -/
def ofAnswer {T : Type} (wrap : T → AuthenticationResponse) : Except IoError T → Reaction
  | .ok answer => .answers (wrap answer)
  | .error e => .returns (.error e)

/-- The handler has been told something, or failed. -/
def ofNotice : Except IoError Unit → Reaction
  | .ok () => .goesOn
  | .error e => .returns (.error e)

/-- The handler has been told of an error, or failed. -/
def ofError (error : Error) : Except IoError Unit → Reaction
  | .ok () =>
    if error.kind = .fatal then .returns (.error error.intoIoPermissionDenied) else .goesOn
  | .error e => .returns (.error e)

end Reaction

/-- One turn of the loop in `authenticate`, after a message has been read. -/
def AuthHandler.react {H : Type} (a : AuthHandler H) (h : H) : Authentication → Reaction × H
  | .initialization methods =>
    (a.onInitialization methods h).map (.ofAnswer .initialization) id
  | .challenge asked => (a.onChallenge asked h).map (.ofAnswer .challenge) id
  | .verification asked => (a.onVerification asked h).map (.ofAnswer .verification) id
  | .info text => (a.onInfo text h).map .ofNotice id
  | .startMethod method => (a.onStartMethod method h).map .ofNotice id
  | .error error => (a.onError error h).map (.ofError error) id
  | .finished => (a.onFinished h).map .returns id

/-! ## The server, one message at a time -/

section

variable (unexpected : AuthenticationResponse → IoError)

def methodsOf : Except IoError AuthenticationResponse → Except IoError (List String)
  | .ok (.initialization methods) => .ok methods
  | .ok response => .error (unexpected response)
  | .error e => .error e

def answersOf : Except IoError AuthenticationResponse → Except IoError (List String)
  | .ok (.challenge answers) => .ok answers
  | .ok response => .error (unexpected response)
  | .error e => .error e

def validOf : Except IoError AuthenticationResponse → Except IoError Bool
  | .ok (.verification valid) => .ok valid
  | .ok response => .error (unexpected response)
  | .error e => .error e

/-- What a program does first: nothing any more, or it writes a message that asks or tells
something. -/
inductive Call (α : Type) where
  | returned (a : α)
  | asks (msg : Authentication) (next : Except IoError AuthenticationResponse → Program α)
  | tells (msg : Authentication) (next : Except IoError Unit → Program α)

def Program.call {α : Type} : Program α → Call α
  | .ret a => .returned a
  | .initiate methods next => .asks (.initialization methods) fun r => next (methodsOf unexpected r)
  | .challenge asked next => .asks (.challenge asked) fun r => next (answersOf unexpected r)
  | .verify verification next => .asks (.verification verification) fun r =>
      next (validOf unexpected r)
  | .notify notice next => .tells notice.message next

end

section

variable (format : Format)

/-- The calls of a program over a link are those that it does one at a time. -/
theorem run_eq_call {α : Type} (program : Program α) (link : Link) :
    program.run format link =
      match program.call (Link.unexpected format) with
      | .returned a => (a, link)
      | .asks msg next => (next (link.ask format msg).1).run format (link.ask format msg).2
      | .tells msg next => (next (link.writeFrame msg).1).run format (link.writeFrame msg).2 := by
  cases program with
  | ret a => rfl
  | notify notice next => rfl
  | initiate methods next =>
      have hfst : (link.initiate format methods).1 =
          methodsOf (Link.unexpected format) (link.ask format (.initialization methods)).1 := by
        unfold Link.initiate methodsOf
        split <;> simp only [*]
      show (next (link.initiate format methods).1).run format (link.initiate format methods).2 = _
      rw [hfst, snd_initiate]
      rfl
  | challenge asked next =>
      have hfst : (link.challenge format asked).1 =
          answersOf (Link.unexpected format) (link.ask format (.challenge asked)).1 := by
        unfold Link.challenge answersOf
        split <;> simp only [*]
      show (next (link.challenge format asked).1).run format (link.challenge format asked).2 = _
      rw [hfst, snd_challenge]
      rfl
  | verify verification next =>
      have hfst : (link.verify format verification).1 =
          validOf (Link.unexpected format) (link.ask format (.verification verification)).1 := by
        unfold Link.verify validOf
        split <;> simp only [*]
      show (next (link.verify format verification).1).run format
        (link.verify format verification).2 = _
      rw [hfst, snd_verify]
      rfl

/-- The server takes one part after the other of the program. -/
def Program.bind {α γ : Type} : Program α → (α → Program γ) → Program γ
  | .ret a, f => f a
  | .initiate methods next, f => .initiate methods fun r => (next r).bind f
  | .challenge asked next, f => .challenge asked fun r => (next r).bind f
  | .verify verification next, f => .verify verification fun r => (next r).bind f
  | .notify notice next, f => .notify notice fun r => (next r).bind f

namespace Verifier

/-- `tryMethods`, as a program. -/
def tries (v : Verifier) : List String → Program (Except IoError String)
  | [] => .ret (.error noneSucceeded)
  | name :: names =>
    match v.methods.lookup name with
    | none => tries v names
    | some method =>
      .notify (.startMethod method.id) fun
        | .error e => .ret (.error e)
        | .ok () => method.authenticate.bind fun
          | .error _ => tries v names
          | .ok () => .notify .finished fun
            | .error e => .ret (.error e)
            | .ok () => .ret (.ok method.id)

/-- `verify`, as a program. -/
def program (v : Verifier) : Program (Except IoError String) :=
  .initiate v.methods.keys fun
    | .error e => .ret (.error e)
    | .ok names => v.tries names

end Verifier

/-- The links will return the same. -/
def Link.Alike (link link' : Link) : Prop := link.reads = link'.reads ∧ link.writes = link'.writes

section

variable {link link' : Link}

theorem alike_writeFrame (msg : Authentication) (h : link.Alike link') :
    (link.writeFrame msg).1 = (link'.writeFrame msg).1 ∧
      (link.writeFrame msg).2.Alike (link'.writeFrame msg).2 := by
  obtain ⟨reads, writes, log⟩ := link
  obtain ⟨reads', writes', log'⟩ := link'
  obtain ⟨rfl, rfl⟩ := h
  match writes with
  | [] => exact ⟨rfl, rfl, rfl⟩
  | .ok () :: writes => exact ⟨rfl, rfl, rfl⟩
  | .error e :: writes => exact ⟨rfl, rfl, rfl⟩

theorem alike_nextFrame (h : link.Alike link') :
    (link.nextFrame format).1 = (link'.nextFrame format).1 ∧
      (link.nextFrame format).2.Alike (link'.nextFrame format).2 := by
  obtain ⟨reads, writes, log⟩ := link
  obtain ⟨reads', writes', log'⟩ := link'
  obtain ⟨rfl, rfl⟩ := h
  match reads with
  | [] => exact ⟨rfl, rfl, rfl⟩
  | .ok none :: reads => exact ⟨rfl, rfl, rfl⟩
  | .error e :: reads => exact ⟨rfl, rfl, rfl⟩
  | .ok (some item) :: reads => exact ⟨rfl, rfl, rfl⟩

theorem alike_ask (msg : Authentication) (h : link.Alike link') :
    (link.ask format msg).1 = (link'.ask format msg).1 ∧
      (link.ask format msg).2.Alike (link'.ask format msg).2 := by
  obtain ⟨hfst, hsnd⟩ := alike_writeFrame msg h
  unfold Link.ask
  cases hwrite : link.writeFrame msg with
  | mk result link₁ =>
      cases hwrite' : link'.writeFrame msg with
      | mk result' link₁' =>
          rw [hwrite, hwrite'] at hfst hsnd
          obtain rfl : result = result' := hfst
          cases result with
          | error e => exact ⟨rfl, hsnd⟩
          | ok => exact alike_nextFrame format hsnd

/-- A program does the same over links that will return the same. -/
theorem alike_run {α : Type} (p : Program α) (h : link.Alike link') :
    (p.run format link).1 = (p.run format link').1 ∧
      (p.run format link).2.Alike (p.run format link').2 := by
  induction p generalizing link link' with
  | ret a => exact ⟨rfl, h⟩
  | initiate methods next ih =>
      obtain ⟨hfst, hsnd⟩ := alike_ask format (.initialization methods) h
      rw [run_eq_call, run_eq_call format _ link']
      simp only [Program.call, hfst]
      exact ih _ hsnd
  | challenge asked next ih =>
      obtain ⟨hfst, hsnd⟩ := alike_ask format (.challenge asked) h
      rw [run_eq_call, run_eq_call format _ link']
      simp only [Program.call, hfst]
      exact ih _ hsnd
  | verify verification next ih =>
      obtain ⟨hfst, hsnd⟩ := alike_ask format (.verification verification) h
      rw [run_eq_call, run_eq_call format _ link']
      simp only [Program.call, hfst]
      exact ih _ hsnd
  | notify notice next ih =>
      obtain ⟨hfst, hsnd⟩ := alike_writeFrame notice.message h
      rw [run_eq_call, run_eq_call format _ link']
      simp only [Program.call, hfst]
      exact ih _ hsnd

theorem run_bind {α γ : Type} (p : Program α) (f : α → Program γ) (link : Link) :
    (p.bind f).run format link = (f (p.run format link).1).run format (p.run format link).2 := by
  induction p generalizing link with
  | ret a => rfl
  | initiate methods next ih => exact ih _ _
  | challenge asked next ih => exact ih _ _
  | verify verification next ih => exact ih _ _
  | notify notice next ih => exact ih _ _

namespace Verifier

theorem tries_eq_run (v : Verifier) (names : List String) (h : link.Alike link') :
    ((v.tries names).run format link).1 = (v.tryMethods format names link').1 := by
  induction names generalizing link link' with
  | nil => rfl
  | cons name names ih =>
      unfold tries tryMethods
      cases v.methods.lookup name with
      | none => exact ih h
      | some method =>
          simp only
          obtain ⟨hfst, hsnd⟩ := alike_writeFrame (.startMethod method.id) h
          rw [run_eq_call]
          simp only [Program.call, Notice.message]
          generalize link.writeFrame (.startMethod method.id) = written at hfst hsnd ⊢
          generalize link'.writeFrame (.startMethod method.id) = written' at hfst hsnd ⊢
          obtain ⟨result, link₁⟩ := written
          obtain ⟨result', link₁'⟩ := written'
          obtain rfl : result = result' := hfst
          cases result with
          | error e => rfl
          | ok =>
              simp only
              obtain ⟨hfst, hsnd⟩ := alike_run format method.authenticate hsnd
              rw [run_bind]
              generalize method.authenticate.run format link₁ = ran at hfst hsnd ⊢
              generalize method.authenticate.run format link₁' = ran' at hfst hsnd ⊢
              obtain ⟨result, link₂⟩ := ran
              obtain ⟨result', link₂'⟩ := ran'
              obtain rfl : result = result' := hfst
              cases result with
              | error e => exact ih hsnd
              | ok =>
                  simp only
                  have hnoted : link₂.Alike (link₂'.note (.returned method.id true)) := hsnd
                  obtain ⟨hfst, -⟩ := alike_writeFrame .finished hnoted
                  rw [run_eq_call]
                  simp only [Program.call, Notice.message]
                  generalize link₂.writeFrame .finished = finished at hfst ⊢
                  generalize (link₂'.note (.returned method.id true)).writeFrame .finished =
                    finished' at hfst ⊢
                  obtain ⟨result, link₃⟩ := finished
                  obtain ⟨result', link₃'⟩ := finished'
                  obtain rfl : result = result' := hfst
                  cases result with
                  | error e => rfl
                  | ok => rfl

/-- The verifier is its program, over whatever link. -/
theorem verify_eq_run (v : Verifier) (link : Link) :
    (v.verify format link).1 = (v.program.run format link).1 := by
  have hrun : v.program.run format link =
      (match (link.initiate format v.methods.keys).1 with
        | .error e => .ret (.error e)
        | .ok names => v.tries names : Program (Except IoError String)).run format
        (link.initiate format v.methods.keys).2 := rfl
  rw [hrun]
  unfold verify
  generalize link.initiate format v.methods.keys = initiated
  obtain ⟨result, link⟩ := initiated
  cases result with
  | error e => rfl
  | ok names => exact (tries_eq_run format v names ⟨rfl, rfl⟩).symm

end Verifier

end

end

/-! ## The conversation -/

section

variable (unexpected : AuthenticationResponse → IoError)

/-- The server, either about to go on or waiting for the response to a question. -/
inductive ServerPhase (β : Type) where
  | running (program : Program (Except IoError β))
  | reading (next : Except IoError AuthenticationResponse → Program (Except IoError β))

/-- The server with its client, and what is on the way between them. -/
structure Conversation (β H : Type) where
  server : ServerPhase β
  toClient : List Authentication
  toServer : List AuthenticationResponse
  handler : H
  /-- what `authenticate` has returned -/
  returned : Option (Except IoError Unit)

inductive ConversationEvent where
  /-- the server goes on; with a failure, what it reads or writes fails -/
  | server (failure : Option IoError)
  /-- the client goes on; with a failure, what it reads fails -/
  | client (failure : Option IoError)

namespace Conversation

variable {β H : Type}

def start (program : Program (Except IoError β)) (h : H) : Conversation β H :=
  ⟨.running program, [], [], h, none⟩

/-- The client has given up, and its transport is gone. -/
def clientLeft (s : Conversation β H) : Bool :=
  match s.returned with
  | some (.error _) => true
  | _ => false

/-- The server has given up, and its transport is gone. -/
def serverLeft (s : Conversation β H) : Bool :=
  match s.server with
  | .running (.ret (.error _)) => true
  | _ => false

def run (s : Conversation β H) (program : Program (Except IoError β)) : Conversation β H :=
  { s with server := .running program }

/-- A transport may fail once the other side has left. -/
def stepServer (s : Conversation β H) (failure : Option IoError) : Option (Conversation β H) :=
  match s.server with
  | .running program =>
    match program.call unexpected, failure with
    | .returned _, _ => none
    | .asks msg next, none => some
        { s with server := .reading next, toClient := s.toClient ++ [msg] }
    | .asks _ next, some e => if s.clientLeft then some (s.run (next (.error e))) else none
    | .tells msg next, none =>
      some { s with server := .running (next (.ok ())), toClient := s.toClient ++ [msg] }
    | .tells _ next, some e => if s.clientLeft then some (s.run (next (.error e))) else none
  | .reading next =>
    match failure, s.toServer with
    | some e, _ => if s.clientLeft then some (s.run (next (.error e))) else none
    | none, response :: toServer => some ({ s with toServer := toServer }.run (next (.ok response)))
    | none, [] => if s.clientLeft then some (s.run (next (.error Link.closedEarly))) else none

def closedEarly : IoError := .new .unexpectedEof
  "Transport closed early waiting for frame of type Authentication"

variable (a : AuthHandler H)

/-- What the client writes is not lost: the server waits for it. -/
def stepClient (s : Conversation β H) (failure : Option IoError) : Option (Conversation β H) :=
  match s.returned, failure, s.toClient with
  | some _, _, _ => none
  | none, some e, _ => if s.serverLeft then some { s with returned := some (.error e) } else none
  | none, none, [] =>
    if s.serverLeft then some { s with returned := some (.error closedEarly) } else none
  | none, none, msg :: toClient =>
    match a.react s.handler msg with
    | (.answers response, h) =>
      some { s with toClient := toClient, toServer := s.toServer ++ [response], handler := h }
    | (.goesOn, h) => some { s with toClient := toClient, handler := h }
    | (.returns result, h) =>
      some { s with toClient := toClient, handler := h, returned := some result }

def step (s : Conversation β H) : ConversationEvent → Option (Conversation β H)
  | .server failure => stepServer unexpected s failure
  | .client failure => stepClient a s failure

end Conversation

/-! ## Programs that end the conversation well -/

/-- The message asks for a response. -/
def Authentication.isAsk : Authentication → Bool
  | .initialization _ | .challenge _ | .verification _ => true
  | _ => false

/-- The message only tells something, and more will come. -/
def Authentication.IsNotice (msg : Authentication) : Prop := msg.isAsk = false ∧ msg ≠ .finished

namespace Program

variable {α β : Type}

/-- `Finished` is the last message, and is sent before each success and no failure. -/
inductive Announces : Program (Except IoError β) → Prop where
  | fails (e : IoError) : Announces (.ret (.error e))
  | initiate (methods : List String)
      {next : Except IoError (List String) → Program (Except IoError β)}
      (h : ∀ r, Announces (next r)) : Announces (.initiate methods next)
  | challenge (asked : Challenge) {next : Except IoError (List String) → Program (Except IoError β)}
      (h : ∀ r, Announces (next r)) : Announces (.challenge asked next)
  | verify (verification : Verification) {next : Except IoError Bool → Program (Except IoError β)}
      (h : ∀ r, Announces (next r)) : Announces (.verify verification next)
  | tells {notice : Notice} {next : Except IoError Unit → Program (Except IoError β)}
      (hnotice : notice.message ≠ .finished) (h : ∀ r, Announces (next r)) :
      Announces (.notify notice next)
  | finished (b : β) {next : Except IoError Unit → Program (Except IoError β)}
      (hok : next (.ok ()) = .ret (.ok b))
      (herror : ∀ e, ∃ e', next (.error e) = .ret (.error e')) :
      Announces (.notify .finished next)

/-- The program never sends `Finished`. -/
inductive NeverFinishes : Program α → Prop where
  | ret (a : α) : NeverFinishes (.ret a)
  | initiate (methods : List String) {next : Except IoError (List String) → Program α}
      (h : ∀ r, NeverFinishes (next r)) : NeverFinishes (.initiate methods next)
  | challenge (asked : Challenge) {next : Except IoError (List String) → Program α}
      (h : ∀ r, NeverFinishes (next r)) : NeverFinishes (.challenge asked next)
  | verify (verification : Verification) {next : Except IoError Bool → Program α}
      (h : ∀ r, NeverFinishes (next r)) : NeverFinishes (.verify verification next)
  | tells {notice : Notice} {next : Except IoError Unit → Program α}
      (hnotice : notice.message ≠ .finished) (h : ∀ r, NeverFinishes (next r)) :
      NeverFinishes (.notify notice next)

theorem NeverFinishes.bind {p : Program α} {f : α → Program (Except IoError β)}
    (h : p.NeverFinishes) (hf : ∀ a, (f a).Announces) : (p.bind f).Announces := by
  induction h with
  | ret a => exact hf a
  | initiate methods _ ih => exact .initiate methods ih
  | challenge asked _ ih => exact .challenge asked ih
  | verify verification _ ih => exact .verify verification ih
  | tells hnotice _ ih => exact .tells hnotice ih

variable {msg : Authentication} {next : Except IoError AuthenticationResponse → Program α}
  {p : Program α}

theorem isAsk_of_call (h : p.call unexpected = .asks msg next) : msg.isAsk = true := by
  cases p <;> cases h <;> rfl

theorem Announces.asks {p : Program (Except IoError β)}
    {next : Except IoError AuthenticationResponse → Program (Except IoError β)} (hp : p.Announces)
    (h : p.call unexpected = .asks msg next) (r : Except IoError AuthenticationResponse) :
    (next r).Announces := by
  cases hp <;> cases h
  case initiate hnext => exact hnext _
  case challenge hnext => exact hnext _
  case verify hnext => exact hnext _

theorem isAsk_message (notice : Notice) : notice.message.isAsk = false := by cases notice <;> rfl

/-- What is told is told before the end, or is the end. -/
theorem Announces.told {p : Program (Except IoError β)}
    {next : Except IoError Unit → Program (Except IoError β)} (hp : p.Announces)
    (h : p.call unexpected = .tells msg next) :
    (msg.IsNotice ∧ ∀ r, (next r).Announces) ∨
      (msg = .finished ∧ (∃ b, next (.ok ()) = .ret (.ok b)) ∧
        ∀ e, ∃ e', next (.error e) = .ret (.error e')) := by
  cases hp <;> cases h
  case tells notice hnotice hnext => exact .inl ⟨⟨isAsk_message notice, hnotice⟩, hnext⟩
  case finished b hok herror => exact .inr ⟨rfl, ⟨b, hok⟩, herror⟩

end Program

namespace Verifier

variable {v : Verifier}

/-- No method sends `Finished` by itself. -/
def NeverFinishes (v : Verifier) : Prop :=
  ∀ name method, v.methods.lookup name = some method → method.authenticate.NeverFinishes

theorem announces_tries (hv : v.NeverFinishes) (names : List String) :
    (v.tries names).Announces := by
  induction names with
  | nil => exact .fails _
  | cons name names ih =>
      unfold tries
      split
      · exact ih
      · next method hmethod =>
          refine .tells (by simp [Notice.message]) fun r => ?_
          match r with
          | .error e => exact .fails e
          | .ok () =>
              refine (hv name method hmethod).bind fun r => ?_
              match r with
              | .error e => exact ih
              | .ok () => exact .finished method.id rfl fun e => ⟨e, rfl⟩

theorem announces_program (hv : v.NeverFinishes) : v.program.Announces := by
  refine .initiate _ fun r => ?_
  match r with
  | .error e => exact .fails e
  | .ok names => exact announces_tries hv names

end Verifier

/-! ## Handlers -/

/-- What becomes of the client with a message that asks nothing, unless it gives up. -/
def hear {H : Type} (react : H → Authentication → Reaction × H) (h : H) (msg : Authentication) :
    Option H :=
  match react h msg with
  | (.goesOn, h) | (.returns (.ok ()), h) => some h
  | _ => none

section

variable {H : Type} {react : H → Authentication → Reaction × H} {h h' h'' : H}
  {msg : Authentication}
  {told : List Authentication}

theorem hears_concat (htold : told.foldlM (hear react) h = some h')
    (hmsg : hear react h' msg = some h'') : (told ++ [msg]).foldlM (hear react) h = some h'' := by
  rw [List.foldlM_append, htold]
  show [msg].foldlM (hear react) h' = some h''
  rw [List.foldlM_cons, hmsg]
  rfl

theorem hears_cons (htold : (msg :: told).foldlM (hear react) h = some h') :
    hear react h msg = some (react h msg).2 ∧
      told.foldlM (hear react) (react h msg).2 = some h' := by
  rw [List.foldlM_cons] at htold
  obtain ⟨h₁, hmsg, hrest⟩ := Option.bind_eq_some_iff.mp htold
  have hstate : h₁ = (react h msg).2 := by
    unfold hear at hmsg
    split at hmsg <;> cases hmsg
    · next hreact => rw [hreact]
    · next hreact => rw [hreact]
  rw [← hstate]
  exact ⟨hmsg, hrest⟩

end

namespace AuthHandler

variable {H : Type} {a : AuthHandler H} {h h' : H} {msg : Authentication}

theorem ofAnswer_cases {T : Type} (wrap : T → AuthenticationResponse) (r : Except IoError T) :
    (∃ response, Reaction.ofAnswer wrap r = .answers response) ∨
      ∃ e, Reaction.ofAnswer wrap r = .returns (.error e) := by
  cases r with
  | error e => exact .inr ⟨e, rfl⟩
  | ok answer => exact .inl ⟨wrap answer, rfl⟩

theorem ofNotice_cases (r : Except IoError Unit) :
    Reaction.ofNotice r = .goesOn ∨ ∃ e, Reaction.ofNotice r = .returns (.error e) := by
  cases r with
  | error e => exact .inr ⟨e, rfl⟩
  | ok => exact .inl rfl

/-- A question is answered, or the client gives up. -/
theorem react_ask (a : AuthHandler H) (h : H) (hask : msg.isAsk = true) :
    (∃ response, (a.react h msg).1 = .answers response) ∨
      ∃ e, (a.react h msg).1 = .returns (.error e) := by
  cases msg <;> cases hask
  case initialization methods => exact ofAnswer_cases ..
  case challenge asked => exact ofAnswer_cases ..
  case verification asked => exact ofAnswer_cases ..

/-- After a notice the client goes on, or gives up. -/
theorem react_notice (a : AuthHandler H) (h : H) (hmsg : msg.IsNotice) :
    (a.react h msg).1 = .goesOn ∨ ∃ e, (a.react h msg).1 = .returns (.error e) := by
  obtain ⟨hask, hfinished⟩ := hmsg
  cases msg with
  | initialization methods => cases hask
  | challenge asked => cases hask
  | verification asked => cases hask
  | finished => exact absurd rfl hfinished
  | info text => exact ofNotice_cases _
  | startMethod method => exact ofNotice_cases _
  | error error =>
      show Reaction.ofError error (a.onError error h).1 = .goesOn ∨
        ∃ e, Reaction.ofError error (a.onError error h).1 = .returns (.error e)
      cases (a.onError error h).1 with
      | error e => exact .inr ⟨e, rfl⟩
      | ok =>
          by_cases hfatal : error.kind = .fatal
          · exact .inr ⟨_, if_pos hfatal⟩
          · exact .inl (if_neg hfatal)

end AuthHandler

/-- What becomes of a program and of its client where the latter responds on the spot, unless it
gives up. -/
def Program.converse {α H : Type} (react : H → Authentication → Reaction × H) :
    Program α → H → Option (α × H)
  | .ret x, h => some (x, h)
  | .initiate methods next, h =>
    match react h (.initialization methods) with
    | (.answers response, h) => (next (methodsOf unexpected (.ok response))).converse react h
    | _ => none
  | .challenge asked next, h =>
    match react h (.challenge asked) with
    | (.answers response, h) => (next (answersOf unexpected (.ok response))).converse react h
    | _ => none
  | .verify asked next, h =>
    match react h (.verification asked) with
    | (.answers response, h) => (next (validOf unexpected (.ok response))).converse react h
    | _ => none
  | .notify notice next, h =>
    (hear react h notice.message).bind fun h => (next (.ok ())).converse react h

section

variable {α H : Type} {react : H → Authentication → Reaction × H} {p : Program α}
  {msg : Authentication} {h : H} {x : α × H}

theorem converse_asks {next : Except IoError AuthenticationResponse → Program α}
    (hcall : p.call unexpected = .asks msg next) (hx : p.converse unexpected react h = some x) :
    ∃ response, (react h msg).1 = .answers response ∧
      (next (.ok response)).converse unexpected react (react h msg).2 = some x := by
  cases p <;> cases hcall <;> unfold Program.converse at hx <;> split at hx
  all_goals first
    | cases hx
    | next response h' hreact =>
        rw [hreact]
        exact ⟨response, rfl, hx⟩

theorem converse_tells {next : Except IoError Unit → Program α}
    (hcall : p.call unexpected = .tells msg next) (hx : p.converse unexpected react h = some x) :
    ∃ h', hear react h msg = some h' ∧ (next (.ok ())).converse unexpected react h' = some x := by
  cases p <;> cases hcall
  exact Option.bind_eq_some_iff.mp hx

end

/-! ## The conversation comes to an end -/

namespace Conversation

variable {β H : Type}

/-- The server is further on in its program. -/
inductive Before : ServerPhase β → ServerPhase β → Prop where
  | asks {p : Program (Except IoError β)} {msg : Authentication}
      {next : Except IoError AuthenticationResponse → Program (Except IoError β)}
      (h : p.call unexpected = .asks msg next) : Before (.reading next) (.running p)
  | fails {p : Program (Except IoError β)} {msg : Authentication}
      {next : Except IoError AuthenticationResponse → Program (Except IoError β)}
      (h : p.call unexpected = .asks msg next) (r : Except IoError AuthenticationResponse) :
      Before (.running (next r)) (.running p)
  | tells {p : Program (Except IoError β)} {msg : Authentication}
      {next : Except IoError Unit → Program (Except IoError β)}
      (h : p.call unexpected = .tells msg next) (r : Except IoError Unit) :
      Before (.running (next r)) (.running p)
  | reads {next : Except IoError AuthenticationResponse → Program (Except IoError β)}
      (r : Except IoError AuthenticationResponse) : Before (.running (next r)) (.reading next)

theorem acc_reading {next : Except IoError AuthenticationResponse → Program (Except IoError β)}
    (h : ∀ r, Acc (Before unexpected) (.running (next r))) :
    Acc (Before unexpected) (.reading next) := by
  refine .intro _ fun phase hbefore => ?_
  cases hbefore with
  | reads r => exact h r

theorem acc_asks {p : Program (Except IoError β)} {msg : Authentication}
    {next : Except IoError AuthenticationResponse → Program (Except IoError β)}
    (hcall : p.call unexpected = .asks msg next)
    (h : ∀ r, Acc (Before unexpected) (.running (next r))) :
    Acc (Before unexpected) (.running p) := by
  refine .intro _ fun phase hbefore => ?_
  cases hbefore with
  | asks hcall' =>
      rw [hcall] at hcall'
      cases hcall'
      exact acc_reading unexpected h
  | fails hcall' r =>
      rw [hcall] at hcall'
      cases hcall'
      exact h r
  | tells hcall' r =>
      rw [hcall] at hcall'
      cases hcall'

theorem acc_running (p : Program (Except IoError β)) : Acc (Before unexpected) (.running p) := by
  induction p with
  | ret r =>
      refine .intro _ fun phase hbefore => ?_
      cases hbefore with
      | asks hcall => cases hcall
      | fails hcall => cases hcall
      | tells hcall => cases hcall
  | initiate methods next ih => exact acc_asks unexpected rfl fun r => ih _
  | challenge asked next ih => exact acc_asks unexpected rfl fun r => ih _
  | verify asked next ih => exact acc_asks unexpected rfl fun r => ih _
  | notify notice next ih =>
      refine .intro _ fun phase hbefore => ?_
      cases hbefore with
      | asks hcall => cases hcall
      | fails hcall => cases hcall
      | tells hcall r =>
          cases hcall
          exact ih r

theorem wellFounded_before : WellFounded (Before (β := β) unexpected) := by
  refine ⟨fun phase => ?_⟩
  cases phase with
  | running p => exact acc_running unexpected p
  | reading next => exact acc_reading unexpected fun r => acc_running unexpected (next r)

section Server

variable {p : Program (Except IoError β)} {phase : ServerPhase β} {toClient : List Authentication}
  {toServer : List AuthenticationResponse} {h : H} {returned : Option (Except IoError Unit)}
  {next : Except IoError AuthenticationResponse → Program (Except IoError β)}
  {failure : Option IoError} {s' : Conversation β H}

theorem clientLeft_iff (s : Conversation β H) :
    s.clientLeft = true ↔ ∃ e, s.returned = some (.error e) := by
  unfold clientLeft
  split
  · next e hreturned => exact ⟨fun _ => ⟨e, hreturned⟩, fun _ => rfl⟩
  · next hnot => exact ⟨fun h => (by cases h), fun ⟨e, he⟩ => absurd he (hnot e)⟩

theorem serverLeft_iff (s : Conversation β H) :
    s.serverLeft = true ↔ ∃ e, s.server = .running (.ret (.error e)) := by
  unfold serverLeft
  split
  · next e hserver => exact ⟨fun _ => ⟨e, hserver⟩, fun _ => rfl⟩
  · next hnot => exact ⟨fun h => (by cases h), fun ⟨e, he⟩ => absurd he (hnot e)⟩

theorem stepServer_running
    (hstep : stepServer unexpected ⟨.running p, toClient, toServer, h, returned⟩ failure =
      some s') :
    (∃ msg next, p.call unexpected = .asks msg next ∧
      s' = ⟨.reading next, toClient ++ [msg], toServer, h, returned⟩) ∨
    (∃ msg next, p.call unexpected = .tells msg next ∧
      s' = ⟨.running (next (.ok ())), toClient ++ [msg], toServer, h, returned⟩) ∨
    (∃ e, returned = some (.error e)) ∧
      ((∃ msg next e, p.call unexpected = .asks msg next ∧
        s' = ⟨.running (next (.error e)), toClient, toServer, h, returned⟩) ∨
      ∃ msg next e, p.call unexpected = .tells msg next ∧
        s' = ⟨.running (next (.error e)), toClient, toServer, h, returned⟩) := by
  unfold stepServer at hstep
  simp only at hstep
  split at hstep
  · cases hstep
  · next msg next hcall => cases hstep; exact .inl ⟨msg, next, hcall, rfl⟩
  · next msg next e hcall =>
      split at hstep
      · next hl =>
        cases hstep
        exact .inr (.inr ⟨(clientLeft_iff _).mp hl, .inl ⟨msg, next, e, hcall, rfl⟩⟩)
      · cases hstep
  · next msg next hcall => cases hstep; exact .inr (.inl ⟨msg, next, hcall, rfl⟩)
  · next msg next e hcall =>
      split at hstep
      · next hl =>
        cases hstep
        exact .inr (.inr ⟨(clientLeft_iff _).mp hl, .inr ⟨msg, next, e, hcall, rfl⟩⟩)
      · cases hstep

theorem stepServer_reading
    (hstep : stepServer unexpected ⟨.reading next, toClient, toServer, h, returned⟩ failure =
      some s') :
    (∃ response rest, toServer = response :: rest ∧
      s' = ⟨.running (next (.ok response)), toClient, rest, h, returned⟩) ∨
    (∃ e, returned = some (.error e)) ∧
      ∃ e, s' = ⟨.running (next (.error e)), toClient, toServer, h, returned⟩ := by
  unfold stepServer at hstep
  simp only at hstep
  split at hstep
  · next e =>
      split at hstep
      · next hl => cases hstep; exact .inr ⟨(clientLeft_iff _).mp hl, e, rfl⟩
      · cases hstep
  · next response rest => cases hstep; exact .inl ⟨response, rest, rfl, rfl⟩
  · split at hstep
    · next hl => cases hstep; exact .inr ⟨(clientLeft_iff _).mp hl, _, rfl⟩
    · cases hstep

/-- The client has taken a message, with only the rest still on the way. -/
inductive Took (a : AuthHandler H) (msg : Authentication) (s' : Conversation β H)
    (server : ServerPhase β) (rest : List Authentication) (toServer : List AuthenticationResponse)
    (h : H) : Prop where
  | answers {response : AuthenticationResponse} (hreact : (a.react h msg).1 = .answers response)
      (hs' : s' = ⟨server, rest, toServer ++ [response], (a.react h msg).2, none⟩)
  | goesOn (hreact : (a.react h msg).1 = .goesOn)
      (hs' : s' = ⟨server, rest, toServer, (a.react h msg).2, none⟩)
  | returns {result : Except IoError Unit} (hreact : (a.react h msg).1 = .returns result)
      (hs' : s' = ⟨server, rest, toServer, (a.react h msg).2, some result⟩)

/-- The client takes a message, or finds that the server has left. -/
theorem stepClient_some {a : AuthHandler H} {s s' : Conversation β H}
    (hstep : stepClient a s failure = some s') :
    s.returned = none ∧
      (((∃ e, s.server = .running (.ret (.error e))) ∧
        ∃ e, s' = { s with returned := some (.error e) }) ∨
      ∃ msg rest, s.toClient = msg :: rest ∧
        Took a msg s' s.server rest s.toServer s.handler) := by
  unfold stepClient at hstep
  split at hstep
  · cases hstep
  · next e hreturned =>
      split at hstep
      · next hl => cases hstep; exact ⟨hreturned, .inl ⟨(serverLeft_iff s).mp hl, e, rfl⟩⟩
      · cases hstep
  · next hreturned hempty =>
      split at hstep
      · next hl => cases hstep; exact ⟨hreturned, .inl ⟨(serverLeft_iff s).mp hl, closedEarly, rfl⟩⟩
      · cases hstep
  · next msg rest hreturned hcons =>
      refine ⟨hreturned, .inr ⟨msg, rest, hcons, ?_⟩⟩
      split at hstep
      · next hreact =>
          cases hstep
          rw [hreturned]
          exact .answers (congrArg Prod.fst hreact) (by rw [hreact])
      · next hreact =>
          cases hstep
          rw [hreturned]
          exact .goesOn (congrArg Prod.fst hreact) (by rw [hreact])
      · next hreact =>
          cases hstep
          exact .returns (congrArg Prod.fst hreact) (by rw [hreact])

/-- A server that has not returned goes on. -/
theorem server_moves (a : AuthHandler H) (hret : ∀ r, p ≠ .ret r) :
    ∃ event s', step unexpected a ⟨.running p, toClient, toServer, h, returned⟩ event =
      some s' := by
  cases p with
  | ret r => exact absurd rfl (hret r)
  | initiate methods next => exact ⟨.server none, _, rfl⟩
  | challenge asked next => exact ⟨.server none, _, rfl⟩
  | verify asked next => exact ⟨.server none, _, rfl⟩
  | notify notice next => exact ⟨.server none, _, rfl⟩

/-- A client that has not returned takes the next message. -/
theorem client_moves (a : AuthHandler H) {s : Conversation β H} (hreturned : s.returned = none)
    (hsome : s.toClient ≠ []) : ∃ event s', step unexpected a s event = some s' := by
  refine ⟨.client none, ?_⟩
  show ∃ s', stepClient a s none = some s'
  unfold stepClient
  rw [hreturned]
  split
  · next h => cases h
  · next h => cases h
  · next h => exact absurd h hsome
  · split
    · exact ⟨_, rfl⟩
    · exact ⟨_, rfl⟩
    · exact ⟨_, rfl⟩

end Server

section Stages

variable (a : AuthHandler H) (expected : Option (Except IoError β × H))

/-- The rest of the server's program, which announces its success. -/
def Announcing : ServerPhase β → Prop
  | .running p => p.Announces
  | .reading next => ∀ r, (next r).Announces

/-- How far the two are, if something is expected to come of it. -/
inductive Stage : Conversation β H → Prop where
  /-- the server has something to do -/
  | talking {p : Program (Except IoError β)} {told : List Authentication} {h : H}
      (hp : p.Announces) (htold : ∀ msg ∈ told, msg.IsNotice)
      (hnext : ∀ x ∈ expected, ∃ h', told.foldlM (hear a.react) h = some h' ∧
        p.converse unexpected a.react h' = some x) :
      Stage ⟨.running p, told, [], h, none⟩
  /-- a question is on the way -/
  | asking {next : Except IoError AuthenticationResponse → Program (Except IoError β)}
      {told : List Authentication} {ask : Authentication} {h : H}
      (hp : ∀ r, (next r).Announces) (htold : ∀ msg ∈ told, msg.IsNotice) (hask : ask.isAsk = true)
      (hnext : ∀ x ∈ expected, ∃ h', told.foldlM (hear a.react) h = some h' ∧
        ∃ response, (a.react h' ask).1 = .answers response ∧
          (next (.ok response)).converse unexpected a.react (a.react h' ask).2 = some x) :
      Stage ⟨.reading next, told ++ [ask], [], h, none⟩
  /-- the response is on the way -/
  | answered {next : Except IoError AuthenticationResponse → Program (Except IoError β)}
      {response : AuthenticationResponse} {h : H} (hp : ∀ r, (next r).Announces)
      (hnext : ∀ x ∈ expected, (next (.ok response)).converse unexpected a.react h = some x) :
      Stage ⟨.reading next, [], [response], h, none⟩
  /-- `Finished` is on the way -/
  | finishing {b : β} {told : List Authentication} {h : H} (htold : ∀ msg ∈ told, msg.IsNotice)
      (hnext : ∀ x ∈ expected, ∃ h', told.foldlM (hear a.react) h = some h' ∧
        ∃ h'', hear a.react h' .finished = some h'' ∧ x = (.ok b, h'')) :
      Stage ⟨.running (.ret (.ok b)), told ++ [.finished], [], h, none⟩
  /-- the client has given up -/
  | left {phase : ServerPhase β} {toClient : List Authentication} {h : H} {e : IoError}
      (hp : Announcing phase)
      (hnext : ∀ x ∈ expected, ∃ e', phase = .running (.ret (.error e')) ∧ x.1 = .error e') :
      Stage ⟨phase, toClient, [], h, some (.error e)⟩
  /-- the server has let the client in, which has returned, too -/
  | finished {b : β} {toClient : List Authentication} {h : H} {verdict : Except IoError Unit}
      (hnext : ∀ x ∈ expected, verdict = .ok () ∧ x = (.ok b, h)) :
      Stage ⟨.running (.ret (.ok b)), toClient, [], h, some verdict⟩

variable {a expected} {s s' : Conversation β H} {msg : Authentication} {told : List Authentication}

omit a in
theorem notices_concat (htold : ∀ msg ∈ told, msg.IsNotice) (hmsg : msg.IsNotice) :
    ∀ msg' ∈ told ++ [msg], msg'.IsNotice := by
  intro msg' hmsg'
  rcases List.mem_append.mp hmsg' with hmsg' | hmsg'
  · exact htold msg' hmsg'
  · cases List.mem_singleton.mp hmsg'
    exact hmsg

/-- A turn of the server. -/
theorem Stage.stepServer (hs : Stage unexpected a expected s) {failure : Option IoError}
    (hstep : stepServer unexpected s failure = some s') :
    Stage unexpected a expected s' ∧ Before unexpected s'.server s.server := by
  cases hs with
  | @talking p told h hp htold hnext =>
      rcases stepServer_running unexpected hstep with ⟨msg, next, hcall, rfl⟩ |
        ⟨msg, next, hcall, rfl⟩ | ⟨⟨e, he⟩, -⟩
      · refine ⟨.asking (hp.asks unexpected hcall) htold (Program.isAsk_of_call unexpected hcall)
          fun x hx => ?_, .asks hcall⟩
        obtain ⟨h', hhears, hconverse⟩ := hnext x hx
        exact ⟨h', hhears, converse_asks unexpected hcall hconverse⟩
      · refine ⟨?_, .tells hcall _⟩
        rcases hp.told unexpected hcall with ⟨hnotice, hnext'⟩ | ⟨rfl, ⟨b, hok⟩, -⟩
        · refine .talking (hnext' _) (notices_concat htold hnotice) fun x hx => ?_
          obtain ⟨h', hhears, hconverse⟩ := hnext x hx
          obtain ⟨h'', hhear, hconverse⟩ := converse_tells unexpected hcall hconverse
          exact ⟨h'', hears_concat hhears hhear, hconverse⟩
        · rw [hok]
          refine .finishing htold fun x hx => ?_
          obtain ⟨h', hhears, hconverse⟩ := hnext x hx
          obtain ⟨h'', hhear, hconverse⟩ := converse_tells unexpected hcall hconverse
          rw [hok] at hconverse
          cases hconverse
          exact ⟨h', hhears, h'', hhear, rfl⟩
      · cases he
  | asking =>
      rcases stepServer_reading unexpected hstep with ⟨response, rest, hcons, -⟩ | ⟨⟨e, he⟩, -⟩
      · cases hcons
      · cases he
  | answered hp hnext =>
      rcases stepServer_reading unexpected hstep with ⟨response, rest, hcons, rfl⟩ | ⟨⟨e, he⟩, -⟩
      · cases hcons
        refine ⟨.talking (hp _) (fun _ h => (by cases h)) fun x hx => ?_, .reads _⟩
        exact ⟨_, rfl, hnext x hx⟩
      · cases he
  | finishing =>
      rcases stepServer_running unexpected hstep with ⟨msg, next, hcall, -⟩ |
        ⟨msg, next, hcall, -⟩ | ⟨⟨e, he⟩, -⟩
      · cases hcall
      · cases hcall
      · cases he
  | finished =>
      rcases stepServer_running unexpected hstep with ⟨msg, next, hcall, -⟩ |
        ⟨msg, next, hcall, -⟩ |
        ⟨-, ⟨msg, next, e, hcall, -⟩ | ⟨msg, next, e, hcall, -⟩⟩
      · cases hcall
      · cases hcall
      · cases hcall
      · cases hcall
  | @left phase toClient h e hp hnext =>
      cases phase with
      | running p =>
          -- where something is expected, the server has nothing more to do
          have hidle : ∀ {q : Except IoError β × H → Prop},
              (∀ e', p.call unexpected ≠ .returned (.error e')) → ∀ x ∈ expected, q x := by
            intro q hcall x hx
            obtain ⟨e', hp', -⟩ := hnext x hx
            cases hp'
            exact absurd rfl (hcall e')
          rcases stepServer_running unexpected hstep with ⟨msg, next, hcall, rfl⟩ |
            ⟨msg, next, hcall, rfl⟩ | ⟨-, ⟨msg, next, e, hcall, rfl⟩ | ⟨msg, next, e, hcall, rfl⟩⟩
          · exact ⟨.left (hp.asks unexpected hcall) (hidle (by simp [hcall])), .asks hcall⟩
          · refine ⟨?_, .tells hcall _⟩
            rcases hp.told unexpected hcall with ⟨-, hnext'⟩ | ⟨rfl, ⟨b, hok⟩, -⟩
            · exact .left (hnext' _) (hidle (by simp [hcall]))
            · rw [hok]
              exact .finished (hidle (by simp [hcall]))
          · exact ⟨.left (hp.asks unexpected hcall _) (hidle (by simp [hcall])), .fails hcall _⟩
          · refine ⟨?_, .tells hcall _⟩
            rcases hp.told unexpected hcall with ⟨-, hnext'⟩ | ⟨rfl, -, herror⟩
            · exact .left (hnext' _) (hidle (by simp [hcall]))
            · obtain ⟨e', he'⟩ := herror e
              rw [he']
              exact .left (.fails e') (hidle (by simp [hcall]))
      | reading next =>
          rcases stepServer_reading unexpected hstep with ⟨response, rest, hcons, -⟩ | ⟨-, e, rfl⟩
          · cases hcons
          · refine ⟨.left (hp _) fun x hx => ?_, .reads _⟩
            obtain ⟨e', hphase, -⟩ := hnext x hx
            cases hphase

/-- After a message that only tells something the client goes on, or has not heard it out. -/
theorem Took.notice {server : ServerPhase β} {rest : List Authentication}
    {toServer : List AuthenticationResponse} {h : H} (hmsg : msg.IsNotice)
    (htook : Took a msg s' server rest toServer h) :
    s' = ⟨server, rest, toServer, (a.react h msg).2, none⟩ ∨
      hear a.react h msg = none ∧
        ∃ e, s' = ⟨server, rest, toServer, (a.react h msg).2, some (.error e)⟩ := by
  have hcases := a.react_notice h hmsg
  cases htook with
  | answers hreact hs' =>
      rw [hreact] at hcases
      rcases hcases with hgoes | ⟨e, hreturns⟩
      · cases hgoes
      · cases hreturns
  | goesOn hreact hs' => exact .inl hs'
  | returns hreact hs' =>
      rw [hreact] at hcases
      rcases hcases with hgoes | ⟨e, hreturns⟩
      · cases hgoes
      · cases hreturns
        refine .inr ⟨?_, e, hs'⟩
        unfold hear
        split
        · next hgoes => rw [hgoes] at hreact; cases hreact
        · next hok => rw [hok] at hreact; cases hreact
        · rfl

/-- What is left to do for the client. -/
def clientRank (s : Conversation β H) : Nat :=
  s.toClient.length + if s.returned.isNone then 1 else 0

omit a in
theorem clientRank_lt {server server' : ServerPhase β} {msg : Authentication}
    {rest : List Authentication} {toServer toServer' : List AuthenticationResponse} {h h' : H}
    {returned : Option (Except IoError Unit)} :
    clientRank ⟨server', rest, toServer', h', returned⟩ <
      clientRank ⟨server, msg :: rest, toServer, h, none⟩ := by
  unfold clientRank
  cases returned with
  | none => exact Nat.lt_succ_self _
  | some verdict => exact Nat.lt_add_of_pos_right Nat.two_pos

/-- A turn of the client. -/
theorem Stage.stepClient (hs : Stage unexpected a expected s) {failure : Option IoError}
    (hstep : stepClient a s failure = some s') :
    Stage unexpected a expected s' ∧ s'.server = s.server ∧ clientRank s' < clientRank s := by
  obtain ⟨hreturned, hcases⟩ := stepClient_some hstep
  cases hs with
  | @talking p told h hp htold hnext =>
      rcases hcases with ⟨⟨e, hserver⟩, e', rfl⟩ | ⟨msg, rest, hcons, htook⟩
      · refine ⟨.left hp fun x hx => ⟨e, hserver, ?_⟩, rfl, Nat.lt_succ_self _⟩
        cases hserver
        obtain ⟨h', -, hconverse⟩ := hnext x hx
        cases hconverse
        rfl
      · cases hcons
        have htold' : ∀ msg ∈ rest, msg.IsNotice := fun m hm => htold m (List.mem_cons_of_mem _ hm)
        rcases htook.notice (htold msg List.mem_cons_self) with rfl | ⟨hdeaf, e, rfl⟩
        · refine ⟨.talking hp htold' fun x hx => ?_, rfl, clientRank_lt⟩
          obtain ⟨h', hhears, hconverse⟩ := hnext x hx
          exact ⟨h', (hears_cons hhears).2, hconverse⟩
        · refine ⟨.left hp fun x hx => ?_, rfl, clientRank_lt⟩
          obtain ⟨h', hhears, -⟩ := hnext x hx
          cases hdeaf.symm.trans (hears_cons hhears).1
  | @asking next told ask h hp htold hask hnext =>
      rcases hcases with ⟨⟨e, hserver⟩, -⟩ | ⟨msg, rest, hcons, htook⟩
      · cases hserver
      · cases told with
        | nil =>
            cases hcons
            have hcases := a.react_ask h hask
            cases htook with
            | answers hreact hs' =>
                subst hs'
                refine ⟨.answered hp fun x hx => ?_, rfl, clientRank_lt⟩
                obtain ⟨h', hhears, response', hreact', hconverse⟩ := hnext x hx
                cases hhears
                rw [hreact] at hreact'
                cases hreact'
                exact hconverse
            | goesOn hreact =>
                rw [hreact] at hcases
                rcases hcases with ⟨response, h⟩ | ⟨e, h⟩ <;> cases h
            | returns hreact hs' =>
                rw [hreact] at hcases
                rcases hcases with ⟨response, h⟩ | ⟨e, h⟩
                · cases h
                · cases h
                  subst hs'
                  refine ⟨.left hp fun x hx => ?_, rfl, clientRank_lt⟩
                  obtain ⟨h', hhears, response, hreact', -⟩ := hnext x hx
                  cases hhears
                  rw [hreact] at hreact'
                  cases hreact'
        | cons first told =>
            cases hcons
            have htold' : ∀ msg ∈ told, msg.IsNotice :=
              fun m hm => htold m (List.mem_cons_of_mem _ hm)
            rcases htook.notice (htold msg List.mem_cons_self) with rfl | ⟨hdeaf, e, rfl⟩
            · refine ⟨.asking hp htold' hask fun x hx => ?_, rfl, clientRank_lt⟩
              obtain ⟨h', hhears, hanswer⟩ := hnext x hx
              exact ⟨h', (hears_cons hhears).2, hanswer⟩
            · refine ⟨.left hp fun x hx => ?_, rfl, clientRank_lt⟩
              obtain ⟨h', hhears, -⟩ := hnext x hx
              cases hdeaf.symm.trans (hears_cons hhears).1
  | answered =>
      rcases hcases with ⟨⟨e, hserver⟩, -⟩ | ⟨msg, rest, hcons, -⟩
      · cases hserver
      · cases hcons
  | @finishing b told h htold hnext =>
      rcases hcases with ⟨⟨e, hserver⟩, -⟩ | ⟨msg, rest, hcons, htook⟩
      · cases hserver
      · cases told with
        | nil =>
            cases hcons
            cases htook with
            | answers hreact => cases hreact
            | goesOn hreact => cases hreact
            | @returns verdict hreact hs' =>
                subst hs'
                refine ⟨.finished fun x hx => ?_, rfl, clientRank_lt⟩
                obtain ⟨h', hhears, h'', hhear, rfl⟩ := hnext x hx
                cases hhears
                unfold hear at hhear
                split at hhear <;> cases hhear
                · next hgoes => rw [hgoes] at hreact; cases hreact
                · next hok => rw [hok] at hreact ⊢; cases hreact; exact ⟨rfl, rfl⟩
        | cons first told =>
            cases hcons
            have htold' : ∀ msg ∈ told, msg.IsNotice :=
              fun m hm => htold m (List.mem_cons_of_mem _ hm)
            rcases htook.notice (htold msg List.mem_cons_self) with rfl | ⟨hdeaf, e, rfl⟩
            · refine ⟨.finishing htold' fun x hx => ?_, rfl, clientRank_lt⟩
              obtain ⟨h', hhears, hend⟩ := hnext x hx
              exact ⟨h', (hears_cons hhears).2, hend⟩
            · refine ⟨.finished fun x hx => ?_, rfl, clientRank_lt⟩
              obtain ⟨h', hhears, -⟩ := hnext x hx
              cases hdeaf.symm.trans (hears_cons hhears).1
  | left => cases hreturned
  | finished => cases hreturned

/-- Both have returned, the client with success only if the server has let it in, as expected. -/
def Ended (expected : Option (Except IoError β × H)) (s : Conversation β H) : Prop :=
  ∃ result verdict, s.server = .running (.ret result) ∧ s.returned = some verdict ∧
    (verdict = .ok () → ∃ b, result = .ok b) ∧
    ∀ x ∈ expected, x.1 = result ∧ ∀ b, result = .ok b → verdict = .ok () ∧ s.handler = x.2

theorem ended_left {result : Except IoError β} {toClient : List Authentication}
    {toServer : List AuthenticationResponse} {h : H} {e : IoError}
    (hp : (Program.ret result).Announces)
    (hnext : ∀ x ∈ expected, ∃ e', ServerPhase.running (.ret result) = .running (.ret (.error e')) ∧
      x.1 = .error e') :
    Ended expected ⟨.running (.ret result), toClient, toServer, h, some (.error e)⟩ := by
  refine ⟨result, .error e, rfl, rfl, fun h => (by cases h), fun x hx => ?_⟩
  cases hp with
  | fails e' =>
      obtain ⟨e'', hserver, hexpected⟩ := hnext x hx
      cases hserver
      exact ⟨hexpected, fun b hb => (by cases hb)⟩

/-- One of them can go on. -/
theorem Stage.moves (hs : Stage unexpected a expected s) (hover : ¬ Ended expected s) :
    ∃ event s', step unexpected a s event = some s' := by
  cases hs with
  | @talking p told h hp =>
      by_cases hret : ∃ r, p = .ret r
      · obtain ⟨r, rfl⟩ := hret
        cases hp with
        | fails e => exact ⟨.client (some closedEarly), _, rfl⟩
      · exact server_moves unexpected a fun r hr => hret ⟨r, hr⟩
  | asking => exact client_moves unexpected a rfl (List.concat_ne_nil _ _)
  | answered => exact ⟨.server none, _, rfl⟩
  | finishing => exact client_moves unexpected a rfl (List.concat_ne_nil _ _)
  | @left phase toClient h e hp hnext =>
      cases phase with
      | reading next => exact ⟨.server none, _, rfl⟩
      | running p =>
          by_cases hret : ∃ r, p = .ret r
          · obtain ⟨r, rfl⟩ := hret
            exact absurd (ended_left hp hnext) hover
          · exact server_moves unexpected a fun r hr => hret ⟨r, hr⟩
  | @finished b toClient h verdict hnext =>
      refine absurd ⟨.ok b, verdict, rfl, rfl, fun _ => ⟨b, rfl⟩, fun x hx => ?_⟩ hover
      obtain ⟨hverdict, rfl⟩ := hnext x hx
      exact ⟨rfl, fun _ _ => ⟨hverdict, rfl⟩⟩

/-- Whatever the two do, and in whatever order, they come to an end. -/
theorem Stage.inevitable (hs : Stage unexpected a expected s) :
    Machine.Inevitable (step unexpected a) (fun _ => True) (Ended expected) s := by
  refine Machine.inevitable_of_wellFounded
    (Prod.lex ⟨Before unexpected, wellFounded_before unexpected⟩ Nat.lt_wfRel).wf
    (fun s => (s.server, clientRank s))
    (fun s hs hover => ?_) (fun s event s' hs _ _ hstep => ?_) hs
  · obtain ⟨event, s', hstep⟩ := Stage.moves unexpected hs hover
    exact ⟨event, s', trivial, hstep⟩
  · cases event with
    | server failure =>
        obtain ⟨hs', hbefore⟩ := hs.stepServer unexpected hstep
        exact ⟨hs', .left _ _ hbefore⟩
    | client failure =>
        obtain ⟨hs', hserver, hlt⟩ := hs.stepClient unexpected hstep
        refine ⟨hs', ?_⟩
        rw [hserver]
        exact .right _ hlt

end Stages

variable {a : AuthHandler H} {v : Verifier}

/-- Whatever the handler does, both come to an end, and the client believes to be let in only if it
is. -/
theorem ends_together (hv : v.NeverFinishes) (a : AuthHandler H) (h : H) :
    Machine.Inevitable (step unexpected a) (fun _ => True)
      (fun s => ∃ result verdict, s.server = .running (.ret result) ∧ s.returned = some verdict ∧
        (verdict = .ok () → ∃ id, result = .ok id))
      (start v.program h) := by
  have hstage : Stage unexpected a none (start v.program h) :=
    .talking (Verifier.announces_program hv) (fun _ h => (by cases h)) fun _ h => (by cases h)
  refine (hstage.inevitable unexpected).mono fun s hs => ?_
  obtain ⟨result, verdict, hserver, hreturned, hok, -⟩ := hs
  exact ⟨result, verdict, hserver, hreturned, hok⟩

theorem ends_of_converse {p : Program (Except IoError β)} (hp : p.Announces) {h h' : H}
    {result : Except IoError β} (hconverse : p.converse unexpected a.react h = some (result, h')) :
    Machine.Inevitable (step unexpected a) (fun _ => True)
      (fun s => s.server = .running (.ret result) ∧ ∃ verdict, s.returned = some verdict ∧
        (verdict = .ok () ↔ ∃ b, result = .ok b) ∧ (verdict = .ok () → s.handler = h'))
      (start p h) := by
  have hstage : Stage unexpected a (some (result, h')) (start p h) := by
    refine .talking hp (fun _ h => (by cases h)) fun x hx => ?_
    cases hx
    exact ⟨h, rfl, hconverse⟩
  refine (hstage.inevitable unexpected).mono fun s hs => ?_
  obtain ⟨result, verdict, hserver, hreturned, hok, hexpected⟩ := hs
  obtain ⟨rfl, hend⟩ := hexpected _ rfl
  refine ⟨hserver, verdict, hreturned, ⟨hok, fun ⟨b, hb⟩ => (hend b hb).1⟩, fun hverdict => ?_⟩
  obtain ⟨b, hb⟩ := hok hverdict
  exact (hend b hb).2

/-- Where the handler does not fail when asked on the spot, both come to the end that there is then,
in whatever order they go on, and the client believes to be let in exactly if it is. -/
theorem ends_as_answered (hv : v.NeverFinishes) {h h' : H} {result : Except IoError String}
    (hconverse : v.program.converse unexpected a.react h = some (result, h')) :
    Machine.Inevitable (step unexpected a) (fun _ => True)
      (fun s => s.server = .running (.ret result) ∧ ∃ verdict, s.returned = some verdict ∧
        (verdict = .ok () ↔ ∃ id, result = .ok id) ∧ (verdict = .ok () → s.handler = h'))
      (start v.program h) :=
  ends_of_converse unexpected (Verifier.announces_program hv) hconverse

theorem neverFinishes_staticKey {K : Type} [BEq K] (parse : String → Option K) (key : K) :
    (Verifier.staticKey parse key).NeverFinishes := by
  intro name method hmethod
  rw [Verifier.lookup_staticKey hmethod]
  exact .challenge _ fun r => .ret _

/-- What comes of the static key and a handler with `text` for it. -/
theorem converse_staticKey {K : Type} [BEq K] (parse : String → Option K) (key : K) (text : String)
    (h : AuthHandlerMap Unit) :
    (Verifier.staticKey parse key).program.converse unexpected
        (authHandlerMap (withStaticKey text)).react h =
      some (match parse text with
        | some key' => if key' == key then .ok "static_key" else .error Verifier.noneSucceeded
        | none => .error Verifier.noneSucceeded, ⟨"static_key", ()⟩) := by
  have hprogram : (Verifier.staticKey parse key).program.converse unexpected
      (authHandlerMap (withStaticKey text)).react h =
      ((staticKeyMethod parse key).authenticate.bind fun
        | .error _ => .ret (.error Verifier.noneSucceeded)
        | .ok () => .notify .finished fun
          | .error e => .ret (.error e)
          | .ok () => .ret (.ok "static_key") : Program (Except IoError String)).converse unexpected
        (authHandlerMap (withStaticKey text)).react ⟨"static_key", ()⟩ := rfl
  rw [hprogram]
  have hanswer : (authHandlerMap (withStaticKey text)).react ⟨"static_key", ()⟩
      (.challenge ⟨[⟨"key", "Provide a key: ", ∅⟩], ∅⟩) =
      (.answers (.challenge [text]), ⟨"static_key", ()⟩) := rfl
  have hfinished : hear (authHandlerMap (withStaticKey text)).react ⟨"static_key", ()⟩ .finished =
      some ⟨"static_key", ()⟩ := rfl
  simp only [staticKeyMethod, Program.bind, Program.converse, hanswer, answersOf]
  cases parse text with
  | none => rfl
  | some key' =>
      by_cases hkey : (key' == key) = true
      · simp only [hkey, if_true, Program.converse, Notice.message, hfinished]
        rfl
      · simp only [hkey]
        rfl

/-- The static key lets in those who have it and nobody else. -/
theorem admits_iff {K : Type} [BEq K] (parse : String → Option K) (key : K) (text : String)
    (h : AuthHandlerMap Unit) :
    Machine.Inevitable (step unexpected (authHandlerMap (withStaticKey text))) (fun _ => True)
      (fun s => ∃ result verdict, s.server = .running (.ret result) ∧ s.returned = some verdict ∧
        (verdict = .ok () ↔ ∃ id, result = .ok id) ∧
        (verdict = .ok () ↔ ∃ key', parse text = some key' ∧ (key' == key) = true))
      (start (Verifier.staticKey parse key).program h) := by
  refine (ends_of_converse unexpected
    (Verifier.announces_program (neverFinishes_staticKey parse key))
    (converse_staticKey unexpected parse key text h)).mono fun s hs => ?_
  obtain ⟨hserver, verdict, hreturned, hverdict, -⟩ := hs
  refine ⟨_, verdict, hserver, hreturned, hverdict, hverdict.trans ?_⟩
  cases parse text with
  | none => simp
  | some key' => by_cases hkey : (key' == key) = true <;> simp [hkey]

/-- With the right key both come to their end. -/
theorem ends_together_key :
    Machine.Inevitable
      (step (Link.unexpected Verifier.keyFormat) (authHandlerMap (withStaticKey "secret")))
      (fun _ => True)
      (fun s => ∃ result verdict, s.server = .running (.ret result) ∧ s.returned = some verdict ∧
        (verdict = .ok () → ∃ id, result = .ok id))
      (start (Verifier.staticKey some "secret").program ⟨"", ()⟩) :=
  ends_together (Link.unexpected Verifier.keyFormat) (neverFinishes_staticKey some "secret") _ _

/-- And the server lets the client in. -/
theorem ends_as_answered_key :
    Machine.Inevitable
      (step (Link.unexpected Verifier.keyFormat) (authHandlerMap (withStaticKey "secret")))
      (fun _ => True)
      (fun s => s.server = .running (.ret (.ok "static_key")) ∧
        ∃ verdict, s.returned = some verdict ∧
          (verdict = .ok () ↔
            ∃ id, (Except.ok "static_key" : Except IoError String) = .ok id) ∧
          (verdict = .ok () → s.handler = ⟨"static_key", ()⟩))
      (start (Verifier.staticKey some "secret").program ⟨"", ()⟩) :=
  ends_as_answered (Link.unexpected Verifier.keyFormat) (neverFinishes_staticKey some "secret")
    (converse_staticKey (Link.unexpected Verifier.keyFormat) some "secret" "secret" ⟨"", ()⟩)

end Conversation

end

end Auth

end Distant
