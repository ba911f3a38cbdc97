import Distant.Lib.Rust
import Distant.Protocol

/-!
# Authentication

`Verifier::verify` offers its methods to the client and tries those that the client answers with,
one after the other, until one succeeds. A method is any program over an `Authenticator`, whose calls
write a message and, some of them, read the answer; the link under it is a script of what its reads
and writes will return, which an adversary can have written.

`verify_sound` says that nobody is let in whom no registered method has let in, and with the static
key alone nobody without the key; and that `Finished` comes once and last, unless a method sends it
by itself.
-/

namespace Distant

namespace Auth

/-- `auth::msg::ErrorKind`. -/
inductive ErrorKind where
  | fatal
  | error
  deriving DecidableEq, Repr

/-- `auth::msg::Error`. -/
structure Error where
  kind : ErrorKind
  text : String
  deriving DecidableEq, Repr

namespace Error

def nonFatal (text : String) : Error := ⟨.error, text⟩

def display (e : Error) : String :=
  (match e.kind with
    | .fatal => "Fatal"
    | .error => "Error") ++ ": " ++ e.text

def intoIoPermissionDenied (e : Error) : IoError := .new .permissionDenied e.display

end Error

structure Question where
  label : String
  text : String
  options : HashMap String String

structure Challenge where
  questions : List Question
  options : HashMap String String

inductive VerificationKind where
  | host
  | unknown
  deriving DecidableEq, Repr

structure Verification where
  kind : VerificationKind
  text : String
  deriving DecidableEq, Repr

/-- The messages to the client. -/
inductive Authentication where
  | initialization (methods : List String)
  | startMethod (method : String)
  | challenge (asked : Challenge)
  | verification (verification : Verification)
  | info (text : String)
  | error (error : Error)
  | finished

/-- The messages from the client. -/
inductive AuthenticationResponse where
  | initialization (methods : List String)
  | challenge (answers : List String)
  | verification (valid : Bool)
  deriving DecidableEq, Repr

/-- How responses are deserialized, and shown in an error. -/
structure Format where
  de : Bytes → Except String AuthenticationResponse
  debug : AuthenticationResponse → String

/-- What has happened so far. -/
inductive Event where
  | sent (msg : Authentication)
  /-- the procedure of a method has returned, with or without success -/
  | returned (id : String) (ok : Bool)

/-- The link to the client: what its next reads and writes will return. -/
structure Link where
  reads : List (Except IoError (Option Bytes))
  writes : List (Except IoError Unit)
  log : List Event

namespace Link

def note (link : Link) (event : Event) : Link := { link with log := link.log ++ [event] }

/-- `write_frame!`; a script that has come to its end lets everything through. -/
def writeFrame (link : Link) (msg : Authentication) : Except IoError Unit × Link :=
  match link.writes with
  | [] => (.ok (), link.note (.sent msg))
  | .ok () :: writes => (.ok (), { link with writes := writes }.note (.sent msg))
  | .error e :: writes => (.error e, { link with writes := writes })

def closedEarly : IoError := .new .unexpectedEof
  "Transport closed early waiting for frame of type AuthenticationResponse"

/-- `next_frame_as!`, before the response is looked at. -/
def nextFrame (format : Format) (link : Link) : Except IoError AuthenticationResponse × Link :=
  match link.reads with
  | [] => (.error closedEarly, link)
  | .ok none :: reads => (.error closedEarly, { link with reads := reads })
  | .error e :: reads => (.error e, { link with reads := reads })
  | .ok (some item) :: reads =>
    (match format.de item with
      | .ok response => .ok response
      | .error x => .error (.new .invalidData s!"Deserialize failed: {x}"),
      { link with reads := reads })

def unexpected (format : Format) (response : AuthenticationResponse) : IoError :=
  .new .invalidData ("Unexpected frame: " ++ format.debug response)

/-- Writes a message and reads the response to it. -/
def ask (format : Format) (link : Link) (msg : Authentication) :
    Except IoError AuthenticationResponse × Link :=
  match link.writeFrame msg with
  | (.error e, link) => (.error e, link)
  | (.ok (), link) => link.nextFrame format

def initiate (format : Format) (link : Link) (methods : List String) :
    Except IoError (List String) × Link :=
  match link.ask format (.initialization methods) with
  | (.ok (.initialization methods), link) => (.ok methods, link)
  | (.ok response, link) => (.error (unexpected format response), link)
  | (.error e, link) => (.error e, link)

def challenge (format : Format) (link : Link) (asked : Challenge) :
    Except IoError (List String) × Link :=
  match link.ask format (.challenge asked) with
  | (.ok (.challenge answers), link) => (.ok answers, link)
  | (.ok response, link) => (.error (unexpected format response), link)
  | (.error e, link) => (.error e, link)

def verify (format : Format) (link : Link) (verification : Verification) :
    Except IoError Bool × Link :=
  match link.ask format (.verification verification) with
  | (.ok (.verification valid), link) => (.ok valid, link)
  | (.ok response, link) => (.error (unexpected format response), link)
  | (.error e, link) => (.error e, link)

end Link

/-- The calls of an authenticator that read no answer. -/
inductive Notice where
  | info (text : String)
  | error (error : Error)
  | startMethod (method : String)
  | finished

def Notice.message : Notice → Authentication
  | info text => .info text
  | error e => .error e
  | startMethod method => .startMethod method
  | finished => .finished

/-- A program that calls an authenticator, and goes on as the call returns. -/
inductive Program (α : Type) where
  | ret (a : α)
  | initiate (methods : List String) (next : Except IoError (List String) → Program α)
  | challenge (asked : Challenge) (next : Except IoError (List String) → Program α)
  | verify (verification : Verification) (next : Except IoError Bool → Program α)
  | notify (notice : Notice) (next : Except IoError Unit → Program α)

def Program.run {α : Type} (format : Format) : Program α → Link → α × Link
  | .ret a, link => (a, link)
  | .initiate methods next, link =>
    let (result, link) := link.initiate format methods
    (next result).run format link
  | .challenge asked next, link =>
    let (result, link) := link.challenge format asked
    (next result).run format link
  | .verify verification next, link =>
    let (result, link) := link.verify format verification
    (next result).run format link
  | .notify notice next, link =>
    let (result, link) := link.writeFrame notice.message
    (next result).run format link

structure AuthenticationMethod where
  id : String
  authenticate : Program (Except IoError Unit)

/-- The method that approves anything. -/
def noneMethod : AuthenticationMethod := ⟨"none", .ret (.ok ())⟩

/-- The method for a secret key of any type that can be parsed and compared. -/
def staticKeyMethod {K : Type} [BEq K] (parse : String → Option K) (key : K) :
    AuthenticationMethod where
  id := "static_key"
  authenticate := .challenge ⟨[⟨"key", "Provide a key: ", ∅⟩], ∅⟩ fun response => .ret <|
    match response with
    | .error e => .error e
    | .ok [] => .error (Error.nonFatal "missing answer").intoIoPermissionDenied
    | .ok (answer :: _) =>
      match parse answer with
      | some key' =>
        if key' == key then .ok ()
        else .error (Error.nonFatal "answer does not match key").intoIoPermissionDenied
      | none => .error (Error.nonFatal "answer does not match key").intoIoPermissionDenied

/-- Each method is in the table under its own id. -/
structure Verifier where
  methods : HashMap String AuthenticationMethod
  id_of_lookup : ∀ id method, methods.lookup id = some method → method.id = id

namespace Verifier

def empty : Verifier := ⟨∅, fun _ _ h => (by cases h)⟩

def insert (v : Verifier) (method : AuthenticationMethod) : Verifier where
  methods := v.methods.insert method.id method
  id_of_lookup := by
    intro id found hfound
    by_cases hsame : id = method.id
    · rw [hsame, AList.lookup_insert] at hfound
      cases hfound
      exact hsame.symm
    · rw [AList.lookup_insert_ne hsame] at hfound
      exact v.id_of_lookup id found hfound

def new (methods : List AuthenticationMethod) : Verifier := methods.foldl insert empty

def staticKey {K : Type} [BEq K] (parse : String → Option K) (key : K) : Verifier :=
  new [staticKeyMethod parse key]

def noneSucceeded : IoError := .new .permissionDenied "No authentication method succeeded"

/-- Tries the methods that the client has answered with. -/
def tryMethods (format : Format) (v : Verifier) :
    List String → Link → Except IoError String × Link
  | [], link => (.error noneSucceeded, link)
  | name :: names, link =>
    match v.methods.lookup name with
    | none => tryMethods format v names link
    | some method =>
      match link.writeFrame (.startMethod method.id) with
      | (.error e, link) => (.error e, link)
      | (.ok (), link) =>
        match method.authenticate.run format link with
        | (.ok (), link) =>
          match (link.note (.returned method.id true)).writeFrame .finished with
          | (.error e, link) => (.error e, link)
          | (.ok (), link) => (.ok method.id, link)
        | (.error _, link) =>
          tryMethods format v names (link.note (.returned method.id false))

def verify (format : Format) (v : Verifier) (link : Link) : Except IoError String × Link :=
  match link.initiate format v.methods.keys with
  | (.error e, link) => (.error e, link)
  | (.ok names, link) => tryMethods format v names link

end Verifier

/-! ## What is sent -/

/-- The link is later in the same run, with only these messages sent in between. -/
def Link.Sends (link link' : Link) (msgs : List Authentication) : Prop :=
  link'.log = link.log ++ msgs.map .sent ∧ link'.reads <:+ link.reads

section

variable {format : Format} {link link₁ link' : Link} {msgs msgs' : List Authentication}

theorem Link.Sends.refl : link.Sends link [] := ⟨(List.append_nil _).symm, List.suffix_rfl⟩

theorem Link.Sends.trans (h : link.Sends link₁ msgs) (h' : link₁.Sends link' msgs') :
    link.Sends link' (msgs ++ msgs') := by
  refine ⟨?_, h'.2.trans h.2⟩
  rw [h'.1, h.1, List.append_assoc, List.map_append]

theorem Link.Sends.unique (h : link.Sends link' msgs) (h' : link.Sends link' msgs') : msgs = msgs' := by
  have hmap : msgs.map Event.sent = msgs'.map Event.sent :=
    List.append_cancel_left (h.1.symm.trans h'.1)
  exact List.map_injective_iff.mpr (fun _ _ heq => (by cases heq; rfl)) hmap

theorem writeFrame_ok {msg : Authentication} (h : link.writeFrame msg = (.ok (), link')) :
    link.Sends link' [msg] := by
  unfold Link.writeFrame at h
  split at h <;> cases h
  · exact ⟨rfl, List.suffix_rfl⟩
  · exact ⟨rfl, List.suffix_rfl⟩

theorem writeFrame_error {msg : Authentication} {e : IoError}
    (h : link.writeFrame msg = (.error e, link')) : link.Sends link' [] := by
  unfold Link.writeFrame at h
  split at h <;> cases h
  exact ⟨(List.append_nil _).symm, List.suffix_rfl⟩

theorem sends_writeFrame (msg : Authentication) (link : Link) :
    ∃ msgs, link.Sends (link.writeFrame msg).2 msgs ∧ ∀ m ∈ msgs, m = msg := by
  cases h : link.writeFrame msg with
  | mk result link' =>
      cases result with
      | ok => exact ⟨[msg], writeFrame_ok h, fun m hm => List.mem_singleton.mp hm⟩
      | error e => exact ⟨[], writeFrame_error h, fun m hm => (by cases hm)⟩

variable (format) in
theorem sends_nextFrame (link : Link) : link.Sends (link.nextFrame format).2 [] := by
  unfold Link.nextFrame
  split
  · exact .refl
  all_goals next hreads =>
    refine ⟨(List.append_nil _).symm, ?_⟩
    rw [hreads]
    exact List.suffix_cons _ _

variable (format) in
theorem sends_ask (msg : Authentication) (link : Link) :
    ∃ msgs, link.Sends (link.ask format msg).2 msgs ∧ ∀ m ∈ msgs, m = msg := by
  unfold Link.ask
  obtain ⟨msgs, hsends, hmsgs⟩ := sends_writeFrame msg link
  split
  · next hwrite =>
      rw [hwrite] at hsends
      exact ⟨msgs, hsends, hmsgs⟩
  · next link₁ hwrite =>
      rw [hwrite] at hsends
      refine ⟨msgs, ?_, hmsgs⟩
      have h := hsends.trans (sends_nextFrame format link₁)
      rwa [List.append_nil] at h

theorem snd_initiate (methods : List String) :
    (link.initiate format methods).2 = (link.ask format (.initialization methods)).2 := by
  unfold Link.initiate
  split <;> simp only [*]

theorem snd_challenge (asked : Challenge) :
    (link.challenge format asked).2 = (link.ask format (.challenge asked)).2 := by
  unfold Link.challenge
  split <;> simp only [*]

theorem snd_verify (verification : Verification) :
    (link.verify format verification).2 = (link.ask format (.verification verification)).2 := by
  unfold Link.verify
  split <;> simp only [*]

variable (format) in
/-- A program does nothing to the link but to read from it and send messages. -/
theorem sends_run {α : Type} (program : Program α) (link : Link) :
    ∃ msgs, link.Sends (program.run format link).2 msgs := by
  induction program generalizing link with
  | ret a => exact ⟨[], .refl⟩
  | initiate methods next ih =>
      obtain ⟨msgs, hsends, -⟩ := sends_ask format (.initialization methods) link
      rw [← snd_initiate] at hsends
      obtain ⟨msgs', hrest⟩ := ih (link.initiate format methods).1 (link.initiate format methods).2
      exact ⟨msgs ++ msgs', hsends.trans hrest⟩
  | challenge asked next ih =>
      obtain ⟨msgs, hsends, -⟩ := sends_ask format (.challenge asked) link
      rw [← snd_challenge] at hsends
      obtain ⟨msgs', hrest⟩ := ih (link.challenge format asked).1 (link.challenge format asked).2
      exact ⟨msgs ++ msgs', hsends.trans hrest⟩
  | verify verification next ih =>
      obtain ⟨msgs, hsends, -⟩ := sends_ask format (.verification verification) link
      rw [← snd_verify] at hsends
      obtain ⟨msgs', hrest⟩ := ih (link.verify format verification).1
        (link.verify format verification).2
      exact ⟨msgs ++ msgs', hsends.trans hrest⟩
  | notify notice next ih =>
      obtain ⟨msgs, hsends, -⟩ := sends_writeFrame notice.message link
      obtain ⟨msgs', hrest⟩ := ih (link.writeFrame notice.message).1
        (link.writeFrame notice.message).2
      exact ⟨msgs ++ msgs', hsends.trans hrest⟩

end

/-! ## Soundness -/

/-- The method never sends `Finished` by itself. -/
def AuthenticationMethod.Discreet (format : Format) (method : AuthenticationMethod) : Prop :=
  ∀ (link : Link) (msgs : List Authentication),
    link.Sends (method.authenticate.run format link).2 msgs → .finished ∉ msgs

namespace Verifier

def Discreet (format : Format) (v : Verifier) : Prop :=
  ∀ name method, v.methods.lookup name = some method → method.Discreet format

/-- The procedure of a registered method has returned `Ok` in the run from one link to the other,
right before its end. -/
def LetIn (format : Format) (v : Verifier) (id : String) (link link' : Link) : Prop :=
  ∃ (method : AuthenticationMethod) (events : List Event) (before after : Link),
    v.methods.lookup id = some method ∧ method.id = id ∧
    before.log = link.log ++ events ∧ before.reads <:+ link.reads ∧
    method.authenticate.run format before = (.ok (), after) ∧
    link'.log = after.log ++ [.returned id true, .sent .finished]

/-- `Finished` is the last message, and comes right after the success of a registered method. -/
def FinishesOnce (v : Verifier) (events : List Event) : Prop :=
  ∀ before after, events = before ++ .sent .finished :: after →
    after = [] ∧ ∃ earlier id method, before = earlier ++ [.returned id true] ∧
      v.methods.lookup id = some method ∧ method.id = id

variable {format : Format} {v : Verifier} {link link' : Link} {id : String} {events : List Event}

theorem LetIn.later {link₁ : Link} (hlog : link₁.log = link.log ++ events)
    (hreads : link₁.reads <:+ link.reads) (h : v.LetIn format id link₁ link') :
    v.LetIn format id link link' := by
  obtain ⟨method, events', before, after, hmethod, hid, hbefore, hsuffix, hrun, hend⟩ := h
  refine ⟨method, events ++ events', before, after, hmethod, hid, ?_, hsuffix.trans hreads, hrun, hend⟩
  rw [hbefore, hlog, List.append_assoc]

theorem discreet_noneMethod : noneMethod.Discreet format := by
  intro link msgs h
  have hnone : link.Sends link [] := .refl
  rw [h.unique hnone]
  exact List.not_mem_nil

theorem discreet_staticKeyMethod {K : Type} [BEq K] {parse : String → Option K} {key : K} :
    (staticKeyMethod parse key).Discreet format := by
  intro link msgs h hmem
  obtain ⟨msgs', hsends, hmsgs⟩ :=
    sends_ask format (.challenge ⟨[⟨"key", "Provide a key: ", ∅⟩], ∅⟩) link
  rw [← snd_challenge] at hsends
  rw [h.unique hsends] at hmem
  cases hmsgs _ hmem

/-- Events before, none of which is `Finished`. -/
theorem FinishesOnce.prepend (h : v.FinishesOnce events) {first : List Event}
    (hfirst : .sent .finished ∉ first) : v.FinishesOnce (first ++ events) := by
  intro before after hsplit
  rcases List.append_eq_append_iff.mp hsplit with ⟨middle, rfl, hevents⟩ | ⟨middle, hfirst', hafter⟩
  · obtain ⟨hlast, earlier, id, method, rfl, hmethod, hid⟩ := h middle after hevents
    exact ⟨hlast, first ++ earlier, id, method, (List.append_assoc ..).symm, hmethod, hid⟩
  · cases middle with
    | nil =>
        obtain ⟨hlast, earlier, id, method, hearlier, -⟩ := h [] after hafter.symm
        cases earlier <;> cases hearlier
    | cons event middle =>
        refine absurd ?_ hfirst
        rw [hfirst', (List.cons.inj hafter).1]
        exact List.mem_append_right _ List.mem_cons_self

theorem finishesOnce_nil : v.FinishesOnce [] := by
  intro before after h
  cases before <;> cases h

theorem finishesOnce_of_quiet (h : .sent .finished ∉ events) : v.FinishesOnce events := by
  have hfinishes := (finishesOnce_nil (v := v)).prepend h
  rwa [List.append_nil] at hfinishes

theorem finishesOnce_success {method : AuthenticationMethod}
    (hmethod : v.methods.lookup id = some method) (hid : method.id = id) :
    v.FinishesOnce [.returned id true, .sent .finished] := by
  intro before after h
  match before with
  | [] => cases h
  | [event] =>
      cases h
      exact ⟨rfl, [], id, method, rfl, hmethod, hid⟩
  | [_, _] => cases h
  | _ :: _ :: _ :: _ => cases h

theorem not_mem_sent {msgs : List Authentication} (h : .finished ∉ msgs) :
    Event.sent .finished ∉ msgs.map .sent := by
  intro hmem
  obtain ⟨msg, hmsg, heq⟩ := List.mem_map.mp hmem
  cases heq
  exact h hmsg

variable (format v) in
/-- One method after the other is tried until one has let the client in. -/
theorem tryMethods_spec (names : List String) (link : Link) :
    ∃ events, (tryMethods format v names link).2.log = link.log ++ events ∧
      (∀ id, (tryMethods format v names link).1 = .ok id →
        v.LetIn format id link (tryMethods format v names link).2) ∧
      (v.Discreet format → v.FinishesOnce events) := by
  induction names generalizing link with
  | nil =>
      refine ⟨[], (List.append_nil _).symm, fun id h => ?_, fun _ => finishesOnce_nil⟩
      cases h
  | cons name names ih =>
      unfold tryMethods
      split
      · exact ih link
      · next method hmethod =>
          have hid := v.id_of_lookup name method hmethod
          split
          · next hstart =>
              have hsends := writeFrame_error hstart
              exact ⟨[], hsends.1, fun id h => (by cases h), fun _ => finishesOnce_nil⟩
          · next link₁ hstart =>
              have hsends := writeFrame_ok hstart
              obtain ⟨msgs, hmsgs⟩ := sends_run format method.authenticate link₁
              have hquiet : v.Discreet format →
                  .sent .finished ∉ (Authentication.startMethod method.id :: msgs).map Event.sent := by
                intro hdiscreet
                refine not_mem_sent fun hmem => ?_
                rcases List.mem_cons.mp hmem with heq | hmem
                · cases heq
                · exact hdiscreet name method hmethod link₁ msgs hmsgs hmem
              have hboth := hsends.trans hmsgs
              have hnoted : ∀ ok, v.Discreet format → .sent .finished ∉
                  (Authentication.startMethod method.id :: msgs).map Event.sent ++
                    [.returned method.id ok] := by
                intro ok hdiscreet hmem
                rcases List.mem_append.mp hmem with hmem | hmem
                · exact hquiet hdiscreet hmem
                · cases List.mem_singleton.mp hmem
              split
              · next link₂ hrun =>
                  rw [hrun] at hboth
                  have hlog : (link₂.note (.returned method.id true)).log = link.log ++
                      ((Authentication.startMethod method.id :: msgs).map Event.sent ++
                        [.returned method.id true]) := by
                    rw [← List.append_assoc]
                    exact congrArg (· ++ _) hboth.1
                  split
                  · next link₃ hfinish =>
                      refine ⟨_, (writeFrame_error hfinish).1.trans ((List.append_nil _).trans hlog),
                        fun id h => (by cases h), fun hdiscreet => ?_⟩
                      exact finishesOnce_of_quiet (hnoted true hdiscreet)
                  · next link₃ hfinish =>
                      have hend := (writeFrame_ok hfinish).1
                      refine ⟨(Authentication.startMethod method.id :: msgs).map Event.sent ++
                        [.returned method.id true, .sent .finished], ?_, fun id h => ?_,
                        fun hdiscreet => ?_⟩
                      · show link₃.log = _
                        rw [hend, hlog, List.append_assoc, List.append_assoc]
                        rfl
                      · cases h
                        refine ⟨method, [.sent (.startMethod method.id)], link₁, link₂,
                          hid.symm ▸ hmethod, rfl, hsends.1, hsends.2, hrun, ?_⟩
                        show link₃.log = _
                        rw [hend]
                        exact List.append_assoc ..
                      · apply FinishesOnce.prepend _ (hquiet hdiscreet)
                        exact finishesOnce_success (hid.symm ▸ hmethod) rfl
              · next link₂ hrun =>
                  rw [hrun] at hboth
                  have hlog : (link₂.note (.returned method.id false)).log = link.log ++
                      ((Authentication.startMethod method.id :: msgs).map Event.sent ++
                        [.returned method.id false]) := by
                    rw [← List.append_assoc]
                    exact congrArg (· ++ _) hboth.1
                  obtain ⟨events, hevents, hletIn, hfinishes⟩ :=
                    ih (link₂.note (.returned method.id false))
                  refine ⟨_, hevents.trans ?_, fun id h => (hletIn id h).later hlog hboth.2,
                    fun hdiscreet => (hfinishes hdiscreet).prepend (hnoted false hdiscreet)⟩
                  rw [hlog, List.append_assoc]

variable (format) in
theorem initiate_spec (methods : List String) (link : Link) :
    ∃ msgs, link.Sends (link.initiate format methods).2 msgs ∧ .finished ∉ msgs := by
  obtain ⟨msgs, hsends, hmsgs⟩ := sends_ask format (.initialization methods) link
  rw [← snd_initiate] at hsends
  refine ⟨msgs, hsends, fun hmem => ?_⟩
  cases hmsgs _ hmem

variable (format v) in
/-- The whole run. -/
theorem verify_spec (link : Link) :
    ∃ events, (v.verify format link).2.log = link.log ++ events ∧
      (∀ id, (v.verify format link).1 = .ok id → v.LetIn format id link (v.verify format link).2) ∧
      (v.Discreet format → v.FinishesOnce events) := by
  unfold verify
  obtain ⟨msgs, hsends, hmsgs⟩ := initiate_spec format v.methods.keys link
  split
  · next hinitiate =>
      rw [hinitiate] at hsends
      refine ⟨_, hsends.1, fun id h => (by cases h), fun _ => ?_⟩
      exact finishesOnce_of_quiet (not_mem_sent hmsgs)
  · next names link₁ hinitiate =>
      rw [hinitiate] at hsends
      obtain ⟨events, hevents, hletIn, hfinishes⟩ := tryMethods_spec format v names link₁
      refine ⟨_, hevents.trans ?_, fun id h => (hletIn id h).later hsends.1 hsends.2,
        fun hdiscreet => (hfinishes hdiscreet).prepend (not_mem_sent hmsgs)⟩
      rw [hsends.1, List.append_assoc]

theorem nextFrame_ok {response : AuthenticationResponse}
    (h : link.nextFrame format = (.ok response, link')) :
    ∃ item, .ok (some item) ∈ link.reads ∧ format.de item = .ok response := by
  unfold Link.nextFrame at h
  split at h
  · cases h
  · cases h
  · cases h
  · next item reads hreads =>
      refine ⟨item, hreads ▸ List.mem_cons_self, ?_⟩
      cases hde : format.de item with
      | error x =>
          rw [hde] at h
          cases h
      | ok found =>
          rw [hde] at h
          cases h
          rfl

theorem challenge_ok {asked : Challenge} {answers : List String}
    (h : link.challenge format asked = (.ok answers, link')) :
    ∃ item, .ok (some item) ∈ link.reads ∧ format.de item = .ok (.challenge answers) := by
  unfold Link.challenge at h
  split at h <;> cases h
  next hask =>
    unfold Link.ask at hask
    split at hask
    · cases hask
    · next link₁ hwrite =>
        obtain ⟨item, hitem, hde⟩ := nextFrame_ok hask
        exact ⟨item, (writeFrame_ok hwrite).2.subset hitem, hde⟩

/-- The client has answered with the key. -/
def HasKey {K : Type} [BEq K] (format : Format) (parse : String → Option K) (key : K)
    (reads : List (Except IoError (Option Bytes))) : Prop :=
  ∃ item answer answers key', .ok (some item) ∈ reads ∧
    format.de item = .ok (.challenge (answer :: answers)) ∧
    parse answer = some key' ∧ (key' == key) = true

section StaticKey

variable {K : Type} [BEq K] {parse : String → Option K} {key : K}

theorem hasKey_of_authenticate
    (h : (staticKeyMethod parse key).authenticate.run format link = (.ok (), link')) :
    HasKey format parse key link.reads := by
  have hresult : (match (link.challenge format ⟨[⟨"key", "Provide a key: ", ∅⟩], ∅⟩).1 with
      | .error e => .error e
      | .ok [] => .error (Error.nonFatal "missing answer").intoIoPermissionDenied
      | .ok (answer :: _) =>
        match parse answer with
        | some key' =>
          if key' == key then .ok ()
          else .error (Error.nonFatal "answer does not match key").intoIoPermissionDenied
        | none => .error (Error.nonFatal "answer does not match key").intoIoPermissionDenied) =
      Except.ok () := congrArg Prod.fst h
  split at hresult
  · cases hresult
  · cases hresult
  · next answer answers hanswers =>
      obtain ⟨item, hitem, hde⟩ := challenge_ok (Prod.ext hanswers rfl)
      split at hresult
      · next key' hparse =>
          split at hresult
          · next hkey => exact ⟨item, answer, answers, key', hitem, hde, hparse, hkey⟩
          · cases hresult
      · cases hresult

theorem lookup_staticKey {name : String} {method : AuthenticationMethod}
    (h : (staticKey parse key).methods.lookup name = some method) :
    method = staticKeyMethod parse key := by
  have hlookup : (AList.insert "static_key" (staticKeyMethod parse key)
      (∅ : HashMap String AuthenticationMethod)).lookup name = some method := h
  by_cases hname : name = "static_key"
  · rw [hname, AList.lookup_insert] at hlookup
    cases hlookup
    rfl
  · rw [AList.lookup_insert_ne hname] at hlookup
    cases hlookup

theorem LetIn.hasKey (h : (staticKey parse key).LetIn format id link link') :
    HasKey format parse key link.reads := by
  obtain ⟨method, events, before, after, hmethod, -, -, hreads, hrun, -⟩ := h
  cases lookup_staticKey hmethod
  obtain ⟨item, answer, answers, key', hitem, hde, hparse, hkey⟩ := hasKey_of_authenticate hrun
  exact ⟨item, answer, answers, key', hreads.subset hitem, hde, hparse, hkey⟩

end StaticKey

/-- A client is let in only by the success of a registered method; `Finished` comes once, right after
that success, and last, unless a method sends it by itself; and with the static key alone, only a
client with the key is let in. -/
theorem verify_sound (format : Format) (v : Verifier) (link : Link) :
    (∀ id link', v.verify format link = (.ok id, link') → v.LetIn format id link link') ∧
    (v.Discreet format →
      ∃ events, (v.verify format link).2.log = link.log ++ events ∧ v.FinishesOnce events) ∧
    ∀ (K : Type) [BEq K] (parse : String → Option K) (key : K) id link',
      (staticKey parse key).verify format link = (.ok id, link') →
        HasKey format parse key link.reads := by
  have hletIn : ∀ (v : Verifier) id link', v.verify format link = (.ok id, link') →
      v.LetIn format id link link' := by
    intro v id link' h
    obtain ⟨events, -, hletIn, -⟩ := verify_spec format v link
    rw [h] at hletIn
    exact hletIn id rfl
  refine ⟨hletIn v, fun hdiscreet => ?_, fun K _ parse key id link' h => ?_⟩
  · obtain ⟨events, hevents, -, hfinishes⟩ := verify_spec format v link
    exact ⟨events, hevents, hfinishes hdiscreet⟩
  · exact (hletIn _ id link' h).hasKey

/-- The link of a client that answers with the methods and with the key; what it sends is not looked
at closely. -/
def keyLink : Link := ⟨[.ok (some [0]), .ok (some [1])], [], []⟩

def keyFormat : Format where
  de := fun
    | [0] => .ok (.initialization ["static_key"])
    | _ => .ok (.challenge ["secret"])
  debug := fun _ => ""

/-- The right key lets a client in, with one `Finished`. -/
theorem verify_sound_key :
    (∃ link', (staticKey some "secret").verify keyFormat keyLink = (.ok "static_key", link') ∧
      (staticKey some "secret").LetIn keyFormat "static_key" keyLink link') ∧
    (∃ events, ((staticKey some "secret").verify keyFormat keyLink).2.log = events ∧
      (staticKey some "secret").FinishesOnce events) ∧
    HasKey keyFormat some "secret" keyLink.reads := by
  have hsound := verify_sound keyFormat (staticKey some "secret") keyLink
  have hdiscreet : (staticKey some "secret").Discreet keyFormat := by
    intro name method hmethod
    rw [lookup_staticKey hmethod]
    exact discreet_staticKeyMethod
  refine ⟨⟨_, rfl, hsound.1 _ _ rfl⟩, ?_, hsound.2.2 String some "secret" _ _ rfl⟩
  obtain ⟨events, hevents, hfinishes⟩ := hsound.2.1 hdiscreet
  exact ⟨events, hevents, hfinishes⟩

/-- A method that sends `Finished` by itself, so that it is sent twice. -/
def eagerMethod : AuthenticationMethod := ⟨"eager", .notify .finished .ret⟩

theorem not_finishesOnce : ∃ events,
    ((new [eagerMethod]).verify ⟨fun _ => .ok (.initialization ["eager"]), fun _ => ""⟩
      ⟨[.ok (some [])], [], []⟩).2.log = events ∧ ¬ (new [eagerMethod]).FinishesOnce events := by
  refine ⟨_, rfl, fun h => ?_⟩
  obtain ⟨hlast, -⟩ := h [.sent (.initialization ["eager"]), .sent (.startMethod "eager")]
    [.returned "eager" true, .sent .finished] rfl
  cases hlast

end Verifier

end Auth

end Distant
