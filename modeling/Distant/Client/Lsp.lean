import Distant.Client.LspMsg
import Distant.Lib.Drain

/-!
# LSP processes

What is written to the stdin of an LSP process, and what comes in from its stdout or stderr, is kept
in a buffer until there are whole messages in it. These are converted from one URI scheme to the
other, and passed on.

The result is `messages_converted`: however the stream of messages is cut into chunks, what is passed
on is each whole message, once and in order, and the buffer holds the beginning of the next one.
-/

namespace Distant

open Drain (Begun Delimits feed feedAll stream)

variable {ν : Type}

/-- The sender behind the stdin of a process, whose receiver is there: what has been sent. -/
structure RemoteStdin where
  sent : List Bytes

def RemoteStdin.writeStr (stdin : RemoteStdin) (data : String) : RemoteStdin :=
  ⟨stdin.sent ++ [utf8Bytes data]⟩

/-! ## Reading messages -/

/-- The condition of the loop of `read_lsp_messages`: no matter what the error is, it ends. -/
def readLspMessage (json : SerdeJson ν) (input : Bytes) : Except Fault (Option (LspMsg ν × Bytes)) :=
  match LspMsg.fromBufReader json input with
  | .error panic => .error (.panic panic)
  | .ok (.error _) => .ok none
  | .ok (.ok (msg, rest)) => .ok (some (msg, rest))

/-- The messages, and the bytes behind them if there are any. -/
@[irreducible] def readLspMessages (json : SerdeJson ν) (input : Bytes) :
    Except Fault (Option Bytes × List (LspMsg ν)) :=
  match Drain.drain (readLspMessage json) (input.length + 1) input with
  | .error e => .error e
  | .ok (queue, remainder) => .ok (if remainder.isEmpty then none else some remainder, queue)

/-! ## Writing to stdin -/

structure RemoteLspStdin where
  inner : RemoteStdin
  buf : Option Bytes
  scheme : Option String

namespace RemoteLspStdin

def new (inner : RemoteStdin) (scheme : Option String) : RemoteLspStdin := ⟨inner, none, scheme⟩

/-- Adds the data to the buffer and takes the messages out of it. After an error the buffer is what
it was, with the data. -/
def updateAndReadMessages (json : SerdeJson ν) (stdin : RemoteLspStdin) (data : Bytes) :
    Except Panic (RemoteLspStdin × Except IoError (List (LspMsg ν))) :=
  let buf :=
    match stdin.buf with
    | some buf => buf ++ data
    | none => data
  match readLspMessages json buf with
  | .ok (remainder, queue) => .ok ({ stdin with buf := remainder }, .ok queue)
  | .error (.io e) => .ok ({ stdin with buf := some buf }, .error e)
  | .error (.panic p) => .error p

/-- Converts `distant://` to `file://`. -/
def convert (json : SerdeJson ν) (scheme : Option String) (msg : LspMsg ν) : LspMsg ν :=
  let content :=
    match scheme with
    | some scheme => msg.content.convertSchemeToLocal scheme
    | none => msg.content.convertDistantSchemeToLocal
  { msg with content }.refreshContentLength json

/-- `write`, where each message is sent by itself. -/
def write (json : SerdeJson ν) (stdin : RemoteLspStdin) (data : Bytes) :
    Except Panic (RemoteLspStdin × Except IoError Unit) :=
  match stdin.updateAndReadMessages json data with
  | .error p => .error p
  | .ok (stdin, .error e) => .ok (stdin, .error e)
  | .ok (stdin, .ok queue) =>
    let send := fun (inner : RemoteStdin) msg =>
      inner.writeStr ((convert json stdin.scheme msg).display json)
    .ok ({ stdin with inner := queue.foldl send stdin.inner }, .ok ())

/-- Writes the chunks one after the other, until a write fails. -/
def writeAll (json : SerdeJson ν) : RemoteLspStdin → List Bytes → Except Fault RemoteLspStdin
  | stdin, [] => .ok stdin
  | stdin, data :: chunks =>
    match stdin.write json data with
    | .error p => .error (.panic p)
    | .ok (_, .error e) => .error (.io e)
    | .ok (stdin, .ok ()) => stdin.writeAll json chunks

end RemoteLspStdin

/-! ## Reading from stdout and stderr -/

namespace ReadTask

/-- Converts `file://` to `distant://`. -/
def convert (json : SerdeJson ν) (scheme : Option String) (msg : LspMsg ν) : LspMsg ν :=
  let content :=
    match scheme with
    | some scheme => msg.content.convertLocalSchemeTo scheme
    | none => msg.content.convertLocalSchemeToDistant
  { msg with content }.refreshContentLength json

/-- The loop of the task that `spawn_read_task` starts, over what comes in: what it sends, whose
receiver is there, and what its buffer is left with. -/
def run (json : SerdeJson ν) (scheme : Option String) :
    Option Bytes → List Bytes → Except Panic (List (Except IoError Bytes) × Option Bytes)
  | taskBuf, [] => .ok ([], taskBuf)
  | taskBuf, data :: chunks =>
    let buf :=
      match taskBuf with
      | some buf => buf ++ data
      | none => data
    match readLspMessages json buf with
    | .error (.panic p) => .error p
    | .error (.io e) => .ok ([.error e], none)
    | .ok (remainder, queue) =>
      let out := queue.flatMap fun msg => (convert json scheme msg).toBytes json
      match run json scheme remainder chunks with
      | .error p => .error p
      | .ok (outs, left) => .ok (if queue.isEmpty then outs else .ok out :: outs, left)

end ReadTask

/-! ## What is passed on -/

/-- A message with another content, whose header announces as many bytes as this has. -/
def passOn (json : SerdeJson ν) (msg : LspMsg ν) (content : LspContent ν) : Bytes :=
  let body := utf8Bytes (json.toStringPretty content)
  utf8Bytes { msg.header with contentLength := body.length }.display ++ body

/-- The content for the process, which knows local files only. -/
def contentIn (scheme : Option String) (msg : LspMsg ν) : LspContent ν :=
  msg.content.convertSchemeToLocal (scheme.getD "distant")

/-- The content from the process. -/
def contentOut (scheme : Option String) (msg : LspMsg ν) : LspContent ν :=
  msg.content.convertLocalSchemeTo (scheme.getD "distant")

/-- What a buffer is when it holds the bytes. -/
def bufOf (p : Bytes) : Option Bytes := if p.isEmpty then none else some p

section Chunks

variable {json : SerdeJson ν} {msgs : List (LspMsg ν)} {p left data : Bytes}
  {chunks : List Bytes}

theorem delimits_isMessage (json : SerdeJson ν) :
    Delimits (readLspMessage json) (IsMessage json) where
  whole m msg rest h := by
    unfold readLspMessage
    rw [LspMsg.fromBufReader_message h]
  cut m msg p h hp hne := by
    obtain ⟨e, he⟩ := LspMsg.fromBufReader_cut h hp hne
    unfold readLspMessage
    rw [he]
  nonempty m msg h := by
    rintro rfl
    have hread := LspMsg.fromBufReader_message h []
    rw [List.append_nil, LspMsg.fromBufReader_nil] at hread
    cases hread
  nothing := rfl

theorem bufOf_append (p data : Bytes) :
    (match bufOf p with
      | some buf => buf ++ data
      | none => data) = p ++ data := by
  cases p with
  | nil => rfl
  | cons b p => rfl

theorem readLspMessages_of_feed (h : feed (readLspMessage json) p data = .ok (msgs, left)) :
    readLspMessages json (p ++ data) = .ok (bufOf left, msgs) := by
  have hdrain : Drain.drain (readLspMessage json) ((p ++ data).length + 1) (p ++ data) =
      .ok (msgs, left) := h
  rw [readLspMessages, hdrain]
  rfl

/-! ### stdin -/

theorem convert_in (json : SerdeJson ν) (scheme : Option String) (msg : LspMsg ν) :
    (RemoteLspStdin.convert json scheme msg).toBytes json =
      passOn json msg (contentIn scheme msg) := by
  rw [LspMsg.toBytes, LspMsg.display, utf8Bytes_append]
  cases scheme with
  | none => rfl
  | some scheme => rfl

theorem sent_foldl (json : SerdeJson ν) (scheme : Option String) (msgs : List (LspMsg ν))
    (inner : RemoteStdin) :
    (msgs.foldl (fun inner msg =>
      inner.writeStr ((RemoteLspStdin.convert json scheme msg).display json)) inner).sent =
      inner.sent ++ msgs.map fun msg => passOn json msg (contentIn scheme msg) := by
  induction msgs generalizing inner with
  | nil => simp
  | cons msg msgs ih =>
      rw [List.foldl_cons, ih, List.map_cons, ← convert_in]
      simp [RemoteStdin.writeStr, LspMsg.toBytes]

/-- The buffer is drained by one write, and what has come out is sent. -/
theorem write_of_feed (scheme : Option String) (inner : RemoteStdin)
    (h : feed (readLspMessage json) p data = .ok (msgs, left)) :
    ∃ inner', RemoteLspStdin.write json ⟨inner, bufOf p, scheme⟩ data =
        .ok (⟨inner', bufOf left, scheme⟩, .ok ()) ∧
      inner'.sent = inner.sent ++ msgs.map fun msg => passOn json msg (contentIn scheme msg) := by
  refine ⟨_, ?_, sent_foldl json scheme msgs inner⟩
  have hread := readLspMessages_of_feed h
  simp only [RemoteLspStdin.write, RemoteLspStdin.updateAndReadMessages, bufOf_append, hread]

theorem writeAll_of_feedAll (scheme : Option String) (inner : RemoteStdin)
    (h : feedAll (readLspMessage json) p chunks = .ok (msgs, left)) :
    ∃ inner', RemoteLspStdin.writeAll json ⟨inner, bufOf p, scheme⟩ chunks =
        .ok ⟨inner', bufOf left, scheme⟩ ∧
      inner'.sent = inner.sent ++ msgs.map fun msg => passOn json msg (contentIn scheme msg) := by
  induction chunks generalizing p inner msgs with
  | nil =>
      cases h
      exact ⟨inner, rfl, by simp⟩
  | cons data chunks ih =>
      obtain ⟨out, mid, outs, rfl, hfeed, hfeeds⟩ := Drain.feedAll_cons h
      obtain ⟨inner', hwrite, hsent⟩ := write_of_feed scheme inner hfeed
      obtain ⟨inner'', hwrites, hsent'⟩ := ih inner' hfeeds
      refine ⟨inner'', ?_, ?_⟩
      · rw [RemoteLspStdin.writeAll, hwrite]
        exact hwrites
      · rw [hsent', hsent, List.map_append, List.append_assoc]

/-! ### stdout and stderr -/

theorem convert_out (json : SerdeJson ν) (scheme : Option String) (msg : LspMsg ν) :
    (ReadTask.convert json scheme msg).toBytes json =
      passOn json msg (contentOut scheme msg) := by
  rw [LspMsg.toBytes, LspMsg.display, utf8Bytes_append]
  cases scheme with
  | none => rfl
  | some scheme => rfl

theorem run_of_feedAll (scheme : Option String)
    (h : feedAll (readLspMessage json) p chunks = .ok (msgs, left)) :
    ∃ outs : List Bytes, ReadTask.run json scheme (bufOf p) chunks =
        .ok (outs.map .ok, bufOf left) ∧
      outs.flatten = msgs.flatMap fun msg => passOn json msg (contentOut scheme msg) := by
  induction chunks generalizing p msgs with
  | nil =>
      cases h
      exact ⟨[], rfl, rfl⟩
  | cons data chunks ih =>
      obtain ⟨out, mid, outs, rfl, hfeed, hfeeds⟩ := Drain.feedAll_cons h
      obtain ⟨later, hrun, hlater⟩ := ih hfeeds
      have hread := readLspMessages_of_feed hfeed
      have hconvert : (fun msg => (ReadTask.convert json scheme msg).toBytes json) =
          fun msg => passOn json msg (contentOut scheme msg) :=
        funext fun msg => convert_out json scheme msg
      simp only [ReadTask.run, bufOf_append, hread, hrun, hconvert]
      cases out with
      | nil => exact ⟨later, rfl, hlater⟩
      | cons msg msgs =>
          refine ⟨((msg :: msgs).flatMap fun msg => passOn json msg (contentOut scheme msg)) ::
            later, rfl, ?_⟩
          rw [List.flatten_cons, hlater, List.flatMap_append]

/-! ### Chunks -/

/-- However the messages are cut into chunks, what is written to the process and what is received
from it is each whole message that has come, once and in order, with its scheme converted; and the
buffers hold the bytes of the message that has not come whole. -/
theorem messages_converted (json : SerdeJson ν) (scheme : Option String) (inner : RemoteStdin)
    {ms : List (Bytes × LspMsg ν)} (hms : ∀ m ∈ ms, IsMessage json m.1 m.2) {chunks : List Bytes}
    (hchunks : chunks.flatten <+: stream ms) :
    ∃ done rest p, ms = done ++ rest ∧ chunks.flatten = stream done ++ p ∧ Begun rest p ∧
      (chunks.flatten = stream ms → rest = [] ∧ p = []) ∧
      (∃ inner', (RemoteLspStdin.new inner scheme).writeAll json chunks =
          .ok ⟨inner', bufOf p, scheme⟩ ∧
        inner'.sent = inner.sent ++ done.map fun m => passOn json m.2 (contentIn scheme m.2)) ∧
      ∃ outs : List Bytes, ReadTask.run json scheme none chunks = .ok (outs.map .ok, bufOf p) ∧
        outs.flatten = done.flatMap fun m => passOn json m.2 (contentOut scheme m.2) := by
  have hread := delimits_isMessage json
  have hbegun : Begun ms [] := by
    cases ms with
    | nil => rfl
    | cons m ms =>
        have hne := hread.nonempty m.1 m.2 (hms m List.mem_cons_self)
        exact ⟨List.nil_prefix, hne.symm⟩
  obtain ⟨done, rest, p, hsplit, hbytes, hp, hfeed⟩ :=
    Drain.feedAll_spec (p := []) hread hms hbegun hchunks
  rw [List.nil_append] at hbytes
  refine ⟨done, rest, p, hsplit, hbytes, hp, ?_, ?_, ?_⟩
  · intro hall
    have hnonempty : ∀ m ∈ ms, m.1 ≠ [] := fun m hm => hread.nonempty _ _ (hms m hm)
    exact Drain.eq_nil_of_begun hnonempty hsplit (hall ▸ hbytes) hp
  · obtain ⟨inner', hwrite, hsent⟩ := writeAll_of_feedAll scheme inner hfeed
    refine ⟨inner', hwrite, ?_⟩
    rw [hsent, List.map_map]
    rfl
  · obtain ⟨outs, hrun, houts⟩ := run_of_feedAll scheme hfeed
    refine ⟨outs, hrun, ?_⟩
    rw [houts, List.flatMap_map]

end Chunks

namespace Converting

/-- JSON for an object with one text that needs no escapes. -/
def uriJson : SerdeJson Unit where
  fromStr s :=
    if s = "\x7b\"uri\":\"distant:/a\"\x7d" then .ok [("uri", .string "distant:/a")]
    else .error "expected value at line 1 column 1"
  toStringPretty
    | [(key, .string s)] => "\x7b\n  \"" ++ key ++ "\": \"" ++ s ++ "\"\n\x7d"
    | _ => "\x7b\x7d"

def uriBody : String := "\x7b\"uri\":\"distant:/a\"\x7d"

def uriMsg : LspMsg Unit := ⟨⟨20, none⟩, [("uri", .string "distant:/a")]⟩

def uriBytes : Bytes := utf8Bytes (headerText ["Content-Length: 20"]) ++ utf8Bytes uriBody

theorem isMessage_uri : IsMessage uriJson uriBytes uriMsg :=
  isMessage_of_fields ⟨by decide, by simp⟩ (List.Perm.refl _) (by decide) (by decide) rfl

theorem begins_cut (bs : Bytes) (msg : LspMsg Unit) (n k : Nat) :
    [bs.take n, bs.drop n ++ bs.take k].flatten <+: stream [(bs, msg), (bs, msg)] := by
  refine ⟨bs.drop k, ?_⟩
  simp only [stream, List.flatten_cons, List.flatten_nil, List.flatMap_cons, List.flatMap_nil,
    List.append_nil, List.append_assoc, List.take_append_drop]
  rw [← List.append_assoc, List.take_append_drop]

/-- The first message, whose header is cut, is converted once it is there; half of the second
waits. -/
theorem uri_converted :
    ∃ done rest p, [(uriBytes, uriMsg), (uriBytes, uriMsg)] = done ++ rest ∧
      [uriBytes.take 19, uriBytes.drop 19 ++ uriBytes.take 30].flatten = stream done ++ p ∧
      Begun rest p ∧
      ([uriBytes.take 19, uriBytes.drop 19 ++ uriBytes.take 30].flatten =
        stream [(uriBytes, uriMsg), (uriBytes, uriMsg)] → rest = [] ∧ p = []) ∧
      (∃ inner', (RemoteLspStdin.new ⟨[]⟩ none).writeAll uriJson
          [uriBytes.take 19, uriBytes.drop 19 ++ uriBytes.take 30] =
          .ok ⟨inner', bufOf p, none⟩ ∧
        inner'.sent = [] ++ done.map fun m => passOn uriJson m.2 (contentIn none m.2)) ∧
      ∃ outs : List Bytes, ReadTask.run uriJson none none
          [uriBytes.take 19, uriBytes.drop 19 ++ uriBytes.take 30] =
          .ok (outs.map .ok, bufOf p) ∧
        outs.flatten = done.flatMap fun m => passOn uriJson m.2 (contentOut none m.2) := by
  refine messages_converted uriJson none ⟨[]⟩ ?_ (begins_cut uriBytes uriMsg 19 30)
  exact List.forall_mem_cons.mpr ⟨isMessage_uri, List.forall_mem_singleton.mpr isMessage_uri⟩

end Converting

end Distant
