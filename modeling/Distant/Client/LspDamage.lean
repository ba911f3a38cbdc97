import Distant.Client.Lsp

/-!
# Damaged LSP messages

The other end of an LSP process sends what it likes. `IsInvalidMessage` says which bytes are a
message that has come whole and is none: a line of the header that is bad, or a body that is not
JSON. `Survives` says what the reader should do with them.

It does not. A length that no vector can hold makes it panic, and every error of the parser is taken
for a message that has not come whole, so that nothing behind an invalid message is ever read
(`stream_blocked`). `survives_iff` says that there is nothing else wrong.
-/

namespace Distant

open Drain (stream)

variable {ν : Type}

/-! ## Invalid messages -/

/-- Lines up to their newlines. -/
def rawLines (lines : List Bytes) : Bytes := lines.flatMap fun line => line ++ [0x0a]

/-- The length that a line announces, as the header of one line that it is. -/
def announcedBy (line : Bytes) : Option Nat :=
  match fromUtf8 (line ++ [0x0a]) with
  | none => none
  | some text =>
    match LspHeader.fromStr text with
    | .error _ => none
    | .ok header => some header.contentLength

/-- What the last line says that announces a length. -/
def announced (lines : List Bytes) : Nat := (lines.filterMap announcedBy).getLast?.getD 0

/-- The line ends as the line of a header does, and is text. -/
def IsHeaderLine (line : Bytes) : Prop := ∃ text, line = utf8Bytes text ++ [0x0d]

/-- What can be wrong with a message that has come whole. -/
inductive Damaged (json : SerdeJson ν) (lines : List Bytes) (body : Bytes) : Prop
  | line (h : ∃ line ∈ lines, ¬ IsHeaderLine line) (hlen : body.length = announced lines)
  | header (texts : List String) (e : LspHeaderParseError)
      (htexts : lines = texts.map fun text => utf8Bytes text ++ [0x0d])
      (h : LspHeader.fromStr (headerText texts) = .error e)
      (hlen : body.length = announced lines)
  | content (texts : List String) (header : LspHeader) (e : LspMsgParseError)
      (htexts : lines = texts.map fun text => utf8Bytes text ++ [0x0d])
      (hheader : LspHeader.fromStr (headerText texts) = .ok header)
      (hlen : body.length = header.contentLength) (hfits : body.length < 2 ^ 63)
      (h : LspMsg.parseContent json body = .error e)

/-- The lines of a header, the empty line that ends it and the body, one of which is damaged. -/
def IsInvalidMessage (json : SerdeJson ν) (bs : Bytes) : Prop :=
  ∃ lines body, (∀ line ∈ lines, 0x0a ∉ line ∧ line ≠ [0x0d]) ∧
    bs = rawLines lines ++ ([0x0d, 0x0a] ++ body) ∧ Damaged json lines body

/-- The bytes begin with a header that announces more than a vector can hold. -/
def IsOversized (bs : Bytes) : Prop :=
  ∃ lines header rest, (∀ line ∈ lines, line ≠ "" ∧ '\n' ∉ line.toList) ∧
    LspHeader.fromStr (headerText lines) = .ok header ∧ 2 ^ 63 ≤ header.contentLength ∧
    bs = utf8Bytes (headerText lines) ++ rest

/-- The messages come whole, each with what it is read as. -/
def AllMessages (json : SerdeJson ν) (ms : List (Bytes × LspMsg ν)) : Prop :=
  ∀ m ∈ ms, IsMessage json m.1 m.2

/-- Behind whole messages there is an invalid one. -/
def HasInvalid (json : SerdeJson ν) (input : Bytes) : Prop :=
  ∃ before bad rest, AllMessages json before ∧ IsInvalidMessage json bad ∧
    input = stream before ++ (bad ++ rest)

/-- Behind whole messages there is one that announces too much. -/
def HasOversized (json : SerdeJson ν) (input : Bytes) : Prop :=
  ∃ before bs, AllMessages json before ∧ IsOversized bs ∧ input = stream before ++ bs

/-- No input makes the reader panic, and it does not wait for the rest of a message that is there. -/
structure Survives (json : SerdeJson ν) (input : Bytes) : Prop where
  reads : ∀ panic, LspMsg.fromBufReader json input ≠ .error panic
  noPanic : ∀ panic, readLspMessages json input ≠ .error (.panic panic)
  /-- an invalid message is not kept as one that is incomplete -/
  gone : ∀ before bad rest, AllMessages json before → IsInvalidMessage json bad →
    input = stream before ++ (bad ++ rest) →
    ∀ queue, readLspMessages json input ≠ .ok (some (bad ++ rest), queue)
  /-- the valid ones are delivered, those behind the invalid one too -/
  delivered : ∀ before bad after rest, AllMessages json before → IsInvalidMessage json bad →
    AllMessages json after → input = stream before ++ (bad ++ (stream after ++ rest)) →
    ∃ remainder queue, readLspMessages json input = .ok (remainder, queue) ∧
      (before ++ after).map Prod.snd <+: queue

section Damage

variable {json : SerdeJson ν} {line bad p rest bs : Bytes} {lines : List Bytes}

/-! ## Lines of a header -/

theorem rawLines_cons (line : Bytes) (lines : List Bytes) (rest : Bytes) :
    rawLines (line :: lines) ++ rest = line ++ 0x0a :: (rawLines lines ++ rest) := by
  simp [rawLines]

theorem exists_crlf_of_isSuffixOf {s : String} (h : "\r\n".toList.isSuffixOf s.toList = true) :
    ∃ text, s = crlf text := by
  obtain ⟨front, hfront⟩ := List.isSuffixOf_iff_suffix.mp h
  refine ⟨String.ofList front, ?_⟩
  apply String.toList_inj.mp
  rw [toList_crlf, String.toList_ofList]
  exact hfront.symm

/-- A bad line is an error. -/
theorem readHeaderLines_bad (h : 0x0a ∉ line) (hbad : ¬ IsHeaderLine line) (bound : Nat)
    (buf : String) (rest : Bytes) :
    ∃ e, readHeaderLines bound buf (line ++ 0x0a :: rest) = .error e := by
  cases bound with
  | zero => exact ⟨_, rfl⟩
  | succ bound =>
      simp only [readHeaderLines, readLine, takeLine_append h]
      cases hs : fromUtf8 (line ++ [0x0a]) with
      | none => exact ⟨_, rfl⟩
      | some s =>
          have hends : "\r\n".toList.isSuffixOf s.toList = false := by
            rw [← Bool.not_eq_true]
            intro hsuffix
            obtain ⟨text, rfl⟩ := exists_crlf_of_isSuffixOf hsuffix
            have hbytes := fromUtf8_eq_some_iff.mp hs
            rw [utf8Bytes_crlf, List.append_left_inj] at hbytes
            exact hbad ⟨text, hbytes.symm⟩
          simp only [hends]
          split
          · exact ⟨_, rfl⟩
          · exact ⟨_, rfl⟩

/-- What a line begins with has no newline, or the line is there. -/
theorem prefix_line (h : 0x0a ∉ line) (hp : p <+: line ++ 0x0a :: rest) :
    0x0a ∉ p ∨ ∃ q, p = line ++ 0x0a :: q ∧ q <+: rest := by
  obtain ⟨tail, htail⟩ := hp
  rcases List.append_eq_append_iff.mp htail with ⟨left, hleft, -⟩ | ⟨q, rfl, hq⟩
  · left
    rw [hleft, List.mem_append, not_or] at h
    exact h.1
  · cases q with
    | nil =>
        left
        rwa [List.append_nil]
    | cons b q =>
        rw [List.cons_append, List.cons.injEq] at hq
        obtain ⟨rfl, hq⟩ := hq
        exact .inr ⟨q, rfl, tail, hq.symm⟩

/-- A good line is one of a header. -/
theorem IsHeaderLine.exists_crlf (h : IsHeaderLine line) (hmem : 0x0a ∉ line) :
    ∃ text, '\n' ∉ text.toList ∧ ∀ rest, line ++ 0x0a :: rest = utf8Bytes (crlf text) ++ rest := by
  obtain ⟨text, rfl⟩ := h
  refine ⟨text, ?_, fun rest => by simp [utf8Bytes_crlf]⟩
  intro hnewline
  exact hmem (List.mem_append_left _ (newline_mem_utf8Bytes_iff.mpr hnewline))

/-- A header with a bad line is not read, whatever has come of it. -/
theorem readHeaderLines_damaged (hlines : ∀ line ∈ lines, 0x0a ∉ line ∧ line ≠ [0x0d])
    (hbad : ∃ line ∈ lines, ¬ IsHeaderLine line) (hp : p <+: rawLines lines ++ rest)
    (bound : Nat) (buf : String) : ∃ e, readHeaderLines bound buf p = .error e := by
  -- over the lines in front of the bad one, each of which is there as a whole
  induction lines generalizing p bound buf with
  | nil => simp at hbad
  | cons line lines ih =>
      obtain ⟨hmem, hne⟩ := hlines line List.mem_cons_self
      rw [rawLines_cons] at hp
      rcases prefix_line hmem hp with hnone | ⟨q, rfl, hq⟩
      · exact readHeaderLines_of_not_mem bound buf hnone
      · by_cases hline : IsHeaderLine line
        · cases bound with
          | zero => exact ⟨_, rfl⟩
          | succ bound =>
              obtain ⟨text, htext, hbytes⟩ := hline.exists_crlf hmem
              have hempty : text ≠ "" := by
                rintro rfl
                have hcr : line ++ [0x0a] = [0x0d] ++ [0x0a] := hbytes []
                exact hne (List.append_cancel_right hcr)
              rw [hbytes, readHeaderLines_crlf bound buf hempty htext]
              have hlater : ∃ line ∈ lines, ¬ IsHeaderLine line := by
                obtain ⟨l, hl, hlbad⟩ := hbad
                rcases List.mem_cons.mp hl with rfl | hl
                · exact absurd hline hlbad
                · exact ⟨l, hl, hlbad⟩
              exact ih (fun l hl => hlines l (List.mem_cons_of_mem _ hl)) hlater hq _ _
        · exact readHeaderLines_bad hmem hline bound buf q

theorem rawLines_texts (texts : List String) :
    rawLines (texts.map fun text => utf8Bytes text ++ [0x0d]) ++ [0x0d, 0x0a] =
      utf8Bytes (headerText texts) := by
  induction texts with
  | nil => rfl
  | cons text texts ih =>
      rw [List.map_cons, rawLines_cons, ih, headerText_cons, utf8Bytes_append, utf8Bytes_crlf]
      simp

/-- The lines before the empty one, as texts. -/
theorem lines_of_texts {texts : List String}
    (h : ∀ line ∈ texts.map fun text => utf8Bytes text ++ [0x0d], 0x0a ∉ line ∧ line ≠ [0x0d]) :
    ∀ text ∈ texts, text ≠ "" ∧ '\n' ∉ text.toList := by
  intro text htext
  obtain ⟨hmem, hne⟩ := h _ (List.mem_map_of_mem htext)
  refine ⟨?_, fun hnewline => ?_⟩
  · rintro rfl
    exact hne rfl
  · exact hmem (List.mem_append_left _ (newline_mem_utf8Bytes_iff.mpr hnewline))

/-! ## Invalid messages are errors -/

/-- A whole header, and what its length and the body come to. -/
theorem fromBufReader_header {texts : List String}
    (htexts : ∀ text ∈ texts, text ≠ "" ∧ '\n' ∉ text.toList)
    (hp : p <+: utf8Bytes (headerText texts) ++ bs)
    (hall : ∀ q, q <+: bs → ∃ e,
      LspMsg.fromBufReader json (utf8Bytes (headerText texts) ++ q) = .ok (.error e)) :
    ∃ e, LspMsg.fromBufReader json p = .ok (.error e) := by
  obtain ⟨tail, htail⟩ := hp
  rcases List.append_eq_append_iff.mp htail with ⟨left, hleft, -⟩ | ⟨q, rfl, hq⟩
  · by_cases heq : p = utf8Bytes (headerText texts)
    · have hnone := hall [] List.nil_prefix
      rwa [List.append_nil, ← heq] at hnone
    · obtain ⟨e, he⟩ := readHeaderLines_cut htexts ⟨left, hleft.symm⟩ heq (p.length + 1) ""
      exact ⟨e, by simp only [LspMsg.fromBufReader, he]⟩
  · exact hall q ⟨tail, hq.symm⟩

theorem IsInvalidMessage.isEmpty_append (h : IsInvalidMessage json bad) (rest : Bytes) :
    (bad ++ rest).isEmpty = false := by
  obtain ⟨lines, body, -, rfl, -⟩ := h
  simp

/-- What there is of an invalid message and what follows it is never read. -/
theorem fromBufReader_invalid (h : IsInvalidMessage json bad) (hp : p <+: bad ++ rest) :
    ∃ e, LspMsg.fromBufReader json p = .ok (.error e) := by
  obtain ⟨lines, body, hlines, rfl, hdamaged⟩ := h
  cases hdamaged with
  | line hbad hlen =>
      -- the error comes before the empty line is reached
      rw [List.append_assoc] at hp
      obtain ⟨e, he⟩ := readHeaderLines_damaged hlines hbad hp (p.length + 1) ""
      exact ⟨e, by simp only [LspMsg.fromBufReader, he]⟩
  | header texts e htexts herror hlen =>
      subst htexts
      have hvalid := lines_of_texts hlines
      rw [← List.append_assoc, rawLines_texts, List.append_assoc] at hp
      refine fromBufReader_header hvalid hp fun q _ => ⟨.badHeader e, ?_⟩
      rw [LspMsg.fromBufReader, readHeaderLines_length hvalid]
      simp only [herror]
  | content texts header e htexts hheader hlen hfits herror =>
      subst htexts
      have hvalid := lines_of_texts hlines
      rw [← List.append_assoc, rawLines_texts, List.append_assoc] at hp
      refine fromBufReader_header hvalid hp fun q hq => ?_
      rw [LspMsg.fromBufReader, readHeaderLines_length hvalid]
      simp only [hheader, LspMsg.readContent, if_neg (show ¬ 2 ^ 63 ≤ header.contentLength by omega)]
      -- the body has come whole, or it has not
      by_cases hshort : q.length < header.contentLength
      · exact ⟨.unexpectedEof, by rw [if_pos hshort]⟩
      · obtain ⟨tail, htail⟩ := hq
        have hbody : q.take header.contentLength = body := by
          have hle : header.contentLength ≤ q.length := Nat.not_lt.mp hshort
          rw [← List.take_append_of_le_length hle, htail, ← hlen, List.take_left' rfl]
        exact ⟨e, by simp only [if_neg hshort, hbody, herror]⟩

/-! ## What is read is a message -/

/-- A header that is read is one of the bytes, up to an empty line. -/
theorem exists_lines_of_readHeaderLines {bound : Nat} {buf buf' : String} {input rest : Bytes}
    (h : readHeaderLines bound buf input = .ok (buf', rest)) :
    ∃ lines, (∀ line ∈ lines, line ≠ "" ∧ '\n' ∉ line.toList) ∧ buf' = buf ++ headerText lines ∧
      input = utf8Bytes (headerText lines) ++ rest := by
  -- the line that is read is the one up to the first newline, and it is a good one
  induction bound generalizing buf input with
  | zero => cases h
  | succ bound ih =>
      by_cases hnewline : 0x0a ∈ input
      · obtain ⟨line, tail, rfl, hmem⟩ := List.eq_append_cons_of_mem hnewline
        by_cases hline : IsHeaderLine line
        · obtain ⟨text, htext, hbytes⟩ := hline.exists_crlf hmem
          rw [hbytes] at h
          by_cases hempty : text = ""
          · -- the header ends
            subst hempty
            rw [show crlf "" = "\r\n" from rfl, readHeaderLines_empty] at h
            cases h
            exact ⟨[], by simp, rfl, hbytes _⟩
          · rw [readHeaderLines_crlf bound buf hempty htext] at h
            obtain ⟨lines, hlines, rfl, rfl⟩ := ih h
            refine ⟨text :: lines, List.forall_mem_cons.mpr ⟨⟨hempty, htext⟩, hlines⟩, ?_, ?_⟩
            · rw [headerText_cons, String.append_assoc]
            · rw [hbytes, headerText_cons, utf8Bytes_append, List.append_assoc]
        · obtain ⟨e, he⟩ := readHeaderLines_bad hmem hline (bound + 1) buf tail
          rw [he] at h
          cases h
      · obtain ⟨e, he⟩ := readHeaderLines_of_not_mem (bound + 1) buf hnewline
        rw [he] at h
        cases h

theorem readContent_eq_ok {n : Nat} {input : Bytes}
    (h : LspMsg.readContent n input = .ok (.ok (bs, rest))) :
    n < 2 ^ 63 ∧ bs.length = n ∧ input = bs ++ rest := by
  unfold LspMsg.readContent at h
  split_ifs at h with hlarge hshort
  · cases h
  · cases h
    refine ⟨Nat.not_le.mp hlarge, ?_, (List.take_append_drop _ _).symm⟩
    rw [List.length_take]
    omega

theorem readContent_eq_error {n : Nat} {input : Bytes} {panic : Panic}
    (h : LspMsg.readContent n input = .error panic) : 2 ^ 63 ≤ n := by
  by_contra hfits
  rw [LspMsg.readContent, if_neg hfits] at h
  split at h
  · cases h
  · cases h

theorem parseContent_eq_ok {content : LspContent ν} (h : LspMsg.parseContent json bs = .ok content) :
    ∃ body, bs = utf8Bytes body ∧ json.fromStr body = .ok content := by
  unfold LspMsg.parseContent at h
  cases hs : fromUtf8 bs with
  | none =>
      rw [hs] at h
      cases h
  | some body =>
      rw [hs] at h
      exact ⟨body, (fromUtf8_eq_some_iff.mp hs).symm, mapError_eq_ok_iff.mp h⟩

/-- Where there is no error, there is a header. -/
theorem exists_header_of_fromBufReader {input : Bytes}
    (h : ∀ e, LspMsg.fromBufReader json input ≠ .ok (.error e)) :
    ∃ lines header rest, (∀ line ∈ lines, line ≠ "" ∧ '\n' ∉ line.toList) ∧
      LspHeader.fromStr (headerText lines) = .ok header ∧
      input = utf8Bytes (headerText lines) ++ rest := by
  unfold LspMsg.fromBufReader at h
  cases hread : readHeaderLines (input.length + 1) "" input with
  | error e => exact absurd (by rw [hread]) (h e)
  | ok result =>
      obtain ⟨buf, rest⟩ := result
      obtain ⟨lines, hlines, hbuf, hinput⟩ := exists_lines_of_readHeaderLines hread
      rw [String.empty_append] at hbuf
      subst hbuf
      cases hheader : LspHeader.fromStr (headerText lines) with
      | error e => exact absurd (by rw [hread]; simp only [hheader]) (h (.badHeader e))
      | ok header => exact ⟨lines, header, rest, hlines, hheader, hinput⟩

/-- A message that is read was there. -/
theorem exists_message_of_fromBufReader {msg : LspMsg ν} {input : Bytes}
    (h : LspMsg.fromBufReader json input = .ok (.ok (msg, rest))) :
    ∃ m, IsMessage json m msg ∧ input = m ++ rest := by
  have hany : ∀ e, LspMsg.fromBufReader json input ≠ .ok (.error e) := fun e => by simp [h]
  obtain ⟨lines, header, tail, hlines, hheader, rfl⟩ := exists_header_of_fromBufReader hany
  rw [LspMsg.fromBufReader, readHeaderLines_length hlines] at h
  simp only [hheader] at h
  split at h
  · cases h
  · cases h
  · next bs rest' hbs =>
      split at h
      · cases h
      · next content hcontent =>
          cases h
          obtain ⟨hfits, hlen, rfl⟩ := readContent_eq_ok hbs
          obtain ⟨body, rfl, hjson⟩ := parseContent_eq_ok hcontent
          refine ⟨_, ⟨lines, body, hlines, hheader, hlen.symm, ?_, hjson, rfl⟩, ?_⟩
          · rw [hlen]
            exact hfits
          · rw [List.append_assoc]

/-- It panics at a header that announces too much, and nowhere else. -/
theorem fromBufReader_eq_error_iff {input : Bytes} :
    (∃ panic, LspMsg.fromBufReader json input = .error panic) ↔ IsOversized input := by
  constructor
  · rintro ⟨panic, h⟩
    have hany : ∀ e, LspMsg.fromBufReader json input ≠ .ok (.error e) := fun e => by simp [h]
    obtain ⟨lines, header, tail, hlines, hheader, rfl⟩ := exists_header_of_fromBufReader hany
    refine ⟨lines, header, tail, hlines, hheader, ?_, rfl⟩
    rw [LspMsg.fromBufReader, readHeaderLines_length hlines] at h
    simp only [hheader] at h
    split at h
    · next panic' hpanic => exact readContent_eq_error hpanic
    · cases h
    · split at h
      · cases h
      · cases h
  · rintro ⟨lines, header, tail, hlines, hheader, hlarge, rfl⟩
    refine ⟨.capacity, ?_⟩
    rw [LspMsg.fromBufReader, readHeaderLines_length hlines]
    simp only [hheader, LspMsg.readContent, if_pos hlarge]

/-! ## What becomes of a stream -/

/-- The loop stops for every error, and passes panics on. -/
theorem readLspMessage_eq_error_iff {input : Bytes} {fault : Fault} :
    readLspMessage json input = .error fault ↔
      ∃ panic, fault = .panic panic ∧ LspMsg.fromBufReader json input = .error panic := by
  unfold readLspMessage
  constructor
  · intro h
    split at h
    · next panic hpanic =>
        cases h
        exact ⟨panic, rfl, hpanic⟩
    · cases h
    · cases h
  · rintro ⟨panic, rfl, h⟩
    rw [h]

theorem readLspMessage_invalid (h : IsInvalidMessage json bad) (hp : p <+: bad ++ rest) :
    readLspMessage json p = .ok none := by
  obtain ⟨e, he⟩ := fromBufReader_invalid h hp
  unfold readLspMessage
  rw [he]

theorem exists_message_of_readLspMessage (buf : Bytes) (msg : LspMsg ν) (left : Bytes)
    (h : readLspMessage json buf = .ok (some (msg, left))) :
    ∃ m, IsMessage json m msg ∧ buf = m ++ left := by
  unfold readLspMessage at h
  split at h
  · cases h
  · cases h
  · next msg' rest hmsg =>
      cases h
      exact exists_message_of_fromBufReader hmsg

/-- It panics at the first message that announces too much, which is all that can stop it. -/
theorem readLspMessages_eq_error_iff {input : Bytes} :
    (∃ panic, readLspMessages json input = .error (.panic panic)) ↔ HasOversized json input := by
  rw [readLspMessages]
  constructor
  · rintro ⟨panic, h⟩
    split at h
    · next e hdrain =>
        obtain ⟨before, bs, hbefore, rfl, hbs⟩ :=
          Drain.drain_eq_error exists_message_of_readLspMessage hdrain
        obtain ⟨panic', -, hpanic⟩ := readLspMessage_eq_error_iff.mp hbs
        exact ⟨before, bs, hbefore, fromBufReader_eq_error_iff.mp ⟨panic', hpanic⟩, rfl⟩
    · cases h
  · rintro ⟨before, bs, hbefore, hlarge, rfl⟩
    obtain ⟨panic, hpanic⟩ : ∃ panic, LspMsg.fromBufReader json bs = .error panic :=
      fromBufReader_eq_error_iff.mpr hlarge
    have herror := readLspMessage_eq_error_iff.mpr ⟨panic, rfl, hpanic⟩
    refine ⟨panic, ?_⟩
    rw [Drain.drain_stream_error (delimits_isMessage json) hbefore herror (Nat.lt_succ_self _)]

/-- It stops at an invalid message, which stays in the buffer with all that follows it. -/
theorem readLspMessages_invalid {before : List (Bytes × LspMsg ν)} (hbefore : AllMessages json before)
    (h : IsInvalidMessage json bad) (rest : Bytes) :
    readLspMessages json (stream before ++ (bad ++ rest)) =
      .ok (some (bad ++ rest), before.map Prod.snd) := by
  have hnone : readLspMessage json (bad ++ rest) = .ok none :=
    readLspMessage_invalid h (List.prefix_refl _)
  rw [readLspMessages, Drain.drain_stream (delimits_isMessage json) hbefore hnone
    (Nat.lt_succ_self _)]
  simp only [h.isEmpty_append, Bool.false_eq_true, if_false]

/-- However the stream is cut, what was sent before an invalid message is passed on in both
directions, and nothing that was sent after it. -/
theorem stream_blocked (scheme : Option String) (inner : RemoteStdin)
    {before : List (Bytes × LspMsg ν)} (hbefore : AllMessages json before)
    (h : IsInvalidMessage json bad) {chunks : List Bytes}
    (hchunks : chunks.flatten = stream before ++ (bad ++ rest)) :
    (∃ inner', (RemoteLspStdin.new inner scheme).writeAll json chunks =
        .ok ⟨inner', some (bad ++ rest), scheme⟩ ∧
      inner'.sent = inner.sent ++ before.map fun m => passOn json m.2 (contentIn scheme m.2)) ∧
    ∃ outs : List Bytes, ReadTask.run json scheme none chunks =
        .ok (outs.map .ok, some (bad ++ rest)) ∧
      outs.flatten = before.flatMap fun m => passOn json m.2 (contentOut scheme m.2) := by
  -- each time the buffer is drained, the invalid message is in front of what has come
  have hfeed : Drain.feedAll (readLspMessage json) [] chunks =
      .ok (before.map Prod.snd, bad ++ rest) := by
    apply Drain.feedAll_stuck (delimits_isMessage json) hbefore
    · exact fun q hq => readLspMessage_invalid h hq
    · rfl
    · exact hchunks
  have hbuf : bufOf (bad ++ rest) = some (bad ++ rest) := by
    unfold bufOf
    rw [h.isEmpty_append, if_neg Bool.false_ne_true]
  constructor
  · obtain ⟨inner', hwrite, hsent⟩ := writeAll_of_feedAll scheme inner hfeed
    rw [hbuf] at hwrite
    refine ⟨inner', hwrite, ?_⟩
    rw [hsent, List.map_map]
    rfl
  · obtain ⟨outs, hrun, houts⟩ := run_of_feedAll scheme hfeed
    rw [hbuf] at hrun
    refine ⟨outs, hrun, ?_⟩
    rw [houts, List.flatMap_map]

/-! ## What survives -/

/-- The reader survives the inputs that have neither a message that announces too much nor an
invalid one. -/
theorem survives_iff (json : SerdeJson ν) (input : Bytes) :
    Survives json input ↔ ¬ HasOversized json input ∧ ¬ HasInvalid json input := by
  constructor
  · intro h
    constructor
    · intro hlarge
      obtain ⟨panic, hpanic⟩ := readLspMessages_eq_error_iff.mpr hlarge
      exact h.noPanic panic hpanic
    · rintro ⟨before, bad, rest, hbefore, hbad, rfl⟩
      exact h.gone before bad rest hbefore hbad rfl _ (readLspMessages_invalid hbefore hbad rest)
  · rintro ⟨hsmall, hvalid⟩
    refine ⟨?_, ?_, ?_, ?_⟩
    · intro panic hpanic
      have hlarge := fromBufReader_eq_error_iff.mp ⟨panic, hpanic⟩
      exact hsmall ⟨[], input, by simp [AllMessages], hlarge, rfl⟩
    · intro panic hpanic
      exact hsmall (readLspMessages_eq_error_iff.mp ⟨panic, hpanic⟩)
    · intro before bad rest hbefore hbad hinput
      exact absurd ⟨before, bad, rest, hbefore, hbad, hinput⟩ hvalid
    · intro before bad after rest hbefore hbad _ hinput
      exact absurd ⟨before, bad, _, hbefore, hbad, hinput⟩ hvalid

end Damage

namespace Converting

def hugeHeader : LspHeader := ⟨2 ^ 63, none⟩

theorem isOversized_huge : IsOversized (utf8Bytes hugeHeader.display) := by
  have hdisplayable : hugeHeader.Displayable := ⟨by decide, by simp [hugeHeader]⟩
  refine ⟨hugeHeader.fields, hugeHeader, [], ?_, ?_, le_refl _, ?_⟩
  · intro line hline
    have hfield := hdisplayable.of_mem_fields hline
    exact ⟨hfield.1, hfield.2.1⟩
  · exact LspHeader.fromStr_fields hdisplayable (List.Perm.refl _)
  · rw [LspHeader.display_eq, List.append_nil]

def listHeader : LspHeader := ⟨2, none⟩

/-- A list where an object should be. -/
def listBytes : Bytes := utf8Bytes listHeader.display ++ utf8Bytes "[]"

theorem isInvalidMessage_list : IsInvalidMessage uriJson listBytes := by
  have hdisplayable : listHeader.Displayable := ⟨by decide, by simp [listHeader]⟩
  refine ⟨_, utf8Bytes "[]", ?_, ?_, .content listHeader.fields listHeader
    (.badContent "expected value at line 1 column 1") rfl ?_ rfl (by decide) ?_⟩
  · intro line hline
    obtain ⟨text, htext, rfl⟩ := List.mem_map.mp hline
    obtain ⟨hne, hnewline, -⟩ := hdisplayable.of_mem_fields htext
    refine ⟨not_mem_line hnewline, fun heq => hne ?_⟩
    exact utf8Bytes_injective (List.append_left_eq_self.mp heq)
  · rw [← List.append_assoc, rawLines_texts, ← LspHeader.display_eq]
    rfl
  · exact LspHeader.fromStr_fields hdisplayable (List.Perm.refl _)
  · rfl

/-- A header is enough for a panic; and a message behind a list is not read. -/
theorem not_survives :
    ¬ Survives uriJson (utf8Bytes hugeHeader.display) ∧ ¬ Survives uriJson (listBytes ++ uriBytes) := by
  constructor
  · intro h
    obtain ⟨panic, hpanic⟩ := fromBufReader_eq_error_iff.mpr isOversized_huge
    exact h.reads panic hpanic
  · intro h
    have hbefore : AllMessages uriJson [] := by simp [AllMessages]
    have hafter : AllMessages uriJson [(uriBytes, uriMsg)] :=
      List.forall_mem_singleton.mpr isMessage_uri
    obtain ⟨remainder, queue, hqueue, hprefix⟩ :=
      h.delivered [] listBytes _ [] hbefore isInvalidMessage_list hafter (by simp [stream])
    have hstops := readLspMessages_invalid hbefore isInvalidMessage_list uriBytes
    have hnone : queue = [] := by
      have heq := hqueue.symm.trans hstops
      cases heq
      rfl
    rw [hnone] at hprefix
    cases List.prefix_nil.mp hprefix

end Converting

end Distant
