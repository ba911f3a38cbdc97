import Mathlib.Data.List.Permutation
import Distant.Lib.Json
import Distant.Lib.Lines
import Distant.Lib.Text

/-!
# LSP messages

A message is a header of lines that end with `\r\n`, an empty line, and a JSON object of as many
bytes as the header announces. `fromBufReader` reads one off the front of some bytes, and converting
the content exchanges one URI scheme for another.

`IsMessage` says which bytes are a whole message. It is read whatever follows it
(`fromBufReader_message`), and nothing that it begins with is (`fromBufReader_cut`). The fields of a
header, in any order, and a body that is JSON are such a message (`isMessage_of_fields`).
-/

namespace Distant

structure LspHeader where
  /-- length of the content in bytes -/
  contentLength : Nat
  contentType : Option String
  deriving DecidableEq, Repr

/-- The content of a message is an object. -/
abbrev LspContent (ν : Type) := JsonMap ν

structure LspMsg (ν : Type) where
  header : LspHeader
  content : LspContent ν

inductive LspHeaderParseError where
  | missingContentLength
  | invalidContentLength (kind : IntErrorKind)
  | badHeaderField
  deriving DecidableEq, Repr

inductive LspMsgParseError where
  /-- with what the JSON parser says -/
  | badContent (text : String)
  | badHeader (e : LspHeaderParseError)
  | badHeaderTermination
  /-- the content is not UTF-8 -/
  | badInput
  | ioError (e : IoError)
  | unexpectedEof
  deriving DecidableEq, Repr

/-! ## Parsing -/

namespace LspHeader

/-- The loop over the lines of a header, with the fields that were found so far. -/
def parseFields : List (List Char) → Option Nat → Option String →
    Except LspHeaderParseError LspHeader
  | [], none, _ => .error .missingContentLength
  | [], some contentLength, contentType => .ok ⟨contentLength, contentType⟩
  | line :: lines, contentLength, contentType =>
    match line.span (· != ':') with
    | (_, []) => .error .badHeaderField
    | (name, _ :: value) =>
      if value.isEmpty then .error .badHeaderField
      else if name = "Content-Length".toList then
        match parseUsize (trim value) with
        | .error kind => .error (.invalidContentLength kind)
        | .ok n => parseFields lines (some n) contentType
      else if name = "Content-Type".toList then
        parseFields lines contentLength (some (String.ofList (trim value)))
      else .error .badHeaderField

def fromStr (s : String) : Except LspHeaderParseError LspHeader :=
  let lines := ((splitCrlf s.toList).map trim).filter fun line => !line.isEmpty
  parseFields lines none none

/-- How a header is displayed. -/
def display (h : LspHeader) : String :=
  crlf ("Content-Length: " ++ toString h.contentLength) ++
    ((match h.contentType with
      | some ty => crlf ("Content-Type: " ++ ty)
      | none => "") ++ "\r\n")

end LspHeader

/-- `BufRead::read_line` -/
def readLine (input : Bytes) : Except LspMsgParseError (String × Bytes) :=
  let (line, rest) := takeLine input
  match fromUtf8 line with
  | some line => .ok (line, rest)
  | none => .error (.ioError (.new .invalidData "stream did not contain valid UTF-8"))

/-- The loop that reads the lines of a header into `buf`. Each line has a byte at least, so that the
bound is not reached. -/
def readHeaderLines : Nat → String → Bytes → Except LspMsgParseError (String × Bytes)
  | 0, _, _ => .error .unexpectedEof
  | bound + 1, buf, input =>
    match readLine input with
    | .error e => .error e
    | .ok (line, rest) =>
      if line.isEmpty then .error .unexpectedEof
      else if !("\r\n".toList.isSuffixOf line.toList) then .error .badHeaderTermination
      else if line = "\r\n" then .ok (buf ++ line, rest)
      else readHeaderLines bound (buf ++ line) rest

variable {ν : Type}

namespace LspMsg

/-- What a message is read into after its header: `vec![0; n]`, which panics for more bytes than any
vector can hold, and `read_exact`. -/
def readContent (n : Nat) (input : Bytes) :
    Except Panic (Except LspMsgParseError (Bytes × Bytes)) :=
  if 2 ^ 63 ≤ n then .error .capacity
  else if input.length < n then .ok (.error .unexpectedEof)
  else .ok (.ok (input.take n, input.drop n))

/-- The content that some bytes are. -/
def parseContent (json : SerdeJson ν) (bs : Bytes) : Except LspMsgParseError (LspContent ν) :=
  match fromUtf8 bs with
  | none => .error .badInput
  | some s => (json.fromStr s).mapError .badContent

/-- Reads a message off the front of the bytes. -/
def fromBufReader (json : SerdeJson ν) (input : Bytes) :
    Except Panic (Except LspMsgParseError (LspMsg ν × Bytes)) :=
  match readHeaderLines (input.length + 1) "" input with
  | .error e => .ok (.error e)
  | .ok (buf, rest) =>
    match LspHeader.fromStr buf with
    | .error e => .ok (.error (.badHeader e))
    | .ok header =>
      match readContent header.contentLength rest with
      | .error panic => .error panic
      | .ok (.error e) => .ok (.error e)
      | .ok (.ok (bs, rest)) =>
        match parseContent json bs with
        | .error e => .ok (.error e)
        | .ok content => .ok (.ok (⟨header, content⟩, rest))

/-- Updates the header to the length of the content. -/
def refreshContentLength (json : SerdeJson ν) (msg : LspMsg ν) : LspMsg ν :=
  { msg with
    header := { msg.header with
      contentLength := (utf8Bytes (json.toStringPretty msg.content)).length } }

def display (json : SerdeJson ν) (msg : LspMsg ν) : String :=
  msg.header.display ++ json.toStringPretty msg.content

def toBytes (json : SerdeJson ν) (msg : LspMsg ν) : Bytes := utf8Bytes (msg.display json)

end LspMsg

/-! ## Converting schemes -/

/-- Replaces the first occurrence of `old`, if there is one. -/
def replaceFirst (old new : List Char) : List Char → List Char
  | [] => if old.isEmpty then new else []
  | c :: cs =>
    if old.isPrefixOf (c :: cs) then new ++ (c :: cs).drop old.length
    else c :: replaceFirst old new cs

/-- The closure `mutate` of `swap_prefix`. -/
def mutateString (old new s : String) : String :=
  String.ofList (replaceFirst old.toList new.toList s.toList)

/-- Takes each key that `check` accepts out of the map, and puts its value back under the changed
key. -/
def mutateKeys (check : String → Bool) (mutate : String → String) (obj : JsonMap ν) : JsonMap ν :=
  ((obj.map Prod.fst).filter check).foldl (fun obj key =>
    match JsonMap.removeEntry key obj with
    | some ((key, value), obj) => JsonMap.insert (mutate key) value obj
    | none => obj) obj

mutual

def forEachMutString (check : String → Bool) (mutate : String → String) : Value ν → Value ν
  | .object obj => .object (mutateKeys check mutate (forEachMutEntry check mutate obj))
  | .array items => .array (forEachMutItem check mutate items)
  | .string s => .string (mutate s)
  | .null => .null
  | .bool b => .bool b
  | .number n => .number n

/-- `for_each_mut_string` for each item of an array. -/
def forEachMutItem (check : String → Bool) (mutate : String → String) :
    List (Value ν) → List (Value ν)
  | [] => []
  | item :: items => forEachMutString check mutate item :: forEachMutItem check mutate items

/-- `for_each_mut_string` for each value of an object. -/
def forEachMutEntry (check : String → Bool) (mutate : String → String) :
    List (String × Value ν) → List (String × Value ν)
  | [] => []
  | (key, value) :: entries =>
    (key, forEachMutString check mutate value) :: forEachMutEntry check mutate entries

end

def swapPrefix (obj : JsonMap ν) (old new : String) : JsonMap ν :=
  let check := fun s : String => old.toList.isPrefixOf s.toList
  let mutate := mutateString old new
  mutateKeys check mutate (forEachMutEntry check mutate obj)

namespace LspContent

/-- Converts all URIs with `file` as the scheme to `scheme` instead. -/
def convertLocalSchemeTo (content : LspContent ν) (scheme : String) : LspContent ν :=
  swapPrefix content "file:" (scheme ++ ":")

def convertLocalSchemeToDistant (content : LspContent ν) : LspContent ν :=
  convertLocalSchemeTo content "distant"

/-- Converts all URIs with `scheme` as the scheme to `file` instead. -/
def convertSchemeToLocal (content : LspContent ν) (scheme : String) : LspContent ν :=
  swapPrefix content (scheme ++ ":") "file:"

def convertDistantSchemeToLocal (content : LspContent ν) : LspContent ν :=
  convertSchemeToLocal content "distant"

end LspContent

/-! ## Whole messages -/

/-- The lines of a header and the empty line. -/
def headerText (lines : List String) : String :=
  lines.foldr (fun line text => crlf line ++ text) "\r\n"

/-- The bytes are a message: a header that is parsed as `msg.header`, and as many bytes as it says,
which are parsed as `msg.content` and which a vector can hold. -/
def IsMessage (json : SerdeJson ν) (bs : Bytes) (msg : LspMsg ν) : Prop :=
  ∃ lines body, (∀ line ∈ lines, line ≠ "" ∧ '\n' ∉ line.toList) ∧
    LspHeader.fromStr (headerText lines) = .ok msg.header ∧
    msg.header.contentLength = (utf8Bytes body).length ∧ (utf8Bytes body).length < 2 ^ 63 ∧
    json.fromStr body = .ok msg.content ∧
    bs = utf8Bytes (headerText lines) ++ utf8Bytes body

section Messages

variable {json : SerdeJson ν} {line : String} {lines : List String} {p rest bs : Bytes}
  {msg : LspMsg ν}

theorem readLine_crlf (h : '\n' ∉ line.toList) (rest : Bytes) :
    readLine (utf8Bytes (crlf line) ++ rest) = .ok (crlf line, rest) := by
  simp only [readLine, takeLine_crlf h, fromUtf8_utf8Bytes]

/-- Without a newline there is no line. -/
theorem readHeaderLines_of_not_mem (bound : Nat) (buf : String) (h : 0x0a ∉ p) :
    ∃ e, readHeaderLines bound buf p = .error e := by
  cases bound with
  | zero => exact ⟨_, rfl⟩
  | succ bound =>
      simp only [readHeaderLines, readLine, takeLine_of_not_mem h]
      cases hs : fromUtf8 p with
      | none => exact ⟨_, rfl⟩
      | some s =>
          have hnot : '\n' ∉ s.toList := by
            rw [← newline_mem_utf8Bytes_iff, fromUtf8_eq_some_iff.mp hs]
            exact h
          have hends : "\r\n".toList.isSuffixOf s.toList = false := by
            rw [← Bool.not_eq_true, List.isSuffixOf_iff_suffix]
            exact fun hsuffix => hnot (hsuffix.subset (by decide))
          simp only [hends]
          split
          · exact ⟨_, rfl⟩
          · exact ⟨_, rfl⟩

theorem toList_crlf (line : String) : (crlf line).toList = line.toList ++ ['\r', '\n'] := by
  simp [crlf]

theorem isSuffixOf_crlf (line : String) : "\r\n".toList.isSuffixOf (crlf line).toList = true := by
  rw [List.isSuffixOf_iff_suffix, toList_crlf]
  exact List.suffix_append _ _

theorem crlf_isEmpty (line : String) : (crlf line).isEmpty = false := by
  rw [← Bool.not_eq_true, String.isEmpty_iff]
  intro hempty
  have h := toList_crlf line
  rw [hempty] at h
  simp at h

theorem crlf_eq_iff : crlf line = "\r\n" ↔ line = "" := by
  constructor
  · intro h
    have hlist := toList_crlf line
    rw [h] at hlist
    have hnil : line.toList = [] := List.append_left_eq_self.mp hlist.symm
    exact String.toList_eq_nil_iff.mp hnil
  · rintro rfl
    rfl

/-- A line is the end of the header, or one more of its lines. -/
theorem readHeaderLines_line (bound : Nat) (buf : String) (h : '\n' ∉ line.toList) (rest : Bytes) :
    readHeaderLines (bound + 1) buf (utf8Bytes (crlf line) ++ rest) =
      if crlf line = "\r\n" then .ok (buf ++ crlf line, rest)
      else readHeaderLines bound (buf ++ crlf line) rest := by
  rw [readHeaderLines, readLine_crlf h]
  simp only [crlf_isEmpty, isSuffixOf_crlf, Bool.not_true, Bool.false_eq_true, if_false]

theorem readHeaderLines_crlf (bound : Nat) (buf : String) (hne : line ≠ "")
    (h : '\n' ∉ line.toList) (rest : Bytes) :
    readHeaderLines (bound + 1) buf (utf8Bytes (crlf line) ++ rest) =
      readHeaderLines bound (buf ++ crlf line) rest := by
  rw [readHeaderLines_line bound buf h, if_neg fun heq => hne (crlf_eq_iff.mp heq)]

/-- The empty line ends the header. -/
theorem readHeaderLines_empty (bound : Nat) (buf : String) (rest : Bytes) :
    readHeaderLines (bound + 1) buf (utf8Bytes "\r\n" ++ rest) = .ok (buf ++ "\r\n", rest) := by
  show readHeaderLines (bound + 1) buf (utf8Bytes (crlf "") ++ rest) = _
  rw [readHeaderLines_line bound buf (by decide), if_pos (crlf_eq_iff.mpr rfl)]
  rfl

theorem headerText_cons (line : String) (lines : List String) :
    headerText (line :: lines) = crlf line ++ headerText lines := rfl

/-- The header is read up to its empty line. -/
theorem readHeaderLines_headerText (hlines : ∀ line ∈ lines, line ≠ "" ∧ '\n' ∉ line.toList)
    (bound : Nat) (hbound : lines.length < bound) (buf : String) (rest : Bytes) :
    readHeaderLines bound buf (utf8Bytes (headerText lines) ++ rest) =
      .ok (buf ++ headerText lines, rest) := by
  obtain ⟨bound, rfl⟩ := Nat.exists_eq_add_one_of_ne_zero (show bound ≠ 0 by omega)
  induction lines generalizing bound buf with
  | nil => exact readHeaderLines_empty bound buf rest
  | cons line lines ih =>
      obtain ⟨hne, hline⟩ := hlines line List.mem_cons_self
      rw [List.length_cons] at hbound
      obtain ⟨bound, rfl⟩ := Nat.exists_eq_add_one_of_ne_zero (show bound ≠ 0 by omega)
      rw [headerText_cons, utf8Bytes_append, List.append_assoc,
        readHeaderLines_crlf _ _ hne hline,
        ih (fun l hl => hlines l (List.mem_cons_of_mem _ hl)) _ _ (by omega), String.append_assoc]

theorem length_lines_lt (lines : List String) :
    lines.length < (utf8Bytes (headerText lines)).length := by
  induction lines with
  | nil => decide
  | cons line lines ih =>
      rw [headerText_cons, utf8Bytes_append, utf8Bytes_crlf]
      simp only [List.length_append, List.length_cons, List.length_nil]
      omega

/-- There are enough bytes for the lines. -/
theorem readHeaderLines_length (hlines : ∀ line ∈ lines, line ≠ "" ∧ '\n' ∉ line.toList)
    (rest : Bytes) :
    readHeaderLines ((utf8Bytes (headerText lines) ++ rest).length + 1) ""
      (utf8Bytes (headerText lines) ++ rest) = .ok (headerText lines, rest) := by
  have hbound := length_lines_lt lines
  have hread := readHeaderLines_headerText hlines
    ((utf8Bytes (headerText lines) ++ rest).length + 1)
    (by rw [List.length_append]; omega) "" rest
  rwa [String.empty_append] at hread

/-- A header that is cut off is not read. -/
theorem readHeaderLines_cut (hlines : ∀ line ∈ lines, line ≠ "" ∧ '\n' ∉ line.toList)
    (hp : p <+: utf8Bytes (headerText lines)) (hne : p ≠ utf8Bytes (headerText lines))
    (bound : Nat) (buf : String) : ∃ e, readHeaderLines bound buf p = .error e := by
  induction lines generalizing p bound buf with
  | nil =>
      have hend : '\n' ∉ "".toList := by decide
      exact readHeaderLines_of_not_mem bound buf (not_mem_of_prefix_crlf hend hp hne)
  | cons line lines ih =>
      obtain ⟨hempty, hline⟩ := hlines line List.mem_cons_self
      rw [headerText_cons, utf8Bytes_append] at hp hne
      obtain ⟨tail, htail⟩ := hp
      rcases List.append_eq_append_iff.mp htail with ⟨left, hleft, -⟩ | ⟨more, rfl, hmore⟩
      · by_cases heq : p = utf8Bytes (crlf line)
        · subst heq
          cases bound with
          | zero => exact ⟨_, rfl⟩
          | succ bound =>
              have hread := readHeaderLines_crlf bound buf hempty hline []
              rw [List.append_nil] at hread
              rw [hread]
              exact readHeaderLines_of_not_mem bound _ (by simp)
        · refine readHeaderLines_of_not_mem bound buf ?_
          exact not_mem_of_prefix_crlf hline ⟨left, hleft.symm⟩ heq
      · cases bound with
        | zero => exact ⟨_, rfl⟩
        | succ bound =>
            rw [readHeaderLines_crlf bound buf hempty hline]
            refine ih (fun l hl => hlines l (List.mem_cons_of_mem _ hl)) ⟨tail, hmore.symm⟩ ?_ _ _
            rintro rfl
            exact hne rfl

namespace LspMsg

/-- A whole message is read, whatever follows it. -/
theorem fromBufReader_message (h : IsMessage json bs msg) (rest : Bytes) :
    fromBufReader json (bs ++ rest) = .ok (.ok (msg, rest)) := by
  obtain ⟨lines, body, hlines, hheader, hlen, hfits, hcontent, rfl⟩ := h
  have hbody : readContent (utf8Bytes body).length (utf8Bytes body ++ rest) =
      .ok (.ok (utf8Bytes body, rest)) := by
    unfold readContent
    rw [if_neg (by omega), if_neg (by simp), List.take_left' rfl, List.drop_left' rfl]
  have hparse : parseContent json (utf8Bytes body) = .ok msg.content := by
    simp only [parseContent, fromUtf8_utf8Bytes, hcontent]
    rfl
  rw [List.append_assoc, fromBufReader, readHeaderLines_length hlines]
  simp only [hheader, hlen, hbody, hparse]

/-- What a message begins with is not read. -/
theorem fromBufReader_cut (h : IsMessage json bs msg) (hp : p <+: bs) (hne : p ≠ bs) :
    ∃ e, fromBufReader json p = .ok (.error e) := by
  obtain ⟨lines, body, hlines, hheader, hlen, hfits, hcontent, rfl⟩ := h
  obtain ⟨tail, htail⟩ := hp
  have hcut (hp : p <+: utf8Bytes (headerText lines)) (hne : p ≠ utf8Bytes (headerText lines)) :
      ∃ e, fromBufReader json p = .ok (.error e) := by
    obtain ⟨e, he⟩ := readHeaderLines_cut hlines hp hne (p.length + 1) ""
    exact ⟨e, by simp only [fromBufReader, he]⟩
  have hbody (q : Bytes) (hq : q.length < (utf8Bytes body).length) :
      ∃ e, fromBufReader json (utf8Bytes (headerText lines) ++ q) = .ok (.error e) := by
    have hshort : readContent (utf8Bytes body).length q = .ok (.error .unexpectedEof) := by
      unfold readContent
      rw [if_neg (by omega), if_pos hq]
    refine ⟨.unexpectedEof, ?_⟩
    rw [fromBufReader, readHeaderLines_length hlines]
    simp only [hheader, hlen, hshort]
  rcases List.append_eq_append_iff.mp htail with ⟨left, hleft, htail'⟩ | ⟨q, rfl, hq⟩
  · by_cases heq : p = utf8Bytes (headerText lines)
    · subst heq
      have hpos : 0 < (utf8Bytes body).length := by
        refine List.length_pos_of_ne_nil fun hnil => hne ?_
        rw [hnil, List.append_nil]
      have h := hbody [] hpos
      rwa [List.append_nil] at h
    · exact hcut ⟨left, hleft.symm⟩ heq
  · refine hbody q ?_
    have hlen' := congrArg List.length hq
    rw [List.length_append] at hlen'
    have htail : tail ≠ [] := by
      rintro rfl
      rw [List.append_nil] at hq
      exact hne (by rw [hq])
    have hpos := List.length_pos_of_ne_nil htail
    omega

theorem fromBufReader_nil (json : SerdeJson ν) :
    fromBufReader json [] = .ok (.error .unexpectedEof) := rfl

end LspMsg

/-! ## Messages that are displayed -/

/-- A value that a field of a header can have. -/
structure IsFieldValue (value : String) : Prop where
  nonempty : value ≠ ""
  trimmed : trim value.toList = value.toList
  noNewline : '\n' ∉ value.toList

theorem isFieldValue_toString (n : Nat) : IsFieldValue (toString n) := by
  have hlist : (toString n).toList = Nat.toDigits 10 n := Nat.toList_repr
  have hdigit : ∀ c ∈ (toString n).toList, c.isDigit = true := by
    intro c hc
    rw [hlist] at hc
    exact isDigit_of_mem_toDigits hc
  refine ⟨?_, trim_of_forall fun c hc => isWhitespace_of_isDigit (hdigit c hc), ?_⟩
  · intro hempty
    rw [hempty] at hlist
    exact Nat.toDigits_ne_nil hlist.symm
  · exact fun hmem => absurd (hdigit _ hmem) (by decide)

/-- The lines that a header is displayed in. -/
def LspHeader.fields (h : LspHeader) : List String :=
  ("Content-Length: " ++ toString h.contentLength) ::
    (h.contentType.map fun ty => "Content-Type: " ++ ty).toList

theorem LspHeader.display_eq (h : LspHeader) : h.display = headerText h.fields := by
  obtain ⟨n, ty⟩ := h
  cases ty with
  | none => rfl
  | some ty => rfl

/-- A field is trimmed when its value is. -/
theorem trim_field {name value : String} {c : Char} {cs : List Char} (hname : name.toList = c :: cs)
    (hc : isWhitespace c = false) (hvalue : IsFieldValue value) :
    trim (name ++ value).toList = (name ++ value).toList := by
  have hne : value.toList ≠ [] := fun hnil => hvalue.nonempty (String.toList_eq_nil_iff.mp hnil)
  rw [String.toList_append, hname]
  exact trim_append hc hne hvalue.trimmed

theorem splitCrlf_headerText (hlines : ∀ line ∈ lines, '\n' ∉ line.toList) :
    splitCrlf (headerText lines).toList = lines.map String.toList ++ [[], []] := by
  induction lines with
  | nil => rfl
  | cons line lines ih =>
      have hrest := ih fun l hl => hlines l (List.mem_cons_of_mem _ hl)
      rw [headerText_cons, String.toList_append, toList_crlf, List.append_assoc]
      exact (splitCrlf_crlf (hlines line List.mem_cons_self) _).trans (congrArg _ hrest)

/-- The fields of a header are its lines. -/
theorem fromStr_headerText (hlines : ∀ line ∈ lines, line ≠ "" ∧ '\n' ∉ line.toList)
    (htrim : ∀ line ∈ lines, trim line.toList = line.toList) :
    LspHeader.fromStr (headerText lines) =
      LspHeader.parseFields (lines.map String.toList) none none := by
  have hmap : (lines.map String.toList).map trim = lines.map String.toList := by
    rw [List.map_map]
    exact List.map_congr_left htrim
  have hfilter : (lines.map String.toList).filter (fun line => !line.isEmpty) =
      lines.map String.toList := by
    rw [List.filter_eq_self]
    intro line hline
    obtain ⟨l, hl, rfl⟩ := List.mem_map.mp hline
    simpa using (hlines l hl).1
  unfold LspHeader.fromStr
  rw [splitCrlf_headerText fun line hline => (hlines line hline).2, List.map_append, hmap]
  show LspHeader.parseFields (List.filter _ (_ ++ [[], []])) none none = _
  rw [List.filter_append, hfilter, List.filter_eq_nil_iff.mpr (by simp), List.append_nil]

/-- A header can be displayed: its length fits in a `usize`, and its type is the value of a field. -/
structure LspHeader.Displayable (h : LspHeader) : Prop where
  fits : h.contentLength < 2 ^ 64
  contentType : ∀ ty ∈ h.contentType, IsFieldValue ty

theorem LspHeader.Displayable.of_mem_fields {h : LspHeader} (hh : h.Displayable)
    (hline : line ∈ h.fields) :
    line ≠ "" ∧ '\n' ∉ line.toList ∧ trim line.toList = line.toList := by
  -- each line is a name and a value
  obtain ⟨name, value, c, cs, rfl, hname, hc, hnewline, hvalue⟩ : ∃ name value c cs,
      line = name ++ value ∧ name.toList = c :: cs ∧ isWhitespace c = false ∧
        '\n' ∉ name.toList ∧ IsFieldValue value := by
    rcases List.mem_cons.mp hline with rfl | hline
    · exact ⟨_, _, _, _, rfl, rfl, by decide, by decide, isFieldValue_toString _⟩
    · obtain ⟨ty, hty, rfl⟩ := Option.map_eq_some_iff.mp (Option.mem_toList.mp hline)
      exact ⟨_, _, _, _, rfl, rfl, by decide, by decide, hh.contentType ty hty⟩
  refine ⟨?_, ?_, trim_field hname hc hvalue⟩
  · intro hempty
    have hlist := congrArg String.toList hempty
    rw [String.toList_append, hname] at hlist
    cases hlist
  · rw [String.toList_append, List.mem_append, not_or]
    exact ⟨hnewline, hvalue.noNewline⟩

/-- The first line of a header is taken apart at its colon. -/
theorem parseFields_cons {name value : List Char} (hname : ':' ∉ name) (hvalue : value ≠ [])
    (lines : List (List Char)) (n : Option Nat) (ty : Option String) :
    LspHeader.parseFields ((name ++ ':' :: value) :: lines) n ty =
      if name = "Content-Length".toList then
        match parseUsize (trim value) with
        | .error kind => .error (.invalidContentLength kind)
        | .ok n => LspHeader.parseFields lines (some n) ty
      else if name = "Content-Type".toList then
        LspHeader.parseFields lines n (some (String.ofList (trim value)))
      else .error .badHeaderField := by
  have hempty : value.isEmpty = false := List.isEmpty_eq_false_iff.mpr hvalue
  rw [LspHeader.parseFields, span_ne_append hname]
  simp only [hempty, Bool.false_eq_true, if_false]

theorem parseFields_contentLength {n : Nat} (hn : n < 2 ^ 64) (lines : List (List Char))
    (old : Option Nat) (ty : Option String) :
    LspHeader.parseFields (("Content-Length: " ++ toString n).toList :: lines) old ty =
      LspHeader.parseFields lines (some n) ty := by
  have hline : ("Content-Length: " ++ toString n).toList =
      "Content-Length".toList ++ ':' :: ' ' :: (toString n).toList := by
    rw [String.toList_append]
    rfl
  have hvalue : trim (' ' :: (toString n).toList) = Nat.toDigits 10 n := by
    rw [trim_of_space, (isFieldValue_toString n).trimmed]
    exact Nat.toList_repr
  rw [hline, parseFields_cons (by decide) (List.cons_ne_nil _ _), if_pos rfl, hvalue,
    parseUsize_toDigits hn]

theorem parseFields_contentType {value : String} (hvalue : IsFieldValue value)
    (lines : List (List Char)) (n : Option Nat) (ty : Option String) :
    LspHeader.parseFields (("Content-Type: " ++ value).toList :: lines) n ty =
      LspHeader.parseFields lines n (some value) := by
  have hline : ("Content-Type: " ++ value).toList =
      "Content-Type".toList ++ ':' :: ' ' :: value.toList := by
    rw [String.toList_append]
    rfl
  rw [hline, parseFields_cons (by decide) (List.cons_ne_nil _ _), if_neg (by decide), if_pos rfl,
    trim_of_space, hvalue.trimmed, String.ofList_toList]

/-- A header is parsed from its fields, in whatever order they are. -/
theorem LspHeader.fromStr_fields {h : LspHeader} (hh : h.Displayable)
    (hlines : lines.Perm h.fields) : LspHeader.fromStr (headerText lines) = .ok h := by
  rw [fromStr_headerText
    (fun line hline => ⟨(hh.of_mem_fields (hlines.subset hline)).1,
      (hh.of_mem_fields (hlines.subset hline)).2.1⟩)
    fun line hline => (hh.of_mem_fields (hlines.subset hline)).2.2]
  obtain ⟨n, ty⟩ := h
  cases ty with
  | none =>
      rw [List.perm_singleton.mp hlines]
      exact parseFields_contentLength hh.fits _ _ _
  | some ty =>
      have hty := hh.contentType ty rfl
      rcases List.perm_pair.mp hlines with rfl | rfl
      · exact (parseFields_contentLength hh.fits _ _ _).trans (parseFields_contentType hty _ _ _)
      · exact (parseFields_contentType hty _ _ _).trans (parseFields_contentLength hh.fits _ _ _)

theorem LspHeader.fromStr_display {h : LspHeader} (hh : h.Displayable) :
    LspHeader.fromStr h.display = .ok h := by
  rw [LspHeader.display_eq]
  exact LspHeader.fromStr_fields hh (List.Perm.refl _)

/-- The fields of a header, an empty line and a body that the JSON parser reads are a message. -/
theorem isMessage_of_fields {h : LspHeader} {body : String} {content : LspContent ν}
    (hh : h.Displayable) (hlines : lines.Perm h.fields)
    (hlen : h.contentLength = (utf8Bytes body).length) (hfits : h.contentLength < 2 ^ 63)
    (hcontent : json.fromStr body = .ok content) :
    IsMessage json (utf8Bytes (headerText lines) ++ utf8Bytes body) ⟨h, content⟩ := by
  refine ⟨lines, body, ?_, LspHeader.fromStr_fields hh hlines, hlen, hlen ▸ hfits, hcontent, rfl⟩
  intro line hline
  have hfield := hh.of_mem_fields (hlines.subset hline)
  exact ⟨hfield.1, hfield.2.1⟩

/-- What is displayed is a message, when the JSON parser reads what the JSON printer has printed. -/
theorem isMessage_toBytes (hheader : msg.header.Displayable)
    (hlen : msg.header.contentLength = (utf8Bytes (json.toStringPretty msg.content)).length)
    (hfits : msg.header.contentLength < 2 ^ 63)
    (hcontent : json.fromStr (json.toStringPretty msg.content) = .ok msg.content) :
    IsMessage json (msg.toBytes json) msg := by
  rw [LspMsg.toBytes, LspMsg.display, utf8Bytes_append, LspHeader.display_eq]
  exact isMessage_of_fields hheader (List.Perm.refl _) hlen hfits hcontent

end Messages

end Distant
