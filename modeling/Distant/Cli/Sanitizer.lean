import Distant.Lib.Rust
import Distant.Lib.Text

/-!
# The terminal sanitizer

`TerminalSanitizer.filter` drops some escape sequences from the output of a remote terminal before
it reaches the local one. An escape sequence that a chunk breaks off is kept back until the rest of
it arrives.

`parseEscape` follows the source. `Spells` says without an algorithm which bytes make up which
sequence, and `parseEscape_eq_some_iff` that the parser finds exactly these, whatever stands behind
them. Nothing after this module unfolds the parser.
-/

namespace Distant

def ESC : UInt8 := 0x1b

def BEL : UInt8 := 0x07

/-- `b'['` -/
def ascii (c : Char) : UInt8 := c.toNat.toUInt8

/-- Classified escape sequence extracted by `parseEscape`. -/
inductive EscapeSeq where
  | csi (privateMarker : Option UInt8) (params intermediates : Bytes) (finalByte : UInt8)
  | osc (content : Bytes)
  | dcs (content : Bytes)
  | ss3
  | twoChar
  deriving DecidableEq, Repr

/-- Action to take for a parsed escape sequence. -/
inductive SeqAction where
  | strip
  | passThrough
  deriving DecidableEq, Repr

structure TerminalSanitizer where
  /-- DEC private modes to strip (both `h` set and `l` reset variants) -/
  blockedModes : List UInt32
  stripXtwinops : Bool
  stripQueries : Bool
  /-- buffered bytes from an incomplete escape sequence at the end of a chunk -/
  pending : Bytes
  deriving DecidableEq, Repr

/-! ## Parsing -/

def isAsciiGraphic (b : UInt8) : Bool := 0x21 ≤ b && b ≤ 0x7e

def isMarker (b : UInt8) : Bool := b == ascii '?' || b == ascii '>' || b == ascii '='

/-- Parameters: digits, `;` and `:`. -/
def isParam (b : UInt8) : Bool :=
  (ascii '0' ≤ b && b ≤ ascii '9') || b == ascii ';' || b == ascii ':'

def isIntermediate (b : UInt8) : Bool := 0x20 ≤ b && b ≤ 0x2f

def isFinal (b : UInt8) : Bool := 0x40 ≤ b && b ≤ 0x7e

/-- The optional private marker, and what stands behind it. -/
def takeMarker : Bytes → Option UInt8 × Bytes
  | [] => (none, [])
  | b :: bs => if isMarker b then (some b, bs) else (none, b :: bs)

/-- Parse a CSI sequence: `ESC [` private marker, parameters, intermediates, final byte. -/
def parseCsi (buf : Bytes) : Option (EscapeSeq × Nat) :=
  let (privateMarker, rest) := takeMarker (buf.drop 2)
  let params := rest.takeWhile isParam
  let rest := rest.dropWhile isParam
  let intermediates := rest.takeWhile isIntermediate
  match rest.dropWhile isIntermediate with
  | [] => none
  | finalByte :: _ =>
    if isFinal finalByte then
      some (.csi privateMarker params intermediates finalByte,
        2 + privateMarker.toList.length + params.length + intermediates.length + 1)
    else none

/-- The loop of `parse_osc` and `parse_dcs`: the content up to a terminator (BEL or `ESC \`), and
the length of the terminator. -/
def contentAndTerminator : Bytes → Option (Bytes × Nat)
  | [] => none
  | b :: bs =>
    if b = BEL then some ([], 1)
    else if b = ESC then if bs.head? = some (ascii '\\') then some ([], 2) else none
    else (contentAndTerminator bs).map fun (content, len) => (b :: content, len)

def parseOsc (buf : Bytes) : Option (EscapeSeq × Nat) :=
  (contentAndTerminator (buf.drop 2)).map fun (content, len) =>
    (.osc content, 2 + content.length + len)

def parseDcs (buf : Bytes) : Option (EscapeSeq × Nat) :=
  (contentAndTerminator (buf.drop 2)).map fun (content, len) =>
    (.dcs content, 2 + content.length + len)

/-- Parse an escape sequence at the start of `buf`: the sequence and its length, or `none` if it is
incomplete or unrecognized. -/
def parseEscape : Bytes → Option (EscapeSeq × Nat)
  | [] => none
  | [_] => none
  | b₀ :: b :: rest =>
    if b₀ ≠ ESC then none
    else if b = ascii '[' then parseCsi (b₀ :: b :: rest)
    else if b = ascii ']' then parseOsc (b₀ :: b :: rest)
    else if b = ascii 'P' then parseDcs (b₀ :: b :: rest)
    else if b = ascii 'O' then if rest.isEmpty then none else some (.ss3, 3)
    -- two-char escapes (DECSC, DECRC, etc.)
    else if isAsciiGraphic b || b == ascii ' ' then some (.twoChar, 2)
    else none

/-! ## Classifying -/

/-- The text of some parameters, which are ASCII characters only. -/
def asText (params : Bytes) : String := String.ofList (params.map fun b => Char.ofNat b.toNat)

def isBlockedMode (params : Bytes) (blockedModes : List UInt32) : Bool :=
  match parseU32 (asText params) with
  | some mode => blockedModes.contains mode
  | none => false

def isPositive (param : Bytes) : Bool :=
  match parseU32 (asText param) with
  | some n => 0 < n
  | none => false

/-- Check if CSI params represent an XTWINOPS resize: `8;<rows>;<cols>`. -/
def isXtwinopsResize (params : Bytes) : Bool :=
  match params.splitOn (ascii ';') with
  | [op, rows, cols] => op == [ascii '8'] && isPositive rows && isPositive cols
  | _ => false

/-- No parameters, or a single zero. -/
def isDefault (params : Bytes) : Bool := params.isEmpty || params == [ascii '0']

/-- `5` or `6`, the device status reports. -/
def isStatusReport (params : Bytes) : Bool := params == [ascii '5'] || params == [ascii '6']

namespace TerminalSanitizer

/-- The standard sanitizer for SSH shell sessions targeting ConPTY hosts. -/
def conpty : TerminalSanitizer where
  blockedModes := [9001, 1004, 1000, 1002, 1003, 1005, 1006, 1015]
  stripXtwinops := true
  stripQueries := true
  pending := []

/-- Is this one of the queries that the terminal would answer? -/
def isQuery : EscapeSeq → Bool
  | .csi marker params intermediates finalByte =>
    -- DA1, DA2, DA3
    (marker == none && finalByte == ascii 'c' && isDefault params) ||
    (marker == some (ascii '>') && finalByte == ascii 'c' && isDefault params) ||
    (marker == some (ascii '=') && finalByte == ascii 'c') ||
    -- DSR and private DSR
    (marker == none && finalByte == ascii 'n' && isStatusReport params) ||
    (marker == some (ascii '?') && finalByte == ascii 'n' && isStatusReport params) ||
    -- XTVERSION
    (marker == some (ascii '>') && finalByte == ascii 'q' && isDefault params) ||
    -- DECRQM
    (marker == some (ascii '?') && finalByte == ascii 'p' && intermediates == [ascii '$']) ||
    -- Kitty keyboard query
    (marker == some (ascii '?') && finalByte == ascii 'u' && params.isEmpty)
  | .osc content => content.getLast? == some (ascii '?')
  -- DECRQSS and XTGETTCAP
  | .dcs content => [ascii '$', ascii 'q'].isPrefixOf content ||
      [ascii '+', ascii 'q'].isPrefixOf content
  | .ss3 => false
  | .twoChar => false

/-- Does this set or reset a single blocked mode? -/
def isModeChange (s : TerminalSanitizer) : EscapeSeq → Bool
  | .csi marker params _ finalByte =>
    marker == some (ascii '?') && (finalByte == ascii 'h' || finalByte == ascii 'l') &&
      isBlockedMode params s.blockedModes
  | _ => false

def isResize : EscapeSeq → Bool
  | .csi marker params _ finalByte =>
    marker == none && finalByte == ascii 't' && isXtwinopsResize params
  | _ => false

/-- Classify a parsed escape sequence. -/
def classify (s : TerminalSanitizer) (seq : EscapeSeq) : SeqAction :=
  if (s.stripQueries && isQuery seq) || s.isModeChange seq || (s.stripXtwinops && isResize seq) then
    .strip
  else .passThrough

/-! ## Filtering -/

/-- Tells a sequence that is incomplete from an escape that is not recognized, when neither was
parsed. -/
def genuinelyIncomplete : Bytes → Bool
  | [] => true
  | [_] => true
  | _ :: b :: rest =>
    b == ascii '[' || b == ascii ']' || b == ascii 'P' || (b == ascii 'O' && rest.isEmpty)

/-- The loop of `filter`: what is let through of the bytes, and what remains from the first
incomplete sequence on. The first `skip` bytes belong to a sequence that is dealt with. -/
def scan (s : TerminalSanitizer) : Bytes → Nat → Bytes × Bytes
  | [], _ => ([], [])
  | _ :: bs, skip + 1 => s.scan bs skip
  | b :: bs, 0 =>
    if b = ESC then
      match parseEscape (b :: bs) with
      | some (seq, len) =>
        let (out, remaining) := s.scan bs (len - 1)
        match s.classify seq with
        | .strip => (out, remaining)
        | .passThrough => ((b :: bs).take len ++ out, remaining)
      | none =>
        if genuinelyIncomplete (b :: bs) then ([], b :: bs)
        else
          let (out, remaining) := s.scan bs 0
          (b :: out, remaining)
    else
      let (out, remaining) := s.scan bs 0
      (b :: out, remaining)

/-- The cap on the pending bytes. -/
def PENDING_CAP : Nat := 4096

/-- Filter remote output bytes, stripping blocked sequences: what is put out, and the sanitizer
with what is now pending. -/
def filter (s : TerminalSanitizer) (input : Bytes) : Bytes × TerminalSanitizer :=
  let data := s.pending ++ input
  let s := { s with pending := [] }
  let (out, remaining) := s.scan data 0
  if s.pending.length + remaining.length > PENDING_CAP then (out ++ remaining, s)
  else (out, { s with pending := s.pending ++ remaining })

/-- Successive calls of `filter`, one for each chunk. -/
def filterAll (s : TerminalSanitizer) : List Bytes → Bytes × TerminalSanitizer
  | [] => ([], s)
  | chunk :: chunks =>
    let (out, s) := s.filter chunk
    let (out', s) := s.filterAll chunks
    (out ++ out', s)

end TerminalSanitizer

/-! ## What the parser recognizes -/

/-- The bytes that make up a sequence. -/
inductive Spells : EscapeSeq → Bytes → Prop
  | csi {marker : Option UInt8} {params intermediates : Bytes} {finalByte : UInt8} :
      (∀ b ∈ marker, isMarker b = true) → (∀ b ∈ params, isParam b = true) →
      (∀ b ∈ intermediates, isIntermediate b = true) → isFinal finalByte = true →
      Spells (.csi marker params intermediates finalByte)
        (ESC :: ascii '[' :: (marker.toList ++ (params ++ (intermediates ++ [finalByte]))))
  | osc {content terminator : Bytes} : (∀ b ∈ content, b ≠ BEL ∧ b ≠ ESC) →
      terminator = [BEL] ∨ terminator = [ESC, ascii '\\'] →
      Spells (.osc content) (ESC :: ascii ']' :: (content ++ terminator))
  | dcs {content terminator : Bytes} : (∀ b ∈ content, b ≠ BEL ∧ b ≠ ESC) →
      terminator = [BEL] ∨ terminator = [ESC, ascii '\\'] →
      Spells (.dcs content) (ESC :: ascii 'P' :: (content ++ terminator))
  | ss3 {b : UInt8} : Spells .ss3 [ESC, ascii 'O', b]
  | twoChar {b : UInt8} : (isAsciiGraphic b || b == ascii ' ') = true →
      b ∉ [ascii '[', ascii ']', ascii 'P', ascii 'O'] → Spells .twoChar [ESC, b]

theorem Spells.eq_cons {seq : EscapeSeq} {w : Bytes} (h : Spells seq w) :
    ∃ b w', w = ESC :: b :: w' ∧ (isAsciiGraphic b || b == ascii ' ') = true := by
  cases h with
  | csi => exact ⟨_, _, rfl, by decide⟩
  | osc => exact ⟨_, _, rfl, by decide⟩
  | dcs => exact ⟨_, _, rfl, by decide⟩
  | ss3 => exact ⟨_, _, rfl, by decide⟩
  | twoChar hb => exact ⟨_, _, rfl, hb⟩

/-- A run of bytes of one class ends at the first byte of another. -/
theorem takeWhile_dropWhile {p : UInt8 → Bool} {run : Bytes} (hrun : ∀ b ∈ run, p b = true)
    {b : UInt8} (hb : p b = false) (rest : Bytes) :
    (run ++ b :: rest).takeWhile p = run ∧ (run ++ b :: rest).dropWhile p = b :: rest := by
  apply takeWhile_dropWhile_append hrun
  intro c hc
  cases hc
  exact hb

theorem isMarker_iff (b : UInt8) : isMarker b = true ↔ 61 ≤ b.toNat ∧ b.toNat ≤ 63 := by
  simp only [isMarker, ascii, Bool.or_eq_true, beq_iff_eq, ← UInt8.toNat_inj]
  simp
  omega

theorem isParam_iff (b : UInt8) : isParam b = true ↔ 48 ≤ b.toNat ∧ b.toNat ≤ 59 := by
  simp only [isParam, ascii, Bool.or_eq_true, Bool.and_eq_true, decide_eq_true_eq, beq_iff_eq,
    UInt8.le_iff_toNat_le, ← UInt8.toNat_inj]
  simp
  omega

theorem isIntermediate_iff (b : UInt8) :
    isIntermediate b = true ↔ 32 ≤ b.toNat ∧ b.toNat ≤ 47 := by
  simp [isIntermediate, UInt8.le_iff_toNat_le]

theorem isFinal_iff (b : UInt8) : isFinal b = true ↔ 64 ≤ b.toNat ∧ b.toNat ≤ 126 := by
  simp [isFinal, UInt8.le_iff_toNat_le]

/-- The classes of bytes in a CSI sequence have nothing in common. -/
theorem not_isMarker {b : UInt8} (h : isParam b = true ∨ isIntermediate b = true ∨ isFinal b = true) :
    isMarker b = false := by
  rw [isParam_iff, isIntermediate_iff, isFinal_iff] at h
  rw [Bool.eq_false_iff, ne_eq, isMarker_iff]
  omega

theorem not_isParam {b : UInt8} (h : isIntermediate b = true ∨ isFinal b = true) :
    isParam b = false := by
  rw [isIntermediate_iff, isFinal_iff] at h
  rw [Bool.eq_false_iff, ne_eq, isParam_iff]
  omega

theorem not_isIntermediate {b : UInt8} (h : isFinal b = true) : isIntermediate b = false := by
  rw [isFinal_iff] at h
  rw [Bool.eq_false_iff, ne_eq, isIntermediate_iff]
  omega

theorem takeMarker_append {marker : Option UInt8} (hmarker : ∀ b ∈ marker, isMarker b = true)
    {bs : Bytes} (hbs : ∀ b ∈ bs.head?, isMarker b = false) :
    takeMarker (marker.toList ++ bs) = (marker, bs) := by
  cases marker with
  | some b =>
      have hb := hmarker b rfl
      simp [takeMarker, hb]
  | none =>
      cases bs with
      | nil => rfl
      | cons b bs =>
          have hb := hbs b rfl
          simp [takeMarker, hb]

theorem takeMarker_spec (bs : Bytes) :
    bs = (takeMarker bs).1.toList ++ (takeMarker bs).2 ∧
      ∀ b ∈ (takeMarker bs).1, isMarker b = true := by
  cases bs with
  | nil => exact ⟨rfl, nofun⟩
  | cons b bs =>
      by_cases hb : isMarker b = true <;> simp [takeMarker, hb]

theorem parseCsi_of_spells {marker : Option UInt8} {params intermediates : Bytes}
    {finalByte : UInt8} (hmarker : ∀ b ∈ marker, isMarker b = true)
    (hparams : ∀ b ∈ params, isParam b = true)
    (hinter : ∀ b ∈ intermediates, isIntermediate b = true) (hfinal : isFinal finalByte = true)
    (b₀ b₁ : UInt8) (rest : Bytes) :
    parseCsi (b₀ :: b₁ :: (marker.toList ++ (params ++ (intermediates ++ finalByte :: rest)))) =
      some (.csi marker params intermediates finalByte,
        2 + marker.toList.length + params.length + intermediates.length + 1) := by
  have hhead : ∀ b ∈ (params ++ (intermediates ++ finalByte :: rest)).head?, isMarker b = false := by
    intro b hb
    have hmem := List.mem_of_mem_head? hb
    cases params with
    | cons c cs =>
        cases hb
        exact not_isMarker (.inl (hparams b (by simp)))
    | nil =>
        cases intermediates with
        | cons c cs =>
            cases hb
            exact not_isMarker (.inr (.inl (hinter b (by simp))))
        | nil =>
            cases hb
            exact not_isMarker (.inr (.inr hfinal))
  -- where the parameters end, and where the intermediates end
  have hp : (params ++ (intermediates ++ finalByte :: rest)).takeWhile isParam = params ∧
      (params ++ (intermediates ++ finalByte :: rest)).dropWhile isParam =
        intermediates ++ finalByte :: rest := by
    cases intermediates with
    | nil => exact takeWhile_dropWhile hparams (not_isParam (.inr hfinal)) rest
    | cons c cs => exact takeWhile_dropWhile hparams (not_isParam (.inl (hinter c (by simp)))) _
  have hi := takeWhile_dropWhile hinter (not_isIntermediate hfinal) rest
  unfold parseCsi
  simp only [List.drop_succ_cons, List.drop_zero, takeMarker_append hmarker hhead, hp.1, hp.2, hi.1,
    hi.2, hfinal, if_true]

theorem spells_of_parseCsi {rest : Bytes} {seq : EscapeSeq} {n : Nat}
    (h : parseCsi (ESC :: ascii '[' :: rest) = some (seq, n)) :
    ∃ w behind, ESC :: ascii '[' :: rest = w ++ behind ∧ w.length = n ∧ Spells seq w := by
  obtain ⟨hmarker, hmarkers⟩ := takeMarker_spec rest
  unfold parseCsi at h
  simp only [List.drop_succ_cons, List.drop_zero] at h
  generalize takeMarker rest = found at h hmarker hmarkers
  obtain ⟨marker, body⟩ := found
  simp only at h hmarker hmarkers
  have hparams : ∀ b ∈ body.takeWhile isParam, isParam b = true :=
    fun b hb => List.all_eq_true.mp List.all_takeWhile b hb
  have hbody := List.takeWhile_append_dropWhile (p := isParam) (l := body)
  generalize body.takeWhile isParam = params at h hparams hbody
  generalize body.dropWhile isParam = tail at h hbody
  have hinter : ∀ b ∈ tail.takeWhile isIntermediate, isIntermediate b = true :=
    fun b hb => List.all_eq_true.mp List.all_takeWhile b hb
  have htail := List.takeWhile_append_dropWhile (p := isIntermediate) (l := tail)
  generalize tail.takeWhile isIntermediate = intermediates at h hinter htail
  generalize tail.dropWhile isIntermediate = last at h htail
  split at h
  · cases h
  · next finalByte behind =>
      split at h
      · next hfinal =>
          cases h
          refine ⟨_, behind, ?_, ?_, .csi hmarkers hparams hinter hfinal⟩
          · rw [hmarker, ← hbody, ← htail]
            simp
          · simp
            omega
      · cases h

theorem contentAndTerminator_eq_some_iff {bs content : Bytes} {n : Nat} :
    contentAndTerminator bs = some (content, n) ↔
      ∃ terminator behind, bs = content ++ (terminator ++ behind) ∧ terminator.length = n ∧
        (∀ b ∈ content, b ≠ BEL ∧ b ≠ ESC) ∧
        (terminator = [BEL] ∨ terminator = [ESC, ascii '\\']) := by
  induction bs generalizing content with
  | nil =>
      constructor
      · intro h
        cases h
      · rintro ⟨terminator, behind, h, -, -, rfl | rfl⟩ <;> simp at h
  | cons b bs ih =>
      rw [contentAndTerminator]
      by_cases hbel : b = BEL
      · subst hbel
        rw [if_pos rfl]
        constructor
        · rintro ⟨⟩
          exact ⟨[BEL], bs, rfl, rfl, nofun, .inl rfl⟩
        · rintro ⟨terminator, behind, h, hn, hcontent, hterm⟩
          cases content with
          | cons c cs =>
              cases h
              exact absurd rfl (hcontent BEL (by simp)).1
          | nil =>
              rcases hterm with rfl | rfl
              · rw [← hn]
                rfl
              · exact absurd (List.cons.inj h).1 (by decide)
      · rw [if_neg hbel]
        by_cases hesc : b = ESC
        · subst hesc
          rw [if_pos rfl]
          constructor
          · intro h
            split at h
            · next hhead =>
                cases h
                obtain ⟨bs', rfl⟩ := List.head?_eq_some_iff.mp hhead
                exact ⟨[ESC, ascii '\\'], bs', rfl, rfl, nofun, .inr rfl⟩
            · cases h
          · rintro ⟨terminator, behind, h, hn, hcontent, hterm⟩
            cases content with
            | cons c cs =>
                cases h
                exact absurd rfl (hcontent ESC (by simp)).2
            | nil =>
                rcases hterm with rfl | rfl
                · exact absurd (List.cons.inj h).1 (by decide)
                · rw [(List.cons.inj h).2, ← hn]
                  rfl
        · rw [if_neg hesc, Option.map_eq_some_iff]
          constructor
          · rintro ⟨⟨content', n'⟩, h, heq⟩
            cases heq
            obtain ⟨terminator, behind, rfl, hn, hcontent, hterm⟩ := ih.mp h
            refine ⟨terminator, behind, rfl, hn, ?_, hterm⟩
            intro c hc
            rcases List.mem_cons.mp hc with rfl | hc
            · exact ⟨hbel, hesc⟩
            · exact hcontent c hc
          · rintro ⟨terminator, behind, h, hn, hcontent, hterm⟩
            cases content with
            | nil =>
                rcases hterm with rfl | rfl
                · exact absurd (List.cons.inj h).1 hbel
                · exact absurd (List.cons.inj h).1 hesc
            | cons c cs =>
                cases h
                refine ⟨(cs, n), ih.mpr ⟨terminator, behind, rfl, hn, ?_, hterm⟩, rfl⟩
                exact fun c hc => hcontent c (by simp [hc])

theorem parseEscape_append {seq : EscapeSeq} {w : Bytes} (h : Spells seq w) (behind : Bytes) :
    parseEscape (w ++ behind) = some (seq, w.length) := by
  cases h with
  | @csi marker params intermediates finalByte hmarker hparams hinter hfinal =>
      have h := parseCsi_of_spells hmarker hparams hinter hfinal ESC (ascii '[') behind
      simp only [List.cons_append, List.append_assoc, List.nil_append]
      refine h.trans ?_
      simp
      omega
  | @osc content terminator hcontent hterm =>
      have h := contentAndTerminator_eq_some_iff.mpr ⟨_, behind, rfl, rfl, hcontent, hterm⟩
      simp only [List.cons_append, List.append_assoc]
      refine (congrArg (Option.map _) h).trans ?_
      simp
      omega
  | @dcs content terminator hcontent hterm =>
      have h := contentAndTerminator_eq_some_iff.mpr ⟨_, behind, rfl, rfl, hcontent, hterm⟩
      simp only [List.cons_append, List.append_assoc]
      refine (congrArg (Option.map _) h).trans ?_
      simp
      omega
  | ss3 => rfl
  | @twoChar b hb hnot =>
      simp only [List.mem_cons, List.not_mem_nil, or_false, not_or] at hnot
      obtain ⟨h₁, h₂, h₃, h₄⟩ := hnot
      simp [parseEscape, h₁, h₂, h₃, h₄, hb]

/-- The parser finds the sequences at the start of `buf`, whatever stands behind them. -/
theorem parseEscape_eq_some_iff {buf : Bytes} {seq : EscapeSeq} {n : Nat} :
    parseEscape buf = some (seq, n) ↔
      ∃ w behind, buf = w ++ behind ∧ w.length = n ∧ Spells seq w := by
  constructor
  · intro h
    match buf, h with
    | b₀ :: b :: rest, h =>
      rw [parseEscape] at h
      split at h
      · cases h
      · next hesc =>
        obtain rfl : b₀ = ESC := not_not.mp hesc
        split at h
        · next hb =>
            subst hb
            exact spells_of_parseCsi h
        · next hb₁ =>
          split at h
          · next hb =>
              subst hb
              obtain ⟨⟨content, n⟩, hfound, ⟨⟩⟩ := Option.map_eq_some_iff.mp h
              obtain ⟨terminator, behind, hrest, hn, hcontent, hterm⟩ :=
                contentAndTerminator_eq_some_iff.mp hfound
              refine ⟨_, behind, ?_, ?_, .osc hcontent hterm⟩
              · simpa using hrest
              · simp [hn]
                omega
          · next hb₂ =>
            split at h
            · next hb =>
                subst hb
                obtain ⟨⟨content, n⟩, hfound, ⟨⟩⟩ := Option.map_eq_some_iff.mp h
                obtain ⟨terminator, behind, hrest, hn, hcontent, hterm⟩ :=
                  contentAndTerminator_eq_some_iff.mp hfound
                refine ⟨_, behind, ?_, ?_, .dcs hcontent hterm⟩
                · simpa using hrest
                · simp [hn]
                  omega
            · next hb₃ =>
              split at h
              · next hb =>
                  subst hb
                  cases rest with
                  | nil => cases h
                  | cons c rest =>
                      cases h
                      exact ⟨_, rest, rfl, rfl, .ss3⟩
              · next hb₄ =>
                split at h
                · next hb =>
                    cases h
                    exact ⟨[ESC, b], rest, rfl, rfl, .twoChar hb (by simp [hb₁, hb₂, hb₃, hb₄])⟩
                · cases h
  · rintro ⟨w, behind, rfl, rfl, hspells⟩
    exact parseEscape_append hspells behind

end Distant
