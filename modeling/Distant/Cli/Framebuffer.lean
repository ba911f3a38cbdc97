import Distant.Cli.Sanitizer
import Distant.Lib.Lines

/-!
# The framebuffer with predictive echo

`TerminalFramebuffer` shows what is typed before the server has echoed it. It has a screen of its
own, fed with the server's output as the local terminal is, and writes predictions over the local
terminal only, behind a saved cursor. The screen is that of another crate: `Vt100` has what is used
of it.
-/

namespace Distant

/-! ## Prediction -/

/-- Controls whether the prediction engine displays speculative local echo. -/
inductive PredictMode where
  | off
  | adaptive
  | on
  /-- skips the confirmation of epochs -/
  | fast
  | fastAdaptive
  deriving DecidableEq, Repr

/-- Durations and instants are counted in nanoseconds. -/
def millis (n : Nat) : Nat := n * 1000000

def PREDICTION_EXPIRY : Nat := millis 2000

def BULK_PASTE_WINDOW : Nat := millis 10

def BULK_PASTE_THRESHOLD : Nat := 100

def ADAPTIVE_RTT_THRESHOLD : Nat := millis 30

def UNDERLINE_RTT_THRESHOLD : Nat := millis 80

/-- Jacobson/Karels smoothed RTT estimator. -/
structure RttEstimator where
  srtt : Nat
  rttvar : Nat
  deriving DecidableEq, Repr

def RttEstimator.new : RttEstimator := ⟨millis 100, millis 50⟩

def RttEstimator.update (r : RttEstimator) (sample : Nat) : RttEstimator :=
  let diff := if sample > r.srtt then sample - r.srtt else r.srtt - sample
  { rttvar := r.rttvar * 3 / 4 + diff / 4, srtt := r.srtt * 7 / 8 + sample / 8 }

/-- The screen behind the parser of the server's output. -/
structure Vt100 (S : Type) where
  process : S → Bytes → S
  cursorPosition : S → Nat × Nat
  /-- the contents of the cell in a row and a column, if there is one -/
  cell : S → Nat → Nat → Option (List Char)
  width : S → Nat
  applicationCursor : S → Bool
  alternateScreen : S → Bool

/-- A predicted character overlaid on the terminal screen. -/
structure PredictedCell where
  row : Nat
  col : Nat
  ch : Char
  epoch : Nat
  sentAt : Nat
  deriving DecidableEq, Repr

/-- A predicted backspace erasure. -/
structure BackspacePrediction where
  row : Nat
  col : Nat
  originalChar : List Char
  epoch : Nat
  sentAt : Nat
  deriving DecidableEq, Repr

structure PredictionOverlay where
  mode : PredictMode
  rtt : RttEstimator
  epochCounter : Nat
  confirmedEpoch : Nat
  cells : List PredictedCell
  backspacePredictions : List BackspacePrediction
  lastInputTime : Option Nat
  inputByteCount : Nat
  /-- the cursor at the start of user input within the current epoch -/
  inputFloor : Option (Nat × Nat)
  deriving DecidableEq, Repr

/-- `as u16` -/
def asU16 (n : Nat) : Nat := n % 65536

def utf8 (s : List Char) : Bytes := s.flatMap String.utf8EncodeChar

def byteLength (s : List Char) : Nat := (utf8 s).length

namespace PredictionOverlay

def new (mode : PredictMode) : PredictionOverlay where
  mode := mode
  rtt := .new
  epochCounter := 0
  confirmedEpoch := 0
  cells := []
  backspacePredictions := []
  lastInputTime := none
  inputByteCount := 0
  inputFloor := none

def shouldDisplay (o : PredictionOverlay) : Bool :=
  match o.mode with
  | .off => false
  | .on => true
  | .fast => true
  | .adaptive => o.rtt.srtt ≥ ADAPTIVE_RTT_THRESHOLD
  | .fastAdaptive => o.rtt.srtt ≥ ADAPTIVE_RTT_THRESHOLD

def shouldUnderline (o : PredictionOverlay) : Bool :=
  o.shouldDisplay && o.rtt.srtt ≥ UNDERLINE_RTT_THRESHOLD

def isIdle (o : PredictionOverlay) : Bool := o.cells.isEmpty && o.backspacePredictions.isEmpty

/-- The epoch gate, which the fast modes skip. -/
def epochConfirmed (o : PredictionOverlay) : Bool :=
  o.mode == .fast || o.mode == .fastAdaptive || o.epochCounter ≤ o.confirmedEpoch

def newEpoch (o : PredictionOverlay) : PredictionOverlay :=
  let counter := o.epochCounter + 1
  { o with
    epochCounter := counter
    confirmedEpoch := if o.isIdle then counter - 1 else o.confirmedEpoch
    cells := []
    backspacePredictions := []
    inputFloor := none }

section

variable {S : Type} (vt : Vt100 S)

def addPrediction (o : PredictionOverlay) (ch : Char) (screen : S) (now : Nat) :
    PredictionOverlay :=
  let (baseRow, baseCol) := vt.cursorPosition screen
  let termWidth := vt.width screen
  let effectiveCol := baseCol - asU16 o.backspacePredictions.length
  let totalCol := asU16 (effectiveCol + asU16 o.cells.length)
  let (row, col) :=
    if totalCol ≥ termWidth then (min (baseRow + totalCol / termWidth) 65535, totalCol % termWidth)
    else (baseRow, totalCol)
  { o with
    inputFloor := if o.inputFloor.isNone then some (baseRow, baseCol) else o.inputFloor
    cells := o.cells ++ [⟨row, col, ch, o.epochCounter, now⟩] }

/-- Backspace: remove last prediction cell, or predict erasure. -/
def backspace (o : PredictionOverlay) (screen : S) (now : Nat) : PredictionOverlay :=
  if ¬ o.cells.isEmpty then { o with cells := o.cells.dropLast }
  else
    let (cursorRow, cursorCol) := vt.cursorPosition screen
    let o := { o with
      inputFloor := if o.inputFloor.isNone then some (cursorRow, cursorCol) else o.inputFloor }
    let predictedCol : Int := cursorCol - o.backspacePredictions.length
    let floorCol : Int :=
      match o.inputFloor with
      | some (fr, fc) => if fr = cursorRow then fc else cursorCol
      | none => cursorCol
    if predictedCol > floorCol then
      let targetCol := (predictedCol - 1).toNat
      match vt.cell screen cursorRow targetCol with
      | some content =>
        if ¬ content.isEmpty ∧ byteLength content ≤ 4 then
          { o with backspacePredictions := o.backspacePredictions ++
              [⟨cursorRow, targetCol, content, o.epochCounter, now⟩] }
        else o
      | none => o
    else o

/-- Enter, Escape, Tab and control characters. -/
def isBoundaryByte (c : Char) : Bool :=
  ['\r', '\n', Char.ofNat 0x1b, '\t'].contains c ||
    (0x01 ≤ c.toNat && c.toNat ≤ 0x07) || (0x0b ≤ c.toNat && c.toNat ≤ 0x0c) ||
    (0x0e ≤ c.toNat && c.toNat ≤ 0x1a)

def isBackspace (c : Char) : Bool := c.toNat == 0x7f || c.toNat == 0x08

def isPrintableAscii (c : Char) : Bool := 0x20 ≤ c.toNat && c.toNat ≤ 0x7e

/-- Arrows and function keys are an epoch boundary; anything else begins with what is predicted. -/
def onSequence (o : PredictionOverlay) (encoded : List Char) (screen : S) (now : Nat) :
    PredictionOverlay :=
  match encoded with
  | c :: rest =>
    if c = Char.ofNat 0x1b ∧ (rest.head? = some '[' ∨ rest.head? = some 'O') then o.newEpoch
    else if isControl c then o
    else addPrediction vt o c screen now
  | [] => o

/-- Classify the input. -/
def classify (o : PredictionOverlay) (encoded : List Char) (screen : S) (now : Nat) :
    PredictionOverlay :=
  match encoded with
  | [c] =>
    if isBoundaryByte c then o.newEpoch
    else if isBackspace c then backspace vt o screen now
    else if isPrintableAscii c then addPrediction vt o c screen now
    else onSequence vt o [c] screen now
  | _ => onSequence vt o encoded screen now

/-- The bytes counted for bulk paste detection, and whether they are of one burst. -/
def burst (o : PredictionOverlay) (encoded : List Char) (now : Nat) : Bool × Nat :=
  match o.lastInputTime with
  | some last =>
    if now - last < BULK_PASTE_WINDOW then (true, o.inputByteCount + byteLength encoded)
    else (false, byteLength encoded)
  | none => (false, byteLength encoded)

def isBulkPaste (o : PredictionOverlay) (encoded : List Char) (now : Nat) : Bool :=
  (o.burst encoded now).1 && (o.burst encoded now).2 ≥ BULK_PASTE_THRESHOLD

/-- Process an encoded keystroke. -/
def onInput (o : PredictionOverlay) (encoded : List Char) (screen : S) (now : Nat) :
    PredictionOverlay :=
  if o.mode = .off then o
  else
    let bulkPaste := o.isBulkPaste encoded now
    let o := { o with inputByteCount := (o.burst encoded now).2, lastInputTime := some now }
    if bulkPaste then { o with cells := [], backspacePredictions := [], inputFloor := none }
    else classify vt o encoded screen now

/-! ## Confirmation -/

def expired (sentAt now : Nat) : Bool := now - sentAt > PREDICTION_EXPIRY

/-- The screen now shows the predicted character. -/
def shows (screen : S) (pred : PredictedCell) : Bool :=
  match vt.cell screen pred.row pred.col with
  | some content => content.head? == some pred.ch
  | none => false

/-- The cursor has passed the position. -/
def passed (screen : S) (pred : PredictedCell) : Bool :=
  let (cursorRow, cursorCol) := vt.cursorPosition screen
  pred.row < cursorRow || (pred.row == cursorRow && pred.col < cursorCol)

def retainCells (screen : S) (now : Nat) :
    List PredictedCell → RttEstimator → Nat → List PredictedCell × RttEstimator × Nat
  | [], rtt, confirmed => ([], rtt, confirmed)
  | pred :: preds, rtt, confirmed =>
    if expired pred.sentAt now then retainCells screen now preds rtt confirmed
    else if shows vt screen pred then
      retainCells screen now preds (rtt.update (now - pred.sentAt)) (max confirmed pred.epoch)
    else if passed vt screen pred then retainCells screen now preds rtt confirmed
    else
      let (kept, rest) := retainCells screen now preds rtt confirmed
      (pred :: kept, rest)

/-- Confirm or discard predictions by comparing against the screen. -/
def confirmPredictions (o : PredictionOverlay) (screen : S) (now : Nat) : PredictionOverlay :=
  let (kept, rtt, confirmed) := retainCells vt screen now o.cells o.rtt o.confirmedEpoch
  { o with cells := kept, rtt := rtt, confirmedEpoch := confirmed }

/-- The server's cursor moved back to or past the position. -/
def movedBack (screen : S) (bp : BackspacePrediction) : Bool :=
  let (cursorRow, cursorCol) := vt.cursorPosition screen
  cursorRow < bp.row || (cursorRow == bp.row && cursorCol ≤ bp.col)

def retainBackspaces (screen : S) (now : Nat) :
    List BackspacePrediction → RttEstimator → Nat → List BackspacePrediction × RttEstimator × Nat
  | [], rtt, confirmed => ([], rtt, confirmed)
  | bp :: bps, rtt, confirmed =>
    if expired bp.sentAt now then retainBackspaces screen now bps rtt confirmed
    else if movedBack vt screen bp then
      retainBackspaces screen now bps (rtt.update (now - bp.sentAt)) (max confirmed bp.epoch)
    else
      let (kept, rest) := retainBackspaces screen now bps rtt confirmed
      (bp :: kept, rest)

/-- Confirm or discard backspace predictions by checking cursor position. -/
def confirmBackspacePredictions (o : PredictionOverlay) (screen : S) (now : Nat) :
    PredictionOverlay :=
  let (kept, rtt, confirmed) :=
    retainBackspaces vt screen now o.backspacePredictions o.rtt o.confirmedEpoch
  { o with backspacePredictions := kept, rtt := rtt, confirmedEpoch := confirmed }

/-- If no predictions are pending and the epoch has fallen far behind, catch up to one behind. -/
def recover (o : PredictionOverlay) : PredictionOverlay :=
  if o.isIdle ∧ o.epochCounter > o.confirmedEpoch + 1 then
    { o with confirmedEpoch := o.epochCounter - 1 }
  else o

end

end PredictionOverlay

/-! ## The framebuffer -/

structure TerminalFramebuffer (S : Type) where
  vtParser : S
  overlay : PredictionOverlay
  sanitizer : TerminalSanitizer
  displayedCount : Nat
  backspaceDisplayed : Nat

/-- Bytes for the local terminal, with the predictions that they show. -/
structure Display where
  bytes : Bytes
  predictions : List PredictedCell
  deriving DecidableEq, Repr

def Display.append (d e : Display) : Display := ⟨d.bytes ++ e.bytes, d.predictions ++ e.predictions⟩

instance : Append Display := ⟨Display.append⟩

theorem Display.append_bytes (d e : Display) : (d ++ e).bytes = d.bytes ++ e.bytes := rfl

def Display.none : Display := ⟨[], []⟩

/-- DECSC and DECRC -/
def saveCursor : Bytes := [ESC, ascii '7']

def restoreCursor : Bytes := [ESC, ascii '8']

def csi (params : List Char) (final : Char) : Bytes :=
  [ESC, ascii '['] ++ params.map ascii ++ [ascii final]

/-- `\x1b[{n}D` -/
def cursorBack (n : Nat) : Bytes := csi (Nat.toDigits 10 n) 'D'

def blanks (n : Nat) : Bytes := List.replicate n (ascii ' ')

namespace TerminalFramebuffer

variable {S K : Type} (vt : Vt100 S) (encodeKey : K → Bool → Option (List Char))

def new (screen : S) (mode : PredictMode) : TerminalFramebuffer S where
  vtParser := screen
  overlay := .new mode
  sanitizer := .conpty
  displayedCount := 0
  backspaceDisplayed := 0

def isDisplaying (fb : TerminalFramebuffer S) : Bool :=
  fb.displayedCount > 0 || fb.backspaceDisplayed > 0

/-- Erase currently-displayed prediction chars from the terminal. -/
def appendErase (fb : TerminalFramebuffer S) : Display × TerminalFramebuffer S :=
  let bs := fb.backspaceDisplayed
  let fwd := fb.displayedCount
  let available := min fb.overlay.backspacePredictions.length bs
  let behind :=
    if bs > 0 then
      cursorBack bs
        ++ (fb.overlay.backspacePredictions.take available).flatMap (fun bp => utf8 bp.originalChar)
        ++ blanks (bs - available)
    else []
  (⟨restoreCursor ++ csi [] 'm' ++ behind ++ blanks (fwd - bs) ++ restoreCursor, []⟩,
    { fb with displayedCount := 0, backspaceDisplayed := 0 })

/-- Write prediction display. The cursor stays at the predicted position. -/
def appendPredictions (fb : TerminalFramebuffer S) : Display × TerminalFramebuffer S :=
  let underline := fb.overlay.shouldUnderline
  let bsCount := fb.overlay.backspacePredictions.length
  let fwdCount := fb.overlay.cells.length
  let chars := fb.overlay.cells.flatMap fun pred => utf8 [pred.ch]
  let shown :=
    if bsCount > 0 ∧ fwdCount = 0 then cursorBack bsCount ++ blanks bsCount ++ cursorBack bsCount
    else if bsCount > 0 ∧ fwdCount > 0 then
      cursorBack bsCount ++ chars
        ++ (if fwdCount < bsCount then blanks (bsCount - fwdCount) ++ cursorBack (bsCount - fwdCount)
            else [])
    else chars
  (⟨saveCursor ++ (if underline then csi ['4'] 'm' else []) ++ shown
      ++ (if underline then csi ['2', '4'] 'm' else []), fb.overlay.cells⟩,
    { fb with displayedCount := fwdCount, backspaceDisplayed := bsCount })

/-- Are there predictions that may be displayed? -/
def hasNew (fb : TerminalFramebuffer S) : Bool :=
  fb.overlay.epochConfirmed && fb.overlay.shouldDisplay && !vt.alternateScreen fb.vtParser
    && !fb.overlay.isIdle

/-- Sanitize server output bytes, update the shadow screen, and confirm predictions. -/
def processServerOutput (fb : TerminalFramebuffer S) (bytes : Bytes) (now : Nat) :
    Display × TerminalFramebuffer S :=
  let (sanitized, sanitizer) := fb.sanitizer.filter bytes
  let screen := vt.process fb.vtParser sanitized
  let overlay := fb.overlay.confirmPredictions vt screen now
  let overlay := overlay.confirmBackspacePredictions vt screen now
  (⟨sanitized, []⟩, { fb with vtParser := screen, overlay := overlay.recover, sanitizer := sanitizer })

/-- Process server output with prediction lifecycle management. -/
def renderServerOutput (fb : TerminalFramebuffer S) (bytes : Bytes) (now : Nat) :
    Display × TerminalFramebuffer S :=
  let (erased, fb) := if fb.isDisplaying then fb.appendErase else (.none, fb)
  let (sanitized, fb) := fb.processServerOutput vt bytes now
  let (shown, fb) := if fb.hasNew vt then fb.appendPredictions else (.none, fb)
  (erased ++ sanitized ++ shown, fb)

/-- Record a user keystroke: what is sent to the server and what is displayed, unless the key is
unrepresentable. -/
def onKeystroke (fb : TerminalFramebuffer S) (event : K) (now : Nat) :
    Option (List Char × Display) × TerminalFramebuffer S :=
  match encodeKey event (vt.applicationCursor fb.vtParser) with
  | none => (none, fb)
  | some encoded =>
    let epochBefore := fb.overlay.epochCounter
    let fb := { fb with overlay := fb.overlay.onInput vt encoded fb.vtParser now }
    let isEpochBoundary := fb.overlay.epochCounter != epochBefore
    let hasNew := fb.hasNew vt
    let (erased, fb) :=
      if fb.isDisplaying && (hasNew || !isEpochBoundary) then fb.appendErase else (.none, fb)
    let (shown, fb) := if hasNew then fb.appendPredictions else (.none, fb)
    (some (encoded, erased ++ shown), fb)

end TerminalFramebuffer

/-! ## Runs -/

/-- What the server sends at once: the echo of a key, by its place in the run, or what it writes on
its own. The framebuffer sees the bytes only. -/
structure Sent where
  echoOf : Option Nat
  bytes : Bytes

inductive TerminalEvent (K : Type) where
  | key (event : K) (now : Nat)
  | output (chunk : List Sent) (now : Nat)

def chunkBytes (chunk : List Sent) : Bytes := chunk.flatMap Sent.bytes

namespace TerminalFramebuffer

variable {S K : Type} (vt : Vt100 S) (encodeKey : K → Bool → Option (List Char))

def step (fb : TerminalFramebuffer S) : TerminalEvent K → Display × TerminalFramebuffer S
  | .key event now =>
    match fb.onKeystroke vt encodeKey event now with
    | (some (_, display), fb) => (display, fb)
    | (none, fb) => (.none, fb)
  | .output chunk now => fb.renderServerOutput vt (chunkBytes chunk) now

/-- What is displayed in a run, step by step. -/
def displays (fb : TerminalFramebuffer S) : List (TerminalEvent K) → List Display
  | [] => []
  | e :: es => (fb.step vt encodeKey e).1 :: displays (fb.step vt encodeKey e).2 es

/-- The framebuffer after a run. -/
def after (fb : TerminalFramebuffer S) : List (TerminalEvent K) → TerminalFramebuffer S
  | [] => fb
  | e :: es => after (fb.step vt encodeKey e).2 es

end TerminalFramebuffer

end Distant
