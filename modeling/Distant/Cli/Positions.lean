import Distant.Cli.Concealment
import Distant.Lib.AutoWrap

/-!
# Where predictions are put

The cell of a predicted character is computed from the cursor, the erasures that are pending and how
many characters are pending, in `u16`: as if each character had one column. `predicts_iff` says for
which texts the cells are those that an auto-wrapping terminal would put them in.
-/

namespace Distant

/-! ## Checked arithmetic -/

/-- `+` of two `u16`, which overflows. -/
def checkedAdd (a b : Nat) : Option Nat := if a + b ≤ 65535 then some (a + b) else none

/-- `/` and `%` of two `u16`, which fail for zero. -/
def checkedDivRem (a b : Nat) : Option (Nat × Nat) := if b = 0 then none else some (a / b, a % b)

/-- `-` of two `i32`, which overflows. -/
def checkedSub (a b : Int) : Option Int :=
  if -2147483648 ≤ a - b ∧ a - b ≤ 2147483647 then some (a - b) else none

/-- `as i32` -/
def asI32 (n : Nat) : Int := Int.bmod n 4294967296

/-- The screens of `Vt100` have a size. Their cursor stays within 16 bits, and within the width or
behind it, where there is one. -/
structure SizedVt100 (S : Type) extends Vt100 S where
  height : S → Nat
  setSize : S → Nat → Nat → S
  row_le : ∀ s, (cursorPosition s).1 ≤ 65535
  col_le : ∀ s, (cursorPosition s).2 ≤ 65535
  col_le_width : ∀ s, 1 ≤ width s → (cursorPosition s).2 ≤ width s
  height_le : ∀ s, height s ≤ 65535

def PredictedCell.position (pred : PredictedCell) : Nat × Nat := (pred.row, pred.col)

namespace PredictionOverlay

section

variable {S : Type} (vt : Vt100 S)

/-- `addPrediction`, where each operation is checked. -/
def addPrediction? (o : PredictionOverlay) (ch : Char) (screen : S) (now : Nat) :
    Option PredictionOverlay := do
  let (baseRow, baseCol) := vt.cursorPosition screen
  let termWidth := vt.width screen
  let effectiveCol := baseCol - asU16 o.backspacePredictions.length
  let totalCol ← checkedAdd effectiveCol (asU16 o.cells.length)
  let (row, col) ←
    if totalCol ≥ termWidth then
      (checkedDivRem totalCol termWidth).map fun (rows, col) => (min (baseRow + rows) 65535, col)
    else some (baseRow, totalCol)
  return { o with
    inputFloor := if o.inputFloor.isNone then some (baseRow, baseCol) else o.inputFloor
    cells := o.cells ++ [⟨row, col, ch, o.epochCounter, now⟩] }

/-- `backspace`, where each operation is checked. -/
def backspace? (o : PredictionOverlay) (screen : S) (now : Nat) : Option PredictionOverlay :=
  if ¬ o.cells.isEmpty then some { o with cells := o.cells.dropLast }
  else do
    let (cursorRow, cursorCol) := vt.cursorPosition screen
    let o := { o with
      inputFloor := if o.inputFloor.isNone then some (cursorRow, cursorCol) else o.inputFloor }
    let predictedCol ← checkedSub cursorCol (asI32 o.backspacePredictions.length)
    let floorCol : Int :=
      match o.inputFloor with
      | some (fr, fc) => if fr = cursorRow then fc else cursorCol
      | none => cursorCol
    if predictedCol > floorCol then
      let targetCol := asU16 (← checkedSub predictedCol 1).toNat
      match vt.cell screen cursorRow targetCol with
      | some content =>
        if ¬ content.isEmpty ∧ byteLength content ≤ 4 then
          return { o with backspacePredictions := o.backspacePredictions ++
              [⟨cursorRow, targetCol, content, o.epochCounter, now⟩] }
        else return o
      | none => return o
    else return o

/-- The predictions of a text, with the time of each key, on one screen. -/
def typed? (screen : S) : PredictionOverlay → List (Char × Nat) → Option PredictionOverlay
  | o, [] => some o
  | o, (ch, now) :: keys => do typed? screen (← addPrediction? vt o ch screen now) keys

end

end PredictionOverlay

namespace TerminalFramebuffer

variable {S K : Type} (vt : SizedVt100 S) (encodeKey : K → Bool → Option (List Char))

/-- Handle terminal resize. -/
def resize (fb : TerminalFramebuffer S) (cols rows : Nat) : TerminalFramebuffer S :=
  { fb with
    vtParser := vt.setSize fb.vtParser rows cols
    overlay := { fb.overlay with cells := [], backspacePredictions := [], inputFloor := none }
    displayedCount := 0
    backspaceDisplayed := 0 }

/-- The framebuffer after a run in which the terminal may be resized. -/
def afterSized (fb : TerminalFramebuffer S) :
    List (TerminalEvent K ⊕ (Nat × Nat)) → TerminalFramebuffer S
  | [] => fb
  | .inl e :: es => afterSized (fb.step vt.toVt100 encodeKey e).2 es
  | .inr (cols, rows) :: es => afterSized (fb.resize vt cols rows) es

end TerminalFramebuffer

namespace PredictionOverlay

/-! ## One prediction -/

section

variable {S : Type} (vt : SizedVt100 S)

/-- The column of the cursor, before the pending erasures. -/
def effectiveCol (o : PredictionOverlay) (screen : S) : Nat :=
  (vt.cursorPosition screen).2 - asU16 o.backspacePredictions.length

/-- The cell with this offset from a column of a row. -/
def offsetCell (width row col offset : Nat) : Nat × Nat :=
  (min (row + (col + asU16 offset) / width) 65535, (col + asU16 offset) % width)

theorem addPrediction?_eq (o : PredictionOverlay) (ch : Char) (screen : S) (now : Nat) :
    addPrediction? vt.toVt100 o ch screen now =
      if vt.width screen ≠ 0 ∧ effectiveCol vt o screen + asU16 o.cells.length ≤ 65535 then
        some (addPrediction vt.toVt100 o ch screen now)
      else none := by
  simp only [addPrediction?, effectiveCol, checkedAdd]
  by_cases hsum : (vt.cursorPosition screen).2 - asU16 o.backspacePredictions.length
      + asU16 o.cells.length ≤ 65535
  · have hmod : asU16 ((vt.cursorPosition screen).2 - asU16 o.backspacePredictions.length
        + asU16 o.cells.length) = (vt.cursorPosition screen).2
          - asU16 o.backspacePredictions.length + asU16 o.cells.length :=
      Nat.mod_eq_of_lt (Nat.lt_succ_of_le hsum)
    by_cases hwidth : vt.width screen = 0
    · simp [hsum, hwidth, checkedDivRem]
    · simp only [hsum, hwidth, if_true, addPrediction, hmod, checkedDivRem]
      split_ifs <;> simp_all
  · simp [hsum]

theorem addPrediction_positions {o : PredictionOverlay} {screen : S}
    (hsum : effectiveCol vt o screen + asU16 o.cells.length ≤ 65535) (ch : Char) (now : Nat) :
    (addPrediction vt.toVt100 o ch screen now).cells.map PredictedCell.position =
      o.cells.map PredictedCell.position ++
        [offsetCell (vt.width screen) (vt.cursorPosition screen).1 (effectiveCol vt o screen)
          o.cells.length] := by
  have hrow := vt.row_le screen
  have hmod : asU16 (effectiveCol vt o screen + asU16 o.cells.length) =
      effectiveCol vt o screen + asU16 o.cells.length := Nat.mod_eq_of_lt (Nat.lt_succ_of_le hsum)
  simp only [effectiveCol] at hmod
  simp only [addPrediction, hmod, List.map_append, List.map_cons, List.map_nil,
    List.append_cancel_left_eq, List.cons.injEq, and_true, offsetCell, effectiveCol]
  split_ifs with hwrap
  · rfl
  · rw [Nat.div_eq_of_lt (by omega), Nat.mod_eq_of_lt (by omega)]
    simp [PredictedCell.position, hrow]

/-- The erasure is predicted without overflow while no more are pending than a row has columns. -/
theorem backspace?_eq {o : PredictionOverlay} (hb : o.backspacePredictions.length ≤ 65535)
    (screen : S) (now : Nat) :
    backspace? vt.toVt100 o screen now = some (backspace vt.toVt100 o screen now) := by
  have hcol := vt.col_le screen
  rcases hcursor : vt.cursorPosition screen with ⟨cursorRow, cursorCol⟩
  rw [hcursor] at hcol
  have hcast : asI32 o.backspacePredictions.length = o.backspacePredictions.length :=
    Int.bmod_eq_of_le (by omega) (by omega)
  have hsub : checkedSub cursorCol (asI32 o.backspacePredictions.length) =
      some (cursorCol - o.backspacePredictions.length : Int) := by
    rw [hcast]
    exact if_pos (by omega)
  by_cases hcells : o.cells.isEmpty
  · simp only [backspace?, backspace, hcursor, hcells, not_true_eq_false, if_false, hsub,
      Option.bind_eq_bind, Option.bind_some]
    obtain ⟨⟨fr, fc⟩, hfloor⟩ : ∃ floor, (if o.inputFloor.isNone then some (cursorRow, cursorCol)
        else o.inputFloor) = some floor := by cases o.inputFloor <;> simp
    simp only [hfloor]
    -- the floor is a column, so the erased one is too
    have hnonneg : (0 : Int) ≤ if fr = cursorRow then (fc : Int) else cursorCol := by
      split_ifs <;> omega
    generalize (if fr = cursorRow then (fc : Int) else cursorCol) = floorCol at hnonneg ⊢
    by_cases habove : (cursorCol - o.backspacePredictions.length : Int) > floorCol
    · have hone : checkedSub (cursorCol - o.backspacePredictions.length) 1 =
          some (cursorCol - o.backspacePredictions.length - 1 : Int) := if_pos (by omega)
      have htarget : asU16 (cursorCol - o.backspacePredictions.length - 1 : Int).toNat =
          (cursorCol - o.backspacePredictions.length - 1 : Int).toNat :=
        Nat.mod_eq_of_lt (by omega)
      simp only [habove, if_true, hone, Option.bind_some, htarget]
      cases vt.cell screen cursorRow (cursorCol - o.backspacePredictions.length - 1 : Int).toNat with
      | none => rfl
      | some content =>
        dsimp only
        split_ifs <;> rfl
    · simp only [habove, if_false]
      rfl
  · simp [backspace?, backspace, hcells]

/-! ## Pending erasures -/

theorem length_backspace_le {o : PredictionOverlay} (h : o.backspacePredictions.length ≤ 65535)
    (screen : S) (now : Nat) :
    (backspace vt.toVt100 o screen now).backspacePredictions.length ≤ 65535 := by
  have hcol := vt.col_le screen
  rcases hcursor : vt.cursorPosition screen with ⟨cursorRow, cursorCol⟩
  rw [hcursor] at hcol
  by_cases hcells : o.cells.isEmpty
  · obtain ⟨⟨fr, fc⟩, hfloor⟩ : ∃ floor, (if o.inputFloor.isNone then some (cursorRow, cursorCol)
        else o.inputFloor) = some floor := by cases o.inputFloor <;> simp
    simp only [backspace, hcursor, hcells, not_true_eq_false, if_false, hfloor]
    have hnonneg : (0 : Int) ≤ if fr = cursorRow then (fc : Int) else cursorCol := by
      split_ifs <;> omega
    generalize (if fr = cursorRow then (fc : Int) else cursorCol) = floorCol at hnonneg ⊢
    by_cases habove : (cursorCol - o.backspacePredictions.length : Int) > floorCol
    · simp only [habove, if_true]
      split
      · split_ifs
        · simp only [List.length_append, List.length_cons, List.length_nil]
          omega
        · exact h
      · exact h
    · simpa only [habove, if_false] using h
  · simpa [backspace, hcells] using h

theorem length_onSequence_le {o : PredictionOverlay} (h : o.backspacePredictions.length ≤ 65535)
    (encoded : List Char) (screen : S) (now : Nat) :
    (onSequence vt.toVt100 o encoded screen now).backspacePredictions.length ≤ 65535 := by
  unfold onSequence
  split
  · split_ifs
    · exact Nat.zero_le _
    · exact h
    · exact h
  · exact h

theorem length_classify_le {o : PredictionOverlay} (h : o.backspacePredictions.length ≤ 65535)
    (encoded : List Char) (screen : S) (now : Nat) :
    (classify vt.toVt100 o encoded screen now).backspacePredictions.length ≤ 65535 := by
  unfold classify
  split
  · split_ifs
    · exact Nat.zero_le _
    · exact length_backspace_le vt h screen now
    · exact h
    · exact length_onSequence_le vt h _ screen now
  · exact length_onSequence_le vt h _ screen now

theorem length_onInput_le {o : PredictionOverlay} (h : o.backspacePredictions.length ≤ 65535)
    (encoded : List Char) (screen : S) (now : Nat) :
    (onInput vt.toVt100 o encoded screen now).backspacePredictions.length ≤ 65535 := by
  unfold onInput
  split
  · exact h
  · dsimp only
    split
    · exact Nat.zero_le _
    · refine length_classify_le vt ?_ encoded screen now
      exact h

theorem length_retainBackspaces_le (screen : S) (now : Nat) (bps : List BackspacePrediction)
    (rtt : RttEstimator) (confirmed : Nat) :
    (retainBackspaces vt.toVt100 screen now bps rtt confirmed).1.length ≤ bps.length := by
  induction bps generalizing rtt confirmed with
  | nil => exact Nat.le_refl 0
  | cons bp bps ih =>
    unfold retainBackspaces
    split
    · exact Nat.le_succ_of_le (ih rtt confirmed)
    · split
      · exact Nat.le_succ_of_le (ih _ _)
      · exact Nat.succ_le_succ (ih rtt confirmed)

theorem length_settle_le {o : PredictionOverlay} (h : o.backspacePredictions.length ≤ 65535)
    (screen : S) (now : Nat) :
    (o.settle vt.toVt100 screen now).backspacePredictions.length ≤ 65535 := by
  have hretained := length_retainBackspaces_le vt screen now o.backspacePredictions
    (o.confirmPredictions vt.toVt100 screen now).rtt
    (o.confirmPredictions vt.toVt100 screen now).confirmedEpoch
  unfold settle recover
  split
  · exact Nat.le_trans hretained h
  · exact Nat.le_trans hretained h

end

end PredictionOverlay

namespace TerminalFramebuffer

variable {S K : Type} (vt : SizedVt100 S) (encodeKey : K → Bool → Option (List Char))

theorem length_step_le {fb : TerminalFramebuffer S}
    (h : fb.overlay.backspacePredictions.length ≤ 65535) (e : TerminalEvent K) :
    (fb.step vt.toVt100 encodeKey e).2.overlay.backspacePredictions.length ≤ 65535 := by
  cases e with
  | key event now =>
    rw [step_key]
    cases hencoded : encodeKey event (vt.applicationCursor fb.vtParser) with
    | none => simpa only [onKeystroke_none vt.toVt100 encodeKey fb hencoded] using h
    | some encoded =>
      rw [onKeystroke_overlay vt.toVt100 encodeKey fb hencoded now]
      exact PredictionOverlay.length_onInput_le vt h encoded fb.vtParser now
  | output chunk now =>
    have hsettled := renderServerOutput_overlay vt.toVt100 fb (chunkBytes chunk) now
    unfold step
    rw [hsettled]
    exact PredictionOverlay.length_settle_le vt h _ now

/-- In every state of every run there are no more pending erasures than a row can have columns. -/
theorem length_afterSized_le {fb : TerminalFramebuffer S}
    (h : fb.overlay.backspacePredictions.length ≤ 65535)
    (es : List (TerminalEvent K ⊕ (Nat × Nat))) :
    (fb.afterSized vt encodeKey es).overlay.backspacePredictions.length ≤ 65535 := by
  induction es generalizing fb with
  | nil => exact h
  | cons e es ih =>
    rcases e with e | ⟨cols, rows⟩
    · exact ih (length_step_le vt encodeKey h e)
    · exact ih (Nat.zero_le _)

end TerminalFramebuffer

/-! ## A text -/

namespace PredictionOverlay

section

variable {S : Type} (vt : SizedVt100 S)

theorem effectiveCol_addPrediction (o : PredictionOverlay) (ch : Char) (screen : S) (now : Nat) :
    effectiveCol vt (addPrediction vt.toVt100 o ch screen now) screen = effectiveCol vt o screen :=
  rfl

theorem length_addPrediction (o : PredictionOverlay) (ch : Char) (screen : S) (now : Nat) :
    (addPrediction vt.toVt100 o ch screen now).cells.length = o.cells.length + 1 := by
  simp [addPrediction]

/-- No column that is computed for a character of the text overflows. -/
def InRange (o : PredictionOverlay) (screen : S) (len : Nat) : Prop :=
  ∀ k, o.cells.length ≤ k → k < o.cells.length + len →
    effectiveCol vt o screen + asU16 k ≤ 65535

theorem typed?_cons (o : PredictionOverlay) (ch : Char) (now : Nat) (screen : S)
    (keys : List (Char × Nat)) :
    typed? vt.toVt100 screen o ((ch, now) :: keys) =
      if vt.width screen ≠ 0 ∧ effectiveCol vt o screen + asU16 o.cells.length ≤ 65535 then
        typed? vt.toVt100 screen (addPrediction vt.toVt100 o ch screen now) keys
      else none := by
  simp only [typed?, addPrediction?_eq]
  split_ifs <;> rfl

theorem inRange_cons (o : PredictionOverlay) (ch : Char) (now : Nat) (screen : S) (len : Nat) :
    InRange vt o screen (len + 1) ↔ effectiveCol vt o screen + asU16 o.cells.length ≤ 65535 ∧
      InRange vt (addPrediction vt.toVt100 o ch screen now) screen len := by
  simp only [InRange, effectiveCol_addPrediction, length_addPrediction]
  constructor
  · intro h
    exact ⟨h _ (Nat.le_refl _) (by omega), fun k hk hlt => h k (by omega) (by omega)⟩
  · rintro ⟨hfirst, hrest⟩ k hk hlt
    obtain rfl | hk : o.cells.length = k ∨ o.cells.length + 1 ≤ k := by omega
    · exact hfirst
    · exact hrest k hk (by omega)

theorem typed?_isSome_iff (o : PredictionOverlay) (screen : S) (keys : List (Char × Nat)) :
    (typed? vt.toVt100 screen o keys).isSome ↔
      keys = [] ∨ (vt.width screen ≠ 0 ∧ InRange vt o screen keys.length) := by
  induction keys generalizing o with
  | nil => simp [typed?]
  | cons key keys ih =>
    obtain ⟨ch, now⟩ := key
    rw [typed?_cons, List.length_cons, inRange_cons vt o ch now]
    have hnil : InRange vt (addPrediction vt.toVt100 o ch screen now) screen 0 :=
      fun k hk hlt => absurd hlt (by omega)
    split_ifs with hfirst
    · rw [ih]
      constructor
      · rintro (rfl | ⟨hwidth, hrest⟩)
        · exact .inr ⟨hfirst.1, hfirst.2, hnil⟩
        · exact .inr ⟨hwidth, hfirst.2, hrest⟩
      · rintro (hkeys | ⟨hwidth, -, hrest⟩)
        · cases hkeys
        · exact .inr ⟨hwidth, hrest⟩
    · constructor
      · intro h
        exact absurd h (by simp)
      · rintro (hkeys | ⟨hwidth, hcol, -⟩)
        · cases hkeys
        · exact absurd ⟨hwidth, hcol⟩ hfirst

/-- What is predicted for a text has the offsets that count on from what is pending. -/
theorem typed?_positions {o o' : PredictionOverlay} {screen : S} {keys : List (Char × Nat)}
    (h : typed? vt.toVt100 screen o keys = some o') :
    o'.backspacePredictions = o.backspacePredictions ∧
      o'.cells.map PredictedCell.position = o.cells.map PredictedCell.position ++
        (List.range' o.cells.length keys.length).map
          (offsetCell (vt.width screen) (vt.cursorPosition screen).1 (effectiveCol vt o screen)) := by
  induction keys generalizing o with
  | nil =>
    obtain rfl : o = o' := by simpa [typed?] using h
    simp
  | cons key keys ih =>
    obtain ⟨ch, now⟩ := key
    rw [typed?_cons] at h
    split_ifs at h with hfirst
    obtain ⟨hb, hcells⟩ := ih h
    rw [addPrediction_positions vt hfirst.2, effectiveCol_addPrediction, length_addPrediction,
      List.append_assoc] at hcells
    refine ⟨hb, ?_⟩
    rw [hcells, List.length_cons, List.range'_succ, List.map_cons]
    rfl

end

/-! ## Against the terminal -/

section

variable {S : Type} (vt : SizedVt100 S) (charWidth : Char → Nat)

/-- The cells that an auto-wrapping terminal puts a text in, from the cursor that the pending
erasures leave. -/
def terminalCells (o : PredictionOverlay) (screen : S) (keys : List (Char × Nat)) :
    List (Option (Nat × Nat)) :=
  AutoWrap.cells (vt.width screen)
    ((vt.cursorPosition screen).1, (vt.cursorPosition screen).2 - o.backspacePredictions.length)
    (keys.map fun key => charWidth key.1)

/-- The text fits above the bottom row. -/
def FitsAbove (o : PredictionOverlay) (screen : S) (keys : List (Char × Nat)) : Prop :=
  ∀ cell, some cell ∈ terminalCells vt charWidth o screen keys → cell.1 + 1 < vt.height screen

/-- No operation fails for a text or for the erasure after it, and where the terminal has columns
and the text fits, each character is predicted in the cell that the terminal puts it in, and no two
in one. -/
def Predicts (o : PredictionOverlay) (screen : S) (keys : List (Char × Nat)) (now : Nat) : Prop :=
  ∃ o', typed? vt.toVt100 screen o keys = some o' ∧
    (backspace? vt.toVt100 o' screen now).isSome ∧
    (1 ≤ vt.width screen → FitsAbove vt charWidth o screen keys →
      (o'.cells.map PredictedCell.position).map some = terminalCells vt charWidth o screen keys ∧
        (o'.cells.map PredictedCell.position).Nodup)

/-- The terminal has columns, the columns of the text stay within 16 bits (which they also do if they
are counted from column zero, where they come round), and if the text fits, they do not come round
and the characters are one column each, but for the last. -/
def Predictable (o : PredictionOverlay) (screen : S) (keys : List (Char × Nat)) : Prop :=
  let (row, cursorCol) := vt.cursorPosition screen
  let col := cursorCol - o.backspacePredictions.length
  keys = [] ∨
    (vt.width screen ≠ 0 ∧ (col = 0 ∨ col + keys.length ≤ 65536) ∧
      (FitsAbove vt charWidth o screen keys → col + keys.length ≤ 65536 ∧
        AutoWrap.OneColumn (vt.width screen) (AutoWrap.number (vt.width screen) (row, col))
          (keys.map fun key => charWidth key.1)))

theorem asU16_of_le {n : Nat} (h : n ≤ 65535) : asU16 n = n := Nat.mod_eq_of_lt (by omega)

theorem inRange_iff {o : PredictionOverlay} {screen : S} (hcells : o.cells = [])
    (hcol : effectiveCol vt o screen ≤ 65535) (len : Nat) :
    InRange vt o screen len ↔
      effectiveCol vt o screen = 0 ∨ effectiveCol vt o screen + len ≤ 65536 := by
  simp only [InRange, hcells, List.length_nil, Nat.zero_le, true_implies, Nat.zero_add]
  constructor
  · intro h
    by_contra hnot
    -- the first offset that overflows
    have := h (65536 - effectiveCol vt o screen) (by omega)
    rw [asU16_of_le (by omega)] at this
    omega
  · rintro (hzero | hlen) k hk
    · have hmod : asU16 k < 65536 := Nat.mod_lt k (by decide)
      omega
    · rw [asU16_of_le (by omega)]
      omega

theorem offsetCell_eq {width row col k : Nat} (hw : 0 < width) (hk : k ≤ 65535)
    (h : row + (col + k) / width ≤ 65535) :
    offsetCell width row col k
      = AutoWrap.cellAt width (AutoWrap.number width (row, col) + k) := by
  have hnumber : AutoWrap.number width (row, col) + k = width * row + (col + k) := by
    simp only [AutoWrap.number, Nat.mul_comm row, Nat.add_assoc]
  simp only [offsetCell, asU16_of_le hk, AutoWrap.cellAt, hnumber, Nat.mul_add_div hw,
    Nat.mul_add_mod, Nat.min_eq_left h]

theorem cellAt_number_add_fst {width row col k : Nat} (hw : 0 < width) :
    (AutoWrap.cellAt width (AutoWrap.number width (row, col) + k)).1 = row + (col + k) / width := by
  have hnumber : AutoWrap.number width (row, col) + k = width * row + (col + k) := by
    simp only [AutoWrap.number, Nat.mul_comm row, Nat.add_assoc]
  simp only [AutoWrap.cellAt, hnumber, Nat.mul_add_div hw]

/-- The offsets of a text that stays within 16 bits are as many cells as it has characters, if the
rows of either are on the screen. -/
theorem offsetCells_eq {width row col len : Nat} (hw : 0 < width) (hlen : len ≤ 65536)
    (h : (∀ cell ∈ (List.range' 0 len).map (offsetCell width row col), cell.1 < 65535) ∨
      ∀ cell ∈ AutoWrap.following width (AutoWrap.number width (row, col)) len, cell.1 < 65535) :
    (List.range' 0 len).map (offsetCell width row col)
      = AutoWrap.following width (AutoWrap.number width (row, col)) len := by
  have hshift : List.range' (AutoWrap.number width (row, col)) len =
      (List.range' 0 len).map (AutoWrap.number width (row, col) + ·) := by
    rw [List.map_add_range']
    rfl
  rw [AutoWrap.following, hshift, List.map_map]
  refine List.map_congr_left fun k hk => ?_
  have hlt : k < len := by simpa using hk
  refine offsetCell_eq hw (by omega) ?_
  rcases h with h | h
  · have hrow := h _ (List.mem_map_of_mem hk)
    simp only [offsetCell, asU16_of_le (show k ≤ 65535 by omega)] at hrow
    omega
  · have hrow := h (AutoWrap.cellAt width (AutoWrap.number width (row, col) + k)) (by
      rw [AutoWrap.following, hshift, List.map_map]
      exact List.mem_map.mpr ⟨k, hk, rfl⟩)
    rw [cellAt_number_add_fst hw] at hrow
    exact Nat.le_of_lt hrow

/-- With more characters than 16 bits count, the offsets come round. -/
theorem not_nodup_offsetCells {width row col len : Nat} (hlen : 65536 < len) :
    ¬ ((List.range' 0 len).map (offsetCell width row col)).Nodup := by
  intro hnodup
  have hsame : offsetCell width row col 0 = offsetCell width row col 65536 := rfl
  have hinj := List.inj_on_of_nodup_map hnodup (by simp; omega) (by simp; omega) hsame
  exact absurd hinj (by decide)

theorem terminalCells_eq_iff (o : PredictionOverlay) {screen : S} (hw : 0 < vt.width screen)
    (keys : List (Char × Nat)) :
    terminalCells vt charWidth o screen keys =
        (AutoWrap.following (vt.width screen) (AutoWrap.number (vt.width screen)
          ((vt.cursorPosition screen).1,
            (vt.cursorPosition screen).2 - o.backspacePredictions.length)) keys.length).map some ↔
      AutoWrap.OneColumn (vt.width screen) (AutoWrap.number (vt.width screen)
        ((vt.cursorPosition screen).1,
          (vt.cursorPosition screen).2 - o.backspacePredictions.length))
        (keys.map fun key => charWidth key.1) := by
  have hcol := vt.col_le_width screen hw
  have hiff := AutoWrap.columns_eq_iff hw (AutoWrap.number (vt.width screen)
    ((vt.cursorPosition screen).1, (vt.cursorPosition screen).2 - o.backspacePredictions.length))
    (keys.map fun key => charWidth key.1)
  rw [List.length_map] at hiff
  rw [← hiff, terminalCells, AutoWrap.cells_eq_columns hw _ (Nat.le_trans (Nat.sub_le _ _) hcol)]

/-- What is computed for a text without failing is right exactly if the text is one column a
character and stays within 16 bits, as far as it fits the screen at all. -/
theorem offsets_agree_iff {o : PredictionOverlay} {screen : S} {keys : List (Char × Nat)}
    (hw : 0 < vt.width screen) (hfits : FitsAbove vt charWidth o screen keys)
    (hrange : (vt.cursorPosition screen).2 - o.backspacePredictions.length = 0 ∨
      (vt.cursorPosition screen).2 - o.backspacePredictions.length + keys.length ≤ 65536) :
    let offsets := (List.range' 0 keys.length).map (offsetCell (vt.width screen)
      (vt.cursorPosition screen).1
      ((vt.cursorPosition screen).2 - o.backspacePredictions.length))
    offsets.map some = terminalCells vt charWidth o screen keys ∧ offsets.Nodup ↔
      (vt.cursorPosition screen).2 - o.backspacePredictions.length + keys.length ≤ 65536 ∧
        AutoWrap.OneColumn (vt.width screen) (AutoWrap.number (vt.width screen)
          ((vt.cursorPosition screen).1,
            (vt.cursorPosition screen).2 - o.backspacePredictions.length))
          (keys.map fun key => charWidth key.1) := by
  intro offsets
  have hheight := vt.height_le screen
  have hterminal := terminalCells_eq_iff vt charWidth o hw keys
  rw [← hterminal]
  constructor
  · rintro ⟨hcells, hnodup⟩
    have hlen : keys.length ≤ 65536 := by
      by_contra hnot
      exact not_nodup_offsetCells (by omega) hnodup
    have hrow : ∀ cell ∈ offsets, cell.1 < 65535 := by
      intro cell hcell
      have := hfits cell (hcells ▸ List.mem_map_of_mem hcell)
      omega
    refine ⟨?_, ?_⟩
    · rcases hrange with hzero | hle
      · rw [hzero, Nat.zero_add]
        exact hlen
      · exact hle
    · rw [← hcells]
      exact congrArg (List.map some) (offsetCells_eq hw hlen (.inl hrow))
  · rintro ⟨hle, hcells⟩
    have hlen : keys.length ≤ 65536 := Nat.le_trans (Nat.le_add_left _ _) hle
    have hrow : ∀ cell ∈ AutoWrap.following (vt.width screen) (AutoWrap.number (vt.width screen)
        ((vt.cursorPosition screen).1, (vt.cursorPosition screen).2
          - o.backspacePredictions.length)) keys.length, cell.1 < 65535 := by
      intro cell hcell
      have := hfits cell (hcells ▸ List.mem_map_of_mem hcell)
      omega
    have hoffsets := offsetCells_eq hw hlen (.inr hrow)
    refine ⟨?_, ?_⟩
    · rw [hcells]
      exact congrArg (List.map some) hoffsets
    · rw [show offsets = _ from hoffsets]
      exact AutoWrap.following_nodup _ _ _

/-- Predictions are put where they belong if and only if the terminal has columns, the columns do not
overflow, and a text that fits has one column for each character. -/
theorem predicts_iff {o : PredictionOverlay} (hb : o.backspacePredictions.length ≤ 65535)
    (hcells : o.cells = []) (screen : S) (keys : List (Char × Nat)) (now : Nat) :
    Predicts vt charWidth o screen keys now ↔ Predictable vt charWidth o screen keys := by
  have heffective : effectiveCol vt o screen =
      (vt.cursorPosition screen).2 - o.backspacePredictions.length := by
    rw [effectiveCol, asU16_of_le hb]
  have hcol : effectiveCol vt o screen ≤ 65535 := Nat.le_trans (Nat.sub_le _ _) (vt.col_le screen)
  have hsome := typed?_isSome_iff vt o screen keys
  rw [inRange_iff vt hcells hcol, heffective] at hsome
  constructor
  · rintro ⟨o', htyped, -, hright⟩
    obtain hkeys | ⟨hwidth, hrange⟩ := hsome.mp (by rw [htyped]; rfl)
    · exact .inl hkeys
    · refine .inr ⟨hwidth, hrange, fun hfits => ?_⟩
      obtain ⟨-, hpositions⟩ := typed?_positions vt htyped
      rw [hcells, heffective] at hpositions
      have hagrees := hright (Nat.pos_of_ne_zero hwidth) hfits
      rw [hpositions] at hagrees
      exact (offsets_agree_iff vt charWidth (Nat.pos_of_ne_zero hwidth) hfits hrange).mp hagrees
  · intro h
    have hranges : keys = [] ∨ vt.width screen ≠ 0 ∧
        ((vt.cursorPosition screen).2 - o.backspacePredictions.length = 0 ∨
          (vt.cursorPosition screen).2 - o.backspacePredictions.length + keys.length ≤ 65536) :=
      h.imp_right fun h => ⟨h.1, h.2.1⟩
    obtain ⟨o', htyped⟩ := Option.isSome_iff_exists.mp (hsome.mpr hranges)
    obtain ⟨hbackspaces, hpositions⟩ := typed?_positions vt htyped
    rw [hcells, heffective] at hpositions
    refine ⟨o', htyped, ?_, fun hw hfits => ?_⟩
    · rw [backspace?_eq vt (hbackspaces ▸ hb)]
      rfl
    · rw [hpositions]
      rcases h with rfl | ⟨-, hrange, hright⟩
      · exact ⟨rfl, List.nodup_nil⟩
      · exact (offsets_agree_iff vt charWidth hw hfits hrange).mpr (hright hfits)

end

end PredictionOverlay

/-! ## Blank screens -/

/-- A screen with these rows and columns that nothing has been written to. -/
def blankScreen : SizedVt100 (Fin 65536 × Fin 65536) where
  process := fun s _ => s
  cursorPosition := fun _ => (0, 0)
  cell := fun s row col => if row < s.1.val ∧ col < s.2.val then some [] else none
  width := fun s => s.2.val
  applicationCursor := fun _ => false
  alternateScreen := fun _ => false
  height := fun s => s.1.val
  setSize := fun _ rows cols => (Fin.ofNat 65536 rows, Fin.ofNat 65536 cols)
  row_le := fun _ => Nat.zero_le _
  col_le := fun _ => Nat.zero_le _
  col_le_width := fun _ _ => Nat.zero_le _
  height_le := fun s => Nat.le_of_lt_succ s.1.isLt

/-- Two columns for an ideograph. -/
def ideographWidth (c : Char) : Nat := if 0x4e00 ≤ c.toNat ∧ c.toNat ≤ 0x9fff then 2 else 1

namespace PredictionOverlay

theorem predicts_ls : Predicts blankScreen ideographWidth (.new .on) (24, 80)
    [('l', 0), ('s', 1)] 2 :=
  (predicts_iff blankScreen ideographWidth (by decide) rfl (24, 80) [('l', 0), ('s', 1)] 2).mpr
    (.inr ⟨by decide, .inl rfl, fun _ => by decide⟩)

/-- The second of two ideographs is predicted in the second column of the first, and without
columns nothing can be predicted. -/
theorem not_predicts_ideographs :
    (typed? blankScreen.toVt100 (24, 80) (.new .on) [('日', 0), ('本', 1)]).map
        (fun o => o.cells.map PredictedCell.position) = some [(0, 0), (0, 1)] ∧
      ¬ Predicts blankScreen ideographWidth (.new .on) (24, 80) [('日', 0), ('本', 1)] 2 ∧
      ¬ Predicts blankScreen ideographWidth (.new .on) (24, 0) [('l', 0)] 1 := by
  have hfits : FitsAbove blankScreen ideographWidth (.new .on) (24, 80) [('日', 0), ('本', 1)] := by
    intro cell hcell
    have hcells : terminalCells blankScreen ideographWidth (.new .on) (24, 80)
        [('日', 0), ('本', 1)] = [some (0, 0), some (0, 2)] := by decide
    rw [hcells] at hcell
    obtain rfl | rfl : cell = (0, 0) ∨ cell = (0, 2) := by simpa using hcell
    · decide
    · decide
  refine ⟨by decide, ?_, ?_⟩
  · rintro ⟨o', htyped, -, hright⟩
    have hcells := (hright (by decide) hfits).1
    have hpositions : (typed? blankScreen.toVt100 (24, 80) (.new .on)
        [('日', 0), ('本', 1)]).map (fun o => o.cells.map PredictedCell.position) =
          some [(0, 0), (0, 1)] := by decide
    rw [htyped, Option.map_some, Option.some.injEq] at hpositions
    rw [hpositions] at hcells
    exact absurd hcells (by decide)
  · rintro ⟨o', htyped, -⟩
    have hnone : typed? blankScreen.toVt100 (24, 0) (.new .on) [('l', 0)] = none := by decide
    rw [hnone] at htyped
    cases htyped

end PredictionOverlay

end Distant
