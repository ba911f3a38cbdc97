import Distant.Cli.Concealment

/-!
# Whether predictive echo leaves a trace

One terminal gets everything that is displayed, another the server's output only. What is drawn for
predictions stays within a part of a row, and erasing writes over this part what the framebuffer
takes for what was there. `transparent_of_run` says that both terminals show the same as long as this
is right, and the server does not go back to a cursor that it saved before something was drawn.
-/

namespace Distant

open PredictionOverlay

namespace Terminal

/-! ## Two terminals -/

/-- Both show the same, and read on in the same way. -/
def Alike (t u : Terminal) : Prop := t.screen = u.screen ∧ t.parser = u.parser

/-- No cursor is restored before one has been saved. -/
def SavesFirst (ops : List TermOp) : Prop := .restore ∉ ops.takeWhile (· != .save)

instance (ops : List TermOp) : Decidable (SavesFirst ops) :=
  inferInstanceAs (Decidable (.restore ∉ ops.takeWhile (· != .save)))

theorem apply_screen {t u : Terminal} (h : t.screen = u.screen) {op : TermOp} (hop : op ≠ .restore) :
    (t.apply op).screen = (u.apply op).screen := by
  cases op with
  | restore => exact absurd rfl hop
  | save => exact h
  | _ => simp only [apply, h]

theorem apply_restore_screen (t : Terminal) :
    (t.apply .restore).screen = { t.screen with cursor := t.saved } := rfl

theorem applyAll_same {t u : Terminal} (hscreen : t.screen = u.screen) (hsaved : t.saved = u.saved)
    (ops : List TermOp) : (t.applyAll ops).screen = (u.applyAll ops).screen := by
  induction ops generalizing t u with
  | nil => exact hscreen
  | cons op ops ih =>
      show ((t.apply op).applyAll ops).screen = ((u.apply op).applyAll ops).screen
      by_cases hop : op = .restore
      · subst hop
        exact ih (by simp only [apply, hscreen, hsaved]) hsaved
      · refine ih (apply_screen hscreen hop) ?_
        cases op <;> first | exact hsaved | exact congrArg TermScreen.cursor hscreen

/-- What is saved does not matter to what saves first. -/
theorem applyAll_savesFirst {t u : Terminal} (hscreen : t.screen = u.screen) {ops : List TermOp}
    (h : SavesFirst ops) : (t.applyAll ops).screen = (u.applyAll ops).screen := by
  induction ops generalizing t u with
  | nil => exact hscreen
  | cons op ops ih =>
      show ((t.apply op).applyAll ops).screen = ((u.apply op).applyAll ops).screen
      by_cases hsave : op = .save
      · subst hsave
        have hsaved : (t.apply .save).saved = (u.apply .save).saved :=
          congrArg TermScreen.cursor hscreen
        exact applyAll_same (t := t.apply .save) (u := u.apply .save) hscreen hsaved ops
      · have htake : (op :: ops).takeWhile (· != .save) = op :: ops.takeWhile (· != .save) := by
          simp [hsave]
        unfold SavesFirst at h
        rw [htake, List.mem_cons, not_or] at h
        exact ih (apply_screen hscreen (Ne.symm h.1)) h.2

theorem Alike.process {t u : Terminal} (h : Alike t u) {bs : Bytes}
    (hsaves : SavesFirst (u.parser.ops bs).1) : Alike (t.process bs) (u.process bs) := by
  obtain ⟨hscreen, hparser⟩ := h
  unfold Terminal.process
  rw [hparser]
  exact ⟨applyAll_savesFirst hscreen hsaves, rfl⟩

/-! ## Drawing and erasing -/

/-- So many erased characters left of the cursor and characters in their place or right of it are
within the row, and may be drawn now. -/
def Fits (t : Terminal) (bs fwd : Nat) : Prop :=
  t.parser = .ground ∧ bs ≤ t.screen.cursor.2 ∧
    t.screen.cursor.2 - bs + max bs fwd ≤ t.screen.cols

instance (t : Terminal) (bs fwd : Nat) : Decidable (t.Fits bs fwd) :=
  inferInstanceAs (Decidable (_ ∧ _ ∧ _))

/-- The part of the cursor's row that so many characters are drawn over. -/
def segment (t : Terminal) (bs n : Nat) : List Char :=
  (List.range n).map fun i => t.screen.cells t.screen.cursor.1 (t.screen.cursor.2 - bs + i)

/-- `t` shows predictions over what `u` shows. -/
structure Drawn (t u : Terminal) (bs fwd : Nat) : Prop where
  parser : t.parser = .ground
  saved : t.saved = u.screen.cursor
  rows : t.screen.rows = u.screen.rows
  cols : t.screen.cols = u.screen.cols
  outside : ∀ r c, ¬ (r = u.screen.cursor.1 ∧ u.screen.cursor.2 - bs ≤ c ∧
      c < u.screen.cursor.2 - bs + max bs fwd) → t.screen.cells r c = u.screen.cells r c

/-- The cursor goes to where drawing and erasing begin, and a text is written there. -/
theorem applyAll_from (t : Terminal) (bs : Nat) (text : List Char)
    (h : t.screen.cursor.2 - bs + text.length ≤ t.screen.cols) :
    (t.applyAll ((if bs > 0 then [.back bs] else []) ++ text.map .print)).screen = { t.screen with
        cells := overwrite t.screen.cells t.screen.cursor.1 (t.screen.cursor.2 - bs) text
        cursor := (t.screen.cursor.1, t.screen.cursor.2 - bs + text.length) } ∧
      (t.applyAll ((if bs > 0 then [.back bs] else []) ++ text.map .print)).saved = t.saved := by
  obtain ⟨hback, hsaved⟩ := applyAll_back t bs
  have hprint := applyAll_print (t.applyAll (if bs > 0 then [.back bs] else [])) text
    (by rw [hback]; exact h)
  rw [applyAll_append, hprint.1, hprint.2, hback, hsaved]
  exact ⟨rfl, rfl⟩

theorem overwrite_outside (g : Nat → Nat → Char) {row col : Nat} {text : List Char} {r c : Nat}
    (h : ¬ (r = row ∧ col ≤ c ∧ c < col + text.length)) : overwrite g row col text r c = g r c := by
  unfold overwrite
  split
  · rename_i hin
    have hlong : text.length ≤ c - col := by
      by_contra hlt
      exact h ⟨hin.1, hin.2, by omega⟩
    rw [List.getElem?_eq_none hlong]
    rfl
  · rfl

theorem drawn_of_ops {t u : Terminal} (halike : Alike t u) {bs fwd : Nat} (hfits : u.Fits bs fwd)
    {bytes : Bytes} {text : List Char} {tail : List TermOp}
    (hops : TermParser.ground.ops bytes
      = ([.save] ++ ((if bs > 0 then [.back bs] else []) ++ text.map .print) ++ tail, .ground))
    (htext : text.length = max bs fwd) (htail : tail = [] ∨ ∃ k, tail = [.back k]) :
    Drawn (t.process bytes) u bs fwd := by
  obtain ⟨hground, -, hmargin⟩ := hfits
  obtain ⟨hscreen, hparser⟩ := halike
  obtain ⟨hscreen', hsaved', hparser'⟩ := process_eq (hparser.trans hground) hops
  have hfrom := applyAll_from (t.apply .save) bs text (by
    show t.screen.cursor.2 - bs + text.length ≤ t.screen.cols
    rw [hscreen, htext]
    exact hmargin)
  have htail' : ∀ v : Terminal, (v.applyAll tail).saved = v.saved ∧
      (v.applyAll tail).screen.cells = v.screen.cells ∧
      (v.applyAll tail).screen.rows = v.screen.rows ∧
        (v.applyAll tail).screen.cols = v.screen.cols := by
    intro v
    rcases htail with rfl | ⟨k, rfl⟩ <;> exact ⟨rfl, rfl, rfl, rfl⟩
  have hsplit : ∀ ops : List TermOp, t.applyAll ([.save] ++ ops ++ tail)
      = ((t.apply .save).applyAll ops).applyAll tail := fun ops => by
    rw [applyAll_append, applyAll_append]
    rfl
  rw [hsplit] at hscreen' hsaved'
  obtain ⟨hs, hcells, hrows, hcols⟩ := htail' ((t.apply .save).applyAll
    ((if bs > 0 then [.back bs] else []) ++ text.map .print))
  constructor
  · exact hparser'
  · rw [hsaved', hs, hfrom.2, ← hscreen]
    rfl
  · rw [hscreen', hrows, hfrom.1, ← hscreen]
    rfl
  · rw [hscreen', hcols, hfrom.1, ← hscreen]
    rfl
  · intro r c hout
    rw [hscreen', hcells, hfrom.1]
    show overwrite t.screen.cells t.screen.cursor.1 (t.screen.cursor.2 - bs) text r c = _
    rw [hscreen]
    exact overwrite_outside _ (by rwa [htext])

/-- Erasing puts back what is behind the predictions, if this is what it writes. -/
theorem alike_of_erase {t u : Terminal} {bs fwd : Nat} (hdrawn : Drawn t u bs fwd)
    (hfits : u.Fits bs fwd) {bytes : Bytes}
    (hops : TermParser.ground.ops bytes = ([.restore] ++ ((if bs > 0 then [.back bs] else [])
      ++ (u.segment bs (max bs fwd)).map .print) ++ [.restore], .ground)) :
    Alike (t.process bytes) u := by
  obtain ⟨hground, -, hmargin⟩ := hfits
  obtain ⟨hscreen', -, hparser'⟩ := process_eq hdrawn.parser hops
  have hlength : (u.segment bs (max bs fwd)).length = max bs fwd := by simp [segment]
  have hfrom := applyAll_from (t.apply .restore) bs (u.segment bs (max bs fwd)) (by
    show t.saved.2 - bs + _ ≤ t.screen.cols
    rw [hdrawn.saved, hdrawn.cols, hlength]
    exact hmargin)
  refine ⟨?_, hparser'.trans hground.symm⟩
  rw [hscreen', applyAll_append, applyAll_append]
  show (((t.apply .restore).applyAll ((if bs > 0 then [.back bs] else [])
    ++ (u.segment bs (max bs fwd)).map .print)).apply .restore).screen = u.screen
  rw [apply_restore_screen, hfrom.1, hfrom.2]
  have hcells : overwrite t.screen.cells u.screen.cursor.1 (u.screen.cursor.2 - bs)
      (u.segment bs (max bs fwd)) = u.screen.cells := by
    funext r c
    by_cases hin : r = u.screen.cursor.1 ∧ u.screen.cursor.2 - bs ≤ c ∧
        c < u.screen.cursor.2 - bs + max bs fwd
    · obtain ⟨rfl, hlow, hhigh⟩ := hin
      have hindex : c - (u.screen.cursor.2 - bs) < max bs fwd := by omega
      have hcol : u.screen.cursor.2 - bs + (c - (u.screen.cursor.2 - bs)) = c := by omega
      simp [overwrite, hlow, segment, hindex, hcol]
    · rw [overwrite_outside _ (by rwa [hlength])]
      exact hdrawn.outside r c hin
  show TermScreen.mk t.screen.rows t.screen.cols (overwrite t.screen.cells t.saved.1 (t.saved.2 - bs)
    (u.segment bs (max bs fwd))) t.saved = u.screen
  rw [hdrawn.saved, hcells, hdrawn.rows, hdrawn.cols]

/-! ## What is in the cells -/

def AllPrintable (t : Terminal) : Prop := ∀ r c, TermParser.Printable (t.screen.cells r c)

theorem printable_blank : TermParser.Printable ' ' := ⟨by decide, by decide⟩

theorem edit_printable (rows cols : Nat) (cursor : Nat × Nat) {g : Nat → Nat → Char} {op : TermOp}
    (hg : ∀ r c, TermParser.Printable (g r c)) (hop : ∀ c, op = .print c → TermParser.Printable c)
    (r c : Nat) : TermParser.Printable (TermScreen.edit rows cols cursor ' ' op id g r c) := by
  have hfeed : ∀ row r c, TermParser.Printable (TermScreen.feedCells rows ' ' row g r c) := by
    intro row r c
    unfold TermScreen.feedCells
    split
    · exact hg r c
    · show TermParser.Printable (if r + 1 < rows then g (r + 1) c else ' ')
      split
      · exact hg (r + 1) c
      · exact printable_blank
  have hput : ∀ (g' : Nat → Nat → Char) row col ch, (∀ r c, TermParser.Printable (g' r c)) →
      TermParser.Printable ch → ∀ r c, TermParser.Printable (TermScreen.put g' row col ch r c) := by
    intro g' row col ch hg' hch r c
    show TermParser.Printable (if r = row ∧ c = col then ch else g' r c)
    split
    · exact hch
    · exact hg' r c
  cases op with
  | print ch =>
      by_cases hcol : cursor.2 < cols
      · have hedit : TermScreen.edit rows cols cursor ' ' (.print ch) id g
            = TermScreen.put g cursor.1 cursor.2 ch := if_pos hcol
        rw [hedit]
        exact hput _ _ _ _ hg (hop ch rfl) r c
      · have hedit : TermScreen.edit rows cols cursor ' ' (.print ch) id g
            = TermScreen.put (TermScreen.feedCells rows ' ' cursor.1 g)
              (TermScreen.feedRow rows cursor.1) 0 ch := if_neg hcol
        rw [hedit]
        exact hput _ _ _ _ (hfeed _) (hop ch rfl) r c
  | lineFeed => exact hfeed _ _ _
  | eraseLine n =>
      have hcell : TermScreen.edit rows cols cursor ' ' (.eraseLine n) id g r c = ' ' ∨
          TermScreen.edit rows cols cursor ' ' (.eraseLine n) id g r c = g r c := ite_eq_or_eq _ _ _
      rcases hcell with hcell | hcell
      · rw [hcell]
        exact printable_blank
      · rw [hcell]
        exact hg r c
  | eraseDisplay n =>
      have hcell : TermScreen.edit rows cols cursor ' ' (.eraseDisplay n) id g r c = ' ' ∨
          TermScreen.edit rows cols cursor ' ' (.eraseDisplay n) id g r c = g r c :=
        ite_eq_or_eq _ _ _
      rcases hcell with hcell | hcell
      · rw [hcell]
        exact printable_blank
      · rw [hcell]
        exact hg r c
  | _ => exact hg r c

theorem stepGround_printable (b : UInt8) :
    ∀ c, .print c ∈ (TermParser.stepGround b).1 → TermParser.Printable c := by
  intro c h
  unfold TermParser.stepGround TermParser.controlOps at h
  dsimp only at h
  repeat' split at h
  all_goals simp only [List.mem_cons, List.not_mem_nil, or_false, reduceCtorEq,
    TermOp.print.injEq] at h
  subst h
  have hvalid : (b.toNat).isValidChar := .inl (by omega)
  have hnat : (Char.ofNat b.toNat).toNat = b.toNat := by
    unfold Char.ofNat
    rw [dif_pos hvalid]
    rfl
  unfold TermParser.Printable
  omega

/-- Nothing is printed. -/
def PrintsNothing (ops : List TermOp) : Prop := ∀ op ∈ ops, ∀ c, op ≠ .print c

theorem printsNothing_ite {p : Prop} [Decidable p] {ops ops' : List TermOp} (h : PrintsNothing ops)
    (h' : PrintsNothing ops') : PrintsNothing (if p then ops else ops') := by
  split
  · exact h
  · exact h'

theorem printsNothing_singleton {op : TermOp} (h : ∀ c, op ≠ .print c) : PrintsNothing [op] := by
  intro op' hop
  rw [List.mem_singleton.mp hop]
  exact h

theorem printsNothing_nil : PrintsNothing [] := fun _ h => absurd h List.not_mem_nil

theorem csiOps_printsNothing (params : Bytes) (final : UInt8) :
    PrintsNothing (TermParser.csiOps params final) := by
  unfold TermParser.csiOps
  dsimp only
  repeat' apply printsNothing_ite
  all_goals first
    | exact printsNothing_nil
    | exact printsNothing_singleton nofun

theorem step_printable (p : TermParser) (b : UInt8) :
    ∀ c, .print c ∈ (p.step b).1 → TermParser.Printable c := by
  have hcsi : ∀ params c, .print c ∉ TermParser.csiOps params b := fun params c h =>
    csiOps_printsNothing params b _ h c rfl
  intro c h
  cases p with
  | ground => exact stepGround_printable b c h
  | continued needed acc =>
      simp only [TermParser.step] at h
      split at h
      · split at h
        · dsimp only at h
          split at h
          · rename_i hlarge
            have hc := TermOp.print.inj (List.mem_singleton.mp h)
            rw [← hc] at hlarge
            exact ⟨by omega, by omega⟩
          · exact absurd h List.not_mem_nil
        · exact absurd h List.not_mem_nil
      · exact stepGround_printable b c h
  | csi params =>
      simp only [TermParser.step] at h
      repeat' split at h
      all_goals first
        | exact absurd h (hcsi params c)
        | exact absurd h List.not_mem_nil
  | _ =>
      simp only [TermParser.step] at h
      repeat' split at h
      all_goals simp at h

theorem ops_printable (p : TermParser) (bs : Bytes) :
    ∀ c, .print c ∈ (p.ops bs).1 → TermParser.Printable c := by
  induction bs generalizing p with
  | nil => exact fun _ h => absurd h List.not_mem_nil
  | cons b bs ih =>
      intro c h
      simp only [TermParser.ops] at h
      rcases List.mem_append.mp h with hnow | hlater
      · exact step_printable p b c hnow
      · exact ih _ c hlater

theorem AllPrintable.applyAll {t : Terminal} (h : t.AllPrintable) {ops : List TermOp}
    (hops : ∀ c, .print c ∈ ops → TermParser.Printable c) : (t.applyAll ops).AllPrintable := by
  induction ops generalizing t with
  | nil => exact h
  | cons op ops ih =>
      refine ih (t := t.apply op) ?_ fun c hc => hops c (List.mem_cons_of_mem op hc)
      have hop : ∀ c, op = .print c → TermParser.Printable c := fun c hc =>
        hops c (by rw [hc]; exact List.mem_cons_self)
      intro r c
      cases op with
      | save => exact h r c
      | restore => exact h r c
      | _ => exact edit_printable t.screen.rows t.screen.cols t.screen.cursor h hop r c

theorem AllPrintable.process {t : Terminal} (h : t.AllPrintable) (bs : Bytes) :
    (t.process bs).AllPrintable :=
  h.applyAll (ops_printable t.parser bs)

end Terminal

namespace TerminalFramebuffer

open Terminal TermParser

variable {K : Type} (encodeKey : K → Bool → Option (List Char))

/-! ## What is drawn and what is written back -/

/-- What erasing writes. -/
def writtenBack (o : PredictionOverlay) (bs fwd : Nat) : List Char :=
  let available := min o.backspacePredictions.length bs
  (if bs > 0 then (o.backspacePredictions.take available).flatMap BackspacePrediction.originalChar
      ++ List.replicate (bs - available) ' '
    else []) ++ List.replicate (fwd - bs) ' '

/-- What erasing would write is what the screen has there. -/
def Restores (fb : TerminalFramebuffer Terminal) (o : PredictionOverlay) : Prop :=
  writtenBack o fb.backspaceDisplayed fb.displayedCount
    = fb.vtParser.segment fb.backspaceDisplayed (max fb.backspaceDisplayed fb.displayedCount)

instance (fb : TerminalFramebuffer Terminal) (o : PredictionOverlay) : Decidable (fb.Restores o) :=
  inferInstanceAs (Decidable (_ = _))

def FitsShown (fb : TerminalFramebuffer Terminal) : Prop :=
  fb.vtParser.Fits fb.backspaceDisplayed fb.displayedCount

instance (fb : TerminalFramebuffer Terminal) : Decidable fb.FitsShown :=
  inferInstanceAs (Decidable (fb.vtParser.Fits fb.backspaceDisplayed fb.displayedCount))

theorem ops_append_ground {bs bs' : Bytes} {ops ops' : List TermOp}
    (h : ground.ops bs = (ops, .ground)) (h' : ground.ops bs' = (ops', .ground)) :
    ground.ops (bs ++ bs') = (ops ++ ops', .ground) := by
  rw [TermParser.ops_append, h]
  dsimp only
  rw [h']

theorem ops_back (bs : Nat) : ground.ops (if bs > 0 then cursorBack bs else [])
    = (if bs > 0 then [.back bs] else [], .ground) := by
  by_cases h : bs > 0
  · rw [if_pos h, if_pos h]
    exact ops_cursorBack h
  · rw [if_neg h, if_neg h]
    rfl

theorem ops_restoreCursor : ground.ops restoreCursor = ([.restore], .ground) := rfl

theorem ops_saveCursor : ground.ops saveCursor = ([.save], .ground) := rfl

theorem ops_sgr : ground.ops (csi [] 'm') = ([], .ground) := by decide

theorem appendErase_bytes (fb : TerminalFramebuffer Terminal) :
    fb.appendErase.1.bytes = restoreCursor ++ csi [] 'm'
      ++ (if fb.backspaceDisplayed > 0 then cursorBack fb.backspaceDisplayed else [])
      ++ utf8 (writtenBack fb.overlay fb.backspaceDisplayed fb.displayedCount) ++ restoreCursor := by
  have horiginals : ∀ bps : List BackspacePrediction,
      bps.flatMap (fun bp => utf8 bp.originalChar)
        = utf8 (bps.flatMap BackspacePrediction.originalChar) := by
    intro bps
    unfold utf8
    rw [List.flatMap_assoc]
  unfold appendErase writtenBack
  by_cases h : fb.backspaceDisplayed > 0
  · simp only [h, if_true, horiginals, utf8_append, utf8_blanks, List.append_assoc]
  · simp only [h, if_false, utf8_append, utf8_blanks, List.append_assoc]
    rfl

/-- Where what is written is what was there, erasing leaves nothing behind. -/
theorem alike_appendErase (fb : TerminalFramebuffer Terminal) {t : Terminal}
    (hprintable : fb.vtParser.AllPrintable) (hfits : fb.FitsShown)
    (hdrawn : Drawn t fb.vtParser fb.backspaceDisplayed fb.displayedCount)
    (hrestores : fb.Restores fb.overlay) : Alike (t.process fb.appendErase.1.bytes) fb.vtParser := by
  refine alike_of_erase hdrawn hfits ?_
  have htext : ∀ c ∈ fb.vtParser.segment fb.backspaceDisplayed
      (max fb.backspaceDisplayed fb.displayedCount), Printable c := by
    intro c hc
    obtain ⟨i, -, rfl⟩ := List.mem_map.mp hc
    exact hprintable _ _
  rw [appendErase_bytes]
  unfold Restores at hrestores
  rw [hrestores]
  have hops := ops_append_ground (ops_append_ground (ops_append_ground (ops_append_ground
    ops_restoreCursor ops_sgr) (ops_back fb.backspaceDisplayed)) (ops_utf8 htext)) ops_restoreCursor
  rw [hops]
  simp

/-- The characters that are drawn. -/
def drawnBytes (bs : Nat) (cells : List PredictedCell) : Bytes :=
  let fwd := cells.length
  let chars := cells.flatMap fun pred => utf8 [pred.ch]
  if bs > 0 ∧ fwd = 0 then cursorBack bs ++ blanks bs ++ cursorBack bs
  else if bs > 0 ∧ fwd > 0 then
    cursorBack bs ++ chars
      ++ (if fwd < bs then blanks (bs - fwd) ++ cursorBack (bs - fwd) else [])
  else chars

/-- A text from where the erased characters begin, and perhaps a way back. -/
theorem drawnBytes_ops (bs : Nat) {cells : List PredictedCell}
    (hchars : ∀ pred ∈ cells, Printable pred.ch) :
    ∃ (text : List Char) (tail : List TermOp), ground.ops (drawnBytes bs cells)
        = ((if bs > 0 then [.back bs] else []) ++ text.map .print ++ tail, .ground) ∧
      text.length = max bs cells.length ∧ (tail = [] ∨ ∃ k, tail = [.back k]) := by
  have htext : (cells.flatMap fun pred => utf8 [pred.ch]) = utf8 (cells.map PredictedCell.ch) := by
    simp [utf8, List.flatMap_map]
  have hprint : ground.ops (utf8 (cells.map PredictedCell.ch))
      = ((cells.map PredictedCell.ch).map .print, .ground) := by
    refine ops_utf8 fun c hc => ?_
    obtain ⟨pred, hpred, rfl⟩ := List.mem_map.mp hc
    exact hchars pred hpred
  have hblanks : ∀ n, ground.ops (blanks n) = ((List.replicate n ' ').map .print, .ground) := by
    intro n
    rw [← utf8_blanks]
    exact ops_utf8 fun c hc => by
      rw [List.eq_of_mem_replicate hc]
      exact printable_blank
  unfold drawnBytes
  simp only [htext]
  by_cases hbs : bs > 0
  · simp only [hbs, true_and, if_true]
    by_cases hfwd : cells.length = 0
    · refine ⟨List.replicate bs ' ', [.back bs], ?_, by simp [hfwd], .inr ⟨bs, rfl⟩⟩
      rw [if_pos hfwd]
      exact ops_append_ground (ops_append_ground (ops_cursorBack hbs) (hblanks bs))
        (ops_cursorBack hbs)
    · have hpos : cells.length > 0 := by omega
      rw [if_neg hfwd, if_pos hpos]
      by_cases hlt : cells.length < bs
      · -- what is left of the erased characters is blank, and the cursor goes back over it
        refine ⟨cells.map PredictedCell.ch ++ List.replicate (bs - cells.length) ' ',
          [.back (bs - cells.length)], ?_, ?_, .inr ⟨_, rfl⟩⟩
        · have hrest : bs - cells.length ≥ 1 := by omega
          rw [if_pos hlt, ops_append_ground (ops_append_ground (ops_cursorBack hbs) hprint)
            (ops_append_ground (hblanks (bs - cells.length)) (ops_cursorBack hrest))]
          simp
        · simp only [List.length_append, List.length_map, List.length_replicate]
          omega
      · refine ⟨cells.map PredictedCell.ch, [], ?_, ?_, .inl rfl⟩
        · rw [if_neg hlt, List.append_nil, List.append_nil]
          exact ops_append_ground (ops_cursorBack hbs) hprint
        · rw [List.length_map]
          omega
  · refine ⟨cells.map PredictedCell.ch, [], ?_, ?_, .inl rfl⟩
    · simp only [hbs, false_and, if_false, List.nil_append, List.append_nil]
      exact hprint
    · rw [List.length_map]
      omega

/-- Drawing stays where the predictions are. -/
theorem drawn_appendPredictions {fb : TerminalFramebuffer Terminal} {t : Terminal}
    (halike : Alike t fb.vtParser) (hchars : ∀ pred ∈ fb.overlay.cells, Printable pred.ch)
    (hfits : fb.appendPredictions.2.FitsShown) :
    Drawn (t.process fb.appendPredictions.1.bytes) fb.vtParser
      fb.appendPredictions.2.backspaceDisplayed fb.appendPredictions.2.displayedCount := by
  obtain ⟨text, tail, hops, hlength, htail⟩ :=
    drawnBytes_ops fb.overlay.backspacePredictions.length hchars
  have hunderline : ground.ops (if fb.overlay.shouldUnderline = true then csi ['4'] 'm' else [])
      = ([], .ground) := by
    split
    · decide
    · rfl
  have hnone : ground.ops (if fb.overlay.shouldUnderline = true then csi ['2', '4'] 'm' else [])
      = ([], .ground) := by
    split
    · decide
    · rfl
  have hbytes : fb.appendPredictions.1.bytes
      = saveCursor ++ (if fb.overlay.shouldUnderline = true then csi ['4'] 'm' else [])
        ++ drawnBytes fb.overlay.backspacePredictions.length fb.overlay.cells
        ++ (if fb.overlay.shouldUnderline = true then csi ['2', '4'] 'm' else []) := rfl
  have hall : ground.ops fb.appendPredictions.1.bytes
      = ([.save] ++ ((if fb.overlay.backspacePredictions.length > 0 then
          [.back fb.overlay.backspacePredictions.length] else []) ++ text.map .print) ++ tail,
          .ground) := by
    rw [hbytes, ops_append_ground (ops_append_ground (ops_append_ground ops_saveCursor hunderline)
      hops) hnone]
    simp
  exact drawn_of_ops halike hfits hall hlength htail

/-! ## Steps -/

/-- What the terminal shows for the framebuffer. -/
structure Tracks (fb : TerminalFramebuffer Terminal) (t : Terminal) : Prop where
  printable : fb.vtParser.AllPrintable
  chars : ∀ pred ∈ fb.overlay.cells, Printable pred.ch
  hidden : fb.isDisplaying = false → Alike t fb.vtParser
  shown : fb.isDisplaying = true → fb.FitsShown →
    Drawn t fb.vtParser fb.backspaceDisplayed fb.displayedCount

/-- Predictions that are displayed fit in the row; when they are erased, what is written back is what
was there; and the server restores no cursor in a chunk that it has not saved in it. -/
def Harmless (fb : TerminalFramebuffer Terminal) : TerminalEvent K → Prop
  | .key event now =>
    fb.isDisplaying = true → fb.FitsShown ∧
      ∀ encoded, encodeKey event false = some encoded →
        (fb.overlay.onInput vt100 encoded fb.vtParser now).epochCounter = fb.overlay.epochCounter →
        fb.Restores (fb.overlay.onInput vt100 encoded fb.vtParser now)
  | .output chunk _ =>
    (fb.isDisplaying = true → fb.FitsShown ∧ fb.Restores fb.overlay) ∧
      SavesFirst (fb.vtParser.parser.ops (fb.sanitizer.filter (chunkBytes chunk)).1).1

theorem printable_of_not_control {c : Char} (h : isControl c = false) : Printable c := by
  simp only [isControl, Bool.or_eq_false_iff, Bool.and_eq_false_iff, decide_eq_false_iff_not] at h
  exact ⟨by omega, by omega⟩

theorem Moves.chars {o o' : PredictionOverlay} (h : Moves o o')
    (ho : ∀ pred ∈ o.cells, Printable pred.ch) : ∀ pred ∈ o'.cells, Printable pred.ch := by
  intro pred hpred
  cases h with
  | same _ _ _ hcells _ =>
      rcases hcells pred hpred with hold | ⟨-, hnew⟩
      · exact ho pred hold
      · exact printable_of_not_control hnew
  | fresh _ _ _ hcells _ =>
      rw [hcells] at hpred
      exact absurd hpred List.not_mem_nil

theorem isIdle_of_not_idle {o : PredictionOverlay} (h : o.isIdle = false) :
    o.cells.length > 0 ∨ o.backspacePredictions.length > 0 := by
  simp only [isIdle, Bool.and_eq_false_iff, List.isEmpty_eq_false_iff] at h
  rcases h with h | h
  · exact .inl (List.length_pos_iff.mpr h)
  · exact .inr (List.length_pos_iff.mpr h)

/-- After nothing has been displayed, predictions are drawn or not. -/
theorem tracks_of_alike (fb : TerminalFramebuffer Terminal) {t : Terminal}
    (hprintable : fb.vtParser.AllPrintable) (hchars : ∀ pred ∈ fb.overlay.cells, Printable pred.ch)
    (hcounts : fb.displayedCount = 0 ∧ fb.backspaceDisplayed = 0) (halike : Alike t fb.vtParser) :
    Tracks (if fb.hasNew vt100 then fb.appendPredictions else (.none, fb)).2
      (t.process (if fb.hasNew vt100 then fb.appendPredictions else (.none, fb)).1.bytes) := by
  by_cases hnew : fb.hasNew vt100 = true
  · simp only [hnew, if_true]
    refine ⟨hprintable, hchars, fun hidden => ?_, fun _ hfits =>
      drawn_appendPredictions halike hchars hfits⟩
    exfalso
    simp only [hasNew, Bool.and_eq_true, Bool.not_eq_true'] at hnew
    have hpos := isIdle_of_not_idle hnew.2
    simp [isDisplaying, appendPredictions] at hidden
    simp [hidden] at hpos
  · simp only [hnew, Bool.false_eq_true, if_false]
    refine ⟨hprintable, hchars, fun _ => halike, fun hshown => ?_⟩
    simp [isDisplaying, hcounts] at hshown

theorem settle_chars {o : PredictionOverlay} (h : ∀ pred ∈ o.cells, Printable pred.ch)
    (screen : Terminal) (now : Nat) :
    ∀ pred ∈ (o.settle vt100 screen now).cells, Printable pred.ch := by
  intro pred hpred
  have hmem : pred ∈ (retainCells vt100 screen now o.cells o.rtt o.confirmedEpoch).1 := by
    unfold settle recover at hpred
    split at hpred <;> exact hpred
  exact h pred (retainCells_mem vt100 screen now o.cells o.rtt o.confirmedEpoch pred hmem)

theorem hasNew_of_idle {fb : TerminalFramebuffer Terminal} (h : fb.overlay.isIdle = true) :
    fb.hasNew vt100 = false := by
  simp [hasNew, h]

/-- What is displayed is erased if there is something new or no epoch has begun, and what is new is
drawn. -/
theorem redisplay_tracks (fb : TerminalFramebuffer Terminal) {t : Terminal} (isEpochBoundary : Bool)
    (h : Tracks fb t) (hfits : fb.isDisplaying = true → fb.FitsShown)
    (hrestores : fb.isDisplaying = true → (fb.hasNew vt100 || !isEpochBoundary) = true →
      fb.Restores fb.overlay) :
    Tracks (if fb.hasNew vt100 = true then
        (if (fb.isDisplaying && (fb.hasNew vt100 || !isEpochBoundary)) = true then fb.appendErase
          else (.none, fb)).2.appendPredictions
      else (.none, (if (fb.isDisplaying && (fb.hasNew vt100 || !isEpochBoundary)) = true then
        fb.appendErase else (.none, fb)).2)).2
      (t.process ((if (fb.isDisplaying && (fb.hasNew vt100 || !isEpochBoundary)) = true then
          fb.appendErase else (.none, fb)).1
        ++ (if fb.hasNew vt100 = true then
            (if (fb.isDisplaying && (fb.hasNew vt100 || !isEpochBoundary)) = true then fb.appendErase
              else (.none, fb)).2.appendPredictions
          else (.none, (if (fb.isDisplaying && (fb.hasNew vt100 || !isEpochBoundary)) = true then
            fb.appendErase else (.none, fb)).2)).1).bytes) := by
  rw [Display.append_bytes, process_append]
  by_cases hdisplaying : fb.isDisplaying = true
  · by_cases herase : (fb.hasNew vt100 || !isEpochBoundary) = true
    · have halike := alike_appendErase fb h.printable (hfits hdisplaying)
        (h.shown hdisplaying (hfits hdisplaying)) (hrestores hdisplaying herase)
      have htracks := tracks_of_alike fb.appendErase.2 h.printable h.chars ⟨rfl, rfl⟩ halike
      simp only [hdisplaying, herase, Bool.and_self, if_true]
      exact htracks
    · have hneither : fb.hasNew vt100 = false ∧ isEpochBoundary = true := by
        simpa using herase
      simp only [hdisplaying, hneither.1, hneither.2, Bool.not_true, Bool.or_false, Bool.and_false,
        Bool.false_eq_true, if_false]
      exact h
  · have hcounts : fb.displayedCount = 0 ∧ fb.backspaceDisplayed = 0 := by
      simpa [isDisplaying] using hdisplaying
    have htracks := tracks_of_alike fb h.printable h.chars hcounts
      (h.hidden (by simpa using hdisplaying))
    simp only [hdisplaying, Bool.false_and, Bool.false_eq_true, if_false]
    exact htracks

theorem onKeystroke_tracks {fb : TerminalFramebuffer Terminal} {t : Terminal} (h : Tracks fb t)
    {event : K} {encoded : List Char} (hencoded : encodeKey event false = some encoded) (now : Nat)
    (hharmless : Harmless encodeKey fb (.key event now)) :
    Tracks (fb.onKeystroke vt100 encodeKey event now).2
      (t.process (((fb.onKeystroke vt100 encodeKey event now).1.map Prod.snd).getD .none).bytes) := by
  have hmoves := moves_onInput vt100 fb.overlay encoded fb.vtParser now
  have hchars := Moves.chars hmoves h.chars
  -- a key that begins an epoch leaves nothing to be displayed
  have hsame : ∀ fb' : TerminalFramebuffer Terminal,
      fb'.overlay = fb.overlay.onInput vt100 encoded fb.vtParser now → fb'.hasNew vt100 = true →
      fb'.overlay.epochCounter = fb.overlay.epochCounter := by
    intro fb' hoverlay hnew
    rw [← hoverlay] at hmoves
    cases hmoves with
    | same _ hcounter => exact hcounter
    | fresh _ _ _ hcells hbackspaces =>
        rw [hasNew_of_idle (by simp [isIdle, hcells, hbackspaces])] at hnew
        cases hnew
  have hkey : encodeKey event (vt100.applicationCursor fb.vtParser) = some encoded := hencoded
  unfold onKeystroke
  simp only [hkey, Option.map_some, Option.getD_some]
  refine redisplay_tracks { fb with overlay := fb.overlay.onInput vt100 encoded fb.vtParser now } _
    ⟨h.printable, hchars, h.hidden, h.shown⟩ (fun hdisplaying => (hharmless hdisplaying).1) ?_
  intro hdisplaying herase
  refine (hharmless hdisplaying).2 encoded hencoded ?_
  rcases Bool.or_eq_true_iff.mp herase with hnew | hold
  · exact hsame _ rfl hnew
  · simpa using hold

theorem step_tracks {fb : TerminalFramebuffer Terminal} {t : Terminal} (h : Tracks fb t)
    {e : TerminalEvent K} (hharmless : Harmless encodeKey fb e) :
    Tracks (fb.step vt100 encodeKey e).2 (t.process (fb.step vt100 encodeKey e).1.bytes) := by
  cases e with
  | key event now =>
      rw [step_key, step_key_display]
      cases hencoded : encodeKey event false with
      | none =>
          rw [onKeystroke_none vt100 encodeKey fb hencoded now]
          exact h
      | some encoded => exact onKeystroke_tracks encodeKey h hencoded now hharmless
  | output chunk now =>
      obtain ⟨hshown, hsaves⟩ := hharmless
      have hprocess : ∀ (fb' : TerminalFramebuffer Terminal) (t' : Terminal),
          fb'.vtParser = fb.vtParser → fb'.overlay = fb.overlay → fb'.sanitizer = fb.sanitizer →
          (fb'.displayedCount = 0 ∧ fb'.backspaceDisplayed = 0) → Alike t' fb.vtParser →
          Tracks (if (fb'.processServerOutput vt100 (chunkBytes chunk) now).2.hasNew vt100 then
              (fb'.processServerOutput vt100 (chunkBytes chunk) now).2.appendPredictions
            else (.none, (fb'.processServerOutput vt100 (chunkBytes chunk) now).2)).2
            ((t'.process (fb.sanitizer.filter (chunkBytes chunk)).1).process
              (if (fb'.processServerOutput vt100 (chunkBytes chunk) now).2.hasNew vt100 then
                (fb'.processServerOutput vt100 (chunkBytes chunk) now).2.appendPredictions
              else (.none, (fb'.processServerOutput vt100 (chunkBytes chunk) now).2)).1.bytes) := by
        intro fb' t' hvt hoverlay hsanitizer hcounts halike
        have hscreen : (fb'.processServerOutput vt100 (chunkBytes chunk) now).2.vtParser
            = fb.vtParser.process (fb.sanitizer.filter (chunkBytes chunk)).1 := by
          rw [← hvt, ← hsanitizer]
          rfl
        refine tracks_of_alike _ ?_ ?_ hcounts ?_
        · rw [hscreen]
          exact h.printable.process _
        · intro pred hpred
          have hpred : pred ∈ (fb'.overlay.settle vt100 (fb'.screenAfter vt100 (chunkBytes chunk))
              now).cells := hpred
          rw [hoverlay] at hpred
          exact settle_chars h.chars _ now pred hpred
        · rw [hscreen]
          exact halike.process hsaves
      unfold step renderServerOutput
      by_cases hdisplaying : fb.isDisplaying = true
      · obtain ⟨hfits, hrestores⟩ := hshown hdisplaying
        have halike := alike_appendErase fb h.printable hfits (h.shown hdisplaying hfits) hrestores
        have htracks := hprocess fb.appendErase.2 _ rfl rfl rfl ⟨rfl, rfl⟩ halike
        simp only [hdisplaying, if_true]
        rw [Display.append_bytes, Display.append_bytes, process_append, process_append]
        exact htracks
      · have htracks := hprocess fb t rfl rfl rfl (by simpa [isDisplaying] using hdisplaying)
          (h.hidden (by simpa using hdisplaying))
        simp only [hdisplaying, Bool.false_eq_true, if_false]
        rw [Display.append_bytes, Display.append_bytes, process_append, process_append]
        exact htracks

/-! ## Runs -/

/-- The terminal that gets everything that is displayed. -/
def shownAfter (fb : TerminalFramebuffer Terminal) (t : Terminal) :
    List (TerminalEvent K) → Terminal
  | [] => t
  | e :: es =>
    shownAfter (fb.step vt100 encodeKey e).2 (t.process (fb.step vt100 encodeKey e).1.bytes) es

/-- What the server has written, sanitized. -/
def sanitizedOutput (fb : TerminalFramebuffer Terminal) : TerminalEvent K → Bytes
  | .key _ _ => []
  | .output chunk _ => (fb.sanitizer.filter (chunkBytes chunk)).1

/-- The terminal that gets the server's output only. -/
def plainAfter (fb : TerminalFramebuffer Terminal) (t : Terminal) :
    List (TerminalEvent K) → Terminal
  | [] => t
  | e :: es => plainAfter (fb.step vt100 encodeKey e).2 (t.process (fb.sanitizedOutput e)) es

/-- Every step of the run is harmless. -/
def HarmlessRun (fb : TerminalFramebuffer Terminal) : List (TerminalEvent K) → Prop
  | [] => True
  | e :: es => Harmless encodeKey fb e ∧ HarmlessRun (fb.step vt100 encodeKey e).2 es

theorem after_tracks {fb : TerminalFramebuffer Terminal} {t : Terminal} (h : Tracks fb t)
    {es : List (TerminalEvent K)} (hrun : HarmlessRun encodeKey fb es) :
    Tracks (fb.after vt100 encodeKey es) (shownAfter encodeKey fb t es) := by
  induction es generalizing fb t with
  | nil => exact h
  | cons e es ih => exact ih (step_tracks encodeKey h hrun.1) hrun.2

/-- The framebuffer's own screen is the plain terminal. -/
theorem step_vtParser (fb : TerminalFramebuffer Terminal) (e : TerminalEvent K) :
    (fb.step vt100 encodeKey e).2.vtParser = fb.vtParser.process (fb.sanitizedOutput e) := by
  cases e with
  | key event now =>
      rw [step_key]
      show _ = fb.vtParser
      cases hencoded : encodeKey event false with
      | none => rw [onKeystroke_none vt100 encodeKey fb hencoded now]
      | some encoded =>
          have hkey : encodeKey event (vt100.applicationCursor fb.vtParser) = some encoded := hencoded
          unfold onKeystroke
          simp only [hkey]
          split <;> split <;> rfl
  | output chunk now =>
      unfold step renderServerOutput
      by_cases hdisplaying : fb.isDisplaying = true
      · simp only [hdisplaying, if_true]
        split <;> rfl
      · simp only [hdisplaying, Bool.false_eq_true, if_false]
        split <;> rfl

theorem after_vtParser (fb : TerminalFramebuffer Terminal) (es : List (TerminalEvent K)) :
    (fb.after vt100 encodeKey es).vtParser = plainAfter encodeKey fb fb.vtParser es := by
  induction es generalizing fb with
  | nil => rfl
  | cons e es ih =>
      show ((fb.step vt100 encodeKey e).2.after vt100 encodeKey es).vtParser = _
      rw [ih, step_vtParser]
      rfl

def sent (s : String) (now : Nat) : TerminalEvent (List Char) :=
  .output [⟨none, s.toList.map ascii⟩] (millis now)

def typed (c : Char) (now : Nat) : TerminalEvent (List Char) := .key [c] (millis now)

/-- A command that is typed faster than it is echoed. -/
def echoed : List (TerminalEvent (List Char)) :=
  [sent "$ " 0, typed 'l' 100, typed 's' 150, sent "l" 200, sent "s" 250]

/-- No prediction is displayed, and the first cell differs. -/
def Differs (es : List (TerminalEvent (List Char))) : Prop :=
  ((new (Terminal.new 24 80) .on).after vt100 asTyped es).displayedCount = 0 ∧
    ((new (Terminal.new 24 80) .on).after vt100 asTyped es).backspaceDisplayed = 0 ∧
    (shownAfter asTyped (new (Terminal.new 24 80) .on) (Terminal.new 24 80) es).screen.cells 0 0
      ≠ (plainAfter asTyped (new (Terminal.new 24 80) .on) (Terminal.new 24 80) es).screen.cells 0 0

/-- Two characters are erased that the server does not erase: they come back in reverse order. -/
def erasedTwice : List (TerminalEvent (List Char)) :=
  [typed 'a' 0, sent "a" 100, typed 'b' 200, sent "b" 300, typed (Char.ofNat 0x7f) 400,
    typed (Char.ofNat 0x7f) 500, sent "\u0007" 3000]

/-- A character is typed over text: a blank comes back. -/
def typedOver : List (TerminalEvent (List Char)) := [sent "ab\r" 0, typed 'x' 100, sent "\u0007" 3000]

/-- The server goes back to where it was before. -/
def restoredLater : List (TerminalEvent (List Char)) :=
  [.output [⟨none, saveCursor ++ "abc".toList.map ascii⟩] 0, typed 'x' 100,
    .output [⟨none, restoreCursor ++ "Z".toList.map ascii⟩] (millis 3000)]

end TerminalFramebuffer

end Distant
