import Distant.Cli.Terminal

/-!
# Whether predictions reveal what is typed

After a key that begins an epoch nothing is predicted on the terminal until the epoch is confirmed.
An epoch is confirmed by what the screen has at the place of a prediction, wherever that came from:
`concealed_of_run` says that a password stays hidden as long as this does not happen, and
`not_concealed` is a run in which it does.
-/

namespace Distant

namespace PredictionOverlay

variable {S : Type} (vt : Vt100 S)

/-! ## Epochs -/

/-- No epoch is confirmed before it begins. -/
structure Sane (o : PredictionOverlay) : Prop where
  confirmed_le : o.confirmedEpoch ≤ o.epochCounter
  cells_le : ∀ pred ∈ o.cells, pred.epoch ≤ o.epochCounter
  backspaces_le : ∀ bp ∈ o.backspacePredictions, bp.epoch ≤ o.epochCounter

/-- The current epoch is not confirmed. -/
def Hidden (o : PredictionOverlay) : Prop := o.confirmedEpoch < o.epochCounter

/-- What a key does to the epochs: nothing, or it begins a new one. -/
inductive Moves (o : PredictionOverlay) : PredictionOverlay → Prop
  | same {o' : PredictionOverlay} : o'.mode = o.mode → o'.epochCounter = o.epochCounter →
      o'.confirmedEpoch = o.confirmedEpoch →
      (∀ pred ∈ o'.cells, pred ∈ o.cells ∨
        (pred.epoch = o.epochCounter ∧ isControl pred.ch = false)) →
      (∀ bp ∈ o'.backspacePredictions, bp ∈ o.backspacePredictions ∨ bp.epoch = o.epochCounter) →
      Moves o o'
  | fresh {o' : PredictionOverlay} : o'.mode = o.mode → o'.epochCounter = o.epochCounter + 1 →
      (o'.confirmedEpoch = o.confirmedEpoch ∨ o'.confirmedEpoch = o.epochCounter) →
      o'.cells = [] → o'.backspacePredictions = [] → Moves o o'

theorem Moves.mode {o o' : PredictionOverlay} (h : Moves o o') : o'.mode = o.mode := by
  cases h with
  | same hmode => exact hmode
  | fresh hmode => exact hmode

theorem Moves.hidden {o o' : PredictionOverlay} (h : Moves o o') (ho : o.Hidden) : o'.Hidden := by
  unfold Hidden at ho ⊢
  cases h with
  | same _ hcounter hconfirmed => omega
  | fresh _ hcounter hconfirmed => omega

theorem Moves.sane {o o' : PredictionOverlay} (h : Moves o o') (ho : o.Sane) : o'.Sane := by
  obtain ⟨hle, hcells, hbackspaces⟩ := ho
  cases h with
  | same _ hcounter hconfirmed hcells' hbackspaces' =>
      constructor
      · omega
      · intro pred hpred
        rcases hcells' pred hpred with hold | ⟨hnew, -⟩
        · exact hcounter ▸ hcells pred hold
        · omega
      · intro bp hbp
        rcases hbackspaces' bp hbp with hold | hnew
        · exact hcounter ▸ hbackspaces bp hold
        · omega
  | fresh _ hcounter hconfirmed hcells' hbackspaces' =>
      constructor
      · omega
      · simp [hcells']
      · simp [hbackspaces']

theorem moves_newEpoch (o : PredictionOverlay) : Moves o o.newEpoch := by
  refine .fresh rfl rfl ?_ rfl rfl
  unfold newEpoch
  by_cases hidle : o.isIdle = true
  · simp [hidle]
  · simp [hidle]

theorem moves_addPrediction (o : PredictionOverlay) {ch : Char} (hch : isControl ch = false)
    (screen : S) (now : Nat) : Moves o (addPrediction vt o ch screen now) := by
  refine .same rfl rfl rfl ?_ fun bp hbp => .inl hbp
  intro pred hpred
  simp only [addPrediction, List.mem_append, List.mem_singleton] at hpred
  rcases hpred with hold | rfl
  · exact .inl hold
  · exact .inr ⟨rfl, hch⟩

theorem moves_backspace (o : PredictionOverlay) (screen : S) (now : Nat) :
    Moves o (backspace vt o screen now) := by
  unfold backspace
  split
  · exact .same rfl rfl rfl (fun pred hpred => .inl (List.dropLast_subset _ hpred))
      fun bp hbp => .inl hbp
  · dsimp only
    repeat' split
    all_goals refine .same rfl rfl rfl (fun pred hpred => .inl hpred) ?_
    all_goals intro bp hbp
    -- one more erasure, or none
    all_goals first
      | exact .inl hbp
      | rcases List.mem_append.mp hbp with hold | hnew
        · exact .inl hold
        · rw [List.mem_singleton.mp hnew]
          exact .inr rfl

theorem Moves.refl (o : PredictionOverlay) : Moves o o :=
  .same rfl rfl rfl (fun _ h => .inl h) fun _ h => .inl h

theorem moves_onSequence (o : PredictionOverlay) (encoded : List Char) (screen : S) (now : Nat) :
    Moves o (onSequence vt o encoded screen now) := by
  unfold onSequence
  split
  · split
    · exact moves_newEpoch o
    · split
      · exact .refl o
      · rename_i hcontrol
        exact moves_addPrediction vt o (by simpa using hcontrol) screen now
  · exact .refl o

theorem isControl_of_isPrintableAscii {c : Char} (h : isPrintableAscii c = true) :
    isControl c = false := by
  simp only [isPrintableAscii, Bool.and_eq_true, decide_eq_true_eq] at h
  simp only [isControl, Bool.or_eq_false_iff, Bool.and_eq_false_iff, decide_eq_false_iff_not]
  omega

theorem moves_classify (o : PredictionOverlay) (encoded : List Char) (screen : S) (now : Nat) :
    Moves o (classify vt o encoded screen now) := by
  unfold classify
  split
  · split
    · exact moves_newEpoch o
    · split
      · exact moves_backspace vt o screen now
      · split
        · rename_i hprintable
          exact moves_addPrediction vt o (isControl_of_isPrintableAscii hprintable) screen now
        · exact moves_onSequence vt o _ screen now
  · exact moves_onSequence vt o _ screen now

theorem moves_onInput (o : PredictionOverlay) (encoded : List Char) (screen : S) (now : Nat) :
    Moves o (onInput vt o encoded screen now) := by
  unfold onInput
  split
  · exact .refl o
  · dsimp only
    split
    · exact .same rfl rfl rfl (fun _ h => absurd h List.not_mem_nil)
        fun _ h => absurd h List.not_mem_nil
    · have h := moves_classify vt
        { o with inputByteCount := (o.burst encoded now).2, lastInputTime := some now } encoded
        screen now
      cases h with
      | same hmode hcounter hconfirmed hcells hbackspaces =>
          exact .same hmode hcounter hconfirmed hcells hbackspaces
      | fresh hmode hcounter hconfirmed hcells hbackspaces =>
          exact .fresh hmode hcounter hconfirmed hcells hbackspaces

/-! ## Confirmation -/

/-- The screen has nothing that confirms a pending prediction. -/
structure Unmatched (o : PredictionOverlay) (screen : S) (now : Nat) : Prop where
  cells : ∀ pred ∈ o.cells, expired pred.sentAt now = false → shows vt screen pred = false
  backspaces : ∀ bp ∈ o.backspacePredictions, expired bp.sentAt now = false →
    movedBack vt screen bp = false

theorem retainCells_cons (screen : S) (now : Nat) (pred : PredictedCell)
    (preds : List PredictedCell) (rtt : RttEstimator) (confirmed : Nat) :
    retainCells vt screen now (pred :: preds) rtt confirmed =
      if expired pred.sentAt now then retainCells vt screen now preds rtt confirmed
      else if shows vt screen pred then
        retainCells vt screen now preds (rtt.update (now - pred.sentAt)) (max confirmed pred.epoch)
      else if passed vt screen pred then retainCells vt screen now preds rtt confirmed
      else (pred :: (retainCells vt screen now preds rtt confirmed).1,
        (retainCells vt screen now preds rtt confirmed).2) := rfl

theorem retainBackspaces_cons (screen : S) (now : Nat) (bp : BackspacePrediction)
    (bps : List BackspacePrediction) (rtt : RttEstimator) (confirmed : Nat) :
    retainBackspaces vt screen now (bp :: bps) rtt confirmed =
      if expired bp.sentAt now then retainBackspaces vt screen now bps rtt confirmed
      else if movedBack vt screen bp then
        retainBackspaces vt screen now bps (rtt.update (now - bp.sentAt)) (max confirmed bp.epoch)
      else (bp :: (retainBackspaces vt screen now bps rtt confirmed).1,
        (retainBackspaces vt screen now bps rtt confirmed).2) := rfl

theorem retainCells_mem (screen : S) (now : Nat) (preds : List PredictedCell) (rtt : RttEstimator)
    (confirmed : Nat) :
    ∀ pred ∈ (retainCells vt screen now preds rtt confirmed).1, pred ∈ preds := by
  induction preds generalizing rtt confirmed with
  | nil => exact fun _ h => h
  | cons pred preds ih =>
      intro p hp
      rw [retainCells_cons] at hp
      split at hp
      · exact List.mem_cons_of_mem _ (ih _ _ p hp)
      · split at hp
        · exact List.mem_cons_of_mem _ (ih _ _ p hp)
        · split at hp
          · exact List.mem_cons_of_mem _ (ih _ _ p hp)
          · rcases List.mem_cons.mp hp with rfl | hp
            · exact List.mem_cons_self
            · exact List.mem_cons_of_mem _ (ih _ _ p hp)

theorem retainCells_le (screen : S) (now : Nat) (preds : List PredictedCell) (rtt : RttEstimator)
    (confirmed bound : Nat) (hle : ∀ pred ∈ preds, pred.epoch ≤ bound)
    (hconfirmed : confirmed ≤ bound) :
    (retainCells vt screen now preds rtt confirmed).2.2 ≤ bound := by
  induction preds generalizing rtt confirmed with
  | nil => exact hconfirmed
  | cons pred preds ih =>
      have hrest := fun p hp => hle p (List.mem_cons_of_mem pred hp)
      rw [retainCells_cons]
      split
      · exact ih _ _ hrest hconfirmed
      · split
        · exact ih _ _ hrest (Nat.max_le.mpr ⟨hconfirmed, hle pred List.mem_cons_self⟩)
        · split
          · exact ih _ _ hrest hconfirmed
          · exact ih rtt confirmed hrest hconfirmed

theorem retainBackspaces_mem (screen : S) (now : Nat) (bps : List BackspacePrediction)
    (rtt : RttEstimator) (confirmed : Nat) :
    ∀ bp ∈ (retainBackspaces vt screen now bps rtt confirmed).1, bp ∈ bps := by
  induction bps generalizing rtt confirmed with
  | nil => exact fun _ h => h
  | cons bp bps ih =>
      intro p hp
      rw [retainBackspaces_cons] at hp
      split at hp
      · exact List.mem_cons_of_mem _ (ih _ _ p hp)
      · split at hp
        · exact List.mem_cons_of_mem _ (ih _ _ p hp)
        · rcases List.mem_cons.mp hp with rfl | hp
          · exact List.mem_cons_self
          · exact List.mem_cons_of_mem _ (ih _ _ p hp)

theorem retainBackspaces_le (screen : S) (now : Nat) (bps : List BackspacePrediction)
    (rtt : RttEstimator) (confirmed bound : Nat) (hle : ∀ bp ∈ bps, bp.epoch ≤ bound)
    (hconfirmed : confirmed ≤ bound) :
    (retainBackspaces vt screen now bps rtt confirmed).2.2 ≤ bound := by
  induction bps generalizing rtt confirmed with
  | nil => exact hconfirmed
  | cons bp bps ih =>
      have hrest := fun p hp => hle p (List.mem_cons_of_mem bp hp)
      rw [retainBackspaces_cons]
      split
      · exact ih _ _ hrest hconfirmed
      · split
        · exact ih _ _ hrest (Nat.max_le.mpr ⟨hconfirmed, hle bp List.mem_cons_self⟩)
        · exact ih rtt confirmed hrest hconfirmed

theorem retainCells_unmatched (screen : S) (now : Nat) (preds : List PredictedCell)
    (rtt : RttEstimator) (confirmed : Nat)
    (h : ∀ pred ∈ preds, expired pred.sentAt now = false → shows vt screen pred = false) :
    (retainCells vt screen now preds rtt confirmed).2.2 = confirmed := by
  induction preds with
  | nil => rfl
  | cons pred preds ih =>
      have hrest := ih fun p hp => h p (List.mem_cons_of_mem pred hp)
      rw [retainCells_cons]
      by_cases hexpired : expired pred.sentAt now = true
      · simp only [hexpired, if_true, hrest]
      · have hshows := h pred (by simp) (by simpa using hexpired)
        simp only [hexpired, hshows, Bool.false_eq_true, if_false]
        split
        · exact hrest
        · exact hrest

theorem retainBackspaces_unmatched (screen : S) (now : Nat) (bps : List BackspacePrediction)
    (rtt : RttEstimator) (confirmed : Nat)
    (h : ∀ bp ∈ bps, expired bp.sentAt now = false → movedBack vt screen bp = false) :
    (retainBackspaces vt screen now bps rtt confirmed).2.2 = confirmed := by
  induction bps with
  | nil => rfl
  | cons bp bps ih =>
      have hrest := ih fun p hp => h p (List.mem_cons_of_mem bp hp)
      rw [retainBackspaces_cons]
      by_cases hexpired : expired bp.sentAt now = true
      · simp only [hexpired, if_true, hrest]
      · have hback := h bp (by simp) (by simpa using hexpired)
        simp only [hexpired, hback, Bool.false_eq_true, if_false, hrest]

/-- What becomes of the overlay when the server has written something. -/
def settle (o : PredictionOverlay) (screen : S) (now : Nat) : PredictionOverlay :=
  ((o.confirmPredictions vt screen now).confirmBackspacePredictions vt screen now).recover

theorem recover_sane {o : PredictionOverlay} (h : o.Sane) : o.recover.Sane := by
  unfold recover
  split
  · exact ⟨Nat.sub_le _ _, h.cells_le, h.backspaces_le⟩
  · exact h

theorem recover_hidden {o : PredictionOverlay} (h : o.Hidden) : o.recover.Hidden := by
  unfold recover Hidden at *
  split
  · dsimp only
    omega
  · exact h

theorem settle_sane {o : PredictionOverlay} (h : o.Sane) (screen : S) (now : Nat) :
    (o.settle vt screen now).Sane := by
  have hfirst : (o.confirmPredictions vt screen now).Sane :=
    ⟨retainCells_le vt screen now o.cells o.rtt o.confirmedEpoch o.epochCounter h.cells_le
        h.confirmed_le,
      fun pred hpred => h.cells_le pred
        (retainCells_mem vt screen now o.cells o.rtt o.confirmedEpoch pred hpred),
      h.backspaces_le⟩
  have hle := retainBackspaces_le vt screen now
    (o.confirmPredictions vt screen now).backspacePredictions
    (o.confirmPredictions vt screen now).rtt (o.confirmPredictions vt screen now).confirmedEpoch
    (o.confirmPredictions vt screen now).epochCounter hfirst.backspaces_le hfirst.confirmed_le
  refine recover_sane ⟨hle, hfirst.cells_le, fun bp hbp => ?_⟩
  exact hfirst.backspaces_le bp (retainBackspaces_mem vt screen now
    (o.confirmPredictions vt screen now).backspacePredictions
    (o.confirmPredictions vt screen now).rtt
      (o.confirmPredictions vt screen now).confirmedEpoch bp hbp)

theorem settle_hidden {o : PredictionOverlay} (h : o.Hidden) {screen : S} {now : Nat}
    (hunmatched : Unmatched vt o screen now) : (o.settle vt screen now).Hidden := by
  have hcells := retainCells_unmatched vt screen now o.cells o.rtt o.confirmedEpoch hunmatched.cells
  have hbackspaces := retainBackspaces_unmatched vt screen now o.backspacePredictions
    (o.confirmPredictions vt screen now).rtt (o.confirmPredictions vt screen now).confirmedEpoch
    hunmatched.backspaces
  refine recover_hidden ?_
  show (retainBackspaces vt screen now o.backspacePredictions
    (o.confirmPredictions vt screen now).rtt (o.confirmPredictions vt screen now).confirmedEpoch).2.2
      < o.epochCounter
  rw [hbackspaces]
  show (retainCells vt screen now o.cells o.rtt o.confirmedEpoch).2.2 < o.epochCounter
  rw [hcells]
  exact h

end PredictionOverlay

namespace TerminalFramebuffer

open PredictionOverlay

variable {S K : Type} (vt : Vt100 S) (encodeKey : K → Bool → Option (List Char))

/-! ## Runs -/

/-- A mode with the epoch gate, in which nothing is displayed of an epoch that is not confirmed. -/
def Gated (mode : PredictMode) : Prop := mode = .on ∨ mode = .adaptive

theorem hasNew_of_hidden (fb : TerminalFramebuffer S) (hmode : Gated fb.overlay.mode)
    (h : fb.overlay.Hidden) : fb.hasNew vt = false := by
  have hgate : fb.overlay.epochConfirmed = false := by
    unfold Hidden at h
    rcases hmode with hmode | hmode <;> simp [epochConfirmed, hmode, h]
  simp [hasNew, hgate]

/-- The screen and the sanitizer after a chunk. -/
def screenAfter (fb : TerminalFramebuffer S) (bytes : Bytes) : S :=
  vt.process fb.vtParser (fb.sanitizer.filter bytes).1

@[simp] theorem appendErase_overlay (fb : TerminalFramebuffer S) :
    fb.appendErase.2.overlay = fb.overlay := rfl

@[simp] theorem appendErase_predictions (fb : TerminalFramebuffer S) :
    fb.appendErase.1.predictions = [] := rfl

@[simp] theorem appendPredictions_overlay (fb : TerminalFramebuffer S) :
    fb.appendPredictions.2.overlay = fb.overlay := rfl

/-- The overlay after a step does not depend on what is displayed. -/
theorem renderServerOutput_overlay (fb : TerminalFramebuffer S) (bytes : Bytes) (now : Nat) :
    (fb.renderServerOutput vt bytes now).2.overlay
      = fb.overlay.settle vt (fb.screenAfter vt bytes) now := by
  unfold renderServerOutput
  by_cases hdisplaying : fb.isDisplaying = true
  · simp only [hdisplaying, if_true]
    split <;> rfl
  · simp only [hdisplaying, Bool.false_eq_true, if_false]
    split <;> rfl

theorem onKeystroke_overlay (fb : TerminalFramebuffer S) {event : K} {encoded : List Char}
    (h : encodeKey event (vt.applicationCursor fb.vtParser) = some encoded) (now : Nat) :
    (fb.onKeystroke vt encodeKey event now).2.overlay
      = fb.overlay.onInput vt encoded fb.vtParser now := by
  unfold onKeystroke
  simp only [h]
  split <;> split <;> rfl

theorem onKeystroke_none (fb : TerminalFramebuffer S) {event : K}
    (h : encodeKey event (vt.applicationCursor fb.vtParser) = none) (now : Nat) :
    fb.onKeystroke vt encodeKey event now = (none, fb) := by
  unfold onKeystroke
  simp only [h]

theorem settle_mode (o : PredictionOverlay) (screen : S) (now : Nat) :
    (o.settle vt screen now).mode = o.mode := by
  unfold settle recover
  split <;> rfl

theorem step_key (fb : TerminalFramebuffer S) (event : K) (now : Nat) :
    (fb.step vt encodeKey (.key event now)).2 = (fb.onKeystroke vt encodeKey event now).2 := by
  unfold step
  cases h : fb.onKeystroke vt encodeKey event now with
  | mk result fb' =>
      cases result with
      | none => simp only [h]
      | some sent => simp only [h]

theorem step_key_display (fb : TerminalFramebuffer S) (event : K) (now : Nat) :
    (fb.step vt encodeKey (.key event now)).1
      = ((fb.onKeystroke vt encodeKey event now).1.map Prod.snd).getD .none := by
  unfold step
  cases h : fb.onKeystroke vt encodeKey event now with
  | mk result fb' =>
      cases result with
      | none => simp only [h, Option.map_none, Option.getD_none]
      | some sent => simp only [h, Option.map_some, Option.getD_some]

/-- What a step does to the overlay. -/
theorem step_overlay (fb : TerminalFramebuffer S) (e : TerminalEvent K) :
    Moves fb.overlay (fb.step vt encodeKey e).2.overlay ∨
      ∃ chunk now, e = .output chunk now ∧ (fb.step vt encodeKey e).2.overlay
        = fb.overlay.settle vt (fb.screenAfter vt (chunkBytes chunk)) now := by
  cases e with
  | key event now =>
      refine .inl ?_
      rw [step_key]
      cases hencoded : encodeKey event (vt.applicationCursor fb.vtParser) with
      | none =>
          rw [onKeystroke_none vt encodeKey fb hencoded]
          exact .refl _
      | some encoded =>
          rw [onKeystroke_overlay vt encodeKey fb hencoded now]
          exact moves_onInput vt fb.overlay encoded fb.vtParser now
  | output chunk now =>
      exact .inr ⟨chunk, now, rfl, renderServerOutput_overlay vt fb (chunkBytes chunk) now⟩

theorem step_mode (fb : TerminalFramebuffer S) (e : TerminalEvent K) :
    (fb.step vt encodeKey e).2.overlay.mode = fb.overlay.mode := by
  rcases step_overlay vt encodeKey fb e with hmoves | ⟨chunk, now, -, hsettled⟩
  · exact hmoves.mode
  · rw [hsettled]
    exact settle_mode vt fb.overlay _ now

theorem step_sane {fb : TerminalFramebuffer S} (h : fb.overlay.Sane) (e : TerminalEvent K) :
    (fb.step vt encodeKey e).2.overlay.Sane := by
  rcases step_overlay vt encodeKey fb e with hmoves | ⟨chunk, now, -, hsettled⟩
  · exact hmoves.sane h
  · rw [hsettled]
    exact settle_sane vt h _ now

theorem after_mode (fb : TerminalFramebuffer S) (es : List (TerminalEvent K)) :
    (fb.after vt encodeKey es).overlay.mode = fb.overlay.mode := by
  induction es generalizing fb with
  | nil => rfl
  | cons e es ih => exact (ih _).trans (step_mode vt encodeKey fb e)

theorem after_sane (fb : TerminalFramebuffer S) (h : fb.overlay.Sane) (es : List (TerminalEvent K)) :
    (fb.after vt encodeKey es).overlay.Sane := by
  induction es generalizing fb with
  | nil => exact h
  | cons e es ih => exact ih _ (step_sane vt encodeKey h e)

/-- No chunk that arrives in the run confirms a prediction that is pending. -/
def Unconfirming (fb : TerminalFramebuffer S) : List (TerminalEvent K) → Prop
  | [] => True
  | e :: es =>
    (∀ chunk now, e = .output chunk now →
      Unmatched vt fb.overlay (fb.screenAfter vt (chunkBytes chunk)) now) ∧
      Unconfirming (fb.step vt encodeKey e).2 es

theorem step_hidden {fb : TerminalFramebuffer S} (h : fb.overlay.Hidden) {e : TerminalEvent K}
    (hunmatched : ∀ chunk now, e = .output chunk now →
      Unmatched vt fb.overlay (fb.screenAfter vt (chunkBytes chunk)) now) :
    (fb.step vt encodeKey e).2.overlay.Hidden := by
  rcases step_overlay vt encodeKey fb e with hmoves | ⟨chunk, now, he, hsettled⟩
  · exact hmoves.hidden h
  · rw [hsettled]
    exact settle_hidden vt h (hunmatched chunk now he)

/-- A step after which the epoch is not confirmed shows no prediction. -/
theorem step_predictions {fb : TerminalFramebuffer S} {e : TerminalEvent K}
    (hmode : Gated fb.overlay.mode) (h : (fb.step vt encodeKey e).2.overlay.Hidden) :
    (fb.step vt encodeKey e).1.predictions = [] := by
  cases e with
  | key event now =>
      rw [step_key] at h
      unfold step
      cases hencoded : encodeKey event (vt.applicationCursor fb.vtParser) with
      | none =>
          simp only [onKeystroke_none vt encodeKey fb hencoded]
          rfl
      | some encoded =>
          rw [onKeystroke_overlay vt encodeKey fb hencoded now] at h
          have hmode' := (moves_onInput vt fb.overlay encoded fb.vtParser now).mode
          have hnew := hasNew_of_hidden vt
            { fb with overlay := fb.overlay.onInput vt encoded fb.vtParser now } (by rwa [hmode']) h
          simp only [onKeystroke, hencoded, hnew]
          split <;> rfl
  | output chunk now =>
      have h : (fb.overlay.settle vt (fb.screenAfter vt (chunkBytes chunk)) now).Hidden := by
        rw [← renderServerOutput_overlay]
        exact h
      have hsettled :
          Gated (fb.overlay.settle vt (fb.screenAfter vt (chunkBytes chunk)) now).mode := by
        rwa [settle_mode]
      unfold step renderServerOutput
      by_cases hdisplaying : fb.isDisplaying = true
      · have hnew : (fb.appendErase.2.processServerOutput vt (chunkBytes chunk) now).2.hasNew vt
            = false := hasNew_of_hidden vt _ hsettled h
        simp only [hdisplaying, if_true, hnew]
        rfl
      · have hnew : (fb.processServerOutput vt (chunkBytes chunk) now).2.hasNew vt = false :=
          hasNew_of_hidden vt _ hsettled h
        simp only [hdisplaying, Bool.false_eq_true, if_false, hnew]
        rfl

theorem displays_hidden {fb : TerminalFramebuffer S} (hmode : Gated fb.overlay.mode)
    (h : fb.overlay.Hidden) {es : List (TerminalEvent K)} (hrun : Unconfirming vt encodeKey fb es) :
    ∀ d ∈ fb.displays vt encodeKey es, d.predictions = [] := by
  induction es generalizing fb with
  | nil => exact fun _ hd => absurd hd List.not_mem_nil
  | cons e es ih =>
      obtain ⟨hunmatched, hrest⟩ := hrun
      have hstep := step_hidden vt encodeKey h hunmatched
      have hmode' : Gated (fb.step vt encodeKey e).2.overlay.mode := by
        rwa [step_mode]
      intro d hd
      rcases List.mem_cons.mp hd with rfl | hd
      · exact step_predictions vt encodeKey hmode hstep
      · exact ih hmode' hstep hrest d hd

/-- A key that begins an epoch: Enter, Tab, Escape, a control character, or a sequence. -/
def IsBoundary (encoded : List Char) : Prop :=
  (∃ c, encoded = [c] ∧ isBoundaryByte c = true) ∨
    ∃ c rest, encoded = Char.ofNat 0x1b :: c :: rest ∧ (c = '[' ∨ c = 'O')

theorem classify_boundary {encoded : List Char} (h : IsBoundary encoded) (o : PredictionOverlay)
    (screen : S) (now : Nat) : classify vt o encoded screen now = o.newEpoch := by
  rcases h with ⟨c, rfl, hc⟩ | ⟨c, rest, rfl, hc⟩
  · simp [classify, hc]
  · simp [classify, onSequence, hc]

/-- Unless the key goes under in what is taken for a paste, the epoch it begins is not confirmed. -/
theorem onInput_boundary {o : PredictionOverlay} (hsane : o.Sane) (hmode : Gated o.mode)
    {encoded : List Char} (hboundary : IsBoundary encoded) {now : Nat}
    (hpaste : o.isBulkPaste encoded now = false) (screen : S) :
    (o.onInput vt encoded screen now).Hidden := by
  have hoff : o.mode ≠ .off := by
    rcases hmode with h | h <;> rw [h] <;> exact nofun
  have hle := hsane.confirmed_le
  unfold onInput
  simp only [hoff, if_false, hpaste, Bool.false_eq_true, classify_boundary vt hboundary]
  unfold Hidden newEpoch
  dsimp only
  split <;> omega

/-- After a key that begins an epoch no prediction is displayed, as long as nothing on the screen
confirms one that is pending. -/
theorem concealed_of_run (mode : PredictMode) (hmode : Gated mode) (screen : S)
    (before es : List (TerminalEvent K)) (key : K) (now : Nat) (encoded : List Char)
    (hencoded : encodeKey key
      (vt.applicationCursor ((new screen mode).after vt encodeKey before).vtParser)
      = some encoded)
    (hboundary : IsBoundary encoded)
    (hpaste : ((new screen mode).after vt encodeKey before).overlay.isBulkPaste encoded now = false)
    (hrun : Unconfirming vt encodeKey
      ((new screen mode).after vt encodeKey (before ++ [.key key now])) es) :
    ∀ d ∈ ((new screen mode).after vt encodeKey (before ++ [.key key now])).displays vt encodeKey es,
      d.predictions = [] := by
  have hsplit : ∀ (fb : TerminalFramebuffer S) (as : List (TerminalEvent K)) (e : TerminalEvent K),
      fb.after vt encodeKey (as ++ [e]) = ((fb.after vt encodeKey as).step vt encodeKey e).2 := by
    intro fb as e
    induction as generalizing fb with
    | nil => rfl
    | cons a as ih => exact ih _
  have hnew : (PredictionOverlay.new mode).Sane :=
    ⟨Nat.le_refl _, fun _ h => absurd h List.not_mem_nil, fun _ h => absurd h List.not_mem_nil⟩
  have hsane := after_sane vt encodeKey (new screen mode) hnew before
  have hgated : Gated ((new screen mode).after vt encodeKey before).overlay.mode := by
    rw [after_mode]
    exact hmode
  have hoverlay : ((new screen mode).after vt encodeKey (before ++ [.key key now])).overlay
      = ((new screen mode).after vt encodeKey before).overlay.onInput vt encoded
        ((new screen mode).after vt encodeKey before).vtParser now := by
    rw [hsplit, step_key, onKeystroke_overlay vt encodeKey _ hencoded]
  refine displays_hidden vt encodeKey ?_ ?_ hrun
  · rw [after_mode]
    exact hmode
  · rw [hoverlay]
    exact onInput_boundary vt hsane hgated hboundary hpaste _

/-- Keys that are sent as they are. -/
def asTyped (key : List Char) (_ : Bool) : Option (List Char) := some key

/-- What is sent is the echo of no key from the `n`th step on. -/
def NoEchoFrom (n : Nat) (es : List (TerminalEvent K)) : Prop :=
  ∀ chunk now, .output chunk now ∈ es → ∀ sent ∈ chunk, ∀ i, sent.echoOf = some i → i < n

def loginBefore : List (TerminalEvent (List Char)) :=
  [.output [⟨none, "$ ".toList.map ascii⟩] 0, .key ['s'] (millis 100), .key ['u'] (millis 200)]

/-- The echo of the command and the question for the password, and the password. -/
def loginAfter : List (TerminalEvent (List Char)) :=
  [.output [⟨some 1, [ascii 's']⟩] (millis 400),
    .output [⟨some 2, [ascii 'u']⟩, ⟨none, "\r\nPassword: ".toList.map ascii⟩] (millis 500),
    .key ['x'] (millis 700), .key ['y'] (millis 800)]

theorem concealed_login :
    (((new (Terminal.new 24 80) .on).after Terminal.vt100 asTyped
        (loginBefore ++ [.key ['\r'] (millis 300)])).displays
            Terminal.vt100 asTyped loginAfter).flatMap
      Display.predictions = [] := by
  refine List.flatMap_eq_nil_iff.mpr (concealed_of_run Terminal.vt100 asTyped .on (.inl rfl)
    (Terminal.new 24 80) loginBefore loginAfter ['\r'] (millis 300) ['\r'] rfl
    (.inl ⟨'\r', rfl, rfl⟩) (by decide) ?_)
  refine ⟨?_, ?_, ?_, ?_, trivial⟩
  · rintro chunk now ⟨⟩
    exact ⟨by decide, by decide⟩
  · rintro chunk now ⟨⟩
    exact ⟨by decide, by decide⟩
  · exact fun _ _ h => nomatch h
  · exact fun _ _ h => nomatch h

/-- The echo of the `a` before the key stands where the `a` after it was predicted. -/
def lateEcho : List (TerminalEvent (List Char)) :=
  [.key ['a'] (millis 200), .output [⟨some 0, [ascii 'a']⟩] (millis 300), .key ['b'] (millis 400)]

theorem not_concealed : NoEchoFrom 1 lateEcho ∧
    ∃ d ∈ ((new (Terminal.new 24 80) .on).after Terminal.vt100 asTyped
        ([.key ['a'] 0] ++ [.key ['\r'] (millis 100)])).displays Terminal.vt100 asTyped lateEcho,
      d.predictions.map PredictedCell.ch = ['b'] ∧ ascii 'b' ∈ d.bytes := by
  refine ⟨?_, by decide⟩
  intro chunk now hmem sent hsent i hi
  simp only [lateEcho, List.mem_cons, List.not_mem_nil, or_false, reduceCtorEq, false_or,
    TerminalEvent.output.injEq] at hmem
  obtain ⟨rfl, -⟩ := hmem
  rw [List.mem_singleton.mp hsent] at hi
  cases hi
  decide

end TerminalFramebuffer

end Distant
