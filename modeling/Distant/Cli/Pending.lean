import Distant.Cli.Streaming

/-!
# What the sanitizer keeps back

The sanitizer should keep back only what may still become a sequence. `Broken` says without an
algorithm which bytes can become none, and `beginsSequence_iff` that whatever the parser has not
finished either begins a sequence or is broken. The sanitizer does not tell the two apart:
`filterAll_completable_iff` says in which runs it keeps nothing back for no reason.
-/

namespace Distant

/-- The bytes properly begin something that is parsed as one sequence. -/
def BeginsSequence (bs : Bytes) : Prop :=
  ∃ w seq, parseEscape w = some (seq, w.length) ∧ bs <+: w ∧ bs ≠ w

/-- A CSI sequence may go on with this byte, from what there is of it. -/
def continuesCsi (marker : Option UInt8) (params intermediates : Bytes) (b : UInt8) : Bool :=
  isFinal b || isIntermediate b || (intermediates.isEmpty && isParam b) ||
    (intermediates.isEmpty && params.isEmpty && marker.isNone && isMarker b)

/-- An introducer with content that no terminator follows, nor ever will. -/
inductive Broken : Bytes → Prop
  | csi {marker : Option UInt8} {params intermediates rest : Bytes} {b : UInt8} :
      (∀ b ∈ marker, isMarker b = true) → (∀ b ∈ params, isParam b = true) →
      (∀ b ∈ intermediates, isIntermediate b = true) →
      continuesCsi marker params intermediates b = false →
      Broken (ESC :: ascii '[' :: (marker.toList ++ (params ++ (intermediates ++ b :: rest))))
  | osc {content rest : Bytes} {b : UInt8} : (∀ b ∈ content, b ≠ BEL ∧ b ≠ ESC) → b ≠ ascii '\\' →
      Broken (ESC :: ascii ']' :: (content ++ ESC :: b :: rest))
  | dcs {content rest : Bytes} {b : UInt8} : (∀ b ∈ content, b ≠ BEL ∧ b ≠ ESC) → b ≠ ascii '\\' →
      Broken (ESC :: ascii 'P' :: (content ++ ESC :: b :: rest))

/-! ## What is broken stays so -/

theorem Broken.append {bs : Bytes} (h : Broken bs) (more : Bytes) : Broken (bs ++ more) := by
  cases h with
  | csi hmarker hparams hinter hnot =>
    simp only [List.cons_append, List.append_assoc]
    exact .csi hmarker hparams hinter hnot
  | osc hcontent hb =>
    simp only [List.cons_append, List.append_assoc]
    exact .osc hcontent hb
  | dcs hcontent hb =>
    simp only [List.cons_append, List.append_assoc]
    exact .dcs hcontent hb

theorem contentAndTerminator_broken {content : Bytes} (h : ∀ b ∈ content, b ≠ BEL ∧ b ≠ ESC)
    {b : UInt8} (hb : b ≠ ascii '\\') (rest : Bytes) :
    contentAndTerminator (content ++ ESC :: b :: rest) = none := by
  induction content with
  | nil => simp [contentAndTerminator, hb, show ESC ≠ BEL by decide]
  | cons c content ih =>
    obtain ⟨hbel, hesc⟩ := h c List.mem_cons_self
    have hrest := ih fun b hb => h b (List.mem_cons_of_mem c hb)
    simp [contentAndTerminator, hbel, hesc, hrest]

/-- The parser takes as much of each class as there is, and then finds no final byte. -/
theorem parseCsi_broken {marker : Option UInt8} {params intermediates : Bytes} {b : UInt8}
    (hmarker : ∀ b ∈ marker, isMarker b = true) (hparams : ∀ b ∈ params, isParam b = true)
    (hinter : ∀ b ∈ intermediates, isIntermediate b = true)
    (hnot : continuesCsi marker params intermediates b = false) (rest : Bytes) :
    parseCsi (ESC :: ascii '[' :: (marker.toList ++ (params ++ (intermediates ++ b :: rest)))) =
      none := by
  simp only [continuesCsi, Bool.or_eq_false_iff] at hnot
  obtain ⟨⟨⟨hfinal, hnotInter⟩, hnotParam⟩, hnotMarker⟩ := hnot
  have htake : takeMarker (marker.toList ++ (params ++ (intermediates ++ b :: rest))) =
      (marker, params ++ (intermediates ++ b :: rest)) := by
    cases marker with
    | some m => simp [takeMarker, hmarker m rfl]
    | none =>
      refine takeMarker_append hmarker fun c hc => ?_
      cases params with
      | cons p ps =>
        cases hc
        exact not_isMarker (.inl (hparams c (by simp)))
      | nil =>
        cases intermediates with
        | cons i is =>
          cases hc
          exact not_isMarker (.inr (.inl (hinter c (by simp))))
        | nil =>
          cases hc
          simpa using hnotMarker
  have hp : (params ++ (intermediates ++ b :: rest)).dropWhile isParam =
      intermediates ++ b :: rest := by
    cases intermediates with
    | nil => exact (takeWhile_dropWhile hparams (by simpa using hnotParam) rest).2
    | cons i is => exact (takeWhile_dropWhile hparams (not_isParam (.inl (hinter i (by simp)))) _).2
  have hi := (takeWhile_dropWhile hinter hnotInter rest).2
  unfold parseCsi
  simp only [List.drop_succ_cons, List.drop_zero, htake, hp, hi, hfinal, Bool.false_eq_true, if_false]

theorem Broken.parseEscape_eq_none {bs : Bytes} (h : Broken bs) : parseEscape bs = none := by
  cases h with
  | csi hmarker hparams hinter hnot => exact parseCsi_broken hmarker hparams hinter hnot _
  | osc hcontent hb => exact congrArg (Option.map _) (contentAndTerminator_broken hcontent hb _)
  | dcs hcontent hb => exact congrArg (Option.map _) (contentAndTerminator_broken hcontent hb _)

theorem Broken.not_beginsSequence {bs : Bytes} (h : Broken bs) : ¬ BeginsSequence bs := by
  rintro ⟨w, seq, hparse, ⟨more, rfl⟩, -⟩
  rw [(h.append more).parseEscape_eq_none] at hparse
  cases hparse

/-! ## What is not broken goes on -/

theorem beginsSequence_of_spells {seq : EscapeSeq} {bs : Bytes} (more : Bytes)
    (h : Spells seq (bs ++ more)) (hmore : more ≠ []) : BeginsSequence bs := by
  refine ⟨bs ++ more, seq, ?_, List.prefix_append bs more, ?_⟩
  · simpa using parseEscape_append h []
  · simpa using hmore

/-- Without a terminator, the content goes on, or it ends in the first half of a terminator, or it
breaks off. -/
theorem content_of_eq_none {bs : Bytes} (h : contentAndTerminator bs = none) :
    ∃ content, (∀ b ∈ content, b ≠ BEL ∧ b ≠ ESC) ∧
      (bs = content ∨ bs = content ++ [ESC] ∨
        ∃ b rest, bs = content ++ ESC :: b :: rest ∧ b ≠ ascii '\\') := by
  induction bs with
  | nil => exact ⟨[], nofun, .inl rfl⟩
  | cons b bs ih =>
    rw [contentAndTerminator] at h
    split_ifs at h with hbel hesc hhead
    · subst hesc
      refine ⟨[], nofun, .inr ?_⟩
      cases bs with
      | nil => exact .inl rfl
      | cons c rest => exact .inr ⟨c, rest, rfl, by simpa using hhead⟩
    · obtain ⟨content, hcontent, hrest⟩ := ih (by simpa using h)
      refine ⟨b :: content, ?_, ?_⟩
      · intro c hc
        rcases List.mem_cons.mp hc with rfl | hc
        · exact ⟨hbel, hesc⟩
        · exact hcontent c hc
      · rcases hrest with rfl | rfl | ⟨c, rest, rfl, hc⟩
        · exact .inl rfl
        · exact .inr (.inl rfl)
        · exact .inr (.inr ⟨c, rest, rfl, hc⟩)

theorem csi_of_eq_none {rest : Bytes} (h : parseCsi (ESC :: ascii '[' :: rest) = none) :
    BeginsSequence (ESC :: ascii '[' :: rest) ∨ Broken (ESC :: ascii '[' :: rest) := by
  obtain ⟨hmarker, hmarkers⟩ := takeMarker_spec rest
  have hnone : ∀ b ∈ (takeMarker rest).2.head?, (takeMarker rest).1 = none → isMarker b = false := by
    cases rest with
    | nil => simp [takeMarker]
    | cons c rest =>
      by_cases hc : isMarker c = true
      · simp [takeMarker, hc]
      · simp [takeMarker, hc]
  unfold parseCsi at h
  simp only [List.drop_succ_cons, List.drop_zero] at h
  generalize takeMarker rest = found at h hmarker hmarkers hnone
  obtain ⟨marker, body⟩ := found
  simp only at h hmarker hmarkers hnone
  have hparams : ∀ b ∈ body.takeWhile isParam, isParam b = true :=
    fun b hb => List.all_eq_true.mp List.all_takeWhile b hb
  have hbody := List.takeWhile_append_dropWhile (p := isParam) (l := body)
  have hnotParam := List.head?_dropWhile_not isParam body
  generalize body.takeWhile isParam = params at h hparams hbody
  generalize body.dropWhile isParam = tail at h hbody hnotParam
  have hinter : ∀ b ∈ tail.takeWhile isIntermediate, isIntermediate b = true :=
    fun b hb => List.all_eq_true.mp List.all_takeWhile b hb
  have htail := List.takeWhile_append_dropWhile (p := isIntermediate) (l := tail)
  have hnotInter := List.head?_dropWhile_not isIntermediate tail
  generalize tail.takeWhile isIntermediate = intermediates at h hinter htail
  generalize tail.dropWhile isIntermediate = last at h htail hnotInter
  subst htail hbody hmarker
  cases last with
  | nil =>
    -- any final byte ends the sequence
    have hfinal : isFinal (ascii 'm') = true := by decide
    have hspells := Spells.csi hmarkers hparams hinter hfinal
    exact .inl (beginsSequence_of_spells [ascii 'm'] (by simpa using hspells) (by simp))
  | cons b rest =>
    have hfinal : isFinal b = false := by simpa using h
    refine .inr (.csi hmarkers hparams hinter ?_)
    simp only [continuesCsi, Bool.or_eq_false_iff]
    refine ⟨⟨⟨hfinal, by simpa using hnotInter⟩, ?_⟩, ?_⟩
    · cases intermediates with
      | nil => simpa using hnotParam
      | cons i is => rfl
    · cases intermediates with
      | cons i is => rfl
      | nil =>
        cases params with
        | cons p ps => rfl
        | nil =>
          cases marker with
          | some m => rfl
          | none => simpa using hnone b rfl rfl

/-- OSC and DCS sequences without a terminator. -/
theorem string_of_eq_none {introducer : UInt8} {seq : Bytes → EscapeSeq}
    (hspells : ∀ {content terminator : Bytes}, (∀ b ∈ content, b ≠ BEL ∧ b ≠ ESC) →
      terminator = [BEL] ∨ terminator = [ESC, ascii '\\'] →
      Spells (seq content) (ESC :: introducer :: (content ++ terminator)))
    (hbroken : ∀ {content rest : Bytes} {b : UInt8}, (∀ b ∈ content, b ≠ BEL ∧ b ≠ ESC) →
      b ≠ ascii '\\' → Broken (ESC :: introducer :: (content ++ ESC :: b :: rest)))
    {rest : Bytes} (h : contentAndTerminator rest = none) :
    BeginsSequence (ESC :: introducer :: rest) ∨ Broken (ESC :: introducer :: rest) := by
  obtain ⟨content, hcontent, rfl | rfl | ⟨b, rest, rfl, hb⟩⟩ := content_of_eq_none h
  · exact .inl (beginsSequence_of_spells [BEL] (hspells hcontent (.inl rfl)) (by simp))
  · have hterminated : Spells (seq content) (ESC :: introducer :: (content ++ [ESC, ascii '\\'])) :=
      hspells hcontent (.inr rfl)
    exact .inl (beginsSequence_of_spells [ascii '\\'] (by simpa using hterminated) (by simp))
  · exact .inr (hbroken hcontent hb)

/-- What the parser has not finished and the sanitizer takes for incomplete either begins a sequence
or is broken. -/
theorem beginsSequence_or_broken {bs : Bytes} (hparse : parseEscape (ESC :: bs) = none)
    (hinc : TerminalSanitizer.genuinelyIncomplete (ESC :: bs) = true) :
    BeginsSequence (ESC :: bs) ∨ Broken (ESC :: bs) := by
  cases bs with
  | nil =>
    have hspells : Spells .twoChar [ESC, ascii '7'] := .twoChar (by decide) (by decide)
    exact .inl (beginsSequence_of_spells [ascii '7'] hspells (by simp))
  | cons b rest =>
    simp only [TerminalSanitizer.genuinelyIncomplete, Bool.or_eq_true, beq_iff_eq,
      Bool.and_eq_true] at hinc
    obtain ((rfl | rfl) | rfl) | ⟨rfl, hrest⟩ := hinc
    · exact csi_of_eq_none hparse
    · exact string_of_eq_none .osc .osc (Option.map_eq_none_iff.mp hparse)
    · exact string_of_eq_none .dcs .dcs (Option.map_eq_none_iff.mp hparse)
    · obtain rfl : rest = [] := by simpa using hrest
      exact .inl (beginsSequence_of_spells [ascii 'A'] .ss3 (by simp))

theorem beginsSequence_iff {bs : Bytes} (hparse : parseEscape (ESC :: bs) = none)
    (hinc : TerminalSanitizer.genuinelyIncomplete (ESC :: bs) = true) :
    BeginsSequence (ESC :: bs) ↔ ¬ Broken (ESC :: bs) := by
  constructor
  · intro hbegins hbroken
    exact hbroken.not_beginsSequence hbegins
  · intro hbroken
    exact (beginsSequence_or_broken hparse hinc).resolve_right hbroken

/-! ## Runs -/

/-- Nothing, or the beginning of a sequence. -/
def Completable (pending : Bytes) : Prop := pending = [] ∨ BeginsSequence pending

/-- Whole sequences and other bytes, and then a broken sequence that does not exceed the cap. -/
def BreaksOff (data : Bytes) : Prop :=
  ∃ tokens rest, Cuts data tokens rest ∧ Broken rest ∧
    rest.length ≤ TerminalSanitizer.PENDING_CAP

namespace TerminalSanitizer

variable (s : TerminalSanitizer)

theorem filter_pending (input : Bytes) :
    (s.filter input).2.pending =
      if (cut (s.pending ++ input) 0).2.length > PENDING_CAP then []
      else (cut (s.pending ++ input) 0).2 := by
  have hscan : { s with pending := [] }.scan (s.pending ++ input) 0 =
      { s with pending := [] }.reference (s.pending ++ input) := scan_eq_reference _ _
  simp only [filter, hscan, reference, List.length_nil, Nat.zero_add, List.nil_append]
  split_ifs <;> rfl

theorem filterAll_append (chunks chunks' : List Bytes) :
    (s.filterAll (chunks ++ chunks')).2 = ((s.filterAll chunks).2.filterAll chunks').2 := by
  induction chunks generalizing s with
  | nil => rfl
  | cons chunk chunks ih => exact ih (s.filter chunk).2

theorem filterAll_take_succ {chunks : List Bytes} {n : Nat} (h : n < chunks.length) :
    (s.filterAll (chunks.take (n + 1))).2 =
      ((s.filterAll (chunks.take n)).2.filter chunks[n]).2 := by
  rw [List.take_succ_eq_append_getElem h, filterAll_append]
  rfl

end TerminalSanitizer

/-- What a stream leaves unfinished is nothing, or what the sanitizer takes for incomplete. -/
theorem Cuts.rest {bs rest : Bytes} {tokens : List Token} (h : Cuts bs tokens rest) :
    rest = [] ∨ ∃ bs', rest = ESC :: bs' ∧ parseEscape rest = none ∧
      TerminalSanitizer.genuinelyIncomplete rest = true := by
  induction h with
  | done => exact .inl rfl
  | unfinished hparse hinc => exact .inr ⟨_, rfl, hparse, hinc⟩
  | sequence _ _ ih => exact ih
  | escape _ _ ih => exact ih
  | byte _ _ ih => exact ih

theorem Cuts.completable_iff {bs rest : Bytes} {tokens : List Token} (h : Cuts bs tokens rest) :
    Completable rest ↔ ¬ Broken rest := by
  obtain rfl | ⟨bs', rfl, hparse, hinc⟩ := h.rest
  · exact iff_of_true (.inl rfl) nofun
  · rw [← beginsSequence_iff hparse hinc]
    simp [Completable]

theorem breaksOff_iff (data : Bytes) :
    BreaksOff data ↔ Broken (cut data 0).2 ∧
      (cut data 0).2.length ≤ TerminalSanitizer.PENDING_CAP := by
  constructor
  · rintro ⟨tokens, rest, hcuts, hbroken, hlen⟩
    rw [cut_of_cuts hcuts]
    exact ⟨hbroken, hlen⟩
  · rintro ⟨hbroken, hlen⟩
    exact ⟨_, _, cuts_cut data, hbroken, hlen⟩

theorem not_breaksOff_of_cut {data : Bytes} (rest : Bytes) (h : (cut data 0).2 = rest)
    (hrest : Completable rest) : ¬ BreaksOff data := by
  rw [breaksOff_iff, h]
  rintro ⟨hbroken, -⟩
  exact (h ▸ cuts_cut data).completable_iff.mp hrest hbroken

namespace TerminalSanitizer

/-- One call leaves something pending for no reason exactly if its data break off. -/
theorem filter_completable_iff (s : TerminalSanitizer) (input : Bytes) :
    Completable (s.filter input).2.pending ↔ ¬ BreaksOff (s.pending ++ input) := by
  have hcompletable := (cuts_cut (s.pending ++ input)).completable_iff
  rw [filter_pending, breaksOff_iff]
  split_ifs with hcap
  · -- everything has been put out
    refine iff_of_true (.inl rfl) ?_
    rintro ⟨-, hlen⟩
    omega
  · rw [hcompletable]
    constructor
    · rintro hbroken ⟨hrest, -⟩
      exact hbroken hrest
    · intro h hbroken
      exact h ⟨hbroken, by omega⟩

/-- In every state of a run the pending bytes are nothing or the beginning of a sequence if and only
if no call's data, with what was pending before it, break off. -/
theorem filterAll_completable_iff (s : TerminalSanitizer) (hs : s.pending = [])
    (chunks : List Bytes) :
    (∀ n, Completable (s.filterAll (chunks.take n)).2.pending) ↔
      ∀ n, (h : n < chunks.length) →
        ¬ BreaksOff ((s.filterAll (chunks.take n)).2.pending ++ chunks[n]) := by
  constructor
  · intro hall n hn
    rw [← filter_completable_iff, ← filterAll_take_succ s hn]
    exact hall (n + 1)
  · intro hall n
    induction n with
    | zero => exact .inl hs
    | succ n ih =>
      by_cases hn : n < chunks.length
      · rw [filterAll_take_succ s hn, filter_completable_iff]
        exact hall n hn
      · -- the run is over
        rw [List.take_of_length_le (by omega)]
        rwa [List.take_of_length_le (by omega)] at ih

theorem completable_brokenQuery : Completable (conpty.filterAll brokenQuery).2.pending := by
  refine (filterAll_completable_iff conpty rfl brokenQuery).mpr (fun n hn => ?_) 3
  match n, hn with
  | 0, _ =>
    refine not_breaksOff_of_cut [ESC, ascii '['] rfl (.inr ?_)
    exact ⟨[ESC, ascii '[', ascii 'm'], .csi none [] [] (ascii 'm'), by decide, ⟨[ascii 'm'], rfl⟩,
      by decide⟩
  | 1, _ => exact not_breaksOff_of_cut [] rfl (.inl rfl)
  | 2, _ =>
    refine not_breaksOff_of_cut [ESC] rfl (.inr ?_)
    exact ⟨[ESC, ascii '7'], .twoChar, by decide, ⟨[ascii '7'], rfl⟩, by decide⟩

/-- What a program writes that leaves the keyboard protocol of its terminal, and a prompt. -/
def poppedKeyboard : Bytes := [ESC, ascii '[', ascii '<', ascii 'u', ascii '$', ascii ' ']

/-- The parser knows no marker `<`, so nothing is shown, the prompt neither. -/
theorem not_completable_poppedKeyboard :
    (conpty.filterAll [poppedKeyboard]).1 = [] ∧
      (conpty.filterAll [poppedKeyboard]).2.pending = poppedKeyboard ∧
      ¬ ∀ n, Completable (conpty.filterAll ([poppedKeyboard].take n)).2.pending := by
  have hpending : (conpty.filterAll [poppedKeyboard]).2.pending = poppedKeyboard := by decide
  refine ⟨by decide, hpending, fun h => ?_⟩
  have hmarker : ∀ b ∈ (none : Option UInt8), isMarker b = true := nofun
  have hparams : ∀ b ∈ ([] : Bytes), isParam b = true := nofun
  have hinter : ∀ b ∈ ([] : Bytes), isIntermediate b = true := nofun
  have hbroken : Broken poppedKeyboard := .csi hmarker hparams hinter (by decide)
  have hcompletable : Completable poppedKeyboard := by
    rw [← hpending]
    exact h 1
  exact hcompletable.elim (by decide) hbroken.not_beginsSequence

end TerminalSanitizer

end Distant
