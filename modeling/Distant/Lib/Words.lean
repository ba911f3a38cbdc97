import Mathlib.Tactic.Common

/-!
# Splitting a command into words

`Words.split` splits a text into words as a POSIX shell does, but with no expansion other than the
removal of quotes, and without operators: their characters are read as they are. It is a machine
with one state for each way in which the next character can be read.

What is read never has more characters than what is written. `Tight` says that nothing is lost in a
text but quotes, and what is read tightly has been written plainly (`plainWord_of_split`).
-/

namespace Distant

namespace Words

inductive State where
  | delimiter
  | backslash
  | unquoted (w : List Char)
  | unquotedBackslash (w : List Char)
  | singleQuoted (w : List Char)
  | doubleQuoted (w : List Char)
  | doubleQuotedBackslash (w : List Char)
  | comment
  deriving DecidableEq, Repr

def isBlank (c : Char) : Bool := c == ' ' || c == '\t' || c == '\n'

/-- A character that is not quoted, where `w` is what has been read of a word. -/
def stepUnquoted (w : List Char) (c : Char) : State :=
  if c = '\'' then .singleQuoted w
  else if c = '"' then .doubleQuoted w
  else if c = '\\' then .unquotedBackslash w
  else .unquoted (w ++ [c])

/-- The words that end with the character, and the state after it. -/
def step : State → Char → List (List Char) × State
  | .delimiter, c =>
    if isBlank c then ([], .delimiter)
    else if c = '#' then ([], .comment)
    else if c = '\\' then ([], .backslash)
    else ([], stepUnquoted [] c)
  | .backslash, c => if c = '\n' then ([], .delimiter) else ([], .unquoted [c])
  | .unquoted w, c => if isBlank c then ([w], .delimiter) else ([], stepUnquoted w c)
  | .unquotedBackslash w, c =>
    if c = '\n' then ([], .unquoted w) else ([], .unquoted (w ++ [c]))
  | .singleQuoted w, c =>
    if c = '\'' then ([], .unquoted w) else ([], .singleQuoted (w ++ [c]))
  | .doubleQuoted w, c =>
    if c = '"' then ([], .unquoted w)
    else if c = '\\' then ([], .doubleQuotedBackslash w)
    else ([], .doubleQuoted (w ++ [c]))
  | .doubleQuotedBackslash w, c =>
    if c = '\n' then ([], .doubleQuoted w)
    else if c = '$' ∨ c = '`' ∨ c = '"' ∨ c = '\\' then ([], .doubleQuoted (w ++ [c]))
    else ([], .doubleQuoted (w ++ ['\\', c]))
  | .comment, c => if c = '\n' then ([], .delimiter) else ([], .comment)

def run : State → List Char → List (List Char) × State
  | s, [] => ([], s)
  | s, c :: cs => ((step s c).1 ++ (run (step s c).2 cs).1, (run (step s c).2 cs).2)

/-- The words that end with the text; there are none within quotes. -/
def finish : State → Option (List (List Char))
  | .delimiter => some []
  | .comment => some []
  | .backslash => some [['\\']]
  | .unquoted w => some [w]
  | .unquotedBackslash w => some [w ++ ['\\']]
  | .singleQuoted _ => none
  | .doubleQuoted _ => none
  | .doubleQuotedBackslash _ => none

def split (text : List Char) : Option (List (List Char)) :=
  (finish (run .delimiter text).2).map ((run .delimiter text).1 ++ ·)

/-! ## Pieces of a text -/

section Pieces

variable {s : State} {a b w : List Char}

theorem run_append (s : State) (a b : List Char) :
    run s (a ++ b) = ((run s a).1 ++ (run (run s a).2 b).1, (run (run s a).2 b).2) := by
  induction a generalizing s with
  | nil => rfl
  | cons c a ih => rw [List.cons_append, run, run, ih, List.append_assoc]

/-- A character that means nothing where nothing is quoted. -/
def isPlain (c : Char) : Bool := !(isBlank c || c == '\'' || c == '"' || c == '\\')

/-- A text that is read as it is. -/
structure PlainWord (text : List Char) : Prop where
  nonempty : text ≠ []
  noComment : text.head? ≠ some '#'
  plain : ∀ c ∈ text, isPlain c = true

theorem isPlain_iff {c : Char} :
    isPlain c = true ↔ isBlank c = false ∧ c ≠ '\'' ∧ c ≠ '"' ∧ c ≠ '\\' := by
  simp only [isPlain, Bool.not_eq_true', Bool.or_eq_false_iff, beq_eq_false_iff_ne, and_assoc]

theorem step_unquoted_plain {c : Char} (h : isPlain c = true) (w : List Char) :
    step (.unquoted w) c = ([], .unquoted (w ++ [c])) := by
  obtain ⟨hblank, hsingle, hdouble, hback⟩ := isPlain_iff.mp h
  simp [step, stepUnquoted, hblank, hsingle, hdouble, hback]

theorem step_delimiter_plain {c : Char} (h : isPlain c = true) (hcomment : c ≠ '#') :
    step .delimiter c = ([], .unquoted [c]) := by
  obtain ⟨hblank, hsingle, hdouble, hback⟩ := isPlain_iff.mp h
  simp [step, stepUnquoted, hblank, hsingle, hdouble, hback, hcomment]

theorem run_unquoted_plain (h : ∀ c ∈ a, isPlain c = true) (w : List Char) :
    run (.unquoted w) a = ([], .unquoted (w ++ a)) := by
  induction a generalizing w with
  | nil => rw [run, List.append_nil]
  | cons c a ih =>
      rw [run, step_unquoted_plain (h c List.mem_cons_self),
        ih (fun d hd => h d (List.mem_cons_of_mem _ hd)), List.append_assoc]
      rfl

theorem PlainWord.run (h : PlainWord a) : run .delimiter a = ([], .unquoted a) := by
  cases a with
  | nil => exact absurd rfl h.nonempty
  | cons c a =>
      have hcomment : c ≠ '#' := fun heq => h.noComment (by rw [heq]; rfl)
      rw [Words.run, step_delimiter_plain (h.plain c List.mem_cons_self) hcomment,
        run_unquoted_plain (fun d hd => h.plain d (List.mem_cons_of_mem _ hd))]
      rfl

/-- A word with a blank behind it. -/
theorem PlainWord.run_blank (h : PlainWord a) (b : List Char) :
    Words.run .delimiter (a ++ ' ' :: b) =
      (a :: (Words.run .delimiter b).1, (Words.run .delimiter b).2) := by
  rw [run_append, h.run]
  rfl

/-- Within single quotes everything else is read as it is. -/
theorem run_singleQuoted (h : '\'' ∉ a) (w b : List Char) :
    run (.singleQuoted w) (a ++ b) = run (.singleQuoted (w ++ a)) b := by
  induction a generalizing w with
  | nil => rw [List.nil_append, List.append_nil]
  | cons c a ih =>
      rw [List.mem_cons, not_or] at h
      have hstep : step (.singleQuoted w) c = ([], .singleQuoted (w ++ [c])) := by
        rw [step, if_neg (Ne.symm h.1)]
      rw [List.cons_append, run, hstep, ih h.2, List.append_assoc, List.singleton_append]
      rfl

end Pieces

/-! ## What has been read -/

/-- What has been read of a word. -/
def State.read : State → Option (List Char)
  | .delimiter => none
  | .backslash => none
  | .unquoted w => some w
  | .unquotedBackslash w => some w
  | .singleQuoted w => some w
  | .doubleQuoted w => some w
  | .doubleQuotedBackslash w => some w
  | .comment => none

section Read

variable {s : State} {w : List Char} {c : Char} {words : List (List Char)}

theorem read_stepUnquoted (w : List Char) (c : Char) :
    ∃ more, (stepUnquoted w c).read = some (w ++ more) := by
  unfold stepUnquoted
  split_ifs
  · exact ⟨[], by simp [State.read]⟩
  · exact ⟨[], by simp [State.read]⟩
  · exact ⟨[], by simp [State.read]⟩
  · exact ⟨[c], rfl⟩

/-- A word goes on, or it ends as it has been read. -/
theorem read_step (h : s.read = some w) (c : Char) :
    ((step s c).1 = [] ∧ ∃ more, (step s c).2.read = some (w ++ more)) ∨ (step s c).1 = [w] := by
  cases s with
  | delimiter => cases h
  | backslash => cases h
  | comment => cases h
  | unquoted v =>
      cases h
      rw [step]
      split_ifs
      · exact Or.inr rfl
      · exact Or.inl ⟨rfl, read_stepUnquoted w c⟩
  | unquotedBackslash v =>
      cases h
      rw [step]
      split_ifs
      · exact Or.inl ⟨rfl, [], by simp [State.read]⟩
      · exact Or.inl ⟨rfl, [c], rfl⟩
  | singleQuoted v =>
      cases h
      rw [step]
      split_ifs
      · exact Or.inl ⟨rfl, [], by simp [State.read]⟩
      · exact Or.inl ⟨rfl, [c], rfl⟩
  | doubleQuoted v =>
      cases h
      rw [step]
      split_ifs
      · exact Or.inl ⟨rfl, [], by simp [State.read]⟩
      · exact Or.inl ⟨rfl, [], by simp [State.read]⟩
      · exact Or.inl ⟨rfl, [c], rfl⟩
  | doubleQuotedBackslash v =>
      cases h
      rw [step]
      split_ifs
      · exact Or.inl ⟨rfl, [], by simp [State.read]⟩
      · exact Or.inl ⟨rfl, [c], rfl⟩
      · exact Or.inl ⟨rfl, ['\\', c], rfl⟩

/-- What has been read of a word is the beginning of the word. -/
theorem exists_cons_of_read {text : List Char} (h : s.read = some w)
    (hwords : (finish (run s text).2).map ((run s text).1 ++ ·) = some words) :
    ∃ more rest, words = (w ++ more) :: rest := by
  induction text generalizing s w words with
  | nil =>
      cases s with
      | delimiter => cases h
      | backslash => cases h
      | comment => cases h
      | unquoted v =>
          cases h
          cases hwords
          exact ⟨[], [], by rw [List.append_nil]; rfl⟩
      | unquotedBackslash v =>
          cases h
          cases hwords
          exact ⟨['\\'], [], rfl⟩
      | singleQuoted v => cases hwords
      | doubleQuoted v => cases hwords
      | doubleQuotedBackslash v => cases hwords
  | cons c text ih =>
      obtain ⟨last, hlast, heq⟩ := Option.map_eq_some_iff.mp hwords
      rw [run] at hlast heq
      rcases read_step h c with ⟨hnone, more, hread⟩ | hword
      · simp only [hnone, List.nil_append] at heq
        obtain ⟨more', rest, hrest⟩ := ih hread (Option.map_eq_some_iff.mpr ⟨last, hlast, heq⟩)
        exact ⟨more ++ more', rest, by rw [hrest, List.append_assoc]⟩
      · simp only [hword, List.singleton_append] at heq
        exact ⟨[], _, by rw [List.append_nil]; exact heq.symm⟩

end Read

/-! ## Nothing but quotes is lost -/

/-- The room that words take, each with what ends it. -/
def size (words : List (List Char)) : Nat := words.flatten.length + words.length

def quotes (words : List (List Char)) : Nat := words.flatten.count '\''

/-- The room that the beginning of a word takes; a backslash within quotes may be kept. -/
def State.size : State → Nat
  | .doubleQuotedBackslash w => w.length + 1
  | s => (s.read.getD []).length

def State.quotes (s : State) : Nat := (s.read.getD []).count '\''

/-- A text takes the room of all its characters but the quotes that are not read. -/
def Tight (s : State) (text : List Char) : Prop :=
  size (run s text).1 + (run s text).2.size + text.count '\'' + s.quotes =
    s.size + text.length + quotes (run s text).1 + (run s text).2.quotes

section Size

variable {s : State} {a b w : List Char} {c : Char}

theorem size_append (a b : List (List Char)) : size (a ++ b) = size a + size b := by
  simp only [size, List.flatten_append, List.length_append]
  omega

theorem quotes_append (a b : List (List Char)) : quotes (a ++ b) = quotes a + quotes b := by
  simp only [quotes, List.flatten_append, List.count_append]

/-- What one character of a text takes, against what it may take. -/
theorem size_stepUnquoted_le (w : List Char) (c : Char) :
    (stepUnquoted w c).size + [c].count '\'' + w.count '\'' ≤
      w.length + 1 + (stepUnquoted w c).quotes := by
  unfold stepUnquoted
  split_ifs with h₁ h₂ h₃
  · simp [State.size, State.quotes, State.read, h₁]
  · simp [State.size, State.quotes, State.read, h₂]
  · simp [State.size, State.quotes, State.read, h₃]
  · simp [State.size, State.quotes, State.read, List.count_append, h₁]

theorem size_step_le (s : State) (c : Char) :
    size (step s c).1 + (step s c).2.size + [c].count '\'' + s.quotes ≤
      s.size + 1 + quotes (step s c).1 + (step s c).2.quotes := by
  cases s with
  | delimiter =>
      rw [step]
      split_ifs with h₁ h₂ h₃
      · have hc : c ≠ '\'' := by rintro rfl; cases h₁
        simp [size, quotes, State.size, State.quotes, State.read, hc]
      · simp [size, quotes, State.size, State.quotes, State.read, h₂]
      · simp [size, quotes, State.size, State.quotes, State.read, h₃]
      · have hempty : State.delimiter.size = 0 := rfl
        simpa [size, quotes, State.quotes, State.read, hempty] using size_stepUnquoted_le [] c
  | backslash =>
      rw [step]
      split_ifs with h
      · simp [size, quotes, State.size, State.quotes, State.read, h]
      · simp [size, quotes, State.size, State.quotes, State.read, Nat.add_comm]
  | unquoted w =>
      rw [step]
      split_ifs with h
      · have hc : c ≠ '\'' := by rintro rfl; cases h
        simp [size, quotes, State.size, State.quotes, State.read, hc]
      · simpa [size, quotes, State.size, State.quotes, State.read] using size_stepUnquoted_le w c
  | unquotedBackslash w =>
      rw [step]
      split_ifs with h
      · simp [size, quotes, State.size, State.quotes, State.read, h]
      · simp [size, quotes, State.size, State.quotes, State.read, List.count_append]
        omega
  | singleQuoted w =>
      rw [step]
      split_ifs with h
      · simp [size, quotes, State.size, State.quotes, State.read, h]
      · simp [size, quotes, State.size, State.quotes, State.read, List.count_append, h]
  | doubleQuoted w =>
      rw [step]
      split_ifs with h₁ h₂
      · simp [size, quotes, State.size, State.quotes, State.read, h₁]
      · simp [size, quotes, State.size, State.quotes, State.read, h₂]
      · simp [size, quotes, State.size, State.quotes, State.read, List.count_append]
        omega
  | doubleQuotedBackslash w =>
      rw [step]
      split_ifs with h₁ h₂
      · subst h₁
        have hnewline : ['\n'].count '\'' = 0 := rfl
        simp only [size, quotes, State.size, State.quotes, State.read, hnewline, List.flatten_nil,
          List.length_nil, List.count_nil, Option.getD_some]
        omega
      · have hc : c ≠ '\'' := by rintro rfl; simp at h₂
        simp [size, quotes, State.size, State.quotes, State.read, List.count_append, hc]
      · simp [size, quotes, State.size, State.quotes, State.read, List.count_append,
          List.count_cons]
        omega
  | comment =>
      rw [step]
      split_ifs with h
      · simp [size, quotes, State.size, State.quotes, State.read, h]
      · simp [size, quotes, State.size, State.quotes, State.read, List.count_cons]
        split_ifs <;> simp

theorem size_run_le (s : State) (a : List Char) :
    size (run s a).1 + (run s a).2.size + a.count '\'' + s.quotes ≤
      s.size + a.length + quotes (run s a).1 + (run s a).2.quotes := by
  induction a generalizing s with
  | nil => simp [run, size, quotes]
  | cons c a ih =>
      have hstep := size_step_le s c
      have hrest := ih (step s c).2
      rw [run, ← List.singleton_append, List.count_append]
      simp only [size_append, quotes_append, List.length_append, List.length_singleton]
      omega

/-- What is tight is so from its beginning on. -/
theorem Tight.of_append (h : Tight s (a ++ b)) : Tight s a ∧ Tight (run s a).2 b := by
  have ha := size_run_le s a
  have hb := size_run_le (run s a).2 b
  unfold Tight at h
  rw [run_append] at h
  simp only [size_append, quotes_append, List.count_append, List.length_append] at h
  simp only [Tight]
  omega

theorem Tight.of_cons (h : Tight s (c :: a)) : Tight s [c] ∧ Tight (step s c).2 a :=
  Tight.of_append (s := s) (a := [c]) h

theorem tight_singleton_iff :
    Tight s [c] ↔ size (step s c).1 + (step s c).2.size + [c].count '\'' + s.quotes =
      s.size + 1 + quotes (step s c).1 + (step s c).2.quotes := by
  simp only [Tight, run, List.append_nil, List.length_singleton]

/-- The states that are kept where nothing but single quotes is lost, and none is read. -/
def Open : State → Prop
  | .delimiter => True
  | .unquoted w => '\'' ∉ w
  | .singleQuoted w => '\'' ∉ w
  | _ => False

theorem Open.quotes (h : Open s) : s.quotes = 0 := by
  cases s with
  | delimiter => rfl
  | unquoted w => exact List.count_eq_zero_of_not_mem h
  | singleQuoted w => exact List.count_eq_zero_of_not_mem h
  | backslash => cases h
  | unquotedBackslash w => cases h
  | doubleQuoted w => cases h
  | doubleQuotedBackslash w => cases h
  | comment => cases h

theorem not_mem_append_singleton (hw : '\'' ∉ w) (hc : c ≠ '\'') : '\'' ∉ w ++ [c] := by
  rw [List.mem_append, List.mem_singleton]
  exact not_or.mpr ⟨hw, Ne.symm hc⟩

theorem open_stepUnquoted (hw : '\'' ∉ w)
    (h : (stepUnquoted w c).size + [c].count '\'' = w.length + 1 + (stepUnquoted w c).quotes) :
    Open (stepUnquoted w c) := by
  have hcount : w.count '\'' = 0 := List.count_eq_zero_of_not_mem hw
  unfold stepUnquoted at h ⊢
  split_ifs at h ⊢ with h₁ h₂ h₃
  · exact hw
  · simp [State.size, State.quotes, State.read, h₂, hcount] at h
  · simp [State.size, State.quotes, State.read, h₃, hcount] at h
  · exact not_mem_append_singleton hw h₁

/-- A character that is tight keeps the state open, and no word with a quote ends. -/
theorem Open.step (hs : Open s) (h : Tight s [c]) :
    Open (step s c).2 ∧ Words.quotes (step s c).1 = 0 := by
  rw [tight_singleton_iff, hs.quotes] at h
  cases s with
  | delimiter =>
      rw [Words.step] at h ⊢
      split_ifs at h ⊢ with h₁ h₂ h₃
      · have hc : c ≠ '\'' := by rintro rfl; cases h₁
        simp [size, Words.quotes, State.size, State.quotes, State.read, hc] at h
      · simp [size, Words.quotes, State.size, State.quotes, State.read, h₂] at h
      · simp [size, Words.quotes, State.size, State.quotes, State.read, h₃] at h
      · have hempty : State.delimiter.size = 0 := rfl
        refine ⟨open_stepUnquoted List.not_mem_nil ?_, rfl⟩
        simpa [size, Words.quotes, hempty] using h
  | unquoted w =>
      have hcount : w.count '\'' = 0 := List.count_eq_zero_of_not_mem hs
      rw [Words.step] at h ⊢
      split_ifs at h ⊢
      · exact ⟨trivial, by simpa [Words.quotes] using hcount⟩
      · have hunquoted : (State.unquoted w).size = w.length := rfl
        refine ⟨open_stepUnquoted hs ?_, rfl⟩
        simpa [size, Words.quotes, hunquoted] using h
  | singleQuoted w =>
      rw [Words.step] at h ⊢
      split_ifs at h ⊢ with hc
      · exact ⟨hs, rfl⟩
      · exact ⟨not_mem_append_singleton hs hc, rfl⟩
  | backslash => cases hs
  | unquotedBackslash w => cases hs
  | doubleQuoted w => cases hs
  | doubleQuotedBackslash w => cases hs
  | comment => cases hs

theorem Open.run (hs : Open s) (h : Tight s a) :
    Open (run s a).2 ∧ Words.quotes (run s a).1 = 0 := by
  induction a generalizing s with
  | nil => exact ⟨hs, rfl⟩
  | cons c a ih =>
      obtain ⟨hfirst, hrest⟩ := h.of_cons
      obtain ⟨hopen, hstep⟩ := hs.step hfirst
      obtain ⟨hopen', hrun⟩ := ih hopen hrest
      refine ⟨hopen', ?_⟩
      rw [Words.run, quotes_append, hstep, hrun]

/-- Within a word, what is tight is plain up to the first quote or to the end of the word. -/
theorem plain_or_ends_of_tight (hquote : '\'' ∉ a) (h : Tight (.unquoted w) a) :
    (∀ c ∈ a, isPlain c = true) ∨
      ∃ more rest, (run (.unquoted w) a).1 = (w ++ more) :: rest ∧ more.length < a.length := by
  induction a generalizing w with
  | nil => exact Or.inl fun c hc => absurd hc List.not_mem_nil
  | cons c a ih =>
      rw [List.mem_cons, not_or] at hquote
      obtain ⟨hfirst, hrest⟩ := h.of_cons
      rw [run]
      by_cases hblank : isBlank c = true
      · refine Or.inr ⟨[], (run .delimiter a).1, ?_, Nat.succ_pos _⟩
        simp [step, hblank]
      · have hstep : step (.unquoted w) c = ([], stepUnquoted w c) := by
          rw [step, if_neg hblank]
        have hsize := size_stepUnquoted_le w c
        rw [tight_singleton_iff, hstep] at hfirst
        -- a double quote and a backslash would be lost
        have hplain : isPlain c = true := by
          rw [isPlain_iff]
          refine ⟨by simpa using hblank, Ne.symm hquote.1, ?_, ?_⟩
          · rintro rfl
            simp [stepUnquoted, size, quotes, State.size, State.quotes, State.read] at hfirst
          · rintro rfl
            simp [stepUnquoted, size, quotes, State.size, State.quotes, State.read] at hfirst
        rw [step_unquoted_plain hplain] at hrest ⊢
        rcases ih hquote.2 hrest with hall | ⟨more, rest, hwords, hlength⟩
        · exact Or.inl fun d hd => by
            rcases List.mem_cons.mp hd with rfl | hd
            · exact hplain
            · exact hall d hd
        · refine Or.inr ⟨c :: more, rest, ?_, Nat.succ_lt_succ hlength⟩
          rw [hwords, List.append_assoc]
          rfl

theorem plain_of_tight_delimiter (hc : c ≠ '\'') (h : Tight .delimiter [c]) :
    isPlain c = true ∧ c ≠ '#' := by
  rw [tight_singleton_iff, step] at h
  split_ifs at h with h₁ h₂ h₃
  · simp [size, quotes, State.size, State.quotes, State.read, hc] at h
  · simp [size, quotes, State.size, State.quotes, State.read, h₂] at h
  · simp [size, quotes, State.size, State.quotes, State.read, h₃] at h
  · refine ⟨isPlain_iff.mpr ⟨by simpa using h₁, hc, ?_, h₃⟩, h₂⟩
    rintro rfl
    simp [stepUnquoted, size, quotes, State.size, State.quotes, State.read] at h

/-- The first word of a tight text, if a blank follows it, is written plainly. -/
theorem plainWord_of_tight {words : List (List Char)} (h : Tight .delimiter (a ++ ' ' :: b))
    (hsplit : split (a ++ ' ' :: b) = some (a :: words)) : PlainWord a := by
  obtain ⟨last, hlast, heq⟩ := Option.map_eq_some_iff.mp hsplit
  -- no word has a quote
  have hquote : '\'' ∉ a := by
    obtain ⟨hopen, hnone⟩ := Open.run (s := .delimiter) trivial h
    have hmem : a ∈ (run .delimiter (a ++ ' ' :: b)).1 ++ last := heq ▸ List.mem_cons_self
    rcases List.mem_append.mp hmem with hmem | hmem
    · intro hc
      exact List.count_eq_zero.mp hnone (List.mem_flatten.mpr ⟨a, hmem, hc⟩)
    · cases hstate : (run .delimiter (a ++ ' ' :: b)).2 with
      | delimiter =>
          rw [hstate] at hlast
          cases hlast
          exact absurd hmem List.not_mem_nil
      | unquoted w =>
          rw [hstate] at hlast hopen
          cases hlast
          rw [List.mem_singleton.mp hmem]
          exact hopen
      | singleQuoted w =>
          rw [hstate] at hlast
          cases hlast
      | backslash => rw [hstate] at hopen; cases hopen
      | unquotedBackslash w => rw [hstate] at hopen; cases hopen
      | doubleQuoted w => rw [hstate] at hopen; cases hopen
      | doubleQuotedBackslash w => rw [hstate] at hopen; cases hopen
      | comment => rw [hstate] at hopen; cases hopen
  cases a with
  | nil =>
      have hblank := h.of_cons.1
      rw [tight_singleton_iff] at hblank
      simp [step, isBlank, size, quotes, State.size, State.quotes, State.read] at hblank
  | cons c a =>
      rw [List.mem_cons, not_or] at hquote
      obtain ⟨hfirst, hrest⟩ := h.of_append.1.of_cons
      obtain ⟨hplain, hcomment⟩ := plain_of_tight_delimiter (Ne.symm hquote.1) hfirst
      rw [step_delimiter_plain hplain hcomment] at hrest
      rcases plain_or_ends_of_tight hquote.2 hrest with hall | ⟨more, rest, hwords, hlength⟩
      · refine ⟨List.cons_ne_nil _ _, ?_, ?_⟩
        · exact fun hhead => hcomment (Option.some.inj hhead)
        · intro d hd
          rcases List.mem_cons.mp hd with rfl | hd
          · exact hplain
          · exact hall d hd
      · -- the first word would be shorter
        rw [run_append, run, step_delimiter_plain hplain hcomment, hwords] at heq
        have hword : c :: more = c :: a := (List.cons.inj heq).1
        rw [(List.cons.inj hword).2] at hlength
        exact absurd hlength (Nat.lt_irrefl _)

/-- Behind a quote nothing is escaped. -/
theorem run_quote_ne (s : State) (a : List Char) :
    (run s (a ++ ['\''])).2 ≠ .backslash ∧
      ∀ w, (run s (a ++ ['\''])).2 ≠ .unquotedBackslash w := by
  rw [run_append]
  show (step (run s a).2 '\'').2 ≠ _ ∧ ∀ w, (step (run s a).2 '\'').2 ≠ _
  cases (run s a).2 <;> simp [step, stepUnquoted, isBlank]

/-- A text that ends in a single quote and takes all the room that it may take. -/
theorem tight_of_split {words : List (List Char)} (h : split (a ++ ['\'']) = some words)
    (hroom : a.length + 2 + quotes words ≤ size words + (a ++ ['\'']).count '\'') :
    Tight .delimiter (a ++ ['\'']) := by
  obtain ⟨last, hlast, heq⟩ := Option.map_eq_some_iff.mp h
  subst heq
  have hle := size_run_le .delimiter (a ++ ['\''])
  have hzero : State.delimiter.quotes = 0 ∧ State.delimiter.size = 0 := ⟨rfl, rfl⟩
  rw [size_append, quotes_append] at hroom
  rw [Tight]
  rw [hzero.1, hzero.2, List.length_append, List.length_singleton] at hle ⊢
  cases hstate : (run .delimiter (a ++ ['\''])).2 with
  | delimiter =>
      rw [hstate] at hlast hle
      cases hlast
      simp only [State.size, State.quotes, State.read, size, quotes, List.flatten_nil,
        List.length_nil, List.count_nil, Option.getD_none] at hle hroom ⊢
      omega
  | comment =>
      rw [hstate] at hlast hle
      cases hlast
      simp only [State.size, State.quotes, State.read, size, quotes, List.flatten_nil,
        List.length_nil, List.count_nil, Option.getD_none] at hle hroom ⊢
      omega
  | unquoted w =>
      rw [hstate] at hlast hle
      cases hlast
      simp only [State.size, State.quotes, State.read, size, quotes, List.flatten_singleton,
        List.length_singleton, Option.getD_some] at hle hroom ⊢
      omega
  | backslash => exact absurd hstate (run_quote_ne .delimiter a).1
  | unquotedBackslash w => exact absurd hstate ((run_quote_ne .delimiter a).2 w)
  | singleQuoted w => rw [hstate] at hlast; cases hlast
  | doubleQuoted w => rw [hstate] at hlast; cases hlast
  | doubleQuotedBackslash w => rw [hstate] at hlast; cases hlast

end Size

end Words

end Distant
