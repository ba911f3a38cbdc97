import Mathlib.Data.List.Infix

/-!
# How a shell splits a command

`ShellWords.split` reads a command as a POSIX shell does before it runs anything: blanks and operators
end words, quotes and backslashes keep characters from meaning anything. Where the shell would put
something else in the place of what is written (a parameter, the output of a command, the names of
files, a home directory), or would read a comment, the command has no plain reading, and the result
is `none`.

Text is put together from pieces with blanks between them; `split_unwords` says what it is split
into when every piece is known to be read as one token.
-/

namespace Distant

namespace ShellWords

inductive ShellToken where
  | word (w : List Char)
  | op (c : Char)
  deriving DecidableEq, Repr

/-- Where a command is being read, with what has been read of a word. -/
inductive State where
  /-- between words -/
  | gap
  | word (w : List Char)
  | escaped (w : List Char)
  | single (w : List Char)
  | double (w : List Char)
  | doubleEscaped (w : List Char)
  deriving DecidableEq, Repr

def isBlank (c : Char) : Bool := [' ', '\t'].contains c

def isOperator (c : Char) : Bool := ['|', '&', ';', '<', '>', '(', ')', '\n'].contains c

/-- The characters by which something is put in the place of what is written. -/
def isExpansion (c : Char) : Bool := ['$', '`', '*', '?', '['].contains c

/-- No command has a NUL in it. -/
def nul : Char := Char.ofNat 0

/-- Reads a character that is not quoted. `w` is what has been read of a word, if there is one. -/
def stepPlain (w : Option (List Char)) (c : Char) : Option (List ShellToken × State) :=
  let ended := (w.map .word).toList
  let read := w.getD []
  if c = nul ∨ isExpansion c = true then none
  else if isBlank c then some (ended, .gap)
  else if isOperator c then some (ended ++ [.op c], .gap)
  else if c = '\\' then some ([], .escaped read)
  else if c = '\'' then some ([], .single read)
  else if c = '"' then some ([], .double read)
  else if w = none ∧ (c = '~' ∨ c = '#') then none
  else some ([], .word (read ++ [c]))

def step : State → Char → Option (List ShellToken × State)
  | .gap, c => stepPlain none c
  | .word w, c => stepPlain (some w) c
  -- a line that goes on is not read
  | .escaped w, c => if c = nul ∨ c = '\n' then none else some ([], .word (w ++ [c]))
  | .single w, c =>
    if c = nul then none
    else if c = '\'' then some ([], .word w)
    else some ([], .single (w ++ [c]))
  | .double w, c =>
    if c = nul ∨ c = '$' ∨ c = '`' then none
    else if c = '"' then some ([], .word w)
    else if c = '\\' then some ([], .doubleEscaped w)
    else some ([], .double (w ++ [c]))
  | .doubleEscaped w, c =>
    if c = nul ∨ c = '\n' then none
    else if c = '$' ∨ c = '`' ∨ c = '"' ∨ c = '\\' then some ([], .double (w ++ [c]))
    else some ([], .double (w ++ ['\\', c]))

def splitFrom : State → List Char → Option (List ShellToken × State)
  | s, [] => some ([], s)
  | s, c :: cs =>
    match step s c with
    | none => none
    | some (ts, s') =>
      match splitFrom s' cs with
      | none => none
      | some (ts', s'') => some (ts ++ ts', s'')

/-- The tokens of a command. -/
def split (command : List Char) : Option (List ShellToken) :=
  match splitFrom .gap command with
  | some (ts, .gap) => some ts
  | some (ts, .word w) => some (ts ++ [.word w])
  | _ => none

/-! ## Pieces of a command -/

theorem splitFrom_append (s : State) (p q : List Char) :
    splitFrom s (p ++ q) = (splitFrom s p).bind fun (ts, s') =>
      (splitFrom s' q).map fun (ts', s'') => (ts ++ ts', s'') := by
  induction p generalizing s with
  | nil => simp [splitFrom]
  | cons c p ih =>
      simp only [List.cons_append, splitFrom]
      cases step s c with
      | none => rfl
      | some next =>
          obtain ⟨ts, s'⟩ := next
          simp only [ih]
          cases splitFrom s' p with
          | none => rfl
          | some read =>
              obtain ⟨ts', s''⟩ := read
              simp only [Option.bind_some]
              cases splitFrom s'' q with
              | none => rfl
              | some rest => simp

/-- The piece is read as one word, wherever a word may begin. -/
def IsWord (piece w : List Char) : Prop := splitFrom .gap piece = some ([], .word w)

/-- The piece is read as `s`, at the beginning of a word or within one. -/
def Quotes (piece s : List Char) : Prop :=
  IsWord piece s ∧ ∀ w, splitFrom (.word w) piece = some ([], .word (w ++ s))

instance (piece w : List Char) : Decidable (IsWord piece w) :=
  inferInstanceAs (Decidable (splitFrom .gap piece = some ([], .word w)))

theorem IsWord.append {p q v w : List Char} (hp : IsWord p v) (hq : Quotes q w) :
    IsWord (p ++ q) (v ++ w) := by
  have hp : splitFrom .gap p = some ([], .word v) := hp
  show splitFrom .gap (p ++ q) = _
  rw [splitFrom_append, hp]
  show (splitFrom (.word v) q).map _ = _
  rw [hq.2 v]
  rfl

/-- Pieces with a blank before each. -/
def spaced (ps : List (List Char)) : List Char := ps.flatMap fun p => ' ' :: p

@[simp] theorem spaced_nil : spaced [] = [] := rfl

@[simp] theorem spaced_cons (p : List Char) (ps : List (List Char)) :
    spaced (p :: ps) = ' ' :: p ++ spaced ps := rfl

@[simp] theorem spaced_append (ps qs : List (List Char)) :
    spaced (ps ++ qs) = spaced ps ++ spaced qs := List.flatMap_append

/-- Pieces with blanks between them. -/
def unwords : List (List Char) → List Char
  | [] => []
  | p :: ps => p ++ spaced ps

/-- A piece is read as one token. -/
def IsToken (piece : List Char) : ShellToken → Prop
  | .word w => IsWord piece w
  | .op c => piece = [c] ∧ step .gap c = some ([.op c], .gap)

theorem split_single {p : List Char} {t : ShellToken} (h : IsToken p t) : split p = some [t] := by
  cases t with
  | word w =>
      have hword : splitFrom .gap p = some ([], .word w) := h
      unfold split
      rw [hword]
      rfl
  | op c =>
      obtain ⟨rfl, hop⟩ := h
      simp [split, splitFrom, hop]

theorem splitFrom_cons {p rest : List Char} {t : ShellToken} (h : IsToken p t) :
    splitFrom .gap (p ++ ' ' :: rest)
      = (splitFrom .gap rest).map fun (ts, s) => (t :: ts, s) := by
  have hblank : ∀ s : State, (s = .gap ∨ ∃ w, s = .word w) →
      splitFrom s (' ' :: rest) = (splitFrom .gap rest).map fun (ts, s') =>
        ((match s with
          | .word w => [.word w]
          | _ => []) ++ ts, s') := by
    rintro s (rfl | ⟨w, rfl⟩)
    · have hstep : step .gap ' ' = some ([], .gap) := rfl
      simp only [splitFrom, hstep]
      cases splitFrom .gap rest <;> rfl
    · have hstep : step (.word w) ' ' = some ([.word w], .gap) := rfl
      simp only [splitFrom, hstep]
      cases splitFrom .gap rest <;> rfl
  cases t with
  | word w =>
      have hword : splitFrom .gap p = some ([], .word w) := h
      rw [splitFrom_append, hword]
      show (splitFrom (.word w) (' ' :: rest)).map _ = _
      rw [hblank _ (.inr ⟨w, rfl⟩), Option.map_map]
      rfl
  | op c =>
      obtain ⟨rfl, hop⟩ := h
      have hone : splitFrom .gap [c] = some ([.op c], .gap) := by
        simp [splitFrom, hop]
      rw [splitFrom_append, hone]
      show (splitFrom .gap (' ' :: rest)).map _ = _
      rw [hblank _ (.inl rfl), Option.map_map]
      rfl

/-- A command of pieces that are each read as one token is split into these. -/
theorem split_unwords {ps : List (List Char)} {ts : List ShellToken}
    (h : List.Forall₂ IsToken ps ts) (hne : ps ≠ []) : split (unwords ps) = some ts := by
  induction h with
  | nil => exact absurd rfl hne
  | @cons p t ps ts hp hps ih =>
      cases ps with
      | nil =>
          cases hps
          have hone : unwords [p] = p := by simp [unwords]
          rw [hone]
          exact split_single hp
      | cons q ps =>
          have hrest := ih (by simp)
          have hcommand : unwords (p :: q :: ps) = p ++ ' ' :: unwords (q :: ps) := by
            simp [unwords]
          rw [hcommand]
          unfold split at hrest ⊢
          rw [splitFrom_cons hp]
          cases hsplit : splitFrom .gap (unwords (q :: ps)) with
          | none => simp [hsplit] at hrest
          | some read =>
              obtain ⟨ts', s⟩ := read
              cases s <;> simp_all

/-- A command with a NUL has no reading. -/
theorem splitFrom_nul {s : State} {p : List Char} (h : nul ∈ p) : splitFrom s p = none := by
  induction p generalizing s with
  | nil => exact absurd h List.not_mem_nil
  | cons c p ih =>
      by_cases hc : c = nul
      · have hstep : step s nul = none := by cases s <;> rfl
        simp only [splitFrom, hc, hstep]
      · have hp : nul ∈ p := by
          rcases List.mem_cons.mp h with heq | hp
          · exact absurd heq.symm hc
          · exact hp
        simp only [splitFrom]
        cases step s c with
        | none => rfl
        | some next =>
            obtain ⟨ts, s'⟩ := next
            simp only [ih hp]

theorem not_isWord_nul {p w : List Char} (h : nul ∈ p) : ¬ IsWord p w := by
  intro hword
  have hword : splitFrom .gap p = some ([], .word w) := hword
  rw [splitFrom_nul h] at hword
  cases hword

/-! ## Single quotes -/

/-- Reading on within single quotes. -/
theorem splitFrom_single {s : List Char} (hquote : '\'' ∉ s) (hnul : nul ∉ s) (w rest : List Char) :
    splitFrom (.single w) (s ++ rest) = splitFrom (.single (w ++ s)) rest := by
  induction s generalizing w with
  | nil => rw [List.nil_append, List.append_nil]
  | cons c s ih =>
      have hc : c ≠ nul := fun heq => hnul (by simp [heq])
      have hc' : c ≠ '\'' := fun heq => hquote (by simp [heq])
      have hstep : step (.single w) c = some ([], .single (w ++ [c])) := by
        simp [step, hc, hc']
      have hrest := ih (fun h => hquote (by simp [h])) (fun h => hnul (by simp [h])) (w ++ [c])
      rw [List.append_assoc, List.singleton_append] at hrest
      rw [List.cons_append, ← hrest]
      simp only [splitFrom, hstep]
      cases splitFrom (.single (w ++ [c])) (s ++ rest) <;> rfl

/-- A text in single quotes is read as it is, if it has no single quote and no NUL. -/
theorem isWord_single {s : List Char} (hquote : '\'' ∉ s) (hnul : nul ∉ s) :
    IsWord ('\'' :: s ++ ['\'']) s := by
  have hopen : step .gap '\'' = some ([], .single []) := rfl
  have hclose : step (.single s) '\'' = some ([], .word s) := rfl
  show splitFrom .gap ('\'' :: (s ++ ['\''])) = _
  simp only [splitFrom, hopen, splitFrom_single hquote hnul, List.nil_append, hclose]

/-- How much of a word has been read. -/
def State.length : State → Nat
  | .gap => 0
  | .word w => w.length
  | .escaped w => w.length
  | .single w => w.length
  | .double w => w.length
  -- the backslash may be kept
  | .doubleEscaped w => w.length + 1

theorem length_step {s s' : State} {c : Char} (h : step s c = some ([], s')) :
    s'.length ≤ s.length + 1 := by
  cases s <;> simp only [step, stepPlain] at h <;> repeat' split at h
  -- what is left are the states that the character leads to without ending a word
  all_goals cases h
  all_goals simp [State.length]

/-- A word does not become longer than what is written for it. -/
theorem length_le_of_splitFrom {s s' : State} {p : List Char}
    (h : splitFrom s p = some ([], s')) : s'.length ≤ s.length + p.length := by
  induction p generalizing s with
  | nil =>
      cases h
      exact Nat.le_refl _
  | cons c p ih =>
      simp only [splitFrom] at h
      cases hstep : step s c with
      | none => simp [hstep] at h
      | some next =>
          obtain ⟨ts, s₁⟩ := next
          simp only [hstep] at h
          cases hrest : splitFrom s₁ p with
          | none => simp [hrest] at h
          | some read =>
              obtain ⟨ts', s₂⟩ := read
              simp only [hrest, Option.some.injEq, Prod.mk.injEq, List.append_eq_nil_iff] at h
              obtain ⟨⟨rfl, rfl⟩, rfl⟩ := h
              have hle := ih hrest
              have hone : s₁.length ≤ s.length + 1 := length_step hstep
              rw [List.length_cons]
              omega

theorem step_word {w : List Char} {s' : State} {c : Char} (h : step (.word w) c = some ([], s')) :
    (c ≠ '\'' ∧ s' = .word (w ++ [c])) ∨ s'.length ≤ w.length := by
  simp only [step, stepPlain] at h
  repeat' split at h
  all_goals cases h
  · exact .inr (by simp [State.length])
  · exact .inr (by simp [State.length])
  · exact .inr (by simp [State.length])
  · rename_i hquote _ _
    exact .inl ⟨hquote, rfl⟩

/-- Where a word becomes longer with every character, none of them is a quote. -/
theorem not_mem_of_length {w v p : List Char} (h : splitFrom (.word w) p = some ([], .word v))
    (hlength : v.length = w.length + p.length) : '\'' ∉ p := by
  induction p generalizing w with
  | nil => exact List.not_mem_nil
  | cons c p ih =>
      simp only [splitFrom] at h
      cases hstep : step (.word w) c with
      | none => simp [hstep] at h
      | some next =>
          obtain ⟨ts, s₁⟩ := next
          simp only [hstep] at h
          cases hrest : splitFrom s₁ p with
          | none => simp [hrest] at h
          | some read =>
              obtain ⟨ts', s₂⟩ := read
              simp only [hrest, Option.some.injEq, Prod.mk.injEq, List.append_eq_nil_iff] at h
              obtain ⟨⟨rfl, rfl⟩, rfl⟩ := h
              rw [List.length_cons] at hlength
              rcases step_word hstep with ⟨hc, rfl⟩ | hshort
              · have hp := ih hrest (by rw [List.length_append, List.length_singleton]; omega)
                intro hmem
                rcases List.mem_cons.mp hmem with heq | hmem
                · exact hc heq.symm
                · exact hp hmem
              · have hle := length_le_of_splitFrom hrest
                have hv : (State.word v).length = v.length := rfl
                omega

/-- Only what has no single quote is read as it is in single quotes. -/
theorem not_mem_of_isWord_single {s : List Char} (h : IsWord ('\'' :: s ++ ['\'']) s) :
    '\'' ∉ s := by
  intro hquote
  obtain ⟨a, b, rfl, ha⟩ := List.eq_append_cons_of_mem hquote
  have hnul : nul ∉ a := fun hmem => not_isWord_nul (by simp [hmem]) h
  have hword : splitFrom (.word a) (b ++ ['\'']) = some ([], .word (a ++ '\'' :: b)) := by
    have hopen : step .gap '\'' = some ([], .single []) := rfl
    have hclose : step (.single a) '\'' = some ([], .word a) := rfl
    have hread : splitFrom .gap ('\'' :: (a ++ '\'' :: (b ++ ['\''])))
        = some ([], .word (a ++ '\'' :: b)) := by
      simpa [IsWord] using h
    simp only [splitFrom, hopen, splitFrom_single ha hnul, List.nil_append, hclose] at hread
    cases hrest : splitFrom (.word a) (b ++ ['\'']) with
    | none => simp [hrest] at hread
    | some read =>
        obtain ⟨ts, s'⟩ := read
        simpa [hrest] using hread
  have hlength : (a ++ '\'' :: b).length = a.length + (b ++ ['\'']).length := by
    simp only [List.length_append, List.length_cons, List.length_nil]
  exact not_mem_of_length hword hlength (by simp)

/-- Single quotes around a text, with every single quote in it put outside of them. -/
def quoteSingle (s : List Char) : List Char :=
  '\'' :: (s.flatMap fun c => if c = '\'' then ['\'', '\\', '\'', '\''] else [c]) ++ ['\'']

theorem quotes_quoteSingle {s : List Char} (hnul : nul ∉ s) : Quotes (quoteSingle s) s := by
  have hinside : ∀ w, splitFrom (.single w)
      ((s.flatMap fun c => if c = '\'' then ['\'', '\\', '\'', '\''] else [c]) ++ ['\''])
        = some ([], .word (w ++ s)) := by
    induction s with
    | nil => intro w; simp [splitFrom, step, nul]
    | cons c s ih =>
        intro w
        have hrest := ih (fun h => hnul (by simp [h])) (w ++ [c])
        by_cases hc : c = '\''
        · -- out of the quotes, the quote itself, and into them again
          have h₁ : step (.single w) '\'' = some ([], .word w) := rfl
          have h₂ : step (.word w) '\\' = some ([], .escaped w) := rfl
          have h₃ : step (.escaped w) '\'' = some ([], .word (w ++ ['\''])) := rfl
          have h₄ : step (.word (w ++ ['\''])) '\'' = some ([], .single (w ++ ['\''])) := rfl
          subst hc
          simp only [List.flatMap_cons, if_true, List.cons_append, List.nil_append, splitFrom, h₁, h₂,
            h₃, h₄, hrest]
          simp
        · have hc' : c ≠ nul := fun heq => hnul (by simp [heq])
          have hstep : step (.single w) c = some ([], .single (w ++ [c])) := by
            simp [step, hc, hc']
          simp only [List.flatMap_cons, hc, if_false, List.cons_append, List.nil_append, splitFrom,
            hstep, hrest]
          simp
  constructor
  · have hopen : step .gap '\'' = some ([], .single []) := rfl
    unfold IsWord quoteSingle
    rw [List.cons_append]
    simp only [splitFrom, hopen, hinside []]
    rfl
  · intro w
    have hopen : step (.word w) '\'' = some ([], .single w) := rfl
    unfold quoteSingle
    rw [List.cons_append]
    simp only [splitFrom, hopen, hinside w]
    rfl

theorem mem_quoteSingle {s : List Char} {c : Char} (h : c ∈ s) : c ∈ quoteSingle s := by
  unfold quoteSingle
  refine List.mem_append_left _ (List.mem_cons_of_mem _ (List.mem_flatMap.mpr ⟨c, h, ?_⟩))
  split
  · simp_all
  · simp

/-! ## Plain text -/

/-- The characters that mean nothing to a shell. -/
def isPlain (c : Char) : Bool :=
  !(c == nul || isExpansion c || isBlank c || isOperator c || ['\\', '\'', '"', '~', '#'].contains c)

def isPlainText (s : List Char) : Bool := !s.isEmpty && s.all isPlain

theorem isPlainText_iff (s : List Char) :
    isPlainText s = true ↔ s ≠ [] ∧ ∀ c ∈ s, isPlain c = true := by
  simp [isPlainText]

/-- A text of such characters is read as it is. -/
theorem quotes_plain {s : List Char} (hplain : isPlainText s = true) : Quotes s s := by
  obtain ⟨hne, h⟩ := (isPlainText_iff s).mp hplain
  have hstep : ∀ (w : Option (List Char)) (c : Char), isPlain c = true →
      stepPlain w c = some ([], .word (w.getD [] ++ [c])) := by
    intro w c hc
    simp only [isPlain, Bool.not_eq_true', Bool.or_eq_false_iff, beq_eq_false_iff_ne,
      List.contains_eq_mem, List.mem_cons, decide_eq_false_iff_not, not_or, List.not_mem_nil,
      not_false_eq_true, and_true] at hc
    obtain ⟨⟨⟨⟨h₁, h₂⟩, h₃⟩, h₄⟩, h₅, h₆, h₇, h₈, h₉⟩ := hc
    simp [stepPlain, h₁, h₂, h₃, h₄, h₅, h₆, h₇, h₈, h₉]
  have hword : ∀ (s : List Char), (∀ c ∈ s, isPlain c = true) → ∀ w,
      splitFrom (.word w) s = some ([], .word (w ++ s)) := by
    intro s
    induction s with
    | nil => intro _ w; simp [splitFrom]
    | cons c s ih =>
        intro h w
        have hc : step (.word w) c = some ([], .word (w ++ [c])) := hstep (some w) c (h c (by simp))
        simp only [splitFrom, hc, ih (fun c' hc' => h c' (by simp [hc'])) (w ++ [c])]
        simp
  refine ⟨?_, hword s h⟩
  cases s with
  | nil => exact absurd rfl hne
  | cons c s =>
      have hc : step .gap c = some ([], .word [c]) := hstep none c (h c (by simp))
      unfold IsWord
      simp only [splitFrom, hc, hword s (fun c' hc' => h c' (by simp [hc'])) [c]]
      rfl

end ShellWords

end Distant
