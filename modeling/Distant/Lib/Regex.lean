import Mathlib.Data.List.Infix

/-!
# Regular expressions and the two ways of writing them

`Regex` is what a pattern means, on one line of text. A pattern is read in two passes, both from
left to right: `lex` splits it into tokens, and `parse` makes alternatives of these, with a stack of
the groups that are open.

The extended syntax is the part that the usual engines share with POSIX: characters, escaped
punctuation, `.`, bracket expressions, the anchors, groups, alternatives and repetitions. In the
basic syntax `+`, `?`, `|`, the braces and the parentheses stand for themselves, and are operators
when a backslash is put in front of them. What only some engines read, or what they read in
different ways, is not understood.
-/

namespace Distant

/-! ## What a pattern means -/

/-- How often something is repeated; `none` is without bound. -/
structure Quantifier where
  least : Nat
  most : Option Nat
  deriving DecidableEq, Repr

/-- The characters that a bracket expression lists, as ranges, or all others. -/
structure CharSet where
  negated : Bool
  ranges : List (Char × Char)
  deriving DecidableEq, Repr

def CharSet.contains (s : CharSet) (c : Char) : Bool :=
  s.negated != s.ranges.any fun (a, b) => decide (a ≤ c ∧ c ≤ b)

inductive Regex where
  | empty
  | fail
  | lit (c : Char)
  | any
  | set (s : CharSet)
  | bol
  | eol
  | cat (r s : Regex)
  | alt (r s : Regex)
  | rep (q : Quantifier) (r : Regex)
  deriving DecidableEq, Repr

namespace Regex

/-- `n` matches of something, one after the other. -/
def Power (M : List Char → List Char → List Char → Prop) :
    Nat → List Char → List Char → List Char → Prop
  | 0, _, mid, _ => mid = []
  | n + 1, pre, mid, post =>
    ∃ m₁ m₂, mid = m₁ ++ m₂ ∧ M pre m₁ (m₂ ++ post) ∧ Power M n (pre ++ m₁) m₂ post

/-- The expression matches `mid` on the line `pre ++ mid ++ post`. -/
def Matches : Regex → List Char → List Char → List Char → Prop
  | empty, _, mid, _ => mid = []
  | fail, _, _, _ => False
  | lit c, _, mid, _ => mid = [c]
  | any, _, mid, _ => ∃ c, mid = [c]
  | set s, _, mid, _ => ∃ c, mid = [c] ∧ s.contains c = true
  | bol, pre, mid, _ => pre = [] ∧ mid = []
  | eol, _, mid, post => mid = [] ∧ post = []
  | cat r s, pre, mid, post =>
    ∃ m₁ m₂, mid = m₁ ++ m₂ ∧ Matches r pre m₁ (m₂ ++ post) ∧ Matches s (pre ++ m₁) m₂ post
  | alt r s, pre, mid, post => Matches r pre mid post ∨ Matches s pre mid post
  | rep q r, pre, mid, post =>
    ∃ n, q.least ≤ n ∧ (∀ m, q.most = some m → n ≤ m) ∧ Power (Matches r) n pre mid post

/-- One expression after the other. -/
def catAll (rs : List Regex) : Regex := rs.foldr cat empty

/-- Any of some expressions. -/
def altAll (rs : List Regex) : Regex := rs.foldr alt fail

end Regex

/-- The alternatives of a pattern, each a sequence of expressions. -/
abbrev Alternatives := List (List Regex)

/-- A sequence is found somewhere on a line. -/
def Found (rs : List Regex) (line : List Char) : Prop :=
  ∃ pre mid post, line = pre ++ mid ++ post ∧ (Regex.catAll rs).Matches pre mid post

/-- One of the alternatives is found on a line. -/
def Search (alts : Alternatives) (line : List Char) : Prop := ∃ rs ∈ alts, Found rs line

/-! ## Tokens -/

inductive Dialect where
  | extended
  | basic
  deriving DecidableEq, Repr

inductive RegexToken where
  | lit (c : Char)
  | any
  | set (s : CharSet)
  | caret
  | dollar
  /-- a repetition, and the character that it stands for where nothing can be repeated -/
  | repeats (q : Quantifier) (literal : Option Char)
  | open
  | close
  | bar
  deriving DecidableEq, Repr

/-- What has been read of a bracket expression. -/
structure Bracket where
  negated : Bool
  ranges : List (Char × Char)
  /-- a character that may begin a range -/
  last : Option Char
  /-- a dash after it -/
  dash : Bool
  /-- nothing has been read but the caret -/
  first : Bool
  /-- not even that -/
  start : Bool
  deriving DecidableEq, Repr

/-- Where a pattern is being read. -/
inductive LexMode where
  | normal
  | escaped
  | bracket (b : Bracket)
  /-- within the braces of a repetition -/
  | braces (least : Option Nat) (comma : Bool) (most : Option Nat)
  /-- after a backslash within them -/
  | bracesEscaped (q : Quantifier)
  deriving DecidableEq, Repr

/-- The characters that have a meaning in one of the dialects, or within brackets. -/
def isMeta (c : Char) : Bool :=
  ['\\', '.', '+', '*', '?', '(', ')', '|', '[', ']', '{', '}', '^', '$', '#', '&', '-', '~'].contains c

/-- The characters that are operators in the extended syntax, and escaped in the basic one. -/
def isSwitched (c : Char) : Bool := ['+', '?', '(', ')', '|', '{', '}'].contains c

/-- What an operator reads as. -/
def switchedToken : Char → Option (List RegexToken × LexMode)
  | '+' => some ([.repeats ⟨1, none⟩ (some '+')], .normal)
  | '?' => some ([.repeats ⟨0, some 1⟩ (some '?')], .normal)
  | '(' => some ([.open], .normal)
  | ')' => some ([.close], .normal)
  | '|' => some ([.bar], .normal)
  | '{' => some ([], .braces none false none)
  | _ => none

def Bracket.close (b : Bracket) : CharSet :=
  ⟨b.negated, b.ranges ++ (b.last.map fun c => (c, c)).toList ++ if b.dash then [('-', '-')] else []⟩

/-- Reads a character within brackets. A backslash, an opening bracket, and the operators on sets
that some engines have are not understood. -/
def Bracket.step (b : Bracket) (c : Char) : Option (List RegexToken × LexMode) :=
  if c = '^' ∧ b.start = true then
    some ([], .bracket { b with negated := true, start := false })
  else if c = ']' ∧ b.first = false then some ([.set b.close], .normal)
  else if c = '\\' ∨ c = '[' ∨ c = '&' ∨ c = '~' ∨ c = '\n' then none
  else
    match b.last, b.dash with
    | some a, true =>
      if c = '-' then none
      else some ([], .bracket ⟨b.negated, b.ranges ++ [(a, c)], none, false, false, false⟩)
    | some a, false =>
      if c = '-' then some ([], .bracket { b with dash := true, first := false, start := false })
      else some ([], .bracket ⟨b.negated, b.ranges ++ [(a, a)], some c, false, false, false⟩)
    | none, _ =>
      if c = '-' then some ([], .bracket ⟨b.negated, b.ranges ++ [('-', '-')], none, false, false, false⟩)
      else some ([], .bracket ⟨b.negated, b.ranges, some c, false, false, false⟩)

def digit? (c : Char) : Option Nat := if c.isDigit then some (c.toNat - '0'.toNat) else none

/-- Reads a character within the braces of a repetition. -/
def bracesStep (d : Dialect) (least : Option Nat) (comma : Bool) (most : Option Nat) (c : Char) :
    Option (List RegexToken × LexMode) :=
  match digit? c, least with
  | some n, _ =>
    if comma then some ([], .braces least true (some (most.getD 0 * 10 + n)))
    else some ([], .braces (some (least.getD 0 * 10 + n)) false none)
  | none, none => none
  | none, some m =>
    let q : Quantifier := ⟨m, if comma then most else some m⟩
    if c = ',' ∧ comma = false then some ([], .braces least true none)
    else if c = '}' ∧ d = .extended then some ([.repeats q none], .normal)
    else if c = '\\' ∧ d = .basic then some ([], .bracesEscaped q)
    else none

/-- Reads a character. -/
def lexStep (d : Dialect) : LexMode → Char → Option (List RegexToken × LexMode)
  | .normal, c =>
    if c = '\n' then none
    else if c = '\\' then some ([], .escaped)
    else if c = '.' then some ([.any], .normal)
    else if c = '[' then some ([], .bracket ⟨false, [], none, false, true, true⟩)
    else if c = '*' then some ([.repeats ⟨0, none⟩ (some '*')], .normal)
    else if c = '^' then some ([.caret], .normal)
    else if c = '$' then some ([.dollar], .normal)
    else if isSwitched c && c != '}' && d == .extended then switchedToken c
    else some ([.lit c], .normal)
  | .escaped, c =>
    if isSwitched c && d == .basic then switchedToken c
    else if isMeta c then some ([.lit c], .normal)
    else none
  | .bracket b, c => b.step c
  | .braces least comma most, c => bracesStep d least comma most c
  | .bracesEscaped q, c => if c = '}' then some ([.repeats q none], .normal) else none

/-- Reads a pattern from some point on. -/
def lexFrom (d : Dialect) : LexMode → List Char → Option (List RegexToken × LexMode)
  | m, [] => some ([], m)
  | m, c :: cs =>
    match lexStep d m c with
    | none => none
    | some (ts, m') =>
      match lexFrom d m' cs with
      | none => none
      | some (ts', m'') => some (ts ++ ts', m'')

def lex (d : Dialect) (p : List Char) : Option (List RegexToken) :=
  match lexFrom d .normal p with
  | some (ts, .normal) => some ts
  | _ => none

/-! ## Alternatives -/

/-- What has been read of a group, or of the whole pattern. -/
structure GroupFrame where
  alts : Alternatives
  seq : List Regex
  /-- a `$` was read, which is an anchor in the basic syntax only if nothing follows -/
  dollar : Bool
  deriving DecidableEq, Repr

namespace GroupFrame

def empty : GroupFrame := ⟨[], [], false⟩

def flush (f : GroupFrame) : GroupFrame :=
  if f.dollar then { f with seq := f.seq ++ [.lit '$'], dollar := false } else f

def push (f : GroupFrame) (r : Regex) : GroupFrame := { f.flush with seq := f.flush.seq ++ [r] }

def close (f : GroupFrame) : Alternatives :=
  f.alts ++ [if f.dollar then f.seq ++ [.eol] else f.seq]

/-- Repeats what was read last. -/
def repeats (f : GroupFrame) (d : Dialect) (q : Quantifier) (literal : Option Char) :
    Option GroupFrame :=
  let f := f.flush
  match f.seq.getLast? with
  | some .bol => if d = .basic then literal.map fun c => f.push (.lit c) else none
  | some .eol => none
  | some r => some { f with seq := f.seq.dropLast ++ [.rep q r] }
  | none => if d = .basic then literal.map fun c => f.push (.lit c) else none

def caret (f : GroupFrame) (d : Dialect) : GroupFrame :=
  if d = .extended ∨ f.flush.seq = [] then f.push .bol else f.push (.lit '^')

def onDollar (f : GroupFrame) (d : Dialect) : GroupFrame :=
  if d = .extended then f.push .eol else { f.flush with dollar := true }

end GroupFrame

/-- The groups that are open, and the one that is being read. -/
abbrev ParseState := List GroupFrame × GroupFrame

def parseStep (d : Dialect) : ParseState → RegexToken → Option ParseState
  | (frames, f), .lit c => some (frames, f.push (.lit c))
  | (frames, f), .any => some (frames, f.push .any)
  | (frames, f), .set s => some (frames, f.push (.set s))
  | (frames, f), .caret => some (frames, f.caret d)
  | (frames, f), .dollar => some (frames, f.onDollar d)
  | (frames, f), .repeats q literal => (f.repeats d q literal).map fun f => (frames, f)
  | (frames, f), .open => some (f :: frames, .empty)
  | ([], _), .close => none
  | (g :: frames, f), .close => some (frames, g.push (.altAll (f.close.map Regex.catAll)))
  | (frames, f), .bar => some (frames, ⟨f.close, [], false⟩)

def parseFrom (d : Dialect) : ParseState → List RegexToken → Option ParseState
  | s, [] => some s
  | s, t :: ts =>
    match parseStep d s t with
    | none => none
    | some s' => parseFrom d s' ts

/-- The alternatives of a pattern, if it is understood. -/
def parse (d : Dialect) (p : List Char) : Option Alternatives :=
  match lex d p with
  | none => none
  | some ts =>
    match parseFrom d ([], .empty) ts with
    | some ([], f) => some f.close
    | _ => none

/-! ## Searching -/

namespace Regex

theorem catAll_append (rs ss : List Regex) (pre mid post : List Char) :
    (catAll (rs ++ ss)).Matches pre mid post ↔ ∃ m₁ m₂, mid = m₁ ++ m₂ ∧
      (catAll rs).Matches pre m₁ (m₂ ++ post) ∧ (catAll ss).Matches (pre ++ m₁) m₂ post := by
  induction rs generalizing pre mid with
  | nil =>
      constructor
      · intro h
        exact ⟨[], mid, rfl, rfl, by simpa using h⟩
      · rintro ⟨m₁, m₂, rfl, hnil, h⟩
        obtain rfl : m₁ = [] := hnil
        simpa using h
  | cons r rs ih =>
      constructor
      · rintro ⟨m₁, m₂, rfl, hr, h⟩
        obtain ⟨m₃, m₄, rfl, hrs, hss⟩ := (ih _ _).mp h
        refine ⟨m₁ ++ m₃, m₄, by simp, ⟨m₁, m₃, rfl, by simpa using hr, hrs⟩, by simpa using hss⟩
      · rintro ⟨_, m₄, rfl, ⟨m₁, m₃, rfl, hr, hrs⟩, hss⟩
        refine ⟨m₁, m₃ ++ m₄, by simp, by simpa using hr, (ih _ _).mpr ?_⟩
        exact ⟨m₃, m₄, rfl, hrs, by simpa using hss⟩

theorem catAll_lits (v pre mid post : List Char) :
    (catAll (v.map lit)).Matches pre mid post ↔ mid = v := by
  induction v generalizing pre mid with
  | nil => rfl
  | cons c v ih =>
      constructor
      · rintro ⟨m₁, m₂, rfl, hc, h⟩
        obtain rfl : m₁ = [c] := hc
        rw [(ih _ _).mp h]
        rfl
      · rintro rfl
        exact ⟨[c], v, rfl, rfl, (ih _ _).mpr rfl⟩

theorem catAll_single (r : Regex) (pre mid post : List Char) :
    (catAll [r]).Matches pre mid post ↔ r.Matches pre mid post := by
  constructor
  · rintro ⟨m₁, m₂, rfl, hr, hnil⟩
    obtain rfl : m₂ = [] := hnil
    simpa using hr
  · intro h
    exact ⟨mid, [], by simp, by simpa using h, rfl⟩

end Regex

theorem search_append (as bs : Alternatives) (line : List Char) :
    Search (as ++ bs) line ↔ Search as line ∨ Search bs line := by
  unfold Search
  constructor
  · rintro ⟨rs, hmem, hfound⟩
    rcases List.mem_append.mp hmem with h | h
    · exact .inl ⟨rs, h, hfound⟩
    · exact .inr ⟨rs, h, hfound⟩
  · rintro (⟨rs, hmem, hfound⟩ | ⟨rs, hmem, hfound⟩)
    · exact ⟨rs, List.mem_append_left _ hmem, hfound⟩
    · exact ⟨rs, List.mem_append_right _ hmem, hfound⟩

theorem search_single (rs : List Regex) (line : List Char) : Search [rs] line ↔ Found rs line := by
  unfold Search
  simp

/-- An anchor, or nothing. -/
def anchor (on : Bool) (r : Regex) : List Regex := if on then [r] else []

/-- A literal text, anchored at its beginning, at its end, at both, or at neither. -/
def literal (first last : Bool) (v : List Char) : List Regex :=
  anchor first .bol ++ v.map .lit ++ anchor last .eol

/-- A line has a text at its beginning, at its end, both, or anywhere. -/
def HasText (first last : Bool) (v line : List Char) : Prop :=
  ∃ pre post, line = pre ++ v ++ post ∧ (first = true → pre = []) ∧ (last = true → post = [])

theorem anchor_bol (on : Bool) (pre mid post : List Char) :
    (Regex.catAll (anchor on .bol)).Matches pre mid post ↔ mid = [] ∧ (on = true → pre = []) := by
  cases on with
  | false =>
      simp only [Bool.false_eq_true, false_imp_iff, and_true]
      exact Iff.rfl
  | true =>
      refine (Regex.catAll_single ..).trans ⟨fun h => ⟨h.2, fun _ => h.1⟩, fun h => ⟨h.2 rfl, h.1⟩⟩

theorem anchor_eol (on : Bool) (pre mid post : List Char) :
    (Regex.catAll (anchor on .eol)).Matches pre mid post ↔ mid = [] ∧ (on = true → post = []) := by
  cases on with
  | false =>
      simp only [Bool.false_eq_true, false_imp_iff, and_true]
      exact Iff.rfl
  | true =>
      refine (Regex.catAll_single ..).trans ⟨fun h => ⟨h.1, fun _ => h.2⟩, fun h => ⟨h.1, h.2 rfl⟩⟩

theorem found_literal (first last : Bool) (v line : List Char) :
    Found (literal first last v) line ↔ HasText first last v line := by
  unfold Found literal
  constructor
  · rintro ⟨pre, mid, post, rfl, h⟩
    obtain ⟨_, m₃, rfl, h₁, h₃⟩ := (Regex.catAll_append ..).mp h
    obtain ⟨m₁, m₂, rfl, h₁, h₂⟩ := (Regex.catAll_append ..).mp h₁
    obtain ⟨rfl, hfirst⟩ := (anchor_bol ..).mp h₁
    obtain rfl := (Regex.catAll_lits ..).mp h₂
    obtain ⟨rfl, hlast⟩ := (anchor_eol ..).mp h₃
    exact ⟨pre, post, by simp, hfirst, hlast⟩
  · rintro ⟨pre, post, rfl, hfirst, hlast⟩
    refine ⟨pre, v, post, rfl, (Regex.catAll_append ..).mpr ⟨v, [], by simp, ?_, ?_⟩⟩
    · refine (Regex.catAll_append ..).mpr ⟨[], v, rfl, ?_, (Regex.catAll_lits ..).mpr rfl⟩
      exact (anchor_bol ..).mpr ⟨rfl, hfirst⟩
    · exact (anchor_eol ..).mpr ⟨rfl, hlast⟩

/-- The empty sequence is found on every line. -/
theorem found_nil (line : List Char) : Found [] line := ⟨[], [], line, rfl, rfl⟩

theorem power_any (line pre post : List Char) :
    Regex.Power (Regex.any).Matches line.length pre line post := by
  induction line generalizing pre with
  | nil => rfl
  | cons c line ih => exact ⟨[c], line, rfl, ⟨c, rfl⟩, ih _⟩

/-- So is `.*`. -/
theorem found_star_any (line : List Char) : Found [.rep ⟨0, none⟩ .any] line := by
  refine ⟨[], line, [], by simp, (Regex.catAll_single ..).mpr ?_⟩
  exact ⟨line.length, Nat.zero_le _, nofun, power_any line [] []⟩

/-! ## Reading patterns -/

theorem lexFrom_append (d : Dialect) (m : LexMode) (p q : List Char) :
    lexFrom d m (p ++ q) = (lexFrom d m p).bind fun (ts, m') =>
      (lexFrom d m' q).map fun (ts', m'') => (ts ++ ts', m'') := by
  induction p generalizing m with
  | nil => simp [lexFrom]
  | cons c p ih =>
      simp only [List.cons_append, lexFrom]
      cases lexStep d m c with
      | none => rfl
      | some step =>
          obtain ⟨ts, m'⟩ := step
          simp only [ih]
          cases lexFrom d m' p with
          | none => rfl
          | some read =>
              obtain ⟨ts', m''⟩ := read
              simp only [Option.bind_some]
              cases lexFrom d m'' q with
              | none => rfl
              | some rest => simp

theorem lex_eq_some {d : Dialect} {p : List Char} {ts : List RegexToken} (h : lex d p = some ts) :
    lexFrom d .normal p = some (ts, .normal) := by
  unfold lex at h
  split at h
  · cases h
    assumption
  · cases h

theorem lex_append {d : Dialect} {p q : List Char} {ts ts' : List RegexToken} (hp : lex d p = some ts)
    (hq : lex d q = some ts') : lex d (p ++ q) = some (ts ++ ts') := by
  have h : lexFrom d .normal (p ++ q) = some (ts ++ ts', .normal) := by
    rw [lexFrom_append, lex_eq_some hp]
    show (lexFrom d .normal q).map _ = _
    rw [lex_eq_some hq]
    rfl
  unfold lex
  rw [h]

theorem parseFrom_append (d : Dialect) (s : ParseState) (ts ts' : List RegexToken) :
    parseFrom d s (ts ++ ts') = (parseFrom d s ts).bind fun s' => parseFrom d s' ts' := by
  induction ts generalizing s with
  | nil => rfl
  | cons t ts ih =>
      simp only [List.cons_append, parseFrom]
      cases parseStep d s t with
      | none => rfl
      | some s' => exact ih s'

/-! ### Alternatives in front -/

namespace GroupFrame

def addAlts (as : Alternatives) (f : GroupFrame) : GroupFrame := { f with alts := as ++ f.alts }

variable (as : Alternatives) (f : GroupFrame)

theorem addAlts_flush : (f.addAlts as).flush = f.flush.addAlts as := by
  unfold flush addAlts
  split <;> rfl

theorem addAlts_push (r : Regex) : (f.addAlts as).push r = (f.push r).addAlts as := by
  unfold push
  rw [addAlts_flush]
  rfl

theorem addAlts_close : (f.addAlts as).close = as ++ f.close := by
  unfold close addAlts
  rw [List.append_assoc]

theorem addAlts_caret (d : Dialect) : (f.addAlts as).caret d = (f.caret d).addAlts as := by
  unfold caret
  rw [addAlts_flush, addAlts_push, addAlts_push]
  show (if d = .extended ∨ f.flush.seq = [] then _ else _) = _
  split <;> rfl

theorem addAlts_onDollar (d : Dialect) : (f.addAlts as).onDollar d = (f.onDollar d).addAlts as := by
  unfold onDollar
  rw [addAlts_flush, addAlts_push]
  split <;> rfl

theorem addAlts_repeats (d : Dialect) (q : Quantifier) (literal : Option Char) :
    (f.addAlts as).repeats d q literal = (f.repeats d q literal).map (addAlts as) := by
  have hliteral : ∀ g : GroupFrame,
      (if d = .basic then literal.map fun c => (g.addAlts as).push (.lit c)
      else none) = (if d = .basic then literal.map fun c => g.push (.lit c) else none).map
        (addAlts as) := by
    intro g
    split
    · cases literal with
      | none => rfl
      | some c => exact congrArg some (addAlts_push as g _)
    · rfl
  have hseq : (f.flush.addAlts as).seq = f.flush.seq := rfl
  unfold repeats
  simp only [addAlts_flush, hseq]
  cases f.flush.seq.getLast? with
  | none => exact hliteral f.flush
  | some r =>
      cases r with
      | bol => exact hliteral f.flush
      | _ => rfl

end GroupFrame

/-- Puts alternatives in front of those of the whole pattern. -/
def addAlts (as : Alternatives) : List GroupFrame → GroupFrame → ParseState
  | [], f => ([], f.addAlts as)
  | g :: frames, f => ((addAlts as frames g).2 :: (addAlts as frames g).1, f)

theorem addAlts_push (as : Alternatives) (frames : List GroupFrame) (f : GroupFrame) (r : Regex) :
    addAlts as frames (f.push r) = ((addAlts as frames f).1, (addAlts as frames f).2.push r) := by
  cases frames with
  | nil => exact congrArg (Prod.mk []) (f.addAlts_push as r).symm
  | cons g frames => rfl

theorem parseStep_addAlts (d : Dialect) (as : Alternatives) (frames : List GroupFrame)
    (f : GroupFrame) (t : RegexToken) :
    parseStep d (addAlts as frames f) t
      = (parseStep d (frames, f) t).map fun s => addAlts as s.1 s.2 := by
  cases t with
  | lit c => exact congrArg some (addAlts_push as frames f _).symm
  | any => exact congrArg some (addAlts_push as frames f _).symm
  | set s => exact congrArg some (addAlts_push as frames f _).symm
  | caret =>
      cases frames with
      | nil => exact congrArg (fun g => some ([], g)) (f.addAlts_caret as d)
      | cons g frames => rfl
  | dollar =>
      cases frames with
      | nil => exact congrArg (fun g => some ([], g)) (f.addAlts_onDollar as d)
      | cons g frames => rfl
  | repeats q literal =>
      cases frames with
      | nil =>
          show ((f.addAlts as).repeats d q literal).map _ = ((f.repeats d q literal).map _).map _
          rw [GroupFrame.addAlts_repeats, Option.map_map, Option.map_map]
          rfl
      | cons g frames =>
          show (f.repeats d q literal).map _ = ((f.repeats d q literal).map _).map _
          rw [Option.map_map]
          rfl
  | «open» => cases frames <;> rfl
  | close =>
      cases frames with
      | nil => rfl
      | cons g frames => exact congrArg some (addAlts_push as frames g _).symm
  | bar =>
      cases frames with
      | nil =>
          show some ([], GroupFrame.mk (f.addAlts as).close [] false) = _
          rw [GroupFrame.addAlts_close]
          rfl
      | cons g frames => rfl

theorem parseFrom_addAlts (d : Dialect) (as : Alternatives) (frames : List GroupFrame)
    (f : GroupFrame) (ts : List RegexToken) :
    parseFrom d (addAlts as frames f) ts
      = (parseFrom d (frames, f) ts).map fun s => addAlts as s.1 s.2 := by
  induction ts generalizing frames f with
  | nil => rfl
  | cons t ts ih =>
      simp only [parseFrom]
      rw [parseStep_addAlts]
      cases parseStep d (frames, f) t with
      | none => rfl
      | some s => exact ih s.1 s.2

theorem parse_eq_some {d : Dialect} {p : List Char} {as : Alternatives} (h : parse d p = some as) :
    ∃ ts f, lex d p = some ts ∧ parseFrom d ([], .empty) ts = some ([], f) ∧ f.close = as := by
  unfold parse at h
  split at h
  · cases h
  · next ts hlex =>
      split at h
      · next f hparse => exact ⟨ts, f, hlex, hparse, Option.some.inj h⟩
      · cases h

theorem parse_of_lex {d : Dialect} {p : List Char} {ts : List RegexToken} {f : GroupFrame}
    (hlex : lex d p = some ts) (hparse : parseFrom d ([], .empty) ts = some ([], f)) :
    parse d p = some f.close := by
  unfold parse
  rw [hlex]
  simp only [hparse]

/-- The alternatives of two patterns with a bar between them are those of both. -/
theorem parse_bar {p q : List Char} {as bs : Alternatives} (hp : parse .extended p = some as)
    (hq : parse .extended q = some bs) : parse .extended (p ++ '|' :: q) = some (as ++ bs) := by
  obtain ⟨ts, f, hlex, hparse, rfl⟩ := parse_eq_some hp
  obtain ⟨ts', g, hlex', hparse', rfl⟩ := parse_eq_some hq
  have hone : lex .extended ['|'] = some [.bar] := rfl
  have hbar : lex .extended ('|' :: q) = some (.bar :: ts') := lex_append hone hlex'
  have hall : parseFrom .extended ([], .empty) (ts ++ .bar :: ts')
      = some ([], g.addAlts f.close) := by
    rw [parseFrom_append, hparse]
    show parseFrom .extended ([], ⟨f.close, [], false⟩) ts' = _
    have hfront := parseFrom_addAlts .extended f.close [] .empty ts'
    rw [hparse'] at hfront
    simpa [addAlts, GroupFrame.addAlts, GroupFrame.empty] using hfront
  rw [parse_of_lex (lex_append hlex hbar) hall, GroupFrame.addAlts_close]

/-! ### Literal texts -/

theorem parseFrom_lits (d : Dialect) (v : List Char) (rs : List Regex) :
    parseFrom d ([], ⟨[], rs, false⟩) (v.map .lit)
      = some ([], ⟨[], rs ++ v.map .lit, false⟩) := by
  induction v generalizing rs with
  | nil => simp [parseFrom]
  | cons c v ih =>
      show parseFrom d ([], ⟨[], rs ++ [.lit c], false⟩) (v.map .lit) = _
      rw [ih]
      simp

/-- The tokens of a text that may be anchored. -/
def literalTokens (first last : Bool) (v : List Char) : List RegexToken :=
  (if first then [.caret] else []) ++ v.map .lit ++ if last then [.dollar] else []

/-- Both dialects read an anchored text alike. -/
theorem parse_literal {d : Dialect} {p v : List Char} {first last : Bool}
    (h : lex d p = some (literalTokens first last v)) :
    parse d p = some [literal first last v] := by
  have hfirst : parseFrom d ([], .empty) (if first then [.caret] else [])
      = some ([], ⟨[], anchor first .bol, false⟩) := by
    cases first <;> cases d <;> rfl
  have hboth : parseFrom d ([], .empty) ((if first then [.caret] else []) ++ v.map .lit)
      = some ([], ⟨[], anchor first .bol ++ v.map .lit, false⟩) := by
    rw [parseFrom_append, hfirst]
    exact parseFrom_lits d v _
  cases last with
  | false =>
      have hall : parseFrom d ([], .empty) (literalTokens first false v)
          = some ([], ⟨[], anchor first .bol ++ v.map .lit, false⟩) := by
        simpa [literalTokens] using hboth
      rw [parse_of_lex h hall]
      simp [GroupFrame.close, literal, anchor]
  | true =>
      cases d with
      | extended =>
          have hall : parseFrom .extended ([], .empty) (literalTokens first true v)
              = some ([], ⟨[], anchor first .bol ++ v.map .lit ++ [.eol], false⟩) := by
            unfold literalTokens
            rw [parseFrom_append, hboth]
            rfl
          rw [parse_of_lex h hall]
          simp [GroupFrame.close, literal, anchor]
      | basic =>
          have hall : parseFrom .basic ([], .empty) (literalTokens first true v)
              = some ([], ⟨[], anchor first .bol ++ v.map .lit, true⟩) := by
            unfold literalTokens
            rw [parseFrom_append, hboth]
            rfl
          rw [parse_of_lex h hall]
          simp [GroupFrame.close, literal, anchor]

end Distant
