import Distant.Lib.Sorted
import Distant.Search.Commands

/-!
# What a shell makes of the commands of a search

A `CommandPart` stands for what the template of a tool has at one place: a word of its own, or a text of
the query where it belongs. The command of a search is `Contained` if the shell reads it as the
tokens of the template, every text being read as exactly itself and taken by the tool for what it is
meant to be. What the quoting cannot see is how the tool reads the word: `contained_iff` says for
which queries nothing goes wrong.
-/

namespace Distant

open ShellWords

/-! ## Parts of a pipeline -/

/-- What a text of the query is to the tool that gets it. -/
inductive Place where
  /-- a pattern or a path for `rg` or `grep` -/
  | operand
  /-- where `find` starts -/
  | start
  /-- the pattern of the `grep` that `find` executes -/
  | executed
  deriving DecidableEq, Repr

/-- A word that `rg` and `grep` take for options; a lone dash is an operand. -/
def IsOption (s : Text) : Prop := ['-'] <+: s ∧ s ≠ ['-']

/-- The tool takes the word for what it is meant to be. -/
def Place.Takes : Place → Text → Prop
  | operand, s => ¬ IsOption s
  -- the first argument that looks like it begins the expression
  | start, s => ¬ ['-'] <+: s ∧ s ≠ ['!'] ∧ s ≠ ['(']
  -- `find` looks for the end of the command, and for where to put the path
  | executed, s => ¬ IsOption s ∧ s ≠ [';'] ∧ ¬ ['{', '}'] <:+: s

instance (s : Text) : Decidable (IsOption s) := inferInstanceAs (Decidable (['-'] <+: s ∧ s ≠ ['-']))

instance : (place : Place) → (s : Text) → Decidable (place.Takes s)
  | .operand, s => inferInstanceAs (Decidable (¬ IsOption s))
  | .start, s => inferInstanceAs (Decidable (¬ ['-'] <+: s ∧ s ≠ ['!'] ∧ s ≠ ['(']))
  | .executed, s =>
    inferInstanceAs (Decidable (¬ IsOption s ∧ s ≠ [';'] ∧ ¬ ['{', '}'] <:+: s))

def Place.Safe (place : Place) (s : Text) : Prop := nul ∉ s ∧ place.Takes s

instance (place : Place) (s : Text) : Decidable (place.Safe s) :=
  inferInstanceAs (Decidable (nul ∉ s ∧ place.Takes s))

inductive CommandPart where
  /-- a word of the template -/
  | fixed (piece word : Text) (reads : IsWord piece word)
  | bar
  | text (place : Place) (s : Text)
  /-- assigned to the variable `pat` of `awk` -/
  | assigned (s : Text)
  /-- put between `'.*` and `.*'` as it is -/
  | between (s : Text)

def wild (s : Text) : Text := ['.', '*'] ++ s ++ ['.', '*']

namespace CommandPart

/-- A word of the template that needs no quotes. -/
def plain (s : String) (h : isPlainText s.toList = true) : CommandPart :=
  .fixed s.toList s.toList (quotes_plain h).1

theorem decimal_plain (n : Nat) : isPlainText (decimal n) = true := by
  refine (isPlainText_iff _).mpr ⟨Nat.toDigits_ne_nil, fun c hc => ?_⟩
  have hdigit : c.isDigit = true := Nat.isDigit_of_mem_toDigits (by decide) (by decide) hc
  by_contra hplain
  simp only [isPlain, isExpansion, isBlank, isOperator, Bool.not_eq_true', Bool.not_eq_false,
    Bool.or_eq_true, beq_iff_eq, List.contains_eq_mem, decide_eq_true_eq, List.mem_cons,
    List.not_mem_nil, or_false] at hplain
  rcases hplain with (((rfl | h) | h) | h) | h
  · exact absurd hdigit (by decide)
  · rcases h with rfl | rfl | rfl | rfl | rfl <;> exact absurd hdigit (by decide)
  · rcases h with rfl | rfl <;> exact absurd hdigit (by decide)
  · rcases h with rfl | rfl | rfl | rfl | rfl | rfl | rfl | rfl <;> exact absurd hdigit (by decide)
  · rcases h with rfl | rfl | rfl | rfl | rfl <;> exact absurd hdigit (by decide)

def number (n : Nat) : CommandPart :=
  .fixed (decimal n) (decimal n) (quotes_plain (decimal_plain n)).1

/-- How the part is written. -/
def piece (quote : Text → Text) : CommandPart → Text
  | fixed p _ _ => p
  | bar => ['|']
  | text _ s => quote s
  | assigned s => "pat=".toList ++ quote s
  | between s => '\'' :: wild s ++ ['\'']

/-- What the shell is to read. -/
def token : CommandPart → ShellToken
  | fixed _ w _ => .word w
  | bar => .op '|'
  | text _ s => .word s
  | assigned s => .word ("pat=".toList ++ s)
  | between s => .word (wild s)

/-- The shell reads the part as one token, and the tool takes it for what it is meant to be. -/
def Contained (quote : Text → Text) (a : CommandPart) : Prop :=
  IsToken (a.piece quote) a.token ∧ ∀ place s, a = text place s → place.Takes s

def Safe : CommandPart → Prop
  | text place s => place.Safe s
  | assigned s => nul ∉ s
  | between s => nul ∉ s ∧ '\'' ∉ s
  | _ => True

@[simp] theorem safe_plain (s : String) (h : isPlainText s.toList = true) :
    (plain s h).Safe := trivial

@[simp] theorem safe_fixed (p w : Text) (h : IsWord p w) : (fixed p w h).Safe := trivial

@[simp] theorem safe_number (n : Nat) : (number n).Safe := trivial

@[simp] theorem safe_bar : bar.Safe := trivial

@[simp] theorem safe_text (place : Place) (s : Text) : (text place s).Safe ↔ place.Safe s := Iff.rfl

@[simp] theorem safe_assigned (s : Text) : (assigned s).Safe ↔ nul ∉ s := Iff.rfl

@[simp] theorem safe_between (s : Text) : (between s).Safe ↔ nul ∉ s ∧ '\'' ∉ s := Iff.rfl

end CommandPart

/-- A way to quote: a text without NUL is read as it is, and a NUL does not go away. -/
structure IsQuoting (quote : Text → Text) : Prop where
  quotes : ∀ s, nul ∉ s → Quotes (quote s) s
  keeps_nul : ∀ s, nul ∈ s → nul ∈ quote s

theorem mem_wild {s : Text} {c : Char} (hdot : c ≠ '.') (hstar : c ≠ '*') : c ∈ wild s ↔ c ∈ s := by
  simp [wild, hdot, hstar]

theorem CommandPart.contained_iff {quote : Text → Text} (hquote : IsQuoting quote) (a : CommandPart) :
    a.Contained quote ↔ a.Safe := by
  cases a with
  | fixed p w h => exact ⟨fun _ => trivial, fun _ => ⟨h, nofun⟩⟩
  | bar => exact ⟨fun _ => trivial, fun _ => ⟨⟨rfl, rfl⟩, nofun⟩⟩
  | text place s =>
      constructor
      · rintro ⟨hreads, htakes⟩
        exact ⟨fun hnul => not_isWord_nul (hquote.keeps_nul s hnul) hreads, htakes place s rfl⟩
      · rintro ⟨hnul, htakes⟩
        refine ⟨(hquote.quotes s hnul).1, ?_⟩
        rintro place' s' ⟨⟩
        exact htakes
  | assigned s =>
      constructor
      · rintro ⟨hreads, -⟩ hnul
        exact not_isWord_nul (List.mem_append_right _ (hquote.keeps_nul s hnul)) hreads
      · intro hnul
        have hname : IsWord "pat=".toList "pat=".toList := by decide
        exact ⟨hname.append (hquote.quotes s hnul), nofun⟩
  | between s =>
      have hnul_iff : nul ∈ wild s ↔ nul ∈ s := mem_wild (by decide) (by decide)
      have hquote_iff : '\'' ∈ wild s ↔ '\'' ∈ s := mem_wild (by decide) (by decide)
      constructor
      · rintro ⟨hreads, -⟩
        constructor
        · intro hnul
          exact not_isWord_nul (by simp [piece, hnul_iff.mpr hnul]) hreads
        · exact fun hmem => not_mem_of_isWord_single hreads (hquote_iff.mpr hmem)
      · rintro ⟨hnul, hmem⟩
        exact ⟨isWord_single (hquote_iff.not.mpr hmem) (hnul_iff.not.mpr hnul), nofun⟩

/-- The command is read as the pipeline, and every part of it for what it is. -/
def ContainedAs (quote : Text → Text) (command : Text) (parts : List CommandPart) : Prop :=
  split command = some (parts.map CommandPart.token) ∧ ∀ a ∈ parts, a.Contained quote

theorem containedAs_iff {quote : Text → Text} (hquote : IsQuoting quote) {parts : List CommandPart}
    (hne : parts ≠ []) :
    ContainedAs quote (unwords (parts.map (CommandPart.piece quote))) parts ↔ ∀ a ∈ parts, a.Safe := by
  constructor
  · rintro ⟨-, hparts⟩ a ha
    exact (a.contained_iff hquote).mp (hparts a ha)
  · intro hsafe
    have hparts : ∀ a ∈ parts, a.Contained quote := fun a ha =>
      (a.contained_iff hquote).mpr (hsafe a ha)
    refine ⟨split_unwords ?_ (by simpa using hne), hparts⟩
    rw [List.forall₂_map_left_iff, List.forall₂_map_right_iff, List.forall₂_same]
    exact fun a ha => (hparts a ha).1

/-! ## The pipelines of the tools -/

namespace CommandPart

def bounded (option : CommandPart) : Option Nat → List CommandPart
  | none => []
  | some depth => [option, number depth]

def filter (stage : Text → List CommandPart) : Option Text → List CommandPart
  | none => []
  | some p => bar :: stage p

def grepStage (option : CommandPart) (p : Text) : List CommandPart :=
  [plain "grep" (by decide), option, text .operand p]

def awkStage (piece word : String) (h : IsWord piece.toList word.toList)
    (p : Text) : List CommandPart :=
  [plain "awk" (by decide), plain "-F:" (by decide), plain "-v" (by decide),
    assigned (Ssh.awkEscapeRegex p), .fixed piece.toList word.toList h]

/-- A list of paths is filtered. -/
def grepFilters (inc exc : Option Text) : List CommandPart :=
  filter (grepStage (plain "-E" (by decide))) inc ++ filter (grepStage (plain "-vE" (by decide))) exc

/-- A list of matches is filtered. -/
def awkFilters (inc exc : Option Text) : List CommandPart :=
  filter (awkStage "'$1 ~ pat'" "$1 ~ pat" (by decide)) inc
    ++ filter (awkStage "'$1 !~ pat'" "$1 !~ pat" (by decide)) exc

def findExec (grep : List CommandPart) (pattern : Text) (depth : Nat)
    (paths : List Text) : List CommandPart :=
  plain "find" (by decide) :: paths.map (text .start)
    ++ [plain "-maxdepth" (by decide), number depth, plain "-type" (by decide),
      plain "f" (by decide), plain "-exec" (by decide)]
    ++ grep
    ++ [text .executed pattern, plain "{}" (by decide), plain "/dev/null" (by decide),
      .fixed "\\;".toList ";".toList (by decide)]

end CommandPart

open CommandPart

namespace Ssh

/-- The pipeline that searches some paths, if there are tools for it. -/
def pipeline (target : SearchQueryTarget) (pattern : Text) (tools : SearchTools)
    (inc exc : Option Text) (maxDepth : Option Nat) : Option (List Text → List CommandPart) :=
  match target with
  | .path =>
    if tools.hasRg then
      some fun paths => plain "rg" (by decide) :: plain "--files" (by decide)
        :: bounded (plain "--max-depth" (by decide)) maxDepth
        ++ paths.map (text .operand)
        ++ bar :: grepStage (plain "-E" (by decide)) pattern
        ++ grepFilters inc exc
    else if tools.hasFind then
      some fun paths => plain "find" (by decide) :: paths.map (text .start)
        ++ bounded (plain "-maxdepth" (by decide)) maxDepth
        ++ [plain "-regex" (by decide), between pattern, plain "-print" (by decide)]
        ++ grepFilters inc exc
    else none
  | .contents =>
    if tools.hasRg then
      some fun paths => plain "rg" (by decide) :: plain "--json" (by decide)
        :: bounded (plain "--max-depth" (by decide)) maxDepth
        ++ text .operand pattern :: paths.map (text .operand)
    else if tools.hasGrep then
      match maxDepth with
      | some depth => some fun paths =>
        findExec [plain "grep" (by decide), plain "-b" (by decide), plain "-n" (by decide)] pattern
          depth paths ++ awkFilters inc exc
      | none => some fun paths =>
        plain "grep" (by decide) :: plain "-rbn" (by decide) :: text .operand pattern
          :: paths.map (text .operand) ++ awkFilters inc exc
    else none

end Ssh

namespace Docker

def pipeline (target : SearchQueryTarget) (pattern : Text) (tools : SearchTools)
    (maxDepth : Option Nat) : Option (List Text → List CommandPart) :=
  match target with
  | .path =>
    if tools.hasRg then
      some fun paths => plain "rg" (by decide) :: plain "--files" (by decide)
        :: bounded (plain "--max-depth" (by decide)) maxDepth ++ paths.map (text .operand)
    else if tools.hasFind then
      some fun paths => plain "find" (by decide) :: paths.map (text .start)
        ++ bounded (plain "-maxdepth" (by decide)) maxDepth ++ [plain "-print" (by decide)]
    else none
  | .contents =>
    if tools.hasRg then
      some fun paths => plain "rg" (by decide) :: plain "--json" (by decide)
        :: bounded (plain "--max-depth" (by decide)) maxDepth
        ++ text .operand pattern :: paths.map (text .operand)
    else if tools.hasGrep then
      match maxDepth with
      | some depth =>
        if tools.hasFind then
          some (findExec [plain "grep" (by decide), plain "-bn" (by decide)] pattern depth)
        else none
      | none => some fun paths =>
        plain "grep" (by decide) :: plain "-rbn" (by decide) :: text .operand pattern
          :: paths.map (text .operand)
    else none

end Docker

/-! ## The commands are the pipelines -/

theorem spaced_quoted {ps : List Text} (h : ps ≠ []) : ' ' :: [' '].intercalate ps = spaced ps := by
  induction ps with
  | nil => exact absurd rfl h
  | cons p ps ih =>
      cases ps with
      | nil => simp [List.intercalate]
      | cons q ps =>
          have hrest := ih (List.cons_ne_nil _ _)
          simp only [List.intercalate, List.intersperse, List.flatten_cons] at hrest ⊢
          rw [spaced_cons, ← hrest]
          simp

theorem spaced_paths (quote : Text → Text) (place : Place) {paths : List Text} (h : paths ≠ []) :
    spaced (paths.map (CommandPart.piece quote ∘ text place)) =
      ' ' :: [' '].intercalate (paths.map quote) :=
  (spaced_quoted (by simpa using h)).symm

namespace Ssh

variable (quote : Text → Text)

theorem appendDepth_eq (cmd : Text) (maxDepth : Option Nat) :
    appendDepth cmd " --max-depth " maxDepth = cmd
        ++ spaced ((bounded (plain "--max-depth" (by decide)) maxDepth).map
          (CommandPart.piece quote)) ∧
      appendDepth cmd " -maxdepth " maxDepth = cmd
        ++ spaced ((bounded (plain "-maxdepth" (by decide)) maxDepth).map
          (CommandPart.piece quote)) := by
  cases maxDepth with
  | none => simp [appendDepth, bounded]
  | some depth => simp [appendDepth, bounded, plain, number, piece]

theorem appendGrepFilters_eq (cmd : Text) (inc exc : Option Text) :
    appendGrepFilters quote cmd inc exc
      = cmd ++ spaced ((grepFilters inc exc).map (CommandPart.piece quote)) := by
  cases inc <;> cases exc <;>
    simp [appendGrepFilters, grepFilters, filter, grepStage, plain, piece, shellQuote]

theorem appendPathFilters_eq (cmd : Text) (inc exc : Option Text) :
    appendPathFilters quote cmd inc exc
      = cmd ++ spaced ((awkFilters inc exc).map (CommandPart.piece quote)) := by
  cases inc <;> cases exc <;>
    simp [appendPathFilters, awkFilters, filter, awkStage, plain, piece, shellQuote]

theorem buildSearchCommand_eq (target : SearchQueryTarget) {paths : List Text} (h : paths ≠ [])
    (pattern : Text) (tools : SearchTools) (inc exc : Option Text) (maxDepth : Option Nat) :
    (buildSearchCommand quote target paths pattern tools inc exc maxDepth).toOption.map (·.command)
      = (pipeline target pattern tools inc exc maxDepth).map fun parts =>
          unwords ((parts paths).map (CommandPart.piece quote)) := by
  have hdepth := fun cmd => appendDepth_eq quote cmd maxDepth
  have hquoted : paths.map (shellQuote quote) = paths.map quote := rfl
  cases target with
  | path =>
      unfold buildSearchCommand buildPathSearchCommand pipeline
      by_cases hrg : tools.hasRg = true
      · simp [hrg, Except.toOption, unwords, appendGrepFilters_eq, hdepth, grepStage, piece, plain,
          shellQuote, quotePaths, hquoted, spaced_paths quote .operand h]
      · by_cases hfind : tools.hasFind = true
        · simp [hrg, hfind, Except.toOption, unwords, appendGrepFilters_eq, hdepth, piece, plain, wild,
            quotePaths, hquoted, spaced_paths quote .start h]
        · simp [hrg, hfind, Except.toOption]
  | contents =>
      unfold buildSearchCommand buildContentsSearchCommand pipeline
      by_cases hrg : tools.hasRg = true
      · simp [hrg, Except.toOption, unwords, hdepth, piece, plain, shellQuote, quotePaths, hquoted,
          spaced_paths quote .operand h]
      · by_cases hgrep : tools.hasGrep = true
        · cases maxDepth with
          | none =>
              simp [hrg, hgrep, Except.toOption, unwords, appendPathFilters_eq, piece, plain,
                shellQuote, quotePaths, hquoted, spaced_paths quote .operand h]
          | some depth =>
              simp [hrg, hgrep, Except.toOption, unwords, appendPathFilters_eq, findExec, piece,
                plain, number, shellQuote, quotePaths, hquoted, spaced_paths quote .start h]
        · simp [hrg, hgrep, Except.toOption]

end Ssh

namespace Docker

variable (tryQuote : Text → Option Text)

theorem appendDepth_eq (quote : Text → Text) (cmd : Text) (maxDepth : Option Nat) :
    appendDepth cmd " --max-depth " maxDepth = cmd
        ++ spaced ((bounded (plain "--max-depth" (by decide)) maxDepth).map
          (CommandPart.piece quote)) ∧
      appendDepth cmd " -maxdepth " maxDepth = cmd
        ++ spaced ((bounded (plain "-maxdepth" (by decide)) maxDepth).map
          (CommandPart.piece quote)) :=
  Ssh.appendDepth_eq quote cmd maxDepth

theorem buildSearchCommand_eq (target : SearchQueryTarget) {paths : List Text} (h : paths ≠ [])
    (pattern : Text) (tools : SearchTools) (maxDepth : Option Nat) :
    (buildSearchCommand tryQuote target ([' '].intercalate (paths.map (shellQuote tryQuote))) pattern
        tools maxDepth).toOption.map (·.command)
      = (pipeline target pattern tools maxDepth).map fun parts =>
          unwords ((parts paths).map (CommandPart.piece (shellQuote tryQuote))) := by
  have hdepth := fun cmd => appendDepth_eq (shellQuote tryQuote) cmd maxDepth
  cases target with
  | path =>
      unfold buildSearchCommand buildPathSearchCommand pipeline
      by_cases hrg : tools.hasRg = true
      · simp [hrg, Except.toOption, unwords, hdepth, piece, plain,
          spaced_paths (shellQuote tryQuote) .operand h]
      · by_cases hfind : tools.hasFind = true
        · simp [hrg, hfind, Except.toOption, unwords, hdepth, piece, plain,
            spaced_paths (shellQuote tryQuote) .start h]
        · simp [hrg, hfind, Except.toOption]
  | contents =>
      unfold buildSearchCommand buildContentsSearchCommand pipeline
      by_cases hrg : tools.hasRg = true
      · simp [hrg, Except.toOption, unwords, hdepth, piece, plain,
          spaced_paths (shellQuote tryQuote) .operand h]
      · by_cases hgrep : tools.hasGrep = true
        · cases maxDepth with
          | none =>
              simp [hrg, hgrep, Except.toOption, unwords, piece, plain,
                spaced_paths (shellQuote tryQuote) .operand h]
          | some depth =>
              by_cases hfind : tools.hasFind = true
              · simp [hrg, hgrep, hfind, Except.toOption, unwords, findExec, piece, plain, number,
                  spaced_paths (shellQuote tryQuote) .start h]
              · simp [hrg, hgrep, hfind, Except.toOption]
        · simp [hrg, hgrep, Except.toOption]

end Docker

/-! ## Where a search looks -/

/-- What is `n` steps up. -/
def Climb.above (c : Climb) : Nat → Text → Option Text
  | 0, p => some p
  | n + 1, p => (c.up p).bind (c.above n)

theorem Climb.mem_ancestors (c : Climb) (remaining : Option Nat) (p d : Text) :
    d ∈ c.ancestors remaining p ↔
      ∃ n, (∀ k, remaining = some k → n < k) ∧ c.above (n + 1) p = some d := by
  fun_induction Climb.ancestors c remaining p with
  | case1 remaining p htop => simp [Climb.above, htop]
  | case2 p parent hup =>
      constructor
      · intro h
        cases h
      · rintro ⟨n, hn, -⟩
        exact absurd (hn 0 rfl) (Nat.not_lt_zero n)
  | case3 remaining p parent hup hzero ih =>
      have habove : ∀ n, c.above (n + 1) p = c.above n parent := fun n => by
        simp [Climb.above, hup]
      simp only [List.mem_cons, ih, habove]
      constructor
      · rintro (rfl | ⟨n, hn, hd⟩)
        · refine ⟨0, fun k hk => ?_, rfl⟩
          have hk0 : k ≠ 0 := fun heq => hzero (by rw [hk, heq])
          omega
        · refine ⟨n + 1, fun k hk => ?_, hd⟩
          have hlt := hn (k - 1) (by rw [hk]; rfl)
          omega
      · rintro ⟨n, hn, hd⟩
        cases n with
        | zero => exact .inl (by simpa [Climb.above] using hd.symm)
        | succ n =>
            refine .inr ⟨n, fun k hk => ?_, hd⟩
            obtain ⟨r, hr, rfl⟩ := Option.map_eq_some_iff.mp hk
            have hlt := hn r hr
            omega

/-- The paths that one command of the search is for. -/
def SearchQuery.Searches (q : SearchQuery) (c : Climb) (paths : List Text) : Prop :=
  if q.options.upward then
    ∃ p ∈ q.pathsOrCurrent, ∃ n d, (∀ k, q.options.maxDepth = some k → n ≤ k) ∧
      c.above n p = some d ∧ paths = [d]
  else paths = q.pathsOrCurrent

theorem SearchQuery.pathsOrCurrent_ne_nil (q : SearchQuery) : q.pathsOrCurrent ≠ [] := by
  unfold SearchQuery.pathsOrCurrent
  by_cases h : q.paths = []
  · rw [if_pos h]
    exact List.cons_ne_nil _ _
  · rwa [if_neg h]

/-- There is a command to be built: for the first of the paths, without climbing, or for all. -/
theorem SearchQuery.exists_searches (q : SearchQuery) (c : Climb) : ∃ paths, q.Searches c paths := by
  unfold SearchQuery.Searches
  by_cases hup : q.options.upward = true
  · obtain ⟨p, hp⟩ := List.exists_mem_of_ne_nil _ q.pathsOrCurrent_ne_nil
    simp only [if_pos hup]
    exact ⟨[p], p, hp, 0, p, fun k _ => Nat.zero_le k, rfl, rfl⟩
  · simp only [if_neg hup]
    exact ⟨_, rfl⟩

theorem Climb.mem_upward (c : Climb) (remaining : Option Nat) (p d : Text) :
    d ∈ p :: c.ancestors remaining p ↔
      ∃ n, (∀ k, remaining = some k → n ≤ k) ∧ c.above n p = some d := by
  rw [List.mem_cons, c.mem_ancestors]
  constructor
  · rintro (rfl | ⟨n, hn, hd⟩)
    · exact ⟨0, fun k _ => Nat.zero_le k, rfl⟩
    · exact ⟨n + 1, fun k hk => hn k hk, hd⟩
  · rintro ⟨n, hn, hd⟩
    cases n with
    | zero => exact .inl (by simpa [Climb.above] using hd.symm)
    | succ n => exact .inr ⟨n, fun k hk => hn k hk, hd⟩

namespace Ssh

theorem dedupNeighbours_eq (l : List Text) : dedupNeighbours l = l.dropRepeated := by
  fun_induction dedupNeighbours l with
  | case1 b l ih => rw [ih, List.dropRepeated_cons_cons, if_pos rfl]
  | case2 a b l hne ih => rw [ih, List.dropRepeated_cons_cons, if_neg hne]
  | case3 l hshort =>
      cases l with
      | nil => rfl
      | cons a l =>
          cases l with
          | nil => rfl
          | cons b l => exact absurd rfl (hshort a b l)

theorem mem_dedupNeighbours (l : List Text) (d : Text) : d ∈ dedupNeighbours l ↔ d ∈ l := by
  rw [dedupNeighbours_eq, List.mem_dropRepeated]

def searches (unix : UnixPaths) (q : SearchQuery) : List (List Text) :=
  if q.options.upward then (allDirs unix q).map fun dir => [dir] else [q.pathsOrCurrent]

theorem mem_searches (unix : UnixPaths) (q : SearchQuery) (paths : List Text) :
    paths ∈ searches unix q ↔ q.Searches (climb unix) paths := by
  unfold searches SearchQuery.Searches
  by_cases hup : q.options.upward = true
  · simp only [hup, if_true, allDirs, List.mem_map, mem_dedupNeighbours, List.mem_mergeSort,
      List.mem_flatMap, Climb.mem_upward]
    constructor
    · rintro ⟨d, ⟨p, hp, n, hn, hd⟩, rfl⟩
      exact ⟨p, hp, n, d, hn, hd, rfl⟩
    · rintro ⟨p, hp, n, d, hn, hd, rfl⟩
      exact ⟨d, ⟨p, hp, n, hn, hd⟩, rfl⟩
  · simp [hup]

end Ssh

namespace Docker

def searches (unix : UnixPaths) (q : SearchQuery) : List (List Text) :=
  if q.options.upward then
    (q.pathsOrCurrent.flatMap fun path =>
      path :: (climb unix).ancestors q.options.maxDepth path).map fun dir => [dir]
  else [q.pathsOrCurrent]

theorem mem_searches (unix : UnixPaths) (q : SearchQuery) (paths : List Text) :
    paths ∈ searches unix q ↔ q.Searches (climb unix) paths := by
  unfold searches SearchQuery.Searches
  by_cases hup : q.options.upward = true
  · simp only [hup, if_true, List.mem_map, List.mem_flatMap, Climb.mem_upward]
    constructor
    · rintro ⟨d, ⟨p, hp, n, hn, hd⟩, rfl⟩
      exact ⟨p, hp, n, d, hn, hd, rfl⟩
    · rintro ⟨p, hp, n, d, hn, hd, rfl⟩
      exact ⟨d, ⟨p, hp, n, hn, hd⟩, rfl⟩
  · simp [hup]

end Docker

/-! ## Which searches are contained -/

theorem mapM_ok {α β ε : Type} {f : α → Except ε β} {l : List α} {rs : List β} :
    l.mapM f = .ok rs ↔ List.Forall₂ (fun a r => f a = .ok r) l rs := by
  induction l generalizing rs with
  | nil =>
      rw [List.mapM_nil, List.forall₂_nil_left_iff]
      exact ⟨fun h => by cases h; rfl, fun h => by rw [h]; rfl⟩
  | cons a l ih =>
      rw [List.mapM_cons, List.forall₂_cons_left_iff]
      cases ha : f a with
      | error e => exact ⟨nofun, fun ⟨_, _, h, _⟩ => nomatch h⟩
      | ok r =>
          cases hl : l.mapM f with
          | error e =>
              refine ⟨nofun, fun ⟨_, rs', _, hrest, _⟩ => ?_⟩
              rw [ih.mpr hrest] at hl
              cases hl
          | ok rs' =>
              constructor
              · rintro ⟨⟩
                exact ⟨r, rs', rfl, ih.mp hl, rfl⟩
              · rintro ⟨r', rs'', ⟨⟩, hrest, rfl⟩
                rw [ih.mpr hrest] at hl
                cases hl
                rfl

/-- When each of the members is built, so is the list. -/
theorem exists_forall₂ {α β ε : Type} {f : α → Except ε β} {l : List α}
    (h : ∀ a ∈ l, ∃ r, f a = .ok r) : ∃ rs, List.Forall₂ (fun a r => f a = .ok r) l rs := by
  induction l with
  | nil => exact ⟨[], .nil⟩
  | cons a l ih =>
      obtain ⟨r, hr⟩ := h a (by simp)
      obtain ⟨rs, hrs⟩ := ih fun b hb => h b (by simp [hb])
      exact ⟨r :: rs, .cons hr hrs⟩

section

variable {C : Type} (command : C → Text) {quote : Text → Text}
  {build : List Text → Except IoError C} {pipeline : Option (List Text → List CommandPart)}

/-- The commands are contained if the parts of all pipelines are safe, and only then. -/
theorem contained_iff_safe (hquote : IsQuoting quote) {searches : List (List Text)}
    (hpaths : ∀ paths ∈ searches, paths ≠ []) (hne : searches ≠ [])
    (hparts : ∀ parts, pipeline = some parts → ∀ paths, parts paths ≠ [])
    (hbuild : ∀ paths, paths ≠ [] → (build paths).toOption.map command
      = pipeline.map fun parts => unwords ((parts paths).map (CommandPart.piece quote))) :
    (∀ commands, searches.mapM build = .ok commands → ∃ parts, pipeline = some parts ∧
        List.Forall₂ (fun paths c => ContainedAs quote (command c) (parts paths)) searches commands) ↔
      ∀ parts, pipeline = some parts → ∀ paths ∈ searches, ∀ a ∈ parts paths, a.Safe := by
  have hone : ∀ parts, pipeline = some parts → ∀ paths ∈ searches, ∀ c, build paths = .ok c →
      (ContainedAs quote (command c) (parts paths) ↔ ∀ a ∈ parts paths, a.Safe) := by
    intro parts hsome paths hmem c hc
    have hcommand := hbuild paths (hpaths paths hmem)
    rw [hsome, hc] at hcommand
    have hcommand : command c = unwords ((parts paths).map (CommandPart.piece quote)) := by
      simpa [Except.toOption] using hcommand
    rw [hcommand]
    exact containedAs_iff hquote (hparts parts hsome paths)
  constructor
  · intro h parts hsome
    have hcommands : ∀ paths ∈ searches, ∃ c, build paths = .ok c := by
      intro paths hmem
      have hcommand := hbuild paths (hpaths paths hmem)
      rw [hsome] at hcommand
      cases hc : build paths with
      | error e => simp [hc, Except.toOption] at hcommand
      | ok c => exact ⟨c, rfl⟩
    obtain ⟨commands, hall⟩ := exists_forall₂ hcommands
    obtain ⟨parts', hsome', hcontained⟩ := h commands (mapM_ok.mpr hall)
    rw [hsome] at hsome'
    cases hsome'
    intro paths hmem
    obtain ⟨i, hi, rfl⟩ := List.mem_iff_getElem.mp hmem
    have hi' : i < commands.length := hall.length_eq ▸ hi
    exact (hone parts hsome _ hmem _ (List.Forall₂.get hall hi hi')).mp
      (List.Forall₂.get hcontained hi hi')
  · intro hsafe commands hok
    have hall := mapM_ok.mp hok
    obtain ⟨paths, hmem⟩ := List.exists_mem_of_ne_nil searches hne
    have hsome : ∃ parts, pipeline = some parts := by
      obtain ⟨i, hi, rfl⟩ := List.mem_iff_getElem.mp hmem
      have hi' : i < commands.length := hall.length_eq ▸ hi
      have hc : build searches[i] = .ok commands[i] := List.Forall₂.get hall hi hi'
      have hcommand := hbuild _ (hpaths _ hmem)
      rw [hc] at hcommand
      cases hp : pipeline with
      | none => simp [hp, Except.toOption] at hcommand
      | some parts => exact ⟨parts, rfl⟩
    obtain ⟨parts, hsome⟩ := hsome
    refine ⟨parts, hsome, ?_⟩
    rw [List.forall₂_iff_get] at hall ⊢
    refine ⟨hall.1, fun i hi hi' => ?_⟩
    exact (hone parts hsome _ (List.getElem_mem hi) _ (hall.2 i hi hi')).mpr
      (hsafe parts hsome _ (List.getElem_mem hi))

/-- The parts are safe in all searches when each of the path lists is as it has to be. -/
theorem safe_searches_iff {searches : List (List Text)} {Searched needs : List Text → Prop}
    (hmem : ∀ paths, paths ∈ searches ↔ Searched paths)
    (hsome : ∀ parts, pipeline = some parts → ∀ paths,
      (∀ a ∈ parts paths, a.Safe) ↔ needs paths)
    (hnone : pipeline = none → ∀ paths, needs paths) :
    (∀ parts, pipeline = some parts → ∀ paths ∈ searches, ∀ a ∈ parts paths, a.Safe) ↔
      ∀ paths, Searched paths → needs paths := by
  constructor
  · intro h paths hpaths
    cases hp : pipeline with
    | none => exact hnone hp paths
    | some parts =>
        exact (hsome parts hp paths).mp (h parts hp paths ((hmem paths).mpr hpaths))
  · intro h parts hp paths hpaths
    exact (hsome parts hp paths).mpr (h paths ((hmem paths).mp hpaths))

end

def SearchQuery.depth (q : SearchQuery) : Option Nat :=
  if q.options.upward then some 1 else q.options.maxDepth

namespace Ssh

variable (quote : Text → Text) (unix : UnixPaths)

/-- The pipeline of a query. -/
def pipelineOf (q : SearchQuery) (tools : SearchTools) : Option (List Text → List CommandPart) :=
  pipeline q.target (buildUnixPattern q.condition) tools (q.options.include.map buildUnixPattern)
    (q.options.exclude.map buildUnixPattern) q.depth

def Contained (q : SearchQuery) (tools : SearchTools) : Prop :=
  ∀ commands, buildSearchCommands quote unix q tools = .ok commands →
    ∃ parts, pipelineOf q tools = some parts ∧
      List.Forall₂ (fun paths c => ContainedAs quote c.command (parts paths))
        (searches unix q) commands

/-- What is asked of the texts that the command for some paths has in it. -/
def SafeFor (q : SearchQuery) (tools : SearchTools) (paths : List Text) : Prop :=
  let pattern := buildUnixPattern q.condition
  let filters := q.options.include.toList ++ q.options.exclude.toList
  match q.target with
  | .path =>
    if tools.hasRg then
      (∀ p ∈ paths, Place.operand.Safe p) ∧ Place.operand.Safe pattern ∧
        ∀ c ∈ filters, Place.operand.Safe (buildUnixPattern c)
    else if tools.hasFind then
      (∀ p ∈ paths, Place.start.Safe p) ∧ (nul ∉ pattern ∧ '\'' ∉ pattern) ∧
        ∀ c ∈ filters, Place.operand.Safe (buildUnixPattern c)
    else True
  | .contents =>
    if tools.hasRg then (∀ p ∈ paths, Place.operand.Safe p) ∧ Place.operand.Safe pattern
    else if tools.hasGrep then
      match q.depth with
      | some _ =>
        (∀ p ∈ paths, Place.start.Safe p) ∧ Place.executed.Safe pattern ∧
          ∀ c ∈ filters, nul ∉ buildUnixPattern c
      | none =>
        (∀ p ∈ paths, Place.operand.Safe p) ∧ Place.operand.Safe pattern ∧
          ∀ c ∈ filters, nul ∉ buildUnixPattern c
    else True

def Safe (q : SearchQuery) (tools : SearchTools) : Prop :=
  ∀ paths, q.Searches (climb unix) paths → SafeFor q tools paths

theorem nul_mem_awkEscapeRegex (s : Text) : nul ∈ awkEscapeRegex s ↔ nul ∈ s := by
  induction s with
  | nil => simp [awkEscapeRegex]
  | cons c s ih =>
      have hcons : awkEscapeRegex (c :: s)
          = (if c = '\\' then ['\\', '\\'] else [c]) ++ awkEscapeRegex s := rfl
      rw [hcons, List.mem_append, List.mem_cons, ih]
      by_cases hc : c = '\\'
      · have hne : nul ≠ '\\' := by decide
        simp [hc, hne]
      · simp [hc]

end Ssh

section

variable (pattern : SearchQueryCondition → Text)

theorem bounded_safe (s : String) (h : isPlainText s.toList = true)
    (maxDepth : Option Nat) : ∀ a ∈ bounded (plain s h) maxDepth, a.Safe := by
  cases maxDepth with
  | none => exact fun _ ha => absurd ha List.not_mem_nil
  | some depth => simp [bounded]

theorem grepFilters_safe (inc exc : Option SearchQueryCondition) :
    (∀ a ∈ grepFilters (inc.map pattern) (exc.map pattern), a.Safe) ↔
      (∀ c ∈ inc.toList, Place.operand.Safe (pattern c)) ∧
        ∀ c ∈ exc.toList, Place.operand.Safe (pattern c) := by
  cases inc <;> cases exc <;> simp [grepFilters, filter, grepStage]

theorem awkFilters_safe (inc exc : Option SearchQueryCondition) :
    (∀ a ∈ awkFilters (inc.map pattern) (exc.map pattern), a.Safe) ↔
      (∀ c ∈ inc.toList, nul ∉ pattern c) ∧ ∀ c ∈ exc.toList, nul ∉ pattern c := by
  cases inc <;> cases exc <;> simp [awkFilters, filter, awkStage, Ssh.nul_mem_awkEscapeRegex]

theorem paths_safe (place : Place) (paths : List Text) :
    (∀ a ∈ paths.map (text place), a.Safe) ↔ ∀ p ∈ paths, place.Safe p := by
  simp

/-- The search of contents with `rg`, which both backends build. -/
theorem rgJson_safe (maxDepth : Option Nat) (p : Text) (paths : List Text) :
    (∀ a ∈ plain "rg" (by decide) :: plain "--json" (by decide)
        :: bounded (plain "--max-depth" (by decide)) maxDepth
        ++ text .operand p :: paths.map (text .operand), a.Safe) ↔
      (∀ path ∈ paths, Place.operand.Safe path) ∧ Place.operand.Safe p := by
  have hbounded := bounded_safe "--max-depth" (by decide) maxDepth
  have hpaths := paths_safe .operand paths
  simp only [List.cons_append, List.forall_mem_cons, List.forall_mem_append, hpaths, safe_plain,
    safe_text]
  constructor
  · rintro ⟨-, -, -, hpattern, hoperands⟩
    exact ⟨hoperands, hpattern⟩
  · rintro ⟨hoperands, hpattern⟩
    exact ⟨trivial, trivial, hbounded, hpattern, hoperands⟩

/-- The search of contents with `grep`, with no limit to the depth. -/
theorem grepAll_safe (p : Text) (paths : List Text) :
    (∀ a ∈ plain "grep" (by decide) :: plain "-rbn" (by decide) :: text .operand p
        :: paths.map (text .operand), a.Safe) ↔
      (∀ path ∈ paths, Place.operand.Safe path) ∧ Place.operand.Safe p := by
  have hpaths := paths_safe .operand paths
  simp only [List.forall_mem_cons, hpaths, safe_plain, safe_text]
  constructor
  · rintro ⟨-, -, hpattern, hoperands⟩
    exact ⟨hoperands, hpattern⟩
  · rintro ⟨hoperands, hpattern⟩
    exact ⟨trivial, trivial, hpattern, hoperands⟩

theorem findExec_safe {grep : List CommandPart} (hgrep : ∀ a ∈ grep, a.Safe) (p : Text) (depth : Nat)
    (paths : List Text) :
    (∀ a ∈ findExec grep p depth paths, a.Safe) ↔
      (∀ path ∈ paths, Place.start.Safe path) ∧ Place.executed.Safe p := by
  have hpaths := paths_safe .start paths
  simp only [findExec, List.cons_append, List.forall_mem_cons, List.forall_mem_append, hpaths,
    safe_plain, safe_number, safe_text, safe_fixed]
  constructor
  · rintro ⟨-, ⟨⟨hstart, -⟩, -⟩, hexecuted, -⟩
    exact ⟨hstart, hexecuted⟩
  · rintro ⟨hstart, hexecuted⟩
    have hnone : ∀ a ∈ ([] : List CommandPart), a.Safe := fun _ ha => absurd ha List.not_mem_nil
    grind

end

namespace Ssh

variable (quote : Text → Text) (unix : UnixPaths)

theorem safe_parts {q : SearchQuery} {tools : SearchTools} {parts : List Text → List CommandPart}
    (h : pipelineOf q tools = some parts) (paths : List Text) :
    (∀ a ∈ parts paths, a.Safe) ↔ SafeFor q tools paths := by
  unfold pipelineOf pipeline at h
  unfold SafeFor
  have hoperands := paths_safe .operand paths
  have hstarts := paths_safe .start paths
  have hgreps := grepFilters_safe buildUnixPattern q.options.include q.options.exclude
  have hawks := awkFilters_safe buildUnixPattern q.options.include q.options.exclude
  cases htarget : q.target with
  | path =>
      simp only [htarget] at h
      cases hrg : tools.hasRg with
      | true =>
          simp only [hrg, if_true, Option.some.injEq] at h
          subst h
          have hbounded := bounded_safe "--max-depth" (by decide) q.depth
          simp only [if_true, List.cons_append, List.forall_mem_cons, List.forall_mem_append,
            hoperands, hgreps, grepStage, safe_plain, safe_bar, safe_text, List.append_assoc]
          grind
      | false =>
          cases hfind : tools.hasFind with
          | true =>
              simp only [hrg, hfind, Bool.false_eq_true, if_true, if_false, Option.some.injEq] at h
              subst h
              have hbounded := bounded_safe "-maxdepth" (by decide) q.depth
              simp only [Bool.false_eq_true, if_true, if_false, List.cons_append,
                List.forall_mem_cons, List.forall_mem_append, hstarts, hgreps, safe_plain,
                safe_between, List.append_assoc]
              grind
          | false => simp [hrg, hfind] at h
  | contents =>
      simp only [htarget] at h
      cases hrg : tools.hasRg with
      | true =>
          simp only [hrg, if_true, Option.some.injEq] at h
          subst h
          exact rgJson_safe q.depth (buildUnixPattern q.condition) paths
      | false =>
          cases hgrep : tools.hasGrep with
          | true =>
              cases hdepth : q.depth with
              | some depth =>
                  simp only [hrg, hgrep, hdepth, Bool.false_eq_true, if_true, if_false,
                    Option.some.injEq] at h
                  subst h
                  have hwords : ∀ a ∈ [plain "grep" (by decide), plain "-b" (by decide),
                      plain "-n" (by decide)], a.Safe := by simp
                  simp only [Bool.false_eq_true, if_true, if_false, List.forall_mem_append,
                    findExec_safe hwords, hawks]
                  grind
              | none =>
                  simp only [hrg, hgrep, hdepth, Bool.false_eq_true, if_true, if_false,
                    Option.some.injEq] at h
                  subst h
                  have hall := grepAll_safe (buildUnixPattern q.condition) paths
                  simp only [Bool.false_eq_true, if_true, if_false, List.forall_mem_append, hall,
                    hawks]
                  grind
          | false => simp [hrg, hgrep] at h

/-- Stamp metadata needed by parsers. -/
def stamp (q : SearchQuery) (cmd : SearchCommand) : SearchCommand :=
  { cmd with target := q.target, pattern := buildUnixPattern q.condition,
             «include» := q.options.include.map buildUnixPattern,
             exclude := q.options.exclude.map buildUnixPattern }

/-- One command for each of the searches. -/
theorem buildSearchCommands_eq (q : SearchQuery) (tools : SearchTools) :
    buildSearchCommands quote unix q tools
      = ((searches unix q).mapM fun paths => buildSearchCommand quote q.target paths
          (buildUnixPattern q.condition) tools (q.options.include.map buildUnixPattern)
          (q.options.exclude.map buildUnixPattern) q.depth).map (List.map (stamp q)) := by
  unfold buildSearchCommands searches SearchQuery.depth
  cases hup : q.options.upward with
  | true =>
      simp only [if_true, buildUpwardSearchCommands, List.mapM_map]
      rfl
  | false =>
      simp only [Bool.false_eq_true, if_false, List.mapM_cons, List.mapM_nil]
      cases buildSearchCommand quote q.target q.pathsOrCurrent (buildUnixPattern q.condition) tools
          (q.options.include.map buildUnixPattern) (q.options.exclude.map buildUnixPattern)
          q.options.maxDepth <;> rfl

theorem searches_ne_nil (q : SearchQuery) : searches unix q ≠ [] := by
  obtain ⟨paths, hpaths⟩ := q.exists_searches (climb unix)
  exact List.ne_nil_of_mem ((mem_searches unix q paths).mpr hpaths)

end Ssh

theorem SearchQuery.Searches.ne_nil {q : SearchQuery} {c : Climb} {paths : List Text}
    (h : q.Searches c paths) : paths ≠ [] := by
  unfold SearchQuery.Searches at h
  by_cases hup : q.options.upward = true
  · rw [if_pos hup] at h
    obtain ⟨p, -, n, d, -, -, rfl⟩ := h
    exact List.cons_ne_nil _ _
  · rw [if_neg hup] at h
    rw [h]
    exact q.pathsOrCurrent_ne_nil

namespace Ssh

variable (unix : UnixPaths)

theorem pipeline_ne_nil {target : SearchQueryTarget} {pattern : Text} {tools : SearchTools}
    {inc exc : Option Text} {maxDepth : Option Nat} {parts : List Text → List CommandPart}
    (h : pipeline target pattern tools inc exc maxDepth = some parts) (paths : List Text) :
    parts paths ≠ [] := by
  unfold pipeline at h
  repeat' split at h
  all_goals cases h
  all_goals simp [findExec]

/-- Without a tool there is no command. -/
theorem safeFor_of_none {q : SearchQuery} {tools : SearchTools} (h : pipelineOf q tools = none)
    (paths : List Text) : SafeFor q tools paths := by
  unfold pipelineOf pipeline at h
  unfold SafeFor
  cases htarget : q.target with
  | path =>
      cases hrg : tools.hasRg with
      | true => simp [htarget, hrg] at h
      | false =>
          cases hfind : tools.hasFind with
          | true => simp [htarget, hrg, hfind] at h
          | false => trivial
  | contents =>
      cases hrg : tools.hasRg with
      | true => simp [htarget, hrg] at h
      | false =>
          cases hgrep : tools.hasGrep with
          | true => cases hdepth : q.depth <;> simp [htarget, hrg, hgrep, hdepth] at h
          | false => trivial

theorem contained_iff {quote : Text → Text} (hquote : IsQuoting quote) (q : SearchQuery)
    (tools : SearchTools) : Contained quote unix q tools ↔ Safe unix q tools := by
  have hsearches := contained_iff_safe SearchCommand.command hquote
    (fun paths hmem => ((mem_searches unix q paths).mp hmem).ne_nil) (searches_ne_nil unix q)
    (fun parts => pipeline_ne_nil)
    (fun paths hne => buildSearchCommand_eq quote q.target hne (buildUnixPattern q.condition) tools
      (q.options.include.map buildUnixPattern) (q.options.exclude.map buildUnixPattern) q.depth)
  have hsafe : (∀ parts, pipelineOf q tools = some parts → ∀ paths ∈ searches unix q,
      ∀ a ∈ parts paths, a.Safe) ↔ Safe unix q tools :=
    safe_searches_iff (mem_searches unix q) (fun parts => safe_parts) safeFor_of_none
  rw [← hsafe]
  refine Iff.trans ?_ hsearches
  unfold Contained
  rw [buildSearchCommands_eq]
  constructor
  · intro h commands hok
    rw [hok] at h
    obtain ⟨parts, hp, hcontained⟩ := h (commands.map (stamp q)) rfl
    exact ⟨parts, hp, (List.forall₂_map_right_iff.mp hcontained)⟩
  · intro h commands hok
    cases hm : (searches unix q).mapM fun paths => buildSearchCommand quote q.target paths
        (buildUnixPattern q.condition) tools (q.options.include.map buildUnixPattern)
        (q.options.exclude.map buildUnixPattern) q.depth with
    | error e =>
        rw [hm] at hok
        cases hok
    | ok cs =>
        rw [hm] at hok
        cases hok
        obtain ⟨parts, hp, hcontained⟩ := h cs hm
        exact ⟨parts, hp, List.forall₂_map_right_iff.mpr hcontained⟩

end Ssh

namespace Docker

variable (tryQuote : Text → Option Text) (unix : UnixPaths)

def pipelineOf (q : SearchQuery) (tools : SearchTools) : Option (List Text → List CommandPart) :=
  pipeline q.target (buildUnixPattern q.condition) tools q.depth

def Contained (q : SearchQuery) (tools : SearchTools) : Prop :=
  ∀ commands, buildSearchCommands tryQuote unix q tools = .ok commands →
    ∃ parts, pipelineOf q tools = some parts ∧
      List.Forall₂ (fun paths c => ContainedAs (shellQuote tryQuote) c.command (parts paths))
        (searches unix q) commands

/-- What is asked of the texts that the command for some paths has in it: less than by the other
backend, as the filters do not get into the command. -/
def SafeFor (q : SearchQuery) (tools : SearchTools) (paths : List Text) : Prop :=
  let pattern := buildUnixPattern q.condition
  match q.target with
  | .path =>
    if tools.hasRg then ∀ p ∈ paths, Place.operand.Safe p
    else if tools.hasFind then ∀ p ∈ paths, Place.start.Safe p
    else True
  | .contents =>
    if tools.hasRg then (∀ p ∈ paths, Place.operand.Safe p) ∧ Place.operand.Safe pattern
    else if tools.hasGrep then
      match q.depth with
      | some _ =>
        if tools.hasFind then (∀ p ∈ paths, Place.start.Safe p) ∧ Place.executed.Safe pattern
        else True
      | none => (∀ p ∈ paths, Place.operand.Safe p) ∧ Place.operand.Safe pattern
    else True

def Safe (q : SearchQuery) (tools : SearchTools) : Prop :=
  ∀ paths, q.Searches (climb unix) paths → SafeFor q tools paths

theorem safe_parts {q : SearchQuery} {tools : SearchTools} {parts : List Text → List CommandPart}
    (h : pipelineOf q tools = some parts) (paths : List Text) :
    (∀ a ∈ parts paths, a.Safe) ↔ SafeFor q tools paths := by
  unfold pipelineOf pipeline at h
  unfold SafeFor
  have hoperands := paths_safe .operand paths
  have hstarts := paths_safe .start paths
  cases htarget : q.target with
  | path =>
      simp only [htarget] at h
      cases hrg : tools.hasRg with
      | true =>
          simp only [hrg, if_true, Option.some.injEq] at h
          subst h
          have hbounded := bounded_safe "--max-depth" (by decide) q.depth
          simp only [if_true, List.cons_append, List.forall_mem_cons, List.forall_mem_append,
            hoperands, safe_plain]
          grind
      | false =>
          cases hfind : tools.hasFind with
          | true =>
              simp only [hrg, hfind, Bool.false_eq_true, if_true, if_false, Option.some.injEq] at h
              subst h
              have hbounded := bounded_safe "-maxdepth" (by decide) q.depth
              have hprint : ∀ a ∈ [plain "-print" (by decide)], a.Safe := by simp
              simp only [Bool.false_eq_true, if_true, if_false, List.cons_append,
                List.forall_mem_cons, List.forall_mem_append, hstarts, safe_plain]
              grind
          | false => simp [hrg, hfind] at h
  | contents =>
      simp only [htarget] at h
      cases hrg : tools.hasRg with
      | true =>
          simp only [hrg, if_true, Option.some.injEq] at h
          subst h
          exact rgJson_safe q.depth (buildUnixPattern q.condition) paths
      | false =>
          cases hgrep : tools.hasGrep with
          | true =>
              cases hdepth : q.depth with
              | some depth =>
                  cases hfind : tools.hasFind with
                  | true =>
                      simp only [hrg, hgrep, hdepth, hfind, Bool.false_eq_true, if_true, if_false,
                        Option.some.injEq] at h
                      subst h
                      have hwords : ∀ a ∈ [plain "grep" (by decide), plain "-bn" (by decide)],
                          a.Safe := by simp
                      simp only [Bool.false_eq_true, if_true, if_false, findExec_safe hwords]
                  | false => simp [hrg, hgrep, hdepth, hfind] at h
              | none =>
                  simp only [hrg, hgrep, hdepth, Bool.false_eq_true, if_true, if_false,
                    Option.some.injEq] at h
                  subst h
                  exact grepAll_safe (buildUnixPattern q.condition) paths
          | false => simp [hrg, hgrep] at h

/-- Without a tool there is no command. -/
theorem safeFor_of_none {q : SearchQuery} {tools : SearchTools} (h : pipelineOf q tools = none)
    (paths : List Text) : SafeFor q tools paths := by
  unfold pipelineOf pipeline at h
  unfold SafeFor
  cases htarget : q.target with
  | path =>
      cases hrg : tools.hasRg with
      | true => simp [htarget, hrg] at h
      | false =>
          cases hfind : tools.hasFind with
          | true => simp [htarget, hrg, hfind] at h
          | false => trivial
  | contents =>
      cases hrg : tools.hasRg with
      | true => simp [htarget, hrg] at h
      | false =>
          cases hgrep : tools.hasGrep with
          | true =>
              cases hdepth : q.depth with
              | some depth =>
                  cases hfind : tools.hasFind with
                  | true => simp [htarget, hrg, hgrep, hdepth, hfind] at h
                  | false => trivial
              | none => simp [htarget, hrg, hgrep, hdepth] at h
          | false => trivial

theorem pipeline_ne_nil {target : SearchQueryTarget} {pattern : Text} {tools : SearchTools}
    {maxDepth : Option Nat} {parts : List Text → List CommandPart}
    (h : pipeline target pattern tools maxDepth = some parts) (paths : List Text) :
    parts paths ≠ [] := by
  unfold pipeline at h
  repeat' split at h
  all_goals cases h
  all_goals simp [findExec]

theorem searches_ne_nil (q : SearchQuery) : searches unix q ≠ [] := by
  obtain ⟨paths, hpaths⟩ := q.exists_searches (climb unix)
  exact List.ne_nil_of_mem ((mem_searches unix q paths).mpr hpaths)

theorem buildPathsString_eq (q : SearchQuery) :
    buildPathsString tryQuote q.paths
      = [' '].intercalate (q.pathsOrCurrent.map (shellQuote tryQuote)) := by
  unfold buildPathsString SearchQuery.pathsOrCurrent
  by_cases h : q.paths = []
  · simp [h, List.intercalate]
  · simp only [h, if_false]

/-- One command for each of the searches. -/
theorem buildSearchCommands_eq (q : SearchQuery) (tools : SearchTools) :
    buildSearchCommands tryQuote unix q tools
      = (searches unix q).mapM fun paths => buildSearchCommand tryQuote q.target
          ([' '].intercalate (paths.map (shellQuote tryQuote))) (buildUnixPattern q.condition) tools
          q.depth := by
  unfold buildSearchCommands searches SearchQuery.depth
  cases hup : q.options.upward with
  | true =>
      have hone : ∀ dir, [' '].intercalate ([dir].map (shellQuote tryQuote))
          = shellQuote tryQuote dir := fun dir => by simp [List.intercalate]
      simp only [if_true, buildUpwardSearchCommands, List.mapM_map, Function.comp_def, hone]
  | false =>
      simp only [Bool.false_eq_true, if_false, List.mapM_cons, List.mapM_nil, buildPathsString_eq]
      cases buildSearchCommand tryQuote q.target
          ([' '].intercalate (q.pathsOrCurrent.map (shellQuote tryQuote)))
          (buildUnixPattern q.condition) tools q.options.maxDepth <;> rfl

theorem contained_iff (hquote : IsQuoting (shellQuote tryQuote)) (q : SearchQuery)
    (tools : SearchTools) : Contained tryQuote unix q tools ↔ Safe unix q tools := by
  have hsearches := contained_iff_safe SearchCommand.command hquote
    (fun paths hmem => ((mem_searches unix q paths).mp hmem).ne_nil) (searches_ne_nil unix q)
    (fun parts => pipeline_ne_nil)
    (fun paths hne => buildSearchCommand_eq tryQuote q.target hne (buildUnixPattern q.condition) tools
      q.depth)
  have hsafe : (∀ parts, pipelineOf q tools = some parts → ∀ paths ∈ searches unix q,
      ∀ a ∈ parts paths, a.Safe) ↔ Safe unix q tools :=
    safe_searches_iff (mem_searches unix q) (fun parts => safe_parts) safeFor_of_none
  rw [← hsafe]
  unfold Contained
  rw [buildSearchCommands_eq]
  exact hsearches

/-- The quoting fails for a text with a NUL, and this goes into the command as it is. -/
theorem isQuoting_shellQuote (hnone : ∀ s, tryQuote s = none ↔ nul ∈ s)
    (hsome : ∀ s quoted, tryQuote s = some quoted → Quotes quoted s) :
    IsQuoting (shellQuote tryQuote) where
  quotes s hnul := by
    cases h : tryQuote s with
    | none => exact absurd ((hnone s).mp h) hnul
    | some quoted =>
        have hquoted : shellQuote tryQuote s = quoted := by simp [shellQuote, h]
        rw [hquoted]
        exact hsome s quoted h
  keeps_nul s hnul := by
    have hraw : shellQuote tryQuote s = s := by simp [shellQuote, (hnone s).mpr hnul]
    rwa [hraw]

end Docker

/-! ## Both backends -/

section

variable {quote : Text → Text} {tryQuote : Text → Option Text}

/-- The commands of a search are contained if every text is, for the tool that gets it, what it is
meant to be, and, where it is not quoted by the backend, has no quote in it. -/
theorem contained_everywhere (hssh : IsQuoting quote) (hnone : ∀ s, tryQuote s = none ↔ nul ∈ s)
    (hsome : ∀ s quoted, tryQuote s = some quoted → Quotes quoted s) (unix : UnixPaths)
    (q : SearchQuery) (tools : SearchTools) :
    (Ssh.Contained quote unix q tools ↔ Ssh.Safe unix q tools) ∧
      (Docker.Contained tryQuote unix q tools ↔ Docker.Safe unix q tools) :=
  ⟨Ssh.contained_iff unix hssh q tools,
    Docker.contained_iff tryQuote unix (Docker.isQuoting_shellQuote tryQuote hnone hsome) q tools⟩

end

/-- As both crates quote. -/
def quoteWord (s : Text) : Text :=
  if isPlainText s then s else quoteSingle s

theorem isQuoting_quoteWord : IsQuoting quoteWord where
  quotes s hnul := by
    unfold quoteWord
    by_cases h : isPlainText s = true
    · rw [if_pos h]
      exact quotes_plain h
    · rw [if_neg h]
      exact quotes_quoteSingle hnul
  keeps_nul s hnul := by
    have hspecial : ¬ isPlainText s = true := fun h =>
      absurd (((isPlainText_iff s).mp h).2 nul hnul) (by decide)
    rw [quoteWord, if_neg hspecial]
    exact mem_quoteSingle hnul

def tryQuoteWord (s : Text) : Option Text := if nul ∈ s then none else some (quoteWord s)

/-- A path up to its last slash. -/
def upToSlash (p : Text) : Text := (p.reverse.dropWhile fun c => c != '/').reverse

theorem upToSlash_begins (p : Text) : upToSlash p <+: p := by
  unfold upToSlash
  rw [← List.reverse_suffix, List.reverse_reverse]
  exact List.dropWhile_suffix _

/-- Paths without repeated or trailing slashes. -/
def slashPaths : UnixPaths where
  parent p :=
    if p = [] ∨ p = ['/'] then none
    else if upToSlash p = ['/'] then some ['/']
    else some (upToSlash p).dropLast
  parent_begins p q h := by
    have hbegins := upToSlash_begins p
    split at h
    · cases h
    · rename_i hroot
      rw [not_or] at hroot
      split at h
      · rename_i hslash
        cases h
        rw [hslash] at hbegins
        refine ⟨hbegins, hbegins.length_le.lt_of_ne fun heq => ?_⟩
        exact hroot.2 (hbegins.eq_of_length heq).symm
      · cases h
        refine ⟨( List.dropLast_prefix _).trans hbegins, ?_⟩
        have hle := hbegins.length_le
        have hpos := List.length_pos_iff.mpr hroot.1
        rw [List.length_dropLast]
        omega

def quotedQuery : SearchQuery where
  target := .path
  condition := .contains "it's".toList
  paths := ["/srv/my files".toList]
  options := { «include» := none, exclude := some (.endsWith ".bak".toList), upward := false,
               maxDepth := some 3 }

def allTools : SearchTools := ⟨true, true, true⟩

theorem tryQuoteWord_none (s : Text) : tryQuoteWord s = none ↔ nul ∈ s := by
  simp [tryQuoteWord]

theorem tryQuoteWord_some (s quoted : Text) (h : tryQuoteWord s = some quoted) :
    Quotes quoted s := by
  unfold tryQuoteWord at h
  split at h
  · cases h
  · rename_i hnul
    cases h
    exact isQuoting_quoteWord.quotes s hnul

theorem contained_quoted : Ssh.Contained quoteWord slashPaths quotedQuery allTools ∧
    Docker.Contained tryQuoteWord slashPaths quotedQuery allTools := by
  have hboth := contained_everywhere isQuoting_quoteWord tryQuoteWord_none tryQuoteWord_some
    slashPaths quotedQuery allTools
  constructor
  · refine hboth.1.mpr fun paths hpaths => ?_
    cases hpaths
    show (∀ p ∈ quotedQuery.paths, Place.operand.Safe p) ∧
      Place.operand.Safe (Ssh.buildUnixPattern quotedQuery.condition) ∧
      ∀ c ∈ [SearchQueryCondition.endsWith ".bak".toList], Place.operand.Safe (Ssh.buildUnixPattern c)
    decide
  · refine hboth.2.mpr fun paths hpaths => ?_
    cases hpaths
    show ∀ p ∈ quotedQuery.paths, Place.operand.Safe p
    decide

/-- A search that has `find` look for a path, as a pattern that ends the quotes and the command. -/
def endingQuery : SearchQuery where
  target := .path
  condition := .regex "'; touch owned; '".toList
  paths := []
  options := { «include» := none, exclude := none, upward := false, maxDepth := none }

/-- A path that is an option of the tool. -/
def dashQuery : SearchQuery where
  target := .contents
  condition := .contains "x".toList
  paths := ["--pre=./run".toList]
  options := { «include» := none, exclude := none, upward := false, maxDepth := none }

def findOnly : SearchTools := ⟨false, false, true⟩

theorem not_contained :
    (∃ cmd, Ssh.buildSearchCommands quoteWord slashPaths endingQuery findOnly = .ok [cmd] ∧
      split cmd.command = some [.word "find".toList, .word ".".toList, .word "-regex".toList,
        .word ".*".toList, .op ';', .word "touch".toList, .word "owned".toList, .op ';',
        .word ".*".toList, .word "-print".toList]) ∧
      ¬ Ssh.Contained quoteWord slashPaths endingQuery findOnly ∧
      ¬ Ssh.Contained quoteWord slashPaths dashQuery allTools ∧
      ¬ Docker.Contained tryQuoteWord slashPaths dashQuery allTools := by
  have hdocker := Docker.isQuoting_shellQuote tryQuoteWord tryQuoteWord_none tryQuoteWord_some
  refine ⟨⟨_, rfl, by decide⟩, ?_, ?_, ?_⟩
  · rw [Ssh.contained_iff slashPaths isQuoting_quoteWord]
    intro h
    have hsafe := h [['.']] rfl
    have hquote : '\'' ∉ Ssh.buildUnixPattern endingQuery.condition := hsafe.2.1.2
    exact absurd hquote (by decide)
  · rw [Ssh.contained_iff slashPaths isQuoting_quoteWord]
    intro h
    have hsafe := h ["--pre=./run".toList] rfl
    have hpath : Place.operand.Safe "--pre=./run".toList := hsafe.1 _ (List.mem_singleton_self _)
    exact absurd hpath (by decide)
  · rw [Docker.contained_iff tryQuoteWord slashPaths hdocker]
    intro h
    have hsafe := h ["--pre=./run".toList] rfl
    have hpath : Place.operand.Safe "--pre=./run".toList := hsafe.1 _ (List.mem_singleton_self _)
    exact absurd hpath (by decide)

end Distant
