import Distant.Lib.Rust
import Distant.Lib.Shell
import Distant.Search.Condition

/-!
# The commands of a search

The backends that have no search of their own run `rg`, `grep` or `find` where the files are. The
command is one text, put together from what the query says and given to a shell there. How a text is
quoted for the shell, and what the parent of a path is, comes from other crates; both are parameters.
-/

namespace Distant

inductive SearchQueryTarget where
  | contents
  | path
  deriving DecidableEq, Repr

structure SearchQueryOptions where
  «include» : Option SearchQueryCondition
  exclude : Option SearchQueryCondition
  upward : Bool
  maxDepth : Option Nat

structure SearchQuery where
  target : SearchQueryTarget
  condition : SearchQueryCondition
  paths : List Text
  options : SearchQueryOptions

structure SearchTools where
  hasRg : Bool
  hasGrep : Bool
  hasFind : Bool

/-- Unix paths, as far as the way up goes: a parent is what a path begins with. -/
structure UnixPaths where
  parent : Text → Option Text
  parent_begins : ∀ p q, parent p = some q → q <+: p ∧ q.length < p.length

/-- `{}` of a number -/
def decimal (n : Nat) : Text := Nat.toDigits 10 n

def noTools (text : String) : IoError := .new .unsupported text

/-! ## The way up -/

/-- A way up that ends: every step leads to something smaller. -/
structure Climb where
  up : Text → Option Text
  size : Text → Nat
  smaller : ∀ p q, up p = some q → size q < size p

/-- What is passed on the way up, when no more than `remaining` steps are to be taken. -/
def Climb.ancestors (c : Climb) (remaining : Option Nat) (current : Text) : List Text :=
  match h : c.up current with
  | none => []
  | some parent =>
    if remaining = some 0 then []
    else parent :: c.ancestors (remaining.map (· - 1)) parent
termination_by c.size current
decreasing_by exact c.smaller current parent h

/-- The paths of a query, which are those of the directory it is run in if there are none. -/
def SearchQuery.pathsOrCurrent (q : SearchQuery) : List Text :=
  if q.paths = [] then [['.']] else q.paths

namespace Ssh

inductive SearchTool where
  | rg
  | grep
  | find
  deriving DecidableEq, Repr

structure SearchCommand where
  command : Text
  tool : SearchTool
  target : SearchQueryTarget
  pattern : Text
  «include» : Option Text
  exclude : Option Text
  deriving DecidableEq, Repr

section

variable (quote : Text → Text) (unix : UnixPaths)

/-- Awk processes a backslash as an escape character in `-v` assignments. -/
def awkEscapeRegex (s : Text) : Text := s.flatMap fun c => if c = '\\' then ['\\', '\\'] else [c]

def shellQuote (s : Text) : Text := quote s

/-- Texts with a blank between them. -/
def quotePaths (paths : List Text) : Text := [' '].intercalate (paths.map (shellQuote quote))

def appendPathFilters (cmd : Text) (inc exc : Option Text) : Text :=
  let cmd := match inc with
    | none => cmd
    | some p => cmd ++ " | awk -F: -v pat=".toList ++ shellQuote quote (awkEscapeRegex p)
        ++ " '$1 ~ pat'".toList
  match exc with
  | none => cmd
  | some p => cmd ++ " | awk -F: -v pat=".toList ++ shellQuote quote (awkEscapeRegex p)
      ++ " '$1 !~ pat'".toList

/-- The filters of a list of paths. -/
def appendGrepFilters (cmd : Text) (inc exc : Option Text) : Text :=
  let cmd := match inc with
    | none => cmd
    | some p => cmd ++ " | grep -E ".toList ++ shellQuote quote p
  match exc with
  | none => cmd
  | some p => cmd ++ " | grep -vE ".toList ++ shellQuote quote p

def appendDepth (cmd : Text) (option : String) (maxDepth : Option Nat) : Text :=
  match maxDepth with
  | none => cmd
  | some depth => cmd ++ option.toList ++ decimal depth

def buildPathSearchCommand (paths : List Text) (pattern : Text) (tools : SearchTools)
    (inc exc : Option Text) (maxDepth : Option Nat) : Except IoError SearchCommand :=
  let quotedPaths := quotePaths quote paths
  let quotedPattern := shellQuote quote pattern
  if tools.hasRg then
    let cmd := appendDepth "rg --files".toList " --max-depth " maxDepth
    let cmd := cmd ++ " ".toList ++ quotedPaths ++ " | grep -E ".toList ++ quotedPattern
    .ok { command := appendGrepFilters quote cmd inc exc, tool := .rg, target := .path,
          pattern := [], «include» := none, exclude := none }
  else if tools.hasFind then
    let cmd := appendDepth ("find ".toList ++ quotedPaths) " -maxdepth " maxDepth
    let cmd := cmd ++ " -regex '.*".toList ++ pattern ++ ".*' -print".toList
    .ok { command := appendGrepFilters quote cmd inc exc, tool := .find, target := .path,
          pattern := [], «include» := none, exclude := none }
  else .error (noTools "No search tools available (need rg or find)")

def buildContentsSearchCommand (paths : List Text) (pattern : Text) (tools : SearchTools)
    (inc exc : Option Text) (maxDepth : Option Nat) : Except IoError SearchCommand :=
  let quotedPaths := quotePaths quote paths
  let quotedPattern := shellQuote quote pattern
  if tools.hasRg then
    let cmd := appendDepth "rg --json".toList " --max-depth " maxDepth
    .ok { command := cmd ++ " ".toList ++ quotedPattern ++ " ".toList ++ quotedPaths,
          tool := .rg, target := .contents, pattern := [], «include» := inc, exclude := exc }
  else if tools.hasGrep then
    match maxDepth with
    | some depth =>
      let cmd := "find ".toList ++ quotedPaths ++ " -maxdepth ".toList ++ decimal depth
        ++ " -type f -exec grep -b -n ".toList ++ quotedPattern ++ " {} /dev/null \\;".toList
      .ok { command := appendPathFilters quote cmd inc exc, tool := .find, target := .contents,
            pattern := [], «include» := none, exclude := none }
    | none =>
      let cmd := "grep -rbn ".toList ++ quotedPattern ++ " ".toList ++ quotedPaths
      .ok { command := appendPathFilters quote cmd inc exc, tool := .grep, target := .contents,
            pattern := [], «include» := none, exclude := none }
  else .error (noTools "No search tools available (need rg or grep)")

def buildSearchCommand (target : SearchQueryTarget) (paths : List Text) (pattern : Text)
    (tools : SearchTools) (inc exc : Option Text) (maxDepth : Option Nat) :
    Except IoError SearchCommand :=
  match target with
  | .path => buildPathSearchCommand quote paths pattern tools inc exc maxDepth
  | .contents => buildContentsSearchCommand quote paths pattern tools inc exc maxDepth

/-- `None` for root (`/`) or relative paths with no parent component. -/
def parentPath (path : Text) : Option Text :=
  match unix.parent path with
  | some p => if p = [] then none else some p
  | none => none

def climb : Climb where
  up := parentPath unix
  size := List.length
  smaller p q h := by
    unfold parentPath at h
    cases hparent : unix.parent p with
    | none => simp [hparent] at h
    | some r =>
        by_cases hr : r = []
        · simp [hparent, hr] at h
        · simp only [hparent, hr, if_false, Option.some.injEq] at h
          rw [← h]
          exact (unix.parent_begins p r hparent).2

/-- Of neighbours that are equal, one stays. -/
def dedupNeighbours : List Text → List Text
  | a :: b :: l => if a = b then dedupNeighbours (b :: l) else a :: dedupNeighbours (b :: l)
  | l => l

/-- The order of texts, character by character. -/
def textLe : Text → Text → Bool
  | [], _ => true
  | _ :: _, [] => false
  | a :: as, b :: bs => a.toNat < b.toNat || (a == b && textLe as bs)

/-- `all_dirs`: where an upward search looks -/
def allDirs (query : SearchQuery) : List Text :=
  let dirs := query.pathsOrCurrent.flatMap fun path =>
    path :: (climb unix).ancestors query.options.maxDepth path
  dedupNeighbours (dirs.mergeSort textLe)

def buildUpwardSearchCommands (query : SearchQuery) (pattern : Text) (tools : SearchTools)
    (inc exc : Option Text) : Except IoError (List SearchCommand) :=
  (allDirs unix query).mapM fun dir =>
    buildSearchCommand quote query.target [dir] pattern tools inc exc (some 1)

def buildSearchCommands (query : SearchQuery) (tools : SearchTools) :
    Except IoError (List SearchCommand) :=
  let pattern := buildUnixPattern query.condition
  let inc := query.options.include.map buildUnixPattern
  let exc := query.options.exclude.map buildUnixPattern
  let commands :=
    if query.options.upward then buildUpwardSearchCommands quote unix query pattern tools inc exc
    else (buildSearchCommand quote query.target query.pathsOrCurrent pattern tools inc exc
      query.options.maxDepth).map fun cmd => [cmd]
  -- stamp metadata needed by parsers onto each command
  commands.map fun commands => commands.map fun cmd =>
    { cmd with target := query.target, pattern := pattern, «include» := inc, exclude := exc }

end

end Ssh

namespace Docker

inductive SearchTool where
  | ripgrep
  | grep
  | find
  deriving DecidableEq, Repr

structure SearchCommand where
  command : Text
  tool : SearchTool
  deriving DecidableEq, Repr

section

variable (tryQuote : Text → Option Text) (unix : UnixPaths)

/-- Falls back to the original text if it contains NUL (which shells can't handle). -/
def shellQuote (s : Text) : Text := (tryQuote s).getD s

def buildPathsString (paths : List Text) : Text :=
  if paths = [] then shellQuote tryQuote ['.']
  else [' '].intercalate (paths.map (shellQuote tryQuote))

def appendDepth (cmd : Text) (option : String) (maxDepth : Option Nat) : Text :=
  match maxDepth with
  | none => cmd
  | some depth => cmd ++ option.toList ++ decimal depth

/-- The pattern and the filters are applied when the output is read. -/
def buildPathSearchCommand (paths : Text) (tools : SearchTools) (maxDepth : Option Nat) :
    Except IoError SearchCommand :=
  if tools.hasRg then
    let cmd := appendDepth "rg --files".toList " --max-depth " maxDepth
    .ok { command := cmd ++ " ".toList ++ paths, tool := .ripgrep }
  else if tools.hasFind then
    let cmd := appendDepth ("find ".toList ++ paths) " -maxdepth " maxDepth
    .ok { command := cmd ++ " -print".toList, tool := .find }
  else .error (noTools "No search tools available (need rg or find)")

def buildContentsSearchCommand (paths pattern : Text) (tools : SearchTools)
    (maxDepth : Option Nat) : Except IoError SearchCommand :=
  let quotedPattern := shellQuote tryQuote pattern
  if tools.hasRg then
    let cmd := appendDepth "rg --json".toList " --max-depth " maxDepth
    .ok { command := cmd ++ " ".toList ++ quotedPattern ++ " ".toList ++ paths, tool := .ripgrep }
  else if tools.hasGrep then
    match maxDepth with
    | some depth =>
      if tools.hasFind then
        .ok { command := "find ".toList ++ paths ++ " -maxdepth ".toList ++ decimal depth
                ++ " -type f -exec grep -bn ".toList ++ quotedPattern ++ " {} /dev/null \\;".toList
              tool := .find }
      else .error (noTools "max_depth search requires find, but it is not available")
    | none =>
      .ok { command := "grep -rbn ".toList ++ quotedPattern ++ " ".toList ++ paths, tool := .grep }
  else .error (noTools "No search tools available (need rg or grep)")

def buildSearchCommand (target : SearchQueryTarget) (paths pattern : Text) (tools : SearchTools)
    (maxDepth : Option Nat) : Except IoError SearchCommand :=
  match target with
  | .path => buildPathSearchCommand paths tools maxDepth
  | .contents => buildContentsSearchCommand tryQuote paths pattern tools maxDepth

/-- `"/"` for root paths and `"."` for relative paths with no parent. -/
def unixParent (path : Text) : Text :=
  match unix.parent path with
  | some p => if p = [] then ['.'] else p
  | none => path

/-- `"."` is its own parent, and smaller than all others. -/
def climbSize (path : Text) : Nat := if path = ['.'] then 0 else path.length + 1

def climb : Climb where
  up path := if unixParent unix path = path then none else some (unixParent unix path)
  size := climbSize
  smaller p q h := by
    split at h
    · cases h
    · rename_i hne
      cases h
      unfold unixParent at hne ⊢
      cases hparent : unix.parent p with
      | none => exact absurd (by simp [hparent]) hne
      | some r =>
          simp only [hparent] at hne ⊢
          have hlt := (unix.parent_begins p r hparent).2
          by_cases hr : r = []
          · simp only [hr, if_true] at hne ⊢
            have hp : p ≠ ['.'] := fun heq => hne heq.symm
            simp [climbSize, hp]
          · have hpos := List.length_pos_iff.mpr hr
            have hp : p ≠ ['.'] := by
              rintro rfl
              rw [List.length_singleton] at hlt
              omega
            simp only [hr, if_false, climbSize, hp]
            split <;> omega

def buildUpwardSearchCommands (query : SearchQuery) (pattern : Text) (tools : SearchTools) :
    Except IoError (List SearchCommand) :=
  (query.pathsOrCurrent.flatMap fun path =>
    path :: (climb unix).ancestors query.options.maxDepth path).mapM fun dir =>
      buildSearchCommand tryQuote query.target (shellQuote tryQuote dir) pattern tools (some 1)

def buildSearchCommands (query : SearchQuery) (tools : SearchTools) :
    Except IoError (List SearchCommand) :=
  let pattern := buildUnixPattern query.condition
  if query.options.upward then buildUpwardSearchCommands tryQuote unix query pattern tools
  else (buildSearchCommand tryQuote query.target (buildPathsString tryQuote query.paths) pattern
    tools query.options.maxDepth).map fun cmd => [cmd]

end

end Docker

end Distant
