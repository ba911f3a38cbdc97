import Distant.Lib.Sorted
import Distant.Search.Commands
import Mathlib.Data.Char
import Mathlib.Data.List.Lex
import Mathlib.Data.Prod.Lex

/-!
# Where a host search looks

The host turns the paths of a query into the roots of one walk: the paths themselves, or for an
upward search what is above them, sorted and without what is there already. The walk opens the roots,
and those directories below them that are not too deep. `wellAimed_iff` says when it looks where the
options promise, and there only once.
-/

namespace Distant

/-! ## Paths on Unix -/

inductive Component where
  | rootDir
  | curDir
  | parentDir
  | normal (name : Text)
  deriving DecidableEq, Repr

/-- Components compare by their kinds, in this order, and then by their names. -/
def Component.key : Component → Nat ×ₗ Text
  | rootDir => toLex (0, [])
  | curDir => toLex (1, [])
  | parentDir => toLex (2, [])
  | normal name => toLex (3, name)

theorem Component.key_injective : Function.Injective Component.key := by
  intro c d h
  cases c <;> cases d <;> simp_all [key]

instance : LinearOrder Component := LinearOrder.lift' Component.key Component.key_injective

/-- `parse_single_component` -/
def Component.parse (piece : Text) : Option Component :=
  if piece = [] ∨ piece = ['.'] then none
  else if piece = ['.', '.'] then some .parentDir
  else some (.normal piece)

/-- Two paths are the same if their components are, whatever their texts. -/
@[ext]
structure HostPath where
  components : List Component
  deriving DecidableEq, Repr

namespace HostPath

theorem components_injective : Function.Injective components := fun _ _ => HostPath.ext

instance : LinearOrder HostPath := LinearOrder.lift' components components_injective

/-- A dot is kept where a relative path begins with it. -/
def ofText (text : Text) : HostPath :=
  let pieces := text.splitOn '/'
  let front := if text.head? = some '/' then [.rootDir]
    else if pieces.head? = some ['.'] then [.curDir] else []
  ⟨front ++ pieces.filterMap Component.parse⟩

def parent (path : HostPath) : Option HostPath :=
  match path.components.getLast? with
  | none => none
  | some .rootDir => none
  | some _ => some ⟨path.components.dropLast⟩

/-- What is `n` steps above a path. -/
def ancestor : Nat → HostPath → Option HostPath
  | 0, path => some path
  | n + 1, path => path.parent.bind (ancestor n)

/-- What has these names from a path on. -/
def below (path : HostPath) (names : List Text) : HostPath :=
  ⟨path.components ++ names.map .normal⟩

variable {path path' : HostPath} {names names' : List Text}

theorem parent_eq_some_iff :
    path.parent = some path' ↔ ∃ c, c ≠ .rootDir ∧ path = ⟨path'.components ++ [c]⟩ := by
  obtain ⟨cs⟩ := path
  rcases List.eq_nil_or_concat cs with rfl | ⟨cs, c, rfl⟩
  · simp [parent]
  · have hparent : parent ⟨cs.concat c⟩ = if c = .rootDir then none else some ⟨cs⟩ := by
      rw [List.concat_eq_append, parent, List.getLast?_concat, List.dropLast_concat]
      cases c <;> rfl
    rw [hparent]
    constructor
    · intro h
      split at h
      · cases h
      · cases h
        exact ⟨c, ‹_›, by rw [List.concat_eq_append]⟩
    · rintro ⟨d, hd, h⟩
      have hends : cs ++ [c] = path'.components ++ [d] := by
        rw [← List.concat_eq_append]
        exact congrArg components h
      obtain ⟨rfl, hlast⟩ := List.append_inj' hends rfl
      cases hlast
      rw [if_neg hd]

theorem length_parent (h : path.parent = some path') :
    path'.components.length < path.components.length := by
  obtain ⟨c, -, rfl⟩ := parent_eq_some_iff.mp h
  rw [List.length_append]
  exact Nat.lt_succ_self _

@[simp]
theorem below_nil (path : HostPath) : path.below [] = path := by
  rw [below, List.map_nil, List.append_nil]

theorem parent_below (path : HostPath) (name : Text) : (path.below [name]).parent = some path :=
  parent_eq_some_iff.mpr ⟨.normal name, nofun, rfl⟩

theorem below_injective (h : path.below names = path.below names') : names = names' := by
  have hnames : names.map Component.normal = names'.map .normal :=
    List.append_cancel_left (congrArg components h)
  exact List.map_injective_iff.mpr (fun _ _ => Component.normal.inj) hnames

end HostPath

/-! ## The roots -/

/-- The paths above one, from below, while there are any and some remain to be taken. -/
def ancestorPaths (remaining : Option Nat) (path : HostPath) : List HostPath :=
  match h : path.parent with
  | none => []
  | some parent =>
    if remaining = some 0 then []
    else parent :: ancestorPaths (remaining.map (· - 1)) parent
termination_by path.components.length
decreasing_by exact HostPath.length_parent h

namespace SearchQuery

variable (q : SearchQuery)

def nativePaths : List HostPath := q.paths.map HostPath.ofText

/-- `query.options.max_depth.is_none() || query.options.max_depth > Some(0)` -/
def climbs : Bool :=
  match q.options.maxDepth with
  | none => true
  | some depth => 0 < depth

def targetPaths : List HostPath :=
  q.nativePaths.flatMap fun path =>
    (if q.options.upward = false ∨ q.options.maxDepth = some 0 then [path] else []) ++
      if q.options.upward = true ∧ q.climbs = true then ancestorPaths q.options.maxDepth path else []

end SearchQuery

/-- What `build_parallel` is told of where to walk. -/
structure Walker where
  roots : List HostPath
  maxDepth : Option Nat

structure SearchQueryExecutor (Matcher : Type) where
  query : SearchQuery
  matcher : Matcher
  walker : Walker

/-- A matcher that cannot be built has an error with a text. The first of the roots is indexed. -/
def SearchQueryExecutor.new {Matcher : Type} (build : Text → Except String Matcher)
    (query : SearchQuery) : Except Fault (SearchQueryExecutor Matcher) :=
  match build query.condition.toRegexString with
  | .error text => .error (.io (.new .invalidInput text))
  | .ok matcher =>
    if query.paths = [] then .error (.io (.new .invalidInput "missing paths"))
    else
      match query.targetPaths.sortDedup with
      | [] => .error (.panic .slice)
      | first :: rest =>
        .ok { query, matcher,
              walker := { roots := first :: rest
                          maxDepth := if query.options.upward = true then some 1
                            else query.options.maxDepth } }

/-! ## The walk -/

/-- What is on disk: the names in each path that is a directory. -/
structure Disk where
  entries : HostPath → Option (List Text)

def Disk.IsDir (disk : Disk) (path : HostPath) : Prop := disk.entries path ≠ none

namespace Walker

variable (walker : Walker) (disk : Disk)

/-- A directory at this depth is opened. -/
def Opens (depth : Nat) : Prop := ∀ k, walker.maxDepth = some k → depth < k

/-- From the root that is at `i`, the walk comes to what has these names below it. -/
inductive Visits (i : Nat) (root : HostPath) : List Text → Prop where
  | root (h : walker.roots[i]? = some root) : Visits i root []
  | entry {names entries : List Text} {name : Text} (h : Visits i root names)
      (hopens : walker.Opens names.length) (hdir : disk.entries (root.below names) = some entries)
      (hname : name ∈ entries) : Visits i root (names ++ [name])

/-- The walk goes through the entries of a directory. -/
def Searches (dir : HostPath) : Prop :=
  ∃ i root names, walker.Visits disk i root names ∧ walker.Opens names.length ∧
    dir = root.below names ∧ disk.IsDir dir

/-- The walk comes once to what is reported. An entry may be reported at one depth and not at
another. -/
def ReportsOnce (reports : Nat → HostPath → Prop) : Prop :=
  ∀ i root names j root' names', walker.Visits disk i root names →
    walker.Visits disk j root' names' → root.below names = root'.below names' →
    reports names.length (root.below names) → reports names'.length (root'.below names') →
    i = j ∧ names = names'

end Walker

namespace SearchQuery

variable (q : SearchQuery)

/-- The `n`-th ancestor of a given path, or the path itself, where no more than `max_depth` are
wanted. -/
def InReach (n : Nat) (dir : HostPath) : Prop :=
  (∀ k, q.options.maxDepth = some k → n ≤ k) ∧ ∃ path ∈ q.nativePaths, path.ancestor n = some dir

/-- A given path is no root itself, but if there is nothing to climb. -/
def IsRoot (dir : HostPath) : Prop :=
  ∃ n, q.InReach n dir ∧ (n = 0 ↔ q.options.maxDepth = some 0)

/-- The search is set up without a panic. One that goes upward looks in the given directories and in
all in reach above them, and what it reports it comes to once. -/
def WellAimed {Matcher : Type} (build : Text → Except String Matcher) (disk : Disk)
    (reports : Nat → HostPath → Prop) : Prop :=
  (∀ panic, SearchQueryExecutor.new build q ≠ .error (.panic panic)) ∧
    (q.options.upward = true → ∀ executor, SearchQueryExecutor.new build q = .ok executor →
      (∀ dir, executor.walker.Searches disk dir ↔ (∃ n, q.InReach n dir) ∧ disk.IsDir dir) ∧
      executor.walker.ReportsOnce disk reports)

/-- There is a root; every given path that is a directory is one; and none of them is an entry of
another one, and reported as both. -/
def Clear (disk : Disk) (reports : Nat → HostPath → Prop) : Prop :=
  (q.options.maxDepth = some 0 ∨ ∃ path ∈ q.nativePaths, path.parent ≠ none) ∧
    (∀ path ∈ q.nativePaths, disk.IsDir path → q.IsRoot path) ∧
    ∀ dir entries name, q.IsRoot dir → disk.entries dir = some entries → name ∈ entries →
      q.IsRoot (dir.below [name]) → reports 0 (dir.below [name]) → ¬ reports 1 (dir.below [name])

end SearchQuery

/-! ## Which paths are roots -/

theorem mem_ancestorPaths (remaining : Option Nat) (path dir : HostPath) :
    dir ∈ ancestorPaths remaining path ↔
      ∃ n, n ≠ 0 ∧ (∀ k, remaining = some k → n ≤ k) ∧ path.ancestor n = some dir := by
  fun_induction ancestorPaths remaining path with
  | case1 remaining path htop =>
      refine ⟨nofun, ?_⟩
      rintro ⟨n, hn, -, ha⟩
      cases n with
      | zero => exact absurd rfl hn
      | succ n =>
          rw [HostPath.ancestor, htop] at ha
          cases ha
  | case2 path parent hup =>
      refine ⟨nofun, ?_⟩
      rintro ⟨n, hn, hk, -⟩
      exact absurd (Nat.le_zero.mp (hk 0 rfl)) hn
  | case3 remaining path parent hup hremaining ih =>
      rw [List.mem_cons, ih]
      constructor
      · rintro (rfl | ⟨n, hn, hk, ha⟩)
        · refine ⟨1, Nat.one_ne_zero, fun k h => ?_, by rw [HostPath.ancestor, hup]; rfl⟩
          rcases Nat.eq_zero_or_pos k with rfl | hpos
          · exact absurd h hremaining
          · exact hpos
        · refine ⟨n + 1, Nat.succ_ne_zero n, fun k h => ?_, by rw [HostPath.ancestor, hup]; exact ha⟩
          have hle := hk (k - 1) (by rw [h]; rfl)
          omega
      · rintro ⟨n, hn, hk, ha⟩
        cases n with
        | zero => exact absurd rfl hn
        | succ n =>
            rw [HostPath.ancestor, hup, Option.bind_some] at ha
            cases n with
            | zero => exact .inl (Option.some.inj ha).symm
            | succ n =>
                refine .inr ⟨n + 1, Nat.succ_ne_zero n, fun k h => ?_, ha⟩
                obtain ⟨k', hk', rfl⟩ := Option.map_eq_some_iff.mp h
                have hle := hk k' hk'
                omega

namespace SearchQuery

variable {q : SearchQuery}

theorem climbs_iff : q.climbs = true ↔ q.options.maxDepth ≠ some 0 := by
  unfold climbs
  cases q.options.maxDepth with
  | none => simp
  | some depth => simp [Nat.pos_iff_ne_zero]

theorem targetPaths_downward (h : q.options.upward = false) : q.targetPaths = q.nativePaths := by
  simp [targetPaths, h]

theorem mem_targetPaths (h : q.options.upward = true) (dir : HostPath) :
    dir ∈ q.targetPaths ↔ q.IsRoot dir := by
  rw [targetPaths, List.mem_flatMap]
  by_cases hzero : q.options.maxDepth = some 0
  · have hclimbs : ¬ q.climbs = true := fun hc => climbs_iff.mp hc hzero
    constructor
    · rintro ⟨path, hpath, hdir⟩
      rw [if_pos (.inr hzero), if_neg fun hup => hclimbs hup.2, List.append_nil,
        List.mem_singleton] at hdir
      subst hdir
      exact ⟨0, ⟨fun k _ => Nat.zero_le k, dir, hpath, rfl⟩, iff_of_true rfl hzero⟩
    · rintro ⟨n, ⟨-, path, hpath, ha⟩, hn⟩
      cases hn.mpr hzero
      cases ha
      exact ⟨_, hpath, by rw [if_pos (.inr hzero)]; exact List.mem_append_left _ (by simp)⟩
  · have hno : ¬ (q.options.upward = false ∨ q.options.maxDepth = some 0) := by
      rintro (hdown | hz)
      · rw [h] at hdown
        cases hdown
      · exact hzero hz
    have hclimbs := climbs_iff.mpr hzero
    simp only [if_neg hno, if_pos (And.intro h hclimbs), List.nil_append, mem_ancestorPaths]
    constructor
    · rintro ⟨path, hpath, n, hn, hk, ha⟩
      exact ⟨n, ⟨hk, path, hpath, ha⟩, iff_of_false hn hzero⟩
    · rintro ⟨n, ⟨hk, path, hpath, ha⟩, hn⟩
      exact ⟨path, hpath, n, fun hz => hzero (hn.mp hz), hk, ha⟩

/-- There is a root if one is needed: a given path, or what is right above one. -/
theorem exists_isRoot_iff (hpaths : q.paths ≠ []) :
    (∃ dir, q.IsRoot dir) ↔
      q.options.maxDepth = some 0 ∨ ∃ path ∈ q.nativePaths, path.parent ≠ none := by
  constructor
  · rintro ⟨dir, n, ⟨-, path, hpath, ha⟩, hn⟩
    cases n with
    | zero => exact .inl (hn.mp rfl)
    | succ n =>
        obtain ⟨parent, hup, -⟩ := Option.bind_eq_some_iff.mp ha
        exact .inr ⟨path, hpath, by rw [hup]; nofun⟩
  · intro h
    by_cases hzero : q.options.maxDepth = some 0
    · obtain ⟨text, htext⟩ := List.exists_mem_of_ne_nil _ hpaths
      exact ⟨.ofText text, 0, ⟨fun k _ => Nat.zero_le k, _, List.mem_map_of_mem htext, rfl⟩,
        iff_of_true rfl hzero⟩
    · obtain ⟨path, hpath, hup⟩ := h.resolve_left hzero
      obtain ⟨parent, hup⟩ := Option.ne_none_iff_exists'.mp hup
      refine ⟨parent, 1, ⟨fun k hk => ?_, path, hpath, by rw [HostPath.ancestor, hup]; rfl⟩,
        iff_of_false Nat.one_ne_zero hzero⟩
      exact Nat.one_le_iff_ne_zero.mpr fun hz => hzero (by rw [hk, hz])

end SearchQuery

/-! ## A walk that opens its roots only -/

namespace Walker

variable {walker : Walker} {disk : Disk} {i : Nat} {root : HostPath} {names : List Text}

theorem visits_root (h : walker.Visits disk i root names) : walker.roots[i]? = some root := by
  induction h with
  | root h => exact h
  | entry h hopens hdir hname ih => exact ih

theorem opens_iff (hdepth : walker.maxDepth = some 1) : walker.Opens names.length ↔ names = [] := by
  rw [Opens, hdepth, ← List.length_eq_zero_iff]
  constructor
  · intro h
    exact Nat.lt_one_iff.mp (h 1 rfl)
  · rintro h k hk
    cases hk
    exact Nat.lt_one_iff.mpr h

/-- The roots are visited, and their entries. -/
theorem visits_iff (hdepth : walker.maxDepth = some 1) :
    walker.Visits disk i root names ↔ walker.roots[i]? = some root ∧
      (names = [] ∨ ∃ entries name, disk.entries root = some entries ∧ name ∈ entries ∧
        names = [name]) := by
  constructor
  · intro h
    refine ⟨visits_root h, ?_⟩
    cases h with
    | root h => exact .inl rfl
    | entry h hopens hdir hname =>
        cases (opens_iff hdepth).mp hopens
        rw [HostPath.below_nil] at hdir
        exact .inr ⟨_, _, hdir, hname, rfl⟩
  · rintro ⟨hroot, rfl | ⟨entries, name, hdir, hname, rfl⟩⟩
    · exact .root hroot
    · refine .entry (.root hroot) ((opens_iff hdepth).mpr rfl) ?_ hname
      rwa [HostPath.below_nil]

theorem searches_iff (hdepth : walker.maxDepth = some 1) (dir : HostPath) :
    walker.Searches disk dir ↔ dir ∈ walker.roots ∧ disk.IsDir dir := by
  constructor
  · rintro ⟨i, root, names, hvisits, hopens, rfl, hdir⟩
    cases (opens_iff hdepth).mp hopens
    rw [HostPath.below_nil] at hdir ⊢
    exact ⟨List.mem_of_getElem? (visits_root hvisits), hdir⟩
  · rintro ⟨hroot, hdir⟩
    obtain ⟨i, hi⟩ := List.getElem?_of_mem hroot
    exact ⟨i, dir, [], .root hi, (opens_iff hdepth).mpr rfl, dir.below_nil.symm, hdir⟩

/-- What is reported twice is a root, and an entry of another root. -/
theorem reportsOnce_iff (hdepth : walker.maxDepth = some 1) (hnodup : walker.roots.Nodup)
    (reports : Nat → HostPath → Prop) :
    walker.ReportsOnce disk reports ↔ ∀ dir entries name, dir ∈ walker.roots →
      disk.entries dir = some entries → name ∈ entries → dir.below [name] ∈ walker.roots →
      reports 0 (dir.below [name]) → ¬ reports 1 (dir.below [name]) := by
  constructor
  · intro h dir entries name hroot hdir hname hentry hzero hone
    obtain ⟨i, hi⟩ := List.getElem?_of_mem hroot
    obtain ⟨j, hj⟩ := List.getElem?_of_mem hentry
    have hvisits : walker.Visits disk i dir [name] :=
      (visits_iff hdepth).mpr ⟨hi, .inr ⟨entries, name, hdir, hname, rfl⟩⟩
    have hsame := h j (dir.below [name]) [] i dir [name] (.root hj) hvisits (HostPath.below_nil _)
    rw [HostPath.below_nil] at hsame
    cases (hsame hzero hone).2
  · intro h i root names j root' names' hvisits hvisits' hpath hreports hreports'
    obtain ⟨hi, hnames⟩ := (visits_iff hdepth).mp hvisits
    obtain ⟨hj, hnames'⟩ := (visits_iff hdepth).mp hvisits'
    -- roots that are the same path are at the same place
    have hplace (heq : root = root') : i = j := by
      refine (List.getElem?_inj (List.getElem?_eq_some_iff.mp hi).1 hnodup).mp ?_
      rw [hi, hj, heq]
    have hroot := List.mem_of_getElem? hi
    have hroot' := List.mem_of_getElem? hj
    rcases hnames with rfl | ⟨entries, name, hdir, hname, rfl⟩
    · rcases hnames' with rfl | ⟨entries', name', hdir', hname', rfl⟩
      · rw [HostPath.below_nil, HostPath.below_nil] at hpath
        exact ⟨hplace hpath, rfl⟩
      · rw [HostPath.below_nil] at hpath hreports
        subst hpath
        exact absurd hreports' (h root' entries' name' hroot' hdir' hname' hroot hreports)
    · rcases hnames' with rfl | ⟨entries', name', hdir', hname', rfl⟩
      · rw [HostPath.below_nil] at hpath hreports'
        subst hpath
        exact absurd hreports (h root entries name hroot hdir hname hroot' hreports')
      · have hparent := congrArg HostPath.parent hpath
        rw [HostPath.parent_below, HostPath.parent_below] at hparent
        cases hparent
        exact ⟨hplace rfl, HostPath.below_injective hpath⟩

end Walker

/-! ## Where the host looks -/

section

variable {Matcher : Type} {build : Text → Except String Matcher} {q : SearchQuery} {matcher : Matcher}

theorem SearchQueryExecutor.new_of_build (hpaths : q.paths ≠ [])
    (hbuild : build q.condition.toRegexString = .ok matcher) :
    SearchQueryExecutor.new build q =
      if q.targetPaths = [] then .error (.panic .slice)
      else .ok { query := q, matcher,
                 walker := { roots := q.targetPaths.sortDedup
                             maxDepth := if q.options.upward = true then some 1
                               else q.options.maxDepth } } := by
  simp only [new, hbuild, if_neg hpaths]
  cases hroots : q.targetPaths.sortDedup with
  | nil => rw [if_pos (List.sortDedup_eq_nil.mp hroots)]
  | cons first rest =>
      have hne : q.targetPaths ≠ [] := by
        intro hnil
        rw [List.sortDedup_eq_nil.mpr hnil] at hroots
        cases hroots
      rw [if_neg hne]

/-- Without a matcher there is an error, but no panic. -/
theorem SearchQueryExecutor.new_of_error {text : String}
    (hbuild : build q.condition.toRegexString = .error text) :
    SearchQueryExecutor.new build q = .error (.io (.new .invalidInput text)) := by
  simp only [new, hbuild]

variable {disk : Disk} {reports : Nat → HostPath → Prop}

theorem wellAimed_downward (hpaths : q.paths ≠ []) (hdown : q.options.upward = false) :
    q.WellAimed build disk reports := by
  refine ⟨fun panic h => ?_, fun hup => ?_⟩
  · cases hbuild : build q.condition.toRegexString with
    | error text =>
        rw [SearchQueryExecutor.new_of_error hbuild] at h
        cases h
    | ok matcher =>
        rw [SearchQueryExecutor.new_of_build hpaths hbuild, if_neg] at h
        · cases h
        · rw [SearchQuery.targetPaths_downward hdown]
          exact fun hnil => hpaths (List.map_eq_nil_iff.mp hnil)
  · rw [hdown] at hup
    cases hup

/-- The roots are the directories in reach, but for those given paths that are no roots. -/
theorem isRoot_iff_inReach (q : SearchQuery) (disk : Disk) :
    (∀ dir, q.IsRoot dir ∧ disk.IsDir dir ↔ (∃ n, q.InReach n dir) ∧ disk.IsDir dir) ↔
      ∀ path ∈ q.nativePaths, disk.IsDir path → q.IsRoot path := by
  constructor
  · intro h path hpath hdir
    exact ((h path).mpr ⟨⟨0, fun k _ => Nat.zero_le k, path, hpath, rfl⟩, hdir⟩).1
  · intro h dir
    refine and_congr_left fun hdir => ⟨fun ⟨n, hn, _⟩ => ⟨n, hn⟩, ?_⟩
    rintro ⟨n, hk, path, hpath, ha⟩
    cases n with
    | zero =>
        cases ha
        exact h _ hpath hdir
    | succ n =>
        refine ⟨n + 1, ⟨hk, path, hpath, ha⟩, iff_of_false (Nat.succ_ne_zero n) fun hzero => ?_⟩
        exact absurd (hk 0 hzero) (Nat.not_succ_le_zero n)

theorem wellAimed_upward (hpaths : q.paths ≠ []) (hup : q.options.upward = true)
    (hbuild : build q.condition.toRegexString = .ok matcher) :
    q.WellAimed build disk reports ↔ q.Clear disk reports := by
  have hroots (dir : HostPath) : dir ∈ q.targetPaths ↔ q.IsRoot dir := SearchQuery.mem_targetPaths hup dir
  have hnew := SearchQueryExecutor.new_of_build (q := q) hpaths hbuild
  rw [if_pos hup] at hnew
  rw [SearchQuery.WellAimed, SearchQuery.Clear, ← SearchQuery.exists_isRoot_iff hpaths]
  by_cases hnone : q.targetPaths = []
  · rw [if_pos hnone] at hnew
    refine iff_of_false (fun h => h.1 _ hnew) ?_
    rintro ⟨⟨dir, hdir⟩, -⟩
    rw [← hroots, hnone] at hdir
    cases hdir
  · rw [if_neg hnone] at hnew
    have hexists : ∃ dir, q.IsRoot dir := by
      obtain ⟨dir, hdir⟩ := List.exists_mem_of_ne_nil _ hnone
      exact ⟨dir, (hroots dir).mp hdir⟩
    have hnopanic (panic : Panic) : SearchQueryExecutor.new build q ≠ .error (.panic panic) := by
      rw [hnew]
      nofun
    have hmem (dir : HostPath) : dir ∈ q.targetPaths.sortDedup ↔ q.IsRoot dir := by
      rw [List.mem_sortDedup, hroots]
    have hsearches (dir : HostPath) : Walker.Searches ⟨q.targetPaths.sortDedup, some 1⟩ disk dir ↔
        q.IsRoot dir ∧ disk.IsDir dir := by
      rw [Walker.searches_iff rfl, hmem]
    have honce : Walker.ReportsOnce ⟨q.targetPaths.sortDedup, some 1⟩ disk reports ↔ _ :=
      Walker.reportsOnce_iff rfl (List.nodup_sortDedup _) reports
    simp only [hmem] at honce
    rw [and_iff_right hnopanic, and_iff_right hexists, ← isRoot_iff_inReach]
    simp only [hup, hnew, true_implies, Except.ok.injEq, forall_eq', hsearches, honce]

end

/-- A host search looks where its options promise, and there once, exactly if it does not go upward,
its pattern is none, or its paths and what is above them do not get in the way of each other. -/
theorem wellAimed_iff {Matcher : Type} (build : Text → Except String Matcher) (disk : Disk)
    (reports : Nat → HostPath → Prop) (q : SearchQuery) (hpaths : q.paths ≠ []) :
    q.WellAimed build disk reports ↔
      (q.options.upward = true → ∀ matcher, build q.condition.toRegexString = .ok matcher →
        q.Clear disk reports) := by
  constructor
  · intro h hup matcher hbuild
    exact (wellAimed_upward hpaths hup hbuild).mp h
  · intro h
    cases hup : q.options.upward with
    | false => exact wellAimed_downward hpaths hup
    | true =>
        cases hbuild : build q.condition.toRegexString with
        | ok matcher => exact (wellAimed_upward hpaths hup hbuild).mpr (h hup matcher hbuild)
        | error text =>
            have hnew : SearchQueryExecutor.new build q = _ := SearchQueryExecutor.new_of_error hbuild
            refine ⟨fun panic hpanic => ?_, fun _ executor hok => ?_⟩
            · rw [hnew] at hpanic
              cases hpanic
            · rw [hnew] at hok
              cases hok

def searchAbove (path : String) (maxDepth : Option Nat) : SearchQuery where
  target := .path
  condition := .endsWith ".toml".toList
  paths := [path.toList]
  options := { «include» := none, exclude := none, upward := true, maxDepth := maxDepth }

def unixRoot : HostPath := ⟨[.rootDir]⟩

def anyPattern (_ : Text) : Except String Unit := .ok ()

/-- A directory in the root, and a file in it. -/
def oneFileDisk : Disk where
  entries path :=
    if path = unixRoot then some ["a".toList]
    else if path = unixRoot.below ["a".toList] then some ["f".toList]
    else none

/-- Above the file is its directory, and above that no root any more. -/
theorem wellAimed_aboveFile :
    (searchAbove "/a/f" (some 1)).WellAimed anyPattern oneFileDisk fun _ _ => True := by
  refine (wellAimed_iff anyPattern oneFileDisk (fun _ _ => True) (searchAbove "/a/f" (some 1))
    (by decide)).mpr fun _ _ _ => ?_
  have hroot (dir : HostPath) (h : (searchAbove "/a/f" (some 1)).IsRoot dir) :
      dir = unixRoot.below ["a".toList] := by
    obtain ⟨n, ⟨hk, path, hpath, ha⟩, hn⟩ := h
    cases List.mem_singleton.mp hpath
    have hle := hk 1 rfl
    have hne : n ≠ 0 := fun hz => absurd (hn.mp hz) (by decide)
    obtain rfl : n = 1 := by omega
    exact (Option.some.inj ha).symm
  refine ⟨.inr ⟨_, List.mem_singleton_self _, by decide⟩, fun path hpath hdir => ?_, ?_⟩
  · cases List.mem_singleton.mp hpath
    exact absurd rfl hdir
  · intro dir entries name hdir _ _ hentry
    have hparent := HostPath.parent_below dir name
    rw [hroot _ hentry, hroot dir hdir] at hparent
    exact absurd hparent (by decide)

/-- There is nothing above the root, and the search for it panics. A directory that is given is not
looked into, but what is above it. On the way up from the file the directory is found twice. -/
theorem not_wellAimed :
    ¬ (searchAbove "/" none).WellAimed anyPattern oneFileDisk (fun _ _ => True) ∧
    ¬ (searchAbove "/a" (some 1)).WellAimed anyPattern oneFileDisk (fun _ _ => True) ∧
    ¬ (searchAbove "/a/f" none).WellAimed anyPattern oneFileDisk (fun _ _ => True) := by
  have hclear (path : String) (maxDepth : Option Nat)
      (h : (searchAbove path maxDepth).WellAimed anyPattern oneFileDisk fun _ _ => True) :
      (searchAbove path maxDepth).Clear oneFileDisk fun _ _ => True := by
    have hbuild : anyPattern (searchAbove path maxDepth).condition.toRegexString = .ok () := rfl
    exact (wellAimed_upward (List.cons_ne_nil _ _) rfl hbuild).mp h
  refine ⟨fun h => ?_, fun h => ?_, fun h => ?_⟩
  · rcases (hclear _ _ h).1 with hzero | ⟨path, hpath, hup⟩
    · cases hzero
    · cases List.mem_singleton.mp hpath
      exact hup rfl
  · obtain ⟨n, ⟨hk, path, hpath, ha⟩, hn⟩ := (hclear _ _ h).2.1 _ (List.mem_singleton_self _) nofun
    cases List.mem_singleton.mp hpath
    have hle := hk 1 rfl
    have hne : n ≠ 0 := fun hz => absurd (hn.mp hz) (by decide)
    obtain rfl : n = 1 := by omega
    exact absurd ha (by decide)
  · have hroots (n : Nat) (dir : HostPath) (hne : n ≠ 0)
        (ha : (HostPath.ofText "/a/f".toList).ancestor n = some dir) :
        (searchAbove "/a/f" none).IsRoot dir :=
      ⟨n, ⟨nofun, _, List.mem_singleton_self _, ha⟩, iff_of_false hne nofun⟩
    exact (hclear _ _ h).2.2 unixRoot _ "a".toList (hroots 2 unixRoot (by decide) rfl) rfl
      (List.mem_singleton_self _) (hroots 1 _ (by decide) rfl) trivial trivial

end Distant
