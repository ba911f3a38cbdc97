import Distant.Search.Injection
import Mathlib.Data.Char
import Mathlib.Data.List.Lex
import Mathlib.Data.List.TakeWhile

/-!
# Upward searches over a shell

For an upward search there is a command for each directory on the way up from the given paths. The
SSH backend climbs until the parent of a path is empty or there is none, sorts all directories, and
drops those that are there already; the Docker backend takes `.` for an empty parent, and climbs from
each path by itself. `upward_commands` says which directories the commands of either backend are for.
-/

namespace Distant

/-- What is `n` steps above a path. -/
def UnixPaths.ancestor (unix : UnixPaths) : Nat → Text → Option Text
  | 0, p => some p
  | n + 1, p => (unix.parent p).bind (unix.ancestor n)

/-- An absolute path keeps its root on the way up. -/
def UnixPaths.Rooted (unix : UnixPaths) : Prop :=
  ∀ p q, unix.parent p = some q → ['/'] <+: p → ['/'] <+: q

/-- A given path, or the `n`-th ancestor of one, where no more than `max_depth` are wanted. -/
def SearchQuery.Above (q : SearchQuery) (unix : UnixPaths) (n : Nat) (a : Text) : Prop :=
  (∀ k, q.options.maxDepth = some k → n ≤ k) ∧ ∃ p ∈ q.pathsOrCurrent, unix.ancestor n p = some a

/-- The empty path above a relative one, as the directory that it is relative to. -/
def dotted (n : Nat) (a : Text) : Text := if n ≠ 0 ∧ a = [] then ['.'] else a

section Above

variable {unix : UnixPaths} {n : Nat} {p q : Text}

/-- Nothing is above the empty path. -/
theorem UnixPaths.parent_nil (unix : UnixPaths) : unix.parent [] = none := by
  cases h : unix.parent [] with
  | none => rfl
  | some q => exact absurd (unix.parent_begins [] q h).2 (Nat.not_lt_zero _)

theorem UnixPaths.ancestor_nil (h : unix.ancestor n [] = some q) : n = 0 ∧ q = [] := by
  cases n with
  | zero => exact ⟨rfl, (Option.some.inj h).symm⟩
  | succ n =>
      rw [ancestor, unix.parent_nil] at h
      cases h

theorem UnixPaths.Rooted.ancestor (h : unix.Rooted) (hp : ['/'] <+: p)
    (ha : unix.ancestor n p = some q) : ['/'] <+: q := by
  induction n generalizing p with
  | zero =>
      cases ha
      exact hp
  | succ n ih =>
      obtain ⟨r, hr, ha⟩ := Option.bind_eq_some_iff.mp ha
      exact ih (h p r hr hp) ha

end Above

/-! ## Climbing over SSH -/

namespace Ssh

variable {unix : UnixPaths}

/-- The climb ends below the empty path. -/
theorem above_climb_iff (n : Nat) (p d : Text) :
    (climb unix).above n p = some d ↔ unix.ancestor n p = some d ∧ (n = 0 ∨ d ≠ []) := by
  induction n generalizing p with
  | zero => simp [Climb.above, UnixPaths.ancestor]
  | succ n ih =>
      rw [Climb.above, UnixPaths.ancestor]
      show (parentPath unix p).bind _ = _ ↔ _
      unfold parentPath
      cases unix.parent p with
      | none => simp
      | some r =>
          simp only [Option.bind_some]
          by_cases hr : r = []
          · subst hr
            rw [if_pos rfl, Option.bind_none]
            refine ⟨fun h => ?_, fun h => ?_⟩
            · cases h
            · exact absurd (UnixPaths.ancestor_nil h.1).2 (h.2.resolve_left (Nat.succ_ne_zero n))
          · rw [if_neg hr, Option.bind_some, ih]
            refine and_congr_right fun ha => ⟨fun hd => .inr ?_, fun hd => ?_⟩
            · rcases hd with rfl | hd
              · cases ha
                exact hr
              · exact hd
            · exact .inr (hd.resolve_left (Nat.succ_ne_zero n))

theorem textLe_iff (s t : Text) : textLe s t = true ↔ s ≤ t := by
  rw [← not_lt]
  induction s generalizing t with
  | nil => exact iff_of_true rfl (List.not_lt_nil t)
  | cons a s ih =>
      cases t with
      | nil => exact iff_of_false nofun (not_not.mpr .nil)
      | cons b t =>
          have hlt : b :: t < a :: s ↔ b < a ∨ b = a ∧ t < s := List.cons_lt_cons_iff
          have hle : textLe (a :: s) (b :: t) = true ↔ a < b ∨ a = b ∧ textLe s t = true := by
            rw [textLe, Bool.or_eq_true, Bool.and_eq_true, beq_iff_eq, decide_eq_true_iff]
            rfl
          rw [hlt, hle, ih]
          rcases lt_trichotomy a b with h | rfl | h
          · simp [h, h.not_gt, h.ne']
          · simp
          · simp [h, h.not_gt, h.ne']

theorem nodup_allDirs (unix : UnixPaths) (q : SearchQuery) : (allDirs unix q).Nodup := by
  have hsorted : (List.mergeSort (q.pathsOrCurrent.flatMap fun path =>
      path :: (climb unix).ancestors q.options.maxDepth path) textLe).Pairwise (· ≤ ·) := by
    refine (List.pairwise_mergeSort ?_ ?_ _).imp fun h => (textLe_iff _ _).mp h
    · intro s t u hst htu
      rw [textLe_iff] at hst htu ⊢
      exact hst.trans htu
    · intro s t
      rw [Bool.or_eq_true, textLe_iff, textLe_iff]
      exact le_total s t
  rw [allDirs, dedupNeighbours_eq]
  exact List.nodup_dropRepeated hsorted

theorem mem_allDirs (q : SearchQuery) (d : Text) :
    d ∈ allDirs unix q ↔ ∃ n, q.Above unix n d ∧ (n = 0 ∨ d ≠ []) := by
  rw [allDirs, mem_dedupNeighbours, List.mem_mergeSort, List.mem_flatMap]
  simp only [Climb.mem_upward, above_climb_iff, SearchQuery.Above]
  constructor
  · rintro ⟨p, hp, n, hn, ha, hd⟩
    exact ⟨n, ⟨hn, p, hp, ha⟩, hd⟩
  · rintro ⟨n, ⟨hn, p, hp, ha⟩, hd⟩
    exact ⟨p, hp, n, hn, ha, hd⟩

end Ssh

/-! ## Climbing in Docker -/

namespace Docker

variable {unix : UnixPaths}

/-- Nothing is above `.` -/
theorem up_dot : (climb unix).up ['.'] = none := by
  show (if unixParent unix ['.'] = ['.'] then none else _) = none
  refine if_pos ?_
  unfold unixParent
  cases h : unix.parent ['.'] with
  | none => rfl
  | some r =>
      have hlt := (unix.parent_begins _ r h).2
      have hnil : r = [] := List.eq_nil_of_length_eq_zero (by simpa using hlt)
      simp [hnil]

theorem up_of_none {p : Text} (h : unix.parent p = none) : (climb unix).up p = none := by
  show (if unixParent unix p = p then none else _) = none
  refine if_pos ?_
  rw [unixParent, h]

theorem up_of_nil {p : Text} (h : unix.parent p = some []) (hp : p ≠ ['.']) :
    (climb unix).up p = some ['.'] := by
  have hparent : unixParent unix p = ['.'] := by
    rw [unixParent, h]
    rfl
  show (if unixParent unix p = p then none else some (unixParent unix p)) = _
  rw [hparent, if_neg (Ne.symm hp)]

theorem up_of_some {p r : Text} (h : unix.parent p = some r) (hr : r ≠ []) :
    (climb unix).up p = some r := by
  have hparent : unixParent unix p = r := by
    rw [unixParent, h]
    exact if_neg hr
  have hne : r ≠ p := by
    rintro rfl
    exact absurd (unix.parent_begins r r h).2 (Nat.lt_irrefl _)
  show (if unixParent unix p = p then none else some (unixParent unix p)) = _
  rw [hparent, if_neg hne]

/-- What the climb passes is what is above, with `.` for the empty path. -/
theorem above_of_climb {n : Nat} {p d : Text} (h : (climb unix).above n p = some d) :
    ∃ m ≤ n, ∃ a, unix.ancestor m p = some a ∧ d = dotted m a := by
  induction n generalizing p with
  | zero => exact ⟨0, Nat.le_refl _, d, h, by simp [dotted]⟩
  | succ n ih =>
      obtain ⟨r, hup, hd⟩ := Option.bind_eq_some_iff.mp h
      cases hparent : unix.parent p with
      | none =>
          rw [up_of_none hparent] at hup
          cases hup
      | some r' =>
          by_cases hr : r' = []
          · subst hr
            have hp : p ≠ ['.'] := by
              rintro rfl
              rw [up_dot] at hup
              cases hup
            rw [up_of_nil hparent hp] at hup
            cases hup
            -- from `.` there is no way up
            have hdot : d = ['.'] := by
              cases n with
              | zero => exact (Option.some.inj hd).symm
              | succ n =>
                  rw [Climb.above, up_dot] at hd
                  cases hd
            refine ⟨1, Nat.le_add_left _ _, [], ?_, by simp [dotted, hdot]⟩
            rw [UnixPaths.ancestor, hparent]
            rfl
          · rw [up_of_some hparent hr] at hup
            cases hup
            obtain ⟨m, hm, a, ha, rfl⟩ := ih hd
            refine ⟨m + 1, Nat.succ_le_succ hm, a, ?_, ?_⟩
            · rw [UnixPaths.ancestor, hparent]
              exact ha
            · cases m with
              | zero =>
                  cases ha
                  simp [dotted, hr]
              | succ m => simp [dotted]

theorem climb_of_above {n : Nat} {p a : Text} (h : unix.ancestor n p = some a) :
    ∃ m ≤ n, (climb unix).above m p = some (dotted n a) := by
  induction n generalizing p with
  | zero =>
      cases h
      exact ⟨0, Nat.le_refl _, by simp [dotted, Climb.above]⟩
  | succ n ih =>
      obtain ⟨r, hparent, ha⟩ := Option.bind_eq_some_iff.mp h
      by_cases hr : r = []
      · subst hr
        obtain ⟨rfl, rfl⟩ := UnixPaths.ancestor_nil ha
        by_cases hp : p = ['.']
        · exact ⟨0, Nat.zero_le _, by rw [hp]; rfl⟩
        · refine ⟨1, Nat.le_refl _, ?_⟩
          rw [Climb.above, up_of_nil hparent hp]
          rfl
      · obtain ⟨m, hm, hd⟩ := ih ha
        refine ⟨m + 1, Nat.succ_le_succ hm, ?_⟩
        rw [Climb.above, up_of_some hparent hr, Option.bind_some, hd]
        cases n with
        | zero =>
            cases ha
            simp [dotted, hr]
        | succ n => simp [dotted]

/-- The directories of an upward search, in the order of their commands. -/
def allDirs (unix : UnixPaths) (q : SearchQuery) : List Text :=
  q.pathsOrCurrent.flatMap fun path => path :: (climb unix).ancestors q.options.maxDepth path

theorem mem_allDirs (q : SearchQuery) (d : Text) :
    d ∈ allDirs unix q ↔ ∃ n a, q.Above unix n a ∧ d = dotted n a := by
  rw [allDirs, List.mem_flatMap]
  simp only [Climb.mem_upward, SearchQuery.Above]
  constructor
  · rintro ⟨p, hp, n, hn, hd⟩
    obtain ⟨m, hm, a, ha, rfl⟩ := above_of_climb hd
    exact ⟨m, a, ⟨fun k hk => hm.trans (hn k hk), p, hp, ha⟩, rfl⟩
  · rintro ⟨n, a, ⟨hn, p, hp, ha⟩, rfl⟩
    obtain ⟨m, hm, hd⟩ := climb_of_above ha
    exact ⟨p, hp, m, fun k hk => hm.trans (hn k hk), hd⟩

end Docker

/-! ## The commands -/

namespace Ssh

variable (quote : Text → Text)

/-- The command that searches one directory, without what is below its entries. -/
def SearchesDir (q : SearchQuery) (tools : SearchTools) (dir : Text) (cmd : SearchCommand) : Prop :=
  (buildSearchCommand quote q.target [dir] (buildUnixPattern q.condition) tools
    (q.options.include.map buildUnixPattern) (q.options.exclude.map buildUnixPattern)
    (some 1)).map (stamp q) = .ok cmd

theorem forall₂_allDirs {unix : UnixPaths} {q : SearchQuery} {tools : SearchTools}
    (hup : q.options.upward = true) {commands : List SearchCommand}
    (h : buildSearchCommands quote unix q tools = .ok commands) :
    List.Forall₂ (SearchesDir quote q tools) (allDirs unix q) commands := by
  have hstamped : ((allDirs unix q).mapM fun dir => buildSearchCommand quote q.target [dir]
      (buildUnixPattern q.condition) tools (q.options.include.map buildUnixPattern)
      (q.options.exclude.map buildUnixPattern) (some 1)).map (List.map (stamp q)) = .ok commands := by
    rw [buildSearchCommands_eq, searches, if_pos hup, List.mapM_map, SearchQuery.depth,
      if_pos hup] at h
    exact h
  cases hbuilt : (allDirs unix q).mapM fun dir => buildSearchCommand quote q.target [dir]
      (buildUnixPattern q.condition) tools (q.options.include.map buildUnixPattern)
      (q.options.exclude.map buildUnixPattern) (some 1) with
  | error e =>
      rw [hbuilt] at hstamped
      cases hstamped
  | ok built =>
      rw [hbuilt] at hstamped
      cases hstamped
      rw [List.forall₂_map_right_iff]
      refine (mapM_ok.mp hbuilt).imp fun dir cmd hcmd => ?_
      rw [SearchesDir, hcmd]
      rfl

end Ssh

namespace Docker

variable (tryQuote : Text → Option Text)

/-- The command that searches one directory, without what is below its entries. -/
def SearchesDir (q : SearchQuery) (tools : SearchTools) (dir : Text) (cmd : SearchCommand) : Prop :=
  buildSearchCommand tryQuote q.target (shellQuote tryQuote dir) (buildUnixPattern q.condition) tools
    (some 1) = .ok cmd

theorem forall₂_allDirs {unix : UnixPaths} {q : SearchQuery} {tools : SearchTools}
    (hup : q.options.upward = true) {commands : List SearchCommand}
    (h : buildSearchCommands tryQuote unix q tools = .ok commands) :
    List.Forall₂ (SearchesDir tryQuote q tools) (allDirs unix q) commands := by
  rw [buildSearchCommands, if_pos hup] at h
  exact mapM_ok.mp h

end Docker

/-- Over SSH there is one command for each text that is a given path, or one of its ancestors but for
the empty path; in Docker the commands are for the same directories, and `.` stands for the empty
path. On absolute paths there is no difference. -/
theorem upward_commands (quote : Text → Text) (tryQuote : Text → Option Text) {unix : UnixPaths}
    (hunix : unix.Rooted) (q : SearchQuery) (hup : q.options.upward = true) (tools : SearchTools) :
    (∀ commands, Ssh.buildSearchCommands quote unix q tools = .ok commands →
      ∃ dirs : List Text, List.Forall₂ (Ssh.SearchesDir quote q tools) dirs commands ∧ dirs.Nodup ∧
        ∀ d, d ∈ dirs ↔ ∃ n, q.Above unix n d ∧ (n = 0 ∨ d ≠ [])) ∧
    (∀ commands, Docker.buildSearchCommands tryQuote unix q tools = .ok commands →
      ∃ dirs : List Text, List.Forall₂ (Docker.SearchesDir tryQuote q tools) dirs commands ∧
        ∀ d, d ∈ dirs ↔ ∃ n a, q.Above unix n a ∧ d = dotted n a) ∧
    ((∀ p ∈ q.pathsOrCurrent, ['/'] <+: p) → ∀ d,
      ((∃ n, q.Above unix n d ∧ (n = 0 ∨ d ≠ [])) ↔ ∃ n, q.Above unix n d) ∧
      ((∃ n a, q.Above unix n a ∧ d = dotted n a) ↔ ∃ n, q.Above unix n d)) := by
  refine ⟨fun commands h => ?_, fun commands h => ?_, fun habsolute d => ?_⟩
  · exact ⟨_, Ssh.forall₂_allDirs quote hup h, Ssh.nodup_allDirs unix q, Ssh.mem_allDirs q⟩
  · exact ⟨_, Docker.forall₂_allDirs tryQuote hup h, Docker.mem_allDirs q⟩
  · have hne : ∀ n a, q.Above unix n a → a ≠ [] := by
      rintro n a ⟨-, p, hp, ha⟩ rfl
      exact absurd (hunix.ancestor (habsolute p hp) ha) (by decide)
    constructor
    · exact exists_congr fun n => ⟨fun h => h.1, fun h => ⟨h, .inr (hne n d h)⟩⟩
    · refine exists_congr fun n => ⟨?_, fun h => ⟨d, h, by simp [dotted, hne n d h]⟩⟩
      rintro ⟨a, h, rfl⟩
      rwa [dotted, if_neg fun hnil => hne n a h hnil.2]

theorem Climb.ancestors_zero (c : Climb) (p : Text) : c.ancestors (some 0) p = [] := by
  rw [Climb.ancestors]
  split <;> rfl

theorem Climb.ancestors_top {c : Climb} {p : Text} (h : c.up p = none) (remaining : Option Nat) :
    c.ancestors remaining p = [] := by
  rw [Climb.ancestors]
  split
  · rfl
  · rename_i hup
    rw [h] at hup
    cases hup

theorem Climb.ancestors_none {c : Climb} {p q : Text} (h : c.up p = some q) :
    c.ancestors none p = q :: c.ancestors none q := by
  rw [Climb.ancestors]
  split
  · rename_i hup
    rw [h] at hup
    cases hup
  · rename_i r hup
    rw [h] at hup
    cases hup
    rfl

theorem upToSlash_rooted (t : Text) : ∃ u, upToSlash ('/' :: t) = '/' :: u := by
  have hne : upToSlash ('/' :: t) ≠ [] := by
    unfold upToSlash
    rw [Ne, List.reverse_eq_nil_iff, List.dropWhile_eq_nil_iff]
    intro hall
    exact absurd (hall '/' (by simp)) (by decide)
  cases hu : upToSlash ('/' :: t) with
  | nil => exact absurd hu hne
  | cons c u =>
      have hbegins := upToSlash_begins ('/' :: t)
      rw [hu, List.cons_prefix_cons] at hbegins
      exact ⟨u, by rw [hbegins.1]⟩

theorem slashPaths_rooted : slashPaths.Rooted := by
  intro p q h hroot
  change (if p = [] ∨ p = ['/'] then none
    else if upToSlash p = ['/'] then some ['/'] else some (upToSlash p).dropLast) = some q at h
  split at h
  · cases h
  · split at h
    · cases h
      exact List.prefix_rfl
    · rename_i hslash
      cases h
      obtain ⟨t, rfl⟩ := hroot
      obtain ⟨u, hu⟩ := upToSlash_rooted t
      rw [List.singleton_append, hu] at hslash ⊢
      cases u with
      | nil => exact absurd rfl hslash
      | cons c u => exact ⟨(c :: u).dropLast, rfl⟩

def upwardQuery (paths : List Text) (maxDepth : Option Nat) : SearchQuery where
  target := .path
  condition := .endsWith ".toml".toList
  paths := paths
  options := { «include» := none, exclude := none, upward := true, maxDepth := maxDepth }

theorem upward_commands_twice :
    ((∀ commands, Ssh.buildSearchCommands quoteWord slashPaths
        (upwardQuery ["/a/b".toList, "/a/b".toList] none) allTools = .ok commands →
      ∃ dirs : List Text, List.Forall₂ (Ssh.SearchesDir quoteWord
          (upwardQuery ["/a/b".toList, "/a/b".toList] none) allTools) dirs commands ∧ dirs.Nodup ∧
        ∀ d, d ∈ dirs ↔ ∃ n, (upwardQuery ["/a/b".toList, "/a/b".toList] none).Above slashPaths n d ∧
          (n = 0 ∨ d ≠ []))) ∧
    ∀ d, (∃ n a, (upwardQuery ["/a/b".toList, "/a/b".toList] none).Above slashPaths n a ∧
        d = dotted n a) ↔
      ∃ n, (upwardQuery ["/a/b".toList, "/a/b".toList] none).Above slashPaths n d := by
  have h := upward_commands quoteWord tryQuoteWord slashPaths_rooted
    (upwardQuery ["/a/b".toList, "/a/b".toList] none) rfl allTools
  refine ⟨h.1, fun d => (h.2.2 ?_ d).2⟩
  show ∀ p ∈ ["/a/b".toList, "/a/b".toList], ['/'] <+: p
  decide

/-- From a relative path, only Docker looks in the directory it is relative to, and a path that is
given twice is searched there twice. -/
theorem not_upward_commands :
    Ssh.buildSearchCommands quoteWord slashPaths (upwardQuery ["a".toList] none) allTools = .ok
      [{ command := "rg --files --max-depth 1 a | grep -E '\\.toml$'".toList, tool := .rg,
         target := .path, pattern := "\\.toml$".toList, «include» := none, exclude := none }] ∧
    Docker.buildSearchCommands tryQuoteWord slashPaths (upwardQuery ["a".toList] none) allTools = .ok
      [{ command := "rg --files --max-depth 1 a".toList, tool := .ripgrep },
       { command := "rg --files --max-depth 1 .".toList, tool := .ripgrep }] ∧
    Docker.buildSearchCommands tryQuoteWord slashPaths
        (upwardQuery ["/a".toList, "/a".toList] (some 0)) allTools = .ok
      [{ command := "rg --files --max-depth 1 /a".toList, tool := .ripgrep },
       { command := "rg --files --max-depth 1 /a".toList, tool := .ripgrep }] := by
  refine ⟨?_, ?_, ?_⟩
  · have htop : (Ssh.climb slashPaths).up "a".toList = none := rfl
    have hdirs : Ssh.allDirs slashPaths (upwardQuery ["a".toList] none) = ["a".toList] := by
      show Ssh.dedupNeighbours (List.mergeSort
        ("a".toList :: (Ssh.climb slashPaths).ancestors none "a".toList ++ []) Ssh.textLe) = _
      rw [Climb.ancestors_top htop, List.append_nil, List.mergeSort_singleton]
      rfl
    show (Except.map _ (List.mapM _ (Ssh.allDirs slashPaths _))) = _
    rw [hdirs]
    rfl
  · have hup : (Docker.climb slashPaths).up "a".toList = some ".".toList := rfl
    have htop : (Docker.climb slashPaths).up ".".toList = none := rfl
    have hdirs : Docker.allDirs slashPaths (upwardQuery ["a".toList] none)
        = ["a".toList, ".".toList] := by
      show "a".toList :: (Docker.climb slashPaths).ancestors none "a".toList ++ [] = _
      rw [Climb.ancestors_none hup, Climb.ancestors_top htop]
      rfl
    show List.mapM _ (Docker.allDirs slashPaths _) = _
    rw [hdirs]
    rfl
  · have hdirs : Docker.allDirs slashPaths (upwardQuery ["/a".toList, "/a".toList] (some 0))
        = ["/a".toList, "/a".toList] := by
      show "/a".toList :: (Docker.climb slashPaths).ancestors (some 0) "/a".toList ++
        ("/a".toList :: (Docker.climb slashPaths).ancestors (some 0) "/a".toList ++ []) = _
      rw [Climb.ancestors_zero]
      rfl
    show List.mapM _ (Docker.allDirs slashPaths _) = _
    rw [hdirs]
    rfl

end Distant
