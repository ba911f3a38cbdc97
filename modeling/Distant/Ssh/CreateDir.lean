import Distant.Host.Directories

/-!
# Creating directories over SSH

`create_dir` with `all` asks for one directory after the other along the names of the path. What the
server answers is logged and nothing more, and components other than names are left out. `missing`
says which directories are made, and `creates_iff` for which paths the answer is true.
-/

namespace Distant

/-- The names among the components. -/
def namesOf (steps : List (PathStep String)) : List String :=
  steps.filterMap fun
    | .name name => some name
    | _ => none

namespace SshCreateDir

open Site

inductive CreateError where
  | session
  | createDir (path : FilePath String)
  deriving DecidableEq, Repr

section

variable {β : Type} (site : Site) (permits : FilePath String → Bool)

/-- `for component in unix_path.components()` -/
def createEach : FileTree String β → FilePath String → List (PathStep String) → FileTree String β
  | tree, _, [] => tree
  | tree, current, .name part :: components =>
    match site.mkdir permits tree (current.step (.name part)) with
    | some tree => createEach tree (current.step (.name part)) components
    -- the error is logged
    | none => createEach tree (current.step (.name part)) components
  | tree, current, _ :: components => createEach tree current components

/-- All of `create_dir`, with the SFTP session that there is or not. -/
def createDir (session : Bool) (tree : FileTree String β) (path : FilePath String) (all : Bool) :
    FileTree String β × Except CreateError Unit :=
  if session = false then (tree, .error .session)
  else if all = true then
    (createEach site permits tree ⟨path.absolute, []⟩ path.steps, .ok ())
  else
    match site.mkdir permits tree path with
    | some tree => (tree, .ok ())
    | none => (tree, .error (.createDir path))

/-! ## What is claimed -/

/-- The path names a directory. -/
def Exists (tree : FileTree String β) (path : FilePath String) : Prop :=
  ∃ place, site.follow tree path = some place ∧ tree.kind place = some .dir

/-- The answer is `Ok` exactly if the directory is there at the end, and what is new is the directory
or above it. -/
structure TellsTruth (session : Bool) (tree : FileTree String β) (path : FilePath String) : Prop where
  isOk_iff : (createDir site permits session tree path true).2 = .ok () ↔
    Exists site (createDir site permits session tree path true).1 path
  above : ∀ loc, tree.kind loc = none →
    (createDir site permits session tree path true).1.kind loc ≠ none →
    ∃ place, site.follow (createDir site permits session tree path true).1 path = some place ∧
      loc <+: place

/-! ## What is made -/

/-- The names from the front that the server permits to make, one below the other. -/
def granted : FilePath String → List String → List String
  | _, [] => []
  | current, name :: names =>
    if permits (current.step (.name name)) = true then
      name :: granted (current.step (.name name)) names
    else []

/-- The directory below which directories are made along the names, and their names: behind those
that are there, if the first of them is free, as far as is permitted. -/
def missing (tree : FileTree String β) :
    FilePath String → List String → Option (List String × List String)
  | _, [] => none
  | current, name :: names =>
    if (site.directory tree (current.step (.name name))).isSome = true then
      missing tree (current.step (.name name)) names
    else
      (site.directory tree current).bind fun top =>
        if (tree.kind (top ++ [name])).isNone = true ∧ permits (current.step (.name name)) = true then
          some (top, granted permits current (name :: names))
        else none

end

section

variable {β : Type} {site : Site} {permits : FilePath String → Bool}
  {tree tree' : FileTree String β} {path current : FilePath String} {top : List String}
  {name : String} {names names' : List String}

/-! ## The loop -/

/-- Without a directory to start from nothing is made. -/
theorem createEach_of_none (h : site.directory tree current = none) (steps : List (PathStep String)) :
    createEach site permits tree current steps = tree := by
  induction steps generalizing current with
  | nil => rfl
  | cons next steps ih =>
    cases next with
    | stay => exact ih h
    | up => exact ih h
    | name name =>
      simp only [createEach, mkdir_step, h, Option.bind_none]
      exact ih (directory_step_eq_none h)

/-- In an empty directory everything is made that is permitted. -/
theorem createEach_of_empty (hdir : site.directory tree current = some top)
    (hfree : ∀ name, tree.kind (top ++ [name]) = none) (steps : List (PathStep String)) :
    createEach site permits tree current steps =
      tree.grow top (granted permits current (namesOf steps)) := by
  induction steps generalizing current tree top with
  | nil => rfl
  | cons next steps ih =>
    cases next with
    | stay => exact ih hdir hfree
    | up => exact ih hdir hfree
    | name name =>
      have hnames : namesOf (.name name :: steps) = name :: namesOf steps := rfl
      obtain ⟨hdir', hfree'⟩ := directory_insert hdir (hfree name)
      simp only [createEach, mkdir_step, hdir, Option.bind_some, hfree name, Option.isNone_none,
        true_and, hnames, granted]
      split_ifs with hpermits
      · exact ih hdir' hfree'
      · exact createEach_of_none (directory_step_of_free hdir (hfree name)) steps

/-- The loop makes what is missing. -/
theorem createEach_eq (site : Site) (permits : FilePath String → Bool) (tree : FileTree String β)
    (current : FilePath String) (steps : List (PathStep String)) :
    createEach site permits tree current steps =
      match missing site permits tree current (namesOf steps) with
      | none => tree
      | some (top, names) => tree.grow top names := by
  induction steps generalizing current with
  | nil => rfl
  | cons next steps ih =>
    cases next with
    | stay => exact ih current
    | up => exact ih current
    | name name =>
      have hnames : namesOf (.name name :: steps) = name :: namesOf steps := rfl
      rw [hnames, missing]
      split_ifs with hthere
      · -- what is there already is not made again
        obtain ⟨place, hplace⟩ := Option.isSome_iff_exists.1 hthere
        obtain ⟨top, htop, hk⟩ := exists_of_directory_step hplace
        simp only [createEach, mkdir_step, htop, Option.bind_some, Option.isNone_iff_eq_none, hk,
          false_and, if_false]
        exact ih (current.step (.name name))
      · cases htop : site.directory tree current with
        | none =>
          rw [createEach_of_none htop]
          rfl
        | some top =>
          simp only [createEach, mkdir_step, htop, Option.bind_some, Option.isNone_iff_eq_none]
          split_ifs with hfree
          · obtain ⟨hfree, hpermits⟩ := hfree
            obtain ⟨hdir', hfree'⟩ := directory_insert htop hfree
            simp only [granted, hpermits, if_true, FileTree.grow]
            exact createEach_of_empty hdir' hfree' steps
          · exact createEach_of_none (by simpa using hthere) steps

/-! ## When the answer is true -/

theorem missing_spec (h : missing site permits tree current names = some (top, names')) :
    tree.kind top = some .dir ∧ ∃ first rest, names' = first :: rest ∧
      tree.kind (top ++ [first]) = none := by
  induction names generalizing current with
  | nil => cases h
  | cons name names ih =>
    rw [missing] at h
    split_ifs at h with hthere
    · exact ih h
    · obtain ⟨place, hplace, h⟩ := Option.bind_eq_some_iff.1 h
      split_ifs at h with hfree
      cases h
      refine ⟨(directory_eq_some_iff.1 hplace).2, name,
        granted permits (current.step (.name name)) names, ?_, ?_⟩
      · rw [granted, if_pos hfree.2]
      · simpa using hfree.1

end

/-- The directory is there already, and nothing is missing that could be made; or the last directory
that is made is where the path leads when they are there. Without a session nothing is made, and then
the directory should not be there. -/
def IsCreatable {β : Type} (site : Site) (permits : FilePath String → Bool) (session : Bool)
    (tree : FileTree String β) (path : FilePath String) : Prop :=
  if session = true then
    match missing site permits tree ⟨path.absolute, []⟩ (namesOf path.steps) with
    | none => Exists site tree path
    | some (top, names) => site.follow (tree.grow top names) path = some (top ++ names)
  else ¬ Exists site tree path

/-- Below the last of the new directories there is nothing. -/
theorem eq_of_prefix_grow {β : Type} {tree : FileTree String β} {top names place : List String}
    {first : String} {rest : List String} (hnames : names = first :: rest)
    (hdir : tree.kind top = some .dir) (hfree : tree.kind (top ++ [first]) = none)
    (hplace : (tree.grow top names).kind place ≠ none) (habove : top ++ names <+: place) :
    place = top ++ names := by
  have hkind := FileTree.kind_grow hdir names (by simpa [hnames] using hfree) place
  rw [hkind] at hplace
  split_ifs at hplace with hnew
  · exact (habove.eq_of_length (Nat.le_antisymm habove.length_le hnew.2.2.length_le)).symm
  · -- the tree had nothing below the first of them
    obtain ⟨below, rfl⟩ := habove
    have hsplit : top ++ names ++ below = top ++ [first] ++ (rest ++ below) := by simp [hnames]
    rw [hsplit, FileTree.kind_below_of_none hfree] at hplace
    exact absurd rfl hplace

theorem tellsTruth_of_unchanged {β : Type} {site : Site} {permits : FilePath String → Bool}
    {session : Bool} {tree : FileTree String β} {path : FilePath String}
    (h : (createDir site permits session tree path true).1 = tree) :
    TellsTruth site permits session tree path ↔
      ((createDir site permits session tree path true).2 = .ok () ↔ Exists site tree path) := by
  constructor
  · intro htrue
    simpa only [h] using htrue.isOk_iff
  · intro hiff
    refine ⟨by simpa only [h] using hiff, fun loc hnone hnew => ?_⟩
    rw [h] at hnew
    exact absurd hnone hnew

theorem tellsTruth_iff {β : Type} (site : Site) (permits : FilePath String → Bool) (session : Bool)
    (tree : FileTree String β) (path : FilePath String) :
    TellsTruth site permits session tree path ↔ IsCreatable site permits session tree path := by
  cases session with
  | false =>
    rw [tellsTruth_of_unchanged rfl]
    simp [createDir, IsCreatable]
  | true =>
    have hcreate : createDir site permits true tree path true =
        (createEach site permits tree ⟨path.absolute, []⟩ path.steps, .ok ()) := rfl
    have hloop := createEach_eq site permits tree ⟨path.absolute, []⟩ path.steps
    simp only [IsCreatable, if_true]
    cases hmissing : missing site permits tree ⟨path.absolute, []⟩ (namesOf path.steps) with
    | none =>
      rw [hmissing] at hloop
      rw [tellsTruth_of_unchanged (by rw [hcreate, hloop]), hcreate]
      simp
    | some made =>
      obtain ⟨top, names⟩ := made
      obtain ⟨hdir, first, rest, hnames, hfree⟩ := missing_spec hmissing
      have hkind := FileTree.kind_grow hdir names (by simpa [hnames] using hfree)
      rw [hmissing] at hloop
      simp only at hloop ⊢
      rw [hloop] at hcreate
      constructor
      · intro htrue
        obtain ⟨place, hplace, -⟩ := htrue.isOk_iff.1 (by rw [hcreate])
        have hlast : tree.kind (top ++ names) = none := by
          have hsplit : top ++ names = top ++ [first] ++ rest := by simp [hnames]
          rw [hsplit]
          exact FileTree.kind_below_of_none hfree rest
        obtain ⟨place', hplace', habove⟩ := htrue.above (top ++ names) hlast (by
          rw [hcreate, hkind, if_pos]
          · simp
          · simp [hnames])
        rw [hcreate] at hplace'
        have heq := eq_of_prefix_grow hnames hdir hfree (FileTree.kind_of_resolve hplace') habove
        rw [← heq]
        exact hplace'
      · intro hfollow
        refine ⟨?_, ?_⟩
        · rw [hcreate]
          refine iff_of_true rfl ⟨top ++ names, hfollow, ?_⟩
          rw [hkind, if_pos]
          simp [hnames]
        · intro loc hnone hnew
          rw [hcreate] at hnew ⊢
          rw [hkind] at hnew
          split_ifs at hnew with hmade
          · exact ⟨top ++ names, hfollow, hmade.2.2⟩
          · exact absurd hnone hnew

/-! ## A home directory -/

def homeSite : Site := ⟨["home"], 8⟩

/-- There is nothing in the home directory. -/
def emptyHome : FileTree String Unit where
  nodes := [(["home"], .dir)]
  distinct := by decide
  nonempty := by decide
  closed := by decide

/-- `a/../b` -/
def backtracking : FilePath String := ⟨false, [.name "a", .up, .name "b"]⟩

/-- The answer is `Ok`, but what has been made is `a` and `a/b`; and so it is for `a` when the server
refuses everything and nothing is made. -/
theorem not_tellsTruth_backtracking :
    (createDir homeSite (fun _ => true) true emptyHome backtracking true).2 = .ok () ∧
      homeSite.follow (createDir homeSite (fun _ => true) true emptyHome backtracking true).1
        backtracking = none ∧
      (createDir homeSite (fun _ => true) true emptyHome backtracking true).1.kind
        ["home", "a", "b"] = some .dir ∧
      ¬ TellsTruth homeSite (fun _ => true) true emptyHome backtracking ∧
      ¬ TellsTruth homeSite (fun _ => false) true emptyHome ⟨false, [.name "a"]⟩ := by
  refine ⟨by decide, by decide, by decide, fun h => ?_, fun h => ?_⟩
  · obtain ⟨place, hplace, -⟩ := h.isOk_iff.1 (by decide)
    have hnone : homeSite.follow
        (createDir homeSite (fun _ => true) true emptyHome backtracking true).1 backtracking =
          none := by decide
    rw [hnone] at hplace
    cases hplace
  · obtain ⟨place, hplace, -⟩ := h.isOk_iff.1 (by decide)
    have hnone : homeSite.follow
        (createDir homeSite (fun _ => false) true emptyHome ⟨false, [.name "a"]⟩ true).1
          ⟨false, [.name "a"]⟩ = none := by decide
    rw [hnone] at hplace
    cases hplace

end SshCreateDir

end Distant
