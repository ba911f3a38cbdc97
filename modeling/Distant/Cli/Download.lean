import Mathlib.Data.Fintype.EquivFin
import Mathlib.Data.List.Infix
import Distant.Protocol

/-!
# Downloading a directory

`download_dir` lists the remote directory and takes each entry's path apart in the remote's style,
collects the components as a local path and joins that to the local base directory. A component
that is absolute for the local machine replaces what is before it, and `..` goes up.

`downloads_inside_iff` says for which listings nothing is created or written outside of the base
directory, wherever that is, and no two files in the same place.
-/

namespace Distant

/-- What a component of a local path does; `.` does nothing, and is left out. -/
inductive LocalPart where
  | parent
  | name (name : String)
  deriving DecidableEq, Repr

/-- A local path; the drive is there on Windows only. -/
structure LocalPath where
  drive : Option String
  root : Bool
  parts : List LocalPart
  deriving DecidableEq, Repr

namespace LocalPath

def empty : LocalPath := ⟨none, false, []⟩

/-- `PathBuf::push`: a path with a drive replaces the other one, and one with a root all but its
drive. -/
def push (path other : LocalPath) : LocalPath :=
  if other.drive.isSome = true then other
  else if other.root = true then { other with drive := path.drive }
  else { path with parts := path.parts ++ other.parts }

/-- `collect::<PathBuf>`. -/
def collect (paths : List LocalPath) : LocalPath := paths.foldl push empty

def parent (path : LocalPath) : Option LocalPath :=
  if path.parts = [] then none else some { path with parts := path.parts.dropLast }

end LocalPath

namespace Download

/-- A local path for `local`, as the target of a download: a directory that is there gets an entry
with the remote name. -/
def resolveLocalDst (isDir : Bool) («local» remoteName : LocalPath) : LocalPath :=
  if isDir = true then «local».push remoteName else «local»

inductive Action where
  | createDirAll (path : LocalPath)
  | write (path : LocalPath)
  deriving DecidableEq, Repr

section

variable (components : String → List String) (parse : String → LocalPath)

/-- The path of an entry, collected as a local one. -/
def localRel (entry : DirEntry) : LocalPath :=
  .collect ((components entry.path).map parse)

def fileActions (localBase : LocalPath) (entry : DirEntry) : List Action :=
  let localFile := localBase.push (localRel components parse entry)
  localFile.parent.toList.map .createDirAll ++ [.write localFile]

/-- All that is done after the local base directory has been created, if nothing fails. -/
def actions (localBase : LocalPath) (listing : List DirEntry) : List Action :=
  let dirs := listing.filter fun entry => entry.fileType = .dir
  let files := listing.filter fun entry => entry.fileType = .file
  dirs.map (fun entry => .createDirAll (localBase.push (localRel components parse entry))) ++
    files.flatMap (fileActions components parse localBase)

end

/-! ## Where a path leads -/

/-- A place in the file system: its drive, and the names from the root. -/
structure Location where
  drive : Option String
  names : List String
  deriving DecidableEq, Repr

/-- The current drive, and the working directory of each drive. -/
structure Cwd where
  drive : Option String
  names : Option String → List String

/-- Goes up at a `..`, which does nothing at the root. -/
def walk (names : List String) (parts : List LocalPart) : List String :=
  parts.foldl (fun names part =>
    match part with
    | .parent => names.dropLast
    | .name name => names ++ [name]) names

def driveOf (cwd : Cwd) (path : LocalPath) : Option String :=
  if path.drive.isSome = true then path.drive else cwd.drive

/-- Where a path leads. -/
def locate (cwd : Cwd) (path : LocalPath) : Location :=
  ⟨driveOf cwd path,
    walk (if path.root = true then [] else cwd.names (driveOf cwd path)) path.parts⟩

/-- The path is one of those that lead to the other one. -/
def LeadsTo (path target : LocalPath) : Prop :=
  path.drive = target.drive ∧ path.root = target.root ∧ path.parts <+: target.parts

/-- What an action may bring into being: `create_dir_all` creates what is missing on the way. -/
def Action.Makes (path : LocalPath) : Action → Prop
  | createDirAll target => LeadsTo path target
  | write target => path = target

variable (cwd : Cwd) (localBase : LocalPath)

/-- With the working directories and the base directory there, there is a directory at the place,
too. -/
def HasDirectory (place : Location) : Prop :=
  place.names <+: cwd.names place.drive ∨
  place.drive = (locate cwd localBase).drive ∧ place.names <+: (locate cwd localBase).names

/-- It is there once the base directory has been created. -/
def IsThere (path : LocalPath) : Prop :=
  LeadsTo path localBase ∨ HasDirectory cwd localBase (locate cwd path)

def IsInside (path : LocalPath) : Prop :=
  (locate cwd path).drive = (locate cwd localBase).drive ∧
    (locate cwd localBase).names <+: (locate cwd path).names

section

variable (components : String → List String) (parse : String → LocalPath)

/-- All that is created or written is inside of the base directory. -/
def StaysInside (listing : List DirEntry) : Prop :=
  ∀ action ∈ actions components parse localBase listing, ∀ path, action.Makes path →
    IsThere cwd localBase path ∨ IsInside cwd localBase path

/-- No two files with different relative paths are written in the same place, unless a directory is
there already. -/
def KeepsApart (listing : List DirEntry) : Prop :=
  ∀ file ∈ listing, ∀ file' ∈ listing, file.fileType = .file → file'.fileType = .file →
    components file.path ≠ components file'.path →
    locate cwd (localBase.push (localRel components parse file)) =
      locate cwd (localBase.push (localRel components parse file')) →
    HasDirectory cwd localBase (locate cwd (localBase.push (localRel components parse file)))

end

/-! ## Which entries are safe -/

/-- No name comes after more `..` than names. -/
def namesInside : Nat → List LocalPart → Bool
  | _, [] => true
  | depth, .name _ :: parts => namesInside (depth + 1) parts
  | 0, .parent :: parts => parts.all (· = .parent)
  | depth + 1, .parent :: parts => namesInside depth parts

/-- A path has no name outside of the directory that it is joined to. -/
def IsSafe (path : LocalPath) : Prop :=
  if path.drive.isSome = true ∨ path.root = true then path.parts.all (· = .parent) = true
  else namesInside 0 path.parts = true

/-- The names below a directory that a relative path leads to, if it never goes above it. -/
def below : List String → List LocalPart → Option (List String)
  | names, [] => some names
  | names, .name name :: parts => below (names ++ [name]) parts
  | [], .parent :: _ => none
  | name :: names, .parent :: parts => below (name :: names).dropLast parts

/-- Two paths lead to the same place below. -/
def SameSpot (path path' : LocalPath) : Prop :=
  ∃ names, names ≠ [] ∧ below [] path.parts = some names ∧ below [] path'.parts = some names ∧
    path.drive = none ∧ path.root = false ∧ path'.drive = none ∧ path'.root = false

/-- All entries are safe, and files with different relative paths lead to different places. -/
def SafeListing (components : String → List String) (parse : String → LocalPath)
    (listing : List DirEntry) : Prop :=
  (∀ entry ∈ listing, entry.fileType ≠ .symlink → IsSafe (localRel components parse entry)) ∧
  ∀ file ∈ listing, ∀ file' ∈ listing, file.fileType = .file → file'.fileType = .file →
    components file.path ≠ components file'.path →
    ¬ SameSpot (localRel components parse file) (localRel components parse file')

/-! ## What a relative path may reach -/

@[simp]
theorem walk_nil (names : List String) : walk names [] = names := rfl

@[simp]
theorem walk_parent (names : List String) (parts : List LocalPart) :
    walk names (.parent :: parts) = walk names.dropLast parts := rfl

@[simp]
theorem walk_name (names : List String) (name : String) (parts : List LocalPart) :
    walk names (.name name :: parts) = walk (names ++ [name]) parts := rfl

theorem walk_append (names : List String) (parts parts' : List LocalPart) :
    walk names (parts ++ parts') = walk (walk names parts) parts' :=
  List.foldl_append ..

theorem walk_parents (names : List String) {parts : List LocalPart}
    (h : ∀ part ∈ parts, part = .parent) : walk names parts <+: names := by
  induction parts generalizing names with
  | nil => exact List.prefix_rfl
  | cons part parts ih =>
    obtain rfl : part = .parent := h part List.mem_cons_self
    exact (ih _ fun part hp => h part (List.mem_cons_of_mem _ hp)).trans (List.dropLast_prefix _)

/-- A path with no name outside never leads to the side of where it starts. -/
theorem walk_inside {names inner : List String} {parts way : List LocalPart}
    (h : namesInside inner.length parts = true) (hw : way <+: parts) :
    walk (names ++ inner) way <+: names ∨ names <+: walk (names ++ inner) way := by
  induction parts generalizing inner way with
  | nil =>
    obtain rfl : way = [] := List.prefix_nil.1 hw
    exact .inr (List.prefix_append ..)
  | cons part parts ih =>
    cases way with
    | nil => exact .inr (List.prefix_append ..)
    | cons part' way =>
      obtain ⟨rfl, hw'⟩ := List.cons_prefix_cons.1 hw
      cases part' with
      | name name =>
        rw [walk_name, List.append_assoc]
        apply ih _ hw'
        simpa [namesInside] using h
      | parent =>
        rcases List.eq_nil_or_concat inner with rfl | ⟨inner, last, rfl⟩
        · -- it is at where it started, and all that is left goes up
          have hall : ∀ part ∈ parts, part = .parent := by simpa [namesInside] using h
          rw [walk_parent, List.append_nil]
          exact .inl ((walk_parents _ fun part hp => hall part (hw'.subset hp)).trans
            (List.dropLast_prefix _))
        · rw [walk_parent, List.concat_eq_append, ← List.append_assoc, List.dropLast_concat]
          apply ih _ hw'
          simpa [namesInside] using h

theorem exists_name_of_not_parents {parts : List LocalPart}
    (h : ∃ part ∈ parts, part ≠ .parent) :
    ∃ way name, way ++ [.name name] <+: parts ∧ walk [] way = [] := by
  induction parts with
  | nil => simp at h
  | cons part parts ih =>
    cases part with
    | name name => exact ⟨[], name, List.cons_prefix_cons.2 ⟨rfl, List.nil_prefix⟩, rfl⟩
    | parent =>
      obtain ⟨way, name, hw, he⟩ := ih (by simpa using h)
      exact ⟨.parent :: way, name, List.cons_prefix_cons.2 ⟨rfl, hw⟩, he⟩

/-- Otherwise, some name is put where there is nothing left of the path that it started with. -/
theorem exists_name_outside (start : String) {inner : List String} {parts : List LocalPart}
    (h : namesInside inner.length parts = false) :
    ∃ way name, way ++ [.name name] <+: parts ∧ walk (start :: inner) way = [] := by
  induction parts generalizing inner with
  | nil => simp [namesInside] at h
  | cons part parts ih =>
    cases part with
    | name name =>
      have h' : namesInside (inner ++ [name]).length parts = false := by
        simpa [namesInside] using h
      obtain ⟨way, last, hw, he⟩ := ih h'
      exact ⟨.name name :: way, last, List.cons_prefix_cons.2 ⟨rfl, hw⟩, he⟩
    | parent =>
      rcases List.eq_nil_or_concat inner with rfl | ⟨inner, last, rfl⟩
      · obtain ⟨way, name, hw, he⟩ := exists_name_of_not_parents (by simpa [namesInside] using h)
        exact ⟨.parent :: way, name, List.cons_prefix_cons.2 ⟨rfl, hw⟩, he⟩
      · have h' : namesInside inner.length parts = false := by simpa [namesInside] using h
        obtain ⟨way, name, hw, he⟩ := ih h'
        refine ⟨.parent :: way, name, List.cons_prefix_cons.2 ⟨rfl, hw⟩, ?_⟩
        rw [walk_parent, List.concat_eq_append, ← List.cons_append, List.dropLast_concat]
        exact he

theorem walk_of_below (names : List String) {inner names' : List String} {parts : List LocalPart}
    (h : below inner parts = some names') : walk (names ++ inner) parts = names ++ names' := by
  fun_induction below inner parts with
  | case1 inner =>
    cases h
    rfl
  | case2 inner name parts ih =>
    rw [walk_name, List.append_assoc]
    exact ih h
  | case3 parts => cases h
  | case4 inner name parts ih =>
    rw [walk_parent, List.dropLast_append_of_ne_nil (List.cons_ne_nil _ _)]
    exact ih h

theorem walk_of_not_below (names : List String) {inner : List String} {parts : List LocalPart}
    (hi : namesInside inner.length parts = true) (h : below inner parts = none) :
    walk (names ++ inner) parts <+: names := by
  fun_induction below inner parts with
  | case1 inner => cases h
  | case2 inner name parts ih =>
    rw [walk_name, List.append_assoc]
    apply ih _ h
    simpa [namesInside] using hi
  | case3 parts =>
    have hall : ∀ part ∈ parts, part = .parent := by simpa [namesInside] using hi
    rw [walk_parent, List.append_nil]
    exact (walk_parents _ hall).trans (List.dropLast_prefix _)
  | case4 inner name parts ih =>
    rw [walk_parent, List.dropLast_append_of_ne_nil (List.cons_ne_nil _ _)]
    apply ih _ h
    simpa [namesInside] using hi

/-! ## The downloads stay inside -/

theorem HasDirectory.of_parents {cwd : Cwd} {localBase path : LocalPath}
    (h : ∀ part ∈ path.parts, part = .parent) :
    HasDirectory cwd localBase (locate cwd path) := by
  refine .inl ?_
  have hw := walk_parents (if path.root = true then [] else cwd.names (driveOf cwd path)) h
  simp only [locate]
  by_cases hr : path.root = true
  · rw [if_pos hr] at hw ⊢
    exact hw.trans List.nil_prefix
  · rw [if_neg hr] at hw ⊢
    exact hw

section

variable (cwd : Cwd) (localBase : LocalPath) {rel : LocalPath}

theorem push_parts_of_absolute (h : rel.drive.isSome = true ∨ rel.root = true) :
    (localBase.push rel).parts = rel.parts := by
  unfold LocalPath.push
  split_ifs with hd hr
  · rfl
  · rfl
  · exact absurd h (by simp [hd, hr])

theorem push_of_relative (h : ¬(rel.drive.isSome = true ∨ rel.root = true)) :
    localBase.push rel = { localBase with parts := localBase.parts ++ rel.parts } := by
  rw [not_or] at h
  rw [LocalPath.push, if_neg h.1, if_neg h.2]

/-- Where a path below the base directory leads. -/
theorem locate_below (way : List LocalPart) :
    locate cwd { localBase with parts := localBase.parts ++ way } =
      ⟨(locate cwd localBase).drive, walk (locate cwd localBase).names way⟩ := by
  simp only [locate, driveOf, walk_append]

theorem reaches_of_isSafe (hs : IsSafe rel) {path : LocalPath}
    (hp : LeadsTo path (localBase.push rel)) :
    IsThere cwd localBase path ∨ IsInside cwd localBase path := by
  unfold IsSafe at hs
  split_ifs at hs with ha
  · refine .inl (.inr (.of_parents fun part hpart => ?_))
    have hall : ∀ part ∈ rel.parts, part = .parent := by simpa using hs
    exact hall part (push_parts_of_absolute localBase ha ▸ hp.2.2.subset hpart)
  · rw [push_of_relative _ ha] at hp
    obtain ⟨hd, hr, hparts⟩ := hp
    rcases List.prefix_or_prefix_of_prefix hparts (List.prefix_append localBase.parts rel.parts)
      with h | ⟨way, hway⟩
    · exact .inl (.inl ⟨hd, hr, h⟩)
    · obtain rfl : path = { localBase with parts := localBase.parts ++ way } := by
        cases path
        simp_all
      have hw : way <+: rel.parts := (List.prefix_append_right_inj _).1 hparts
      have hin : namesInside ([] : List String).length rel.parts = true := hs
      rcases walk_inside hin hw with h | h
      all_goals rw [List.append_nil] at h
      · refine .inl (.inr (.inr ?_))
        rw [locate_below]
        exact ⟨rfl, h⟩
      · refine .inr ?_
        rw [IsInside, locate_below]
        exact ⟨rfl, h⟩

/-- A safe path leads to where there is a directory already, or into the base directory. -/
theorem hasDirectory_or_below (hs : IsSafe rel) :
    HasDirectory cwd localBase (locate cwd (localBase.push rel)) ∨
      ∃ names, names ≠ [] ∧ below [] rel.parts = some names ∧
        ¬(rel.drive.isSome = true ∨ rel.root = true) ∧
        locate cwd (localBase.push rel) =
          ⟨(locate cwd localBase).drive, (locate cwd localBase).names ++ names⟩ := by
  unfold IsSafe at hs
  split_ifs at hs with ha
  · refine .inl (.of_parents fun part hpart => ?_)
    have hall : ∀ part ∈ rel.parts, part = .parent := by simpa using hs
    exact hall part (push_parts_of_absolute localBase ha ▸ hpart)
  · rw [push_of_relative _ ha]
    have hlocate := locate_below cwd localBase rel.parts
    have hin : namesInside ([] : List String).length rel.parts = true := hs
    cases hb : below [] rel.parts with
    | none =>
      have hw := walk_of_not_below (locate cwd localBase).names hin hb
      rw [List.append_nil] at hw
      refine .inl (.inr ?_)
      rw [hlocate]
      exact ⟨rfl, hw⟩
    | some names =>
      have hw := walk_of_below (locate cwd localBase).names hb
      rw [List.append_nil] at hw
      rw [hw] at hlocate
      by_cases hn : names = []
      · subst hn
        refine .inl (.inr ?_)
        rw [hlocate, List.append_nil]
        exact ⟨rfl, List.prefix_rfl⟩
      · exact .inr ⟨names, hn, rfl, ha, hlocate⟩

/-- Two safe paths that lead to the same place lead there from below, unless there is a directory
already. -/
theorem hasDirectory_or_sameSpot {rel' : LocalPath} (hs : IsSafe rel) (hs' : IsSafe rel')
    (he : locate cwd (localBase.push rel) = locate cwd (localBase.push rel')) :
    HasDirectory cwd localBase (locate cwd (localBase.push rel)) ∨ SameSpot rel rel' := by
  rcases hasDirectory_or_below cwd localBase hs with
    h | ⟨names, hn, hb, ha, hl⟩
  · exact .inl h
  rcases hasDirectory_or_below cwd localBase hs' with
    h | ⟨names', hn', hb', ha', hl'⟩
  · exact .inl (he ▸ h)
  · obtain rfl : names = names' := by
      rw [hl, hl'] at he
      simpa using he
    refine .inr ⟨names, hn, hb, hb', ?_⟩
    simp_all

end

/-! ## Otherwise they do not -/

theorem exists_fresh (parts : List LocalPart) : ∃ name : String, .name name ∉ parts := by
  obtain ⟨name, hname⟩ := Infinite.exists_notMem_finset
    (parts.filterMap fun | .name name => some name | .parent => none).toFinset
  refine ⟨name, fun h => hname ?_⟩
  rw [List.mem_toFinset, List.mem_filterMap]
  exact ⟨_, h, rfl⟩

/-- At the root of all drives. -/
def atRoot : Cwd := ⟨none, fun _ => []⟩

/-- The directory of that name below the root. -/
def topLevel (name : String) : LocalPath := ⟨none, true, [.name name]⟩

theorem locate_atRoot (path : LocalPath) : (locate atRoot path).names = walk [] path.parts := by
  simp [locate, atRoot]

theorem locate_topLevel (start : String) : locate atRoot (topLevel start) = ⟨none, [start]⟩ := rfl

theorem outside_of_names {start name : String} (path : LocalPath)
    (hn : (locate atRoot path).names = [name]) (hne : name ≠ start)
    (hl : ¬ LeadsTo path (topLevel start)) :
    ¬ IsThere atRoot (topLevel start) path ∧ ¬ IsInside atRoot (topLevel start) path := by
  constructor
  · rintro (h | h | ⟨-, h⟩)
    · exact hl h
    · rw [hn] at h
      cases List.prefix_nil.1 h
    · rw [hn, locate_topLevel] at h
      exact hne (List.cons_prefix_cons.1 h).1
  · rintro ⟨-, h⟩
    rw [hn, locate_topLevel] at h
    exact hne (List.cons_prefix_cons.1 h).1.symm

theorem exists_outside_of_not_isSafe {rel : LocalPath} {start : String}
    (hstart : .name start ∉ rel.parts) (hs : ¬ IsSafe rel) :
    ∃ path, LeadsTo path ((topLevel start).push rel) ∧
      ¬ IsThere atRoot (topLevel start) path ∧ ¬ IsInside atRoot (topLevel start) path := by
  unfold IsSafe at hs
  split_ifs at hs with ha
  · obtain ⟨way, name, hw, he⟩ := exists_name_of_not_parents (by simpa using hs)
    have hname : LocalPart.name name ∈ way ++ [.name name] := List.mem_append_right _ List.mem_cons_self
    have hne : name ≠ start := by
      rintro rfl
      exact hstart (hw.subset hname)
    rw [← push_parts_of_absolute (topLevel start) ha] at hw
    refine ⟨{ (topLevel start).push rel with parts := way ++ [.name name] }, ⟨rfl, rfl, hw⟩,
      outside_of_names _ ?_ hne fun hl => ?_⟩
    · rw [locate_atRoot, walk_append, he]
      rfl
    · have hmem : LocalPart.name name ∈ [.name start] := hl.2.2.subset hname
      exact hne (by simpa using hmem)
  · have hout : namesInside ([] : List String).length rel.parts = false := by simpa using hs
    obtain ⟨way, name, hw, he⟩ := exists_name_outside start hout
    have hname : LocalPart.name name ∈ way ++ [.name name] := List.mem_append_right _ List.mem_cons_self
    have hne : name ≠ start := by
      rintro rfl
      exact hstart (hw.subset hname)
    rw [push_of_relative _ ha]
    refine ⟨⟨none, true, .name start :: (way ++ [.name name])⟩,
      ⟨rfl, rfl, List.cons_prefix_cons.2 ⟨rfl, hw⟩⟩, outside_of_names _ ?_ hne fun hl => ?_⟩
    · rw [locate_atRoot, walk_name, walk_append, List.nil_append, he]
      rfl
    · have hle := hl.2.2.length_le
      simp [topLevel] at hle

theorem not_hasDirectory_of_sameSpot {rel rel' : LocalPath} (start : String)
    (h : SameSpot rel rel') :
    locate atRoot ((topLevel start).push rel) = locate atRoot ((topLevel start).push rel') ∧
      ¬ HasDirectory atRoot (topLevel start) (locate atRoot ((topLevel start).push rel)) := by
  obtain ⟨names, hn, hb, hb', hd, hr, hd', hr'⟩ := h
  have hl := locate_below atRoot (topLevel start) rel.parts
  have hl' := locate_below atRoot (topLevel start) rel'.parts
  have hw := walk_of_below [start] hb
  have hw' := walk_of_below [start] hb'
  rw [List.append_nil] at hw hw'
  rw [locate_topLevel, hw] at hl
  rw [locate_topLevel, hw'] at hl'
  rw [push_of_relative _ (by simp [hd, hr]),
    push_of_relative _ (by simp [hd', hr']), hl, hl']
  refine ⟨rfl, ?_⟩
  rintro (h | ⟨-, h⟩)
  · cases List.prefix_nil.1 h
  · rw [locate_topLevel] at h
    have hle := h.length_le
    simp_all

/-! ## Exactly when downloads stay inside and apart -/

section

variable {components : String → List String} {parse : String → LocalPath}
  {cwd : Cwd} {localBase : LocalPath} {listing : List DirEntry}

theorem leadsTo_of_makes {action : Action} {path : LocalPath}
    (ha : action ∈ actions components parse localBase listing) (hm : action.Makes path) :
    ∃ entry ∈ listing, entry.fileType ≠ .symlink ∧
      LeadsTo path (localBase.push (localRel components parse entry)) := by
  rw [actions, List.mem_append, List.mem_map, List.mem_flatMap] at ha
  rcases ha with ⟨entry, he, rfl⟩ | ⟨entry, he, ha⟩
  · obtain ⟨he, hd⟩ := List.mem_filter.1 he
    exact ⟨entry, he, by simp_all, hm⟩
  · obtain ⟨he, hf⟩ := List.mem_filter.1 he
    refine ⟨entry, he, by simp_all, ?_⟩
    rw [fileActions, List.mem_append, List.mem_map, List.mem_singleton] at ha
    rcases ha with ⟨up, hup, rfl⟩ | rfl
    · rw [Option.mem_toList, LocalPath.parent] at hup
      split_ifs at hup
      cases hup
      exact ⟨hm.1, hm.2.1, hm.2.2.trans (List.dropLast_prefix _)⟩
    · cases hm
      exact ⟨rfl, rfl, List.prefix_rfl⟩

theorem makes_of_leadsTo {entry : DirEntry} {path : LocalPath} (he : entry ∈ listing)
    (ht : entry.fileType ≠ .symlink)
    (hp : LeadsTo path (localBase.push (localRel components parse entry))) :
    ∃ action ∈ actions components parse localBase listing, action.Makes path := by
  simp only [actions, List.mem_append, List.mem_map, List.mem_flatMap]
  cases hf : entry.fileType with
  | symlink => exact absurd hf ht
  | dir => exact ⟨_, .inl ⟨entry, List.mem_filter.2 ⟨he, by simp [hf]⟩, rfl⟩, hp⟩
  | file =>
    have hmem : entry ∈ listing.filter fun entry => entry.fileType = .file :=
      List.mem_filter.2 ⟨he, by simp [hf]⟩
    generalize hl : localBase.push (localRel components parse entry) = localFile at hp
    -- all of the path but its last part is created as the parent
    obtain ⟨hd, hr, rest, hrest⟩ := hp
    rcases List.eq_nil_or_concat rest with rfl | ⟨rest, last, rfl⟩
    · refine ⟨.write localFile, .inr ⟨entry, hmem, ?_⟩, ?_⟩
      · simp [fileActions, hl]
      · cases path
        simp_all [Action.Makes]
    · have hparts : localFile.parts = path.parts ++ rest ++ [last] := by
        rw [← hrest, List.concat_eq_append, List.append_assoc]
      refine ⟨.createDirAll { localFile with parts := path.parts ++ rest },
        .inr ⟨entry, hmem, ?_⟩, hd, hr, List.prefix_append ..⟩
      simp [fileActions, hl, LocalPath.parent, hparts]

end

/-- Whatever the local directory, the downloads of a listing stay inside of it and apart exactly if
the listing is safe. -/
theorem downloads_inside_iff (components : String → List String) (parse : String → LocalPath)
    (listing : List DirEntry) :
    (∀ cwd isDir «local» remoteName,
      StaysInside cwd (resolveLocalDst isDir «local» remoteName) components parse listing ∧
      KeepsApart cwd (resolveLocalDst isDir «local» remoteName) components parse listing) ↔
      SafeListing components parse listing := by
  constructor
  · intro h
    refine ⟨fun entry he ht => ?_, fun file hf file' hf' ht ht' hne hsame => ?_⟩
    · by_contra hs
      obtain ⟨start, hstart⟩ := exists_fresh (localRel components parse entry).parts
      obtain ⟨path, hp, hthere, hinside⟩ := exists_outside_of_not_isSafe hstart hs
      obtain ⟨action, ha, hm⟩ := makes_of_leadsTo he ht hp
      rcases (h atRoot false (topLevel start) .empty).1 action ha path hm with hi | hi
      · exact hthere hi
      · exact hinside hi
    · obtain ⟨heq, hnot⟩ := not_hasDirectory_of_sameSpot "" hsame
      exact hnot ((h atRoot false (topLevel "") .empty).2 file hf file' hf' ht ht' hne heq)
  · intro hsafe cwd isDir «local» remoteName
    refine ⟨fun action ha path hm => ?_, fun file hf file' hf' ht ht' hne heq => ?_⟩
    · obtain ⟨entry, he, ht, hp⟩ := leadsTo_of_makes ha hm
      exact reaches_of_isSafe _ _ (hsafe.1 entry he ht) hp
    · have hs := hsafe.1 file hf (by simp [ht])
      have hs' := hsafe.1 file' hf' (by simp [ht'])
      rcases hasDirectory_or_sameSpot _ _ hs hs' heq with h | h
      · exact h
      · exact absurd h (hsafe.2 file hf file' hf' ht ht' hne)

/-- The components of a Unix path. -/
def unixComponents (path : String) : List String :=
  match (path.toList.splitOn '/').map String.ofList with
  | [] => []
  | start :: names =>
    if path = "" then [] else
      (if start = "" then "/" else start) :: names.filter fun name => name ≠ "" ∧ name ≠ "."

/-- What a component is on a local Unix machine. -/
def unixPath (component : String) : LocalPath :=
  if component = "/" then ⟨none, true, []⟩
  else if component = "." then .empty
  else if component = ".." then ⟨none, false, [.parent]⟩
  else ⟨none, false, [.name component]⟩

/-- A download to `/base` writes `/x` if the server lists `/x` or `../x`, and of `b` and `a/../b`
one over the other. -/
theorem downloads_leave :
    ¬ StaysInside atRoot (topLevel "base") unixComponents unixPath [⟨"/x", .file, 1⟩] ∧
    ¬ StaysInside atRoot (topLevel "base") unixComponents unixPath [⟨"../x", .file, 1⟩] ∧
    ¬ KeepsApart atRoot (topLevel "base") unixComponents unixPath
      [⟨"b", .file, 1⟩, ⟨"a/../b", .file, 1⟩] := by
  refine ⟨fun h => ?_, fun h => ?_, fun h => ?_⟩
  · obtain ⟨hthere, hinside⟩ := outside_of_names ⟨none, true, [.name "x"]⟩ rfl
      (by simp : "x" ≠ "base") (by simp [LeadsTo, topLevel])
    have hw := h (.write ⟨none, true, [.name "x"]⟩) (by decide) _ rfl
    exact hw.elim hthere hinside
  · obtain ⟨hthere, hinside⟩ := outside_of_names
      ⟨none, true, [.name "base", .parent, .name "x"]⟩ rfl (by simp : "x" ≠ "base")
      (by simp [LeadsTo, topLevel])
    have hw := h (.write ⟨none, true, [.name "base", .parent, .name "x"]⟩)
      (by decide) _ rfl
    exact hw.elim hthere hinside
  · have hw := h ⟨"b", .file, 1⟩ (by simp) ⟨"a/../b", .file, 1⟩ (by simp) rfl rfl
      (by decide) (by decide)
    have hl : locate atRoot ((topLevel "base").push
        (localRel unixComponents unixPath ⟨"b", .file, 1⟩)) = ⟨none, ["base", "b"]⟩ := by
      decide
    rw [hl] at hw
    rcases hw with hw | ⟨-, hw⟩
    · cases List.prefix_nil.1 hw
    · exact absurd hw.length_le (by decide)

end Download

end Distant
