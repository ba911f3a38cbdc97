import Distant.Host.Directories
import Distant.Lib.Machine
import Distant.Lib.Rust

/-!
# Copying on the host

`copy` walks through the source while it writes the destination: what a directory holds is read piece
by piece, and what is added meanwhile may be read too. A directory of the source is made with
`create_dir`, which refuses one that is there, the directories above it with `create_dir_all`, which
does not. `copies_iff` says when the copy ends, and when it can be made twice.
-/

namespace Distant

/-! ## Copying one file -/

namespace Site

section

variable (site : Site) (permits : FilePath String → Bool)

/-- Where a file is made if a path is opened for writing, on at `jump` if there is a link at it. -/
def createsAt {β : Type} (tree : FileTree String β)
    (jump : List String → FilePath String → Option (List String)) (home : List String)
    (path : FilePath String) : Option (List String) :=
  match path.steps.getLast? with
  | some (.name name) =>
    (Site.directory ⟨home, site.links⟩ tree ⟨path.absolute, path.steps.dropLast⟩).bind fun dir =>
      match tree.kind (dir ++ [name]) with
      | none => some (dir ++ [name])
      | some (.link target) => if target.isEmpty = true then none else jump dir target
      | some _ => none
  | _ => none

/-- At the path, or where a link there leads if there is nothing. -/
def creates {β : Type} (tree : FileTree String β) :
    Nat → List String → FilePath String → Option (List String)
  | 0 => site.createsAt tree fun _ _ => none
  | links + 1 => site.createsAt tree (creates tree links)

/-- `copy` of a file: the destination is cut off before the source is read. -/
def copyFile (tree : FileTree String Bytes) (source target : FilePath String) :
    Option (FileTree String Bytes) :=
  if permits source = false ∨ permits target = false then none
  else
    (site.follow tree source).bind fun from_ =>
      match tree.kind from_ with
      | some (.file content) =>
        match site.follow tree target with
        | some place =>
          if tree.isDir place = true then none
          else some (tree.write place (if place = from_ then [] else content))
        | none =>
          (site.creates tree site.links site.home target).bind fun place =>
            -- it can be reached through so many links
            if site.follow (tree.insert place (.file content)) target = some place then
              some (tree.insert place (.file content))
            else none
      | _ => none

end

section

variable {site : Site} {permits : FilePath String → Bool} {tree tree' : FileTree String Bytes}
  {source current : FilePath String} {top from_ : List String} {name : String} {content : Bytes}

theorem createsAt_spec {jump : List String → FilePath String → Option (List String)}
    {home place : List String} {path : FilePath String}
    (hjump : ∀ dir target place, jump dir target = some place →
      tree.kind place = none ∧ place ≠ [] ∧ tree.kind place.dropLast = some .dir)
    (h : site.createsAt tree jump home path = some place) :
    tree.kind place = none ∧ place ≠ [] ∧ tree.kind place.dropLast = some .dir := by
  unfold createsAt at h
  split at h
  · next name hlast =>
    obtain ⟨dir, hdir, h⟩ := Option.bind_eq_some_iff.1 h
    split at h
    · next hfree =>
      cases h
      rw [List.dropLast_concat]
      exact ⟨hfree, by simp, (directory_eq_some_iff.1 hdir).2⟩
    · next target hlink =>
      split_ifs at h
      exact hjump dir target place h
    · cases h
  · cases h

/-- A file is made at a free place in a directory. -/
theorem creates_spec {links : Nat} {home place : List String} {path : FilePath String}
    (h : site.creates tree links home path = some place) :
    tree.kind place = none ∧ place ≠ [] ∧ tree.kind place.dropLast = some .dir := by
  induction links generalizing home path place with
  | zero => exact createsAt_spec (by rintro _ _ _ ⟨⟩) h
  | succ links ih => exact createsAt_spec (fun _ _ _ h => ih h) h

theorem createsAt_step {jump : List String → FilePath String → Option (List String)}
    (h : site.directory tree current = some top) :
    site.createsAt tree jump site.home (current.step (.name name)) =
      match tree.kind (top ++ [name]) with
      | none => some (top ++ [name])
      | some (.link target) => if target.isEmpty = true then none else jump top target
      | some _ => none := by
  have hstep : (current.step (.name name)).steps.getLast? = some (.name name) := by
    simp [FilePath.step]
  have hbefore : (⟨(current.step (.name name)).absolute,
      (current.step (.name name)).steps.dropLast⟩ : FilePath String) = current := by
    simp [FilePath.step]
  rw [createsAt, hstep, hbefore]
  simp only [h, Option.bind_some]
  rcases tree.kind (top ++ [name]) with _ | (_ | _ | _) <;> rfl

/-- Opening a path below a directory makes a file there, or where the link that is there leads. -/
theorem creates_step {links : Nat} {place : List String}
    (h : site.directory tree current = some top)
    (hplace : site.creates tree links site.home (current.step (.name name)) = some place) :
    place = top ++ [name] ∨ ∃ target, tree.kind (top ++ [name]) = some (.link target) := by
  have hat : ∃ jump, site.createsAt tree jump site.home (current.step (.name name)) = some place := by
    cases links with
    | zero => exact ⟨_, hplace⟩
    | succ links => exact ⟨_, hplace⟩
  obtain ⟨jump, hat⟩ := hat
  rw [createsAt_step h] at hat
  split at hat
  · cases hat
    exact .inl rfl
  · next target hlink => exact .inr ⟨target, hlink⟩
  · cases hat

/-- What copying a file changes: it writes a file or makes one. -/
theorem copyFile_spec (h : site.copyFile permits tree source current = some tree') :
    permits source = true ∧ permits current = true ∧
      ((∃ place content, tree' = tree.write place content) ∨
        ∃ place content, site.creates tree site.links site.home current = some place ∧
          tree' = tree.insert place (.file content)) := by
  unfold copyFile at h
  by_cases hrefused : permits source = false ∨ permits current = false
  · rw [if_pos hrefused] at h
    cases h
  rw [if_neg hrefused] at h
  obtain ⟨hsource, hcurrent⟩ : permits source = true ∧ permits current = true := by
    simpa using hrefused
  refine ⟨hsource, hcurrent, ?_⟩
  obtain ⟨from_, -, h⟩ := Option.bind_eq_some_iff.1 h
  split at h
  · next content hfile =>
    split at h
    · next place hplace =>
      split_ifs at h with hdir
      · cases h
        exact .inl ⟨_, _, rfl⟩
      · cases h
        exact .inl ⟨_, _, rfl⟩
    · obtain ⟨place, hcreates, h⟩ := Option.bind_eq_some_iff.1 h
      split_ifs at h with hreached
      cases h
      exact .inr ⟨place, content, hcreates, rfl⟩
  · cases h

/-- A file is copied to a free place or over another file. -/
theorem copyFile_eq (hpermits : permits source = true ∧ permits (current.step (.name name)) = true)
    (hsource : site.follow tree source = some from_) (hfile : tree.kind from_ = some (.file content))
    (htop : site.directory tree current = some top)
    (htarget : ∀ kind, tree.kind (top ++ [name]) = some kind → ∃ old, kind = .file old)
    (hne : top ++ [name] ≠ from_) :
    ∃ tree', site.copyFile permits tree source (current.step (.name name)) = some tree' ∧
      ∀ loc, tree'.kind loc = if loc = top ++ [name] then some (.file content) else tree.kind loc := by
  unfold copyFile
  rw [if_neg (by simp [hpermits])]
  simp only [hsource, Option.bind_some, hfile]
  cases hk : tree.kind (top ++ [name]) with
  | some kind =>
    obtain ⟨old, rfl⟩ := htarget kind hk
    have hdir : tree.isDir (top ++ [name]) = false := by simp [FileTree.isDir, hk]
    rw [follow_step htop hk rfl]
    refine ⟨tree.write (top ++ [name]) content, by simp [hdir, hne], fun loc => ?_⟩
    rw [FileTree.kind_write]
    split_ifs with hloc
    · rw [hloc, hk]
      rfl
    · rfl
  | none =>
    have hdir : tree.kind (top ++ [name]).dropLast = some .dir := by
      rw [List.dropLast_concat]
      exact (directory_eq_some_iff.1 htop).2
    have hcreates : site.creates tree site.links site.home (current.step (.name name)) =
        some (top ++ [name]) := by
      cases site.links with
      | zero => simp [creates, createsAt_step htop, hk]
      | succ links => simp [creates, createsAt_step htop, hk]
    have hinsert : (tree.insert (top ++ [name]) (.file content)).kind (top ++ [name]) =
        some (.file content) := FileTree.kind_insert_self (by simp) hk hdir
    have hreached : site.follow (tree.insert (top ++ [name]) (.file content))
        (current.step (.name name)) = some (top ++ [name]) :=
      follow_step (directory_within (FileTree.within_insert tree _ _) htop) hinsert rfl
    rw [follow_step_of_free htop hk]
    refine ⟨tree.insert (top ++ [name]) (.file content), by simp [hcreates, hreached], ?_⟩
    exact FileTree.kind_insert (by simp) hk hdir

end

end Site

namespace HostCopy

/-! ## The walk -/

inductive HostCall where
  | metadata
  | createDirAll
  | createDir
  | readDir
  | copy
  deriving DecidableEq, Repr

/-- The call that failed, with its path. -/
structure CopyError where
  call : HostCall
  path : FilePath String
  deriving DecidableEq, Repr

/-- A directory of the source that is being read: what it held when it was opened, and what has been
read of it. -/
structure OpenDir where
  rel : List String
  place : List String
  listed : List String
  seen : List String
  deriving DecidableEq, Repr

/-- The directories that are open, the innermost first, and the answer if there is one. -/
structure Copying where
  tree : FileTree String Bytes
  dirs : List OpenDir
  outcome : Option (Except CopyError Unit)

/-- What the innermost directory gives next. -/
inductive Read where
  | entry (name : String)
  | finished
  deriving DecidableEq, Repr

def Copying.failed (tree : FileTree String Bytes) (call : HostCall) (path : FilePath String) :
    Copying :=
  ⟨tree, [], some (.error ⟨call, path⟩)⟩

section

variable (site : Site) (permits : FilePath String → Bool) (src dst : FilePath String)

def openDir (tree : FileTree String Bytes) (rel : List String) : Option OpenDir :=
  if permits (src.below rel) = false then none
  else
    (site.directory tree (src.below rel)).map fun place =>
      ⟨rel, place, (tree.entries place).map (·.1), []⟩

/-- The body of the loop: one entry of the innermost directory. -/
def copyEntry (tree : FileTree String Bytes) (dir : OpenDir) (dirs : List OpenDir) (name : String)
    (kind : FileKind String Bytes) : Copying :=
  let rel := dir.rel ++ [name]
  let dir' := { dir with seen := name :: dir.seen }
  match site.createDirAll permits tree (dst.below dir.rel) with
  | (tree, false) => .failed tree .createDirAll (dst.below dir.rel)
  | (tree, true) =>
    if kind.isDir = true then
      match site.mkdir permits tree (dst.below rel) with
      | none => .failed tree .createDir (dst.below rel)
      | some made =>
        -- the walk has opened it before
        match openDir site permits src tree rel with
        | none => .failed made .readDir (src.below rel)
        | some sub => ⟨made, sub :: dir' :: dirs, none⟩
    else
      match site.copyFile permits tree (src.below rel) (dst.below rel) with
      | none => .failed tree .copy (dst.below rel)
      | some made => ⟨made, dir' :: dirs, none⟩

/-- The next read. A directory is not finished before all that it held has been read. -/
def next (s : Copying) (read : Read) : Option Copying :=
  match s.outcome, s.dirs with
  | none, dir :: dirs =>
    match read with
    | .finished =>
      if ∀ name ∈ dir.listed, name ∈ dir.seen then
        some { s with dirs := dirs, outcome := if dirs = [] then some (.ok ()) else none }
      else none
    | .entry name =>
      if name ∈ dir.seen then none
      else
        (s.tree.kind (dir.place ++ [name])).map
          (copyEntry site permits src dst s.tree dir dirs name)
  | _, _ => none

/-- Up to the first read. -/
def begin (tree : FileTree String Bytes) : Copying :=
  if permits src = false then .failed tree .metadata src
  else
    match site.metadata tree src with
    | none => .failed tree .metadata src
    | some .dir =>
      match site.createDirAll permits tree dst with
      | (tree, false) => .failed tree .createDirAll dst
      | (tree, true) =>
        match openDir site permits src tree [] with
        | none => .failed tree .readDir src
        | some dir => ⟨tree, [dir], none⟩
    | some _ =>
      match site.copyFile permits tree src dst with
      | none => .failed tree .copy dst
      | some tree => ⟨tree, [], some (.ok ())⟩

/-! ## What is claimed -/

/-- The tree in which the destination has been made, and where that is. -/
def destination (tree : FileTree String Bytes) :
    Option (FileTree String Bytes × List String) :=
  match site.createDirAll permits tree dst with
  | (made, true) => (site.directory made dst).map (made, ·)
  | (_, false) => none

/-- Where the longest beginning of a path leads that leads anywhere; its components come from the
last one on. -/
def farthest (tree : FileTree String Bytes) (absolute : Bool) :
    List (PathStep String) → List String
  | [] => if absolute = true then [] else site.home
  | last :: before =>
    (site.follow tree ⟨absolute, (last :: before).reverse⟩).getD (farthest tree absolute before)

/-- The destination is inside the source, or as much of its path as there is if it cannot be made. -/
def Inside (tree : FileTree String Bytes) (top : List String) : Prop :=
  top <+: match destination site permits dst tree with
    | some (_, target) => target
    | none => farthest site tree dst.absolute dst.steps.reverse

/-- The source consists of directories and files. -/
def IsPlain (tree : FileTree String Bytes) (top : List String) : Prop :=
  ∀ rel target, tree.kind (top ++ rel) ≠ some (.link target)

/-- No path under the destination has a different kind than that in the source. -/
def Agrees (tree : FileTree String Bytes) (top : List String) : Prop :=
  ∀ made target, destination site permits dst tree = some (made, target) →
    ∀ rel kind kind', made.kind (top ++ rel) = some kind → made.kind (target ++ rel) = some kind' →
      FileTree.shape kind' = FileTree.shape kind

/-- All paths of the source are under the destination, and other paths are unchanged. -/
structure Copied (made tree' : FileTree String Bytes) (top target : List String) : Prop where
  copied : ∀ rel kind, made.kind (top ++ rel) = some kind → tree'.kind (target ++ rel) = some kind
  others : ∀ loc, (∀ rel, made.kind (top ++ rel) ≠ none → loc ≠ target ++ rel) →
    tree'.kind loc = made.kind loc

/-- Whatever is read when, the copy comes to an end. -/
def Ends (tree : FileTree String Bytes) : Prop :=
  Machine.Inevitable (next site permits src dst) (fun _ => True) (fun s => s.outcome ≠ none)
    (begin site permits src dst tree)

/-- It ends, it succeeds, and this holds of the tree then. -/
def Succeeds (tree : FileTree String Bytes) (post : FileTree String Bytes → Prop) : Prop :=
  Ends site permits src dst tree ∧
    ∀ reads s answer, Machine.run (next site permits src dst) reads
        (begin site permits src dst tree) = some s → s.outcome = some answer →
      answer = .ok () ∧ post s.tree

/-- The copy of a directory ends. If the destination is not inside the source and agrees with it, the
copy succeeds and so does the same copy once more, which changes nothing. -/
def CopiesDir (tree : FileTree String Bytes) (top : List String) : Prop :=
  Ends site permits src dst tree ∧
    (¬ Inside site permits dst tree top → Agrees site permits dst tree top →
      Succeeds site permits src dst tree fun tree' =>
        (∃ made target, destination site permits dst tree = some (made, target) ∧
          Copied made tree' top target) ∧
        Succeeds site permits src dst tree' fun tree'' => ∀ loc, tree''.kind loc = tree'.kind loc)

/-- Where a file is copied to. -/
def fileTarget (tree : FileTree String Bytes) (content : Bytes) : Option (List String) :=
  match site.follow tree dst with
  | some place => some place
  | none =>
    (site.creates tree site.links site.home dst).filter fun place =>
      site.follow (tree.insert place (.file content)) dst = some place

/-- The same for a single file. -/
def CopiesFile (tree : FileTree String Bytes) (top : List String) (content : Bytes) : Prop :=
  Ends site permits src dst tree ∧
    (fileTarget site dst tree content ≠ some top →
      (∀ target, fileTarget site dst tree content = some target → tree.kind target ≠ some .dir) →
      Succeeds site permits src dst tree fun tree' =>
        (∃ target, fileTarget site dst tree content = some target ∧ Copied tree tree' top target) ∧
        Succeeds site permits src dst tree' fun tree'' => ∀ loc, tree''.kind loc = tree'.kind loc)

/-- The copy does what it should, whatever the source is: a directory of directories and files, or a
file. -/
def CopiesWell (tree : FileTree String Bytes) : Prop :=
  (∀ top, site.follow tree src = some top → tree.kind top = some .dir → IsPlain tree top →
    CopiesDir site permits src dst tree top) ∧
  ∀ top content, site.follow tree src = some top → tree.kind top = some (.file content) →
    CopiesFile site permits src dst tree top content

end

section

variable {site : Site} {permits : FilePath String → Bool} {src dst : FilePath String}
  {tree made : FileTree String Bytes} {top target : List String}

/-! ## One read -/

/-- What the tree and the paths have in common all along the copy: the two directories, and that
their paths are permitted. -/
structure Settled (site : Site) (permits : FilePath String → Bool) (src dst : FilePath String)
    (tree : FileTree String Bytes) (top target : List String) : Prop where
  source : site.directory tree src = some top
  destination : site.directory tree dst = some target
  reads : permits src = true
  writes : dst.steps = [] ∨ permits dst = true

theorem Settled.keeps {tree' : FileTree String Bytes} (h : Settled site permits src dst tree top target)
    (hkeeps : tree.Keeps tree') : Settled site permits src dst tree' top target :=
  ⟨Site.directory_keeps hkeeps h.source, Site.directory_keeps hkeeps h.destination, h.reads, h.writes⟩

/-- What dealing with one entry does to the tree. -/
inductive Visits (site : Site) (permits : FilePath String → Bool) (src dst : FilePath String)
    (top target : List String) (tree : FileTree String Bytes) (rel : List String) :
    FileTree String Bytes → Prop
  | dir (hk : tree.kind (top ++ rel) = some .dir) (hfree : tree.kind (target ++ rel) = none) :
      Visits site permits src dst top target tree rel (tree.insert (target ++ rel) .dir)
  | file {kind : FileKind String Bytes} {tree' : FileTree String Bytes}
      (hk : tree.kind (top ++ rel) = some kind) (hnot : kind.isDir = false)
      (hcopy : site.copyFile permits tree (src.below rel) (dst.below rel) = some tree') :
      Visits site permits src dst top target tree rel tree'

/-- Why dealing with one entry fails. -/
inductive Fails (site : Site) (permits : FilePath String → Bool) (src dst : FilePath String)
    (top target : List String) (tree : FileTree String Bytes) (rel : List String) : Prop
  | refused (h : permits (src.below rel) = false ∨ permits (dst.below rel) = false)
  | taken (hk : tree.kind (top ++ rel) = some .dir) (h : tree.kind (target ++ rel) ≠ none)
  | file {kind : FileKind String Bytes} (hk : tree.kind (top ++ rel) = some kind)
      (hnot : kind.isDir = false)
      (hcopy : site.copyFile permits tree (src.below rel) (dst.below rel) = none)

/-- A directory that is read belongs to its path, and there is one at the destination. -/
structure Opened (permits : FilePath String → Bool) (dst : FilePath String)
    (tree : FileTree String Bytes) (top target : List String) (dir : OpenDir) : Prop where
  place : dir.place = top ++ dir.rel
  listed : ∀ name ∈ dir.listed, tree.kind (dir.place ++ [name]) ≠ none
  above : tree.kind (target ++ dir.rel) = some .dir
  writes : dir.rel = [] ∨ permits (dst.below dir.rel) = true

/-- One entry: it fails, or the tree is changed, and a directory is read next. -/
theorem copyEntry_spec (hsettled : Settled site permits src dst tree top target) {dir : OpenDir}
    (hopened : Opened permits dst tree top target dir) (dirs : List OpenDir) {name : String}
    {kind : FileKind String Bytes} (hk : tree.kind (top ++ (dir.rel ++ [name])) = some kind) :
    (Fails site permits src dst top target tree (dir.rel ++ [name]) ∧
        ∃ e, (copyEntry site permits src dst tree dir dirs name kind).outcome = some (.error e)) ∨
      (permits (src.below (dir.rel ++ [name])) = true ∧ permits (dst.below (dir.rel ++ [name])) = true ∧
        ∃ tree', Visits site permits src dst top target tree (dir.rel ++ [name]) tree' ∧
          copyEntry site permits src dst tree dir dirs name kind =
            ⟨tree', (if kind.isDir = true then [⟨dir.rel ++ [name], top ++ (dir.rel ++ [name]),
                (tree.entries (top ++ (dir.rel ++ [name]))).map (·.1), []⟩] else []) ++
              { dir with seen := name :: dir.seen } :: dirs, none⟩) := by
  have hdst : site.directory tree (dst.below dir.rel) = some (target ++ dir.rel) :=
    Site.directory_below hsettled.destination hopened.above
  have hwrites : (dst.below dir.rel).steps = [] ∨ permits (dst.below dir.rel) = true := by
    obtain hrel | hwrites := hopened.writes
    · rw [hrel, FilePath.below_nil]
      exact hsettled.writes
    · exact .inr hwrites
  have hbelow : dst.below (dir.rel ++ [name]) = (dst.below dir.rel).step (.name name) :=
    (FilePath.step_below dst dir.rel name).symm
  simp only [copyEntry, Site.createDirAll_of_directory hwrites hdst]
  cases hdir : kind.isDir with
  | false =>
    simp only [Bool.false_eq_true, if_false]
    cases hcopy : site.copyFile permits tree (src.below (dir.rel ++ [name]))
        (dst.below (dir.rel ++ [name])) with
    | none => exact .inl ⟨.file hk hdir hcopy, _, rfl⟩
    | some tree' =>
      obtain ⟨hreads, hwrites, -⟩ := Site.copyFile_spec hcopy
      exact .inr ⟨hreads, hwrites, tree', .file hk hdir hcopy, rfl⟩
  | true =>
    obtain rfl := FileKind.isDir_iff.1 hdir
    simp only [if_true, hbelow, Site.mkdir_step, hdst, Option.bind_some]
    by_cases hfree : (tree.kind (target ++ dir.rel ++ [name])).isNone = true ∧
        permits ((dst.below dir.rel).step (.name name)) = true
    · rw [if_pos hfree]
      obtain ⟨hfree, hpermits⟩ := hfree
      rw [List.append_assoc] at hfree ⊢
      by_cases hreads : permits (src.below (dir.rel ++ [name])) = false
      · simp only [openDir, hreads, if_true]
        exact .inl ⟨.refused (.inl hreads), _, rfl⟩
      · have hsub := Site.directory_below hsettled.source hk
        simp only [openDir, hreads, hsub, Option.map_some]
        rw [Option.isNone_iff_eq_none] at hfree
        exact .inr ⟨by simp, hpermits, _, .dir hk hfree, rfl⟩
    · rw [if_neg hfree]
      refine .inl ⟨?_, _, rfl⟩
      by_cases hpermits : permits (dst.below (dir.rel ++ [name])) = true
      · refine .taken hk ?_
        rw [hbelow] at hpermits
        simp only [hpermits, and_true, Option.isNone_iff_eq_none] at hfree
        rwa [List.append_assoc] at hfree
      · exact .refused (.inr (by simpa using hpermits))

/-- What may be dealt with next: nothing that has been, in a directory that has been. -/
structure Pending (tree : FileTree String Bytes) (top target : List String)
    (visited : List (List String)) (rel : List String) : Prop where
  new : rel ∉ visited
  ne_nil : rel ≠ []
  above : rel.dropLast = [] ∨ rel.dropLast ∈ visited
  there : tree.kind (top ++ rel) ≠ none
  dir : tree.kind (target ++ rel.dropLast) = some .dir

/-- The directories that are open, when some paths have been dealt with since the destination was
made. -/
structure Walked (permits : FilePath String → Bool) (dst : FilePath String)
    (made : FileTree String Bytes) (top target : List String) (visited : List (List String))
    (s : Copying) : Prop where
  opened : ∀ dir ∈ s.dirs, Opened permits dst s.tree top target dir
  reached : ∀ dir ∈ s.dirs, dir.rel = [] ∨ dir.rel ∈ visited
  seen : ∀ dir ∈ s.dirs, ∀ name, name ∈ dir.seen ↔ dir.rel ++ [name] ∈ visited
  distinct : (s.dirs.map (·.rel)).Nodup
  above : ∀ rel ∈ visited, rel ≠ [] ∧ (rel.dropLast = [] ∨ rel.dropLast ∈ visited)
  complete : ∀ rel, rel = [] ∨ rel ∈ visited →
    (∃ dir ∈ s.dirs, dir.rel = rel ∧
        ∀ name, made.kind (top ++ (rel ++ [name])) ≠ none → name ∈ dir.listed) ∨
      ∀ name, made.kind (top ++ (rel ++ [name])) ≠ none → rel ++ [name] ∈ visited
  outcome : s.outcome = if s.dirs = [] then some (.ok ()) else none

theorem kind_of_listed {place : List String} {name : String}
    (h : name ∈ (tree.entries place).map (·.1)) : tree.kind (place ++ [name]) ≠ none := by
  obtain ⟨⟨other, kind⟩, hmem, rfl⟩ := List.mem_map.1 h
  rw [FileTree.mem_entries.1 hmem]
  simp

/-- The innermost directory is finished. -/
theorem Walked.finish {visited : List (List String)} {tree : FileTree String Bytes} {dir : OpenDir}
    {dirs : List OpenDir} {outcome : Option (Except CopyError Unit)}
    (h : Walked permits dst made top target visited ⟨tree, dir :: dirs, outcome⟩)
    (hlisted : ∀ name ∈ dir.listed, name ∈ dir.seen) :
    Walked permits dst made top target visited
      ⟨tree, dirs, if dirs = [] then some (.ok ()) else none⟩ where
  opened d hd := h.opened d (List.mem_cons_of_mem _ hd)
  reached d hd := h.reached d (List.mem_cons_of_mem _ hd)
  seen d hd := h.seen d (List.mem_cons_of_mem _ hd)
  distinct := (List.nodup_cons.1 h.distinct).2
  above := h.above
  complete := by
    intro rel hrel
    obtain ⟨d, hd, hdrel, hall⟩ | hall := h.complete rel hrel
    · rcases List.mem_cons.1 hd with rfl | hd
      · refine .inr fun name hname => ?_
        rw [← hdrel]
        exact (h.seen d List.mem_cons_self name).1 (hlisted name (hall name hname))
      · exact .inl ⟨d, hd, hdrel, hall⟩
    · exact .inr hall
  outcome := rfl

/-- An entry of the innermost directory has been dealt with; a directory is open now. -/
theorem Walked.visit {visited : List (List String)} {tree tree' : FileTree String Bytes}
    {dir : OpenDir} {dirs : List OpenDir} {outcome : Option (Except CopyError Unit)} {name : String}
    {kind : FileKind String Bytes}
    (h : Walked permits dst made top target visited ⟨tree, dir :: dirs, outcome⟩)
    (hmade : made.Keeps tree) (hkeeps : tree.Keeps tree') (hnew : dir.rel ++ [name] ∉ visited)
    (hk : tree.kind (top ++ (dir.rel ++ [name])) = some kind)
    (hdir : kind.isDir = true → tree'.kind (target ++ (dir.rel ++ [name])) = some .dir)
    (hpermits : permits (dst.below (dir.rel ++ [name])) = true) :
    Walked permits dst made top target ((dir.rel ++ [name]) :: visited)
      ⟨tree', (if kind.isDir = true then [⟨dir.rel ++ [name], top ++ (dir.rel ++ [name]),
          (tree.entries (top ++ (dir.rel ++ [name]))).map (·.1), []⟩] else []) ++
        { dir with seen := name :: dir.seen } :: dirs, none⟩ := by
  have hmem : ∀ d ∈ (if kind.isDir = true then [(⟨dir.rel ++ [name], top ++ (dir.rel ++ [name]),
      (tree.entries (top ++ (dir.rel ++ [name]))).map (·.1), []⟩ : OpenDir)] else []) ++
        { dir with seen := name :: dir.seen } :: dirs,
      (kind.isDir = true ∧ d = ⟨dir.rel ++ [name], top ++ (dir.rel ++ [name]),
          (tree.entries (top ++ (dir.rel ++ [name]))).map (·.1), []⟩) ∨
        d = { dir with seen := name :: dir.seen } ∨ d ∈ dirs := by
    intro d hd
    rcases List.mem_append.1 hd with hd | hd
    · split_ifs at hd with hisDir
      · exact .inl ⟨hisDir, List.mem_singleton.1 hd⟩
      · cases hd
    · exact .inr (List.mem_cons.1 hd)
  have hparent : dir.rel = [] ∨ dir.rel ∈ visited := h.reached dir List.mem_cons_self
  have hopen : ∀ d ∈ dir :: dirs, Opened permits dst tree' top target d := by
    intro d hd
    obtain ⟨hplace, hlisted, habove, hwrites⟩ := h.opened d hd
    exact ⟨hplace, fun name hname => hkeeps.kind_ne (hlisted name hname), hkeeps.dir habove, hwrites⟩
  constructor
  case opened =>
    intro d hd
    rcases hmem d hd with ⟨hisDir, rfl⟩ | rfl | hd
    · refine ⟨rfl, fun other hother => hkeeps.kind_ne ?_, hdir hisDir, .inr hpermits⟩
      exact kind_of_listed hother
    · obtain ⟨hplace, hlisted, habove, hwrites⟩ := hopen dir List.mem_cons_self
      exact ⟨hplace, hlisted, habove, hwrites⟩
    · exact hopen d (List.mem_cons_of_mem _ hd)
  case reached =>
    intro d hd
    rcases hmem d hd with ⟨-, rfl⟩ | rfl | hd
    · exact .inr List.mem_cons_self
    · exact hparent.imp_right (List.mem_cons_of_mem _)
    · exact (h.reached d (List.mem_cons_of_mem _ hd)).imp_right (List.mem_cons_of_mem _)
  case seen =>
    intro d hd other
    rcases hmem d hd with ⟨-, rfl⟩ | rfl | hd
    · refine iff_of_false List.not_mem_nil fun hother => ?_
      rcases List.mem_cons.1 hother with heq | hother
      · simp at heq
      · -- what is below the new path has not been dealt with
        rcases (h.above _ hother).2 with hnil | hvisited
        · simp at hnil
        · rw [List.dropLast_concat] at hvisited
          exact hnew hvisited
    · rw [List.mem_cons, List.mem_cons, h.seen dir List.mem_cons_self]
      simp
    · rw [h.seen d (List.mem_cons_of_mem _ hd), List.mem_cons]
      refine ⟨.inr, fun hother => hother.resolve_left fun heq => ?_⟩
      have hrel : d.rel = dir.rel := (List.append_inj' heq rfl).1
      refine (List.nodup_cons.1 h.distinct).1 ?_
      exact List.mem_map.2 ⟨d, hd, hrel⟩
  case distinct =>
    have hold : (({ dir with seen := name :: dir.seen } :: dirs).map (·.rel)).Nodup := h.distinct
    by_cases hisDir : kind.isDir = true
    · rw [if_pos hisDir, List.singleton_append, List.map_cons, List.nodup_cons]
      refine ⟨fun hsub => ?_, hold⟩
      obtain ⟨d, hd, hrel⟩ := List.mem_map.1 hsub
      have hd' : d.rel = [] ∨ d.rel ∈ visited := by
        rcases List.mem_cons.1 hd with rfl | hd
        · exact hparent
        · exact h.reached d (List.mem_cons_of_mem _ hd)
      rw [hrel] at hd'
      exact hd'.elim (by simp) hnew
    · rwa [if_neg hisDir, List.nil_append]
  case above =>
    intro rel hrel
    rcases List.mem_cons.1 hrel with rfl | hrel
    · rw [List.dropLast_concat]
      exact ⟨by simp, hparent.imp_right (List.mem_cons_of_mem _)⟩
    · exact ⟨(h.above rel hrel).1, (h.above rel hrel).2.imp_right (List.mem_cons_of_mem _)⟩
  case complete =>
    intro rel hrel
    by_cases hnewRel : rel = dir.rel ++ [name]
    · subst hnewRel
      by_cases hisDir : kind.isDir = true
      · refine .inl ⟨_, List.mem_append_left _ (by rw [if_pos hisDir]; exact List.mem_singleton_self _),
          rfl, fun other hother => ?_⟩
        obtain ⟨kind', hk'⟩ := Option.ne_none_iff_exists'.1 (hmade.kind_ne hother)
        rw [← List.append_assoc] at hk'
        exact List.mem_map.2 ⟨(other, kind'), FileTree.mem_entries.2 hk', rfl⟩
      · -- there is nothing below
        refine .inr fun other hother => absurd (hmade.kind_ne hother) ?_
        rw [← List.append_assoc]
        intro hbelow
        rw [FileTree.kind_above hbelow] at hk
        cases hk
        exact hisDir rfl
    · have hrel' : rel = [] ∨ rel ∈ visited :=
        hrel.imp_right fun hmem => (List.mem_cons.1 hmem).resolve_left hnewRel
      obtain ⟨d, hd, hdrel, hall⟩ | hall := h.complete rel hrel'
      · rcases List.mem_cons.1 hd with rfl | hd
        · exact .inl ⟨_, List.mem_append_right _ List.mem_cons_self, hdrel, hall⟩
        · exact .inl ⟨d, List.mem_append_right _ (List.mem_cons_of_mem _ hd), hdrel, hall⟩
      · exact .inr fun other hother => List.mem_cons_of_mem _ (hall other hother)
  case outcome => simp

/-- What one read leads to: the copy fails, a directory is finished, or one more path has been dealt
with. -/
theorem next_cases {visited : List (List String)} {s s' : Copying} {read : Read}
    (hsettled : Settled site permits src dst s.tree top target) (hkeeps : made.Keeps s.tree)
    (hwalked : Walked permits dst made top target visited s)
    (h : next site permits src dst s read = some s') :
    (∃ rel, Pending s.tree top target visited rel ∧
        Fails site permits src dst top target s.tree rel ∧ ∃ e, s'.outcome = some (.error e)) ∨
      (s'.tree = s.tree ∧ s'.dirs.length < s.dirs.length ∧
        Walked permits dst made top target visited s') ∨
      ∃ rel, Pending s.tree top target visited rel ∧
        permits (src.below rel) = true ∧ permits (dst.below rel) = true ∧
        Visits site permits src dst top target s.tree rel s'.tree ∧
        s'.dirs.length ≤ s.dirs.length + 1 ∧
        (s.tree.Keeps s'.tree → (s.tree.kind (top ++ rel) = some .dir →
            s'.tree.kind (target ++ rel) = some .dir) →
          Walked permits dst made top target (rel :: visited) s') := by
  obtain ⟨tree, dirs, outcome⟩ := s
  unfold next at h
  split at h
  · next dir dirs houtcome hdirs =>
    simp only at houtcome hdirs
    subst houtcome hdirs
    have hopened := hwalked.opened dir List.mem_cons_self
    split at h
    · by_cases hlisted : ∀ name ∈ dir.listed, name ∈ dir.seen
      · rw [if_pos hlisted] at h
        cases h
        exact .inr (.inl ⟨rfl, Nat.lt_succ_self _, hwalked.finish hlisted⟩)
      · rw [if_neg hlisted] at h
        cases h
    · next name =>
      split_ifs at h with hseen
      obtain ⟨kind, hk, rfl⟩ := Option.map_eq_some_iff.1 h
      rw [hopened.place, List.append_assoc] at hk
      have hnew : dir.rel ++ [name] ∉ visited := by rwa [← hwalked.seen dir List.mem_cons_self]
      have hpending : Pending tree top target visited (dir.rel ++ [name]) := by
        refine ⟨hnew, by simp, ?_, by simp [hk], ?_⟩
        · rw [List.dropLast_concat]
          exact hwalked.reached dir List.mem_cons_self
        · rw [List.dropLast_concat]
          exact hopened.above
      obtain ⟨hfails, e, he⟩ | ⟨hreads, hwrites, tree', hvisits, heq⟩ :=
        copyEntry_spec hsettled hopened dirs hk
      · exact .inl ⟨_, hpending, hfails, e, he⟩
      · rw [heq]
        refine .inr (.inr ⟨_, hpending, hreads, hwrites, hvisits, ?_, fun hkeeps' hdir => ?_⟩)
        · split_ifs <;> simp
        · refine hwalked.visit hkeeps hkeeps' hnew hk (fun hisDir => hdir ?_) hwrites
          rw [hk, FileKind.isDir_iff.1 hisDir]
  · cases h

end

end HostCopy

end Distant
