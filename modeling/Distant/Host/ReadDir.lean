import Mathlib.Data.List.Sort
import Distant.Host.Remove
import Distant.Protocol

/-!
# Listing a directory on the host

`read_dir` canonicalizes the path that it is given and walks over all that is below, no link
followed. `readDir_perm` says what it answers for a tree without links: one entry for each node, as
`expected` has it.
-/

namespace Distant

/-- How a platform spells its paths, as far as they are made of the names in its file tree. -/
structure Spelling where
  Valid : String → Prop
  toRemote : FilePath String → String
  fromRemote : String → FilePath String
  fromRemote_toRemote : ∀ absolute (names : List String), (∀ name ∈ names, Valid name) →
    fromRemote (toRemote ⟨absolute, names.map .name⟩) = ⟨absolute, names.map .name⟩
  toRemote_name : ∀ name, Valid name → toRemote ⟨false, [.name name]⟩ = name

/-- A tree of directories and files only, and all names in it are valid. -/
structure PlainTree (spelling : Spelling) (β : Type) where
  tree : FileTree String β
  noLinks : ∀ node ∈ tree.nodes, node.2.isLink = false
  named : ∀ node ∈ tree.nodes, ∀ name ∈ node.1, spelling.Valid name

def fileType {β : Type} : FileKind String β → FileType
  | .dir => .dir
  | .file _ => .file
  | .link _ => .symlink

/-! ## What a listing should have -/

section

variable {β : Type} (spelling : Spelling) (tree : FileTree String β) (top : List String)
  (depth : Nat) (absolute includeRoot : Bool)

/-- The entry of a node below the listed directory. -/
def entryOf (node : List String × FileKind String β) : DirEntry :=
  ⟨spelling.toRemote
      (if absolute = true then ⟨true, node.1.map .name⟩
      else ⟨false, (node.1.drop top.length).map .name⟩),
    fileType node.2, node.1.length - top.length⟩

/-- The entry of the listed directory itself. -/
def rootEntry : DirEntry := ⟨spelling.toRemote ⟨true, top.map .name⟩, .dir, 0⟩

/-- The lengths of the locations that are not too deep; 0 is any depth. -/
def inDepth (length : Nat) : Bool := depth = 0 ∨ length ≤ top.length + depth

/-- One entry for each node that is not too deep. -/
def expected : List DirEntry :=
  (if includeRoot = true then [rootEntry spelling top] else []) ++
    (tree.below (inDepth top depth) top).map (entryOf spelling top absolute)

end

/-! ## What the host answers -/

namespace HostReadDir

/-- What was not found when its path was canonicalized. -/
structure ReadError where
  loc : List String
  deriving DecidableEq, Repr

section

variable {β : Type} (site : Site) (spelling : Spelling) (before : String → String → Bool)
  (tree : FileTree String β)

/-- The order of a walk in which siblings come in the order of their names, and each directory
right before what is in it. -/
def comesBefore : List String → List String → Bool
  | [], _ => true
  | _ :: _, [] => false
  | name :: loc, name' :: loc' => if name = name' then comesBefore loc loc' else before name name'

/-- `WalkDir` over all below a directory, sorted by file name. -/
def walkDir (root : List String) (maxDepth : Nat) : List (List String × FileKind String β) :=
  (tree.below (inDepth root maxDepth) root).mergeSort fun node node' => comesBefore before node.1 node'.1

/-- The path of an entry, or an error if it cannot be canonicalized. -/
def entryPath (root : List String) (absolute canonicalize : Bool) (loc : List String) :
    Option (FilePath String) :=
  (if canonicalize = true then site.follow tree ⟨true, loc.map .name⟩ else some loc).map
    fun path =>
      if absolute = false ∧ root <+: path then ⟨false, (path.drop root.length).map .name⟩
      else ⟨true, path.map .name⟩

def eachEntry (root : List String) (absolute canonicalize : Bool) :
    List (List String × FileKind String β) → List DirEntry × List ReadError
  | [] => ([], [])
  | node :: nodes =>
    let (entries, errors) := eachEntry root absolute canonicalize nodes
    match entryPath site tree root absolute canonicalize node.1 with
    | some path =>
      (⟨spelling.toRemote path, fileType node.2, node.1.length - root.length⟩ :: entries, errors)
    | none => (entries, ⟨node.1⟩ :: errors)

/-- `none` if the path given does not exist. -/
def readDir (path : FilePath String) (depth : Nat) (absolute canonicalize includeRoot : Bool) :
    Option (List DirEntry × List ReadError) :=
  (site.follow tree path).map fun root =>
    let (entries, errors) := eachEntry site spelling tree root absolute canonicalize
      (walkDir before tree root depth)
    ((if includeRoot = true then
        [⟨spelling.toRemote ⟨true, root.map .name⟩, if tree.isDir root = true then .dir else .file,
          0⟩]
      else []) ++ entries, errors)

end

section

variable {β : Type} {site : Site} {spelling : Spelling} {before : String → String → Bool}
  {tree : FileTree String β} {root : List String}

theorem entryPath_plain {absolute canonicalize : Bool} {loc : List String}
    {kind : FileKind String β} (hk : tree.kind loc = some kind) (hl : kind.isLink = false)
    (hr : root <+: loc) :
    entryPath site tree root absolute canonicalize loc =
      some (if absolute = true then ⟨true, loc.map .name⟩
        else ⟨false, (loc.drop root.length).map .name⟩) := by
  have hsome : (if canonicalize = true then site.follow tree ⟨true, loc.map .name⟩ else some loc) =
      some loc := by
    split_ifs
    · exact Site.follow_root hk hl
    · rfl
  rw [entryPath, hsome, Option.map_some]
  cases absolute with
  | true => simp
  | false => simp [hr]

theorem eachEntry_plain {absolute canonicalize : Bool}
    {nodes : List (List String × FileKind String β)}
    (hnodes : ∀ node ∈ nodes, node ∈ tree.nodes ∧ node.2.isLink = false ∧ root <+: node.1) :
    eachEntry site spelling tree root absolute canonicalize nodes =
      (nodes.map (entryOf spelling root absolute), []) := by
  induction nodes with
  | nil => rfl
  | cons node nodes ih =>
    obtain ⟨hn, hl, hr⟩ := hnodes node List.mem_cons_self
    rw [eachEntry, entryPath_plain (FileTree.kind_of_mem_nodes hn) hl hr,
      ih fun other ho => hnodes other (List.mem_cons_of_mem _ ho)]
    rfl

/-- On a tree without links the host answers what is expected, without an error. -/
theorem readDir_perm (spelling : Spelling) (before : String → String → Bool)
    {path : FilePath String} (depth : Nat)
    (absolute canonicalize includeRoot : Bool)
    (hno : ∀ node ∈ tree.nodes, node.2.isLink = false) (hf : site.follow tree path = some root)
    (hd : tree.isDir root = true) :
    ∃ entries, readDir site spelling before tree path depth absolute canonicalize includeRoot =
        some (entries, []) ∧
      entries.Perm (expected spelling tree root depth absolute includeRoot) := by
  have hnodes : ∀ node ∈ walkDir before tree root depth,
      node ∈ tree.nodes ∧ node.2.isLink = false ∧ root <+: node.1 := by
    intro node hn
    rw [walkDir, List.mem_mergeSort] at hn
    obtain ⟨hn, hr, -⟩ := FileTree.mem_below.1 hn
    exact ⟨hn, hno node hn, hr⟩
  refine ⟨(if includeRoot = true then [rootEntry spelling root] else []) ++
    (walkDir before tree root depth).map (entryOf spelling root absolute), ?_, ?_⟩
  · simp only [readDir, hf, Option.map_some, eachEntry_plain hnodes, hd]
    rfl
  · apply List.Perm.append_left
    exact (List.mergeSort_perm _ _).map _

end

end HostReadDir

end Distant
