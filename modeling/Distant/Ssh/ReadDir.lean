import Distant.Host.ReadDir
import Distant.Ssh.Sftp

/-!
# Listing a directory over SSH

`read_dir` lists one directory by a call to the SFTP server and goes on from a list of entries to
process: the path of an entry tells where its directory is. With `canonicalize` and without
`absolute` that path is the name alone, and is not taken from the listed directory.

`listing_complete_iff` says exactly when the answer has one entry for each node, as on the host.
-/

namespace Distant

namespace SshReadDir

inductive Family where
  | unix
  | windows
  deriving DecidableEq, Repr

/-- `SftpPathBuf::join`; a slash at the end of the path is not repeated. -/
def join (path child : FilePath String) : FilePath String :=
  { path with steps := path.steps ++ child.steps }

/-- `SftpPathBuf::strip_prefix`. -/
def stripPrefix (path base : FilePath String) : Option (FilePath String) :=
  if path.absolute = base.absolute ∧ base.steps <+: path.steps ∧ base.steps ≠ path.steps then
    some ⟨false, path.steps.drop base.steps.length⟩
  else none

section

variable {β : Type} (site : Site) (spelling : Spelling) (before : String → String → Bool)
  (family : Family) (tree : FileTree String β)

/-- Where a link leads; on Windows the server does not resolve it in a path. -/
def resolved (full : FilePath String) : FilePath String :=
  match family with
  | .windows =>
    match site.readLink tree full with
    | some target => (site.canonicalize tree target).getD target
    | none => (site.canonicalize tree full).getD full
  | .unix => (site.canonicalize tree full).getD full

def entryPath (dirPath basePath : FilePath String) (absolute canonicalize : Bool)
    (filename : String) (kind : FileKind String β) : String :=
  if absolute = true then spelling.toRemote (join basePath ⟨false, [.name filename]⟩)
  else if canonicalize = true then
    if kind.isLink = true then
      match stripPrefix (resolved site family tree (join dirPath ⟨false, [.name filename]⟩))
          basePath with
      | some relative => spelling.toRemote relative
      | none => filename
    else filename
  else filename

def readSingleDir (dirPath basePath : FilePath String) (absolute canonicalize : Bool) :
    Option (List DirEntry) :=
  (site.readDir tree dirPath).map fun entries =>
    entries.filterMap fun entry =>
      match entry.1 with
      | .stay => none
      | .up => none
      | .name filename =>
        some ⟨entryPath site spelling family tree dirPath basePath absolute canonicalize filename
          entry.2, fileType entry.2, 1⟩

/-- The directory of an entry, and the base of the paths in it. -/
def subdir (sftpPath : FilePath String) (absolute canonicalize : Bool) (entry : DirEntry) :
    FilePath String :=
  if absolute = true ∨ canonicalize = true then spelling.fromRemote entry.path
  else join sftpPath (spelling.fromRemote entry.path)

def subEntry (absolute canonicalize : Bool) (entry sub : DirEntry) : DirEntry :=
  { sub with
    depth := entry.depth + 1
    path :=
      if absolute = false ∧ canonicalize = false then
        spelling.toRemote (join (spelling.fromRemote entry.path) ⟨false, [.name sub.path]⟩)
      else sub.path }

/-- `while let Some(entry) = to_process.pop()`; the entries to process have the last one first, and
depth 0 is all depths. -/
def process (sftpPath : FilePath String) (depth : Nat) (absolute canonicalize : Bool) :
    Nat → List DirEntry → List DirEntry → List (FilePath String) →
      Option (List DirEntry × List (FilePath String))
  | 0, _, _, _ => none
  | _ + 1, [], entries, errors => some (entries, errors)
  | fuel + 1, entry :: toProcess, entries, errors =>
    if entry.fileType = .dir ∧ (depth = 0 ∨ entry.depth < depth) then
      let dir := subdir spelling sftpPath absolute canonicalize entry
      match readSingleDir site spelling family tree dir dir absolute canonicalize with
      | some subEntries =>
        let subs := subEntries.map (subEntry spelling absolute canonicalize entry)
        process sftpPath depth absolute canonicalize fuel (subs.reverse ++ toProcess)
          (entries ++ subs) errors
      | none => process sftpPath depth absolute canonicalize fuel toProcess entries (errors ++ [dir])
    else process sftpPath depth absolute canonicalize fuel toProcess entries errors

/-- All of `read_dir`: `none` if there is too little fuel for the loop, and no answer if the
directory itself cannot be listed. The errors are the paths that could not be listed. -/
def readDir (fuel : Nat) (path : String) (depth : Nat)
    (absolute canonicalize includeRoot : Bool) :
    Option (Option (List DirEntry × List (FilePath String))) :=
  let sftpPath := spelling.fromRemote path
  let baseSftp :=
    if absolute = true ∨ canonicalize = true then (site.canonicalize tree sftpPath).getD sftpPath
    else sftpPath
  match readSingleDir site spelling family tree sftpPath baseSftp absolute canonicalize with
  | none => some none
  | some rootEntries =>
    let rootPath := ((site.canonicalize tree sftpPath).map spelling.toRemote).getD path
    let entries := (if includeRoot = true then [⟨rootPath, .dir, 0⟩] else []) ++ rootEntries
    let sort (entries : List DirEntry) := entries.mergeSort fun a b => before a.path b.path
    if depth = 0 ∨ 1 < depth then
      let toProcess := entries.filter fun entry => entry.fileType = .dir ∧ 1 ≤ entry.depth
      (process site spelling family tree sftpPath depth absolute canonicalize fuel
        toProcess.reverse entries []).map fun result => some (sort result.1, result.2)
    else some (some (sort entries, []))

end

/-- With enough fuel the answer has one entry for each node, and no error, and the host answers
with the same entries. -/
def IsComplete {β : Type} (site : Site) (spelling : Spelling) (before : String → String → Bool)
    (family : Family) (tree : FileTree String β) (path : String) (top : List String) (depth : Nat)
    (absolute canonicalize includeRoot : Bool) : Prop :=
  ∃ enough, ∀ fuel, enough ≤ fuel →
    ∃ entries entries',
      readDir site spelling before family tree fuel path depth absolute canonicalize includeRoot =
        some (some (entries, [])) ∧
      entries.Perm (expected spelling tree top depth absolute includeRoot) ∧
      HostReadDir.readDir site spelling before tree (spelling.fromRemote path) depth absolute
        canonicalize includeRoot = some (entries', []) ∧
      entries.Perm entries'

/-- The names of the directories in the listed one lead to empty directories from where relative
paths start, and are empty themselves. -/
def OnlyEmpty {β : Type} (site : Site) (tree : FileTree String β) (top : List String) : Prop :=
  ∀ name, tree.kind (top ++ [name]) = some .dir → tree.entries (top ++ [name]) = [] ∧
    ∃ other, site.follow tree ⟨false, [.name name]⟩ = some other ∧ tree.isDir other = true ∧
      tree.entries other = []

section

variable {β : Type} {site : Site} {spelling : Spelling} {before : String → String → Bool}
  {family : Family} {plain : PlainTree spelling β} {top loc : List String} {depth : Nat}
  {absolute canonicalize includeRoot : Bool}

/-! ## One directory -/

theorem not_isLink {kind : FileKind String β} (hne : loc ≠ [])
    (hk : plain.tree.kind loc = some kind) : kind.isLink = false :=
  plain.noLinks _ (FileTree.mem_nodes_of_kind hk hne)

theorem valid_of_kind {kind : FileKind String β} {name : String}
    (hk : plain.tree.kind loc = some kind) (hm : name ∈ loc) : spelling.Valid name :=
  plain.named _ (FileTree.mem_nodes_of_kind hk (List.ne_nil_of_mem hm)) name hm

theorem fromRemote_name {name : String} (h : spelling.Valid name) :
    spelling.fromRemote name = ⟨false, [.name name]⟩ := by
  have hr := spelling.fromRemote_toRemote false [name] (by simpa using h)
  rw [List.map_singleton, spelling.toRemote_name name h] at hr
  exact hr

theorem readSingleDir_eq {dirPath : FilePath String} (basePath : FilePath String)
    (hf : site.follow plain.tree dirPath = some loc) (hd : plain.tree.isDir loc = true) :
    readSingleDir site spelling family plain.tree dirPath basePath absolute canonicalize =
      some ((plain.tree.entries loc).map fun entry =>
        ⟨entryPath site spelling family plain.tree dirPath basePath absolute canonicalize entry.1
          entry.2, fileType entry.2, 1⟩) := by
  simp only [readSingleDir, Site.readDir, hf, Option.bind_some, hd, if_true, Option.map_some]
  simp [List.filterMap_map]

theorem entryPath_eq {dirPath basePath : FilePath String} {name : String}
    {kind : FileKind String β} (hl : kind.isLink = false) :
    entryPath site spelling family plain.tree dirPath basePath absolute canonicalize name kind =
      if absolute = true then spelling.toRemote (join basePath ⟨false, [.name name]⟩) else name := by
  cases absolute <;> cases canonicalize <;> simp [entryPath, hl]

theorem join_name (isAbsolute : Bool) (names : List String) (name : String) :
    join ⟨isAbsolute, names.map .name⟩ ⟨false, [.name name]⟩ =
      ⟨isAbsolute, (names ++ [name]).map .name⟩ := by
  simp [join]

/-- What is in a directory becomes the entries of the nodes in it. -/
theorem entries_map_eq {f : String × FileKind String β → DirEntry}
    (h : ∀ entry ∈ plain.tree.entries loc,
      f entry = entryOf spelling top absolute (loc ++ [entry.1], entry.2)) :
    (plain.tree.entries loc).map f =
      (plain.tree.children loc).map (entryOf spelling top absolute) := by
  rw [← FileTree.entries_eq, List.map_map]
  exact List.map_congr_left h

theorem readSingleDir_top {sftpPath : FilePath String}
    (hf : site.follow plain.tree sftpPath = some top) (hd : plain.tree.isDir top = true) :
    readSingleDir site spelling family plain.tree sftpPath
        (if absolute = true ∨ canonicalize = true then
          (site.canonicalize plain.tree sftpPath).getD sftpPath
        else sftpPath) absolute canonicalize =
      some ((plain.tree.children top).map (entryOf spelling top absolute)) := by
  rw [readSingleDir_eq _ hf hd]
  congr 1
  apply entries_map_eq
  intro entry he
  have hk := FileTree.mem_entries.1 he
  rw [entryPath_eq (not_isLink (by simp) hk)]
  have hvalid : spelling.Valid entry.1 := valid_of_kind hk (by simp)
  have hlen : (top ++ [entry.1]).length - top.length = 1 := by simp
  cases absolute with
  | true =>
    have hc : site.canonicalize plain.tree sftpPath = some ⟨true, top.map .name⟩ := by
      simp [Site.canonicalize, hf]
    simp only [entryOf, hlen, if_true, true_or, hc, Option.getD_some, join_name]
  | false =>
    have hdrop : (top ++ [entry.1]).drop top.length = [entry.1] := by simp
    simp only [entryOf, hlen, hdrop, List.map_singleton, Bool.false_eq_true, if_false,
      spelling.toRemote_name _ hvalid]

/-- With the two good combinations of flags, the entries of a directory below are those of the nodes
in it. -/
theorem readSingleDir_sub (family : Family) {sftpPath : FilePath String}
    {node : List String × FileKind String β}
    (hgood : absolute = true ∨ canonicalize = false)
    (hf : site.follow plain.tree sftpPath = some top) (hn : node ∈ plain.tree.nodes)
    (ht : top <+: node.1) (hd : plain.tree.isDir node.1 = true) :
    ∃ subEntries,
      readSingleDir site spelling family plain.tree
        (subdir spelling sftpPath absolute canonicalize (entryOf spelling top absolute node))
        (subdir spelling sftpPath absolute canonicalize (entryOf spelling top absolute node))
        absolute canonicalize = some subEntries ∧
      subEntries.map (subEntry spelling absolute canonicalize
        (entryOf spelling top absolute node)) =
        (plain.tree.children node.1).map (entryOf spelling top absolute) := by
  obtain ⟨rest, hr⟩ := ht
  have hk := FileTree.isDir_iff.1 hd
  have hvalid := plain.named node hn
  have hdrop : node.1.drop top.length = rest := by
    rw [← hr]
    simp
  cases absolute with
  | true =>
    have hpath : spelling.fromRemote (entryOf spelling top true node).path =
        ⟨true, node.1.map .name⟩ := by
      simpa [entryOf] using spelling.fromRemote_toRemote true node.1 hvalid
    have hfollow : site.follow plain.tree ⟨true, node.1.map .name⟩ = some node.1 :=
      Site.follow_root hk rfl
    have hsub : subdir spelling sftpPath true canonicalize (entryOf spelling top true node) =
        ⟨true, node.1.map .name⟩ := by
      simp [subdir, hpath]
    rw [hsub, readSingleDir_eq _ hfollow hd]
    refine ⟨_, rfl, ?_⟩
    rw [List.map_map]
    apply entries_map_eq
    intro entry he
    have hk' := FileTree.mem_entries.1 he
    have hlen : (node.1 ++ [entry.1]).length - top.length = node.1.length - top.length + 1 := by
      rw [← hr]
      simp
    simp only [Function.comp_apply, entryPath_eq (not_isLink (by simp) hk'), subEntry, entryOf,
      hlen, join_name, if_true]
    simp
  | false =>
    have hc : canonicalize = false := by simpa using hgood
    subst hc
    have hvalid' : ∀ name ∈ rest, spelling.Valid name := fun name hm =>
      hvalid name (by rw [← hr]; exact List.mem_append_right _ hm)
    have hpath : spelling.fromRemote (entryOf spelling top false node).path =
        ⟨false, rest.map .name⟩ := by
      simpa [entryOf, hdrop] using spelling.fromRemote_toRemote false rest hvalid'
    have hfollow : site.follow plain.tree (sftpPath.below rest) = some node.1 := by
      have hk' : plain.tree.kind (top ++ rest) = some .dir := by
        rw [hr]
        exact hk
      rw [← hr]
      exact Site.follow_below hf hk' rfl
    have hsub : subdir spelling sftpPath false false (entryOf spelling top false node) =
        sftpPath.below rest := by
      simp [subdir, hpath, join, FilePath.below]
    rw [hsub, readSingleDir_eq _ hfollow hd]
    refine ⟨_, rfl, ?_⟩
    rw [List.map_map]
    apply entries_map_eq
    intro entry he
    have hk' := FileTree.mem_entries.1 he
    have hlen : (node.1 ++ [entry.1]).length - top.length = node.1.length - top.length + 1 := by
      rw [← hr]
      simp
    have hdrop' : (node.1 ++ [entry.1]).drop top.length = rest ++ [entry.1] := by
      rw [← hr]
      simp
    simp only [Function.comp_apply, entryPath_eq (not_isLink (by simp) hk'), subEntry, hpath,
      join_name, and_self, if_true, Bool.false_eq_true, if_false]
    simp only [entryOf, hlen, hdrop', Bool.false_eq_true, if_false]

/-! ## The work list -/

theorem inDepth_succ {length : Nat} (h : top.length ≤ length) :
    inDepth top depth (length + 1) = true ↔ depth = 0 ∨ length - top.length < depth := by
  simp only [inDepth, decide_eq_true_eq]
  omega

theorem fileType_dir {node : List String × FileKind String β} (hn : node ∈ plain.tree.nodes) :
    fileType node.2 = .dir ↔ plain.tree.isDir node.1 = true := by
  rw [FileTree.isDir_iff, FileTree.kind_of_mem_nodes hn, Option.some.injEq]
  cases node.2 <;> simp [fileType]

theorem flatMap_cons_perm {α : Type} (f : α → List α) (xs : List α) :
    (xs.flatMap fun x => x :: f x).Perm (xs ++ xs.flatMap f) := by
  induction xs with
  | nil => exact List.Perm.refl _
  | cons x xs ih =>
    rw [List.flatMap_cons, List.flatMap_cons, List.cons_append, List.cons_append]
    apply List.Perm.cons
    refine (ih.append_left _).trans ?_
    rw [← List.append_assoc, ← List.append_assoc]
    exact List.perm_append_comm.append_right _

/-- The work on a list of nodes comes to an end, and adds the entries of all nodes below them. -/
theorem process_perm (family : Family) (depth : Nat) {sftpPath : FilePath String} (hgood : absolute = true ∨ canonicalize = false)
    (hf : site.follow plain.tree sftpPath = some top) {fuel : Nat}
    {nodes : List (List String × FileKind String β)}
    (hnodes : ∀ node ∈ nodes, node ∈ plain.tree.nodes ∧ top <+: node.1)
    (hfuel : (nodes.flatMap fun node =>
      node :: plain.tree.below (inDepth top depth) node.1).length < fuel)
    (entries : List DirEntry) :
    ∃ entries',
      process site spelling family plain.tree sftpPath depth absolute canonicalize fuel
        (nodes.map (entryOf spelling top absolute)) entries [] = some (entries', []) ∧
      entries'.Perm (entries ++
        (nodes.flatMap fun node => plain.tree.below (inDepth top depth) node.1).map
          (entryOf spelling top absolute)) := by
  induction fuel generalizing nodes entries with
  | zero => omega
  | succ fuel ih =>
    cases nodes with
    | nil => exact ⟨entries, rfl, by simp⟩
    | cons node nodes =>
      obtain ⟨hn, ht⟩ := hnodes node List.mem_cons_self
      have hrest : ∀ node ∈ nodes, node ∈ plain.tree.nodes ∧ top <+: node.1 :=
        fun other ho => hnodes other (List.mem_cons_of_mem _ ho)
      rw [List.flatMap_cons, List.length_append, List.length_cons] at hfuel
      rw [List.map_cons, process]
      split_ifs with hc
      · obtain ⟨hd, hdepth⟩ := hc
        have hd : plain.tree.isDir node.1 = true := (fileType_dir hn).1 hd
        have hkeep : inDepth top depth (node.1.length + 1) = true :=
          (inDepth_succ ht.length_le).2 hdepth
        have hperm := plain.tree.below_perm hkeep
        obtain ⟨subEntries, hread, hsubs⟩ := readSingleDir_sub family hgood hf hn ht hd
        simp only [hread, hsubs]
        rw [← List.map_reverse, ← List.map_append]
        have hall : ∀ other ∈ (plain.tree.children node.1).reverse ++ nodes,
            other ∈ plain.tree.nodes ∧ top <+: other.1 := by
          intro other ho
          rcases List.mem_append.1 ho with ho | ho
          · rw [List.mem_reverse] at ho
            exact ⟨(FileTree.mem_children.1 ho).1,
              ht.trans (FileTree.above_of_mem_children ho)⟩
          · exact hrest other ho
        have hreverse : ∀ f : List String × FileKind String β →
              List (List String × FileKind String β),
            ((plain.tree.children node.1).reverse.flatMap f).Perm
              ((plain.tree.children node.1).flatMap f) :=
          fun f => (List.reverse_perm _).flatMap_right f
        have hwork := ((hreverse fun node =>
          node :: plain.tree.below (inDepth top depth) node.1).trans
            ((flatMap_cons_perm _ _).trans hperm.symm)).length_eq
        obtain ⟨entries', hrun, hp⟩ := ih hall
          (by rw [List.flatMap_append, List.length_append, hwork]; omega)
          (entries ++ (plain.tree.children node.1).map (entryOf spelling top absolute))
        refine ⟨entries', hrun, hp.trans ?_⟩
        rw [List.flatMap_append, List.map_append, List.flatMap_cons, List.map_append,
          List.append_assoc]
        apply List.Perm.append_left
        rw [← List.append_assoc]
        apply List.Perm.append_right
        rw [← List.map_append]
        apply List.Perm.map
        exact ((hreverse _).append_left _).trans hperm.symm
      · have hbelow : plain.tree.below (inDepth top depth) node.1 = [] := by
          by_cases hd : plain.tree.isDir node.1 = true
          · apply FileTree.below_of_keep
            intro length hlen
            have hdepth : ¬(depth = 0 ∨ node.1.length - top.length < depth) :=
              fun h => hc ⟨(fileType_dir hn).2 hd, h⟩
            have hle := ht.length_le
            simp only [inDepth, decide_eq_false_iff_not]
            omega
          · exact FileTree.below_of_not_isDir (by simpa using hd)
        rw [List.flatMap_cons, hbelow, List.nil_append]
        exact ih hrest (by omega) entries

/-! ## The whole answer -/

/-- The entries after the first listing. -/
def firstEntries (spelling : Spelling) (tree : FileTree String β) (top : List String)
    (absolute includeRoot : Bool) : List DirEntry :=
  (if includeRoot = true then [rootEntry spelling top] else []) ++
    (tree.children top).map (entryOf spelling top absolute)

/-- The directories in the listed one. -/
def subdirs (tree : FileTree String β) (top : List String) :
    List (List String × FileKind String β) :=
  (tree.children top).filter fun node => tree.isDir node.1

theorem toProcess_eq :
    (firstEntries spelling plain.tree top absolute includeRoot).filter
        (fun entry => entry.fileType = .dir ∧ 1 ≤ entry.depth) =
      (subdirs plain.tree top).map (entryOf spelling top absolute) := by
  have hroot : (if includeRoot = true then [rootEntry spelling top] else []).filter
      (fun entry => decide (entry.fileType = .dir ∧ 1 ≤ entry.depth)) = [] := by
    cases includeRoot <;> simp [rootEntry]
  rw [firstEntries, List.filter_append, hroot, List.nil_append, List.filter_map, subdirs]
  congr 1
  apply List.filter_congr
  intro node hn
  have hdir : fileType node.2 = .dir ↔ plain.tree.isDir node.1 = true :=
    fileType_dir (FileTree.mem_children.1 hn).1
  have hlen := FileTree.length_of_mem_children hn
  have hdepth : 1 ≤ node.1.length - top.length := by omega
  rw [Bool.eq_iff_iff]
  simp [entryOf, hdir, hdepth]

theorem readDir_eq {fuel : Nat} {path : String}
    (hf : site.follow plain.tree (spelling.fromRemote path) = some top)
    (hd : plain.tree.isDir top = true) :
    readDir site spelling before family plain.tree fuel path depth absolute canonicalize
        includeRoot =
      if depth = 1 then
        some (some ((firstEntries spelling plain.tree top absolute includeRoot).mergeSort
          fun a b => before a.path b.path, []))
      else (process site spelling family plain.tree (spelling.fromRemote path) depth absolute
        canonicalize fuel ((subdirs plain.tree top).reverse.map (entryOf spelling top absolute))
        (firstEntries spelling plain.tree top absolute includeRoot) []).map
          fun result => some (result.1.mergeSort fun a b => before a.path b.path, result.2) := by
  have hc : site.canonicalize plain.tree (spelling.fromRemote path) = some ⟨true, top.map .name⟩ :=
    by simp [Site.canonicalize, hf]
  have hfirst : (if includeRoot = true then
      [⟨((site.canonicalize plain.tree (spelling.fromRemote path)).map
        spelling.toRemote).getD path, .dir, 0⟩] else []) ++
      (plain.tree.children top).map (entryOf spelling top absolute) =
      firstEntries spelling plain.tree top absolute includeRoot := by
    simp [firstEntries, rootEntry, hc]
  simp only [readDir, readSingleDir_top hf hd, hfirst, toProcess_eq, ← List.map_reverse]
  by_cases h1 : depth = 1
  · rw [if_pos h1, if_neg (by omega)]
  · rw [if_neg h1, if_pos (by omega)]

/-- What is expected is what the first listing gives, and all below the directories in it. -/
theorem expected_perm (plain : PlainTree spelling β) (top : List String) (depth : Nat)
    (absolute includeRoot : Bool) :
    (expected spelling plain.tree top depth absolute includeRoot).Perm
      (firstEntries spelling plain.tree top absolute includeRoot ++
        ((subdirs plain.tree top).reverse.flatMap fun node =>
          plain.tree.below (inDepth top depth) node.1).map (entryOf spelling top absolute)) := by
  have hkeep : inDepth top depth (top.length + 1) = true := by
    simp only [inDepth, decide_eq_true_eq]
    omega
  have hfiles : (plain.tree.children top).flatMap
      (fun node => plain.tree.below (inDepth top depth) node.1) =
      (subdirs plain.tree top).flatMap
        fun node => plain.tree.below (inDepth top depth) node.1 := by
    unfold subdirs
    induction plain.tree.children top with
    | nil => rfl
    | cons node nodes ih =>
      rw [List.flatMap_cons, ih]
      cases hd : plain.tree.isDir node.1 with
      | true => rw [List.filter_cons_of_pos (by simpa using hd), List.flatMap_cons]
      | false =>
        rw [List.filter_cons_of_neg (by simp [hd]), FileTree.below_of_not_isDir hd,
          List.nil_append]
  rw [expected, firstEntries, List.append_assoc, ← List.map_append]
  apply List.Perm.append_left
  apply List.Perm.map
  refine (plain.tree.below_perm hkeep).trans ?_
  rw [hfiles]
  exact ((List.reverse_perm _).symm.flatMap_right _).append_left _

theorem isComplete_of_perm {path : String} (enough : Nat)
    (hf : site.follow plain.tree (spelling.fromRemote path) = some top)
    (hd : plain.tree.isDir top = true)
    (h : ∀ fuel, enough ≤ fuel → ∃ entries,
      readDir site spelling before family plain.tree fuel path depth absolute canonicalize
        includeRoot = some (some (entries, [])) ∧
      entries.Perm (expected spelling plain.tree top depth absolute includeRoot)) :
    IsComplete site spelling before family plain.tree path top depth absolute canonicalize
      includeRoot := by
  refine ⟨enough, fun fuel hfuel => ?_⟩
  obtain ⟨entries, hrun, hp⟩ := h fuel hfuel
  obtain ⟨entries', hrun', hp'⟩ := HostReadDir.readDir_perm spelling before
    depth absolute canonicalize includeRoot plain.noLinks hf hd
  exact ⟨entries, entries', hrun, hp, hrun', hp.trans hp'.symm⟩

theorem isComplete_of_good {path : String} (hgood : absolute = true ∨ canonicalize = false)
    (hf : site.follow plain.tree (spelling.fromRemote path) = some top)
    (hd : plain.tree.isDir top = true) (h1 : depth ≠ 1) :
    IsComplete site spelling before family plain.tree path top depth absolute canonicalize
      includeRoot := by
  have hnodes : ∀ node ∈ (subdirs plain.tree top).reverse,
      node ∈ plain.tree.nodes ∧ top <+: node.1 := by
    intro node hn
    have hc := (List.mem_filter.1 (List.mem_reverse.1 hn)).1
    exact ⟨(FileTree.mem_children.1 hc).1, FileTree.above_of_mem_children hc⟩
  apply isComplete_of_perm _ hf hd
  intro fuel hfuel
  obtain ⟨entries, hrun, hp⟩ := process_perm family depth hgood hf hnodes hfuel
    (firstEntries spelling plain.tree top absolute includeRoot)
  rw [readDir_eq hf hd, if_neg h1, hrun]
  exact ⟨_, rfl, (List.mergeSort_perm _ _).trans (hp.trans (expected_perm ..).symm)⟩

/-- Nothing is below the directories in the listed one. -/
theorem isComplete_of_flat {path : String}
    (hf : site.follow plain.tree (spelling.fromRemote path) = some top)
    (hd : plain.tree.isDir top = true)
    (hflat : ∀ node ∈ subdirs plain.tree top,
      plain.tree.below (inDepth top depth) node.1 = [])
    (enough : Nat)
    (h : ∀ fuel, enough ≤ fuel → readDir site spelling before family plain.tree fuel path depth
      absolute canonicalize includeRoot =
        some (some ((firstEntries spelling plain.tree top absolute includeRoot).mergeSort
          fun a b => before a.path b.path, []))) :
    IsComplete site spelling before family plain.tree path top depth absolute canonicalize
      includeRoot := by
  have hnone : ((subdirs plain.tree top).reverse.flatMap fun node =>
      plain.tree.below (inDepth top depth) node.1) = [] := by
    rw [List.flatMap_eq_nil_iff]
    exact fun node hn => hflat node (List.mem_reverse.1 hn)
  apply isComplete_of_perm enough hf hd
  intro fuel hfuel
  refine ⟨_, h fuel hfuel, (List.mergeSort_perm _ _).trans ?_⟩
  have hp := expected_perm plain top depth absolute includeRoot
  rw [hnone, List.map_nil, List.append_nil] at hp
  exact hp.symm

/-! ## Paths that are names alone -/

theorem exists_of_readSingleDir {dirPath basePath : FilePath String} {entries : List DirEntry}
    (h : readSingleDir site spelling family plain.tree dirPath basePath absolute canonicalize =
      some entries) :
    ∃ place, site.follow plain.tree dirPath = some place ∧ plain.tree.isDir place = true ∧
      entries = (plain.tree.entries place).map fun entry =>
        ⟨entryPath site spelling family plain.tree dirPath basePath absolute canonicalize entry.1
          entry.2, fileType entry.2, 1⟩ := by
  obtain ⟨found, hr, -⟩ := Option.map_eq_some_iff.1 h
  rw [Site.readDir, Option.bind_eq_some_iff] at hr
  obtain ⟨place, hf, hr⟩ := hr
  split_ifs at hr with hd
  rw [readSingleDir_eq basePath hf hd, Option.some.injEq] at h
  exact ⟨place, hf, hd, h.symm⟩

/-- Each directory to process has been listed in the end, and without an error its entries are
there. -/
theorem process_lists {sftpPath : FilePath String} {fuel : Nat}
    {toProcess entries entries' : List DirEntry} {errors : List (FilePath String)}
    (h : process site spelling family plain.tree sftpPath depth absolute canonicalize fuel toProcess
      entries errors = some (entries', [])) :
    (∀ entry ∈ entries, entry ∈ entries') ∧ errors = [] ∧
      ∀ entry ∈ toProcess, entry.fileType = .dir → (depth = 0 ∨ entry.depth < depth) →
        ∃ subEntries,
          readSingleDir site spelling family plain.tree
            (subdir spelling sftpPath absolute canonicalize entry)
            (subdir spelling sftpPath absolute canonicalize entry) absolute canonicalize =
              some subEntries ∧
          ∀ sub ∈ subEntries, subEntry spelling absolute canonicalize entry sub ∈ entries' := by
  induction fuel generalizing toProcess entries errors with
  | zero => cases h
  | succ fuel ih =>
    cases toProcess with
    | nil =>
      cases h
      exact ⟨fun entry he => he, rfl, by simp⟩
    | cons entry toProcess =>
      rw [process] at h
      split_ifs at h with hc
      · dsimp only at h
        split at h
        · rename_i subEntries hread
          obtain ⟨hin, herr, hlist⟩ := ih h
          refine ⟨fun other ho => hin other (List.mem_append_left _ ho), herr,
            fun other ho hd hdepth => ?_⟩
          rcases List.mem_cons.1 ho with rfl | ho
          · refine ⟨subEntries, hread, fun sub hs => hin _ (List.mem_append_right _ ?_)⟩
            exact List.mem_map.2 ⟨sub, hs, rfl⟩
          · exact hlist other (List.mem_append_right _ ho) hd hdepth
        · obtain ⟨-, herr, -⟩ := ih h
          simp at herr
      · obtain ⟨hin, herr, hlist⟩ := ih h
        refine ⟨hin, herr, fun other ho hd hdepth => ?_⟩
        rcases List.mem_cons.1 ho with rfl | ho
        · exact absurd ⟨hd, hdepth⟩ hc
        · exact hlist other ho hd hdepth

/-- With the other combination, all paths that are added are names. -/
theorem process_names {sftpPath : FilePath String} {fuel : Nat}
    {toProcess entries entries' : List DirEntry} {errors errors' : List (FilePath String)}
    (h : process site spelling family plain.tree sftpPath depth false true fuel toProcess entries
      errors = some (entries', errors')) :
    ∀ entry ∈ entries', entry ∈ entries ∨ spelling.Valid entry.path := by
  induction fuel generalizing toProcess entries errors with
  | zero => cases h
  | succ fuel ih =>
    cases toProcess with
    | nil =>
      cases h
      exact fun entry he => .inl he
    | cons entry toProcess =>
      rw [process] at h
      split_ifs at h with hc
      · dsimp only at h
        split at h
        · rename_i subEntries hread
          intro other ho
          rcases ih h other ho with ho | ho
          · rcases List.mem_append.1 ho with ho | ho
            · exact .inl ho
            · obtain ⟨sub, hs, rfl⟩ := List.mem_map.1 ho
              obtain ⟨place, -, -, rfl⟩ := exists_of_readSingleDir hread
              obtain ⟨found, hfound, rfl⟩ := List.mem_map.1 hs
              have hk := FileTree.mem_entries.1 hfound
              refine .inr ?_
              simp only [subEntry, entryPath_eq (not_isLink (by simp) hk)]
              simpa using valid_of_kind hk (by simp)
          · exact .inr ho
        · exact ih h
      · exact ih h

/-- The path of a node two levels down is no name. -/
theorem not_valid_of_two {names : List String} (h : ∀ name ∈ names, spelling.Valid name)
    (hlen : names.length = 2) (hvalid : spelling.Valid (spelling.toRemote ⟨false, names.map .name⟩)) :
    False := by
  have h1 := fromRemote_name hvalid
  rw [spelling.fromRemote_toRemote false names h, FilePath.mk.injEq] at h1
  have hl := congrArg List.length h1.2
  simp [hlen] at hl

theorem not_valid_of_expected {entry : DirEntry}
    (h : entry ∈ expected spelling plain.tree top depth false includeRoot)
    (hdepth : entry.depth = 2) : ¬ spelling.Valid entry.path := by
  rcases List.mem_append.1 h with h | h
  · cases includeRoot with
    | false => simp at h
    | true =>
      obtain rfl : entry = rootEntry spelling top := by simpa using h
      simp [rootEntry] at hdepth
  · obtain ⟨node, hn, rfl⟩ := List.mem_map.1 h
    obtain ⟨hn, ⟨rest, hr⟩, -⟩ := FileTree.mem_below.1 hn
    have hdrop : node.1.drop top.length = rest := by
      rw [← hr]
      simp
    have hlen : rest.length = 2 := by
      have hd : node.1.length - top.length = 2 := hdepth
      rw [← hr, List.length_append] at hd
      omega
    intro hvalid
    simp only [entryOf, Bool.false_eq_true, if_false, hdrop] at hvalid
    refine not_valid_of_two (fun name hm => ?_) hlen hvalid
    exact plain.named node hn name (by rw [← hr]; exact List.mem_append_right _ hm)

theorem onlyEmpty_of_isComplete {path : String}
    (hf : site.follow plain.tree (spelling.fromRemote path) = some top)
    (hd : plain.tree.isDir top = true) (h1 : depth ≠ 1)
    (h : IsComplete site spelling before family plain.tree path top depth false true includeRoot) :
    OnlyEmpty site plain.tree top := by
  obtain ⟨enough, hrun⟩ := h
  obtain ⟨sorted, -, hrun, hperm, -⟩ := hrun enough le_rfl
  rw [readDir_eq hf hd, if_neg h1, Option.map_eq_some_iff] at hrun
  obtain ⟨⟨entries, errors⟩, hprocess, hrun⟩ := hrun
  obtain ⟨rfl, rfl⟩ : entries.mergeSort (fun a b => before a.path b.path) = sorted ∧ errors = [] := by
    simpa using hrun
  have hmem : ∀ entry, entry ∈ entries ↔
      entry ∈ expected spelling plain.tree top depth false includeRoot := by
    intro entry
    rw [← hperm.mem_iff, List.mem_mergeSort]
  intro name hk
  have hnode : (top ++ [name], .dir) ∈ plain.tree.children top :=
    FileTree.mem_children.2 ⟨FileTree.mem_nodes_of_kind hk (by simp), by simp⟩
  have hvalid : spelling.Valid name := valid_of_kind hk (by simp)
  have hentry : entryOf spelling top false (top ++ [name], (.dir : FileKind String β)) =
      ⟨name, .dir, 1⟩ := by
    simp [entryOf, fileType, spelling.toRemote_name name hvalid]
  have hin : (⟨name, .dir, 1⟩ : DirEntry) ∈
      (subdirs plain.tree top).reverse.map (entryOf spelling top false) := by
    rw [← hentry]
    refine List.mem_map.2 ⟨_, List.mem_reverse.2 (List.mem_filter.2 ⟨hnode, ?_⟩), rfl⟩
    exact FileTree.isDir_iff.2 hk
  have hdepth : depth = 0 ∨ 1 < depth := by omega
  obtain ⟨subEntries, hread, hsubs⟩ := (process_lists hprocess).2.2 _ hin rfl hdepth
  have hsub : subdir spelling (spelling.fromRemote path) false true ⟨name, .dir, 1⟩ =
      ⟨false, [.name name]⟩ := by
    simp [subdir, fromRemote_name hvalid]
  rw [hsub] at hread
  obtain ⟨other, hfo, hdo, rfl⟩ := exists_of_readSingleDir hread
  refine ⟨?_, other, hfo, hdo, ?_⟩
  · -- a node two levels down is expected, but its path is no name
    rw [List.eq_nil_iff_forall_not_mem]
    rintro ⟨name', kind⟩ he
    have hk' := FileTree.mem_entries.1 he
    have hbelow : (top ++ [name] ++ [name'], kind) ∈
        plain.tree.below (inDepth top depth) top := by
      refine FileTree.mem_below.2 ⟨FileTree.mem_nodes_of_kind hk' (by simp), ?_, by simp, ?_⟩
      · rw [List.append_assoc]
        exact List.prefix_append ..
      · simp only [inDepth, decide_eq_true_eq, List.length_append, List.length_singleton]
        omega
    have hexpected := List.mem_append_right
      (if includeRoot = true then [rootEntry spelling top] else [])
      (List.mem_map.2 ⟨_, hbelow, rfl⟩ : _ ∈ List.map (entryOf spelling top false) _)
    have hdepth2 : (entryOf spelling top false (top ++ [name] ++ [name'], kind)).depth = 2 := by
      simp [entryOf]
    rcases process_names hprocess _ ((hmem _).2 hexpected) with h | h
    · rcases List.mem_append.1 h with h | h
      · cases includeRoot with
        | false => simp at h
        | true =>
          have heq : entryOf spelling top false (top ++ [name] ++ [name'], kind) =
              rootEntry spelling top := by simpa using h
          rw [heq] at hdepth2
          simp [rootEntry] at hdepth2
      · obtain ⟨child, hc, he⟩ := List.mem_map.1 h
        have hlen := FileTree.length_of_mem_children hc
        rw [← he] at hdepth2
        simp [entryOf, hlen] at hdepth2
    · exact not_valid_of_expected hexpected hdepth2 h
  · -- an entry of the other directory is not expected
    rw [List.eq_nil_iff_forall_not_mem]
    rintro ⟨name', kind⟩ he
    have hk' := FileTree.mem_entries.1 he
    have hadded := hsubs _ (List.mem_map.2 ⟨_, he, rfl⟩)
    have hvalid' : spelling.Valid name' := valid_of_kind hk' (by simp)
    refine not_valid_of_expected ((hmem _).1 hadded) rfl ?_
    simp only [subEntry, entryPath_eq (not_isLink (by simp) hk')]
    simpa using hvalid'

/-- All directories to process are empty. -/
theorem process_empty {sftpPath : FilePath String} {toProcess entries : List DirEntry}
    (h : ∀ entry ∈ toProcess, readSingleDir site spelling family plain.tree
      (subdir spelling sftpPath absolute canonicalize entry)
      (subdir spelling sftpPath absolute canonicalize entry) absolute canonicalize = some [])
    {fuel : Nat} (hfuel : toProcess.length < fuel) :
    process site spelling family plain.tree sftpPath depth absolute canonicalize fuel toProcess
      entries [] = some (entries, []) := by
  induction toProcess generalizing fuel with
  | nil =>
    cases fuel with
    | zero => cases hfuel
    | succ fuel => rfl
  | cons entry toProcess ih =>
    cases fuel with
    | zero => cases hfuel
    | succ fuel =>
      have ih := ih (fun other ho => h other (List.mem_cons_of_mem _ ho))
        (Nat.lt_of_succ_lt_succ hfuel)
      rw [process]
      split_ifs with hc
      · simp only [h entry List.mem_cons_self, List.map_nil, List.reverse_nil, List.nil_append,
          List.append_nil]
        exact ih
      · exact ih

theorem isComplete_of_onlyEmpty {path : String}
    (hf : site.follow plain.tree (spelling.fromRemote path) = some top)
    (hd : plain.tree.isDir top = true) (h1 : depth ≠ 1) (h : OnlyEmpty site plain.tree top) :
    IsComplete site spelling before family plain.tree path top depth false true includeRoot := by
  have hsub : ∀ node ∈ subdirs plain.tree top, ∃ name, node.1 = top ++ [name] ∧
      plain.tree.kind (top ++ [name]) = some .dir := by
    intro node hn
    obtain ⟨hc, hdir⟩ := List.mem_filter.1 hn
    obtain ⟨rest, hr⟩ := FileTree.above_of_mem_children hc
    have hlen := FileTree.length_of_mem_children hc
    rw [← hr, List.length_append] at hlen
    obtain ⟨name, rfl⟩ := List.length_eq_one_iff.1 (by omega : rest.length = 1)
    exact ⟨name, hr.symm, by rw [hr]; exact FileTree.isDir_iff.1 hdir⟩
  have hflat : ∀ node ∈ subdirs plain.tree top,
      plain.tree.below (inDepth top depth) node.1 = [] := by
    intro node hn
    obtain ⟨name, hnode, hk⟩ := hsub node hn
    apply FileTree.below_of_entries
    rw [hnode]
    exact (h name hk).1
  apply isComplete_of_flat hf hd hflat ((subdirs plain.tree top).length + 1)
  intro fuel hfuel
  rw [readDir_eq hf hd, if_neg h1,
    process_empty _ (by rw [List.length_map, List.length_reverse]; exact hfuel)]
  · rfl
  · intro entry he
    obtain ⟨node, hn, rfl⟩ := List.mem_map.1 he
    obtain ⟨name, hnode, hk⟩ := hsub node (List.mem_reverse.1 hn)
    obtain ⟨-, other, hfo, hdo, hempty⟩ := h name hk
    have hpath : (entryOf spelling top false node).path = name := by
      have hdrop : (top ++ [name]).drop top.length = [name] := by simp
      simp [entryOf, hnode, hdrop, spelling.toRemote_name name (valid_of_kind hk (by simp))]
    have hdir : subdir spelling (spelling.fromRemote path) false true
        (entryOf spelling top false node) = ⟨false, [.name name]⟩ := by
      simp [subdir, hpath, fromRemote_name (valid_of_kind hk (by simp : name ∈ top ++ [name]))]
    rw [hdir, readSingleDir_eq _ hfo hdo, hempty, List.map_nil]

end

/-- The listing over SSH has one entry for each node, and is that of the host, exactly if the paths
are not both canonicalized and relative, or one level is listed only, or there is nothing more to
list. -/
theorem listing_complete_iff {β : Type} {site : Site} {spelling : Spelling}
    {before : String → String → Bool} {family : Family} (plain : PlainTree spelling β)
    {path : String} {top : List String} (depth : Nat) (absolute canonicalize includeRoot : Bool)
    (hf : site.follow plain.tree (spelling.fromRemote path) = some top)
    (hd : plain.tree.isDir top = true) :
    IsComplete site spelling before family plain.tree path top depth absolute canonicalize
        includeRoot ↔
      absolute = true ∨ canonicalize = false ∨ depth = 1 ∨ OnlyEmpty site plain.tree top := by
  by_cases h1 : depth = 1
  · refine ⟨fun _ => .inr (.inr (.inl h1)), fun _ => isComplete_of_flat hf hd ?_ 0 fun fuel _ => ?_⟩
    · intro node hn
      have hlen := FileTree.length_of_mem_children (List.mem_filter.1 hn).1
      apply FileTree.below_of_keep
      intro length hl
      simp only [inDepth, decide_eq_false_iff_not]
      omega
    · rw [readDir_eq hf hd, if_pos h1]
  · cases absolute with
    | true => exact ⟨fun _ => .inl rfl, fun _ => isComplete_of_good (.inl rfl) hf hd h1⟩
    | false =>
      cases canonicalize with
      | false => exact ⟨fun _ => .inr (.inl rfl), fun _ => isComplete_of_good (.inr rfl) hf hd h1⟩
      | true =>
        refine ⟨fun h => .inr (.inr (.inr (onlyEmpty_of_isComplete hf hd h1 h))), ?_⟩
        rintro (h | h | h | h)
        · cases h
        · cases h
        · exact absurd h h1
        · exact isComplete_of_onlyEmpty hf hd h1 h

/-! ## Paths on Unix -/

def unixText : PathStep String → List Char
  | .stay => ['.']
  | .up => ['.', '.']
  | .name name => name.toList

def unixStep (text : List Char) : PathStep String :=
  if text = [] ∨ text = ['.'] then .stay
  else if text = ['.', '.'] then .up
  else .name (String.ofList text)

def unixSteps (text : List Char) : List (PathStep String) :=
  if text = [] then [] else (text.splitOn '/').map unixStep

def unixToRemote (path : FilePath String) : String :=
  String.ofList ((if path.absolute = true then ['/'] else []) ++
    ['/'].intercalate (path.steps.map unixText))

def unixFromRemote (path : String) : FilePath String :=
  match path.toList with
  | '/' :: text => ⟨true, unixSteps text⟩
  | text => ⟨false, unixSteps text⟩

def UnixName (name : String) : Prop :=
  name ≠ "" ∧ name ≠ "." ∧ name ≠ ".." ∧ '/' ∉ name.toList

instance (name : String) : Decidable (UnixName name) :=
  inferInstanceAs (Decidable (name ≠ "" ∧ name ≠ "." ∧ name ≠ ".." ∧ '/' ∉ name.toList))

theorem unixStep_name {name : String} (h : UnixName name) :
    unixStep name.toList = .name name := by
  have h0 : name.toList ≠ [] := fun he => h.1 (String.toList_inj.1 he)
  have h1 : name.toList ≠ ['.'] := fun he => h.2.1 (String.toList_inj.1 he)
  have h2 : name.toList ≠ ['.', '.'] := fun he => h.2.2.1 (String.toList_inj.1 he)
  rw [unixStep, if_neg (by simp [h0, h1]), if_neg h2, String.ofList_toList]

/-- The text of names splits into their own texts, and none of them is empty. -/
theorem splitOn_names {names : List String} (h : ∀ name ∈ names, UnixName name)
    (hne : names ≠ []) :
    (['/'].intercalate ((names.map PathStep.name).map unixText)).splitOn '/' =
        (names.map PathStep.name).map unixText ∧
      [] ∉ (names.map PathStep.name).map unixText := by
  constructor
  · apply List.splitOn_intercalate '/' _ (by simpa using hne)
    intro text ht
    simp only [List.map_map, List.mem_map, Function.comp_apply, unixText] at ht
    obtain ⟨name, hm, rfl⟩ := ht
    exact (h name hm).2.2.2
  · simp only [List.map_map, List.mem_map, Function.comp_apply, unixText]
    rintro ⟨name, hm, he⟩
    exact (h name hm).1 (String.toList_inj.1 he)

theorem unixSteps_names {names : List String} (h : ∀ name ∈ names, UnixName name) :
    unixSteps (['/'].intercalate ((names.map PathStep.name).map unixText)) = names.map .name := by
  by_cases hne : names = []
  · subst hne
    rfl
  · obtain ⟨hsplit, hempty⟩ := splitOn_names h hne
    have htext : ['/'].intercalate ((names.map PathStep.name).map unixText) ≠ [] := by
      intro he
      rw [he] at hsplit
      exact hempty (hsplit ▸ List.mem_cons_self)
    rw [unixSteps, if_neg htext, hsplit, List.map_map, List.map_map]
    exact List.map_congr_left fun name hm => unixStep_name (h name hm)

theorem unixFromRemote_relative {text : List Char} (h : text.head? ≠ some '/') :
    unixFromRemote (String.ofList text) = ⟨false, unixSteps text⟩ := by
  unfold unixFromRemote
  rw [String.toList_ofList]
  split
  · simp at h
  · rfl

def unixSpelling : Spelling where
  Valid := UnixName
  toRemote := unixToRemote
  fromRemote := unixFromRemote
  fromRemote_toRemote isAbsolute names h := by
    have hsteps := unixSteps_names h
    cases isAbsolute with
    | true =>
      have htext : (unixToRemote ⟨true, names.map .name⟩).toList =
          '/' :: ['/'].intercalate ((names.map PathStep.name).map unixText) := by
        simp [unixToRemote]
      unfold unixFromRemote
      rw [htext]
      simp only [hsteps]
    | false =>
      have hhead : (['/'].intercalate ((names.map PathStep.name).map unixText)).head? ≠
          some '/' := by
        intro he
        obtain ⟨text, ht⟩ := List.head?_eq_some_iff.1 he
        by_cases hne : names = []
        · subst hne
          cases ht
        · obtain ⟨hsplit, hempty⟩ := splitOn_names h hne
          rw [ht] at hsplit
          apply hempty
          rw [← hsplit]
          simp [List.splitOn_cons_eq_if_modifyHead]
      have hr := unixFromRemote_relative hhead
      simp only [unixToRemote, Bool.false_eq_true, if_false, List.nil_append]
      rw [hr, hsteps]
  toRemote_name name _ := by
    simp [unixToRemote, unixText, List.intercalate]

/-- The directory `d` has the directory `s`, and that the file `f`. -/
def nestedTree : PlainTree unixSpelling Unit where
  tree := {
    nodes := [(["d"], .dir), (["d", "s"], .dir), (["d", "s", "f"], .file ())]
    distinct := by decide
    nonempty := by decide
    closed := by decide }
  noLinks := by decide
  named := by
    show ∀ node ∈ [(["d"], FileKind.dir), (["d", "s"], .dir), (["d", "s", "f"], .file ())],
      ∀ name ∈ node.1, UnixName name
    decide

theorem follow_nested :
    (⟨[], 40⟩ : Site).follow nestedTree.tree (unixSpelling.fromRemote "/d") = some ["d"] := by
  decide

/-- Relative paths that are not canonicalized are complete. -/
theorem listing_complete_nested :
    IsComplete ⟨[], 40⟩ unixSpelling (fun _ _ => true) .unix nestedTree.tree "/d" ["d"] 0 false
      false true :=
  (listing_complete_iff nestedTree 0 false false true follow_nested (by decide)).2 (.inr (.inl rfl))

/-- Canonicalized and relative, the directory `s` is looked for at the root. -/
theorem listing_incomplete :
    ¬ IsComplete ⟨[], 40⟩ unixSpelling (fun _ _ => true) .unix nestedTree.tree "/d" ["d"] 0 false
      true false := by
  intro h
  have hempty := onlyEmpty_of_isComplete follow_nested (by decide) (by decide) h
  have hs := (hempty "s" (by decide)).1
  revert hs
  decide

end SshReadDir

end Distant
