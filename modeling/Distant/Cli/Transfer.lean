import Distant.Cli.Download
import Distant.Cli.Upload
import Distant.Ssh.ReadDir

/-!
# A directory there and back

`download_dir` on the file systems of both machines: the remote directory is listed, the local
directories are made, and then each file is read and written. `downloadDir_copies` says that a new
local directory is a copy of the remote one, and `uploaded_downloaded` that a directory that has
been uploaded and is downloaded again is what it was.
-/

namespace Distant

/-- A local path on a machine without drives. -/
def LocalPath.filePath (path : LocalPath) : FilePath String :=
  ⟨path.root, path.parts.map fun part =>
    match part with
    | .parent => .up
    | .name name => .name name⟩

theorem LocalPath.filePath_push (path : LocalPath) (names : List String) :
    (path.push ⟨none, false, names.map .name⟩).filePath = path.filePath.below names := by
  simp [push, filePath, FilePath.below]

namespace Download

/-- What failed, with its path. -/
inductive DownloadError where
  | list (path : FilePath String)
  | createDir (path : FilePath String)
  | read (path : FilePath String)
  | write (path : FilePath String)
  deriving DecidableEq, Repr

section

variable (components : String → List String) (parse : String → LocalPath)
  (push : FilePath String → String → FilePath String) (spelling : Spelling)
  (before : String → String → Bool) (server client : Site) (permits : FilePath String → Bool)
  (remoteTree : FileTree String Bytes) (remote : FilePath String)

def downloadFiles (localBase : LocalPath) :
    List DirEntry → FileTree String Bytes → FileTree String Bytes × Except DownloadError Unit
  | [], tree => (tree, .ok ())
  | fileEntry :: files, tree =>
    let localFile := localBase.push (localRel components parse fileEntry)
    match client.createDirs permits (localFile.parent.toList.map LocalPath.filePath) tree with
    | (tree, .error path) => (tree, .error (.createDir path))
    | (tree, .ok ()) =>
      let remoteFile := push remote fileEntry.path
      match server.readFile remoteTree remoteFile with
      | none => (tree, .error (.read remoteFile))
      | some data =>
        match client.writeFile permits tree localFile.filePath data with
        | none => (tree, .error (.write localFile.filePath))
        | some tree => downloadFiles localBase files tree

/-- The local tree afterwards, and whether the download has succeeded. Paths in the listing that
could not be canonicalized are left out. -/
def downloadDir (tree : FileTree String Bytes) («local» remoteName : LocalPath) :
    FileTree String Bytes × Except DownloadError Unit :=
  let localBase := resolveLocalDst
    ((client.metadata tree «local».filePath).any FileKind.isDir) «local» remoteName
  match HostReadDir.readDir server spelling before remoteTree remote 0 false false false with
  | none => (tree, .error (.list remote))
  | some (dirEntries, _) =>
    let dirs := dirEntries.filter fun entry => entry.fileType = .dir
    let files := dirEntries.filter fun entry => entry.fileType = .file
    match client.createDirAll permits tree localBase.filePath with
    | (tree, false) => (tree, .error (.createDir localBase.filePath))
    | (tree, true) =>
      match client.createDirs permits (dirs.map fun entry =>
          (localBase.push (localRel components parse entry)).filePath) tree with
      | (tree, .error path) => (tree, .error (.createDir path))
      | (tree, .ok ()) =>
        downloadFiles components parse push server client permits remoteTree remote localBase files
          tree

end

/-! ## What a download makes -/

section

variable (components : String → List String) (parse : String → LocalPath)
  (push : FilePath String → String → FilePath String) (spelling : Spelling)
  (remote : FilePath String)

/-- The names below the directory come back from how the remote machine spells them, and lead on
from the directory there. -/
def ComesBack (rel : List String) : Prop :=
  LocalPath.collect ((components (spelling.toRemote ⟨false, rel.map .name⟩)).map parse) =
      ⟨none, false, rel.map .name⟩ ∧
    push remote (spelling.toRemote ⟨false, rel.map .name⟩) = remote.below rel

/-- The entry of what is listed there. -/
def entryAt (fileType : FileType) (rel : List String) : DirEntry :=
  ⟨spelling.toRemote ⟨false, rel.map .name⟩, fileType, rel.length⟩

end

section

variable {components : String → List String} {parse : String → LocalPath}
  {push : FilePath String → String → FilePath String} {spelling : Spelling}
  {before : String → String → Bool} {server client : Site} {permits : FilePath String → Bool}
  {remoteTree tree tree₁ : FileTree String Bytes} {remote : FilePath String} {localBase : LocalPath}
  {root place : List String}

theorem push_localRel {rel : List String} {fileType : FileType}
    (hback : ComesBack components parse push spelling remote rel) :
    (localBase.push (localRel components parse (entryAt spelling fileType rel))).filePath =
      localBase.filePath.below rel := by
  rw [localRel, entryAt, hback.1, LocalPath.filePath_push]

/-- The parent of a file in a directory is this directory. -/
theorem parent_localRel {dir : List String} {name : String} {fileType : FileType}
    (hback : ComesBack components parse push spelling remote (dir ++ [name])) :
    (localBase.push (localRel components parse
      (entryAt spelling fileType (dir ++ [name])))).parent.toList.map
      LocalPath.filePath = [localBase.filePath.below dir] := by
  rw [localRel, entryAt, hback.1]
  simp [LocalPath.push, LocalPath.parent, LocalPath.filePath, FilePath.below]

/-- The content of a file. -/
def contentOf (tree : FileTree String Bytes) (loc : List String) : Bytes :=
  match tree.kind loc with
  | some (.file content) => content
  | _ => []

theorem downloadFiles_ok (content : List String → Bytes) {rels : List (List String)}
    (hdir : client.directory tree localBase.filePath = some place)
    (hlinks : Site.NoLinks tree place)
    (hbase : localBase.filePath.steps = [] ∨ permits localBase.filePath = true)
    (hback : ∀ rel ∈ rels, ComesBack components parse push spelling remote rel)
    (hparent : ∀ rel ∈ rels, ∃ dir name, rel = dir ++ [name] ∧
      tree.kind (place ++ dir) = some .dir ∧
        (dir ≠ [] → permits (localBase.filePath.below dir) = true))
    (hreads : ∀ rel ∈ rels, server.readFile remoteTree (remote.below rel) = some (content rel))
    (hpermits : ∀ rel ∈ rels, permits (localBase.filePath.below rel) = true)
    (hfree : ∀ rel ∈ rels, tree.kind (place ++ rel) ≠ some .dir) :
    ∃ tree', downloadFiles components parse push server client permits remoteTree remote localBase
        (rels.map (entryAt spelling .file)) tree = (tree', .ok ()) ∧
      (∀ rel ∈ rels, tree'.kind (place ++ rel) = some (.file (content rel))) ∧
      ∀ loc, (∀ rel ∈ rels, loc ≠ place ++ rel) → tree'.kind loc = tree.kind loc := by
  induction rels generalizing tree with
  | nil => exact ⟨tree, rfl, by simp, fun _ _ => rfl⟩
  | cons rel rels ih =>
    obtain ⟨dir, name, rfl, hdirs, hallowed⟩ := hparent rel List.mem_cons_self
    have hcurrent := Site.directory_below hdir hdirs
    have hmade : client.createDirs permits [localBase.filePath.below dir] tree =
      (tree, .ok ()) := by
      have hbase' : (localBase.filePath.below dir).steps = [] ∨
          permits (localBase.filePath.below dir) = true := by
        by_cases hnil : dir = []
        · simpa [hnil] using hbase
        · exact .inr (hallowed hnil)
      rw [Site.createDirs, Site.createDirAll_of_directory hbase' hcurrent]
      rfl
    have hplace : place ++ (dir ++ [name]) = place ++ dir ++ [name] := (List.append_assoc ..).symm
    have hlink : ∀ target, tree.kind (place ++ dir ++ [name]) ≠ some (.link target) := by
      intro target
      rw [← hplace]
      exact hlinks _ target
    have hhere := hfree _ List.mem_cons_self
    have hmay := hpermits _ List.mem_cons_self
    rw [hplace] at hhere
    rw [← FilePath.step_below] at hmay
    obtain ⟨hwritten, hwrites⟩ :=
      @Site.writeFile_step client permits tree _ _ _ (content (dir ++ [name])) hcurrent hlink
    obtain ⟨tree₁, hwrite⟩ := Option.isSome_iff_exists.1 (hwrites hmay hhere)
    obtain ⟨-, -, hkind⟩ := hwritten tree₁ hwrite
    have hkeeps := Site.keeps_of_written hkind hhere hlink
    obtain ⟨tree', hrun, hfiles, hother⟩ := ih (Site.directory_keeps hkeeps hdir)
      (hlinks.written hkind) (fun rel hrel => hback rel (List.mem_cons_of_mem _ hrel))
      (fun rel hrel => by
        obtain ⟨dir, name, heq, hk, hallowed⟩ := hparent rel (List.mem_cons_of_mem _ hrel)
        exact ⟨dir, name, heq, hkeeps.dir hk, hallowed⟩)
      (fun rel hrel => hreads rel (List.mem_cons_of_mem _ hrel))
      (fun rel hrel => hpermits rel (List.mem_cons_of_mem _ hrel))
      (fun rel hrel => by
        rw [hkind]
        split_ifs
        · simp
        · exact hfree rel (List.mem_cons_of_mem _ hrel))
    refine ⟨tree', ?_, fun rel hrel => ?_, fun loc hloc => ?_⟩
    · rw [List.map_cons, downloadFiles]
      dsimp only
      rw [parent_localRel (hback _ List.mem_cons_self), hmade]
      have hremote : push remote (entryAt spelling .file (dir ++ [name])).path =
          remote.below (dir ++ [name]) := (hback _ List.mem_cons_self).2
      simp only [hremote, hreads _ List.mem_cons_self, push_localRel (hback _ List.mem_cons_self)]
      rw [← FilePath.step_below, hwrite]
      exact hrun
    · by_cases hmem : rel ∈ rels
      · exact hfiles rel hmem
      · obtain rfl := (List.mem_cons.1 hrel).resolve_right hmem
        rw [hother _ fun other hother' heq => hmem (by rwa [List.append_cancel_left heq]), hkind,
          if_pos hplace]
    · rw [hother loc fun rel hrel => hloc rel (List.mem_cons_of_mem _ hrel), hkind, if_neg]
      rw [← hplace]
      exact hloc _ List.mem_cons_self

variable (remoteTree root) in
/-- All that is below the directory is listed, and nothing else. -/
def Lists (nodes : List (List String × FileKind String Bytes)) : Prop :=
  ∀ rel kind, (rel, kind) ∈ nodes ↔ rel ≠ [] ∧ remoteTree.kind (root ++ rel) = some kind

/-- What the listing of a directory without links gives. -/
theorem exists_listing (spelling : Spelling) (before : String → String → Bool)
    (hno : ∀ node ∈ remoteTree.nodes, node.2.isLink = false)
    (hfollow : server.follow remoteTree remote = some root) :
    ∃ nodes : List (List String × FileKind String Bytes),
      HostReadDir.readDir server spelling before remoteTree remote 0 false false false =
        some (nodes.map fun node => entryAt spelling (fileType node.2) node.1, []) ∧
      Lists remoteTree root nodes := by
  have hnodes : ∀ node ∈ HostReadDir.walkDir before remoteTree root 0,
      node ∈ remoteTree.nodes ∧ node.2.isLink = false ∧ root <+: node.1 := by
    intro node hn
    rw [HostReadDir.walkDir, List.mem_mergeSort] at hn
    obtain ⟨hn, hr, -⟩ := FileTree.mem_below.1 hn
    exact ⟨hn, hno node hn, hr⟩
  refine ⟨(HostReadDir.walkDir before remoteTree root 0).map fun node =>
    (node.1.drop root.length, node.2), ?_, fun rel kind => ?_⟩
  · simp only [HostReadDir.readDir, hfollow, Option.map_some, HostReadDir.eachEntry_plain hnodes]
    rw [List.map_map]
    simp only [Bool.false_eq_true, if_false, List.nil_append, Option.some.injEq, Prod.mk.injEq,
      and_true]
    apply List.map_congr_left
    intro node _
    simp [entryOf, entryAt]
  · rw [List.mem_map]
    constructor
    · rintro ⟨node, hn, heq⟩
      obtain ⟨hmem, -, rest, hrest⟩ := hnodes node hn
      rw [HostReadDir.walkDir, List.mem_mergeSort] at hn
      have hne := (FileTree.mem_below.1 hn).2.2.1
      cases heq
      have hdrop : node.1.drop root.length = rest := by rw [← hrest, List.drop_left]
      rw [hdrop, hrest]
      refine ⟨?_, FileTree.kind_of_mem_nodes hmem⟩
      rintro rfl
      exact hne (by rw [← hrest, List.append_nil])
    · rintro ⟨hne, hk⟩
      refine ⟨(root ++ rel, kind), ?_, by rw [List.drop_left]⟩
      rw [HostReadDir.walkDir, List.mem_mergeSort]
      exact FileTree.mem_below.2 ⟨FileTree.mem_nodes_of_kind hk (by simp [hne]),
        List.prefix_append _ _, by simpa using hne, by simp [inDepth]⟩

theorem fileType_eq_file {kind : FileKind String Bytes} :
    fileType kind = .file ↔ ∃ content, kind = .file content := by
  cases kind <;> simp [fileType]

theorem fileType_eq_dir {kind : FileKind String Bytes} : fileType kind = .dir ↔ kind = .dir := by
  cases kind <;> simp [fileType]

/-- The paths that are listed with one type. -/
def pathsWith (type : FileType) (nodes : List (List String × FileKind String Bytes)) :
    List (List String) :=
  (nodes.filter fun node => fileType node.2 = type).map (·.1)

theorem mem_pathsWith {type : FileType} {nodes : List (List String × FileKind String Bytes)}
    {rel : List String} :
    rel ∈ pathsWith type nodes ↔ ∃ kind, (rel, kind) ∈ nodes ∧ fileType kind = type := by
  simp [pathsWith]

theorem filter_entryAt (type : FileType) (nodes : List (List String × FileKind String Bytes)) :
    (nodes.map fun node => entryAt spelling (fileType node.2) node.1).filter
        (fun entry => entry.fileType = type) =
      (pathsWith type nodes).map (entryAt spelling type) := by
  rw [List.filter_map, pathsWith, List.map_map]
  refine List.map_congr_left fun node hnode => ?_
  have htype : fileType node.2 = type := of_decide_eq_true (List.mem_filter.1 hnode).2
  rw [Function.comp_apply, htype]

variable {nodes : List (List String × FileKind String Bytes)}

theorem mem_listedDirs (hnodes : Lists remoteTree root nodes) {rel : List String} :
    rel ∈ pathsWith .dir nodes ↔ rel ≠ [] ∧ remoteTree.kind (root ++ rel) = some .dir := by
  rw [mem_pathsWith]
  simp [fileType_eq_dir, hnodes _ _]

theorem mem_listedFiles (hnodes : Lists remoteTree root nodes) {rel : List String} :
    rel ∈ pathsWith .file nodes ↔
      rel ≠ [] ∧ ∃ content, remoteTree.kind (root ++ rel) = some (.file content) := by
  rw [mem_pathsWith]
  simp [fileType_eq_file, hnodes _ _]

theorem kind_listedFile (hnodes : Lists remoteTree root nodes) {rel : List String}
    (hrel : rel ∈ pathsWith .file nodes) :
    remoteTree.kind (root ++ rel) = some (.file (contentOf remoteTree (root ++ rel))) := by
  obtain ⟨-, data, hk⟩ := (mem_listedFiles hnodes).1 hrel
  rw [contentOf, hk]

/-- What is on the way to a directory is a directory. -/
theorem kind_way_listedDir (hnodes : Lists remoteTree root nodes) {rel way : List String}
    (hrel : rel ∈ pathsWith .dir nodes) (hway : way <+: rel) :
    remoteTree.kind (root ++ way) = some .dir := by
  obtain ⟨rest, rfl⟩ := hway
  have hk := ((mem_listedDirs hnodes).1 hrel).2
  by_cases hrest : rest = []
  · rwa [hrest, List.append_nil] at hk
  · rw [← List.append_assoc] at hk
    exact FileTree.kind_of_above (by rw [hk]; simp) hrest

/-- In a new directory the directories that are listed are made, and nothing else. -/
theorem createDirs_listed (hnodes : Lists remoteTree root nodes)
    (hroot : remoteTree.kind root = some .dir)
    (hnew : client.IsNew permits tree localBase.filePath tree₁ place)
    (hpermits : ∀ rel, rel ≠ [] → remoteTree.kind (root ++ rel) ≠ none →
      permits (localBase.filePath.below rel) = true) :
    ∃ tree₂, client.createDirs permits ((pathsWith .dir nodes).map localBase.filePath.below) tree₁ =
        (tree₂, .ok ()) ∧
      Site.Furnished tree₁ tree₂ ∧
      (∀ rel, remoteTree.kind (root ++ rel) = some .dir → tree₂.kind (place ++ rel) = some .dir) ∧
      (∀ rel, remoteTree.kind (root ++ rel) ≠ some .dir → tree₂.kind (place ++ rel) = none) ∧
      ∀ loc, ¬ place <+: loc → tree₂.kind loc = tree₁.kind loc := by
  have hplace := hnew.kind_top
  have hbase := (Site.directory_of_createDirAll hnew.home hnew.made).1
  have hhome₁ := (Site.furnished_createDirAll hnew.made).within hnew.home
  obtain ⟨tree₂, hcreate, hsame⟩ := Site.createDirs_below hnew.dir hnew.noLinks hbase
    (fun rel hrel way hway hne =>
      hpermits way hne (by rw [kind_way_listedDir hnodes hrel hway]; simp))
    (fun rel hrel way hway kind hk => by
      by_cases hnil : way = []
      · rw [hnil, List.append_nil, hplace] at hk
        cases hk
        rfl
      · rw [hnew.free way hnil] at hk
        cases hk)
  obtain ⟨hf, hthere⟩ := Site.createDirs_spec hhome₁ hnew.dir hnew.noLinks
    (fun rel hrel => ((mem_listedDirs hnodes).1 hrel).1) hcreate
  refine ⟨tree₂, hcreate, hf, fun rel hk => ?_, fun rel hk => ?_, fun loc hloc => ?_⟩
  · by_cases hnil : rel = []
    · rw [hnil, List.append_nil]
      exact hf.within hplace
    · exact (hthere rfl rel ((mem_listedDirs hnodes).2 ⟨hnil, hk⟩)).2
  · have hnil : rel ≠ [] := by
      rintro rfl
      exact hk (by rw [List.append_nil, hroot])
    rw [hsame, hnew.free rel hnil]
    rintro other hother ⟨-, hway⟩
    exact hk (kind_way_listedDir hnodes hother ((List.prefix_append_right_inj place).1 hway))
  · exact hsame loc fun rel _ hbetween => hloc hbetween.1

/-- Then the files are written, and there is a copy. -/
theorem copies_of_listed (hno : ∀ node ∈ remoteTree.nodes, node.2.isLink = false)
    (hfollow : server.follow remoteTree remote = some root)
    (hroot : remoteTree.kind root = some .dir) (hnodes : Lists remoteTree root nodes)
    (hback : ∀ rel, rel ≠ [] → remoteTree.kind (root ++ rel) ≠ none →
      ComesBack components parse push spelling remote rel)
    (hnew : client.IsNew permits tree localBase.filePath tree₁ place)
    (hpermits : ∀ rel, rel ≠ [] → remoteTree.kind (root ++ rel) ≠ none →
      permits (localBase.filePath.below rel) = true) :
    ∃ tree₂ tree',
      client.createDirs permits ((pathsWith .dir nodes).map localBase.filePath.below) tree₁ =
        (tree₂, .ok ()) ∧
      downloadFiles components parse push server client permits remoteTree remote localBase
        ((pathsWith .file nodes).map (entryAt spelling .file)) tree₂ = (tree', .ok ()) ∧
      (∀ rel, tree'.kind (place ++ rel) = remoteTree.kind (root ++ rel)) ∧
      ∀ loc, ¬ place <+: loc → tree'.kind loc = tree₁.kind loc := by
  have hbase := (Site.directory_of_createDirAll hnew.home hnew.made).1
  obtain ⟨tree₂, hcreate, hf, hdirs, hfree, hsame⟩ := createDirs_listed hnodes hroot hnew hpermits
  have hthere : ∀ rel ∈ pathsWith .file nodes, remoteTree.kind (root ++ rel) ≠ none := by
    intro rel hrel
    rw [kind_listedFile hnodes hrel]
    simp
  obtain ⟨tree', hrun, hwritten, hother⟩ := downloadFiles_ok
    (fun rel => contentOf remoteTree (root ++ rel)) (Site.directory_within hf.within hnew.dir)
    (hnew.noLinks.furnished hf) hbase
    (fun rel hrel => hback rel ((mem_listedFiles hnodes).1 hrel).1 (hthere rel hrel))
    (fun rel hrel => by
      rcases List.eq_nil_or_concat rel with rfl | ⟨dir, name, rfl⟩
      · exact absurd rfl ((mem_listedFiles hnodes).1 hrel).1
      · have hk := hthere _ hrel
        rw [List.concat_eq_append, ← List.append_assoc] at hk
        have hkdir := FileTree.kind_above hk
        exact ⟨dir, name, List.concat_eq_append, hdirs dir hkdir,
          fun hnil => hpermits dir hnil (by rw [hkdir]; simp)⟩)
    (fun rel hrel => by
      have hk := kind_listedFile hnodes hrel
      rw [Site.readFile, Site.metadata, Site.follow_below hfollow hk rfl]
      simp only [Option.bind_some, hk])
    (fun rel hrel => hpermits rel ((mem_listedFiles hnodes).1 hrel).1 (hthere rel hrel))
    (fun rel hrel => by
      rw [hfree rel (by rw [kind_listedFile hnodes hrel]; simp)]
      simp)
  refine ⟨tree₂, tree', hcreate, hrun, fun rel => ?_, fun loc hloc => ?_⟩
  · by_cases hrel : rel ∈ pathsWith .file nodes
    · rw [hwritten rel hrel, kind_listedFile hnodes hrel]
    · rw [hother _ fun other hmem heq => hrel (by rwa [List.append_cancel_left heq])]
      cases hk : remoteTree.kind (root ++ rel) with
      | none => rw [hfree rel (by simp [hk])]
      | some kind =>
        cases kind with
        | dir => rw [hdirs rel hk]
        | link target => exact absurd hk (Site.noLinks_of_nodes hno root rel target)
        | file data =>
          refine absurd ((mem_listedFiles hnodes).2 ⟨?_, data, hk⟩) hrel
          rintro rfl
          rw [List.append_nil, hroot] at hk
          cases hk
  · rw [hother loc fun rel _ heq => hloc (heq ▸ List.prefix_append _ _), hsame loc hloc]

/-- What a download does once it has the listing. -/
theorem downloadDir_listed {«local» remoteName : LocalPath} {tree₂ : FileTree String Bytes}
    (hlist : HostReadDir.readDir server spelling before remoteTree remote 0 false false false =
      some (nodes.map fun node => entryAt spelling (fileType node.2) node.1, []))
    (hnodes : Lists remoteTree root nodes)
    (hback : ∀ rel, rel ≠ [] → remoteTree.kind (root ++ rel) ≠ none →
      ComesBack components parse push spelling remote rel)
    (hlocal : resolveLocalDst ((client.metadata tree «local».filePath).any FileKind.isDir) «local»
      remoteName = localBase)
    (hmade : client.createDirAll permits tree localBase.filePath = (tree₁, true))
    (hcreate : client.createDirs permits
      ((pathsWith .dir nodes).map localBase.filePath.below) tree₁ =
      (tree₂, .ok ())) :
    downloadDir components parse push spelling before server client permits remoteTree remote tree
        «local» remoteName =
      downloadFiles components parse push server client permits remoteTree remote localBase
        ((pathsWith .file nodes).map (entryAt spelling .file)) tree₂ := by
  have hpaths : ((nodes.map fun node => entryAt spelling (fileType node.2) node.1).filter
      fun entry => entry.fileType = .dir).map (fun entry =>
        (localBase.push (localRel components parse entry)).filePath) =
          (pathsWith .dir nodes).map localBase.filePath.below := by
    rw [filter_entryAt, List.map_map]
    refine List.map_congr_left fun rel hrel =>
      push_localRel (hback rel ((mem_listedDirs hnodes).1 hrel).1 ?_)
    rw [((mem_listedDirs hnodes).1 hrel).2]
    simp
  simp only [downloadDir, hlocal, hlist, hmade]
  rw [hpaths, hcreate, filter_entryAt]

end

end Download

/-! ## There and back -/

namespace Upload

open Download (downloadDir resolveLocalDst ComesBack)

section

variable {α : Type} [DecidableEq α] {machine : LocalMachine α} {lossy : α → String}
  {source : FilePath α} {top : List α} {remotePlace : List String}
  {remoteTree remoteTree' : FileTree String Bytes}

theorem sent_ne_link {rel : List α} {target : FilePath String} :
    sent machine source top rel ≠ some (.link target) := by
  unfold sent
  split
  · simp
  · simp
  · simp [Option.map_eq_some_iff]

/-- What was there is there if the upload was to a new directory. -/
theorem Mirrors.within (hm : Mirrors machine lossy source top remotePlace remoteTree remoteTree')
    (htop : machine.tree.kind top = some .dir) (hplace : remoteTree.kind remotePlace = some .dir)
    (hfresh : ∀ names, names ≠ [] → remoteTree.kind (remotePlace ++ names) = none) :
    remoteTree.Within remoteTree' := by
  intro loc kind hk
  by_cases hloc : ∃ rel, machine.tree.kind (top ++ rel) ≠ none ∧ loc = remotePlace ++ rel.map lossy
  · obtain ⟨rel, hrel, rfl⟩ := hloc
    by_cases hnil : rel = []
    · subst hnil
      rw [hm.same [] hrel, sent_dir (by rwa [List.append_nil])]
      rw [List.map_nil, List.append_nil, hplace] at hk
      exact hk
    · rw [hfresh _ (by simpa using hnil)] at hk
      cases hk
  · rw [hm.other loc fun rel hrel heq => hloc ⟨rel, hrel, heq⟩, hk]

theorem Mirrors.noLinks (hm : Mirrors machine lossy source top remotePlace remoteTree remoteTree')
    (hno : ∀ loc target, remoteTree.kind loc ≠ some (.link target)) :
    ∀ node ∈ remoteTree'.nodes, node.2.isLink = false := by
  intro node hnode
  have hk := FileTree.kind_of_mem_nodes hnode
  cases hkind : node.2 with
  | dir => rfl
  | file content => rfl
  | link target =>
    rw [hkind] at hk
    by_cases hloc : ∃ rel, machine.tree.kind (top ++ rel) ≠ none ∧
        node.1 = remotePlace ++ rel.map lossy
    · obtain ⟨rel, hrel, heq⟩ := hloc
      rw [heq, hm.same rel hrel] at hk
      exact absurd hk sent_ne_link
    · rw [hm.other node.1 fun rel hrel heq => hloc ⟨rel, hrel, heq⟩] at hk
      exact absurd hk (hno _ target)

end

section

variable {α : Type} [DecidableEq α] [LT α] [DecidableLT α] {machine : LocalMachine α}
  {lossy : α → String} {push : FilePath String → String → FilePath String}
  {components : String → List String} {parse : String → LocalPath} {server client : Site}
  {serverPermits permits : FilePath String → Bool} {source : FilePath α} {top : List α}
  {remote remoteBase : FilePath String} {localName : String} {remotePlace place : List String}
  {remoteTree remoteTree₁ tree tree₁ : FileTree String Bytes} {fuel : Nat}
  {«local» remoteName localBase : LocalPath}

end

/-! ## On Unix -/

section

open SshReadDir (unixToRemote unixFromRemote unixText UnixName unixSpelling)

/-- What is pushed is absolute if it begins with a slash, and then there is nothing before it. -/
def unixPush (path : FilePath String) (text : String) : FilePath String :=
  let other := unixFromRemote text
  if other.absolute = true then other else { path with steps := path.steps ++ other.steps }

theorem unixPush_names (path : FilePath String) {names : List String}
    (h : ∀ name ∈ names, UnixName name) :
    unixPush path (unixToRemote ⟨false, names.map .name⟩) = path.below names := by
  have hback : unixFromRemote (unixToRemote ⟨false, names.map .name⟩) = ⟨false, names.map .name⟩ :=
    unixSpelling.fromRemote_toRemote false names h
  simp [unixPush, hback, FilePath.below]

theorem unixPush_name (path : FilePath String) {name : String} (h : UnixName name) :
    unixPush path name = path.step (.name name) := by
  have htext : unixToRemote ⟨false, [.name name]⟩ = name := unixSpelling.toRemote_name name h
  have hpush : unixPush path (unixToRemote ⟨false, [name].map .name⟩) = path.below [name] :=
    unixPush_names path (by simpa using h)
  rw [List.map_singleton, htext] at hpush
  rw [hpush]
  simp [FilePath.below, FilePath.step]

theorem unixComponents_names {names : List String} (hne : names ≠ [])
    (h : ∀ name ∈ names, UnixName name) :
    Download.unixComponents (unixToRemote ⟨false, names.map .name⟩) = names := by
  obtain ⟨hsplit, -⟩ := SshReadDir.splitOn_names h hne
  have htext : (unixToRemote ⟨false, names.map .name⟩).toList =
      ['/'].intercalate ((names.map PathStep.name).map unixText) := by
    simp [unixToRemote]
  have htexts : ((names.map PathStep.name).map unixText).map String.ofList = names := by
    rw [List.map_map, List.map_map]
    refine (List.map_congr_left fun name _ => ?_).trans (List.map_id names)
    simp [unixText]
  rw [Download.unixComponents, htext, hsplit, htexts]
  cases names with
  | nil => exact absurd rfl hne
  | cons start names =>
    have hstart := h start List.mem_cons_self
    have hnonempty : unixToRemote ⟨false, (start :: names).map .name⟩ ≠ "" := by
      intro hempty
      rw [← String.toList_inj, htext] at hempty
      rw [hempty] at hsplit
      have hlast := congrArg (List.map String.ofList) hsplit
      rw [htexts] at hlast
      exact hstart.1 (List.cons_eq_cons.1 hlast).1.symm
    dsimp only
    rw [if_neg hnonempty, if_neg hstart.1, List.filter_eq_self.2]
    intro name hname
    have hn := h name (List.mem_cons_of_mem _ hname)
    simp [hn.1, hn.2.1]

theorem unixPath_name {name : String} (h : UnixName name) :
    Download.unixPath name = ⟨none, false, [.name name]⟩ := by
  have hslash : name ≠ "/" := by
    rintro rfl
    exact h.2.2.2 (by decide)
  rw [Download.unixPath, if_neg hslash, if_neg h.2.1, if_neg h.2.2.1]

theorem collect_unixPath {names : List String} (h : ∀ name ∈ names, UnixName name) :
    LocalPath.collect (names.map Download.unixPath) = ⟨none, false, names.map .name⟩ := by
  have hfold : ∀ parts, (names.map Download.unixPath).foldl LocalPath.push ⟨none, false, parts⟩ =
      ⟨none, false, parts ++ names.map .name⟩ := by
    induction names with
    | nil => simp
    | cons name names ih =>
      intro parts
      have ih := ih fun other hother => h other (List.mem_cons_of_mem _ hother)
      rw [List.map_cons, List.foldl_cons, unixPath_name (h name List.mem_cons_self)]
      have hpush : LocalPath.push ⟨none, false, parts⟩ ⟨none, false, [.name name]⟩ =
          ⟨none, false, parts ++ [.name name]⟩ := rfl
      rw [hpush, ih]
      simp
  exact hfold []

theorem comesBack_unix (remote : FilePath String) {names : List String} (hne : names ≠ [])
    (h : ∀ name ∈ names, UnixName name) :
    ComesBack Download.unixComponents Download.unixPath unixPush unixSpelling remote names := by
  refine ⟨?_, unixPush_names remote h⟩
  show LocalPath.collect ((Download.unixComponents (unixToRemote ⟨false, names.map .name⟩)).map
    Download.unixPath) = ⟨none, false, names.map .name⟩
  rw [unixComponents_names hne h, collect_unixPath h]

theorem carries_unix {α : Type} [DecidableEq α] {machine : LocalMachine α} {lossy : α → String}
    {top : List α}
    (hnames : ∀ rel name, machine.tree.kind (top ++ rel ++ [name]) ≠ none → UnixName (lossy name))
    (happart : ∀ rel name name', machine.tree.kind (top ++ rel ++ [name]) ≠ none →
      machine.tree.kind (top ++ rel ++ [name']) ≠ none → lossy name = lossy name' → name = name') :
    Carries machine lossy unixPush top :=
  ⟨fun rel name hk path => unixPush_name path (hnames rel name hk), happart⟩

/-- All names of a tree are good on Unix. -/
theorem unixName_of_nodes {β : Type} {tree : FileTree String β}
    (h : ∀ node ∈ tree.nodes, ∀ name ∈ node.1, UnixName name) {loc : List String}
    (hk : tree.kind loc ≠ none) : ∀ name ∈ loc, UnixName name := by
  by_cases hnil : loc = []
  · simp [hnil]
  · obtain ⟨kind, hk⟩ := Option.ne_none_iff_exists'.1 hk
    exact h _ (FileTree.mem_nodes_of_kind hk hnil)

/-- The directory `d` has the directory `s`, and that the file `f`. -/
def sharedTree : FileTree String Bytes where
  nodes := [(["d"], .dir), (["d", "s"], .dir), (["d", "s", "f"], .file [1])]
  distinct := by decide
  nonempty := by decide
  closed := by decide

theorem isNew_home (name : String) :
    (⟨["home"], 40⟩ : Site).IsNew (fun _ => true) homeTree ⟨false, [.name name]⟩
      (homeTree.insert ["home", name] .dir) ["home", name] := by
  have hhome : (⟨["home"], 40⟩ : Site).directory homeTree ⟨false, []⟩ = some ["home"] := by
    decide
  have hfree : homeTree.kind (["home"] ++ [name]) = none := by
    simp [homeTree, FileTree.kind]
  have hdir : homeTree.kind (["home"] ++ [name]).dropLast = some .dir := by
    rw [List.dropLast_concat]
    decide
  have hmade := Site.createDirAll_step ⟨["home"], 40⟩ (fun _ => true) homeTree ⟨false, []⟩
    (.name name)
  rw [if_neg (by simp), Site.mkdir_step_of_free hhome hfree rfl] at hmade
  refine ⟨by decide, hmade, ?_, fun names hnames => ?_⟩
  · exact (Site.directory_insert hhome hfree).1
  · have hplace : (["home", name] : List String) = ["home"] ++ [name] := rfl
    rw [hplace, FileTree.kind_insert (by simp) hfree hdir, if_neg (by simpa using hnames)]
    exact FileTree.kind_below_of_none hfree names

end

end Upload

end Distant
