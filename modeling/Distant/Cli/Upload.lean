import Distant.Host.Writing

/-!
# Uploading a directory

`upload_dir` walks through the local directory with a stack and follows no link on the way, sorts
what it has found, makes the remote directories and then writes the files. A link among the files is
followed when it is read. A name becomes a text by `to_string_lossy`, and is pushed to the path of
its directory in the style of the remote machine.

`uploadDir_iff` says when an upload succeeds, and what there is afterwards.
-/

namespace Distant

/-- The machine of the client, on which a name need not be a text. -/
structure LocalMachine (α : Type) where
  tree : FileTree α Bytes
  home : List α
  links : Nat

namespace LocalMachine

variable {α : Type} [DecidableEq α] (machine : LocalMachine α)

/-- Where a path leads, the last link followed. -/
def follow (path : FilePath α) : Option (List α) :=
  machine.tree.resolve true machine.links machine.home path

def readDir (path : FilePath α) : Option (List (α × FileKind α Bytes)) :=
  (machine.follow path).bind fun place =>
    if machine.tree.isDir place = true then some (machine.tree.entries place) else none

def read (path : FilePath α) : Option Bytes :=
  (machine.follow path).bind fun place =>
    match machine.tree.kind place with
    | some (.file content) => some content
    | _ => none

variable {machine}

theorem follow_below {path : FilePath α} {top names : List α} {kind : FileKind α Bytes}
    (hfollow : machine.follow path = some top) (hk : machine.tree.kind (top ++ names) = some kind)
    (hlink : kind.isLink = false) : machine.follow (path.below names) = some (top ++ names) := by
  induction names using List.reverseRecOn generalizing kind with
  | nil => simpa using hfollow
  | append_singleton names name ih =>
    rw [← List.append_assoc] at hk ⊢
    rw [← FilePath.step_below]
    have habove : machine.tree.kind (top ++ names) = some .dir :=
      FileTree.kind_above (Option.ne_none_iff_exists'.2 ⟨_, hk⟩)
    exact FileTree.resolve_step (ih habove rfl) hk (.inr hlink)

theorem readDir_below {path : FilePath α} {top names : List α}
    (hfollow : machine.follow path = some top)
    (hk : machine.tree.kind (top ++ names) = some .dir) :
    machine.readDir (path.below names) = some (machine.tree.entries (top ++ names)) := by
  rw [readDir, follow_below hfollow hk rfl]
  exact if_pos (FileTree.isDir_iff.2 hk)

end LocalMachine

namespace Upload

/-- What failed, with its path. -/
inductive UploadError (α : Type) where
  | readDir (path : FilePath α)
  | createDir (path : FilePath String)
  | read (path : FilePath α)
  | writeFile (path : FilePath String)
  deriving DecidableEq, Repr

section

variable {α : Type} [DecidableEq α] [LT α] [DecidableLT α] (machine : LocalMachine α)
  (lossy : α → String) (push : FilePath String → String → FilePath String) (site : Site)
  (permits : FilePath String → Bool)

/-- An existing directory gets an entry with the local name. -/
def resolveRemoteDst (tree : FileTree String Bytes) (remote : FilePath String)
    (localName : String) :
    FilePath String :=
  match site.metadata tree remote with
  | some .dir => push remote localName
  | _ => remote

/-- What a directory holds, with whether it is a directory. -/
def found (rel : List α) (entries : List (α × FileKind α Bytes)) : List (List α × Bool) :=
  entries.map fun entry => (rel ++ [entry.1], entry.2.isDir)

/-- The paths of the directories, or of all else. -/
def pathsOf (isDir : Bool) (entries : List (List α × Bool)) : List (List α) :=
  (entries.filter fun entry => entry.2 = isDir).map (·.1)

/-- The stack begins with what was pushed last. -/
def walkLocalDir (base : FilePath α) :
    Nat → List (List α) → List (List α × Bool) →
      Option (Except (UploadError α) (List (List α × Bool)))
  | 0, _, _ => none
  | _ + 1, [], entries =>
    some (.ok (entries.mergeSort fun entry entry' => ! decide (entry'.1 < entry.1)))
  | fuel + 1, relDir :: stack, entries =>
    match machine.readDir (base.below relDir) with
    | none => some (.error (.readDir (base.below relDir)))
    | some listed =>
      walkLocalDir base fuel ((pathsOf true (found relDir listed)).reverse ++ stack)
        (entries ++ found relDir listed)

/-- The components of a relative path, pushed one by one. -/
def remotePath (remoteBase : FilePath String) (rel : List α) : FilePath String :=
  rel.foldl (fun path name => push path (lossy name)) remoteBase

def writeFiles («local» : FilePath α) (remoteBase : FilePath String) :
    List (List α) → FileTree String Bytes → FileTree String Bytes × Except (UploadError α) Unit
  | [], tree => (tree, .ok ())
  | rel :: rels, tree =>
    match machine.read («local».below rel) with
    | none => (tree, .error (.read («local».below rel)))
    | some data =>
      match site.writeFile permits tree (remotePath lossy push remoteBase rel) data with
      | none => (tree, .error (.writeFile (remotePath lossy push remoteBase rel)))
      | some tree => writeFiles «local» remoteBase rels tree

/-- The remote tree afterwards, and whether the upload has succeeded. -/
def uploadDir (fuel : Nat) (tree : FileTree String Bytes) («local» : FilePath α)
    (localName : String) (remote : FilePath String) :
    Option (FileTree String Bytes × Except (UploadError α) Unit) :=
  let remoteBase := resolveRemoteDst push site tree remote localName
  match walkLocalDir machine «local» fuel [[]] [] with
  | none => none
  | some (.error e) => some (tree, .error e)
  | some (.ok entries) =>
    match site.createDirAll permits tree remoteBase with
    | (tree, false) => some (tree, .error (.createDir remoteBase))
    | (tree, true) =>
      match site.createDirs permits
          ((pathsOf true entries).map (remotePath lossy push remoteBase)) tree with
      | (tree, .error path) => some (tree, .error (.createDir path))
      | (tree, .ok ()) =>
        some (writeFiles machine lossy push site permits «local» remoteBase
          (pathsOf false entries) tree)

end

/-! ## When an upload succeeds -/

section

variable {α : Type} [DecidableEq α] (machine : LocalMachine α) (lossy : α → String)
  (push : FilePath String → String → FilePath String) (permits : FilePath String → Bool)
  («local» : FilePath α) (top : List α) (remoteBase : FilePath String) (place : List String)
  (tree : FileTree String Bytes)

/-- Each name below the directory is one name on the remote machine, and two in one directory do not
become one. -/
structure Carries : Prop where
  pushed : ∀ rel name, machine.tree.kind (top ++ rel ++ [name]) ≠ none → ∀ path,
    push path (lossy name) = path.step (.name (lossy name))
  apart : ∀ rel name name', machine.tree.kind (top ++ rel ++ [name]) ≠ none →
    machine.tree.kind (top ++ rel ++ [name']) ≠ none → lossy name = lossy name' → name = name'

/-- What becomes of what is at a place below the directory. -/
def sent (rel : List α) : Option (FileKind String Bytes) :=
  match machine.tree.kind (top ++ rel) with
  | none => none
  | some .dir => some .dir
  | some _ => (machine.read («local».below rel)).map .file

/-- All files can be read, and nothing remote is in the way. -/
structure Fits : Prop where
  reads : ∀ rel, machine.tree.kind (top ++ rel) ≠ none → sent machine «local» top rel ≠ none
  permits : ∀ rel, rel ≠ [] → machine.tree.kind (top ++ rel) ≠ none →
    permits (remoteBase.below (rel.map lossy)) = true
  kinds : ∀ rel kind kind', sent machine «local» top rel = some kind →
    tree.kind (place ++ rel.map lossy) = some kind' → kind.isDir = kind'.isDir

/-- The remote directory has all that the local one has, and nothing else is different. -/
structure Mirrors (tree' : FileTree String Bytes) : Prop where
  same : ∀ rel, machine.tree.kind (top ++ rel) ≠ none →
    tree'.kind (place ++ rel.map lossy) = sent machine «local» top rel
  other : ∀ loc, (∀ rel, machine.tree.kind (top ++ rel) ≠ none → loc ≠ place ++ rel.map lossy) →
    tree'.kind loc = tree.kind loc

end

/-! ## What the walk finds -/

section

variable {α : Type} [DecidableEq α] (machine : LocalMachine α) (top : List α)

/-- All that is below a directory, with its path from the top. -/
def listed (rel : List α) : List (List α × Bool) :=
  (machine.tree.below (fun _ => true) (top ++ rel)).map fun node =>
    (node.1.drop top.length, node.2.isDir)

omit [DecidableEq α] in
theorem mem_pathsOf {isDir : Bool} {entries : List (List α × Bool)} {rel : List α} :
    rel ∈ pathsOf isDir entries ↔ (rel, isDir) ∈ entries := by
  rw [pathsOf, List.mem_map]
  constructor
  · rintro ⟨entry, hentry, rfl⟩
    obtain ⟨hmem, hkind⟩ := List.mem_filter.1 hentry
    rw [decide_eq_true_iff] at hkind
    rwa [← hkind]
  · intro h
    exact ⟨(rel, isDir), List.mem_filter.2 ⟨h, by simp⟩, rfl⟩

theorem mem_listed {rel : List α} {isDir : Bool} :
    (rel, isDir) ∈ listed machine top [] ↔
      rel ≠ [] ∧ ∃ kind, machine.tree.kind (top ++ rel) = some kind ∧ kind.isDir = isDir := by
  rw [listed, List.append_nil, List.mem_map]
  constructor
  · rintro ⟨node, hnode, heq⟩
    cases heq
    obtain ⟨hmem, ⟨rest, hrest⟩, hne, -⟩ := FileTree.mem_below.1 hnode
    have hdrop : node.1.drop top.length = rest := by rw [← hrest, List.drop_left]
    rw [hdrop, hrest]
    refine ⟨?_, node.2, FileTree.kind_of_mem_nodes hmem, rfl⟩
    rintro rfl
    exact hne (by rw [← hrest, List.append_nil])
  · rintro ⟨hne, kind, hk, rfl⟩
    refine ⟨(top ++ rel, kind), FileTree.mem_below.2 ⟨?_, List.prefix_append _ _, ?_, rfl⟩, ?_⟩
    · exact FileTree.mem_nodes_of_kind hk (by simp [hne])
    · simpa using hne
    · rw [List.drop_left]

theorem found_eq (rel : List α) :
    (machine.tree.children (top ++ rel)).map (fun node => (node.1.drop top.length, node.2.isDir)) =
      found rel (machine.tree.entries (top ++ rel)) := by
  rw [← FileTree.entries_eq, List.map_map, found]
  apply List.map_congr_left
  intro entry _
  rw [Function.comp_apply, List.append_assoc, List.drop_left]

/-- There is nothing below what is no directory. -/
theorem flatMap_found (rel : List α) (entries : List (α × FileKind α Bytes))
    (hentries : ∀ entry ∈ entries, machine.tree.kind (top ++ rel ++ [entry.1]) = some entry.2) :
    (entries.flatMap fun entry =>
        (machine.tree.below (fun _ => true) (top ++ rel ++ [entry.1])).map fun node =>
          (node.1.drop top.length, node.2.isDir)) =
      (pathsOf true (found rel entries)).flatMap (listed machine top) := by
  induction entries with
  | nil => rfl
  | cons entry entries ih =>
    have hentry := hentries entry List.mem_cons_self
    have ih := ih fun other hother => hentries other (List.mem_cons_of_mem _ hother)
    rw [List.flatMap_cons, ih]
    cases hdir : entry.2.isDir with
    | true =>
      have hpaths : pathsOf true (found rel (entry :: entries)) =
          (rel ++ [entry.1]) :: pathsOf true (found rel entries) := by
        simp [pathsOf, found, hdir]
      rw [hpaths, List.flatMap_cons, listed, List.append_assoc]
    | false =>
      have hpaths : pathsOf true (found rel (entry :: entries)) =
          pathsOf true (found rel entries) := by
        simp [pathsOf, found, hdir]
      have hnot : machine.tree.isDir (top ++ rel ++ [entry.1]) = false := by
        rw [FileTree.isDir, hentry]
        cases hkind : entry.2 <;> simp_all [FileKind.isDir]
      rw [hpaths, FileTree.below_of_not_isDir hnot]
      rfl

/-- What is below a directory is what it holds, and what is below the directories among that. -/
theorem listed_perm (rel : List α) :
    (listed machine top rel).Perm
      (found rel (machine.tree.entries (top ++ rel)) ++
        (pathsOf true (found rel (machine.tree.entries (top ++ rel)))).flatMap
          (listed machine top)) := by
  have hperm : (machine.tree.below (fun _ => true) (top ++ rel)).Perm
      (machine.tree.children (top ++ rel) ++
        (machine.tree.children (top ++ rel)).flatMap fun node =>
        machine.tree.below (fun _ => true) node.1) := machine.tree.below_perm rfl
  refine (hperm.map _).trans ?_
  rw [List.map_append, found_eq, List.map_flatMap, ← FileTree.entries_eq, List.flatMap_map,
    flatMap_found machine top rel _ fun entry hentry => FileTree.mem_entries.1 hentry]

variable {machine top} [LT α] [DecidableLT α]

/-- The walk comes to an end, and has found all that is below the directories on the stack. -/
theorem walkLocalDir_perm {«local» : FilePath α} (hfollow : machine.follow «local» = some top)
    {fuel : Nat} {stack : List (List α)}
    (hstack : ∀ rel ∈ stack, machine.tree.kind (top ++ rel) = some .dir)
    (hfuel : (stack.flatMap (listed machine top)).length + stack.length < fuel)
    (entries : List (List α × Bool)) :
    ∃ entries', walkLocalDir machine «local» fuel stack entries = some (.ok entries') ∧
      entries'.Perm (entries ++ stack.flatMap (listed machine top)) := by
  induction fuel generalizing stack entries with
  | zero => omega
  | succ fuel ih =>
    cases stack with
    | nil => exact ⟨_, rfl, by simpa using List.mergeSort_perm entries _⟩
    | cons rel stack =>
      have hrel := hstack rel List.mem_cons_self
      have hperm := listed_perm machine top rel
      rw [walkLocalDir, LocalMachine.readDir_below hfollow hrel]
      dsimp only
      generalize hheld : machine.tree.entries (top ++ rel) = held at hperm ⊢
      have hsubs : ∀ sub ∈ (pathsOf true (found rel held)).reverse ++ stack,
          machine.tree.kind (top ++ sub) = some .dir := by
        intro sub hsub
        rcases List.mem_append.1 hsub with hsub | hsub
        · obtain ⟨entry, hentry, heq⟩ := List.mem_map.1 (mem_pathsOf.1 (List.mem_reverse.1 hsub))
          obtain ⟨rfl, hdir⟩ := Prod.mk.injEq .. ▸ heq
          rw [← hheld] at hentry
          rw [← List.append_assoc, FileTree.mem_entries.1 hentry, FileKind.isDir_iff.1 hdir]
        · exact hstack sub (List.mem_cons_of_mem _ hsub)
      have hreverse : ((pathsOf true (found rel held)).reverse.flatMap (listed machine top)).Perm
          ((pathsOf true (found rel held)).flatMap (listed machine top)) :=
        (List.reverse_perm _).flatMap_right _
      have hshort : (pathsOf true (found rel held)).length ≤ (found rel held).length := by
        rw [pathsOf, List.length_map]
        exact List.length_filter_le _ _
      have hwork : (((pathsOf true (found rel held)).reverse ++ stack).flatMap
          (listed machine top)).length + ((pathsOf true (found rel held)).reverse ++ stack).length <
            fuel := by
        have hlength := hperm.length_eq
        rw [List.flatMap_cons, List.length_append, hlength, List.length_append,
          List.length_cons] at hfuel
        rw [List.flatMap_append, List.length_append, hreverse.length_eq, List.length_append,
          List.length_reverse]
        omega
      obtain ⟨entries', hrun, hp⟩ := ih hsubs hwork (entries ++ found rel held)
      refine ⟨entries', hrun, hp.trans ?_⟩
      rw [List.flatMap_append, List.flatMap_cons, List.append_assoc]
      apply List.Perm.append_left
      rw [← List.append_assoc]
      apply List.Perm.append_right
      exact (hreverse.append_left _).trans hperm.symm

end

/-! ## What is made -/

section

variable {α : Type} [DecidableEq α] {machine : LocalMachine α} {lossy : α → String}
  {push : FilePath String → String → FilePath String} {site : Site}
  {permits : FilePath String → Bool} {«local» : FilePath α} {top : List α}
  {remoteBase : FilePath String} {place : List String} {tree tree' : FileTree String Bytes}
  {result : Except (UploadError α) Unit}

/-- Its names are those that the remote path has below the base. -/
theorem remotePath_eq (hcarries : Carries machine lossy push top) {rel : List α}
    (hk : machine.tree.kind (top ++ rel) ≠ none) :
    remotePath lossy push remoteBase rel = remoteBase.below (rel.map lossy) := by
  induction rel using List.reverseRecOn with
  | nil => simp [remotePath]
  | append_singleton rel name ih =>
    rw [← List.append_assoc] at hk
    have habove : machine.tree.kind (top ++ rel) ≠ none := by
      rw [FileTree.kind_above hk]
      simp
    have hlast := hcarries.pushed rel name hk (remotePath lossy push remoteBase rel)
    rw [remotePath, List.foldl_append, List.foldl_cons, List.foldl_nil, ← remotePath, hlast,
      ih habove, FilePath.step_below, List.map_append, List.map_singleton]

theorem eq_of_map_lossy (hcarries : Carries machine lossy push top) {rel rel' : List α}
    (hk : machine.tree.kind (top ++ rel) ≠ none) (hk' : machine.tree.kind (top ++ rel') ≠ none)
    (h : rel.map lossy = rel'.map lossy) : rel = rel' := by
  induction rel using List.reverseRecOn generalizing rel' with
  | nil => simpa using h.symm
  | append_singleton rel name ih =>
    rcases List.eq_nil_or_concat rel' with rfl | ⟨rel', name', rfl⟩
    · simp at h
    · rw [List.concat_eq_append] at h hk' ⊢
      rw [List.map_append, List.map_append] at h
      obtain ⟨hinit, hlast⟩ := List.append_inj' h rfl
      rw [← List.append_assoc] at hk hk'
      obtain rfl := ih (by rw [FileTree.kind_above hk]; simp)
        (by rw [FileTree.kind_above hk']; simp) hinit
      rw [hcarries.apart rel name name' hk hk' (by simpa using hlast)]

/-- The files are written exactly if all of them can be. -/
theorem writeFiles_spec {rels : List (List α)} (hdir : site.directory tree remoteBase = some place)
    (hlinks : Site.NoLinks tree place)
    (hpath : ∀ rel ∈ rels, remotePath lossy push remoteBase rel = remoteBase.below (rel.map lossy))
    (hparent : ∀ rel ∈ rels, ∃ dir name, rel = dir ++ [name] ∧
      tree.kind (place ++ dir.map lossy) = some .dir)
    (hinj : ∀ rel ∈ rels, ∀ rel' ∈ rels, rel.map lossy = rel'.map lossy → rel = rel')
    (hrun : writeFiles machine lossy push site permits «local» remoteBase rels tree =
      (tree', result)) :
    (result = .ok () ↔ ∀ rel ∈ rels, machine.read («local».below rel) ≠ none ∧
      permits (remoteBase.below (rel.map lossy)) = true ∧
        tree.kind (place ++ rel.map lossy) ≠ some .dir) ∧
    (result = .ok () →
      (∀ rel ∈ rels, tree'.kind (place ++ rel.map lossy) =
        (machine.read («local».below rel)).map .file) ∧
      ∀ loc, (∀ rel ∈ rels, loc ≠ place ++ rel.map lossy) → tree'.kind loc = tree.kind loc) := by
  induction rels generalizing tree with
  | nil =>
    cases hrun
    simp
  | cons rel rels ih =>
    obtain ⟨dir, name, rfl, hdirs⟩ := hparent rel List.mem_cons_self
    have hcurrent := Site.directory_below hdir hdirs
    have hplace : place ++ (dir ++ [name]).map lossy = place ++ dir.map lossy ++ [lossy name] := by
      simp
    have hstep : remoteBase.below ((dir ++ [name]).map lossy) =
        (remoteBase.below (dir.map lossy)).step (.name (lossy name)) := by
      rw [FilePath.step_below, List.map_append, List.map_singleton]
    have hlink : ∀ target, tree.kind (place ++ dir.map lossy ++ [lossy name]) ≠
        some (.link target) := by
      intro target
      rw [← hplace]
      exact hlinks _ target
    rw [writeFiles, hpath _ List.mem_cons_self] at hrun
    cases hread : machine.read («local».below (dir ++ [name])) with
    | none =>
      rw [hread] at hrun
      cases hrun
      simp [hread]
    | some data =>
      obtain ⟨hwritten, hwrites⟩ := @Site.writeFile_step site permits tree _ _ _ data hcurrent hlink
      rw [hread] at hrun
      simp only [hstep] at hrun
      cases hwrite : site.writeFile permits tree
          ((remoteBase.below (dir.map lossy)).step (.name (lossy name))) data with
      | none =>
        rw [hwrite] at hrun hwrites
        cases hrun
        refine ⟨⟨by simp, fun h => ?_⟩, by simp⟩
        obtain ⟨-, hpermits, hfree⟩ := h _ List.mem_cons_self
        rw [hstep] at hpermits
        rw [hplace] at hfree
        simpa using hwrites hpermits hfree
      | some tree₁ =>
        rw [hwrite] at hrun
        obtain ⟨hpermits, hfree, hkind⟩ := hwritten tree₁ hwrite
        have hkeeps := Site.keeps_of_written hkind hfree hlink
        obtain ⟨hiff, hall⟩ := ih (Site.directory_keeps hkeeps hdir) (hlinks.written hkind)
          (fun rel hrel => hpath rel (List.mem_cons_of_mem _ hrel))
          (fun rel hrel => by
            obtain ⟨dir, name, hrel, hk⟩ := hparent rel (List.mem_cons_of_mem _ hrel)
            exact ⟨dir, name, hrel, hkeeps.dir hk⟩)
          (fun rel hrel rel' hrel' => hinj rel (List.mem_cons_of_mem _ hrel) rel'
            (List.mem_cons_of_mem _ hrel')) hrun
        have hsame : ∀ rel : List α, tree₁.kind (place ++ rel.map lossy) ≠ some .dir ↔
            tree.kind (place ++ rel.map lossy) ≠ some .dir := by
          intro rel
          rw [hkind]
          split_ifs with hloc
          · rw [hloc]
            exact iff_of_true (by simp) hfree
          · rfl
        refine ⟨⟨fun h rel hrel => ?_, fun h => ?_⟩, fun h =>
          ⟨fun rel hrel => ?_, fun loc hloc => ?_⟩⟩
        · rcases List.mem_cons.1 hrel with rfl | hrel
          · exact ⟨by simp [hread], by rwa [hstep], by rwa [hplace]⟩
          · obtain ⟨hreads, hallowed, hfree'⟩ := hiff.1 h rel hrel
            exact ⟨hreads, hallowed, (hsame rel).1 hfree'⟩
        · refine hiff.2 fun rel hrel => ?_
          obtain ⟨hreads, hallowed, hfree'⟩ := h rel (List.mem_cons_of_mem _ hrel)
          exact ⟨hreads, hallowed, (hsame rel).2 hfree'⟩
        · by_cases hmem : rel ∈ rels
          · exact (hall h).1 rel hmem
          · obtain rfl := (List.mem_cons.1 hrel).resolve_right hmem
            -- no other file has been written there
            rw [(hall h).2, hkind, if_pos hplace, hread]
            · rfl
            · intro other hother heq
              rw [hinj _ List.mem_cons_self other (List.mem_cons_of_mem _ hother)
                (List.append_cancel_left heq)] at hmem
              exact hmem hother
        · rw [(hall h).2 loc fun rel hrel => hloc rel (List.mem_cons_of_mem _ hrel), hkind, if_neg]
          rw [← hplace]
          exact hloc _ List.mem_cons_self

/-! ## The whole upload -/

theorem kind_of_way {rel rel' : List α} (hway : rel' <+: rel)
    (hk : machine.tree.kind (top ++ rel) = some .dir) :
    machine.tree.kind (top ++ rel') = some .dir := by
  obtain ⟨rest, rfl⟩ := hway
  by_cases hrest : rest = []
  · rwa [hrest, List.append_nil] at hk
  · rw [← List.append_assoc] at hk
    exact FileTree.kind_of_above (by rw [hk]; simp) hrest

theorem sent_dir {rel : List α} (hk : machine.tree.kind (top ++ rel) = some .dir) :
    sent machine «local» top rel = some .dir := by
  rw [sent, hk]

theorem sent_of_not_dir {rel : List α} {kind : FileKind α Bytes}
    (hk : machine.tree.kind (top ++ rel) = some kind) (hdir : kind.isDir = false) :
    sent machine «local» top rel = (machine.read («local».below rel)).map .file := by
  rw [sent, hk]
  cases kind with
  | dir => cases hdir
  | file content => rfl
  | link target => rfl

variable (machine top) in
/-- All that is below the directory has been found, and nothing else. -/
def Complete (entries : List (List α × Bool)) : Prop :=
  ∀ rel isDir, (rel, isDir) ∈ entries ↔
    rel ≠ [] ∧ ∃ kind, machine.tree.kind (top ++ rel) = some kind ∧ kind.isDir = isDir

variable {entries : List (List α × Bool)}

theorem mem_dirs (hentries : Complete machine top entries) {rel : List α} :
    rel ∈ pathsOf true entries ↔ rel ≠ [] ∧ machine.tree.kind (top ++ rel) = some .dir := by
  rw [mem_pathsOf, hentries]
  simp [FileKind.isDir_iff]

theorem mem_files (hentries : Complete machine top entries)
    (htop : machine.tree.kind top = some .dir) {rel : List α} :
    rel ∈ pathsOf false entries ↔
      ∃ kind, machine.tree.kind (top ++ rel) = some kind ∧ kind.isDir = false := by
  rw [mem_pathsOf, hentries]
  refine and_iff_right_of_imp fun h => ?_
  rintro rfl
  obtain ⟨kind, hk, hkind⟩ := h
  rw [List.append_nil, htop] at hk
  cases hk
  cases hkind

theorem kind_of_mem_files (hentries : Complete machine top entries)
    (htop : machine.tree.kind top = some .dir) {rel : List α} (hrel : rel ∈ pathsOf false entries) :
    machine.tree.kind (top ++ rel) ≠ none := by
  obtain ⟨kind, hk, -⟩ := (mem_files hentries htop).1 hrel
  rw [hk]
  simp

/-- A file is in a directory. -/
theorem parent_of_mem_files (hentries : Complete machine top entries)
    (htop : machine.tree.kind top = some .dir) {rel : List α} (hrel : rel ∈ pathsOf false entries) :
    ∃ dir name, rel = dir ++ [name] ∧ machine.tree.kind (top ++ dir) = some .dir := by
  have hk := kind_of_mem_files hentries htop hrel
  have hne := ((hentries rel false).1 (mem_pathsOf.1 hrel)).1
  rcases List.eq_nil_or_concat rel with rfl | ⟨dir, name, rfl⟩
  · exact absurd rfl hne
  · rw [List.concat_eq_append, ← List.append_assoc] at hk
    exact ⟨dir, name, List.concat_eq_append, FileTree.kind_above hk⟩

/-- No file is sent to the place that a directory is sent to. -/
theorem place_ne_of_mem_files (hcarries : Carries machine lossy push top)
    (hentries : Complete machine top entries) (htop : machine.tree.kind top = some .dir)
    {rel rel' : List α} (hk : machine.tree.kind (top ++ rel) = some .dir)
    (hrel' : rel' ∈ pathsOf false entries) : place ++ rel.map lossy ≠ place ++ rel'.map lossy := by
  intro heq
  obtain ⟨kind, hk', hkind⟩ := (mem_files hentries htop).1 hrel'
  obtain rfl := eq_of_map_lossy hcarries (by rw [hk]; simp) (kind_of_mem_files hentries htop hrel')
    (List.append_cancel_left heq)
  rw [hk] at hk'
  cases hk'
  cases hkind

theorem map_remotePath (hcarries : Carries machine lossy push top)
    (hentries : Complete machine top entries) :
    (pathsOf true entries).map (remotePath lossy push remoteBase) =
      ((pathsOf true entries).map (List.map lossy)).map remoteBase.below := by
  rw [List.map_map]
  refine List.map_congr_left fun rel hrel => remotePath_eq hcarries ?_
  rw [((mem_dirs hentries).1 hrel).2]
  simp

/-- If the upload fits, the directories are made, and nothing else. -/
theorem createDirs_of_fits (hentries : Complete machine top entries)
    (hdir : site.directory tree remoteBase = some place)
    (hlinks : Site.NoLinks tree place) (hbase : remoteBase.steps = [] ∨ permits remoteBase = true)
    (hfits : Fits machine lossy permits «local» top remoteBase place tree) :
    ∃ tree', site.createDirs permits
        (((pathsOf true entries).map (List.map lossy)).map remoteBase.below) tree =
          (tree', .ok ()) ∧
      ∀ loc, (∀ rel, machine.tree.kind (top ++ rel) = some .dir → loc ≠ place ++ rel.map lossy) →
        tree'.kind loc = tree.kind loc := by
  have hdirs : ∀ rel ∈ pathsOf true entries, machine.tree.kind (top ++ rel) = some .dir :=
    fun rel hrel => ((mem_dirs hentries).1 hrel).2
  obtain ⟨tree', hrun, hother⟩ := Site.createDirs_below hdir hlinks hbase
    (fun names hnames way hway hne => by
      obtain ⟨rel, hrel, rfl⟩ := List.mem_map.1 hnames
      obtain ⟨rel', habove, rfl⟩ := List.prefix_map_iff.1 hway
      exact hfits.permits rel' (by simpa using hne) (by
        rw [kind_of_way habove (hdirs rel hrel)]
        simp))
    (fun names hnames way hway kind hk => by
      obtain ⟨rel, hrel, rfl⟩ := List.mem_map.1 hnames
      obtain ⟨rel', habove, rfl⟩ := List.prefix_map_iff.1 hway
      have hsent : sent machine «local» top rel' = some .dir :=
        sent_dir (kind_of_way habove (hdirs rel hrel))
      exact FileKind.isDir_iff.1 (hfits.kinds rel' .dir kind hsent hk).symm)
  refine ⟨tree', hrun, fun loc hloc => hother loc fun names hnames hbetween => ?_⟩
  obtain ⟨rel, hrel, rfl⟩ := List.mem_map.1 hnames
  obtain ⟨⟨names, rfl⟩, habove⟩ := hbetween
  obtain ⟨rel', hway, rfl⟩ := List.prefix_map_iff.1 ((List.prefix_append_right_inj place).1 habove)
  exact hloc rel' (kind_of_way hway (hdirs rel hrel)) rfl

/-- What has been made and written did fit. -/
theorem fits_of_written (hentries : Complete machine top entries)
    (htop : machine.tree.kind top = some .dir) (hf : Site.Furnished tree tree')
    (hpermits : ∀ rel ∈ pathsOf true entries, permits (remoteBase.below (rel.map lossy)) = true)
    (hdirs : ∀ rel, machine.tree.kind (top ++ rel) = some .dir →
      tree'.kind (place ++ rel.map lossy) = some .dir)
    (hfiles : ∀ rel ∈ pathsOf false entries, machine.read («local».below rel) ≠ none ∧
      permits (remoteBase.below (rel.map lossy)) = true ∧
        tree'.kind (place ++ rel.map lossy) ≠ some .dir) :
    Fits machine lossy permits «local» top remoteBase place tree where
  reads rel hk := by
    obtain ⟨kind, hk⟩ := Option.ne_none_iff_exists'.1 hk
    cases hkind : kind.isDir with
    | true =>
      rw [sent_dir (by rw [hk, FileKind.isDir_iff.1 hkind])]
      simp
    | false =>
      rw [sent_of_not_dir hk hkind]
      simpa using (hfiles rel ((mem_files hentries htop).2 ⟨kind, hk, hkind⟩)).1
  permits rel hne hk := by
    obtain ⟨kind, hk⟩ := Option.ne_none_iff_exists'.1 hk
    cases hkind : kind.isDir with
    | true =>
      exact hpermits rel
        ((mem_dirs hentries).2 ⟨hne, by rw [hk, FileKind.isDir_iff.1 hkind]⟩)
    | false => exact (hfiles rel ((mem_files hentries htop).2 ⟨kind, hk, hkind⟩)).2.1
  kinds rel kind kind' hsent hk' := by
    cases hk : machine.tree.kind (top ++ rel) with
    | none =>
      rw [sent, hk] at hsent
      cases hsent
    | some localKind =>
      cases hkind : localKind.isDir with
      | true =>
        obtain rfl := FileKind.isDir_iff.1 hkind
        rw [sent_dir hk] at hsent
        cases hsent
        have hthere := hf.within hk'
        rw [hdirs rel hk] at hthere
        cases hthere
        rfl
      | false =>
        rw [sent_of_not_dir hk hkind] at hsent
        obtain ⟨data, -, rfl⟩ := Option.map_eq_some_iff.1 hsent
        have hnot := (hfiles rel ((mem_files hentries htop).2 ⟨localKind, hk, hkind⟩)).2.2
        cases hkind' : kind'.isDir with
        | true =>
          rw [FileKind.isDir_iff.1 hkind'] at hk'
          exact absurd (hf.within hk') hnot
        | false => rfl

/-- If the upload fits, all files can be written when the directories have been made. -/
theorem writable_of_fits (hcarries : Carries machine lossy push top)
    (hentries : Complete machine top entries) (htop : machine.tree.kind top = some .dir)
    (hfits : Fits machine lossy permits «local» top remoteBase place tree)
    (hnew : ∀ loc, (∀ rel, machine.tree.kind (top ++ rel) = some .dir →
      loc ≠ place ++ rel.map lossy) → tree'.kind loc = tree.kind loc)
    {rel : List α} (hrel : rel ∈ pathsOf false entries) :
    machine.read («local».below rel) ≠ none ∧ permits (remoteBase.below (rel.map lossy)) = true ∧
      tree'.kind (place ++ rel.map lossy) ≠ some .dir := by
  obtain ⟨kind, hk, hkind⟩ := (mem_files hentries htop).1 hrel
  have hne : rel ≠ [] := ((hentries rel false).1 (mem_pathsOf.1 hrel)).1
  have hread := hfits.reads rel (kind_of_mem_files hentries htop hrel)
  rw [sent_of_not_dir hk hkind] at hread
  refine ⟨by simpa using hread, hfits.permits rel hne (kind_of_mem_files hentries htop hrel),
    fun hthere => ?_⟩
  rw [hnew _ fun rel' hk' => (place_ne_of_mem_files hcarries hentries htop hk' hrel).symm] at hthere
  obtain ⟨sentKind, hsent⟩ := Option.ne_none_iff_exists'.1 hread
  have hsame := hfits.kinds rel sentKind .dir (by rw [sent_of_not_dir hk hkind, hsent]) hthere
  obtain ⟨data, -, rfl⟩ := Option.map_eq_some_iff.1 hsent
  cases hsame

/-- What comes after the walk. -/
theorem sends_iff (hentries : Complete machine top entries)
    (htop : machine.tree.kind top = some .dir)
    (hcarries : Carries machine lossy push top)
    (hbase : remoteBase.steps = [] ∨ permits remoteBase = true)
    (hhome : tree.kind site.home = some .dir) (hdir : site.directory tree remoteBase = some place)
    (hlinks : Site.NoLinks tree place) :
    ∃ tree' result,
      (match site.createDirs permits
          ((pathsOf true entries).map (remotePath lossy push remoteBase)) tree with
        | (tree, .error path) => some (tree, .error (.createDir path))
        | (tree, .ok ()) =>
          some (writeFiles machine lossy push site permits «local» remoteBase
            (pathsOf false entries) tree)) = some (tree', result) ∧
      (result = .ok () ↔ Fits machine lossy permits «local» top remoteBase place tree) ∧
      (result = .ok () → Mirrors machine lossy «local» top place tree tree') := by
  rw [map_remotePath hcarries hentries]
  rcases hcreate : site.createDirs permits
    (((pathsOf true entries).map (List.map lossy)).map remoteBase.below) tree with ⟨tree₁, created⟩
  obtain ⟨hf, hmade⟩ := Site.createDirs_spec hhome hdir hlinks
    (fun names hnames => by
      obtain ⟨rel, hrel, rfl⟩ := List.mem_map.1 hnames
      simpa using ((mem_dirs hentries).1 hrel).1) hcreate
  cases created with
  | error path =>
    refine ⟨tree₁, .error (.createDir path), rfl, iff_of_false (by simp) fun hfits => ?_, by simp⟩
    obtain ⟨tree', hrun, -⟩ := createDirs_of_fits hentries hdir hlinks hbase hfits
    rw [hcreate] at hrun
    cases hrun
  | ok =>
    rcases hwrite : writeFiles machine lossy push site permits «local» remoteBase
      (pathsOf false entries) tree₁ with ⟨tree', result⟩
    have hdirs : ∀ rel, machine.tree.kind (top ++ rel) = some .dir →
        tree₁.kind (place ++ rel.map lossy) = some .dir := by
      intro rel hk
      by_cases hrel : rel = []
      · rw [hrel, List.map_nil, List.append_nil]
        exact hf.within (Site.directory_eq_some_iff.1 hdir).2
      · exact (hmade rfl _ (List.mem_map_of_mem ((mem_dirs hentries).2 ⟨hrel, hk⟩))).2
    obtain ⟨hiff, hall⟩ := writeFiles_spec (Site.directory_within hf.within hdir)
      (hlinks.furnished hf)
      (fun rel hrel => remotePath_eq hcarries (kind_of_mem_files hentries htop hrel))
      (fun rel hrel => by
        obtain ⟨dir, name, heq, hk⟩ := parent_of_mem_files hentries htop hrel
        exact ⟨dir, name, heq, hdirs dir hk⟩)
      (fun rel hrel rel' hrel' => eq_of_map_lossy hcarries (kind_of_mem_files hentries htop hrel)
        (kind_of_mem_files hentries htop hrel'))
      hwrite
    have hnew : Fits machine lossy permits «local» top remoteBase place tree → ∀ loc,
        (∀ rel, machine.tree.kind (top ++ rel) = some .dir → loc ≠ place ++ rel.map lossy) →
          tree₁.kind loc = tree.kind loc := by
      intro hfits
      obtain ⟨tree₂, hrun, hnew⟩ := createDirs_of_fits hentries hdir hlinks hbase hfits
      rw [hcreate] at hrun
      cases hrun
      exact hnew
    have hfits : result = .ok () ↔
        Fits machine lossy permits «local» top remoteBase place tree := by
      refine ⟨fun hresult => fits_of_written hentries htop hf (fun rel hrel => ?_) hdirs
        (hiff.1 hresult), fun hfits => hiff.2 fun rel hrel => ?_⟩
      · exact (hmade rfl _ (List.mem_map_of_mem hrel)).1
      · exact writable_of_fits hcarries hentries htop hfits (hnew hfits) hrel
    refine ⟨tree', result, congrArg some hwrite, hfits, fun hresult => ?_⟩
    obtain ⟨hfiles, hother⟩ := hall hresult
    refine ⟨fun rel hk => ?_, fun loc hloc => ?_⟩
    · obtain ⟨kind, hk⟩ := Option.ne_none_iff_exists'.1 hk
      cases hkind : kind.isDir with
      | true =>
        obtain rfl := FileKind.isDir_iff.1 hkind
        rw [hother _ fun rel' hrel' => place_ne_of_mem_files hcarries hentries htop hk hrel',
          hdirs rel hk, sent_dir hk]
      | false =>
        rw [hfiles rel ((mem_files hentries htop).2 ⟨kind, hk, hkind⟩), sent_of_not_dir hk hkind]
    · rw [hother loc fun rel hrel => hloc rel (kind_of_mem_files hentries htop hrel)]
      exact hnew (hfits.1 hresult) loc fun rel hk => hloc rel (by rw [hk]; simp)

variable [LT α] [DecidableLT α]

/-- The walk finds all that is below the directory, and the rest of the upload is about this. -/
theorem uploadDir_walked {remote : FilePath String} {localName : String}
    {tree₁ : FileTree String Bytes} {fuel : Nat} (hfollow : machine.follow «local» = some top)
    (htop : machine.tree.kind top = some .dir)
    (hremote : resolveRemoteDst push site tree remote localName = remoteBase)
    (hmade : site.createDirAll permits tree remoteBase = (tree₁, true))
    (hfuel : machine.tree.nodes.length + 1 < fuel) :
    ∃ entries, Complete machine top entries ∧
      uploadDir machine lossy push site permits fuel tree «local» localName remote =
        match site.createDirs permits
          ((pathsOf true entries).map (remotePath lossy push remoteBase)) tree₁ with
        | (tree, .error path) => some (tree, .error (.createDir path))
        | (tree, .ok ()) =>
          some (writeFiles machine lossy push site permits «local» remoteBase
            (pathsOf false entries) tree) := by
  have hwork : (([[]] : List (List α)).flatMap (listed machine top)).length +
      ([[]] : List (List α)).length < fuel := by
    have hle : (listed machine top []).length ≤ machine.tree.nodes.length := by
      rw [listed, List.length_map]
      exact List.length_filter_le _ _
    rw [List.flatMap_singleton]
    exact Nat.lt_of_le_of_lt (Nat.add_le_add_right hle 1) hfuel
  obtain ⟨entries, hwalk, hperm⟩ := walkLocalDir_perm hfollow (by simpa using htop) hwork []
  refine ⟨entries, fun rel isDir => ?_, ?_⟩
  · rw [hperm.mem_iff, List.nil_append, List.flatMap_singleton, mem_listed]
  · simp only [uploadDir, hremote, hwalk, hmade]

end

/-! ## A directory with a link -/

/-- A file, and a link to it in a subdirectory. -/
def linkedTree : FileTree String Bytes where
  nodes := [(["src"], .dir), (["src", "a"], .file [1]), (["src", "sub"], .dir),
    (["src", "sub", "b"], .link ⟨false, [.up, .name "a"]⟩)]
  distinct := by decide
  nonempty := by decide
  closed := by decide

def homeTree : FileTree String Bytes where
  nodes := [(["home"], .dir)]
  distinct := by decide
  nonempty := by decide
  closed := by decide

def pushName (path : FilePath String) (name : String) : FilePath String := path.step (.name name)

end Upload

end Distant
