import Distant.Lib.Worklist
import Distant.Ssh.Sftp

/-!
# Setting permissions over SSH

`set_permissions` goes through the directories below the path with a queue, and with
`follow_symlinks` through those that links lead to. It does not remember where it has been, and the
target of a link is used as it has been read, from the directory where the session starts.
`ends_on_target` says what is set in trees where neither of the two matters.
-/

namespace Distant

/-! ## Permissions -/

structure SetPermissionsOptions where
  excludeSymlinks : Bool
  followSymlinks : Bool
  recursive : Bool
  deriving DecidableEq, Repr

/-- Links are followed, and not left out before. -/
def SetPermissionsOptions.traverses (options : SetPermissionsOptions) : Bool :=
  options.followSymlinks && !options.excludeSymlinks

/-- When used to set permissions, only fields that are set will be applied. -/
structure Permissions where
  ownerRead : Option Bool
  ownerWrite : Option Bool
  ownerExec : Option Bool
  groupRead : Option Bool
  groupWrite : Option Bool
  groupExec : Option Bool
  otherRead : Option Bool
  otherWrite : Option Bool
  otherExec : Option Bool
  deriving DecidableEq, Repr

namespace Permissions

def applyFrom (self other : Permissions) : Permissions where
  ownerRead := other.ownerRead <|> self.ownerRead
  ownerWrite := other.ownerWrite <|> self.ownerWrite
  ownerExec := other.ownerExec <|> self.ownerExec
  groupRead := other.groupRead <|> self.groupRead
  groupWrite := other.groupWrite <|> self.groupWrite
  groupExec := other.groupExec <|> self.groupExec
  otherRead := other.otherRead <|> self.otherRead
  otherWrite := other.otherWrite <|> self.otherWrite
  otherExec := other.otherExec <|> self.otherExec

/-- Converts a Unix mode into the permission set. -/
def fromUnixMode (mode : Nat) : Permissions where
  ownerRead := some (mode.testBit 8)
  ownerWrite := some (mode.testBit 7)
  ownerExec := some (mode.testBit 6)
  groupRead := some (mode.testBit 5)
  groupWrite := some (mode.testBit 4)
  groupExec := some (mode.testBit 3)
  otherRead := some (mode.testBit 2)
  otherWrite := some (mode.testBit 1)
  otherExec := some (mode.testBit 0)

/-- For any missing setting, a 0 bit is used. -/
def flag (setting : Option Bool) (value : Nat) : Nat := if setting = some true then value else 0

def toUnixMode (p : Permissions) : Nat :=
  flag p.ownerRead 256 + flag p.ownerWrite 128 + flag p.ownerExec 64
    + flag p.groupRead 32 + flag p.groupWrite 16 + flag p.groupExec 8
    + flag p.otherRead 4 + flag p.otherWrite 2 + flag p.otherExec 1

end Permissions

namespace SshPermissions

/-- The requested changes, merged into a mode. -/
def newMode (permissions : Permissions) (mode : Nat) : Nat :=
  ((Permissions.fromUnixMode (mode % 512)).applyFrom permissions).toUnixMode

/-! ## The calls -/

inductive SftpCall where
  | symlinkMetadata
  | readLink
  | metadata
  | setMetadata
  | readDir
  deriving DecidableEq, Repr

/-- The call that failed, with its path. -/
structure SetError where
  call : SftpCall
  path : FilePath String
  deriving DecidableEq, Repr

/-- The modes of the nodes. -/
abbrev Modes := List String → Nat

def isLinkAt {β : Type} (tree : FileTree String β) (place : List String) : Bool :=
  match tree.kind place with
  | some (.link _) => true
  | _ => false

section

variable {β : Type} (site : Site) (tree : FileTree String β)
  (permits : Modes → SftpCall → FilePath String → Bool)
  (permissions : Permissions) (options : SetPermissionsOptions)

/-- Resolves a symlink if requested: the path to set, and the place whose attributes have been
read. -/
def resolved (modes : Modes) (path : FilePath String) (place : List String) :
    Except SetError (FilePath String × List String) :=
  if options.followSymlinks = true ∧ isLinkAt tree place = true then
    if permits modes .readLink path = false then .error ⟨.readLink, path⟩
    else
      match site.readLink tree path with
      | none => .error ⟨.readLink, path⟩
      | some target =>
        if permits modes .metadata target = false then .error ⟨.metadata, target⟩
        else
          match site.follow tree target with
          | none => .error ⟨.metadata, target⟩
          | some place => .ok (target, place)
  else .ok (path, place)

/-- Apply permissions to a single path: the path if it is a directory. -/
def applyPermissions (modes : Modes) (path : FilePath String) :
    Modes × Except SetError (Option (FilePath String)) :=
  if permits modes .symlinkMetadata path = false then (modes, .error ⟨.symlinkMetadata, path⟩)
  else
    match site.locate tree path with
    | none => (modes, .error ⟨.symlinkMetadata, path⟩)
    | some place =>
      if options.excludeSymlinks = true ∧ isLinkAt tree place = true then (modes, .ok none)
      else
        match resolved site tree permits options modes path place with
        | .error e => (modes, .error e)
        | .ok (resolvedPath, attributes) =>
          if permits modes .setMetadata resolvedPath = false then
            (modes, .error ⟨.setMetadata, resolvedPath⟩)
          else
            match site.follow tree resolvedPath with
            | none => (modes, .error ⟨.setMetadata, resolvedPath⟩)
            | some node =>
              (fun loc => if loc = node then newMode permissions (modes attributes) else modes loc,
                .ok (if tree.isDir attributes = true then some resolvedPath else none))

/-- The entries of one directory. -/
def applyEach (dir : FilePath String) :
    List (PathStep String × FileKind String β) → Modes → List (FilePath String) →
      Modes × List (FilePath String)
  | [], modes, dirs => (modes, dirs)
  | (filename, _) :: entries, modes, dirs =>
    if filename = .stay ∨ filename = .up then applyEach dir entries modes dirs
    else
      match applyPermissions site tree permits permissions options modes (dir.step filename) with
      | (modes, .ok (some subDir)) => applyEach dir entries modes (dirs ++ [subDir])
      | (modes, .ok none) => applyEach dir entries modes dirs
      -- the error is logged
      | (modes, .error _) => applyEach dir entries modes dirs

/-- `while let Some(dir) = dirs.pop_front()` -/
def walkDirs : Nat → Modes → List (FilePath String) → Option (Modes × Except SetError Unit)
  | 0, _, _ => none
  | _ + 1, modes, [] => some (modes, .ok ())
  | fuel + 1, modes, dir :: dirs =>
    if permits modes .readDir dir = false then some (modes, .error ⟨.readDir, dir⟩)
    else
      match site.readDir tree dir with
      | none => some (modes, .error ⟨.readDir, dir⟩)
      | some entries =>
        let (modes, dirs) := applyEach site tree permits permissions options dir entries modes dirs
        walkDirs fuel modes dirs

/-- All of `set_permissions`; `none` only if there is too little fuel for the loop. -/
def setPermissions (fuel : Nat) (modes : Modes) (path : FilePath String) :
    Option (Modes × Except SetError Unit) :=
  match applyPermissions site tree permits permissions options modes path with
  | (modes, .error e) => some (modes, .error e)
  | (modes, .ok dir) =>
    if options.recursive = true then
      walkDirs site tree permits permissions options fuel modes dir.toList
    else some (modes, .ok ())

end

/-! ## What is claimed -/

/-- The target of the link at a place leads there, from the directory that holds the link. -/
def LinkLeads {β : Type} (tree : FileTree String β) (place : List String)
    (target : FilePath String) (loc : List String) : Prop :=
  ∃ links, tree.resolve true links place.dropLast target = some loc

/-- The node of the path, those below it, and where links lead to, if they are followed. -/
inductive Reached {β : Type} (site : Site) (tree : FileTree String β) (path : FilePath String)
    (follows : Bool) : List String → Prop
  | here {place : List String} : site.locate tree path = some place →
      Reached site tree path follows place
  | under {place loc : List String} : Reached site tree path follows place →
      tree.kind place = some .dir → place <+: loc → Reached site tree path follows loc
  | linked {place loc : List String} {target : FilePath String} : follows = true →
      Reached site tree path follows place → tree.kind place = some (.link target) →
      LinkLeads tree place target loc → Reached site tree path follows loc

/-- What may be set: the node of the path, those below it, and where links lead to if they are
followed; and where a link leads that is set itself, unless links are excluded. -/
def OnTarget {β : Type} (site : Site) (tree : FileTree String β) (options : SetPermissionsOptions)
    (path : FilePath String) (loc : List String) : Prop :=
  Reached site tree path options.traverses loc ∨
    (options.excludeSymlinks = false ∧ ∃ place target,
      Reached site tree path options.traverses place ∧ tree.kind place = some (.link target) ∧
        LinkLeads tree place target loc)

/-- Where the target of a link that is reached leads from the directory where the session starts, it
leads from the directory that holds the link. -/
def AgreesFromHome {β : Type} (site : Site) (tree : FileTree String β) (path : FilePath String) :
    Prop :=
  ∀ place target loc, Reached site tree path true place → tree.kind place = some (.link target) →
    site.follow tree target = some loc → LinkLeads tree place target loc

/-- From a directory one comes to those in it, and to those that links in it lead to. -/
inductive Next {β : Type} (tree : FileTree String β) : List String → List String → Prop
  | sub {dir : List String} {name : String} : tree.kind (dir ++ [name]) = some .dir →
      Next tree dir (dir ++ [name])
  | link {dir loc : List String} {name : String} {target : FilePath String} :
      tree.kind (dir ++ [name]) = some (.link target) →
      LinkLeads tree (dir ++ [name]) target loc → tree.kind loc = some .dir → Next tree dir loc

/-- No directory that is reached leads back to itself through links. -/
def NoLoop {β : Type} (site : Site) (tree : FileTree String β) (path : FilePath String) : Prop :=
  ∀ dir, Reached site tree path true dir → ¬ Relation.TransGen (Next tree) dir dir

section

variable {β : Type} {site : Site} {tree : FileTree String β}
  {permits : Modes → SftpCall → FilePath String → Bool} {permissions : Permissions}
  {options : SetPermissionsOptions} {modes modes' : Modes} {path top : FilePath String}
  {place : List String}

/-! ## One path -/

/-- The node whose mode is set for a path to this place: itself, or where the link there leads, from
the directory where the session starts if it is resolved, and else as the server resolves it. -/
def Sets (site : Site) (tree : FileTree String β) (options : SetPermissionsOptions)
    (path : FilePath String) (place node : List String) : Prop :=
  (isLinkAt tree place = false ∧ node = place) ∨
    ∃ target, tree.kind place = some (.link target) ∧ options.excludeSymlinks = false ∧
      ((options.followSymlinks = true ∧ site.follow tree target = some node) ∨
        (options.followSymlinks = false ∧ site.follow tree path = some node))

/-- The directory that goes into the queue for a path to this place. -/
def Adds (site : Site) (tree : FileTree String β) (options : SetPermissionsOptions)
    (place dir : List String) : Prop :=
  place = dir ∨ ∃ target, tree.kind place = some (.link target) ∧ options.traverses = true ∧
    site.follow tree target = some dir

theorem isLinkAt_iff : isLinkAt tree place = true ↔ ∃ target, tree.kind place = some (.link target) := by
  unfold isLinkAt
  split
  · next target h => simp [h]
  · next h => simpa using h

theorem resolved_spec {resolvedPath : FilePath String} {attributes : List String}
    (hl : site.locate tree path = some place)
    (h : resolved site tree permits options modes path place = .ok (resolvedPath, attributes)) :
    (resolvedPath = path ∧ attributes = place ∧
        (options.followSymlinks = false ∨ isLinkAt tree place = false)) ∨
      (options.followSymlinks = true ∧ tree.kind place = some (.link resolvedPath) ∧
        site.follow tree resolvedPath = some attributes) := by
  unfold resolved at h
  split_ifs at h with hlink hread
  · obtain ⟨hfollow, hlink⟩ := hlink
    obtain ⟨target, hk⟩ := isLinkAt_iff.1 hlink
    have hreadLink : site.readLink tree path = some target := by simp [Site.readLink, hl, hk]
    simp only [hreadLink] at h
    split_ifs at h with hmetadata
    split at h
    · cases h
    · next place' hplace =>
      cases h
      exact .inr ⟨hfollow, hk, hplace⟩
  · cases h
    refine .inl ⟨rfl, rfl, ?_⟩
    rw [not_and_or] at hlink
    simpa using hlink

/-- The node whose mode is set, and what the path adds to the queue if its attributes are those of a
directory. -/
theorem applied_spec {resolvedPath : FilePath String} {attributes node : List String}
    (hl : site.locate tree path = some place)
    (hexclude : ¬ (options.excludeSymlinks = true ∧ isLinkAt tree place = true))
    (hresolved : (resolvedPath = path ∧ attributes = place ∧
        (options.followSymlinks = false ∨ isLinkAt tree place = false)) ∨
      (options.followSymlinks = true ∧ tree.kind place = some (.link resolvedPath) ∧
        site.follow tree resolvedPath = some attributes))
    (hnode : site.follow tree resolvedPath = some node) :
    Sets site tree options path place node ∧
      (tree.kind attributes = some .dir →
        node = attributes ∧ Adds site tree options place attributes) := by
  obtain ⟨rfl, rfl, hnot⟩ | ⟨hfollow, hk, hplace⟩ := hresolved
  · by_cases hlink : isLinkAt tree attributes = true
    · -- the server resolves the link
      obtain ⟨target, hk⟩ := isLinkAt_iff.1 hlink
      refine ⟨.inr ⟨target, hk, by simpa [hlink] using hexclude, .inr ⟨?_, hnode⟩⟩, fun hdir => ?_⟩
      · exact hnot.resolve_right (by simp [hlink])
      · rw [hk] at hdir
        cases hdir
    · obtain ⟨kind, hk⟩ := Option.ne_none_iff_exists'.1 (FileTree.kind_of_resolve hl)
      have hkind : kind.isLink = false := by
        cases kind with
        | link target => exact absurd (isLinkAt_iff.2 ⟨target, hk⟩) hlink
        | dir => rfl
        | file content => rfl
      have heq : site.follow tree resolvedPath = some attributes :=
        FileTree.resolve_followed hl hk hkind
      rw [hnode] at heq
      cases heq
      exact ⟨.inl ⟨by simpa using hlink, rfl⟩, fun _ => ⟨rfl, .inl rfl⟩⟩
  · rw [hplace] at hnode
    cases hnode
    have hexcluded : options.excludeSymlinks = false := by
      simpa [isLinkAt_iff.2 ⟨_, hk⟩] using hexclude
    refine ⟨.inr ⟨resolvedPath, hk, hexcluded, .inl ⟨hfollow, hplace⟩⟩, fun _ => ⟨rfl, .inr ?_⟩⟩
    exact ⟨resolvedPath, hk, by simp [SetPermissionsOptions.traverses, hfollow, hexcluded], hplace⟩

/-- What one call does: it sets at most one mode, and gives a path that leads to a directory, if
any. -/
theorem applyPermissions_spec {result : Except SetError (Option (FilePath String))}
    (h : applyPermissions site tree permits permissions options modes path = (modes', result)) :
    (∀ loc, modes' loc ≠ modes loc →
        ∃ place, site.locate tree path = some place ∧ Sets site tree options path place loc) ∧
      ∀ dir, result = .ok (some dir) →
        ∃ place loc, site.locate tree path = some place ∧ site.follow tree dir = some loc ∧
          tree.kind loc = some .dir ∧ Adds site tree options place loc := by
  unfold applyPermissions at h
  split_ifs at h with hlstat
  · cases h
    exact ⟨fun loc hne => absurd rfl hne, nofun⟩
  cases hl : site.locate tree path with
  | none =>
    simp only [hl] at h
    cases h
    exact ⟨fun loc hne => absurd rfl hne, nofun⟩
  | some place =>
    simp only [hl] at h
    split_ifs at h with hexclude
    · cases h
      exact ⟨fun loc hne => absurd rfl hne, nofun⟩
    cases hresolved : resolved site tree permits options modes path place with
    | error e =>
      simp only [hresolved] at h
      cases h
      exact ⟨fun loc hne => absurd rfl hne, nofun⟩
    | ok found =>
      obtain ⟨resolvedPath, attributes⟩ := found
      simp only [hresolved] at h
      by_cases hset : permits modes .setMetadata resolvedPath = false
      · rw [if_pos hset] at h
        cases h
        exact ⟨fun loc hne => absurd rfl hne, nofun⟩
      rw [if_neg hset] at h
      cases hnode : site.follow tree resolvedPath with
      | none =>
        simp only [hnode] at h
        cases h
        exact ⟨fun loc hne => absurd rfl hne, nofun⟩
      | some node =>
        simp only [hnode] at h
        cases h
        have hspec := applied_spec hl hexclude (resolved_spec hl hresolved) hnode
        refine ⟨fun loc hne => ⟨place, rfl, ?_⟩, fun dir hdir => ?_⟩
        · obtain rfl : loc = node := by
            by_contra hother
            exact hne (if_neg hother)
          exact hspec.1
        · simp only [Except.ok.injEq] at hdir
          split_ifs at hdir with hisDir
          cases hdir
          obtain ⟨rfl, hadds⟩ := hspec.2 (FileTree.isDir_iff.1 hisDir)
          exact ⟨place, node, rfl, hnode, FileTree.isDir_iff.1 hisDir, hadds⟩

/-! ## What is reached -/

theorem start_not_link {place : List String} (h : site.locate tree path = some place)
    (target : FilePath String) :
    tree.kind (FileTree.start site.home path) ≠ some (.link target) := by
  obtain ⟨hne, hleads⟩ := FileTree.resolve_iff.1 h
  by_cases hsteps : path.steps = []
  · have habsolute : path.absolute = true := by simpa [FilePath.isEmpty, hsteps] using hne
    simp [FileTree.start, habsolute]
  · rw [hleads.start_kind hsteps]
    simp

theorem linkLeads_of_follow {target : FilePath String} {loc : List String}
    (hl : site.locate tree path = some place) (hk : tree.kind place = some (.link target))
    (hf : site.follow tree path = some loc) : LinkLeads tree place target loc := by
  obtain ⟨hne, links, hleads⟩ := (FileTree.resolve_iff.1 hl).2.referent
    (FileTree.resolve_iff.1 hf).2 hk (start_not_link hl)
  exact ⟨links, FileTree.resolve_iff.2 ⟨hne, hleads⟩⟩

theorem onTarget_of_sets {loc : List String}
    (hagree : options.traverses = true → AgreesFromHome site tree top)
    (hr : Reached site tree top options.traverses place)
    (hl : site.locate tree path = some place) (hs : Sets site tree options path place loc) :
    OnTarget site tree options top loc := by
  obtain ⟨-, rfl⟩ | ⟨target, hk, hexclude, ⟨hfollow, hplace⟩ | ⟨-, hplace⟩⟩ := hs
  · exact .inl hr
  · have htraverses : options.traverses = true := by
      simp [SetPermissionsOptions.traverses, hfollow, hexclude]
    exact .inl (.linked htraverses hr hk (hagree htraverses _ _ _ (htraverses ▸ hr) hk hplace))
  · exact .inr ⟨hexclude, place, target, hr, hk, linkLeads_of_follow hl hk hplace⟩

theorem reached_of_adds {dir : List String}
    (hagree : options.traverses = true → AgreesFromHome site tree top)
    (hr : Reached site tree top options.traverses place) (ha : Adds site tree options place dir) :
    Reached site tree top options.traverses dir := by
  obtain rfl | ⟨target, hk, htraverses, hplace⟩ := ha
  · exact hr
  · exact .linked htraverses hr hk (hagree htraverses _ _ _ (htraverses ▸ hr) hk hplace)

/-! ## One directory -/

/-- The directory that an entry adds to the queue, if nothing fails. -/
def childDir (site : Site) (tree : FileTree String β) (traverses : Bool) (dir : List String) :
    PathStep String × FileKind String β → Option (List String)
  | (.name name, .dir) => some (dir ++ [name])
  | (.name _, .link target) =>
    if traverses = true then
      (site.follow tree target).bind fun loc => if tree.isDir loc = true then some loc else none
    else none
  | _ => none

def nextDirs (site : Site) (tree : FileTree String β) (traverses : Bool) (dir : List String) :
    List (List String) :=
  (tree.entries dir).filterMap fun entry => childDir site tree traverses dir (.name entry.1, entry.2)

theorem childDir_of_adds {dir loc : List String} {name : String} {kind : FileKind String β}
    (hk : tree.kind (dir ++ [name]) = some kind) (hd : tree.kind loc = some .dir)
    (ha : Adds site tree options (dir ++ [name]) loc) :
    childDir site tree options.traverses dir (.name name, kind) = some loc := by
  obtain rfl | ⟨target, hk', htraverses, hplace⟩ := ha
  · rw [hk] at hd
    cases hd
    rfl
  · rw [hk] at hk'
    cases hk'
    simp [childDir, htraverses, hplace, FileTree.isDir_iff.2 hd]

/-- A path in the queue leads to a directory. -/
def LeadsTo (site : Site) (tree : FileTree String β) (path : FilePath String) (loc : List String) :
    Prop :=
  site.follow tree path = some loc ∧ tree.kind loc = some .dir

/-- What the server lists of a directory. -/
def listed (tree : FileTree String β) (loc : List String) :
    List (PathStep String × FileKind String β) :=
  [(.stay, .dir), (.up, .dir)] ++ (tree.entries loc).map fun entry => (.name entry.1, entry.2)

theorem readDir_eq {dir : FilePath String} {loc : List String} (h : LeadsTo site tree dir loc) :
    site.readDir tree dir = some (listed tree loc) := by
  simp [Site.readDir, listed, h.1, FileTree.isDir_iff.2 h.2]

theorem kind_of_mem_listed {loc : List String} {name : String} {kind : FileKind String β}
    (h : (.name name, kind) ∈ listed tree loc) : tree.kind (loc ++ [name]) = some kind := by
  rw [← FileTree.mem_entries]
  simpa [listed] using h

theorem filterMap_listed (traverses : Bool) (loc : List String) :
    (listed tree loc).filterMap (childDir site tree traverses loc) =
      nextDirs site tree traverses loc := by
  rw [listed, List.filterMap_append, List.filterMap_map]
  rfl

/-- The entries of a directory that is reached set what is on target, and add some of the directories
that one comes to from it. -/
theorem applyEach_spec {dir : FilePath String} {loc : List String}
    (hagree : options.traverses = true → AgreesFromHome site tree top)
    (hr : Reached site tree top options.traverses loc) (hdir : LeadsTo site tree dir loc)
    (entries : List (PathStep String × FileKind String β))
    (hentries : ∀ name kind, (.name name, kind) ∈ entries → tree.kind (loc ++ [name]) = some kind)
    (modes : Modes) (dirs : List (FilePath String)) :
    (∀ other, (applyEach site tree permits permissions options dir entries modes dirs).1 other ≠
        modes other → OnTarget site tree options top other) ∧
      ∃ subs locs,
        (applyEach site tree permits permissions options dir entries modes dirs).2 = dirs ++ subs ∧
          List.Forall₂ (LeadsTo site tree) subs locs ∧
          locs.Sublist (entries.filterMap (childDir site tree options.traverses loc)) ∧
          ∀ sub ∈ locs, Reached site tree top options.traverses sub := by
  induction entries generalizing modes dirs with
  | nil => exact ⟨fun other hne => absurd rfl hne, [], [], by simp [applyEach], .nil, by simp, nofun⟩
  | cons entry entries ih =>
    obtain ⟨filename, kind⟩ := entry
    have ih := ih fun name kind hmem => hentries name kind (List.mem_cons_of_mem _ hmem)
    have hrest : (entries.filterMap (childDir site tree options.traverses loc)).Sublist
        (((filename, kind) :: entries).filterMap (childDir site tree options.traverses loc)) :=
      (List.sublist_cons_self _ _).filterMap _
    by_cases hdots : filename = .stay ∨ filename = .up
    · obtain ⟨hsets, subs, locs, hdirs, hleads, hsub, hreached⟩ := ih modes dirs
      simp only [applyEach, if_pos hdots]
      exact ⟨hsets, subs, locs, hdirs, hleads, hsub.trans hrest, hreached⟩
    obtain ⟨name, rfl⟩ : ∃ name, filename = .name name := by
      cases filename with
      | stay => simp at hdots
      | up => simp at hdots
      | name name => exact ⟨name, rfl⟩
    have hk := hentries name kind List.mem_cons_self
    have hl : site.locate tree (dir.step (.name name)) = some (loc ++ [name]) :=
      FileTree.resolve_step hdir.1 hk (.inl rfl)
    have hr' : Reached site tree top options.traverses (loc ++ [name]) :=
      .under hr hdir.2 (List.prefix_append _ _)
    rcases happly : applyPermissions site tree permits permissions options modes
      (dir.step (.name name)) with ⟨modes₁, result⟩
    obtain ⟨hset, hadds⟩ := applyPermissions_spec happly
    -- what is set by this entry, and what is set by the others
    have hboth : ∀ {modes' : Modes}, (∀ other, modes' other ≠ modes₁ other →
        OnTarget site tree options top other) →
        ∀ other, modes' other ≠ modes other → OnTarget site tree options top other := by
      intro modes' hothers other hne
      by_cases hsame : modes₁ other = modes other
      · exact hothers other (hsame ▸ hne)
      · obtain ⟨place, hplace, hsets⟩ := hset other hsame
        rw [hl] at hplace
        cases hplace
        exact onTarget_of_sets hagree hr' hl hsets
    simp only [applyEach, if_neg hdots, happly]
    cases result with
    | error e =>
      obtain ⟨hsets, subs, locs, hdirs, hleads, hsub, hreached⟩ := ih modes₁ dirs
      exact ⟨hboth hsets, subs, locs, hdirs, hleads, hsub.trans hrest, hreached⟩
    | ok subDir =>
      cases subDir with
      | none =>
        obtain ⟨hsets, subs, locs, hdirs, hleads, hsub, hreached⟩ := ih modes₁ dirs
        exact ⟨hboth hsets, subs, locs, hdirs, hleads, hsub.trans hrest, hreached⟩
      | some subDir =>
        obtain ⟨hsets, subs, locs, hdirs, hleads, hsub, hreached⟩ := ih modes₁ (dirs ++ [subDir])
        obtain ⟨place, sub, hplace, hfollow, hsubDir, hadd⟩ := hadds subDir rfl
        rw [hl] at hplace
        cases hplace
        refine ⟨hboth hsets, subDir :: subs, sub :: locs, ?_, .cons ⟨hfollow, hsubDir⟩ hleads, ?_, ?_⟩
        · rw [hdirs, List.append_assoc]
          rfl
        · rw [List.filterMap_cons_some (childDir_of_adds hk hsubDir hadd)]
          exact hsub.cons_cons sub
        · intro other hother
          rcases List.mem_cons.1 hother with rfl | hother
          · exact reached_of_adds hagree hr' hadd
          · exact hreached other hother

/-! ## The loop -/

/-- Whatever is set in the loop is on target, and it ends when its fuel is more than what the
directories in the queue weigh. -/
theorem walkDirs_spec (permits : Modes → SftpCall → FilePath String → Bool)
    (permissions : Permissions) {weight : List String → Nat}
    (hagree : options.traverses = true → AgreesFromHome site tree top)
    (hweight : ∀ dir, Reached site tree top options.traverses dir → tree.kind dir = some .dir →
      ((nextDirs site tree options.traverses dir).map weight).sum < weight dir)
    {fuel : Nat} {dirs : List (FilePath String)} {locs : List (List String)}
    (hleads : List.Forall₂ (LeadsTo site tree) dirs locs)
    (hreached : ∀ loc ∈ locs, Reached site tree top options.traverses loc)
    (hfuel : (locs.map weight).sum < fuel) (modes : Modes) :
    ∃ modes' result, walkDirs site tree permits permissions options fuel modes dirs =
        some (modes', result) ∧
      ∀ loc, modes' loc ≠ modes loc → OnTarget site tree options top loc := by
  induction fuel generalizing dirs locs modes with
  | zero => exact absurd hfuel (Nat.not_lt_zero _)
  | succ fuel ih =>
    cases hleads with
    | nil => exact ⟨modes, .ok (), rfl, fun loc hne => absurd rfl hne⟩
    | @cons dir loc dirs locs hdir hleads =>
      unfold walkDirs
      split_ifs with hread
      · exact ⟨modes, _, rfl, fun loc hne => absurd rfl hne⟩
      have hr := hreached loc List.mem_cons_self
      obtain ⟨hsets, subs, sublocs, hdirs, hsubs, hsublist, hsubreached⟩ :=
        @applyEach_spec β site tree permits permissions options top dir loc hagree hr hdir
          (listed tree loc) (fun _ _ => kind_of_mem_listed) modes dirs
      rw [filterMap_listed] at hsublist
      simp only [readDir_eq hdir]
      -- the directory weighed more than what it has added
      have hsum : ((locs ++ sublocs).map weight).sum < fuel := by
        have hadded := (hsublist.map weight).sum_le_sum fun _ _ => Nat.zero_le _
        have hweigh := hweight loc hr hdir.2
        rw [List.map_cons, List.sum_cons] at hfuel
        rw [List.map_append, List.sum_append]
        omega
      rw [hdirs]
      obtain ⟨modes', result, hwalk, hothers⟩ := ih (List.rel_append hleads hsubs) (by
        intro other hother
        rcases List.mem_append.1 hother with hother | hother
        · exact hreached other (List.mem_cons_of_mem _ hother)
        · exact hsubreached other hother) hsum
        (applyEach site tree permits permissions options dir (listed tree loc) modes dirs).1
      refine ⟨modes', result, hwalk, fun other hne => ?_⟩
      by_cases hsame : (applyEach site tree permits permissions options dir (listed tree loc) modes
          dirs).1 other = modes other
      · exact hothers other (hsame ▸ hne)
      · exact hsets other hsame

/-! ## Why the loop ends -/

theorem mem_nextDirs {traverses : Bool} {dir loc : List String}
    (h : loc ∈ nextDirs site tree traverses dir) :
    tree.kind loc = some .dir ∧ ((∃ name, loc = dir ++ [name]) ∨
      (traverses = true ∧ ∃ name target, tree.kind (dir ++ [name]) = some (.link target) ∧
        site.follow tree target = some loc)) := by
  obtain ⟨⟨name, kind⟩, hmem, hchild⟩ := List.mem_filterMap.1 h
  have hk := FileTree.mem_entries.1 hmem
  cases kind with
  | dir =>
    cases hchild
    exact ⟨hk, .inl ⟨name, rfl⟩⟩
  | file content => cases hchild
  | link target =>
    simp only [childDir] at hchild
    split_ifs at hchild with htraverses
    obtain ⟨place, hplace, hdir⟩ := Option.bind_eq_some_iff.1 hchild
    split_ifs at hdir with hisDir
    cases hdir
    exact ⟨FileTree.isDir_iff.1 hisDir, .inr ⟨htraverses, name, target, hk, hplace⟩⟩

theorem finite_places (tree : FileTree String β) : {loc | tree.kind loc ≠ none}.Finite := by
  refine (List.finite_toSet ([] :: tree.nodes.map (·.1))).subset fun loc hloc => ?_
  obtain ⟨kind, hk⟩ := Option.ne_none_iff_exists'.1 hloc
  by_cases hne : loc = []
  · exact hne ▸ List.mem_cons_self
  · exact List.mem_cons_of_mem _ (List.mem_map.2 ⟨_, FileTree.mem_nodes_of_kind hk hne, rfl⟩)

/-- One step of the walk stays in what is reached, and is a step in the tree. -/
theorem next_of_mem {dir loc : List String}
    (hagree : options.traverses = true → AgreesFromHome site tree top)
    (hr : Reached site tree top options.traverses dir) (hdir : tree.kind dir = some .dir)
    (h : loc ∈ nextDirs site tree options.traverses dir) :
    Reached site tree top options.traverses loc ∧ tree.kind loc = some .dir ∧ Next tree dir loc := by
  obtain ⟨hloc, ⟨name, rfl⟩ | ⟨htraverses, name, target, hk, hplace⟩⟩ := mem_nextDirs h
  · exact ⟨.under hr hdir (List.prefix_append _ _), hloc, .sub hloc⟩
  · have hlink : Reached site tree top options.traverses (dir ++ [name]) :=
      .under hr hdir (List.prefix_append _ _)
    have hleads := hagree htraverses _ _ _ (htraverses ▸ hlink) hk hplace
    exact ⟨.linked htraverses hlink hk hleads, hloc, .link hk hleads hloc⟩

/-- Without links one only comes to longer locations. -/
theorem length_lt_of_mem {traverses : Bool} {dir loc : List String} (hnot : traverses = false)
    (h : loc ∈ nextDirs site tree traverses dir) : dir.length < loc.length := by
  obtain ⟨-, ⟨name, rfl⟩ | ⟨htraverses, -⟩⟩ := mem_nextDirs h
  · simp
  · rw [hnot] at htraverses
    cases htraverses

theorem acc_nextDirs {dir : List String}
    (hagree : options.traverses = true → AgreesFromHome site tree top)
    (hloop : options.traverses = true → NoLoop site tree top)
    (hr : Reached site tree top options.traverses dir) (hdir : tree.kind dir = some .dir) :
    Acc (fun b a => b ∈ nextDirs site tree options.traverses a) dir := by
  let places := {loc | Reached site tree top options.traverses loc ∧ tree.kind loc = some .dir}
  have hfinite : places.Finite :=
    (finite_places tree).subset fun loc hloc => by simp [hloc.2]
  refine Worklist.acc_of_no_loop (s := places)
    (r := fun a b => b ∈ nextDirs site tree options.traverses a) hfinite ?_ ?_ ⟨hr, hdir⟩
  · intro loc hloc next hnext
    have hstep := next_of_mem hagree hloc.1 hloc.2 hnext
    exact ⟨hstep.1, hstep.2.1⟩
  · intro loc hloc hcycle
    cases htraverses : options.traverses with
    | false =>
      have hlength : ∀ next, Relation.TransGen
          (fun a b => b ∈ nextDirs site tree options.traverses a) loc next →
          loc.length < next.length := by
        intro next hchain
        induction hchain with
        | single hstep => exact length_lt_of_mem htraverses hstep
        | tail _ hstep ih => exact ih.trans (length_lt_of_mem htraverses hstep)
      exact absurd (hlength loc hcycle) (Nat.lt_irrefl _)
    | true =>
      have hchain : ∀ next, Relation.TransGen
          (fun a b => b ∈ nextDirs site tree options.traverses a) loc next →
          next ∈ places ∧ Relation.TransGen (Next tree) loc next := by
        intro next hchain
        induction hchain with
        | single hstep =>
          obtain ⟨hr', hd', hnext⟩ := next_of_mem hagree hloc.1 hloc.2 hstep
          exact ⟨⟨hr', hd'⟩, .single hnext⟩
        | tail _ hstep ih =>
          obtain ⟨hr', hd', hnext⟩ := next_of_mem hagree ih.1.1 ih.1.2 hstep
          exact ⟨⟨hr', hd'⟩, ih.2.tail hnext⟩
      exact hloop htraverses loc (htraverses ▸ hloc.1) (hchain loc hcycle).2

end

/-- Whatever the server permits, the call comes to an end and what it sets is on target: with links
that are traversed, if their targets lead from the start to where they lead from their directories,
and if none of them leads back. -/
theorem ends_on_target {β : Type} (site : Site) (tree : FileTree String β)
    (permits : Modes → SftpCall → FilePath String → Bool) (permissions : Permissions)
    (options : SetPermissionsOptions) (modes : Modes) (path : FilePath String)
    (hagree : options.traverses = true → AgreesFromHome site tree path)
    (hloop : options.recursive = true → options.traverses = true → NoLoop site tree path) :
    ∃ enough, ∀ fuel, enough ≤ fuel → ∃ modes' result,
      setPermissions site tree permits permissions options fuel modes path = some (modes', result) ∧
        ∀ loc, modes' loc ≠ modes loc → OnTarget site tree options path loc := by
  obtain ⟨weight, hweight⟩ := Worklist.exists_weight (nextDirs site tree options.traverses)
  rcases happly : applyPermissions site tree permits permissions options modes path with
    ⟨modes₁, result⟩
  obtain ⟨hset, hadds⟩ := applyPermissions_spec happly
  have hfirst : ∀ loc, modes₁ loc ≠ modes loc → OnTarget site tree options path loc := by
    intro loc hne
    obtain ⟨place, hplace, hsets⟩ := hset loc hne
    exact onTarget_of_sets hagree (.here hplace) hplace hsets
  cases result with
  | error e => exact ⟨0, fun fuel _ => ⟨modes₁, .error e, by simp [setPermissions, happly], hfirst⟩⟩
  | ok dir =>
    by_cases hrecursive : options.recursive = true
    · have hqueue : ∃ locs, List.Forall₂ (LeadsTo site tree) dir.toList locs ∧
          ∀ loc ∈ locs, Reached site tree path options.traverses loc := by
        cases dir with
        | none => exact ⟨[], .nil, nofun⟩
        | some dir =>
          obtain ⟨place, loc, hplace, hfollow, hdir, hadd⟩ := hadds dir rfl
          refine ⟨[loc], .cons ⟨hfollow, hdir⟩ .nil, fun other hother => ?_⟩
          rw [List.mem_singleton.1 hother]
          exact reached_of_adds hagree (.here hplace) hadd
      obtain ⟨locs, hleads, hreached⟩ := hqueue
      refine ⟨(locs.map weight).sum + 1, fun fuel hfuel => ?_⟩
      obtain ⟨modes', result, hwalk, hothers⟩ := walkDirs_spec permits
        permissions hagree (fun dir hr hdir =>
          hweight dir (acc_nextDirs hagree (hloop hrecursive) hr hdir)) hleads hreached hfuel modes₁
      refine ⟨modes', result, by simpa [setPermissions, happly, hrecursive] using hwalk,
        fun loc hne => ?_⟩
      by_cases hsame : modes₁ loc = modes loc
      · exact hothers loc (hsame ▸ hne)
      · exact hfirst loc hsame
    · exact ⟨0, fun fuel _ => ⟨modes₁, .ok (), by simp [setPermissions, happly, hrecursive], hfirst⟩⟩

/-! ## Trees with a link -/

theorem agreesFromHome_of_absolute {β : Type} {site : Site} {tree : FileTree String β}
    (h : ∀ place target, tree.kind place = some (.link target) → target.absolute = true)
    (path : FilePath String) : AgreesFromHome site tree path := by
  intro place target loc _ hk hf
  obtain ⟨hne, hleads⟩ := FileTree.resolve_iff.1 hf
  refine ⟨site.links, FileTree.resolve_iff.2 ⟨hne, ?_⟩⟩
  simpa [FileTree.start, h place target hk] using hleads

/-- If no link leads to a directory, one only comes to longer locations. -/
theorem noLoop_of_files {β : Type} {site : Site} {tree : FileTree String β}
    (h : ∀ place target loc, tree.kind place = some (.link target) →
      LinkLeads tree place target loc → tree.kind loc ≠ some .dir)
    (path : FilePath String) : NoLoop site tree path := by
  intro dir _ hcycle
  have hlength : ∀ next, Relation.TransGen (Next tree) dir next → dir.length < next.length := by
    have hstep : ∀ a b, Next tree a b → a.length < b.length := by
      intro a b hnext
      cases hnext with
      | sub hdir => simp
      | link hk hleads hdir => exact absurd hdir (h _ _ _ hk hleads)
    intro next hchain
    induction hchain with
    | single hnext => exact hstep _ _ hnext
    | tail _ hnext ih => exact ih.trans (hstep _ _ hnext)
  exact absurd (hlength dir hcycle) (Nat.lt_irrefl _)

/-- The server runs in `/home`, where there is a directory with a link in it. -/
def linkedTree (target : FilePath String) : FileTree String Unit where
  nodes := [(["f"], .file ()), (["x"], .dir), (["home"], .dir), (["home", "d"], .dir),
    (["home", "d", "l"], .link target), (["home", "d", "x"], .file ()), (["home", "x"], .file ())]
  distinct := by simp
  nonempty := by simp
  closed := by simp

def homeSite : Site := ⟨["home"], 8⟩

/-- `o+w` -/
def otherWrite : Permissions := ⟨none, none, none, none, none, none, none, some true, none⟩

/-- `rwxr-xr-x` everywhere -/
def plainModes : Modes := fun _ => 0o755

theorem ends_on_target_file :
    ∃ enough, ∀ fuel, enough ≤ fuel → ∃ modes' result,
      setPermissions homeSite (linkedTree ⟨true, [.name "f"]⟩) (fun _ _ _ => true) otherWrite
          ⟨false, true, true⟩ fuel plainModes ⟨false, [.name "d"]⟩ = some (modes', result) ∧
        ∀ loc, modes' loc ≠ plainModes loc → OnTarget homeSite (linkedTree ⟨true, [.name "f"]⟩)
          ⟨false, true, true⟩ ⟨false, [.name "d"]⟩ loc := by
  have hlink : ∀ place target, (linkedTree ⟨true, [.name "f"]⟩).kind place = some (.link target) →
      target = ⟨true, [.name "f"]⟩ := by
    intro place target hk
    by_cases hne : place = []
    · subst hne
      cases hk
    · have hmem := FileTree.mem_nodes_of_kind hk hne
      have hboth : place = ["home", "d", "l"] ∧ target = ⟨true, [.name "f"]⟩ := by
        simpa [linkedTree] using hmem
      exact hboth.2
  refine ends_on_target homeSite (linkedTree ⟨true, [.name "f"]⟩) (fun _ _ _ => true) otherWrite
    ⟨false, true, true⟩ plainModes ⟨false, [.name "d"]⟩ (fun _ => ?_) (fun _ _ => ?_)
  · refine agreesFromHome_of_absolute (fun place target hk => ?_) _
    rw [hlink place target hk]
  · refine noLoop_of_files (fun place target loc hk hleads hdir => ?_) _
    obtain rfl := hlink place target hk
    obtain ⟨links, hleads⟩ := hleads
    obtain ⟨-, hleads⟩ := FileTree.resolve_iff.1 hleads
    have hfile : (linkedTree ⟨true, [.name "f"]⟩).kind ["f"] = some (.file ()) := by decide
    cases hleads with
    | name hk' _ hrest =>
      cases hrest with
      | nil => exact absurd (hfile.symm.trans hdir) (by simp)
    | last hf => cases hf
    | jump hk' => exact absurd (hfile.symm.trans hk') (by simp)

/-- It ends, and what it sets is the node of the path, below it, or where links lead to if they are to
be followed. -/
def EndsOnReached {β : Type} (site : Site) (tree : FileTree String β)
    (permits : Modes → SftpCall → FilePath String → Bool) (permissions : Permissions)
    (options : SetPermissionsOptions) (modes : Modes) (path : FilePath String) : Prop :=
  ∃ fuel modes' result,
    setPermissions site tree permits permissions options fuel modes path = some (modes', result) ∧
      ∀ loc, modes' loc ≠ modes loc → Reached site tree path options.followSymlinks loc

/-- With a link that is not to be followed nothing else is reached. -/
theorem prefix_of_reached {loc : List String} {target : FilePath String}
    (h : Reached homeSite (linkedTree target) ⟨false, [.name "d", .name "l"]⟩ false loc) :
    ["home", "d", "l"] <+: loc := by
  induction h with
  | here hplace =>
    have hlocate : homeSite.locate (linkedTree target) ⟨false, [.name "d", .name "l"]⟩ =
        some ["home", "d", "l"] := rfl
    rw [hlocate] at hplace
    cases hplace
    exact List.prefix_rfl
  | under _ _ habove ih => exact ih.trans habove
  | linked hfollows => cases hfollows

/-- A relative target leads to what is next to the link. -/
theorem eq_of_reached {loc : List String}
    (h : Reached homeSite (linkedTree ⟨false, [.name "x"]⟩) ⟨false, [.name "d", .name "l"]⟩ true
      loc) :
    loc = ["home", "d", "l"] ∨ loc = ["home", "d", "x"] := by
  induction h with
  | here hplace =>
    have hlocate : homeSite.locate (linkedTree ⟨false, [.name "x"]⟩)
        ⟨false, [.name "d", .name "l"]⟩ = some ["home", "d", "l"] := rfl
    rw [hlocate] at hplace
    cases hplace
    exact .inl rfl
  | under _ hdir _ ih =>
    obtain rfl | rfl := ih
    · cases hdir
    · cases hdir
  | linked _ _ hk hleads ih =>
    obtain rfl | rfl := ih
    · cases hk
      obtain ⟨links, hleads⟩ := hleads
      obtain ⟨-, hleads⟩ := FileTree.resolve_iff.1 hleads
      have hfile : (linkedTree ⟨false, [.name "x"]⟩).kind ["home", "d", "x"] = some (.file ()) := rfl
      cases hleads with
      | name hk' _ hrest =>
        cases hrest with
        | nil => exact .inr rfl
      | last hf => cases hf
      | jump hk' => exact absurd (hfile.symm.trans hk') (by simp)
    · cases hk

/-- The directory that the link leads back to is in the queue again and again. -/
theorem walkDirs_loop (fuel : Nat) (modes : Modes) :
    walkDirs homeSite (linkedTree ⟨true, [.name "home", .name "d"]⟩) (fun _ _ _ => true) otherWrite
      ⟨false, true, true⟩ fuel modes [⟨true, [.name "home", .name "d"]⟩] = none := by
  induction fuel generalizing modes with
  | zero => rfl
  | succ fuel ih => exact ih _

theorem setPermissions_loop (fuel : Nat) :
    setPermissions homeSite (linkedTree ⟨true, [.name "home", .name "d"]⟩) (fun _ _ _ => true)
      otherWrite ⟨false, true, true⟩ fuel plainModes ⟨true, [.name "home", .name "d"]⟩ = none := by
  have hqueued : ∃ modes', setPermissions homeSite (linkedTree ⟨true, [.name "home", .name "d"]⟩)
      (fun _ _ _ => true) otherWrite ⟨false, true, true⟩ fuel plainModes
      ⟨true, [.name "home", .name "d"]⟩ =
        walkDirs homeSite (linkedTree ⟨true, [.name "home", .name "d"]⟩) (fun _ _ _ => true)
          otherWrite ⟨false, true, true⟩ fuel modes' [⟨true, [.name "home", .name "d"]⟩] :=
    ⟨_, rfl⟩
  obtain ⟨modes', hqueued⟩ := hqueued
  rw [hqueued, walkDirs_loop]

/-- A link that is not to be followed is set, and the server resolves it. If it is followed, its
target is taken from the home directory, and one that leads back is followed for ever. -/
theorem not_endsOnReached :
    ¬ EndsOnReached homeSite (linkedTree ⟨true, [.name "x"]⟩) (fun _ _ _ => true) otherWrite
        ⟨false, false, false⟩ plainModes ⟨false, [.name "d", .name "l"]⟩ ∧
      ¬ EndsOnReached homeSite (linkedTree ⟨false, [.name "x"]⟩) (fun _ _ _ => true) otherWrite
        ⟨false, true, false⟩ plainModes ⟨false, [.name "d", .name "l"]⟩ ∧
      ¬ EndsOnReached homeSite (linkedTree ⟨true, [.name "home", .name "d"]⟩) (fun _ _ _ => true)
        otherWrite ⟨false, true, true⟩ plainModes ⟨true, [.name "home", .name "d"]⟩ := by
  refine ⟨?_, ?_, ?_⟩
  · rintro ⟨fuel, modes', result, hset, hreached⟩
    have hmode : modes' ["x"] = 0o757 := by
      obtain ⟨rfl, -⟩ := Prod.mk.inj (Option.some.inj hset)
      decide
    exact absurd (prefix_of_reached (hreached ["x"] (by rw [hmode]; decide))) (by decide)
  · rintro ⟨fuel, modes', result, hset, hreached⟩
    have hmode : modes' ["home", "x"] = 0o757 := by
      obtain ⟨rfl, -⟩ := Prod.mk.inj (Option.some.inj hset)
      decide
    exact absurd (eq_of_reached (hreached ["home", "x"] (by rw [hmode]; decide))) (by decide)
  · rintro ⟨fuel, modes', result, hset, -⟩
    rw [setPermissions_loop fuel] at hset
    cases hset

end SshPermissions

end Distant
