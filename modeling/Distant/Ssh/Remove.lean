import Distant.Ssh.Sftp

/-!
# Removing files over SSH

`remove` asks the SFTP server for the metadata of the path, which follows links, and takes a
directory apart by itself: it lists one directory after the other from a stack, removes what is not
a directory at once, and all directories at the end, the last one first.

A path that is a link to a directory is listed through the link. `removals_contained_iff` says which forced
removals stay below their path, on the host and over SSH.
-/

namespace Distant

namespace SshRemove

inductive RemoveError where
  | metadata (path : FilePath String)
  | readDir (path : FilePath String)
  | removeFile (path : FilePath String)
  | removeDir (path : FilePath String)
  deriving DecidableEq, Repr

/-- The call to delete something was the one that failed. -/
def RemoveError.isDeletion : RemoveError → Bool
  | removeFile _ => true
  | removeDir _ => true
  | _ => false

section

variable {β : Type} (site : Site)
  (permits : FileTree String β → FilePath String → Bool)

/-- The server removes the file, if it permits that. -/
def removeFile (tree : FileTree String β) (path : FilePath String) : Option (FileTree String β) :=
  (site.locate tree path).bind fun place =>
    if tree.isDir place = false ∧ permits tree path = true then some (tree.erase (· = place))
    else none

def removeDir (tree : FileTree String β) (path : FilePath String) : Option (FileTree String β) :=
  (site.locate tree path).bind fun place =>
    if tree.isDir place = true ∧ tree.entries place = [] ∧ place ≠ [] ∧
        permits tree path = true then
      some (tree.erase (· = place))
    else none

/-- The entries of one directory; the stack has its top first. -/
def eachEntry (dir : FilePath String) :
    List (PathStep String × FileKind String β) → FileTree String β → List (FilePath String) →
      FileTree String β × Except RemoveError (List (FilePath String))
  | [], tree, stack => (tree, .ok stack)
  | (filename, kind) :: entries, tree, stack =>
    if filename = .stay ∨ filename = .up then eachEntry dir entries tree stack
    else if kind.isDir = true then eachEntry dir entries tree (dir.step filename :: stack)
    else
      match removeFile site permits tree (dir.step filename) with
      | none => (tree, .error (.removeFile (dir.step filename)))
      | some tree => eachEntry dir entries tree stack

/-- `while let Some(dir) = stack.pop()`. -/
def walkDirs : Nat → FileTree String β → List (FilePath String) → List (FilePath String) →
    Option (FileTree String β × Except RemoveError (List (FilePath String)))
  | 0, _, _, _ => none
  | _ + 1, tree, [], dirsToRemove => some (tree, .ok dirsToRemove)
  | fuel + 1, tree, dir :: stack, dirsToRemove =>
    match site.readDir tree dir with
    | none => some (tree, .error (.readDir dir))
    | some entries =>
      match eachEntry site permits dir entries tree stack with
      | (tree, .error e) => some (tree, .error e)
      | (tree, .ok stack) => walkDirs fuel tree stack (dirsToRemove ++ [dir])

def removeDirs : List (FilePath String) → FileTree String β →
    FileTree String β × Except RemoveError Unit
  | [], tree => (tree, .ok ())
  | dir :: dirs, tree =>
    match removeDir site permits tree dir with
    | none => (tree, .error (.removeDir dir))
    | some tree => removeDirs dirs tree

/-- All of `remove`; `none` only if there is too little fuel for the loop. -/
def remove (fuel : Nat) (tree : FileTree String β) (path : FilePath String) (force : Bool) :
    Option (FileTree String β × Except RemoveError Unit) :=
  match site.metadata tree path with
  | none => some (tree, .error (.metadata path))
  | some .dir =>
    if force = true then
      match walkDirs site permits fuel tree [path] [] with
      | none => none
      | some (tree, .error e) => some (tree, .error e)
      | some (tree, .ok dirsToRemove) => some (removeDirs site permits dirsToRemove.reverse tree)
    else
      match removeDir site permits tree path with
      | none => some (tree, .error (.removeDir path))
      | some tree => some (tree, .ok ())
  | some _ =>
    match removeFile site permits tree path with
    | none => some (tree, .error (.removeFile path))
    | some tree => some (tree, .ok ())

end

/-- A forced removal, whatever the server permits of it, comes to an end and stays below the path,
and removes it if no call to delete something fails. -/
def IsContained {β : Type} (site : Site) (tree : FileTree String β) (path : FilePath String) :
    Prop :=
  ∀ permits, ∃ enough, ∀ fuel, enough ≤ fuel →
    ∃ tree' result, remove site permits fuel tree path true = some (tree', result) ∧
      site.StaysBelow path tree tree' ∧
      ((∀ e, result = .error e → e.isDeletion = false) → site.IsGone path tree')

/-! ## Which paths are safe to remove -/

/-- The walk over the directories of the stack meets this one first of all that is not a
directory. -/
inductive MeetsFirst {β : Type} (tree : FileTree String β) (leaf : List String) :
    List (List String) → Prop
  | here {dir : List String} {stack : List (List String)} {name : String}
      {kind : FileKind String β} {before after : List (String × FileKind String β)}
      (he : tree.entries dir = before ++ (name, kind) :: after)
      (hb : ∀ entry ∈ before, entry.2.isDir = true) (hk : kind.isDir = false)
      (hl : dir ++ [name] = leaf) :
      MeetsFirst tree leaf (dir :: stack)
  | deeper {dir : List String} {stack : List (List String)}
      (hd : ∀ entry ∈ tree.entries dir, entry.2.isDir = true)
      (h : MeetsFirst tree leaf
        (((tree.entries dir).map fun entry => dir ++ [entry.1]).reverse ++ stack)) :
      MeetsFirst tree leaf (dir :: stack)

/-- If the path is a link, it leads to what is not a directory, or to one that is empty or where
the walk meets the link itself before all other files. -/
def IsRemovable {β : Type} (site : Site) (tree : FileTree String β) (path : FilePath String) :
    Prop :=
  ∀ place target, site.locate tree path = some place →
    tree.kind place = some (.link target) →
    ∃ place', site.follow tree path = some place' ∧
      (tree.isDir place' = true → tree.entries place' = [] ∨ MeetsFirst tree place [place'])

/-! ## What the calls delete -/

section

variable {β : Type} {site : Site} {permits : FileTree String β → FilePath String → Bool}
  {tree tree' : FileTree String β} {path : FilePath String}

/-- A call has deleted one thing, at the place of its path. -/
def Deletes (site : Site) (tree : FileTree String β) (path : FilePath String)
    (tree' : FileTree String β) : Prop :=
  ∃ place, site.locate tree path = some place ∧ place ≠ [] ∧
    (∀ name, tree.kind (place ++ [name]) = none) ∧ tree' = tree.erase (· = place)

theorem deletes_of_removeFile (h : removeFile site permits tree path = some tree') :
    Deletes site tree path tree' ∧
      ∃ place, site.locate tree path = some place ∧ tree.isDir place = false := by
  rw [removeFile, Option.bind_eq_some_iff] at h
  obtain ⟨place, hl, h⟩ := h
  split_ifs at h with hc
  cases h
  refine ⟨⟨place, hl, ?_, FileTree.leaf_of_not_isDir hc.1, rfl⟩, place, hl, hc.1⟩
  rintro rfl
  simp [FileTree.isDir] at hc

theorem deletes_of_removeDir (h : removeDir site permits tree path = some tree') :
    Deletes site tree path tree' := by
  rw [removeDir, Option.bind_eq_some_iff] at h
  obtain ⟨place, hl, h⟩ := h
  split_ifs at h with hc
  cases h
  exact ⟨place, hl, hc.2.2.1, FileTree.leaf_of_entries hc.2.1, rfl⟩

theorem Deletes.sublist (h : Deletes site tree path tree') :
    tree'.nodes.Sublist tree.nodes := by
  obtain ⟨place, -, -, -, rfl⟩ := h
  exact tree.erase_sublist _

theorem Deletes.locate {loc : List String} (h : Deletes site tree path tree')
    (hk : tree.kind loc ≠ none) (he : tree'.kind loc = none) :
    site.locate tree path = some loc := by
  obtain ⟨place, hl, -, hleaf, rfl⟩ := h
  rw [FileTree.eq_of_erase hleaf hk he]
  exact hl

theorem Deletes.isGone (h : Deletes site tree path tree') : site.IsGone path tree' := by
  obtain ⟨place, hl, hne, -, rfl⟩ := h
  exact HostRemove.isGone_erase hl hne (by simp)

theorem locate_of_sublist {loc : List String} (hs : tree'.nodes.Sublist tree.nodes)
    (h : site.locate tree' path = some loc) : site.locate tree path = some loc :=
  FileTree.resolve_within (FileTree.within_of_sublist hs) h

theorem isGone_of_sublist (hs : tree'.nodes.Sublist tree.nodes) (h : site.IsGone path tree) :
    site.IsGone path tree' := by
  unfold Site.IsGone
  cases hl : site.locate tree' path with
  | none => rfl
  | some loc =>
    have hl' := locate_of_sublist hs hl
    rw [h] at hl'
    cases hl'

end

/-! ## What a run deletes -/

section

variable {β : Type} {site : Site} {permits : FileTree String β → FilePath String → Bool}
  {tree₀ tree tree' : FileTree String β} {path dir : FilePath String} {top : List String}

/-- A path of the walk: names below the path itself, which leads to the top. -/
def OnWay (site : Site) (tree₀ : FileTree String β) (path : FilePath String) (top : List String)
    (dir : FilePath String) (names : List String) : Prop :=
  dir = path.below names ∧ site.follow tree₀ dir = some (top ++ names) ∧
    (names ≠ [] → site.locate tree₀ dir = some (top ++ names)) ∧
    tree₀.kind (top ++ names) = some .dir

theorem mem_readDir {entries : List (PathStep String × FileKind String β)} {name : String}
    {kind : FileKind String β} {loc : List String} (hr : site.readDir tree dir = some entries)
    (hl : site.follow tree₀ dir = some loc) (hs : tree.nodes.Sublist tree₀.nodes)
    (hm : (.name name, kind) ∈ entries) : tree.kind (loc ++ [name]) = some kind := by
  rw [Site.readDir, Option.bind_eq_some_iff] at hr
  obtain ⟨place, hf, hr⟩ := hr
  have hw : site.follow tree₀ dir = some place :=
    FileTree.resolve_within (FileTree.within_of_sublist hs) hf
  rw [hl, Option.some.injEq] at hw
  subst hw
  split_ifs at hr
  cases hr
  simpa [FileTree.mem_entries] using hm

theorem OnWay.entry {entries : List (PathStep String × FileKind String β)} {name : String}
    {names : List String} {kind : FileKind String β} (hd : OnWay site tree₀ path top dir names)
    (hs : tree.nodes.Sublist tree₀.nodes) (hr : site.readDir tree dir = some entries)
    (hm : (.name name, kind) ∈ entries) :
    site.locate tree₀ (dir.step (.name name)) = some (top ++ names ++ [name]) ∧
      (kind = .dir → OnWay site tree₀ path top (dir.step (.name name)) (names ++ [name])) := by
  have hk : tree₀.kind (top ++ names ++ [name]) = some kind :=
    FileTree.within_of_sublist hs (mem_readDir hr hd.2.1 hs hm)
  have hl : site.locate tree₀ (dir.step (.name name)) = some (top ++ names ++ [name]) :=
    FileTree.resolve_step hd.2.1 hk (.inl rfl)
  refine ⟨hl, ?_⟩
  rintro rfl
  refine ⟨?_, ?_, fun _ => ?_, by rw [← List.append_assoc]; exact hk⟩
  · rw [hd.1, FilePath.step_below]
  · rw [← List.append_assoc]
    exact FileTree.resolve_step hd.2.1 hk (.inr rfl)
  · rw [← List.append_assoc]
    exact hl

/-- The entries of one directory: only what is no directory is deleted, and all directories are put
on the stack. -/
theorem eachEntry_spec {entries : List (PathStep String × FileKind String β)}
    {stack : List (FilePath String)} {result : Except RemoveError (List (FilePath String))}
    (h : eachEntry site permits dir entries tree stack = (tree', result)) :
    tree'.nodes.Sublist tree.nodes ∧
      (∀ loc, tree.kind loc ≠ none → tree'.kind loc = none → tree.isDir loc = false ∧
        ∃ name kind, (.name name, kind) ∈ entries ∧
          site.locate tree (dir.step (.name name)) = some loc) ∧
      (∀ e, result = .error e → e.isDeletion = true) ∧
      (∀ stack', result = .ok stack' → ∃ names : List String,
        stack' = (names.map fun name => dir.step (.name name)) ++ stack ∧
        (∀ name ∈ names, (.name name, .dir) ∈ entries) ∧ names.length ≤ entries.length) := by
  induction entries generalizing tree stack with
  | nil =>
    cases h
    refine ⟨List.Sublist.refl _, fun loc hk he => absurd he hk, by simp, ?_⟩
    rintro stack' ⟨⟩
    exact ⟨[], rfl, by simp, by simp⟩
  | cons entry entries ih =>
    obtain ⟨filename, kind⟩ := entry
    rw [eachEntry] at h
    split_ifs at h with hf hd
    · obtain ⟨hs, hdel, herr, hok⟩ := ih h
      refine ⟨hs, fun loc hk he => ?_, herr, fun stack' hr => ?_⟩
      · obtain ⟨hn, name, kind, hm, hl⟩ := hdel loc hk he
        exact ⟨hn, name, kind, List.mem_cons_of_mem _ hm, hl⟩
      · obtain ⟨names, he, hm, hlen⟩ := hok stack' hr
        exact ⟨names, he, fun name hn => List.mem_cons_of_mem _ (hm name hn), by simp; omega⟩
    · obtain ⟨name, rfl⟩ : ∃ name, filename = .name name := by
        cases filename with
        | stay => simp at hf
        | up => simp at hf
        | name name => exact ⟨name, rfl⟩
      obtain rfl : kind = .dir := FileKind.isDir_iff.1 hd
      obtain ⟨hs, hdel, herr, hok⟩ := ih h
      refine ⟨hs, fun loc hk he => ?_, herr, fun stack' hr => ?_⟩
      · obtain ⟨hn, name, kind, hm, hl⟩ := hdel loc hk he
        exact ⟨hn, name, kind, List.mem_cons_of_mem _ hm, hl⟩
      · obtain ⟨names, he, hm, hlen⟩ := hok stack' hr
        refine ⟨names ++ [name], ?_, ?_, by simp; omega⟩
        · rw [he, List.map_append, List.append_assoc]
          rfl
        · intro other ho
          rcases List.mem_append.1 ho with ho | ho
          · exact List.mem_cons_of_mem _ (hm other ho)
          · rw [List.mem_singleton] at ho
            subst ho
            exact List.mem_cons_self
    · obtain ⟨name, rfl⟩ : ∃ name, filename = .name name := by
        cases filename with
        | stay => simp at hf
        | up => simp at hf
        | name name => exact ⟨name, rfl⟩
      split at h
      · cases h
        refine ⟨List.Sublist.refl _, fun loc hk he => absurd he hk, ?_, by simp⟩
        rintro e ⟨⟩
        rfl
      · rename_i tree₁ hr
        obtain ⟨hs, hdel, herr, hok⟩ := ih h
        obtain ⟨hdeletes, place, hplace, hdir⟩ := deletes_of_removeFile hr
        refine ⟨hs.trans hdeletes.sublist, fun loc hk he => ?_, herr, fun stack' hr' => ?_⟩
        · by_cases hk₁ : tree₁.kind loc = none
          · have hl := hdeletes.locate hk hk₁
            rw [hplace, Option.some.injEq] at hl
            subst hl
            exact ⟨hdir, name, kind, List.mem_cons_self, hplace⟩
          · obtain ⟨hn, name', kind', hm, hl⟩ := hdel loc hk₁ he
            refine ⟨?_, name', kind', List.mem_cons_of_mem _ hm,
              locate_of_sublist hdeletes.sublist hl⟩
            rw [FileTree.Within.isDir_eq (FileTree.within_of_sublist hdeletes.sublist) hk₁]
            exact hn
        · obtain ⟨names, he, hm, hlen⟩ := hok stack' hr'
          exact ⟨names, he, fun name hn => List.mem_cons_of_mem _ (hm name hn), by simp; omega⟩

/-- The walk: it deletes no directory, and nothing but below the top; without a failure all
directories that it has come by are to be removed. -/
theorem walkDirs_spec {fuel : Nat} {stack dirs : List (FilePath String)}
    {result : Except RemoveError (List (FilePath String))}
    (h : walkDirs site permits fuel tree stack dirs = some (tree', result))
    (hs : tree.nodes.Sublist tree₀.nodes)
    (hstack : ∀ dir ∈ stack, ∃ names, OnWay site tree₀ path top dir names)
    (hdirs : ∀ dir ∈ dirs, ∃ names, OnWay site tree₀ path top dir names) :
    tree'.nodes.Sublist tree.nodes ∧
      (∀ loc, tree.kind loc ≠ none → tree'.kind loc = none →
        tree.isDir loc = false ∧ top <+: loc) ∧
      (∀ dirs', result = .ok dirs' →
        (∀ dir ∈ dirs', ∃ names, OnWay site tree₀ path top dir names) ∧
        (∀ dir ∈ dirs, dir ∈ dirs') ∧ ∀ dir ∈ stack, dir ∈ dirs') ∧
      (∀ e, result = .error e → e.isDeletion = true ∨
        ∃ dir names, OnWay site tree₀ path top dir names ∧ site.readDir tree' dir = none) := by
  induction fuel generalizing tree stack dirs with
  | zero => cases h
  | succ fuel ih =>
    cases stack with
    | nil =>
      cases h
      refine ⟨List.Sublist.refl _, fun loc hk he => absurd he hk, ?_, by simp⟩
      rintro dirs' ⟨⟩
      exact ⟨hdirs, fun dir hd => hd, by simp⟩
    | cons dir stack =>
      obtain ⟨names, hway⟩ := hstack dir List.mem_cons_self
      rw [walkDirs] at h
      split at h
      · rename_i hr
        cases h
        refine ⟨List.Sublist.refl _, fun loc hk he => absurd he hk, by simp, ?_⟩
        rintro e ⟨⟩
        exact .inr ⟨dir, names, hway, hr⟩
      · rename_i entries hr
        split at h
        · rename_i tree₁ e he
          cases h
          obtain ⟨hs₁, hdel, herr, -⟩ := eachEntry_spec he
          refine ⟨hs₁, fun loc hk hgone => ?_, by simp, ?_⟩
          · obtain ⟨hn, name, kind, hm, hl⟩ := hdel loc hk hgone
            have hl' := (hway.entry hs hr hm).1
            rw [locate_of_sublist hs hl, Option.some.injEq] at hl'
            refine ⟨hn, ?_⟩
            rw [hl', List.append_assoc]
            exact List.prefix_append ..
          · rintro e' ⟨⟩
            exact .inl (herr _ rfl)
        · rename_i tree₁ stack₁ he
          obtain ⟨hs₁, hdel, -, hok⟩ := eachEntry_spec he
          obtain ⟨subs, rfl, hsubs, -⟩ := hok _ rfl
          have hstack₁ : ∀ dir' ∈ subs.map (fun name => dir.step (.name name)) ++ stack,
              ∃ names, OnWay site tree₀ path top dir' names := by
            intro dir' hd'
            rcases List.mem_append.1 hd' with hd' | hd'
            · obtain ⟨name, hname, rfl⟩ := List.mem_map.1 hd'
              exact ⟨_, (hway.entry hs hr (hsubs name hname)).2 rfl⟩
            · exact hstack dir' (List.mem_cons_of_mem _ hd')
          have hdirs₁ : ∀ dir' ∈ dirs ++ [dir], ∃ names, OnWay site tree₀ path top dir' names := by
            intro dir' hd'
            rcases List.mem_append.1 hd' with hd' | hd'
            · exact hdirs dir' hd'
            · rw [List.mem_singleton] at hd'
              exact ⟨names, hd' ▸ hway⟩
          obtain ⟨hs₂, hdel₂, hok₂, herr₂⟩ := ih h (hs₁.trans hs) hstack₁ hdirs₁
          refine ⟨hs₂.trans hs₁, fun loc hk hgone => ?_, fun dirs' hr' => ?_, herr₂⟩
          · by_cases hk₁ : tree₁.kind loc = none
            · obtain ⟨hn, name, kind, hm, hl⟩ := hdel loc hk hk₁
              have hl' := (hway.entry hs hr hm).1
              rw [locate_of_sublist hs hl, Option.some.injEq] at hl'
              refine ⟨hn, ?_⟩
              rw [hl', List.append_assoc]
              exact List.prefix_append ..
            · obtain ⟨hn, htop⟩ := hdel₂ loc hk₁ hgone
              rw [FileTree.Within.isDir_eq (FileTree.within_of_sublist hs₁) hk₁]
              exact ⟨hn, htop⟩
          · obtain ⟨hway', hin, hin'⟩ := hok₂ dirs' hr'
            refine ⟨hway', fun dir' hd' => hin _ (List.mem_append_left _ hd'), fun dir' hd' => ?_⟩
            rcases List.mem_cons.1 hd' with rfl | hd'
            · exact hin _ (List.mem_append_right _ List.mem_cons_self)
            · exact hin' _ (List.mem_append_right _ hd')

theorem removeDirs_spec {dirs : List (FilePath String)} {result : Except RemoveError Unit}
    (h : removeDirs site permits dirs tree = (tree', result))
    (hs : tree.nodes.Sublist tree₀.nodes)
    (hdirs : ∀ dir ∈ dirs, ∃ names, OnWay site tree₀ path top dir names) :
    tree'.nodes.Sublist tree.nodes ∧
      (∀ loc, tree.kind loc ≠ none → tree'.kind loc = none →
        site.locate tree₀ path = some loc ∨ top <+: loc) ∧
      (∀ e, result = .error e → e.isDeletion = true) ∧
      (result = .ok () → ∀ dir ∈ dirs, site.IsGone dir tree') := by
  induction dirs generalizing tree with
  | nil =>
    cases h
    exact ⟨List.Sublist.refl _, fun loc hk he => absurd he hk, by simp, by simp⟩
  | cons dir dirs ih =>
    rw [removeDirs] at h
    split at h
    · cases h
      refine ⟨List.Sublist.refl _, fun loc hk he => absurd he hk, ?_, by simp⟩
      rintro e ⟨⟩
      rfl
    · rename_i tree₁ hr
      have hdel := deletes_of_removeDir hr
      obtain ⟨hs₁, hdel₁, herr, hok⟩ := ih h (hdel.sublist.trans hs)
        fun dir' hd' => hdirs dir' (List.mem_cons_of_mem _ hd')
      refine ⟨hs₁.trans hdel.sublist, fun loc hk hgone => ?_, herr, fun hr' dir' hd' => ?_⟩
      · by_cases hk₁ : tree₁.kind loc = none
        · obtain ⟨names, hpath, -, hway, -⟩ := hdirs dir List.mem_cons_self
          have hl := locate_of_sublist hs (hdel.locate hk hk₁)
          by_cases hn : names = []
          · subst hn
            rw [hpath, FilePath.below_nil] at hl
            exact .inl hl
          · rw [hway hn, Option.some.injEq] at hl
            exact .inr (hl ▸ List.prefix_append ..)
        · exact hdel₁ loc hk₁ hgone
      · rcases List.mem_cons.1 hd' with rfl | hd'
        · exact isGone_of_sublist hs₁ hdel.isGone
        · exact hok hr' dir' hd'

/-! ## The walk comes to an end -/

def Ends (site : Site) (permits : FileTree String β → FilePath String → Bool)
    (tree₀ : FileTree String β) (stack : List (FilePath String)) : Prop :=
  ∀ (tree : FileTree String β) (dirs : List (FilePath String)),
    tree.nodes.Sublist tree₀.nodes →
    ∃ enough, ∀ fuel, enough ≤ fuel →
      ∃ tree' result, walkDirs site permits fuel tree stack dirs = some (tree', result)

theorem ends_nil : Ends site permits tree₀ [] := by
  intro tree dirs _
  refine ⟨1, fun fuel hf => ?_⟩
  obtain ⟨fuel, rfl⟩ := Nat.exists_eq_add_of_le' hf
  exact ⟨tree, .ok dirs, rfl⟩

theorem ends_of_entries {stack : List (FilePath String)}
    (h : ∀ (tree : FileTree String β) entries (names : List String),
      tree.nodes.Sublist tree₀.nodes → site.readDir tree dir = some entries →
      (∀ name ∈ names, (.name name, .dir) ∈ entries) →
      Ends site permits tree₀ (names.map (fun name => dir.step (.name name)) ++ stack)) :
    Ends site permits tree₀ (dir :: stack) := by
  intro tree dirs hs
  cases hr : site.readDir tree dir with
  | none =>
    refine ⟨1, fun fuel hf => ?_⟩
    obtain ⟨fuel, rfl⟩ := Nat.exists_eq_add_of_le' hf
    exact ⟨tree, .error (.readDir dir), by simp [walkDirs, hr]⟩
  | some entries =>
    rcases he : eachEntry site permits dir entries tree stack with ⟨tree₁, e | stack₁⟩
    · refine ⟨1, fun fuel hf => ?_⟩
      obtain ⟨fuel, rfl⟩ := Nat.exists_eq_add_of_le' hf
      exact ⟨tree₁, .error e, by simp [walkDirs, hr, he]⟩
    · obtain ⟨hs₁, -, -, hok⟩ := eachEntry_spec he
      obtain ⟨names, rfl, hnames, -⟩ := hok _ rfl
      obtain ⟨enough, hrun⟩ := h tree entries names hs hr hnames tree₁ (dirs ++ [dir])
        (hs₁.trans hs)
      refine ⟨enough + 1, fun fuel hf => ?_⟩
      obtain ⟨fuel, rfl⟩ := Nat.exists_eq_add_of_le' (Nat.le_of_add_left_le hf)
      obtain ⟨tree', result, hw⟩ := hrun fuel (by omega)
      exact ⟨tree', result, by simp [walkDirs, hr, he, hw]⟩

/-- By how deep it may still go: the directories that a listing puts on the stack are deeper. -/
theorem ends_cons {depth : Nat} (hdepth : ∀ loc, tree₀.kind loc ≠ none → loc.length ≤ depth)
    (left : Nat) {names : List String} (hway : OnWay site tree₀ path top dir names)
    (hleft : depth ≤ (top ++ names).length + left) {stack : List (FilePath String)}
    (hend : Ends site permits tree₀ stack) : Ends site permits tree₀ (dir :: stack) := by
  induction left generalizing dir names stack with
  | zero =>
    apply ends_of_entries
    intro tree entries subs hs hr hsubs
    cases subs with
    | nil => exact hend
    | cons name subs =>
      -- a directory in this one would be too deep
      have hway' := (hway.entry hs hr (hsubs name List.mem_cons_self)).1
      have hlen := hdepth _ (FileTree.kind_of_resolve hway')
      rw [List.length_append, List.length_singleton] at hlen
      omega
  | succ left ih =>
    apply ends_of_entries
    intro tree entries subs hs hr hsubs
    induction subs with
    | nil => exact hend
    | cons name subs ihs =>
      have hway' := (hway.entry hs hr (hsubs name List.mem_cons_self)).2 rfl
      apply ih hway'
      · rw [← List.append_assoc, List.length_append, List.length_singleton]
        omega
      · exact ihs fun name hn => hsubs name (List.mem_cons_of_mem _ hn)

theorem onWay_top (hf : site.follow tree₀ path = some top) (hd : tree₀.kind top = some .dir) :
    OnWay site tree₀ path top path [] :=
  ⟨by simp, by simpa using hf, fun h => absurd rfl h, by simpa using hd⟩

theorem ends_top (hf : site.follow tree₀ path = some top) (hd : tree₀.kind top = some .dir) :
    Ends site permits tree₀ [path] := by
  obtain ⟨depth, hdepth⟩ := tree₀.exists_depth
  exact ends_cons hdepth depth (onWay_top hf hd) (by omega) ends_nil

/-! ## The path itself is a directory -/

/-- As no directory is deleted before, a listing fails only if the path itself is gone. -/
theorem isGone_of_readDir {names : List String} (hl : site.locate tree₀ path = some top)
    (hs : tree.nodes.Sublist tree₀.nodes)
    (hdel : ∀ loc, tree₀.kind loc ≠ none → tree.kind loc = none → tree₀.isDir loc = false)
    (hd : tree₀.kind top = some .dir) (hway : OnWay site tree₀ path top dir names)
    (hr : site.readDir tree dir = none) : site.IsGone path tree := by
  have hkept : ∀ loc, tree₀.kind loc = some .dir → tree.kind loc = some .dir := by
    intro loc hk
    cases hk' : tree.kind loc with
    | none =>
      have hn := hdel loc (by simp [hk]) hk'
      rw [FileTree.isDir_iff.2 hk] at hn
      cases hn
    | some kind =>
      have hw := FileTree.within_of_sublist hs hk'
      rw [← hw, hk]
  cases hg : site.locate tree path with
  | none => exact hg
  | some place =>
    have hp := locate_of_sublist hs hg
    rw [hl, Option.some.injEq] at hp
    subst hp
    have hf : site.follow tree path = some top :=
      FileTree.resolve_followed hg (hkept _ hd) rfl
    have hk := hkept _ hway.2.2.2
    have hb := Site.follow_below hf hk rfl
    rw [← hway.1] at hb
    simp [Site.readDir, hb, FileTree.isDir_iff.2 hk] at hr

theorem remove_dir {fuel : Nat} {result : Except RemoveError (List (FilePath String))}
    (hf : site.follow tree path = some top) (hd : tree.kind top = some .dir)
    (hw : walkDirs site permits fuel tree [path] [] = some (tree', result)) :
    remove site permits fuel tree path true =
      match result with
      | .error e => some (tree', .error e)
      | .ok dirsToRemove => some (removeDirs site permits dirsToRemove.reverse tree') := by
  have hm : site.metadata tree path = some .dir := by simp [Site.metadata, hf, hd]
  simp only [remove, hm, hw]
  cases result <;> rfl

theorem isContained_of_dir (hl : site.locate tree path = some top)
    (hf : site.follow tree path = some top) (hd : tree.kind top = some .dir) :
    IsContained site tree path := by
  intro permits
  have hway : ∀ dir ∈ [path], ∃ names, OnWay site tree path top dir names := by
    intro dir hdir
    rw [List.mem_singleton] at hdir
    subst hdir
    exact ⟨[], onWay_top hf hd⟩
  have hends : Ends site permits tree [path] := ends_top hf hd
  obtain ⟨enough, hend⟩ := hends tree [] (List.Sublist.refl _)
  refine ⟨enough, fun fuel hfuel => ?_⟩
  obtain ⟨tree₁, result, hw⟩ := hend fuel hfuel
  obtain ⟨hs, hdel, hok, herr⟩ := walkDirs_spec hw (List.Sublist.refl _) hway (by simp)
  rw [remove_dir hf hd hw]
  cases result with
  | error e =>
    refine ⟨tree₁, .error e, rfl, fun loc hk hn => ⟨top, hl, (hdel loc hk hn).2⟩, fun hne => ?_⟩
    rcases herr e rfl with h | ⟨dir, names, hdir, hr⟩
    · rw [hne e rfl] at h
      cases h
    · exact isGone_of_readDir hl hs (fun loc hk hn => (hdel loc hk hn).1) hd hdir hr
  | ok dirs =>
    obtain ⟨hdirs, -, hin⟩ := hok dirs rfl
    rcases hrun : removeDirs site permits dirs.reverse tree₁ with ⟨tree₂, result⟩
    obtain ⟨hs₂, hdel₂, herr₂, hgone⟩ := removeDirs_spec hrun hs
      fun dir hdir => hdirs dir (List.mem_reverse.1 hdir)
    refine ⟨tree₂, result, by simp [hrun], fun loc hk hn => ⟨top, hl, ?_⟩, fun hne => ?_⟩
    · by_cases hk₁ : tree₁.kind loc = none
      · exact (hdel loc hk hk₁).2
      · rcases hdel₂ loc hk₁ hn with h | h
        · rw [hl, Option.some.injEq] at h
          exact h ▸ List.prefix_rfl
        · exact h
    · cases result with
      | error e =>
        have h := herr₂ e rfl
        rw [hne e rfl] at h
        cases h
      | ok _ => exact hgone rfl path (List.mem_reverse.2 (hin path List.mem_cons_self))

/-! ## The path is a link to a directory -/

theorem eachEntry_dirs {before : List (String × FileKind String β)}
    (hb : ∀ entry ∈ before, entry.2.isDir = true)
    (rest : List (PathStep String × FileKind String β)) (stack : List (FilePath String)) :
    eachEntry site permits dir (before.map (fun entry => (.name entry.1, entry.2)) ++ rest) tree
        stack =
      eachEntry site permits dir rest tree
        ((before.map fun entry => dir.step (.name entry.1)).reverse ++ stack) := by
  induction before generalizing stack with
  | nil => rfl
  | cons entry before ih =>
    have hd := hb entry List.mem_cons_self
    rw [List.map_cons, List.cons_append, eachEntry, if_neg (by simp), if_pos hd,
      ih fun entry he => hb entry (List.mem_cons_of_mem _ he)]
    simp

theorem readDir_onWay {names : List String} (hway : OnWay site tree path top dir names) :
    site.readDir tree dir = some ([(.stay, .dir), (.up, .dir)] ++
      (tree.entries (top ++ names)).map fun entry => (.name entry.1, entry.2)) := by
  simp [Site.readDir, hway.2.1, FileTree.isDir_iff.2 hway.2.2.2]

/-- Where all entries are directories, they are put on the stack. -/
theorem eachEntry_all {names : List String}
    (hd : ∀ entry ∈ tree.entries (top ++ names), entry.2.isDir = true)
    (stack : List (FilePath String)) :
    eachEntry site permits dir ([(.stay, .dir), (.up, .dir)] ++
        (tree.entries (top ++ names)).map fun entry => (.name entry.1, entry.2)) tree stack =
      (tree, .ok (((tree.entries (top ++ names)).map
        fun entry => dir.step (.name entry.1)).reverse ++ stack)) := by
  rw [List.cons_append, eachEntry, if_pos (by simp), List.cons_append, eachEntry,
    if_pos (by simp), List.nil_append, ← List.append_nil (List.map _ (tree.entries _)),
    eachEntry_dirs hd [] stack, eachEntry]

/-- The first entry that is no directory is removed before all that follows it. -/
theorem eachEntry_first {names : List String} {name : String} {kind : FileKind String β}
    {before after : List (String × FileKind String β)}
    (he : tree.entries (top ++ names) = before ++ (name, kind) :: after)
    (hb : ∀ entry ∈ before, entry.2.isDir = true) (hk : kind.isDir = false)
    (stack : List (FilePath String)) :
    eachEntry site permits dir ([(.stay, .dir), (.up, .dir)] ++
        (tree.entries (top ++ names)).map fun entry => (.name entry.1, entry.2)) tree stack =
      match removeFile site permits tree (dir.step (.name name)) with
      | none => (tree, .error (.removeFile (dir.step (.name name))))
      | some tree => eachEntry site permits dir
          (after.map fun entry => (.name entry.1, entry.2)) tree
          ((before.map fun entry => dir.step (.name entry.1)).reverse ++ stack) := by
  rw [List.cons_append, eachEntry, if_pos (by simp), List.cons_append, eachEntry,
    if_pos (by simp), List.nil_append, he, List.map_append, List.map_cons, eachEntry_dirs hb,
    eachEntry, if_neg (by simp), if_neg (by simp [hk])]

/-- The paths of the stack lead to these places. -/
def LeadTo (site : Site) (tree : FileTree String β) (path : FilePath String) (top : List String) :
    List (FilePath String) → List (List String) → Prop :=
  List.Forall₂ fun dir loc => ∃ names, OnWay site tree path top dir names ∧ loc = top ++ names

theorem LeadTo.entries {names : List String} {stack : List (FilePath String)}
    {locs : List (List String)} (hway : OnWay site tree path top dir names)
    (h : LeadTo site tree path top stack locs)
    (hd : ∀ entry ∈ tree.entries (top ++ names), entry.2.isDir = true) :
    LeadTo site tree path top
      (((tree.entries (top ++ names)).map fun entry => dir.step (.name entry.1)).reverse ++ stack)
      (((tree.entries (top ++ names)).map fun entry => top ++ names ++ [entry.1]).reverse ++
        locs) := by
  have hr := readDir_onWay hway
  refine List.rel_append (List.rel_reverse ?_) h
  rw [List.forall₂_map_left_iff, List.forall₂_map_right_iff, List.forall₂_same]
  intro entry he
  have hm : (PathStep.name entry.1, entry.2) ∈ [(PathStep.stay, FileKind.dir), (.up, .dir)] ++
      (tree.entries (top ++ names)).map fun entry => (.name entry.1, entry.2) :=
    List.mem_append_right _ (List.mem_map.2 ⟨entry, he, rfl⟩)
  refine ⟨names ++ [entry.1], ?_, by rw [List.append_assoc]⟩
  exact (hway.entry (List.Sublist.refl _) hr hm).2 (FileKind.isDir_iff.1 (hd entry he))

theorem LeadTo.onWay {stack : List (FilePath String)} {locs : List (List String)}
    (h : LeadTo site tree path top stack locs) :
    ∀ dir ∈ stack, ∃ names, OnWay site tree path top dir names := by
  induction h with
  | nil => simp
  | cons hdir h ih =>
    obtain ⟨names, hdir, -⟩ := hdir
    intro dir hd
    rcases List.mem_cons.1 hd with rfl | hd
    · exact ⟨names, hdir⟩
    · exact ih dir hd

/-- Once the path is gone, no path below it leads anywhere. -/
theorem isGone_below {names : List String} (hne : path.isEmpty = false)
    (hg : site.IsGone path tree) (follow : Bool) :
    tree.resolve follow site.links site.home (path.below names) = none := by
  induction names using List.reverseRecOn generalizing follow with
  | nil =>
    rw [FilePath.below_nil]
    cases follow with
    | false => exact hg
    | true =>
      cases hf : tree.resolve true site.links site.home path with
      | none => rfl
      | some place =>
        obtain ⟨place', hl⟩ := FileTree.resolve_unfollowed hf
        cases hl.symm.trans hg
  | append_singleton names name ih =>
    rw [← FilePath.step_below]
    cases hf : tree.resolve follow site.links site.home ((path.below names).step (.name name)) with
    | none => rfl
    | some place =>
      obtain ⟨dir, hd, -⟩ := FileTree.resolve_init (FilePath.isEmpty_append hne) hf
      cases hd.symm.trans (ih true)

/-- Nothing is deleted below a path that is gone. -/
theorem eachEntry_gone {names : List String}
    {entries : List (PathStep String × FileKind String β)}
    {stack : List (FilePath String)} {result : Except RemoveError (List (FilePath String))}
    (hne : path.isEmpty = false) (hg : site.IsGone path tree) (hd : dir = path.below names)
    (h : eachEntry site permits dir entries tree stack = (tree', result)) : tree' = tree := by
  induction entries generalizing stack with
  | nil =>
    cases h
    rfl
  | cons entry entries ih =>
    obtain ⟨filename, kind⟩ := entry
    rw [eachEntry] at h
    split_ifs at h with hf hk
    · exact ih h
    · exact ih h
    · obtain ⟨name, rfl⟩ : ∃ name, filename = .name name := by
        cases filename with
        | stay => simp at hf
        | up => simp at hf
        | name name => exact ⟨name, rfl⟩
      have hl : site.locate tree (dir.step (.name name)) = none := by
        rw [hd, FilePath.step_below]
        exact isGone_below hne hg false
      have hr : removeFile site permits tree (dir.step (.name name)) = none := by
        simp [removeFile, hl]
      rw [hr] at h
      cases h
      rfl

theorem walkDirs_gone {fuel : Nat} {stack dirs : List (FilePath String)}
    {result : Except RemoveError (List (FilePath String))}
    (hne : path.isEmpty = false) (hg : site.IsGone path tree)
    (hstack : ∀ dir ∈ stack, ∃ names, dir = path.below names)
    (h : walkDirs site permits fuel tree stack dirs = some (tree', result)) : tree' = tree := by
  cases fuel with
  | zero => cases h
  | succ fuel =>
    cases stack with
    | nil =>
      cases h
      rfl
    | cons dir stack =>
      obtain ⟨names, rfl⟩ := hstack dir List.mem_cons_self
      have hf : site.follow tree (path.below names) = none := isGone_below hne hg true
      simp only [walkDirs, Site.readDir, hf, Option.bind_none] at h
      cases h
      rfl

theorem removeDirs_gone {dirs : List (FilePath String)} {result : Except RemoveError Unit}
    (hne : path.isEmpty = false) (hg : site.IsGone path tree)
    (hdirs : ∀ dir ∈ dirs, ∃ names, dir = path.below names)
    (h : removeDirs site permits dirs tree = (tree', result)) : tree' = tree := by
  cases dirs with
  | nil =>
    cases h
    rfl
  | cons dir dirs =>
    obtain ⟨names, rfl⟩ := hdirs dir List.mem_cons_self
    have hl : site.locate tree (path.below names) = none := isGone_below hne hg false
    simp only [removeDirs, removeDir, hl, Option.bind_none] at h
    cases h
    rfl

/-- If the walk meets the link first, that is all that it may delete. -/
theorem walkDirs_meets {fuel : Nat} {stack dirs : List (FilePath String)}
    {locs : List (List String)} {place : List String}
    {result : Except RemoveError (List (FilePath String))}
    (h : walkDirs site permits fuel tree stack dirs = some (tree', result))
    (hl : site.locate tree path = some place) (hlead : LeadTo site tree path top stack locs)
    (hmeets : MeetsFirst tree place locs) :
    tree' = tree ∧ (∃ e, result = .error e ∧ e.isDeletion = true) ∨
      tree' = tree.erase (· = place) ∧ site.IsGone path tree' := by
  have hne : path.isEmpty = false := (FileTree.resolve_iff.1 hl).1
  induction hmeets generalizing fuel stack dirs with
  | @here loc locs name kind before after he hb hk hleaf =>
    cases hlead with
    | @cons dir _ stack _ hdir hlead =>
    obtain ⟨names, hway, rfl⟩ := hdir
    cases fuel with
    | zero => cases h
    | succ fuel =>
      simp only [walkDirs, readDir_onWay hway, eachEntry_first he hb hk] at h
      cases hr : removeFile site permits tree (dir.step (.name name)) with
      | none =>
        rw [hr] at h
        cases h
        exact .inl ⟨rfl, _, rfl, rfl⟩
      | some tree₁ =>
        obtain ⟨⟨place', hl', -, -, rfl⟩, -⟩ := deletes_of_removeFile hr
        have hm : (PathStep.name name, kind) ∈ [(PathStep.stay, FileKind.dir), (.up, .dir)] ++
            (tree.entries (top ++ names)).map fun entry => (.name entry.1, entry.2) := by
          simp [he]
        have hl'' := (hway.entry (List.Sublist.refl _) (readDir_onWay hway) hm).1
        rw [hleaf, hl', Option.some.injEq] at hl''
        subst hl''
        have hgone : site.IsGone path (tree.erase (· = place')) := by
          refine HostRemove.isGone_erase hl ?_ (by simp)
          rw [← hleaf]
          simp
        refine .inr ?_
        simp only [hr] at h
        rcases hrun : eachEntry site permits dir (after.map fun entry => (.name entry.1, entry.2))
          (tree.erase (· = place')) ((before.map fun entry => dir.step (.name entry.1)).reverse ++
            stack) with ⟨tree₂, e | stack₂⟩
        · obtain rfl := eachEntry_gone hne hgone hway.1 hrun
          rw [hrun] at h
          cases h
          exact ⟨rfl, hgone⟩
        · obtain rfl := eachEntry_gone hne hgone hway.1 hrun
          rw [hrun] at h
          have hbelow : ∀ dir' ∈ stack₂, ∃ names, dir' = path.below names := by
            obtain ⟨names', hs, -⟩ := (eachEntry_spec hrun).2.2.2 _ rfl
            intro dir' hd
            rw [hs, List.mem_append, List.mem_append, List.mem_reverse, List.mem_map,
              List.mem_map] at hd
            rcases hd with ⟨name, -, rfl⟩ | ⟨entry, -, rfl⟩ | hd
            · exact ⟨_, by rw [hway.1, FilePath.step_below]⟩
            · exact ⟨_, by rw [hway.1, FilePath.step_below]⟩
            · obtain ⟨names, hd⟩ := LeadTo.onWay hlead dir' hd
              exact ⟨names, hd.1⟩
          obtain rfl := walkDirs_gone hne hgone hbelow h
          exact ⟨rfl, hgone⟩
  | @deeper loc locs hd hmeets ih =>
    cases hlead with
    | @cons dir _ stack _ hdir hlead =>
    obtain ⟨names, hway, rfl⟩ := hdir
    cases fuel with
    | zero => cases h
    | succ fuel =>
      simp only [walkDirs, readDir_onWay hway, eachEntry_all hd] at h
      exact ih h (LeadTo.entries hway hlead hd)

theorem exists_first_not (entries : List (String × FileKind String β)) :
    (∀ entry ∈ entries, entry.2.isDir = true) ∨
      ∃ before name kind after, entries = before ++ (name, kind) :: after ∧
        (∀ entry ∈ before, entry.2.isDir = true) ∧ kind.isDir = false := by
  induction entries with
  | nil => exact .inl (by simp)
  | cons entry entries ih =>
    by_cases hd : entry.2.isDir = true
    · rcases ih with h | ⟨before, name, kind, after, he, hb, hk⟩
      · exact .inl fun other ho => (List.mem_cons.1 ho).elim (fun h => h ▸ hd) (h other)
      · refine .inr ⟨entry :: before, name, kind, after, by rw [he]; rfl, ?_, hk⟩
        exact fun other ho => (List.mem_cons.1 ho).elim (fun h => h ▸ hd) (hb other)
    · exact .inr ⟨[], entry.1, entry.2, entries, rfl, by simp, by simpa using hd⟩

theorem kind_none_of_sublist {loc : List String} (hs : tree'.nodes.Sublist tree.nodes)
    (hk : tree.kind loc = none) : tree'.kind loc = none := by
  cases hk' : tree'.kind loc with
  | none => rfl
  | some kind =>
    cases hk.symm.trans (FileTree.within_of_sublist hs hk')

theorem walkDirs_sublist {fuel : Nat} {stack dirs : List (FilePath String)}
    {result : Except RemoveError (List (FilePath String))}
    (h : walkDirs site permits fuel tree stack dirs = some (tree', result)) :
    tree'.nodes.Sublist tree.nodes := by
  induction fuel generalizing tree stack dirs with
  | zero => cases h
  | succ fuel ih =>
    cases stack with
    | nil =>
      cases h
      exact List.Sublist.refl _
    | cons dir stack =>
      rw [walkDirs] at h
      split at h
      · cases h
        exact List.Sublist.refl _
      · split at h
        · rename_i he
          cases h
          exact (eachEntry_spec he).1
        · rename_i he
          exact (ih h).trans (eachEntry_spec he).1

theorem removeFile_permitted {place : List String} (hl : site.locate tree path = some place)
    (hd : tree.isDir place = false) :
    removeFile site (fun _ _ => true) tree path = some (tree.erase (· = place)) := by
  simp [removeFile, hl, hd]

theorem removeDir_permitted {place : List String} (hl : site.locate tree path = some place)
    (hd : tree.isDir place = true) (he : tree.entries place = []) (hne : place ≠ []) :
    removeDir site (fun _ _ => true) tree path = some (tree.erase (· = place)) := by
  simp [removeDir, hl, hd, he, hne]

theorem removeDirs_sublist {dirs : List (FilePath String)} {result : Except RemoveError Unit}
    (h : removeDirs site permits dirs tree = (tree', result)) :
    tree'.nodes.Sublist tree.nodes := by
  induction dirs generalizing tree with
  | nil =>
    cases h
    exact List.Sublist.refl _
  | cons dir dirs ih =>
    rw [removeDirs] at h
    split at h
    · cases h
      exact List.Sublist.refl _
    · rename_i hr
      exact (ih h).trans (deletes_of_removeDir hr).sublist

/-- A server that permits all, and a walk that does not meet the link first: something else goes,
or there are only directories, and the last of them is empty. -/
theorem walkDirs_leaves {fuel : Nat} {stack dirs : List (FilePath String)}
    {locs : List (List String)} {place : List String}
    {result : Except RemoveError (List (FilePath String))}
    (h : walkDirs site (fun _ _ => true) fuel tree stack dirs = some (tree', result))
    (hlead : LeadTo site tree path top stack locs) (hmeets : ¬ MeetsFirst tree place locs) :
    (∃ loc, loc ≠ place ∧ tree.kind loc ≠ none ∧ tree'.kind loc = none) ∨
      (tree' = tree ∧ ∃ dirs', result = .ok dirs' ∧
        (stack = [] → dirs' = dirs) ∧
        (stack ≠ [] → ∃ before dir names, dirs' = before ++ [dir] ∧
          OnWay site tree path top dir names ∧ tree.entries (top ++ names) = [])) := by
  induction fuel generalizing stack dirs locs with
  | zero => cases h
  | succ fuel ih =>
    cases hlead with
    | nil =>
      cases h
      exact .inr ⟨rfl, dirs, rfl, fun _ => rfl, fun h => absurd rfl h⟩
    | @cons dir _ stack locs hdir hlead =>
      obtain ⟨names, hway, rfl⟩ := hdir
      rcases exists_first_not (tree.entries (top ++ names)) with
        hd | ⟨before, name, kind, after, he, hb, hk⟩
      · simp only [walkDirs, readDir_onWay hway, eachEntry_all hd] at h
        rcases ih h (LeadTo.entries hway hlead hd) (fun hm => hmeets (.deeper hd hm)) with
          hgone | ⟨rfl, dirs', rfl, hnil, hcons⟩
        · exact .inl hgone
        · refine .inr ⟨rfl, dirs', rfl, by simp, fun _ => ?_⟩
          by_cases hs : ((tree'.entries (top ++ names)).map
              fun entry => dir.step (.name entry.1)).reverse ++ stack = []
          · refine ⟨dirs, dir, names, hnil hs, hway, ?_⟩
            simpa using (List.append_eq_nil_iff.1 hs).1
          · exact hcons hs
      · refine .inl ⟨top ++ names ++ [name], fun hl => hmeets (.here he hb hk hl), ?_⟩
        have hkind : tree.kind (top ++ names ++ [name]) = some kind := by
          rw [← FileTree.mem_entries, he]
          exact List.mem_append_right _ List.mem_cons_self
        have hloc : site.locate tree (dir.step (.name name)) = some (top ++ names ++ [name]) :=
          FileTree.resolve_step hway.2.1 hkind (.inl rfl)
        have hdir : tree.isDir (top ++ names ++ [name]) = false := by
          cases hd : tree.isDir (top ++ names ++ [name]) with
          | false => rfl
          | true =>
            rw [FileTree.isDir_iff, hkind, Option.some.injEq, ← FileKind.isDir_iff, hk] at hd
            cases hd
        have hr : removeFile site (fun _ _ => true) tree (dir.step (.name name)) =
            some (tree.erase (· = top ++ names ++ [name])) := removeFile_permitted hloc hdir
        refine ⟨by rw [hkind]; simp, ?_⟩
        suffices hs : tree'.nodes.Sublist (tree.erase (· = top ++ names ++ [name])).nodes from
          kind_none_of_sublist hs (FileTree.kind_erase_self (by simp) (by simp))
        simp only [walkDirs, readDir_onWay hway, eachEntry_first he hb hk, hr] at h
        split at h
        · rename_i he'
          cases h
          exact (eachEntry_spec he').1
        · rename_i he'
          exact (walkDirs_sublist h).trans (eachEntry_spec he').1

/-- Then something is deleted that is not the link. -/
theorem exists_deleted {fuel : Nat} {place : List String} {target : FilePath String}
    {result : Except RemoveError Unit}
    (h : remove site (fun _ _ => true) fuel tree path true = some (tree', result))
    (hplace : tree.kind place = some (.link target))
    (hf : site.follow tree path = some top) (hd : tree.kind top = some .dir)
    (hentries : tree.entries top ≠ []) (hmeets : ¬ MeetsFirst tree place [top]) :
    ∃ loc, loc ≠ place ∧ tree.kind loc ≠ none ∧ tree'.kind loc = none := by
  cases hw : walkDirs site (fun _ _ => true) fuel tree [path] [] with
  | none =>
    have hm : site.metadata tree path = some .dir := by simp [Site.metadata, hf, hd]
    simp [remove, hm, hw] at h
  | some run =>
    obtain ⟨tree₁, result₁⟩ := run
    rw [remove_dir hf hd hw] at h
    have hlead : LeadTo site tree path top [path] [top] :=
      .cons ⟨[], onWay_top hf hd, by simp⟩ .nil
    rcases walkDirs_leaves hw hlead hmeets with
      ⟨loc, hne, hk, hn⟩ | ⟨rfl, dirs, rfl, -, hlast⟩
    · refine ⟨loc, hne, hk, ?_⟩
      cases result₁ with
      | error e =>
        cases h
        exact hn
      | ok dirs =>
        simp only [Option.some.injEq] at h
        exact kind_none_of_sublist (removeDirs_sublist h) hn
    · obtain ⟨before, dir, names, rfl, hway, hempty⟩ := hlast (by simp)
      have hnames : names ≠ [] := by
        rintro rfl
        rw [List.append_nil] at hempty
        exact hentries hempty
      have hne : top ++ names ≠ [] := by simp [hnames]
      have hr := removeDir_permitted (hway.2.2.1 hnames) (FileTree.isDir_iff.2 hway.2.2.2) hempty
        hne
      refine ⟨top ++ names, ?_, by rw [hway.2.2.2]; simp, ?_⟩
      · rintro hl
        rw [← hl] at hplace
        cases hplace.symm.trans hway.2.2.2
      · simp only [List.reverse_append, List.reverse_singleton, List.singleton_append, removeDirs,
          hr, Option.some.injEq] at h
        exact kind_none_of_sublist (removeDirs_sublist h)
          (FileTree.kind_erase_self hne (by simp))

/-- Nothing is below a link, so that this is not below the path. -/
theorem not_isContained_of_link {place : List String} {target : FilePath String}
    (hl : site.locate tree path = some place) (hplace : tree.kind place = some (.link target))
    (hf : site.follow tree path = some top) (hd : tree.kind top = some .dir)
    (hentries : tree.entries top ≠ []) (hmeets : ¬ MeetsFirst tree place [top]) :
    ¬ IsContained site tree path := by
  intro h
  obtain ⟨enough, hrun⟩ := h fun _ _ => true
  obtain ⟨tree', result, hr, hbelow, -⟩ := hrun enough le_rfl
  obtain ⟨loc, hne, hk, hn⟩ := exists_deleted hr hplace hf hd hentries hmeets
  obtain ⟨place', hl', rest, rfl⟩ := hbelow loc hk hn
  rw [hl, Option.some.injEq] at hl'
  subst hl'
  have hrest : rest ≠ [] := by
    rintro rfl
    exact hne (List.append_nil _)
  cases hplace.symm.trans (FileTree.kind_of_above hk hrest)

theorem not_isContained_of_dangling {place : List String} (hl : site.locate tree path = some place)
    (hf : site.follow tree path = none) : ¬ IsContained site tree path := by
  intro h
  obtain ⟨enough, hrun⟩ := h fun _ _ => true
  obtain ⟨tree', result, hr, -, hgone⟩ := hrun enough le_rfl
  have hm : site.metadata tree path = none := by simp [Site.metadata, hf]
  simp only [remove, hm, Option.some.injEq, Prod.mk.injEq] at hr
  obtain ⟨rfl, rfl⟩ := hr
  have hnone : site.locate tree path = none := hgone fun e he => by
    cases he
    rfl
  cases hl.symm.trans hnone

/-! ## Exactly when a removal stays below its path -/

theorem isContained_of_link {place : List String} {target : FilePath String}
    (hl : site.locate tree path = some place) (hplace : tree.kind place = some (.link target))
    (hf : site.follow tree path = some top) (hd : tree.kind top = some .dir)
    (h : tree.entries top = [] ∨ MeetsFirst tree place [top]) : IsContained site tree path := by
  intro permits
  have hends : Ends site permits tree [path] := ends_top hf hd
  obtain ⟨enough, hend⟩ := hends tree [] (List.Sublist.refl _)
  have hlead : LeadTo site tree path top [path] [top] :=
    .cons ⟨[], onWay_top hf hd, by simp⟩ .nil
  refine ⟨enough, fun fuel hfuel => ?_⟩
  obtain ⟨tree₁, result, hw⟩ := hend fuel hfuel
  rw [remove_dir hf hd hw]
  rcases h with h | h
  · -- the listing is empty, and the link cannot be removed as a directory
    have hall : ∀ entry ∈ tree.entries (top ++ []), entry.2.isDir = true := by simp [h]
    have hnot : tree.isDir place = false := by simp [FileTree.isDir, hplace]
    have hway : OnWay site tree path top path [] := onWay_top hf hd
    obtain ⟨rfl, rfl⟩ : tree = tree₁ ∧ .ok [path] = result := by
      cases fuel with
      | zero => cases hw
      | succ fuel =>
        simp only [walkDirs, readDir_onWay hway, eachEntry_all hall] at hw
        simp only [List.append_nil, h, List.map_nil, List.reverse_nil] at hw
        cases fuel with
        | zero => cases hw
        | succ fuel =>
          cases hw
          exact ⟨rfl, rfl⟩
    have hr : removeDir site permits tree path = none := by simp [removeDir, hl, hnot]
    refine ⟨tree, .error (.removeDir path), by simp [removeDirs, hr],
      HostRemove.staysBelow_refl, fun hne => ?_⟩
    cases hne _ rfl
  · have hne : path.isEmpty = false := (FileTree.resolve_iff.1 hl).1
    rcases walkDirs_meets hw hl hlead h with ⟨rfl, e, rfl, he⟩ | ⟨rfl, hgone⟩
    · refine ⟨tree₁, .error e, rfl, HostRemove.staysBelow_refl, fun hne => ?_⟩
      rw [hne e rfl] at he
      cases he
    · cases result with
      | error e => exact ⟨_, .error e, rfl, HostRemove.staysBelow_erase hl, fun _ => hgone⟩
      | ok dirs =>
        rcases hrun : removeDirs site permits dirs.reverse (tree.erase (· = place)) with
          ⟨tree₂, result⟩
        have hbelow : ∀ dir ∈ dirs.reverse, ∃ names, dir = path.below names := by
          intro dir hd'
          obtain ⟨hdirs, -⟩ := (walkDirs_spec hw (List.Sublist.refl _) hlead.onWay (by simp)).2.2.1
            dirs rfl
          obtain ⟨names, hway⟩ := hdirs dir (List.mem_reverse.1 hd')
          exact ⟨names, hway.1⟩
        obtain rfl := removeDirs_gone hne hgone hbelow hrun
        exact ⟨_, result, by simp [hrun], HostRemove.staysBelow_erase hl, fun _ => hgone⟩

theorem isContained_of_file (hm : site.metadata tree path ≠ none)
    (hd : site.metadata tree path ≠ some .dir) : IsContained site tree path := by
  intro permits
  refine ⟨0, fun fuel _ => ?_⟩
  obtain ⟨kind, hk⟩ := Option.ne_none_iff_exists'.1 hm
  have hrun : remove site permits fuel tree path true =
      match removeFile site permits tree path with
      | none => some (tree, .error (.removeFile path))
      | some tree => some (tree, .ok ()) := by
    cases kind with
    | dir => exact absurd hk hd
    | file content => simp [remove, hk]
    | link target => simp [remove, hk]
  rw [hrun]
  cases hr : removeFile site permits tree path with
  | none =>
    refine ⟨tree, _, rfl, HostRemove.staysBelow_refl, fun hne => ?_⟩
    cases hne _ rfl
  | some tree' =>
    have hdel := (deletes_of_removeFile hr).1
    exact ⟨tree', _, rfl, fun loc hk hn => ⟨loc, hdel.locate hk hn, List.prefix_rfl⟩,
      fun _ => hdel.isGone⟩

theorem isContained_of_nowhere (hm : site.metadata tree path = none)
    (hl : site.locate tree path = none) : IsContained site tree path := by
  intro permits
  refine ⟨0, fun fuel _ => ⟨tree, .error (.metadata path), ?_, HostRemove.staysBelow_refl,
    fun _ => hl⟩⟩
  simp [remove, hm]

end

/-- Forced removals of a path, on the host and over SSH, stay below it and remove it unless a
deletion fails, exactly if the path is removable. -/
theorem removals_contained_iff {β : Type} (site : Site) (tree : FileTree String β)
    (path : FilePath String) :
    (IsContained site tree path ∧ HostRemove.IsContained site tree path) ↔
      IsRemovable site tree path := by
  constructor
  · rintro ⟨h, -⟩ place target hl hplace
    cases hf : site.follow tree path with
    | none => exact absurd h (not_isContained_of_dangling hl hf)
    | some top =>
      refine ⟨top, rfl, fun hd => ?_⟩
      by_contra hnot
      rw [not_or] at hnot
      exact not_isContained_of_link hl hplace hf (FileTree.isDir_iff.1 hd) hnot.1 hnot.2 h
  · intro h
    have hmeta : site.locate tree path ≠ none → site.metadata tree path ≠ none := by
      intro hl
      obtain ⟨place, hl⟩ := Option.ne_none_iff_exists'.1 hl
      obtain ⟨kind, hk⟩ := Option.ne_none_iff_exists'.1 (FileTree.kind_of_resolve hl)
      obtain ⟨top, hf⟩ : ∃ top, site.follow tree path = some top := by
        cases kind with
        | link target =>
          obtain ⟨top, hf, -⟩ := h place target hl hk
          exact ⟨top, hf⟩
        | dir => exact ⟨place, FileTree.resolve_followed hl hk rfl⟩
        | file content => exact ⟨place, FileTree.resolve_followed hl hk rfl⟩
      rw [Site.metadata, hf]
      exact FileTree.kind_of_resolve hf
    refine ⟨?_, HostRemove.isContained_of_metadata hmeta⟩
    by_cases hm : site.metadata tree path = none
    · apply isContained_of_nowhere hm
      by_contra hl
      exact hmeta hl hm
    by_cases hd : site.metadata tree path = some .dir
    · obtain ⟨top, hf, hd⟩ := Option.bind_eq_some_iff.1 hd
      obtain ⟨place, hl⟩ := FileTree.resolve_unfollowed hf
      obtain ⟨kind, hk⟩ := Option.ne_none_iff_exists'.1 (FileTree.kind_of_resolve hl)
      cases hlink : kind.isLink with
      | false =>
        have heq : site.follow tree path = some place := FileTree.resolve_followed hl hk hlink
        rw [hf, Option.some.injEq] at heq
        subst heq
        exact isContained_of_dir hl hf hd
      | true =>
        cases kind with
        | dir => cases hlink
        | file content => cases hlink
        | link target =>
          obtain ⟨top', hf', h⟩ := h place target hl hk
          rw [hf, Option.some.injEq] at hf'
          subst hf'
          exact isContained_of_link hl hk hf hd (h (FileTree.isDir_iff.2 hd))
    · exact isContained_of_file hm hd

/-- A directory with one file, a link to it, and a link to nothing. -/
def linkedTree : FileTree String Unit where
  nodes := [(["d"], .dir), (["d", "f"], .file ()), (["l"], .link ⟨false, [.name "d"]⟩),
    (["x"], .link ⟨false, [.name "y"]⟩)]
  distinct := by decide
  nonempty := by decide
  closed := by decide

/-- The removal of the first link removes the file in the directory, and the other link stays. -/
theorem removals_leave :
    ¬ IsContained ⟨[], 40⟩ linkedTree ⟨false, [.name "l"]⟩ ∧
    ¬ IsContained ⟨[], 40⟩ linkedTree ⟨false, [.name "x"]⟩ := by
  constructor
  · have hl : (⟨[], 40⟩ : Site).locate linkedTree ⟨false, [.name "l"]⟩ = some ["l"] := by decide
    have hf : (⟨[], 40⟩ : Site).follow linkedTree ⟨false, [.name "l"]⟩ = some ["d"] := by decide
    have hk : linkedTree.kind ["l"] = some (.link ⟨false, [.name "d"]⟩) := by decide
    have he : linkedTree.entries ["d"] = [("f", .file ())] := by decide
    apply not_isContained_of_link hl hk hf (by decide) (by simp [he])
    intro h
    cases h with
    | here he' hb hk hl => simp at hl
    | deeper hd h => simp [he, FileKind.isDir] at hd
  · have hl : (⟨[], 40⟩ : Site).locate linkedTree ⟨false, [.name "x"]⟩ = some ["x"] := by decide
    exact not_isContained_of_dangling hl (by decide)

end SshRemove

end Distant
