import Distant.Host.Remove

/-!
# Making directories

Which directory a path leads to, and what is there after a directory has been made at a path. What
leads to a directory does so for as long as there are no fewer directories and links.
-/

namespace Distant.Site

section

variable {β : Type} (site : Site) (permits : FilePath String → Bool)

/-- The directory that the path leads to; without components it is where the path starts. -/
def directory (tree : FileTree String β) (path : FilePath String) : Option (List String) :=
  (site.follow tree (if path.isEmpty = true then ⟨false, [.stay]⟩ else path)).bind fun place =>
    if tree.isDir place = true then some place else none

/-- The directory is made, if the system permits that: a slash at the end is nothing, and there is
always something at `.` and `..`. -/
def mkdir (tree : FileTree String β) (path : FilePath String) : Option (FileTree String β) :=
  match path.steps.reverse.dropWhile (· = .stay) with
  | .name name :: before =>
    (site.directory tree { path with steps := before.reverse }).bind fun parent =>
      if (tree.kind (parent ++ [name])).isNone = true ∧ permits path = true then
        some (tree.insert (parent ++ [name]) .dir)
      else none
  | _ => none

/-- `create_dir_all`, along the components from the last one on. What is refused is no reason to make
the directories above it. -/
def createDirsTo (absolute : Bool) :
    List (PathStep String) → FileTree String β → FileTree String β × Bool
  | [], tree => (tree, true)
  | last :: before, tree =>
    let path : FilePath String := ⟨absolute, (last :: before).reverse⟩
    if permits path = false then (tree, false)
    else
      match site.mkdir permits tree path with
      | some tree => (tree, true)
      | none =>
        if (site.directory tree path).isSome = true then (tree, true)
        else
          match createDirsTo absolute before tree with
          | (tree, false) => (tree, false)
          | (tree, true) =>
            match site.mkdir permits tree path with
            | some tree => (tree, true)
            | none => (tree, (site.directory tree path).isSome)

/-- The tree afterwards, and whether the directory is there. -/
def createDirAll (tree : FileTree String β) (path : FilePath String) :
    FileTree String β × Bool :=
  createDirsTo site permits path.absolute path.steps.reverse tree

end

section

variable {β : Type} {site : Site} {permits : FilePath String → Bool}
  {tree tree' : FileTree String β} {path current : FilePath String} {top : List String}
  {name : String}

theorem directory_eq_some_iff :
    site.directory tree path = some top ↔
      tree.Leads true site.links (FileTree.start site.home path) path.steps top ∧
        tree.kind top = some .dir := by
  have hfollow : ∀ {path : FilePath String}, path.isEmpty = false →
      ((site.follow tree path).bind (fun place =>
        if tree.isDir place = true then some place else none) = some top ↔
        tree.Leads true site.links (FileTree.start site.home path) path.steps top ∧
          tree.kind top = some .dir) := by
    intro path hne
    rw [Option.bind_eq_some_iff]
    constructor
    · rintro ⟨place, hfollow, hdir⟩
      split_ifs at hdir with hkind
      cases hdir
      exact ⟨(FileTree.resolve_iff.1 hfollow).2, FileTree.isDir_iff.1 hkind⟩
    · rintro ⟨hleads, hkind⟩
      exact ⟨top, FileTree.resolve_iff.2 ⟨hne, hleads⟩, if_pos (FileTree.isDir_iff.2 hkind)⟩
  unfold directory
  split_ifs with hempty
  · -- the path has no components
    obtain ⟨absolute, steps⟩ := path
    obtain ⟨rfl, rfl⟩ : absolute = false ∧ steps = [] := by simpa [FilePath.isEmpty] using hempty
    rw [hfollow rfl]
    refine and_congr_left fun hkind => ?_
    generalize site.links = links
    refine ⟨fun h => ?_, fun h => ?_⟩
    · cases h with
      | stay hd h => exact h
    · cases h with
      | nil => exact .stay hkind .nil
  · exact hfollow (by simpa using hempty)

theorem directory_keeps (hw : tree.Keeps tree') (h : site.directory tree path = some top) :
    site.directory tree' path = some top := by
  rw [directory_eq_some_iff] at h ⊢
  exact ⟨h.1.keeps hw, hw.dir h.2⟩

theorem directory_within (hw : tree.Within tree') (h : site.directory tree path = some top) :
    site.directory tree' path = some top :=
  directory_keeps hw.keeps h

/-- Below a directory there is one more exactly where its name leads to a directory. -/
theorem directory_step (h : site.directory tree current = some top)
    (hk : tree.kind (top ++ [name]) = some .dir) :
    site.directory tree (current.step (.name name)) = some (top ++ [name]) := by
  rw [directory_eq_some_iff] at h ⊢
  exact ⟨h.1.concat hk (.inr rfl), hk⟩

theorem directory_below {names : List String} (h : site.directory tree path = some top)
    (hk : tree.kind (top ++ names) = some .dir) :
    site.directory tree (path.below names) = some (top ++ names) := by
  induction names using List.reverseRecOn with
  | nil => simpa using h
  | append_singleton names name ih =>
    rw [← List.append_assoc] at hk ⊢
    have hne : tree.kind (top ++ names ++ [name]) ≠ none := by
      rw [hk]
      simp
    rw [← FilePath.step_below]
    exact directory_step (ih (FileTree.kind_above hne)) hk

/-- Below a directory a name leads to what is there, if that is no link. -/
theorem follow_step {kind : FileKind String β} (h : site.directory tree current = some top)
    (hk : tree.kind (top ++ [name]) = some kind) (hl : kind.isLink = false) :
    site.follow tree (current.step (.name name)) = some (top ++ [name]) :=
  FileTree.resolve_iff.2 ⟨FilePath.isEmpty_step current _,
    (directory_eq_some_iff.1 h).1.concat hk (.inr hl)⟩

/-- What is not there leads nowhere. -/
theorem follow_step_of_free (h : site.directory tree current = some top)
    (hk : tree.kind (top ++ [name]) = none) :
    site.follow tree (current.step (.name name)) = none := by
  rw [Option.eq_none_iff_forall_ne_some]
  intro place hplace
  obtain ⟨top', hleads, hdir, hk'⟩ := (FileTree.resolve_iff.1 hplace).2.init
  have htop : site.directory tree current = some top' := directory_eq_some_iff.2 ⟨hleads, hdir⟩
  rw [h] at htop
  cases htop
  exact hk' hk

theorem exists_of_directory_step {place : List String}
    (h : site.directory tree (current.step (.name name)) = some place) :
    ∃ top, site.directory tree current = some top ∧ tree.kind (top ++ [name]) ≠ none := by
  rw [directory_eq_some_iff] at h
  obtain ⟨top, hleads, hdir, hk⟩ := h.1.init
  exact ⟨top, directory_eq_some_iff.2 ⟨hleads, hdir⟩, hk⟩

theorem directory_step_eq_none (h : site.directory tree current = none) :
    site.directory tree (current.step (.name name)) = none := by
  rw [Option.eq_none_iff_forall_ne_some]
  intro place hplace
  obtain ⟨top, htop, -⟩ := exists_of_directory_step hplace
  rw [h] at htop
  cases htop

/-- What is not there leads to no directory. -/
theorem directory_step_of_free (h : site.directory tree current = some top)
    (hk : tree.kind (top ++ [name]) = none) :
    site.directory tree (current.step (.name name)) = none := by
  rw [Option.eq_none_iff_forall_ne_some]
  intro place hplace
  obtain ⟨top', htop, hk'⟩ := exists_of_directory_step hplace
  rw [h] at htop
  cases htop
  exact hk' hk

theorem mkdir_step (site : Site) (permits : FilePath String → Bool) (tree : FileTree String β)
    (current : FilePath String) (name : String) :
    site.mkdir permits tree (current.step (.name name)) =
      (site.directory tree current).bind fun parent =>
        if (tree.kind (parent ++ [name])).isNone = true ∧
            permits (current.step (.name name)) = true then
          some (tree.insert (parent ++ [name]) .dir)
        else none := by
  simp [mkdir, FilePath.step]

/-- A directory that is made is there, and it is empty. -/
theorem directory_insert (h : site.directory tree current = some top)
    (hfree : tree.kind (top ++ [name]) = none) :
    site.directory (tree.insert (top ++ [name]) .dir) (current.step (.name name)) =
        some (top ++ [name]) ∧
      ∀ other, (tree.insert (top ++ [name]) .dir).kind (top ++ [name] ++ [other]) = none := by
  have hdir : tree.kind (top ++ [name]).dropLast = some .dir := by
    rw [List.dropLast_concat]
    exact (directory_eq_some_iff.1 h).2
  constructor
  · exact directory_step (directory_within (FileTree.within_insert tree (top ++ [name]) .dir) h)
      (FileTree.kind_insert_self (by simp) hfree hdir)
  · intro other
    rw [FileTree.kind_insert (by simp) hfree hdir, if_neg (by simp)]
    exact FileTree.kind_below_of_none hfree [other]

/-! ## All directories of a path -/

/-- A slash behind a path to a directory makes no difference. -/
theorem directory_stays {absolute : Bool} {steps : List (PathStep String)}
    (h : site.directory tree ⟨absolute, steps⟩ = some top) (slashes : List (PathStep String))
    (hstay : ∀ next ∈ slashes, next = .stay) :
    site.directory tree ⟨absolute, steps ++ slashes⟩ = some top := by
  induction slashes using List.reverseRecOn with
  | nil => rwa [List.append_nil]
  | append_singleton slashes next ih =>
    obtain rfl := hstay next (by simp)
    have ih := ih fun other hother => hstay other (by simp [hother])
    rw [directory_eq_some_iff] at ih ⊢
    rw [← List.append_assoc]
    exact ⟨ih.1.concat_stay ih.2, ih.2⟩

/-- A directory that has been made is there. -/
theorem mkdir_eq_some (h : site.mkdir permits tree path = some tree') :
    permits path = true ∧ ∃ parent name, tree.kind parent = some .dir ∧
      tree.kind (parent ++ [name]) = none ∧ tree' = tree.insert (parent ++ [name]) .dir ∧
      site.directory tree' path = some (parent ++ [name]) := by
  obtain ⟨absolute, steps⟩ := path
  unfold mkdir at h
  split at h
  · next name before hsplit =>
    obtain ⟨parent, hparent, hmade⟩ := Option.bind_eq_some_iff.1 h
    split_ifs at hmade with hfree
    cases hmade
    have hfree' : tree.kind (parent ++ [name]) = none := by simpa using hfree.1
    refine ⟨hfree.2, parent, name, (directory_eq_some_iff.1 hparent).2, hfree', rfl, ?_⟩
    -- the components are those before the name, the name, and slashes
    have hsteps : steps = before.reverse ++ [.name name] ++
        (steps.reverse.takeWhile (· = .stay)).reverse := by
      have hall := List.takeWhile_append_dropWhile (p := (· = PathStep.stay)) (l := steps.reverse)
      rw [hsplit] at hall
      simpa using (congrArg List.reverse hall).symm
    have hname := (directory_insert hparent hfree').1
    rw [hsteps]
    refine directory_stays hname _ fun next hnext => ?_
    simpa using List.all_eq_true.1 List.all_takeWhile next (List.mem_reverse.1 hnext)
  · cases h

/-- There are more directories, and nothing else is different. -/
structure Furnished (tree tree' : FileTree String β) : Prop where
  within : tree.Within tree'
  dir : ∀ loc, tree.kind loc = none → tree'.kind loc ≠ none → tree'.kind loc = some .dir

theorem Furnished.refl (tree : FileTree String β) : Furnished tree tree :=
  ⟨fun h => h, fun _ hfree hk => absurd hfree hk⟩

theorem Furnished.trans {tree'' : FileTree String β} (h : Furnished tree tree')
    (h' : Furnished tree' tree'') : Furnished tree tree'' := by
  refine ⟨FileTree.Within.trans h.within h'.within, fun loc hfree hk => ?_⟩
  by_cases hmade : tree'.kind loc = none
  · exact h'.dir loc hmade hk
  · exact h'.within (h.dir loc hfree hmade)

theorem furnished_mkdir (h : site.mkdir permits tree path = some tree') : Furnished tree tree' := by
  obtain ⟨-, parent, name, hdir, hfree, rfl, -⟩ := mkdir_eq_some h
  refine ⟨FileTree.within_insert tree _ _, fun loc hloc hk => ?_⟩
  rw [FileTree.kind_insert (by simp) hfree (by rwa [List.dropLast_concat])] at hk ⊢
  split_ifs at hk ⊢
  · rfl
  · exact absurd hloc hk

/-- The directory is made, or it is there, in the tree as it is or when the directories above it have
been made. -/
theorem createDirsTo_cases {absolute : Bool} {last : PathStep String}
    {before : List (PathStep String)} {made : Bool}
    (h : site.createDirsTo permits absolute (last :: before) tree = (tree', made)) :
    (tree' = tree ∧ made = false) ∨
      (permits ⟨absolute, (last :: before).reverse⟩ = true ∧
        ∃ tree₁, (tree₁ = tree ∨ ∃ above, site.createDirsTo permits absolute before tree =
            (tree₁, above)) ∧
          (site.mkdir permits tree₁ ⟨absolute, (last :: before).reverse⟩ = some tree' ∨
            (tree' = tree₁ ∧ (made = true →
              (site.directory tree₁ ⟨absolute, (last :: before).reverse⟩).isSome = true)))) := by
  rw [createDirsTo] at h
  generalize (⟨absolute, (last :: before).reverse⟩ : FilePath String) = path at h ⊢
  by_cases hrefused : permits path = false
  · rw [if_pos hrefused] at h
    cases h
    exact .inl ⟨rfl, rfl⟩
  rw [if_neg hrefused] at h
  refine .inr ⟨by simpa using hrefused, ?_⟩
  cases hmkdir : site.mkdir permits tree path with
  | some tree₁ =>
    simp only [hmkdir] at h
    cases h
    exact ⟨tree, .inl rfl, .inl hmkdir⟩
  | none =>
    simp only [hmkdir] at h
    by_cases hthere : (site.directory tree path).isSome = true
    · rw [if_pos hthere] at h
      cases h
      exact ⟨tree, .inl rfl, .inr ⟨rfl, fun _ => hthere⟩⟩
    rw [if_neg hthere] at h
    rcases habove : site.createDirsTo permits absolute before tree with ⟨tree₁, above⟩
    refine ⟨tree₁, .inr ⟨above, rfl⟩, ?_⟩
    cases above with
    | false =>
      simp only [habove] at h
      cases h
      exact .inr ⟨rfl, nofun⟩
    | true =>
      simp only [habove] at h
      cases hagain : site.mkdir permits tree₁ path with
      | some tree₂ =>
        simp only [hagain] at h
        cases h
        exact .inl rfl
      | none =>
        simp only [hagain] at h
        cases h
        exact .inr ⟨rfl, id⟩

theorem furnished_createDirsTo {absolute : Bool} {before : List (PathStep String)} {made : Bool}
    (h : site.createDirsTo permits absolute before tree = (tree', made)) :
    Furnished tree tree' := by
  induction before generalizing tree' made with
  | nil =>
    cases h
    exact .refl tree
  | cons last before ih =>
    obtain ⟨rfl, -⟩ | ⟨-, tree₁, habove, hmade⟩ := createDirsTo_cases h
    · exact .refl _
    have hfirst : Furnished tree tree₁ := by
      obtain rfl | ⟨above, habove⟩ := habove
      · exact .refl _
      · exact ih habove
    obtain hmkdir | ⟨rfl, -⟩ := hmade
    · exact hfirst.trans (furnished_mkdir hmkdir)
    · exact hfirst

theorem furnished_createDirAll {made : Bool} (h : site.createDirAll permits tree path = (tree', made)) :
    Furnished tree tree' :=
  furnished_createDirsTo h

/-- Where `create_dir_all` succeeds, the directory is there. -/
theorem directory_of_createDirAll (hhome : tree.kind site.home = some .dir)
    (h : site.createDirAll permits tree path = (tree', true)) :
    (path.steps = [] ∨ permits path = true) ∧ ∃ top, site.directory tree' path = some top := by
  have hpath : path = ⟨path.absolute, path.steps.reverse.reverse⟩ := by simp
  unfold createDirAll at h
  rw [hpath]
  generalize path.absolute = absolute at h ⊢
  generalize path.steps.reverse = before at h ⊢
  cases before with
  | nil =>
    cases h
    refine ⟨.inl rfl, FileTree.start site.home ⟨absolute, []⟩, directory_eq_some_iff.2 ⟨.nil, ?_⟩⟩
    cases absolute with
    | false => exact hhome
    | true => rfl
  | cons last before =>
    obtain ⟨-, hmade⟩ | ⟨hpermits, tree₁, -, hmade⟩ := createDirsTo_cases h
    · cases hmade
    refine ⟨.inr hpermits, ?_⟩
    obtain hmkdir | ⟨rfl, hthere⟩ := hmade
    · obtain ⟨-, parent, name, -, -, -, hdir⟩ := mkdir_eq_some hmkdir
      exact ⟨_, hdir⟩
    · exact Option.isSome_iff_exists.1 (hthere rfl)

/-- Where the directory is there already, nothing happens. -/
theorem createDirAll_of_directory (hpermits : path.steps = [] ∨ permits path = true)
    (h : site.directory tree path = some top) :
    site.createDirAll permits tree path = (tree, true) := by
  have hpath : path = ⟨path.absolute, path.steps.reverse.reverse⟩ := by simp
  have hsteps : path.steps = [] ↔ path.steps.reverse = [] := by simp
  unfold createDirAll
  rw [hsteps] at hpermits
  rw [hpath] at hpermits h
  generalize path.absolute = absolute at *
  generalize path.steps.reverse = before at *
  cases before with
  | nil => rfl
  | cons last before =>
    have hpermits := hpermits.resolve_left (by simp)
    rw [createDirsTo]
    cases hmkdir : site.mkdir permits tree ⟨absolute, (last :: before).reverse⟩ with
    | some tree' =>
      -- it has not been there
      obtain ⟨-, parent, name, -, hfree, rfl, hdir⟩ := mkdir_eq_some hmkdir
      rw [directory_within (FileTree.within_insert tree _ _) h] at hdir
      cases hdir
      rw [(directory_eq_some_iff.1 h).2] at hfree
      cases hfree
    | none => simp only [hpermits, h, Option.isSome_some, if_true, Bool.true_eq_false, if_false]

end

end Distant.Site
