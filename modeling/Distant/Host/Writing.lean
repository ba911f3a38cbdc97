import Distant.Host.Copy

/-!
# Writing below a directory

What there is after directories have been made and files have been written below a directory, as
long as there are no links below it.
-/

namespace Distant.Site

section

variable (site : Site) (permits : FilePath String → Bool)

/-- The content of the file that the path leads to. -/
def readFile (tree : FileTree String Bytes) (path : FilePath String) : Option Bytes :=
  match site.metadata tree path with
  | some (.file content) => some content
  | _ => none

/-- `create_dir` with `all` for one path after the other, up to the first that fails. -/
def createDirs {β : Type} : List (FilePath String) → FileTree String β →
    FileTree String β × Except (FilePath String) Unit
  | [], tree => (tree, .ok ())
  | path :: paths, tree =>
    match site.createDirAll permits tree path with
    | (tree, true) => createDirs paths tree
    | (tree, false) => (tree, .error path)

/-- `write_file`: what is there is written over, and what is not there is made. -/
def writeFile (tree : FileTree String Bytes) (path : FilePath String) (data : Bytes) :
    Option (FileTree String Bytes) :=
  if permits path = false then none
  else
    match site.follow tree path with
    | some place => if tree.isDir place = true then none else some (tree.write place data)
    | none =>
      (site.creates tree site.links site.home path).bind fun place =>
        if site.follow (tree.insert place (.file data)) path = some place then
          some (tree.insert place (.file data))
        else none

end

/-- Neither the place nor anything below it is a link. -/
def NoLinks {β : Type} (tree : FileTree String β) (top : List String) : Prop :=
  ∀ names target, tree.kind (top ++ names) ≠ some (.link target)

/-- A directory has been made at the path, and there is nothing in it. -/
structure IsNew {β : Type} (site : Site) (permits : FilePath String → Bool)
    (tree : FileTree String β)
    (path : FilePath String) (tree' : FileTree String β) (top : List String) : Prop where
  home : tree.kind site.home = some .dir
  made : site.createDirAll permits tree path = (tree', true)
  dir : site.directory tree' path = some top
  free : ∀ names, names ≠ [] → tree'.kind (top ++ names) = none

section

variable {β : Type} {site : Site} {permits : FilePath String → Bool}
  {tree tree' : FileTree String β} {path current : FilePath String} {top names : List String}
  {name : String}

theorem NoLinks.below (h : NoLinks tree top) (names : List String) :
    NoLinks tree (top ++ names) := by
  intro rest target
  rw [List.append_assoc]
  exact h (names ++ rest) target

theorem NoLinks.furnished (h : NoLinks tree top) (hf : Furnished tree tree') :
    NoLinks tree' top := by
  intro names target hlink
  cases hk : tree.kind (top ++ names) with
  | none =>
    have hdir := hf.dir _ hk (by simp [hlink])
    rw [hlink] at hdir
    cases hdir
  | some kind =>
    have hkind := hf.within hk
    rw [hlink] at hkind
    cases hkind
    exact h names target hk

theorem noLinks_of_nodes (h : ∀ node ∈ tree.nodes, node.2.isLink = false) (top : List String) :
    NoLinks tree top := by
  intro names target hk
  by_cases hroot : top ++ names = []
  · rw [hroot] at hk
    cases hk
  · cases h _ (FileTree.mem_nodes_of_kind hk hroot)

theorem IsNew.kind_top (h : IsNew site permits tree path tree' top) : tree'.kind top = some .dir :=
  (directory_eq_some_iff.1 h.dir).2

theorem IsNew.noLinks (h : IsNew site permits tree path tree' top) : NoLinks tree' top := by
  intro names target hk
  by_cases hnames : names = []
  · rw [hnames, List.append_nil, h.kind_top] at hk
    cases hk
  · rw [h.free names hnames] at hk
    cases hk

/-- Names below a directory lead to a directory only where they stand. -/
theorem directory_below_eq (h : site.directory tree path = some top) (hlinks : NoLinks tree top)
    (names : List String) :
    site.directory tree (path.below names) =
      if tree.isDir (top ++ names) = true then some (top ++ names) else none := by
  split_ifs with hdir
  · exact directory_below h (FileTree.isDir_iff.1 hdir)
  induction names using List.reverseRecOn with
  | nil =>
    rw [List.append_nil, FileTree.isDir_iff] at hdir
    exact absurd (directory_eq_some_iff.1 h).2 hdir
  | append_singleton names name ih =>
    rw [← FilePath.step_below]
    by_cases habove : tree.isDir (top ++ names) = true
    · have hnames := directory_below h (FileTree.isDir_iff.1 habove)
      cases hk : tree.kind (top ++ names ++ [name]) with
      | none => exact directory_step_of_free hnames hk
      | some kind =>
        have hlink : kind.isLink = false := by
          cases kind with
          | dir => rfl
          | file content => rfl
          | link target => exact absurd (by rwa [List.append_assoc] at hk) (hlinks _ target)
        rw [List.append_assoc] at hk
        have hfollow := follow_step hnames (by rwa [List.append_assoc]) hlink
        rw [directory, if_neg (by simp [FilePath.isEmpty_step]), hfollow]
        simpa using hdir
    · exact directory_step_eq_none (ih habove)

theorem createDirAll_step (site : Site) (permits : FilePath String → Bool)
    (tree : FileTree String β)
    (current : FilePath String) (next : PathStep String) :
    site.createDirAll permits tree (current.step next) =
      if permits (current.step next) = false then (tree, false)
      else
        match site.mkdir permits tree (current.step next) with
        | some tree => (tree, true)
        | none =>
          if (site.directory tree (current.step next)).isSome = true then (tree, true)
          else
            match site.createDirAll permits tree current with
            | (tree, false) => (tree, false)
            | (tree, true) =>
              match site.mkdir permits tree (current.step next) with
              | some tree => (tree, true)
              | none => (tree, (site.directory tree (current.step next)).isSome) := by
  simp only [createDirAll, FilePath.step, List.reverse_append, List.reverse_cons, List.reverse_nil,
    List.nil_append, List.singleton_append, createDirsTo, List.reverse_reverse]
  rfl

theorem mkdir_step_of_free (h : site.directory tree current = some top)
    (hfree : tree.kind (top ++ [name]) = none)
    (hpermits : permits (current.step (.name name)) = true) :
    site.mkdir permits tree (current.step (.name name)) =
      some (tree.insert (top ++ [name]) .dir) := by
  rw [mkdir_step, h]
  exact if_pos ⟨by rw [hfree]; rfl, hpermits⟩

theorem mkdir_step_of_kind (h : site.directory tree current = some top)
    (hk : tree.kind (top ++ [name]) ≠ none) :
    site.mkdir permits tree (current.step (.name name)) = none := by
  rw [mkdir_step, h]
  exact if_neg fun hfree => hk (by simpa using hfree.1)

/-- Directories below a directory are made where they are missing. -/
theorem createDirAll_below (h : site.directory tree path = some top) (hlinks : NoLinks tree top)
    (hbase : path.steps = [] ∨ permits path = true)
    (hpermits : ∀ way, way <+: names → way ≠ [] → permits (path.below way) = true)
    (hfits : ∀ way, way <+: names → ∀ kind, tree.kind (top ++ way) = some kind → kind = .dir) :
    ∃ tree', site.createDirAll permits tree (path.below names) = (tree', true) ∧
      ∀ loc, tree'.kind loc =
        if top <+: loc ∧ loc <+: top ++ names then some .dir else tree.kind loc := by
  induction names using List.reverseRecOn with
  | nil =>
    refine ⟨tree, by simpa using createDirAll_of_directory hbase h, fun loc => ?_⟩
    split_ifs with hloc
    · rw [List.append_nil] at hloc
      rw [← hloc.1.eq_of_length (Nat.le_antisymm hloc.1.length_le hloc.2.length_le)]
      exact (directory_eq_some_iff.1 h).2
    · rfl
  | append_singleton names name ih =>
    have hways : ∀ {way}, way <+: names → way <+: names ++ [name] := fun hway =>
      hway.trans (List.prefix_append _ _)
    have hallowed := hpermits (names ++ [name]) List.prefix_rfl (by simp)
    obtain ⟨tree₁, hmade, hkind⟩ := ih (fun way hway => hpermits way (hways hway))
      fun way hway => hfits way (hways hway)
    have hlast := hfits (names ++ [name]) List.prefix_rfl
    rw [← FilePath.step_below] at hallowed ⊢
    rw [← List.append_assoc] at hlast
    rw [createDirAll_step, if_neg (by simp [hallowed])]
    -- what is new is the last one, and what has been made on the way to it
    have hbetween : ∀ loc, (top <+: loc ∧ loc <+: top ++ (names ++ [name])) ↔
        (top <+: loc ∧ loc <+: top ++ names) ∨ loc = top ++ names ++ [name] := by
      intro loc
      rw [← List.append_assoc, List.prefix_concat_iff]
      constructor
      · rintro ⟨habove, rfl | hloc⟩
        · exact .inr rfl
        · exact .inl ⟨habove, hloc⟩
      · rintro (⟨habove, hloc⟩ | rfl)
        · exact ⟨habove, .inr hloc⟩
        · exact ⟨(List.prefix_append _ _).trans (List.prefix_append _ _), .inl rfl⟩
    have hdir₁ : tree₁.kind (top ++ names) = some .dir := by
      rw [hkind, if_pos ⟨List.prefix_append _ _, List.prefix_rfl⟩]
    have hnew : tree₁.kind (top ++ names ++ [name]) = tree.kind (top ++ names ++ [name]) := by
      rw [hkind, if_neg]
      rintro ⟨-, hloc⟩
      have := hloc.length_le
      simp only [List.length_append, List.length_singleton] at this
      omega
    have hinsert : tree.kind (top ++ names ++ [name]) = none → ∀ loc,
        (tree₁.insert (top ++ names ++ [name]) .dir).kind loc =
          if top <+: loc ∧ loc <+: top ++ (names ++ [name]) then some .dir else tree.kind loc := by
      intro hfree loc
      rw [FileTree.kind_insert (by simp) (hnew.trans hfree) (by rwa [List.dropLast_concat]), hkind]
      simp only [hbetween]
      split_ifs <;> simp_all
    cases hk : tree.kind (top ++ names) with
    | none =>
      have hnone : site.directory tree (path.below names) = none := by
        rw [directory_below_eq h hlinks, if_neg (by simp [FileTree.isDir, hk])]
      have hfree := FileTree.kind_below_of_none hk [name]
      have hnames := directory_below
        (directory_within (furnished_createDirAll hmade).within h) hdir₁
      have hfirst : site.mkdir permits tree ((path.below names).step (.name name)) = none := by
        rw [mkdir_step, hnone]
        rfl
      have hsecond : site.mkdir permits tree₁ ((path.below names).step (.name name)) =
          some (tree₁.insert (top ++ names ++ [name]) .dir) :=
        mkdir_step_of_free hnames (hnew.trans hfree) hallowed
      refine ⟨_, ?_, hinsert hfree⟩
      simp [hfirst, directory_step_eq_none hnone, hmade, hsecond]
    | some kind =>
      obtain rfl := hfits names (List.prefix_append _ _) kind hk
      have hnames := directory_below h hk
      obtain rfl : tree = tree₁ := by
        have hbase' : (path.below names).steps = [] ∨ permits (path.below names) = true := by
          by_cases hnil : names = []
          · simpa [hnil] using hbase
          · exact .inr (hpermits names (List.prefix_append _ _) hnil)
        rw [createDirAll_of_directory hbase' hnames] at hmade
        cases hmade
        rfl
      cases hk' : tree.kind (top ++ names ++ [name]) with
      | none =>
        refine ⟨_, ?_, hinsert hk'⟩
        simp only [mkdir_step_of_free hnames hk' hallowed]
      | some last =>
        obtain rfl := hlast last hk'
        refine ⟨tree, ?_, fun loc => ?_⟩
        · simp only [mkdir_step_of_kind hnames (by rw [hk']; simp), directory_step hnames hk',
            Option.isSome_some, if_true]
        · simp only [hbetween]
          split_ifs with hloc
          · rcases hloc with hloc | rfl
            · rw [hkind, if_pos hloc]
            · exact hk'
          · rfl

/-- Where directories have been made, there was nothing but directories. -/
theorem dir_of_createDirAll (hhome : tree.kind site.home = some .dir)
    (h : site.directory tree path = some top) (hlinks : NoLinks tree top)
    (hmade : site.createDirAll permits tree (path.below names) = (tree', true)) :
    tree'.kind (top ++ names) = some .dir := by
  have hf := furnished_createDirAll hmade
  obtain ⟨-, place, hplace⟩ := directory_of_createDirAll hhome hmade
  rw [directory_below_eq (directory_within hf.within h) (hlinks.furnished hf)] at hplace
  split_ifs at hplace with hdir
  exact FileTree.isDir_iff.1 hdir

theorem createDirs_below {rels : List (List String)} (h : site.directory tree path = some top)
    (hlinks : NoLinks tree top) (hbase : path.steps = [] ∨ permits path = true)
    (hpermits : ∀ rel ∈ rels, ∀ way, way <+: rel → way ≠ [] → permits (path.below way) = true)
    (hfits : ∀ rel ∈ rels, ∀ way, way <+: rel → ∀ kind,
      tree.kind (top ++ way) = some kind → kind = .dir) :
    ∃ tree', site.createDirs permits (rels.map path.below) tree = (tree', .ok ()) ∧
      ∀ loc, (∀ rel ∈ rels, ¬(top <+: loc ∧ loc <+: top ++ rel)) →
        tree'.kind loc = tree.kind loc := by
  induction rels generalizing tree with
  | nil => exact ⟨tree, rfl, fun _ _ => rfl⟩
  | cons rel rels ih =>
    obtain ⟨tree₁, hmade, hkind⟩ := createDirAll_below h hlinks hbase
      (hpermits rel List.mem_cons_self) (hfits rel List.mem_cons_self)
    have hf := furnished_createDirAll hmade
    obtain ⟨tree', hrun, hother⟩ := ih (directory_within hf.within h) (hlinks.furnished hf)
      (fun rel hrel => hpermits rel (List.mem_cons_of_mem _ hrel))
      (fun rel hrel way hway kind hk => by
        rw [hkind] at hk
        split_ifs at hk
        · cases hk
          rfl
        · exact hfits rel (List.mem_cons_of_mem _ hrel) way hway kind hk)
    refine ⟨tree', ?_, fun loc hloc => ?_⟩
    · rw [List.map_cons, createDirs, hmade]
      exact hrun
    · rw [hother loc fun rel hrel => hloc rel (List.mem_cons_of_mem _ hrel), hkind,
        if_neg (hloc rel List.mem_cons_self)]

/-- Whether or not all of them are made, and that they are there if so. -/
theorem createDirs_spec {rels : List (List String)} {result : Except (FilePath String) Unit}
    (hhome : tree.kind site.home = some .dir) (h : site.directory tree path = some top)
    (hlinks : NoLinks tree top) (hne : ∀ rel ∈ rels, rel ≠ [])
    (hrun : site.createDirs permits (rels.map path.below) tree = (tree', result)) :
    Furnished tree tree' ∧ (result = .ok () → ∀ rel ∈ rels,
      permits (path.below rel) = true ∧ tree'.kind (top ++ rel) = some .dir) := by
  induction rels generalizing tree with
  | nil =>
    cases hrun
    exact ⟨.refl _, by simp⟩
  | cons rel rels ih =>
    rw [List.map_cons, createDirs] at hrun
    rcases hmade : site.createDirAll permits tree (path.below rel) with ⟨tree₁, made⟩
    have hf := furnished_createDirAll hmade
    rw [hmade] at hrun
    cases made with
    | false =>
      cases hrun
      exact ⟨hf, by simp⟩
    | true =>
      obtain ⟨hf', hok⟩ := ih (hf.within hhome) (directory_within hf.within h)
        (hlinks.furnished hf) (fun rel hrel => hne rel (List.mem_cons_of_mem _ hrel)) hrun
      refine ⟨hf.trans hf', fun hresult other hother => ?_⟩
      rcases List.mem_cons.1 hother with rfl | hother
      · refine ⟨(directory_of_createDirAll hhome hmade).1.resolve_left ?_,
          hf'.within (dir_of_createDirAll hhome h hlinks hmade)⟩
        intro hsteps
        exact hne other List.mem_cons_self (by simpa using (List.append_eq_nil_iff.1 hsteps).2)
      · exact hok hresult other hother

end

section

variable {site : Site} {permits : FilePath String → Bool} {tree tree' : FileTree String Bytes}
  {current : FilePath String} {top : List String} {name : String} {data : Bytes}

/-- A file that has been written over or made has changed nothing that leads on. -/
theorem keeps_of_written {loc : List String}
    (hkind : ∀ loc', tree'.kind loc' = if loc' = loc then some (.file data) else tree.kind loc')
    (hdir : tree.kind loc ≠ some .dir) (hlink : ∀ target, tree.kind loc ≠ some (.link target)) :
    tree.Keeps tree' := by
  intro loc' kind hk
  rw [hkind]
  split_ifs with hloc
  · subst hloc
    cases kind with
    | dir => exact absurd hk hdir
    | link target => exact absurd hk (hlink target)
    | file old => exact ⟨_, rfl, rfl⟩
  · exact ⟨kind, hk, rfl⟩

theorem NoLinks.written {loc : List String} (h : NoLinks tree top)
    (hkind : ∀ loc', tree'.kind loc' = if loc' = loc then some (.file data) else tree.kind loc') :
    NoLinks tree' top := by
  intro names target hk
  rw [hkind] at hk
  split_ifs at hk
  · cases hk
  · exact h names target hk

/-- In a directory, a file is written where there is no other directory. -/
theorem writeFile_step (h : site.directory tree current = some top)
    (hlink : ∀ target, tree.kind (top ++ [name]) ≠ some (.link target)) :
    (∀ tree', site.writeFile permits tree (current.step (.name name)) data = some tree' →
      permits (current.step (.name name)) = true ∧ tree.kind (top ++ [name]) ≠ some .dir ∧
        ∀ loc, tree'.kind loc = if loc = top ++ [name] then some (.file data) else tree.kind loc) ∧
      (permits (current.step (.name name)) = true → tree.kind (top ++ [name]) ≠ some .dir →
        (site.writeFile permits tree (current.step (.name name)) data).isSome = true) := by
  have hdir : tree.kind (top ++ [name]).dropLast = some .dir := by
    rw [List.dropLast_concat]
    exact (directory_eq_some_iff.1 h).2
  unfold writeFile
  by_cases hrefused : permits (current.step (.name name)) = false
  · simp [hrefused]
  have hallowed : permits (current.step (.name name)) = true := by simpa using hrefused
  rw [if_neg hrefused]
  cases hk : tree.kind (top ++ [name]) with
  | none =>
    have hcreates : site.creates tree site.links site.home (current.step (.name name)) =
        some (top ++ [name]) := by
      cases site.links with
      | zero => simp [creates, createsAt_step h, hk]
      | succ links => simp [creates, createsAt_step h, hk]
    have hinsert : (tree.insert (top ++ [name]) (.file data)).kind (top ++ [name]) =
        some (.file data) := FileTree.kind_insert_self (by simp) hk hdir
    have hreached : site.follow (tree.insert (top ++ [name]) (.file data))
        (current.step (.name name)) = some (top ++ [name]) :=
      follow_step (directory_within (FileTree.within_insert tree _ _) h) hinsert rfl
    rw [follow_step_of_free h hk]
    simp only [hcreates, Option.bind_some, if_pos hreached]
    refine ⟨?_, fun _ _ => rfl⟩
    rintro tree' ⟨⟩
    exact ⟨hallowed, by simp, FileTree.kind_insert (by simp) hk hdir⟩
  | some kind =>
    cases kind with
    | link target => exact absurd hk (hlink target)
    | dir =>
      rw [follow_step h hk rfl]
      simp [FileTree.isDir, hk]
    | file old =>
      rw [follow_step h hk rfl]
      have hnot : tree.isDir (top ++ [name]) = false := by simp [FileTree.isDir, hk]
      simp only [hnot, Bool.false_eq_true, if_false]
      refine ⟨?_, fun _ _ => rfl⟩
      rintro tree' ⟨⟩
      refine ⟨hallowed, by simp, fun loc => ?_⟩
      rw [FileTree.kind_write]
      split_ifs with hloc
      · rw [hloc, hk]
        rfl
      · rfl

end

end Distant.Site
