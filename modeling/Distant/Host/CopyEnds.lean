import Distant.Host.Copy

/-!
# When a copy on the host ends

The paths that have been dealt with are all different, and each is in the source when it is dealt
with. `ends_iff` says that there are infinitely many only where the destination is in the source and
the way down to it can be gone again and again, so that never happens where paths have a greatest
length (`ends_of_short`).
-/

namespace Distant

namespace HostCopy

section

variable {site : Site} {permits : FilePath String → Bool} {src dst : FilePath String}
  {tree made : FileTree String Bytes} {top target : List String}

/-! ## How the tree grows -/

/-- How much there is below a place. -/
def size (tree : FileTree String Bytes) (loc : List String) : Nat :=
  (tree.below (fun _ => true) loc).length

/-- There is one node more at most, at a place or where a link there leads. -/
structure Extends (tree tree' : FileTree String Bytes) (place : List String) : Prop where
  keeps : tree.Keeps tree'
  links : ∀ loc link, tree'.kind loc = some (.link link) → tree.kind loc = some (.link link)
  grows : ((∀ loc, tree.kind loc = none → tree'.kind loc = none) ∧ ∀ loc, size tree' loc ≤ size tree loc) ∨
    ∃ new, (new = place ∨ ∃ link, tree.kind place = some (.link link)) ∧ tree.kind new = none ∧
      (∀ loc, tree.kind loc = none → tree'.kind loc ≠ none → loc = new) ∧
      ∀ loc, size tree' loc ≤ size tree loc + if loc <+: new then 1 else 0

theorem extends_write (tree : FileTree String Bytes) (loc place : List String) (content : Bytes) :
    Extends tree (tree.write loc content) place where
  keeps := FileTree.keeps_write tree loc content
  links := by
    intro other link hlink
    rw [FileTree.kind_write] at hlink
    split_ifs at hlink with hother
    · obtain ⟨kind, hk, hwritten⟩ := Option.map_eq_some_iff.1 hlink
      cases kind <;> cases hwritten
      exact hk
    · exact hlink
  grows := by
    refine .inl ⟨fun other hfree => ?_, fun other => ?_⟩
    · rw [FileTree.kind_write, hfree]
      simp
    · exact (FileTree.length_below_write tree _ other loc content).le

theorem extends_insert {new place : List String} {kind : FileKind String Bytes}
    (hfree : tree.kind new = none) (hplace : new = place ∨ ∃ link, tree.kind place = some (.link link))
    (hnot : kind.isLink = false) : Extends tree (tree.insert new kind) place where
  keeps := FileTree.Within.keeps (FileTree.within_insert tree new kind)
  links := by
    intro loc link hlink
    by_cases hloc : tree.kind loc = none
    · have hk : (tree.insert new kind).kind loc = some kind :=
        (FileTree.eq_of_insert hloc (by rw [hlink]; simp)).2
      rw [hlink] at hk
      cases hk
      cases hnot
    · rw [← hlink]
      exact (FileTree.Within.kind_eq (FileTree.within_insert tree new kind) hloc).symm
  grows := by
    refine .inr ⟨new, hplace, hfree, fun loc hloc hk => (FileTree.eq_of_insert hloc hk).1, fun loc => ?_⟩
    exact FileTree.length_below_insert tree _ loc new kind

/-- What dealing with an entry adds, and that a directory is then at the destination. -/
theorem Visits.extends {visited : List (List String)} {rel : List String}
    {tree' : FileTree String Bytes} (hsettled : Settled site permits src dst tree top target)
    (hpending : Pending tree top target visited rel)
    (h : Visits site permits src dst top target tree rel tree') :
    Extends tree tree' (target ++ rel) ∧ (tree.kind (top ++ rel) = some .dir →
      tree.kind (target ++ rel) = none ∧ tree'.kind (target ++ rel) = some .dir) := by
  have hne := hpending.ne_nil
  obtain ⟨before, name, rfl⟩ : ∃ before name, rel = before ++ [name] :=
    ⟨_, _, (List.dropLast_append_getLast hne).symm⟩
  have habove := hpending.dir
  rw [List.dropLast_concat] at habove
  cases h with
  | dir hk hfree =>
    refine ⟨extends_insert hfree (.inl rfl) rfl, fun _ => ⟨hfree, ?_⟩⟩
    refine FileTree.kind_insert_self (by simp) hfree ?_
    rwa [← List.append_assoc, List.dropLast_concat]
  | file hk hnot hcopy =>
    refine ⟨?_, fun hdir => ?_⟩
    · have hdst := Site.directory_below hsettled.destination habove
      obtain ⟨-, -, ⟨place, content, rfl⟩ | ⟨place, content, hcreates, rfl⟩⟩ :=
        Site.copyFile_spec hcopy
      · exact extends_write _ _ _ _
      · rw [← FilePath.step_below] at hcreates
        have hplace := Site.creates_step hdst hcreates
        rw [List.append_assoc] at hplace
        exact extends_insert (Site.creates_spec hcreates).1 hplace rfl
    · rw [hk] at hdir
      cases hdir
      cases hnot

/-- The tree when some paths have been dealt with since the destination was made. -/
structure Changed (permits : FilePath String → Bool) (src dst : FilePath String)
    (made : FileTree String Bytes) (top target : List String) (visited : List (List String))
    (tree : FileTree String Bytes) : Prop where
  source : made.kind top = some .dir
  keeps : made.Keeps tree
  nodup : visited.Nodup
  there : ∀ rel ∈ visited, tree.kind (top ++ rel) ≠ none
  permitted : ∀ rel ∈ visited, permits (src.below rel) = true ∧ permits (dst.below rel) = true
  dirs : ∀ rel ∈ visited, tree.kind (top ++ rel) = some .dir →
    made.kind (target ++ rel) = none ∧ tree.kind (target ++ rel) = some .dir
  links : ∀ loc link, tree.kind loc = some (.link link) → made.kind loc = some (.link link)
  new : ∀ loc, made.kind loc = none → tree.kind loc ≠ none →
    ∃ rel ∈ visited, loc = target ++ rel ∨ ∃ link, made.kind (target ++ rel) = some (.link link)

theorem Changed.visit {visited : List (List String)} {rel : List String}
    {tree' : FileTree String Bytes}
    (h : Changed permits src dst made top target visited tree)
    (hpending : Pending tree top target visited rel)
    (hpermits : permits (src.below rel) = true ∧ permits (dst.below rel) = true)
    (hextends : Extends tree tree' (target ++ rel))
    (hdir : tree.kind (top ++ rel) = some .dir →
      tree.kind (target ++ rel) = none ∧ tree'.kind (target ++ rel) = some .dir) :
    Changed permits src dst made top target (rel :: visited) tree' where
  source := h.source
  keeps := h.keeps.trans hextends.keeps
  nodup := List.nodup_cons.2 ⟨hpending.new, h.nodup⟩
  there := by
    intro r hr
    rcases List.mem_cons.1 hr with rfl | hr
    · exact hextends.keeps.kind_ne hpending.there
    · exact hextends.keeps.kind_ne (h.there r hr)
  permitted := by
    intro r hr
    rcases List.mem_cons.1 hr with rfl | hr
    · exact hpermits
    · exact h.permitted r hr
  dirs := by
    intro r hr hk
    rcases List.mem_cons.1 hr with rfl | hr
    · obtain ⟨hfree, hmade⟩ := hdir (hextends.keeps.dir_of hpending.there hk)
      refine ⟨?_, hmade⟩
      by_contra hne
      exact h.keeps.kind_ne hne hfree
    · obtain ⟨hfree, hmade⟩ := h.dirs r hr (hextends.keeps.dir_of (h.there r hr) hk)
      exact ⟨hfree, hextends.keeps.dir hmade⟩
  links loc link hk := h.links loc link (hextends.links loc link hk)
  new := by
    intro loc hfree hk
    by_cases hbefore : tree.kind loc = none
    · obtain ⟨hsame, -⟩ | ⟨new, hplace, -, hnew, -⟩ := hextends.grows
      · exact absurd (hsame loc hbefore) hk
      · rw [hnew loc hbefore hk]
        refine ⟨rel, List.mem_cons_self, hplace.imp_right ?_⟩
        rintro ⟨link, hlink⟩
        exact ⟨link, h.links _ _ hlink⟩
    · obtain ⟨r, hr, hplace⟩ := h.new loc hfree hbefore
      exact ⟨r, List.mem_cons_of_mem _ hr, hplace⟩

/-- A state of the copy before it has failed. -/
structure Going (site : Site) (permits : FilePath String → Bool) (src dst : FilePath String)
    (made : FileTree String Bytes) (top target : List String) (visited : List (List String))
    (s : Copying) : Prop where
  settled : Settled site permits src dst s.tree top target
  walked : Walked permits dst made top target visited s
  changed : Changed permits src dst made top target visited s.tree

/-- What one read leads to while the copy is going on. -/
theorem Going.next {visited : List (List String)} {s s' : Copying} {read : Read}
    (h : Going site permits src dst made top target visited s)
    (hnext : next site permits src dst s read = some s') :
    (∃ rel, Pending s.tree top target visited rel ∧
        Fails site permits src dst top target s.tree rel ∧ ∃ e, s'.outcome = some (.error e)) ∨
      (s'.tree = s.tree ∧ s'.dirs.length < s.dirs.length ∧
        Going site permits src dst made top target visited s') ∨
      ∃ rel, Pending s.tree top target visited rel ∧
        Visits site permits src dst top target s.tree rel s'.tree ∧
        Extends s.tree s'.tree (target ++ rel) ∧ s'.dirs.length ≤ s.dirs.length + 1 ∧
        Going site permits src dst made top target (rel :: visited) s' := by
  obtain hfails | ⟨htree, hlength, hwalked⟩ | ⟨rel, hpending, hreads, hwrites, hvisits, hlength,
    hwalked⟩ := next_cases h.settled h.changed.keeps h.walked hnext
  · exact .inl hfails
  · exact .inr (.inl ⟨htree, hlength, htree ▸ h.settled, hwalked, htree ▸ h.changed⟩)
  · obtain ⟨hextends, hdir⟩ := hvisits.extends h.settled hpending
    refine .inr (.inr ⟨rel, hpending, hvisits, hextends, hlength, ?_, ?_, ?_⟩)
    · exact h.settled.keeps hextends.keeps
    · exact hwalked hextends.keeps fun hk => (hdir hk).2
    · exact h.changed.visit hpending ⟨hreads, hwrites⟩ hextends hdir

/-! ## The beginning -/

theorem destination_eq_some_iff :
    destination site permits dst tree = some (made, target) ↔
      site.createDirAll permits tree dst = (made, true) ∧ site.directory made dst = some target := by
  unfold destination
  rcases site.createDirAll permits tree dst with ⟨tree', _ | _⟩
  · simp
  · simp only [Option.map_eq_some_iff, Prod.mk.injEq, and_true]
    constructor
    · rintro ⟨place, hplace, rfl, rfl⟩
      exact ⟨rfl, hplace⟩
    · rintro ⟨rfl, hplace⟩
      exact ⟨target, hplace, rfl, rfl⟩

theorem directory_src (hsrc : site.follow tree src = some top) (hdir : tree.kind top = some .dir) :
    site.directory tree src = some top :=
  Site.directory_eq_some_iff.2 ⟨(FileTree.resolve_iff.1 hsrc).2, hdir⟩

theorem begin_eq (hreads : permits src = true) (hsrc : site.follow tree src = some top)
    (hdir : tree.kind top = some .dir)
    (hdst : destination site permits dst tree = some (made, target)) :
    begin site permits src dst tree =
      ⟨made, [⟨[], top, (made.entries top).map (·.1), []⟩], none⟩ := by
  obtain ⟨hmade, -⟩ := destination_eq_some_iff.1 hdst
  have hmetadata : site.metadata tree src = some .dir := by simp [Site.metadata, hsrc, hdir]
  have hfound : site.directory made src = some top :=
    Site.directory_within (Site.furnished_createDirAll hmade).within (directory_src hsrc hdir)
  simp [begin, hreads, hmetadata, hmade, openDir, hfound]

/-- Otherwise the copy fails at once. -/
theorem begin_failed (hhome : tree.kind site.home = some .dir)
    (hsrc : site.follow tree src = some top) (hdir : tree.kind top = some .dir)
    (h : permits src = false ∨ destination site permits dst tree = none) :
    ∃ e, (begin site permits src dst tree).outcome = some (.error e) := by
  have hmetadata : site.metadata tree src = some .dir := by simp [Site.metadata, hsrc, hdir]
  unfold begin
  cases hreads : permits src with
  | false => exact ⟨_, rfl⟩
  | true =>
    simp only [hmetadata]
    rcases hmade : site.createDirAll permits tree dst with ⟨made, _ | _⟩
    · exact ⟨_, rfl⟩
    · obtain ⟨-, place, hplace⟩ := Site.directory_of_createDirAll hhome hmade
      have hdst := destination_eq_some_iff.2 ⟨hmade, hplace⟩
      rw [hreads, hdst] at h
      simp at h

theorem going_begin (hhome : tree.kind site.home = some .dir) (hreads : permits src = true)
    (hsrc : site.follow tree src = some top) (hdir : tree.kind top = some .dir)
    (hdst : destination site permits dst tree = some (made, target)) :
    Going site permits src dst made top target [] (begin site permits src dst tree) := by
  obtain ⟨hmade, hplace⟩ := destination_eq_some_iff.1 hdst
  have hfound : site.directory made src = some top :=
    Site.directory_within (Site.furnished_createDirAll hmade).within (directory_src hsrc hdir)
  rw [begin_eq hreads hsrc hdir hdst]
  refine ⟨⟨hfound, hplace, hreads, (Site.directory_of_createDirAll hhome hmade).1⟩, ?_, ?_⟩
  · constructor
    case opened =>
      intro dir hmem
      rw [List.mem_singleton.1 hmem]
      refine ⟨by simp, fun name hname => kind_of_listed hname, ?_, .inl rfl⟩
      simpa using (Site.directory_eq_some_iff.1 hplace).2
    case reached =>
      intro dir hmem
      rw [List.mem_singleton.1 hmem]
      exact .inl rfl
    case seen =>
      intro dir hmem name
      rw [List.mem_singleton.1 hmem]
      simp
    case distinct => simp
    case above => simp
    case complete =>
      intro rel hrel
      obtain rfl : rel = [] := hrel.resolve_right (by simp)
      refine .inl ⟨_, List.mem_singleton_self _, rfl, fun name hname => ?_⟩
      obtain ⟨kind, hk⟩ := Option.ne_none_iff_exists'.1 hname
      exact List.mem_map.2 ⟨(name, kind), FileTree.mem_entries.2 hk, rfl⟩
    case outcome => simp
  · constructor
    case source => exact (Site.directory_eq_some_iff.1 hfound).2
    case keeps => exact .refl made
    case nodup => simp
    case there => simp
    case permitted => simp
    case dirs => simp
    case links => exact fun _ _ h => h
    case new => exact fun loc hfree hk => absurd hfree hk

/-- What is above a path that has been dealt with has been dealt with. -/
theorem Walked.mem_of_prefix {visited : List (List String)} {s : Copying} {rel before : List String}
    (h : Walked permits dst made top target visited s) (hrel : rel ∈ visited) (hbefore : before <+: rel)
    (hne : before ≠ []) : before ∈ visited := by
  induction rel using List.reverseRecOn with
  | nil => exact absurd (List.prefix_nil.1 hbefore) hne
  | append_singleton rel name ih =>
    rcases List.prefix_concat_iff.1 hbefore with rfl | hbefore
    · exact hrel
    · obtain ⟨-, hnil | habove⟩ := h.above _ hrel
      · rw [List.dropLast_concat] at hnil
        subst hnil
        exact absurd (List.prefix_nil.1 hbefore) hne
      · rw [List.dropLast_concat] at habove
        exact ih habove hbefore

/-! ## The end -/

/-- As long as there is no answer, there is something to be read. -/
theorem Going.moves {visited : List (List String)} {s : Copying}
    (h : Going site permits src dst made top target visited s) (hnone : s.outcome = none) :
    ∃ read s', HostCopy.next site permits src dst s read = some s' := by
  have houtcome := h.walked.outcome
  obtain ⟨tree, dirs, outcome⟩ := s
  simp only at hnone houtcome
  subst hnone
  cases dirs with
  | nil => simp at houtcome
  | cons dir dirs =>
    by_cases hlisted : ∀ name ∈ dir.listed, name ∈ dir.seen
    · exact ⟨.finished, _, if_pos hlisted⟩
    · push Not at hlisted
      obtain ⟨name, hname, hseen⟩ := hlisted
      have hthere := (h.walked.opened dir List.mem_cons_self).listed name hname
      obtain ⟨kind, hk⟩ := Option.ne_none_iff_exists'.1 hthere
      refine ⟨.entry name, copyEntry site permits src dst tree dir dirs name kind, ?_⟩
      simp only [HostCopy.next, if_neg hseen, hk, Option.map_some]

/-- Where the number of paths that can be dealt with is bounded, the copy ends. -/
theorem ends_of_bound {I : List (List String) → FileTree String Bytes → Prop}
    (hgoing : Going site permits src dst made top target [] (begin site permits src dst tree))
    (bound : Nat)
    (hfirst : I [] (begin site permits src dst tree).tree)
    (hstep : ∀ visited s rel tree', Going site permits src dst made top target visited s →
      I visited s.tree → Pending s.tree top target visited rel →
      Extends s.tree tree' (target ++ rel) → I (rel :: visited) tree')
    (hbound : ∀ visited s, Going site permits src dst made top target visited s →
      I visited s.tree → visited.length ≤ bound) : Ends site permits src dst tree := by
  refine Machine.inevitable_of_ranked
    (I := fun s n => ∃ visited, Going site permits src dst made top target visited s ∧
      I visited s.tree ∧ n = 2 * (bound - visited.length) + s.dirs.length) ?_ ?_ ⟨[], hgoing, hfirst, rfl⟩
  · rintro s _ ⟨visited, hgoing, -, -⟩ hnone
    obtain ⟨read, s', hnext⟩ := hgoing.moves (by simpa using hnone)
    exact ⟨read, s', trivial, hnext⟩
  · rintro s _ read s' ⟨visited, hgoing, hI, rfl⟩ - - hnext
    obtain ⟨-, -, -, e, he⟩ | ⟨htree, hlength, hgoing'⟩ | ⟨rel, hpending, -, hextends, hlength, hgoing'⟩ :=
      hgoing.next hnext
    · exact .inl (by simp [he])
    · exact .inr ⟨_, by omega, visited, hgoing', htree ▸ hI, rfl⟩
    · have hI' := hstep visited s rel s'.tree hgoing hI hpending hextends
      have hvisited := hbound (rel :: visited) s' hgoing' hI'
      rw [List.length_cons] at hvisited
      refine .inr ⟨2 * (bound - (rel :: visited).length) + s'.dirs.length, ?_, rel :: visited,
        hgoing', hI', rfl⟩
      rw [List.length_cons]
      omega

/-- What is above a path that may be dealt with next is a directory that has been made. -/
theorem Going.made_above {visited : List (List String)} {s : Copying} {rel before : List String}
    (h : Going site permits src dst made top target visited s)
    (hpending : Pending s.tree top target visited rel) (hbefore : before <+: rel) (hne : before ≠ [])
    (hne' : before ≠ rel) : before ∈ visited ∧ made.kind (target ++ before) = none := by
  have hinit : before <+: rel.dropLast := by
    obtain ⟨init, name, rfl⟩ : ∃ init name, rel = init ++ [name] :=
      ⟨_, _, (List.dropLast_append_getLast hpending.ne_nil).symm⟩
    rw [List.dropLast_concat]
    exact (List.prefix_concat_iff.1 hbefore).resolve_left hne'
  have hvisited : before ∈ visited := by
    obtain hnil | habove := hpending.above
    · rw [hnil] at hinit
      exact absurd (List.prefix_nil.1 hinit) hne
    · exact h.walked.mem_of_prefix habove hinit hne
  obtain ⟨rest, rfl⟩ := hbefore
  have hrest : rest ≠ [] := by
    rintro rfl
    exact hne' (List.append_nil before).symm
  have hthere := hpending.there
  rw [← List.append_assoc] at hthere
  exact ⟨hvisited, (h.changed.dirs before hvisited (FileTree.kind_of_above hthere hrest)).1⟩

/-- Nothing is added to a source that does not hold the destination, but through links. -/
theorem Going.not_prefix {visited : List (List String)} {s : Copying} {rel : List String}
    (h : Going site permits src dst made top target visited s)
    (hpending : Pending s.tree top target visited rel) (hnot : ¬ top <+: target)
    (hfree : s.tree.kind (target ++ rel) = none) : ¬ top <+: target ++ rel := by
  intro habove
  obtain hle | ⟨before, rfl⟩ := List.prefix_or_prefix_of_prefix habove (List.prefix_append target rel)
  · exact hnot hle
  have hbefore : before <+: rel := (List.prefix_append_right_inj target).1 habove
  have hne : before ≠ [] := by
    rintro rfl
    exact hnot (by simp)
  have hne' : before ≠ rel := by
    rintro rfl
    exact h.changed.keeps.kind_ne (by simp [h.changed.source]) hfree
  obtain ⟨-, hmade⟩ := h.made_above hpending hbefore hne hne'
  rw [h.changed.source] at hmade
  cases hmade

theorem length_le_size {visited : List (List String)} (hnodup : visited.Nodup)
    (hthere : ∀ rel ∈ visited, rel ≠ [] ∧ tree.kind (top ++ rel) ≠ none) :
    visited.length ≤ size tree top := by
  have hlocs : (visited.map (top ++ ·)).Nodup :=
    hnodup.map fun _ _ h => List.append_cancel_left h
  have hsub : visited.map (top ++ ·) ⊆ (tree.below (fun _ => true) top).map (·.1) := by
    intro loc hloc
    obtain ⟨rel, hrel, rfl⟩ := List.mem_map.1 hloc
    obtain ⟨hne, hk⟩ := hthere rel hrel
    obtain ⟨kind, hk⟩ := Option.ne_none_iff_exists'.1 hk
    refine List.mem_map.2 ⟨(top ++ rel, kind), FileTree.mem_below.2 ⟨?_, ?_, ?_, rfl⟩, rfl⟩
    · exact FileTree.mem_nodes_of_kind hk (by simp [hne])
    · exact List.prefix_append top rel
    · simpa using hne
  simpa [size] using (List.subperm_of_subset hlocs hsub).length_le

/-- A link is where this path belongs. -/
def leadsOn (made : FileTree String Bytes) (target rel : List String) : Bool :=
  (made.kind (target ++ rel)).any FileKind.isLink

/-- If the destination is not inside the source, each path is one of those in the source, or it has
been added through a link. -/
theorem ends_outside (hhome : tree.kind site.home = some .dir) (hreads : permits src = true)
    (hsrc : site.follow tree src = some top) (hdir : tree.kind top = some .dir)
    (hdst : destination site permits dst tree = some (made, target)) (hnot : ¬ top <+: target) :
    Ends site permits src dst tree := by
  refine ends_of_bound (going_begin hhome hreads hsrc hdir hdst) (size made top + size made target)
    (I := fun visited tree =>
      size tree top ≤ size made top + (visited.filter (leadsOn made target)).length) ?_ ?_ ?_
  · rw [begin_eq hreads hsrc hdir hdst]
    exact Nat.le_add_right _ _
  · intro visited s rel tree' hgoing hI hpending hextends
    have hfilter : (visited.filter (leadsOn made target)).length ≤
        ((rel :: visited).filter (leadsOn made target)).length :=
      ((List.sublist_cons_self rel visited).filter _).length_le
    obtain ⟨-, hsize⟩ | ⟨new, hplace, hfree, -, hsize⟩ := hextends.grows
    · have := hsize top
      omega
    · have hsize := hsize top
      split_ifs at hsize with habove
      · have hlink : leadsOn made target rel = true := by
          rcases hplace with rfl | ⟨link, hlink⟩
          · exact absurd habove (hgoing.not_prefix hpending hnot hfree)
          · simp [leadsOn, hgoing.changed.links _ _ hlink, FileKind.isLink]
        rw [List.filter_cons_of_pos hlink, List.length_cons]
        omega
      · omega
  · intro visited s hgoing hI
    have hvisited : visited.length ≤ size s.tree top :=
      length_le_size hgoing.changed.nodup fun rel hrel =>
        ⟨(hgoing.walked.above rel hrel).1, hgoing.changed.there rel hrel⟩
    have hlinks : (visited.filter (leadsOn made target)).length ≤ size made target := by
      refine length_le_size (hgoing.changed.nodup.filter _) fun rel hrel => ?_
      obtain ⟨hrel, hlink⟩ := List.mem_filter.1 hrel
      refine ⟨(hgoing.walked.above rel hrel).1, fun hnone => ?_⟩
      simp [leadsOn, hnone] at hlink
    omega

/-- The way from the source to the destination again and again. -/
def ways (way : List String) (n : Nat) : List String := (List.replicate n way).flatten

theorem ways_succ (way : List String) (n : Nat) : ways way (n + 1) = way ++ ways way n := by
  simp [ways, List.replicate_succ]

theorem ways_add (way : List String) (m n : Nat) : ways way (m + n) = ways way m ++ ways way n := by
  rw [ways, List.replicate_add, List.flatten_append]
  rfl

theorem length_ways (way : List String) (n : Nat) : (ways way n).length = n * way.length := by
  simp [ways]

/-- A path of the source, behind some ways to the destination. -/
def Recurs (made : FileTree String Bytes) (top way : List String) (bound : Nat) (rel : List String) :
    Prop :=
  ∃ n ≤ bound, ∃ rest, made.kind (top ++ rest) ≠ none ∧ rel = ways way n ++ rest

theorem exists_length_bound (made : FileTree String Bytes) (top way : List String) (bound : Nat) :
    ∃ most, ∀ visited : List (List String), visited.Nodup →
      (∀ rel ∈ visited, Recurs made top way bound rel) → visited.length ≤ most := by
  let rests := [] :: made.nodes.map fun node => node.1.drop top.length
  let all := (List.range (bound + 1)).flatMap fun n => rests.map (ways way n ++ ·)
  refine ⟨all.length, fun visited hnodup hrecurs => (List.subperm_of_subset hnodup ?_).length_le⟩
  intro rel hrel
  obtain ⟨n, hn, rest, hk, rfl⟩ := hrecurs rel hrel
  refine List.mem_flatMap.2 ⟨n, List.mem_range.2 (by omega), List.mem_map.2 ⟨rest, ?_, rfl⟩⟩
  by_cases hne : top ++ rest = []
  · rw [(List.append_eq_nil_iff.1 hne).2]
    exact List.mem_cons_self
  · obtain ⟨kind, hk⟩ := Option.ne_none_iff_exists'.1 hk
    refine List.mem_cons_of_mem _ (List.mem_map.2 ⟨_, FileTree.mem_nodes_of_kind hk hne, ?_⟩)
    simp

/-- If the destination is inside the source, what is new in the source is what has been dealt with,
one way further in. -/
theorem Going.recurs {visited : List (List String)} {s : Copying} {rel way : List String} {bound : Nat}
    (h : Going site permits src dst made top (top ++ way) visited s) (hplain : IsPlain made top)
    (hpending : Pending s.tree top (top ++ way) visited rel)
    (hvisited : ∀ rel ∈ visited, Recurs made top way bound rel)
    (hstop : ∀ n rest, ways way n ++ rest ∈ visited → rel = way ++ (ways way n ++ rest) → n < bound) :
    Recurs made top way bound rel := by
  by_cases hold : made.kind (top ++ rel) = none
  · obtain ⟨before, hbefore, hplace | ⟨link, hlink⟩⟩ := h.changed.new _ hold hpending.there
    · rw [List.append_assoc] at hplace
      have hrel : rel = way ++ before := List.append_cancel_left hplace
      obtain ⟨n, -, rest, hk, rfl⟩ := hvisited before hbefore
      refine ⟨n + 1, hstop n rest hbefore hrel, rest, hk, ?_⟩
      rw [hrel, ways_succ, List.append_assoc]
    · rw [List.append_assoc] at hlink
      exact absurd hlink (hplain _ _)
  · exact ⟨0, Nat.zero_le _, rel, hold, rfl⟩

/-- The way to the destination comes to an end: the destination is the source, or there is something
in it where the way would go on, or one of the paths is refused. -/
def Stops (permits : FilePath String → Bool) (src dst : FilePath String)
    (made : FileTree String Bytes) (target way : List String) : Prop :=
  way = [] ∨ (∃ first ∈ way.head?, made.kind (target ++ [first]) ≠ none) ∨
    ∃ n rel, rel <+: ways way n ∧ rel ≠ [] ∧
      ¬ (permits (src.below rel) = true ∧ permits (dst.below rel) = true)

theorem ends_inside {way : List String} (hhome : tree.kind site.home = some .dir)
    (hreads : permits src = true) (hsrc : site.follow tree src = some top)
    (hdir : tree.kind top = some .dir)
    (hdst : destination site permits dst tree = some (made, top ++ way)) (hplain : IsPlain made top)
    (hstops : Stops permits src dst made (top ++ way) way) : Ends site permits src dst tree := by
  have hbound : ∃ bound, ∀ visited s rel,
      Going site permits src dst made top (top ++ way) visited s →
      Pending s.tree top (top ++ way) visited rel →
      ∀ n rest, ways way n ++ rest ∈ visited → rel = way ++ (ways way n ++ rest) → n < bound := by
    obtain rfl | ⟨first, hfirst, htaken⟩ | ⟨bound, bad, hbad, hne, hrefused⟩ := hstops
    · refine ⟨0, fun visited s rel _ hpending n rest hmem hrel => ?_⟩
      rw [List.nil_append] at hrel
      rw [← hrel] at hmem
      exact absurd hmem hpending.new
    · refine ⟨0, fun visited s rel hgoing hpending n rest hmem hrel => ?_⟩
      obtain ⟨way', rfl⟩ : ∃ way', way = first :: way' := by
        cases way <;> simp at hfirst
        exact ⟨_, by rw [hfirst]⟩
      have hbefore : [first] <+: rel := by
        rw [hrel]
        exact ⟨way' ++ (ways (first :: way') n ++ rest), by simp⟩
      have hproper : [first] ≠ rel := by
        intro heq
        have hlength := congrArg List.length heq
        have hpos := List.length_pos_iff.2 (hgoing.walked.above _ hmem).1
        rw [hrel, List.length_append] at hlength
        simp only [List.length_cons, List.length_nil] at hlength
        omega
      exact absurd (hgoing.made_above hpending hbefore (by simp) hproper).2 htaken
    · refine ⟨bound, fun visited s rel hgoing hpending n rest hmem hrel => ?_⟩
      by_contra hle
      have hway : 0 < way.length := by
        by_contra hzero
        obtain rfl : way = [] := List.length_eq_zero_iff.1 (by omega)
        have hnil : ways [] bound = [] := List.length_eq_zero_iff.1 (by simp [length_ways])
        rw [hnil] at hbad
        exact hne (List.prefix_nil.1 hbad)
      have hall : rel = ways way (n + 1) ++ rest := by rw [hrel, ways_succ, List.append_assoc]
      have hprefix : ways way bound <+: rel := by
        rw [hall]
        refine List.IsPrefix.trans ?_ (List.prefix_append _ _)
        obtain ⟨more, hmore⟩ := Nat.exists_eq_add_of_le (show bound ≤ n + 1 by omega)
        rw [hmore, ways_add]
        exact List.prefix_append _ _
      have hproper : bad ≠ rel := by
        intro heq
        have hlength := hbad.length_le
        rw [heq, hall, List.length_append, length_ways, length_ways] at hlength
        have hmul : bound * way.length < (n + 1) * way.length :=
          Nat.mul_lt_mul_of_pos_right (by omega) hway
        omega
      have hvisited := (hgoing.made_above hpending (hbad.trans hprefix) hne hproper).1
      exact hrefused (hgoing.changed.permitted bad hvisited)
  obtain ⟨bound, hbound⟩ := hbound
  obtain ⟨most, hmost⟩ := exists_length_bound made top way bound
  refine ends_of_bound (going_begin hhome hreads hsrc hdir hdst) most
    (I := fun visited _ => ∀ rel ∈ visited, Recurs made top way bound rel) (by simp) ?_ ?_
  · intro visited s rel tree' hgoing hI hpending hextends r hr
    rcases List.mem_cons.1 hr with rfl | hr
    · exact hgoing.recurs hplain hpending hI (hbound visited s r hgoing hpending)
    · exact hI r hr
  · exact fun visited s hgoing hI => hmost visited hgoing.changed.nodup hI

/-- The innermost directory is on the way to the destination, and the next one is free in it. -/
def OnWay (site : Site) (permits : FilePath String → Bool) (src dst : FilePath String)
    (made : FileTree String Bytes) (top way : List String) (s : Copying) : Prop :=
  ∃ visited dir dirs name n, Going site permits src dst made top (top ++ way) visited s ∧
    s.dirs = dir :: dirs ∧ dir.rel ++ [name] <+: ways way n ∧
    s.tree.kind (top ++ way ++ (dir.rel ++ [name])) = none

theorem exists_next_name {way rel : List String} {n : Nat} (hway : way ≠ []) (h : rel <+: ways way n) :
    ∃ name, rel ++ [name] <+: ways way (n + 1) := by
  have hpos := List.length_pos_iff.2 hway
  obtain ⟨rest, hrest⟩ : rel <+: ways way (n + 1) := by
    rw [ways_add]
    exact h.trans (List.prefix_append _ _)
  cases rest with
  | nil =>
    have hlength := h.length_le
    rw [List.append_nil] at hrest
    rw [hrest, length_ways, length_ways, Nat.succ_mul] at hlength
    omega
  | cons name rest => exact ⟨name, rest, by simpa using hrest⟩

theorem prefix_way {way rel : List String} {name : String} {n : Nat} (hway : way ≠ [])
    (h : rel ++ [name] <+: ways way n) : rel ++ [name] <+: way ++ rel := by
  have hpos := List.length_pos_iff.2 hway
  have hlong : way ++ rel <+: ways way (n + 1) := by
    rw [ways_succ, List.prefix_append_right_inj]
    exact (List.prefix_append rel [name]).trans h
  have hshort : rel ++ [name] <+: ways way (n + 1) := by
    rw [ways_add]
    exact h.trans (List.prefix_append _ _)
  refine List.prefix_of_prefix_length_le hshort hlong ?_
  simp only [List.length_append, List.length_singleton]
  omega

theorem OnWay.moves {way : List String} {s : Copying} (hway : way ≠ [])
    (hpermits : ∀ n rel, rel <+: ways way n → rel ≠ [] →
      permits (src.below rel) = true ∧ permits (dst.below rel) = true)
    (h : OnWay site permits src dst made top way s) :
    ∃ read s', next site permits src dst s read = some s' ∧
      OnWay site permits src dst made top way s' := by
  obtain ⟨visited, dir, dirs, name, n, hgoing, hdirs, hnext, hfree⟩ := h
  have hopened := hgoing.walked.opened dir (by simp [hdirs])
  have houtcome := hgoing.walked.outcome
  rw [hdirs, if_neg (List.cons_ne_nil _ _)] at houtcome
  -- the next directory is above the one in the destination
  have hk : s.tree.kind (top ++ (dir.rel ++ [name])) = some .dir := by
    obtain ⟨rest, hrest⟩ := prefix_way hway hnext
    have habove := hopened.above
    rw [List.append_assoc, ← hrest, ← List.append_assoc] at habove
    by_cases hnil : rest = []
    · rwa [hnil, List.append_nil] at habove
    · refine FileTree.kind_of_above ?_ hnil
      rw [habove]
      simp
  have hseen : name ∉ dir.seen := by
    rw [hgoing.walked.seen dir (by simp [hdirs])]
    intro hmem
    have hdir := (hgoing.changed.dirs _ hmem hk).2
    rw [hfree] at hdir
    cases hdir
  have hread : next site permits src dst s (.entry name) =
      some (copyEntry site permits src dst s.tree dir dirs name .dir) := by
    unfold next
    rw [houtcome, hdirs]
    simp only [hopened.place, List.append_assoc, if_neg hseen, hk, Option.map_some]
  obtain ⟨hreads, hwrites⟩ := hpermits n _ hnext (by simp)
  obtain ⟨hfails, -⟩ | ⟨-, -, tree', hvisits, heq⟩ :=
    copyEntry_spec hgoing.settled hopened dirs hk
  · cases hfails with
    | refused h => simp [hreads, hwrites] at h
    | taken _ h => exact absurd hfree h
    | file hk' hnot =>
      rw [hk] at hk'
      cases hk'
      cases hnot
  · have htree : tree' = s.tree.insert (top ++ way ++ (dir.rel ++ [name])) .dir := by
      cases hvisits with
      | dir => rfl
      | file hk' hnot =>
        rw [hk] at hk'
        cases hk'
        cases hnot
    refine ⟨_, _, hread, ?_⟩
    have hisDir : (FileKind.dir : FileKind String Bytes).isDir = true := rfl
    rw [if_pos hisDir, List.singleton_append] at heq
    have hgoing' : ∃ visited, Going site permits src dst made top (top ++ way) visited
        (copyEntry site permits src dst s.tree dir dirs name .dir) := by
      obtain ⟨-, -, -, e, he⟩ | ⟨-, hlength, -⟩ | ⟨rel, -, -, -, -, hgoing'⟩ := hgoing.next hread
      · rw [heq] at he
        cases he
      · rw [heq, hdirs] at hlength
        simp only [List.length_cons] at hlength
        omega
      · exact ⟨_, hgoing'⟩
    obtain ⟨visited', hgoing'⟩ := hgoing'
    obtain ⟨name', hnext'⟩ := exists_next_name hway hnext
    rw [heq] at hgoing' ⊢
    refine ⟨visited', _, _, name', n + 1, hgoing', rfl, hnext', ?_⟩
    -- it is empty
    have hparent : s.tree.kind (top ++ way ++ (dir.rel ++ [name])).dropLast = some .dir := by
      rw [← List.append_assoc, List.dropLast_concat]
      exact hopened.above
    have hbelow : (s.tree.insert (top ++ way ++ (dir.rel ++ [name])) .dir).kind
        (top ++ way ++ (dir.rel ++ [name]) ++ [name']) = none := by
      rw [FileTree.kind_insert (by simp) hfree hparent, if_neg (by simp)]
      exact FileTree.kind_below_of_none hfree [name']
    simpa only [htree, List.append_assoc] using hbelow

/-- The destination is on a way down from the source that can be gone again and again, as far as the
paths are permitted: there is nothing yet where it goes on. -/
def GoesOn (site : Site) (permits : FilePath String → Bool) (src dst : FilePath String)
    (tree : FileTree String Bytes) (top : List String) : Prop :=
  permits src = true ∧ ∃ made way, destination site permits dst tree = some (made, top ++ way) ∧
    ¬ Stops permits src dst made (top ++ way) way

theorem not_ends (hhome : tree.kind site.home = some .dir) (hsrc : site.follow tree src = some top)
    (hdir : tree.kind top = some .dir) (hgoes : GoesOn site permits src dst tree top) :
    ¬ Ends site permits src dst tree := by
  obtain ⟨hreads, made, way, hdst, hstops⟩ := hgoes
  unfold Stops at hstops
  rw [not_or, not_or] at hstops
  obtain ⟨hway, hfree, hpermits⟩ := hstops
  have hpermits : ∀ n rel, rel <+: ways way n → rel ≠ [] →
      permits (src.below rel) = true ∧ permits (dst.below rel) = true := by
    intro n rel hrel hne
    by_contra hrefused
    exact hpermits ⟨n, rel, hrel, hne, hrefused⟩
  refine Machine.not_inevitable_of_moves (I := OnWay site permits src dst made top way) ?_ ?_ ?_
  · rintro s ⟨visited, dir, dirs, name, n, hgoing, hdirs, -⟩
    simp [hgoing.walked.outcome, hdirs]
  · intro s h
    obtain ⟨read, s', hnext, h'⟩ := h.moves hway hpermits
    exact ⟨read, s', trivial, hnext, h'⟩
  · obtain ⟨first, way', rfl⟩ := List.exists_cons_of_ne_nil hway
    have hgoing := going_begin hhome hreads hsrc hdir hdst
    rw [begin_eq hreads hsrc hdir hdst] at hgoing ⊢
    refine ⟨[], _, [], first, 1, hgoing, rfl, ⟨way', by simp [ways]⟩, ?_⟩
    by_contra htaken
    exact hfree ⟨first, rfl, by simpa using htaken⟩

theorem IsPlain.furnished (hplain : IsPlain tree top) (h : Site.Furnished tree made) :
    IsPlain made top := by
  intro rel link hlink
  by_cases hnone : tree.kind (top ++ rel) = none
  · rw [h.dir _ hnone (by rw [hlink]; simp)] at hlink
    cases hlink
  · rw [FileTree.Within.kind_eq h.within hnone] at hlink
    exact hplain rel link hlink

/-- When the copy ends. -/
theorem ends_iff (hhome : tree.kind site.home = some .dir) (hsrc : site.follow tree src = some top)
    (hdir : tree.kind top = some .dir) (hplain : IsPlain tree top) :
    Ends site permits src dst tree ↔ ¬ GoesOn site permits src dst tree top := by
  constructor
  · exact fun hends hgoes => not_ends hhome hsrc hdir hgoes hends
  · intro hnot
    by_cases hfirst : permits src = false ∨ destination site permits dst tree = none
    · obtain ⟨e, he⟩ := begin_failed hhome hsrc hdir hfirst
      exact .now (by simp [he])
    rw [not_or, Bool.not_eq_false, ← ne_eq, Option.ne_none_iff_exists'] at hfirst
    obtain ⟨hreads, ⟨made, target⟩, hdst⟩ := hfirst
    by_cases habove : top <+: target
    · obtain ⟨way, rfl⟩ := habove
      have hmade := (destination_eq_some_iff.1 hdst).1
      refine ends_inside hhome hreads hsrc hdir hdst
        (hplain.furnished (Site.furnished_createDirAll hmade)) ?_
      by_contra hstops
      exact hnot ⟨hreads, made, way, hdst, hstops⟩
    · exact ends_outside hhome hreads hsrc hdir hdst habove

/-- Where no longer paths are permitted, a copy ends. -/
theorem ends_of_short (hhome : tree.kind site.home = some .dir) (hsrc : site.follow tree src = some top)
    (hdir : tree.kind top = some .dir) (hplain : IsPlain tree top) (most : Nat)
    (hshort : ∀ path, permits path = true → path.steps.length ≤ most) :
    Ends site permits src dst tree := by
  rw [ends_iff hhome hsrc hdir hplain]
  rintro ⟨-, made, way, -, hstops⟩
  unfold Stops at hstops
  rw [not_or, not_or] at hstops
  obtain ⟨hway, -, hpermits⟩ := hstops
  have hlong : most < (ways way (most + 1)).length := by
    have hpos := List.length_pos_iff.2 hway
    rw [length_ways]
    exact Nat.lt_of_lt_of_le (Nat.lt_succ_self most) (Nat.le_mul_of_pos_right _ hpos)
  refine hpermits ⟨most + 1, ways way (most + 1), List.prefix_rfl, ?_, fun hpermitted => ?_⟩
  · rw [← List.length_pos_iff]
    omega
  · have hlength := hshort _ hpermitted.1
    simp only [FilePath.below, List.length_append, List.length_map] at hlength
    omega

end

end HostCopy

end Distant
