import Distant.Host.CopyEnds

/-!
# What a copy on the host leaves behind

As far as the source has been dealt with, the destination has what it has. A copy that succeeds has
made each directory of the source, so that the same copy fails if there is one. `copies_iff` is the
result for directories and files.
-/

namespace Distant

namespace HostCopy

section

variable {site : Site} {permits : FilePath String → Bool} {src dst : FilePath String}
  {tree made : FileTree String Bytes} {top target : List String}

/-! ## What has been copied -/

/-- The paths of the source are permitted. -/
def Permitted (permits : FilePath String → Bool) (src dst : FilePath String)
    (made : FileTree String Bytes) (top : List String) : Prop :=
  ∀ rel, made.kind (top ++ rel) ≠ none →
    permits (src.below rel) = true ∧ (rel ≠ [] → permits (dst.below rel) = true)

/-- What lets a source be copied to a destination. -/
structure Mergeable (permits : FilePath String → Bool) (src dst : FilePath String)
    (made : FileTree String Bytes) (top target : List String) : Prop where
  source : made.kind top = some .dir
  outside : ¬ top <+: target
  plain : IsPlain made top
  agrees : ∀ rel kind kind', made.kind (top ++ rel) = some kind →
    made.kind (target ++ rel) = some kind' → FileTree.shape kind' = FileTree.shape kind
  free : ∀ rel, rel ≠ [] → made.kind (top ++ rel) = some .dir → made.kind (target ++ rel) = none
  permitted : Permitted permits src dst made top

/-- Then the copy of a path is not in the source. -/
theorem Mergeable.apart (h : Mergeable permits src dst made top target) {rel : List String}
    (hk : made.kind (top ++ rel) ≠ none) : ¬ top <+: target ++ rel := by
  intro habove
  obtain hle | ⟨before, hbefore⟩ :=
    List.prefix_or_prefix_of_prefix habove (List.prefix_append target rel)
  · exact h.outside hle
  have hprefix : before <+: rel := by
    rw [← hbefore] at habove
    exact (List.prefix_append_right_inj target).1 habove
  have hne : before ≠ [] := by
    rintro rfl
    exact h.outside (by simp [← hbefore])
  obtain ⟨rest, rfl⟩ := hprefix
  have hthere : made.kind (top ++ before) ≠ none := by
    by_cases hrest : rest = []
    · rwa [hrest, List.append_nil] at hk
    · rw [← List.append_assoc] at hk
      rw [FileTree.kind_of_above hk hrest]
      simp
  obtain ⟨kind, hkind⟩ := Option.ne_none_iff_exists'.1 hthere
  have htaken : made.kind (target ++ before) = some .dir := by rw [hbefore, h.source]
  have hshape := h.agrees before kind .dir hkind htaken
  cases kind with
  | dir =>
    rw [h.free before hne hkind] at htaken
    cases htaken
  | file content => cases hshape
  | link link => cases hshape

/-- At the paths that have been dealt with there is what is in the source; elsewhere nothing has
changed. -/
structure Matches (made : FileTree String Bytes) (top target : List String)
    (visited : List (List String)) (tree : FileTree String Bytes) : Prop where
  copied : ∀ rel ∈ visited, made.kind (top ++ rel) ≠ none ∧
    tree.kind (target ++ rel) = made.kind (top ++ rel)
  others : ∀ loc, (∀ rel ∈ visited, loc ≠ target ++ rel) → tree.kind loc = made.kind loc

theorem Matches.source {visited : List (List String)} (h : Matches made top target visited tree)
    (hmerge : Mergeable permits src dst made top target) (rel : List String) :
    tree.kind (top ++ rel) = made.kind (top ++ rel) := by
  refine h.others _ fun other hother heq => ?_
  exact hmerge.apart (h.copied other hother).1 ⟨rel, heq⟩

theorem Matches.free {visited : List (List String)} {rel : List String}
    (h : Matches made top target visited tree) (hnew : rel ∉ visited) :
    tree.kind (target ++ rel) = made.kind (target ++ rel) := by
  refine h.others _ fun other hother heq => hnew ?_
  rwa [List.append_cancel_left heq]

/-- A file of the source can be copied. -/
theorem Matches.copyFile_eq {visited : List (List String)} {rel : List String} {content : Bytes}
    (h : Matches made top target visited tree)
    (hmerge : Mergeable permits src dst made top target)
    (hsettled : Settled site permits src dst tree top target)
    (hpending : Pending tree top target visited rel)
    (hfile : tree.kind (top ++ rel) = some (.file content)) :
    ∃ tree', site.copyFile permits tree (src.below rel) (dst.below rel) = some tree' ∧
      ∀ loc, tree'.kind loc =
        if loc = target ++ rel then some (.file content) else tree.kind loc := by
  have hfile' : made.kind (top ++ rel) = some (.file content) := by rw [← h.source hmerge, hfile]
  obtain ⟨hreads, hwrites⟩ := hmerge.permitted rel (by simp [hfile'])
  have hwrites := hwrites hpending.ne_nil
  have htaken := h.free hpending.new
  have habove := hpending.dir
  obtain ⟨before, name, rfl⟩ : ∃ before name, rel = before ++ [name] :=
    ⟨_, _, (List.dropLast_append_getLast hpending.ne_nil).symm⟩
  rw [List.dropLast_concat] at habove
  rw [← FilePath.step_below] at hreads hwrites
  rw [← List.append_assoc] at hfile
  have hbefore : tree.kind (top ++ before) = some .dir := by
    refine FileTree.kind_of_above ?_ (List.cons_ne_nil name [])
    rw [hfile]
    simp
  have hfrom : site.follow tree ((src.below before).step (.name name)) =
      some (top ++ before ++ [name]) :=
    Site.follow_step (Site.directory_below hsettled.source hbefore) hfile rfl
  rw [← FilePath.step_below, ← FilePath.step_below, ← List.append_assoc]
  refine Site.copyFile_eq ⟨hreads, hwrites⟩ hfrom hfile
    (Site.directory_below hsettled.destination habove) ?_ ?_
  · intro kind hk
    rw [List.append_assoc, htaken] at hk
    have hshape := hmerge.agrees _ _ _ hfile' hk
    cases kind with
    | file old => exact ⟨old, rfl⟩
    | dir => cases hshape
    | link link => cases hshape
  · intro heq
    rw [List.append_assoc, List.append_assoc] at heq
    exact hmerge.outside (by rw [List.append_cancel_right heq])

theorem Matches.not_fails {visited : List (List String)} {rel : List String}
    (h : Matches made top target visited tree)
    (hmerge : Mergeable permits src dst made top target)
    (hsettled : Settled site permits src dst tree top target)
    (hpending : Pending tree top target visited rel) :
    ¬ Fails site permits src dst top target tree rel := by
  intro hfails
  have hthere := hpending.there
  rw [h.source hmerge] at hthere
  cases hfails with
  | refused hrefused =>
    obtain ⟨hreads, hwrites⟩ := hmerge.permitted rel hthere
    simp [hreads, hwrites hpending.ne_nil] at hrefused
  | taken hk htaken =>
    rw [h.source hmerge] at hk
    rw [h.free hpending.new] at htaken
    exact htaken (hmerge.free rel hpending.ne_nil hk)
  | @file kind hk hnot hcopy =>
    cases kind with
    | dir => cases hnot
    | file content =>
      obtain ⟨tree', hcopied, -⟩ := h.copyFile_eq hmerge hsettled hpending hk
      rw [hcopy] at hcopied
      cases hcopied
    | link link =>
      rw [h.source hmerge] at hk
      exact hmerge.plain _ _ hk

theorem Matches.visit {visited : List (List String)} {rel : List String}
    {tree' : FileTree String Bytes} (h : Matches made top target visited tree)
    (hmerge : Mergeable permits src dst made top target)
    (hsettled : Settled site permits src dst tree top target)
    (hpending : Pending tree top target visited rel)
    (hvisits : Visits site permits src dst top target tree rel tree') :
    Matches made top target (rel :: visited) tree' := by
  have hthere := hpending.there
  have hsource := h.source hmerge rel
  have hkind : ∀ loc, tree'.kind loc =
      if loc = target ++ rel then made.kind (top ++ rel) else tree.kind loc := by
    intro loc
    cases hvisits with
    | dir hk hfree =>
      rw [← hsource, hk]
      refine FileTree.kind_insert (by simp [hpending.ne_nil]) hfree ?_ loc
      rw [List.dropLast_append_of_ne_nil hpending.ne_nil]
      exact hpending.dir
    | @file kind _ hk hnot hcopy =>
      cases kind with
      | dir => cases hnot
      | file content =>
        obtain ⟨tree'', hcopied, hkind⟩ := h.copyFile_eq hmerge hsettled hpending hk
        rw [hcopy] at hcopied
        cases hcopied
        rw [← hsource, hk]
        exact hkind loc
      | link link =>
        rw [hsource] at hk
        exact absurd hk (hmerge.plain _ _)
  constructor
  · intro r hr
    rw [hkind]
    rcases List.mem_cons.1 hr with rfl | hr
    · rw [if_pos rfl, ← hsource]
      exact ⟨hthere, rfl⟩
    · rw [if_neg]
      · exact h.copied r hr
      · intro heq
        rw [List.append_cancel_left heq] at hr
        exact hpending.new hr
  · intro loc hloc
    rw [hkind, if_neg (hloc rel List.mem_cons_self)]
    exact h.others loc fun r hr => hloc r (List.mem_cons_of_mem _ hr)

/-! ## The copy as a whole -/

/-- Before it has failed, a copy is going on or it is complete. -/
theorem going_of_run {reads : List Read} {s s' : Copying} {visited : List (List String)}
    (hgoing : Going site permits src dst made top target visited s)
    (hrun : Machine.run (next site permits src dst) reads s = some s') :
    (∃ visited, Going site permits src dst made top target visited s') ∨
      ∃ e, s'.outcome = some (.error e) := by
  have hstep : ∀ s read s', ((∃ visited, Going site permits src dst made top target visited s) ∨
      ∃ e, s.outcome = some (.error e)) → True → next site permits src dst s read = some s' →
      (∃ visited, Going site permits src dst made top target visited s') ∨
        ∃ e, s'.outcome = some (.error e) := by
    rintro s read s' (⟨visited, hgoing⟩ | ⟨e, he⟩) - hnext
    · obtain ⟨-, -, -, hfailed⟩ | ⟨-, -, hgoing'⟩ | ⟨rel, -, -, -, -, hgoing'⟩ := hgoing.next hnext
      · exact .inr hfailed
      · exact .inl ⟨visited, hgoing'⟩
      · exact .inl ⟨rel :: visited, hgoing'⟩
    · unfold next at hnext
      rw [he] at hnext
      cases hnext
  exact Machine.invariant hstep (.inl ⟨visited, hgoing⟩)
    (Machine.meeting_of_always (fun _ _ _ => trivial) s) hrun

/-- At the end all paths of the source have been dealt with. -/
theorem Going.mem_of_done {visited : List (List String)} {s : Copying} {answer : Except CopyError Unit}
    (h : Going site permits src dst made top target visited s) (hdone : s.outcome = some answer)
    {rel : List String} (hne : rel ≠ []) (hk : made.kind (top ++ rel) ≠ none) : rel ∈ visited := by
  have hdirs : s.dirs = [] := by
    have houtcome := h.walked.outcome
    by_contra hopen
    rw [if_neg hopen, hdone] at houtcome
    cases houtcome
  induction rel using List.reverseRecOn with
  | nil => exact absurd rfl hne
  | append_singleton rel name ih =>
    have hrel : rel = [] ∨ rel ∈ visited := by
      by_cases hnil : rel = []
      · exact .inl hnil
      · refine .inr (ih hnil ?_)
        rw [← List.append_assoc] at hk
        rw [FileTree.kind_above hk]
        simp
    obtain ⟨dir, hmem, -⟩ | hall := h.walked.complete rel hrel
    · rw [hdirs] at hmem
      cases hmem
    · exact hall name hk

/-- What a copy that succeeds says about the source and the destination. -/
theorem spec_of_ok {reads : List Read} {s : Copying} (hhome : tree.kind site.home = some .dir)
    (hsrc : site.follow tree src = some top) (hdir : tree.kind top = some .dir)
    (hrun : Machine.run (next site permits src dst) reads (begin site permits src dst tree) = some s)
    (hok : s.outcome = some (.ok ())) :
    ∃ made target, destination site permits dst tree = some (made, target) ∧
      Permitted permits src dst made top ∧
      (∀ rel, rel ≠ [] → made.kind (top ++ rel) = some .dir → made.kind (target ++ rel) = none) ∧
      made.Keeps s.tree ∧ Settled site permits src dst s.tree top target := by
  by_cases hfirst : permits src = false ∨ destination site permits dst tree = none
  · obtain ⟨e, he⟩ := begin_failed hhome hsrc hdir hfirst
    cases reads with
    | nil =>
      cases hrun
      rw [he] at hok
      cases hok
    | cons read reads =>
      obtain ⟨s', hnext, -⟩ := Machine.run_cons hrun
      unfold next at hnext
      rw [he] at hnext
      cases hnext
  · rw [not_or, Bool.not_eq_false, ← ne_eq, Option.ne_none_iff_exists'] at hfirst
    obtain ⟨hreads, ⟨made, target⟩, hdst⟩ := hfirst
    obtain ⟨visited, hgoing⟩ | ⟨e, he⟩ := going_of_run (going_begin hhome hreads hsrc hdir hdst) hrun
    · refine ⟨made, target, hdst, fun rel hk => ?_, fun rel hne hk => ?_, hgoing.changed.keeps,
        hgoing.settled⟩
      · by_cases hne : rel = []
        · subst hne
          rw [FilePath.below_nil]
          exact ⟨hreads, fun hne => absurd rfl hne⟩
        · have hpermitted := hgoing.changed.permitted rel (hgoing.mem_of_done hok hne hk)
          exact ⟨hpermitted.1, fun _ => hpermitted.2⟩
      · have hmem := hgoing.mem_of_done hok hne (by simp [hk])
        exact (hgoing.changed.dirs rel hmem (hgoing.changed.keeps.dir hk)).1
    · rw [he] at hok
      cases hok

/-- A copy that can be made is made. -/
theorem succeeds_of_mergeable (hhome : tree.kind site.home = some .dir)
    (hsrc : site.follow tree src = some top) (hdir : tree.kind top = some .dir)
    (hdst : destination site permits dst tree = some (made, target))
    (hmerge : Mergeable permits src dst made top target) :
    Succeeds site permits src dst tree fun tree' => Copied made tree' top target := by
  have hreads : permits src = true := by
    simpa using (hmerge.permitted [] (by simp [hmerge.source])).1
  refine ⟨ends_outside hhome hreads hsrc hdir hdst hmerge.outside, ?_⟩
  intro reads s answer hrun hdone
  have hstep : ∀ s read s', (∃ visited, Going site permits src dst made top target visited s ∧
      Matches made top target visited s.tree) → True → next site permits src dst s read = some s' →
      ∃ visited, Going site permits src dst made top target visited s' ∧
        Matches made top target visited s'.tree := by
    rintro s read s' ⟨visited, hgoing, hmatches⟩ - hnext
    obtain ⟨rel, hpending, hfails, -⟩ | ⟨htree, -, hgoing'⟩ |
      ⟨rel, hpending, hvisits, -, -, hgoing'⟩ := hgoing.next hnext
    · exact absurd hfails (hmatches.not_fails hmerge hgoing.settled hpending)
    · exact ⟨visited, hgoing', htree ▸ hmatches⟩
    · exact ⟨rel :: visited, hgoing', hmatches.visit hmerge hgoing.settled hpending hvisits⟩
  have hfirst : Matches made top target [] (begin site permits src dst tree).tree := by
    rw [begin_eq hreads hsrc hdir hdst]
    exact ⟨by simp, fun _ _ => rfl⟩
  have hall := Machine.invariant hstep ⟨[], going_begin hhome hreads hsrc hdir hdst, hfirst⟩
    (Machine.meeting_of_always (fun _ _ _ => trivial) _) hrun
  obtain ⟨visited, hgoing, hmatches⟩ := hall
  constructor
  · have houtcome := hgoing.walked.outcome
    rw [hdone] at houtcome
    split_ifs at houtcome
    exact Option.some.inj houtcome
  · constructor
    · intro rel kind hk
      by_cases hne : rel = []
      · subst hne
        rw [List.append_nil, hmerge.source] at hk
        rw [List.append_nil, ← hk]
        exact (Site.directory_eq_some_iff.1 hgoing.settled.destination).2
      · rw [(hmatches.copied rel (hgoing.mem_of_done hdone hne (by simp [hk]))).2, hk]
    · intro loc hloc
      exact hmatches.others loc fun rel hrel => hloc rel (hmatches.copied rel hrel).1

theorem exists_answer {post : FileTree String Bytes → Prop}
    (h : Succeeds site permits src dst tree post) :
    ∃ reads s, Machine.run (next site permits src dst) reads (begin site permits src dst tree) = some s ∧
      s.outcome = some (.ok ()) ∧ post s.tree := by
  obtain ⟨s, ⟨reads, -, hrun⟩, hdone⟩ := h.1.exists_run
  obtain ⟨answer, hdone⟩ := Option.ne_none_iff_exists'.1 hdone
  obtain ⟨rfl, hpost⟩ := h.2 reads s answer hrun hdone
  exact ⟨reads, s, hrun, hdone, hpost⟩

/-- Where the destination is there, it is not made again. -/
theorem Settled.destination_eq (h : Settled site permits src dst tree top target) :
    HostCopy.destination site permits dst tree = some (tree, target) :=
  destination_eq_some_iff.2
    ⟨Site.createDirAll_of_directory h.writes h.destination, h.destination⟩

theorem follow_keeps {tree' : FileTree String Bytes} {path : FilePath String}
    (hkeeps : tree.Keeps tree') (h : site.follow tree path = some top) :
    site.follow tree' path = some top := by
  obtain ⟨hne, hleads⟩ := FileTree.resolve_iff.1 h
  exact FileTree.resolve_iff.2 ⟨hne, hleads.keeps hkeeps⟩

theorem Copied.source {tree' : FileTree String Bytes}
    (h : Copied made tree' top target) (hmerge : Mergeable permits src dst made top target)
    (rel : List String) : tree'.kind (top ++ rel) = made.kind (top ++ rel) :=
  h.others _ fun _ hk heq => hmerge.apart hk ⟨rel, heq⟩

end

theorem copiesDir_iff {site : Site} {permits : FilePath String → Bool} {src dst : FilePath String}
    {tree : FileTree String Bytes} {top : List String} (hhome : tree.kind site.home = some .dir)
    (hsrc : site.follow tree src = some top) (hdir : tree.kind top = some .dir)
    (hplain : IsPlain tree top) :
    CopiesDir site permits src dst tree top ↔
      ¬ GoesOn site permits src dst tree top ∧
        (¬ Inside site permits dst tree top → Agrees site permits dst tree top →
          ∃ made target, destination site permits dst tree = some (made, target) ∧
            Permitted permits src dst made top ∧
            ∀ rel, rel ≠ [] → made.kind (top ++ rel) ≠ some .dir) := by
  unfold CopiesDir
  rw [ends_iff hhome hsrc hdir hplain]
  refine and_congr_right fun _ => forall_congr' fun houtside => forall_congr' fun hagrees => ?_
  have hkept : ∀ {made target}, destination site permits dst tree = some (made, target) →
      tree.Keeps made := fun hdst =>
    FileTree.Within.keeps (Site.furnished_createDirAll (destination_eq_some_iff.1 hdst).1).within
  constructor
  · intro hsucceeds
    obtain ⟨reads, s, hrun, hok, -, hagain⟩ := exists_answer hsucceeds
    obtain ⟨made, target, hdst, hpermitted, -, hkeeps, hsettled⟩ := spec_of_ok hhome hsrc hdir hrun hok
    obtain ⟨made', target', hdst', hcopied⟩ := (hsucceeds.2 reads s _ hrun hok).2.1
    rw [hdst] at hdst'
    cases hdst'
    refine ⟨made, target, hdst, hpermitted, fun rel hne hk => ?_⟩
    -- the second copy finds the directory that the first one has made
    have hall := (hkept hdst).trans hkeeps
    obtain ⟨reads', s', hrun', hok', -⟩ := exists_answer hagain
    obtain ⟨made', target', hdst', -, hfree, -⟩ :=
      spec_of_ok (hall.dir hhome) (follow_keeps hall hsrc) (hall.dir hdir) hrun' hok'
    rw [hsettled.destination_eq] at hdst'
    cases hdst'
    have hthere := hfree rel hne (hkeeps.dir hk)
    rw [hcopied.copied rel .dir hk] at hthere
    cases hthere
  · rintro ⟨made, target, hdst, hpermitted, hflat⟩
    have hmade := (destination_eq_some_iff.1 hdst).1
    have hmerge : Mergeable permits src dst made top target := by
      refine ⟨(hkept hdst).dir hdir, fun habove => houtside ?_,
        hplain.furnished (Site.furnished_createDirAll hmade), hagrees made target hdst,
        fun rel hne hk => absurd hk (hflat rel hne), hpermitted⟩
      rw [Inside, hdst]
      exact habove
    obtain ⟨hends, hall⟩ := succeeds_of_mergeable hhome hsrc hdir hdst hmerge
    refine ⟨hends, fun reads s answer hrun hdone => ?_⟩
    obtain ⟨rfl, hcopied⟩ := hall reads s answer hrun hdone
    refine ⟨rfl, ⟨made, target, hdst, hcopied⟩, ?_⟩
    obtain ⟨made', target', hdst', -, -, hkeeps, hsettled⟩ := spec_of_ok hhome hsrc hdir hrun hdone
    rw [hdst] at hdst'
    cases hdst'
    have hsource := hcopied.source hmerge
    have hmerge' : Mergeable permits src dst s.tree top target := by
      refine ⟨hkeeps.dir hmerge.source, hmerge.outside, fun rel link hlink => ?_,
        fun rel kind kind' hk hk' => ?_, fun rel hne hk => ?_, fun rel hk => ?_⟩
      · rw [hsource] at hlink
        exact hmerge.plain rel link hlink
      · rw [hsource] at hk
        rw [hcopied.copied rel kind hk] at hk'
        cases hk'
        rfl
      · rw [hsource] at hk
        exact absurd hk (hflat rel hne)
      · rw [hsource] at hk
        exact hpermitted rel hk
    have hkept' := (hkept hdst).trans hkeeps
    obtain ⟨hends', hall'⟩ := succeeds_of_mergeable (hkept'.dir hhome) (follow_keeps hkept' hsrc)
      (hkept'.dir hdir) hsettled.destination_eq hmerge'
    refine ⟨hends', fun reads' s' answer' hrun' hdone' => ?_⟩
    obtain ⟨rfl, hcopied'⟩ := hall' reads' s' answer' hrun' hdone'
    refine ⟨rfl, fun loc => ?_⟩
    by_cases hloc : ∃ rel kind, made.kind (top ++ rel) = some kind ∧ loc = target ++ rel
    · obtain ⟨rel, kind, hk, rfl⟩ := hloc
      rw [hcopied.copied rel kind hk]
      exact hcopied'.copied rel kind (by rw [hsource, hk])
    · refine hcopied'.others loc fun rel hk heq => hloc ?_
      rw [hsource] at hk
      obtain ⟨kind, hk⟩ := Option.ne_none_iff_exists'.1 hk
      exact ⟨rel, kind, hk, heq⟩

/-! ## A single file -/

section

variable {site : Site} {permits : FilePath String → Bool} {src dst : FilePath String}
  {tree : FileTree String Bytes} {top target : List String} {content : Bytes}

/-- Where there is an answer at once, it is that of all runs. -/
theorem succeeds_iff_of_done {post : FileTree String Bytes → Prop} {answer : Except CopyError Unit}
    (hdone : (begin site permits src dst tree).outcome = some answer) :
    Succeeds site permits src dst tree post ↔
      answer = .ok () ∧ post (begin site permits src dst tree).tree := by
  constructor
  · exact fun h => h.2 [] _ answer rfl hdone
  · intro h
    refine ⟨.now (by simp [hdone]), fun reads s answer' hrun hdone' => ?_⟩
    cases reads with
    | nil =>
      cases hrun
      rw [hdone] at hdone'
      cases hdone'
      exact h
    | cons read reads =>
      obtain ⟨s', hnext, -⟩ := Machine.run_cons hrun
      unfold next at hnext
      rw [hdone] at hnext
      cases hnext

theorem isFile_of_follow (hhome : tree.kind site.home = some .dir)
    (h : site.follow tree dst = some target) (hnot : tree.kind target ≠ some .dir) :
    ∃ old, tree.kind target = some (.file old) := by
  obtain ⟨kind, hk⟩ := Option.ne_none_iff_exists'.1 (FileTree.kind_of_resolve h)
  cases kind with
  | dir => exact absurd hk hnot
  | file old => exact ⟨old, hk⟩
  | link link =>
    refine absurd hk ((FileTree.resolve_iff.1 h).2.not_link (fun other hother => ?_) link)
    unfold FileTree.start at hother
    split_ifs at hother
    · cases hother
    · rw [hhome] at hother
      cases hother

/-- What a copy of a file that can be made does. -/
theorem copyFile_fileTarget (hhome : tree.kind site.home = some .dir)
    (hpermits : permits src = true ∧ permits dst = true) (hsrc : site.follow tree src = some top)
    (hfile : tree.kind top = some (.file content))
    (htarget : fileTarget site dst tree content = some target) (hne : target ≠ top)
    (hnot : tree.kind target ≠ some .dir) :
    ∃ tree', site.copyFile permits tree src dst = some tree' ∧ tree.Keeps tree' ∧
      site.follow tree' dst = some target ∧
      ∀ loc, tree'.kind loc = if loc = target then some (.file content) else tree.kind loc := by
  unfold Site.copyFile
  rw [if_neg (by simp [hpermits])]
  simp only [hsrc, Option.bind_some, hfile]
  unfold fileTarget at htarget
  cases hdst : site.follow tree dst with
  | some place =>
    rw [hdst] at htarget
    cases htarget
    obtain ⟨old, hold⟩ := isFile_of_follow hhome hdst hnot
    have hkeeps := FileTree.keeps_write tree target content
    refine ⟨tree.write target content, by simp [FileTree.isDir, hold, hne], hkeeps,
      follow_keeps hkeeps hdst, fun loc => ?_⟩
    rw [FileTree.kind_write]
    split_ifs with hloc
    · rw [hloc, hold]
      rfl
    · rfl
  | none =>
    simp only [hdst, Option.filter_eq_some_iff, decide_eq_true_eq] at htarget
    obtain ⟨hcreates, hreached⟩ := htarget
    obtain ⟨hfree, hnil, hdir⟩ := Site.creates_spec hcreates
    exact ⟨tree.insert target (.file content), by simp [hcreates, hreached],
      FileTree.Within.keeps (FileTree.within_insert tree target _), hreached,
      FileTree.kind_insert hnil hfree hdir⟩

theorem begin_file (permits : FilePath String → Bool) (dst : FilePath String)
    (hsrc : site.follow tree src = some top) (hfile : tree.kind top = some (.file content)) :
    (∃ e, (begin site permits src dst tree).outcome = some (.error e)) ∨
      ∃ tree', site.copyFile permits tree src dst = some tree' ∧
        begin site permits src dst tree = ⟨tree', [], some (.ok ())⟩ := by
  have hmetadata : site.metadata tree src = some (.file content) := by
    simp [Site.metadata, hsrc, hfile]
  unfold begin
  cases hreads : permits src with
  | false => exact .inl ⟨_, rfl⟩
  | true =>
    simp only [hmetadata]
    cases hcopy : site.copyFile permits tree src dst with
    | none => exact .inl ⟨_, rfl⟩
    | some tree' => exact .inr ⟨tree', rfl, rfl⟩

theorem begin_of_copyFile {tree' : FileTree String Bytes} (hsrc : site.follow tree src = some top)
    (hfile : tree.kind top = some (.file content))
    (hcopy : site.copyFile permits tree src dst = some tree') :
    begin site permits src dst tree = ⟨tree', [], some (.ok ())⟩ := by
  have hmetadata : site.metadata tree src = some (.file content) := by
    simp [Site.metadata, hsrc, hfile]
  have hreads : permits src = true := (Site.copyFile_spec hcopy).1
  simp [begin, hreads, hmetadata, hcopy]

/-- There is nothing in a file. -/
theorem copied_file {tree' : FileTree String Bytes} (hfile : tree.kind top = some (.file content))
    (hkind : ∀ loc, tree'.kind loc = if loc = target then some (.file content) else tree.kind loc) :
    Copied tree tree' top target := by
  constructor
  · intro rel kind hk
    by_cases hrel : rel = []
    · subst hrel
      rw [List.append_nil] at hk
      rw [List.append_nil, hkind, if_pos rfl, ← hk, hfile]
    · have hdir := FileTree.kind_of_above (by rw [hk]; simp) hrel
      rw [hfile] at hdir
      cases hdir
  · intro loc hloc
    rw [hkind, if_neg]
    have hne := hloc [] (by simp [hfile])
    rwa [List.append_nil] at hne

/-- A file can be copied where there is a place for it, and then once more. -/
theorem copiesFile_iff (hhome : tree.kind site.home = some .dir)
    (hsrc : site.follow tree src = some top) (hfile : tree.kind top = some (.file content)) :
    CopiesFile site permits src dst tree top content ↔
      (fileTarget site dst tree content ≠ some top →
        (∀ target, fileTarget site dst tree content = some target → tree.kind target ≠ some .dir) →
        permits src = true ∧ permits dst = true ∧ (fileTarget site dst tree content).isSome = true) := by
  have hends : Ends site permits src dst tree := by
    obtain ⟨e, he⟩ | ⟨tree', -, heq⟩ := begin_file permits dst hsrc hfile
    · exact .now (by simp [he])
    · exact .now (by simp [heq])
  unfold CopiesFile
  rw [and_iff_right hends]
  refine forall_congr' fun houtside => forall_congr' fun hnot => ?_
  constructor
  · intro hsucceeds
    obtain ⟨reads, s, hrun, hok, ⟨target, htarget, -⟩, -⟩ := exists_answer hsucceeds
    obtain ⟨e, he⟩ | ⟨tree', hcopy, -⟩ := begin_file permits dst hsrc hfile
    · cases ((succeeds_iff_of_done he).1 hsucceeds).1
    · obtain ⟨hreads, hwrites, -⟩ := Site.copyFile_spec hcopy
      exact ⟨hreads, hwrites, by simp [htarget]⟩
  · rintro ⟨hreads, hwrites, hsome⟩
    obtain ⟨target, htarget⟩ := Option.isSome_iff_exists.1 hsome
    have hne : target ≠ top := by
      rintro rfl
      exact houtside htarget
    obtain ⟨tree', hcopy, hkeeps, hdst, hkind⟩ := copyFile_fileTarget hhome ⟨hreads, hwrites⟩ hsrc
      hfile htarget hne (hnot target htarget)
    have hbegin := begin_of_copyFile hsrc hfile hcopy
    rw [succeeds_iff_of_done (by rw [hbegin]), hbegin]
    refine ⟨rfl, ⟨target, htarget, copied_file hfile hkind⟩, ?_⟩
    -- the second copy finds the file that the first one has made
    have htarget' : fileTarget site dst tree' content = some target := by simp [fileTarget, hdst]
    have hfile' : tree'.kind top = some (.file content) := by rw [hkind, if_neg hne.symm, hfile]
    obtain ⟨tree'', hcopy', -, -, hkind'⟩ := copyFile_fileTarget (hkeeps.dir hhome) ⟨hreads, hwrites⟩
      (follow_keeps hkeeps hsrc) hfile' htarget' hne (by simp [hkind])
    have hbegin' := begin_of_copyFile (follow_keeps hkeeps hsrc) hfile' hcopy'
    rw [succeeds_iff_of_done (by rw [hbegin']), hbegin']
    refine ⟨rfl, fun loc => ?_⟩
    rw [hkind', hkind]
    split_ifs <;> rfl

end

/-- For which trees and paths the copy ends, and can be made twice. It ends unless the destination is
on a way down from the source that can be gone again and again. A directory can be copied twice where
the destination can be made, the paths are permitted, and there is no directory in the source; a file
where there is a place for it. -/
theorem copies_iff (site : Site) (permits : FilePath String → Bool) (src dst : FilePath String)
    (tree : FileTree String Bytes) (hhome : tree.kind site.home = some .dir) :
    CopiesWell site permits src dst tree ↔
      (∀ top, site.follow tree src = some top → tree.kind top = some .dir → IsPlain tree top →
        ¬ GoesOn site permits src dst tree top ∧
          (¬ Inside site permits dst tree top → Agrees site permits dst tree top →
            ∃ made target, destination site permits dst tree = some (made, target) ∧
              Permitted permits src dst made top ∧
              ∀ rel, rel ≠ [] → made.kind (top ++ rel) ≠ some .dir)) ∧
      ∀ top content, site.follow tree src = some top → tree.kind top = some (.file content) →
        fileTarget site dst tree content ≠ some top →
        (∀ target, fileTarget site dst tree content = some target → tree.kind target ≠ some .dir) →
        permits src = true ∧ permits dst = true ∧
          (fileTarget site dst tree content).isSome = true := by
  unfold CopiesWell
  refine and_congr ?_ ?_
  · exact forall_congr' fun top => forall_congr' fun hsrc => forall_congr' fun hdir =>
      forall_congr' fun hplain => copiesDir_iff hhome hsrc hdir hplain
  · exact forall_congr' fun top => forall_congr' fun content => forall_congr' fun hsrc =>
      forall_congr' fun hfile => copiesFile_iff hhome hsrc hfile

def rootSite : Site := ⟨[], 8⟩

/-- A file in a directory. -/
def flatTree : FileTree String Bytes where
  nodes := [(["src"], .dir), (["src", "f"], .file [7])]
  distinct := by simp
  nonempty := by simp
  closed := by simp

theorem copiesWell_flatTree :
    CopiesWell rootSite (fun _ => true) ⟨true, [.name "src"]⟩ ⟨true, [.name "dst"]⟩ flatTree := by
  have hdst : destination rootSite (fun _ => true) ⟨true, [.name "dst"]⟩ flatTree =
      some (flatTree.insert ["dst"] .dir, ["dst"]) := rfl
  have hsrc' : rootSite.follow flatTree ⟨true, [.name "src"]⟩ = some ["src"] := rfl
  refine (copies_iff rootSite (fun _ => true) ⟨true, [.name "src"]⟩ ⟨true, [.name "dst"]⟩ flatTree
    rfl).2 ⟨fun top hsrc _ _ => ?_, fun top content hsrc hfile => ?_⟩
  · rw [hsrc'] at hsrc
    cases hsrc
    refine ⟨?_, fun _ _ => ⟨_, _, hdst, fun _ _ => ⟨rfl, fun _ => rfl⟩, fun rel hne hk => hne ?_⟩⟩
    · rintro ⟨-, made, way, hdst', -⟩
      rw [hdst] at hdst'
      obtain ⟨-, hplace⟩ := Prod.mk.inj (Option.some.inj hdst')
      simp at hplace
    · have hmem := FileTree.mem_nodes_of_kind hk (by simp)
      have hnodes : (flatTree.insert ["dst"] .dir).nodes =
          [(["src"], .dir), (["src", "f"], .file [7]), (["dst"], .dir)] := rfl
      rw [hnodes] at hmem
      simpa using hmem
  · rw [hsrc'] at hsrc
    cases hsrc
    cases hfile

/-- A directory in a directory. -/
def nestedTree : FileTree String Bytes where
  nodes := [(["src"], .dir), (["src", "sub"], .dir)]
  distinct := by simp
  nonempty := by simp
  closed := by simp

/-- The first copy succeeds, and the second one meets the directory that the first one has made. -/
theorem not_copiesWell_nestedTree :
    (∃ s, Machine.run (next rootSite (fun _ => true) ⟨true, [.name "src"]⟩ ⟨true, [.name "dst"]⟩)
        [.entry "sub", .finished, .finished]
        (begin rootSite (fun _ => true) ⟨true, [.name "src"]⟩ ⟨true, [.name "dst"]⟩ nestedTree) =
          some s ∧ s.outcome = some (.ok ()) ∧
      ∃ s', Machine.run (next rootSite (fun _ => true) ⟨true, [.name "src"]⟩ ⟨true, [.name "dst"]⟩)
          [.entry "sub"]
          (begin rootSite (fun _ => true) ⟨true, [.name "src"]⟩ ⟨true, [.name "dst"]⟩ s.tree) =
            some s' ∧
        s'.outcome = some (.error ⟨.createDir, ⟨true, [.name "dst", .name "sub"]⟩⟩)) ∧
      ¬ CopiesWell rootSite (fun _ => true) ⟨true, [.name "src"]⟩ ⟨true, [.name "dst"]⟩
        nestedTree := by
  have hruns : ∃ s, Machine.run (next rootSite (fun _ => true) ⟨true, [.name "src"]⟩
        ⟨true, [.name "dst"]⟩) [.entry "sub", .finished, .finished]
        (begin rootSite (fun _ => true) ⟨true, [.name "src"]⟩ ⟨true, [.name "dst"]⟩ nestedTree) =
          some s ∧ s.outcome = some (.ok ()) ∧
      ∃ s', Machine.run (next rootSite (fun _ => true) ⟨true, [.name "src"]⟩ ⟨true, [.name "dst"]⟩)
          [.entry "sub"]
          (begin rootSite (fun _ => true) ⟨true, [.name "src"]⟩ ⟨true, [.name "dst"]⟩ s.tree) =
            some s' ∧
        s'.outcome = some (.error ⟨.createDir, ⟨true, [.name "dst", .name "sub"]⟩⟩) :=
    ⟨_, rfl, rfl, _, rfl, rfl⟩
  refine ⟨hruns, fun h => ?_⟩
  obtain ⟨s, hrun, hok, s', hrun', hfailed⟩ := hruns
  have hplain : IsPlain nestedTree ["src"] := by
    intro rel link hlink
    simpa [nestedTree] using FileTree.mem_nodes_of_kind hlink (by simp)
  have houtside : ¬ Inside rootSite (fun _ => true) ⟨true, [.name "dst"]⟩ nestedTree ["src"] := by
    change ¬ ["src"] <+: ["dst"]
    decide
  have hagrees : Agrees rootSite (fun _ => true) ⟨true, [.name "dst"]⟩ nestedTree ["src"] := by
    intro made target hdst rel kind kind' hk hk'
    have hmade : destination rootSite (fun _ => true) ⟨true, [.name "dst"]⟩ nestedTree =
        some (nestedTree.insert ["dst"] .dir, ["dst"]) := rfl
    rw [hmade] at hdst
    cases hdst
    have hnodes : (nestedTree.insert ["dst"] .dir).nodes =
        [(["src"], .dir), (["src", "sub"], .dir), (["dst"], .dir)] := rfl
    have hmem := FileTree.mem_nodes_of_kind hk' (by simp)
    rw [hnodes] at hmem
    obtain ⟨rfl, rfl⟩ : rel = [] ∧ kind' = .dir := by simpa using hmem
    cases hk
    rfl
  have hagain := ((h.1 ["src"] rfl rfl hplain).2 houtside hagrees).2 _ s _ hrun hok
  cases (hagain.2.2.2 _ s' _ hrun' hfailed).1

end HostCopy

end Distant
