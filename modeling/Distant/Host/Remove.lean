import Distant.Lib.FileTree

/-!
# Removing files on the host

`remove` asks for the metadata of the path, which follows links, and then removes the path itself:
`remove_dir_all` takes away what is at it and below, and never follows a link.
-/

namespace Distant

/-- Where relative paths start from, and how many links a path may go through. -/
structure Site where
  home : List String
  links : Nat

namespace Site

variable {β : Type} (site : Site)

/-- Where a path leads, the last link followed. -/
def follow (tree : FileTree String β) (path : FilePath String) : Option (List String) :=
  tree.resolve true site.links site.home path

/-- The place of the path itself. -/
def locate (tree : FileTree String β) (path : FilePath String) : Option (List String) :=
  tree.resolve false site.links site.home path

def metadata (tree : FileTree String β) (path : FilePath String) :
    Option (FileKind String β) :=
  (site.follow tree path).bind tree.kind

/-- All that has been deleted is the path itself, or below it and no link between. -/
def StaysBelow (path : FilePath String) (tree tree' : FileTree String β) : Prop :=
  ∀ loc, tree.kind loc ≠ none → tree'.kind loc = none →
    ∃ place, site.locate tree path = some place ∧ place <+: loc

def IsGone (path : FilePath String) (tree : FileTree String β) : Prop :=
  site.locate tree path = none

variable {site}

/-- Names below a path lead to what is there below its place, if there is no link at the end. -/
theorem follow_below {tree : FileTree String β} {path : FilePath String} {top names : List String}
    {kind : FileKind String β} (hf : site.follow tree path = some top)
    (hk : tree.kind (top ++ names) = some kind) (hl : kind.isLink = false) :
    site.follow tree (path.below names) = some (top ++ names) := by
  induction names using List.reverseRecOn generalizing kind with
  | nil => simpa using hf
  | append_singleton names name ih =>
    rw [← List.append_assoc] at hk ⊢
    rw [← FilePath.step_below]
    have hk' : tree.kind (top ++ names) = some .dir :=
      FileTree.kind_above (Option.ne_none_iff_exists'.2 ⟨_, hk⟩)
    exact FileTree.resolve_step (ih hk' rfl) hk (.inr hl)

/-- The path from the root leads there. -/
theorem follow_root {tree : FileTree String β} {loc : List String} {kind : FileKind String β}
    (hk : tree.kind loc = some kind) (hl : kind.isLink = false) :
    site.follow tree ⟨true, loc.map .name⟩ = some loc := by
  have hroot : site.follow tree ⟨true, []⟩ = some [] :=
    FileTree.resolve_iff.2 ⟨rfl, .nil⟩
  have hk' : tree.kind ([] ++ loc) = some kind := hk
  exact follow_below hroot hk' hl

end Site

namespace HostRemove

inductive RemoveError where
  | metadata
  | delete
  deriving DecidableEq, Repr

section

variable {β : Type} (site : Site) (refused : List String → Bool)

/-- `remove_file`, `remove_dir`: what is refused stays. -/
def removeFile (tree : FileTree String β) (path : FilePath String) :
    FileTree String β × Except RemoveError Unit :=
  match site.locate tree path with
  | some place =>
    if tree.isDir place = false ∧ refused place = false then (tree.erase (· = place), .ok ())
    else (tree, .error .delete)
  | none => (tree, .error .delete)

def removeDir (tree : FileTree String β) (path : FilePath String) :
    FileTree String β × Except RemoveError Unit :=
  match site.locate tree path with
  | some place =>
    if tree.isDir place = true ∧ tree.entries place = [] ∧ place ≠ [] ∧ refused place = false then
      (tree.erase (· = place), .ok ())
    else (tree, .error .delete)
  | none => (tree, .error .delete)

/-- What goes of all that is at a place and below: what is refused stays, and the directories above
it. -/
def goes (tree : FileTree String β) (place loc : List String) : Bool :=
  decide (place <+: loc) && decide (loc ≠ []) &&
    tree.nodes.all fun node => ! (decide (loc <+: node.1) && refused node.1)

/-- `remove_dir_all`, which removes a link itself. -/
def removeDirAll (tree : FileTree String β) (path : FilePath String) :
    FileTree String β × Except RemoveError Unit :=
  match site.locate tree path with
  | some place =>
    (tree.erase (goes refused tree place),
      if goes refused tree place place = true then .ok () else .error .delete)
  | none => (tree, .error .delete)

def remove (tree : FileTree String β) (path : FilePath String) (force : Bool) :
    FileTree String β × Except RemoveError Unit :=
  match site.metadata tree path with
  | none => (tree, .error .metadata)
  | some .dir =>
    if force = true then removeDirAll site refused tree path else removeDir site refused tree path
  | some _ => removeFile site refused tree path

end

/-- A forced removal, whatever is refused of it, stays below the path, and removes it if nothing is
refused. -/
def IsContained {β : Type} (site : Site) (tree : FileTree String β) (path : FilePath String) :
    Prop :=
  ∀ refused, site.StaysBelow path tree (remove site refused tree path true).1 ∧
    ((remove site refused tree path true).2 ≠ .error .delete →
      site.IsGone path (remove site refused tree path true).1)

section

variable {β : Type} {site : Site} {refused : List String → Bool} {tree : FileTree String β}
  {path : FilePath String}

theorem isGone_erase {place : List String} {p : List String → Bool}
    (hl : site.locate tree path = some place) (hne : place ≠ []) (hp : p place = true) :
    site.IsGone path (tree.erase p) :=
  FileTree.resolve_none_of_kind (tree.erase_within p) hl (FileTree.kind_erase_self hne hp)

theorem exists_above_of_erased {p : List String → Bool} {loc : List String}
    (hk : tree.kind loc ≠ none) (he : (tree.erase p).kind loc = none) :
    ∃ above, above <+: loc ∧ p above = true := by
  by_contra hnot
  rw [FileTree.kind_erase_of_not] at he
  · exact hk he
  · intro above ha
    by_contra hp
    exact hnot ⟨above, ha, by simpa using hp⟩

theorem staysBelow_refl : site.StaysBelow path tree tree := fun _ hk he => absurd he hk

theorem staysBelow_erase {place : List String} (hl : site.locate tree path = some place) :
    site.StaysBelow path tree (tree.erase (· = place)) := by
  intro loc hk he
  obtain ⟨above, ha, hp⟩ := exists_above_of_erased hk he
  obtain rfl : above = place := by simpa using hp
  exact ⟨_, hl, ha⟩

theorem removeFile_contained :
    site.StaysBelow path tree (removeFile site refused tree path).1 ∧
      ((removeFile site refused tree path).2 ≠ .error .delete →
        site.IsGone path (removeFile site refused tree path).1) := by
  unfold removeFile
  split
  · rename_i place hl
    split_ifs with hd
    · refine ⟨staysBelow_erase hl, fun _ => isGone_erase hl ?_ (by simp)⟩
      rintro rfl
      simp [FileTree.isDir] at hd
    · exact ⟨staysBelow_refl, fun h => absurd rfl h⟩
  · exact ⟨staysBelow_refl, fun h => absurd rfl h⟩

theorem removeDirAll_contained :
    site.StaysBelow path tree (removeDirAll site refused tree path).1 ∧
      ((removeDirAll site refused tree path).2 ≠ .error .delete →
        site.IsGone path (removeDirAll site refused tree path).1) := by
  unfold removeDirAll
  split
  · rename_i place hl
    constructor
    · intro loc hk he
      obtain ⟨above, ha, hp⟩ := exists_above_of_erased hk he
      simp only [goes, Bool.and_eq_true, decide_eq_true_eq] at hp
      exact ⟨place, hl, hp.1.1.trans ha⟩
    · intro h
      split_ifs at h with hg
      · have hne : place ≠ [] := by
          simp only [goes, Bool.and_eq_true, decide_eq_true_eq] at hg
          exact hg.1.2
        exact isGone_erase hl hne hg
      · exact absurd rfl h
  · exact ⟨staysBelow_refl, fun h => absurd rfl h⟩

/-- On the host only a link that leads nowhere is not removed. -/
theorem isContained_of_metadata
    (h : site.locate tree path ≠ none → site.metadata tree path ≠ none) :
    IsContained site tree path := by
  intro refused
  unfold remove
  split
  · rename_i hm
    refine ⟨staysBelow_refl, fun _ => ?_⟩
    by_contra hl
    exact h hl hm
  · exact removeDirAll_contained
  · exact removeFile_contained

end

end HostRemove

end Distant
