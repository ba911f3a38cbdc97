import Mathlib.Data.List.Infix
import Mathlib.Data.List.Nodup

/-!
# File trees

A tree of directories, files and symbolic links, as the kind of what is at each location, and how
a path is resolved in it: `..` goes up from where the links before it have led to, and the last
link is followed or not. Taking nodes away changes no resolution but to fail.
-/

/-- What a component of a path does. -/
inductive PathStep (α : Type) where
  | stay
  | up
  | name (name : α)
  deriving DecidableEq, Repr

/-- A slash at the end stays where the path has led to. -/
structure FilePath (α : Type) where
  absolute : Bool
  steps : List (PathStep α)
  deriving DecidableEq, Repr

inductive FileKind (α β : Type) where
  | dir
  | file (content : β)
  | link (target : FilePath α)
  deriving DecidableEq, Repr

def FileKind.isDir {α β : Type} : FileKind α β → Bool
  | dir => true
  | _ => false

theorem FileKind.isDir_iff {α β : Type} {kind : FileKind α β} : kind.isDir = true ↔ kind = dir := by
  cases kind <;> simp [isDir]

def FileKind.isLink {α β : Type} : FileKind α β → Bool
  | link _ => true
  | _ => false

namespace FilePath

variable {α : Type}

def isEmpty (path : FilePath α) : Bool := ! path.absolute && path.steps.isEmpty

theorem isEmpty_append {path : FilePath α} {rest : List (PathStep α)} (h : path.isEmpty = false) :
    { path with steps := path.steps ++ rest }.isEmpty = false := by
  revert h
  cases path with
  | mk absolute steps => cases absolute <;> cases steps <;> simp [isEmpty]

/-- The path with one more component. -/
def step (path : FilePath α) (next : PathStep α) : FilePath α :=
  { path with steps := path.steps ++ [next] }

theorem isEmpty_step (path : FilePath α) (next : PathStep α) : (path.step next).isEmpty = false := by
  simp [isEmpty, step]

def below (path : FilePath α) (names : List α) : FilePath α :=
  { path with steps := path.steps ++ names.map .name }

@[simp]
theorem below_nil (path : FilePath α) : path.below [] = path := by
  simp [below]

theorem step_below (path : FilePath α) (names : List α) (name : α) :
    (path.below names).step (.name name) = path.below (names ++ [name]) := by
  simp [below, step]

end FilePath

/-- The nodes by their names from the root, which is always there. -/
structure FileTree (α β : Type) where
  nodes : List (List α × FileKind α β)
  distinct : (nodes.map (·.1)).Nodup
  nonempty : ∀ node ∈ nodes, node.1 ≠ []
  closed : ∀ node ∈ nodes, node.1.dropLast ≠ [] → (node.1.dropLast, .dir) ∈ nodes

namespace FileTree

variable {α β : Type} [DecidableEq α]

/-! ## What is at a location -/

def kind (tree : FileTree α β) (loc : List α) : Option (FileKind α β) :=
  if loc = [] then some .dir
  else (tree.nodes.find? fun node => node.1 = loc).map (·.2)

@[simp]
theorem kind_nil (tree : FileTree α β) : tree.kind [] = some .dir := rfl

theorem mem_nodes_of_kind {tree : FileTree α β} {loc : List α} {kind : FileKind α β}
    (h : tree.kind loc = some kind) (hne : loc ≠ []) : (loc, kind) ∈ tree.nodes := by
  rw [FileTree.kind, if_neg hne, Option.map_eq_some_iff] at h
  obtain ⟨node, hf, rfl⟩ := h
  have hloc : node.1 = loc := by simpa using List.find?_some hf
  rw [← hloc]
  exact List.mem_of_find?_eq_some hf

theorem kind_of_mem_nodes {tree : FileTree α β} {node : List α × FileKind α β}
    (h : node ∈ tree.nodes) : tree.kind node.1 = some node.2 := by
  have hsome : (tree.nodes.find? fun other => other.1 = node.1).isSome = true := by
    rw [List.find?_isSome]
    exact ⟨node, h, by simp⟩
  obtain ⟨other, hf⟩ := Option.isSome_iff_exists.1 hsome
  have hloc : other.1 = node.1 := by simpa using List.find?_some hf
  have heq : other = node :=
    List.inj_on_of_nodup_map tree.distinct (List.mem_of_find?_eq_some hf) h hloc
  rw [kind, if_neg (tree.nonempty _ h), hf, heq]
  rfl

/-- What is above a node is a directory. -/
theorem kind_above {tree : FileTree α β} {loc : List α} {name : α}
    (h : tree.kind (loc ++ [name]) ≠ none) : tree.kind loc = some .dir := by
  obtain ⟨kind, hk⟩ := Option.ne_none_iff_exists'.1 h
  by_cases hl : loc = []
  · subst hl
    rfl
  · have hmem := tree.closed _ (mem_nodes_of_kind hk (by simp)) (by simpa using hl)
    rw [List.dropLast_concat] at hmem
    exact kind_of_mem_nodes hmem

theorem kind_of_above {tree : FileTree α β} {loc rest : List α}
    (h : tree.kind (loc ++ rest) ≠ none) (hr : rest ≠ []) : tree.kind loc = some .dir := by
  induction rest using List.reverseRecOn with
  | nil => exact absurd rfl hr
  | append_singleton rest name ih =>
    rw [← List.append_assoc] at h
    have hd := kind_above h
    by_cases hr' : rest = []
    · subst hr'
      rwa [List.append_nil] at hd
    · exact ih (by simp [hd]) hr'

/-- Below nothing there is nothing. -/
theorem kind_below_of_none {tree : FileTree α β} {loc : List α} (h : tree.kind loc = none)
    (rest : List α) : tree.kind (loc ++ rest) = none := by
  by_cases hr : rest = []
  · rw [hr, List.append_nil, h]
  · by_contra hk
    rw [kind_of_above hk hr] at h
    cases h

theorem kind_dropLast {tree : FileTree α β} {loc : List α} (h : tree.kind loc ≠ none) :
    tree.kind loc.dropLast ≠ none := by
  rcases List.eq_nil_or_concat loc with rfl | ⟨loc, name, rfl⟩
  · exact h
  · rw [List.concat_eq_append] at h
    rw [List.concat_eq_append, List.dropLast_concat, kind_above h]
    simp

def isDir (tree : FileTree α β) (loc : List α) : Bool :=
  match tree.kind loc with
  | some .dir => true
  | _ => false

theorem isDir_iff {tree : FileTree α β} {loc : List α} :
    tree.isDir loc = true ↔ tree.kind loc = some .dir := by
  unfold isDir
  split
  · rename_i h
    simp [h]
  · rename_i h
    simpa using h

/-! ## What is in a directory -/

def entries (tree : FileTree α β) (loc : List α) : List (α × FileKind α β) :=
  tree.nodes.filterMap fun node =>
    if node.1.dropLast = loc then node.1.getLast?.map (·, node.2) else none

theorem mem_entries {tree : FileTree α β} {loc : List α} {name : α} {kind : FileKind α β} :
    (name, kind) ∈ tree.entries loc ↔ tree.kind (loc ++ [name]) = some kind := by
  rw [entries, List.mem_filterMap]
  constructor
  · rintro ⟨node, hn, he⟩
    split_ifs at he with hd
    rw [Option.map_eq_some_iff] at he
    obtain ⟨last, hl, he⟩ := he
    cases he
    have hloc : node.1 = loc ++ [name] := by
      rw [← hd, List.dropLast_append_getLast?]
      exact hl
    rw [← hloc]
    exact kind_of_mem_nodes hn
  · intro h
    refine ⟨_, mem_nodes_of_kind h (by simp), ?_⟩
    simp

def children (tree : FileTree α β) (loc : List α) : List (List α × FileKind α β) :=
  tree.nodes.filter fun node => node.1.dropLast = loc

/-- The entries with their whole location. -/
theorem entries_eq (tree : FileTree α β) (loc : List α) :
    (tree.entries loc).map (fun entry => (loc ++ [entry.1], entry.2)) = tree.children loc := by
  have h : ∀ nodes : List (List α × FileKind α β), (∀ node ∈ nodes, node.1 ≠ []) →
      (nodes.filterMap fun node =>
        if node.1.dropLast = loc then node.1.getLast?.map (·, node.2) else none).map
          (fun entry => (loc ++ [entry.1], entry.2)) =
        nodes.filter fun node => node.1.dropLast = loc := by
    intro nodes hne
    induction nodes with
    | nil => rfl
    | cons node nodes ih =>
      have ih := ih fun other ho => hne other (List.mem_cons_of_mem _ ho)
      by_cases hd : node.1.dropLast = loc
      · obtain ⟨last, hl⟩ : ∃ last, node.1.getLast? = some last :=
          ⟨_, List.getLast?_eq_some_getLast (hne node List.mem_cons_self)⟩
        have hnode : loc ++ [last] = node.1 := by
          rw [← hd]
          exact List.dropLast_append_getLast? _ hl
        rw [List.filterMap_cons_some (by rw [if_pos hd, hl]; rfl), List.map_cons, ih,
          List.filter_cons_of_pos (by simpa using hd), hnode]
      · rw [List.filterMap_cons_none (by rw [if_neg hd]), ih,
          List.filter_cons_of_neg (by simpa using hd)]
  exact h tree.nodes tree.nonempty

/-- All that is below a place, as far as the lengths of the locations are wanted. -/
def below (tree : FileTree α β) (keep : Nat → Bool) (loc : List α) :
    List (List α × FileKind α β) :=
  tree.nodes.filter fun node => loc <+: node.1 ∧ node.1 ≠ loc ∧ keep node.1.length = true

omit [DecidableEq α] in
theorem nodes_nodup (tree : FileTree α β) : tree.nodes.Nodup := List.Nodup.of_map _ tree.distinct

theorem mem_children {tree : FileTree α β} {loc : List α} {node : List α × FileKind α β} :
    node ∈ tree.children loc ↔ node ∈ tree.nodes ∧ node.1.dropLast = loc := by
  simp [children]

theorem mem_below {tree : FileTree α β} {keep : Nat → Bool} {loc : List α}
    {node : List α × FileKind α β} :
    node ∈ tree.below keep loc ↔
      node ∈ tree.nodes ∧ loc <+: node.1 ∧ node.1 ≠ loc ∧ keep node.1.length = true := by
  simp [below]

theorem length_of_mem_children {tree : FileTree α β} {loc : List α}
    {node : List α × FileKind α β} (h : node ∈ tree.children loc) :
    node.1.length = loc.length + 1 := by
  obtain ⟨hn, hd⟩ := mem_children.1 h
  have hne := tree.nonempty node hn
  rw [← hd, List.length_dropLast]
  have := List.length_pos_iff.2 hne
  omega

theorem above_of_mem_children {tree : FileTree α β} {loc : List α}
    {node : List α × FileKind α β} (h : node ∈ tree.children loc) : loc <+: node.1 := by
  rw [← (mem_children.1 h).2]
  exact List.dropLast_prefix _

theorem mem_below_iff {tree : FileTree α β} {keep : Nat → Bool} {loc : List α}
    (hkeep : keep (loc.length + 1) = true) (node : List α × FileKind α β) :
    node ∈ tree.below keep loc ↔
      node ∈ tree.children loc ∨ ∃ child ∈ tree.children loc, node ∈ tree.below keep child.1 := by
  constructor
  · intro h
    obtain ⟨hn, ⟨rest, hr⟩, hne, hk⟩ := mem_below.1 h
    cases rest with
    | nil => exact absurd (by rw [← hr, List.append_nil]) hne
    | cons name rest =>
      cases rest with
      | nil => exact .inl (mem_children.2 ⟨hn, by rw [← hr, List.dropLast_concat]⟩)
      | cons name' rest =>
        have hsplit : node.1 = (loc ++ [name]) ++ name' :: rest := by
          rw [← hr]
          simp
        have hdir : tree.kind (loc ++ [name]) = some .dir := by
          refine kind_of_above ?_ (List.cons_ne_nil name' rest)
          rw [← hsplit, kind_of_mem_nodes hn]
          simp
        refine .inr ⟨(loc ++ [name], .dir), ?_, ?_⟩
        · exact mem_children.2 ⟨mem_nodes_of_kind hdir (by simp), List.dropLast_concat⟩
        · refine mem_below.2 ⟨hn, ⟨_, hsplit.symm⟩, ?_, hk⟩
          intro heq
          have hlen := congrArg List.length heq
          rw [hsplit] at hlen
          simp at hlen
  · rintro (h | ⟨child, hc, h⟩)
    · refine mem_below.2 ⟨(mem_children.1 h).1, above_of_mem_children h, ?_, ?_⟩
      · intro heq
        have hlen := length_of_mem_children h
        rw [heq] at hlen
        omega
      · rw [length_of_mem_children h]
        exact hkeep
    · obtain ⟨hn, hp, hne, hk⟩ := mem_below.1 h
      refine mem_below.2 ⟨hn, (above_of_mem_children hc).trans hp, ?_, hk⟩
      intro heq
      have hlen := length_of_mem_children hc
      have hle := hp.length_le
      rw [heq] at hle
      omega

/-- What is below a place is in it, or below one thing that is in it. -/
theorem below_perm (tree : FileTree α β) {keep : Nat → Bool} {loc : List α}
    (hkeep : keep (loc.length + 1) = true) :
    (tree.below keep loc).Perm
      (tree.children loc ++ (tree.children loc).flatMap fun node => tree.below keep node.1) := by
  have hchildren : (tree.children loc).Nodup := tree.nodes_nodup.filter _
  refine (List.perm_ext_iff_of_nodup (tree.nodes_nodup.filter _) ?_).2 fun node => ?_
  · refine List.nodup_append'.2 ⟨hchildren, List.nodup_flatMap.2 ⟨fun child _ =>
      tree.nodes_nodup.filter _, hchildren.pairwise_of_forall_ne fun child hc child' hc' hne => ?_⟩,
      ?_⟩
    · -- two things in one directory have nothing below in common
      intro node h h'
      have hp := (mem_below.1 h).2.1
      have hp' := (mem_below.1 h').2.1
      have hlen : child.1.length = child'.1.length := by
        rw [length_of_mem_children hc, length_of_mem_children hc']
      have heq : child.1 = child'.1 :=
        (List.prefix_of_prefix_length_le hp hp' hlen.le).eq_of_length hlen
      exact hne (List.inj_on_of_nodup_map tree.distinct (mem_children.1 hc).1
        (mem_children.1 hc').1 heq)
    · intro node h h'
      obtain ⟨child, hc, hb⟩ := List.mem_flatMap.1 h'
      obtain ⟨-, hp, hne, -⟩ := mem_below.1 hb
      apply hne
      refine (hp.eq_of_length ?_).symm
      rw [length_of_mem_children hc, length_of_mem_children h]
  · rw [List.mem_append, List.mem_flatMap]
    exact mem_below_iff hkeep node

/-- Nothing is below what is no directory. -/
theorem below_of_not_isDir {tree : FileTree α β} {keep : Nat → Bool} {loc : List α}
    (h : tree.isDir loc = false) : tree.below keep loc = [] := by
  rw [List.eq_nil_iff_forall_not_mem]
  intro node hb
  obtain ⟨hn, ⟨rest, hr⟩, hne, -⟩ := mem_below.1 hb
  have hrest : rest ≠ [] := by
    rintro rfl
    exact hne (by rw [← hr, List.append_nil])
  have hk : tree.kind (loc ++ rest) ≠ none := by
    rw [hr, kind_of_mem_nodes hn]
    simp
  rw [isDir_iff.2 (kind_of_above hk hrest)] at h
  cases h

theorem below_of_keep {tree : FileTree α β} {keep : Nat → Bool} {loc : List α}
    (h : ∀ length, loc.length < length → keep length = false) : tree.below keep loc = [] := by
  rw [List.eq_nil_iff_forall_not_mem]
  intro node hb
  obtain ⟨-, hp, hne, hk⟩ := mem_below.1 hb
  have hlt : loc.length < node.1.length := by
    apply Nat.lt_of_le_of_ne hp.length_le
    intro hlen
    exact hne (hp.eq_of_length hlen).symm
  rw [h _ hlt] at hk
  cases hk

theorem below_of_entries {tree : FileTree α β} {keep : Nat → Bool} {loc : List α}
    (h : tree.entries loc = []) : tree.below keep loc = [] := by
  rw [List.eq_nil_iff_forall_not_mem]
  intro node hb
  obtain ⟨hn, ⟨rest, hr⟩, hne, -⟩ := mem_below.1 hb
  cases rest with
  | nil => exact hne (by rw [← hr, List.append_nil])
  | cons name rest =>
    have hk : tree.kind (loc ++ [name]) ≠ none := by
      have hsplit : node.1 = (loc ++ [name]) ++ rest := by
        rw [← hr]
        simp
      have hnode : tree.kind ((loc ++ [name]) ++ rest) ≠ none := by
        rw [← hsplit, kind_of_mem_nodes hn]
        simp
      by_cases hrest : rest = []
      · rw [hrest, List.append_nil] at hnode
        exact hnode
      · rw [kind_of_above hnode hrest]
        simp
    obtain ⟨kind, hk⟩ := Option.ne_none_iff_exists'.1 hk
    have hmem := mem_entries.2 hk
    rw [h] at hmem
    cases hmem

/-! ## Taking nodes away -/

/-- All nodes are taken away that are at or below a chosen location. -/
def erase (tree : FileTree α β) (p : List α → Bool) : FileTree α β where
  nodes := tree.nodes.filter fun node => node.1.inits.all fun loc => ! p loc
  distinct := (List.filter_sublist.map _).nodup tree.distinct
  nonempty node h := tree.nonempty node (List.mem_filter.1 h).1
  closed node h hne := by
    obtain ⟨hm, hp⟩ := List.mem_filter.1 h
    refine List.mem_filter.2 ⟨tree.closed node hm hne, ?_⟩
    simp only [List.all_eq_true, List.mem_inits] at hp ⊢
    exact fun loc hl => hp loc (hl.trans (List.dropLast_prefix _))

theorem kind_erase {tree : FileTree α β} {p : List α → Bool} {loc : List α} (hne : loc ≠ []) :
    (tree.erase p).kind loc = if loc.inits.any p = true then none else tree.kind loc := by
  simp only [kind, if_neg hne, erase, List.find?_filter]
  split_ifs with h
  · rw [Option.map_eq_none_iff, List.find?_eq_none]
    intro node hn hc
    simp only [List.all_eq_not_any_not, Bool.not_not, decide_eq_true_eq] at hc
    obtain ⟨hall, rfl⟩ := hc
    simp [h] at hall
  · congr 2
    funext node
    by_cases hl : node.1 = loc
    · subst hl
      simp [List.all_eq_not_any_not, h]
    · simp [hl]

theorem kind_erase_self {tree : FileTree α β} {p : List α → Bool} {loc : List α} (hne : loc ≠ [])
    (hp : p loc = true) : (tree.erase p).kind loc = none := by
  rw [kind_erase hne, if_pos]
  rw [List.any_eq_true]
  exact ⟨loc, (List.mem_inits _ _).2 List.prefix_rfl, hp⟩

theorem kind_erase_of_not {tree : FileTree α β} {p : List α → Bool} {loc : List α}
    (hp : ∀ above, above <+: loc → p above = false) :
    (tree.erase p).kind loc = tree.kind loc := by
  by_cases hne : loc = []
  · subst hne
    rfl
  · rw [kind_erase hne, if_neg]
    rw [List.any_eq_true]
    rintro ⟨above, ha, h⟩
    rw [hp above ((List.mem_inits _ _).1 ha)] at h
    cases h

/-! ## Adding nodes -/

/-- A node is added at a free place in a directory; elsewhere there is no change. -/
def insert (tree : FileTree α β) (loc : List α) (kind : FileKind α β) : FileTree α β :=
  if h : (loc ≠ [] ∧ (tree.kind loc).isNone = true) ∧ tree.isDir loc.dropLast = true then
    { nodes := tree.nodes ++ [(loc, kind)]
      distinct := by
        rw [List.map_append, List.nodup_append]
        refine ⟨tree.distinct, by simp, ?_⟩
        rintro other hother last hlast rfl
        obtain rfl : other = loc := by simpa using hlast
        obtain ⟨node, hn, rfl⟩ := List.mem_map.1 hother
        simp [kind_of_mem_nodes hn] at h
      nonempty := by
        intro node hn
        rcases List.mem_append.1 hn with hn | hn
        · exact tree.nonempty node hn
        · rw [List.mem_singleton.1 hn]
          exact h.1.1
      closed := by
        intro node hn hne
        rw [List.mem_append]
        rcases List.mem_append.1 hn with hn | hn
        · exact .inl (tree.closed node hn hne)
        · obtain rfl := List.mem_singleton.1 hn
          exact .inl (mem_nodes_of_kind (isDir_iff.1 h.2) hne) }
  else tree

theorem kind_insert {tree : FileTree α β} {loc : List α} {kind : FileKind α β}
    (hne : loc ≠ []) (hfree : tree.kind loc = none) (hdir : tree.kind loc.dropLast = some .dir)
    (loc' : List α) :
    (tree.insert loc kind).kind loc' = if loc' = loc then some kind else tree.kind loc' := by
  have h : (loc ≠ [] ∧ (tree.kind loc).isNone = true) ∧ tree.isDir loc.dropLast = true :=
    ⟨⟨hne, by simp [hfree]⟩, isDir_iff.2 hdir⟩
  rw [insert, dif_pos h]
  unfold FileTree.kind
  by_cases hnil : loc' = []
  · subst hnil
    rw [if_pos rfl, if_neg (Ne.symm hne), if_pos rfl]
  · rw [if_neg hnil, List.find?_append]
    by_cases hloc : loc' = loc
    · subst hloc
      rw [FileTree.kind, if_neg hnil, Option.map_eq_none_iff] at hfree
      simp [hfree]
    · simp [hloc, Ne.symm hloc, hnil]

theorem kind_insert_self {tree : FileTree α β} {loc : List α} {kind : FileKind α β}
    (hne : loc ≠ []) (hfree : tree.kind loc = none) (hdir : tree.kind loc.dropLast = some .dir) :
    (tree.insert loc kind).kind loc = some kind := by
  rw [kind_insert hne hfree hdir, if_pos rfl]

/-- What is new after an insertion. -/
theorem eq_of_insert {tree : FileTree α β} {loc loc' : List α} {kind : FileKind α β}
    (hfree : tree.kind loc' = none) (hk : (tree.insert loc kind).kind loc' ≠ none) :
    loc' = loc ∧ (tree.insert loc kind).kind loc' = some kind := by
  by_cases h : (loc ≠ [] ∧ (tree.kind loc).isNone = true) ∧ tree.isDir loc.dropLast = true
  · obtain ⟨⟨hne, hnone⟩, hdir⟩ := h
    rw [kind_insert hne (by simpa using hnone) (isDir_iff.1 hdir)] at hk ⊢
    split_ifs at hk ⊢ with hloc
    · exact ⟨hloc, rfl⟩
    · exact absurd hfree hk
  · rw [insert, dif_neg h] at hk
    exact absurd hfree hk

theorem length_below_insert (tree : FileTree α β) (keep : Nat → Bool) (top loc : List α)
    (kind : FileKind α β) :
    ((tree.insert loc kind).below keep top).length ≤
      (tree.below keep top).length + if top <+: loc then 1 else 0 := by
  by_cases h : (loc ≠ [] ∧ (tree.kind loc).isNone = true) ∧ tree.isDir loc.dropLast = true
  · rw [insert, dif_pos h]
    simp only [below, List.filter_append, List.length_append]
    refine Nat.add_le_add_left ?_ _
    by_cases habove : top <+: loc
    · rw [if_pos habove]
      exact List.length_filter_le _ _
    · simp [habove]
  · rw [insert, dif_neg h]
    exact Nat.le_add_right _ _

/-- New directories, each in the one before. -/
def grow (tree : FileTree α β) (top : List α) : List α → FileTree α β
  | [] => tree
  | name :: names => grow (tree.insert (top ++ [name]) .dir) (top ++ [name]) names

omit [DecidableEq α] in
theorem prefix_append_cons_iff {top loc : List α} {name : α} (names : List α) :
    (loc ≠ top ∧ top <+: loc ∧ loc <+: top ++ name :: names) ↔
      loc = top ++ [name] ∨
        (loc ≠ top ++ [name] ∧ top ++ [name] <+: loc ∧ loc <+: top ++ [name] ++ names) := by
  have happend : top ++ [name] ++ names = top ++ name :: names := by simp
  rw [happend]
  constructor
  · rintro ⟨hne, ⟨rest, rfl⟩, hl⟩
    cases rest with
    | nil => simp at hne
    | cons other rest =>
      obtain ⟨rfl, -⟩ := List.cons_prefix_cons.1 ((List.prefix_append_right_inj top).1 hl)
      by_cases hrest : rest = []
      · subst hrest
        exact .inl rfl
      · refine .inr ⟨by simpa using hrest, ⟨rest, by simp⟩, hl⟩
  · rintro (rfl | ⟨-, habove, hl⟩)
    · refine ⟨by simp, List.prefix_append _ _, ⟨names, by simp⟩⟩
    · refine ⟨?_, (List.prefix_append _ _).trans habove, hl⟩
      rintro rfl
      have := habove.length_le
      simp only [List.length_append, List.length_singleton] at this
      omega

/-- Growing adds the directories and nothing else. -/
theorem kind_grow {tree : FileTree α β} {top : List α} (hdir : tree.kind top = some .dir)
    (names : List α) (hfree : ∀ first ∈ names.head?, tree.kind (top ++ [first]) = none) (loc : List α) :
    (tree.grow top names).kind loc =
      if loc ≠ top ∧ top <+: loc ∧ loc <+: top ++ names then some .dir else tree.kind loc := by
  induction names generalizing tree top with
  | nil =>
    rw [grow, if_neg]
    rintro ⟨hne, habove, hl⟩
    rw [List.append_nil] at hl
    exact hne (hl.eq_of_length (Nat.le_antisymm hl.length_le habove.length_le))
  | cons name names ih =>
    have hname : tree.kind (top ++ [name]) = none := hfree name rfl
    have hinsert : ∀ loc', (tree.insert (top ++ [name]) .dir).kind loc' =
        if loc' = top ++ [name] then some .dir else tree.kind loc' :=
      kind_insert (by simp) hname (by rwa [List.dropLast_concat])
    have hdir' : (tree.insert (top ++ [name]) .dir).kind (top ++ [name]) = some .dir := by
      rw [hinsert, if_pos rfl]
    have hfree' : ∀ first ∈ names.head?,
        (tree.insert (top ++ [name]) .dir).kind (top ++ [name] ++ [first]) = none := by
      intro first _
      rw [hinsert, if_neg (by simp)]
      exact kind_below_of_none hname [first]
    rw [grow, ih hdir' hfree', hinsert]
    simp only [prefix_append_cons_iff names]
    split_ifs <;> simp_all

/-- All that the one tree has is in the other one. -/
def Within (tree tree' : FileTree α β) : Prop :=
  ∀ {loc kind}, tree.kind loc = some kind → tree'.kind loc = some kind

theorem Within.refl (tree : FileTree α β) : tree.Within tree := fun h => h

theorem Within.trans {tree tree' tree'' : FileTree α β} (h : tree.Within tree')
    (h' : tree'.Within tree'') : tree.Within tree'' := fun hk => h' (h hk)

theorem Within.kind_eq {tree tree' : FileTree α β} (h : tree.Within tree') {loc : List α}
    (hk : tree.kind loc ≠ none) : tree'.kind loc = tree.kind loc := by
  obtain ⟨kind, hk⟩ := Option.ne_none_iff_exists'.1 hk
  rw [hk]
  exact h hk

theorem Within.isDir_eq {tree tree' : FileTree α β} (h : tree.Within tree') {loc : List α}
    (hk : tree.kind loc ≠ none) : tree'.isDir loc = tree.isDir loc := by
  rw [isDir, isDir, h.kind_eq hk]

theorem within_insert (tree : FileTree α β) (loc : List α) (kind : FileKind α β) :
    tree.Within (tree.insert loc kind) := by
  intro loc' kind' h
  by_cases hfits : (loc ≠ [] ∧ (tree.kind loc).isNone = true) ∧ tree.isDir loc.dropLast = true
  · obtain ⟨⟨hne, hfree⟩, hdir⟩ := hfits
    rw [kind_insert hne (by simpa using hfree) (isDir_iff.1 hdir), if_neg, h]
    rintro rfl
    rw [Option.isNone_iff_eq_none, h] at hfree
    cases hfree
  · rwa [insert, dif_neg hfits]

/-! ## Writing files -/

/-- A file has this content now; what is not a file stays. -/
def written (content : β) : FileKind α β → FileKind α β
  | .file _ => .file content
  | kind => kind

/-- The content of a file is replaced; elsewhere there is no change. -/
def write (tree : FileTree α β) (loc : List α) (content : β) : FileTree α β where
  nodes := tree.nodes.map fun node =>
    (node.1, if node.1 = loc then written content node.2 else node.2)
  distinct := by
    rw [List.map_map]
    exact tree.distinct
  nonempty := by
    intro node hn
    obtain ⟨old, hold, rfl⟩ := List.mem_map.1 hn
    exact tree.nonempty old hold
  closed := by
    intro node hn hne
    obtain ⟨old, hold, rfl⟩ := List.mem_map.1 hn
    refine List.mem_map.2 ⟨_, tree.closed old hold hne, ?_⟩
    -- the directory is not replaced
    simp [written]

theorem kind_write (tree : FileTree α β) (loc : List α) (content : β) (loc' : List α) :
    (tree.write loc content).kind loc' =
      if loc' = loc then (tree.kind loc').map (written content) else tree.kind loc' := by
  unfold FileTree.kind
  by_cases hnil : loc' = []
  · subst hnil
    simp [written]
  · have hfind : (tree.write loc content).nodes.find? (fun node => node.1 = loc') =
        (tree.nodes.find? fun node => node.1 = loc').map fun node =>
          (node.1, if node.1 = loc then written content node.2 else node.2) := by
      rw [write, List.find?_map]
      rfl
    rw [if_neg hnil, if_neg hnil, hfind]
    cases hold : tree.nodes.find? (fun node => node.1 = loc') with
    | none => simp
    | some node =>
      have hnode : node.1 = loc' := by simpa using List.find?_some hold
      by_cases hloc : loc' = loc
      · simp [hnode, hloc]
      · simp [hnode, hloc]

theorem length_below_write (tree : FileTree α β) (keep : Nat → Bool) (top loc : List α) (content : β) :
    ((tree.write loc content).below keep top).length = (tree.below keep top).length := by
  rw [below, write, List.filter_map, List.length_map]
  rfl

/-- What is there of a node without its content. -/
def shape : FileKind α β → FileKind α Unit
  | .dir => .dir
  | .file _ => .file ()
  | .link target => .link target

/-- All that the one tree has is in the other one, but for the contents of files. -/
def Keeps (tree tree' : FileTree α β) : Prop :=
  ∀ ⦃loc kind⦄, tree.kind loc = some kind →
    ∃ kind', tree'.kind loc = some kind' ∧ shape kind' = shape kind

theorem Keeps.refl (tree : FileTree α β) : tree.Keeps tree := fun _ _ h => ⟨_, h, rfl⟩

theorem Keeps.trans {tree tree' tree'' : FileTree α β} (h : tree.Keeps tree')
    (h' : tree'.Keeps tree'') : tree.Keeps tree'' := by
  intro loc kind hk
  obtain ⟨kind', hk', hshape⟩ := h hk
  obtain ⟨kind'', hk'', hshape'⟩ := h' hk'
  exact ⟨kind'', hk'', hshape'.trans hshape⟩

theorem Within.keeps {tree tree' : FileTree α β} (h : tree.Within tree') : tree.Keeps tree' :=
  fun _ _ hk => ⟨_, h hk, rfl⟩

theorem keeps_write (tree : FileTree α β) (loc : List α) (content : β) :
    tree.Keeps (tree.write loc content) := by
  intro loc' kind hk
  rw [kind_write, hk]
  split_ifs
  · refine ⟨_, rfl, ?_⟩
    cases kind <;> rfl
  · exact ⟨kind, rfl, rfl⟩

theorem Keeps.dir {tree tree' : FileTree α β} (h : tree.Keeps tree') {loc : List α}
    (hk : tree.kind loc = some .dir) : tree'.kind loc = some .dir := by
  obtain ⟨kind, hk', hshape⟩ := h hk
  cases kind <;> first | exact hk' | cases hshape

/-- What is a directory now was one if there was anything. -/
theorem Keeps.dir_of {tree tree' : FileTree α β} (h : tree.Keeps tree') {loc : List α}
    (hk : tree.kind loc ≠ none) (hk' : tree'.kind loc = some .dir) : tree.kind loc = some .dir := by
  obtain ⟨kind, hk⟩ := Option.ne_none_iff_exists'.1 hk
  obtain ⟨kind', hk'', hshape⟩ := h hk
  rw [hk'] at hk''
  cases hk''
  cases kind <;> first | exact hk | cases hshape

theorem Keeps.link {tree tree' : FileTree α β} (h : tree.Keeps tree') {loc : List α}
    {target : FilePath α} (hk : tree.kind loc = some (.link target)) :
    tree'.kind loc = some (.link target) := by
  obtain ⟨kind, hk', hshape⟩ := h hk
  cases kind <;> cases hshape
  exact hk'

theorem Keeps.kind_ne {tree tree' : FileTree α β} (h : tree.Keeps tree') {loc : List α}
    (hk : tree.kind loc ≠ none) : tree'.kind loc ≠ none := by
  obtain ⟨kind, hk⟩ := Option.ne_none_iff_exists'.1 hk
  obtain ⟨kind', hk', -⟩ := h hk
  simp [hk']

omit [DecidableEq α] in
theorem isLink_of_shape {kind kind' : FileKind α β} (h : shape kind' = shape kind) :
    kind'.isLink = kind.isLink := by
  cases kind <;> cases kind' <;> first | rfl | cases h

theorem erase_within (tree : FileTree α β) (p : List α → Bool) : (tree.erase p).Within tree := by
  intro loc _ h
  by_cases hl : loc = []
  · subst hl
    exact h
  · rw [kind_erase hl] at h
    split_ifs at h
    exact h

theorem within_of_sublist {tree tree' : FileTree α β} (h : tree.nodes.Sublist tree'.nodes) :
    tree.Within tree' := by
  intro loc kind hk
  by_cases hl : loc = []
  · subst hl
    exact hk
  · exact kind_of_mem_nodes (h.subset (mem_nodes_of_kind hk hl))

omit [DecidableEq α] in
theorem erase_sublist (tree : FileTree α β) (p : List α → Bool) :
    (tree.erase p).nodes.Sublist tree.nodes := List.filter_sublist

theorem exists_depth (tree : FileTree α β) :
    ∃ depth, ∀ loc, tree.kind loc ≠ none → loc.length ≤ depth := by
  have h : ∀ nodes : List (List α × FileKind α β),
      ∃ depth, ∀ node ∈ nodes, node.1.length ≤ depth := by
    intro nodes
    induction nodes with
    | nil => exact ⟨0, by simp⟩
    | cons node nodes ih =>
      obtain ⟨depth, h⟩ := ih
      refine ⟨max node.1.length depth, fun other ho => ?_⟩
      rcases List.mem_cons.1 ho with rfl | ho
      · omega
      · have := h other ho
        omega
  obtain ⟨depth, h⟩ := h tree.nodes
  refine ⟨depth, fun loc hk => ?_⟩
  by_cases hl : loc = []
  · simp [hl]
  · obtain ⟨kind, hk⟩ := Option.ne_none_iff_exists'.1 hk
    exact h _ (mem_nodes_of_kind hk hl)

/-- If there is nothing below a place, nothing else goes with it. -/
theorem eq_of_erase {tree : FileTree α β} {place loc : List α}
    (hleaf : ∀ name, tree.kind (place ++ [name]) = none) (hk : tree.kind loc ≠ none)
    (he : (tree.erase (· = place)).kind loc = none) : loc = place := by
  have hp : place <+: loc := by
    by_contra hp
    rw [kind_erase_of_not] at he
    · exact hk he
    · intro above ha
      apply decide_eq_false
      rintro rfl
      exact hp ha
  obtain ⟨rest, rfl⟩ := hp
  cases rest with
  | nil => simp
  | cons name rest =>
    exfalso
    have hsplit : place ++ name :: rest = (place ++ [name]) ++ rest := by simp
    rw [hsplit] at hk
    by_cases hr : rest = []
    · subst hr
      rw [List.append_nil] at hk
      exact hk (hleaf name)
    · cases (hleaf name).symm.trans (kind_of_above hk hr)

theorem leaf_of_not_isDir {tree : FileTree α β} {place : List α}
    (h : tree.isDir place = false) (name : α) : tree.kind (place ++ [name]) = none := by
  by_contra hk
  rw [isDir_iff.2 (kind_above hk)] at h
  cases h

theorem leaf_of_entries {tree : FileTree α β} {place : List α}
    (h : tree.entries place = []) (name : α) : tree.kind (place ++ [name]) = none := by
  by_contra hk
  obtain ⟨kind, hk⟩ := Option.ne_none_iff_exists'.1 hk
  have hmem := mem_entries.2 hk
  rw [h] at hmem
  cases hmem

/-! ## Where a path leads -/

/-- Goes along the components, and on at `jump` with what is left at a link. -/
def walk (tree : FileTree α β) (follow : Bool)
    (jump : List α → FilePath α → Option (List α)) : List α → List (PathStep α) → Option (List α)
  | loc, [] => some loc
  | loc, next :: rest =>
    if tree.isDir loc = false then none
    else match next with
      | .stay => walk tree follow jump loc rest
      | .up => walk tree follow jump loc.dropLast rest
      | .name name =>
        match tree.kind (loc ++ [name]) with
        | none => none
        | some (.link target) =>
          if follow = false ∧ rest = [] then some (loc ++ [name])
          else if target.isEmpty = true then none
          else jump loc { target with steps := target.steps ++ rest }
        | some _ => walk tree follow jump (loc ++ [name]) rest

/-- Where a path starts from. -/
def start (loc : List α) (path : FilePath α) : List α := if path.absolute = true then [] else loc

/-- The place that a path leads to from a directory, by so many links at most. An empty path leads
nowhere. -/
def resolve (tree : FileTree α β) (follow : Bool) :
    Nat → List α → FilePath α → Option (List α)
  | 0, loc, path =>
    if path.isEmpty = true then none
    else walk tree follow (fun _ _ => none) (start loc path) path.steps
  | links + 1, loc, path =>
    if path.isEmpty = true then none
    else walk tree follow (resolve tree follow links) (start loc path) path.steps

/-- The components lead from a directory to a place. -/
inductive Leads (tree : FileTree α β) (follow : Bool) :
    Nat → List α → List (PathStep α) → List α → Prop
  | nil {links : Nat} {loc : List α} : Leads tree follow links loc [] loc
  | stay {links : Nat} {loc place : List α} {rest : List (PathStep α)}
      (hd : tree.kind loc = some .dir) (h : Leads tree follow links loc rest place) :
      Leads tree follow links loc (.stay :: rest) place
  | up {links : Nat} {loc place : List α} {rest : List (PathStep α)}
      (hd : tree.kind loc = some .dir) (h : Leads tree follow links loc.dropLast rest place) :
      Leads tree follow links loc (.up :: rest) place
  | name {links : Nat} {loc place : List α} {rest : List (PathStep α)} {name : α}
      {kind : FileKind α β} (hk : tree.kind (loc ++ [name]) = some kind)
      (hl : kind.isLink = false) (h : Leads tree follow links (loc ++ [name]) rest place) :
      Leads tree follow links loc (.name name :: rest) place
  | last {links : Nat} {loc : List α} {name : α} {target : FilePath α} (hf : follow = false)
      (hk : tree.kind (loc ++ [name]) = some (.link target)) :
      Leads tree follow links loc [.name name] (loc ++ [name])
  | jump {links : Nat} {loc place : List α} {rest : List (PathStep α)} {name : α}
      {target : FilePath α} (hk : tree.kind (loc ++ [name]) = some (.link target))
      (hf : ¬(follow = false ∧ rest = []))
      (hne : target.isEmpty = false)
      (h : Leads tree follow links (start loc target) (target.steps ++ rest) place) :
      Leads tree follow (links + 1) loc (.name name :: rest) place

section

variable {tree tree' : FileTree α β} {follow : Bool} {links : Nat} {loc place : List α}
  {steps : List (PathStep α)} {path : FilePath α} {name : α}

theorem leads_of_walk {jump : List α → FilePath α → Option (List α)}
    (hjump : ∀ loc name target rest, tree.kind (loc ++ [name]) = some (.link target) →
      ¬(follow = false ∧ rest = []) → target.isEmpty = false →
      jump loc { target with steps := target.steps ++ rest } = some place →
      Leads tree follow links loc (.name name :: rest) place)
    (h : walk tree follow jump loc steps = some place) : Leads tree follow links loc steps place := by
  induction steps generalizing loc with
  | nil =>
    cases h
    exact .nil
  | cons next rest ih =>
    unfold walk at h
    cases hd : tree.isDir loc with
    | false =>
      rw [if_pos hd] at h
      cases h
    | true =>
      rw [if_neg (by simp [hd])] at h
      rw [isDir_iff] at hd
      cases next with
      | stay => exact .stay hd (ih h)
      | up => exact .up hd (ih h)
      | name name =>
        cases hk : tree.kind (loc ++ [name]) with
        | none => simp [hk] at h
        | some kind =>
          cases kind with
          | dir => exact .name hk rfl (ih (by simpa only [hk] using h))
          | file content => exact .name hk rfl (ih (by simpa only [hk] using h))
          | link target =>
            simp only [hk] at h
            by_cases hf : follow = false ∧ rest = []
            · rw [if_pos hf] at h
              cases h
              obtain ⟨hf, rfl⟩ := hf
              exact .last hf hk
            · rw [if_neg hf] at h
              cases he : target.isEmpty with
              | true => simp [he] at h
              | false =>
                rw [if_neg (by simp [he])] at h
                exact hjump loc name target rest hk hf he h

theorem walk_of_leads {jump : List α → FilePath α → Option (List α)}
    (h : Leads tree follow links loc steps place)
    (hjump : ∀ {loc rest place} {target : FilePath α}, target.isEmpty = false →
      ∀ links', links = links' + 1 →
      Leads tree follow links' (start loc target) (target.steps ++ rest) place →
      jump loc { target with steps := target.steps ++ rest } = some place) :
    walk tree follow jump loc steps = some place := by
  induction h with
  | nil => rfl
  | stay hd h ih =>
    unfold walk
    rw [if_neg (by simp [isDir_iff.2 hd])]
    exact ih hjump
  | up hd h ih =>
    unfold walk
    rw [if_neg (by simp [isDir_iff.2 hd])]
    exact ih hjump
  | @name links loc place rest name kind hk hl h ih =>
    unfold walk
    rw [if_neg (by simp [isDir_iff.2 (kind_above (Option.ne_none_iff_exists'.2 ⟨_, hk⟩))])]
    simp only [hk]
    cases kind with
    | link target => cases hl
    | dir => exact ih hjump
    | file content => exact ih hjump
  | last hf hk =>
    unfold walk
    rw [if_neg (by simp [isDir_iff.2 (kind_above (Option.ne_none_iff_exists'.2 ⟨_, hk⟩))])]
    simp [hk, hf]
  | jump hk hf hne h ih =>
    unfold walk
    rw [if_neg (by simp [isDir_iff.2 (kind_above (Option.ne_none_iff_exists'.2 ⟨_, hk⟩))])]
    simp only [hk, if_neg hf, hne]
    exact hjump hne _ rfl h

theorem resolve_iff :
    tree.resolve follow links loc path = some place ↔
      path.isEmpty = false ∧ Leads tree follow links (start loc path) path.steps place := by
  induction links generalizing loc place path with
  | zero =>
    unfold resolve
    split_ifs with he
    · simp [he]
    · refine ⟨fun h => ⟨by simpa using he, leads_of_walk (by simp) h⟩,
        fun h => walk_of_leads h.2 ?_⟩
      intro _ _ _ _ _ links hl
      cases hl
  | succ links ih =>
    unfold resolve
    split_ifs with he
    · simp [he]
    · refine ⟨fun h => ⟨by simpa using he, leads_of_walk ?_ h⟩, fun h => walk_of_leads h.2 ?_⟩
      · intro loc name target rest hk hf hne hj
        exact .jump hk hf hne (ih.1 hj).2
      · intro loc rest place target hne links' hl h
        cases hl
        exact ih.2 ⟨FilePath.isEmpty_append hne, h⟩

/-! ## What resolutions have in common -/

theorem Leads.within (hw : tree.Within tree') (h : Leads tree follow links loc steps place) :
    Leads tree' follow links loc steps place := by
  induction h with
  | nil => exact .nil
  | stay hd h ih => exact .stay (hw hd) ih
  | up hd h ih => exact .up (hw hd) ih
  | name hk hl h ih => exact .name (hw hk) hl ih
  | last hf hk => exact .last hf (hw hk)
  | jump hk hf hne h ih => exact .jump (hw hk) hf hne ih

theorem Leads.keeps (hw : tree.Keeps tree') (h : Leads tree follow links loc steps place) :
    Leads tree' follow links loc steps place := by
  induction h with
  | nil => exact .nil
  | stay hd h ih => exact .stay (hw.dir hd) ih
  | up hd h ih => exact .up (hw.dir hd) ih
  | name hk hl h ih =>
    obtain ⟨kind', hk', hshape⟩ := hw hk
    exact .name hk' ((isLink_of_shape hshape).trans hl) ih
  | last hf hk => exact .last hf (hw.link hk)
  | jump hk hf hne h ih => exact .jump (hw.link hk) hf hne ih

theorem Leads.kind_ne (h : Leads tree follow links loc steps place)
    (hl : tree.kind loc ≠ none) : tree.kind place ≠ none := by
  induction h with
  | nil => exact hl
  | stay hd h ih => exact ih hl
  | up hd h ih => exact ih (kind_dropLast hl)
  | name hk _ h ih => exact ih (by simp [hk])
  | last hf hk => simp [hk]
  | @jump links loc place rest name target hk hf hne h ih =>
    apply ih
    have hd : tree.kind loc = some .dir := kind_above (Option.ne_none_iff_exists'.2 ⟨_, hk⟩)
    unfold start
    split_ifs
    · simp
    · simp [hd]

/-- Components that are followed to the end do not lead to a link. -/
theorem Leads.not_link (h : Leads tree true links loc steps place)
    (hloc : ∀ target, tree.kind loc ≠ some (.link target)) (target : FilePath α) :
    tree.kind place ≠ some (.link target) := by
  induction h with
  | nil => exact hloc target
  | stay hd h ih => exact ih hloc
  | @up links loc place rest hd h ih =>
    refine ih fun other hother => ?_
    rcases List.eq_nil_or_concat loc with rfl | ⟨above, name, rfl⟩
    · cases hother
    · rw [List.concat_eq_append] at hd hother
      rw [List.dropLast_concat, kind_above (by rw [hd]; simp)] at hother
      cases hother
  | name hk hl h ih =>
    refine ih fun other hother => ?_
    rw [hk] at hother
    cases hother
    cases hl
  | last hf => cases hf
  | @jump links loc place rest name target' hk hf hne h ih =>
    refine ih fun other hother => ?_
    have hd : tree.kind loc = some .dir := kind_above (Option.ne_none_iff_exists'.2 ⟨_, hk⟩)
    unfold start at hother
    split_ifs at hother
    · cases hother
    · rw [hd] at hother
      cases hother

/-- One more name, in the directory that the links have led to. -/
theorem Leads.concat {kind : FileKind α β} (h : Leads tree true links loc steps place)
    (hk : tree.kind (place ++ [name]) = some kind) (hf : follow = false ∨ kind.isLink = false) :
    Leads tree follow links loc (steps ++ [.name name]) (place ++ [name]) := by
  induction h with
  | nil =>
    by_cases hl : kind.isLink = false
    · exact .name hk hl .nil
    · cases kind with
      | link target => exact .last (hf.resolve_right hl) hk
      | dir => exact absurd rfl hl
      | file content => exact absurd rfl hl
  | stay hd h ih => exact .stay hd (ih hk)
  | up hd h ih => exact .up hd (ih hk)
  | name hk' hl h ih => exact .name hk' hl (ih hk)
  | last hf' => cases hf'
  | @jump links loc place rest name' target hk' hf' hne h ih =>
    refine .jump hk' (by simp) hne ?_
    have h' := ih hk
    rwa [List.append_assoc] at h'

/-- A slash behind a directory. -/
theorem Leads.concat_stay (h : Leads tree true links loc steps place)
    (hd : tree.kind place = some .dir) : Leads tree true links loc (steps ++ [.stay]) place := by
  induction h with
  | nil => exact .stay hd .nil
  | stay hd' h ih => exact .stay hd' (ih hd)
  | up hd' h ih => exact .up hd' (ih hd)
  | name hk hl h ih => exact .name hk hl (ih hd)
  | last hf => cases hf
  | @jump links loc place rest name target hk hf hne h ih =>
    refine .jump hk (by simp) hne ?_
    have h' := ih hd
    rwa [List.append_assoc] at h'

/-- Where the path before the last name leads to. -/
theorem Leads.init (h : Leads tree follow links loc (steps ++ [.name name]) place) :
    ∃ dir, Leads tree true links loc steps dir ∧ tree.kind dir = some .dir ∧
      tree.kind (dir ++ [name]) ≠ none := by
  generalize hs : steps ++ [PathStep.name name] = all at h
  induction h generalizing steps with
  | nil => simp at hs
  | stay hd h ih =>
    cases steps with
    | nil => cases hs
    | cons next steps =>
      obtain ⟨rfl, hs'⟩ := List.cons.inj hs
      obtain ⟨dir, h, hk⟩ := ih hs'
      exact ⟨dir, .stay hd h, hk⟩
  | up hd h ih =>
    cases steps with
    | nil => cases hs
    | cons next steps =>
      obtain ⟨rfl, hs'⟩ := List.cons.inj hs
      obtain ⟨dir, h, hk⟩ := ih hs'
      exact ⟨dir, .up hd h, hk⟩
  | @name links loc place rest name' kind hk hl h ih =>
    cases steps with
    | nil =>
      cases hs
      exact ⟨loc, .nil, kind_above (Option.ne_none_iff_exists'.2 ⟨_, hk⟩), by simp [hk]⟩
    | cons next steps =>
      obtain ⟨rfl, hs'⟩ := List.cons.inj hs
      obtain ⟨dir, h, hk'⟩ := ih hs'
      exact ⟨dir, .name hk hl h, hk'⟩
  | @last links loc name' target hf hk =>
    cases steps with
    | nil =>
      cases hs
      exact ⟨loc, .nil, kind_above (Option.ne_none_iff_exists'.2 ⟨_, hk⟩), by simp [hk]⟩
    | cons next steps => simp at hs
  | @jump links loc place rest name' target hk hf hne h ih =>
    cases steps with
    | nil =>
      cases hs
      exact ⟨loc, .nil, kind_above (Option.ne_none_iff_exists'.2 ⟨_, hk⟩), by simp [hk]⟩
    | cons next steps =>
      obtain ⟨rfl, hs'⟩ := List.cons.inj hs
      have heq : target.steps ++ steps ++ [PathStep.name name] = target.steps ++ rest := by
        rw [List.append_assoc, ← hs']
        rfl
      obtain ⟨dir, h, hk'⟩ := ih heq
      exact ⟨dir, .jump hk (by simp) hne h, hk'⟩

theorem Leads.unfollowed (h : Leads tree true links loc steps place) :
    ∃ place', Leads tree false links loc steps place' := by
  induction h with
  | nil => exact ⟨_, .nil⟩
  | stay hd h ih =>
    obtain ⟨place', h'⟩ := ih
    exact ⟨place', .stay hd h'⟩
  | up hd h ih =>
    obtain ⟨place', h'⟩ := ih
    exact ⟨place', .up hd h'⟩
  | name hk hl h ih =>
    obtain ⟨place', h'⟩ := ih
    exact ⟨place', .name hk hl h'⟩
  | last hf hk => cases hf
  | @jump links loc place rest name target hk hf hne h ih =>
    cases rest with
    | nil => exact ⟨_, .last rfl hk⟩
    | cons next rest =>
      obtain ⟨place', h'⟩ := ih
      exact ⟨place', .jump hk (by simp) hne h'⟩

/-- What is not a link at its end leads to the same place, followed or not. -/
theorem Leads.followed {kind : FileKind α β} (h : Leads tree false links loc steps place)
    (hk : tree.kind place = some kind) (hl : kind.isLink = false) :
    Leads tree true links loc steps place := by
  induction h with
  | nil => exact .nil
  | stay hd h ih => exact .stay hd (ih hk)
  | up hd h ih => exact .up hd (ih hk)
  | name hk' hl' h ih => exact .name hk' hl' (ih hk)
  | last hf hk' =>
    rw [hk'] at hk
    cases hk
    cases hl
  | jump hk' hf hne h ih => exact .jump hk' (by simp) hne (ih hk)

/-- Where a link is at the end of the components, they lead on to where its target leads from the
directory that holds it. -/
theorem Leads.referent {links' : Nat} {place' : List α} {target : FilePath α}
    (h : Leads tree false links loc steps place) (h' : Leads tree true links' loc steps place')
    (hk : tree.kind place = some (.link target))
    (hloc : ∀ other, tree.kind loc ≠ some (.link other)) :
    target.isEmpty = false ∧
      ∃ links, Leads tree true links (start place.dropLast target) target.steps place' := by
  induction h generalizing links' with
  | nil => exact absurd hk (hloc target)
  | stay hd h ih =>
    cases h' with
    | stay hd' h' => exact ih h' hk hloc
  | up hd h ih =>
    cases h' with
    | up hd' h' =>
      refine ih h' hk fun other hother => ?_
      rename_i loc _ _
      rcases List.eq_nil_or_concat loc with rfl | ⟨above, name, rfl⟩
      · exact hloc other hother
      · rw [List.concat_eq_append] at hd hother
        rw [List.dropLast_concat] at hother
        rw [kind_above (by rw [hd]; simp)] at hother
        cases hother
  | name hk' hl h ih =>
    cases h' with
    | name hk'' hl' h' =>
      refine ih h' hk fun other hother => ?_
      rw [hk'] at hother
      cases hother
      cases hl
    | last hf => cases hf
    | jump hk'' =>
      rw [hk'] at hk''
      cases hk''
      cases hl
  | last hf hk' =>
    cases h' with
    | name hk'' hl' =>
      rw [hk'] at hk''
      cases hk''
      cases hl'
    | last hf' => cases hf'
    | jump hk'' hf' hne h' =>
      rw [hk] at hk''
      cases hk''
      rw [List.append_nil] at h'
      exact ⟨hne, _, by rwa [List.dropLast_concat]⟩
  | @jump links loc place rest name other hk' hf hne h ih =>
    cases h' with
    | name hk'' hl' =>
      rw [hk'] at hk''
      cases hk''
      cases hl'
    | last hf' => cases hf'
    | jump hk'' hf' hne' h' =>
      rw [hk'] at hk''
      cases hk''
      refine ih h' hk fun other hother => ?_
      have hd : tree.kind loc = some .dir := kind_above (Option.ne_none_iff_exists'.2 ⟨_, hk'⟩)
      unfold start at hother
      split_ifs at hother
      · cases hother
      · rw [hd] at hother
        cases hother

theorem Leads.start_kind (h : Leads tree follow links loc steps place) (hs : steps ≠ []) :
    tree.kind loc = some .dir := by
  cases h with
  | nil => exact absurd rfl hs
  | stay hd h => exact hd
  | up hd h => exact hd
  | name hk hl h => exact kind_above (Option.ne_none_iff_exists'.2 ⟨_, hk⟩)
  | last hf hk => exact kind_above (Option.ne_none_iff_exists'.2 ⟨_, hk⟩)
  | jump hk hf hne h => exact kind_above (Option.ne_none_iff_exists'.2 ⟨_, hk⟩)

theorem resolve_within (hw : tree.Within tree')
    (h : tree.resolve follow links loc path = some place) :
    tree'.resolve follow links loc path = some place := by
  obtain ⟨hne, hl⟩ := resolve_iff.1 h
  exact resolve_iff.2 ⟨hne, hl.within hw⟩

theorem kind_of_resolve (h : tree.resolve follow links loc path = some place) :
    tree.kind place ≠ none := by
  obtain ⟨hne, hl⟩ := resolve_iff.1 h
  refine hl.kind_ne ?_
  by_cases hs : path.steps = []
  · have ha : path.absolute = true := by simpa [FilePath.isEmpty, hs] using hne
    simp [start, ha]
  · simp [hl.start_kind hs]

theorem resolve_step {kind : FileKind α β} (h : tree.resolve true links loc path = some place)
    (hk : tree.kind (place ++ [name]) = some kind) (hf : follow = false ∨ kind.isLink = false) :
    tree.resolve follow links loc (path.step (.name name)) = some (place ++ [name]) := by
  obtain ⟨hne, hl⟩ := resolve_iff.1 h
  exact resolve_iff.2 ⟨FilePath.isEmpty_append hne, hl.concat hk hf⟩

theorem resolve_init (hne : path.isEmpty = false)
    (h : tree.resolve follow links loc (path.step (.name name)) = some place) :
    ∃ dir, tree.resolve true links loc path = some dir ∧ tree.kind dir = some .dir := by
  obtain ⟨-, hl⟩ := resolve_iff.1 h
  obtain ⟨dir, hl, hk, -⟩ := hl.init
  exact ⟨dir, resolve_iff.2 ⟨hne, hl⟩, hk⟩

theorem resolve_unfollowed (h : tree.resolve true links loc path = some place) :
    ∃ place', tree.resolve false links loc path = some place' := by
  obtain ⟨hne, hl⟩ := resolve_iff.1 h
  obtain ⟨place', hl'⟩ := hl.unfollowed
  exact ⟨place', resolve_iff.2 ⟨hne, hl'⟩⟩

theorem resolve_followed {kind : FileKind α β}
    (h : tree.resolve false links loc path = some place) (hk : tree.kind place = some kind)
    (hl : kind.isLink = false) : tree.resolve true links loc path = some place := by
  obtain ⟨hne, h'⟩ := resolve_iff.1 h
  exact resolve_iff.2 ⟨hne, h'.followed hk hl⟩

/-- A path whose place has been taken away leads nowhere. -/
theorem resolve_none_of_kind (hw : tree'.Within tree)
    (h : tree.resolve follow links loc path = some place) (hk : tree'.kind place = none) :
    tree'.resolve follow links loc path = none := by
  cases h' : tree'.resolve follow links loc path with
  | none => rfl
  | some place' =>
    have heq := resolve_within hw h'
    rw [h, Option.some.injEq] at heq
    exact absurd (heq ▸ hk) (kind_of_resolve h')

end

end FileTree
