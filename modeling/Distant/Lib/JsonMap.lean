import Distant.Lib.Json

/-!
# JSON maps in the order of their keys

A map of `serde_json` has its keys in order, each of them once, which is `JsonMap.Sorted`. Putting
an entry in and taking one out keep that, and up to the order of the entries they do what they say
(`insert_perm`, `removeEntry_perm`). There is only one such map with given entries
(`Sorted.eq_of_perm`).

`Value.Every` says something about each text and about each map of a value, however deep it is.
-/

namespace Distant

namespace JsonMap

variable {ν : Type} {obj obj' rest : JsonMap ν} {key k : String} {value : Value ν}

/-- The keys are in order, each of them there once. -/
def Sorted (obj : JsonMap ν) : Prop := (obj.map Prod.fst).Pairwise (· < ·)

theorem Sorted.nodup (h : obj.Sorted) : (obj.map Prod.fst).Nodup := by
  apply List.Pairwise.imp _ h
  intro a b hlt heq
  subst heq
  exact String.lt_irrefl a hlt

theorem Sorted.sublist (h : obj.Sorted) (hsub : rest.Sublist obj) : Sorted rest :=
  List.Pairwise.sublist (hsub.map Prod.fst) h

/-- Entries are put in order in one way only. -/
theorem Sorted.eq_of_perm (h : obj.Sorted) (h' : obj'.Sorted) (hperm : obj.Perm obj') :
    obj = obj' := by
  have hlt : obj.Pairwise fun a b => a.1 < b.1 := List.pairwise_map.mp h
  have hlt' : obj'.Pairwise fun a b => a.1 < b.1 := List.pairwise_map.mp h'
  apply List.Perm.eq_of_pairwise _ hlt hlt' hperm
  intro a b _ _ hab hba
  exact absurd (String.lt_trans hab hba) (String.lt_irrefl _)

/-! ## Changing entries -/

theorem keys_map (r : String → String) (f : Value ν → Value ν) (obj : JsonMap ν) :
    (obj.map fun e => (r e.1, f e.2)).map Prod.fst = (obj.map Prod.fst).map r := by
  rw [List.map_map, List.map_map]
  rfl

theorem keys_map_values (f : Value ν → Value ν) (obj : JsonMap ν) :
    (obj.map fun e => (e.1, f e.2)).map Prod.fst = obj.map Prod.fst := by
  rw [List.map_map]
  rfl

theorem Sorted.map_values (h : obj.Sorted) (f : Value ν → Value ν) :
    JsonMap.Sorted (obj.map fun e => (e.1, f e.2)) := by
  rw [Sorted, keys_map_values]
  exact h

/-! ## Putting an entry in -/

theorem insert_cons (key : String) (value : Value ν) (entry : String × Value ν) (rest : JsonMap ν) :
    insert key value (entry :: rest) =
      if key < entry.1 then (key, value) :: entry :: rest
      else if key = entry.1 then (entry.1, value) :: rest
      else entry :: insert key value rest := rfl

theorem mem_keys_insert :
    k ∈ (insert key value obj).map Prod.fst ↔ k = key ∨ k ∈ obj.map Prod.fst := by
  induction obj with
  | nil => simp [insert]
  | cons entry rest ih =>
      obtain ⟨k', v'⟩ := entry
      rw [insert_cons]
      split
      · simp
      · split
        · next heq => simp [heq]
        · rw [List.map_cons, List.mem_cons, ih, List.map_cons, List.mem_cons]
          exact or_left_comm

theorem Sorted.insert (h : obj.Sorted) : (insert key value obj).Sorted := by
  induction obj with
  | nil => exact List.pairwise_singleton _ _
  | cons entry rest ih =>
      obtain ⟨k', v'⟩ := entry
      obtain ⟨hfirst, hrest⟩ := List.pairwise_cons.mp h
      rw [insert_cons]
      split
      · next hlt =>
          -- the new entry stands before the first one, and so before all
          refine List.pairwise_cons.mpr ⟨?_, h⟩
          intro b hb
          rcases List.mem_cons.mp hb with rfl | hb
          · exact hlt
          · exact String.lt_trans hlt (hfirst b hb)
      · split
        · exact h
        · next hnot hne =>
            -- it stands somewhere behind the first one
            have hgt : k' < key := by
              have hle : k' ≤ key := String.not_lt.mp hnot
              exact Std.lt_of_le_of_ne hle fun heq => hne heq.symm
            refine List.pairwise_cons.mpr ⟨?_, ih hrest⟩
            intro b hb
            rcases mem_keys_insert.mp hb with rfl | hb
            · exact hgt
            · exact hfirst b hb

theorem insert_perm (h : key ∉ obj.map Prod.fst) :
    (insert key value obj).Perm ((key, value) :: obj) := by
  induction obj with
  | nil => rfl
  | cons entry rest ih =>
      obtain ⟨k', v'⟩ := entry
      rw [List.map_cons, List.mem_cons, not_or] at h
      rw [insert_cons]
      split
      · rfl
      · rw [if_neg h.1]
        exact ((ih h.2).cons _).trans (List.Perm.swap _ _ _)

/-! ## Taking an entry out -/

theorem removeEntry_perm (h : k ∈ obj.map Prod.fst) :
    ∃ value rest, removeEntry k obj = some ((k, value), rest) ∧ obj.Perm ((k, value) :: rest) ∧
      rest.Sublist obj := by
  induction obj with
  | nil => cases h
  | cons entry rest ih =>
      obtain ⟨k', v'⟩ := entry
      unfold removeEntry
      split
      · next heq =>
          subst heq
          exact ⟨v', rest, rfl, List.Perm.refl _, List.sublist_cons_self _ _⟩
      · next hne =>
          have hrest : k ∈ rest.map Prod.fst := by
            rw [List.map_cons, List.mem_cons] at h
            exact h.resolve_left fun heq => hne heq.symm
          obtain ⟨value, left, hremove, hperm, hsub⟩ := ih hrest
          refine ⟨value, (k', v') :: left, by rw [hremove]; rfl, ?_, hsub.cons_cons _⟩
          exact (hperm.cons _).trans (List.Perm.swap _ _ _)

theorem removeEntry_of_not_mem (h : k ∉ obj.map Prod.fst) : removeEntry k obj = none := by
  induction obj with
  | nil => rfl
  | cons entry rest ih =>
      obtain ⟨k', v'⟩ := entry
      rw [List.map_cons, List.mem_cons, not_or] at h
      rw [removeEntry, if_neg fun heq => h.1 heq.symm, ih h.2]
      rfl

/-- Two lists with the same keys in the same order, each of them once, that have the same
entries. -/
theorem eq_of_perm_of_keys (hkeys : obj.map Prod.fst = obj'.map Prod.fst)
    (hnodup : (obj.map Prod.fst).Nodup) (hperm : obj.Perm obj') : obj = obj' := by
  induction obj generalizing obj' with
  | nil => exact hperm.nil_eq
  | cons entry rest ih =>
      cases obj' with
      | nil => exact hperm.eq_nil
      | cons entry' rest' =>
          rw [List.map_cons, List.map_cons, List.cons.injEq] at hkeys
          rw [List.map_cons, List.nodup_cons] at hnodup
          have hmem : entry ∈ entry' :: rest' := hperm.subset List.mem_cons_self
          have heq : entry = entry' := by
            apply (List.mem_cons.mp hmem).resolve_right
            intro hin
            apply hnodup.1
            rw [hkeys.2]
            exact List.mem_map_of_mem hin
          subst heq
          rw [ih hkeys.2 hnodup.2 ((List.perm_cons _).mp hperm)]

/-- Entries in the order of their keys. -/
def inKeyOrder (entries : List (String × Value ν)) : JsonMap ν :=
  entries.mergeSort fun a b => a.1 ≤ b.1

theorem inKeyOrder_perm (entries : List (String × Value ν)) : (inKeyOrder entries).Perm entries :=
  List.mergeSort_perm _ _

/-- Entries whose keys are different make a map. -/
theorem sorted_inKeyOrder {entries : List (String × Value ν)}
    (h : (entries.map Prod.fst).Nodup) : (inKeyOrder entries).Sorted := by
  have hle : (inKeyOrder entries).Pairwise fun a b => decide (a.1 ≤ b.1) = true := by
    apply List.pairwise_mergeSort
    · intro a b c hab hbc
      rw [decide_eq_true_eq] at hab hbc ⊢
      exact String.le_trans hab hbc
    · intro a b
      simpa using String.le_total a.1 b.1
  have hne : ((inKeyOrder entries).map Prod.fst).Nodup :=
    (((inKeyOrder_perm entries).map Prod.fst).nodup_iff).mpr h
  rw [Sorted, List.pairwise_map]
  apply (hle.and (List.pairwise_map.mp hne)).imp
  rintro a b ⟨hab, hne⟩
  exact Std.lt_of_le_of_ne (of_decide_eq_true hab) hne

theorem Sorted.eq_inKeyOrder (h : obj.Sorted) {entries : List (String × Value ν)}
    (hperm : obj.Perm entries) : obj = inKeyOrder entries := by
  have hnodup : (entries.map Prod.fst).Nodup := ((hperm.map Prod.fst).nodup_iff).mp h.nodup
  exact h.eq_of_perm (sorted_inKeyOrder hnodup) (hperm.trans (inKeyOrder_perm entries).symm)

end JsonMap

/-! ## All texts and all maps of a value -/

variable {ν : Type} {P P' : String → Prop} {Q Q' : JsonMap ν → Prop}

/-- What holds of a value if it holds of the items and of the values of the entries in it. -/
@[elab_as_elim] theorem Value.induct {motive : Value ν → Prop} (null : motive .null)
    (bool : ∀ b, motive (.bool b)) (number : ∀ n, motive (.number n))
    (string : ∀ s, motive (.string s))
    (array : ∀ items, (∀ item ∈ items, motive item) → motive (.array items))
    (object : ∀ obj, (∀ entry ∈ obj, motive entry.2) → motive (.object obj)) (v : Value ν) :
    motive v :=
  @Value.rec ν motive (fun items => ∀ item ∈ items, motive item)
    (fun obj => ∀ entry ∈ obj, motive entry.2) (fun entry => motive entry.2)
    null bool number string array object
    (fun _ h => by cases h) (fun _ _ hitem hitems => List.forall_mem_cons.mpr ⟨hitem, hitems⟩)
    (fun _ h => by cases h) (fun _ _ hentry hobj => List.forall_mem_cons.mpr ⟨hentry, hobj⟩)
    (fun _ _ hvalue => hvalue) v

mutual

/-- `P` holds of each text that is a value, and `Q` of each map. -/
def Value.Every (P : String → Prop) (Q : JsonMap ν → Prop) : Value ν → Prop
  | .object obj => Q obj ∧ EveryEntry P Q obj
  | .array items => EveryItem P Q items
  | .string s => P s
  | .null => True
  | .bool _ => True
  | .number _ => True

def EveryItem (P : String → Prop) (Q : JsonMap ν → Prop) : List (Value ν) → Prop
  | [] => True
  | item :: items => item.Every P Q ∧ EveryItem P Q items

def EveryEntry (P : String → Prop) (Q : JsonMap ν → Prop) : List (String × Value ν) → Prop
  | [] => True
  | (_, value) :: entries => value.Every P Q ∧ EveryEntry P Q entries

end

/-- The same of a map itself. -/
def JsonMap.Every (P : String → Prop) (Q : JsonMap ν → Prop) (obj : JsonMap ν) : Prop :=
  Q obj ∧ EveryEntry P Q obj

theorem everyItem_iff {items : List (Value ν)} :
    EveryItem P Q items ↔ ∀ item ∈ items, item.Every P Q := by
  induction items with
  | nil => simp [EveryItem]
  | cons item items ih => rw [EveryItem, ih, List.forall_mem_cons]

theorem everyEntry_iff {obj : JsonMap ν} :
    EveryEntry P Q obj ↔ ∀ entry ∈ obj, entry.2.Every P Q := by
  induction obj with
  | nil => simp [EveryEntry]
  | cons entry obj ih => rw [EveryEntry, ih, List.forall_mem_cons]

end Distant
