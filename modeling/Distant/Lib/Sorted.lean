import Mathlib.Data.List.Destutter
import Mathlib.Data.List.Sort

/-!
# Sorting, and dropping what is there already

In a sorted list all that are equal are neighbours, so that one pass over it leaves one of each.
-/

namespace List

section Neighbours

variable {α : Type} [DecidableEq α] {a b : α} {l : List α}

/-- Of neighbours that are equal, the first stays. -/
def dropRepeated (l : List α) : List α := l.destutter (· ≠ ·)

theorem dropRepeated_cons_cons : (a :: b :: l).dropRepeated =
    if a = b then (b :: l).dropRepeated else a :: (b :: l).dropRepeated := by
  rw [dropRepeated, destutter_cons_cons, dropRepeated, destutter_cons']
  by_cases hab : a = b
  · subst hab
    rw [if_neg (not_not.mpr rfl), if_pos rfl]
  · rw [if_pos hab, if_neg hab]

theorem mem_destutter'_ne : b ∈ l.destutter' (· ≠ ·) a ↔ b = a ∨ b ∈ l := by
  induction l generalizing a with
  | nil => simp
  | cons c l ih =>
      rw [destutter'_cons]
      by_cases hac : a = c
      · subst hac
        rw [if_neg (not_not.mpr rfl), ih]
        simp
      · rw [if_pos hac, mem_cons, mem_cons, ih]

theorem mem_dropRepeated : b ∈ l.dropRepeated ↔ b ∈ l := by
  cases l with
  | nil => rfl
  | cons a l => rw [dropRepeated, destutter_cons', mem_destutter'_ne, mem_cons]

theorem nodup_dropRepeated [PartialOrder α] (h : l.Pairwise (· ≤ ·)) : l.dropRepeated.Nodup := by
  have hle : l.dropRepeated.Pairwise (· ≤ ·) := h.sublist (destutter_sublist _ l)
  have hne : l.dropRepeated.IsChain (· ≠ ·) := isChain_destutter _ l
  have hlt : l.dropRepeated.IsChain (· < ·) := by
    rw [isChain_iff_getElem] at hne ⊢
    exact fun i hi => lt_of_le_of_ne (isChain_iff_getElem.mp hle.isChain i hi) (hne i hi)
  exact hlt.pairwise.imp ne_of_lt

end Neighbours

variable {α : Type} [LinearOrder α] {a : α} {l : List α}

/-- `sort_unstable` and `dedup` -/
def sortDedup (l : List α) : List α := (l.mergeSort (· ≤ ·)).dropRepeated

@[simp]
theorem mem_sortDedup : a ∈ l.sortDedup ↔ a ∈ l := by
  rw [sortDedup, mem_dropRepeated, mem_mergeSort]

theorem sortDedup_eq_nil : l.sortDedup = [] ↔ l = [] := by
  simp only [eq_nil_iff_forall_not_mem, mem_sortDedup]

theorem nodup_sortDedup (l : List α) : l.sortDedup.Nodup :=
  nodup_dropRepeated (pairwise_mergeSort' _ l)

end List
