import Mathlib.Algebra.BigOperators.Group.List.Basic
import Mathlib.Algebra.GroupWithZero.Nat
import Mathlib.Algebra.Order.BigOperators.Group.List
import Mathlib.Algebra.Order.Group.Nat
import Mathlib.Data.Set.Finite.Basic
import Mathlib.Logic.Relation
import Mathlib.Order.WellFounded
import Mathlib.Order.RelClasses
import Mathlib.Data.Fintype.Card

/-!
# Worklists

A worklist that does not remember what it has dealt with comes to an end where nothing leads back to
itself: each item then weighs more than all that it adds to the list (`exists_weight`). Where there
are finitely many items, the absence of loops is enough (`acc_of_no_loop`).
-/

namespace Distant.Worklist

variable {α : Type*}

/-- In a finite set that is closed under the relation, what is on no loop is followed by chains that
end. -/
theorem acc_of_no_loop {r : α → α → Prop} {s : Set α} (hfinite : s.Finite)
    (hclosed : ∀ a ∈ s, ∀ b, r a b → b ∈ s) (hloop : ∀ a ∈ s, ¬ Relation.TransGen r a a) {a : α}
    (ha : a ∈ s) : Acc (fun b a => r a b) a := by
  have := hfinite.to_subtype
  -- the chains within the set
  let within : s → s → Prop := fun b a => Relation.TransGen r a.1 b.1
  have : IsTrans s within := ⟨fun _ _ _ hab hbc => hbc.trans hab⟩
  have : Std.Irrefl within := ⟨fun a => hloop a.1 a.2⟩
  have hwf : WellFounded within := Finite.wellFounded_of_trans_of_irrefl within
  suffices h : ∀ a : s, Acc (fun b a => r a b) a.1 from h ⟨a, ha⟩
  intro a
  induction hwf.apply a with
  | intro a _ ih => exact .intro _ fun b hb => ih ⟨b, hclosed a.1 a.2 b hb⟩ (.single hb)

section

variable (next : α → List α)

/-- The item itself and all that it leads to, as often as it does. -/
noncomputable def weightOf {a : α} (h : Acc (fun b a => b ∈ next a) a) : Nat :=
  h.rec fun a _ ih => ((next a).attach.map fun b => ih b.1 b.2).sum + 1

theorem exists_weight :
    ∃ weight : α → Nat, ∀ a, Acc (fun b a => b ∈ next a) a →
      ((next a).map weight).sum < weight a := by
  classical
  refine ⟨fun a => if h : Acc (fun b a => b ∈ next a) a then weightOf next h else 0, ?_⟩
  intro a ha
  have hweight : weightOf next ha =
      ((next a).attach.map fun b => weightOf next (ha.inv b.2)).sum + 1 := by
    cases ha
    rfl
  have hmap : (next a).map (fun b => if h : Acc (fun b a => b ∈ next a) b then weightOf next h else 0) =
      (next a).attach.map fun b => weightOf next (ha.inv b.2) := by
    conv_lhs => rw [← List.attach_map_subtype_val (next a), List.map_map]
    exact List.map_congr_left fun b _ => dif_pos (ha.inv b.2)
  simp only [dif_pos ha, hweight, hmap]
  exact Nat.lt_succ_self _

end

end Distant.Worklist
