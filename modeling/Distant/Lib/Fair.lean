import Mathlib.Data.Nat.Find
import Mathlib.Order.WellFounded
import Distant.Lib.Machine

/-!
# Fair runs

A run that goes on for ever, in which new events may come at any time. Each event is the turn of an
agent, or of nobody. In a fair run an agent that could have its turn from some time on has it at
some time. `FairRun.eventually` is the rule for what comes about in all fair runs: as long as it has
not, there is an agent that can have its turn and that nobody else disturbs, and its turn lowers a
rank.
-/

namespace Distant.Machine

variable {S : Type u} {E : Type v} {K : Type w} (step : S → E → Option S) (turn : E → Option K)

/-- The agent can have a turn. -/
def CanTurn (k : K) (s : S) : Prop := ∃ e s', turn e = some k ∧ step s e = some s'

/-- A run without an end, in which nothing may happen for a while. -/
structure FairRun where
  state : Nat → S
  event : Nat → Option E
  step_some : ∀ n e, event n = some e → step (state n) e = some (state (n + 1))
  step_none : ∀ n, event n = none → state (n + 1) = state n
  fair : ∀ n k, (∀ m, n ≤ m → CanTurn step turn k (state m)) →
    ∃ m e, n ≤ m ∧ event m = some e ∧ turn e = some k

namespace FairRun

variable {step turn} {α : Type*} {I P : S → Prop} {C : S → E → Prop} {r : α → α → Prop}
  {rank : S → α} {helper : S → K}

/-- The steps of the run meet a condition. -/
def Meets (run : FairRun step turn) (C : S → E → Prop) : Prop :=
  ∀ n e, run.event n = some e → C (run.state n) e

/-- What holds at some time and is preserved by every step that meets `C` holds from then on, as long
as the steps meet it. -/
theorem invariant (run : FairRun step turn)
    (hstep : ∀ s e s', I s → C s e → step s e = some s' → I s') {n : Nat} (hn : I (run.state n))
    (d : Nat) (hC : ∀ m e, n ≤ m → m < n + d → run.event m = some e → C (run.state m) e) :
    I (run.state (n + d)) := by
  induction d with
  | zero => exact hn
  | succ d ih =>
      have hI := ih fun m e hm hlt => hC m e hm (Nat.lt_succ_of_lt hlt)
      cases hevent : run.event (n + d) with
      | none =>
          rw [← Nat.add_assoc, run.step_none _ hevent]
          exact hI
      | some e =>
          exact hstep _ e _ hI (hC _ e (Nat.le_add_right n d) (Nat.lt_succ_self _) hevent)
            (run.step_some _ e hevent)

/-- A run that does not meet a condition has a first step that does not. -/
theorem exists_first (run : FairRun step turn) (hnot : ¬ run.Meets C) :
    ∃ n e, run.event n = some e ∧ ¬ C (run.state n) e ∧
      ∀ m e', m < n → run.event m = some e' → C (run.state m) e' := by
  classical
  have hexists : ∃ n e, run.event n = some e ∧ ¬ C (run.state n) e := by
    by_contra hnone
    refine hnot fun n e hevent => ?_
    by_contra hC
    exact hnone ⟨n, e, hevent, hC⟩
  obtain ⟨e, hevent, hC⟩ := Nat.find_spec hexists
  refine ⟨Nat.find hexists, e, hevent, hC, fun m e' hm hevent' => ?_⟩
  by_contra hC'
  exact Nat.find_min hexists hm ⟨e', hevent', hC'⟩

/-- A step that neither leads to `P` nor lowers the rank is not the turn of the agent that can lower
it. -/
theorem kept_of_not_lt (run : FairRun step turn) (hC : run.Meets C)
    (hstep : ∀ s e s', I s → ¬ P s → C s e → step s e = some s' →
      P s' ∨ (I s' ∧ (r (rank s') (rank s) ∨
        (rank s' = rank s ∧ helper s' = helper s ∧ turn e ≠ some (helper s)))))
    {m : Nat} {e : E} (hm : I (run.state m)) (hevent : run.event m = some e)
    (hP : ¬ P (run.state m)) (hP' : ¬ P (run.state (m + 1)))
    (hlt : I (run.state (m + 1)) → ¬ r (rank (run.state (m + 1))) (rank (run.state m))) :
    I (run.state (m + 1)) ∧ rank (run.state (m + 1)) = rank (run.state m) ∧
      helper (run.state (m + 1)) = helper (run.state m) ∧
      turn e ≠ some (helper (run.state m)) := by
  have hnext := run.step_some m e hevent
  rcases hstep _ _ _ hm hP (hC m e hevent) hnext with hdone | ⟨hI, hr | hsame⟩
  · exact absurd hdone hP'
  · exact absurd hr (hlt hI)
  · exact ⟨hI, hsame⟩

/-- While the rank stays as it is, so does the agent that can lower it. -/
theorem waits_of_not_lt (run : FairRun step turn) (hC : run.Meets C)
    (hstep : ∀ s e s', I s → ¬ P s → C s e → step s e = some s' →
      P s' ∨ (I s' ∧ (r (rank s') (rank s) ∨
        (rank s' = rank s ∧ helper s' = helper s ∧ turn e ≠ some (helper s)))))
    {n : Nat} (hn : I (run.state n)) (hP : ∀ m, n ≤ m → ¬ P (run.state m))
    (hlt : ∀ m, n ≤ m → I (run.state m) → ¬ r (rank (run.state m)) (rank (run.state n))) (d : Nat) :
    I (run.state (n + d)) ∧ rank (run.state (n + d)) = rank (run.state n) ∧
      helper (run.state (n + d)) = helper (run.state n) := by
  induction d with
  | zero => exact ⟨hn, rfl, rfl⟩
  | succ d ih =>
      obtain ⟨hI, hrank, hhelper⟩ := ih
      have hle : n ≤ n + d := Nat.le_add_right n d
      cases hevent : run.event (n + d) with
      | none =>
          rw [← Nat.add_assoc, run.step_none _ hevent]
          exact ⟨hI, hrank, hhelper⟩
      | some e =>
          have hlt' (hI' : I (run.state (n + d + 1))) :
              ¬ r (rank (run.state (n + d + 1))) (rank (run.state (n + d))) := by
            rw [hrank]
            exact hlt _ (Nat.le_succ_of_le hle) hI'
          obtain ⟨hI', hrank', hhelper', -⟩ := run.kept_of_not_lt hC hstep hI hevent (hP _ hle)
            (hP _ (Nat.le_succ_of_le hle)) hlt'
          exact ⟨hI', hrank'.trans hrank, hhelper'.trans hhelper⟩

/-- The rule for what comes about in a fair run. -/
theorem eventually (run : FairRun step turn) (rank : S → α) (helper : S → K) (hC : run.Meets C)
    (hr : WellFounded r)
    (hmoves : ∀ s, I s → ¬ P s → CanTurn step turn (helper s) s)
    (hstep : ∀ s e s', I s → ¬ P s → C s e → step s e = some s' →
      P s' ∨ (I s' ∧ (r (rank s') (rank s) ∨
        (rank s' = rank s ∧ helper s' = helper s ∧ turn e ≠ some (helper s)))))
    {n : Nat} (hn : I (run.state n)) : ∃ m, n ≤ m ∧ P (run.state m) := by
  induction hrank : rank (run.state n) using hr.induction generalizing n with
  | _ x ih =>
      by_contra hnever
      have hP (m : Nat) (hm : n ≤ m) : ¬ P (run.state m) := fun h => hnever ⟨m, hm, h⟩
      have hlt (m : Nat) (hm : n ≤ m) (hI : I (run.state m)) :
          ¬ r (rank (run.state m)) (rank (run.state n)) := by
        intro hr'
        obtain ⟨m', hm', hPm'⟩ := ih _ (hrank ▸ hr') hI rfl
        exact hP m' (hm.trans hm') hPm'
      have hwaits := run.waits_of_not_lt hC hstep hn hP hlt
      -- the agent could have its turn for ever
      have hcan : ∀ m, n ≤ m → CanTurn step turn (helper (run.state n)) (run.state m) := by
        intro m hm
        obtain ⟨d, rfl⟩ := Nat.exists_eq_add_of_le hm
        have hI := hwaits d
        rw [← hI.2.2]
        exact hmoves _ hI.1 (hP _ hm)
      obtain ⟨m, e, hm, hevent, hturn⟩ := run.fair n _ hcan
      obtain ⟨d, rfl⟩ := Nat.exists_eq_add_of_le hm
      obtain ⟨hI, hrank', hhelper⟩ := hwaits d
      have hlt' (hI' : I (run.state (n + d + 1))) :
          ¬ r (rank (run.state (n + d + 1))) (rank (run.state (n + d))) := by
        rw [hrank']
        exact hlt _ (Nat.le_succ_of_le hm) hI'
      have hother := (run.kept_of_not_lt hC hstep hI hevent (hP _ hm)
        (hP _ (Nat.le_succ_of_le hm)) hlt').2.2.2
      rw [hhelper] at hother
      exact hother hturn

/-- A run with an end after which nobody can have a turn. -/
def ofRun (es : List E) {s s' : S} (hrun : Machine.run step es s = some s')
    (hend : ∀ k, ¬ CanTurn step turn k s') : FairRun step turn where
  state n := (Machine.run step (es.take n) s).getD s'
  event n := es[n]?
  step_some := by
    intro n e he
    obtain ⟨hlt, rfl⟩ := List.getElem?_eq_some_iff.mp he
    have hall : es = es.take n ++ es[n] :: es.drop (n + 1) := by
      rw [← List.drop_eq_getElem_cons hlt, List.take_append_drop]
    rw [hall, run_append] at hrun
    obtain ⟨s₁, hs₁, hrest⟩ := Option.bind_eq_some_iff.mp hrun
    obtain ⟨s₂, hs₂, -⟩ := run_cons hrest
    have hboth : Machine.run step (es.take (n + 1)) s = some s₂ := by
      rw [List.take_succ_eq_append_getElem hlt, run_append, hs₁, Option.bind_some, Machine.run, hs₂]
      rfl
    rw [hs₁, hboth]
    exact hs₂
  step_none := by
    intro n hn
    have hle := List.getElem?_eq_none_iff.mp hn
    rw [List.take_of_length_le hle, List.take_of_length_le (Nat.le_succ_of_le hle)]
  fair := by
    intro n k hcan
    have hlast := hcan (n + es.length) (Nat.le_add_right _ _)
    rw [List.take_of_length_le (Nat.le_add_left _ _), hrun] at hlast
    exact absurd hlast (hend k)

end FairRun

end Distant.Machine
