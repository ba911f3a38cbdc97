import Mathlib.Data.DFinsupp.WellFounded
import Mathlib.Logic.Basic

/-!
# Runs of a machine

A machine takes events one after the other; an event that cannot happen in a state has no
successor. `run` is a whole run, `Meeting` says that each step of it meets a condition on the
state and the event, and `invariant` is the rule by which a fact about one step becomes a fact
about all runs.
-/

namespace Distant.Machine

variable {S : Type u} {E : Type v} (step : S → E → Option S)

/-- The state that some events lead to, if all of them can happen. -/
def run : List E → S → Option S
  | [], s => some s
  | e :: es, s =>
    match step s e with
    | none => none
    | some s' => run es s'

/-- Each step of the run meets `C`. -/
def Meeting (C : S → E → Prop) : List E → S → Prop
  | [], _ => True
  | e :: es, s => C s e ∧ ∀ s', step s e = some s' → Meeting C es s'

variable {step}

theorem run_cons {e : E} {es : List E} {s s'' : S} (h : run step (e :: es) s = some s'') :
    ∃ s', step s e = some s' ∧ run step es s' = some s'' := by
  unfold run at h
  cases hstep : step s e with
  | none => simp [hstep] at h
  | some s' => exact ⟨s', rfl, by simpa [hstep] using h⟩

theorem run_append (es es' : List E) (s : S) :
    run step (es ++ es') s = (run step es s).bind (run step es') := by
  induction es generalizing s with
  | nil => rfl
  | cons e es ih =>
      rw [List.cons_append, run, run]
      cases step s e with
      | none => rfl
      | some s' => exact ih s'

/-- What holds at the start and is preserved by every step that meets `C` holds after every run
whose steps do. -/
theorem invariant {I : S → Prop} {C : S → E → Prop}
    (hstep : ∀ s e s', I s → C s e → step s e = some s' → I s')
    {es : List E} {s s' : S} (hs : I s) (hC : Meeting step C es s)
    (hrun : run step es s = some s') : I s' := by
  induction es generalizing s with
  | nil =>
      cases hrun
      exact hs
  | cons e es ih =>
      obtain ⟨s₁, hfirst, hrest⟩ := run_cons hrun
      exact ih (hstep s e s₁ hs hC.1 hfirst) (hC.2 s₁ hfirst) hrest

/-- A fact about the events so far and the state, preserved by every step, holds after every run. -/
theorem history {I : List E → S → Prop}
    (hstep : ∀ es s e s', I es s → step s e = some s' → I (es ++ [e]) s')
    {es : List E} {s s' : S} (hs : I [] s) (hrun : run step es s = some s') : I es s' := by
  have h : ∀ (past es : List E) (s : S), I past s → run step es s = some s' → I (past ++ es) s' := by
    intro past es
    induction es generalizing past with
    | nil =>
        intro s hs hrun
        cases hrun
        rwa [List.append_nil]
    | cons e es ih =>
        intro s hs hrun
        obtain ⟨s₁, hfirst, hrest⟩ := run_cons hrun
        have hnext := ih (past ++ [e]) s₁ (hstep past s e s₁ hs hfirst) hrest
        rwa [List.append_assoc] at hnext
  exact h [] es s hs hrun

/-- A run whose first step is known meets a condition if that step and the rest do. -/
theorem Meeting.cons {C : S → E → Prop} {e : E} {es : List E} {s s' : S} (hC : C s e)
    (hstep : step s e = some s') (h : Meeting step C es s') : Meeting step C (e :: es) s := by
  refine ⟨hC, fun s'' hstep' => ?_⟩
  rw [hstep] at hstep'
  cases hstep'
  exact h

/-- A condition on the events alone is met when all of them satisfy it. -/
theorem meeting_of_mem {C : E → Prop} {es : List E} (h : ∀ e ∈ es, C e) (s : S) :
    Meeting step (fun _ e => C e) es s := by
  induction es generalizing s with
  | nil => trivial
  | cons e es ih => exact ⟨h e (by simp), fun s' _ => ih (fun e he => h e (by simp [he])) s'⟩

/-- A condition that some events always meet. -/
theorem meeting_of_always {C : S → E → Prop} {es : List E} (h : ∀ e ∈ es, ∀ s, C s e) (s : S) :
    Meeting step C es s := by
  induction es generalizing s with
  | nil => trivial
  | cons e es ih => exact ⟨h e (by simp) s, fun s' _ => ih (fun e he => h e (by simp [he])) s'⟩

/-- Whether a run meets a condition can be computed. -/
instance decidableMeeting {C : S → E → Prop} [∀ s e, Decidable (C s e)] :
    ∀ (es : List E) (s : S), Decidable (Meeting step C es s)
  | [], _ => isTrue trivial
  | e :: es, s =>
    match h : step s e with
    | none => decidable_of_iff (C s e)
        ⟨fun hC => ⟨hC, fun s' hstep => by rw [h] at hstep; cases hstep⟩, fun hmeets => hmeets.1⟩
    | some s₁ =>
      have := decidableMeeting (C := C) es s₁
      decidable_of_iff (C s e ∧ Meeting step C es s₁)
        ⟨fun hmeets => .cons hmeets.1 h hmeets.2, fun hmeets => ⟨hmeets.1, hmeets.2 s₁ h⟩⟩

theorem Meeting.mono {C C' : S → E → Prop} (hC : ∀ s e, C s e → C' s e) {es : List E} {s : S}
    (h : Meeting step C es s) : Meeting step C' es s := by
  induction es generalizing s with
  | nil => trivial
  | cons e es ih => exact ⟨hC s e h.1, fun s' hstep => ih (h.2 s' hstep)⟩

theorem Meeting.and {C C' : S → E → Prop} {es : List E} {s : S} (h : Meeting step C es s)
    (h' : Meeting step C' es s) : Meeting step (fun s e => C s e ∧ C' s e) es s := by
  induction es generalizing s with
  | nil => trivial
  | cons e es ih => exact ⟨⟨h.1, h'.1⟩, fun s' hstep => ih (h.2 s' hstep) (h'.2 s' hstep)⟩

/-- How many steps of the run are such that `C`. -/
def count (step : S → E → Option S) (C : S → E → Bool) : List E → S → Nat
  | [], _ => 0
  | e :: es, s =>
    (if C s e then 1 else 0) +
      match step s e with
      | none => 0
      | some s' => count step C es s'

/-- Where each step either lowers a rank or is a slack one, a run is no longer than its slack steps
and the rank together. -/
theorem length_le_count {I : S → Nat → Prop} {C : S → E → Prop} {slack : S → E → Bool}
    (hstep : ∀ s e s' r, I s r → C s e → step s e = some s' →
      ∃ r', I s' r' ∧ (r' < r ∨ (r' ≤ r ∧ slack s e = true)))
    {es : List E} {s s' : S} {r : Nat} (hs : I s r) (hC : Meeting step C es s)
    (hrun : run step es s = some s') : es.length ≤ count step slack es s + r := by
  induction es generalizing s r with
  | nil => exact Nat.zero_le _
  | cons e es ih =>
      obtain ⟨s₁, hfirst, hrest⟩ := run_cons hrun
      obtain ⟨r', hs₁, hr⟩ := hstep s e s₁ r hs hC.1 hfirst
      have hlen := ih hs₁ (hC.2 s₁ hfirst) hrest
      have hcount : count step slack (e :: es) s =
          (if slack s e then 1 else 0) + count step slack es s₁ := by
        rw [count, hfirst]
      rw [hcount, List.length_cons]
      rcases hr with hr | ⟨hr, hslack⟩
      · omega
      · rw [if_pos hslack]
        omega

/-- Where two conditions come to the same as long as the run goes on, a run meets both or neither.
`W` is what is known of all its steps. -/
theorem meeting_iff {I : S → Prop} {W C C' : S → E → Prop}
    (hsame : ∀ s e, I s → W s e → (C s e ↔ C' s e))
    (hkeep : ∀ s e s', I s → W s e → step s e = some s' → I s') {es : List E} {s : S}
    (hs : I s) (hW : Meeting step W es s) : Meeting step C es s ↔ Meeting step C' es s := by
  induction es generalizing s with
  | nil => exact Iff.rfl
  | cons e es ih =>
      refine and_congr (hsame s e hs hW.1) (forall_congr' fun s₁ => forall_congr' fun hfirst => ?_)
      exact ih (hkeep s e s₁ hs hW.1 hfirst) (hW.2 s₁ hfirst)

/-- Where each step of the machine is a step of a part of it or leaves that part as it is, a run is a
run of the part, too. -/
theorem run_of_part {S' : Type*} {E' : Type*} {step' : S' → E' → Option S'} (part : S → S')
    (event : E → Option E') {I : S → Prop} {C : S → E → Prop}
    (hstep : ∀ s e s', I s → C s e → step s e = some s' → I s' ∧
      (∀ e', event e = some e' → step' (part s) e' = some (part s')) ∧
      (event e = none → part s' = part s))
    {es : List E} {s s' : S} (hs : I s) (hC : Meeting step C es s) (hrun : run step es s = some s') :
    run step' (es.filterMap event) (part s) = some (part s') := by
  induction es generalizing s with
  | nil =>
      cases hrun
      rfl
  | cons e es ih =>
      obtain ⟨s₁, hfirst, hrest⟩ := run_cons hrun
      obtain ⟨hs₁, hmoves, hstays⟩ := hstep s e s₁ hs hC.1 hfirst
      have hpart := ih hs₁ (hC.2 s₁ hfirst) hrest
      cases hevent : event e with
      | none => rwa [List.filterMap_cons_none hevent, ← hstays hevent]
      | some e' =>
          rw [List.filterMap_cons_some hevent, run, hmoves e' hevent]
          exact hpart

/-- Where no step that meets `C` is impossible, a run that meets it goes to its end. -/
theorem exists_run {I : S → Prop} {C : S → E → Prop}
    (hstep : ∀ s e, I s → C s e → ∃ s', step s e = some s' ∧ I s') {es : List E} {s : S}
    (hs : I s) (hC : Meeting step C es s) : ∃ s', run step es s = some s' ∧ I s' := by
  induction es generalizing s with
  | nil => exact ⟨s, rfl, hs⟩
  | cons e es ih =>
      obtain ⟨s₁, hfirst, hs₁⟩ := hstep s e hs hC.1
      obtain ⟨s', hrun, hs'⟩ := ih hs₁ (hC.2 s₁ hfirst)
      refine ⟨s', ?_, hs'⟩
      rw [run, hfirst]
      exact hrun

/-- Two runs that meet a condition, one after the other. -/
theorem Meeting.append {C : S → E → Prop} {es es' : List E} {s s' : S} (h : Meeting step C es s)
    (hrun : run step es s = some s') (h' : Meeting step C es' s') :
    Meeting step C (es ++ es') s := by
  induction es generalizing s with
  | nil =>
      cases hrun
      exact h'
  | cons e es ih =>
      obtain ⟨s₁, hfirst, hrest⟩ := run_cons hrun
      exact .cons h.1 hfirst (ih (h.2 s₁ hfirst) hrest)

/-- Where every step that fails to meet `C` breaks `P`, and those that meet it keep an invariant that
implies `P`, a run meets `C` exactly if `P` holds all along it. -/
theorem always_iff {I P : S → Prop} {C : S → E → Prop}
    (hkeep : ∀ s e s', I s → C s e → step s e = some s' → I s') (hP : ∀ s, I s → P s)
    (hbreak : ∀ s e s', I s → ¬ C s e → step s e = some s' → ¬ P s')
    {es : List E} {s s' : S} (hs : I s) (hrun : run step es s = some s') :
    (∀ es₁ s₁, es₁ <+: es → run step es₁ s = some s₁ → P s₁) ↔ Meeting step C es s := by
  induction es generalizing s with
  | nil =>
      refine ⟨fun _ => trivial, fun _ es₁ s₁ hes₁ hrun₁ => ?_⟩
      rw [List.prefix_nil.mp hes₁] at hrun₁
      cases hrun₁
      exact hP s hs
  | cons e es ih =>
      obtain ⟨s₂, hfirst, hrest⟩ := run_cons hrun
      constructor
      · intro h
        have hC : C s e := by
          refine Classical.byContradiction fun hC => ?_
          refine hbreak s e s₂ hs hC hfirst (h [e] s₂ ⟨es, rfl⟩ ?_)
          rw [run, hfirst]
          rfl
        refine .cons hC hfirst ((ih (hkeep s e s₂ hs hC hfirst) hrest).mp ?_)
        intro es₁ s₁ hes₁ hrun₁
        refine h (e :: es₁) s₁ (List.cons_prefix_cons.mpr ⟨rfl, hes₁⟩) ?_
        rw [run, hfirst]
        exact hrun₁
      · intro hC es₁ s₁ hes₁ hrun₁
        cases es₁ with
        | nil =>
            cases hrun₁
            exact hP s hs
        | cons e₁ es₁ =>
            obtain ⟨rfl, htail⟩ := List.cons_prefix_cons.mp hes₁
            obtain ⟨s₃, hfirst', hrest'⟩ := run_cons hrun₁
            rw [hfirst] at hfirst'
            cases hfirst'
            exact (ih (hkeep s e₁ s₂ hs hC.1 hfirst) hrest).mpr (hC.2 s₂ hfirst) es₁ s₁ htail hrest'

/-- Where a step that fails to meet `C` does a damage that no step makes good, a run that ends
without the damage has met `C` all along. `W` is what is known of all its steps. -/
theorem kept_or_broken {I D : S → Prop} {W C : S → E → Prop}
    (hkeep : ∀ s e s', I s → W s e → C s e → step s e = some s' → I s')
    (hbreak : ∀ s e s', I s → W s e → ¬ C s e → step s e = some s' → D s')
    (hstays : ∀ s e s', D s → W s e → step s e = some s' → D s')
    {es : List E} {s s' : S} (hs : I s) (hW : Meeting step W es s) (hrun : run step es s = some s') :
    (Meeting step C es s ∧ I s') ∨ (¬ Meeting step C es s ∧ D s') := by
  induction es generalizing s with
  | nil =>
      cases hrun
      exact .inl ⟨trivial, hs⟩
  | cons e es ih =>
      obtain ⟨s₁, hfirst, hrest⟩ := run_cons hrun
      have hW₁ := hW.2 s₁ hfirst
      by_cases hC : C s e
      · rcases ih (hkeep s e s₁ hs hW.1 hC hfirst) hW₁ hrest with ⟨hmeets, h⟩ | ⟨hmeets, h⟩
        · exact .inl ⟨.cons hC hfirst hmeets, h⟩
        · exact .inr ⟨fun h' => hmeets (h'.2 s₁ hfirst), h⟩
      · refine .inr ⟨fun h' => hC h'.1, ?_⟩
        exact invariant hstays (hbreak s e s₁ hs hW.1 hC hfirst) hW₁ hrest

variable (step) in
/-- Some of the events, those that satisfy `Own`, lead from one state to the other. -/
def Reaches (Own : E → Prop) (s s' : S) : Prop :=
  ∃ es, (∀ e ∈ es, Own e) ∧ run step es s = some s'

section Reaches

variable {Own : E → Prop} {s s₁ s' : S} {e : E}

theorem Reaches.refl : Reaches step Own s s := ⟨[], fun _ h => (by cases h), rfl⟩

theorem Reaches.head (hstep : step s e = some s₁) (howned : Own e) (h : Reaches step Own s₁ s') :
    Reaches step Own s s' := by
  obtain ⟨es, hes, hrun⟩ := h
  refine ⟨e :: es, fun e' he' => ?_, ?_⟩
  · rcases List.mem_cons.mp he' with rfl | he'
    · exact howned
    · exact hes e' he'
  · rw [run, hstep]
    exact hrun

theorem Reaches.trans (h : Reaches step Own s s₁) (h' : Reaches step Own s₁ s') :
    Reaches step Own s s' := by
  obtain ⟨es, hes, hrun⟩ := h
  induction es generalizing s with
  | nil =>
      cases hrun
      exact h'
  | cons e es ih =>
      obtain ⟨s₂, hfirst, hrest⟩ := run_cons hrun
      exact .head hfirst (hes e List.mem_cons_self)
        (ih (fun e' he' => hes e' (List.mem_cons_of_mem _ he')) hrest)

theorem Reaches.invariant {I : S → Prop}
    (hstep : ∀ s e s', I s → Own e → step s e = some s' → I s') (h : Reaches step Own s s')
    (hs : I s) : I s' := by
  obtain ⟨es, hes, hrun⟩ := h
  exact Machine.invariant hstep hs (meeting_of_mem hes s) hrun

/-- Where none of the events can happen, they lead nowhere. -/
theorem Reaches.eq_of_stuck (h : Reaches step Own s s') (hstuck : ∀ e, Own e → step s e = none) :
    s' = s := by
  obtain ⟨es, hes, hrun⟩ := h
  cases es with
  | nil =>
      cases hrun
      rfl
  | cons e es =>
      obtain ⟨s₁, hfirst, -⟩ := run_cons hrun
      rw [hstuck e (hes e List.mem_cons_self)] at hfirst
      cases hfirst

end Reaches

variable (step) in
/-- Whichever of its own events happen, and in whatever order, `P` holds after finitely many: as long
as it does not, one of them can happen. -/
inductive Inevitable (Own : E → Prop) (P : S → Prop) : S → Prop where
  | now {s : S} (h : P s) : Inevitable Own P s
  | later {s : S} (hmoves : ∃ e s', Own e ∧ step s e = some s')
      (hall : ∀ e s', Own e → step s e = some s' → Inevitable Own P s') : Inevitable Own P s

section Inevitable

variable {Own : E → Prop} {I P : S → Prop} {s : S}

/-- The rule for what is inevitable where the steps go down in an order without infinite descents. -/
theorem inevitable_of_wellFounded {M : Type*} {r : M → M → Prop} (hr : WellFounded r) (m : S → M)
    (hmoves : ∀ s, I s → ¬ P s → ∃ e s', Own e ∧ step s e = some s')
    (hfalls : ∀ s e s', I s → ¬ P s → Own e → step s e = some s' → I s' ∧ r (m s') (m s))
    (hs : I s) : Inevitable step Own P s := by
  generalize hm : m s = x
  induction hr.apply x generalizing s with
  | intro x _ ih =>
      by_cases hP : P s
      · exact .now hP
      · refine .later (hmoves s hs hP) fun e s' howned hstep => ?_
        obtain ⟨hs', hlt⟩ := hfalls s e s' hs hP howned hstep
        exact ih (m s') (hm ▸ hlt) hs' rfl

/-- The rule for what is inevitable where each step is one of finitely many parts, and goes down in
the order of that part. -/
theorem inevitable_of_parts {ι M : Type*} [Finite ι] {r : M → M → Prop} (hr : WellFounded r)
    (m : S → ι → M) (hmoves : ∀ s, I s → ¬ P s → ∃ e s', Own e ∧ step s e = some s')
    (hfalls : ∀ s e s', I s → ¬ P s → Own e → step s e = some s' →
      I s' ∧ ∃ i, r (m s' i) (m s i) ∧ ∀ j, j ≠ i → m s' j = m s j)
    (hs : I s) : Inevitable step Own P s := by
  refine inevitable_of_wellFounded
    (Pi.Lex.wellFounded (WellOrderingRel (α := ι)) fun _ => hr) m hmoves ?_ hs
  intro s e s' hs hP howned hstep
  obtain ⟨hs', i, hlt, hothers⟩ := hfalls s e s' hs hP howned hstep
  refine ⟨hs', i, fun j hj => hothers j ?_, hlt⟩
  rintro rfl
  exact irrefl j hj

/-- The rule for what is inevitable where the rank depends on the past: there is a next step, and each
but the last has a lower rank behind it. -/
theorem inevitable_of_ranked {I : S → Nat → Prop}
    (hmoves : ∀ s n, I s n → ¬ P s → ∃ e s', Own e ∧ step s e = some s')
    (hfalls : ∀ s n e s', I s n → ¬ P s → Own e → step s e = some s' → P s' ∨ ∃ m < n, I s' m)
    {n : Nat} (hs : I s n) : Inevitable step Own P s := by
  induction n using Nat.strongRecOn generalizing s with
  | ind n ih =>
      by_cases hP : P s
      · exact .now hP
      · refine .later (hmoves s n hs hP) fun e s' howned hstep => ?_
        rcases hfalls s n e s' hs hP howned hstep with hP' | ⟨m, hlt, hs'⟩
        · exact .now hP'
        · exact ih m hlt hs'

/-- The rule for what is inevitable: there is a next step, and a rank that falls with each but the
last. -/
theorem inevitable_of_rank (rank : S → Nat)
    (hmoves : ∀ s, I s → ¬ P s → ∃ e s', Own e ∧ step s e = some s')
    (hfalls : ∀ s e s', I s → ¬ P s → Own e → step s e = some s' →
      P s' ∨ (I s' ∧ rank s' < rank s))
    (hs : I s) : Inevitable step Own P s := by
  refine inevitable_of_ranked (I := fun s n => I s ∧ rank s = n)
    (fun s _ hI hP => hmoves s hI.1 hP) ?_ ⟨hs, rfl⟩
  rintro s _ e s' ⟨hI, rfl⟩ hP howned hstep
  rcases hfalls s e s' hI hP howned hstep with hP' | ⟨hI', hlt⟩
  · exact .inl hP'
  · exact .inr ⟨rank s', hlt, hI', rfl⟩

/-- What an invariant excludes is not inevitable, whether the machine gets stuck or goes on for
ever. -/
theorem not_inevitable (hP : ∀ s, I s → ¬ P s)
    (hstays : ∀ s e s', I s → Own e → step s e = some s' → I s') (hs : I s) :
    ¬ Inevitable step Own P s := by
  intro h
  induction h with
  | now h => exact hP _ hs h
  | later hmoves hall ih =>
      obtain ⟨e, s', howned, hstep⟩ := hmoves
      exact ih e s' howned hstep (hstays _ e s' hs howned hstep)

/-- Nor is what some steps can keep off. -/
theorem not_inevitable_of_moves (hP : ∀ s, I s → ¬ P s)
    (hmoves : ∀ s, I s → ∃ e s', Own e ∧ step s e = some s' ∧ I s') (hs : I s) :
    ¬ Inevitable step Own P s := by
  intro h
  induction h with
  | now h => exact hP _ hs h
  | later _ hall ih =>
      obtain ⟨e, s', howned, hstep, hs'⟩ := hmoves _ hs
      exact ih e s' howned hstep hs'

/-- With what is inevitable, so is what follows from it. -/
theorem Inevitable.mono {Q : S → Prop} (h : Inevitable step Own P s) (hPQ : ∀ s, P s → Q s) :
    Inevitable step Own Q s := by
  induction h with
  | now h => exact .now (hPQ _ h)
  | later hmoves _ ih => exact .later hmoves ih

/-- What is inevitable happens in some run. -/
theorem Inevitable.exists_run (h : Inevitable step Own P s) :
    ∃ s', Reaches step Own s s' ∧ P s' := by
  induction h with
  | @now s h => exact ⟨s, .refl, h⟩
  | later hmoves hall ih =>
      obtain ⟨e, s', howned, hstep⟩ := hmoves
      obtain ⟨s'', hreaches, hP⟩ := ih e s' howned hstep
      exact ⟨s'', .head hstep howned hreaches, hP⟩

end Inevitable

end Distant.Machine
