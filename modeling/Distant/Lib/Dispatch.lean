import Distant.Lib.Machine

/-!
# Items handed to workers by independent tasks

A reader takes items off a line one after the other and starts a task for each. Every task puts its
item into the queue of the worker that it is routed to, whenever it gets to run, and the workers
take from their queues in order.

The line and the queues keep the order; the tasks do not. `straight_send` has the condition under
which the items of one kind still arrive as they were fired: a task does not run before an older
one of the same kind.
-/

namespace Distant

/-- Items of type `M` on their way to workers of type `A`. -/
structure Dispatch (M A : Type) where
  /-- all items that were ever put on the line -/
  fired : List M
  wire : List M
  /-- the items of the tasks that have yet to run, oldest first -/
  tasks : List M
  queue : A → List M
  /-- all items that a worker has taken -/
  taken : A → List M

namespace Dispatch

variable {M A : Type}

def new : Dispatch M A := ⟨[], [], [], fun _ => [], fun _ => []⟩

def fire (d : Dispatch M A) (m : M) : Dispatch M A :=
  { d with fired := d.fired ++ [m], wire := d.wire ++ [m] }

/-- The reader takes an item off the line and starts a task for it. -/
def read (d : Dispatch M A) : Option (Dispatch M A) :=
  match d.wire with
  | [] => none
  | m :: wire => some { d with wire := wire, tasks := d.tasks ++ [m] }

section

variable [DecidableEq A] (route : M → A)

/-- A task puts its item into a queue that has room for it. -/
def send (d : Dispatch M A) (capacity i : Nat) : Option (Dispatch M A) :=
  match d.tasks[i]? with
  | none => none
  | some m =>
    if (d.queue (route m)).length < capacity then
      some { d with
        tasks := d.tasks.eraseIdx i
        queue := fun a => if a = route m then d.queue a ++ [m] else d.queue a }
    else none

/-- A worker takes the first item of its queue. -/
def take (d : Dispatch M A) (a : A) : Option (M × Dispatch M A) :=
  match d.queue a with
  | [] => none
  | m :: queue =>
    some (m, { d with
      queue := fun a' => if a' = a then queue else d.queue a'
      taken := fun a' => if a' = a then d.taken a' ++ [m] else d.taken a' })

end

/-- All items that a worker has taken or will take, as they are lined up now. -/
def line (d : Dispatch M A) (a : A) : List M := d.taken a ++ d.queue a ++ d.tasks ++ d.wire

/-- The items of a kind are lined up for the worker `a` as they were fired. -/
def Straight (d : Dispatch M A) (kind : M → Bool) (a : A) : Prop :=
  (d.line a).filter kind = d.fired.filter kind

variable {kind : M → Bool} {a : A} {d d' : Dispatch M A}

/-! ## What a step leaves alone -/

theorem read_keeps (h : d.read = some d') : d'.fired = d.fired ∧ d'.taken = d.taken := by
  unfold read at h
  split at h
  · cases h
  · cases h
    exact ⟨rfl, rfl⟩

theorem send_keeps [DecidableEq A] {route : M → A} {capacity i : Nat}
    (h : d.send route capacity i = some d') : d'.fired = d.fired ∧ d'.taken = d.taken := by
  unfold send at h
  split at h
  · cases h
  · split at h
    · cases h
      exact ⟨rfl, rfl⟩
    · cases h

theorem take_keeps [DecidableEq A] {m : M} (h : d.take a = some (m, d')) :
    m ∈ d.queue a ∧ (d.queue a).head? = some m ∧ d'.fired = d.fired ∧
      ∀ a', d'.taken a' = if a' = a then d.taken a' ++ [m] else d.taken a' := by
  unfold take at h
  cases hqueue : d.queue a with
  | nil => simp [hqueue] at h
  | cons m' queue =>
      simp only [hqueue, Option.some.injEq, Prod.mk.injEq] at h
      obtain ⟨rfl, rfl⟩ := h
      exact ⟨by simp, rfl, rfl, fun _ => rfl⟩

/-- Every queue holds items that are routed to its worker. -/
def Routed (route : M → A) (d : Dispatch M A) : Prop := ∀ a, ∀ m ∈ d.queue a, route m = a

theorem Routed.read {route : M → A} (h : d.Routed route) (hread : d.read = some d') :
    d'.Routed route := by
  unfold Dispatch.read at hread
  split at hread
  · cases hread
  · cases hread
    exact h

theorem Routed.send [DecidableEq A] {route : M → A} (h : d.Routed route) {capacity i : Nat}
    (hsend : d.send route capacity i = some d') : d'.Routed route := by
  unfold Dispatch.send at hsend
  split at hsend
  · cases hsend
  · next m _ =>
      split at hsend
      · cases hsend
        intro a' m' hm'
        by_cases heq : a' = route m
        · simp only [if_pos heq, List.mem_append, List.mem_singleton] at hm'
          rcases hm' with hm' | rfl
          · exact h a' m' hm'
          · exact heq.symm
        · simp only [if_neg heq] at hm'
          exact h a' m' hm'
      · cases hsend

theorem Routed.take [DecidableEq A] {route : M → A} (h : d.Routed route) {m : M}
    (htake : d.take a = some (m, d')) : d'.Routed route := by
  unfold Dispatch.take at htake
  split at htake
  · cases htake
  · next m' queue hqueue =>
      cases htake
      intro a' m' hm'
      by_cases heq : a' = a
      · subst heq
        simp only [if_true] at hm'
        exact h a' m' (hqueue ▸ List.mem_cons_of_mem _ hm')
      · simp only [if_neg heq] at hm'
        exact h a' m' hm'

/-! ## What keeps a kind in order -/

theorem straight_fire (h : d.Straight kind a) (m : M) : (d.fire m).Straight kind a := by
  unfold Straight line at h
  show (d.taken a ++ d.queue a ++ d.tasks ++ (d.wire ++ [m])).filter kind
    = (d.fired ++ [m]).filter kind
  rw [← List.append_assoc, List.filter_append, h, ← List.filter_append]

theorem straight_read (h : d.Straight kind a) (hread : d.read = some d') : d'.Straight kind a := by
  unfold read at hread
  cases hwire : d.wire with
  | nil => simp [hwire] at hread
  | cons m wire =>
      simp only [hwire, Option.some.injEq] at hread
      subst hread
      unfold Straight line at h ⊢
      rw [hwire] at h
      rw [← h]
      simp only [List.append_assoc, List.singleton_append]

theorem straight_take [DecidableEq A] (h : d.Straight kind a) {a' : A} {m : M}
    (htake : d.take a' = some (m, d')) :
    d'.Straight kind a := by
  unfold take at htake
  cases hqueue : d.queue a' with
  | nil => simp [hqueue] at htake
  | cons m' queue =>
      simp only [hqueue, Option.some.injEq, Prod.mk.injEq] at htake
      obtain ⟨rfl, rfl⟩ := htake
      unfold Straight line at h ⊢
      rw [← h]
      by_cases heq : a = a'
      · subst heq
        simp [hqueue]
      · simp [heq]

theorem eq_take_append_drop {l : List M} {i : Nat} {m : M} (hm : l[i]? = some m) :
    l = l.take i ++ m :: l.drop (i + 1) := by
  obtain ⟨hlt, rfl⟩ := List.getElem?_eq_some_iff.mp hm
  rw [← List.drop_eq_getElem_cons hlt, List.take_append_drop]

/-- An item taken out of a list may be put in front of it if nothing of its kind was there
before it. -/
theorem filter_cons_eraseIdx {l : List M} {i : Nat} {m : M} (hm : l[i]? = some m)
    (hfirst : kind m = true → ∀ x ∈ l.take i, kind x = false) :
    (m :: l.eraseIdx i).filter kind = l.filter kind := by
  have hsplit := congrArg (List.filter kind) (eq_take_append_drop hm)
  rw [hsplit, List.eraseIdx_eq_take_drop_succ]
  by_cases hkind : kind m = true
  · have hnone : (l.take i).filter kind = [] := by
      rw [List.filter_eq_nil_iff]
      intro x hx
      simp [hfirst hkind x hx]
    simp only [List.filter_cons, List.filter_append, hkind, hnone, if_true, List.nil_append]
  · simp only [List.filter_cons, List.filter_append, hkind, if_false, Bool.false_eq_true]

theorem straight_send [DecidableEq A] {route : M → A} (h : d.Straight kind a)
    (hroute : ∀ m, kind m = true → route m = a)
    {capacity i : Nat} (hsend : d.send route capacity i = some d')
    (hfirst : ∀ m, d.tasks[i]? = some m → kind m = true →
      ∀ x ∈ d.tasks.take i, kind x = false) : d'.Straight kind a := by
  unfold send at hsend
  cases hm : d.tasks[i]? with
  | none => simp [hm] at hsend
  | some m =>
      simp only [hm] at hsend
      split at hsend
      · cases hsend
        have hmoved := filter_cons_eraseIdx hm (hfirst m hm)
        unfold Straight line at h ⊢
        rw [← h]
        by_cases heq : a = route m
        · simp only [if_pos heq, List.filter_append, ← hmoved, List.filter_cons, List.append_assoc,
            List.filter_nil]
          split <;> simp
        · -- an item for another worker is of another kind
          have hother : kind m = false := by
            cases hkind : kind m with
            | false => rfl
            | true => exact absurd (hroute m hkind).symm heq
          simp only [if_neg heq, List.filter_append, ← hmoved, List.filter_cons, hother,
            Bool.false_eq_true, if_false]
      · cases hsend

/-- What a worker has taken of a straight kind is how its items began to be fired. -/
theorem Straight.isFront_taken (h : d.Straight kind a) :
    (d.taken a).filter kind <+: d.fired.filter kind := by
  unfold Straight line at h
  rw [← h, List.append_assoc, List.append_assoc, List.filter_append]
  exact List.prefix_append _ _

/-- When nothing of a straight kind is under way, all of it was taken. -/
theorem Straight.taken_eq (h : d.Straight kind a)
    (hnone : ∀ m ∈ d.queue a ++ d.tasks ++ d.wire, kind m = false) :
    (d.taken a).filter kind = d.fired.filter kind := by
  have hrest : (d.queue a ++ d.tasks ++ d.wire).filter kind = [] := by
    rw [List.filter_eq_nil_iff]
    intro m hm
    simp [hnone m hm]
  unfold Straight line at h
  rw [← h, List.append_assoc, List.append_assoc, List.filter_append, ← List.append_assoc, hrest,
    List.append_nil]

/-- Of two items of a straight kind, the one that is taken was fired before the one that waits. -/
theorem Straight.fired_before (h : d.Straight kind a) {R : M → M → Prop}
    (hR : (d.fired.filter kind).Pairwise R) {m m' : M} (hm : m ∈ d.taken a) (hm' : m' ∈ d.queue a)
    (hkind : kind m = true) (hkind' : kind m' = true) : R m m' := by
  unfold Straight line at h
  rw [← h, List.append_assoc, List.append_assoc, List.filter_append] at hR
  refine (List.pairwise_append.mp hR).2.2 m ?_ m' ?_
  · exact List.mem_filter.mpr ⟨hm, hkind⟩
  · exact List.mem_filter.mpr ⟨List.mem_append_left _ hm', hkind'⟩

end Dispatch

end Distant
