import Mathlib.Data.List.Basic
import Mathlib.Logic.Function.Basic
import Distant.Lib.Machine
import Distant.Protocol

/-!
# Watching paths

One task has all registrations, and counts for each path how often it was registered; the watcher of
the operating system is told of the first registration of a path only. No count ever goes down.
`inStep_iff` says that the registrations, the counts and the watcher are in step exactly as long as
no registration is removed, and no path that is watched is to be watched recursively as well.
-/

namespace Distant

/-- A path registered with a watcher, for one connection. -/
structure RegisteredPath (P : Type) where
  id : ConnectionId
  /-- the path provided, which is not canonicalized -/
  rawPath : P
  path : P
  recursive : Bool
  deriving DecidableEq, Repr

/-- The state of `watcher_task`, and of the watcher that it uses. -/
structure Watcher (P : Type) where
  registeredPaths : List (RegisteredPath P)
  pathCnt : P → Option Nat
  /-- what the operating system watches, and if recursively -/
  os : P → Option Bool
  /-- what was sent back, for each request -/
  answers : List (Except IoError Unit)

/-- A request, with what the operating system says if it is asked. -/
inductive WatcherMsg (P : Type) where
  | watch (registeredPath : RegisteredPath P) (res : Except IoError Unit)
  | unwatch (id : ConnectionId) (path : P) (res : Except IoError Unit)

namespace Watcher

variable {P : Type} [DecidableEq P]

def new : Watcher P := ⟨[], fun _ => none, fun _ => none, []⟩

/-- `Debouncer::watch` -/
def osWatch (os : P → Option Bool) (path : P) (recursive : Bool) :
    Except IoError Unit → P → Option Bool
  | .ok () => Function.update os path (some recursive)
  | .error _ => os

/-- `Debouncer::unwatch` -/
def osUnwatch (os : P → Option Bool) (path : P) : Except IoError Unit → P → Option Bool
  | .ok () => Function.update os path none
  | .error _ => os

/-- A registration of the connection, for the path as it was given or as it was found. -/
def isOf (id : ConnectionId) (path : P) (p : RegisteredPath P) : Bool :=
  p.id = id && (p.path = path || p.rawPath = path)

def answer (w : Watcher P) (res : Except IoError Unit) : Watcher P :=
  { w with answers := w.answers ++ [res] }

def watch (w : Watcher P) (registeredPath : RegisteredPath P) (res : Except IoError Unit) :
    Watcher P :=
  match w.pathCnt registeredPath.path with
  | some cnt =>
    { w with
      pathCnt := Function.update w.pathCnt registeredPath.path (some (cnt + 1))
      registeredPaths := w.registeredPaths ++ [registeredPath] }.answer (.ok ())
  | none =>
    match res with
    | .ok () =>
      { w with
        os := osWatch w.os registeredPath.path registeredPath.recursive res
        pathCnt := Function.update w.pathCnt registeredPath.path (some 1)
        registeredPaths := w.registeredPaths ++ [registeredPath] }.answer res
    | .error _ => w.answer res

variable (debug : P → String)

def notWatched (path : P) : IoError := .new .other (debug path ++ " is not being watched")

def unwatch (w : Watcher P) (id : ConnectionId) (path : P) (res : Except IoError Unit) :
    Watcher P :=
  match w.pathCnt path with
  | some cnt =>
    let kept := w.registeredPaths.filter fun p => ! isOf id path p
    let removedCnt := w.registeredPaths.length - kept.length
    let w := { w with registeredPaths := kept }
    if cnt ≤ removedCnt then { w with os := osUnwatch w.os path res }.answer res
    else if removedCnt = 0 then w.answer (.error (notWatched debug path))
    else w.answer (.ok ())
  | none => w.answer (.error (notWatched debug path))

def step (w : Watcher P) : WatcherMsg P → Option (Watcher P)
  | .watch registeredPath res => some (w.watch registeredPath res)
  | .unwatch id path res => some (w.unwatch debug id path res)

/-! ## What is claimed, and under which condition -/

/-- The registrations of a path. -/
def registrations (w : Watcher P) (path : P) : List (RegisteredPath P) :=
  w.registeredPaths.filter fun p => p.path = path

/-- The operating system watches what is registered, recursively if one of the registrations says
so, and the counts are those of the registrations. -/
structure InStep (w : Watcher P) : Prop where
  counted : ∀ path, (w.pathCnt path).getD 0 = (w.registrations path).length
  watched : ∀ path, w.os path = if w.registrations path = [] then none
    else some ((w.registrations path).any (·.recursive))

/-- The condition on a request. -/
def Harmless (w : Watcher P) : WatcherMsg P → Prop
  -- a path that is registered already is not to be watched recursively from now on
  | .watch registeredPath _ => registeredPath.recursive = true →
    w.registrations registeredPath.path = [] ∨
      ∃ p ∈ w.registrations registeredPath.path, p.recursive = true
  -- no registration is removed
  | .unwatch id path _ => w.registrations path = [] ∨
    ∀ p ∈ w.registeredPaths, isOf id path p = false

/-- In step, with no count of zero. -/
structure Counting (w : Watcher P) : Prop extends InStep w where
  pos : ∀ path, w.pathCnt path ≠ some 0

section

variable {debug} {w : Watcher P} {registeredPath : RegisteredPath P} {id : ConnectionId} {path : P}
  {cnt : Nat} {res : Except IoError Unit}

theorem counting_new : Counting (new : Watcher P) where
  counted _ := rfl
  watched _ := rfl
  pos _ := nofun

theorem Counting.pathCnt_eq_none (h : Counting w) (hnone : w.registrations path = []) :
    w.pathCnt path = none := by
  have hcount := h.counted path
  rw [hnone, List.length_nil] at hcount
  cases hcnt : w.pathCnt path with
  | none => rfl
  | some cnt =>
      rw [hcnt, Option.getD_some] at hcount
      rw [hcount] at hcnt
      exact absurd hcnt (h.pos path)

theorem Counting.registrations_eq_nil (h : Counting w) (hnone : w.pathCnt path = none) :
    w.registrations path = [] := by
  have hcount := h.counted path
  rw [hnone] at hcount
  exact List.length_eq_zero_iff.mp hcount.symm

theorem Counting.registrations_ne_nil (h : Counting w) (hcnt : w.pathCnt path = some cnt) :
    w.registrations path ≠ [] := by
  intro hnil
  rw [h.pathCnt_eq_none hnil] at hcnt
  cases hcnt

/-! ## Watching -/

/-- One registration more. -/
theorem registrations_append (w w' : Watcher P) (path : P)
    (h : w'.registeredPaths = w.registeredPaths ++ [registeredPath]) :
    w'.registrations path
      = w.registrations path ++ if registeredPath.path = path then [registeredPath] else [] := by
  rw [registrations, registrations, h, List.filter_append]
  by_cases hpath : registeredPath.path = path
  · simp [hpath]
  · simp [hpath]

theorem watch_of_counted (w : Watcher P) (registeredPath : RegisteredPath P)
    (res : Except IoError Unit) (hcnt : w.pathCnt registeredPath.path = some cnt) :
    w.watch registeredPath res =
      { w with
        pathCnt := Function.update w.pathCnt registeredPath.path (some (cnt + 1))
        registeredPaths := w.registeredPaths ++ [registeredPath] }.answer (.ok ()) := by
  unfold watch
  rw [hcnt]

theorem watch_of_new (w : Watcher P) (registeredPath : RegisteredPath P)
    (hnone : w.pathCnt registeredPath.path = none) :
    w.watch registeredPath (.ok ()) =
      { w with
        os := Function.update w.os registeredPath.path (some registeredPath.recursive)
        pathCnt := Function.update w.pathCnt registeredPath.path (some 1)
        registeredPaths := w.registeredPaths ++ [registeredPath] }.answer (.ok ()) := by
  unfold watch
  rw [hnone]
  rfl

/-- What changes nothing but at one path is in step if it is there. -/
theorem Counting.of_same {w' : Watcher P} (h : Counting w) (path : P)
    (hsame : ∀ path', path ≠ path' → w'.pathCnt path' = w.pathCnt path' ∧
      w'.os path' = w.os path' ∧ w'.registrations path' = w.registrations path')
    (hcounted : (w'.pathCnt path).getD 0 = (w'.registrations path).length)
    (hwatched : w'.os path = if w'.registrations path = [] then none
      else some ((w'.registrations path).any (·.recursive)))
    (hpos : w'.pathCnt path ≠ some 0) : Counting w' := by
  have hall (path' : P) : (w'.pathCnt path').getD 0 = (w'.registrations path').length ∧
      w'.os path' = (if w'.registrations path' = [] then none
        else some ((w'.registrations path').any (·.recursive))) ∧ w'.pathCnt path' ≠ some 0 := by
    by_cases hpath : path = path'
    · subst hpath
      exact ⟨hcounted, hwatched, hpos⟩
    · obtain ⟨hcnt, hos, hregistrations⟩ := hsame path' hpath
      rw [hcnt, hos, hregistrations]
      exact ⟨h.counted path', h.watched path', h.pos path'⟩
  exact ⟨⟨fun path' => (hall path').1, fun path' => (hall path').2.1⟩, fun path' => (hall path').2.2⟩

/-- The paths that are not registered stay as they are. -/
theorem same_append (w w' : Watcher P) {cnt : Option Nat}
    (hcnt : w'.pathCnt = Function.update w.pathCnt registeredPath.path cnt)
    (hos : ∀ path, registeredPath.path ≠ path → w'.os path = w.os path)
    (hpaths : w'.registeredPaths = w.registeredPaths ++ [registeredPath]) (path : P)
    (hpath : registeredPath.path ≠ path) :
    w'.pathCnt path = w.pathCnt path ∧ w'.os path = w.os path ∧
      w'.registrations path = w.registrations path := by
  rw [registrations_append w w' path hpaths, if_neg hpath, List.append_nil, hcnt,
    Function.update_of_ne (Ne.symm hpath)]
  exact ⟨rfl, hos path hpath, rfl⟩

theorem Counting.watch (h : Counting w) (hharmless : Harmless w (.watch registeredPath res)) :
    Counting (w.watch registeredPath res) := by
  cases hcnt : w.pathCnt registeredPath.path with
  | some cnt =>
      rw [watch_of_counted w registeredPath res hcnt]
      have hne := h.registrations_ne_nil hcnt
      refine h.of_same registeredPath.path (same_append w _ rfl (fun _ _ => rfl) rfl) ?_ ?_ ?_
      · have hcount := h.counted registeredPath.path
        rw [hcnt, Option.getD_some] at hcount
        show (Function.update w.pathCnt _ _ _).getD 0 = _
        rw [Function.update_self, registrations_append w _ _ rfl, if_pos rfl, List.length_append,
          ← hcount]
        rfl
      · rw [registrations_append w _ _ rfl, if_pos rfl,
          if_neg (List.append_ne_nil_of_left_ne_nil hne _), List.any_append]
        show w.os _ = _
        rw [h.watched, if_neg hne]
        cases hrecursive : registeredPath.recursive with
        | false => simp [hrecursive]
        | true =>
            obtain ⟨p, hp, hp'⟩ := (hharmless hrecursive).resolve_left hne
            have hany : (w.registrations registeredPath.path).any (·.recursive) = true :=
              List.any_eq_true.mpr ⟨p, hp, hp'⟩
            rw [hany, Bool.true_or]
      · show Function.update w.pathCnt _ _ _ ≠ some 0
        rw [Function.update_self]
        exact fun hzero => absurd (Option.some.inj hzero) (Nat.succ_ne_zero cnt)
  | none =>
      have hnil := h.registrations_eq_nil hcnt
      cases res with
      | error e =>
          rw [Watcher.watch, hcnt]
          exact ⟨⟨h.counted, h.watched⟩, h.pos⟩
      | ok u =>
          rw [watch_of_new w registeredPath hcnt]
          have hos (path : P) (hpath : registeredPath.path ≠ path) :
              Function.update w.os registeredPath.path (some registeredPath.recursive) path = w.os path :=
            Function.update_of_ne (Ne.symm hpath) _ _
          refine h.of_same registeredPath.path (same_append w _ rfl hos rfl) ?_ ?_ ?_
          · show (Function.update w.pathCnt _ _ _).getD 0 = _
            rw [Function.update_self, registrations_append w _ _ rfl, if_pos rfl, hnil]
            rfl
          · show Function.update w.os _ _ _ = _
            rw [Function.update_self, registrations_append w _ _ rfl, if_pos rfl, hnil]
            simp
          · show Function.update w.pathCnt _ _ _ ≠ some 0
            rw [Function.update_self]
            exact nofun

/-- The watcher is not told that a path is to be watched recursively from now on. -/
theorem Counting.watch_breaks (h : Counting w)
    (hharmful : ¬ Harmless w (.watch registeredPath res)) :
    ¬ InStep (w.watch registeredPath res) := by
  intro hstep
  simp only [Harmless, Classical.not_imp, not_or] at hharmful
  obtain ⟨hrecursive, hne, hnone⟩ := hharmful
  have hflat : (w.registrations registeredPath.path).any (·.recursive) = false := by
    rw [List.any_eq_false]
    exact fun p hp hp' => hnone ⟨p, hp, hp'⟩
  cases hcnt : w.pathCnt registeredPath.path with
  | none => exact hne (h.registrations_eq_nil hcnt)
  | some cnt =>
      have hos := hstep.watched registeredPath.path
      rw [watch_of_counted w registeredPath res hcnt, registrations_append w _ _ rfl, if_pos rfl,
        if_neg (List.append_ne_nil_of_left_ne_nil hne _), List.any_append, hflat] at hos
      have hbefore := h.watched registeredPath.path
      rw [if_neg hne, hflat] at hbefore
      have hsame : some false = some (false || [registeredPath].any (·.recursive)) :=
        hbefore.symm.trans hos
      simp [hrecursive] at hsame

/-! ## Unwatching -/

theorem unwatch_of_counted (w : Watcher P) (id : ConnectionId) (res : Except IoError Unit)
    (hcnt : w.pathCnt path = some cnt) :
    (w.unwatch debug id path res).pathCnt = w.pathCnt ∧
    (w.unwatch debug id path res).registeredPaths
      = w.registeredPaths.filter fun p => ! isOf id path p := by
  rw [unwatch, hcnt]
  dsimp only
  split
  · exact ⟨rfl, rfl⟩
  · split <;> exact ⟨rfl, rfl⟩

theorem Counting.unwatch (h : Counting w) (hharmless : Harmless w (.unwatch id path res)) :
    Counting (w.unwatch debug id path res) := by
  rcases hharmless with hnil | hnone
  · rw [Watcher.unwatch, h.pathCnt_eq_none hnil]
    exact ⟨⟨h.counted, h.watched⟩, h.pos⟩
  · cases hcnt : w.pathCnt path with
    | none =>
        rw [Watcher.unwatch, hcnt]
        exact ⟨⟨h.counted, h.watched⟩, h.pos⟩
    | some cnt =>
        have hkept : (w.registeredPaths.filter fun p => ! isOf id path p) = w.registeredPaths :=
          List.filter_eq_self.mpr fun p hp => by rw [hnone p hp]; rfl
        have hpos : ¬ cnt ≤ 0 := fun hle => h.pos path (by rw [hcnt, Nat.le_zero.mp hle])
        rw [Watcher.unwatch, hcnt]
        dsimp only
        rw [hkept, Nat.sub_self, if_neg hpos, if_pos rfl]
        exact ⟨⟨h.counted, h.watched⟩, h.pos⟩

/-- A registration is removed, and the count of its path stays. -/
theorem Counting.unwatch_breaks (h : Counting w) (hharmful : ¬ Harmless w (.unwatch id path res)) :
    ¬ InStep (w.unwatch debug id path res) := by
  intro hstep
  simp only [Harmless, not_or] at hharmful
  obtain ⟨hne, hsome⟩ := hharmful
  obtain ⟨p, hp, hof⟩ : ∃ p ∈ w.registeredPaths, isOf id path p = true := by simpa using hsome
  cases hcnt : w.pathCnt path with
  | none => exact hne (h.registrations_eq_nil hcnt)
  | some cnt =>
      obtain ⟨hsame, hkept⟩ := @unwatch_of_counted P _ debug path cnt w id res hcnt
      have hlt : ((w.unwatch debug id path res).registrations p.path).length
          < (w.registrations p.path).length := by
        have hfilter : (w.unwatch debug id path res).registrations p.path
            = (w.registrations p.path).filter fun p => ! isOf id path p := by
          rw [registrations, registrations, hkept, List.filter_filter, List.filter_filter]
          exact List.filter_congr fun p _ => Bool.and_comm _ _
        rw [hfilter, List.length_filter_lt_length_iff_exists]
        refine ⟨p, List.mem_filter.mpr ⟨hp, by simp⟩, ?_⟩
        rw [hof]
        exact Bool.false_ne_true
      have hafter := hstep.counted p.path
      rw [hsame, h.counted p.path] at hafter
      omega

end

/-- In every state of a run all is in step, exactly if no request removes a registration, or has a
path watched recursively that is watched already and is not. -/
theorem inStep_iff {es : List (WatcherMsg P)} {w : Watcher P}
    (hrun : Machine.run (step debug) es new = some w) :
    (∀ es₁ w₁, es₁ <+: es → Machine.run (step debug) es₁ new = some w₁ → InStep w₁) ↔
      Machine.Meeting (step debug) Harmless es new := by
  refine Machine.always_iff (I := Counting) ?_ (fun w h => h.toInStep) ?_ counting_new hrun
  · intro w e w' h hharmless hstep
    cases e with
    | watch registeredPath res =>
        cases hstep
        exact h.watch hharmless
    | unwatch id path res =>
        cases hstep
        exact h.unwatch hharmless
  · intro w e w' h hharmful hstep
    cases e with
    | watch registeredPath res =>
        cases hstep
        exact h.watch_breaks hharmful
    | unwatch id path res =>
        cases hstep
        exact h.unwatch_breaks hharmful

/-- A path as it was given. -/
def registered (id : ConnectionId) (path : String) (recursive : Bool) : RegisteredPath String :=
  ⟨id, path, path, recursive⟩

/-- Two connections watch a path, and a third has nothing to unwatch. -/
def twoWatch : List (WatcherMsg String) :=
  [.watch (registered 1 "/a" false) (.ok ()), .watch (registered 2 "/a" false) (.ok ()),
    .unwatch 3 "/a" (.ok ())]

theorem inStep_twoWatch : ∃ w, Machine.run (step id) twoWatch new = some w ∧ InStep w := by
  have hmeeting : Machine.Meeting (step id) Harmless twoWatch new :=
    .cons (fun h => nomatch h) rfl (.cons (fun h => nomatch h) rfl (.cons (.inr (by decide)) rfl trivial))
  exact ⟨_, rfl, (inStep_iff id rfl).mpr hmeeting twoWatch _ List.prefix_rfl rfl⟩

/-- A path is watched again after its last unwatch. -/
def watchesAgain : List (WatcherMsg String) :=
  [.watch (registered 1 "/a" false) (.ok ()), .unwatch 1 "/a" (.ok ()),
    .watch (registered 1 "/a" false) (.ok ())]

/-- One connection has another path under a name that is the path of the other connection. -/
def endsAnother : List (WatcherMsg String) :=
  [.watch (registered 2 "/a" false) (.ok ()), .watch ⟨1, "/a", "/b", false⟩ (.ok ()),
    .unwatch 1 "/a" (.ok ())]

def bothUnwatch : List (WatcherMsg String) :=
  [.watch (registered 1 "/a" false) (.ok ()), .watch (registered 2 "/a" false) (.ok ()),
    .unwatch 1 "/a" (.ok ()), .unwatch 2 "/a" (.ok ())]

def recursiveSecond : List (WatcherMsg String) :=
  [.watch (registered 1 "/a" false) (.ok ()), .watch (registered 2 "/a" true) (.ok ())]

theorem not_inStep :
    (∃ w, Machine.run (step id) watchesAgain new = some w ∧ ¬ InStep w ∧
      w.registeredPaths = [registered 1 "/a" false] ∧ w.os "/a" = none) ∧
    (∃ w, Machine.run (step id) endsAnother new = some w ∧ ¬ InStep w ∧
      w.registeredPaths = [registered 2 "/a" false] ∧ w.os "/a" = none) ∧
    (∃ w, Machine.run (step id) bothUnwatch new = some w ∧ ¬ InStep w ∧
      w.registeredPaths = [] ∧ w.os "/a" = some false ∧ w.pathCnt "/a" = some 2) ∧
    (∃ w, Machine.run (step id) recursiveSecond new = some w ∧ ¬ InStep w ∧
      w.os "/a" = some false) := by
  refine ⟨⟨_, rfl, fun h => ?_, rfl, rfl⟩, ⟨_, rfl, fun h => ?_, rfl, rfl⟩,
    ⟨_, rfl, fun h => ?_, rfl, rfl, rfl⟩, ⟨_, rfl, fun h => ?_, rfl⟩⟩
  · exact absurd (h.watched "/a") (by decide)
  · exact absurd (h.watched "/a") (by decide)
  · exact absurd (h.watched "/a") (by decide)
  · exact absurd (h.watched "/a") (by decide)

end Watcher

end Distant
