import Mathlib.Algebra.GroupWithZero.Nat
import Mathlib.Data.List.Basic
import Distant.Lib.Json
import Distant.Lib.Machine

/-!
# A batch of requests

The requests of a batch are handled one at a time if the header has `sequence`, until one of them
fails; otherwise there is a task for each, and the tasks run in any order. The handlers are those of
an arbitrary API: all that is known of one is that it is called with its request, and what it returns.
`batch_answered` says which response a batch gets, and that it gets one.
-/

namespace Distant

/-- The kinds of errors of the protocol, `protocol::ErrorKind`. -/
inductive ProtocolErrorKind where
  | notFound
  | permissionDenied
  | connectionRefused
  | connectionReset
  | connectionAborted
  | notConnected
  | addrInUse
  | addrNotAvailable
  | brokenPipe
  | alreadyExists
  | wouldBlock
  | invalidInput
  | invalidData
  | timedOut
  | writeZero
  | interrupted
  | other
  | unexpectedEof
  | unsupported
  | outOfMemory
  | loop
  | taskCancelled
  | taskPanicked
  | unknown
  deriving DecidableEq, Repr

structure ProtocolError where
  kind : ProtocolErrorKind
  description : String
  deriving DecidableEq, Repr

/-- A response, with the answers of an API of any type. -/
inductive ApiResponse (A : Type) where
  | answer (a : A)
  | error (e : ProtocolError)
  deriving DecidableEq, Repr

namespace ApiResponse

variable {A : Type}

def isError : ApiResponse A → Bool
  | .answer _ => false
  | .error _ => true

/-- `handle_request`: each request has a method of the API, and each method an answer. -/
def handleRequest : Except ProtocolError A → ApiResponse A
  | .ok a => .answer a
  | .error e => .error e

def interrupted : ApiResponse A :=
  .error { kind := .interrupted, description := "Canceled due to earlier error" }

/-- What a task that was joined stands for in the response; an error has the text of its panic. -/
def joined : Except String (ApiResponse A) → ApiResponse A
  | .ok response => response
  | .error text => .error { kind := .other, description := text }

end ApiResponse

/-- `matches!(request.header.get_as("sequence"), Some(Ok(true)))` -/
def isSequence {ν : Type} (header : List (String × Value ν)) : Bool :=
  match header.lookup "sequence" with
  | some (.bool true) => true
  | _ => false

/-- The task of one request of a batch. -/
inductive BatchTask (Q A : Type) where
  | spawned (request : Q)
  /-- its handler was called -/
  | running
  | finished (outcome : Except String (ApiResponse A))

inductive BatchPhase (Q A : Type) where
  /-- the loop over the requests, with what is left of them; `calling` while a handler runs -/
  | sequence (todo : List Q) (out : List (ApiResponse A)) (hasFailed calling : Bool)
  /-- the requests that have no task yet, and the tasks; these are joined when all have one -/
  | tasks (todo : List Q) (tasks : List (BatchTask Q A))
  | responded (response : List (ApiResponse A))
  /-- a handler panicked that was not in a task of its own -/
  | panicked

/-- What the API sees of the batch: the handler of the `i`-th request is called, and returns. -/
inductive ApiCall (Q A : Type) where
  | called (i : Nat) (request : Q)
  | returned (i : Nat) (result : Except ProtocolError A)

def ApiCall.index {Q A : Type} : ApiCall Q A → Nat
  | .called i _ => i
  | .returned i _ => i

structure Batch (Q A : Type) where
  phase : BatchPhase Q A
  /-- all calls of handlers, in their order -/
  calls : List (ApiCall Q A)

inductive BatchEvent (A : Type) where
  /-- the task of the batch goes on -/
  | next
  /-- the `i`-th task gets to run, and calls the handler -/
  | runs (i : Nat)
  | returns (i : Nat) (result : Except ProtocolError A)
  | panics (i : Nat) (text : String)

/-- The handlers return. -/
def BatchEvent.Returns {A : Type} : BatchEvent A → Prop
  | .panics _ _ => False
  | _ => True

namespace Batch

variable {Q A : Type}

open ApiResponse

def start {ν : Type} (header : List (String × Value ν)) (list : List Q) : Batch Q A where
  phase := if isSequence header then .sequence list [] false false else .tasks list []
  calls := []

/-- `join_all`, when all tasks have finished. -/
def joinAll (tasks : List (BatchTask Q A)) : Option (List (Except String (ApiResponse A))) :=
  tasks.mapM fun
    | .finished outcome => some outcome
    | _ => none

/-- A task ends. -/
def finish (b : Batch Q A) (todo : List Q) (tasks : List (BatchTask Q A)) (i : Nat)
    (outcome : Except String (ApiResponse A)) : Batch Q A :=
  { b with phase := .tasks todo (tasks.set i (.finished outcome)) }

def step (b : Batch Q A) : BatchEvent A → Option (Batch Q A)
  | .next =>
    match b.phase with
    | .sequence [] out _ false => some { b with phase := .responded out }
    | .sequence (request :: todo) out hasFailed false =>
      -- once there was a failure, all remaining requests are interrupted
      if hasFailed then some { b with phase := .sequence todo (out ++ [interrupted]) true false }
      else some { phase := .sequence todo out false true
                  calls := b.calls ++ [.called out.length request] }
    | .tasks (request :: todo) tasks =>
      some { b with phase := .tasks todo (tasks ++ [.spawned request]) }
    | .tasks [] tasks =>
      (joinAll tasks).map fun outcomes => { b with phase := .responded (outcomes.map joined) }
    | _ => none
  | .runs i =>
    match b.phase with
    | .tasks todo tasks =>
      match tasks[i]? with
      | some (.spawned request) =>
        some { phase := .tasks todo (tasks.set i .running), calls := b.calls ++ [.called i request] }
      | _ => none
    | _ => none
  | .returns i result =>
    match b.phase with
    | .sequence todo out _ true =>
      if i = out.length then
        some { phase := .sequence todo (out ++ [handleRequest result]) (handleRequest result).isError
                 false
               calls := b.calls ++ [.returned i result] }
      else none
    | .tasks todo tasks =>
      match tasks[i]? with
      | some .running =>
        some (finish { b with calls := b.calls ++ [.returned i result] } todo tasks i
          (.ok (handleRequest result)))
      | _ => none
    | _ => none
  | .panics i text =>
    match b.phase with
    | .sequence _ _ _ true => some { b with phase := .panicked }
    | .tasks todo tasks =>
      match tasks[i]? with
      | some .running => some (finish b todo tasks i (.error text))
      | _ => none
    | _ => none

/-! ## One at a time -/

/-- The calls of handlers of which each returns before the next is called, from the `i`-th on. -/
def callsInTurn (i : Nat) : List Q → List (Except ProtocolError A) → List (ApiCall Q A)
  | request :: list, result :: results =>
    .called i request :: .returned i result :: callsInTurn (i + 1) list results
  | _, _ => []

/-- Handlers were called in turn until the first error, and what is left is interrupted. -/
structure InTurn (list : List Q) (results : List (Except ProtocolError A))
    (out : List (ApiResponse A)) (calls : List (ApiCall Q A)) : Prop where
  le : results.length ≤ list.length
  /-- no result but the last is an error -/
  goes : ∀ result ∈ results.dropLast, ∃ a, result = .ok a
  /-- and the last is one if there are requests left -/
  stops : results.length < list.length → ∃ e, results.getLast? = some (.error e)
  calls_eq : calls = callsInTurn 0 list results
  out_eq : out = results.map handleRequest ++ .replicate (list.length - results.length) interrupted

/-- The invariant of the loop. -/
inductive Sequential (list : List Q) : BatchPhase Q A → List (ApiCall Q A) → Prop where
  | going {results : List (Except ProtocolError A)} (hok : ∀ r ∈ results, ∃ a, r = .ok a)
      (hle : results.length ≤ list.length) :
      Sequential list (.sequence (list.drop results.length) (results.map handleRequest) false false)
        (callsInTurn 0 list results)
  | calling {results : List (Except ProtocolError A)} {request : Q} {todo : List Q}
      (hok : ∀ r ∈ results, ∃ a, r = .ok a) (htodo : list.drop results.length = request :: todo) :
      Sequential list (.sequence todo (results.map handleRequest) false true)
        (callsInTurn 0 list results ++ [.called results.length request])
  | failed {results : List (Except ProtocolError A)} {e : ProtocolError} {k : Nat}
      (hok : ∀ r ∈ results, ∃ a, r = .ok a) (hle : results.length + 1 + k ≤ list.length) :
      Sequential list (.sequence (list.drop (results.length + 1 + k))
          ((results ++ [Except.error e]).map handleRequest ++ .replicate k interrupted) true false)
        (callsInTurn 0 list (results ++ [.error e]))
  | responded {results : List (Except ProtocolError A)} {out : List (ApiResponse A)}
      {calls : List (ApiCall Q A)} (h : InTurn list results out calls) :
      Sequential list (.responded out) calls

section Sequential

variable {list todo : List Q} {results : List (Except ProtocolError A)} {request : Q}
  {b b' : Batch Q A} {e : BatchEvent A}

theorem callsInTurn_append (h : list.drop results.length = request :: todo) (i : Nat)
    (result : Except ProtocolError A) :
    callsInTurn i list (results ++ [result]) = callsInTurn i list results ++
      [.called (i + results.length) request, .returned (i + results.length) result] := by
  induction results generalizing i list with
  | nil =>
      cases h
      simp [callsInTurn]
  | cons r results ih =>
      cases list with
      | nil => cases h
      | cons q list =>
          rw [List.cons_append, callsInTurn, callsInTurn, ih h (i + 1), List.length_cons]
          simp only [List.cons_append, Nat.add_assoc, Nat.add_comm 1]

theorem drop_succ_of_drop {n : Nat} (h : list.drop n = request :: todo) :
    list.drop (n + 1) = todo ∧ n < list.length := by
  have hlt : n < list.length := by
    by_contra hnot
    rw [List.drop_of_length_le (Nat.le_of_not_lt hnot)] at h
    cases h
  rw [List.drop_eq_getElem_cons hlt] at h
  exact ⟨(List.cons.inj h).2, hlt⟩

theorem Sequential.next (h : Sequential list b.phase b.calls) (hstep : step b .next = some b') :
    Sequential list b'.phase b'.calls := by
  obtain ⟨phase, calls⟩ := b
  dsimp only at h
  cases h with
  | @going results hok hle =>
      cases htodo : list.drop results.length with
      | nil =>
          rw [htodo] at hstep
          cases hstep
          have hlen : results.length = list.length :=
            Nat.le_antisymm hle (List.drop_eq_nil_iff.mp htodo)
          refine @Sequential.responded Q A list results _ _ ⟨hle, ?_, fun hlt => ?_, rfl, ?_⟩
          · exact fun r hr => hok r (List.dropLast_subset _ hr)
          · omega
          · rw [hlen, Nat.sub_self, List.replicate_zero, List.append_nil]
      | cons request todo =>
          rw [htodo] at hstep
          cases hstep
          rw [List.length_map]
          exact .calling hok htodo
  | @calling results request todo hok htodo => cases todo <;> cases hstep
  | @failed results e k hok hle =>
      cases htodo : list.drop (results.length + 1 + k) with
      | nil =>
          rw [htodo] at hstep
          cases hstep
          have hlen := List.drop_eq_nil_iff.mp htodo
          refine @Sequential.responded Q A list (results ++ [.error e]) _ _ ⟨?_, ?_, fun _ => ?_, rfl, ?_⟩
          · rw [List.length_append, List.length_singleton]
            omega
          · rw [List.dropLast_concat]
            exact hok
          · exact ⟨e, List.getLast?_concat⟩
          · rw [List.length_append, List.length_singleton]
            congr 2
            omega
      | cons request todo =>
          rw [htodo] at hstep
          cases hstep
          obtain ⟨rfl, hlt⟩ := drop_succ_of_drop htodo
          rw [List.append_assoc, ← List.replicate_succ']
          exact .failed (k := k + 1) hok hlt
  | responded => cases hstep

theorem Sequential.returns {i : Nat} {result : Except ProtocolError A}
    (h : Sequential list b.phase b.calls) (hstep : step b (.returns i result) = some b') :
    Sequential list b'.phase b'.calls := by
  obtain ⟨phase, calls⟩ := b
  dsimp only at h
  cases h with
  | going => cases hstep
  | @calling results request todo hok htodo =>
      rw [step] at hstep
      dsimp only at hstep
      split at hstep
      · rename_i hi
        cases hstep
        obtain ⟨rfl, hlt⟩ := drop_succ_of_drop htodo
        have hcalls := callsInTurn_append htodo 0 result
        rw [Nat.zero_add] at hcalls
        rw [List.length_map] at hi
        have hout : results.map handleRequest ++ [handleRequest result]
            = (results ++ [result]).map handleRequest := by rw [List.map_append]; rfl
        rw [hi, List.append_assoc, List.singleton_append, ← hcalls, hout]
        cases result with
        | ok a =>
            have hlen : (results ++ [Except.ok a]).length = results.length + 1 := by simp
            rw [← hlen]
            refine .going (fun r hr => ?_) (hlen ▸ hlt)
            rcases List.mem_append.mp hr with hr | hr
            · exact hok r hr
            · exact ⟨a, List.mem_singleton.mp hr⟩
        | error e =>
            have hfailed := Sequential.failed (e := e) (k := 0) hok hlt
            rwa [List.replicate_zero, List.append_nil] at hfailed
      · cases hstep
  | failed => cases hstep
  | responded => cases hstep

theorem Sequential.step (h : Sequential list b.phase b.calls) (hreturns : e.Returns)
    (hstep : step b e = some b') : Sequential list b'.phase b'.calls := by
  cases e with
  | next => exact h.next hstep
  | runs i =>
      obtain ⟨phase, calls⟩ := b
      cases h <;> cases hstep
  | returns i result => exact h.returns hstep
  | panics i text => cases hreturns

end Sequential

/-! ## In tasks -/

/-- Every handler was called once, with its request, and what it returned is where its request was. -/
structure EachOnce (list : List Q) (out : List (ApiResponse A)) (calls : List (ApiCall Q A)) :
    Prop where
  length_eq : out.length = list.length
  answered : ∀ i request, list[i]? = some request → ∃ result,
    calls.filter (·.index == i) = [.called i request, .returned i result] ∧
    out[i]? = some (handleRequest result)
  /-- there are no other calls -/
  only : ∀ c ∈ calls, c.index < list.length

/-- What the API has seen of a request and its task. -/
inductive TaskCalls (i : Nat) (request : Q) : BatchTask Q A → List (ApiCall Q A) → Prop where
  | spawned : TaskCalls i request (.spawned request) []
  | running : TaskCalls i request .running [.called i request]
  | finished (result : Except ProtocolError A) : TaskCalls i request
      (.finished (.ok (handleRequest result))) [.called i request, .returned i result]

/-- The invariant of the tasks. -/
inductive Concurrent (list : List Q) : BatchPhase Q A → List (ApiCall Q A) → Prop where
  | tasks {tasks : List (BatchTask Q A)} {calls : List (ApiCall Q A)}
      (hle : tasks.length ≤ list.length) (honly : ∀ c ∈ calls, c.index < tasks.length)
      (hcalls : ∀ i task, tasks[i]? = some task → ∃ request, list[i]? = some request ∧
        TaskCalls i request task (calls.filter (·.index == i))) :
      Concurrent list (.tasks (list.drop tasks.length) tasks) calls
  | responded {out : List (ApiResponse A)} {calls : List (ApiCall Q A)}
      (h : EachOnce list out calls) : Concurrent list (.responded out) calls

theorem joinAll_eq_some {tasks : List (BatchTask Q A)}
    {outcomes : List (Except String (ApiResponse A))} (h : joinAll tasks = some outcomes) :
    tasks = outcomes.map .finished := by
  induction tasks generalizing outcomes with
  | nil =>
      cases h
      rfl
  | cons task tasks ih =>
      rw [joinAll, List.mapM_cons] at h
      cases task with
      | spawned request => cases h
      | running => cases h
      | finished outcome =>
          obtain ⟨_, hfirst, h⟩ := Option.bind_eq_some_iff.mp h
          obtain ⟨rest, hrest, h⟩ := Option.bind_eq_some_iff.mp h
          cases hfirst
          cases h
          rw [List.map_cons, ih hrest]

section Concurrent

variable {list todo : List Q} {tasks : List (BatchTask Q A)} {calls : List (ApiCall Q A)}
  {b b' : Batch Q A} {e : BatchEvent A}

theorem filter_of_only {n : Nat} (honly : ∀ c ∈ calls, c.index < n) :
    calls.filter (·.index == n) = [] := by
  refine List.filter_eq_nil_iff.mpr fun c hc h => ?_
  exact absurd (honly c hc) (by rw [eq_of_beq h]; exact Nat.lt_irrefl n)

/-- A task is started. -/
theorem Concurrent.spawn {request : Q} (h : Concurrent list (.tasks (request :: todo) tasks) calls) :
    Concurrent list (.tasks todo (tasks ++ [.spawned request])) calls := by
  generalize htodo : request :: todo = todo' at h
  cases h with
  | tasks hle honly hcalls =>
      obtain ⟨hdrop, hlt⟩ := drop_succ_of_drop htodo.symm
      have hlen : (tasks ++ [BatchTask.spawned request]).length = tasks.length + 1 := by simp
      rw [← hdrop, ← hlen]
      refine .tasks (hlen ▸ hlt) (fun c hc => ?_) fun i task htask => ?_
      · have := honly c hc
        omega
      · rw [List.getElem?_append] at htask
        split at htask
        · exact hcalls i task htask
        · rename_i hi
          rw [List.getElem?_singleton] at htask
          split at htask
          · cases htask
            have hi : i = tasks.length := by omega
            subst hi
            rw [filter_of_only honly]
            refine ⟨request, ?_, .spawned⟩
            rw [← List.head?_drop, ← htodo]
            rfl
          · cases htask

/-- A task goes on, and the API is called, or returns. -/
theorem Concurrent.act {i : Nat} {task task' : BatchTask Q A} {c : ApiCall Q A}
    (h : Concurrent list (.tasks todo tasks) calls) (htask : tasks[i]? = some task)
    (hindex : c.index = i)
    (hact : ∀ request log, TaskCalls i request task log → TaskCalls i request task' (log ++ [c])) :
    Concurrent list (.tasks todo (tasks.set i task')) (calls ++ [c]) := by
  cases h with
  | tasks hle honly hcalls =>
      have hi : i < tasks.length := (List.getElem?_eq_some_iff.mp htask).1
      have hlen : (tasks.set i task').length = tasks.length := List.length_set
      rw [← hlen]
      refine .tasks (hlen ▸ hle) (fun c' hc' => ?_) fun j t ht => ?_
      · rw [hlen]
        rcases List.mem_append.mp hc' with hc' | hc'
        · exact honly c' hc'
        · rw [List.mem_singleton.mp hc', hindex]
          exact hi
      · rw [List.filter_append]
        by_cases hij : i = j
        · subst hij
          rw [List.getElem?_set_self hi] at ht
          cases ht
          obtain ⟨request, hrequest, hlog⟩ := hcalls i task htask
          refine ⟨request, hrequest, ?_⟩
          have hc : [c].filter (·.index == i) = [c] := by simp [hindex]
          rw [hc]
          exact hact request _ hlog
        · rw [List.getElem?_set_ne hij] at ht
          have hc : [c].filter (·.index == j) = [] := by simp [hindex, hij]
          rw [hc, List.append_nil]
          exact hcalls j t ht

theorem Concurrent.join {outcomes : List (Except String (ApiResponse A))}
    (h : Concurrent list (.tasks [] tasks) calls) (hjoin : joinAll tasks = some outcomes) :
    EachOnce list (outcomes.map joined) calls := by
  have htasks := joinAll_eq_some hjoin
  generalize htodo : ([] : List Q) = todo at h
  cases h with
  | tasks hle honly hcalls =>
      have hlen : tasks.length = list.length :=
        Nat.le_antisymm hle (List.drop_eq_nil_iff.mp htodo.symm)
      have houtcomes : outcomes.length = tasks.length := by rw [htasks, List.length_map]
      refine ⟨?_, fun i request hrequest => ?_, hlen ▸ honly⟩
      · rw [List.length_map, houtcomes, hlen]
      · have hi : i < outcomes.length := by
          rw [houtcomes, hlen]
          exact (List.getElem?_eq_some_iff.mp hrequest).1
        have htask : tasks[i]? = some (.finished outcomes[i]) := by
          rw [htasks, List.getElem?_map, List.getElem?_eq_getElem hi]
          rfl
        obtain ⟨request', hrequest', hlog⟩ := hcalls i _ htask
        rw [hrequest] at hrequest'
        cases hrequest'
        generalize hoc : outcomes[i] = outcome at hlog
        generalize hfilter : calls.filter (·.index == i) = log at hlog ⊢
        cases hlog with
        | finished result =>
            refine ⟨result, rfl, ?_⟩
            rw [List.getElem?_map, List.getElem?_eq_getElem hi, hoc]
            rfl

theorem Concurrent.step (h : Concurrent list b.phase b.calls) (hreturns : e.Returns)
    (hstep : step b e = some b') : Concurrent list b'.phase b'.calls := by
  obtain ⟨phase, calls⟩ := b
  dsimp only at h
  cases phase with
  | sequence => cases h
  | panicked => cases h
  | responded => cases e <;> cases hstep
  | tasks todo tasks =>
      cases e with
      | next =>
          cases todo with
          | nil =>
              obtain ⟨outcomes, hjoin, rfl⟩ := Option.map_eq_some_iff.mp hstep
              exact .responded (h.join hjoin)
          | cons request todo =>
              cases hstep
              exact h.spawn
      | runs i =>
          rw [Batch.step] at hstep
          dsimp only at hstep
          split at hstep
          · rename_i request htask
            cases hstep
            refine h.act htask rfl fun request' log hlog => ?_
            cases hlog
            exact .running
          · cases hstep
      | returns i result =>
          rw [Batch.step] at hstep
          dsimp only at hstep
          split at hstep
          · rename_i htask
            cases hstep
            refine h.act htask rfl fun request log hlog => ?_
            cases hlog
            exact .finished result
          · cases hstep
      | panics i text => cases hreturns

end Concurrent

/-! ## Until the response -/

def Responded (b : Batch Q A) : Prop := ∃ response, b.phase = .responded response

/-- What a task has yet to do. -/
def restOf : BatchTask Q A → Nat
  | .spawned _ => 2
  | .running => 1
  | .finished _ => 0

/-- What a batch has yet to do. -/
def rest (b : Batch Q A) : Nat :=
  match b.phase with
  | .sequence todo _ _ calling => 2 * todo.length + (if calling then 1 else 0) + 1
  | .tasks todo tasks => 3 * todo.length + (tasks.map restOf).sum + 1
  | .responded _ => 0
  | .panicked => 0

theorem sum_restOf_set {tasks : List (BatchTask Q A)} {i : Nat} {task : BatchTask Q A}
    (h : tasks[i]? = some task) (task' : BatchTask Q A) :
    ((tasks.set i task').map restOf).sum + restOf task
      = (tasks.map restOf).sum + restOf task' := by
  induction tasks generalizing i with
  | nil => cases h
  | cons t tasks ih =>
      cases i with
      | zero =>
          cases h
          simp only [List.set_cons_zero, List.map_cons, List.sum_cons]
          omega
      | succ i =>
          have hrest := ih h
          simp only [List.set_cons_succ, List.map_cons, List.sum_cons]
          omega

theorem rest_lt {b b' : Batch Q A} {e : BatchEvent A} (hstep : step b e = some b') :
    b'.rest < b.rest := by
  obtain ⟨phase, calls⟩ := b
  cases phase with
  | responded => cases e <;> cases hstep
  | panicked => cases e <;> cases hstep
  | sequence todo out hasFailed calling =>
      cases e with
      | next =>
          cases calling with
          | true => cases todo <;> cases hstep
          | false =>
              cases todo with
              | nil =>
                  cases hstep
                  exact Nat.succ_pos _
              | cons request todo =>
                  rw [step] at hstep
                  dsimp only at hstep
                  split at hstep <;> cases hstep <;>
                    simp only [rest, List.length_cons, if_true, Bool.false_eq_true, if_false] <;> omega
      | runs i => cases hstep
      | returns i result =>
          cases calling with
          | false => cases hstep
          | true =>
              rw [step] at hstep
              dsimp only at hstep
              split at hstep
              · cases hstep
                simp only [rest, if_true, Bool.false_eq_true, if_false]
                omega
              · cases hstep
      | panics i text =>
          cases calling with
          | false => cases hstep
          | true =>
              cases hstep
              exact Nat.succ_pos _
  | tasks todo tasks =>
      cases e with
      | next =>
          cases todo with
          | nil =>
              obtain ⟨outcomes, hjoin, rfl⟩ := Option.map_eq_some_iff.mp hstep
              exact Nat.succ_pos _
          | cons request todo =>
              cases hstep
              simp only [rest, List.length_cons, List.map_append, List.map_cons, List.map_nil,
                List.sum_append, List.sum_cons, List.sum_nil, restOf]
              omega
      | runs i =>
          rw [step] at hstep
          dsimp only at hstep
          split at hstep
          · rename_i request htask
            cases hstep
            have hsum := sum_restOf_set htask .running
            simp only [rest, restOf] at hsum ⊢
            omega
          · cases hstep
      | returns i result =>
          rw [step] at hstep
          dsimp only at hstep
          split at hstep
          · rename_i htask
            cases hstep
            have hsum := sum_restOf_set htask (.finished (.ok (handleRequest result)))
            simp only [rest, restOf, finish] at hsum ⊢
            omega
          · cases hstep
      | panics i text =>
          rw [step] at hstep
          dsimp only at hstep
          split at hstep
          · rename_i htask
            cases hstep
            have hsum := sum_restOf_set htask (.finished (.error text))
            simp only [rest, restOf, finish] at hsum ⊢
            omega
          · cases hstep

/-- All tasks have finished, or one of them can go on. -/
theorem joinAll_or (tasks : List (BatchTask Q A)) : (∃ outcomes, joinAll tasks = some outcomes) ∨
    ∃ i : Nat, (∃ request, tasks[i]? = some (BatchTask.spawned request)) ∨
      tasks[i]? = some BatchTask.running := by
  induction tasks with
  | nil => exact .inl ⟨[], rfl⟩
  | cons task tasks ih =>
      cases task with
      | spawned request => exact .inr ⟨0, .inl ⟨request, rfl⟩⟩
      | running => exact .inr ⟨0, .inr rfl⟩
      | finished outcome =>
          rcases ih with ⟨outcomes, hjoin⟩ | ⟨i, hi⟩
          · refine .inl ⟨outcome :: outcomes, ?_⟩
            rw [joinAll, List.mapM_cons]
            exact Option.bind_eq_some_iff.mpr ⟨outcome, rfl,
              Option.bind_eq_some_iff.mpr ⟨outcomes, hjoin, rfl⟩⟩
          · exact .inr ⟨i + 1, hi⟩

/-- As long as there is no response, the task of the batch goes on, or a handler does. -/
theorem exists_step {b : Batch Q A} (hb : b.phase ≠ .panicked) (hnot : ¬ b.Responded) :
    ∃ e b', e.Returns ∧ step b e = some b' := by
  obtain ⟨phase, calls⟩ := b
  cases phase with
  | responded out => exact absurd ⟨out, rfl⟩ hnot
  | panicked => exact absurd rfl hb
  | sequence todo out hasFailed calling =>
      cases calling with
      | true =>
          exact ⟨.returns out.length (.error ⟨.other, ""⟩), _, trivial, if_pos rfl⟩
      | false =>
          cases todo with
          | nil => exact ⟨.next, _, trivial, rfl⟩
          | cons request todo =>
              cases hasFailed with
              | true => exact ⟨.next, _, trivial, rfl⟩
              | false => exact ⟨.next, _, trivial, rfl⟩
  | tasks todo tasks =>
      cases todo with
      | cons request todo => exact ⟨.next, _, trivial, rfl⟩
      | nil =>
          rcases joinAll_or tasks with ⟨outcomes, hjoin⟩ | ⟨i, ⟨request, htask⟩ | htask⟩
          · exact ⟨.next, _, trivial, Option.map_eq_some_iff.mpr ⟨outcomes, hjoin, rfl⟩⟩
          · refine ⟨.runs i, ⟨.tasks [] (tasks.set i .running), calls ++ [.called i request]⟩, trivial, ?_⟩
            simp only [step, htask]
          · let e : Except ProtocolError A := .error ⟨.other, ""⟩
            refine ⟨.returns i e, finish ⟨.tasks [] tasks, calls ++ [.returned i e]⟩ [] tasks i
              (.ok (handleRequest e)), trivial, ?_⟩
            simp only [step, htask]

section Start

variable {ν : Type} {header : List (String × Value ν)}

theorem sequential_start (h : isSequence header = true) (list : List Q) :
    Sequential list (start header list : Batch Q A).phase (start header list : Batch Q A).calls := by
  have hgoing : Sequential (A := A) list (.sequence list [] false false) (callsInTurn 0 list []) :=
    @Sequential.going Q A list [] nofun (Nat.zero_le _)
  rw [callsInTurn] at hgoing
  · simpa only [start, h, if_true] using hgoing
  · nofun

theorem concurrent_start (h : isSequence header = false) (list : List Q) :
    Concurrent list (start header list : Batch Q A).phase (start header list : Batch Q A).calls := by
  simp only [start, h, Bool.false_eq_true, if_false]
  exact @Concurrent.tasks Q A list [] [] (Nat.zero_le _) nofun nofun

end Start

/-- The response has as many members as the batch has requests. With `sequence` the handlers are
called in turn until one of them fails, and without it each is called once; either way there is a
response when the handlers return. -/
theorem batch_answered {ν : Type} (header : List (String × Value ν)) (list : List Q) :
    (∀ es (b : Batch Q A) out, (∀ e ∈ es, e.Returns) →
      Machine.run step es (start header list) = some b → b.phase = .responded out →
      out.length = list.length ∧
      (isSequence header = true → ∃ results, InTurn list results out b.calls) ∧
      (isSequence header = false → EachOnce list out b.calls)) ∧
    Machine.Inevitable step BatchEvent.Returns Responded (start header list : Batch Q A) := by
  cases hsequence : isSequence header with
  | true =>
      have hstart := sequential_start (A := A) hsequence list
      constructor
      · intro es b out hes hrun hout
        have hend := Machine.invariant (I := fun b => Sequential list b.phase b.calls)
          (C := fun _ e => e.Returns) (fun s e s' hI hC hs => hI.step hC hs) hstart
          (Machine.meeting_of_mem hes _) hrun
        rw [hout] at hend
        cases hend with
        | responded h =>
            refine ⟨?_, fun _ => ⟨_, h⟩, nofun⟩
            rw [h.out_eq, List.length_append, List.length_map, List.length_replicate]
            exact Nat.add_sub_cancel' h.le
      · refine Machine.inevitable_of_rank (I := fun b => Sequential list b.phase b.calls) rest
          (fun b h hnot => exists_step (fun hp => ?_) hnot)
          (fun b e b' h _ hreturns hstep => .inr ⟨h.step hreturns hstep, rest_lt hstep⟩) hstart
        rw [hp] at h
        cases h
  | false =>
      have hstart := concurrent_start (A := A) hsequence list
      constructor
      · intro es b out hes hrun hout
        have hend := Machine.invariant (I := fun b => Concurrent list b.phase b.calls)
          (C := fun _ e => e.Returns) (fun s e s' hI hC hs => hI.step hC hs) hstart
          (Machine.meeting_of_mem hes _) hrun
        rw [hout] at hend
        cases hend with
        | responded h => exact ⟨h.length_eq, nofun, fun _ => h⟩
      · refine Machine.inevitable_of_rank (I := fun b => Concurrent list b.phase b.calls) rest
          (fun b h hnot => exists_step (fun hp => ?_) hnot)
          (fun b e b' h _ hreturns hstep => .inr ⟨h.step hreturns hstep, rest_lt hstep⟩) hstart
        rw [hp] at h
        cases h

def sequenceHeader : List (String × Value Nat) := [("sequence", .bool true)]

/-- The second of three requests fails. -/
def failsSecond : List (BatchEvent Nat) :=
  [.next, .returns 0 (.ok 10), .next, .returns 1 (.error ⟨.notFound, "gone"⟩), .next, .next]

theorem batch_answered_failsSecond : ∃ b : Batch Nat Nat,
    Machine.run step failsSecond (start sequenceHeader [1, 2, 3]) = some b ∧
    b.phase = .responded [.answer 10, .error ⟨.notFound, "gone"⟩, interrupted] ∧
    ∃ results, InTurn [1, 2, 3] results
      [.answer 10, .error ⟨.notFound, "gone"⟩, interrupted] b.calls := by
  refine ⟨_, rfl, rfl, ?_⟩
  have hreturns : ∀ e ∈ failsSecond, e.Returns := by
    intro e he
    simp only [failsSecond, List.mem_cons, List.not_mem_nil, or_false] at he
    rcases he with rfl | rfl | rfl | rfl | rfl | rfl <;> trivial
  exact ((batch_answered sequenceHeader [1, 2, 3]).1 failsSecond _ _ hreturns rfl rfl).2.1 rfl

end Batch

end Distant
