import Mathlib.Algebra.Order.Group.Multiset
import Mathlib.Tactic.Abel
import DecentralizedCloud.Lib.Heap
import DecentralizedCloud.Lib.Trace
import DecentralizedCloud.Common.Fields

/-!
# The queue of state changes under one key

`onStateChange` pushes commands into the queue of their key and starts the
worker `processStateUpdates` when the key has no queue. The worker copies the
top of the queue under the mutex, executes the copy with the mutex released,
and then pops whatever is on top by then. The machine below has these atomic
steps, together with the worker's exit after two idle seconds.

The queue is a binary heap ordered by timestamp. A command that is pushed
between the copy and the pop, with an earlier timestamp than the copied one,
becomes the new top: it is popped without having been executed, and the copied
command is executed again. When no such push occurs (`KeepsTop`), the worker
executes every command exactly once.
-/

namespace DecentralizedCloud.StateQueue

open Machine

/-- A queued command: the fields of its message, its timestamp and its words. -/
structure CommandInfo where
  fields : FieldValueMap
  timestamp : Int
  command : List String
deriving DecidableEq, Repr

/-- The order of the queue: a later command has lower priority. -/
def orderByTimeStamp (a b : CommandInfo) : Bool := decide (a.timestamp > b.timestamp)

abbrev OrderedPriorityQueue := Array CommandInfo

/-- Where the worker of the key is. -/
inductive Worker where
  /-- no worker runs and the key has no queue -/
  | stopped
  /-- at the head of its loop -/
  | ready
  /-- holds a copy of the top, not yet executed -/
  | copied (top : CommandInfo)
  /-- has executed its copy and is about to pop -/
  | executed (top : CommandInfo)
deriving DecidableEq, Repr

/-- The state of one key. `executed` records the commands in the order in
which the worker handed them to `executeStateChangeCommand`. -/
structure St where
  queue : OrderedPriorityQueue := #[]
  worker : Worker := .stopped
  executed : List CommandInfo := []
deriving DecidableEq, Repr

/-- The atomic steps. -/
inductive Event where
  | push (c : CommandInfo)
  | copyTop
  | execute
  | pop
  | exit
deriving DecidableEq, Repr

/-- The step function of the key. -/
def step (s : St) : Event → Option St
  | .push c =>
      match s.worker with
      | .stopped => some { s with queue := Heap.push orderByTimeStamp #[] c, worker := .ready }
      | _ => some { s with queue := Heap.push orderByTimeStamp s.queue c }
  | .copyTop =>
      match s.worker, Heap.top s.queue with
      | .ready, some c => some { s with worker := .copied c }
      | _, _ => none
  | .execute =>
      match s.worker with
      | .copied c => some { s with worker := .executed c, executed := s.executed ++ [c] }
      | _ => none
  | .pop =>
      match s.worker with
      | .executed _ => some { s with queue := Heap.pop orderByTimeStamp s.queue, worker := .ready }
      | _ => none
  | .exit =>
      match s.worker, Heap.top s.queue with
      | .ready, none => some { s with queue := #[], worker := .stopped }
      | _, _ => none

/-- The commands that a history pushed. -/
def pushes (es : List Event) : List CommandInfo :=
  es.filterMap fun
    | .push c => some c
    | _ => none

@[simp] theorem pushes_push (es : List Event) (c : CommandInfo) :
    pushes (es ++ [.push c]) = pushes es ++ [c] := by
  simp [pushes]

@[simp] theorem pushes_copyTop (es : List Event) : pushes (es ++ [.copyTop]) = pushes es := by
  simp [pushes]

@[simp] theorem pushes_execute (es : List Event) : pushes (es ++ [.execute]) = pushes es := by
  simp [pushes]

@[simp] theorem pushes_pop (es : List Event) : pushes (es ++ [.pop]) = pushes es := by
  simp [pushes]

@[simp] theorem pushes_exit (es : List Event) : pushes (es ++ [.exit]) = pushes es := by
  simp [pushes]

/-- The queue is drained: nothing is queued and the worker is not in the
middle of a command. -/
def Drained (s : St) : Prop :=
  Heap.top s.queue = none ∧ (s.worker = .ready ∨ s.worker = .stopped)

/-- The copy of the top that the worker works on. -/
def Worker.current : Worker → Option CommandInfo
  | .copied c | .executed c => some c
  | _ => none

/-- No command with an earlier timestamp than the one the worker works on is pushed. -/
def KeepsTop (s : St) : Event → Prop
  | .push c => ∀ t ∈ s.worker.current, t.timestamp ≤ c.timestamp
  | _ => True

instance (s : St) (e : Event) : Decidable (KeepsTop s e) := by
  cases e <;> unfold KeepsTop <;> infer_instance

/-! ## The invariant -/

/-- The command that is executed but still queued. -/
def owed : Worker → Multiset CommandInfo
  | .executed c => {c}
  | _ => 0

/-- Every pushed command is executed or queued, once, the executed but not yet
popped one counting twice; the worker's copy is the top of the queue; a key
without a worker has no queue. -/
structure Inv (es : List Event) (s : St) : Prop where
  conserved : (pushes es : Multiset CommandInfo) + owed s.worker =
    (s.executed : Multiset CommandInfo) + Heap.elems s.queue
  current : ∀ c, s.worker.current = some c → Heap.top s.queue = some c
  stopped : s.worker = .stopped → s.queue = #[]

theorem inv_init : Inv [] {} where
  conserved := by simp [pushes, owed, Heap.elems]
  current := by simp [Worker.current]
  stopped := by simp

/-- A push under `KeepsTop` into the queue of a running worker leaves the
worker's copy on top. -/
theorem inv_push {es : List Event} {s : St} {c : CommandInfo} (hinv : Inv es s)
    (hkeeps : KeepsTop s (.push c)) (hw : s.worker ≠ .stopped) :
    Inv (es ++ [.push c]) { s with queue := Heap.push orderByTimeStamp s.queue c } where
  conserved := by
    have hold := hinv.conserved
    simp only [pushes_push, ← Multiset.coe_add, Multiset.coe_singleton, Heap.elems_push,
      ← Multiset.singleton_add]
    rw [add_right_comm, hold]
    abel
  current := by
    intro t ht
    exact Heap.top_push orderByTimeStamp (hinv.current t ht)
      (by simpa [orderByTimeStamp] using hkeeps t ht)
  stopped := fun h => absurd h hw

/-- The first push under a key creates its queue and its worker. -/
theorem inv_push_stopped {es : List Event} {s : St} {c : CommandInfo} (hinv : Inv es s)
    (hw : s.worker = .stopped) :
    Inv (es ++ [.push c])
      { s with queue := Heap.push orderByTimeStamp #[] c, worker := .ready } where
  conserved := by
    have hold := hinv.conserved
    rw [hw, hinv.stopped hw] at hold
    have hempty : Heap.elems (#[] : OrderedPriorityQueue) = 0 := rfl
    simp only [owed, add_zero, hempty] at hold
    simp only [pushes_push, ← Multiset.coe_add, Multiset.coe_singleton, Heap.elems_push, hold,
      owed, add_zero, hempty]
    rfl
  current := by simp [Worker.current]
  stopped := by simp

/-- Every step that keeps the top keeps the invariant. -/
theorem inv_step (es : List Event) (s : St) (e : Event) (s' : St) (hinv : Inv es s)
    (hkeeps : KeepsTop s e) (hstep : step s e = some s') : Inv (es ++ [e]) s' := by
  have hold := hinv.conserved
  cases e with
  | push c =>
      cases hworker : s.worker with
      | stopped =>
          -- the key has no queue yet
          simp only [step, hworker, Option.some.injEq] at hstep
          subst hstep
          exact inv_push_stopped hinv hworker
      | ready | copied | executed =>
          simp only [step, hworker, Option.some.injEq] at hstep
          subst hstep
          simpa [hworker] using inv_push hinv hkeeps (by simp [hworker])
  | copyTop =>
      simp only [step] at hstep
      split at hstep
      case h_1 c hworker htop =>
          cases hstep
          refine ⟨?_, by simpa [Worker.current] using htop, by simp⟩
          simpa [owed, hworker] using hold
      case h_2 => cases hstep
  | execute =>
      simp only [step] at hstep
      split at hstep
      case h_1 c hworker =>
          cases hstep
          have htop : Heap.top s.queue = some c :=
            hinv.current c (by simp [hworker, Worker.current])
          refine ⟨?_, by simpa [Worker.current] using htop, by simp⟩
          -- the command is executed while it is still queued
          simp only [owed, hworker, add_zero] at hold
          simp only [pushes_execute, owed, hold, ← Multiset.coe_add, Multiset.coe_singleton]
          abel
      case h_2 => cases hstep
  | pop =>
      simp only [step] at hstep
      split at hstep
      case h_1 c hworker =>
          cases hstep
          have htop : Heap.top s.queue = some c :=
            hinv.current c (by simp [hworker, Worker.current])
          refine ⟨?_, by simp [Worker.current], by simp⟩
          -- what is popped is the executed command
          simp only [owed, hworker, ← Heap.elems_pop orderByTimeStamp htop,
            ← Multiset.singleton_add] at hold
          have hcancel : (pushes es : Multiset CommandInfo) + {c} =
              s.executed + Heap.elems (Heap.pop orderByTimeStamp s.queue) + {c} := by
            rw [hold]
            abel
          simpa [owed] using add_right_cancel hcancel
      case h_2 => cases hstep
  | exit =>
      simp only [step] at hstep
      split at hstep
      case h_1 hworker htop =>
          cases hstep
          refine ⟨?_, by simp [Worker.current], by simp⟩
          have hempty : Heap.elems (#[] : OrderedPriorityQueue) = 0 := rfl
          simpa only [pushes_exit, owed, hworker, Heap.elems_eq_zero_iff.mpr htop, hempty]
            using hold
      case h_2 => cases hstep

/-- The invariant holds in every state reached by steps that keep the top. -/
theorem inv_run {es : List Event} {s : St} (h : Trace step KeepsTop {} es s) : Inv es s :=
  h.invariant Inv inv_init inv_step

/-! ## Exactly-once execution -/

/-- When no push overtakes the command the worker is busy with, a drained
queue has executed exactly the pushed commands, each as often as it was
pushed. -/
theorem executed_eq_pushed {es : List Event} {s : St} (h : Trace step KeepsTop {} es s)
    (hdrained : Drained s) :
    (s.executed : Multiset CommandInfo) = (pushes es : Multiset CommandInfo) := by
  rcases hdrained with ⟨htop, hworker⟩
  have hinv := (inv_run h).conserved
  have howed : owed s.worker = 0 := by
    rcases hworker with hw | hw <;> rw [hw] <;> rfl
  rw [howed, Heap.elems_eq_zero_iff.mpr htop, add_zero, add_zero] at hinv
  exact hinv.symm

/-- Three commands of one queue, the second one stamped earlier than the first and the
third one later. -/
def late : CommandInfo := { fields := [("txid", "a")], timestamp := 5, command := ["3", "e30="] }
def early : CommandInfo := { fields := [("txid", "b")], timestamp := 3, command := ["3", "e30="] }
def later : CommandInfo := { fields := [("txid", "c")], timestamp := 7, command := ["3", "e30="] }

/-- A schedule without overtaking: `later` is pushed while the worker executes its copy
of `late`, which stays on top. -/
def inTurn : List Event :=
  [.push late, .copyTop, .push later, .execute, .pop, .copyTop, .execute, .pop]

/-- The overtaking schedule: `early` is pushed while the worker executes its
copy of `late`. -/
def overtaking : List Event :=
  [.push late, .copyTop, .push early, .execute, .pop, .copyTop, .execute, .pop]

theorem executed_eq_pushed_overtaking_free :
    Trace step KeepsTop {} inTurn { queue := #[], worker := .ready, executed := [late, later] } ∧
      (([late, later] : List CommandInfo) : Multiset CommandInfo) =
        (pushes inTurn : Multiset CommandInfo) := by
  have htrace : Trace step KeepsTop {} inTurn
      { queue := #[], worker := .ready, executed := [late, later] } := trace_of_exec (by decide)
  exact ⟨htrace, executed_eq_pushed htrace ⟨rfl, .inl rfl⟩⟩

/-- Under the overtaking schedule the queue drains with `late` executed twice
and `early` never. -/
theorem overtaking_executes_twice :
    ∃ s, Run step {} overtaking s ∧ Drained s ∧ s.executed = [late, late] ∧
      (s.executed : Multiset CommandInfo) ≠ (pushes overtaking : Multiset CommandInfo) := by
  refine ⟨{ queue := #[], worker := .ready, executed := [late, late] }, trace_of_exec (by decide),
    ⟨rfl, .inl rfl⟩, rfl, ?_⟩
  decide

end DecentralizedCloud.StateQueue
