import DecentralizedCloud.Common.Message
import DecentralizedCloud.Lib.PriorityQueue
import DecentralizedCloud.Storage.Commands

/-!
# The queues of state changes and their workers

`onStateChange` pushes each command of a message into the queue of its key, and
where the map has no queue for the key it makes one, together with a thread that
runs `processStateUpdates`. A worker finds its queue through the map once, takes
the top, executes it with the mutex released, pops, and starts over; it erases its
key and exits when it finds the queue empty after two idle seconds.

In the machine below a queue has an address and a thread a number, and nothing in
a step keeps a second worker from serving a key, or a worker from serving a queue
that the map has forgotten. The invariant shows that neither happens (`Inv`).
-/

namespace DecentralizedCloud.Storage

open StateQueue (CommandInfo orderByTimeStamp)

/-- The commands that `onStateChange` pushes, in order. Without one of the fields, or a
time that can be read, there are none; the first command without a key ends the loop. -/
def onStateChange (theFields : FieldValueMap) : List CommandInfo :=
  let commands := do
    let _ ← theFields.at? "tid"
    let cmds ← theFields.at? "cmds"
    let _ ← theFields.at? "txid"
    let _ ← theFields.at? "ws"
    let _ ← theFields.at? "k"
    let time ← theFields.at? "tm"
    let tm ← stoll time
    let fields := theFields.filter fun (kv : String × String) => kv.1 ≠ "cmds"
    return (split ',' cmds).map fun val => CommandInfo.mk fields tm (split ' ' val)
  (commands.getD []).takeWhile fun c => (queueKey c).isSome

namespace StateChangeQueues

open Machine PriorityQueue

/-! ## The machine -/

abbrev OrderedPriorityQueue := Queue orderByTimeStamp

/-- Where a worker is; it knows the address of its queue. -/
inductive Phase where
  /-- has not looked up its queue yet -/
  | starting
  /-- at the head of its loop -/
  | ready (queue : Nat)
  /-- executes its copy of the top -/
  | executing (queue : Nat) (top : CommandInfo)
  /-- is about to pop -/
  | executed (queue : Nat) (top : CommandInfo)
  | exited
deriving DecidableEq, Repr

/-- The address of the queue that a worker serves. -/
def Phase.queue : Phase → Option Nat
  | .ready a | .executing a _ | .executed a _ => some a
  | .starting | .exited => none

structure Worker where
  key : String
  phase : Phase
deriving DecidableEq, Repr

/-- `calls` has what the running calls of `onStateChange` have yet to push. A queue and
its thread are made in one step, the `created`-th ones. -/
structure St where
  calls : List (List CommandInfo) := []
  stateChangeQueueMap : String → Option Nat := fun _ => none
  queues : Nat → OrderedPriorityQueue := fun _ => .empty
  workers : Nat → Option Worker := fun _ => none
  created : Nat := 0

/-- The atomic steps: a call begins, a call pushes its next command, and the steps of the
worker `w`. A push and a pop name the queue that comes out, as its next top is open. -/
inductive Event where
  | onStateChange (theFields : FieldValueMap)
  | push (call : Nat) (c : CommandInfo) (queue : OrderedPriorityQueue)
  | start (w : Nat)
  | take (w : Nat) (c : CommandInfo)
  | execute (w : Nat) (c : CommandInfo)
  | pop (w : Nat) (c : CommandInfo) (queue : OrderedPriorityQueue)
  | exit (w : Nat)

def St.setWorker (s : St) (w : Nat) (key : String) (phase : Phase) : St :=
  { s with workers := Function.update s.workers w (some { key, phase }) }

def St.setQueue (s : St) (a : Nat) (queue : OrderedPriorityQueue) : St :=
  { s with queues := Function.update s.queues a queue }

/-- A new queue under a key, and the thread for it. -/
def St.make (s : St) (key : String) (queue : OrderedPriorityQueue) : St :=
  { s with
    queues := Function.update s.queues s.created queue
    stateChangeQueueMap := Function.update s.stateChangeQueueMap key (some s.created)
    workers := Function.update s.workers s.created (some { key, phase := .starting })
    created := s.created + 1 }

/-- The worker `w` erases its key and exits. -/
def St.retire (s : St) (w : Nat) (key : String) : St :=
  { s.setWorker w key .exited with
    stateChangeQueueMap := Function.update s.stateChangeQueueMap key none }

/-- The section of `onStateChange` under the mutex. -/
def pushUnder (s : St) (key : String) (c : CommandInfo) (queue : OrderedPriorityQueue) :
    Option St :=
  match s.stateChangeQueueMap key with
  | some a =>
      if queue.elems = c ::ₘ (s.queues a).elems then some (s.setQueue a queue) else none
  | none =>
      if queue.elems = {c} then some (s.make key queue) else none

def step : Step St Event := fun s e =>
  match e with
  | .onStateChange theFields => some { s with calls := s.calls ++ [onStateChange theFields] }
  | .push call c queue =>
      match s.calls[call]?, queueKey c with
      | some (c' :: rest), some key =>
          if c' = c then pushUnder { s with calls := s.calls.set call rest } key c queue else none
      | _, _ => none
  | .start w =>
      match s.workers w with
      | some ⟨key, .starting⟩ => (s.stateChangeQueueMap key).map fun a => s.setWorker w key (.ready a)
      | _ => none
  | .take w c =>
      match s.workers w with
      | some ⟨key, .ready a⟩ =>
          if (s.queues a).top = some c then some (s.setWorker w key (.executing a c)) else none
      | _ => none
  | .execute w c =>
      match s.workers w with
      | some ⟨key, .executing a c'⟩ =>
          if c' = c then some (s.setWorker w key (.executed a c)) else none
      | _ => none
  | .pop w c queue =>
      match s.workers w with
      | some ⟨key, .executed a _⟩ =>
          if (s.queues a).top = some c ∧ queue.elems = (s.queues a).elems.erase c then
            some ((s.setQueue a queue).setWorker w key (.ready a))
          else none
      | _ => none
  | .exit w =>
      match s.workers w with
      | some ⟨key, .ready a⟩ =>
          if (s.queues a).elems = 0 then some (s.retire w key) else none
      | _ => none

/-- What a step can do. -/
inductive Moves (s : St) : Event → St → Prop where
  | received {theFields : FieldValueMap} :
      Moves s (.onStateChange theFields) { s with calls := s.calls ++ [onStateChange theFields] }
  | pushed {call a : Nat} {c : CommandInfo} {queue : OrderedPriorityQueue} {key : String}
      {calls : List (List CommandInfo)} (hkey : queueKey c = some key)
      (hmap : s.stateChangeQueueMap key = some a)
      (hqueue : queue.elems = c ::ₘ (s.queues a).elems) :
      Moves s (.push call c queue) ({ s with calls := calls }.setQueue a queue)
  | made {call : Nat} {c : CommandInfo} {queue : OrderedPriorityQueue} {key : String}
      {calls : List (List CommandInfo)} (hkey : queueKey c = some key)
      (hmap : s.stateChangeQueueMap key = none) (hqueue : queue.elems = {c}) :
      Moves s (.push call c queue) ({ s with calls := calls }.make key queue)
  | started {w a : Nat} {key : String} (hw : s.workers w = some ⟨key, .starting⟩)
      (hmap : s.stateChangeQueueMap key = some a) :
      Moves s (.start w) (s.setWorker w key (.ready a))
  | taken {w a : Nat} {key : String} {c : CommandInfo} (hw : s.workers w = some ⟨key, .ready a⟩)
      (htop : (s.queues a).top = some c) :
      Moves s (.take w c) (s.setWorker w key (.executing a c))
  | executed {w a : Nat} {key : String} {c : CommandInfo}
      (hw : s.workers w = some ⟨key, .executing a c⟩) :
      Moves s (.execute w c) (s.setWorker w key (.executed a c))
  | popped {w a : Nat} {key : String} {c c' : CommandInfo} {queue : OrderedPriorityQueue}
      (hw : s.workers w = some ⟨key, .executed a c'⟩) (htop : (s.queues a).top = some c)
      (hqueue : queue.elems = (s.queues a).elems.erase c) :
      Moves s (.pop w c queue) ((s.setQueue a queue).setWorker w key (.ready a))
  | exited {w a : Nat} {key : String} (hw : s.workers w = some ⟨key, .ready a⟩)
      (hempty : (s.queues a).elems = 0) :
      Moves s (.exit w) (s.retire w key)

variable {s s' : St} {es : List Event}

/-- What a step can do. -/
theorem moves_of_step {e : Event} (h : step s e = some s') : Moves s e s' := by
  cases e with
  | onStateChange theFields =>
      cases h
      exact .received
  | push call c queue =>
      simp only [step] at h
      split at h
      case h_1 c' rest key hcall hkey =>
          split at h
          case isTrue heq =>
              unfold pushUnder at h
              split at h
              -- the key has a queue
              case h_1 a hmap =>
                  split at h
                  case isTrue hqueue =>
                      cases h
                      exact .pushed hkey hmap hqueue
                  case isFalse => cases h
              -- the key is new
              case h_2 hmap =>
                  split at h
                  case isTrue hqueue =>
                      cases h
                      exact .made hkey hmap hqueue
                  case isFalse => cases h
          case isFalse => cases h
      case h_2 => cases h
  | start w =>
      simp only [step] at h
      split at h
      case h_1 key hw =>
          rcases Option.map_eq_some_iff.mp h with ⟨a, hmap, rfl⟩
          exact .started hw hmap
      case h_2 => cases h
  | take w c =>
      simp only [step] at h
      split at h
      case h_1 key a hw =>
          split at h
          case isTrue htop =>
              cases h
              exact .taken hw htop
          case isFalse => cases h
      case h_2 => cases h
  | execute w c =>
      simp only [step] at h
      split at h
      case h_1 key a c' hw =>
          split at h
          case isTrue heq =>
              cases h
              subst heq
              exact .executed hw
          case isFalse => cases h
      case h_2 => cases h
  | pop w c queue =>
      simp only [step] at h
      split at h
      case h_1 key a c' hw =>
          split at h
          case isTrue hqueue =>
              cases h
              exact .popped hw hqueue.1 hqueue.2
          case isFalse => cases h
      case h_2 => cases h
  | exit w =>
      simp only [step] at h
      split at h
      case h_1 key a hw =>
          split at h
          case isTrue hempty =>
              cases h
              exact .exited hw hempty
          case isFalse => cases h
      case h_2 => cases h

/-! ## One worker for every queue -/

/-- The worker `w` serves the key and has not exited. -/
def Live (s : St) (w : Nat) (key : String) : Prop :=
  ∃ phase, s.workers w = some ⟨key, phase⟩ ∧ phase ≠ .exited

/-- Every queue of the map has a worker, every live worker serves the queue that the map
has under its key, and no two of them serve one key or one queue. -/
structure Attached (s : St) : Prop where
  served : ∀ key a, s.stateChangeQueueMap key = some a → a < s.created ∧ ∃ w, Live s w key
  live : ∀ w key phase, s.workers w = some ⟨key, phase⟩ → w < s.created ∧
    (phase ≠ .exited → ∃ a, s.stateChangeQueueMap key = some a ∧ ∀ a' ∈ phase.queue, a' = a)
  unique : ∀ w w' key, Live s w key → Live s w' key → w = w'
  apart : ∀ key key' a, s.stateChangeQueueMap key = some a →
    s.stateChangeQueueMap key' = some a → key = key'

section Attach

variable {w a : Nat} {key : String} {phase phase' : Phase}

theorem attached_init : Attached {} where
  served := by simp
  live := by simp
  unique := by simp [Live]
  apart := by simp

/-- A live worker that moves on and stays alive is the same worker to everyone. -/
theorem live_setWorker (hw : s.workers w = some ⟨key, phase⟩) (hphase : phase ≠ .exited)
    (hphase' : phase' ≠ .exited) (w' : Nat) (key' : String) :
    Live (s.setWorker w key phase') w' key' ↔ Live s w' key' := by
  unfold Live St.setWorker
  by_cases hww : w' = w
  · subst hww
    simp only [Function.update_self, hw, Option.some.injEq, Worker.mk.injEq]
    constructor
    · rintro ⟨-, ⟨rfl, -⟩, -⟩
      exact ⟨phase, ⟨rfl, rfl⟩, hphase⟩
    · rintro ⟨-, ⟨rfl, -⟩, -⟩
      exact ⟨phase', ⟨rfl, rfl⟩, hphase'⟩
  · simp [Function.update_of_ne hww]

/-- A worker that goes on serves the queue of its key. -/
theorem Attached.setWorker (h : Attached s) (hw : s.workers w = some ⟨key, phase⟩)
    (hphase : phase ≠ .exited) (hphase' : phase' ≠ .exited)
    (hqueue : ∀ a ∈ phase'.queue, s.stateChangeQueueMap key = some a) :
    Attached (s.setWorker w key phase') where
  served := by
    intro key' a hmap
    rcases h.served key' a hmap with ⟨hlt, w', hlive⟩
    exact ⟨hlt, w', (live_setWorker hw hphase hphase' w' key').mpr hlive⟩
  live := by
    intro w' key' phase'' hw'
    -- the worker itself, and then the others
    by_cases hww : w' = w
    · subst hww
      simp only [St.setWorker, Function.update_self, Option.some.injEq, Worker.mk.injEq] at hw'
      rcases hw' with ⟨rfl, rfl⟩
      rcases h.live w' key phase hw with ⟨hlt, hmapped⟩
      rcases hmapped hphase with ⟨a, hmap, -⟩
      refine ⟨hlt, fun _ => ⟨a, hmap, ?_⟩⟩
      intro a' ha'
      exact Option.some.inj ((hqueue a' ha').symm.trans hmap)
    · simp only [St.setWorker, Function.update_of_ne hww] at hw'
      exact h.live w' key' phase'' hw'
  unique := by
    intro w₁ w₂ key' h₁ h₂
    rw [live_setWorker hw hphase hphase'] at h₁ h₂
    exact h.unique w₁ w₂ key' h₁ h₂
  apart := h.apart

/-- The new worker is the one of the new key. -/
theorem live_make (h : Attached s) (queue : OrderedPriorityQueue) (w : Nat) (key' : String) :
    Live (s.make key queue) w key' ↔ Live s w key' ∨ w = s.created ∧ key' = key := by
  unfold Live St.make
  by_cases hw : w = s.created
  · subst hw
    have hfresh : ∀ phase, s.workers s.created ≠ some ⟨key', phase⟩ := by
      intro phase hphase
      have hlt := (h.live s.created key' phase hphase).1
      omega
    simp only [Function.update_self, Option.some.injEq, Worker.mk.injEq, hfresh, false_and,
      exists_false, false_or, true_and]
    constructor
    · rintro ⟨-, ⟨rfl, -⟩, -⟩
      rfl
    · rintro rfl
      exact ⟨.starting, ⟨rfl, rfl⟩, by simp⟩
  · simp [hw]

/-- Nobody serves a key that has no queue. -/
theorem Attached.not_live (h : Attached s) (hmap : s.stateChangeQueueMap key = none) (w : Nat) :
    ¬ Live s w key := by
  rintro ⟨phase, hw, hphase⟩
  rcases (h.live w key phase hw).2 hphase with ⟨a, ha, -⟩
  rw [hmap] at ha
  cases ha

/-- A new key gets a queue and a worker of its own. -/
theorem Attached.make (h : Attached s) (hmap : s.stateChangeQueueMap key = none)
    (queue : OrderedPriorityQueue) : Attached (s.make key queue) where
  served := by
    intro key' a ha
    by_cases hkey : key' = key
    · subst hkey
      simp only [St.make, Function.update_self, Option.some.injEq] at ha
      refine ⟨?_, s.created, (live_make h queue _ _).mpr (.inr ⟨rfl, rfl⟩)⟩
      show a < s.created + 1
      omega
    · simp only [St.make, Function.update_of_ne hkey] at ha
      rcases h.served key' a ha with ⟨hlt, w', hlive⟩
      refine ⟨?_, w', (live_make h queue _ _).mpr (.inl hlive)⟩
      show a < s.created + 1
      omega
  live := by
    intro w' key' phase hw'
    show w' < s.created + 1 ∧ _
    by_cases hww : w' = s.created
    · subst hww
      simp only [St.make, Function.update_self, Option.some.injEq, Worker.mk.injEq] at hw'
      rcases hw' with ⟨rfl, rfl⟩
      exact ⟨by omega, fun _ => ⟨s.created, by simp [St.make], by simp [Phase.queue]⟩⟩
    · simp only [St.make, Function.update_of_ne hww] at hw'
      rcases h.live w' key' phase hw' with ⟨hlt, hmapped⟩
      refine ⟨by omega, fun hphase => ?_⟩
      rcases hmapped hphase with ⟨a, ha, hqueue⟩
      have hkey : key' ≠ key := by
        rintro rfl
        exact h.not_live hmap w' ⟨phase, hw', hphase⟩
      exact ⟨a, by simpa [St.make, Function.update_of_ne hkey] using ha, hqueue⟩
  unique := by
    intro w₁ w₂ key' h₁ h₂
    rcases (live_make h queue _ _).mp h₁ with hold₁ | ⟨rfl, rfl⟩ <;>
      rcases (live_make h queue _ _).mp h₂ with hold₂ | ⟨rfl, hkey⟩
    · exact h.unique w₁ w₂ key' hold₁ hold₂
    · subst hkey
      exact absurd hold₁ (h.not_live hmap w₁)
    · exact absurd hold₂ (h.not_live hmap w₂)
    · rfl
  apart := by
    intro key₁ key₂ a h₁ h₂
    -- the new address has not been given away before
    have hfresh : ∀ key', s.stateChangeQueueMap key' ≠ some s.created := by
      intro key' ha
      have hbound := (h.served key' _ ha).1
      omega
    simp only [St.make, Function.update_apply] at h₁ h₂
    split at h₁ <;> split at h₂
    · rename_i hk₁ hk₂
      rw [hk₁, hk₂]
    · cases h₁
      exact absurd h₂ (hfresh key₂)
    · cases h₂
      exact absurd h₁ (hfresh key₁)
    · exact h.apart key₁ key₂ a h₁ h₂

/-- The worker that retires was the only one of its key. -/
theorem live_retire (h : Attached s) (hlive : Live s w key) (w' : Nat) (key' : String) :
    Live (s.retire w key) w' key' ↔ Live s w' key' ∧ key' ≠ key := by
  rcases hlive with ⟨phase, hw, hphase⟩
  by_cases hww : w' = w
  · subst hww
    constructor
    · rintro ⟨phase', hw', hphase'⟩
      simp only [St.retire, St.setWorker, Function.update_self, Option.some.injEq,
        Worker.mk.injEq] at hw'
      exact absurd hw'.2.symm hphase'
    · rintro ⟨⟨phase', hw', -⟩, hkey⟩
      rw [hw] at hw'
      cases hw'
      exact absurd rfl hkey
  · constructor
    · rintro ⟨phase', hw', hphase'⟩
      simp only [St.retire, St.setWorker, Function.update_of_ne hww] at hw'
      refine ⟨⟨phase', hw', hphase'⟩, ?_⟩
      rintro rfl
      exact hww (h.unique w' w key' ⟨phase', hw', hphase'⟩ ⟨phase, hw, hphase⟩)
    · rintro ⟨⟨phase', hw', hphase'⟩, -⟩
      exact ⟨phase', by simpa [St.retire, St.setWorker, Function.update_of_ne hww] using hw',
        hphase'⟩

/-- The worker of a key takes it along when it leaves. -/
theorem Attached.retire (h : Attached s) (hlive : Live s w key) : Attached (s.retire w key) where
  served := by
    intro key' a ha
    -- the key of the worker has no queue any more
    by_cases hkey : key' = key
    · simp [St.retire, hkey] at ha
    · simp only [St.retire, Function.update_of_ne hkey] at ha
      rcases h.served key' a ha with ⟨hlt, w', hlive'⟩
      exact ⟨hlt, w', (live_retire h hlive w' key').mpr ⟨hlive', hkey⟩⟩
  live := by
    intro w' key' phase hw'
    -- the worker itself has exited
    by_cases hww : w' = w
    · subst hww
      rcases hlive with ⟨phase', hw, -⟩
      simp only [St.retire, St.setWorker, Function.update_self, Option.some.injEq,
        Worker.mk.injEq] at hw'
      exact ⟨(h.live w' key phase' hw).1, fun hphase => absurd hw'.2.symm hphase⟩
    -- a queue that is left was there before
    · have hold : s.workers w' = some ⟨key', phase⟩ := by
        simpa [St.retire, St.setWorker, Function.update_of_ne hww] using hw'
      rcases h.live w' key' phase hold with ⟨hlt, hmapped⟩
      refine ⟨hlt, fun hphase => ?_⟩
      rcases hmapped hphase with ⟨a, ha, hqueue⟩
      have hkey : key' ≠ key := ((live_retire h hlive w' key').mp ⟨phase, hw', hphase⟩).2
      exact ⟨a, by simpa [St.retire, Function.update_of_ne hkey] using ha, hqueue⟩
  unique := by
    intro w₁ w₂ key' h₁ h₂
    exact h.unique w₁ w₂ key' ((live_retire h hlive w₁ key').mp h₁).1
      ((live_retire h hlive w₂ key').mp h₂).1
  apart := by
    intro key₁ key₂ a h₁ h₂
    have hold : ∀ key', (s.retire w key).stateChangeQueueMap key' = some a →
        s.stateChangeQueueMap key' = some a := by
      intro key' ha
      by_cases hkey : key' = key
      · simp [St.retire, hkey] at ha
      · simpa [St.retire, Function.update_of_ne hkey] using ha
    exact h.apart key₁ key₂ a (hold key₁ h₁) (hold key₂ h₂)

end Attach

/-! ## No command is lost -/

/-- The commands under a key that a history has pushed, and those that it has popped. -/
def pushedUnder (es : List Event) (key : String) : List CommandInfo :=
  es.filterMap fun
    | .push _ c _ => if queueKey c = some key then some c else none
    | _ => none

def poppedUnder (es : List Event) (key : String) : List CommandInfo :=
  es.filterMap fun
    | .pop _ c _ => if queueKey c = some key then some c else none
    | _ => none

theorem pushedUnder_append (es es' : List Event) (key : String) :
    pushedUnder (es ++ es') key = pushedUnder es key ++ pushedUnder es' key :=
  List.filterMap_append

theorem poppedUnder_append (es es' : List Event) (key : String) :
    poppedUnder (es ++ es') key = poppedUnder es key ++ poppedUnder es' key :=
  List.filterMap_append

/-- The queue that the map has under a key. -/
def queueOf (s : St) (key : String) : OrderedPriorityQueue :=
  match s.stateChangeQueueMap key with
  | some a => s.queues a
  | none => .empty

/-- The commands in it. -/
def queued (s : St) (key : String) : Multiset CommandInfo := (queueOf s key).elems

section Queued

variable {w a : Nat} {key : String} {queue : OrderedPriorityQueue}

theorem queueOf_of_map (hmap : s.stateChangeQueueMap key = some a) :
    queueOf s key = s.queues a := by
  simp [queueOf, hmap]

theorem queueOf_of_none (hmap : s.stateChangeQueueMap key = none) : queueOf s key = .empty := by
  simp [queueOf, hmap]

theorem queueOf_setQueue (h : Attached s) (hmap : s.stateChangeQueueMap key = some a)
    (queue : OrderedPriorityQueue) (key' : String) :
    queueOf (s.setQueue a queue) key' = if key' = key then queue else queueOf s key' := by
  by_cases hkey : key' = key
  · subst hkey
    rw [if_pos rfl, queueOf_of_map (s := s.setQueue a queue) hmap]
    simp [St.setQueue]
  · rw [if_neg hkey]
    unfold queueOf St.setQueue
    cases ha : s.stateChangeQueueMap key' with
    | none => rfl
    | some a' =>
        have hne : a' ≠ a := by
          rintro rfl
          exact hkey (h.apart key' key a' ha hmap)
        simp [Function.update_of_ne hne]

theorem queueOf_make (h : Attached s) (key : String) (queue : OrderedPriorityQueue)
    (key' : String) :
    queueOf (s.make key queue) key' = if key' = key then queue else queueOf s key' := by
  unfold queueOf St.make
  by_cases hkey : key' = key
  · simp [hkey]
  · rw [if_neg hkey]
    simp only [Function.update_of_ne hkey]
    cases ha : s.stateChangeQueueMap key' with
    | none => rfl
    | some a' =>
        have hlt := (h.served key' a' ha).1
        have hne : a' ≠ s.created := by omega
        simp [Function.update_of_ne hne]

/-- A key whose queue is empty has none of its own afterwards. -/
theorem queueOf_retire (hmap : s.stateChangeQueueMap key = some a)
    (hempty : (s.queues a).elems = 0) (key' : String) :
    queueOf (s.retire w key) key' = queueOf s key' := by
  by_cases hkey : key' = key
  · subst hkey
    rw [queueOf_of_map hmap, Queue.eq_empty hempty]
    simp [queueOf, St.retire]
  · simp [queueOf, St.retire, St.setWorker, Function.update_of_ne hkey]

end Queued

/-- A queue holds the commands under its key that have been pushed and not yet popped. -/
structure Inv (es : List Event) (s : St) : Prop where
  attached : Attached s
  keyed : ∀ key, ∀ c ∈ queued s key, queueKey c = some key
  conserved : ∀ key, (pushedUnder es key : Multiset CommandInfo) =
    poppedUnder es key + queued s key

theorem inv_init : Inv [] {} where
  attached := attached_init
  keyed := by simp [queued, queueOf]
  conserved := by simp [queued, queueOf, pushedUnder, poppedUnder]

/-- A step that neither pushes nor pops, and changes no queue. -/
theorem Inv.quiet (h : Inv es s) {e : Event} (hattached : Attached s')
    (hqueued : ∀ key, queued s' key = queued s key) (hpush : ∀ key, pushedUnder [e] key = [])
    (hpop : ∀ key, poppedUnder [e] key = []) : Inv (es ++ [e]) s' where
  attached := hattached
  keyed := by
    intro key c hc
    rw [hqueued] at hc
    exact h.keyed key c hc
  conserved := by
    intro key
    rw [pushedUnder_append, poppedUnder_append, hpush, hpop, List.append_nil, List.append_nil,
      hqueued]
    exact h.conserved key

/-- A step that pushes under one key. -/
theorem Inv.push (h : Inv es s) {call : Nat} {c : CommandInfo} {queue : OrderedPriorityQueue}
    {key : String} (hkey : queueKey c = some key) (hattached : Attached s')
    (hqueued : ∀ key', queued s' key' =
      if key' = key then c ::ₘ queued s key' else queued s key') :
    Inv (es ++ [.push call c queue]) s' where
  attached := hattached
  keyed := by
    intro key' c' hc'
    rw [hqueued] at hc'
    -- only the queue of `key` has a new element
    split at hc'
    case isTrue heq =>
        subst heq
        rcases Multiset.mem_cons.mp hc' with rfl | hc'
        · exact hkey
        · exact h.keyed key' c' hc'
    case isFalse => exact h.keyed key' c' hc'
  conserved := by
    intro key'
    have hpop : poppedUnder [.push call c queue] key' = [] := rfl
    rw [pushedUnder_append, poppedUnder_append, hpop, List.append_nil, ← Multiset.coe_add,
      h.conserved key', hqueued]
    -- under `key` one more is pushed and queued
    by_cases heq : key' = key
    · subst heq
      have hpush : pushedUnder [.push call c queue] key' = [c] := by simp [pushedUnder, hkey]
      rw [hpush, if_pos rfl, Multiset.coe_singleton, add_assoc, add_comm (queued s key'),
        Multiset.singleton_add]
    · have hne : key ≠ key' := fun h => heq h.symm
      have hpush : pushedUnder [.push call c queue] key' = [] := by simp [pushedUnder, hkey, hne]
      rw [hpush, if_neg heq, Multiset.coe_nil, add_zero]

/-- A step that pops under one key. -/
theorem Inv.pop (h : Inv es s) {w : Nat} {c : CommandInfo} {queue : OrderedPriorityQueue}
    (key : String) (hmem : c ∈ queued s key) (hattached : Attached s')
    (hqueued : ∀ key', queued s' key' =
      if key' = key then (queued s key').erase c else queued s key') :
    Inv (es ++ [.pop w c queue]) s' where
  attached := hattached
  keyed := by
    intro key' c' hc'
    rw [hqueued] at hc'
    split at hc'
    case isTrue heq => exact h.keyed key' c' (Multiset.mem_of_mem_erase hc')
    case isFalse => exact h.keyed key' c' hc'
  conserved := by
    intro key'
    have hkey := h.keyed key c hmem
    have hpush : pushedUnder [.pop w c queue] key' = [] := rfl
    rw [pushedUnder_append, poppedUnder_append, hpush, List.append_nil, ← Multiset.coe_add,
      h.conserved key', hqueued]
    -- under `key` one more is popped, and one less is queued
    by_cases heq : key' = key
    · subst heq
      have hpop : poppedUnder [.pop w c queue] key' = [c] := by simp [poppedUnder, hkey]
      rw [hpop, if_pos rfl, Multiset.coe_singleton, add_assoc, Multiset.singleton_add,
        Multiset.cons_erase hmem]
    · have hne : key ≠ key' := fun h => heq h.symm
      have hpop : poppedUnder [.pop w c queue] key' = [] := by simp [poppedUnder, hkey, hne]
      rw [hpop, if_neg heq, Multiset.coe_nil, add_zero]

/-- The queue that a live worker knows is the one that the map has under its key. -/
theorem Attached.map_eq (h : Attached s) {w a : Nat} {key : String} {phase : Phase}
    (hw : s.workers w = some ⟨key, phase⟩) (hqueue : phase.queue = some a) :
    s.stateChangeQueueMap key = some a := by
  have hphase : phase ≠ .exited := by
    rintro rfl
    cases hqueue
  rcases (h.live w key phase hw).2 hphase with ⟨a', hmap, hsame⟩
  rw [hmap, hsame a hqueue]

/-- Every step keeps the invariant. -/
theorem inv_step (es : List Event) (s : St) (e : Event) (s' : St) (hinv : Inv es s)
    (hstep : step s e = some s') : Inv (es ++ [e]) s' := by
  have hattached := hinv.attached
  cases moves_of_step hstep with
  -- a call waits for its pushes
  | received =>
      exact hinv.quiet ⟨hattached.1, hattached.2, hattached.3, hattached.4⟩ (fun _ => rfl)
        (fun _ => rfl) fun _ => rfl
  -- the key has a queue, which gets the command
  | @pushed call a c queue key calls hkey hmap hqueue =>
      have hcalls : Attached { s with calls := calls } :=
        ⟨hattached.1, hattached.2, hattached.3, hattached.4⟩
      refine hinv.push hkey ⟨hcalls.1, hcalls.2, hcalls.3, hcalls.4⟩ ?_
      intro key'
      unfold queued
      rw [queueOf_setQueue hcalls hmap]
      by_cases heq : key' = key
      · subst heq
        rw [if_pos rfl, if_pos rfl, hqueue, queueOf_of_map hmap]
      · rw [if_neg heq, if_neg heq]
        rfl
  -- the key is new, and its worker with it
  | @made call c queue key calls hkey hmap hqueue =>
      have hcalls : Attached { s with calls := calls } :=
        ⟨hattached.1, hattached.2, hattached.3, hattached.4⟩
      refine hinv.push hkey (hcalls.make hmap queue) ?_
      intro key'
      unfold queued
      rw [queueOf_make hcalls]
      by_cases heq : key' = key
      · subst heq
        rw [if_pos rfl, if_pos rfl, hqueue, queueOf_of_none hmap]
        rfl
      · rw [if_neg heq, if_neg heq]
        rfl
  -- the worker finds the queue of its key
  | @started w a key hw hmap =>
      have hqueue : ∀ a' ∈ (Phase.ready a).queue, s.stateChangeQueueMap key = some a' := by
        rintro a' ⟨⟩
        exact hmap
      exact hinv.quiet (hattached.setWorker hw (by simp) (by simp) hqueue) (fun _ => rfl)
        (fun _ => rfl) fun _ => rfl
  | @taken w a key c hw htop =>
      have hqueue : ∀ a' ∈ (Phase.executing a c).queue, s.stateChangeQueueMap key = some a' := by
        rintro a' ⟨⟩
        exact hattached.map_eq hw rfl
      exact hinv.quiet (hattached.setWorker hw (by simp) (by simp) hqueue) (fun _ => rfl)
        (fun _ => rfl) fun _ => rfl
  | @executed w a key c hw =>
      have hqueue : ∀ a' ∈ (Phase.executed a c).queue, s.stateChangeQueueMap key = some a' := by
        rintro a' ⟨⟩
        exact hattached.map_eq hw rfl
      exact hinv.quiet (hattached.setWorker hw (by simp) (by simp) hqueue) (fun _ => rfl)
        (fun _ => rfl) fun _ => rfl
  -- what is popped was queued under the key of the worker
  | @popped w a key c c' queue hw htop hqueue =>
      have hmap := hattached.map_eq hw rfl
      have hset : Attached (s.setQueue a queue) :=
        ⟨hattached.1, hattached.2, hattached.3, hattached.4⟩
      have hready : ∀ a' ∈ (Phase.ready a).queue,
          (s.setQueue a queue).stateChangeQueueMap key = some a' := by
        rintro a' ⟨⟩
        exact hmap
      refine hinv.pop key ?_ (hset.setWorker hw (by simp) (by simp) hready) ?_
      · rw [queued, queueOf_of_map hmap]
        exact ((s.queues a).highest c htop).1
      · intro key'
        have hworker : queueOf ((s.setQueue a queue).setWorker w key (.ready a)) key' =
            queueOf (s.setQueue a queue) key' := rfl
        unfold queued
        rw [hworker, queueOf_setQueue hattached hmap]
        by_cases heq : key' = key
        · subst heq
          rw [if_pos rfl, if_pos rfl, hqueue, queueOf_of_map hmap]
        · rw [if_neg heq, if_neg heq]
  -- the queue is empty, so nothing is lost with it
  | @exited w a key hw hempty =>
      refine hinv.quiet (hattached.retire ⟨_, hw, by simp⟩) ?_ (fun _ => rfl) fun _ => rfl
      intro key'
      rw [queued, queueOf_retire (hattached.map_eq hw rfl) hempty, queued]

/-- The invariant holds in every interleaving. -/
theorem inv_run (h : Run step {} es s) : Inv es s :=
  h.invariant Inv inv_init fun es s e s' hinv _ hstep => inv_step es s e s' hinv hstep

/-- Every key of the map has exactly one worker that has not exited, and no such worker has
a key that is not in the map, or serves another queue than the one in the map; that queue
holds the commands that have been pushed and not yet popped; and no two workers execute
commands of one key. -/
theorem one_live_worker (h : Run step {} es s) :
    (∀ key, (s.stateChangeQueueMap key).isSome → ∃! w, Live s w key) ∧
    (∀ w key, Live s w key → (s.stateChangeQueueMap key).isSome) ∧
    (∀ w key phase a, s.workers w = some ⟨key, phase⟩ → phase.queue = some a →
      s.stateChangeQueueMap key = some a) ∧
    (∀ key, (pushedUnder es key : Multiset CommandInfo) = poppedUnder es key + queued s key) ∧
    (∀ w w' key a a' c c', s.workers w = some ⟨key, .executing a c⟩ →
      s.workers w' = some ⟨key, .executing a' c'⟩ → w = w') := by
  have hinv := inv_run h
  refine ⟨?_, ?_, ?_, hinv.conserved, ?_⟩
  · intro key hkey
    rcases Option.isSome_iff_exists.mp hkey with ⟨a, hmap⟩
    rcases (hinv.attached.served key a hmap).2 with ⟨w, hlive⟩
    exact ⟨w, hlive, fun w' hlive' => hinv.attached.unique w' w key hlive' hlive⟩
  · rintro w key ⟨phase, hw, hphase⟩
    rcases (hinv.attached.live w key phase hw).2 hphase with ⟨a, hmap, -⟩
    simp [hmap]
  · intro w key phase a hw hqueue
    exact hinv.attached.map_eq hw hqueue
  · intro w w' key a a' c c' hw hw'
    exact hinv.attached.unique w w' key ⟨_, hw, by simp⟩ ⟨_, hw', by simp⟩

namespace Sample

def message (cmds tm : String) : FieldValueMap :=
  [("tid", "t"), ("cmds", cmds), ("txid", "x"), ("ws", "0"), ("k", "n"), ("tm", tm)]

def command (tm : Nat) (words : List String) : CommandInfo where
  fields := [("tid", "t"), ("txid", "x"), ("ws", "0"), ("k", "n"), ("tm", toString tm)]
  timestamp := tm
  command := words

def create : CommandInfo := command 5 ["3", "e30="]
def delete : CommandInfo := command 5 ["9", "f"]
def later : CommandInfo := command 6 ["9", "g"]

/-- Both deletes are in one queue. -/
def deletes : OrderedPriorityQueue := .withTop {delete, later} delete (by decide) (by decide)

/-- A message with two commands, each under a key of its own, and one that comes in while they are
executed. The worker of the first key goes on to that one, and the other worker exits. -/
def events : List Event :=
  [.onStateChange (message "9 f,3 e30=" "5"), .push 0 delete (.single delete (by decide)),
    .push 0 create (.single create (by decide)), .start 0, .take 0 delete, .start 1,
    .onStateChange (message "9 g" "6"), .push 1 later deletes, .take 1 create, .execute 0 delete,
    .pop 0 delete (.single later (by decide)), .take 0 later, .execute 1 create,
    .pop 1 create .empty, .exit 1]

/-- The first key is in the map, and the other one is not. -/
def check (s : St) : Bool :=
  (s.stateChangeQueueMap "t9").isSome && (s.stateChangeQueueMap "t3").isNone

end Sample

/-- The first key has one worker and one command left; the other one has none. -/
theorem one_live_worker_messages :
    ∃ s, Run step {} Sample.events s ∧ (∃! w, Live s w "t9") ∧ (∀ w, ¬Live s w "t3") ∧
      ([Sample.delete, Sample.later] : Multiset CommandInfo) = [Sample.delete] + queued s "t9" := by
  have hexec : ∃ s, Run step {} Sample.events s ∧ Sample.check s = true :=
    exists_trace_of_exec _ (by decide +kernel)
  rcases hexec with ⟨s, hrun, hcheck⟩
  rcases (Bool.and_eq_true ..).mp hcheck with ⟨hfirst, hother⟩
  rcases one_live_worker hrun with ⟨hunique, hmap, -, hconserved, -⟩
  refine ⟨s, hrun, hunique "t9" hfirst, ?_, hconserved "t9"⟩
  intro w hlive
  rw [Option.isNone_iff_eq_none] at hother
  simpa [hother] using hmap w "t3" hlive

end StateChangeQueues

end DecentralizedCloud.Storage
