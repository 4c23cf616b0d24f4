import DecentralizedCloud.Storage.StateChangeQueues

/-!
# The order in which state changes are executed

The queue of one key with its worker, seen on its own: every run of the queues of all
keys is, for each key, a run of this machine (`projects`).

The worker takes a command of earliest timestamp. All commands of one message carry the
timestamp of the message, and a `std::priority_queue` leaves open which of them comes
first: they are executed in the order in which they were written only if they are all
the same command (`written_order_iff`).
-/

namespace DecentralizedCloud.Storage.WrittenOrder

open Machine PriorityQueue StateChangeQueues
open StateQueue (CommandInfo orderByTimeStamp)

/-! ## One key -/

/-- `executed` records the commands in the order in which they were executed. -/
structure St where
  queue : OrderedPriorityQueue := .empty
  worker : StateQueue.Worker := .stopped
  executed : List CommandInfo := []

/-- The atomic steps; a push and a pop name the queue that comes out. -/
inductive Event where
  | push (c : CommandInfo) (queue : OrderedPriorityQueue)
  | take
  | execute
  | pop (queue : OrderedPriorityQueue)
  | exit

def step : Step St Event := fun s e =>
  match e with
  | .push c queue =>
      if queue.elems = c ::ₘ s.queue.elems then
        some { s with queue, worker := if s.worker = .stopped then .ready else s.worker }
      else none
  | .take =>
      match s.worker, s.queue.top with
      | .ready, some c => some { s with worker := .copied c }
      | _, _ => none
  | .execute =>
      match s.worker with
      | .copied c => some { s with worker := .executed c, executed := s.executed ++ [c] }
      | _ => none
  | .pop queue =>
      match s.worker, s.queue.top with
      | .executed _, some c =>
          if queue.elems = s.queue.elems.erase c then some { s with queue, worker := .ready }
          else none
      | _, _ => none
  | .exit =>
      if s.worker = .ready ∧ s.queue.elems = 0 then some { s with worker := .stopped } else none

/-- The commands that a history pushed. -/
def pushed (es : List Event) : List CommandInfo :=
  es.filterMap fun
    | .push c _ => some c
    | _ => none

theorem pushed_append (es es' : List Event) : pushed (es ++ es') = pushed es ++ pushed es' :=
  List.filterMap_append

variable {s s' : St} {es : List Event}

/-- What a step can do. -/
inductive Moves (s : St) : Event → St → Prop where
  | pushed {c : CommandInfo} {queue : OrderedPriorityQueue}
      (hqueue : queue.elems = c ::ₘ s.queue.elems) :
      Moves s (.push c queue)
        { s with queue, worker := if s.worker = .stopped then .ready else s.worker }
  | taken {c : CommandInfo} (hworker : s.worker = .ready) (htop : s.queue.top = some c) :
      Moves s .take { s with worker := .copied c }
  | executed {c : CommandInfo} (hworker : s.worker = .copied c) :
      Moves s .execute { s with worker := .executed c, executed := s.executed ++ [c] }
  | popped {c c' : CommandInfo} {queue : OrderedPriorityQueue} (hworker : s.worker = .executed c')
      (htop : s.queue.top = some c) (hqueue : queue.elems = s.queue.elems.erase c) :
      Moves s (.pop queue) { s with queue, worker := .ready }
  | exited (hworker : s.worker = .ready) (hempty : s.queue.elems = 0) :
      Moves s .exit { s with worker := .stopped }

/-- What a step can do. -/
theorem moves_of_step {e : Event} (h : step s e = some s') : Moves s e s' := by
  cases e with
  | push c queue =>
      simp only [step] at h
      split at h
      case isTrue hqueue =>
          cases h
          exact .pushed hqueue
      case isFalse => cases h
  -- a worker that is ready takes the top
  | take =>
      simp only [step] at h
      split at h
      case h_1 c hworker htop =>
          cases h
          exact .taken hworker htop
      case h_2 => cases h
  | execute =>
      simp only [step] at h
      split at h
      case h_1 c hworker =>
          cases h
          exact .executed hworker
      case h_2 => cases h
  -- it pops what is on top by then
  | pop queue =>
      simp only [step] at h
      split at h
      case h_1 c' c hworker htop =>
          split at h
          case isTrue hqueue =>
              cases h
              exact .popped hworker htop hqueue
          case isFalse => cases h
      case h_2 => cases h
  | exit =>
      simp only [step] at h
      split at h
      case isTrue hexit =>
          cases h
          exact .exited hexit.1 hexit.2
      case isFalse => cases h

/-! ## The order of execution -/

theorem orderByTimeStamp_eq_false (a b : CommandInfo) :
    orderByTimeStamp a b = false ↔ a.timestamp ≤ b.timestamp := by
  simp [orderByTimeStamp]

/-- Wherever the worker is about to take its next command and `cs` are the commands that
have been pushed and not popped, in the order of the pushes, what it executes until it has
emptied the queue is `cs` sorted by timestamps, equal ones in the order of the pushes. -/
def ExecutesInOrder (cs : List CommandInfo) : Prop :=
  ∀ es₁ s₁ es₂ s₂, Run step {} es₁ s₁ → s₁.worker = .ready →
    cs.Sublist (pushed es₁) → s₁.queue.elems = cs →
    Run step s₁ es₂ s₂ → pushed es₂ = [] → s₂.queue.elems = 0 →
    ∃ executed, s₂.executed = s₁.executed ++ executed ∧
      Stable (·.timestamp) cs executed

/-- The worker since it was about to take a command, without a push: it has executed what a
queue may serve, and what it holds is at the top. -/
def Serving (s₁ s : St) : Prop :=
  ∃ served, Served orderByTimeStamp s₁.queue.elems served s.queue.elems ∧
    match s.worker with
    | .stopped | .ready => s.executed = s₁.executed ++ served
    | .copied c => s.queue.top = some c ∧ s.executed = s₁.executed ++ served
    | .executed c => s.queue.top = some c ∧ s.executed = s₁.executed ++ (served ++ [c])

/-- A step without a push serves on. -/
theorem serving_step {s₁ : St} {e : Event} (h : Serving s₁ s) (hpush : pushed [e] = [])
    (hstep : step s e = some s') : Serving s₁ s' := by
  rcases h with ⟨served, hserved, hholds⟩
  rcases moves_of_step hstep with ⟨_⟩ | ⟨hworker, htop⟩ | ⟨hworker⟩ | ⟨hworker, htop, hqueue⟩ |
    ⟨hworker, hempty⟩
  · cases hpush
  · rw [hworker] at hholds
    exact ⟨served, hserved, htop, hholds⟩
  · rw [hworker] at hholds
    refine ⟨served, hserved, hholds.1, ?_⟩
    rw [hholds.2, List.append_assoc]
  · -- nothing has been pushed, so what is popped is what has been executed
    rename_i c c' queue
    rw [hworker] at hholds
    cases htop.symm.trans hholds.1
    rcases s.queue.highest c htop with ⟨hmem, hhighest⟩
    refine ⟨served ++ [c], ?_, hholds.2⟩
    rw [hqueue]
    exact hserved.snoc hmem hhighest
  · rw [hworker] at hholds
    exact ⟨served, hserved, hholds⟩

theorem serving_run {s₁ : St} (hready : s₁.worker = .ready) (h : Run step s₁ es s)
    (hpush : pushed es = []) : Serving s₁ s := by
  induction h with
  | nil =>
      refine ⟨[], .nil, ?_⟩
      rw [hready]
      simp
  | @snoc es s s' e _ _ hstep ih =>
      rw [pushed_append, List.append_eq_nil_iff] at hpush
      exact serving_step (ih hpush.1) hpush.2 hstep

/-- The worker executes what the queue may serve. -/
theorem executed_of_drained {s₁ : St} (hready : s₁.worker = .ready) (h : Run step s₁ es s)
    (hpush : pushed es = []) (hempty : s.queue.elems = 0) :
    ∃ executed, s.executed = s₁.executed ++ executed ∧
      Served orderByTimeStamp s₁.queue.elems executed 0 := by
  rcases serving_run hready h hpush with ⟨served, hserved, hholds⟩
  have hnone := s.queue.top_eq_none_iff.mpr hempty
  rw [hempty] at hserved
  cases hworker : s.worker with
  | stopped | ready =>
      rw [hworker] at hholds
      exact ⟨served, hholds, hserved⟩
  | copied c | executed c =>
      rw [hworker, hnone] at hholds
      cases hholds.1

/-- A sorted list as a queue with the first element at its top. -/
def sortedQueue : (cs : List CommandInfo) → (cs.Pairwise fun a b => a.timestamp ≤ b.timestamp) →
    OrderedPriorityQueue
  | [], _ => .empty
  | c :: rest, h => .withTop (c :: rest : List CommandInfo) c (by simp) (by
      intro b hb
      rw [orderByTimeStamp_eq_false]
      rcases List.mem_cons.mp (Multiset.mem_coe.mp hb) with rfl | hb
      · exact le_rfl
      · exact (List.pairwise_cons.mp h).1 b hb)

@[simp] theorem elems_sortedQueue {cs : List CommandInfo}
    (h : cs.Pairwise fun a b => a.timestamp ≤ b.timestamp) : (sortedQueue cs h).elems = cs := by
  cases cs <;> rfl

/-- The worker executes a sorted list. -/
theorem exists_run_of_sorted {cs : List CommandInfo}
    (h : cs.Pairwise fun a b => a.timestamp ≤ b.timestamp) (before : List CommandInfo) :
    ∃ es, pushed es = [] ∧
      Run step { queue := sortedQueue cs h, worker := .ready, executed := before } es
        { queue := .empty, worker := .ready, executed := before ++ cs } := by
  induction cs generalizing before with
  | nil =>
      refine ⟨[], rfl, ?_⟩
      rw [List.append_nil]
      exact .nil
  | cons c rest ih =>
      have hrest := (List.pairwise_cons.mp h).2
      rcases ih hrest (before ++ [c]) with ⟨es, hpush, hrun⟩
      rw [List.append_assoc, List.singleton_append] at hrun
      refine ⟨.take :: .execute :: .pop (sortedQueue rest hrest) :: es, hpush,
        .cons trivial (t := ⟨sortedQueue (c :: rest) h, .copied c, before⟩) rfl
          (.cons trivial (t := ⟨sortedQueue (c :: rest) h, .executed c, before ++ [c]⟩) rfl
            (.cons trivial (t := ⟨sortedQueue rest hrest, .ready, before ++ [c]⟩) ?_ hrun))⟩
      have htop : (sortedQueue (c :: rest) h).top = some c := rfl
      have hpop : (sortedQueue rest hrest).elems = (sortedQueue (c :: rest) h).elems.erase c := by
        simp
      simp only [step, htop, if_pos hpop]

/-- Commands are pushed, and any element of highest priority is at the top in the end. -/
theorem exists_run_of_pushes {cs : List CommandInfo} (hne : cs ≠ []) (queue : OrderedPriorityQueue)
    (hqueue : queue.elems = cs) :
    ∃ es, pushed es = cs ∧ Run step {} es { queue, worker := .ready } := by
  induction cs using List.reverseRecOn generalizing queue with
  | nil => exact absurd rfl hne
  | append_singleton cs c ih =>
      have hcons : queue.elems = c ::ₘ (cs : Multiset CommandInfo) := by
        rw [hqueue, ← Multiset.coe_add, Multiset.coe_singleton, add_comm, Multiset.singleton_add]
      by_cases hcs : cs = []
      · subst hcs
        refine ⟨[.push c queue], rfl, .cons trivial ?_ .nil⟩
        simpa [step] using hcons
      · rcases exists_queue orderByTimeStamp_eq_false (cs : Multiset CommandInfo) with ⟨q, hq⟩
        rcases ih hcs q hq with ⟨es, hpush, hrun⟩
        refine ⟨es ++ [.push c queue], ?_, .snoc hrun trivial ?_⟩
        · rw [pushed_append, hpush]
          rfl
        · simp [step, hq, hcons]

/-- What the queue may serve is executed in some run. -/
theorem stable_of_executesInOrder {cs served : List CommandInfo} (h : ExecutesInOrder cs)
    (hserved : Served orderByTimeStamp (cs : Multiset CommandInfo) served 0) :
    Stable (·.timestamp) cs served := by
  by_cases hne : cs = []
  · subst hne
    have hnil : served = [] := by simpa using hserved.conserved
    subst hnil
    exact ⟨.refl _, .nil, fun _ => rfl⟩
  · rcases (served_iff orderByTimeStamp_eq_false).mp hserved with ⟨hperm, hsorted⟩
    have helems : (sortedQueue served hsorted).elems = cs := by
      rw [elems_sortedQueue, Multiset.coe_eq_coe]
      exact hperm
    rcases exists_run_of_pushes hne _ helems with ⟨es₁, hpush₁, hrun₁⟩
    rcases exists_run_of_sorted hsorted [] with ⟨es₂, hpush₂, hrun₂⟩
    rcases h es₁ _ es₂ _ hrun₁ rfl (hpush₁ ▸ List.Sublist.refl _) helems hrun₂ hpush₂ rfl with
      ⟨executed, hexecuted, hstable⟩
    simp only [List.nil_append] at hexecuted
    rwa [hexecuted]

/-- The commands that wait are executed in the order of their timestamps, and equal ones as
they were written, if and only if those with equal timestamps are the same command. -/
theorem written_order_iff (cs : List CommandInfo) :
    ExecutesInOrder cs ↔ ∀ c ∈ cs, ∀ c' ∈ cs, c.timestamp = c'.timestamp → c = c' := by
  rw [← stable_iff orderByTimeStamp_eq_false]
  constructor
  · intro h served hserved
    exact stable_of_executesInOrder h hserved
  · intro h es₁ s₁ es₂ s₂ hrun₁ hready hsub helems hrun₂ hpush hempty
    rcases executed_of_drained hready hrun₂ hpush hempty with ⟨executed, hexecuted, hserved⟩
    rw [helems] at hserved
    exact ⟨executed, hexecuted, h executed hserved⟩

namespace Sample

/-- A document is created, the documents are deleted, another one is created and the
documents are updated, in one message. -/
def message : FieldValueMap :=
  [("tid", "t"),
    ("cmds", "2 e e30=,8 e \"id\"<>\"\",2 e eyJhIjoxfQ==,5 e \"id\"<>\"\" eyJhIjoyfQ=="),
    ("txid", "x"), ("ws", "0"), ("k", "n"), ("tm", "5")]

def command (words : List String) : CommandInfo where
  fields := [("tid", "t"), ("txid", "x"), ("ws", "0"), ("k", "n"), ("tm", "5")]
  timestamp := 5
  command := words

def create : CommandInfo := command ["2", "e", "e30="]
def delete : CommandInfo := command ["8", "e", "\"id\"<>\"\""]
def createNext : CommandInfo := command ["2", "e", "eyJhIjoxfQ=="]
def update : CommandInfo := command ["5", "e", "\"id\"<>\"\"", "eyJhIjoyfQ=="]

theorem onStateChange_message :
    onStateChange message = [create, delete, createNext, update] := by decide

/-- The worker takes its first command when all four are in the heap. -/
def history : List StateQueue.Event :=
  [.push create, .push delete, .push createNext, .push update,
    .copyTop, .execute, .pop, .copyTop, .execute, .pop,
    .copyTop, .execute, .pop, .copyTop, .execute, .pop]

end Sample

/-- The heap serves the third command of a message before the second, and deletes both
documents. -/
theorem written_order_lost :
    (∀ c ∈ onStateChange Sample.message, queueKey c = some "te") ∧
      StateQueue.pushes Sample.history = onStateChange Sample.message ∧
      (∃ s, Run StateQueue.step {} Sample.history s ∧ StateQueue.Drained s ∧
        s.executed = [Sample.create, Sample.createNext, Sample.delete, Sample.update]) ∧
      ¬ ExecutesInOrder (onStateChange Sample.message) := by
  rw [Sample.onStateChange_message]
  refine ⟨by decide, by decide,
    ⟨⟨#[], .ready, [Sample.create, Sample.createNext, Sample.delete, Sample.update]⟩,
      trace_of_exec (by decide), ⟨rfl, .inl rfl⟩, rfl⟩, fun h => ?_⟩
  have hserved : Served orderByTimeStamp
      (([Sample.create, Sample.delete, Sample.createNext, Sample.update] : List CommandInfo) :
        Multiset CommandInfo)
      [Sample.create, Sample.createNext, Sample.delete, Sample.update] 0 := by
    rw [served_iff orderByTimeStamp_eq_false]
    exact ⟨.cons _ (.swap _ _ _), by
      simp [Sample.create, Sample.delete, Sample.createNext, Sample.update, Sample.command]⟩
  have harrival := (stable_of_executesInOrder h hserved).arrival 5
  simp [Sample.create, Sample.delete, Sample.createNext, Sample.update, Sample.command] at harrival

/-! ## All keys -/

/-- The commands under a key that a history has executed. -/
def executedUnder (es : List StateChangeQueues.Event) (key : String) : List CommandInfo :=
  es.filterMap fun
    | .execute _ c => if queueKey c = some key then some c else none
    | _ => none

theorem executedUnder_append (es es' : List StateChangeQueues.Event) (key : String) :
    executedUnder (es ++ es') key = executedUnder es key ++ executedUnder es' key :=
  List.filterMap_append

def workerOf : Phase → StateQueue.Worker
  | .starting | .ready _ => .ready
  | .executing _ c => .copied c
  | .executed _ c => .executed c
  | .exited => .stopped

/-- The queue and the worker of a key, seen on their own. -/
structure Views (s : StateChangeQueues.St) (key : String) (t : St) : Prop where
  queue : t.queue = queueOf s key
  worker : ∀ w phase, s.workers w = some ⟨key, phase⟩ → phase ≠ .exited →
    t.worker = workerOf phase
  stopped : s.stateChangeQueueMap key = none → t.worker = .stopped
  keyed : ∀ c ∈ t.worker.current, queueKey c = some key

section Project

variable {q q' : StateChangeQueues.St} {key : String} {t : St}

/-- A step of another key is not seen. -/
theorem Views.other (h : Views q key t) (hqueue : queueOf q' key = queueOf q key)
    (hworkers : ∀ w phase, q'.workers w = some ⟨key, phase⟩ → q.workers w = some ⟨key, phase⟩)
    (hmap : q'.stateChangeQueueMap key = none → q.stateChangeQueueMap key = none) :
    Views q' key t where
  queue := by rw [hqueue, h.queue]
  worker := fun w phase hw hphase => h.worker w phase (hworkers w phase hw) hphase
  stopped := fun hnone => h.stopped (hmap hnone)
  keyed := h.keyed

/-- A worker of another key moves. -/
theorem workers_setWorker {w : Nat} {key' : String} (hkey : key ≠ key') (phase' : Phase) (w' : Nat)
    (phase : Phase) (h : (q.setWorker w key' phase').workers w' = some ⟨key, phase⟩) :
    q.workers w' = some ⟨key, phase⟩ := by
  by_cases hw : w' = w
  · subst hw
    simp only [St.setWorker, Function.update_self, Option.some.injEq, Worker.mk.injEq] at h
    exact absurd h.1.symm hkey
  · simpa [St.setWorker, Function.update_of_ne hw] using h

/-- The worker of the key moves. -/
theorem Views.moved (h : Attached q) {w : Nat} {phase phase' : Phase}
    (hw : q.workers w = some ⟨key, phase⟩) (hphase : phase ≠ .exited) (hphase' : phase' ≠ .exited)
    {t' : St} (hqueue : t'.queue = queueOf q' key) (hworker : t'.worker = workerOf phase')
    (hworkers : q'.workers = (q.setWorker w key phase').workers)
    (hmap : q'.stateChangeQueueMap = q.stateChangeQueueMap)
    (hkeyed : ∀ c ∈ t'.worker.current, queueKey c = some key) : Views q' key t' where
  queue := hqueue
  worker := by
    intro w' phase'' hw' hphase''
    rw [hworkers] at hw'
    have hlive := (live_setWorker hw hphase hphase' w' key).mp ⟨phase'', hw', hphase''⟩
    -- the key has no other worker
    have hsame : w' = w := h.unique w' w key hlive ⟨phase, hw, hphase⟩
    subst hsame
    simp only [St.setWorker, Function.update_self, Option.some.injEq, Worker.mk.injEq, true_and]
      at hw'
    rw [hworker, hw']
  stopped := by
    intro hnone
    rcases (h.live w key phase hw).2 hphase with ⟨a, ha, -⟩
    rw [hmap, ha] at hnone
    cases hnone
  keyed := hkeyed

/-- One step of all keys is, for a key, a step of its own or none. -/
def Seen (e : StateChangeQueues.Event) (key : String) (t t' : St) (es : List Event) : Prop :=
  Run step t es t' ∧ pushed es = pushedUnder [e] key ∧
    t'.executed = t.executed ++ executedUnder [e] key

theorem seen_nothing {e : StateChangeQueues.Event} (hpush : pushedUnder [e] key = [])
    (hexecute : executedUnder [e] key = []) : Seen e key t t [] :=
  ⟨.nil, hpush.symm, by rw [hexecute, List.append_nil]⟩

/-! ### The steps of the key itself -/

/-- Calls that still have to push are not seen. -/
theorem attached_calls (h : Attached q) (calls : List (List CommandInfo)) :
    Attached { q with calls := calls } :=
  ⟨h.1, h.2, h.3, h.4⟩

/-- A push under the key is one of the view. -/
theorem Views.push (h : Views q key t) (hattached : Attached q) {call a : Nat} {c : CommandInfo}
    {queue : OrderedPriorityQueue} (calls : List (List CommandInfo))
    (hkey : queueKey c = some key) (hmap : q.stateChangeQueueMap key = some a)
    (hqueue : queue.elems = c ::ₘ (q.queues a).elems) :
    ∃ es' t', Seen (.push call c queue) key t t' es' ∧
      Views ({ q with calls := calls }.setQueue a queue) key t' := by
  have hqueues := queueOf_setQueue (attached_calls hattached calls) hmap queue key
  rcases (hattached.served key a hmap).2 with ⟨w, phase, hw, hphase⟩
  have hworker : t.worker ≠ .stopped := by
    rw [h.worker w phase hw hphase]
    cases phase <;> simp_all [workerOf]
  have hpush : queue.elems = c ::ₘ t.queue.elems := by
    rw [h.queue, queueOf_of_map hmap, hqueue]
  refine ⟨[.push c queue], { t with queue }, ⟨.cons trivial ?_ .nil, ?_, ?_⟩, ?_, h.worker,
    h.stopped, h.keyed⟩
  · simp [step, hpush, hworker]
  · simp [pushed, pushedUnder, hkey]
  · simp [executedUnder]
  · rw [hqueues, if_pos rfl]

/-- The first push of a key makes its queue and its worker. -/
theorem Views.make (h : Views q key t) (hattached : Attached q) {call : Nat} {c : CommandInfo}
    {queue : OrderedPriorityQueue} (calls : List (List CommandInfo))
    (hkey : queueKey c = some key) (hmap : q.stateChangeQueueMap key = none)
    (hqueue : queue.elems = {c}) :
    ∃ es' t', Seen (.push call c queue) key t t' es' ∧
      Views ({ q with calls := calls }.make key queue) key t' := by
  have hcalls := attached_calls hattached calls
  have hworker := h.stopped hmap
  -- the view has an empty queue before
  have hpush : queue.elems = c ::ₘ t.queue.elems := by
    rw [h.queue, queueOf_of_none hmap, hqueue]
    rfl
  refine ⟨[.push c queue], { t with queue, worker := .ready }, ⟨.cons trivial ?_ .nil, ?_, ?_⟩,
    ?_, ?_, ?_, by simp [StateQueue.Worker.current]⟩
  · simp [step, hpush, hworker]
  · simp [pushed, pushedUnder, hkey]
  · simp [executedUnder]
  · rw [queueOf_make hcalls key queue key, if_pos rfl]
  · intro w phase hw hphase
    -- no worker served the key before
    rcases (live_make hcalls queue w key).mp ⟨phase, hw, hphase⟩ with hold | ⟨rfl, -⟩
    · exact absurd hold (hcalls.not_live hmap w)
    · simp only [St.make, Function.update_self, Option.some.injEq, Worker.mk.injEq, true_and] at hw
      rw [← hw]
      rfl
  · intro hnone
    simp [St.make] at hnone

/-- The worker of the key takes the top of the view. -/
theorem Views.take (h : Views q key t) {es : List StateChangeQueues.Event} (hinv : Inv es q)
    {w a : Nat} {c : CommandInfo} (hw : q.workers w = some ⟨key, .ready a⟩)
    (htop : (q.queues a).top = some c) :
    ∃ es' t', Seen (.take w c) key t t' es' ∧
      Views (q.setWorker w key (.executing a c)) key t' := by
  have hready := h.worker w _ hw (by simp)
  have hmap := hinv.attached.map_eq hw rfl
  have htop' : t.queue.top = some c := by rw [h.queue, queueOf_of_map hmap, htop]
  have hkeyed : queueKey c = some key := by
    refine hinv.keyed key c ?_
    rw [queued, ← h.queue]
    exact (t.queue.highest c htop').1
  refine ⟨[.take], { t with worker := .copied c }, ⟨.cons trivial ?_ .nil, rfl, ?_⟩,
    Views.moved hinv.attached hw (by simp) (by simp : Phase.executing a c ≠ .exited) h.queue rfl
      rfl rfl ?_⟩
  · simp [step, hready, workerOf, htop']
  · simp [executedUnder]
  · rintro c' ⟨⟩
    exact hkeyed

theorem Views.execute (h : Views q key t) (hattached : Attached q) {w a : Nat} {c : CommandInfo}
    (hw : q.workers w = some ⟨key, .executing a c⟩) :
    ∃ es' t', Seen (.execute w c) key t t' es' ∧
      Views (q.setWorker w key (.executed a c)) key t' := by
  have hcopied := h.worker w _ hw (by simp)
  have hkeyed : queueKey c = some key := h.keyed c (by rw [hcopied]; rfl)
  refine ⟨[.execute], { t with worker := .executed c, executed := t.executed ++ [c] },
    ⟨.cons trivial ?_ .nil, rfl, ?_⟩, Views.moved hattached hw (by simp)
      (by simp : Phase.executed a c ≠ .exited) h.queue rfl rfl rfl ?_⟩
  · simp [step, hcopied, workerOf]
  · simp [executedUnder, hkeyed]
  · rintro c' ⟨⟩
    exact hkeyed

/-- The worker of the key pops the top of the view. -/
theorem Views.pop (h : Views q key t) (hattached : Attached q) {w a : Nat} {c c' : CommandInfo}
    {queue : OrderedPriorityQueue} (hw : q.workers w = some ⟨key, .executed a c'⟩)
    (htop : (q.queues a).top = some c) (hqueue : queue.elems = (q.queues a).elems.erase c) :
    ∃ es' t', Seen (.pop w c queue) key t t' es' ∧
      Views ((q.setQueue a queue).setWorker w key (.ready a)) key t' := by
  have hmap := hattached.map_eq hw rfl
  have hexecuted := h.worker w _ hw (by simp)
  have hset : Attached (q.setQueue a queue) :=
    ⟨hattached.1, hattached.2, hattached.3, hattached.4⟩
  have htop' : t.queue.top = some c := by rw [h.queue, queueOf_of_map hmap, htop]
  have hpop : queue.elems = t.queue.elems.erase c := by
    rw [h.queue, queueOf_of_map hmap, hqueue]
  refine ⟨[.pop queue], { t with queue, worker := .ready }, ⟨.cons trivial ?_ .nil, rfl, ?_⟩,
    Views.moved hset hw (by simp) (by simp : Phase.ready a ≠ .exited) ?_ rfl rfl rfl
      (by simp [StateQueue.Worker.current])⟩
  · simp [step, hexecuted, workerOf, htop', hpop]
  · simp [executedUnder]
  · show queue = queueOf (q.setQueue a queue) key
    rw [queueOf_setQueue hattached hmap queue key, if_pos rfl]

theorem Views.exit (h : Views q key t) (hattached : Attached q) {w a : Nat}
    (hw : q.workers w = some ⟨key, .ready a⟩) (hempty : (q.queues a).elems = 0) :
    ∃ es' t', Seen (.exit w) key t t' es' ∧ Views (q.retire w key) key t' := by
  have hmap := hattached.map_eq hw rfl
  have hlive : Live q w key := ⟨_, hw, by simp⟩
  have hready := h.worker w _ hw (by simp)
  have hnone : t.queue.elems = 0 := by rw [h.queue, queueOf_of_map hmap, hempty]
  refine ⟨[.exit], { t with worker := .stopped }, ⟨.cons trivial ?_ .nil, rfl, ?_⟩, ?_, ?_,
    fun _ => rfl, by simp [StateQueue.Worker.current]⟩
  · simp [step, hready, workerOf, hnone]
  · simp [executedUnder]
  · rw [queueOf_retire (w := w) hmap hempty key, ← h.queue]
  · intro w' phase hw' hphase
    exact absurd rfl ((live_retire hattached hlive w' key).mp ⟨phase, hw', hphase⟩).2

/-! ### All steps -/

/-- A step of all queues is a step of the queue of one key, or none. -/
theorem projects_step {es : List StateChangeQueues.Event} {e : StateChangeQueues.Event}
    (hinv : Inv es q) (hall : ∀ key, ∃ t, Views q key t) (h : Views q key t)
    (hstep : StateChangeQueues.step q e = some q') :
    ∃ es' t', Seen e key t t' es' ∧ Views q' key t' := by
  have hattached := hinv.attached
  cases StateChangeQueues.moves_of_step hstep with
  | received => exact ⟨[], t, seen_nothing rfl rfl, h.queue, h.worker, h.stopped, h.keyed⟩
  | @pushed call a c queue key' calls hkey hmap hqueue =>
      by_cases hk : key = key'
      · subst hk
        exact h.push hattached calls hkey hmap hqueue
      · have hne : key' ≠ key := fun heq => hk heq.symm
        refine ⟨[], t, seen_nothing (by simp [pushedUnder, hkey, hne]) rfl, h.other ?_
          (fun w phase hw => hw) fun hnone => hnone⟩
        rw [queueOf_setQueue (attached_calls hattached calls) hmap queue key, if_neg hk]
        rfl
  | @made call c queue key' calls hkey hmap hqueue =>
      by_cases hk : key = key'
      · subst hk
        exact h.make hattached calls hkey hmap hqueue
      · have hne : key' ≠ key := fun heq => hk heq.symm
        refine ⟨[], t, seen_nothing (by simp [pushedUnder, hkey, hne]) rfl, h.other ?_ ?_ ?_⟩
        · rw [queueOf_make (attached_calls hattached calls) key' queue key, if_neg hk]
          rfl
        · intro w phase hw
          by_cases hww : w = q.created
          · subst hww
            simp only [St.make, Function.update_self, Option.some.injEq, Worker.mk.injEq] at hw
            exact absurd hw.1 hne
          · simpa [St.make, Function.update_of_ne hww] using hw
        · intro hnone
          simpa [St.make, Function.update_of_ne hk] using hnone
  | @started w a key' hw hmap =>
      by_cases hk : key = key'
      · subst hk
        have hready := h.worker w _ hw (by simp)
        exact ⟨[], t, seen_nothing rfl rfl, Views.moved hattached hw (by simp)
          (by simp : Phase.ready a ≠ .exited) h.queue hready rfl rfl h.keyed⟩
      · exact ⟨[], t, seen_nothing rfl rfl, h.other rfl (workers_setWorker hk _) fun hnone => hnone⟩
  | @taken w a key' c hw htop =>
      by_cases hk : key = key'
      · subst hk
        exact h.take hinv hw htop
      · exact ⟨[], t, seen_nothing rfl rfl, h.other rfl (workers_setWorker hk _) fun hnone => hnone⟩
  | @executed w a key' c hw =>
      by_cases hk : key = key'
      · subst hk
        exact h.execute hattached hw
      · -- the command is one of the other key
        rcases hall key' with ⟨t₀, h₀⟩
        have hkeyed : queueKey c = some key' := h₀.keyed c (by
          rw [h₀.worker w _ hw (by simp)]
          rfl)
        have hne : key' ≠ key := fun heq => hk heq.symm
        exact ⟨[], t, seen_nothing rfl (by simp [executedUnder, hkeyed, hne]),
          h.other rfl (workers_setWorker hk _) fun hnone => hnone⟩
  | @popped w a key' c c' queue hw htop hqueue =>
      by_cases hk : key = key'
      · subst hk
        exact h.pop hattached hw htop hqueue
      · refine ⟨[], t, seen_nothing rfl rfl, h.other ?_ (workers_setWorker hk _) fun hnone => hnone⟩
        show queueOf (q.setQueue a queue) key = queueOf q key
        rw [queueOf_setQueue hattached (hattached.map_eq hw rfl) queue key, if_neg hk]
  | @exited w a key' hw hempty =>
      by_cases hk : key = key'
      · subst hk
        exact h.exit hattached hw hempty
      · refine ⟨[], t, seen_nothing rfl rfl, h.other ?_ (workers_setWorker hk _) ?_⟩
        · exact queueOf_retire (hattached.map_eq hw rfl) hempty key
        · intro hnone
          simpa [St.retire, Function.update_of_ne hk] using hnone

end Project

/-- A run of the queues of all keys is, for every key, a run of its own queue and worker,
with the same pushes and the same commands executed. -/
theorem projects {es : List StateChangeQueues.Event} {q : StateChangeQueues.St}
    (h : Run StateChangeQueues.step {} es q) (key : String) :
    ∃ es' t, Run step {} es' t ∧ pushed es' = pushedUnder es key ∧
      t.executed = executedUnder es key ∧ Views q key t := by
  induction h generalizing key with
  | nil => exact ⟨[], {}, .nil, rfl, rfl, rfl, by simp, by simp, by simp [StateQueue.Worker.current]⟩
  | @snoc es q q' e hrun _ hstep ih =>
      have hall : ∀ key, ∃ t, Views q key t := by
        intro key
        rcases ih key with ⟨-, t, -, -, -, hviews⟩
        exact ⟨t, hviews⟩
      rcases ih key with ⟨es', t, hrun', hpush, hexecute, hviews⟩
      rcases projects_step (inv_run hrun) hall hviews hstep with
        ⟨es'', t', ⟨hrun'', hpush'', hexecute''⟩, hviews'⟩
      refine ⟨es' ++ es'', t', hrun'.append hrun'', ?_, ?_, hviews'⟩
      · rw [pushed_append, pushedUnder_append, hpush, hpush'']
      · rw [hexecute'', executedUnder_append, hexecute]

end DecentralizedCloud.Storage.WrittenOrder
