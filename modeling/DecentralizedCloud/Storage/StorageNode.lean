import DecentralizedCloud.Common.Receiving
import DecentralizedCloud.Storage.BlockQueue
import DecentralizedCloud.Storage.StateChangeQueues

/-!
# A storage node

What a storage node does with the packets that it reads. The handler of `stateChange`
pushes commands into the queues of their keys, and the handler of `closeBlock` pushes a
block into the queue of blocks; the workers of the queues run on threads of their own, so
each of their steps may come between any two others. What the other handlers and the
commands write to the DHT is a step of its own.

The receiver notes the id of every message before its handler is called, so no packet is
handled twice (`Handled`), and each command of a packet is pushed once at most
(`pushed_le_received`).
-/

namespace DecentralizedCloud.Storage

open Machine
open StateQueue (CommandInfo)

/-! ## The commands of a message -/

namespace StateChangeQueues

/-- The commands in the messages of a history. -/
def received (es : List Event) : List CommandInfo :=
  es.flatMap fun
    | .onStateChange theFields => Storage.onStateChange theFields
    | _ => []

/-- The commands that a history has pushed, under all keys. -/
def pushed (es : List Event) : List CommandInfo :=
  es.filterMap fun
    | .push _ c _ => some c
    | _ => none

/-- The commands that a history has executed, under all keys. -/
def executed (es : List Event) : List CommandInfo :=
  es.filterMap fun
    | .execute _ c => some c
    | _ => none

variable {s s' : St} {es es' : List Event} {e : Event}

theorem received_append : received (es ++ es') = received es ++ received es' :=
  List.flatMap_append

theorem pushed_append : pushed (es ++ es') = pushed es ++ pushed es' := List.filterMap_append

theorem executed_append : executed (es ++ es') = executed es ++ executed es' :=
  List.filterMap_append

theorem mem_pushed_append {c : CommandInfo} (h : c ∈ pushed es) : c ∈ pushed (es ++ es') := by
  rw [pushed_append]
  exact List.mem_append_left _ h

theorem pushedUnder_subset (es : List Event) (key : String) : pushedUnder es key ⊆ pushed es := by
  intro c hc
  rcases List.mem_filterMap.mp hc with ⟨e, he, hpush⟩
  refine List.mem_filterMap.mpr ⟨e, he, ?_⟩
  cases e with
  | push call c' queue =>
      dsimp only at hpush
      split at hpush
      · exact hpush
      · cases hpush
  | onStateChange | start | take | execute | pop | exit => cases hpush

/-- Taking the first element of one list out of many. -/
theorem flatten_set {α : Type} {calls : List (List α)} {call : Nat} {a : α} {rest : List α}
    (h : calls[call]? = some (a :: rest)) :
    (calls.flatten : Multiset α) = a ::ₘ ((calls.set call rest).flatten : Multiset α) := by
  induction calls generalizing call with
  | nil => cases h
  | cons first calls ih =>
      cases call with
      | zero =>
          cases h
          rfl
      | succ call =>
          have hrest : (calls.flatten : Multiset α) = a ::ₘ ((calls.set call rest).flatten :
              Multiset α) := ih h
          rw [List.set_cons_succ, List.flatten_cons, List.flatten_cons, ← Multiset.coe_add, hrest,
            ← Multiset.coe_add, Multiset.add_cons]

/-- Every received command has been pushed once, or its call has yet to push it. -/
theorem pushed_add_calls (h : Run step {} es s) :
    (received es : Multiset CommandInfo) = pushed es + (s.calls.flatten : Multiset CommandInfo) := by
  refine h.invariant (fun es s => (received es : Multiset CommandInfo) =
    pushed es + (s.calls.flatten : Multiset CommandInfo)) rfl ?_
  intro es s e s' hinv _ hstep
  rw [received_append, pushed_append, ← Multiset.coe_add, ← Multiset.coe_add, hinv]
  cases e with
  -- the commands of a call wait to be pushed
  | onStateChange theFields =>
      cases hstep
      have hreceived : received [.onStateChange theFields] = Storage.onStateChange theFields :=
        List.flatMap_singleton _ _
      have hpushed : pushed [.onStateChange theFields] = [] := rfl
      rw [hreceived, hpushed, Multiset.coe_nil, add_zero, List.flatten_append,
        List.flatten_singleton, ← Multiset.coe_add, add_assoc]
  | push call c queue =>
      have hreceived : received [.push call c queue] = [] := rfl
      have hpushed : pushed [.push call c queue] = [c] := rfl
      simp only [step] at hstep
      split at hstep
      case h_1 c' rest key hcall hkey =>
          split at hstep
          case isTrue heq =>
              subst heq
              -- the first of them is pushed, and the rest waits
              have hcalls : s'.calls = s.calls.set call rest := by
                unfold pushUnder at hstep
                split at hstep <;> split at hstep <;> cases hstep <;> rfl
              rw [hreceived, hpushed, hcalls, flatten_set hcall, Multiset.coe_nil, add_zero,
                Multiset.coe_singleton, add_assoc, Multiset.singleton_add]
          case isFalse => cases hstep
      case h_2 => cases hstep
  -- the workers leave the calls alone
  | start | take | execute | pop | exit =>
      have hcalls : s'.calls = s.calls := by
        cases moves_of_step hstep
        rfl
      rw [hcalls]
      simp [received, pushed]

/-- The commands that a worker executes, or has executed, were pushed. -/
structure Traced (es : List Event) (s : St) : Prop where
  executing : ∀ w key a c, s.workers w = some ⟨key, .executing a c⟩ → c ∈ pushed es
  executed : ∀ c ∈ executed es, c ∈ pushed es

theorem Traced.snoc (h : Traced es s) (hworkers : ∀ w key a c,
      s'.workers w = some ⟨key, .executing a c⟩ →
        s.workers w = some ⟨key, .executing a c⟩ ∨ c ∈ pushed es)
    (hexecuted : ∀ c ∈ StateChangeQueues.executed [e], c ∈ pushed es) : Traced (es ++ [e]) s' where
  executing := by
    intro w key a c hw
    rcases hworkers w key a c hw with hold | hpushed
    · exact mem_pushed_append (h.executing w key a c hold)
    · exact mem_pushed_append hpushed
  executed := by
    intro c hc
    rw [executed_append] at hc
    rcases List.mem_append.mp hc with hold | hnew
    · exact mem_pushed_append (h.executed c hold)
    · exact mem_pushed_append (hexecuted c hnew)

/-- A worker is moved to a phase; the others stay. -/
theorem executing_setWorker {w : Nat} {key : String} {phase : Phase} {pushed : CommandInfo → Prop}
    (hphase : ∀ a c, phase = .executing a c → pushed c) :
    ∀ w' key' a c, (s.setWorker w key phase).workers w' = some ⟨key', .executing a c⟩ →
      s.workers w' = some ⟨key', .executing a c⟩ ∨ pushed c := by
  intro w' key' a c hw
  by_cases hsame : w' = w
  · subst hsame
    simp only [St.setWorker, Function.update_self, Option.some.injEq, Worker.mk.injEq] at hw
    exact .inr (hphase a c hw.2)
  · exact .inl (by simpa [St.setWorker, Function.update_of_ne hsame] using hw)

/-- Every step keeps what is executed among what was pushed. -/
theorem traced_step (hinv : Inv es s) (h : Traced es s) (hstep : step s e = some s') :
    Traced (es ++ [e]) s' := by
  cases moves_of_step hstep with
  | received => exact h.snoc (fun _ _ _ _ hw => .inl hw) (by simp [executed])
  | pushed => exact h.snoc (fun _ _ _ _ hw => .inl hw) (by simp [executed])
  | made =>
      refine h.snoc ?_ (by simp [executed])
      intro w key a c hw
      by_cases hw' : w = s.created
      · subst hw'
        simp [St.make] at hw
      · exact .inl (by simpa [St.make, Function.update_of_ne hw'] using hw)
  | started => exact h.snoc (executing_setWorker (by simp)) (by simp [executed])
  | @taken w a key c hw htop =>
      refine h.snoc (executing_setWorker ?_) (by simp [executed])
      intro a' c' hphase
      cases hphase
      -- the worker's queue is the one of its key
      have hqueued : c ∈ queued s key := by
        rw [queued, queueOf_of_map (hinv.attached.map_eq hw rfl)]
        exact ((s.queues a).highest c htop).1
      have hpushed : c ∈ (pushedUnder es key : Multiset CommandInfo) := by
        rw [hinv.conserved key]
        exact Multiset.mem_add.mpr (.inr hqueued)
      exact pushedUnder_subset es key (Multiset.mem_coe.mp hpushed)
  | @executed w a key c hw =>
      refine h.snoc (executing_setWorker (by simp)) ?_
      intro c' hc'
      rw [List.mem_singleton.mp hc']
      exact h.executing w key a c hw
  | popped => exact h.snoc (executing_setWorker (by simp)) (by simp [executed])
  | exited => exact h.snoc (executing_setWorker (by simp)) (by simp [executed])

theorem executed_subset_pushed (h : Run step {} es s) : executed es ⊆ pushed es := by
  have htraced := h.invariant (fun es s => Inv es s ∧ Traced es s)
    ⟨inv_init, by simp, by simp [executed]⟩ ?_
  · exact htraced.2.executed
  · intro es s e s' ⟨hinv, htraced⟩ _ hstep
    exact ⟨inv_step es s e s' hinv hstep, traced_step hinv htraced hstep⟩

end StateChangeQueues

/-! ## The machine -/

/-- A packet that reached a handler, with the command and the fields that the handler got. -/
structure Handling where
  packet : Packet
  command : CommandType
  theFields : FieldValueMap

/-- The commands that it brings to the queues. -/
def Handling.commands (h : Handling) : List CommandInfo :=
  if h.command = .stateChange then onStateChange h.theFields else []

/-- It is the command of the packet, with its fields. -/
structure Handling.Arrived (h : Handling) : Prop where
  command : h.packet.command? = some h.command
  fields : ∀ name, name ∉ ["tm", "ws", "k"] →
    h.theFields.at? name = h.packet.fields.bind (·.at? name)

structure StorageNode where
  receiver : Receiver
  stateChanges : StateChangeQueues.St
  blocks : BlockQueue.St
  dht : String → String
  /-- history: what has reached a handler, which no step reads -/
  handled : List Handling

/-- What a storage node does next. A push of a block names the queue that comes out, as its
next top is open; so does a commit, with the answers of IPFS to its requests. -/
inductive StorageEvent where
  | receive (q : Packet) (queue : BlockQueue.PriorityPairQueue)
  /-- a step of a call of `onStateChange`, or of a worker of the state changes -/
  | update (e : StateChangeQueues.Event)
  /-- the worker of the blocks looks whether there is one -/
  | look
  | commit (answers : BlockAnswers) (queue : BlockQueue.PriorityPairQueue)
  /-- another thread has written to the DHT -/
  | write (dht : String → String)

def StorageEvent.packet? : StorageEvent → Option Packet
  | receive q _ => some q
  | update _ | look | commit _ _ | write _ => none

/-- The steps of the state changes in a history. -/
def updates (es : List StorageEvent) : List StateChangeQueues.Event :=
  es.filterMap fun
    | .update e => some e
    | _ => none

theorem updates_append (es es' : List StorageEvent) : updates (es ++ es') = updates es ++ updates es' :=
  List.filterMap_append

namespace StorageNode

variable (S : Services) (base64_encodeString : String → String)

/-- The channels that `main` subscribes to. -/
def channels (s : StorageNode) : List String := ["storagenodes", s.receiver.nodeId]

/-- The registered handlers that fill a queue. What the others write appears as `write`. -/
def dataHandler (s : StorageNode) (queue : BlockQueue.PriorityPairQueue) (cmd : CommandType)
    (f : FieldValueMap) : Option StorageNode :=
  match cmd with
  | .stateChange =>
      (StateChangeQueues.step s.stateChanges (.onStateChange f)).map fun stateChanges =>
        { s with stateChanges }
  | .closeBlock =>
      (BlockQueue.step S base64_encodeString s.blocks (.closeBlock f queue)).map fun blocks =>
        { s with blocks }
  | _ => some s

/-- The DHT after the block at the top has been committed. -/
def committed (s : StorageNode) (answers : BlockAnswers) : String → String :=
  match s.blocks.blocksToCommit.top with
  | some b => ((addTransactions S answers base64_encodeString b.2).exec s.dht).1
  | none => s.dht

def step : Step StorageNode StorageEvent := fun s e =>
  match e with
  | .receive q queue =>
      match q.fields with
      | none => some s
      | some theFields =>
          let (receiver, received) := s.receiver.receiveGossip theFields
          match received with
          | .dropped | .connection _ _ _ => some { s with receiver }
          | .handled cmd f =>
              let s := { s with receiver, handled := s.handled ++ [Handling.mk q cmd f] }
              s.dataHandler S base64_encodeString queue cmd f
  | .update (.onStateChange _) => none
  | .update e => (StateChangeQueues.step s.stateChanges e).map fun stateChanges =>
      { s with stateChanges }
  | .look => (BlockQueue.step S base64_encodeString s.blocks .look).map fun blocks =>
      { s with blocks }
  | .commit answers queue =>
      (BlockQueue.step S base64_encodeString s.blocks (.commit s.dht answers queue)).map
        fun blocks => { s with blocks, dht := s.committed S base64_encodeString answers }
  | .write dht => some { s with dht }

variable {S base64_encodeString} {s s' : StorageNode} {e : StorageEvent}

/-- A packet passes the receiver, and its fields reach the handler of the command. -/
structure Handles (s : StorageNode) (q : Packet) (cmd : CommandType) (f : FieldValueMap)
    (receiver : Receiver) : Prop where
  exists_fields : ∃ fields, q.fields = some fields ∧ s.receiver.Passes fields receiver cmd f

variable (S base64_encodeString) in
/-- What a step can do. -/
inductive Moves (s : StorageNode) : StorageEvent → StorageNode → Prop where
  | quiet {q : Packet} {queue : BlockQueue.PriorityPairQueue} {receiver : Receiver}
      (hkeeps : s.receiver.Keeps receiver) : Moves s (.receive q queue) { s with receiver }
  | stateChange {q : Packet} {queue : BlockQueue.PriorityPairQueue} {f : FieldValueMap}
      {receiver : Receiver} {stateChanges : StateChangeQueues.St}
      (hhandles : s.Handles q .stateChange f receiver)
      (hstep : StateChangeQueues.step s.stateChanges (.onStateChange f) = some stateChanges) :
      Moves s (.receive q queue)
        { s with receiver, stateChanges, handled := s.handled ++ [⟨q, .stateChange, f⟩] }
  | closeBlock {q : Packet} {queue : BlockQueue.PriorityPairQueue} {f : FieldValueMap}
      {receiver : Receiver} {blocks : BlockQueue.St} (hhandles : s.Handles q .closeBlock f receiver)
      (hstep : BlockQueue.step S base64_encodeString s.blocks (.closeBlock f queue) =
        some blocks) :
      Moves s (.receive q queue)
        { s with receiver, blocks, handled := s.handled ++ [⟨q, .closeBlock, f⟩] }
  | other {q : Packet} {queue : BlockQueue.PriorityPairQueue} {cmd : CommandType}
      {f : FieldValueMap} {receiver : Receiver} (hhandles : s.Handles q cmd f receiver)
      (hstateChange : cmd ≠ .stateChange) (hcloseBlock : cmd ≠ .closeBlock) :
      Moves s (.receive q queue) { s with receiver, handled := s.handled ++ [⟨q, cmd, f⟩] }
  | update {e : StateChangeQueues.Event} {stateChanges : StateChangeQueues.St}
      (hcall : ∀ f, e ≠ .onStateChange f)
      (hstep : StateChangeQueues.step s.stateChanges e = some stateChanges) :
      Moves s (.update e) { s with stateChanges }
  | look {blocks : BlockQueue.St}
      (hstep : BlockQueue.step S base64_encodeString s.blocks .look = some blocks) :
      Moves s .look { s with blocks }
  | commit {answers : BlockAnswers} {queue : BlockQueue.PriorityPairQueue} {blocks : BlockQueue.St}
      (hstep : BlockQueue.step S base64_encodeString s.blocks (.commit s.dht answers queue) =
        some blocks) :
      Moves s (.commit answers queue)
        { s with blocks, dht := s.committed S base64_encodeString answers }
  | write {dht : String → String} : Moves s (.write dht) { s with dht }

/-- What a step of the node can do. -/
theorem moves_of_step (h : step S base64_encodeString s e = some s') :
    Moves S base64_encodeString s e s' := by
  cases e with
  | receive q queue =>
      simp only [step] at h
      split at h
      -- no gossip
      case h_1 =>
          cases h
          exact .quiet (.refl _)
      case h_2 fields hfields =>
          have hkeeps := s.receiver.receiveGossip_keeps fields
          split at h
          case h_1 =>
              cases h
              exact .quiet hkeeps
          case h_2 =>
              cases h
              exact .quiet hkeeps
          -- the message passes, and goes to its handler
          case h_3 cmd f hreceived =>
              have hhandles : s.Handles q cmd f (s.receiver.receiveGossip fields).1 :=
                ⟨fields, hfields, Receiver.passes_of_receiveGossip hreceived⟩
              unfold dataHandler at h
              split at h
              · rcases Option.map_eq_some_iff.mp h with ⟨t, ht, rfl⟩
                exact .stateChange hhandles ht
              · rcases Option.map_eq_some_iff.mp h with ⟨t, ht, rfl⟩
                exact .closeBlock hhandles ht
              case h_3 hstateChange hcloseBlock =>
                  cases h
                  exact .other hhandles hstateChange hcloseBlock
  | update e =>
      cases e with
      -- a call comes from a message only
      | onStateChange f => cases h
      | push | start | take | execute | pop | exit =>
          rcases Option.map_eq_some_iff.mp h with ⟨t, ht, rfl⟩
          exact .update nofun ht
  | look =>
      rcases Option.map_eq_some_iff.mp h with ⟨t, ht, rfl⟩
      exact .look ht
  | commit answers queue =>
      rcases Option.map_eq_some_iff.mp h with ⟨t, ht, rfl⟩
      exact .commit ht
  | write dht =>
      cases h
      exact .write

/-! ## No packet twice -/

theorem Handles.keeps {q : Packet} {cmd : CommandType} {f : FieldValueMap} {receiver : Receiver}
    (h : s.Handles q cmd f receiver) : s.receiver.Keeps receiver := by
  rcases h.exists_fields with ⟨fields, -, hpasses⟩
  exact hpasses.keeps

theorem Handles.arrived {q : Packet} {cmd : CommandType} {f : FieldValueMap} {receiver : Receiver}
    (h : s.Handles q cmd f receiver) : Handling.Arrived ⟨q, cmd, f⟩ := by
  rcases h.exists_fields with ⟨fields, hfields, hpasses⟩
  refine ⟨(noted_of_passes hfields hpasses).2.2, ?_⟩
  intro name hname
  rw [hfields, Option.bind_some]
  exact hpasses.fields name hname

/-- Every packet was handled once at most, as it arrived. -/
structure Handled (s : StorageNode) : Prop where
  nodup : (s.handled.map (·.packet)).Nodup
  noted : ∀ h ∈ s.handled, noted s.receiver h.packet = true
  arrived : ∀ h ∈ s.handled, h.Arrived

theorem Handled.keeps (h : Handled s) (hkeeps : s.receiver.Keeps s'.receiver)
    (hhandled : s'.handled = s.handled) : Handled s' where
  nodup := hhandled ▸ h.nodup
  noted := by
    intro x hx
    rw [hhandled] at hx
    exact noted_mono hkeeps (h.noted x hx)
  arrived := hhandled ▸ h.arrived

/-- One more message has been handled. -/
theorem Handled.snoc (h : Handled s) {q : Packet} {cmd : CommandType} {f : FieldValueMap}
    (hhandles : s.Handles q cmd f s'.receiver)
    (hhandled : s'.handled = s.handled ++ [⟨q, cmd, f⟩]) : Handled s' := by
  rcases hhandles.exists_fields with ⟨fields, hfields, hpasses⟩
  rcases noted_of_passes hfields hpasses with ⟨hnew, hnow, -⟩
  refine ⟨?_, ?_, ?_⟩
  · rw [hhandled, List.map_append, List.map_singleton, List.nodup_append]
    refine ⟨h.nodup, List.nodup_singleton q, ?_⟩
    intro p hp p' hp'
    rcases List.mem_map.mp hp with ⟨x, hx, rfl⟩
    rw [List.mem_singleton.mp hp']
    -- what was handled has been noted
    intro hsame
    have hnoted := h.noted x hx
    rw [hsame, hnew] at hnoted
    cases hnoted
  · intro x hx
    rw [hhandled] at hx
    rcases List.mem_append.mp hx with hold | hlast
    · exact noted_mono hhandles.keeps (h.noted x hold)
    · rw [List.mem_singleton.mp hlast]
      exact hnow
  · intro x hx
    rw [hhandled] at hx
    rcases List.mem_append.mp hx with hold | hlast
    · exact h.arrived x hold
    · rw [List.mem_singleton.mp hlast]
      exact hhandles.arrived

theorem handled_step (h : Handled s) (hstep : step S base64_encodeString s e = some s') :
    Handled s' := by
  cases moves_of_step hstep with
  | quiet hkeeps => exact h.keeps hkeeps rfl
  | stateChange hhandles => exact h.snoc hhandles rfl
  | closeBlock hhandles => exact h.snoc hhandles rfl
  | other hhandles => exact h.snoc hhandles rfl
  | update | look | commit | write => exact h.keeps (.refl _) rfl

/-- Only the packet of an event is handled. -/
theorem handled_subset (hstep : step S base64_encodeString s e = some s') :
    ∀ h ∈ s'.handled, h ∈ s.handled ∨ e.packet? = some h.packet := by
  intro h hh
  cases moves_of_step hstep with
  | quiet | update | look | commit | write => exact .inl hh
  | stateChange | closeBlock | other =>
      rcases List.mem_append.mp hh with hold | hlast
      · exact .inl hold
      · rw [List.mem_singleton.mp hlast]
        exact .inr rfl

theorem keeps_step (hstep : step S base64_encodeString s e = some s') :
    s.receiver.Keeps s'.receiver := by
  cases moves_of_step hstep with
  | quiet hkeeps => exact hkeeps
  | stateChange hhandles | closeBlock hhandles | other hhandles => exact hhandles.keeps
  | update | look | commit | write => exact .refl _

/-! ## The commands of the packets -/

open StateChangeQueues (received pushed executed)

/-- The queues of the state changes see a run of their own, with the commands of the packets. -/
theorem updates_run {s₀ : StorageNode} {es : List StorageEvent}
    (hstart : s₀.stateChanges = {} ∧ s₀.handled = [])
    (h : Run (step S base64_encodeString) s₀ es s) :
    ∃ us, Run StateChangeQueues.step {} us s.stateChanges ∧
      received us = s.handled.flatMap Handling.commands ∧ pushed us = pushed (updates es) ∧
      executed us = executed (updates es) := by
  induction h with
  | nil => exact ⟨[], by rw [hstart.1]; exact .nil, by rw [hstart.2]; rfl, rfl, rfl⟩
  | @snoc es s s' e _ _ hstep ih =>
      rcases ih with ⟨us, hrun, hreceived, hpushed, hexecuted⟩
      -- only `stateChange` brings commands
      have hquiet : ∀ x : Handling, x.command ≠ .stateChange →
          (s.handled ++ [x]).flatMap Handling.commands = s.handled.flatMap Handling.commands := by
        intro x hx
        rw [List.flatMap_append, List.flatMap_singleton, Handling.commands, if_neg hx,
          List.append_nil]
      have hnone : ∀ q queue, updates (es ++ [.receive q queue]) = updates es := by
        intro q queue
        rw [updates_append]
        exact List.append_nil _
      cases moves_of_step hstep with
      | quiet =>
          exact ⟨us, hrun, hreceived, by rw [hnone]; exact hpushed, by rw [hnone]; exact hexecuted⟩
      -- the handler calls `onStateChange`, which pushes nothing yet
      | @stateChange q queue f receiver stateChanges hhandles hcall =>
          refine ⟨us ++ [.onStateChange f], .snoc hrun trivial hcall, ?_, ?_, ?_⟩
          · rw [StateChangeQueues.received_append, hreceived, List.flatMap_append,
              List.flatMap_singleton, Handling.commands, if_pos rfl]
            exact congrArg _ (List.flatMap_singleton _ _)
          · rw [hnone, StateChangeQueues.pushed_append, hpushed]
            exact List.append_nil _
          · rw [hnone, StateChangeQueues.executed_append, hexecuted]
            exact List.append_nil _
      | closeBlock =>
          exact ⟨us, hrun, hreceived.trans (hquiet _ (by simp)).symm, by rw [hnone]; exact hpushed,
            by rw [hnone]; exact hexecuted⟩
      | other _ hstateChange =>
          exact ⟨us, hrun, hreceived.trans (hquiet _ hstateChange).symm,
            by rw [hnone]; exact hpushed, by rw [hnone]; exact hexecuted⟩
      -- a step of the queues themselves
      | @update e stateChanges hcall hupdate =>
          refine ⟨us ++ [e], .snoc hrun trivial hupdate, ?_, ?_, ?_⟩
          · rw [StateChangeQueues.received_append, hreceived]
            cases e with
            | onStateChange f => exact absurd rfl (hcall f)
            | push | start | take | execute | pop | exit => exact List.append_nil _
          · rw [updates_append, StateChangeQueues.pushed_append, StateChangeQueues.pushed_append,
              hpushed]
            rfl
          · rw [updates_append, StateChangeQueues.executed_append,
              StateChangeQueues.executed_append, hexecuted]
            rfl
      | look | commit | write =>
          refine ⟨us, hrun, hreceived, ?_, ?_⟩ <;> rw [updates_append]
          · exact hpushed.trans (congrArg _ (List.append_nil _).symm)
          · exact hexecuted.trans (congrArg _ (List.append_nil _).symm)

/-- Every command of a packet is pushed once at most, and no other command is. -/
theorem pushed_le_handled {s₀ : StorageNode} {es : List StorageEvent}
    (hstart : s₀.stateChanges = {} ∧ s₀.handled = [])
    (h : Run (step S base64_encodeString) s₀ es s) :
    (pushed (updates es) : Multiset CommandInfo) ≤
      (s.handled.flatMap Handling.commands : Multiset CommandInfo) := by
  rcases updates_run hstart h with ⟨us, hrun, hreceived, hpushed, -⟩
  rw [← hpushed, ← hreceived, StateChangeQueues.pushed_add_calls hrun]
  exact Multiset.le_add_right _ _

theorem executed_subset {s₀ : StorageNode} {es : List StorageEvent}
    (hstart : s₀.stateChanges = {} ∧ s₀.handled = [])
    (h : Run (step S base64_encodeString) s₀ es s) :
    executed (updates es) ⊆ pushed (updates es) := by
  rcases updates_run hstart h with ⟨us, hrun, -, hpushed, hexecuted⟩
  rw [← hpushed, ← hexecuted]
  exact StateChangeQueues.executed_subset_pushed hrun

end StorageNode

end DecentralizedCloud.Storage
