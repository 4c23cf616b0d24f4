import Mathlib.Data.Fintype.Basic
import Mathlib.Logic.Function.Basic
import DecentralizedCloud.Master.BlockFrame

/-!
# The masters together

`n` masters with one list of block producers and one clock. Between two ticks
of the clock every master closes one block; everything else (messages, clean-ups)
happens at any master at any moment, so the queues of the masters may differ at
any time. Whatever a master assembles when it closes is recorded in `closings`,
a history that no step reads: the block is sent only by the producer of the
second.
-/

namespace DecentralizedCloud

open Machine Master

structure Cluster (n : Nat) where
  masters : Fin n → Master
  /-- seconds since the start -/
  elapsed : Nat
  /-- which masters have closed their block of this second -/
  closed : Fin n → Bool
  /-- the blocks that each master has assembled, sent or not -/
  closings : Fin n → List Block

inductive ClusterEvent (n : Nat) where
  /-- a master handles a message, or cleans up -/
  | message (i : Fin n) (e : Event)
  /-- a master runs `timeToCloseBlock` -/
  | close (i : Fin n) (env : Env)
  /-- the clock reaches the next second -/
  | tick

namespace Cluster

variable {n : Nat}

/-- The clock runs from `start`, and waits for the masters that still have to close. -/
def step (P : Platform) (start : Int) : Step (Cluster n) (ClusterEvent n) := fun c ev =>
  match ev with
  | .message i e =>
      -- a block is closed by `close` only, on the common clock
      if e.msg = .closeBlock then none
      else (handle P (c.masters i) e).map fun m =>
        { c with masters := Function.update c.masters i m }
  | .close i env =>
      if env.now = start + c.elapsed ∧ c.closed i = false then
        (assembleBlock P env (c.masters i)).map fun (block, m) =>
          { c with
            masters := Function.update c.masters i (publishBlock P env m block)
            closed := Function.update c.closed i true
            closings := Function.update c.closings i (c.closings i ++ [block]) }
      else none
  | .tick =>
      if ∀ i, c.closed i = true then
        some { c with elapsed := c.elapsed + 1, closed := fun _ => false }
      else none

/-- The key of the producer of a second. -/
def producerKey (producers : List Voter) (now : Int) : Option String :=
  (getCurrentBlockProducer producers now).bind fun i => (producers[i]?).map (·.publicKey)

theorem isBlockProducer_iff {env : Env} {m : Master} :
    isBlockProducer env m = true ↔ producerKey m.blockProducers env.now = some m.nodeId := by
  unfold isBlockProducer producerKey
  cases getCurrentBlockProducer m.blockProducers env.now with
  | none => simp
  | some i => cases h : m.blockProducers[i]? <;> simp [h]

/-- Two producers are enough for every second to have one. -/
theorem exists_producer {producers : List Voter} (h : 2 ≤ producers.length) (now : Int) :
    ∃ v ∈ producers, producerKey producers now = some v.publicKey := by
  unfold producerKey getCurrentBlockProducer
  rw [if_neg (by omega)]
  have hlt : (now.tmod 3600 % 2 ^ 64).toNat % producers.length < producers.length :=
    Nat.mod_lt _ (by omega)
  refine ⟨_, List.getElem_mem hlt, ?_⟩
  rw [Option.bind_some, List.getElem?_eq_getElem hlt, Option.map_some]

/-! ## Runs from the start -/

/-- The masters hold the same producers and know the block storage node; nothing
is closed or sent yet. -/
structure Start (producers : List Voter) (c : Cluster n) : Prop where
  elapsed : c.elapsed = 0
  closed : ∀ i, c.closed i = false
  closings : ∀ i, c.closings i = []
  blockProducers : ∀ i, (c.masters i).blockProducers = producers
  blockStorageNode : ∀ i, (c.masters i).blockStorageNode ≠ ""
  sentBlocks : ∀ i, (c.masters i).sentBlocks = []

/-- The state of one master: it has closed once in every second that is over,
and sent the blocks of the seconds in which it was the producer. -/
structure Coherent (start : Int) (producers : List Voter) (key : String) (elapsed : Nat)
    (closed : Bool) (closings : List Block) (m : Master) : Prop where
  nodeId : m.nodeId = key
  blockProducers : m.blockProducers = producers
  blockStorageNode : m.blockStorageNode ≠ ""
  length : closings.length = elapsed + closed.toNat
  time : ∀ (k : Nat) (b : Block), closings[k]? = some b → b.time = start + k
  sent : m.sentBlocks = closings.filter fun b => producerKey producers b.time = some key

variable {P : Platform} {start : Int} {producers : List Voter} {key : String} {elapsed : Nat}
  {closed : Bool} {closings : List Block} {m m' m₁ : Master} {env : Env} {block : Block}

theorem Coherent.keeps (h : Coherent start producers key elapsed closed closings m)
    (hkeeps : KeepsBlockState m m') :
    Coherent start producers key elapsed closed closings m' where
  nodeId := hkeeps.nodeId.trans h.nodeId
  blockProducers := hkeeps.blockProducers.trans h.blockProducers
  blockStorageNode := hkeeps.blockStorageNode ▸ h.blockStorageNode
  length := h.length
  time := h.time
  sent := hkeeps.sentBlocks.trans h.sent

/-- A closing in its second keeps a master coherent. -/
theorem Coherent.closes (h : Coherent start producers key elapsed false closings m)
    (hnow : env.now = start + elapsed) (hcloses : Closes P env m block m') :
    Coherent start producers key elapsed true (closings ++ [block]) m' where
  nodeId := hcloses.nodeId.trans h.nodeId
  blockProducers := hcloses.blockProducers.trans h.blockProducers
  blockStorageNode := hcloses.blockStorageNode ▸ h.blockStorageNode
  length := by simp [h.length]
  time := by
    intro k b hb
    have hlength : closings.length = elapsed := by simp [h.length]
    rcases Nat.lt_or_ge k closings.length with hlt | hge
    · -- an earlier closing
      rw [List.getElem?_append_left hlt] at hb
      exact h.time k b hb
    · rw [List.getElem?_append_right hge, List.getElem?_singleton] at hb
      split at hb
      · cases hb
        have hk : k = elapsed := by omega
        rw [hcloses.made.time, hnow, hk]
      · cases hb
  sent := by
    rw [hcloses.sentBlocks, h.sent, List.filter_append]
    congr 1
    have hproducer :
        isBlockProducer env m = true ↔ producerKey producers block.time = some key := by
      rw [isBlockProducer_iff, h.blockProducers, h.nodeId, hcloses.made.time]
    by_cases hkey : producerKey producers block.time = some key
    · simp [hproducer.mpr hkey, hkey]
    · simp [mt hproducer.mp hkey, hkey]

/-- All masters are coherent; `nodeId` are their keys. -/
def AllCoherent (start : Int) (producers : List Voter) (nodeId : Fin n → String) (c : Cluster n) :
    Prop :=
  ∀ i, Coherent start producers (nodeId i) c.elapsed (c.closed i) (c.closings i) (c.masters i)

variable {c c₀ c' : Cluster n}

theorem allCoherent_start (h : c.Start producers) :
    AllCoherent start producers (fun i => (c.masters i).nodeId) c := by
  intro i
  refine ⟨rfl, h.blockProducers i, h.blockStorageNode i, ?_, ?_, ?_⟩
  · simp [h.closings, h.elapsed, h.closed]
  · simp [h.closings]
  · simp [h.sentBlocks, h.closings]

/-- One step of the cluster, with what it does to the masters. -/
inductive Moves (P : Platform) (start : Int) (c : Cluster n) :
    ClusterEvent n → Cluster n → Prop where
  | message (i : Fin n) (e : Event) (m : Master) (hmsg : e.msg ≠ .closeBlock)
      (h : handle P (c.masters i) e = some m) :
      Moves P start c (.message i e) { c with masters := Function.update c.masters i m }
  | close (i : Fin n) (env : Env) (block : Block) (m : Master)
      (hnow : env.now = start + c.elapsed) (hopen : c.closed i = false)
      (h : assembleBlock P env (c.masters i) = some (block, m)) :
      Moves P start c (.close i env)
        { c with
          masters := Function.update c.masters i (publishBlock P env m block)
          closed := Function.update c.closed i true
          closings := Function.update c.closings i (c.closings i ++ [block]) }
  | tick (h : ∀ i, c.closed i = true) :
      Moves P start c .tick { c with elapsed := c.elapsed + 1, closed := fun _ => false }

/-- What a step of the cluster can do. -/
theorem moves_of_step {ev : ClusterEvent n} (h : step P start c ev = some c') :
    Moves P start c ev c' := by
  cases ev with
  | message i e =>
      simp only [step] at h
      split at h
      case isTrue => cases h
      case isFalse hmsg =>
          rcases Option.map_eq_some_iff.mp h with ⟨m, hm, rfl⟩
          exact .message i e m hmsg hm
  | close i env =>
      simp only [step] at h
      split at h
      case isTrue hok =>
          rcases Option.map_eq_some_iff.mp h with ⟨⟨block, m⟩, hm, rfl⟩
          exact .close i env block m hok.1 hok.2 hm
      case isFalse => cases h
  | tick =>
      simp only [step] at h
      split at h
      case isTrue hall =>
          cases h
          exact .tick hall
      case isFalse => cases h

/-- Every step of the cluster keeps all masters coherent. -/
theorem allCoherent_step {nodeId : Fin n → String} {ev : ClusterEvent n}
    (hinv : AllCoherent start producers nodeId c) (hstep : step P start c ev = some c') :
    AllCoherent start producers nodeId c' := by
  intro j
  have hj := hinv j
  cases moves_of_step hstep with
  | message i e m hmsg h =>
      rcases eq_or_ne j i with rfl | hne
      · simpa using hj.keeps (handle_keepsBlockState h hmsg)
      · simpa [hne] using hj
  | close i env block m hnow hopen h =>
      rcases eq_or_ne j i with rfl | hne
      · rw [hopen] at hj
        simpa using hj.closes hnow (closes_publishBlock hj.blockStorageNode h)
      · simpa [hne] using hj
  | tick h =>
      rw [h j] at hj
      exact { hj with length := by simp [hj.length] }

/-! ## Two masters -/

/-- The masters "m1" and "m2" at second 100, in which "m1" is the producer. -/
def twoMasters : Cluster 2 where
  masters i := { Sample.master with
    nodeId := if i = 0 then "m1" else "m2", blockProducers := Sample.producers }
  elapsed := 0
  closed _ := false
  closings _ := []

/-- The messages that let a master queue the transaction. -/
def verifiedOn (i : Fin 2) : List (ClusterEvent 2) :=
  (⟨Sample.env, .txNotification (Sample.jsonText Sample.tx)⟩ ::
    Sample.results 14 "a" "out").map (.message i)

def closeAll (now : Int) : List (ClusterEvent 2) :=
  [.close 0 { Sample.env with now }, .close 1 { Sample.env with now }]

theorem twoMasters_start : twoMasters.Start Sample.producers where
  elapsed := rfl
  closed _ := rfl
  closings _ := rfl
  blockProducers _ := rfl
  blockStorageNode := by decide
  sentBlocks _ := rfl

end Cluster

end DecentralizedCloud
