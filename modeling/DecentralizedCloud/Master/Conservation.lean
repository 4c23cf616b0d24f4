import DecentralizedCloud.Lib.KeySort
import DecentralizedCloud.Master.VerifyBlock

/-!
# Where transactions end up

A closing takes the transactions that are due out of `queueOut` and numbers a block
of them, and only then looks for the storage node that the block is to be sent to. A
producer that finds none returns at this point, and the transactions are nowhere. A
block whose number is taken is not entered into `blocks` either.

Otherwise every transaction stays in the queue or is in the block (`conserves_iff`).
-/

namespace DecentralizedCloud

namespace Master

/-! ## What is conserved -/

/-- The blocks that a closing keeps: a master that does not send its block drops all blocks
when there are more than 200. -/
def keptBlocks (env : Env) (m : Master) : BlocksMap :=
  if isBlockProducer env m = false ∧ m.blocks.length > 200 then [] else m.blocks

/-- The closing has entered a block of the transactions that were due, and has sent it if it
was to be sent. -/
structure RecordsDue (env : Env) (m m' : Master) (block : Block) : Prop where
  data : ∃ txs : List Transaction,
    txs.Perm (m.queueOut.filter fun tx => tx.timestamp ≤ env.now) ∧
      txs.Pairwise (fun a b => a.timestamp ≤ b.timestamp) ∧ block.data = .arr (txs.map (·.toJson))
  recorded : m'.blocks = keptBlocks env m ++ [(block.number, block)]
  sent : isBlockProducer env m = true → m'.blockStorageNode ≠ "" ∧
    ∃ effects si key, m'.sent = m.sent ++ effects ∧
      .gossip m'.blockStorageNode (.closeBlock block si key) ∈ effects

/-- The transactions that are not due stay in the queue, and those that are due are in the
block. -/
structure Conserves (env : Env) (m m' : Master) : Prop where
  queueOut : m'.queueOut.Perm (m.queueOut.filter fun tx => env.now < tx.timestamp)
  due : (∃ tx ∈ m.queueOut, tx.timestamp ≤ env.now) → ∃ block, RecordsDue env m m' block

/-- A producer finds a storage node, and the number of the block is not taken. -/
def Recordable (env : Env) (m : Master) : Prop :=
  (isBlockProducer env m = true → FindsBlockStorageNode env m) ∧
    ∀ number ∈ numberFrom (env.dhtGet "genesisStamp") env.now m.nextBlockNumber,
      (keptBlocks env m).lookup number = none

/-! ## The two halves of a closing -/

variable {P : Platform} {env : Env} {m m' m₁ : Master} {block : Block}

theorem due_perm : (due P env m).Perm (m.queueOut.filter fun tx => tx.timestamp ≤ env.now) := by
  rw [due, KeySort.takeWhile_eq_filter (P.sort_sorted m.queueOut) env.now]
  exact (P.sort_perm m.queueOut).filter _

theorem notDue_perm :
    (notDue P env m).Perm (m.queueOut.filter fun tx => env.now < tx.timestamp) := by
  rw [notDue, KeySort.dropWhile_eq_filter (P.sort_sorted m.queueOut) env.now]
  exact (P.sort_perm m.queueOut).filter _

theorem due_sorted : (due P env m).Pairwise fun a b => a.timestamp ≤ b.timestamp :=
  (P.sort_sorted m.queueOut).sublist (List.takeWhile_sublist _)

/-- The first half makes a block of what is due, and leaves the stored blocks alone. -/
theorem assembleBlock_data (h : assembleBlock P env m = some (block, m₁)) :
    block.data = .arr ((due P env m).map (·.toJson)) ∧ m₁.blocks = m.blocks := by
  rcases getBlock_eq_some h with ⟨number, m₂, hnumber, rfl, -, rfl⟩
  refine ⟨?_, ?_⟩
  · simp [makeBlock, Transaction.setBlockId, Transaction.toJson]
  · unfold getNextBlockNumber at hnumber
    split at hnumber
    · dsimp only at hnumber
      split at hnumber
      · cases hnumber
        rfl
      · rcases Option.map_eq_some_iff.mp hnumber with ⟨genesis, -, heq⟩
        cases heq
        rfl
    · cases hnumber
      rfl

/-- A producer without a storage node stores nothing. -/
theorem blocks_publishBlock_of_lost (hproducer : isBlockProducer env m = true)
    (hfinds : ¬FindsBlockStorageNode env m) :
    (publishBlock P env m block).blocks = keptBlocks env m := by
  have hnode : (getBlockStorageNode env m).blockStorageNode = "" := by
    by_contra hne
    exact hfinds (getBlockStorageNode_ne_iff.mp hne)
  unfold publishBlock
  rw [if_pos hproducer]
  dsimp only
  rw [if_pos hnode]
  simp [keptBlocks, hproducer, getBlockStorageNode, emit]

theorem blocks_publishBlock (hfinds : isBlockProducer env m = true → FindsBlockStorageNode env m) :
    (publishBlock P env m block).blocks = BlocksMap.insert (keptBlocks env m) block := by
  unfold publishBlock
  by_cases hproducer : isBlockProducer env m = true
  · have hnode : (getBlockStorageNode env m).blockStorageNode ≠ "" :=
      getBlockStorageNode_ne_iff.mpr (hfinds hproducer)
    rw [if_pos hproducer]
    dsimp only
    rw [if_neg hnode]
    simp [keptBlocks, hproducer, getBlockStorageNode, storeBlock, emit]
  · simp [keptBlocks, hproducer, storeBlock]

theorem sent_getBlockStorageNode (env : Env) (m : Master) :
    ∃ effects, (getBlockStorageNode env m).sent = m.sent ++ effects := ⟨_, rfl⟩

/-- A producer that finds a storage node sends the block to it. -/
theorem sent_publishBlock (P : Platform) (block : Block)
    (hproducer : isBlockProducer env m = true)
    (hfinds : FindsBlockStorageNode env m) :
    (publishBlock P env m block).blockStorageNode ≠ "" ∧
      ∃ effects si key, (publishBlock P env m block).sent = m.sent ++ effects ∧
        .gossip (publishBlock P env m block).blockStorageNode (.closeBlock block si key) ∈
          effects := by
  have hnode : (getBlockStorageNode env m).blockStorageNode ≠ "" :=
    getBlockStorageNode_ne_iff.mpr hfinds
  have hpublish : publishBlock P env m block =
      storeBlock ((getBlockStorageNode env m).emit [.gossip (getBlockStorageNode env
        m).blockStorageNode (.closeBlock block (P.createX509Signature block.hash m.nodeId)
          m.base64encodedKey)]) block := by
    unfold publishBlock
    rw [if_pos hproducer]
    dsimp only
    rw [if_neg hnode]
    rfl
  rcases sent_getBlockStorageNode env m with ⟨puts, hputs⟩
  rw [hpublish]
  refine ⟨hnode, puts ++ [.gossip (getBlockStorageNode env m).blockStorageNode
    (.closeBlock block (P.createX509Signature block.hash m.nodeId) m.base64encodedKey)], _, _, ?_,
    List.mem_append_right _ (List.mem_singleton_self _)⟩
  rw [← List.append_assoc, ← hputs]
  rfl

/-! ## The whole closing -/

theorem insert_eq_append_iff {blocks : BlocksMap} {block' : Block} :
    BlocksMap.insert blocks block = blocks ++ [(block'.number, block')] ↔
      blocks.lookup block.number = none ∧ block' = block := by
  unfold BlocksMap.insert
  cases hlookup : blocks.lookup block.number with
  | some held => simp
  | none =>
      simp only [Option.isSome_none, Bool.false_eq_true, if_false, List.append_cancel_left_eq,
        List.cons.injEq, Prod.mk.injEq, and_true, true_and]
      constructor
      · rintro ⟨-, rfl⟩
        rfl
      · rintro rfl
        exact ⟨rfl, rfl⟩

/-- A closing enters the block exactly when it can be recorded. -/
theorem recorded_iff (hassemble : assembleBlock P env m = some (block, m₁)) {block' : Block} :
    (publishBlock P env m₁ block).blocks = keptBlocks env m ++ [(block'.number, block')] ↔
      Recordable env m ∧ block' = block := by
  have hadv := (assembleBlock_advances hassemble).1
  have hmade := assembleBlock_madeOf hassemble
  have hproducer : isBlockProducer env m₁ = isBlockProducer env m := by
    simp [isBlockProducer, hadv.nodeId, hadv.blockProducers]
  have hfinds : FindsBlockStorageNode env m₁ ↔ FindsBlockStorageNode env m := by
    simp [FindsBlockStorageNode, hadv.blockStorageNode]
  have hkept : keptBlocks env m₁ = keptBlocks env m := by
    simp [keptBlocks, hproducer, (assembleBlock_data hassemble).2]
  unfold Recordable
  rw [hmade.number]
  -- the block is dropped with its transactions where there is nobody to send it to
  by_cases hlost : isBlockProducer env m = true ∧ ¬FindsBlockStorageNode env m
  · rw [blocks_publishBlock_of_lost (hproducer ▸ hlost.1) (mt hfinds.mp hlost.2), hkept]
    simp [hlost]
  · simp only [not_and, not_not] at hlost
    rw [blocks_publishBlock fun h => hfinds.mpr (hlost (hproducer ▸ h)), hkept,
      insert_eq_append_iff]
    simp only [Option.mem_def, Option.some.injEq, forall_eq']
    exact and_congr_left fun _ => (and_iff_right hlost).symm

/-- A closing drops no transaction if and only if none is due or the block can be recorded. -/
theorem conserves_iff (h : timeToCloseBlock P env m = some m') :
    Conserves env m m' ↔ (∀ tx ∈ m.queueOut, env.now < tx.timestamp) ∨ Recordable env m := by
  rcases timeToCloseBlock_eq_some h with ⟨block, m₁, hassemble, rfl⟩
  have hadv := (assembleBlock_advances hassemble).1
  have hqueue : (publishBlock P env m₁ block).queueOut.Perm
      (m.queueOut.filter fun tx => env.now < tx.timestamp) := by
    rw [publishBlock_same.queueOut, hadv.queueOut]
    exact notDue_perm
  constructor
  · intro hconserves
    -- what is due is in a recorded block
    by_cases hdue : ∃ tx ∈ m.queueOut, tx.timestamp ≤ env.now
    · rcases hconserves.due hdue with ⟨block', hrecords⟩
      exact .inr ((recorded_iff hassemble).mp hrecords.recorded).1
    · simp only [not_exists, not_and, Int.not_le] at hdue
      exact .inl hdue
  · intro hcond
    refine ⟨hqueue, fun hdue => ⟨block, ?_⟩⟩
    -- something is due, so the block can be recorded
    have hrecordable : Recordable env m := by
      rcases hcond with hnone | hrecordable
      · rcases hdue with ⟨tx, htx, hle⟩
        have hlt := hnone tx htx
        omega
      · exact hrecordable
    constructor
    case data => exact ⟨due P env m, due_perm, due_sorted, (assembleBlock_data hassemble).1⟩
    case recorded => exact (recorded_iff hassemble).mpr ⟨hrecordable, rfl⟩
    -- the producer sends the block after what the assembly has sent
    case sent =>
        intro hproducer
        have hproducer₁ : isBlockProducer env m₁ = true := by
          simpa [isBlockProducer, hadv.nodeId, hadv.blockProducers] using hproducer
        have hfinds : FindsBlockStorageNode env m₁ := by
          simpa [FindsBlockStorageNode, hadv.blockStorageNode] using hrecordable.1 hproducer
        rcases sent_publishBlock P block hproducer₁ hfinds with
          ⟨hnode, effects, si, key, hsent, hmem⟩
        rcases hadv.sent with ⟨puts, hputs, -⟩
        refine ⟨hnode, puts ++ effects, si, key, ?_, List.mem_append_right _ hmem⟩
        rw [hsent, hputs, List.append_assoc]

end Master

/-! ## A producer without a storage node -/

namespace Sample

/-- The first of two producers, in a second that is its own. -/
def closingMaster : Master :=
  { master with blockProducers := producers, queueOut := [tx] }

/-- The same, before it has found a storage node. -/
def lonelyMaster : Master := { closingMaster with blockStorageNode := "" }

/-- Nothing is registered. -/
def lonelyEnv : Env :=
  { env with nodes := {
      numberOfVerifiers := 0, verifierKeys := [], numberOfStorageNodes := 0, storageKeys := [] } }

end Sample

namespace Master

/-- A producer that has found a storage node sends the block with the transaction. -/
theorem conserves_iff_known :
    ∃ m', timeToCloseBlock (Sample.platform []) Sample.env Sample.closingMaster = some m' ∧
      Conserves Sample.env Sample.closingMaster m' := by
  have hrecordable : Recordable Sample.env Sample.closingMaster :=
    ⟨fun _ => .inl (by decide), fun _ _ => rfl⟩
  obtain ⟨m', hclose⟩ : ∃ m', timeToCloseBlock (Sample.platform []) Sample.env
      Sample.closingMaster = some m' := Option.isSome_iff_exists.mp (by decide +kernel)
  exact ⟨m', hclose, (conserves_iff hclose).mpr (.inr hrecordable)⟩

/-- Without a storage node the transaction is neither in the queue nor in a block. -/
theorem transaction_lost :
    ∃ m', timeToCloseBlock (Sample.platform []) Sample.lonelyEnv Sample.lonelyMaster = some m' ∧
      m'.queueOut = [] ∧ m'.blocks = [] ∧
        ¬Conserves Sample.lonelyEnv Sample.lonelyMaster m' := by
  obtain ⟨m', hclose, hcheck⟩ : ∃ m', timeToCloseBlock (Sample.platform []) Sample.lonelyEnv
      Sample.lonelyMaster = some m' ∧
        decide (m'.queueOut = [] ∧ m'.blocks.length = 0) = true :=
    (Option.any_eq_true _ _).mp (by decide +kernel)
  rcases of_decide_eq_true hcheck with ⟨hqueue, hlength⟩
  have hnoBlock : m'.blocks = [] := List.length_eq_zero_iff.mp hlength
  refine ⟨m', hclose, hqueue, hnoBlock, ?_⟩
  intro hconserves
  rcases hconserves.due ⟨Sample.tx, List.mem_singleton_self _, by decide⟩ with ⟨block, hrecords⟩
  have hblocks : m'.blocks =
      keptBlocks Sample.lonelyEnv Sample.lonelyMaster ++ [(block.number, block)] :=
    hrecords.recorded
  rw [hnoBlock] at hblocks
  simp at hblocks

end Master

end DecentralizedCloud
