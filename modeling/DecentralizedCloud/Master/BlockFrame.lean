import DecentralizedCloud.Master.Machine

/-!
# What only closing changes

The producers, the designated block storage node, the `BlockUtil` state and the
blocks that were sent are the business of `timeToCloseBlock`. Every other event
leaves them alone.
-/

namespace DecentralizedCloud

namespace Master

/-- `m'` has the producers, the block storage node, the `BlockUtil` state and
the sent blocks of `m`. -/
structure KeepsBlockState (m m' : Master) : Prop where
  nodeId : m'.nodeId = m.nodeId
  blockProducers : m'.blockProducers = m.blockProducers
  blockStorageNode : m'.blockStorageNode = m.blockStorageNode
  nextBlockNumber : m'.nextBlockNumber = m.nextBlockNumber
  previousHash : m'.previousHash = m.previousHash
  sentBlocks : m'.sentBlocks = m.sentBlocks

variable {P : Platform} {env : Env} {m m' m'' : Master} {tx : Transaction}

namespace KeepsBlockState

theorem refl (m : Master) : KeepsBlockState m m := ⟨rfl, rfl, rfl, rfl, rfl, rfl⟩

theorem trans (h : KeepsBlockState m m') (h' : KeepsBlockState m' m'') : KeepsBlockState m m'' :=
  ⟨h'.nodeId.trans h.nodeId, h'.blockProducers.trans h.blockProducers,
    h'.blockStorageNode.trans h.blockStorageNode, h'.nextBlockNumber.trans h.nextBlockNumber,
    h'.previousHash.trans h.previousHash, h'.sentBlocks.trans h.sentBlocks⟩

theorem emit (m : Master) {effects : List Effect} (h : ∀ e ∈ effects, closedBlock e = none) :
    KeepsBlockState m (m.emit effects) := by
  refine ⟨rfl, rfl, rfl, rfl, rfl, ?_⟩
  have hnone : effects.filterMap closedBlock = [] := List.filterMap_eq_nil_iff.mpr h
  simp [Master.sentBlocks, hnone]

theorem store (m : Master) (tx : Transaction) : KeepsBlockState m (m.store tx) :=
  ⟨rfl, rfl, rfl, rfl, rfl, rfl⟩

theorem transactions (m : Master) (t : TransactionsMap) :
    KeepsBlockState m { m with transactions := t } := ⟨rfl, rfl, rfl, rfl, rfl, rfl⟩

theorem queueOut (m : Master) (txs : List Transaction) :
    KeepsBlockState m { m with queueOut := txs } := ⟨rfl, rfl, rfl, rfl, rfl, rfl⟩

end KeepsBlockState

open KeepsBlockState

theorem keeps_getStateChangeStorageNode : KeepsBlockState m (getStateChangeStorageNode env m) := by
  have hnode : ∀ node, KeepsBlockState m { m with stateChangeStorageNode := node } :=
    fun _ => ⟨rfl, rfl, rfl, rfl, rfl, rfl⟩
  unfold getStateChangeStorageNode
  refine (hnode _).trans (KeepsBlockState.emit _ ?_)
  intro e he
  exact closedBlock_of_isPut (designateStorageNode_isPut env "sn_state_change_key" 2 1 _ e he)

theorem keeps_wsSend {key : String} {reply : Reply} (h : wsSend env m key reply = some m') :
    KeepsBlockState m m' := by
  unfold wsSend at h
  split at h <;> cases h
  · exact KeepsBlockState.emit m (by simp [closedBlock])
  · exact refl m

theorem keeps_sendToVerifier : KeepsBlockState m (sendToVerifier env m tx).1 := by
  unfold sendToVerifier
  split
  · exact refl m
  · dsimp only
    split
    · exact keeps_getStateChangeStorageNode
    · exact keeps_getStateChangeStorageNode.trans (KeepsBlockState.emit _ (by simp [closedBlock]))

theorem keeps_appendToQueueOut : KeepsBlockState m (appendToQueueOut m tx).1 := by
  unfold appendToQueueOut
  split
  · exact refl m
  · exact KeepsBlockState.queueOut m _

theorem keeps_sendCanCommit : KeepsBlockState m (sendCanCommit m tx) := by
  unfold sendCanCommit
  split
  · exact KeepsBlockState.emit m (by simp [closedBlock])
  · exact refl m

theorem keeps_checkVerification : KeepsBlockState m (checkVerification env m tx).1 := by
  unfold checkVerification
  split
  · split
    · dsimp only
      split
      · exact keeps_getStateChangeStorageNode
      · rename_i hsend
        exact keeps_getStateChangeStorageNode.trans
          ((keeps_wsSend hsend).trans (keeps_sendCanCommit.trans keeps_appendToQueueOut))
    · exact keeps_appendToQueueOut
  · exact refl m

/-- A code packet leaves the blocks alone. -/
theorem keeps_processCodePacket {p : CodePacket} :
    KeepsBlockState m (processCodePacket P env m p) := by
  unfold processCodePacket
  split
  · exact refl m
  · split
    · cases hsend : wsSend env m p.base64publicKey (.error notInM21 p.htxid) with
      | none => exact refl m
      | some m' => exact keeps_wsSend hsend
    · refine (KeepsBlockState.transactions m
        (m.transactions.insert (p.transaction env.guid env.now m.nodeId)).1).trans ?_
      dsimp only
      split
      · exact refl _
      · refine (KeepsBlockState.emit _ ?_).trans
          (keeps_sendToVerifier.trans (KeepsBlockState.store _ _))
        simp [closedBlock]

theorem keeps_updateTransaction {txId : String} {j : Json} :
    KeepsBlockState m (updateTransaction env m txId j) := by
  unfold updateTransaction
  dsimp only
  split
  · exact (KeepsBlockState.store _ _).trans
      (keeps_sendToVerifier.trans (keeps_checkVerification.trans (KeepsBlockState.store _ _)))
  · split
    · exact KeepsBlockState.store _ _
    · exact refl m

theorem keeps_processIncomingTransaction {data : String} :
    KeepsBlockState m (processIncomingTransaction P env m data) := by
  unfold processIncomingTransaction
  split
  · exact refl m
  · split
    · exact refl m
    · exact keeps_updateTransaction

theorem keeps_forwardException : KeepsBlockState m (forwardException env m tx) := by
  unfold forwardException
  dsimp only
  refine KeepsBlockState.trans ?_
    ((KeepsBlockState.transactions _ _).trans (KeepsBlockState.emit _ (by simp [closedBlock])))
  split
  · exact KeepsBlockState.queueOut m _
  · exact refl m

/-- An exception leaves the blocks alone. -/
theorem keeps_handleException {txId exp : String} :
    KeepsBlockState m (handleException env m txId exp) := by
  unfold handleException
  split
  · exact refl m
  · dsimp only
    split
    · exact KeepsBlockState.store m _
    · rename_i m₁ hreplied
      have hreply : KeepsBlockState m m₁ := by
        split at hreplied
        · exact keeps_wsSend hreplied
        · cases hreplied
          exact refl m
      refine hreply.trans ?_
      split
      · exact keeps_forwardException
      · exact KeepsBlockState.store _ _

theorem keeps_handleForwardedException {txstr : String} :
    KeepsBlockState m (handleForwardedException P env m txstr) := by
  unfold handleForwardedException
  split
  · exact refl m
  · dsimp only
    split
    · exact KeepsBlockState.queueOut m _
    · exact refl m

end Master

open Master

/-- Every event but the closing of a block leaves the block state alone. -/
theorem handle_keepsBlockState {P : Platform} {m m' : Master} {e : Event}
    (h : handle P m e = some m') (hmsg : e.msg ≠ .closeBlock) : KeepsBlockState m m' := by
  rcases e with ⟨env, msg⟩
  cases msg with
  | exeFunction p =>
      cases h
      exact keeps_processCodePacket
  | verificationResult txId hash output =>
      cases h
      exact keeps_checkVerification.trans (KeepsBlockState.store _ _)
  | txNotification data =>
      rw [handle_txNotification h]
      exact keeps_processIncomingTransaction
  | exception txId exp =>
      cases h
      exact keeps_handleException
  | forwardedException txstr =>
      rw [handle_forwardedException h]
      exact keeps_handleForwardedException
  | cleanup =>
      cases h
      exact KeepsBlockState.transactions m _
  | closeBlock => exact absurd rfl hmsg

end DecentralizedCloud
