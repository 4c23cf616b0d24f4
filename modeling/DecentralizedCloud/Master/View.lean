import DecentralizedCloud.Master.Closing

/-!
# What a master has and does about one transaction

`view id m` collects everything in the state of a master that concerns one
transaction id: the transaction held under it, its copies in `queueOut`, the
final responses sent to clients for it, and the `canCommit` messages that name
it. Each function of the verification is described here by what it does to the
view of the transaction it is about (`View.check` for `checkVerification`); the
views of all other transactions stay as they are. Invariants over runs use
these equations and do not unfold the functions again.
-/

namespace DecentralizedCloud

open Utf8

/-- A final response: a result or an exception. -/
def Reply.answers (id : String) : Reply → Bool
  | .result txid _ _ => txid = id
  | .exception txid _ => txid = id
  | .error _ _ | .ack _ _ => false

def Effect.respondsTo (id : String) : Effect → Bool
  | .send _ reply => reply.answers id
  | _ => false

def Effect.commits (id : String) : Effect → Bool
  | .gossip _ (.canCommit txid _ _) => txid = id
  | _ => false

structure View where
  held : Option Transaction
  queued : List Transaction
  responses : List Effect
  commits : List Effect

namespace Master

def view (id : String) (m : Master) : View where
  held := m.transactions.find id
  queued := m.queueOut.filter fun tx => tx.txId = id
  responses := m.sent.filter fun e => e.respondsTo id
  commits := m.sent.filter fun e => e.commits id

variable {P : Platform} {env : Env} {m : Master} {tx : Transaction} {id : String}

/-! ## Updates that a view does not see -/

theorem view_emit {effects : List Effect} (hr : ∀ e ∈ effects, e.respondsTo id = false)
    (hc : ∀ e ∈ effects, e.commits id = false) : (m.emit effects).view id = m.view id := by
  have hr' : effects.filter (fun e => e.respondsTo id) = [] := by simpa using hr
  have hc' : effects.filter (fun e => e.commits id) = [] := by simpa using hc
  simp [view, List.filter_append, hr', hc']

theorem view_emit_puts {effects : List Effect} (h : ∀ e ∈ effects, e.IsPut) :
    (m.emit effects).view id = m.view id := by
  apply view_emit
  all_goals
    intro e he
    have hput := h e he
    cases e with
    | dhtPut => rfl
    | send | gossip => cases hput

theorem view_store_ne (h : tx.txId ≠ id) : (m.store tx).view id = m.view id := by
  simp [view, TransactionsMap.find_set_ne _ (Ne.symm h)]

theorem view_store (h : tx.txId = id) :
    (m.store tx).view id = { m.view id with held := some tx } := by
  subst h
  simp [view]

/-- The state-change storage node that this master uses from now on. -/
def stateNode (env : Env) (m : Master) : String :=
  (getStateChangeStorageNode env m).stateChangeStorageNode

theorem designateStorageNode_isPut (env : Env) (dhtKey : String) (atLeast index : Nat)
    (known : String) : ∀ e ∈ (designateStorageNode env dhtKey atLeast index known).2, e.IsPut := by
  intro e he
  unfold designateStorageNode at he
  split at he
  · simp at he
  · split at he
    · simp at he
    · dsimp only at he
      split at he
      · simp at he
      · rw [List.mem_singleton.mp he]
        trivial

@[simp] theorem view_getStateChangeStorageNode :
    (getStateChangeStorageNode env m).view id = m.view id :=
  view_emit_puts (designateStorageNode_isPut env "sn_state_change_key" 2 1 _)

@[simp] theorem view_getBlockStorageNode : (getBlockStorageNode env m).view id = m.view id :=
  view_emit_puts (designateStorageNode_isPut env "sn_block_close_key" 1 0 _)

/-- A known storage node is kept. -/
theorem stateNode_of_known (h : m.stateChangeStorageNode ≠ "") :
    stateNode env m = m.stateChangeStorageNode := by
  simp [stateNode, getStateChangeStorageNode, designateStorageNode, h]

theorem getStateChangeStorageNode_known (h : m.stateChangeStorageNode ≠ "") :
    getStateChangeStorageNode env m = m := by
  simp [getStateChangeStorageNode, designateStorageNode, h, emit]

@[simp] theorem stateNode_store : stateNode env (m.store tx) = stateNode env m := rfl

theorem held_txId (h : (m.view id).held = some tx) : tx.txId = id :=
  m.transactions.find_txId h

/-! ## Requests to verifiers -/

@[simp] theorem view_sendToVerifier : (sendToVerifier env m tx).1.view id = m.view id := by
  unfold sendToVerifier
  split
  · rfl
  · dsimp only
    split
    · simp
    · rw [view_emit] <;> simp [Effect.respondsTo, Effect.commits]

/-- Only the compute node of the transaction may change. -/
theorem sendToVerifier_tx :
    ∃ cid, (sendToVerifier env m tx).2 = { tx with computeNodeId := cid } := by
  unfold sendToVerifier
  split
  · exact ⟨tx.computeNodeId, rfl⟩
  · dsimp only
    split
    · split
      · exact ⟨_, rfl⟩
      · exact ⟨tx.computeNodeId, rfl⟩
    · split
      · exact ⟨_, rfl⟩
      · exact ⟨tx.computeNodeId, rfl⟩

theorem sendToVerifier_known (h : m.stateChangeStorageNode ≠ "") :
    (sendToVerifier env m tx).1.stateChangeStorageNode = m.stateChangeStorageNode := by
  unfold sendToVerifier
  split
  · rfl
  · simp [getStateChangeStorageNode_known h, h]

/-! ## The check -/

/-- What becomes of the result of `tx`; the warning that it may carry always prints. -/
def resultDelivery (env : Env) (tx : Transaction) : Delivery :=
  env.deliver tx.publicKey (.result tx.txId tx.output none)

theorem deliver_result (node : String) :
    env.deliver tx.publicKey (.result tx.txId tx.output
      (if node = "" then some noStorageWarning else none)) = resultDelivery env tx := by
  have hwarning : isUtf8 noStorageWarning = true := by decide +kernel
  unfold resultDelivery Env.deliver
  by_cases hnode : node = "" <;> simp [Reply.prints, hnode, hwarning]

/-- The check of `tx` runs into an exception: the result cannot be printed or sent. -/
def raises (env : Env) (tx : Transaction) : Bool :=
  tx.isVerified && tx.canSend && decide (resultDelivery env tx = .raised)

/-- The check of `tx` counts as having answered the client. -/
def answers (env : Env) (tx : Transaction) : Bool :=
  tx.isVerified && tx.canSend && decide (resultDelivery env tx ≠ .raised)

/-- The check of `tx` appends it to `queueOut`. -/
def queues (env : Env) (tx : Transaction) : Bool :=
  tx.isVerified && !raises env tx && !tx.inBlock

/-- The transaction after the client was answered, the copy that enters `queueOut`. -/
def answered (env : Env) (tx : Transaction) : Transaction :=
  if answers env tx then tx.setSentToClient else tx

/-- The transaction after its check. -/
def checked (env : Env) (tx : Transaction) : Transaction :=
  if queues env tx then (answered env tx).setInBlock else answered env tx

end Master

open Master in
/-- What `checkVerification` makes of the view of the transaction it checks;
`node` is the state-change storage node by then. -/
def View.check (env : Env) (node : String) (tx : Transaction) (v : View) : View where
  held := some (checked env tx)
  queued := if queues env tx then v.queued ++ [answered env tx] else v.queued
  responses :=
    if answers env tx ∧ resultDelivery env tx = .sent then
      v.responses ++ [.send tx.publicKey (.result tx.txId tx.output
        (if node = "" then some noStorageWarning else none))]
    else v.responses
  commits :=
    if answers env tx ∧ node ≠ "" then
      v.commits ++ [.gossip tx.computeNodeId (.canCommit tx.txId node "")]
    else v.commits

/-- The responses after the reply of the exception handler. -/
def View.told (env : Env) (id exp : String) (tx : Transaction) (v : View) : List Effect :=
  if tx.computeNode = true ∧ env.deliver tx.publicKey (.exception id exp) = .sent then
    v.responses ++ [.send tx.publicKey (.exception id exp)]
  else v.responses

namespace Master

variable {P : Platform} {env : Env} {m : Master} {tx : Transaction} {id : String}

theorem checkVerification_tx : (checkVerification env m tx).2 = checked env tx := by
  unfold checkVerification
  split
  case isFalse hv => simp [checked, answered, answers, queues, hv]
  case isTrue hv =>
      split
      case isFalse hc =>
          cases hb : tx.inBlock <;>
            simp [appendToQueueOut, checked, answered, answers, queues, raises, hv, hc, hb]
      case isTrue hc =>
          cases hs : resultDelivery env tx <;> cases hb : tx.inBlock <;>
            simp [wsSend, deliver_result, appendToQueueOut, checked, answered, answers, queues,
              raises, hv, hc, hs, hb, Transaction.setSentToClient]

/-! The three updates of a check, each seen from the id of the transaction. -/

theorem view_emit_send {reply : Reply} {key : String} (h : reply.answers id = true) :
    (m.emit [.send key reply]).view id =
      { m.view id with responses := (m.view id).responses ++ [.send key reply] } := by
  simp [view, List.filter_append, Effect.respondsTo, Effect.commits, h]

theorem view_sendCanCommit (h : tx.txId = id) :
    (sendCanCommit m tx).view id =
      { m.view id with
        commits :=
          if m.stateChangeStorageNode = "" then (m.view id).commits
          else (m.view id).commits ++
            [.gossip tx.computeNodeId (.canCommit tx.txId m.stateChangeStorageNode "")] } := by
  unfold sendCanCommit
  by_cases hnode : m.stateChangeStorageNode = "" <;>
    simp [hnode, view, List.filter_append, Effect.respondsTo, Effect.commits, h]

theorem view_appendToQueueOut (h : tx.txId = id) :
    ((appendToQueueOut m tx).1.store (appendToQueueOut m tx).2).view id =
      { m.view id with
        held := some (if tx.inBlock then tx else tx.setInBlock)
        queued := if tx.inBlock then (m.view id).queued else (m.view id).queued ++ [tx] } := by
  unfold appendToQueueOut
  split
  · exact view_store h
  · rw [view_store (by exact h)]
    simp [view, h]

/-- The check of a transaction, seen from its own id. -/
theorem view_checkVerification (h : tx.txId = id) :
    ((checkVerification env m tx).1.store (checkVerification env m tx).2).view id =
      (m.view id).check env (stateNode env m) tx := by
  have hsent : tx.setSentToClient.txId = id := h
  unfold checkVerification
  split
  case isFalse hv =>
      -- not verified
      rw [view_store h]
      simp [View.check, checked, answered, answers, queues, hv]
  case isTrue hv =>
      split
      case isFalse hc =>
          -- a master that did not take the request only queues
          rw [view_appendToQueueOut h]
          cases hb : tx.inBlock <;>
            simp [View.check, checked, answered, answers, queues, raises, hv, hc, hb]
      case isTrue hc =>
          by_cases hnode : (getStateChangeStorageNode env m).stateChangeStorageNode = ""
          all_goals
            dsimp only
            cases hs : resultDelivery env tx with
            -- the answer raises, and nothing else is done
            | raised =>
                simp only [wsSend, deliver_result, hs]
                rw [view_store h, view_getStateChangeStorageNode]
                simp [View.check, checked, answered, answers, queues, raises, hv, hc, hs]
            -- the client is gone
            | skipped =>
                simp only [wsSend, deliver_result, hs]
                rw [view_appendToQueueOut hsent, view_sendCanCommit hsent,
                  view_getStateChangeStorageNode]
                cases hb : tx.inBlock <;>
                  simp [View.check, checked, answered, answers, queues, raises, hv, hc, hs, hb,
                    hnode, stateNode, Transaction.setSentToClient]
            | sent =>
                simp only [wsSend, deliver_result, hs]
                rw [view_appendToQueueOut hsent, view_sendCanCommit hsent,
                  view_emit_send (by simp [Reply.answers, h]), view_getStateChangeStorageNode]
                cases hb : tx.inBlock <;>
                  simp [View.check, checked, answered, answers, queues, raises, hv, hc, hs, hb,
                    hnode, stateNode, Transaction.setSentToClient]

theorem view_appendToQueueOut_ne (h : tx.txId ≠ id) :
    (appendToQueueOut m tx).1.view id = m.view id := by
  unfold appendToQueueOut
  split
  · rfl
  · simp [view, h]

theorem view_sendCanCommit_ne (h : tx.txId ≠ id) : (sendCanCommit m tx).view id = m.view id := by
  unfold sendCanCommit
  split
  · rw [view_emit] <;> simp [Effect.respondsTo, Effect.commits, h]
  · rfl

/-- The check of a transaction, seen from another id. -/
theorem view_checkVerification_ne (h : tx.txId ≠ id) :
    (checkVerification env m tx).1.view id = m.view id := by
  have hsent : tx.setSentToClient.txId ≠ id := h
  unfold checkVerification
  split
  · split
    · dsimp only
      cases hs : resultDelivery env tx with
      | raised => simp [wsSend, deliver_result, hs]
      | skipped =>
          simp [wsSend, deliver_result, hs, view_appendToQueueOut_ne hsent,
            view_sendCanCommit_ne hsent]
      | sent =>
          simp only [wsSend, deliver_result, hs]
          rw [view_appendToQueueOut_ne hsent, view_sendCanCommit_ne hsent, view_emit,
            view_getStateChangeStorageNode]
          · simp [Effect.respondsTo, Reply.answers, h]
          · simp [Effect.commits]
    · exact view_appendToQueueOut_ne h
  · rfl

/-! A check only sets the two flags. -/

theorem checked_eq :
    checked env tx =
      { tx with
        sentToClient := tx.sentToClient || answers env tx
        inBlock := tx.inBlock || queues env tx } := by
  unfold checked answered
  cases hqueues : queues env tx <;> cases hanswers : answers env tx <;>
    simp [Transaction.setInBlock, Transaction.setSentToClient]

@[simp] theorem checked_txId : (checked env tx).txId = tx.txId := by
  rw [checked_eq]

@[simp] theorem checked_totalVerified : (checked env tx).totalVerified = tx.totalVerified := by
  rw [checked_eq]

@[simp] theorem checked_lastValidHash : (checked env tx).lastValidHash = tx.lastValidHash := by
  rw [checked_eq]

@[simp] theorem checked_receivedOutput : (checked env tx).receivedOutput = tx.receivedOutput := by
  rw [checked_eq]

@[simp] theorem checked_receivedFullTransaction :
    (checked env tx).receivedFullTransaction = tx.receivedFullTransaction := by
  rw [checked_eq]

@[simp] theorem checked_output : (checked env tx).output = tx.output := by
  rw [checked_eq]

@[simp] theorem checked_computeNode : (checked env tx).computeNode = tx.computeNode := by
  rw [checked_eq]

@[simp] theorem checked_publicKey : (checked env tx).publicKey = tx.publicKey := by
  rw [checked_eq]

theorem checked_sentToClient :
    (checked env tx).sentToClient = (tx.sentToClient || answers env tx) := by
  rw [checked_eq]

theorem checked_inBlock : (checked env tx).inBlock = (tx.inBlock || queues env tx) := by
  rw [checked_eq]

/-! ## The messages -/

/-- A transaction after a result with this hash and output was counted. -/
def counted (tx : Transaction) (hash output : String) : Transaction :=
  ((if output ≠ "" then tx.setOutput output else tx).verifyHash hash).1

theorem counted_eq (tx : Transaction) (hash output : String) :
    counted tx hash output =
      { tx with
        output := if output ≠ "" then output else tx.output
        receivedOutput := tx.receivedOutput || decide (output ≠ "")
        lastValidHash := if tx.lastValidHash = "" then hash else tx.lastValidHash
        totalVerified := tx.totalVerified +
          if tx.lastValidHash = "" ∨ hash = tx.lastValidHash then 1 else 0 } := by
  unfold counted Transaction.verifyHash
  by_cases ho : output = "" <;> by_cases hl : tx.lastValidHash = "" <;>
    by_cases hh : hash = tx.lastValidHash <;>
    simp [ho, hl, hh, Transaction.setOutput, Transaction.incrementTotalVerified]

@[simp] theorem counted_txId (tx : Transaction) (hash output : String) :
    (counted tx hash output).txId = tx.txId := by
  rw [counted_eq]

theorem verifyTransaction_eq (env : Env) (m : Master) (txId hash output : String) :
    verifyTransaction env m txId hash output =
      let tx := counted ((m.transactions.find txId).getD (.ofResult txId hash env.now)) hash output
      (checkVerification env m tx).1.store (checkVerification env m tx).2 := rfl

/-- The transaction that a result for `id` finds or creates. -/
theorem getD_ofResult_txId (m : Master) (id hash : String) (now : Int) :
    ((m.transactions.find id).getD (.ofResult id hash now)).txId = id := by
  cases hfind : m.transactions.find id with
  | none => rfl
  | some tx => exact m.transactions.find_txId hfind

theorem view_verifyTransaction (env : Env) (m : Master) (id hash output : String) :
    (verifyTransaction env m id hash output).view id =
      (m.view id).check env (stateNode env m)
        (counted ((m.view id).held.getD (.ofResult id hash env.now)) hash output) := by
  rw [verifyTransaction_eq]
  exact view_checkVerification (by rw [counted_txId, getD_ofResult_txId])

theorem view_verifyTransaction_ne {txId : String} (h : txId ≠ id) (env : Env) (m : Master)
    (hash output : String) : (verifyTransaction env m txId hash output).view id = m.view id := by
  have hne : (counted ((m.transactions.find txId).getD (.ofResult txId hash env.now)) hash
      output).txId ≠ id := by
    rw [counted_txId, getD_ofResult_txId]
    exact h
  rw [verifyTransaction_eq]
  dsimp only
  rw [view_store_ne, view_checkVerification_ne hne]
  rw [checkVerification_tx, checked_txId]
  exact hne

/-- A notification that fills its transaction in completely: it is sent to a
verifier and checked. -/
theorem view_updateTransaction_complete {j : Json} (hid : j.stringAt "txid" = some id)
    (hcomplete : (Transaction.fromJson j ((m.view id).held.getD {})).2 = true) :
    ∃ cid node, (updateTransaction env m id j).view id =
      (m.view id).check env node
        { (Transaction.fromJson j ((m.view id).held.getD {})).1 with computeNodeId := cid } ∧
      (m.stateChangeStorageNode ≠ "" → node = m.stateChangeStorageNode) := by
  have htx : ∀ tx, (Transaction.fromJson j tx).1.txId = id := Transaction.fromJson_txId hid
  have hheld : (m.view id).held = m.transactions.find id := rfl
  rw [hheld] at hcomplete ⊢
  unfold updateTransaction
  dsimp only
  rw [if_pos hcomplete]
  -- `tx` is the filled transaction, `m₁` the state after the request to the verifier
  generalize htx₀ : (Transaction.fromJson j ((m.transactions.find id).getD {})).1 = tx
  have hid' : tx.txId = id := by
    rw [← htx₀]
    exact htx _
  obtain ⟨cid, hcid⟩ : ∃ cid, (sendToVerifier env (m.store tx) tx).2 =
      { tx with computeNodeId := cid } := sendToVerifier_tx
  generalize hm₁ : (sendToVerifier env (m.store tx) tx).1 = m₁
  refine ⟨cid, stateNode env m₁, ?_, ?_⟩
  · rw [hcid, view_checkVerification (by exact hid'), ← hm₁, view_sendToVerifier, view_store hid']
    rfl
  · intro hknown
    have hm₁known : m₁.stateChangeStorageNode = m.stateChangeStorageNode := by
      rw [← hm₁]
      exact sendToVerifier_known hknown
    rw [stateNode_of_known (by rw [hm₁known]; exact hknown), hm₁known]

/-- A notification that raises before the transaction is filled in. -/
theorem view_updateTransaction_incomplete {j : Json} (hid : j.stringAt "txid" = some id)
    (hincomplete : (Transaction.fromJson j ((m.view id).held.getD {})).2 = false) :
    (updateTransaction env m id j).view id =
      { m.view id with held := (m.view id).held.map fun tx => (Transaction.fromJson j tx).1 } := by
  unfold updateTransaction
  dsimp only
  have hp : (Transaction.fromJson j ((m.transactions.find id).getD {})).2 = false := hincomplete
  rw [if_neg (by simp [hp])]
  cases hfind : m.transactions.find id with
  | none =>
      rw [if_neg (by simp)]
      simp [view, hfind]
  | some tx =>
      rw [if_pos (by simp), view_store (Transaction.fromJson_txId hid _)]
      simp [view, hfind]

/-- An update of one transaction leaves the others alone. -/
theorem view_updateTransaction_ne {txId : String} {j : Json} (h : txId ≠ id)
    (hid : j.stringAt "txid" = some txId) :
    (updateTransaction env m txId j).view id = m.view id := by
  have htx : ∀ tx, (Transaction.fromJson j tx).1.txId ≠ id := by
    intro tx
    rw [Transaction.fromJson_txId hid]
    exact h
  unfold updateTransaction
  dsimp only
  split
  · obtain ⟨cid, hcid⟩ : ∃ cid, (sendToVerifier env (m.store (Transaction.fromJson j
        ((m.transactions.find txId).getD {})).1) (Transaction.fromJson j
        ((m.transactions.find txId).getD {})).1).2 = _ := sendToVerifier_tx
    rw [hcid, checkVerification_tx, view_store_ne (by simpa using htx _),
      view_checkVerification_ne (by exact htx _), view_sendToVerifier, view_store_ne (htx _)]
  · split
    · exact view_store_ne (htx _)
    · rfl

/-- A code packet that is refused: at most an error goes back to the client. -/
theorem view_processCodePacket_refused {p : CodePacket}
    (h : P.verifyEd25519Signature p.message p.base64publicKey p.base64signature = false ∨
      m.subscribedTo21 = false) :
    (processCodePacket P env m p).view id = m.view id := by
  unfold processCodePacket
  split
  case isTrue => rfl
  case isFalse hsig =>
      have hsub : m.subscribedTo21 = false := h.resolve_left (by simpa using hsig)
      rw [if_pos (by simp [hsub])]
      cases hs : env.deliver p.base64publicKey (.error notInM21 p.htxid) with
      | raised | skipped => simp [wsSend, hs]
      | sent =>
          simp only [wsSend, hs, Option.getD_some]
          rw [view_emit] <;> simp [Effect.respondsTo, Effect.commits, Reply.answers]

/-- What a view sees of the stored transaction depends on the view before. -/
theorem view_store_congr {m₁ m₂ : Master} (h : m₁.view id = m₂.view id) :
    (m₁.store tx).view id = (m₂.store tx).view id := by
  by_cases hid : tx.txId = id
  · rw [view_store hid, view_store hid, h]
  · rw [view_store_ne hid, view_store_ne hid, h]

/-- An accepted code packet: its transaction is stored, and the messages that follow
are seen by no view. -/
theorem view_processCodePacket (env : Env) {p : CodePacket}
    (hsig : P.verifyEd25519Signature p.message p.base64publicKey p.base64signature = true)
    (hsub : m.subscribedTo21 = true) :
    ∃ cid, ∀ id, (processCodePacket P env m p).view id =
      (store { m with
          transactions := (m.transactions.insert (p.transaction env.guid env.now m.nodeId)).1 }
        { (m.transactions.insert (p.transaction env.guid env.now m.nodeId)).2 with
          computeNodeId := cid }).view id := by
  have hfind := TransactionsMap.find_insert_self m.transactions
    (p.transaction env.guid env.now m.nodeId)
  unfold processCodePacket
  rw [if_neg (by simp [hsig]), if_neg (by simp [hsub])]
  dsimp only
  generalize m.transactions.insert (p.transaction env.guid env.now m.nodeId) = inserted at hfind ⊢
  cases hprints : inserted.2.toJson.prints with
  | false =>
      -- the transaction stays as it was inserted
      refine ⟨inserted.2.computeNodeId, ?_⟩
      intro id
      rw [if_pos (by simp)]
      by_cases hid : inserted.2.txId = id
      · rw [view_store (by exact hid)]
        subst hid
        simp [view, hfind]
      · rw [view_store_ne (by exact hid)]
  | true =>
      rw [if_neg (by simp)]
      generalize hm₂ : emit { m with transactions := inserted.1 } _ = m₂
      obtain ⟨cid, hcid⟩ : ∃ cid, (sendToVerifier env m₂ inserted.2).2 =
          { inserted.2 with computeNodeId := cid } := sendToVerifier_tx
      refine ⟨cid, ?_⟩
      intro id
      rw [hcid]
      apply view_store_congr
      rw [view_sendToVerifier, ← hm₂, view_emit] <;> simp [Effect.respondsTo, Effect.commits]

/-- An accepted code packet: its transaction is held, and a verifier is asked
to execute it. -/
theorem view_processCodePacket_accepted {p : CodePacket}
    (hsig : P.verifyEd25519Signature p.message p.base64publicKey p.base64signature = true)
    (hsub : m.subscribedTo21 = true) :
    ∃ cid, (processCodePacket P env m p).view env.guid =
      { m.view env.guid with
        held := some { (m.view env.guid).held.getD (p.transaction env.guid env.now m.nodeId) with
          computeNodeId := cid } } := by
  rcases view_processCodePacket env hsig hsub with ⟨cid, hview⟩
  have hid := TransactionsMap.insert_snd_txId m.transactions
    (p.transaction env.guid env.now m.nodeId)
  refine ⟨cid, ?_⟩
  rw [hview, view_store (by exact hid), TransactionsMap.insert_snd]
  rfl

/-- A code packet leaves the transactions under other ids alone. -/
theorem view_processCodePacket_ne {p : CodePacket} (h : env.guid ≠ id) :
    (processCodePacket P env m p).view id = m.view id := by
  by_cases hsig : P.verifyEd25519Signature p.message p.base64publicKey p.base64signature = true
  · by_cases hsub : m.subscribedTo21 = true
    · rcases view_processCodePacket env hsig hsub with ⟨cid, hview⟩
      have hid := TransactionsMap.insert_snd_txId m.transactions
        (p.transaction env.guid env.now m.nodeId)
      have hne : id ≠ (p.transaction env.guid env.now m.nodeId).txId := Ne.symm h
      rw [hview, view_store_ne]
      · simp [view, TransactionsMap.find_insert_ne _ hne]
      · rw [hid]
        exact h
    · exact view_processCodePacket_refused (.inr (by simpa using hsub))
  · exact view_processCodePacket_refused (.inl (by simpa using hsig))

/-! ## Exceptions, clean-up and closing -/

/-! Recording an exception leaves the members alone that the handler reads. -/

@[simp] theorem excepted_txId {exp : String} : (excepted tx exp).txId = tx.txId := by
  simp [excepted, Transaction.setOutput, Transaction.setFunctionId, Transaction.setException]

@[simp] theorem excepted_computeNode {exp : String} :
    (excepted tx exp).computeNode = tx.computeNode := by
  simp [excepted, Transaction.setOutput, Transaction.setFunctionId, Transaction.setException]

@[simp] theorem excepted_publicKey {exp : String} :
    (excepted tx exp).publicKey = tx.publicKey := by
  simp [excepted, Transaction.setOutput, Transaction.setFunctionId, Transaction.setException]

theorem view_handleException_unknown {exp : String} (h : (m.view id).held = none) :
    handleException env m id exp = m := by
  have hfind : m.transactions.find id = none := h
  simp [handleException, hfind]

/-- The reply of the exception handler; `none` when it raises. -/
def replyException (env : Env) (m : Master) (id exp : String) (tx : Transaction) : Option Master :=
  if tx.computeNode then wsSend env m tx.publicKey (.exception id exp) else some m

theorem handleException_eq {exp : String} (h : (m.view id).held = some tx) :
    handleException env m id exp =
      match replyException env m id exp tx with
      | none => m.store (excepted tx exp)
      | some m =>
          if (excepted tx exp).toJson.prints then forwardException env m (excepted tx exp)
          else m.store (excepted tx exp) := by
  have hfind : m.transactions.find id = some tx := h
  simp only [handleException, hfind, excepted_computeNode, excepted_publicKey]
  rfl

theorem replyException_eq_none_iff {exp : String} :
    replyException env m id exp tx = none ↔
      tx.computeNode = true ∧ env.deliver tx.publicKey (.exception id exp) = .raised := by
  unfold replyException wsSend
  cases tx.computeNode <;> cases env.deliver tx.publicKey (.exception id exp) <;> simp

/-- The reply shows in the view of the transaction only. -/
theorem view_replyException {exp : String} {m₁ : Master}
    (h : replyException env m id exp tx = some m₁) :
    m₁.view id = { m.view id with responses := (m.view id).told env id exp tx } ∧
      isBlockProducer env m₁ = isBlockProducer env m := by
  unfold replyException at h
  split at h
  case isTrue hcompute =>
      unfold wsSend at h
      split at h
      case h_1 hsent =>
          cases h
          refine ⟨?_, rfl⟩
          rw [view_emit_send (by simp [Reply.answers]), View.told, if_pos ⟨hcompute, hsent⟩]
      case h_2 hskipped =>
          cases h
          simp [View.told, hskipped]
      case h_3 => cases h
  case isFalse hcompute =>
      cases h
      simp [View.told, hcompute]

theorem view_replyException_ne {txId exp : String} {m₁ : Master} (hne : txId ≠ id)
    (h : replyException env m txId exp tx = some m₁) : m₁.view id = m.view id := by
  unfold replyException wsSend at h
  split at h
  · split at h
    · cases h
      rw [view_emit] <;> simp [Effect.respondsTo, Effect.commits, Reply.answers, hne]
    · cases h
      rfl
    · cases h
  · cases h
    rfl

/-- The client cannot be told: the transaction stays. -/
theorem view_handleException_raised {exp : String} (h : (m.view id).held = some tx)
    (hraised : tx.computeNode = true ∧ env.deliver tx.publicKey (.exception id exp) = .raised) :
    (handleException env m id exp).view id =
      { m.view id with held := some (excepted tx exp) } := by
  rw [handleException_eq h, replyException_eq_none_iff.mpr hraised]
  exact view_store (by rw [excepted_txId]; exact held_txId h)

theorem view_forwardException (h : tx.txId = id) :
    (forwardException env m tx).view id =
      { m.view id with
        held := none
        queued := if isBlockProducer env m then (m.view id).queued ++ [tx]
          else (m.view id).queued } := by
  unfold forwardException
  dsimp only
  rw [view_emit (by simp [Effect.respondsTo]) (by simp [Effect.commits])]
  cases hproducer : isBlockProducer env m <;> simp [view, h]

theorem view_forwardException_ne (h : tx.txId ≠ id) :
    (forwardException env m tx).view id = m.view id := by
  unfold forwardException
  dsimp only
  rw [view_emit (by simp [Effect.respondsTo]) (by simp [Effect.commits])]
  cases isBlockProducer env m <;> simp [view, h, TransactionsMap.find_erase_ne _ (Ne.symm h)]

/-- The client is told or need not be, but the transaction cannot be printed for the
other masters: it stays. -/
theorem view_handleException_unprinted {exp : String} (h : (m.view id).held = some tx)
    (hreply : ¬ (tx.computeNode = true ∧
      env.deliver tx.publicKey (.exception id exp) = .raised))
    (hprints : (excepted tx exp).toJson.prints = false) :
    (handleException env m id exp).view id =
      { m.view id with
        held := some (excepted tx exp)
        responses := (m.view id).told env id exp tx } := by
  have hid : (excepted tx exp).txId = id := by
    rw [excepted_txId]
    exact held_txId h
  rw [handleException_eq h]
  cases hreplied : replyException env m id exp tx with
  | none => exact absurd (replyException_eq_none_iff.mp hreplied) hreply
  | some m₁ => simp [hprints, view_store hid, (view_replyException hreplied).1]

/-- The exception of a held transaction whose client is told or need not be. -/
theorem view_handleException {exp : String} (h : (m.view id).held = some tx)
    (hreply : ¬ (tx.computeNode = true ∧
      env.deliver tx.publicKey (.exception id exp) = .raised))
    (hprints : (excepted tx exp).toJson.prints = true) :
    (handleException env m id exp).view id =
      { m.view id with
        held := none
        queued :=
          if isBlockProducer env m then (m.view id).queued ++ [excepted tx exp]
          else (m.view id).queued
        responses := (m.view id).told env id exp tx } := by
  have hid : (excepted tx exp).txId = id := by
    rw [excepted_txId]
    exact held_txId h
  rw [handleException_eq h]
  cases hreplied : replyException env m id exp tx with
  | none => exact absurd (replyException_eq_none_iff.mp hreplied) hreply
  | some m₁ =>
      rcases view_replyException hreplied with ⟨hview, hproducer⟩
      simp [hprints, view_forwardException hid, hview, hproducer]

/-- An exception of one transaction leaves the others alone. -/
theorem view_handleException_ne {txId exp : String} (h : txId ≠ id) :
    (handleException env m txId exp).view id = m.view id := by
  cases hheld : (m.view txId).held with
  | none => rw [view_handleException_unknown hheld]
  | some tx =>
      have hne : (excepted tx exp).txId ≠ id := by
        rw [excepted_txId, held_txId hheld]
        exact h
      -- every way out of the handler touches the entry of `txId` only
      rw [handleException_eq hheld]
      cases hreplied : replyException env m txId exp tx with
      | none => exact view_store_ne hne
      | some m₁ =>
          dsimp only
          rw [← view_replyException_ne h hreplied]
          split
          · exact view_forwardException_ne hne
          · exact view_store_ne hne

/-- A forwarded exception only ever reaches `queueOut`. -/
theorem view_handleForwardedException (P : Platform) (env : Env) (m : Master) (txstr id : String) :
    ∃ queued, (handleForwardedException P env m txstr).view id =
      { m.view id with queued := (m.view id).queued ++ queued } := by
  unfold handleForwardedException
  split
  · exact ⟨[], by simp⟩
  · rename_i j _
    dsimp only
    split
    · refine ⟨[(Transaction.fromJson j {}).1].filter fun tx => tx.txId = id, ?_⟩
      simp only [view, List.filter_append]
    · exact ⟨[], by simp⟩

theorem view_handleForwardedException_ne {txstr txId : String} {j : Json}
    (hj : P.parse txstr = some j) (hid : j.stringAt "txid" = some txId) (h : txId ≠ id) :
    (handleForwardedException P env m txstr).view id = m.view id := by
  have htx : (Transaction.fromJson j {}).1.txId ≠ id := by
    rw [Transaction.fromJson_txId hid]
    exact h
  simp only [handleForwardedException, hj]
  split
  · simp [view, htx]
  · rfl

theorem view_storeBlock {block : Block} : (storeBlock m block).view id = m.view id := rfl

theorem view_publishBlock {block : Block} : (publishBlock P env m block).view id = m.view id := by
  have hclose : ∀ (m₁ : Master) node sig key,
      (m₁.emit [.gossip node (.closeBlock block sig key)]).view id = m₁.view id :=
    fun _ _ _ _ => view_emit (by simp [Effect.respondsTo]) (by simp [Effect.commits])
  unfold publishBlock
  split
  · dsimp only
    split
    · exact view_getBlockStorageNode
    · rw [view_storeBlock, hclose, view_getBlockStorageNode]
  · rfl

/-- A view does not see the block state. -/
theorem view_of_advances {m' : Master} (h : AdvancesBlockState m m') : m'.view id = m.view id := by
  rcases h.sent with ⟨effects, hsent, hputs⟩
  have hemit : (m.emit effects).view id = m.view id := view_emit_puts hputs
  rw [← hemit]
  simp [view, h.transactions, h.queueOut, hsent]

/-- A closing moves the copies of an id from the queue into the block. -/
theorem length_notDue_add_count :
    ((notDue P env m).filter fun tx => tx.txId = id).length +
      ((due P env m).map (·.txId)).count id = (m.view id).queued.length := by
  have hperm : (due P env m ++ notDue P env m).countP (fun tx => tx.txId = id) =
      m.queueOut.countP fun tx => tx.txId = id := due_append_notDue_perm.countP_eq _
  have hdue : ((due P env m).map (·.txId)).count id =
      (due P env m).countP fun tx => tx.txId = id := by
    rw [List.count_eq_countP, List.countP_map]
    rfl
  have hqueued : (m.view id).queued.length = m.queueOut.countP fun tx => tx.txId = id :=
    List.countP_eq_length_filter.symm
  rw [hqueued, hdue, ← hperm, List.countP_append, ← List.countP_eq_length_filter, Nat.add_comm]

/-- Closing a block takes transactions out of `queueOut` and nothing else. -/
theorem view_timeToCloseBlock {m' : Master} (h : timeToCloseBlock P env m = some m') :
    m'.view id = { m.view id with queued := (notDue P env m).filter fun tx => tx.txId = id } := by
  rcases timeToCloseBlock_eq_some h with ⟨block, m₁, hassemble, rfl⟩
  rw [view_publishBlock, view_of_advances (assembleBlock_advances hassemble).1]
  rfl

end Master

end DecentralizedCloud
