import DecentralizedCloud.Common.Packet
import DecentralizedCloud.Master.Machine

/-!
# The messages of a master as packets

`Message.gossip` writes down the fields under which each message of a master travels. A
master never takes back what it has sent, so what an event sends is what it adds to `sent`
(`sent_prefix_handle`).
-/

namespace DecentralizedCloud

def Message.gossip (L : NodeLibrary) : Message → Gossip
  | .txNotification utxid tx => .command .txNotification [("utxid", utxid), ("tx", L.dump tx)]
  | .codeDelivery i co txid s tid com =>
      .command .codeDelivery
        [("i", i), ("co", co), ("txid", txid), ("s", s), ("tid", tid), ("com", com)]
  | .canCommit txid sid tid => .command .canCommit [("txid", txid), ("sid", sid), ("tid", tid)]
  | .exception tx => .command .exception [("tx", L.dump tx)]
  | .closeBlock b si key =>
      .command .closeBlock
        [("b", L.base64_encodeString (L.dump b.toJson)), ("si", si), ("key", key)]

/-- The channel and the message of an effect that is one. -/
def Effect.gossip? (L : NodeLibrary) : Effect → Option (String × Gossip)
  | .gossip channel message => some (channel, message.gossip L)
  | .send _ _ | .dhtPut _ _ _ => none

/-- The effects of an event. -/
def newEffects (m m' : Master) : List Effect := m'.sent.drop m.sent.length

/-- Every message is a command with names of its own. -/
theorem Message.gossip_eq (L : NodeLibrary) (message : Message) :
    ∃ cmd kv, message.gossip L = .command cmd kv ∧ ∀ field ∈ kv, OwnName field.1 := by
  have hnames : ∀ kv : FieldValueMap, (∀ name ∈ kv.map (·.1), OwnName name) →
      ∀ field ∈ kv, OwnName field.1 :=
    fun kv h field hfield => h _ (List.mem_map_of_mem hfield)
  cases message with
  | txNotification utxid tx =>
      exact ⟨_, _, rfl, hnames _ (by decide : ∀ name ∈ ["utxid", "tx"], OwnName name)⟩
  | codeDelivery i co txid s tid com =>
      exact ⟨_, _, rfl, hnames _
        (by decide : ∀ name ∈ ["i", "co", "txid", "s", "tid", "com"], OwnName name)⟩
  | canCommit txid sid tid =>
      exact ⟨_, _, rfl, hnames _ (by decide : ∀ name ∈ ["txid", "sid", "tid"], OwnName name)⟩
  | exception tx => exact ⟨_, _, rfl, hnames _ (by decide : ∀ name ∈ ["tx"], OwnName name)⟩
  | closeBlock b si key =>
      exact ⟨_, _, rfl, hnames _ (by decide : ∀ name ∈ ["b", "si", "key"], OwnName name)⟩

/-! ## What was sent stays sent -/

namespace Master

variable {P : Platform} {env : Env} {m m' : Master} {tx : Transaction}

theorem sent_prefix_emit (effects : List Effect) : m.sent <+: (m.emit effects).sent :=
  List.prefix_append _ _

theorem sent_prefix_wsSend {key : String} {reply : Reply} (h : wsSend env m key reply = some m') :
    m.sent <+: m'.sent := by
  unfold wsSend at h
  split at h <;> cases h
  · exact sent_prefix_emit _
  · exact List.prefix_rfl

theorem sent_prefix_getStateChangeStorageNode :
    m.sent <+: (getStateChangeStorageNode env m).sent :=
  List.prefix_append _ _

theorem sent_prefix_sendToVerifier : m.sent <+: (sendToVerifier env m tx).1.sent := by
  unfold sendToVerifier
  split
  · exact List.prefix_rfl
  · dsimp only
    split
    · exact sent_prefix_getStateChangeStorageNode
    · exact sent_prefix_getStateChangeStorageNode.trans (sent_prefix_emit _)

theorem sent_appendToQueueOut : (appendToQueueOut m tx).1.sent = m.sent := by
  unfold appendToQueueOut
  split <;> rfl

theorem sent_prefix_sendCanCommit : m.sent <+: (sendCanCommit m tx).sent := by
  unfold sendCanCommit
  split
  · exact sent_prefix_emit _
  · exact List.prefix_rfl

theorem sent_prefix_checkVerification : m.sent <+: (checkVerification env m tx).1.sent := by
  unfold checkVerification
  split
  · split
    · dsimp only
      split
      · exact sent_prefix_getStateChangeStorageNode
      case h_2 hsend =>
          rw [sent_appendToQueueOut]
          exact sent_prefix_getStateChangeStorageNode.trans
            ((sent_prefix_wsSend hsend).trans sent_prefix_sendCanCommit)
    · exact ⟨[], by rw [sent_appendToQueueOut, List.append_nil]⟩
  · exact List.prefix_rfl

/-- A code packet only adds to what was sent. -/
theorem sent_prefix_processCodePacket {p : CodePacket} :
    m.sent <+: (processCodePacket P env m p).sent := by
  unfold processCodePacket
  split
  · exact List.prefix_rfl
  · split
    · cases hsend : wsSend env m p.base64publicKey (.error notInM21 p.htxid) with
      | none => exact List.prefix_rfl
      | some m' => exact sent_prefix_wsSend hsend
    · have hnotified : m.sent <+: ({ m with
          transactions := (m.transactions.insert
            (p.transaction env.guid env.now m.nodeId)).1 }.emit
              [.gossip "master21" (.txNotification p.htxid (m.transactions.insert
                (p.transaction env.guid env.now m.nodeId)).2.toJson)]).sent :=
        List.prefix_append _ _
      dsimp only
      split
      · exact List.prefix_rfl
      · rw [store_sent]
        exact hnotified.trans sent_prefix_sendToVerifier

theorem sent_prefix_updateTransaction {txId : String} {j : Json} :
    m.sent <+: (updateTransaction env m txId j).sent := by
  unfold updateTransaction
  dsimp only
  split
  · rw [store_sent]
    refine List.IsPrefix.trans ?_ sent_prefix_checkVerification
    exact sent_prefix_sendToVerifier (m := m.store _)
  · split
    · exact List.prefix_rfl
    · exact List.prefix_rfl

theorem sent_prefix_forwardException : m.sent <+: (forwardException env m tx).sent := by
  unfold forwardException
  dsimp only
  split <;> exact List.prefix_append _ _

/-- An exception only adds to what was sent. -/
theorem sent_prefix_handleException {txId exp : String} :
    m.sent <+: (handleException env m txId exp).sent := by
  unfold handleException
  split
  · exact List.prefix_rfl
  · dsimp only
    split
    · exact List.prefix_rfl
    case h_2 m₁ hreplied =>
        have hsent : m.sent <+: m₁.sent := by
          split at hreplied
          · exact sent_prefix_wsSend hreplied
          · cases hreplied
            exact List.prefix_rfl
        refine hsent.trans ?_
        split
        · exact sent_prefix_forwardException
        · exact List.prefix_rfl

theorem sent_prefix_publishBlock {block : Block} : m.sent <+: (publishBlock P env m block).sent := by
  have hnode : m.sent <+: (getBlockStorageNode env m).sent := List.prefix_append _ _
  unfold publishBlock
  split
  · dsimp only
    split
    · exact hnode
    · exact hnode.trans (sent_prefix_emit _)
  · exact List.prefix_rfl

theorem sent_prefix_timeToCloseBlock (h : timeToCloseBlock P env m = some m') :
    m.sent <+: m'.sent := by
  rcases timeToCloseBlock_eq_some h with ⟨block, m₁, hassemble, rfl⟩
  rcases (assembleBlock_advances hassemble).1.sent with ⟨effects, hsent, -⟩
  have hassembled : m.sent <+: m₁.sent := by
    rw [hsent]
    exact List.prefix_append _ _
  exact hassembled.trans sent_prefix_publishBlock

end Master

open Master

/-- What an event sends comes behind what was sent before. -/
theorem sent_prefix_handle {P : Platform} {m m' : Master} {e : Event}
    (h : handle P m e = some m') : m.sent <+: m'.sent := by
  rcases e with ⟨env, msg⟩
  cases msg with
  | exeFunction p =>
      cases h
      exact sent_prefix_processCodePacket
  | verificationResult txId hash output =>
      cases h
      rw [verifyTransaction_eq, store_sent]
      exact sent_prefix_checkVerification
  | txNotification data =>
      rw [handle_txNotification h]
      unfold processIncomingTransaction
      split
      · exact List.prefix_rfl
      · split
        · exact List.prefix_rfl
        · exact sent_prefix_updateTransaction
  | exception txId exp =>
      cases h
      exact sent_prefix_handleException
  | forwardedException txstr =>
      rw [handle_forwardedException h]
      unfold handleForwardedException
      split
      · exact List.prefix_rfl
      · dsimp only
        split <;> exact List.prefix_rfl
  | cleanup =>
      cases h
      exact List.prefix_rfl
  | closeBlock => exact sent_prefix_timeToCloseBlock h

end DecentralizedCloud
