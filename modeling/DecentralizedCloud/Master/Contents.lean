import DecentralizedCloud.Master.Machine

/-!
# Where the contents of a transaction come from

The members that say what a client asked for (the id, the time, the tenant, the function,
the input, the key, the signature and the master) are written once, when the transaction
is made for the client. Everywhere else they are copied, in memory or in JSON. Only an
exception takes the function out of a transaction, and only a result makes one without a
function.

`Contents G m` says that all that a master holds, has queued, has put into blocks or has
sent has contents `G`, as far as it names a function. Whatever a master does keeps this,
provided that what reaches it from outside has contents `G` (`contents_handle`).
-/

namespace DecentralizedCloud

namespace Master

/-- `tx'` is about the request of `tx`. -/
structure SameRequest (tx tx' : Transaction) : Prop where
  txId : tx'.txId = tx.txId
  /-- a time has 64 bits -/
  timestamp : tx'.timestamp.bmod (2 ^ 64) = tx.timestamp.bmod (2 ^ 64)
  tenantId : tx'.tenantId = tx.tenantId
  masterNodeId : tx'.masterNodeId = tx.masterNodeId
  code : tx'.code = tx.code
  signature : tx'.signature = tx.signature
  publicKey : tx'.publicKey = tx.publicKey
  input : tx'.input = tx.input

/-- A property of the request alone. -/
def AboutRequest (G : Transaction → Prop) : Prop := ∀ tx tx', SameRequest tx tx' → G tx → G tx'

/-- A transaction that names a function has contents `G`. -/
def Vouched (G : Transaction → Prop) (tx : Transaction) : Prop := tx.code = "" ∨ G tx

/-- So do the transactions of a block. -/
def VouchedBlock (G : Transaction → Prop) (b : Block) : Prop :=
  ∃ txns : List Transaction, b.data = .arr (txns.map Transaction.toJson) ∧
    ∀ tx ∈ txns, Vouched G tx

/-- And what is sent about transactions; `N` holds of the storage node that is named in it. -/
def VouchedEffect (G : Transaction → Prop) (N : String → Prop) : Effect → Prop
  | .gossip _ (.txNotification _ j) => ∃ tx, G tx ∧ j = tx.toJson
  | .gossip _ (.codeDelivery i co txid s tid _) =>
      N s ∧ ∃ tx, G tx ∧ tx.input = i ∧ tx.code = co ∧ tx.txId = txid ∧ tx.tenantId = tid
  | .gossip _ (.canCommit _ sid _) => N sid
  | .gossip _ (.exception j) => ∃ tx, Vouched G tx ∧ j = tx.toJson
  | .gossip _ (.closeBlock b _ _) => VouchedBlock G b
  | .send _ _ | .dhtPut _ _ _ => True

structure Contents (G : Transaction → Prop) (N : String → Prop) (m : Master) : Prop where
  held : ∀ {id tx}, m.transactions.find id = some tx → Vouched G tx
  queued : ∀ tx ∈ m.queueOut, Vouched G tx
  blocks : ∀ b ∈ m.blocks, VouchedBlock G b.2
  sent : ∀ e ∈ m.sent, VouchedEffect G N e
  node : m.stateChangeStorageNode = "" ∨ N m.stateChangeStorageNode

/-- The surroundings know no other storage node than one of `N`. -/
structure KnowsStorage (N : String → Prop) (env : Env) : Prop where
  dht : env.dhtGet "sn_state_change_key" = "" ∨ N (env.dhtGet "sn_state_change_key")
  registry : env.nodes.getStorageNodeKey 1 = "" ∨ N (env.nodes.getStorageNodeKey 1)

/-- What reaches a master from outside has contents `G`. -/
def Brings (P : Platform) (G : Transaction → Prop) (m : Master) (env : Env) : Msg → Prop
  | .exeFunction p => Accepted P m p →
      m.transactions.find env.guid = none ∧ G (p.transaction env.guid env.now m.nodeId)
  | .txNotification data => ∀ j, P.parse data = some j → ∃ tx, G tx ∧ j = tx.toJson
  | .forwardedException txstr => ∀ j, P.parse txstr = some j → ∃ tx, Vouched G tx ∧ j = tx.toJson
  | .verificationResult _ _ _ | .exception _ _ | .cleanup | .closeBlock => True

variable {P : Platform} {G G' : Transaction → Prop} {N : String → Prop} {env : Env}
  {m m' : Master} {tx tx' : Transaction}

theorem SameRequest.refl (tx : Transaction) : SameRequest tx tx :=
  ⟨rfl, rfl, rfl, rfl, rfl, rfl, rfl, rfl⟩

theorem sameRequest_setSentToClient (tx : Transaction) : SameRequest tx tx.setSentToClient :=
  ⟨rfl, rfl, rfl, rfl, rfl, rfl, rfl, rfl⟩

theorem sameRequest_setBlockId (number : Nat) (tx : Transaction) :
    SameRequest tx (tx.setBlockId number) :=
  ⟨rfl, rfl, rfl, rfl, rfl, rfl, rfl, rfl⟩

theorem vouched_congr (hG : AboutRequest G) (hsame : SameRequest tx tx') (h : Vouched G tx) :
    Vouched G tx' := by
  rcases h with hcode | hcontents
  · exact .inl (hsame.code.trans hcode)
  · exact .inr (hG tx tx' hsame hcontents)

/-! ## A weaker property -/

theorem vouched_mono (hG : ∀ tx, G tx → G' tx)
    (h : Vouched G tx) : Vouched G' tx := h.imp_right (hG tx)

theorem vouchedBlock_mono {b : Block} (hG : ∀ tx, G tx → G' tx)
    (h : VouchedBlock G b) : VouchedBlock G' b := by
  rcases h with ⟨txns, hdata, htxns⟩
  exact ⟨txns, hdata, fun tx htx => vouched_mono hG (htxns tx htx)⟩

/-- An effect stays vouched for when more is genuine. -/
theorem vouchedEffect_mono {effect : Effect}
    (hG : ∀ tx, G tx → G' tx) (h : VouchedEffect G N effect) : VouchedEffect G' N effect := by
  cases effect with
  | send | dhtPut => trivial
  | gossip channel message =>
      cases message with
      | txNotification utxid j =>
          rcases h with ⟨tx, htx, rfl⟩
          exact ⟨tx, hG tx htx, rfl⟩
      | codeDelivery =>
          rcases h with ⟨hnode, tx, htx, hfields⟩
          exact ⟨hnode, tx, hG tx htx, hfields⟩
      | canCommit => exact h
      | exception j =>
          rcases h with ⟨tx, htx, rfl⟩
          exact ⟨tx, vouched_mono hG htx, rfl⟩
      | closeBlock => exact vouchedBlock_mono hG h

theorem contents_mono (hG : ∀ tx, G tx → G' tx) (h : Contents G N m) : Contents G' N m where
  held := fun hfind => vouched_mono hG (h.held hfind)
  queued := fun tx htx => vouched_mono hG (h.queued tx htx)
  blocks := fun b hb => vouchedBlock_mono hG (h.blocks b hb)
  sent := fun effect heffect => vouchedEffect_mono hG (h.sent effect heffect)
  node := h.node

/-! ## The updates -/

namespace Contents

theorem emit (h : Contents G N m) {effects : List Effect}
    (heffects : ∀ e ∈ effects, VouchedEffect G N e) : Contents G N (m.emit effects) where
  held := h.held
  queued := h.queued
  blocks := h.blocks
  sent := by
    intro e he
    rcases List.mem_append.mp he with he | he
    · exact h.sent e he
    · exact heffects e he
  node := h.node

theorem store (h : Contents G N m) (htx : Vouched G tx) : Contents G N (m.store tx) where
  held := by
    intro id t hfind
    by_cases hid : id = tx.txId
    · subst hid
      rw [store_transactions, TransactionsMap.find_set_self] at hfind
      cases hfind
      exact htx
    · rw [store_transactions, TransactionsMap.find_set_ne _ hid] at hfind
      exact h.held hfind
  queued := h.queued
  blocks := h.blocks
  sent := h.sent
  node := h.node

/-- Fewer transactions are held. -/
theorem transactions (h : Contents G N m) {t : TransactionsMap}
    (ht : ∀ {id tx}, t.find id = some tx → m.transactions.find id = some tx) :
    Contents G N { m with transactions := t } :=
  ⟨fun hfind => h.held (ht hfind), h.queued, h.blocks, h.sent, h.node⟩

theorem queueOut (h : Contents G N m) {txs : List Transaction}
    (htxs : ∀ tx ∈ txs, Vouched G tx) : Contents G N { m with queueOut := txs } :=
  ⟨h.held, htxs, h.blocks, h.sent, h.node⟩

theorem append (h : Contents G N m) (htx : Vouched G tx) :
    Contents G N { m with queueOut := m.queueOut ++ [tx] } := by
  apply h.queueOut
  intro t ht
  rcases List.mem_append.mp ht with ht | ht
  · exact h.queued t ht
  · rw [List.mem_singleton.mp ht]
    exact htx

end Contents

theorem vouchedEffect_of_isPut {e : Effect} (h : e.IsPut) : VouchedEffect G N e := by
  cases e with
  | dhtPut => trivial
  | send | gossip => cases h

/-- The storage node that is looked up is a known one. -/
theorem contents_getStateChangeStorageNode (henv : KnowsStorage N env) (h : Contents G N m) :
    Contents G N (getStateChangeStorageNode env m) := by
  have hnode : (designateStorageNode env "sn_state_change_key" 2 1 m.stateChangeStorageNode).1 =
      "" ∨ N (designateStorageNode env "sn_state_change_key" 2 1 m.stateChangeStorageNode).1 := by
    unfold designateStorageNode
    split
    · exact h.node
    · split
      · exact h.node
      · dsimp only
        split
        · exact henv.dht
        · exact henv.registry
  have hset : Contents G N { m with
      stateChangeStorageNode :=
        (designateStorageNode env "sn_state_change_key" 2 1 m.stateChangeStorageNode).1 } :=
    ⟨h.held, h.queued, h.blocks, h.sent, hnode⟩
  apply hset.emit
  intro e he
  exact vouchedEffect_of_isPut (designateStorageNode_isPut env "sn_state_change_key" 2 1 _ e he)

theorem contents_wsSend {key : String} {reply : Reply} (h : Contents G N m)
    (hsend : wsSend env m key reply = some m') : Contents G N m' := by
  unfold wsSend at hsend
  split at hsend <;> cases hsend
  · apply h.emit
    simp [VouchedEffect]
  · exact h

/-! ## Requests to verifiers and the check -/

theorem contents_sendToVerifier (henv : KnowsStorage N env) (h : Contents G N m) (htx : G tx) :
    Contents G N (sendToVerifier env m tx).1 := by
  unfold sendToVerifier
  split
  · exact h
  · dsimp only
    have hnode := contents_getStateChangeStorageNode henv h
    split
    · exact hnode
    case isFalse hknown =>
        apply hnode.emit
        intro e he
        rw [List.mem_singleton.mp he]
        refine ⟨hnode.node.resolve_left hknown, tx, htx, ?_⟩
        split <;> exact ⟨rfl, rfl, rfl, rfl⟩

theorem sameRequest_sendToVerifier : SameRequest tx (sendToVerifier env m tx).2 := by
  have hsent : ∃ cid, (sendToVerifier env m tx).2 = { tx with computeNodeId := cid } :=
    sendToVerifier_tx
  rcases hsent with ⟨cid, hcid⟩
  rw [hcid]
  exact ⟨rfl, rfl, rfl, rfl, rfl, rfl, rfl, rfl⟩

theorem contents_appendToQueueOut (h : Contents G N m) (htx : Vouched G tx) :
    Contents G N (appendToQueueOut m tx).1 := by
  unfold appendToQueueOut
  split
  · exact h
  · exact h.append htx

theorem contents_sendCanCommit (h : Contents G N m) : Contents G N (sendCanCommit m tx) := by
  unfold sendCanCommit
  split
  case isTrue hknown =>
      apply h.emit
      intro e he
      rw [List.mem_singleton.mp he]
      exact h.node.resolve_left hknown
  case isFalse => exact h

/-- Counting a result sends the transaction as it is. -/
theorem contents_checkVerification (hG : AboutRequest G) (henv : KnowsStorage N env)
    (h : Contents G N m) (htx : Vouched G tx) :
    Contents G N (checkVerification env m tx).1 := by
  unfold checkVerification
  split
  · split
    · dsimp only
      have hnode := contents_getStateChangeStorageNode henv h
      split
      · exact hnode
      case h_2 hsend =>
          have hanswered : Vouched G tx.setSentToClient :=
            vouched_congr hG (sameRequest_setSentToClient tx) htx
          exact contents_appendToQueueOut (contents_sendCanCommit (contents_wsSend hnode hsend))
            hanswered
    · exact contents_appendToQueueOut h htx
  · exact h

theorem sameRequest_checkVerification : SameRequest tx (checkVerification env m tx).2 := by
  rw [checkVerification_tx, checked_eq]
  exact ⟨rfl, rfl, rfl, rfl, rfl, rfl, rfl, rfl⟩

/-- The check of a transaction that is stored afterwards. -/
theorem contents_checked (hG : AboutRequest G) (henv : KnowsStorage N env) (h : Contents G N m)
    (htx : Vouched G tx) :
    Contents G N ((checkVerification env m tx).1.store (checkVerification env m tx).2) :=
  (contents_checkVerification hG henv h htx).store
    (vouched_congr hG sameRequest_checkVerification htx)

/-! ## The messages -/

/-- A code packet enters its transaction if it is accepted. -/
theorem contents_processCodePacket {p : CodePacket} (hG : AboutRequest G)
    (henv : KnowsStorage N env) (h : Contents G N m)
    (hnew : Accepted P m p →
      m.transactions.find env.guid = none ∧ G (p.transaction env.guid env.now m.nodeId)) :
    Contents G N (processCodePacket P env m p) := by
  unfold processCodePacket
  split
  · exact h
  case isFalse hsigned =>
      split
      · cases hsend : wsSend env m p.base64publicKey (.error notInM21 p.htxid) with
        | none => exact h
        | some m' => exact contents_wsSend h hsend
      case isFalse hsubscribed =>
          -- the request is accepted under a new id
          rcases hnew ⟨by simpa using hsigned, by simpa using hsubscribed⟩ with ⟨hnone, hcontents⟩
          have hinsert : m.transactions.insert (p.transaction env.guid env.now m.nodeId) =
              (m.transactions.set (p.transaction env.guid env.now m.nodeId),
                p.transaction env.guid env.now m.nodeId) := by
            have hid : (p.transaction env.guid env.now m.nodeId).txId = env.guid := rfl
            simp [TransactionsMap.insert, hid, hnone]
          rw [hinsert]
          dsimp only
          have hstored : Contents G N { m with
              transactions := m.transactions.set (p.transaction env.guid env.now m.nodeId) } :=
            h.store (.inr hcontents)
          have hnotification : ∀ e ∈ [Effect.gossip "master21" (.txNotification p.htxid
              (p.transaction env.guid env.now m.nodeId).toJson)], VouchedEffect G N e := by
            intro e he
            rw [List.mem_singleton.mp he]
            exact ⟨_, hcontents, rfl⟩
          have hnotified := hstored.emit hnotification
          -- a transaction that cannot be printed is only stored
          split
          · exact hstored
          · exact (contents_sendToVerifier henv hnotified hcontents).store
              (.inr (hG _ _ sameRequest_sendToVerifier hcontents))

theorem contents_verifyTransaction {txId hash output : String} (hG : AboutRequest G)
    (henv : KnowsStorage N env) (h : Contents G N m) :
    Contents G N (verifyTransaction env m txId hash output) := by
  have hfound : Vouched G ((m.transactions.find txId).getD (.ofResult txId hash env.now)) := by
    cases hfind : m.transactions.find txId with
    | none => exact .inl rfl
    | some tx => exact h.held hfind
  rw [verifyTransaction_eq]
  apply contents_checked hG henv h
  apply vouched_congr hG ?_ hfound
  rw [counted_eq]
  exact ⟨rfl, rfl, rfl, rfl, rfl, rfl, rfl, rfl⟩

/-- A transaction that is filled in from the JSON form of another one is about its request. -/
theorem sameRequest_fromJson (tx tx' : Transaction) :
    SameRequest tx' (Transaction.fromJson tx'.toJson tx).1 := by
  rw [Transaction.fromJson_toJson]
  exact ⟨rfl, Int.bmod_bmod, rfl, rfl, rfl, rfl, rfl, rfl⟩

/-- A notification enters the transaction that it carries. -/
theorem contents_processIncomingTransaction {data : String} (hG : AboutRequest G)
    (henv : KnowsStorage N env) (h : Contents G N m)
    (hdata : ∀ j, P.parse data = some j → ∃ tx, G tx ∧ j = tx.toJson) :
    Contents G N (processIncomingTransaction P env m data) := by
  unfold processIncomingTransaction
  split
  · exact h
  case h_2 j hj =>
      split
      · exact h
      case h_2 txId hid =>
          rcases hdata j hj with ⟨tx, htx, rfl⟩
          have hfilled : G (Transaction.fromJson tx.toJson
              ((m.transactions.find txId).getD {})).1 := hG _ _ (sameRequest_fromJson _ _) htx
          have hcomplete : (Transaction.fromJson tx.toJson
              ((m.transactions.find txId).getD {})).2 = true := by
            rw [Transaction.fromJson_toJson]
          unfold updateTransaction
          dsimp only
          rw [if_pos hcomplete]
          exact contents_checked hG henv
            (contents_sendToVerifier henv (h.store (.inr hfilled)) hfilled)
            (.inr (hG _ _ sameRequest_sendToVerifier hfilled))

/-- An exception is forwarded with the transaction as it is. -/
theorem contents_forwardException (h : Contents G N m) (htx : Vouched G tx) :
    Contents G N (forwardException env m tx) := by
  have herased : ∀ {m : Master}, Contents G N m →
      Contents G N { m with transactions := m.transactions.erase tx.txId } := by
    intro m h
    apply h.transactions
    intro id t hfind
    by_cases hid : id = tx.txId
    · rw [hid, TransactionsMap.find_erase_self] at hfind
      cases hfind
    · rwa [TransactionsMap.find_erase_ne _ hid] at hfind
  unfold forwardException
  dsimp only
  have heffect : ∀ e ∈ [Effect.gossip "master21" (.exception tx.toJson)], VouchedEffect G N e := by
    intro e he
    rw [List.mem_singleton.mp he]
    exact ⟨tx, htx, rfl⟩
  split
  · exact (herased (h.append htx)).emit heffect
  · exact (herased h).emit heffect

/-- An exception concerns a transaction that was there. -/
theorem contents_handleException {txId exp : String} (h : Contents G N m) :
    Contents G N (handleException env m txId exp) := by
  unfold handleException
  split
  · exact h
  case h_2 tx hfind =>
      -- the function is taken out
      have hexcepted : Vouched G (excepted tx exp) := .inl rfl
      dsimp only
      split
      · exact h.store hexcepted
      case h_2 m' hreplied =>
          have hreply : Contents G N m' := by
            split at hreplied
            · exact contents_wsSend h hreplied
            · cases hreplied
              exact h
          split
          · exact contents_forwardException hreply hexcepted
          · exact hreply.store hexcepted

theorem contents_handleForwardedException {txstr : String} (hG : AboutRequest G)
    (h : Contents G N m)
    (htxstr : ∀ j, P.parse txstr = some j → ∃ tx, Vouched G tx ∧ j = tx.toJson) :
    Contents G N (handleForwardedException P env m txstr) := by
  unfold handleForwardedException
  split
  · exact h
  case h_2 j hj =>
      rcases htxstr j hj with ⟨tx, htx, rfl⟩
      dsimp only
      split
      · exact h.append (vouched_congr hG (sameRequest_fromJson _ _) htx)
      · exact h

/-! ## Closing a block -/

/-- A block is made of what was queued. -/
theorem vouched_makeBlock {number : Nat} {previousHash : String} {txns : List Transaction}
    (hG : AboutRequest G) (htxns : ∀ tx ∈ txns, Vouched G tx) :
    VouchedBlock G (makeBlock P env number previousHash txns) := by
  refine ⟨txns.map fun tx => tx.setBlockId number, ?_, ?_⟩
  · simp only [makeBlock, List.map_map]
  · intro tx htx
    rcases List.mem_map.mp htx with ⟨t, ht, rfl⟩
    exact vouched_congr hG (sameRequest_setBlockId number t) (htxns t ht)

theorem contents_storeBlock {block : Block} (h : Contents G N m) (hblock : VouchedBlock G block) :
    Contents G N (storeBlock m block) := by
  refine ⟨h.held, h.queued, ?_, h.sent, h.node⟩
  intro b hb
  simp only [storeBlock, BlocksMap.insert] at hb
  split at hb
  · exact h.blocks b hb
  · rcases List.mem_append.mp hb with hb | hb
    · exact h.blocks b hb
    · rw [List.mem_singleton.mp hb]
      exact hblock

/-- A published block has transactions that were queued. -/
theorem contents_publishBlock {block : Block} (h : Contents G N m) (hblock : VouchedBlock G block) :
    Contents G N (publishBlock P env m block) := by
  unfold publishBlock
  split
  · dsimp only
    -- the designation only writes to the DHT
    have hnode : Contents G N (getBlockStorageNode env m) := by
      have hset : Contents G N { m with
          blockStorageNode :=
            (designateStorageNode env "sn_block_close_key" 1 0 m.blockStorageNode).1 } :=
        ⟨h.held, h.queued, h.blocks, h.sent, h.node⟩
      apply hset.emit
      intro e he
      exact vouchedEffect_of_isPut (designateStorageNode_isPut env "sn_block_close_key" 1 0 _ e he)
    split
    · exact hnode
    · apply contents_storeBlock ?_ hblock
      apply hnode.emit
      intro e he
      rw [List.mem_singleton.mp he]
      exact hblock
  · apply contents_storeBlock ?_ hblock
    refine ⟨h.held, h.queued, ?_, h.sent, h.node⟩
    -- a master that is not the producer may empty its table first
    intro b hb
    dsimp only at hb
    split at hb
    · cases hb
    · exact h.blocks b hb

theorem contents_getNextBlockNumber {number : Nat} (h : Contents G N m)
    (hnumber : getNextBlockNumber env m = some (number, m')) : Contents G N m' := by
  unfold getNextBlockNumber at hnumber
  split at hnumber
  · dsimp only at hnumber
    split at hnumber
    · cases hnumber
      refine Contents.emit (m := { m with nextBlockNumber := 1 }) ?_ (by simp [VouchedEffect])
      exact ⟨h.held, h.queued, h.blocks, h.sent, h.node⟩
    · rcases Option.map_eq_some_iff.mp hnumber with ⟨genesis, -, heq⟩
      cases heq
      exact ⟨h.held, h.queued, h.blocks, h.sent, h.node⟩
  · cases hnumber
    exact ⟨h.held, h.queued, h.blocks, h.sent, h.node⟩

theorem contents_assembleBlock {block : Block} (hG : AboutRequest G) (h : Contents G N m)
    (hassemble : assembleBlock P env m = some (block, m')) :
    Contents G N m' ∧ VouchedBlock G block := by
  rcases getBlock_eq_some hassemble with ⟨number, m₁, hnumber, rfl, -, rfl⟩
  have hleft : Contents G N { m with queueOut := notDue P env m } :=
    h.queueOut fun tx htx => h.queued tx (mem_of_mem_notDue htx)
  have hnext := contents_getNextBlockNumber hleft hnumber
  refine ⟨?_, vouched_makeBlock hG ?_⟩
  · refine Contents.emit (m := { m₁ with previousHash := _ }) ?_ (by simp [VouchedEffect])
    exact ⟨hnext.held, hnext.queued, hnext.blocks, hnext.sent, hnext.node⟩
  · intro tx htx
    exact h.queued tx (due_append_notDue_perm.mem_iff.mp (List.mem_append_left _ htx))

theorem contents_timeToCloseBlock (hG : AboutRequest G) (h : Contents G N m)
    (hclose : timeToCloseBlock P env m = some m') : Contents G N m' := by
  rcases timeToCloseBlock_eq_some hclose with ⟨block, m₁, hassemble, rfl⟩
  rcases contents_assembleBlock hG h hassemble with ⟨hm₁, hblock⟩
  exact contents_publishBlock hm₁ hblock

end Master

open Master

/-- Whatever a master does, the contents of its transactions stay vouched for when what
reaches it is. -/
theorem contents_handle {P : Platform} {G : Transaction → Prop} {N : String → Prop}
    {m m' : Master} {e : Event} (hG : AboutRequest G) (henv : KnowsStorage N e.env)
    (h : Contents G N m) (hbrings : Brings P G m e.env e.msg) (hhandle : handle P m e = some m') :
    Contents G N m' := by
  rcases e with ⟨env, msg⟩
  cases msg with
  | exeFunction p =>
      cases hhandle
      exact contents_processCodePacket hG henv h hbrings
  | verificationResult txId hash output =>
      cases hhandle
      exact contents_verifyTransaction hG henv h
  | txNotification data =>
      rw [handle_txNotification hhandle]
      exact contents_processIncomingTransaction hG henv h hbrings
  | exception txId exp =>
      cases hhandle
      exact contents_handleException h
  | forwardedException txstr =>
      rw [handle_forwardedException hhandle]
      exact contents_handleForwardedException hG h hbrings
  | cleanup =>
      cases hhandle
      apply h.transactions
      intro id tx hfind
      exact (Option.filter_eq_some_iff.mp hfind).1
  | closeBlock => exact contents_timeToCloseBlock hG h hhandle

end DecentralizedCloud
