import DecentralizedCloud.Cluster.Deployment

/-!
# Recorded transactions

A storage node commits the blocks that it has read, and nobody but a master closes blocks
(`Undisturbed`). A transaction with a function in it is in the block of a master only if some
client has signed a request for it. So what the trees of the tenants link are transactions
that their clients have signed, each under its own id and below its own tenant, and none of
those that were committed is missing (`recorded_transactions`).

A block is an object with a number, and its transactions have names, so no commit that IPFS
serves ends the worker.
-/

namespace DecentralizedCloud.System

open Machine Master Network Compute Storage

variable {n m : Nat} {P : Platform} {L : NodeLibrary} {V : Processor} {names : Names n m}
  {Sv : Services} {contents : String → Option Storage.Contents} {S S' S₀ : Cloud n m} {q : Packet}
  {s s' s₀ : StorageNode} {G G' : Transaction → Prop} {base64_encodeString : String → String}

/-! ## Blocks in the queue -/

/-- What is queued is a block of transactions that are vouched for. -/
def VouchedRecord (Sv : Services) (G : Transaction → Prop) (b : QueuedBlock) : Prop :=
  ∃ (block : Json) (txns : List Transaction), Sv.parse b.2 = some block ∧ Storage.Signed block ∧
    block.get? "data" = some (.arr (txns.map Transaction.toJson)) ∧
    (block.longLongAt "n").isSome = true ∧ ∀ tx ∈ txns, Vouched G tx

theorem vouchedRecord_mono {b : QueuedBlock} (hG : ∀ tx, G tx → G' tx)
    (h : VouchedRecord Sv G b) : VouchedRecord Sv G' b := by
  rcases h with ⟨block, txns, hparse, hsigned, hdata, hn, hvouched⟩
  exact ⟨block, txns, hparse, hsigned, hdata, hn, fun tx htx => (hvouched tx htx).imp_right (hG tx)⟩

/-- The block in a message that closes one is the block of a master. -/
theorem payload_of_handles (h : Connected P L V names (readBlock Sv) S) (hq : q ∈ S.sent)
    {f : FieldValueMap} {receiver : Receiver} (hhandles : s.Handles q .closeBlock f receiver)
    {sent : Json} (hpayload : payload Sv f = some sent) :
    ∃ b : Block, VouchedBlock (S.Genuine names) b ∧ sent = b.toJson := by
  have henvelope := (h.settled.packets q hq).envelope
  rcases hhandles.exists_fields with ⟨fields, hfields, hpasses⟩
  have hcommand : q.command? = some .closeBlock := hhandles.arrived.command
  cases h.sources q hq with
  | master message hcarries hvouched hlegible =>
      rcases message.gossip_eq L with ⟨cmd, kv, hgossip, hkv⟩
      rw [hgossip] at hcarries
      rcases arrived_of_passes henvelope hkv hcarries hfields hpasses with ⟨rfl, harrived⟩
      cases message with
      -- the block of the master is legible
      | closeBlock b si key =>
          cases hgossip
          have hb : f.at? "b" =
              some (receivedValue (L.base64_encodeString (L.dump b.toJson))) :=
            harrived "b" (by decide)
          rw [payload, hb] at hpayload
          exact ⟨b, hvouched, Option.some.inj (hpayload.symm.trans hlegible)⟩
      | txNotification | codeDelivery | canCommit | exception => cases hgossip
  | command cmd kv hcarries hkv hcmd =>
      rw [Packet.command?_of_command henvelope hkv hcarries] at hcommand
      exact absurd (Option.some.inj hcommand) hcmd
  -- what a script sends closes no blocks
  | text txId rest hmsg hid hcloseBlock => exact absurd hcommand hcloseBlock

theorem vouchedRecord_of_handles (hS : Sv.Lawful contents)
    (h : Connected P L V names (readBlock Sv) S) (hq : q ∈ S.sent) {f : FieldValueMap}
    {receiver : Receiver} (hhandles : s.Handles q .closeBlock f receiver) {b : QueuedBlock}
    (hclose : closeBlock Sv f = some b) : VouchedRecord Sv (S.Genuine names) b := by
  rcases closeBlock_eq_some hS.toJsonLaws hclose with
    ⟨sent, block, hpayload, -, hparse, hsigned, hsame⟩
  rcases payload_of_handles h hq hhandles hpayload with ⟨b', ⟨txns, hdata, hvouched⟩, rfl⟩
  refine ⟨block, txns, hparse, hsigned, ?_, ?_, hvouched⟩
  · rw [hsame "data" (by decide), ← hdata]
    rfl
  · rw [Json.longLongAt, hsame "n" (by decide)]
    rfl

/-! ## What has been committed -/

/-- The transactions of some blocks, in the order in which they are committed. -/
def committedTransactions (Sv : Services) (committed : List QueuedBlock) : List Json :=
  (committed.filterMap fun b => Sv.parse b.2).flatMap transactionsIn

theorem committedTransactions_snoc {committed : List QueuedBlock} {b : QueuedBlock} {block : Json}
    (hparse : Sv.parse b.2 = some block) : committedTransactions Sv (committed ++ [b]) =
      committedTransactions Sv committed ++ transactionsIn block := by
  simp [committedTransactions, hparse]

/-- The worker goes on, and the trees hold the transactions that were committed. -/
structure Recording (Sv : Services) (contents : String → Option Storage.Contents)
    (G : Transaction → Prop) (blocks : BlockQueue.St) (dht : String → String) : Prop where
  goes : blocks.worker ≠ .stopped
  queued : ∀ b ∈ blocks.blocksToCommit.elems, VouchedRecord Sv G b
  vouched : ∀ transaction ∈ committedTransactions Sv blocks.committed,
    ∃ tx, Vouched G tx ∧ transaction = tx.toJson
  named : ∀ transaction ∈ committedTransactions Sv blocks.committed, Named contents transaction
  holds : HoldsTransactions Sv contents dht (committedTransactions Sv blocks.committed)
  blockRoot : ∃ links, Rooted contents (dht (rootKey blockTree)) links

theorem Recording.mono {blocks : BlockQueue.St} {dht : String → String} (hG : ∀ tx, G tx → G' tx)
    (h : Recording Sv contents G blocks dht) : Recording Sv contents G' blocks dht where
  goes := h.goes
  queued b hb := vouchedRecord_mono hG (h.queued b hb)
  vouched transaction hmem := by
    rcases h.vouched transaction hmem with ⟨tx, hvouched, hjson⟩
    exact ⟨tx, hvouched.imp_right (hG tx), hjson⟩
  named := h.named
  holds := h.holds
  blockRoot := h.blockRoot

theorem Recording.push {blocks : BlockQueue.St} {dht : String → String} {b : QueuedBlock}
    {queue : BlockQueue.PriorityPairQueue} (h : Recording Sv contents G blocks dht)
    (hb : VouchedRecord Sv G b) (hqueue : queue.elems = b ::ₘ blocks.blocksToCommit.elems) :
    Recording Sv contents G { blocks with blocksToCommit := queue } dht where
  goes := h.goes
  queued := by
    intro b' hb'
    have hmem : b' ∈ queue.elems := hb'
    rw [hqueue, Multiset.mem_cons] at hmem
    rcases hmem with rfl | hold
    · exact hb
    · exact h.queued b' hold
  vouched := h.vouched
  named := h.named
  holds := h.holds
  blockRoot := h.blockRoot

/-- The transactions of a block that is vouched for have names. -/
theorem named_of_vouched {txns : List Transaction}
    (hids : ∀ transaction ∈ txns.map Transaction.toJson, ∀ txid ∈ transaction.stringAt "txid",
      contents txid = none) :
    ∀ transaction ∈ txns.map Transaction.toJson, Named contents transaction := by
  intro transaction hmem
  rcases List.mem_map.mp hmem with ⟨tx, -, rfl⟩
  exact ⟨tx.txId, tx.tenantId, rfl, rfl, hids _ hmem tx.txId rfl⟩

/-- A commit that IPFS serves. -/
theorem Recording.commit (hS : Sv.Lawful contents) {blocks blocks' : BlockQueue.St}
    {dht : String → String} {answers : BlockAnswers} {queue : BlockQueue.PriorityPairQueue}
    (h : Recording Sv contents G blocks dht)
    (hserves : ∀ b ∈ blocks.blocksToCommit.top, ∀ block, Sv.parse b.2 = some block →
      ServesBlock Sv answers block (transactionsIn block) dht ∧
        ∀ transaction ∈ transactionsIn block, ∀ txid ∈ transaction.stringAt "txid",
          contents txid = none)
    (hmoves : BlockQueue.Moves Sv base64_encodeString blocks (.commit dht answers queue) blocks')
    {b : QueuedBlock} (htop : blocks.blocksToCommit.top = some b) :
    Recording Sv contents G blocks'
      ((addTransactions Sv answers base64_encodeString b.2).exec dht).1 := by
  have hmem := (blocks.blocksToCommit.highest b htop).1
  rcases h.queued b hmem with ⟨block, txns, hparse, hsigned, hdata, hn, hvouched⟩
  rcases hserves b htop block hparse with ⟨hserves, hids⟩
  have htransactions : transactionsIn block = txns.map Transaction.toJson := by
    simp [transactionsIn, dataOf, hdata, transactionsOf]
  rw [htransactions] at hserves hids
  have hnamed := named_of_vouched hids
  rcases h.holds.commit hS base64_encodeString h.named h.blockRoot hparse hsigned hdata hn hnamed
    hserves with ⟨dht', fields, hexec, hholds, hblockRoot⟩
  -- a served commit of a block with named transactions completes
  cases hmoves with
  | raised hworker htop' hraised =>
      cases htop.symm.trans htop'
      rw [hexec] at hraised
      exact absurd rfl hraised
  | committed hworker htop' hcompletes hqueue =>
      cases htop.symm.trans htop'
      have hcommitted : committedTransactions Sv (blocks.committed ++ [b]) =
          committedTransactions Sv blocks.committed ++ txns.map Transaction.toJson := by
        rw [committedTransactions_snoc hparse, htransactions]
      rw [hexec]
      refine ⟨by simp, ?_, ?_, ?_, ?_, hblockRoot⟩
      -- the rest of the queue
      · intro b' hb'
        have hleft : b' ∈ queue.elems := hb'
        rw [hqueue] at hleft
        exact h.queued b' (Multiset.mem_of_mem_erase hleft)
      · rw [hcommitted]
        intro transaction hmem
        -- what was committed before, and what comes now
        rcases List.mem_append.mp hmem with hold | hnew
        · exact h.vouched transaction hold
        · rcases List.mem_map.mp hnew with ⟨tx, htx, rfl⟩
          exact ⟨tx, hvouched tx htx, rfl⟩
      · rw [hcommitted]
        intro transaction hmem
        rcases List.mem_append.mp hmem with hold | hnew
        · exact h.named transaction hold
        · exact hnamed transaction hnew
      · rw [hcommitted]
        exact hholds

/-- A step of the storage node. -/
theorem recording_step (hS : Sv.Lawful contents) {e : StorageEvent}
    (hconnected : Connected P L V names (readBlock Sv) S)
    (h : Recording Sv contents (S.Genuine names) s.blocks s.dht)
    (hallowed : AllowedStorage Sv contents s e)
    (hread : reading Sv base64_encodeString S s e = some s') :
    Recording Sv contents (S.Genuine names) s'.blocks s'.dht := by
  rcases step_of_reading hread with ⟨hsent, hstep⟩
  cases StorageNode.moves_of_step hstep with
  | quiet | stateChange | other | update => exact h
  | @closeBlock q queue f receiver blocks hhandles hblocks =>
      cases BlockQueue.moves_of_step hblocks with
      | dropped => exact h
      | pushed hclose hqueue =>
          -- what reaches the handler is the block of a master
          exact h.push (vouchedRecord_of_handles hS hconnected (hsent q rfl).1 hhandles hclose) hqueue
  | look hblocks =>
      cases BlockQueue.moves_of_step hblocks with
      | looked => exact ⟨by simp, h.queued, h.vouched, h.named, h.holds, h.blockRoot⟩
  | @commit answers queue blocks hblocks =>
      have hmoves := BlockQueue.moves_of_step hblocks
      have htop : ∃ b, s.blocks.blocksToCommit.top = some b := by
        cases hmoves with
        | committed _ htop | raised _ htop => exact ⟨_, htop⟩
      rcases htop with ⟨b, htop⟩
      have hdht : s.committed Sv base64_encodeString answers =
          ((addTransactions Sv answers base64_encodeString b.2).exec s.dht).1 := by
        rw [StorageNode.committed, htop]
      rw [hdht]
      exact h.commit hS hallowed hmoves htop
  -- another thread leaves the trees as they are
  | write =>
      rcases hallowed with ⟨hroots, hkeys, hblockRoot⟩
      exact ⟨h.goes, h.queued, h.vouched, h.named, h.holds.keep h.named hroots hkeys, hblockRoot⟩

/-! ## Runs -/

theorem recording_start (hstorage : StorageStart names s₀) :
    Recording Sv contents G s₀.blocks s₀.dht := by
  have hcommitted : committedTransactions Sv s₀.blocks.committed = [] := by
    rw [hstorage.blocks]
    rfl
  refine ⟨?_, ?_, ?_, ?_, ?_, ?_⟩
  · simp [hstorage.blocks]
  · simp [hstorage.blocks]
  · simp [hcommitted]
  · simp [hcommitted]
  · rw [hcommitted]
    exact holdsTransactions_nil hstorage.roots
  · exact ⟨_, .inl ⟨hstorage.blockRoot, rfl⟩⟩

/-- In every run the deployment stays connected, and what the storage node has recorded is genuine.
-/
theorem recording_run (hS : Sv.Lawful contents) {es : List (DeploymentEvent n m)}
    (hstart : Start names S₀) (hstorage : StorageStart names s₀)
    (h : Trace (deployment P L V Sv) (Deployed P L V names Sv contents) (S₀, s₀) es (S, s)) :
    Connected P L V names (readBlock Sv) S ∧
      Recording Sv contents (S.Genuine names) s.blocks s.dht := by
  have hinv := h.invariant (fun _ d => Connected P L V names (readBlock Sv) d.1 ∧
    Recording Sv contents (Cloud.Genuine names d.1) d.2.blocks d.2.dht) ?_ ?_
  · exact hinv
  · exact ⟨connected_start hstart, recording_start hstorage⟩
  · intro _ d e d' ⟨hconnected, hrecording⟩ hallowed hstep
    cases e with
    | inl e =>
        rcases of_beside_inl hstep with ⟨hnext, hsame⟩
        rw [hsame]
        exact ⟨connected_step hconnected hallowed.1 hallowed.2 hnext,
          hrecording.mono (extends_of_moves (Protocol.moves_of_next hnext)).genuine⟩
    | inr e =>
        rcases of_beside_inr hstep with ⟨hread, hsame⟩
        rw [hsame]
        exact ⟨hconnected, recording_step hS hconnected hrecording hallowed hread⟩

namespace Sample

/-- The fields of the packet with the block. -/
theorem fields_blockClosed : ∃ f, blockClosed.fields = some f ∧
    ReadsFields blockClosed.envelope .closeBlock
      [("b", library.base64_encodeString (library.dump block.toJson)), ("si", "m1"),
        ("key", "bTE=")] f := by
  rcases Message.gossip_eq library (.closeBlock block "m1" "bTE=") with ⟨cmd, kv, hgossip, hkv⟩
  cases hgossip
  refine Packet.readsFields ?_ hkv ?_
  · exact ⟨by decide, by decide, by decide, by decide⟩
  · rcases gossipText_eq .closeBlock fun field h => (hkv field h).not_reserved with ⟨msg, hmsg, -⟩
    have hgossip : ((Message.closeBlock block "m1" "bTE=").gossip library).msg? = some msg := hmsg
    have htext : blockClosed.msg = msg := by rw [blockClosed, hgossip, Option.getD_some]
    rw [Packet.Carries, htext]
    exact hmsg

theorem parse_services (text : String) :
    services.parse (services.base64_decode text) = Json.parse text := rfl

theorem dump_library (j : Json) : library.base64_encodeString (library.dump j) = Json.write j := rfl

/-- The storage node queues the block. -/
theorem exists_queued {f : FieldValueMap} (hb : f.at? "b" = some (Json.write block.toJson))
    (hsi : f.at? "si" = some "m1") (hkey : f.at? "key" = some "bTE=") :
    ∃ b block', closeBlock services f = some b ∧ services.parse b.2 = some block' ∧
      transactionsIn block' = [verified.toJson] := by
  have hpayload : payload services f = some block.toJson := by
    rw [payload, hb, Option.bind_eq_bind, Option.bind_some, parse_services]
    exact Json.parse_write wellFormed_block
  have hlaws := (ObjectStore.unsearched_lawful id).toJsonLaws
  rcases exists_closeBlock hlaws hpayload rfl hkey hsi (by decide) (by decide) with ⟨text, hclose⟩
  rcases closeBlock_eq_some hlaws hclose with ⟨sent, block', hsent, -, hparse, -, hsame⟩
  cases hpayload.symm.trans hsent
  refine ⟨_, block', hclose, hparse, ?_⟩
  rw [transactionsIn, dataOf, hsame "data" (by decide)]
  rfl

/-- The text of the block arrives as it is. -/
theorem received_block : receivedValue (Json.write block.toJson) = Json.write block.toJson := by
  decide +kernel

/-- A storage node that has no blocks reads a packet, and its worker turns to the block in it. -/
theorem exists_entering {q : Packet} {fields f : FieldValueMap} {receiver : Receiver}
    {b : QueuedBlock} (hchannel : q.channel ∈ s₀.channels) (hblocks : s₀.blocks = {})
    (hfields : q.fields = some fields)
    (hreceive : s₀.receiver.receiveGossip fields = (receiver, .handled .closeBlock f))
    (hclose : closeBlock services f = some b) :
    ∃ ds s, Trace (StorageNode.step services id) (Reads q) s₀ ds s ∧
      s.blocks.worker = .entering ∧ s.blocks.blocksToCommit.top = some b ∧
        s.blocks.blocksToCommit.elems = {b} := by
  have hlower : BlockQueue.orderByBlockNumber b b = false := by simp [BlockQueue.orderByBlockNumber]
  have hqueue : (PriorityQueue.Queue.single b hlower).elems =
      b ::ₘ (PriorityQueue.Queue.empty : BlockQueue.PriorityPairQueue).elems := rfl
  -- the block is queued
  have hreceived : ∃ s, StorageNode.step services id s₀ (.receive q (.single b hlower)) = some s ∧
      s.blocks = { worker := .ready, blocksToCommit := .single b hlower } := by
    simp only [StorageNode.step, hfields, hreceive, StorageNode.dataHandler, BlockQueue.step, hclose,
      hblocks]
    rw [if_pos hqueue]
    exact ⟨_, rfl, rfl⟩
  rcases hreceived with ⟨s, hstep, hs⟩
  -- the worker finds the queue not empty
  have hlook : StorageNode.step services id s .look =
      some { s with blocks := { s.blocks with worker := .entering } } := by
    simp [StorageNode.step, BlockQueue.step, hs, PriorityQueue.Queue.single,
      PriorityQueue.Queue.withTop]
  refine ⟨[.receive q (.single b hlower), .look],
    { s with blocks := { s.blocks with worker := .entering } },
    .cons ⟨rfl, hchannel⟩ hstep (.single trivial hlook), rfl, ?_, ?_⟩
  · rw [hs]
    rfl
  · rw [hs]
    rfl

/-- The storage node reads the packet, and its worker turns to the block. -/
theorem exists_reading : ∃ (ds : List StorageEvent) (s : StorageNode) (b : QueuedBlock)
    (block' : Json), Trace (StorageNode.step services id) (Reads blockClosed) (storage "s1") ds s ∧
      s.blocks.worker = .entering ∧ s.blocks.blocksToCommit.top = some b ∧
      s.blocks.blocksToCommit.elems = {b} ∧ services.parse b.2 = some block' ∧
      transactionsIn block' = [verified.toJson] := by
  rcases fields_blockClosed with ⟨fields, hfields, hreads⟩
  have hhandled := (storage "s1").receiver.handled_of_readsFields hreads (by decide) (by decide)
    (by decide) (by decide) (by decide) rfl
  rcases hhandled with ⟨f, hreceive, hat⟩
  rw [dump_library] at hat
  have hb : f.at? "b" = some (Json.write block.toJson) :=
    (hat "b" (by decide)).trans (congrArg some received_block)
  have hsi : f.at? "si" = some "m1" := (hat "si" (by decide)).trans (by decide)
  have hkey : f.at? "key" = some "bTE=" := (hat "key" (by decide)).trans (by decide)
  rcases exists_queued hb hsi hkey with ⟨b, block', hclose, hparse, htransactions⟩
  rcases exists_entering (by decide) rfl hfields hreceive hclose with
    ⟨ds, s, hread, hworker, htop, helems⟩
  exact ⟨ds, s, b, block', hread, hworker, htop, helems, hparse, htransactions⟩

/-- Whatever IPFS answers, there is a next step. -/
theorem exists_commit {s : StorageNode} {b : QueuedBlock} (hworker : s.blocks.worker = .entering)
    (htop : s.blocks.blocksToCommit.top = some b) (helems : s.blocks.blocksToCommit.elems = {b})
    (answers : BlockAnswers) :
    ∃ s', StorageNode.step services id s (.commit answers .empty) = some s' ∧
      (s'.blocks.worker = .stopped ∨ b ∈ s'.blocks.committed) := by
  have hempty : (PriorityQueue.Queue.empty : BlockQueue.PriorityPairQueue).elems =
      s.blocks.blocksToCommit.elems.erase b := by
    rw [helems, PriorityQueue.Queue.elems_empty, Multiset.erase_singleton]
  simp only [StorageNode.step, BlockQueue.step, hworker, htop]
  rw [if_pos hempty]
  split
  · exact ⟨_, rfl, .inr (by simp)⟩
  · exact ⟨_, rfl, .inl rfl⟩

end Sample

end DecentralizedCloud.System
