import DecentralizedCloud.Common.Fields
import DecentralizedCloud.Master.Verification

/-!
# Closing a block

Once a second a master moves the transactions that are due from `queueOut`
into a block. The block producer of the second sends its block to the block
storage node; every other master only keeps it. Each master numbers and links
its blocks with its own copy of the `BlockUtil` state, which it advances on
every closing, whether or not the block is sent.
-/

namespace DecentralizedCloud

namespace Master

/-! ## BlockUtil -/

/-- `getNextBlockNumber`; `none` when the genesis stamp in the DHT is no number. -/
def getNextBlockNumber (env : Env) (m : Master) : Option (Nat × Master) :=
  if m.nextBlockNumber = 0 then
    let bnstr := env.dhtGet "genesisStamp"
    if bnstr = "" then
      -- the first block of the network: its time becomes the genesis stamp
      some (0,
        { m with nextBlockNumber := 1 }.emit [.dhtPut "genesisStamp" (toString env.now) true])
    else
      (stoull bnstr).map fun genesis =>
        let number := ((env.now - genesis) % 2 ^ 64).toNat
        (number, { m with nextBlockNumber := (number + 1) % 2 ^ 64 })
  else
    some (m.nextBlockNumber, { m with nextBlockNumber := (m.nextBlockNumber + 1) % 2 ^ 64 })

def getPreviousHash (env : Env) : String :=
  let hash := env.dhtGet "hash"
  if hash = "" then "00000000000000000000000000000000" else hash

/-- What a block's hash is computed from. -/
def hashInput (number : Nat) (previousHash : String) (txIds : List String) (time : Int) : String :=
  toString number ++ previousHash ++ toString time ++ String.join txIds

/-- Behind one number, link and time, the concatenation of the ids decides. -/
theorem hashInput_inj {number : Nat} {previousHash : String} {txIds txIds' : List String}
    {time : Int} : hashInput number previousHash txIds time =
      hashInput number previousHash txIds' time ↔ String.join txIds = String.join txIds' :=
  String.append_right_inj _

def calculateBlockHash (P : Platform) (number : Nat) (previousHash : String)
    (txns : List Transaction) (time : Int) : String :=
  P.infoHash (hashInput number previousHash (txns.map (·.txId)) time)

/-- The block that `getBlock` makes under a given number. -/
def makeBlock (P : Platform) (env : Env) (number : Nat) (previousHash : String)
    (txns : List Transaction) : Block :=
  let txns := txns.map (·.setBlockId number)
  { number
    hash := calculateBlockHash P number previousHash txns env.now
    previousHash
    data := .arr (txns.map (·.toJson))
    time := env.now }

/-- The hash that the next block links to. -/
def linkHash (env : Env) (m : Master) : String :=
  if m.previousHash = "" then getPreviousHash env else m.previousHash

/-- `getBlock`; `none` when the number cannot be read, or the transactions cannot be
printed. -/
def getBlock (P : Platform) (env : Env) (m : Master) (txns : List Transaction) :
    Option (Block × Master) :=
  (getNextBlockNumber env m).bind fun (number, m) =>
    let block := makeBlock P env number (linkHash env m) txns
    -- the log prints them before the block is made
    if block.data.prints then
      some (block, { m with previousHash := block.hash }.emit [.dhtPut "hash" block.hash false])
    else none

/-! ## timeToCloseBlock -/

/-- The transactions that a closing takes, in the order of the sorted queue. -/
def due (P : Platform) (env : Env) (m : Master) : List Transaction :=
  (P.sort m.queueOut).takeWhile fun tx => decide (tx.timestamp ≤ env.now)

/-- The transactions that a closing leaves in the queue. -/
def notDue (P : Platform) (env : Env) (m : Master) : List Transaction :=
  (P.sort m.queueOut).dropWhile fun tx => decide (tx.timestamp ≤ env.now)

/-- The first half of `timeToCloseBlock`: the due transactions leave the
sorted queue and become a block. -/
def assembleBlock (P : Platform) (env : Env) (m : Master) : Option (Block × Master) :=
  getBlock P env { m with queueOut := notDue P env m } (due P env m)

def storeBlock (m : Master) (block : Block) : Master :=
  { m with blocks := BlocksMap.insert m.blocks block }

/-- The second half: the producer sends the block, the others keep it. -/
def publishBlock (P : Platform) (env : Env) (m : Master) (block : Block) : Master :=
  if isBlockProducer env m then
    let sig := P.createX509Signature block.hash m.nodeId
    let m := getBlockStorageNode env m
    -- without a storage node the block is lost
    if m.blockStorageNode = "" then m
    else
      storeBlock (m.emit [.gossip m.blockStorageNode (.closeBlock block sig m.base64encodedKey)])
        block
  else
    storeBlock { m with blocks := if m.blocks.length > 200 then [] else m.blocks } block

/-- `timeToCloseBlock`; `none` when an exception leaves it, which ends the node. -/
def timeToCloseBlock (P : Platform) (env : Env) (m : Master) : Option Master :=
  (assembleBlock P env m).bind fun (block, m) =>
    -- the producer prints its block
    if isBlockProducer env m && !block.toJson.prints then none
    else some (publishBlock P env m block)

/-! ## What closing does -/

variable {P : Platform} {env : Env} {m m' m₁ : Master} {block : Block} {txns : List Transaction}

/-- `m'` differs from `m` in the `BlockUtil` state and in what was put into the DHT. -/
structure AdvancesBlockState (m m' : Master) : Prop where
  nodeId : m'.nodeId = m.nodeId
  blockProducers : m'.blockProducers = m.blockProducers
  transactions : m'.transactions = m.transactions
  queueOut : m'.queueOut = m.queueOut
  blockStorageNode : m'.blockStorageNode = m.blockStorageNode
  sent : ∃ effects, m'.sent = m.sent ++ effects ∧ ∀ e ∈ effects, e.IsPut

theorem getNextBlockNumber_advances {number : Nat}
    (h : getNextBlockNumber env m = some (number, m₁)) :
    AdvancesBlockState m m₁ ∧ m₁.previousHash = m.previousHash := by
  unfold getNextBlockNumber at h
  split at h
  · dsimp only at h
    split at h
    · cases h
      exact ⟨⟨rfl, rfl, rfl, rfl, rfl, _, rfl, by simp [Effect.IsPut]⟩, rfl⟩
    · rcases Option.map_eq_some_iff.mp h with ⟨genesis, -, heq⟩
      cases heq
      exact ⟨⟨rfl, rfl, rfl, rfl, rfl, [], by simp, by simp⟩, rfl⟩
  · cases h
    exact ⟨⟨rfl, rfl, rfl, rfl, rfl, [], by simp, by simp⟩, rfl⟩

/-- The number that a block gets: one that was fetched before is used, otherwise
it is the age of the network. -/
def numberFrom (genesisStamp : String) (now : Int) (next : Nat) : Option Nat :=
  if next = 0 then
    if genesisStamp = "" then some 0
    else (stoull genesisStamp).map fun genesis => ((now - genesis) % 2 ^ 64).toNat
  else some next

/-- In every case the counter goes on from the number of the block. -/
theorem getNextBlockNumber_number {number : Nat}
    (h : getNextBlockNumber env m = some (number, m₁)) :
    numberFrom (env.dhtGet "genesisStamp") env.now m.nextBlockNumber = some number ∧
      m₁.nextBlockNumber = (number + 1) % 2 ^ 64 := by
  unfold getNextBlockNumber at h
  unfold numberFrom
  split at h
  case isTrue hunfetched =>
      rw [if_pos hunfetched]
      dsimp only at h
      split at h
      -- no genesis timestamp: the first block has the number 0
      case isTrue hempty =>
          rw [if_pos hempty]
          cases h
          exact ⟨rfl, rfl⟩
      case isFalse hstamp =>
          rw [if_neg hstamp]
          rcases Option.map_eq_some_iff.mp h with ⟨genesis, hgenesis, heq⟩
          cases heq
          exact ⟨by rw [hgenesis]; rfl, rfl⟩
  -- the counter is there already
  case isFalse hfetched =>
      rw [if_neg hfetched]
      cases h
      exact ⟨rfl, rfl⟩

/-- `block` was made of `txns` in the state `m`. -/
structure MadeOf (P : Platform) (env : Env) (m : Master) (txns : List Transaction)
    (block : Block) : Prop where
  hash : block.hash = P.infoHash
    (hashInput block.number block.previousHash (txns.map (·.txId)) env.now)
  previousHash : block.previousHash = linkHash env m
  time : block.time = env.now
  txIds : block.txIds = txns.map (·.txId)
  number : numberFrom (env.dhtGet "genesisStamp") env.now m.nextBlockNumber = some block.number

/-- The data of a block names the transactions it was made of. -/
theorem makeBlock_txIds (number : Nat) (previousHash : String) (txns : List Transaction) :
    (makeBlock P env number previousHash txns).txIds = txns.map (·.txId) := by
  unfold Block.txIds makeBlock Json.elems
  dsimp only
  induction txns with
  | nil => rfl
  | cons tx txns ih =>
      rw [List.map_cons, List.map_cons, List.map_cons, List.filterMap_cons, ih]
      rfl

/-- The data of a block print when all its transactions do. -/
theorem makeBlock_prints (number : Nat) (previousHash : String) (txns : List Transaction) :
    (makeBlock P env number previousHash txns).data.prints =
      txns.all fun tx => tx.toJson.prints := by
  simp only [makeBlock, Json.prints, Json.printsElems_eq_all, List.all_map]
  rfl

/-- A block that is made has a number that was read, and data that print. -/
theorem getBlock_eq_some (h : getBlock P env m txns = some (block, m')) :
    ∃ number m₁, getNextBlockNumber env m = some (number, m₁) ∧
      block = makeBlock P env number (linkHash env m₁) txns ∧
      (∀ tx ∈ txns, tx.toJson.prints = true) ∧
      m' = { m₁ with previousHash := block.hash }.emit [.dhtPut "hash" block.hash false] := by
  rcases Option.bind_eq_some_iff.mp h with ⟨⟨number, m₁⟩, hnumber, hblock⟩
  dsimp only at hblock
  split at hblock
  case isTrue hprints =>
      cases hblock
      rw [makeBlock_prints, List.all_eq_true] at hprints
      exact ⟨number, m₁, hnumber, rfl, hprints, rfl⟩
  case isFalse => cases hblock

theorem getBlock_madeOf (h : getBlock P env m txns = some (block, m')) :
    MadeOf P env m txns block := by
  rcases getBlock_eq_some h with ⟨number, m₁, hnumber, rfl, -, -⟩
  rcases getNextBlockNumber_advances hnumber with ⟨-, hprev⟩
  constructor
  case hash =>
      have hids : (txns.map (·.setBlockId number)).map (·.txId) = txns.map (·.txId) := by
        simp [Function.comp_def, Transaction.setBlockId]
      simp only [makeBlock, calculateBlockHash, hids]
  case previousHash => simp only [makeBlock, linkHash, hprev]
  case time => rfl
  case txIds => exact makeBlock_txIds number _ txns
  case number => exact (getNextBlockNumber_number hnumber).1

/-- A new block is the next one, and its hash is remembered. -/
theorem getBlock_advances (h : getBlock P env m txns = some (block, m')) :
    AdvancesBlockState m m' ∧ m'.previousHash = block.hash ∧
      m'.nextBlockNumber = (block.number + 1) % 2 ^ 64 := by
  rcases getBlock_eq_some h with ⟨number, m₁, hnumber, hblock, -, rfl⟩
  rcases getNextBlockNumber_advances hnumber with ⟨hadv, -⟩
  rcases hadv.sent with ⟨effects, hsent, heffects⟩
  refine ⟨⟨hadv.nodeId, hadv.blockProducers, hadv.transactions, hadv.queueOut,
    hadv.blockStorageNode, effects ++ [.dhtPut "hash" block.hash false], ?_, ?_⟩, rfl, ?_⟩
  · rw [← List.append_assoc, ← hsent]
    rfl
  · intro e he
    rcases List.mem_append.mp he with he | he
    · exact heffects e he
    · rw [List.mem_singleton.mp he]
      trivial
  · rw [hblock]
    exact (getNextBlockNumber_number hnumber).2

/-- A closing splits the queue. -/
theorem due_append_notDue_perm : (due P env m ++ notDue P env m).Perm m.queueOut := by
  rw [due, notDue, List.takeWhile_append_dropWhile]
  exact P.sort_perm _

theorem mem_of_mem_notDue {tx : Transaction} (h : tx ∈ notDue P env m) : tx ∈ m.queueOut :=
  due_append_notDue_perm.mem_iff.mp (List.mem_append_right _ h)

theorem assembleBlock_madeOf (h : assembleBlock P env m = some (block, m')) :
    MadeOf P env m (due P env m) block := by
  have hmade := getBlock_madeOf h
  exact ⟨hmade.hash, hmade.previousHash, hmade.time, hmade.txIds, hmade.number⟩

theorem assembleBlock_advances (h : assembleBlock P env m = some (block, m')) :
    AdvancesBlockState { m with queueOut := notDue P env m } m' ∧ m'.previousHash = block.hash ∧
      m'.nextBlockNumber = (block.number + 1) % 2 ^ 64 :=
  getBlock_advances h

/-! ### Publishing -/

/-- The block that an effect sends to the block storage node. -/
def closedBlock : Effect → Option Block
  | .gossip _ (.closeBlock b _ _) => some b
  | _ => none

/-- The blocks that a master has sent. -/
def sentBlocks (m : Master) : List Block := m.sent.filterMap closedBlock

theorem closedBlock_of_isPut {e : Effect} (h : e.IsPut) : closedBlock e = none := by
  cases e with
  | dhtPut => rfl
  | send | gossip => cases h

theorem AdvancesBlockState.sentBlocks (h : AdvancesBlockState m m') :
    m'.sentBlocks = m.sentBlocks := by
  rcases h.sent with ⟨effects, hsent, hputs⟩
  have hnone : effects.filterMap closedBlock = [] := by
    rw [List.filterMap_eq_nil_iff]
    intro e he
    exact closedBlock_of_isPut (hputs e he)
  simp [Master.sentBlocks, hsent, hnone]

/-- A known storage node is kept. -/
theorem getBlockStorageNode_known (h : m.blockStorageNode ≠ "") :
    getBlockStorageNode env m = m := by
  simp [getBlockStorageNode, designateStorageNode, h, emit]

/-- `publishBlock` leaves everything alone but the stored blocks, the block
storage node and the messages. -/
structure SameButBlocks (m m' : Master) : Prop where
  nodeId : m'.nodeId = m.nodeId
  blockProducers : m'.blockProducers = m.blockProducers
  transactions : m'.transactions = m.transactions
  queueOut : m'.queueOut = m.queueOut
  nextBlockNumber : m'.nextBlockNumber = m.nextBlockNumber
  previousHash : m'.previousHash = m.previousHash

theorem publishBlock_same : SameButBlocks m (publishBlock P env m block) := by
  unfold publishBlock
  split
  · dsimp only
    split <;> exact ⟨rfl, rfl, rfl, rfl, rfl, rfl⟩
  · exact ⟨rfl, rfl, rfl, rfl, rfl, rfl⟩

/-- A producer that knows the block storage node sends its block. -/
theorem sentBlocks_publishBlock (hknown : m.blockStorageNode ≠ "") :
    sentBlocks (publishBlock P env m block) =
      sentBlocks m ++ (if isBlockProducer env m then [block] else []) := by
  unfold publishBlock
  rw [getBlockStorageNode_known hknown]
  split
  · rw [if_neg hknown]
    simp [sentBlocks, storeBlock, emit, closedBlock]
  · simp [sentBlocks, storeBlock]

theorem publishBlock_blockStorageNode (hknown : m.blockStorageNode ≠ "") :
    (publishBlock P env m block).blockStorageNode = m.blockStorageNode := by
  unfold publishBlock
  rw [getBlockStorageNode_known hknown]
  split
  · rw [if_neg hknown]
    rfl
  · rfl

/-! ### The whole closing -/

theorem timeToCloseBlock_eq_some (h : timeToCloseBlock P env m = some m') :
    ∃ block m₁, assembleBlock P env m = some (block, m₁) ∧ m' = publishBlock P env m₁ block := by
  rcases Option.bind_eq_some_iff.mp h with ⟨⟨block, m₁⟩, hassemble, hpublish⟩
  dsimp only at hpublish
  split at hpublish
  · cases hpublish
  · exact ⟨block, m₁, hassemble, (Option.some.inj hpublish).symm⟩

/-- A closing of the master `m` that leads to `m'` makes `block`. -/
structure Closes (P : Platform) (env : Env) (m : Master) (block : Block) (m' : Master) : Prop where
  made : MadeOf P env m (due P env m) block
  nodeId : m'.nodeId = m.nodeId
  blockProducers : m'.blockProducers = m.blockProducers
  blockStorageNode : m'.blockStorageNode = m.blockStorageNode
  queueOut : m'.queueOut = notDue P env m
  nextBlockNumber : m'.nextBlockNumber = (block.number + 1) % 2 ^ 64
  previousHash : m'.previousHash = block.hash
  sentBlocks : m'.sentBlocks = m.sentBlocks ++ if isBlockProducer env m then [block] else []

/-- Assembling and publishing a block is a closing, if its storage node is known. -/
theorem closes_publishBlock (hknown : m.blockStorageNode ≠ "")
    (h : assembleBlock P env m = some (block, m₁)) :
    Closes P env m block (publishBlock P env m₁ block) := by
  rcases assembleBlock_advances h with ⟨hadv, hprevious, hnext⟩
  have hsame : SameButBlocks m₁ (publishBlock P env m₁ block) := publishBlock_same
  have hknown₁ : m₁.blockStorageNode ≠ "" := by
    rw [hadv.blockStorageNode]
    exact hknown
  have hproducer : isBlockProducer env m₁ = isBlockProducer env m := by
    simp [isBlockProducer, hadv.nodeId, hadv.blockProducers]
  have hsent : m₁.sentBlocks = m.sentBlocks := hadv.sentBlocks
  constructor
  case made => exact assembleBlock_madeOf h
  case nodeId => exact hsame.nodeId.trans hadv.nodeId
  case blockProducers => exact hsame.blockProducers.trans hadv.blockProducers
  case blockStorageNode => exact (publishBlock_blockStorageNode hknown₁).trans hadv.blockStorageNode
  case queueOut => exact hsame.queueOut.trans hadv.queueOut
  case nextBlockNumber => exact hsame.nextBlockNumber.trans hnext
  case previousHash => exact hsame.previousHash.trans hprevious
  case sentBlocks => rw [sentBlocks_publishBlock hknown₁, hsent, hproducer]

end Master

end DecentralizedCloud
