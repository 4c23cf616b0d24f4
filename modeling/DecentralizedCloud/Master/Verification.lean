import DecentralizedCloud.Common.CommandType
import DecentralizedCloud.Master.State

/-!
# Verification on a master

The functions behind the messages about transactions, in the words of the
source: a client's code packet, the originating master's notification, a
verifier's result, an exception, and the clean-up of old transactions.

An exception of `wsServer.send`, or of the print of a JSON value, leaves the
function that called it. It is written as the early exit it is: what was changed
before stays changed, what would have come after does not happen.
-/

namespace DecentralizedCloud

namespace Master

/-! ## Designated storage nodes -/

/-- The common body of `getStateChangeStorageNode` and `getBlockStorageNode`:
an unknown node is looked up in the DHT, and when the DHT does not know it
either, this master designates one. -/
def designateStorageNode (env : Env) (dhtKey : String) (atLeast index : Nat) (known : String) :
    String × List Effect :=
  if known ≠ "" then (known, [])
  -- too few storage nodes: none is designated
  else if env.nodes.numberOfStorageNodes < atLeast then (known, [])
  else
    let stored := env.dhtGet dhtKey
    if stored ≠ "" then (stored, [])
    else
      let designated := env.nodes.getStorageNodeKey index
      (designated, [.dhtPut dhtKey designated false])

def getStateChangeStorageNode (env : Env) (m : Master) : Master :=
  let (node, effects) :=
    designateStorageNode env "sn_state_change_key" 2 1 m.stateChangeStorageNode
  { m with stateChangeStorageNode := node }.emit effects

def getBlockStorageNode (env : Env) (m : Master) : Master :=
  let (node, effects) := designateStorageNode env "sn_block_close_key" 1 0 m.blockStorageNode
  { m with blockStorageNode := node }.emit effects

/-! ## Block producers -/

/-- `getCurrentBlockProducer`: the index in `blockProducers`, `none` for -1. The
remainder is taken in unsigned arithmetic. -/
def getCurrentBlockProducer (producers : List Voter) (now : Int) : Option Nat :=
  -- a lone producer never sends a block
  if producers.length < 2 then none
  else some ((now.tmod 3600 % 2 ^ 64).toNat % producers.length)

def isBlockProducer (env : Env) (m : Master) : Bool :=
  match getCurrentBlockProducer m.blockProducers env.now with
  | none => false
  | some i => (m.blockProducers[i]?).any fun v => v.publicKey = m.nodeId

/-! ## Replies -/

/-- Print a reply and send it; `none` when one of the two raises. -/
def wsSend (env : Env) (m : Master) (key : String) (reply : Reply) : Option Master :=
  match env.deliver key reply with
  | .sent => some (m.emit [.send key reply])
  | .skipped => some m
  | .raised => none

/-- The warning that a result carries when its state changes cannot be committed. -/
def noStorageWarning : String :=
  "Warning: No storage nodes available to commit the state change update for this transaction. " ++
  "This could be because the storage nodes have disconnected from the network."

/-! ## Requests to verifiers -/

/-- `sendToVerifier`: one verifier, drawn at random, is asked to execute the code. -/
def sendToVerifier (env : Env) (m : Master) (tx : Transaction) : Master × Transaction :=
  if env.nodes.numberOfVerifiers < 1 then (m, tx)
  else
    let verifierKey :=
      env.nodes.getVerifierNodeKey (env.generateRandomNumber 0 env.nodes.numberOfVerifiers)
    let tx := if tx.computeNode then tx.setComputeNodeId verifierKey else tx
    let m := getStateChangeStorageNode env m
    if m.stateChangeStorageNode = "" then (m, tx)
    else
      (m.emit [.gossip verifierKey (.codeDelivery tx.input tx.code tx.txId
        m.stateChangeStorageNode tx.tenantId (if tx.computeNode then "0" else "1"))], tx)

/-! ## The check after every change -/

/-- The last part of `checkVerification`: a transaction enters `queueOut` once. -/
def appendToQueueOut (m : Master) (tx : Transaction) : Master × Transaction :=
  if tx.inBlock then (m, tx)
  else ({ m with queueOut := m.queueOut ++ [tx] }, tx.setInBlock)

/-- The compute node of `tx` may commit its state changes. -/
def sendCanCommit (m : Master) (tx : Transaction) : Master :=
  if m.stateChangeStorageNode ≠ "" then
    m.emit [.gossip tx.computeNodeId (.canCommit tx.txId m.stateChangeStorageNode "")]
  else m

def checkVerification (env : Env) (m : Master) (tx : Transaction) : Master × Transaction :=
  if tx.isVerified then
    if tx.canSend then
      let m := getStateChangeStorageNode env m
      let w := if m.stateChangeStorageNode = "" then some noStorageWarning else none
      match wsSend env m tx.publicKey (.result tx.txId tx.output w) with
      -- the exception leaves `checkVerification` before the flags are set
      | none => (m, tx)
      | some m =>
          let tx := tx.setSentToClient
          appendToQueueOut (sendCanCommit m tx) tx
    else appendToQueueOut m tx
  else (m, tx)

/-! ## The messages -/

/-- The arguments of `processCodePacket`. -/
structure CodePacket where
  utxid : String
  htxid : String
  tenantId : String
  code : String
  inputs : String
  base64signature : String
  base64publicKey : String
deriving DecidableEq, Repr

/-- The text that the client signs. -/
def CodePacket.message (p : CodePacket) : String :=
  "c:" ++ toString CommandType.exeFunction.code ++ "|txid:" ++ p.utxid ++ "|k:" ++
    p.base64publicKey ++ "|tid:" ++ p.tenantId ++ "|h:" ++ p.code ++ "|i:" ++ p.inputs

def notInM21 : String :=
  "Sorry,You are hitting a Master Node that is not in m21; please hit the right one"

/-- The transaction that a code packet asks for. -/
def CodePacket.transaction (p : CodePacket) (txId : String) (now : Int) (nodeId : String) :
    Transaction :=
  { Transaction.ofOrigin txId now with
    masterNodeId := nodeId
    tenantId := p.tenantId
    code := p.code
    signature := p.base64signature
    publicKey := p.base64publicKey
    input := p.inputs }

def processCodePacket (P : Platform) (env : Env) (m : Master) (p : CodePacket) : Master :=
  if !P.verifyEd25519Signature p.message p.base64publicKey p.base64signature then m
  else if !m.subscribedTo21 then
    (wsSend env m p.base64publicKey (.error notInM21 p.htxid)).getD m
  else
    let (transactions, tx) :=
      m.transactions.insert (p.transaction env.guid env.now m.nodeId)
    let m := { m with transactions }
    -- when the notification cannot be printed, the transaction is in the map already
    if !tx.toJson.prints then m
    else
      let m := m.emit [.gossip "master21" (.txNotification p.htxid tx.toJson)]
      let (m, tx) := sendToVerifier env m tx
      m.store tx

/-- `processIncomingTransaction` once the id is read from the JSON value. A
transaction that cannot be filled in completely is kept as far as it goes when
it was there before, and dropped when it is new. -/
def updateTransaction (env : Env) (m : Master) (txId : String) (j : Json) : Master :=
  let known := m.transactions.find txId
  let (tx, complete) := Transaction.fromJson j (known.getD {})
  if complete then
    let (m, tx) := sendToVerifier env (m.store tx) tx
    -- the results may have come first
    let (m, tx) := checkVerification env m tx
    m.store tx
  else if known.isSome then m.store tx
  else m

def processIncomingTransaction (P : Platform) (env : Env) (m : Master) (data : String) : Master :=
  match P.parse data with
  | none => m
  | some j =>
      match j.stringAt "txid" with
      | none => m
      | some txId => updateTransaction env m txId j

def verifyTransaction (env : Env) (m : Master) (txId hash output : String) : Master :=
  let tx := (m.transactions.find txId).getD (Transaction.ofResult txId hash env.now)
  let tx := if output ≠ "" then tx.setOutput output else tx
  let (tx, _) := tx.verifyHash hash
  let (m, tx) := checkVerification env m tx
  m.store tx

/-- The transaction with the exception recorded in it. -/
def excepted (tx : Transaction) (exp : String) : Transaction :=
  ((tx.setOutput "").setFunctionId "").setException exp

/-- The last part of the exception handler: the transaction leaves the map, is
queued by the block producer, and is forwarded to the other masters. -/
def forwardException (env : Env) (m : Master) (tx : Transaction) : Master :=
  let m := if isBlockProducer env m then { m with queueOut := m.queueOut ++ [tx] } else m
  let m := { m with transactions := m.transactions.erase tx.txId }
  m.emit [.gossip "master21" (.exception tx.toJson)]

/-- The exception handler, for a message that names a transaction. -/
def handleException (env : Env) (m : Master) (txId exp : String) : Master :=
  match m.transactions.find txId with
  | none => m
  | some tx =>
      let tx := excepted tx exp
      let replied :=
        if tx.computeNode then wsSend env m tx.publicKey (.exception txId exp) else some m
      match replied with
      -- what was recorded in the transaction stays
      | none => m.store tx
      -- the client has its reply when the print for the other masters raises
      | some m => if tx.toJson.prints then forwardException env m tx else m.store tx

/-- The exception handler, for a transaction forwarded by another master. -/
def handleForwardedException (P : Platform) (env : Env) (m : Master) (txstr : String) : Master :=
  match P.parse txstr with
  | none => m
  | some j =>
      let (tx, complete) := Transaction.fromJson j {}
      if complete && isBlockProducer env m then { m with queueOut := m.queueOut ++ [tx] } else m

def cleanupTransactionsMap (env : Env) (m : Master) : Master :=
  let oldTimestamp := env.now - 60
  { m with transactions := m.transactions.filter fun tx => !decide (oldTimestamp > tx.timestamp) }

end Master

end DecentralizedCloud
