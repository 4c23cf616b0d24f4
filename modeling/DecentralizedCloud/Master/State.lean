import DecentralizedCloud.Master.Transaction

/-!
# The state of a master node

The globals of the master node as one record, what it sends as a list of
effects, and what it asks of its surroundings:

* `Platform`: the libraries whose code is not part of the repository (JSON
  parsing, hashing, signatures) and `std::sort`, with the laws the node relies
  on;
* `NodeLibrary`: the libraries behind the messages between nodes, which read
  and check signed texts;
* `Env`: what the surroundings answer while one event is handled, namely the
  clock, the DHT, the random source, the node registry and the web-socket
  server. A run may use a different `Env` at every event, so the answers need
  not fit together.
-/

namespace DecentralizedCloud

open Utf8

/-! ## Libraries -/

structure Platform where
  /-- `json::parse`; `none` when it raises -/
  parse : String → Option Json
  /-- `InfoHash::get(..).toString()`, a text of 40 digits -/
  infoHash : String → String
  infoHash_ne : ∀ s, infoHash s ≠ ""
  /-- message, key and signature -/
  verifyEd25519Signature : String → String → String → Bool
  /-- message and the id of the signing node -/
  createX509Signature : String → String → String
  /-- `std::sort` by `compareTransactions`: some permutation sorted by timestamp -/
  sort : List Transaction → List Transaction
  sort_perm : ∀ txs, (sort txs).Perm txs
  sort_sorted : ∀ txs, (sort txs).Pairwise fun a b => a.timestamp ≤ b.timestamp

/-- The libraries behind messages between nodes about blocks and votes. -/
structure NodeLibrary where
  base64_decode : String → String
  base64_encodeString : String → String
  /-- `json::dump` -/
  dump : Json → String
  /-- `dht::crypto::PublicKey(blob)` reads the text as a key; it raises otherwise -/
  isPublicKey : String → Bool
  /-- message, signature and key -/
  verifyX509Signature : String → String → String → Bool

/-! ## Blocks and producers -/

structure Block where
  number : Nat
  hash : String
  previousHash : String
  data : Json
  time : Int

/-- `Block::toJSONString` is the text of this object. -/
def Block.toJson (b : Block) : Json :=
  .obj [
    ("data", b.data),
    ("h", .str b.hash),
    ("n", .num b.number),
    ("p", .str b.previousHash),
    ("tm", .num b.time)]

/-- The ids of the transactions in a block's data. -/
def Block.txIds (b : Block) : List String := b.data.elems.filterMap fun j => j.stringAt "txid"

/-- `BlocksMap`: `insert` leaves an existing block alone. -/
abbrev BlocksMap := List (Nat × Block)

def BlocksMap.insert (blocks : BlocksMap) (b : Block) : BlocksMap :=
  if (blocks.lookup b.number).isSome then blocks else blocks ++ [(b.number, b)]

structure Voter where
  signature : String
  publicKey : String
  number : Nat
  valid : Bool
deriving DecidableEq, Repr

/-! ## What a master sends -/

/-- A message to a client. A result and an exception have the same JSON form. -/
inductive Reply where
  /-- `txid`, `data` and the warning `w` -/
  | result (txid data : String) (w : Option String)
  /-- `txid` and `data` of the exception handler -/
  | exception (txid data : String)
  /-- `error` and `txid` -/
  | error (error txid : String)
  /-- `type` "ack", `id` and `txid` -/
  | ack (id txid : String)
deriving DecidableEq, Repr

/-- A message to other nodes: its command and its fields. -/
inductive Message where
  | txNotification (utxid : String) (tx : Json)
  | codeDelivery (i co txid s tid com : String)
  | canCommit (txid sid tid : String)
  | exception (tx : Json)
  | closeBlock (b : Block) (si key : String)

/-- The JSON form of a reply can be printed. -/
def Reply.prints : Reply → Bool
  | .result txid data w => isUtf8 txid && isUtf8 data && w.all isUtf8
  | .exception txid data => isUtf8 txid && isUtf8 data
  | .error text txid => isUtf8 text && isUtf8 txid
  | .ack id txid => isUtf8 id && isUtf8 txid

inductive Effect where
  /-- `wsServer.send` -/
  | send (key : String) (reply : Reply)
  | gossip (channel : String) (message : Message)
  | dhtPut (key value : String) (permanent : Bool)

/-- The effect only reaches the DHT. -/
def Effect.IsPut : Effect → Prop
  | .dhtPut _ _ _ => True
  | _ => False

/-! ## The surroundings -/

/-- Verifiers and storage nodes as the registry has them: the size of the node
map and the list of keys. -/
structure NodeRegistry where
  numberOfVerifiers : Nat
  verifierKeys : List String
  numberOfStorageNodes : Nat
  storageKeys : List String

/-- `getVerifierNodeKey`; reading past the end of the list is undefined in the source. -/
def NodeRegistry.getVerifierNodeKey (r : NodeRegistry) (n : Nat) : String :=
  r.verifierKeys.getD n ""

def NodeRegistry.getStorageNodeKey (r : NodeRegistry) (n : Nat) : String :=
  r.storageKeys.getD n ""

/-- A registered connection: its socket is still usable or not. -/
inductive ConnectionData where
  | usable
  | expired
deriving DecidableEq

structure WebSocketServer where
  running : Bool
  connections : String → Option ConnectionData

/-- What becomes of a text given to `WebSocketServer::send`. -/
inductive Delivery where
  | sent
  /-- the server does not run, nothing happens -/
  | skipped
  /-- the key has no connection, the socket is gone, or there is no text -/
  | raised
deriving DecidableEq

def WebSocketServer.send (ws : WebSocketServer) (key : String) : Delivery :=
  if ws.running then
    match ws.connections key with
    | some .usable => .sent
    | some .expired => .raised
    | none => .raised
  else .skipped

structure Env where
  /-- `currentTimestamp` -/
  now : Int
  /-- `dhtGet`: a missing value reads as the empty string -/
  dhtGet : String → String
  /-- `getGUID(32)` -/
  guid : String
  /-- the draw behind `generateRandomNumber` -/
  draw : Nat
  nodes : NodeRegistry
  wsServer : WebSocketServer

/-- `wsServer.send(key, j.dump())`: the reply is printed first, which may raise. -/
def Env.deliver (env : Env) (key : String) (reply : Reply) : Delivery :=
  if reply.prints then env.wsServer.send key else .raised

/-- `generateRandomNumber(a, b)`: between `a` and `b - 1`. -/
def Env.generateRandomNumber (env : Env) (a b : Nat) : Nat := a + env.draw % (b - a)

/-! ## The transactions map -/

/-- `TransactionsMap`: every transaction is stored under its own id. -/
structure TransactionsMap where
  find : String → Option Transaction
  find_txId : ∀ {id tx}, find id = some tx → tx.txId = id

namespace TransactionsMap

def empty : TransactionsMap where
  find := fun _ => none
  find_txId := by simp

/-- Store a transaction under its id, over one that is already there. -/
def set (m : TransactionsMap) (tx : Transaction) : TransactionsMap where
  find := fun id => if id = tx.txId then some tx else m.find id
  find_txId := by
    intro id t h
    split at h
    case isTrue hid =>
        cases h
        exact hid.symm
    case isFalse => exact m.find_txId h

def erase (m : TransactionsMap) (id : String) : TransactionsMap where
  find := fun id' => if id' = id then none else m.find id'
  find_txId := by
    intro id' t h
    split at h
    case isTrue => cases h
    case isFalse => exact m.find_txId h

def filter (m : TransactionsMap) (p : Transaction → Bool) : TransactionsMap where
  find := fun id => (m.find id).filter p
  find_txId := by
    intro id t h
    exact m.find_txId (Option.filter_eq_some_iff.mp h).1

/-- `insert`: a transaction that is already there stays. Returns the one stored. -/
def insert (m : TransactionsMap) (tx : Transaction) : TransactionsMap × Transaction :=
  match m.find tx.txId with
  | some old => (m, old)
  | none => (m.set tx, tx)

@[simp] theorem find_empty (id : String) : empty.find id = none := rfl

@[simp] theorem find_set_self (m : TransactionsMap) (tx : Transaction) :
    (m.set tx).find tx.txId = some tx := by
  simp [set]

theorem find_set_ne (m : TransactionsMap) {tx : Transaction} {id : String} (h : id ≠ tx.txId) :
    (m.set tx).find id = m.find id := by
  simp [set, h]

@[simp] theorem find_erase_self (m : TransactionsMap) (id : String) :
    (m.erase id).find id = none := by
  simp [erase]

theorem find_erase_ne (m : TransactionsMap) {id id' : String} (h : id' ≠ id) :
    (m.erase id).find id' = m.find id' := by
  simp [erase, h]

theorem insert_snd (m : TransactionsMap) (tx : Transaction) :
    (m.insert tx).2 = (m.find tx.txId).getD tx := by
  unfold insert
  split <;> simp_all

theorem insert_snd_txId (m : TransactionsMap) (tx : Transaction) :
    (m.insert tx).2.txId = tx.txId := by
  rw [insert_snd]
  cases hfind : m.find tx.txId with
  | none => rfl
  | some old => exact m.find_txId hfind

theorem find_insert_self (m : TransactionsMap) (tx : Transaction) :
    (m.insert tx).1.find (m.insert tx).2.txId = some (m.insert tx).2 := by
  rw [insert_snd_txId]
  unfold insert
  split
  · assumption
  · exact find_set_self m tx

theorem find_insert_ne (m : TransactionsMap) {tx : Transaction} {id : String} (h : id ≠ tx.txId) :
    (m.insert tx).1.find id = m.find id := by
  unfold insert
  split
  · rfl
  · exact find_set_ne m h

end TransactionsMap

/-! ## The globals -/

structure Master where
  /-- `dhtNode.getId().toString()` -/
  nodeId : String
  base64encodedKey : String
  subscribedTo21 : Bool
  blockProducers : List Voter
  transactions : TransactionsMap
  queueOut : List Transaction
  blocks : BlocksMap
  blockStorageNode : String
  stateChangeStorageNode : String
  /-- `BlockUtil::nextBlockNumber`, 0 when it has not been fetched -/
  nextBlockNumber : Nat
  /-- `BlockUtil::previousHash`, empty when it has not been fetched -/
  previousHash : String
  /-- everything sent so far -/
  sent : List Effect

namespace Master

/-- Record effects. -/
def emit (m : Master) (effects : List Effect) : Master := { m with sent := m.sent ++ effects }

/-- Store a transaction. -/
def store (m : Master) (tx : Transaction) : Master :=
  { m with transactions := m.transactions.set tx }

@[simp] theorem emit_transactions (m : Master) (effects : List Effect) :
    (m.emit effects).transactions = m.transactions := rfl

@[simp] theorem emit_queueOut (m : Master) (effects : List Effect) :
    (m.emit effects).queueOut = m.queueOut := rfl

@[simp] theorem emit_sent (m : Master) (effects : List Effect) :
    (m.emit effects).sent = m.sent ++ effects := rfl

@[simp] theorem emit_stateChangeStorageNode (m : Master) (effects : List Effect) :
    (m.emit effects).stateChangeStorageNode = m.stateChangeStorageNode := rfl

@[simp] theorem store_transactions (m : Master) (tx : Transaction) :
    (m.store tx).transactions = m.transactions.set tx := rfl

@[simp] theorem store_queueOut (m : Master) (tx : Transaction) :
    (m.store tx).queueOut = m.queueOut := rfl

@[simp] theorem store_sent (m : Master) (tx : Transaction) : (m.store tx).sent = m.sent := rfl

@[simp] theorem store_stateChangeStorageNode (m : Master) (tx : Transaction) :
    (m.store tx).stateChangeStorageNode = m.stateChangeStorageNode := rfl

end Master

end DecentralizedCloud
