import DecentralizedCloud.Common.Packet
import DecentralizedCloud.Common.Receiving
import DecentralizedCloud.Compute.FunctionLogic

/-!
# A compute node

A compute node is asked by a master to run a function (`codeDelivery`), fetches the
function from a storage node, runs it and reports the result. The first node that a
transaction is given to also reports the output and keeps the state changes that the run
has collected, until the master lets it commit them (`canCommit`).

A run is code of the script engine, which is not part of the repository. It appears as a
`Script`: it ends, or asks for a document and goes on with the answer. Every message is
handled on a thread of its own, so any number of runs may wait for documents while other
messages are handled; each event below is what one thread does between two waits.
-/

namespace DecentralizedCloud.Compute

/-! ## Scripts -/

/-- What `executeScript` returns. -/
structure ScriptResult where
  result : String
  stateChangeCmds : String
deriving DecidableEq

inductive Script where
  /-- the result, or the text of an exception -/
  | done (outcome : Except String ScriptResult)
  /-- `fetchDocument` -/
  | fetch (input : String) (resume : String → Script)

/-- With some answers to what it asks, the script ends so. -/
inductive Script.Ends : Script → Except String ScriptResult → Prop
  | done (outcome : Except String ScriptResult) : Ends (.done outcome) outcome
  | fetch {input : String} {resume : String → Script} {outcome : Except String ScriptResult}
      (answer : String) (h : Ends (resume answer) outcome) : Ends (.fetch input resume) outcome

/-- V8 and the libraries around it. -/
structure Processor where
  json : JsonLibrary
  base64_decode : String → String
  /-- the text of `CommandBuilder.txt` -/
  cmdBuilderScript : String
  /-- compiles the script, runs it, calls the function of the name in it, and reads
  `stateChangeCmds` at the end; the tenant's id is a global of the script -/
  run : (script name tenantid : String) → Script
  /-- the text of the exception for arguments that cannot be declared -/
  refusal : (fundef input : String) → String
  /-- the text of the exception of `stoi` -/
  stoiException : String → String
  /-- `InfoHash::get(..).toString()` -/
  hashCode : String → String

/-- `"function "` is cut off in front, and all from the first parenthesis. -/
def getProcessFunName (script : String) : String :=
  String.ofList ((((script.toList.drop 9).takeWhile (· ≠ '(')).reverse.dropWhile
    isspace).reverse)

def functionEmptyResponse : String := "N/A"

/-- A run without a result still has one. -/
def ScriptResult.orEmpty (r : ScriptResult) : ScriptResult :=
  if r.result = "" ∨ r.result = "undefined" then { r with result := functionEmptyResponse } else r

/-- `f` is applied to the result at the end. -/
def Script.map (f : ScriptResult → ScriptResult) : Script → Script
  | .done outcome => .done (outcome.map f)
  | .fetch input resume => .fetch input fun answer => (resume answer).map f

/-- The script that is run: the function with its arguments declared, and the command builder. -/
def scriptText (V : Processor) (fundef input : String) : Option String :=
  (if input = "" then some fundef else parseScript V.json fundef (V.base64_decode input)).map
    (· ++ V.cmdBuilderScript)

def executeScript (V : Processor) (fundef input tenantid : String) : Script :=
  match scriptText V fundef input with
  | none => .done (.error (V.refusal fundef input))
  | some code => (V.run code (getProcessFunName code) tenantid).map ScriptResult.orEmpty

/-! ## The node -/

structure RequestData where
  reqId : String
  txId : String
  timestamp : String
  input : String
  tenantId : String
  hash : String
  channelId : String
  nodeType : String
  storageNode : String
deriving DecidableEq, Repr

structure TransactionResult where
  txId : String
  timestamp : String
  stateChangeCmds : String
deriving DecidableEq, Repr

/-- A run of `executeJsCode` for a request. -/
structure Execution where
  request : RequestData
  /-- the id under which it waits for a document -/
  txid : String
  resume : String → Script

structure ComputeNode where
  receiver : Receiver
  /-- requests that wait for their function, or whose run has not ended -/
  rds : List (String × RequestData)
  trs : List (String × TransactionResult)
  /-- documents that have arrived -/
  dds : List (String × String)
  running : List Execution
  /-- channels and messages -/
  sent : List (String × Gossip)

/-- What a thread draws and finds: a new UUID, and the request that `rds.begin()` points to. -/
structure Draw where
  uuid : String
  first : Nat
deriving DecidableEq, Repr

/-- `insert`: what is already there stays. -/
def insertNew {α : Type} (m : List (String × α)) (key : String) (a : α) : List (String × α) :=
  if (m.lookup key).isSome then m else m ++ [(key, a)]

def eraseKey {α : Type} (m : List (String × α)) (key : String) : List (String × α) :=
  m.filter fun entry => entry.1 ≠ key

namespace ComputeNode

variable (V : Processor)

def emit (c : ComputeNode) (channel : String) (g : Gossip) : ComputeNode :=
  { c with sent := c.sent ++ [(channel, g)] }

/-- The handler of `codeDelivery`. -/
def processRequest (c : ComputeNode) (d : Draw) (f : FieldValueMap) : ComputeNode :=
  let rq : RequestData := {
    reqId := d.uuid
    txId := f.get "txid"
    timestamp := f.get "tm"
    input := f.get "i"
    tenantId := f.get "tid"
    hash := f.get "co"
    channelId := f.get "k"
    nodeType := f.get "com"
    storageNode := f.get "s" }
  { c with rds := insertNew c.rds d.uuid rq }.emit (f.get "s")
    (.command .fetchFunction [("txid", d.uuid), ("h", f.get "co"), ("tid", f.get "tid")])

/-- The end of a run without an exception. `none` when the type of the node is no number. -/
def report (c : ComputeNode) (rq : RequestData) (r : ScriptResult) : Option ComputeNode :=
  (stoi rq.nodeType).map fun type =>
    let h := V.hashCode r.result
    let c :=
      -- `NodeType::Compute`
      if type = 0 then
        { c with trs := insertNew c.trs rq.txId ⟨rq.txId, rq.timestamp, r.stateChangeCmds⟩ }.emit
          "master21"
          (.command .verificationResult [("txid", rq.txId), ("o", r.result), ("h", h)])
      -- `NodeType::Verifier`
      else if type = 1 then
        c.emit "master21" (.command .verificationResult [("txid", rq.txId), ("h", h)])
      else c
    { c with rds := eraseKey c.rds rq.reqId }

/-- The end of a run: a request whose run has raised stays in `rds`. -/
def finish (c : ComputeNode) (rq : RequestData) : Except String ScriptResult → ComputeNode
  | .ok r =>
      (c.report V rq r).getD
        (c.emit rq.channelId
          (.command .exception [("txid", rq.txId), ("e", V.stoiException rq.nodeType)]))
  | .error e => c.emit rq.channelId (.command .exception [("txid", rq.txId), ("e", e)])

/-- The run goes on to its end or to the next document. The storage node is asked that
the first request names; without a request this is undefined, and `none`. -/
def advance (c : ComputeNode) (d : Draw) (rq : RequestData) : Script → Option ComputeNode
  | .done outcome => some (c.finish V rq outcome)
  | .fetch input resume =>
      (c.rds[d.first % c.rds.length]?).map fun first =>
        let waiting : Execution := ⟨rq, d.uuid, resume⟩
        { c with running := c.running ++ [waiting] }.emit first.2.storageNode
          (.text ("txid:" ++ d.uuid ++ "|" ++ input))

/-- The handler of `fetchFunction`: the answer with the function for a request. -/
def executeJsCode (c : ComputeNode) (d : Draw) (f : FieldValueMap) : Option ComputeNode :=
  match (V.json.parse (f.get "data")).bind fun j => j.stringAt "code" with
  | none => some c
  | some code =>
      match c.rds.lookup (f.get "txid") with
      | none => some c
      | some rq => c.advance V d rq (executeScript V code rq.input rq.tenantId)

/-- The handler of `canCommit`. -/
def processStateChangeCmds (c : ComputeNode) (f : FieldValueMap) : ComputeNode :=
  match c.trs.lookup (f.get "txid") with
  | none => c
  | some tr =>
      if tr.stateChangeCmds = "" then c
      else c.emit (f.get "sid") (.text ("txid:" ++ f.get "txid" ++ "|" ++ tr.stateChangeCmds))

/-- The handler of `fetchDocument`: the answer with a document. -/
def updateDocumentMap (c : ComputeNode) (f : FieldValueMap) : ComputeNode :=
  { c with dds := (f.get "txid", f.get "data") :: eraseKey c.dds (f.get "txid") }

/-- The handler of `stateChange`: the answer of a storage node is passed on. -/
def forwardResponse (c : ComputeNode) (f : FieldValueMap) : ComputeNode :=
  c.emit "master21" (.command .stateChangeResponse
    [("id", f.get "id"), ("txid", f.get "txid"), ("data", f.get "data")])

/-- The registered handlers. -/
def dataHandler (c : ComputeNode) (d : Draw) (cmd : CommandType) (f : FieldValueMap) :
    Option ComputeNode :=
  match cmd with
  | .codeDelivery => some (c.processRequest d f)
  | .canCommit => some (c.processStateChangeCmds f)
  | .fetchFunction => c.executeJsCode V d f
  | .fetchDocument => some (c.updateDocumentMap f)
  | .stateChange => some (c.forwardResponse f)
  | _ => some c

/-- A packet arrives. What `addNode` does to the registry plays no part on a compute node. -/
def receive (c : ComputeNode) (d : Draw) (q : Packet) : Option ComputeNode :=
  match q.fields with
  | none => some c
  | some f =>
      let (receiver, received) := c.receiver.receiveGossip f
      let c := { c with receiver }
      match received with
      | .dropped | .connection _ _ _ => some c
      | .handled cmd f => c.dataHandler V d cmd f

/-- A run whose document has arrived goes on; `none` when it has not. -/
def resume (c : ComputeNode) (d : Draw) (i : Nat) : Option ComputeNode :=
  (c.running[i]?).bind fun x =>
    (c.dds.lookup x.txid).bind fun result =>
      { c with dds := eraseKey c.dds x.txid, running := c.running.eraseIdx i }.advance V d
        x.request (x.resume result)

end ComputeNode

/-- The commands that a compute node has a handler for. -/
def handled (cmd : CommandType) : Bool :=
  cmd ∈ [.codeDelivery, .canCommit, .fetchFunction, .fetchDocument, .stateChange]

end DecentralizedCloud.Compute
