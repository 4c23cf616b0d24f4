import DecentralizedCloud.Common.CommandType
import DecentralizedCloud.Common.Fields
import DecentralizedCloud.Common.JsonLibrary
import DecentralizedCloud.Lib.Program
import DecentralizedCloud.Master.State
import DecentralizedCloud.Storage.StateQueue

/-!
# The state-change commands

The nine commands of a storage node as programs over the DHT, in the words of
the source. Each `dhtGet`, each `dhtPut` and each request to IPFS is one atomic
step. An exception ends the command: `executeStateChangeCommand` swallows it,
and what was put before stays.

IPFS finds an object under the hash of its contents, so its answers are
functions of the arguments (`Services`), and so is the search for documents
below an entity root, which reads nothing but objects.
-/

namespace DecentralizedCloud.Storage

open Schedule Utf8
open StateQueue (CommandInfo)

/-! ## The surroundings -/

/-- Libraries and services; `none` stands for an exception. -/
structure Services where
  /-- `json::parse` -/
  parse : String → Option Json
  dump : Json → String
  base64_decode : String → String
  /-- the order in which a loop walks through an `unordered_map` -/
  iteration : FieldValueMap → List (String × String)
  /-- data and links of the new object -/
  objectPut : String → List (String × String) → Option String
  objectLinks : String → Option (List (String × String))
  objectData : String → Option String
  /-- object, name of the link and its target -/
  objectPatchAddLink : String → String → String → Option String
  objectPatchRmLink : String → String → Option String
  /-- the documents below an entity root that satisfy an expression -/
  evaluate : String → String → Option Json

/-- An answer to a client over its web socket, or to a node. -/
inductive Response where
  | client (channelId : String) (j : Json)
  | node (channelId : String) (cmd : CommandType) (txid id data : String)

/-- `dump()` of an answer of the search, which may have a text of the expression in it: it
raises on what is not UTF-8. All else that is dumped has been parsed, and can be printed. -/
def Services.dumped (S : Services) (j : Json) : Option String :=
  if j.prints then some (S.dump j) else none

/-- A generated id. -/
structure Guid where
  text : String
  utf8 : isUtf8 text = true

instance : Coe Guid String := ⟨Guid.text⟩

/-- What a command meets while it runs: the id it generates, and what becomes of
its answers. -/
structure CommandEnv where
  guid : Guid
  delivery : Response → Delivery

abbrev Cmd := Prog String String Response

def dhtGet (key : String) : Cmd String := .get key .ret

def dhtPut (key value : String) : Cmd Unit := .put key value (.ret ())

/-- A request to IPFS. -/
def request {α : Type} (answer : Option α) : Cmd α :=
  .call (match answer with
    | some a => .ret a
    | none => .raise)

/-- A value that may have raised. -/
def orRaise {α : Type} : Option α → Cmd α
  | some a => .ret a
  | none => .raise

variable (S : Services) (x : CommandEnv)

/-! ## Keys of the DHT -/

def functionTree : String := "function"
def dataTree : String := "data"
def templateTree : String := "template"
def transactionTree : String := "tx"

def treeOf (tree tid : String) : String := tree ++ "_" ++ tid

def objectKey (tree tid objectId : String) : String := tree ++ "_" ++ tid ++ "_" ++ objectId

def documentKey (tid entityId documentId : String) : String :=
  dataTree ++ "_" ++ tid ++ "_" ++ entityId ++ "_" ++ documentId

def rootKey (tree : String) : String := "." ++ tree

def dataRootKey (tid entityId : String) : String := rootKey (objectKey dataTree tid entityId)

def transactionKey (hash : String) : String := transactionTree ++ "_" ++ hash

/-! ## Messages -/

def msgTemplateNotFound : String := "No Entity found for the given Id"
def msgFunctionNotFound : String := "No function found for the given Id"
def msgDocumentRootNotFound : String := "No Entity found for the given document to operate"
def msgDocumentNotFound : String := "No document found for the given id"
def msgDocumentUpdate : String := "Documents are updated successfully"
def msgDocumentDelete : String := "Documents are deleted successfully"
def msgInvalidObjectId : String := "Invalid Object Id"
def msgInvalidDocumentStructure : String :=
  "Issue while parsing document body. Please ensure to pass the document in proper json format"

def send (source channelId : String) (cmd : CommandType) (txid objectId val : String) :
    Cmd Unit :=
  if source = "1" then
    let response := Response.client channelId (.obj
      ([(if cmd = .exception then "error" else "data", .str val)] ++
        (if objectId = "" then [] else [("id", .str objectId)]) ++ [("txid", .str txid)]))
    match x.delivery response with
    | .sent => .emit response (.ret ())
    | .skipped => .ret ()
    | .raised => .raise
  else .emit (.node channelId cmd txid objectId val) (.ret ())

/-! ## Objects -/

/-- An exception is logged, and the hash is then the empty string. -/
def addObject (data : String) : Cmd String := request (some ((S.objectPut data []).getD ""))

def addObjectAndLink (data child link : String) : Cmd String :=
  request (S.objectPut data [(link, child)])

def fetchObject (hash : String) : Cmd String := request (some ((S.objectData hash).getD ""))

/-- The links of an object as a map from names to hashes. -/
def getUnorderedEdgeNamesOf (nodeHash : String) : Cmd FieldValueMap :=
  request (some (((S.objectLinks nodeHash).getD []).foldl
    (fun names link => FieldValueMap.insert names link.1 link.2) []))

/-- The members of the new object are set on the old one; an empty array has none. -/
def updateValues (oldObject newObject : String) : Option String := do
  let oldObj ← S.parse oldObject
  let members ← match ← S.parse newObject with
    | .obj members => some members
    | .null | .arr [] => some []
    | .bool _ | .num _ | .str _ | .arr (_ :: _) => none
  let merged ← members.foldlM (fun j kv => j.setMember kv.1 kv.2) oldObj
  return S.dump merged

/-! ## Functions and templates -/

def linkToRoot (tree objectId objectHash txid : String) : Cmd Unit := do
  (if txid = "" then pure () else dhtPut (transactionKey objectHash) txid)
  -- between this read and the put below the root may change
  let rootHash ← dhtGet (rootKey tree)
  let rootHash ← (if rootHash = "" then addObjectAndLink S tree objectHash objectId
    else request (S.objectPatchAddLink rootHash objectId objectHash))
  dhtPut (rootKey tree) rootHash

def unLinkToRoot (tree txid rootHash objectId : String) : Cmd Unit := do
  let newRootHash ← request (S.objectPatchRmLink rootHash objectId)
  dhtPut (transactionKey rootHash) txid
  dhtPut (rootKey tree) newRootHash

/-- The root of the documents of a new template: a unique index "id". -/
def addDataRoot (tid objectId : String) : Cmd Unit := do
  let dataRootHash ← addObject S (dataRootKey tid objectId)
  let hashB ← addObject S "id"
  let hashC ← addObject S "collection"
  let b_c ← request (S.objectPatchAddLink hashB "__" hashC)
  let newDataRootHash ← request (S.objectPatchAddLink dataRootHash "id" b_c)
  dhtPut (dataRootKey tid objectId) newDataRootHash

def addChildNode (source channelId txid tid tree object : String) : Cmd Unit := do
  let objectHash ← addObject S object
  let objectId := x.guid
  dhtPut (objectKey tree tid objectId) objectHash
  send x source channelId .stateChange txid objectId objectHash
  linkToRoot S (treeOf tree tid) objectId objectHash txid
  if tree = templateTree then addDataRoot S tid objectId

def updateChildNode (source tree channelId txid tid objectId object : String) : Cmd Unit := do
  let rootHash ← dhtGet (rootKey (treeOf tree tid))
  if rootHash = "" then send x source channelId .exception txid objectId msgInvalidObjectId
  else
    let map ← getUnorderedEdgeNamesOf S rootHash
    let existingObjectHash ← orRaise (map.at? objectId)
    if existingObjectHash = "" then
      send x source channelId .exception txid objectId msgInvalidObjectId
    else
      let oldObject ← fetchObject S existingObjectHash
      let updatedObject ← orRaise (updateValues S oldObject object)
      let objectHash ← addObject S updatedObject
      dhtPut (objectKey tree tid objectId) objectHash
      send x source channelId .stateChange txid objectId objectHash
      linkToRoot S (treeOf tree tid) objectId objectHash txid

def deleteObject (source tree channelId txid tid objectId : String) : Cmd Unit := do
  -- the entry is emptied, and the client told, before the link is removed
  dhtPut (objectKey tree tid objectId) ""
  send x source channelId .stateChange txid objectId "deleted successfully"
  let rootHash ← dhtGet (rootKey (treeOf tree tid))
  unLinkToRoot S (treeOf tree tid) txid rootHash objectId
  if tree = templateTree then dhtPut (dataRootKey tid objectId) ""

/-- A function by its hash, if one is given, or by its id. -/
def fetchFunction (source channelId txid tid functionId hash : String) : Cmd Unit := do
  if hash ≠ "" then
    let data ← fetchObject S hash
    send x source channelId .fetchFunction txid functionId data
  else
    let val ← dhtGet (objectKey functionTree tid functionId)
    if val = "" then send x source channelId .fetchFunction txid functionId msgFunctionNotFound
    else
      let data ← fetchObject S val
      send x source channelId .fetchFunction txid functionId data

def fetchTemplate (source channelId txid tid templateId : String) : Cmd Unit := do
  let val ← dhtGet (objectKey templateTree tid templateId)
  if val = "" then send x source channelId .fetchTemplate txid templateId msgTemplateNotFound
  else
    let data ← fetchObject S val
    send x source channelId .fetchTemplate txid templateId data

/-! ## Documents -/

inductive DocumentOp where
  | create
  | update
  | delete
deriving DecidableEq, Repr

/-- The index named `index`, which leads to `bNode`, gets the document: the new
entity root. `value` is the document's value of the index. -/
def updateIndex (documentId documentHash : String) (op : DocumentOp)
    (entityRoot index bNode value : String) : Cmd String := do
  let b_c ← getUnorderedEdgeNamesOf S bNode
  -- the edge "__" stands for all values of a unique index
  let found := ((b_c.at? "__").map fun cNode => ("__", cNode)).or
    ((b_c.at? value).map fun cNode => (value, cNode))
  let cNode ← (match found with
    | some (_, cNode) => .ret cNode
    | none => addObject S entityRoot)
  let cNode ← (if op = .create then .ret cNode
    else request (S.objectPatchRmLink cNode documentId))
  let cNode ← (if op = .delete then .ret cNode
    else request (S.objectPatchAddLink cNode documentId documentHash))
  let newBNode ← (match found with
    | some (indexValue, _) => request (S.objectPatchRmLink bNode indexValue) >>= fun newBNode =>
        request (S.objectPatchAddLink newBNode indexValue cNode)
    | none => request (S.objectPatchAddLink bNode value cNode))
  let entityRoot ← request (S.objectPatchRmLink entityRoot index)
  request (S.objectPatchAddLink entityRoot index newBNode)

/-- The loop over the indexes of an entity. -/
def updateIndexes (tid entityId documentId documentHash : String) (op : DocumentOp)
    (inputJson : Json) : String → List (String × String) → Cmd Unit
  | _, [] => .ret ()
  | entityRoot, (index, bNode) :: rest =>
      match inputJson.get? index with
      | none => updateIndexes tid entityId documentId documentHash op inputJson entityRoot rest
      | some (.str value) => do
          let entityRoot ←
            updateIndex S documentId documentHash op entityRoot index bNode value
          dhtPut (dataRootKey tid entityId) entityRoot
          updateIndexes tid entityId documentId documentHash op inputJson entityRoot rest
      | some _ => .raise

/-- A new document under its generated id. A text that cannot be parsed is
reported, and kept as it is. -/
def nameDocument (source channelId txid documentJson : String) : Cmd String :=
  match (S.parse documentJson).bind fun j => j.setMember "id" (.str x.guid) with
  | some j => .ret (S.dump j)
  | none => do
      send x source channelId .exception txid "" msgInvalidDocumentStructure
      return documentJson

def createOrDeleteDocument (source channelId txid tid entityId documentId documentJson : String)
    (op : DocumentOp) : Cmd Unit := do
  let entityRoot ← dhtGet (dataRootKey tid entityId)
  if entityRoot = "" then send x source channelId .exception txid documentId msgTemplateNotFound
  else
    let documentId := if op = .create then x.guid.text else documentId
    let documentJson ← (if op = .create then nameDocument S x source channelId txid documentJson
      else .ret documentJson)
    let documentHash ← (if op = .delete then .ret "" else addObject S documentJson)
    dhtPut (documentKey tid entityId documentId) documentHash
    (if op = .create then send x source channelId .stateChange txid documentId documentHash
      else pure ())
    let a_b ← getUnorderedEdgeNamesOf S entityRoot
    let inputJson ← orRaise (S.parse documentJson)
    updateIndexes S tid entityId documentId documentHash op inputJson entityRoot (S.iteration a_b)

def searchDocument (tid entityId expression : String) : Cmd Json := do
  let hash ← dhtGet (dataRootKey tid entityId)
  if hash = "" then return .str msgTemplateNotFound
  else request (S.evaluate hash expression)

/-- The answer to a query: the documents, or a message. -/
def findDocument (source channelId txid tid entityId expression : String) : Cmd Unit := do
  let docs ← searchDocument S tid entityId expression
  -- the documents are logged first, a message too
  let text ← orRaise (S.dumped docs)
  send x source channelId .fetchDocument txid entityId (match docs with
    | .str message => message
    | .null | .bool _ | .num _ | .arr _ | .obj _ => text)

/-- The text that the command goes on with: that of the document, for an update merged. -/
def changedText (documentJson : String) (op : DocumentOp) (doc : Json) : Option String := do
  let text ← S.dumped doc
  if op = .update then updateValues S text documentJson else some text

/-- The loop over the documents that were found. -/
def eachDocument (source channelId txid tid entityId documentJson : String) (op : DocumentOp) :
    List Json → Cmd Unit
  | [] => .ret ()
  | doc :: docs => do
      let docId ← orRaise (doc.stringAt "id")
      let text ← orRaise (changedText S documentJson op doc)
      createOrDeleteDocument S x source channelId txid tid entityId docId text op
      eachDocument source channelId txid tid entityId documentJson op docs

def updateOrDeleteDocument (source channelId txid tid entityId expression documentJson : String)
    (op : DocumentOp) : Cmd Unit := do
  let entityRoot ← dhtGet (dataRootKey tid entityId)
  if entityRoot = "" then
    send x source channelId .exception txid "" msgDocumentRootNotFound
  else
    -- the root is read again by the search, and once more for every document
    let docs ← searchDocument S tid entityId expression
    if docs.isEmpty then send x source channelId .exception txid "" msgDocumentNotFound
    else
      (match docs with
        | .arr docs => eachDocument S x source channelId txid tid entityId documentJson op docs
        | .null | .bool _ | .num _ | .str _ | .obj _ => .raise)
      send x source channelId .stateChange txid ""
        (if op = .update then msgDocumentUpdate else msgDocumentDelete)

/-! ## Dispatch -/

/-- A word of a command; reading past the end is undefined in the source. -/
def word (command : List String) (i : Nat) : String := command.getD i ""

def executeStateChangeCommand (command : List String) (source channelId txid tid : String) :
    Cmd Unit := do
  let number ← orRaise (stoi (word command 0))
  match Command.ofCode number with
  | some .addFunction =>
      addChildNode S x source channelId txid tid functionTree (S.base64_decode (word command 1))
  | some .addDocument =>
      createOrDeleteDocument S x source channelId txid tid (word command 1) ""
        (S.base64_decode (word command 2)) .create
  | some .addTemplate =>
      addChildNode S x source channelId txid tid templateTree (S.base64_decode (word command 1))
  | some .updateFunction =>
      updateChildNode S x source functionTree channelId txid tid (word command 1)
        (S.base64_decode (word command 2))
  | some .updateTemplate =>
      updateChildNode S x source templateTree channelId txid tid (word command 1)
        (S.base64_decode (word command 2))
  | some .updateDocument =>
      updateOrDeleteDocument S x source channelId txid tid (word command 1) (word command 2)
        (S.base64_decode (word command 3)) .update
  | some .deleteFunction =>
      deleteObject S x source functionTree channelId txid tid (word command 1)
  | some .deleteTemplate =>
      deleteObject S x source templateTree channelId txid tid (word command 1)
  | some .deleteDocument =>
      updateOrDeleteDocument S x source channelId txid tid (word command 1) (word command 2) ""
        .delete
  | none => return

/-- What a worker does with the command on top of its queue. -/
def processCommand (c : CommandInfo) : Cmd Unit := do
  let ws ← orRaise (c.fields.at? "ws")
  let k ← orRaise (c.fields.at? "k")
  let txid ← orRaise (c.fields.at? "txid")
  let tid ← orRaise (c.fields.at? "tid")
  executeStateChangeCommand S x c.command ws k txid tid

/-- The key of the queue that `onStateChange` puts a command into; `none` when it
raises, and no command is queued. -/
def queueKey (c : CommandInfo) : Option String := do
  let tid ← c.fields.at? "tid"
  let commandIndex ← c.command[0]?
  if commandIndex = "2" ∨ commandIndex = "5" ∨ commandIndex = "8" then
    let entityId ← c.command[1]?
    return tid ++ entityId
  else return tid ++ commandIndex

/-- What becomes of a command that `onStateChange` gets: without a key it is dropped. -/
def stateChange (c : CommandInfo) : Cmd Unit :=
  match queueKey c with
  | some _ => processCommand S x c
  | none => .ret ()

end DecentralizedCloud.Storage
