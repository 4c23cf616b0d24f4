import DecentralizedCloud.Common.Json
import DecentralizedCloud.Common.Message
import DecentralizedCloud.Storage.StateChangeQueues

/-!
# The commands of a script

A function that a compute node runs calls `execute` to change or to read documents.
`execute` collects state changes in the text `stateChangeCmds`, which the node gossips
to its storage node once the transaction may be committed, and hands the text of a
query to `fetchDocument`. The storage node takes both apart again.

The first half of `execute` reads its arguments (`read`), the second one builds texts
from what has been read (`Call.execute`).
-/

namespace DecentralizedCloud.Compute

open Storage StateQueue

/-! ## Arguments -/

/-- JavaScript and its libraries. -/
structure Engine where
  /-- `JSON.parse`; `none` stands for an exception -/
  parse : String → Option Json
  /-- `JSON.stringify`, whose argument may be undefined -/
  stringify : Option Json → String
  /-- a value in the concatenation of texts -/
  text : Json → String
  text_str : ∀ s, text (.str s) = s
  /-- the names in front of a colon in lower case -/
  lowerNames : String → String
  /-- base64 -/
  encode : String → String

/-- An entry of a row filter. -/
structure FilterEntry where
  logicaloperator : Option String := none
  expressionbegin : Option String := none
  attributeName : Option String := none
  operator : Option String := none
  value : Option String := none
  expressionend : Option String := none
deriving DecidableEq, Repr

/-- What a call of `execute` has read from its arguments. -/
structure Call where
  httpMethod : String
  entityType : String
  templateId : String
  jsonStr : String := ""
  rowset : String := ""
  rowfilter : List FilterEntry := []
deriving DecidableEq, Repr

variable (E : Engine)

/-- `in` raises for a value that is no object. -/
def readEntry : Json → Option FilterEntry
  | .obj members => some
      { logicaloperator := (members.lookup "logicaloperator").map E.text
        expressionbegin := (members.lookup "expressionbegin").map E.text
        attributeName := (members.lookup "attribute").map E.text
        operator := (members.lookup "operator").map E.text
        value := (members.lookup "value").map E.text
        expressionend := (members.lookup "expressionend").map E.text }
  | .arr _ => some {}
  | .null | .bool _ | .num _ | .str _ => none

/-- `rowset[0]` -/
def firstRow : Json → Option Json
  | .arr rows => rows.head?
  | .obj members => members.lookup "0"
  | .str s => s.toList.head?.map fun c => .str (String.ofList [c])
  | .null | .bool _ | .num _ => none

/-- What `Object.keys` lists, with the values; it raises for `null`. -/
def properties : Json → Option (List (String × Json))
  | .obj members => some members
  | .arr xs => some (xs.zipIdx.map fun (x, i) => (toString i, x))
  | .str s => some (s.toList.zipIdx.map fun (c, i) => (toString i, .str (String.ofList [c])))
  | .bool _ | .num _ => some []
  | .null => none

/-- The entries of a row filter. Without a length there are none, and a missing filter
raises. -/
def readFilter : Option Json → Option (List FilterEntry)
  | some (.arr entries) => entries.mapM (readEntry E)
  | some (.bool _) | some (.num _) => some []
  | some (.str s) => if s = "" then some [] else none
  | some (.obj members) => if (members.lookup "length").isNone then some [] else none
  | none | some .null => none

def read (jsonStr templateId entityType httpMethod : String) : Option Call := do
  let jsonStr := E.lowerNames jsonStr
  let httpMethod := httpMethod.toUpper
  let jsonObj ← E.parse jsonStr
  let collectionsObj ← properties (← jsonObj.get? "collections")
  let collectionName := ((collectionsObj.map (·.1)).find? (· ≠ "rowfilter")).getD ""
  let collectionsObj ←
    match collectionsObj.lookup collectionName with
    -- reading `rowset` raises
    | none | some .null => none
    | some collection => some collection
  let rowsetobj :=
    match collectionsObj.get? "rowset" with
    | none | some .null => some (.str "")
    | some rowset => firstRow rowset
  let rowfilter ←
    if httpMethod = "PUT" ∨ httpMethod = "GET" ∨ httpMethod = "DELETE" then
      readFilter E (collectionsObj.get? "rowfilter")
    else some []
  return { httpMethod, entityType, templateId, jsonStr, rowset := E.stringify rowsetobj, rowfilter }

/-! ## Texts -/

/-- A logical operator in the syntax of the storage nodes. -/
def logicSymbol (logicalOperator : String) : String :=
  if logicalOperator = "&&" then "&" else if logicalOperator = "||" then "|" else logicalOperator

/-- A comparison in the syntax of the storage nodes. -/
def operatorSymbol (operator : String) : String :=
  if operator = "==" then "=" else if operator = "!=" then "<>" else operator

def inQuotes (s : String) : String := "\"" ++ s ++ "\""

def FilterEntry.expr (current : FilterEntry) : String :=
  (current.logicaloperator.map logicSymbol).getD "" ++ current.expressionbegin.getD "" ++
    (current.attributeName.map inQuotes).getD "" ++ (current.operator.map operatorSymbol).getD "" ++
    (current.value.map inQuotes).getD "" ++ current.expressionend.getD ""

/-- The expression of a row filter. -/
def exprOf (rowFilterObj : List FilterEntry) : String :=
  rowFilterObj.foldl (fun expr current => expr ++ current.expr) ""

/-- The new `stateChangeCmds`, and what a GET hands to `fetchDocument`. -/
def Call.execute (c : Call) (tenantid stateChangeCmds : String) : String × Option String :=
  let expr := exprOf c.rowfilter
  if c.httpMethod = "POST" then
    -- a later call replaces what has been collected
    let start := if stateChangeCmds = "" then "c:6|tid:" ++ tenantid ++ "|cmds:" else ",cmds:"
    if c.entityType = "template" then (start ++ "1 " ++ E.encode c.jsonStr, none)
    else (start ++ "2 " ++ c.templateId ++ " " ++ E.encode c.rowset, none)
  else if c.httpMethod = "PUT" then
    let start :=
      if stateChangeCmds = "" then "c:6|tid:" ++ tenantid ++ "|cmds:"
      else stateChangeCmds ++ ",cmds:"
    (start ++ "5 " ++ c.templateId ++ " " ++ expr ++ " " ++ E.encode c.rowset, none)
  else if c.httpMethod = "DELETE" then
    let start :=
      if stateChangeCmds = "" then "c:6|tid:" ++ tenantid ++ "|cmds:"
      else stateChangeCmds ++ ",cmds:"
    (start ++ "8 " ++ c.templateId ++ " " ++ expr, none)
  else if c.httpMethod = "GET" then
    (stateChangeCmds,
      some ("c:12|tid:" ++ tenantid ++ "|id:" ++ c.templateId ++ "|expression:" ++ expr))
  else (stateChangeCmds, none)

/-- `none` stands for an exception. -/
def execute (tenantid stateChangeCmds jsonStr templateId entityType httpMethod : String)
    (isAPICall : Bool) : Option (String × Option String) :=
  if isAPICall then some (stateChangeCmds, none)
  else (read E jsonStr templateId entityType httpMethod).map fun c =>
    c.execute E tenantid stateChangeCmds

/-- What a script hands to `execute`. -/
structure Arguments where
  jsonStr : String
  templateId : String
  entityType : String
  httpMethod : String
deriving DecidableEq, Repr

def Arguments.read (args : Arguments) : Option Call :=
  Compute.read E args.jsonStr args.templateId args.entityType args.httpMethod

/-- `stateChangeCmds` after the calls of one run. -/
def stateChangeCmdsOf (tenantid : String) (calls : List Arguments) : Option String :=
  calls.foldlM (fun stateChangeCmds args =>
    (execute E tenantid stateChangeCmds args.jsonStr args.templateId args.entityType
      args.httpMethod false).map (·.1)) ""

/-- `stateChangeCmds` after calls that have read their arguments. -/
def commandsOf (tenantid : String) (calls : List Call) : String :=
  calls.foldl (fun stateChangeCmds c => (c.execute E tenantid stateChangeCmds).1) ""

/-- A run reads all arguments and collects the texts of its calls. -/
theorem stateChangeCmdsOf_eq (tenantid : String) (calls : List Arguments) :
    stateChangeCmdsOf E tenantid calls =
      (calls.mapM (Arguments.read E)).map (commandsOf E tenantid) := by
  have hfold : ∀ (calls : List Arguments) (stateChangeCmds : String),
      calls.foldlM (fun stateChangeCmds args =>
          (execute E tenantid stateChangeCmds args.jsonStr args.templateId args.entityType
            args.httpMethod false).map (·.1)) stateChangeCmds =
        (calls.mapM (Arguments.read E)).map fun calls =>
          calls.foldl (fun stateChangeCmds c => (c.execute E tenantid stateChangeCmds).1)
            stateChangeCmds := by
    intro calls
    -- the induction is on the calls, for any text that was collected before
    induction calls with
    | nil => exact fun _ => rfl
    | cons args calls ih =>
        intro stateChangeCmds
        rw [List.foldlM_cons, List.mapM_cons]
        have hexecute : (execute E tenantid stateChangeCmds args.jsonStr args.templateId
              args.entityType args.httpMethod false).map (·.1) =
            (args.read E).map fun c => (c.execute E tenantid stateChangeCmds).1 := by
          simp only [execute, Bool.false_eq_true, if_false, Option.map_map]
          rfl
        rw [hexecute]
        cases args.read E with
        | none => rfl
        | some c =>
            simp only [Option.map_some, Option.bind_eq_bind, Option.bind_some, ih]
            cases calls.mapM (Arguments.read E) <;> rfl
  exact hfold calls ""

/-! ## Messages -/

/-- The text that `processStateChangeCmds` gossips, if there is a command. -/
def processStateChangeCmds (transactionId stateChangeCmds : String) : Option String :=
  if cString stateChangeCmds = "" then none
  else some ("txid:" ++ transactionId ++ "|" ++ cString stateChangeCmds)

/-- The text that `fetchDocument` gossips. -/
def fetchDocument (txid input : String) : String := "txid:" ++ txid ++ "|" ++ cString input

/-- The fields of a gossiped message, for the handler with a number. -/
def processIncomingData (handler : CommandType) (data : String) : Option FieldValueMap := do
  let theFields ← getFieldsAndValues data
  let theFields := FieldValueMap.insert theFields "ws" "0"
  let c ← theFields.at? "c"
  if CommandType.ofCode (atoi c) = some handler then some theFields else none

/-- The commands that a storage node queues once a run that has ended with the text
`stateChangeCmds` is committed. -/
def delivered (e : Envelope) (transactionId stateChangeCmds : String) : List CommandInfo :=
  match processStateChangeCmds transactionId stateChangeCmds with
  | none => []
  | some msg => ((processIncomingData .stateChange (gossiped e msg)).map onStateChange).getD []

/-- The words of the command that a call asks for. -/
def Call.words (c : Call) : List String :=
  if c.httpMethod = "POST" then
    if c.entityType = "template" then ["1", E.encode c.jsonStr]
    else ["2", c.templateId, E.encode c.rowset]
  else if c.httpMethod = "PUT" then ["5", c.templateId, exprOf c.rowfilter, E.encode c.rowset]
  else ["8", c.templateId, exprOf c.rowfilter]

/-! ## Received messages -/

section Received

variable {e : Envelope} {cs : List Char} {handler : CommandType}

/-- A message with a piece that is no field is lost. -/
theorem processIncomingData_of_pairsOf_eq_none (he : e.IsPlain) (hnull : '\x00' ∉ cs)
    (h : pairsOf cs = none) :
    processIncomingData handler (gossiped e (String.ofList cs)) = none := by
  rw [processIncomingData, getFieldsAndValues_eq, pairs_gossiped he hnull, h]
  rfl

/-- The fields that a handler gets. -/
theorem processIncomingData_eq_some (he : e.IsPlain) (hnull : '\x00' ∉ cs)
    {pairs : List (String × String)} (h : pairsOf cs = some pairs) {c : String}
    (hc : pairs.lookup "c" = some c) (hcode : CommandType.ofCode (atoi c) = some handler) :
    ∃ f, processIncomingData handler (gossiped e (String.ofList cs)) = some f ∧
      ∀ name, f.at? name =
        ((pairs.lookup name).or (e.fields.lookup name)).or
          (if name = "ws" then some "0" else none) := by
  have hpairs := pairs_gossiped he hnull
  rw [h, Option.map_some] at hpairs
  rcases at?_getFieldsAndValues hpairs with ⟨f, hf, hat⟩
  have hat' : ∀ name, (FieldValueMap.insert f "ws" "0").at? name =
      ((pairs.lookup name).or (e.fields.lookup name)).or
        (if name = "ws" then some "0" else none) := by
    intro name
    rw [at?_insert, hat, List.lookup_append]
  refine ⟨FieldValueMap.insert f "ws" "0", ?_, hat'⟩
  have hat'' := hat' "c"
  rw [hc, Option.some_or, Option.some_or] at hat''
  simp only [processIncomingData, hf, Option.bind_eq_bind, Option.bind_some, hat'', hcode, if_true]

/-- A message without a number has no handler. -/
theorem processIncomingData_eq_none (he : e.IsPlain) (hnull : '\x00' ∉ cs)
    {pairs : List (String × String)} (h : pairsOf cs = some pairs)
    (hc : pairs.lookup "c" = none) :
    processIncomingData handler (gossiped e (String.ofList cs)) = none := by
  have hpairs := pairs_gossiped he hnull
  rw [h, Option.map_some] at hpairs
  rcases at?_getFieldsAndValues hpairs with ⟨f, hf, hat⟩
  have hat' := hat "c"
  rw [List.lookup_append, hc, e.lookup_fields (by decide)] at hat'
  have hws : (FieldValueMap.insert f "ws" "0").at? "c" = none := by
    rw [FieldValueMap.at?_insert_ne (by decide), hat']
    rfl
  simp only [processIncomingData, hf, Option.bind_eq_bind, Option.bind_some, hws, Option.bind_none]

end Received

end DecentralizedCloud.Compute
