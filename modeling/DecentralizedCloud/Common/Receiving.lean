import DecentralizedCloud.Common.Packet

/-!
# Receiving a message

`processIncomingData` stands between the network and the handlers of every node. It reads
the fields of a payload, drops the node's own gossip, old messages and gossip that it has
seen before, gives a client's request a new id, and adds what the handlers rely on: the
key of the sender, the time, and a flag `ws` that tells web sockets from gossip.

The flag is inserted into the fields of the payload. A payload that has such a field of its
own keeps it, and its sender chooses what the handler sees (`ws_flag_iff`).
-/

namespace DecentralizedCloud

inductive Transport where
  | gossip
  /-- the key of the connection and the time of arrival -/
  | webSocket (key : String) (timestamp : Int)
deriving DecidableEq

/-- The value that `processIncomingData` inserts for `ws`. -/
def Transport.flag : Transport → String
  | gossip => "0"
  | webSocket _ _ => "1"

/-- The sender's key, where a payload does not name it. -/
def Transport.key : Transport → String
  | gossip => ""
  | webSocket key _ => key

/-- A payload on its way to `processIncomingData`. -/
structure Payload where
  data : String
  transport : Transport
  /-- the draw of `getGUID(36)` -/
  guid36 : String

/-- A node as far as `processIncomingData` is concerned. -/
structure Receiver where
  nodeId : String
  appStartupTime : Int
  processedMessages : List String
  /-- `dataHandlers` has a handler of the command -/
  handles : CommandType → Bool

/-- `BlockChainNode::NodeType`, a signed character that a cast can give other values. -/
inductive NodeType where
  | masterNode
  | verifierNode
  | storageNode
  | unnamed (code : Int8)
deriving DecidableEq, Repr

namespace NodeType

def code : NodeType → Int8
  | masterNode => 0
  | verifierNode => 1
  | storageNode => 2
  | unnamed code => code

def ofCode (code : Int8) : NodeType :=
  if code = 0 then masterNode
  else if code = 1 then verifierNode
  else if code = 2 then storageNode
  else unnamed code

end NodeType

/-- What becomes of a payload. -/
inductive Received where
  | dropped
  /-- `addNode` with the key, the address and the type of a node -/
  | connection (nodeKey uri : String) (type : NodeType)
  | handled (cmd : CommandType) (theFields : FieldValueMap)

/-- The time of a message: its `tm` field, or the given time, which then
becomes the field. `none` when the field is no number. -/
def messageTime (timestamp : Int) (f : FieldValueMap) : Option (Int × FieldValueMap) :=
  match f.at? "tm" with
  | some tm => (stoll tm).map fun t => (t, f)
  | none => some (timestamp, f.insert "tm" (toString timestamp))

namespace Receiver

/-- The last part: transport flag, sender's key, and the handler of the command. -/
def dispatch (r : Receiver) (transport : Transport) (theFields : FieldValueMap) : Received :=
  let theFields := theFields.insert "ws" transport.flag
  match theFields.at? "c" with
  | none => .dropped
  | some c =>
      let theFields := theFields.insert "k" transport.key
      match CommandType.ofCode (atoi c) with
      | none => .dropped
      | some .connectionRequest =>
          match theFields.at? "t", theFields.at? "u" with
          | some t, some uri => .connection (theFields.get "k") uri (.ofCode (.ofInt (atoi t)))
          | _, _ => .dropped
      | some cmd => if r.handles cmd then .handled cmd theFields else .dropped

def receiveGossip (r : Receiver) (theFields : FieldValueMap) : Receiver × Received :=
  match theFields.at? "k" with
  | none => (r, .dropped)
  | some k =>
      -- gossip reaches its sender too
      if k = r.nodeId then (r, .dropped)
      else
        match messageTime 0 theFields with
        | none => (r, .dropped)
        | some (timestamp, theFields) =>
            if r.appStartupTime > timestamp then (r, .dropped)
            else
              match theFields.at? "msgid" with
              | none => (r, .dropped)
              | some messageId =>
                  if messageId ∈ r.processedMessages then (r, .dropped)
                  else
                    ({ r with processedMessages := messageId :: r.processedMessages },
                      r.dispatch .gossip theFields)

/-- `infoHash` is `InfoHash::get(..).toString()`, and `acknowledges` says whether the answer
to the client of a key, with the new id and the client's own, goes through; it raises
otherwise. -/
def receiveRequest (infoHash : String → String) (acknowledges : (key id txid : String) → Bool)
    (r : Receiver) (guid36 key : String) (timestamp : Int) (theFields : FieldValueMap) :
    Receiver × Received :=
  match messageTime timestamp theFields with
  | none => (r, .dropped)
  | some (time, theFields) =>
      if r.appStartupTime > time then (r, .dropped)
      else
        let refId := infoHash (key ++ guid36 ++ theFields.get "tm")
        match theFields.at? "txid" with
        | none => (r, .dropped)
        | some txid =>
            -- the client's own id becomes `utxid`
            let theFields := (theFields.set "utxid" txid).set "txid" refId
            if acknowledges key refId txid then (r, r.dispatch (.webSocket key timestamp) theFields)
            else (r, .dropped)

def processIncomingData (infoHash : String → String)
    (acknowledges : (key id txid : String) → Bool) (r : Receiver) (p : Payload) :
    Receiver × Received :=
  match getFieldsAndValues p.data with
  | none => (r, .dropped)
  | some theFields =>
      match p.transport with
      | .gossip => r.receiveGossip theFields
      | .webSocket key timestamp =>
          r.receiveRequest infoHash acknowledges p.guid36 key timestamp theFields

end Receiver

/-! ## The fields of a handler -/

/-- Reading the time of a message leaves its other fields alone. -/
theorem messageTime_at? {timestamp t : Int} {f f' : FieldValueMap} {key : String}
    (h : messageTime timestamp f = some (t, f')) (hkey : key ≠ "tm") : f'.at? key = f.at? key := by
  unfold messageTime at h
  split at h
  · rcases Option.map_eq_some_iff.mp h with ⟨t', -, heq⟩
    cases heq
    rfl
  · cases h
    exact FieldValueMap.at?_insert_ne hkey

namespace Receiver

variable {infoHash : String → String} {acknowledges : (key id txid : String) → Bool} {r : Receiver}
  {cmd : CommandType} {f theFields : FieldValueMap}

/-- A handler sees the flag where the payload has no such field. -/
theorem at?_of_dispatch {transport : Transport}
    (h : r.dispatch transport theFields = .handled cmd f) :
    f.at? "ws" = (theFields.at? "ws").or (some transport.flag) := by
  unfold dispatch at h
  dsimp only at h
  split at h
  case h_1 => cases h
  case h_2 =>
      split at h
      case h_1 => cases h
      case h_2 => split at h <;> cases h
      case h_3 =>
          split at h
          case isTrue =>
              cases h
              rw [FieldValueMap.at?_insert_ne (by decide), at?_insert, if_pos rfl]
          case isFalse => cases h

/-- A `ws` field of the gossip is kept, and `0` otherwise. -/
theorem at?_of_receiveGossip (h : (r.receiveGossip theFields).2 = .handled cmd f) :
    f.at? "ws" = (theFields.at? "ws").or (some "0") := by
  unfold receiveGossip at h
  split at h
  case h_1 => cases h
  case h_2 =>
      split at h
      case isTrue => cases h
      case isFalse =>
          split at h
          case h_1 => cases h
          case h_2 htime =>
              split at h
              case isTrue => cases h
              case isFalse =>
                  split at h
                  case h_1 => cases h
                  case h_2 =>
                      split at h
                      case isTrue => cases h
                      case isFalse =>
                          rw [at?_of_dispatch h, messageTime_at? htime (by decide)]
                          rfl

/-- A `ws` field of the request is kept, and `1` otherwise. -/
theorem at?_of_receiveRequest {guid36 key : String} {timestamp : Int}
    (h : (r.receiveRequest infoHash acknowledges guid36 key timestamp theFields).2 =
      .handled cmd f) : f.at? "ws" = (theFields.at? "ws").or (some "1") := by
  unfold receiveRequest at h
  split at h
  case h_1 => cases h
  case h_2 htime =>
      split at h
      case isTrue => cases h
      case isFalse =>
          dsimp only at h
          split at h
          case h_1 => cases h
          case h_2 =>
              split at h
              case isTrue =>
                  rw [at?_of_dispatch h, FieldValueMap.at?_set_ne (by decide),
                    FieldValueMap.at?_set_ne (by decide), messageTime_at? htime (by decide)]
                  rfl
              case isFalse => cases h

/-- The `ws` field of a handler is the one of the payload, or the flag of the transport. -/
theorem at?_of_handled {p : Payload}
    (h : (r.processIncomingData infoHash acknowledges p).2 = .handled cmd f) :
    ∃ theFields, getFieldsAndValues p.data = some theFields ∧
      f.at? "ws" = (theFields.at? "ws").or (some p.transport.flag) := by
  unfold processIncomingData at h
  split at h
  case h_1 => cases h
  case h_2 theFields hfields =>
      refine ⟨theFields, hfields, ?_⟩
      cases htransport : p.transport with
      | gossip =>
          rw [htransport] at h
          exact at?_of_receiveGossip h
      | webSocket key timestamp =>
          rw [htransport] at h
          exact at?_of_receiveRequest h

/-- What the last part hands to a handler: the command of the message, and its fields with what
is added. -/
theorem of_dispatch {transport : Transport}
    (h : r.dispatch transport theFields = .handled cmd f) :
    (theFields.at? "c").bind (fun c => CommandType.ofCode (atoi c)) = some cmd ∧
      ∀ name, name ∉ ["ws", "k"] → f.at? name = theFields.at? name := by
  unfold dispatch at h
  dsimp only at h
  rw [FieldValueMap.at?_insert_ne (by decide)] at h
  split at h
  case h_1 => cases h
  case h_2 c hc =>
      split at h
      case h_1 => cases h
      case h_2 => split at h <;> cases h
      case h_3 cmd' _ hcmd =>
          split at h
          case isTrue =>
              cases h
              refine ⟨by rw [hc, Option.bind_some, hcmd], ?_⟩
              intro name hname
              simp only [List.mem_cons, List.not_mem_nil, or_false, not_or] at hname
              rw [FieldValueMap.at?_insert_ne hname.2, FieldValueMap.at?_insert_ne hname.1]
          case isFalse => cases h

/-- Gossip that reaches a handler: it is not the node's own, its message id is new and is noted,
and the handler sees its fields. -/
structure Passes (r : Receiver) (theFields : FieldValueMap) (r' : Receiver) (cmd : CommandType)
    (f : FieldValueMap) : Prop where
  notOwn : ∀ k ∈ theFields.at? "k", k ≠ r.nodeId
  messageId : ∃ messageId, theFields.at? "msgid" = some messageId ∧
    messageId ∉ r.processedMessages ∧
    r' = { r with processedMessages := messageId :: r.processedMessages }
  command : (theFields.at? "c").bind (fun c => CommandType.ofCode (atoi c)) = some cmd
  fields : ∀ name, name ∉ ["tm", "ws", "k"] → f.at? name = theFields.at? name

/-- Gossip that is handled has passed all checks of the receiver. -/
theorem passes_of_receiveGossip (h : (r.receiveGossip theFields).2 = .handled cmd f) :
    Passes r theFields (r.receiveGossip theFields).1 cmd f := by
  unfold receiveGossip at h ⊢
  split at h
  case h_1 => cases h
  case h_2 k hk =>
      split at h
      case isTrue => cases h
      case isFalse hne =>
          split at h
          case h_1 => cases h
          case h_2 t fields htime =>
              split at h
              case isTrue => cases h
              case isFalse hage =>
                  split at h
                  case h_1 => cases h
                  case h_2 messageId hid =>
                      split at h
                      case isTrue => cases h
                      case isFalse hnew =>
                          -- every check was passed
                          rcases of_dispatch h with ⟨hcommand, hfields⟩
                          rw [messageTime_at? htime (by decide)] at hcommand
                          rw [if_neg hne, if_neg hage, if_neg hnew]
                          rw [messageTime_at? htime (by decide)] at hid
                          refine ⟨?_, ⟨messageId, hid, hnew, rfl⟩, hcommand, ?_⟩
                          · intro k' hk'
                            cases hk.symm.trans hk'
                            exact hne
                          · intro name hname
                            simp only [List.mem_cons, List.not_mem_nil, or_false, not_or] at hname
                            rw [hfields name (by simp [hname]), messageTime_at? htime hname.1]

/-- The other way round: a command that is read back, of another node, not too old and with a new
message id, reaches its handler with its own fields. -/
theorem handled_of_readsFields {e : Envelope} {kv : FieldValueMap}
    (hreads : ReadsFields e cmd kv theFields) (hnow : -(2 ^ 63) ≤ e.now ∧ e.now < 2 ^ 63)
    (hown : e.k ≠ r.nodeId) (hage : r.appStartupTime ≤ e.now)
    (hnew : e.msgid ∉ r.processedMessages) (hcmd : cmd ≠ .connectionRequest)
    (hhandles : r.handles cmd = true) :
    ∃ f, r.receiveGossip theFields =
        ({ r with processedMessages := e.msgid :: r.processedMessages }, .handled cmd f) ∧
      ∀ name ∉ ["c", "msgid", "k", "tm", "nonce", "ws"],
        f.at? name = (kv.at? name).map receivedValue := by
  have htime : messageTime 0 theFields = some (e.now, theFields) := by
    rw [messageTime, hreads.tm]
    dsimp only
    rw [stoll_toString hnow]
    rfl
  have hdispatch : r.dispatch .gossip theFields =
      .handled cmd ((theFields.insert "ws" "0").insert "k" "") := by
    have hc : (theFields.insert "ws" Transport.gossip.flag).at? "c" = some (toString cmd.code) := by
      rw [FieldValueMap.at?_insert_ne (by decide), hreads.c]
    rw [dispatch, hc]
    dsimp only
    rw [ofCode_atoi_code]
    cases cmd with
    | connectionRequest => exact absurd rfl hcmd
    | _ => exact if_pos hhandles
  refine ⟨(theFields.insert "ws" "0").insert "k" "", ?_, ?_⟩
  -- the checks, one after the other
  · rw [receiveGossip, hreads.k]
    dsimp only
    rw [if_neg hown, htime]
    dsimp only
    rw [if_neg (by omega), hreads.msgid]
    dsimp only
    rw [if_neg hnew, hdispatch]
  · intro name hname
    simp only [List.mem_cons, List.not_mem_nil, or_false, not_or] at hname
    rw [FieldValueMap.at?_insert_ne hname.2.2.1, FieldValueMap.at?_insert_ne hname.2.2.2.2.2]
    exact hreads.others name (by simp [hname])

/-- A request that reaches the handler of a command asks for it. -/
theorem command_of_receiveRequest {guid36 key : String} {timestamp : Int}
    (h : (r.receiveRequest infoHash acknowledges guid36 key timestamp theFields).2 =
      .handled cmd f) :
    (theFields.at? "c").bind (fun c => CommandType.ofCode (atoi c)) = some cmd := by
  unfold receiveRequest at h
  split at h
  case h_1 => cases h
  case h_2 htime =>
      split at h
      case isTrue => cases h
      case isFalse =>
          dsimp only at h
          split at h
          case h_1 => cases h
          case h_2 =>
              split at h
              case isTrue =>
                  have hcommand := (of_dispatch h).1
                  rw [FieldValueMap.at?_set_ne (by decide), FieldValueMap.at?_set_ne (by decide),
                    messageTime_at? htime (by decide)] at hcommand
                  exact hcommand
              case isFalse => cases h

theorem receiveRequest_fst (guid36 key : String) (timestamp : Int) :
    (r.receiveRequest infoHash acknowledges guid36 key timestamp theFields).1 = r := by
  unfold receiveRequest
  split
  · rfl
  · split
    · rfl
    · dsimp only
      split
      · rfl
      · split <;> rfl

/-- A node keeps its name, and the message ids that it has noted. -/
structure Keeps (r r' : Receiver) : Prop where
  nodeId : r'.nodeId = r.nodeId
  processedMessages : r.processedMessages ⊆ r'.processedMessages

theorem Keeps.refl (r : Receiver) : Keeps r r := ⟨rfl, fun _ => id⟩

theorem Passes.keeps {r' : Receiver} (h : Passes r theFields r' cmd f) : Keeps r r' := by
  rcases h.messageId with ⟨messageId, -, -, rfl⟩
  exact ⟨rfl, List.subset_cons_self _ _⟩

/-- The receiver keeps the messages that it knows. -/
theorem receiveGossip_keeps (r : Receiver) (theFields : FieldValueMap) :
    Keeps r (r.receiveGossip theFields).1 := by
  unfold receiveGossip
  split
  case h_1 => exact ⟨rfl, fun _ => id⟩
  case h_2 =>
      split
      case isTrue => exact ⟨rfl, fun _ => id⟩
      case isFalse =>
          split
          case h_1 => exact ⟨rfl, fun _ => id⟩
          case h_2 =>
              split
              case isTrue => exact ⟨rfl, fun _ => id⟩
              case isFalse =>
                  split
                  case h_1 => exact ⟨rfl, fun _ => id⟩
                  case h_2 =>
                      split
                      case isTrue => exact ⟨rfl, fun _ => id⟩
                      case isFalse => exact ⟨rfl, List.subset_cons_self _ _⟩

/-- The flag says which transport it was. -/
def TellsTransport (transport : Transport) (ws : Option String) : Prop :=
  (ws = some "1" ↔ transport ≠ .gossip) ∧ (ws = some "0" ↔ transport = .gossip)

theorem tellsTransport_iff (transport : Transport) (ws : Option String) :
    TellsTransport transport ws ↔ ws = some transport.flag := by
  unfold TellsTransport
  have hne : ("0" : String) ≠ "1" := by decide
  cases transport with
  | gossip =>
      constructor
      · exact fun h => h.2.mpr rfl
      · rintro rfl
        simp [Transport.flag]
  | webSocket key timestamp =>
      constructor
      · exact fun h => h.1.mpr (by simp)
      · rintro rfl
        simp [Transport.flag]

/-- The handler of a payload sees the right flag if and only if the payload has no other value
for it. -/
theorem ws_flag_iff {p : Payload}
    (h : (r.processIncomingData infoHash acknowledges p).2 = .handled cmd f) :
    TellsTransport p.transport (f.at? "ws") ↔
      ∀ theFields ∈ getFieldsAndValues p.data, ∀ ws ∈ theFields.at? "ws", ws = p.transport.flag := by
  rcases at?_of_handled h with ⟨theFields, hfields, hws⟩
  rw [tellsTransport_iff, hws, hfields]
  simp only [Option.mem_def, Option.some.injEq, forall_eq']
  cases theFields.at? "ws" with
  | none => simp
  | some ws => simp

end Receiver

/-! ## Packets that were handled -/

/-- The node has noted the message id of the packet. -/
def noted (r : Receiver) (q : Packet) : Bool :=
  (q.fields.bind (·.at? "msgid")).any (· ∈ r.processedMessages)

theorem noted_mono {r r' : Receiver} {q : Packet} (hkeeps : Receiver.Keeps r r')
    (h : noted r q = true) : noted r' q = true := by
  rcases (Option.any_eq_true _ _).mp h with ⟨messageId, hid, hmem⟩
  refine (Option.any_eq_true _ _).mpr ⟨messageId, hid, ?_⟩
  rw [decide_eq_true_eq] at hmem ⊢
  exact hkeeps.processedMessages hmem

/-- What passes the receiver is noted, and was not before. -/
theorem noted_of_passes {r r' : Receiver} {q : Packet} {fields f : FieldValueMap}
    {cmd : CommandType} (hfields : q.fields = some fields)
    (h : Receiver.Passes r fields r' cmd f) :
    noted r q = false ∧ noted r' q = true ∧ q.command? = some cmd := by
  rcases h.messageId with ⟨messageId, hid, hnew, rfl⟩
  simp only [noted, hfields, Option.bind_some, hid, Option.any_some, decide_eq_false_iff_not,
    decide_eq_true_eq]
  exact ⟨hnew, List.mem_cons_self, by rw [Packet.command?, hfields, Option.bind_some, h.command]⟩

namespace Sample

/-- A node with handlers for all commands. -/
def receiver : Receiver where
  nodeId := "n"
  appStartupTime := 0
  processedMessages := []
  handles _ := true

/-- A state change that is gossiped, with a field `ws` or without. -/
def stateChange (own : String) : Payload where
  data := "c:6|k:f|msgid:m|tm:5" ++ own
  transport := .gossip
  guid36 := ""

end Sample

namespace Receiver

theorem ws_flag_iff_plain :
    ∃ f, (Sample.receiver.processIncomingData id (fun _ _ _ => true) (Sample.stateChange "")).2 =
        .handled .stateChange f ∧ TellsTransport .gossip (f.at? "ws") := by
  obtain ⟨f, h⟩ : ∃ f, (Sample.receiver.processIncomingData id (fun _ _ _ => true)
      (Sample.stateChange "")).2 = .handled .stateChange f := ⟨_, rfl⟩
  refine ⟨f, h, (ws_flag_iff h).mpr ?_⟩
  intro theFields hfields
  cases hfields
  exact nofun

/-- Gossip with a field `ws` passes for a request over a web socket. -/
theorem flag_forged :
    ∃ f, (Sample.receiver.processIncomingData id (fun _ _ _ => true) (Sample.stateChange "|ws:1")).2 =
        .handled .stateChange f ∧ f.at? "ws" = some "1" ∧
          ¬TellsTransport .gossip (f.at? "ws") := by
  refine ⟨_, rfl, rfl, ?_⟩
  intro htells
  exact htells.1.mp rfl rfl

end Receiver

end DecentralizedCloud
