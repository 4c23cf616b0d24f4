import Mathlib.Data.Finset.Card
import DecentralizedCloud.Common.Receiving
import DecentralizedCloud.Master.Machine

/-!
# Delivery of messages to a master

`processIncomingData` stands between the network and the handlers. It drops a
node's own gossip, messages older than the node, and gossip whose message id
was seen before; it gives a client's request a new transaction id; and it
hands what is left to the handler of the command.

The duplicate filter looks at the message id only. The sender's key takes no
part in counting results, so 14 results that verify a transaction come from 14
different messages (`verified_messages`), which may all have one sender.
-/

namespace DecentralizedCloud

open Machine Master

/-- A master behind `processIncomingData`. -/
structure MasterNode where
  master : Master
  processedMessages : List String
  appStartupTime : Int

/-- One message as it reaches `processIncomingData`, its text already split
into fields, with the draw of `getGUID(36)`. -/
structure Incoming where
  env : Env
  transport : Transport
  fields : FieldValueMap
  guid36 : String

/-! ## The handlers -/

/-- What the registered handler of a command makes of the fields. The outer
`none` marks the commands about votes, nodes and stored blocks, which are not
part of this machine; the inner one a command without effect, or a handler that
raises before it does anything. -/
def dataHandler (cmd : CommandType) (f : FieldValueMap) : Option (Option Msg) :=
  match cmd with
  | .exeFunction => some <| some <| .exeFunction {
      utxid := f.get "utxid"
      htxid := f.get "txid"
      tenantId := f.get "tid"
      code := f.get "h"
      inputs := f.get "i"
      base64signature := f.get "s"
      base64publicKey := f.get "k" }
  | .verificationResult => some do
      let txId ← f.at? "txid"
      let hash ← f.at? "h"
      return .verificationResult txId hash ((f.at? "o").getD "")
  | .exception => some <|
      let txstr := (f.at? "tx").getD ""
      if txstr = "" then do
        let txId ← f.at? "txid"
        let exp ← f.at? "e"
        return .exception txId exp
      else some (.forwardedException txstr)
  | .txNotification => some do
      let _ ← f.at? "utxid"
      let data ← f.at? "tx"
      return .txNotification data
  | .connectionRequest | .choseRandomNumber | .syncNodes | .storageurl | .stateChangeResponse
  | .verifyBlock => none
  | _ => some none

/-! ## processIncomingData -/

/-- The last part: transport flag, sender's key, and the handler of the command. -/
def dispatch (P : Platform) (env : Env) (n : MasterNode) (ws key : String) (f : FieldValueMap) :
    Option MasterNode :=
  let f := f.insert "ws" ws
  match f.at? "c" with
  | none => some n
  | some c =>
      let f := f.insert "k" key
      match CommandType.ofCode (atoi c) with
      | none => some n
      | some cmd =>
          (dataHandler cmd f).bind fun
            | none => some n
            | some msg => (handle P n.master ⟨env, msg⟩).map fun m => { n with master := m }

def processGossip (P : Platform) (n : MasterNode) (env : Env) (f : FieldValueMap) :
    Option MasterNode :=
  match f.at? "k" with
  | none => some n
  | some k =>
      -- gossip reaches its sender too
      if k = n.master.nodeId then some n
      else
        match messageTime 0 f with
        | none => some n
        | some (timestamp, f) =>
            if n.appStartupTime > timestamp then some n
            else
              match f.at? "msgid" with
              | none => some n
              | some messageId =>
                  if messageId ∈ n.processedMessages then some n
                  else
                    -- the sender's key stays in the fields
                    dispatch P env
                      { n with processedMessages := messageId :: n.processedMessages } "0" "" f

def processRequest (P : Platform) (n : MasterNode) (env : Env) (guid36 key : String)
    (timestamp : Int) (f : FieldValueMap) : Option MasterNode :=
  match messageTime timestamp f with
  | none => some n
  | some (timestamp, f) =>
      if n.appStartupTime > timestamp then some n
      else
        let refId := P.infoHash (key ++ guid36 ++ f.get "tm")
        match f.at? "txid" with
        | none => some n
        | some txid =>
            -- the client's own id becomes `utxid`
            let f := (f.set "utxid" txid).set "txid" refId
            match wsSend env n.master key (.ack refId txid) with
            | none => some n
            | some m => dispatch P env { n with master := m } "1" key f

/-- `processIncomingData` on a master; `none` for a command outside this
machine. A message that is dropped, or whose handler raises, leaves the node
as it is, up to the note of its message id. -/
def processIncomingData (P : Platform) (n : MasterNode) (d : Incoming) : Option MasterNode :=
  match d.transport with
  | .gossip => processGossip P n d.env d.fields
  | .webSocket key timestamp => processRequest P n d.env d.guid36 key timestamp d.fields

/-! ## Results and message ids -/

/-- The gossip message with id `messageId` is a result for the transaction `id`. -/
def Incoming.IsResult (id messageId : String) (d : Incoming) : Prop :=
  d.transport = .gossip ∧ d.fields.at? "msgid" = some messageId ∧
    (d.fields.at? "c").bind (fun c => CommandType.ofCode (atoi c)) = some .verificationResult ∧
    d.fields.at? "txid" = some id

/-- Requests over a web socket are requests to execute a function. -/
def RequestsExecute (_ : MasterNode) (d : Incoming) : Prop :=
  d.transport ≠ .gossip →
    (d.fields.at? "c").bind (fun c => CommandType.ofCode (atoi c)) = some .exeFunction

instance (n : MasterNode) (d : Incoming) : Decidable (RequestsExecute n d) :=
  inferInstanceAs (Decidable (_ → _))

/-- The results counted for `id`. -/
def counter (id : String) (m : Master) : Nat :=
  ((m.view id).held.map (·.totalVerified)).getD 0

variable {P : Platform}

/-- One event counts at most one result, and only a result for the transaction. -/
theorem counter_handle {m m' : Master} {e : Event} (h : handle P m e = some m') (id : String) :
    counter id m' ≤ counter id m ∨
      counter id m' ≤ counter id m + 1 ∧
        ∃ hash output, e.msg = .verificationResult id hash output := by
  have hv := viewStep h id
  unfold counter
  generalize m'.view id = v at hv
  cases hv with
  | counted hash output hmsg =>
      -- the only event that adds to the counter
      refine .inr ⟨?_, hash, output, hmsg⟩
      simp only [View.check, Option.map_some, Option.getD_some, checked_totalVerified, counted_eq]
      cases (m.view id).held with
      | none => simp [Transaction.ofResult]
      | some tx =>
          simp only [Option.getD_some, Option.map_some]
          split <;> omega
  | notified data j cid node =>
      left
      simp only [View.check, Option.map_some, Option.getD_some, checked_totalVerified]
      rw [(Transaction.filledFrom_fromJson j _).totalVerified]
      cases (m.view id).held <;> simp
  | partially data j =>
      left
      cases (m.view id).held with
      | none => simp
      | some tx => simp [(Transaction.filledFrom_fromJson j tx).totalVerified]
  | drawn p cid =>
      left
      cases (m.view id).held <;> simp [CodePacket.transaction, Transaction.ofOrigin]
  | untold exp tx hmsg hheld | unprinted exp tx hmsg hheld =>
      left
      simp [hheld, excepted, Transaction.setOutput, Transaction.setFunctionId,
        Transaction.setException]
  | cleaned =>
      left
      cases (m.view id).held with
      | none => simp
      | some tx =>
          simp only [Option.filter_some]
          split <;> simp
  | same | failed | forwarded | closed =>
      left
      simp

/-- Only the handler of results makes a result of a message. -/
theorem dataHandler_result {cmd : CommandType} {f : FieldValueMap} {id hash output : String}
    (h : dataHandler cmd f = some (some (.verificationResult id hash output))) :
    cmd = .verificationResult ∧ f.at? "txid" = some id := by
  cases cmd
  -- these three handlers read fields before they make a message
  case verificationResult =>
      refine ⟨rfl, ?_⟩
      cases htxid : f.at? "txid" with
      | none => simp [dataHandler, htxid] at h
      | some txId =>
          cases hh : f.at? "h" with
          | none => simp [dataHandler, htxid, hh] at h
          | some hash' =>
              simp only [dataHandler, htxid, hh] at h
              cases h
              rfl
  case exception =>
      simp only [dataHandler] at h
      split at h
      · cases htxid : f.at? "txid" <;> cases he : f.at? "e" <;> simp [htxid, he] at h
      · cases h
  case txNotification =>
      cases hu : f.at? "utxid" <;> cases ht : f.at? "tx" <;> simp [dataHandler, hu, ht] at h
  all_goals cases h

/-- What `dispatch` does: nothing, or it runs the handler of the command. -/
theorem dispatch_cases {env : Env} {n n' : MasterNode} {ws key : String} {f : FieldValueMap}
    (h : dispatch P env n ws key f = some n') :
    n' = n ∨ ∃ c cmd msg m, f.at? "c" = some c ∧ CommandType.ofCode (atoi c) = some cmd ∧
      dataHandler cmd ((f.insert "ws" ws).insert "k" key) = some (some msg) ∧
      handle P n.master ⟨env, msg⟩ = some m ∧ n' = { n with master := m } := by
  unfold dispatch at h
  dsimp only at h
  rw [FieldValueMap.at?_insert_ne (by decide)] at h
  split at h
  case h_1 =>
      cases h
      exact .inl rfl
  case h_2 c hc =>
      split at h
      case h_1 =>
          cases h
          exact .inl rfl
      case h_2 cmd hcmd =>
          rcases Option.bind_eq_some_iff.mp h with ⟨msg?, hmsg, hrun⟩
          cases msg? with
          | none =>
              cases hrun
              exact .inl rfl
          | some msg =>
              rcases Option.map_eq_some_iff.mp hrun with ⟨m, hm, rfl⟩
              exact .inr ⟨c, cmd, msg, m, hc, hcmd, hmsg, hm, rfl⟩

/-- A message of a command other than `verificationResult` counts no result. -/
theorem counter_dispatch {env : Env} {n n' : MasterNode} {ws key : String} {f : FieldValueMap}
    (id : String) (h : dispatch P env n ws key f = some n') :
    n'.processedMessages = n.processedMessages ∧
    (counter id n'.master ≤ counter id n.master ∨
      counter id n'.master ≤ counter id n.master + 1 ∧
        (f.at? "c").bind (fun c => CommandType.ofCode (atoi c)) = some .verificationResult ∧
        f.at? "txid" = some id) := by
  rcases dispatch_cases h with rfl | ⟨c, cmd, msg, m, hc, hcmd, hmsg, hm, rfl⟩
  · exact ⟨rfl, .inl le_rfl⟩
  · refine ⟨rfl, ?_⟩
    rcases counter_handle hm id with hle | ⟨hle, hash, output, hresult⟩
    · exact .inl hle
    · right
      rw [show msg = .verificationResult id hash output from hresult] at hmsg
      rcases dataHandler_result hmsg with ⟨rfl, htxid⟩
      rw [FieldValueMap.at?_insert_ne (by decide), FieldValueMap.at?_insert_ne (by decide)] at htxid
      exact ⟨hle, by rw [hc]; exact hcmd, htxid⟩

/-- What `processGossip` does: nothing, or it notes a new message id and
dispatches the message. -/
theorem processGossip_cases {env : Env} {n n' : MasterNode} {f : FieldValueMap}
    (h : processGossip P n env f = some n') :
    n' = n ∨ ∃ messageId f', messageId ∉ n.processedMessages ∧ f.at? "msgid" = some messageId ∧
      (∀ key, key ≠ "tm" → f'.at? key = f.at? key) ∧
      dispatch P env { n with processedMessages := messageId :: n.processedMessages } "0" "" f' =
        some n' := by
  unfold processGossip at h
  split at h
  case h_1 => exact .inl (Option.some.inj h).symm
  case h_2 =>
      split at h
      case isTrue => exact .inl (Option.some.inj h).symm
      case isFalse =>
          split at h
          case h_1 => exact .inl (Option.some.inj h).symm
          case h_2 f' htime =>
              split at h
              case isTrue => exact .inl (Option.some.inj h).symm
              case isFalse =>
                  split at h
                  case h_1 => exact .inl (Option.some.inj h).symm
                  case h_2 messageId hid =>
                      split at h
                      case isTrue => exact .inl (Option.some.inj h).symm
                      case isFalse hnew =>
                          rw [messageTime_at? htime (by decide)] at hid
                          exact .inr ⟨messageId, f', hnew, hid, fun _ => messageTime_at? htime, h⟩

/-- A gossip message counts at most one result, under a message id that was new. -/
theorem counter_processGossip {env : Env} {n n' : MasterNode} {f : FieldValueMap} {guid36 : String}
    (id : String) (h : processGossip P n env f = some n') :
    n.processedMessages ⊆ n'.processedMessages ∧
    (counter id n'.master ≤ counter id n.master ∨
      counter id n'.master ≤ counter id n.master + 1 ∧
        ∃ messageId, messageId ∉ n.processedMessages ∧ messageId ∈ n'.processedMessages ∧
          (⟨env, .gossip, f, guid36⟩ : Incoming).IsResult id messageId) := by
  rcases processGossip_cases h with rfl | ⟨messageId, f', hnew, hid, hfields, hdispatch⟩
  · -- dropped
    exact ⟨List.Subset.refl _, .inl le_rfl⟩
  · rcases counter_dispatch id hdispatch with ⟨hprocessed, hcount⟩
    rw [hfields "c" (by decide), hfields "txid" (by decide)] at hcount
    rw [hprocessed]
    refine ⟨List.subset_cons_self _ _, ?_⟩
    rcases hcount with hle | ⟨hle, hc, htxid⟩
    · exact .inl hle
    · exact .inr ⟨hle, messageId, hnew, List.mem_cons_self, rfl, hid, hc, htxid⟩

/-- A client's request to execute a function counts no result. -/
theorem counter_processRequest {env : Env} {n n' : MasterNode} {f : FieldValueMap}
    {guid36 key : String} {timestamp : Int} (id : String)
    (hexe : (f.at? "c").bind (fun c => CommandType.ofCode (atoi c)) = some .exeFunction)
    (h : processRequest P n env guid36 key timestamp f = some n') :
    n'.processedMessages = n.processedMessages ∧ counter id n'.master ≤ counter id n.master := by
  unfold processRequest at h
  split at h
  case h_1 => cases h; exact ⟨rfl, le_rfl⟩
  case h_2 t f' htime =>
      split at h
      case isTrue => cases h; exact ⟨rfl, le_rfl⟩
      case isFalse =>
          dsimp only at h
          split at h
          case h_1 => cases h; exact ⟨rfl, le_rfl⟩
          case h_2 txid htxid =>
              split at h
              case h_1 => cases h; exact ⟨rfl, le_rfl⟩
              case h_2 m hm =>
                  rcases counter_dispatch id h with ⟨hprocessed, hcount⟩
                  -- the ack leaves the transactions alone
                  have hack : counter id m = counter id n.master := by
                    unfold wsSend at hm
                    split at hm <;> cases hm <;> rfl
                  rw [FieldValueMap.at?_set_ne (by decide), FieldValueMap.at?_set_ne (by decide),
                    messageTime_at? htime (by decide), hexe, hack] at hcount
                  refine ⟨hprocessed, ?_⟩
                  rcases hcount with hle | ⟨-, hc, -⟩
                  · exact hle
                  · cases hc

/-! ## The messages behind a verified transaction -/

/-- The results counted for a transaction have different message ids. -/
def MessagesCounted (ds : List Incoming) (n : MasterNode) : Prop :=
  ∀ id, ∃ ids : Finset String, counter id n.master ≤ ids.card ∧
    ∀ messageId ∈ ids, messageId ∈ n.processedMessages ∧ ∃ d ∈ ds, d.IsResult id messageId

theorem messagesCounted_init {n : MasterNode} (h : ∀ id, (n.master.view id).held = none) :
    MessagesCounted [] n := by
  intro id
  exact ⟨∅, by simp [counter, h id], by simp⟩

/-- Every message counts for one result at most. -/
theorem messagesCounted_step (ds : List Incoming) (n : MasterNode) (d : Incoming)
    (n' : MasterNode) (hinv : MessagesCounted ds n) (hok : RequestsExecute n d)
    (h : processIncomingData P n d = some n') : MessagesCounted (ds ++ [d]) n' := by
  intro id
  rcases hinv id with ⟨ids, hcard, hids⟩
  rcases d with ⟨env, transport, f, guid36⟩
  have hold : ∀ messageId ∈ ids, ∃ d' ∈ ds ++ [(⟨env, transport, f, guid36⟩ : Incoming)],
      d'.IsResult id messageId := by
    intro messageId hmem
    rcases hids messageId hmem with ⟨-, d', hd', hresult⟩
    exact ⟨d', List.mem_append_left _ hd', hresult⟩
  cases transport with
  | webSocket key timestamp =>
      -- a request counts nothing, so the old message ids still do
      rcases counter_processRequest id (hok (by simp)) h with ⟨hprocessed, hle⟩
      refine ⟨ids, hle.trans hcard, ?_⟩
      intro messageId hmem
      rw [hprocessed]
      exact ⟨(hids messageId hmem).1, hold messageId hmem⟩
  | gossip =>
      rcases counter_processGossip id h with ⟨hsubset, hcount⟩
      rcases hcount with hle | ⟨hle, messageId, hnew, hnow, hresult⟩
      · refine ⟨ids, hle.trans hcard, ?_⟩
        intro messageId hmem
        exact ⟨hsubset (hids messageId hmem).1, hold messageId hmem⟩
      · -- the new message id is none of those counted so far
        have hfresh : messageId ∉ ids := fun hmem => hnew (hids messageId hmem).1
        refine ⟨insert messageId ids, ?_, ?_⟩
        · rw [Finset.card_insert_of_notMem hfresh]
          omega
        · intro x hx
          rcases Finset.mem_insert.mp hx with rfl | hx
          · exact ⟨hnow, _, List.mem_append_right _ (List.mem_singleton_self _), hresult⟩
          · exact ⟨hsubset (hids x hx).1, hold x hx⟩

/-- In every run, a verified transaction has 14 results behind it that came in
different messages. -/
theorem verified_messages {n₀ n : MasterNode} {ds : List Incoming} {id : String}
    {tx : Transaction} (hinit : ∀ id, (n₀.master.view id).held = none)
    (h : Trace (processIncomingData P) RequestsExecute n₀ ds n)
    (hheld : n.master.transactions.find id = some tx) (hverified : tx.isVerified = true) :
    ∃ ids : Finset String, 14 ≤ ids.card ∧
      ∀ messageId ∈ ids, ∃ d ∈ ds, d.IsResult id messageId := by
  have hinv : MessagesCounted ds n :=
    h.invariant MessagesCounted (messagesCounted_init hinit) messagesCounted_step
  rcases hinv id with ⟨ids, hcard, hids⟩
  have htotal := ((Transaction.isVerified_iff tx).mp hverified).1
  have hcounter : counter id n.master = tx.totalVerified := by
    have hview : (n.master.view id).held = some tx := hheld
    simp [counter, hview]
  exact ⟨ids, by omega, fun messageId hmem => (hids messageId hmem).2⟩

/-- The sender of a message that is a result for `id`. -/
def Incoming.resultSender (id : String) (d : Incoming) : Option String :=
  if d.transport = .gossip ∧ d.fields.at? "txid" = some id ∧
      (d.fields.at? "c").bind (fun c => CommandType.ofCode (atoi c)) = some .verificationResult then
    d.fields.at? "k"
  else none

namespace Sample

def node : MasterNode := { master, processedMessages := [], appStartupTime := 0 }

/-- The notification of the transaction by the master `m2`. -/
def noticeMessage : Incoming where
  env := env
  transport := .gossip
  fields := [("c", "15"), ("utxid", "u1"), ("tx", jsonText tx), ("msgid", "n"), ("k", "m2"),
    ("tm", "100")]
  guid36 := ""

/-- A result sent by the node `sender` in the message `messageId`. -/
def resultMessage (sender messageId : String) : Incoming where
  env := env
  transport := .gossip
  fields := [("c", "4"), ("txid", "tx1"), ("h", "a"), ("o", "out"), ("msgid", messageId),
    ("k", sender), ("tm", "100")]
  guid36 := ""

end Sample

/-- The notification, and 14 results from the sender `v1` under different message ids. -/
def repeatedResult : List Incoming :=
  Sample.noticeMessage :: (List.range 14).map fun i => Sample.resultMessage "v1" (toString i)

theorem verified_messages_repeatedResult :
    ∃ ids : Finset String, 14 ≤ ids.card ∧
      ∀ messageId ∈ ids, ∃ d ∈ repeatedResult, d.IsResult "tx1" messageId := by
  obtain ⟨n, htrace, hcheck⟩ :
      ∃ n, Trace (processIncomingData (Sample.platform [Sample.tx])) RequestsExecute
          Sample.node repeatedResult n ∧
        (n.master.transactions.find "tx1").any (·.isVerified) = true :=
    exists_trace_of_exec _ (by decide +kernel)
  rcases (Option.any_eq_true _ _).mp hcheck with ⟨tx, hheld, hverified⟩
  exact verified_messages (fun _ => rfl) htrace hheld hverified

/-- One sender verifies a transaction alone. -/
theorem verified_by_one_sender :
    (∃ n, Trace (processIncomingData (Sample.platform [Sample.tx])) RequestsExecute
        Sample.node repeatedResult n ∧
      (n.master.transactions.find "tx1").any (·.isVerified) = true) ∧
    (repeatedResult.filterMap (Incoming.resultSender "tx1")).toFinset = {"v1"} := by
  refine ⟨exists_trace_of_exec _ (by decide +kernel), by decide +kernel⟩

end DecentralizedCloud
