import DecentralizedCloud.Compute.ComputeNode
import DecentralizedCloud.Master.Contents

/-!
# What a compute node commits

A compute node keeps the state changes of a run under the id of the transaction, and sends
them to a storage node when it is told to. `Provenance` says where they come from: the node
was asked for the transaction, a run of the function that a storage node has answered with,
on the input and for the tenant it was asked for, has ended with these state changes, and
the node has reported the result of the same run. Every event keeps this
(`provenance_receive`, `provenance_resume`).
-/

namespace DecentralizedCloud.Compute

open Master

/-! ## Requests and runs -/

/-- The form of a drawn UUID. -/
structure IsUuid (s : String) : Prop where
  chars : ∀ c ∈ s.toList, c.isDigit ∨ c.isLower ∨ c = '-'
  dash : '-' ∈ s.toList

instance (s : String) : Decidable (IsUuid s) :=
  decidable_of_iff ((∀ c ∈ s.toList, c.isDigit ∨ c.isLower ∨ c = '-') ∧ '-' ∈ s.toList)
    ⟨fun h => ⟨h.1, h.2⟩, fun h => ⟨h.1, h.2⟩⟩

/-- A node is asked to run a transaction of `G`; it gets the values that arrive. -/
structure Asks (G : Transaction → Prop) (N : String → Prop) (txId input tenantId hash : String)
    (storageNode : String) : Prop where
  storageNode : N storageNode
  transaction : ∃ tx, G tx ∧ txId = receivedValue tx.txId ∧ input = receivedValue tx.input ∧
    tenantId = receivedValue tx.tenantId ∧ hash = receivedValue tx.code

def RequestData.IsAsked (G : Transaction → Prop) (N : String → Prop) (rq : RequestData) : Prop :=
  Asks G N rq.txId rq.input rq.tenantId rq.hash rq.storageNode

/-- What a compute node has run for a request, with what it has reported. -/
structure Ran (V : Processor) (G : Transaction → Prop) (N : String → Prop)
    (sent : List (String × Gossip)) (txId stateChangeCmds : String) : Prop where
  exists_run : ∃ (rq : RequestData) (code result : String), rq.IsAsked G N ∧ rq.txId = txId ∧
    (executeScript V code rq.input rq.tenantId).Ends (.ok ⟨result, stateChangeCmds⟩) ∧
    ("master21", .command .verificationResult
      [("txid", txId), ("o", result), ("h", V.hashCode result)]) ∈ sent

/-- What a compute node sends: reports and requests, the text of a query under a UUID, and
the state changes of a run. -/
inductive Sends (V : Processor) (G : Transaction → Prop) (N : String → Prop)
    (sent : List (String × Gossip)) : String × Gossip → Prop where
  | ordinary {channel : String} {g : Gossip} (h : Gossip.IsOrdinary g) :
      Sends V G N sent (channel, g)
  | query {channel uuid input : String} (hchannel : N channel) (huuid : IsUuid uuid) :
      Sends V G N sent (channel, .text ("txid:" ++ uuid ++ "|" ++ input))
  | release {channel txId stateChangeCmds : String} (hchannel : N channel)
      (hran : Ran V G N sent txId stateChangeCmds) :
      Sends V G N sent (channel, .text ("txid:" ++ txId ++ "|" ++ stateChangeCmds))

structure Provenance (V : Processor) (G : Transaction → Prop) (N : String → Prop)
    (c : ComputeNode) : Prop where
  rds : ∀ entry ∈ c.rds, entry.2.IsAsked G N
  running : ∀ x ∈ c.running, x.request.IsAsked G N ∧ ∃ code, ∀ answer outcome,
    (x.resume answer).Ends outcome →
      (executeScript V code x.request.input x.request.tenantId).Ends outcome
  trs : ∀ entry ∈ c.trs, Ran V G N c.sent entry.1 entry.2.stateChangeCmds
  sent : ∀ message ∈ c.sent, Sends V G N c.sent message

/-- What the masters tell a node names transactions and storage nodes. -/
def Brings (G : Transaction → Prop) (N : String → Prop) (cmd : CommandType) (f : FieldValueMap) :
    Prop :=
  (cmd = .codeDelivery →
    Asks G N (f.get "txid") (f.get "i") (f.get "tid") (f.get "co") (f.get "s")) ∧
  (cmd = .canCommit → N (f.get "sid"))

/-! ## More is sent -/

variable {V : Processor} {G G' : Transaction → Prop} {N : String → Prop}
  {sent sent' : List (String × Gossip)} {c c' : ComputeNode} {d : Draw} {f : FieldValueMap}
  {rq : RequestData}

theorem RequestData.IsAsked.mono (hG : ∀ tx, G tx → G' tx) (h : rq.IsAsked G N) :
    rq.IsAsked G' N := by
  rcases h with ⟨hnode, tx, htx, hfields⟩
  exact ⟨hnode, tx, hG tx htx, hfields⟩

theorem Ran.mono {txId stateChangeCmds : String} (hG : ∀ tx, G tx → G' tx) (hsent : sent ⊆ sent')
    (h : Ran V G N sent txId stateChangeCmds) : Ran V G' N sent' txId stateChangeCmds := by
  rcases h with ⟨rq, code, result, hasked, htxId, hends, hreport⟩
  exact ⟨rq, code, result, hasked.mono hG, htxId, hends, hsent hreport⟩

theorem Sends.mono {message : String × Gossip} (hG : ∀ tx, G tx → G' tx) (hsent : sent ⊆ sent')
    (h : Sends V G N sent message) : Sends V G' N sent' message := by
  cases h with
  | ordinary h => exact .ordinary h
  | query hchannel huuid => exact .query hchannel huuid
  | release hchannel hran => exact .release hchannel (hran.mono hG hsent)

/-- More transactions may be asked for. -/
theorem Provenance.mono (hG : ∀ tx, G tx → G' tx) (h : Provenance V G N c) :
    Provenance V G' N c where
  rds := fun entry hentry => (h.rds entry hentry).mono hG
  running := fun x hx => ⟨(h.running x hx).1.mono hG, (h.running x hx).2⟩
  trs := fun entry hentry => (h.trs entry hentry).mono hG fun _ => id
  sent := fun message hmessage => (h.sent message hmessage).mono hG fun _ => id

/-- One more message. -/
theorem Provenance.emit {channel : String} {g : Gossip} (h : Provenance V G N c)
    (hsends : Sends V G N (c.sent ++ [(channel, g)]) (channel, g)) :
    Provenance V G N (c.emit channel g) := by
  have hsubset : c.sent ⊆ c.sent ++ [(channel, g)] := List.subset_append_left _ _
  refine ⟨h.rds, h.running, fun entry hentry => (h.trs entry hentry).mono (fun _ => id) hsubset, ?_⟩
  intro message hmessage
  rcases List.mem_append.mp hmessage with hold | hnew
  · exact (h.sent message hold).mono (fun _ => id) hsubset
  · rw [List.mem_singleton.mp hnew]
    exact hsends

theorem mem_insertNew {α : Type} {m : List (String × α)} {key : String} {a : α}
    {entry : String × α} (h : entry ∈ insertNew m key a) : entry ∈ m ∨ entry = (key, a) := by
  unfold insertNew at h
  split at h
  · exact .inl h
  · simpa using h

theorem mem_eraseKey {α : Type} {m : List (String × α)} {key : String} {entry : String × α}
    (h : entry ∈ eraseKey m key) : entry ∈ m := List.mem_of_mem_filter h

theorem mem_of_lookup {α : Type} {m : List (String × α)} {key : String} {a : α}
    (h : m.lookup key = some a) : (key, a) ∈ m := by
  rcases List.lookup_eq_some_iff.mp h with ⟨before, behind, rfl, -⟩
  simp

/-- Fewer requests wait. -/
theorem Provenance.eraseRequest {reqId : String} (h : Provenance V G N c) :
    Provenance V G N { c with rds := eraseKey c.rds reqId } :=
  ⟨fun entry hentry => h.rds entry (mem_eraseKey hentry), h.running, h.trs, h.sent⟩

/-! ## The handlers -/

theorem ordinary_report (cmd : CommandType) (hcmd : cmd ∉ [.codeDelivery, .canCommit, .txNotification])
    (kv : FieldValueMap) (hnames : ∀ name ∈ kv.map (·.1), OwnName name ∧ name ≠ "tx") :
    Gossip.IsOrdinary (.command cmd kv) := by
  refine ⟨hcmd, ?_, fun field hfield => (hnames _ (List.mem_map_of_mem hfield)).1⟩
  intro _
  rw [FieldValueMap.at?, List.lookup_eq_none_iff]
  intro field hfield
  simpa using (hnames _ (List.mem_map_of_mem hfield)).2.symm

theorem provenance_processRequest (h : Provenance V G N c)
    (hasks : Asks G N (f.get "txid") (f.get "i") (f.get "tid") (f.get "co") (f.get "s")) :
    Provenance V G N (c.processRequest d f) := by
  unfold ComputeNode.processRequest
  refine Provenance.emit ⟨?_, h.running, h.trs, h.sent⟩ (.ordinary ?_)
  · intro entry hentry
    rcases mem_insertNew hentry with hold | rfl
    · exact h.rds entry hold
    · exact hasks
  · exact ordinary_report _ (by decide) _
      (by decide : ∀ name ∈ ["txid", "h", "tid"], OwnName name ∧ name ≠ "tx")

/-- The end of a run that belongs to a request. -/
theorem provenance_finish {outcome : Except String ScriptResult} {code : String}
    (h : Provenance V G N c) (hasked : rq.IsAsked G N)
    (hends : (executeScript V code rq.input rq.tenantId).Ends outcome) :
    Provenance V G N (c.finish V rq outcome) := by
  have hraised : ∀ e, Provenance V G N
      (c.emit rq.channelId (.command .exception [("txid", rq.txId), ("e", e)])) := by
    intro e
    exact h.emit (.ordinary (ordinary_report _ (by decide) _
      (by decide : ∀ name ∈ ["txid", "e"], OwnName name ∧ name ≠ "tx")))
  cases outcome with
  | error e => exact hraised e
  | ok r =>
      unfold ComputeNode.finish ComputeNode.report
      cases stoi rq.nodeType with
      | none => exact hraised _
      | some type =>
          simp only [Option.map_some, Option.getD_some]
          apply Provenance.eraseRequest
          split
          · -- the state changes are kept, and the output is reported
            have hordinary : Gossip.IsOrdinary (.command .verificationResult
                [("txid", rq.txId), ("o", r.result), ("h", V.hashCode r.result)]) :=
              ordinary_report _ (by decide) _
                (by decide : ∀ name ∈ ["txid", "o", "h"], OwnName name ∧ name ≠ "tx")
            have hemitted : Provenance V G N (c.emit "master21" (.command .verificationResult
                [("txid", rq.txId), ("o", r.result), ("h", V.hashCode r.result)])) :=
              h.emit (.ordinary hordinary)
            refine ⟨hemitted.rds, hemitted.running, ?_, hemitted.sent⟩
            intro entry hentry
            rcases mem_insertNew hentry with hold | rfl
            · exact hemitted.trs entry hold
            · exact ⟨rq, code, r.result, hasked, rfl, hends,
                List.mem_append_right _ (List.mem_singleton_self _)⟩
          · split
            · exact h.emit (.ordinary (ordinary_report _ (by decide) _
                (by decide : ∀ name ∈ ["txid", "h"], OwnName name ∧ name ≠ "tx")))
            · exact h

/-- A run goes on. -/
theorem provenance_advance {script : Script} {code : String} (h : Provenance V G N c)
    (huuid : IsUuid d.uuid) (hasked : rq.IsAsked G N)
    (hscript : ∀ outcome, script.Ends outcome →
      (executeScript V code rq.input rq.tenantId).Ends outcome)
    (hadvance : c.advance V d rq script = some c') : Provenance V G N c' := by
  cases script with
  | done outcome =>
      cases hadvance
      exact provenance_finish h hasked (hscript outcome (.done outcome))
  | fetch input resume =>
      rcases Option.map_eq_some_iff.mp hadvance with ⟨first, hfirst, rfl⟩
      refine Provenance.emit ⟨h.rds, ?_, h.trs, h.sent⟩
        (.query (h.rds first (List.mem_of_getElem? hfirst)).storageNode huuid)
      intro x hx
      rcases List.mem_append.mp hx with hold | hnew
      · exact h.running x hold
      · rw [List.mem_singleton.mp hnew]
        exact ⟨hasked, code, fun answer outcome hends => hscript outcome (.fetch answer hends)⟩

theorem provenance_executeJsCode (h : Provenance V G N c) (huuid : IsUuid d.uuid)
    (hexecute : c.executeJsCode V d f = some c') : Provenance V G N c' := by
  unfold ComputeNode.executeJsCode at hexecute
  split at hexecute
  · cases hexecute
    exact h
  case h_2 code _ =>
      split at hexecute
      · cases hexecute
        exact h
      case h_2 rq hrq =>
          exact provenance_advance h huuid (h.rds _ (mem_of_lookup hrq)) (fun _ => id)
            hexecute

theorem provenance_processStateChangeCmds (h : Provenance V G N c) (hchannel : N (f.get "sid")) :
    Provenance V G N (c.processStateChangeCmds f) := by
  unfold ComputeNode.processStateChangeCmds
  split
  · exact h
  case h_2 tr htr =>
      split
      · exact h
      · have hran := h.trs _ (mem_of_lookup htr)
        exact h.emit (.release hchannel (hran.mono (fun _ => id) (List.subset_append_left _ _)))

theorem provenance_forwardResponse (h : Provenance V G N c) :
    Provenance V G N (c.forwardResponse f) :=
  h.emit (.ordinary (ordinary_report _ (by decide) _
    (by decide : ∀ name ∈ ["id", "txid", "data"], OwnName name ∧ name ≠ "tx")))

/-- Every handler keeps the provenance of what the node holds. -/
theorem provenance_dataHandler {cmd : CommandType} (h : Provenance V G N c)
    (huuid : IsUuid d.uuid) (hbrings : Brings G N cmd f)
    (hhandler : c.dataHandler V d cmd f = some c') : Provenance V G N c' := by
  cases cmd
  case codeDelivery =>
      cases hhandler
      exact provenance_processRequest h (hbrings.1 rfl)
  case canCommit =>
      cases hhandler
      exact provenance_processStateChangeCmds h (hbrings.2 rfl)
  case fetchFunction => exact provenance_executeJsCode h huuid hhandler
  case fetchDocument =>
      cases hhandler
      exact ⟨h.rds, h.running, h.trs, h.sent⟩
  case stateChange =>
      cases hhandler
      exact provenance_forwardResponse h
  all_goals
    cases hhandler
    exact h

/-- A packet arrives. -/
theorem provenance_receive {q : Packet} (h : Provenance V G N c) (huuid : IsUuid d.uuid)
    (hbrings : ∀ fields, q.fields = some fields → ∀ cmd f,
      (c.receiver.receiveGossip fields).2 = .handled cmd f → Brings G N cmd f)
    (hreceive : c.receive V d q = some c') : Provenance V G N c' := by
  unfold ComputeNode.receive at hreceive
  split at hreceive
  · cases hreceive
    exact h
  case h_2 fields hfields =>
      have hreceiver : Provenance V G N
          { c with receiver := (c.receiver.receiveGossip fields).1 } :=
        ⟨h.rds, h.running, h.trs, h.sent⟩
      dsimp only at hreceive
      split at hreceive
      · cases hreceive
        exact hreceiver
      · cases hreceive
        exact hreceiver
      case h_3 cmd f hreceived =>
          exact provenance_dataHandler hreceiver huuid (hbrings fields hfields cmd f hreceived)
            hreceive

/-- A document has arrived. -/
theorem provenance_resume {i : Nat} (h : Provenance V G N c) (huuid : IsUuid d.uuid)
    (hresume : c.resume V d i = some c') : Provenance V G N c' := by
  rcases Option.bind_eq_some_iff.mp hresume with ⟨x, hx, hrest⟩
  rcases Option.bind_eq_some_iff.mp hrest with ⟨result, -, hadvance⟩
  rcases h.running x (List.mem_of_getElem? hx) with ⟨hasked, code, hends⟩
  have hleft : Provenance V G N
      { c with dds := eraseKey c.dds x.txid, running := c.running.eraseIdx i } :=
    ⟨h.rds, fun y hy => h.running y (List.mem_of_mem_eraseIdx hy), h.trs, h.sent⟩
  exact provenance_advance hleft huuid hasked (hends result) hadvance

/-! ## One message for one event -/

/-- The commands that a compute node gossips itself. -/
def reported : List CommandType :=
  [.fetchFunction, .verificationResult, .exception, .stateChangeResponse]

/-- What an event sends: nothing, a report or a request, a query under the drawn UUID, or the
state changes of the transaction that may be committed. -/
inductive Replies (d : Draw) (committed : Option String) : List (String × Gossip) → Prop where
  | nothing : Replies d committed []
  | ordinary {channel : String} {cmd : CommandType} {kv : FieldValueMap}
      (h : Gossip.IsOrdinary (.command cmd kv)) (hcmd : cmd ∈ reported) :
      Replies d committed [(channel, .command cmd kv)]
  | query (channel input : String) :
      Replies d committed [(channel, .text ("txid:" ++ d.uuid ++ "|" ++ input))]
  | release {txId : String} (channel stateChangeCmds : String) (h : committed = some txId) :
      Replies d committed [(channel, .text ("txid:" ++ txId ++ "|" ++ stateChangeCmds))]

/-- `c'` has the receiver of `c`, and has replied. -/
structure Replied (c : ComputeNode) (d : Draw) (committed : Option String) (c' : ComputeNode) :
    Prop where
  receiver : c'.receiver = c.receiver
  sent : ∃ out, c'.sent = c.sent ++ out ∧ Replies d committed out

variable {committed : Option String}

theorem Replied.silent (hreceiver : c'.receiver = c.receiver) (hsent : c'.sent = c.sent) :
    Replied c d committed c' := ⟨hreceiver, [], by rw [hsent, List.append_nil], .nothing⟩

/-- A report under names of its own. -/
theorem Replied.report {channel : String} {cmd : CommandType} {kv : FieldValueMap}
    (hreceiver : c'.receiver = c.receiver) (hsent : c'.sent = c.sent ++ [(channel, .command cmd kv)])
    (hcmd : cmd ∈ reported) (hnames : ∀ name ∈ kv.map (·.1), OwnName name ∧ name ≠ "tx") :
    Replied c d committed c' := by
  have hforeign : ∀ cmd ∈ reported, cmd ∉ [.codeDelivery, .canCommit, .txNotification] := by
    decide
  exact ⟨hreceiver, _, hsent, .ordinary (ordinary_report cmd (hforeign cmd hcmd) kv hnames) hcmd⟩

/-- The end of a script reports at most once. -/
theorem replied_finish (outcome : Except String ScriptResult) :
    Replied c d committed (c.finish V rq outcome) := by
  have hraised : ∀ e, Replied c d committed
      (c.emit rq.channelId (.command .exception [("txid", rq.txId), ("e", e)])) := fun e =>
    .report rfl rfl (by decide) (by decide : ∀ name ∈ ["txid", "e"], OwnName name ∧ name ≠ "tx")
  cases outcome with
  | error e => exact hraised e
  | ok r =>
      unfold ComputeNode.finish ComputeNode.report
      cases stoi rq.nodeType with
      | none => exact hraised _
      | some type =>
          simp only [Option.map_some, Option.getD_some]
          split
          · exact .report rfl rfl (by decide)
              (by decide : ∀ name ∈ ["txid", "o", "h"], OwnName name ∧ name ≠ "tx")
          · split
            · exact .report rfl rfl (by decide)
                (by decide : ∀ name ∈ ["txid", "h"], OwnName name ∧ name ≠ "tx")
            · exact .silent rfl rfl

theorem replied_advance {script : Script} (h : c.advance V d rq script = some c') :
    Replied c d committed c' := by
  cases script with
  | done outcome =>
      cases h
      exact replied_finish outcome
  | fetch input resume =>
      rcases Option.map_eq_some_iff.mp h with ⟨first, -, rfl⟩
      exact ⟨rfl, _, rfl, .query _ input⟩

theorem replied_executeJsCode (h : c.executeJsCode V d f = some c') :
    Replied c d committed c' := by
  unfold ComputeNode.executeJsCode at h
  split at h
  · cases h
    exact .silent rfl rfl
  · split at h
    · cases h
      exact .silent rfl rfl
    · exact replied_advance h

theorem replied_processStateChangeCmds :
    Replied c d (some (f.get "txid")) (c.processStateChangeCmds f) := by
  unfold ComputeNode.processStateChangeCmds
  split
  · exact .silent rfl rfl
  · split
    · exact .silent rfl rfl
    · exact ⟨rfl, _, rfl, .release _ _ rfl⟩

/-- Only a commit releases state changes. -/
theorem replied_dataHandler {cmd : CommandType} (h : c.dataHandler V d cmd f = some c') :
    Replied c d (if cmd = .canCommit then some (f.get "txid") else none) c' := by
  cases cmd
  case codeDelivery =>
      cases h
      exact .report rfl rfl (by decide)
        (by decide : ∀ name ∈ ["txid", "h", "tid"], OwnName name ∧ name ≠ "tx")
  case canCommit =>
      cases h
      exact replied_processStateChangeCmds
  case fetchFunction => exact replied_executeJsCode h
  case stateChange =>
      cases h
      exact .report rfl rfl (by decide)
        (by decide : ∀ name ∈ ["id", "txid", "data"], OwnName name ∧ name ≠ "tx")
  all_goals
    cases h
    exact .silent rfl rfl

/-- A packet is dropped, or it passes the receiver and is replied to. -/
inductive Receives (c : ComputeNode) (d : Draw) (q : Packet) (c' : ComputeNode) : Prop where
  | quiet (hreceiver : Receiver.Keeps c.receiver c'.receiver) (hsent : c'.sent = c.sent)
  | handles (fields f : FieldValueMap) (cmd : CommandType) (out : List (String × Gossip))
      (hfields : q.fields = some fields)
      (hpasses : Receiver.Passes c.receiver fields c'.receiver cmd f)
      (hsent : c'.sent = c.sent ++ out)
      (hreplies : Replies d (if cmd = .canCommit then some (f.get "txid") else none) out)

/-- What receiving a packet can do. -/
theorem receives_of_receive {q : Packet} (h : c.receive V d q = some c') : Receives c d q c' := by
  unfold ComputeNode.receive at h
  split at h
  · cases h
    exact .quiet (.refl _) rfl
  case h_2 fields hfields =>
      have hkeeps := c.receiver.receiveGossip_keeps fields
      dsimp only at h
      split at h
      · cases h
        exact .quiet hkeeps rfl
      · cases h
        exact .quiet hkeeps rfl
      case h_3 cmd f hreceived =>
          rcases replied_dataHandler h with ⟨hreceiver, out, hsent, hreplies⟩
          have hreceived' : c'.receiver = (c.receiver.receiveGossip fields).1 := hreceiver
          refine .handles fields f cmd out hfields ?_ hsent hreplies
          rw [hreceived']
          exact Receiver.passes_of_receiveGossip hreceived

theorem replied_resume {i : Nat} (h : c.resume V d i = some c') : Replied c d none c' := by
  rcases Option.bind_eq_some_iff.mp h with ⟨x, -, hrest⟩
  rcases Option.bind_eq_some_iff.mp hrest with ⟨result, -, hadvance⟩
  have hreplied : Replied { c with
      dds := eraseKey c.dds x.txid, running := c.running.eraseIdx i } d none c' :=
    replied_advance hadvance
  exact ⟨hreplied.receiver, hreplied.sent⟩

end DecentralizedCloud.Compute
