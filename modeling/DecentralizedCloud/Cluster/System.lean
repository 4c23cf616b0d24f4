import DecentralizedCloud.Common.JsonText
import DecentralizedCloud.Compute.Provenance
import DecentralizedCloud.Lib.Network
import DecentralizedCloud.Master.Delivery
import DecentralizedCloud.Master.Wire

/-!
# Masters and compute nodes together

Any number of masters and compute nodes as one network. What they gossip are packets with
the texts that `gossip` writes; each node reads the packets of the channels it listens on,
at any time and in any order, and any packet may be lost or arrive again. Clients talk to
the masters over web sockets. The storage nodes, and whoever else gossips, appear as one
more place that sends commands.

Commands that touch no transaction (votes, nodes, checks of stored blocks, answers to state
changes) only leave their message id on a master. What the elections decide is an event of
its own, so the producers and the members of the 21 may change at any time.

`Allowed` lists what the nodes rely on and do not check: drawn ids are new and have the form
in which they are drawn, clients only ask for executions (a master would take any command
from a web socket), the storage node that is named is not one of the masters and compute
nodes, JSON texts arrive as they were written, and nobody else gossips the commands of a
master, though gossip authenticates no one. Where a handler would read a missing member of
a JSON value, or the closing of a block raises, there is no step.
-/

namespace DecentralizedCloud.System

open Machine Master Network Compute

/-! ## Packets -/

/-- What `gossip` draws: a message id and a nonce. -/
structure Stamp where
  msgid : String
  nonce : String
deriving DecidableEq

/-- The packets of some messages; the `k`-th one gets the `k`-th stamp. -/
def inEnvelopes (sender : String) (now : Int) (stamps : List Stamp) (out : List (String × Gossip)) :
    List Packet :=
  out.zipIdx.filterMap fun (message, k) =>
    message.2.msg?.map fun msg =>
      let stamp := (stamps[k]?).getD ⟨"", ""⟩
      { channel := message.1, envelope := ⟨stamp.msgid, sender, now, stamp.nonce⟩, msg }

/-- The packet has the state changes of the transaction, under its own id. A script may also
pass state changes to `fetchDocument`, which sends them under the UUID of a query before
anything is verified: these are not counted. -/
def releases (id : String) (q : Packet) : Bool :=
  ("txid:" ++ id ++ "|").toList.isPrefixOf q.msg.toList

/-! ## A master in the network -/

/-- A request that a master has accepted, with the id and the time of its transaction. -/
structure Request where
  id : String
  packet : CodePacket
  time : Int
deriving DecidableEq

/-- The transaction that a request makes on a master. -/
def Request.transaction (nodeId : String) (r : Request) : Transaction :=
  r.packet.transaction r.id r.time nodeId

structure MasterSite where
  master : Master
  receiver : Receiver
  /-- history: the requests that were accepted, which no step reads -/
  requests : List Request

inductive MasterAction where
  | receive (q : Packet)
  /-- a text of a client -/
  | request (key : String) (timestamp : Int) (guid36 data : String)
  | cleanup
  | closeBlock
  /-- the voting phase has closed -/
  | elected (blockProducers : List Voter) (subscribedTo21 : Bool)

structure MasterEvent where
  env : Env
  stamps : List Stamp
  action : MasterAction

variable (P : Platform) (L : NodeLibrary) (V : Processor)

/-- The request that a message makes, if it is accepted. -/
def accepted (m : Master) (env : Env) : Msg → List Request
  | .exeFunction p => if Accepted P m p then [⟨env.guid, p, env.now⟩] else []
  | _ => []

namespace MasterSite

def channels (s : MasterSite) : List String :=
  ["masternodes", s.master.nodeId] ++ if s.master.subscribedTo21 then ["master21"] else []

/-- A message reaches the machine of the master. -/
def handleMsg (s : MasterSite) (env : Env) (msg : Msg) : Option MasterSite :=
  (handle P s.master ⟨env, msg⟩).map fun m =>
    { s with master := m, requests := s.requests ++ accepted P s.master env msg }

/-- What the receiver lets through reaches the handler of its command. -/
def dispatch (s : MasterSite) (env : Env) : Received → Option MasterSite
  | .dropped | .connection _ _ _ => some s
  | .handled cmd f =>
      match dataHandler cmd f with
      | some (some msg) => s.handleMsg P env msg
      | some none | none => some s

/-- The acknowledgement of a request that is neither too old nor without an id. -/
def acknowledge (s : MasterSite) (env : Env) (guid36 key : String) (timestamp : Int)
    (f : FieldValueMap) : Master :=
  ((messageTime timestamp f).bind fun (time, f) =>
    if s.receiver.appStartupTime > time then none
    else (f.at? "txid").bind fun txid =>
      wsSend env s.master key
        (.ack (P.infoHash (key ++ guid36 ++ f.get "tm")) txid)).getD s.master

def step : Step MasterSite MasterEvent := fun s e =>
  match e.action with
  | .receive q =>
      if q.channel ∈ s.channels then
        match q.fields with
        | none => some s
        | some f =>
            let (receiver, received) := s.receiver.receiveGossip f
            { s with receiver }.dispatch P e.env received
      else none
  | .request key timestamp guid36 data =>
      match getFieldsAndValues data with
      | none => some s
      | some f =>
          let (receiver, received) := s.receiver.receiveRequest P.infoHash
            (fun key id txid => decide (e.env.deliver key (.ack id txid) ≠ .raised)) guid36 key
            timestamp f
          { s with receiver, master := s.acknowledge P e.env guid36 key timestamp f }.dispatch P
            e.env received
  | .cleanup => s.handleMsg P e.env .cleanup
  | .closeBlock => s.handleMsg P e.env .closeBlock
  | .elected blockProducers subscribedTo21 =>
      some { s with master := { s.master with blockProducers, subscribedTo21 } }

/-- The messages that a step has sent to other nodes. -/
def outgoing (s s' : MasterSite) : List (String × Gossip) :=
  (newEffects s.master s'.master).filterMap (Effect.gossip? L)

end MasterSite

/-! ## A compute node in the network -/

inductive ComputeAction where
  | receive (q : Packet)
  | resume (i : Nat)

structure ComputeEvent where
  now : Int
  stamps : List Stamp
  draw : Draw
  action : ComputeAction

def computeStep : Step ComputeNode ComputeEvent := fun c e =>
  match e.action with
  | .receive q => if q.channel = c.receiver.nodeId then c.receive V e.draw q else none
  | .resume i => c.resume V e.draw i

/-! ## The network -/

inductive Place (n m : Nat) where
  | master (i : Fin n)
  | compute (j : Fin m)
  | elsewhere
deriving DecidableEq

variable {n m : Nat}

@[reducible] def Site : Place n m → Type
  | .master _ => MasterSite
  | .compute _ => ComputeNode
  | .elsewhere => Unit

/-- What is gossiped from elsewhere. -/
structure OutsideEvent where
  sender : String
  now : Int
  stamps : List Stamp
  out : List (String × Gossip)

@[reducible] def SiteEvent : Place n m → Type
  | .master _ => MasterEvent
  | .compute _ => ComputeEvent
  | .elsewhere => OutsideEvent

def MasterAction.packet? : MasterAction → Option Packet
  | .receive q => some q
  | .request _ _ _ _ | .cleanup | .closeBlock | .elected _ _ => none

def ComputeAction.packet? : ComputeAction → Option Packet
  | .receive q => some q
  | .resume _ => none

/-- The messages of a compute node's step. -/
def computeOutgoing (c c' : ComputeNode) : List (String × Gossip) := c'.sent.drop c.sent.length

def protocol : Protocol (Place n m) Site SiteEvent Packet where
  step := fun
    | .master _ => MasterSite.step P
    | .compute _ => computeStep V
    | .elsewhere => fun _ _ => some ()
  takes := fun
    | .master _ => fun e => e.action.packet?
    | .compute _ => fun e => e.action.packet?
    | .elsewhere => fun _ => none
  sends := fun
    | .master _ => fun s e s' =>
        inEnvelopes s.master.nodeId e.env.now e.stamps (s.outgoing L s')
    | .compute _ => fun c e c' =>
        inEnvelopes c.receiver.nodeId e.now e.stamps (computeOutgoing c c')
    | .elsewhere => fun _ e _ => inEnvelopes e.sender e.now e.stamps e.out

theorem protocol_step_master (i : Fin n) :
    (protocol P L V).step (.master i : Place n m) = MasterSite.step P := rfl

theorem protocol_step_compute (j : Fin m) :
    (protocol P L V).step (.compute j : Place n m) = computeStep V := rfl

abbrev Cloud (n m : Nat) := Net (Site (n := n) (m := m)) Packet

namespace Cloud

def masters (S : Cloud n m) (i : Fin n) : MasterSite := S.node (.master i)

def computes (S : Cloud n m) (j : Fin m) : ComputeNode := S.node (.compute j)

/-- The ids under which transactions were requested. -/
def Requested (S : Cloud n m) (id : String) : Prop := ∃ i, ∃ r ∈ (S.masters i).requests, r.id = id

instance (S : Cloud n m) (id : String) : Decidable (S.Requested id) :=
  inferInstanceAs (Decidable (∃ i, ∃ r ∈ (S.masters i).requests, r.id = id))

end Cloud

/-! ## What the nodes rely on -/

/-- The ids of the nodes, which are also the channels that they listen on. -/
structure Names (n m : Nat) where
  master : Fin n → String
  compute : Fin m → String
  master_chars : ∀ i, ∀ c ∈ (master i).toList, c.isDigit ∨ c.isLower
  compute_chars : ∀ j, ∀ c ∈ (compute j).toList, c.isDigit ∨ c.isLower
  compute_injective : Function.Injective compute

/-- A channel that a master or a compute node may listen on. -/
def Names.IsNode (names : Names n m) (channel : String) : Prop :=
  channel = "masternodes" ∨ channel = "master21" ∨ (∃ i, names.master i = channel) ∨
    ∃ j, names.compute j = channel

/-- A storage node is none of them, under the name that arrives. -/
def Names.IsStorage (names : Names n m) (node : String) : Prop := ¬names.IsNode node

/-- The form of the drawn id of a transaction. -/
def IsGuid (s : String) : Prop := ∀ c ∈ s.toList, c.isLower

structure Stamped (now : Int) (stamps : List Stamp) : Prop where
  now : -(2 ^ 63) ≤ now ∧ now < 2 ^ 63
  msgid : ∀ stamp ∈ stamps, ∀ c ∈ stamp.msgid.toList, c.isLower
  nonce : ∀ stamp ∈ stamps, ∀ c ∈ stamp.nonce.toList, c.isDigit

/-- The transaction in a message is read back as it was written. -/
def Legible : Effect → Prop
  | .gossip _ (.txNotification _ j) | .gossip _ (.exception j) =>
      P.parse (receivedValue (L.dump j)) = some j
  | _ => True

variable (names : Names n m)

/-- What a master relies on in an event. -/
structure AllowedMaster (S : Cloud n m) (i : Fin n) (e : MasterEvent) : Prop where
  stamped : Stamped e.env.now e.stamps
  /-- the DHT and the registry know storage nodes -/
  designates : KnowsStorage (fun node => names.IsStorage (receivedValue node)) e.env
  /-- clients ask for executions only: an assumption about them, as the handlers take every
  command from a web socket -/
  executes : ∀ f ∈ (match e.action with
      | .request _ _ _ data => getFieldsAndValues data
      | _ => none), (f.at? "c").bind (fun c => CommandType.ofCode (atoi c)) = some .exeFunction
  /-- the id of a new transaction is new to all masters -/
  fresh : ∀ t ∈ (S.masters i).step P e, ∀ r ∈ t.requests.drop (S.masters i).requests.length,
    IsGuid r.id ∧ ¬S.Requested r.id ∧ (S.masters i).master.transactions.find r.id = none
  /-- what is sent as JSON has no character that the way to the other nodes changes -/
  legible : ∀ t ∈ (S.masters i).step P e, ∀ effect ∈ newEffects (S.masters i).master t.master,
    Legible P L effect

structure AllowedCompute (e : ComputeEvent) : Prop where
  stamped : Stamped e.now e.stamps
  uuid : IsUuid e.draw.uuid

structure AllowedOutside (e : OutsideEvent) : Prop where
  stamped : Stamped e.now e.stamps
  sender : ∀ c ∈ e.sender.toList, c.isDigit ∨ c.isLower
  /-- an assumption about the other nodes: nothing keeps them from gossiping `canCommit` -/
  ordinary : ∀ message ∈ e.out, message.2.IsOrdinary

def Allowed (S : Cloud n m) : ((p : Place n m) × SiteEvent p) → Prop
  | ⟨.master i, e⟩ => AllowedMaster P L names S i e
  | ⟨.compute _, e⟩ => AllowedCompute e
  | ⟨.elsewhere, e⟩ => AllowedOutside e

/-- Nothing has happened yet. -/
structure Start (S : Cloud n m) : Prop where
  sent : S.sent = []
  nodeId : ∀ i, (S.masters i).master.nodeId = names.master i
  masterReceiver : ∀ i, (S.masters i).receiver.nodeId = names.master i
  requests : ∀ i, (S.masters i).requests = []
  unknown : ∀ i id, Unknown id (S.masters i).master
  queueOut : ∀ i, (S.masters i).master.queueOut = []
  blocks : ∀ i, (S.masters i).master.blocks = []
  effects : ∀ i, (S.masters i).master.sent = []
  node : ∀ i, (S.masters i).master.stateChangeStorageNode = ""
  computeReceiver : ∀ j, (S.computes j).receiver.nodeId = names.compute j
  rds : ∀ j, (S.computes j).rds = []
  trs : ∀ j, (S.computes j).trs = []
  running : ∀ j, (S.computes j).running = []
  messages : ∀ j, (S.computes j).sent = []

/-! ## What storage nodes rely on -/

/-- The packet is a text with an id in front, not a command. -/
def isText (q : Packet) : Bool := "txid:".toList.isPrefixOf q.msg.toList

/-- The block in a message is read back as it was written. -/
def LegibleBlock (decode : String → Option Json) : Effect → Prop
  | .gossip _ (.closeBlock b _ _) =>
      decode (receivedValue (L.base64_encodeString (L.dump b.toJson))) = some b.toJson
  | _ => True

/-- The message neither closes a block nor tells a storage node to change its state. -/
def Harmless : String × Gossip → Prop
  | (channel, .command cmd _) => cmd ≠ .closeBlock ∧ (cmd = .stateChange → names.IsNode channel)
  | (_, .text _) => True

/-- Blocks are legible, and nobody but a master closes them: neither a script, which may put any
text behind the id of its query or into its state changes, nor any other node. -/
def Undisturbed (decode : String → Option Json) (S : Cloud n m) :
    ((p : Place n m) × SiteEvent p) → Prop
  | ⟨.master i, e⟩ => ∀ t ∈ (S.masters i).step P e,
      ∀ effect ∈ newEffects (S.masters i).master t.master, LegibleBlock L decode effect
  | ⟨.compute j, e⟩ => ∀ c' ∈ computeStep V (S.computes j) e,
      ∀ q ∈ inEnvelopes (S.computes j).receiver.nodeId e.now e.stamps
        (computeOutgoing (S.computes j) c'), isText q = true → q.command? ≠ some .closeBlock
  | ⟨.elsewhere, e⟩ => ∀ message ∈ e.out, Harmless names message

variable {L} in
theorem LegibleBlock.imp {decode decode' : String → Option Json} {effect : Effect}
    (hdecode : ∀ text j, decode text = some j → decode' text = some j)
    (h : LegibleBlock L decode effect) : LegibleBlock L decode' effect := by
  unfold LegibleBlock at h ⊢
  split at h
  case h_1 => exact hdecode _ _ h
  case h_2 => exact h

variable {P L V names} in
/-- What one reader of blocks reads, another one that knows as many texts reads too. -/
theorem Undisturbed.imp {decode decode' : String → Option Json} {S : Cloud n m}
    {e : (p : Place n m) × SiteEvent p}
    (hdecode : ∀ text j, decode text = some j → decode' text = some j)
    (h : Undisturbed P L V names decode S e) : Undisturbed P L V names decode' S e := by
  rcases e with ⟨p, e⟩
  cases p with
  | master i =>
      intro t ht effect heffect
      exact LegibleBlock.imp hdecode (h t ht effect heffect)
  | compute j | elsewhere => exact h

/-! ## What a step of a master does -/

variable {P L V} in
theorem masterStep_of_moves {S S' : Cloud n m} {i : Fin n} {e : MasterEvent}
    (h : (protocol P L V).Moves S (.master i) e S') :
    (S.masters i).step P e = some (S'.masters i) := by
  have hstep := h.step
  rw [protocol_step_master] at hstep
  exact hstep

variable {P L V} in
theorem computeStep_of_moves {S S' : Cloud n m} {j : Fin m} {e : ComputeEvent}
    (h : (protocol P L V).Moves S (.compute j) e S') :
    computeStep V (S.computes j) e = some (S'.computes j) := by
  have hstep := h.step
  rw [protocol_step_compute] at hstep
  exact hstep

/-- `m'` has sent some acknowledgements more than `m`, and holds the same. -/
structure Acknowledged (m m' : Master) : Prop where
  nodeId : m'.nodeId = m.nodeId
  transactions : m'.transactions = m.transactions
  queueOut : m'.queueOut = m.queueOut
  blocks : m'.blocks = m.blocks
  stateChangeStorageNode : m'.stateChangeStorageNode = m.stateChangeStorageNode
  sent : ∃ acks, m'.sent = m.sent ++ acks ∧
    ∀ effect ∈ acks, ∃ key id txid, effect = .send key (.ack id txid)

theorem Acknowledged.refl (m : Master) : Acknowledged m m :=
  ⟨rfl, rfl, rfl, rfl, rfl, [], by simp, by simp⟩

variable {P} {s s' : MasterSite} {e : MasterEvent} {msg : Msg}

/-- An acknowledgement changes nothing but what was sent. -/
theorem acknowledged_acknowledge {guid36 key : String} {timestamp : Int} {f : FieldValueMap} :
    Acknowledged s.master (s.acknowledge P e.env guid36 key timestamp f) := by
  have hsend : ∀ {key id txid : String} {m : Master},
      wsSend e.env s.master key (.ack id txid) = some m → Acknowledged s.master m := by
    intro key id txid m hm
    unfold wsSend at hm
    split at hm <;> cases hm
    · exact ⟨rfl, rfl, rfl, rfl, rfl, [_], rfl, by simp⟩
    · exact .refl _
  unfold MasterSite.acknowledge
  generalize hacked : (messageTime timestamp f).bind _ = acked
  cases acked with
  | none => exact .refl _
  | some m =>
      rcases Option.bind_eq_some_iff.mp hacked with ⟨⟨time, f'⟩, -, hrest⟩
      dsimp only at hrest
      split at hrest
      · cases hrest
      · rcases Option.bind_eq_some_iff.mp hrest with ⟨txid, -, hm⟩
        exact hsend hm

/-- Where a message to the machine of a master comes from. -/
inductive Reaches (s : MasterSite) (e : MasterEvent) (receiver : Receiver) : Msg → Prop where
  | packet {q : Packet} {fields f : FieldValueMap} {cmd : CommandType} {msg : Msg}
      (haction : e.action = .receive q) (hchannel : q.channel ∈ s.channels)
      (hfields : q.fields = some fields)
      (hpasses : Receiver.Passes s.receiver fields receiver cmd f)
      (hmsg : dataHandler cmd f = some (some msg)) : Reaches s e receiver msg
  | request {key guid36 data : String} {timestamp : Int} {fields f : FieldValueMap}
      {cmd : CommandType} {msg : Msg} (haction : e.action = .request key timestamp guid36 data)
      (hfields : getFieldsAndValues data = some fields)
      (hcommand : (fields.at? "c").bind (fun c => CommandType.ofCode (atoi c)) = some cmd)
      (hmsg : dataHandler cmd f = some (some msg)) : Reaches s e receiver msg
  | cleanup : Reaches s e receiver .cleanup
  | closeBlock : Reaches s e receiver .closeBlock

/-- A step of a master: apart from an acknowledgement, from an election and from message ids
that are noted, nothing happens, or one message reaches the machine. -/
inductive MasterMoves (P : Platform) (s : MasterSite) (e : MasterEvent) :
    MasterSite → Prop where
  | quiet {s' : MasterSite} (hmaster : Acknowledged s.master s'.master)
      (hreceiver : Receiver.Keeps s.receiver s'.receiver)
      (hrequests : s'.requests = s.requests) : MasterMoves P s e s'
  | handles {s' : MasterSite} {m : Master} {msg : Msg} (hmaster : Acknowledged s.master m)
      (hreceiver : Receiver.Keeps s.receiver s'.receiver)
      (hreaches : Reaches s e s'.receiver msg) (hhandle : handle P m ⟨e.env, msg⟩ = some s'.master)
      (hrequests : s'.requests = s.requests ++ accepted P m e.env msg) : MasterMoves P s e s'

/-- What the receiver has let through is handled, or changes nothing. -/
theorem dispatch_cases {s₁ : MasterSite} {received : Received}
    (h : s₁.dispatch P e.env received = some s') :
    s' = s₁ ∨ ∃ cmd f msg m, received = .handled cmd f ∧ dataHandler cmd f = some (some msg) ∧
      handle P s₁.master ⟨e.env, msg⟩ = some m ∧
      s' = { s₁ with master := m, requests := s₁.requests ++ accepted P s₁.master e.env msg } := by
  unfold MasterSite.dispatch at h
  split at h
  · exact .inl (Option.some.inj h).symm
  · exact .inl (Option.some.inj h).symm
  case h_3 cmd f =>
      split at h
      case h_1 msg hmsg =>
          rcases Option.map_eq_some_iff.mp h with ⟨m, hm, rfl⟩
          exact .inr ⟨cmd, f, msg, m, rfl, hmsg, hm, rfl⟩
      · exact .inl (Option.some.inj h).symm
      · exact .inl (Option.some.inj h).symm

/-- What a step of a master in the system can do. -/
theorem masterMoves_of_step (h : s.step P e = some s') : MasterMoves P s e s' := by
  unfold MasterSite.step at h
  split at h
  -- a packet
  case h_1 q haction =>
      split at h
      case isTrue hchannel =>
          split at h
          case h_1 =>
              cases h
              exact .quiet (.refl _) (.refl _) rfl
          case h_2 fields hfields =>
              have hkeeps := s.receiver.receiveGossip_keeps fields
              rcases dispatch_cases h with rfl | ⟨cmd, f, msg, m, hreceived, hmsg, hm, rfl⟩
              · exact .quiet (.refl _) hkeeps rfl
              · exact .handles (.refl _) hkeeps (.packet haction hchannel hfields
                  (Receiver.passes_of_receiveGossip hreceived) hmsg) hm rfl
      case isFalse => cases h
  -- a text of a client; the receiver of a request is the same afterwards
  case h_2 key timestamp guid36 data haction =>
      split at h
      case h_1 =>
          cases h
          exact .quiet (.refl _) (.refl _) rfl
      case h_2 fields hfields =>
          dsimp only at h
          rw [Receiver.receiveRequest_fst] at h
          rcases dispatch_cases h with rfl | ⟨cmd, f, msg, m, hreceived, hmsg, hm, rfl⟩
          · exact .quiet acknowledged_acknowledge (.refl _) rfl
          · exact .handles acknowledged_acknowledge (.refl _) (.request haction hfields
              (Receiver.command_of_receiveRequest hreceived) hmsg) hm rfl
  case h_3 =>
      rcases Option.map_eq_some_iff.mp h with ⟨m, hm, rfl⟩
      exact .handles (.refl _) (.refl _) .cleanup hm rfl
  case h_4 =>
      rcases Option.map_eq_some_iff.mp h with ⟨m, hm, rfl⟩
      exact .handles (.refl _) (.refl _) .closeBlock hm rfl
  -- an election touches no transaction
  case h_5 =>
      cases h
      exact .quiet ⟨rfl, rfl, rfl, rfl, rfl, [], by simp, by simp⟩ (.refl _) rfl

/-! ## An example -/

section Decide

variable {names}

instance (channel : String) : Decidable (names.IsNode channel) :=
  inferInstanceAs (Decidable (_ ∨ _ ∨ _ ∨ _))

instance (node : String) : Decidable (names.IsStorage node) := inferInstanceAs (Decidable (¬_))

instance (s : String) : Decidable (IsGuid s) := inferInstanceAs (Decidable (∀ c ∈ s.toList, _))

instance (now : Int) (stamps : List Stamp) : Decidable (Stamped now stamps) :=
  decidable_of_iff ((-(2 ^ 63) ≤ now ∧ now < 2 ^ 63) ∧
      (∀ stamp ∈ stamps, ∀ c ∈ stamp.msgid.toList, c.isLower) ∧
      ∀ stamp ∈ stamps, ∀ c ∈ stamp.nonce.toList, c.isDigit)
    ⟨fun h => ⟨h.1, h.2.1, h.2.2⟩, fun h => ⟨h.1, h.2, h.3⟩⟩

instance (P : Platform) (L : NodeLibrary) : ∀ effect, Decidable (Legible P L effect)
  | .gossip _ (.txNotification _ j) | .gossip _ (.exception j) =>
      inferInstanceAs (Decidable (P.parse (receivedValue (L.dump j)) = some j))
  | .gossip _ (.codeDelivery ..) | .gossip _ (.canCommit ..) | .gossip _ (.closeBlock ..)
  | .send _ _ | .dhtPut _ _ _ => isTrue trivial

instance (N : String → Prop) [DecidablePred N] (env : Env) : Decidable (KnowsStorage N env) :=
  decidable_of_iff (_ ∧ _) ⟨fun h => ⟨h.1, h.2⟩, fun h => ⟨h.1, h.2⟩⟩

instance (S : Cloud n m) (i : Fin n) (e : MasterEvent) :
    Decidable (AllowedMaster P L names S i e) :=
  decidable_of_iff
    (_ ∧ _ ∧ (∀ f ∈ (match e.action with
        | .request _ _ _ data => getFieldsAndValues data
        | _ => none), (f.at? "c").bind (fun c => CommandType.ofCode (atoi c)) =
          some .exeFunction) ∧
      (∀ t ∈ (S.masters i).step P e, ∀ r ∈ t.requests.drop (S.masters i).requests.length,
        IsGuid r.id ∧ ¬S.Requested r.id ∧ (S.masters i).master.transactions.find r.id = none) ∧
      ∀ t ∈ (S.masters i).step P e, ∀ effect ∈ newEffects (S.masters i).master t.master,
        Legible P L effect)
    ⟨fun h => ⟨h.1, h.2.1, h.2.2.1, h.2.2.2.1, h.2.2.2.2⟩,
      fun h => ⟨h.1, h.2, h.3, h.4, h.5⟩⟩

instance (e : ComputeEvent) : Decidable (AllowedCompute e) :=
  decidable_of_iff (_ ∧ _) ⟨fun h => ⟨h.1, h.2⟩, fun h => ⟨h.1, h.2⟩⟩

instance (e : OutsideEvent) : Decidable (AllowedOutside e) :=
  decidable_of_iff (_ ∧ (∀ c ∈ e.sender.toList, c.isDigit ∨ c.isLower) ∧
      ∀ message ∈ e.out, message.2.IsOrdinary)
    ⟨fun h => ⟨h.1, h.2.1, h.2.2⟩, fun h => ⟨h.1, h.2, h.3⟩⟩

instance (S : Cloud n m) :
    ∀ ev : (p : Place n m) × SiteEvent p, Decidable (Allowed P L names S ev)
  | ⟨.master i, e⟩ => inferInstanceAs (Decidable (AllowedMaster P L names S i e))
  | ⟨.compute _, e⟩ => inferInstanceAs (Decidable (AllowedCompute e))
  | ⟨.elsewhere, e⟩ => inferInstanceAs (Decidable (AllowedOutside e))

instance (decode : String → Option Json) : ∀ effect, Decidable (LegibleBlock L decode effect)
  | .gossip _ (.closeBlock b _ _) => inferInstanceAs (Decidable (decode _ = some b.toJson))
  | .gossip _ (.txNotification ..) | .gossip _ (.codeDelivery ..) | .gossip _ (.canCommit ..)
  | .gossip _ (.exception ..) | .send _ _ | .dhtPut _ _ _ => isTrue trivial

instance : ∀ message, Decidable (Harmless names message)
  | (_, .command _ _) => inferInstanceAs (Decidable (_ ∧ _))
  | (_, .text _) => isTrue trivial

instance (decode : String → Option Json) (S : Cloud n m) :
    ∀ ev : (p : Place n m) × SiteEvent p, Decidable (Undisturbed P L V names decode S ev)
  | ⟨.master _, _⟩ => inferInstanceAs (Decidable (∀ t ∈ (_ : Option MasterSite), _))
  | ⟨.compute _, _⟩ => inferInstanceAs (Decidable (∀ c' ∈ (_ : Option ComputeNode), _))
  | ⟨.elsewhere, e⟩ => inferInstanceAs (Decidable (∀ message ∈ e.out, Harmless names message))

end Decide

namespace Sample

def request : CodePacket where
  utxid := "u"
  htxid := DecentralizedCloud.Sample.digest "keyg100"
  tenantId := "t"
  code := "f"
  inputs := ""
  base64signature := "signed"
  base64publicKey := "key"

/-- The only JSON text of a transaction is the one of the request. -/
def platform : Platform :=
  let j := (request.transaction "tx" 100 "m1").toJson
  { DecentralizedCloud.Sample.platform [] with
    parse := fun text => if text = Json.write j then some j else none }

def library : NodeLibrary where
  base64_decode := id
  base64_encodeString := id
  dump := Json.write
  isPublicKey _ := false
  verifyX509Signature _ _ _ := true

/-- Every script ends at once. -/
def processor : Processor where
  json := Json.library
  base64_decode := id
  cmdBuilderScript := ""
  run _ _ _ := .done (.ok ⟨"o", "c:6|tid:t|cmds:3 e30="⟩)
  refusal _ _ := ""
  stoiException _ := ""
  hashCode := id

def first : Fin 2 := ⟨0, Nat.zero_lt_two⟩

/-- Two masters and a compute node. -/
def nodes : Names 2 1 where
  master i := if i = first then "m1" else "m2"
  compute _ := "c1"
  master_chars := by decide
  compute_chars := by decide
  compute_injective _ _ _ := Subsingleton.elim _ _

def start : Cloud 2 1 where
  node := fun
    | .master i =>
        { master := { DecentralizedCloud.Sample.master with
            nodeId := nodes.master i, stateChangeStorageNode := "" }
          receiver := ⟨nodes.master i, 0, [], fun _ => true⟩
          requests := [] }
    | .compute j => ⟨⟨nodes.compute j, 0, [], handled⟩, [], [], [], [], []⟩
    | .elsewhere => ()
  sent := []

def env : Env := { DecentralizedCloud.Sample.env with
  guid := "tx"
  nodes := {
    numberOfVerifiers := 1, verifierKeys := ["c1"]
    numberOfStorageNodes := 2, storageKeys := ["s1", "s2"] } }

def atMaster (i : Fin 2) (msgids : List String) (action : MasterAction) :
    (p : Place 2 1) × SiteEvent p := ⟨.master i, env, msgids.map fun id => ⟨id, "1"⟩, action⟩

def atCompute (msgid uuid : String) (action : ComputeAction) : (p : Place 2 1) × SiteEvent p :=
  ⟨.compute ⟨0, Nat.zero_lt_one⟩, ⟨100, [⟨msgid, "1"⟩], ⟨uuid, 0⟩, action⟩⟩

def outside (sender : String) (msgids : List String) (out : List (String × Gossip)) :
    (p : Place 2 1) × SiteEvent p :=
  ⟨.elsewhere, ⟨sender, 100, msgids.map fun id => ⟨id, "1"⟩, out⟩⟩

/-- The `k`-th packet that was sent. -/
def packet (S : Cloud 2 1) (k : Nat) : Packet := (S.sent[k]?).getD ⟨"", ⟨"", "", 0, ""⟩, ""⟩

def verifierIds : List String :=
  ["f", "g", "h", "i", "j", "k", "l", "m", "n", "o", "p", "q", "r"]

/-- The request is run and verified, and its state changes are released. -/
def choices : List (Cloud 2 1 → (p : Place 2 1) × SiteEvent p) :=
  [ fun _ => atMaster first ["a", "b"] (.request "key" 100 "g" "c:19|txid:u|h:f|tid:t|i:|s:signed"),
    fun S => atCompute "c" "0-0" (.receive (packet S 1)),
    fun _ => outside "s2" ["d"] [("c1", .command .fetchFunction
      [("txid", "0-0"), ("data", Json.write (.obj [("code", .str "function f()")]))])],
    fun S => atCompute "e" "0-1" (.receive (packet S 3)),
    fun _ => outside "v" verifierIds (List.replicate 13
      ("master21", .command .verificationResult [("txid", "tx"), ("h", "o")])) ] ++
  (List.range 13).map (fun k S => atMaster first ["s"] (.receive (packet S (5 + k)))) ++
  [ fun S => atMaster first ["s"] (.receive (packet S 4)),
    fun S => atCompute "t" "0-2" (.receive (packet S 18)) ]

/-- Two producers are elected, and the first one closes the block. -/
def closing : List (Cloud 2 1 → (p : Place 2 1) × SiteEvent p) :=
  [ fun _ => atMaster first [] (.elected DecentralizedCloud.Sample.producers true),
    fun _ => atMaster first ["u"] .closeBlock ]

/-- The packet with the state changes of the transaction. -/
def release : Packet := ⟨"s2", ⟨"t", "c1", 100, "1"⟩, "txid:tx|c:6|tid:t|cmds:3 e30="⟩

/-- The transaction of the request after it was run and verified. -/
def verified : Transaction :=
  { request.transaction "tx" 100 "m1" with
    computeNodeId := "c1", lastValidHash := "o", output := "o" }

/-- The block with the transaction. -/
def block : Block := makeBlock platform env 1 "h0" [verified]

/-- The only text that is read as a block is the one of this block. -/
def decodeBlock (text : String) : Option Json :=
  if text = Json.write block.toJson then some block.toJson else none

theorem wellFormed_block : block.toJson.WellFormed := ⟨by decide +kernel, by decide +kernel⟩

theorem parse_of_decodeBlock {text : String} {j : Json} (h : decodeBlock text = some j) :
    Json.parse text = some j := by
  rcases Option.ite_none_right_eq_some.mp h with ⟨rfl, hj⟩
  rw [Json.parse_write wellFormed_block, hj]

/-- The packet with the block. -/
def blockClosed : Packet :=
  ⟨"s1", ⟨"u", "m1", 100, "1"⟩,
    (((Message.closeBlock block "m1" "bTE=").gossip library).msg?).getD ""⟩

/-- The state changes are sent, and the transaction is held and queued. -/
def check (S : Cloud 2 1) : Bool :=
  release ∈ S.sent && ((S.masters first).master.transactions.find "tx").any (·.code = "f") &&
    (S.masters first).master.queueOut.any fun tx => tx.txId = "tx" && tx.code = "f"

theorem start_start : Start nodes start where
  sent := rfl
  nodeId _ := rfl
  masterReceiver _ := rfl
  requests _ := rfl
  unknown _ _ := rfl
  queueOut _ := rfl
  blocks _ := rfl
  effects _ := rfl
  node _ := rfl
  computeReceiver _ := rfl
  rds _ := rfl
  trs _ := rfl
  running _ := rfl
  messages _ := rfl

/-- The condition on the steps of the example. -/
abbrev ok (S : Cloud 2 1) (e : (p : Place 2 1) × SiteEvent p) : Prop :=
  Allowed platform library nodes S e ∧ Undisturbed platform library processor nodes decodeBlock S e

/-- The state changes are sent, and the transaction is held and queued until the block with it is
closed. -/
def closes (S : Cloud 2 1) : Bool :=
  check S && (follow (protocol platform library processor).next ok S closing).any
    fun S' => blockClosed ∈ S'.sent

theorem follow_choices :
    (follow (protocol platform library processor).next ok start choices).any closes = true := by
  decide +kernel

theorem run_closing : ∃ es es' S S',
    Trace (protocol platform library processor).next ok start es S ∧ check S = true ∧
      Trace (protocol platform library processor).next ok S es' S' ∧ blockClosed ∈ S'.sent := by
  have hrun := exists_trace_of_follow choices closes follow_choices
  rcases hrun with ⟨es, S, htrace, hcloses⟩
  rw [closes, Bool.and_eq_true] at hcloses
  rcases hcloses with ⟨hcheck, hclosing⟩
  have hrun' := exists_trace_of_follow closing _ hclosing
  rcases hrun' with ⟨es', S', htrace', hsent⟩
  exact ⟨es, es', S, S', htrace, hcheck, htrace', of_decide_eq_true hsent⟩

theorem run_choices : ∃ es S,
    Trace (protocol platform library processor).next (Allowed platform library nodes) start es S ∧
      check S = true := by
  rcases run_closing with ⟨es, -, S, -, htrace, hcheck, -, -⟩
  exact ⟨es, S, htrace.imp fun _ _ h => h.1, hcheck⟩

end Sample

end DecentralizedCloud.System
