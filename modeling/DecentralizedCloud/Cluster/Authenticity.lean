import DecentralizedCloud.Cluster.System
import DecentralizedCloud.Master.BlockFrame

/-!
# Only what clients have asked for

A client signs its request, and the master that accepts it is the only one to check the
signature. From there the request is copied: to the other masters, to verifiers, into
results' transactions, into blocks. In every run of the network every transaction that is
held, queued, in a block or on its way either names no function (an exception has taken it
out, or only results have arrived) or has the contents of a request that a client has signed
(`sound_run`).
-/

namespace DecentralizedCloud.System

open Machine Master Network Compute

variable {n m : Nat} (P : Platform) (L : NodeLibrary) (V : Processor) (names : Names n m)

/-! ## Soundness of nodes and packets -/

/-- The transaction has the contents of a request that was accepted. -/
def Cloud.Genuine (S : Cloud n m) (tx : Transaction) : Prop :=
  ∃ i, ∃ r ∈ (S.masters i).requests, SameRequest (r.transaction (names.master i)) tx

/-- The client has signed the request. -/
def Request.IsSigned (r : Request) : Prop :=
  P.verifyEd25519Signature r.packet.message r.packet.base64publicKey r.packet.base64signature =
    true

structure MasterSound (S : Cloud n m) (i : Fin n) (s : MasterSite) : Prop where
  nodeId : s.master.nodeId = names.master i
  receiver : s.receiver.nodeId = names.master i
  contents : Contents (S.Genuine names) (fun node => names.IsStorage (receivedValue node)) s.master
  requests : ∀ r ∈ s.requests, IsGuid r.id ∧ r.IsSigned P

structure ComputeSound (S : Cloud n m) (j : Fin m) (c : ComputeNode) : Prop where
  receiver : c.receiver.nodeId = names.compute j
  provenance : Provenance V (S.Genuine names) names.IsStorage c

def SiteSound (S : Cloud n m) : ∀ p : Place n m, Site p → Prop
  | .master i => MasterSound P names S i
  | .compute j => ComputeSound V names S j
  | .elsewhere => fun _ => True

/-- A packet that does not speak for a master: it is ordinary, or goes to a storage node. -/
inductive Plain (q : Packet) : Prop where
  | ordinary (g : Gossip) (hcarries : q.Carries g) (hg : g.IsOrdinary)
  | storage (hchannel : names.IsStorage q.channel)

/-- Where a packet comes from. -/
inductive Origin (S : Cloud n m) (q : Packet) : Prop where
  | master (message : Message) (hcarries : q.Carries (message.gossip L))
      (hvouched : VouchedEffect (S.Genuine names)
        (fun node => names.IsStorage (receivedValue node)) (.gossip q.channel message))
      (hlegible : Legible P L (.gossip q.channel message))
  | plain (h : Plain names q)

structure PacketSound (S : Cloud n m) (q : Packet) : Prop where
  envelope : q.envelope.IsGenerated
  origin : Origin P L names S q

variable {P L V names} {S S' : Cloud n m} {q : Packet} {i : Fin n} {j : Fin m}

/-! ## More requests -/

/-- No request is forgotten. -/
def Cloud.Extends (S S' : Cloud n m) : Prop :=
  ∀ i, (S.masters i).requests ⊆ (S'.masters i).requests

theorem aboutRequest_genuine (S : Cloud n m) : AboutRequest (S.Genuine names) := by
  rintro tx tx' hsame ⟨i, r, hr, hgenuine⟩
  exact ⟨i, r, hr, ⟨hsame.txId.trans hgenuine.txId, hsame.timestamp.trans hgenuine.timestamp,
    hsame.tenantId.trans hgenuine.tenantId, hsame.masterNodeId.trans hgenuine.masterNodeId,
    hsame.code.trans hgenuine.code, hsame.signature.trans hgenuine.signature,
    hsame.publicKey.trans hgenuine.publicKey, hsame.input.trans hgenuine.input⟩⟩

theorem Cloud.Extends.genuine (h : S.Extends S') (tx : Transaction) (htx : S.Genuine names tx) :
    S'.Genuine names tx := by
  rcases htx with ⟨i, r, hr, hsame⟩
  exact ⟨i, r, h i hr, hsame⟩

theorem siteSound_mono (h : S.Extends S') : ∀ {p : Place n m} {t : Site p},
    SiteSound P V names S p t → SiteSound P V names S' p t
  | .master _, _, ht =>
      ⟨ht.nodeId, ht.receiver, contents_mono h.genuine ht.contents, ht.requests⟩
  | .compute _, _, ht => ⟨ht.receiver, ht.provenance.mono h.genuine⟩
  | .elsewhere, _, _ => trivial

theorem packetSound_mono (h : S.Extends S') (hq : PacketSound P L names S q) :
    PacketSound P L names S' q := by
  refine ⟨hq.envelope, ?_⟩
  cases hq.origin with
  | master message hcarries hvouched hlegible =>
      exact .master message hcarries (vouchedEffect_mono h.genuine hvouched) hlegible
  | plain h => exact .plain h

/-! ## Packets and their envelopes -/

theorem mem_inEnvelopes {sender : String} {now : Int} {stamps : List Stamp}
    {out : List (String × Gossip)} (h : q ∈ inEnvelopes sender now stamps out) :
    ∃ g, (q.channel, g) ∈ out ∧ q.Carries g ∧ q.envelope.k = sender ∧ q.envelope.now = now ∧
      ((⟨q.envelope.msgid, q.envelope.nonce⟩ : Stamp) ∈ stamps ∨
        q.envelope.msgid = "" ∧ q.envelope.nonce = "") := by
  rcases List.mem_filterMap.mp h with ⟨⟨message, k⟩, hmem, hq⟩
  rcases Option.map_eq_some_iff.mp hq with ⟨msg, hmsg, rfl⟩
  refine ⟨message.2, (List.mem_zipIdx' hmem).2 ▸ List.getElem_mem _, hmsg, rfl, rfl, ?_⟩
  cases hstamp : stamps[k]? with
  | none => exact .inr ⟨rfl, rfl⟩
  | some stamp => exact .inl (by simpa [hstamp] using List.mem_of_getElem? hstamp)

theorem isGenerated_of_mem {sender : String} {now : Int} {stamps : List Stamp}
    {out : List (String × Gossip)} (hstamped : Stamped now stamps)
    (hsender : ∀ c ∈ sender.toList, c.isDigit ∨ c.isLower)
    (h : q ∈ inEnvelopes sender now stamps out) : q.envelope.IsGenerated := by
  rcases mem_inEnvelopes h with ⟨g, -, -, hk, hnow, hstamp⟩
  refine ⟨?_, by rw [hk]; exact hsender, ?_, by rw [hnow]; exact hstamped.now⟩
  · rcases hstamp with hstamp | ⟨hmsgid, -⟩
    · exact hstamped.msgid _ hstamp
    · simp [hmsgid]
  · rcases hstamp with hstamp | ⟨-, hnonce⟩
    · exact hstamped.nonce _ hstamp
    · simp [hnonce]

/-! ## What a packet brings to a node -/

/-- The fields that a handler makes its message of. -/
inductive Reads (f : FieldValueMap) : CommandType → Msg → Prop where
  | exeFunction (p : CodePacket) : Reads f .exeFunction (.exeFunction p)
  | verificationResult {txId : String} (hash output : String) (h : f.at? "txid" = some txId) :
      Reads f .verificationResult (.verificationResult txId hash output)
  | exception (txId exp : String) : Reads f .exception (.exception txId exp)
  | forwardedException {txstr : String} (h : f.at? "tx" = some txstr) :
      Reads f .exception (.forwardedException txstr)
  | txNotification {data : String} (h : f.at? "tx" = some data) :
      Reads f .txNotification (.txNotification data)

/-- A message to a handler of a master is read from the fields. -/
theorem reads_of_dataHandler {cmd : CommandType} {f : FieldValueMap} {msg : Msg}
    (h : dataHandler cmd f = some (some msg)) : Reads f cmd msg := by
  cases cmd
  case exeFunction =>
      cases h
      exact .exeFunction _
  case verificationResult =>
      rcases Option.bind_eq_some_iff.mp (Option.some.inj h) with ⟨txId, htxId, hrest⟩
      rcases Option.bind_eq_some_iff.mp hrest with ⟨hash, -, heq⟩
      cases heq
      exact .verificationResult hash _ htxId
  case exception =>
      -- a result with an exception, or a transaction that another master forwards
      simp only [dataHandler] at h
      split at h
      · rcases Option.bind_eq_some_iff.mp (Option.some.inj h) with ⟨txId, -, hrest⟩
        rcases Option.bind_eq_some_iff.mp hrest with ⟨exp, -, heq⟩
        cases heq
        exact .exception txId exp
      case isFalse hne =>
          cases h
          cases htx : f.at? "tx" with
          | none => exact absurd (by rw [htx]; rfl) hne
          | some txstr => exact .forwardedException htx
  case txNotification =>
      rcases Option.bind_eq_some_iff.mp (Option.some.inj h) with ⟨utxid, -, hrest⟩
      rcases Option.bind_eq_some_iff.mp hrest with ⟨data, hdata, heq⟩
      cases heq
      exact .txNotification hdata
  -- no other command has a message for the machine
  all_goals cases h

/-- The fields that a handler sees are the received values of what was sent. -/
def Arrived (kv f : FieldValueMap) : Prop :=
  ∀ name ∉ ["c", "msgid", "k", "tm", "nonce", "ws"], f.at? name = (kv.at? name).map receivedValue

variable (P L names) in
/-- What a sound packet is to the node of its channel. -/
inductive Arrival (S : Cloud n m) (q : Packet) (cmd : CommandType) (f : FieldValueMap) : Prop where
  | master (message : Message) (kv : FieldValueMap) (hmessage : message.gossip L = .command cmd kv)
      (hvouched : VouchedEffect (S.Genuine names)
        (fun node => names.IsStorage (receivedValue node)) (.gossip q.channel message))
      (hlegible : Legible P L (.gossip q.channel message)) (harrived : Arrived kv f)
  | ordinary (kv : FieldValueMap) (hordinary : Gossip.IsOrdinary (.command cmd kv))
      (harrived : Arrived kv f)

theorem arrived_of_passes {r r' : Receiver} {fields f kv : FieldValueMap} {cmd cmd' : CommandType}
    (he : q.envelope.IsGenerated) (hkv : ∀ field ∈ kv, OwnName field.1)
    (hq : q.Carries (.command cmd kv)) (hfields : q.fields = some fields)
    (hpasses : Receiver.Passes r fields r' cmd' f) : cmd' = cmd ∧ Arrived kv f := by
  rcases q.readsFields he hkv hq with ⟨read, hread, hreads⟩
  cases hfields.symm.trans hread
  have hcommand := hpasses.command
  rw [hreads.c, Option.bind_some, ofCode_atoi_code] at hcommand
  refine ⟨(Option.some.inj hcommand).symm, ?_⟩
  intro name hname
  have hpassed : ["tm", "ws", "k"] ⊆ ["c", "msgid", "k", "tm", "nonce", "ws"] := by decide
  have hread : ["c", "msgid", "k", "tm", "nonce"] ⊆ ["c", "msgid", "k", "tm", "nonce", "ws"] := by
    decide
  rw [hpasses.fields name fun h => hname (hpassed h), hreads.others name fun h => hname (hread h)]

/-- What passes the receiver has arrived in a sound packet. -/
theorem arrival_of_passes {r r' : Receiver} {fields f : FieldValueMap} {cmd : CommandType}
    (hq : PacketSound P L names S q) (hchannel : names.IsNode q.channel)
    (hfields : q.fields = some fields) (hpasses : Receiver.Passes r fields r' cmd f) :
    Arrival P L names S q cmd f := by
  cases hq.origin with
  | master message hcarries hvouched hlegible =>
      rcases message.gossip_eq L with ⟨cmd', kv, hmessage, hkv⟩
      rw [hmessage] at hcarries
      rcases arrived_of_passes hq.envelope hkv hcarries hfields hpasses with ⟨rfl, harrived⟩
      exact .master message kv hmessage hvouched hlegible harrived
  | plain h =>
      cases h with
      | ordinary g hcarries hg =>
          cases g with
          | command cmd' kv =>
              rcases arrived_of_passes hq.envelope hg.2.2 hcarries hfields hpasses with
                ⟨rfl, harrived⟩
              exact .ordinary kv hg harrived
          | text => exact hg.elim
      | storage hstorage => exact absurd hchannel hstorage

/-- The transaction that a packet names under `tx` is one that is vouched for, and in a
notification it has the contents of a request. -/
theorem tx_of_arrival {cmd : CommandType} {f : FieldValueMap} {data : String} {j : Json}
    (harrival : Arrival P L names S q cmd f)
    (hcmd : cmd ∈ [.txNotification, .exception]) (htx : f.at? "tx" = some data)
    (hparse : P.parse data = some j) :
    (∃ tx, Vouched (S.Genuine names) tx ∧ j = tx.toJson) ∧
      (cmd = .txNotification → ∃ tx, S.Genuine names tx ∧ j = tx.toJson) := by
  cases harrival with
  | master message kv hmessage hvouched hlegible harrived =>
      -- what is parsed is what was written
      have hread : ∀ {written : Json}, kv.at? "tx" = some (L.dump written) →
          P.parse (receivedValue (L.dump written)) = some written → j = written := by
        intro written hkv hwritten
        have hdata := harrived "tx" (by decide)
        rw [hkv, htx] at hdata
        cases hdata
        exact Option.some.inj (hparse.symm.trans hwritten)
      cases message with
      | txNotification utxid written =>
          cases hmessage
          rcases hvouched with ⟨tx, hgenuine, rfl⟩
          have hj := hread rfl hlegible
          exact ⟨⟨tx, .inr hgenuine, hj⟩, fun _ => ⟨tx, hgenuine, hj⟩⟩
      | exception written =>
          cases hmessage
          rcases hvouched with ⟨tx, htx', rfl⟩
          exact ⟨⟨tx, htx', hread rfl hlegible⟩, nofun⟩
      | codeDelivery | canCommit | closeBlock =>
          cases hmessage
          simp at hcmd
  | ordinary kv hordinary harrived =>
      rcases List.mem_cons.mp hcmd with rfl | hexception
      · exact absurd (by decide) hordinary.1
      · have hnone := harrived "tx" (by decide)
        rw [hordinary.2.1 (List.mem_singleton.mp hexception), htx] at hnone
        cases hnone

/-! ## The steps of a master -/

/-- Acknowledging a message changes nothing that is vouched for. -/
theorem contents_acknowledged {G : Transaction → Prop} {N : String → Prop} {a b : Master}
    (hab : Acknowledged a b) (h : Contents G N a) : Contents G N b := by
  rcases hab.sent with ⟨acks, hsent, hacks⟩
  refine ⟨?_, ?_, ?_, ?_, ?_⟩
  · rw [hab.transactions]
    exact h.held
  · rw [hab.queueOut]
    exact h.queued
  · rw [hab.blocks]
    exact h.blocks
  · intro effect heffect
    rw [hsent] at heffect
    rcases List.mem_append.mp heffect with hold | hack
    · exact h.sent effect hold
    · rcases hacks effect hack with ⟨key, id, txid, rfl⟩
      trivial
  · rw [hab.stateChangeStorageNode]
    exact h.node

theorem isNode_of_mem_channels (hs : MasterSound P names S i (S.masters i)) {channel : String}
    (h : channel ∈ (S.masters i).channels) : names.IsNode channel := by
  simp only [MasterSite.channels, hs.nodeId, List.mem_append, List.mem_cons, List.not_mem_nil,
    or_false] at h
  rcases h with (rfl | rfl) | hmaster21
  · exact .inl rfl
  · exact .inr (.inr (.inl ⟨i, rfl⟩))
  · split at hmaster21
    · exact .inr (.inl (List.mem_singleton.mp hmaster21))
    · cases hmaster21

/-- A transaction in a message comes in a packet. -/
theorem tx_of_reaches {e : MasterEvent} {receiver : Receiver} {msg : Msg} {data : String} {j : Json}
    (hallowed : AllowedMaster P L names S i e) (hs : MasterSound P names S i (S.masters i))
    (hpacket : ∀ q ∈ e.action.packet?, PacketSound P L names S q)
    (hreaches : Reaches (S.masters i) e receiver msg)
    (hmsg : msg = .txNotification data ∨ msg = .forwardedException data)
    (hparse : P.parse data = some j) :
    (∃ tx, Vouched (S.Genuine names) tx ∧ j = tx.toJson) ∧
      (msg = .txNotification data → ∃ tx, S.Genuine names tx ∧ j = tx.toJson) := by
  cases hreaches with
  | packet haction hchannel hfields hpasses hhandler =>
      have hq := hpacket _ (by rw [haction]; rfl)
      have harrival := arrival_of_passes hq (isNode_of_mem_channels hs hchannel) hfields hpasses
      rcases hmsg with rfl | rfl
      · cases reads_of_dataHandler hhandler with
        | txNotification htx =>
            have htransaction := tx_of_arrival harrival (by decide) htx hparse
            exact ⟨htransaction.1, fun _ => htransaction.2 rfl⟩
      · cases reads_of_dataHandler hhandler with
        | forwardedException htx =>
            exact ⟨(tx_of_arrival harrival (by decide) htx hparse).1, nofun⟩
  | request haction hfields hcommand hhandler =>
      -- clients ask for executions
      have hexecutes := hallowed.executes _ (by rw [haction]; exact hfields)
      cases hcommand.symm.trans hexecutes
      rcases hmsg with rfl | rfl <;> cases reads_of_dataHandler hhandler
  | cleanup | closeBlock => simp at hmsg

/-- What reaches a master in a sound network. -/
theorem brings_of_reaches {e : MasterEvent} {a : Master} {msg : Msg}
    (hallowed : AllowedMaster P L names S i e) (hs : MasterSound P names S i (S.masters i))
    (hpacket : ∀ q ∈ e.action.packet?, PacketSound P L names S q)
    (hstep : (S.masters i).step P e = some (S'.masters i)) (hextends : S.Extends S')
    (hmaster : Acknowledged (S.masters i).master a)
    (hreaches : Reaches (S.masters i) e (S'.masters i).receiver msg)
    (hrequests : (S'.masters i).requests = (S.masters i).requests ++ accepted P a e.env msg) :
    Master.Brings P (S'.Genuine names) a e.env msg := by
  cases msg with
  -- the request itself is where the transaction comes from, and its id is new
  | exeFunction p =>
      intro haccepted
      have hnew : accepted P a e.env (.exeFunction p) = [⟨e.env.guid, p, e.env.now⟩] :=
        if_pos haccepted
      rw [hnew] at hrequests
      have hfresh := hallowed.fresh _ hstep ⟨e.env.guid, p, e.env.now⟩
        (by rw [hrequests, List.drop_left]; exact List.mem_singleton_self _)
      refine ⟨by rw [hmaster.transactions]; exact hfresh.2.2, i, ⟨e.env.guid, p, e.env.now⟩, ?_, ?_⟩
      · rw [hrequests]
        exact List.mem_append_right _ (List.mem_singleton_self _)
      · rw [hmaster.nodeId, hs.nodeId]
        exact .refl _
  | txNotification data =>
      intro j hparse
      rcases (tx_of_reaches hallowed hs hpacket hreaches (.inl rfl) hparse).2 rfl with
        ⟨tx, hgenuine, hj⟩
      exact ⟨tx, hextends.genuine tx hgenuine, hj⟩
  -- what another master forwards is vouched for, though it need not come of a request
  | forwardedException txstr =>
      intro j hparse
      rcases (tx_of_reaches hallowed hs hpacket hreaches (.inr rfl) hparse).1 with ⟨tx, htx, hj⟩
      exact ⟨tx, vouched_mono hextends.genuine htx, hj⟩
  | verificationResult | exception | cleanup | closeBlock => trivial

theorem nodeId_handle {a b : Master} {e : Event} (h : handle P a e = some b) :
    b.nodeId = a.nodeId := by
  by_cases hmsg : e.msg = .closeBlock
  · rcases e with ⟨env, msg⟩
    subst hmsg
    rcases timeToCloseBlock_eq_some h with ⟨block, a₁, hassemble, rfl⟩
    exact publishBlock_same.nodeId.trans (assembleBlock_advances hassemble).1.nodeId
  · exact (handle_keepsBlockState h hmsg).nodeId

theorem requests_extend {s s' : MasterSite} {e : MasterEvent} (h : MasterMoves P s e s') :
    s.requests <+: s'.requests := by
  cases h with
  | quiet _ _ hrequests => exact ⟨[], by rw [hrequests, List.append_nil]⟩
  | handles _ _ _ _ hrequests => exact ⟨_, hrequests.symm⟩

theorem extends_of_moves {p : Place n m} {e : SiteEvent p}
    (h : (protocol P L V).Moves S p e S') : S.Extends S' := by
  intro i
  by_cases hp : Place.master i = p
  · subst hp
    exact (requests_extend (masterMoves_of_step (masterStep_of_moves h))).subset
  · rw [Cloud.masters, Cloud.masters, h.others _ hp]
    exact fun _ => id

theorem contents_masterMoves {e : MasterEvent} (hallowed : AllowedMaster P L names S i e)
    (hs : MasterSound P names S i (S.masters i))
    (hpacket : ∀ q ∈ e.action.packet?, PacketSound P L names S q)
    (hmoves : (protocol P L V).Moves S (.master i) e S') :
    Contents (S'.Genuine names) (fun node => names.IsStorage (receivedValue node))
      (S'.masters i).master := by
  have hextends := extends_of_moves hmoves
  have hbefore : Contents (S'.Genuine names) (fun node => names.IsStorage (receivedValue node))
      (S.masters i).master := contents_mono hextends.genuine hs.contents
  have hstep := masterStep_of_moves hmoves
  cases masterMoves_of_step hstep with
  | quiet hmaster => exact contents_acknowledged hmaster hbefore
  | handles hmaster _ hreaches hhandle hrequests =>
      exact contents_handle (aboutRequest_genuine S') hallowed.designates
        (contents_acknowledged hmaster hbefore)
        (brings_of_reaches hallowed hs hpacket hstep hextends hmaster hreaches hrequests) hhandle

/-- The names of a master, and its requests, which were signed under new ids. -/
theorem keeps_masterMoves {e : MasterEvent} (hallowed : AllowedMaster P L names S i e)
    (hs : MasterSound P names S i (S.masters i))
    (hstep : (S.masters i).step P e = some (S'.masters i)) :
    (S'.masters i).master.nodeId = names.master i ∧ (S'.masters i).receiver.nodeId = names.master i ∧
      ∀ r ∈ (S'.masters i).requests, IsGuid r.id ∧ r.IsSigned P := by
  cases masterMoves_of_step hstep with
  | quiet hmaster hreceiver hrequests =>
      rw [hrequests]
      exact ⟨hmaster.nodeId.trans hs.nodeId, hreceiver.nodeId.trans hs.receiver, hs.requests⟩
  | @handles _ msg hmaster hreceiver _ hhandle hrequests =>
      refine ⟨(nodeId_handle hhandle).trans (hmaster.nodeId.trans hs.nodeId),
        hreceiver.nodeId.trans hs.receiver, ?_⟩
      intro r hr
      rw [hrequests] at hr
      -- a request of this step was accepted, so its signature was checked
      rcases List.mem_append.mp hr with hold | hnew
      · exact hs.requests r hold
      · refine ⟨(hallowed.fresh _ hstep r (by rw [hrequests, List.drop_left]; exact hnew)).1, ?_⟩
        cases msg with
        | exeFunction p =>
            simp only [accepted] at hnew
            split at hnew
            case isTrue haccepted =>
                rw [List.mem_singleton.mp hnew]
                exact haccepted.1
            case isFalse => cases hnew
        | verificationResult | txNotification | exception | forwardedException | cleanup
        | closeBlock => cases hnew

/-- A step of a master keeps it sound, and so are the packets it sends. -/
theorem sound_master {e : MasterEvent} (hnames : ∀ c ∈ (names.master i).toList, c.isDigit ∨ c.isLower)
    (hallowed : AllowedMaster P L names S i e) (hs : MasterSound P names S i (S.masters i))
    (hpacket : ∀ q ∈ e.action.packet?, PacketSound P L names S q)
    (hmoves : (protocol P L V).Moves S (.master i) e S') :
    MasterSound P names S' i (S'.masters i) ∧
      ∀ q ∈ inEnvelopes (S.masters i).master.nodeId e.env.now e.stamps
        ((S.masters i).outgoing L (S'.masters i)), PacketSound P L names S' q := by
  have hstep := masterStep_of_moves hmoves
  have hcontents := contents_masterMoves hallowed hs hpacket hmoves
  rcases keeps_masterMoves hallowed hs hstep with ⟨hnodeId, hreceiver, hrequests⟩
  refine ⟨⟨hnodeId, hreceiver, hcontents, hrequests⟩, ?_⟩
  intro q hq
  refine ⟨isGenerated_of_mem hallowed.stamped (by rw [hs.nodeId]; exact hnames) hq, ?_⟩
  rcases mem_inEnvelopes hq with ⟨g, hg, hcarries, -⟩
  rcases List.mem_filterMap.mp hg with ⟨effect, heffect, hgossip⟩
  cases effect with
  | send | dhtPut => cases hgossip
  | gossip channel message =>
      cases hgossip
      exact .master message hcarries (hcontents.sent _ (List.mem_of_mem_drop heffect))
        (hallowed.legible _ hstep _ heffect)

/-! ## The steps of a compute node -/

theorem get_of_arrived {kv f : FieldValueMap} {name value : String} (h : Arrived kv f)
    (hname : name ∉ ["c", "msgid", "k", "tm", "nonce", "ws"]) (hkv : kv.at? name = some value) :
    f.get name = receivedValue value := by
  rw [FieldValueMap.get, h name hname, hkv]
  rfl

/-- What the masters tell a compute node. -/
theorem brings_of_arrival {cmd : CommandType} {f : FieldValueMap}
    (harrival : Arrival P L names S q cmd f) :
    Compute.Brings (S.Genuine names) names.IsStorage cmd f := by
  cases harrival with
  | master message kv hmessage hvouched hlegible harrived =>
      cases message with
      | codeDelivery i co txid s tid com =>
          cases hmessage
          rcases hvouched with ⟨hnode, tx, hgenuine, rfl, rfl, rfl, rfl⟩
          refine ⟨fun _ => ⟨?_, tx, hgenuine, ?_, ?_, ?_, ?_⟩, nofun⟩
          · rw [get_of_arrived harrived (by decide) rfl]
            exact hnode
          all_goals exact get_of_arrived harrived (by decide) rfl
      | canCommit txid sid tid =>
          cases hmessage
          refine ⟨nofun, fun _ => ?_⟩
          rw [get_of_arrived harrived (by decide) rfl]
          exact hvouched
      | txNotification | exception | closeBlock =>
          cases hmessage
          exact ⟨nofun, nofun⟩
  | ordinary kv hordinary =>
      refine ⟨?_, ?_⟩ <;> rintro rfl <;> exact absurd (by decide) hordinary.1

/-- A step of a compute node keeps the provenance of its messages. -/
theorem provenance_computeStep {e : ComputeEvent} (hallowed : AllowedCompute e)
    (hs : ComputeSound V names S j (S.computes j))
    (hpacket : ∀ q ∈ e.action.packet?, PacketSound P L names S q)
    (hstep : computeStep V (S.computes j) e = some (S'.computes j)) :
    (S'.computes j).receiver.nodeId = names.compute j ∧
      Provenance V (S.Genuine names) names.IsStorage (S'.computes j) := by
  rcases e with ⟨now, stamps, draw, action⟩
  cases action with
  | receive q =>
      simp only [computeStep] at hstep
      split at hstep
      case isTrue hchannel =>
          have hnode : names.IsNode q.channel := by
            rw [hchannel, hs.receiver]
            exact .inr (.inr (.inr ⟨j, rfl⟩))
          -- what arrives on the channel of the node was sent by a sound place
          refine ⟨?_, provenance_receive hs.provenance hallowed.uuid ?_ hstep⟩
          · cases receives_of_receive hstep with
            | quiet hreceiver => exact hreceiver.nodeId.trans hs.receiver
            | handles fields f cmd out hfields hpasses =>
                exact hpasses.keeps.nodeId.trans hs.receiver
          · intro fields hfields cmd f hreceived
            exact brings_of_arrival (arrival_of_passes (hpacket q rfl) hnode hfields
              (Receiver.passes_of_receiveGossip hreceived))
      case isFalse => cases hstep
  | resume i =>
      have hreplied := replied_resume hstep
      refine ⟨?_, provenance_resume hs.provenance hallowed.uuid hstep⟩
      rw [hreplied.receiver]
      exact hs.receiver

theorem plain_of_compute {e : ComputeEvent} {c' : ComputeNode} {G : Transaction → Prop}
    (hprovenance : Provenance V G names.IsStorage c')
    (hq : q ∈ inEnvelopes (S.computes j).receiver.nodeId e.now e.stamps
      (computeOutgoing (S.computes j) c')) : Plain names q := by
  rcases mem_inEnvelopes hq with ⟨g, hg, hcarries, -⟩
  cases hprovenance.sent _ (List.mem_of_mem_drop hg) with
  | ordinary hordinary => exact .ordinary g hcarries hordinary
  | query hchannel => exact .storage hchannel
  | release hchannel => exact .storage hchannel

theorem plain_of_outside {e : OutsideEvent} (hallowed : AllowedOutside e)
    (hq : q ∈ inEnvelopes e.sender e.now e.stamps e.out) : Plain names q := by
  rcases mem_inEnvelopes hq with ⟨g, hg, hcarries, -⟩
  exact .ordinary g hcarries (hallowed.ordinary _ hg)

theorem sound_compute {e : ComputeEvent}
    (hnames : ∀ c ∈ (names.compute j).toList, c.isDigit ∨ c.isLower) (hallowed : AllowedCompute e)
    (hs : ComputeSound V names S j (S.computes j))
    (hpacket : ∀ q ∈ e.action.packet?, PacketSound P L names S q)
    (hmoves : (protocol P L V).Moves S (.compute j) e S') :
    ComputeSound V names S' j (S'.computes j) ∧
      ∀ q ∈ inEnvelopes (S.computes j).receiver.nodeId e.now e.stamps
        (computeOutgoing (S.computes j) (S'.computes j)), PacketSound P L names S' q := by
  rcases provenance_computeStep hallowed hs hpacket (computeStep_of_moves hmoves) with
    ⟨hreceiver, hprovenance⟩
  refine ⟨⟨hreceiver, hprovenance.mono (extends_of_moves hmoves).genuine⟩, ?_⟩
  intro q hq
  exact ⟨isGenerated_of_mem hallowed.stamped (by rw [hs.receiver]; exact hnames) hq,
    .plain (plain_of_compute hprovenance hq)⟩

/-! ## The network -/

/-- Soundness of the nodes and of the packets is kept by every step. -/
theorem inductive_sound : (protocol P L V).Inductive (Allowed P L names) (SiteSound P V names)
    (PacketSound P L names) where
  keeps_node := fun _ hmoves hsite => siteSound_mono (extends_of_moves hmoves) hsite
  keeps_packet := fun _ hmoves hpacket => packetSound_mono (extends_of_moves hmoves) hpacket
  step := by
    intro S p e S' hsites hpackets hallowed hmoves
    cases p with
    | master i =>
        exact sound_master (names.master_chars i) hallowed (hsites (.master i))
          (fun q hq => hpackets q (hmoves.taken q hq)) hmoves
    | compute j =>
        exact sound_compute (names.compute_chars j) hallowed (hsites (.compute j))
          (fun q hq => hpackets q (hmoves.taken q hq)) hmoves
    | elsewhere =>
        refine ⟨trivial, ?_⟩
        intro q hq
        exact ⟨isGenerated_of_mem hallowed.stamped hallowed.sender hq,
          .plain (plain_of_outside hallowed hq)⟩

theorem contents_start {G : Transaction → Prop} {N : String → Prop} {a : Master}
    (hunknown : ∀ id, Unknown id a) (hqueueOut : a.queueOut = []) (hblocks : a.blocks = [])
    (hsent : a.sent = []) (hnode : a.stateChangeStorageNode = "") : Contents G N a where
  held := by
    intro id tx hfind
    have hnone : a.transactions.find id = none := (unknown_iff.mp (hunknown id)).1
    rw [hnone] at hfind
    cases hfind
  queued := by simp [hqueueOut]
  blocks := by simp [hblocks]
  sent := by simp [hsent]
  node := .inl hnode

theorem provenance_start {G : Transaction → Prop} {N : String → Prop} {c : ComputeNode}
    (hrds : c.rds = []) (htrs : c.trs = []) (hrunning : c.running = []) (hsent : c.sent = []) :
    Provenance V G N c :=
  ⟨by simp [hrds], by simp [hrunning], by simp [htrs], by simp [hsent]⟩

theorem siteSound_start (hstart : Start names S) : ∀ p, SiteSound P V names S p (S.node p)
  | .master i =>
      ⟨hstart.nodeId i, hstart.masterReceiver i,
        contents_start (hstart.unknown i) (hstart.queueOut i) (hstart.blocks i) (hstart.effects i)
          (hstart.node i),
        by
          have hrequests : (S.masters i).requests = [] := hstart.requests i
          change ∀ r ∈ (S.masters i).requests, _
          simp [hrequests]⟩
  | .compute j =>
      ⟨hstart.computeReceiver j, provenance_start (hstart.rds j) (hstart.trs j) (hstart.running j)
        (hstart.messages j)⟩
  | .elsewhere => trivial

/-- In every run all nodes and packets are sound. -/
theorem sound_run {S₀ : Cloud n m} {es : List ((p : Place n m) × SiteEvent p)}
    (hstart : Start names S₀)
    (h : Trace (protocol P L V).next (Allowed P L names) S₀ es S) :
    (∀ p, SiteSound P V names S p (S.node p)) ∧ ∀ q ∈ S.sent, PacketSound P L names S q :=
  inductive_sound.holds (siteSound_start hstart) (by simp [hstart.sent]) h

/-! ## One request for an id -/

/-- An id belongs to one request, on one master. -/
def Cloud.Distinct (S : Cloud n m) : Prop :=
  ∀ i i', ∀ r ∈ (S.masters i).requests, ∀ r' ∈ (S.masters i').requests, r.id = r'.id →
    i = i' ∧ r = r'

theorem newRequests_length {s s' : MasterSite} {e : MasterEvent} (h : MasterMoves P s e s') :
    ∃ new, s'.requests = s.requests ++ new ∧ new.length ≤ 1 := by
  cases h with
  | quiet _ _ hrequests => exact ⟨[], by rw [hrequests, List.append_nil], Nat.zero_le 1⟩
  | @handles _ msg _ _ _ _ hrequests =>
      refine ⟨_, hrequests, ?_⟩
      cases msg with
      | exeFunction p =>
          simp only [accepted]
          split <;> simp
      | verificationResult | txNotification | exception | forwardedException | cleanup
      | closeBlock => exact Nat.zero_le 1

/-- A request of a master after a step is an old one, or the only new one. -/
theorem request_of_moves {p : Place n m} {e : SiteEvent p}
    (hallowed : Allowed P L names S ⟨p, e⟩) (hmoves : (protocol P L V).Moves S p e S') :
    ∃ new : List Request, new.length ≤ 1 ∧ (∀ r ∈ new, ¬S.Requested r.id) ∧
      ∀ i, ∀ r ∈ (S'.masters i).requests, r ∈ (S.masters i).requests ∨ p = .master i ∧ r ∈ new := by
  cases p with
  | master k =>
      have hstep := masterStep_of_moves hmoves
      rcases newRequests_length (masterMoves_of_step hstep) with ⟨new, hnew, hlength⟩
      -- only this master has got new requests
      refine ⟨new, hlength, ?_, ?_⟩
      · intro r hr
        exact (hallowed.fresh _ hstep r (by rw [hnew, List.drop_left]; exact hr)).2.1
      · intro i r hr
        by_cases hi : i = k
        · subst hi
          rw [hnew] at hr
          exact (List.mem_append.mp hr).imp_right fun h => ⟨rfl, h⟩
        · rw [Cloud.masters, hmoves.others (.master i) (by simpa using hi)] at hr
          exact .inl hr
  -- nobody else accepts requests
  | compute j =>
      refine ⟨[], Nat.zero_le 1, by simp, fun i r hr => .inl ?_⟩
      rwa [Cloud.masters, hmoves.others (.master i) nofun] at hr
  | elsewhere =>
      refine ⟨[], Nat.zero_le 1, by simp, fun i r hr => .inl ?_⟩
      rwa [Cloud.masters, hmoves.others (.master i) nofun] at hr

theorem distinct_step {p : Place n m} {e : SiteEvent p} (h : S.Distinct)
    (hallowed : Allowed P L names S ⟨p, e⟩) (hmoves : (protocol P L V).Moves S p e S') :
    S'.Distinct := by
  rcases request_of_moves hallowed hmoves with ⟨new, hlength, hfresh, hcases⟩
  intro i i' r hr r' hr' hid
  rcases hcases i r hr with hold | ⟨hi, hnew⟩ <;> rcases hcases i' r' hr' with hold' | ⟨hi', hnew'⟩
  · exact h i i' r hold r' hold' hid
  · exact absurd ⟨i, r, hold, hid⟩ (hfresh r' hnew')
  · exact absurd ⟨i', r', hold', hid.symm⟩ (hfresh r hnew)
  · refine ⟨Place.master.inj (hi.symm.trans hi'), ?_⟩
    match new, hlength, hnew, hnew' with
    | [_], _, hnew, hnew' => rw [List.mem_singleton.mp hnew, List.mem_singleton.mp hnew']

theorem distinct_run {S₀ : Cloud n m} {es : List ((p : Place n m) × SiteEvent p)}
    (hstart : Start names S₀)
    (h : Trace (protocol P L V).next (Allowed P L names) S₀ es S) : S.Distinct := by
  refine h.invariant (fun _ S => Cloud.Distinct S) ?_ ?_
  · intro i i' r hr
    rw [hstart.requests i] at hr
    cases hr
  · intro _ S e S' hdistinct hallowed hstep
    exact distinct_step hdistinct hallowed (Protocol.moves_of_next hstep)

/-! ## Every copy of a transaction -/

/-- A master holds the transaction, has queued it or has put it into a block. -/
def Has (a : Master) (tx : Transaction) : Prop :=
  (∃ id, a.transactions.find id = some tx) ∨ tx ∈ a.queueOut ∨
    ∃ b ∈ a.blocks, tx.toJson ∈ b.2.data.elems

theorem sameRequest_trans {tx tx' tx'' : Transaction} (h : SameRequest tx tx')
    (h' : SameRequest tx' tx'') : SameRequest tx tx'' :=
  ⟨h'.txId.trans h.txId, h'.timestamp.trans h.timestamp, h'.tenantId.trans h.tenantId,
    h'.masterNodeId.trans h.masterNodeId, h'.code.trans h.code, h'.signature.trans h.signature,
    h'.publicKey.trans h.publicKey, h'.input.trans h.input⟩

theorem sameRequest_symm {tx tx' : Transaction} (h : SameRequest tx tx') : SameRequest tx' tx :=
  ⟨h.txId.symm, h.timestamp.symm, h.tenantId.symm, h.masterNodeId.symm, h.code.symm,
    h.signature.symm, h.publicKey.symm, h.input.symm⟩

/-- The JSON form has the contents. -/
theorem sameRequest_of_toJson {tx tx' : Transaction} (h : tx.toJson = tx'.toJson) :
    SameRequest tx tx' := by
  have hread := sameRequest_fromJson ({} : Transaction) tx
  have hread' := sameRequest_fromJson ({} : Transaction) tx'
  rw [h] at hread
  exact sameRequest_trans hread (sameRequest_symm hread')

theorem vouched_of_has {G : Transaction → Prop} {N : String → Prop} {a : Master} {tx : Transaction}
    (hG : AboutRequest G) (h : Contents G N a) (hhas : Has a tx) : Vouched G tx := by
  rcases hhas with ⟨id, hfind⟩ | hqueued | ⟨b, hb, hblock⟩
  · exact h.held hfind
  · exact h.queued tx hqueued
  · rcases h.blocks b hb with ⟨txns, hdata, htxns⟩
    rw [hdata, Json.elems] at hblock
    rcases List.mem_map.mp hblock with ⟨tx', htx', hjson⟩
    exact vouched_congr hG (sameRequest_of_toJson hjson) (htxns tx' htx')

/-- The transaction is the one of a request that a client has signed and a master accepted. -/
def Cloud.Signed (P : Platform) (names : Names n m) (S : Cloud n m) (tx : Transaction) : Prop :=
  ∃ i, ∃ r ∈ (S.masters i).requests, r.IsSigned P ∧ SameRequest (r.transaction (names.master i)) tx

theorem signed_of_genuine (hsites : ∀ p, SiteSound P V names S p (S.node p)) {tx : Transaction}
    (h : S.Genuine names tx) : S.Signed P names tx := by
  rcases h with ⟨i, r, hr, hsame⟩
  have hsound : MasterSound P names S i (S.masters i) := hsites (.master i)
  exact ⟨i, r, hr, (hsound.requests r hr).2, hsame⟩

/-- Nothing is recorded, and nothing is run, that no client has signed: in every run of the
network, each transaction that a master has and that names a function is the one of a signed
request, and so is each that a compute node was asked to run. -/
theorem signed_run {S₀ : Cloud n m} {es : List ((p : Place n m) × SiteEvent p)}
    (hstart : Start names S₀)
    (h : Trace (protocol P L V).next (Allowed P L names) S₀ es S) :
    (∀ i tx, Has (S.masters i).master tx → tx.code ≠ "" → S.Signed P names tx) ∧
      ∀ j, ∀ rq ∈ (S.computes j).rds.map (·.2) ++ (S.computes j).running.map (·.request),
        ∃ tx, S.Signed P names tx ∧ rq.txId = receivedValue tx.txId ∧
          rq.input = receivedValue tx.input ∧ rq.tenantId = receivedValue tx.tenantId ∧
          rq.hash = receivedValue tx.code := by
  have hsites := (sound_run hstart h).1
  refine ⟨?_, ?_⟩
  · intro i tx hhas hcode
    have hsound : MasterSound P names S i (S.masters i) := hsites (.master i)
    have hvouched := vouched_of_has (aboutRequest_genuine S) hsound.contents hhas
    exact signed_of_genuine hsites (hvouched.resolve_left hcode)
  · intro j rq hrq
    have hsound : ComputeSound V names S j (S.computes j) := hsites (.compute j)
    have hasked : rq.IsAsked (S.Genuine names) names.IsStorage := by
      -- the run is waiting for its function, or under way
      rcases List.mem_append.mp hrq with hwaits | hruns
      · rcases List.mem_map.mp hwaits with ⟨entry, hentry, rfl⟩
        exact hsound.provenance.rds entry hentry
      · rcases List.mem_map.mp hruns with ⟨x, hx, rfl⟩
        exact (hsound.provenance.running x hx).1
    rcases hasked.transaction with ⟨tx, hgenuine, hfields⟩
    exact ⟨tx, signed_of_genuine hsites hgenuine, hfields⟩

/-- The transaction of the example is held and queued. -/
theorem Sample.copies_of_check {S : Cloud 2 1} (h : Sample.check S = true) :
    (∃ tx, (S.masters Sample.first).master.transactions.find "tx" = some tx ∧ tx.code = "f") ∧
      ∃ tx ∈ (S.masters Sample.first).master.queueOut, tx.txId = "tx" ∧ tx.code = "f" := by
  simp only [Sample.check, Bool.and_eq_true] at h
  rcases (Option.any_eq_true _ _).mp h.1.2 with ⟨tx, hfind, hcode⟩
  rcases List.any_eq_true.mp h.2 with ⟨tx', hqueued, hsame⟩
  simp only [Bool.and_eq_true, decide_eq_true_eq] at hcode hsame
  exact ⟨⟨tx, hfind, hcode⟩, tx', hqueued, hsame⟩

theorem signed_sample : ∃ (S : Cloud 2 1) (tx : Transaction),
    Has (S.masters Sample.first).master tx ∧ S.Signed Sample.platform Sample.nodes tx := by
  rcases Sample.run_choices with ⟨es, S, htrace, hcheck⟩
  rcases (Sample.copies_of_check hcheck).1 with ⟨tx, hfind, hcode⟩
  have hne : tx.code ≠ "" := by
    rw [hcode]
    decide
  have hhas : Has (Cloud.masters S Sample.first).master tx := .inl ⟨"tx", hfind⟩
  exact ⟨S, tx, hhas, (signed_run Sample.start_start htrace).1 Sample.first tx hhas hne⟩

end DecentralizedCloud.System
