import DecentralizedCloud.Cluster.Release
import DecentralizedCloud.Storage.ObjectStore
import DecentralizedCloud.Storage.StorageNode
import DecentralizedCloud.Storage.TransactionTrees

/-!
# The network and a storage node

A storage node beside the masters and compute nodes. It reads the packets that were sent on
its channels, at any time and in any order, and again and again.

A compute node sends texts to storage nodes that it gets from scripts: the queries of a run
and its state changes. It puts `txid` in front of them and nothing else, so a script that
writes another number behind `c` than its libraries do gives any command to the storage
node. `Undisturbed` says that no script closes blocks in this way; that each query has an
id of its own needs no such assumption. What clients send to the storage node over web
sockets is left out, as nothing at all is checked there.

`Source` is what every packet of a run is: a message of a master, a command of somebody
else, or such a text.
-/

namespace DecentralizedCloud.System

open Machine Master Network Compute Storage

variable {n m : Nat} (P : Platform) (L : NodeLibrary) (V : Processor) (names : Names n m)
  (Sv : Services) (contents : String → Option Storage.Contents)

/-! ## The machine -/

/-- An event of the network or of the storage node. -/
abbrev DeploymentEvent (n m : Nat) := ((p : Place n m) × SiteEvent p) ⊕ StorageEvent

/-- The storage node takes packets of its channels that were sent. -/
def reading (base64_encodeString : String → String) (S : Cloud n m) :
    Step StorageNode StorageEvent := fun s e =>
  if ∀ q ∈ e.packet?, q ∈ S.sent ∧ q.channel ∈ s.channels then
    StorageNode.step Sv base64_encodeString s e
  else none

def deployment : Step (Cloud n m × StorageNode) (DeploymentEvent n m) :=
  beside (protocol P L V).next (reading Sv L.base64_encodeString)

/-- The block in the text that a storage node gets. -/
def readBlock (text : String) : Option Json := Sv.parse (Sv.base64_decode text)

/-- What the storage node relies on: IPFS serves the commits, no id of a transaction is a hash,
and the other threads leave the trees of the transactions alone and the root of the blocks in
order. -/
def AllowedStorage (s : StorageNode) : StorageEvent → Prop
  | .commit answers _ => ∀ b ∈ s.blocks.blocksToCommit.top, ∀ block, Sv.parse b.2 = some block →
      ServesBlock Sv answers block (transactionsIn block) s.dht ∧
        ∀ transaction ∈ transactionsIn block, ∀ txid ∈ transaction.stringAt "txid",
          contents txid = none
  | .write dht => (∀ tid, dht (txRootKey tid) = s.dht (txRootKey tid)) ∧
      (∀ txid, contents txid = none → dht (transactionKey txid) = s.dht (transactionKey txid)) ∧
        ∃ links, Rooted contents (dht (rootKey blockTree)) links
  | .receive _ _ | .update _ | .look => True

def Deployed (d : Cloud n m × StorageNode) : DeploymentEvent n m → Prop
  | .inl e => Allowed P L names d.1 e ∧ Undisturbed P L V names (readBlock Sv) d.1 e
  | .inr e => AllowedStorage Sv contents d.2 e

/-- A storage node that has done nothing yet. -/
structure StorageStart (s : StorageNode) : Prop where
  channels : ∀ channel ∈ s.channels, names.IsStorage channel
  stateChanges : s.stateChanges = {}
  blocks : s.blocks = {}
  handled : s.handled = []
  roots : ∀ tid, s.dht (txRootKey tid) = ""
  blockRoot : s.dht (rootKey blockTree) = ""

/-! ## Where packets come from -/

/-- What a packet is: a message of a master about transactions that are vouched for, a command of
another node, or a text of a compute node under the id of a query or of a transaction. -/
inductive Source (decode : String → Option Json) (S : Cloud n m) (q : Packet) : Prop where
  | master (message : Message) (hcarries : q.Carries (message.gossip L))
      (hvouched : VouchedEffect (S.Genuine names)
        (fun node => names.IsStorage (receivedValue node)) (.gossip q.channel message))
      (hlegible : LegibleBlock L decode (.gossip q.channel message))
  | command (cmd : CommandType) (kv : FieldValueMap) (hcarries : q.Carries (.command cmd kv))
      (hkv : ∀ field ∈ kv, OwnName field.1) (hcmd : cmd ≠ .closeBlock)
      (hstateChange : cmd = .stateChange → names.IsNode q.channel)
  | text (txId rest : String) (hmsg : q.msg = "txid:" ++ txId ++ "|" ++ rest)
      (hid : IsUuid txId ∨ IsGuid txId) (hcloseBlock : q.command? ≠ some .closeBlock)

variable {P L V names Sv contents} {S S' S₀ : Cloud n m} {q : Packet} {i : Fin n} {j : Fin m}
  {s s' s₀ : StorageNode} {decode : String → Option Json}

theorem Source.mono (hextends : S.Extends S') (h : Source L names decode S q) :
    Source L names decode S' q := by
  cases h with
  | master message hcarries hvouched hlegible =>
      exact .master message hcarries (vouchedEffect_mono hextends.genuine hvouched) hlegible
  | command cmd kv hcarries hkv hcmd hstateChange =>
      exact .command cmd kv hcarries hkv hcmd hstateChange
  | text txId rest hmsg hid hcloseBlock => exact .text txId rest hmsg hid hcloseBlock

theorem isText_text {txId rest : String} (h : q.msg = "txid:" ++ txId ++ "|" ++ rest) :
    isText q = true := by
  rw [isText, List.isPrefixOf_iff_prefix, h]
  simp only [String.toList_append, List.append_assoc]
  exact List.prefix_append _ _

theorem source_master {e : MasterEvent} (hsettled' : Settled P L V names S')
    (hundisturbed : Undisturbed P L V names decode S ⟨.master i, e⟩)
    (hmoves : (protocol P L V).Moves S (.master i) e S')
    (hq : q ∈ inEnvelopes (S.masters i).master.nodeId e.env.now e.stamps
      ((S.masters i).outgoing L (S'.masters i))) : Source L names decode S' q := by
  rcases mem_inEnvelopes hq with ⟨g, hg, hcarries, -⟩
  rcases List.mem_filterMap.mp hg with ⟨effect, heffect, hgossip⟩
  have hsound : MasterSound P names S' i (S'.masters i) := hsettled'.sites (.master i)
  cases effect with
  | send | dhtPut => cases hgossip
  | gossip channel message =>
      cases hgossip
      exact .master message hcarries (hsound.contents.sent _ (List.mem_of_mem_drop heffect))
        (hundisturbed _ (masterStep_of_moves hmoves) _ heffect)

/-- What a compute node sends goes back to a message that it has received. -/
theorem source_compute {e : ComputeEvent} (hsettled : Settled P L V names S)
    (hallowed : AllowedCompute e) (hundisturbed : Undisturbed P L V names decode S ⟨.compute j, e⟩)
    (hmoves : (protocol P L V).Moves S (.compute j) e S')
    (hq : q ∈ inEnvelopes (S.computes j).receiver.nodeId e.now e.stamps
      (computeOutgoing (S.computes j) (S'.computes j))) : Source L names decode S' q := by
  have hstep := computeStep_of_moves hmoves
  have hs : ComputeSound V names S j (S.computes j) := hsettled.sites (.compute j)
  have hscript := hundisturbed _ hstep q hq
  rcases replies_computeStep hstep with ⟨committed, out, hsent, hreplies, hcause⟩
  rcases mem_inEnvelopes hq with ⟨g, hg, hcarries, -⟩
  rw [computeOutgoing, hsent, List.drop_left] at hg
  cases hreplies with
  | nothing => cases hg
  | @ordinary channel cmd kv hordinary hcmd =>
      cases List.mem_singleton.mp hg
      have hforeign : ∀ cmd ∈ reported, cmd ≠ .closeBlock ∧ cmd ≠ .stateChange := by decide
      exact .command cmd kv hcarries hordinary.2.2 (hforeign cmd hcmd).1
        fun hstate => absurd hstate (hforeign cmd hcmd).2
  | query channel input =>
      cases List.mem_singleton.mp hg
      have hmsg : q.msg = "txid:" ++ e.draw.uuid ++ "|" ++ input := (Option.some.inj hcarries).symm
      exact .text _ _ hmsg (.inl hallowed.uuid) (hscript (isText_text hmsg))
  | @release txId channel cmds hcommitted =>
      cases List.mem_singleton.mp hg
      have hmsg : q.msg = "txid:" ++ txId ++ "|" ++ cmds := (Option.some.inj hcarries).symm
      -- the node was told to commit a transaction that a master has made
      rcases hcause txId hcommitted with ⟨q', fields, f, haction, hchannel, hfields, hpasses, rfl⟩
      have hguid := (commits_of_passes hsettled
        (hmoves.taken q' (congrArg ComputeAction.packet? haction)) (hchannel.trans hs.receiver)
        hfields hpasses).2
      exact .text _ _ hmsg (.inr hguid) (hscript (isText_text hmsg))

theorem source_outside {e : OutsideEvent} (hallowed : AllowedOutside e)
    (hundisturbed : Undisturbed P L V names decode S ⟨.elsewhere, e⟩)
    (hq : q ∈ inEnvelopes e.sender e.now e.stamps e.out) : Source L names decode S' q := by
  rcases mem_inEnvelopes hq with ⟨g, hg, hcarries, -⟩
  have hordinary := hallowed.ordinary _ hg
  have hharmless : Harmless names (q.channel, g) := hundisturbed _ hg
  cases g with
  | command cmd kv =>
      rcases hharmless with ⟨hcmd, hstateChange⟩
      exact .command cmd kv hcarries hordinary.2.2 hcmd hstateChange
  | text msg => exact hordinary.elim

/-! ## Runs -/

/-- The state of the network in a run with a storage node. -/
structure Connected (P : Platform) (L : NodeLibrary) (V : Processor) (names : Names n m)
    (decode : String → Option Json) (S : Cloud n m) : Prop where
  settled : Settled P L V names S
  sources : ∀ q ∈ S.sent, Source L names decode S q

theorem connected_step {e : (p : Place n m) × SiteEvent p} (h : Connected P L V names decode S)
    (hallowed : Allowed P L names S e) (hundisturbed : Undisturbed P L V names decode S e)
    (hstep : (protocol P L V).next S e = some S') : Connected P L V names decode S' := by
  rcases e with ⟨p, e⟩
  have hmoves := Protocol.moves_of_next hstep
  have hsettled' := settled_step h.settled hallowed hmoves
  refine ⟨hsettled', ?_⟩
  intro q hq
  rw [hmoves.sent] at hq
  rcases List.mem_append.mp hq with hold | hnew
  · exact (h.sources q hold).mono (extends_of_moves hmoves)
  · cases p with
    | master i => exact source_master hsettled' hundisturbed hmoves hnew
    | compute j => exact source_compute h.settled hallowed hundisturbed hmoves hnew
    | elsewhere => exact source_outside hallowed hundisturbed hnew

theorem connected_start (hstart : Start names S) : Connected P L V names decode S :=
  ⟨settled_start hstart, by simp [hstart.sent]⟩

theorem step_of_reading {base64_encodeString : String → String} {e : StorageEvent}
    (h : reading Sv base64_encodeString S s e = some s') :
    (∀ q ∈ e.packet?, q ∈ S.sent ∧ q.channel ∈ s.channels) ∧
      StorageNode.step Sv base64_encodeString s e = some s' := by
  unfold reading at h
  split at h
  case isTrue hsent => exact ⟨hsent, h⟩
  case isFalse => cases h

theorem reading_of_step {base64_encodeString : String → String} {e : StorageEvent}
    (hsent : ∀ q ∈ e.packet?, q ∈ S.sent ∧ q.channel ∈ s.channels)
    (h : StorageNode.step Sv base64_encodeString s e = some s') :
    reading Sv base64_encodeString S s e = some s' := by
  rw [reading, if_pos hsent, h]

/-- The storage node is in its place in the network. -/
structure Placed (names : Names n m) (S : Cloud n m) (s : StorageNode) : Prop where
  channels : ∀ channel ∈ s.channels, names.IsStorage channel
  handled : s.Handled
  sent : ∀ x ∈ s.handled, x.packet ∈ S.sent ∧ names.IsStorage x.packet.channel

theorem channels_of_keeps (h : s.receiver.Keeps s'.receiver) : s'.channels = s.channels := by
  rw [StorageNode.channels, StorageNode.channels, h.nodeId]

theorem Placed.step {e : StorageEvent} (h : Placed names S s)
    (hstep : reading Sv L.base64_encodeString S s e = some s') : Placed names S s' := by
  rcases step_of_reading hstep with ⟨hsent, hstep⟩
  have hchannels := channels_of_keeps (StorageNode.keeps_step hstep)
  refine ⟨by rw [hchannels]; exact h.channels, StorageNode.handled_step h.handled hstep, ?_⟩
  intro x hx
  rcases StorageNode.handled_subset hstep x hx with hold | hpacket
  · exact h.sent x hold
  · rcases hsent _ hpacket with ⟨hmem, hchannel⟩
    exact ⟨hmem, h.channels _ hchannel⟩

/-- A run of the network with the storage node. -/
theorem connected_run {es : List (DeploymentEvent n m)} (hstart : Start names S₀)
    (hstorage : StorageStart names s₀)
    (h : Trace (deployment P L V Sv) (Deployed P L V names Sv contents) (S₀, s₀) es (S, s)) :
    Connected P L V names (readBlock Sv) S ∧ Placed names S s := by
  refine h.invariant
    (fun _ d => Connected P L V names (readBlock Sv) d.1 ∧ Placed names d.1 d.2) ?_ ?_
  · refine ⟨connected_start hstart, hstorage.channels, ⟨?_, ?_, ?_⟩, ?_⟩ <;>
      simp [hstorage.handled]
  · intro _ d e d' ⟨hconnected, hplaced⟩ hallowed hstep
    cases e with
    | inl e =>
        rcases of_beside_inl hstep with ⟨hnext, hsame⟩
        have hmoves := Protocol.moves_of_next hnext
        rw [hsame]
        refine ⟨connected_step hconnected hallowed.1 hallowed.2 hnext, hplaced.channels,
          hplaced.handled, ?_⟩
        intro x hx
        exact ⟨hmoves.sent_subset (hplaced.sent x hx).1, (hplaced.sent x hx).2⟩
    | inr e =>
        rcases of_beside_inr hstep with ⟨hread, hsame⟩
        rw [hsame]
        exact ⟨hconnected, hplaced.step hread⟩

/-! ## An example -/

namespace Sample

def services : Services := ObjectStore.unsearched id

def storage (nodeId : String) : StorageNode where
  receiver := ⟨nodeId, 0, [], fun _ => true⟩
  stateChanges := {}
  blocks := {}
  dht _ := ""
  handled := []

theorem storage_start {nodeId : String} (h : nodes.IsStorage nodeId) :
    StorageStart nodes (storage nodeId) where
  channels channel hchannel := by
    rcases List.mem_cons.mp hchannel with rfl | hlast
    · decide
    · rw [List.mem_singleton.mp hlast]
      exact h
  stateChanges := rfl
  blocks := rfl
  handled := rfl
  roots _ := rfl
  blockRoot := rfl

/-- The storage node reads the packet, or moves a worker that writes nothing. -/
def Reads (q : Packet) (s : StorageNode) : StorageEvent → Prop
  | .receive q' _ => q' = q ∧ q.channel ∈ s.channels
  | .update _ | .look => True
  | .commit _ _ | .write _ => False

instance (q : Packet) (s : StorageNode) : ∀ e, Decidable (Reads q s e)
  | .receive q' _ => inferInstanceAs (Decidable (q' = q ∧ q.channel ∈ s.channels))
  | .update _ | .look => isTrue trivial
  | .commit _ _ | .write _ => isFalse id

/-- The network runs, and then the storage node reads one of its packets. -/
theorem deployment_run {es : List ((p : Place 2 1) × SiteEvent p)} {S : Cloud 2 1} {q : Packet}
    {ds : List StorageEvent} {s₀ s : StorageNode}
    (h : Trace (protocol platform library processor).next ok start es S) (hq : q ∈ S.sent)
    (hread : Trace (StorageNode.step services id) (Reads q) s₀ ds s) :
    Trace (deployment platform library processor services)
      (Deployed platform library processor nodes services ObjectStore.contents) (start, s₀)
      (es.map .inl ++ ds.map .inr) (S, s) := by
  refine (h.inl ?_).append (hread.inr ?_ ?_)
  · intro S e hok
    exact ⟨hok.1, hok.2.imp fun text j => parse_of_decodeBlock⟩
  · intro s d hreads
    cases d with
    | receive | update | look => trivial
    | commit | write => exact hreads.elim
  · intro s d hreads
    -- the packet that is read was sent
    rw [reading, if_pos]
    · rfl
    · intro q' hq'
      cases d with
      | receive =>
          cases hq'
          rcases hreads with ⟨rfl, hchannel⟩
          exact ⟨hq, hchannel⟩
      | update | look | commit | write => cases hq'

end Sample

end DecentralizedCloud.System
