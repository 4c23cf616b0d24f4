import Mathlib.Data.List.Sort
import DecentralizedCloud.Lib.Trace
import DecentralizedCloud.Master.View

/-!
# The master as a machine

One event is one message, or one turn of the main loop, together with the
answers of the surroundings while it is handled. An event is an atomic step:
handlers hold `transactionsMutex` while they work on the map and on `queueOut`.
Only `processCodePacket` gives it back after the insert; what it does then, the
notification and the request to a verifier, is taken as part of its step.

`ViewStep` lists what one event can do to the view of one transaction id, and
`viewStep` says that nothing else happens. Invariants about a transaction are
proved by cases on it.
-/

namespace DecentralizedCloud

open Master

inductive Msg where
  | exeFunction (p : CodePacket)
  | verificationResult (txId hash output : String)
  | txNotification (data : String)
  | exception (txId exp : String)
  | forwardedException (txstr : String)
  | cleanup
  | closeBlock
deriving DecidableEq, Repr

structure Event where
  env : Env
  msg : Msg

/-- The event is a result for `id` that carries `hash`. -/
def Event.isResult (id hash : String) (e : Event) : Bool :=
  match e.msg with
  | .verificationResult txId h _ => txId = id && h = hash
  | _ => false

/-- The id in a text that is the JSON form of a transaction. -/
def idInJson (P : Platform) (text : String) : Option String :=
  (P.parse text).bind fun j => j.stringAt "txid"

/-- The text is the JSON form of a transaction without one of its members. -/
def readsMissing (P : Platform) (text : String) : Bool :=
  (P.parse text).any fun j => Transaction.readsMissing j Transaction.fromJsonKeys

/-- What a master does with an event; `none` when it ends the node, or when what it
does is undefined. -/
def handle (P : Platform) (m : Master) (e : Event) : Option Master :=
  match e.msg with
  | .exeFunction p => some (processCodePacket P e.env m p)
  | .verificationResult txId hash output => some (verifyTransaction e.env m txId hash output)
  | .txNotification data =>
      -- the id is read before, and raises when it is not there
      if (idInJson P data).isSome && readsMissing P data then none
      else some (processIncomingTransaction P e.env m data)
  | .exception txId exp => some (handleException e.env m txId exp)
  | .forwardedException txstr =>
      if readsMissing P txstr then none else some (handleForwardedException P e.env m txstr)
  | .cleanup => some (cleanupTransactionsMap e.env m)
  | .closeBlock => timeToCloseBlock P e.env m

/-- Nothing is held, queued or sent for an id. -/
def Unknown (id : String) (m : Master) : Prop :=
  m.view id = { held := none, queued := [], responses := [], commits := [] }

variable {P : Platform} {m m' : Master} {e : Event} {id : String}

theorem unknown_iff : Unknown id m ↔ (m.view id).held = none ∧ (m.view id).queued = [] ∧
    (m.view id).responses = [] ∧ (m.view id).commits = [] := by
  unfold Unknown
  cases m.view id
  simp

instance : Decidable (Unknown id m) := decidable_of_iff _ unknown_iff.symm

/-- A transaction whose id cannot be read is not filled in. -/
theorem fromJson_incomplete {j : Json} (h : j.stringAt "txid" = none) (tx : Transaction) :
    (Transaction.fromJson j tx).2 = false := by
  simp [Transaction.fromJson, Transaction.fromJsonAssignments, assignAll, h]

/-- The notification of `id` runs `updateTransaction`. -/
theorem processIncomingTransaction_eq {env : Env} {data : String} {j : Json}
    (hj : P.parse data = some j) (hid : j.stringAt "txid" = some id) :
    processIncomingTransaction P env m data = updateTransaction env m id j := by
  simp [processIncomingTransaction, hj, hid]

theorem view_processIncomingTransaction_ne {env : Env} {data : String}
    (h : idInJson P data ≠ some id) :
    (processIncomingTransaction P env m data).view id = m.view id := by
  unfold processIncomingTransaction
  split
  · rfl
  · rename_i j hj
    split
    · rfl
    · rename_i txId hid
      have hne : txId ≠ id := by
        intro heq
        apply h
        simp [idInJson, hj, hid, heq]
      exact view_updateTransaction_ne hne hid

theorem view_handleForwardedException_other {env : Env} {txstr : String}
    (h : idInJson P txstr ≠ some id) :
    (handleForwardedException P env m txstr).view id = m.view id := by
  cases hj : P.parse txstr with
  | none => simp [handleForwardedException, hj]
  | some j =>
      cases hid : j.stringAt "txid" with
      | none => simp [handleForwardedException, hj, fromJson_incomplete hid]
      | some txId =>
          apply view_handleForwardedException_ne hj hid
          intro heq
          apply h
          simp [idInJson, hj, hid, heq]

/-! ## What one event can do to the view of an id -/

/-- The code packet passes the checks of `processCodePacket`. -/
def Accepted (P : Platform) (m : Master) (p : CodePacket) : Prop :=
  P.verifyEd25519Signature p.message p.base64publicKey p.base64signature = true ∧
    m.subscribedTo21 = true

instance {p : CodePacket} : Decidable (Accepted P m p) :=
  inferInstanceAs (Decidable (_ ∧ _))

/-- The event `e` in the state `m` does something to the view of `id`. -/
def Concerns (P : Platform) (m : Master) (e : Event) (id : String) : Prop :=
  match e.msg with
  | .exeFunction p => e.env.guid = id ∧ Accepted P m p
  | .verificationResult txId _ _ => txId = id
  | .txNotification data => idInJson P data = some id
  | .exception txId _ => txId = id ∧ (m.view id).held ≠ none
  | .forwardedException txstr => idInJson P txstr = some id
  | .cleanup | .closeBlock => True

/-- The view of `id` after the event `e` in the state `m`, one constructor for
each thing that can happen to it. -/
inductive ViewStep (P : Platform) (m : Master) (e : Event) (id : String) : View → Prop where
  /-- the event is about another id, or is refused -/
  | same (h : ¬ Concerns P m e id) : ViewStep P m e id (m.view id)
  | counted (hash output : String) (hmsg : e.msg = .verificationResult id hash output) :
      ViewStep P m e id ((m.view id).check e.env (stateNode e.env m)
        (Master.counted ((m.view id).held.getD (.ofResult id hash e.env.now)) hash output))
  | notified (data : String) (j : Json) (cid node : String) (hmsg : e.msg = .txNotification data)
      (hj : P.parse data = some j) (hid : j.stringAt "txid" = some id)
      (hnode : m.stateChangeStorageNode ≠ "" → node = m.stateChangeStorageNode) :
      ViewStep P m e id ((m.view id).check e.env node
        { (Transaction.fromJson j ((m.view id).held.getD {})).1 with computeNodeId := cid })
  /-- a notification that raises while the transaction is filled in -/
  | partially (data : String) (j : Json) (hmsg : e.msg = .txNotification data)
      (hj : P.parse data = some j) (hid : j.stringAt "txid" = some id)
      (hincomplete : (Transaction.fromJson j ((m.view id).held.getD {})).2 = false) :
      ViewStep P m e id { m.view id with
        held := (m.view id).held.map fun tx => (Transaction.fromJson j tx).1 }
  | drawn (p : CodePacket) (cid : String) (hmsg : e.msg = .exeFunction p) (hguid : e.env.guid = id)
      (haccepted : Accepted P m p) :
      ViewStep P m e id { m.view id with
        held := some { (m.view id).held.getD (p.transaction id e.env.now m.nodeId) with
          computeNodeId := cid } }
  /-- an exception whose client cannot be told -/
  | untold (exp : String) (tx : Transaction) (hmsg : e.msg = .exception id exp)
      (hheld : (m.view id).held = some tx)
      (hraised : tx.computeNode = true ∧
        e.env.deliver tx.publicKey (.exception id exp) = .raised) :
      ViewStep P m e id { m.view id with held := some (excepted tx exp) }
  /-- an exception whose transaction cannot be printed for the other masters -/
  | unprinted (exp : String) (tx : Transaction) (hmsg : e.msg = .exception id exp)
      (hheld : (m.view id).held = some tx)
      (hprints : (excepted tx exp).toJson.prints = false) :
      ViewStep P m e id { m.view id with
        held := some (excepted tx exp)
        responses := (m.view id).told e.env id exp tx }
  | failed (exp : String) (tx : Transaction) (hmsg : e.msg = .exception id exp)
      (hheld : (m.view id).held = some tx)
      (hreply : ¬ (tx.computeNode = true ∧
        e.env.deliver tx.publicKey (.exception id exp) = .raised))
      (hprints : (excepted tx exp).toJson.prints = true) :
      ViewStep P m e id { m.view id with
        held := none
        queued :=
          if isBlockProducer e.env m then (m.view id).queued ++ [excepted tx exp]
          else (m.view id).queued
        responses := (m.view id).told e.env id exp tx }
  | forwarded (txstr : String) (queued : List Transaction)
      (hmsg : e.msg = .forwardedException txstr) (hid : idInJson P txstr = some id) :
      ViewStep P m e id { m.view id with queued := (m.view id).queued ++ queued }
  | cleaned (hmsg : e.msg = .cleanup) :
      ViewStep P m e id { m.view id with
        held := (m.view id).held.filter fun tx => !decide (e.env.now - 60 > tx.timestamp) }
  | closed (hmsg : e.msg = .closeBlock) :
      ViewStep P m e id { m.view id with
        queued := (notDue P e.env m).filter fun tx => tx.txId = id }

theorem viewStep_processCodePacket {env : Env} {p : CodePacket} :
    ViewStep P m ⟨env, .exeFunction p⟩ id ((processCodePacket P env m p).view id) := by
  by_cases hguid : env.guid = id
  case neg =>
      rw [view_processCodePacket_ne hguid]
      exact .same fun h => hguid h.1
  case pos =>
      by_cases haccepted : Accepted P m p
      · -- the packet becomes a transaction under the id that is drawn
        subst hguid
        rcases view_processCodePacket_accepted haccepted.1 haccepted.2 with ⟨cid, hview⟩
        rw [hview]
        exact .drawn p cid rfl rfl haccepted
      · rw [view_processCodePacket_refused]
        · exact .same fun h => haccepted h.2
        · simpa [Accepted, Classical.or_iff_not_imp_left] using haccepted

/-- What a notification does to one transaction. -/
theorem viewStep_processIncomingTransaction {env : Env} {data : String} :
    ViewStep P m ⟨env, .txNotification data⟩ id
      ((processIncomingTransaction P env m data).view id) := by
  by_cases hid : idInJson P data = some id
  case neg =>
      rw [view_processIncomingTransaction_ne hid]
      exact .same hid
  case pos =>
      rcases Option.bind_eq_some_iff.mp hid with ⟨j, hj, hid⟩
      rw [processIncomingTransaction_eq hj hid]
      cases hcomplete : (Transaction.fromJson j ((m.view id).held.getD {})).2 with
      | true =>
          rcases view_updateTransaction_complete hid hcomplete with ⟨cid, node, hview, hnode⟩
          rw [hview]
          exact .notified data j cid node rfl hj hid hnode
      | false =>
          rw [view_updateTransaction_incomplete hid hcomplete]
          exact .partially data j rfl hj hid hcomplete

/-- What an exception does to one transaction. -/
theorem viewStep_handleException {env : Env} {txId exp : String} :
    ViewStep P m ⟨env, .exception txId exp⟩ id ((handleException env m txId exp).view id) := by
  by_cases hid : txId = id
  case neg =>
      rw [view_handleException_ne hid]
      exact .same fun h => hid h.1
  case pos =>
      subst hid
      cases hheld : (m.view txId).held with
      | none =>
          rw [view_handleException_unknown hheld]
          exact .same fun h => h.2 hheld
      | some tx =>
          -- the handler stops when the client of a compute node cannot be told, and when
          -- the transaction cannot be printed
          by_cases hraised : tx.computeNode = true ∧
              env.deliver tx.publicKey (.exception txId exp) = .raised
          · rw [view_handleException_raised hheld hraised]
            exact .untold exp tx rfl hheld hraised
          · cases hprints : (excepted tx exp).toJson.prints with
            | false =>
                rw [view_handleException_unprinted hheld hraised hprints]
                exact .unprinted exp tx rfl hheld hprints
            | true =>
                rw [view_handleException hheld hraised hprints]
                exact .failed exp tx rfl hheld hraised hprints

/-- A notification that is handled reads no missing member. -/
theorem handle_txNotification {env : Env} {data : String}
    (h : handle P m ⟨env, .txNotification data⟩ = some m') :
    m' = processIncomingTransaction P env m data := by
  unfold handle at h
  dsimp only at h
  split at h
  · cases h
  · exact (Option.some.inj h).symm

theorem handle_forwardedException {env : Env} {txstr : String}
    (h : handle P m ⟨env, .forwardedException txstr⟩ = some m') :
    m' = handleForwardedException P env m txstr := by
  unfold handle at h
  dsimp only at h
  split at h
  · cases h
  · exact (Option.some.inj h).symm

/-- Every event does one of these things to the view of an id. -/
theorem viewStep (h : handle P m e = some m') (id : String) : ViewStep P m e id (m'.view id) := by
  rcases e with ⟨env, msg⟩
  cases msg with
  | exeFunction p =>
      cases h
      exact viewStep_processCodePacket
  | verificationResult txId hash output =>
      cases h
      -- a result for another transaction changes nothing here
      by_cases hid : txId = id
      · subst hid
        rw [view_verifyTransaction]
        exact .counted hash output rfl
      · rw [view_verifyTransaction_ne hid]
        exact .same hid
  | txNotification data =>
      rw [handle_txNotification h]
      exact viewStep_processIncomingTransaction
  | exception txId exp =>
      cases h
      exact viewStep_handleException
  | forwardedException txstr =>
      rw [handle_forwardedException h]
      -- neither does an exception for one
      by_cases hid : idInJson P txstr = some id
      · rcases view_handleForwardedException P env m txstr id with ⟨queued, hview⟩
        rw [hview]
        exact .forwarded txstr queued rfl hid
      · rw [view_handleForwardedException_other hid]
        exact .same hid
  | cleanup =>
      cases h
      exact .cleaned rfl
  | closeBlock =>
      rw [view_timeToCloseBlock h]
      exact .closed rfl

/-! ## What enters `queueOut` -/

/-- The copies of `id` that an event appends to `queueOut`: closing a block
takes some out, every other event only adds some at the end. -/
def enqueued (id : String) (m : Master) (e : Event) (m' : Master) : List Transaction :=
  match e.msg with
  | .closeBlock => []
  | _ => (m'.view id).queued.drop (m.view id).queued.length

/-- Only a closing takes transactions from the queue. -/
theorem queued_append_enqueued (h : handle P m e = some m') (hmsg : e.msg ≠ .closeBlock) :
    (m'.view id).queued = (m.view id).queued ++ enqueued id m e m' := by
  have hv := viewStep h id
  -- every step but a closing prolongs the queue
  have hprefix : (m.view id).queued <+: (m'.view id).queued := by
    generalize m'.view id = v at hv
    cases hv with
    | same | partially | drawn | untold | unprinted | cleaned => exact List.prefix_rfl
    | counted | notified =>
        unfold View.check
        dsimp only
        split
        · exact List.prefix_append _ _
        · exact List.prefix_rfl
    | failed =>
        dsimp only
        split
        · exact List.prefix_append _ _
        · exact List.prefix_rfl
    | forwarded => exact List.prefix_append _ _
    | closed hclose => exact absurd hclose hmsg
  rcases hprefix with ⟨rest, hrest⟩
  have henqueued : enqueued id m e m' = rest := by
    unfold enqueued
    split
    case h_1 hclose => exact absurd hclose hmsg
    case h_2 => rw [← hrest, List.drop_left]
  rw [henqueued, hrest]

/-! ## A small network

Concrete surroundings for runs that are computed: a platform that parses the
JSON texts of given transactions, and a master of the 21 without transactions. -/

namespace Sample

/-- The JSON text of a transaction whose members need no escapes. -/
def jsonText (tx : Transaction) : String :=
  "\x7b\"cid\":\"" ++ tx.computeNodeId ++ "\",\"co\":\"" ++ tx.code ++ "\",\"e\":\"" ++
    tx.exception ++ "\",\"h\":\"" ++ tx.lastValidHash ++ "\",\"i\":\"" ++ tx.input ++
    "\",\"k\":\"" ++ tx.publicKey ++ "\",\"mid\":\"" ++ tx.masterNodeId ++ "\",\"o\":\"" ++
    tx.output ++ "\",\"s\":\"" ++ tx.signature ++ "\",\"t\":" ++ toString tx.timestamp ++
    ",\"tid\":\"" ++ tx.tenantId ++ "\",\"txid\":\"" ++ tx.txId ++ "\"\x7d"

/-- `compareTransactions` as an order. -/
def notLater (a b : Transaction) : Prop := a.timestamp ≤ b.timestamp

instance : DecidableRel notLater :=
  fun a b => inferInstanceAs (Decidable (a.timestamp ≤ b.timestamp))

instance : Std.Total notLater := ⟨fun a b => le_total a.timestamp b.timestamp⟩

instance : IsTrans Transaction notLater := ⟨fun _ _ _ hab hbc => le_trans hab hbc⟩

/-- A hash function without collisions: the text is written out, every
character marked, and closed by a dot. -/
def digest (text : String) : String :=
  String.ofList (text.toList.flatMap (fun ch => ['+', ch]) ++ ['.'])

theorem digest_ne (text : String) : digest text ≠ "" := by
  intro h
  have hlist := congrArg String.toList h
  simp [digest] at hlist

/-- No digest is the beginning of another one. -/
theorem eq_of_digest_prefix {s t : String} (h : (digest s).toList <+: (digest t).toList) :
    s = t := by
  -- the dot that closes a digest is no marked character, so the texts run in step
  have hlists : ∀ xs ys : List Char, xs.flatMap (fun ch => ['+', ch]) ++ ['.'] <+:
      ys.flatMap (fun ch => ['+', ch]) ++ ['.'] → xs = ys := by
    intro xs
    induction xs with
    | nil =>
        intro ys h
        cases ys with
        | nil => rfl
        | cons y ys => simp at h
    | cons x xs ih =>
        intro ys h
        cases ys with
        | nil => simp at h
        | cons y ys =>
            simp only [List.flatMap_cons, List.cons_append, List.nil_append,
              List.cons_prefix_cons] at h
            rw [h.2.1, ih ys h.2.2]
  simp only [digest, String.toList_ofList] at h
  exact String.toList_inj.mp (hlists _ _ h)

theorem digest_injective : Function.Injective digest := by
  intro s t h
  exact eq_of_digest_prefix ⟨[], by rw [List.append_nil, h]⟩

def platform (txs : List Transaction) : Platform where
  parse text := (txs.find? fun tx => jsonText tx = text).map (·.toJson)
  infoHash := digest
  infoHash_ne := digest_ne
  verifyEd25519Signature _ _ signature := signature = "signed"
  createX509Signature _ nodeId := nodeId
  sort txs := txs.insertionSort notLater
  sort_perm txs := List.perm_insertionSort _ txs
  sort_sorted txs := List.pairwise_insertionSort notLater txs

/-- The client "key" is connected, one verifier and two storage nodes are known. -/
def env : Env where
  now := 100
  dhtGet _ := ""
  guid := "tx1"
  draw := 0
  nodes := {
    numberOfVerifiers := 1, verifierKeys := ["v1"]
    numberOfStorageNodes := 2, storageKeys := ["s1", "s2"] }
  wsServer := {
    running := true
    connections := fun key => if key = "key" then some .usable else none }

/-- A master of the 21. -/
def master : Master where
  nodeId := "m1"
  base64encodedKey := "bTE="
  subscribedTo21 := true
  blockProducers := []
  transactions := .empty
  queueOut := []
  blocks := []
  blockStorageNode := "s1"
  stateChangeStorageNode := "s2"
  nextBlockNumber := 1
  previousHash := "h0"
  sent := []

def producers : List Voter :=
  [⟨"", "m1", 1, true⟩, ⟨"", "m2", 1, true⟩]

/-- The request of the client. -/
def packet : CodePacket where
  utxid := "u1"
  htxid := "r1"
  tenantId := "t1"
  code := "f1"
  inputs := "i1"
  base64signature := "signed"
  base64publicKey := "key"

/-- The transaction of the request, as another master notifies it. -/
def tx : Transaction := packet.transaction "tx1" 100 "m2"

/-- `n` results for the transaction. -/
def results (n : Nat) (hash output : String) : List Event :=
  List.replicate n ⟨env, .verificationResult "tx1" hash output⟩

end Sample

end DecentralizedCloud
