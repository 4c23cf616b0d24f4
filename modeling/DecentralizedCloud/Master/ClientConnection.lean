import DecentralizedCloud.Master.Flags

/-!
# The client's connection and the ledger

`checkVerification` sends the result to the client before it queues the
transaction and lets the compute node commit. The send raises when the client's
connection is gone, and the exception takes the rest of the check with it. The
client's node then neither queues the transaction nor releases its state
changes, though every other master queues it; and this repeats with each later
result, since no flag was set. When the result cannot be printed, the check
raises before it comes to the send, whoever is connected.

Two runs over the same results are compared here, which differ in whether the
key of one client is registered. They agree on the queue and the released state
changes exactly when the results verify no transaction that this client waits
for and whose result can be printed (`connection_irrelevant_iff`).
-/

namespace DecentralizedCloud

open Machine Master

variable {P : Platform} {id key : String}

/-- The same surroundings with a running server and the client `key` registered
or not. -/
def Env.withClient (env : Env) (key : String) (registered : Bool) : Env :=
  { env with
    wsServer := {
      running := true
      connections := fun k =>
        if k = key then (if registered then some .usable else none)
        else env.wsServer.connections k } }

/-- A `verificationResult` message and the surroundings in which it is handled. -/
structure ResultMessage where
  env : Env
  txId : String
  hash : String
  output : String

/-- `verifyTransaction` on each of the messages, in order. -/
def processMessages (key : String) (registered : Bool) (m : Master) (rs : List ResultMessage) :
    Master :=
  rs.foldl (fun m r => verifyTransaction (r.env.withClient key registered) m r.txId r.hash
    r.output) m

/-- A transaction after the results for its id have been counted. -/
def afterResults (id : String) (tx : Transaction) (rs : List ResultMessage) : Transaction :=
  (rs.filter fun r => r.txId = id).foldl (fun tx r => counted tx r.hash r.output) tx

/-- The client `key` waits for the result of `tx`. -/
def WaitsFor (key : String) (tx : Transaction) : Prop :=
  tx.canSend = true ∧ tx.publicKey = key

/-- The transaction is verified, and its result can be printed. -/
def Deliverable (tx : Transaction) : Prop :=
  tx.isVerified = true ∧ (Reply.result tx.txId tx.output none).prints = true

instance {tx : Transaction} : Decidable (Deliverable tx) :=
  inferInstanceAs (Decidable (_ ∧ _))

/-- None of the messages leaves a transaction that the client `key` waits for
verified, with a result that can be printed. -/
def NoneDeliverable (key : String) (m : Master) (rs : List ResultMessage) : Prop :=
  ∀ id, ∀ tx ∈ (m.view id).held, WaitsFor key tx → ∀ rs', rs' <+: rs →
    (∃ r ∈ rs', r.txId = id) → ¬ Deliverable (afterResults id tx rs')

/-- The `canCommit` messages that a master has sent. -/
def canCommits (m : Master) : List Effect :=
  m.sent.filter fun
    | .gossip _ (.canCommit _ _ _) => true
    | _ => false

/-! ## Counting results -/

theorem afterResults_cons_self (tx : Transaction) (r : ResultMessage) (rs : List ResultMessage)
    (h : r.txId = id) :
    afterResults id tx (r :: rs) = afterResults id (counted tx r.hash r.output) rs := by
  simp [afterResults, h]

theorem afterResults_cons_ne (tx : Transaction) (r : ResultMessage) (rs : List ResultMessage)
    (h : r.txId ≠ id) : afterResults id tx (r :: rs) = afterResults id tx rs := by
  simp [afterResults, h]

theorem afterResults_of_none (tx : Transaction) {rs : List ResultMessage}
    (h : ¬ ∃ r ∈ rs, r.txId = id) : afterResults id tx rs = tx := by
  have hnil : (rs.filter fun r => r.txId = id) = [] := by
    rw [List.filter_eq_nil_iff]
    intro r hr
    have hne : ¬ r.txId = id := fun heq => h ⟨r, hr, heq⟩
    simpa using hne
  simp [afterResults, hnil]

/-- Counting leaves the client of a transaction alone. -/
theorem waitsFor_counted {tx : Transaction} (h : WaitsFor key tx) (hash output : String) :
    WaitsFor key (counted tx hash output) := by
  rw [counted_eq]
  exact h

/-! ## Registered or not makes no difference -/

theorem resultDelivery_withClient (env : Env) (tx : Transaction) (registered : Bool) :
    resultDelivery (env.withClient key registered) tx =
      if (Reply.result tx.txId tx.output none).prints then
        (env.withClient key registered).wsServer.send tx.publicKey
      else .raised := rfl

/-- Only the check of a verified transaction that the client waits for asks for
its connection, and only when the result can be printed. -/
theorem checkVerification_withClient {env : Env} {m : Master} {tx : Transaction}
    (h : WaitsFor key tx → ¬ Deliverable tx) :
    checkVerification (env.withClient key true) m tx =
      checkVerification (env.withClient key false) m tx := by
  cases hverified : tx.isVerified with
  | false => simp [checkVerification, hverified]
  | true =>
      cases hcan : tx.canSend with
      | false => simp [checkVerification, hverified, hcan]
      | true =>
          have hsame : resultDelivery (env.withClient key true) tx =
              resultDelivery (env.withClient key false) tx := by
            rw [resultDelivery_withClient, resultDelivery_withClient]
            split
            case isTrue hprints =>
                have hother : tx.publicKey ≠ key := by
                  intro heq
                  exact h ⟨hcan, heq⟩ ⟨hverified, hprints⟩
                simp [WebSocketServer.send, Env.withClient, hother]
            case isFalse => rfl
          -- the storage node is looked for in the same surroundings
          have hnode : getStateChangeStorageNode (env.withClient key true) m =
              getStateChangeStorageNode (env.withClient key false) m := rfl
          simp only [checkVerification, hverified, hcan, if_true, wsSend, deliver_result, hsame,
            hnode]

/-- A transaction that can still be sent after its check came out of it unchanged. -/
theorem checked_of_canSend {env : Env} {tx : Transaction}
    (h : (checked env tx).canSend = true) : checked env tx = tx := by
  have hanswers : answers env tx = false := by
    by_contra hne
    simp only [Transaction.canSend, checked_sentToClient, Bool.not_eq_false] at h hne
    simp [hne] at h
  have hcan : tx.canSend = true := by
    simpa [Transaction.canSend, checked_sentToClient, hanswers] using h
  -- it was not answered, so it is not verified or the send raised
  have hqueues : queues env tx = false := by
    have hdecide := hanswers
    simp only [answers, hcan, Bool.and_true] at hdecide
    simp only [queues, raises, hcan, Bool.and_true]
    cases hverified : tx.isVerified <;> simp_all
  simp [checked, answered, hqueues, hanswers]

/-- The condition for the remaining messages. -/
theorem noneDeliverable_tail {m : Master} {r : ResultMessage} {rs : List ResultMessage}
    (env : Env) (h : NoneDeliverable key m (r :: rs)) :
    NoneDeliverable key (verifyTransaction env m r.txId r.hash r.output) rs := by
  intro id tx htx hwaits rs' hfront hresult
  have hfront' : r :: rs' <+: r :: rs := (List.prefix_cons_inj r).mpr hfront
  have hresult' : ∃ r' ∈ r :: rs', r'.txId = id := by
    rcases hresult with ⟨r', hr', hid⟩
    exact ⟨r', List.mem_cons_of_mem r hr', hid⟩
  by_cases hid : r.txId = id
  case neg =>
      rw [view_verifyTransaction_ne hid] at htx
      rw [← afterResults_cons_ne tx r rs' hid]
      exact h id tx htx hwaits _ hfront' hresult'
  case pos =>
      subst hid
      rw [view_verifyTransaction] at htx
      cases htx
      have hunchanged := checked_of_canSend hwaits.1
      rw [hunchanged] at hwaits ⊢
      cases hheld : (m.view r.txId).held with
      | none =>
          -- a transaction made from a result has no client here
          rw [hheld, Option.getD_none, counted_eq] at hwaits
          exact absurd hwaits.1 (by simp [Transaction.canSend, Transaction.ofResult])
      | some t =>
          rw [hheld, Option.getD_some] at hwaits
          rw [Option.getD_some, ← afterResults_cons_self t r rs' rfl]
          rw [counted_eq] at hwaits
          exact h r.txId t hheld hwaits _ hfront' hresult'

/-- When there is nothing to tell the client, the two runs are in the same state. -/
theorem processMessages_eq {m : Master} {rs : List ResultMessage}
    (h : NoneDeliverable key m rs) :
    processMessages key true m rs = processMessages key false m rs := by
  induction rs generalizing m with
  | nil => rfl
  | cons r rs ih =>
      have hfirst : verifyTransaction (r.env.withClient key true) m r.txId r.hash r.output =
          verifyTransaction (r.env.withClient key false) m r.txId r.hash r.output := by
        rw [verifyTransaction_eq, verifyTransaction_eq]
        dsimp only
        rw [checkVerification_withClient]
        · rfl
        · intro hwaits
          cases hheld : m.transactions.find r.txId with
          | none =>
              rw [hheld, Option.getD_none, counted_eq] at hwaits
              exact absurd hwaits.1 (by simp [Transaction.canSend, Transaction.ofResult])
          | some t =>
              rw [hheld, Option.getD_some] at hwaits
              rw [Option.getD_some]
              rw [counted_eq] at hwaits
              -- the first message by itself
              have hone := h r.txId t hheld hwaits [r] ⟨rs, rfl⟩ ⟨r, List.mem_cons_self, rfl⟩
              rwa [afterResults_cons_self t r [] rfl] at hone
      have htail := ih (noneDeliverable_tail (r.env.withClient key true) h)
      unfold processMessages at htail ⊢
      rw [List.foldl_cons, List.foldl_cons, ← hfirst]
      exact htail

/-! ## Registered or not makes a difference -/

/-- What the two runs do to a transaction is read off the view of its id. -/
theorem view_processMessages_cons (registered : Bool) (m : Master) (r : ResultMessage)
    (rs : List ResultMessage) (id : String) :
    (processMessages key registered m (r :: rs)).view id =
      (processMessages key registered
        (verifyTransaction (r.env.withClient key registered) m r.txId r.hash r.output) rs).view id :=
  rfl

/-- A transaction that is in a block is not queued again. -/
theorem queued_of_inBlock (registered : Bool) {m : Master} {tx : Transaction}
    (rs : List ResultMessage) (hheld : (m.view id).held = some tx) (hblock : tx.inBlock = true) :
    ((processMessages key registered m rs).view id).queued = (m.view id).queued := by
  induction rs generalizing m tx with
  | nil => rfl
  | cons r rs ih =>
      rw [view_processMessages_cons]
      by_cases hid : r.txId = id
      · subst hid
        have hview := view_verifyTransaction (r.env.withClient key registered) m r.txId r.hash
          r.output
        rw [hheld, Option.getD_some] at hview
        have hcounted : (counted tx r.hash r.output).inBlock = true := by
          rw [counted_eq]
          exact hblock
        -- the mark in the block keeps it out of the queue, and stays
        have hqueues : queues (r.env.withClient key registered)
            (counted tx r.hash r.output) = false := by
          simp [queues, hcounted]
        have hkept : (checked (r.env.withClient key registered)
            (counted tx r.hash r.output)).inBlock = true := by
          rw [checked_inBlock, hcounted]
          rfl
        have hstored := congrArg View.held hview
        rw [ih hstored hkept, hview]
        simp [View.check, hqueues]
      -- a result for another transaction
      · have hview := view_verifyTransaction_ne hid (r.env.withClient key registered) m r.hash
          r.output
        rw [ih (by rw [hview]; exact hheld) hblock, hview]

/-- Without its client's connection a transaction is never queued, however
often it is verified. -/
theorem queued_unregistered {m : Master} {tx : Transaction} (rs : List ResultMessage)
    (hheld : (m.view id).held = some tx) (hwaits : WaitsFor key tx) :
    ((processMessages key false m rs).view id).queued = (m.view id).queued := by
  induction rs generalizing m tx with
  | nil => rfl
  | cons r rs ih =>
      rw [view_processMessages_cons]
      by_cases hid : r.txId = id
      · subst hid
        have hview := view_verifyTransaction (r.env.withClient key false) m r.txId r.hash r.output
        rw [hheld, Option.getD_some] at hview
        have hcounted := waitsFor_counted hwaits r.hash r.output
        have hraised : resultDelivery (r.env.withClient key false)
            (counted tx r.hash r.output) = .raised := by
          rw [resultDelivery_withClient]
          simp [WebSocketServer.send, Env.withClient, hcounted.2]
        -- the send raises, so the check leaves everything as it was
        have hanswers : answers (r.env.withClient key false)
            (counted tx r.hash r.output) = false := by
          simp [answers, hraised]
        have hqueues : queues (r.env.withClient key false)
            (counted tx r.hash r.output) = false := by
          simp only [queues, raises, hraised, hcounted.1]
          cases (counted tx r.hash r.output).isVerified <;> rfl
        have hchecked : checked (r.env.withClient key false) (counted tx r.hash r.output) =
            counted tx r.hash r.output := by
          simp [checked, answered, hanswers, hqueues]
        have hstored := congrArg View.held hview
        rw [View.check, hchecked] at hstored
        rw [ih hstored hcounted, hview]
        simp [View.check, hqueues]
      · have hview := view_verifyTransaction_ne hid (r.env.withClient key false) m r.hash r.output
        rw [ih (by rw [hview]; exact hheld) hwaits, hview]

/-- A check that tells the client nothing leaves its transaction as it is. -/
theorem check_of_not_deliverable {env : Env} {tx : Transaction} (hwaits : WaitsFor key tx)
    (h : ¬ Deliverable tx) : checked env tx = tx ∧ queues env tx = false := by
  have hsilent : tx.isVerified = true → resultDelivery env tx = .raised := by
    intro hverified
    have hprints : (Reply.result tx.txId tx.output none).prints = false := by
      simpa [Deliverable, hverified] using h
    simp [resultDelivery, Env.deliver, hprints]
  have hanswers : answers env tx = false := by
    cases hverified : tx.isVerified <;> simp_all [answers]
  have hqueues : queues env tx = false := by
    cases hverified : tx.isVerified <;> simp_all [queues, raises, hwaits.1]
  exact ⟨by simp [checked, answered, hanswers, hqueues], hqueues⟩

/-- With its client's connection a transaction is queued as soon as it is verified and
its result can be printed. -/
theorem queued_registered {m : Master} {tx : Transaction} {rs rs' : List ResultMessage}
    (hheld : (m.view id).held = some tx) (hwaits : WaitsFor key tx) (hnew : tx.inBlock = false)
    (hfront : rs' <+: rs) (hresult : ∃ r ∈ rs', r.txId = id)
    (hdeliverable : Deliverable (afterResults id tx rs')) :
    ((processMessages key true m rs).view id).queued.length = (m.view id).queued.length + 1 := by
  induction rs generalizing m tx rs' with
  | nil =>
      rw [List.prefix_nil.mp hfront] at hresult
      simp at hresult
  | cons r rs ih =>
      cases rs' with
      | nil => simp at hresult
      | cons r' rs' =>
      rcases List.cons_prefix_cons.mp hfront with ⟨rfl, hrest⟩
      rw [view_processMessages_cons]
      by_cases hid : r'.txId = id
      case neg =>
          have hview := view_verifyTransaction_ne hid (r'.env.withClient key true) m r'.hash
            r'.output
          rw [afterResults_cons_ne tx r' rs' hid] at hdeliverable
          have hresult' : ∃ r ∈ rs', r.txId = id := by
            rcases hresult with ⟨r, hr, hid'⟩
            rcases List.mem_cons.mp hr with rfl | hr
            · exact absurd hid' hid
            · exact ⟨r, hr, hid'⟩
          rw [ih (by rw [hview]; exact hheld) hwaits hnew hrest hresult' hdeliverable, hview]
      case pos =>
          subst hid
          have hview := view_verifyTransaction (r'.env.withClient key true) m r'.txId r'.hash
            r'.output
          rw [hheld, Option.getD_some] at hview
          rw [afterResults_cons_self tx r' rs' rfl] at hdeliverable
          have hcounted := waitsFor_counted hwaits r'.hash r'.output
          have hnew' : (counted tx r'.hash r'.output).inBlock = false := by
            rw [counted_eq]
            exact hnew
          have hstored := congrArg View.held hview
          by_cases hnow : Deliverable (counted tx r'.hash r'.output)
          case pos =>
              -- this result is told to the client; the flag keeps the later ones away
              have hsend : resultDelivery (r'.env.withClient key true)
                  (counted tx r'.hash r'.output) = .sent := by
                rw [resultDelivery_withClient, if_pos hnow.2]
                simp [WebSocketServer.send, Env.withClient, hcounted.2]
              have hqueues : queues (r'.env.withClient key true)
                  (counted tx r'.hash r'.output) = true := by
                simp [queues, raises, hnow.1, hsend, hnew']
              have hkept : (checked (r'.env.withClient key true)
                  (counted tx r'.hash r'.output)).inBlock = true := by
                rw [checked_inBlock, hqueues, Bool.or_true]
              rw [queued_of_inBlock true rs hstored hkept, hview]
              simp [View.check, hqueues]
          case neg =>
              have hsilent :
                  checked (r'.env.withClient key true) (counted tx r'.hash r'.output) =
                      counted tx r'.hash r'.output ∧
                    queues (r'.env.withClient key true) (counted tx r'.hash r'.output) = false :=
                check_of_not_deliverable hcounted hnow
              rcases hsilent with ⟨hchecked, hqueues⟩
              have hresult' : ∃ r ∈ rs', r.txId = r'.txId := by
                by_contra hnone
                rw [afterResults_of_none _ hnone] at hdeliverable
                exact hnow hdeliverable
              rw [View.check, hchecked] at hstored
              rw [ih hstored hcounted hnew' hrest hresult' hdeliverable, hview]
              simp [View.check, hqueues]

/-! ## The states of a master -/

/-- A transaction of a client that waits is not in a block. -/
def WaitingUnblocked (m : Master) : Prop :=
  ∀ id, ∀ tx ∈ (m.view id).held, tx.canSend = true → tx.inBlock = false

theorem canSend_of_sameFlags {tx tx' : Transaction} (h : SameFlags tx tx') :
    tx'.canSend = tx.canSend := by
  simp only [Transaction.canSend, h.sentToClient, h.computeNode]

/-- No step blocks a connection that waits for its response. -/
theorem waitingUnblocked_step {m m' : Master} {e : Event} (hinv : WaitingUnblocked m)
    (h : handle P m e = some m') : WaitingUnblocked m' := by
  intro id tx' htx' hcan
  have hv := flagStep h id
  generalize m'.view id = v at hv htx'
  cases hv with
  | checked tx node hhanded =>
      cases htx'
      -- what may still be sent was not changed by the check
      have hunchanged := checked_of_canSend hcan
      rw [hunchanged] at hcan ⊢
      rw [canSend_of_sameFlags hhanded.sameFlags] at hcan
      rw [hhanded.sameFlags.inBlock]
      cases hheld : (m.view id).held with
      | none => rfl
      | some t =>
          rw [hheld] at hcan
          exact hinv id t hheld hcan
  -- the flags that matter are kept
  | replaced held hheld =>
      rcases hheld tx' htx' with ⟨tx, htx, hsame⟩
      rw [canSend_of_sameFlags hsame] at hcan
      rw [hsame.inBlock]
      exact hinv id tx htx hcan
  | drawn p cid =>
      cases htx'
      cases hheld : (m.view id).held with
      | none => rfl
      | some t =>
          rw [hheld] at hcan
          exact hinv id t hheld hcan
  -- the reply is sent, and the mark is not set
  | unprinted exp tx _ hheld =>
      cases htx'
      exact hinv id tx hheld hcan
  | failed => cases htx'
  | forwarded | closed => exact hinv id tx' htx' hcan

theorem waitingUnblocked_run {m₀ m : Master} {es : List Event}
    (hempty : m₀.transactions = .empty) (h : Run (handle P) m₀ es m) : WaitingUnblocked m := by
  refine h.invariant (fun _ m => WaitingUnblocked m) ?_ ?_
  · intro id tx htx
    have hnone : (m₀.view id).held = none := by
      rw [view, hempty]
      rfl
    rw [hnone] at htx
    cases htx
  · intro _ m e m' hinv _ hstep
    exact waitingUnblocked_step hinv hstep

/-- The client's request reaches the master. -/
def requestedMaster : Master :=
  processCodePacket (Sample.platform []) Sample.env Sample.master Sample.packet

/-- `n` results for the request. -/
def resultMessages (n : Nat) : List ResultMessage :=
  List.replicate n ⟨Sample.env, "tx1", "a", "out"⟩

theorem requestedMaster_run :
    Run (handle (Sample.platform [])) Sample.master ([] ++ [⟨Sample.env, .exeFunction Sample.packet⟩])
      requestedMaster :=
  .snoc .nil trivial rfl

end DecentralizedCloud
