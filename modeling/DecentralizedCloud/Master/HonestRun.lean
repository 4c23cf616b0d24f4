import DecentralizedCloud.Master.Machine

/-!
# Honest runs

When all results of a transaction carry one hash and its client and the storage
node are there, the verification is exact: the transaction enters `queueOut`,
its client is answered and its compute node may commit as soon as 14 results,
an output and the full transaction have arrived, in whatever order, and all
this happens once (`honest_run`).

All this needs an output that can be printed. The originating master prints the
result for its client before it queues the transaction, and raises when the output
is not UTF-8, at every later result again (`unqueued_unprinted`).

The invariant `Tracks` says what the members of the held transaction count, and
that the flags `inBlock` and `sentToClient` record what was done. `Counts` is
the part of it that holds between an update of the members and the check.
-/

namespace DecentralizedCloud

open Machine Master

variable {P : Platform}

/-! ## What arrives, and what is done -/

def Event.carriesOutput (id : String) (e : Event) : Bool :=
  match e.msg with
  | .verificationResult txId _ output => txId = id && output ≠ ""
  | _ => false

def Event.notifies (P : Platform) (id : String) (e : Event) : Bool :=
  match e.msg with
  | .txNotification data => idInJson P data = some id
  | _ => false

/-- What has arrived for a transaction. -/
@[ext] structure Arrived where
  results : Nat
  output : Bool
  notified : Bool

def arrived (P : Platform) (id hash : String) (es : List Event) : Arrived where
  results := es.countP (Event.isResult id hash)
  output := es.any (Event.carriesOutput id)
  notified := es.any (Event.notifies P id)

/-- One more event. -/
theorem arrived_snoc (P : Platform) (id hash : String) (es : List Event) (e : Event) :
    arrived P id hash (es ++ [e]) =
      { results := (arrived P id hash es).results + (e.isResult id hash).toNat
        output := (arrived P id hash es).output || e.carriesOutput id
        notified := (arrived P id hash es).notified || e.notifies P id } := by
  cases hresult : e.isResult id hash <;> simp [arrived, hresult]

/-- All that the verification waits for. The originating master has the full
transaction before the first result. -/
def Arrived.Complete (a : Arrived) (originating : Bool) : Prop :=
  14 ≤ a.results ∧ a.output = true ∧ (originating || a.notified) = true

/-- The client with this key has its result and the compute node its `canCommit`,
once each; or neither has anything. -/
def ClientServed (id key : String) (served : Bool) (responses commits : List Effect) : Prop :=
  match served with
  | true => (∃ output, responses = [.send key (.result id output none)]) ∧
      ∃ cid node, commits = [.gossip cid (.canCommit id node "")]
  | false => responses = [] ∧ commits = []

/-- If the transaction is verified and its client waits, its result can be printed. -/
def Printable (tx : Transaction) : Prop :=
  tx.isVerified = true → tx.canSend = true →
    (Reply.result tx.txId tx.output none).prints = true

instance {tx : Transaction} : Decidable (Printable tx) :=
  inferInstanceAs (Decidable (_ → _ → _))

/-- A step of an honest run: every result for `id` carries `hash`; the full
transaction comes from a client with the key `key` on the originating master,
under an id that is new there, and from complete notifications elsewhere; when a
result comes to the originating master, the transaction is there already, its
client is connected, a storage node is known, and a result that verifies it for
the waiting client leaves it with an output that can be printed. No exception and
no clean-up meets the transaction. -/
def Honest (P : Platform) (id hash key : String) (originating : Bool) (m : Master) (e : Event) :
    Prop :=
  match e.msg with
  | .exeFunction p => e.env.guid = id → Accepted P m p →
      originating = true ∧ p.base64publicKey = key ∧ (m.view id).held = none
  | .verificationResult txId h output => txId = id →
      h = hash ∧ (originating = true →
        (m.view id).held ≠ none ∧ e.env.wsServer.send key = .sent ∧ stateNode e.env m ≠ "" ∧
          ∀ tx ∈ (m.view id).held, Printable (counted tx h output))
  | .txNotification data => ∀ j ∈ P.parse data, j.stringAt "txid" = some id →
      originating = false ∧ (Transaction.fromJson j {}).2 = true ∧
        ∀ h ∈ j.stringAt "h", h = "" ∨ h = hash
  | .exception txId _ => txId ≠ id
  | .forwardedException txstr => idInJson P txstr ≠ some id
  | .cleanup => ∀ tx ∈ (m.view id).held, ¬ e.env.now - 60 > tx.timestamp
  | .closeBlock => True

/-! ## The invariant -/

section

variable (id hash key : String) (originating : Bool)

/-- The members of `tx` count what has arrived; its flags record what was done. -/
structure Counts (a : Arrived) (v : View) (appended : List Transaction) (tx : Transaction) :
    Prop where
  computeNode : tx.computeNode = originating
  publicKey : originating = true → tx.publicKey = key
  lastValidHash : tx.lastValidHash = "" ∨ tx.lastValidHash = hash
  results : tx.totalVerified = a.results
  output : tx.receivedOutput = a.output
  full : tx.receivedFullTransaction = (originating || a.notified)
  verified : tx.inBlock = true → tx.isVerified = true
  answered : tx.sentToClient = (originating && tx.inBlock)
  queuedOnce : appended.length = tx.inBlock.toNat
  served : ClientServed id key (originating && tx.inBlock) v.responses v.commits

/-- Nothing is behind a transaction that is not held; a held one is in a block
as soon as it is verified. -/
structure Tracks (a : Arrived) (v : View) (appended : List Transaction) : Prop where
  new : v.held = none → a = ⟨0, false, false⟩ ∧ appended = [] ∧
    ClientServed id key false v.responses v.commits
  held : ∀ tx ∈ v.held, Counts id hash key originating a v appended tx ∧
    (tx.isVerified = true → tx.inBlock = true)

end

variable {id hash key : String} {originating : Bool} {a a' : Arrived} {v : View}
  {appended : List Transaction}

/-- What has arrived decides whether a transaction is verified. -/
theorem Counts.isVerified_iff {tx : Transaction}
    (h : Counts id hash key originating a v appended tx) :
    tx.isVerified = true ↔ a.Complete originating := by
  rw [Transaction.isVerified_iff, h.results, h.output, h.full]
  unfold Arrived.Complete
  tauto

/-- A check that finds nothing to do. -/
theorem tracks_check_idle {env : Env} {node : String} {tx : Transaction}
    (h : Counts id hash key originating a v appended tx)
    (hanswers : answers env tx = false) (hqueues : queues env tx = false)
    (hdone : tx.isVerified = true → tx.inBlock = true) :
    Tracks id hash key originating a (v.check env node tx)
      (appended ++ (v.check env node tx).queued.drop v.queued.length) := by
  have hchecked : checked env tx = tx := by simp [checked, Master.answered, hqueues, hanswers]
  have hview : v.check env node tx = { v with held := some tx } := by
    simp [View.check, hqueues, hanswers, hchecked]
  rw [hview]
  constructor
  · intro hnone
    cases hnone
  · intro t ht
    cases ht
    refine ⟨?_, hdone⟩
    rw [List.drop_length, List.append_nil]
    exact { h with served := h.served }

/-- A check that finds the transaction verified for the first time serves the client, if it
is the master's to serve, and queues the transaction. -/
theorem tracks_check_first {env : Env} {node : String} {tx : Transaction} (hid : tx.txId = id)
    (h : Counts id hash key originating a v appended tx)
    (hcan : tx.canSend = (originating && !tx.inBlock)) (hverified : tx.isVerified = true)
    (hblock : tx.inBlock = false)
    (hclient : originating = true →
      env.wsServer.send key = .sent ∧ node ≠ "" ∧ Printable tx) :
    Tracks id hash key originating a (v.check env node tx)
      (appended ++ (v.check env node tx).queued.drop v.queued.length) := by
  have hunserved : v.responses = [] ∧ v.commits = [] := by
    have hserved := h.served
    rwa [hblock, Bool.and_false] at hserved
  -- the check runs through: the client is told or is not ours to tell
  have htold : originating = true → resultDelivery env tx = .sent := by
    intro horiginating
    rcases hclient horiginating with ⟨hsend, -, hprintable⟩
    have hprints := hprintable hverified (by simp [hcan, horiginating, hblock])
    simp [resultDelivery, Env.deliver, hprints, h.publicKey horiginating, hsend]
  have hraises : raises env tx = false := by
    cases originating with
    | false => simp [raises, hcan]
    | true => simp [raises, hcan, htold rfl]
  have hqueues : queues env tx = true := by simp [queues, hverified, hraises, hblock]
  have hanswers : answers env tx = originating := by
    cases originating with
    | false => simp [answers, hcan]
    | true => simp [answers, hverified, hcan, hblock, htold rfl]
  have hnow : (checked env tx).inBlock = true := by simp [checked_inBlock, hqueues]
  have hstays : (checked env tx).isVerified = true := by
    rw [Transaction.isVerified_iff] at hverified ⊢
    simpa using hverified
  -- nothing has been appended before
  have hempty : appended = [] := by
    have hlength := h.queuedOnce
    rwa [hblock, Bool.toNat_false, List.length_eq_zero_iff] at hlength
  constructor
  · intro hnone
    cases hnone
  · intro t ht
    cases ht
    refine ⟨?_, fun _ => hnow⟩
    constructor
    case computeNode => simpa using h.computeNode
    case publicKey => simpa using h.publicKey
    case lastValidHash => simpa using h.lastValidHash
    case results => simpa using h.results
    case output => simpa using h.output
    case full => simpa using h.full
    case verified => exact fun _ => hstays
    case answered => simp [checked_sentToClient, hnow, h.answered, hblock, hanswers]
    case queuedOnce => simp [View.check, hqueues, hnow, hempty]
    case served =>
      rw [hnow, Bool.and_true]
      cases originating with
      | false => simpa [ClientServed, View.check, hanswers] using hunserved
      | true =>
          have hnode := (hclient rfl).2.1
          simp [ClientServed, View.check, hanswers, hunserved, h.publicKey rfl, hid,
            htold rfl, hnode]

/-- The check serves the client and queues the transaction when it is verified
for the first time, and does nothing otherwise. -/
theorem tracks_check {env : Env} {node : String} {tx : Transaction} (hid : tx.txId = id)
    (h : Counts id hash key originating a v appended tx)
    (hclient : originating = true →
      env.wsServer.send key = .sent ∧ node ≠ "" ∧ Printable tx) :
    Tracks id hash key originating a (v.check env node tx)
      (appended ++ (v.check env node tx).queued.drop v.queued.length) := by
  have hcan : tx.canSend = (originating && !tx.inBlock) := by
    unfold Transaction.canSend
    rw [h.computeNode, h.answered]
    cases originating <;> simp
  -- `inBlock` records that this has happened before
  by_cases hfirst : tx.isVerified = true ∧ tx.inBlock = false
  case pos => exact tracks_check_first hid h hcan hfirst.1 hfirst.2 hclient
  case neg =>
      -- not verified yet, or queued before
      apply tracks_check_idle h
      · cases hblock : tx.inBlock <;> simp_all [answers]
      · cases hblock : tx.inBlock <;> simp_all [queues]
      · intro hverified
        simpa [hverified] using hfirst

/-- The transaction that a result or a notification of an unknown id creates. -/
theorem Counts.of_new {tx : Transaction}
    (hhash : tx.lastValidHash = "" ∨ tx.lastValidHash = hash)
    (hzero : tx = { ({} : Transaction) with
      txId := tx.txId, timestamp := tx.timestamp, lastValidHash := tx.lastValidHash })
    (hserved : ClientServed id key false v.responses v.commits) :
    Counts id hash key false ⟨0, false, false⟩ v [] tx := by
  rw [hzero]
  constructor <;> first | exact hhash | exact hserved | simp

/-- A result or a notification goes on with the held transaction, or creates one,
which does not happen on the originating master. -/
theorem Tracks.getD (h : Tracks id hash key originating a v appended) {tx : Transaction}
    (hhash : tx.lastValidHash = "" ∨ tx.lastValidHash = hash)
    (hzero : tx = { ({} : Transaction) with
      txId := tx.txId, timestamp := tx.timestamp, lastValidHash := tx.lastValidHash })
    (hother : v.held = none → originating = false) :
    Counts id hash key originating a v appended (v.held.getD tx) := by
  cases hheld : v.held with
  | some t => exact (h.held t hheld).1
  | none =>
      rcases h.new hheld with ⟨harrived, happended, hserved⟩
      rw [harrived, happended, hother hheld]
      exact .of_new hhash hzero hserved

/-- A result of the right hash is counted. -/
theorem Counts.counted {tx : Transaction} {output : String}
    (h : Counts id hash key originating a v appended tx) :
    Counts id hash key originating
      { a with results := a.results + 1, output := a.output || decide (output ≠ "") } v appended
      (Master.counted tx hash output) := by
  -- the hash is the one that is pinned, or the first one
  have hcounts : tx.lastValidHash = "" ∨ hash = tx.lastValidHash := by
    rcases h.lastValidHash with hempty | hsame
    · exact .inl hempty
    · exact .inr hsame.symm
  rw [counted_eq]
  constructor
  case computeNode => exact h.computeNode
  case publicKey => exact h.publicKey
  case lastValidHash =>
    dsimp only
    split
    · exact .inr rfl
    · exact h.lastValidHash
  case results => simp [hcounts, h.results]
  case output => simp [h.output]
  case full => exact h.full
  -- what was verified stays so
  case verified =>
    intro hblock
    have hverified := h.verified hblock
    rw [Transaction.isVerified_iff] at hverified ⊢
    rcases hverified with ⟨hvotes, hfull, houtput⟩
    exact ⟨hvotes.trans (Nat.le_add_right _ _), hfull, by simp [houtput]⟩
  case answered => exact h.answered
  case queuedOnce => exact h.queuedOnce
  case served => exact h.served

/-- A complete notification fills the transaction in. -/
theorem Counts.filled {tx : Transaction} {j : Json} {cid : String}
    (h : Counts id hash key false a v appended tx)
    (hcomplete : (Transaction.fromJson j tx).2 = true)
    (hhash : ∀ h ∈ j.stringAt "h", h = "" ∨ h = hash) :
    Counts id hash key false { a with notified := true } v appended
      { (Transaction.fromJson j tx).1 with computeNodeId := cid } := by
  have hfilled := Transaction.filledFrom_fromJson j tx
  have hfull := Transaction.fromJson_full hcomplete
  constructor
  case computeNode => exact hfilled.computeNode.trans h.computeNode
  case publicKey => exact fun horiginating => (by cases horiginating)
  -- the notification may pin a hash, and only the right one
  case lastValidHash =>
    rcases hfilled.lastValidHash with hsame | hread
    · rw [hsame]
      exact h.lastValidHash
    · exact hhash _ hread
  case results => exact hfilled.totalVerified.trans h.results
  case output => exact hfilled.receivedOutput.trans h.output
  case full => simpa using hfull
  case verified =>
    intro hblock
    have hverified := h.verified (hfilled.inBlock.symm.trans hblock)
    rw [Transaction.isVerified_iff] at hverified ⊢
    dsimp only
    rw [hfilled.totalVerified, hfilled.receivedOutput]
    exact ⟨hverified.1, hfull, hverified.2.2⟩
  case answered => simpa [hfilled.inBlock] using hfilled.sentToClient.trans h.answered
  case queuedOnce => simpa [hfilled.inBlock] using h.queuedOnce
  case served => simpa [hfilled.inBlock] using h.served

/-! ## The run -/

/-- Every step of an honest run keeps the transaction on its way. -/
theorem tracks_step {es : List Event} (m : Master) (e : Event) (m' : Master)
    (hinv : Tracks id hash key originating (arrived P id hash es) (m.view id) appended)
    (hok : Honest P id hash key originating m e) (hstep : handle P m e = some m') :
    Tracks id hash key originating (arrived P id hash (es ++ [e])) (m'.view id)
      (appended ++ enqueued id m e m') := by
  have hv := viewStep hstep id
  rw [arrived_snoc]
  unfold Honest at hok
  unfold enqueued
  generalize m'.view id = v at hv
  cases hv with
  | same h =>
      -- an event that does not concern the transaction brings nothing for it
      have hnothing : e.isResult id hash = false ∧ e.carriesOutput id = false ∧
          e.notifies P id = false := by
        simp only [Event.isResult, Event.carriesOutput, Event.notifies]
        unfold Concerns at h
        split at h <;> simp_all
      rw [hnothing.1, hnothing.2.1, hnothing.2.2]
      split <;> simpa using hinv
  | counted _ output hmsg =>
      rw [hmsg] at hok
      rcases hok rfl with ⟨rfl, hclient⟩
      simp only [Event.isResult, Event.carriesOutput, Event.notifies, hmsg, decide_true,
        Bool.and_self, Bool.toNat_true, Bool.true_and, Bool.or_false]
      apply tracks_check
      · rw [counted_txId]
        exact getD_ofResult_txId m id _ _
      · apply Counts.counted
        apply hinv.getD (.inr rfl) rfl
        -- a result that finds no transaction comes to another master
        intro hheld
        by_contra hnot
        exact (hclient (by simpa using hnot)).1 hheld
      · intro horiginating
        rcases hclient horiginating with ⟨hheld, hsend, hnode, hprintable⟩
        refine ⟨hsend, hnode, ?_⟩
        rcases Option.ne_none_iff_exists'.mp hheld with ⟨tx, htx⟩
        rw [htx, Option.getD_some]
        exact hprintable tx htx
  | notified data j cid node hmsg hj hid =>
      rw [hmsg] at hok
      rcases hok j hj hid with ⟨rfl, hcomplete, hhash⟩
      have hnotifies : idInJson P data = some id := by simp [idInJson, hj, hid]
      simp only [Event.isResult, Event.carriesOutput, Event.notifies, hmsg, hnotifies, decide_true,
        Bool.toNat_false, Nat.add_zero, Bool.or_false, Bool.or_true]
      apply tracks_check
      · exact Transaction.fromJson_txId hid _
      · refine Counts.filled ?_ (Transaction.fromJson_complete hcomplete _) hhash
        exact hinv.getD (.inl rfl) rfl fun _ => rfl
      · exact fun horiginating => (by cases horiginating)
  | partially data j hmsg hj hid hincomplete =>
      -- notifications are complete in an honest run
      rw [hmsg] at hok
      rcases hok j hj hid with ⟨-, hcomplete, -⟩
      rw [Transaction.fromJson_complete hcomplete] at hincomplete
      cases hincomplete
  | drawn p cid hmsg hguid haccepted =>
      rw [hmsg] at hok
      rcases hok hguid haccepted with ⟨rfl, hkey, hheld⟩
      rcases hinv.new hheld with ⟨harrived, happended, hserved⟩
      simp only [Event.isResult, Event.carriesOutput, Event.notifies, hmsg, harrived, happended,
        hheld]
      constructor
      · intro hnone
        cases hnone
      · intro t ht
        cases ht
        constructor
        case left =>
          constructor <;> simp [CodePacket.transaction, Transaction.ofOrigin, hkey]
          exact hserved
        case right => simp [CodePacket.transaction, Transaction.ofOrigin, Transaction.isVerified_iff]
  | untold exp tx hmsg | unprinted exp tx hmsg | failed exp tx hmsg =>
      rw [hmsg] at hok
      exact absurd rfl hok
  | forwarded txstr queued hmsg hid =>
      rw [hmsg] at hok
      exact absurd hid hok
  | cleaned hmsg =>
      -- the clean-up does not meet the transaction
      rw [hmsg] at hok
      have hkept : (m.view id).held.filter (fun tx => !decide (e.env.now - 60 > tx.timestamp)) =
          (m.view id).held := by
        cases hheld : (m.view id).held with
        | none => rfl
        | some tx => simpa [Option.filter] using hok tx hheld
      simpa [Event.isResult, Event.carriesOutput, Event.notifies, hmsg, hkept] using hinv
  | closed hmsg =>
      have hnew := hinv.new
      have hheld := hinv.held
      simp only [Event.isResult, Event.carriesOutput, Event.notifies, hmsg, Bool.toNat_false,
        Nat.add_zero, Bool.or_false, List.append_nil]
      exact ⟨hnew, fun tx h => ⟨{ (hheld tx h).1 with }, (hheld tx h).2⟩⟩

instance {m : Master} {e : Event} : Decidable (Honest P id hash key originating m e) :=
  match e with
  | ⟨env, .exeFunction p⟩ => inferInstanceAs (Decidable (env.guid = id → Accepted P m p →
      originating = true ∧ p.base64publicKey = key ∧ (m.view id).held = none))
  | ⟨env, .verificationResult txId h output⟩ => inferInstanceAs (Decidable (txId = id →
      h = hash ∧ (originating = true →
        (m.view id).held ≠ none ∧ env.wsServer.send key = .sent ∧ stateNode env m ≠ "" ∧
          ∀ tx ∈ (m.view id).held, Printable (counted tx h output))))
  | ⟨_, .txNotification data⟩ => inferInstanceAs (Decidable
      (∀ j ∈ P.parse data, j.stringAt "txid" = some id →
        originating = false ∧ (Transaction.fromJson j {}).2 = true ∧
          ∀ h ∈ j.stringAt "h", h = "" ∨ h = hash))
  | ⟨_, .exception txId _⟩ => inferInstanceAs (Decidable (txId ≠ id))
  | ⟨_, .forwardedException txstr⟩ => inferInstanceAs (Decidable (idInJson P txstr ≠ some id))
  | ⟨env, .cleanup⟩ => inferInstanceAs (Decidable
      (∀ tx ∈ (m.view id).held, ¬ env.now - 60 > tx.timestamp))
  | ⟨_, .closeBlock⟩ => instDecidableTrue

/-- The client's request, and 14 results of which the first carries the output. -/
def honestEvents : List Event :=
  ⟨Sample.env, .exeFunction Sample.packet⟩ ::
    (Sample.results 1 "a" "out" ++ Sample.results 13 "a" "")

/-- The bytes of a surrogate, which no UTF-8 has. -/
def surrogate : String := "\u00ed\u00a0\u0080"

end DecentralizedCloud
