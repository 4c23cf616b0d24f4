import DecentralizedCloud.Master.Machine

/-!
# What an event does to the flags

The flags of a held transaction (its compute node was chosen here, its client is
answered, it is in a block) say what the master has done about it. Only a check
sets one, and only the constructor of `processCodePacket` makes a transaction
with one: every other event keeps the flags of the held transaction, drops it,
or starts from a transaction without any.

`FlagStep` is `ViewStep` up to what the flags do not depend on.
-/

namespace DecentralizedCloud

open Master

/-- `tx'` has the flags of `tx`. -/
structure SameFlags (tx tx' : Transaction) : Prop where
  computeNode : tx'.computeNode = tx.computeNode
  sentToClient : tx'.sentToClient = tx.sentToClient
  inBlock : tx'.inBlock = tx.inBlock

theorem SameFlags.refl (tx : Transaction) : SameFlags tx tx := ⟨rfl, rfl, rfl⟩

theorem SameFlags.excepted (tx : Transaction) (exp : String) :
    SameFlags tx (excepted tx exp) := ⟨rfl, rfl, rfl⟩

theorem SameFlags.fromJson (j : Json) (tx : Transaction) :
    SameFlags tx (Transaction.fromJson j tx).1 := by
  have hfilled := Transaction.filledFrom_fromJson j tx
  exact ⟨hfilled.computeNode, hfilled.sentToClient, hfilled.inBlock⟩

variable {P : Platform} {m m' : Master} {e : Event} {id : String}

/-- The transaction that a result or a notification hands to the check. -/
inductive Handed (P : Platform) (m : Master) (e : Event) (id : String) : Transaction → Prop where
  | counted (hash output : String) (hmsg : e.msg = .verificationResult id hash output) :
      Handed P m e id
        (counted ((m.view id).held.getD (.ofResult id hash e.env.now)) hash output)
  | notified (data : String) (j : Json) (cid : String) (hmsg : e.msg = .txNotification data)
      (hj : P.parse data = some j) (hid : j.stringAt "txid" = some id) :
      Handed P m e id
        { (Transaction.fromJson j ((m.view id).held.getD {})).1 with computeNodeId := cid }

/-- The check sees the flags of the held transaction, none when there is none. -/
theorem Handed.sameFlags {tx : Transaction} (h : Handed P m e id tx) :
    SameFlags ((m.view id).held.getD {}) tx := by
  cases h with
  | counted hash output =>
      rw [counted_eq]
      cases (m.view id).held with
      | none => exact ⟨rfl, rfl, rfl⟩
      | some tx => exact ⟨rfl, rfl, rfl⟩
  | notified data j cid =>
      have hfilled := SameFlags.fromJson j ((m.view id).held.getD {})
      exact ⟨hfilled.computeNode, hfilled.sentToClient, hfilled.inBlock⟩

/-- The view of `id` after the event `e` in the state `m`, as far as flags go. -/
inductive FlagStep (P : Platform) (m : Master) (e : Event) (id : String) : View → Prop where
  | checked (tx : Transaction) (node : String) (hhanded : Handed P m e id tx) :
      FlagStep P m e id ((m.view id).check e.env node tx)
  /-- the held transaction is kept with the flags it has; a clean-up may drop it -/
  | replaced (held : Option Transaction)
      (hheld : ∀ tx' ∈ held, ∃ tx ∈ (m.view id).held, SameFlags tx tx')
      (hkept : e.msg ≠ .cleanup → held.isSome = (m.view id).held.isSome) :
      FlagStep P m e id { m.view id with held }
  | drawn (p : CodePacket) (cid : String) (hmsg : e.msg = .exeFunction p) (hguid : e.env.guid = id)
      (haccepted : Accepted P m p) :
      FlagStep P m e id { m.view id with
        held := some { (m.view id).held.getD (p.transaction id e.env.now m.nodeId) with
          computeNodeId := cid } }
  /-- the client was told of the exception, but the transaction stays -/
  | unprinted (exp : String) (tx : Transaction) (hmsg : e.msg = .exception id exp)
      (hheld : (m.view id).held = some tx)
      (hprints : (excepted tx exp).toJson.prints = false) :
      FlagStep P m e id { m.view id with
        held := some (excepted tx exp)
        responses := (m.view id).told e.env id exp tx }
  | failed (exp : String) (tx : Transaction) (hmsg : e.msg = .exception id exp)
      (hheld : (m.view id).held = some tx)
      (hreply : ¬ (tx.computeNode = true ∧
        e.env.deliver tx.publicKey (.exception id exp) = .raised))
      (hprints : (excepted tx exp).toJson.prints = true) :
      FlagStep P m e id { m.view id with
        held := none
        queued :=
          if isBlockProducer e.env m then (m.view id).queued ++ [excepted tx exp]
          else (m.view id).queued
        responses := (m.view id).told e.env id exp tx }
  | forwarded (txstr : String) (queued : List Transaction)
      (hmsg : e.msg = .forwardedException txstr) (hid : idInJson P txstr = some id) :
      FlagStep P m e id { m.view id with queued := (m.view id).queued ++ queued }
  | closed (hmsg : e.msg = .closeBlock) :
      FlagStep P m e id { m.view id with
        queued := (notDue P e.env m).filter fun tx => tx.txId = id }

/-- How a step can change the flags of one transaction. -/
theorem flagStep (h : handle P m e = some m') (id : String) : FlagStep P m e id (m'.view id) := by
  have hv := viewStep h id
  generalize m'.view id = v at hv
  cases hv with
  | same => exact .replaced (m.view id).held (fun tx htx => ⟨tx, htx, .refl tx⟩) fun _ => rfl
  | counted hash output hmsg => exact .checked _ _ (.counted hash output hmsg)
  | notified data j cid node hmsg hj hid => exact .checked _ _ (.notified data j cid hmsg hj hid)
  -- an incomplete notification only fills the transaction in
  | partially data j =>
      apply FlagStep.replaced
      · intro t ht
        rcases Option.map_eq_some_iff.mp ht with ⟨tx, hheld, rfl⟩
        exact ⟨tx, hheld, .fromJson j tx⟩
      · intro _
        exact Option.isSome_map
  | drawn p cid hmsg hguid haccepted => exact .drawn p cid hmsg hguid haccepted
  -- the client of an exception cannot be told
  | untold exp tx hmsg hheld =>
      apply FlagStep.replaced
      · intro t ht
        cases ht
        exact ⟨tx, hheld, .excepted tx exp⟩
      · intro _
        rw [hheld]
        rfl
  | unprinted exp tx hmsg hheld hprints => exact .unprinted exp tx hmsg hheld hprints
  | failed exp tx hmsg hheld hreply hprints => exact .failed exp tx hmsg hheld hreply hprints
  | forwarded txstr queued hmsg hid => exact .forwarded txstr queued hmsg hid
  -- what is held after a clean-up was held before
  | cleaned hmsg =>
      apply FlagStep.replaced
      · intro t ht
        exact ⟨t, (Option.filter_eq_some_iff.mp ht).1, .refl t⟩
      · intro hne
        exact absurd hmsg hne
  | closed hmsg => exact .closed hmsg

/-! ## The check and the flags -/

/-- The check answers a client only for a transaction that is verified, whose
compute node was chosen here and whose client waits. -/
theorem answers_iff {env : Env} {tx : Transaction} :
    answers env tx = true ↔ tx.isVerified = true ∧ tx.sentToClient = false ∧
      tx.computeNode = true ∧ resultDelivery env tx ≠ .raised := by
  simp [answers, Transaction.canSend, and_assoc]

/-- A check without an answer sends nothing and leaves the mark of an answer as it was. -/
theorem check_unanswered {env : Env} {node : String} {tx : Transaction} {v : View}
    (h : answers env tx = false) :
    (v.check env node tx).responses = v.responses ∧ (v.check env node tx).commits = v.commits ∧
      (checked env tx).sentToClient = tx.sentToClient := by
  simp [View.check, h, checked_sentToClient]

end DecentralizedCloud
