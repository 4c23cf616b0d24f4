import DecentralizedCloud.Master.Machine
import DecentralizedCloud.Master.Rounds

/-!
# Membership of the 21

When a voting phase closes, the list of producers is made anew, and the node
joins the channel of the 21 masters or leaves it. In between the closing prints
the record of all elections. The key of a voter is whatever its vote carries, for
instance a key in binary form, and when it is not UTF-8 the print raises: the list
is made and the flag is not, and a master that produces blocks refuses every
request (`elected_not_subscribed`).

Between two closings nothing touches either. So as long as no closing elects a key
that does not print, the flag `subscribedTo21` says at any time whether the node is
among the producers (`subscribed_iff_elected`).

Other parts of a master only look at the flag. A master that produces blocks is
on the channel therefore, and one that is not among the producers refuses every
request of a client.
-/

namespace DecentralizedCloud

open Machine Master Node Utf8

namespace Master

/-- An entry of the list of producers carries the node's own id. -/
def Elected (m : Master) : Prop := ∃ v ∈ m.blockProducers, v.publicKey = m.nodeId

/-- `processCodePacket` takes the request on: it keeps a transaction for it, or tells the
other masters. -/
def TakesOn (P : Platform) (env : Env) (m : Master) (p : CodePacket) : Prop :=
  (processCodePacket P env m p).transactions ≠ m.transactions ∨
    ∃ tx, .gossip "master21" (.txNotification p.htxid tx) ∈
      (processCodePacket P env m p).sent.drop m.sent.length

end Master

/-- A turn of the loop, or a vote from another master. When a closing raises before it
has done anything else, the phase is over nonetheless. -/
def membershipStep (P : Platform) (S : KeySort Voter.number) (L : NodeLibrary) :
    Step Node VotingEvent :=
  fun n e =>
    match e with
    | .clock now => some ((enterAndExitVotingPhase P S now n).getD { n with inVotingPhase := false })
    | .vote signature publicKey => some (n.registerVote L signature publicKey)

/-- A step that elects no key that does not print: when it closes a voting phase with
votes, the keys elected so far and those elected now are UTF-8. -/
def ElectsPrintable (S : KeySort Voter.number) (n : Node) (e : VotingEvent) : Prop :=
  match e with
  | .clock now => inVotingTime now = false → n.inVotingPhase = true →
      n.randomNumbers.length > 1 →
        n.recordPrints = true ∧ ∀ v ∈ elected S n.randomNumbers, isUtf8 v.publicKey = true
  | .vote _ _ => True

variable {P : Platform} {S : KeySort Voter.number} {L : NodeLibrary} {n n' : Node} {m : Master}
  {env : Env} {p : CodePacket}

/-! ## The flag along a run -/

/-- The flag mirrors the list. -/
def Mirrors (m : Master) : Prop :=
  m.subscribedTo21 = m.blockProducers.any fun v => v.publicKey = m.nodeId

theorem Mirrors.iff_elected (h : Mirrors m) : m.subscribedTo21 = true ↔ Elected m := by
  unfold Mirrors at h
  rw [h, List.any_eq_true]
  simp only [decide_eq_true_eq]
  rfl

theorem openVoting_master (P : Platform) (n : Node) : (openVoting P n).master = n.master := by
  rcases openVoting_cases P n with h | ⟨_, h⟩ <;> rw [h]

theorem registerVote_master (L : NodeLibrary) (n : Node) (signature publicKey : String) :
    (n.registerVote L signature publicKey).master = n.master := by
  rcases registerVote_cases L n signature publicKey with h | ⟨_, _, _, h⟩ <;> rw [h]

/-- A step leaves master and flag alone, or closes a voting phase. -/
theorem mirrors_step {e : VotingEvent} (h : Mirrors n.master) (hok : ElectsPrintable S n e)
    (hstep : membershipStep P S L n e = some n') : Mirrors n'.master := by
  cases e with
  | vote signature publicKey =>
      cases hstep
      rw [registerVote_master]
      exact h
  | clock now =>
      cases hstep
      cases hturn : enterAndExitVotingPhase P S now n with
      | none => exact h
      | some n' =>
          show Mirrors n'.master
          cases phaseStep hturn with
          | same _ => exact h
          | opened _ _ =>
              rw [openVoting_master]
              exact h
          | closed _ htime hphase hclose =>
              exact subscribedTo21_of_close hclose
                (recordRaises_of_close hclose (hok htime hphase))

theorem mirrors_run {n₀ : Node} (hproducers : n₀.master.blockProducers = [])
    (hsubscribed : n₀.master.subscribedTo21 = false) {es : List VotingEvent}
    (h : Trace (membershipStep P S L) (ElectsPrintable S) n₀ es n) : Mirrors n.master := by
  refine h.invariant (fun _ n => Mirrors n.master) ?_ ?_
  · rw [Mirrors, hproducers, hsubscribed]
    rfl
  · intro _ n e n' hinv hok hstep
    exact mirrors_step hinv hok hstep

/-! ## What looks at the flag -/

theorem elected_of_isBlockProducer (h : isBlockProducer env m = true) : Elected m := by
  unfold isBlockProducer at h
  split at h
  · cases h
  · rename_i i _
    rcases (Option.any_eq_true _ _).mp h with ⟨v, hv, hid⟩
    exact ⟨v, List.mem_of_getElem? hv, of_decide_eq_true hid⟩

/-- A reply to the client is no message to the other masters. -/
theorem not_gossip_of_wsSend (reply : Reply) (channel key : String) (message : Message) :
    .gossip channel message ∉ ((wsSend env m key reply).getD m).sent.drop m.sent.length := by
  unfold wsSend
  split <;> simp

theorem transactions_of_wsSend {reply : Reply} {key : String} :
    ((wsSend env m key reply).getD m).transactions = m.transactions := by
  unfold wsSend
  split <;> rfl

/-- What was sent before stays sent. -/
theorem mem_sent_sendToVerifier {k : Nat} {e : Effect} (h : e ∈ m.sent.drop k)
    (tx : Transaction) : e ∈ (sendToVerifier env m tx).1.sent.drop k := by
  obtain ⟨rest, hrest⟩ : ∃ rest, (sendToVerifier env m tx).1.sent = m.sent ++ rest := by
    unfold sendToVerifier getStateChangeStorageNode
    dsimp only
    split
    · exact ⟨[], (List.append_nil _).symm⟩
    · split <;> simp [List.append_assoc]
  rw [hrest, List.drop_append]
  exact List.mem_append_left _ h

/-- A request that does not pass both checks is not taken on. -/
theorem accepted_of_takesOn (h : TakesOn P env m p) : Accepted P m p := by
  unfold TakesOn processCodePacket at h
  by_cases hverify : P.verifyEd25519Signature p.message p.base64publicKey p.base64signature = true
  case neg =>
      rw [if_pos (by simpa using hverify)] at h
      simp at h
  case pos =>
      refine ⟨hverify, ?_⟩
      by_contra hsubscribed
      rw [if_neg (by simpa using hverify), if_pos (by simpa using hsubscribed)] at h
      rcases h with hkept | ⟨tx, htold⟩
      · exact hkept transactions_of_wsSend
      · exact not_gossip_of_wsSend _ _ _ _ htold

/-- One that passes both is, when its transaction can be printed. -/
theorem takesOn_of_accepted (h : Accepted P m p)
    (hprints : (m.transactions.insert
      (p.transaction env.guid env.now m.nodeId)).2.toJson.prints = true) :
    TakesOn P env m p := by
  unfold TakesOn processCodePacket
  rw [if_neg (by simp [h.1]), if_neg (by simp [h.2])]
  dsimp only
  rw [if_neg (by simp [hprints])]
  -- the notification is the first effect, whatever the verifier is sent
  refine .inr ⟨(m.transactions.insert (p.transaction env.guid env.now m.nodeId)).2.toJson, ?_⟩
  apply mem_sent_sendToVerifier
  simp

/-- In every state of a run that starts without producers and elects no key that does
not print, the node is on the channel of the 21 if and only if it is among them; a
producer of blocks is, and requests are only taken on while the node is. -/
theorem subscribed_iff_elected (P : Platform) (S : KeySort Voter.number) (L : NodeLibrary)
    {n₀ : Node} (hproducers : n₀.master.blockProducers = [])
    (hsubscribed : n₀.master.subscribedTo21 = false) {es : List VotingEvent}
    (h : Trace (membershipStep P S L) (ElectsPrintable S) n₀ es n) :
    (n.master.subscribedTo21 = true ↔ Elected n.master) ∧
      (∀ env, isBlockProducer env n.master = true → n.master.subscribedTo21 = true) ∧
      ∀ env p, TakesOn P env n.master p → Elected n.master := by
  have hiff : n.master.subscribedTo21 = true ↔ Elected n.master :=
    (mirrors_run hproducers hsubscribed h).iff_elected
  refine ⟨hiff, ?_, ?_⟩
  · intro env hproducer
    exact hiff.mpr (elected_of_isBlockProducer hproducer)
  · intro env p htakes
    exact hiff.mp (accepted_of_takesOn htakes).2

instance {e : VotingEvent} : Decidable (ElectsPrintable S n e) :=
  match e with
  | .clock now => inferInstanceAs (Decidable (inVotingTime now = false → n.inVotingPhase = true →
      n.randomNumbers.length > 1 →
        n.recordPrints = true ∧ ∀ v ∈ elected S n.randomNumbers, isUtf8 v.publicKey = true))
  | .vote _ _ => instDecidableTrue

namespace Sample

/-- A node that is not on the channel. -/
def unsubscribedNode : Node :=
  { votingNode with master := { votingNode.master with subscribedTo21 := false } }

/-- A library that takes every text for a key. -/
def anyKeyLibrary : NodeLibrary := { votingLibrary with isPublicKey := fun _ => true }

/-- The first bytes of a key in binary form, of which the second is no UTF-8. -/
def binaryKey : String := "0\u0082"

end Sample

/-- A node is elected together with another one, and once more in the next hour. -/
theorem subscribed_iff_elected_rounds :
    ∃ n, Trace (membershipStep Sample.votingPlatform Sample.voteSort Sample.votingLibrary)
        (ElectsPrintable Sample.voteSort) Sample.unsubscribedNode twoVoters n ∧
      n.master.subscribedTo21 = true ∧ Elected n.master := by
  obtain ⟨n, htrace, hsubscribed⟩ :
      ∃ n, Trace (membershipStep Sample.votingPlatform Sample.voteSort Sample.votingLibrary)
          (ElectsPrintable Sample.voteSort) Sample.unsubscribedNode twoVoters n ∧
        n.master.subscribedTo21 = true := exists_trace_of_exec _ (by decide +kernel)
  exact ⟨n, htrace, hsubscribed,
    (subscribed_iff_elected _ _ _ (by decide) (by decide) htrace).1.mp hsubscribed⟩

/-- A node is elected together with a voter whose key is in binary form: the closing
raises, and the node is among the producers without being on the channel. -/
theorem elected_not_subscribed :
    ∃ n, Run (membershipStep Sample.votingPlatform Sample.voteSort Sample.anyKeyLibrary)
        Sample.unsubscribedNode
        [.clock 3300, .vote (Sample.binaryKey ++ "3300") Sample.binaryKey, .clock 3600] n ∧
      Elected n.master ∧ n.master.subscribedTo21 = false := by
  obtain ⟨n, hrun, hcheck⟩ :
      ∃ n, Run (membershipStep Sample.votingPlatform Sample.voteSort Sample.anyKeyLibrary)
          Sample.unsubscribedNode
          [.clock 3300, .vote (Sample.binaryKey ++ "3300") Sample.binaryKey, .clock 3600] n ∧
        decide ((∃ v ∈ n.master.blockProducers, v.publicKey = n.master.nodeId) ∧
          n.master.subscribedTo21 = false) = true := exists_trace_of_exec _ (by decide +kernel)
  rcases of_decide_eq_true hcheck with ⟨helected, hsubscribed⟩
  exact ⟨n, hrun, helected, hsubscribed⟩

end DecentralizedCloud
