import DecentralizedCloud.Master.Election
import DecentralizedCloud.Master.VerifyBlock

/-!
# Round after round

The votes of a round are counted when its phase closes, and the list of votes
is emptied for the next round, but only when it holds more than one vote. A lone
vote is not counted, and stays. It belongs to the next round then, where it was
not cast: together with one vote of that round it makes a list of two, and both
are elected, whoever they are from. When the lone voter is the node itself, it
appears there twice, since its own vote joins the list without a look at it.

So every closing of a run elects voters of its own round only, each once, and
leaves no vote behind, if and only if no closing finds a single vote
(`rounds_iff`).
-/

namespace DecentralizedCloud

open Machine Master Node

/-- A turn of the loop at a time of the clock, or a vote from another master. -/
inductive VotingEvent where
  | clock (now : Int)
  | vote (signature publicKey : String)

def votingStep (P : Platform) (S : KeySort Voter.number) (L : NodeLibrary) :
    Step Node VotingEvent :=
  fun n e =>
    match e with
    | .clock now => enterAndExitVotingPhase P S now n
    | .vote signature publicKey => some (n.registerVote L signature publicKey)

/-- What there is to say about the closing of a voting phase. -/
structure Closing where
  /-- the timestamp that the votes of the round have signed -/
  votingTimestamp : String
  /-- the votes that were cast in the round -/
  cast : List Voter
  /-- `randomNumbers` before and after -/
  found : List Voter
  left : List Voter
  blockProducers : List Voter
deriving DecidableEq

/-- A node, the votes cast since the last closing, and the closings so far. -/
structure Rounds where
  node : Node
  cast : List Voter
  closings : List Closing

/-- The node has moved on, and votes may have joined its list. -/
def Rounds.join (r : Rounds) (node : Node) : Rounds :=
  { r with
    node
    cast := r.cast ++ node.randomNumbers.drop r.node.randomNumbers.length }

/-- The node has closed its voting phase. -/
def Rounds.close (r : Rounds) (node : Node) : Rounds where
  node
  cast := []
  closings := r.closings ++ [{
    votingTimestamp := r.node.nextVotingTimestampStr
    cast := r.cast
    found := r.node.randomNumbers
    left := node.randomNumbers
    blockProducers := node.master.blockProducers }]

/-- A step of the node, which is recorded. -/
def roundStep (P : Platform) (S : KeySort Voter.number) (L : NodeLibrary) :
    Step Rounds VotingEvent :=
  fun r e => (votingStep P S L r.node e).map fun node =>
    if r.node.inVotingPhase && !node.inVotingPhase then r.close node else r.join node

/-- The signature of a vote was made over the timestamp, by the node itself or
with the key of the voter. -/
def SignedOver (P : Platform) (L : NodeLibrary) (nodeId votingTimestamp : String) (v : Voter) :
    Prop :=
  (v.publicKey = nodeId ∧ v.signature = P.createX509Signature votingTimestamp nodeId) ∨
    checksOut L votingTimestamp v.signature v.publicKey = true

/-- All the votes of the round are from one voter. -/
def OnlyVoter (key : String) (cast : List Voter) : Prop :=
  cast ≠ [] ∧ ∀ v ∈ cast, v.publicKey = key

/-- A closing elects voters of its round, each once, but no lone one, and leaves no vote. -/
structure ElectsItsVoters (P : Platform) (L : NodeLibrary) (nodeId : String) (c : Closing) :
    Prop where
  distinct : (c.blockProducers.map (·.publicKey)).Nodup
  signed : ∀ v ∈ c.blockProducers, SignedOver P L nodeId c.votingTimestamp v
  several : ∀ key, OnlyVoter key c.cast → key ∉ c.blockProducers.map (·.publicKey)
  left : c.left = []

variable {P : Platform} {S : KeySort Voter.number} {L : NodeLibrary} {nodeId : String}
  {votes : List Voter}

/-! ## One closing -/

/-- Only a single vote is left behind. -/
theorem leftover_eq_nil_iff : leftover votes = [] ↔ votes.length ≠ 1 := by
  unfold leftover
  split
  case isTrue h =>
      constructor
      · intro _
        omega
      · intro _
        rfl
  case isFalse h =>
      rw [← List.length_eq_zero_iff]
      omega

theorem mem_of_mem_elected {v : Voter} (h : v ∈ elected S votes) : v ∈ votes := by
  unfold elected at h
  split at h
  · exact (S.perm votes).mem_iff.mp (List.mem_filter.mp (List.mem_of_mem_take h)).1
  · cases h

/-- Different voters are elected once each. -/
theorem nodup_elected (h : (votes.map (·.publicKey)).Nodup) :
    ((elected S votes).map (·.publicKey)).Nodup := by
  unfold elected
  split
  · have hsorted : ((S.sort votes).map (·.publicKey)).Nodup :=
      ((S.perm votes).map (·.publicKey)).nodup_iff.mpr h
    have hsub : (((S.sort votes).filter (·.valid)).take TOTAL_MASTER_NODES).Sublist
        (S.sort votes) := (List.take_sublist _ _).trans List.filter_sublist
    exact hsorted.sublist (hsub.map _)
  · exact List.nodup_nil

/-- A list of different voters that are all one voter is a single vote. -/
theorem length_of_onlyVoter {key : String} (hdistinct : (votes.map (·.publicKey)).Nodup)
    (h : OnlyVoter key votes) : votes.length = 1 := by
  rcases h with ⟨hne, hall⟩
  have hreplicate : votes.map (·.publicKey) = List.replicate votes.length key := by
    rw [List.eq_replicate_iff]
    refine ⟨List.length_map _, ?_⟩
    intro k hk
    rcases List.mem_map.mp hk with ⟨v, hv, rfl⟩
    exact hall v hv
  rw [hreplicate, List.nodup_replicate] at hdistinct
  have hpos : 0 < votes.length := List.length_pos_iff.mpr hne
  omega

/-! ## The invariant -/

/-- The list of votes is the round's: different voters, whose signatures are over
the timestamp of the round, this node among them only while the phase is open. -/
structure OwnVotes (P : Platform) (L : NodeLibrary) (nodeId : String) (r : Rounds) : Prop where
  cast : r.node.randomNumbers = r.cast
  distinct : (r.node.randomNumbers.map (·.publicKey)).Nodup
  signed : ∀ v ∈ r.node.randomNumbers, SignedOver P L nodeId r.node.nextVotingTimestampStr v
  own : nodeId ∈ r.node.randomNumbers.map (·.publicKey) → r.node.inVotingPhase = true

/-- What is recorded of a closing is right; and as long as no closing has found a
single vote, every closing elected its voters and the list is the round's. -/
structure RoundsInv (P : Platform) (L : NodeLibrary) (nodeId : String) (r : Rounds) : Prop where
  sameNode : r.node.master.nodeId = nodeId
  left : ∀ c ∈ r.closings, c.left = leftover c.found
  elects : (∀ c ∈ r.closings, c.found.length ≠ 1) →
    OwnVotes P L nodeId r ∧ ∀ c ∈ r.closings, ElectsItsVoters P L nodeId c

variable {r r' : Rounds} {e : VotingEvent} {node : Node}

/-- No vote joins the list. -/
theorem RoundsInv.join_same (h : RoundsInv P L nodeId r)
    (hnode : node.master.nodeId = r.node.master.nodeId)
    (hlist : node.randomNumbers = r.node.randomNumbers)
    (hstamp : node.nextVotingTimestampStr = r.node.nextVotingTimestampStr)
    (hphase : r.node.inVotingPhase = true → node.inVotingPhase = true) :
    RoundsInv P L nodeId (r.join node) := by
  refine ⟨hnode.trans h.sameNode, h.left, ?_⟩
  intro hfound
  rcases h.elects hfound with ⟨hown, helects⟩
  refine ⟨⟨?_, ?_, ?_, ?_⟩, helects⟩
  · show node.randomNumbers = r.cast ++ node.randomNumbers.drop r.node.randomNumbers.length
    rw [hlist, List.drop_length, List.append_nil, hown.cast]
  · show (node.randomNumbers.map (·.publicKey)).Nodup
    rw [hlist]
    exact hown.distinct
  · intro v hv
    show SignedOver P L nodeId node.nextVotingTimestampStr v
    have hv' : v ∈ r.node.randomNumbers := hlist ▸ hv
    rw [hstamp]
    exact hown.signed v hv'
  · intro hmem
    have hmem' : nodeId ∈ r.node.randomNumbers.map (·.publicKey) := hlist ▸ hmem
    exact hphase (hown.own hmem')

/-- A vote joins the list: its voter has not voted in this round, and when the
voter is this node, the phase is open now. -/
theorem RoundsInv.join_vote (h : RoundsInv P L nodeId r) {v : Voter}
    (hnode : node.master.nodeId = r.node.master.nodeId)
    (hlist : node.randomNumbers = r.node.randomNumbers ++ [v])
    (hstamp : node.nextVotingTimestampStr = r.node.nextVotingTimestampStr)
    (hphase : r.node.inVotingPhase = true → node.inVotingPhase = true)
    (hnew : OwnVotes P L nodeId r → v.publicKey ∉ r.node.randomNumbers.map (·.publicKey))
    (hsigned : SignedOver P L nodeId r.node.nextVotingTimestampStr v)
    (hopen : v.publicKey = nodeId → node.inVotingPhase = true) :
    RoundsInv P L nodeId (r.join node) := by
  refine ⟨hnode.trans h.sameNode, h.left, ?_⟩
  intro hfound
  rcases h.elects hfound with ⟨hown, helects⟩
  refine ⟨⟨?_, ?_, ?_, ?_⟩, helects⟩
  · show node.randomNumbers = r.cast ++ node.randomNumbers.drop r.node.randomNumbers.length
    -- the new vote is the last one of the round
    rw [hlist, List.drop_left, hown.cast]
  · show (node.randomNumbers.map (·.publicKey)).Nodup
    rw [hlist, List.map_append, List.map_singleton, ← List.concat_eq_append]
    exact hown.distinct.concat (hnew hown)
  · intro v' hv'
    show SignedOver P L nodeId node.nextVotingTimestampStr v'
    have hmem : v' ∈ r.node.randomNumbers ++ [v] := hlist ▸ hv'
    rw [hstamp]
    rcases List.mem_append.mp hmem with hold | hlast
    · exact hown.signed v' hold
    · rw [List.mem_singleton.mp hlast]
      exact hsigned
  -- an own vote is there only while the phase is open
  · intro hmem
    have hmem' : nodeId ∈ (r.node.randomNumbers ++ [v]).map (·.publicKey) := hlist ▸ hmem
    rw [List.map_append, List.mem_append, List.map_singleton, List.mem_singleton] at hmem'
    rcases hmem' with hold | hlast
    · exact hphase (hown.own hold)
    · exact hopen hlast.symm

/-- The phase closes: it elects what it finds, and that are the votes of the round. -/
theorem RoundsInv.closed (h : RoundsInv P L nodeId r) (hclose : ClosesVoting S r.node node) :
    RoundsInv P L nodeId (r.close node) := by
  constructor
  · exact hclose.nodeId.trans h.sameNode
  · intro c hc
    rcases List.mem_append.mp hc with hc | hc
    · exact h.left c hc
    · rw [List.mem_singleton.mp hc]
      exact hclose.randomNumbers
  · intro hfound
    -- a list of one vote would have been left
    have hseveral : r.node.randomNumbers.length ≠ 1 :=
      hfound _ (List.mem_append_right _ (List.mem_singleton.mpr rfl))
    rcases h.elects fun c hc => hfound c (List.mem_append_left _ hc) with ⟨hown, helects⟩
    -- the list is empty behind the election, so nothing is to be shown about it
    have hempty : node.randomNumbers = [] := by
      rw [hclose.randomNumbers]
      exact leftover_eq_nil_iff.mpr hseveral
    refine ⟨⟨hempty, ?_, ?_, ?_⟩, ?_⟩
    · show (node.randomNumbers.map (·.publicKey)).Nodup
      rw [hempty]
      exact List.nodup_nil
    · intro v hv
      have hv' : v ∈ node.randomNumbers := hv
      rw [hempty] at hv'
      cases hv'
    · intro hmem
      have hmem' : nodeId ∈ node.randomNumbers.map (·.publicKey) := hmem
      rw [hempty] at hmem'
      cases hmem'
    · intro c hc
      rcases List.mem_append.mp hc with hc | hc
      · exact helects c hc
      -- the election of this round
      · rw [List.mem_singleton.mp hc]
        constructor
        · show (node.master.blockProducers.map (·.publicKey)).Nodup
          rw [hclose.blockProducers]
          exact nodup_elected hown.distinct
        · intro v hv
          have hv' : v ∈ elected S r.node.randomNumbers := hclose.blockProducers ▸ hv
          exact hown.signed v (mem_of_mem_elected hv')
        · intro key honly _
          have honly' : OnlyVoter key r.node.randomNumbers := hown.cast ▸ honly
          exact hseveral (length_of_onlyVoter hown.distinct honly')
        · exact hempty

/-- A vote from another master. -/
theorem roundsInv_vote (hkey : L.isPublicKey nodeId = false) (h : RoundsInv P L nodeId r)
    (signature publicKey : String) :
    RoundsInv P L nodeId (r.join (r.node.registerVote L signature publicKey)) := by
  rcases registerVote_cases L r.node signature publicKey with hsame | ⟨key, hnew, hchecks, hadded⟩
  · rw [hsame]
    exact h.join_same rfl rfl rfl id
  · -- a node id is no key, so the vote is not the node's own
    have hne : key ≠ nodeId := by
      rintro rfl
      rw [checksOut, hkey] at hchecks
      cases hchecks
    rw [hadded]
    refine h.join_vote rfl rfl rfl id ?_ ?_ ?_
    · intro _
      exact hnew
    · exact .inr hchecks
    · intro heq
      exact absurd heq hne

/-- The voting phase opens. -/
theorem roundsInv_open (h : RoundsInv P L nodeId r) (hphase : r.node.inVotingPhase = false) :
    RoundsInv P L nodeId (r.join (openVoting P r.node)) := by
  rcases openVoting_cases P r.node with hsame | ⟨sentVotes, hcast⟩
  · rw [hsame]
    exact h.join_same rfl rfl rfl fun _ => rfl
  · rw [hcast]
    refine h.join_vote rfl rfl rfl (fun _ => rfl) ?_ ?_ (fun _ => rfl)
    · -- the node has not voted while the phase was closed
      intro hown hmem
      have hmem' : nodeId ∈ r.node.randomNumbers.map (·.publicKey) := h.sameNode ▸ hmem
      rw [hown.own hmem'] at hphase
      cases hphase
    · rw [h.sameNode]
      exact .inl ⟨rfl, rfl⟩

/-- Every step of the rounds keeps the invariant. -/
theorem roundsInv_step (hkey : L.isPublicKey nodeId = false) (h : RoundsInv P L nodeId r)
    (hstep : roundStep P S L r e = some r') : RoundsInv P L nodeId r' := by
  rcases Option.map_eq_some_iff.mp hstep with ⟨node, hnode, rfl⟩
  cases e with
  | vote signature publicKey =>
      cases hnode
      -- a vote does not close the phase
      have hphase : (r.node.registerVote L signature publicKey).inVotingPhase =
          r.node.inVotingPhase := by
        rcases registerVote_cases L r.node signature publicKey with hsame | ⟨_, _, _, hadded⟩
        · rw [hsame]
        · rw [hadded]
      rw [hphase, Bool.and_not_self, if_neg Bool.false_ne_true]
      exact roundsInv_vote hkey h signature publicKey
  | clock now =>
      have hphase : PhaseStep P S now r.node node := phaseStep hnode
      cases hphase with
      | same _ =>
          rw [Bool.and_not_self, if_neg Bool.false_ne_true]
          exact h.join_same rfl rfl rfl id
      | opened _ hphase =>
          rw [if_neg (by simp [hphase])]
          exact roundsInv_open h hphase
      -- the round ends with the phase
      | closed _ _ hphase hclose =>
          have hclosed : ClosesVoting S r.node node := closesVoting hclose
          rw [if_pos (by simp [hphase, hclosed.inVotingPhase])]
          exact h.closed hclosed

/-! ## Every run -/

theorem roundsInv_run (hkey : L.isPublicKey nodeId = false) {n₀ : Node}
    (hnode : n₀.master.nodeId = nodeId) (hvotes : n₀.randomNumbers = [])
    {es : List VotingEvent} (h : Run (roundStep P S L) ⟨n₀, [], []⟩ es r) :
    RoundsInv P L nodeId r := by
  refine h.invariant (fun _ r => RoundsInv P L nodeId r) ?_ ?_
  · refine ⟨hnode, by simp, ?_⟩
    intro _
    exact ⟨⟨hvotes, by simp [hvotes], by simp [hvotes], by simp [hvotes]⟩, by simp⟩
  · intro _ r e r' hinv _ hstep
    exact roundsInv_step hkey hinv hstep

/-- In every run of a master that starts without votes, all closings elect voters
of their round only, each once, no lone one, and leave no vote, if and only if
no closing finds a list of a single vote. -/
theorem rounds_iff {n₀ : Node} (hkey : L.isPublicKey n₀.master.nodeId = false)
    (hvotes : n₀.randomNumbers = []) {es : List VotingEvent}
    (h : Run (roundStep P S L) ⟨n₀, [], []⟩ es r) :
    (∀ c ∈ r.closings, ElectsItsVoters P L n₀.master.nodeId c) ↔
      ∀ c ∈ r.closings, c.found.length ≠ 1 := by
  have hinv : RoundsInv P L n₀.master.nodeId r := roundsInv_run hkey rfl hvotes h
  constructor
  · intro helects c hc
    have hempty : c.left = [] := (helects c hc).left
    rw [hinv.left c hc] at hempty
    exact leftover_eq_nil_iff.mp hempty
  · intro hfound
    exact (hinv.elects hfound).2

/-! ## A lone voter, two rounds -/

namespace Sample

/-- Signatures that name the signer and the text. -/
def votingPlatform : Platform :=
  { platform [] with createX509Signature := fun message nodeId => nodeId ++ message }

def votingLibrary : NodeLibrary :=
  { library with
    verifyX509Signature := fun message signature key => signature = key ++ message }

/-- A node before its first voting phase. -/
def votingNode : Node := { closingNode [] with inVotingPhase := false }

end Sample

instance {nodeId votingTimestamp : String} {v : Voter} :
    Decidable (SignedOver P L nodeId votingTimestamp v) :=
  inferInstanceAs (Decidable (_ ∧ _ ∨ _ = true))

/-- Two rounds with two voters each. -/
def twoVoters : List VotingEvent :=
  [.clock 3300, .vote "k13300" "azE=", .clock 3600, .clock 6900, .vote "k16900" "azE=",
    .clock 7200]

/-- Each of the rounds elects its voters. -/
theorem rounds_iff_twoVoters :
    ∃ r, Run (roundStep Sample.votingPlatform Sample.voteSort Sample.votingLibrary)
        ⟨Sample.votingNode, [], []⟩ twoVoters r ∧
      r.closings.map (fun c => c.blockProducers.map (·.publicKey)) =
        [["k1", "m1"], ["k1", "m1"]] ∧
      ∀ c ∈ r.closings, ElectsItsVoters Sample.votingPlatform Sample.votingLibrary
        Sample.votingNode.master.nodeId c := by
  obtain ⟨r, hrun, hcheck⟩ :
      ∃ r, Run (roundStep Sample.votingPlatform Sample.voteSort Sample.votingLibrary)
          ⟨Sample.votingNode, [], []⟩ twoVoters r ∧
        decide (r.closings.map (fun c => c.blockProducers.map (·.publicKey)) =
            [["k1", "m1"], ["k1", "m1"]] ∧ ∀ c ∈ r.closings, c.found.length ≠ 1) = true :=
    exists_trace_of_exec _ (by decide +kernel)
  rcases of_decide_eq_true hcheck with ⟨helected, hfound⟩
  exact ⟨r, hrun, helected, (rounds_iff (by decide) rfl hrun).mpr hfound⟩

/-- A node that is the only voter of two rounds elects itself in the second, twice,
once with the signature of the first. -/
theorem lone_voter_elected :
    ∃ r, Run (roundStep Sample.votingPlatform Sample.voteSort Sample.votingLibrary)
        ⟨Sample.votingNode, [], []⟩ [.clock 3300, .clock 3600, .clock 6900, .clock 7200] r ∧
      (∃ c ∈ r.closings, c.left ≠ []) ∧
      ∃ c ∈ r.closings, c.cast.map (·.publicKey) = ["m1"] ∧
        c.blockProducers.map (·.publicKey) = ["m1", "m1"] ∧
        ∃ v ∈ c.blockProducers,
          ¬ SignedOver Sample.votingPlatform Sample.votingLibrary "m1" c.votingTimestamp v := by
  obtain ⟨r, hrun, hcheck⟩ :
      ∃ r, Run (roundStep Sample.votingPlatform Sample.voteSort Sample.votingLibrary)
          ⟨Sample.votingNode, [], []⟩ [.clock 3300, .clock 3600, .clock 6900, .clock 7200] r ∧
        decide ((∃ c ∈ r.closings, c.left ≠ []) ∧
          ∃ c ∈ r.closings, c.cast.map (·.publicKey) = ["m1"] ∧
            c.blockProducers.map (·.publicKey) = ["m1", "m1"] ∧
            ∃ v ∈ c.blockProducers,
              ¬ SignedOver Sample.votingPlatform Sample.votingLibrary "m1" c.votingTimestamp v) =
          true :=
    exists_trace_of_exec _ (by decide +kernel)
  exact ⟨r, hrun, of_decide_eq_true hcheck⟩

end DecentralizedCloud
