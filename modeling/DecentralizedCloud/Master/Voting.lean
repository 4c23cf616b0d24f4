import DecentralizedCloud.Common.Fields
import DecentralizedCloud.Lib.KeySort
import DecentralizedCloud.Master.State

/-!
# Voting

Five minutes before every full hour a voting phase opens. Each master signs the
timestamp at which it opened and sends the signature to the others as its vote;
the number of a vote is the sum of the characters of the signature. When the
hour is full the phase closes, and the 21 lowest votes become the block
producers of the next hour.

`Node` is a master together with the globals of the voting and of its loop.
`registerVote` is built from its two critical sections, `findVoter` and
`addVoter`, between which the mutex is free.
-/

namespace DecentralizedCloud

open Master Utf8

/-- The globals of a master that its loop works on, beside those in `Master`. -/
structure Node where
  master : Master
  /-- the timestamp that the votes of this round sign -/
  nextVotingTimestampStr : String
  ignoreThisVotingRound : Bool
  randomNumbers : List Voter
  inVotingPhase : Bool
  lastRoundTimestamp : Int
  lastCleanupTime : Int
  /-- the votes this master has sent: signature and key -/
  sentVotes : List (String × String)
  /-- the keys that were elected, by the timestamp of the round -/
  electedMasterNodes : List (String × List String) := []

/-! ## Votes -/

/-- A character of a text, which stands for a byte, as a signed number. -/
def signedChar (ch : Char) : Int := (ch.toNat : Int).bmod (2 ^ 8)

/-- The number of a vote, in a `uint32_t`. -/
def voteNumber (signature : String) : Nat :=
  (signature.toList.foldl (fun number ch => (number + signedChar ch) % 2 ^ 32) 0).toNat

/-- The voter that a valid signature makes. -/
def Voter.ofSignature (signature publicKey : String) : Voter where
  signature
  publicKey
  number := voteNumber signature
  valid := true

/-- One of the voters has the key. -/
def hasVoter (randomNumbers : List Voter) (publicKey : String) : Bool :=
  randomNumbers.any fun voter => voter.publicKey = publicKey

/-- The first critical section of `registerVote`: the size of the list that the
call remembers, `none` when it returns. -/
def findVoter (randomNumbers : List Voter) (publicKey : String) : Option Nat :=
  if hasVoter randomNumbers publicKey then none else some randomNumbers.length

/-- The second critical section of `registerVote`. -/
def addVoter (randomNumbers : List Voter) (signature publicKey : String) : List Voter :=
  -- this `n` hides the size that the first section has remembered
  let n := signature.length
  if n ≠ randomNumbers.length && hasVoter randomNumbers publicKey then randomNumbers
  else randomNumbers ++ [.ofSignature signature publicKey]

/-- What `registerVote` does between its critical sections: the text is a key,
and the signature was made with it over the timestamp of the round. -/
def checksOut (L : NodeLibrary) (votingTimestamp signature publicKey : String) : Bool :=
  L.isPublicKey publicKey && L.verifyX509Signature votingTimestamp signature publicKey

namespace Node

def canParticipateInVoting (n : Node) : Bool := !n.ignoreThisVotingRound

/-- `registerVote`, with nothing else between its critical sections. -/
def registerVote (L : NodeLibrary) (n : Node) (signature publicKey : String) : Node :=
  if !n.canParticipateInVoting then n
  else
    let publicKey := L.base64_decode publicKey
    match findVoter n.randomNumbers publicKey with
    | none => n
    | some _ =>
        if checksOut L n.nextVotingTimestampStr signature publicKey then
          { n with randomNumbers := addVoter n.randomNumbers signature publicKey }
        else n

/-! ## The voting phase -/

def openVotingStartMinute : Int := 55

def TOTAL_MASTER_NODES : Nat := 21

def inVotingTime (now : Int) : Bool :=
  let minutes := (now.tmod 3600).tdiv 60
  openVotingStartMinute ≤ minutes

/-- `updateNextVotingTimestamp`; `none` when the text is no number. -/
def updateNextVotingTimestamp (n : Node) : Option Node :=
  (stoull n.nextVotingTimestampStr).map fun (stamp : Nat) =>
    let lastVotingTimestamp := (stamp : Int).bmod (2 ^ 64)
    { n with nextVotingTimestampStr := toString (lastVotingTimestamp + 3600) }

/-- A voting phase opens: the own vote joins the list, and is sent. -/
def openVoting (P : Platform) (n : Node) : Node :=
  let n := { n with inVotingPhase := true }
  if n.canParticipateInVoting then
    let signature := P.createX509Signature n.nextVotingTimestampStr n.master.nodeId
    { n with
      randomNumbers := n.randomNumbers ++ [.ofSignature signature n.master.nodeId]
      sentVotes := n.sentVotes ++ [(signature, n.master.base64encodedKey)] }
  else n

/-- The loop that fills `blockProducers` from the sorted votes: whether this
node is among them, and the list. -/
def elect (nodeId : String) : Bool × List Voter → List Voter → Bool × List Voter
  | (nodeInList, producers), [] => (nodeInList, producers)
  | (nodeInList, producers), voter :: voters =>
      let (nodeInList, producers) :=
        if voter.valid then
          (nodeInList || voter.publicKey = nodeId, producers ++ [voter])
        else (nodeInList, producers)
      if producers.length = TOTAL_MASTER_NODES then (nodeInList, producers)
      else elect nodeId (nodeInList, producers) voters

/-- The keys of the producers are recorded under the timestamp of the next round. -/
def recordElection (n : Node) (producers : List Voter) : List (String × List String) :=
  (n.nextVotingTimestampStr, producers.map (·.publicKey)) ::
    n.electedMasterNodes.filter fun record => record.1 ≠ n.nextVotingTimestampStr

/-- The record of all elections can be printed. -/
def recordPrints (n : Node) : Bool :=
  (Json.obj (n.electedMasterNodes.map fun (stamp, keys) =>
    (stamp, .arr (keys.map .str)))).prints

/-- The end of a closing: the node joins the channel of the 21 or leaves it, and takes
part in the next round. -/
def subscribe (nodeInList : Bool) (n : Node) : Node :=
  { n with
    master := { n.master with subscribedTo21 := nodeInList }
    ignoreThisVotingRound := false }

/-- What a closing of the voting phase leaves behind; `none` when the timestamp is no
number. `S` is the `std::sort` of the votes by their numbers. The file to which the record
of all elections is written is left out. -/
def closeVoting (S : KeySort Voter.number) (n : Node) : Option Node :=
  (updateNextVotingTimestamp { n with inVotingPhase := false }).map fun n =>
    -- a lone voter is not voted in
    if n.randomNumbers.length > 1 then
      let (nodeInList, blockProducers) :=
        elect n.master.nodeId (false, []) (S.sort n.randomNumbers)
      let n := { n with
        master := { n.master with blockProducers }
        randomNumbers := []
        electedMasterNodes := n.recordElection blockProducers }
      -- the exception of the print leaves the function before the subscription
      if n.recordPrints then n.subscribe nodeInList else n
    else { n with master := { n.master with blockProducers := [] } }.subscribe false

/-- The closing that has made `n'` of `n` raised when it printed the record. -/
def recordRaises (n n' : Node) : Bool := decide (n.randomNumbers.length > 1) && !n'.recordPrints

/-- What `enterAndExitVotingPhase` at the time `now` leaves behind, also when the print of
the record raises; `none` when the timestamp is no number. -/
def enterAndExitVotingPhase (P : Platform) (S : KeySort Voter.number) (now : Int) (n : Node) :
    Option Node :=
  if inVotingTime now then
    some (if n.inVotingPhase then n else openVoting P n)
  else if n.inVotingPhase then closeVoting S n
  else some n

/-! ## What the operations do -/

variable {P : Platform} {L : NodeLibrary} {S : KeySort Voter.number} {n n' : Node} {now : Int}

/-- From a list that is not full, the loop appends valid votes until there are 21. -/
theorem elect_eq (nodeId : String) (nodeInList : Bool) {producers : List Voter}
    (h : producers.length < TOTAL_MASTER_NODES) (voters : List Voter) :
    elect nodeId (nodeInList, producers) voters =
      let added := (voters.filter (·.valid)).take (TOTAL_MASTER_NODES - producers.length)
      (nodeInList || added.any fun voter => voter.publicKey = nodeId, producers ++ added) := by
  induction voters generalizing nodeInList producers with
  | nil => simp [elect]
  | cons voter voters ih =>
      cases hvalid : voter.valid with
      -- an invalid vote is passed over
      | false =>
          have hskip : elect nodeId (nodeInList, producers) (voter :: voters) =
              elect nodeId (nodeInList, producers) voters := by
            rw [elect]
            simp [hvalid, Nat.ne_of_lt h]
          rw [hskip, ih nodeInList h, List.filter_cons_of_neg (by simp [hvalid])]
      | true =>
          obtain ⟨k, hk⟩ : ∃ k, TOTAL_MASTER_NODES - producers.length = k + 1 := by
            refine ⟨TOTAL_MASTER_NODES - producers.length - 1, ?_⟩
            omega
          rw [List.filter_cons_of_pos (by simp [hvalid]), hk, List.take_succ_cons]
          -- this is the last place
          by_cases hfull : producers.length + 1 = TOTAL_MASTER_NODES
          · have hzero : k = 0 := by omega
            rw [elect]
            simp [hvalid, hfull, hzero]
          · have hlength : (producers ++ [voter]).length < TOTAL_MASTER_NODES := by
              rw [List.length_append, List.length_singleton]
              omega
            have hstep : elect nodeId (nodeInList, producers) (voter :: voters) =
                elect nodeId (nodeInList || voter.publicKey = nodeId, producers ++ [voter])
                  voters := by
              rw [elect]
              simp [hvalid, hfull]
            have hrest : TOTAL_MASTER_NODES - (producers ++ [voter]).length = k := by
              rw [List.length_append, List.length_singleton]
              omega
            rw [hstep, ih _ hlength, hrest]
            simp [Bool.or_assoc]

theorem hasVoter_eq_true_iff {votes : List Voter} {key : String} :
    hasVoter votes key = true ↔ key ∈ votes.map (·.publicKey) := by
  rw [hasVoter, List.any_eq_true, List.mem_map]
  simp only [decide_eq_true_eq]

/-- Called by itself, `registerVote` adds a vote that checks out, for a key that
has not voted, or does nothing. -/
theorem registerVote_cases (L : NodeLibrary) (n : Node) (signature publicKey : String) :
    n.registerVote L signature publicKey = n ∨
      ∃ key, key ∉ n.randomNumbers.map (·.publicKey) ∧
        checksOut L n.nextVotingTimestampStr signature key = true ∧
        n.registerVote L signature publicKey =
          { n with randomNumbers := n.randomNumbers ++ [.ofSignature signature key] } := by
  unfold registerVote
  by_cases hallowed : n.canParticipateInVoting = true
  case neg => exact .inl (by simp [hallowed])
  case pos =>
      cases hvoter : hasVoter n.randomNumbers (L.base64_decode publicKey) with
      | true => exact .inl (by simp [hallowed, findVoter, hvoter])
      | false =>
          by_cases hchecks :
              checksOut L n.nextVotingTimestampStr signature (L.base64_decode publicKey) = true
          · refine .inr ⟨L.base64_decode publicKey, ?_, hchecks, ?_⟩
            · rw [← hasVoter_eq_true_iff, hvoter]
              exact Bool.false_ne_true
            · simp [hallowed, findVoter, hvoter, hchecks, addVoter]
          · exact .inl (by simp [hallowed, findVoter, hvoter, hchecks])

/-- When a voting phase opens, the node casts its vote or does not participate. -/
theorem openVoting_cases (P : Platform) (n : Node) :
    openVoting P n = { n with inVotingPhase := true } ∨
      ∃ sentVotes, openVoting P n = { n with
        inVotingPhase := true
        randomNumbers := n.randomNumbers ++
          [.ofSignature (P.createX509Signature n.nextVotingTimestampStr n.master.nodeId)
            n.master.nodeId]
        sentVotes } := by
  unfold openVoting
  dsimp only
  split
  · exact .inr ⟨_, rfl⟩
  · exact .inl rfl

/-- Who is elected from a list of votes. -/
def elected (S : KeySort Voter.number) (votes : List Voter) : List Voter :=
  if votes.length > 1 then ((S.sort votes).filter (·.valid)).take TOTAL_MASTER_NODES else []

/-- The votes that a closing leaves behind. -/
def leftover (votes : List Voter) : List Voter := if votes.length > 1 then [] else votes

/-- What a closing changes, and that it leaves the chain and the clocks alone. -/
structure ClosesVoting (S : KeySort Voter.number) (n n' : Node) : Prop where
  blockProducers : n'.master.blockProducers = elected S n.randomNumbers
  randomNumbers : n'.randomNumbers = leftover n.randomNumbers
  inVotingPhase : n'.inVotingPhase = false
  stamp : ∃ stamp : Nat, stoull n.nextVotingTimestampStr = some stamp ∧
    n'.nextVotingTimestampStr = toString ((stamp : Int).bmod (2 ^ 64) + 3600)
  electedMasterNodes : n.randomNumbers.length > 1 →
    n'.electedMasterNodes =
      recordElection { n with nextVotingTimestampStr := n'.nextVotingTimestampStr }
        n'.master.blockProducers
  nodeId : n'.master.nodeId = n.master.nodeId
  nextBlockNumber : n'.master.nextBlockNumber = n.master.nextBlockNumber
  lastRoundTimestamp : n'.lastRoundTimestamp = n.lastRoundTimestamp

/-- Whether or not the record can be printed, a closing has done its work by then. -/
theorem closesVoting (h : closeVoting S n = some n') : ClosesVoting S n n' := by
  rcases Option.map_eq_some_iff.mp h with ⟨n₁, hnext, rfl⟩
  rw [updateNextVotingTimestamp, Option.map_eq_some_iff] at hnext
  rcases hnext with ⟨stamp, hstamp, rfl⟩
  dsimp only
  by_cases hvotes : n.randomNumbers.length > 1
  · rw [if_pos hvotes, elect_eq n.master.nodeId false (by decide)]
    dsimp only
    split
    all_goals
      constructor
      · simp [elected, hvotes, subscribe]
      · simp [leftover, hvotes, subscribe]
      case stamp => exact ⟨stamp, hstamp, rfl⟩
      case electedMasterNodes => exact fun _ => rfl
      all_goals rfl
  · rw [if_neg hvotes]
    constructor
    · simp [elected, hvotes, subscribe]
    · simp [leftover, hvotes, subscribe]
    case stamp => exact ⟨stamp, hstamp, rfl⟩
    case electedMasterNodes => exact fun hseveral => absurd hseveral hvotes
    all_goals rfl

theorem recordPrints_iff :
    n.recordPrints = true ↔ ∀ record ∈ n.electedMasterNodes,
      isUtf8 record.1 = true ∧ ∀ key ∈ record.2, isUtf8 key = true := by
  simp [recordPrints, Json.prints, Json.printsMembers_eq_all, Json.printsElems_eq_all]

/-- The record prints when the one before did, and the elected keys do. -/
theorem recordRaises_of_close (h : closeVoting S n = some n')
    (hprintable : n.randomNumbers.length > 1 → n.recordPrints = true ∧
      ∀ voter ∈ elected S n.randomNumbers, isUtf8 voter.publicKey = true) :
    recordRaises n n' = false := by
  by_cases hvotes : n.randomNumbers.length > 1
  case neg => simp [recordRaises, hvotes]
  case pos =>
      rcases hprintable hvotes with ⟨hrecord, hkeys⟩
      have hcloses : ClosesVoting S n n' := closesVoting h
      have hprints : n'.recordPrints = true := by
        rw [recordPrints_iff, hcloses.electedMasterNodes hvotes]
        intro record hmem
        rcases List.mem_cons.mp hmem with rfl | hold
        · refine ⟨?_, ?_⟩
          · rcases hcloses.stamp with ⟨stamp, -, hstamp⟩
            rw [hstamp]
            exact isUtf8_toString _
          · intro key hkey
            rcases List.mem_map.mp hkey with ⟨voter, hvoter, rfl⟩
            rw [hcloses.blockProducers] at hvoter
            exact hkeys voter hvoter
        · exact recordPrints_iff.mp hrecord record (List.mem_filter.mp hold).1
      simp [recordRaises, hprints]

/-- A closing that does not raise at the record comes to the subscription. -/
theorem subscribedTo21_of_close (h : closeVoting S n = some n')
    (hrecord : recordRaises n n' = false) :
    n'.master.subscribedTo21 =
      n'.master.blockProducers.any fun voter => voter.publicKey = n'.master.nodeId := by
  rcases Option.map_eq_some_iff.mp h with ⟨n₁, hnext, heq⟩
  rcases Option.map_eq_some_iff.mp hnext with ⟨stamp, -, rfl⟩
  dsimp only at heq
  by_cases hvotes : n.randomNumbers.length > 1
  · rw [if_pos hvotes, elect_eq n.master.nodeId false (by decide)] at heq
    dsimp only at heq
    split at heq
    case isTrue =>
        rw [← heq]
        simp [subscribe]
    case isFalse hraises =>
        rw [heq] at hraises
        simp [recordRaises, hvotes, hraises] at hrecord
  · rw [if_neg hvotes] at heq
    rw [← heq]
    simp [subscribe]

/-- A closing leaves nothing behind only when the timestamp cannot be read. -/
theorem exists_closeVoting {stamp : Nat} (h : stoull n.nextVotingTimestampStr = some stamp) :
    ∃ n', closeVoting S n = some n' := by
  unfold closeVoting updateNextVotingTimestamp
  rw [h]
  exact ⟨_, rfl⟩

/-- What a call of `enterAndExitVotingPhase` at the time `now` can do. -/
inductive PhaseStep (P : Platform) (S : KeySort Voter.number) (now : Int) (n : Node) :
    Node → Prop where
  | same (h : inVotingTime now = n.inVotingPhase) : PhaseStep P S now n n
  | opened (htime : inVotingTime now = true) (hphase : n.inVotingPhase = false) :
      PhaseStep P S now n (openVoting P n)
  | closed (n' : Node) (htime : inVotingTime now = false) (hphase : n.inVotingPhase = true)
      (hclose : closeVoting S n = some n') : PhaseStep P S now n n'

/-- What a reading of the clock can do to the voting phase. -/
theorem phaseStep (h : enterAndExitVotingPhase P S now n = some n') : PhaseStep P S now n n' := by
  unfold enterAndExitVotingPhase at h
  cases htime : inVotingTime now with
  -- in the voting time the phase is opened, unless it is open
  | true =>
      rw [if_pos htime] at h
      cases hphase : n.inVotingPhase with
      | true =>
          rw [if_pos hphase] at h
          cases h
          exact .same (htime.trans hphase.symm)
      | false =>
          rw [if_neg (by simp [hphase])] at h
          cases h
          exact .opened htime hphase
  -- otherwise it is closed, if it is open
  | false =>
      rw [if_neg (by simp [htime])] at h
      cases hphase : n.inVotingPhase with
      | true =>
          rw [if_pos hphase] at h
          exact .closed n' htime hphase h
      | false =>
          rw [if_neg (by simp [hphase])] at h
          cases h
          exact .same (htime.trans hphase.symm)

end Node

end DecentralizedCloud
