import DecentralizedCloud.Master.Machine
import DecentralizedCloud.Master.Voting

/-!
# Elections

A voting phase closes with the 21 lowest valid votes as the new block producers
(`lowest_elected`).

Every master counts the votes for itself: it sorts the ones it has received by
their numbers and takes the first 21. The sort sees nothing but the numbers, so
votes with one number come out in an order that depends on the order in which
they came in.

Two masters with the same votes elect the same list, whatever the orders of
arrival, exactly when every tie stands behind 21 lower votes
(`same_producers_iff`). A tie further to the front shows in the order of the
list, which is the rotation of the producers, or decides who is the last of the
21.
-/

namespace DecentralizedCloud

open Master Node

/-- Whatever the orders in which two masters have received `votes`, they elect
the same list when their voting phases close. -/
def AgreeOnProducers (P : Platform) (S : KeySort Voter.number) (votes : List Voter) : Prop :=
  ∀ (n₁ n₂ n₁' n₂' : Node) (now₁ now₂ : Int),
    n₁.randomNumbers.Perm votes → n₂.randomNumbers.Perm votes →
    n₁.inVotingPhase = true → n₂.inVotingPhase = true →
    inVotingTime now₁ = false → inVotingTime now₂ = false →
    enterAndExitVotingPhase P S now₁ n₁ = some n₁' →
    enterAndExitVotingPhase P S now₂ n₂ = some n₂' →
    n₁'.master.blockProducers = n₂'.master.blockProducers

/-- Votes with one number have 21 lower votes before them. -/
def TiesBehind (votes : List Voter) : Prop :=
  ∀ a ∈ votes, ∀ b ∈ votes, a ≠ b → a.number = b.number →
    TOTAL_MASTER_NODES ≤ votes.countP fun c => c.number < a.number

/-- A node that is about to close its voting phase with `votes`. -/
def Sample.closingNode (votes : List Voter) : Node where
  master := Sample.master
  nextVotingTimestampStr := "3300"
  ignoreThisVotingRound := false
  randomNumbers := votes
  inVotingPhase := true
  lastRoundTimestamp := 0
  lastCleanupTime := 0
  sentVotes := []

section

variable {P : Platform} {S : KeySort Voter.number} {n n' : Node} {now : Int} {votes : List Voter}

/-- A closing elects from the votes that are there. -/
theorem blockProducers_of_close (hphase : n.inVotingPhase = true)
    (htime : inVotingTime now = false) (h : enterAndExitVotingPhase P S now n = some n') :
    n'.master.blockProducers = elected S n.randomNumbers := by
  unfold enterAndExitVotingPhase at h
  rw [if_neg (by simp [htime]), if_pos hphase] at h
  exact (closesVoting h).blockProducers

/-- Among valid votes, the first 21 of the sorted list are elected. -/
theorem elected_of_valid (hvalid : ∀ v ∈ votes, v.valid = true) {order : List Voter}
    (hperm : order.Perm votes) (hseveral : order.length > 1) :
    elected S order = (S.sort order).take TOTAL_MASTER_NODES := by
  have hall : (S.sort order).filter (·.valid) = S.sort order := by
    rw [List.filter_eq_self]
    intro v hv
    exact hvalid v (hperm.mem_iff.mp ((S.perm order).mem_iff.mp hv))
  rw [elected, if_pos hseveral, hall]

/-- When ties stand behind 21 lower votes, the order of arrival does not matter. -/
theorem elected_eq_of_tiesBehind (hvalid : ∀ v ∈ votes, v.valid = true)
    (hties : TiesBehind votes) {order₁ order₂ : List Voter} (h₁ : order₁.Perm votes)
    (h₂ : order₂.Perm votes) : elected S order₁ = elected S order₂ := by
  have hlength : order₁.length = order₂.length := h₁.length_eq.trans h₂.length_eq.symm
  by_cases hseveral : order₁.length > 1
  · rw [elected_of_valid hvalid h₁ hseveral, elected_of_valid hvalid h₂ (hlength ▸ hseveral)]
    have hsorted₁ : (S.sort order₁).Perm votes := (S.perm order₁).trans h₁
    have hsorted₂ : (S.sort order₂).Perm votes := (S.perm order₂).trans h₂
    apply KeySort.take_eq_of_perm (hsorted₁.trans hsorted₂.symm) (S.sorted order₁) (S.sorted order₂)
    intro a ha b hb hne htie
    rw [hsorted₁.countP_eq]
    exact hties a (hsorted₁.mem_iff.mp ha) b (hsorted₁.mem_iff.mp hb) hne htie
  · have hseveral₂ : ¬ order₂.length > 1 := by
      rw [← hlength]
      exact hseveral
    rw [elected, elected, if_neg hseveral, if_neg hseveral₂]

/-- For every list of votes there is a master whose voting phase closes with it. -/
theorem exists_close (P : Platform) (S : KeySort Voter.number) (votes : List Voter) :
    ∃ (n n' : Node) (now : Int), n.randomNumbers = votes ∧ n.inVotingPhase = true ∧
      inVotingTime now = false ∧ enterAndExitVotingPhase P S now n = some n' := by
  have hstamp : stoull "3300" = some 3300 := by decide
  have htime : inVotingTime 0 = false := by decide
  have hphase : (Sample.closingNode votes).inVotingPhase = true := rfl
  obtain ⟨n', hclose⟩ : ∃ n', closeVoting S (Sample.closingNode votes) = some n' :=
    exists_closeVoting hstamp
  refine ⟨Sample.closingNode votes, n', 0, rfl, hphase, htime, ?_⟩
  rw [enterAndExitVotingPhase, if_neg (by simp [htime]), if_pos hphase]
  exact hclose

/-- A tie with fewer than 21 lower votes shows in the list for some orders. -/
theorem le_countP_of_agree (hnodup : votes.Nodup) (hvalid : ∀ v ∈ votes, v.valid = true)
    (hagree : AgreeOnProducers P S votes) {a b : Voter} (ha : a ∈ votes) (hb : b ∈ votes)
    (hne : a ≠ b) (htie : a.number = b.number) :
    TOTAL_MASTER_NODES ≤ votes.countP fun c => c.number < a.number := by
  by_contra hfew
  -- two orders of arrival from which the tie is sorted in both ways
  rcases S.exists_adjacent hnodup ha hb hne htie with ⟨q, l, r, hq, hq', hsort, hsort', hl⟩
  have hseveral : ∀ order : List Voter, order.Perm votes → order.length > 1 := by
    intro order horder
    have hsub : [a, b] ⊆ votes := by
      intro v hv
      rcases List.mem_pair.mp hv with rfl | rfl
      · exact ha
      · exact hb
    have hpair : [a, b].length ≤ votes.length :=
      (List.subperm_of_subset (by simpa using hne) hsub).length_le
    rw [horder.length_eq]
    exact hpair
  rcases exists_close P S q with ⟨n₁, n₁', now₁, hvotes₁, hphase₁, htime₁, hclose₁⟩
  obtain ⟨n₂, n₂', now₂, hvotes₂, hphase₂, htime₂, hclose₂⟩ :=
    exists_close P S (q.map (Equiv.swap a b))
  have hsame : n₁'.master.blockProducers = n₂'.master.blockProducers :=
    hagree n₁ n₂ n₁' n₂' now₁ now₂ (hvotes₁ ▸ hq) (hvotes₂ ▸ hq') hphase₁ hphase₂ htime₁ htime₂
      hclose₁ hclose₂
  rw [blockProducers_of_close hphase₁ htime₁ hclose₁, blockProducers_of_close hphase₂ htime₂ hclose₂,
    hvotes₁, hvotes₂, elected_of_valid hvalid hq (hseveral _ hq),
    elected_of_valid hvalid hq' (hseveral _ hq'), hsort, hsort'] at hsame
  -- the place behind the lower votes is among the 21
  have hplace : l.length < TOTAL_MASTER_NODES := by
    rw [hl]
    omega
  have hfirst := congrArg (·[l.length]?) hsame
  simp only [List.getElem?_take_of_lt hplace, List.getElem?_append_right (Nat.le_refl _),
    Nat.sub_self, List.getElem?_cons_zero, Option.some.injEq] at hfirst
  exact hne hfirst

/-- Two masters with the same valid votes of different keys elect the same list,
for all orders of arrival, if and only if votes with one number have 21 lower
votes before them. -/
theorem same_producers_iff (P : Platform) (S : KeySort Voter.number)
    (hdistinct : (votes.map (·.publicKey)).Nodup) (hvalid : ∀ v ∈ votes, v.valid = true) :
    AgreeOnProducers P S votes ↔ TiesBehind votes := by
  constructor
  · intro hagree a ha b hb hne htie
    exact le_countP_of_agree (List.Nodup.of_map _ hdistinct) hvalid hagree ha hb hne htie
  · intro hties n₁ n₂ n₁' n₂' now₁ now₂ h₁ h₂ hphase₁ hphase₂ htime₁ htime₂ hclose₁ hclose₂
    rw [blockProducers_of_close hphase₁ htime₁ hclose₁,
      blockProducers_of_close hphase₂ htime₂ hclose₂]
    exact elected_eq_of_tiesBehind hvalid hties h₁ h₂

end

/-! ## The lowest votes -/

section

variable {P : Platform} {S : KeySort Voter.number} {n : Node} {now : Int}

/-- What a closing of the voting phase leaves behind. -/
structure ElectsLowest (n n' : Node) : Prop where
  lowest : KeySort.Lowest Voter.number TOTAL_MASTER_NODES (n.randomNumbers.filter (·.valid))
    n'.master.blockProducers
  recorded : n'.electedMasterNodes.lookup n'.nextVotingTimestampStr =
    some (n'.master.blockProducers.map (·.publicKey))
  randomNumbers : n'.randomNumbers = []

theorem electsLowest {n' : Node} (hseveral : 1 < n.randomNumbers.length)
    (h : closeVoting S n = some n') : ElectsLowest n n' := by
  have hcloses : ClosesVoting S n n' := closesVoting h
  constructor
  · rw [hcloses.blockProducers, elected, if_pos hseveral]
    exact S.lowest_filter (·.valid) TOTAL_MASTER_NODES n.randomNumbers
  · rw [hcloses.electedMasterNodes hseveral]
    simp [recordElection]
  · rw [hcloses.randomNumbers, leftover, if_pos hseveral]

/-- From two votes or more, whatever they are, the lowest valid ones are elected. -/
theorem lowest_elected (P : Platform) (S : KeySort Voter.number)
    (hseveral : 2 ≤ n.randomNumbers.length) (hphase : n.inVotingPhase = true)
    (htime : inVotingTime now = false) {stamp : Nat}
    (hstamp : stoull n.nextVotingTimestampStr = some stamp) :
    ∃ n', enterAndExitVotingPhase P S now n = some n' ∧ ElectsLowest n n' := by
  obtain ⟨n', hclose⟩ : ∃ n', closeVoting S n = some n' := exists_closeVoting hstamp
  refine ⟨n', ?_, electsLowest hseveral hclose⟩
  rw [enterAndExitVotingPhase, if_neg (by simp [htime]), if_pos hphase]
  exact hclose

end

/-! ## Two votes with one sum -/

namespace Sample

/-- The order of the numbers. -/
def notAbove (a b : Voter) : Prop := a.number ≤ b.number

instance : DecidableRel notAbove := fun a b => inferInstanceAs (Decidable (a.number ≤ b.number))

instance : Std.Total notAbove := ⟨fun a b => Nat.le_total a.number b.number⟩

instance : IsTrans Voter notAbove := ⟨fun _ _ _ => Nat.le_trans⟩

/-- The insertion sort of the votes. -/
def voteSort : KeySort Voter.number where
  sort := List.insertionSort notAbove
  perm := List.perm_insertionSort notAbove
  sorted := List.pairwise_insertionSort notAbove
  blind := by
    intro f hkey xs
    have hmap := List.map_insertionSort (r := notAbove) (s := notAbove) f xs
      fun a _ b _ => by simp [notAbove, hkey]
    exact hmap.symm

/-- A vote that is not valid among valid ones. -/
def mixedVotes : List Voter :=
  [.ofSignature "b" "k1", { Voter.ofSignature "" "k2" with valid := false }, .ofSignature "a" "k3"]

/-- Two signatures of one sum. -/
def tiedVotes : List Voter := [.ofSignature "ab" "k1", .ofSignature "ba" "k2"]

end Sample

theorem lowest_elected_mixed :
    ∃ n', enterAndExitVotingPhase (Sample.platform []) Sample.voteSort 3600
        (Sample.closingNode Sample.mixedVotes) = some n' ∧
      ElectsLowest (Sample.closingNode Sample.mixedVotes) n' := by
  have hstamp : stoull (Sample.closingNode Sample.mixedVotes).nextVotingTimestampStr =
      some 3300 := by decide
  exact lowest_elected _ _ (by decide) rfl (by decide) hstamp

instance {votes : List Voter} : Decidable (TiesBehind votes) :=
  inferInstanceAs (Decidable (∀ a ∈ votes, ∀ b ∈ votes, a ≠ b → a.number = b.number →
    TOTAL_MASTER_NODES ≤ votes.countP fun c => c.number < a.number))

/-- Votes with different sums are elected in one order. -/
theorem same_producers_iff_sums :
    AgreeOnProducers (Sample.platform []) Sample.voteSort
      [.ofSignature "ab" "k1", .ofSignature "bb" "k2"] :=
  (same_producers_iff _ _ (by decide) (by decide)).mpr (by decide)

/-- Two votes with one sum are elected in the order in which they came in. -/
theorem different_producers :
    ¬ AgreeOnProducers (Sample.platform []) Sample.voteSort Sample.tiedVotes := by
  intro hagree
  have hsame := hagree (Sample.closingNode Sample.tiedVotes)
    (Sample.closingNode Sample.tiedVotes.reverse) _ _ 3600 3600 (.refl _) (List.reverse_perm _)
    rfl rfl rfl rfl rfl rfl
  revert hsame
  decide +kernel

end DecentralizedCloud
