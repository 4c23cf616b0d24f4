import Mathlib.Data.List.Dedup
import Mathlib.Data.List.FinRange
import Mathlib.Logic.Function.Basic
import DecentralizedCloud.Master.Rounds

/-!
# Votes that arrive at the same time

`registerVote` gives up its mutex while it checks a signature, so a vote for the
same key may join the list meanwhile. The second critical section looks for it,
except when the list has not grown, as it means to say; but it compares the size
of the list with the length of the signature, since the variable that it reads
hides the one that remembers the size. When the list happens to be as long as
the signature the vote joins without a look.

For any number of concurrent calls, no key gets two votes in any reachable state
exactly when no signature can be as long as the list in the moment in which a
second vote for its key comes in (`one_vote_per_key_iff`).
-/

namespace DecentralizedCloud

open Machine Node

/-- The arguments of a call of `registerVote`. -/
structure VoteCall where
  signature : String
  publicKey : String

/-- Where a call of `registerVote` stands. -/
inductive CallState where
  | started
  /-- it has left the first critical section, and remembers a size -/
  | unlocked (n : Nat)
  | returned
deriving DecidableEq

/-- A node with `k` calls of `registerVote`. -/
structure Registration (k : Nat) where
  node : Node
  state : Fin k → CallState

namespace Registration

variable {k : Nat}

/-- The call `i` returns. -/
def leave (s : Registration k) (i : Fin k) : Registration k :=
  { s with state := Function.update s.state i .returned }

/-- One critical section of one call. -/
def step (L : NodeLibrary) (calls : Fin k → VoteCall) : Step (Registration k) (Fin k) :=
  fun s i =>
    let signature := (calls i).signature
    let publicKey := L.base64_decode (calls i).publicKey
    match s.state i with
    | .started =>
        if !s.node.canParticipateInVoting then some (s.leave i)
        else
          match findVoter s.node.randomNumbers publicKey with
          | none => some (s.leave i)
          | some n => some { s with state := Function.update s.state i (.unlocked n) }
    | .unlocked _ =>
        if checksOut L s.node.nextVotingTimestampStr signature publicKey then
          let randomNumbers := addVoter s.node.randomNumbers signature publicKey
          some ({ s with node := { s.node with randomNumbers } }.leave i)
        else some (s.leave i)
    | .returned => none

/-- All calls are about to be made. -/
def initial (k : Nat) (node : Node) : Registration k where
  node
  state := fun _ => .started

end Registration

open Registration

section

variable {L : NodeLibrary} {k : Nat} {calls : Fin k → VoteCall} {node : Node}
  {s s' : Registration k} {i j : Fin k}

/-- The key that a call votes for. -/
def VoteCall.key (L : NodeLibrary) (call : VoteCall) : String := L.base64_decode call.publicKey

def VoteCall.voter (L : NodeLibrary) (call : VoteCall) : Voter :=
  .ofSignature call.signature (call.key L)

/-! ## One call -/

/-- A call that nothing comes between does what `registerVote` does. -/
theorem exists_run_alone (hstart : s.state i = .started) :
    ∃ es, Run (step L calls) s es {
      node := s.node.registerVote L (calls i).signature (calls i).publicKey
      state := Function.update s.state i .returned } := by
  by_cases hallowed : s.node.canParticipateInVoting = true
  -- when no votes are taken the call leaves at once
  case neg =>
      have hstep : step L calls s i = some (s.leave i) := by simp [step, hstart, hallowed]
      have hnode : s.node.registerVote L (calls i).signature (calls i).publicKey = s.node := by
        simp [registerVote, hallowed]
      rw [hnode]
      exact ⟨[i], .cons trivial hstep .nil⟩
  case pos =>
      cases hfind : findVoter s.node.randomNumbers (L.base64_decode (calls i).publicKey) with
      -- so it does when the voter is known
      | none =>
          have hstep : step L calls s i = some (s.leave i) := by
            simp [step, hstart, hallowed, hfind]
          have hnode : s.node.registerVote L (calls i).signature (calls i).publicKey = s.node := by
            simp [registerVote, hallowed, hfind]
          rw [hnode]
          exact ⟨[i], .cons trivial hstep .nil⟩
      | some n =>
          -- the call gives the mutex back, and takes it again
          have hfirst : step L calls s i =
              some { s with state := Function.update s.state i (.unlocked n) } := by
            simp [step, hstart, hallowed, hfind]
          refine ⟨[i, i], .cons trivial hfirst (.cons trivial ?_ .nil)⟩
          by_cases hchecks : checksOut L s.node.nextVotingTimestampStr (calls i).signature
              (L.base64_decode (calls i).publicKey) = true
          · simp [step, hchecks, leave, registerVote, hallowed, hfind]
          · simp [step, hchecks, leave, registerVote, hallowed, hfind]

/-- The vote of a call joins the list of a node in which its key has no vote. -/
def Admissible (L : NodeLibrary) (node : Node) (call : VoteCall) : Prop :=
  node.canParticipateInVoting = true ∧
    checksOut L node.nextVotingTimestampStr call.signature (call.key L) = true ∧
    call.key L ∉ node.randomNumbers.map (·.publicKey)

instance {call : VoteCall} : Decidable (Admissible L node call) :=
  inferInstanceAs (Decidable (_ ∧ _ ∧ _))

theorem registerVote_of_admissible {call : VoteCall} (h : Admissible L node call) :
    node.registerVote L call.signature call.publicKey =
      { node with randomNumbers := node.randomNumbers ++ [call.voter L] } := by
  rcases h with ⟨hallowed, hchecks, hnew⟩
  have hvoter : hasVoter node.randomNumbers (L.base64_decode call.publicKey) = false := by
    rw [← Bool.not_eq_true, hasVoter_eq_true_iff]
    exact hnew
  have hchecks' : checksOut L node.nextVotingTimestampStr call.signature
      (L.base64_decode call.publicKey) = true := hchecks
  simp [registerVote, hallowed, findVoter, hvoter, hchecks', addVoter, VoteCall.voter,
    VoteCall.key]

/-- The keys that can get a vote from one of the calls. -/
def newKeys (L : NodeLibrary) (node : Node) (calls : Fin k → VoteCall) : List String :=
  (((List.finRange k).filter fun i => Admissible L node (calls i)).map fun i =>
    (calls i).key L).dedup

theorem mem_newKeys {key : String} :
    key ∈ newKeys L node calls ↔ ∃ i, Admissible L node (calls i) ∧ (calls i).key L = key := by
  simp [newKeys]

/-- Two calls can both add their vote for one key: the list can be as long as the
signature of the second when that call looks at it. -/
def CanRepeat (L : NodeLibrary) (node : Node) (calls : Fin k → VoteCall) : Prop :=
  ∃ i j, i ≠ j ∧ Admissible L node (calls i) ∧ Admissible L node (calls j) ∧
    (calls i).key L = (calls j).key L ∧
    node.randomNumbers.length < (calls j).signature.length ∧
    (calls j).signature.length ≤ node.randomNumbers.length + (newKeys L node calls).length

/-! ## Safety -/

/-- The list has grown by votes of calls that have returned, for new and different
keys; a call between its sections votes for a key that had no vote at the start. -/
structure RegistrationInv (L : NodeLibrary) (calls : Fin k → VoteCall) (node : Node)
    (added : List (Fin k)) (s : Registration k) : Prop where
  votes : s.node = { node with
    randomNumbers := node.randomNumbers ++ added.map fun i => (calls i).voter L }
  added : ∀ i ∈ added, Admissible L node (calls i) ∧ s.state i = .returned
  distinct : (s.node.randomNumbers.map (·.publicKey)).Nodup
  unlocked : ∀ i n, s.state i = .unlocked n →
    node.canParticipateInVoting = true ∧ (calls i).key L ∉ node.randomNumbers.map (·.publicKey)

variable {added : List (Fin k)}

/-- The keys of the list. -/
theorem RegistrationInv.keys (h : RegistrationInv L calls node added s) :
    s.node.randomNumbers.map (·.publicKey) =
      node.randomNumbers.map (·.publicKey) ++ added.map fun i => (calls i).key L := by
  rw [h.votes, List.map_append, List.map_map]
  rfl

/-- A call returns without a vote. -/
theorem RegistrationInv.leave (h : RegistrationInv L calls node added s) (i : Fin k) :
    RegistrationInv L calls node added (s.leave i) := by
  refine ⟨h.votes, ?_, h.distinct, ?_⟩
  · intro a ha
    rcases h.added a ha with ⟨hadmissible, hstate⟩
    refine ⟨hadmissible, ?_⟩
    show Function.update s.state i .returned a = .returned
    by_cases hai : a = i
    · rw [hai, Function.update_self]
    · rw [Function.update_of_ne hai, hstate]
  · intro a n hstate
    have hstate' : Function.update s.state i .returned a = .unlocked n := hstate
    by_cases hai : a = i
    · rw [hai, Function.update_self] at hstate'
      cases hstate'
    · rw [Function.update_of_ne hai] at hstate'
      exact h.unlocked a n hstate'

/-- A call leaves its first section without having found its key. -/
theorem RegistrationInv.unlock (h : RegistrationInv L calls node added s)
    (hstate : s.state i = .started) (hallowed : s.node.canParticipateInVoting = true) {n : Nat}
    (hfind : findVoter s.node.randomNumbers ((calls i).key L) = some n) :
    RegistrationInv L calls node added
      { s with state := Function.update s.state i (.unlocked n) } := by
  have hnew : (calls i).key L ∉ s.node.randomNumbers.map (·.publicKey) := by
    intro hmem
    rw [findVoter, if_pos (hasVoter_eq_true_iff.mpr hmem)] at hfind
    cases hfind
  refine ⟨h.votes, ?_, h.distinct, ?_⟩
  · intro a ha
    rcases h.added a ha with ⟨hadmissible, hreturned⟩
    -- a call that has added its vote has returned
    have hai : a ≠ i := by
      rintro rfl
      rw [hstate] at hreturned
      cases hreturned
    refine ⟨hadmissible, ?_⟩
    show Function.update s.state i (.unlocked n) a = .returned
    rw [Function.update_of_ne hai, hreturned]
  · intro a n' hstate'
    have hstate'' : Function.update s.state i (.unlocked n) a = .unlocked n' := hstate'
    by_cases hai : a = i
    · rw [hai]
      constructor
      -- this call has not found its key
      · rw [h.votes] at hallowed
        exact hallowed
      · intro hmem
        apply hnew
        rw [h.keys]
        exact List.mem_append_left _ hmem
    · rw [Function.update_of_ne hai] at hstate''
      exact h.unlocked a n' hstate''

/-- There are no more votes in the list than new keys. -/
theorem RegistrationInv.length_added_le (h : RegistrationInv L calls node added s) :
    added.length ≤ (newKeys L node calls).length := by
  have hdistinct := h.distinct
  rw [h.keys] at hdistinct
  have hsub : (added.map fun i => (calls i).key L) ⊆ newKeys L node calls := by
    intro key hkey
    rcases List.mem_map.mp hkey with ⟨i, hi, rfl⟩
    exact mem_newKeys.mpr ⟨i, (h.added i hi).1, rfl⟩
  have hle := (List.subperm_of_subset (List.nodup_append.mp hdistinct).2.1 hsub).length_le
  rw [List.length_map] at hle
  exact hle

/-- A call whose key has got a vote meanwhile does not skip the search. -/
theorem RegistrationInv.searches (h : RegistrationInv L calls node added s)
    (hrepeat : ¬ CanRepeat L node calls) {n : Nat} (hstate : s.state i = .unlocked n)
    (hadmissible : Admissible L node (calls i))
    (hmem : (calls i).key L ∈ s.node.randomNumbers.map (·.publicKey)) :
    (calls i).signature.length ≠ s.node.randomNumbers.length := by
  intro hlength
  apply hrepeat
  -- the vote in the list is from another call, which has returned
  rw [h.keys, List.mem_append] at hmem
  rcases hmem with hold | hnew
  · exact absurd hold hadmissible.2.2
  · rcases List.mem_map.mp hnew with ⟨j, hj, hkey⟩
    rcases h.added j hj with ⟨hadmissible', hreturned⟩
    have hne : j ≠ i := by
      rintro rfl
      rw [hstate] at hreturned
      cases hreturned
    have hsize : s.node.randomNumbers.length = node.randomNumbers.length + added.length := by
      rw [h.votes, List.length_append, List.length_map]
    have hpos : 0 < added.length := List.length_pos_of_mem hj
    have hle : added.length ≤ (newKeys L node calls).length := h.length_added_le
    exact ⟨j, i, hne, hadmissible', hadmissible, hkey, by omega, by omega⟩

/-- The vote of a call joins the list, for a key that has no vote. -/
theorem RegistrationInv.join (h : RegistrationInv L calls node added s)
    (hadmissible : Admissible L node (calls i))
    (hnew : (calls i).key L ∉ s.node.randomNumbers.map (·.publicKey)) :
    RegistrationInv L calls node (added ++ [i]) (Registration.leave { s with
      node := { s.node with
        randomNumbers := s.node.randomNumbers ++ [(calls i).voter L] } } i) := by
  refine ⟨?_, ?_, ?_, (h.leave i).unlocked⟩
  · show { s.node with
      randomNumbers := s.node.randomNumbers ++ [(calls i).voter L] } = { node with
        randomNumbers := node.randomNumbers ++ (added ++ [i]).map fun i => (calls i).voter L }
    rw [h.votes, List.map_append, List.append_assoc]
    rfl
  · intro a ha
    rcases List.mem_append.mp ha with ha | ha
    · exact (h.leave i).added a ha
    · rw [List.mem_singleton.mp ha]
      refine ⟨hadmissible, ?_⟩
      show Function.update s.state i .returned i = .returned
      rw [Function.update_self]
  · show ((s.node.randomNumbers ++ [(calls i).voter L]).map (·.publicKey)).Nodup
    rw [List.map_append, List.map_singleton, ← List.concat_eq_append]
    exact h.distinct.concat hnew

/-- When no call can repeat a vote, a step keeps the keys of the list different. -/
theorem registrationInv_step (hrepeat : ¬ CanRepeat L node calls)
    (h : ∃ added, RegistrationInv L calls node added s) (hstep : step L calls s i = some s') :
    ∃ added, RegistrationInv L calls node added s' := by
  rcases h with ⟨added, h⟩
  unfold step at hstep
  dsimp only at hstep
  split at hstep
  -- the first section
  case h_1 hstate =>
      split at hstep
      case isTrue =>
          cases hstep
          exact ⟨added, h.leave i⟩
      case isFalse hallowed =>
          have hallowed' : s.node.canParticipateInVoting = true := by simpa using hallowed
          split at hstep
          case h_1 =>
              cases hstep
              exact ⟨added, h.leave i⟩
          case h_2 n hfind =>
              cases hstep
              exact ⟨added, h.unlock hstate hallowed' hfind⟩
  -- the second section, after the checks
  case h_2 n hstate =>
      split at hstep
      case isFalse =>
          cases hstep
          exact ⟨added, h.leave i⟩
      case isTrue hchecks =>
          cases hstep
          rcases h.unlocked i n hstate with ⟨hallowed, hnewKey⟩
          have hadmissible : Admissible L node (calls i) := by
            refine ⟨hallowed, ?_, hnewKey⟩
            rw [h.votes] at hchecks
            exact hchecks
          by_cases hmem : (calls i).key L ∈ s.node.randomNumbers.map (·.publicKey)
          -- the key came in between; as no call can repeat a vote, the list is searched again
          · have hlength := h.searches hrepeat hstate hadmissible hmem
            have hfound : hasVoter s.node.randomNumbers (L.base64_decode (calls i).publicKey) =
                true := hasVoter_eq_true_iff.mpr hmem
            have hsame : addVoter s.node.randomNumbers (calls i).signature
                (L.base64_decode (calls i).publicKey) = s.node.randomNumbers := by
              simp [addVoter, hlength, hfound]
            rw [hsame]
            exact ⟨added, h.leave i⟩
          -- the key is new
          · have hunknown : hasVoter s.node.randomNumbers (L.base64_decode (calls i).publicKey) =
                false := by
              rw [← Bool.not_eq_true, hasVoter_eq_true_iff]
              exact hmem
            have hadds : addVoter s.node.randomNumbers (calls i).signature
                (L.base64_decode (calls i).publicKey) =
                  s.node.randomNumbers ++ [(calls i).voter L] := by
              simp [addVoter, hunknown, VoteCall.voter, VoteCall.key]
            rw [hadds]
            exact ⟨added ++ [i], h.join hadmissible hmem⟩
  case h_3 => cases hstep

/-! ## The race -/

/-- Calls for different new keys can be made one after the other. -/
theorem exists_run_each (rs : List (Fin k)) (hstarted : ∀ r ∈ rs, s.state r = .started)
    (hadmissible : ∀ r ∈ rs, Admissible L s.node (calls r))
    (hdistinct : (rs.map fun r => (calls r).key L).Nodup) :
    ∃ es s', Run (step L calls) s es s' ∧
      s'.node = { s.node with
        randomNumbers := s.node.randomNumbers ++ rs.map fun r => (calls r).voter L } ∧
      ∀ x, x ∉ rs → s'.state x = s.state x := by
  induction rs generalizing s with
  | nil => exact ⟨[], s, .nil, by simp, fun _ _ => rfl⟩
  | cons r rs ih =>
      rw [List.map_cons, List.nodup_cons] at hdistinct
      rcases hdistinct with ⟨hnew, hdistinct⟩
      obtain ⟨es, hrun⟩ : ∃ es, Run (step L calls) s es {
          node := s.node.registerVote L (calls r).signature (calls r).publicKey
          state := Function.update s.state r .returned } :=
        exists_run_alone (hstarted r List.mem_cons_self)
      rw [registerVote_of_admissible (hadmissible r List.mem_cons_self)] at hrun
      have hother : ∀ r' ∈ rs, (calls r').key L ≠ (calls r).key L := by
        intro r' hr' heq
        exact hnew (List.mem_map.mpr ⟨r', hr', heq⟩)
      -- after it the others are still to be made, and their keys are still new
      have hstarted' : ∀ r' ∈ rs, Function.update s.state r .returned r' = .started := by
        intro r' hr'
        have hne : r' ≠ r := by
          intro heq
          exact hother r' hr' (by rw [heq])
        rw [Function.update_of_ne hne]
        exact hstarted r' (List.mem_cons_of_mem r hr')
      have hadmissible' : ∀ r' ∈ rs, Admissible L { s.node with
          randomNumbers := s.node.randomNumbers ++ [(calls r).voter L] } (calls r') := by
        intro r' hr'
        rcases hadmissible r' (List.mem_cons_of_mem r hr') with ⟨hallowed, hchecks, hnew'⟩
        refine ⟨hallowed, hchecks, ?_⟩
        intro hmem
        have hmem' : (calls r').key L ∈
            (s.node.randomNumbers ++ [(calls r).voter L]).map (·.publicKey) := hmem
        rw [List.map_append, List.mem_append, List.map_singleton, List.mem_singleton] at hmem'
        rcases hmem' with hold | hlast
        · exact hnew' hold
        · exact hother r' hr' hlast
      obtain ⟨es', s', hrun', hnode, hrest⟩ :=
        ih (s := ⟨_, Function.update s.state r .returned⟩) hstarted' hadmissible' hdistinct
      refine ⟨es ++ es', s', hrun.append hrun', ?_, ?_⟩
      · rw [hnode, List.map_cons, List.append_assoc]
        rfl
      · intro x hx
        rw [List.mem_cons, not_or] at hx
        rw [hrest x hx.2]
        exact Function.update_of_ne hx.1 _ _

/-- A call for each of some new keys. -/
theorem exists_calls (keys : List String) (h : keys ⊆ newKeys L node calls) :
    ∃ rs : List (Fin k), rs.map (fun r => (calls r).key L) = keys ∧
      ∀ r ∈ rs, Admissible L node (calls r) := by
  induction keys with
  | nil => exact ⟨[], rfl, by simp⟩
  | cons key keys ih =>
      rcases ih fun k hk => h (List.mem_cons_of_mem key hk) with ⟨rs, hkeys, hrs⟩
      rcases mem_newKeys.mp (h List.mem_cons_self) with ⟨r, hr, hkey⟩
      refine ⟨r :: rs, by rw [List.map_cons, hkey, hkeys], ?_⟩
      intro r' hr'
      rcases List.mem_cons.mp hr' with rfl | hr'
      · exact hr
      · exact hrs r' hr'

/-- Calls for a number of other new keys. -/
theorem exists_others {key : String} (hmem : key ∈ newKeys L node calls) {m : Nat}
    (hm : m < (newKeys L node calls).length) :
    ∃ rs : List (Fin k), rs.length = m ∧ key ∉ rs.map (fun r => (calls r).key L) ∧
      (rs.map fun r => (calls r).key L).Nodup ∧ ∀ r ∈ rs, Admissible L node (calls r) := by
  have hnodup : (newKeys L node calls).Nodup := List.nodup_dedup _
  have herase : ((newKeys L node calls).erase key).length = (newKeys L node calls).length - 1 :=
    List.length_erase_of_mem hmem
  obtain ⟨rs, hkeys, hrs⟩ := exists_calls (((newKeys L node calls).erase key).take m)
    fun _ hk => List.mem_of_mem_erase (List.mem_of_mem_take hk)
  refine ⟨rs, ?_, ?_, ?_, hrs⟩
  · have hlength := congrArg List.length hkeys
    rw [List.length_map, List.length_take, herase] at hlength
    omega
  · rw [hkeys]
    intro hmem'
    exact hnodup.not_mem_erase (List.mem_of_mem_take hmem')
  · rw [hkeys]
    exact (hnodup.erase _).sublist (List.take_sublist _ _)

/-- A call for a new key leaves its first section. -/
theorem step_unlock (h : Admissible L node (calls j)) :
    step L calls (initial k node) j = some {
      node
      state := Function.update (fun _ => .started) j (.unlocked node.randomNumbers.length) } := by
  have hunknown : hasVoter node.randomNumbers (L.base64_decode (calls j).publicKey) = false := by
    rw [← Bool.not_eq_true, hasVoter_eq_true_iff]
    exact h.2.2
  simp [step, initial, h.1, findVoter, hunknown]

/-- When a call can repeat a vote, some order of the steps makes it do so: it leaves
its first section, other votes come in until the list is as long as its signature,
and it adds its vote. -/
theorem exists_repeated (h : CanRepeat L node calls) :
    ∃ es s, Run (step L calls) (initial k node) es s ∧
      ¬ (s.node.randomNumbers.map (·.publicKey)).Nodup := by
  rcases h with ⟨i, j, hne, hi, hj, hkey, hlow, hhigh⟩
  -- enough other keys to fill the list up
  obtain ⟨m, hm⟩ : ∃ m, (calls j).signature.length = node.randomNumbers.length + 1 + m :=
    ⟨(calls j).signature.length - node.randomNumbers.length - 1, by omega⟩
  obtain ⟨rs, hrsLength, hrsOther, hrsDistinct, hrs⟩ :=
    exists_others (m := m) (mem_newKeys.mpr ⟨j, hj, rfl⟩) (by omega)
  have hfirst := step_unlock hj
  -- the call `i` and the others add their votes
  obtain ⟨s₁, hs₁⟩ : ∃ s₁ : Registration k, s₁ = {
      node
      state := Function.update (fun _ => .started) j (.unlocked node.randomNumbers.length) } :=
    ⟨_, rfl⟩
  rw [← hs₁] at hfirst
  have hnode₁ : s₁.node = node := by rw [hs₁]
  have hstate₁ : s₁.state j = .unlocked node.randomNumbers.length := by
    rw [hs₁]
    show Function.update (fun _ : Fin k => CallState.started) j _ j = _
    rw [Function.update_self]
  have hstarted : ∀ r ∈ i :: rs, s₁.state r = .started ∧ r ≠ j := by
    intro r hr
    have hrj : r ≠ j := by
      rintro rfl
      rcases List.mem_cons.mp hr with heq | hr
      · exact hne heq.symm
      · exact hrsOther (List.mem_map.mpr ⟨r, hr, rfl⟩)
    refine ⟨?_, hrj⟩
    rw [hs₁]
    show Function.update (fun _ : Fin k => CallState.started) j _ r = _
    rw [Function.update_of_ne hrj]
  have hadmissible : ∀ r ∈ i :: rs, Admissible L s₁.node (calls r) := by
    intro r hr
    rw [hnode₁]
    rcases List.mem_cons.mp hr with rfl | hr
    · exact hi
    · exact hrs r hr
  have hdistinct : ((i :: rs).map fun r => (calls r).key L).Nodup := by
    rw [List.map_cons, List.nodup_cons, hkey]
    exact ⟨hrsOther, hrsDistinct⟩
  obtain ⟨es, s, hrun, hnode, hstate⟩ :=
    exists_run_each (i :: rs) (fun r hr => (hstarted r hr).1) hadmissible hdistinct
  rw [hnode₁] at hnode
  have hlength : s.node.randomNumbers.length = (calls j).signature.length := by
    rw [hnode, List.length_append, List.length_map, List.length_cons, hrsLength, hm]
    omega
  have hstatej : s.state j = .unlocked node.randomNumbers.length := by
    rw [hstate j fun hj => (hstarted j hj).2 rfl]
    exact hstate₁
  -- the list is as long as the signature now
  have hchecks : checksOut L s.node.nextVotingTimestampStr (calls j).signature
      (L.base64_decode (calls j).publicKey) = true := by
    rw [hnode]
    exact hj.2.1
  have hlast : step L calls s j = some (Registration.leave { s with
      node := { s.node with
        randomNumbers := s.node.randomNumbers ++ [(calls j).voter L] } } j) := by
    simp [step, hstatej, hchecks, addVoter, hlength, VoteCall.voter, VoteCall.key]
  refine ⟨j :: (es ++ [j]), _, .cons trivial hfirst (.snoc hrun trivial hlast), ?_⟩
  show ¬ ((s.node.randomNumbers ++ [(calls j).voter L]).map (·.publicKey)).Nodup
  intro hnodup
  rw [hnode, List.map_append, List.map_append, List.map_cons] at hnodup
  have htwice := (List.nodup_append.mp hnodup).2.2 ((calls i).key L)
    (List.mem_append_right _ List.mem_cons_self) ((calls j).key L) List.mem_cons_self
  exact htwice hkey

/-- In every state that the calls can reach from `node`, no key has two votes. -/
def OneVotePerKey (L : NodeLibrary) (node : Node) (calls : Fin k → VoteCall) : Prop :=
  ∀ es s, Run (step L calls) (initial k node) es s →
    (s.node.randomNumbers.map (·.publicKey)).Nodup

/-- For any number of concurrent calls, and a list with one vote per key at the
start: in every reachable state the list has one vote per key, if and only if no
call can repeat a vote. -/
theorem one_vote_per_key_iff (L : NodeLibrary) (calls : Fin k → VoteCall)
    (hdistinct : (node.randomNumbers.map (·.publicKey)).Nodup) :
    OneVotePerKey L node calls ↔ ¬ CanRepeat L node calls := by
  constructor
  · intro hall hrepeat
    rcases exists_repeated hrepeat with ⟨es, s, hrun, htwice⟩
    exact htwice (hall es s hrun)
  · intro hrepeat es s hrun
    obtain ⟨added, hinv⟩ : ∃ added, RegistrationInv L calls node added s := by
      refine hrun.invariant (fun _ s => ∃ added, RegistrationInv L calls node added s) ?_ ?_
      · refine ⟨[], ?_, by simp, hdistinct, ?_⟩
        · rw [List.map_nil, List.append_nil]
          rfl
        · intro i n hstate
          cases hstate
      · intro _ s i s' hinv _ hstep
        exact registrationInv_step hrepeat hinv hstep
    exact hinv.distinct

end

instance {L : NodeLibrary} {node : Node} {k : Nat} {calls : Fin k → VoteCall} :
    Decidable (CanRepeat L node calls) :=
  inferInstanceAs (Decidable (∃ i j, i ≠ j ∧ Admissible L node (calls i) ∧
    Admissible L node (calls j) ∧ (calls i).key L = (calls j).key L ∧
    node.randomNumbers.length < (calls j).signature.length ∧
    (calls j).signature.length ≤ node.randomNumbers.length + (newKeys L node calls).length))

/-! ## One vote, delivered twice -/

/-- The vote of "k1". -/
def sameVote : Fin 2 → VoteCall := fun _ => ⟨"k13300", "azE="⟩

/-- Into an empty list the vote is added once. -/
theorem one_vote_per_key_iff_empty :
    OneVotePerKey Sample.votingLibrary Sample.votingNode sameVote :=
  (one_vote_per_key_iff Sample.votingLibrary sameVote (by decide)).mpr (by decide +kernel)

/-- A node with five votes, one less than the signature has characters. -/
def fiveVotes : Node :=
  { Sample.votingNode with
    randomNumbers := ["a", "b", "c", "d", "e"].map (Voter.ofSignature "") }

/-- Both calls have left their first section when the first one adds the vote. Then
the list has six votes, and the second one adds it too. -/
theorem vote_added_twice :
    (fiveVotes.randomNumbers.map (·.publicKey)).Nodup ∧
      ∃ s, Run (step Sample.votingLibrary sameVote) (initial 2 fiveVotes)
        [⟨0, Nat.two_pos⟩, ⟨1, Nat.one_lt_two⟩, ⟨0, Nat.two_pos⟩, ⟨1, Nat.one_lt_two⟩] s ∧
      (s.node.randomNumbers.map (·.publicKey)).count "k1" = 2 := by
  refine ⟨by decide, ?_⟩
  obtain ⟨s, hrun, hcheck⟩ :
      ∃ s, Run (step Sample.votingLibrary sameVote) (initial 2 fiveVotes)
          [⟨0, Nat.two_pos⟩, ⟨1, Nat.one_lt_two⟩, ⟨0, Nat.two_pos⟩, ⟨1, Nat.one_lt_two⟩] s ∧
        decide ((s.node.randomNumbers.map (·.publicKey)).count "k1" = 2) = true :=
    exists_trace_of_exec _ (by decide +kernel)
  exact ⟨s, hrun, of_decide_eq_true hcheck⟩

end DecentralizedCloud
