import DecentralizedCloud.Master.BlockFrame
import DecentralizedCloud.Master.Rounds

/-!
# The main loop and the numbers of blocks

`runLoop` reads the clock again and again, and closes a block whenever a second
has gone by since it closed the last one. The number of a block is meant to be
the number of seconds between the genesis of the network and its closing. But it
is computed from the clock only for the first block of a node; from then on it
is counted up by one for each block, however many seconds have gone by.

So a node that starts after the genesis gives its blocks the right numbers, and
the same numbers as every other such node, exactly as long as it closes a block
in every second (`block_numbers_iff`).
-/

namespace DecentralizedCloud

open Machine Master Node

namespace Node

/-- The part of a turn that closes a block once a second. -/
def closeRound (P : Platform) (now : Int) (env : Env) (n : Node) : Option Node :=
  let timeSinceLastRound := now - n.lastRoundTimestamp
  if timeSinceLastRound ≥ 1 then
    (timeToCloseBlock P env n.master).map fun master =>
      { n with master, lastRoundTimestamp := now }
  else some n

/-- The part of a turn that cleans up every five minutes. -/
def cleanUp (now : Int) (env : Env) (n : Node) : Node :=
  let timeSinceCleanup := now - n.lastCleanupTime
  if timeSinceCleanup > 60 * 5 then
    { n with master := cleanupTransactionsMap env n.master, lastCleanupTime := now }
  else n

/-- One turn of `runLoop`; `none` when an exception ends the loop. `now` is the
clock as the turn reads it, and `env.now` is `currentTimestamp` when the block is
closed: a message that is sent in between refreshes it. -/
def turn (P : Platform) (S : KeySort Voter.number) (now : Int) (env : Env) (n : Node) :
    Option Node :=
  (enterAndExitVotingPhase P S now n).bind fun voted =>
    -- The record of an election that does not print ends the loop, too.
    if n.inVotingPhase && !voted.inVotingPhase && recordRaises n voted then none
    else (closeRound P now env voted).map (cleanUp now env)

end Node

/-- A turn of the loop, or what other threads do in between. -/
inductive LoopEvent where
  | turn (now : Int) (env : Env)
  | vote (signature publicKey : String)
  | message (e : Event)

/-- A step of a node. Only the loop closes blocks. -/
def loopStep (P : Platform) (S : KeySort Voter.number) (L : NodeLibrary) : Step Node LoopEvent :=
  fun n e =>
    match e with
    | .turn now env => turn P S now env n
    | .vote signature publicKey => some (n.registerVote L signature publicKey)
    | .message ⟨_, .closeBlock⟩ => none
    | .message e => (handle P n.master e).map fun master => { n with master }

/-- The block that a step closes. -/
def closedBlocks (P : Platform) (S : KeySort Voter.number) (n : Node) (e : LoopEvent) (_ : Node) :
    List Block :=
  match e with
  | .turn now env =>
      if now - n.lastRoundTimestamp ≥ 1 then
        ((enterAndExitVotingPhase P S now n).bind fun n =>
          (assembleBlock P env n.master).map (·.1)).toList
      else []
  | .vote _ _ | .message _ => []

/-- The DHT has the genesis timestamp `g` when a block is closed, and the clock fits
a `time_t`. -/
def KnowsGenesis (g : Int) (_ : Node × List Block) (e : LoopEvent) : Prop :=
  match e with
  | .turn _ env => env.dhtGet "genesisStamp" = toString g ∧ env.now < 2 ^ 63
  | .vote _ _ | .message _ => True

/-- The last round and the closing times so far, after one more event. -/
def tick (times : Int × List Int) (e : LoopEvent) : Int × List Int :=
  match e with
  | .turn now env => if now - times.1 ≥ 1 then (now, times.2 ++ [env.now]) else times
  | .vote _ _ | .message _ => times

/-- The times at which the loop closes blocks, as the readings of the clock have it. -/
def closingTimes (lastRoundTimestamp : Int) (es : List LoopEvent) : List Int :=
  (es.foldl tick (lastRoundTimestamp, [])).2

/-- The first time is not before the genesis, and no second is skipped from then on. -/
def SecondBySecond (g : Int) (times : List Int) : Prop :=
  (∀ t ∈ times.head?, g ≤ t) ∧ times.IsChain fun t t' => t' = t + 1

/-! ## Numbers along a list of blocks -/

/-- The number that the counter has after a list of blocks. -/
def nextAfter : Nat → List Block → Nat
  | next, [] => next
  | _, b :: bs => nextAfter ((b.number + 1) % 2 ^ 64) bs

/-- The blocks have the numbers that `getNextBlockNumber` gives them. -/
def Numbered (g : Int) : Nat → List Block → Prop
  | _, [] => True
  | next, b :: bs =>
      numberFrom (toString g) b.time next = some b.number ∧
        Numbered g ((b.number + 1) % 2 ^ 64) bs

/-- The number of a block is the number of seconds since the genesis. -/
def CountsSeconds (g : Int) (b : Block) : Prop := (b.number : Int) = b.time - g

section

variable {g : Int} {next : Nat} {b : Block} {bs : List Block}

theorem numbered_concat :
    Numbered g next (bs ++ [b]) ↔
      Numbered g next bs ∧ numberFrom (toString g) b.time (nextAfter next bs) = some b.number := by
  induction bs generalizing next with
  | nil => simp [Numbered, nextAfter]
  | cons c bs ih => simp [Numbered, nextAfter, ih, and_assoc]

theorem nextAfter_concat : nextAfter next (bs ++ [b]) = (b.number + 1) % 2 ^ 64 := by
  induction bs generalizing next with
  | nil => rfl
  | cons c bs ih => exact ih

/-- A fetched number is the age of the network, in 64 bits. -/
theorem numberFrom_genesis (hg : 0 ≤ g) (hg' : g < 2 ^ 63) (now : Int) :
    numberFrom (toString g) now 0 = some ((now - g) % 2 ^ 64).toNat := by
  have hstamp : stoull (toString g) = some g.toNat := stoull_toString hg (by omega)
  have hne : toString g ≠ "" := by
    intro hempty
    rw [hempty] at hstamp
    cases hstamp
  have hcast : ((g.toNat : Nat) : Int) = g := Int.toNat_of_nonneg hg
  rw [numberFrom, if_pos rfl, if_neg hne, hstamp, Option.map_some, hcast]

/-- A node that has given a right number gives right numbers as long as it closes a
block in every second. -/
theorem countsSeconds_iff_of_last (hg : 0 ≤ g) {last : Block} (hlast : CountsSeconds g last)
    (htime : last.time < 2 ^ 63) (hall : ∀ b ∈ bs, b.time < 2 ^ 63)
    (h : Numbered g ((last.number + 1) % 2 ^ 64) bs) :
    (∀ b ∈ bs, CountsSeconds g b) ↔
      (last.time :: bs.map (·.time)).IsChain fun t t' => t' = t + 1 := by
  induction bs generalizing last with
  | nil => simp
  | cons b bs ih =>
      rcases h with ⟨hnumber, hrest⟩
      have hseconds : (last.number : Int) = last.time - g := hlast
      have hsmall : (last.number + 1) % 2 ^ 64 = last.number + 1 := by omega
      have hfetched : last.number + 1 ≠ 0 := by omega
      rw [hsmall, numberFrom, if_neg hfetched] at hnumber
      have hnext : last.number + 1 = b.number := Option.some.inj hnumber
      -- after a right number the next one is right when a second has gone by
      have hright : CountsSeconds g b ↔ b.time = last.time + 1 := by
        unfold CountsSeconds
        omega
      rw [List.forall_mem_cons, List.map_cons, List.isChain_cons_cons, hright]
      constructor
      · rintro ⟨hone, hbs⟩
        refine ⟨hone, ?_⟩
        exact (ih (hright.mpr hone) (hall b List.mem_cons_self)
          (fun c hc => hall c (List.mem_cons_of_mem b hc)) hrest).mp hbs
      · rintro ⟨hone, hchain⟩
        refine ⟨hone, ?_⟩
        exact (ih (hright.mpr hone) (hall b List.mem_cons_self)
          (fun c hc => hall c (List.mem_cons_of_mem b hc)) hrest).mpr hchain

/-- The blocks of a node that fetches the genesis timestamp have the right numbers if
and only if it closes them second by second. -/
theorem countsSeconds_iff_of_numbered (hg : 0 ≤ g) (hg' : g < 2 ^ 63)
    (hall : ∀ b ∈ bs, b.time < 2 ^ 63) (h : Numbered g 0 bs) :
    (∀ b ∈ bs, CountsSeconds g b) ↔ SecondBySecond g (bs.map (·.time)) := by
  cases bs with
  | nil => simp [SecondBySecond]
  | cons b bs =>
      rcases h with ⟨hnumber, hrest⟩
      rw [numberFrom_genesis hg hg'] at hnumber
      have hfetched : ((b.time - g) % 2 ^ 64).toNat = b.number := Option.some.inj hnumber
      have htime : b.time < 2 ^ 63 := hall b List.mem_cons_self
      -- the first number is the number of seconds, unless they are negative and wrap
      have hright : CountsSeconds g b ↔ g ≤ b.time := by
        unfold CountsSeconds
        constructor
        · intro _
          omega
        · intro hle
          rw [← hfetched, Int.emod_eq_of_lt (by omega) (by omega)]
          omega
      have hfirst : SecondBySecond g ((b :: bs).map (·.time)) ↔
          g ≤ b.time ∧ (b.time :: bs.map (·.time)).IsChain fun t t' => t' = t + 1 := by
        simp [SecondBySecond]
      rw [List.forall_mem_cons, hfirst, hright]
      constructor
      · rintro ⟨hle, hbs⟩
        refine ⟨hle, ?_⟩
        exact (countsSeconds_iff_of_last hg (hright.mpr hle) htime
          (fun c hc => hall c (List.mem_cons_of_mem b hc)) hrest).mp hbs
      · rintro ⟨hle, hchain⟩
        refine ⟨hle, ?_⟩
        exact (countsSeconds_iff_of_last hg (hright.mpr hle) htime
          (fun c hc => hall c (List.mem_cons_of_mem b hc)) hrest).mpr hchain

/-! ## What one step does to the counter -/

variable {P : Platform} {S : KeySort Voter.number} {L : NodeLibrary} {n n' : Node} {now : Int}
  {env : Env} {e : LoopEvent}

/-- The voting leaves the counter and the last round alone. -/
theorem voting_keeps (h : enterAndExitVotingPhase P S now n = some n') :
    n'.master.nextBlockNumber = n.master.nextBlockNumber ∧
      n'.lastRoundTimestamp = n.lastRoundTimestamp := by
  have hphase : PhaseStep P S now n n' := phaseStep h
  cases hphase with
  | same => exact ⟨rfl, rfl⟩
  | opened =>
      rcases openVoting_cases P n with hopen | ⟨sentVotes, hopen⟩
      · rw [hopen]
        exact ⟨rfl, rfl⟩
      · rw [hopen]
        exact ⟨rfl, rfl⟩
  | closed _ _ _ hclose =>
      have hclosed : ClosesVoting S n n' := closesVoting hclose
      exact ⟨hclosed.nextBlockNumber, hclosed.lastRoundTimestamp⟩

/-- The clean-up at the end of a turn leaves them alone, too. -/
theorem turn_cases (h : turn P S now env n = some n') :
    ∃ n₁, enterAndExitVotingPhase P S now n = some n₁ ∧
      ((now - n.lastRoundTimestamp ≥ 1 ∧ n'.lastRoundTimestamp = now ∧
          ∃ master, timeToCloseBlock P env n₁.master = some master ∧
            n'.master.nextBlockNumber = master.nextBlockNumber) ∨
        (¬ now - n.lastRoundTimestamp ≥ 1 ∧ n'.lastRoundTimestamp = n.lastRoundTimestamp ∧
          n'.master.nextBlockNumber = n.master.nextBlockNumber)) := by
  rcases Option.bind_eq_some_iff.mp h with ⟨n₁, hvoting, h⟩
  rcases (Option.ite_none_left_eq_some.mp h).2 with h
  rcases Option.map_eq_some_iff.mp h with ⟨n₂, hclosing, rfl⟩
  rcases voting_keeps hvoting with ⟨hnext, hlast⟩
  -- the clean-up works on the transactions
  have hcleanup : (cleanUp now env n₂).master.nextBlockNumber = n₂.master.nextBlockNumber ∧
      (cleanUp now env n₂).lastRoundTimestamp = n₂.lastRoundTimestamp := by
    unfold cleanUp
    dsimp only
    split
    · exact ⟨rfl, rfl⟩
    · exact ⟨rfl, rfl⟩
  refine ⟨n₁, hvoting, ?_⟩
  rw [← hlast]
  unfold closeRound at hclosing
  dsimp only at hclosing
  split at hclosing
  -- a second has gone by
  case isTrue hsecond =>
      rcases Option.map_eq_some_iff.mp hclosing with ⟨master, hmaster, rfl⟩
      exact .inl ⟨hsecond, hcleanup.2, master, hmaster, hcleanup.1⟩
  case isFalse hsecond =>
      cases hclosing
      exact .inr ⟨hsecond, hcleanup.2, hcleanup.1.trans hnext⟩

/-- Only a turn of the loop changes them. -/
theorem other_keeps (hstep : loopStep P S L n e = some n')
    (hother : ∀ now env, e ≠ .turn now env) :
    n'.master.nextBlockNumber = n.master.nextBlockNumber ∧
      n'.lastRoundTimestamp = n.lastRoundTimestamp := by
  cases e with
  | turn now env => exact absurd rfl (hother now env)
  | vote signature publicKey =>
      cases hstep
      rcases registerVote_cases L n signature publicKey with hsame | ⟨key, -, -, hadded⟩
      · rw [hsame]
        exact ⟨rfl, rfl⟩
      · rw [hadded]
        exact ⟨rfl, rfl⟩
  | message e =>
      -- a message closes no block, and only the closing counts
      by_cases hclose : e.msg = .closeBlock
      · rcases e with ⟨env, msg⟩
        cases hclose
        cases hstep
      · have hhandle : loopStep P S L n (.message e) =
            (handle P n.master e).map fun master => { n with master } := by
          unfold loopStep
          split
          case h_3 hmsg =>
              cases hmsg
              exact absurd rfl hclose
          case h_4 hmsg =>
              cases hmsg
              rfl
          all_goals (rename_i hmsg; cases hmsg)
        rw [hhandle] at hstep
        rcases Option.map_eq_some_iff.mp hstep with ⟨master, hmaster, rfl⟩
        exact ⟨(handle_keepsBlockState hmaster hclose).nextBlockNumber, rfl⟩

/-! ## Every run -/

/-- The blocks so far: when they were closed, how they were numbered, and where the
counter stands. -/
structure LoopInv (g last : Int) (es : List LoopEvent) (s : Node × List Block) : Prop where
  times : es.foldl tick (last, []) = (s.1.lastRoundTimestamp, s.2.map (·.time))
  numbered : Numbered g 0 s.2
  next : s.1.master.nextBlockNumber = nextAfter 0 s.2
  fits : ∀ b ∈ s.2, b.time < 2 ^ 63

/-- A step that closes no block keeps the record. -/
theorem LoopInv.kept {last : Int} {es : List LoopEvent} {blocks : List Block}
    (h : LoopInv g last es (n, blocks))
    (htick : tick (n.lastRoundTimestamp, blocks.map (·.time)) e =
      (n.lastRoundTimestamp, blocks.map (·.time)))
    (hlast : n'.lastRoundTimestamp = n.lastRoundTimestamp)
    (hnext : n'.master.nextBlockNumber = n.master.nextBlockNumber) :
    LoopInv g last (es ++ [e]) (n', blocks ++ []) := by
  rw [List.append_nil]
  constructor
  · rw [List.foldl_concat, h.times, htick, hlast]
  · exact h.numbered
  · exact hnext.trans h.next
  · exact h.fits

/-- A turn that closes a block adds it to the record. -/
theorem LoopInv.closes {last : Int} {es : List LoopEvent} {blocks : List Block} {block : Block}
    {n₁ : Node} {m₁ : Master} (h : LoopInv g last es (n, blocks))
    (hok : KnowsGenesis g (n, blocks) (.turn now env)) (hsecond : now - n.lastRoundTimestamp ≥ 1)
    (hlast : n'.lastRoundTimestamp = now)
    (hvoting : n₁.master.nextBlockNumber = n.master.nextBlockNumber)
    (hassemble : assembleBlock P env n₁.master = some (block, m₁))
    (hnext : n'.master.nextBlockNumber = m₁.nextBlockNumber) :
    LoopInv g last (es ++ [.turn now env]) (n', blocks ++ [block]) := by
  have hmade : MadeOf P env n₁.master (due P env n₁.master) block :=
    assembleBlock_madeOf hassemble
  constructor
  · rw [List.foldl_concat, h.times, tick, if_pos hsecond, hlast, List.map_append,
      List.map_singleton, hmade.time]
  · refine numbered_concat.mpr ⟨h.numbered, ?_⟩
    rw [← hok.1, hmade.time, ← h.next, ← hvoting]
    exact hmade.number
  · rw [hnext, nextAfter_concat]
    exact (assembleBlock_advances hassemble).2.2
  · intro b hb
    rcases List.mem_append.mp hb with hb | hb
    · exact h.fits b hb
    · rw [List.mem_singleton.mp hb, hmade.time]
      exact hok.2

/-- Every turn of the loop keeps the invariant. -/
theorem loopInv_step {last : Int} {es : List LoopEvent} {s s' : Node × List Block}
    (h : LoopInv g last es s) (hok : KnowsGenesis g s e)
    (hstep : logged (loopStep P S L) (closedBlocks P S) s e = some s') :
    LoopInv g last (es ++ [e]) s' := by
  rcases s with ⟨n, blocks⟩
  rcases Option.map_eq_some_iff.mp hstep with ⟨n', hn', rfl⟩
  cases e with
  | turn now env =>
      rcases turn_cases hn' with ⟨n₁, hvoting, hcase⟩
      rcases hcase with ⟨hsecond, hlast, master, hmaster, hnext⟩ | ⟨hwait, hlast, hnext⟩
      · rcases timeToCloseBlock_eq_some hmaster with ⟨block, m₁, hassemble, rfl⟩
        -- a second has gone by, and the turn closes a block
        have hclosed : closedBlocks P S n (.turn now env) n' = [block] := by
          simp [closedBlocks, hsecond, hvoting, hassemble]
        rw [hclosed]
        exact h.closes hok hsecond hlast (voting_keeps hvoting).1 hassemble
          (hnext.trans publishBlock_same.nextBlockNumber)
      -- the turn waits
      · have hclosed : closedBlocks P S n (.turn now env) n' = [] := by
          simp only [closedBlocks, if_neg hwait]
        rw [hclosed]
        exact h.kept (by rw [tick, if_neg hwait]) hlast hnext
  | vote signature publicKey =>
      rcases other_keeps hn' (by simp) with ⟨hnext, hlast⟩
      exact h.kept rfl hlast hnext
  | message e =>
      rcases other_keeps hn' (by simp) with ⟨hnext, hlast⟩
      exact h.kept rfl hlast hnext

theorem loopInv_run {n₀ : Node} (hstart : n₀.master.nextBlockNumber = 0) {es : List LoopEvent}
    {s : Node × List Block}
    (h : Trace (logged (loopStep P S L) (closedBlocks P S)) (KnowsGenesis g) (n₀, []) es s) :
    LoopInv g n₀.lastRoundTimestamp es s := by
  refine h.invariant (fun es s => LoopInv g n₀.lastRoundTimestamp es s) ?_ ?_
  · exact ⟨rfl, trivial, hstart, by simp⟩
  · intro es s e s' hinv hok hstep
    exact loopInv_step hinv hok hstep

theorem LoopInv.countsSeconds_iff {last : Int} {es : List LoopEvent} {s : Node × List Block}
    (h : LoopInv g last es s) (hg : 0 ≤ g) (hg' : g < 2 ^ 63) :
    (∀ b ∈ s.2, CountsSeconds g b) ↔ SecondBySecond g (closingTimes last es) := by
  have htimes : closingTimes last es = s.2.map (·.time) := by
    rw [closingTimes, h.times]
  rw [htimes]
  exact countsSeconds_iff_of_numbered hg hg' h.fits h.numbered

/-- In every run of a node that has not numbered a block yet: each block has the
number of seconds since the genesis, if and only if the readings of the clock let
it close its first block not before the genesis and then one in every second. Then
it gives the same numbers as every other such node to the blocks that both close
at one time. -/
theorem block_numbers_iff (hg : 0 ≤ g) (hg' : g < 2 ^ 63) {n₀ : Node}
    (hstart : n₀.master.nextBlockNumber = 0) {es : List LoopEvent} {blocks : List Block}
    (h : Trace (logged (loopStep P S L) (closedBlocks P S)) (KnowsGenesis g) (n₀, []) es
      (n, blocks)) :
    ((∀ b ∈ blocks, (b.number : Int) = b.time - g) ↔
      SecondBySecond g (closingTimes n₀.lastRoundTimestamp es)) ∧
    (SecondBySecond g (closingTimes n₀.lastRoundTimestamp es) →
      ∀ (P' : Platform) (S' : KeySort Voter.number) (L' : NodeLibrary) (n₁ n' : Node)
        (es' : List LoopEvent) (blocks' : List Block), n₁.master.nextBlockNumber = 0 →
        Trace (logged (loopStep P' S' L') (closedBlocks P' S')) (KnowsGenesis g) (n₁, []) es'
          (n', blocks') →
        SecondBySecond g (closingTimes n₁.lastRoundTimestamp es') →
        ∀ b ∈ blocks, ∀ b' ∈ blocks', b.time = b'.time → b.number = b'.number) := by
  have hiff := (loopInv_run hstart h).countsSeconds_iff hg hg'
  refine ⟨hiff, ?_⟩
  intro hseconds P' S' L' n₁ n' es' blocks' hstart' h' hseconds' b hb b' hb' htime
  have hnumber : (b.number : Int) = b.time - g := hiff.mpr hseconds b hb
  have hnumber' : (b'.number : Int) = b'.time - g :=
    ((loopInv_run hstart' h').countsSeconds_iff hg hg').mpr hseconds' b' hb'
  omega

end

/-! ## A second that is skipped -/

instance {g : Int} {s : Node × List Block} {e : LoopEvent} : Decidable (KnowsGenesis g s e) :=
  match e with
  | .turn _ env => inferInstanceAs (Decidable
      (env.dhtGet "genesisStamp" = toString g ∧ env.now < 2 ^ 63))
  | .vote _ _ | .message _ => instDecidableTrue

instance {g : Int} {times : List Int} : Decidable (SecondBySecond g times) :=
  inferInstanceAs (Decidable ((∀ t ∈ times.head?, g ≤ t) ∧ _))

namespace Sample

/-- A node that has not numbered a block yet. -/
def newNode : Node := { closingNode [] with
  master := { master with nextBlockNumber := 0 }, inVotingPhase := false }

/-- A turn at the time `now` in a network whose genesis was at 100. -/
def turnAt (now : Int) : LoopEvent :=
  .turn now { env with
    now
    dhtGet := fun key => if key = "genesisStamp" then "100" else "" }

end Sample

/-- A node that closes a block in every second. -/
theorem block_numbers_iff_steady :
    ∃ n blocks, Trace (logged (loopStep (Sample.platform []) Sample.voteSort Sample.votingLibrary)
          (closedBlocks (Sample.platform []) Sample.voteSort)) (KnowsGenesis 100)
        (Sample.newNode, []) [Sample.turnAt 103, Sample.turnAt 103, Sample.turnAt 104]
        (n, blocks) ∧
      blocks.map (·.number) = [3, 4] ∧ ∀ b ∈ blocks, (b.number : Int) = b.time - 100 := by
  obtain ⟨⟨n, blocks⟩, htrace, hcheck⟩ :
      ∃ s, Trace (logged (loopStep (Sample.platform []) Sample.voteSort Sample.votingLibrary)
            (closedBlocks (Sample.platform []) Sample.voteSort)) (KnowsGenesis 100)
          (Sample.newNode, []) [Sample.turnAt 103, Sample.turnAt 103, Sample.turnAt 104] s ∧
        decide (s.2.map (·.number) = [3, 4]) = true :=
    exists_trace_of_exec _ (by decide +kernel)
  refine ⟨n, blocks, htrace, of_decide_eq_true hcheck, ?_⟩
  exact (block_numbers_iff (by decide) (by decide) rfl htrace).1.mpr (by decide)

/-- After a second in which the loop is held up, the numbers are one behind. -/
theorem number_behind :
    ∃ n blocks, Trace (logged (loopStep (Sample.platform []) Sample.voteSort Sample.votingLibrary)
          (closedBlocks (Sample.platform []) Sample.voteSort)) (KnowsGenesis 100)
        (Sample.newNode, []) [Sample.turnAt 103, Sample.turnAt 105] (n, blocks) ∧
      blocks.map (fun b => (b.time, b.number)) = [(103, 3), (105, 4)] := by
  obtain ⟨⟨n, blocks⟩, htrace, hcheck⟩ :
      ∃ s, Trace (logged (loopStep (Sample.platform []) Sample.voteSort Sample.votingLibrary)
            (closedBlocks (Sample.platform []) Sample.voteSort)) (KnowsGenesis 100)
          (Sample.newNode, []) [Sample.turnAt 103, Sample.turnAt 105] s ∧
        decide (s.2.map (fun b => (b.time, b.number)) = [(103, 3), (105, 4)]) = true :=
    exists_trace_of_exec _ (by decide +kernel)
  exact ⟨n, blocks, htrace, of_decide_eq_true hcheck⟩

end DecentralizedCloud
