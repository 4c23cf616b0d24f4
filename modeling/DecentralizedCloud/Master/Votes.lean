import DecentralizedCloud.Master.Machine

/-!
# Votes behind a verified transaction

`totalVerified` counts results. It stands for votes of one hash as long as the
hash it counts for, `lastValidHash`, does not change under it. Two events break
this link: a notification overwrites the hash of a transaction that has votes
already, and the first non-empty hash is pinned on top of votes that carried
no hash. `KeepsHash` excludes exactly these; then every verified transaction
has 14 results of one hash behind it (`verified_hash_agrees`).
-/

namespace DecentralizedCloud

open Machine Master

variable {P : Platform}

/-- A step that leaves the counted hash alone: a notification carries the hash
that a transaction with votes holds, and a result with a hash does not meet
votes without one. -/
def KeepsHash (P : Platform) (m : Master) (e : Event) : Prop :=
  match e.msg with
  | .txNotification data =>
      ∀ j ∈ P.parse data, ∀ id ∈ j.stringAt "txid", ∀ hash ∈ j.stringAt "h",
        ∀ tx ∈ (m.view id).held, 0 < tx.totalVerified → hash = tx.lastValidHash
  | .verificationResult id hash _ =>
      ∀ tx ∈ (m.view id).held, 0 < tx.totalVerified → hash ≠ "" → tx.lastValidHash ≠ ""
  | _ => True

instance (m : Master) (e : Event) : Decidable (KeepsHash P m e) :=
  match e with
  | ⟨_, .txNotification data⟩ => inferInstanceAs (Decidable
      (∀ j ∈ P.parse data, ∀ id ∈ j.stringAt "txid", ∀ hash ∈ j.stringAt "h",
        ∀ tx ∈ (m.view id).held, 0 < tx.totalVerified → hash = tx.lastValidHash))
  | ⟨_, .verificationResult id hash _⟩ => inferInstanceAs (Decidable
      (∀ tx ∈ (m.view id).held, 0 < tx.totalVerified → hash ≠ "" → tx.lastValidHash ≠ ""))
  | ⟨_, .exeFunction _⟩ | ⟨_, .exception _ _⟩ | ⟨_, .forwardedException _⟩ | ⟨_, .cleanup⟩
  | ⟨_, .closeBlock⟩ => instDecidableTrue

/-- Every counted vote is a processed result with the held hash. -/
def VotesCounted (es : List Event) (m : Master) : Prop :=
  ∀ id tx, (m.view id).held = some tx →
    tx.totalVerified ≤ es.countP (Event.isResult id tx.lastValidHash)

/-- One more event only adds results. -/
theorem le_countP_snoc {n : Nat} {p : Event → Bool} {es : List Event} {e : Event}
    (h : n ≤ es.countP p) : n ≤ (es ++ [e]).countP p := by
  rw [List.countP_append]
  omega

/-- Counting a result: the new total is covered by the results so far and this one. -/
theorem counted_votes {es : List Event} {e : Event} {id hash output : String} {tx : Transaction}
    (hmsg : e.msg = .verificationResult id hash output)
    (hvotes : tx.totalVerified ≤ es.countP (Event.isResult id tx.lastValidHash))
    (hkeeps : 0 < tx.totalVerified → hash ≠ "" → tx.lastValidHash ≠ "") :
    (counted tx hash output).totalVerified ≤
      (es ++ [e]).countP (Event.isResult id (counted tx hash output).lastValidHash) := by
  have hown : [e].countP (Event.isResult id hash) = 1 := by
    simp [Event.isResult, hmsg]
  rw [counted_eq]
  dsimp only
  rw [List.countP_append]
  by_cases hpinned : tx.lastValidHash = ""
  · -- the hash of this result gets pinned, over votes without a hash if any
    rw [if_pos hpinned, if_pos (.inl hpinned), hown]
    by_cases hhash : hash = ""
    · rw [hhash, ← hpinned]
      omega
    · have hzero : tx.totalVerified = 0 := by
        by_contra hne
        exact hkeeps (by omega) hhash hpinned
      omega
  · rw [if_neg hpinned]
    by_cases hsame : hash = tx.lastValidHash
    · rw [if_pos (.inr hsame), ← hsame, hown, hsame]
      omega
    · rw [if_neg (by tauto)]
      omega

/-- Filling a transaction in from JSON keeps its votes when it keeps their hash. -/
theorem filled_votes {es : List Event} {id : String} {j : Json} {tx tx' : Transaction}
    (hfilled : Transaction.FilledFrom j tx tx')
    (hvotes : tx.totalVerified ≤ es.countP (Event.isResult id tx.lastValidHash))
    (hkeeps : ∀ hash, j.stringAt "h" = some hash → 0 < tx.totalVerified →
      hash = tx.lastValidHash) :
    tx'.totalVerified ≤ es.countP (Event.isResult id tx'.lastValidHash) := by
  rw [hfilled.totalVerified]
  rcases hfilled.lastValidHash with hsame | hread
  · rw [hsame]
    exact hvotes
  · by_cases hpos : 0 < tx.totalVerified
    · rw [hkeeps _ hread hpos]
      exact hvotes
    · omega

theorem votesCounted_init {m : Master} (h : ∀ id, (m.view id).held = none) :
    VotesCounted [] m := by
  intro id tx hheld
  rw [h id] at hheld
  cases hheld

/-- Every step counts the results that arrive, and no others. -/
theorem votesCounted_step (es : List Event) (m : Master) (e : Event) (m' : Master)
    (hinv : VotesCounted es m) (hkeeps : KeepsHash P m e) (hstep : handle P m e = some m') :
    VotesCounted (es ++ [e]) m' := by
  intro id tx' hheld'
  have hv := viewStep hstep id
  generalize m'.view id = v at hv hheld'
  cases hv with
  | same => exact le_countP_snoc (hinv id tx' hheld')
  | counted hash output hmsg =>
      cases hheld'
      rw [checked_totalVerified, checked_lastValidHash]
      unfold KeepsHash at hkeeps
      rw [hmsg] at hkeeps
      apply counted_votes hmsg
      · cases hheld : (m.view id).held with
        | none => simp [Transaction.ofResult]
        | some tx => exact hinv id tx hheld
      · intro hpos hhash
        cases hheld : (m.view id).held with
        | none => simp [hheld, Transaction.ofResult] at hpos
        | some tx =>
            rw [hheld] at hpos
            exact hkeeps tx hheld hpos hhash
  | notified data j cid node hmsg hj hid hnode =>
      cases hheld'
      rw [checked_totalVerified, checked_lastValidHash]
      unfold KeepsHash at hkeeps
      rw [hmsg] at hkeeps
      apply le_countP_snoc
      apply filled_votes (Transaction.filledFrom_fromJson j ((m.view id).held.getD {}))
      · cases hheld : (m.view id).held with
        | none => simp
        | some tx => exact hinv id tx hheld
      · intro hash hread hpos
        cases hheld : (m.view id).held with
        | none => simp [hheld] at hpos
        | some tx =>
            rw [hheld] at hpos
            exact hkeeps j hj id hid hash hread tx hheld hpos
  | partially data j hmsg hj hid hincomplete =>
      -- the hash may have been assigned before the read that raised
      rcases Option.map_eq_some_iff.mp hheld' with ⟨tx, hheld, rfl⟩
      unfold KeepsHash at hkeeps
      rw [hmsg] at hkeeps
      apply le_countP_snoc
      exact filled_votes (Transaction.filledFrom_fromJson j tx) (hinv id tx hheld)
        fun hash hread hpos => hkeeps j hj id hid hash hread tx hheld hpos
  | drawn p cid hmsg hguid =>
      cases hheld'
      cases hheld : (m.view id).held with
      | none => simp [CodePacket.transaction, Transaction.ofOrigin]
      | some tx => exact le_countP_snoc (hinv id tx hheld)
  | untold exp tx hmsg hheld | unprinted exp tx hmsg hheld =>
      cases hheld'
      exact le_countP_snoc (hinv id tx hheld)
  | failed => cases hheld'
  | forwarded => exact le_countP_snoc (hinv id tx' hheld')
  | cleaned =>
      have hheld := (Option.filter_eq_some_iff.mp hheld').1
      exact le_countP_snoc (hinv id tx' hheld)
  | closed => exact le_countP_snoc (hinv id tx' hheld')

/-- In every run whose steps keep the counted hash, the results behind a
verified transaction include 14 of one and the same hash. -/
theorem verified_hash_agrees {m₀ m : Master} {es : List Event} {id : String} {tx : Transaction}
    (hinit : ∀ id, (m₀.view id).held = none) (h : Trace (handle P) (KeepsHash P) m₀ es m)
    (hheld : m.transactions.find id = some tx) (hverified : tx.isVerified = true) :
    ∃ hash, 14 ≤ es.countP (Event.isResult id hash) := by
  have hinv : VotesCounted es m :=
    h.invariant VotesCounted (votesCounted_init hinit) votesCounted_step
  have htotal := ((Transaction.isVerified_iff tx).mp hverified).1
  exact ⟨tx.lastValidHash, htotal.trans (hinv id tx hheld)⟩

/-- The notification, and 14 results of one hash. -/
def honestVotes : List Event :=
  ⟨Sample.env, .txNotification (Sample.jsonText Sample.tx)⟩ :: Sample.results 14 "a" "out"

theorem verified_hash_agrees_honest :
    ∃ hash, 14 ≤ honestVotes.countP (Event.isResult "tx1" hash) := by
  obtain ⟨m, htrace, hcheck⟩ :
      ∃ m, Trace (handle (Sample.platform [Sample.tx])) (KeepsHash (Sample.platform [Sample.tx]))
          Sample.master honestVotes m ∧
        (m.transactions.find "tx1").any (·.isVerified) = true :=
    exists_trace_of_exec _ (by decide +kernel)
  rcases (Option.any_eq_true _ _).mp hcheck with ⟨tx, hheld, hverified⟩
  exact verified_hash_agrees (fun _ => rfl) htrace hheld hverified

/-- Ten votes, a notification that resets the hash, and four votes for another hash. -/
def mixedVotes : List Event :=
  Sample.results 10 "a" "out" ++ [⟨Sample.env, .txNotification (Sample.jsonText Sample.tx)⟩] ++
    Sample.results 4 "b" "out"

/-- The mixed votes verify the transaction, with fewer than 14 for any hash. -/
theorem verified_by_mixed_votes :
    (∃ m, Run (handle (Sample.platform [Sample.tx])) Sample.master mixedVotes m ∧
      (m.transactions.find "tx1").any (·.isVerified) = true) ∧
    ∀ hash, mixedVotes.countP (Event.isResult "tx1" hash) < 14 := by
  constructor
  · exact exists_trace_of_exec _ (by decide +kernel)
  · intro hash
    have hresults : ∀ n h, (Sample.results n h "out").countP (Event.isResult "tx1" hash) =
        if h = hash then n else 0 := by
      intro n h
      simp [Sample.results, List.countP_replicate, Event.isResult]
    have hnotice : [(⟨Sample.env, .txNotification (Sample.jsonText Sample.tx)⟩ : Event)].countP
        (Event.isResult "tx1" hash) = 0 := by simp [Event.isResult]
    unfold mixedVotes
    rw [List.countP_append, List.countP_append, hresults, hresults, hnotice]
    by_cases ha : "a" = hash
    · subst ha
      decide
    · rw [if_neg ha]
      split <;> decide

end DecentralizedCloud
