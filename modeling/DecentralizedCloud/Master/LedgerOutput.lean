import DecentralizedCloud.Master.Machine

/-!
# The output in the ledger

A transaction enters `queueOut` when it is verified, which needs an output. The
flag that one was received and the output itself are apart: a result sets both,
but `fromJson` overwrites the output and keeps the flag. A notification that
comes after the output replaces it by its own, which is empty on the
originating master. `KeepsOutput` excludes this; then every queued copy carries
the output of the results (`queued_output`).
-/

namespace DecentralizedCloud

open Machine Master

variable {P : Platform}

/-- A step that leaves a received output alone: every result for `id` carries
`o` or nothing, no exception is processed for `id`, and a notification of `id`
carries the output that was received, if there is one. -/
def KeepsOutput (P : Platform) (id o : String) (m : Master) (e : Event) : Prop :=
  match e.msg with
  | .verificationResult txId _ output => txId = id → output = "" ∨ output = o
  | .txNotification data =>
      ∀ j ∈ P.parse data, j.stringAt "txid" = some id → ∀ tx ∈ (m.view id).held,
        tx.receivedOutput = true → ∀ output ∈ j.stringAt "o", output = tx.output
  | .exception txId _ => txId ≠ id
  | .forwardedException txstr => idInJson P txstr ≠ some id
  | _ => True

instance (id o : String) (m : Master) (e : Event) : Decidable (KeepsOutput P id o m e) :=
  match e with
  | ⟨_, .verificationResult txId _ output⟩ =>
      inferInstanceAs (Decidable (txId = id → output = "" ∨ output = o))
  | ⟨_, .txNotification data⟩ => inferInstanceAs (Decidable
      (∀ j ∈ P.parse data, j.stringAt "txid" = some id → ∀ tx ∈ (m.view id).held,
        tx.receivedOutput = true → ∀ output ∈ j.stringAt "o", output = tx.output))
  | ⟨_, .exception txId _⟩ => inferInstanceAs (Decidable (txId ≠ id))
  | ⟨_, .forwardedException txstr⟩ => inferInstanceAs (Decidable (idInJson P txstr ≠ some id))
  | ⟨_, .exeFunction _⟩ | ⟨_, .cleanup⟩ | ⟨_, .closeBlock⟩ => instDecidableTrue

/-- A received output is `o`, and so is the output of every queued copy. -/
structure OutputKept (o : String) (v : View) : Prop where
  held : ∀ tx ∈ v.held, tx.receivedOutput = true → tx.output = o
  queued : ∀ tx ∈ v.queued, tx.output = o

/-- A check holds and queues the transaction with its output. -/
theorem outputKept_check {env : Env} {node o : String} {tx : Transaction} {v : View}
    (hqueued : ∀ tx ∈ v.queued, tx.output = o) (htx : tx.receivedOutput = true → tx.output = o) :
    OutputKept o (v.check env node tx) where
  held := by
    intro t ht hreceived
    cases ht
    rw [checked_receivedOutput] at hreceived
    rw [checked_output]
    exact htx hreceived
  queued := by
    intro t ht
    simp only [View.check] at ht
    split at ht
    case isFalse => exact hqueued t ht
    case isTrue hq =>
        rcases List.mem_append.mp ht with ht | ht
        · exact hqueued t ht
        · -- what is queued is verified, so its output was received
          have hverified : tx.isVerified = true := by
            simp only [queues, Bool.and_eq_true] at hq
            exact hq.1.1
          have hsame : (answered env tx).output = tx.output := by
            unfold answered
            split <;> rfl
          rw [List.mem_singleton.mp ht, hsame]
          exact htx ((Transaction.isVerified_iff tx).mp hverified).2.2

/-- Counting a result that carries `o` or nothing. -/
theorem counted_output {tx : Transaction} {hash output o : String}
    (htx : tx.receivedOutput = true → tx.output = o) (houtput : output = "" ∨ output = o) :
    (counted tx hash output).receivedOutput = true → (counted tx hash output).output = o := by
  intro hreceived
  rw [counted_eq] at hreceived ⊢
  by_cases hempty : output = ""
  · simpa [hempty] using htx (by simpa [hempty] using hreceived)
  · simpa [hempty] using houtput.resolve_left hempty

/-- Filling a transaction in that has no output yet, or from JSON that carries it. -/
theorem filled_output {j : Json} {tx tx' : Transaction} {o : String}
    (hfilled : Transaction.FilledFrom j tx tx') (htx : tx.receivedOutput = true → tx.output = o)
    (hkeeps : tx.receivedOutput = true → ∀ output ∈ j.stringAt "o", output = tx.output) :
    tx'.receivedOutput = true → tx'.output = o := by
  intro hreceived
  rw [hfilled.receivedOutput] at hreceived
  rcases hfilled.output with hsame | hread
  · -- the output was not assigned
    rw [hsame]
    exact htx hreceived
  · rw [hkeeps hreceived _ hread]
    exact htx hreceived

/-- No step changes an output that has been fixed. -/
theorem outputKept_step {id o : String} (m : Master) (e : Event) (m' : Master)
    (hinv : OutputKept o (m.view id)) (hkeeps : KeepsOutput P id o m e)
    (hstep : handle P m e = some m') : OutputKept o (m'.view id) := by
  have hv := viewStep hstep id
  unfold KeepsOutput at hkeeps
  generalize m'.view id = v at hv
  cases hv with
  | same => exact hinv
  -- a result carries `o` or nothing
  | counted hash output hmsg =>
      rw [hmsg] at hkeeps
      apply outputKept_check hinv.queued
      apply counted_output _ (hkeeps rfl)
      cases hheld : (m.view id).held with
      | none => simp [Transaction.ofResult]
      | some tx => exact hinv.held tx hheld
  -- a notification brings no other output
  | notified data j cid node hmsg hj hid =>
      rw [hmsg] at hkeeps
      apply outputKept_check hinv.queued
      apply filled_output (Transaction.filledFrom_fromJson j _)
      · cases hheld : (m.view id).held with
        | none => simp
        | some tx => exact hinv.held tx hheld
      · cases hheld : (m.view id).held with
        | none => simp
        | some tx => exact hkeeps j hj hid tx hheld
  | partially data j hmsg hj hid =>
      rw [hmsg] at hkeeps
      refine ⟨?_, hinv.queued⟩
      intro t ht
      rcases Option.map_eq_some_iff.mp ht with ⟨tx, hheld, rfl⟩
      exact filled_output (Transaction.filledFrom_fromJson j tx) (hinv.held tx hheld)
        (hkeeps j hj hid tx hheld)
  -- a new transaction has received nothing yet
  | drawn p cid =>
      refine ⟨?_, hinv.queued⟩
      intro t ht hreceived
      cases ht
      cases hheld : (m.view id).held with
      | none => simp [hheld, CodePacket.transaction, Transaction.ofOrigin] at hreceived
      | some tx =>
          rw [hheld] at hreceived
          exact hinv.held tx hheld hreceived
  -- `KeepsOutput` allows no exceptions, nor those of other masters
  | untold exp tx hmsg | unprinted exp tx hmsg | failed exp tx hmsg =>
      rw [hmsg] at hkeeps
      exact absurd rfl hkeeps
  | forwarded txstr queued hmsg hid =>
      rw [hmsg] at hkeeps
      exact absurd hid hkeeps
  | cleaned =>
      refine ⟨?_, hinv.queued⟩
      intro t ht
      exact hinv.held t (Option.filter_eq_some_iff.mp ht).1
  -- what stays in the queue was there before
  | closed =>
      refine ⟨hinv.held, ?_⟩
      intro t ht
      rcases List.mem_filter.mp ht with ⟨hmem, hid⟩
      exact hinv.queued t (List.mem_filter.mpr ⟨mem_of_mem_notDue hmem, hid⟩)

/-- In every run whose steps keep the received output, every copy of the
transaction in `queueOut` carries it. -/
theorem queued_output {id o : String} {m₀ m : Master} {es : List Event}
    (hinit : Unknown id m₀) (h : Trace (handle P) (KeepsOutput P id o) m₀ es m) :
    ∀ tx ∈ m.queueOut, tx.txId = id → tx.output = o := by
  have hinit' : OutputKept o (m₀.view id) := by
    rw [hinit]
    exact ⟨by simp, by simp⟩
  have hinv : OutputKept o (m.view id) :=
    h.invariant (fun _ m => OutputKept o (m.view id)) hinit' fun _ => outputKept_step
  intro tx hmem hid
  exact hinv.queued tx (List.mem_filter.mpr ⟨hmem, by simpa using hid⟩)

/-- The compute node's result and 13 others, and a notification with the
output the originating master has then. -/
def resultsThenNotice (output : String) : List Event :=
  Sample.results 1 "a" "out" ++ Sample.results 13 "a" "" ++
    [⟨Sample.env, .txNotification (Sample.jsonText { Sample.tx with output })⟩]

def noticePlatform : Platform := Sample.platform [Sample.tx, { Sample.tx with output := "out" }]

theorem queued_output_same :
    ∃ m, Trace (handle noticePlatform) (KeepsOutput noticePlatform "tx1" "out") Sample.master
        (resultsThenNotice "out") m ∧
      m.queueOut.map (·.output) = ["out"] ∧
      ∀ tx ∈ m.queueOut, tx.txId = "tx1" → tx.output = "out" := by
  have hunknown : Unknown "tx1" Sample.master := rfl
  obtain ⟨m, htrace, hcheck⟩ :
      ∃ m, Trace (handle noticePlatform) (KeepsOutput noticePlatform "tx1" "out") Sample.master
          (resultsThenNotice "out") m ∧
        decide (m.queueOut.map (·.output) = ["out"]) = true :=
    exists_trace_of_exec _ (by decide +kernel)
  exact ⟨m, htrace, of_decide_eq_true hcheck, queued_output hunknown htrace⟩

/-- A notification after the output, as the originating master sends it, puts
the transaction into `queueOut` without the output. -/
theorem queued_without_output :
    (∃ m, Run (handle noticePlatform) Sample.master (resultsThenNotice "") m ∧
      decide (m.queueOut.map (fun tx => (tx.txId, tx.output)) = [("tx1", "")]) = true) ∧
    ∀ e ∈ resultsThenNotice "", ∀ txId hash output,
      e.msg = .verificationResult txId hash output → output = "" ∨ output = "out" := by
  refine ⟨exists_trace_of_exec _ (by decide +kernel), ?_⟩
  intro e he txId hash output hmsg
  simp only [resultsThenNotice, Sample.results, List.mem_append, List.mem_replicate,
    List.mem_singleton] at he
  rcases he with (⟨-, rfl⟩ | ⟨-, rfl⟩) | rfl <;> cases hmsg
  · exact .inr rfl
  · exact .inl rfl

end DecentralizedCloud
