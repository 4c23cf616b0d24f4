import DecentralizedCloud.Master.Flags

/-!
# One answer for the client

The client of a transaction is answered on two paths: `checkVerification` sends
the result and lets the compute node commit, the exception handler sends the
exception and drops the transaction. The first path sets `sentToClient` and
looks at it, the second one does not. A verified transaction stays in the map
for a minute, so a late exception answers the client again, after the commit.
And the handler prints the transaction for the other masters after it has told
the client: when the print raises, the transaction stays as if nobody had been
told.

When no exception meets an answered transaction, and none tells the client of a
transaction that cannot be printed (`ExceptionsInTime`), the client gets at most
one final response, and a commit excludes an exception (`one_final_response`).
-/

namespace DecentralizedCloud

open Machine Master

variable {P : Platform}

/-- The exception handler told a client about an exception. -/
def Effect.IsException : Effect → Prop
  | .send _ (.exception _ _) => True
  | _ => False

/-- At most one final response, and no exception response beside a commit. -/
structure Exclusive (v : View) : Prop where
  once : v.responses.length ≤ 1
  exclusive : v.commits = [] ∨ ∀ e ∈ v.responses, ¬ e.IsException

/-- A step under which the two paths do not meet: an exception does not find the
transaction answered, and when its client is told, the transaction can be printed.
The id of a new transaction is one the master does not know. -/
def ExceptionsInTime (P : Platform) (id : String) (m : Master) (e : Event) : Prop :=
  match e.msg with
  | .exception txId exp => txId = id → ∀ tx ∈ (m.view id).held, tx.sentToClient = false ∧
      (tx.computeNode = true → e.env.deliver tx.publicKey (.exception id exp) = .sent →
        (excepted tx exp).toJson.prints = true)
  | .exeFunction p => e.env.guid = id → Accepted P m p → Unknown id m
  | _ => True

/-- A client that has not been answered has nothing behind it. -/
structure AnswerInv (v : View) : Prop where
  exclusive : Exclusive v
  pending : ∀ tx ∈ v.held, tx.computeNode = true → tx.sentToClient = false →
    v.responses = [] ∧ v.commits = []

/-- The check answers a client whose transaction is pending, and nobody else. -/
theorem answerInv_check {env : Env} {node : String} {tx : Transaction} {v : View}
    (hexclusive : Exclusive v)
    (hpending : tx.computeNode = true → tx.sentToClient = false →
      v.responses = [] ∧ v.commits = []) :
    AnswerInv (v.check env node tx) := by
  cases hanswers : answers env tx with
  | true =>
      -- the one answer, and the commit that goes with it
      rcases answers_iff.mp hanswers with ⟨-, hsent, hcompute, -⟩
      rcases hpending hcompute hsent with ⟨hresponses, hcommits⟩
      refine ⟨⟨?_, .inr ?_⟩, ?_⟩
      · simp only [View.check, hresponses]
        split <;> simp
      · intro e he
        simp only [View.check, hresponses] at he
        split at he
        · simp only [List.nil_append, List.mem_singleton] at he
          rw [he]
          exact fun h => h
        · cases he
      · intro t ht _ hsent'
        cases ht
        rw [checked_sentToClient, hanswers, Bool.or_true] at hsent'
        cases hsent'
  | false =>
      obtain ⟨hresponses, hcommits, hkept⟩ : (v.check env node tx).responses = v.responses ∧
          (v.check env node tx).commits = v.commits ∧
            (checked env tx).sentToClient = tx.sentToClient := check_unanswered hanswers
      refine ⟨⟨?_, ?_⟩, ?_⟩
      · rw [hresponses]
        exact hexclusive.once
      · rw [hresponses, hcommits]
        exact hexclusive.exclusive
      · intro t ht hcompute hsent
        cases ht
        rw [checked_computeNode] at hcompute
        rw [hkept] at hsent
        rw [hresponses, hcommits]
        exact hpending hcompute hsent

/-- Every step keeps the invariant, if exceptions come in time. -/
theorem answerInv_step {id : String} (m : Master) (e : Event) (m' : Master)
    (hinv : AnswerInv (m.view id)) (hok : ExceptionsInTime P id m e)
    (hstep : handle P m e = some m') : AnswerInv (m'.view id) := by
  have hv := flagStep hstep id
  unfold ExceptionsInTime at hok
  generalize m'.view id = v at hv
  have hexclusive := hinv.exclusive
  cases hv with
  | checked tx node hhanded =>
      apply answerInv_check hexclusive
      have hflags := hhanded.sameFlags
      rw [hflags.computeNode, hflags.sentToClient]
      cases hheld : (m.view id).held with
      | none => simp
      | some t => exact hinv.pending t hheld
  | replaced held hheld =>
      refine ⟨⟨hexclusive.once, hexclusive.exclusive⟩, ?_⟩
      intro t ht
      rcases hheld t ht with ⟨tx, htx, hflags⟩
      rw [hflags.computeNode, hflags.sentToClient]
      exact hinv.pending tx htx
  | drawn p cid hmsg hguid haccepted =>
      -- the drawn id is new, so nothing is behind it
      rw [hmsg] at hok
      rcases unknown_iff.mp (hok hguid haccepted) with ⟨-, -, hresponses, hcommits⟩
      refine ⟨⟨?_, .inl hcommits⟩, fun _ _ _ _ => ⟨hresponses, hcommits⟩⟩
      simp [hresponses]
  | unprinted exp tx hmsg hheld hprints =>
      rw [hmsg] at hok
      -- nobody was told, since the transaction would have been printed then
      have hsilent : (m.view id).told e.env id exp tx = (m.view id).responses := by
        apply if_neg
        rintro ⟨hcompute, hsent⟩
        have hprinted := (hok rfl tx hheld).2 hcompute hsent
        rw [hprints] at hprinted
        cases hprinted
      rw [hsilent]
      refine ⟨⟨hexclusive.once, hexclusive.exclusive⟩, ?_⟩
      intro t ht
      cases ht
      exact hinv.pending tx hheld
  | failed exp tx hmsg hheld =>
      rw [hmsg] at hok
      have hunanswered : tx.sentToClient = false := (hok rfl tx hheld).1
      refine ⟨?_, by simp⟩
      unfold View.told
      -- only the compute node's client is told
      by_cases hcompute : tx.computeNode = true
      · rcases hinv.pending tx hheld hcompute hunanswered with ⟨hresponses, hcommits⟩
        refine ⟨?_, .inl hcommits⟩
        dsimp only
        split <;> simp [hresponses]
      · simpa [hcompute] using ⟨hexclusive.once, hexclusive.exclusive⟩
  | forwarded | closed => exact ⟨⟨hexclusive.once, hexclusive.exclusive⟩, hinv.pending⟩

/-- In every run in which no exception finds the transaction answered, or tells its
client and cannot print it, the client gets at most one final response, and a
commit excludes an exception. -/
theorem one_final_response {id : String} {m₀ m : Master} {es : List Event}
    (hinit : Unknown id m₀) (h : Trace (handle P) (ExceptionsInTime P id) m₀ es m) :
    (m.view id).responses.length ≤ 1 ∧
      ((m.view id).commits = [] ∨ ∀ e ∈ (m.view id).responses, ¬ e.IsException) := by
  have hinit' : AnswerInv (m₀.view id) := by
    rw [hinit]
    exact ⟨⟨by simp, .inl rfl⟩, by simp⟩
  have hinv : AnswerInv (m.view id) :=
    h.invariant (fun _ m => AnswerInv (m.view id)) hinit' fun _ => answerInv_step
  exact ⟨hinv.exclusive.once, hinv.exclusive.exclusive⟩

instance {id : String} {m : Master} {e : Event} : Decidable (ExceptionsInTime P id m e) :=
  match e with
  | ⟨env, .exception txId exp⟩ => inferInstanceAs (Decidable
      (txId = id → ∀ tx ∈ (m.view id).held, tx.sentToClient = false ∧
        (tx.computeNode = true → env.deliver tx.publicKey (.exception id exp) = .sent →
          (excepted tx exp).toJson.prints = true)))
  | ⟨env, .exeFunction p⟩ => inferInstanceAs (Decidable
      (env.guid = id → Accepted P m p → Unknown id m))
  | ⟨_, .verificationResult _ _ _⟩ | ⟨_, .txNotification _⟩ | ⟨_, .forwardedException _⟩
  | ⟨_, .cleanup⟩ | ⟨_, .closeBlock⟩ => instDecidableTrue

/-- The client's request, the results that verify it, and what comes then. -/
def answeredRun (late : List Event) : List Event :=
  ⟨Sample.env, .exeFunction Sample.packet⟩ :: Sample.results 14 "a" "out" ++ late

theorem one_final_response_result :
    ∃ m, Trace (handle (Sample.platform [])) (ExceptionsInTime (Sample.platform []) "tx1")
        Sample.master (answeredRun [⟨Sample.env, .cleanup⟩]) m ∧
      (m.view "tx1").commits.length = 1 ∧
      (m.view "tx1").responses.length ≤ 1 ∧
      ((m.view "tx1").commits = [] ∨ ∀ e ∈ (m.view "tx1").responses, ¬ e.IsException) := by
  have hunknown : Unknown "tx1" Sample.master := rfl
  obtain ⟨m, htrace, hcheck⟩ :
      ∃ m, Trace (handle (Sample.platform [])) (ExceptionsInTime (Sample.platform []) "tx1")
          Sample.master (answeredRun [⟨Sample.env, .cleanup⟩]) m ∧
        decide ((m.view "tx1").commits.length = 1) = true :=
    exists_trace_of_exec _ (by decide +kernel)
  exact ⟨m, htrace, of_decide_eq_true hcheck, one_final_response hunknown htrace⟩

/-- A late exception: the client has its result and the compute node its
`canCommit`, and the client is answered again. -/
theorem answered_twice :
    ∃ m, Run (handle (Sample.platform [])) Sample.master
        (answeredRun [⟨Sample.env, .exception "tx1" "late"⟩]) m ∧
      decide ((m.view "tx1").responses.length = 2 ∧ (m.view "tx1").commits.length = 1) = true :=
  exists_trace_of_exec _ (by decide +kernel)

end DecentralizedCloud
