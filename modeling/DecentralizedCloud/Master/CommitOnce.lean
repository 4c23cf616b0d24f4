import DecentralizedCloud.Master.Flags

/-!
# State changes are released once

A `canCommit` message makes a compute node release the state changes of a
transaction. `checkVerification` sends it for a transaction that is verified,
whose compute node this master has chosen, and whose client it has not answered
yet.

The history of a run holds the ids of the transactions that `processCodePacket`
created. Only such a transaction is marked as having its compute node here; one
that was erased and comes back with a late result or notification is made by
another constructor and has lost the mark. So the mark, together with the flag
`sentToClient` on it, is enough to keep a second `canCommit` away
(`released_once`).
-/

namespace DecentralizedCloud

open Machine Master

variable {P : Platform} {id : String}

/-- The id of the transaction that an event creates for a client. A draw that
hits the id of a held transaction creates nothing. -/
def created (P : Platform) (m : Master) (e : Event) (_ : Master) : List String :=
  match e.msg with
  | .exeFunction p =>
      if Accepted P m p ∧ (m.view e.env.guid).held = none then [e.env.guid] else []
  | _ => []

/-- A code packet draws an id under which no transaction was created before. -/
def FreshIds (P : Platform) (s : Master × List String) (e : Event) : Prop :=
  match e.msg with
  | .exeFunction p => Accepted P s.1 p → e.env.guid ∉ s.2
  | _ => True

/-- Nothing was released for a transaction whose client waits, and nothing at
all for an id under which no transaction was created. -/
structure CommitInv (id : String) (ids : List String) (v : View) : Prop where
  origin : ∀ tx ∈ v.held, tx.computeNode = true → id ∈ ids
  pending : ∀ tx ∈ v.held, tx.computeNode = true → tx.sentToClient = false → v.commits = []
  once : v.commits.length ≤ 1
  created : v.commits ≠ [] → id ∈ ids

/-- What is left to show when nothing is released. -/
theorem CommitInv.of_held {ids : List String} {v v' : View} (h : CommitInv id ids v)
    (hcommits : v'.commits = v.commits)
    (hheld : ∀ tx' ∈ v'.held, ∃ tx ∈ v.held, SameFlags tx tx') : CommitInv id ids v' := by
  constructor
  · intro tx' htx' hcompute
    rcases hheld tx' htx' with ⟨tx, htx, hflags⟩
    rw [hflags.computeNode] at hcompute
    exact h.origin tx htx hcompute
  · intro tx' htx' hcompute hsent
    rcases hheld tx' htx' with ⟨tx, htx, hflags⟩
    rw [hflags.computeNode] at hcompute
    rw [hflags.sentToClient] at hsent
    rw [hcommits]
    exact h.pending tx htx hcompute hsent
  · rw [hcommits]
    exact h.once
  · rw [hcommits]
    exact h.created

/-- A marked transaction that is handed to the check is the held one. -/
theorem exists_held_of_computeNode {held : Option Transaction} {tx : Transaction}
    (hflags : SameFlags (held.getD {}) tx) (hcompute : tx.computeNode = true) :
    ∃ t ∈ held, SameFlags t tx := by
  cases held with
  | none =>
      rw [hflags.computeNode] at hcompute
      cases hcompute
  | some t => exact ⟨t, rfl, hflags⟩

/-- A check releases a held transaction that is marked and waits, and no other. -/
theorem commitInv_check {ids : List String} {env : Env} {node : String} {tx : Transaction}
    {v : View} (h : CommitInv id ids v) (hflags : SameFlags (v.held.getD {}) tx) :
    CommitInv id ids (v.check env node tx) := by
  cases hanswers : answers env tx with
  | true =>
      -- the client is answered: the transaction waits, so nothing was committed before
      rcases answers_iff.mp hanswers with ⟨-, hsent, hcompute, -⟩
      rcases exists_held_of_computeNode hflags hcompute with ⟨t, ht, hsame⟩
      rw [hsame.computeNode] at hcompute
      rw [hsame.sentToClient] at hsent
      have hcommits : v.commits = [] := h.pending t ht hcompute hsent
      have hid : id ∈ ids := h.origin t ht hcompute
      constructor
      · intro _ _ _
        exact hid
      · intro t' ht' _ hsent'
        -- it is marked as sent now
        cases ht'
        rw [checked_sentToClient, hanswers, Bool.or_true] at hsent'
        cases hsent'
      · simp only [View.check, hcommits]
        split <;> simp
      · intro _
        exact hid
  -- nobody is told, and what is held keeps its flags
  | false =>
      obtain ⟨-, hcommits, hsent⟩ : (v.check env node tx).responses = v.responses ∧
          (v.check env node tx).commits = v.commits ∧
            (checked env tx).sentToClient = tx.sentToClient := check_unanswered hanswers
      constructor
      · intro t' ht' hcompute
        cases ht'
        rw [checked_computeNode] at hcompute
        rcases exists_held_of_computeNode hflags hcompute with ⟨t, ht, hsame⟩
        rw [hsame.computeNode] at hcompute
        exact h.origin t ht hcompute
      · intro t' ht' hcompute hwaits
        cases ht'
        rw [checked_computeNode] at hcompute
        rw [hsent] at hwaits
        rcases exists_held_of_computeNode hflags hcompute with ⟨t, ht, hsame⟩
        rw [hsame.computeNode] at hcompute
        rw [hsame.sentToClient] at hwaits
        rw [hcommits]
        exact h.pending t ht hcompute hwaits
      · rw [hcommits]
        exact h.once
      · rw [hcommits]
        exact h.created

/-- Every step keeps the invariant, as new requests have new ids. -/
theorem commitInv_step (s : Master × List String) (e : Event) (s' : Master × List String)
    (hinv : CommitInv id s.2 (s.1.view id)) (hok : FreshIds P s e)
    (hstep : logged (handle P) (created P) s e = some s') :
    CommitInv id s'.2 (s'.1.view id) := by
  rcases s with ⟨m, ids⟩
  rcases of_logged hstep with ⟨hhandle, hids⟩
  -- the history only grows
  have hgrow : id ∈ ids → id ∈ s'.2 := by
    intro hmem
    rw [hids]
    exact List.mem_append_left _ hmem
  have hgrown : CommitInv id s'.2 (m.view id) :=
    ⟨fun tx htx hc => hgrow (hinv.origin tx htx hc), hinv.pending, hinv.once,
      fun hc => hgrow (hinv.created hc)⟩
  have hv := flagStep hhandle id
  generalize s'.1.view id = v at hv
  cases hv with
  | checked tx node hhanded => exact commitInv_check hgrown hhanded.sameFlags
  | replaced held hheld => exact hgrown.of_held rfl hheld
  | drawn p cid hmsg hguid haccepted =>
      have hnew : id ∉ ids := by
        unfold FreshIds at hok
        rw [hmsg, hguid] at hok
        exact hok haccepted
      have hcommits : (m.view id).commits = [] := by
        by_contra hne
        exact hnew (hinv.created hne)
      refine ⟨?_, fun _ _ _ _ => hcommits, hgrown.once, hgrown.created⟩
      intro t ht hcompute
      cases ht
      cases hheld : (m.view id).held with
      | none =>
          rw [hids, created, hmsg]
          dsimp only
          rw [hguid, if_pos ⟨haccepted, hheld⟩]
          exact List.mem_append_right _ (List.mem_singleton.mpr rfl)
      | some tx =>
          rw [hheld] at hcompute
          exact hgrown.origin tx hheld hcompute
  | unprinted exp tx _ hheld =>
      refine hgrown.of_held rfl ?_
      intro t ht
      cases ht
      exact ⟨tx, hheld, .excepted tx exp⟩
  | failed exp tx => exact hgrown.of_held rfl (by simp)
  | forwarded | closed => exact hgrown.of_held rfl fun t ht => ⟨t, ht, .refl t⟩

/-! ## The whole run -/

theorem commitInv_run {m₀ : Master} {es : List Event} {s : Master × List String}
    (hinit : Unknown id m₀)
    (h : Trace (logged (handle P) (created P)) (FreshIds P) (m₀, []) es s) :
    CommitInv id s.2 (s.1.view id) := by
  refine h.invariant (fun _ s => CommitInv id s.2 (s.1.view id)) ?_ fun _ => commitInv_step
  rw [hinit]
  exact ⟨by simp, by simp, by simp, by simp⟩

/-- A `canCommit` is sent in a step that leaves the transaction verified, for a
transaction that was marked before the step. -/
theorem verified_of_commits {m m' : Master} {e : Event} (h : handle P m e = some m')
    (hcommits : (m'.view id).commits ≠ (m.view id).commits) :
    (∃ tx ∈ (m'.view id).held, tx.isVerified = true) ∧
      ∃ tx ∈ (m.view id).held, tx.computeNode = true := by
  have hv := flagStep h id
  generalize m'.view id = v at hv hcommits
  cases hv with
  | checked tx node hhanded =>
      cases hanswers : answers e.env tx with
      | true =>
          rcases answers_iff.mp hanswers with ⟨hverified, -, hcompute, -⟩
          rcases exists_held_of_computeNode hhanded.sameFlags hcompute with ⟨t, ht, hsame⟩
          refine ⟨⟨checked e.env tx, rfl, ?_⟩, t, ht, by rw [← hsame.computeNode, hcompute]⟩
          rw [Transaction.isVerified_iff] at hverified ⊢
          rw [checked_totalVerified, checked_receivedFullTransaction, checked_receivedOutput]
          exact hverified
      | false => exact absurd (check_unanswered hanswers).2.1 hcommits
  | replaced | drawn | unprinted | failed | forwarded | closed => exact absurd rfl hcommits

/-- An erased transaction never releases its state changes, even when it comes back. -/
theorem commits_of_erased {s s' : Master × List String} {es : List Event}
    (hcreated : id ∈ s.2) (herased : (s.1.view id).held = none)
    (h : Trace (logged (handle P) (created P)) (FreshIds P) s es s') :
    (s'.1.view id).commits = (s.1.view id).commits := by
  -- what comes back is not marked, and the id is not drawn again
  have hinv : id ∈ s'.2 ∧ (∀ tx ∈ (s'.1.view id).held, tx.computeNode = false) ∧
      (s'.1.view id).commits = (s.1.view id).commits := by
    refine h.invariant (fun _ t => id ∈ t.2 ∧ (∀ tx ∈ (t.1.view id).held, tx.computeNode = false) ∧
      (t.1.view id).commits = (s.1.view id).commits) ⟨hcreated, by simp [herased], rfl⟩ ?_
    intro _ t e t' ⟨hmem, hunmarked, hsame⟩ hok hstep
    rcases of_logged hstep with ⟨hhandle, hids⟩
    have hmem' : id ∈ t'.2 := by
      rw [hids]
      exact List.mem_append_left _ hmem
    refine ⟨hmem', ?_, ?_⟩
    · have hv := flagStep hhandle id
      generalize t'.1.view id = v at hv
      intro tx' htx'
      cases hv with
      | checked tx node hhanded =>
          cases htx'
          rw [checked_computeNode, hhanded.sameFlags.computeNode]
          cases hheld : (t.1.view id).held with
          | none => rfl
          | some tx₀ => exact hunmarked tx₀ hheld
      | replaced held hheld =>
          rcases hheld tx' htx' with ⟨tx, htx, hflags⟩
          rw [hflags.computeNode]
          exact hunmarked tx htx
      | drawn p cid hmsg hguid haccepted =>
          unfold FreshIds at hok
          rw [hmsg, hguid] at hok
          exact absurd hmem (hok haccepted)
      | unprinted exp tx _ hheld =>
          cases htx'
          exact hunmarked tx hheld
      | failed => cases htx'
      | forwarded | closed => exact hunmarked tx' htx'
    · rw [← hsame]
      by_contra hne
      rcases verified_of_commits hhandle hne with ⟨-, tx, htx, hcompute⟩
      rw [hunmarked tx htx] at hcompute
      cases hcompute
  exact hinv.2.2

/-- In every run whose code packets draw fresh ids, an id is named in at most one
`canCommit`; it is sent in a step that leaves the transaction verified, only when
this master has created it, and not after it was erased. -/
theorem released_once {m₀ : Master} {es : List Event} {s : Master × List String}
    (hinit : Unknown id m₀)
    (h : Trace (logged (handle P) (created P)) (FreshIds P) (m₀, []) es s) :
    (s.1.view id).commits.length ≤ 1 ∧
      ((s.1.view id).commits ≠ [] → id ∈ s.2) ∧
      (∀ e m', handle P s.1 e = some m' → (m'.view id).commits ≠ (s.1.view id).commits →
        id ∈ s.2 ∧ ∃ tx ∈ (m'.view id).held, tx.isVerified = true) ∧
      (id ∈ s.2 → (s.1.view id).held = none → ∀ es' s',
        Trace (logged (handle P) (created P)) (FreshIds P) s es' s' →
          (s'.1.view id).commits = (s.1.view id).commits) := by
  have hinv : CommitInv id s.2 (s.1.view id) := commitInv_run hinit h
  refine ⟨hinv.once, hinv.created, ?_, ?_⟩
  · intro e m' hhandle hcommits
    rcases verified_of_commits hhandle hcommits with ⟨hverified, tx, htx, hcompute⟩
    exact ⟨hinv.origin tx htx hcompute, hverified⟩
  · intro hcreated herased es' s' h'
    exact commits_of_erased hcreated herased h'

instance {s : Master × List String} {e : Event} : Decidable (FreshIds P s e) :=
  match e with
  | ⟨env, .exeFunction p⟩ => inferInstanceAs (Decidable (Accepted P s.1 p → env.guid ∉ s.2))
  | ⟨_, .verificationResult _ _ _⟩ | ⟨_, .txNotification _⟩ | ⟨_, .exception _ _⟩
  | ⟨_, .forwardedException _⟩ | ⟨_, .cleanup⟩ | ⟨_, .closeBlock⟩ => instDecidableTrue

/-- The client's request, the results that verify it, an exception that erases
it, and the results again. -/
def erasedRun : List Event :=
  ⟨Sample.env, .exeFunction Sample.packet⟩ :: Sample.results 14 "a" "out" ++
    ⟨Sample.env, .exception "tx1" "late"⟩ :: Sample.results 14 "a" "out"

/-- The entry of a request is erased, and its commit stays the only one. -/
theorem released_once_erased :
    ∃ s, Trace (logged (handle (Sample.platform [])) (created (Sample.platform [])))
        (FreshIds (Sample.platform [])) (Sample.master, []) erasedRun s ∧
      (s.1.view "tx1").commits.length = 1 ∧ "tx1" ∈ s.2 ∧
      (s.1.view "tx1").commits.length ≤ 1 := by
  have hunknown : Unknown "tx1" Sample.master := rfl
  obtain ⟨s, htrace, hcheck⟩ :
      ∃ s, Trace (logged (handle (Sample.platform [])) (created (Sample.platform [])))
          (FreshIds (Sample.platform [])) (Sample.master, []) erasedRun s ∧
        decide ((s.1.view "tx1").commits.length = 1) = true :=
    exists_trace_of_exec _ (by decide +kernel)
  have hlength : (s.1.view "tx1").commits.length = 1 := of_decide_eq_true hcheck
  rcases released_once hunknown htrace with ⟨honce, hcreated, -, -⟩
  refine ⟨s, htrace, hlength, hcreated ?_, honce⟩
  intro hempty
  rw [hempty] at hlength
  cases hlength

end DecentralizedCloud
