import DecentralizedCloud.Master.Flags

/-!
# How often a transaction enters the ledger

Three places append to `queueOut`: `checkVerification`, which looks at the flag
`inBlock` and sets it, and the two forms of the exception handler, which do
neither. So the flag keeps results and notifications from queueing a
transaction twice, but an exception that the block producer handles queues it
whether or not it is in the ledger, and leaves behind an entry without the flag,
or none, from which a late verification starts again.

The history of a run holds the blocks that were closed and marks the exceptions
and clean-ups that were handled, after which the flag need not be there any
more. A run has every id at most once in `queueOut` and the closed blocks when
no exception is queued for an id that is in the ledger, and, after an exception
or a clean-up, no check of such an id reaches its last part without the flag
(`ledger_once`).
-/

namespace DecentralizedCloud

open Machine Master

variable {P : Platform} {id : String}

/-- What the history of a run holds. -/
inductive LedgerNote where
  | closed (block : Block)
  /-- an exception or a clean-up was handled -/
  | setBack

def LedgerNote.txIds : LedgerNote → List String
  | .closed block => block.txIds
  | .setBack => []

def LedgerNote.isSetBack : LedgerNote → Bool
  | .closed _ => false
  | .setBack => true

/-- What an event adds to the history. -/
def ledgerNotes (P : Platform) (m : Master) (e : Event) (_ : Master) : List LedgerNote :=
  match e.msg with
  | .closeBlock => ((assembleBlock P e.env m).map fun made => .closed made.1).toList
  | .exception _ _ | .forwardedException _ | .cleanup => [.setBack]
  | .exeFunction _ | .verificationResult _ _ _ | .txNotification _ => []

/-- How often an id occurs in `queueOut` together with the data of the closed blocks. -/
def occurrences (id : String) (s : Master × List LedgerNote) : Nat :=
  (s.1.queueOut.map (·.txId) ++ s.2.flatMap LedgerNote.txIds).count id

/-- An exception or a clean-up was handled before. -/
def SetBack (s : Master × List LedgerNote) : Prop := s.2.any LedgerNote.isSetBack = true

instance {s : Master × List LedgerNote} : Decidable (SetBack s) :=
  inferInstanceAs (Decidable (_ = true))

/-- The check of `tx` reaches its last part only when `tx` is marked as being in
a block: it is not verified, or its client cannot be told, or it has the flag. -/
def FlagConsulted (env : Env) (tx : Transaction) : Prop :=
  tx.isVerified = true → (tx.canSend = true → resultDelivery env tx ≠ .raised) →
    tx.inBlock = true

instance {env : Env} {tx : Transaction} : Decidable (FlagConsulted env tx) :=
  inferInstanceAs (Decidable (_ = true → _ → _ = true))

/-- A step that meets an id in the ledger in the right way: the id of a new
transaction is not there yet; the block producer queues no exception for an id
that is there; and after an exception or a clean-up, the check of a transaction
that is there does not reach its last part without the flag. -/
def MeetsLedger (P : Platform) (id : String) (s : Master × List LedgerNote) (e : Event) : Prop :=
  match e.msg with
  | .exeFunction p => e.env.guid = id → Accepted P s.1 p → occurrences id s = 0
  | .verificationResult txId hash output => txId = id → SetBack s → 0 < occurrences id s →
      FlagConsulted e.env
        (counted ((s.1.view id).held.getD (.ofResult id hash e.env.now)) hash output)
  | .txNotification data => ∀ j ∈ P.parse data, j.stringAt "txid" = some id → SetBack s →
      0 < occurrences id s →
        FlagConsulted e.env (Transaction.fromJson j ((s.1.view id).held.getD {})).1
  | .exception txId exp => txId = id → ∀ tx ∈ (s.1.view id).held,
      ¬ (tx.computeNode = true ∧
        e.env.deliver tx.publicKey (.exception id exp) = .raised) →
          (excepted tx exp).toJson.prints = true → isBlockProducer e.env s.1 = true →
            occurrences id s = 0
  | .forwardedException txstr => ∀ j ∈ P.parse txstr, j.stringAt "txid" = some id →
      (Transaction.fromJson j {}).2 = true → isBlockProducer e.env s.1 = true →
        occurrences id s = 0
  | .cleanup | .closeBlock => True

/-! ## Counting -/

theorem occurrences_eq (s : Master × List LedgerNote) :
    occurrences id s = (s.1.view id).queued.length + (s.2.flatMap LedgerNote.txIds).count id := by
  unfold occurrences
  rw [List.count_append, List.count_eq_countP, List.countP_map, List.countP_eq_length_filter]
  rfl

/-- Only the block producer queues a forwarded exception, once, when it can be read. -/
theorem queued_handleForwardedException {env : Env} {m : Master} {txstr : String} {j : Json}
    (hj : P.parse txstr = some j) (hid : j.stringAt "txid" = some id) :
    ((handleForwardedException P env m txstr).view id).queued.length =
      (m.view id).queued.length +
        if (Transaction.fromJson j {}).2 = true ∧ isBlockProducer env m = true then 1 else 0 := by
  have htx : (Transaction.fromJson j {}).1.txId = id := Transaction.fromJson_txId hid {}
  simp only [handleForwardedException, hj]
  by_cases hqueues : (Transaction.fromJson j {}).2 = true ∧ isBlockProducer env m = true
  · rw [if_pos (by simpa using hqueues), if_pos hqueues]
    simp [view, htx]
  · rw [if_neg (by simpa using hqueues), if_neg hqueues]
    rfl

/-- Every event but the closing of a block leaves the closed blocks alone. -/
theorem ledgerNotes_txIds {m m' : Master} {e : Event} (h : e.msg ≠ .closeBlock) :
    (ledgerNotes P m e m').flatMap LedgerNote.txIds = [] := by
  unfold ledgerNotes
  split
  · rename_i hclose
    exact absurd hclose h
  all_goals rfl

/-- What a step that closes no block adds to the occurrences. -/
theorem occurrences_of_queued {s s' : Master × List LedgerNote} {e : Event} {k : Nat}
    (hmsg : e.msg ≠ .closeBlock) (hnotes : s'.2 = s.2 ++ ledgerNotes P s.1 e s'.1)
    (hqueued : (s'.1.view id).queued.length = (s.1.view id).queued.length + k) :
    occurrences id s' = occurrences id s + k := by
  rw [occurrences_eq, occurrences_eq, hqueued, hnotes, List.flatMap_append,
    ledgerNotes_txIds hmsg, List.append_nil]
  omega

/-- A closing leaves the occurrences as they are. -/
theorem occurrences_of_closing {s s' : Master × List LedgerNote} {e : Event}
    (hmsg : e.msg = .closeBlock) (h : handle P s.1 e = some s'.1)
    (hnotes : s'.2 = s.2 ++ ledgerNotes P s.1 e s'.1) : occurrences id s' = occurrences id s := by
  have hsplit : ((notDue P e.env s.1).filter fun tx => tx.txId = id).length +
      ((due P e.env s.1).map (·.txId)).count id = (s.1.view id).queued.length :=
    length_notDue_add_count
  have hclose : timeToCloseBlock P e.env s.1 = some s'.1 := by
    rw [← h, handle, hmsg]
  rcases timeToCloseBlock_eq_some hclose with ⟨block, m₁, hassemble, -⟩
  have hids : block.txIds = (due P e.env s.1).map (·.txId) := (assembleBlock_madeOf hassemble).txIds
  rw [occurrences_eq, occurrences_eq, hnotes, view_timeToCloseBlock hclose,
    ← hsplit, ← hids]
  simp only [ledgerNotes, hmsg, hassemble, Option.map_some, Option.toList_some,
    List.flatMap_append, List.flatMap_cons, List.flatMap_nil, List.append_nil, LedgerNote.txIds,
    List.count_append]
  omega

/-! ## The invariant -/

/-- An id occurs once at most, and its flag is there as long as nothing has set
the transaction back. -/
structure LedgerInv (id : String) (s : Master × List LedgerNote) : Prop where
  once : occurrences id s ≤ 1
  flagged : ¬ SetBack s → 0 < occurrences id s → ∃ tx ∈ (s.1.view id).held, tx.inBlock = true

/-- A check that consults the flag appends nothing. -/
theorem queues_of_consulted {env : Env} {tx : Transaction} (h : FlagConsulted env tx) :
    queues env tx = false := by
  by_contra hne
  simp only [Bool.not_eq_false, queues, Bool.and_eq_true, Bool.not_eq_true', raises] at hne
  rcases hne with ⟨⟨hverified, hraises⟩, hblock⟩
  have hflag : tx.inBlock = true := by
    apply h hverified
    intro hcan
    simpa [hverified, hcan] using hraises
  rw [hflag] at hblock
  cases hblock

/-- The condition on a step, for the transaction that it hands to the check. -/
theorem consulted_of_handed {s : Master × List LedgerNote} {e : Event} {tx : Transaction}
    (hok : MeetsLedger P id s e) (h : Handed P s.1 e id tx) (hsetBack : SetBack s)
    (hledger : 0 < occurrences id s) : FlagConsulted e.env tx := by
  unfold MeetsLedger at hok
  cases h with
  | counted hash output hmsg =>
      rw [hmsg] at hok
      exact hok rfl hsetBack hledger
  | notified data j cid hmsg hj hid =>
      rw [hmsg] at hok
      exact hok j hj hid hsetBack hledger

/-- A step that marks nothing leaves the marks as they were. -/
theorem setBack_append {s s' : Master × List LedgerNote} {notes : List LedgerNote}
    (hnotes : s'.2 = s.2 ++ notes) (h : ¬ SetBack s') : ¬ SetBack s ∧ .setBack ∉ notes := by
  unfold SetBack at h ⊢
  rw [hnotes, List.any_append, Bool.or_eq_true, not_or] at h
  refine ⟨h.1, ?_⟩
  intro hmem
  exact h.2 (List.any_eq_true.mpr ⟨_, hmem, rfl⟩)

/-- A result that is counted keeps the invariant, whichever event brings it. -/
theorem ledgerInv_checked {s s' : Master × List LedgerNote} {e : Event} {tx : Transaction}
    {node : String} (hinv : LedgerInv id s) (hok : MeetsLedger P id s e)
    (hmsg : e.msg ≠ .closeBlock) (hnotes : s'.2 = s.2 ++ ledgerNotes P s.1 e s'.1)
    (hhanded : Handed P s.1 e id tx) (hview : s'.1.view id = (s.1.view id).check e.env node tx) :
    LedgerInv id s' := by
  have hheld : (s'.1.view id).held = some (checked e.env tx) := by rw [hview, View.check]
  -- an id in the ledger is not queued again, with its flag or by the condition
  have hnot : 0 < occurrences id s → queues e.env tx = false := by
    intro hledger
    by_cases hsetBack : SetBack s
    · exact queues_of_consulted (consulted_of_handed hok hhanded hsetBack hledger)
    · rcases hinv.flagged hsetBack hledger with ⟨t, ht, hflag⟩
      have hsame := hhanded.sameFlags.inBlock
      rw [Option.mem_def.mp ht, Option.getD_some, hflag] at hsame
      simp [queues, hsame]
  cases hqueues : queues e.env tx with
  | true =>
      have hzero : occurrences id s = 0 := by
        by_contra hne
        have hfalse := hnot (Nat.pos_of_ne_zero hne)
        rw [hqueues] at hfalse
        cases hfalse
      have hone : occurrences id s' = occurrences id s + 1 := by
        apply occurrences_of_queued hmsg hnotes
        simp [hview, View.check, hqueues]
      refine ⟨by omega, ?_⟩
      intro _ _
      refine ⟨_, hheld, ?_⟩
      rw [checked_inBlock, hqueues, Bool.or_true]
  | false =>
      have hsame : occurrences id s' = occurrences id s + 0 := by
        apply occurrences_of_queued hmsg hnotes
        simp [hview, View.check, hqueues]
      rw [Nat.add_zero] at hsame
      refine ⟨by rw [hsame]; exact hinv.once, ?_⟩
      intro hsetBack hledger
      rw [hsame] at hledger
      rcases hinv.flagged (setBack_append hnotes hsetBack).1 hledger with ⟨t, ht, hflag⟩
      refine ⟨_, hheld, ?_⟩
      have hflags := hhanded.sameFlags.inBlock
      rw [Option.mem_def.mp ht, Option.getD_some, hflag] at hflags
      rw [checked_inBlock, hflags, Bool.true_or]

/-- A step that marks itself: only the count is left to show. -/
theorem LedgerInv.of_setBack {s s' : Master × List LedgerNote} {e : Event}
    (hnotes : s'.2 = s.2 ++ ledgerNotes P s.1 e s'.1)
    (hmark : .setBack ∈ ledgerNotes P s.1 e s'.1) (honce : occurrences id s' ≤ 1) :
    LedgerInv id s' := by
  refine ⟨honce, ?_⟩
  intro hsetBack
  exact absurd hmark (setBack_append hnotes hsetBack).2

/-- A step that appends nothing and keeps a held transaction with its flags. -/
theorem LedgerInv.of_held {s s' : Master × List LedgerNote} (hinv : LedgerInv id s)
    (hcount : occurrences id s' = occurrences id s) (hmarks : ¬ SetBack s' → ¬ SetBack s)
    (hheld : ∀ tx ∈ (s.1.view id).held, ∃ tx' ∈ (s'.1.view id).held, SameFlags tx tx') :
    LedgerInv id s' := by
  refine ⟨by rw [hcount]; exact hinv.once, ?_⟩
  intro hsetBack hledger
  rw [hcount] at hledger
  rcases hinv.flagged (hmarks hsetBack) hledger with ⟨tx, htx, hflag⟩
  rcases hheld tx htx with ⟨tx', htx', hsame⟩
  exact ⟨tx', htx', by rw [hsame.inBlock, hflag]⟩

/-- Every step keeps the invariant. -/
theorem ledgerInv_step (s : Master × List LedgerNote) (e : Event) (s' : Master × List LedgerNote)
    (hinv : LedgerInv id s) (hok : MeetsLedger P id s e)
    (hstep : logged (handle P) (ledgerNotes P) s e = some s') : LedgerInv id s' := by
  rcases of_logged hstep with ⟨hhandle, hnotes⟩
  have hmarks : ¬ SetBack s' → ¬ SetBack s := fun h => (setBack_append hnotes h).1
  have hv := flagStep hhandle id
  generalize hview : s'.1.view id = v at hv
  cases hv with
  | checked tx node hhanded =>
      have hmsg : e.msg ≠ .closeBlock := by
        intro hclose
        cases hhanded <;> simp_all
      exact ledgerInv_checked hinv hok hmsg hnotes hhanded hview
  | replaced held hheld hkept =>
      have hcount : occurrences id s' = occurrences id s := by
        by_cases hclose : e.msg = .closeBlock
        · exact occurrences_of_closing hclose hhandle hnotes
        · exact occurrences_of_queued (k := 0) hclose hnotes (by simp [hview])
      by_cases hclean : e.msg = .cleanup
      · apply LedgerInv.of_setBack hnotes (by simp [ledgerNotes, hclean])
        rw [hcount]
        exact hinv.once
      · apply hinv.of_held hcount hmarks
        intro tx htx
        -- what is held afterwards has the flags of the one transaction held before
        obtain ⟨tx', htx'⟩ : ∃ tx', held = some tx' := by
          rw [← Option.isSome_iff_exists, hkept hclean, Option.mem_def.mp htx]
          rfl
        rcases hheld tx' htx' with ⟨t, ht, hsame⟩
        have heq : t = tx := Option.mem_unique ht htx
        rw [heq] at hsame
        exact ⟨tx', by rw [hview]; exact htx', hsame⟩
  | drawn p cid hmsg hguid haccepted =>
      have hnew : occurrences id s = 0 := by
        unfold MeetsLedger at hok
        rw [hmsg] at hok
        exact hok hguid haccepted
      have hcount : occurrences id s' = occurrences id s + 0 :=
        occurrences_of_queued (by simp [hmsg]) hnotes (by simp [hview])
      exact ⟨by omega, fun _ hledger => by omega⟩
  | unprinted exp tx hmsg =>
      apply LedgerInv.of_setBack hnotes (by simp [ledgerNotes, hmsg])
      have hcount : occurrences id s' = occurrences id s + 0 :=
        occurrences_of_queued (by simp [hmsg]) hnotes (by simp [hview])
      have honce := hinv.once
      omega
  | failed exp tx hmsg hheld hreply hprints =>
      have hmark : .setBack ∈ ledgerNotes P s.1 e s'.1 := by simp [ledgerNotes, hmsg]
      apply LedgerInv.of_setBack hnotes hmark
      cases hproducer : isBlockProducer e.env s.1 with
      | true =>
          -- the producer queues the exception, so the id was not in the ledger
          have hnew : occurrences id s = 0 := by
            unfold MeetsLedger at hok
            rw [hmsg] at hok
            exact hok rfl tx hheld hreply hprints hproducer
          have hcount : occurrences id s' = occurrences id s + 1 :=
            occurrences_of_queued (by simp [hmsg]) hnotes (by simp [hview, hproducer])
          omega
      | false =>
          have hcount : occurrences id s' = occurrences id s + 0 :=
            occurrences_of_queued (by simp [hmsg]) hnotes (by simp [hview, hproducer])
          have honce := hinv.once
          omega
  | forwarded txstr queued hmsg hid =>
      have hmark : .setBack ∈ ledgerNotes P s.1 e s'.1 := by simp [ledgerNotes, hmsg]
      apply LedgerInv.of_setBack hnotes hmark
      rcases Option.bind_eq_some_iff.mp hid with ⟨j, hj, hid⟩
      have hm' : s'.1 = handleForwardedException P e.env s.1 txstr := by
        rcases e with ⟨env, msg⟩
        cases hmsg
        exact handle_forwardedException hhandle
      have hqueued : (s'.1.view id).queued.length = (s.1.view id).queued.length +
          if (Transaction.fromJson j {}).2 = true ∧ isBlockProducer e.env s.1 = true then 1 else 0 := by
        rw [hm']
        exact queued_handleForwardedException hj hid
      have hcount := occurrences_of_queued (by simp [hmsg]) hnotes hqueued
      split at hcount
      case isTrue hproduces =>
          have hnew : occurrences id s = 0 := by
            unfold MeetsLedger at hok
            rw [hmsg] at hok
            exact hok j hj hid hproduces.1 hproduces.2
          omega
      case isFalse =>
          have honce := hinv.once
          omega
  | closed hmsg =>
      apply hinv.of_held (occurrences_of_closing hmsg hhandle hnotes) hmarks
      intro tx htx
      exact ⟨tx, by rw [hview]; exact htx, .refl tx⟩

/-- In every run whose steps meet the ledger in the right way, an id occurs at
most once in `queueOut` together with the data of the closed blocks. -/
theorem ledger_once {m₀ : Master} {es : List Event} {s : Master × List LedgerNote}
    (hinit : Unknown id m₀)
    (h : Trace (logged (handle P) (ledgerNotes P)) (MeetsLedger P id) (m₀, []) es s) :
    occurrences id s ≤ 1 := by
  have hstart : LedgerInv id (m₀, []) := by
    have hzero : occurrences id (m₀, []) = 0 := by
      rw [occurrences_eq, hinit]
      rfl
    exact ⟨by omega, fun _ hledger => by omega⟩
  have hinv : LedgerInv id s := h.invariant (fun _ s => LedgerInv id s) hstart fun _ => ledgerInv_step
  exact hinv.once

instance {s : Master × List LedgerNote} {e : Event} : Decidable (MeetsLedger P id s e) :=
  match e with
  | ⟨env, .exeFunction p⟩ => inferInstanceAs (Decidable
      (env.guid = id → Accepted P s.1 p → occurrences id s = 0))
  | ⟨env, .verificationResult txId hash output⟩ => inferInstanceAs (Decidable
      (txId = id → SetBack s → 0 < occurrences id s →
        FlagConsulted env
          (counted ((s.1.view id).held.getD (.ofResult id hash env.now)) hash output)))
  | ⟨env, .txNotification data⟩ => inferInstanceAs (Decidable
      (∀ j ∈ P.parse data, j.stringAt "txid" = some id → SetBack s → 0 < occurrences id s →
        FlagConsulted env (Transaction.fromJson j ((s.1.view id).held.getD {})).1))
  | ⟨env, .exception txId exp⟩ => inferInstanceAs (Decidable
      (txId = id → ∀ tx ∈ (s.1.view id).held,
        ¬ (tx.computeNode = true ∧
          env.deliver tx.publicKey (.exception id exp) = .raised) →
            (excepted tx exp).toJson.prints = true → isBlockProducer env s.1 = true →
              occurrences id s = 0))
  | ⟨env, .forwardedException txstr⟩ => inferInstanceAs (Decidable
      (∀ j ∈ P.parse txstr, j.stringAt "txid" = some id →
        (Transaction.fromJson j {}).2 = true → isBlockProducer env s.1 = true →
          occurrences id s = 0))
  | ⟨_, .cleanup⟩ | ⟨_, .closeBlock⟩ => instDecidableTrue

/-- A block producer verifies the transaction of its client, closes it into a
block, and hears of more results and of an exception. -/
def verifiedThen (late : Event) : List Event :=
  ⟨Sample.env, .exeFunction Sample.packet⟩ :: Sample.results 14 "a" "out" ++
    [⟨Sample.env, .closeBlock⟩, ⟨Sample.env, .verificationResult "tx1" "a" ""⟩, late]

def producingMaster : Master := { Sample.master with blockProducers := Sample.producers }

theorem ledger_once_closed :
    ∃ s, Trace (logged (handle (Sample.platform [])) (ledgerNotes (Sample.platform [])))
        (MeetsLedger (Sample.platform []) "tx1") (producingMaster, [])
        (verifiedThen ⟨Sample.env, .cleanup⟩) s ∧
      occurrences "tx1" s ≠ 0 ∧ occurrences "tx1" s ≤ 1 := by
  have hunknown : Unknown "tx1" producingMaster := rfl
  obtain ⟨s, htrace, hcheck⟩ :
      ∃ s, Trace (logged (handle (Sample.platform [])) (ledgerNotes (Sample.platform [])))
          (MeetsLedger (Sample.platform []) "tx1") (producingMaster, [])
          (verifiedThen ⟨Sample.env, .cleanup⟩) s ∧
        decide (occurrences "tx1" s ≠ 0) = true :=
    exists_trace_of_exec _ (by decide +kernel)
  exact ⟨s, htrace, of_decide_eq_true hcheck, ledger_once hunknown htrace⟩

/-- The exception of a transaction that is in a block already: the producer
queues the transaction again. -/
theorem queued_after_block :
    ∃ s, Run (logged (handle (Sample.platform [])) (ledgerNotes (Sample.platform [])))
        (producingMaster, []) (verifiedThen ⟨Sample.env, .exception "tx1" "late"⟩) s ∧
      decide (occurrences "tx1" s = 2) = true :=
  exists_trace_of_exec _ (by decide +kernel)

end DecentralizedCloud
