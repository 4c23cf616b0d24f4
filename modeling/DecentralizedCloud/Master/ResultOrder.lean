import DecentralizedCloud.Master.Machine

/-!
# The order of the results

A master that holds a transaction processes a list of results for it. The
count that `verifyHash` keeps is a function `votes` of the pinned hash and the
list of hashes: a pinned hash counts its own occurrences, and as long as none
is pinned every result counts. The count therefore depends on the order only
through the results up to the one whose hash gets pinned (`opening`). Two
orders of the same results that agree on this beginning verify the transaction
alike.
-/

namespace DecentralizedCloud

open Master

/-- A result for a transaction, and the surroundings in which it is processed. -/
structure VerificationResult where
  env : Env
  hash : String
  output : String

/-- The part that is sent. -/
def VerificationResult.content (r : VerificationResult) : String × String := (r.hash, r.output)

/-- `verifyTransaction` on each of the results, in order. -/
def processResults (m : Master) (id : String) (rs : List VerificationResult) : Master :=
  rs.foldl (fun m r => verifyTransaction r.env m id r.hash r.output) m

/-- What a list of hashes adds to `totalVerified` when `last` is the pinned hash. -/
def votes (last : String) : List String → Nat
  | [] => 0
  | h :: hs =>
      if last = "" then 1 + votes h hs
      else (if h = last then 1 else 0) + votes last hs

/-- The hashes up to the first non-empty one. -/
def opening : List String → List String
  | [] => []
  | h :: hs => if h = "" then "" :: opening hs else [h]

/-! ## Votes and permutations -/

/-- A pinned hash counts its own occurrences. -/
theorem votes_pinned {last : String} (h : last ≠ "") (hs : List String) :
    votes last hs = hs.count last := by
  induction hs with
  | nil => rfl
  | cons a hs ih =>
      rw [votes, if_neg h, ih, List.count_cons]
      simp only [beq_iff_eq]
      omega

/-- With no hash pinned, the votes depend on the beginning and on how often each hash occurs. -/
theorem votes_perm {hs hs' : List String} (hperm : hs.Perm hs')
    (hopening : opening hs = opening hs') : votes "" hs = votes "" hs' := by
  induction hs generalizing hs' with
  | nil => rw [hperm.symm.eq_nil]
  | cons h hs ih =>
      cases hs' with
      | nil => exact absurd hperm.eq_nil (List.cons_ne_nil _ _)
      | cons h' hs' =>
          by_cases hempty : h = ""
          · -- a vote without a hash leaves nothing pinned
            subst hempty
            by_cases hempty' : h' = ""
            · subst hempty'
              have htail : opening hs = opening hs' := by simpa [opening] using hopening
              simp [votes, ih hperm.cons_inv htail]
            · simp [opening, hempty', Ne.symm hempty'] at hopening
          · -- `h` is pinned from here on, by both lists
            have hsame : h = h' := by
              by_cases hempty' : h' = ""
              · subst hempty'
                simp [opening, hempty] at hopening
              · simpa [opening, hempty, hempty'] using hopening
            subst hsame
            have hcount : hs.count h = hs'.count h := hperm.cons_inv.count_eq h
            simp [votes, votes_pinned hempty, hcount]

/-! ## What the results leave behind -/

/-- The transaction after a list of results: its counter and its flags. -/
theorem held_processResults {id : String} {m : Master} {tx : Transaction}
    (rs : List VerificationResult) (hheld : (m.view id).held = some tx) :
    ∃ tx', ((processResults m id rs).view id).held = some tx' ∧
      tx'.totalVerified = tx.totalVerified + votes tx.lastValidHash (rs.map (·.hash)) ∧
      tx'.receivedFullTransaction = tx.receivedFullTransaction ∧
      tx'.receivedOutput = (tx.receivedOutput || rs.any fun r => r.output ≠ "") := by
  induction rs generalizing m tx with
  | nil => exact ⟨tx, hheld, by simp [votes], rfl, by simp⟩
  | cons r rs ih =>
      -- the transaction after the first result
      have hfirst : ((verifyTransaction r.env m id r.hash r.output).view id).held =
          some (checked r.env (counted tx r.hash r.output)) := by
        rw [view_verifyTransaction, hheld]
        rfl
      rcases ih hfirst with ⟨tx', hheld', htotal, hfull, houtput⟩
      refine ⟨tx', hheld', ?_, ?_, ?_⟩
      · rw [htotal, checked_totalVerified, checked_lastValidHash, counted_eq]
        rw [List.map_cons, votes.eq_2]
        by_cases hpinned : tx.lastValidHash = ""
        · simp [hpinned]
          omega
        · simp [hpinned]
          omega
      · rw [hfull, checked_receivedFullTransaction, counted_eq]
      · rw [houtput, checked_receivedOutput, counted_eq, List.any_cons]
        simp [Bool.or_assoc]

/-- Two orders of the same results verify a held transaction alike, provided
that, when no hash is pinned yet, they agree up to the result that pins one. -/
theorem isVerified_of_perm {id : String} {rs rs' : List VerificationResult} {m : Master}
    {tx : Transaction} (hheld : m.transactions.find id = some tx)
    (hperm : (rs.map (·.content)).Perm (rs'.map (·.content)))
    (hopening : tx.lastValidHash = "" →
      opening (rs.map (·.hash)) = opening (rs'.map (·.hash))) :
    ((processResults m id rs).transactions.find id).map (·.isVerified) =
      ((processResults m id rs').transactions.find id).map (·.isVerified) := by
  rcases held_processResults rs hheld with ⟨t, ht, htotal, hfull, houtput⟩
  rcases held_processResults rs' hheld with ⟨t', ht', htotal', hfull', houtput'⟩
  have hhashes : (rs.map (·.hash)).Perm (rs'.map (·.hash)) := by
    have hmap := hperm.map Prod.fst
    simpa [Function.comp_def, VerificationResult.content] using hmap
  -- a pinned hash has the same votes in every order; otherwise the first one decides
  have hvotes : votes tx.lastValidHash (rs.map (·.hash)) =
      votes tx.lastValidHash (rs'.map (·.hash)) := by
    by_cases hpinned : tx.lastValidHash = ""
    · rw [hpinned]
      exact votes_perm hhashes (hopening hpinned)
    · rw [votes_pinned hpinned, votes_pinned hpinned, hhashes.count_eq]
  have houtputs : (rs.any fun r => r.output ≠ "") = rs'.any fun r => r.output ≠ "" := by
    have hany := hperm.any_eq (f := fun c => decide (c.2 ≠ ""))
    simpa only [List.any_map, Function.comp_def, VerificationResult.content] using hany
  -- nothing else is looked at
  have hsame : t.isVerified = t'.isVerified := by
    rw [Bool.eq_iff_iff, Transaction.isVerified_iff, Transaction.isVerified_iff, htotal, htotal',
      hvotes, hfull, hfull', houtput, houtput', houtputs]
  rw [show (processResults m id rs).transactions.find id = some t from ht,
    show (processResults m id rs').transactions.find id = some t' from ht']
  exact congrArg some hsame

/-- One result that deviates, and 14 that agree. -/
def deviating : VerificationResult := ⟨Sample.env, "b", "out"⟩
def agreeing : List VerificationResult := List.replicate 14 ⟨Sample.env, "a", "out"⟩

/-- A master that holds the transaction of the client and has no result for it yet. -/
def holding : Master := Sample.master.store Sample.tx

theorem isVerified_of_perm_agreeing_first :
    ((processResults holding "tx1" (agreeing ++ [deviating])).transactions.find "tx1").map
        (·.isVerified) =
      ((processResults holding "tx1" (agreeing.take 7 ++ [deviating] ++
        agreeing.drop 7)).transactions.find "tx1").map (·.isVerified) := by
  refine isVerified_of_perm (show holding.transactions.find "tx1" = some Sample.tx by rfl)
    (by decide) fun _ => by decide

/-- The deviating result first leaves the transaction unverified, last it does not matter. -/
theorem isVerified_depends_on_order :
    holding.transactions.find "tx1" = some Sample.tx ∧
    Sample.tx.receivedFullTransaction = true ∧
    ((deviating :: agreeing).map (·.content)).Perm
      ((agreeing ++ [deviating]).map (·.content)) ∧
    ((processResults holding "tx1" (deviating :: agreeing)).transactions.find "tx1").map
        (·.isVerified) = some false ∧
    ((processResults holding "tx1" (agreeing ++ [deviating])).transactions.find "tx1").map
        (·.isVerified) = some true := by
  refine ⟨rfl, rfl, by decide, by decide +kernel, by decide +kernel⟩

end DecentralizedCloud
