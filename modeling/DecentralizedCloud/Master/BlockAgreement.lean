import DecentralizedCloud.Lib.KeySort
import DecentralizedCloud.Master.Machine

/-!
# Blocks and the order of arrival

The transactions of a block are hashed in the order in which the closing takes
them out of the sorted queue, and the queue is sorted by timestamps, which count
seconds. So two masters that queued the same transactions in different orders
can make blocks with different hashes out of them, and then neither signature
verifies on the other master.

With a hash without collisions, and a sort that sees nothing but timestamps, the
blocks agree for all orders exactly when due transactions of one timestamp have
ids that commute under concatenation (`block_agreement_iff`), which different
ids of one length never do (`tiesCommute_iff`). A transaction that cannot be printed
stops every master that takes it, so then there are no blocks to disagree.
-/

namespace DecentralizedCloud

open Master

/-- `std::sort` compares timestamps, and sees nothing else of a transaction. -/
def Platform.SortsBlindly (P : Platform) : Prop :=
  ∀ f : Transaction → Transaction, (∀ tx, (f tx).timestamp = tx.timestamp) →
    ∀ txs, P.sort (txs.map f) = (P.sort txs).map f

/-- The sort of the queue as a sort by a key. -/
def Platform.keySort (P : Platform) (h : P.SortsBlindly) : KeySort Transaction.timestamp where
  sort := P.sort
  perm := P.sort_perm
  sorted := P.sort_sorted
  blind := h

/-- Whatever the orders in which two masters have queued `txs`, the blocks that
they close at `now` under one number and link have one hash. -/
def AgreeOnBlock (P : Platform) (txs : List Transaction) (now : Int) : Prop :=
  ∀ (m₁ m₂ m₁' m₂' : Master) (env₁ env₂ : Env) (b₁ b₂ : Block),
    m₁.queueOut.Perm txs → m₂.queueOut.Perm txs → env₁.now = now → env₂.now = now →
    assembleBlock P env₁ m₁ = some (b₁, m₁') → assembleBlock P env₂ m₂ = some (b₂, m₂') →
    b₁.number = b₂.number → b₁.previousHash = b₂.previousHash → b₁.hash = b₂.hash

/-- The order of due transactions with one timestamp does not show in the
concatenation of ids. -/
def TiesCommute (txs : List Transaction) (now : Int) : Prop :=
  ∀ a ∈ txs, ∀ b ∈ txs, a.timestamp = b.timestamp → a.timestamp ≤ now →
    a.txId ++ b.txId = b.txId ++ a.txId

/-- The due transactions can be printed, as a closing does. -/
def DuePrint (txs : List Transaction) (now : Int) : Prop :=
  ∀ tx ∈ txs, tx.timestamp ≤ now → tx.toJson.prints = true

/-- Ids of one length commute only when they are equal. -/
theorem append_comm_iff {s t : String} (h : s.length = t.length) : s ++ t = t ++ s ↔ s = t := by
  constructor
  · intro happend
    have hlists := congrArg String.toList happend
    rw [String.toList_append, String.toList_append] at hlists
    have hlength : s.toList.length = t.toList.length := by
      rw [String.length_toList, String.length_toList, h]
    exact String.toList_inj.mp (List.append_inj_left hlists hlength)
  · rintro rfl
    rfl

variable {P : Platform} {env env' : Env} {m m' m₁ m₂ m₁' m₂' : Master} {b₁ b₂ : Block}
  {txs : List Transaction} {now : Int}

/-- Different ids of one length, as `getGUID` draws them: ties commute only when
there are none. -/
theorem tiesCommute_iff {k : Nat} (hnodup : (txs.map (·.txId)).Nodup)
    (hlength : ∀ tx ∈ txs, tx.txId.length = k) :
    TiesCommute txs now ↔ ∀ a ∈ txs, ∀ b ∈ txs, a.timestamp = b.timestamp → a.timestamp ≤ now →
      a = b := by
  have hsame : ∀ a ∈ txs, ∀ b ∈ txs, (a.txId ++ b.txId = b.txId ++ a.txId ↔ a = b) := by
    intro a ha b hb
    rw [append_comm_iff ((hlength a ha).trans (hlength b hb).symm)]
    exact ⟨fun hid => List.inj_on_of_nodup_map hnodup ha hb hid, congrArg Transaction.txId⟩
  constructor
  · intro hties a ha b hb htie hdue
    exact (hsame a ha b hb).mp (hties a ha b hb htie hdue)
  · intro hnone a ha b hb htie hdue
    exact (hsame a ha b hb).mpr (hnone a ha b hb htie hdue)

/-- The due transactions are the ones up to `now`, in the order of the sorted queue. -/
theorem due_eq_filter : due P env m = (P.sort m.queueOut).filter fun tx => tx.timestamp ≤ env.now :=
  KeySort.takeWhile_eq_filter (P.sort_sorted _) env.now

/-- Without collisions, blocks of one number, link and time have one hash when
the concatenations of their ids are equal. -/
theorem hash_eq_iff (hinj : Function.Injective P.infoHash)
    (h₁ : MadeOf P env m₁ (due P env m₁) b₁) (h₂ : MadeOf P env' m₂ (due P env' m₂) b₂)
    (hnow : env.now = env'.now) (hnumber : b₁.number = b₂.number)
    (hlink : b₁.previousHash = b₂.previousHash) :
    b₁.hash = b₂.hash ↔ (due P env m₁).flatMap (fun tx => tx.txId.toList) =
      (due P env' m₂).flatMap fun tx => tx.txId.toList := by
  have hjoin : ∀ txs : List Transaction,
      (String.join (txs.map (·.txId))).toList = txs.flatMap fun tx => tx.txId.toList := by
    intro txs
    rw [String.toList_join, List.flatMap_map]
  rw [h₁.hash, h₂.hash, hnumber, hlink, hnow, hinj.eq_iff, hashInput_inj, ← String.toList_inj,
    hjoin, hjoin]

/-- When ties commute, the order in which the transactions were queued does not
show in the concatenation of the due ids. -/
theorem flatMap_due_eq (hties : TiesCommute txs now) (hq₁ : m₁.queueOut.Perm txs)
    (hq₂ : m₂.queueOut.Perm txs) (hnow : env.now = now) (hnow' : env'.now = now) :
    (due P env m₁).flatMap (fun tx => tx.txId.toList) =
      (due P env' m₂).flatMap fun tx => tx.txId.toList := by
  rw [due_eq_filter, due_eq_filter, hnow, hnow']
  have hperm : (P.sort m₁.queueOut).Perm (P.sort m₂.queueOut) :=
    (P.sort_perm _).trans ((hq₁.trans hq₂.symm).trans (P.sort_perm _).symm)
  refine KeySort.flatMap_eq_of_perm (hperm.filter _) ((P.sort_sorted _).filter _)
    ((P.sort_sorted _).filter _) ?_
  · intro a ha b hb htie
    rcases List.mem_filter.mp ha with ⟨ha, hdue⟩
    have hcomm := hties a (hq₁.mem_iff.mp ((P.sort_perm _).mem_iff.mp ha)) b
      (hq₁.mem_iff.mp ((P.sort_perm _).mem_iff.mp (List.mem_filter.mp hb).1)) htie
      (by simpa using hdue)
    simpa using congrArg String.toList hcomm

theorem duePrint_iff (hqueue : m.queueOut.Perm txs) (hnow : env.now = now) :
    (∀ tx ∈ due P env m, tx.toJson.prints = true) ↔ DuePrint txs now := by
  have hmem : ∀ tx, tx ∈ due P env m ↔ tx ∈ txs ∧ tx.timestamp ≤ now := by
    intro tx
    rw [due_eq_filter, List.mem_filter, (P.sort_perm _).mem_iff, hqueue.mem_iff, hnow,
      decide_eq_true_eq]
  simp only [hmem, and_imp]
  rfl

/-- A master that has queued `txs` closes a block with number 1 behind "h0". -/
theorem exists_assembleBlock (P : Platform) {txs : List Transaction} {now : Int}
    (hprint : DuePrint txs now) :
    ∃ (m m' : Master) (env : Env) (b : Block), m.queueOut = txs ∧ env.now = now ∧
      assembleBlock P env m = some (b, m') ∧ b.number = 1 ∧ b.previousHash = "h0" := by
  let m : Master := { Sample.master with queueOut := txs }
  let env : Env := { Sample.env with now }
  have hdue : (makeBlock P env 1 "h0" (due P env m)).data.prints = true := by
    rw [makeBlock_prints, List.all_eq_true]
    exact (duePrint_iff (.refl _) rfl).mpr hprint
  exact ⟨m, _, env, _, rfl, rfl, if_pos hdue, rfl, rfl⟩

/-- A tie that does not commute shows in the hash. -/
theorem comm_of_agree (hinj : Function.Injective P.infoHash) (hblind : P.SortsBlindly)
    (hnodup : txs.Nodup) (hprint : DuePrint txs now) (hagree : AgreeOnBlock P txs now)
    {a b : Transaction} (ha : a ∈ txs) (hb : b ∈ txs) (hne : a ≠ b)
    (htie : a.timestamp = b.timestamp) (hdue : a.timestamp ≤ now) :
    a.txId ++ b.txId = b.txId ++ a.txId := by
  -- two orders of arrival from which the tie is sorted in both ways
  obtain ⟨q, l, r, hq, hq', hsort, hsort', -⟩ :=
    (P.keySort hblind).exists_adjacent hnodup ha hb hne htie
  obtain ⟨m₁, m₁', env₁, b₁, hqueue₁, hnow₁, hassemble₁, hnumber₁, hlink₁⟩ :=
    exists_assembleBlock P fun tx htx => hprint tx (hq.mem_iff.mp htx)
  obtain ⟨m₂, m₂', env₂, b₂, hqueue₂, hnow₂, hassemble₂, hnumber₂, hlink₂⟩ :=
    exists_assembleBlock P fun tx htx => hprint tx (hq'.mem_iff.mp htx)
  have hhash : b₁.hash = b₂.hash :=
    hagree m₁ m₂ m₁' m₂' env₁ env₂ b₁ b₂ (by rw [hqueue₁]; exact hq) (by rw [hqueue₂]; exact hq')
      hnow₁ hnow₂ hassemble₁ hassemble₂ (hnumber₁.trans hnumber₂.symm) (hlink₁.trans hlink₂.symm)
  rw [hash_eq_iff hinj (assembleBlock_madeOf hassemble₁) (assembleBlock_madeOf hassemble₂)
    (hnow₁.trans hnow₂.symm) (hnumber₁.trans hnumber₂.symm) (hlink₁.trans hlink₂.symm),
    due_eq_filter, due_eq_filter, hqueue₁, hqueue₂, hnow₁, hnow₂] at hhash
  have hdue' : b.timestamp ≤ now := htie ▸ hdue
  have hsame : ∀ xs, P.sort xs = (P.keySort hblind).sort xs := fun _ => rfl
  rw [hsame, hsame, hsort, hsort'] at hhash
  -- what stands before and behind the tie is the same
  simp only [List.filter_append, List.filter_cons, hdue, hdue', decide_true, if_true,
    List.flatMap_append, List.flatMap_cons] at hhash
  have hmiddle := List.append_cancel_left hhash
  rw [← List.append_assoc, ← List.append_assoc] at hmiddle
  have hids := List.append_cancel_right hmiddle
  rw [← String.toList_append, ← String.toList_append] at hids
  exact String.toList_inj.mp hids

/-- Two masters that have queued the same transactions in any two orders, and close
them at one time under one number and link, make blocks of one hash, if and only if
the ids of due transactions with one timestamp commute, provided that there are blocks
at all, for which the due transactions have to be printed. -/
theorem block_agreement_iff (hinj : Function.Injective P.infoHash) (hblind : P.SortsBlindly)
    (hnodup : txs.Nodup) (now : Int) :
    AgreeOnBlock P txs now ↔ (DuePrint txs now → TiesCommute txs now) := by
  constructor
  · intro hagree hprint a ha b hb htie hdue
    by_cases hne : a = b
    · rw [hne]
    · exact comm_of_agree hinj hblind hnodup hprint hagree ha hb hne htie hdue
  · intro hties m₁ m₂ m₁' m₂' env₁ env₂ b₁ b₂ hq₁ hq₂ hnow₁ hnow₂ h₁ h₂ hnumber hlink
    obtain ⟨-, -, -, -, hprint, -⟩ := getBlock_eq_some h₁
    have hties' := hties ((duePrint_iff hq₁ hnow₁).mp hprint)
    rw [hash_eq_iff hinj (assembleBlock_madeOf h₁) (assembleBlock_madeOf h₂)
      (hnow₁.trans hnow₂.symm) hnumber hlink]
    exact flatMap_due_eq hties' hq₁ hq₂ hnow₁ hnow₂

/-! ## One second, two orders -/

namespace Sample

theorem platform_sortsBlindly (txs : List Transaction) : (platform txs).SortsBlindly := by
  intro f hkey txs
  have hmap := List.map_insertionSort (r := notLater) (s := notLater) f txs
    fun a _ b _ => by simp [notLater, hkey]
  exact hmap.symm

/-- Two transactions of one second. -/
def sameSecond : List Transaction :=
  [{ tx with txId := "a", timestamp := 100 }, { tx with txId := "b", timestamp := 100 }]

end Sample

instance {txs : List Transaction} {now : Int} : Decidable (TiesCommute txs now) :=
  inferInstanceAs (Decidable (∀ a ∈ txs, ∀ b ∈ txs, a.timestamp = b.timestamp →
    a.timestamp ≤ now → a.txId ++ b.txId = b.txId ++ a.txId))

/-- In different seconds the order does not matter. -/
theorem block_agreement_iff_seconds :
    AgreeOnBlock (Sample.platform [])
      [{ Sample.tx with txId := "a", timestamp := 99 }, { Sample.tx with txId := "b" }] 100 :=
  (block_agreement_iff Sample.digest_injective (Sample.platform_sortsBlindly []) (by decide)
    100).mpr fun _ => by decide

/-- In one second it does: the two orders of arrival are the two orders in the block. -/
theorem blocks_disagree : ¬ AgreeOnBlock (Sample.platform []) Sample.sameSecond 100 := by
  intro hagree
  have hhash := hagree { Sample.master with queueOut := Sample.sameSecond }
    { Sample.master with queueOut := Sample.sameSecond.reverse } _ _ Sample.env Sample.env _ _
    (.refl _) (List.reverse_perm _) rfl rfl rfl rfl rfl rfl
  revert hhash
  decide +kernel

end DecentralizedCloud
