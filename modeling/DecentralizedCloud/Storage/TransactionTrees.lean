import DecentralizedCloud.Lib.Trace
import DecentralizedCloud.Storage.Blocks
import DecentralizedCloud.Storage.ObjectStore
import DecentralizedCloud.Storage.ObjectTree

/-!
# The trees of transactions and blocks

A commit links every transaction of the block below the root of its tenant, puts the
hash of the transaction under a key of its own, and links the block below the root of
the blocks. A link that is there already moves to the new object, so that after any
number of commits each link leads to the last occurrence (`holds_commits`).

The key of a transaction does not name the tenant. It holds the last occurrence among
the transactions of all tenants.
-/

namespace DecentralizedCloud.Storage

open Machine Schedule

/-! ## Last occurrences -/

section Latest

variable {α : Type*} (p : α → Prop) [DecidablePred p]

/-- The last element with a property. -/
def latest (xs : List α) : Option α := (xs.filter fun a => p a).getLast?

@[simp] theorem latest_nil : latest p [] = none := rfl

theorem latest_snoc (xs : List α) (a : α) :
    latest p (xs ++ [a]) = if p a then some a else latest p xs := by
  unfold latest
  by_cases h : p a <;> simp [h]

variable {p}

theorem latest_snoc_of_pos {a : α} (h : p a) (xs : List α) : latest p (xs ++ [a]) = some a := by
  rw [latest_snoc, if_pos h]

theorem latest_snoc_of_neg {a : α} (h : ¬p a) (xs : List α) :
    latest p (xs ++ [a]) = latest p xs := by
  rw [latest_snoc, if_neg h]

theorem mem_of_latest {xs : List α} {a : α} (h : latest p xs = some a) : a ∈ xs ∧ p a := by
  have hmem := List.mem_of_getLast? h
  rw [List.mem_filter] at hmem
  exact ⟨hmem.1, of_decide_eq_true hmem.2⟩

theorem exists_latest {xs : List α} {a : α} (hmem : a ∈ xs) (h : p a) :
    ∃ b, latest p xs = some b := by
  have hne : xs.filter (fun a => p a) ≠ [] :=
    List.ne_nil_of_mem (List.mem_filter.mpr ⟨hmem, decide_eq_true h⟩)
  exact ⟨_, List.getLast?_eq_some_getLast hne⟩

end Latest

/-! ## Keys -/

/-- The key of the root of a tenant's transactions. -/
def txRootKey (tid : String) : String := rootKey (treeOf transactionTree tid)

theorem txRootKey_inj {tid tid' : String} : txRootKey tid = txRootKey tid' ↔ tid = tid' := by
  constructor
  · intro h
    have hlist := congrArg String.toList h
    simpa [txRootKey, rootKey, treeOf, String.toList_append, String.toList_inj] using hlist
  · rintro rfl
    rfl

theorem transactionKey_inj {hash hash' : String} :
    transactionKey hash = transactionKey hash' ↔ hash = hash' := by
  constructor
  · intro h
    have hlist := congrArg String.toList h
    simpa [transactionKey, String.toList_append, String.toList_inj] using hlist
  · rintro rfl
    rfl

theorem blockKey_inj {blockId blockId' : String} :
    blockKey blockId = blockKey blockId' ↔ blockId = blockId' := by
  constructor
  · intro h
    have hlist := congrArg String.toList h
    simpa [blockKey, String.toList_append, String.toList_inj] using hlist
  · rintro rfl
    rfl

theorem txRootKey_ne_transactionKey (tid hash : String) : txRootKey tid ≠ transactionKey hash :=
  rootKey_ne_transactionKey _ hash

theorem blockKey_ne_transactionKey (blockId hash : String) :
    blockKey blockId ≠ transactionKey hash := by
  intro h
  have hlist := congrArg String.toList h
  simp [blockKey, blockTree, transactionKey, transactionTree, String.toList_append] at hlist

theorem blockKey_ne_rootKey (blockId tree : String) : blockKey blockId ≠ rootKey tree := by
  intro h
  have hlist := congrArg String.toList h
  simp [blockKey, blockTree, rootKey, String.toList_append] at hlist

theorem blockRoot_ne_txRootKey (tid : String) : rootKey blockTree ≠ txRootKey tid := by
  intro h
  have hlist := congrArg String.toList h
  simp [blockTree, txRootKey, rootKey, treeOf, transactionTree, String.toList_append] at hlist

/-! ## Commits -/

/-- A call of `addTransactions`, with what IPFS answers to it. -/
structure Commit where
  input : String
  answers : BlockAnswers

section Commits

variable (S : Services) (contents : String → Option Contents)

def commitStep (base64_encodeString : String → String) : Step (String → String) Commit :=
  fun dht c => some ((addTransactions S c.answers base64_encodeString c.input).exec dht).1

/-- IPFS answers the requests for a transaction as the services do. -/
structure ServesTransaction (answers : BlockAnswers) (i : Nat) (transaction : Json)
    (dht : String → String) : Prop where
  added : answers (.transaction i) = S.objectPut (S.dump transaction) []
  root : ∀ {tid}, transaction.stringAt "tid" = some tid →
    answers (.root i) = S.objectPut (txRootKey tid) []
  link : ∀ {txid tid}, transaction.stringAt "txid" = some txid →
    transaction.stringAt "tid" = some tid →
    answers (.link i) = S.objectPatchAddLink
      (if dht (txRootKey tid) = "" then (answers (.root i)).getD "" else dht (txRootKey tid)) txid
      ((answers (.transaction i)).getD "")

/-- The transactions from the one with index `i` on are served one after another. -/
def ServesEach (answers : BlockAnswers) : Nat → List Json → (String → String) → Prop
  | _, [], _ => True
  | i, transaction :: rest, dht => ServesTransaction S answers i transaction dht ∧
      ServesEach answers (i + 1) rest ((addToTxTree S answers i transaction).exec dht).1

/-- Every request of the commit is served, those for the block after the transactions. -/
structure ServesBlock (answers : BlockAnswers) (block : Json) (transactions : List Json)
    (dht : String → String) : Prop where
  each : ServesEach S answers 0 transactions dht
  added : answers .block = S.objectPut (S.dump block) []
  blockRoot : ∀ {n}, block.longLongAt "n" = some n →
    answers .blockRoot =
      let dht' := ((addEach S answers 0 transactions).exec dht).1
      if dht' (rootKey blockTree) = "" then
        S.objectPut blockTree [(toString n, (answers .block).getD "")]
      else S.objectPatchAddLink (dht' (rootKey blockTree)) (toString n) ((answers .block).getD "")

/-- A transaction names itself and its tenant, with no hash as its name. -/
def Named (transaction : Json) : Prop :=
  ∃ txid tid, transaction.stringAt "txid" = some txid ∧ transaction.stringAt "tid" = some tid ∧
    contents txid = none

/-- The commit is for a block with a number and a list of transactions, and IPFS serves it. -/
def Commits (dht : String → String) (c : Commit) : Prop :=
  ∃ block transactions, S.parse c.input = some block ∧
    block.get? "data" = some (.arr transactions) ∧ (block.longLongAt "n").isSome = true ∧
    (∀ transaction ∈ transactions, Named contents transaction) ∧
    ServesBlock S c.answers block transactions dht

/-- The blocks that have been committed. -/
def blocksOf (cs : List Commit) : List Json := cs.filterMap fun c => S.parse c.input

def transactionsIn (block : Json) : List Json := (transactionsOf (dataOf block)).getD []

end Commits

/-! ## What the trees hold -/

section Holds

variable (S : Services) (contents : String → Option Contents) (dht : String → String)

/-- The hash leads to the text of a JSON value. -/
def LeadsTo (hash : String) (j : Json) : Prop := contents hash = some (S.dump j, fun _ => none)

def IsNamed (txid : String) (transaction : Json) : Prop :=
  transaction.stringAt "txid" = some txid

def IsOf (tid txid : String) (transaction : Json) : Prop :=
  transaction.stringAt "tid" = some tid ∧ IsNamed txid transaction

def IsNumbered (n : Int) (block : Json) : Prop := block.longLongAt "n" = some n

instance (txid : String) : DecidablePred (IsNamed txid) :=
  fun transaction => inferInstanceAs (Decidable (transaction.stringAt "txid" = some txid))

instance (tid txid : String) : DecidablePred (IsOf tid txid) :=
  fun transaction =>
    inferInstanceAs (Decidable (transaction.stringAt "tid" = some tid ∧ IsNamed txid transaction))

instance (n : Int) : DecidablePred (IsNumbered n) :=
  fun block => inferInstanceAs (Decidable (block.longLongAt "n" = some n))

/-- The root of each tenant links its transactions, and nothing else; the key of a transaction
leads to the last one of the name. -/
structure HoldsTransactions (transactions : List Json) : Prop where
  root : ∀ tid, ∃ links, Rooted contents (dht (txRootKey tid)) links ∧
    ∀ txid hash, links txid = some hash ↔
      ∃ transaction, latest (IsOf tid txid) transactions = some transaction ∧
        LeadsTo S contents hash transaction
  key : ∀ {txid transaction}, latest (IsNamed txid) transactions = some transaction →
    LeadsTo S contents (dht (transactionKey txid)) transaction

/-- The root of the blocks links the last block of each number, and so does its key. -/
structure HoldsBlocks (blocks : List Json) : Prop where
  root : ∃ links, Rooted contents (dht (rootKey blockTree)) links ∧
    ∀ n hash, links (toString n) = some hash ↔
      ∃ block, latest (IsNumbered n) blocks = some block ∧ LeadsTo S contents hash block
  key : ∀ {n block}, latest (IsNumbered n) blocks = some block →
    LeadsTo S contents (dht (blockKey (toString n))) block

end Holds

/-! ## Links and keys of last occurrences -/

section Snoc

variable {S : Services} {contents : String → Option Contents} {κ : Type*} {p : κ → Json → Prop}
  [∀ k, DecidablePred (p k)] {js : List Json} {j : Json} {k : κ}
  (hj : ∀ k', p k' j ↔ k' = k)

include hj

/-- Moving the link of a name to a new value keeps the links at the last occurrences. -/
theorem links_snoc (hS : S.Lawful contents) {name : κ → String} (hname : Function.Injective name)
    {links : String → Option String}
    (h : ∀ k hash, links (name k) = some hash ↔
      ∃ j, latest (p k) js = some j ∧ LeadsTo S contents hash j)
    {hash : String} (hhash : LeadsTo S contents hash j) (k' : κ) (hash' : String) :
    Function.update links (name k) (some hash) (name k') = some hash' ↔
      ∃ j', latest (p k') (js ++ [j]) = some j' ∧ LeadsTo S contents hash' j' := by
  by_cases hk : k' = k
  · subst hk
    rw [Function.update_self, latest_snoc_of_pos ((hj k').mpr rfl)]
    constructor
    · intro heq
      cases heq
      exact ⟨j, rfl, hhash⟩
    · rintro ⟨_, heq, hleads⟩
      cases heq
      rw [hS.objects.ext hhash hleads]
  · rw [Function.update_of_ne (hname.ne hk), latest_snoc_of_neg (mt (hj k').mp hk), h]

/-- Putting the key of a name to a new value keeps the keys at the last occurrences. -/
theorem keys_snoc (key : κ → String) {dht dht' : String → String}
    (h : ∀ {k j}, latest (p k) js = some j → LeadsTo S contents (dht (key k)) j)
    (hput : LeadsTo S contents (dht' (key k)) j)
    (hkeep : ∀ k' ≠ k, ∀ j', latest (p k') js = some j' → dht' (key k') = dht (key k')) {k' : κ}
    {j' : Json} (hlatest : latest (p k') (js ++ [j]) = some j') :
    LeadsTo S contents (dht' (key k')) j' := by
  by_cases hk : k' = k
  · subst hk
    rw [latest_snoc_of_pos ((hj k').mpr rfl)] at hlatest
    cases hlatest
    exact hput
  · rw [latest_snoc_of_neg (mt (hj k').mp hk)] at hlatest
    rw [hkeep k' hk j' hlatest]
    exact h hlatest

end Snoc

/-! ## One transaction -/

/-- The store after a transaction. -/
def addedTx (dht : String → String) (txid tid txHash root : String) : String → String :=
  Function.update (Function.update (Function.update dht (transactionKey txid) txHash)
    (transactionKey root) txid) (txRootKey tid) root

section Added

variable {dht : String → String} {txid tid txHash root : String}

@[simp] theorem addedTx_root : addedTx dht txid tid txHash root (txRootKey tid) = root :=
  Function.update_self ..

theorem addedTx_root_of_ne {tid' : String} (h : tid' ≠ tid) :
    addedTx dht txid tid txHash root (txRootKey tid') = dht (txRootKey tid') := by
  rw [addedTx, Function.update_of_ne (mt txRootKey_inj.mp h),
    Function.update_of_ne (txRootKey_ne_transactionKey _ _),
    Function.update_of_ne (txRootKey_ne_transactionKey _ _)]

/-- The key of the root is no key of a transaction that the hash does not name. -/
theorem addedTx_transaction {txid' : String} (h : txid' ≠ root) :
    addedTx dht txid tid txHash root (transactionKey txid') =
      if txid' = txid then txHash else dht (transactionKey txid') := by
  rw [addedTx, Function.update_of_ne (txRootKey_ne_transactionKey tid txid').symm,
    Function.update_of_ne (mt transactionKey_inj.mp h)]
  split
  case isTrue hname => rw [hname, Function.update_self]
  case isFalse hname => rw [Function.update_of_ne (mt transactionKey_inj.mp hname)]

theorem addedTx_of_ne {key : String} (htransaction : ∀ hash, key ≠ transactionKey hash)
    (hroot : ∀ tid, key ≠ txRootKey tid) : addedTx dht txid tid txHash root key = dht key := by
  rw [addedTx, Function.update_of_ne (hroot tid), Function.update_of_ne (htransaction root),
    Function.update_of_ne (htransaction txid)]

end Added

section Steps

variable {S : Services} {contents : String → Option Contents} (hS : S.Lawful contents)
  {answers : BlockAnswers} {dht : String → String}

include hS

/-- A transaction that is served is linked below the root of its tenant. -/
theorem exec_addToTxTree_served {i : Nat} {transaction : Json} {txid tid : String}
    {links : String → Option String} (hserves : ServesTransaction S answers i transaction dht)
    (htxid : transaction.stringAt "txid" = some txid) (htid : transaction.stringAt "tid" = some tid)
    (hroot : Rooted contents (dht (txRootKey tid)) links) :
    ∃ txHash root data, LeadsTo S contents txHash transaction ∧
      contents root = some (data, Function.update links txid (some txHash)) ∧
      (addToTxTree S answers i transaction).exec dht =
        (addedTx dht txid tid txHash root, some ()) := by
  rcases hS.objects.put_nil (S.dump transaction) with ⟨txHash, hput, htxHash⟩
  have hadded : answers (.transaction i) = some txHash := hserves.added.trans hput
  have hknown : contents txHash ≠ none := by simp [htxHash]
  -- the root that is linked, whether it is there or added
  obtain ⟨oldRoot, data, hold, hcontents⟩ : ∃ oldRoot data,
      (if dht (txRootKey tid) = "" then (answers (.root i)).getD "" else dht (txRootKey tid)) =
        oldRoot ∧ contents oldRoot = some (data, links) := by
    rcases hroot with ⟨hempty, rfl⟩ | ⟨data, hdata⟩
    · rcases hS.objects.put_nil (txRootKey tid) with ⟨oldRoot, hput', hcontents⟩
      have hanswer : answers (.root i) = some oldRoot := (hserves.root htid).trans hput'
      exact ⟨oldRoot, _, by rw [if_pos hempty, hanswer, Option.getD_some], hcontents⟩
    · exact ⟨_, data, if_neg (hS.ne_empty hdata), hdata⟩
  rcases hS.objects.patch_addLink hcontents txid hknown with ⟨root, hadd, hlinked⟩
  have hlink : answers (.link i) = some root := by
    rw [hserves.link htxid htid, hold, hadded, Option.getD_some]
    exact hadd
  refine ⟨txHash, root, data, htxHash, hlinked, ?_⟩
  have hread : Function.update dht (transactionKey txid) txHash (txRootKey tid) =
      dht (txRootKey tid) := Function.update_of_ne (txRootKey_ne_transactionKey tid txid) ..
  rw [txRootKey] at hread
  simp [addToTxTree, Prog.exec_bind, htxid, htid, hadded, hlink, hread, exec_addMissing, txRootKey,
    addedTx]

/-- Adding a transaction makes it the last one of its name and of its tenant. -/
theorem HoldsTransactions.snoc {i : Nat} {transaction : Json} {transactions : List Json}
    (h : HoldsTransactions S contents dht transactions)
    (hbefore : ∀ transaction ∈ transactions, Named contents transaction)
    (hnamed : Named contents transaction)
    (hserves : ServesTransaction S answers i transaction dht) :
    ∃ dht', (addToTxTree S answers i transaction).exec dht = (dht', some ()) ∧
      HoldsTransactions S contents dht' (transactions ++ [transaction]) ∧
      ∀ key, (∀ hash, key ≠ transactionKey hash) → (∀ tid, key ≠ txRootKey tid) →
        dht' key = dht key := by
  rcases hnamed with ⟨txid, tid, htxid, htid, hunknown⟩
  rcases h.root tid with ⟨links, hroot, hlinks⟩
  rcases exec_addToTxTree_served hS hserves htxid htid hroot with
    ⟨txHash, root, data, htxHash, hnewRoot, hexec⟩
  have hisNamed : ∀ txid', IsNamed txid' transaction ↔ txid' = txid := by
    intro txid'
    rw [IsNamed, htxid, Option.some.injEq, eq_comm]
  -- the root is put under the key of a transaction too, but a hash is no name
  have hne : ∀ {txid'}, contents txid' = none → txid' ≠ root := by
    rintro txid' hunknown' rfl
    rw [hunknown'] at hnewRoot
    cases hnewRoot
  refine ⟨_, hexec, ⟨?_, ?_⟩, fun key => addedTx_of_ne⟩
  · intro tid'
    by_cases htenant : tid' = tid
    · subst htenant
      have hisOf : ∀ txid', IsOf tid' txid' transaction ↔ txid' = txid := by
        intro txid'
        rw [IsOf, hisNamed]
        exact and_iff_right htid
      refine ⟨_, .inr ⟨data, by rw [addedTx_root]; exact hnewRoot⟩, ?_⟩
      exact links_snoc hisOf hS Function.injective_id hlinks htxHash
    · rcases h.root tid' with ⟨links', hroot', hlinks'⟩
      refine ⟨links', by rw [addedTx_root_of_ne htenant]; exact hroot', ?_⟩
      intro txid' hash
      have hother : ¬IsOf tid' txid' transaction := by
        rintro ⟨htid', -⟩
        rw [htid] at htid'
        cases htid'
        exact htenant rfl
      rw [latest_snoc_of_neg hother, hlinks']
  -- the keys do not tell tenants apart
  · apply keys_snoc hisNamed _ h.key
    · rw [addedTx_transaction (hne hunknown), if_pos rfl]
      exact htxHash
    · intro txid' hname transaction' hlatest
      rcases mem_of_latest hlatest with ⟨hmem, hnamed⟩
      rcases hbefore _ hmem with ⟨_, _, htxid', -, hunknown'⟩
      rw [IsNamed, htxid'] at hnamed
      cases hnamed
      rw [addedTx_transaction (hne hunknown'), if_neg hname]

/-- The loop over the transactions of a block. -/
theorem HoldsTransactions.append {i : Nat} {rest transactions : List Json}
    (h : HoldsTransactions S contents dht transactions)
    (hbefore : ∀ transaction ∈ transactions, Named contents transaction)
    (hnamed : ∀ transaction ∈ rest, Named contents transaction)
    (hserves : ServesEach S answers i rest dht) :
    ∃ dht', (addEach S answers i rest).exec dht = (dht', some ()) ∧
      HoldsTransactions S contents dht' (transactions ++ rest) ∧
      ∀ key, (∀ hash, key ≠ transactionKey hash) → (∀ tid, key ≠ txRootKey tid) →
        dht' key = dht key := by
  induction rest generalizing i dht transactions with
  | nil =>
      refine ⟨dht, rfl, ?_, fun _ _ _ => rfl⟩
      rwa [List.append_nil]
  | cons transaction rest ih =>
      rcases hserves with ⟨hfirst, hrest⟩
      -- the first transaction, and then the rest behind it
      rcases h.snoc hS hbefore (hnamed _ List.mem_cons_self) hfirst with
        ⟨dht₁, hexec₁, hholds₁, hframe₁⟩
      rw [hexec₁] at hrest
      have hbefore₁ : ∀ t ∈ transactions ++ [transaction], Named contents t := by
        intro t ht
        rcases List.mem_append.mp ht with hmem | hmem
        · exact hbefore t hmem
        · rw [List.mem_singleton.mp hmem]
          exact hnamed _ List.mem_cons_self
      rcases ih hholds₁ hbefore₁ (fun t ht => hnamed t (List.mem_cons_of_mem _ ht)) hrest with
        ⟨dht₂, hexec₂, hholds₂, hframe₂⟩
      refine ⟨dht₂, ?_, ?_, ?_⟩
      · rw [addEach, Prog.exec_bind, hexec₁]
        exact hexec₂
      · rwa [List.append_assoc, List.singleton_append] at hholds₂
      · intro key htransaction hroot
        rw [hframe₂ key htransaction hroot, hframe₁ key htransaction hroot]

/-- The block is linked with the answer of the services. -/
theorem exec_linkToRoot_served {answer : Option String} {tree objectId hash : String}
    {links : String → Option String} (hroot : Rooted contents (dht (rootKey tree)) links)
    (hhash : contents hash ≠ none)
    (hanswer : answer = if dht (rootKey tree) = "" then S.objectPut tree [(objectId, hash)]
      else S.objectPatchAddLink (dht (rootKey tree)) objectId hash) :
    ∃ root data, contents root = some (data, Function.update links objectId (some hash)) ∧
      (linkToRoot (S.answering answer) tree objectId hash "").exec dht =
        (Function.update dht (rootKey tree) root, some ()) := by
  rcases exec_linkToRoot hS hroot hhash objectId "" with ⟨root, data, hcontents, hexec⟩
  refine ⟨root, data, hcontents, ?_⟩
  have hsame : (linkToRoot (S.answering answer) tree objectId hash "").exec dht =
      (linkToRoot S tree objectId hash "").exec dht := by
    subst hanswer
    by_cases hempty : dht (rootKey tree) = "" <;> simp [linkToRoot, Prog.exec_bind, hempty]
  rw [hsame, hexec]
  rfl

end Steps

/-! ## Commits exist -/

section Exists

variable (S : Services) {answers answers' : BlockAnswers}

/-- The answers to the requests for the transactions from index `i` on are the same. -/
def AgreeFrom (i : Nat) (answers answers' : BlockAnswers) : Prop :=
  ∀ j, i ≤ j → answers (.transaction j) = answers' (.transaction j) ∧
    answers (.root j) = answers' (.root j) ∧ answers (.link j) = answers' (.link j)

variable {S}

theorem AgreeFrom.succ {i : Nat} (h : AgreeFrom i answers answers') :
    AgreeFrom (i + 1) answers answers' :=
  fun j hj => h j (by omega)

theorem AgreeFrom.addToTxTree_eq {i : Nat} (h : AgreeFrom i answers answers')
    (transaction : Json) : addToTxTree S answers i transaction =
      addToTxTree S answers' i transaction := by
  rcases h i (Nat.le_refl i) with ⟨htransaction, hroot, hlink⟩
  simp only [addToTxTree, htransaction, hroot, hlink]

theorem AgreeFrom.addEach_eq {i : Nat} {transactions : List Json}
    (h : AgreeFrom i answers answers') : addEach S answers i transactions =
      addEach S answers' i transactions := by
  induction transactions generalizing i with
  | nil => rfl
  | cons transaction rest ih => rw [addEach, addEach, h.addToTxTree_eq, ih h.succ]

theorem AgreeFrom.servesTransaction {i : Nat} {transaction : Json} {dht : String → String}
    (h : AgreeFrom i answers answers') (hserves : ServesTransaction S answers i transaction dht) :
    ServesTransaction S answers' i transaction dht := by
  rcases h i (Nat.le_refl i) with ⟨htransaction, hroot, hlink⟩
  refine ⟨htransaction ▸ hserves.added, fun htid => hroot ▸ hserves.root htid, ?_⟩
  intro txid tid htxid htid
  rw [← hlink, ← hroot, ← htransaction]
  exact hserves.link htxid htid

theorem AgreeFrom.servesEach {i : Nat} {transactions : List Json} {dht : String → String}
    (h : AgreeFrom i answers answers') (hserves : ServesEach S answers i transactions dht) :
    ServesEach S answers' i transactions dht := by
  induction transactions generalizing i dht with
  | nil => trivial
  | cons transaction rest ih =>
      rcases hserves with ⟨hfirst, hrest⟩
      rw [h.addToTxTree_eq] at hrest
      exact ⟨h.servesTransaction hfirst, ih h.succ hrest⟩

variable (S)

/-- What the services answer to the requests for a transaction. -/
def answersTo (transaction : Json) (dht : String → String) : BlockAnswers
  | .transaction _ => S.objectPut (S.dump transaction) []
  | .root _ => (transaction.stringAt "tid").bind fun tid => S.objectPut (txRootKey tid) []
  | .link _ => do
      let txid ← transaction.stringAt "txid"
      let tid ← transaction.stringAt "tid"
      let root := if dht (txRootKey tid) = "" then (S.objectPut (txRootKey tid) []).getD ""
        else dht (txRootKey tid)
      S.objectPatchAddLink root txid ((S.objectPut (S.dump transaction) []).getD "")
  | .block | .blockRoot => none

theorem servesTransaction_answersTo (i : Nat) (transaction : Json) (dht : String → String) :
    ServesTransaction S (answersTo S transaction dht) i transaction dht where
  added := rfl
  root := by
    intro tid htid
    simp [answersTo, htid]
  link := by
    intro txid tid htxid htid
    simp [answersTo, htxid, htid]

/-- The transactions of a block can be served. -/
theorem exists_servesEach (i : Nat) (transactions : List Json) (dht : String → String) :
    ∃ answers, ServesEach S answers i transactions dht := by
  induction transactions generalizing i dht with
  | nil => exact ⟨fun _ => none, trivial⟩
  | cons transaction rest ih =>
      let first := answersTo S transaction dht
      rcases ih (i + 1) ((addToTxTree S first i transaction).exec dht).1 with ⟨later, hlater⟩
      -- the requests of a transaction have its index, so the later answers may be chosen freely
      let answers : BlockAnswers := fun request =>
        if request = .transaction i ∨ request = .root i ∨ request = .link i then first request
        else later request
      have hfirst : addToTxTree S answers i transaction = addToTxTree S first i transaction := by
        simp [addToTxTree, answers]
      refine ⟨answers, ?_, ?_⟩
      · have hserves := servesTransaction_answersTo S i transaction dht
        exact ⟨by simpa [answers] using hserves.added, fun htid => by
          simpa [answers] using hserves.root htid, fun htxid htid => by
          simpa [answers] using hserves.link htxid htid⟩
      · rw [hfirst]
        have hagree : AgreeFrom (i + 1) later answers := by
          intro j hj
          have hne : j ≠ i := by omega
          simp [answers, hne]
        exact hagree.servesEach hlater

/-- Every commit may be served. -/
theorem exists_servesBlock (block : Json) (transactions : List Json) (dht : String → String) :
    ∃ answers, ServesBlock S answers block transactions dht := by
  rcases exists_servesEach S 0 transactions dht with ⟨each, heach⟩
  let dht' := ((addEach S each 0 transactions).exec dht).1
  let hash := (S.objectPut (S.dump block) []).getD ""
  let answers : BlockAnswers
    | .block => S.objectPut (S.dump block) []
    | .blockRoot => (block.longLongAt "n").bind fun n =>
        if dht' (rootKey blockTree) = "" then S.objectPut blockTree [(toString n, hash)]
        else S.objectPatchAddLink (dht' (rootKey blockTree)) (toString n) hash
    | request => each request
  have hagree : AgreeFrom 0 each answers := fun _ _ => ⟨rfl, rfl, rfl⟩
  refine ⟨answers, hagree.servesEach heach, rfl, ?_⟩
  intro n hn
  rw [← hagree.addEach_eq]
  simp only [answers, hn, Option.bind_some]
  rfl

end Exists

/-! ## Blocks -/

section Blocks

variable {S : Services} {contents : String → Option Contents} (hS : S.Lawful contents)
  {base64_encodeString : String → String} {dht dht' : String → String}

theorem HoldsTransactions.congr {transactions : List Json}
    (h : HoldsTransactions S contents dht transactions)
    (hroot : ∀ tid, dht' (txRootKey tid) = dht (txRootKey tid))
    (hkey : ∀ hash, dht' (transactionKey hash) = dht (transactionKey hash)) :
    HoldsTransactions S contents dht' transactions where
  root := by
    intro tid
    rw [hroot]
    exact h.root tid
  key := by
    intro txid transaction hlatest
    rw [hkey]
    exact h.key hlatest

/-- Only the keys of the transactions' own names matter. -/
theorem HoldsTransactions.keep {transactions : List Json}
    (h : HoldsTransactions S contents dht transactions)
    (hnamed : ∀ transaction ∈ transactions, Named contents transaction)
    (hroot : ∀ tid, dht' (txRootKey tid) = dht (txRootKey tid))
    (hkey : ∀ txid, contents txid = none → dht' (transactionKey txid) = dht (transactionKey txid)) :
    HoldsTransactions S contents dht' transactions where
  root := by
    intro tid
    rw [hroot]
    exact h.root tid
  key := by
    intro txid transaction hlatest
    rcases mem_of_latest hlatest with ⟨hmem, hname⟩
    rcases hnamed transaction hmem with ⟨txid', -, htxid', -, hunknown⟩
    cases hname.symm.trans htxid'
    rw [hkey txid hunknown]
    exact h.key hlatest

include hS

variable (base64_encodeString) in
/-- The store after a commit whose transactions have been added. -/
theorem exec_commit {answers : BlockAnswers} {input : String} {block : Json}
    {transactions : List Json} {n : Int} {dht₁ : String → String} {links : String → Option String}
    (hparse : S.parse input = some block) (hdata : block.get? "data" = some (.arr transactions))
    (hn : block.longLongAt "n" = some n)
    (hserves : ServesBlock S answers block transactions dht)
    (heach : (addEach S answers 0 transactions).exec dht = (dht₁, some ()))
    (hroot : Rooted contents (dht₁ (rootKey blockTree)) links) :
    ∃ hash root data, LeadsTo S contents hash block ∧
      contents root = some (data, Function.update links (toString n) (some hash)) ∧
      ((addTransactions S answers base64_encodeString input).exec dht).1 =
        Function.update (Function.update dht₁ (blockKey (toString n)) hash) (rootKey blockTree)
          root := by
  rcases hS.objects.put_nil (S.dump block) with ⟨hash, hput, hhash⟩
  have hadded : answers .block = some hash := hserves.added.trans hput
  -- the root is read behind the put of the block's key
  obtain ⟨σ, hσ⟩ : ∃ σ, Function.update dht₁ (blockKey (toString n)) hash = σ := ⟨_, rfl⟩
  have hread : σ (rootKey blockTree) = dht₁ (rootKey blockTree) := by
    rw [← hσ, Function.update_of_ne (blockKey_ne_rootKey _ _).symm]
  have hanswer : answers .blockRoot = if σ (rootKey blockTree) = "" then
      S.objectPut blockTree [(toString n, hash)]
      else S.objectPatchAddLink (σ (rootKey blockTree)) (toString n) hash := by
    rw [hserves.blockRoot hn, heach, hadded, Option.getD_some, hread]
  rw [← hread] at hroot
  rcases exec_linkToRoot_served hS hroot (by simp [hhash]) hanswer with
    ⟨root, data, hcontents, hlink⟩
  refine ⟨hash, root, data, hhash, hcontents, ?_⟩
  have haccess := access_of_get? hdata
  simp only [addTransactions, Prog.exec_bind, exec_orRaise, hparse, haccess, transactionsOf, heach,
    hn, exec_addObject, objectPut_answering, hadded, Option.getD_some, exec_dhtPut, hσ, hlink]
  -- what is gossiped changes nothing
  cases block.access "v" with
  | none => rfl
  | some v =>
      cases hfirst : v.1.first with
      | none => simp only [hfirst]
      | some j =>
          cases hset : j.setMember "n" (.str (toString n)) with
          | none => simp only [hfirst, hset]
          | some j => simp only [hfirst, hset, Prog.exec_pure]

/-- A commit makes the block the last one of its number. -/
theorem HoldsBlocks.commit {c : Commit} {block : Json} {transactions blocks ts : List Json}
    (hblocks : HoldsBlocks S contents dht blocks)
    (hholds : HoldsTransactions S contents dht ts)
    (hbefore : ∀ transaction ∈ ts, Named contents transaction)
    (hparse : S.parse c.input = some block) (hdata : block.get? "data" = some (.arr transactions))
    (hn : (block.longLongAt "n").isSome = true)
    (hnamed : ∀ transaction ∈ transactions, Named contents transaction)
    (hserves : ServesBlock S c.answers block transactions dht)
    (hstep : commitStep S base64_encodeString dht c = some dht') :
    HoldsTransactions S contents dht' (ts ++ transactions) ∧
      HoldsBlocks S contents dht' (blocks ++ [block]) := by
  cases hstep
  rcases Option.isSome_iff_exists.mp hn with ⟨n, hn⟩
  rcases hholds.append hS hbefore hnamed hserves.each with ⟨dht₁, heach, hholds₁, hframe⟩
  rcases hblocks.root with ⟨links, hroot, hlinks⟩
  rw [← hframe _ (rootKey_ne_transactionKey blockTree) blockRoot_ne_txRootKey] at hroot
  rcases exec_commit hS base64_encodeString hparse hdata hn hserves heach hroot with
    ⟨hash, root, data, hhash, hcontents, hexec⟩
  -- the block is written under its key and the root of the blocks
  have hother : ∀ {key}, key ≠ rootKey blockTree → key ≠ blockKey (toString n) →
      Function.update (Function.update dht₁ (blockKey (toString n)) hash) (rootKey blockTree) root
        key = dht₁ key := by
    intro key hne hne'
    rw [Function.update_of_ne hne, Function.update_of_ne hne']
  have hnumbered : ∀ n', IsNumbered n' block ↔ n' = n := by
    intro n'
    rw [IsNumbered, hn, Option.some.injEq, eq_comm]
  rw [hexec]
  constructor
  · apply hholds₁.congr
    · intro tid
      exact hother (blockRoot_ne_txRootKey tid).symm (blockKey_ne_rootKey _ _).symm
    · intro hash
      exact hother (rootKey_ne_transactionKey _ hash).symm (blockKey_ne_transactionKey _ hash).symm
  -- the root links the block under its number, and its key leads to it
  · refine ⟨⟨_, .inr ⟨data, by rw [Function.update_self]; exact hcontents⟩, ?_⟩, ?_⟩
    · have hinj : Function.Injective fun n : Int => toString n := fun _ _ => toString_inj.mp
      exact links_snoc hnumbered hS hinj hlinks hhash
    · apply keys_snoc hnumbered (fun n : Int => blockKey (toString n)) hblocks.key
      · rw [Function.update_of_ne (blockKey_ne_rootKey _ _), Function.update_self]
        exact hhash
      · intro n' hne _ _
        have hkey : blockKey (toString n') ≠ blockKey (toString n) :=
          mt (fun h => toString_inj.mp (blockKey_inj.mp h)) hne
        rw [hother (blockKey_ne_rootKey _ _) hkey]
        exact hframe _ (blockKey_ne_transactionKey _) fun tid => blockKey_ne_rootKey _ _

/-- A commit whose transactions have been added completes. -/
theorem completes_of_served {answers : BlockAnswers} {input : String} {block : Json}
    {transactions : List Json} {n : Int} {dht₁ : String → String} {links : String → Option String}
    (hparse : S.parse input = some block) (hsigned : Signed block)
    (hdata : block.get? "data" = some (.arr transactions))
    (hn : block.longLongAt "n" = some n)
    (hserves : ServesBlock S answers block transactions dht)
    (heach : (addEach S answers 0 transactions).exec dht = (dht₁, some ()))
    (hroot : Rooted contents (dht₁ (rootKey blockTree)) links) :
    ((addTransactions S answers base64_encodeString input).exec dht).2.isSome := by
  have htransactions : transactionsOf (dataOf block) = some transactions := by
    rw [dataOf, hdata, Option.getD_some, transactionsOf]
  -- the loop has come to its end
  rcases (exec_addEach 0 transactions dht).mp (by rw [heach]; rfl) with ⟨hformed, hlinks⟩
  rw [exec_addTransactions hparse hsigned]
  refine ⟨⟨⟨transactions, htransactions, hformed⟩, by simp [hn]⟩, ?_, ?_⟩
  · rw [transactionCount, htransactions, Option.getD_some]
    intro i hi
    simpa using hlinks i hi
  -- the object of the block is linked
  · rcases hS.objects.put_nil (S.dump block) with ⟨hash, hput, hhash⟩
    have hadded : answers .block = some hash := hserves.added.trans hput
    have hanswer := hserves.blockRoot hn
    rw [heach, hadded, Option.getD_some] at hanswer
    rcases exec_linkToRoot_served hS hroot (by simp [hhash]) hanswer with ⟨_, _, -, hlink⟩
    exact (exec_linkToRoot_answering (answers .blockRoot) blockTree (toString n) hash dht₁).mp
      (by rw [hlink]; rfl)

variable (base64_encodeString) in
/-- A commit that is served completes, and adds its transactions. -/
theorem HoldsTransactions.commit {answers : BlockAnswers} {input : String} {block : Json}
    {transactions ts : List Json} (hholds : HoldsTransactions S contents dht ts)
    (hbefore : ∀ transaction ∈ ts, Named contents transaction)
    (hblockRoot : ∃ links, Rooted contents (dht (rootKey blockTree)) links)
    (hparse : S.parse input = some block) (hsigned : Signed block)
    (hdata : block.get? "data" = some (.arr transactions))
    (hn : (block.longLongAt "n").isSome = true)
    (hnamed : ∀ transaction ∈ transactions, Named contents transaction)
    (hserves : ServesBlock S answers block transactions dht) :
    ∃ dht' fields, (addTransactions S answers base64_encodeString input).exec dht =
        (dht', some fields) ∧ HoldsTransactions S contents dht' (ts ++ transactions) ∧
      ∃ links, Rooted contents (dht' (rootKey blockTree)) links := by
  rcases Option.isSome_iff_exists.mp hn with ⟨n, hn⟩
  rcases hblockRoot with ⟨links, hroot⟩
  rcases hholds.append hS hbefore hnamed hserves.each with ⟨dht₁, heach, hholds₁, hframe⟩
  rw [← hframe _ (rootKey_ne_transactionKey blockTree) blockRoot_ne_txRootKey] at hroot
  have hcompletes : ((addTransactions S answers base64_encodeString input).exec dht).2.isSome :=
    completes_of_served hS hparse hsigned hdata hn hserves heach hroot
  rcases Option.isSome_iff_exists.mp hcompletes with ⟨fields, hfields⟩
  rcases exec_commit hS base64_encodeString hparse hdata hn hserves heach hroot with
    ⟨hash, root, data, -, hcontents, hexec⟩
  -- the keys of the block are none of a transaction
  have hother : ∀ {key}, key ≠ rootKey blockTree → key ≠ blockKey (toString n) →
      Function.update (Function.update dht₁ (blockKey (toString n)) hash) (rootKey blockTree) root
        key = dht₁ key := by
    intro key hne hne'
    rw [Function.update_of_ne hne, Function.update_of_ne hne']
  refine ⟨_, fields, Prod.ext hexec hfields, ?_, ?_⟩
  · apply hholds₁.congr
    · intro tid
      exact hother (blockRoot_ne_txRootKey tid).symm (blockKey_ne_rootKey _ _).symm
    · intro txid
      exact hother (rootKey_ne_transactionKey _ txid).symm (blockKey_ne_transactionKey _ txid).symm
  · have hself : Function.update (Function.update dht₁ (blockKey (toString n)) hash)
        (rootKey blockTree) root (rootKey blockTree) = root := Function.update_self ..
    exact ⟨_, .inr ⟨data, by rw [← hself] at hcontents; exact hcontents⟩⟩

omit hS in
theorem holdsTransactions_nil (hroots : ∀ tid, dht (txRootKey tid) = "") :
    HoldsTransactions S contents dht [] := by
  refine ⟨?_, nofun⟩
  intro tid
  refine ⟨_, .inl ⟨hroots tid, rfl⟩, ?_⟩
  simp

omit hS in
theorem holdsBlocks_nil (hroot : dht (rootKey blockTree) = "") :
    HoldsBlocks S contents dht [] := by
  refine ⟨⟨_, .inl ⟨hroot, rfl⟩, ?_⟩, nofun⟩
  simp

/-- After any commits, the trees hold the last occurrences of the transactions and blocks that
have been committed. -/
theorem holds_commits {cs : List Commit} (hroots : ∀ tid, dht (txRootKey tid) = "")
    (hroot : dht (rootKey blockTree) = "")
    (hrun : Trace (commitStep S base64_encodeString) (Commits S contents) dht cs dht') :
    HoldsTransactions S contents dht' ((blocksOf S cs).flatMap transactionsIn) ∧
      HoldsBlocks S contents dht' (blocksOf S cs) := by
  have hinv := hrun.invariant (fun cs dht =>
    (∀ transaction ∈ (blocksOf S cs).flatMap transactionsIn, Named contents transaction) ∧
      HoldsTransactions S contents dht ((blocksOf S cs).flatMap transactionsIn) ∧
      HoldsBlocks S contents dht (blocksOf S cs)) ?_ ?_
  · exact hinv.2
  · exact ⟨nofun, holdsTransactions_nil hroots, holdsBlocks_nil hroot⟩
  · rintro cs dht c dht' ⟨hbefore, hholds, hblocks⟩ ⟨block, transactions, hparse, hdata, hn, hnamed,
      hserves⟩ hstep
    have hsnoc : blocksOf S (cs ++ [c]) = blocksOf S cs ++ [block] := by
      simp [blocksOf, hparse]
    have htransactions : transactionsIn block = transactions := by
      simp [transactionsIn, dataOf, hdata, transactionsOf]
    rw [hsnoc, List.flatMap_append, List.flatMap_singleton, htransactions]
    refine ⟨?_, hblocks.commit hS hholds hbefore hparse hdata hn hnamed hserves hstep⟩
    intro transaction hmem
    rcases List.mem_append.mp hmem with h | h
    · exact hbefore _ h
    · exact hnamed _ h

end Blocks

namespace Sample

def store : Services := ObjectStore.unsearched fun _ => ""

theorem store_lawful : store.Lawful ObjectStore.contents := ObjectStore.unsearched_lawful _

def transaction (txid tid : String) : Json := .obj [("tid", .str tid), ("txid", .str txid)]

/-- A transaction with some data. -/
def transactionWith (txid tid data : String) : Json :=
  .obj [("data", .str data), ("tid", .str tid), ("txid", .str txid)]

def blockWith (n : Rat) (transactions : List Json) : Json :=
  .obj [("data", .arr transactions), ("n", .num n)]

theorem named_of_read {txid tid : String} (hread : Json.read txid = none) {transaction : Json}
    (htxid : transaction.stringAt "txid" = some txid)
    (htid : transaction.stringAt "tid" = some tid) : Named ObjectStore.contents transaction := by
  refine ⟨txid, tid, htxid, htid, ?_⟩
  rw [ObjectStore.contents, ObjectStore.stored, hread]
  rfl

/-- A block of named transactions may be committed at any time. -/
theorem exists_commit {n : Rat} {transactions : List Json}
    (hwell : (blockWith n transactions).WellFormed)
    (hnamed : ∀ transaction ∈ transactions, Named ObjectStore.contents transaction)
    (dht : String → String) :
    ∃ c, store.parse c.input = some (blockWith n transactions) ∧
      Commits store ObjectStore.contents dht c := by
  rcases exists_servesBlock store (blockWith n transactions) transactions dht with
    ⟨answers, hserves⟩
  have hparse := store_lawful.parse_dump hwell
  exact ⟨⟨_, answers⟩, hparse, _, _, hparse, rfl, rfl, hnamed, hserves⟩

/-- Two tenants have a transaction each. -/
def early : List Json := [transaction "a" "s", transaction "b" "t"]

/-- The second tenant repeats its transaction with other data, and the name of the other one. -/
def late : List Json := [transactionWith "b" "t" "x", transaction "a" "t"]

theorem named_early : ∀ transaction ∈ early, Named ObjectStore.contents transaction := by
  rintro _ (_ | ⟨_, _ | ⟨_, ⟨⟩⟩⟩)
  · exact named_of_read (by decide) rfl rfl
  · exact named_of_read (by decide) rfl rfl

theorem named_late : ∀ transaction ∈ late, Named ObjectStore.contents transaction := by
  rintro _ (_ | ⟨_, _ | ⟨_, ⟨⟩⟩⟩)
  · exact named_of_read (by decide) rfl rfl
  · exact named_of_read (by decide) rfl rfl

end Sample

/-- Two blocks of two tenants: a transaction comes again with other data, and a name for
another tenant. -/
theorem holds_commits_repeated :
    ∃ cs dht', Trace (commitStep Sample.store id) (Commits Sample.store ObjectStore.contents)
        (fun _ => "") cs dht' ∧
      blocksOf Sample.store cs =
        [Sample.blockWith 1 Sample.early, Sample.blockWith 2 Sample.late] ∧
      HoldsTransactions Sample.store ObjectStore.contents dht' (Sample.early ++ Sample.late) ∧
      HoldsBlocks Sample.store ObjectStore.contents dht'
        [Sample.blockWith 1 Sample.early, Sample.blockWith 2 Sample.late] := by
  rcases Sample.exists_commit (n := 1) ⟨by decide +kernel, by decide⟩ Sample.named_early
    fun _ => "" with ⟨c, hparse, hcommits⟩
  rcases Sample.exists_commit (n := 2) ⟨by decide +kernel, by decide⟩ Sample.named_late
    ((addTransactions Sample.store c.answers id c.input).exec fun _ => "").1 with
    ⟨c', hparse', hcommits'⟩
  have hrun : Trace (commitStep Sample.store id) (Commits Sample.store ObjectStore.contents)
      (fun _ => "") [c, c'] _ := .cons hcommits rfl (.single hcommits' rfl)
  have hholds := holds_commits Sample.store_lawful (fun _ => rfl) rfl hrun
  have hblocks : blocksOf Sample.store [c, c'] =
      [Sample.blockWith 1 Sample.early, Sample.blockWith 2 Sample.late] := by
    simp [blocksOf, hparse, hparse']
  rw [hblocks] at hholds
  exact ⟨_, _, hrun, hblocks, hholds⟩

/-- Two tenants use one name: the link below the root of the first one leads to its transaction,
and the key of the transaction to that of the other. -/
theorem name_shared :
    ∃ c dht', Sample.store.parse c.input = some (Sample.blockWith 1
        [Sample.transaction "a" "s", Sample.transaction "a" "t"]) ∧
      Commits Sample.store ObjectStore.contents (fun _ => "") c ∧
      commitStep Sample.store id (fun _ => "") c = some dht' ∧
      ∃ data links hash, ObjectStore.contents (dht' (txRootKey "s")) = some (data, links) ∧
        links "a" = some hash ∧ dht' (transactionKey "a") ≠ hash := by
  have hS := Sample.store_lawful
  have hnamed : ∀ transaction ∈ [Sample.transaction "a" "s", Sample.transaction "a" "t"],
      Named ObjectStore.contents transaction := by
    rintro _ (_ | ⟨_, _ | ⟨_, ⟨⟩⟩⟩)
    · exact Sample.named_of_read (by decide) rfl rfl
    · exact Sample.named_of_read (by decide) rfl rfl
  rcases Sample.exists_commit (n := 1) ⟨by decide +kernel, by decide⟩ hnamed fun _ => "" with
    ⟨c, hparse, hcommits⟩
  refine ⟨c, _, hparse, hcommits, rfl, ?_⟩
  rcases hcommits with ⟨block, transactions, hparse', hdata, hn, -, hserves⟩
  rw [hparse] at hparse'
  cases hparse'
  cases hdata
  have hstep : commitStep Sample.store id (fun _ => "") c = some _ := rfl
  -- the block holds both transactions
  have hholds := ((holdsBlocks_nil rfl).commit hS (holdsTransactions_nil fun _ => rfl) nofun
    hparse rfl hn hnamed hserves hstep).1
  -- the key has the last one of the name, the tree of the tenant its own
  have hlast : latest (IsNamed "a") [Sample.transaction "a" "s", Sample.transaction "a" "t"] =
      some (Sample.transaction "a" "t") := rfl
  have hlast' : latest (IsOf "s" "a") [Sample.transaction "a" "s", Sample.transaction "a" "t"] =
      some (Sample.transaction "a" "s") := rfl
  have hkey := hholds.key hlast
  rcases hholds.root "s" with ⟨links, hrooted, hlinks⟩
  rcases hS.objects.put_nil (Sample.store.dump (Sample.transaction "a" "s")) with ⟨hash, -, hhash⟩
  have hlink := (hlinks "a" hash).mpr ⟨_, hlast', hhash⟩
  have hsome : links "a" ≠ none := by simp [hlink]
  rcases hrooted.exists_data hsome with ⟨data, hroot⟩
  refine ⟨data, links, hash, hroot, hlink, ?_⟩
  intro hsame
  rw [hsame, LeadsTo, hhash, Option.some.injEq, Prod.mk.injEq] at hkey
  have hwrite : Sample.store.dump = Json.write := rfl
  -- one hash would make the two transactions one text
  have hparsed := congrArg Json.read hkey.1
  rw [hwrite, Json.read_write, Json.read_write] at hparsed
  exact absurd hparsed (by decide)

end DecentralizedCloud.Storage
