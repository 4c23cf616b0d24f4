import DecentralizedCloud.Common.Printing
import DecentralizedCloud.Storage.Objects

/-!
# Blocks

A master closes a block by sending it to a storage node: the handler of
`closeBlock` adds the producer's signature and queues the block under its number,
and `addTransactions` later commits its transactions and the block itself. The
masters then send their verifications, which the handler of `verifyBlock` adds to
the committed block.

Requests to IPFS may fail one by one, so a commit gets the answer to each of its
requests from outside (`BlockAnswers`). Whether it completes depends on the block and on
these answers only (`exec_addTransactions`): a failure to add an object is logged,
but a failure to link it raises.
-/

namespace DecentralizedCloud.Storage

open Schedule

def blockTree : String := "block"

def blockKey (blockId : String) : String := blockTree ++ "_" ++ blockId

/-- A block in the queue: its number and its text. -/
abbrev QueuedBlock := Int × String

/-! ## Handlers -/

section Handlers

variable (S : Services)

/-- The block that a message brings. -/
def payload (theFields : FieldValueMap) : Option Json := do
  let b ← theFields.at? "b"
  S.parse (S.base64_decode b)

/-- What the handler of `closeBlock` queues; `none` when an exception is logged. -/
def closeBlock (theFields : FieldValueMap) : Option QueuedBlock := do
  let block ← payload S theFields
  let blockNumber ← block.intAt "n"
  let k ← theFields.at? "key"
  let si ← theFields.at? "si"
  let verifier := Json.obj [("k", .str k), ("si", .str si)]
  let block ← block.setMember "v" (.arr [verifier])
  -- key and signature are bytes of the message, and the print may raise
  if block.prints then some (blockNumber, S.dump block) else none

/-- The handler of `verifyBlock`. -/
def verifyBlock (theFields : FieldValueMap) : Cmd Unit := do
  let d ← orRaise (theFields.at? "d")
  let block ← orRaise (S.parse (S.base64_decode d))
  let blockId ← orRaise (theFields.at? "b")
  let hash ← dhtGet (blockKey blockId)
  let obj ← fetchObject S hash
  let object_json ← orRaise (S.parse obj)
  let (v, object_json) ← orRaise (object_json.access "v")
  let v ← orRaise (v.pushBack block)
  let object_json ← orRaise (object_json.setMember "v" v)
  let objectHash ← addObject S (S.dump object_json)
  dhtPut (blockKey blockId) objectHash
  -- this root is not used: `linkToRoot` reads it again
  let _ ← dhtGet (rootKey blockTree)
  linkToRoot S blockTree blockId objectHash ""

end Handlers

/-! ## Committing a block -/

/-- The requests of a commit: three for the transaction with an index, two for the block. -/
inductive BlockRequest where
  | transaction (i : Nat)
  | root (i : Nat)
  | link (i : Nat)
  | block
  | blockRoot
deriving DecidableEq, Repr

/-- The hash that IPFS answers to each request, if it answers at all. -/
abbrev BlockAnswers := BlockRequest → Option String

/-- The services while IPFS gives one answer. -/
def Services.answering (S : Services) (answer : Option String) : Services :=
  { S with objectPut := fun _ _ => answer, objectPatchAddLink := fun _ _ _ => answer }

section Commit

variable (S : Services) (answers : BlockAnswers)

def addToTxTree (i : Nat) (transaction : Json) : Cmd Unit := do
  let txHash ← addObject (S.answering (answers (.transaction i))) (S.dump transaction)
  let txid ← orRaise (transaction.stringAt "txid")
  let tid ← orRaise (transaction.stringAt "tid")
  dhtPut (transactionKey txid) txHash
  let txRoot := rootKey (treeOf transactionTree tid)
  let txRootHash ← dhtGet txRoot
  let txRootHash ← (if txRootHash = "" then
      addObject (S.answering (answers (.root i))) txRoot
    else pure txRootHash)
  let newTxRootHash ←
    request ((S.answering (answers (.link i))).objectPatchAddLink txRootHash txid txHash)
  dhtPut (transactionKey newTxRootHash) txid
  dhtPut txRoot newTxRootHash

/-- The loop over the transactions, from the one with index `i` on. -/
def addEach : Nat → List Json → Cmd Unit
  | _, [] => .ret ()
  | i, transaction :: rest => do
      addToTxTree S answers i transaction
      addEach (i + 1) rest

/-- `json[i]` for all `i` below `size()`: no other value than an array has elements,
though most have a size. -/
def transactionsOf : Json → Option (List Json)
  | .arr transactions => some transactions
  | .null | .obj [] => some []
  | .bool _ | .num _ | .str _ | .obj (_ :: _) => none

/-- The fields that the commit gossips to `master21` in a `verifyBlock` message. -/
def addTransactions (base64_encodeString : String → String) (input : String) :
    Cmd FieldValueMap := do
  let block ← orRaise (S.parse input)
  let (data, block) ← orRaise (block.access "data")
  let transactions ← orRaise (transactionsOf data)
  addEach S answers 0 transactions
  let n ← orRaise (block.longLongAt "n")
  let blockId := toString n
  let objectHash ← addObject (S.answering (answers .block)) (S.dump block)
  dhtPut (blockKey blockId) objectHash
  linkToRoot (S.answering (answers .blockRoot)) blockTree blockId objectHash ""
  let (v, _) ← orRaise (block.access "v")
  let j ← orRaise v.first
  let j ← orRaise (j.setMember "n" (.str blockId))
  return [("b", base64_encodeString (S.dump j))]

end Commit

/-! ## When a commit completes -/

section Completes

variable {S : Services} {answers : BlockAnswers} {base64_encodeString : String → String}

/-- The transaction is an object with the texts that the commit reads. -/
def WellFormedTransaction (transaction : Json) : Prop :=
  (transaction.stringAt "txid").isSome ∧ (transaction.stringAt "tid").isSome

/-- The `data` of a block: nothing, or an array of transactions. -/
def WellFormedData (data : Json) : Prop :=
  ∃ transactions, transactionsOf data = some transactions ∧
    ∀ transaction ∈ transactions, WellFormedTransaction transaction

/-- No link of a commit with `count` transactions fails. -/
def Linked (answers : BlockAnswers) (count : Nat) : Prop :=
  (∀ i < count, (answers (.link i)).isSome) ∧ (answers .blockRoot).isSome

@[simp] theorem objectPatchAddLink_answering (S : Services) (answer : Option String)
    (hash name target : String) :
    (S.answering answer).objectPatchAddLink hash name target = answer := rfl

@[simp] theorem objectPut_answering (S : Services) (answer : Option String) (data : String)
    (links : List (String × String)) : (S.answering answer).objectPut data links = answer := rfl

/-- A root that is missing is added. -/
theorem exec_addMissing (S : Services) (root data : String) (σ : String → String) :
    (if root = "" then addObject S data else pure root : Cmd String).exec σ =
      (σ, some (if root = "" then (S.objectPut data []).getD "" else root)) := by
  split
  · exact exec_addObject σ data
  · rfl

/-- A failed request to add an object goes unnoticed. -/
theorem exec_addToTxTree (i : Nat) (transaction : Json) (σ : String → String) :
    ((addToTxTree S answers i transaction).exec σ).2.isSome ↔
      WellFormedTransaction transaction ∧ (answers (.link i)).isSome := by
  unfold addToTxTree WellFormedTransaction
  cases transaction.stringAt "txid" with
  | none => simp [Prog.exec_bind]
  | some txid =>
      cases transaction.stringAt "tid" with
      | none => simp [Prog.exec_bind]
      | some tid =>
          cases hlink : answers (.link i) <;> simp [Prog.exec_bind, exec_addMissing]

/-- The loop comes to its end if every transaction is well formed and its link is answered. -/
theorem exec_addEach (i : Nat) (transactions : List Json) (σ : String → String) :
    ((addEach S answers i transactions).exec σ).2.isSome ↔
      (∀ transaction ∈ transactions, WellFormedTransaction transaction) ∧
        ∀ j < transactions.length, (answers (.link (i + j))).isSome := by
  induction transactions generalizing i σ with
  | nil => simp [addEach]
  | cons transaction rest ih =>
      have hhead : ((addToTxTree S answers i transaction).exec σ).2.isSome ↔
          WellFormedTransaction transaction ∧ (answers (.link i)).isSome :=
        exec_addToTxTree i transaction σ
      have hlinks : (∀ j < (transaction :: rest).length, (answers (.link (i + j))).isSome) ↔
          (answers (.link i)).isSome ∧
            ∀ j < rest.length, (answers (.link (i + 1 + j))).isSome := by
        rw [List.length_cons]
        constructor
        · intro h
          refine ⟨h 0 (by omega), fun j hj => ?_⟩
          have hj' := h (j + 1) (by omega)
          rwa [show i + (j + 1) = i + 1 + j by omega] at hj'
        · rintro ⟨hfirst, hrest⟩ j hj
          cases j with
          | zero => exact hfirst
          | succ j =>
              have hj' := hrest j (by omega)
              rwa [show i + 1 + j = i + (j + 1) by omega] at hj'
      rw [addEach, Prog.exec_bind, List.forall_mem_cons, hlinks]
      -- the loop ends with the first transaction that raises
      rcases hexec : (addToTxTree S answers i transaction).exec σ with ⟨σ', _ | _⟩
      · rw [hexec] at hhead
        simp only [Option.isSome_none, Bool.false_eq_true, false_iff] at hhead ⊢
        tauto
      · rw [hexec] at hhead
        simp only [Option.isSome_some, true_iff] at hhead
        rw [ih]
        tauto

theorem exec_linkToRoot_answering (answer : Option String) (tree objectId objectHash : String)
    (σ : String → String) :
    ((linkToRoot (S.answering answer) tree objectId objectHash "").exec σ).2.isSome ↔
      answer.isSome := by
  unfold linkToRoot
  by_cases hroot : σ (rootKey tree) = "" <;> cases answer <;> simp [Prog.exec_bind, hroot]

/-! ### Blocks as they are queued -/

/-- The `data` of a block; a missing one is added as `null`. -/
def dataOf (block : Json) : Json := (block.get? "data").getD .null

def transactionCount (block : Json) : Nat := ((transactionsOf (dataOf block)).getD []).length

/-- The commit finds what it reads in the block. -/
def Committable (block : Json) : Prop :=
  WellFormedData (dataOf block) ∧ (block.longLongAt "n").isSome

theorem committable_congr {block block' : Json} (hdata : block.get? "data" = block'.get? "data")
    (hn : block.get? "n" = block'.get? "n") : Committable block ↔ Committable block' := by
  simp only [Committable, dataOf, Json.longLongAt, hdata, hn]

/-- A block with the signature that the handler adds. -/
structure Signed (block : Json) : Prop where
  members : ∃ ms, block = .obj ms
  verifier : ∃ k si, block.get? "v" = some (.arr [.obj [("k", .str k), ("si", .str si)]])

theorem access_of_get? {j value : Json} {key : String} (h : j.get? key = some value) :
    j.access key = some (value, j) := by
  cases j with
  | obj members =>
      have hlookup : members.lookup key = some value := h
      simp only [Json.access, hlookup]
  | null | bool b | num q | str s | arr xs => cases h

/-- Reading the data changes nothing that the commit reads later. -/
theorem access_data {block : Json} (h : Signed block) :
    ∃ block', block.access "data" = some (dataOf block, block') ∧
      ∀ key ≠ "data", block'.get? key = block.get? key := by
  rcases h.members with ⟨members, rfl⟩
  cases hdata : members.lookup "data" with
  | some data =>
      have hget : (Json.obj members).get? "data" = some data := hdata
      refine ⟨.obj members, ?_, fun _ _ => rfl⟩
      rw [access_of_get? hget, dataOf, hget, Option.getD_some]
  | none =>
      refine ⟨.obj (Json.insertMember "data" .null members), ?_, ?_⟩
      · simp [Json.access, dataOf, Json.get?, hdata]
      · intro key hkey
        simp [Json.get?, hkey]

/-- A signed block is committed if its data is right and every link of it is answered. -/
theorem exec_addTransactions {input : String} {block : Json} (hparse : S.parse input = some block)
    (hsigned : Signed block) (σ : String → String) :
    ((addTransactions S answers base64_encodeString input).exec σ).2.isSome ↔
      Committable block ∧ Linked answers (transactionCount block) := by
  rcases access_data hsigned with ⟨block', haccess, hsame⟩
  rcases hsigned.verifier with ⟨k, si, hv⟩
  have hn : block'.longLongAt "n" = block.longLongAt "n" := by
    unfold Json.longLongAt
    rw [hsame "n" (by decide)]
  have hv' := access_of_get? ((hsame "v" (by decide)).trans hv)
  unfold addTransactions Committable WellFormedData Linked transactionCount
  cases htransactions : transactionsOf (dataOf block) with
  -- the data has no transactions to go through
  | none => simp [Prog.exec_bind, hparse, haccess, htransactions]
  | some transactions =>
      have heach : ((addEach S answers 0 transactions).exec σ).2.isSome ↔
          (∀ transaction ∈ transactions, WellFormedTransaction transaction) ∧
            ∀ j < transactions.length, (answers (.link (0 + j))).isSome :=
        exec_addEach 0 transactions σ
      simp only [Prog.exec_bind, exec_orRaise, hparse, haccess, htransactions, Option.getD_some,
        Option.some.injEq, exists_eq_left']
      -- the loop over the transactions
      rcases hexec : (addEach S answers 0 transactions).exec σ with ⟨σ', _ | _⟩
      · rw [hexec] at heach
        simp only [Option.isSome_none, Bool.false_eq_true, false_iff, Nat.zero_add] at heach ⊢
        tauto
      · rw [hexec] at heach
        simp only [Option.isSome_some, true_iff, Nat.zero_add] at heach
        cases hnumber : block.longLongAt "n" with
        | none => simp [hn, hnumber]
        | some n =>
            simp only [hn, hnumber, exec_addObject, exec_dhtPut, objectPut_answering]
            generalize (answers .block).getD "" = objectHash
            generalize Function.update σ' (blockKey (toString n)) objectHash = σ''
            -- the block itself is linked at the end
            have hlink := exec_linkToRoot_answering (S := S) (answers .blockRoot) blockTree
              (toString n) objectHash σ''
            rcases hexec : (linkToRoot (S.answering (answers .blockRoot)) blockTree (toString n)
              objectHash "").exec σ'' with ⟨σ₁, _ | _⟩
            · rw [hexec] at hlink
              simp only [Option.isSome_none, Bool.false_eq_true, false_iff] at hlink ⊢
              tauto
            · rw [hexec] at hlink
              simp only [Option.isSome_some, true_iff] at hlink
              simpa [hv', Json.first, Json.setMember, hlink] using heach

theorem eq_obj_of_intAt {j : Json} {key : String} {n : Int} (h : j.intAt key = some n) :
    ∃ members, j = .obj members := by
  cases j with
  | obj members => exact ⟨members, rfl⟩
  | null | bool b | num q | str s | arr xs => cases h

/-- What the handler queues is the block with the signature. -/
theorem closeBlock_eq_some (hlaws : JsonLaws S.parse S.dump) {theFields : FieldValueMap}
    {b : QueuedBlock} (h : closeBlock S theFields = some b) :
    ∃ sent block, payload S theFields = some sent ∧ sent.intAt "n" = some b.1 ∧
      S.parse b.2 = some block ∧ Signed block ∧ ∀ key ≠ "v", block.get? key = sent.get? key := by
  simp only [closeBlock, Option.bind_eq_bind, Option.bind_eq_some_iff,
    Option.ite_none_right_eq_some, Option.some.injEq] at h
  rcases h with ⟨sent, hsent, n, hn, k, -, si, -, block, hset, hprints, rfl⟩
  rcases eq_obj_of_intAt hn with ⟨members, rfl⟩
  cases hset
  have hmessage : Json.WellFormed (.obj members) := by
    rcases Option.bind_eq_some_iff.mp hsent with ⟨b, -, hparse⟩
    exact hlaws.wellFormed hparse
  have hverifier : (Json.arr [.obj [("k", .str k), ("si", .str si)]]).held = true := by
    have hkeys : "k" < "si" := by decide
    rw [Json.held_arr, List.forall_mem_singleton, Json.held_obj, List.pairwise_pair]
    exact ⟨hkeys, by simp [Json.held]⟩
  have hblock : (Json.obj (Json.insertMember "v" _ members)).held = true :=
    Json.held_insertMember hmessage.held hverifier
  refine ⟨_, _, hsent, hn, hlaws.parse_dump ⟨hblock, hprints⟩, ⟨⟨_, rfl⟩, k, si, ?_⟩, ?_⟩
  · simp [Json.get?]
  · intro key hkey
    simp [Json.get?, hkey]

/-- A block with a number is queued when its signature and the key can be printed. -/
theorem exists_closeBlock (hlaws : JsonLaws S.parse S.dump) {theFields : FieldValueMap} {sent : Json}
    {n : Int} {k si : String} (hsent : payload S theFields = some sent)
    (hn : sent.intAt "n" = some n) (hkey : theFields.at? "key" = some k)
    (hsi : theFields.at? "si" = some si) (hk : Utf8.isUtf8 k = true)
    (hprints : Utf8.isUtf8 si = true) : ∃ text, closeBlock S theFields = some (n, text) := by
  have hmessage : sent.WellFormed := by
    rcases Option.bind_eq_some_iff.mp hsent with ⟨b, -, hparse⟩
    exact hlaws.wellFormed hparse
  have hverifier : (Json.arr [.obj [("k", .str k), ("si", .str si)]]).WellFormed := by
    have hkeys : "k" < "si" := by decide
    have hnames : Utf8.isUtf8 "k" = true ∧ Utf8.isUtf8 "si" = true := by decide
    rw [Json.wellFormed_arr, List.forall_mem_singleton, Json.wellFormed_obj, List.pairwise_pair]
    refine ⟨hkeys, ?_⟩
    intro member hmember
    rcases List.mem_pair.mp hmember with rfl | rfl
    · exact ⟨hnames.1, Json.wellFormed_str hk⟩
    · exact ⟨hnames.2, Json.wellFormed_str hprints⟩
  rcases eq_obj_of_intAt hn with ⟨members, rfl⟩
  have hblock := hmessage.setMember (by decide : Utf8.isUtf8 "v" = true) hverifier rfl
  simp only [closeBlock, hsent, hn, hkey, hsi, Option.bind_eq_bind, Option.bind_some]
  exact ⟨_, if_pos hblock.prints⟩

end Completes

end DecentralizedCloud.Storage
