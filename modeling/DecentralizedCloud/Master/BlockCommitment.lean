import DecentralizedCloud.Master.VerifyBlock

/-!
# What the hash of a block commits to

The hash of a block is computed from its number, its link, its time and the ids
of its transactions, written behind each other. Nothing else of a transaction
goes into it, and neither do the borders between the ids. So two lists of
transactions give one hash as soon as their ids concatenate to the same text
(`hash_commits`), whatever their functions, inputs, outputs, keys and timestamps
are; when the ids have one length, as those of `getGUID` have, the lists have
the same ids.

A producer's signature covers the hash. An accepted block therefore shows that
the producer's block has the ids of the block that the master holds, and no more.
-/

namespace DecentralizedCloud

open Master

/-- Texts of one positive length can be read back from their concatenation. -/
theorem eq_of_join_eq {k : Nat} (hk : 0 < k) {xs ys : List String}
    (hxs : ∀ x ∈ xs, x.length = k) (hys : ∀ y ∈ ys, y.length = k)
    (h : String.join xs = String.join ys) : xs = ys := by
  have hlists : xs.flatMap String.toList = ys.flatMap String.toList := by
    rw [← String.toList_join, ← String.toList_join, h]
  clear h
  have hempty : ∀ {s : String}, s.length = k → s.toList ≠ [] := by
    intro s hs hnil
    rw [← String.length_toList, hnil, List.length_nil] at hs
    omega
  induction xs generalizing ys with
  | nil =>
      -- an empty list has an empty text, and no other list has
      cases ys with
      | nil => rfl
      | cons y ys =>
          rw [List.flatMap_nil, List.flatMap_cons] at hlists
          exact absurd (List.append_eq_nil_iff.mp hlists.symm).1 (hempty (hys y List.mem_cons_self))
  | cons x xs ih =>
      cases ys with
      | nil =>
          rw [List.flatMap_nil, List.flatMap_cons] at hlists
          exact absurd (List.append_eq_nil_iff.mp hlists).1 (hempty (hxs x List.mem_cons_self))
      | cons y ys =>
          rw [List.flatMap_cons, List.flatMap_cons] at hlists
          -- the first texts have one length, so they are the same
          have hlength : x.toList.length = y.toList.length := by
            rw [String.length_toList, String.length_toList, hxs x List.mem_cons_self,
              hys y List.mem_cons_self]
          rcases List.append_inj hlists hlength with ⟨hhead, htail⟩
          rw [String.toList_inj.mp hhead, ih (fun x' hx' => hxs x' (List.mem_cons_of_mem x hx'))
            (fun y' hy' => hys y' (List.mem_cons_of_mem y hy')) htail]

section

variable {P : Platform} {L : NodeLibrary} {env : Env} {m : Master} {f : FieldValueMap}
  {number : Nat} {previousHash : String} {time : Int} {txs txs' : List Transaction}

/-- A block that `getBlock` makes has the hash of its transactions. -/
theorem makeBlock_hash : (makeBlock P env number previousHash txs).hash =
    calculateBlockHash P number previousHash txs env.now := by
  simp [makeBlock, calculateBlockHash, Function.comp_def, Transaction.setBlockId]

/-- Without collisions, equal hashes mean equal concatenations of ids. -/
theorem calculateBlockHash_eq_iff (hinj : Function.Injective P.infoHash) :
    calculateBlockHash P number previousHash txs time =
        calculateBlockHash P number previousHash txs' time ↔
      String.join (txs.map (·.txId)) = String.join (txs'.map (·.txId)) := by
  rw [calculateBlockHash, calculateBlockHash, hinj.eq_iff, hashInput_inj]

/-- An accepted block: the signature of the message verifies over the hash of the
block that the master holds under that number. -/
theorem signature_of_accepts (h : Accepts P L env m f) :
    ∃ r block, blockRequest P L f = some r ∧ m.blocks.lookup (blockKey r.bid) = some block ∧
      L.verifyX509Signature block.hash r.s r.producerPKey = true := by
  rcases accepts_iff.mp h with ⟨r, block, _, _, hr, hblock, -, -, -, -, -, hsig⟩
  exact ⟨r, block, hr, hblock, hsig⟩

/-- For one number, link and time, without collisions: two lists of transactions
have one block hash if and only if their ids concatenate to one text, and, when
all ids have one length, if and only if they have the same ids. A master that
accepts a block whose signature verifies over nothing but the hash of `txs'` holds
a block of transactions with the same concatenation of ids. -/
theorem hash_commits (hinj : Function.Injective P.infoHash) (number : Nat) (previousHash : String)
    (time : Int) (txs txs' : List Transaction) :
    (calculateBlockHash P number previousHash txs time =
        calculateBlockHash P number previousHash txs' time ↔
      String.join (txs.map (·.txId)) = String.join (txs'.map (·.txId))) ∧
    (∀ k, 0 < k → (∀ tx ∈ txs ++ txs', tx.txId.length = k) →
      (calculateBlockHash P number previousHash txs time =
          calculateBlockHash P number previousHash txs' time ↔
        txs.map (·.txId) = txs'.map (·.txId))) ∧
    ∀ L env m f r block, Accepts P L env m f → blockRequest P L f = some r →
      m.blocks.lookup (blockKey r.bid) = some block →
      block.hash = calculateBlockHash P number previousHash txs time →
      (∀ hash, L.verifyX509Signature hash r.s r.producerPKey = true →
        hash = calculateBlockHash P number previousHash txs' time) →
      String.join (txs.map (·.txId)) = String.join (txs'.map (·.txId)) := by
  refine ⟨calculateBlockHash_eq_iff hinj, ?_, ?_⟩
  · intro k hk hlength
    rw [calculateBlockHash_eq_iff hinj]
    constructor
    · apply eq_of_join_eq hk
      · intro x hx
        rcases List.mem_map.mp hx with ⟨tx, htx, rfl⟩
        exact hlength tx (List.mem_append_left txs' htx)
      · intro x hx
        rcases List.mem_map.mp hx with ⟨tx, htx, rfl⟩
        exact hlength tx (List.mem_append_right txs htx)
    · intro hids
      rw [hids]
  · intro L env m f r block haccepts hr hblock hhash hsigned
    -- the signature over the hash of the block is one over the hash of `txs'`
    rcases signature_of_accepts haccepts with ⟨r', block', hr', hblock', hsig⟩
    rw [hr] at hr'
    cases hr'
    rw [hblock] at hblock'
    cases hblock'
    have hsame : calculateBlockHash P number previousHash txs time =
        calculateBlockHash P number previousHash txs' time := by
      rw [← hhash]
      exact hsigned block.hash hsig
    exact (calculateBlockHash_eq_iff hinj).mp hsame

end

/-! ## One id, two outputs -/

namespace Sample

/-- The transaction as a master holds it, and as the producer has sent it. -/
def heldTx : Transaction := { tx with output := "out" }
def sentTx : Transaction := { tx with output := "forged" }

def otherTx : Transaction := { tx with txId := "tx2", output := "other" }

def heldTxs : List Transaction := [heldTx, otherTx]
def sentTxs : List Transaction := [sentTx, otherTx]

def heldBlock : Block := makeBlock entryPlatform env 7 "hash6" heldTxs
def sentBlock : Block := makeBlock entryPlatform env 7 "hash6" sentTxs

/-- "k1" has signed the block that it sent. -/
def signedLibrary : NodeLibrary :=
  { library with
    verifyX509Signature := fun message signature key =>
      message = sentBlock.hash && signature = "c2ln" && key = "k1" }

def holdingMaster : Master := { verifyingMaster with blocks := [(7, heldBlock)] }

/-- The message of the storage node. -/
def entryFields : FieldValueMap :=
  verifyBlockFields signedLibrary (signedLibrary.base64_encodeString "k1") "c2ln" 7 102

end Sample

/-- The master that accepts the block holds one with the same ids; in another order they make
another hash. -/
theorem hash_commits_accepted :
    String.join (Sample.heldTxs.map (·.txId)) = String.join (Sample.sentTxs.map (·.txId)) ∧
      calculateBlockHash Sample.entryPlatform 7 "hash6" Sample.heldTxs 100 ≠
        calculateBlockHash Sample.entryPlatform 7 "hash6" Sample.heldTxs.reverse 100 := by
  constructor
  case right =>
      have hids := (hash_commits (P := Sample.entryPlatform) Sample.digest_injective 7 "hash6" 100
        Sample.heldTxs Sample.heldTxs.reverse).2.1 3 (by decide) (by decide)
      rw [Ne, hids]
      decide
  obtain ⟨-, -, haccepted⟩ := hash_commits (P := Sample.entryPlatform) Sample.digest_injective 7
    "hash6" 100 Sample.heldTxs Sample.sentTxs
  refine haccepted Sample.signedLibrary Sample.env Sample.holdingMaster Sample.entryFields
    ⟨"k1", "c2ln", "7", 7, "102"⟩ Sample.heldBlock (by decide +kernel) rfl rfl makeBlock_hash ?_
  intro hash hsigned
  have hhash : hash = Sample.sentBlock.hash := by
    simpa [Sample.signedLibrary] using hsigned
  rw [hhash]
  exact makeBlock_hash

/-- The two blocks have one hash and different data, and the block that was sent is
accepted by a master that holds the other one. -/
theorem same_hash_other_data :
    calculateBlockHash Sample.entryPlatform 7 "hash6" Sample.heldTxs 100 =
        calculateBlockHash Sample.entryPlatform 7 "hash6" Sample.sentTxs 100 ∧
      Sample.heldBlock.data ≠ Sample.sentBlock.data ∧
      Accepts Sample.entryPlatform Sample.signedLibrary Sample.env Sample.holdingMaster
        Sample.entryFields := by
  refine ⟨by decide +kernel, ?_, by decide +kernel⟩
  intro hdata
  have houtputs := congrArg (fun j => j.elems.map fun tx => tx.stringAt "o") hdata
  revert houtputs
  decide +kernel

end DecentralizedCloud
