import DecentralizedCloud.Common.Printing
import Mathlib.Data.Rat.Cast.Defs

/-!
# Transactions

The class `Transaction` as a record, with its three constructors, its setters,
the vote counter behind `verifyHash` and its JSON form.

Two parts of a transaction travel separately: the counter, the pinned hash and
the flags belong to the node, the other members are filled in from the JSON
form of the originating node by `fromJson`. The hash and the output are in both
parts: `fromJson` overwrites them and leaves the counter and the flags alone.
-/

namespace DecentralizedCloud

/-- `TOTAL_MASTER_NODES` -/
def totalMasterNodes : Nat := 21

structure Transaction where
  sentToClient : Bool := false
  receivedOutput : Bool := false
  receivedFullTransaction : Bool := false
  totalVerified : Nat := 0
  lastValidHash : String := ""
  inBlock : Bool := false
  timestamp : Int := 0
  txId : String := ""
  blockId : Nat := 0
  computeNode : Bool := false
  tenantId : String := ""
  masterNodeId : String := ""
  computeNodeId : String := ""
  code : String := ""
  signature : String := ""
  publicKey : String := ""
  output : String := ""
  input : String := ""
  exception : String := ""
deriving DecidableEq, Repr

namespace Transaction

/-- The constructor used by the originating master. -/
def ofOrigin (txId : String) (timestamp : Int) : Transaction :=
  { txId, timestamp, receivedFullTransaction := true, computeNode := true }

/-- The constructor used by a master that receives a verification result for a
transaction it does not know. -/
def ofResult (txId hash : String) (timestamp : Int) : Transaction :=
  { txId, lastValidHash := hash, timestamp }

def setOutput (tx : Transaction) (output : String) : Transaction :=
  { tx with output, receivedOutput := true }

def setFunctionId (tx : Transaction) (id : String) : Transaction := { tx with code := id }

def setException (tx : Transaction) (exception : String) : Transaction := { tx with exception }

def setBlockId (tx : Transaction) (blockId : Nat) : Transaction := { tx with blockId }

def setComputeNodeId (tx : Transaction) (id : String) : Transaction :=
  { tx with computeNodeId := id }

def setSentToClient (tx : Transaction) : Transaction := { tx with sentToClient := true }

def setInBlock (tx : Transaction) : Transaction := { tx with inBlock := true }

def incrementTotalVerified (tx : Transaction) : Transaction :=
  { tx with totalVerified := tx.totalVerified + 1 }

/-- `verifyHash`: the first hash is pinned, a later one counts when it is the pinned one. -/
def verifyHash (tx : Transaction) (hash : String) : Transaction × Bool :=
  if tx.lastValidHash = "" then
    ({ tx with lastValidHash := hash }.incrementTotalVerified, true)
  else if hash = tx.lastValidHash then (tx.incrementTotalVerified, true)
  else (tx, false)

/-- `canSend` -/
def canSend (tx : Transaction) : Bool := !tx.sentToClient && tx.computeNode

/-- `isVerified`: `MAJORITY_THRESHOLD` is two thirds of `TOTAL_MASTER_NODES`. -/
def isVerified (tx : Transaction) : Bool :=
  decide (2 * totalMasterNodes ≤ 3 * tx.totalVerified) && tx.receivedFullTransaction &&
    tx.receivedOutput

/-- The library sorts the members by their keys. -/
def toJson (tx : Transaction) : Json :=
  .obj [
    ("cid", .str tx.computeNodeId),
    ("co", .str tx.code),
    ("e", .str tx.exception),
    ("h", .str tx.lastValidHash),
    ("i", .str tx.input),
    ("k", .str tx.publicKey),
    ("mid", .str tx.masterNodeId),
    ("o", .str tx.output),
    ("s", .str tx.signature),
    ("t", .num tx.timestamp),
    ("tid", .str tx.tenantId),
    ("txid", .str tx.txId)]

/-- The members that `fromJson` reads, in order. -/
def fromJsonKeys : List String :=
  ["txid", "t", "h", "mid", "cid", "tid", "s", "k", "co", "o", "i", "e"]

/-- The reads come to a member that is missing, before one of the wrong type
raises. What `fromJson` does then is undefined, since `operator[]` of a constant
object does not look whether the key is there; a value that is no object raises. -/
def readsMissing (j : Json) : List String → Bool
  | [] => false
  | key :: keys =>
      match j, j.get? key with
      | .obj _, none => true
      | _, none => false
      | _, some _ => (if key = "t" then (j.timeAt key).isSome else (j.stringAt key).isSome) &&
          readsMissing j keys

/-- The assignments of `fromJson`, in order. -/
def fromJsonAssignments (j : Json) : List (Assignment Transaction) :=
  [ fun tx => (j.stringAt "txid").map fun v => { tx with txId := v },
    fun tx => (j.timeAt "t").map fun v => { tx with timestamp := v },
    fun tx => (j.stringAt "h").map fun v => { tx with lastValidHash := v },
    fun tx => (j.stringAt "mid").map fun v => { tx with masterNodeId := v },
    fun tx => (j.stringAt "cid").map fun v => { tx with computeNodeId := v },
    fun tx => (j.stringAt "tid").map fun v => { tx with tenantId := v },
    fun tx => (j.stringAt "s").map fun v => { tx with signature := v },
    fun tx => (j.stringAt "k").map fun v => { tx with publicKey := v },
    fun tx => (j.stringAt "co").map fun v => { tx with code := v },
    fun tx => (j.stringAt "o").map fun v => { tx with output := v },
    fun tx => (j.stringAt "i").map fun v => { tx with input := v },
    fun tx => (j.stringAt "e").map fun v => { tx with exception := v },
    fun tx => some { tx with receivedFullTransaction := true } ]

/-- `fromJson`, when its reads are defined; `false` when a read raised. -/
def fromJson (j : Json) (tx : Transaction) : Transaction × Bool :=
  assignAll (fromJsonAssignments j) tx

/-! ## The verified state -/

/-- Two thirds of 21 nodes are 14. -/
theorem isVerified_iff (tx : Transaction) :
    tx.isVerified = true ↔
      14 ≤ tx.totalVerified ∧ tx.receivedFullTransaction = true ∧ tx.receivedOutput = true := by
  have hcount : 2 * totalMasterNodes ≤ 3 * tx.totalVerified ↔ 14 ≤ tx.totalVerified := by
    unfold totalMasterNodes
    omega
  simp [isVerified, hcount, and_assoc]

/-! ## What `fromJson` does -/

/-- `tx'` arose from `tx` by assignments from `j`: the counter and the flags
are those of `tx`, the members read later on are old or come from `j`. -/
structure FilledFrom (j : Json) (tx tx' : Transaction) : Prop where
  sentToClient : tx'.sentToClient = tx.sentToClient
  receivedOutput : tx'.receivedOutput = tx.receivedOutput
  totalVerified : tx'.totalVerified = tx.totalVerified
  inBlock : tx'.inBlock = tx.inBlock
  computeNode : tx'.computeNode = tx.computeNode
  txId : tx'.txId = tx.txId ∨ j.stringAt "txid" = some tx'.txId
  lastValidHash : tx'.lastValidHash = tx.lastValidHash ∨ j.stringAt "h" = some tx'.lastValidHash
  output : tx'.output = tx.output ∨ j.stringAt "o" = some tx'.output

theorem FilledFrom.refl (j : Json) (tx : Transaction) : FilledFrom j tx tx :=
  ⟨rfl, rfl, rfl, rfl, rfl, .inl rfl, .inl rfl, .inl rfl⟩

/-- One more assignment of `fromJson`. -/
theorem FilledFrom.step {j : Json} {tx s s' : Transaction} {f : Assignment Transaction}
    (hf : f ∈ fromJsonAssignments j) (hs : FilledFrom j tx s) (hstep : f s = some s') :
    FilledFrom j tx s' := by
  rcases hs with ⟨h₁, h₂, h₃, h₄, h₅, h₆, h₇, h₈⟩
  simp only [fromJsonAssignments, List.mem_cons, List.not_mem_nil, or_false] at hf
  rcases hf with rfl | rfl | rfl | rfl | rfl | rfl | rfl | rfl | rfl | rfl | rfl | rfl | rfl
  -- the last assignment sets the flag, the others read a member
  case inr.inr.inr.inr.inr.inr.inr.inr.inr.inr.inr.inr =>
      cases hstep
      exact ⟨h₁, h₂, h₃, h₄, h₅, h₆, h₇, h₈⟩
  all_goals
    rcases Option.map_eq_some_iff.mp hstep with ⟨v, hv, rfl⟩
    constructor <;> simp_all

/-- Running any of the assignments of `fromJson`. -/
theorem filledFrom_assignAll {j : Json} {fs : List (Assignment Transaction)}
    (hfs : fs ⊆ fromJsonAssignments j) (tx : Transaction) :
    FilledFrom j tx (assignAll fs tx).1 := by
  apply assignAll_preserves
  · intro f hf s s' hs hstep
    exact hs.step (hfs hf) hstep
  · exact .refl j tx

theorem filledFrom_fromJson (j : Json) (tx : Transaction) : FilledFrom j tx (fromJson j tx).1 :=
  filledFrom_assignAll (fun _ h => h) tx

/-- The id is assigned first, so it is there even when a later read raises. -/
theorem fromJson_txId {j : Json} {id : String} (hid : j.stringAt "txid" = some id)
    (tx : Transaction) : (fromJson j tx).1.txId = id := by
  have hrest : FilledFrom j { tx with txId := id }
      (assignAll (fromJsonAssignments j).tail { tx with txId := id }).1 :=
    filledFrom_assignAll (fun _ h => List.mem_of_mem_tail h) _
  -- what the other assignments read is the same id again
  have hfirst : fromJson j tx = assignAll (fromJsonAssignments j).tail { tx with txId := id } := by
    simp [fromJson, fromJsonAssignments, assignAll, hid]
  rw [hfirst]
  rcases hrest.txId with h | h
  · exact h
  · rw [hid] at h
    exact (Option.some.inj h).symm

/-- Whether a read raises depends on the JSON value only. -/
theorem fromJson_complete {j : Json} {tx : Transaction} (h : (fromJson j tx).2 = true)
    (tx' : Transaction) : (fromJson j tx').2 = true := by
  rw [← h]
  apply assignAll_snd_eq
  intro f hf s s'
  simp only [fromJsonAssignments, List.mem_cons, List.not_mem_nil, or_false] at hf
  rcases hf with rfl | rfl | rfl | rfl | rfl | rfl | rfl | rfl | rfl | rfl | rfl | rfl | rfl <;>
    simp

/-- A transaction that is filled in completely is marked as full. -/
theorem fromJson_full {j : Json} {tx : Transaction} (h : (fromJson j tx).2 = true) :
    (fromJson j tx).1.receivedFullTransaction = true := by
  obtain ⟨s, hs⟩ : ∃ s : Transaction, some { s with receivedFullTransaction := true } =
      some (fromJson j tx).1 :=
    exists_of_assignAll_concat (fromJsonAssignments j).dropLast h
  rw [← Option.some.inj hs]

/-- `fromJson` reads back what `toJson` wrote and marks the transaction as full. A
timestamp comes back as the number of 64 bits that it is. -/
theorem fromJson_toJson (tx tx' : Transaction) :
    fromJson tx'.toJson tx =
      ({ tx with
          txId := tx'.txId, timestamp := tx'.timestamp.bmod (2 ^ 64),
          lastValidHash := tx'.lastValidHash,
          masterNodeId := tx'.masterNodeId, computeNodeId := tx'.computeNodeId,
          tenantId := tx'.tenantId, signature := tx'.signature, publicKey := tx'.publicKey,
          code := tx'.code, output := tx'.output, input := tx'.input,
          exception := tx'.exception, receivedFullTransaction := true }, true) := by
  simp [fromJson, fromJsonAssignments, assignAll, toJson, Json.stringAt, Json.timeAt, Json.get?,
    Json.toSigned, List.lookup_cons]

/-- What `toJson` wrote has all the members that `fromJson` reads. -/
theorem readsMissing_toJson (tx : Transaction) : readsMissing tx.toJson fromJsonKeys = false := by
  simp [readsMissing, fromJsonKeys, toJson, Json.stringAt, Json.timeAt, Json.get?,
    List.lookup_cons]

end Transaction

end DecentralizedCloud
