import Mathlib.Data.Int.ModEq
import DecentralizedCloud.Master.Machine

/-!
# The check of a committed block

A storage node that has committed a block sends the key and the signature of
its producer to the masters (`addTransactions`). The `verifyBlock` handler of a
master looks up its own block of that number, decides which producer was
entitled to it, and verifies the signature over the hash of its own block.

The entitled producer is computed from the time in the message, which the
storage node stamps when it sends it, and not from the time at which the block
was closed. So an honest block is accepted only when the producers have gone
round in between (`verifyBlock_accepts_iff`).

The handler sets `s` in its JSON object after it has printed the object for the
answer. The `s` that it decides on therefore never leaves the master.
-/

namespace DecentralizedCloud

open Master

/-- The first verifier that a storage node notes for a block: key and signature
of the producer, with the number of the block. -/
def verifierEntry (base64key si : String) (number : Nat) : Json :=
  .obj [("k", .str base64key), ("n", .str (toString (number : Int))), ("si", .str si)]

/-- The fields that `addTransactions` sends, at the time `now` of `gossip`. -/
def verifyBlockFields (L : NodeLibrary) (base64key si : String) (number : Nat) (now : Int) :
    FieldValueMap :=
  [("b", L.base64_encodeString (L.dump (verifierEntry base64key si number))), ("tm", toString now)]

namespace Master

/-- `getBlockProducerFor`: the index in `blockProducers`, `none` for -1. -/
def getBlockProducerFor (producers : List Voter) (timestamp : Int) : Option Nat :=
  if producers.length < 1 then none
  else some ((timestamp.tmod 3600 % 2 ^ 64).toNat % producers.length)

/-- What the handler reads from the message before it looks at anything else. -/
structure BlockRequest where
  producerPKey : String
  s : String
  blocknumber : String
  bid : Int
  timestamp : String

/-- The reads of the handler; `none` when one of them raises. -/
def blockRequest (P : Platform) (L : NodeLibrary) (f : FieldValueMap) : Option BlockRequest := do
  let b ← P.parse (L.base64_decode (← f.at? "b"))
  let timestamp ← f.at? "tm"
  let producerPKey := L.base64_decode (← b.stringAt "k")
  let s ← b.stringAt "si"
  let blocknumber ← b.stringAt "n"
  let bid ← stol blocknumber
  return { producerPKey, s, blocknumber, bid, timestamp }

/-- The key of `blocks` for a signed number. -/
def blockKey (bid : Int) : Nat := (bid % 2 ^ 64).toNat

/-- The answer of the handler: its JSON object as it is when the message is
sent, and the message. -/
structure VerifyAnswer where
  j : Json
  channel : String
  /-- the fields of the message -/
  b : String
  d : String

/-- The value that the handler gives to `s`. -/
def blockVerdict (L : NodeLibrary) (voter : Voter) (block : Block) (r : BlockRequest) : String :=
  -- another producer was entitled to the block
  if voter.publicKey ≠ r.producerPKey then "false"
  else if L.verifyX509Signature block.hash r.s r.producerPKey then "true"
  -- the signature does not check out
  else "false"

/-- The `verifyBlock` handler. -/
def verifyBlock (P : Platform) (L : NodeLibrary) (env : Env) (m : Master) (f : FieldValueMap) :
    Master × Option VerifyAnswer :=
  match blockRequest P L f with
  | none => (m, none)
  | some r =>
      match m.blocks.lookup (blockKey r.bid) with
      | none => (m, none)
      | some block =>
          if !L.isPublicKey r.producerPKey then (m, none)
          else
            let m := getBlockStorageNode env m
            if m.blockStorageNode = "" then (m, none)
            else
              let members :=
                [("k", Json.str m.base64encodedKey),
                  ("si", Json.str (P.createX509Signature block.hash m.nodeId))]
              match (stol r.timestamp).bind (getBlockProducerFor m.blockProducers) with
              | none => (m, none)
              | some producer =>
                  -- the answer is printed before `s` is set
                  let data := L.base64_encodeString (L.dump (.obj members))
                  match m.blockProducers[producer]? with
                  | none => (m, none)
                  | some voter =>
                      ({ m with blocks := m.blocks.filter fun kv => kv.1 ≠ blockKey r.bid },
                        some {
                          j := .obj (Json.insertMember "s" (.str (blockVerdict L voter block r))
                            members)
                          channel := m.blockStorageNode
                          b := r.blocknumber
                          d := data })

/-- The handler accepts the block. -/
def Accepts (P : Platform) (L : NodeLibrary) (env : Env) (m : Master) (f : FieldValueMap) : Prop :=
  ∃ a ∈ (verifyBlock P L env m f).2, a.j.stringAt "s" = some "true"

/-! ## What the handler finds -/

variable {P : Platform} {L : NodeLibrary} {env : Env} {m : Master} {f : FieldValueMap}

/-- A block storage node is known, or the registry and the DHT lead to one. -/
def FindsBlockStorageNode (env : Env) (m : Master) : Prop :=
  m.blockStorageNode ≠ "" ∨
    1 ≤ env.nodes.numberOfStorageNodes ∧
      (env.dhtGet "sn_block_close_key" ≠ "" ∨ env.nodes.getStorageNodeKey 0 ≠ "")

theorem getBlockStorageNode_ne_iff :
    (getBlockStorageNode env m).blockStorageNode ≠ "" ↔ FindsBlockStorageNode env m := by
  unfold FindsBlockStorageNode
  by_cases hknown : m.blockStorageNode = ""
  case neg => simp [getBlockStorageNode_known hknown, hknown]
  case pos =>
      by_cases hnodes : env.nodes.numberOfStorageNodes < 1
      · have hnot : ¬ 1 ≤ env.nodes.numberOfStorageNodes := by omega
        simp [getBlockStorageNode, designateStorageNode, hknown, hnodes, hnot, emit]
      · have hnodes' : 1 ≤ env.nodes.numberOfStorageNodes := by omega
        by_cases hstored : env.dhtGet "sn_block_close_key" = "" <;>
          simp [getBlockStorageNode, designateStorageNode, hknown, hnodes, hnodes', hstored, emit]

theorem getBlockStorageNode_blockProducers :
    (getBlockStorageNode env m).blockProducers = m.blockProducers := rfl

/-- The object that is printed for the answer has no member `s`. -/
theorem answer_without_s {a : VerifyAnswer} (h : a ∈ (verifyBlock P L env m f).2) :
    ∃ j, a.d = L.base64_encodeString (L.dump j) ∧ j.get? "s" = none := by
  unfold verifyBlock at h
  split at h
  · cases h
  · split at h
    · cases h
    · split at h
      · cases h
      · dsimp only at h
        split at h
        · cases h
        · split at h
          · cases h
          · split at h
            · cases h
            · cases h
              exact ⟨_, rfl, rfl⟩

/-- What has to hold for the handler to accept, one condition for each of its reads. -/
theorem accepts_iff :
    Accepts P L env m f ↔ ∃ r block producer voter, blockRequest P L f = some r ∧
      m.blocks.lookup (blockKey r.bid) = some block ∧ L.isPublicKey r.producerPKey = true ∧
      FindsBlockStorageNode env m ∧
      (stol r.timestamp).bind (getBlockProducerFor m.blockProducers) = some producer ∧
      m.blockProducers[producer]? = some voter ∧ voter.publicKey = r.producerPKey ∧
      L.verifyX509Signature block.hash r.s r.producerPKey = true := by
  rw [← getBlockStorageNode_ne_iff]
  unfold Accepts verifyBlock
  -- the reads one after the other; each one that fails ends the handler
  cases blockRequest P L f with
  | none => simp
  | some r =>
      cases hblock : m.blocks.lookup (blockKey r.bid) with
      | none => simp [hblock]
      | some block =>
          by_cases hkey : L.isPublicKey r.producerPKey = true
          case neg => simp [hblock, hkey]
          case pos =>
              by_cases hnode : (getBlockStorageNode env m).blockStorageNode = ""
              case pos => simp [hblock, hkey, hnode]
              case neg =>
                  cases hproducer : (stol r.timestamp).bind (getBlockProducerFor m.blockProducers)
                    with
                  | none => simp [hblock, hkey, hnode, hproducer, getBlockStorageNode_blockProducers]
                  | some producer =>
                      cases hvoter : m.blockProducers[producer]? with
                      | none =>
                          simp [hblock, hkey, hnode, hproducer, hvoter,
                            getBlockStorageNode_blockProducers]
                      | some voter =>
                          by_cases hsame : voter.publicKey = r.producerPKey <;>
                            by_cases hsig : L.verifyX509Signature block.hash r.s r.producerPKey =
                              true <;>
                            simp [hblock, hkey, hnode, hproducer, hvoter, hsame, hsig, blockVerdict,
                              getBlockStorageNode_blockProducers, Json.stringAt, Json.get?]

/-! ## The message of the storage node -/

/-- The libraries read back what they have written into the message. -/
structure Transmits (P : Platform) (L : NodeLibrary) (key si : String) (number : Nat) : Prop where
  keyText : L.base64_decode (L.base64_encodeString key) = key
  text : L.base64_decode (L.base64_encodeString
      (L.dump (verifierEntry (L.base64_encodeString key) si number))) =
    L.dump (verifierEntry (L.base64_encodeString key) si number)
  entry : ∃ j, P.parse (L.dump (verifierEntry (L.base64_encodeString key) si number)) = some j ∧
    ∀ k, j.get? k = (verifierEntry (L.base64_encodeString key) si number).get? k

/-- The handler reads what was sent, when the number of the block fits a `long`. -/
theorem blockRequest_fields {key si : String} {number : Nat} {now : Int}
    (h : Transmits P L key si number) :
    blockRequest P L (verifyBlockFields L (L.base64_encodeString key) si number now) =
      if (number : Int) < 2 ^ 31 then some {
        producerPKey := key
        s := si
        blocknumber := toString (number : Int)
        bid := number
        timestamp := toString now }
      else none := by
  rcases h.entry with ⟨j, hparse, hmembers⟩
  have hk : j.stringAt "k" = some (L.base64_encodeString key) := by
    rw [Json.stringAt, hmembers]
    rfl
  have hsi : j.stringAt "si" = some si := by
    rw [Json.stringAt, hmembers]
    rfl
  have hn : j.stringAt "n" = some (toString (number : Int)) := by
    rw [Json.stringAt, hmembers]
    rfl
  have hb : (verifyBlockFields L (L.base64_encodeString key) si number now).at? "b" =
      some (L.base64_encodeString (L.dump (verifierEntry (L.base64_encodeString key) si number))) :=
    rfl
  have htm : (verifyBlockFields L (L.base64_encodeString key) si number now).at? "tm" =
      some (toString now) := rfl
  -- `stol` reads 32 bits
  have hstol : stol (toString (number : Int)) =
      if (number : Int) < 2 ^ 31 then some (number : Int) else none := by
    rw [stol_toString]
    have hlow : -(2 ^ 31) ≤ (number : Int) := by omega
    by_cases hfits : (number : Int) < 2 ^ 31
    · rw [if_pos ⟨hlow, hfits⟩, if_pos hfits]
    · rw [if_neg fun h => hfits h.2, if_neg hfits]
  unfold blockRequest
  rw [hb, htm]
  simp only [Option.bind_eq_bind, Option.bind_some, Option.pure_def]
  rw [h.text, hparse, Option.bind_some, hk, hsi, hn, Option.bind_some, Option.bind_some,
    Option.bind_some, hstol, h.keyText]
  split <;> rfl

/-! ## The entitled producer -/

/-- Past the beginning of time, the index is the second of the hour, modulo the producers. -/
theorem getBlockProducerFor_eq {producers : List Voter} {t : Int} (hne : 1 ≤ producers.length)
    (ht : 0 ≤ t) :
    getBlockProducerFor producers t = some ((t % 3600).toNat % producers.length) := by
  have hsecond : t.tmod 3600 % 2 ^ 64 = t % 3600 := by
    rw [Int.tmod_eq_emod_of_nonneg ht]
    omega
  rw [getBlockProducerFor, if_neg (by omega), hsecond]

/-- Two producers may answer for a time and for now in different ways, with the same index. -/
theorem getCurrentBlockProducer_eq {producers : List Voter} {t : Int} (h : 2 ≤ producers.length) :
    getCurrentBlockProducer producers t = getBlockProducerFor producers t := by
  rw [getCurrentBlockProducer, getBlockProducerFor, if_neg (by omega), if_neg (by omega)]

/-- Within an hour the same producer is entitled when the producers have gone
round, and only then. -/
theorem sameProducer_iff {n : Nat} {t t' : Int} (hlater : t ≤ t')
    (hhour : t' / 3600 = t / 3600) :
    (t' % 3600).toNat % n = (t % 3600).toNat % n ↔ (n : Int) ∣ t' - t := by
  have hdelay : (t' % 3600).toNat = (t % 3600).toNat + (t' - t).toNat := by omega
  have hmod : ((t % 3600).toNat + (t' - t).toNat) % n = (t % 3600).toNat % n ↔
      n ∣ (t' - t).toNat := by
    have hadd : (t % 3600).toNat ≡ (t % 3600).toNat + (t' - t).toNat [MOD n] ↔
        n ∣ (t % 3600).toNat + (t' - t).toNat - (t % 3600).toNat :=
      Nat.modEq_iff_dvd' (Nat.le_add_right _ _)
    rw [Nat.add_sub_cancel_left] at hadd
    rw [← hadd]
    exact eq_comm
  have hcast : ((t' - t).toNat : Int) = t' - t := by omega
  rw [hdelay, hmod, ← Int.natCast_dvd_natCast, hcast]

/-- Producers with distinct keys stand at one place each. -/
theorem index_eq_of_publicKey {producers : List Voter} {i j : Nat} {v w : Voter}
    (hdistinct : (producers.map (·.publicKey)).Nodup) (hi : producers[i]? = some v)
    (hj : producers[j]? = some w) (h : v.publicKey = w.publicKey) : i = j := by
  have hi' : (producers.map (·.publicKey))[i]? = some v.publicKey := by
    rw [List.getElem?_map, hi]
    rfl
  have hj' : (producers.map (·.publicKey))[j]? = some v.publicKey := by
    rw [List.getElem?_map, hj, h]
    rfl
  have hlength : i < (producers.map (·.publicKey)).length :=
    (List.getElem?_eq_some_iff.mp hi').1
  exact (List.getElem?_inj hlength hdistinct).mp (hi'.trans hj'.symm)

/-- A block that the producer of `t` has closed and signed, which the storage node
has checked at the later time `t'` of the same hour, is accepted by a master that
holds it if and only if the master finds a block storage node, the numbers fit a
`long`, and the producers have gone round between `t` and `t'`. The answer that
is sent does not say so in either case. -/
theorem verifyBlock_accepts_iff {producers : List Voter} {block : Block} {producer : Voter}
    {si : String} {t t' : Int} (hn : 2 ≤ producers.length)
    (hdistinct : (producers.map (·.publicKey)).Nodup) (hshared : m.blockProducers = producers)
    (hheld : m.blocks.lookup block.number = some block)
    (hproducer : (getCurrentBlockProducer producers t).bind (producers[·]?) = some producer)
    (hkey : L.isPublicKey producer.publicKey = true)
    (hsig : L.verifyX509Signature block.hash si producer.publicKey = true)
    (htransmits : Transmits P L producer.publicKey si block.number) (ht : 0 ≤ t) (hlater : t ≤ t')
    (hhour : t' / 3600 = t / 3600) :
    (Accepts P L env m
        (verifyBlockFields L (L.base64_encodeString producer.publicKey) si block.number t') ↔
      FindsBlockStorageNode env m ∧ (block.number : Int) < 2 ^ 31 ∧ t' < 2 ^ 31 ∧
        (producers.length : Int) ∣ t' - t) ∧
      ∀ a ∈ (verifyBlock P L env m (verifyBlockFields L (L.base64_encodeString producer.publicKey)
          si block.number t')).2,
        ∃ j, a.d = L.base64_encodeString (L.dump j) ∧ j.get? "s" = none := by
  refine ⟨?_, fun a ha => answer_without_s ha⟩
  have ht' : 0 ≤ t' := ht.trans hlater
  -- the two indices of the round
  rw [getCurrentBlockProducer_eq hn, getBlockProducerFor_eq (by omega) ht, Option.bind_some]
    at hproducer
  have hindex' : getBlockProducerFor m.blockProducers t' =
      some ((t' % 3600).toNat % producers.length) := by
    rw [hshared, getBlockProducerFor_eq (by omega) ht']
  have hlow : -(2 ^ 31) ≤ t' := by omega
  rw [accepts_iff, blockRequest_fields htransmits]
  constructor
  · rintro ⟨r, held, index, voter, hr, hblock, -, hnode, htime, hvoter, hsame, -⟩
    split at hr
    case isFalse => cases hr
    case isTrue hnumber =>
        cases hr
        rw [stol_toString] at htime
        split at htime
        case isFalse => cases htime
        case isTrue hfits =>
            rw [Option.bind_some, hindex'] at htime
            cases htime
            rw [hshared] at hvoter
            refine ⟨hnode, hnumber, hfits.2, ?_⟩
            rw [← sameProducer_iff hlater hhour]
            exact index_eq_of_publicKey hdistinct hvoter hproducer hsame
  · rintro ⟨hnode, hnumber, hfits, hround⟩
    rw [← sameProducer_iff hlater hhour] at hround
    have hnumber' : blockKey (block.number : Int) = block.number := by
      unfold blockKey
      omega
    refine ⟨_, block, (t' % 3600).toNat % producers.length, producer, if_pos hnumber, ?_, hkey,
      hnode, ?_, ?_, rfl, hsig⟩
    · rw [hnumber', hheld]
    · rw [stol_toString, if_pos ⟨hlow, hfits⟩, Option.bind_some, hindex']
    · rw [hshared, hround, hproducer]

instance : Decidable (Accepts P L env m f) :=
  inferInstanceAs (Decidable (∃ a ∈ (verifyBlock P L env m f).2, a.j.stringAt "s" = some "true"))

end Master

/-! ## Two producers -/

namespace Sample

/-- The text of an object of texts that need no escapes. -/
def dump : Json → String
  | .obj members =>
      let texts := members.map fun
        | (key, .str value) => "\"" ++ key ++ "\":\"" ++ value ++ "\""
        | (key, _) => "\"" ++ key ++ "\":null"
      "\x7b" ++ ",".intercalate texts ++ "\x7d"
  | _ => "null"

/-- What the producer "k1" has signed, with the number 7. -/
def entry : Json := verifierEntry "azE=" "c2ln" 7

def entryText : String := "\x7b\"k\":\"azE=\",\"n\":\"7\",\"si\":\"c2ln\"\x7d"

/-- The libraries on these texts. -/
def library : NodeLibrary where
  base64_decode text :=
    if text = "azE=" then "k1"
    else if text = "eyJrIjoiYXpFPSIsIm4iOiI3Iiwic2kiOiJjMmxuIn0=" then entryText
    else text
  base64_encodeString text :=
    if text = "k1" then "azE="
    else if text = entryText then "eyJrIjoiYXpFPSIsIm4iOiI3Iiwic2kiOiJjMmxuIn0="
    else text
  dump := dump
  isPublicKey key := key = "k1" || key = "k2"
  verifyX509Signature message signature key :=
    message = "hash7" && signature = "c2ln" && key = "k1"

def entryPlatform : Platform :=
  { platform [] with parse := fun text => if text = entryText then some entry else none }

/-- Block 7, closed in second 100. -/
def block : Block where
  number := 7
  hash := "hash7"
  previousHash := "hash6"
  data := .arr []
  time := 100

def blockProducers : List Voter := [⟨"c2ln", "k1", 1, true⟩, ⟨"", "k2", 2, true⟩]

/-- A master that holds the block. -/
def verifyingMaster : Master :=
  { master with blockProducers := blockProducers, blocks := [(7, block)] }

theorem transmits : Transmits entryPlatform library "k1" "c2ln" 7 where
  keyText := by decide +kernel
  text := by decide +kernel
  entry := ⟨entry, rfl, fun _ => rfl⟩

end Sample

/-- Two seconds after the closing, the first of two producers is entitled again. -/
theorem verifyBlock_accepts_iff_round :
    Accepts Sample.entryPlatform Sample.library Sample.env Sample.verifyingMaster
      (verifyBlockFields Sample.library (Sample.library.base64_encodeString "k1") "c2ln" 7 102) := by
  have hproducer : (getCurrentBlockProducer Sample.blockProducers 100).bind
      (Sample.blockProducers[·]?) = some ⟨"c2ln", "k1", 1, true⟩ := by decide +kernel
  have hheld : Sample.verifyingMaster.blocks.lookup Sample.block.number = some Sample.block := rfl
  have hround : (Sample.blockProducers.length : Int) ∣ 102 - 100 := by decide
  refine (verifyBlock_accepts_iff (by decide) (by decide) rfl hheld hproducer (by decide)
    (by decide) Sample.transmits (by decide) (by decide) (by decide)).1.mpr ?_
  exact ⟨.inl (by decide), by decide, by decide, hround⟩

/-- One second after the closing the block counts as the other producer's. -/
theorem honest_block_refused :
    getCurrentBlockProducer Sample.blockProducers 100 = some 0 ∧
      (verifyBlock Sample.entryPlatform Sample.library Sample.env Sample.verifyingMaster
        (verifyBlockFields Sample.library (Sample.library.base64_encodeString "k1") "c2ln" 7
          101)).2.isSome = true ∧
      ¬ Accepts Sample.entryPlatform Sample.library Sample.env Sample.verifyingMaster
        (verifyBlockFields Sample.library (Sample.library.base64_encodeString "k1") "c2ln" 7
          101) := by
  decide +kernel

end DecentralizedCloud
