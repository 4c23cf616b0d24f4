import Mathlib.Data.List.Chain
import DecentralizedCloud.Cluster.Cluster

/-!
# Whether the sent blocks form a chain

A block links to the block that the same master assembled one second before,
sent or not. The chain of sent blocks therefore holds between two producers
exactly as long as both have closed the same transactions in every second up to
then (`links_iff`).
-/

namespace DecentralizedCloud

open Machine Master

namespace Cluster

variable {n : Nat} {P : Platform}

/-- The block was made with the counter `next` and the link `previousHash`. -/
structure Continues (P : Platform) (genesisStamp : String) (next : Nat) (previousHash : String)
    (b : Block) : Prop where
  hash : b.hash = P.infoHash (hashInput b.number b.previousHash b.txIds b.time)
  previousHash : b.previousHash = previousHash
  number : numberFrom genesisStamp b.time next = some b.number

/-- `b'` was made by the master that made `b` before. -/
def Follows (P : Platform) (genesisStamp : String) (b b' : Block) : Prop :=
  Continues P genesisStamp ((b.number + 1) % 2 ^ 64) b.hash b'

/-- The blocks of one master, from a counter and a link on, and what the master
is left with. -/
structure Chain (P : Platform) (genesisStamp : String) (next : Nat) (previousHash : String)
    (bs : List Block) (m : Master) : Prop where
  first : ∀ b ∈ bs.head?, Continues P genesisStamp next previousHash b
  links : bs.IsChain (Follows P genesisStamp)
  new : bs = [] → m.nextBlockNumber = next ∧ m.previousHash = previousHash
  last : ∀ b ∈ bs.getLast?,
    m.nextBlockNumber = (b.number + 1) % 2 ^ 64 ∧ m.previousHash = b.hash
  known : m.previousHash ≠ ""

variable {genesisStamp previousHash : String} {next : Nat} {bs : List Block} {b : Block}
  {m m' : Master} {env : Env}

theorem Chain.keeps (h : Chain P genesisStamp next previousHash bs m)
    (hkeeps : KeepsBlockState m m') : Chain P genesisStamp next previousHash bs m' where
  first := h.first
  links := h.links
  new := by
    rw [hkeeps.nextBlockNumber, hkeeps.previousHash]
    exact h.new
  last := by
    rw [hkeeps.nextBlockNumber, hkeeps.previousHash]
    exact h.last
  known := hkeeps.previousHash ▸ h.known

/-- A closing puts one more block at the end of the chain. -/
theorem Chain.closes (h : Chain P genesisStamp next previousHash bs m)
    (hgenesis : env.dhtGet "genesisStamp" = genesisStamp) (hcloses : Closes P env m b m') :
    Chain P genesisStamp next previousHash (bs ++ [b]) m' := by
  have hcontinues : Continues P genesisStamp m.nextBlockNumber m.previousHash b := by
    have hmade := hcloses.made
    refine ⟨?_, ?_, ?_⟩
    · rw [hmade.txIds, hmade.time]
      exact hmade.hash
    · rw [hmade.previousHash, linkHash, if_neg h.known]
    · rw [hmade.time, ← hgenesis]
      exact hmade.number
  constructor
  case first =>
      intro b' hb'
      cases bs with
      | nil =>
          -- the first block starts from what the master started with
          rcases h.new rfl with ⟨hnext, hprevious⟩
          rw [hnext, hprevious] at hcontinues
          cases hb'
          exact hcontinues
      | cons x xs => exact h.first b' hb'
  case links =>
      rw [List.isChain_append]
      refine ⟨h.links, .singleton b, ?_⟩
      intro x hx y hy
      rcases h.last x hx with ⟨hnext, hprevious⟩
      rw [hnext, hprevious] at hcontinues
      cases hy
      exact hcontinues
  case new => exact fun hnil => absurd hnil (by simp)
  case last =>
      intro b' hb'
      rw [List.getLast?_concat] at hb'
      cases hb'
      exact ⟨hcloses.nextBlockNumber, hcloses.previousHash⟩
  case known =>
      rw [hcloses.previousHash, hcontinues.hash]
      exact P.infoHash_ne _

/-- A block that is not the first one has one before it. -/
theorem exists_before {k : Nat} {y : Block} (hy : bs[k + 1]? = some y) : ∃ x, bs[k]? = some x := by
  have hlt := (List.getElem?_eq_some_iff.mp hy).1
  exact ⟨_, List.getElem?_eq_getElem (Nat.lt_of_succ_lt hlt)⟩

theorem Chain.begins {x : Block} (h : Chain P genesisStamp next previousHash bs m)
    (hx : bs[0]? = some x) : Continues P genesisStamp next previousHash x := by
  apply h.first
  rw [List.head?_eq_getElem?]
  exact hx

/-- Every block links to the one before it. -/
theorem Chain.follows {k : Nat} {x y : Block} (h : Chain P genesisStamp next previousHash bs m)
    (hx : bs[k]? = some x) (hy : bs[k + 1]? = some y) : Follows P genesisStamp x y := by
  rcases List.getElem?_eq_some_iff.mp hx with ⟨hlt, rfl⟩
  rcases List.getElem?_eq_some_iff.mp hy with ⟨hlt', rfl⟩
  exact List.isChain_iff_getElem.mp h.links k hlt'

/-- Every block carries the hash of its contents. -/
theorem Chain.made {k : Nat} {x : Block} (h : Chain P genesisStamp next previousHash bs m)
    (hx : bs[k]? = some x) :
    x.hash = P.infoHash (hashInput x.number x.previousHash x.txIds x.time) := by
  cases k with
  | zero => exact (h.begins hx).hash
  | succ k =>
      rcases exists_before hx with ⟨x₀, hx₀⟩
      exact (h.follows hx₀ hx).hash

/-! ## All masters -/

/-- The DHT answers one genesis stamp to every closing. -/
def OneGenesis (genesisStamp : String) (_ : Cluster n) (ev : ClusterEvent n) : Prop :=
  match ev with
  | .close _ env => env.dhtGet "genesisStamp" = genesisStamp
  | .message _ _ | .tick => True

instance (c : Cluster n) (ev : ClusterEvent n) : Decidable (OneGenesis genesisStamp c ev) :=
  match ev with
  | .close _ env => inferInstanceAs (Decidable (env.dhtGet "genesisStamp" = genesisStamp))
  | .message _ _ | .tick => instDecidableTrue

variable {start : Int} {producers : List Voter} {c c₀ c' : Cluster n}

theorem chain_step {nodeId : Fin n → String} {ev : ClusterEvent n}
    (hcoherent : AllCoherent start producers nodeId c)
    (hinv : ∀ i, Chain P genesisStamp next previousHash (c.closings i) (c.masters i))
    (hgenesis : OneGenesis genesisStamp c ev) (hstep : step P start c ev = some c') (j : Fin n) :
    Chain P genesisStamp next previousHash (c'.closings j) (c'.masters j) := by
  have hj := hinv j
  cases moves_of_step hstep with
  | message i e m hmsg h =>
      rcases eq_or_ne j i with rfl | hne
      · simpa using hj.keeps (handle_keepsBlockState h hmsg)
      · simpa [hne] using hj
  | close i env block m hnow hopen h =>
      rcases eq_or_ne j i with rfl | hne
      · simpa using hj.closes hgenesis (closes_publishBlock (hcoherent j).blockStorageNode h)
      · simpa [hne] using hj
  | tick h => exact hj

theorem chain_run {es : List (ClusterEvent n)} (hstart : c₀.Start producers)
    (hnext : ∀ i, (c₀.masters i).nextBlockNumber = next)
    (hprevious : ∀ i, (c₀.masters i).previousHash = previousHash) (hknown : previousHash ≠ "")
    (h : Trace (step P start) (OneGenesis genesisStamp) c₀ es c) :
    AllCoherent start producers (fun i => (c₀.masters i).nodeId) c ∧
      ∀ i, Chain P genesisStamp next previousHash (c.closings i) (c.masters i) := by
  refine h.invariant (fun _ c => AllCoherent start producers (fun i => (c₀.masters i).nodeId) c ∧
      ∀ i, Chain P genesisStamp next previousHash (c.closings i) (c.masters i))
    ⟨allCoherent_start hstart, ?_⟩ ?_
  · intro i
    rw [hstart.closings i]
    refine ⟨by simp, .nil, fun _ => ⟨hnext i, hprevious i⟩, by simp, ?_⟩
    rw [hprevious i]
    exact hknown
  · intro _ c ev c' ⟨hcoherent, hchain⟩ hgenesis hstep
    exact ⟨allCoherent_step hcoherent hstep, chain_step hcoherent hchain hgenesis hstep⟩

/-! ## Two masters compared -/

/-- The ids of a block's transactions, as the hash sees them. -/
def closedIds (b : Block) : String := String.join b.txIds

section

variable (hfree : ∀ s t, (P.infoHash s).toList <+: (P.infoHash t).toList → s = t)

include hfree

/-- Of two different hashes none is the beginning of the other, so a text that
begins with a hash determines it. -/
theorem eq_of_hash_append {s t : String} {u v : List Char}
    (h : (P.infoHash s).toList ++ u = (P.infoHash t).toList ++ v) : s = t := by
  -- two beginnings of one list are comparable
  have hs : (P.infoHash s).toList <+: (P.infoHash t).toList ++ v := by
    rw [← h]
    exact List.prefix_append _ _
  rcases List.prefix_or_prefix_of_prefix hs (List.prefix_append _ v) with h | h
  · exact hfree s t h
  · exact (hfree t s h).symm

theorem infoHash_inj {s t : String} : P.infoHash s = P.infoHash t ↔ s = t := by
  constructor
  · intro h
    apply hfree
    rw [h]
  · rintro rfl
    rfl

/-- Two hash inputs with one number and one time are equal only when the links
and the ids are; the links are hashes or known to be the same. -/
theorem hashInput_eq_iff {number : Nat} {time : Int} {p q : String} {txIds txIds' : List String}
    (hlinks : p = q ∨ ∃ s t, p = P.infoHash s ∧ q = P.infoHash t) :
    hashInput number p txIds time = hashInput number q txIds' time ↔
      p = q ∧ String.join txIds = String.join txIds' := by
  constructor
  · intro h
    have hlists := congrArg String.toList h
    simp only [hashInput, String.toList_append, List.append_assoc] at hlists
    have hrest := List.append_cancel_left hlists
    -- what is left begins with the links
    have hpq : p = q := by
      rcases hlinks with hsame | ⟨s, t, rfl, rfl⟩
      · exact hsame
      · rw [eq_of_hash_append hfree hrest]
    subst hpq
    have hids := List.append_cancel_left (List.append_cancel_left hrest)
    exact ⟨rfl, String.toList_inj.mp hids⟩
  · rintro ⟨rfl, hids⟩
    rw [hashInput, hashInput, hids]

/-- Blocks of one second that continue from one counter. -/
theorem Continues.hash_eq_iff {p q : String} {x y : Block}
    (hx : Continues P genesisStamp next p x) (hy : Continues P genesisStamp next q y)
    (htime : x.time = y.time) (hlinks : p = q ∨ ∃ s t, p = P.infoHash s ∧ q = P.infoHash t) :
    x.number = y.number ∧ (x.hash = y.hash ↔ p = q ∧ closedIds x = closedIds y) := by
  have hnumber : x.number = y.number := by
    have hsame := hx.number
    rw [htime, hy.number] at hsame
    exact (Option.some.inj hsame).symm
  refine ⟨hnumber, ?_⟩
  rw [hx.hash, hy.hash, infoHash_inj hfree, hnumber, htime, hx.previousHash, hy.previousHash]
  exact hashInput_eq_iff hfree hlinks

variable {xs ys : List Block}

/-- Two masters that started alike number their blocks alike, and assemble the
same hash exactly as long as they have closed the same ids in every second. -/
theorem hash_eq_iff (hx : Chain P genesisStamp next previousHash xs m)
    (hy : Chain P genesisStamp next previousHash ys m')
    (htime : ∀ (k : Nat) x y, xs[k]? = some x → ys[k]? = some y → x.time = y.time)
    (k : Nat) (x y : Block) (hxk : xs[k]? = some x) (hyk : ys[k]? = some y) :
    x.number = y.number ∧ (x.hash = y.hash ↔
      ∀ l ≤ k, ∀ x' ∈ xs[l]?, ∀ y' ∈ ys[l]?, closedIds x' = closedIds y') := by
  induction k generalizing x y with
  | zero =>
      obtain ⟨hnumber, hhash⟩ :=
        (hx.begins hxk).hash_eq_iff hfree (hy.begins hyk) (htime 0 x y hxk hyk) (.inl rfl)
      refine ⟨hnumber, ?_⟩
      rw [hhash]
      simp [hxk, hyk]
  | succ k ih =>
      rcases exists_before hxk with ⟨x₀, hx₀⟩
      rcases exists_before hyk with ⟨y₀, hy₀⟩
      rcases ih x₀ y₀ hx₀ hy₀ with ⟨hnumber₀, hhash₀⟩
      -- both blocks were made with the counter and the link that their predecessors left
      have hlink := hx.follows hx₀ hxk
      have hlink' := hy.follows hy₀ hyk
      unfold Follows at hlink hlink'
      rw [← hnumber₀] at hlink'
      obtain ⟨hnumber, hhash⟩ := hlink.hash_eq_iff hfree hlink' (htime (k + 1) x y hxk hyk)
        (.inr ⟨_, _, (hx.made hx₀), (hy.made hy₀)⟩)
      refine ⟨hnumber, ?_⟩
      rw [hhash, hhash₀]
      constructor
      · rintro ⟨hbefore, hnow⟩ l hl x' hx' y' hy'
        rcases Nat.le_succ_iff.mp hl with hle | rfl
        · exact hbefore l hle x' hx' y' hy'
        · rw [hxk] at hx'
          rw [hyk] at hy'
          cases hx'
          cases hy'
          exact hnow
      · intro hall
        exact ⟨fun l hl => hall l (Nat.le_succ_of_le hl), hall (k + 1) le_rfl x hxk y hyk⟩

end

/-! ## The chain of sent blocks -/

/-- The place of a block in the closings of a master is its second. -/
theorem Coherent.index {key : String} {elapsed : Nat} {closed : Bool} {closings : List Block}
    (h : Coherent start producers key elapsed closed closings m) (hb : b ∈ closings) :
    ∃ k : Nat, closings[k]? = some b ∧ b.time = start + k := by
  rcases List.mem_iff_getElem?.mp hb with ⟨k, hk⟩
  exact ⟨k, hk, h.time k b hk⟩

/-- Sent blocks are among the closings. -/
theorem Coherent.mem_closings {key : String} {elapsed : Nat} {closed : Bool}
    {closings : List Block} (h : Coherent start producers key elapsed closed closings m)
    (hb : b ∈ m.sentBlocks) : b ∈ closings := by
  rw [h.sent] at hb
  exact (List.mem_filter.mp hb).1

/-- Of masters that started alike, the block that one sends links to the block
that was sent one second before exactly when both senders have closed the same
ids in every second up to then. -/
theorem links_iff {es : List (ClusterEvent n)} {i j : Fin n} {b b' : Block}
    (hfree : ∀ s t, (P.infoHash s).toList <+: (P.infoHash t).toList → s = t)
    (hstart : c₀.Start producers) (hnext : ∀ i, (c₀.masters i).nextBlockNumber = next)
    (hprevious : ∀ i, (c₀.masters i).previousHash = previousHash) (hknown : previousHash ≠ "")
    (h : Trace (step P start) (OneGenesis genesisStamp) c₀ es c)
    (hb : b ∈ (c.masters j).sentBlocks) (hb' : b' ∈ (c.masters i).sentBlocks)
    (htime : b'.time = b.time + 1) :
    b'.previousHash = b.hash ↔
      ∀ x ∈ c.closings i, ∀ y ∈ c.closings j, x.time = y.time → x.time ≤ b.time →
        closedIds x = closedIds y := by
  rcases chain_run hstart hnext hprevious hknown h with ⟨hcoherent, hchain⟩
  rcases (hcoherent j).index ((hcoherent j).mem_closings hb) with ⟨k, hk, hkt⟩
  rcases (hcoherent i).index ((hcoherent i).mem_closings hb') with ⟨k', hk', hkt'⟩
  obtain rfl : k' = k + 1 := by omega
  -- the block that the sender of `b'` assembled one second before
  rcases exists_before hk' with ⟨own, hown⟩
  have hsame : ∀ (l : Nat) x y, (c.closings i)[l]? = some x → (c.closings j)[l]? = some y →
      x.time = y.time := by
    intro l x y hx hy
    rw [(hcoherent i).time l x hx, (hcoherent j).time l y hy]
  rw [((hchain i).follows hown hk').previousHash,
    (hash_eq_iff hfree (hchain i) (hchain j) hsame k own b hown hk).2]
  constructor
  · intro hall x hx y hy hxy hle
    rcases (hcoherent i).index hx with ⟨l, hl, hlt⟩
    rcases (hcoherent j).index hy with ⟨l', hl', hlt'⟩
    obtain rfl : l = l' := by omega
    exact hall l (by omega) x hl y hl'
  · intro hall l hl x hx y hy
    have hxt := (hcoherent i).time l x hx
    exact hall x (List.mem_of_getElem? hx) y (List.mem_of_getElem? hy) (hsame l x y hx hy)
      (by omega)

/-- Two consecutive blocks were sent by the two masters, and the second one
links to the first one or does not. -/
def consecutive (linked : Bool) (c : Cluster 2) : Prop :=
  ∃ b ∈ (c.masters ⟨0, Nat.zero_lt_two⟩).sentBlocks,
    ∃ b' ∈ (c.masters ⟨1, Nat.one_lt_two⟩).sentBlocks, b'.time = b.time + 1 ∧
      decide (b'.previousHash = b.hash) = linked

instance (linked : Bool) (c : Cluster 2) : Decidable (consecutive linked c) :=
  inferInstanceAs (Decidable (∃ b ∈ _, ∃ b' ∈ _, _))

/-- Two masters close one transaction in the same second, and their chains agree. -/
theorem links_iff_closed_together :
    ∃ c, Trace (step (Sample.platform [Sample.tx]) 100) (OneGenesis "") twoMasters
        (verifiedOn 0 ++ verifiedOn 1 ++ closeAll 100 ++ .tick :: closeAll 101) c ∧
      ∃ b b' : Block, b'.time = b.time + 1 ∧ b'.previousHash = b.hash ∧
        (b'.previousHash = b.hash ↔
          ∀ x ∈ c.closings 1, ∀ y ∈ c.closings 0, x.time = y.time → x.time ≤ b.time →
            closedIds x = closedIds y) := by
  obtain ⟨c, htrace, hcheck⟩ :
      ∃ c, Trace (step (Sample.platform [Sample.tx]) 100) (OneGenesis "") twoMasters
          (verifiedOn 0 ++ verifiedOn 1 ++ closeAll 100 ++ .tick :: closeAll 101) c ∧
        decide (consecutive true c) = true :=
    exists_trace_of_exec _ (by decide +kernel)
  rcases of_decide_eq_true hcheck with ⟨b, hb, b', hb', htime, hlinked⟩
  have hnext : ∀ i, (twoMasters.masters i).nextBlockNumber = 1 := fun _ => rfl
  have hprevious : ∀ i, (twoMasters.masters i).previousHash = "h0" := fun _ => rfl
  have hfree : ∀ s t, ((Sample.platform [Sample.tx]).infoHash s).toList <+:
      ((Sample.platform [Sample.tx]).infoHash t).toList → s = t :=
    fun _ _ => Sample.eq_of_digest_prefix
  have hiff := links_iff hfree twoMasters_start hnext hprevious (by decide) htrace hb hb' htime
  exact ⟨c, htrace, b, b', htime, of_decide_eq_true hlinked, hiff⟩

/-- The transaction reaches the second master one closing too late: its block of
the next second does not link to the block that was sent, though the hash has no
collisions. -/
theorem broken_link :
    Function.Injective (Sample.platform [Sample.tx]).infoHash ∧
    ∃ c, Run (step (Sample.platform [Sample.tx]) 100) twoMasters
        (verifiedOn 0 ++ closeAll 100 ++ verifiedOn 1 ++ .tick :: closeAll 101) c ∧
      decide (consecutive false c) = true := by
  constructor
  · intro s t h
    apply Sample.eq_of_digest_prefix
    rw [show Sample.digest s = Sample.digest t from h]
  · exact exists_trace_of_exec _ (by decide +kernel)

end Cluster

end DecentralizedCloud
