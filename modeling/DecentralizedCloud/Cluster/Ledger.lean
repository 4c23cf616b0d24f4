import Mathlib.Algebra.BigOperators.Group.Finset.Piecewise
import Mathlib.Data.Fintype.Card
import DecentralizedCloud.Cluster.Cluster

/-!
# Which blocks a transaction gets into

Every master closes every transaction that enters its `queueOut`, but a closed
transaction reaches the ledger only when the master happens to be the producer
of that second: the others discard it. So a transaction that is queued at
different moments is in as many sent blocks as there are masters that closed it
as producers, which may be none or several. When all masters close it in the
same second, it is in exactly one (`sent_blocks_of_closed`).
-/

namespace DecentralizedCloud

open Machine Master

namespace Cluster

variable {n : Nat}

/-- The copies of `id` that an event appends to the queues, with the master. -/
def enqueuedOn (id : String) (c : Cluster n) (ev : ClusterEvent n) (c' : Cluster n) :
    List (Fin n × Transaction) :=
  match ev with
  | .message i e => (enqueued id (c.masters i) e (c'.masters i)).map fun tx => (i, tx)
  | .close _ _ | .tick => []

/-- The number of copies of `id` in blocks. -/
def copies (id : String) (blocks : List Block) : Nat :=
  (blocks.map fun b => b.txIds.count id).sum

/-- The number of blocks with `id` that the masters have sent. -/
def blocksSentWith (id : String) (c : Cluster n) : Nat :=
  ∑ i, (c.masters i).sentBlocks.countP fun b => id ∈ b.txIds

/-- Every copy that entered the queue of a master is still there or is in a
block that this master has assembled. -/
def Conserved (id : String) (c : Cluster n) (appended : List (Fin n × Transaction)) : Prop :=
  ∀ i, appended.countP (fun x => x.1 = i) =
    ((c.masters i).view id).queued.length + copies id (c.closings i)

variable {P : Platform} {start : Int} {producers : List Voter} {id : String}
  {c c₀ c' : Cluster n} {appended : List (Fin n × Transaction)}

theorem copies_snoc (blocks : List Block) (b : Block) :
    copies id (blocks ++ [b]) = copies id blocks + b.txIds.count id := by
  simp [copies]

/-- A closing moves copies from the queue into the block. -/
theorem queued_add_count {env : Env} {m m' : Master} {block : Block}
    (h : Closes P env m block m') :
    (m'.view id).queued.length + block.txIds.count id = (m.view id).queued.length := by
  have hqueued : (m'.view id).queued = (notDue P env m).filter fun tx => tx.txId = id := by
    rw [← h.queueOut]
    rfl
  rw [hqueued, h.made.txIds]
  exact length_notDue_add_count

/-- Every append is in a queue or in a closed block, on each master. -/
theorem conserved_step {nodeId : Fin n → String} {ev : ClusterEvent n}
    (hcoherent : AllCoherent start producers nodeId c) (hinv : Conserved id c appended)
    (hstep : step P start c ev = some c') :
    Conserved id c' (appended ++ enqueuedOn id c ev c') := by
  intro j
  have hj := hinv j
  rw [List.countP_append]
  cases moves_of_step hstep with
  | message i e m hmsg h =>
      simp only [enqueuedOn, List.countP_map, Function.update_self]
      rcases eq_or_ne j i with rfl | hne
      · -- the new copies are all on this master
        have hall : (enqueued id (c.masters j) e m).countP
            ((fun x : Fin n × Transaction => decide (x.1 = j)) ∘ fun tx => (j, tx)) =
            (enqueued id (c.masters j) e m).length := by
          simp [List.countP_eq_length]
        rw [hall, hj, Function.update_self, queued_append_enqueued h hmsg, List.length_append]
        omega
      · have hnone : (enqueued id (c.masters i) e m).countP
            ((fun x : Fin n × Transaction => decide (x.1 = j)) ∘ fun tx => (i, tx)) = 0 := by
          simp [List.countP_eq_zero, hne.symm]
        rw [hnone, hj, Function.update_of_ne hne]
        omega
  | close i env block m hnow hopen h =>
      simp only [enqueuedOn, List.countP_nil]
      rcases eq_or_ne j i with rfl | hne
      · -- what leaves the queue is in the new block
        have hcloses := closes_publishBlock (hcoherent j).blockStorageNode h
        rw [hj, Function.update_self, Function.update_self, copies_snoc,
          ← queued_add_count hcloses]
        omega
      · rw [hj, Function.update_of_ne hne, Function.update_of_ne hne]
        omega
  | tick h => simpa [enqueuedOn] using hj

/-- The run invariant from the start. -/
theorem conserved_run {es : List (ClusterEvent n)} (hstart : c₀.Start producers)
    (hfresh : ∀ i, ((c₀.masters i).view id).queued = [])
    (h : Run (logged (step P start) (enqueuedOn id)) (c₀, []) es (c, appended)) :
    AllCoherent start producers (fun i => (c₀.masters i).nodeId) c ∧ Conserved id c appended := by
  refine h.invariant (fun _ s => AllCoherent start producers (fun i => (c₀.masters i).nodeId) s.1 ∧
    Conserved id s.1 s.2) ⟨allCoherent_start hstart, ?_⟩ ?_
  · intro i
    simp [hfresh, hstart.closings, copies]
  · intro _ s ev s' ⟨hcoherent, hconserved⟩ _ hstep
    rcases Option.map_eq_some_iff.mp hstep with ⟨c', hc', rfl⟩
    exact ⟨allCoherent_step hcoherent hc', conserved_step hcoherent hconserved hc'⟩

/-! ## One copy on every master -/

/-- Numbers that add up to 1 are one 1 among zeros. -/
theorem exists_of_sum_eq_one {α : Type*} {f : α → Nat} {xs : List α} (h : (xs.map f).sum = 1) :
    ∃ l x r, xs = l ++ x :: r ∧ f x = 1 ∧ ∀ y ∈ l ++ r, f y = 0 := by
  induction xs with
  | nil => cases h
  | cons x xs ih =>
      rw [List.map_cons, List.sum_cons] at h
      rcases Nat.eq_zero_or_pos (f x) with hzero | hpos
      · rcases ih (by omega) with ⟨l, y, r, rfl, hy, hrest⟩
        refine ⟨x :: l, y, r, rfl, hy, ?_⟩
        intro z hz
        rcases List.mem_cons.mp hz with rfl | hz
        · exact hzero
        · exact hrest z hz
      · have hrest : (xs.map f).sum = 0 := by omega
        refine ⟨[], x, xs, rfl, by omega, ?_⟩
        intro z hz
        exact List.sum_eq_zero_iff_forall_eq_nat.mp hrest _ (List.mem_map_of_mem hz)

/-- A master that has closed one copy of `id` has sent it or not, depending on
the second of the closing. -/
theorem Coherent.sent_of_closed {key : String} {elapsed : Nat} {closed : Bool}
    {closings : List Block} {m : Master}
    (h : Coherent start producers key elapsed closed closings m) (hone : copies id closings = 1) :
    ∃ own ∈ closings, own.txIds.count id = 1 ∧ (∀ b ∈ closings, id ∈ b.txIds → b = own) ∧
      m.sentBlocks.countP (fun b => id ∈ b.txIds) =
        if producerKey producers own.time = some key then 1 else 0 := by
  rcases exists_of_sum_eq_one hone with ⟨l, own, r, rfl, hown, hrest⟩
  have hmem : id ∈ own.txIds := List.count_pos_iff.mp (by omega)
  have hothers : ∀ b ∈ l ++ r, id ∉ b.txIds := fun b hb => List.count_eq_zero.mp (hrest b hb)
  refine ⟨own, by simp, hown, ?_, ?_⟩
  · intro b hb hid
    by_contra hne
    apply hothers b _ hid
    simpa [hne] using hb
  · -- only the block `own` can count, before and after the filter of the producer
    have hnone : ∀ bs : List Block, (∀ b ∈ bs, id ∉ b.txIds) →
        (bs.filter fun b => producerKey producers b.time = some key).countP
          (fun b => id ∈ b.txIds) = 0 := by
      intro bs hbs
      rw [List.countP_eq_zero]
      intro b hb
      simpa using hbs b (List.mem_filter.mp hb).1
    rw [h.sent, List.filter_append, List.countP_append,
      hnone l fun b hb => hothers b (List.mem_append_left _ hb), List.filter_cons]
    split
    · rename_i hkey
      rw [List.countP_cons, hnone r fun b hb => hothers b (List.mem_append_right _ hb)]
      simpa [hmem] using hkey
    · rename_i hkey
      rw [hnone r fun b hb => hothers b (List.mem_append_right _ hb)]
      simpa using hkey

/-- A transaction that every master has queued once, and closed since, is in as
many sent blocks as there are masters that closed it as producers; in exactly
one, when all masters closed it in the same second. -/
theorem sent_blocks_of_closed {es : List (ClusterEvent n)} (hstart : c₀.Start producers)
    (htwo : 2 ≤ producers.length)
    (hkeys : Function.Injective fun i => (c₀.masters i).nodeId)
    (hmasters : ∀ v ∈ producers, ∃ i, (c₀.masters i).nodeId = v.publicKey)
    (hfresh : ∀ i, ((c₀.masters i).view id).queued = [])
    (h : Run (logged (step P start) (enqueuedOn id)) (c₀, []) es (c, appended))
    (honce : ∀ i, appended.countP (fun x => x.1 = i) = 1)
    (hclosed : ∀ i, ((c.masters i).view id).queued = []) :
    ∃ own : Fin n → Block,
      (∀ i, own i ∈ c.closings i ∧ (own i).txIds.count id = 1 ∧
        ∀ b ∈ c.closings i, id ∈ b.txIds → b = own i) ∧
      c.blocksSentWith id = (Finset.univ.filter fun i =>
        producerKey producers (own i).time = some (c₀.masters i).nodeId).card ∧
      ((∀ i j, (own i).time = (own j).time) → c.blocksSentWith id = 1) := by
  rcases conserved_run hstart hfresh h with ⟨hcoherent, hconserved⟩
  have hone : ∀ i, copies id (c.closings i) = 1 := by
    intro i
    have hi := hconserved i
    rw [honce, hclosed, List.length_nil] at hi
    omega
  -- the one closing of each master that has the transaction
  choose own hmem hcount honly hsent using fun i => (hcoherent i).sent_of_closed (hone i)
  have htotal : c.blocksSentWith id = (Finset.univ.filter fun i =>
      producerKey producers (own i).time = some (c₀.masters i).nodeId).card := by
    rw [Finset.card_filter]
    exact Finset.sum_congr rfl fun i _ => hsent i
  refine ⟨own, fun i => ⟨hmem i, hcount i, honly i⟩, htotal, ?_⟩
  intro hsame
  -- the producer of the common second is one of the masters
  rcases exists_producer htwo 0 with ⟨v, hv, -⟩
  rcases hmasters v hv with ⟨i₀, -⟩
  rcases exists_producer htwo (own i₀).time with ⟨v, hv, hkey⟩
  rcases hmasters v hv with ⟨i, hi⟩
  rw [htotal, Finset.card_eq_one]
  refine ⟨i, ?_⟩
  ext j
  simp only [Finset.mem_filter, Finset.mem_univ, true_and, Finset.mem_singleton]
  rw [hsame j i₀, hkey]
  constructor
  · intro hj
    apply hkeys
    dsimp only
    rw [hi, ← Option.some.inj hj]
  · rintro rfl
    rw [hi]

/-! ### Two masters -/

/-- One copy was queued on both masters, and is closed by now. -/
def closedOnBoth (s : Cluster 2 × List (Fin 2 × Transaction)) : Prop :=
  ∀ i, s.2.countP (fun x => x.1 = i) = 1 ∧ ((s.1.masters i).view "tx1").queued = []

instance (s : Cluster 2 × List (Fin 2 × Transaction)) : Decidable (closedOnBoth s) :=
  inferInstanceAs (Decidable (∀ _, _))

/-- Two masters close one transaction in the same second, and one block with it is sent. -/
theorem sent_blocks_of_closed_together :
    ∃ s, Run (logged (step (Sample.platform [Sample.tx]) 100) (enqueuedOn "tx1")) (twoMasters, [])
        (verifiedOn 0 ++ verifiedOn 1 ++ closeAll 100) s ∧
      ∃ own : Fin 2 → Block,
        (∀ i, own i ∈ s.1.closings i ∧ (own i).txIds.count "tx1" = 1 ∧
          ∀ b ∈ s.1.closings i, "tx1" ∈ b.txIds → b = own i) ∧
        s.1.blocksSentWith "tx1" = (Finset.univ.filter fun i =>
          producerKey Sample.producers (own i).time = some (twoMasters.masters i).nodeId).card ∧
        ((∀ i j, (own i).time = (own j).time) → s.1.blocksSentWith "tx1" = 1) := by
  obtain ⟨s, hrun, hcheck⟩ :
      ∃ s, Run (logged (step (Sample.platform [Sample.tx]) 100) (enqueuedOn "tx1"))
          (twoMasters, []) (verifiedOn 0 ++ verifiedOn 1 ++ closeAll 100) s ∧
        decide (closedOnBoth s) = true :=
    exists_trace_of_exec _ (by decide +kernel)
  have hclosed := of_decide_eq_true hcheck
  exact ⟨s, hrun, sent_blocks_of_closed twoMasters_start (by decide) (by decide) (by decide)
    (fun _ => rfl) hrun (fun i => (hclosed i).1) (fun i => (hclosed i).2)⟩

/-- The transaction reaches the second master one closing before the first one:
nobody sends it. The other way round, both send it. -/
theorem lost_and_doubled :
    (∃ s, Run (logged (step (Sample.platform [Sample.tx]) 100) (enqueuedOn "tx1")) (twoMasters, [])
        (verifiedOn 1 ++ closeAll 100 ++ verifiedOn 0 ++ .tick :: closeAll 101) s ∧
      decide (closedOnBoth s ∧ s.1.blocksSentWith "tx1" = 0) = true) ∧
    ∃ s, Run (logged (step (Sample.platform [Sample.tx]) 100) (enqueuedOn "tx1")) (twoMasters, [])
        (verifiedOn 0 ++ closeAll 100 ++ verifiedOn 1 ++ .tick :: closeAll 101) s ∧
      decide (closedOnBoth s ∧ s.1.blocksSentWith "tx1" = 2) = true :=
  ⟨exists_trace_of_exec _ (by decide +kernel), exists_trace_of_exec _ (by decide +kernel)⟩

end Cluster

end DecentralizedCloud
