import DecentralizedCloud.Lib.PriorityQueue
import DecentralizedCloud.Lib.Trace
import DecentralizedCloud.Storage.Blocks
import DecentralizedCloud.Storage.ObjectStore

/-!
# The queue of blocks

The handlers of `closeBlock` push blocks, and the worker `processBlocks` commits
them. The worker looks whether the queue is empty without holding the mutex; under
the mutex it then reads the top, commits it, and pops it, so that no push comes
between. It catches nothing: an exception in a commit ends it, with the block still
in the queue.

Only the worker pops, so every block that is pushed is committed once. The handler
reads the number of a block as an `int` for the queue, though, while the commit reads
it as a `long long`: the least number goes first as long as the conversion keeps the
order (`commits_in_order_iff`). And the worker goes on as long as no commit raises
(`keeps_going_iff`).
-/

namespace DecentralizedCloud.Storage.BlockQueue

open Machine PriorityQueue Schedule

/-! ## The machine -/

def orderByBlockNumber (a b : QueuedBlock) : Bool := decide (a.1 > b.1)

abbrev PriorityPairQueue := Queue orderByBlockNumber

/-- Where `processBlocks` is. -/
inductive Worker where
  /-- at the head of its loop -/
  | ready
  /-- has found the queue not empty -/
  | entering
  /-- left by an exception -/
  | stopped
deriving DecidableEq, Repr

structure St where
  blocksToCommit : PriorityPairQueue := .empty
  worker : Worker := .ready
  committed : List QueuedBlock := []

/-- The atomic steps. A push and a pop name the queue that comes out, as its next top
is open. A commit finds some DHT and some answers of IPFS. -/
inductive Event where
  | closeBlock (theFields : FieldValueMap) (queue : PriorityPairQueue)
  | look
  | commit (dht : String → String) (answers : BlockAnswers) (queue : PriorityPairQueue)

variable (S : Services) (base64_encodeString : String → String)

def step : Step St Event := fun s e =>
  match e with
  | .closeBlock theFields queue =>
      match closeBlock S theFields with
      | none => some s
      | some b =>
          if queue.elems = b ::ₘ s.blocksToCommit.elems then some { s with blocksToCommit := queue }
          else none
  | .look =>
      if s.worker = .ready ∧ s.blocksToCommit.top ≠ none then some { s with worker := .entering }
      else none
  | .commit dht answers queue =>
      match s.worker, s.blocksToCommit.top with
      | .entering, some b =>
          if ((addTransactions S answers base64_encodeString b.2).exec dht).2.isSome then
            if queue.elems = s.blocksToCommit.elems.erase b then
              some
                { blocksToCommit := queue
                  worker := .ready
                  committed := s.committed ++ [b] }
            else none
          else some { s with worker := .stopped }
      | _, _ => none

/-- The blocks that a history pushed. -/
def pushed (es : List Event) : Multiset QueuedBlock :=
  es.filterMap fun
    | .closeBlock theFields _ => Storage.closeBlock S theFields
    | _ => none

variable {S base64_encodeString} {s s' : St} {es : List Event}

theorem pushed_snoc (es : List Event) (e : Event) :
    pushed S (es ++ [e]) = pushed S es + pushed S [e] := by
  simp [pushed, List.filterMap_append]

theorem orderByBlockNumber_eq_false (a b : QueuedBlock) :
    orderByBlockNumber a b = false ↔ a.1 ≤ b.1 := by
  simp [orderByBlockNumber]

variable (S base64_encodeString) in
/-- What a step can do. -/
inductive Moves (s : St) : Event → St → Prop where
  | dropped {theFields : FieldValueMap} {queue : PriorityPairQueue}
      (h : Storage.closeBlock S theFields = none) : Moves s (.closeBlock theFields queue) s
  | pushed {theFields : FieldValueMap} {queue : PriorityPairQueue} {b : QueuedBlock}
      (h : Storage.closeBlock S theFields = some b)
      (hqueue : queue.elems = b ::ₘ s.blocksToCommit.elems) :
      Moves s (.closeBlock theFields queue) { s with blocksToCommit := queue }
  | looked (hworker : s.worker = .ready) (htop : s.blocksToCommit.top ≠ none) :
      Moves s .look { s with worker := .entering }
  | committed {dht : String → String} {answers : BlockAnswers} {queue : PriorityPairQueue}
      {b : QueuedBlock} (hworker : s.worker = .entering) (htop : s.blocksToCommit.top = some b)
      (hexec : ((addTransactions S answers base64_encodeString b.2).exec dht).2.isSome)
      (hqueue : queue.elems = s.blocksToCommit.elems.erase b) :
      Moves s (.commit dht answers queue)
        { blocksToCommit := queue, worker := .ready, committed := s.committed ++ [b] }
  | raised {dht : String → String} {answers : BlockAnswers} {queue : PriorityPairQueue}
      {b : QueuedBlock} (hworker : s.worker = .entering) (htop : s.blocksToCommit.top = some b)
      (hexec : ¬ ((addTransactions S answers base64_encodeString b.2).exec dht).2.isSome) :
      Moves s (.commit dht answers queue) { s with worker := .stopped }

/-- What a step can do. -/
theorem moves_of_step {e : Event} (h : step S base64_encodeString s e = some s') :
    Moves S base64_encodeString s e s' := by
  cases e with
  | closeBlock theFields queue =>
      simp only [step] at h
      split at h
      case h_1 hclose =>
          cases h
          exact .dropped hclose
      case h_2 b hclose =>
          split at h
          case isTrue hqueue =>
              cases h
              exact .pushed hclose hqueue
          case isFalse => cases h
  | look =>
      simp only [step] at h
      split at h
      case isTrue hlook =>
          cases h
          exact .looked hlook.1 hlook.2
      case isFalse => cases h
  | commit dht answers queue =>
      simp only [step] at h
      split at h
      case h_1 b hworker htop =>
          split at h
          case isTrue hexec =>
              split at h
              case isTrue hqueue =>
                  cases h
                  exact .committed hworker htop hexec hqueue
              case isFalse => cases h
          case isFalse hexec =>
              cases h
              exact .raised hworker htop hexec
      case h_2 => cases h

/-! ## Every block once -/

/-- Every pushed block is queued or has been committed; the worker does not enter an
empty queue. -/
structure Inv (S : Services) (es : List Event) (s : St) : Prop where
  conserved : pushed S es = s.committed + s.blocksToCommit.elems
  entering : s.worker = .entering → s.blocksToCommit.top ≠ none

theorem inv_init : Inv S [] {} where
  conserved := by simp [BlockQueue.pushed]
  entering := by simp

/-- Every step keeps the invariant. -/
theorem inv_step (es : List Event) (s : St) (e : Event) (s' : St) (hinv : Inv S es s)
    (hstep : step S base64_encodeString s e = some s') : Inv S (es ++ [e]) s' := by
  have hold := hinv.conserved
  rcases moves_of_step hstep with hclose | ⟨hclose, hqueue⟩ | ⟨-, htop⟩ | ⟨-, htop, -, hqueue⟩ |
    ⟨-, htop, -⟩
  · -- the handler has logged an exception
    refine ⟨?_, hinv.entering⟩
    rw [pushed_snoc, hold]
    simp [pushed, hclose]
  · rename_i theFields queue b
    refine ⟨?_, ?_⟩
    · have hpushed : pushed S [.closeBlock theFields queue] = {b} := by simp [pushed, hclose]
      rw [pushed_snoc, hold, hqueue, hpushed, add_assoc, add_comm s.blocksToCommit.elems,
        Multiset.singleton_add]
    · intro _ hnone
      rw [queue.top_eq_none_iff, hqueue] at hnone
      exact Multiset.cons_ne_zero hnone
  · refine ⟨?_, fun _ => htop⟩
    rw [pushed_snoc, hold]
    simp [pushed]
  · -- what is popped is what has been committed
    rename_i dht answers queue b
    refine ⟨?_, by simp⟩
    have hpushed : pushed S [.commit dht answers queue] = 0 := rfl
    have hmem : b ∈ s.blocksToCommit.elems := (s.blocksToCommit.highest b htop).1
    rw [pushed_snoc, hold, hqueue, hpushed, add_zero, ← Multiset.coe_add, Multiset.coe_singleton,
      add_assoc, Multiset.singleton_add, Multiset.cons_erase hmem]
  · refine ⟨?_, by simp⟩
    rw [pushed_snoc, hold]
    simp [pushed]

theorem inv_run (h : Run (step S base64_encodeString) {} es s) : Inv S es s :=
  h.invariant (Inv S) inv_init fun es s e s' hinv _ hstep => inv_step es s e s' hinv hstep

/-- What has been pushed is the signed block of some message. -/
theorem exists_of_mem_pushed {b : QueuedBlock} (h : b ∈ pushed S es) :
    ∃ theFields queue, Event.closeBlock theFields queue ∈ es ∧
      Storage.closeBlock S theFields = some b := by
  rcases List.mem_filterMap.mp (Multiset.mem_coe.mp h) with ⟨e, he, hpush⟩
  cases e with
  | closeBlock theFields queue => exact ⟨theFields, queue, he, hpush⟩
  | look | commit => cases hpush

/-! ## The least number first -/

/-- The number under which a queued block is committed. -/
def numberOf (S : Services) (b : QueuedBlock) : Option Int :=
  (S.parse b.2).bind fun block => block.longLongAt "n"

/-- In every run on the messages `offered` in which no commit raises, a drained queue has
committed every pushed block once, and each commit takes a block of least number. -/
def CommitsInOrder (S : Services) (base64_encodeString : String → String)
    (offered : FieldValueMap → Prop) : Prop :=
  ∀ es s, Run (step S base64_encodeString) {} es s →
    (∀ theFields queue, Event.closeBlock theFields queue ∈ es → offered theFields) →
    s.worker ≠ .stopped →
      (s.blocksToCommit.elems = 0 → (s.committed : Multiset QueuedBlock) = pushed S es) ∧
      ∀ dht answers queue s', step S base64_encodeString s (.commit dht answers queue) = some s' →
        s'.worker ≠ .stopped → ∃ b ∈ s.blocksToCommit.elems, s'.committed = s.committed ++ [b] ∧
          s'.blocksToCommit.elems = s.blocksToCommit.elems.erase b ∧
          ∀ c ∈ s.blocksToCommit.elems, ∀ n ∈ numberOf S b, ∀ m ∈ numberOf S c, n ≤ m

/-- The conversion of the numbers to `int` keeps their order. -/
def KeepsOrder (S : Services) (offered : FieldValueMap → Prop) : Prop :=
  ∀ f f' block block', offered f → offered f' → Storage.closeBlock S f ≠ none →
    Storage.closeBlock S f' ≠ none → payload S f = some block → payload S f' = some block' →
    Committable block' → ∀ n ∈ block.longLongAt "n", ∀ n' ∈ block'.longLongAt "n", n < n' →
      n.bmod (2 ^ 32) < n'.bmod (2 ^ 32)

section Order

theorem toSigned_bmod (q : Rat) : (Json.toSigned 64 q).bmod (2 ^ 32) = Json.toSigned 32 q := by
  unfold Json.toSigned
  rw [Int.bmod_bmod_of_dvd (by decide)]

/-- The queue orders a block by its number as an `int`. -/
theorem fst_of_closeBlock (hlaws : JsonLaws S.parse S.dump) {theFields : FieldValueMap}
    {b : QueuedBlock} (h : Storage.closeBlock S theFields = some b) :
    ∃ sent, payload S theFields = some sent ∧ numberOf S b = sent.longLongAt "n" ∧
      ∀ n ∈ sent.longLongAt "n", b.1 = n.bmod (2 ^ 32) := by
  rcases closeBlock_eq_some hlaws h with ⟨sent, block, hsent, hn, hparse, -, hsame⟩
  refine ⟨sent, hsent, ?_, ?_⟩
  · simp only [numberOf, hparse, Option.bind_some, Json.longLongAt, hsame "n" (by decide)]
  · intro n hlong
    unfold Json.longLongAt at hlong
    unfold Json.intAt at hn
    split at hlong
    case h_1 q hget =>
        rw [hget] at hn
        rw [← Option.some.inj hn, ← Option.some.inj hlong]
        exact (toSigned_bmod q).symm
    case h_2 => cases hlong

/-- Blocks whose numbers keep their order as `int`s are committed in order. -/
theorem commitsInOrder_of_keepsOrder (hlaws : JsonLaws S.parse S.dump)
    {offered : FieldValueMap → Prop} (h : KeepsOrder S offered) :
    CommitsInOrder S base64_encodeString offered := by
  intro es s hrun hoffered hrunning
  have hinv := inv_run hrun
  constructor
  · intro hempty
    rw [hinv.conserved, hempty, add_zero]
  · intro dht answers queue s' hstep hrunning'
    rcases moves_of_step hstep with _ | _ | _ | ⟨-, htop, hexec, hqueue⟩ | _
    · rename_i b
      rcases s.blocksToCommit.highest b htop with ⟨hmem, hleast⟩
      refine ⟨b, hmem, rfl, hqueue, ?_⟩
      intro c hc n hn m hm
      by_contra hlt
      -- both are signed blocks of messages
      have hpushed : ∀ d ∈ s.blocksToCommit.elems, ∃ f, offered f ∧
          Storage.closeBlock S f = some d := by
        intro d hd
        have hd' : d ∈ pushed S es := by
          rw [hinv.conserved]
          exact Multiset.mem_add.mpr (.inr hd)
        rcases exists_of_mem_pushed hd' with ⟨f, queue, hf, hclose⟩
        exact ⟨f, hoffered f queue hf, hclose⟩
      rcases hpushed b hmem with ⟨f', hf', hclose'⟩
      rcases hpushed c hc with ⟨f, hf, hclose⟩
      rcases fst_of_closeBlock hlaws hclose with ⟨sent, hsent, hnumber, hint⟩
      rcases fst_of_closeBlock hlaws hclose' with ⟨sent', hsent', hnumber', hint'⟩
      rcases closeBlock_eq_some hlaws hclose' with ⟨sent'', block, hsent'', -, hparse, hsigned,
        hsame⟩
      cases hsent'.symm.trans hsent''
      have hcommittable : Committable sent' :=
        (committable_congr (hsame "data" (by decide)) (hsame "n" (by decide))).mp
          ((exec_addTransactions hparse hsigned _).mp hexec).1
      have hconv := h f f' sent sent' hf hf' (by simp [hclose]) (by simp [hclose']) hsent hsent'
        hcommittable m (hnumber ▸ hm) n (hnumber' ▸ hn) (by omega)
      rw [← hint m (hnumber ▸ hm), ← hint' n (hnumber' ▸ hn)] at hconv
      have hle := (orderByBlockNumber_eq_false b c).mp (hleast c hc)
      omega
    · exact absurd rfl hrunning'

/-- IPFS that answers every request. -/
def answering : BlockAnswers := fun _ => some ""

theorem linked_answering (count : Nat) : Linked answering count :=
  ⟨fun _ _ => rfl, rfl⟩

/-- The worker may commit the top of its queue, if the commit completes. -/
theorem step_commit {b : QueuedBlock} {block : Json} {queue : PriorityPairQueue}
    (hworker : s.worker = .entering) (htop : s.blocksToCommit.top = some b)
    (hparse : S.parse b.2 = some block) (hsigned : Signed block) (hcommittable : Committable block)
    (hqueue : queue.elems = s.blocksToCommit.elems.erase b) (dht : String → String) :
    step S base64_encodeString s (.commit dht answering queue) =
      some
        { blocksToCommit := queue
          worker := .ready
          committed := s.committed ++ [b] } := by
  have hexec : ((addTransactions S answering base64_encodeString b.2).exec dht).2.isSome :=
    (exec_addTransactions hparse hsigned dht).mpr ⟨hcommittable, linked_answering _⟩
  simp [step, hworker, htop, hexec, hqueue]

/-- Blocks are committed in order only if their numbers keep their order as `int`s. -/
theorem keepsOrder_of_commitsInOrder (hlaws : JsonLaws S.parse S.dump)
    {offered : FieldValueMap → Prop} (h : CommitsInOrder S base64_encodeString offered) :
    KeepsOrder S offered := by
  intro f f' block block' hf hf' haccept haccept' hblock hblock' hcommittable n hn n' hn' hlt
  by_contra hge
  rcases Option.ne_none_iff_exists'.mp haccept with ⟨b, hclose⟩
  rcases Option.ne_none_iff_exists'.mp haccept' with ⟨b', hclose'⟩
  rcases fst_of_closeBlock hlaws hclose with ⟨sent, hsent, hnumber, hint⟩
  rcases fst_of_closeBlock hlaws hclose' with ⟨sent', hsent', hnumber', hint'⟩
  rcases closeBlock_eq_some hlaws hclose' with ⟨sent'', text, hsent'', -, hparse, hsigned, hsame⟩
  cases hblock.symm.trans hsent
  cases hblock'.symm.trans hsent'
  cases hblock'.symm.trans hsent''
  have hle : b'.1 ≤ b.1 := by
    rw [hint n hn, hint' n' hn']
    omega
  -- both are queued, and the greater number is at the top
  have hself : ∀ c : QueuedBlock, orderByBlockNumber c c = false :=
    fun c => (orderByBlockNumber_eq_false c c).mpr le_rfl
  let one : PriorityPairQueue := .single b (hself b)
  let both : PriorityPairQueue := .withTop (b' ::ₘ {b}) b' (Multiset.mem_cons_self b' {b}) (by
    intro c hc
    rcases Multiset.mem_cons.mp hc with rfl | hc
    · exact hself c
    · rw [Multiset.mem_singleton.mp hc]
      exact (orderByBlockNumber_eq_false b' b).mpr hle)
  have hrun : Run (step S base64_encodeString) {} [.closeBlock f one, .closeBlock f' both, .look]
      { blocksToCommit := both, worker := .entering } := by
    refine .cons trivial (t := { blocksToCommit := one }) ?_
      (.cons trivial (t := { blocksToCommit := both }) ?_ (.cons trivial ?_ .nil))
    · simp [step, hclose, one, Queue.single, Queue.withTop]
    · simp [step, hclose', one, both, Queue.single, Queue.withTop]
    · simp [step, both, Queue.withTop]
  have hstep : step S base64_encodeString { blocksToCommit := both, worker := .entering }
      (.commit (fun _ => "") answering one) =
        some { blocksToCommit := one, worker := .ready, committed := [] ++ [b'] } := by
    refine step_commit rfl rfl hparse hsigned ?_ ?_ _
    · exact (committable_congr (hsame "data" (by decide)) (hsame "n" (by decide))).mpr
        hcommittable
    · simp [one, both, Queue.single, Queue.withTop]
  have hoffered : ∀ theFields queue, Event.closeBlock theFields queue ∈
      [Event.closeBlock f one, .closeBlock f' both, .look] → offered theFields := by
    intro theFields queue hmem
    simp only [List.mem_cons, List.not_mem_nil, or_false, Event.closeBlock.injEq, reduceCtorEq]
      at hmem
    rcases hmem with ⟨rfl, -⟩ | ⟨rfl, -⟩
    · exact hf
    · exact hf'
  rcases (h _ _ hrun hoffered (by simp)).2 _ _ _ _ hstep (by simp) with
    ⟨c, -, hcommitted, -, hleast⟩
  have hc : c = b' := by simpa using hcommitted.symm
  subst hc
  have hmem : b ∈ both.elems := Multiset.mem_cons_of_mem (Multiset.mem_singleton_self b)
  have hcontra := hleast b hmem n' (hnumber' ▸ hn') n (hnumber ▸ hn)
  omega

end Order

namespace Sample

/-- The blocks of four messages. -/
def sent : List (String × Json) := [
  ("eyJuIjoyfQ==", .obj [("n", .num 2)]),
  ("eyJkYXRhIjpbeyJ0aWQiOiJ0IiwidHhpZCI6IngifV0sIm4iOjN9",
    .obj [("data", .arr [.obj [("tid", .str "t"), ("txid", .str "x")]]), ("n", .num 3)]),
  ("eyJuIjo0Mjk0OTY3Mjk3fQ==", .obj [("n", .num 4294967297)]),
  ("eyJkYXRhIjo1LCJuIjoxfQ==", .obj [("data", .num 5), ("n", .num 1)])]

def services : Services :=
  ObjectStore.services (fun text => ((sent.lookup text).map Json.write).getD "") fun _ _ => none

theorem laws : JsonLaws services.parse services.dump := Json.laws

theorem wellFormed_sent {b : String} {j : Json} (h : sent.lookup b = some j) : j.WellFormed := by
  have hall : ∀ block ∈ sent, block.2.held = true ∧ block.2.prints = true := by decide +kernel
  rcases List.lookup_eq_some_iff.mp h with ⟨before, behind, hsent, -⟩
  have hblock := hall (b, j) (by rw [hsent]; simp)
  exact ⟨hblock.1, hblock.2⟩

def message (b : String) : FieldValueMap := [("b", b), ("key", "k"), ("si", "s")]

theorem payload_message {b : String} {j : Json} (h : sent.lookup b = some j) :
    payload services (message b) = some j := by
  have hdecode : services.base64_decode b = services.dump j := by
    show ((sent.lookup b).map Json.write).getD "" = Json.write j
    rw [h]
    rfl
  simp [payload, message, FieldValueMap.at?, hdecode, laws.parse_dump (wellFormed_sent h)]

theorem closeBlock_message {b : String} {members : List (String × Json)} {n : Int}
    (h : sent.lookup b = some (.obj members)) (hn : (Json.obj members).intAt "n" = some n)
    (hprints : (Json.obj (Json.insertMember "v"
      (.arr [.obj [("k", .str "k"), ("si", .str "s")]]) members)).prints = true) :
    ∃ text, Storage.closeBlock services (message b) = some (n, text) := by
  have hk : (message b).at? "key" = some "k" := rfl
  have hsi : (message b).at? "si" = some "s" := rfl
  simp [Storage.closeBlock, payload_message h, hn, hk, hsi, Json.setMember, hprints]

/-- The message with block 2, and the one with block 3 and its transaction. -/
def two : FieldValueMap := message "eyJuIjoyfQ=="
def three : FieldValueMap := message "eyJkYXRhIjpbeyJ0aWQiOiJ0IiwidHhpZCI6IngifV0sIm4iOjN9"

theorem closeBlock_two : ∃ text, Storage.closeBlock services two = some (2, text) :=
  closeBlock_message rfl rfl (by decide)

theorem closeBlock_three : ∃ text, Storage.closeBlock services three = some (3, text) :=
  closeBlock_message rfl rfl (by decide)

end Sample

/-- The worker is in its loop, and commits every queued block in some later iteration. -/
def KeepsGoing (S : Services) (base64_encodeString : String → String) (s : St) : Prop :=
  s.worker ≠ .stopped ∧ ∀ b ∈ s.blocksToCommit.elems, ∃ es s' blocks,
    Run (step S base64_encodeString) s es s' ∧
      (∀ theFields queue, Event.closeBlock theFields queue ∉ es) ∧
      s'.committed = s.committed ++ blocks ∧ b ∈ blocks

/-- An accepted block holds what its commit reads, and no link of a commit fails. -/
def Meets (S : Services) (s : St) : Event → Prop
  | .closeBlock theFields _ => Storage.closeBlock S theFields ≠ none →
      ∀ block, payload S theFields = some block → Committable block
  | .look => True
  | .commit _ answers _ => ∀ b ∈ s.blocksToCommit.top, ∀ block, S.parse b.2 = some block →
      Linked answers (transactionCount block)

section Going

/-- A queued block that can be committed. -/
def Ready (S : Services) (b : QueuedBlock) : Prop :=
  ∃ block, S.parse b.2 = some block ∧ Signed block ∧ Committable block

/-- The worker is in its loop, and all blocks can be committed. -/
structure Sound (S : Services) (s : St) : Prop where
  running : s.worker ≠ .stopped
  ready : ∀ b ∈ (s.committed : Multiset QueuedBlock) + s.blocksToCommit.elems, Ready S b

theorem ready_iff (hlaws : JsonLaws S.parse S.dump) {theFields : FieldValueMap}
    {b : QueuedBlock} (h : Storage.closeBlock S theFields = some b) :
    Ready S b ↔ ∀ block, payload S theFields = some block → Committable block := by
  rcases closeBlock_eq_some hlaws h with ⟨sent, block, hsent, -, hparse, hsigned, hsame⟩
  have hcongr := committable_congr (hsame "data" (by decide)) (hsame "n" (by decide))
  constructor
  · rintro ⟨block', hparse', -, hcommittable⟩ sent' hsent'
    cases hparse.symm.trans hparse'
    cases hsent.symm.trans hsent'
    exact hcongr.mp hcommittable
  · intro h
    exact ⟨block, hparse, hsigned, hcongr.mpr (h sent hsent)⟩

/-- A step that meets the condition keeps the ledger going. -/
theorem Sound.step (hlaws : JsonLaws S.parse S.dump) {e : Event} (h : Sound S s)
    (hmeets : Meets S s e) (hstep : BlockQueue.step S base64_encodeString s e = some s') :
    Sound S s' := by
  rcases moves_of_step hstep with hclose | ⟨hclose, hqueue⟩ | ⟨hworker, htop⟩ |
    ⟨hworker, htop, hexec, hqueue⟩ | ⟨hworker, htop, hexec⟩
  · exact h
  · refine ⟨h.running, ?_⟩
    intro c hc
    rw [hqueue, Multiset.mem_add, Multiset.mem_cons] at hc
    rcases hc with hc | rfl | hc
    · exact h.ready c (Multiset.mem_add.mpr (.inl hc))
    · exact (ready_iff hlaws hclose).mpr (hmeets (by simp [hclose]))
    · exact h.ready c (Multiset.mem_add.mpr (.inr hc))
  · exact ⟨by simp, h.ready⟩
  · rename_i b
    refine ⟨by simp, ?_⟩
    intro c hc
    have hmem := (s.blocksToCommit.highest b htop).1
    rw [hqueue, ← Multiset.coe_add, Multiset.coe_singleton, add_assoc, Multiset.singleton_add,
      Multiset.cons_erase hmem] at hc
    exact h.ready c hc
  · -- the commit of a sound state does not raise
    rename_i b
    have hmem := (s.blocksToCommit.highest b htop).1
    rcases h.ready b (Multiset.mem_add.mpr (.inr hmem)) with ⟨block, hparse, hsigned, hblock⟩
    have hlinked := hmeets b htop block hparse
    exact absurd ((exec_addTransactions hparse hsigned _).mpr ⟨hblock, hlinked⟩) hexec

/-- A step that has kept the ledger going meets the condition. -/
theorem Sound.of_step (hlaws : JsonLaws S.parse S.dump) {e : Event} (h : Sound S s')
    (hstep : BlockQueue.step S base64_encodeString s e = some s') : Sound S s ∧ Meets S s e := by
  rcases moves_of_step hstep with hclose | ⟨hclose, hqueue⟩ | ⟨hworker, htop⟩ |
    ⟨hworker, htop, hexec, hqueue⟩ | ⟨hworker, htop, hexec⟩
  · exact ⟨h, fun haccept => absurd hclose haccept⟩
  · rename_i theFields queue b
    -- the block that is pushed is ready already
    have hready : ∀ c ∈ (s.committed : Multiset QueuedBlock) + (b ::ₘ s.blocksToCommit.elems),
        Ready S c := by
      intro c hc
      exact h.ready c (by rwa [hqueue])
    refine ⟨⟨h.running, ?_⟩, fun _ => (ready_iff hlaws hclose).mp (hready b (by simp))⟩
    intro c hc
    refine hready c ?_
    rcases Multiset.mem_add.mp hc with hc | hc
    · exact Multiset.mem_add.mpr (.inl hc)
    · exact Multiset.mem_add.mpr (.inr (Multiset.mem_cons_of_mem hc))
  · exact ⟨⟨by simp [hworker], h.ready⟩, trivial⟩
  · rename_i b
    -- the block that is committed was ready before
    have hmem := (s.blocksToCommit.highest b htop).1
    constructor
    · refine ⟨by simp [hworker], ?_⟩
      intro c hc
      refine h.ready c ?_
      rwa [hqueue, ← Multiset.coe_add, Multiset.coe_singleton, add_assoc, Multiset.singleton_add,
        Multiset.cons_erase hmem]
    · intro c hc block hparse
      cases htop.symm.trans hc
      rcases h.ready b (by simp) with ⟨block', hparse', hsigned, -⟩
      cases hparse.symm.trans hparse'
      exact ((exec_addTransactions hparse hsigned _).mp hexec).2
  -- a worker that has stopped goes on no more
  · exact absurd rfl h.running

/-- Queued blocks are signed, and committed ones hold what their commit has read. -/
theorem committed_ready (hlaws : JsonLaws S.parse S.dump)
    (h : Run (step S base64_encodeString) {} es s) : ∀ b ∈ s.committed, Ready S b := by
  induction h with
  | nil => simp
  | @snoc es s s' e h _ hstep ih =>
      rcases moves_of_step hstep with _ | _ | _ | ⟨-, htop, hexec, -⟩ | _
      · exact ih
      · exact ih
      · exact ih
      · rename_i b
        intro c hc
        rcases List.mem_append.mp hc with hc | hc
        · exact ih c hc
        · rw [List.mem_singleton.mp hc]
          have hpushed : b ∈ pushed S es := by
            rw [(inv_run h).conserved]
            exact Multiset.mem_add.mpr (.inr (s.blocksToCommit.highest b htop).1)
          rcases exists_of_mem_pushed hpushed with ⟨f, queue, -, hclose⟩
          rcases closeBlock_eq_some hlaws hclose with ⟨-, block, -, -, hparse, hsigned, -⟩
          exact ⟨block, hparse, hsigned, ((exec_addTransactions hparse hsigned _).mp hexec).1⟩
      · exact ih

variable (base64_encodeString) in
/-- From a sound state the worker can empty the queue. -/
theorem Sound.drains (h : Sound S s) :
    ∃ es s' blocks, Run (BlockQueue.step S base64_encodeString) s es s' ∧
      (∀ theFields queue, Event.closeBlock theFields queue ∉ es) ∧
      s'.committed = s.committed ++ blocks ∧
      (blocks : Multiset QueuedBlock) = s.blocksToCommit.elems := by
  induction hn : s.blocksToCommit.elems.card generalizing s with
  | zero =>
      rw [Multiset.card_eq_zero] at hn
      exact ⟨[], s, [], .nil, by simp, by simp, hn.symm⟩
  | succ n ih =>
      have hne : s.blocksToCommit.elems ≠ 0 := by
        intro hzero
        simp [hzero] at hn
      rcases Option.ne_none_iff_exists'.mp (mt s.blocksToCommit.eq_zero_of_none hne) with
        ⟨b, htop⟩
      have hmem := (s.blocksToCommit.highest b htop).1
      rcases h.ready b (Multiset.mem_add.mpr (.inr hmem)) with ⟨block, hparse, hsigned, hblock⟩
      rcases exists_queue orderByBlockNumber_eq_false (s.blocksToCommit.elems.erase b) with
        ⟨queue, hqueue⟩
      -- one more iteration
      let next : St :=
        { blocksToCommit := queue, worker := .ready, committed := s.committed ++ [b] }
      have hnext : Sound S next := by
        refine ⟨by simp [next], ?_⟩
        intro c hc
        refine h.ready c ?_
        rwa [hqueue, ← Multiset.coe_add, Multiset.coe_singleton, add_assoc, Multiset.singleton_add,
          Multiset.cons_erase hmem] at hc
      have hcard : next.blocksToCommit.elems.card = n := by
        have herase := Multiset.card_erase_of_mem hmem
        rw [hn] at herase
        rw [hqueue, herase]
        rfl
      rcases ih hnext hcard with ⟨es, s', blocks, hrun, hpush, hcommitted, hblocks⟩
      have hcommit : Run (BlockQueue.step S base64_encodeString) { s with worker := .entering }
          (.commit (fun _ => "") answering queue :: es) s' :=
        .cons trivial (step_commit (s := { s with worker := .entering }) rfl htop hparse hsigned
          hblock hqueue _) hrun
      have hall : (b :: blocks : Multiset QueuedBlock) = s.blocksToCommit.elems := by
        rw [← Multiset.cons_coe, hblocks, hqueue, Multiset.cons_erase hmem]
      cases hworker : s.worker with
      | ready =>
          refine ⟨.look :: .commit (fun _ => "") answering queue :: es, s', b :: blocks,
            .cons trivial ?_ hcommit, ?_, by simp [hcommitted, next], hall⟩
          · simp [BlockQueue.step, hworker, htop]
          · simpa using hpush
      | entering =>
          refine ⟨.commit (fun _ => "") answering queue :: es, s', b :: blocks, ?_, ?_,
            by simp [hcommitted, next], hall⟩
          · rwa [← hworker] at hcommit
          · simpa using hpush
      | stopped => exact absurd hworker h.running

/-- In a run the worker keeps going if and only if its state is sound. -/
theorem keepsGoing_iff_sound (hlaws : JsonLaws S.parse S.dump)
    (hrun : Run (step S base64_encodeString) {} es s) :
    KeepsGoing S base64_encodeString s ↔ Sound S s := by
  constructor
  · rintro ⟨hrunning, hlater⟩
    refine ⟨hrunning, ?_⟩
    intro b hb
    rcases Multiset.mem_add.mp hb with hb | hb
    · exact committed_ready hlaws hrun b (Multiset.mem_coe.mp hb)
    · rcases hlater b hb with ⟨es', s', blocks, hrun', -, hcommitted, hmem⟩
      refine committed_ready hlaws (hrun.append hrun') b ?_
      rw [hcommitted]
      exact List.mem_append_right _ hmem
  · intro h
    refine ⟨h.running, ?_⟩
    intro b hb
    rcases h.drains base64_encodeString with
      ⟨es', s', blocks, hrun', hpush, hcommitted, hblocks⟩
    refine ⟨es', s', blocks, hrun', hpush, hcommitted, ?_⟩
    rwa [← hblocks] at hb

end Going

/-- The ledger keeps going if and only if every accepted block holds what its commit reads
and no link of a commit has failed. -/
theorem keeps_going_iff (hlaws : JsonLaws S.parse S.dump)
    (hrun : Run (step S base64_encodeString) {} es s) :
    KeepsGoing S base64_encodeString s ↔
      Trace (step S base64_encodeString) (Meets S) {} es s := by
  rw [keepsGoing_iff_sound hlaws hrun]
  constructor
  · intro hsound
    induction hrun with
    | nil => exact .nil
    | @snoc es s s' e hrun _ hstep ih =>
        rcases hsound.of_step hlaws hstep with ⟨hbefore, hmeets⟩
        exact .snoc (ih hbefore) hmeets hstep
  · intro htrace
    refine htrace.invariant (fun _ s => Sound S s) ⟨by simp, by simp⟩ ?_
    intro es s e s' hsound hmeets hstep
    exact hsound.step hlaws hmeets hstep

/-- Answers of IPFS that fail to add an object, but no link. -/
def Sample.unadded : BlockAnswers := fun r =>
  match r with
  | .transaction _ | .block => none
  | .root _ | .link _ | .blockRoot => some "h"

/-- Block 2 is committed although its object could not be added, and block 3 will be. -/
theorem keeps_going_iff_two :
    ∃ es s, Trace (step Sample.services id) (Meets Sample.services) {} es s ∧
      s.committed.map (·.1) = [2] ∧ (∃ b ∈ s.blocksToCommit.elems, b.1 = 3) ∧
      KeepsGoing Sample.services id s := by
  rcases Sample.closeBlock_two with ⟨text, hclose⟩
  rcases Sample.closeBlock_three with ⟨text', hclose'⟩
  rcases closeBlock_eq_some Sample.laws hclose with
    ⟨sent, block, hsent, -, hparse, hsigned, hsame⟩
  have hempty : sent = .obj [("n", .num 2)] :=
    Option.some.inj (hsent.symm.trans (Sample.payload_message rfl))
  have hcommittable : Committable sent := by
    rw [hempty]
    exact ⟨⟨[], rfl, by simp⟩, rfl⟩
  have hlinked : ∀ count, Linked Sample.unadded count := fun _ => ⟨fun _ _ => rfl, rfl⟩
  -- the failures of IPFS do not matter, as they concern no link
  have hcommit : ((addTransactions Sample.services Sample.unadded id text).exec
      fun _ => "").2.isSome :=
    (exec_addTransactions hparse hsigned _).mpr
      ⟨(committable_congr (hsame "data" (by decide)) (hsame "n" (by decide))).mpr hcommittable,
        hlinked _⟩
  let one : PriorityPairQueue := .single (2, text) (by simp [orderByBlockNumber])
  let next : PriorityPairQueue := .single (3, text') (by simp [orderByBlockNumber])
  -- block 2 is committed between the two pushes
  have htrace : Trace (step Sample.services id) (Meets Sample.services) {}
      [.closeBlock Sample.two one, .look, .commit (fun _ => "") Sample.unadded .empty,
        .closeBlock Sample.three next] { blocksToCommit := next, committed := [(2, text)] } := by
    refine .cons ?_ (t := { blocksToCommit := one }) ?_ (.cons trivial
      (t := { blocksToCommit := one, worker := .entering }) ?_ (.cons ?_
        (t := { committed := [(2, text)] }) ?_ (.cons ?_ ?_ .nil)))
    · intro _ sent' hsent'
      cases hsent.symm.trans hsent'
      exact hcommittable
    · simp [step, hclose, one, Queue.single, Queue.withTop]
    · simp [step, one, Queue.single, Queue.withTop]
    · exact fun _ _ _ _ => hlinked _
    · simp [step, one, Queue.single, Queue.withTop, hcommit]
    · intro _ sent' hsent'
      cases (Sample.payload_message rfl).symm.trans hsent'
      refine ⟨⟨_, rfl, ?_⟩, rfl⟩
      intro transaction htransaction
      cases List.mem_singleton.mp htransaction
      exact ⟨rfl, rfl⟩
    · simp [step, hclose', next, Queue.single, Queue.withTop]
  exact ⟨_, _, htrace, rfl, ⟨(3, text'), by simp [next, Queue.single, Queue.withTop], rfl⟩,
    (keeps_going_iff Sample.laws htrace.run).mpr htrace⟩

/-- A block whose data is a number ends the worker, and block 2 waits for ever. -/
theorem failing_block_stops : ∃ es s, Run (step Sample.services id) {} es s ∧
    (∀ theFields queue, Event.closeBlock theFields queue ∈ es →
      Storage.closeBlock Sample.services theFields ≠ none) ∧
    (∃ b ∈ s.blocksToCommit.elems, b.1 = 2) ∧ ¬ KeepsGoing Sample.services id s := by
  rcases Sample.closeBlock_message (b := "eyJkYXRhIjo1LCJuIjoxfQ==") (n := 1) rfl rfl (by decide)
    with ⟨text, hclose⟩
  rcases Sample.closeBlock_two with ⟨text', hclose'⟩
  let one : PriorityPairQueue := .single (1, text) (by simp [orderByBlockNumber])
  let both : PriorityPairQueue :=
    .withTop ((2, text') ::ₘ {(1, text)}) (1, text) (by simp) (by simp [orderByBlockNumber])
  -- the data of block 1 is no array
  have hraised : ¬ ((addTransactions Sample.services answering id text).exec
      fun _ => "").2.isSome := by
    rcases closeBlock_eq_some Sample.laws hclose with
      ⟨sent, block, hsent, -, hparse, hsigned, hsame⟩
    cases (Sample.payload_message (b := "eyJkYXRhIjo1LCJuIjoxfQ==") rfl).symm.trans hsent
    rw [exec_addTransactions hparse hsigned]
    rintro ⟨hcommittable, -⟩
    rcases (committable_congr (hsame "data" (by decide)) (hsame "n" (by decide))).mp
      hcommittable with ⟨⟨transactions, hdata, -⟩, -⟩
    cases hdata
  refine ⟨[.closeBlock (Sample.message "eyJkYXRhIjo1LCJuIjoxfQ==") one,
    .closeBlock Sample.two both, .look, .commit (fun _ => "") answering one],
    { blocksToCommit := both, worker := .stopped },
    .cons trivial (t := { blocksToCommit := one }) ?_ (.cons trivial
      (t := { blocksToCommit := both }) ?_ (.cons trivial
        (t := { blocksToCommit := both, worker := .entering }) ?_ (.cons trivial ?_ .nil))),
    ?_, ⟨(2, text'), by simp [both, Queue.withTop], rfl⟩, fun h => h.1 rfl⟩
  · simp [step, hclose, one, Queue.single, Queue.withTop]
  · simp [step, hclose', one, both, Queue.single, Queue.withTop]
  · simp [step, both, Queue.withTop]
  · simp only [step, both, Queue.withTop]
    rw [if_neg hraised]
  · intro theFields queue hmem
    simp only [List.mem_cons, List.not_mem_nil, or_false, Event.closeBlock.injEq, reduceCtorEq]
      at hmem
    rcases hmem with ⟨rfl, -⟩ | ⟨rfl, -⟩
    · simp [hclose]
    · simp [hclose']

end DecentralizedCloud.Storage.BlockQueue
