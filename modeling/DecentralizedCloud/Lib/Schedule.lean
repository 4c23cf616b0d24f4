import Mathlib.Data.List.FinRange
import Mathlib.Data.List.Induction
import DecentralizedCloud.Lib.Program
import DecentralizedCloud.Lib.Trace

/-!
# Interleaved programs

Programs on one store are scheduled step by step. Two programs of one queue
never overlap; any others may. A run follows an order of the programs when no
step reads what a later program has written, or writes what a later one has read
or written (`InOrder`). The store and the outputs at its end are then those of
running the programs one after another, in that order (`serializable`).

Only tracked keys count. A key that no program reads may be written by the
programs in any order; nothing is said about its value.
-/

namespace Schedule

universe u

/-! ## Scheduling -/

inductive Phase where
  | waiting
  | running
  | finished
deriving DecidableEq

/-- `n` programs on a store. -/
structure State (n : Nat) (K V O R : Type u) where
  store : K → V
  thread : Fin n → Thread K V O R
  phase : Fin n → Phase

inductive Event (n : Nat) where
  | start (i : Fin n)
  | step (i : Fin n)
  | finish (i : Fin n)

/-- The elements of a list after the first `a`. -/
def after {α : Type*} [DecidableEq α] (a : α) : List α → List α
  | [] => []
  | b :: l => if b = a then l else after a l

section After

variable {α : Type*} [DecidableEq α] {a b : α} {l r : List α}

theorem after_append (h : a ∉ l) (r : List α) : after a (l ++ a :: r) = r := by
  induction l with
  | nil => simp [after]
  | cons b l ih =>
      rw [List.mem_cons, not_or] at h
      simp [after, Ne.symm h.1, ih h.2]

theorem after_of_nodup (h : (l ++ a :: r).Nodup) : after a (l ++ a :: r) = r := by
  apply after_append
  intro hmem
  exact List.disjoint_of_nodup_append h hmem List.mem_cons_self

theorem mem_after (h : a ∈ l) : b ∈ after a (l ++ b :: r) := by
  rcases List.eq_append_cons_of_mem h with ⟨l₁, l₂, rfl, hfirst⟩
  rw [List.append_assoc, List.cons_append, after_append hfirst]
  simp

end After

section Machine

variable {n : Nat} {K V O R : Type u} [DecidableEq K] {Q : Type*} [DecidableEq Q]

/-- Programs of one queue run one after another, in any order. -/
def step (queue : Fin n → Q) : Machine.Step (State n K V O R) (Event n) := fun s e =>
  match e with
  | .start i =>
      if s.phase i = .waiting ∧ ∀ j, s.phase j = .running → queue j ≠ queue i then
        some { s with phase := Function.update s.phase i .running }
      else none
  | .step i =>
      if s.phase i = .running then
        ((s.thread i).step s.store).map fun (σ, t) =>
          { s with store := σ, thread := Function.update s.thread i t }
      else none
  | .finish i =>
      if s.phase i = .running ∧ (s.thread i).ended = true then
        some { s with phase := Function.update s.phase i .finished }
      else none

/-- A step leaves the footprints of the programs that are later in `order` alone. -/
def InOrder (tracked : K → Prop) (order : List (Fin n)) (s : State n K V O R) (e : Event n) :
    Prop :=
  match e with
  | .step i => ∀ j ∈ after i order, (s.thread i).Clear tracked (s.thread j)
  | .start _ | .finish _ => True

instance {tracked : K → Prop} [DecidablePred tracked] (order : List (Fin n))
    (s : State n K V O R) (e : Event n) : Decidable (InOrder tracked order s e) :=
  match e with
  | .step i =>
      inferInstanceAs (Decidable (∀ j ∈ after i order, (s.thread i).Clear tracked (s.thread j)))
  | .start _ | .finish _ => isTrue trivial

/-- No program has started. -/
def State.initial (prog : Fin n → Prog K V O R) (σ : K → V) : State n K V O R where
  store := σ
  thread i := { prog := prog i }
  phase _ := .waiting

/-- The programs one after another, each alone on the store. -/
def serial (prog : Fin n → Prog K V O R) (σ : K → V) (order : List (Fin n)) : K → V :=
  order.foldl (fun σ i => ((prog i).run σ).1) σ

theorem serial_snoc (prog : Fin n → Prog K V O R) (σ : K → V) (order : List (Fin n)) (i : Fin n) :
    serial prog σ (order ++ [i]) = ((prog i).run (serial prog σ order)).1 := by
  simp [serial]

/-! ## Writes in order -/

/-- The store with the writes of the threads on top, those of later threads over
those of earlier ones. -/
def layered (thread : Fin n → Thread K V O R) (σ : K → V) (order : List (Fin n)) : K → V :=
  order.foldl (fun σ i => overlay (thread i).written σ) σ

variable {thread thread' : Fin n → Thread K V O R} {t t' : Thread K V O R} {σ σ' σ₀ : K → V}
  {order l r : List (Fin n)} {i : Fin n} {k : K}

theorem layered_append (thread : Fin n → Thread K V O R) (σ : K → V) (l r : List (Fin n)) :
    layered thread σ (l ++ r) = layered thread (layered thread σ l) r := by
  simp [layered]

theorem layered_snoc (thread : Fin n → Thread K V O R) (σ : K → V) (l : List (Fin n)) (i : Fin n) :
    layered thread σ (l ++ [i]) = overlay (thread i).written (layered thread σ l) := by
  simp [layered]

theorem layered_congr (h : ∀ i ∈ order, (thread' i).written = (thread i).written) (σ : K → V) :
    layered thread' σ order = layered thread σ order := by
  induction order generalizing σ with
  | nil => rfl
  | cons i order ih =>
      rw [List.forall_mem_cons] at h
      simp only [layered, List.foldl_cons] at ih ⊢
      rw [h.1, ih h.2]

/-- Threads that have not written a key show what is below them. -/
theorem layered_of_unwritten (h : ∀ i ∈ r, (thread i).written.lookup k = none) (σ : K → V) :
    layered thread σ r k = σ k := by
  induction r generalizing σ with
  | nil => rfl
  | cons i r ih =>
      rw [List.forall_mem_cons] at h
      simp only [layered, List.foldl_cons] at ih ⊢
      rw [ih h.2, overlay_of_lookup_none h.1]

/-- The last thread that has written a key decides its value. -/
theorem layered_eq_overlay (h : ∀ j ∈ r, (thread j).written.lookup k = none) (σ : K → V) :
    layered thread σ (l ++ i :: r) k = overlay (thread i).written (layered thread σ l) k := by
  rw [layered_append, ← layered_snoc]
  simp only [layered, List.foldl_cons, List.foldl_append, List.foldl_nil]
  exact layered_of_unwritten h _

theorem layered_update_of_eq (h : t.written = (thread i).written) (σ : K → V) :
    layered (Function.update thread i t) σ order = layered thread σ order := by
  apply layered_congr
  intro j _
  rcases eq_or_ne j i with rfl | hne
  · rw [Function.update_self, h]
  · rw [Function.update_of_ne hne]

omit [DecidableEq K] in
theorem seen_update (h : t.seen = (thread i).seen) (j : Fin n) :
    (Function.update thread i t j).seen = (thread j).seen := by
  rcases eq_or_ne j i with rfl | hne
  · rw [Function.update_self, h]
  · rw [Function.update_of_ne hne]

/-- A write of one thread changes one key only. -/
theorem layered_update_of_ne {v : V} {k' : K} (hne : k' ≠ k)
    (hwritten : t.written = (k, v) :: (thread i).written) (σ : K → V) :
    layered (Function.update thread i t) σ order k' = layered thread σ order k' := by
  -- two stores that agree on the key still do after one more thread
  have hover : ∀ (ρ ρ' : K → V) j, ρ k' = ρ' k' →
      overlay (Function.update thread i t j).written ρ k' =
        overlay (thread j).written ρ' k' := by
    intro ρ ρ' j h
    rcases eq_or_ne j i with rfl | hj
    · rw [Function.update_self, hwritten, overlay, overlay, lookup_cons_ne hne, h]
    · rw [Function.update_of_ne hj, overlay, overlay, h]
  have hfold : ∀ (ρ ρ' : K → V), ρ k' = ρ' k' →
      layered (Function.update thread i t) ρ order k' = layered thread ρ' order k' := by
    induction order with
    | nil => exact fun ρ ρ' h => h
    | cons j order ih =>
        intro ρ ρ' h
        exact ih _ _ (hover ρ ρ' j h)
  exact hfold σ σ rfl

/-! ## Whole runs -/

variable {prog : Fin n → Prog K V O R} {queue : Fin n → Q} {s s' : State n K V O R}
  {tracked : K → Prop}

/-- The store holds the writes of the threads in order, and every thread has
seen the writes of the earlier ones. -/
structure Inv (prog : Fin n → Prog K V O R) (tracked : K → Prop) (σ₀ : K → V)
    (order : List (Fin n)) (s : State n K V O R) : Prop where
  follows : ∀ i, (s.thread i).Follows (prog i)
  reads : ∀ i, (s.thread i).prog.Reads tracked
  ended : ∀ i, s.phase i = .finished → (s.thread i).ended = true
  store : ∀ k, tracked k → s.store k = layered s.thread σ₀ order k
  seen : ∀ l i r, order = l ++ i :: r → ∀ x ∈ (s.thread i).seen,
    tracked x.1 ∧ layered s.thread σ₀ l x.1 = x.2

theorem inv_initial (hreads : ∀ i, (prog i).Reads tracked) :
    Inv prog tracked σ₀ order (.initial prog σ₀) := by
  constructor
  case follows => exact fun i => .start (prog i)
  case reads => exact hreads
  case ended => simp [State.initial]
  case store =>
      intro k _
      rw [layered_of_unwritten]
      · rfl
      · exact fun _ _ => rfl
  case seen => simp [State.initial]

/-- Where no later thread has written a key, the store shows what the thread
itself and the earlier ones have written. -/
theorem Inv.store_eq (h : Inv prog tracked σ₀ order s) (hk : tracked k)
    (horder : order = l ++ i :: r) (hclear : ∀ j ∈ r, (s.thread j).written.lookup k = none) :
    s.store k = overlay (s.thread i).written (layered s.thread σ₀ l) k := by
  subst horder
  rw [h.store k hk, layered_eq_overlay hclear]

/-- A thread reads its own writes back. -/
theorem Inv.own (h : Inv prog tracked σ₀ order s) (horder : order = l ++ i :: r)
    (hclear : ∀ j ∈ r, (s.thread i).Clear tracked (s.thread j)) :
    ∀ k next, (s.thread i).prog = .get k next → ∀ v ∈ (s.thread i).written.lookup k,
      s.store k = v := by
  intro k next hprog v hv
  have hreads := h.reads i
  rw [hprog] at hreads
  have hlater : ∀ j ∈ r, (s.thread j).written.lookup k = none := by
    intro j hj
    exact (hclear j hj).of_get hprog hreads.1
  rw [h.store_eq hreads.1 horder hlater, overlay_of_lookup_some hv]

/-- After a step of one thread the store still holds the writes in order. -/
theorem Inv.store_of_moves (h : Inv prog tracked σ₀ order s) (horder : order = l ++ i :: r)
    (hnodup : order.Nodup) (hclear : ∀ j ∈ r, (s.thread i).Clear tracked (s.thread j))
    (hmoves : (s.thread i).Moves s.store σ' t') (hk : tracked k) :
    σ' k = layered (Function.update s.thread i t') σ₀ order k := by
  cases hmoves with
  | silent hseen hwritten | saw k' next hprog hnone hseen hwritten =>
      -- nothing is written
      rw [layered_update_of_eq hwritten, h.store k hk]
  | wrote k' v next hprog hseen hwritten =>
      rcases eq_or_ne k k' with rfl | hne
      · -- the write is on top, because no later thread has written the key
        have hlater : ∀ j ∈ r, (Function.update s.thread i t' j).written.lookup k = none := by
          intro j hj
          have hji : j ≠ i := by
            rintro rfl
            subst horder
            exact (List.nodup_cons.mp (List.nodup_append.mp hnodup).2.1).1 hj
          rw [Function.update_of_ne hji]
          exact ((hclear j hj).of_put hprog hk).1
        subst horder
        rw [layered_eq_overlay hlater, Function.update_self, Function.update_self, hwritten,
          overlay_of_lookup_some List.lookup_cons_self]
      · rw [Function.update_of_ne hne, layered_update_of_ne hne hwritten, h.store k hk]

/-- After a step of one thread every thread still has seen the earlier writes. -/
theorem Inv.seen_of_moves (h : Inv prog tracked σ₀ order s) (hnodup : order.Nodup)
    (hclear : ∀ j ∈ after i order, (s.thread i).Clear tracked (s.thread j))
    (hmoves : (s.thread i).Moves s.store σ' t') {j : Fin n} (horder : order = l ++ j :: r)
    {x : K × V} (hx : x ∈ (Function.update s.thread i t' j).seen) :
    tracked x.1 ∧ layered (Function.update s.thread i t') σ₀ l x.1 = x.2 := by
  cases hmoves with
  | silent hseen hwritten =>
      rw [layered_update_of_eq hwritten]
      rw [seen_update hseen] at hx
      exact h.seen l j r horder x hx
  | saw k next hprog hnone hseen hwritten =>
      rw [layered_update_of_eq hwritten]
      rcases eq_or_ne j i with rfl | hne
      · rw [Function.update_self, hseen, List.mem_cons] at hx
        rcases hx with rfl | hx
        · -- the value read is that of the earlier threads
          have hreads := h.reads j
          rw [hprog] at hreads
          have hlater : ∀ j' ∈ r, (s.thread j').written.lookup k = none := by
            intro j' hj'
            rw [horder, after_of_nodup (horder ▸ hnodup)] at hclear
            exact (hclear j' hj').of_get hprog hreads.1
          refine ⟨hreads.1, ?_⟩
          rw [h.store_eq hreads.1 horder hlater, overlay_of_lookup_none hnone]
        · exact h.seen l j r horder x hx
      · rw [Function.update_of_ne hne] at hx
        exact h.seen l j r horder x hx
  | wrote k v next hprog hseen hwritten =>
      rw [seen_update hseen] at hx
      rcases h.seen l j r horder x hx with ⟨hk, hold⟩
      refine ⟨hk, ?_⟩
      rcases eq_or_ne x.1 k with rfl | hne
      · -- a later thread has not seen the key, so `j` is not later than `i`
        have hi : i ∉ l := by
          intro hi
          have hunseen := ((hclear j (horder ▸ mem_after hi)).of_put hprog hk).2
          exact lookup_ne_none_of_mem hx hunseen
        rw [layered_congr ?_ σ₀, hold]
        intro j' hj'
        rw [Function.update_of_ne (ne_of_mem_of_not_mem hj' hi)]
      · rw [layered_update_of_ne hne hwritten, hold]

/-- A step of a running thread. -/
theorem inv_step (h : Inv prog tracked σ₀ order s) (hnodup : order.Nodup) (hi : i ∈ order)
    (hclear : ∀ j ∈ after i order, (s.thread i).Clear tracked (s.thread j))
    (hrunning : s.phase i = .running) (hstep : (s.thread i).step s.store = some (σ', t')) :
    Inv prog tracked σ₀ order
      { s with store := σ', thread := Function.update s.thread i t' } := by
  rcases List.append_of_mem hi with ⟨l, r, horder⟩
  have hlater : ∀ j ∈ r, (s.thread i).Clear tracked (s.thread j) := by
    intro j hj
    apply hclear j
    rwa [horder, after_of_nodup (horder ▸ hnodup)]
  have hmoves := Thread.moves_of_step hstep
  constructor
  -- the own thread moves on, and the others stay
  case follows =>
      intro j
      rcases eq_or_ne j i with rfl | hne
      · simpa using (h.follows j).step (h.own horder hlater) hstep
      · simpa [hne] using h.follows j
  case reads =>
      intro j
      rcases eq_or_ne j i with rfl | hne
      · simpa using Thread.reads_of_step (h.reads j) hstep
      · simpa [hne] using h.reads j
  -- a thread that is running is not finished
  case ended =>
      intro j hfinished
      have hne : j ≠ i := by
        rintro rfl
        rw [hrunning] at hfinished
        cases hfinished
      simpa [hne] using h.ended j hfinished
  case store =>
      intro k hk
      exact h.store_of_moves horder hnodup hlater hmoves hk
  case seen =>
      intro l j r horder x hx
      exact h.seen_of_moves hnodup hclear hmoves horder hx

/-- Every event in the order keeps the invariant. -/
theorem inv_of_step {e : Event n} (h : Inv prog tracked σ₀ order s) (hnodup : order.Nodup)
    (hall : ∀ i, i ∈ order) (hok : InOrder tracked order s e) (hstep : step queue s e = some s') :
    Inv prog tracked σ₀ order s' := by
  cases e with
  -- no thread is finished by its start
  | start i =>
      simp only [step] at hstep
      split at hstep <;> cases hstep
      refine { h with ended := ?_ }
      intro j hfinished
      rcases eq_or_ne j i with rfl | hne
      · simp at hfinished
      · exact h.ended j (by simpa [hne] using hfinished)
  | step i =>
      simp only [step] at hstep
      split at hstep
      case isTrue hrunning =>
          rcases Option.map_eq_some_iff.mp hstep with ⟨⟨σ', t'⟩, hmove, rfl⟩
          exact inv_step h hnodup (hall i) hok hrunning hmove
      case isFalse => cases hstep
  -- only a program that has ended finishes
  | finish i =>
      simp only [step] at hstep
      split at hstep
      case isTrue hended =>
          cases hstep
          refine { h with ended := ?_ }
          intro j hfinished
          rcases eq_or_ne j i with rfl | hne
          · exact hended.2
          · exact h.ended j (by simpa [hne] using hfinished)
      case isFalse => cases hstep

/-- Only a program that has ended is finished. -/
theorem ended_of_finished {es : List (Event n)}
    (h : Machine.Run (step queue) (.initial prog σ₀) es s) :
    ∀ i, s.phase i = .finished → (s.thread i).ended = true := by
  refine h.invariant (fun _ s => ∀ i, s.phase i = .finished → (s.thread i).ended = true) ?_ ?_
  · intro i hi
    cases hi
  · intro _ s e s' hs _ hstep i hi
    cases e with
    | start j =>
        simp only [step] at hstep
        split at hstep <;> cases hstep
        rcases eq_or_ne i j with rfl | hne
        · simp at hi
        · exact hs i (by simpa [hne] using hi)
    | step j =>
        simp only [step] at hstep
        split at hstep
        case isTrue hrunning =>
            rcases Option.map_eq_some_iff.mp hstep with ⟨⟨σ', t'⟩, -, rfl⟩
            have hne : i ≠ j := by
              rintro rfl
              rw [hrunning] at hi
              cases hi
            simpa [hne] using hs i hi
        case isFalse => cases hstep
    | finish j =>
        simp only [step] at hstep
        split at hstep
        case isTrue hended =>
            cases hstep
            rcases eq_or_ne i j with rfl | hne
            · exact hended.2
            · exact hs i (by simpa [hne] using hi)
        case isFalse => cases hstep

/-- When all threads have ended, their writes are those of a serial run. -/
theorem serial_eq_layered (h : Inv prog tracked σ₀ order s)
    (hended : ∀ i, (s.thread i).ended = true) (horder : order = l ++ r) :
    serial prog σ₀ l = layered s.thread σ₀ l := by
  -- what a thread has seen is what the serial run up to it has left
  induction l using List.reverseRecOn generalizing r with
  | nil => rfl
  | append_singleton l i ih =>
      have hsplit : order = l ++ i :: r := by simpa using horder
      have hseen : ∀ x ∈ (s.thread i).seen, layered s.thread σ₀ l x.1 = x.2 := by
        intro x hx
        exact (h.seen l i r hsplit x hx).2
      rw [serial_snoc, ih hsplit, (h.follows i).ended (hended i) hseen, layered_snoc]

/-- A run of programs that read tracked keys is serializable in every order that
it follows: when all programs are finished, the tracked part of the store, and
what each of them has emitted, are those of the serial run. -/
theorem serializable {es : List (Event n)} (horder : order.Perm (List.finRange n))
    (hreads : ∀ i, (prog i).Reads tracked)
    (h : Machine.Trace (step queue) (InOrder tracked order) (.initial prog σ₀) es s)
    (hall : ∀ i, s.phase i = .finished) :
    (∀ k, tracked k → s.store k = serial prog σ₀ order k) ∧
      ∀ l i r, order = l ++ i :: r →
        (s.thread i).emitted = ((prog i).run (serial prog σ₀ l)).2 := by
  have hnodup : order.Nodup := horder.nodup_iff.mpr (List.nodup_finRange n)
  have hmem : ∀ i, i ∈ order := fun i => horder.mem_iff.mpr (List.mem_finRange i)
  have hinv : Inv prog tracked σ₀ order s :=
    h.invariant (fun _ s => Inv prog tracked σ₀ order s) (inv_initial hreads)
      fun _ _ _ _ hinv hok hstep => inv_of_step hinv hnodup hmem hok hstep
  have hended : ∀ i, (s.thread i).ended = true := fun i => hinv.ended i (hall i)
  constructor
  · intro k hk
    rw [hinv.store k hk, serial_eq_layered hinv hended (List.append_nil order).symm]
  · intro l i r hsplit
    have hseen : ∀ x ∈ (s.thread i).seen, serial prog σ₀ l x.1 = x.2 := by
      rw [serial_eq_layered hinv hended hsplit]
      exact fun x hx => (hinv.seen l i r hsplit x hx).2
    rw [(hinv.follows i).ended (hended i) hseen]

end Machine

end Schedule
