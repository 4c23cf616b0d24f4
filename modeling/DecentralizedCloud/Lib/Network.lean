import Mathlib.Data.List.Count
import Mathlib.Data.Nat.Basic
import Mathlib.Logic.Function.Basic
import DecentralizedCloud.Lib.Trace

/-!
# Networks of nodes

Any number of nodes, of any kinds, that send packets to each other. A packet that was
sent stays in `sent`: a node may take it at any time, late, out of order, again, or never,
so every loss, delay, repetition and reordering is a run. What a node does with a packet
is up to its own step function.

* `Inductive`: an invariant of all nodes and all packets, which may speak about what the
  network has done so far as long as nothing that happens takes it back;
* `tally_le`: what grows only by one, and only for a packet `A` that its addressee has not
  taken before, is at most the number of packets `A`. Packets that are sent for each `A` are
  one case, and a counter of a node is another.
-/

namespace Network

open Machine

/-- What the nodes do. The kinds of states and events may differ from node to node. -/
structure Protocol (ι : Type*) (σ ε : ι → Type*) (μ : Type*) where
  step : ∀ i, Step (σ i) (ε i)
  /-- the packet that an event takes from the network -/
  takes : ∀ i, ε i → Option μ
  /-- what the step of an event from a state to a state sends -/
  sends : ∀ i, σ i → ε i → σ i → List μ

structure Net {ι : Type*} (σ : ι → Type*) (μ : Type*) where
  node : ∀ i, σ i
  /-- every packet that was ever sent -/
  sent : List μ

section Network

variable {ι : Type*} {σ ε : ι → Type*} {μ : Type*}

namespace Protocol

/-- One event at one node. A packet is only taken when it was sent. -/
def next [DecidableEq ι] [DecidableEq μ] (p : Protocol ι σ ε μ) :
    Step (Net σ μ) ((i : ι) × ε i) := fun s ev =>
  if ∀ q ∈ p.takes ev.1 ev.2, q ∈ s.sent then
    (p.step ev.1 (s.node ev.1) ev.2).map fun t =>
      { node := Function.update s.node ev.1 t
        sent := s.sent ++ p.sends ev.1 (s.node ev.1) ev.2 t }
  else none

/-- One step, with what it does. -/
structure Moves (p : Protocol ι σ ε μ) (s : Net σ μ) (i : ι) (e : ε i) (s' : Net σ μ) : Prop where
  taken : ∀ q ∈ p.takes i e, q ∈ s.sent
  step : p.step i (s.node i) e = some (s'.node i)
  others : ∀ j, j ≠ i → s'.node j = s.node j
  sent : s'.sent = s.sent ++ p.sends i (s.node i) e (s'.node i)

/-- `I` and `Q` hold of all nodes and packets when they do at the start. They may speak
about the whole network; nothing that happens elsewhere takes them back. -/
structure Inductive (p : Protocol ι σ ε μ) (ok : Net σ μ → ((i : ι) × ε i) → Prop)
    (I : Net σ μ → ∀ i, σ i → Prop) (Q : Net σ μ → μ → Prop) : Prop where
  keeps_node : ∀ {s i e s' j t}, ok s ⟨i, e⟩ → p.Moves s i e s' → I s j t → I s' j t
  keeps_packet : ∀ {s i e s' q}, ok s ⟨i, e⟩ → p.Moves s i e s' → Q s q → Q s' q
  step : ∀ {s i e s'}, (∀ j, I s j (s.node j)) → (∀ q ∈ s.sent, Q s q) → ok s ⟨i, e⟩ →
    p.Moves s i e s' → I s' i (s'.node i) ∧ ∀ q ∈ p.sends i (s.node i) e (s'.node i), Q s' q

/-- What `T` counts grows by one at most in a step, and only when the step takes an `A` that is
addressed to the node and that the node has not taken before. -/
structure Tallies (p : Protocol ι σ ε μ) (ok : Net σ μ → ((i : ι) × ε i) → Prop)
    (A : μ → Bool) (dest : μ → ι) (took : ∀ i, σ i → μ → Bool) (T : Net σ μ → Nat) : Prop where
  keeps : ∀ {s i e s' q}, ok s ⟨i, e⟩ → p.Moves s i e s' → took i (s.node i) q = true →
    took i (s'.node i) q = true
  step : ∀ {s i e s'}, ok s ⟨i, e⟩ → p.Moves s i e s' → T s' ≤ T s ∨
    T s' ≤ T s + 1 ∧ ∃ q ∈ p.takes i e, A q = true ∧ dest q = i ∧
      took i (s.node i) q = false ∧ took i (s'.node i) q = true

/-- The packets `A` that their addressee has taken. -/
def received (A : μ → Bool) (dest : μ → ι) (took : ∀ i, σ i → μ → Bool) (s : Net σ μ) (q : μ) :
    Bool :=
  A q && took (dest q) (s.node (dest q)) q

variable {p : Protocol ι σ ε μ} {s s' s₀ : Net σ μ} {i : ι} {e : ε i}
  {ok : Net σ μ → ((i : ι) × ε i) → Prop} {es : List ((i : ι) × ε i)}
  {A : μ → Bool} {dest : μ → ι} {took : ∀ i, σ i → μ → Bool} {T : Net σ μ → Nat}

/-- What was sent stays sent. -/
theorem Moves.sent_subset (h : p.Moves s i e s') : s.sent ⊆ s'.sent := by
  rw [h.sent]
  exact List.subset_append_left _ _

/-- One step keeps all nodes and packets. -/
theorem Inductive.moves {I : Net σ μ → ∀ i, σ i → Prop} {Q : Net σ μ → μ → Prop}
    (hI : p.Inductive ok I Q) (hnodes : ∀ j, I s j (s.node j)) (hsent : ∀ q ∈ s.sent, Q s q)
    (hev : ok s ⟨i, e⟩) (hmoves : p.Moves s i e s') :
    (∀ j, I s' j (s'.node j)) ∧ ∀ q ∈ s'.sent, Q s' q := by
  rcases hI.step hnodes hsent hev hmoves with ⟨hnode, hnew⟩
  refine ⟨?_, ?_⟩
  · intro j
    by_cases hj : j = i
    · subst hj
      exact hnode
    · rw [hmoves.others j hj]
      exact hI.keeps_node hev hmoves (hnodes j)
  · intro q hq
    rw [hmoves.sent] at hq
    rcases List.mem_append.mp hq with hq | hq
    · exact hI.keeps_packet hev hmoves (hsent q hq)
    · exact hnew q hq

/-! ## Packets that were taken -/

/-- What was taken stays taken. -/
theorem received_mono (htallies : p.Tallies ok A dest took T) (hok : ok s ⟨i, e⟩)
    (hmoves : p.Moves s i e s') {q : μ} (hq : received A dest took s q = true) :
    received A dest took s' q = true := by
  simp only [received, Bool.and_eq_true] at hq ⊢
  refine ⟨hq.1, ?_⟩
  rcases eq_or_ne (dest q) i with hdest | hdest
  · have htook : took i (s.node i) q = true := by
      rw [← hdest]
      exact hq.2
    rw [hdest]
    exact htallies.keeps hok hmoves htook
  · rw [hmoves.others _ hdest]
    exact hq.2

/-- A packet that is new to its addressee adds to the number of those that were taken. -/
theorem countP_received_lt (htallies : p.Tallies ok A dest took T) (hok : ok s ⟨i, e⟩)
    (hmoves : p.Moves s i e s') {q : μ} (htakes : q ∈ p.takes i e) (hA : A q = true)
    (hdest : dest q = i) (hnew : took i (s.node i) q = false)
    (hnow : took i (s'.node i) q = true) :
    s.sent.countP (received A dest took s) < s.sent.countP (received A dest took s') := by
  rcases List.append_of_mem (hmoves.taken q htakes) with ⟨before, behind, hsent⟩
  have hmono : ∀ l : List μ, l.countP (received A dest took s) ≤
      l.countP (received A dest took s') :=
    fun l => List.countP_mono_left fun x _ hx => received_mono htallies hok hmoves hx
  have hbefore : received A dest took s q = false := by
    subst hdest
    simp [received, hnew]
  have hafter : received A dest took s' q = true := by
    subst hdest
    simp [received, hA, hnow]
  have hfirst := hmono before
  have hlast := hmono behind
  rw [hsent, List.countP_append, List.countP_append, List.countP_cons, List.countP_cons, hbefore,
    hafter]
  simp only [Bool.false_eq_true, if_false, if_true]
  omega

/-! ## Runs -/

variable [DecidableEq ι] [DecidableEq μ]

theorem moves_of_next (h : p.next s ⟨i, e⟩ = some s') : p.Moves s i e s' := by
  unfold next at h
  split at h
  case isTrue htaken =>
      rcases Option.map_eq_some_iff.mp h with ⟨t, ht, rfl⟩
      dsimp only at ht
      refine ⟨htaken, ?_, ?_, ?_⟩
      · simpa using ht
      · intro j hj
        exact Function.update_of_ne hj t s.node
      · simp
  case isFalse => cases h

theorem Inductive.holds {I : Net σ μ → ∀ i, σ i → Prop} {Q : Net σ μ → μ → Prop}
    (hI : p.Inductive ok I Q) (hnodes : ∀ j, I s₀ j (s₀.node j)) (hsent : ∀ q ∈ s₀.sent, Q s₀ q)
    (h : Trace p.next ok s₀ es s) : (∀ j, I s j (s.node j)) ∧ ∀ q ∈ s.sent, Q s q := by
  induction h with
  | nil => exact ⟨hnodes, hsent⟩
  | snoc _ hev hs ih => exact hI.moves ih.1 ih.2 hev (moves_of_next hs)

/-- The counting rule. -/
theorem tally_le (htallies : p.Tallies ok A dest took T) (hinit : T s₀ = 0)
    (h : Trace p.next ok s₀ es s) : T s ≤ s.sent.countP A := by
  have hcount : T s ≤ s.sent.countP (received A dest took s) := by
    induction h with
    | nil =>
        rw [hinit]
        exact Nat.zero_le _
    | @snoc _ s s' ev _ hev hs ih =>
        rcases ev with ⟨i, e⟩
        have hmoves := moves_of_next hs
        have hmono : s.sent.countP (received A dest took s) ≤
            s.sent.countP (received A dest took s') :=
          List.countP_mono_left fun x _ hx => received_mono htallies hev hmoves hx
        rw [hmoves.sent, List.countP_append]
        rcases htallies.step hev hmoves with hsame | ⟨hone, q, htakes, hA, hdest, hnew, hnow⟩
        · omega
        · have hlt := countP_received_lt htallies hev hmoves htakes hA hdest hnew hnow
          omega
  refine Nat.le_trans hcount (List.countP_mono_left ?_)
  intro q _ hq
  simp only [received, Bool.and_eq_true] at hq
  exact hq.1

end Protocol

end Network

end Network
