import Mathlib.Algebra.Order.Group.Multiset
import Mathlib.Data.Finset.Max
import Mathlib.Data.Multiset.Filter
import Mathlib.Order.Lattice

/-!
# Priority queues

What `std::priority_queue` promises, and no more: the top is an element of highest
priority. Which one it is among elements of equal priority is left open, and may be
another one after every push and every pop.

A queue is served by taking its top and popping it, over and over. Where the priority
comes from a key, the orders in which a queue may be served are the orders sorted by
the key (`served_iff`). The order of arrival survives among equal keys in all of them
only if equal keys mean equal elements (`stable_iff`).
-/

namespace PriorityQueue

universe u v

variable {α : Type u}

/-- A queue with its current top; `lower a b` says that `a` has lower priority than `b`. -/
structure Queue (lower : α → α → Bool) where
  elems : Multiset α
  top : Option α
  eq_zero_of_none : top = none → elems = 0
  highest : ∀ a ∈ top, a ∈ elems ∧ ∀ b ∈ elems, lower a b = false

variable {lower : α → α → Bool}

namespace Queue

def empty : Queue lower where
  elems := 0
  top := none
  eq_zero_of_none _ := rfl
  highest := by simp

instance : Inhabited (Queue lower) := ⟨empty⟩

@[simp] theorem elems_empty : (empty : Queue lower).elems = 0 := rfl

@[simp] theorem top_empty : (empty : Queue lower).top = none := rfl

theorem eq_empty {q : Queue lower} (h : q.elems = 0) : q = empty := by
  rcases q with ⟨elems, top, hnone, hhighest⟩
  cases h
  cases top with
  | none => rfl
  | some a => exact absurd (hhighest a rfl).1 (Multiset.notMem_zero a)

/-- A queue with a given top. -/
def withTop (elems : Multiset α) (a : α) (hmem : a ∈ elems)
    (h : ∀ b ∈ elems, lower a b = false) : Queue lower where
  elems
  top := some a
  eq_zero_of_none := by simp
  highest := by simpa using ⟨hmem, h⟩

/-- A queue of one element. -/
def single (a : α) (h : lower a a = false) : Queue lower :=
  withTop {a} a (Multiset.mem_singleton_self a) (by simpa using h)

theorem top_eq_none_iff (q : Queue lower) : q.top = none ↔ q.elems = 0 := by
  constructor
  · exact q.eq_zero_of_none
  · intro hzero
    cases htop : q.top with
    | none => rfl
    | some a =>
        have hmem := (q.highest a htop).1
        rw [hzero] at hmem
        exact absurd hmem (Multiset.notMem_zero a)

end Queue

/-- Taking the elements `as` one after another, each at the top in its turn, leads
from the elements `q` to what is left. -/
inductive Served (lower : α → α → Bool) [DecidableEq α] (q : Multiset α) :
    List α → Multiset α → Prop where
  | nil : Served lower q [] q
  | snoc {as : List α} {left : Multiset α} {a : α} (h : Served lower q as left) (hmem : a ∈ left)
      (htop : ∀ b ∈ left, lower a b = false) : Served lower q (as ++ [a]) (left.erase a)

variable [DecidableEq α] {q left : Multiset α} {as : List α}

/-- Nothing is lost, and nothing is served twice. -/
theorem Served.conserved (h : Served lower q as left) : (as : Multiset α) + left = q := by
  induction h with
  | nil => simp
  | @snoc as left a _ hmem _ ih =>
      rw [← Multiset.coe_add, Multiset.coe_singleton, add_assoc, Multiset.singleton_add,
        Multiset.cons_erase hmem]
      exact ih

section Key

variable {K : Type v} [LinearOrder K] {key : α → K}

/-- Who is served first has a key that is no greater. -/
theorem Served.sorted (hkey : ∀ a b, lower a b = false ↔ key a ≤ key b)
    (h : Served lower q as left) :
    as.Pairwise (fun a b => key a ≤ key b) ∧ ∀ a ∈ as, ∀ b ∈ left, key a ≤ key b := by
  induction h with
  | nil => exact ⟨.nil, by simp⟩
  | @snoc as left a _ hmem htop ih =>
      rcases ih with ⟨hsorted, hleft⟩
      constructor
      · rw [List.pairwise_append]
        refine ⟨hsorted, List.pairwise_singleton _ _, ?_⟩
        intro b hb c hc
        rw [List.mem_singleton.mp hc]
        exact hleft b hb a hmem
      · intro b hb c hc
        have hc' : c ∈ left := Multiset.mem_of_mem_erase hc
        rcases List.mem_append.mp hb with hb | hb
        · exact hleft b hb c hc'
        · rw [List.mem_singleton.mp hb]
          exact (hkey a c).mp (htop c hc')

/-- A sorted list may be served from its front. -/
theorem served_of_sorted (hkey : ∀ a b, lower a b = false ↔ key a ≤ key b) (as bs : List α)
    (h : (as ++ bs).Pairwise fun a b => key a ≤ key b) :
    Served lower (as ++ bs : List α) as bs := by
  induction as using List.reverseRecOn generalizing bs with
  | nil => exact .nil
  | append_singleton as a ih =>
      rw [List.append_assoc, List.singleton_append] at h ⊢
      have hserved := ih (a :: bs) h
      have hlast : Served lower (as ++ a :: bs : List α) (as ++ [a])
          (((a :: bs : List α) : Multiset α).erase a) := by
        refine .snoc hserved (by simp) ?_
        intro b hb
        have hsorted := (List.pairwise_append.mp h).2.1
        rcases List.mem_cons.mp (Multiset.mem_coe.mp hb) with rfl | hb
        · exact (hkey b b).mpr le_rfl
        · exact (hkey a b).mpr ((List.pairwise_cons.mp hsorted).1 b hb)
      simpa using hlast

/-- A queue may be served in every order that is sorted by the key, and in no other. -/
theorem served_iff (hkey : ∀ a b, lower a b = false ↔ key a ≤ key b) {cs : List α} :
    Served lower (cs : Multiset α) as 0 ↔
      as.Perm cs ∧ as.Pairwise fun a b => key a ≤ key b := by
  constructor
  · intro h
    have hconserved := h.conserved
    rw [add_zero, Multiset.coe_eq_coe] at hconserved
    exact ⟨hconserved, (h.sorted hkey).1⟩
  · rintro ⟨hperm, hsorted⟩
    have hserved := served_of_sorted hkey as [] (by simpa using hsorted)
    rw [List.append_nil, Multiset.coe_eq_coe.mpr hperm] at hserved
    exact hserved

/-- Some element of a queue that is not empty may be its top. -/
theorem exists_highest (hkey : ∀ a b, lower a b = false ↔ key a ≤ key b) (hq : q ≠ 0) :
    ∃ a ∈ q, ∀ b ∈ q, lower a b = false := by
  have hne : q.toFinset.Nonempty := by
    rcases Multiset.exists_mem_of_ne_zero hq with ⟨a, ha⟩
    exact ⟨a, Multiset.mem_toFinset.mpr ha⟩
  rcases Finset.exists_min_image q.toFinset key hne with ⟨a, ha, hmin⟩
  refine ⟨a, Multiset.mem_toFinset.mp ha, ?_⟩
  intro b hb
  exact (hkey a b).mpr (hmin b (Multiset.mem_toFinset.mpr hb))

/-- Every collection of elements can be queued. -/
theorem exists_queue (hkey : ∀ a b, lower a b = false ↔ key a ≤ key b) (q : Multiset α) :
    ∃ queue : Queue lower, queue.elems = q := by
  by_cases hq : q = 0
  · exact ⟨.empty, hq.symm⟩
  · rcases exists_highest hkey hq with ⟨a, ha, hmin⟩
    exact ⟨.withTop q a ha hmin, rfl⟩

/-! ## The order of arrival -/

/-- Sorted by the key, and among equal keys in the order of arrival. -/
structure Stable (key : α → K) (arrived served : List α) : Prop where
  perm : served.Perm arrived
  sorted : served.Pairwise fun a b => key a ≤ key b
  arrival : ∀ k, (served.filter fun a => key a = k) = arrived.filter fun a => key a = k

/-- Every element may be served first among those of its key. -/
theorem exists_first {cs : List α} {a : α} (ha : a ∈ cs) :
    ∃ as : List α, as.Perm cs ∧ as.Pairwise (fun a b => key a ≤ key b) ∧
      (as.filter fun b => key b = key a).head? = some a := by
  -- a stable sort of the list that begins with `a`
  have htrans : ∀ a b c : α, decide (key a ≤ key b) = true → decide (key b ≤ key c) = true →
      decide (key a ≤ key c) = true := by
    intro a b c hab hbc
    simp only [decide_eq_true_eq] at hab hbc ⊢
    exact hab.trans hbc
  have htotal : ∀ a b : α, (decide (key a ≤ key b) || decide (key b ≤ key a)) = true := by
    intro a b
    simpa using le_total (key a) (key b)
  have hcs : (a :: cs.erase a).Perm cs := (List.perm_cons_erase ha).symm
  have hperm := List.mergeSort_perm (a :: cs.erase a) fun a b => decide (key a ≤ key b)
  have hsorted := List.pairwise_mergeSort htrans htotal (a :: cs.erase a)
  refine ⟨_, hperm.trans hcs, by simpa using hsorted, ?_⟩
  have hclass : ((a :: cs.erase a).filter fun b => key b = key a).Pairwise fun a b =>
      decide (key a ≤ key b) = true := by
    rw [List.pairwise_filter]
    apply List.pairwise_of_forall
    intro b c hb hc
    simp only [decide_eq_true_eq] at hb hc ⊢
    rw [hb, hc]
  have hsub := List.sublist_mergeSort htrans htotal hclass List.filter_sublist
  have heq : (a :: cs.erase a).filter (fun b => key b = key a) =
      ((a :: cs.erase a).mergeSort fun a b => decide (key a ≤ key b)).filter
        fun b => key b = key a := by
    have hsub' := hsub.filter fun b => decide (key b = key a)
    rw [List.filter_filter] at hsub'
    simp only [Bool.and_self] at hsub'
    exact hsub'.eq_of_length (hperm.filter _).length_eq.symm
  rw [← heq]
  simp

/-- The order of arrival is kept in every order of service if and only if elements of
equal keys are equal. -/
theorem stable_iff (hkey : ∀ a b, lower a b = false ↔ key a ≤ key b) {cs : List α} :
    (∀ as, Served lower (cs : Multiset α) as 0 → Stable key cs as) ↔
      ∀ a ∈ cs, ∀ b ∈ cs, key a = key b → a = b := by
  constructor
  · intro hall a ha b hb hab
    -- both may come first
    have hfirst : ∀ c ∈ cs, key c = key a →
        (cs.filter fun d => key d = key a).head? = some c := by
      intro c hc hca
      obtain ⟨as, hperm, hsorted, hhead⟩ : ∃ as : List α, as.Perm cs ∧
          as.Pairwise (fun a b => key a ≤ key b) ∧
            (as.filter fun b => key b = key c).head? = some c := exists_first hc
      have hstable := hall as ((served_iff hkey).mpr ⟨hperm, hsorted⟩)
      rw [← hca, ← hstable.arrival (key c)]
      exact hhead
    have heq := (hfirst a ha rfl).symm.trans (hfirst b hb hab.symm)
    exact Option.some.inj heq
  · intro hties as has
    rcases (served_iff hkey).mp has with ⟨hperm, hsorted⟩
    refine ⟨hperm, hsorted, ?_⟩
    intro k
    -- the elements of one key are copies of one element
    have hclass := hperm.filter fun a => decide (key a = k)
    cases hcs : cs.filter fun a => key a = k with
    | nil =>
        rw [hcs] at hclass
        exact hclass.eq_nil
    | cons a rest =>
        have hcopies : cs.filter (fun a => key a = k) = List.replicate (rest.length + 1) a := by
          rw [List.eq_replicate_iff]
          constructor
          · rw [hcs]
            rfl
          · intro b hb
            have ha : a ∈ cs.filter fun a => key a = k := by
              rw [hcs]
              exact List.mem_cons_self
            simp only [List.mem_filter, decide_eq_true_eq] at ha hb
            exact hties b hb.1 a ha.1 (hb.2.trans ha.2.symm)
        rw [hcopies] at hclass
        rw [List.perm_replicate.mp hclass, ← hcopies, hcs]

end Key

end PriorityQueue
