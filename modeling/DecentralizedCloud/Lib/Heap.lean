import Mathlib.Data.Multiset.AddSub

/-!
# Binary heaps in an array

The heap algorithms behind `std::priority_queue`: `push` appends an element
and sifts it up (`std::push_heap`), `pop` swaps the root with the last element,
drops it and lets the new root sink to a leaf before it is sifted up again
(`std::pop_heap`). `lt a b` says that `a` has lower priority than `b`, so the
root is an element of highest priority.

Three facts are all that a client of the queue needs here: `push` adds its
element, `pop` removes the root and nothing else, and a pushed element that
does not have a higher priority than the root leaves the root in place. None
of them needs the heap order.
-/

namespace Heap

universe u

variable {α : Type u} (lt : α → α → Bool)

/-- The index of the parent of `i`. -/
def parent (i : Nat) : Nat := (i - 1) / 2

/-- Sift the element at `hole` up while its parent has lower priority. The
fuel is an upper bound of `hole`, which falls at every turn. -/
def siftUp : Nat → Array α → Nat → Array α
  | 0, xs, _ => xs
  | fuel + 1, xs, hole =>
      if h : 0 < hole ∧ hole < xs.size then
        have hparent : parent hole < xs.size := by unfold parent; omega
        if lt xs[parent hole] xs[hole] then
          siftUp fuel (xs.swap hole (parent hole) h.2 hparent) (parent hole)
        else xs
      else xs

/-- The child of `i` with the higher priority, the right one on a tie. -/
def higherChild (xs : Array α) (i : Nat) : Option Nat :=
  if h : 2 * i + 2 < xs.size then
    if lt xs[2 * i + 2] xs[2 * i + 1] then some (2 * i + 1) else some (2 * i + 2)
  else if 2 * i + 1 < xs.size then some (2 * i + 1)
  else none

/-- Let the element at `hole` sink to a leaf, always below the child with the
higher priority, and return where it ended. -/
def sink : Nat → Array α → Nat → Array α × Nat
  | 0, xs, hole => (xs, hole)
  | fuel + 1, xs, hole =>
      match higherChild lt xs hole with
      | some c => sink fuel (xs.swapIfInBounds hole c) c
      | none => (xs, hole)

/-- `std::push_heap` after `push_back`. -/
def push (xs : Array α) (x : α) : Array α := siftUp lt xs.size (xs.push x) xs.size

/-- The root, an element of highest priority. -/
def top (xs : Array α) : Option α := xs[0]?

/-- `std::pop_heap` before `pop_back`: the root leaves, the last element takes
its place, sinks to a leaf and is sifted up from there. -/
def pop (xs : Array α) : Array α :=
  let ys := (xs.swapIfInBounds 0 (xs.size - 1)).pop
  let (zs, hole) := sink lt ys.size ys 0
  siftUp lt hole zs hole

/-! ## Contents -/

theorem siftUp_perm (fuel : Nat) (xs : Array α) (hole : Nat) :
    (siftUp lt fuel xs hole).Perm xs := by
  induction fuel generalizing xs hole with
  | zero => exact .refl xs
  | succ fuel ih =>
      unfold siftUp
      split
      · dsimp only
        split
        · exact (ih _ _).trans (Array.swap_perm _ _)
        · exact .refl xs
      · exact .refl xs

theorem swapIfInBounds_perm (xs : Array α) (i j : Nat) : (xs.swapIfInBounds i j).Perm xs := by
  unfold Array.swapIfInBounds
  split
  · split
    · exact Array.swap_perm _ _
    · exact .refl xs
  · exact .refl xs

theorem sink_perm (fuel : Nat) (xs : Array α) (hole : Nat) :
    (sink lt fuel xs hole).1.Perm xs := by
  induction fuel generalizing xs hole with
  | zero => exact .refl xs
  | succ fuel ih =>
      unfold sink
      split
      · exact (ih _ _).trans (swapIfInBounds_perm _ _ _)
      · exact .refl xs

/-- The elements of a heap, in no order. -/
def elems (xs : Array α) : Multiset α := (xs.toList : Multiset α)

theorem elems_eq_of_perm {xs ys : Array α} (h : xs.Perm ys) : elems xs = elems ys :=
  Multiset.coe_eq_coe.mpr h.toList

/-- `push` adds its element. -/
@[simp] theorem elems_push (xs : Array α) (x : α) : elems (push lt xs x) = x ::ₘ elems xs := by
  have hperm : elems (push lt xs x) = elems (xs.push x) := elems_eq_of_perm (siftUp_perm lt _ _ _)
  rw [hperm]
  simp [elems, Multiset.coe_eq_coe, List.perm_append_singleton]

/-- Swapping the root with the last element and dropping it removes the root. -/
theorem elems_swap_pop {xs : Array α} {x : α} (h : top xs = some x) :
    x ::ₘ elems (xs.swapIfInBounds 0 (xs.size - 1)).pop = elems xs := by
  have hpos : 0 < xs.size := by
    by_contra hz
    simp [top, Array.getElem?_eq_none (by omega : xs.size ≤ 0)] at h
  have hx : xs[0] = x := by simpa [top, Array.getElem?_eq_getElem hpos] using h
  have hperm : elems (xs.swapIfInBounds 0 (xs.size - 1)) = elems xs :=
    elems_eq_of_perm (swapIfInBounds_perm _ _ _)
  -- after the swap the old root is the last element
  have hlast : x ∈ (xs.swapIfInBounds 0 (xs.size - 1)).toList.getLast? := by
    have hlt : xs.size - 1 < xs.size := by omega
    rw [List.getLast?_eq_getElem?, Array.swapIfInBounds_def, dif_pos hpos, dif_pos hlt]
    simp [hlt, hx]
  rw [← hperm]
  unfold elems
  rw [Array.toList_pop, ← List.dropLast_append_getLast? x hlast]
  simp only [List.dropLast_concat, Multiset.cons_coe, Multiset.coe_eq_coe]
  exact (List.perm_append_singleton _ _).symm

/-- `pop` removes the root and nothing else. -/
theorem elems_pop {xs : Array α} {x : α} (h : top xs = some x) :
    x ::ₘ elems (pop lt xs) = elems xs := by
  have hsink : elems (pop lt xs) = elems (xs.swapIfInBounds 0 (xs.size - 1)).pop :=
    (elems_eq_of_perm (siftUp_perm lt _ _ _)).trans (elems_eq_of_perm (sink_perm lt _ _ _))
  rw [hsink, elems_swap_pop h]

theorem elems_eq_zero_iff {xs : Array α} : elems xs = 0 ↔ top xs = none := by
  simp [elems, top]

/-! ## The root under `push` -/

/-- Sifting up an element that does not have a higher priority than the root
never reaches the root. -/
theorem siftUp_root {fuel : Nat} {xs : Array α} {hole : Nat} {x r : α}
    (hhole : 0 < hole) (hx : xs[hole]? = some x) (hr : xs[0]? = some r) (hlt : lt r x = false) :
    (siftUp lt fuel xs hole)[0]? = some r := by
  induction fuel generalizing xs hole with
  | zero => exact hr
  | succ fuel ih =>
      -- the element at `hole` stays `x` while it moves up
      rcases Array.getElem?_eq_some_iff.mp hx with ⟨hsize, hxe⟩
      rcases Array.getElem?_eq_some_iff.mp hr with ⟨hsize0, hre⟩
      unfold siftUp
      split
      · dsimp only
        split
        · rename_i h hswap
          by_cases hp : parent hole = 0
          · simp [hp, hxe, hre, hlt] at hswap
          · -- the swap happens below the root
            apply ih (by omega)
            · rw [Array.getElem?_swap, if_pos rfl, hxe]
            · have hne : hole ≠ 0 := by omega
              rw [Array.getElem?_swap]
              simp [hr, hp, hne]
        · exact hr
      · exact hr

/-- A pushed element that does not have a higher priority than the root leaves
the root in place. -/
theorem top_push {xs : Array α} {x r : α} (hr : top xs = some r) (hlt : lt r x = false) :
    top (push lt xs x) = some r := by
  rcases Array.getElem?_eq_some_iff.mp hr with ⟨hsize, hre⟩
  refine siftUp_root lt hsize (by simp) ?_ hlt
  rw [Array.getElem?_push_lt hsize, hre]

end Heap
