import Mathlib.Data.Nat.Basic
import Mathlib.Order.Lattice

/-!
# Bisection over a closed window

Binary search for a value among keys in ascending order. The window is closed,
so a search that turns left of position 0 has no window to go on with: it
*escapes* (`Outcome.escaped`). What becomes of it then is up to the caller, who
counts in machine numbers.

A search finds some position of the value, or the value is absent, or it escapes
(`search_correct`), and it escapes from position 0 on exactly when the value is
below all keys (`search_escaped_iff`). The positions of one value form a range.
Searching what is left of its window again and again leads to the ends of the
range, `IsFirst` and `IsLast` (`first_step`, `last_step`). They cut a list into
the elements below the value, at it and above it (`filter_eq_take`,
`filter_eq_drop`).
-/

namespace Bisect

universe u v

section Search

variable {κ : Type v} [LinearOrder κ]

inductive Outcome where
  /-- the window in which the middle has the value, and the middle -/
  | found (first middle last : Nat)
  | absent
  | escaped

def search (key : Nat → κ) (value : κ) (first last : Nat) : Outcome :=
  if last < first then .absent
  else
    let middle := first + (last - first) / 2
    if key middle = value then .found first middle last
    else if value < key middle then
      if middle = 0 then .escaped else search key value first (middle - 1)
    else search key value (middle + 1) last
termination_by last + 1 - first

/-- The positions that a search looks at. -/
def probes (key : Nat → κ) (value : κ) (first last : Nat) : List Nat :=
  if last < first then []
  else
    let middle := first + (last - first) / 2
    if key middle = value then [middle]
    else if value < key middle then
      if middle = 0 then [middle] else middle :: probes key value first (middle - 1)
    else middle :: probes key value (middle + 1) last
termination_by last + 1 - first

/-- The positions that are looked at on the way from a position of the value to the first one. -/
def lowerProbes (key : Nat → κ) (value : κ) (first m : Nat) : List Nat :=
  if m = 0 then []
  else
    probes key value first (m - 1) ++
      match search key value first (m - 1) with
      | .found first' m' _ => if m' < m then lowerProbes key value first' m' else []
      | .absent | .escaped => []
termination_by m

/-- The positions that are looked at on the way from a position of the value to the last one. -/
def upperProbes (key : Nat → κ) (value : κ) (m last : Nat) : List Nat :=
  probes key value (m + 1) last ++
    match search key value (m + 1) last with
    | .found _ m' last' =>
        if m < m' ∧ m' ≤ last' ∧ last' ≤ last then upperProbes key value m' last' else []
    | .absent | .escaped => []
termination_by last - m

/-- The keys up to a position are in ascending order. -/
def Ascending (key : Nat → κ) (last : Nat) : Prop := ∀ i j, i ≤ j → j ≤ last → key i ≤ key j

theorem Ascending.mono {key : Nat → κ} {last last' : Nat} (h : Ascending key last)
    (hle : last' ≤ last) : Ascending key last' :=
  fun i j hij hj => h i j hij (Nat.le_trans hj hle)

/-- What an outcome says about the window that was searched: what has been cut off has
the value nowhere. -/
def Correct (key : Nat → κ) (value : κ) (first last : Nat) : Outcome → Prop
  | .found first' middle last' =>
      (first ≤ first' ∧ first' ≤ middle ∧ middle ≤ last' ∧ last' ≤ last) ∧ key middle = value ∧
        (∀ i, first ≤ i → i < first' → key i < value) ∧
        ∀ i, last' < i → i ≤ last → value < key i
  | .absent => ∀ i, first ≤ i → i ≤ last → key i ≠ value
  | .escaped => first = 0 ∧ value < key 0

/-- What the search returns is right, whatever window it starts with. -/
theorem search_correct {key : Nat → κ} {last : Nat} (hkey : Ascending key last) (value : κ)
    (first : Nat) :
    Correct key value first last (search key value first last) := by
  fun_induction search key value first last with
  -- the window is empty
  | case1 first last hempty =>
      intro i hi hlast
      omega
  -- the value is in the middle
  | case2 first last hwindow middle hmiddle =>
      refine ⟨by omega, hmiddle, ?_, ?_⟩ <;> intro i hi hlast <;> omega
  -- below position 0 the search leaves the table
  | case3 first last hwindow middle hne hlt hzero =>
      refine ⟨by omega, ?_⟩
      rwa [hzero] at hlt
  -- everything from the middle on is above the value
  | case4 first last hwindow middle hne hlt hpos ih =>
      have hright : ∀ i, middle ≤ i → i ≤ last → value < key i := by
        intro i hi hlast
        exact hlt.trans_le (hkey middle i hi hlast)
      have hleft := ih (hkey.mono (by omega))
      generalize search key value first (middle - 1) = outcome at hleft ⊢
      cases outcome with
      | found first' middle' last' =>
          rcases hleft with ⟨hbounds, hvalue, hbelow, habove⟩
          refine ⟨by omega, hvalue, hbelow, ?_⟩
          intro i hi hlast
          by_cases hin : i ≤ middle - 1
          · exact habove i hi hin
          · exact hright i (by omega) hlast
      | absent =>
          intro i hi hlast
          by_cases hin : i ≤ middle - 1
          · exact hleft i hi hin
          · exact (hright i (by omega) hlast).ne'
      | escaped => exact hleft
  -- everything up to the middle is below the value
  | case5 first last hwindow middle hne hge ih =>
      have hmiddle : key middle < value := lt_of_le_of_ne (not_lt.mp hge) hne
      have hleft : ∀ i, i ≤ middle → key i < value := by
        intro i hi
        exact (hkey i middle hi (by omega)).trans_lt hmiddle
      have hright := ih hkey
      generalize search key value (middle + 1) last = outcome at hright ⊢
      cases outcome with
      | found first' middle' last' =>
          rcases hright with ⟨hbounds, hvalue, hbelow, habove⟩
          refine ⟨by omega, hvalue, ?_, habove⟩
          intro i hi hfirst
          by_cases hin : middle + 1 ≤ i
          · exact hbelow i hin hfirst
          · exact hleft i (by omega)
      | absent =>
          intro i hi hlast
          by_cases hin : middle + 1 ≤ i
          · exact hright i hin hlast
          · exact (hleft i (by omega)).ne
      -- further right the search cannot leave the table at 0
      | escaped =>
          rcases hright with ⟨hzero, -⟩
          omega

/-- The search escapes if and only if the value is below the first key. -/
theorem search_escaped_iff {key : Nat → κ} {value : κ} {last : Nat} (hkey : Ascending key last) :
    search key value 0 last = .escaped ↔ value < key 0 := by
  constructor
  · intro h
    have hcorrect := search_correct hkey value 0
    rw [h] at hcorrect
    exact hcorrect.2
  · intro hlt
    generalize hfirst : 0 = first
    fun_induction search key value first last with
    | case1 first last hempty => omega
    | case2 first last hwindow middle hmiddle =>
        have hle := hkey 0 middle (Nat.zero_le _) (by omega)
        rw [hmiddle] at hle
        exact absurd hlt (not_lt.mpr hle)
    | case3 => rfl
    | case4 first last hwindow middle hne hmiddle hpos ih => exact ih (hkey.mono (by omega)) hfirst
    | case5 first last hwindow middle hne hge ih =>
        have hle := hkey 0 middle (Nat.zero_le _) (by omega)
        exact absurd (hlt.trans_le hle) hge

/-! ## The ends of a range -/

def IsFirst (key : Nat → κ) (value : κ) (m : Nat) : Prop :=
  key m = value ∧ ∀ i, i < m → key i < value

def IsLast (key : Nat → κ) (value : κ) (last m : Nat) : Prop :=
  (m ≤ last ∧ key m = value) ∧ ∀ i, m < i → i ≤ last → value < key i

variable {key : Nat → κ} {value : κ} {first m last : Nat}

/-- Left of a position of the value there is another one, or it is the first one. -/
theorem first_step (hkey : Ascending key m) (hm : key m = value)
    (hbelow : ∀ i, i < first → key i < value) (hpos : m ≠ 0) :
    (∃ first' m' last', search key value first (m - 1) = .found first' m' last' ∧ m' < m ∧
        key m' = value ∧ ∀ i, i < first' → key i < value) ∨
      (search key value first (m - 1) = .absent ∧ IsFirst key value m) := by
  have hcorrect := search_correct (hkey.mono (Nat.sub_le m 1)) value first
  cases hsearch : search key value first (m - 1) with
  | found first' m' last' =>
      rw [hsearch] at hcorrect
      rcases hcorrect with ⟨hbounds, hvalue, hcut, -⟩
      refine .inl ⟨first', m', last', rfl, by omega, hvalue, ?_⟩
      intro i hi
      by_cases hfirst : i < first
      · exact hbelow i hfirst
      · exact hcut i (Nat.not_lt.mp hfirst) hi
  -- no position to the left has the value, and what is there is not above it
  | absent =>
      rw [hsearch] at hcorrect
      refine .inr ⟨rfl, hm, ?_⟩
      intro i hi
      by_cases hfirst : i < first
      · exact hbelow i hfirst
      · have hne : key i ≠ value := hcorrect i (Nat.not_lt.mp hfirst) (by omega)
        have hle : key i ≤ value := hm ▸ hkey i m (Nat.le_of_lt hi) (Nat.le_refl m)
        exact lt_of_le_of_ne hle hne
  -- the value is not below the whole table, as it is in it
  | escaped =>
      rw [hsearch] at hcorrect
      have hle : key 0 ≤ value := hm ▸ hkey 0 m (Nat.zero_le m) (Nat.le_refl m)
      exact absurd hcorrect.2 (not_lt.mpr hle)

/-- Right of a position of the value there is another one, or it is the last one. -/
theorem last_step {end_ : Nat} (hkey : Ascending key end_) (hm : key m = value) (hle : m ≤ last)
    (hlast : last ≤ end_) (habove : ∀ i, last < i → i ≤ end_ → value < key i) :
    (∃ first' m' last', search key value (m + 1) last = .found first' m' last' ∧ m < m' ∧
        m' ≤ last' ∧ last' ≤ last ∧ key m' = value ∧
        ∀ i, last' < i → i ≤ end_ → value < key i) ∨
      (search key value (m + 1) last = .absent ∧ IsLast key value end_ m) := by
  have hcorrect := search_correct (hkey.mono hlast) value (m + 1)
  cases hsearch : search key value (m + 1) last with
  | found first' m' last' =>
      rw [hsearch] at hcorrect
      rcases hcorrect with ⟨hbounds, hvalue, -, hcut⟩
      refine .inl ⟨first', m', last', rfl, by omega, by omega, by omega, hvalue, ?_⟩
      intro i hi hend
      by_cases hin : i ≤ last
      · exact hcut i hi hin
      · exact habove i (Nat.not_le.mp hin) hend
  -- no position to the right has the value, and what is there is not below it
  | absent =>
      rw [hsearch] at hcorrect
      refine .inr ⟨rfl, ⟨Nat.le_trans hle hlast, hm⟩, ?_⟩
      intro i hi hend
      by_cases hin : i ≤ last
      · have hne : key i ≠ value := hcorrect i hi hin
        have hge : value ≤ key i := hm ▸ hkey m i (Nat.le_of_lt hi) hend
        exact lt_of_le_of_ne hge hne.symm
      · exact habove i (Nat.not_le.mp hin) hend
  -- the search starts right of 0
  | escaped =>
      rw [hsearch] at hcorrect
      exact absurd hcorrect.1 (Nat.succ_ne_zero m)

end Search

/-! ## Cuts of a list -/

section Cut

variable {α : Type u} {xs : List α} {n : Nat}

theorem forall_mem_take {q : α → Prop}
    (h : ∀ (i : Nat) (hi : i < xs.length), i < n → q (xs.get ⟨i, hi⟩)) : ∀ x ∈ xs.take n, q x := by
  intro x hx
  rcases List.mem_take_iff_getElem.mp hx with ⟨i, hi, rfl⟩
  exact h i (by omega) (by omega)

theorem forall_mem_drop {q : α → Prop}
    (h : ∀ (i : Nat) (hi : i < xs.length), n ≤ i → q (xs.get ⟨i, hi⟩)) : ∀ x ∈ xs.drop n, q x := by
  intro x hx
  rcases List.mem_drop_iff_getElem.mp hx with ⟨i, hi, rfl⟩
  exact h (n + i) (by omega) (by omega)

variable {p : α → Bool}

theorem filter_eq_take (hbefore : ∀ x ∈ xs.take n, p x) (hbehind : ∀ x ∈ xs.drop n, ¬p x) :
    xs.filter p = xs.take n := by
  calc xs.filter p
      = (xs.take n ++ xs.drop n).filter p := by rw [List.take_append_drop]
    _ = xs.take n := by
        rw [List.filter_append, List.filter_eq_self.mpr hbefore,
          List.filter_eq_nil_iff.mpr hbehind, List.append_nil]

theorem filter_eq_drop (hbefore : ∀ x ∈ xs.take n, ¬p x) (hbehind : ∀ x ∈ xs.drop n, p x) :
    xs.filter p = xs.drop n := by
  calc xs.filter p
      = (xs.take n ++ xs.drop n).filter p := by rw [List.take_append_drop]
    _ = xs.drop n := by
        rw [List.filter_append, List.filter_eq_nil_iff.mpr hbefore,
          List.filter_eq_self.mpr hbehind, List.nil_append]

end Cut

end Bisect
