import Mathlib.Data.List.Count
import Mathlib.Data.List.Sort
import Mathlib.Logic.Equiv.Basic

/-!
# Sorting by a key, and the order of ties

A comparison sort by a key puts a list in the order of the keys. What it does
with elements of one key is not fixed, but it cannot depend on anything but the
keys either: it commutes with every renaming of the elements that keeps their
keys (`KeySort.blind`).

Two sorted permutations of one list can differ in the order of ties only. They
agree

* on what they are folded into, when ties commute (`flatMap_eq_of_perm`);
* on the first `n` elements, when no tie lies among these (`take_eq_of_perm`).

Their first `n` elements are the `n` lowest ones (`lowest_take`).

Conversely, for every tie there are two orders of the list from which a
`KeySort` puts the two elements at the front of their key in both ways
(`KeySort.exists_adjacent`). So these conditions are also necessary.
-/

universe u v

variable {α : Type u} {κ : Type v} [LinearOrder κ] {key : α → κ}

/-- A sort that compares keys. -/
structure KeySort (key : α → κ) where
  sort : List α → List α
  perm : ∀ xs, (sort xs).Perm xs
  sorted : ∀ xs, (sort xs).Pairwise fun a b => key a ≤ key b
  /-- elements of one key look alike to the sort -/
  blind : ∀ f : α → α, (∀ a, key (f a) = key a) → ∀ xs, sort (xs.map f) = (sort xs).map f

namespace KeySort

/-- Insertion sort compares nothing but keys. -/
def insertion (key : α → κ) : KeySort key where
  sort := List.insertionSort fun a b => key a ≤ key b
  perm := List.perm_insertionSort _
  sorted xs := by
    have : Std.Total fun a b => key a ≤ key b := ⟨fun a b => le_total (key a) (key b)⟩
    have : IsTrans α fun a b => key a ≤ key b := ⟨fun _ _ _ => le_trans⟩
    exact List.pairwise_insertionSort _ xs
  blind f hf xs := by
    have hmap := List.map_insertionSort (fun a b => key a ≤ key b) (fun a b => key a ≤ key b) f xs
      fun a _ b _ => by rw [hf a, hf b]
    exact hmap.symm

/-! ## Sorted permutations of one list -/

/-- Before an element of least key, a sorted list has ties with it only. -/
theorem tied_of_sorted {l r : List α} {a : α}
    (hsorted : (l ++ a :: r).Pairwise fun a b => key a ≤ key b)
    (hleast : ∀ b ∈ l, key a ≤ key b) : ∀ b ∈ l, key b = key a := by
  intro b hb
  have hle : key b ≤ key a :=
    (List.pairwise_append.mp hsorted).2.2 b hb a List.mem_cons_self
  exact le_antisymm hle (hleast b hb)

/-- Something that commutes with each part commutes with the whole. -/
theorem append_flatMap_comm {β : Type*} {f : α → List β} {bs : List β} {l : List α}
    (h : ∀ b ∈ l, f b ++ bs = bs ++ f b) : l.flatMap f ++ bs = bs ++ l.flatMap f := by
  induction l with
  | nil => simp
  | cons b l ih =>
      have hb : f b ++ bs = bs ++ f b := h b List.mem_cons_self
      have hl : l.flatMap f ++ bs = bs ++ l.flatMap f :=
        ih fun c hc => h c (List.mem_cons_of_mem b hc)
      calc (b :: l).flatMap f ++ bs
          = f b ++ (l.flatMap f ++ bs) := by simp
        _ = f b ++ (bs ++ l.flatMap f) := by rw [hl]
        _ = (f b ++ bs) ++ l.flatMap f := by simp
        _ = bs ++ (b :: l).flatMap f := by simp [hb]

/-- Sorted permutations whose ties commute have the same concatenation. -/
theorem flatMap_eq_of_perm {β : Type*} {f : α → List β} {xs ys : List α} (hperm : xs.Perm ys)
    (hxs : xs.Pairwise fun a b => key a ≤ key b) (hys : ys.Pairwise fun a b => key a ≤ key b)
    (hties : ∀ a ∈ xs, ∀ b ∈ xs, key a = key b → f a ++ f b = f b ++ f a) :
    xs.flatMap f = ys.flatMap f := by
  induction xs generalizing ys with
  | nil => rw [hperm.nil_eq]
  | cons a xs ih =>
      rcases List.pairwise_cons.mp hxs with ⟨hleast, hsorted⟩
      -- what stands before `a` in the other list is tied with it
      rcases List.append_of_mem (hperm.subset List.mem_cons_self) with ⟨l, r, rfl⟩
      have hrest : xs.Perm (l ++ r) := (hperm.trans List.perm_middle).cons_inv
      have hl : ∀ b ∈ l, b ∈ xs := fun b hb => hrest.mem_iff.mpr (List.mem_append_left r hb)
      have htied : ∀ b ∈ l, key b = key a :=
        tied_of_sorted hys fun b hb => hleast b (hl b hb)
      have hcomm : l.flatMap f ++ f a = f a ++ l.flatMap f := by
        apply append_flatMap_comm
        intro b hb
        exact hties b (List.mem_cons_of_mem a (hl b hb)) a List.mem_cons_self (htied b hb)
      have hys' : (l ++ r).Pairwise fun a b => key a ≤ key b :=
        hys.sublist ((List.sublist_cons_self a r).append_left l)
      have htail : xs.flatMap f = (l ++ r).flatMap f := by
        apply ih hrest hsorted hys'
        intro b hb c hc
        exact hties b (List.mem_cons_of_mem a hb) c (List.mem_cons_of_mem a hc)
      calc (a :: xs).flatMap f
          = f a ++ (l ++ r).flatMap f := by rw [List.flatMap_cons, htail]
        _ = (f a ++ l.flatMap f) ++ r.flatMap f := by simp
        _ = (l ++ a :: r).flatMap f := by rw [← hcomm]; simp

/-- Sorted permutations have the same first `n` elements when every tie has `n`
smaller elements before it. -/
theorem take_eq_of_perm {n : Nat} {xs ys : List α} (hperm : xs.Perm ys)
    (hxs : xs.Pairwise fun a b => key a ≤ key b) (hys : ys.Pairwise fun a b => key a ≤ key b)
    (hties : ∀ a ∈ xs, ∀ b ∈ xs, a ≠ b → key a = key b →
      n ≤ xs.countP fun c => key c < key a) :
    xs.take n = ys.take n := by
  induction n generalizing xs ys with
  | zero => rw [List.take_zero, List.take_zero]
  | succ n ih =>
      cases xs with
      | nil => rw [hperm.nil_eq]
      | cons a xs =>
          cases ys with
          | nil => exact absurd hperm.eq_nil (List.cons_ne_nil a xs)
          | cons b ys =>
              rcases List.pairwise_cons.mp hxs with ⟨hleast, hsorted⟩
              rcases List.pairwise_cons.mp hys with ⟨hleast', hsorted'⟩
              have hsame : a = b := by
                by_contra hne
                -- both are least, so they are a tie with nothing before it
                have hb : b ∈ xs :=
                  List.mem_of_ne_of_mem (Ne.symm hne) (hperm.symm.subset List.mem_cons_self)
                have ha : a ∈ ys := List.mem_of_ne_of_mem hne (hperm.subset List.mem_cons_self)
                have htie : key a = key b := le_antisymm (hleast b hb) (hleast' a ha)
                have hcount :=
                  hties a List.mem_cons_self b (List.mem_cons_of_mem a hb) hne htie
                have hzero : (a :: xs).countP (fun c => key c < key a) = 0 := by
                  rw [List.countP_eq_zero]
                  intro c hc
                  rcases List.mem_cons.mp hc with rfl | hc
                  · simp
                  · simpa using hleast c hc
                omega
              subst hsame
              rw [List.take_succ_cons, List.take_succ_cons]
              congr 1
              apply ih hperm.cons_inv hsorted hsorted'
              intro c hc d hd hne htie
              have hcount := hties c (List.mem_cons_of_mem a hc) d (List.mem_cons_of_mem a hd) hne
                htie
              rw [List.countP_cons] at hcount
              split at hcount <;> omega

/-- Where the elements with a property come first, it splits the list at one place. -/
theorem span_eq_filter {p : α → Bool} {xs : List α} (h : xs.Pairwise fun a b => p b → p a) :
    xs.takeWhile p = xs.filter p ∧ xs.dropWhile p = xs.filter fun a => !p a := by
  induction xs with
  | nil => exact ⟨rfl, rfl⟩
  | cons a xs ih =>
      rcases List.pairwise_cons.mp h with ⟨hhead, hrest⟩
      by_cases ha : p a
      · simp [ha, ih hrest]
      · -- behind the first element without the property none has it
        have hall : ∀ b ∈ xs, ¬p b := fun b hb hpb => ha (hhead b hb hpb)
        have hnone : xs.filter p = [] := List.filter_eq_nil_iff.mpr hall
        have hself : xs.filter (fun a => !p a) = xs := by
          rw [List.filter_eq_self]
          intro b hb
          simpa using hall b hb
        simp [ha, hnone, hself]

/-- In a sorted list the elements up to a key are the first ones. -/
theorem takeWhile_eq_filter {xs : List α} (hsorted : xs.Pairwise fun a b => key a ≤ key b)
    (k : κ) : xs.takeWhile (fun a => key a ≤ k) = xs.filter fun a => key a ≤ k := by
  refine (span_eq_filter (hsorted.imp ?_)).1
  intro a b hle hb
  simpa using hle.trans (of_decide_eq_true hb)

theorem dropWhile_eq_filter {xs : List α} (hsorted : xs.Pairwise fun a b => key a ≤ key b)
    (k : κ) : xs.dropWhile (fun a => key a ≤ k) = xs.filter fun a => k < key a := by
  refine (span_eq_filter (hsorted.imp ?_)).2.trans ?_
  · intro a b hle hb
    simpa using hle.trans (of_decide_eq_true hb)
  · apply List.filter_congr
    intro a _
    rw [← decide_not]
    simp only [not_le]

/-! ## The lowest elements -/

/-- `ys` are `n` elements of `xs` in the order of the keys, or all of them if there are fewer,
and no other element of `xs` has a lower key than one of them. -/
structure Lowest (key : α → κ) (n : Nat) (xs ys : List α) : Prop where
  sorted : ys.Pairwise fun a b => key a ≤ key b
  length : ys.length = min n xs.length
  least : ∃ rest, xs.Perm (ys ++ rest) ∧ ∀ a ∈ ys, ∀ b ∈ rest, key a ≤ key b

theorem lowest_take {xs ys : List α} (n : Nat) (hperm : ys.Perm xs)
    (hsorted : ys.Pairwise fun a b => key a ≤ key b) : Lowest key n xs (ys.take n) := by
  have hsplit : ys.take n ++ ys.drop n = ys := List.take_append_drop n ys
  constructor
  · exact hsorted.sublist (List.take_sublist n ys)
  · rw [List.length_take, hperm.length_eq]
  · refine ⟨ys.drop n, ?_, ?_⟩
    · rw [hsplit]
      exact hperm.symm
    · rw [← hsplit] at hsorted
      exact (List.pairwise_append.mp hsorted).2.2

/-- The first of those elements of a sorted list that have a property. -/
theorem lowest_filter (S : KeySort key) (p : α → Bool) (n : Nat) (xs : List α) :
    Lowest key n (xs.filter p) (((S.sort xs).filter p).take n) :=
  lowest_take n ((S.perm xs).filter p) ((S.sorted xs).filter p)

/-! ## Both orders of a tie -/

/-- A tie in a sorted list: two elements of its key stand right behind the smaller ones. -/
theorem exists_front {s : List α} {a b : α} (hsorted : s.Pairwise fun a b => key a ≤ key b)
    (ha : a ∈ s) (hb : b ∈ s) (hne : a ≠ b) (htie : key a = key b) :
    ∃ l x y r, s = l ++ x :: y :: r ∧ key x = key a ∧ key y = key a ∧ ∀ c ∈ l, key c < key a := by
  induction s with
  | nil => cases ha
  | cons c s ih =>
      rcases List.pairwise_cons.mp hsorted with ⟨hleast, hrest⟩
      by_cases hsmaller : key c < key a
      case pos =>
          have ha' : a ∈ s := List.mem_of_ne_of_mem (fun h => by simp [h] at hsmaller) ha
          have hb' : b ∈ s := List.mem_of_ne_of_mem (fun h => by simp [htie, h] at hsmaller) hb
          rcases ih hrest ha' hb' with ⟨l, x, y, r, rfl, hx, hy, hl⟩
          refine ⟨c :: l, x, y, r, rfl, hx, hy, ?_⟩
          intro d hd
          rcases List.mem_cons.mp hd with rfl | hd
          · exact hsmaller
          · exact hl d hd
      case neg =>
          have hle : key a ≤ key c := not_lt.mp hsmaller
          -- one of the two is not `c`, so there is a second element
          obtain ⟨d, hd, hkey⟩ : ∃ d ∈ s, key d = key a := by
            by_cases hac : a = c
            · exact ⟨b, List.mem_of_ne_of_mem (fun h => hne (hac.trans h.symm)) hb, htie.symm⟩
            · exact ⟨a, List.mem_of_ne_of_mem hac ha, rfl⟩
          have hc : key c = key a := le_antisymm (hkey ▸ hleast d hd) hle
          cases s with
          | nil => cases hd
          | cons y r =>
              have hy : key y = key a := by
                apply le_antisymm
                · rcases List.mem_cons.mp hd with rfl | hd
                  · exact hkey.le
                  · exact hkey ▸ (List.pairwise_cons.mp hrest).1 d hd
                · exact hle.trans (hleast y List.mem_cons_self)
              exact ⟨[], c, y, r, rfl, hc, hy, by simp⟩

/-- The front of a sorted list holds the elements that are smaller than the next one. -/
theorem countP_front {l r : List α} {a : α}
    (hsorted : (l ++ a :: r).Pairwise fun a b => key a ≤ key b) (hl : ∀ c ∈ l, key c < key a) :
    (l ++ a :: r).countP (fun c => key c < key a) = l.length := by
  have hleast := (List.pairwise_cons.mp (List.pairwise_append.mp hsorted).2.1).1
  have hrest : (a :: r).countP (fun c => key c < key a) = 0 := by
    rw [List.countP_eq_zero]
    intro c hc
    rcases List.mem_cons.mp hc with rfl | hc
    · simp
    · simpa using hleast c hc
  have hfront : l.countP (fun c => key c < key a) = l.length := by
    rw [List.countP_eq_length]
    intro c hc
    simpa using hl c hc
  rw [List.countP_append, hrest, hfront, Nat.add_zero]

variable [DecidableEq α]

/-- A function that does not tell `a` and `b` apart does not see them swapped. -/
theorem apply_swap {β : Type*} {f : α → β} {a b : α} (h : f a = f b) (c : α) :
    f (Equiv.swap a b c) = f c := by
  rw [Equiv.swap_apply_def]
  split
  case isTrue hc => rw [hc, h]
  case isFalse =>
      split
      case isTrue hc => rw [hc, h]
      case isFalse => rfl

/-- Swapping two elements of a list permutes it. -/
theorem map_swap_perm {xs : List α} (hnodup : xs.Nodup) {a b : α} (ha : a ∈ xs) (hb : b ∈ xs) :
    (xs.map (Equiv.swap a b)).Perm xs := by
  rw [List.perm_ext_iff_of_nodup (hnodup.map (Equiv.swap a b).injective) hnodup]
  intro c
  constructor
  · intro hc
    rcases List.mem_map.mp hc with ⟨d, hd, rfl⟩
    rw [Equiv.swap_apply_def]
    split
    · exact hb
    · split
      · exact ha
      · exact hd
  · intro hc
    refine List.mem_map.mpr ⟨Equiv.swap a b c, ?_, Equiv.swap_apply_self a b c⟩
    rw [Equiv.swap_apply_def]
    split
    · exact hb
    · split
      · exact ha
      · exact hc

theorem map_swap_of_notMem {xs : List α} {a b : α} (ha : a ∉ xs) (hb : b ∉ xs) :
    xs.map (Equiv.swap a b) = xs := by
  conv_rhs => rw [← List.map_id xs]
  apply List.map_congr_left
  intro c hc
  exact Equiv.swap_apply_of_ne_of_ne (fun h => ha (h ▸ hc)) (fun h => hb (h ▸ hc))

/-- The sort does not see that the two elements of a tie have been exchanged. -/
theorem sort_map_swap (S : KeySort key) {q l r : List α} {a b : α} (htie : key a = key b)
    (hnodup : (l ++ a :: b :: r).Nodup) (hsort : S.sort q = l ++ a :: b :: r) :
    S.sort (q.map (Equiv.swap a b)) = l ++ b :: a :: r := by
  -- the two stand nowhere else
  simp only [List.nodup_append, List.nodup_cons, List.mem_cons, not_or] at hnodup
  rcases hnodup with ⟨-, ⟨⟨-, har⟩, hbr, -⟩, hdisjoint⟩
  have hal : a ∉ l := fun h => hdisjoint a h a (.inl rfl) rfl
  have hbl : b ∉ l := fun h => hdisjoint b h b (.inr (.inl rfl)) rfl
  rw [S.blind _ (apply_swap htie), hsort, List.map_append, List.map_cons, List.map_cons,
    Equiv.swap_apply_left, Equiv.swap_apply_right, map_swap_of_notMem hal hbl,
    map_swap_of_notMem har hbr]

/-- The two elements of a tie can be sorted either way: some order of the list puts
`a` right before `b`, behind all smaller elements, and with the two exchanged it
comes out exchanged. -/
theorem exists_adjacent (S : KeySort key) {xs : List α} (hnodup : xs.Nodup) {a b : α}
    (ha : a ∈ xs) (hb : b ∈ xs) (hne : a ≠ b) (htie : key a = key b) :
    ∃ q l r, q.Perm xs ∧ (q.map (Equiv.swap a b)).Perm xs ∧
      S.sort q = l ++ a :: b :: r ∧ S.sort (q.map (Equiv.swap a b)) = l ++ b :: a :: r ∧
      l.length = xs.countP fun c => key c < key a := by
  obtain ⟨l, x, y, r, hs, hx, hy, hl⟩ := exists_front (S.sorted xs)
    ((S.perm xs).mem_iff.mpr ha) ((S.perm xs).mem_iff.mpr hb) hne htie
  have hmem : ∀ c, c ∈ l ++ x :: y :: r → c ∈ xs := by
    intro c hc
    rw [← hs] at hc
    exact (S.perm xs).mem_iff.mp hc
  have hxy : x ≠ y := by
    have hnodup' : (l ++ x :: y :: r).Nodup := by
      rw [← hs]
      exact (S.perm xs).nodup_iff.mpr hnodup
    intro heq
    rw [heq] at hnodup'
    simp [List.nodup_append] at hnodup'
  -- rename `x` into `a`, then what `y` has become into `b`
  obtain ⟨y', hy'⟩ : ∃ y', Equiv.swap x a y = y' := ⟨_, rfl⟩
  have hya : y' ≠ a := by
    intro heq
    rw [heq, Equiv.swap_apply_eq_iff, Equiv.swap_apply_right] at hy'
    exact hxy hy'.symm
  have hkeyy : key y' = key b := by rw [← hy', apply_swap hx, hy, htie]
  have hperm₁ : (xs.map (Equiv.swap x a)).Perm xs := map_swap_perm hnodup (hmem x (by simp)) ha
  have hperm₂ : ((xs.map (Equiv.swap x a)).map (Equiv.swap y' b)).Perm
      (xs.map (Equiv.swap x a)) := by
    apply map_swap_perm (hperm₁.nodup_iff.mpr hnodup)
    · exact List.mem_map.mpr ⟨y, hmem y (by simp), hy'⟩
    · exact hperm₁.mem_iff.mpr hb
  have hsort : S.sort ((xs.map (Equiv.swap x a)).map (Equiv.swap y' b)) =
      (l.map (Equiv.swap x a)).map (Equiv.swap y' b) ++ a :: b ::
        (r.map (Equiv.swap x a)).map (Equiv.swap y' b) := by
    rw [S.blind _ (apply_swap hkeyy), S.blind _ (apply_swap hx), hs]
    simp only [List.map_append, List.map_cons, Equiv.swap_apply_left, hy',
      Equiv.swap_apply_of_ne_of_ne hya.symm hne]
  have hsmaller : ∀ c ∈ (l.map (Equiv.swap x a)).map (Equiv.swap y' b), key c < key a := by
    intro c hc
    rw [List.map_map] at hc
    rcases List.mem_map.mp hc with ⟨d, hd, rfl⟩
    rw [Function.comp_apply, apply_swap hkeyy, apply_swap hx]
    exact hl d hd
  generalize (xs.map (Equiv.swap x a)).map (Equiv.swap y' b) = q at hsort hperm₂
  generalize (l.map (Equiv.swap x a)).map (Equiv.swap y' b) = l' at hsort hsmaller
  generalize (r.map (Equiv.swap x a)).map (Equiv.swap y' b) = r' at hsort
  have hqperm : q.Perm xs := hperm₂.trans hperm₁
  have hsorted : (l' ++ a :: b :: r').Perm xs := by
    rw [← hsort]
    exact (S.perm q).trans hqperm
  have hnodup' : (l' ++ a :: b :: r').Nodup := hsorted.nodup_iff.mpr hnodup
  refine ⟨q, l', r', hqperm, ?_, hsort, ?_, ?_⟩
  · exact (map_swap_perm (hqperm.nodup_iff.mpr hnodup) (hqperm.mem_iff.mpr ha)
      (hqperm.mem_iff.mpr hb)).trans hqperm
  · exact S.sort_map_swap htie hnodup' hsort
  · have hordered := S.sorted q
    rw [hsort] at hordered
    rw [← hsorted.countP_eq, countP_front hordered hsmaller]

end KeySort
