import Mathlib.Algebra.Group.Int.Defs
import Mathlib.Data.List.TakeWhile

/-!
# Field maps and the numerals inside them

`FieldValueMap` is the map from field names to values that every message
between nodes is parsed into. The numbers in it travel as text; `atoi`,
`stoll` and `stoull` read them back the way the C++ library does: leading
white space and a sign are accepted, what follows the digits is ignored.
-/

namespace DecentralizedCloud

/-- An `unordered_map` from field names to values: the first pair of a name counts. -/
abbrev FieldValueMap := List (String × String)

namespace FieldValueMap

/-- `at` (`none` is `std::out_of_range`) and `find`. -/
def at? (f : FieldValueMap) (key : String) : Option String := List.lookup key f

/-- `insert`: a field that is already there keeps its value. -/
def insert (f : FieldValueMap) (key value : String) : FieldValueMap :=
  if (f.at? key).isSome then f else f ++ [(key, value)]

/-- Assignment through `operator[]`. -/
def set (f : FieldValueMap) (key value : String) : FieldValueMap :=
  (key, value) :: f.filter fun kv => kv.1 ≠ key

/-- Reading through `operator[]`: a missing field reads as the empty string. -/
def get (f : FieldValueMap) (key : String) : String := (f.at? key).getD ""

@[simp] theorem at?_insert_ne {f : FieldValueMap} {key key' value : String} (h : key' ≠ key) :
    (f.insert key value).at? key' = f.at? key' := by
  unfold insert
  split
  · rfl
  · unfold at?
    rw [List.lookup_append]
    have hkeys : (key' == key) = false := by simpa using h
    have hother : List.lookup key' [(key, value)] = none := by
      simp [List.lookup_cons, hkeys]
    rw [hother, Option.or_none]

@[simp] theorem at?_set_ne {f : FieldValueMap} {key key' value : String} (h : key' ≠ key) :
    (f.set key value).at? key' = f.at? key' := by
  have hkeys : (key' == key) = false := by simpa using h
  unfold set at?
  rw [List.lookup_cons, hkeys]
  induction f with
  | nil => rfl
  | cons kv f ih =>
      rcases kv with ⟨k, v⟩
      by_cases hk : k = key
      · subst hk
        simpa [List.lookup_cons, hkeys] using ih
      · rw [List.filter_cons_of_pos (by simpa using hk), List.lookup_cons, List.lookup_cons]
        cases key' == k
        · exact ih
        · rfl

/-- A value is read of some pair. -/
theorem mem_of_at? {f : FieldValueMap} {key value : String} (h : f.at? key = some value) :
    (key, value) ∈ f := by
  rcases List.lookup_eq_some_iff.mp h with ⟨before, behind, rfl, -⟩
  simp

theorem exists_at?_of_mem {f : FieldValueMap} {field : String × String} (h : field ∈ f) :
    ∃ value, f.at? field.1 = some value := by
  rw [← Option.ne_none_iff_exists', FieldValueMap.at?, Ne, List.lookup_eq_none_iff]
  intro hall
  simpa using hall field h

end FieldValueMap

/-- The first value of a name counts. -/
theorem at?_insert (names : FieldValueMap) (name hash name' : String) :
    (names.insert name hash).at? name' =
      (names.at? name').or (if name' = name then some hash else none) := by
  by_cases h : name' = name
  · subst h
    unfold FieldValueMap.insert
    split
    case isTrue hsome =>
        rcases Option.isSome_iff_exists.mp hsome with ⟨hash', hhash'⟩
        rw [hhash', Option.some_or]
    case isFalse hnone =>
        rw [Bool.not_eq_true, Option.isSome_eq_false_iff, Option.isNone_iff_eq_none] at hnone
        rw [hnone, FieldValueMap.at?, List.lookup_append]
        rw [FieldValueMap.at?] at hnone
        simp [hnone]
  · rw [FieldValueMap.at?_insert_ne h, if_neg h, Option.or_none]

theorem at?_foldl_insert (edges : List (String × String)) (names : FieldValueMap) (name : String) :
    (edges.foldl (fun names link => FieldValueMap.insert names link.1 link.2) names).at? name =
      (names.at? name).or (edges.lookup name) := by
  induction edges generalizing names with
  | nil => simp
  | cons link edges ih =>
      rcases link with ⟨name', hash⟩
      rw [List.foldl_cons, ih, at?_insert, Option.or_assoc, List.lookup_cons]
      by_cases h : name = name'
      · simp [h]
      · have hne : (name == name') = false := by simpa using h
        simp [h, hne]

/-! ## Numerals -/

/-- `isspace` in the C locale: the blank, and the characters from tab to carriage
return. -/
def isspace (c : Char) : Bool := c = ' ' || (9 ≤ c.toNat && c.toNat ≤ 13)

/-- The value of a run of decimal digits. -/
def digitsValue (cs : List Char) : Nat :=
  cs.foldl (fun n c => 10 * n + (c.toNat - '0'.toNat)) 0

/-- The signed number at the front of a text, or `none` when no digit is there. -/
def leadingInteger (s : String) : Option Int :=
  let cs := s.toList.dropWhile isspace
  let (negative, cs) :=
    match cs with
    | '-' :: cs => (true, cs)
    | '+' :: cs => (false, cs)
    | cs => (false, cs)
  let ds := cs.takeWhile Char.isDigit
  if ds.isEmpty then none
  else some (if negative then -(digitsValue ds : Int) else (digitsValue ds : Int))

/-- `atoi`: a text that is no number reads as 0. -/
def atoi (s : String) : Int := (leadingInteger s).getD 0

/-- `stoi`; `none` stands for `invalid_argument` and `out_of_range`. -/
def stoi (s : String) : Option Int :=
  (leadingInteger s).filter fun n => decide (-(2 ^ 31) ≤ n ∧ n < 2 ^ 31)

/-- `std::stol`: a `long` of the Visual Studio build has 32 bits. -/
def stol (s : String) : Option Int := stoi s

/-- `std::stoll`; `none` stands for `invalid_argument` and `out_of_range`. -/
def stoll (s : String) : Option Int :=
  (leadingInteger s).filter fun n => decide (-(2 ^ 63) ≤ n ∧ n < 2 ^ 63)

/-- `std::stoull`: a negative number is wrapped to 64 bits. -/
def stoull (s : String) : Option Nat :=
  ((leadingInteger s).filter fun n => decide (-(2 ^ 64) < n ∧ n < 2 ^ 64)).map
    fun n => (n % 2 ^ 64).toNat

example : stoll " \t42x" = some 42 ∧ stoull "-1" = some (2 ^ 64 - 1) ∧ stoll "x" = none := by
  decide

/-! ### Printed numbers -/

theorem isspace_of_isDigit {c : Char} (h : c.isDigit = true) : isspace c = false := by
  simp only [Char.isDigit, Bool.and_eq_true, decide_eq_true_eq] at h
  have hlow : 48 ≤ c.toNat := h.1
  unfold isspace
  rw [Bool.or_eq_false_iff, decide_eq_false_iff_not]
  refine ⟨?_, by simp; omega⟩
  rintro rfl
  exact absurd hlow (by decide)

theorem isDigit_toDigits {n : Nat} : ∀ c ∈ Nat.toDigits 10 n, c.isDigit = true :=
  fun _ hc => Nat.isDigit_of_mem_toDigits (by decide) (by decide) hc

theorem takeWhile_toDigits (n : Nat) :
    (Nat.toDigits 10 n).takeWhile Char.isDigit = Nat.toDigits 10 n :=
  List.takeWhile_eq_self_iff.mpr isDigit_toDigits

theorem digitsValue_toDigits (n : Nat) : digitsValue (Nat.toDigits 10 n) = n :=
  Nat.ofDigitChars_ten_toDigits

/-- A printed number consists of digits, and perhaps a sign. -/
theorem mem_toString_int {z : Int} {c : Char} (h : c ∈ (toString z).toList) :
    c.isDigit ∨ c = '-' := by
  rw [Int.toString_eq_repr, Int.repr_eq_if] at h
  split at h
  · rw [Nat.toList_repr] at h
    exact .inl (isDigit_toDigits c h)
  · rw [String.toList_append, Nat.toList_repr] at h
    rcases List.mem_append.mp h with h | h
    · exact .inr (by simpa using h)
    · exact .inl (isDigit_toDigits c h)

/-- A printed number is read back. -/
theorem leadingInteger_toString (z : Int) : leadingInteger (toString z) = some z := by
  rw [Int.toString_eq_repr, Int.repr_eq_if]
  split
  case isTrue hz =>
      have hlist : z.toNat.repr.toList = Nat.toDigits 10 z.toNat := Nat.toList_repr
      cases hds : Nat.toDigits 10 z.toNat with
      | nil => exact absurd hds Nat.toDigits_ne_nil
      | cons c cs =>
          have hc : c.isDigit = true := isDigit_toDigits c (by rw [hds]; exact List.mem_cons_self)
          have hminus : c ≠ '-' := by
            rintro rfl
            revert hc
            decide
          have hplus : c ≠ '+' := by
            rintro rfl
            revert hc
            decide
          have hall := takeWhile_toDigits z.toNat
          have hvalue := digitsValue_toDigits z.toNat
          rw [hds] at hall hvalue
          have hdash : (c :: cs).dropWhile isspace = c :: cs :=
            List.dropWhile_cons_of_neg (ne_true_of_eq_false (isspace_of_isDigit hc))
          simp only [leadingInteger, hlist, hds, hdash]
          -- the numeral has no sign
          split
          · rename_i heq
            exact absurd (List.cons.inj heq).1 hminus
          · rename_i heq
            exact absurd (List.cons.inj heq).1 hplus
          · simp only [hall, hvalue, List.isEmpty_cons, Bool.false_eq_true, if_false,
              Int.toNat_of_nonneg hz]
  case isFalse hz =>
      have hlist : ("-" ++ (-z).toNat.repr).toList = '-' :: Nat.toDigits 10 (-z).toNat := by
        rw [String.toList_append, Nat.toList_repr]
        rfl
      have hempty : (Nat.toDigits 10 (-z).toNat).isEmpty = false := by
        rw [List.isEmpty_eq_false_iff]
        exact Nat.toDigits_ne_nil
      have hvalue : -((-z).toNat : Int) = z := by omega
      have hdash : ('-' :: Nat.toDigits 10 (-z).toNat).dropWhile isspace =
          '-' :: Nat.toDigits 10 (-z).toNat := List.dropWhile_cons_of_neg (by decide)
      simp only [leadingInteger, hlist, hdash, takeWhile_toDigits, hempty, digitsValue_toDigits,
        hvalue]
      rfl

/-- A time is read back. -/
theorem stoll_toString {z : Int} (h : -(2 ^ 63) ≤ z ∧ z < 2 ^ 63) :
    stoll (toString z) = some z := by
  rw [stoll, leadingInteger_toString, Option.filter_some, if_pos (decide_eq_true h)]

/-- Different numbers are printed differently. -/
theorem toString_inj {a b : Int} : toString a = toString b ↔ a = b := by
  constructor
  · intro h
    have hread := leadingInteger_toString a
    rw [h, leadingInteger_toString b] at hread
    exact (Option.some.inj hread).symm
  · rintro rfl
    rfl

theorem stol_toString (z : Int) :
    stol (toString z) = if -(2 ^ 31) ≤ z ∧ z < 2 ^ 31 then some z else none := by
  rw [stol, stoi, leadingInteger_toString, Option.filter_some]
  simp only [decide_eq_true_eq]

theorem stoull_toString {z : Int} (hlow : 0 ≤ z) (hhigh : z < 2 ^ 64) :
    stoull (toString z) = some z.toNat := by
  rw [stoull, leadingInteger_toString, Option.filter_some,
    if_pos (by simpa using ⟨by omega, hhigh⟩), Option.map_some, Int.emod_eq_of_lt hlow hhigh]

end DecentralizedCloud
