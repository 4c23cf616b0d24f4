import DecentralizedCloud.Common.Json
import Mathlib.Algebra.Order.Ring.Unbundled.Rat
import Mathlib.Data.String.Basic
import Mathlib.Order.Compare

/-!
# The order of JSON values

The library compares values of one type by their contents and values of
different types by the types: `null`, booleans, numbers, objects, arrays, texts.
Arrays and objects are compared element by element, as the standard library
compares vectors and maps.

This is a linear order on all values, so a sort by a field and a search for a
value of a field can rely on it.
-/

namespace DecentralizedCloud

namespace Json

/-- The rank of a value's type. -/
def typeOrder : Json → Nat
  | .null => 0
  | .bool _ => 1
  | .num _ => 2
  | .obj _ => 3
  | .arr _ => 4
  | .str _ => 5

mutual

def order : Json → Json → Ordering
  | .bool a, .bool b => cmp a b
  | .num p, .num q => cmp p q
  | .str s, .str t => cmp s t
  | .arr xs, .arr ys => orderElems xs ys
  | .obj ms, .obj ns => orderMembers ms ns
  | a, b => cmp a.typeOrder b.typeOrder

def orderElems : List Json → List Json → Ordering
  | [], [] => .eq
  | [], _ :: _ => .lt
  | _ :: _, [] => .gt
  | x :: xs, y :: ys => (order x y).then (orderElems xs ys)

def orderMembers : List (String × Json) → List (String × Json) → Ordering
  | [], [] => .eq
  | [], _ :: _ => .lt
  | _ :: _, [] => .gt
  | (k, x) :: ms, (l, y) :: ns => (cmp k l).then ((order x y).then (orderMembers ms ns))

end

/-- Values of different types are compared by the types. -/
theorem order_of_typeOrder_ne {a b : Json} (h : a.typeOrder ≠ b.typeOrder) :
    order a b = cmp a.typeOrder b.typeOrder := by
  cases a <;> cases b <;> first | rfl | exact absurd rfl h

theorem typeOrder_le_of_order_lt {a b : Json} (h : order a b = .lt) :
    a.typeOrder ≤ b.typeOrder := by
  by_cases htype : a.typeOrder = b.typeOrder
  · exact htype.le
  · rw [order_of_typeOrder_ne htype, cmp_eq_lt_iff] at h
    exact h.le

/-! ## Equal values -/

mutual

theorem eq_of_order_eq : ∀ {a b : Json}, order a b = .eq → a = b
  | .bool _, .bool _, h => congrArg bool ((cmp_eq_eq_iff _ _).mp h)
  | .num _, .num _, h => congrArg num ((cmp_eq_eq_iff _ _).mp h)
  | .str _, .str _, h => congrArg str ((cmp_eq_eq_iff _ _).mp h)
  | .arr _, .arr _, h => congrArg arr (eq_of_orderElems_eq h)
  | .obj _, .obj _, h => congrArg obj (eq_of_orderMembers_eq h)
  | .null, .null, _ => rfl

theorem eq_of_orderElems_eq : ∀ {xs ys : List Json}, orderElems xs ys = .eq → xs = ys
  | [], [], _ => rfl
  | x :: xs, y :: ys, h => by
      rcases Ordering.then_eq_eq.mp h with ⟨hhead, htail⟩
      rw [eq_of_order_eq hhead, eq_of_orderElems_eq htail]

theorem eq_of_orderMembers_eq :
    ∀ {ms ns : List (String × Json)}, orderMembers ms ns = .eq → ms = ns
  | [], [], _ => rfl
  | (k, x) :: ms, (l, y) :: ns, h => by
      rcases Ordering.then_eq_eq.mp h with ⟨hkey, hrest⟩
      rcases Ordering.then_eq_eq.mp hrest with ⟨hvalue, htail⟩
      rw [(cmp_eq_eq_iff _ _).mp hkey, eq_of_order_eq hvalue, eq_of_orderMembers_eq htail]

end

/-! ## Exchanged values -/

mutual

theorem swap_order (a b : Json) : (order a b).swap = order b a := by
  by_cases htype : a.typeOrder = b.typeOrder
  case pos =>
      cases a <;> cases b <;> simp [typeOrder] at htype
      case null.null => rfl
      case bool.bool | num.num | str.str => exact cmp_swap _ _
      case arr.arr xs ys => exact swap_orderElems xs ys
      case obj.obj ms ns => exact swap_orderMembers ms ns
  case neg => rw [order_of_typeOrder_ne htype, order_of_typeOrder_ne (Ne.symm htype), cmp_swap]

theorem swap_orderElems : ∀ xs ys : List Json, (orderElems xs ys).swap = orderElems ys xs
  | [], [] | [], _ :: _ | _ :: _, [] => rfl
  | x :: xs, y :: ys => by
      show ((order x y).then (orderElems xs ys)).swap = (order y x).then (orderElems ys xs)
      rw [Ordering.swap_then, swap_order x y, swap_orderElems xs ys]

theorem swap_orderMembers :
    ∀ ms ns : List (String × Json), (orderMembers ms ns).swap = orderMembers ns ms
  | [], [] | [], _ :: _ | _ :: _, [] => rfl
  | (k, x) :: ms, (l, y) :: ns => by
      show ((cmp k l).then ((order x y).then (orderMembers ms ns))).swap =
        (cmp l k).then ((order y x).then (orderMembers ns ms))
      rw [Ordering.swap_then, Ordering.swap_then, cmp_swap, swap_order x y,
        swap_orderMembers ms ns]

end

theorem order_self (a : Json) : order a a = .eq :=
  Ordering.eq_swap_iff_eq_eq.mp (swap_order a a).symm

/-! ## Chains of values -/

/-- Comparisons one after another chain up when each of them does. -/
theorem then_lt_trans {o₁ o₂ o₃ p₁ p₂ p₃ : Ordering} (hlt : o₁ = .lt → o₂ = .lt → o₃ = .lt)
    (hleft : o₁ = .eq → o₃ = o₂) (hright : o₂ = .eq → o₃ = o₁)
    (hrest : p₁ = .lt → p₂ = .lt → p₃ = .lt)
    (h₁ : o₁.then p₁ = .lt) (h₂ : o₂.then p₂ = .lt) : o₃.then p₃ = .lt := by
  rw [Ordering.then_eq_lt] at h₁ h₂ ⊢
  rcases h₁ with h₁ | ⟨h₁, hp₁⟩
  · rcases h₂ with h₂ | ⟨h₂, -⟩
    · exact .inl (hlt h₁ h₂)
    · exact .inl ((hright h₂).trans h₁)
  · rcases h₂ with h₂ | ⟨h₂, hp₂⟩
    · exact .inl ((hleft h₁).trans h₂)
    · exact .inr ⟨(hleft h₁).trans h₂, hrest hp₁ hp₂⟩

mutual

/-- The order of values is transitive. -/
theorem order_trans {a b c : Json} (hab : order a b = .lt) (hbc : order b c = .lt) :
    order a c = .lt := by
  have hle := typeOrder_le_of_order_lt hab
  have hle' := typeOrder_le_of_order_lt hbc
  by_cases htype : a.typeOrder = c.typeOrder
  case pos =>
      have htype' : a.typeOrder = b.typeOrder := by omega
      cases a <;> cases b <;> simp [typeOrder] at htype' <;> cases c <;> simp [typeOrder] at htype
      case null.null.null => cases hab
      case bool.bool.bool | num.num.num | str.str.str =>
          exact (cmp_eq_lt_iff _ _).mpr
            (((cmp_eq_lt_iff _ _).mp hab).trans ((cmp_eq_lt_iff _ _).mp hbc))
      case arr.arr.arr xs ys zs => exact orderElems_trans hab hbc
      case obj.obj.obj ms ns os => exact orderMembers_trans hab hbc
  case neg =>
      rw [order_of_typeOrder_ne htype, cmp_eq_lt_iff]
      omega

theorem orderElems_trans : ∀ {xs ys zs : List Json}, orderElems xs ys = .lt →
    orderElems ys zs = .lt → orderElems xs zs = .lt
  | [], _ :: _, _ :: _, _, _ => rfl
  | x :: xs, y :: ys, z :: zs, hxy, hyz => by
      apply then_lt_trans order_trans _ _ orderElems_trans hxy hyz
      · intro h
        rw [eq_of_order_eq h]
      · intro h
        rw [eq_of_order_eq h]

/-- The order of objects is transitive, member by member. -/
theorem orderMembers_trans : ∀ {ms ns os : List (String × Json)}, orderMembers ms ns = .lt →
    orderMembers ns os = .lt → orderMembers ms os = .lt
  | [], _ :: _, _ :: _, _, _ => rfl
  | (k, x) :: ms, (l, y) :: ns, (m, z) :: os, hxy, hyz => by
      have hrest : (order x y).then (orderMembers ms ns) = .lt →
          (order y z).then (orderMembers ns os) = .lt →
          (order x z).then (orderMembers ms os) = .lt := by
        apply then_lt_trans order_trans _ _ orderMembers_trans
        · intro h
          rw [eq_of_order_eq h]
        · intro h
          rw [eq_of_order_eq h]
      apply then_lt_trans _ _ _ hrest hxy hyz
      · rw [cmp_eq_lt_iff, cmp_eq_lt_iff, cmp_eq_lt_iff]
        exact lt_trans
      · intro h
        rw [(cmp_eq_eq_iff _ _).mp h]
      · intro h
        rw [(cmp_eq_eq_iff _ _).mp h]

end

/-! ## The linear order -/

theorem order_eq_iff {a b : Json} : order a b = .eq ↔ a = b := by
  constructor
  · exact eq_of_order_eq
  · rintro rfl
    exact order_self a

instance : DecidableEq Json := fun _ _ => decidable_of_iff _ order_eq_iff

instance : LT Json := ⟨fun a b => order a b = .lt⟩

instance : LE Json := ⟨fun a b => order a b ≠ .gt⟩

theorem lt_iff_order {a b : Json} : a < b ↔ order a b = .lt := Iff.rfl

theorem le_iff_order {a b : Json} : a ≤ b ↔ order a b ≠ .gt := Iff.rfl

theorem le_iff_lt_or_eq {a b : Json} : a ≤ b ↔ a < b ∨ a = b := by
  rw [le_iff_order, lt_iff_order, ← order_eq_iff]
  cases order a b <;> simp

instance : LinearOrder Json where
  le_refl a := by
    rw [le_iff_order, order_self]
    decide
  le_trans a b c hab hbc := by
    rw [le_iff_lt_or_eq] at hab hbc ⊢
    rcases hab with hab | rfl
    · rcases hbc with hbc | rfl
      · exact .inl (order_trans hab hbc)
      · exact .inl hab
    · exact hbc
  lt_iff_le_not_ge a b := by
    rw [lt_iff_order, le_iff_order, le_iff_order, ← swap_order a b]
    cases order a b <;> simp
  le_antisymm a b hab hba := by
    rw [le_iff_order] at hab hba
    rw [← swap_order a b] at hba
    apply eq_of_order_eq
    cases h : order a b <;> simp_all
  le_total a b := by
    rw [le_iff_order, le_iff_order, ← swap_order a b]
    cases order a b <;> simp
  toDecidableLE := fun a b => inferInstanceAs (Decidable (order a b ≠ .gt))
  toDecidableLT := fun a b => inferInstanceAs (Decidable (order a b = .lt))
  toDecidableEq := inferInstance

end Json

end DecentralizedCloud
