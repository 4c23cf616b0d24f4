import Mathlib.Algebra.Group.Nat.Defs
import Mathlib.Data.Rat.Defs

/-!
# JSON values

The values that messages and stored objects are parsed into, and the typed
reads `j["key"].get<T>()` that the nodes make of them. Parsing and printing
belong to the JSON library and are parameters of the models that use them.

An object is a `std::map`: its members stand in the order of their keys.

A function that fills a record from a JSON value assigns its members one after
another; when a read raises, the members assigned so far keep their new values.
`assignAll` runs such a list of assignments.
-/

namespace DecentralizedCloud

inductive Json where
  | null
  | bool (b : Bool)
  | num (q : Rat)
  | str (s : String)
  | arr (elems : List Json)
  | obj (members : List (String × Json))

namespace Json

/-- The member of an object. -/
def get? : Json → String → Option Json
  | .obj members, key => members.lookup key
  | _, _ => none

/-- `j[key].get<std::string>()`; `none` stands for the type error. -/
def stringAt (j : Json) (key : String) : Option String :=
  match j.get? key with
  | some (.str s) => some s
  | _ => none

/-- The conversion of a number to a signed type of `w` bits: it is cut off towards
zero, and wraps around. -/
def toSigned (w : Nat) (q : Rat) : Int := (q.num.tdiv q.den).bmod (2 ^ w)

/-- `j[key].get<time_t>()` -/
def timeAt (j : Json) (key : String) : Option Int :=
  match j.get? key with
  | some (.num q) => some (toSigned 64 q)
  | _ => none

/-- `j[key]` read as an enumeration of signed characters. -/
def charAt (j : Json) (key : String) : Option Int8 :=
  match j.get? key with
  | some (.num q) => some (.ofInt (toSigned 8 q))
  | _ => none

/-- `j[key].get<int>()`, which takes a truth value for a number. -/
def intAt (j : Json) (key : String) : Option Int :=
  match j.get? key with
  | some (.num q) => some (toSigned 32 q)
  | some (.bool b) => some (if b then 1 else 0)
  | _ => none

/-- `j[key].get<long long>()` -/
def longLongAt (j : Json) (key : String) : Option Int :=
  match j.get? key with
  | some (.num q) => some (toSigned 64 q)
  | _ => none

/-- The elements of an array. -/
def elems : Json → List Json
  | .arr xs => xs
  | _ => []

/-- Set a member of an object, at the place of its key. -/
def insertMember (key : String) (value : Json) : List (String × Json) → List (String × Json)
  | [] => [(key, value)]
  | (k, v) :: members =>
      if key < k then (key, value) :: (k, v) :: members
      else if key = k then (key, value) :: members
      else (k, v) :: insertMember key value members

/-- `j[key] = value`: `null` becomes an object, any other value that is none raises. -/
def setMember (j : Json) (key : String) (value : Json) : Option Json :=
  match j with
  | .obj members => some (.obj (insertMember key value members))
  | .null => some (.obj [(key, value)])
  | .bool _ | .num _ | .str _ | .arr _ => none

/-- `j[key]`: the value and, since a missing member is added as `null`, what `j` is then. -/
def access (j : Json) (key : String) : Option (Json × Json) :=
  match j with
  | .obj members =>
      match members.lookup key with
      | some value => some (value, j)
      | none => some (.null, .obj (insertMember key .null members))
  | .null => some (.null, .obj [(key, .null)])
  | .bool _ | .num _ | .str _ | .arr _ => none

/-- `j[0]`; an array is filled up to the index. -/
def first : Json → Option Json
  | .arr (x :: _) => some x
  | .arr [] | .null => some .null
  | .bool _ | .num _ | .str _ | .obj _ => none

/-- `j.push_back(x)`: `null` becomes an array. -/
def pushBack (j x : Json) : Option Json :=
  match j with
  | .arr xs => some (.arr (xs ++ [x]))
  | .null => some (.arr [x])
  | .bool _ | .num _ | .str _ | .obj _ => none

/-- `empty()`: a text or a number is never empty. -/
def isEmpty : Json → Bool
  | .null => true
  | .arr xs => xs.isEmpty
  | .obj members => members.isEmpty
  | .bool _ | .num _ | .str _ => false

/-- `items()`: keys and values; an array counts its elements, and a scalar is one
value without a key. -/
def items : Json → List (String × Json)
  | .null => []
  | .obj members => members
  | .arr xs => xs.zipIdx.map fun (x, i) => (toString i, x)
  | .bool b => [("", .bool b)]
  | .num q => [("", .num q)]
  | .str s => [("", .str s)]

theorem lookup_member (key key' : String) (value : Json) (members : List (String × Json)) :
    ((key, value) :: members).lookup key' =
      if key' = key then some value else members.lookup key' := by
  rw [List.lookup_cons]
  by_cases h : key' = key
  · simp [h]
  · have hne : (key' == key) = false := by simpa using h
    rw [hne, if_neg h]

/-- Inserting a member sets it, and no other. -/
@[simp] theorem lookup_insertMember (key : String) (value : Json)
    (members : List (String × Json)) (key' : String) :
    (insertMember key value members).lookup key' =
      if key' = key then some value else members.lookup key' := by
  induction members with
  | nil => rw [insertMember, lookup_member]
  | cons kv members ih =>
      rcases kv with ⟨k, v⟩
      unfold insertMember
      split
      · rw [lookup_member]
      · split
        case isTrue h =>
            -- the member is there already
            subst h
            rw [lookup_member, lookup_member]
            split <;> rfl
        case isFalse h =>
            rw [lookup_member, lookup_member, ih]
            -- the member is put further behind
            by_cases h' : key' = k
            · have hne : key' ≠ key := by
                rintro rfl
                exact h h'
              rw [if_pos h', if_neg hne, if_pos h']
            · rw [if_neg h', if_neg h']

/-- Setting a new member adds it, wherever its place is. -/
theorem perm_insertMember {key : String} {members : List (String × Json)}
    (h : key ∉ members.map (·.1)) (value : Json) :
    (insertMember key value members).Perm ((key, value) :: members) := by
  induction members with
  | nil => exact .refl _
  | cons kv members ih =>
      rcases kv with ⟨k, v⟩
      rw [List.map_cons, List.mem_cons, not_or] at h
      unfold insertMember
      split
      · exact .refl _
      · rw [if_neg h.1]
        exact ((ih h.2).cons (k, v)).trans (.swap _ _ _)

end Json

/-! ## Assignments that may raise -/

section Assign

variable {σ : Type}

/-- One member assignment: it raises (`none`) or yields the updated record. -/
abbrev Assignment (σ : Type) := σ → Option σ

/-- Run assignments in order until one raises. The second component says that
all of them went through. -/
def assignAll : List (Assignment σ) → σ → σ × Bool
  | [], s => (s, true)
  | f :: fs, s =>
      match f s with
      | some s' => assignAll fs s'
      | none => (s, false)

/-- What every assignment preserves is preserved by running them, whether or
not one of them raises. -/
theorem assignAll_preserves {p : σ → Prop} {fs : List (Assignment σ)}
    (hfs : ∀ f ∈ fs, ∀ s s', p s → f s = some s' → p s') {s : σ} (hs : p s) :
    p (assignAll fs s).1 := by
  induction fs generalizing s with
  | nil => exact hs
  | cons f fs ih =>
      unfold assignAll
      split
      · rename_i s' hstep
        apply ih
        · intro g hg
          exact hfs g (List.mem_cons_of_mem _ hg)
        · exact hfs f List.mem_cons_self s s' hs hstep
      · exact hs

theorem assignAll_append {fs gs : List (Assignment σ)} {s s' : σ}
    (h : assignAll fs s = (s', true)) : assignAll (fs ++ gs) s = assignAll gs s' := by
  induction fs generalizing s with
  | nil =>
      cases h
      rfl
  | cons f fs ih =>
      cases hf : f s with
      | none => simp [assignAll, hf] at h
      | some t =>
          rw [assignAll, hf] at h
          rw [List.cons_append, assignAll, hf]
          exact ih h

/-- When all assignments go through, the last one has written the result. -/
theorem exists_of_assignAll_concat (fs : List (Assignment σ)) {f : Assignment σ} {s : σ}
    (h : (assignAll (fs ++ [f]) s).2 = true) : ∃ s', f s' = some (assignAll (fs ++ [f]) s).1 := by
  induction fs generalizing s with
  | nil =>
      cases hf : f s with
      | none => simp [assignAll, hf] at h
      | some s' => exact ⟨s, by simp [assignAll, hf]⟩
  | cons g fs ih =>
      cases hg : g s with
      | none => simp [assignAll, hg] at h
      | some s' =>
          simp only [List.cons_append, assignAll, hg] at h ⊢
          exact ih h

/-- Assignments that raise on every record or on none do so from every start. -/
theorem assignAll_snd_eq {fs : List (Assignment σ)}
    (hfs : ∀ f ∈ fs, ∀ s s', (f s).isSome = (f s').isSome) (s s' : σ) :
    (assignAll fs s).2 = (assignAll fs s').2 := by
  induction fs generalizing s s' with
  | nil => rfl
  | cons f fs ih =>
      have hf := hfs f List.mem_cons_self s s'
      have hrest := ih fun g hg => hfs g (List.mem_cons_of_mem _ hg)
      cases hs : f s <;> cases hs' : f s' <;> simp [hs, hs'] at hf
      · simp [assignAll, hs, hs']
      · simpa [assignAll, hs, hs'] using hrest _ _

end Assign

/-! ## Equality -/

namespace Json

mutual

def same : Json → Json → Bool
  | .null, .null => true
  | .bool a, .bool b => a = b
  | .num a, .num b => a = b
  | .str a, .str b => a = b
  | .arr xs, .arr ys => sameElems xs ys
  | .obj xs, .obj ys => sameMembers xs ys
  | _, _ => false

def sameElems : List Json → List Json → Bool
  | [], [] => true
  | x :: xs, y :: ys => same x y && sameElems xs ys
  | _, _ => false

def sameMembers : List (String × Json) → List (String × Json) → Bool
  | [], [] => true
  | (k, x) :: xs, (l, y) :: ys => k = l && same x y && sameMembers xs ys
  | _, _ => false

end

mutual

theorem same_iff : ∀ a b : Json, same a b = true ↔ a = b
  | .null, b => by cases b <;> simp [same]
  | .bool _, b => by cases b <;> simp [same]
  | .num _, b => by cases b <;> simp [same]
  | .str _, b => by cases b <;> simp [same]
  | .arr xs, b => by cases b <;> simp [same, sameElems_iff xs]
  | .obj xs, b => by cases b <;> simp [same, sameMembers_iff xs]

theorem sameElems_iff : ∀ xs ys : List Json, sameElems xs ys = true ↔ xs = ys
  | [], ys => by cases ys <;> simp [sameElems]
  | x :: xs, ys => by cases ys <;> simp [sameElems, same_iff x, sameElems_iff xs]

theorem sameMembers_iff : ∀ xs ys : List (String × Json), sameMembers xs ys = true ↔ xs = ys
  | [], ys => by cases ys <;> simp [sameMembers]
  | (k, x) :: xs, ys => by
      cases ys <;> simp [sameMembers, same_iff x, sameMembers_iff xs, Prod.ext_iff, and_assoc]

end

instance : DecidableEq Json := fun a b => decidable_of_iff _ (same_iff a b)

end Json

end DecentralizedCloud
