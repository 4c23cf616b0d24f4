import DecentralizedCloud.Common.Printing
import Mathlib.Data.String.Basic

/-!
# The JSON library

A value of the library keeps the members of an object in the order of their keys, each
key once, and its numbers are 64-bit integers or doubles (`Json.held`). All values that
the nodes make are such values, since every step that they make them with keeps to it
(`held_insertMember` and the lemmas behind it). One that is UTF-8 throughout can also be
printed, and is read back from its text (`JsonLaws`).
-/

namespace DecentralizedCloud

open Utf8

namespace Json

/-! ## Values of the library -/

/-- A signed or unsigned integer of 64 bits. -/
def isInteger (q : Rat) : Bool := q.den = 1 ∧ -2 ^ 63 ≤ q.num ∧ q.num < 2 ^ 64

/-- A finite double: a multiple of the least one, with at most 53 bits that count. -/
def isDouble (q : Rat) : Bool :=
  let scaled := q.num.natAbs * (2 ^ 1074 / q.den)
  q.den ∣ 2 ^ 1074 ∧ 2 ^ (scaled.log2 - 52) ∣ scaled ∧ scaled < 2 ^ (1074 + 1024)

mutual

/-- The library has the value. -/
def held : Json → Bool
  | .null | .bool _ | .str _ => true
  | .num q => isInteger q || isDouble q
  | .arr elems => heldElems elems
  | .obj members => heldMembers members

def heldElems : List Json → Bool
  | [] => true
  | x :: xs => held x && heldElems xs

def heldMembers : List (String × Json) → Bool
  | [] => true
  | (key, value) :: members =>
      held value && members.all (fun member => key < member.1) && heldMembers members

end

theorem held_arr {elems : List Json} :
    (Json.arr elems).held = true ↔ ∀ x ∈ elems, x.held = true := by
  rw [held]
  induction elems with
  | nil => simp [heldElems]
  | cons x xs ih => rw [heldElems, Bool.and_eq_true, ih, List.forall_mem_cons]

theorem held_obj {members : List (String × Json)} :
    (Json.obj members).held = true ↔
      members.Pairwise (·.1 < ·.1) ∧ ∀ member ∈ members, member.2.held = true := by
  rw [held]
  induction members with
  | nil => simp [heldMembers]
  | cons member members ih =>
      rcases member with ⟨key, value⟩
      simp only [heldMembers, Bool.and_eq_true, List.all_eq_true, decide_eq_true_eq,
        ih, List.pairwise_cons, List.forall_mem_cons]
      tauto

theorem mem_insertMember {key : String} {value : Json} {members : List (String × Json)}
    {member : String × Json} (h : member ∈ insertMember key value members) :
    member = (key, value) ∨ member ∈ members := by
  induction members with
  | nil => exact .inl (List.mem_singleton.mp h)
  | cons kv members ih =>
      rcases kv with ⟨k, v⟩
      unfold insertMember at h
      split at h
      · exact List.mem_cons.mp h
      · split at h
        · exact (List.mem_cons.mp h).imp_right (List.mem_cons_of_mem _)
        · rcases List.mem_cons.mp h with rfl | hrest
          · exact .inr List.mem_cons_self
          · exact (ih hrest).imp_right (List.mem_cons_of_mem _)

/-- The member comes to the place of its key. -/
theorem pairwise_insertMember {members : List (String × Json)}
    (h : members.Pairwise (·.1 < ·.1)) (key : String) (value : Json) :
    (insertMember key value members).Pairwise (·.1 < ·.1) := by
  induction members with
  | nil => exact List.pairwise_singleton ..
  | cons kv members ih =>
      rcases kv with ⟨k, v⟩
      rcases List.pairwise_cons.mp h with ⟨hbehind, hmembers⟩
      unfold insertMember
      split
      case isTrue hlt =>
          refine List.pairwise_cons.mpr ⟨?_, h⟩
          rintro member (_ | ⟨_, hmem⟩)
          · exact hlt
          · exact hlt.trans (hbehind member hmem)
      case isFalse hge =>
          split
          -- the old value is replaced
          case isTrue heq =>
              subst heq
              exact List.pairwise_cons.mpr ⟨hbehind, hmembers⟩
          -- the member goes further behind
          case isFalse hne =>
              refine List.pairwise_cons.mpr ⟨?_, ih hmembers⟩
              intro member hmem
              rcases mem_insertMember hmem with rfl | hold
              · exact lt_of_le_of_ne (not_lt.mp hge) (Ne.symm hne)
              · exact hbehind member hold

theorem held_insertMember {members : List (String × Json)} {key : String} {value : Json}
    (h : (Json.obj members).held = true) (hvalue : value.held = true) :
    (Json.obj (insertMember key value members)).held = true := by
  rcases held_obj.mp h with ⟨hordered, hvalues⟩
  refine held_obj.mpr ⟨pairwise_insertMember hordered key value, ?_⟩
  intro member hmem
  rcases mem_insertMember hmem with rfl | hold
  · exact hvalue
  · exact hvalues member hold

/-! ## Well-formed values -/

/-- A value of the library that can be printed. -/
structure WellFormed (j : Json) : Prop where
  held : j.held = true
  prints : j.prints = true

theorem wellFormed_null : WellFormed .null := ⟨rfl, rfl⟩

theorem wellFormed_str {s : String} (h : isUtf8 s = true) : WellFormed (.str s) := ⟨rfl, h⟩

theorem wellFormed_arr {elems : List Json} :
    WellFormed (.arr elems) ↔ ∀ x ∈ elems, x.WellFormed := by
  have hprints : (Json.arr elems).prints = true ↔ ∀ x ∈ elems, x.prints = true := by
    rw [prints, printsElems_eq_all, List.all_eq_true]
  constructor
  · intro h x hx
    exact ⟨held_arr.mp h.held x hx, hprints.mp h.prints x hx⟩
  · intro h
    exact ⟨held_arr.mpr fun x hx => (h x hx).held, hprints.mpr fun x hx => (h x hx).prints⟩

theorem wellFormed_obj {members : List (String × Json)} :
    WellFormed (.obj members) ↔ members.Pairwise (·.1 < ·.1) ∧
      ∀ member ∈ members, isUtf8 member.1 = true ∧ member.2.WellFormed := by
  have hprints : (Json.obj members).prints = true ↔
      ∀ member ∈ members, isUtf8 member.1 = true ∧ member.2.prints = true := by
    rw [prints, printsMembers_eq_all, List.all_eq_true]
    simp only [Bool.and_eq_true]
  constructor
  · intro h
    rcases held_obj.mp h.held with ⟨hordered, hvalues⟩
    refine ⟨hordered, fun member hmem => ?_⟩
    rcases hprints.mp h.prints member hmem with ⟨hkey, hvalue⟩
    exact ⟨hkey, hvalues member hmem, hvalue⟩
  · rintro ⟨hordered, hmembers⟩
    refine ⟨held_obj.mpr ⟨hordered, fun member hmem => (hmembers member hmem).2.held⟩, ?_⟩
    exact hprints.mpr fun member hmem => ⟨(hmembers member hmem).1, (hmembers member hmem).2.prints⟩

theorem WellFormed.insertMember {members : List (String × Json)} {key : String} {value : Json}
    (h : WellFormed (.obj members)) (hkey : isUtf8 key = true) (hvalue : value.WellFormed) :
    WellFormed (.obj (insertMember key value members)) := by
  rcases wellFormed_obj.mp h with ⟨hordered, hmembers⟩
  refine wellFormed_obj.mpr ⟨pairwise_insertMember hordered key value, ?_⟩
  intro member hmem
  rcases mem_insertMember hmem with rfl | hold
  · exact ⟨hkey, hvalue⟩
  · exact hmembers member hold

theorem WellFormed.get? {j value : Json} {key : String} (h : j.WellFormed)
    (hget : j.get? key = some value) : value.WellFormed := by
  cases j with
  | obj members =>
      rcases List.lookup_eq_some_iff.mp hget with ⟨before, behind, rfl, -⟩
      exact ((wellFormed_obj.mp h).2 (key, value) (by simp)).2
  | null | bool b | num q | str s | arr elems => cases hget

theorem WellFormed.setMember {j j' value : Json} {key : String} (h : j.WellFormed)
    (hkey : isUtf8 key = true) (hvalue : value.WellFormed)
    (hset : j.setMember key value = some j') : j'.WellFormed := by
  cases j with
  | obj members =>
      cases hset
      exact h.insertMember hkey hvalue
  | null =>
      cases hset
      exact wellFormed_obj.mpr ⟨List.pairwise_singleton .., by simp [hkey, hvalue]⟩
  | bool b | num q | str s | arr elems => cases hset

/-- An integer of 8 bits. -/
theorem wellFormed_num_toInt (n : Int8) : WellFormed (.num n.toInt) := by
  have hle := n.le_toInt
  have hlt := n.toInt_lt
  have hinteger : isInteger n.toInt = true := by
    simp only [isInteger, Rat.den_intCast, Rat.num_intCast, decide_eq_true_eq, true_and]
    omega
  exact ⟨by rw [Json.held, hinteger, Bool.true_or], rfl⟩

end Json

/-! ## Laws -/

/-- What is relied on: every text is read as a well-formed value, and such a value is read
back from its text, which is UTF-8. -/
structure JsonLaws (parse : String → Option Json) (dump : Json → String) : Prop where
  wellFormed : ∀ {text j}, parse text = some j → j.WellFormed
  parse_dump : ∀ {j : Json}, j.WellFormed → parse (dump j) = some j
  isUtf8_dump : ∀ {j : Json}, j.WellFormed → isUtf8 (dump j) = true

structure JsonLibrary where
  parse : String → Option Json
  dump : Json → String
  laws : JsonLaws parse dump

end DecentralizedCloud
