import DecentralizedCloud.Common.Fields
import DecentralizedCloud.Common.Json
import DecentralizedCloud.Lib.Utf8

/-!
# Printing JSON

`dump` raises on a value with a key or a text that is not UTF-8: the error
handler of the printer is the strict one wherever the nodes print. A text of the
model has one character for each byte.
-/

namespace DecentralizedCloud

open Utf8

namespace Json

mutual

/-- `dump` goes through. -/
def prints : Json → Bool
  | .null | .bool _ | .num _ => true
  | .str s => isUtf8 s
  | .arr elems => printsElems elems
  | .obj members => printsMembers members

def printsElems : List Json → Bool
  | [] => true
  | x :: xs => prints x && printsElems xs

def printsMembers : List (String × Json) → Bool
  | [] => true
  | (key, value) :: members => isUtf8 key && prints value && printsMembers members

end

theorem printsElems_eq_all (elems : List Json) : printsElems elems = elems.all prints := by
  induction elems with
  | nil => rfl
  | cons x xs ih => rw [printsElems, List.all_cons, ih]

theorem printsMembers_eq_all (members : List (String × Json)) :
    printsMembers members = members.all fun member => isUtf8 member.1 && member.2.prints := by
  induction members with
  | nil => rfl
  | cons member members ih =>
      rcases member with ⟨key, value⟩
      rw [printsMembers, List.all_cons, ih]

end Json

/-- A printed number is ASCII. -/
theorem isUtf8_toString (z : Int) : isUtf8 (toString z) = true := by
  apply isUtf8_of_ascii
  intro ch hch
  rcases mem_toString_int hch with hdigit | rfl
  · simp only [Char.isDigit, Bool.and_eq_true, decide_eq_true_eq] at hdigit
    have hle : ch.toNat ≤ 57 := hdigit.2
    omega
  · decide

end DecentralizedCloud
