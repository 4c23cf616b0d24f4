import DecentralizedCloud.Common.Fields
import DecentralizedCloud.Common.JsonLibrary
import Mathlib.Data.Rat.Lemmas

/-!
# The text of a JSON value

`write` prints a value the way `dump` does, with no white space, and `read` reads
it back. A number that is no integer is printed as a fraction, and only quotes and
backslashes are escaped. What is printed is read back (`read_write`), and the models'
laws of the JSON library hold of this pair (`laws`), once values that the library does
not have are refused (`parse`).
-/

namespace DecentralizedCloud

open Utf8

namespace Json

/-! ## Printing -/

/-- The characters of a string, quotes and backslashes escaped, and the closing quote. -/
def writeChars : List Char → List Char
  | [] => ['"']
  | c :: cs => if c = '"' ∨ c = '\\' then '\\' :: c :: writeChars cs else c :: writeChars cs

def writeString (s : String) : List Char := '"' :: writeChars s.toList

def writeInt (z : Int) : List Char :=
  if z < 0 then '-' :: Nat.toDigits 10 z.natAbs else Nat.toDigits 10 z.natAbs

def writeNumber (q : Rat) : List Char :=
  writeInt q.num ++ if q.den = 1 then [] else '/' :: Nat.toDigits 10 q.den

mutual

def writeValue : Json → List Char
  | .null => ['n', 'u', 'l', 'l']
  | .bool true => ['t', 'r', 'u', 'e']
  | .bool false => ['f', 'a', 'l', 's', 'e']
  | .num q => writeNumber q
  | .str s => writeString s
  | .arr [] => ['[', ']']
  | .arr (x :: xs) => '[' :: (writeValue x ++ writeElems xs)
  | .obj [] => ['{', '}']
  | .obj ((key, value) :: members) =>
      '{' :: (writeString key ++ ':' :: (writeValue value ++ writeMembers members))

/-- The elements of an array after the first one. -/
def writeElems : List Json → List Char
  | [] => [']']
  | x :: xs => ',' :: (writeValue x ++ writeElems xs)

/-- The members of an object after the first one. -/
def writeMembers : List (String × Json) → List Char
  | [] => ['}']
  | (key, value) :: members =>
      ',' :: (writeString key ++ ':' :: (writeValue value ++ writeMembers members))

end

def write (j : Json) : String := String.ofList (writeValue j)

/-! ## Reading -/

/-- A string whose opening quote has been read. -/
def readChars : List Char → Option (List Char × List Char)
  | [] => none
  | '"' :: cs => some ([], cs)
  | '\\' :: c :: cs => (readChars cs).map fun (s, rest) => (c :: s, rest)
  | c :: cs => (readChars cs).map fun (s, rest) => (c :: s, rest)

def readString : List Char → Option (String × List Char)
  | '"' :: cs => (readChars cs).map fun (s, rest) => (String.ofList s, rest)
  | _ => none

def readNat (cs : List Char) : Option (Nat × List Char) :=
  let ds := cs.takeWhile Char.isDigit
  if ds = [] then none else some (digitsValue ds, cs.dropWhile Char.isDigit)

def readInt : List Char → Option (Int × List Char)
  | '-' :: cs => (readNat cs).map fun (n, rest) => (-(n : Int), rest)
  | cs => (readNat cs).map fun (n, rest) => ((n : Int), rest)

/-- The denominator, if there is one. -/
def readDenominator (z : Int) : List Char → Option (Rat × List Char)
  | '/' :: cs => (readNat cs).map fun (d, rest) => (mkRat z d, rest)
  | cs => some (mkRat z 1, cs)

def readNumber (cs : List Char) : Option (Rat × List Char) :=
  (readInt cs).bind fun (z, rest) => readDenominator z rest

mutual

/-- A value; the first argument bounds the length of its text. -/
def readValue : Nat → List Char → Option (Json × List Char)
  | 0, _ => none
  | _ + 1, 'n' :: 'u' :: 'l' :: 'l' :: cs => some (.null, cs)
  | _ + 1, 't' :: 'r' :: 'u' :: 'e' :: cs => some (.bool true, cs)
  | _ + 1, 'f' :: 'a' :: 'l' :: 's' :: 'e' :: cs => some (.bool false, cs)
  | _ + 1, '"' :: cs => (readString ('"' :: cs)).map fun (s, rest) => (.str s, rest)
  | _ + 1, '[' :: ']' :: cs => some (.arr [], cs)
  | n + 1, '[' :: cs => do
      let (x, rest) ← readValue n cs
      let (xs, rest) ← readElems n rest
      return (.arr (x :: xs), rest)
  | _ + 1, '{' :: '}' :: cs => some (.obj [], cs)
  | n + 1, '{' :: cs => do
      let (member, rest) ← readMember n cs
      let (members, rest) ← readMembers n rest
      return (.obj (member :: members), rest)
  | _ + 1, cs => (readNumber cs).map fun (q, rest) => (.num q, rest)

def readElems : Nat → List Char → Option (List Json × List Char)
  | _ + 1, ']' :: cs => some ([], cs)
  | n + 1, ',' :: cs => do
      let (x, rest) ← readValue n cs
      let (xs, rest) ← readElems n rest
      return (x :: xs, rest)
  | _, _ => none

def readMember : Nat → List Char → Option ((String × Json) × List Char)
  | 0, _ => none
  | n + 1, cs => do
      let (key, rest) ← readString cs
      match rest with
      | ':' :: rest => (readValue n rest).map fun (value, rest) => ((key, value), rest)
      | _ => none

def readMembers : Nat → List Char → Option (List (String × Json) × List Char)
  | _ + 1, '}' :: cs => some ([], cs)
  | n + 1, ',' :: cs => do
      let (member, rest) ← readMember n cs
      let (members, rest) ← readMembers n rest
      return (member :: members, rest)
  | _, _ => none

end

/-- A text that is the text of a value as a whole. -/
def read (s : String) : Option Json :=
  match readValue s.toList.length s.toList with
  | some (j, []) => some j
  | _ => none

/-! ## What is printed is read back -/

theorem readChars_writeChars (cs rest : List Char) :
    readChars (writeChars cs ++ rest) = some (cs, rest) := by
  induction cs with
  | nil => rfl
  | cons c cs ih =>
      unfold writeChars
      split
      case isTrue =>
          rw [List.cons_append, List.cons_append, readChars, ih, Option.map_some]
      case isFalse h =>
          rw [not_or] at h
          rw [List.cons_append, readChars, ih, Option.map_some]
          · exact h.1
          · intro _ _ hslash _
            exact h.2 hslash

theorem readString_writeString (s : String) (rest : List Char) :
    readString (writeString s ++ rest) = some (s, rest) := by
  rw [writeString, List.cons_append, readString, readChars_writeChars]
  show some (String.ofList s.toList, rest) = _
  rw [String.ofList_toList]

/-- No number goes on at the front of the text. -/
def Ends (rest : List Char) : Prop := ∀ c ∈ rest.head?, c.isDigit = false ∧ c ≠ '/'

theorem readNat_toDigits (n : Nat) {rest : List Char} (h : ∀ c ∈ rest.head?, c.isDigit = false) :
    readNat (Nat.toDigits 10 n ++ rest) = some (n, rest) := by
  have hrest : rest.takeWhile Char.isDigit = [] ∧ rest.dropWhile Char.isDigit = rest := by
    cases rest with
    | nil => exact ⟨rfl, rfl⟩
    | cons c cs =>
        have hc : ¬ c.isDigit = true := by simp [h c rfl]
        exact ⟨List.takeWhile_cons_of_neg hc, List.dropWhile_cons_of_neg hc⟩
  have htake : (Nat.toDigits 10 n ++ rest).takeWhile Char.isDigit = Nat.toDigits 10 n := by
    rw [List.takeWhile_append_of_pos isDigit_toDigits, hrest.1, List.append_nil]
  have hdrop : (Nat.toDigits 10 n ++ rest).dropWhile Char.isDigit = rest := by
    rw [List.dropWhile_append_of_pos isDigit_toDigits, hrest.2]
  unfold readNat
  simp only [htake, hdrop, Nat.toDigits_ne_nil, if_false, digitsValue_toDigits]

/-- An integer is read back, if no digit stands behind it. -/
theorem readInt_writeInt (z : Int) {rest : List Char} (h : ∀ c ∈ rest.head?, c.isDigit = false) :
    readInt (writeInt z ++ rest) = some (z, rest) := by
  unfold writeInt
  split
  case isTrue hz =>
      have hvalue : -(z.natAbs : Int) = z := by omega
      rw [List.cons_append, readInt, readNat_toDigits z.natAbs h]
      show some (-(z.natAbs : Int), rest) = _
      rw [hvalue]
  case isFalse hz =>
      have hvalue : (z.natAbs : Int) = z := by omega
      have hread : readInt (Nat.toDigits 10 z.natAbs ++ rest) =
          (readNat (Nat.toDigits 10 z.natAbs ++ rest)).map fun (n, rest) => ((n : Int), rest) := by
        rw [readInt]
        -- the numeral does not start with a sign
        intro cs hcs
        cases hds : Nat.toDigits 10 z.natAbs with
        | nil => exact Nat.toDigits_ne_nil hds
        | cons c ds =>
            rw [hds, List.cons_append, List.cons.injEq] at hcs
            have hc : c.isDigit = true := isDigit_toDigits c (by rw [hds]; exact List.mem_cons_self)
            rw [hcs.1] at hc
            revert hc
            decide
      rw [hread, readNat_toDigits z.natAbs h]
      show some ((z.natAbs : Int), rest) = _
      rw [hvalue]

/-- A number is read back, if the text behind it ends it. -/
theorem readNumber_writeNumber (q : Rat) {rest : List Char} (h : Ends rest) :
    readNumber (writeNumber q ++ rest) = some (q, rest) := by
  have hdigit : ∀ c ∈ rest.head?, c.isDigit = false := fun c hc => (h c hc).1
  unfold readNumber writeNumber
  by_cases hden : q.den = 1
  case pos =>
      have hread : readDenominator q.num rest = some (mkRat q.num 1, rest) := by
        rw [readDenominator]
        rintro cs rfl
        exact (h '/' rfl).2 rfl
      rw [if_pos hden, List.append_nil, readInt_writeInt q.num hdigit]
      show readDenominator q.num rest = _
      rw [hread, ← hden, Rat.mkRat_self]
  case neg =>
      have hslash : ∀ c ∈ ('/' :: (Nat.toDigits 10 q.den ++ rest)).head?, c.isDigit = false := by
        simp
      have hread : readDenominator q.num ('/' :: (Nat.toDigits 10 q.den ++ rest)) =
          some (mkRat q.num q.den, rest) := by
        rw [readDenominator, readNat_toDigits q.den hdigit]
        rfl
      rw [if_neg hden, List.append_assoc, List.cons_append, readInt_writeInt q.num hslash]
      show readDenominator q.num ('/' :: (Nat.toDigits 10 q.den ++ rest)) = _
      rw [hread, Rat.mkRat_self]

/-- The text of a number begins with a digit or a sign. -/
theorem readValue_number {n : Nat} {c : Char} {cs : List Char}
    (hc : c.isDigit = true ∨ c = '-') :
    readValue (n + 1) (c :: cs) = (readNumber (c :: cs)).map fun (q, rest) => (.num q, rest) := by
  rw [readValue]
  all_goals
    intro _ heq
    rw [List.cons.injEq] at heq
    rw [heq.1] at hc
    revert hc
    decide

theorem writeNumber_cons (q : Rat) :
    ∃ c cs, writeNumber q = c :: cs ∧ (c.isDigit = true ∨ c = '-') := by
  unfold writeNumber writeInt
  split
  · exact ⟨'-', _, rfl, .inr rfl⟩
  · cases hds : Nat.toDigits 10 q.num.natAbs with
    | nil => exact absurd hds Nat.toDigits_ne_nil
    | cons c ds =>
        have hall : ∀ d ∈ Nat.toDigits 10 q.num.natAbs, d.isDigit = true := isDigit_toDigits
        rw [hds] at hall
        exact ⟨c, _, rfl, .inl (hall c List.mem_cons_self)⟩

/-- The text of a value is not empty, and closes no array. -/
theorem writeValue_cons (j : Json) : ∃ c cs, writeValue j = c :: cs ∧ c ≠ ']' := by
  cases j with
  | null => exact ⟨_, _, by rw [writeValue], by decide⟩
  | bool b => cases b <;> exact ⟨_, _, by rw [writeValue], by decide⟩
  | num q =>
      rcases writeNumber_cons q with ⟨c, cs, hcs, hc⟩
      refine ⟨c, cs, by rw [writeValue, hcs], ?_⟩
      rintro rfl
      revert hc
      decide
  | str s => exact ⟨_, _, by rw [writeValue, writeString], by decide⟩
  | arr xs => cases xs <;> exact ⟨_, _, by rw [writeValue], by decide⟩
  | obj members =>
      rcases members with _ | ⟨⟨key, value⟩, members⟩ <;>
        exact ⟨_, _, by rw [writeValue], by decide⟩

theorem ends_writeElems (xs : List Json) (rest : List Char) : Ends (writeElems xs ++ rest) := by
  cases xs <;> simp [Ends, writeElems]

theorem ends_writeMembers (members : List (String × Json)) (rest : List Char) :
    Ends (writeMembers members ++ rest) := by
  rcases members with _ | ⟨⟨key, value⟩, members⟩ <;> simp [Ends, writeMembers]

theorem readMember_writeValue (key : String) {value : Json} {n : Nat} {rest : List Char}
    (h : readValue n (writeValue value ++ rest) = some (value, rest)) :
    readMember (n + 1) (writeString key ++ ':' :: (writeValue value ++ rest)) =
      some ((key, value), rest) := by
  rw [readMember, readString_writeString, Option.bind_eq_bind, Option.bind_some]
  show (readValue n (writeValue value ++ rest)).map (fun x => ((key, x.1), x.2)) = _
  rw [h, Option.map_some]

mutual

/-- A written value is read back, with enough fuel and before a text that ends it. -/
theorem readValue_writeValue : ∀ (j : Json) (n : Nat) (rest : List Char),
    (writeValue j).length ≤ n → Ends rest → readValue n (writeValue j ++ rest) = some (j, rest)
  | .null, n + 1, rest, _, _ => by simp [writeValue, readValue]
  | .bool true, n + 1, rest, _, _ => by simp [writeValue, readValue]
  | .bool false, n + 1, rest, _, _ => by simp [writeValue, readValue]
  | .str s, n + 1, rest, _, _ => by
      have hread := readString_writeString s rest
      rw [writeString, List.cons_append] at hread
      rw [writeValue, writeString, List.cons_append, readValue, hread]
      rfl
  | .num q, n + 1, rest, _, hrest => by
      rcases writeNumber_cons q with ⟨c, cs, hcs, hc⟩
      have hread := readNumber_writeNumber q hrest
      rw [writeValue, hcs, List.cons_append, readValue_number hc, ← List.cons_append, ← hcs, hread]
      rfl
  | .arr [], n + 1, rest, _, _ => by simp [writeValue, readValue]
  -- the first element, and the rest up to the bracket
  | .arr (x :: xs), n + 1, rest, hn, _ => by
      have hlength : (writeValue x).length + (writeElems xs).length ≤ n := by
        simpa [writeValue] using hn
      have hfirst := readValue_writeValue x n (writeElems xs ++ rest) (by omega)
        (ends_writeElems xs rest)
      have hrest := readElems_writeElems xs n rest (by omega)
      rcases writeValue_cons x with ⟨c, cs, hcs, hc⟩
      rw [writeValue, List.cons_append, List.append_assoc, readValue, hfirst,
        Option.bind_eq_bind, Option.bind_some]
      · show (readElems n (writeElems xs ++ rest)).bind (fun x => _) = _
        rw [hrest]
        rfl
      -- no value begins with the bracket that closes an empty array
      · intro cs' heq
        rw [hcs, List.cons_append, List.cons.injEq] at heq
        exact hc heq.1
  | .obj [], n + 1, rest, _, _ => by simp [writeValue, readValue]
  -- a member takes two turns of fuel, and its text is long enough for them
  | .obj ((key, value) :: members), 1, rest, hn, _ => by simp [writeValue, writeString] at hn
  | .obj ((key, value) :: members), n + 2, rest, hn, _ => by
      have hlength : (writeString key).length + (writeValue value).length +
          (writeMembers members).length ≤ n := by
        simp [writeValue] at hn
        omega
      have hfirst := readValue_writeValue value n (writeMembers members ++ rest) (by omega)
        (ends_writeMembers members rest)
      have hrest := readMembers_writeMembers members (n + 1) rest (by omega)
      have hopen : ∀ cs', writeString key ++ ':' :: (writeValue value ++
          (writeMembers members ++ rest)) = '}' :: cs' → False := by
        intro cs' heq
        rw [writeString, List.cons_append, List.cons.injEq] at heq
        exact absurd heq.1 (by decide)
      rw [writeValue, List.cons_append, List.append_assoc, List.cons_append, List.append_assoc,
        readValue, readMember_writeValue key hfirst, Option.bind_eq_bind, Option.bind_some]
      · show (readMembers (n + 1) (writeMembers members ++ rest)).bind (fun x => _) = _
        rw [hrest]
        rfl
      · exact hopen
  -- every text has a character
  | j, 0, rest, hn, _ => by
      rcases writeValue_cons j with ⟨c, cs, hcs, -⟩
      simp [hcs] at hn

theorem readElems_writeElems : ∀ (xs : List Json) (n : Nat) (rest : List Char),
    (writeElems xs).length ≤ n → readElems n (writeElems xs ++ rest) = some (xs, rest)
  | [], n + 1, rest, _ => by simp [writeElems, readElems]
  | x :: xs, n + 1, rest, hn => by
      have hlength : (writeValue x).length + (writeElems xs).length ≤ n := by
        simpa [writeElems] using hn
      have hfirst := readValue_writeValue x n (writeElems xs ++ rest) (by omega)
        (ends_writeElems xs rest)
      have hrest := readElems_writeElems xs n rest (by omega)
      rw [writeElems, List.cons_append, List.append_assoc, readElems, hfirst,
        Option.bind_eq_bind, Option.bind_some]
      show (readElems n (writeElems xs ++ rest)).bind (fun x => _) = _
      rw [hrest]
      rfl
  | [], 0, rest, hn => by simp [writeElems] at hn
  | x :: xs, 0, rest, hn => by simp [writeElems] at hn

/-- The members of an object are read back, with fuel for their text. -/
theorem readMembers_writeMembers : ∀ (members : List (String × Json)) (n : Nat)
    (rest : List Char), (writeMembers members).length ≤ n →
      readMembers n (writeMembers members ++ rest) = some (members, rest)
  | [], n + 1, rest, _ => by simp [writeMembers, readMembers]
  | (key, value) :: members, 1, rest, hn => by simp [writeMembers, writeString] at hn
  | (key, value) :: members, n + 2, rest, hn => by
      have hlength : (writeString key).length + (writeValue value).length +
          (writeMembers members).length ≤ n := by
        simp [writeMembers] at hn
        omega
      have hfirst := readValue_writeValue value n (writeMembers members ++ rest) (by omega)
        (ends_writeMembers members rest)
      have hrest := readMembers_writeMembers members (n + 1) rest (by omega)
      rw [writeMembers, List.cons_append, List.append_assoc, List.cons_append, List.append_assoc,
        readMembers, readMember_writeValue key hfirst, Option.bind_eq_bind, Option.bind_some]
      show (readMembers (n + 1) (writeMembers members ++ rest)).bind (fun x => _) = _
      rw [hrest]
      rfl
  | [], 0, rest, hn => by simp [writeMembers] at hn
  | (key, value) :: members, 0, rest, hn => by simp [writeMembers] at hn

end

/-- What is printed is read back. -/
theorem read_write (j : Json) : read (write j) = some j := by
  have hends : Ends [] := nofun
  have hread := readValue_writeValue j (writeValue j).length [] (Nat.le_refl _) hends
  rw [List.append_nil] at hread
  unfold read write
  rw [String.toList_ofList, hread]

/-! ## The library -/

/-- No character of the text splits a code point. -/
def Whole (chars : List Char) : Prop := State.accept.run chars = .accept

theorem Whole.append {chars chars' : List Char} (h : Whole chars) (h' : Whole chars') :
    Whole (chars ++ chars') := by
  unfold Whole
  rw [State.run_append, h, h']

theorem Whole.cons {chars : List Char} (h : Whole chars) {ch : Char} (hch : ch.toNat < 0x80) :
    Whole (ch :: chars) := by
  unfold Whole
  rw [State.run_cons, State.decode_accept hch, h]

theorem whole_toDigits (n : Nat) : Whole (Nat.toDigits 10 n) := by
  apply State.run_of_ascii
  intro ch hch
  have hdigit : ch.isDigit = true := isDigit_toDigits ch hch
  simp only [Char.isDigit, Bool.and_eq_true, decide_eq_true_eq] at hdigit
  have hle : ch.toNat ≤ 57 := hdigit.2
  omega

theorem whole_writeNumber (q : Rat) : Whole (writeNumber q) := by
  have hint : Whole (writeInt q.num) := by
    unfold writeInt
    split
    · exact (whole_toDigits _).cons (by decide)
    · exact whole_toDigits _
  unfold writeNumber
  split
  · exact hint.append rfl
  · exact hint.append ((whole_toDigits _).cons (by decide))

/-- An escape stands between two code points, as the character behind it does. -/
theorem run_writeChars {state : State} {chars : List Char} (h : state.run chars = .accept) :
    state.run (writeChars chars) = .accept := by
  induction chars generalizing state with
  | nil =>
      cases h
      rfl
  | cons ch chars ih =>
      rw [State.run_cons] at h
      unfold writeChars
      split
      case isTrue hescape =>
          have hch : ch.toNat < 0x80 := by rcases hescape with rfl | rfl <;> decide
          by_cases hstate : state = .accept
          · subst hstate
            have hslash : State.accept.decode '\\'.toNat = .accept := by decide
            rw [State.run_cons, State.run_cons, hslash]
            exact ih h
          · rw [State.decode_eq_reject hstate hch, State.run_reject] at h
            cases h
      case isFalse =>
          rw [State.run_cons]
          exact ih h

theorem whole_writeString {s : String} (h : isUtf8 s = true) : Whole (writeString s) :=
  Whole.cons (run_writeChars (isUtf8_iff.mp h)) (by decide)

mutual

/-- The text of a value that prints has whole characters only. -/
theorem whole_writeValue : ∀ {j : Json}, j.prints = true → Whole (writeValue j)
  | .null, _ => by simp [writeValue, Whole]
  | .bool true, _ => by simp [writeValue, Whole]
  | .bool false, _ => by simp [writeValue, Whole]
  | .num q, _ => by
      rw [writeValue]
      exact whole_writeNumber q
  | .str s, h => by
      rw [writeValue]
      exact whole_writeString h
  | .arr [], _ => by simp [writeValue, Whole]
  | .arr (x :: xs), h => by
      simp only [prints, printsElems, Bool.and_eq_true] at h
      rw [writeValue]
      exact ((whole_writeValue h.1).append (whole_writeElems h.2)).cons (by decide)
  | .obj [], _ => by simp [writeValue, Whole]
  | .obj ((key, value) :: members), h => by
      simp only [prints, printsMembers, Bool.and_eq_true] at h
      rw [writeValue]
      have hvalue := (whole_writeValue h.1.2).append (whole_writeMembers h.2)
      exact ((whole_writeString h.1.1).append (hvalue.cons (by decide))).cons (by decide)

theorem whole_writeElems : ∀ {xs : List Json}, printsElems xs = true → Whole (writeElems xs)
  | [], _ => by simp [writeElems, Whole]
  | x :: xs, h => by
      simp only [printsElems, Bool.and_eq_true] at h
      rw [writeElems]
      exact ((whole_writeValue h.1).append (whole_writeElems h.2)).cons (by decide)

theorem whole_writeMembers : ∀ {members : List (String × Json)}, printsMembers members = true →
    Whole (writeMembers members)
  | [], _ => by simp [writeMembers, Whole]
  | (key, value) :: members, h => by
      simp only [printsMembers, Bool.and_eq_true] at h
      rw [writeMembers]
      have hvalue := (whole_writeValue h.1.2).append (whole_writeMembers h.2)
      exact ((whole_writeString h.1.1).append (hvalue.cons (by decide))).cons (by decide)

end

/-- A text is read if it is that of a well-formed value. -/
def parse (s : String) : Option Json := (read s).filter fun j => j.held && j.prints

theorem parse_eq_some {s : String} {j : Json} :
    parse s = some j ↔ read s = some j ∧ j.WellFormed := by
  rw [parse, Option.filter_eq_some_iff, Bool.and_eq_true]
  exact and_congr_right fun _ => ⟨fun h => ⟨h.1, h.2⟩, fun h => ⟨h.held, h.prints⟩⟩

theorem parse_write {j : Json} (h : j.WellFormed) : parse (write j) = some j :=
  parse_eq_some.mpr ⟨read_write j, h⟩

theorem laws : JsonLaws parse write where
  wellFormed h := (parse_eq_some.mp h).2
  parse_dump := parse_write
  isUtf8_dump h := by
    rw [isUtf8_iff, write, String.toList_ofList]
    exact whole_writeValue h.prints

/-- The pair as a library. -/
def library : JsonLibrary where
  parse := parse
  dump := write
  laws := laws

example : write (.obj [("a\"", .arr [.num (-3 / 2), .null])]) = "\x7b\"a\\\"\":[-3/2,null]\x7d" := by
  decide +kernel

end Json

end DecentralizedCloud
