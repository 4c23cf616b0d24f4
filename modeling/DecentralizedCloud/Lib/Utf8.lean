/-!
# UTF-8

The machine that checks a text byte by byte for being UTF-8: between two code
points it waits for a first byte, and inside of one for the bytes that may still
follow. A text is a string with one character for each byte.
-/

namespace Utf8

/-- Where the machine stands between two bytes. -/
inductive State where
  /-- between two code points -/
  | accept
  | reject
  /-- one, two or three more bytes of the code point are to come -/
  | one
  | two
  | three
  /-- after a first byte that narrows the second one down -/
  | afterE0
  | afterED
  | afterF0
  | afterF4
deriving DecidableEq, Repr

/-- The next state, when the byte is between the bounds. -/
def State.within (low high : Nat) (next : State) (byte : Nat) : State :=
  if low ≤ byte ∧ byte ≤ high then next else .reject

/-- One byte. -/
def State.decode : State → Nat → State
  | .accept, byte =>
      if byte < 0x80 then .accept
      else if byte < 0xC2 then .reject
      else if byte < 0xE0 then .one
      else if byte = 0xE0 then .afterE0
      else if byte = 0xED then .afterED
      else if byte < 0xF0 then .two
      else if byte = 0xF0 then .afterF0
      else if byte < 0xF4 then .three
      else if byte = 0xF4 then .afterF4
      else .reject
  | .reject, _ => .reject
  | .one, byte => State.within 0x80 0xBF .accept byte
  | .two, byte => State.within 0x80 0xBF .one byte
  | .three, byte => State.within 0x80 0xBF .two byte
  -- no second byte may make the code too short, a surrogate, or too large
  | .afterE0, byte => State.within 0xA0 0xBF .one byte
  | .afterED, byte => State.within 0x80 0x9F .one byte
  | .afterF0, byte => State.within 0x90 0xBF .two byte
  | .afterF4, byte => State.within 0x80 0x8F .two byte

/-- Byte after byte. -/
def State.run (state : State) (chars : List Char) : State :=
  chars.foldl (fun state ch => state.decode ch.toNat) state

/-- The machine reads the text and ends between two code points. -/
def isUtf8 (text : String) : Bool := State.accept.run text.toList = .accept

namespace State

@[simp] theorem run_nil (state : State) : state.run [] = state := rfl

@[simp] theorem run_cons (state : State) (ch : Char) (chars : List Char) :
    state.run (ch :: chars) = (state.decode ch.toNat).run chars := rfl

theorem run_append (state : State) (chars chars' : List Char) :
    state.run (chars ++ chars') = (state.run chars).run chars' := List.foldl_append

@[simp] theorem run_reject (chars : List Char) : State.reject.run chars = .reject := by
  induction chars with
  | nil => rfl
  | cons ch chars ih => rw [run_cons, decode, ih]

@[simp] theorem decode_accept {byte : Nat} (h : byte < 0x80) :
    State.accept.decode byte = .accept := if_pos h

/-- No code point goes on with an ASCII character. -/
theorem decode_eq_reject {state : State} (hstate : state ≠ .accept) {byte : Nat}
    (h : byte < 0x80) : state.decode byte = .reject := by
  cases state with
  | accept => exact absurd rfl hstate
  | reject => rfl
  | one | two | three | afterE0 | afterED | afterF0 | afterF4 =>
      apply if_neg
      omega

/-- A text of ASCII characters stays between code points. -/
theorem run_of_ascii {chars : List Char} (h : ∀ ch ∈ chars, ch.toNat < 0x80) :
    State.accept.run chars = .accept := by
  induction chars with
  | nil => rfl
  | cons ch chars ih =>
      rw [run_cons, decode_accept (h ch List.mem_cons_self)]
      exact ih fun c hc => h c (List.mem_cons_of_mem ch hc)

end State

theorem isUtf8_iff {text : String} :
    isUtf8 text = true ↔ State.accept.run text.toList = .accept := decide_eq_true_iff

theorem isUtf8_empty : isUtf8 "" = true := rfl

theorem isUtf8_of_ascii {text : String} (h : ∀ ch ∈ text.toList, ch.toNat < 0x80) :
    isUtf8 text = true := isUtf8_iff.mpr (State.run_of_ascii h)

example : isUtf8 "f\u00c3\u00bcr" = true := by decide

/-- The three bytes that a surrogate would have. -/
example : isUtf8 "\u00ed\u00a0\u0080" = false := by decide

end Utf8
