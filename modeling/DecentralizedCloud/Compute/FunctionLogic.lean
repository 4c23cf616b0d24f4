import DecentralizedCloud.Common.JsonText

/-!
# Where the declarations of the arguments go

`parseScript` declares the arguments of a call at the start of the function's body. It takes for
the start the first brace behind the first closing parenthesis. The parenthesis need not be the
one of the parameter list: a default value that is a call closes one before, and where an object
literal follows, its brace is taken for the body (`injectsIntoBody_iff`).
-/

namespace DecentralizedCloud.Compute

/-! ## The source -/

/-- A text whose parentheses and braces are closed in order. -/
inductive Balanced : List Char → Prop
  | nil : Balanced []
  | plain {c : Char} {cs : List Char} : c ∉ ['(', ')', '{', '}'] → Balanced cs → Balanced (c :: cs)
  | parens {xs ys : List Char} : Balanced xs → Balanced ys → Balanced ('(' :: xs ++ ')' :: ys)
  | braces {xs ys : List Char} : Balanced xs → Balanced ys → Balanced ('{' :: xs ++ '}' :: ys)

/-- `function name(params) { body }` -/
structure FunctionSource where
  name : List Char
  params : List Char
  gap : List Char
  body : List Char
  name_plain : ∀ c ∈ name, c ∉ ['(', ')', '{', '}']
  params_balanced : Balanced params
  gap_blank : ∀ c ∈ gap, isspace c

namespace FunctionSource

def keyword : List Char := ['f', 'u', 'n', 'c', 't', 'i', 'o', 'n', ' ']

/-- All in front of the brace that opens the body. -/
def header (f : FunctionSource) : List Char :=
  keyword ++ f.name ++ '(' :: f.params ++ ')' :: f.gap

def text (f : FunctionSource) : String := String.ofList (f.header ++ '{' :: f.body ++ ['}'])

end FunctionSource

/-! ## The two functions -/

/-- The loop over the characters; `none` if it ends, and then nothing is returned. -/
def scanLogicStart (closeParanSymFound : Bool) (i : Nat) : List Char → Option Nat
  | [] => none
  | c :: cs =>
      if c = ')' then scanLogicStart true (i + 1) cs
      else if c = '{' then
        if closeParanSymFound then some i else scanLogicStart closeParanSymFound (i + 1) cs
      else scanLogicStart closeParanSymFound (i + 1) cs

/-- The counter is an `int`: behind the last one, counting on is undefined. -/
def functionLogicStartIndex (script : String) : Option Nat :=
  (scanLogicStart false 0 script.toList).filter (· < 2 ^ 31)

variable (L : JsonLibrary)

/-- Only members have keys; what has no elements is not walked through. -/
def declarations : Json → Option String
  | .obj members => some (members.foldl
      (fun statement member => statement ++ " var " ++ member.1 ++ " = " ++ L.dump member.2 ++ ";")
      "")
  | .null | .arr [] => some ""
  | .bool _ | .num _ | .str _ | .arr (_ :: _) => none

/-- `insert` behind the brace; `none` for an exception, and for an index that is undefined. -/
def parseScript (script input : String) : Option String := do
  let js ← L.parse input
  let statement ← declarations L js
  let index ← functionLogicStartIndex script
  if index + 1 < 2 ^ 31 then
    some (String.ofList (script.toList.take (index + 1) ++ statement.toList ++
      script.toList.drop (index + 1)))
  else none

/-- The index is the one of the body's brace, and the declarations come right behind it. -/
structure InjectsIntoBody (f : FunctionSource) : Prop where
  index : functionLogicStartIndex f.text = some f.header.length
  injection : ∀ input, parseScript L f.text input =
    ((L.parse input).bind (declarations L)).map fun statement =>
      String.ofList (f.header ++ '{' :: statement.toList ++ f.body ++ ['}'])

/-! ## The scan -/

/-- A brace comes somewhere behind a closing parenthesis. -/
def BraceBehindParen (cs : List Char) : Prop := ∃ xs ys, cs = xs ++ ')' :: ys ∧ '{' ∈ ys

theorem braceBehindParen_cons {c : Char} {cs : List Char} :
    BraceBehindParen (c :: cs) ↔ (c = ')' ∧ '{' ∈ cs) ∨ BraceBehindParen cs := by
  constructor
  · rintro ⟨xs, ys, heq, hbrace⟩
    cases xs with
    | nil =>
        cases heq
        exact .inl ⟨rfl, hbrace⟩
    | cons x xs =>
        cases heq
        exact .inr ⟨xs, ys, rfl, hbrace⟩
  · rintro (⟨rfl, hbrace⟩ | ⟨xs, ys, rfl, hbrace⟩)
    · exact ⟨[], cs, rfl, hbrace⟩
    · exact ⟨c :: xs, ys, rfl, hbrace⟩

theorem braceBehindParen_append {xs ys : List Char} :
    BraceBehindParen (xs ++ ys) ↔
      BraceBehindParen xs ∨ BraceBehindParen ys ∨ (')' ∈ xs ∧ '{' ∈ ys) := by
  induction xs with
  | nil =>
      have hnil : ¬BraceBehindParen [] := by
        rintro ⟨xs, ys, heq, -⟩
        simp at heq
      simp [hnil]
  | cons c xs ih =>
      rw [List.cons_append, braceBehindParen_cons, braceBehindParen_cons, ih, List.mem_append,
        List.mem_cons]
      tauto

/-- Over a text without a brace behind a parenthesis, the scan only counts. -/
theorem scanLogicStart_append {xs : List Char} (h : ¬BraceBehindParen xs) {found : Bool}
    (hfound : found = true → '{' ∉ xs) (i : Nat) (rest : List Char) :
    scanLogicStart found i (xs ++ rest) =
      scanLogicStart (found || decide (')' ∈ xs)) (i + xs.length) rest := by
  induction xs generalizing found i with
  | nil => simp
  | cons c xs ih =>
      rw [braceBehindParen_cons, not_or] at h
      have hlength : i + (c :: xs).length = i + 1 + xs.length := by
        rw [List.length_cons]
        omega
      rw [List.cons_append, scanLogicStart, hlength]
      by_cases hparen : c = ')'
      · subst hparen
        have hbrace : '{' ∉ xs := fun hmem => h.1 ⟨rfl, hmem⟩
        rw [if_pos rfl, ih h.2 fun _ => hbrace]
        simp
      · have hmem : decide (')' ∈ c :: xs) = decide (')' ∈ xs) := by
          simp [Ne.symm hparen]
        have hstep : (found = true → '{' ∉ xs) → ∀ i, scanLogicStart found i (xs ++ rest) =
            scanLogicStart (found || decide (')' ∈ xs)) (i + xs.length) rest := ih h.2
        rw [if_neg hparen, hmem]
        by_cases hbrace : c = '{'
        · -- no parenthesis has been closed so far
          have hopen : found ≠ true := fun htrue => hfound htrue (hbrace ▸ List.mem_cons_self)
          rw [if_pos hbrace, if_neg hopen]
          exact hstep (fun htrue => absurd htrue hopen) (i + 1)
        · rw [if_neg hbrace]
          exact hstep (fun htrue hin => hfound htrue (List.mem_cons_of_mem _ hin)) (i + 1)

/-- Otherwise it ends within the text. -/
theorem scanLogicStart_found {xs : List Char} {found : Bool}
    (h : BraceBehindParen xs ∨ (found = true ∧ '{' ∈ xs)) (i : Nat) (rest : List Char) :
    ∃ j < i + xs.length, scanLogicStart found i (xs ++ rest) = some j := by
  induction xs generalizing found i with
  | nil =>
      rcases h with ⟨xs, ys, heq, -⟩ | ⟨-, hmem⟩
      · simp at heq
      · cases hmem
  | cons c xs ih =>
      have hlength : i + (c :: xs).length = i + 1 + xs.length := by
        rw [List.length_cons]
        omega
      rw [braceBehindParen_cons, List.mem_cons] at h
      rw [List.cons_append, scanLogicStart, hlength]
      by_cases hparen : c = ')'
      · rw [if_pos hparen]
        apply ih
        -- the brace is behind this parenthesis or further on
        rcases h with (⟨-, hmem⟩ | hbehind) | ⟨-, hmem⟩
        · exact .inr ⟨rfl, hmem⟩
        · exact .inl hbehind
        · exact .inr ⟨rfl, hmem.resolve_left fun heq => by simp [← heq] at hparen⟩
      · rw [if_neg hparen]
        -- a brace ends the scan when a parenthesis was closed before it
        by_cases hbrace : c = '{'
        · rw [if_pos hbrace]
          split
          case isTrue => exact ⟨i, by omega, rfl⟩
          case isFalse hopen =>
              apply ih
              rcases h with (⟨heq, -⟩ | hbehind) | ⟨htrue, -⟩
              · exact absurd heq hparen
              · exact .inl hbehind
              · exact absurd htrue hopen
        · rw [if_neg hbrace]
          apply ih
          rcases h with (⟨heq, -⟩ | hbehind) | ⟨htrue, hmem⟩
          · exact absurd heq hparen
          · exact .inl hbehind
          · exact .inr ⟨htrue, hmem.resolve_left (Ne.symm hbrace)⟩

/-! ## Sources of functions -/

theorem not_braceBehindParen_of_notMem {cs : List Char} (h : '{' ∉ cs ∨ ')' ∉ cs) :
    ¬BraceBehindParen cs := by
  rintro ⟨xs, ys, rfl, hbrace⟩
  simp [hbrace] at h

namespace FunctionSource

variable (f : FunctionSource)

theorem braceBehindParen_header : BraceBehindParen f.header ↔ BraceBehindParen f.params := by
  have hname : ')' ∉ f.name := fun hmem => f.name_plain ')' hmem (by decide)
  have hfront : ')' ∉ keyword ++ f.name := by
    rw [List.mem_append, not_or]
    exact ⟨by decide, hname⟩
  have hgap : '{' ∉ f.gap := by
    intro hmem
    have hblank := f.gap_blank '{' hmem
    revert hblank
    decide
  have hbehind : '{' ∉ ')' :: f.gap := by simpa using hgap
  rw [header, braceBehindParen_append, braceBehindParen_append, braceBehindParen_cons]
  simp only [not_braceBehindParen_of_notMem (.inr hfront),
    not_braceBehindParen_of_notMem (.inl hbehind), hfront, hbehind, and_false, false_and, or_false,
    false_or]
  exact or_iff_right fun h => absurd h.1 (by decide)

theorem mem_header : ')' ∈ f.header := by simp [header]

theorem toList_text : f.text.toList = f.header ++ '{' :: (f.body ++ ['}']) := by
  rw [text, String.toList_ofList, List.append_assoc, List.cons_append]

theorem scanLogicStart_text (h : ¬BraceBehindParen f.params) :
    scanLogicStart false 0 f.text.toList = some f.header.length := by
  have hheader := mt f.braceBehindParen_header.mp h
  have hopen : false = true → '{' ∉ f.header := fun h => absurd h Bool.false_ne_true
  rw [toList_text, scanLogicStart_append hheader hopen, decide_eq_true f.mem_header,
    Bool.or_true, Nat.zero_add]
  rfl

/-- The brace that is found is one of a default value. -/
theorem scanLogicStart_text_lt (h : BraceBehindParen f.params) :
    ∃ j < f.header.length, scanLogicStart false 0 f.text.toList = some j := by
  have hheader := f.braceBehindParen_header.mpr h
  rw [toList_text]
  rcases scanLogicStart_found (.inl hheader) 0 ('{' :: (f.body ++ ['}'])) with ⟨j, hlt, hscan⟩
  rw [Nat.zero_add] at hlt
  exact ⟨j, hlt, hscan⟩

end FunctionSource

variable {L : JsonLibrary} {f : FunctionSource}

theorem functionLogicStartIndex_eq {script : String} {i : Nat} :
    functionLogicStartIndex script = some i ↔
      scanLogicStart false 0 script.toList = some i ∧ i < 2 ^ 31 := by
  rw [functionLogicStartIndex, Option.filter_eq_some_iff, decide_eq_true_eq]

theorem InjectsIntoBody.not_braceBehindParen (h : InjectsIntoBody L f) :
    ¬BraceBehindParen f.params := by
  intro hbehind
  rcases f.scanLogicStart_text_lt hbehind with ⟨j, hlt, hscan⟩
  rw [(functionLogicStartIndex_eq.mp h.index).1] at hscan
  cases hscan
  exact lt_irrefl _ hlt

/-- What is inserted at the index of the body's brace. -/
theorem parseScript_of_index (hindex : functionLogicStartIndex f.text = some f.header.length)
    (input : String) :
    parseScript L f.text input = ((L.parse input).bind (declarations L)).bind fun statement =>
      if f.header.length + 1 < 2 ^ 31 then
        some (String.ofList (f.header ++ '{' :: statement.toList ++ f.body ++ ['}']))
      else none := by
  have hsplit : f.text.toList = (f.header ++ ['{']) ++ (f.body ++ ['}']) := by
    rw [f.toList_text, List.append_assoc, List.singleton_append]
  have hlength : f.header.length + 1 = (f.header ++ ['{']).length := by simp
  have htake : f.text.toList.take (f.header.length + 1) = f.header ++ ['{'] := by
    rw [hsplit, hlength, List.take_left]
  have hdrop : f.text.toList.drop (f.header.length + 1) = f.body ++ ['}'] := by
    rw [hsplit, hlength, List.drop_left]
  rw [parseScript, hindex]
  cases L.parse input with
  | none => rfl
  | some js =>
      cases hdeclarations : declarations L js with
      | none => simp [hdeclarations]
      | some statement => simp [hdeclarations, htake, hdrop, String.append_assoc]

/-- The declarations come to the start of the body if and only if no brace comes behind a
parenthesis within the parameters, and the indices can be counted. -/
theorem injectsIntoBody_iff :
    InjectsIntoBody L f ↔ ¬BraceBehindParen f.params ∧ f.header.length + 1 < 2 ^ 31 := by
  constructor
  · intro h
    refine ⟨h.not_braceBehindParen, ?_⟩
    have hinjection := h.injection (L.dump (.obj []))
    have hempty : Json.WellFormed (.obj []) := ⟨rfl, rfl⟩
    rw [parseScript_of_index h.index, L.laws.parse_dump hempty, Option.bind_some, declarations,
      Option.bind_some, Option.map_some] at hinjection
    by_contra hlength
    rw [if_neg hlength] at hinjection
    cases hinjection
  · rintro ⟨hbehind, hlength⟩
    have hindex : functionLogicStartIndex f.text = some f.header.length :=
      functionLogicStartIndex_eq.mpr ⟨f.scanLogicStart_text hbehind, by omega⟩
    refine ⟨hindex, ?_⟩
    intro input
    simp only [parseScript_of_index hindex, if_pos hlength, Option.map_eq_bind]
    rfl

namespace Sample

/-- `function f(a=g(),b={}) {}` -/
def callThenObject : FunctionSource where
  name := ['f']
  params := ['a', '=', 'g', '(', ')', ',', 'b', '=', '{', '}']
  gap := [' ']
  body := []
  name_plain := by decide
  params_balanced := by
    refine .plain (by decide) (.plain (by decide) (.plain (by decide) (.parens .nil ?_)))
    exact .plain (by decide) (.plain (by decide) (.plain (by decide) (.braces .nil .nil)))
  gap_blank := by decide

end Sample

/-- The object literal behind the call is taken for the body. -/
theorem object_literal_taken : ¬InjectsIntoBody Json.library Sample.callThenObject := by
  intro h
  apply h.not_braceBehindParen
  exact ⟨['a', '=', 'g', '('], [',', 'b', '=', '{', '}'], rfl, by decide⟩

end DecentralizedCloud.Compute
