import DecentralizedCloud.Storage.Query
import Mathlib.Logic.Relation

/-!
# The text of a filter

A filter comes as an infix text. `getPostfixedExpressionOf` brings it into postfix
order with a stack of operators (the shunting yard), and `getExpressionTreeFrom`
builds the tree from that with a stack of trees.

`Renders` says what the texts of a tree are: at every level of precedence, with
parentheses where they are needed and wherever else one likes. The operators that
are pending while a text is read are those on the right spine of the tree built so
far. So what has been put out, followed by what is pending, is the postfix order
of the tree (`reads_renders`), and it becomes this tree (`filter_tree`).
-/

namespace DecentralizedCloud.Storage

/-! ## Infix to postfix -/

inductive Fault where
  /-- `at` behind the end of a text -/
  | outOfRange
  /-- `top` or `pop` of an empty stack, which is undefined -/
  | emptyStack
deriving DecidableEq, Repr

def isspace (c : Char) : Bool :=
  c = ' ' || c = '\t' || c = '\n' || c = '\x0b' || c = '\x0c' || c = '\r'

/-- `precedence[a][b]`: `a` has higher precedence than `b`. Looking up a pair that is
missing enters it with `false`, as which it reads anyway. -/
def precedence (a b : String) : Bool :=
  let comparison := [("&", true), ("|", true)]
  let table := [("=", comparison), ("<", comparison), (">", comparison), ("<=", comparison),
    (">=", comparison), ("<>", comparison), ("&", [("|", true)]), ("|", [])]
  ((table.lookup a).bind fun row => row.lookup b).getD false

/-- The text from the current index on, the output and the operators, the top first. -/
structure Shunting where
  rest : List Char
  output : List String
  operators : List String
deriving DecidableEq, Repr

/-- The operators that go out before `op` is pushed. -/
def popOperators (op : String) : List String → List String → List String × List String
  | output, [] => (output, [])
  | output, topOperator :: operators =>
      if precedence op topOperator then (output, topOperator :: operators)
      -- a left parenthesis waits for its right one
      else if topOperator = "(" then (output, topOperator :: operators)
      else popOperators op (output ++ [topOperator]) operators

/-- The operators that go out up to the left parenthesis. -/
def popParenthesis : List String → List String → Except Fault (List String × List String)
  | _, [] => .error .emptyStack
  | output, topOperator :: operators =>
      if topOperator = "(" then .ok (output, operators)
      else popParenthesis (output ++ [topOperator]) operators

/-- An operator that starts with `c`, and the text behind it; other characters are none. -/
def readOperator (c : Char) (rest : List Char) : Except Fault (List Char × List Char) :=
  if c = '<' then
    match rest with
    | [] => .error .outOfRange
    | c' :: rest' => .ok (if c' = '=' ∨ c' = '>' then ([c, c'], rest') else ([c], rest))
  else if c = '>' then
    match rest with
    | [] => .error .outOfRange
    | c' :: rest' => .ok (if c' = '=' then ([c, c'], rest') else ([c], rest))
  else if c = '=' ∨ c = '&' ∨ c = '|' then .ok ([c], rest)
  else .ok ([], rest)

/-- One turn of the loop, for the character `c` in front of the rest. -/
def turn (c : Char) (s : Shunting) : Except Fault Shunting :=
  if isspace c then .ok s
  else if c = '"' then
    match s.rest.dropWhile (· ≠ '"') with
    | [] => .error .outOfRange
    | quote :: rest =>
        let operand := String.ofList (c :: s.rest.takeWhile (· ≠ '"') ++ [quote])
        .ok { s with rest, output := s.output ++ [operand] }
  else if c.isDigit then
    let operand := String.ofList (c :: s.rest.takeWhile Char.isDigit)
    .ok { s with rest := s.rest.dropWhile Char.isDigit, output := s.output ++ [operand] }
  else if c = '(' then .ok { s with operators := "(" :: s.operators }
  else if c = ')' then do
    let (output, operators) ← popParenthesis s.output s.operators
    return { s with output, operators }
  else do
    let (op, rest) ← readOperator c s.rest
    if op = [] then return { s with rest }
    else
      let op := String.ofList op
      let (output, operators) := popOperators op s.output s.operators
      return { rest, output, operators := op :: operators }

/-- Every turn takes a character at least, so as many turns as there are characters do. -/
def turns : Nat → Shunting → Except Fault Shunting
  | 0, s => .ok s
  | n + 1, s =>
      match s.rest with
      | [] => .ok s
      | c :: rest => do turns n (← turn c { s with rest })

def getPostfixedExpressionOf (expr : String) : Except Fault (List String) := do
  let s ← turns expr.length { rest := expr.toList, output := [], operators := [] }
  return s.output ++ s.operators

/-! ## Postfix to a tree -/

/-- `element.substr(1, n - 2)` -/
def operandOf (element : List Char) : String :=
  String.ofList ((element.drop 1).take (element.length - 2))

/-- The stack of trees after some elements. -/
def pushElements : List String → List TreeNode → Except Fault (List TreeNode)
  | [], treePtrs => .ok treePtrs
  | element :: elements, treePtrs =>
      match element.toList with
      | [] => .error .outOfRange
      | c :: cs =>
          if c = '"' ∨ c.isDigit then
            pushElements elements (.leaf (operandOf (c :: cs)) :: treePtrs)
          else
            match treePtrs with
            | right :: left :: treePtrs =>
                pushElements elements (.node element left right :: treePtrs)
            | _ => .error .emptyStack

def getExpressionTreeFrom (elements : List String) : Except Fault TreeNode := do
  match ← pushElements elements [] with
  | rootNode :: _ => return rootNode
  | [] => .error .emptyStack

/-! ## Texts of a tree -/

def operatorSymbols : List String := ["=", "<>", "<", "<=", ">", ">=", "&", "|"]

/-- Comparisons bind more tightly than `&`, and `&` more tightly than `|`. -/
def level (op : String) : Nat := if op = "|" then 1 else if op = "&" then 2 else 3

/-- The leaf as it stands in a text. -/
def quoted (root : String) : List Char := '"' :: root.toList ++ ['"']

def Blank (cs : List Char) : Prop := ∀ c ∈ cs, isspace c

/-- A text of the tree that needs no parentheses at the levels up to `p`: operators of one
level group to the left, and quotes and parentheses stand at level 4. -/
inductive Renders : Nat → TreeNode → List Char → Prop where
  | leaf {root : String} (hroot : '"' ∉ root.toList) : Renders 4 (.leaf root) (quoted root)
  | paren {p : Nat} {tree : TreeNode} {before text behind : List Char} (h : Renders p tree text)
      (hbefore : Blank before) (hbehind : Blank behind) :
      Renders 4 tree ('(' :: before ++ text ++ behind ++ [')'])
  | binary {op : String} {p q : Nat} {left right : TreeNode}
      {text before behind text' : List Char} (hop : op ∈ operatorSymbols)
      (hleft : Renders p left text) (hp : level op ≤ p) (hbefore : Blank before)
      (hbehind : Blank behind) (hright : Renders q right text') (hq : level op < q) :
      Renders (level op) (.node op left right) (text ++ before ++ op.toList ++ behind ++ text')

instance (cs : List Char) : Decidable (Blank cs) :=
  inferInstanceAs (Decidable (∀ c ∈ cs, isspace c = true))

/-- Leaves without quotes, and operators at the nodes. -/
def WellFormed : TreeNode → Prop
  | .leaf root => '"' ∉ root.toList
  | .node op left right => op ∈ operatorSymbols ∧ WellFormed left ∧ WellFormed right

def TreeNode.level : TreeNode → Nat
  | .leaf _ => 4
  | .node op _ _ => Storage.level op

/-- The text of a tree with the parentheses that are needed and no white space. -/
def render : TreeNode → List Char
  | .leaf root => quoted root
  | .node op left right =>
      (if level op ≤ left.level then render left else '(' :: render left ++ [')']) ++ op.toList ++
        (if level op < right.level then render right else '(' :: render right ++ [')'])

/-- Every tree of the kind has a text. -/
theorem renders_render {tree : TreeNode} (h : WellFormed tree) :
    Renders tree.level tree (render tree) := by
  induction tree with
  | leaf root => exact .leaf h
  | node op left right ihl ihr =>
      rcases h with ⟨hop, hleft, hright⟩
      have hlevel : level op ≤ 3 := by
        unfold level
        split
        · omega
        · split <;> omega
      have hblank : Blank [] := nofun
      -- a side that binds less gets parentheses
      have hparen : ∀ {tree : TreeNode}, Renders tree.level tree (render tree) →
          Renders 4 tree ('(' :: render tree ++ [')']) := by
        intro tree htree
        simpa using Renders.paren htree hblank hblank
      obtain ⟨p, hp, hl⟩ : ∃ p, level op ≤ p ∧ Renders p left
          (if level op ≤ left.level then render left else '(' :: render left ++ [')']) := by
        split
        case isTrue h => exact ⟨_, h, ihl hleft⟩
        case isFalse => exact ⟨4, by omega, hparen (ihl hleft)⟩
      -- the right side has to bind more, as the operators associate to the left
      obtain ⟨q, hq, hr⟩ : ∃ q, level op < q ∧ Renders q right
          (if level op < right.level then render right else '(' :: render right ++ [')']) := by
        split
        case isTrue h => exact ⟨_, h, ihr hright⟩
        case isFalse => exact ⟨4, by omega, hparen (ihr hright)⟩
      have htext := Renders.binary hop hl hp hblank hblank hr hq
      rw [List.append_nil, List.append_nil] at htext
      exact htext

/-- The elements of a tree in postfix order. -/
def elementsOf : TreeNode → List String
  | .leaf root => [String.ofList (quoted root)]
  | .node op left right => elementsOf left ++ elementsOf right ++ [op]

/-! ## Single turns -/

def Turns (s s' : Shunting) : Prop :=
  ∃ c rest, s.rest = c :: rest ∧ turn c { s with rest } = .ok s'

abbrev Reads : Shunting → Shunting → Prop := Relation.ReflTransGen Turns

theorem Turns.of_turn {c : Char} {rest : List Char} {output operators : List String}
    {s : Shunting} (h : turn c { rest, output, operators } = .ok s) :
    Reads { rest := c :: rest, output, operators } s :=
  .single ⟨c, rest, rfl, h⟩

theorem reads_blank {cs : List Char} (h : Blank cs) (rest : List Char)
    (output operators : List String) :
    Reads { rest := cs ++ rest, output, operators } { rest, output, operators } := by
  induction cs with
  | nil => exact .refl
  | cons c cs ih =>
      have hc : turn c { rest := cs ++ rest, output, operators } =
          .ok { rest := cs ++ rest, output, operators } := if_pos (h c List.mem_cons_self)
      exact (Turns.of_turn hc).trans (ih fun c' hc' => h c' (List.mem_cons_of_mem c hc'))

/-- A text in quotes is read as one operand. -/
theorem reads_quoted {root : String} (hroot : '"' ∉ root.toList) (rest : List Char)
    (output operators : List String) :
    Reads { rest := quoted root ++ rest, output, operators }
      { rest, output := output ++ [String.ofList (quoted root)], operators } := by
  have hall : ∀ c ∈ root.toList, decide (c ≠ '"') = true := by
    intro c hc
    apply decide_eq_true
    rintro rfl
    exact hroot hc
  -- the text up to the quote, and what is behind it
  have htake : (root.toList ++ '"' :: rest).takeWhile (· ≠ '"') = root.toList := by
    rw [List.takeWhile_append_of_pos hall]
    simp
  have hdrop : (root.toList ++ '"' :: rest).dropWhile (· ≠ '"') = '"' :: rest := by
    rw [List.dropWhile_append_of_pos hall]
    simp
  have hturn : turn '"' { rest := root.toList ++ '"' :: rest, output, operators } =
      .ok { rest, output := output ++ [String.ofList (quoted root)], operators } := by
    have hspace : ¬isspace '"' = true := by decide
    rw [turn, if_neg hspace, if_pos rfl]
    simp only [htake, hdrop]
    rfl
  have hquoted : quoted root ++ rest = '"' :: (root.toList ++ '"' :: rest) := by
    simp [quoted]
  rw [hquoted]
  exact Turns.of_turn hturn

theorem reads_open (rest : List Char) (output operators : List String) :
    Reads { rest := '(' :: rest, output, operators }
      { rest, output, operators := "(" :: operators } :=
  Turns.of_turn rfl

/-! ## Pending operators -/

/-- Operators of a level from `p` on. -/
def Pending (p : Nat) (operators : List String) : Prop :=
  ∀ op ∈ operators, op ∈ operatorSymbols ∧ p ≤ level op

/-- The top of the stack stays where it is when an operator of a level from `p` on comes. -/
def Waits (p : Nat) (operators : List String) : Prop :=
  ∀ topOperator ∈ operators.head?,
    topOperator = "(" ∨ (topOperator ∈ operatorSymbols ∧ level topOperator < p)

theorem Waits.mono {p q : Nat} {operators : List String} (h : Waits p operators) (hle : p ≤ q) :
    Waits q operators := by
  intro topOperator htop
  rcases h topOperator htop with hparen | ⟨hop, hlt⟩
  · exact .inl hparen
  · exact .inr ⟨hop, hlt.trans_le hle⟩

theorem precedence_eq : ∀ op ∈ operatorSymbols, ∀ op' ∈ operatorSymbols,
    precedence op op' = decide (level op' < level op) := by
  decide

theorem precedence_paren : ∀ op ∈ operatorSymbols, precedence op "(" = false := by decide

theorem ne_paren : ∀ op ∈ operatorSymbols, op ≠ "(" := by decide

/-- What is pending goes out, and what waits below stays. -/
theorem popOperators_append {op : String} (hop : op ∈ operatorSymbols) {pending : List String}
    (hpending : Pending (level op) pending) {operators : List String}
    (hwaits : Waits (level op) operators) (output : List String) :
    popOperators op output (pending ++ operators) = (output ++ pending, operators) := by
  induction pending generalizing output with
  | nil =>
      cases operators with
      | nil => simp [popOperators]
      | cons topOperator operators =>
          rw [List.nil_append, List.append_nil, popOperators]
          rcases hwaits topOperator rfl with rfl | ⟨htop, hlt⟩
          · rw [precedence_paren op hop]
            rfl
          · rw [precedence_eq op hop topOperator htop, if_pos (decide_eq_true hlt)]
  | cons topOperator pending ih =>
      rcases hpending topOperator List.mem_cons_self with ⟨htop, hle⟩
      have hlow : ¬precedence op topOperator = true := by
        rw [precedence_eq op hop topOperator htop, decide_eq_true_eq]
        exact Nat.not_lt.mpr hle
      rw [List.cons_append, popOperators, if_neg hlow, if_neg (ne_paren topOperator htop),
        ih fun o ho => hpending o (List.mem_cons_of_mem _ ho), List.append_assoc]
      rfl

theorem popParenthesis_append {p : Nat} {pending : List String} (hpending : Pending p pending)
    (output operators : List String) :
    popParenthesis output (pending ++ "(" :: operators) = .ok (output ++ pending, operators) := by
  induction pending generalizing output with
  | nil => simp [popParenthesis]
  | cons topOperator pending ih =>
      rcases hpending topOperator List.mem_cons_self with ⟨htop, -⟩
      rw [List.cons_append, popParenthesis, if_neg (ne_paren topOperator htop),
        ih fun o ho => hpending o (List.mem_cons_of_mem _ ho), List.append_assoc]
      rfl

theorem reads_close {p : Nat} {pending : List String} (hpending : Pending p pending)
    (rest : List Char) (output operators : List String) :
    Reads { rest := ')' :: rest, output, operators := pending ++ "(" :: operators }
      { rest, output := output ++ pending, operators } := by
  apply Turns.of_turn
  have hturn : turn ')' { rest, output, operators := pending ++ "(" :: operators } =
      (popParenthesis output (pending ++ "(" :: operators)).map fun popped =>
        { rest, output := popped.1, operators := popped.2 } := rfl
  rw [hturn, popParenthesis_append hpending]
  rfl

theorem toList_operatorSymbols : ∀ op ∈ operatorSymbols, op.toList ∈
    [['='], ['<', '>'], ['<'], ['<', '='], ['>'], ['>', '='], ['&'], ['|']] := by
  decide

/-- The characters of an operator are read as this operator when none that could prolong
it follows. -/
theorem readOperator_toList : ∀ op ∈ operatorSymbols, ∃ c cs, op.toList = c :: cs ∧
    (isspace c = false ∧ c ≠ '"' ∧ c.isDigit = false ∧ c ≠ '(' ∧ c ≠ ')') ∧
    ∀ (next : Char) (rest : List Char), next ≠ '=' → next ≠ '>' →
      readOperator c (cs ++ next :: rest) = .ok (c :: cs, next :: rest) := by
  intro op hop
  have hchars := toList_operatorSymbols op hop
  simp only [List.mem_cons, List.not_mem_nil, or_false] at hchars
  rcases hchars with h | h | h | h | h | h | h | h <;> rw [h] <;>
    refine ⟨_, _, rfl, by decide, ?_⟩ <;> intro next rest heq hgt <;>
      simp [readOperator, heq, hgt]

theorem reads_operator {op : String} (hop : op ∈ operatorSymbols) {pending : List String}
    (hpending : Pending (level op) pending) {operators : List String}
    (hwaits : Waits (level op) operators) {next : Char} (heq : next ≠ '=') (hgt : next ≠ '>')
    (rest : List Char) (output : List String) :
    Reads { rest := op.toList ++ next :: rest, output, operators := pending ++ operators }
      { rest := next :: rest, output := output ++ pending, operators := op :: operators } := by
  rcases readOperator_toList op hop with ⟨c, cs, hcs, ⟨hspace, hquote, hdigit, hopen, hclose⟩, hread⟩
  rw [hcs, List.cons_append]
  apply Turns.of_turn
  unfold turn
  simp only [hspace, hquote, hdigit, hopen, hclose, if_false, Bool.false_eq_true]
  rw [hread next rest heq hgt]
  have hop' : String.ofList (c :: cs) = op := by rw [← hcs, String.ofList_toList]
  have hpop := popOperators_append hop hpending hwaits output
  show Except.ok _ = _
  rw [hop', hpop]

/-! ## Texts of trees -/

theorem renders_head {p : Nat} {tree : TreeNode} {text : List Char} (h : Renders p tree text) :
    ∃ c cs, text = c :: cs ∧ (c = '"' ∨ c = '(') := by
  induction h with
  | leaf hroot => exact ⟨_, _, rfl, .inl rfl⟩
  | paren h hbefore hbehind ih => exact ⟨_, _, rfl, .inr rfl⟩
  | binary hop hleft hp hbefore hbehind hright hq ihl ihr =>
      rcases ihl with ⟨c, cs, rfl, hc⟩
      exact ⟨c, _, rfl, hc⟩

/-- What follows an operator does not prolong it. -/
theorem head_behind {behind text : List Char} (hbehind : Blank behind)
    (htext : ∃ c cs, text = c :: cs ∧ (c = '"' ∨ c = '(')) (rest : List Char) :
    ∃ next rest', behind ++ text ++ rest = next :: rest' ∧ next ≠ '=' ∧ next ≠ '>' := by
  cases behind with
  | nil =>
      rcases htext with ⟨c, cs, rfl, rfl | rfl⟩
      · exact ⟨'"', cs ++ rest, rfl, by decide, by decide⟩
      · exact ⟨'(', cs ++ rest, rfl, by decide, by decide⟩
  | cons c cs =>
      have hc : isspace c := hbehind c List.mem_cons_self
      refine ⟨c, _, rfl, ?_, ?_⟩
      · rintro rfl
        exact absurd hc (by decide)
      · rintro rfl
        exact absurd hc (by decide)

/-- Reading a text of a tree: what has gone out, with what is pending behind it, are the
elements of the tree in postfix order. -/
theorem reads_renders {p : Nat} {tree : TreeNode} {text : List Char} (h : Renders p tree text)
    {operators : List String} (hwaits : Waits p operators) (rest : List Char)
    (output : List String) :
    ∃ out pending, out ++ pending = elementsOf tree ∧ Pending p pending ∧
      Reads { rest := text ++ rest, output, operators }
        { rest, output := output ++ out, operators := pending ++ operators } := by
  induction h generalizing operators rest output with
  | leaf hroot =>
      exact ⟨_, [], List.append_nil _, nofun, reads_quoted hroot rest output operators⟩
  | @paren p tree before text behind h hbefore hbehind ih =>
      -- inside of the parentheses the stack is as good as empty
      have hparen : Waits p ("(" :: operators) := by
        rintro topOperator ⟨⟩
        exact .inl rfl
      rcases ih hparen (behind ++ ')' :: rest) output with ⟨out, pending, helements, hpending, hread⟩
      refine ⟨out ++ pending, [], by rw [List.append_nil, helements], nofun, ?_⟩
      have hopen := reads_open (before ++ (text ++ (behind ++ ')' :: rest))) output operators
      have hblank := reads_blank hbefore (text ++ (behind ++ ')' :: rest)) output
        ("(" :: operators)
      have hblank' := reads_blank hbehind (')' :: rest) (output ++ out)
        (pending ++ "(" :: operators)
      have hclose := reads_close hpending rest (output ++ out) operators
      have hall := (((hopen.trans hblank).trans hread).trans hblank').trans hclose
      simpa using hall
  | @binary op p q left right text before behind text' hop hleft hp hbefore hbehind hright hq
      ihl ihr =>
      -- the left operand, then the operator over what is pending of it
      rcases ihl (hwaits.mono hp) (before ++ (op.toList ++ (behind ++ text' ++ rest))) output with
        ⟨out, pending, helements, hpending, hread⟩
      have hpending' : Pending (level op) pending :=
        fun o ho => ⟨(hpending o ho).1, hp.trans (hpending o ho).2⟩
      rcases head_behind hbehind (renders_head hright) rest with ⟨next, rest', hnext, heq, hgt⟩
      have hoperator := reads_operator hop hpending' hwaits heq hgt rest' (output ++ out)
      rw [← hnext] at hoperator
      -- the right operand on top of the operator
      have hwaits' : Waits q (op :: operators) := by
        rintro topOperator ⟨⟩
        exact .inr ⟨hop, hq⟩
      rcases ihr hwaits' rest (output ++ out ++ pending) with
        ⟨out', pending', helements', hpending'', hread'⟩
      refine ⟨out ++ pending ++ out', pending' ++ [op], ?_, ?_, ?_⟩
      · rw [elementsOf, ← helements, ← helements']
        simp
      · intro o ho
        rcases List.mem_append.mp ho with ho | ho
        · exact ⟨(hpending'' o ho).1, hq.le.trans (hpending'' o ho).2⟩
        · rw [List.mem_singleton.mp ho]
          exact ⟨hop, le_refl _⟩
      · have hblank := reads_blank hbefore (op.toList ++ (behind ++ text' ++ rest)) (output ++ out)
          (pending ++ operators)
        have hblank' := reads_blank hbehind (text' ++ rest) (output ++ out ++ pending)
          (op :: operators)
        rw [← List.append_assoc] at hblank'
        have hall := (((hread.trans hblank).trans hoperator).trans hblank').trans hread'
        simpa using hall

/-! ## The whole text -/

theorem readOperator_length {c : Char} {rest rest' op : List Char}
    (h : readOperator c rest = .ok (op, rest')) : rest'.length ≤ rest.length := by
  unfold readOperator at h
  split at h
  · split at h
    · cases h
    · split at h <;> cases h <;> simp
  · split at h
    · split at h
      · cases h
      · split at h <;> cases h <;> simp
    · split at h <;> cases h <;> exact le_refl _

theorem bind_eq_ok {α β : Type} {call : Except Fault α} {f : α → Except Fault β} {b : β}
    (h : (call >>= f) = .ok b) : ∃ a, call = .ok a ∧ f a = .ok b := by
  cases call with
  | error fault => cases h
  | ok a => exact ⟨a, rfl, h⟩

/-- No turn makes the rest longer. -/
theorem turn_length {c : Char} {s s' : Shunting} (h : turn c s = .ok s') :
    s'.rest.length ≤ s.rest.length := by
  unfold turn at h
  -- a blank, a quote, a digit, a parenthesis, or an operator
  split at h
  · cases h
    exact le_refl _
  · split at h
    · split at h
      · cases h
      · rename_i quote rest hdrop
        cases h
        have hle := (List.dropWhile_sublist (fun c => decide (c ≠ '"')) (l := s.rest)).length_le
        rw [hdrop, List.length_cons] at hle
        exact Nat.le_of_succ_le hle
    · split at h
      · cases h
        exact (List.dropWhile_sublist _).length_le
      · split at h
        · cases h
          exact le_refl _
        · split at h
          · rcases bind_eq_ok h with ⟨popped, -, hs⟩
            cases hs
            exact le_refl _
          · rcases bind_eq_ok h with ⟨⟨op, rest⟩, hread, hs⟩
            have hle := readOperator_length hread
            dsimp only at hs
            split at hs <;> cases hs <;> exact hle

/-- The turns read what there is to read, with fuel for the rest. -/
theorem turns_of_reads {s s' : Shunting} (h : Reads s s') (hend : s'.rest = []) {n : Nat}
    (hn : s.rest.length ≤ n) : turns n s = .ok s' := by
  induction h using Relation.ReflTransGen.head_induction_on generalizing n with
  | refl =>
      cases n with
      | zero => rfl
      | succ n => rw [turns, hend]
  | head hturn _ ih =>
      rcases hturn with ⟨c, rest, hrest, hturn⟩
      have hlength := turn_length hturn
      rw [hrest, List.length_cons] at hn
      cases n with
      | zero => omega
      | succ n =>
          rw [turns, hrest]
          dsimp only
          rw [hturn]
          exact ih (Nat.le_trans hlength (Nat.le_of_succ_le_succ hn))

theorem pushElements_operand {element : String} {c : Char} {cs : List Char}
    (h : element.toList = c :: cs) (hc : c = '"' ∨ c.isDigit) (elements : List String)
    (treePtrs : List TreeNode) :
    pushElements (element :: elements) treePtrs =
      pushElements elements (.leaf (operandOf (c :: cs)) :: treePtrs) := by
  rw [pushElements.eq_def]
  dsimp only
  rw [h]
  exact if_pos hc

theorem pushElements_operator {op : String} (hop : op ∈ operatorSymbols) (elements : List String)
    (left right : TreeNode) (treePtrs : List TreeNode) :
    pushElements (op :: elements) (right :: left :: treePtrs) =
      pushElements elements (.node op left right :: treePtrs) := by
  rcases readOperator_toList op hop with ⟨c, cs, hcs, ⟨-, hquote, hdigit, -⟩, -⟩
  rw [pushElements.eq_def]
  dsimp only
  rw [hcs]
  exact if_neg (not_or.mpr ⟨hquote, by simp [hdigit]⟩)

/-- The elements of a tree in postfix order become this tree on the stack. -/
theorem pushElements_elementsOf {p : Nat} {tree : TreeNode} {text : List Char}
    (h : Renders p tree text) (elements : List String) (treePtrs : List TreeNode) :
    pushElements (elementsOf tree ++ elements) treePtrs =
      pushElements elements (tree :: treePtrs) := by
  induction h generalizing elements treePtrs with
  | @leaf root hroot =>
      have hoperand : operandOf (quoted root) = root := by
        simp [operandOf, quoted]
      have hchars : (String.ofList (quoted root)).toList = '"' :: (root.toList ++ ['"']) :=
        String.toList_ofList
      rw [elementsOf, List.singleton_append, pushElements_operand hchars (.inl rfl)]
      exact congrArg (fun root => pushElements elements (.leaf root :: treePtrs)) hoperand
  | paren h hbefore hbehind ih => exact ih elements treePtrs
  | @binary op p q left right text before behind text' hop hleft hp hbefore hbehind hright hq
      ihl ihr =>
      rw [elementsOf, List.append_assoc, List.append_assoc, ihl, ihr, List.singleton_append,
        pushElements_operator hop]

theorem getPostfixedExpressionOf_of_renders {p : Nat} {tree : TreeNode}
    {before text behind : List Char} (h : Renders p tree text) (hbefore : Blank before)
    (hbehind : Blank behind) :
    getPostfixedExpressionOf (String.ofList (before ++ text ++ behind)) = .ok (elementsOf tree) := by
  have hblank := reads_blank hbefore (text ++ behind) [] []
  have hwaits : Waits p [] := fun topOperator htop => by cases htop
  rcases reads_renders h hwaits behind [] with ⟨out, pending, helements, -, hread⟩
  have hblank' := reads_blank hbehind [] ([] ++ out) (pending ++ [])
  rw [List.append_nil] at hblank'
  have hturns := turns_of_reads ((hblank.trans hread).trans hblank') rfl
    (Nat.le_refl (before ++ (text ++ behind)).length)
  rw [getPostfixedExpressionOf, String.toList_ofList, String.length_ofList, List.append_assoc,
    hturns, ← helements]
  simp

theorem getExpressionTreeFrom_elementsOf {p : Nat} {tree : TreeNode} {text : List Char}
    (h : Renders p tree text) : getExpressionTreeFrom (elementsOf tree) = .ok tree := by
  have hpush := pushElements_elementsOf h [] []
  rw [List.append_nil] at hpush
  rw [getExpressionTreeFrom, hpush]
  rfl

/-- Every infix text of a tree, with white space around it, is brought into postfix order
and comes back as this tree. Neither function meets an empty stack or the end of the text. -/
theorem filter_tree {p : Nat} {tree : TreeNode} {before text behind : List Char}
    (h : Renders p tree text) (hbefore : Blank before) (hbehind : Blank behind) :
    ∃ elements, getPostfixedExpressionOf (String.ofList (before ++ text ++ behind)) = .ok elements ∧
      getExpressionTreeFrom elements = .ok tree :=
  ⟨elementsOf tree, getPostfixedExpressionOf_of_renders h hbefore hbehind,
    getExpressionTreeFrom_elementsOf h⟩

namespace Sample

def filter : TreeNode :=
  .node "&" (.node "=" (.leaf "a") (.leaf "b"))
    (.node "|" (.node "<=" (.leaf "c") (.leaf "d")) (.node ">" (.leaf "e") (.leaf "f")))

end Sample

/-- A text with parentheses that it needs, and with white space around it. -/
theorem filter_tree_parenthesized :
    ∃ elements, getPostfixedExpressionOf
        " \"a\"=\"b\"&(\"c\"<=\"d\"|\"e\">\"f\")\n" = .ok elements ∧
      getExpressionTreeFrom elements = .ok Sample.filter := by
  have hwell : WellFormed Sample.filter := by
    simp [WellFormed, Sample.filter, operatorSymbols]
  have htext : String.ofList ([' '] ++ render Sample.filter ++ ['\n']) =
      " \"a\"=\"b\"&(\"c\"<=\"d\"|\"e\">\"f\")\n" := by
    decide +kernel
  have hspace : Blank [' '] := by simp [Blank, isspace]
  have hnewline : Blank ['\n'] := by simp [Blank, isspace]
  rw [← htext]
  exact filter_tree (renders_render hwell) hspace hnewline

end DecentralizedCloud.Storage
