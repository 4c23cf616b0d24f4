import DecentralizedCloud.Storage.Filter
import Mathlib.Data.List.Infix

/-!
# The tokens of a filter

A turn of the loop in `getPostfixedExpressionOf` takes one token from the text, or one character
that is none, and does something with the two stacks that depends on the token only (`turn_eq`).
So the loop comes to a fold over the tokens of the text (`getPostfixedExpressionOf_eq`), unless
the text breaks off.
-/

namespace DecentralizedCloud.Storage

inductive FilterToken where
  /-- the characters between the quotes -/
  | quoted (text : {cs : List Char // '"' ∉ cs})
  | number (digits : {cs : List Char // cs ≠ [] ∧ ∀ c ∈ cs, c.isDigit = true})
  | operator (op : {op : String // op ∈ operatorSymbols})
  | opening
  | closing
  /-- a character that belongs to no token -/
  | stray (c : Char)
deriving DecidableEq

theorem notMem_takeWhile_quote (cs : List Char) : '"' ∉ cs.takeWhile (· ≠ '"') := by
  intro hmem
  simpa using List.mem_takeWhile_imp hmem

theorem digits_takeWhile {c : Char} (h : c.isDigit = true) (cs : List Char) :
    c :: cs.takeWhile Char.isDigit ≠ [] ∧
      ∀ c' ∈ c :: cs.takeWhile Char.isDigit, c'.isDigit = true := by
  refine ⟨List.cons_ne_nil _ _, ?_⟩
  intro c' hc'
  rcases List.mem_cons.mp hc' with rfl | hc'
  · exact h
  · exact List.mem_takeWhile_imp hc'

/-- The token at the front of a text, none for white space, and what is behind it; `none` where
the text breaks off, in a quoted string or right behind `<` or `>`. -/
def nextToken (c : Char) (rest : List Char) : Option (Option FilterToken × List Char) :=
  if isspace c then some (none, rest)
  else if c = '"' then
    match rest.dropWhile (· ≠ '"') with
    | [] => none
    | _ :: behind => some (some (.quoted ⟨_, notMem_takeWhile_quote rest⟩), behind)
  else if h : c.isDigit = true then
    some (some (.number ⟨_, digits_takeWhile h rest⟩), rest.dropWhile Char.isDigit)
  else if c = '(' then some (some .opening, rest)
  else if c = ')' then some (some .closing, rest)
  else
    match readOperator c rest with
    | .error _ => none
    | .ok (op, behind) =>
        if h : String.ofList op ∈ operatorSymbols then some (some (.operator ⟨_, h⟩), behind)
        else some (some (.stray c), behind)

/-- The tokens of a text up to where it breaks off, if it does. -/
@[ext]
structure Scan where
  tokens : List FilterToken
  brokenOff : Bool
deriving DecidableEq

def scan : Nat → List Char → Scan
  | 0, _ | _ + 1, [] => { tokens := [], brokenOff := false }
  | n + 1, c :: rest =>
      match nextToken c rest with
      | none => { tokens := [], brokenOff := true }
      | some (token, behind) =>
          let s := scan n behind
          { s with tokens := token.toList ++ s.tokens }

/-- Every token takes a character at least. -/
def scanOf (expr : String) : Scan := scan expr.length expr.toList

/-- What the loop puts out for an operand. -/
def FilterToken.element : FilterToken → Option String
  | quoted text => some (String.ofList ('"' :: text.val ++ ['"']))
  | number digits => some (String.ofList digits.val)
  | operator _ | opening | closing | stray _ => none

/-- What the loop does with its output and its operators when a token comes. -/
def feed (s : List String × List String) (token : FilterToken) :
    Except Fault (List String × List String) :=
  match token with
  | .quoted _ | .number _ | .stray _ => .ok (s.1 ++ token.element.toList, s.2)
  | .operator op =>
      let (output, operators) := popOperators op.val s.1 s.2
      .ok (output, op.val :: operators)
  | .opening => .ok (s.1, "(" :: s.2)
  | .closing => popParenthesis s.1 s.2

/-! ## The loop as a fold over the tokens -/

/-- The text breaks off, or the character is no token, or an operator is read. -/
theorem readOperator_cases (c : Char) (rest : List Char) :
    readOperator c rest = .error .outOfRange ∨ readOperator c rest = .ok ([], rest) ∨
      ∃ op behind, readOperator c rest = .ok (op, behind) ∧ op ≠ [] ∧
        String.ofList op ∈ operatorSymbols := by
  have hread : ∀ op behind, op ≠ [] → String.ofList op ∈ operatorSymbols →
      ∃ op' behind', (Except.ok (op, behind) : Except Fault (List Char × List Char)) =
        .ok (op', behind') ∧ op' ≠ [] ∧ String.ofList op' ∈ operatorSymbols :=
    fun op behind hne hmem => ⟨op, behind, rfl, hne, hmem⟩
  unfold readOperator
  split
  case isTrue hlt =>
      -- `<`, which may go on with `=` or `>`
      subst hlt
      split
      · exact .inl rfl
      · refine .inr (.inr ?_)
        split
        case isTrue hnext =>
            rcases hnext with rfl | rfl
            · exact hread ['<', '='] _ (by decide) (by decide)
            · exact hread ['<', '>'] _ (by decide) (by decide)
        case isFalse => exact hread ['<'] _ (by decide) (by decide)
  case isFalse =>
      split
      case isTrue hgt =>
          -- `>`, which may go on with `=`
          subst hgt
          split
          · exact .inl rfl
          · refine .inr (.inr ?_)
            split
            case isTrue hnext =>
                subst hnext
                exact hread ['>', '='] _ (by decide) (by decide)
            case isFalse => exact hread ['>'] _ (by decide) (by decide)
      case isFalse =>
          split
          case isTrue hsingle =>
              refine .inr (.inr (hread [c] rest (List.cons_ne_nil _ _) ?_))
              rcases hsingle with rfl | rfl | rfl <;> decide
          case isFalse => exact .inr (.inl rfl)

theorem quote_of_dropWhile {rest behind : List Char} {quote : Char}
    (h : rest.dropWhile (· ≠ '"') = quote :: behind) : quote = '"' := by
  have hne : rest.dropWhile (· ≠ '"') ≠ [] := by
    rw [h]
    exact List.cons_ne_nil _ _
  have hend := List.head_dropWhile_not _ hne
  simpa only [h, List.head_cons, decide_eq_false_iff_not, not_not] using hend

/-- A turn of the loop, in two steps. -/
theorem turn_eq (c : Char) (rest : List Char) (output operators : List String) :
    turn c { rest, output, operators } =
      match nextToken c rest with
      | none => .error .outOfRange
      | some (token, behind) =>
          (token.toList.foldlM feed (output, operators)).map fun s =>
            { rest := behind, output := s.1, operators := s.2 } := by
  unfold turn nextToken
  by_cases hspace : isspace c = true
  · rw [if_pos hspace, if_pos hspace]
    rfl
  · rw [if_neg hspace, if_neg hspace]
    -- an operand in quotes, which the text may break off
    by_cases hquote : c = '"'
    · rw [if_pos hquote, if_pos hquote]
      dsimp only
      cases hdrop : rest.dropWhile (· ≠ '"') with
      | nil => rfl
      | cons quote behind =>
          rw [hquote, quote_of_dropWhile hdrop]
          rfl
    · rw [if_neg hquote, if_neg hquote]
      -- a bare number
      by_cases hdigit : c.isDigit = true
      · rw [if_pos hdigit, dif_pos hdigit]
        rfl
      · rw [if_neg hdigit, dif_neg hdigit]
        -- the parentheses
        by_cases hopen : c = '('
        · rw [if_pos hopen, if_pos hopen]
          rfl
        · rw [if_neg hopen, if_neg hopen]
          by_cases hclose : c = ')'
          · rw [if_pos hclose, if_pos hclose]
            simp only [Option.toList_some, List.foldlM_cons, List.foldlM_nil, feed]
            cases popParenthesis output operators <;> rfl
          · rw [if_neg hclose, if_neg hclose]
            -- an operator, or a character that is none
            rcases readOperator_cases c rest with hread | hread | ⟨op, behind, hread, hop, hmem⟩
            · rw [hread]
              rfl
            · have hnone : ¬String.ofList [] ∈ operatorSymbols := by decide
              rw [hread]
              dsimp only
              rw [dif_neg hnone]
              simp only [Option.toList_some, List.foldlM_cons, List.foldlM_nil, feed,
                FilterToken.element, Option.toList_none, List.append_nil]
              rfl
            · rw [hread]
              dsimp only
              rw [dif_pos hmem]
              show (if op = [] then _ else _ : Except Fault Shunting) = _
              rw [if_neg hop]
              rfl

/-- Behind a token the text is not longer. -/
theorem nextToken_length {c : Char} {rest behind : List Char} {token : Option FilterToken}
    (h : nextToken c rest = some (token, behind)) : behind.length ≤ rest.length := by
  unfold nextToken at h
  -- the branches are those of `turn`
  split at h
  · cases h
    exact le_refl _
  · split at h
    · split at h
      · cases h
      · rename_i quote behind' hdrop
        cases h
        have hle := (List.dropWhile_sublist (fun c => decide (c ≠ '"')) (l := rest)).length_le
        rw [hdrop, List.length_cons] at hle
        exact Nat.le_of_succ_le hle
    · split at h
      · cases h
        exact (List.dropWhile_sublist _).length_le
      · split at h
        · cases h
          exact le_refl _
        · split at h
          · cases h
            exact le_refl _
          · split at h
            · cases h
            · rename_i op behind' hread
              have hle := readOperator_length hread
              split at h <;> cases h <;> exact hle

/-- The loop feeds the tokens one by one; a text that breaks off comes to that afterwards. -/
theorem turns_eq {n : Nat} {rest : List Char} (hn : rest.length ≤ n)
    (output operators : List String) :
    turns n { rest, output, operators } =
      (scan n rest).tokens.foldlM feed (output, operators) >>= fun s =>
        if (scan n rest).brokenOff then .error .outOfRange
        else .ok { rest := [], output := s.1, operators := s.2 } := by
  induction n generalizing rest output operators with
  | zero =>
      rw [List.eq_nil_of_length_eq_zero (Nat.le_zero.mp hn)]
      rfl
  | succ n ih =>
      cases rest with
      | nil => rfl
      | cons c rest =>
          rw [List.length_cons] at hn
          rw [turns, scan]
          dsimp only
          rw [turn_eq]
          cases hnext : nextToken c rest with
          | none => rfl
          | some next =>
              rcases next with ⟨token, behind⟩
              -- the rest is shorter, so there is fuel enough for it
              have hle := nextToken_length hnext
              dsimp only
              rw [List.foldlM_append]
              cases htoken : token.toList.foldlM feed (output, operators) with
              | error fault => rfl
              | ok s => exact ih (by omega) s.1 s.2

/-- The output and the operators behind it, when the tokens have been fed. -/
theorem getPostfixedExpressionOf_eq (expr : String) :
    getPostfixedExpressionOf expr =
      (scanOf expr).tokens.foldlM feed ([], []) >>= fun s =>
        if (scanOf expr).brokenOff then .error .outOfRange else .ok (s.1 ++ s.2) := by
  have hlength : expr.toList.length ≤ expr.length := (String.length_toList).le
  rw [getPostfixedExpressionOf, turns_eq hlength, scanOf]
  cases (scan expr.length expr.toList).tokens.foldlM feed ([], []) with
  | error fault => rfl
  | ok s => cases (scan expr.length expr.toList).brokenOff <;> rfl

/-! ## Parentheses -/

@[simp] theorem count_popOperators (op : String) (output operators : List String) :
    (popOperators op output operators).2.count "(" = operators.count "(" := by
  induction operators generalizing output with
  | nil => rfl
  | cons topOperator operators ih =>
      rw [popOperators]
      split
      · rfl
      · split
        case isTrue => rfl
        case isFalse htop => rw [ih, List.count_cons_of_ne htop]

theorem popParenthesis_error {output operators : List String} {fault : Fault}
    (h : popParenthesis output operators = .error fault) :
    fault = .emptyStack ∧ operators.count "(" = 0 := by
  induction operators generalizing output with
  | nil =>
      cases h
      exact ⟨rfl, rfl⟩
  | cons topOperator operators ih =>
      rw [popParenthesis] at h
      split at h
      case isTrue => cases h
      case isFalse htop =>
          rw [List.count_cons_of_ne htop]
          exact ih h

theorem popParenthesis_count {output operators : List String} {popped : List String × List String}
    (h : popParenthesis output operators = .ok popped) :
    operators.count "(" = popped.2.count "(" + 1 := by
  induction operators generalizing output with
  | nil => cases h
  | cons topOperator operators ih =>
      rw [popParenthesis] at h
      split at h
      case isTrue htop =>
          cases h
          rw [htop, List.count_cons_self]
      case isFalse htop =>
          rw [List.count_cons_of_ne htop]
          exact ih h

/-- Only a right parenthesis that lacks its left one meets an empty stack. -/
theorem feed_error {s : List String × List String} {token : FilterToken} {fault : Fault}
    (h : feed s token = .error fault) :
    fault = .emptyStack ∧ token = .closing ∧ s.2.count "(" = 0 := by
  cases token with
  | closing =>
      rcases popParenthesis_error h with ⟨hfault, hcount⟩
      exact ⟨hfault, rfl, hcount⟩
  | quoted | number | operator | opening | stray => cases h

/-- The left parentheses on the stack are those that are open. -/
theorem feed_count {s s' : List String × List String} {token : FilterToken}
    (h : feed s token = .ok s') :
    s'.2.count "(" + [token].count .closing = s.2.count "(" + [token].count .opening := by
  cases token with
  | closing =>
      rw [popParenthesis_count h]
      rfl
  | operator op =>
      cases h
      have hne := ne_paren op.val op.property
      simp [List.count_cons_of_ne hne]
  | opening =>
      cases h
      simp
  | quoted | number | stray =>
      cases h
      rfl

theorem fold_error {tokens : List FilterToken} {s : List String × List String} {fault : Fault}
    (h : tokens.foldlM feed s = .error fault) : fault = .emptyStack := by
  induction tokens generalizing s with
  | nil => cases h
  | cons token tokens ih =>
      rw [List.foldlM_cons] at h
      cases hfeed : feed s token with
      | error fault' =>
          rw [hfeed] at h
          cases h
          exact (feed_error hfeed).1
      | ok s₁ =>
          rw [hfeed] at h
          exact ih h

/-- Every right parenthesis has its left one before it, `depth` of which are given. -/
def Closes (depth : Nat) (tokens : List FilterToken) : Prop :=
  ∀ before, before <+: tokens → before.count .closing ≤ depth + before.count .opening

instance (depth : Nat) (tokens : List FilterToken) : Decidable (Closes depth tokens) :=
  decidable_of_iff (∀ before ∈ tokens.inits, before.count .closing ≤ depth + before.count .opening)
    (forall_congr' fun before => imp_congr_left (List.mem_inits before tokens))

theorem closes_cons {depth depth' : Nat} {token : FilterToken} {tokens : List FilterToken}
    (h : depth' + [token].count .closing = depth + [token].count .opening) :
    Closes depth (token :: tokens) ↔ Closes depth' tokens := by
  constructor
  · intro hcloses before hbefore
    have hle := hcloses (token :: before) ((List.prefix_cons_inj token).mpr hbefore)
    rw [← List.singleton_append, List.count_append, List.count_append] at hle
    omega
  · intro hcloses before hbefore
    cases before with
    | nil => exact Nat.zero_le _
    | cons token' before =>
        rcases List.cons_prefix_cons.mp hbefore with ⟨rfl, hprefix⟩
        have hle := hcloses before hprefix
        rw [← List.singleton_append, List.count_append, List.count_append]
        omega

/-- The tokens can be fed exactly when no right parenthesis lacks its left one. -/
theorem fold_ok_iff (tokens : List FilterToken) (s : List String × List String) :
    (∃ s', tokens.foldlM feed s = .ok s') ↔ Closes (s.2.count "(") tokens := by
  induction tokens generalizing s with
  | nil =>
      refine ⟨fun _ before hbefore => ?_, fun _ => ⟨s, rfl⟩⟩
      rw [List.prefix_nil.mp hbefore]
      exact Nat.zero_le _
  | cons token tokens ih =>
      rw [List.foldlM_cons]
      cases hfeed : feed s token with
      | ok s₁ => exact (ih s₁).trans (closes_cons (feed_count hfeed)).symm
      | error fault =>
          rcases feed_error hfeed with ⟨-, rfl, hcount⟩
          constructor
          · rintro ⟨s', hs'⟩
            cases hs'
          · intro hcloses
            have hle := hcloses [.closing] (List.prefix_append [.closing] tokens)
            rw [hcount] at hle
            exact absurd hle (by decide)

/-! ## What goes out -/

theorem popOperators_fst_append (op : String) (output operators : List String) :
    (popOperators op output operators).1 ++ (popOperators op output operators).2 =
      output ++ operators := by
  induction operators generalizing output with
  | nil => rfl
  | cons topOperator operators ih =>
      rw [popOperators]
      split
      · rfl
      · split
        · rfl
        · rw [ih]
          simp

theorem mem_of_popParenthesis {output operators output' operators' : List String}
    (h : popParenthesis output operators = .ok (output', operators')) {element : String}
    (hmem : element ∈ output' ++ operators') : element ∈ output ++ operators := by
  induction operators generalizing output with
  | nil => cases h
  | cons topOperator operators ih =>
      rw [popParenthesis] at h
      split at h
      · cases h
        rcases List.mem_append.mp hmem with hmem | hmem
        · exact List.mem_append_left _ hmem
        · exact List.mem_append_right _ (List.mem_cons_of_mem _ hmem)
      · simpa using ih h

/-- A property of all operators, the left parenthesis and the operands that go out holds of
whatever stands on the stacks. -/
theorem forall_feed {P : String → Prop} (hparen : P "(") (hop : ∀ op ∈ operatorSymbols, P op)
    {token : FilterToken} (htoken : ∀ element ∈ token.element, P element)
    {s s' : List String × List String} (h : feed s token = .ok s')
    (hs : ∀ element ∈ s.1 ++ s.2, P element) : ∀ element ∈ s'.1 ++ s'.2, P element := by
  -- an element that goes to the top or out, with all that was there
  have hpush : ∀ element, P element → ∀ output operators, output ++ operators = s.1 ++ s.2 →
      ∀ e ∈ output ++ element :: operators, P e := by
    intro element helement output operators heq e he
    rcases List.mem_append.mp he with he | he
    · exact hs e (heq ▸ List.mem_append_left _ he)
    · rcases List.mem_cons.mp he with rfl | he
      · exact helement
      · exact hs e (heq ▸ List.mem_append_right _ he)
  cases token with
  | closing => exact fun e he => hs e (mem_of_popParenthesis h he)
  | opening =>
      cases h
      exact hpush "(" hparen s.1 s.2 rfl
  | operator op =>
      cases h
      exact hpush op.val (hop op.val op.property) _ _ (popOperators_fst_append op.val s.1 s.2)
  | quoted | number =>
      cases h
      rw [List.append_assoc]
      exact hpush _ (htoken _ rfl) s.1 s.2 rfl
  | stray =>
      cases h
      rw [FilterToken.element, Option.toList_none, List.append_nil]
      exact hs

theorem forall_fold {P : String → Prop} (hparen : P "(") (hop : ∀ op ∈ operatorSymbols, P op)
    (htoken : ∀ token : FilterToken, ∀ element ∈ token.element, P element)
    {tokens : List FilterToken} {s s' : List String × List String}
    (h : tokens.foldlM feed s = .ok s') (hs : ∀ element ∈ s.1 ++ s.2, P element) :
    ∀ element ∈ s'.1 ++ s'.2, P element := by
  induction tokens generalizing s with
  | nil =>
      cases h
      exact hs
  | cons token tokens ih =>
      rw [List.foldlM_cons] at h
      rcases bind_eq_ok h with ⟨s₁, hfeed, hfold⟩
      exact ih hfold (forall_feed hparen hop (htoken token) hfeed hs)

theorem forall_elements {P : String → Prop} (hparen : P "(")
    (hop : ∀ op ∈ operatorSymbols, P op)
    (htoken : ∀ token : FilterToken, ∀ element ∈ token.element, P element) {expr : String}
    {elements : List String} (h : getPostfixedExpressionOf expr = .ok elements) :
    ∀ element ∈ elements, P element := by
  rw [getPostfixedExpressionOf_eq] at h
  rcases bind_eq_ok h with ⟨s, hfold, hs⟩
  split at hs
  · cases hs
  · cases hs
    exact forall_fold hparen hop htoken hfold (by simp)

theorem getPostfixedExpressionOf_ne_empty {expr : String} {elements : List String}
    (h : getPostfixedExpressionOf expr = .ok elements) :
    ∀ element ∈ elements, element.toList ≠ [] := by
  refine forall_elements (by decide) (by decide) ?_ h
  intro token element helement
  cases token with
  | quoted text =>
      cases helement
      simp
  | number digits =>
      cases helement
      simpa using digits.property.1
  | operator | opening | closing | stray => cases helement

/-! ## Leaves without quotes -/

/-- No leaf has a quote. -/
def Unquoted : TreeNode → Prop
  | .leaf root => '"' ∉ root.toList
  | .node _ left right => Unquoted left ∧ Unquoted right

/-- An element that makes a leaf without quotes. -/
def Clean (element : String) : Prop := '"' ∉ (operandOf element.toList).toList

theorem clean_of_notMem {element : String} (h : '"' ∉ element.toList) : Clean element := by
  intro hmem
  rw [operandOf, String.toList_ofList] at hmem
  exact h (List.mem_of_mem_drop (List.mem_of_mem_take hmem))

/-- What stands between two quotes. -/
theorem clean_operand (quote : Char) {cs : List Char} (h : '"' ∉ cs) :
    Clean (String.ofList ('"' :: cs ++ [quote])) := by
  have hoperand : operandOf ('"' :: cs ++ [quote]) = String.ofList cs := by
    simp [operandOf]
  rw [Clean, String.toList_ofList, hoperand, String.toList_ofList]
  exact h

/-- Every element of the postfixed expression is clean. -/
theorem getPostfixedExpressionOf_clean {expr : String} {elements : List String}
    (h : getPostfixedExpressionOf expr = .ok elements) : ∀ element ∈ elements, Clean element := by
  have hops : ∀ op ∈ operatorSymbols, '"' ∉ op.toList := by decide
  refine forall_elements (clean_of_notMem (by decide)) (fun op hop => clean_of_notMem (hops op hop))
    ?_ h
  intro token element helement
  cases token with
  | quoted text =>
      cases helement
      exact clean_operand '"' text.property
  | number digits =>
      cases helement
      apply clean_of_notMem
      rw [String.toList_ofList]
      intro hmem
      exact absurd (digits.property.2 '"' hmem) (by decide)
  | operator | opening | closing | stray => cases helement

/-- Clean elements make trees without quotes. -/
theorem pushElements_unquoted {elements : List String} {treePtrs treePtrs' : List TreeNode}
    (h : pushElements elements treePtrs = .ok treePtrs')
    (hclean : ∀ element ∈ elements, Clean element) (htrees : ∀ tree ∈ treePtrs, Unquoted tree) :
    ∀ tree ∈ treePtrs', Unquoted tree := by
  induction elements generalizing treePtrs with
  | nil =>
      cases h
      exact htrees
  | cons element elements ih =>
      have hclean' : ∀ e ∈ elements, Clean e := fun e he => hclean e (List.mem_cons_of_mem _ he)
      rw [pushElements.eq_def] at h
      dsimp only at h
      split at h
      · cases h
      · rename_i c cs hchars
        split at h
        · refine ih h hclean' ?_
          intro tree htree
          rcases List.mem_cons.mp htree with rfl | htree
          -- an operand becomes a leaf
          · have helement := hclean element List.mem_cons_self
            rwa [Clean, hchars] at helement
          · exact htrees tree htree
        · split at h
          · refine ih h hclean' ?_
            intro tree htree
            rcases List.mem_cons.mp htree with rfl | htree
            -- an operator takes two trees
            · exact ⟨htrees _ (by simp), htrees _ (by simp)⟩
            · exact htrees tree (by simp [htree])
          · cases h

/-- Whatever the text is, no leaf of its tree has a quote. -/
theorem unquoted_of_expression {expr : String} {elements : List String} {tree : TreeNode}
    (h : getPostfixedExpressionOf expr = .ok elements)
    (htree : getExpressionTreeFrom elements = .ok tree) : Unquoted tree := by
  rcases bind_eq_ok htree with ⟨treePtrs, hpush, hroot⟩
  have hall := pushElements_unquoted hpush (getPostfixedExpressionOf_clean h) (by simp)
  cases treePtrs with
  | nil => cases hroot
  | cons rootNode treePtrs =>
      cases hroot
      exact hall _ List.mem_cons_self

end DecentralizedCloud.Storage
