import DecentralizedCloud.Storage.FilterTokens

/-!
# The grammar of filters, and what becomes of other texts

`Infix` are the tokens of an infix expression, of whatever precedence. While such tokens are fed,
what has gone out makes trees, one more than there are pending operators, and the leaves of these
trees are the operands that have been read (`Grows`). So an expression becomes one tree over all
of its operands (`Infix.tree`).

Nothing holds other texts back. A right parenthesis without its left one, a missing operand and
the empty text reach for the top of an empty stack; and a text with operands side by side, with
a character that belongs to no token or with an open parenthesis can become a tree
(`only_expressions_iff`). The operands of the tree have lost their first and last character,
which are the quotes of a quoted operand and digits of a number (`operands_kept_iff`).
-/

namespace DecentralizedCloud.Storage

/-- What `searchDocument` makes of a text before it looks at the documents. -/
def treeOfText (expr : String) : Except Fault TreeNode :=
  getPostfixedExpressionOf expr >>= getExpressionTreeFrom

/-- The tokens of an expression. -/
inductive Infix : List FilterToken → Prop where
  | quoted (text : {cs : List Char // '"' ∉ cs}) : Infix [.quoted text]
  | number (digits : {cs : List Char // cs ≠ [] ∧ ∀ c ∈ cs, c.isDigit = true}) :
      Infix [.number digits]
  | paren {tokens : List FilterToken} (h : Infix tokens) : Infix (.opening :: tokens ++ [.closing])
  | binary {tokens tokens' : List FilterToken} (op : {op : String // op ∈ operatorSymbols})
      (h : Infix tokens) (h' : Infix tokens') : Infix (tokens ++ .operator op :: tokens')

/-- An operand as it stands in the text, without its quotes. -/
def FilterToken.operand : FilterToken → Option String
  | quoted text => some (String.ofList text.val)
  | number digits => some (String.ofList digits.val)
  | operator _ | opening | closing | stray _ => none

/-- The leaf that an operand becomes. -/
def FilterToken.leaf (token : FilterToken) : Option String :=
  token.element.map fun element => operandOf element.toList

def TreeNode.leaves : TreeNode → List String
  | .leaf root => [root]
  | .node _ left right => left.leaves ++ right.leaves

/-! ## Stacks of trees -/

theorem pushElements_append (elements elements' : List String) (treePtrs : List TreeNode) :
    pushElements (elements ++ elements') treePtrs =
      pushElements elements treePtrs >>= pushElements elements' := by
  induction elements generalizing treePtrs with
  | nil => rfl
  | cons element elements ih =>
      rw [List.cons_append, pushElements.eq_def, pushElements.eq_def (element :: elements)]
      dsimp only
      split
      · rfl
      · split
        · exact ih _
        · split
          · exact ih _
          · rfl

/-- An expression of nonempty elements fails for want of operands only. -/
theorem pushElements_error {elements : List String} {treePtrs : List TreeNode} {fault : Fault}
    (hne : ∀ element ∈ elements, element.toList ≠ [])
    (h : pushElements elements treePtrs = .error fault) : fault = .emptyStack := by
  induction elements generalizing treePtrs with
  | nil => cases h
  | cons element elements ih =>
      have hne' : ∀ e ∈ elements, e.toList ≠ [] := fun e he => hne e (List.mem_cons_of_mem _ he)
      rw [pushElements.eq_def] at h
      dsimp only at h
      split at h
      case h_1 hnil => exact absurd hnil (hne element List.mem_cons_self)
      case h_2 =>
          split at h
          · exact ih hne' h
          · split at h
            · exact ih hne' h
            · cases h
              rfl

theorem getExpressionTreeFrom_error {elements : List String} {fault : Fault}
    (hne : ∀ element ∈ elements, element.toList ≠ [])
    (h : getExpressionTreeFrom elements = .error fault) : fault = .emptyStack := by
  rw [getExpressionTreeFrom] at h
  cases hpush : pushElements elements [] with
  | error fault' =>
      rw [hpush] at h
      cases h
      exact pushElements_error hne hpush
  | ok treePtrs =>
      rw [hpush] at h
      cases treePtrs with
      | nil =>
          cases h
          rfl
      | cons rootNode treePtrs => cases h

/-- A text that does not break off becomes a tree or meets an empty stack. -/
theorem treeOfText_error {expr : String} (hend : (scanOf expr).brokenOff = false) {fault : Fault}
    (h : treeOfText expr = .error fault) : fault = .emptyStack := by
  rw [treeOfText] at h
  cases helements : getPostfixedExpressionOf expr with
  | error fault' =>
      rw [helements] at h
      cases h
      rw [getPostfixedExpressionOf_eq, hend] at helements
      cases hfold : (scanOf expr).tokens.foldlM feed ([], []) with
      | error fault'' =>
          rw [hfold] at helements
          cases helements
          exact fold_error hfold
      | ok s =>
          rw [hfold] at helements
          cases helements
  | ok elements =>
      rw [helements] at h
      exact getExpressionTreeFrom_error (getPostfixedExpressionOf_ne_empty helements) h

/-- A text that breaks off becomes no tree, and meets an empty stack before that only where a
right parenthesis lacks its left one. -/
theorem treeOfText_brokenOff {expr : String} (hend : (scanOf expr).brokenOff = true) :
    treeOfText expr =
      .error (if Closes 0 (scanOf expr).tokens then .outOfRange else .emptyStack) := by
  have hiff : (∃ s', (scanOf expr).tokens.foldlM feed ([], []) = .ok s') ↔
      Closes 0 (scanOf expr).tokens := fold_ok_iff _ _
  rw [treeOfText, getPostfixedExpressionOf_eq, hend]
  cases hfold : (scanOf expr).tokens.foldlM feed ([], []) with
  | error fault =>
      have hcloses : ¬Closes 0 (scanOf expr).tokens := by
        intro hcloses
        rcases hiff.mpr hcloses with ⟨s', hs'⟩
        rw [hfold] at hs'
        cases hs'
      rw [if_neg hcloses, fold_error hfold]
      rfl
  | ok s =>
      rw [if_pos (hiff.mp ⟨s, hfold⟩)]
      rfl

/-! ## Trees of an expression -/

/-- What has gone out makes trees, one for every operator that is pending and `more` besides,
and from left to right their leaves are `leaves`. -/
structure Grows (more : Nat) (leaves : List String) (s : List String × List String)
    (treePtrs : List TreeNode) : Prop where
  operators : ∀ op ∈ s.2, op = "(" ∨ op ∈ operatorSymbols
  pushed : pushElements s.1 [] = .ok treePtrs
  length : treePtrs.length + s.2.count "(" = s.2.length + more
  leaves : treePtrs.reverse.flatMap TreeNode.leaves = leaves

theorem grows_nil : Grows 0 [] ([], []) [] where
  operators := nofun
  pushed := rfl
  length := rfl
  leaves := rfl

/-- An operator that goes out combines the two trees on top. -/
theorem Grows.pop {leaves output operators : List String} {op : String} {treePtrs : List TreeNode}
    (h : Grows 1 leaves (output, op :: operators) treePtrs) (hop : op ≠ "(") :
    ∃ left right rest, treePtrs = right :: left :: rest ∧
      Grows 1 leaves (output ++ [op], operators) (.node op left right :: rest) := by
  have hmem : op ∈ operatorSymbols :=
    (h.operators op List.mem_cons_self).resolve_left hop
  have hlength := h.length
  have hcount : operators.count "(" ≤ operators.length := List.count_le_length
  rw [List.count_cons_of_ne hop, List.length_cons] at hlength
  match treePtrs, h, hlength with
  | [], _, hlength => simp at hlength; omega
  | [_], _, hlength => simp at hlength; omega
  | right :: left :: rest, h, hlength =>
      refine ⟨left, right, rest, rfl, ?_⟩
      constructor
      · exact fun op' hop' => h.operators op' (List.mem_cons_of_mem _ hop')
      · rw [pushElements_append, h.pushed]
        exact pushElements_operator hmem [] left right rest
      · simp only [List.length_cons] at hlength ⊢
        omega
      · rw [← h.leaves]
        simp [TreeNode.leaves]

theorem Grows.popOperators {leaves output operators : List String} {treePtrs : List TreeNode}
    (h : Grows 1 leaves (output, operators) treePtrs) (op : String) :
    ∃ treePtrs', Grows 1 leaves (popOperators op output operators) treePtrs' := by
  induction operators generalizing output treePtrs with
  | nil => exact ⟨treePtrs, h⟩
  | cons topOperator operators ih =>
      rw [Storage.popOperators]
      split
      · exact ⟨treePtrs, h⟩
      · split
        case isTrue => exact ⟨treePtrs, h⟩
        case isFalse htop =>
            rcases h.pop htop with ⟨left, right, rest, -, hpop⟩
            exact ih hpop

/-- A closing parenthesis finds the opening one. -/
theorem Grows.popParenthesis {leaves output operators : List String} {treePtrs : List TreeNode}
    (h : Grows 1 leaves (output, operators) treePtrs) (hparen : "(" ∈ operators) :
    ∃ popped treePtrs', popParenthesis output operators = .ok popped ∧
      Grows 1 leaves popped treePtrs' := by
  induction operators generalizing output treePtrs with
  | nil => cases hparen
  | cons topOperator operators ih =>
      rw [Storage.popParenthesis]
      split
      case isTrue htop =>
          subst htop
          refine ⟨_, treePtrs, rfl, ?_⟩
          constructor
          · exact fun op' hop' => h.operators op' (List.mem_cons_of_mem _ hop')
          · exact h.pushed
          · have hlength := h.length
            rw [List.count_cons_self, List.length_cons] at hlength
            dsimp only at hlength ⊢
            omega
          · exact h.leaves
      case isFalse htop =>
          rcases h.pop htop with ⟨left, right, rest, -, hpop⟩
          exact ih hpop ((List.mem_cons.mp hparen).resolve_left (Ne.symm htop))

/-- In the end all the pending operators go out, and one tree is left. -/
theorem Grows.tree {leaves output operators : List String} {treePtrs : List TreeNode}
    (h : Grows 1 leaves (output, operators) treePtrs) (hparen : operators.count "(" = 0) :
    ∃ tree, getExpressionTreeFrom (output ++ operators) = .ok tree ∧ tree.leaves = leaves := by
  induction operators generalizing output treePtrs with
  | nil =>
      have hlength := h.length
      match treePtrs, h, hlength with
      | [], _, hlength => cases hlength
      | [tree], h, _ =>
          refine ⟨tree, ?_, ?_⟩
          · rw [List.append_nil, getExpressionTreeFrom, h.pushed]
            rfl
          · simpa using h.leaves
      | _ :: _ :: _, _, hlength => simp at hlength
  | cons op operators ih =>
      have hop : op ≠ "(" := by
        rintro rfl
        simp at hparen
      rw [List.count_cons_of_ne hop] at hparen
      rcases h.pop hop with ⟨left, right, rest, -, hpop⟩
      rw [List.append_cons]
      exact ih hpop hparen

/-! ## Feeding an expression -/

/-- An operand grows the expression by one leaf. -/
theorem Grows.operand {leaves output operators : List String} {treePtrs : List TreeNode}
    (h : Grows 0 leaves (output, operators) treePtrs) {element : String} {c : Char}
    {cs : List Char} (hchars : element.toList = c :: cs) (hc : c = '"' ∨ c.isDigit) :
    Grows 1 (leaves ++ [operandOf element.toList]) (output ++ [element], operators)
      (.leaf (operandOf element.toList) :: treePtrs) where
  operators := h.operators
  pushed := by
    rw [pushElements_append, h.pushed, hchars]
    exact pushElements_operand hchars hc [] treePtrs
  length := by
    have hlength := h.length
    dsimp only at hlength ⊢
    rw [List.length_cons]
    omega
  leaves := by
    rw [← h.leaves]
    simp [TreeNode.leaves]

theorem Grows.push {leaves output operators : List String} {treePtrs : List TreeNode}
    (h : Grows 1 leaves (output, operators) treePtrs) {op : String} (hop : op ∈ operatorSymbols) :
    Grows 0 leaves (output, op :: operators) treePtrs where
  operators := by
    intro op' hop'
    rcases List.mem_cons.mp hop' with rfl | hop'
    · exact .inr hop
    · exact h.operators op' hop'
  pushed := h.pushed
  length := by
    have hlength := h.length
    rw [List.count_cons_of_ne (ne_paren op hop), List.length_cons]
    exact hlength
  leaves := h.leaves

theorem Grows.open {leaves output operators : List String} {treePtrs : List TreeNode} {more : Nat}
    (h : Grows more leaves (output, operators) treePtrs) :
    Grows more leaves (output, "(" :: operators) treePtrs where
  operators := by
    intro op' hop'
    rcases List.mem_cons.mp hop' with rfl | hop'
    · exact .inl rfl
    · exact h.operators op' hop'
  pushed := h.pushed
  length := by
    have hlength := h.length
    rw [List.count_cons_self, List.length_cons]
    dsimp only at hlength
    omega
  leaves := h.leaves

/-- An expression adds a tree over its operands, and leaves the parentheses below as they are. -/
theorem Infix.feed {tokens : List FilterToken} (h : Infix tokens) {leaves : List String}
    {s : List String × List String} {treePtrs : List TreeNode} (hs : Grows 0 leaves s treePtrs) :
    ∃ s' treePtrs', tokens.foldlM feed s = .ok s' ∧
      Grows 1 (leaves ++ tokens.filterMap FilterToken.leaf) s' treePtrs' ∧
      s'.2.count "(" = s.2.count "(" := by
  induction h generalizing leaves s treePtrs with
  | quoted text =>
      have hchars : (String.ofList ('"' :: text.val ++ ['"'])).toList = '"' :: (text.val ++ ['"']) :=
        String.toList_ofList
      exact ⟨_, _, rfl, hs.operand hchars (.inl rfl), rfl⟩
  | number digits =>
      rcases hdigits : digits.val with _ | ⟨c, cs⟩
      · exact absurd hdigits digits.property.1
      · have hc := digits.property.2 c (by simp [hdigits])
        have hchars : (String.ofList digits.val).toList = c :: cs := by
          rw [String.toList_ofList, hdigits]
        exact ⟨_, _, rfl, hs.operand hchars (.inr hc), rfl⟩
  -- the expression leaves the parenthesis open, and the closing one pops what is above it
  | @paren tokens h ih =>
      rcases ih hs.open with ⟨s₁, treePtrs₁, hfold, hgrows, hcount⟩
      rw [List.count_cons_self] at hcount
      have hparen : "(" ∈ s₁.2 := List.count_pos_iff.mp (by omega)
      rcases hgrows.popParenthesis hparen with ⟨s', treePtrs', hpop, hgrows'⟩
      refine ⟨s', treePtrs', ?_, ?_, ?_⟩
      · show List.foldlM Storage.feed (s.1, "(" :: s.2) (tokens ++ [.closing]) = .ok s'
        rw [List.foldlM_append, hfold]
        show popParenthesis s₁.1 s₁.2 >>= pure = .ok s'
        rw [hpop]
        rfl
      · rw [List.cons_append, List.filterMap_cons_none rfl, List.filterMap_append,
          List.filterMap_cons_none rfl, List.filterMap_nil, List.append_nil]
        exact hgrows'
      · have hclosed := popParenthesis_count hpop
        omega
  -- the operators that bind as much are popped before the new one is pushed
  | @binary tokens tokens' op h h' ih ih' =>
      rcases ih hs with ⟨s₁, treePtrs₁, hfold, hgrows, hcount⟩
      rcases hgrows.popOperators op.val with ⟨treePtrs₂, hpopped⟩
      have hpushed := hpopped.push op.property
      rcases ih' hpushed with ⟨s', treePtrs', hfold', hgrows', hcount'⟩
      refine ⟨s', treePtrs', ?_, ?_, ?_⟩
      · rw [List.foldlM_append, hfold]
        exact hfold'
      · rw [List.filterMap_append, List.filterMap_cons_none rfl, ← List.append_assoc]
        exact hgrows'
      · rw [hcount', List.count_cons_of_ne (ne_paren op.val op.property), count_popOperators, hcount]

theorem treeOfText_eq {expr : String} (hend : (scanOf expr).brokenOff = false)
    {s : List String × List String} (hfold : (scanOf expr).tokens.foldlM feed ([], []) = .ok s) :
    treeOfText expr = getExpressionTreeFrom (s.1 ++ s.2) := by
  rw [treeOfText, getPostfixedExpressionOf_eq, hend, hfold]
  rfl

/-- An expression becomes a tree over all of its operands. -/
theorem Infix.tree {expr : String} (hend : (scanOf expr).brokenOff = false)
    (h : Infix (scanOf expr).tokens) :
    ∃ tree, treeOfText expr = .ok tree ∧
      tree.leaves = (scanOf expr).tokens.filterMap FilterToken.leaf := by
  rcases h.feed grows_nil with ⟨s, treePtrs, hfold, hgrows, hcount⟩
  rw [treeOfText_eq hend hfold]
  exact hgrows.tree hcount

/-! ## Operands and leaves -/

/-- The first and the last character are taken off, whatever they are. -/
theorem operandOf_eq_iff {cs text : List Char} (htext : text ≠ []) :
    operandOf cs = String.ofList text ↔ ∃ first last, cs = first :: text ++ [last] := by
  constructor
  · intro h
    have hinner : (cs.drop 1).take (cs.length - 2) = text := by
      have hlist := congrArg String.toList h
      rwa [operandOf, String.toList_ofList, String.toList_ofList] at hlist
    rcases cs with _ | ⟨first, rest⟩
    · exact absurd hinner.symm (by simpa using htext)
    · have hlast : rest.dropLast = text := by
        rw [List.dropLast_eq_take]
        simpa using hinner
      have hne : rest ≠ [] := by
        rintro rfl
        exact htext hlast.symm
      refine ⟨first, rest.getLast hne, ?_⟩
      rw [← hlast, List.cons_append, List.dropLast_append_getLast]
  · rintro ⟨first, last, rfl⟩
    simp [operandOf]

theorem leaf_quoted (text : {cs : List Char // '"' ∉ cs}) :
    (FilterToken.quoted text).leaf = (FilterToken.quoted text).operand := by
  have hoperand : operandOf ('"' :: text.val ++ ['"']) = String.ofList text.val := by
    simp [operandOf]
  rw [FilterToken.leaf, FilterToken.element, Option.map_some, String.toList_ofList, hoperand]
  rfl

theorem leaf_number_iff (digits : {cs : List Char // cs ≠ [] ∧ ∀ c ∈ cs, c.isDigit = true})
    {text : List Char} (htext : text ≠ []) :
    (FilterToken.number digits).leaf = some (String.ofList text) ↔
      ∃ first last, digits.val = first :: text ++ [last] := by
  rw [FilterToken.leaf, FilterToken.element, Option.map_some, String.toList_ofList,
    Option.some_inj]
  exact operandOf_eq_iff htext

/-- A number never becomes itself. -/
theorem leaf_number_ne (digits : {cs : List Char // cs ≠ [] ∧ ∀ c ∈ cs, c.isDigit = true}) :
    (FilterToken.number digits).leaf ≠ (FilterToken.number digits).operand := by
  intro h
  rcases (leaf_number_iff digits digits.property.1).mp h with ⟨first, last, hdigits⟩
  have hlength := congrArg List.length hdigits
  simp only [List.length_append, List.length_cons, List.length_nil] at hlength
  omega

/-- The characters stand between quotes, or inside of a longer number. -/
def Inside (tokens : List FilterToken) (text : List Char) : Prop :=
  (∃ quotedText, .quoted quotedText ∈ tokens ∧ quotedText.val = text) ∨
    ∃ digits, .number digits ∈ tokens ∧ ∃ first last, digits.val = first :: text ++ [last]

theorem inside_iff {tokens : List FilterToken} {text : List Char} (htext : text ≠ []) :
    Inside tokens text ↔ String.ofList text ∈ tokens.filterMap FilterToken.leaf := by
  rw [List.mem_filterMap]
  constructor
  · rintro (⟨quotedText, hmem, rfl⟩ | ⟨digits, hmem, hdigits⟩)
    · exact ⟨_, hmem, leaf_quoted quotedText⟩
    · exact ⟨_, hmem, (leaf_number_iff digits htext).mpr hdigits⟩
  · rintro ⟨token, hmem, hleaf⟩
    cases token with
    | quoted quotedText =>
        rw [leaf_quoted, FilterToken.operand, Option.some_inj, String.ofList_inj] at hleaf
        exact .inl ⟨quotedText, hmem, hleaf⟩
    | number digits => exact .inr ⟨digits, hmem, (leaf_number_iff digits htext).mp hleaf⟩
    | operator | opening | closing | stray => cases hleaf

/-! ## Which texts become a tree -/

/-- No empty stack is met, and only expressions become a tree, one that has all of their
operands, exactly when the text is such an expression or breaks off before a right parenthesis
lacks its left one; a bare number has to stand in quotes or inside of a longer one too. -/
theorem only_expressions_iff (expr : String) :
    (treeOfText expr ≠ .error .emptyStack ∧ ∀ tree, treeOfText expr = .ok tree →
      (scanOf expr).brokenOff = false ∧ Infix (scanOf expr).tokens ∧
        ∀ token ∈ (scanOf expr).tokens, ∀ text ∈ token.operand, text ∈ tree.leaves) ↔
    if (scanOf expr).brokenOff then Closes 0 (scanOf expr).tokens
    else Infix (scanOf expr).tokens ∧
      ∀ digits, .number digits ∈ (scanOf expr).tokens → Inside (scanOf expr).tokens digits.val := by
  cases hend : (scanOf expr).brokenOff with
  | true =>
      -- a text that breaks off has no tree, and may end with an empty stack before
      rw [treeOfText_brokenOff hend, if_pos rfl]
      split
      case isTrue hcloses => exact ⟨fun _ => hcloses, fun _ => ⟨nofun, nofun⟩⟩
      case isFalse hcloses => exact ⟨fun h => absurd rfl h.1, fun h => absurd h hcloses⟩
  | false =>
      rw [if_neg Bool.false_ne_true]
      constructor
      -- without an empty stack there is a tree
      · rintro ⟨hempty, honly⟩
        cases htree : treeOfText expr with
        | error fault =>
            rw [treeOfText_error hend htree] at htree
            exact absurd htree hempty
        | ok tree =>
            rcases honly tree htree with ⟨-, hexpression, hall⟩
            rcases hexpression.tree hend with ⟨tree', htree', hleaves⟩
            rw [htree] at htree'
            cases htree'
            refine ⟨hexpression, ?_⟩
            intro digits hmem
            rw [inside_iff digits.property.1, ← hleaves]
            exact hall _ hmem _ rfl
      -- the leaves are the operands, apart from the bare numbers
      · rintro ⟨hexpression, hnumbers⟩
        rcases hexpression.tree hend with ⟨tree, htree, hleaves⟩
        rw [htree]
        refine ⟨nofun, ?_⟩
        rintro tree' ⟨⟩
        refine ⟨rfl, hexpression, ?_⟩
        intro token hmem text htext
        rw [hleaves]
        cases token with
        | quoted quotedText =>
            exact List.mem_filterMap.mpr ⟨_, hmem, (leaf_quoted quotedText).trans htext⟩
        | number digits =>
            cases htext
            exact (inside_iff digits.property.1).mp (hnumbers digits hmem)
        | operator | opening | closing | stray => cases htext

/-- A right parenthesis on its own reaches for the top of an empty stack, and of two operands side
by side the first one is lost. -/
theorem only_expressions_fails :
    ¬(treeOfText (String.ofList [')']) ≠ .error .emptyStack) ∧
      treeOfText (String.ofList ['"', 'a', '"', '"', 'b', '"']) = .ok (.leaf "b") := by
  decide +kernel

/-! ## Numbers -/

/-- The same token, or a number in quotes. -/
inductive Requoted : FilterToken → FilterToken → Prop where
  | same (token : FilterToken) : Requoted token token
  | number (digits : {cs : List Char // cs ≠ [] ∧ ∀ c ∈ cs, c.isDigit = true})
      (text : {cs : List Char // '"' ∉ cs}) (h : text.val = digits.val) :
      Requoted (.number digits) (.quoted text)

/-- Two partial maps with one domain agree on a list if they make the same list of it. -/
theorem eq_of_filterMap_eq {α β : Type} {f g : α → Option β}
    (hsome : ∀ a, (f a).isSome = (g a).isSome) {l : List α} (h : l.filterMap f = l.filterMap g) :
    ∀ a ∈ l, f a = g a := by
  induction l with
  | nil => nofun
  | cons a l ih =>
      have ha := hsome a
      intro a' hmem
      -- both lists go on with this element, or leave it out
      cases hf : f a with
      | none =>
          have hg : g a = none := by
            rw [hf] at ha
            exact Option.isSome_eq_false_iff.mp ha.symm |> Option.isNone_iff_eq_none.mp
          rw [List.filterMap_cons_none hf, List.filterMap_cons_none hg] at h
          rcases List.mem_cons.mp hmem with rfl | hmem
          · rw [hf, hg]
          · exact ih h a' hmem
      | some b =>
          obtain ⟨b', hg⟩ : ∃ b', g a = some b' := by
            rw [hf] at ha
            exact Option.isSome_iff_exists.mp ha.symm
          rw [List.filterMap_cons_some hf, List.filterMap_cons_some hg, List.cons.injEq] at h
          rcases List.mem_cons.mp hmem with rfl | hmem
          · rw [hf, hg, h.1]
          · exact ih h.2 a' hmem

/-- The leaves are the operands where no operand is a number. -/
theorem leaves_eq_iff (tokens : List FilterToken) :
    tokens.filterMap FilterToken.leaf = tokens.filterMap FilterToken.operand ↔
      ∀ digits, .number digits ∉ tokens := by
  constructor
  · intro h digits hmem
    have hsome : ∀ token : FilterToken, token.leaf.isSome = token.operand.isSome := by
      intro token
      cases token <;> rfl
    exact leaf_number_ne digits (eq_of_filterMap_eq hsome h _ hmem)
  · intro hnone
    apply List.filterMap_congr
    intro token hmem
    cases token with
    | quoted text => exact leaf_quoted text
    | number digits => exact absurd hmem (hnone digits)
    | operator | opening | closing | stray => rfl

theorem requoted_eq {tokens tokens' : List FilterToken} (h : List.Forall₂ Requoted tokens tokens')
    (hnone : ∀ digits, .number digits ∉ tokens) : tokens' = tokens := by
  induction h with
  | nil => rfl
  | cons hrequoted _ ih =>
      have htail := ih fun digits hmem => hnone digits (List.mem_cons_of_mem _ hmem)
      cases hrequoted with
      | same token => rw [htail]
      | number digits => exact absurd List.mem_cons_self (hnone digits)

theorem treeOfText_congr {expr expr' : String} (h : scanOf expr' = scanOf expr) :
    treeOfText expr' = treeOfText expr := by
  rw [treeOfText, treeOfText, getPostfixedExpressionOf_eq, getPostfixedExpressionOf_eq, h]

/-- An expression keeps its operands as they stand in the text, and numbers could as well stand in
quotes, exactly when there are no numbers. -/
theorem operands_kept_iff {expr : String} (hend : (scanOf expr).brokenOff = false)
    (h : Infix (scanOf expr).tokens) :
    ((∃ tree, treeOfText expr = .ok tree ∧
        tree.leaves = (scanOf expr).tokens.filterMap FilterToken.operand) ∧
      ∀ expr', (scanOf expr').brokenOff = false →
        List.Forall₂ Requoted (scanOf expr).tokens (scanOf expr').tokens →
        treeOfText expr' = treeOfText expr) ↔
      ∀ digits, .number digits ∉ (scanOf expr).tokens := by
  rcases h.tree hend with ⟨tree, htree, hleaves⟩
  constructor
  · rintro ⟨⟨tree', htree', hkept⟩, -⟩
    rw [htree] at htree'
    cases htree'
    exact (leaves_eq_iff _).mp (hleaves.symm.trans hkept)
  · intro hnone
    refine ⟨⟨tree, htree, hleaves.trans ((leaves_eq_iff _).mpr hnone)⟩, ?_⟩
    intro expr' hend' hrequoted
    apply treeOfText_congr
    have htokens := requoted_eq hrequoted hnone
    exact Scan.ext htokens (hend'.trans hend.symm)

namespace Sample

/-- `"a"="12"` -/
def quotedNumber : String := String.ofList ['"', 'a', '"', '=', '"', '1', '2', '"']

/-- `"a"=12` -/
def bareNumber : String := String.ofList ['"', 'a', '"', '=', '1', '2']

end Sample

theorem operands_kept_quoted :
    ∃ tree, treeOfText Sample.quotedNumber = .ok tree ∧ tree.leaves = ["a", "12"] := by
  have htokens : (scanOf Sample.quotedNumber).tokens =
      [.quoted ⟨['a'], by decide⟩, .operator ⟨"=", by decide⟩, .quoted ⟨['1', '2'], by decide⟩] := by
    decide +kernel
  have hend : (scanOf Sample.quotedNumber).brokenOff = false := by decide +kernel
  have hexpression : Infix (scanOf Sample.quotedNumber).tokens := by
    rw [htokens]
    exact .binary _ (.quoted _) (.quoted _)
  have hkept := (operands_kept_iff hend hexpression).mpr (by simp [htokens])
  rcases hkept.1 with ⟨tree, htree, hleaves⟩
  refine ⟨tree, htree, hleaves.trans ?_⟩
  rw [htokens]
  rfl

/-- A number of two digits becomes the empty operand, and another one in quotes. -/
theorem operands_kept_fails :
    (scanOf Sample.bareNumber).brokenOff = false ∧ Infix (scanOf Sample.bareNumber).tokens ∧
      (¬∃ tree, treeOfText Sample.bareNumber = .ok tree ∧
        tree.leaves = (scanOf Sample.bareNumber).tokens.filterMap FilterToken.operand) ∧
      List.Forall₂ Requoted (scanOf Sample.bareNumber).tokens
        (scanOf Sample.quotedNumber).tokens ∧
      treeOfText Sample.quotedNumber ≠ treeOfText Sample.bareNumber := by
  have htokens : (scanOf Sample.bareNumber).tokens =
      [.quoted ⟨['a'], by decide⟩, .operator ⟨"=", by decide⟩, .number ⟨['1', '2'], by decide⟩] := by
    decide +kernel
  have hquoted : (scanOf Sample.quotedNumber).tokens =
      [.quoted ⟨['a'], by decide⟩, .operator ⟨"=", by decide⟩, .quoted ⟨['1', '2'], by decide⟩] := by
    decide +kernel
  have htree : treeOfText Sample.bareNumber = .ok (.node "=" (.leaf "a") (.leaf "")) := by
    decide +kernel
  have htree' : treeOfText Sample.quotedNumber = .ok (.node "=" (.leaf "a") (.leaf "12")) := by
    decide +kernel
  refine ⟨by decide +kernel, ?_, ?_, ?_, ?_⟩
  · rw [htokens]
    exact .binary _ (.quoted _) (.number _)
  · rintro ⟨tree, hbare, hleaves⟩
    rw [htree] at hbare
    cases hbare
    rw [htokens] at hleaves
    -- the leaf is empty, and the operand is `12`
    exact absurd hleaves (by decide)
  · rw [htokens, hquoted]
    exact .cons (.same _) (.cons (.same _) (.cons (.number _ _ rfl) .nil))
  · rw [htree, htree']
    decide

end DecentralizedCloud.Storage
