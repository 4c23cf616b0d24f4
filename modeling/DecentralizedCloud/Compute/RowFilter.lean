import DecentralizedCloud.Compute.StateChangeMessage
import DecentralizedCloud.Storage.FilterTokens

/-!
# Row filters on their way to the storage node

`execute` writes a row filter as an expression, with quotes around attributes and values,
and none of the layers that the expression crosses escapes anything: the message ends at a
null character and is taken apart at `|` and `:`, a list of commands at `,` and at spaces,
and the quotes are those of the expression itself. What arrives is the expression up to
the first such character, decoded (`arrived_expression`). So it is the expression itself,
and its tree the one that the row filter denotes, exactly when no attribute and no value
has such a character and there is no `||` (`filter_arrives_iff`).
-/

namespace DecentralizedCloud.Compute

open Storage StateQueue

/-! ## What a row filter denotes -/

inductive Token where
  | operator (op : String)
  | paren (c : Char)
  | operand (root : String)
deriving DecidableEq, Repr

def Token.text : Token → List Char
  | .operator op => op.toList
  | .paren c => [c]
  | .operand root => quoted root

/-- The tokens of an entry, in the order in which `execute` writes them. -/
def FilterEntry.tokens (current : FilterEntry) : List Token :=
  current.logicaloperator.toList.map (fun s => .operator (logicSymbol s)) ++
    (current.expressionbegin.getD "").toList.map .paren ++
    current.attributeName.toList.map .operand ++
    current.operator.toList.map (fun s => .operator (operatorSymbol s)) ++
    current.value.toList.map .operand ++ (current.expressionend.getD "").toList.map .paren

def tokensOf (rowfilter : List FilterEntry) : List Token :=
  rowfilter.flatMap FilterEntry.tokens

/-- The tree of a sequence of tokens: connectives group to the left, and `&` binds more
tightly than `|`. -/
inductive Denotes : Nat → TreeNode → List Token → Prop where
  | comparison {op attributeName value : String} (hop : op ∈ ["=", "<>", "<", "<=", ">", ">="]) :
      Denotes 3 (.node op (.leaf attributeName) (.leaf value))
        [.operand attributeName, .operator op, .operand value]
  | paren {p : Nat} {tree : TreeNode} {ts : List Token} (h : Denotes p tree ts) :
      Denotes 4 tree (.paren '(' :: ts ++ [.paren ')'])
  | connective {op : String} {p q : Nat} {left right : TreeNode} {ts ts' : List Token}
      (hop : op ∈ ["&", "|"]) (hleft : Denotes p left ts) (hp : level op ≤ p)
      (hright : Denotes q right ts') (hq : level op < q) :
      Denotes (level op) (.node op left right) (ts ++ .operator op :: ts')

/-- A row filter with the tree that it denotes. -/
structure IsRowFilter (rowfilter : List FilterEntry) (tree : TreeNode) : Prop where
  logicaloperator : ∀ current ∈ rowfilter, ∀ s ∈ current.logicaloperator, s = "&&" ∨ s = "||"
  operator : ∀ current ∈ rowfilter, ∀ s ∈ current.operator, s ∈ comparisons
  denotes : ∃ p, Denotes p tree (tokensOf rowfilter)

/-! ## The transport -/

/-- The expression that `findDocument` gets; its handler reads all the arguments. -/
def findDocumentExpression (theFields : FieldValueMap) : Option String := do
  let _ ← theFields.at? "ws"
  let _ ← theFields.at? "k"
  let _ ← theFields.at? "txid"
  let _ ← theFields.at? "tid"
  let _ ← theFields.at? "id"
  theFields.at? "expression"

variable (E : Engine)

/-- The expression with which the storage node searches for a call: the one of the message
of a GET, or the one in the command of a PUT or DELETE. -/
def arrivedExpression (e : Envelope) (tenantid transactionId : String) (c : Call) : Option String :=
  match c.execute E tenantid "" with
  | (_, some input) =>
      (processIncomingData .fetchDocument (gossiped e (fetchDocument transactionId input))).bind
        findDocumentExpression
  | (stateChangeCmds, none) =>
      (delivered e transactionId stateChangeCmds).head?.bind (·.command[2]?)

/-- The characters at which a layer takes the expression apart. -/
def reserved (httpMethod : String) : List Char :=
  if httpMethod = "GET" then [':', '|', '\x00'] else [' ', ',', ':', '|', '\x00']

/-- A text that all layers leave as it is. -/
def Transparent (httpMethod s : String) : Prop :=
  (∀ c ∈ s.toList, c ∉ '"' :: reserved httpMethod) ∧ Decoded s.toList

/-! ## The text of a row filter -/

section Text

variable {rowfilter : List FilterEntry} {tree : TreeNode} {ts : List Token} {p : Nat}

theorem text_field {f : String → String} {g : String → Token} (h : ∀ s, (f s).toList = (g s).text)
    (o : Option String) :
    ((o.map f).getD "").toList = (o.toList.map g).flatMap Token.text := by
  cases o with
  | none => rfl
  | some s => simp [h]

theorem text_parens (cs : List Char) : (cs.map Token.paren).flatMap Token.text = cs := by
  induction cs with
  | nil => rfl
  | cons c cs ih =>
      rw [List.map_cons, List.flatMap_cons, ih]
      rfl

theorem toList_inQuotes (s : String) : (inQuotes s).toList = (Token.operand s).text := by
  simp [inQuotes, Token.text, quoted]

theorem toList_expr (current : FilterEntry) :
    current.expr.toList = current.tokens.flatMap Token.text := by
  have hoperand := text_field toList_inQuotes
  have hlogic := text_field (f := logicSymbol) (g := fun s => .operator (logicSymbol s)) fun _ => rfl
  have hoperator :=
    text_field (f := operatorSymbol) (g := fun s => .operator (operatorSymbol s)) fun _ => rfl
  simp only [FilterEntry.expr, FilterEntry.tokens, String.toList_append, List.flatMap_append,
    hoperand, hlogic, hoperator, text_parens]

/-- The expression is the text of the tokens. -/
theorem toList_exprOf_eq (rowfilter : List FilterEntry) :
    (exprOf rowfilter).toList = (tokensOf rowfilter).flatMap Token.text := by
  rw [toList_exprOf, tokensOf, List.flatMap_assoc]
  simp only [toList_expr]

theorem operand_mem_tokensOf {root : String} :
    .operand root ∈ tokensOf rowfilter ↔
      ∃ current ∈ rowfilter, root ∈ current.attributeName ∨ root ∈ current.value := by
  simp [tokensOf, FilterEntry.tokens]

theorem operatorSymbol_ne_bar : ∀ s ∈ comparisons, operatorSymbol s ≠ "|" := by decide

/-- A row filter has a union if and only if one of its entries has `||`. -/
theorem bar_mem_tokensOf (h : IsRowFilter rowfilter tree) :
    .operator "|" ∈ tokensOf rowfilter ↔
      ∃ current ∈ rowfilter, current.logicaloperator = some "||" := by
  rw [tokensOf, List.mem_flatMap]
  constructor
  · rintro ⟨current, hcurrent, hmem⟩
    refine ⟨current, hcurrent, ?_⟩
    simp only [FilterEntry.tokens, List.mem_append, List.mem_map, Option.mem_toList] at hmem
    rcases hmem with ((((⟨s, hs, hop⟩ | ⟨c, -, hop⟩) | ⟨s, -, hop⟩) | ⟨s, hs, hop⟩) | ⟨s, -, hop⟩) |
      ⟨c, -, hop⟩
    · rcases h.logicaloperator current hcurrent s hs with rfl | rfl
      · exact absurd hop (by decide)
      · exact hs
    · cases hop
    · cases hop
    -- no comparison is written as a single bar
    · exact absurd (Token.operator.inj hop)
        (operatorSymbol_ne_bar s (h.operator current hcurrent s hs))
    · cases hop
    · cases hop
  · rintro ⟨current, hcurrent, hor⟩
    refine ⟨current, hcurrent, ?_⟩
    simp [FilterEntry.tokens, hor, logicSymbol]

/-! ### Tokens of a tree -/

theorem comparison_mem : ∀ op ∈ ["=", "<>", "<", "<=", ">", ">="],
    op ∈ operatorSymbols ∧ level op = 3 := by
  decide

theorem connective_mem : ∀ op ∈ ["&", "|"], op ∈ operatorSymbols := by decide

/-- The tokens of a tree are operators, parentheses and operands. -/
theorem Denotes.token (h : Denotes p tree ts) : ∀ t ∈ ts,
    (∃ op ∈ operatorSymbols, t = .operator op) ∨ t = .paren '(' ∨ t = .paren ')' ∨
      ∃ root, t = .operand root := by
  induction h with
  | comparison hop =>
      intro t ht
      simp only [List.mem_cons, List.not_mem_nil, or_false] at ht
      rcases ht with rfl | rfl | rfl
      · exact .inr (.inr (.inr ⟨_, rfl⟩))
      · exact .inl ⟨_, (comparison_mem _ hop).1, rfl⟩
      · exact .inr (.inr (.inr ⟨_, rfl⟩))
  | paren h ih =>
      intro t ht
      rw [List.cons_append, List.mem_cons, List.mem_append, List.mem_singleton] at ht
      rcases ht with rfl | ht | rfl
      · exact .inr (.inl rfl)
      · exact ih t ht
      · exact .inr (.inr (.inl rfl))
  | connective hop hleft hp hright hq ihl ihr =>
      intro t ht
      rw [List.mem_append, List.mem_cons] at ht
      rcases ht with ht | rfl | ht
      · exact ihl t ht
      · exact .inl ⟨_, connective_mem _ hop, rfl⟩
      · exact ihr t ht

/-- Without quotes in the operands the expression is a text of the tree. -/
theorem Denotes.renders (h : Denotes p tree ts)
    (hquote : ∀ root, .operand root ∈ ts → '"' ∉ root.toList) :
    Renders p tree (ts.flatMap Token.text) := by
  have hblank : Blank [] := by simp [Blank]
  induction h with
  | @comparison op attributeName value hop =>
      rcases comparison_mem op hop with ⟨hmem, hlevel⟩
      have hleft : Renders 4 (.leaf attributeName) (quoted attributeName) :=
        .leaf (hquote _ (by simp))
      have hright : Renders 4 (.leaf value) (quoted value) := .leaf (hquote _ (by simp))
      have htext := Renders.binary hmem hleft (by omega) hblank hblank hright (by omega)
      rw [hlevel] at htext
      simpa [Token.text] using htext
  | @paren p tree ts h ih =>
      have hinside := ih fun root hroot => hquote root (by simp [hroot])
      have htext := Renders.paren hinside hblank hblank
      simpa [Token.text] using htext
  | @connective op p q left right ts ts' hop hleft hp hright hq ihl ihr =>
      have hl := ihl fun root hroot => hquote root (by simp [hroot])
      have hr := ihr fun root hroot => hquote root (by simp [hroot])
      have htext := Renders.binary (connective_mem op hop) hl hp hblank hblank hr hq
      simpa [Token.text] using htext

/-- The operands of an unquoted tree have no quote. -/
theorem Denotes.notMem_quote (h : Denotes p tree ts) (htree : Unquoted tree) :
    ∀ root, .operand root ∈ ts → '"' ∉ root.toList := by
  induction h with
  | comparison hop =>
      intro root hroot
      simp only [List.mem_cons, Token.operand.injEq, List.not_mem_nil, or_false, false_or,
        reduceCtorEq] at hroot
      rcases hroot with rfl | rfl
      · exact htree.1
      · exact htree.2
  | paren h ih =>
      intro root hroot
      exact ih htree root (by simpa using hroot)
  | connective hop hleft hp hright hq ihl ihr =>
      intro root hroot
      rw [List.mem_append, List.mem_cons] at hroot
      rcases hroot with hroot | hroot | hroot
      · exact ihl htree.1 root hroot
      · cases hroot
      · exact ihr htree.2 root hroot

/-- The storage node makes the tree of the expression exactly when no operand has a quote. -/
theorem Denotes.tree_iff (h : Denotes p tree ts) :
    (∃ elements, getPostfixedExpressionOf (String.ofList (ts.flatMap Token.text)) = .ok elements ∧
        getExpressionTreeFrom elements = .ok tree) ↔
      ∀ root, .operand root ∈ ts → '"' ∉ root.toList := by
  constructor
  · rintro ⟨elements, helements, htree⟩
    exact h.notMem_quote (unquoted_of_expression helements htree)
  · intro hquote
    have hblank : Blank [] := by simp [Blank]
    have hread := filter_tree (h.renders hquote) hblank hblank
    rwa [List.nil_append, List.append_nil] at hread

theorem operator_notMem : ∀ op ∈ operatorSymbols,
    (∀ c ∈ op.toList, c ∉ ['%', '3', 'A', '7', 'C', ' ', ',', ':', '\x00']) ∧
      ('|' ∈ op.toList → op = "|") := by
  decide

/-- The reserved characters of an expression stand in its operands, except for `|`. -/
theorem Denotes.reserved_iff (h : Denotes p tree ts) {ds : List Char}
    (hds : ds ⊆ [' ', ',', ':', '|', '\x00']) (hbar : '|' ∈ ds) :
    (∀ c ∈ ts.flatMap Token.text, c ∉ ds) ↔
      (∀ root, .operand root ∈ ts → ∀ c ∈ root.toList, c ∉ ds) ∧ .operator "|" ∉ ts := by
  constructor
  · intro hall
    refine ⟨fun root hroot c hc => hall c ?_, fun hop => ?_⟩
    · exact List.mem_flatMap.mpr ⟨_, hroot, by simp [Token.text, quoted, hc]⟩
    · exact hall '|' (List.mem_flatMap.mpr ⟨_, hop, by simp [Token.text]⟩) hbar
  · rintro ⟨hoperand, hop⟩ c hc hmem
    have hspecial := hds hmem
    rcases List.mem_flatMap.mp hc with ⟨t, ht, hc⟩
    -- a character of the text stands in an operator, a bracket or an operand
    rcases h.token t ht with ⟨op, hsymbol, rfl⟩ | rfl | rfl | ⟨root, rfl⟩
    · have hnot := operator_notMem op hsymbol
      by_cases hc' : c = '|'
      · subst hc'
        rw [hnot.2 hc] at ht
        exact hop ht
      · have hcases : ∀ c ∈ [' ', ',', ':', '|', '\x00'],
            c = '|' ∨ c ∈ ['%', '3', 'A', '7', 'C', ' ', ',', ':', '\x00'] := by decide
        exact hnot.1 c hc ((hcases c hspecial).resolve_left hc')
    · have hparen : c = '(' := by simpa [Token.text] using hc
      subst hparen
      exact absurd hspecial (by decide)
    · have hparen : c = ')' := by simpa [Token.text] using hc
      subst hparen
      exact absurd hspecial (by decide)
    · have hquoted : c = '"' ∨ c ∈ root.toList := by
        simpa [Token.text, quoted, or_comm, or_left_comm] using hc
      rcases hquoted with rfl | hc
      · exact absurd hspecial (by decide)
      · exact hoperand root ht c hc hmem

theorem decodeDelimiters_notMem {cs : List Char} (h : ∀ c ∈ cs, c ∉ ['%', '3', 'A', '7', 'C'])
    (rest : List Char) : decodeDelimiters (cs ++ rest) = cs ++ decodeDelimiters rest := by
  induction cs with
  | nil => rfl
  | cons c cs ih =>
      have hhead := decodeDelimiters_append (h c List.mem_cons_self) [] (cs ++ rest)
      rw [List.nil_append] at hhead
      rw [List.cons_append, hhead, ih fun c' hc' => h c' (List.mem_cons_of_mem c hc')]
      rfl

/-- Codes of delimiters stand in operands only. -/
theorem Denotes.decoded_iff (h : Denotes p tree ts) :
    Decoded (ts.flatMap Token.text) ↔ ∀ root, .operand root ∈ ts → Decoded root.toList := by
  constructor
  · intro hdecoded root hroot
    have hinf : root.toList <:+: ts.flatMap Token.text := by
      rcases List.append_of_mem hroot with ⟨before, behind, rfl⟩
      exact ⟨before.flatMap Token.text ++ ['"'], '"' :: behind.flatMap Token.text, by
        simp [Token.text, quoted]⟩
    exact ⟨fun hcode => hdecoded.1 (hcode.trans hinf), fun hcode => hdecoded.2 (hcode.trans hinf)⟩
  · intro hoperand
    -- tokens around an operand have no character of a code, so it is decoded on its own
    have htoken := h.token
    clear h
    rw [← decodeDelimiters_eq_self_iff]
    induction ts with
    | nil => rfl
    | cons t ts ih =>
        have hrest := ih (fun root hroot => hoperand root (List.mem_cons_of_mem t hroot))
          fun t' ht' => htoken t' (List.mem_cons_of_mem t ht')
        have hquote : '"' ∉ ['%', '3', 'A', '7', 'C'] := by decide
        rw [List.flatMap_cons]
        rcases htoken t List.mem_cons_self with ⟨op, hop, rfl⟩ | rfl | rfl | ⟨root, rfl⟩
        · rw [decodeDelimiters_notMem, hrest]
          intro c hc hcode
          have hsubset : ['%', '3', 'A', '7', 'C'] ⊆
              ['%', '3', 'A', '7', 'C', ' ', ',', ':', '\x00'] := by decide
          exact (operator_notMem op hop).1 c hc (hsubset hcode)
        · rw [decodeDelimiters_notMem (by decide), hrest]
        · rw [decodeDelimiters_notMem (by decide), hrest]
        · have hroot := (decodeDelimiters_eq_self_iff _).mpr (hoperand root List.mem_cons_self)
          have htext : (Token.operand root).text ++ ts.flatMap Token.text =
              [] ++ '"' :: (root.toList ++ '"' :: ts.flatMap Token.text) := by
            simp [Token.text, quoted]
          rw [htext, decodeDelimiters_append hquote, decodeDelimiters_append hquote, hroot, hrest]
          rfl

end Text

/-! ## What arrives -/

/-- The text up to the first of some characters. -/
def upTo (ds cs : List Char) : List Char := cs.takeWhile (· ∉ ds)

section UpTo

variable {d : Char} {ds cs : List Char}

theorem takeWhile_eq_upTo (d : Char) (cs : List Char) : cs.takeWhile (· ≠ d) = upTo [d] cs := by
  simp [upTo]

theorem upTo_upTo (ds ds' cs : List Char) : upTo ds (upTo ds' cs) = upTo (ds ++ ds') cs := by
  rw [upTo, upTo, upTo, List.takeWhile_takeWhile]
  congr 1
  funext c
  simp

theorem upTo_eq_self_iff : upTo ds cs = cs ↔ ∀ c ∈ cs, c ∉ ds := by
  simp [upTo, List.takeWhile_eq_self_iff]

/-- What follows a text counts only if the text has none of the characters. -/
theorem upTo_append_of_head {rest : List Char} (h : ∀ c ∈ rest.head?, c ∈ ds) (cs : List Char) :
    upTo ds (cs ++ rest) = upTo ds cs := by
  induction cs with
  | nil =>
      cases rest with
      | nil => rfl
      | cons c rest =>
          have hc := h c rfl
          simp [upTo, hc]
  | cons c cs ih =>
      by_cases hc : c ∈ ds
      · simp [upTo, hc]
      · simpa [upTo, hc] using ih

/-- A text that arrives up to a character and decoded arrives as it is exactly when it has
none of the characters and no code. -/
theorem decodeDelimiters_upTo_iff :
    decodeDelimiters (upTo ds cs) = cs ↔ (∀ c ∈ cs, c ∉ ds) ∧ Decoded cs := by
  constructor
  · intro h
    have hle : cs.length ≤ (upTo ds cs).length := by
      rw [← congrArg List.length h]
      exact length_decodeDelimiters_le _
    have hself : upTo ds cs = cs := (List.takeWhile_prefix _).eq_of_length_le hle
    rw [hself] at h
    exact ⟨upTo_eq_self_iff.mp hself, (decodeDelimiters_eq_self_iff _).mp h⟩
  · rintro ⟨hall, hdecoded⟩
    rw [upTo_eq_self_iff.mpr hall]
    exact (decodeDelimiters_eq_self_iff _).mpr hdecoded

end UpTo

section Arrived

variable {E} {e : Envelope} {tenantid transactionId : String} {c : Call}

/-- The text of a GET in front of its expression. -/
def query (tenantid templateId : String) : List Char :=
  "c:12|tid:".toList ++ tenantid.toList ++ "|id:".toList ++ templateId.toList ++
    "|expression:".toList

theorem query_append (tenantid templateId : String) (rest : List Char) :
    query tenantid templateId ++ rest =
      "c".toList ++ ':' :: "12".toList ++ '|' :: ("tid".toList ++ ':' :: tenantid.toList ++
        '|' :: ("id".toList ++ ':' :: templateId.toList ++
          '|' :: ("expression".toList ++ ':' :: rest))) := by
  have htexts : "c:12|tid:".toList = ['c', ':', '1', '2', '|', 't', 'i', 'd', ':'] ∧
      "|id:".toList = ['|', 'i', 'd', ':'] ∧
      "|expression:".toList = ['|', 'e', 'x', 'p', 'r', 'e', 's', 's', 'i', 'o', 'n', ':'] := by
    decide
  have hnames : "c".toList = ['c'] ∧ "12".toList = ['1', '2'] ∧ "tid".toList = ['t', 'i', 'd'] ∧
      "id".toList = ['i', 'd'] ∧
      "expression".toList = ['e', 'x', 'p', 'r', 'e', 's', 's', 'i', 'o', 'n'] := by
    decide
  unfold query
  simp only [htexts, hnames, List.append_assoc, List.cons_append, List.nil_append]

theorem null_notMem_query {templateId : String} (htid : Plain tenantid) (hid : Plain templateId) :
    '\x00' ∉ query tenantid templateId := by
  have hquery := query_append tenantid templateId []
  rw [List.append_nil] at hquery
  rw [hquery]
  simp [htid.2.2, hid.2.2]

/-- What `fetchDocument` gossips: the C string ends with the first null character. -/
theorem fetchDocument_eq {templateId : String} (htid : Plain tenantid) (hid : Plain templateId)
    (transactionId expr : String) :
    fetchDocument transactionId ("c:12|tid:" ++ tenantid ++ "|id:" ++ templateId ++
        "|expression:" ++ expr) =
      String.ofList ("txid".toList ++ ':' :: transactionId.toList ++
        '|' :: (query tenantid templateId ++ upTo ['\x00'] expr.toList)) := by
  have happend : ∀ a b c d f : String, (a ++ b ++ c ++ d ++ f ++ expr).toList =
      a.toList ++ b.toList ++ c.toList ++ d.toList ++ f.toList ++ expr.toList := by
    intro a b c d f
    simp only [String.toList_append]
  have hinput : ("c:12|tid:" ++ tenantid ++ "|id:" ++ templateId ++ "|expression:" ++ expr).toList =
      query tenantid templateId ++ expr.toList := happend ..
  have htxid : "txid:".toList = "txid".toList ++ [':'] := by decide
  have hbar : "|".toList = ['|'] := by decide
  rw [← String.toList_inj, fetchDocument, cString, hinput,
    takeWhile_append (null_notMem_query htid hid), takeWhile_eq_upTo]
  simp only [String.toList_append, String.toList_ofList, htxid, hbar, List.append_assoc,
    List.cons_append, List.nil_append]

/-- The fields of a GET in front of its expression. -/
theorem pairsOf_query {templateId : String} (htx : Plain transactionId) (htid : Plain tenantid)
    (hid : Plain templateId) (rest : List Char) :
    pairsOf ("txid".toList ++ ':' :: transactionId.toList ++
        '|' :: (query tenantid templateId ++ rest)) =
      (pairsOf ("expression".toList ++ ':' :: rest)).map fun pairs =>
        ("txid", String.ofList (decodeDelimiters transactionId.toList)) :: ("c", "12") ::
          ("tid", String.ofList (decodeDelimiters tenantid.toList)) ::
          ("id", String.ofList (decodeDelimiters templateId.toList)) :: pairs := by
  have hcode : pairsOf ("c".toList ++ ':' :: "12".toList) = some [("c", "12")] := by decide
  rw [pairsOf_message htx, query_append, pairsOf_append, hcode, pairsOf_append,
    pairsOf_plain (by decide) htid, pairsOf_append, pairsOf_plain (by decide) hid]
  cases pairsOf ("expression".toList ++ ':' :: rest) <;> rfl

/-- The expression of a GET: the first field of its name is the one that `execute` wrote. -/
theorem findDocumentExpression_eq (he : e.IsPlain) {templateId : String}
    (htx : Plain transactionId) (htid : Plain tenantid) (hid : Plain templateId) {rest : List Char}
    (hnull : '\x00' ∉ rest) {expression : String} {others : List (String × String)}
    (h : pairsOf ("expression".toList ++ ':' :: rest) = some (("expression", expression) :: others)) :
    (processIncomingData .fetchDocument (gossiped e (String.ofList ("txid".toList ++
        ':' :: transactionId.toList ++ '|' :: (query tenantid templateId ++ rest))))).bind
      findDocumentExpression = some expression := by
  have hnull' : '\x00' ∉ "txid".toList ++ ':' :: transactionId.toList ++
      '|' :: (query tenantid templateId ++ rest) := by
    simp [htx.2.2, null_notMem_query htid hid, hnull]
  have hpairs := pairsOf_query htx htid hid rest
  rw [h, Option.map_some] at hpairs
  have hcode : CommandType.ofCode (atoi "12") = some .fetchDocument := by decide
  obtain ⟨f, hf, hat⟩ := processIncomingData_eq_some he hnull' hpairs
    (by simp [List.lookup_cons]) hcode
  have htid' : f.at? "tid" = some (String.ofList (decodeDelimiters tenantid.toList)) := by
    simp [hat, List.lookup_cons]
  have hid' : f.at? "id" = some (String.ofList (decodeDelimiters templateId.toList)) := by
    simp [hat, List.lookup_cons]
  have htxid' : f.at? "txid" = some (String.ofList (decodeDelimiters transactionId.toList)) := by
    simp [hat]
  have hexpression : f.at? "expression" = some expression := by
    simp [hat, List.lookup_cons]
  -- the expression may bring a `k` of its own, whose value does not matter here
  have hk' : ∃ k, f.at? "k" = some k := by
    rcases hk : others.lookup "k" with _ | k
    · exact ⟨String.ofList (decodeDelimiters e.k.toList), by
        simp [hat, List.lookup_cons, hk, e.lookup_fields_k]⟩
    · exact ⟨k, by simp [hat, List.lookup_cons, hk]⟩
  have hws' : ∃ ws, f.at? "ws" = some ws := by
    simp [hat]
  rcases hk' with ⟨k, hk'⟩
  rcases hws' with ⟨ws, hws'⟩
  rw [hf, Option.bind_some, findDocumentExpression]
  simp only [htid', hid', htxid', hk', hws', hexpression, Option.bind_eq_bind, Option.bind_some]

/-- What arrives of a GET is the expression up to a reserved character. -/
theorem arrived_get (he : e.IsPlain) (htx : Plain transactionId) (htid : Plain tenantid)
    (hid : Plain c.templateId) (hget : c.httpMethod = "GET") :
    (arrivedExpression E e tenantid transactionId c = none ∨
      arrivedExpression E e tenantid transactionId c = some (String.ofList
        (decodeDelimiters (upTo [':', '|', '\x00'] (exprOf c.rowfilter).toList)))) ∧
      ((∀ d ∈ (exprOf c.rowfilter).toList, d ∉ [':', '|', '\x00']) →
        arrivedExpression E e tenantid transactionId c ≠ none) := by
  have hexecute : c.execute E tenantid "" = ("", some ("c:12|tid:" ++ tenantid ++ "|id:" ++
      c.templateId ++ "|expression:" ++ exprOf c.rowfilter)) := by
    have hother : "GET" ≠ "POST" ∧ "GET" ≠ "PUT" ∧ "GET" ≠ "DELETE" := by decide
    rw [Call.execute, hget, if_neg hother.1, if_neg hother.2.1, if_neg hother.2.2, if_pos rfl]
  have hname : '|' ∉ "expression".toList ∧ ':' ∉ "expression".toList := by decide
  have hnull : '\x00' ∉ upTo ['\x00'] (exprOf c.rowfilter).toList := by
    intro hmem
    simpa using List.mem_takeWhile_imp hmem
  rw [arrivedExpression, hexecute]
  dsimp only
  rw [fetchDocument_eq htid hid]
  constructor
  -- what follows a bar is read as further fields, and a bad one spoils the whole message
  · rcases pairsOf_name hname (upTo ['\x00'] (exprOf c.rowfilter).toList) with
      hpairs | ⟨others, hpairs, -⟩
    · left
      have hall := pairsOf_query htx htid hid (upTo ['\x00'] (exprOf c.rowfilter).toList)
      rw [hpairs] at hall
      rw [processIncomingData_of_pairsOf_eq_none he _ hall]
      · rfl
      · simp [htx.2.2, null_notMem_query htid hid, hnull]
    · right
      rw [String.ofList_toList, takeWhile_eq_upTo, takeWhile_eq_upTo, upTo_upTo, upTo_upTo] at hpairs
      exact findDocumentExpression_eq he htx htid hid hnull hpairs
  · intro hall
    have hself : upTo ['\x00'] (exprOf c.rowfilter).toList = (exprOf c.rowfilter).toList := by
      rw [upTo_eq_self_iff]
      intro d hd hmem
      rw [List.mem_singleton] at hmem
      exact hall d hd (by simp [hmem])
    have hbar : '|' ∉ upTo ['\x00'] (exprOf c.rowfilter).toList := by
      rw [hself]
      exact fun hmem => hall _ hmem (by simp)
    have hpairs := pairsOf_field hname hbar
    rw [String.ofList_toList] at hpairs
    rw [findDocumentExpression_eq he htx htid hid hnull hpairs]
    simp

/-- The number of a command and the id of its template, in front of its expression. -/
def front (number templateId : String) : List Char :=
  number.toList ++ ' ' :: (templateId.toList ++ [' '])

theorem front_append (number templateId : String) (cs : List Char) :
    front number templateId ++ cs = number.toList ++ ' ' :: (templateId.toList ++ ' ' :: cs) := by
  simp [front]

/-- An id that stays in one piece. -/
def Identifier (s : String) : Prop := ∀ d ∈ s.toList, d ∉ [' ', ',', ':', '|', '\x00']

theorem identifier_number : ∀ number ∈ ["5", "8"], Identifier number := by
  unfold Identifier
  decide

theorem notMem_front {number templateId : String} (hnumber : number ∈ ["5", "8"])
    (hid : Identifier templateId) {d : Char} (hd : d ∈ [',', ':', '|', '\x00']) :
    d ∉ front number templateId := by
  have hspecial : d ∈ [' ', ',', ':', '|', '\x00'] := List.mem_cons_of_mem _ hd
  intro hmem
  rw [front, List.mem_append, List.mem_cons, List.mem_append, List.mem_singleton] at hmem
  rcases hmem with hmem | rfl | hmem | rfl
  · exact identifier_number number hnumber d hmem hspecial
  · exact absurd hd (by decide)
  · exact hid d hmem hspecial
  · exact absurd hd (by decide)

/-- The text of a PUT or a DELETE around its expression. -/
theorem Call.chars_expr (h : c.httpMethod = "PUT" ∨ c.httpMethod = "DELETE") :
    ∃ number rest, number ∈ ["5", "8"] ∧
      c.chars E = front number c.templateId ++ ((exprOf c.rowfilter).toList ++ rest) ∧
      (rest = [] ∨ ∃ s, rest = ' ' :: (E.encode s).toList) := by
  have hother : "PUT" ≠ "POST" ∧ "DELETE" ≠ "POST" ∧ "DELETE" ≠ "PUT" := by decide
  rw [chars_eq]
  rcases h with h | h
  · rw [h, if_neg hother.1, if_pos rfl]
    exact ⟨"5", ' ' :: (E.encode c.rowset).toList, by simp, by simp [front], .inr ⟨_, rfl⟩⟩
  · rw [h, if_neg hother.2.1, if_neg hother.2.2]
    exact ⟨"8", [], by simp, by simp [front], .inl rfl⟩

theorem cString_cString (s : String) : cString (cString s) = cString s := by
  unfold cString
  rw [String.toList_ofList, takeWhile_of_notMem]
  intro hmem
  simpa using List.mem_takeWhile_imp hmem

theorem delivered_cString (e : Envelope) (transactionId stateChangeCmds : String) :
    delivered e transactionId (cString stateChangeCmds) =
      delivered e transactionId stateChangeCmds := by
  rw [delivered, delivered, processStateChangeCmds, processStateChangeCmds, cString_cString]

theorem split_decodeDelimiters {d : Char} (h : d ∉ ['%', '3', 'A', '7', 'C', ':', '|'])
    (cs : List Char) : split d (String.ofList (decodeDelimiters cs)) =
      (cs.splitOn d).map fun piece => String.ofList (decodeDelimiters piece) := by
  rw [split, String.toList_ofList, splitOn_decodeDelimiters h, List.map_map]
  rfl

/-- The first command in a text of commands, and its first three words. -/
theorem first_command {number templateId : String} (hnumber : number ∈ ["5", "8"])
    (hid : Identifier templateId) (cs : List Char) :
    ∃ command commands, (split ',' (String.ofList (decodeDelimiters
        (front number templateId ++ cs)))).map (split ' ') = command :: commands ∧
      ∃ w w' words,
        command = w :: w' :: String.ofList (decodeDelimiters (upTo [' ', ','] cs)) :: words := by
  have hspace : ' ' ∉ number.toList ∧ ' ' ∉ templateId.toList :=
    ⟨fun hmem => identifier_number number hnumber _ hmem (by simp), fun hmem => hid _ hmem (by simp)⟩
  rcases splitOn_eq_cons ',' (front number templateId ++ cs) with ⟨commands, hcommands⟩
  rcases splitOn_eq_cons ' ' (upTo [','] cs) with ⟨words, hwords⟩
  rw [split_decodeDelimiters (by decide), hcommands,
    takeWhile_append (notMem_front hnumber hid (by simp)), takeWhile_eq_upTo, front_append,
    List.map_cons, List.map_cons, split_decodeDelimiters (by decide),
    List.splitOn_append_cons_self_of_not_mem hspace.1,
    List.splitOn_append_cons_self_of_not_mem hspace.2, hwords, takeWhile_eq_upTo, upTo_upTo]
  exact ⟨_, _, rfl, _, _, _, rfl⟩

/-- What arrives of a PUT or DELETE that can be read: the third word of its command. -/
theorem head_delivered (he : e.IsPlain) (htx : Plain transactionId) (htid : Plain tenantid)
    {number templateId : String} (hnumber : number ∈ ["5", "8"]) (hid : Identifier templateId)
    {cs : List Char} (hnull : '\x00' ∉ cs) {others : List (String × String)}
    (h : pairsOf ("cmds".toList ++ ':' :: (front number templateId ++ cs)) =
      some (("cmds", String.ofList (decodeDelimiters
        (front number templateId ++ upTo [':', '|'] cs))) :: others)) :
    (delivered e transactionId (String.ofList (start tenantid ++
        (front number templateId ++ cs)))).head?.bind (·.command[2]?) =
      (stoll ((others.lookup "tm").getD (toString e.now))).map fun _ =>
        String.ofList (decodeDelimiters (upTo [' ', ',', ':', '|'] cs)) := by
  have hnull' : '\x00' ∉ front number templateId ++ cs :=
    fun hmem => (List.mem_append.mp hmem).elim (notMem_front hnumber hid (by simp)) hnull
  rcases delivered_of_some he htid htx hnull' h with ⟨fields, htid', hdelivered⟩
  -- the first command stands before the first comma
  rcases first_command hnumber hid (upTo [':', '|'] cs) with
    ⟨command, commands, hcommands, w, w', words, hwords⟩
  rw [upTo_upTo] at hwords
  rw [hdelivered, hcommands]
  cases stoll ((others.lookup "tm").getD (toString e.now)) with
  | none => rfl
  -- it has a number, so it gets a queue
  | some tm =>
      have hkeyed : (queueKey (CommandInfo.mk fields tm command)).isSome :=
        Keyed.isSome_queueKey ⟨_, _, hwords, .inl (by simp)⟩ htid'
      simp only [Option.map_some, Option.getD_some, List.map_cons]
      rw [List.takeWhile_cons, if_pos hkeyed, List.head?_cons, Option.bind_some, hwords]
      rfl

/-- The command of a PUT or DELETE, as the C string that is gossiped. -/
theorem arrivedExpression_change (htid : Plain tenantid) (hid : Identifier c.templateId)
    (h : c.httpMethod = "PUT" ∨ c.httpMethod = "DELETE") {number : String} {rest : List Char}
    (hnumber : number ∈ ["5", "8"])
    (hchars : c.chars E = front number c.templateId ++ ((exprOf c.rowfilter).toList ++ rest)) :
    arrivedExpression E e tenantid transactionId c =
      (delivered e transactionId (String.ofList (start tenantid ++ (front number c.templateId ++
        upTo ['\x00'] ((exprOf c.rowfilter).toList ++ rest))))).head?.bind (·.command[2]?) := by
  have hother : "PUT" ≠ "POST" ∧ "DELETE" ≠ "POST" ∧ "DELETE" ≠ "PUT" := by decide
  have hmethod : c.httpMethod ∈ ["POST", "PUT", "DELETE"] := by
    rcases h with h | h <;> simp [h]
  have hstart : '\x00' ∉ start tenantid := by
    have hall : '\x00' ∉ start tenantid ++ [] := null_notMem_start htid (by simp)
    rwa [List.append_nil] at hall
  -- the text is cut at the first null character, which can only be in the expression
  have htext : cString (c.execute E tenantid "").1 = String.ofList (start tenantid ++
      (front number c.templateId ++ upTo ['\x00'] ((exprOf c.rowfilter).toList ++ rest))) := by
    rw [cString, c.toList_execute hmethod, if_pos rfl, hchars, takeWhile_append hstart,
      takeWhile_append (notMem_front hnumber hid (by simp)), takeWhile_eq_upTo]
  -- no input is passed to `fetchDocument`
  have hinput : (c.execute E tenantid "").2 = none := by
    rcases h with h | h
    · rw [Call.execute, h, if_neg hother.1, if_pos rfl]
    · rw [Call.execute, h, if_neg hother.2.1, if_neg hother.2.2, if_pos rfl]
  rw [arrivedExpression]
  rcases hexecute : c.execute E tenantid "" with ⟨stateChangeCmds, input⟩
  rw [hexecute] at hinput htext
  dsimp only at hinput htext
  subst hinput
  dsimp only
  rw [← delivered_cString, htext]

/-- What arrives of a PUT or DELETE is the expression up to a reserved character. -/
theorem arrived_change (hE : ∀ s, Base64 (E.encode s)) (he : e.IsPlain)
    (htx : Plain transactionId) (htid : Plain tenantid) (hid : Identifier c.templateId)
    (h : c.httpMethod = "PUT" ∨ c.httpMethod = "DELETE") :
    (arrivedExpression E e tenantid transactionId c = none ∨
      arrivedExpression E e tenantid transactionId c = some (String.ofList
        (decodeDelimiters (upTo [' ', ',', ':', '|', '\x00'] (exprOf c.rowfilter).toList)))) ∧
      ((∀ d ∈ (exprOf c.rowfilter).toList, d ∉ [' ', ',', ':', '|', '\x00']) →
        arrivedExpression E e tenantid transactionId c ≠ none) := by
  rcases c.chars_expr (E := E) h with ⟨number, rest, hnumber, hchars, hrest⟩
  have hname : '|' ∉ "cmds".toList ∧ ':' ∉ "cmds".toList := by decide
  have hhead : ∀ d ∈ rest.head?, d ∈ [' ', ',', ':', '|', '\x00'] := by
    rcases hrest with rfl | ⟨s, rfl⟩
    · simp
    · simp
  rw [arrivedExpression_change htid hid h hnumber hchars, ← upTo_append_of_head hhead]
  generalize hcs : upTo ['\x00'] ((exprOf c.rowfilter).toList ++ rest) = cs
  have hnull : '\x00' ∉ cs := by
    rw [← hcs]
    intro hmem
    simpa using List.mem_takeWhile_imp hmem
  have hupTo : upTo [' ', ',', ':', '|', '\x00'] ((exprOf c.rowfilter).toList ++ rest) =
      upTo [' ', ',', ':', '|'] cs := by
    rw [← hcs, upTo_upTo]
    rfl
  have htake : ((front number c.templateId ++ cs).takeWhile (· ≠ '|')).takeWhile (· ≠ ':') =
      front number c.templateId ++ upTo [':', '|'] cs := by
    rw [takeWhile_append (notMem_front hnumber hid (by simp)),
      takeWhile_append (notMem_front hnumber hid (by simp)), takeWhile_eq_upTo, takeWhile_eq_upTo,
      upTo_upTo]
    rfl
  have hpairs := pairsOf_name hname (front number c.templateId ++ cs)
  rw [htake, String.ofList_toList] at hpairs
  rw [hupTo]
  constructor
  · rcases hpairs with hpairs | ⟨others, hpairs, -⟩
    · left
      rw [delivered_of_none he htid htx _ hpairs]
      · rfl
      · exact fun hmem => (List.mem_append.mp hmem).elim (notMem_front hnumber hid (by simp)) hnull
    · rw [head_delivered he htx htid hnumber hid hnull hpairs]
      -- it may bring a time as well, and only a number is read as one
      cases stoll ((others.lookup "tm").getD (toString e.now)) with
      | none => exact .inl rfl
      | some tm => exact .inr rfl
  · intro hall
    have hbar : '|' ∉ front number c.templateId ++ cs := by
      have hrest' : '|' ∉ rest := by
        rcases hrest with rfl | ⟨s, rfl⟩
        · simp
        · simp [(hE s).notMem_bar]
      rw [List.mem_append, ← hcs]
      rintro (hmem | hmem)
      · exact notMem_front hnumber hid (by simp) hmem
      · rcases List.mem_append.mp ((List.takeWhile_prefix _).subset hmem) with hmem | hmem
        · exact hall _ hmem (by simp)
        · exact hrest' hmem
    have hfield := pairsOf_field hname hbar
    rcases hpairs with hpairs | ⟨others, hpairs, -⟩
    · rw [hpairs] at hfield
      cases hfield
    -- there is no other field, and the node sets the time
    · have hothers : others = [] := by
        rw [hpairs] at hfield
        exact (List.cons.inj (Option.some.inj hfield)).2
      rw [head_delivered he htx htid hnumber hid hnull hpairs, hothers, List.lookup_nil,
        Option.getD_none, stoll_toString he.now]
      simp

/-- What arrives is the expression up to a reserved character, decoded. -/
theorem arrived_expression (hE : ∀ s, Base64 (E.encode s)) (he : e.IsPlain)
    (htx : Plain transactionId) (htid : Plain tenantid) (hid : Identifier c.templateId)
    (h : c.httpMethod ∈ ["GET", "PUT", "DELETE"]) :
    (arrivedExpression E e tenantid transactionId c = none ∨
      arrivedExpression E e tenantid transactionId c = some (String.ofList
        (decodeDelimiters (upTo (reserved c.httpMethod) (exprOf c.rowfilter).toList)))) ∧
      ((∀ d ∈ (exprOf c.rowfilter).toList, d ∉ reserved c.httpMethod) →
        arrivedExpression E e tenantid transactionId c ≠ none) := by
  have hother : "PUT" ≠ "GET" ∧ "DELETE" ≠ "GET" := by decide
  have hplain : Plain c.templateId :=
    ⟨fun hmem => hid _ hmem (by simp), fun hmem => hid _ hmem (by simp),
      fun hmem => hid _ hmem (by simp)⟩
  simp only [List.mem_cons, List.not_mem_nil, or_false] at h
  rcases h with h | h | h
  · rw [h, reserved, if_pos rfl]
    exact arrived_get he htx htid hplain h
  · rw [h, reserved, if_neg hother.1]
    exact arrived_change hE he htx htid hid (.inl h)
  · rw [h, reserved, if_neg hother.2]
    exact arrived_change hE he htx htid hid (.inr h)

/-- The expression arrives as it was built exactly when it has no reserved character and no
code of a delimiter. -/
theorem arrivedExpression_eq_iff (hE : ∀ s, Base64 (E.encode s)) (he : e.IsPlain)
    (htx : Plain transactionId) (htid : Plain tenantid) (hid : Identifier c.templateId)
    (h : c.httpMethod ∈ ["GET", "PUT", "DELETE"]) :
    arrivedExpression E e tenantid transactionId c = some (exprOf c.rowfilter) ↔
      (∀ d ∈ (exprOf c.rowfilter).toList, d ∉ reserved c.httpMethod) ∧
        Decoded (exprOf c.rowfilter).toList := by
  rcases arrived_expression hE he htx htid hid h with ⟨harrived, hsome⟩
  rw [← decodeDelimiters_upTo_iff]
  constructor
  · intro heq
    rcases harrived with hnone | harrived
    · rw [heq] at hnone
      cases hnone
    · rw [heq] at harrived
      have hlist := congrArg String.toList (Option.some.inj harrived)
      rw [String.toList_ofList] at hlist
      exact hlist.symm
  · intro hself
    rcases harrived with hnone | harrived
    · exact absurd hnone (hsome (decodeDelimiters_upTo_iff.mp hself).1)
    · rw [harrived, hself, String.ofList_toList]

end Arrived

/-- A row filter reaches the search unchanged, and the search has the tree that the row
filter denotes, exactly when no attribute and no value has a quote, a reserved character or a
code of a delimiter, and there is no `||`. -/
theorem filter_arrives_iff {E : Engine} (hE : ∀ s, Base64 (E.encode s)) {e : Envelope}
    (he : e.IsPlain) {tenantid transactionId : String} (htid : Plain tenantid)
    (htx : Plain transactionId) {c : Call} (hid : Identifier c.templateId)
    (hmethod : c.httpMethod ∈ ["GET", "PUT", "DELETE"]) {tree : TreeNode}
    (hfilter : IsRowFilter c.rowfilter tree) :
    (∃ expr, arrivedExpression E e tenantid transactionId c = some expr ∧
        expr = exprOf c.rowfilter ∧
        ∃ elements, getPostfixedExpressionOf expr = .ok elements ∧
          getExpressionTreeFrom elements = .ok tree) ↔
      ∀ current ∈ c.rowfilter,
        (∀ s, s ∈ current.attributeName ∨ s ∈ current.value → Transparent c.httpMethod s) ∧
          current.logicaloperator ≠ some "||" := by
  rcases hfilter.denotes with ⟨p, hdenotes⟩
  have harrived := arrivedExpression_eq_iff hE he htx htid hid hmethod
  have htext := toList_exprOf_eq c.rowfilter
  have htree := hdenotes.tree_iff
  have hreserved : (∀ d ∈ (tokensOf c.rowfilter).flatMap Token.text, d ∉ reserved c.httpMethod) ↔
      (∀ root, .operand root ∈ tokensOf c.rowfilter →
        ∀ d ∈ root.toList, d ∉ reserved c.httpMethod) ∧ .operator "|" ∉ tokensOf c.rowfilter := by
    apply hdenotes.reserved_iff
    · unfold reserved
      split <;> simp
    · unfold reserved
      split <;> simp
  rw [← htext, String.ofList_toList] at htree
  rw [htext, hreserved, hdenotes.decoded_iff, bar_mem_tokensOf hfilter] at harrived
  -- what arrives is one text, so both parts are about it
  have hproperty : (∃ expr, arrivedExpression E e tenantid transactionId c = some expr ∧
        expr = exprOf c.rowfilter ∧
        ∃ elements, getPostfixedExpressionOf expr = .ok elements ∧
          getExpressionTreeFrom elements = .ok tree) ↔
      arrivedExpression E e tenantid transactionId c = some (exprOf c.rowfilter) ∧
        ∃ elements, getPostfixedExpressionOf (exprOf c.rowfilter) = .ok elements ∧
          getExpressionTreeFrom elements = .ok tree := by
    constructor
    · rintro ⟨expr, hexpr, rfl, hread⟩
      exact ⟨hexpr, hread⟩
    · rintro ⟨hexpr, hread⟩
      exact ⟨_, hexpr, rfl, hread⟩
  rw [hproperty, harrived, htree]
  unfold Transparent
  constructor
  -- from the tokens to the entries
  · rintro ⟨⟨⟨hchars, hop⟩, hdecoded⟩, hquote⟩ current hcurrent
    refine ⟨fun s hs => ?_, fun hor => hop ⟨current, hcurrent, hor⟩⟩
    have hs' := operand_mem_tokensOf.mpr ⟨current, hcurrent, hs⟩
    refine ⟨fun d hd hmem => ?_, hdecoded s hs'⟩
    rcases List.mem_cons.mp hmem with rfl | hmem
    · exact hquote s hs' hd
    · exact hchars s hs' d hd hmem
  -- and back
  · intro hall
    have hoperand : ∀ root, .operand root ∈ tokensOf c.rowfilter →
        Transparent c.httpMethod root := by
      intro root hroot
      rcases operand_mem_tokensOf.mp hroot with ⟨current, hcurrent, hroot⟩
      exact (hall current hcurrent).1 root hroot
    refine ⟨⟨⟨fun root hroot d hd hmem => ?_, ?_⟩, fun root hroot => (hoperand root hroot).2⟩,
      fun root hroot hquote => (hoperand root hroot).1 _ hquote List.mem_cons_self⟩
    · exact (hoperand root hroot).1 d hd (List.mem_cons_of_mem _ hmem)
    · rintro ⟨current, hcurrent, hor⟩
      exact (hall current hcurrent).2 hor

namespace Sample

/-- A query for the documents with one time. -/
def atTime (time : String) : Call where
  httpMethod := "GET"
  entityType := "document"
  templateId := "7"
  rowfilter := [{ attributeName := "time", operator := "==", value := time }]

def timeTree (time : String) : TreeNode := .node "=" (.leaf "time") (.leaf time)

theorem isRowFilter_atTime (time : String) :
    IsRowFilter (atTime time).rowfilter (timeTree time) where
  logicaloperator := by simp [atTime]
  operator := by simp [atTime, comparisons]
  denotes := ⟨3, .comparison (by simp)⟩

theorem identifier_templateId : Identifier "7" := by
  unfold Identifier
  decide

/-- A query for the documents with a name and an address. -/
def byName : Call where
  httpMethod := "GET"
  entityType := "document"
  templateId := "7"
  rowfilter := [
    { attributeName := "name", operator := "==", value := "sparky" },
    { logicaloperator := "&&", attributeName := "email", operator := "==",
      value := "sparky@cool.com" }]

def nameTree : TreeNode :=
  .node "&" (.node "=" (.leaf "name") (.leaf "sparky"))
    (.node "=" (.leaf "email") (.leaf "sparky@cool.com"))

theorem isRowFilter_byName : IsRowFilter byName.rowfilter nameTree where
  logicaloperator := by simp [byName]
  operator := by simp [byName, comparisons]
  denotes := ⟨level "&", .connective (by simp) (.comparison (by simp)) (by decide)
    (.comparison (by simp)) (by decide)⟩

end Sample

/-- The two conditions arrive, connected. -/
theorem filter_arrives_byName :
    ∃ expr, arrivedExpression Sample.engine Sample.envelope "t" "x" Sample.byName = some expr ∧
      expr = exprOf Sample.byName.rowfilter ∧
      ∃ elements, getPostfixedExpressionOf expr = .ok elements ∧
        getExpressionTreeFrom elements = .ok Sample.nameTree := by
  have hplain : Plain "t" ∧ Plain "x" := by
    unfold Plain
    decide
  have htransparent : ∀ s ∈ ["name", "sparky", "email", "sparky@cool.com"], ∀ c ∈ s.toList,
      c ∉ '"' :: reserved "GET" ∧ c ≠ '%' := by
    decide
  refine (filter_arrives_iff (c := Sample.byName) Sample.base64_encode Sample.isPlain_envelope
    hplain.1 hplain.2 Sample.identifier_templateId List.mem_cons_self
    Sample.isRowFilter_byName).mpr ?_
  intro current hcurrent
  have hentries : current.logicaloperator ≠ some "||" ∧
      ∀ s, s ∈ current.attributeName ∨ s ∈ current.value →
        s ∈ ["name", "sparky", "email", "sparky@cool.com"] := by
    simp only [Sample.byName, List.mem_cons, List.not_mem_nil, or_false] at hcurrent
    rcases hcurrent with rfl | rfl <;> simp [eq_comm]
  refine ⟨fun s hs => ?_, hentries.1⟩
  have hs' := hentries.2 s hs
  exact ⟨fun c hc => (htransparent s hs' c hc).1,
    decoded_of_notMem fun hmem => (htransparent s hs' _ hmem).2 rfl⟩

/-- A time with minutes arrives up to its colon. -/
theorem filter_cut_at_colon :
    (∀ s, Base64 (Sample.engine.encode s)) ∧ Sample.envelope.IsPlain ∧ Plain "t" ∧ Plain "x" ∧
      IsRowFilter (Sample.atTime "10:30").rowfilter (Sample.timeTree "10:30") ∧
      arrivedExpression Sample.engine Sample.envelope "t" "x" (Sample.atTime "10:30") =
        some "\"time\"=\"10" ∧
      ¬ ∃ expr, arrivedExpression Sample.engine Sample.envelope "t" "x" (Sample.atTime "10:30") =
          some expr ∧ expr = exprOf (Sample.atTime "10:30").rowfilter ∧
        ∃ elements, getPostfixedExpressionOf expr = .ok elements ∧
          getExpressionTreeFrom elements = .ok (Sample.timeTree "10:30") := by
  have hplain : Plain "t" ∧ Plain "x" := by
    unfold Plain
    decide
  have harrived : arrivedExpression Sample.engine Sample.envelope "t" "x" (Sample.atTime "10:30") =
      some "\"time\"=\"10" := by
    decide +kernel
  refine ⟨Sample.base64_encode, Sample.isPlain_envelope, hplain.1, hplain.2,
    Sample.isRowFilter_atTime "10:30", harrived, ?_⟩
  rintro ⟨expr, hexpr, -, elements, helements, -⟩
  rw [harrived] at hexpr
  cases hexpr
  -- the quote is not closed
  have hfault : getPostfixedExpressionOf "\"time\"=\"10" = .error .outOfRange := by
    decide +kernel
  rw [hfault] at helements
  cases helements

end DecentralizedCloud.Compute
