import DecentralizedCloud.Storage.Commands
import DecentralizedCloud.Storage.Comparison

/-!
# Evaluating a filter

A filter is a tree of comparisons and connectives over the fields of documents.
A comparison is answered from the index of its field, where the entity has one,
and else by sorting the whole collection by the field and cutting a slice out of
it. The connectives work on the answers as sets.

`Condition` is what such a tree says about a document. `Query.lean` holds the
model and what one comparison comes to; soundness and completeness of the
answers have modules of their own.
-/

namespace DecentralizedCloud.Storage

open Evaluation

/-! ## Expression trees -/

/-- A node has both children: the parser links no other ones. -/
inductive TreeNode where
  | leaf (root : String)
  | node (root : String) (left right : TreeNode)
deriving DecidableEq, Repr

def Comparison.ofSymbol (root : String) : Option Comparison :=
  if root = "=" then some .equal
  else if root = "<>" then some .notEqual
  else if root = ">" then some .greater
  else if root = ">=" then some .greaterEqual
  else if root = "<=" then some .lessEqual
  else if root = "<" then some .less
  else none

@[simp] theorem Comparison.ofSymbol_symbol (op : Comparison) : ofSymbol op.symbol = some op := by
  cases op <;> decide

/-- What a filter says: comparisons of a field with a value, and connectives. -/
inductive Condition where
  | compare (op : Comparison) (operand value : String)
  | and (left right : Condition)
  | or (left right : Condition)
deriving DecidableEq, Repr

namespace Condition

def tree : Condition → TreeNode
  | compare op operand value => .node op.symbol (.leaf operand) (.leaf value)
  | .and left right => .node "&" left.tree right.tree
  | .or left right => .node "|" left.tree right.tree

/-- The document satisfies the condition; a missing field reads as `null`. -/
def Sat (doc : Json) : Condition → Prop
  | compare op operand value => op.Holds (field operand doc) (.str value)
  | .and left right => left.Sat doc ∧ right.Sat doc
  | .or left right => left.Sat doc ∨ right.Sat doc

def decideSat (doc : Json) : (condition : Condition) → Decidable (condition.Sat doc)
  | compare op operand value =>
      inferInstanceAs (Decidable (op.Holds (field operand doc) (.str value)))
  | .and left right =>
      haveI := left.decideSat doc
      haveI := right.decideSat doc
      inferInstanceAs (Decidable (left.Sat doc ∧ right.Sat doc))
  | .or left right =>
      haveI := left.decideSat doc
      haveI := right.decideSat doc
      inferInstanceAs (Decidable (left.Sat doc ∨ right.Sat doc))

instance (doc : Json) (condition : Condition) : Decidable (condition.Sat doc) :=
  condition.decideSat doc

/-- Whether a document satisfies a condition depends on its fields only. -/
theorem sat_iff_of_sameFields {doc doc' : Json} (h : SameFields doc doc') (condition : Condition) :
    condition.Sat doc ↔ condition.Sat doc' := by
  induction condition with
  | compare op operand value => rw [Sat, Sat, h.field]
  | and left right ihl ihr => exact and_congr ihl ihr
  | or left right ihl ihr => exact or_congr ihl ihr

end Condition

/-! ## Edges and documents -/

/-- A `std::map` of names and hashes, in the order of the names. -/
abbrev OrderedEdgeMap := List (String × String)

/-- `insert`: a name that is already there keeps its hash. -/
def OrderedEdgeMap.insert (name hash : String) : OrderedEdgeMap → OrderedEdgeMap
  | [] => [(name, hash)]
  | (n, h) :: edges =>
      if name < n then (name, hash) :: (n, h) :: edges
      else if name = n then (n, h) :: edges
      else (n, h) :: OrderedEdgeMap.insert name hash edges

variable (S : Services) (sorts : (operand : String) → KeySort (field operand))

/-- The links of an object; an exception is logged, and there are none then. -/
def getOrderedEdgeNamesOf (nodeHash : String) : OrderedEdgeMap :=
  ((S.objectLinks nodeHash).getD []).foldl (fun edges link => edges.insert link.1 link.2) []

def fetchDocument (hash : String) : Evaluation Json :=
  ofOption (S.parse ((S.objectData hash).getD ""))

def fetchDocuments : List String → Evaluation (List Json)
  | [] => .done []
  | hash :: hashes => do
      let doc ← fetchDocument S hash
      let docs ← fetchDocuments hashes
      return doc :: docs

/-- The documents under the index "id". Looking the index up enters it. -/
def fetchDocumentsFromDefaultIndex (indexes : FieldValueMap) :
    Evaluation (FieldValueMap × List Json) := do
  let _values := getOrderedEdgeNamesOf S (indexes.get "id")
  let _values := getOrderedEdgeNamesOf S ((_values.lookup "__").getD "")
  let docs ← fetchDocuments S (_values.map (·.2))
  return (indexes.insert "id" "", docs)

/-- The collection that is searched: `_docs`, and for `null` all documents of the entity. -/
def collection (_docs : Option (List Json)) (indexes : FieldValueMap) :
    Evaluation (FieldValueMap × List Json) :=
  match _docs with
  | some docs => .done (indexes, docs)
  | none => fetchDocumentsFromDefaultIndex S indexes

/-- The comparisons of the sort read the field of every document, unless there is none to
compare. -/
def sortDocumentsByOperand (_docs : Option (List Json)) (operand : String)
    (indexes : FieldValueMap) : Evaluation (FieldValueMap × List Json) := do
  let (indexes, docs) ← collection S _docs indexes
  if docs.length ≤ 1 ∨ ∀ doc ∈ docs, (enterField operand doc).isSome then
    .done (indexes, (sorts operand).sort docs)
  else .raised

/-! ## Sets of documents -/

/-- `std::set::insert` -/
def insertDocument (doc : Json) : List Json → List Json
  | [] => [doc]
  | d :: docs =>
      if doc < d then doc :: d :: docs
      else if doc = d then d :: docs
      else d :: insertDocument doc docs

/-- Texts have no elements that could be collected. -/
def union_ : Json → Json → Evaluation Json
  | .arr xs, .arr ys => .done (.arr ((xs ++ ys).foldl (fun hs doc => insertDocument doc hs) []))
  | _, _ => .raised

def intersection : Json → Json → Evaluation Json
  | .arr xs, .arr ys => .done (.arr (ys.filter (· ∈ xs)))
  | _, _ => .raised

/-! ## Evaluation -/

/-- The conversion of a JSON value to a `std::string`. -/
def asString : Json → Evaluation String
  | .str s => .done s
  | _ => .raised

/-- A comparison with the values of an index. -/
def compareIndexed (op : Comparison) (_values : OrderedEdgeMap) (value : String) :
    Evaluation Json :=
  let fetch := fun edges : OrderedEdgeMap => do
    let docs ← fetchDocuments S (edges.map (·.2))
    return Json.arr docs
  -- from `lower_bound` and from `upper_bound` on
  let lower := _values.dropWhile (·.1 < value)
  let upper := _values.dropWhile (·.1 ≤ value)
  let below := _values.takeWhile (·.1 < value)
  match op with
  | .equal =>
      match _values.lookup value with
      | some hash => fetch [(value, hash)]
      | none => .done (.str "")
  | .notEqual => if lower = [] then .done (.str "") else fetch (below ++ upper)
  | .greater => if upper = [] then .done (.str "") else fetch upper
  | .greaterEqual => if lower = [] then .done (.str "") else fetch lower
  | .lessEqual => if lower = [] then .done (.str "") else fetch (below ++ lower.take 1)
  | .less => if lower = [] then .done (.str "") else fetch below

/-- A comparison: from the index of the field, or by a search through the sorted collection. -/
def evaluateComparison (fuel : Nat) (_docs : Option (List Json)) (op : Comparison)
    (indexes : FieldValueMap) (left right : Json) : Evaluation (FieldValueMap × Json) := do
  let operand ← asString left
  match indexes.at? operand with
  | some hash => do
      let _values := getOrderedEdgeNamesOf S hash
      -- only an equality looks below the edge "__" of the unique index
      let _values := if op = .equal ∧ operand = "id" then
        getOrderedEdgeNamesOf S ((_values.lookup "__").getD "") else _values
      let value ← asString right
      let _rs ← compareIndexed S op _values value
      return (indexes, _rs)
  | none => do
      let (indexes, _rs) ← sortDocumentsByOperand S sorts _docs operand indexes
      if _rs = [] then return (indexes, .arr [])
      else
        let value ← asString right
        let _rs ← op.filter operand value fuel _rs
        return (indexes, .arr _rs)

/-- The indexes as the evaluation leaves them, and its result. -/
def evaluateExpression (fuel : Nat) (_docs : Option (List Json)) :
    TreeNode → FieldValueMap → Evaluation (FieldValueMap × Json)
  | .leaf root, indexes => .done (indexes, .str root)
  | .node root l r, indexes => do
      let (indexes, left) ← evaluateExpression fuel _docs l indexes
      let (indexes, right) ← evaluateExpression fuel _docs r indexes
      match Comparison.ofSymbol root with
      | some op => evaluateComparison S sorts fuel _docs op indexes left right
      | none =>
          if root = "|" then
            if left.isEmpty || right.isEmpty then
              return (indexes, if left.isEmpty then right else left)
            else
              let _rs ← union_ left right
              return (indexes, _rs)
          else if root = "&" then
            if left.isEmpty || right.isEmpty then return (indexes, .arr [])
            else
              let _rs ← intersection left right
              return (indexes, _rs)
          else return (indexes, .arr [])

/-- More fuel changes no value of a comparison. -/
theorem evaluateComparison_refines {fuel : Nat} {_docs : Option (List Json)} {op : Comparison}
    {indexes : FieldValueMap} {left right : Json} :
    Refines (evaluateComparison S sorts fuel _docs op indexes left right)
      (evaluateComparison S sorts (fuel + 1) _docs op indexes left right) := by
  unfold evaluateComparison
  apply Refines.bind (.refl _)
  intro operand
  split
  · exact .refl _
  · apply Refines.bind (.refl _)
    intro _
    dsimp only
    split
    · exact .refl _
    · apply Refines.bind (.refl _)
      intro value
      exact Refines.bind op.filter_refines fun _ => .refl _

/-- More fuel does not change an answer. -/
theorem evaluateExpression_refines {fuel : Nat} {_docs : Option (List Json)} (filter : TreeNode)
    {indexes : FieldValueMap} :
    Refines (evaluateExpression S sorts fuel _docs filter indexes)
      (evaluateExpression S sorts (fuel + 1) _docs filter indexes) := by
  induction filter generalizing indexes with
  | leaf root => exact .refl _
  | node root l r ihl ihr =>
      unfold evaluateExpression
      apply Refines.bind ihl
      intro _
      apply Refines.bind ihr
      intro _
      dsimp only
      split
      · exact evaluateComparison_refines S sorts
      · exact .refl _

/-- The evaluation of a condition ends with the documents `rs`. -/
def Answered (_docs : Option (List Json)) (indexes : FieldValueMap) (condition : Condition)
    (rs : List Json) : Prop :=
  Returns (fun fuel => evaluateExpression S sorts fuel _docs condition.tree indexes)
    (indexes, .arr rs)

/-! ## One comparison of a field without an index -/

/-- An entity whose documents are `docs`, with the indexes `indexes`; positions in it are
numbers of type `int`. -/
structure Entity (_docs : Option (List Json)) (indexes : FieldValueMap) (docs : List Json) :
    Prop where
  collection : collection S _docs indexes = .done (indexes, docs)
  documents : ∀ doc ∈ docs, IsDocument doc
  length : docs.length < 2 ^ 31

variable {S} {_docs : Option (List Json)} {indexes : FieldValueMap} {docs : List Json}

theorem answered_of_done {sorts : (operand : String) → KeySort (field operand)}
    {condition : Condition} {rs : List Json} {fuel : Nat}
    (h : evaluateExpression S sorts fuel _docs condition.tree indexes =
      .done (indexes, .arr rs)) : Answered S sorts _docs indexes condition rs := by
  apply Returns.of_done (n := fuel)
  · exact h
  · intro fuel
    exact evaluateExpression_refines S sorts condition.tree

theorem sortDocumentsByOperand_eq (hentity : Entity S _docs indexes docs) (operand : String) :
    sortDocumentsByOperand S sorts _docs operand indexes =
      .done (indexes, (sorts operand).sort docs) := by
  have hfields : ∀ doc ∈ docs, (enterField operand doc).isSome := by
    intro doc hdoc
    rcases exists_enterField operand (hentity.documents doc hdoc) with ⟨doc', henter, -⟩
    rw [henter]
    rfl
  rw [sortDocumentsByOperand, hentity.collection, done_bind]
  exact if_pos (.inr hfields)

/-- What the filters need to know of the sorted collection. -/
theorem sorted_collection (hentity : Entity S _docs indexes docs) (hne : docs ≠ [])
    (operand : String) :
    (∀ doc ∈ (sorts operand).sort docs, IsDocument doc) ∧
      ((sorts operand).sort docs).length = docs.length ∧ (sorts operand).sort docs ≠ [] := by
  have hperm := (sorts operand).perm docs
  refine ⟨fun doc hdoc => hentity.documents doc (hperm.mem_iff.mp hdoc), hperm.length_eq, ?_⟩
  intro h
  rw [h] at hperm
  exact hne hperm.symm.eq_nil

/-- A comparison is the operator's filter over the sorted collection. -/
theorem evaluateExpression_compare (hentity : Entity S _docs indexes docs) (hne : docs ≠ [])
    (op : Comparison) {operand : String} (hindex : indexes.at? operand = none) (value : String)
    (fuel : Nat) :
    evaluateExpression S sorts fuel _docs (Condition.compare op operand value).tree indexes =
      (op.filter operand value fuel ((sorts operand).sort docs) >>= fun _rs =>
        .done (indexes, .arr _rs)) := by
  have hsorted := (sorted_collection sorts hentity hne operand).2.2
  simp [Condition.tree, evaluateExpression, evaluateComparison, asString, hindex,
    sortDocumentsByOperand_eq sorts hentity, hsorted]

section Compare

variable (hentity : Entity S _docs indexes docs) (hne : docs ≠ []) {operand : String}
  (hindex : indexes.at? operand = none) (value : String) (op : Comparison) {fuel : Nat}

include hentity hne hindex

theorem evaluate_of_occurs (hfuel : docs.length < fuel) (h : Occurs operand value docs) :
    ∃ ds rs, evaluateExpression S sorts fuel _docs (Condition.compare op operand value).tree
        indexes = .done (indexes, .arr rs) ∧
      SameDocuments ds rs ∧ Answers operand value docs ds op := by
  have hperm := (sorts operand).perm docs
  rcases sorted_collection sorts hentity hne operand with ⟨hdocs, hlength, hne'⟩
  have hoccurs : Occurs operand value ((sorts operand).sort docs) := by
    rcases h with ⟨doc, hdoc, hvalue⟩
    exact ⟨doc, hperm.mem_iff.mpr hdoc, hvalue⟩
  rcases filter_of_occurs operand value hdocs (hlength ▸ hentity.length) hne'
    ((sorts operand).sorted docs) op (hlength ▸ hfuel) hoccurs with ⟨ds, rs, hfilter, hds, hanswer⟩
  refine ⟨ds, rs, ?_, hds, hanswer.of_perm operand value hperm⟩
  rw [evaluateExpression_compare sorts hentity hne op hindex, hfilter, done_bind]

theorem evaluate_of_absent (hfuel : docs.length < fuel) (hbelow : ¬Below operand value docs)
    (h : ¬Occurs operand value docs) :
    evaluateExpression S sorts fuel _docs (Condition.compare op operand value).tree indexes =
      .done (indexes, .arr []) := by
  have hperm := (sorts operand).perm docs
  rcases sorted_collection sorts hentity hne operand with ⟨hdocs, hlength, hne'⟩
  have hbelow' : ¬Below operand value ((sorts operand).sort docs) :=
    fun h => hbelow fun doc hdoc => h doc (hperm.mem_iff.mpr hdoc)
  have habsent : ¬Occurs operand value ((sorts operand).sort docs) := by
    rintro ⟨doc, hdoc, hvalue⟩
    exact h ⟨doc, hperm.mem_iff.mp hdoc, hvalue⟩
  rw [evaluateExpression_compare sorts hentity hne op hindex,
    filter_of_absent operand value hdocs (hlength ▸ hentity.length) hne'
      ((sorts operand).sorted docs) op (hlength ▸ hfuel) hbelow' habsent, done_bind]

theorem evaluate_of_below (hbelow : Below operand value docs) :
    evaluateExpression S sorts fuel _docs (Condition.compare op operand value).tree indexes =
      .pending := by
  have hperm := (sorts operand).perm docs
  rcases sorted_collection sorts hentity hne operand with ⟨hdocs, hlength, hne'⟩
  have hbelow' : Below operand value ((sorts operand).sort docs) :=
    fun doc hdoc => hbelow doc (hperm.mem_iff.mp hdoc)
  rw [evaluateExpression_compare sorts hentity hne op hindex,
    filter_of_below operand value hdocs (hlength ▸ hentity.length) hne'
      ((sorts operand).sorted docs) op hbelow', pending_bind]

end Compare

end DecentralizedCloud.Storage
