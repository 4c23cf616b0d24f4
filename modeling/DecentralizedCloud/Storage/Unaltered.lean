import DecentralizedCloud.Storage.IdIndex

/-!
# Queries and the stored documents

A query should return documents as they are stored. The binary search reads its
positions with the operator that enters what is missing, so that a document without
the field is returned with a `null` for it, once the search has been there and its
position lies in the slice that is cut out.

A missing field reads as `null`, which is below all texts. So only the comparisons
that reach below the value return such documents, and they return all of them
(`stored_iff`).
-/

namespace DecentralizedCloud.Storage

open Evaluation

/-! ## Filters -/

/-- The filter has the property, and so have all filters in it. -/
def TreeNode.All (p : TreeNode → Prop) : TreeNode → Prop
  | .leaf root => p (.leaf root)
  | .node root l r => p (.node root l r) ∧ l.All p ∧ r.All p

theorem TreeNode.All.self {p : TreeNode → Prop} {filter : TreeNode} (h : filter.All p) :
    p filter := by
  cases filter with
  | leaf => exact h
  | node => exact h.1

theorem TreeNode.All.imp {p q : TreeNode → Prop} (hpq : ∀ filter, p filter → q filter)
    {filter : TreeNode} (h : filter.All p) : filter.All q := by
  induction filter with
  | leaf root => exact hpq _ h
  | node root l r ihl ihr =>
      rcases h with ⟨hnode, hl, hr⟩
      exact ⟨hpq _ hnode, ihl hl, ihr hr⟩

section Collections

variable (S : Services) (sorts : (operand : String) → KeySort (field operand))
  (_docs : Option (List Json)) (indexes : FieldValueMap) (docs : List Json)

/-- The evaluation of the filter ends with the answer. -/
def EndsWith (filter : TreeNode) (answer : Json) : Prop :=
  ∃ indexes', Returns (fun fuel => evaluateExpression S sorts fuel _docs filter indexes)
    (indexes', answer)

/-- Whatever the filter finds is a document of the collection. -/
def ReturnsStored (filter : TreeNode) : Prop :=
  ∀ answer, EndsWith S sorts _docs indexes filter answer → ∀ doc ∈ found answer, doc ∈ docs

/-- An update by the filter writes whatever it finds back with fields of one document of the
collection and of the payload only. -/
def WritesBack (payload : String) (filter : TreeNode) : Prop :=
  ∀ answer, EndsWith S sorts _docs indexes filter answer → ∀ doc ∈ found answer, ∀ text,
    changedText S payload .update doc = some text →
    ∃ old ∈ docs, ∃ written, S.parse text = some written ∧
      ∀ key value, written.get? key = some value →
        old.get? key = some value ∨ ((S.parse payload).bind fun j => j.get? key) = some value

/-- The links of the indexes lead to documents of the collection, if to any. -/
def Indexed : Prop :=
  ∀ {operand hash name target doc}, indexes.at? operand = some hash →
    ((name, target) ∈ getOrderedEdgeNamesOf S hash ∨ operand = "id" ∧ (name, target) ∈
      getOrderedEdgeNamesOf S (((getOrderedEdgeNamesOf S hash).lookup "__").getD "")) →
    fetchDocument S target = .done doc → doc ∈ docs

end Collections

/-- The comparison asks for documents below the value. -/
def Comparison.ReachesBelow : Comparison → Prop
  | notEqual | less | lessEqual => True
  | equal | greaterEqual | greater => False

/-- A comparison that reaches below the value reads no document without the field, or only such
as are stored with the field entered as well. -/
def Comparison.SparesRead (op : Comparison) (operand value : String) (docs sorted : List Json) :
    Prop :=
  op.ReachesBelow → ∀ i ∈ op.positions operand value sorted, ∀ doc, sorted[i]? = some doc →
    doc.get? operand = none → ∃ doc' ∈ docs, enterField operand doc = some doc'

/-- Where the filter is a comparison of a field without an index, with a value that occurs, it
spares the documents that its searches read. -/
def Spared (S : Services) (sorts : (operand : String) → KeySort (field operand))
    (_docs : Option (List Json)) (indexes : FieldValueMap) (docs : List Json) : TreeNode → Prop
  | .leaf _ => True
  | .node root l r => ∀ op operand value, Comparison.ofSymbol root = some op →
      EndsWith S sorts _docs indexes l (.str operand) →
      EndsWith S sorts _docs indexes r (.str value) → indexes.at? operand = none →
      Occurs operand value docs → op.SparesRead operand value docs ((sorts operand).sort docs)

/-! ## Slices -/

section Slices

variable {op : Comparison} {operand value : String} {docs sorted : List Json} {lower upper : Nat}

/-- Below the first position of the value, the slice of a comparison has all or nothing. -/
theorem exists_of_mem_slice (hle : lower ≤ upper) {doc : Json}
    (h : doc ∈ op.slice lower upper docs) :
    ∃ i, docs[i]? = some doc ∧ (op.ReachesBelow ∨ lower ≤ i) := by
  -- from `lower` on
  have hdrop : ∀ {n}, lower ≤ n → doc ∈ docs.drop n →
      ∃ i, docs[i]? = some doc ∧ (op.ReachesBelow ∨ lower ≤ i) := by
    intro n hn hdoc
    rcases List.mem_iff_getElem?.mp hdoc with ⟨i, hi⟩
    rw [List.getElem?_drop] at hi
    exact ⟨n + i, hi, .inr (by omega)⟩
  -- an operator that reaches below may have any position
  have hall : op.ReachesBelow → doc ∈ docs →
      ∃ i, docs[i]? = some doc ∧ (op.ReachesBelow ∨ lower ≤ i) := by
    intro hbelow hdoc
    rcases List.mem_iff_getElem?.mp hdoc with ⟨i, hi⟩
    exact ⟨i, hi, .inl hbelow⟩
  cases op with
  | less | lessEqual => exact hall trivial (List.mem_of_mem_take h)
  | notEqual =>
      rcases List.mem_append.mp h with hdoc | hdoc
      · exact hall trivial (List.mem_of_mem_take hdoc)
      · exact hall trivial (List.mem_of_mem_drop hdoc)
  | equal => exact hdrop (Nat.le_refl lower) (List.mem_of_mem_take h)
  | greaterEqual => exact hdrop hle h
  -- `>` takes nothing, or what is behind `upper`
  | greater =>
      unfold Comparison.slice at h
      dsimp only at h
      split at h
      · cases h
      · exact hdrop hle h

theorem mem_slice_of_lt (hbelow : op.ReachesBelow) (hle : lower ≤ upper) {i : Nat} (hi : i < lower)
    {doc : Json} (hdoc : docs[i]? = some doc) : doc ∈ op.slice lower upper docs := by
  have htake : ∀ {n}, i < n → doc ∈ docs.take n := by
    intro n hn
    apply List.mem_of_getElem? (i := i)
    rw [List.getElem?_take_of_lt hn, hdoc]
  cases op with
  | less => exact htake hi
  | lessEqual => exact htake (by omega)
  | notEqual => exact List.mem_append_left _ (htake hi)
  | equal | greaterEqual | greater => exact hbelow.elim

/-- The slice has stored documents only if and only if the comparison spares what it reads. -/
theorem slice_stored_iff (hdocs : ∀ doc ∈ sorted, IsDocument doc)
    (hsorted : sorted.Pairwise fun a b => field operand a ≤ field operand b)
    (hmem : ∀ doc, doc ∈ sorted ↔ doc ∈ docs)
    (hisFirst : Bisect.IsFirst (keyAt operand sorted) (.str value) lower)
    (hisLast : Bisect.IsLast (keyAt operand sorted) (.str value) (sorted.length - 1) upper) :
    (∀ doc ∈ op.slice lower upper (entered operand sorted (op.positions operand value sorted)),
      doc ∈ docs) ↔ op.SparesRead operand value docs sorted := by
  have hle : lower ≤ upper := by
    by_contra hlt
    exact (hisFirst.2 upper (by omega)).ne hisLast.1.2
  -- what lacks the field comes before the value
  have hlacking : ∀ {i doc}, sorted[i]? = some doc → doc.get? operand = none → i < lower := by
    intro i doc hdoc hnone
    rcases List.getElem?_eq_some_iff.mp hdoc with ⟨hi, rfl⟩
    by_contra hge
    have hbehind := keyAt_ascending operand hsorted lower i (by omega) (by omega)
    rw [hisFirst.1, keyAt_eq operand hi, field, hnone] at hbehind
    exact absurd hbehind (by
      rw [not_le, Option.getD_none, Json.lt_iff_order]
      rfl)
  constructor
  · intro hstored hbelow i hi doc hdoc hnone
    rcases List.getElem?_eq_some_iff.mp hdoc with ⟨hlt, rfl⟩
    rcases exists_enterField operand (hdocs _ (List.getElem_mem hlt)) with ⟨doc', henter, -⟩
    refine ⟨doc', hstored doc' ?_, henter⟩
    apply mem_slice_of_lt hbelow hle (hlacking hdoc hnone)
    rw [getElem?_entered_of_lt operand _ hlt henter, if_pos hi]
  · intro hspares doc hdoc
    rcases exists_of_mem_slice hle hdoc with ⟨i, hi, hplace⟩
    have hlt : i < sorted.length := by
      rw [← length_entered operand sorted]
      exact (List.getElem?_eq_some_iff.mp hi).1
    have hget := List.getElem?_eq_getElem hlt
    rcases exists_enterField operand (hdocs _ (List.getElem_mem hlt)) with ⟨doc', henter, -⟩
    rw [getElem?_entered_of_lt operand _ hlt henter, Option.some.injEq] at hi
    subst hi
    -- only what a search has read may differ from what is stored
    by_cases hread : i ∈ op.positions operand value sorted
    · rw [if_pos hread]
      cases hfield : sorted[i].get? operand with
      | none =>
          rcases hplace with hbelow | hge
          · rcases hspares hbelow i hread _ hget hfield with ⟨doc'', hdoc'', henter'⟩
            rw [henter] at henter'
            cases henter'
            exact hdoc''
          · exact absurd (hlacking hget hfield) (by omega)
      | some v =>
          rw [enterField_of_present operand hfield, Option.some.injEq] at henter
          rw [← henter]
          exact (hmem _).mp (List.getElem_mem hlt)
    · rw [if_neg hread]
      exact (hmem _).mp (List.getElem_mem hlt)

end Slices

/-- Documents that all have the field are spared. -/
theorem sparesRead_of_present {op : Comparison} {operand value : String} {docs sorted : List Json}
    (h : ∀ doc ∈ sorted, (doc.get? operand).isSome = true) :
    op.SparesRead operand value docs sorted := by
  intro _ i _ doc hdoc hnone
  have hsome := h doc (List.mem_of_getElem? hdoc)
  rw [hnone] at hsome
  cases hsome

/-! ## Entities of a store -/

/-- The documents of a readable entity are its collection. -/
theorem Readable.collected {S : Services} {contents : String → Option Contents}
    (hS : S.Lawful contents) {root : String} {documents : String → Option String}
    (h : Readable S contents root documents) (hcollection : S.parse "collection" = none) :
    ∃ docs, Indexed S (edgesOf S root) docs ∧
      (docs.length < 2 ^ 31 → Entity S none (edgesOf S root) docs) := by
  rcases h.scan hS with ⟨docs, hscan, hmem⟩
  rcases h.nodes hS with ⟨bNode, cNode, links, hedges, hb, hdata, hc, -, hlinks⟩
  refine ⟨docs, ?_, ?_⟩
  · intro operand hash name target doc hindex hlink hfetch
    rw [hedges, FieldValueMap.at?, List.lookup_cons, List.lookup_nil] at hindex
    split at hindex
    case h_2 => cases hindex
    case h_1 =>
        cases hindex
        rw [hb] at hlink
        rcases hlink with hlink | ⟨-, hlink⟩
        · -- the collection is no document
          rw [List.mem_singleton, Prod.mk.injEq] at hlink
          rw [hlink.2, fetchDocument, hdata, Option.getD_some, hcollection] at hfetch
          cases hfetch
        · have hcNode : getOrderedEdgeNamesOf S (([("__", cNode)].lookup "__").getD "") = links := hc
          rw [hcNode] at hlink
          exact (hmem doc).mpr ⟨name, target, (hlinks name target).mp hlink, hfetch⟩
  · intro hlength
    refine ⟨hscan, ?_, hlength⟩
    intro doc hdoc
    rcases (hmem doc).mp hdoc with ⟨documentId, hash, hlink, hfetch⟩
    rcases h.document hlink with ⟨doc', value, hfetch', hid⟩
    rw [hfetch] at hfetch'
    cases hfetch'
    cases doc with
    | obj members => exact ⟨members, rfl⟩
    | null | bool | num | str | arr => cases hid

/-! ## Evaluation -/

section Evaluate

variable {S : Services} {sorts : (operand : String) → KeySort (field operand)}
  {_docs : Option (List Json)} {indexes : FieldValueMap} {docs : List Json} {fuel : Nat}
  {filter l r : TreeNode} {root operand value : String} {left right answer : Json} {op : Comparison}

theorem Entity.keepsIndexes (hentity : Entity S _docs indexes docs) :
    KeepsIndexes S _docs indexes := by
  intro indexes' docs' h
  rw [hentity.collection] at h
  cases h
  rfl

theorem EndsWith.returns (hentity : Entity S _docs indexes docs)
    (h : EndsWith S sorts _docs indexes filter answer) :
    Returns (fun fuel => evaluateExpression S sorts fuel _docs filter indexes)
      (indexes, answer) := by
  rcases h with ⟨indexes', n, hn⟩
  cases (evaluateExpression_done hentity.keepsIndexes (hn n (Nat.le_refl n))).1
  exact ⟨n, hn⟩

theorem endsWith_of_done (fuel : Nat)
    (h : evaluateExpression S sorts fuel _docs filter indexes = .done (indexes, answer)) :
    EndsWith S sorts _docs indexes filter answer := by
  refine ⟨indexes, Returns.of_done (n := fuel) ?_ h⟩
  intro fuel
  exact evaluateExpression_refines S sorts filter

theorem asString_eq_done {j : Json} {s : String} (h : asString j = .done s) : j = .str s := by
  cases j with
  | str s' =>
      cases h
      rfl
  | null | bool | num | arr | obj => cases h

theorem exists_of_fetchDocuments {hashes : List String}
    (h : fetchDocuments S hashes = .done docs) {doc : Json} (hdoc : doc ∈ docs) :
    ∃ hash ∈ hashes, fetchDocument S hash = .done doc := by
  induction hashes generalizing docs with
  | nil =>
      cases h
      cases hdoc
  | cons hash hashes ih =>
      rcases bind_eq_done.mp h with ⟨doc', hfetch, h⟩
      rcases bind_eq_done.mp h with ⟨docs', hrest, hdone⟩
      cases hdone
      rcases List.mem_cons.mp hdoc with rfl | hmem
      · exact ⟨hash, List.mem_cons_self, hfetch⟩
      · rcases ih hrest hmem with ⟨hash', hhash', hfetch'⟩
        exact ⟨hash', List.mem_cons_of_mem _ hhash', hfetch'⟩

/-- What a comparison finds in an index is under its links. -/
theorem exists_of_compareIndexed {_values : OrderedEdgeMap}
    (h : compareIndexed S op _values value = .done answer) {doc : Json} (hdoc : doc ∈ found answer) :
    ∃ name target, (name, target) ∈ _values ∧ fetchDocument S target = .done doc := by
  -- what is fetched is under a link of the index
  have hfetch : ∀ {edges : OrderedEdgeMap}, edges ⊆ _values →
      (fetchDocuments S (edges.map (·.2)) >>= fun docs => .done (.arr docs)) = .done answer →
      ∃ name target, (name, target) ∈ _values ∧ fetchDocument S target = .done doc := by
    intro edges hsub hdocs
    rcases bind_eq_done.mp hdocs with ⟨docs, hfetched, hdone⟩
    cases hdone
    rcases exists_of_fetchDocuments hfetched hdoc with ⟨hash, hhash, hfetch⟩
    rcases List.mem_map.mp hhash with ⟨⟨name, target⟩, hedge, rfl⟩
    exact ⟨name, target, hsub hedge, hfetch⟩
  -- the empty string finds nothing
  have htext : (.done (.str "") : Evaluation Json) = .done answer →
      ∃ name target, (name, target) ∈ _values ∧ fetchDocument S target = .done doc := by
    intro heq
    cases heq
    cases hdoc
  -- the bounds cut the links
  have hlower := (List.dropWhile_sublist (l := _values) (p := (·.1 < value))).subset
  have hupper := (List.dropWhile_sublist (l := _values) (p := (·.1 ≤ value))).subset
  have hbelow := (List.takeWhile_sublist (l := _values) (p := (·.1 < value))).subset
  unfold compareIndexed at h
  cases op with
  | equal =>
      dsimp only at h
      split at h
      case h_1 hash hlookup =>
          rcases List.lookup_eq_some_iff.mp hlookup with ⟨before, behind, hsplit, -⟩
          apply hfetch _ h
          simp [hsplit]
      case h_2 => exact htext h
  | notEqual =>
      dsimp only at h
      split at h
      · exact htext h
      · exact hfetch (List.append_subset.mpr ⟨hbelow, hupper⟩) h
  | greater =>
      dsimp only at h
      split at h
      · exact htext h
      · exact hfetch hupper h
  | greaterEqual =>
      dsimp only at h
      split at h
      · exact htext h
      · exact hfetch hlower h
  | lessEqual =>
      dsimp only at h
      split at h
      · exact htext h
      · apply hfetch _ h
        exact List.append_subset.mpr ⟨hbelow, fun edge hedge => hlower (List.mem_of_mem_take hedge)⟩
  | less =>
      dsimp only at h
      split at h
      · exact htext h
      · exact hfetch hbelow h

variable (sorts op) in
/-- A comparison of a field without an index, where the value occurs. -/
theorem evaluateComparison_of_occurs (hentity : Entity S _docs indexes docs)
    (hindex : indexes.at? operand = none) (hfuel : docs.length < fuel)
    (h : Occurs operand value docs) :
    ∃ rs, evaluateComparison S sorts fuel _docs op indexes (.str operand) (.str value) =
        .done (indexes, .arr rs) ∧
      ((∀ doc ∈ rs, doc ∈ docs) ↔
        op.SparesRead operand value docs ((sorts operand).sort docs)) := by
  have hperm := (sorts operand).perm docs
  have hne : docs ≠ [] := by
    rintro rfl
    rcases h with ⟨doc, hdoc, -⟩
    cases hdoc
  rcases sorted_collection sorts hentity hne operand with ⟨hdocs, hlength, hne'⟩
  have hoccurs : Occurs operand value ((sorts operand).sort docs) := by
    rcases h with ⟨doc, hdoc, hvalue⟩
    exact ⟨doc, hperm.mem_iff.mpr hdoc, hvalue⟩
  have hsorted := (sorts operand).sorted docs
  rcases filter_eq_slice operand value hdocs (hlength ▸ hentity.length) hne' hsorted op
    (hlength ▸ hfuel) hoccurs with ⟨lower, upper, hisFirst, hisLast, hfilter⟩
  refine ⟨_, ?_, slice_stored_iff hdocs hsorted (fun doc => hperm.mem_iff) hisFirst hisLast⟩
  simp only [evaluateComparison, asString, done_bind, hindex, sortDocumentsByOperand_eq sorts hentity,
    hne', if_false, hfilter, pure_eq]

/-- A value that does not occur is not found, or its search does not end. -/
theorem filter_eq_nil (hentity : Entity S _docs indexes docs) (hne : docs ≠ [])
    (hfuel : docs.length < fuel) (h : ¬Occurs operand value docs) {rs : List Json}
    (hdone : op.filter operand value fuel ((sorts operand).sort docs) = .done rs) : rs = [] := by
  have hperm := (sorts operand).perm docs
  rcases sorted_collection sorts hentity hne operand with ⟨hdocs, hlength, hne'⟩
  have hsorted := (sorts operand).sorted docs
  have habsent : ¬Occurs operand value ((sorts operand).sort docs) := by
    rintro ⟨doc, hdoc, hvalue⟩
    exact h ⟨doc, hperm.mem_iff.mp hdoc, hvalue⟩
  -- below all documents the search does not end
  by_cases hbelow : Below operand value ((sorts operand).sort docs)
  · rw [filter_of_below operand value hdocs (hlength ▸ hentity.length) hne' hsorted op hbelow]
      at hdone
    cases hdone
  · rw [filter_of_absent operand value hdocs (hlength ▸ hentity.length) hne' hsorted op
      (hlength ▸ hfuel) hbelow habsent] at hdone
    cases hdone
    rfl

/-- What a comparison finds is stored, if it spares what it reads. -/
theorem stored_comparison (hentity : Entity S _docs indexes docs)
    (hindexed : Indexed S indexes docs) (hfuel : docs.length < fuel)
    (hspares : ∀ operand value, left = .str operand → right = .str value →
      indexes.at? operand = none → Occurs operand value docs →
      op.SparesRead operand value docs ((sorts operand).sort docs))
    (h : evaluateComparison S sorts fuel _docs op indexes left right = .done (indexes, answer)) :
    ∀ doc ∈ found answer, doc ∈ docs := by
  have hdone := h
  rw [evaluateComparison] at h
  rcases bind_eq_done.mp h with ⟨operand, hleft, hcall⟩
  clear h
  cases asString_eq_done hleft
  split at hcall
  -- the operand has an index, or the id of the second one
  case h_1 hash hindex =>
      rcases bind_eq_done.mp hcall with ⟨value, -, hcall⟩
      rcases bind_eq_done.mp hcall with ⟨_rs, hcompare, heq⟩
      cases heq
      intro doc hdoc
      rcases exists_of_compareIndexed hcompare hdoc with ⟨name, target, hlink, hfetch⟩
      have hedge : (name, target) ∈ getOrderedEdgeNamesOf S hash ∨ operand = "id" ∧
          (name, target) ∈ getOrderedEdgeNamesOf S
            (((getOrderedEdgeNamesOf S hash).lookup "__").getD "") := by
        split at hlink
        case isTrue hunique => exact .inr ⟨hunique.2, hlink⟩
        case isFalse => exact .inl hlink
      exact hindexed hindex hedge hfetch
  -- the search goes through the collection
  case h_2 hindex =>
      rw [sortDocumentsByOperand_eq sorts hentity, done_bind] at hcall
      dsimp only at hcall
      split at hcall
      case isTrue =>
          cases hcall
          intro doc hdoc
          cases hdoc
      case isFalse hne' =>
          rcases bind_eq_done.mp hcall with ⟨value, hright, hfiltered⟩
          cases asString_eq_done hright
          have hne : docs ≠ [] := by
            rintro rfl
            exact hne' ((sorts operand).perm []).eq_nil
          by_cases hoccurs : Occurs operand value docs
          · rcases evaluateComparison_of_occurs sorts op hentity hindex hfuel
              hoccurs with ⟨rs, hrs, hiff⟩
            rw [hrs] at hdone
            cases hdone
            exact hiff.mpr (hspares operand value rfl rfl hindex hoccurs)
          -- a value that does not occur finds nothing
          · rcases bind_eq_done.mp hfiltered with ⟨rs, hfilter, heq⟩
            cases heq
            cases filter_eq_nil hentity hne hfuel hoccurs hfilter
            intro doc hdoc
            cases hdoc

/-- The connectives find nothing that none of their sides finds. -/
theorem found_connective (hroot : Comparison.ofSymbol root = none)
    (hleft : evaluateExpression S sorts fuel _docs l indexes = .done (indexes, left))
    (hright : evaluateExpression S sorts fuel _docs r indexes = .done (indexes, right))
    (h : evaluateExpression S sorts fuel _docs (.node root l r) indexes =
      .done (indexes, answer)) {doc : Json} (hdoc : doc ∈ found answer) :
    doc ∈ found left ∨ doc ∈ found right := by
  simp only [evaluateExpression, hleft, done_bind, hright, hroot] at h
  split at h
  case isTrue =>
      split at h
      -- an empty side of `|` leaves the other one as it is
      case isTrue =>
          cases h
          split at hdoc
          · exact .inr hdoc
          · exact .inl hdoc
      case isFalse =>
          rcases bind_eq_done.mp h with ⟨_rs, hunion, heq⟩
          cases heq
          unfold union_ at hunion
          split at hunion
          · cases hunion
            rcases mem_union_iff.mp hdoc with hmem | hmem
            · exact List.mem_append.mp hmem
            · cases hmem
          · cases hunion
  case isFalse =>
      split at h
      case isTrue =>
          split at h
          case isTrue =>
              cases h
              cases hdoc
          case isFalse =>
              rcases bind_eq_done.mp h with ⟨_rs, hintersection, heq⟩
              cases heq
              unfold intersection at hintersection
              split at hintersection
              · cases hintersection
                exact .inr (List.mem_filter.mp hdoc).1
              · cases hintersection
      case isFalse =>
          cases h
          cases hdoc

/-- The sides of a filter are evaluated first. -/
theorem exists_sides (hentity : Entity S _docs indexes docs)
    (h : evaluateExpression S sorts fuel _docs (.node root l r) indexes =
      .done (indexes, answer)) :
    ∃ left right, evaluateExpression S sorts fuel _docs l indexes = .done (indexes, left) ∧
      evaluateExpression S sorts fuel _docs r indexes = .done (indexes, right) := by
  rw [evaluateExpression] at h
  rcases bind_eq_done.mp h with ⟨⟨indexes₁, left⟩, hleft, hcall⟩
  have hindexes := (evaluateExpression_done hentity.keepsIndexes hleft).1
  subst hindexes
  rcases bind_eq_done.mp hcall with ⟨⟨indexes₂, right⟩, hright, -⟩
  have hindexes := (evaluateExpression_done hentity.keepsIndexes hright).1
  subst hindexes
  exact ⟨left, right, hleft, hright⟩

theorem evaluateExpression_comparison (hroot : Comparison.ofSymbol root = some op)
    (hleft : evaluateExpression S sorts fuel _docs l indexes = .done (indexes, left))
    (hright : evaluateExpression S sorts fuel _docs r indexes = .done (indexes, right)) :
    evaluateExpression S sorts fuel _docs (.node root l r) indexes =
      evaluateComparison S sorts fuel _docs op indexes left right := by
  simp only [evaluateExpression, hleft, done_bind, hright, hroot]

/-- A filter returns stored documents if its sides do and its comparison spares what it reads. -/
theorem returnsStored_node (hentity : Entity S _docs indexes docs)
    (hindexed : Indexed S indexes docs) (hl : ReturnsStored S sorts _docs indexes docs l)
    (hr : ReturnsStored S sorts _docs indexes docs r)
    (hspared : Spared S sorts _docs indexes docs (.node root l r)) :
    ReturnsStored S sorts _docs indexes docs (.node root l r) := by
  intro answer hends
  rcases hends.returns hentity with ⟨n, hn⟩
  -- enough fuel for the evaluation and for the searches of a comparison
  have hdone := hn (max n (docs.length + 1)) (Nat.le_max_left ..)
  dsimp only at hdone
  rcases exists_sides hentity hdone with ⟨left, right, hleft, hright⟩
  cases hroot : Comparison.ofSymbol root with
  | some op =>
      rw [evaluateExpression_comparison hroot hleft hright] at hdone
      apply stored_comparison hentity hindexed _ _ hdone
      · exact Nat.lt_of_lt_of_le (Nat.lt_succ_self _) (Nat.le_max_right ..)
      · rintro operand value rfl rfl hindex hoccurs
        exact hspared op operand value hroot (endsWith_of_done _ hleft) (endsWith_of_done _ hright)
          hindex hoccurs
  | none =>
      intro doc hdoc
      rcases found_connective hroot hleft hright hdone hdoc with hfound | hfound
      · exact hl left (endsWith_of_done _ hleft) doc hfound
      · exact hr right (endsWith_of_done _ hright) doc hfound

/-- A comparison that returns stored documents spares what it reads. -/
theorem spared_of_returnsStored (hentity : Entity S _docs indexes docs)
    (h : ReturnsStored S sorts _docs indexes docs filter) :
    Spared S sorts _docs indexes docs filter := by
  cases filter with
  | leaf => trivial
  | node root l r =>
      intro op operand value hroot hl hr hindex hoccurs
      rcases hl.returns hentity with ⟨n, hn⟩
      rcases hr.returns hentity with ⟨m, hm⟩
      let fuel := max (max n m) (docs.length + 1)
      have hleft := hn fuel (by omega)
      have hright := hm fuel (by omega)
      dsimp only at hleft hright
      rcases evaluateComparison_of_occurs sorts op hentity hindex
        (show docs.length < fuel by omega) hoccurs with ⟨rs, hrs, hiff⟩
      apply hiff.mp
      intro doc hdoc
      apply h (.arr rs) _ doc hdoc
      apply endsWith_of_done fuel
      rw [evaluateExpression_comparison hroot hleft hright]
      exact hrs

/-- A document that comes out as it is stored keeps its fields, and gets those of the payload. -/
theorem writesBack_of_returnsStored (hentity : Entity S _docs indexes docs)
    (hS : JsonLaws S.parse S.dump) (hheld : ∀ doc ∈ docs, doc.held = true)
    (h : ReturnsStored S sorts _docs indexes docs filter) (payload : String) :
    WritesBack S sorts _docs indexes docs payload filter := by
  intro answer hends doc hdoc text htext
  have hmem := h answer hends doc hdoc
  rcases hentity.documents doc hmem with ⟨members, rfl⟩
  have hwell : Json.WellFormed (.obj members) := ⟨hheld _ hmem, prints_of_changedText htext⟩
  rw [changedText_eq hwell.prints, if_pos rfl] at htext
  rcases exists_of_updateValues hS hwell htext with ⟨named, rfl, hnamed⟩
  refine ⟨_, hmem, _, hS.parse_dump (wellFormed_merged hS hwell hnamed), ?_⟩
  intro key value hvalue
  rw [Json.get?, lookup_mergeMembers_eq] at hvalue
  rcases Option.or_eq_some_iff.mp hvalue with hpayload | ⟨-, hold⟩
  · rcases hnamed with hparse | rfl
    · have hsorted := (Json.held_obj.mp (hS.wellFormed hparse).held).1
      rw [lookup_mergeMembers_nil hsorted] at hpayload
      exact .inr (by rw [hparse]; exact hpayload)
    · cases hpayload
  · exact .inl hold

/-- A filter and all filters in it return stored documents only if and only if its comparisons
spare the documents that their searches read. Updates by them then write back the fields of the
old documents and of the payload, and no others. -/
theorem stored_iff (hentity : Entity S _docs indexes docs) (hindexed : Indexed S indexes docs)
    (filter : TreeNode) :
    (filter.All (ReturnsStored S sorts _docs indexes docs) ↔
      filter.All (Spared S sorts _docs indexes docs)) ∧
    (JsonLaws S.parse S.dump → (∀ doc ∈ docs, doc.held = true) →
      filter.All (Spared S sorts _docs indexes docs) →
      ∀ payload, filter.All (WritesBack S sorts _docs indexes docs payload)) := by
  have hstored : filter.All (Spared S sorts _docs indexes docs) →
      filter.All (ReturnsStored S sorts _docs indexes docs) := by
    intro h
    -- an answer is made of those of the filters below
    induction filter with
    | leaf root =>
        rintro answer ⟨indexes', n, hn⟩
        cases hn n (Nat.le_refl n)
        exact nofun
    | node root l r ihl ihr =>
        rcases h with ⟨hnode, hl, hr⟩
        have hl' := ihl hl
        have hr' := ihr hr
        exact ⟨returnsStored_node hentity hindexed hl'.self hr'.self hnode, hl', hr'⟩
  refine ⟨⟨?_, hstored⟩, ?_⟩
  · exact TreeNode.All.imp fun _ h => spared_of_returnsStored hentity h
  · intro hS hheld h payload
    exact (hstored h).imp fun _ h => writesBack_of_returnsStored hentity hS hheld h payload

end Evaluate

namespace Sample

/-- A document without a letter, and one with an "x". -/
def gaps : List Json := [.obj [("id", .str "d")], document "e" "x"]

theorem gaps_entity : Entity services (some gaps) [] gaps where
  collection := rfl
  documents := by
    intro doc hdoc
    simp only [gaps, List.mem_cons, List.not_mem_nil, or_false] at hdoc
    rcases hdoc with rfl | rfl <;> exact ⟨_, rfl⟩
  length := by decide

theorem indexed_nil {S : Services} (docs : List Json) : Indexed S [] docs := nofun

/-- IPFS as a store of objects, whose texts are JSON. -/
def jsonStore : Services := ObjectStore.unsearched id

end Sample

/-- All letters are there, and an update sets one of them to "z". -/
theorem stored_iff_letters :
    (Condition.compare .lessEqual "letter" "x").tree.All
      (ReturnsStored Sample.jsonStore Sample.fieldSorts (some Sample.letters) [] Sample.letters) ∧
    (Condition.compare .lessEqual "letter" "x").tree.All
      (WritesBack Sample.jsonStore Sample.fieldSorts (some Sample.letters) [] Sample.letters
        "\x7b\"letter\":\"z\"\x7d") := by
  have hspared : (Condition.compare .lessEqual "letter" "x").tree.All
      (Spared Sample.jsonStore Sample.fieldSorts (some Sample.letters) [] Sample.letters) := by
    refine ⟨?_, trivial, trivial⟩
    intro op operand value hroot hl _ _ _
    rcases hl with ⟨_, n, hn⟩
    cases hn n (Nat.le_refl n)
    apply sparesRead_of_present
    decide
  refine ⟨(stored_iff Sample.letters_entity (Sample.indexed_nil _) _).1.mpr hspared, ?_⟩
  exact (stored_iff Sample.letters_entity (Sample.indexed_nil _) _).2
    (ObjectStore.unsearched_lawful id).toJsonLaws (by decide +kernel) hspared _

/-- The document without a letter comes out of `"letter" < "x"` with the letter `null`. -/
theorem document_altered :
    Entity Sample.services (some Sample.gaps) [] Sample.gaps ∧
      Indexed Sample.services [] Sample.gaps ∧
      EndsWith Sample.services Sample.fieldSorts (some Sample.gaps) []
        (Condition.compare .less "letter" "x").tree
        (.arr [.obj [("id", .str "d"), ("letter", .null)]]) ∧
      ¬(Condition.compare .less "letter" "x").tree.All
        (ReturnsStored Sample.services Sample.fieldSorts (some Sample.gaps) [] Sample.gaps) := by
  have hends : EndsWith Sample.services Sample.fieldSorts (some Sample.gaps) []
      (Condition.compare .less "letter" "x").tree
      (.arr [.obj [("id", .str "d"), ("letter", .null)]]) := by
    have hdone : evaluateExpression Sample.services Sample.fieldSorts 3 (some Sample.gaps)
        (Condition.compare .less "letter" "x").tree [] =
          .done ([], .arr [.obj [("id", .str "d"), ("letter", .null)]]) := by
      decide +kernel
    exact endsWith_of_done _ hdone
  refine ⟨Sample.gaps_entity, Sample.indexed_nil _, hends, ?_⟩
  intro hstored
  have hmem := hstored.self _ hends _ List.mem_cons_self
  exact absurd hmem (by decide)

end DecentralizedCloud.Storage
