import DecentralizedCloud.Storage.DocumentIdentity
import DecentralizedCloud.Storage.Reachable
import DecentralizedCloud.Storage.Soundness

/-!
# Connectives as set operations

`|` and `&` should come to the union and the intersection of what their sides
find. A side that finds nothing comes to an empty array, or to the empty text
when an index has been asked. For `empty()` only the array is empty: the text goes
into the union, which cannot collect its elements, and the exception takes the
other side's documents with it.

Neither connective removes duplicates of a side that it returns as it is, and the
intersection keeps those of its right side (`connectives_iff`).
-/

namespace DecentralizedCloud.Storage

open Evaluation Machine Schedule

/-- The documents of an answer; a text has none. -/
def found : Json → List Json
  | .arr docs => docs
  | .null | .bool _ | .num _ | .str _ | .obj _ => []

/-- The text of a filter leads to the tree. -/
def IsFilter (expression : String) (filter : TreeNode) : Prop :=
  (getPostfixedExpressionOf expression >>= getExpressionTreeFrom) = .ok filter

/-- `searchDocument` finds the documents with the property, each once, and no others. -/
def Finds (S : Services) (dht : String → String) (tid entityId expression : String)
    (p : Json → Prop) : Prop :=
  ∃ docs, (searchDocument S tid entityId expression).exec dht = (dht, some docs) ∧
    (found docs).Nodup ∧ ∀ doc, doc ∈ found docs ↔ p doc

/-- The answers of two sides can be united: a text only with an answer without documents, and
an empty array only with documents that are there once. -/
structure Unitable (left right : Json) : Prop where
  leftText : ∀ s, left = .str s → found right = []
  rightText : ∀ s, right = .str s → found left = []
  leftEmpty : left = .arr [] → (found right).Nodup
  rightEmpty : right = .arr [] → (found left).Nodup

/-- The answers of two sides can be intersected: no common document is twice in the right one. -/
def Intersectable (left right : Json) : Prop :=
  ((found right).filter (· ∈ found left)).Nodup

/-! ## Unions -/

/-- A document is inserted in its place. -/
theorem sorted_insertDocument (doc : Json) {docs : List Json} (h : docs.Pairwise (· < ·)) :
    (insertDocument doc docs).Pairwise (· < ·) := by
  induction docs with
  | nil => exact List.pairwise_singleton ..
  | cons d docs ih =>
      rcases List.pairwise_cons.mp h with ⟨hhead, hdocs⟩
      unfold insertDocument
      split
      case isTrue hlt =>
          refine List.pairwise_cons.mpr ⟨?_, h⟩
          intro doc' hdoc'
          rcases List.mem_cons.mp hdoc' with rfl | hmem
          · exact hlt
          · exact hlt.trans (hhead doc' hmem)
      case isFalse hge =>
          split
          case isTrue => exact h
          case isFalse hne =>
              refine List.pairwise_cons.mpr ⟨?_, ih hdocs⟩
              intro doc' hdoc'
              rcases mem_insertDocument.mp hdoc' with rfl | hmem
              · exact lt_of_le_of_ne (not_lt.mp hge) (Ne.symm hne)
              · exact hhead doc' hmem

theorem nodup_union (xs : List Json) :
    (xs.foldl (fun hs doc => insertDocument doc hs) []).Nodup := by
  have hsorted : ∀ ys : List Json, ys.Pairwise (· < ·) →
      (xs.foldl (fun hs doc => insertDocument doc hs) ys).Pairwise (· < ·) := by
    induction xs with
    | nil => exact fun _ h => h
    | cons x xs ih => exact fun ys h => ih _ (sorted_insertDocument x h)
  exact (hsorted [] .nil).imp ne_of_lt

/-! ## Evaluation -/

variable {S : Services} {sorts : (operand : String) → KeySort (field operand)}

/-- A filter comes to a text or to documents. -/
def IsAnswer (j : Json) : Prop := (∃ s, j = .str s) ∨ ∃ docs, j = .arr docs

/-- The index "id" is not entered where it is already there. -/
theorem insert_id {indexes : FieldValueMap} (hid : (indexes.at? "id").isSome = true) :
    indexes.insert "id" "" = indexes := by
  rw [FieldValueMap.insert, if_pos hid]

section Evaluate

variable {fuel : Nat} {indexes indexes' : FieldValueMap} {filter l r : TreeNode} {left right : Json}

/-- Fetching the collection leaves the indexes alone. -/
def KeepsIndexes (S : Services) (_docs : Option (List Json)) (indexes : FieldValueMap) : Prop :=
  ∀ {indexes' docs}, collection S _docs indexes = .done (indexes', docs) → indexes' = indexes

theorem keepsIndexes_of_id (hid : (indexes.at? "id").isSome = true) :
    KeepsIndexes S none indexes := by
  intro indexes' docs h
  rw [collection, fetchDocumentsFromDefaultIndex, insert_id hid] at h
  rcases bind_eq_done.mp h with ⟨docs', -, hdone⟩
  cases hdone
  rfl

variable {_docs : Option (List Json)}

theorem sortDocumentsByOperand_indexes (hkeep : KeepsIndexes S _docs indexes) {operand : String}
    {docs : List Json}
    (h : sortDocumentsByOperand S sorts _docs operand indexes = .done (indexes', docs)) :
    indexes' = indexes := by
  rw [sortDocumentsByOperand] at h
  rcases bind_eq_done.mp h with ⟨⟨indexes₁, docs₁⟩, hcollection, hsort⟩
  cases hkeep hcollection
  dsimp only at hsort
  split at hsort
  · cases hsort
    rfl
  · cases hsort

/-- A comparison in an index returns an array or the empty string. -/
theorem isAnswer_compareIndexed {op : Comparison} {_values : OrderedEdgeMap} {value : String}
    (h : compareIndexed S op _values value = .done left) : IsAnswer left := by
  have hfetch : ∀ hashes, (fetchDocuments S hashes >>= fun docs => .done (.arr docs)) =
      .done left → IsAnswer left := by
    intro hashes hdocs
    rcases bind_eq_done.mp hdocs with ⟨docs, -, hdone⟩
    cases hdone
    exact .inr ⟨docs, rfl⟩
  have htext : (.done (.str "") : Evaluation Json) = .done left → IsAnswer left := by
    intro heq
    cases heq
    exact .inl ⟨"", rfl⟩
  unfold compareIndexed at h
  cases op <;> dsimp only at h <;> split at h
  all_goals first
    | exact hfetch _ h
    | exact htext h

/-- A comparison keeps the indexes, and its value is an answer. -/
theorem evaluateComparison_done (hkeep : KeepsIndexes S _docs indexes) {op : Comparison} {j : Json}
    (h : evaluateComparison S sorts fuel _docs op indexes left right = .done (indexes', j)) :
    indexes' = indexes ∧ IsAnswer j := by
  rw [evaluateComparison] at h
  rcases bind_eq_done.mp h with ⟨operand, -, h⟩
  split at h
  case h_1 =>
      rcases bind_eq_done.mp h with ⟨value, -, h⟩
      rcases bind_eq_done.mp h with ⟨_rs, hcompare, hdone⟩
      cases hdone
      exact ⟨rfl, isAnswer_compareIndexed hcompare⟩
  case h_2 =>
      rcases bind_eq_done.mp h with ⟨⟨indexes₁, _rs⟩, hsort, h⟩
      cases sortDocumentsByOperand_indexes hkeep hsort
      dsimp only at h
      split at h
      · cases h
        exact ⟨rfl, .inr ⟨[], rfl⟩⟩
      · rcases bind_eq_done.mp h with ⟨value, -, h⟩
        rcases bind_eq_done.mp h with ⟨docs, -, hdone⟩
        cases hdone
        exact ⟨rfl, .inr ⟨docs, rfl⟩⟩

/-- Where fetching the collection leaves the indexes alone, the evaluation does. -/
theorem evaluateExpression_done (hkeep : KeepsIndexes S _docs indexes) {j : Json}
    (h : evaluateExpression S sorts fuel _docs filter indexes = .done (indexes', j)) :
    indexes' = indexes ∧ IsAnswer j := by
  induction filter generalizing indexes' j with
  | leaf root =>
      cases h
      exact ⟨rfl, .inl ⟨root, rfl⟩⟩
  | node root l r ihl ihr =>
      unfold evaluateExpression at h
      rcases bind_eq_done.mp h with ⟨⟨indexes₁, left⟩, hleft, h⟩
      rcases ihl hleft with ⟨hindexes, hanswer⟩
      dsimp only at h hindexes
      rw [hindexes] at h
      rcases bind_eq_done.mp h with ⟨⟨indexes₂, right⟩, hright, h⟩
      rcases ihr hright with ⟨hindexes', hanswer'⟩
      rw [hindexes'] at h
      -- a comparison, or one of the two connectives
      split at h
      case h_1 => exact evaluateComparison_done hkeep h
      case h_2 =>
          split at h
          -- a union with nothing is the other side
          case isTrue =>
              split at h
              case isTrue =>
                  cases h
                  refine ⟨rfl, ?_⟩
                  split
                  · exact hanswer'
                  · exact hanswer
              case isFalse =>
                  -- otherwise both sides are arrays
                  rcases bind_eq_done.mp h with ⟨_rs, hunion, hdone⟩
                  cases hdone
                  unfold union_ at hunion
                  split at hunion
                  · cases hunion
                    exact ⟨rfl, .inr ⟨_, rfl⟩⟩
                  · cases hunion
          -- an intersection with nothing is empty
          case isFalse =>
              split at h
              case isTrue =>
                  split at h
                  case isTrue =>
                      cases h
                      exact ⟨rfl, .inr ⟨[], rfl⟩⟩
                  case isFalse =>
                      -- both sides are arrays
                      rcases bind_eq_done.mp h with ⟨_rs, hintersection, hdone⟩
                      cases hdone
                      unfold intersection at hintersection
                      split at hintersection
                      · cases hintersection
                        exact ⟨rfl, .inr ⟨_, rfl⟩⟩
                      · cases hintersection
              case isFalse =>
                  cases h
                  exact ⟨rfl, .inr ⟨[], rfl⟩⟩

theorem union_ne_pending (left right : Json) : union_ left right ≠ .pending := by
  unfold union_
  split <;> exact nofun

theorem intersection_ne_pending (left right : Json) : intersection left right ≠ .pending := by
  unfold intersection
  split <;> exact nofun

/-- The answer to `|`: a union of which an exception leaves nothing. -/
def unionAnswer (left right : Json) : Json :=
  if left.isEmpty then right
  else if right.isEmpty then left
  else match union_ left right with
    | .done _rs => _rs
    | .pending | .raised => .str ""

/-- The answer to `&`. -/
def intersectionAnswer (left right : Json) : Json :=
  if left.isEmpty || right.isEmpty then .arr []
  else match intersection left right with
    | .done _rs => _rs
    | .pending | .raised => .str ""

/-- A search with `|` unites the answers of its two sides. -/
theorem searchBelow_union {root expression : String} (hfilter : IsFilter expression (.node "|" l r))
    (hleft : evaluateExpression S sorts fuel none l (edgesOf S root) = .done (edgesOf S root, left))
    (hright : evaluateExpression S sorts fuel none r (edgesOf S root) =
      .done (edgesOf S root, right)) :
    searchBelow S sorts fuel root expression = .done (unionAnswer left right) := by
  have hsymbol : Comparison.ofSymbol "|" = none := by decide
  rw [searchBelow, hfilter]
  simp only [evaluateExpression, hleft, hright, done_bind, hsymbol, if_true, pure_eq, unionAnswer]
  cases left.isEmpty with
  | true => rfl
  | false =>
      cases right.isEmpty with
      | true => rfl
      | false =>
          cases hunion : union_ left right with
          | pending => exact absurd hunion (union_ne_pending left right)
          | raised | done _rs => rfl

/-- A search with `&` intersects the answers of its two sides. -/
theorem searchBelow_intersection {root expression : String}
    (hfilter : IsFilter expression (.node "&" l r))
    (hleft : evaluateExpression S sorts fuel none l (edgesOf S root) = .done (edgesOf S root, left))
    (hright : evaluateExpression S sorts fuel none r (edgesOf S root) =
      .done (edgesOf S root, right)) :
    searchBelow S sorts fuel root expression = .done (intersectionAnswer left right) := by
  have hsymbol : Comparison.ofSymbol "&" = none := by decide
  have hne : "&" ≠ "|" := by decide
  rw [searchBelow, hfilter]
  simp only [evaluateExpression, hleft, hright, done_bind, hsymbol, if_neg hne, if_true, pure_eq,
    intersectionAnswer]
  cases left.isEmpty || right.isEmpty with
  | true => rfl
  | false =>
      cases hintersection : intersection left right with
      | pending => exact absurd hintersection (intersection_ne_pending left right)
      | raised | done _rs => rfl

/-! ## Answers as sets -/

theorem unitable_arr {xs ys : List Json} (hxs : xs = [] → ys.Nodup) (hys : ys = [] → xs.Nodup) :
    Unitable (.arr xs) (.arr ys) where
  leftText := by rintro _ ⟨⟩
  rightText := by rintro _ ⟨⟩
  leftEmpty := by
    rintro ⟨⟩
    exact hxs rfl
  rightEmpty := by
    rintro ⟨⟩
    exact hys rfl

/-- When the union has each document of its two sides once. -/
theorem unionAnswer_iff (hleft : IsAnswer left) (hright : IsAnswer right) :
    ((found (unionAnswer left right)).Nodup ∧
        ∀ doc, doc ∈ found (unionAnswer left right) ↔ doc ∈ found left ∨ doc ∈ found right) ↔
      Unitable left right := by
  rcases hleft with ⟨s, rfl⟩ | ⟨xs, rfl⟩ <;> rcases hright with ⟨s', rfl⟩ | ⟨ys, rfl⟩
  case inl.inl =>
      constructor
      · exact fun _ => ⟨fun _ _ => rfl, fun _ _ => rfl, by rintro ⟨⟩, by rintro ⟨⟩⟩
      · exact fun _ => ⟨List.nodup_nil, fun doc => by simp [unionAnswer, union_, found, Json.isEmpty]⟩
  case inl.inr =>
      cases ys with
      | nil =>
          constructor
          · exact fun _ => ⟨fun _ _ => rfl, by rintro _ ⟨⟩, by rintro ⟨⟩, fun _ => List.nodup_nil⟩
          · exact fun _ => ⟨List.nodup_nil, fun doc => by simp [unionAnswer, found, Json.isEmpty]⟩
      | cons y ys =>
          -- the union of a text with documents raises, and the documents are lost
          constructor
          · intro h
            have hlost := (h.2 y).mpr (.inr List.mem_cons_self)
            simp [unionAnswer, union_, found, Json.isEmpty] at hlost
          · intro h
            cases h.leftText s rfl
  case inr.inl =>
      cases xs with
      | nil =>
          constructor
          · exact fun _ => ⟨by rintro _ ⟨⟩, fun _ _ => rfl, fun _ => List.nodup_nil, by rintro ⟨⟩⟩
          · exact fun _ => ⟨List.nodup_nil, fun doc => by simp [unionAnswer, found, Json.isEmpty]⟩
      | cons x xs =>
          constructor
          · intro h
            have hlost := (h.2 x).mpr (.inl List.mem_cons_self)
            simp [unionAnswer, union_, found, Json.isEmpty] at hlost
          · intro h
            cases h.rightText s' rfl
  case inr.inr =>
      cases xs with
      | nil =>
          -- the right side is returned as it is
          constructor
          · intro h
            exact unitable_arr (fun _ => h.1) fun _ => List.nodup_nil
          · intro h
            exact ⟨h.leftEmpty rfl, fun doc => by simp [unionAnswer, found, Json.isEmpty]⟩
      | cons x xs =>
          cases ys with
          | nil =>
              constructor
              · intro h
                exact unitable_arr (by rintro ⟨⟩) fun _ => h.1
              · intro h
                exact ⟨h.rightEmpty rfl, fun doc => by simp [unionAnswer, found, Json.isEmpty]⟩
          | cons y ys =>
              constructor
              · exact fun _ => unitable_arr (by rintro ⟨⟩) (by rintro ⟨⟩)
              · intro _
                refine ⟨nodup_union _, ?_⟩
                intro doc
                show doc ∈ (x :: xs ++ y :: ys).foldl (fun hs doc => insertDocument doc hs) [] ↔ _
                rw [mem_union_iff, List.mem_append]
                simp [found]

/-- Without documents on one side the intersection has none. -/
theorem found_intersectionAnswer (hleft : IsAnswer left) (hright : IsAnswer right) :
    found (intersectionAnswer left right) = (found right).filter (· ∈ found left) := by
  rcases hleft with ⟨s, rfl⟩ | ⟨xs, rfl⟩ <;> rcases hright with ⟨s', rfl⟩ | ⟨ys, rfl⟩
  case inl.inl => rfl
  case inl.inr =>
      cases ys <;> simp [intersectionAnswer, intersection, found, Json.isEmpty]
  case inr.inl =>
      cases xs <;> simp [intersectionAnswer, intersection, found, Json.isEmpty]
  case inr.inr =>
      cases xs with
      | nil => simp [intersectionAnswer, found, Json.isEmpty]
      | cons x xs => cases ys <;> simp [intersectionAnswer, intersection, found, Json.isEmpty]

theorem intersectionAnswer_iff (hleft : IsAnswer left) (hright : IsAnswer right) :
    ((found (intersectionAnswer left right)).Nodup ∧
        ∀ doc, doc ∈ found (intersectionAnswer left right) ↔
          doc ∈ found left ∧ doc ∈ found right) ↔
      Intersectable left right := by
  rw [found_intersectionAnswer hleft hright]
  constructor
  · exact fun h => h.1
  · intro h
    refine ⟨h, ?_⟩
    intro doc
    rw [List.mem_filter, decide_eq_true_iff]
    exact and_comm

end Evaluate

/-- The evaluation of the filter in an entity ends with the answer, without an exception. -/
def Evaluates (S : Services) (sorts : (operand : String) → KeySort (field operand)) (root : String)
    (filter : TreeNode) (answer : Json) : Prop :=
  ∃ indexes, Returns (fun fuel => evaluateExpression S sorts fuel none filter (edgesOf S root))
    (indexes, answer)

section Search

variable {dht : String → String} {tid entityId expression root : String} {filter l r : TreeNode}
  {left right : Json}

theorem Index.has_id {contents : String → Option Contents} (hS : S.Lawful contents)
    {documents : String → Option String} (h : Index contents root documents) :
    ((edgesOf S root).at? "id").isSome = true := by
  rcases h with ⟨_, _, _, _, _, hcontents, -, -⟩
  rw [hS.at?_edgesOf hcontents, Merkle.single_self]
  rfl

/-- Every entity of a reachable store has the index "id". -/
theorem Reachable.has_id {contents : String → Option Contents} (hS : S.Lawful contents)
    (h : Reachable S dht) (hroot : dht (dataRootKey tid entityId) ≠ "") :
    ((edgesOf S (dht (dataRootKey tid entityId))).at? "id").isSome = true := by
  rcases (h.grounded hS (dataRootKey tid entityId)).entity tid entityId rfl with hempty | hindex
  · exact absurd hempty hroot
  · rcases hindex with ⟨documents, hindex⟩
    exact hindex.has_id hS

theorem Evaluates.spec (hid : ((edgesOf S root).at? "id").isSome = true)
    (h : Evaluates S sorts root filter left) :
    IsAnswer left ∧ Returns (fun fuel => evaluateExpression S sorts fuel none filter
      (edgesOf S root)) (edgesOf S root, left) := by
  rcases h with ⟨indexes, n, hn⟩
  rcases evaluateExpression_done (keepsIndexes_of_id hid) (hn n (Nat.le_refl n)) with ⟨rfl, hanswer⟩
  exact ⟨hanswer, n, hn⟩

theorem evaluates_of_done (indexes : FieldValueMap)
    (h : ∀ fuel, evaluateExpression S sorts fuel none filter (edgesOf S root) =
      .done (indexes, left)) : Evaluates S sorts root filter left :=
  ⟨indexes, 0, fun fuel _ => h fuel⟩

theorem exec_searchDocument (hsearch : S.Searches sorts) (hroot : dht (dataRootKey tid entityId) ≠ "")
    {docs : Json} (h : Returns (fun fuel => searchBelow S sorts fuel (dht (dataRootKey tid entityId))
      expression) docs) :
    (searchDocument S tid entityId expression).exec dht = (dht, some docs) := by
  simp [searchDocument, Prog.exec_bind, hroot, hsearch h]

theorem finds_iff {docs : Json} {p : Json → Prop}
    (h : (searchDocument S tid entityId expression).exec dht = (dht, some docs)) :
    Finds S dht tid entityId expression p ↔
      (found docs).Nodup ∧ ∀ doc, doc ∈ found docs ↔ p doc := by
  constructor
  · rintro ⟨docs', hexec, hfound⟩
    rw [h] at hexec
    cases hexec
    exact hfound
  · exact fun hfound => ⟨docs, h, hfound⟩

end Search

theorem isFilter_render {filter : TreeNode} (h : WellFormed filter) :
    IsFilter (String.ofList (render filter)) filter := by
  have hblank : Blank [] := by simp [Blank]
  rcases filter_tree (renders_render h) hblank hblank with ⟨elements, helements, htree⟩
  rw [List.nil_append, List.append_nil] at helements
  rw [IsFilter, helements]
  exact htree

namespace Sample

def askFor (documentId : String) : TreeNode := .node "=" (.leaf "id") (.leaf documentId)

def askForBoth (op documentId documentId' : String) : TreeNode :=
  .node op (askFor documentId) (askFor documentId')

theorem isFilter_askForBoth (op : String) {documentId documentId' : String} (hop : op ∈ operatorSymbols)
    (h : '"' ∉ documentId.toList) (h' : '"' ∉ documentId'.toList) :
    IsFilter (String.ofList (render (askForBoth op documentId documentId')))
      (askForBoth op documentId documentId') := by
  have hequal : "=" ∈ operatorSymbols := by decide
  have hid : '"' ∉ "id".toList := by decide
  exact isFilter_render ⟨hop, ⟨hequal, hid, h⟩, hequal, hid, h'⟩

/-- A document that is created is in the map. -/
theorem exists_create {dht : String → String} {m : DocumentMap} {links : String → Option String}
    (h : Represents identityServices ObjectStore.contents "t" "entity" dht m links) (guid : String)
    (utf8 : Utf8.isUtf8 guid = true) :
    ∃ dht' links', entityStep identityServices "t" "entity" dht (.create (caller guid utf8) "e30=") =
        some dht' ∧
      Represents identityServices ObjectStore.contents "t" "entity" dht'
        (DocumentMap.apply guid m (.create [])) links' := by
  rcases exec_create identityServices_lawful "n" "x" (delivered_gossip (gossipEnv guid utf8)
    gossip_source) h parse_emptyBody with ⟨dht', links', hexec, hrepresents⟩
  have hcreated := execute_create guid utf8 dht
  rw [hexec] at hcreated
  exact ⟨dht', links', congrArg some hcreated, hrepresents⟩

/-- An entity with a single document "d". -/
theorem exists_represented :
    ∃ dht dht' links, (addChildNode identityServices (gossipEnv "entity") "0" "n" "w" "t"
        templateTree "").exec (fun _ => "") = (dht, some ()) ∧
      entityStep identityServices "t" "entity" dht (.create (caller "d") "e30=") = some dht' ∧
      Represents identityServices ObjectStore.contents "t" "entity" dht'
        (DocumentMap.apply "d" .empty (.create [])) links := by
  rcases exists_entity with ⟨dht, hentity⟩
  have hnew : Represents identityServices ObjectStore.contents "t" "entity" dht .empty
      (fun _ => none) := represents_new identityServices_lawful hentity
  rcases exists_create hnew "d" (by decide) with ⟨dht', links, hstep, hrepresents⟩
  exact ⟨dht, dht', links, hentity, hstep, hrepresents⟩

/-- The document "d", under its only link. -/
theorem fetch_document {dht : String → String} {links : String → Option String}
    (h : Represents identityServices ObjectStore.contents "t" "entity" dht
      (DocumentMap.apply "d" .empty (.create [])) links) :
    ∃ hash, links "d" = some hash ∧
      fetchDocument identityServices hash = .done (.obj [("id", .str "d")]) ∧
      ∀ documentId, documentId ≠ "d" → links documentId = none := by
  have hS := identityServices_lawful
  have hdocument : (DocumentMap.apply "d" .empty (.create [])).documents "d" =
      some [("id", .str "d")] := by
    simp [DocumentMap.apply, Json.insertMember]
  rcases h.mapped hdocument with ⟨hlinked, hstored, -, hwell⟩
  refine ⟨_, hlinked, ?_, ?_⟩
  · rw [fetchDocument, hS.objectData hstored, Option.getD_some, hS.parse_dump hwell]
    rfl
  · intro documentId hne
    have hmissing : (DocumentMap.apply "d" .empty (.create [])).documents documentId = none := by
      simp [DocumentMap.apply, DocumentMap.empty, hne]
    exact (h.missing hmissing).1

/-- An entity with a single document, found by its id. -/
theorem exists_document :
    ∃ dht dht' doc, (addChildNode identityServices (gossipEnv "entity") "0" "n" "w" "t"
        templateTree "").exec (fun _ => "") = (dht, some ()) ∧
      Run (entityStep identityServices "t" "entity") dht [.create (caller "d") "e30="] dht' ∧
      dht' (dataRootKey "t" "entity") ≠ "" ∧
      ((edgesOf identityServices (dht' (dataRootKey "t" "entity"))).at? "id").isSome = true ∧
      Evaluates identityServices fieldSorts (dht' (dataRootKey "t" "entity")) (askFor "d")
        (.arr [doc]) ∧
      Evaluates identityServices fieldSorts (dht' (dataRootKey "t" "entity")) (askFor "x")
        (.str "") := by
  have hS := identityServices_lawful
  rcases exists_represented with ⟨dht, dht', links, hentity, hstep, hrepresents⟩
  rcases fetch_document hrepresents with ⟨hash, hlinked, hfetch, hnone⟩
  refine ⟨dht, dht', .obj [("id", .str "d")], hentity, .single trivial hstep,
    hrepresents.index.ne_empty hS, hrepresents.index.has_id hS, ?_, ?_⟩
  · apply evaluates_of_done _
    intro fuel
    rw [askFor, evaluate_asksFor hS hrepresents.index, hlinked]
    dsimp only
    rw [hfetch, done_bind]
  · apply evaluates_of_done _
    intro fuel
    rw [askFor, evaluate_asksFor hS hrepresents.index, hnone "x" (by decide)]

end Sample

end DecentralizedCloud.Storage
