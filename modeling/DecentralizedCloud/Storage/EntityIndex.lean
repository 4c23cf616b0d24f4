import DecentralizedCloud.Storage.Filter
import DecentralizedCloud.Storage.Objects

/-!
# The index of an entity

A new entity has a single index: its root leads by "id" to a node, and from there
by "__" to the collection, which links the ids of the documents to their objects.
A change of a document patches the collection and replaces the links above it
(`exec_updateIndexes`), and a filter that asks for an id looks it up in the
collection (`searchBelow_known`, `searchBelow_unknown`).
-/

namespace DecentralizedCloud.Storage

open Evaluation Schedule

/-! ## Searching below an entity root -/

/-- `searchDocument` behind the read of the root. An exception of the evaluation is
logged, and there is no document then; one of the text is not caught. -/
def searchBelow (S : Services) (sorts : (operand : String) → KeySort (field operand))
    (fuel : Nat) (hash expression : String) : Evaluation Json :=
  match getPostfixedExpressionOf expression >>= getExpressionTreeFrom with
  | .error _ => .raised
  | .ok filterCondition =>
      match evaluateExpression S sorts fuel none filterCondition (edgesOf S hash) with
      | .pending => .pending
      | .raised => .done (.str "")
      | .done (_, docs) => .done docs

/-- The services evaluate filters as `searchBelow` does. -/
def Services.Searches (S : Services) (sorts : (operand : String) → KeySort (field operand)) : Prop :=
  ∀ {hash expression docs}, Returns (fun fuel => searchBelow S sorts fuel hash expression) docs →
    S.evaluate hash expression = some docs

/-- A text of the filter that asks for the document with an id. -/
def AsksFor (documentId expression : String) : Prop :=
  ∃ p before text behind, Renders p (.node "=" (.leaf "id") (.leaf documentId)) text ∧
    Blank before ∧ Blank behind ∧ expression = String.ofList (before ++ text ++ behind)

/-- The filter in its usual form. -/
theorem asksFor_quoted {documentId : String} (h : '"' ∉ documentId.toList) :
    AsksFor documentId (String.ofList (quoted "id" ++ '=' :: quoted documentId)) := by
  have hwell : WellFormed (.node "=" (.leaf "id") (.leaf documentId)) :=
    ⟨by decide, by simp [WellFormed], h⟩
  have hblank : Blank [] := by simp [Blank]
  refine ⟨_, [], _, [], renders_render hwell, hblank, hblank, ?_⟩
  have hrender : render (.node "=" (.leaf "id") (.leaf documentId)) =
      quoted "id" ++ '=' :: quoted documentId := by
    simp [render, TreeNode.level, level]
  rw [hrender, List.nil_append, List.append_nil]

/-! ## Ordered edges -/

section OrderedEdges

/-- The names of the edges ascend. -/
def Ascending (edges : OrderedEdgeMap) : Prop := edges.Pairwise fun edge edge' => edge.1 < edge'.1

theorem mem_insert_edge {name hash : String} {edges : OrderedEdgeMap} {edge : String × String}
    (h : edge ∈ edges.insert name hash) : edge = (name, hash) ∨ edge ∈ edges := by
  induction edges with
  | nil => exact .inl (List.mem_singleton.mp h)
  | cons head edges ih =>
      unfold OrderedEdgeMap.insert at h
      split at h
      · exact List.mem_cons.mp h
      · split at h
        · exact .inr h
        · rcases List.mem_cons.mp h with rfl | h
          · exact .inr List.mem_cons_self
          · exact (ih h).imp_right (List.mem_cons_of_mem _)

/-- Inserting an edge keeps the order of the names. -/
theorem Ascending.insert {edges : OrderedEdgeMap} (h : Ascending edges) (name hash : String) :
    Ascending (edges.insert name hash) := by
  induction edges with
  | nil => exact List.pairwise_singleton ..
  | cons head edges ih =>
      rcases List.pairwise_cons.mp h with ⟨hhead, hedges⟩
      unfold OrderedEdgeMap.insert
      split
      case isTrue hlt =>
          refine List.pairwise_cons.mpr ⟨?_, h⟩
          intro edge hedge
          rcases List.mem_cons.mp hedge with rfl | hedge
          · exact hlt
          · exact hlt.trans (hhead edge hedge)
      case isFalse hge =>
          split
          case isTrue => exact h
          case isFalse hne =>
              refine List.pairwise_cons.mpr ⟨?_, ih hedges⟩
              intro edge hedge
              rcases mem_insert_edge hedge with rfl | hedge
              · exact lt_of_le_of_ne (not_lt.mp hge) (Ne.symm hne)
              · exact hhead edge hedge

/-- Inserting keeps an edge that has the name already. -/
theorem Ascending.lookup_insert {edges : OrderedEdgeMap} (h : Ascending edges)
    (name hash name' : String) :
    (edges.insert name hash).lookup name' =
      (edges.lookup name').or (if name' = name then some hash else none) := by
  induction edges with
  | nil =>
      rw [OrderedEdgeMap.insert, List.lookup_cons]
      by_cases hname : name' = name
      · simp [hname]
      · have hne : (name' == name) = false := by simpa using hname
        simp [hname, hne]
  | cons head edges ih =>
      rcases head with ⟨n, hash'⟩
      rcases List.pairwise_cons.mp h with ⟨hhead, hedges⟩
      unfold OrderedEdgeMap.insert
      split
      case isTrue hlt =>
          rw [List.lookup_cons]
          by_cases hname : name' = name
          · -- no edge behind has the new name
            have hnone : ((n, hash') :: edges).lookup name' = none := by
              rw [List.lookup_eq_none_iff]
              intro edge hedge
              rcases List.mem_cons.mp hedge with rfl | hedge
              · simpa [hname] using hlt.ne
              · simpa [hname] using (hlt.trans (hhead edge hedge)).ne
            rw [hnone]
            simp [hname]
          · have hne : (name' == name) = false := by simpa using hname
            simp [hname, hne]
      case isFalse =>
          split
          case isTrue heq =>
              subst heq
              by_cases hname : name' = name
              · simp [hname]
              · simp [hname]
          case isFalse =>
              rw [List.lookup_cons, List.lookup_cons, ih hedges]
              cases name' == n <;> simp

theorem lookup_foldl_insert {edges : OrderedEdgeMap} (h : Ascending edges)
    (links : List (String × String)) (name : String) :
    (links.foldl (fun edges link => OrderedEdgeMap.insert link.1 link.2 edges) edges).lookup name =
      (edges.lookup name).or (links.lookup name) := by
  induction links generalizing edges with
  | nil => simp
  | cons link links ih =>
      rcases link with ⟨name', hash⟩
      rw [List.foldl_cons, ih (h.insert name' hash), h.lookup_insert, Option.or_assoc,
        List.lookup_cons]
      by_cases hname : name = name'
      · simp [hname]
      · have hne : (name == name') = false := by simpa using hname
        simp [hname, hne]

end OrderedEdges

/-! ## The index -/

/-- The entity root leads by "id" and then by "__" to the collection of the documents, which
links their ids to their hashes. -/
def Index (contents : String → Option Contents) (root : String)
    (documents : String → Option String) : Prop :=
  ∃ bNode cNode rootData bData cData,
    contents root = some (rootData, Merkle.single "id" bNode) ∧
      contents bNode = some (bData, Merkle.single "__" cNode) ∧
      contents cNode = some (cData, documents)

/-- An index whose collection has this text. -/
def IndexOf (contents : String → Option Contents) (cData root : String)
    (documents : String → Option String) : Prop :=
  ∃ bNode cNode rootData bData,
    contents root = some (rootData, Merkle.single "id" bNode) ∧
      contents bNode = some (bData, Merkle.single "__" cNode) ∧
      contents cNode = some (cData, documents)

/-- What becomes of the links of the collection. -/
def DocumentOp.apply (op : DocumentOp) (documentId documentHash : String)
    (documents : String → Option String) : String → Option String :=
  Function.update documents documentId (if op = .delete then none else some documentHash)

variable {S : Services} {contents : String → Option Contents} (hS : S.Lawful contents)
  {sorts : (operand : String) → KeySort (field operand)} {root : String}
  {cData : String} {documents : String → Option String}

theorem IndexOf.index (h : IndexOf contents cData root documents) :
    Index contents root documents := by
  rcases h with ⟨bNode, cNode, rootData, bData, hnodes⟩
  exact ⟨bNode, cNode, rootData, bData, cData, hnodes⟩

theorem Index.exists_indexOf (h : Index contents root documents) :
    ∃ cData, IndexOf contents cData root documents := by
  rcases h with ⟨bNode, cNode, rootData, bData, cData, hnodes⟩
  exact ⟨cData, bNode, cNode, rootData, bData, hnodes⟩

/-- The root determines the documents of an index. -/
theorem Index.unique {documents' : String → Option String} (h : Index contents root documents)
    (h' : Index contents root documents') : documents = documents' := by
  rcases h with ⟨bNode, cNode, rootData, bData, cData, hroot, hb, hc⟩
  rcases h' with ⟨bNode', cNode', rootData', bData', cData', hroot', hb', hc'⟩
  rw [hroot, Option.some.injEq, Prod.mk.injEq] at hroot'
  have hnode : bNode = bNode' := by
    have hlink := congrFun hroot'.2 "id"
    simpa using hlink
  subst hnode
  rw [hb, Option.some.injEq, Prod.mk.injEq] at hb'
  have hcollection : cNode = cNode' := by
    have hlink := congrFun hb'.2 "__"
    simpa using hlink
  subst hcollection
  rw [hc, Option.some.injEq, Prod.mk.injEq] at hc'
  exact hc'.2

include hS

theorem Index.ne_empty (h : Index contents root documents) : root ≠ "" := by
  rcases h with ⟨_, _, _, _, _, hroot, -, -⟩
  exact hS.ne_empty hroot

theorem Services.Lawful.lookup_getOrderedEdgeNamesOf {hash data : String}
    {links : String → Option String} (h : contents hash = some (data, links)) (name : String) :
    (getOrderedEdgeNamesOf S hash).lookup name = links name := by
  rcases hS.objectLinks h with ⟨edges, hedges, hmem⟩
  rw [getOrderedEdgeNamesOf, hedges, Option.getD_some, lookup_foldl_insert List.Pairwise.nil,
    lookup_edges hmem]
  exact Option.none_or

/-- The root of the documents of a new template leads to an empty collection. -/
theorem exec_addDataRoot (tid objectId : String) (σ : String → String) :
    ∃ root', IndexOf contents "collection" root' (fun _ => none) ∧
      (addDataRoot S tid objectId).exec σ =
        (Function.update σ (dataRootKey tid objectId) root', some ()) := by
  rcases hS.objects.put_nil (dataRootKey tid objectId) with ⟨aNode, hputA, hA⟩
  rcases hS.objects.put_nil "id" with ⟨bNode, hputB, hB⟩
  rcases hS.objects.put_nil "collection" with ⟨cNode, hputC, hC⟩
  have hknownC : contents cNode ≠ none := by simp [hC]
  rcases hS.objects.patch_addLink hB "__" hknownC with ⟨bNode', haddB, hB'⟩
  have hknownB : contents bNode' ≠ none := by simp [hB']
  rcases hS.objects.patch_addLink hA "id" hknownB with ⟨aNode', haddA, hA'⟩
  refine ⟨aNode', ⟨bNode', cNode, _, _, hA', hB', hC⟩, ?_⟩
  have hputA' : S.objectPut (dataRootKey tid objectId) [] = some aNode := hputA
  have hputB' : S.objectPut "id" [] = some bNode := hputB
  have hputC' : S.objectPut "collection" [] = some cNode := hputC
  have haddB' : S.objectPatchAddLink bNode "__" cNode = some bNode' := haddB
  have haddA' : S.objectPatchAddLink aNode "id" bNode' = some aNode' := haddA
  simp [addDataRoot, Prog.exec_bind, hputA', hputB', hputC', haddB', haddA']

/-! ### Changing a document -/

/-- The patch of the collection itself. -/
theorem patch_collection {cNode : String} (hc : contents cNode = some (cData, documents))
    {op : DocumentOp} {documentId documentHash : String}
    (hid : op = .create ∨ documents documentId ≠ none)
    (hhash : op = .delete ∨ contents documentHash ≠ none) :
    ∃ cNode₁ cNode₂,
      (if op = .create then some cNode else S.objectPatchRmLink cNode documentId) = some cNode₁ ∧
      (if op = .delete then some cNode₁
        else S.objectPatchAddLink cNode₁ documentId documentHash) = some cNode₂ ∧
      contents cNode₂ = some (cData, op.apply documentId documentHash documents) := by
  cases op with
  | create =>
      have hknown := hhash.resolve_left (by decide)
      rcases hS.objects.patch_addLink hc documentId hknown with ⟨cNode₂, hadd, hc₂⟩
      exact ⟨cNode, cNode₂, rfl, hadd, hc₂⟩
  | update =>
      have hlink := hid.resolve_left (by decide)
      have hknown := hhash.resolve_left (by decide)
      rcases hS.objects.replaceLink hc hlink hknown with ⟨cNode₁, cNode₂, hrm, hadd, hc₂⟩
      exact ⟨cNode₁, cNode₂, hrm, hadd, hc₂⟩
  | delete =>
      have hlink := hid.resolve_left (by decide)
      rcases hS.objects.patch_rmLink hc hlink with ⟨cNode₁, hrm, hc₁⟩
      exact ⟨cNode₁, cNode₁, hrm, rfl, hc₁⟩

/-- The index of the ids gets a new root, with one link changed. -/
theorem exec_updateIndex (h : IndexOf contents cData root documents) {op : DocumentOp}
    {documentId documentHash : String} (hid : op = .create ∨ documents documentId ≠ none)
    (hhash : op = .delete ∨ contents documentHash ≠ none) (value : String) :
    ∃ bNode root', edgesOf S root = [("id", bNode)] ∧
      IndexOf contents cData root' (op.apply documentId documentHash documents) ∧
      ∀ σ, (updateIndex S documentId documentHash op root "id" bNode value).exec σ =
        (σ, some root') := by
  rcases h with ⟨bNode, cNode, rootData, bData, hroot, hb, hc⟩
  rcases patch_collection hS hc hid hhash with ⟨cNode₁, cNode₂, hfirst, hsecond, hc₂⟩
  -- the links above lead to the new nodes
  have hlink : Merkle.single "__" cNode "__" ≠ none := by simp
  have hknown : contents cNode₂ ≠ none := by simp [hc₂]
  rcases hS.objects.replaceLink hb hlink hknown with ⟨bNode₁, bNode₂, hrmB, haddB, hb₂⟩
  have hlink' : Merkle.single "id" bNode "id" ≠ none := by simp
  have hknown' : contents bNode₂ ≠ none := by simp [hb₂]
  rcases hS.objects.replaceLink hroot hlink' hknown' with ⟨root₁, root₂, hrmA, haddA, hroot₂⟩
  rw [Merkle.update_single] at hb₂ hroot₂
  refine ⟨bNode, root₂, hS.edgesOf_single hroot,
    ⟨bNode₂, cNode₂, rootData, bData, hroot₂, hb₂, hc₂⟩, ?_⟩
  intro σ
  have hrmB' : S.objectPatchRmLink bNode "__" = some bNode₁ := hrmB
  have haddB' : S.objectPatchAddLink bNode₁ "__" cNode₂ = some bNode₂ := haddB
  have hrmA' : S.objectPatchRmLink root "id" = some root₁ := hrmA
  have haddA' : S.objectPatchAddLink root₁ "id" bNode₂ = some root₂ := haddA
  have hfound : (edgesOf S bNode).at? "__" = some cNode := by
    rw [hS.edgesOf_single hb]
    simp [FieldValueMap.at?]
  have hexecFirst : (if op = .create then (.ret cNode : Cmd String)
      else request (S.objectPatchRmLink cNode documentId)).exec σ = (σ, some cNode₁) := by
    rw [← hfirst]
    split
    · rfl
    · exact exec_request σ _
  have hexecSecond : (if op = .delete then (.ret cNode₁ : Cmd String)
      else request (S.objectPatchAddLink cNode₁ documentId documentHash)).exec σ =
        (σ, some cNode₂) := by
    rw [← hsecond]
    split
    · rfl
    · exact exec_request σ _
  simp [updateIndex, Prog.exec_bind, hfound, hexecFirst, hexecSecond, hrmB', haddB', hrmA', haddA']

/-- An update or a delete of a document that the collection does not have raises. -/
theorem exec_updateIndex_missing (h : Index contents root documents) {op : DocumentOp}
    (hop : op ≠ .create) {documentId : String} (hid : documents documentId = none)
    (documentHash value : String) :
    ∃ bNode, edgesOf S root = [("id", bNode)] ∧
      ∀ σ, (updateIndex S documentId documentHash op root "id" bNode value).exec σ = (σ, none) := by
  rcases h with ⟨bNode, cNode, rootData, bData, cData, hroot, hb, hc⟩
  refine ⟨bNode, hS.edgesOf_single hroot, ?_⟩
  intro σ
  have hfound : (edgesOf S bNode).at? "__" = some cNode := by
    rw [hS.edgesOf_single hb]
    simp [FieldValueMap.at?]
  have hrm : S.objectPatchRmLink cNode documentId = none := by
    apply hS.objects.rmLink_eq_none
    intro data links hc'
    rw [hc, Option.some.injEq, Prod.mk.injEq] at hc'
    rw [← hc'.2, hid]
  simp [updateIndex, Prog.exec_bind, hfound, hop, hrm]

/-- The loop over the indexes moves the root of the entity to the changed collection. -/
theorem exec_updateIndexes_of (h : IndexOf contents cData root documents) {op : DocumentOp}
    {documentId documentHash : String} (hid : op = .create ∨ documents documentId ≠ none)
    (hhash : op = .delete ∨ contents documentHash ≠ none) {inputJson : Json} {value : String}
    (hvalue : inputJson.get? "id" = some (.str value)) (tid entityId : String) :
    ∃ root', IndexOf contents cData root' (op.apply documentId documentHash documents) ∧
      ∀ σ, (updateIndexes S tid entityId documentId documentHash op inputJson root
          (S.iteration (edgesOf S root))).exec σ =
        (Function.update σ (dataRootKey tid entityId) root', some ()) := by
  rcases exec_updateIndex hS h hid hhash value with ⟨bNode, root', hedges, hindex, hexec⟩
  refine ⟨root', hindex, ?_⟩
  intro σ
  rw [hedges, hS.iteration_singleton, updateIndexes, hvalue]
  simp [Prog.exec_bind, hexec, updateIndexes]

theorem exec_updateIndexes (h : Index contents root documents) {op : DocumentOp}
    {documentId documentHash : String} (hid : op = .create ∨ documents documentId ≠ none)
    (hhash : op = .delete ∨ contents documentHash ≠ none) {inputJson : Json} {value : String}
    (hvalue : inputJson.get? "id" = some (.str value)) (tid entityId : String) :
    ∃ root', Index contents root' (op.apply documentId documentHash documents) ∧
      ∀ σ, (updateIndexes S tid entityId documentId documentHash op inputJson root
          (S.iteration (edgesOf S root))).exec σ =
        (Function.update σ (dataRootKey tid entityId) root', some ()) := by
  rcases h.exists_indexOf with ⟨cData, hindexOf⟩
  rcases exec_updateIndexes_of hS hindexOf hid hhash hvalue tid entityId with
    ⟨root', hindex, hexec⟩
  exact ⟨root', hindex.index, hexec⟩

theorem exec_updateIndexes_missing (h : Index contents root documents) {op : DocumentOp}
    (hop : op ≠ .create) {documentId : String} (hid : documents documentId = none)
    (documentHash : String) {inputJson : Json} {value : String}
    (hvalue : inputJson.get? "id" = some (.str value)) (tid entityId : String)
    (σ : String → String) :
    (updateIndexes S tid entityId documentId documentHash op inputJson root
      (S.iteration (edgesOf S root))).exec σ = (σ, none) := by
  rcases exec_updateIndex_missing hS h hop hid documentHash value with ⟨bNode, hedges, hexec⟩
  rw [hedges, hS.iteration_singleton, updateIndexes, hvalue]
  simp [Prog.exec_bind, hexec]

/-- Without a text as id the loop changes nothing. -/
theorem exec_updateIndexes_unnamed (h : Index contents root documents) {inputJson : Json}
    (hid : ∀ value, inputJson.get? "id" ≠ some (.str value))
    (tid entityId documentId documentHash : String) (op : DocumentOp) :
    ∃ result, ∀ σ, (updateIndexes S tid entityId documentId documentHash op inputJson root
      (S.iteration (edgesOf S root))).exec σ = (σ, result) := by
  rcases h with ⟨bNode, cNode, rootData, bData, cData, hroot, -, -⟩
  rw [hS.edgesOf_single hroot, hS.iteration_singleton, updateIndexes]
  split
  · exact ⟨_, fun _ => rfl⟩
  · rename_i value hvalue
    exact absurd hvalue (hid value)
  · exact ⟨_, fun _ => rfl⟩

/-- The object of a document, or the empty string when it is deleted. -/
def HashOf (contents : String → Option Contents) (op : DocumentOp) (text hash : String) : Prop :=
  if op = .delete then hash = "" else contents hash = some (text, fun _ => none)

/-- The text, the key of the document and then the root of the entity are put. -/
theorem exec_createOrDeleteDocument {x : CommandEnv} {source : String} (hsend : Delivered x source)
    {channelId txid tid entityId documentId documentJson : String} {op : DocumentOp}
    {dht : String → String} (h : Index contents (dht (dataRootKey tid entityId)) documents)
    {id text value : String} {j : Json} (hid : (if op = .create then x.guid.text else documentId) = id)
    (hname : (if op = .create then nameDocument S x source channelId txid documentJson
      else .ret documentJson).exec dht = (dht, some text))
    (hparse : S.parse text = some j) (hvalue : j.get? "id" = some (.str value))
    (hlink : op = .create ∨ documents id ≠ none) :
    ∃ hash root', HashOf contents op text hash ∧
      Index contents root' (op.apply id hash documents) ∧
      (createOrDeleteDocument S x source channelId txid tid entityId documentId documentJson
        op).exec dht =
        (Function.update (Function.update dht (documentKey tid entityId id) hash)
          (dataRootKey tid entityId) root', some ()) := by
  -- a delete puts no text
  obtain ⟨hash, hhash, hexecHash⟩ : ∃ hash, HashOf contents op text hash ∧
      (if op = .delete then (.ret "" : Cmd String) else addObject S text).exec dht =
        (dht, some hash) := by
    unfold HashOf
    split
    · exact ⟨"", rfl, rfl⟩
    · rcases hS.objects.put_nil text with ⟨hash, hput, hhash⟩
      refine ⟨hash, hhash, ?_⟩
      have hput' : S.objectPut text [] = some hash := hput
      rw [exec_addObject, hput', Option.getD_some]
  have hknown : op = .delete ∨ contents hash ≠ none := by
    by_cases hop : op = .delete
    · exact .inl hop
    · rw [HashOf, if_neg hop] at hhash
      exact .inr (by simp [hhash])
  rcases exec_updateIndexes hS h hlink hknown hvalue tid entityId with ⟨root', hindex, hexec⟩
  refine ⟨hash, root', hhash, hindex, ?_⟩
  -- only a new document is answered here
  have hanswer : ∀ σ, (if op = .create then
      send x source channelId .stateChange txid id hash else pure ()).exec σ = (σ, some ()) := by
    intro σ
    split
    · exact hsend _ _ _ _ _ _
    · rfl
  simp [createOrDeleteDocument, Prog.exec_bind, h.ne_empty hS, hid, hname, hexecHash, hanswer,
    hparse, hexec]

omit hS in
theorem exec_nameDocument {x : CommandEnv} {source channelId txid documentJson : String}
    {members : List (String × Json)} (hparse : S.parse documentJson = some (.obj members))
    (σ : String → String) :
    (nameDocument S x source channelId txid documentJson).exec σ =
      (σ, some (S.dump (.obj (Json.insertMember "id" (.str x.guid) members)))) := by
  simp [nameDocument, hparse, Json.setMember]

/-! ### Looking a document up -/

omit hS in
theorem parse_asksFor {documentId expression : String} (h : AsksFor documentId expression) :
    (getPostfixedExpressionOf expression >>= getExpressionTreeFrom) =
      .ok (.node "=" (.leaf "id") (.leaf documentId)) := by
  rcases h with ⟨p, before, text, behind, hrenders, hbefore, hbehind, rfl⟩
  rw [getPostfixedExpressionOf_of_renders hrenders hbefore hbehind]
  exact getExpressionTreeFrom_elementsOf hrenders

/-- An equality of the id is the lookup of this id in the collection. -/
theorem evaluate_asksFor (h : Index contents root documents) (documentId : String) (fuel : Nat) :
    evaluateExpression S sorts fuel none (.node "=" (.leaf "id") (.leaf documentId))
        (edgesOf S root) = match documents documentId with
      | some hash => fetchDocument S hash >>= fun doc => .done (edgesOf S root, .arr [doc])
      | none => .done (edgesOf S root, .str "") := by
  rcases h with ⟨bNode, cNode, rootData, bData, cData, hroot, hb, hc⟩
  have hsymbol : Comparison.ofSymbol "=" = some .equal := by decide
  have hindex : (edgesOf S root).at? "id" = some bNode := by
    rw [hS.at?_edgesOf hroot, Merkle.single_self]
  have hcollection : (getOrderedEdgeNamesOf S bNode).lookup "__" = some cNode := by
    rw [hS.lookup_getOrderedEdgeNamesOf hb, Merkle.single_self]
  have hlookup := hS.lookup_getOrderedEdgeNamesOf hc documentId
  simp only [evaluateExpression, evaluateComparison, done_bind, pure_eq, hsymbol, asString, hindex,
    hcollection, and_self, if_true, Option.getD_some, compareIndexed, hlookup]
  cases documents documentId with
  | none => rfl
  | some hash =>
      simp only [List.map_cons, List.map_nil, fetchDocuments]
      cases fetchDocument S hash <;> rfl

/-- A filter that asks for an id looks it up. -/
theorem searchBelow_eq (h : Index contents root documents) {documentId expression : String}
    (hasks : AsksFor documentId expression) (fuel : Nat) :
    searchBelow S sorts fuel root expression = match documents documentId with
      | some hash => match fetchDocument S hash with
        | .done doc => .done (.arr [doc])
        | .pending => .pending
        | .raised => .done (.str "")
      | none => .done (.str "") := by
  rw [searchBelow, parse_asksFor hasks]
  simp only [evaluate_asksFor hS h]
  cases documents documentId with
  | none => rfl
  | some hash =>
      dsimp only
      cases fetchDocument S hash <;> rfl

/-! ## Words -/

section Dispatch

omit hS

variable (S) (x : CommandEnv) (source channelId txid tid entityId expression text : String)

theorem execute_createDocument :
    executeStateChangeCommand S x ["2", entityId, text] source channelId txid tid =
      createOrDeleteDocument S x source channelId txid tid entityId "" (S.base64_decode text)
        .create := by
  have hcode : stoi "2" = some 2 ∧ Command.ofCode 2 = some .addDocument := by decide
  simp [executeStateChangeCommand, word, hcode, orRaise]

theorem execute_updateDocument :
    executeStateChangeCommand S x ["5", entityId, expression, text] source channelId txid tid =
      updateOrDeleteDocument S x source channelId txid tid entityId expression
        (S.base64_decode text) .update := by
  have hcode : stoi "5" = some 5 ∧ Command.ofCode 5 = some .updateDocument := by decide
  simp [executeStateChangeCommand, word, hcode, orRaise]

theorem execute_deleteDocument :
    executeStateChangeCommand S x ["8", entityId, expression] source channelId txid tid =
      updateOrDeleteDocument S x source channelId txid tid entityId expression "" .delete := by
  have hcode : stoi "8" = some 8 ∧ Command.ofCode 8 = some .deleteDocument := by decide
  simp [executeStateChangeCommand, word, hcode, orRaise]

end Dispatch

end DecentralizedCloud.Storage
