import DecentralizedCloud.Storage.Connectives

/-!
# The index of the ids against a scan

A comparison of the id should find what a scan of all documents finds. The index has
two levels: its root leads by "__" to the collection, and the collection links the ids.
Only the equality looks below "__". The other comparisons compare the value with the
name "__" itself, and where that satisfies them they fetch the collection as a
document: its text is no JSON, and the evaluation raises.

The equality finds a document by its link, the scan by its member "id", and an update
may have moved the one away from the other (`agrees_iff`).
-/

namespace DecentralizedCloud.Storage

open Evaluation Machine Schedule

/-! ## Readable entities -/

section Readable

variable (S : Services) (contents : String → Option Contents)

/-- The collection links documents with texts as ids. -/
structure Readable (root : String) (documents : String → Option String) : Prop where
  indexOf : IndexOf contents "collection" root documents
  document : ∀ {documentId hash}, documents documentId = some hash →
    ∃ doc value, fetchDocument S hash = .done doc ∧ doc.get? "id" = some (.str value)

/-- What happens elsewhere leaves the root of the entity alone. -/
def Undisturbed (tid entityId : String) (dht : String → String) : EntityEvent → Prop
  | .create .. | .update .. | .delete .. => True
  | .elsewhere dht' => dht' (dataRootKey tid entityId) = dht (dataRootKey tid entityId)

end Readable

variable {S : Services} {contents : String → Option Contents} (hS : S.Lawful contents)
  {tid entityId root : String} {documents : String → Option String}

section Runs

include hS

/-- The loop over the indexes links a document with a text as id, or changes nothing. -/
theorem readable_updateIndexes (h : Readable S contents root documents) (op : DocumentOp)
    (documentId : String) {documentHash text : String} {inputJson : Json}
    (hhash : op = .delete ∨ contents documentHash = some (text, fun _ => none))
    (hparse : S.parse text = some inputJson) :
    (updateIndexes S tid entityId documentId documentHash op inputJson root
      (S.iteration (edgesOf S root))).Maintains
      (fun dht => ∃ documents, Readable S contents (dht (dataRootKey tid entityId)) documents)
      fun _ => True := by
  by_cases hvalue : ∃ value, inputJson.get? "id" = some (.str value)
  · rcases hvalue with ⟨value, hvalue⟩
    intro σ hσ
    -- the document is new, or has a link
    by_cases hlink : op = .create ∨ documents documentId ≠ none
    · have hknown : op = .delete ∨ contents documentHash ≠ none :=
        hhash.imp_right fun hcontents => by simp [hcontents]
      rcases exec_updateIndexes_of hS h.indexOf hlink hknown hvalue tid entityId with
        ⟨root', hindex, hexec⟩
      rw [hexec]
      refine ⟨⟨op.apply documentId documentHash documents, ?_⟩, fun _ _ => trivial⟩
      dsimp only
      rw [Function.update_self]
      refine ⟨hindex, ?_⟩
      intro documentId' hash hlinked
      unfold DocumentOp.apply at hlinked
      -- the document that was written can be read
      by_cases heq : documentId' = documentId
      · subst heq
        rw [Function.update_self] at hlinked
        split at hlinked
        case isTrue => cases hlinked
        case isFalse hop =>
            cases hlinked
            refine ⟨inputJson, value, ?_, hvalue⟩
            rw [fetchDocument, hS.objectData (hhash.resolve_left hop), Option.getD_some, hparse]
            rfl
      · rw [Function.update_of_ne heq] at hlinked
        exact h.document hlinked
    -- a document without a link is passed over
    · rw [not_or, not_not] at hlink
      rw [exec_updateIndexes_missing hS h.indexOf.index hlink.1 hlink.2 documentHash hvalue tid
        entityId σ]
      exact ⟨hσ, by simp⟩
  -- without a text as id the loop raises or changes nothing
  · rcases exec_updateIndexes_unnamed hS h.indexOf.index (not_exists.mp hvalue) tid entityId
      documentId documentHash op with ⟨result, hexec⟩
    exact maintains_of_exec hexec fun _ _ => trivial

theorem kept_readable (tid entityId : String) : KeptByDocuments S contents tid entityId
    fun dht => ∃ documents, Readable S contents (dht (dataRootKey tid entityId)) documents where
  other := by
    intro dht key hkey value h
    have hne : dataRootKey tid entityId ≠ key := (hkey _).symm
    rwa [Function.update_of_ne hne]
  indexes := by
    intro dht h _ op documentId documentHash text inputJson hhash hparse
    rcases h with ⟨documents, hreadable⟩
    exact readable_updateIndexes hS hreadable op documentId hhash hparse

/-- Commands on the entity keep it readable, and so does what leaves its root alone. -/
theorem readable_step {dht dht' : String → String} {e : EntityEvent}
    (h : ∃ documents, Readable S contents (dht (dataRootKey tid entityId)) documents)
    (hquiet : Undisturbed tid entityId dht e) (hstep : entityStep S tid entityId dht e = some dht') :
    ∃ documents, Readable S contents (dht' (dataRootKey tid entityId)) documents := by
  have hkept := kept_readable hS tid entityId
  cases e with
  | create caller text =>
      cases hstep
      rw [Caller.execute, Prog.run_fst, execute_createDocument]
      exact (maintains_createOrDeleteDocument hS hkept _ _ dht h).1
  | update caller expression text =>
      cases hstep
      rw [Caller.execute, Prog.run_fst, execute_updateDocument]
      exact (maintains_updateOrDeleteDocument hS hkept _ _ dht h).1
  | delete caller expression =>
      cases hstep
      rw [Caller.execute, Prog.run_fst, execute_deleteDocument]
      exact (maintains_updateOrDeleteDocument hS hkept _ _ dht h).1
  | elsewhere dht'' =>
      cases hstep
      rw [hquiet]
      exact h

/-- Whatever commands have been executed on a new entity, it is readable. -/
theorem readable_run {x : CommandEnv} {source channelId txid object : String}
    {dht dht' dht'' : String → String} {es : List EntityEvent}
    (hentity : (addChildNode S x source channelId txid tid templateTree object).exec dht =
      (dht', some ()))
    (h : Trace (entityStep S tid x.guid) (Undisturbed tid x.guid) dht' es dht'') :
    ∃ documents, Readable S contents (dht'' (dataRootKey tid x.guid)) documents := by
  refine h.invariant (fun _ dht => ∃ documents,
    Readable S contents (dht (dataRootKey tid x.guid)) documents) ?_ ?_
  · exact ⟨_, indexOf_new hS hentity, nofun⟩
  · intro _ _ _ _ hreadable hquiet hstep
    exact readable_step hS hreadable hquiet hstep

end Runs

/-! ## The scan -/

theorem ascending_getOrderedEdgeNamesOf (S : Services) (hash : String) :
    Ascending (getOrderedEdgeNamesOf S hash) := by
  have hfold : ∀ (links : List (String × String)) (edges : OrderedEdgeMap), Ascending edges →
      Ascending (links.foldl (fun edges link => edges.insert link.1 link.2) edges) := by
    intro links
    induction links with
    | nil => exact fun _ h => h
    | cons link links ih => exact fun edges h => ih _ (h.insert link.1 link.2)
  exact hfold _ [] .nil

/-- Edges in order are those that a lookup finds. -/
theorem Ascending.mem_iff {edges : OrderedEdgeMap} (h : Ascending edges) {name hash : String} :
    (name, hash) ∈ edges ↔ edges.lookup name = some hash := by
  induction edges with
  | nil => simp
  | cons edge edges ih =>
      rcases edge with ⟨name', hash'⟩
      rcases List.pairwise_cons.mp h with ⟨hhead, hedges⟩
      rw [List.mem_cons, ih hedges, List.lookup_cons]
      by_cases hname : name = name'
      · subst hname
        have hnone : edges.lookup name = none := by
          rw [List.lookup_eq_none_iff]
          intro edge hedge
          simpa using (hhead edge hedge).ne
        simp [hnone, eq_comm]
      · have hne : (name == name') = false := by simpa using hname
        simp [hname, hne]

include hS in
theorem mem_getOrderedEdgeNamesOf {hash data : String} {links : String → Option String}
    (h : contents hash = some (data, links)) {name target : String} :
    (name, target) ∈ getOrderedEdgeNamesOf S hash ↔ links name = some target := by
  rw [(ascending_getOrderedEdgeNamesOf S hash).mem_iff, hS.lookup_getOrderedEdgeNamesOf h]

include hS in
theorem getOrderedEdgeNamesOf_single {hash data name target : String}
    (h : contents hash = some (data, Merkle.single name target)) :
    getOrderedEdgeNamesOf S hash = [(name, target)] := by
  have hnodup : (getOrderedEdgeNamesOf S hash).Nodup := by
    refine (ascending_getOrderedEdgeNamesOf S hash).imp ?_
    rintro edge _ hlt rfl
    exact lt_irrefl _ hlt
  apply List.perm_singleton.mp
  apply (List.perm_ext_iff_of_nodup hnodup (List.nodup_singleton _)).mpr
  rintro ⟨name', target'⟩
  rw [mem_getOrderedEdgeNamesOf hS h, Merkle.single_eq_some]
  simp

theorem exists_fetchDocuments {hashes : List String}
    (h : ∀ hash ∈ hashes, ∃ doc, fetchDocument S hash = .done doc) :
    ∃ docs, fetchDocuments S hashes = .done docs ∧
      ∀ doc, doc ∈ docs ↔ ∃ hash ∈ hashes, fetchDocument S hash = .done doc := by
  induction hashes with
  | nil => exact ⟨[], rfl, by simp⟩
  | cons hash hashes ih =>
      rcases h hash List.mem_cons_self with ⟨doc, hdoc⟩
      rcases ih fun hash hmem => h hash (List.mem_cons_of_mem _ hmem) with ⟨docs, hdocs, hmem⟩
      refine ⟨doc :: docs, ?_, ?_⟩
      · rw [fetchDocuments, hdoc, done_bind, hdocs, done_bind, pure_eq]
      · intro doc'
        rw [List.mem_cons, hmem]
        simp [hdoc, eq_comm]

/-- A link of the collection leads to the document. -/
def LinkedDocument (S : Services) (documents : String → Option String) (documentId : String)
    (doc : Json) : Prop :=
  ∃ hash, documents documentId = some hash ∧ fetchDocument S hash = .done doc

include hS

/-- The nodes of the index, as its readers come to them. -/
theorem Readable.nodes (h : Readable S contents root documents) :
    ∃ bNode cNode links, edgesOf S root = [("id", bNode)] ∧
      getOrderedEdgeNamesOf S bNode = [("__", cNode)] ∧
      S.objectData cNode = some "collection" ∧ getOrderedEdgeNamesOf S cNode = links ∧
      (∀ documentId, links.lookup documentId = documents documentId) ∧
      ∀ documentId hash, (documentId, hash) ∈ links ↔ documents documentId = some hash := by
  rcases h.indexOf with ⟨bNode, cNode, rootData, bData, hroot, hb, hc⟩
  exact ⟨bNode, cNode, _, hS.edgesOf_single hroot, getOrderedEdgeNamesOf_single hS hb,
    hS.objectData hc, rfl, hS.lookup_getOrderedEdgeNamesOf hc,
    fun _ _ => mem_getOrderedEdgeNamesOf hS hc⟩

/-- The scan comes to the documents that are linked. -/
theorem Readable.scan (h : Readable S contents root documents) :
    ∃ docs, fetchDocumentsFromDefaultIndex S (edgesOf S root) = .done (edgesOf S root, docs) ∧
      ∀ doc, doc ∈ docs ↔ ∃ documentId, LinkedDocument S documents documentId doc := by
  rcases h.nodes hS with ⟨bNode, cNode, links, hedges, hb, -, hc, -, hmem⟩
  have hfetch : ∀ hash ∈ links.map (·.2), ∃ doc, fetchDocument S hash = .done doc := by
    intro hash hhash
    rcases List.mem_map.mp hhash with ⟨⟨documentId, hash⟩, hlink, rfl⟩
    rcases h.document ((hmem documentId hash).mp hlink) with ⟨doc, -, hdoc, -⟩
    exact ⟨doc, hdoc⟩
  rcases exists_fetchDocuments hfetch with ⟨docs, hdocs, hdocsmem⟩
  have hid : (edgesOf S root).get "id" = bNode := by
    rw [hedges]
    rfl
  -- the index is under the root already
  have hinsert : (edgesOf S root).insert "id" "" = edgesOf S root :=
    insert_id (h.indexOf.index.has_id hS)
  refine ⟨docs, ?_, ?_⟩
  · simp [fetchDocumentsFromDefaultIndex, hid, hb, hc, hdocs, hinsert]
  · intro doc
    rw [hdocsmem]
    constructor
    · rintro ⟨hash, hhash, hdoc⟩
      rcases List.mem_map.mp hhash with ⟨⟨documentId, hash⟩, hlink, rfl⟩
      exact ⟨documentId, hash, (hmem documentId hash).mp hlink, hdoc⟩
    · rintro ⟨documentId, hash, hlink, hdoc⟩
      exact ⟨hash, List.mem_map.mpr ⟨(documentId, hash), (hmem documentId hash).mpr hlink, rfl⟩,
        hdoc⟩

/-! ## Comparisons -/

def compareId (op : Comparison) (value : String) : TreeNode :=
  .node op.symbol (.leaf "id") (.leaf value)

omit hS in
/-- The evaluation ends, and finds the documents of the scan whose ids satisfy the comparison. -/
def AgreesWithScan (S : Services) (sorts : (operand : String) → KeySort (field operand))
    (root : String) (op : Comparison) (value : String) : Prop :=
  ∃ answer indexes docs, Evaluates S sorts root (compareId op value) answer ∧
    fetchDocumentsFromDefaultIndex S (edgesOf S root) = .done (indexes, docs) ∧
    ∀ doc, doc ∈ found answer ↔ doc ∈ docs ∧ op.Holds (field "id" doc) (.str value)

omit hS in
/-- The name "__" does not satisfy the comparison, or nothing is fetched all the same. -/
def PassesUnique (value : String) : Comparison → Prop
  | .equal | .less => True
  | .notEqual | .greater => "__" ≤ value
  | .greaterEqual | .lessEqual => "__" < value

omit hS in
/-- A document has the id exactly when the link of this name leads to it; and for the other
comparisons, nothing is to be found. -/
def IndexMeets (S : Services) (documents : String → Option String) (op : Comparison)
    (value : String) : Prop :=
  if op = .equal then
    ∀ documentId doc, LinkedDocument S documents documentId doc →
      (doc.get? "id" = some (.str value) ↔ LinkedDocument S documents value doc)
  else PassesUnique value op ∧ ∀ documentId doc, LinkedDocument S documents documentId doc →
    ¬op.Holds (field "id" doc) (.str value)

variable {sorts : (operand : String) → KeySort (field operand)} {value : String}

variable (sorts) in
/-- An equality finds what its link leads to. -/
theorem Readable.evaluate_equal (h : Readable S contents root documents) (value : String) :
    ∃ answer, Evaluates S sorts root (compareId .equal value) answer ∧
      ∀ doc, doc ∈ found answer ↔ LinkedDocument S documents value doc := by
  have heval : ∀ fuel, evaluateExpression S sorts fuel none (compareId .equal value)
      (edgesOf S root) = _ := evaluate_asksFor hS h.indexOf.index value
  cases hlink : documents value with
  | none =>
      refine ⟨.str "", evaluates_of_done (edgesOf S root) ?_, ?_⟩
      · intro fuel
        rw [heval, hlink]
      · intro doc
        simp [found, LinkedDocument, hlink]
  | some hash =>
      rcases h.document hlink with ⟨doc, -, hdoc, -⟩
      refine ⟨.arr [doc], evaluates_of_done (edgesOf S root) ?_, ?_⟩
      · intro fuel
        rw [heval, hlink]
        dsimp only
        rw [hdoc, done_bind]
      · intro doc'
        simp [found, LinkedDocument, hlink, hdoc, eq_comm]

omit hS in
/-- What a comparison other than the equality makes of a single name whose hash leads to no
document. -/
theorem compareIndexed_unique {cNode : String} (hfetch : fetchDocuments S [cNode] = .raised)
    {op : Comparison} (hop : op ≠ .equal) (value : String) :
    (PassesUnique value op → ∃ answer, compareIndexed S op [("__", cNode)] value = .done answer ∧
      found answer = []) ∧
    (¬PassesUnique value op → compareIndexed S op [("__", cNode)] value = .raised) := by
  have hdrop : ∀ p : String × String → Bool, [("__", cNode)].dropWhile p =
      if p ("__", cNode) then [] else [("__", cNode)] := by
    intro p
    cases hp : p ("__", cNode) <;> simp [hp]
  have htake : ∀ p : String × String → Bool, [("__", cNode)].takeWhile p =
      if p ("__", cNode) then [("__", cNode)] else [] := by
    intro p
    cases hp : p ("__", cNode) <;> simp [hp]
  have hnil : (fetchDocuments S [] >>= fun docs => .done (Json.arr docs)) = .done (.arr []) := rfl
  have hraise : (fetchDocuments S [cNode] >>= fun docs => .done (.arr docs)) =
      (.raised : Evaluation Json) := by
    rw [hfetch, raised_bind]
  have hne : [("__", cNode)] ≠ [] := List.cons_ne_nil _ _
  -- what passes over the only name finds nothing, and what fetches it raises
  cases op with
  | equal => exact absurd rfl hop
  | less =>
      refine ⟨fun _ => ?_, fun hpass => absurd trivial hpass⟩
      simp only [compareIndexed, hdrop, htake, decide_eq_true_eq]
      by_cases hlt : "__" < value
      · exact ⟨.str "", by rw [if_pos hlt, if_pos rfl], rfl⟩
      · refine ⟨.arr [], ?_, rfl⟩
        rw [if_neg hlt, if_neg hlt, if_neg hne]
        exact hnil
  | notEqual =>
      simp only [compareIndexed, hdrop, htake, decide_eq_true_eq]
      constructor
      · intro (hle : "__" ≤ value)
        by_cases hlt : "__" < value
        · exact ⟨.str "", by rw [if_pos hlt, if_pos rfl], rfl⟩
        · refine ⟨.arr [], ?_, rfl⟩
          rw [if_neg hlt, if_neg hlt, if_neg hne, if_pos hle]
          exact hnil
      · intro (hle : ¬"__" ≤ value)
        have hlt : ¬"__" < value := fun hlt => hle hlt.le
        rw [if_neg hlt, if_neg hlt, if_neg hne, if_neg hle]
        exact hraise
  | greater =>
      simp only [compareIndexed, hdrop, decide_eq_true_eq]
      constructor
      · intro (hle : "__" ≤ value)
        exact ⟨.str "", by rw [if_pos hle, if_pos rfl], rfl⟩
      · intro (hle : ¬"__" ≤ value)
        rw [if_neg hle, if_neg hne]
        exact hraise
  | greaterEqual =>
      simp only [compareIndexed, hdrop, decide_eq_true_eq]
      constructor
      · intro (hlt : "__" < value)
        exact ⟨.str "", by rw [if_pos hlt, if_pos rfl], rfl⟩
      · intro (hlt : ¬"__" < value)
        rw [if_neg hlt, if_neg hne]
        exact hraise
  | lessEqual =>
      simp only [compareIndexed, hdrop, htake, decide_eq_true_eq]
      constructor
      · intro (hlt : "__" < value)
        exact ⟨.str "", by rw [if_pos hlt, if_pos rfl], rfl⟩
      · intro (hlt : ¬"__" < value)
        rw [if_neg hlt, if_neg hlt, if_neg hne]
        exact hraise

variable (sorts) in
/-- The other comparisons look at the name "__" alone: they find nothing, or raise. -/
theorem Readable.evaluate_other (h : Readable S contents root documents)
    (hcollection : S.parse "collection" = none) {op : Comparison} (hop : op ≠ .equal)
    (value : String) :
    (PassesUnique value op → ∃ answer, Evaluates S sorts root (compareId op value) answer ∧
      found answer = []) ∧
    (¬PassesUnique value op → ¬∃ answer, Evaluates S sorts root (compareId op value) answer) := by
  rcases h.nodes hS with ⟨bNode, cNode, -, hedges, hb, hdata, -⟩
  have hid : (edgesOf S root).at? "id" = some bNode := by
    rw [hedges]
    rfl
  -- the name "__" leads to the collection, whose data is no document
  have hfetch : fetchDocuments S [cNode] = .raised := by
    rw [fetchDocuments, fetchDocument, hdata, Option.getD_some, hcollection]
    rfl
  have heval : ∀ fuel, evaluateExpression S sorts fuel none (compareId op value) (edgesOf S root) =
      (compareIndexed S op [("__", cNode)] value >>= fun _rs => .done (edgesOf S root, _rs)) := by
    intro fuel
    simp only [compareId, evaluateExpression, done_bind, Comparison.ofSymbol_symbol,
      evaluateComparison, asString, hid, hb, hop, false_and, if_false, pure_eq]
  rcases compareIndexed_unique hfetch hop value with ⟨hpass, hraise⟩
  constructor
  · intro hunique
    rcases hpass hunique with ⟨answer, hanswer, hnone⟩
    refine ⟨answer, evaluates_of_done (edgesOf S root) ?_, hnone⟩
    intro fuel
    rw [heval, hanswer, done_bind]
  · rintro hunique ⟨answer, indexes, n, hn⟩
    have hdone := hn n (Nat.le_refl n)
    dsimp only at hdone
    rw [heval, hraise hunique, raised_bind] at hdone
    cases hdone

omit hS in
theorem Evaluates.unique {filter : TreeNode} {answer answer' : Json}
    (h : Evaluates S sorts root filter answer) (h' : Evaluates S sorts root filter answer') :
    answer = answer' := by
  rcases h with ⟨indexes, hreturns⟩
  rcases h' with ⟨indexes', hreturns'⟩
  exact (Prod.mk.inj (hreturns.unique hreturns')).2

/-- What the scan makes of the agreement. -/
theorem Readable.agrees_iff_linked (h : Readable S contents root documents) {op : Comparison} :
    AgreesWithScan S sorts root op value ↔
      ∃ answer, Evaluates S sorts root (compareId op value) answer ∧
        ∀ doc, doc ∈ found answer ↔
          (∃ documentId, LinkedDocument S documents documentId doc) ∧
            op.Holds (field "id" doc) (.str value) := by
  rcases h.scan hS with ⟨docs, hscan, hmem⟩
  constructor
  · rintro ⟨answer, indexes, docs', heval, hscan', hfound⟩
    rw [hscan] at hscan'
    cases hscan'
    refine ⟨answer, heval, ?_⟩
    intro doc
    rw [hfound, hmem]
  · rintro ⟨answer, heval, hfound⟩
    refine ⟨answer, _, docs, heval, hscan, ?_⟩
    intro doc
    rw [hfound, hmem]

omit hS in
theorem Readable.field_id (h : Readable S contents root documents) {documentId : String}
    {doc : Json} (hlinked : LinkedDocument S documents documentId doc) :
    field "id" doc = .str value ↔ doc.get? "id" = some (.str value) := by
  rcases hlinked with ⟨hash, hlink, hdoc⟩
  rcases h.document hlink with ⟨doc', value', hdoc', hid⟩
  rw [hdoc] at hdoc'
  cases hdoc'
  simp [field, hid]

/-- A comparison through the index finds what the scan finds if and only if the index meets it:
for the equality, links and ids agree at the value; for the others, nothing is to be found, and
the name "__" is passed over. -/
theorem agrees_iff {x : CommandEnv} {source channelId txid object : String}
    {dht dht' dht'' : String → String} {es : List EntityEvent}
    (hentity : (addChildNode S x source channelId txid tid templateTree object).exec dht =
      (dht', some ()))
    (hrun : Trace (entityStep S tid x.guid) (Undisturbed tid x.guid) dht' es dht'')
    (hcollection : S.parse "collection" = none) (op : Comparison) (value : String) :
    ∃ documents, Readable S contents (dht'' (dataRootKey tid x.guid)) documents ∧
      (AgreesWithScan S sorts (dht'' (dataRootKey tid x.guid)) op value ↔
        IndexMeets S documents op value) := by
  rcases readable_run hS hentity hrun with ⟨documents, h⟩
  refine ⟨documents, h, ?_⟩
  rw [h.agrees_iff_linked hS, IndexMeets]
  -- only the equality goes through "__" to the names of the collection
  by_cases hop : op = .equal
  · subst hop
    rw [if_pos rfl]
    rcases h.evaluate_equal hS sorts value with ⟨answer, heval, hfound⟩
    constructor
    · rintro ⟨answer', heval', hagrees⟩ documentId doc hlinked
      cases heval.unique heval'
      rw [← hfound, hagrees, Comparison.Holds, h.field_id hlinked]
      exact ⟨fun hid => ⟨⟨documentId, hlinked⟩, hid⟩, fun hboth => hboth.2⟩
    · intro hmeets
      refine ⟨answer, heval, ?_⟩
      intro doc
      rw [hfound]
      constructor
      · intro hlinked
        refine ⟨⟨value, hlinked⟩, ?_⟩
        rw [Comparison.Holds, h.field_id hlinked]
        exact (hmeets value doc hlinked).mpr hlinked
      · rintro ⟨⟨documentId, hlinked⟩, hholds⟩
        rw [Comparison.Holds, h.field_id hlinked] at hholds
        exact (hmeets documentId doc hlinked).mp hholds
  · rw [if_neg hop]
    rcases h.evaluate_other hS sorts hcollection hop value with ⟨hpass, hraise⟩
    constructor
    · rintro ⟨answer, heval, hagrees⟩
      have hunique : PassesUnique value op := by
        by_contra hunique
        exact hraise hunique ⟨answer, heval⟩
      rcases hpass hunique with ⟨answer', heval', hnone⟩
      cases heval.unique heval'
      refine ⟨hunique, ?_⟩
      intro documentId doc hlinked hholds
      have hfound := (hagrees doc).mpr ⟨⟨documentId, hlinked⟩, hholds⟩
      rw [hnone] at hfound
      cases hfound
    · rintro ⟨hunique, hmeets⟩
      rcases hpass hunique with ⟨answer, heval, hnone⟩
      refine ⟨answer, heval, ?_⟩
      intro doc
      rw [hnone]
      constructor
      · intro hdoc
        cases hdoc
      · rintro ⟨⟨documentId, hlinked⟩, hholds⟩
        exact absurd hholds (hmeets documentId doc hlinked)

/-- The links lead to the documents of the map. -/
theorem Represents.linkedDocument_iff {tid entityId : String} {dht : String → String}
    {m : DocumentMap} {links : String → Option String}
    (h : Represents S contents tid entityId dht m links) (documentId : String) (doc : Json) :
    LinkedDocument S links documentId doc ↔
      ∃ members, m.documents documentId = some members ∧ doc = .obj members := by
  cases hdocument : m.documents documentId with
  | none => simp [LinkedDocument, (h.missing hdocument).1]
  | some members =>
      rcases h.mapped hdocument with ⟨hlinked, hstored, -, hwell⟩
      have hfetch : fetchDocument S (dht (documentKey tid entityId documentId)) =
          .done (.obj members) := by
        rw [fetchDocument, hS.objectData hstored, Option.getD_some, hS.parse_dump hwell]
        rfl
      simp [LinkedDocument, hlinked, hfetch, eq_comm]

omit hS

namespace Sample

theorem parse_collection : identityServices.parse "collection" = none := by
  have hparse : identityServices.parse "collection" = Json.parse "collection" := rfl
  rw [hparse]
  decide

end Sample

/-- The document "e" is found under its id, and "d", which is not asked for, is not. -/
theorem agrees_iff_documents :
    ∃ dht : String → String, AgreesWithScan Sample.identityServices Sample.fieldSorts
        (dht (dataRootKey "t" "entity")) .equal "e" ∧
      ∃ documents, ∀ documentId doc,
        LinkedDocument Sample.identityServices documents documentId doc ↔
          documentId ∈ ["d", "e"] ∧ doc = .obj [("id", .str documentId)] := by
  have hS := Sample.identityServices_lawful
  rcases Sample.exists_represented with ⟨dht, dht₁, links₁, hentity, hfirst, hrepresents₁⟩
  rcases Sample.exists_create hrepresents₁ "e" (by decide) with ⟨dht₂, links₂, hsecond, hrepresents⟩
  have hrun : Trace (entityStep Sample.identityServices "t" (Sample.gossipEnv "entity").guid)
      (Undisturbed "t" (Sample.gossipEnv "entity").guid) dht
      [.create (Sample.caller "d") "e30=", .create (Sample.caller "e") "e30="] dht₂ :=
    .cons trivial hfirst (.single trivial hsecond)
  rcases agrees_iff hS hentity hrun Sample.parse_collection .equal "e" with
    ⟨documents, hreadable, hiff⟩
  cases hreadable.indexOf.index.unique hrepresents.index
  -- the index links the two documents
  have hlinked : ∀ documentId doc,
      LinkedDocument Sample.identityServices links₂ documentId doc ↔
        documentId ∈ ["d", "e"] ∧ doc = .obj [("id", .str documentId)] := by
    intro documentId doc
    rw [hrepresents.linkedDocument_iff hS]
    by_cases he : documentId = "e"
    · simp [DocumentMap.apply, Json.insertMember, he, eq_comm]
    · by_cases hd : documentId = "d" <;>
        simp [DocumentMap.apply, DocumentMap.empty, Json.insertMember, he, hd, eq_comm]
  refine ⟨dht₂, hiff.mpr ?_, links₂, hlinked⟩
  intro documentId doc hdoc
  rcases (hlinked documentId doc).mp hdoc with ⟨hid, rfl⟩
  rw [hlinked]
  simp [Json.get?]

/-- The document "d" is above "a", and the index does not find it. -/
theorem greater_id_missed :
    ∃ dht dht', (addChildNode Sample.identityServices (Sample.gossipEnv "entity") "0" "n" "w" "t"
        templateTree "").exec (fun _ => "") = (dht, some ()) ∧
      Run (entityStep Sample.identityServices "t" "entity") dht
        [.create (Sample.caller "d") "e30="] dht' ∧
      ¬ AgreesWithScan Sample.identityServices Sample.fieldSorts (dht' (dataRootKey "t" "entity"))
        .greater "a" := by
  have hS := Sample.identityServices_lawful
  rcases Sample.exists_represented with ⟨dht, dht', links, hentity, hstep, hrepresents⟩
  refine ⟨dht, dht', hentity, .single trivial hstep, ?_⟩
  have hrun : Trace (entityStep Sample.identityServices "t" (Sample.gossipEnv "entity").guid)
      (Undisturbed "t" (Sample.gossipEnv "entity").guid) dht
      [.create (Sample.caller "d") "e30="] dht' := .single trivial hstep
  obtain ⟨documents, hreadable⟩ : ∃ documents, Readable Sample.identityServices
      ObjectStore.contents (dht' (dataRootKey "t" "entity")) documents :=
    readable_run hS hentity hrun
  cases hreadable.indexOf.index.unique hrepresents.index
  rw [hreadable.agrees_iff_linked hS]
  rintro ⟨answer, heval, hagrees⟩
  have hop : Comparison.greater ≠ .equal := by decide
  have hunique : PassesUnique "a" .greater := by
    show "__" ≤ "a"
    decide
  rcases (hreadable.evaluate_other hS _ Sample.parse_collection hop "a").1 hunique with
    ⟨answer', heval', hnone⟩
  cases heval.unique heval'
  -- the document is linked, and greater than "a"
  have hlinked := (hrepresents.linkedDocument_iff hS "d" _).mpr ⟨[("id", .str "d")], rfl, rfl⟩
  have hfound := (hagrees _).mpr ⟨⟨"d", hlinked⟩, by decide⟩
  rw [hnone] at hfound
  cases hfound

end DecentralizedCloud.Storage
