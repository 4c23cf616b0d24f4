import DecentralizedCloud.Storage.ObjectTree

/-!
# Reachable stores

Whatever commands run one after another, whether or not their answers go out, and
whatever else is put between them, every root in the DHT leads to objects: the root of
a tree links objects without links of their own, and the root of an entity leads to its
index. One lemma for each part of a command says that it leaves the DHT so (`Grounds`).
-/

namespace DecentralizedCloud.Storage

open Schedule

/-- The key of a root of functions, templates or documents. -/
def IsRootKey (key : String) : Prop :=
  (∃ (tree : ObjectTree) (tid : String), key = tree.root tid) ∨
    ∃ tid entityId, key = dataRootKey tid entityId

/-- The stores that commands produce out of one without functions, templates and documents.
Whatever else is put, such as blocks and transactions, leaves the roots of these alone. -/
inductive Reachable (S : Services) : (String → String) → Prop where
  | start {dht : String → String} (h : ∀ key, IsRootKey key → dht key = "") : Reachable S dht
  | other {dht dht' : String → String} (h : Reachable S dht)
      (hroots : ∀ key, IsRootKey key → dht' key = dht key) : Reachable S dht'
  | command {dht : String → String} (h : Reachable S dht) (x : CommandEnv) (words : List String)
      (source channelId txid tid : String) :
      Reachable S ((executeStateChangeCommand S x words source channelId txid tid).run dht).1

/-! ## The invariant -/

section Invariant

variable (contents : String → Option Contents)

def IsText (hash : String) : Prop := ∃ text, contents hash = some (text, fun _ => none)

/-- The root of a tree, if there is one, links texts. -/
def IsTree (root : String) : Prop :=
  ∃ links, Rooted contents root links ∧ ∀ objectId hash, links objectId = some hash →
    IsText contents hash

def IsEntity (root : String) : Prop := root = "" ∨ ∃ documents, Index contents root documents

/-- A value that may stand under a key. -/
structure Fit (key value : String) : Prop where
  tree : ∀ (tree : ObjectTree) (tid : String), key = tree.root tid → IsTree contents value
  entity : ∀ tid entityId, key = dataRootKey tid entityId → IsEntity contents value

def Grounded (dht : String → String) : Prop := ∀ key, Fit contents key (dht key)

end Invariant

variable {S : Services} {contents : String → Option Contents}

/-- The part of a command leaves the DHT grounded, and has a result with the property. -/
abbrev Grounds (contents : String → Option Contents) {α : Type} (p : Cmd α) (post : α → Prop) :
    Prop :=
  p.Maintains (Grounded contents) post

theorem fit_of_ne_rootKey {key : String} (h : ∀ name, key ≠ rootKey name) (value : String) :
    Fit contents key value where
  tree := fun _ _ hkey => absurd hkey (h _)
  entity := fun _ _ hkey => absurd hkey (h _)

theorem fit_root {tree : ObjectTree} {tid root : String} (h : IsTree contents root) :
    Fit contents (tree.root tid) root where
  tree := fun _ _ _ => h
  entity := fun tid' entityId hkey => absurd hkey (tree.root_ne_dataRootKey tid tid' entityId)

theorem fit_dataRootKey {tid entityId root : String} (h : IsEntity contents root) :
    Fit contents (dataRootKey tid entityId) root where
  tree := fun tree tid' hkey => absurd hkey.symm (tree.root_ne_dataRootKey tid' tid entityId)
  entity := fun _ _ _ => h

theorem Grounded.update {dht : String → String} (h : Grounded contents dht) {key value : String}
    (hfit : Fit contents key value) : Grounded contents (Function.update dht key value) := by
  intro key'
  by_cases hkey : key' = key
  · subst hkey
    rwa [Function.update_self]
  · rw [Function.update_of_ne hkey]
    exact h key'

/-! ## Parts of commands -/

section Parts

variable {inv : (String → String) → Prop}

theorem maintains_bind {α β : Type} {p : Cmd α} {f : α → Cmd β} {post : α → Prop}
    {post' : β → Prop} (hp : p.Maintains inv post)
    (hf : ∀ a, post a → (f a).Maintains inv post') : (p >>= f).Maintains inv post' :=
  Prog.Maintains.bind hp hf

/-- A part that leaves the DHT alone. -/
theorem maintains_of_exec {α : Type} {p : Cmd α} {post : α → Prop} {result : Option α}
    (h : ∀ σ, p.exec σ = (σ, result)) (hpost : ∀ a ∈ result, post a) : p.Maintains inv post := by
  intro σ hσ
  rw [h]
  exact ⟨hσ, hpost⟩

theorem maintains_ret {α : Type} {post : α → Prop} {a : α} (h : post a) :
    (.ret a : Cmd α).Maintains inv post := by
  apply maintains_of_exec (fun σ => rfl)
  rintro _ ⟨⟩
  exact h

theorem maintains_pure : (pure () : Cmd Unit).Maintains inv fun _ => True := maintains_ret trivial

theorem maintains_raise {α : Type} {post : α → Prop} : (.raise : Cmd α).Maintains inv post :=
  maintains_of_exec (fun _ => rfl) nofun

theorem grounds_dhtGet (key : String) : Grounds contents (dhtGet key) (Fit contents key) := by
  intro σ hσ
  refine ⟨hσ, ?_⟩
  rintro _ ⟨⟩
  exact hσ key

theorem grounds_dhtPut {key value : String} (h : Fit contents key value) :
    Grounds contents (dhtPut key value) fun _ => True := by
  intro σ hσ
  exact ⟨hσ.update h, fun _ _ => trivial⟩

theorem maintains_request {α : Type} (answer : Option α) :
    (request answer : Cmd α).Maintains inv fun a => answer = some a :=
  maintains_of_exec (fun σ => exec_request σ answer) fun _ h => h

theorem maintains_orRaise {α : Type} (answer : Option α) :
    (orRaise answer : Cmd α).Maintains inv fun a => answer = some a :=
  maintains_of_exec (fun σ => exec_orRaise σ answer) fun _ h => h

theorem maintains_send {x : CommandEnv} {source channelId : String} {cmd : CommandType}
    {txid objectId val : String} :
    (send x source channelId cmd txid objectId val).Maintains inv fun _ => True := by
  rcases exec_send x source channelId cmd txid objectId val with ⟨answered, hexec⟩
  exact maintains_of_exec hexec fun _ _ => trivial

theorem maintains_fetchObject (hash : String) :
    (fetchObject S hash).Maintains inv fun _ => True :=
  maintains_of_exec (fun σ => exec_fetchObject σ hash) fun _ _ => trivial

theorem maintains_getUnorderedEdgeNamesOf (hash : String) :
    (getUnorderedEdgeNamesOf S hash).Maintains inv fun names => names = edgesOf S hash := by
  apply maintains_of_exec (fun σ => exec_getUnorderedEdgeNamesOf σ hash)
  rintro _ ⟨⟩
  rfl

theorem maintains_addObject (hS : S.Lawful contents) (text : String) :
    (addObject S text).Maintains inv fun hash => contents hash = some (text, fun _ => none) := by
  rcases exec_addObject_text hS text with ⟨hash, hhash, hexec⟩
  apply maintains_of_exec hexec
  rintro _ ⟨⟩
  exact hhash

/-! ### Commands on documents -/

section Documents

variable {x : CommandEnv} {source channelId txid tid entityId : String} {op : DocumentOp}

/-- Keys of documents may change, and the loop over the indexes keeps the invariant, given the
text of the document and, unless it is deleted, its object. -/
structure KeptByDocuments (S : Services) (contents : String → Option Contents)
    (tid entityId : String) (inv : (String → String) → Prop) : Prop where
  other : ∀ {dht key}, (∀ name, key ≠ rootKey name) → ∀ value, inv dht →
    inv (Function.update dht key value)
  indexes : ∀ {dht}, inv dht → dht (dataRootKey tid entityId) ≠ "" →
    ∀ (op : DocumentOp) (documentId : String) {documentHash text inputJson},
      (op = .delete ∨ contents documentHash = some (text, fun _ => none)) →
      S.parse text = some inputJson →
      (updateIndexes S tid entityId documentId documentHash op inputJson
        (dht (dataRootKey tid entityId))
        (S.iteration (edgesOf S (dht (dataRootKey tid entityId))))).Maintains inv fun _ => True

/-- A change of one document keeps what its writes and its loop keep. -/
theorem maintains_createOrDeleteDocument (hS : S.Lawful contents)
    (hinv : KeptByDocuments S contents tid entityId inv) (documentId documentJson : String) :
    (createOrDeleteDocument S x source channelId txid tid entityId documentId documentJson
      op).Maintains inv fun _ => True := by
  have hname : (nameDocument S x source channelId txid documentJson).Maintains inv
      fun _ => True := by
    unfold nameDocument
    split
    · exact maintains_ret trivial
    · exact maintains_bind maintains_send fun _ _ => maintains_ret trivial
  -- the loop runs over the edges of the root read here, so its store is remembered
  have hread : (dhtGet (dataRootKey tid entityId)).Maintains inv
      fun root => ∃ dht, inv dht ∧ dht (dataRootKey tid entityId) = root := by
    intro σ hσ
    refine ⟨hσ, ?_⟩
    rintro _ ⟨⟩
    exact ⟨σ, hσ, rfl⟩
  unfold createOrDeleteDocument
  apply maintains_bind hread
  rintro _ ⟨dht, hdht, rfl⟩
  split
  case isTrue => exact maintains_send
  case isFalse hroot =>
      dsimp only
      apply maintains_bind
      · show Prog.Maintains inv _ fun _ => True
        split
        · exact hname
        · exact maintains_ret trivial
      intro text _
      apply maintains_bind
      · show Prog.Maintains inv _ fun hash => op = .delete ∨ contents hash = some (text, fun _ => none)
        split
        case isTrue hop => exact maintains_ret (.inl hop)
        case isFalse =>
            intro σ hσ
            rcases maintains_addObject hS text σ hσ with ⟨hkept, hhash⟩
            exact ⟨hkept, fun hash hmem => .inr (hhash hash hmem)⟩
      intro hash hhash
      apply maintains_bind
      · intro σ hσ
        exact ⟨hinv.other (documentKey_ne_rootKey tid entityId _) hash hσ, fun _ _ => trivial⟩
      intro _ _
      apply maintains_bind
      · show Prog.Maintains inv _ fun _ => True
        split
        · exact maintains_send
        · exact maintains_pure
      intro _ _
      apply maintains_bind (maintains_getUnorderedEdgeNamesOf _)
      rintro _ rfl
      apply maintains_bind (maintains_orRaise _)
      intro inputJson hparse
      exact hinv.indexes hdht hroot op _ hhash hparse

theorem maintains_eachDocument (hS : S.Lawful contents)
    (hinv : KeptByDocuments S contents tid entityId inv) (documentJson : String)
    (docs : List Json) :
    (eachDocument S x source channelId txid tid entityId documentJson op docs).Maintains inv
      fun _ => True := by
  induction docs with
  | nil => exact maintains_ret trivial
  | cons doc docs ih =>
      unfold eachDocument
      apply maintains_bind (maintains_orRaise _)
      intro docId _
      apply maintains_bind (maintains_orRaise _)
      intro text _
      exact maintains_bind (maintains_createOrDeleteDocument hS hinv docId text) fun _ _ => ih

/-- So does a change of all documents that a search finds. -/
theorem maintains_updateOrDeleteDocument (hS : S.Lawful contents)
    (hinv : KeptByDocuments S contents tid entityId inv) (expression documentJson : String) :
    (updateOrDeleteDocument S x source channelId txid tid entityId expression documentJson
      op).Maintains inv fun _ => True := by
  have hread : ∀ key, (dhtGet key).Maintains inv fun _ => True :=
    fun key σ hσ => ⟨hσ, fun _ _ => trivial⟩
  -- the search writes nothing
  have hsearch : (searchDocument S tid entityId expression).Maintains inv fun _ => True := by
    unfold searchDocument
    apply maintains_bind (hread _)
    intro hash _
    split
    · exact maintains_ret trivial
    · exact maintains_of_exec (fun σ => exec_request σ _) fun _ _ => trivial
  unfold updateOrDeleteDocument
  apply maintains_bind (hread _)
  intro root _
  split
  · exact maintains_send
  · apply maintains_bind hsearch
    intro docs _
    split
    · exact maintains_send
    · apply maintains_bind
      · show Prog.Maintains inv _ fun _ => True
        split
        · exact maintains_eachDocument hS hinv documentJson _
        -- an answer that is no array raises
        all_goals exact maintains_raise
      intro _ _
      exact maintains_send

end Documents

end Parts

variable (hS : S.Lawful contents) {x : CommandEnv}

include hS

/-! ## Trees -/

theorem IsTree.texts {root data : String} {links : String → Option String}
    (h : IsTree contents root) (hroot : contents root = some (data, links)) :
    ∀ objectId hash, links objectId = some hash → IsText contents hash := by
  rcases h with ⟨links', hrooted, htexts⟩
  rwa [← hrooted.links_eq hS hroot]

theorem isTree_addLink {root hash root' objectId : String} (h : IsTree contents root)
    (hhash : IsText contents hash) (hadd : S.objectPatchAddLink root objectId hash = some root') :
    IsTree contents root' := by
  rcases hS.objects.addLink hadd with ⟨-, data, links, hroot, hroot'⟩
  refine ⟨_, .inr ⟨data, hroot'⟩, ?_⟩
  intro id target hlink
  rw [Function.update_apply] at hlink
  split at hlink
  · cases hlink
    exact hhash
  · exact h.texts hS hroot id target hlink

theorem isTree_rmLink {root root' objectId : String} (h : IsTree contents root)
    (hrm : S.objectPatchRmLink root objectId = some root') : IsTree contents root' := by
  rcases hS.objects.rmLink hrm with ⟨data, links, hroot, -, hroot'⟩
  refine ⟨_, .inr ⟨data, hroot'⟩, ?_⟩
  intro id target hlink
  rw [Function.update_apply] at hlink
  split at hlink
  · cases hlink
  · exact h.texts hS hroot id target hlink

theorem isTree_put {name hash root objectId : String} (hhash : IsText contents hash)
    (hput : S.objectPut name [(objectId, hash)] = some root) : IsTree contents root := by
  have hknown : contents hash ≠ none := by
    rcases hhash with ⟨text, hhash⟩
    simp [hhash]
  rcases hS.objects.put_single name objectId hknown with ⟨root', hput', hroot⟩
  have hsame : S.objectPut name [(objectId, hash)] = some root' := hput'
  rw [hput, Option.some.injEq] at hsame
  subst hsame
  refine ⟨_, .inr ⟨name, hroot⟩, ?_⟩
  intro id target hlink
  rcases Merkle.single_eq_some.mp hlink with ⟨-, rfl⟩
  exact hhash

omit hS in
theorem fit_objectKey (tree : ObjectTree) (tid objectId value : String) :
    Fit contents (tree.key tid objectId) value :=
  fit_of_ne_rootKey (tree.key_ne_rootKey tid objectId) value

omit hS in
theorem fit_transactionKey (hash value : String) : Fit contents (transactionKey hash) value :=
  fit_of_ne_rootKey (fun name => (rootKey_ne_transactionKey name hash).symm) value

/-- Linking an object that has been put keeps the store grounded. -/
theorem grounds_linkToRoot (tree : ObjectTree) (tid objectId txid : String) {hash : String}
    (hhash : IsText contents hash) :
    Grounds contents (linkToRoot S (treeOf tree.name tid) objectId hash txid) fun _ => True := by
  unfold linkToRoot
  apply maintains_bind
  · show Grounds contents _ fun _ => True
    split
    · exact maintains_pure
    · exact grounds_dhtPut (fit_transactionKey hash txid)
  intro _ _
  apply maintains_bind (grounds_dhtGet _)
  intro root hroot
  have hfit : ∀ root', IsTree contents root' →
      Grounds contents (dhtPut (rootKey (treeOf tree.name tid)) root') fun _ => True :=
    fun root' htree => grounds_dhtPut (fit_root htree)
  split
  · exact maintains_bind (maintains_request _) fun root' hput => hfit root' (isTree_put hS hhash hput)
  · exact maintains_bind (maintains_request _) fun root' hadd =>
      hfit root' (isTree_addLink hS (hroot.tree tree tid rfl) hhash hadd)

/-- An addition keeps the store grounded. -/
theorem grounds_addChildNode (tree : ObjectTree)
    {source channelId txid tid object : String} :
    Grounds contents (addChildNode S x source channelId txid tid tree.name object)
      fun _ => True := by
  unfold addChildNode
  apply maintains_bind (maintains_addObject hS object)
  intro hash hhash
  apply maintains_bind (grounds_dhtPut (fit_objectKey tree tid x.guid hash))
  intro _ _
  apply maintains_bind maintains_send
  intro _ _
  apply maintains_bind (grounds_linkToRoot hS tree tid x.guid txid ⟨object, hhash⟩)
  intro _ _
  -- a new template gets the root of its documents as well
  split
  · intro σ hσ
    rcases exec_addDataRoot hS tid x.guid σ with ⟨root, hindex, hexec⟩
    rw [hexec]
    exact ⟨hσ.update (fit_dataRootKey (.inr ⟨_, hindex.index⟩)), fun _ _ => trivial⟩
  · exact maintains_pure

/-- An update keeps the store grounded. -/
theorem grounds_updateChildNode (tree : ObjectTree)
    {source channelId txid tid objectId object : String} :
    Grounds contents (updateChildNode S x source tree.name channelId txid tid objectId object)
      fun _ => True := by
  unfold updateChildNode
  apply maintains_bind (grounds_dhtGet _)
  intro root _
  split
  · exact maintains_send
  · apply maintains_bind (maintains_getUnorderedEdgeNamesOf root)
    intro map _
    apply maintains_bind (maintains_orRaise _)
    intro existingObjectHash _
    split
    · exact maintains_send
    · apply maintains_bind (maintains_fetchObject _)
      intro oldObject _
      apply maintains_bind (maintains_orRaise _)
      intro updatedObject _
      -- the new text is stored before it is linked
      apply maintains_bind (maintains_addObject hS updatedObject)
      intro hash hhash
      apply maintains_bind (grounds_dhtPut (fit_objectKey tree tid objectId hash))
      intro _ _
      apply maintains_bind maintains_send
      intro _ _
      exact grounds_linkToRoot hS tree tid objectId txid ⟨updatedObject, hhash⟩

/-- A delete keeps the store grounded. -/
theorem grounds_deleteObject (tree : ObjectTree) {source channelId txid tid objectId : String} :
    Grounds contents (deleteObject S x source tree.name channelId txid tid objectId)
      fun _ => True := by
  unfold deleteObject
  apply maintains_bind (grounds_dhtPut (fit_objectKey tree tid objectId ""))
  intro _ _
  apply maintains_bind maintains_send
  intro _ _
  apply maintains_bind (grounds_dhtGet _)
  intro root hroot
  apply maintains_bind
  · unfold unLinkToRoot
    apply maintains_bind (maintains_request _)
    intro root' hrm
    apply maintains_bind (grounds_dhtPut (fit_transactionKey root txid))
    intro _ _
    exact grounds_dhtPut (fit_root (isTree_rmLink hS (hroot.tree tree tid rfl) hrm))
  intro _ _
  split
  · exact grounds_dhtPut (fit_dataRootKey (.inl rfl))
  · exact maintains_pure

/-! ## Documents -/

/-- The loop over the indexes puts roots that lead to an index again. -/
theorem grounds_updateIndexes {root : String} {documents : String → Option String}
    (h : Index contents root documents) {op : DocumentOp} {documentHash : String}
    (hhash : op = .delete ∨ contents documentHash ≠ none) {tid entityId documentId : String}
    {inputJson : Json} :
    Grounds contents (updateIndexes S tid entityId documentId documentHash op inputJson root
      (S.iteration (edgesOf S root))) fun _ => True := by
  -- the loop comes to its patch, raises on the missing link, or stops at the id
  by_cases hvalue : ∃ value, inputJson.get? "id" = some (.str value)
  · rcases hvalue with ⟨value, hvalue⟩
    intro σ hσ
    by_cases hlink : op = .create ∨ documents documentId ≠ none
    · rcases exec_updateIndexes hS h hlink hhash hvalue tid entityId with ⟨root', hindex, hexec⟩
      rw [hexec]
      exact ⟨hσ.update (fit_dataRootKey (.inr ⟨_, hindex⟩)), fun _ _ => trivial⟩
    · rw [not_or, not_not] at hlink
      rw [exec_updateIndexes_missing hS h hlink.1 hlink.2 documentHash hvalue tid entityId σ]
      exact ⟨hσ, by simp⟩
  · rcases exec_updateIndexes_unnamed hS h (not_exists.mp hvalue) tid entityId documentId
      documentHash op with ⟨result, hexec⟩
    exact maintains_of_exec hexec fun _ _ => trivial

theorem kept_grounded (tid entityId : String) :
    KeptByDocuments S contents tid entityId (Grounded contents) where
  other := fun hkey value h => h.update (fit_of_ne_rootKey hkey value)
  indexes := by
    intro dht h hroot op documentId documentHash text inputJson hhash _
    rcases ((h _).entity tid entityId rfl).resolve_left hroot with ⟨documents, hindex⟩
    exact grounds_updateIndexes hS hindex (hhash.imp_right fun hcontents => by simp [hcontents])

/-! ## Whole commands -/

/-- Every command keeps the store grounded. -/
theorem grounds_executeStateChangeCommand {words : List String}
    {source channelId txid tid : String} :
    Grounds contents (executeStateChangeCommand S x words source channelId txid tid)
      fun _ => True := by
  unfold executeStateChangeCommand
  apply maintains_bind (maintains_orRaise _)
  intro number _
  split
  · exact grounds_addChildNode hS .function
  · exact maintains_createOrDeleteDocument hS (kept_grounded hS ..) _ _
  · exact grounds_addChildNode hS .template
  · exact grounds_updateChildNode hS .function
  · exact grounds_updateChildNode hS .template
  · exact maintains_updateOrDeleteDocument hS (kept_grounded hS ..) _ _
  · exact grounds_deleteObject hS .function
  · exact grounds_deleteObject hS .template
  · exact maintains_updateOrDeleteDocument hS (kept_grounded hS ..) _ _
  · exact maintains_pure

/-- Every root of a reachable store leads to objects. -/
theorem Reachable.grounded {dht : String → String} (h : Reachable S dht) :
    Grounded contents dht := by
  induction h with
  | start h =>
      intro key
      constructor
      · rintro tree tid rfl
        exact ⟨fun _ => none, .inl ⟨h _ (.inl ⟨tree, tid, rfl⟩), rfl⟩, nofun⟩
      · rintro tid entityId rfl
        exact .inl (h _ (.inr ⟨tid, entityId, rfl⟩))
  | other h hroots ih =>
      intro key
      constructor
      · rintro tree tid rfl
        rw [hroots _ (.inl ⟨tree, tid, rfl⟩)]
        exact (ih _).tree tree tid rfl
      · rintro tid entityId rfl
        rw [hroots _ (.inr ⟨tid, entityId, rfl⟩)]
        exact (ih _).entity tid entityId rfl
  | command h x words source channelId txid tid ih =>
      rw [Prog.run_fst]
      exact (grounds_executeStateChangeCommand hS _ ih).1

end DecentralizedCloud.Storage
