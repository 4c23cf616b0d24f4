import DecentralizedCloud.Storage.Commands

/-!
# What the commands read, write and answer

A command is confined to keys that it may read and keys that it may write, and to the
answers that `send` gives, whatever the services answer.
-/

namespace DecentralizedCloud.Storage

open Schedule
open StateQueue (CommandInfo)

section Confined

variable {S : Services} {x : CommandEnv}

/-- The program reads and writes keys of these kinds only, and emits such answers only. -/
def Confined {α : Type} (readable writable : String → Prop) (allowed : Response → Prop)
    (p : Cmd α) : Prop :=
  p.Reads readable ∧ p.Writes writable ∧ p.Emits allowed

/-- All answers to the source are allowed. -/
def SendsOnly (x : CommandEnv) (source : String) (allowed : Response → Prop) : Prop :=
  ∀ channelId cmd txid objectId val,
    (send x source channelId cmd txid objectId val).Emits allowed

variable {readable writable : String → Prop} {allowed : Response → Prop}

theorem Confined.bind {α β : Type} {p : Cmd α} {f : α → Cmd β}
    (hp : Confined readable writable allowed p)
    (hf : ∀ a, Confined readable writable allowed (f a)) :
    Confined readable writable allowed (p >>= f) :=
  ⟨Prog.Reads.bind hp.1 fun a => (hf a).1, Prog.Writes.bind hp.2.1 fun a => (hf a).2.1,
    Prog.Emits.bind hp.2.2 fun a => (hf a).2.2⟩

@[simp] theorem confined_ret {α : Type} (a : α) :
    Confined readable writable allowed (.ret a : Cmd α) := ⟨trivial, trivial, trivial⟩

@[simp] theorem confined_pure {α : Type} (a : α) :
    Confined readable writable allowed (pure a : Cmd α) := ⟨trivial, trivial, trivial⟩

@[simp] theorem confined_raise {α : Type} :
    Confined readable writable allowed (.raise : Cmd α) := ⟨trivial, trivial, trivial⟩

theorem confined_dhtGet {key : String} (h : readable key) :
    Confined readable writable allowed (dhtGet key) :=
  ⟨⟨h, fun _ => trivial⟩, fun _ => trivial, fun _ => trivial⟩

theorem confined_dhtPut {key : String} (h : writable key) (value : String) :
    Confined readable writable allowed (dhtPut key value) :=
  ⟨trivial, ⟨h, trivial⟩, trivial⟩

@[simp] theorem confined_request {α : Type} (answer : Option α) :
    Confined readable writable allowed (request answer) := by
  cases answer <;> exact ⟨trivial, trivial, trivial⟩

@[simp] theorem confined_orRaise {α : Type} (answer : Option α) :
    Confined readable writable allowed (orRaise answer) := by
  cases answer <;> exact ⟨trivial, trivial, trivial⟩

@[simp] theorem confined_addObject (data : String) :
    Confined readable writable allowed (addObject S data) :=
  confined_request _

@[simp] theorem confined_addObjectAndLink (data child link : String) :
    Confined readable writable allowed (addObjectAndLink S data child link) :=
  confined_request _

@[simp] theorem confined_fetchObject (hash : String) :
    Confined readable writable allowed (fetchObject S hash) :=
  confined_request _

@[simp] theorem confined_getUnorderedEdgeNamesOf (nodeHash : String) :
    Confined readable writable allowed (getUnorderedEdgeNamesOf S nodeHash) :=
  confined_request _

theorem sendsOnly_all (x : CommandEnv) (source : String) : SendsOnly x source fun _ => True := by
  intro channelId cmd txid objectId val
  unfold send
  split
  · dsimp only
    split
    · exact ⟨trivial, trivial⟩
    · trivial
    · trivial
  · exact ⟨trivial, trivial⟩

variable {source : String}

@[simp] theorem confined_send (hsend : SendsOnly x source allowed) (channelId : String)
    (cmd : CommandType) (txid objectId val : String) :
    Confined readable writable allowed (send x source channelId cmd txid objectId val) := by
  refine ⟨?_, ?_, hsend channelId cmd txid objectId val⟩
  · unfold send
    split
    · dsimp only
      split <;> trivial
    · trivial
  · unfold send
    split
    · dsimp only
      split <;> trivial
    · trivial

/-! ### Functions and templates -/

theorem confined_linkToRoot {tree : String} (hread : readable (rootKey tree))
    (hwrite : writable (rootKey tree)) (htx : ∀ hash, writable (transactionKey hash))
    (objectId objectHash txid : String) :
    Confined readable writable allowed (linkToRoot S tree objectId objectHash txid) := by
  unfold linkToRoot
  apply Confined.bind
  · split
    · simp
    · exact confined_dhtPut (htx objectHash) txid
  intro _
  apply Confined.bind (confined_dhtGet hread)
  intro rootHash
  apply Confined.bind
  · split <;> simp
  exact fun newRootHash => confined_dhtPut hwrite newRootHash

theorem confined_unLinkToRoot {tree : String} (hwrite : writable (rootKey tree))
    (htx : ∀ hash, writable (transactionKey hash)) (txid rootHash objectId : String) :
    Confined readable writable allowed (unLinkToRoot S tree txid rootHash objectId) := by
  unfold unLinkToRoot
  apply Confined.bind (confined_request _)
  intro newRootHash
  exact Confined.bind (confined_dhtPut (htx rootHash) txid)
    fun _ => confined_dhtPut hwrite newRootHash

theorem confined_addDataRoot {tid objectId : String}
    (hwrite : writable (dataRootKey tid objectId)) :
    Confined readable writable allowed (addDataRoot S tid objectId) := by
  unfold addDataRoot
  refine Confined.bind (by simp) fun _ => Confined.bind (by simp) fun _ => ?_
  refine Confined.bind (by simp) fun _ => Confined.bind (by simp) fun _ => ?_
  exact Confined.bind (by simp) fun newDataRootHash => confined_dhtPut hwrite newDataRootHash

/-- The keys of an addition. -/
theorem confined_addChildNode (hsend : SendsOnly x source allowed)
    {tree tid : String} (hread : readable (rootKey (treeOf tree tid)))
    (hwrite : writable (rootKey (treeOf tree tid))) (htx : ∀ hash, writable (transactionKey hash))
    (hobject : writable (objectKey tree tid x.guid))
    (hdata : tree = templateTree → writable (dataRootKey tid x.guid))
    (channelId txid object : String) :
    Confined readable writable allowed
      (addChildNode S x source channelId txid tid tree object) := by
  unfold addChildNode
  apply Confined.bind (confined_addObject object)
  intro objectHash
  dsimp only
  refine Confined.bind (confined_dhtPut hobject _) fun _ => ?_
  refine Confined.bind (by simp [hsend]) fun _ => ?_
  refine Confined.bind (confined_linkToRoot hread hwrite htx _ _ _) fun _ => ?_
  split
  case isTrue htree => exact confined_addDataRoot (hdata htree)
  case isFalse => simp

/-- The keys of an update. -/
theorem confined_updateChildNode (hsend : SendsOnly x source allowed)
    {tree tid objectId : String}
    (hread : readable (rootKey (treeOf tree tid))) (hwrite : writable (rootKey (treeOf tree tid)))
    (htx : ∀ hash, writable (transactionKey hash))
    (hobject : writable (objectKey tree tid objectId)) (channelId txid object : String) :
    Confined readable writable allowed
      (updateChildNode S x source tree channelId txid tid objectId object) := by
  unfold updateChildNode
  apply Confined.bind (confined_dhtGet hread)
  intro rootHash
  split
  · simp [hsend]
  · refine Confined.bind (by simp) fun map => Confined.bind (by simp) fun existingObjectHash => ?_
    split
    · simp [hsend]
    · refine Confined.bind (by simp) fun oldObject => Confined.bind (by simp) fun _ => ?_
      refine Confined.bind (by simp) fun objectHash => ?_
      refine Confined.bind (confined_dhtPut hobject _) fun _ => ?_
      refine Confined.bind (by simp [hsend]) fun _ => ?_
      exact confined_linkToRoot hread hwrite htx _ _ _

/-- The keys of a delete. -/
theorem confined_deleteObject (hsend : SendsOnly x source allowed)
    {tree tid objectId : String}
    (hread : readable (rootKey (treeOf tree tid))) (hwrite : writable (rootKey (treeOf tree tid)))
    (htx : ∀ hash, writable (transactionKey hash))
    (hobject : writable (objectKey tree tid objectId))
    (hdata : tree = templateTree → writable (dataRootKey tid objectId))
    (channelId txid : String) :
    Confined readable writable allowed
      (deleteObject S x source tree channelId txid tid objectId) := by
  unfold deleteObject
  refine Confined.bind (confined_dhtPut hobject _) fun _ => ?_
  refine Confined.bind (by simp [hsend]) fun _ => ?_
  refine Confined.bind (confined_dhtGet hread) fun rootHash => ?_
  refine Confined.bind (confined_unLinkToRoot hwrite htx _ _ _) fun _ => ?_
  split
  case isTrue htree => exact confined_dhtPut (hdata htree) ""
  case isFalse => simp

/-! ### Documents -/

/-- An index is changed without reading or writing a key. -/
theorem confined_updateIndex (documentId documentHash : String) (op : DocumentOp)
    (entityRoot index bNode value : String) :
    Confined readable writable allowed
      (updateIndex S documentId documentHash op entityRoot index bNode value) := by
  unfold updateIndex
  apply Confined.bind (confined_getUnorderedEdgeNamesOf bNode)
  intro b_c
  dsimp only
  apply Confined.bind
  · split <;> simp
  intro cNode
  apply Confined.bind
  · split <;> simp
  intro cNode
  apply Confined.bind
  · split <;> simp
  intro cNode
  apply Confined.bind
  · split
    · exact Confined.bind (by simp) fun _ => by simp
    · simp
  intro newBNode
  exact Confined.bind (by simp) fun _ => by simp

theorem confined_updateIndexes {tid entityId : String} (hroot : writable (dataRootKey tid entityId))
    (documentId documentHash : String) (op : DocumentOp) (inputJson : Json) (entityRoot : String)
    (indexes : List (String × String)) :
    Confined readable writable allowed
      (updateIndexes S tid entityId documentId documentHash op inputJson entityRoot indexes) := by
  induction indexes generalizing entityRoot with
  | nil => exact confined_ret ()
  | cons index rest ih =>
      rcases index with ⟨index, bNode⟩
      unfold updateIndexes
      split
      · exact ih entityRoot
      · apply Confined.bind (confined_updateIndex _ _ _ _ _ _ _)
        intro newRoot
        exact Confined.bind (confined_dhtPut hroot _) fun _ => ih newRoot
      · simp

theorem confined_nameDocument (hsend : SendsOnly x source allowed)
    (channelId txid documentJson : String) :
    Confined readable writable allowed (nameDocument S x source channelId txid documentJson) := by
  unfold nameDocument
  split
  · simp
  · exact Confined.bind (by simp [hsend]) fun _ => by simp

/-- The keys of one document. -/
theorem confined_createOrDeleteDocument (hsend : SendsOnly x source allowed)
    {tid entityId documentId : String} {op : DocumentOp}
    (hread : readable (dataRootKey tid entityId)) (hroot : writable (dataRootKey tid entityId))
    (hdocument :
      writable (documentKey tid entityId (if op = .create then x.guid.text else documentId)))
    (channelId txid documentJson : String) :
    Confined readable writable allowed
      (createOrDeleteDocument S x source channelId txid tid entityId documentId documentJson
        op) := by
  unfold createOrDeleteDocument
  apply Confined.bind (confined_dhtGet hread)
  intro entityRoot
  split
  · simp [hsend]
  · dsimp only
    apply Confined.bind
    · split
      · exact confined_nameDocument hsend _ _ _
      · simp
    intro documentJson
    apply Confined.bind
    · split <;> simp
    intro documentHash
    apply Confined.bind (confined_dhtPut hdocument _)
    intro _
    apply Confined.bind
    · split <;> simp [hsend]
    intro _
    refine Confined.bind (by simp) fun a_b => Confined.bind (by simp) fun inputJson => ?_
    exact confined_updateIndexes hroot _ _ _ _ _ _

/-- The loop over documents writes their keys and the root of the entity. -/
theorem confined_eachDocument (hsend : SendsOnly x source allowed)
    {tid entityId : String} {op : DocumentOp} (hop : op ≠ .create)
    (hread : readable (dataRootKey tid entityId)) (hroot : writable (dataRootKey tid entityId))
    (channelId txid documentJson : String) {docs : List Json}
    (hdocs : ∀ doc ∈ docs, ∀ id, doc.stringAt "id" = some id →
      writable (documentKey tid entityId id)) :
    Confined readable writable allowed
      (eachDocument S x source channelId txid tid entityId documentJson op docs) := by
  induction docs with
  | nil => exact confined_ret ()
  | cons doc docs ih =>
      unfold eachDocument
      cases hid : doc.stringAt "id" with
      | none => exact confined_raise
      | some id =>
          have hdocument :
              writable (documentKey tid entityId (if op = .create then x.guid.text else id)) := by
            rw [if_neg hop]
            exact hdocs doc List.mem_cons_self id hid
          rw [orRaise, Prog.ret_bind]
          apply Confined.bind (by simp)
          intro text
          apply Confined.bind (confined_createOrDeleteDocument hsend hread hroot hdocument _ _ _)
          intro _
          exact ih fun doc hdoc => hdocs doc (List.mem_cons_of_mem _ hdoc)

theorem confined_searchDocument {tid entityId : String}
    (hread : readable (dataRootKey tid entityId)) (expression : String) :
    Confined readable writable allowed (searchDocument S tid entityId expression) := by
  unfold searchDocument
  apply Confined.bind (confined_dhtGet hread)
  intro hash
  split <;> simp

/-- The keys of all documents that a search finds. -/
theorem confined_updateOrDeleteDocument (hsend : SendsOnly x source allowed)
    {tid entityId : String} {op : DocumentOp}
    (hop : op ≠ .create) (hread : readable (dataRootKey tid entityId))
    (hroot : writable (dataRootKey tid entityId))
    (hdocument : ∀ id, writable (documentKey tid entityId id))
    (channelId txid expression documentJson : String) :
    Confined readable writable allowed
      (updateOrDeleteDocument S x source channelId txid tid entityId expression documentJson
        op) := by
  unfold updateOrDeleteDocument
  apply Confined.bind (confined_dhtGet hread)
  intro entityRoot
  split
  · simp [hsend]
  · apply Confined.bind (confined_searchDocument hread expression)
    intro docs
    split
    · simp [hsend]
    · apply Confined.bind
      · split
        · exact confined_eachDocument hsend hop hread hroot _ _ _ fun _ _ id _ => hdocument id
        -- an answer that is no array raises
        all_goals simp
      intro _
      simp [hsend]

end Confined

/-! ## The keys of a tenant -/

/-- The keys that the commands and the queries of a tenant read. -/
inductive ReadBy (tid : String) : String → Prop where
  | root {tree : String} (h : tree = functionTree ∨ tree = templateTree) :
      ReadBy tid (rootKey (treeOf tree tid))
  | dataRoot (entityId : String) : ReadBy tid (dataRootKey tid entityId)
  | object {tree : String} (h : tree = functionTree ∨ tree = templateTree) (objectId : String) :
      ReadBy tid (objectKey tree tid objectId)

/-- The keys that the commands of a tenant write. -/
inductive WrittenBy (tid : String) : String → Prop where
  | root {tree : String} (h : tree = functionTree ∨ tree = templateTree) :
      WrittenBy tid (rootKey (treeOf tree tid))
  | dataRoot (entityId : String) : WrittenBy tid (dataRootKey tid entityId)
  | object {tree : String} (h : tree = functionTree ∨ tree = templateTree) (objectId : String) :
      WrittenBy tid (objectKey tree tid objectId)
  | document (entityId documentId : String) : WrittenBy tid (documentKey tid entityId documentId)
  | transaction (hash : String) : WrittenBy tid (transactionKey hash)

/-- Every command stays at the keys of its tenant. -/
theorem confined_executeStateChangeCommand (S : Services) {x : CommandEnv}
    {source : String} {allowed : Response → Prop} (hsend : SendsOnly x source allowed)
    (command : List String) (channelId txid tid : String) :
    Confined (ReadBy tid) (WrittenBy tid) allowed
      (executeStateChangeCommand S x command source channelId txid tid) := by
  have hfunction : functionTree = functionTree ∨ functionTree = templateTree := .inl rfl
  have htemplate : templateTree = functionTree ∨ templateTree = templateTree := .inr rfl
  unfold executeStateChangeCommand
  apply Confined.bind (confined_orRaise _)
  intro number
  split
  -- functions, documents and templates are added first, then changed and deleted
  · exact confined_addChildNode hsend (.root hfunction) (.root hfunction) .transaction
      (.object hfunction _) (fun _ => .dataRoot _) _ _ _
  · exact confined_createOrDeleteDocument hsend (.dataRoot _) (.dataRoot _) (.document _ _) _ _ _
  · exact confined_addChildNode hsend (.root htemplate) (.root htemplate) .transaction
      (.object htemplate _) (fun _ => .dataRoot _) _ _ _
  · exact confined_updateChildNode hsend (.root hfunction) (.root hfunction) .transaction
      (.object hfunction _) _ _ _
  · exact confined_updateChildNode hsend (.root htemplate) (.root htemplate) .transaction
      (.object htemplate _) _ _ _
  · exact confined_updateOrDeleteDocument hsend (by simp) (.dataRoot _) (.dataRoot _)
      (fun _ => .document _ _) _ _ _ _
  · exact confined_deleteObject hsend (.root hfunction) (.root hfunction) .transaction
      (.object hfunction _) (fun _ => .dataRoot _) _ _
  · exact confined_deleteObject hsend (.root htemplate) (.root htemplate) .transaction
      (.object htemplate _) (fun _ => .dataRoot _) _ _
  · exact confined_updateOrDeleteDocument hsend (by simp) (.dataRoot _) (.dataRoot _)
      (fun _ => .document _ _) _ _ _ _
  · simp

end DecentralizedCloud.Storage
